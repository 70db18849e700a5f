import FunDB.Foundation.Text
import FunDB.Sql.PrintedText

/-! # Commands of the interactive loop

A line that starts with a backslash is a command. Some commands stand for a
statement, which the server reads as they mean it. -/

namespace FunDB.Cli

open Text Sql Lexer

/-! ## Commands -/

inductive OutputFormat where
  | table
  | json
  | csv
deriving DecidableEq, Repr

inductive MemorySubcommand where
  | list
  | recall (query : String)
  | forget (id : String)
deriving DecidableEq, Repr

inductive MetaCommand where
  | help
  | quit
  | connect (host : String) (port : Nat)
  | memory (subcommand : MemorySubcommand)
  | causal (start finish : String)
  | understand (intent : String)
  | status
  | format (format : OutputFormat)
  | unknown (message : String)
deriving DecidableEq, Repr

/-- `str::splitn` at white space. -/
def splitn : Nat → List Char → List (List Char)
  | 0, _ => []
  | 1, text => [text]
  | count + 2, text =>
      if text.any isWhitespace then
        text.takeWhile (!isWhitespace ·) ::
          splitn (count + 1) (text.dropWhile (!isWhitespace ·)).tail
      else [text]

/-- `host` or `host:port`, or a port on its own. -/
def parseHostPort (hostArg : String) (portArg : Option String) : String × Nat :=
  let defaultPort := 5433
  if ':' ∈ hostArg.toList then
    -- `rfind(':')`
    let behind := hostArg.toList.rtakeWhile (· != ':')
    (String.ofList (hostArg.toList.rdropWhile (· != ':')).dropLast,
      (parseUnsigned 16 (String.ofList behind)).getD defaultPort)
  else (hostArg, (portArg.bind (parseUnsigned 16)).getD defaultPort)

namespace MetaCommand

variable (cases : CaseMapping)

def parseFormat (fmtStr : String) : MetaCommand :=
  match cases.toLowercase fmtStr with
  | "table" => .format .table
  | "json" => .format .json
  | "csv" => .format .csv
  | _ => .unknown ("Unknown format '" ++ fmtStr ++ "'. Use: table, json, csv")

def parseMemory (rest : List String) : MetaCommand :=
  match cases.toLowercase (rest.headD "") with
  | "list" | "" => .memory .list
  | "recall" =>
      let query := " ".intercalate rest.tail
      if query = "" then .unknown "\\memory recall requires a query argument"
      else .memory (.recall query)
  | "forget" =>
      let id := rest.tail.headD ""
      if id = "" then .unknown "\\memory forget requires an id argument"
      else .memory (.forget id)
  | other =>
      .unknown ("Unknown memory subcommand '" ++ other ++ "'. Use: list, recall, forget")

/-- The command behind the backslash, if there is one. -/
def parse (input : String) : MetaCommand :=
  let trimmed := (trim input).toList
  let withoutSlash := if trimmed.head? = some '\\' then trimmed.tail else trimmed
  match (splitn 4 withoutSlash).filter (· ≠ []) with
  | [] => .unknown input
  | cmd :: _ =>
      -- What is behind the first white space, in words.
      let rest := splitWhitespace
        (String.ofList (withoutSlash.dropWhile (!isWhitespace ·)).tail)
      match cases.toLowercase (String.ofList cmd) with
      | "q" | "quit" => .quit
      | "?" | "help" => .help
      | "status" => .status
      | "format" | "f" => parseFormat cases (rest.headD "")
      | "connect" | "c" =>
          let (host, port) := parseHostPort (rest.headD "localhost") rest.tail.head?
          .connect host port
      | "understand" | "u" =>
          let intent := " ".intercalate rest
          if intent = "" then .unknown "\\understand requires an intent argument"
          else .understand intent
      | "causal" =>
          match rest with
          | start :: finish :: _ => .causal start finish
          | _ => .unknown "\\causal requires two arguments: <from_id> <to_id>"
      | "memory" | "mem" => parseMemory cases rest
      | other => .unknown ("Unknown meta-command: \\" ++ other)

end MetaCommand

/-- `str::replace` of a quote by two. -/
def doubleSingleQuotes (text : String) : String :=
  String.ofList (text.toList.flatMap fun char => if char = '\'' then ['\'', '\''] else [char])

def MetaCommand.sql : MetaCommand → Option String
  | .understand intent => some ("UNDERSTAND '" ++ doubleSingleQuotes intent ++ "' LIMIT 10;")
  | .causal start finish => some ("CAUSAL TRACE '" ++ start ++ "' TO '" ++ finish ++ "';")
  | .memory .list => some "SELECT * FROM memories ORDER BY created_at DESC LIMIT 20;"
  | .memory (.recall query) =>
      some ("RECALL '" ++ doubleSingleQuotes query ++ "' FROM memories LIMIT 10;")
  | .memory (.forget id) =>
      some ("DELETE FROM memories WHERE id = '" ++ doubleSingleQuotes id ++ "';")
  | .help | .quit | .connect _ _ | .status | .format _ | .unknown _ => none

end FunDB.Cli

namespace FunDB.Sql

open Lexer

variable {platform : TextPlatform}

/-! ## Texts of several tokens -/

def Lexes (platform : TextPlatform) (text : List Char) (tokens : List Token) : Prop :=
  scan platform text = .ok tokens ∧ TokensAligned platform text

theorem lexes_nil : Lexes platform [] [.eof] :=
  ⟨scan_eof rfl, .of_eof rfl⟩

/-- A token in front of a text that it is not run into. -/
theorem Lexes.cons {char : Char} {rest tail : List Char} {token : Token} {tokens : List Token}
    (lexes : Lexes platform tail tokens)
    (solid : skip .code (char :: rest ++ tail) = .ok (char :: rest ++ tail))
    (scanned : scanToken platform char (rest ++ tail) = .ok (token, tail))
    (aligned : PairAligned (char :: rest ++ tail)) :
    Lexes platform (char :: rest ++ tail) (token :: tokens) := by
  constructor
  · have read : scan platform (char :: (rest ++ tail)) = _ := scan_token solid scanned
    rw [List.cons_append, read, lexes.1]
    rfl
  · exact (TokensAligned.token_iff solid scanned).mpr ⟨aligned, lexes.2⟩

theorem Lexes.spaced {char : Char} {rest tail : List Char} {token : Token} {tokens : List Token}
    (lexes : Lexes platform tail tokens) (separable : Separable platform char rest token) :
    Lexes platform (char :: rest ++ ' ' :: tail) (token :: tokens) := by
  have space := skip_space tail
  have behind : Lexes platform (' ' :: tail) tokens := by
    constructor
    · rw [scan_congr space, lexes.1]
    · exact lexes.2.congr space
  exact behind.cons (separable.solid _ (.inr ⟨_, rfl⟩)) (separable.scanned _ (.inr ⟨_, rfl⟩))
    (separable.aligned.append (.inr ⟨_, rfl⟩))

theorem lexes_semicolon : Lexes platform [';'] [.semicolon, .eof] := by
  have separable : Separable platform ';' [] .semicolon :=
    separable_operator (by decide) fun tail _ => rfl
  simpa using lexes_nil.cons (separable.solid [] (.inl rfl)) (separable.scanned [] (.inl rfl))
    (separable.aligned.append (.inl rfl))

theorem scanString_closed (content : List Char) {tail : List Char}
    (closed : tail.head? ≠ some '\'') :
    scanString ((content.flatMap fun char => if char = '\'' then ['\'', '\''] else [char]) ++
      '\'' :: tail) = some (content, tail) := by
  induction content with
  | nil =>
      rw [List.flatMap_nil, List.nil_append, scanString]
      intro rest same
      rw [same] at closed
      exact closed rfl
  | cons char content induction =>
      rw [List.flatMap_cons, List.append_assoc]
      by_cases quote : char = '\''
      · rw [if_pos quote, quote, List.cons_append, List.cons_append, List.nil_append, scanString,
          induction]
        rfl
      · rw [if_neg quote, List.cons_append, List.nil_append, scanString, induction]
        · rfl
        · intro rest same
          exact absurd same quote
        · intro same
          exact absurd same quote

theorem lexes_quoted_semicolon {content : List Char}
    (ascii : ∀ char ∈ content, char.toNat < 128) :
    Lexes platform (quoted content ++ [';'])
      [.stringLiteral (String.ofList content), .semicolon, .eof] := by
  have notStart : ¬platform.isWordStart '\'' = true := by
    rw [isWordStart_ascii (by decide)]
    decide
  have shape : quoted content ++ [';'] = '\'' :: (quoted content).tail ++ [';'] := rfl
  have read : scanString ((quoted content).tail ++ [';']) = some (content, [';']) := by
    rw [quoted, List.cons_append, List.tail_cons, List.append_assoc]
    exact scanString_closed content (by decide)
  rw [shape]
  apply lexes_semicolon.cons (solid_of_ne (by decide) (by decide) (by decide) _)
  · rw [scanToken, if_neg (not_number (by decide) (by decide) _), if_neg notStart, if_pos rfl,
      read]
  · apply PairAligned.of_ascii
    rw [← shape]
    intro char member
    rcases List.mem_append.mp member with inside | last
    · exact quoted_ascii ascii char inside
    · rw [List.mem_singleton.mp last]
      decide

theorem separable_name {char : Char} {rest : List Char}
    (starts : char.toNat < 128 ∧ (char.isAlpha || char == '_') = true)
    (letters : ∀ other ∈ rest,
      other.toNat < 128 ∧ (other.isAlpha || other.isDigit || other == '_') = true) :
    Separable platform char rest (wordToken (char :: rest)) := by
  apply separable_word
  · rw [isWordStart_ascii starts.1, starts.2]
  · intro other member
    rw [isWordChar_ascii (letters other member).1, (letters other member).2]
  · exact .of_ascii (List.forall_mem_cons.mpr ⟨starts.1, fun other member =>
      (letters other member).1⟩)

theorem lexes_ten_semicolon : Lexes platform "10;".toList [.intLiteral 10, .semicolon, .eof] :=
  have aligned : PairAligned ('1' :: ['0'] ++ [';']) := .of_ascii (Text.forall_mem_of_all rfl)
  lexes_semicolon.cons (by decide) rfl aligned

theorem Lexes.word {tail : List Char} {tokens : List Token} (lexes : Lexes platform tail tokens)
    (char : Char) (rest : List Char)
    (letters : (char :: rest).all
      (fun other => decide (other.toNat < 128 ∧ other.isAlpha = true)) = true) :
    Lexes platform (char :: rest ++ ' ' :: tail) (wordToken (char :: rest) :: tokens) :=
  lexes.spaced (separable_keyword (Text.forall_mem_of_all letters))

theorem Lexes.quoted {tail : List Char} {tokens : List Token} (lexes : Lexes platform tail tokens)
    {content : List Char} (ascii : ∀ char ∈ content, char.toNat < 128) :
    Lexes platform (Sql.quoted content ++ ' ' :: tail)
      (.stringLiteral (String.ofList content) :: tokens) :=
  lexes.spaced (separable_quoted platform ascii)

theorem exists_spanned {spanned : List (Token × Span)} {token : Token} {tokens : List Token}
    (same : spanned.map Prod.fst = token :: tokens) :
    ∃ span rest, spanned = (token, span) :: rest ∧ rest.map Prod.fst = tokens := by
  rcases List.map_eq_cons_iff.mp same with ⟨⟨first, span⟩, rest, rfl, rfl, others⟩
  exact ⟨span, rest, rfl, others⟩

theorem parse_of_statement {text : String} {tokens : List Token} {stmt : Ast.Statement}
    (lexes : Lexes platform text.toList tokens)
    (parsed : ∀ spanned, spanned.map Prod.fst = tokens →
      ∃ parser after, Parser.new spanned = some parser ∧
        Parse.parseStatement parser = .ok stmt after) :
    parse platform text = .ok stmt := by
  rcases tokenize_of_scan lexes.2 lexes.1 with ⟨spanned, lexer, tokenized, same⟩
  rcases parsed spanned same with ⟨parser, after, started, ran⟩
  simp only [parse, tokenized, started, ran]

theorem parse_of_error {text : String} {tokens : List Token}
    (lexes : Lexes platform text.toList tokens)
    (parsed : ∀ spanned, spanned.map Prod.fst = tokens →
      ∃ parser error, Parser.new spanned = some parser ∧
        Parse.parseStatement parser = .err error) :
    ∃ error, parse platform text = .parseError error := by
  rcases tokenize_of_scan lexes.2 lexes.1 with ⟨spanned, lexer, tokenized, same⟩
  rcases parsed spanned same with ⟨parser, error, started, ran⟩
  exact ⟨error, by simp only [parse, tokenized, started, ran]⟩

end FunDB.Sql

namespace FunDB.Cli

open Text Sql Lexer

variable {platform : TextPlatform}

/-! ## What commands send -/

theorem toList_doubleSingleQuotes (text : String) :
    '\'' :: (doubleSingleQuotes text).toList ++ ['\''] = quoted text.toList := by
  rw [doubleSingleQuotes, String.toList_ofList, quoted]

theorem parse_understand {intent : String} (ascii : ∀ char ∈ intent.toList, char.toNat < 128) :
    parse platform ("UNDERSTAND '" ++ doubleSingleQuotes intent ++ "' LIMIT 10;") =
      .ok (.understand ⟨intent, []⟩) := by
  have shape : ("UNDERSTAND '" ++ doubleSingleQuotes intent ++ "' LIMIT 10;").toList =
      'U' :: "NDERSTAND".toList ++ ' ' :: (quoted intent.toList ++
        ' ' :: ('L' :: "IMIT".toList ++ ' ' :: "10;".toList)) := by
    rw [← toList_doubleSingleQuotes]
    simp [String.toList_append]
  have lexes : Lexes platform
      ("UNDERSTAND '" ++ doubleSingleQuotes intent ++ "' LIMIT 10;").toList
      [.understand, .stringLiteral (String.ofList intent.toList), .limit, .intLiteral 10,
        .semicolon, .eof] := by
    rw [shape]
    exact ((lexes_ten_semicolon.word 'L' "IMIT".toList rfl).quoted ascii).word
      'U' "NDERSTAND".toList rfl
  rw [String.ofList_toList] at lexes
  apply parse_of_statement lexes
  intro spanned same
  rcases exists_spanned same with ⟨_, first, rfl, fromIntent⟩
  rcases exists_spanned fromIntent with ⟨_, second, rfl, fromLimit⟩
  rcases exists_spanned fromLimit with ⟨_, third, rfl, _⟩
  exact ⟨_, _, rfl, rfl⟩

theorem parse_forget {id : String} (ascii : ∀ char ∈ id.toList, char.toNat < 128) :
    parse platform ("DELETE FROM memories WHERE id = '" ++ doubleSingleQuotes id ++ "';") =
      .ok (.delete ⟨"memories",
        some (.binaryOp .eq (.ident "id") (.literal (.string id)))⟩) := by
  have shape : ("DELETE FROM memories WHERE id = '" ++ doubleSingleQuotes id ++ "';").toList =
      'D' :: "ELETE".toList ++ ' ' :: ('F' :: "ROM".toList ++ ' ' :: ('m' :: "emories".toList ++
        ' ' :: ('W' :: "HERE".toList ++ ' ' :: ('i' :: "d".toList ++ ' ' :: ('=' :: [] ++
          ' ' :: (quoted id.toList ++ [';'])))))) := by
    rw [← toList_doubleSingleQuotes]
    simp [String.toList_append]
  have equals : Separable platform '=' [] .assign :=
    separable_operator (by decide) fun tail ends => by
      rcases ends with rfl | ⟨rest, rfl⟩
      · rfl
      · rfl
  have lexes : Lexes platform
      ("DELETE FROM memories WHERE id = '" ++ doubleSingleQuotes id ++ "';").toList
      [.delete, .from, .ident "memories", .where, .ident "id", .assign,
        .stringLiteral (String.ofList id.toList), .semicolon, .eof] := by
    rw [shape]
    exact ((((((lexes_quoted_semicolon ascii).spaced equals).word
      'i' "d".toList rfl).word 'W' "HERE".toList rfl).word
        'm' "emories".toList rfl).word 'F' "ROM".toList rfl).word 'D' "ELETE".toList rfl
  rw [String.ofList_toList] at lexes
  apply parse_of_statement lexes
  intro spanned same
  rcases exists_spanned same with ⟨_, first, rfl, fromFrom⟩
  rcases exists_spanned fromFrom with ⟨_, second, rfl, fromTable⟩
  rcases exists_spanned fromTable with ⟨_, third, rfl, fromWhere⟩
  rcases exists_spanned fromWhere with ⟨_, fourth, rfl, fromColumn⟩
  rcases exists_spanned fromColumn with ⟨_, fifth, rfl, fromEquals⟩
  rcases exists_spanned fromEquals with ⟨_, sixth, rfl, fromId⟩
  rcases exists_spanned fromId with ⟨_, seventh, rfl, fromEnd⟩
  rcases exists_spanned fromEnd with ⟨_, eighth, rfl, _⟩
  exact ⟨_, _, rfl, rfl⟩

theorem parse_recall {query : String} (ascii : ∀ char ∈ query.toList, char.toNat < 128) :
    ∃ error, parse platform
      ("RECALL '" ++ doubleSingleQuotes query ++ "' FROM memories LIMIT 10;") =
        .parseError error := by
  have shape : ("RECALL '" ++ doubleSingleQuotes query ++ "' FROM memories LIMIT 10;").toList =
      'R' :: "ECALL".toList ++ ' ' :: (quoted query.toList ++ ' ' :: ('F' :: "ROM".toList ++
        ' ' :: ('m' :: "emories".toList ++ ' ' :: ('L' :: "IMIT".toList ++
          ' ' :: "10;".toList)))) := by
    rw [← toList_doubleSingleQuotes]
    simp [String.toList_append]
  have lexes : Lexes platform
      ("RECALL '" ++ doubleSingleQuotes query ++ "' FROM memories LIMIT 10;").toList
      [.recall, .stringLiteral (String.ofList query.toList), .from, .ident "memories", .limit,
        .intLiteral 10, .semicolon, .eof] := by
    rw [shape]
    exact ((((lexes_ten_semicolon.word 'L' "IMIT".toList rfl).word
      'm' "emories".toList rfl).word 'F' "ROM".toList rfl).quoted ascii).word
        'R' "ECALL".toList rfl
  apply parse_of_error lexes
  intro spanned same
  rcases exists_spanned same with ⟨_, first, rfl, fromQuery⟩
  rcases exists_spanned fromQuery with ⟨_, second, rfl, _⟩
  exact ⟨_, _, rfl, rfl⟩

theorem parse_causal (start finish : String) (stmt : Ast.Statement) :
    parse platform ("CAUSAL TRACE '" ++ start ++ "' TO '" ++ finish ++ "';") ≠ .ok stmt := by
  have shape : ("CAUSAL TRACE '" ++ start ++ "' TO '" ++ finish ++ "';").toList =
      'C' :: "AUSAL".toList ++
        ' ' :: ("TRACE '".toList ++ (start.toList ++ ("' TO '".toList ++
          (finish.toList ++ "';".toList)))) := by
    simp [String.toList_append]
  have separable : Separable platform 'C' "AUSAL".toList (.ident "CAUSAL") :=
    separable_keyword (forall_mem_of_all rfl)
  intro accepted
  cases tokenized : (Lexer.new ("CAUSAL TRACE '" ++ start ++ "' TO '" ++ finish ++
      "';")).tokenize platform with
  | ok result =>
      rcases result with ⟨spanned, lexer⟩
      have scanned := scan_of_tokenize tokenized
      rw [shape, scan_separable separable (.inr ⟨_, rfl⟩)] at scanned
      rcases exists_of_map_eq_ok scanned with ⟨others, _, same⟩
      rcases exists_spanned same.symm with ⟨span, rest, rfl, _⟩
      simp only [parse, tokenized, Parser.new] at accepted
      cases accepted
  | _ =>
      simp only [parse, tokenized] at accepted
      cases accepted

def newestMemories : Ast.SelectStmt Ast.Expr where
  distinct := false
  projections := [.wildcard]
  source := some ⟨"memories", none, false⟩
  joins := []
  whereClause := none
  groupBy := []
  having := none
  orderBy := [⟨.ident "created_at", false⟩]
  limit := some (.literal (.int 20))
  offset := none
  withinContext := none
  asOf := none
  traverse := none
  traceCausality := none
  returnItems := []
  recallBy := none

theorem parse_list :
    parse platform "SELECT * FROM memories ORDER BY created_at DESC LIMIT 20;" =
      .ok (.select newestMemories) := by
  have aligned : PairAligned ('2' :: ['0'] ++ [';']) := .of_ascii (forall_mem_of_all rfl)
  have twenty : Lexes platform "20;".toList [.intLiteral 20, .semicolon, .eof] :=
    lexes_semicolon.cons (by decide) rfl aligned
  have star : Separable platform '*' [] .star :=
    separable_operator (by decide) fun tail _ => rfl
  have column : Separable platform 'c' "reated_at".toList
      (wordToken ('c' :: "reated_at".toList)) :=
    separable_name (by decide) (forall_mem_of_all rfl)
  have lexes : Lexes platform
      "SELECT * FROM memories ORDER BY created_at DESC LIMIT 20;".toList
      [.select, .star, .from, .ident "memories", .order, .by, .ident "created_at", .desc, .limit,
        .intLiteral 20, .semicolon, .eof] :=
    (((((((((twenty.word 'L' "IMIT".toList rfl).word 'D' "ESC".toList rfl).spaced column).word
      'B' "Y".toList rfl).word 'O' "RDER".toList rfl).word 'm' "emories".toList rfl).word
        'F' "ROM".toList rfl).spaced star).word 'S' "ELECT".toList rfl)
  apply parse_of_statement lexes
  intro spanned same
  rcases exists_spanned same with ⟨_, first, rfl, fromStar⟩
  rcases exists_spanned fromStar with ⟨_, second, rfl, fromFrom⟩
  rcases exists_spanned fromFrom with ⟨_, third, rfl, fromTable⟩
  rcases exists_spanned fromTable with ⟨_, fourth, rfl, fromOrder⟩
  rcases exists_spanned fromOrder with ⟨_, fifth, rfl, fromBy⟩
  rcases exists_spanned fromBy with ⟨_, sixth, rfl, fromColumn⟩
  rcases exists_spanned fromColumn with ⟨_, seventh, rfl, fromDesc⟩
  rcases exists_spanned fromDesc with ⟨_, eighth, rfl, fromLimit⟩
  rcases exists_spanned fromLimit with ⟨_, ninth, rfl, fromTwenty⟩
  rcases exists_spanned fromTwenty with ⟨_, tenth, rfl, fromEnd⟩
  rcases exists_spanned fromEnd with ⟨_, last, rfl, _⟩
  exact ⟨_, _, rfl, rfl⟩

theorem mem_splitOnPPrepend {split : Char → Bool} {text before piece : List Char} {char : Char}
    (inside : piece ∈ text.splitOnPPrepend split before) (member : char ∈ piece) :
    char ∈ text ∨ char ∈ before := by
  induction text generalizing before with
  | nil =>
      rw [List.splitOnPPrepend_nil, List.mem_singleton] at inside
      rw [inside, List.mem_reverse] at member
      exact .inr member
  | cons first text induction =>
      by_cases here : split first = true
      · rw [List.splitOnPPrepend_cons_pos here, List.mem_cons,
          List.splitOnP_eq_splitOnPPrepend] at inside
        rcases inside with rfl | inside
        · exact .inr (List.mem_reverse.mp member)
        · rcases induction inside with behind | impossible
          · exact .inl (List.mem_cons_of_mem first behind)
          · cases impossible
      · rw [List.splitOnPPrepend_cons_neg (Bool.not_eq_true _ ▸ here)] at inside
        rcases induction inside with behind | read
        · exact .inl (List.mem_cons_of_mem first behind)
        · rcases List.mem_cons.mp read with rfl | read
          · exact .inl List.mem_cons_self
          · exact .inr read

theorem mem_splitWhitespace {text word : String} {char : Char}
    (inside : word ∈ splitWhitespace text) (member : char ∈ word.toList) :
    char ∈ text.toList := by
  rcases List.mem_map.mp inside with ⟨piece, kept, rfl⟩
  rw [String.toList_ofList] at member
  have split := List.mem_of_mem_filter kept
  rw [List.splitOnP_eq_splitOnPPrepend] at split
  rcases mem_splitOnPPrepend split member with inText | impossible
  · exact inText
  · cases impossible

def words (chars : List Char) : List (List Char) :=
  (chars.splitOnP isWhitespace).filter (· ≠ [])

theorem words_space {char : Char} (space : isWhitespace char = true) (chars : List Char) :
    words (char :: chars) = words chars := by
  rw [words, List.splitOnP_cons_eq_if_modifyHead, if_pos space]
  rfl

theorem words_dropWhile (chars : List Char) :
    words (chars.dropWhile isWhitespace) = words chars := by
  induction chars with
  | nil => rfl
  | cons char chars induction =>
      cases space : isWhitespace char with
      | true => rw [List.dropWhile_cons_of_pos space, induction, words_space space]
      | false => rw [List.dropWhile_cons_of_neg (by rw [space]; exact Bool.false_ne_true)]

theorem words_append_spaces {spaces : List Char}
    (each : ∀ char ∈ spaces, isWhitespace char = true) (chars : List Char) :
    words (chars ++ spaces) = words chars := by
  cases spaces with
  | nil => rw [List.append_nil]
  | cons space spaces =>
      have blank : words spaces = [] := by
        rw [← words_dropWhile, List.dropWhile_eq_nil_iff.mpr fun char member =>
          each char (List.mem_cons_of_mem space member)]
        rfl
      rw [words, List.splitOnP_append_cons _ _ (each space List.mem_cons_self),
        List.filter_append]
      exact (congrArg _ blank).trans (List.append_nil _)

theorem words_trim (line : String) : words (trim line).toList = words line.toList := by
  have kept := List.rdropWhile_append_rtakeWhile (p := isWhitespace)
    (l := line.toList.dropWhile isWhitespace)
  rw [trim, String.toList_ofList, ← words_dropWhile line.toList]
  rw [← words_append_spaces fun char member => List.mem_rtakeWhile_imp member, kept]

theorem words_tail {chars : List Char} (starts : ∀ char ∈ chars.head?, isWhitespace char = false) :
    words (chars.dropWhile (!isWhitespace ·)).tail = (words chars).tail := by
  have noSpace : ∀ char ∈ chars.takeWhile (!isWhitespace ·), isWhitespace char = false := by
    intro char member
    have here := List.mem_takeWhile_imp member
    rwa [Bool.not_eq_true'] at here
  have parts := List.takeWhile_append_dropWhile (p := (!isWhitespace ·)) (l := chars)
  cases behind : chars.dropWhile (!isWhitespace ·) with
  | nil =>
      rw [behind, List.append_nil] at parts
      rw [parts] at noSpace
      rw [words.eq_1 chars, List.splitOnP_eq_singleton noSpace]
      cases chars with
      | nil => rfl
      | cons char chars => rfl
  | cons space others =>
      have isSpace : isWhitespace space = true := by
        have first := List.head?_dropWhile_not (!isWhitespace ·) chars
        rw [behind] at first
        simpa using first
      rw [behind] at parts
      have split := List.splitOnP_append_cons_of_forall_mem noSpace space isSpace others
      rw [parts] at split
      have word : chars.takeWhile (!isWhitespace ·) ≠ [] := by
        cases chars with
        | nil => cases behind
        | cons char chars =>
            rw [List.takeWhile_cons_of_pos (by rw [starts char rfl]; rfl)]
            exact List.cons_ne_nil _ _
      rw [List.tail_cons, words.eq_1 chars, split,
        List.filter_cons_of_pos (p := fun piece => decide (piece ≠ [])) (decide_eq_true word)]
      rfl

/-- The words behind the command are those behind the line's first one. -/
theorem words_behind (line : String) :
    let trimmed := (trim line).toList
    let withoutSlash := if trimmed.head? = some '\\' then trimmed.tail else trimmed
    splitWhitespace (String.ofList (withoutSlash.dropWhile (!isWhitespace ·)).tail) =
      (splitWhitespace line).tail := by
  intro trimmed withoutSlash
  have starts : ∀ char ∈ trimmed.head?, isWhitespace char = false := by
    intro char first
    have isPrefix : trimmed <+: line.toList.dropWhile isWhitespace := by
      rw [show trimmed = _ from String.toList_ofList]
      exact List.rdropWhile_prefix _ _
    have here := List.head?_dropWhile_not isWhitespace line.toList
    rcases isPrefix with ⟨rest, whole⟩
    rw [← whole, List.head?_append, Option.mem_def.mp first] at here
    simpa using here
  have same : withoutSlash.dropWhile (!isWhitespace ·) = trimmed.dropWhile (!isWhitespace ·) := by
    cases shape : trimmed with
    | nil => simp [withoutSlash, shape]
    | cons char chars =>
        by_cases slash : char = '\\'
        · subst slash
          simp only [withoutSlash, shape, List.head?_cons, if_pos, List.tail_cons]
          rw [List.dropWhile_cons_of_pos (by decide)]
        · simp only [withoutSlash, shape, List.head?_cons, Option.some.injEq, if_neg slash]
  rw [same, splitWhitespace, splitWhitespace, String.toList_ofList, ← List.map_tail]
  exact congrArg _ ((words_tail starts).trans (congrArg _ (words_trim line)))

theorem mem_intercalate_space {words : List String} {char : Char}
    (member : char ∈ (" ".intercalate words).toList) :
    char = ' ' ∨ ∃ word ∈ words, char ∈ word.toList := by
  induction words with
  | nil =>
      rw [String.intercalate_nil] at member
      cases member
  | cons word words induction =>
      by_cases alone : words = []
      · rw [alone, String.intercalate_singleton] at member
        exact .inr ⟨word, List.mem_cons_self, member⟩
      · rw [String.intercalate_cons_of_ne_nil alone, String.toList_append, String.toList_append,
          List.mem_append, List.mem_append] at member
        rcases member with (here | space) | behind
        · exact .inr ⟨word, List.mem_cons_self, here⟩
        · exact .inl (List.mem_singleton.mp space)
        · rcases induction behind with space | ⟨other, inside, here⟩
          · exact .inl space
          · exact .inr ⟨other, List.mem_cons_of_mem word inside, here⟩

namespace MetaCommand

def texts : MetaCommand → List String
  | .understand intent => [intent]
  | .causal start finish => [start, finish]
  | .memory (.recall query) => [query]
  | .memory (.forget id) => [id]
  | .memory .list | .help | .quit | .connect _ _ | .status | .format _ | .unknown _ => []

/-- What a command takes from the words behind it: an intent and a query are all of
them with one space between any two, and other arguments are single words. -/
inductive Takes (words : List String) : MetaCommand → Prop
  | understand : Takes words (.understand (" ".intercalate words))
  | causal (start finish : String) (first : [start, finish] <+: words) :
      Takes words (.causal start finish)
  | recall : Takes words (.memory (.recall (" ".intercalate words.tail)))
  | forget (id : String) (next : words.tail.head? = some id) : Takes words (.memory (.forget id))
  | plain (command : MetaCommand) (textless : command.texts = []) : Takes words command

variable {cases : CaseMapping}

theorem takes_parseFormat (words : List String) (name : String) :
    (parseFormat cases name).Takes words := by
  unfold parseFormat
  split <;> exact .plain _ rfl

theorem takes_parseMemory (words : List String) : (parseMemory cases words).Takes words := by
  unfold parseMemory
  split
  · exact .plain _ rfl
  · exact .plain _ rfl
  · dsimp only
    split
    · exact .plain _ rfl
    · exact .recall
  · dsimp only
    split
    · exact .plain _ rfl
    · next given =>
        cases behind : words.tail with
        | nil =>
            rw [behind] at given
            exact absurd rfl given
        | cons word others =>
            exact .forget word (by rw [behind, List.head?_cons])
  · exact .plain _ rfl

theorem takes_parse (line : String) :
    (MetaCommand.parse cases line).Takes (splitWhitespace line).tail := by
  have behind := words_behind line
  dsimp only at behind
  unfold MetaCommand.parse
  dsimp only
  rw [behind]
  generalize (splitWhitespace line).tail = words
  split
  · exact .plain _ rfl
  · split
    · exact .plain _ rfl
    · exact .plain _ rfl
    · exact .plain _ rfl
    · exact .plain _ rfl
    · exact .plain _ rfl
    · exact takes_parseFormat words _
    · exact takes_parseFormat words _
    · exact .plain _ rfl
    · exact .plain _ rfl
    · split
      · exact .plain _ rfl
      · exact .understand
    · split
      · exact .plain _ rfl
      · exact .understand
    · split
      · exact .causal _ _ ⟨_, rfl⟩
      · exact .plain _ rfl
    · exact takes_parseMemory words
    · exact takes_parseMemory words
    · exact .plain _ rfl

theorem mem_texts {command : MetaCommand} {words : List String} (takes : command.Takes words)
    {text : String} {char : Char} (sent : text ∈ command.texts) (member : char ∈ text.toList) :
    char = ' ' ∨ ∃ word ∈ words, char ∈ word.toList := by
  cases takes with
  | understand =>
      rw [List.mem_singleton.mp sent] at member
      exact mem_intercalate_space member
  | causal start finish first => exact .inr ⟨text, first.subset sent, member⟩
  | «recall» =>
      rw [List.mem_singleton.mp sent] at member
      rcases mem_intercalate_space member with space | ⟨word, inside, here⟩
      · exact .inl space
      · exact .inr ⟨word, List.mem_of_mem_tail inside, here⟩
  | forget id next =>
      rw [List.mem_singleton.mp sent] at member
      exact .inr ⟨id, List.mem_of_mem_tail (List.mem_of_mem_head? next), member⟩
  | plain command textless =>
      rw [textless] at sent
      cases sent

end MetaCommand

/-- The server reads a command's statement as the command means it. It knows no
CAUSAL statement, and no RECALL from a table. -/
inductive Understood (platform : TextPlatform) (sql : String) : MetaCommand → Prop
  | understand (intent : String) (parsed : parse platform sql = .ok (.understand ⟨intent, []⟩)) :
      Understood platform sql (.understand intent)
  | list (parsed : parse platform sql = .ok (.select newestMemories)) :
      Understood platform sql (.memory .list)
  | forget (id : String) (parsed : parse platform sql = .ok (.delete ⟨"memories",
      some (.binaryOp .eq (.ident "id") (.literal (.string id)))⟩)) :
      Understood platform sql (.memory (.forget id))
  | recall (query : String) (refused : ∃ error, parse platform sql = .parseError error) :
      Understood platform sql (.memory (.recall query))
  | causal (start finish : String) (refused : ∀ stmt, parse platform sql ≠ .ok stmt) :
      Understood platform sql (.causal start finish)

end FunDB.Cli
