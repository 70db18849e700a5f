import FunDB.Sql.BalancedParsing
import FunDB.Sql.LexerSafety
import FunDB.Sql.ParserPost

/-! # Rows in parentheses

Behind VALUES, each row of an INSERT is one group of parentheses. -/

namespace FunDB.Sql

open Ast ByteSlices Lexer Parentheses

namespace Parse

theorem Ensures.not_inserted {parse : Parse Statement} {parser after : Parser}
    {stmt : InsertStmt} (other : Ensures parse NotInsert) :
    parse parser ≠ .ok (.insert stmt) after := by
  intro ran
  have excluded : isInsertion (.insert stmt) = false := other.of_ok parser _ after ran
  cases excluded

theorem parseStatementKind_insert {nested : Nested} {parser after : Parser} {stmt : InsertStmt}
    (ran : parseStatementKind nested parser = .ok (.insert stmt) after) :
    parseInsert nested parser = .ok stmt after := by
  rw [parseStatementKind, bind_ok (peek_apply parser)] at ran
  have other : ∀ {α : Type} (parse : Parse α) (wrap : α → Statement),
      (∀ value, isInsertion (wrap value) = false) →
        (do return wrap (← parse)) parser ≠ .ok (.insert stmt) after :=
    fun parse wrap excluded => Ensures.not_inserted (.bind fun value => .pure (excluded value))
  generalize parser.current.1 = token at ran
  split at ran
  · exact absurd ran (Ensures.not_inserted (parseSelectStmt_notInsert nested))
  · rcases exists_of_bind_ok ran with ⟨inserted, between, parsed, returned⟩
    cases returned
    exact parsed
  · exact absurd ran (other _ _ fun _ => rfl)
  · exact absurd ran (other _ _ fun _ => rfl)
  · exact absurd ran (Ensures.not_inserted (parseCreate_notInsert nested))
  iterate 9 exact absurd ran (other _ _ fun _ => rfl)
  · exact absurd ran (Ensures.not_inserted (.fail _))
  · split at ran
    · exact absurd ran (other _ _ fun _ => rfl)
    · exact absurd ran (Ensures.not_inserted (.fail _))

/-! ## In front of VALUES -/

/-- Whether a token is neither VALUES nor the end of the input. -/
def isInFront : Token → Bool
  | .values => false
  | .eof => false
  | _ => true

theorem ne_eof_of_isInFront {token : Token} (inFront : isInFront token = true) :
    token ≠ .eof := by
  intro same
  rw [same] at inFront
  cases inFront

theorem values_notMem_of_isInFront {token : Token} (inFront : isInFront token = true) :
    Token.values ∉ [token] := by
  intro isIn
  rw [← List.mem_singleton.mp isIn] at inFront
  cases inFront

/-- The keyword VALUES is not read. -/
def PassesValues {α : Type} (parse : Parse α) : Prop :=
  Consumes none parse fun _ tokens => Token.values ∉ tokens

namespace PassesValues

variable {α β σ : Type}

theorem bind {first : Parse α} {next : α → Parse β} (passes : PassesValues first)
    (rest : ∀ value, PassesValues (next value)) : PassesValues (first >>= next) := by
  apply Consumes.bind passes
  intro value
  apply (rest value).mono
  intro _ more absentLater tokens absent
  rw [List.mem_append, not_or]
  exact ⟨absent, absentLater⟩

theorem pure (value : α) : PassesValues (Pure.pure value) := Consumes.pure List.not_mem_nil

theorem eat {token : Token} (inFront : isInFront token = true) :
    PassesValues (Parse.eat token) := by
  apply (Consumes.eat (ne_eof_of_isInFront inFront)).mono
  intro eaten tokens read
  rw [read]
  cases eaten with
  | true => exact values_notMem_of_isInFront inFront
  | false => exact List.not_mem_nil

theorem expect {token : Token} (inFront : isInFront token = true) :
    PassesValues (Parse.expect token) := by
  apply (Consumes.expect (ne_eof_of_isInFront inFront)).mono
  intro _ tokens read
  rw [read]
  exact values_notMem_of_isInFront inFront

theorem loop {step : σ → Parse (Option σ)} (passes : ∀ state, PassesValues (step state))
    (start : σ) : PassesValues (Parse.loop step start) := by
  change Consumes none _ fun _ tokens => Token.values ∉ tokens
  apply Consumes.loop
  · exact List.not_mem_nil
  · intro state
    apply (passes state).mono
    intro _ more absentLater tokens absent
    rw [List.mem_append, not_or]
    exact ⟨absent, absentLater⟩

end PassesValues

theorem passesValues_expectIdent : PassesValues expectIdent := by
  apply Consumes.peek
  intro token
  split
  · next name named =>
      have inside : token ≠ .eof := ne_eof_of_isPlain (isPlain_of_keywordAsIdent named)
      apply Consumes.bind (Consumes.advance inside)
      intro _
      apply Consumes.pure
      intro tokens read isIn
      rw [List.append_nil, read, List.mem_singleton] at isIn
      rw [← isIn] at named
      cases named
  · exact Consumes.fail _

theorem passesValues_parseQualifiedName : PassesValues parseQualifiedName := by
  apply PassesValues.bind passesValues_expectIdent
  intro name
  apply PassesValues.bind (.eat rfl)
  intro dotted
  split
  · exact .bind passesValues_expectIdent fun _ => .pure _
  · exact .pure name

theorem passesValues_parseColumns : PassesValues parseColumns := by
  apply PassesValues.bind (.eat rfl)
  intro listed
  split
  · apply PassesValues.bind
    · apply PassesValues.bind passesValues_expectIdent
      intro first
      apply PassesValues.loop
      intro columns
      apply PassesValues.bind (.eat rfl)
      intro comma
      split
      · apply Consumes.peek
        intro token
        split
        · exact Consumes.ofAny (PassesValues.pure none)
        · apply Consumes.ofAny
          exact PassesValues.bind passesValues_expectIdent fun _ => .pure _
      · exact .pure none
    · intro columns
      exact .bind (.expect rfl) fun _ => .pure columns
  · exact .pure []

theorem passesValues_skipSemicolons : PassesValues skipSemicolons := by
  apply PassesValues.loop
  intro _
  apply PassesValues.bind (.eat rfl)
  intro skipped
  split
  · exact .pure _
  · exact .pure none

/-! ## Behind VALUES -/

/-- The groups of parentheses behind VALUES are so many rows. -/
def RowsBehind (count : Nat) (tokens : List Token) : Prop :=
  ∃ before rows, tokens = before ++ .values :: rows ∧ .values ∉ before ∧
    Groups.start.readAll (rows.filterMap Token.parenthesis) = ⟨count, 0⟩

theorem PassesValues.rowsBehind {α β : Type} {first : Parse α} {next : α → Parse β}
    {count : β → Nat} (passes : PassesValues first)
    (rest : ∀ value, Consumes none (next value) fun returned => RowsBehind (count returned)) :
    Consumes none (first >>= next) fun returned => RowsBehind (count returned) := by
  apply Consumes.bind passes
  intro value
  apply (rest value).mono
  intro returned more behind tokens absent
  rcases behind with ⟨before, rows, same, absentBefore, counted⟩
  refine ⟨tokens ++ before, rows, ?_, ?_, counted⟩
  · rw [same, List.append_assoc]
  · rw [List.mem_append, not_or]
    exact ⟨absent, absentBefore⟩

variable {nested : Nested} (balanced : BalancedNested nested)

include balanced

theorem consumes_parseRow : Consumes none (parseRow nested) fun _ tokens =>
    ∀ opened, Groups.readAll ⟨opened, 0⟩ (tokens.filterMap Token.parenthesis) =
      ⟨opened + 1, 0⟩ := by
  have list : Balanced (commaList (parseExpr nested) none) :=
    .commaList (balanced_parseExpr balanced) none
  apply Consumes.bind (Consumes.expect (by decide))
  intro _
  apply Consumes.bind list
  intro row
  apply Consumes.bind (Consumes.expect (by decide))
  intro _
  apply Consumes.pure
  intro closing closed inside moves opening wasOpened opened
  subst closed wasOpened
  have within := moves (opened + 1) 0
  simp only [List.filterMap_append, Groups.readAll_append]
  change Groups.read (Groups.readAll ⟨opened + 1, 1⟩ (inside.filterMap Token.parenthesis)) ')' = _
  rw [show Groups.readAll ⟨opened + 1, 1⟩ (inside.filterMap Token.parenthesis) =
    ⟨opened + 1, 1⟩ from within]
  rfl

theorem consumes_rows : Consumes none (commaList (parseRow nested) none) fun rows tokens =>
    Groups.start.readAll (tokens.filterMap Token.parenthesis) = ⟨rows.length, 0⟩ := by
  have row := consumes_parseRow balanced
  apply Consumes.bind row
  intro first
  have counted : Consumes none (loop (fun rows => do
      if ← eat .comma then
        if none = some (← peek) then return none
        else return some (rows ++ [← parseRow nested])
      else return none) [first]) fun rows more =>
        Groups.readAll ⟨1, 0⟩ (more.filterMap Token.parenthesis) = ⟨rows.length, 0⟩ := by
    apply Consumes.loop
    · rfl
    · intro rows
      apply Consumes.bind (Consumes.eat (by decide))
      intro comma
      split
      · apply Consumes.peek
        intro token
        split
        · next same => cases same
        · apply Consumes.bind (Consumes.ofAny row)
          intro value
          apply Consumes.pure
          intro added opens separator read tokens held
          rw [read, List.append_nil, List.filterMap_append, Groups.readAll_append, held,
            Option.getD_some, List.length_append]
          exact opens rows.length
      · apply Consumes.pure
        intro separator read tokens held
        rw [read, List.append_nil, List.append_nil]
        exact held
  apply counted.mono
  intro rows more later tokens opens
  rw [List.filterMap_append, Groups.readAll_append, Groups.start, opens 0]
  exact later

theorem consumes_parseInsert : Consumes none (parseInsert nested) fun stmt =>
    RowsBehind stmt.values.length := by
  apply PassesValues.rowsBehind (.expect rfl)
  intro _
  apply PassesValues.rowsBehind (.expect rfl)
  intro _
  apply PassesValues.rowsBehind passesValues_parseQualifiedName
  intro table
  apply PassesValues.rowsBehind passesValues_parseColumns
  intro columns
  apply Consumes.bind (Consumes.expect (by decide))
  intro _
  apply Consumes.bind (consumes_rows balanced)
  intro rows
  apply Consumes.pure
  intro tokens counted keyword read
  exact ⟨[], tokens, by rw [read, List.append_nil]; rfl, List.not_mem_nil, counted⟩

omit balanced in
theorem parseStatement_insert {parser after : Parser} {stmt : InsertStmt} (ends : parser.Ends)
    (ran : parseStatement parser = .ok (.insert stmt) after) :
    ∃ tokens, Reading parser tokens after ∧ RowsBehind stmt.values.length tokens := by
  have anywhere : ∀ cursor : Parser, ∀ token, none = some token → cursor.current.1 = token :=
    fun _ _ absent => by cases absent
  rcases exists_of_bind_ok ran with ⟨_, between, skipped, ranKind⟩
  rcases exists_of_bind_ok ranKind with ⟨kind, middle, parsed, ranEnd⟩
  rcases exists_of_bind_ok ranEnd with ⟨eaten, last, ended, returned⟩
  cases returned
  rcases passesValues_skipSemicolons.of_ok _ _ _ ends (anywhere _) skipped with
    ⟨semicolons, readSemicolons, absent⟩
  have endsBetween := ends.of_reading readSemicolons
  have insert := consumes_parseInsert (balancedNested_nestedTo parser.size)
  rcases insert.of_ok _ _ _ endsBetween (anywhere _) (parseStatementKind_insert parsed) with
    ⟨tokens, readInsert, before, rows, same, absentBefore, counted⟩
  have semicolon : Consumes none (eat .semicolon) _ := Consumes.eat (by decide)
  rcases semicolon.of_ok _ _ _ (endsBetween.of_reading readInsert) (anywhere _) ended with
    ⟨closing, readClosing, closed⟩
  refine ⟨semicolons ++ (tokens ++ closing), readSemicolons.trans (readInsert.trans readClosing),
    semicolons ++ before, rows ++ closing, ?_, ?_, ?_⟩
  · rw [same]
    simp
  · rw [List.mem_append, not_or]
    exact ⟨absent, absentBefore⟩
  · have silent : closing.filterMap Token.parenthesis = [] := by
      rw [closed]
      cases eaten <;> rfl
    rw [List.filterMap_append, silent, List.append_nil]
    exact counted

end Parse

/-! ## Texts that scanning leaves -/

theorem suffix_skip {mode : SkipMode} {text rest : List Char}
    (skipped : skip mode text = .ok rest) : rest <:+ text := by
  fun_induction skip mode text with
  | case1 text induction =>
      exact (induction skipped).trans ((List.suffix_cons _ _).trans (List.suffix_cons _ _))
  | case2 text induction =>
      exact (induction skipped).trans ((List.suffix_cons _ _).trans (List.suffix_cons _ _))
  | case3 char text line block blank induction =>
      exact (induction skipped).trans (List.suffix_cons _ _)
  | case4 char text line block solid => cases skipped; exact List.suffix_refl _
  | case5 => cases skipped; exact List.suffix_refl _
  | case6 text induction => exact (induction skipped).trans (List.suffix_cons _ _)
  | case7 char text notBreak induction => exact (induction skipped).trans (List.suffix_cons _ _)
  | case8 => cases skipped; exact List.suffix_refl _
  | case9 text induction =>
      exact (induction skipped).trans ((List.suffix_cons _ _).trans (List.suffix_cons _ _))
  | case10 char text closing induction => exact (induction skipped).trans (List.suffix_cons _ _)
  | case11 => cases skipped

theorem suffix_scanString {rest content tail : List Char}
    (scanned : scanString rest = some (content, tail)) : tail <:+ rest := by
  fun_induction scanString rest generalizing content with
  | case1 => cases scanned
  | case2 rest induction =>
      rcases Option.map_eq_some_iff.mp scanned with ⟨inner, found, same⟩
      cases same
      exact (induction found).trans ((List.suffix_cons _ _).trans (List.suffix_cons _ _))
  | case3 rest single =>
      cases scanned
      exact List.suffix_cons _ _
  | case4 char rest pair single induction =>
      rcases Option.map_eq_some_iff.mp scanned with ⟨inner, found, same⟩
      cases same
      exact (induction found).trans (List.suffix_cons _ _)

theorem suffix_scanEither (following : Char) (longer shorter : Token) (rest : List Char) :
    (scanEither following longer shorter rest).2 <:+ rest := by
  unfold scanEither
  split
  · exact List.suffix_refl _
  · split
    · exact List.suffix_cons _ _
    · exact List.suffix_refl _

theorem suffix_scanLess (rest : List Char) : (scanLess rest).2 <:+ rest := by
  unfold scanLess
  split
  · exact (List.suffix_cons _ _).trans (List.suffix_cons _ _)
  · exact List.suffix_cons _ _
  · exact List.suffix_cons _ _
  · exact List.suffix_refl _

variable {platform : TextPlatform}

theorem suffix_scanOperator {char : Char} {rest tail : List Char} {token : Token}
    (scanned : scanOperator platform char rest = .ok (token, tail)) : tail <:+ rest := by
  have given {pair : Token × List Char} (behind : pair.2 <:+ rest)
      (same : (.ok pair : Except String (Token × List Char)) = .ok (token, tail)) :
      tail <:+ rest := by
    rw [Except.ok.inj same] at behind
    exact behind
  unfold scanOperator at scanned
  split at scanned
  · cases scanned
    exact List.suffix_refl _
  · split at scanned
    case h_2 =>
      split at scanned
      · cases scanned
        exact List.suffix_cons _ _
      · cases scanned
    case h_3 => exact given (suffix_scanLess rest) scanned
    case h_7 => cases scanned
    all_goals exact given (suffix_scanEither _ _ _ rest) scanned

/-- A token leaves an end of the text behind its first character. -/
theorem suffix_scanToken {char : Char} {rest tail : List Char} {token : Token}
    (scanned : scanToken platform char rest = .ok (token, tail)) : tail <:+ rest := by
  unfold scanToken at scanned
  split at scanned
  · have behind : (scanNumber (char == '.') rest).2.2 <:+ rest := ⟨_, append_scanNumber _ rest⟩
    rcases exists_of_map_eq_ok scanned with ⟨number, parsed, same⟩
    cases same
    exact behind
  · split at scanned
    · cases scanned
      exact List.dropWhile_suffix _
    · split at scanned
      · split at scanned
        · cases scanned
        · next content tail found =>
            cases scanned
            exact suffix_scanString found
      · split at scanned
        · split at scanned
          · cases scanned
            exact List.dropWhile_suffix _
          · cases scanned
            exact List.suffix_refl _
        · exact suffix_scanOperator scanned

theorem parenthesis_wordToken (raw : List Char) : (wordToken raw).parenthesis = none := by
  unfold wordToken
  cases found : Token.keyword _ with
  | none => rfl
  | some token =>
      have plain : ∀ entry ∈ Token.keywords, entry.2.parenthesis = none := by decide
      rcases List.lookup_eq_some_iff.mp found with ⟨before, after, split, _⟩
      apply plain (String.ofList (raw.map Char.toLower), token)
      rw [split]
      simp

theorem parenthesis_numberToken {hasDot : Bool} {raw : List Char} {token : Token}
    (spelled : numberToken platform hasDot raw = .ok token) : token.parenthesis = none := by
  unfold numberToken at spelled
  grind [Token.parenthesis]

theorem eq_of_parenthesis_scanOperator {char paren : Char} {rest tail : List Char}
    {token : Token} (scanned : scanOperator platform char rest = .ok (token, tail))
    (isParen : token.parenthesis = some paren) : char = paren ∧ tail = rest := by
  unfold scanOperator scanEither scanLess singleToken at scanned
  grind [Token.parenthesis]

/-- A token that is a parenthesis is a character of the text. -/
theorem eq_of_parenthesis {char paren : Char} {rest tail : List Char} {token : Token}
    (scanned : scanToken platform char rest = .ok (token, tail))
    (isParen : token.parenthesis = some paren) : char = paren ∧ tail = rest := by
  unfold scanToken at scanned
  split at scanned
  · rcases exists_of_map_eq_ok scanned with ⟨number, parsed, same⟩
    cases same
    rw [parenthesis_numberToken parsed] at isParen
    cases isParen
  · split at scanned
    · cases scanned
      rw [parenthesis_wordToken] at isParen
      cases isParen
    · split at scanned
      · split at scanned
        · cases scanned
        · cases scanned
          cases isParen
      · split at scanned
        · split at scanned <;> cases scanned <;> cases isParen
        · exact eq_of_parenthesis_scanOperator scanned isParen

/-! ## Texts and their tokens -/

variable (platform)

/-- The text behind the first VALUES among its tokens. -/
def behindKeyword : Nat → List Char → Option (List Char)
  | 0, _ => none
  | fuel + 1, text =>
      match skip .code text with
      | .ok (char :: rest) =>
          match scanToken platform char rest with
          | .ok (token, tail) => if token = .values then some tail else behindKeyword fuel tail
          | .error _ => none
      | _ => none

/-- Whether the comments and literals of a text leave its groups alone: outside of all
groups they have no parentheses, and inside of a group they do not close it, and leave
one parenthesis open at its end. The level counts the tokens, the depth all characters. -/
def keepsGroups : Nat → Nat → Nat → List Char → Bool
  | 0, _, _, _ => false
  | fuel + 1, level, depth, text =>
      match skip .code text with
      | .error _ => false
      | .ok [] => (hidden level depth text).isSome
      | .ok (char :: rest) =>
          match hidden level depth (text.take (text.length - (rest.length + 1))) with
          | none => false
          | some depth =>
              match scanToken platform char rest with
              | .error _ => false
              | .ok (.lParen, tail) => keepsGroups fuel (level + 1) (depth + 1) tail
              | .ok (.rParen, tail) =>
                  (1 ≤ level && decide (depth = 1 ↔ level = 1)) &&
                    keepsGroups fuel (level - 1) (depth - 1) tail
              | .ok (_, tail) =>
                  match hidden level depth ((char :: rest).take (rest.length + 1 - tail.length)) with
                  | none => false
                  | some depth => keepsGroups fuel level depth tail

variable {platform}

theorem append_of_suffix {text rest : List Char} (behind : rest <:+ text) :
    text.take (text.length - rest.length) ++ rest = text := by
  rcases behind with ⟨front, rfl⟩
  simp

theorem readAll_of_keepsGroups {fuel level depth : Nat} {text : List Char}
    {tokens : List Token} (aligned : depth = 0 ↔ level = 0)
    (keeps : keepsGroups platform fuel level depth text = true)
    (scanned : scan platform text = .ok tokens) (opened : Nat) :
    (Groups.readAll ⟨opened, depth⟩ text).opened =
      (Groups.readAll ⟨opened, level⟩ (tokens.filterMap Token.parenthesis)).opened := by
  induction fuel generalizing level depth text tokens opened with
  | zero => cases keeps
  | succ fuel induction =>
      rw [keepsGroups] at keeps
      cases skipped : skip .code text with
      | error message =>
          rw [skipped] at keeps
          cases keeps
      | ok left =>
          cases left with
          | nil =>
              rw [skipped] at keeps
              rcases Option.isSome_iff_exists.mp keeps with ⟨after, found⟩
              rw [scan_eof skipped] at scanned
              cases scanned
              rw [(readAll_hidden aligned found opened).2]
              rfl
          | cons char rest =>
              simp only [skipped] at keeps
              have front := append_of_suffix (suffix_skip skipped)
              rw [List.length_cons] at front
              cases found : hidden level depth (text.take (text.length - (rest.length + 1))) with
              | none =>
                  rw [found] at keeps
                  cases keeps
              | some inner =>
                  simp only [found] at keeps
                  rcases readAll_hidden aligned found opened with ⟨still, moved⟩
                  rw [← front, Groups.readAll_append, moved]
                  cases first : scanToken platform char rest with
                  | error message =>
                      rw [first] at keeps
                      cases keeps
                  | ok pair =>
                      rcases pair with ⟨token, tail⟩
                      rw [scan_token skipped first] at scanned
                      rcases exists_of_map_eq_ok scanned with ⟨others, scannedTail, rfl⟩
                      simp only [first] at keeps
                      cases isParen : token.parenthesis with
                      | some paren =>
                          rcases eq_of_parenthesis first isParen with ⟨rfl, rfl⟩
                          rw [Groups.readAll_cons, List.filterMap_cons_some isParen,
                            Groups.readAll_cons]
                          cases token with
                          | lParen =>
                              cases isParen
                              rw [Groups.read_open, Groups.read_open, if_congr still rfl rfl]
                              exact induction (by omega) keeps scannedTail _
                          | rParen =>
                              cases isParen
                              simp only [Bool.and_eq_true, decide_eq_true_eq] at keeps
                              rcases keeps with ⟨⟨inside, last⟩, keeps⟩
                              have depths : (inner : Int) - 1 = (inner - 1 : Nat) := by omega
                              have levels : (level : Int) - 1 = (level - 1 : Nat) := by omega
                              rw [Groups.read_close, Groups.read_close, depths, levels]
                              refine induction ?_ keeps scannedTail opened
                              omega
                          | _ => cases isParen
                      | none =>
                          rw [List.filterMap_cons_none isParen]
                          have back := append_of_suffix
                            ((suffix_scanToken first).trans (List.suffix_cons char rest))
                          rw [List.length_cons] at back
                          have plain : (match hidden level inner
                              ((char :: rest).take (rest.length + 1 - tail.length)) with
                            | none => false
                            | some depth => keepsGroups platform fuel level depth tail) = true := by
                            cases token <;> first | exact keeps | cases isParen
                          cases piece : hidden level inner
                              ((char :: rest).take (rest.length + 1 - tail.length)) with
                          | none =>
                              rw [piece] at plain
                              cases plain
                          | some depth =>
                              rw [piece] at plain
                              rcases readAll_hidden still piece opened with ⟨again, moved⟩
                              rw [← back, Groups.readAll_append, moved]
                              exact induction again plain scannedTail opened

theorem exists_behindKeyword {fuel : Nat} {text behind : List Char} {tokens : List Token}
    (found : behindKeyword platform fuel text = some behind)
    (scanned : scan platform text = .ok tokens) :
    ∃ before after, tokens = before ++ .values :: after ∧ Token.values ∉ before ∧
      scan platform behind = .ok after := by
  induction fuel generalizing text tokens with
  | zero => cases found
  | succ fuel induction =>
      rw [behindKeyword] at found
      split at found
      · next char rest skipped =>
          split at found
          · next token tail first =>
              rw [scan_token skipped first] at scanned
              rcases exists_of_map_eq_ok scanned with ⟨others, scannedTail, rfl⟩
              split at found
              · next isValues =>
                  cases found
                  exact ⟨[], others, by rw [isValues]; rfl, List.not_mem_nil, scannedTail⟩
              · next other =>
                  rcases induction found scannedTail with ⟨before, after, rfl, absent, behind⟩
                  refine ⟨token :: before, after, rfl, ?_, behind⟩
                  rw [List.mem_cons, not_or]
                  exact ⟨Ne.symm other, absent⟩
          · cases found
      · cases found

/-! ## The whole text -/

variable (platform)

def readTokens (input : String) : List Token :=
  match (Lexer.new input).tokenize platform with
  | .ok (tokens, _) =>
      match Parser.new tokens with
      | none => []
      | some parser =>
          match Parse.parseStatement parser with
          | .ok _ after => (tokens.take (parser.size - after.size)).map Prod.fst
          | _ => []
  | _ => []

def unreadTokens (input : String) : List Token :=
  match (Lexer.new input).tokenize platform with
  | .ok (tokens, _) =>
      match Parser.new tokens with
      | none => []
      | some parser =>
          match Parse.parseStatement parser with
          | .ok _ after => (tokens.drop (parser.size - after.size)).map Prod.fst
          | _ => []
  | _ => []

/-- The parentheses among the tokens that are read behind VALUES. -/
def rowParentheses (input : String) : List Char :=
  ((readTokens platform input).dropWhile (· ≠ .values)).tail.filterMap Token.parenthesis

variable {platform}

theorem ends_of_tokenize {input : String} {tokens : List (Token × Span)} {lexer : Lexer}
    (tokenized : (Lexer.new input).tokenize platform = .ok (tokens, lexer)) :
    tokens.getLast?.map Prod.fst = some .eof := by
  rw [← List.getLast?_map]
  exact scan_getLast platform (scan_of_tokenize tokenized)

theorem Reading.take {parser after : Parser} {tokens : List Token}
    (reading : Reading parser tokens after) :
    ((parser.current :: parser.rest).take tokens.length).map Prod.fst = tokens := by
  induction reading with
  | done => rfl
  | token reading induction => exact congrArg _ induction

/-- The rows of a parsed INSERT are the groups of parentheses behind VALUES. -/
theorem readAll_rowParentheses {input : String} {stmt : InsertStmt}
    (parsed : parse platform input = .ok (.insert stmt)) :
    Groups.start.readAll (rowParentheses platform input) = ⟨stmt.values.length, 0⟩ := by
  rw [rowParentheses, readTokens]
  unfold parse at parsed
  split at parsed
  · cases parsed
  · cases parsed
  · cases parsed
  · next tokens lexer tokenized =>
      have last := ends_of_tokenize tokenized
      cases tokens with
      | nil => cases parsed
      | cons current rest =>
          simp only [Parser.new] at parsed
          split at parsed
          · next statement after ran =>
              cases parsed
              have ends : Parser.Ends ⟨current, rest⟩ := last
              rcases Parse.parseStatement_insert ends ran with ⟨tokens, reading, behind⟩
              rcases behind with ⟨before, rows, same, absent, counted⟩
              have read : Parser.size ⟨current, rest⟩ - after.size = tokens.length := by
                rw [reading.size, Nat.add_sub_cancel]
              have passed : ∀ token ∈ before, decide (token ≠ .values) = true := by
                intro token isIn
                exact decide_eq_true fun isValues => absent (isValues ▸ isIn)
              rw [tokenized]
              simp only [Parser.new, ran]
              rw [read, reading.take, same, List.dropWhile_append_of_pos passed]
              exact counted
          · cases parsed
          · cases parsed

theorem readTokens_append_unreadTokens {input : String} {statement : Statement}
    (parsed : parse platform input = .ok statement) :
    scan platform input.toList = .ok (readTokens platform input ++ unreadTokens platform input) := by
  unfold parse at parsed
  split at parsed
  · cases parsed
  · cases parsed
  · cases parsed
  · next tokens lexer tokenized =>
      rw [readTokens, unreadTokens, tokenized, scan_of_tokenize tokenized]
      cases made : Parser.new tokens with
      | none =>
          rw [made] at parsed
          cases parsed
      | some parser =>
          simp only [made] at parsed
          cases ran : Parse.parseStatement parser with
          | ok statement after =>
              simp only [made, ran]
              rw [← List.map_append, List.take_append_drop]
          | err error =>
              rw [ran] at parsed
              cases parsed
          | running =>
              rw [ran] at parsed
              cases parsed

/-- Where nothing but the tokens moves the groups, the text behind VALUES has those of the
rows. -/
theorem opened_of_keepsGroups {input : String} {stmt : InsertStmt} {behind : List Char}
    (parsed : parse platform input = .ok (.insert stmt))
    (found : behindKeyword platform (input.length + 1) input.toList = some behind)
    (keeps : keepsGroups platform (behind.length + 1) 0 0 behind = true)
    (silent : ∀ token ∈ unreadTokens platform input, token.parenthesis = none) :
    (Groups.start.readAll behind).opened = stmt.values.length := by
  have rows := readAll_rowParentheses parsed
  rcases exists_behindKeyword found (readTokens_append_unreadTokens parsed) with
    ⟨before, after, tokens, absent, scanned⟩
  have counted : (Groups.start.readAll behind).opened =
      (Groups.start.readAll (after.filterMap Token.parenthesis)).opened :=
    readAll_of_keepsGroups Iff.rfl keeps scanned 0
  have passed : ∀ token ∈ before, decide (token ≠ .values) = true := by
    intro token isIn
    exact decide_eq_true fun isValues => absent (isValues ▸ isIn)
  have whole : (readTokens platform input ++ unreadTokens platform input).dropWhile
      (· ≠ .values) = .values :: after := by
    rw [tokens, List.dropWhile_append_of_pos passed]
    rfl
  have behindRows : after.filterMap Token.parenthesis = rowParentheses platform input := by
    rw [rowParentheses]
    rw [List.dropWhile_append] at whole
    cases read : (readTokens platform input).dropWhile (· ≠ .values) with
    | nil =>
        rw [rowParentheses, read] at rows
        have empty : stmt.values.length = 0 := congrArg Groups.opened rows.symm
        exact absurd (List.length_eq_zero_iff.mp empty) (parse_insert_ne_nil parsed)
    | cons first others =>
        rw [read, List.isEmpty_cons, if_neg Bool.false_ne_true, List.cons_append,
          List.cons.injEq] at whole
        rw [← whole.2, List.filterMap_append, List.filterMap_eq_nil_iff.mpr silent,
          List.append_nil, List.tail_cons]
  rw [counted, behindRows, rows]

end FunDB.Sql
