import FunDB.Sql.ExprPrinter
import FunDB.Sql.LexerSafety
import FunDB.Sql.ParseStatement
import FunDB.Sql.PrintedTokens

/-! # Lexing printed expressions

Tokens that are written with spaces between them are read back one by one. -/

namespace FunDB.Sql

open Lexer

variable {platform : TextPlatform}

/-! ## Characters -/

theorem isWordStart_ascii {char : Char} (ascii : char.toNat < 128) :
    platform.isWordStart char = (char.isAlpha || char == '_') := by
  rw [TextPlatform.isWordStart, platform.alphabetic_ascii char ascii]

theorem isWordChar_ascii {char : Char} (ascii : char.toNat < 128) :
    platform.isWordChar char = (char.isAlpha || char.isDigit || char == '_') := by
  rw [TextPlatform.isWordChar, platform.alphabetic_ascii char ascii,
    platform.numeric_ascii char ascii]

theorem ne_of_isWordStart {char other : Char} (starts : platform.isWordStart char = true)
    (ascii : other.toNat < 128) (notStart : (other.isAlpha || other == '_') = false) :
    char ≠ other := by
  intro same
  rw [same, isWordStart_ascii ascii, notStart] at starts
  cases starts

theorem digit_ascii {char : Char} (digit : char.isDigit = true) :
    char.toNat < 128 ∧ char.isAlpha = false ∧ char ≠ '_' := by
  have range : 48 ≤ char.toNat ∧ char.toNat ≤ 57 := Char.isDigit_iff_toNat.mp digit
  refine ⟨by omega, ?_, ?_⟩
  · change (decide (char.val ≥ 'A'.val ∧ char.val ≤ 'Z'.val) ||
      (decide (char.val ≥ 'a'.val) && decide (char.val ≤ 'z'.val))) = false
    have value : char.val.toNat = char.toNat := rfl
    simp only [Bool.or_eq_false_iff, Bool.and_eq_false_iff, decide_eq_false_iff_not,
      UInt32.le_iff_toNat_le, ge_iff_le, value]
    have upper : 'A'.val.toNat = 65 := rfl
    have lower : 'a'.val.toNat = 97 := rfl
    omega
  · rintro rfl
    exact absurd range (by decide)

theorem not_isDigit_of_isWordStart {char : Char} (starts : platform.isWordStart char = true) :
    ¬char.isDigit = true := by
  intro digit
  rcases digit_ascii digit with ⟨ascii, notAlpha, notLine⟩
  rw [isWordStart_ascii ascii, notAlpha, beq_false_of_ne notLine] at starts
  cases starts

/-- A printed token ends before a space or at the end of the text. -/
def Ends (tail : List Char) : Prop := tail = [] ∨ ∃ rest, tail = ' ' :: rest

theorem forall_ends {P : List Char → Prop} (atEnd : P []) (space : ∀ rest, P (' ' :: rest)) :
    ∀ tail, Ends tail → P tail := by
  rintro tail (rfl | ⟨rest, rfl⟩)
  · exact atEnd
  · exact space rest

theorem Ends.not_isWordChar (platform : TextPlatform) {tail : List Char} (ends : Ends tail) :
    ∀ char, tail.head? = some char → platform.isWordChar char = false := by
  intro char isHead
  rcases ends with rfl | ⟨rest, rfl⟩
  · cases isHead
  · cases isHead
    rw [isWordChar_ascii (by decide)]
    rfl

theorem PairAligned.append {char : Char} {rest tail : List Char} (ends : Ends tail)
    (aligned : PairAligned (char :: rest)) : PairAligned (char :: rest ++ tail) := by
  cases rest with
  | cons next rest => exact aligned
  | nil =>
      rcases ends with rfl | ⟨rest, rfl⟩
      · exact aligned
      · have positive := Char.utf8Size_pos char
        have small : char.utf8Size ≤ 2 := aligned
        change char.utf8Size = 2 ∨ char.utf8Size = 1 ∧ ' '.utf8Size = 1
        have blank : ' '.utf8Size = 1 := by decide
        omega

/-! ## Tokens on their own -/

/-- The text is read as the token wherever a space or the end follows it. -/
structure Separable (platform : TextPlatform) (char : Char) (rest : List Char) (token : Token) :
    Prop where
  solid : ∀ tail, Ends tail → skip .code (char :: rest ++ tail) = .ok (char :: rest ++ tail)
  scanned : ∀ tail, Ends tail → scanToken platform char (rest ++ tail) = .ok (token, tail)
  aligned : PairAligned (char :: rest)

theorem TokenAt.congr {text other start : List Char}
    (same : skip .code text = skip .code other) (reached : TokenAt platform text start) :
    TokenAt platform other start := by
  cases reached with
  | first skipped => exact .first (same ▸ skipped)
  | next skipped scanned reached => exact .next (same ▸ skipped) scanned reached

theorem TokensAligned.congr {text other : List Char} (same : skip .code text = skip .code other)
    (aligned : TokensAligned platform other) : TokensAligned platform text :=
  fun start reached => aligned start (reached.congr same)

theorem scan_congr {text other : List Char} (same : skip .code text = skip .code other) :
    scan platform text = scan platform other := by
  generalize skipped : skip .code other = result at same
  cases result with
  | error message => rw [scan_skipError same, scan_skipError skipped]
  | ok rest =>
      cases rest with
      | nil => rw [scan_eof same, scan_eof skipped]
      | cons char rest =>
          cases found : scanToken platform char rest with
          | error message => rw [scan_tokenError same found, scan_tokenError skipped found]
          | ok read => rw [scan_token same found, scan_token skipped found]

theorem skip_space (rest : List Char) : skip .code (' ' :: rest) = skip .code rest := by
  rw [skip, if_pos (by decide)]
  · intro tail dash
    cases dash
  · intro tail slash
    cases slash

theorem scan_separable {char : Char} {rest tail : List Char} {token : Token}
    (separable : Separable platform char rest token) (ends : Ends tail) :
    scan platform (char :: rest ++ tail) = (scan platform tail).map (token :: ·) :=
  scan_token (separable.solid tail ends) (separable.scanned tail ends)

theorem aligned_separable {char : Char} {rest tail : List Char} {token : Token}
    (separable : Separable platform char rest token) (ends : Ends tail)
    (aligned : TokensAligned platform tail) : TokensAligned platform (char :: rest ++ tail) :=
  (TokensAligned.token_iff (separable.solid tail ends) (separable.scanned tail ends)).mpr
    ⟨separable.aligned.append ends, aligned⟩

/-- The token is written as a text that is read as it. -/
def Written (platform : TextPlatform) (token : Token) : Prop :=
  ∃ char rest, spell token = char :: rest ∧ Separable platform char rest token

theorem scan_spellAll {tokens : List Token} (written : ∀ token ∈ tokens, Written platform token) :
    scan platform (spellAll tokens) = .ok (tokens ++ [.eof]) ∧
      TokensAligned platform (spellAll tokens) := by
  have done : skip .code [] = .ok [] := rfl
  induction tokens with
  | nil => exact ⟨scan_eof done, .of_eof done⟩
  | cons token tokens induction =>
      have rest := induction fun other isIn => written other (List.mem_cons_of_mem _ isIn)
      rcases written token List.mem_cons_self with ⟨char, spelled, same, separable⟩
      cases tokens with
      | nil =>
          have whole : spellAll [token] = char :: spelled ++ [] := by
            rw [List.append_nil, ← same]
            rfl
          rw [whole, scan_separable separable (.inl rfl), scan_eof done]
          exact ⟨rfl, aligned_separable separable (.inl rfl) (.of_eof done)⟩
      | cons next tokens =>
          have whole : spellAll (token :: next :: tokens) =
              char :: spelled ++ ' ' :: spellAll (next :: tokens) := by
            rw [← same]
            rfl
          have space := skip_space (spellAll (next :: tokens))
          rw [whole, scan_separable separable (.inr ⟨_, rfl⟩), scan_congr space, rest.1]
          exact ⟨rfl, aligned_separable separable (.inr ⟨_, rfl⟩) (rest.2.congr space)⟩

/-! ## Words and names -/

theorem isBlank_iff {char : Char} :
    isBlank char = true ↔ char = ' ' ∨ char = '\t' ∨ char = '\r' ∨ char = '\n' := by
  simp [isBlank, or_assoc]

theorem solid_of_ne {char : Char} (notBlank : isBlank char = false) (notDash : char ≠ '-')
    (notSlash : char ≠ '/') (rest : List Char) :
    skip .code (char :: rest) = .ok (char :: rest) := by
  rw [skip, if_neg (by rw [notBlank]; exact Bool.false_ne_true)]
  · intro tail dash
    exact absurd dash notDash
  · intro tail slash
    exact absurd slash notSlash

theorem isBlank_of_isWordStart {char : Char} (starts : platform.isWordStart char = true) :
    isBlank char = false := by
  rw [Bool.eq_false_iff, ne_eq, isBlank_iff]
  rintro (rfl | rfl | rfl | rfl) <;> rw [isWordStart_ascii (by decide)] at starts <;> cases starts

theorem takeWhile_word {word tail : List Char} (all : ∀ char ∈ word, platform.isWordChar char)
    (ends : Ends tail) :
    (word ++ tail).takeWhile platform.isWordChar = word ∧
      (word ++ tail).dropWhile platform.isWordChar = tail := by
  have stops : tail.takeWhile platform.isWordChar = [] ∧
      tail.dropWhile platform.isWordChar = tail := by
    cases tail with
    | nil => exact ⟨rfl, rfl⟩
    | cons char rest =>
        have notWord := ends.not_isWordChar platform char rfl
        simp [notWord]
  rw [List.takeWhile_append_of_pos all, List.dropWhile_append_of_pos all, stops.1, stops.2,
    List.append_nil]
  exact ⟨rfl, rfl⟩

theorem not_number {char : Char} (notDigit : ¬char.isDigit = true) (notDot : char ≠ '.')
    (rest : List Char) : ¬(char.isDigit = true ∨ char = '.' ∧ rest.head?.any Char.isDigit) := by
  rintro (digit | ⟨dot, -⟩)
  · exact notDigit digit
  · exact notDot dot

theorem separable_word {char : Char} {rest : List Char}
    (starts : platform.isWordStart char = true) (all : ∀ char ∈ rest, platform.isWordChar char)
    (aligned : PairAligned (char :: rest)) :
    Separable platform char rest (wordToken (char :: rest)) where
  solid tail _ := solid_of_ne (isBlank_of_isWordStart starts)
    (ne_of_isWordStart starts (by decide) rfl) (ne_of_isWordStart starts (by decide) rfl) _
  scanned tail ends := by
    have split := takeWhile_word all ends
    have notNumber := not_number (not_isDigit_of_isWordStart starts)
      (ne_of_isWordStart starts (by decide) rfl) (rest ++ tail)
    rw [scanToken, if_neg notNumber, if_pos starts, split.1, split.2]
  aligned := aligned

theorem separable_param {char : Char} {rest : List Char}
    (starts : platform.isWordStart char = true) (all : ∀ char ∈ rest, platform.isWordChar char)
    (aligned : PairAligned (':' :: char :: rest)) :
    Separable platform ':' (char :: rest) (.param (String.ofList (char :: rest))) where
  solid tail _ := solid_of_ne (by decide) (by decide) (by decide) _
  scanned tail ends := by
    have allName : ∀ other ∈ char :: rest, platform.isWordChar other = true :=
      List.forall_mem_cons.mpr ⟨platform.isWordChar_of_isWordStart starts, all⟩
    have split := takeWhile_word allName ends
    have notStart : ¬platform.isWordStart ':' = true := by
      rw [isWordStart_ascii (by decide)]
      decide
    have named : ((char :: rest) ++ tail).head?.any platform.isWordStart = true := starts
    rw [scanToken, if_neg (not_number (by decide) (by decide) _), if_neg notStart,
      if_neg (by decide), if_pos rfl, if_pos named, split.1, split.2]
  aligned := aligned

/-! ## ASCII tokens -/

theorem utf8Size_ascii {char : Char} (ascii : char.toNat < 128) : char.utf8Size = 1 := by
  rw [Char.utf8Size_eq_one_iff, UInt32.le_iff_toNat_le]
  exact Nat.le_of_lt_succ ascii

theorem PairAligned.of_ascii {text : List Char} (ascii : ∀ char ∈ text, char.toNat < 128) :
    PairAligned text := by
  cases text with
  | nil => trivial
  | cons char rest =>
      have first := utf8Size_ascii (ascii char List.mem_cons_self)
      cases rest with
      | nil => exact first.le.trans (by decide)
      | cons next rest => exact .inr ⟨first, utf8Size_ascii (ascii next (by simp))⟩

theorem separable_keyword {char : Char} {rest : List Char}
    (letters : ∀ other ∈ char :: rest, other.toNat < 128 ∧ other.isAlpha = true) :
    Separable platform char rest (wordToken (char :: rest)) := by
  have first := letters char List.mem_cons_self
  apply separable_word
  · rw [isWordStart_ascii first.1, first.2]
    rfl
  · intro other isIn
    have letter := letters other (List.mem_cons_of_mem _ isIn)
    rw [isWordChar_ascii letter.1, letter.2]
    rfl
  · exact .of_ascii fun other isIn => (letters other isIn).1

theorem scanNumber_digits {digits tail : List Char} (all : ∀ char ∈ digits, char.isDigit)
    (ends : Ends tail) : scanNumber false (digits ++ tail) = (false, digits, tail) := by
  induction digits with
  | nil => rcases ends with rfl | ⟨rest, rfl⟩ <;> rfl
  | cons char digits induction =>
      have rest := induction fun other isIn => all other (List.mem_cons_of_mem _ isIn)
      rw [List.cons_append, scanNumber, if_pos (all char List.mem_cons_self), rest]

theorem separable_digits (platform : TextPlatform) {char : Char} {rest : List Char}
    (all : ∀ other ∈ char :: rest, other.isDigit = true)
    (bounded : digitsValue (char :: rest) ≤ i64Max) :
    Separable platform char rest (.intLiteral (digitsValue (char :: rest))) := by
  have digit := all char List.mem_cons_self
  have ne_of_not_digit : ∀ other : Char, other.isDigit = false → char ≠ other := by
    intro other notDigit same
    rw [same, notDigit] at digit
    cases digit
  refine ⟨fun tail _ => solid_of_ne ?_ (ne_of_not_digit _ rfl) (ne_of_not_digit _ rfl) _, ?_,
    .of_ascii fun other isIn => (digit_ascii (all other isIn)).1⟩
  · rw [Bool.eq_false_iff, ne_eq, isBlank_iff]
    rintro (rfl | rfl | rfl | rfl) <;> exact absurd digit (by decide)
  · intro tail ends
    have notDot : (char == '.') = false := beq_false_of_ne (ne_of_not_digit _ rfl)
    have read := scanNumber_digits (fun other isIn => all other (List.mem_cons_of_mem _ isIn)) ends
    rw [scanToken, if_pos (.inl digit), notDot, read]
    dsimp only
    rw [numberToken, if_neg Bool.false_ne_true, parseI64, if_neg (by simpa using bounded)]
    rfl

theorem scanString_quoted (content : List Char) {tail : List Char} (ends : Ends tail) :
    scanString ((content.flatMap fun char => if char = '\'' then ['\'', '\''] else [char]) ++
      '\'' :: tail) = some (content, tail) := by
  induction content with
  | nil => rcases ends with rfl | ⟨rest, rfl⟩ <;> rfl
  | cons char content induction =>
      rw [List.flatMap_cons, List.append_assoc]
      by_cases quote : char = '\''
      · rw [if_pos quote, quote, List.cons_append, List.cons_append, List.nil_append, scanString,
          induction]
        rfl
      · rw [if_neg quote, List.cons_append, List.nil_append, scanString, induction]
        · rfl
        · intro rest same
          exact absurd same quote
        · intro same
          exact absurd same quote

theorem quoted_ascii {content : List Char} (ascii : ∀ char ∈ content, char.toNat < 128) :
    ∀ char ∈ quoted content, char.toNat < 128 := by
  intro char isIn
  simp only [quoted, List.cons_append, List.mem_cons, List.mem_append, List.mem_flatMap,
    List.mem_nil_iff, or_false] at isIn
  rcases isIn with rfl | ⟨other, isIn, same⟩ | rfl
  · decide
  · split at same <;> simp only [List.mem_cons, List.mem_nil_iff, or_false, or_self] at same
    · rw [same]
      decide
    · rw [same]
      exact ascii other isIn
  · decide

theorem separable_quoted (platform : TextPlatform) {content : List Char}
    (ascii : ∀ char ∈ content, char.toNat < 128) :
    Separable platform '\'' (quoted content).tail (.stringLiteral (String.ofList content)) where
  solid tail _ := solid_of_ne (by decide) (by decide) (by decide) _
  scanned tail ends := by
    have notStart : ¬platform.isWordStart '\'' = true := by
      rw [isWordStart_ascii (by decide)]
      decide
    have read : scanString ((quoted content).tail ++ tail) = some (content, tail) := by
      rw [quoted, List.cons_append, List.tail_cons, List.append_assoc]
      exact scanString_quoted content ends
    rw [scanToken, if_neg (not_number (by decide) (by decide) _), if_neg notStart, if_pos rfl,
      read]
  aligned := .of_ascii (quoted_ascii ascii)

/-- The character starts neither a number, a word, a string, a parameter nor a
comment. -/
def StartsOperator (char : Char) (rest : List Char) : Prop :=
  char.toNat < 128 ∧ isBlank char = false ∧ char.isDigit = false ∧ char ≠ '.' ∧
    (char.isAlpha || char == '_') = false ∧ char ≠ '\'' ∧ char ≠ ':' ∧
    rest.all (fun next => next.toNat < 128 && next != '-' && next != '*') = true

instance (char : Char) (rest : List Char) : Decidable (StartsOperator char rest) :=
  inferInstanceAs (Decidable (_ ∧ _))

theorem separable_operator {char : Char} {rest : List Char} {token : Token}
    (starts : StartsOperator char rest)
    (scanned : ∀ tail, Ends tail → scanOperator platform char (rest ++ tail) = .ok (token, tail)) :
    Separable platform char rest token := by
  rcases starts with ⟨ascii, notBlank, notDigit, notDot, notStart, notQuote, notColon, restPlain⟩
  have plain : ∀ next ∈ rest, next.toNat < 128 ∧ next ≠ '-' ∧ next ≠ '*' := by
    simpa [and_assoc] using restPlain
  refine ⟨fun tail ends => ?_, fun tail ends => ?_, .of_ascii ?_⟩
  · have second : ∀ next, (rest ++ tail).head? = some next → next ≠ '-' ∧ next ≠ '*' := by
      intro next isHead
      cases rest with
      | nil => rcases ends with rfl | ⟨left, rfl⟩ <;> cases isHead; decide
      | cons other rest =>
          cases isHead
          exact (plain next List.mem_cons_self).2
    apply skip_solid
    · intro other same
      cases same
      rw [notBlank]
      exact Bool.false_ne_true
    · intro left same
      have behind : rest ++ tail = '-' :: left := (List.cons.inj same).2
      exact (second '-' (by rw [behind]; rfl)).1 rfl
    · intro left same
      have behind : rest ++ tail = '*' :: left := (List.cons.inj same).2
      exact (second '*' (by rw [behind]; rfl)).2 rfl
  · have notWord : ¬platform.isWordStart char = true := by
      rw [isWordStart_ascii ascii, notStart]
      exact Bool.false_ne_true
    rw [scanToken, if_neg (not_number (by rw [notDigit]; exact Bool.false_ne_true) notDot _),
      if_neg notWord, if_neg notQuote, if_neg notColon, scanned tail ends]
  · exact List.forall_mem_cons.mpr ⟨ascii, fun next isIn => (plain next isIn).1⟩

/-! ## Names -/

/-- Where no token is cut inside a character, lexing gives what scanning gives. -/
theorem tokenize_of_scan {text : String} {tokens : List Token}
    (aligned : TokensAligned platform text.toList)
    (scanned : scan platform text.toList = .ok tokens) :
    ∃ spanned lexer, (Lexer.new text).tokenize platform = .ok (spanned, lexer) ∧
      spanned.map Prod.fst = tokens := by
  have run := (tokenLoop_spec platform [] _ (Reads.new text) (Reads.new text).enough).1 aligned
  rw [scanned] at run
  rw [tokenize]
  generalize (Lexer.new text).tokenLoop platform _ [] = outcome at run
  generalize result : (Except.ok tokens : Except String (List Token)) = expected at run
  cases run with
  | @ok spanned next atEnd => exact ⟨spanned, next, rfl, (Except.ok.inj result).symm⟩
  | err => cases result

theorem LexesAlone.scan {text : String} {token : Token} (alone : LexesAlone platform text token) :
    scan platform text.toList = .ok [token, .eof] ∧ TokensAligned platform text.toList := by
  rcases alone with ⟨span, finish, lexer, tokenized⟩
  rw [tokenize] at tokenized
  have run := tokenLoop_spec platform [] _ (Reads.new text) (Reads.new text).enough
  by_cases aligned : TokensAligned platform text.toList
  · have result := run.1 aligned
    generalize (Lexer.new text).tokenLoop platform _ [] = outcome at result tokenized
    generalize Sql.scan platform text.toList = scanned at result ⊢
    cases result with
    | @ok spanned next atEnd =>
        cases tokenized
        exact ⟨rfl, aligned⟩
    | err => cases tokenized
  · cases tokenized.symm.trans (run.2 aligned)

theorem scan_first {text : List Char} {token : Token}
    (scanned : scan platform text = .ok [token, .eof]) :
    ∃ char rest tail, skip .code text = .ok (char :: rest) ∧
      scanToken platform char rest = .ok (token, tail) := by
  generalize skipped : skip .code text = result
  cases result with
  | error message => cases (scan_skipError skipped).symm.trans scanned
  | ok left =>
      cases left with
      | nil => cases (scan_eof skipped).symm.trans scanned
      | cons char rest =>
          generalize found : scanToken platform char rest = read
          cases read with
          | error message => cases (scan_tokenError skipped found).symm.trans scanned
          | ok read =>
              rcases exists_of_map_eq_ok ((scan_token skipped found).symm.trans scanned) with
                ⟨others, -, same⟩
              cases same
              exact ⟨char, rest, read.2, rfl, found⟩

theorem keyword_ne_ident (word name : String) : Token.keyword word ≠ some (.ident name) := by
  intro found
  have absent : ∀ entry ∈ Token.keywords, Parse.isBareAlias entry.2 = false := by decide
  rcases List.lookup_eq_some_iff.mp found with ⟨before, after, split, -⟩
  have isEntry : (word, Token.ident name) ∈ Token.keywords := by
    rw [split]
    simp
  have isName : Parse.isBareAlias (.ident name) = false := absent _ isEntry
  cases isName

theorem wordToken_eq_ident {raw : List Char} {name : String}
    (same : wordToken raw = .ident name) : name = String.ofList raw := by
  unfold wordToken at same
  cases found : Token.keyword (String.ofList (raw.map Char.toLower)) with
  | none =>
      rw [found] at same
      exact (Token.ident.inj same).symm
  | some token =>
      rw [found, Option.getD_some] at same
      exact absurd (same ▸ found) (keyword_ne_ident _ name)

theorem numberToken_ne_ident {hasDot : Bool} {raw : List Char} {name : String} :
    numberToken platform hasDot raw ≠ .ok (.ident name) := by
  unfold numberToken
  grind

theorem scanOperator_ne_ident {char : Char} {rest tail : List Char} {name : String} :
    scanOperator platform char rest ≠ .ok (.ident name, tail) := by
  unfold scanOperator scanEither scanLess singleToken
  grind

theorem scanToken_eq_ident {char : Char} {rest tail : List Char} {name : String}
    (scanned : scanToken platform char rest = .ok (.ident name, tail)) :
    platform.isWordStart char = true ∧
      wordToken (char :: rest.takeWhile platform.isWordChar) = .ident name := by
  unfold scanToken at scanned
  split at scanned
  · rcases exists_of_map_eq_ok scanned with ⟨token, parsed, same⟩
    cases same
    exact absurd parsed numberToken_ne_ident
  · split at scanned
    · next starts =>
        exact ⟨starts, congrArg Prod.fst (Except.ok.inj scanned)⟩
    · split at scanned
      · split at scanned <;> cases scanned
      · split at scanned
        · split at scanned <;> cases scanned
        · exact absurd scanned scanOperator_ne_ident

theorem written_ident {name : String} (plain : LexesAlone platform name (.ident name)) :
    Written platform (.ident name) := by
  rcases plain.scan with ⟨scanned, aligned⟩
  rcases scan_first scanned with ⟨char, rest, tail, skipped, found⟩
  rcases scanToken_eq_ident found with ⟨starts, isIdent⟩
  have spelled : name.toList = char :: rest.takeWhile platform.isWordChar := by
    rw [wordToken_eq_ident isIdent, String.toList_ofList]
  have all : ∀ other ∈ rest.takeWhile platform.isWordChar, platform.isWordChar other = true :=
    List.all_eq_true.mp List.all_takeWhile
  have solid : skip .code name.toList = .ok name.toList := by
    rw [spelled]
    exact solid_of_ne (isBlank_of_isWordStart starts) (ne_of_isWordStart starts (by decide) rfl)
      (ne_of_isWordStart starts (by decide) rfl) _
  have pair := aligned _ (.first solid)
  rw [spelled] at pair
  exact ⟨char, _, spelled, isIdent ▸ separable_word starts all pair⟩

theorem written_param {name : String} (plain : LexesAlone platform (":" ++ name) (.param name)) :
    Written platform (.param name) := by
  rcases plain.scan with ⟨scanned, aligned⟩
  have text : (":" ++ name).toList = ':' :: name.toList := by
    rw [String.toList_append]
    rfl
  rw [text] at scanned aligned
  have solid : skip .code (':' :: name.toList) = .ok (':' :: name.toList) :=
    solid_of_ne (by decide) (by decide) (by decide) _
  rcases scan_first scanned with ⟨char, rest, tail, skipped, found⟩
  cases solid.symm.trans skipped
  have notStart : ¬platform.isWordStart ':' = true := by
    rw [isWordStart_ascii (by decide)]
    decide
  rw [scanToken, if_neg (not_number (by decide) (by decide) _), if_neg notStart,
    if_neg (by decide), if_pos rfl] at found
  have pair := aligned _ (.first solid)
  split at found
  · next named =>
      have isName : String.ofList (name.toList.takeWhile platform.isWordChar) = name :=
        Token.param.inj (congrArg Prod.fst (Except.ok.inj found))
      have whole : name.toList.takeWhile platform.isWordChar = name.toList :=
        String.toList_ofList.symm.trans (congrArg String.toList isName)
      have all : ∀ other ∈ name.toList, platform.isWordChar other = true := by
        rw [← whole]
        exact List.all_eq_true.mp List.all_takeWhile
      cases spelled : name.toList with
      | nil =>
          rw [spelled] at named
          cases named
      | cons char rest =>
          rw [spelled] at named all pair
          have separable := separable_param named
            (fun other isIn => all other (List.mem_cons_of_mem _ isIn)) pair
          rw [← spelled, String.ofList_toList] at separable
          exact ⟨':', name.toList, rfl, separable⟩
  · cases found

/-! ## The tokens of a printed expression -/

theorem written_operator {token : Token} (char : Char) (rest : List Char)
    (spelled : spell token = char :: rest) (starts : StartsOperator char rest)
    (scanned : ∀ tail, Ends tail → scanOperator platform char (rest ++ tail) = .ok (token, tail)) :
    Written platform token :=
  ⟨char, rest, spelled, separable_operator starts scanned⟩

theorem written_keyword {token : Token} (char : Char) (rest : List Char)
    (spelled : spell token = char :: rest)
    (letters : (char :: rest).all (fun other => other.toNat < 128 && other.isAlpha) = true)
    (isKeyword : wordToken (char :: rest) = token) : Written platform token := by
  refine ⟨char, rest, spelled, isKeyword ▸ separable_keyword ?_⟩
  simpa using letters

theorem digitsValue_digits (value : Nat) : digitsValue (digits value) = value :=
  Nat.ofDigitChars_ten_toDigits

theorem written_int {value : Nat} (bounded : value ≤ i64Max) :
    Written platform (.intLiteral value) := by
  have all : ∀ char ∈ digits value, char.isDigit = true := fun char isIn =>
    Nat.isDigit_of_mem_toDigits (by decide) (by decide) isIn
  have same := digitsValue_digits value
  have spelled : spell (.intLiteral value) = digits value := rfl
  cases written : digits value with
  | nil => exact absurd written Nat.toDigits_ne_nil
  | cons char rest =>
      rw [written] at all same spelled
      have separable := separable_digits platform all (by rw [same]; exact bounded)
      rw [same] at separable
      exact ⟨char, rest, spelled, separable⟩

theorem written_string {content : String} (ascii : ∀ char ∈ content.toList, char.toNat < 128) :
    Written platform (.stringLiteral content) := by
  have separable := separable_quoted platform ascii
  rw [String.ofList_toList] at separable
  exact ⟨_, _, rfl, separable⟩

/-- The tokens between names and literals in a printed expression. -/
def fixedTokens : List Token :=
  [.true, .false, .null, .or, .and, .not, .in, .is, .between, .like, .assign, .notEq, .lt, .ltEq,
    .gt, .gtEq, .plus, .minus, .star, .slash, .percent, .lParen, .rParen, .comma]

theorem written_fixed {token : Token} (isFixed : token ∈ fixedTokens) :
    Written platform token := by
  simp only [fixedTokens, List.mem_cons, List.mem_nil_iff, or_false] at isFixed
  rcases isFixed with rfl | rfl | rfl | rfl | rfl | rfl | rfl | rfl | rfl | rfl | rfl | rfl | rfl |
    rfl | rfl | rfl | rfl | rfl | rfl | rfl | rfl | rfl | rfl | rfl
  iterate 10 exact written_keyword _ _ rfl (by decide) rfl
  all_goals
    exact written_operator _ _ rfl (by decide) (forall_ends rfl fun _ => rfl)

/-- All of the tokens are written as texts that are read as them. -/
def AllWritten (platform : TextPlatform) (tokens : List Token) : Prop :=
  ∀ token ∈ tokens, Written platform token

namespace AllWritten

variable {token : Token} {tokens more : List Token}

theorem nil : AllWritten platform [] := fun _ isIn => nomatch isIn

theorem cons (first : Written platform token) (rest : AllWritten platform tokens) :
    AllWritten platform (token :: tokens) :=
  List.forall_mem_cons.mpr ⟨first, rest⟩

theorem append (first : AllWritten platform tokens) (rest : AllWritten platform more) :
    AllWritten platform (tokens ++ more) :=
  List.forall_mem_append.mpr ⟨first, rest⟩

theorem fixed (areFixed : ∀ token ∈ tokens, token ∈ fixedTokens) : AllWritten platform tokens :=
  fun token isIn => written_fixed (areFixed token isIn)

theorem bracket (written : AllWritten platform tokens) (level minimum : Nat) :
    AllWritten platform (bracket level minimum tokens) := by
  unfold Sql.bracket
  split
  · exact (fixed (by decide) : AllWritten platform [.lParen]).append
      (written.append (fixed (by decide)))
  · exact written

end AllWritten

namespace Printable

open AllWritten

mutual

theorem allWritten : (expr : Printable platform) → AllWritten platform expr.tokens
  | int _ bounded => cons (written_int bounded) nil
  | string _ ascii => cons (written_string ascii) nil
  | bool true => cons (written_fixed (by decide)) nil
  | bool false => cons (written_fixed (by decide)) nil
  | null => cons (written_fixed (by decide)) nil
  | param _ plain => cons (written_param plain) nil
  | column _ plain => cons (written_ident plain) nil
  | binary op left right =>
      (left.allWritten.bracket _ _).append
        ((fixed (by cases op <;> decide)).append (right.allWritten.bracket _ _))
  | inList expr list =>
      (expr.allWritten.bracket _ _).append ((fixed (by decide) :
        AllWritten platform [.in, .lParen]).append ((listWritten list).append (fixed (by decide))))
  | between expr low high =>
      (expr.allWritten.bracket _ _).append (cons (written_fixed (by decide))
        ((low.allWritten.bracket _ _).append (cons (written_fixed (by decide))
          (high.allWritten.bracket _ _))))
  | isNull expr => (expr.allWritten.bracket _ _).append (fixed (by decide))
  | isNotNull expr => (expr.allWritten.bracket _ _).append (fixed (by decide))
  | not expr => cons (written_fixed (by decide)) (expr.allWritten.bracket _ _)
  | neg expr => cons (written_fixed (by decide)) (expr.allWritten.bracket _ _)

theorem listWritten : (list : List (Printable platform)) → AllWritten platform (listTokens list)
  | [] => nil
  | expr :: list => expr.allWritten.append (tailWritten list)

theorem tailWritten : (list : List (Printable platform)) → AllWritten platform (tailTokens list)
  | [] => nil
  | expr :: list => cons (written_fixed (by decide)) (expr.allWritten.append (tailWritten list))

end

end Printable

/-! ## The round trip -/

/-- The expression that a text is, if it is one to its end. -/
def readExpr (platform : TextPlatform) (text : String) : Option Ast.Expr :=
  match (Lexer.new text).tokenize platform with
  | .ok (tokens, _) =>
      match Parser.new tokens with
      | some parser =>
          match Parse.withNesting Parse.parseExpr parser with
          | .ok expr after => if after.current.1 = .eof then some expr else none
          | _ => none
      | none => none
  | _ => none

theorem reading_of_tokens {tokens : List Token} {spanned : List (Token × Span)}
    (same : spanned.map Prod.fst = tokens ++ [Token.eof]) :
    ∃ parser after, Parser.new spanned = some parser ∧ Reading parser tokens after ∧
      after.current.1 = .eof := by
  induction tokens generalizing spanned with
  | nil =>
      cases spanned with
      | nil => cases same
      | cons first rest =>
          exact ⟨⟨first, rest⟩, ⟨first, rest⟩, rfl, .done _, (List.cons.inj same).1⟩
  | cons token tokens induction =>
      cases spanned with
      | nil => cases same
      | cons first rest =>
          rcases induction (List.cons.inj same).2 with ⟨parser, after, isParser, reading, ends⟩
          cases rest with
          | nil => cases isParser
          | cons next rest =>
              cases isParser
              have isFirst : first = (token, first.2) := Prod.ext (List.cons.inj same).1 rfl
              exact ⟨⟨first, next :: rest⟩, after, rfl, isFirst ▸ reading.token, ends⟩

theorem readExpr_text (expr : Printable platform) :
    readExpr platform expr.text = if expr.supported then some expr.ast else none := by
  have scanned := scan_spellAll expr.allWritten
  have isText : expr.text.toList = spellAll expr.tokens := String.toList_ofList
  rw [← isText] at scanned
  rcases tokenize_of_scan scanned.2 scanned.1 with ⟨spanned, lexer, tokenized, same⟩
  rcases reading_of_tokens same with ⟨parser, after, isParser, reading, ends⟩
  have settles := expr.withNesting_settles reading ends
  rw [readExpr, tokenized]
  dsimp only
  rw [isParser]
  dsimp only
  by_cases supported : expr.supported = true
  · rw [settles.1 supported, if_pos supported]
    exact if_pos ends
  · rcases settles.2 supported with ⟨error, failed⟩
    rw [failed, if_neg supported]

/-- A printed expression is read back exactly if it has no minus sign directly
behind a minus sign and no empty list. -/
theorem readExpr_text_iff (expr : Printable platform) :
    readExpr platform expr.text = some expr.ast ↔ expr.supported = true := by
  rw [readExpr_text]
  cases expr.supported <;> simp

/-- The operand of a minus sign is a primary expression, so it has no minus sign
of its own. -/
theorem double_minus_not_read :
    ∃ expr : Printable .latin1, expr.text = "- - 1" ∧
      expr.ast = .unaryOp .neg (.unaryOp .neg (.literal (.int 1))) ∧
      readExpr .latin1 expr.text = none := by
  have small : 1 ≤ i64Max := by decide
  exact ⟨.neg (.neg (.int 1 small)), rfl, rfl, readExpr_text _⟩

end FunDB.Sql
