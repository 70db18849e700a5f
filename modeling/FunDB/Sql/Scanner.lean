import FunDB.Sql.Lexer
import Mathlib.Data.List.TakeDrop

/-! # Scanning characters

What the lexer computes, on characters alone: no position, no slice. -/

namespace FunDB.Sql

open Lexer

/-! ## Comments and whitespace -/

inductive SkipMode where
  | code
  | line
  | block
deriving DecidableEq, Repr

def skip : SkipMode → List Char → Except String (List Char)
  | .code, '-' :: '-' :: rest => skip .line rest
  | .code, '/' :: '*' :: rest => skip .block rest
  | .code, char :: rest => if isBlank char then skip .code rest else .ok (char :: rest)
  | .code, [] => .ok []
  | .line, char :: rest => if char = '\n' then skip .code rest else skip .line rest
  | .line, [] => .ok []
  | .block, '*' :: '/' :: rest => skip .code rest
  | .block, _ :: rest => skip .block rest
  | .block, [] => .error "unterminated block comment"

/-- The first two bytes of a text, if it has as many, are whole characters. -/
def PairAligned : List Char → Prop
  | [] => True
  | [char] => char.utf8Size ≤ 2
  | char :: next :: _ => char.utf8Size = 2 ∨ char.utf8Size = 1 ∧ next.utf8Size = 1

instance : DecidablePred PairAligned
  | [] => inferInstanceAs (Decidable True)
  | [_] => inferInstanceAs (Decidable (_ ≤ _))
  | _ :: _ :: _ => inferInstanceAs (Decidable (_ ∨ _))

/-! ## One token -/

/-- The digits and the dot of a number, and what follows them. -/
def scanNumber : Bool → List Char → Bool × List Char × List Char
  | hasDot, [] => (hasDot, [], [])
  | hasDot, char :: rest =>
      if char.isDigit then
        let (dotted, read, tail) := scanNumber hasDot rest
        (dotted, char :: read, tail)
      else if char = '.' ∧ hasDot = false ∧ rest.head? ≠ some '.' then
        let (dotted, read, tail) := scanNumber true rest
        (dotted, char :: read, tail)
      else (hasDot, [], char :: rest)

/-- The content of a string behind its opening quote, and what follows it. -/
def scanString : List Char → Option (List Char × List Char)
  | [] => none
  | '\'' :: '\'' :: rest => (scanString rest).map fun scanned => ('\'' :: scanned.1, scanned.2)
  | '\'' :: rest => some ([], rest)
  | char :: rest => (scanString rest).map fun scanned => (char :: scanned.1, scanned.2)

def scanEither (following : Char) (longer shorter : Token) : List Char → Token × List Char
  | [] => (shorter, [])
  | char :: rest => if char = following then (longer, rest) else (shorter, char :: rest)

/-- The token of an angle bracket that opens. -/
def scanLess : List Char → Token × List Char
  | '-' :: '>' :: rest => (.vectorDist, rest)
  | '=' :: rest => (.ltEq, rest)
  | '>' :: rest => (.notEq, rest)
  | rest => (.lt, rest)

variable (platform : TextPlatform)

def scanOperator (char : Char) (rest : List Char) : Except String (Token × List Char) :=
  match singleToken char with
  | some token => .ok (token, rest)
  | none =>
      match char with
      | '=' => .ok (scanEither '=' .eq .assign rest)
      | '!' =>
          match rest with
          | '=' :: tail => .ok (.notEq, tail)
          | _ => .error "unexpected character '!'"
      | '<' => .ok (scanLess rest)
      | '>' => .ok (scanEither '=' .gtEq .gt rest)
      | '-' => .ok (scanEither '>' .arrow .minus rest)
      | '.' => .ok (scanEither '.' .dotDot .dot rest)
      | other =>
          let debug := platform.escapeDebug other
          .error s!"unexpected character {debug}"

/-- The token that starts with a character, and the text behind it. -/
def scanToken (char : Char) (rest : List Char) : Except String (Token × List Char) :=
  if char.isDigit ∨ (char = '.' ∧ rest.head?.any Char.isDigit) then
    let (hasDot, read, tail) := scanNumber (char == '.') rest
    (numberToken platform hasDot (char :: read)).map (·, tail)
  else if platform.isWordStart char then
    .ok (wordToken (char :: rest.takeWhile platform.isWordChar),
      rest.dropWhile platform.isWordChar)
  else if char = '\'' then
    match scanString rest with
    | none => .error "unterminated string literal"
    | some (content, tail) => .ok (.stringLiteral (String.ofList content), tail)
  else if char = ':' then
    if rest.head?.any platform.isWordStart then
      .ok (.param (String.ofList (rest.takeWhile platform.isWordChar)),
        rest.dropWhile platform.isWordChar)
    else .ok (.colon, rest)
  else scanOperator platform char rest

/-! ## What a token leaves -/

theorem length_scanNumber (hasDot : Bool) (rest : List Char) :
    (scanNumber hasDot rest).2.2.length ≤ rest.length := by
  fun_induction scanNumber hasDot rest with
  | case1 => simp
  | case2 hasDot char rest digit dotted read tail scanned induction =>
      rw [scanned] at induction
      exact Nat.le_succ_of_le induction
  | case3 hasDot char rest digit dot dotted read tail scanned induction =>
      rw [scanned] at induction
      exact Nat.le_succ_of_le induction
  | case4 => simp

theorem append_scanNumber (hasDot : Bool) (rest : List Char) :
    (scanNumber hasDot rest).2.1 ++ (scanNumber hasDot rest).2.2 = rest := by
  fun_induction scanNumber hasDot rest with
  | case1 => rfl
  | case2 hasDot char rest digit dotted read tail scanned induction =>
      rw [scanned] at induction
      rw [List.cons_append, induction]
  | case3 hasDot char rest digit dot dotted read tail scanned induction =>
      rw [scanned] at induction
      rw [List.cons_append, induction]
  | case4 => rfl

theorem length_scanString {rest content tail : List Char}
    (scanned : scanString rest = some (content, tail)) : tail.length ≤ rest.length := by
  fun_induction scanString rest generalizing content with
  | case1 => cases scanned
  | case2 rest induction =>
      rcases Option.map_eq_some_iff.mp scanned with ⟨inner, found, same⟩
      cases same
      exact (induction found).trans (by simp only [List.length_cons]; omega)
  | case3 rest single =>
      cases scanned
      simp
  | case4 char rest pair single induction =>
      rcases Option.map_eq_some_iff.mp scanned with ⟨inner, found, same⟩
      cases same
      exact Nat.le_succ_of_le (induction found)

theorem length_scanEither (following : Char) (longer shorter : Token) (rest : List Char) :
    (scanEither following longer shorter rest).2.length ≤ rest.length := by
  unfold scanEither
  split
  · simp
  · split <;> simp

theorem length_scanLess (rest : List Char) : (scanLess rest).2.length ≤ rest.length := by
  unfold scanLess
  split <;> grind

theorem exists_of_map_eq_ok {α β : Type} {result : Except String α} {f : α → β} {mapped : β}
    (same : result.map f = .ok mapped) : ∃ value, result = .ok value ∧ f value = mapped := by
  cases result with
  | error message => cases same
  | ok value => exact ⟨value, rfl, Except.ok.inj same⟩

theorem length_tail {pair : Token × List Char} {tail rest : List Char} {token : Token}
    (same : (.ok pair : Except String (Token × List Char)) = .ok (token, tail))
    (shorter : pair.2.length ≤ rest.length) : tail.length ≤ rest.length := by
  rw [Except.ok.inj same] at shorter
  exact shorter

theorem length_scanOperator {char : Char} {rest tail : List Char} {token : Token}
    (scanned : scanOperator platform char rest = .ok (token, tail)) :
    tail.length ≤ rest.length := by
  unfold scanOperator at scanned
  split at scanned
  · cases scanned
    exact le_rfl
  · split at scanned
    case h_2 =>
      split at scanned
      · cases scanned
        simp
      · cases scanned
    case h_3 => exact length_tail scanned (length_scanLess rest)
    case h_7 => cases scanned
    all_goals exact length_tail scanned (length_scanEither _ _ _ rest)

theorem length_scanToken {char : Char} {rest tail : List Char} {token : Token}
    (scanned : scanToken platform char rest = .ok (token, tail)) :
    tail.length ≤ rest.length := by
  have words : (rest.dropWhile platform.isWordChar).length ≤ rest.length :=
    (List.dropWhile_sublist _).length_le
  unfold scanToken at scanned
  split at scanned
  · have shorter := length_scanNumber (char == '.') rest
    rcases exists_of_map_eq_ok scanned with ⟨number, parsed, same⟩
    cases same
    exact shorter
  · split at scanned
    · cases scanned
      exact words
    · split at scanned
      · split at scanned
        · cases scanned
        · next content tail found =>
            cases scanned
            exact length_scanString found
      · split at scanned
        · split at scanned
          · cases scanned
            exact words
          · cases scanned
            exact le_rfl
        · exact length_scanOperator platform scanned

theorem keyword_ne_newline (word : String) : Token.keyword word ≠ some .newline := by
  intro found
  have absent : ∀ entry ∈ Token.keywords, entry.2 ≠ .newline := by decide
  rcases List.lookup_eq_some_iff.mp found with ⟨before, after, split, _⟩
  apply absent (word, .newline) _ rfl
  rw [split]
  simp

theorem wordToken_ne_newline (raw : List Char) : wordToken raw ≠ .newline := by
  unfold wordToken
  cases found : Token.keyword _ with
  | none => simp
  | some token =>
      intro same
      rw [Option.getD_some] at same
      exact keyword_ne_newline _ (same ▸ found)

theorem numberToken_ne_newline {hasDot : Bool} {raw : List Char} {token : Token}
    (spelled : numberToken platform hasDot raw = .ok token) : token ≠ .newline := by
  unfold numberToken at spelled
  grind

theorem scanOperator_ne_newline {char : Char} {rest tail : List Char} {token : Token}
    (scanned : scanOperator platform char rest = .ok (token, tail)) : token ≠ .newline := by
  unfold scanOperator scanEither scanLess singleToken at scanned
  grind

theorem scanToken_ne_newline {char : Char} {rest tail : List Char} {token : Token}
    (scanned : scanToken platform char rest = .ok (token, tail)) : token ≠ .newline := by
  unfold scanToken at scanned
  split at scanned
  · rcases exists_of_map_eq_ok scanned with ⟨number, parsed, same⟩
    cases same
    exact numberToken_ne_newline platform parsed
  · split at scanned
    · cases scanned
      exact wordToken_ne_newline _
    · split at scanned
      · split at scanned
        · cases scanned
        · cases scanned
          simp
      · split at scanned
        · split at scanned <;> cases scanned <;> simp
        · exact scanOperator_ne_newline platform scanned

/-! ## The whole text -/

theorem length_skip {mode : SkipMode} {text rest : List Char}
    (skipped : skip mode text = .ok rest) : rest.length ≤ text.length := by
  fun_induction skip mode text with
  | case1 text induction => exact Nat.le_succ_of_le (Nat.le_succ_of_le (induction skipped))
  | case2 text induction => exact Nat.le_succ_of_le (Nat.le_succ_of_le (induction skipped))
  | case3 char text line block blank induction => exact Nat.le_succ_of_le (induction skipped)
  | case4 char text line block solid => cases skipped; exact le_rfl
  | case5 => cases skipped; exact le_rfl
  | case6 text induction => exact Nat.le_succ_of_le (induction skipped)
  | case7 char text notBreak induction => exact Nat.le_succ_of_le (induction skipped)
  | case8 => cases skipped; exact le_rfl
  | case9 text induction => exact Nat.le_succ_of_le (Nat.le_succ_of_le (induction skipped))
  | case10 char text closing induction => exact Nat.le_succ_of_le (induction skipped)
  | case11 => cases skipped

/-- The tokens of a text, with the end of the input as the last one. -/
def scan (text : List Char) : Except String (List Token) :=
  match _skipped : skip .code text with
  | .error message => .error message
  | .ok [] => .ok [.eof]
  | .ok (char :: rest) =>
      match _scanned : scanToken platform char rest with
      | .error message => .error message
      | .ok (token, tail) => (scan tail).map (token :: ·)
termination_by text.length
decreasing_by
  have left := length_skip _skipped
  have tailLeft := length_scanToken platform _scanned
  rw [List.length_cons] at left
  omega

section

variable {platform} {text rest tail : List Char} {char : Char} {token : Token} {message : String}

theorem scan_skipError (skipped : skip .code text = .error message) :
    scan platform text = .error message := by
  rw [scan]
  split <;> simp_all

theorem scan_eof (skipped : skip .code text = .ok []) : scan platform text = .ok [.eof] := by
  rw [scan]
  split <;> simp_all

theorem scan_tokenError (skipped : skip .code text = .ok (char :: rest))
    (scanned : scanToken platform char rest = .error message) :
    scan platform text = .error message := by
  rw [scan]
  grind

theorem scan_token (skipped : skip .code text = .ok (char :: rest))
    (scanned : scanToken platform char rest = .ok (token, tail)) :
    scan platform text = (scan platform tail).map (token :: ·) := by
  rw [scan]
  grind

end

/-- A token starts here, or the input ends. -/
inductive TokenAt : List Char → List Char → Prop where
  | first {text start : List Char} :
      skip .code text = .ok start → TokenAt text start
  | next {text rest tail start : List Char} {char : Char} {token : Token} :
      skip .code text = .ok (char :: rest) →
      scanToken platform char rest = .ok (token, tail) →
      TokenAt tail start → TokenAt text start

/-- Wherever a token starts, its first two bytes are whole characters. -/
def TokensAligned (text : List Char) : Prop :=
  ∀ start, TokenAt platform text start → PairAligned start

namespace TokensAligned

variable {platform} {text rest tail : List Char} {char : Char} {token : Token} {message : String}

theorem of_skipError (skipped : skip .code text = .error message) :
    TokensAligned platform text := by
  intro start reached
  cases reached with
  | first found => cases skipped.symm.trans found
  | next found => cases skipped.symm.trans found

theorem of_eof (skipped : skip .code text = .ok []) : TokensAligned platform text := by
  intro start reached
  cases reached with
  | first found =>
      cases skipped.symm.trans found
      trivial
  | next found => cases skipped.symm.trans found

theorem of_tokenError (skipped : skip .code text = .ok (char :: rest))
    (scanned : scanToken platform char rest = .error message)
    (aligned : PairAligned (char :: rest)) : TokensAligned platform text := by
  intro start reached
  cases reached with
  | first found =>
      cases skipped.symm.trans found
      exact aligned
  | next found scannedOk =>
      cases skipped.symm.trans found
      cases scanned.symm.trans scannedOk

theorem token_iff (skipped : skip .code text = .ok (char :: rest))
    (scanned : scanToken platform char rest = .ok (token, tail)) :
    TokensAligned platform text ↔
      PairAligned (char :: rest) ∧ TokensAligned platform tail := by
  constructor
  · intro aligned
    exact ⟨aligned _ (.first skipped), fun start reached =>
      aligned start (.next skipped scanned reached)⟩
  · intro aligned start reached
    cases reached with
    | first found =>
        cases skipped.symm.trans found
        exact aligned.1
    | next found scannedOk reached =>
        cases skipped.symm.trans found
        cases scanned.symm.trans scannedOk
        exact aligned.2 start reached

end TokensAligned

end FunDB.Sql
