import FunDB.Foundation.ByteSlices
import FunDB.Sql.Token

/-! # The lexer

Text into tokens. The lexer reads characters but addresses them by bytes. -/

namespace FunDB.Sql

open ByteSlices

/-- What the lexer takes from the standard library: the character classes of
Unicode, the debug form of a character, and rounding to `f64`. -/
structure TextPlatform where
  isAlphabetic : Char → Bool
  isNumeric : Char → Bool
  escapeDebug : Char → String
  roundF64 : ℚ → ℚ
  alphabetic_ascii : ∀ char, char.toNat < 128 → isAlphabetic char = char.isAlpha
  numeric_ascii : ∀ char, char.toNat < 128 → isNumeric char = char.isDigit

namespace TextPlatform

variable (platform : TextPlatform)

def isWordStart (char : Char) : Bool := platform.isAlphabetic char || char == '_'

def isWordChar (char : Char) : Bool :=
  platform.isAlphabetic char || platform.isNumeric char || char == '_'

theorem isWordChar_of_isWordStart {char : Char} (starts : platform.isWordStart char = true) :
    platform.isWordChar char = true := by
  simp only [isWordStart, isWordChar, Bool.or_eq_true] at starts ⊢
  exact starts.imp .inl id

theorem beq_false_of_ascii {char : Char} (other : Char) (ascii : char.toNat < 128)
    (beyond : 128 ≤ other.toNat) : (char == other) = false := by
  apply beq_false_of_ne
  rintro rfl
  omega

/-- The classes of Unicode as far as Latin-1, and none beyond it; no rounding. -/
def latin1 : TextPlatform where
  isAlphabetic char := char.isAlpha || 0xC0 ≤ char.toNat && char.toNat ≤ 0xFF &&
    char != '×' && char != '÷' || char == 'ª' || char == 'µ' || char == 'º'
  isNumeric char := char.isDigit || char == '²' || char == '³' || char == '¹' ||
    0xBC ≤ char.toNat && char.toNat ≤ 0xBE
  escapeDebug char := String.ofList ['\'', char, '\'']
  roundF64 value := value
  alphabetic_ascii char ascii := by
    have low : decide (0xC0 ≤ char.toNat) = false := decide_eq_false (by omega)
    rw [low, beq_false_of_ascii 'ª' ascii (by decide),
      beq_false_of_ascii 'µ' ascii (by decide),
      beq_false_of_ascii 'º' ascii (by decide)]
    simp
  numeric_ascii char ascii := by
    have low : decide (0xBC ≤ char.toNat) = false := decide_eq_false (by omega)
    rw [low, beq_false_of_ascii '²' ascii (by decide),
      beq_false_of_ascii '³' ascii (by decide),
      beq_false_of_ascii '¹' ascii (by decide)]
    simp

end TextPlatform

structure Span where
  line : UInt32
  col : UInt32
  len : Nat
deriving DecidableEq, Repr

structure LexError where
  message : String
  line : UInt32
  col : UInt32
deriving DecidableEq, Repr

/-- How lexing ends. A slice off a character boundary panics; a loop that has
used up its fuel is still running. -/
inductive Outcome (α : Type) where
  | ok (value : α)
  | err (error : LexError)
  | panic
  | running
deriving DecidableEq, Repr

namespace Outcome

variable {α β : Type}

def bind : Outcome α → (α → Outcome β) → Outcome β
  | .ok value, next => next value
  | .err error, _ => .err error
  | .panic, _ => .panic
  | .running, _ => .running

instance : Monad Outcome where
  pure := .ok
  bind := bind

def ofSlice : Option α → Outcome α
  | some value => .ok value
  | none => .panic

@[simp] theorem ok_bind (value : α) (next : α → Outcome β) :
    (Outcome.ok value >>= next) = next value := rfl

@[simp] theorem err_bind (error : LexError) (next : α → Outcome β) :
    (Outcome.err error >>= next) = .err error := rfl

@[simp] theorem panic_bind (next : α → Outcome β) : (Outcome.panic >>= next) = .panic := rfl

@[simp] theorem pure_eq (value : α) : (pure value : Outcome α) = .ok value := rfl

end Outcome

/-! ## Numbers -/

def i64Max : Nat := 9223372036854775807

def digitsValue (digits : List Char) : Nat :=
  digits.foldl (fun value digit => 10 * value + (digit.toNat - '0'.toNat)) 0

/-- The `i64` that digits spell. -/
def parseI64 (raw : List Char) : Option Int :=
  if raw = [] ∨ digitsValue raw > i64Max then none else some (digitsValue raw)

/-- The exact value of digits around a dot. -/
def decimalValue (raw : List Char) : ℚ :=
  let whole := raw.takeWhile (· ≠ '.')
  let fraction := (raw.dropWhile (· ≠ '.')).drop 1
  digitsValue whole + digitsValue fraction / 10 ^ fraction.length

/-- The number that digits around a dot spell. -/
def TextPlatform.parseF64 (platform : TextPlatform) (raw : List Char) : Option ℚ :=
  if raw.any Char.isDigit then some (platform.roundF64 (decimalValue raw)) else none

/-! ## Reading characters -/

structure Lexer where
  input : List Char
  pos : Nat
  line : UInt32
  col : UInt32
deriving DecidableEq, Repr

namespace Lexer

def new (input : String) : Lexer := ⟨input.toList, 0, 1, 1⟩

def len (lexer : Lexer) : Nat := byteLength lexer.input

def sliceFrom (lexer : Lexer) (start : Nat) : Outcome (List Char) :=
  .ofSlice (dropBytes lexer.input start)

def slice (lexer : Lexer) (start finish : Nat) : Outcome (List Char) :=
  .ofSlice (ByteSlices.slice lexer.input start finish)

def currentChar (lexer : Lexer) : Outcome (Option Char) := do
  return (← lexer.sliceFrom lexer.pos).head?

def peekChar (lexer : Lexer) (offset : Nat) : Outcome (Option Char) :=
  if lexer.pos + offset ≥ lexer.len then .ok none
  else do return (← lexer.sliceFrom (lexer.pos + offset)).head?

def past (lexer : Lexer) (char : Char) : Lexer where
  input := lexer.input
  pos := lexer.pos + char.utf8Size
  line := if char = '\n' then lexer.line + 1 else lexer.line
  col := if char = '\n' then 1 else lexer.col + 1

def advance (lexer : Lexer) : Outcome (Option Char × Lexer) := do
  match ← lexer.currentChar with
  | none => return (none, lexer)
  | some char => return (some char, lexer.past char)

def span (lexer : Lexer) (len : Nat) : Span := ⟨lexer.line, lexer.col, len⟩

def lexError (lexer : Lexer) (message : String) : LexError := ⟨message, lexer.line, lexer.col⟩

/-- As many steps as any loop over the input takes. -/
def fuel (lexer : Lexer) : Nat := lexer.input.length + 1

def advanceWhile (keep : Char → Bool) : Nat → Lexer → Outcome Lexer
  | 0, _ => .running
  | fuel + 1, lexer => do
      match ← lexer.currentChar with
      | none => return lexer
      | some char =>
          if keep char then
            let (_, lexer) ← lexer.advance
            advanceWhile keep fuel lexer
          else return lexer

/-! ## Comments and whitespace -/

def isBlank (char : Char) : Bool :=
  char == ' ' || char == '\t' || char == '\r' || char == '\n'

def skipLine : Nat → Lexer → Outcome Lexer
  | 0, _ => .running
  | fuel + 1, lexer => do
      match ← lexer.advance with
      | (none, lexer) => return lexer
      | (some char, lexer) => if char = '\n' then return lexer else skipLine fuel lexer

/-- Skip to the end of a block comment. -/
def skipBlock : Nat → Lexer → Outcome Lexer
  | 0, _ => .running
  | fuel + 1, lexer => do
      match ← lexer.advance with
      | (none, lexer) => .err (lexer.lexError "unterminated block comment")
      | (some char, lexer) =>
          if char = '*' then
            if (← lexer.currentChar) = some '/' then return (← lexer.advance).2
            else skipBlock fuel lexer
          else skipBlock fuel lexer

def skipWhitespaceAndComments : Nat → Lexer → Outcome Lexer
  | 0, _ => .running
  | fuel + 1, lexer => do
      let lexer ← lexer.advanceWhile isBlank lexer.fuel
      if lexer.pos + 1 < lexer.len then
        if (← lexer.slice lexer.pos (lexer.pos + 2)) = ['-', '-'] then
          skipWhitespaceAndComments fuel (← lexer.skipLine lexer.fuel)
        else if (← lexer.slice lexer.pos (lexer.pos + 2)) = ['/', '*'] then
          let (_, lexer) ← lexer.advance
          let (_, lexer) ← lexer.advance
          skipWhitespaceAndComments fuel (← lexer.skipBlock lexer.fuel)
        else return lexer
      else return lexer

/-! ## Tokens of several characters -/

variable (platform : TextPlatform)

/-- Read digits and at most one dot; a `..` ends the number. -/
def numberLoop : Nat → Bool → Lexer → Outcome (Bool × Lexer)
  | 0, _, _ => .running
  | fuel + 1, hasDot, lexer => do
      match ← lexer.currentChar with
      | none => return (hasDot, lexer)
      | some char =>
          if char.isDigit then
            let (_, lexer) ← lexer.advance
            numberLoop fuel hasDot lexer
          else if char = '.' ∧ hasDot = false then
            if (← lexer.peekChar 1) = some '.' then return (hasDot, lexer)
            else
              let (_, lexer) ← lexer.advance
              numberLoop fuel true lexer
          else return (hasDot, lexer)

def numberToken (hasDot : Bool) (raw : List Char) : Except String Token :=
  let text := String.ofList raw
  if hasDot then
    match platform.parseF64 raw with
    | some value => .ok (.floatLiteral value)
    | none => .error s!"invalid float literal '{text}'. Expected format: 3.14 or 0.5"
  else
    match parseI64 raw with
    | some value => .ok (.intLiteral value)
    | none => .error
        s!"invalid integer literal '{text}'. Value may be out of range (max: {i64Max})"

def lexNumber (lexer : Lexer) (line col : UInt32) (start : Nat) :
    Outcome ((Token × Span) × Lexer) := do
  let leadingDot := (← lexer.currentChar) = some '.'
  let lexer ← if leadingDot then do pure (← lexer.advance).2 else pure lexer
  let (hasDot, lexer) ← numberLoop lexer.fuel leadingDot lexer
  let raw ← lexer.slice start lexer.pos
  match numberToken platform hasDot raw with
  | .ok token => return ((token, ⟨line, col, byteLength raw⟩), lexer)
  | .error message => .err ⟨message, line, col⟩

def wordToken (raw : List Char) : Token :=
  (Token.keyword (String.ofList (raw.map Char.toLower))).getD (.ident (String.ofList raw))

def lexWord (lexer : Lexer) (line col : UInt32) (start : Nat) :
    Outcome ((Token × Span) × Lexer) := do
  let lexer ← lexer.advanceWhile platform.isWordChar lexer.fuel
  let raw ← lexer.slice start lexer.pos
  return ((wordToken raw, ⟨line, col, byteLength raw⟩), lexer)

/-- Read the content of a string to its closing quote; two quotes are one. -/
def stringLoop (line col : UInt32) : Nat → String → Lexer → Outcome (String × Lexer)
  | 0, _, _ => .running
  | fuel + 1, content, lexer => do
      match ← lexer.advance with
      | (none, _) => .err ⟨"unterminated string literal", line, col⟩
      | (some char, lexer) =>
          if char = '\'' then
            if (← lexer.currentChar) = some '\'' then
              let (_, lexer) ← lexer.advance
              stringLoop line col fuel (content.push '\'') lexer
            else return (content, lexer)
          else stringLoop line col fuel (content.push char) lexer

def lexString (lexer : Lexer) (line col : UInt32) : Outcome ((Token × Span) × Lexer) := do
  let start := lexer.pos
  let (_, lexer) ← lexer.advance
  let (content, lexer) ← stringLoop line col lexer.fuel "" lexer
  return ((.stringLiteral content, ⟨line, col, lexer.pos - start⟩), lexer)

def lexParam (lexer : Lexer) (line col : UInt32) : Outcome ((Token × Span) × Lexer) := do
  let start := lexer.pos
  let (_, lexer) ← lexer.advance
  let nameStart := lexer.pos
  let lexer ← lexer.advanceWhile platform.isWordChar lexer.fuel
  let name ← lexer.slice nameStart lexer.pos
  return ((.param (String.ofList name), ⟨line, col, lexer.pos - start⟩), lexer)

/-! ## Operators and punctuation -/

def singleToken : Char → Option Token
  | '+' => some .plus
  | '%' => some .percent
  | '/' => some .slash
  | '*' => some .star
  | '(' => some .lParen
  | ')' => some .rParen
  | '{' => some .lBrace
  | '}' => some .rBrace
  | '[' => some .lBracket
  | ']' => some .rBracket
  | ',' => some .comma
  | ';' => some .semicolon
  | _ => none

/-- One token if a certain character follows, and another if not. -/
def either (lexer : Lexer) (following : Char) (longer shorter : Token) :
    Outcome (Token × Lexer) := do
  if (← lexer.currentChar) = some following then return (longer, (← lexer.advance).2)
  else return (shorter, lexer)

/-- The token of an angle bracket that opens. -/
def less (lexer : Lexer) : Outcome (Token × Lexer) := do
  let current ← lexer.currentChar
  let next ← if current = some '-' then lexer.peekChar 1 else pure none
  if current = some '-' ∧ next = some '>' then
    let (_, lexer) ← lexer.advance
    return (.vectorDist, (← lexer.advance).2)
  else if current = some '=' then return (.ltEq, (← lexer.advance).2)
  else if current = some '>' then return (.notEq, (← lexer.advance).2)
  else return (.lt, lexer)

/-- The token that starts with the character that was just read. -/
def operatorToken (lexer : Lexer) (line col : UInt32) (char : Char) :
    Outcome (Token × Lexer) := do
  match singleToken char with
  | some token => return (token, lexer)
  | none =>
      match char with
      | '=' => lexer.either '=' .eq .assign
      | '!' =>
          if (← lexer.currentChar) = some '=' then return (.notEq, (← lexer.advance).2)
          else .err ⟨"unexpected character '!'", line, col⟩
      | '<' => lexer.less
      | '>' => lexer.either '=' .gtEq .gt
      | '-' => lexer.either '>' .arrow .minus
      | '.' => lexer.either '.' .dotDot .dot
      | other =>
          let debug := platform.escapeDebug other
          .err ⟨s!"unexpected character {debug}", line, col⟩

/-! ## The whole text -/

def startsNumber (lexer : Lexer) (char : Char) : Outcome Bool :=
  if char.isDigit then .ok true
  else if char = '.' then do return (← lexer.peekChar 1).any Char.isDigit
  else .ok false

def nextToken (lexer : Lexer) : Outcome ((Token × Span) × Lexer) := do
  let line := lexer.line
  let col := lexer.col
  let start := lexer.pos
  match ← lexer.currentChar with
  | none => return ((.eof, lexer.span 0), lexer)
  | some char =>
      if ← lexer.startsNumber char then
        lexer.lexNumber platform line col start
      else if platform.isWordStart char then lexer.lexWord platform line col start
      else if char = '\'' then lexer.lexString line col
      else if char = ':' then
        if (← lexer.peekChar 1).any platform.isWordStart then lexer.lexParam platform line col
        else return ((.colon, ⟨line, col, 1⟩), (← lexer.advance).2)
      else
        let (_, lexer) ← lexer.advance
        let (token, lexer) ← lexer.operatorToken platform line col char
        return ((token, ⟨line, col, lexer.pos - start⟩), lexer)

def tokenLoop : Nat → List (Token × Span) → Lexer → Outcome (List (Token × Span) × Lexer)
  | 0, _, _ => .running
  | fuel + 1, tokens, lexer => do
      let lexer ← lexer.skipWhitespaceAndComments lexer.fuel
      if lexer.pos ≥ lexer.len then return (tokens ++ [(.eof, lexer.span 0)], lexer)
      else
        let ((token, span), lexer) ← lexer.nextToken platform
        if token = .newline then tokenLoop fuel tokens lexer
        else tokenLoop fuel (tokens ++ [(token, span)]) lexer

def tokenize (lexer : Lexer) : Outcome (List (Token × Span) × Lexer) :=
  lexer.tokenLoop platform lexer.fuel []

end Lexer

end FunDB.Sql
