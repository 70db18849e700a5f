import Mathlib.Data.List.Basic

/-! # JSON texts

A reader for the grammar of RFC 8259. A number keeps its text. A string gives the
characters it stands for, two escaped surrogates being one character. -/

namespace FunDB.Json

inductive Value where
  | null
  | bool (value : Bool)
  | number (text : String)
  | string (text : String)
  | array (elements : List Value)
  | object (members : List (String × Value))

def IsSpace (char : Char) : Bool :=
  char = ' ' || char = '\t' || char = '\n' || char = '\r'

def skipSpace (text : List Char) : List Char :=
  text.dropWhile IsSpace

/-! ## Strings -/

/-- A character as it stands, or a code unit written in hexadecimal. -/
inductive Piece where
  | char (char : Char)
  | unit (code : Nat)
deriving DecidableEq, Repr

def hexDigit (char : Char) : Option Nat :=
  if '0' ≤ char ∧ char ≤ '9' then some (char.toNat - '0'.toNat)
  else if 'a' ≤ char ∧ char ≤ 'f' then some (char.toNat - 'a'.toNat + 10)
  else if 'A' ≤ char ∧ char ≤ 'F' then some (char.toNat - 'A'.toNat + 10)
  else none

def hexCode (digits : List Char) : Option Nat :=
  digits.foldlM (fun code digit => (hexDigit digit).map (16 * code + ·)) 0

def escaped (char : Char) : Option Char :=
  match char with
  | '"' => some '"'
  | '\\' => some '\\'
  | '/' => some '/'
  | 'b' => some '\x08'
  | 'f' => some '\x0c'
  | 'n' => some '\n'
  | 'r' => some '\r'
  | 't' => some '\t'
  | _ => none

def Piece.before (piece : Piece) (read : Option (List Piece × List Char)) :
    Option (List Piece × List Char) :=
  read.map fun result => (piece :: result.1, result.2)

/-- The pieces up to the closing quote, and the text behind it. -/
def readPieces : List Char → Option (List Piece × List Char)
  | [] => none
  | char :: rest =>
      if char = '"' then some ([], rest)
      else if char = '\\' then
        match rest with
        | 'u' :: first :: second :: third :: fourth :: rest =>
            match hexCode [first, second, third, fourth] with
            | some code => (Piece.unit code).before (readPieces rest)
            | none => none
        | char :: rest =>
            match escaped char with
            | some char => (Piece.char char).before (readPieces rest)
            | none => none
        | [] => none
      else if char.toNat < 0x20 then none
      else (Piece.char char).before (readPieces rest)

def IsHighSurrogate (code : Nat) : Prop := 0xD800 ≤ code ∧ code < 0xDC00

def IsLowSurrogate (code : Nat) : Prop := 0xDC00 ≤ code ∧ code < 0xE000

instance (code : Nat) : Decidable (IsHighSurrogate code) :=
  inferInstanceAs (Decidable (_ ∧ _))

instance (code : Nat) : Decidable (IsLowSurrogate code) :=
  inferInstanceAs (Decidable (_ ∧ _))

/-- The characters of the pieces. A surrogate without its other half stands for none. -/
def charsOf : Option Nat → List Piece → Option (List Char)
  | none, [] => some []
  | some _, [] => none
  | none, .char char :: rest => (charsOf none rest).map (char :: ·)
  | some _, .char _ :: _ => none
  | none, .unit code :: rest =>
      if IsHighSurrogate code then charsOf (some code) rest
      else if IsLowSurrogate code then none
      else (charsOf none rest).map (Char.ofNat code :: ·)
  | some high, .unit code :: rest =>
      if IsLowSurrogate code then
        (charsOf none rest).map
          (Char.ofNat (0x10000 + (high - 0xD800) * 0x400 + (code - 0xDC00)) :: ·)
      else none

def readString (text : List Char) : Option (String × List Char) :=
  match readPieces text with
  | some (pieces, rest) => (charsOf none pieces).map fun chars => (String.ofList chars, rest)
  | none => none

/-! ## Numbers -/

/-- At least one digit, behind what comes before them. -/
def readDigits (before text : List Char) : Option (List Char × List Char) :=
  let (digits, rest) := text.span Char.isDigit
  if digits = [] then none else some (before ++ digits, rest)

def readInteger (text : List Char) : Option (List Char × List Char) :=
  match text with
  | '-' :: '0' :: rest => some (['-', '0'], rest)
  | '0' :: rest => some (['0'], rest)
  | '-' :: rest => readDigits ['-'] rest
  | text => readDigits [] text

def readFraction (text : List Char) : Option (List Char × List Char) :=
  match text with
  | '.' :: rest => readDigits ['.'] rest
  | text => some ([], text)

def readExponent (text : List Char) : Option (List Char × List Char) :=
  match text with
  | [] => some ([], [])
  | mark :: rest =>
      if mark = 'e' ∨ mark = 'E' then
        match rest with
        | '+' :: rest => readDigits [mark, '+'] rest
        | '-' :: rest => readDigits [mark, '-'] rest
        | rest => readDigits [mark] rest
      else some ([], mark :: rest)

def readNumber (text : List Char) : Option (Value × List Char) := do
  let (integer, rest) ← readInteger text
  let (fraction, rest) ← readFraction rest
  let (exponent, rest) ← readExponent rest
  return (.number (String.ofList (integer ++ fraction ++ exponent)), rest)

/-! ## Values -/

/-- An array or an object that is closed at once, or else what is read. -/
def closedOr (close : Char) (empty : Value) (text : List Char)
    (read : Option (Value × List Char)) : Option (Value × List Char) :=
  match skipSpace text with
  | char :: rest => if char = close then some (empty, rest) else read
  | [] => read

mutual

/-- A value and the text behind it. Every value and every element takes fuel. -/
def readValue : Nat → List Char → Option (Value × List Char)
  | 0, _ => none
  | fuel + 1, text =>
      match skipSpace text with
      | '"' :: rest => (readString rest).map fun read => (.string read.1, read.2)
      | '[' :: rest =>
          closedOr ']' (.array []) rest
            ((readElements fuel rest).map fun read => (.array read.1, read.2))
      | '\x7b' :: rest =>
          closedOr '\x7d' (.object []) rest
            ((readMembers fuel rest).map fun read => (.object read.1, read.2))
      | 'n' :: 'u' :: 'l' :: 'l' :: rest => some (.null, rest)
      | 't' :: 'r' :: 'u' :: 'e' :: rest => some (.bool true, rest)
      | 'f' :: 'a' :: 'l' :: 's' :: 'e' :: rest => some (.bool false, rest)
      | text => readNumber text

/-- The elements of an array, up to its closing bracket. -/
def readElements : Nat → List Char → Option (List Value × List Char)
  | 0, _ => none
  | fuel + 1, text =>
      match readValue fuel text with
      | none => none
      | some (element, rest) =>
          match skipSpace rest with
          | ']' :: rest => some ([element], rest)
          | ',' :: rest =>
              (readElements fuel rest).map fun read => (element :: read.1, read.2)
          | _ => none

def readMembers : Nat → List Char → Option (List (String × Value) × List Char)
  | 0, _ => none
  | fuel + 1, text =>
      match skipSpace text with
      | '"' :: rest =>
          match readString rest with
          | none => none
          | some (name, rest) =>
              match skipSpace rest with
              | ':' :: rest =>
                  match readValue fuel rest with
                  | none => none
                  | some (value, rest) =>
                      match skipSpace rest with
                      | '\x7d' :: rest => some ([(name, value)], rest)
                      | ',' :: rest =>
                          (readMembers fuel rest).map fun read =>
                            ((name, value) :: read.1, read.2)
                      | _ => none
              | _ => none
      | _ => none

end

/-- The value of a whole text, which may have space around it. -/
def read (text : String) : Option Value :=
  match readValue (text.toList.length + 1) text.toList with
  | some (value, rest) => if skipSpace rest = [] then some value else none
  | none => none

/-! ## Texts with one reading -/

/-- The text of a value, whatever stands behind it. -/
def Reads (text : List Char) (value : Value) : Prop :=
  ∀ fuel rest, text.length ≤ fuel → readValue fuel (text ++ rest) = some (value, rest)

/-- The text of a string, up to its closing quote. -/
def Spells (body : List Char) (text : String) : Prop :=
  ∀ rest, readString (body ++ '"' :: rest) = some (text, rest)

theorem readValue_space (fuel : Nat) (text : List Char) :
    readValue fuel (' ' :: text) = readValue fuel text := by
  cases fuel <;> rfl

theorem reads_string {body : List Char} {text : String} (spells : Spells body text) :
    Reads ('"' :: body ++ ['"']) (.string text) := by
  intro fuel rest enough
  cases fuel with
  | zero => simp at enough
  | succ fuel =>
      have split : '"' :: body ++ ['"'] ++ rest = '"' :: (body ++ '"' :: rest) := by simp
      rw [split]
      exact congrArg (Option.map _) (spells rest)

theorem reads_null : Reads ['n', 'u', 'l', 'l'] .null := by
  intro fuel rest enough
  cases fuel with
  | zero => simp at enough
  | succ fuel => rfl

theorem Reads.readElements_succ {text : List Char} {value : Value} (reads : Reads text value)
    {fuel : Nat} (enough : text.length ≤ fuel) (rest : List Char) :
    readElements (fuel + 1) (text ++ rest) =
      match skipSpace rest with
      | ']' :: rest => some ([value], rest)
      | ',' :: rest => (readElements fuel rest).map fun read => (value :: read.1, read.2)
      | _ => none := by
  rw [readElements, reads fuel _ enough]

theorem Reads.readElements_close {text rest : List Char} {value : Value}
    (reads : Reads text value) {fuel : Nat} (enough : text.length ≤ fuel) :
    readElements (fuel + 1) (text ++ ']' :: rest) = some ([value], rest) :=
  reads.readElements_succ enough _

theorem Reads.readElements_comma {text rest : List Char} {value : Value}
    (reads : Reads text value) {fuel : Nat} (enough : text.length ≤ fuel) :
    readElements (fuel + 1) (text ++ ',' :: ' ' :: rest) =
      (readElements fuel (' ' :: rest)).map fun read => (value :: read.1, read.2) :=
  reads.readElements_succ enough _

theorem readElements_space (fuel : Nat) (text : List Char) :
    readElements fuel (' ' :: text) = readElements fuel text := by
  cases fuel with
  | zero => rw [readElements, readElements]
  | succ fuel => rw [readElements, readElements, readValue_space]

theorem closedOr_of_ne {close : Char} {text : List Char}
    (opened : ∀ after, skipSpace text ≠ close :: after) (empty : Value)
    (read : Option (Value × List Char)) : closedOr close empty text read = read := by
  unfold closedOr
  split
  next char rest here =>
    have other : char ≠ close := fun same => opened rest (same ▸ here)
    rw [if_neg other]
  next => rfl

theorem readValue_elements {text : List Char}
    (opened : ∀ after, skipSpace text ≠ ']' :: after) (fuel : Nat) :
    readValue (fuel + 1) ('[' :: text) =
      (readElements fuel text).map fun read => (.array read.1, read.2) :=
  closedOr_of_ne opened (.array []) _

/-- An object whose first member follows its brace at once. -/
theorem readValue_members (fuel : Nat) (text : List Char) :
    readValue (fuel + 1) ('\x7b' :: '"' :: text) =
      (readMembers fuel ('"' :: text)).map fun read => (.object read.1, read.2) :=
  rfl

/-- One member, up to the text behind its value. -/
def Member (text : List Char) (name : String) (value : Value) : Prop :=
  ∃ body valueText, text = '"' :: body ++ '"' :: ':' :: ' ' :: valueText ∧
    Spells body name ∧ Reads valueText value

theorem Member.readMembers_succ {text : List Char} {name : String} {value : Value}
    (member : Member text name value) {fuel : Nat} (enough : text.length ≤ fuel)
    (rest : List Char) :
    readMembers (fuel + 1) (text ++ rest) =
      match skipSpace rest with
      | '\x7d' :: rest => some ([(name, value)], rest)
      | ',' :: rest => (readMembers fuel rest).map fun read => ((name, value) :: read.1, read.2)
      | _ => none := by
  rcases member with ⟨body, valueText, rfl, spells, reads⟩
  have spelled (rest : List Char) : readString (body ++ '"' :: rest) = some (name, rest) :=
    spells rest
  simp only [List.length_append, List.length_cons] at enough
  have split : '"' :: body ++ '"' :: ':' :: ' ' :: valueText ++ rest =
      '"' :: (body ++ '"' :: (':' :: ' ' :: (valueText ++ rest))) := by simp
  have quote (text : List Char) : skipSpace ('"' :: text) = '"' :: text := rfl
  have colon (text : List Char) : skipSpace (':' :: text) = ':' :: text := rfl
  rw [split, readMembers, quote]
  simp only [spelled, colon, readValue_space, reads fuel _ (by omega)]

theorem Member.readMembers_close {text rest : List Char} {name : String} {value : Value}
    (member : Member text name value) {fuel : Nat} (enough : text.length ≤ fuel) :
    readMembers (fuel + 1) (text ++ '\x7d' :: rest) = some ([(name, value)], rest) :=
  member.readMembers_succ enough _

theorem Member.readMembers_comma {text rest : List Char} {name : String} {value : Value}
    (member : Member text name value) {fuel : Nat} (enough : text.length ≤ fuel) :
    readMembers (fuel + 1) (text ++ ',' :: rest) =
      (readMembers fuel rest).map fun read => ((name, value) :: read.1, read.2) :=
  member.readMembers_succ enough _

theorem readMembers_space (fuel : Nat) (text : List Char) :
    readMembers fuel (' ' :: text) = readMembers fuel text := by
  cases fuel <;> rfl

theorem read_of_reads {text : String} {front : List Char} {value : Value}
    (split : text.toList = front ++ ['\n']) (reads : Reads front value) :
    read text = some value := by
  have enough : front.length ≤ text.toList.length + 1 := by
    rw [split, List.length_append]
    omega
  have here := reads (text.toList.length + 1) ['\n'] enough
  rw [← split] at here
  rw [read, here]
  rfl

section Array

variable {Element : Type} {text : Element → List Char} {value : Element → Value}

theorem readElements_intercalate {elements : List Element} (some : elements ≠ [])
    (reads : ∀ element ∈ elements, Reads (text element) (value element)) (fuel : Nat)
    (rest : List Char)
    (enough : ([',', ' '].intercalate (elements.map text)).length < fuel) :
    readElements fuel ([',', ' '].intercalate (elements.map text) ++ ']' :: rest) =
      Option.some (elements.map value, rest) := by
  induction elements generalizing fuel with
  | nil => exact absurd rfl some
  | cons element elements induction =>
      rcases List.forall_mem_cons.mp reads with ⟨here, reads⟩
      cases fuel with
      | zero => exact absurd enough (Nat.not_lt_zero _)
      | succ fuel =>
          cases elements with
          | nil =>
              rw [List.map_singleton, List.intercalate_singleton] at enough ⊢
              exact here.readElements_close (by omega)
          | cons next elements =>
              have split : [',', ' '].intercalate ((element :: next :: elements).map text) =
                  text element ++ ',' :: ' ' ::
                    [',', ' '].intercalate ((next :: elements).map text) := rfl
              rw [split] at enough ⊢
              simp only [List.length_append, List.length_cons] at enough
              rw [List.append_assoc, List.cons_append, List.cons_append,
                here.readElements_comma (by omega), readElements_space,
                induction (List.cons_ne_nil _ _) reads fuel (by omega)]
              rfl

/-- What reads as a value does not begin with a closing bracket. -/
theorem Reads.not_close {read : List Char} {found : Value} (reads : Reads read found)
    (rest after : List Char) : skipSpace (read ++ rest) ≠ ']' :: after := by
  intro close
  have here := reads (read.length + 1) rest (by omega)
  have none : readValue (read.length + 1) (read ++ rest) = none := by
    rw [readValue, close]
    rfl
  rw [none] at here
  cases here

theorem reads_array (elements : List Element)
    (reads : ∀ element ∈ elements, Reads (text element) (value element)) :
    Reads ('[' :: [',', ' '].intercalate (elements.map text) ++ [']'])
      (.array (elements.map value)) := by
  intro fuel rest enough
  cases fuel with
  | zero => simp at enough
  | succ fuel =>
      have split : '[' :: [',', ' '].intercalate (elements.map text) ++ [']'] ++ rest =
          '[' :: ([',', ' '].intercalate (elements.map text) ++ ']' :: rest) := by simp
      rw [split]
      cases elements with
      | nil => rfl
      | cons element elements =>
          have opened : ∀ after,
              skipSpace ([',', ' '].intercalate ((element :: elements).map text) ++
                ']' :: rest) ≠ ']' :: after := by
            intro after
            have here := reads element List.mem_cons_self
            cases elements with
            | nil =>
                rw [List.map_singleton, List.intercalate_singleton]
                exact here.not_close _ after
            | cons next elements =>
                rw [List.map_cons, List.map_cons, List.intercalate_cons_cons,
                  List.append_assoc, List.append_assoc]
                exact here.not_close _ after
          have all := readElements_intercalate (List.cons_ne_nil _ _) reads fuel rest
            (by simp only [List.length_append, List.length_cons, List.length_nil] at enough
                omega)
          rw [readValue_elements opened, all, Option.map_some]

end Array

end FunDB.Json
