import Mathlib.Algebra.GroupWithZero.Nat
import Mathlib.Data.List.DropRight

/-! # Texts -/

namespace FunDB.Text

/-- The characters that Unicode counts as white space. -/
def isWhitespace (char : Char) : Bool :=
  let code := char.toNat
  (0x9 ≤ code && code ≤ 0xD) || code == 0x20 || code == 0x85 || code == 0xA0 ||
    code == 0x1680 || (0x2000 ≤ code && code ≤ 0x200A) || code == 0x2028 || code == 0x2029 ||
    code == 0x202F || code == 0x205F || code == 0x3000

def trim (text : String) : String :=
  String.ofList ((text.toList.dropWhile isWhitespace).rdropWhile isWhitespace)

def trimEnd (text : String) : String :=
  String.ofList (text.toList.rdropWhile isWhitespace)

/-- The byte position where a text first holds a pattern. -/
def findChars (pattern : List Char) : List Char → Option Nat
  | [] => if pattern = [] then some 0 else none
  | char :: rest =>
      if pattern.isPrefixOf (char :: rest) then some 0
      else (findChars pattern rest).map (· + char.utf8Size)

def find (text pattern : String) : Option Nat :=
  findChars pattern.toList text.toList

def contains (text pattern : String) : Bool :=
  (find text pattern).isSome

def startsWith (text pattern : String) : Bool :=
  pattern.toList.isPrefixOf text.toList

/-- `str::parse::<i64>` -/
def parseI64 (text : String) : Option Int :=
  let value (digits : List Char) : Option Nat :=
    if digits ≠ [] ∧ digits.all Char.isDigit then
      some (digits.foldl (fun value digit => 10 * value + (digit.toNat - '0'.toNat)) 0)
    else none
  match text.toList with
  | '-' :: digits =>
      (value digits).bind fun number => if number ≤ 2 ^ 63 then some (-number) else none
  | '+' :: digits =>
      (value digits).bind fun number => if number < 2 ^ 63 then some number else none
  | digits => (value digits).bind fun number => if number < 2 ^ 63 then some number else none

/-- The number that a text is, of any size, with at most one plus sign. -/
def numeral (text : String) : Option Nat :=
  let digits := if text.toList.head? = some '+' then text.toList.tail else text.toList
  if digits ≠ [] ∧ digits.all Char.isDigit then
    some (digits.foldl (fun value digit => 10 * value + (digit.toNat - '0'.toNat)) 0)
  else none

/-- `str::parse` for an unsigned integer of so many bits. -/
def parseUnsigned (bits : Nat) (text : String) : Option Nat :=
  (numeral text).filter fun value => value < 2 ^ bits

/-- The words between white space. -/
def splitWhitespace (text : String) : List String :=
  ((text.toList.splitOnP isWhitespace).filter (· ≠ [])).map String.ofList

theorem contains_iff (text pattern : String) :
    contains text pattern = true ↔ pattern.toList <:+: text.toList := by
  rw [contains, find]
  induction text.toList with
  | nil =>
      rw [findChars, List.infix_nil]
      by_cases empty : pattern.toList = []
      · rw [if_pos empty]
        exact iff_of_true rfl empty
      · rw [if_neg empty]
        exact iff_of_false Bool.noConfusion empty
  | cons char rest induction =>
      rw [findChars, List.infix_cons_iff, ← induction, ← List.isPrefixOf_iff_prefix]
      by_cases here : pattern.toList.isPrefixOf (char :: rest) = true
      · rw [if_pos here]
        exact iff_of_true rfl (.inl here)
      · rw [if_neg here, Option.isSome_map, or_iff_right here]

/-- A text that is found in two texts with a character between them that it does not
hold is found in one of them. -/
theorem infix_split {pattern left right : List Char} {char : Char} (absent : char ∉ pattern) :
    pattern <:+: left ++ char :: right ↔ pattern <:+: left ∨ pattern <:+: right := by
  constructor
  · intro found
    rcases List.infix_append_iff_ne_nil.mp found with inLeft | behind | straddling
    · exact .inl inLeft
    · rcases List.infix_cons_iff.mp behind with starts | inRight
      · cases pattern with
        | nil => exact .inl (List.nil_infix)
        | cons first pattern =>
            rcases List.cons_prefix_cons.mp starts with ⟨rfl, _⟩
            exact absurd List.mem_cons_self absent
      · exact .inr inRight
    · rcases straddling with ⟨front, back, _, some, split, _, starts⟩
      cases back with
      | nil => exact absurd rfl some
      | cons first back =>
          rcases List.cons_prefix_cons.mp starts with ⟨rfl, _⟩
          rw [split] at absent
          exact absurd (List.mem_append_right front List.mem_cons_self) absent
  · intro found
    rcases found with inLeft | inRight
    · exact inLeft.trans (List.prefix_append _ _).isInfix
    · exact inRight.trans ((List.suffix_cons char right).isInfix.trans
        (List.suffix_append left _).isInfix)

/-- The letter cases of Unicode. A mapping may change the length of a text; on
ASCII it changes the letters. -/
structure CaseMapping where
  toUppercase : String → String
  toLowercase : String → String
  uppercase_ascii : ∀ text, (∀ char ∈ text.toList, char.toNat < 128) →
    toUppercase text = String.ofList (text.toList.map Char.toUpper)
  lowercase_ascii : ∀ text, (∀ char ∈ text.toList, char.toNat < 128) →
    toLowercase text = String.ofList (text.toList.map Char.toLower)

def asciiCases : CaseMapping where
  toUppercase text := String.ofList (text.toList.map Char.toUpper)
  toLowercase text := String.ofList (text.toList.map Char.toLower)
  uppercase_ascii _ _ := rfl
  lowercase_ascii _ _ := rfl

/-- What holds of every character of a text is tested on each of them. -/
theorem forall_mem_of_all {property : Char → Prop} [DecidablePred property] {chars : List Char}
    (all : chars.all (fun char => decide (property char)) = true) :
    ∀ char ∈ chars, property char :=
  fun char member => of_decide_eq_true (List.all_eq_true.mp all char member)

/-! ## Bytes in hexadecimal digits -/

/-- Two digits for each byte. -/
def hexDigits (bytes : List UInt8) : List Char :=
  bytes.flatMap fun byte => [Nat.digitChar (byte.toNat / 16), Nat.digitChar (byte.toNat % 16)]

/-- A byte as the format `02x` writes it. -/
def hexByte (byte : UInt8) : String :=
  String.ofList (hexDigits [byte])

theorem digitChar_inj : ∀ left < 16, ∀ right < 16,
    Nat.digitChar left = Nat.digitChar right → left = right := by
  decide

theorem mem_hexDigits {bytes : List UInt8} {char : Char} (member : char ∈ hexDigits bytes) :
    ∃ digit < 16, char = Nat.digitChar digit := by
  rcases List.mem_flatMap.mp member with ⟨byte, _, isDigit⟩
  have bound := byte.toNat_lt
  rcases List.mem_pair.mp isDigit with high | low
  · exact ⟨byte.toNat / 16, by omega, high⟩
  · exact ⟨byte.toNat % 16, by omega, low⟩

theorem length_hexDigits (bytes : List UInt8) : (hexDigits bytes).length = 2 * bytes.length := by
  induction bytes with
  | nil => rfl
  | cons byte bytes induction =>
      rw [hexDigits, List.flatMap_cons, List.length_append, ← hexDigits, induction,
        List.length_cons]
      exact (Nat.add_comm _ _).trans (Nat.mul_succ 2 _).symm

theorem hexDigits_injective : Function.Injective hexDigits := by
  intro left right same
  induction left generalizing right with
  | nil =>
      cases right with
      | nil => rfl
      | cons byte right => cases same
  | cons byte left induction =>
      cases right with
      | nil => cases same
      | cons other right =>
          rw [hexDigits, hexDigits, List.flatMap_cons, List.flatMap_cons, List.cons_append,
            List.cons_append, List.cons_append, List.cons_append] at same
          injection same with high rest
          injection rest with low rest
          have bound := byte.toNat_lt
          have otherBound := other.toNat_lt
          have highs := digitChar_inj _ (by omega) _ (by omega) high
          have lows := digitChar_inj _ (by omega) _ (by omega) low
          have bytes : byte.toNat = other.toNat := by omega
          rw [UInt8.toNat_inj.mp bytes, induction rest]

end FunDB.Text
