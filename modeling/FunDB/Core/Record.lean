import FunDB.Foundation.Text
import Mathlib.Data.Prod.Lex
import Mathlib.Data.List.Basic
import Mathlib.Order.Lex
import Mathlib.Data.String.Basic
import Mathlib.Data.Rat.Defs
import Mathlib.Algebra.Group.Int.Defs

/-! # Records and their keys -/

namespace FunDB

/-- Unix nanoseconds. -/
abbrev Timestamp := Int

/-- The bytes of a UUID. -/
abbrev Uuid := Vector UInt8 16

instance Uuid.lawfulBEq : LawfulBEq Uuid := inferInstance

/-- A UUID whose first 15 bytes are zero. -/
def Uuid.ofByte (byte : UInt8) : Uuid := .ofFn fun place => if place = 15 then byte else 0

/-- How UUIDs are written: 36 hexadecimal digits and hyphens, and no two UUIDs alike. -/
structure UuidDisplay where
  toText : Uuid → String
  length_toText : ∀ id, (toText id).toList.length = 36
  mem_toText : ∀ id, ∀ char ∈ (toText id).toList,
    char = '-' ∨ ∃ digit < 16, char = Nat.digitChar digit
  injective : Function.Injective toText

theorem UuidDisplay.notMem_toText (ids : UuidDisplay) {id : Uuid} {char : Char}
    (other : char ≠ '-' ∧ ∀ digit < 16, char ≠ Nat.digitChar digit) :
    char ∉ (ids.toText id).toList := by
  intro member
  rcases ids.mem_toText id char member with same | ⟨digit, bound, same⟩
  · exact other.1 same
  · exact other.2 digit bound same

section Hyphenated

open Text

/-- Five groups of digits with hyphens between them. -/
def Uuid.hyphenated (id : Uuid) : String :=
  let digits := hexDigits id.toList
  String.ofList (digits.take 8 ++ '-' :: ((digits.drop 8).take 4 ++ '-' ::
    ((digits.drop 12).take 4 ++ '-' :: ((digits.drop 16).take 4 ++ '-' :: digits.drop 20))))

theorem Uuid.filter_hyphenated (id : Uuid) :
    id.hyphenated.toList.filter (· ≠ '-') = hexDigits id.toList := by
  have noHyphen : ∀ digit < 16, decide (Nat.digitChar digit ≠ '-') = true := by
    decide
  have kept : ∀ piece : List Char, (∀ char ∈ piece, char ∈ hexDigits id.toList) →
      piece.filter (· ≠ '-') = piece := by
    intro piece inside
    rw [List.filter_eq_self]
    intro char member
    rcases mem_hexDigits (inside char member) with ⟨digit, bound, rfl⟩
    exact noHyphen digit bound
  have hyphen : ∀ rest : List Char,
      ('-' :: rest).filter (· ≠ '-') = rest.filter (· ≠ '-') := by
    intro rest
    exact List.filter_cons_of_neg (by decide)
  have groups : ∀ first count, ((hexDigits id.toList).drop first).take count ++
      (hexDigits id.toList).drop (first + count) = (hexDigits id.toList).drop first := by
    intro first count
    rw [← List.drop_drop, List.take_append_drop]
  rw [hyphenated, String.toList_ofList]
  simp only [List.filter_append, hyphen]
  rw [kept _ fun _ => List.mem_of_mem_take,
    kept _ fun _ member => List.mem_of_mem_drop (List.mem_of_mem_take member),
    kept _ fun _ member => List.mem_of_mem_drop (List.mem_of_mem_take member),
    kept _ fun _ member => List.mem_of_mem_drop (List.mem_of_mem_take member),
    kept _ fun _ => List.mem_of_mem_drop, groups 16 4, groups 12 4, groups 8 4,
    List.take_append_drop]

def UuidDisplay.hyphenated : UuidDisplay where
  toText := Uuid.hyphenated
  length_toText id := by
    have digits : (hexDigits id.toList).length = 32 := by
      rw [length_hexDigits, Vector.length_toList]
    rw [Uuid.hyphenated, String.toList_ofList]
    simp only [List.length_append, List.length_cons, List.length_take, List.length_drop, digits]
    decide
  mem_toText id char member := by
    have digit : char ∈ hexDigits id.toList → ∃ digit < 16, char = Nat.digitChar digit :=
      mem_hexDigits
    rw [Uuid.hyphenated, String.toList_ofList] at member
    simp only [List.mem_append, List.mem_cons] at member
    rcases member with first | rfl | second | rfl | third | rfl | fourth | rfl | fifth
    · exact .inr (digit (List.mem_of_mem_take first))
    · exact .inl rfl
    · exact .inr (digit (List.mem_of_mem_drop (List.mem_of_mem_take second)))
    · exact .inl rfl
    · exact .inr (digit (List.mem_of_mem_drop (List.mem_of_mem_take third)))
    · exact .inl rfl
    · exact .inr (digit (List.mem_of_mem_drop (List.mem_of_mem_take fourth)))
    · exact .inl rfl
    · exact .inr (digit (List.mem_of_mem_drop fifth))
  injective left right same := by
    have equal : hexDigits left.toList = hexDigits right.toList := by
      rw [← Uuid.filter_hyphenated, ← Uuid.filter_hyphenated, same]
    exact Vector.toList_inj.mp (hexDigits_injective equal)

end Hyphenated

/-- Collection namespace and record UUID. -/
structure RecordKey where
  collection : String
  id : Uuid
deriving DecidableEq, Repr

namespace RecordKey

/-- The fields in the order in which keys are compared. UTF-8 strings compare
by bytes as they do by characters. -/
def rank (key : RecordKey) : Lex (String × List Nat) :=
  toLex (key.collection, key.id.toList.map UInt8.toNat)

theorem rank_injective : Function.Injective rank := by
  intro left right equal
  rcases left with ⟨collection, id⟩
  rcases right with ⟨otherCollection, otherId⟩
  have fields := toLex.injective equal
  rw [Prod.mk.injEq] at fields
  rcases fields with ⟨sameCollection, sameBytes⟩
  have sameId : id.toList = otherId.toList :=
    List.map_injective_iff.mpr (fun _ _ => UInt8.toNat_inj.mp) sameBytes
  rw [show collection = otherCollection from sameCollection,
    Vector.toList_inj.mp sameId]

instance : LinearOrder RecordKey := LinearOrder.lift' rank rank_injective

end RecordKey

/-- The unit of storage. Confidences and vectors are rational; the graph, series
and provenance fields, which nothing here reads, are left out. -/
structure FunRecord where
  id : Uuid
  collection : String
  tenant : Nat
  sysFrom : Timestamp
  sysTo : Timestamp
  validFrom : Timestamp
  validTo : Timestamp
  data : List UInt8
  vectors : List (String × List ℚ)
  confidence : ℚ
deriving DecidableEq, Repr

/-- `i64::MAX`, the end of a current version. -/
def maxTimestamp : Timestamp := 2 ^ 63 - 1

structure FunRecordBuilder where
  collection : String
  tenant : Nat
  data : List UInt8
  vectors : List (String × List ℚ)
  confidence : ℚ
  validFrom : Timestamp
  validTo : Timestamp

namespace FunRecordBuilder

def new (collection : String) : FunRecordBuilder where
  collection := collection
  tenant := 0
  data := []
  vectors := []
  confidence := 1
  validFrom := 0
  validTo := maxTimestamp

def withConfidence (builder : FunRecordBuilder) (confidence : ℚ) : FunRecordBuilder :=
  { builder with confidence := confidence }

def withData (builder : FunRecordBuilder) (payload : List UInt8) : FunRecordBuilder :=
  { builder with data := payload }

def build (builder : FunRecordBuilder) (id : Uuid) (now : Timestamp) : FunRecord where
  id := id
  collection := builder.collection
  tenant := builder.tenant
  sysFrom := now
  sysTo := maxTimestamp
  validFrom := builder.validFrom
  validTo := builder.validTo
  data := builder.data
  vectors := builder.vectors
  confidence := builder.confidence

end FunRecordBuilder

end FunDB
