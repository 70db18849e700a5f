import FunDB.Foundation.Reading
import FunDB.Protocol.WireAgreement
import Mathlib.Data.List.TakeWhile

/-! # Payloads of a server that does not follow the protocol -/

namespace FunDB.Cli

open Framing Protocol Reading Utf8

/-! ## Row descriptions -/

/-- The bytes of a column name. -/
def IsName (bytes : List UInt8) : Prop :=
  0 ∉ bytes ∧ (fromUtf8 bytes).isSome

/-- The payload ends within a field behind which another is announced. -/
inductive CutShort : Nat → List UInt8 → Prop
  | name {count : Nat} {name : List UInt8} : IsName name → CutShort (count + 2) name
  | attributes {count : Nat} {name rest : List UInt8} : IsName name → rest.length < 18 →
      CutShort (count + 2) (name ++ 0 :: rest)
  | later {count : Nat} {name attributes rest : List UInt8} : IsName name →
      attributes.length = 18 → CutShort count rest →
      CutShort (count + 1) (name ++ 0 :: (attributes ++ rest))

def CutRowDescription (payload : List UInt8) : Prop :=
  2 ≤ payload.length ∧ CutShort (u16FromBeBytes (payload.take 2)) (payload.drop 2)

def nameOf (bytes : List UInt8) : List UInt8 :=
  bytes.takeWhile (· != 0)

theorem zero_notMem_nameOf (bytes : List UInt8) : 0 ∉ nameOf bytes := by
  intro member
  have different := List.mem_takeWhile_imp member
  simp at different

theorem nameOf_of_zero_notMem {bytes : List UInt8} (absent : 0 ∉ bytes) :
    nameOf bytes = bytes := by
  rw [nameOf, List.takeWhile_eq_self_iff]
  intro byte member
  rw [bne_iff_ne]
  intro zero
  subst zero
  exact absent member

theorem nameOf_append_zero {name : List UInt8} (absent : 0 ∉ name) (rest : List UInt8) :
    nameOf (name ++ 0 :: rest) = name := by
  have whole : nameOf name = name := nameOf_of_zero_notMem absent
  rw [nameOf, List.takeWhile_eq_self_iff] at whole
  rw [nameOf, List.takeWhile_append_of_pos whole]
  simp

theorem nameOf_cons_of_ne {byte : UInt8} (different : byte ≠ 0) (bytes : List UInt8) :
    nameOf (byte :: bytes) = byte :: nameOf bytes := by
  simp [nameOf, different]

theorem eq_nameOf_or (bytes : List UInt8) :
    bytes = nameOf bytes ∨ ∃ rest, bytes = nameOf bytes ++ 0 :: rest := by
  induction bytes with
  | nil => exact .inl rfl
  | cons byte bytes induction =>
      by_cases zero : byte = 0
      · subst zero
        exact .inr ⟨bytes, rfl⟩
      · rw [nameOf_cons_of_ne zero]
        rcases induction with same | ⟨rest, shape⟩
        · exact .inl (congrArg (byte :: ·) same)
        · exact .inr ⟨rest, congrArg (byte :: ·) shape⟩

theorem readColumns_outside_eq_panicked_iff {count : Nat} {payload : List UInt8} {pos : Nat}
    (outside : payload.length < pos) :
    readColumns count payload pos = .error .panicked ↔ count ≠ 0 := by
  cases count with
  | zero => simp [readColumns]
  | succ count =>
      rw [readColumns, readCstring, if_pos outside]
      exact iff_of_true rfl (Nat.succ_ne_zero count)

theorem readCstring_eq {payload : List UInt8} {pos : Nat} (inside : pos ≤ payload.length) :
    readCstring payload pos =
      match fromUtf8 (nameOf (payload.drop pos)) with
      | none => .error (.failed "Non-UTF8 string in message")
      | some text => .ok (text, pos + (nameOf (payload.drop pos)).length + 1) := by
  rw [readCstring, if_neg (Nat.not_lt.mpr inside)]
  rfl

/-- Behind a name that is text the next column is read, wherever that is. -/
theorem readColumns_succ_eq_panicked_iff {count : Nat} {payload : List UInt8} {pos : Nat}
    (inside : pos ≤ payload.length) :
    readColumns (count + 1) payload pos = .error .panicked ↔
      (fromUtf8 (nameOf (payload.drop pos))).isSome ∧
        readColumns count payload (pos + (nameOf (payload.drop pos)).length + 19) =
          .error .panicked := by
  rw [readColumns, readCstring_eq inside]
  cases fromUtf8 (nameOf (payload.drop pos)) with
  | none =>
      constructor
      · intro failed
        cases failed
      · intro given
        cases given.1
  | some text =>
      have place : pos + (nameOf (payload.drop pos)).length + 1 + (4 + 2 + 4 + 2 + 4 + 2) =
          pos + (nameOf (payload.drop pos)).length + 19 := by omega
      change (readColumns count payload (pos + (nameOf (payload.drop pos)).length + 1 +
        (4 + 2 + 4 + 2 + 4 + 2)) >>= fun names => .ok (text :: names)) = _ ↔ _
      rw [place, bind_eq_error_iff]
      simp

theorem cutShort_of_panicked {count : Nat} {payload : List UInt8} {pos : Nat}
    (inside : pos ≤ payload.length)
    (panicked : readColumns count payload pos = .error .panicked) :
    CutShort count (payload.drop pos) := by
  induction count generalizing pos with
  | zero => cases panicked
  | succ count induction =>
      have room : (payload.drop pos).length = payload.length - pos := List.length_drop
      rcases (readColumns_succ_eq_panicked_iff inside).mp panicked with ⟨text, later⟩
      have named : IsName (nameOf (payload.drop pos)) := ⟨zero_notMem_nameOf _, text⟩
      rcases eq_nameOf_or (payload.drop pos) with same | ⟨rest, shape⟩
      · have size := congrArg List.length same
        rw [readColumns_outside_eq_panicked_iff (by omega)] at later
        rcases Nat.exists_eq_succ_of_ne_zero later with ⟨others, rfl⟩
        rw [same]
        exact .name named
      · have size := congrArg List.length shape
        rw [List.length_append, List.length_cons] at size
        by_cases short : rest.length < 18
        · rw [readColumns_outside_eq_panicked_iff (by omega)] at later
          rcases Nat.exists_eq_succ_of_ne_zero later with ⟨others, rfl⟩
          rw [shape]
          exact .attributes named short
        · have following := induction (by omega) later
          rw [Nat.add_assoc, ← List.drop_drop] at following
          rw [shape, nameOf_append_zero named.1, ← List.drop_drop, List.drop_left,
            List.drop_succ_cons] at following
          rw [shape, ← List.take_append_drop 18 rest]
          exact .later named (List.length_take_of_le (by omega)) following

theorem panicked_of_cutShort {count : Nat} {payload bytes : List UInt8} {pos : Nat}
    (inside : pos ≤ payload.length) (cut : CutShort count bytes)
    (whole : payload.drop pos = bytes) : readColumns count payload pos = .error .panicked := by
  have room : (payload.drop pos).length = payload.length - pos := List.length_drop
  induction cut generalizing pos with
  | name named =>
      rw [whole] at room
      rw [readColumns_succ_eq_panicked_iff inside, whole, nameOf_of_zero_notMem named.1]
      refine ⟨named.2, ?_⟩
      rw [readColumns_outside_eq_panicked_iff (by omega)]
      exact Nat.succ_ne_zero _
  | @attributes _ name rest named short =>
      rw [whole, List.length_append, List.length_cons] at room
      rw [readColumns_succ_eq_panicked_iff inside, whole, nameOf_append_zero named.1]
      refine ⟨named.2, ?_⟩
      rw [readColumns_outside_eq_panicked_iff (by omega)]
      exact Nat.succ_ne_zero _
  | @later _ name attributes rest named long behind induction =>
      rw [whole, List.length_append, List.length_cons, List.length_append] at room
      rw [readColumns_succ_eq_panicked_iff inside, whole, nameOf_append_zero named.1]
      refine ⟨named.2, induction (by omega) ?_ List.length_drop⟩
      rw [Nat.add_assoc, ← List.drop_drop, whole, ← List.drop_drop, List.drop_left,
        List.drop_succ_cons, ← long, List.drop_left]

theorem readColumns_eq_panicked_iff {count : Nat} {payload : List UInt8} {pos : Nat}
    (inside : pos ≤ payload.length) :
    readColumns count payload pos = .error .panicked ↔ CutShort count (payload.drop pos) := by
  constructor
  · exact cutShort_of_panicked inside
  · intro cut
    exact panicked_of_cutShort inside cut rfl

theorem parseRowDescription_eq_panicked_iff (payload : List UInt8) :
    parseRowDescription payload = .error .panicked ↔ CutRowDescription payload := by
  unfold parseRowDescription CutRowDescription
  split_ifs with short
  · exact iff_of_false nofun fun cut => Nat.not_lt.mpr cut.1 short
  · rw [readColumns_eq_panicked_iff (Nat.not_lt.mp short)]
    exact (and_iff_right (Nat.not_lt.mp short)).symm

/-! ## Data rows -/

/-- A length that is negative and not that of NULL, in a row whose bytes begin at
a position, and that does not reach in front of the payload. -/
inductive NegativeLength : Nat → Nat → List UInt8 → Prop
  | here {count pos : Nat} {length : Int32} {rest : List UInt8} : length.toInt < -1 →
      -length.toInt ≤ pos + 4 → NegativeLength (count + 1) pos (putI32 length ++ rest)
  | null {count pos : Nat} {rest : List UInt8} : NegativeLength count (pos + 4) rest →
      NegativeLength (count + 1) pos (putI32 (-1) ++ rest)
  | value {count pos : Nat} {length : Int32} {value rest : List UInt8} :
      length.toInt = value.length → NegativeLength count (pos + 4 + value.length) rest →
      NegativeLength (count + 1) pos (putI32 length ++ (value ++ rest))

def NegativeDataRow (payload : List UInt8) : Prop :=
  2 ≤ payload.length ∧
    NegativeLength (u16FromBeBytes (payload.take 2)) 2 (payload.drop 2)

section Values

variable {payload : List UInt8} {pos : Nat}

theorem exists_putI32_append {bytes : List UInt8} (long : 4 ≤ bytes.length) :
    bytes = putI32 (i32FromBeBytes (bytes.take 4)) ++ bytes.drop 4 := by
  rw [putI32_i32FromBeBytes (List.length_take_of_le long), List.take_append_drop]

theorem readValue_of_short (short : (payload.drop pos).length < 4) :
    readValue payload pos = .error (.failed "DataRow payload truncated") := by
  rw [List.length_drop] at short
  rw [readValue, if_pos (by omega)]

variable {length : Int32} {rest : List UInt8}

theorem length_of_drop_eq (shape : payload.drop pos = putI32 length ++ rest) :
    payload.length = pos + 4 + rest.length := by
  have size := congrArg List.length shape
  rw [List.length_drop, List.length_append, length_putI32] at size
  omega

theorem drop_four_of_drop_eq (shape : payload.drop pos = putI32 length ++ rest) :
    payload.drop (pos + 4) = rest := by
  rw [← List.drop_drop, shape]
  exact List.drop_left' (length_putI32 length)

theorem readValue_eq (shape : payload.drop pos = putI32 length ++ rest) :
    readValue payload pos =
      if length = -1 then .ok ("NULL", pos + 4)
      else if payload.length < (pos + 4 + asUsize length.toInt) % 2 ^ 64 then
        .error (.failed "DataRow column data truncated")
      else if (pos + 4 + asUsize length.toInt) % 2 ^ 64 < pos + 4 then .error .panicked
      else
        .ok ((fromUtf8 (rest.take ((pos + 4 + asUsize length.toInt) % 2 ^ 64 - (pos + 4)))).getD
          "<binary>", (pos + 4 + asUsize length.toInt) % 2 ^ 64) := by
  have size := length_of_drop_eq shape
  have field : (payload.drop pos).take 4 = putI32 length := by
    rw [shape]
    exact List.take_left' (length_putI32 length)
  rw [readValue, if_neg (by omega)]
  simp only [field, i32FromBeBytes_putI32, drop_four_of_drop_eq shape]

theorem asUsize_of_nonneg (nonneg : 0 ≤ length.toInt) : asUsize length.toInt = length.toInt.toNat := by
  have small := length.toInt_lt
  rw [asUsize]
  omega

theorem asUsize_of_neg (negative : length.toInt < 0) :
    asUsize length.toInt = (2 ^ 64 + length.toInt).toNat := by
  have bound := length.le_toInt
  rw [asUsize]
  omega

theorem readValue_null (shape : payload.drop pos = putI32 (-1) ++ rest) :
    readValue payload pos = .ok ("NULL", pos + 4) := by
  rw [readValue_eq shape, if_pos rfl]

variable (allocated : payload.length < 2 ^ 63)

include allocated in
theorem readValue_of_nonneg (shape : payload.drop pos = putI32 length ++ rest)
    (nonneg : 0 ≤ length.toInt) :
    readValue payload pos =
      if rest.length < length.toInt.toNat then
        .error (.failed "DataRow column data truncated")
      else
        .ok ((fromUtf8 (rest.take length.toInt.toNat)).getD "<binary>",
          pos + 4 + length.toInt.toNat) := by
  have size := length_of_drop_eq shape
  have small := length.toInt_lt
  have notNull : length ≠ -1 := by
    intro null
    subst null
    revert nonneg
    decide
  have stop : (pos + 4 + asUsize length.toInt) % 2 ^ 64 = pos + 4 + length.toInt.toNat := by
    rw [asUsize_of_nonneg nonneg]
    omega
  rw [readValue_eq shape, if_neg notNull, stop, if_neg (by omega : ¬_ < pos + 4),
    Nat.add_sub_cancel_left]
  apply if_congr
  · omega
  · rfl
  · rfl

include allocated in
theorem readValue_of_neg (shape : payload.drop pos = putI32 length ++ rest)
    (negative : length.toInt < -1) :
    readValue payload pos =
      if -length.toInt ≤ pos + 4 then .error .panicked
      else .error (.failed "DataRow column data truncated") := by
  have size := length_of_drop_eq shape
  have bound := length.le_toInt
  have notNull : length ≠ -1 := by
    intro null
    subst null
    revert negative
    decide
  have unsigned := asUsize_of_neg (show length.toInt < 0 by omega)
  rw [readValue_eq shape, if_neg notNull]
  by_cases back : -length.toInt ≤ pos + 4
  · have stop : (pos + 4 + asUsize length.toInt) % 2 ^ 64 = pos + 4 - (-length.toInt).toNat := by
      omega
    rw [stop, if_pos back, if_neg (by omega), if_pos (by omega)]
  · have stop : (pos + 4 + asUsize length.toInt) % 2 ^ 64 =
        2 ^ 64 + pos + 4 - (-length.toInt).toNat := by
      omega
    rw [stop, if_neg back, if_pos (by omega)]

end Values

theorem readValues_succ_eq_panicked_iff {count : Nat} {payload : List UInt8} {pos : Nat} :
    readValues (count + 1) payload pos = .error .panicked ↔
      readValue payload pos = .error .panicked ∨
        ∃ value stop, readValue payload pos = .ok (value, stop) ∧
          readValues count payload stop = .error .panicked := by
  rw [readValues, bind_eq_error_iff]
  apply or_congr Iff.rfl
  constructor
  · intro given
    rcases given with ⟨⟨value, stop⟩, read, later⟩
    refine ⟨value, stop, read, ?_⟩
    rcases bind_eq_error_iff.mp later with later | ⟨_, _, later⟩
    · exact later
    · cases later
  · intro given
    rcases given with ⟨value, stop, read, later⟩
    exact ⟨(value, stop), read, bind_eq_error_iff.mpr (.inl later)⟩

section Values

variable {payload : List UInt8} (allocated : payload.length < 2 ^ 63)

include allocated

/-- Where a value is read, the panic comes from the values behind it. -/
theorem readValues_panicked_of_nonneg {count pos : Nat} {length : Int32} {rest : List UInt8}
    (shape : payload.drop pos = putI32 length ++ rest) (nonneg : 0 ≤ length.toInt)
    (panicked : readValues (count + 1) payload pos = .error .panicked) :
    length.toInt.toNat ≤ rest.length ∧
      readValues count payload (pos + 4 + length.toInt.toNat) = .error .panicked := by
  rw [readValues_succ_eq_panicked_iff, readValue_of_nonneg allocated shape nonneg] at panicked
  split_ifs at panicked with missing
  · rcases panicked with failed | ⟨_, _, read, _⟩
    · cases failed
    · cases read
  · rcases panicked with failed | ⟨value, stop, read, later⟩
    · cases failed
    · cases read
      exact ⟨Nat.not_lt.mp missing, later⟩

theorem negativeLength_of_panicked {count pos : Nat}
    (panicked : readValues count payload pos = .error .panicked) :
    NegativeLength count pos (payload.drop pos) := by
  induction count generalizing pos with
  | zero => cases panicked
  | succ count induction =>
      have given := readValues_succ_eq_panicked_iff.mp panicked
      by_cases short : (payload.drop pos).length < 4
      · rw [readValue_of_short short] at given
        rcases given with failed | ⟨_, _, read, _⟩
        · cases failed
        · cases read
      have shape := exists_putI32_append (Nat.not_lt.mp short)
      generalize i32FromBeBytes ((payload.drop pos).take 4) = length at shape
      generalize (payload.drop pos).drop 4 = rest at shape
      have behind : payload.drop (pos + 4) = rest := drop_four_of_drop_eq shape
      by_cases nonneg : 0 ≤ length.toInt
      · rcases readValues_panicked_of_nonneg allocated shape nonneg panicked with ⟨enough, later⟩
        have long : (rest.take length.toInt.toNat).length = length.toInt.toNat :=
          List.length_take_of_le enough
        have following := induction later
        rw [← List.drop_drop, behind] at following
        rw [shape, ← List.take_append_drop length.toInt.toNat rest]
        apply NegativeLength.value
        · rw [long, Int.toNat_of_nonneg nonneg]
        · rw [long]
          exact following
      by_cases null : length = -1
      · subst null
        rw [readValue_null shape] at given
        rcases given with failed | ⟨value, stop, read, later⟩
        · cases failed
        · cases read
          have following := induction later
          rw [behind] at following
          rw [shape]
          exact .null following
      · have notOne : length.toInt ≠ -1 := fun same => null (Int32.toInt_inj.mp same)
        have negative : length.toInt < -1 := by omega
        rw [readValue_of_neg allocated shape negative] at given
        split_ifs at given with back
        · rw [shape]
          exact .here negative back
        · rcases given with failed | ⟨_, _, read, _⟩
          · cases failed
          · cases read

theorem panicked_of_negativeLength {count pos : Nat} {bytes : List UInt8}
    (negative : NegativeLength count pos bytes) (shape : payload.drop pos = bytes) :
    readValues count payload pos = .error .panicked := by
  induction negative with
  | here negative back =>
      rw [readValues_succ_eq_panicked_iff, readValue_of_neg allocated shape negative, if_pos back]
      exact .inl rfl
  | null later induction =>
      rw [readValues_succ_eq_panicked_iff]
      exact .inr ⟨_, _, readValue_null shape, induction (drop_four_of_drop_eq shape)⟩
  | @value count pos length value rest long later induction =>
      have read := readValue_of_nonneg allocated shape (by omega)
      have same : length.toInt.toNat = value.length := by omega
      rw [same, if_neg (by simp)] at read
      rw [readValues_succ_eq_panicked_iff]
      refine .inr ⟨_, _, read, induction ?_⟩
      rw [← List.drop_drop, drop_four_of_drop_eq shape, List.drop_left]

theorem readValues_eq_panicked_iff {count pos : Nat} :
    readValues count payload pos = .error .panicked ↔
      NegativeLength count pos (payload.drop pos) := by
  constructor
  · exact negativeLength_of_panicked allocated
  · intro negative
    exact panicked_of_negativeLength allocated negative rfl

end Values

theorem parseDataRow_eq_panicked_iff {payload : List UInt8}
    (allocated : payload.length < 2 ^ 63) :
    parseDataRow payload = .error .panicked ↔ NegativeDataRow payload := by
  unfold parseDataRow NegativeDataRow
  split_ifs with short
  · exact iff_of_false nofun fun negative => Nat.not_lt.mpr negative.1 short
  · rw [readValues_eq_panicked_iff allocated]
    exact (and_iff_right (Nat.not_lt.mp short)).symm

/-! ## Field messages -/

/-- The walk to the end of a field. The position is checked before the payload is
indexed. -/
def skipToNul (payload : List UInt8) (pos : Nat) : Nat :=
  if inside : pos < payload.length then
    if payload[pos] ≠ 0 then skipToNul payload (pos + 1) else pos
  else pos
termination_by payload.length - pos

theorem le_skipToNul (payload : List UInt8) (pos : Nat) : pos ≤ skipToNul payload pos := by
  induction pos using skipToNul.induct payload with
  | case1 pos inside different induction =>
      rw [skipToNul, dif_pos inside, if_pos different]
      omega
  | case2 pos inside same => rw [skipToNul, dif_pos inside, if_neg same]
  | case3 pos outside => rw [skipToNul, dif_neg outside]

/-- A slice, which panics where it is out of range. -/
def slice (payload : List UInt8) (start stop : Nat) : Except ConnError (List UInt8) :=
  if start ≤ stop ∧ stop ≤ payload.length then .ok ((payload.drop start).take (stop - start))
  else .error .panicked

/-- The loop of `parse_field_messages` over positions. -/
def fieldPartsFrom (payload wanted : List UInt8) (pos : Nat) : Except ConnError (List String) :=
  if inside : pos < payload.length then
    let code := payload[pos]
    if code = 0 then .ok []
    else do
      let stop := skipToNul payload (pos + 1)
      let bytes ← slice payload (pos + 1) stop
      let parts ← fieldPartsFrom payload wanted (stop + 1)
      return if wanted.contains code then (fromUtf8 bytes).getD "" :: parts else parts
  else .ok []
termination_by payload.length - pos
decreasing_by
  have forward := le_skipToNul payload (pos + 1)
  omega

theorem skipToNul_eq {payload : List UInt8} {pos : Nat} (inside : pos ≤ payload.length) :
    skipToNul payload pos = pos + (nameOf (payload.drop pos)).length := by
  induction pos using skipToNul.induct payload with
  | case1 pos before different induction =>
      rw [skipToNul, dif_pos before, if_pos different, induction before,
        List.drop_eq_getElem_cons before, nameOf_cons_of_ne different, List.length_cons]
      omega
  | case2 pos before same =>
      have zero : payload[pos] = 0 := not_not.mp same
      rw [skipToNul, dif_pos before, if_neg same, List.drop_eq_getElem_cons before, zero]
      rfl
  | case3 pos outside =>
      have nothing : payload.drop pos = [] := List.drop_eq_nil_of_le (Nat.not_lt.mp outside)
      rw [skipToNul, dif_neg outside, nothing]
      rfl

theorem length_nameOf_le (bytes : List UInt8) : (nameOf bytes).length ≤ bytes.length :=
  (List.takeWhile_sublist _).length_le

theorem slice_skipToNul {payload : List UInt8} {pos : Nat} (inside : pos ≤ payload.length) :
    slice payload pos (skipToNul payload pos) = .ok (nameOf (payload.drop pos)) := by
  have short := length_nameOf_le (payload.drop pos)
  rw [List.length_drop] at short
  rw [skipToNul_eq inside, slice, if_pos ⟨by omega, by omega⟩, Nat.add_sub_cancel_left]
  have front : nameOf (payload.drop pos) <+: payload.drop pos := List.takeWhile_prefix _
  exact congrArg Except.ok (List.prefix_iff_eq_take.mp front).symm

/-- The slice of a field is never out of range. -/
theorem fieldPartsFrom_of_ne {payload wanted : List UInt8} {pos : Nat}
    (inside : pos < payload.length) (named : payload[pos] ≠ 0) :
    fieldPartsFrom payload wanted pos =
      (fieldPartsFrom payload wanted (skipToNul payload (pos + 1) + 1)).map fun parts =>
        if wanted.contains payload[pos] then
          (fromUtf8 (nameOf (payload.drop (pos + 1)))).getD "" :: parts
        else parts := by
  rw [fieldPartsFrom, dif_pos inside]
  simp only [named, if_false, slice_skipToNul (Nat.succ_le_of_lt inside)]
  rfl

/-- The walk stays within the payload and reads its fields. -/
theorem fieldPartsFrom_eq (payload wanted : List UInt8) {fuel pos : Nat}
    (enough : payload.length ≤ fuel + pos) :
    fieldPartsFrom payload wanted pos = .ok (fieldParts wanted fuel (payload.drop pos)) := by
  induction fuel generalizing pos with
  | zero =>
      rw [fieldPartsFrom, dif_neg (by omega)]
      rfl
  | succ fuel induction =>
      by_cases inside : pos < payload.length
      · rw [List.drop_eq_getElem_cons inside, fieldParts]
        by_cases closing : payload[pos] = 0
        · rw [fieldPartsFrom, dif_pos inside, if_pos closing]
          simp only [closing, if_true]
        · have behind : payload.drop (skipToNul payload (pos + 1) + 1) =
              (payload.drop (pos + 1)).drop ((nameOf (payload.drop (pos + 1))).length + 1) := by
            rw [skipToNul_eq inside, List.drop_drop, Nat.add_assoc (pos + 1)]
          have forward := le_skipToNul payload (pos + 1)
          rw [fieldPartsFrom_of_ne inside closing, induction (by omega), behind, if_neg closing]
          rfl
      · have nothing : payload.drop pos = [] := List.drop_eq_nil_of_le (Nat.not_lt.mp inside)
        rw [fieldPartsFrom, dif_neg inside, nothing]
        rfl

/-- `parse_field_messages` with its slices checked. -/
def parseFieldMessagesFrom (payload wanted : List UInt8) : Except ConnError (Option String) := do
  let parts ← fieldPartsFrom payload wanted 0
  return if parts.isEmpty then none else some (String.intercalate " — " parts)

theorem parseFieldMessagesFrom_eq (payload wanted : List UInt8) :
    parseFieldMessagesFrom payload wanted = .ok (parseFieldMessages payload wanted) := by
  rw [parseFieldMessagesFrom, fieldPartsFrom_eq payload wanted (Nat.le_refl payload.length)]
  rfl

/-! ## Message lengths -/

/-- The length of the payload that `read_message` allocates; none where it refuses
the message. -/
def payloadLen (lenBuf : List UInt8) : Option Nat :=
  let totalLen := asUsize (i32FromBeBytes lenBuf).toInt
  if totalLen < 4 then none else some (totalLen - 4)

def PayloadLenRight (lenBuf : List UInt8) : Prop :=
  ∀ len, payloadLen lenBuf = some len →
    (len : Int) = (i32FromBeBytes lenBuf).toInt - 4 ∧ len < 2 ^ 63

theorem payloadLenRight_iff (lenBuf : List UInt8) :
    PayloadLenRight lenBuf ↔ 0 ≤ (i32FromBeBytes lenBuf).toInt := by
  have lower := (i32FromBeBytes lenBuf).le_toInt
  have upper := (i32FromBeBytes lenBuf).toInt_lt
  constructor
  · intro right
    by_contra negative
    have value := asUsize_of_neg (Int.not_le.mp negative)
    have long : ¬asUsize (i32FromBeBytes lenBuf).toInt < 4 := by omega
    have given := right _ (if_neg long)
    omega
  · intro nonneg len computed
    have value := asUsize_of_nonneg nonneg
    unfold payloadLen at computed
    rw [Option.ite_none_left_eq_some, Option.some.injEq] at computed
    omega

theorem readMessage_eq (typeByte : UInt8) {lenBuf : List UInt8} (four : lenBuf.length = 4)
    (rest outgoing : List UInt8) :
    FunDbConn.readMessage ⟨typeByte :: (lenBuf ++ rest), outgoing⟩ =
      match payloadLen lenBuf with
      | none => .error (.failed
          s!"Invalid message length {asUsize (i32FromBeBytes lenBuf).toInt} for type '{Char.ofNat
            typeByte.toNat}'")
      | some len =>
          if 2 ^ 63 ≤ len then .error .panicked
          else do
            let (payload, conn) ← FunDbConn.readExact ⟨rest, outgoing⟩ len
              "Connection closed while reading message payload"
            return (Char.ofNat typeByte.toNat, payload, conn) := by
  have shape : typeByte :: (lenBuf ++ rest) = [typeByte] ++ (lenBuf ++ rest) := rfl
  simp only [FunDbConn.readMessage, shape, readExact_append (List.length_singleton),
    readExact_append four, payloadLen, bind, Except.bind, List.headD_cons]
  by_cases short : asUsize (i32FromBeBytes lenBuf).toInt < 4
  · simp only [short, if_true]
    rfl
  by_cases huge : 2 ^ 63 ≤ asUsize (i32FromBeBytes lenBuf).toInt - 4
  · simp only [short, huge, if_true, if_false]
    rfl
  · simp only [short, huge, if_false]

/-- Allocating the payload panics where the length is negative. -/
theorem readMessage_eq_panicked_iff (typeByte : UInt8) {lenBuf : List UInt8}
    (four : lenBuf.length = 4) (rest outgoing : List UInt8) :
    FunDbConn.readMessage ⟨typeByte :: (lenBuf ++ rest), outgoing⟩ = .error .panicked ↔
      (i32FromBeBytes lenBuf).toInt < 0 := by
  have lower := (i32FromBeBytes lenBuf).le_toInt
  have upper := (i32FromBeBytes lenBuf).toInt_lt
  rw [readMessage_eq typeByte four]
  constructor
  · intro panicked
    by_contra nonneg
    have right := (payloadLenRight_iff lenBuf).mpr (Int.not_lt.mp nonneg)
    cases computed : payloadLen lenBuf with
    | none =>
        rw [computed] at panicked
        cases panicked
    | some len =>
        have small : ¬2 ^ 63 ≤ len := Nat.not_le.mpr (right len computed).2
        rw [computed] at panicked
        simp only [small, if_false] at panicked
        rcases bind_eq_error_iff.mp panicked with unread | ⟨_, _, unread⟩
        · unfold FunDbConn.readExact at unread
          split at unread
          · cases unread
          · cases unread
        · cases unread
  · intro negative
    have value := asUsize_of_neg negative
    have long : ¬asUsize (i32FromBeBytes lenBuf).toInt < 4 := by omega
    have huge : 2 ^ 63 ≤ asUsize (i32FromBeBytes lenBuf).toInt - 4 := by omega
    simp only [payloadLen, long, huge, if_true, if_false]

/-! ## Any bytes -/

/-- The payload parsers return, and a length field is refused or is that of the
payload. -/
structure Survives (payload lenBuf : List UInt8) : Prop where
  rowDescription : parseRowDescription payload ≠ .error .panicked
  dataRow : parseDataRow payload ≠ .error .panicked
  fieldMessages : ∀ wanted,
    parseFieldMessagesFrom payload wanted = .ok (parseFieldMessages payload wanted)
  payloadLen : PayloadLenRight lenBuf

/-- What makes the command line panic: a row description that ends within a field
before the last, a data row with a length that is negative and not that of NULL, and
a negative message length. -/
theorem survives_iff {payload : List UInt8} (allocated : payload.length < 2 ^ 63)
    (lenBuf : List UInt8) :
    Survives payload lenBuf ↔
      ¬CutRowDescription payload ∧ ¬NegativeDataRow payload ∧
        0 ≤ (i32FromBeBytes lenBuf).toInt := by
  rw [← parseRowDescription_eq_panicked_iff, ← parseDataRow_eq_panicked_iff allocated,
    ← payloadLenRight_iff]
  constructor
  · intro survives
    exact ⟨survives.rowDescription, survives.dataRow, survives.payloadLen⟩
  · intro given
    rcases given with ⟨rowDescription, dataRow, right⟩
    exact ⟨rowDescription, dataRow, parseFieldMessagesFrom_eq payload, right⟩

theorem survives_iff_one_null :
    Survives [0, 1, 255, 255, 255, 255] [0, 0, 0, 10] ↔
      ¬CutRowDescription [0, 1, 255, 255, 255, 255] ∧
        ¬NegativeDataRow [0, 1, 255, 255, 255, 255] ∧
          0 ≤ (i32FromBeBytes [0, 0, 0, 10]).toInt :=
  survives_iff (by decide) _

/-- Two columns are announced, and the payload ends behind the count. A column whose
length is -2. A message whose length is -1. -/
theorem hostile_bytes_panic :
    parseRowDescription [0, 2] = .error .panicked ∧
      parseDataRow [0, 1, 255, 255, 255, 254] = .error .panicked ∧
        payloadLen [255, 255, 255, 255] = some (2 ^ 64 - 5) := by
  decide +kernel

end FunDB.Cli
