import Mathlib.Data.List.Flatten

/-! # UTF-8

Texts as bytes. A decoder takes the bytes one character at a time; bytes that
begin no character are taken in the longest pieces that could have begun one. -/

namespace FunDB.Utf8

def asBytes (text : String) : List UInt8 :=
  text.toUTF8.data.toList

def decodeChar (bytes : List UInt8) : Option Char :=
  bytes.toByteArray.utf8DecodeChar? 0

def isContinuation (byte : UInt8) : Bool :=
  0x80 ≤ byte && byte ≤ 0xBF

/-- May these two bytes begin a character of three or four bytes? -/
def longStart (first second : UInt8) : Bool :=
  if first == 0xE0 then 0xA0 ≤ second && second ≤ 0xBF
  else if first == 0xED then 0x80 ≤ second && second ≤ 0x9F
  else if first == 0xF0 then 0x90 ≤ second && second ≤ 0xBF
  else if first == 0xF4 then 0x80 ≤ second && second ≤ 0x8F
  else 0xE1 ≤ first && first ≤ 0xF3 && isContinuation second

/-- How many bytes one error takes where no character begins. -/
def errorLength : List UInt8 → Nat
  | first :: second :: rest =>
      if longStart first second then
        if 0xF0 ≤ first && (rest.head?.any isContinuation) then 3 else 2
      else 1
  | _ => 1

/-- The characters of these bytes, with `none` for each error. -/
def decodeMany : Nat → List UInt8 → List (Option Char)
  | 0, _ => []
  | _ + 1, [] => []
  | fuel + 1, byte :: rest =>
      match decodeChar (byte :: rest) with
      | some char => some char :: decodeMany fuel (rest.drop (char.utf8Size - 1))
      | none => none :: decodeMany fuel (rest.drop (errorLength (byte :: rest) - 1))

def decode (bytes : List UInt8) : List (Option Char) :=
  decodeMany bytes.length bytes

def fromUtf8 (bytes : List UInt8) : Option String :=
  ((decode bytes).mapM id).map String.ofList

def fromUtf8Lossy (bytes : List UInt8) : String :=
  String.ofList ((decode bytes).map fun char => char.getD '\uFFFD')

/-! ## Round trips -/

theorem asBytes_eq_flatMap (text : String) :
    asBytes text = text.toList.flatMap String.utf8EncodeChar := by
  have whole : text.toUTF8 = (text.toList.flatMap String.utf8EncodeChar).toByteArray :=
    String.utf8Encode_toList.symm
  rw [asBytes, whole]
  simp

@[simp] theorem asBytes_ofList (chars : List Char) :
    asBytes (String.ofList chars) = chars.flatMap String.utf8EncodeChar := by
  rw [asBytes_eq_flatMap, String.toList_ofList]

theorem decodeChar_encode_append (char : Char) (rest : List UInt8) :
    decodeChar (String.utf8EncodeChar char ++ rest) = some char := by
  rw [decodeChar, List.toByteArray_append]
  exact ByteArray.utf8DecodeChar?_utf8EncodeChar_append

theorem decodeMany_encode (chars : List Char) {fuel : Nat} (enough : chars.length ≤ fuel) :
    decodeMany fuel (chars.flatMap String.utf8EncodeChar) = chars.map some := by
  induction chars generalizing fuel with
  | nil => cases fuel <;> rfl
  | cons char chars induction =>
      rcases fuel with _ | fuel
      · simp at enough
      · have size := String.length_utf8EncodeChar char
        have decoded := decodeChar_encode_append char (chars.flatMap String.utf8EncodeChar)
        cases code : String.utf8EncodeChar char with
        | nil =>
            have positive := char.utf8Size_pos
            rw [code, List.length_nil] at size
            omega
        | cons byte bytes =>
            have length : bytes.length = char.utf8Size - 1 := by
              rw [code, List.length_cons] at size
              omega
            rw [code, List.cons_append] at decoded
            rw [List.flatMap_cons, code, List.cons_append, decodeMany, decoded]
            simp only [List.map_cons]
            rw [← length, List.drop_left, induction (by simpa using enough)]

theorem length_le_length_encode (chars : List Char) :
    chars.length ≤ (chars.flatMap String.utf8EncodeChar).length := by
  induction chars with
  | nil => exact Nat.le_refl _
  | cons char chars induction =>
      have positive := char.utf8Size_pos
      rw [List.flatMap_cons, List.length_append, String.length_utf8EncodeChar, List.length_cons]
      omega

theorem decode_asBytes (text : String) : decode (asBytes text) = text.toList.map some := by
  rw [asBytes_eq_flatMap]
  exact decodeMany_encode _ (length_le_length_encode _)

@[simp] theorem fromUtf8_asBytes (text : String) : fromUtf8 (asBytes text) = some text := by
  have every (chars : List Char) : (chars.map some).mapM id = some chars := by
    induction chars with
    | nil => rfl
    | cons char chars induction => simp [List.mapM_cons, induction]
  rw [fromUtf8, decode_asBytes, every, Option.map_some, String.ofList_toList]

@[simp] theorem fromUtf8Lossy_asBytes (text : String) : fromUtf8Lossy (asBytes text) = text := by
  rw [fromUtf8Lossy, decode_asBytes, List.map_map]
  have same : (fun char : Option Char => char.getD '\uFFFD') ∘ some = id := by
    funext char
    rfl
  rw [same, List.map_id, String.ofList_toList]

theorem utf8Size_le_of_decodeChar {bytes : List UInt8} {char : Char}
    (decoded : decodeChar bytes = some char) : char.utf8Size ≤ bytes.length := by
  have size := ByteArray.le_size_of_utf8DecodeChar?_eq_some decoded
  rwa [Nat.zero_add, List.size_toByteArray] at size

theorem length_encode_le_of_decodeMany {fuel : Nat} {bytes : List UInt8} {chars : List Char}
    (decoded : decodeMany fuel bytes = chars.map some) :
    (chars.flatMap String.utf8EncodeChar).length ≤ bytes.length := by
  induction fuel generalizing bytes chars with
  | zero =>
      rw [decodeMany, eq_comm, List.map_eq_nil_iff] at decoded
      simp [decoded]
  | succ fuel induction =>
      cases bytes with
      | nil =>
          rw [decodeMany, eq_comm, List.map_eq_nil_iff] at decoded
          simp [decoded]
      | cons byte rest =>
          cases chars with
          | nil =>
              rw [decodeMany] at decoded
              split at decoded <;> cases decoded
          | cons char chars =>
              rw [decodeMany] at decoded
              split at decoded
              next found here =>
                rw [List.map_cons, List.cons.injEq] at decoded
                rcases decoded with ⟨same, later⟩
                cases same
                have size := utf8Size_le_of_decodeChar here
                have tail := induction later
                rw [List.length_drop] at tail
                rw [List.flatMap_cons, List.length_append, String.length_utf8EncodeChar]
                rw [List.length_cons] at size ⊢
                omega
              next => cases decoded

/-- A text that bytes stand for has no more bytes than these. -/
theorem length_asBytes_le {bytes : List UInt8} {text : String}
    (decoded : fromUtf8 bytes = some text) : (asBytes text).length ≤ bytes.length := by
  rcases Option.map_eq_some_iff.mp decoded with ⟨chars, all, rfl⟩
  rw [asBytes_ofList]
  have every (found : List (Option Char)) (chars : List Char)
      (all : found.mapM id = some chars) : found = chars.map some := by
    induction found generalizing chars with
    | nil =>
        cases all
        rfl
    | cons first found induction =>
        rw [List.mapM_cons] at all
        cases first with
        | none => cases all
        | some char =>
            rcases Option.bind_eq_some_iff.mp all with ⟨first, here, all⟩
            have here : some char = some first := here
            cases here
            rcases Option.bind_eq_some_iff.mp all with ⟨rest, later, made⟩
            cases made
            rw [induction rest later]
            rfl
  exact length_encode_le_of_decodeMany (every _ _ all)

/-! ## The zero byte -/

theorem ofNat_ne_zero {value : Nat} (positive : 0 < value) (small : value < 256) :
    0 ≠ UInt8.ofNat value := by
  intro zero
  have same := congrArg UInt8.toNat zero
  rw [UInt8.toNat_ofNat', Nat.mod_eq_of_lt small] at same
  exact absurd same (by simpa using Nat.ne_of_lt positive)

theorem eq_nul_of_zero_mem_encode {char : Char} (member : 0 ∈ String.utf8EncodeChar char) :
    char = '\x00' := by
  have bound : char.val.toNat < 0x110000 := by
    have valid := char.valid
    simp only [UInt32.isValidChar, Nat.isValidChar] at valid
    omega
  -- only a character of one byte has a byte without its high bit
  have above : ∀ value, 0x80 ≤ value → value < 256 → 0 ≠ UInt8.ofNat value := by
    intro value large small
    exact ofNat_ne_zero (by omega) small
  simp only [String.utf8EncodeChar] at member
  split at member
  · rcases Nat.eq_zero_or_pos char.val.toNat with zero | positive
    · apply Char.ext
      exact UInt32.toNat_inj.mp zero
    · exact absurd (List.mem_singleton.mp member) (ofNat_ne_zero positive (by omega))
  · split at member
    · have high := above (char.val.toNat / 64 % 0x20 + 0xc0) (by omega) (by omega)
      have low := above (char.val.toNat % 0x40 + 0x80) (by omega) (by omega)
      simp only [List.mem_cons, List.not_mem_nil, high, low, or_false] at member
    · have low := above (char.val.toNat % 0x40 + 0x80) (by omega) (by omega)
      have middle := above (char.val.toNat / 64 % 0x40 + 0x80) (by omega) (by omega)
      split at member
      · have high := above (char.val.toNat / 4096 % 0x10 + 0xe0) (by omega) (by omega)
        simp only [List.mem_cons, List.not_mem_nil, high, middle, low, or_false] at member
      · have upper := above (char.val.toNat / 4096 % 0x40 + 0x80) (by omega) (by omega)
        have high := above (char.val.toNat / 262144 % 0x08 + 0xf0) (by omega) (by omega)
        simp only [List.mem_cons, List.not_mem_nil, high, upper, middle, low, or_false] at member

/-- A text without the character NUL has no zero byte. -/
theorem zero_notMem_asBytes {text : String} (noNul : '\x00' ∉ text.toList) :
    0 ∉ asBytes text := by
  rw [asBytes_eq_flatMap, List.mem_flatMap]
  intro member
  rcases member with ⟨char, present, zero⟩
  rw [eq_nul_of_zero_mem_encode zero] at present
  exact noNul present

theorem takeWhile_asBytes {text : String} (noNul : '\x00' ∉ text.toList) (rest : List UInt8) :
    (asBytes text ++ 0 :: rest).takeWhile (· != 0) = asBytes text := by
  have absent := zero_notMem_asBytes noNul
  rw [List.takeWhile_append_of_pos]
  · simp
  · intro byte member
    rw [bne_iff_ne]
    intro zero
    subst zero
    exact absent member

theorem findIdx?_zero {bytes : List UInt8} (absent : 0 ∉ bytes) (rest : List UInt8) :
    (bytes ++ 0 :: rest).findIdx? (· == 0) = some bytes.length := by
  have none : bytes.findIdx? (· == 0) = none := by
    rw [List.findIdx?_eq_none_iff]
    intro byte member
    rw [beq_eq_false_iff_ne]
    intro zero
    subst zero
    exact absent member
  rw [List.findIdx?_append, none]
  simp [List.findIdx?_cons]

theorem findIdx?_asBytes {text : String} (noNul : '\x00' ∉ text.toList) (rest : List UInt8) :
    (asBytes text ++ 0 :: rest).findIdx? (· == 0) = some (asBytes text).length :=
  findIdx?_zero (zero_notMem_asBytes noNul) rest

end FunDB.Utf8
