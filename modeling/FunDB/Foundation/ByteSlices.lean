import Mathlib.Data.List.Basic
import Mathlib.Algebra.GroupWithZero.Nat

/-! # Byte slices of text

Text as its characters, cut at positions that are counted in UTF-8 bytes. A cut
inside a character, or past the end, is no cut. -/

namespace FunDB.ByteSlices

def byteLength (text : List Char) : Nat :=
  (text.map Char.utf8Size).sum

def dropBytes : List Char → Nat → Option (List Char)
  | text, 0 => some text
  | [], _ + 1 => none
  | char :: text, count + 1 =>
      if count + 1 < char.utf8Size then none
      else dropBytes text (count + 1 - char.utf8Size)

def takeBytes : List Char → Nat → Option (List Char)
  | _, 0 => some []
  | [], _ + 1 => none
  | char :: text, count + 1 =>
      if count + 1 < char.utf8Size then none
      else (takeBytes text (count + 1 - char.utf8Size)).map (char :: ·)

/-- The text between two byte positions. -/
def slice (text : List Char) (start finish : Nat) : Option (List Char) :=
  if finish < start then none
  else (dropBytes text start).bind (takeBytes · (finish - start))

@[simp] theorem byteLength_nil : byteLength [] = 0 := rfl

@[simp] theorem byteLength_cons (char : Char) (text : List Char) :
    byteLength (char :: text) = char.utf8Size + byteLength text := rfl

@[simp] theorem byteLength_append (left right : List Char) :
    byteLength (left ++ right) = byteLength left + byteLength right := by
  simp [byteLength]

theorem exists_utf8Size (char : Char) : ∃ size, char.utf8Size = size + 1 :=
  Nat.exists_eq_succ_of_ne_zero (Nat.pos_iff_ne_zero.mp (Char.utf8Size_pos char))

theorem dropBytes_append (left right : List Char) :
    dropBytes (left ++ right) (byteLength left) = some right := by
  induction left with
  | nil => simp [dropBytes]
  | cons char left induction =>
      rcases exists_utf8Size char with ⟨size, sized⟩
      have rest : size + byteLength left + 1 - (size + 1) = byteLength left := by omega
      rw [byteLength_cons, sized, Nat.add_right_comm, List.cons_append, dropBytes, sized,
        if_neg (by omega), rest, induction]

theorem length_dropBytes {text rest : List Char} {count : Nat}
    (dropped : dropBytes text count = some rest) : rest.length ≤ text.length := by
  fun_induction dropBytes text count with
  | case1 text =>
      cases dropped
      exact Nat.le_refl _
  | case2 => cases dropped
  | case3 => cases dropped
  | case4 char text count fits induction => exact Nat.le_succ_of_le (induction dropped)

theorem takeBytes_append (left right : List Char) :
    takeBytes (left ++ right) (byteLength left) = some left := by
  induction left with
  | nil => simp [takeBytes]
  | cons char left induction =>
      rcases exists_utf8Size char with ⟨size, sized⟩
      have rest : size + byteLength left + 1 - (size + 1) = byteLength left := by omega
      rw [byteLength_cons, sized, Nat.add_right_comm, List.cons_append, takeBytes, sized,
        if_neg (by omega), rest, induction, Option.map_some]

theorem takeBytes_eq_some_iff {text read : List Char} {count : Nat} :
    takeBytes text count = some read ↔
      ∃ left, text = read ++ left ∧ byteLength read = count := by
  constructor
  · intro taken
    fun_induction takeBytes text count generalizing read with
    | case1 text =>
        cases taken
        exact ⟨text, rfl, rfl⟩
    | case2 => cases taken
    | case3 => cases taken
    | case4 char text count fits induction =>
        rcases Option.map_eq_some_iff.mp taken with ⟨inner, found, same⟩
        subst same
        rcases induction found with ⟨left, split, length⟩
        exact ⟨left, by rw [split, List.cons_append], by rw [byteLength_cons, length]; omega⟩
  · intro split
    rcases split with ⟨left, split, length⟩
    rw [split, ← length, takeBytes_append]

/-- A text cut at a byte position, with its parts before and after it. -/
structure CutAt (text : List Char) (pos : Nat) (seen rest : List Char) : Prop where
  text_eq : text = seen ++ rest
  pos_eq : pos = byteLength seen

namespace CutAt

variable {text seen rest : List Char} {pos : Nat}

theorem start (text : List Char) : CutAt text 0 [] text := ⟨rfl, rfl⟩

theorem dropBytes (cut : CutAt text pos seen rest) :
    ByteSlices.dropBytes text pos = some rest := by
  rw [cut.text_eq, cut.pos_eq, dropBytes_append]

theorem byteLength_eq (cut : CutAt text pos seen rest) :
    byteLength text = pos + byteLength rest := by
  rw [cut.text_eq, cut.pos_eq, byteLength_append]

theorem append {read : List Char} (cut : CutAt text pos seen (read ++ rest)) :
    CutAt text (pos + byteLength read) (seen ++ read) rest where
  text_eq := by rw [cut.text_eq, List.append_assoc]
  pos_eq := by rw [cut.pos_eq, byteLength_append]

theorem cons {char : Char} (cut : CutAt text pos seen (char :: rest)) :
    CutAt text (pos + char.utf8Size) (seen ++ [char]) rest := by
  have single : CutAt text pos seen ([char] ++ rest) := cut
  simpa using single.append

theorem takeBytes (cut : CutAt text pos seen rest) (count : Nat) :
    slice text pos (pos + count) = ByteSlices.takeBytes rest count := by
  rw [slice, if_neg (by omega), cut.dropBytes, Option.bind_some, Nat.add_sub_cancel_left]

theorem slice_eq {finish : Nat} {read : List Char} (cut : CutAt text pos seen (read ++ rest))
    (next : CutAt text finish (seen ++ read) rest) : slice text pos finish = some read := by
  have finish_eq : finish = pos + byteLength read := by
    rw [next.pos_eq, byteLength_append, cut.pos_eq]
  rw [finish_eq, cut.takeBytes, takeBytes_append]

end CutAt

end FunDB.ByteSlices
