import Mathlib.Data.List.Sort
import Mathlib.Order.Basic

/-! # Positions in a sorted list

The value at a position of the ascending arrangement of a list, told by how
many elements reach it and how many pass it. -/

namespace FunDB.OrderStatistic

universe u

variable {α : Type u} [LinearOrder α]

/-- The list in ascending order. -/
def ascending (values : List α) : List α :=
  values.insertionSort (· ≤ ·)

theorem ascending_perm (values : List α) : (ascending values).Perm values :=
  List.perm_insertionSort (· ≤ ·) values

@[simp] theorem length_ascending (values : List α) :
    (ascending values).length = values.length :=
  (ascending_perm values).length_eq

theorem ascending_pairwise (values : List α) :
    (ascending values).Pairwise (· ≤ ·) :=
  List.pairwise_insertionSort (· ≤ ·) values

/-- How many elements are at least `bound`. -/
def reaching (values : List α) (bound : α) : Nat :=
  values.countP fun value => decide (bound ≤ value)

/-- How many elements are above `bound`. -/
def passing (values : List α) (bound : α) : Nat :=
  values.countP fun value => decide (bound < value)

theorem reaching_le_passing (values : List α) {lower upper : α}
    (below : lower < upper) : reaching values upper ≤ passing values lower := by
  apply List.countP_mono_left
  intro value _ reaches
  exact decide_eq_true (below.trans_le (of_decide_eq_true reaches))

/-- An element that occurs is reached more often than it is passed. -/
theorem passing_lt_reaching {values : List α} {bound : α}
    (member : bound ∈ values) : passing values bound < reaching values bound := by
  induction values with
  | nil => cases member
  | cons head tail induction =>
      have tailBound : passing tail bound ≤ reaching tail bound := by
        apply List.countP_mono_left
        intro value _ passes
        exact decide_eq_true (of_decide_eq_true passes).le
      simp only [passing, reaching, List.countP_cons] at induction tailBound ⊢
      rcases List.mem_cons.mp member with equal | inTail
      · subst equal
        simp
        omega
      · have smaller := induction inTail
        by_cases above : bound < head
        · simp [above, above.le]
          omega
        · simp [above]
          omega

section Position

variable {values : List α} {position : Nat} {bound : α}

private theorem sorted_drop_reaching {sorted : List α}
    (ordered : sorted.Pairwise (· ≤ ·)) (here : sorted[position]? = some bound) :
    sorted.length - position ≤ reaching sorted bound := by
  rcases List.getElem?_eq_some_iff.mp here with ⟨within, atPosition⟩
  have suffixReaches : reaching (sorted.drop position) bound =
      (sorted.drop position).length := by
    apply List.countP_eq_length.mpr
    intro value member
    rcases List.mem_iff_getElem.mp member with ⟨offset, offsetWithin, rfl⟩
    rw [List.getElem_drop]
    rw [List.length_drop] at offsetWithin
    subst bound
    apply decide_eq_true
    rcases Nat.eq_zero_or_pos offset with zero | positive
    · subst zero
      exact le_rfl
    · exact List.pairwise_iff_getElem.mp ordered position (position + offset)
        within (by omega) (by omega)
  have sublist : reaching (sorted.drop position) bound ≤ reaching sorted bound :=
    (List.drop_sublist position sorted).countP_le
  rw [suffixReaches, List.length_drop] at sublist
  exact sublist

private theorem sorted_passing_drop {sorted : List α}
    (ordered : sorted.Pairwise (· ≤ ·)) (here : sorted[position]? = some bound) :
    passing sorted bound < sorted.length - position := by
  rcases List.getElem?_eq_some_iff.mp here with ⟨within, atPosition⟩
  have noneEarlier : passing (sorted.take (position + 1)) bound = 0 := by
    apply List.countP_eq_zero.mpr
    intro value member
    rcases List.mem_iff_getElem.mp member with ⟨index, indexWithin, rfl⟩
    rw [List.getElem_take]
    rw [List.length_take] at indexWithin
    subst bound
    simp only [decide_eq_true_eq, not_lt]
    rcases Nat.lt_or_ge index position with earlier | atOrAfter
    · exact List.pairwise_iff_getElem.mp ordered index position
        (by omega) within earlier
    · have same : index = position := by omega
      subst same
      exact le_rfl
  have split : passing sorted bound =
      passing (sorted.take (position + 1)) bound +
        passing (sorted.drop (position + 1)) bound := by
    rw [passing, passing, passing, ← List.countP_append, List.take_append_drop]
  have suffixBound : passing (sorted.drop (position + 1)) bound ≤
      (sorted.drop (position + 1)).length := List.countP_le_length
  rw [List.length_drop] at suffixBound
  omega

/-- The value at a position of the ascending list is the one that the elements
from that position on reach and the elements after it alone may pass. -/
theorem ascending_getElem?_iff (within : position < values.length) (bound : α) :
    (ascending values)[position]? = some bound ↔
      values.length - position ≤ reaching values bound ∧
        passing values bound < values.length - position := by
  have counts (value : α) : reaching (ascending values) value =
      reaching values value ∧
        passing (ascending values) value = passing values value :=
    ⟨(ascending_perm values).countP_eq _, (ascending_perm values).countP_eq _⟩
  have located {value : α} (here : (ascending values)[position]? = some value) :
      values.length - position ≤ reaching values value ∧
        passing values value < values.length - position := by
    have reached := sorted_drop_reaching (ascending_pairwise values) here
    have passed := sorted_passing_drop (ascending_pairwise values) here
    rw [(counts value).1, length_ascending] at reached
    rw [(counts value).2, length_ascending] at passed
    exact ⟨reached, passed⟩
  constructor
  · exact located
  · intro both
    rcases both with ⟨reached, passed⟩
    have inRange : position < (ascending values).length := by
      rwa [length_ascending]
    have here := List.getElem?_eq_getElem inRange
    have found := located here
    -- Two values with the same counts cannot lie on different sides.
    rcases lt_trichotomy bound (ascending values)[position] with
      below | equal | above
    · have crossing := reaching_le_passing values below
      omega
    · rw [here, equal]
    · have crossing := reaching_le_passing values above
      omega

/-- In a strictly ascending list an element stands behind the elements below it. -/
theorem getElem?_iff_of_strict {sorted : List α} (ordered : sorted.Pairwise (· < ·)) :
    sorted[position]? = some bound ↔
      bound ∈ sorted ∧ (sorted.countP fun value => decide (value < bound)) = position := by
  induction sorted generalizing position with
  | nil => simp
  | cons head tail induction =>
      rw [List.pairwise_cons] at ordered
      have noneBelow : (tail.countP fun value => decide (value < head)) = 0 :=
        List.countP_eq_zero.mpr fun value member => by
          simpa using (ordered.1 value member).le
      cases position with
      | zero =>
          rw [List.getElem?_cons_zero, List.countP_cons, List.mem_cons]
          constructor
          · intro same
            cases same
            simp [noneBelow]
          · intro both
            rcases both with ⟨rfl | inTail, count⟩
            · rfl
            · simp [ordered.1 bound inTail] at count
      | succ position =>
          rw [List.getElem?_cons_succ, induction ordered.2, List.countP_cons, List.mem_cons]
          constructor
          · intro both
            rcases both with ⟨inTail, count⟩
            simp [ordered.1 bound inTail, inTail, count]
          · intro both
            rcases both with ⟨rfl | inTail, count⟩
            · simp [noneBelow] at count
            · simpa [ordered.1 bound inTail, inTail] using count

end Position

end FunDB.OrderStatistic
