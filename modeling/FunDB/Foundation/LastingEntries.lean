import Mathlib.Data.List.Basic
import Mathlib.Data.List.Infix

/-! # Entries that outlast a history

A history of entries with positions. An entry lasts as long as everything after
it has a larger position: a smaller or equal one cuts it off. -/

namespace FunDB.LastingEntries

universe u

variable {Entry : Type u} (index : Entry → Nat)

/-- Everything appended after the entry lies beyond it. -/
def Lasts (entry : Entry) (later : List Entry) : Prop :=
  ∀ next ∈ later, index entry < index next

instance (entry : Entry) (later : List Entry) : Decidable (Lasts index entry later) :=
  inferInstanceAs (Decidable (∀ next ∈ later, _ < _))

/-- The entries that nothing after them cut off, in the order of the history. -/
def lasting : List Entry → List Entry
  | [] => []
  | entry :: later =>
      if Lasts index entry later then entry :: lasting later else lasting later

theorem lasts_append (entry : Entry) (later more : List Entry) :
    Lasts index entry (later ++ more) ↔
      Lasts index entry later ∧ Lasts index entry more := by
  simp only [Lasts, List.forall_mem_append]

theorem lasts_singleton (entry next : Entry) :
    Lasts index entry [next] ↔ index entry < index next := by
  simp only [Lasts, List.mem_singleton, forall_eq]

variable {index}

theorem lasting_sublist (history : List Entry) :
    (lasting index history).Sublist history := by
  induction history with
  | nil => exact .slnil
  | cons entry later induction =>
      rw [lasting]
      split
      · exact induction.cons_cons entry
      · exact induction.cons entry

/-- Exactly the entries with a place in the history from which they last. -/
theorem mem_lasting {history : List Entry} {entry : Entry} :
    entry ∈ lasting index history ↔
      ∃ earlier later, history = earlier ++ entry :: later ∧ Lasts index entry later := by
  induction history with
  | nil => simp [lasting]
  | cons first rest induction =>
      have found : entry ∈ lasting index (first :: rest) ↔
          entry = first ∧ Lasts index first rest ∨ entry ∈ lasting index rest := by
        rw [lasting]
        split
        next lasts => simp [lasts]
        next cut => simp [cut]
      rw [found, induction]
      constructor
      · intro here
        rcases here with ⟨rfl, lasts⟩ | ⟨earlier, later, rfl, lasts⟩
        · exact ⟨[], rest, rfl, lasts⟩
        · exact ⟨first :: earlier, later, rfl, lasts⟩
      · intro placed
        rcases placed with ⟨earlier, later, split, lasts⟩
        cases earlier with
        | nil =>
            cases split
            exact .inl ⟨rfl, lasts⟩
        | cons _ earlier =>
            cases split
            exact .inr ⟨earlier, later, rfl, lasts⟩

theorem lasting_increasing (history : List Entry) :
    ((lasting index history).map index).Pairwise (· < ·) := by
  rw [List.pairwise_map]
  induction history with
  | nil => exact .nil
  | cons entry later induction =>
      rw [lasting]
      split
      next lasts =>
        refine List.pairwise_cons.mpr ⟨?_, induction⟩
        intro next member
        exact lasts next ((lasting_sublist later).subset member)
      next => exact induction

/-- One more entry cuts off what is not below it. -/
theorem lasting_append_singleton (history : List Entry) (entry : Entry) :
    lasting index (history ++ [entry]) =
      (lasting index history).filter (fun before => index before < index entry) ++
        [entry] := by
  induction history with
  | nil => simp [lasting, Lasts]
  | cons first rest induction =>
      have extended : Lasts index first (rest ++ [entry]) ↔
          Lasts index first rest ∧ index first < index entry := by
        rw [lasts_append, lasts_singleton]
      rw [List.cons_append, lasting, lasting]
      by_cases lasts : Lasts index first rest
      · by_cases below : index first < index entry
        · rw [if_pos (extended.mpr ⟨lasts, below⟩), if_pos lasts, induction,
            List.filter_cons_of_pos (by simpa using below), List.cons_append]
        · rw [if_neg (fun both => below (extended.mp both).2), if_pos lasts, induction,
            List.filter_cons_of_neg (by simpa using below)]
      · rw [if_neg (fun both => lasts (extended.mp both).1), if_neg lasts, induction]

theorem getLast?_lasting (history : List Entry) :
    (lasting index history).getLast? = history.getLast? := by
  cases history using List.reverseRecOn with
  | nil => rfl
  | append_singleton before entry =>
      rw [lasting_append_singleton, List.getLast?_concat, List.getLast?_concat]

/-- In an increasing list, cutting at the first position from `bound` on keeps
what lies below it. -/
theorem take_findIdx_eq_filter (bound : Nat) {entries : List Entry}
    (increasing : (entries.map index).Pairwise (· < ·)) :
    entries.take (entries.findIdx fun entry => index entry ≥ bound) =
      entries.filter fun entry => index entry < bound := by
  rw [List.pairwise_map] at increasing
  induction entries with
  | nil => rfl
  | cons entry rest induction =>
      rcases List.pairwise_cons.mp increasing with ⟨beyond, increasing⟩
      rw [List.findIdx_cons]
      by_cases below : index entry < bound
      · have absent : decide (index entry ≥ bound) = false := by
          simpa using below
        rw [absent, cond_false, List.take_succ_cons, induction increasing,
          List.filter_cons_of_pos (by simpa using below)]
      · have here : decide (index entry ≥ bound) = true := by
          simpa using below
        have none : rest.filter (fun next => index next < bound) = [] := by
          apply List.filter_eq_nil_iff.mpr
          intro next member
          have := beyond next member
          simp only [decide_eq_true_eq]
          omega
        rw [here, cond_true, List.take_zero,
          List.filter_cons_of_neg (by simpa using below), none]

end FunDB.LastingEntries
