import Mathlib.Data.List.Basic
import Mathlib.Data.List.Nodup
import Mathlib.Data.List.Range

/-! # Replicated logs

A log is a list of entries that carry their own position and a term. The
library is about logs without gaps and the Log Matching relation between two of
them. -/

namespace FunDB.IndexedLog

universe u

variable {Entry : Type u} (index term : Entry → Nat)

/-- The entries are numbered from one without a gap. -/
def Contiguous (log : List Entry) : Prop :=
  log.map index = List.range' 1 log.length

/-- Entries of one index and term have equal logs up to them. -/
def Matching (left right : List Entry) : Prop :=
  ∀ first ∈ left, ∀ second ∈ right, index first = index second →
    term first = term second →
      left.take (index first) = right.take (index first)

instance (log : List Entry) : Decidable (Contiguous index log) :=
  inferInstanceAs (Decidable (_ = _))

instance [DecidableEq Entry] (left right : List Entry) :
    Decidable (Matching index term left right) :=
  inferInstanceAs (Decidable (∀ first ∈ left, ∀ second ∈ right, _ → _ → _))

section Contiguous

variable {index} {log : List Entry}

theorem Contiguous.index_getElem (contiguous : Contiguous index log)
    {position : Nat} (within : position < log.length) :
    index log[position] = position + 1 := by
  have mapped : (log.map index)[position]? =
      (List.range' 1 log.length)[position]? := by
    rw [contiguous]
  rw [List.getElem?_map, List.getElem?_eq_getElem within,
    List.getElem?_range' within] at mapped
  simp only [Option.map_some, Option.some.injEq] at mapped
  omega

theorem Contiguous.index_of_getElem? (contiguous : Contiguous index log)
    {position : Nat} {entry : Entry} (here : log[position]? = some entry) :
    index entry = position + 1 := by
  rcases List.getElem?_eq_some_iff.mp here with ⟨within, rfl⟩
  exact contiguous.index_getElem within

theorem Contiguous.getElem?_of_mem (contiguous : Contiguous index log)
    {entry : Entry} (member : entry ∈ log) :
    0 < index entry ∧ log[index entry - 1]? = some entry := by
  rcases List.mem_iff_getElem?.mp member with ⟨position, here⟩
  have number := contiguous.index_of_getElem? here
  exact ⟨by omega, by rw [number]; exact here⟩

theorem Contiguous.index_le_length (contiguous : Contiguous index log)
    {entry : Entry} (member : entry ∈ log) : index entry ≤ log.length := by
  rcases contiguous.getElem?_of_mem member with ⟨positive, here⟩
  have within := (List.getElem?_eq_some_iff.mp here).1
  omega

theorem Contiguous.nodup (contiguous : Contiguous index log) :
    (log.map index).Nodup := by
  rw [contiguous]
  exact List.nodup_range'

theorem Contiguous.take (contiguous : Contiguous index log) (count : Nat) :
    Contiguous index (log.take count) := by
  rw [Contiguous, List.map_take, contiguous, List.length_take]
  rcases Nat.le_total count log.length with inside | beyond
  · have split : List.range' 1 log.length =
        List.range' 1 count ++ List.range' (1 + count) (log.length - count) := by
      rw [List.range'_append_1, Nat.add_sub_cancel' inside]
    rw [split, List.take_left' List.length_range', Nat.min_eq_left inside]
  · rw [List.take_of_length_le (by simpa using beyond), Nat.min_eq_right beyond]

theorem Contiguous.concat (contiguous : Contiguous index log) {entry : Entry}
    (next : index entry = log.length + 1) : Contiguous index (log ++ [entry]) := by
  rw [Contiguous, List.map_append, contiguous, List.length_append,
    List.length_singleton, List.range'_concat]
  simp [next, Nat.add_comm]

/-- The last index of a gapless log is its length. -/
theorem Contiguous.last_index (contiguous : Contiguous index log) :
    ((log.getLast?).map index).getD 0 = log.length := by
  cases log using List.reverseRecOn with
  | nil => rfl
  | append_singleton rest entry =>
      have here : (rest ++ [entry])[rest.length]? = some entry := by simp
      simp [contiguous.index_of_getElem? here]

/-- Membership in a prefix is a bound on the index. -/
theorem Contiguous.mem_take_iff (contiguous : Contiguous index log)
    {entry : Entry} {count : Nat} :
    entry ∈ log.take count ↔ entry ∈ log ∧ index entry ≤ count := by
  constructor
  · intro member
    have inLog := List.mem_of_mem_take member
    refine ⟨inLog, ?_⟩
    have bound := (contiguous.take count).index_le_length member
    exact bound.trans (List.length_take_le count log)
  · intro both
    rcases both with ⟨member, bound⟩
    rcases contiguous.getElem?_of_mem member with ⟨positive, here⟩
    apply List.mem_of_getElem? (i := index entry - 1)
    rw [List.getElem?_take, if_pos (by omega)]
    exact here

theorem Contiguous.find?_index (contiguous : Contiguous index log) (number : Nat) :
    log.find? (fun entry => index entry = number) =
      if number = 0 then none else log[number - 1]? := by
  cases found : log.find? (fun entry => index entry = number) with
  | none =>
      have absent := List.find?_eq_none.mp found
      split
      · rfl
      · rename_i positive
        cases here : log[number - 1]? with
        | none => rfl
        | some entry =>
            exfalso
            apply absent entry (List.mem_of_getElem? here)
            have := contiguous.index_of_getElem? here
            simp
            omega
  | some entry =>
      have member := List.mem_of_find?_eq_some found
      have same : index entry = number := by
        simpa using List.find?_some found
      rcases contiguous.getElem?_of_mem member with ⟨positive, here⟩
      rw [if_neg (by omega), ← same]
      exact here.symm

theorem Contiguous.filter_lt (contiguous : Contiguous index log) (number : Nat) :
    log.filter (fun entry => index entry < number) = log.take (number - 1) := by
  induction log using List.reverseRecOn with
  | nil => simp
  | append_singleton rest entry induction =>
      have here : (rest ++ [entry])[rest.length]? = some entry := by simp
      have last := contiguous.index_of_getElem? here
      have earlier : Contiguous index rest := by
        have taken := contiguous.take rest.length
        rwa [List.take_left] at taken
      rw [List.filter_append, induction earlier, List.take_append]
      congr 1
      by_cases kept : index entry < number
      · simp only [kept, decide_true, List.filter_cons_of_pos, List.filter_nil]
        rw [List.take_of_length_le (by simp; omega)]
      · simp only [kept, decide_false, Bool.false_eq_true, not_false_eq_true,
          List.filter_cons_of_neg, List.filter_nil]
        rw [show number - 1 - rest.length = 0 by omega, List.take_zero]

end Contiguous

section Matching

variable {index term} {left right : List Entry}

theorem Contiguous.matching_take (contiguous : Contiguous index right)
    (count : Nat) : Matching index term (right.take count) right := by
  intro first inPrefix second inLog sameIndex _
  rcases contiguous.mem_take_iff.mp inPrefix with ⟨_, bound⟩
  rw [List.take_take, Nat.min_eq_left bound]

/-- At a position below both lengths where the terms agree, matching logs are
equal up to and including it. -/
theorem Matching.take_eq (matching : Matching index term left right)
    (leftContiguous : Contiguous index left)
    (rightContiguous : Contiguous index right) {position : Nat} {first second : Entry}
    (inLeft : left[position]? = some first)
    (inRight : right[position]? = some second)
    (sameTerm : term first = term second) :
    left.take (position + 1) = right.take (position + 1) := by
  have firstIndex := leftContiguous.index_of_getElem? inLeft
  have secondIndex := rightContiguous.index_of_getElem? inRight
  have agree := matching first (List.mem_of_getElem? inLeft) second
    (List.mem_of_getElem? inRight) (firstIndex.trans secondIndex.symm) sameTerm
  rwa [firstIndex] at agree

/-- An entry in both logs makes them equal up to it. -/
theorem Matching.take_eq_of_mem (matching : Matching index term left right)
    {entry : Entry} (inLeft : entry ∈ left) (inRight : entry ∈ right) :
    left.take (index entry) = right.take (index entry) :=
  matching entry inLeft entry inRight rfl rfl

end Matching

/-! ## The logs that terms were created in

An entry is created once, at the end of the log of its term. A log traces back to these
when it continues, below each of its entries, as the log of the entry's term does. -/

section Traces

/-- Below each entry the log is the one that the entry was created in. -/
def Traces (created : Nat → List Entry) (log : List Entry) : Prop :=
  ∀ entry ∈ log, log.take (index entry) = (created (term entry)).take (index entry)

variable {index term} {created : Nat → List Entry} {log left right : List Entry}

theorem Traces.matching (leftTraces : Traces index term created left)
    (rightTraces : Traces index term created right) : Matching index term left right := by
  intro first inLeft second inRight sameIndex sameTerm
  calc left.take (index first)
    _ = (created (term first)).take (index first) := leftTraces first inLeft
    _ = (created (term second)).take (index second) := by rw [sameIndex, sameTerm]
    _ = right.take (index second) := (rightTraces second inRight).symm
    _ = right.take (index first) := by rw [sameIndex]

theorem Traces.take (traces : Traces index term created log) (contiguous : Contiguous index log)
    (count : Nat) : Traces index term created (log.take count) := by
  intro entry member
  rcases contiguous.mem_take_iff.mp member with ⟨inLog, bound⟩
  rw [List.take_take, Nat.min_eq_left bound]
  exact traces entry inLog

theorem Traces.mono (traces : Traces index term created log) (contiguous : Contiguous index log)
    {later : Nat → List Entry} (grows : ∀ number, created number <+: later number) :
    Traces index term later log := by
  intro entry member
  have reaches : index entry ≤ (created (term entry)).length := by
    have length := congrArg List.length (traces entry member)
    rw [List.length_take_of_le (contiguous.index_le_length member), List.length_take] at length
    omega
  rcases grows (term entry) with ⟨rest, extended⟩
  rw [traces entry member, ← extended, List.take_append_of_le_length reaches]

/-- An entry is created at the end of the log of its term. -/
theorem Traces.concat (traces : Traces index term created log)
    (contiguous : Contiguous index log) {entry : Entry}
    (here : created (term entry) = log ++ [entry]) :
    Traces index term created (log ++ [entry]) := by
  intro other member
  rcases List.mem_append.mp member with old | new
  · rw [List.take_append_of_le_length (contiguous.index_le_length old)]
    exact traces other old
  · rw [List.mem_singleton.mp new, here]

end Traces

end FunDB.IndexedLog
