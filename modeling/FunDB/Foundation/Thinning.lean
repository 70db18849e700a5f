import FunDB.Foundation.StableSort
import Mathlib.Data.List.Nodup

/-! # Thinning a list by its pairs

A pass over all pairs of a list, the earlier item first. Of a pair whose items
conflict, one is dropped; a pair with a dropped item is passed over. The relation
between items need not be transitive. -/

namespace FunDB.Thinning

universe u v

variable {Item : Type u} {Other : Type v}

/-- The pairs of a list, in the order of two nested loops. -/
def orderedPairs : List Item → List (Item × Item)
  | [] => []
  | item :: rest => rest.map (fun other => (item, other)) ++ orderedPairs rest

theorem mem_orderedPairs {items : List Item} {first second : Item} :
    (first, second) ∈ orderedPairs items ↔ [first, second].Sublist items := by
  induction items with
  | nil => simp [orderedPairs]
  | cons item rest induction =>
      rw [orderedPairs, List.mem_append, induction]
      constructor
      · intro found
        rcases found with here | later
        · rcases List.mem_map.mp here with ⟨other, member, same⟩
          cases same
          exact (List.singleton_sublist.mpr member).cons_cons first
        · exact later.cons item
      · intro sublist
        cases sublist with
        | cons _ later => exact .inr later
        | cons_cons _ later =>
            have member := List.singleton_sublist.mp later
            exact .inl (List.mem_map.mpr ⟨second, member, rfl⟩)

theorem mem_of_mem_orderedPairs {items : List Item} {pair : Item × Item}
    (visited : pair ∈ orderedPairs items) : pair.1 ∈ items ∧ pair.2 ∈ items := by
  have sublist := mem_orderedPairs.mp visited
  exact ⟨sublist.subset List.mem_cons_self,
    sublist.subset (List.mem_cons_of_mem _ List.mem_cons_self)⟩

theorem orderedPairs_map (place : Item → Other) (items : List Item) :
    orderedPairs (items.map place) = (orderedPairs items).map (Prod.map place place) := by
  induction items with
  | nil => rfl
  | cons item rest induction =>
      rw [List.map_cons, orderedPairs, orderedPairs, induction, List.map_append,
        List.map_map, List.map_map]
      rfl

section Pass

variable [DecidableEq Item] [DecidableEq Other]

/-- One pair. What has been dropped so far comes with the latest first. -/
def visit (conflict : Item → Item → Bool) (loser : Item → Item → Item)
    (dropped : List Item) (pair : Item × Item) : List Item :=
  if pair.1 ∈ dropped ∨ pair.2 ∈ dropped then dropped
  else if conflict pair.1 pair.2 then loser pair.1 pair.2 :: dropped
  else dropped

/-- What the pass drops. -/
def thin (conflict : Item → Item → Bool) (loser : Item → Item → Item)
    (items : List Item) : List Item :=
  (orderedPairs items).foldl (visit conflict loser) []

variable {conflict : Item → Item → Bool} {loser : Item → Item → Item}

theorem subset_visit (dropped : List Item) (pair : Item × Item) :
    dropped ⊆ visit conflict loser dropped pair := by
  unfold visit
  split
  · exact List.Subset.refl dropped
  · split
    · exact List.subset_cons_self _ dropped
    · exact List.Subset.refl dropped

theorem subset_foldl_visit (pairs : List (Item × Item)) (dropped : List Item) :
    dropped ⊆ pairs.foldl (visit conflict loser) dropped := by
  induction pairs generalizing dropped with
  | nil => exact List.Subset.refl dropped
  | cons pair pairs induction =>
      exact List.Subset.trans (subset_visit dropped pair) (induction _)

theorem visit_settles (chosen : ∀ first second, loser first second = first ∨
    loser first second = second) {dropped : List Item} {first second : Item}
    (conflicting : conflict first second = true) :
    first ∈ visit conflict loser dropped (first, second) ∨
      second ∈ visit conflict loser dropped (first, second) := by
  unfold visit
  split
  next settled => exact settled
  next =>
    rcases chosen first second with same | same
    · exact .inl (List.mem_cons.mpr (.inl same.symm))
    · exact .inr (List.mem_cons.mpr (.inl same.symm))

theorem foldl_visit_settles (chosen : ∀ first second, loser first second = first ∨
    loser first second = second) {pairs : List (Item × Item)} {dropped : List Item}
    {first second : Item} (visited : (first, second) ∈ pairs)
    (conflicting : conflict first second = true) :
    first ∈ pairs.foldl (visit conflict loser) dropped ∨
      second ∈ pairs.foldl (visit conflict loser) dropped := by
  induction pairs generalizing dropped with
  | nil => cases visited
  | cons pair pairs induction =>
      rw [List.foldl_cons]
      rcases List.mem_cons.mp visited with rfl | later
      · rcases visit_settles chosen conflicting with settled | settled
        · exact .inl (subset_foldl_visit pairs _ settled)
        · exact .inr (subset_foldl_visit pairs _ settled)
      · exact induction later

/-- Every dropped item was the loser of a conflicting pair. -/
theorem exists_pair_of_mem_foldl {pairs : List (Item × Item)} {dropped : List Item}
    {item : Item} (member : item ∈ pairs.foldl (visit conflict loser) dropped) :
    item ∈ dropped ∨ ∃ first second, (first, second) ∈ pairs ∧
      conflict first second = true ∧ item = loser first second := by
  induction pairs generalizing dropped with
  | nil => exact .inl member
  | cons pair pairs induction =>
      rw [List.foldl_cons] at member
      rcases induction member with now | ⟨first, second, visited, found⟩
      · unfold visit at now
        split at now
        · exact .inl now
        · split at now
          next conflicting =>
            rcases List.mem_cons.mp now with rfl | before
            · exact .inr ⟨pair.1, pair.2, List.mem_cons_self, conflicting, rfl⟩
            · exact .inl before
          next => exact .inl now
      · exact .inr ⟨first, second, List.mem_cons_of_mem pair visited, found⟩

theorem nodup_foldl_visit (chosen : ∀ first second, loser first second = first ∨
    loser first second = second) {pairs : List (Item × Item)} {dropped : List Item}
    (nodup : dropped.Nodup) : (pairs.foldl (visit conflict loser) dropped).Nodup := by
  induction pairs generalizing dropped with
  | nil => exact nodup
  | cons pair pairs induction =>
      apply induction
      unfold visit
      split
      next => exact nodup
      next alive =>
        rw [not_or] at alive
        split
        next =>
          refine List.nodup_cons.mpr ⟨?_, nodup⟩
          rcases chosen pair.1 pair.2 with same | same
          · rw [same]
            exact alive.1
          · rw [same]
            exact alive.2
        next => exact nodup

theorem thin_complete (chosen : ∀ first second, loser first second = first ∨
    loser first second = second) (symmetric : ∀ first second,
    conflict first second = conflict second first) {items : List Item} {first second : Item}
    (isFirst : first ∈ items) (isSecond : second ∈ items) (different : first ≠ second)
    (firstKept : first ∉ thin conflict loser items)
    (secondKept : second ∉ thin conflict loser items) : conflict first second = false := by
  by_contra conflicting
  rw [Bool.not_eq_false] at conflicting
  rcases StableSort.pair_sublist_or different isFirst isSecond with order | order
  · rcases foldl_visit_settles chosen (mem_orderedPairs.mpr order) conflicting with
      dropped | dropped
    · exact firstKept dropped
    · exact secondKept dropped
  · rw [symmetric] at conflicting
    rcases foldl_visit_settles chosen (mem_orderedPairs.mpr order) conflicting with
      dropped | dropped
    · exact secondKept dropped
    · exact firstKept dropped

theorem exists_pair_of_mem_thin {items : List Item} {item : Item}
    (member : item ∈ thin conflict loser items) :
    ∃ first second, [first, second].Sublist items ∧ conflict first second = true ∧
      item = loser first second := by
  rcases exists_pair_of_mem_foldl member with impossible | ⟨first, second, visited, found⟩
  · cases impossible
  · exact ⟨first, second, mem_orderedPairs.mp visited, found⟩

theorem nodup_thin (chosen : ∀ first second, loser first second = first ∨
    loser first second = second) (items : List Item) : (thin conflict loser items).Nodup :=
  nodup_foldl_visit chosen List.nodup_nil

theorem mem_of_mem_thin (chosen : ∀ first second, loser first second = first ∨
    loser first second = second) {items : List Item} {item : Item}
    (member : item ∈ thin conflict loser items) : item ∈ items := by
  rcases exists_pair_of_mem_thin member with ⟨first, second, pair, -, same⟩
  have inside := mem_of_mem_orderedPairs (mem_orderedPairs.mpr pair)
  rcases chosen first second with isFirst | isSecond
  · rw [same, isFirst]
    exact inside.1
  · rw [same, isSecond]
    exact inside.2

theorem thin_eq_nil {items : List Item} (peaceful : ∀ first second,
    [first, second].Sublist items → conflict first second = false) :
    thin conflict loser items = [] := by
  apply List.eq_nil_iff_forall_not_mem.mpr
  intro item member
  rcases exists_pair_of_mem_thin member with ⟨first, second, pair, conflicting, -⟩
  rw [peaceful first second pair] at conflicting
  cases conflicting

theorem visit_subset (chosen : ∀ first second, loser first second = first ∨
    loser first second = second) {items dropped : List Item} {pair : Item × Item}
    (isFirst : pair.1 ∈ items) (isSecond : pair.2 ∈ items) (subset : dropped ⊆ items) :
    visit conflict loser dropped pair ⊆ items := by
  unfold visit
  split
  · exact subset
  · split
    · refine List.cons_subset.mpr ⟨?_, subset⟩
      rcases chosen pair.1 pair.2 with same | same
      · rw [same]
        exact isFirst
      · rw [same]
        exact isSecond
    · exact subset

/-- The pass does the same at other places, as long as they decide alike. -/
theorem thin_map (chosen : ∀ first second, loser first second = first ∨
    loser first second = second) {otherConflict : Other → Other → Bool}
    {otherLoser : Other → Other → Other} {place : Item → Other} {items : List Item}
    (injective : ∀ first ∈ items, ∀ second ∈ items, place first = place second →
      first = second)
    (conflicts : ∀ first ∈ items, ∀ second ∈ items,
      otherConflict (place first) (place second) = conflict first second)
    (losers : ∀ first ∈ items, ∀ second ∈ items,
      otherLoser (place first) (place second) = place (loser first second)) :
    thin otherConflict otherLoser (items.map place) = (thin conflict loser items).map place := by
  have moved {dropped : List Item} (subset : dropped ⊆ items) {item : Item}
      (member : item ∈ items) : place item ∈ dropped.map place ↔ item ∈ dropped := by
    constructor
    · intro found
      rcases List.mem_map.mp found with ⟨other, isDropped, same⟩
      exact injective other (subset isDropped) item member same ▸ isDropped
    · intro isDropped
      exact List.mem_map_of_mem isDropped
  have run (pairs : List (Item × Item)) (inside : ∀ pair ∈ pairs, pair.1 ∈ items ∧ pair.2 ∈ items)
      (dropped : List Item) (subset : dropped ⊆ items) :
      (pairs.map (Prod.map place place)).foldl (visit otherConflict otherLoser)
          (dropped.map place) =
        (pairs.foldl (visit conflict loser) dropped).map place := by
    induction pairs generalizing dropped with
    | nil => rfl
    | cons pair pairs induction =>
        rcases List.forall_mem_cons.mp inside with ⟨⟨isFirst, isSecond⟩, inside⟩
        have step : visit otherConflict otherLoser (dropped.map place)
            (Prod.map place place pair) = (visit conflict loser dropped pair).map place := by
          simp only [visit, Prod.map_fst, Prod.map_snd, moved subset isFirst,
            moved subset isSecond, conflicts _ isFirst _ isSecond, losers _ isFirst _ isSecond]
          split
          · rfl
          · split
            · rfl
            · rfl
        rw [List.map_cons, List.foldl_cons, step,
          induction inside _ (visit_subset chosen isFirst isSecond subset)]
        rfl
  have all := run (orderedPairs items) (fun _ visited => mem_of_mem_orderedPairs visited) []
    (List.nil_subset items)
  rw [thin, orderedPairs_map]
  exact all

end Pass

end FunDB.Thinning
