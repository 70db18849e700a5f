import Mathlib.Data.List.Sort

/-! # Stable sorts

A comparison that is oriented and transitive sorts a list in exactly one stable
way: a permutation in which items are in order and items that compare equal keep
theirs. Two comparisons sort a list alike exactly when they put the same pairs
of it out of order. -/

namespace FunDB.StableSort

universe u

variable {Item : Type u}

/-! ## Comparisons that agree -/

theorem orderedInsert_congr {first second : Item → Item → Prop}
    [DecidableRel first] [DecidableRel second] (item : Item) {items : List Item}
    (agree : ∀ other ∈ items, first item other ↔ second item other) :
    items.orderedInsert first item = items.orderedInsert second item := by
  induction items with
  | nil => rfl
  | cons head tail induction =>
      have here := agree head List.mem_cons_self
      have later := induction fun other member => agree other (List.mem_cons_of_mem _ member)
      rw [List.orderedInsert_cons, List.orderedInsert_cons, later]
      simp only [here]

/-- An insertion sort compares each item with later ones only. -/
theorem insertionSort_congr {first second : Item → Item → Prop}
    [DecidableRel first] [DecidableRel second] {items : List Item}
    (agree : items.Pairwise fun left right => first left right ↔ second left right) :
    items.insertionSort first = items.insertionSort second := by
  induction agree with
  | nil => rfl
  | cons here _ induction =>
      rw [List.insertionSort_cons, List.insertionSort_cons, induction]
      apply orderedInsert_congr
      intro other member
      exact here other ((List.perm_insertionSort _ _).mem_iff.mp member)

/-! ## Sorting by a comparison -/

/-- The first item need not come after the second. -/
def InOrder (cmp : Item → Item → Ordering) (left right : Item) : Prop :=
  cmp left right ≠ .gt

instance InOrder.decidable (cmp : Item → Item → Ordering) : DecidableRel (InOrder cmp) :=
  fun left right => inferInstanceAs (Decidable (cmp left right ≠ .gt))

structure IsStableSort (cmp : Item → Item → Ordering) (input output : List Item) : Prop where
  perm : output.Perm input
  ordered : output.Pairwise (InOrder cmp)
  stable : ∀ item, output.filter (fun other => cmp item other = .eq) =
    input.filter fun other => cmp item other = .eq

section Sorting

variable {cmp : Item → Item → Ordering} [Std.TransCmp cmp]

omit [Std.TransCmp cmp] in
theorem inOrder_iff (left right : Item) :
    InOrder cmp left right ↔ (cmp left right).isLE = true := by
  rw [InOrder]
  cases cmp left right <;> simp

omit [Std.TransCmp cmp] in
theorem compare_self (cmp : Item → Item → Ordering) [Std.ReflCmp cmp] (item : Item) :
    cmp item item = .eq := Std.ReflCmp.compare_self

instance InOrder.total : Std.Total (InOrder cmp) where
  total left right := by
    rw [InOrder, InOrder]
    cases compared : cmp left right with
    | gt => exact .inr (by rw [Std.OrientedCmp.lt_of_gt compared]; simp)
    | _ => exact .inl (by simp)

instance InOrder.trans : IsTrans Item (InOrder cmp) where
  trans left middle right first second := by
    rw [inOrder_iff] at first second ⊢
    exact Std.TransCmp.isLE_trans first second

theorem filter_orderedInsert (item : Item) (items : List Item) (probe : Item) :
    (items.orderedInsert (InOrder cmp) item).filter (fun other => cmp probe other = .eq) =
      (item :: items).filter fun other => cmp probe other = .eq := by
  induction items with
  | nil => rfl
  | cons head tail induction =>
      rw [List.orderedInsert_cons]
      split
      · rfl
      · -- The item moves behind a head that is less.
        rename_i notBefore
        rw [List.filter_cons, induction]
        by_cases headLevel : cmp probe head = .eq
        · have notLevel : cmp probe item ≠ .eq := by
            intro level
            apply notBefore
            rw [InOrder, Std.TransCmp.eq_trans (Std.OrientedCmp.eq_symm level) headLevel]
            simp
          simp [headLevel, notLevel]
        · simp [headLevel, List.filter_cons]

theorem isStableSort_insertionSort (input : List Item) :
    IsStableSort cmp input (input.insertionSort (InOrder cmp)) where
  perm := List.perm_insertionSort _ _
  ordered := List.pairwise_insertionSort _ _
  stable probe := by
    induction input with
    | nil => rfl
    | cons item items induction =>
        rw [List.insertionSort_cons, filter_orderedInsert, List.filter_cons, List.filter_cons,
          induction]

end Sorting

/-! ## Pairs -/

theorem pair_sublist_or {items : List Item} {left right : Item} (different : left ≠ right)
    (isLeft : left ∈ items) (isRight : right ∈ items) :
    [left, right].Sublist items ∨ [right, left].Sublist items := by
  rcases List.mem_iff_append.mp isLeft with ⟨before, behind, rfl⟩
  rcases List.mem_append.mp isRight with earlier | later
  · right
    exact (List.singleton_sublist.mpr earlier).append
      (List.singleton_sublist.mpr List.mem_cons_self)
  · left
    have isBehind : right ∈ behind := by
      rcases List.mem_cons.mp later with same | member
      · exact absurd same.symm different
      · exact member
    exact ((List.singleton_sublist.mpr isBehind).cons_cons left).trans
      (List.sublist_append_right _ _)

section Pairs

variable {cmp : Item → Item → Ordering} [Std.TransCmp cmp] {input output : List Item}
  {left right : Item}

theorem IsStableSort.swapped (sort : IsStableSort cmp input output)
    (pair : [left, right].Sublist input) (after : cmp left right = .gt) :
    [right, left].Sublist output := by
  have isLeft := sort.perm.mem_iff.mpr (pair.subset List.mem_cons_self)
  have isRight := sort.perm.mem_iff.mpr (pair.subset (List.mem_cons_of_mem _ List.mem_cons_self))
  have different : left ≠ right := by
    intro same
    rw [same, compare_self cmp] at after
    cases after
  rcases pair_sublist_or different isLeft isRight with kept | swapped
  · exact absurd after (List.pairwise_iff_forall_sublist.mp sort.ordered kept)
  · exact swapped

theorem IsStableSort.kept (sort : IsStableSort cmp input output)
    (pair : [left, right].Sublist input) (before : cmp left right ≠ .gt) :
    [left, right].Sublist output := by
  cases compared : cmp left right with
  | gt => exact absurd compared before
  | lt =>
      have isLeft := sort.perm.mem_iff.mpr (pair.subset List.mem_cons_self)
      have isRight := sort.perm.mem_iff.mpr
        (pair.subset (List.mem_cons_of_mem _ List.mem_cons_self))
      have different : left ≠ right := by
        intro same
        rw [same, compare_self cmp] at compared
        cases compared
      rcases pair_sublist_or different isLeft isRight with kept | swapped
      · exact kept
      · exact absurd (Std.OrientedCmp.gt_of_lt compared)
          (List.pairwise_iff_forall_sublist.mp sort.ordered swapped)
  | eq =>
      have level := pair.filter fun other => decide (cmp left other = .eq)
      have both : [left, right].filter (fun other => decide (cmp left other = .eq)) =
          [left, right] := by
        simp [compared, compare_self cmp]
      rw [both, ← sort.stable left] at level
      exact level.trans List.filter_sublist

end Pairs

/-- The stable sort by one comparison is one by another exactly when both put the
same pairs out of order. -/
theorem isStableSort_insertionSort_iff {first second : Item → Item → Ordering}
    [Std.TransCmp first] [Std.TransCmp second] (input : List Item) :
    IsStableSort second input (input.insertionSort (InOrder first)) ↔
      input.Pairwise fun left right => first left right = .gt ↔ second left right = .gt := by
  constructor
  · intro sort
    have own : IsStableSort first input (input.insertionSort (InOrder first)) :=
      isStableSort_insertionSort input
    rw [List.pairwise_iff_forall_sublist]
    intro left right pair
    constructor
    · intro after
      have swapped := own.swapped pair after
      by_contra before
      -- A pair that the second comparison keeps is in the output both ways round.
      exact List.pairwise_iff_forall_sublist.mp own.ordered (sort.kept pair before) after
    · intro after
      by_contra before
      exact List.pairwise_iff_forall_sublist.mp sort.ordered (own.kept pair before) after
  · intro agree
    have same : input.insertionSort (InOrder first) = input.insertionSort (InOrder second) :=
      insertionSort_congr (agree.imp fun same => not_congr same)
    rw [same]
    exact isStableSort_insertionSort input

end FunDB.StableSort
