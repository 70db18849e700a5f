import FunDB.Foundation.Ranking
import FunDB.Foundation.StableSort
import Mathlib.Data.List.Sort

/-! # Promotion in a ranking

A ranking by descending score in which one item gets another score. The others stay
as they are, and a score that is no lower moves the item to no later place. -/

namespace FunDB.Promotion

open Ranking StableSort

universe u v

variable {Item : Type u} {Score : Type v} [LinearOrder Score]

/-! ## The other items -/

theorem ranked_congr {first second : Item → Score} {items : List Item}
    (same : ∀ item ∈ items, first item = second item) :
    ranked first items = ranked second items := by
  apply insertionSort_congr
  rw [List.pairwise_iff_forall_sublist]
  intro left right pair
  rw [same left (pair.subset List.mem_cons_self),
    same right (pair.subset (List.mem_cons_of_mem _ List.mem_cons_self))]

theorem orderedInsert_first {before : Item → Item → Prop} [DecidableRel before] {item : Item}
    {items : List Item} (least : ∀ other ∈ items, before item other) :
    items.orderedInsert before item = item :: items := by
  cases items with
  | nil => rfl
  | cons head tail =>
      rw [List.orderedInsert_cons, if_pos (least head List.mem_cons_self)]

theorem filter_orderedInsert_of_pairwise {before : Item → Item → Prop} [DecidableRel before]
    [IsTrans Item before] (keep : Item → Bool) (item : Item) {items : List Item}
    (sorted : items.Pairwise before) :
    (items.orderedInsert before item).filter keep =
      if keep item then (items.filter keep).orderedInsert before item
      else items.filter keep := by
  induction sorted with
  | nil => by_cases kept : keep item <;> simp [kept]
  | @cons head tail least _ induction =>
      rw [List.orderedInsert_cons]
      by_cases first : before item head
      · rw [if_pos first, List.filter_cons]
        by_cases kept : keep item
        · rw [if_pos kept, if_pos kept, orderedInsert_first]
          intro other member
          rcases List.mem_cons.mp (List.mem_of_mem_filter member) with same | later
          · rw [same]
            exact first
          · exact IsTrans.trans item head other first (least other later)
        · rw [if_neg kept, if_neg kept]
      · rw [if_neg first, List.filter_cons, induction]
        by_cases kept : keep item
        · by_cases headKept : keep head
          · simp only [kept, headKept, if_true, List.filter_cons, List.orderedInsert_cons, first,
              if_false]
          · simp only [kept, headKept, if_true, List.filter_cons, if_false, Bool.false_eq_true]
        · simp only [kept, if_false, List.filter_cons, Bool.false_eq_true]

theorem filter_ranked (score : Item → Score) (keep : Item → Bool) (items : List Item) :
    (ranked score items).filter keep = ranked score (items.filter keep) := by
  have transitive : IsTrans Item fun left right => score right ≤ score left :=
    ⟨fun _ _ _ first second => second.trans first⟩
  induction items with
  | nil => rfl
  | cons item items induction =>
      have step : ranked score (item :: items) =
          (ranked score items).orderedInsert (fun left right => score right ≤ score left) item :=
        rfl
      rw [step, filter_orderedInsert_of_pairwise keep item (ranked_pairwise score items),
        induction, List.filter_cons]
      split
      · rfl
      · rfl

/-! ## The place of an item -/

theorem mem_before_iff_pair {front back : List Item} {item other : Item}
    (distinct : (front ++ item :: back).Nodup) :
    other ∈ front ↔ [other, item].Sublist (front ++ item :: back) := by
  apply Iff.intro
  · intro member
    exact (List.singleton_sublist.mpr member).append
      (List.singleton_sublist.mpr List.mem_cons_self)
  · intro pair
    have notBehind : item ∉ back := by
      have behind := (List.nodup_append.mp distinct).2.1
      exact (List.nodup_cons.mp behind).1
    rcases List.sublist_append_iff.mp pair with ⟨early, late, split, inFront, inBack⟩
    cases early with
    | nil =>
        rw [List.nil_append] at split
        rw [← split] at inBack
        cases inBack with
        | cons _ later =>
            exact absurd (later.subset (List.mem_cons_of_mem _ List.mem_cons_self)) notBehind
        | cons_cons _ later => exact absurd (later.subset List.mem_cons_self) notBehind
    | cons first early =>
        have isFirst : other = first := (List.cons.inj split).1
        rw [isFirst]
        exact inFront.subset List.mem_cons_self

theorem not_pair_of_pair {items : List Item} {left right : Item} (distinct : items.Nodup)
    (pair : [left, right].Sublist items) : ¬ [right, left].Sublist items := by
  intro swapped
  rcases List.append_of_mem (pair.subset (List.mem_cons_of_mem _ List.mem_cons_self)) with
    ⟨front, back, split⟩
  rw [split] at distinct pair swapped
  have isFront := (mem_before_iff_pair distinct).mpr pair
  have noFront : right ∉ front := by
    intro member
    exact (List.nodup_append.mp distinct).2.2 right member right List.mem_cons_self rfl
  rcases List.append_of_mem isFront with ⟨before, behind, frontSplit⟩
  rw [frontSplit, List.append_assoc, List.cons_append] at distinct swapped
  have earlier := (mem_before_iff_pair distinct).mpr swapped
  apply noFront
  rw [frontSplit]
  exact List.mem_append_left _ earlier

section Raised

variable {low high : Item → Score} {item : Item}

/-- What comes before a promoted item came before it already. -/
theorem pair_of_pair_raised {items : List Item} {other : Item} (distinct : items.Nodup)
    (raised : low item ≤ high item) (same : high other = low other) (different : other ≠ item)
    (pair : [other, item].Sublist (ranked high items)) :
    [other, item].Sublist (ranked low items) := by
  have isOther := (ranked_perm high items).mem_iff.mp (pair.subset List.mem_cons_self)
  have isItem := (ranked_perm high items).mem_iff.mp
    (pair.subset (List.mem_cons_of_mem _ List.mem_cons_self))
  have above : high item ≤ high other :=
    List.pairwise_iff_forall_sublist.mp (ranked_pairwise high items) pair
  rcases pair_sublist_or different isOther isItem with listed | listed
  · exact List.pair_sublist_insertionSort (raised.trans (above.trans same.le)) listed
  · -- An item listed first that is now behind has the lower score.
    rcases pair_sublist_or different ((ranked_perm low items).mem_iff.mpr isOther)
      ((ranked_perm low items).mem_iff.mpr isItem) with kept | swapped
    · exact kept
    · have below : low other ≤ low item :=
        List.pairwise_iff_forall_sublist.mp (ranked_pairwise low items) swapped
      have level : high other ≤ high item := by
        rw [same]
        exact below.trans raised
      have first : [item, other].Sublist (ranked high items) :=
        List.pair_sublist_insertionSort level listed
      exact absurd first
        (not_pair_of_pair ((ranked_perm high items).nodup_iff.mpr distinct) pair)

/-- An item of higher score has no more items before it. -/
theorem length_before_le {items front back lowFront lowBack : List Item}
    (distinct : items.Nodup) (raised : low item ≤ high item)
    (same : ∀ other ∈ items, other ≠ item → high other = low other)
    (split : ranked high items = front ++ item :: back)
    (lowSplit : ranked low items = lowFront ++ item :: lowBack) :
    front.length ≤ lowFront.length := by
  have highDistinct := (ranked_perm high items).nodup_iff.mpr distinct
  have lowDistinct := (ranked_perm low items).nodup_iff.mpr distinct
  rw [split] at highDistinct
  rw [lowSplit] at lowDistinct
  refine (List.subperm_of_subset (List.nodup_append.mp highDistinct).1 ?_).length_le
  intro other member
  have different : other ≠ item :=
    (List.nodup_append.mp highDistinct).2.2 other member item List.mem_cons_self
  have pair := (mem_before_iff_pair highDistinct).mp member
  rw [← split] at pair
  have isItem := (ranked_perm high items).mem_iff.mp (pair.subset List.mem_cons_self)
  have kept := pair_of_pair_raised distinct raised (same other isItem different) different pair
  rw [lowSplit] at kept
  exact (mem_before_iff_pair lowDistinct).mpr kept

end Raised

theorem ranked_pair (score : Item → Score) (left right : Item) :
    ranked score [left, right] =
      if score right ≤ score left then [left, right] else [right, left] :=
  rfl

end FunDB.Promotion
