import FunDB.Foundation.OrderStatistic
import Mathlib.Data.List.Perm.Basic

/-! # The best of a list

Items ranked by descending score, and the best of them. Where only some items
are kept, the best scores stay the same exactly when every item that was dropped
is outranked by enough of those that were kept. -/

namespace FunDB.Ranking

open OrderStatistic

universe u v

/-! ## Descending lists -/

section Values

variable {Score : Type v} [LinearOrder Score]

/-- How many values of a descending list reach a bound tells which positions do. -/
theorem lt_reaching_iff {values : List Score} (descending : values.Pairwise (· ≥ ·))
    (position : Nat) (bound : Score) :
    position < reaching values bound ↔
      ∃ value, values[position]? = some value ∧ bound ≤ value := by
  induction values generalizing position with
  | nil => simp [reaching]
  | cons head tail induction =>
      rw [List.pairwise_cons] at descending
      by_cases reaches : bound ≤ head
      · have count : reaching (head :: tail) bound = reaching tail bound + 1 := by
          simp [reaching, reaches]
        rw [count]
        cases position with
        | zero => simp [reaches]
        | succ position =>
            rw [List.getElem?_cons_succ, ← induction descending.2]
            exact Nat.succ_lt_succ_iff
      · -- No value behind a head below the bound reaches it.
        have below : ∀ value ∈ head :: tail, ¬ bound ≤ value := by
          intro value member
          rcases List.mem_cons.mp member with rfl | inTail
          · exact reaches
          · exact fun later => reaches (later.trans (descending.1 value inTail))
        have none : reaching (head :: tail) bound = 0 :=
          List.countP_eq_zero.mpr fun value member => by simpa using below value member
        rw [none]
        refine iff_of_false (Nat.not_lt_zero _) fun found => ?_
        rcases found with ⟨value, here, later⟩
        exact below value (List.mem_of_getElem? here) later

theorem le_of_reaching_le {left right : List Score} (leftDescending : left.Pairwise (· ≥ ·))
    (rightDescending : right.Pairwise (· ≥ ·))
    (le : ∀ bound, reaching left bound ≤ reaching right bound) {position : Nat} {value : Score}
    (here : left[position]? = some value) :
    ∃ other, right[position]? = some other ∧ value ≤ other := by
  have reached := (lt_reaching_iff leftDescending position value).mpr ⟨value, here, le_rfl⟩
  exact (lt_reaching_iff rightDescending position value).mp (reached.trans_le (le value))

/-- A descending list is known by how many of its values reach each bound. -/
theorem eq_of_reaching_eq {left right : List Score} (leftDescending : left.Pairwise (· ≥ ·))
    (rightDescending : right.Pairwise (· ≥ ·))
    (same : ∀ bound, reaching left bound = reaching right bound) : left = right := by
  have forth : ∀ position value, left[position]? = some value →
      ∃ other, right[position]? = some other ∧ value ≤ other := fun _ _ here =>
    le_of_reaching_le leftDescending rightDescending (fun bound => (same bound).le) here
  have back : ∀ position value, right[position]? = some value →
      ∃ other, left[position]? = some other ∧ value ≤ other := fun _ _ here =>
    le_of_reaching_le rightDescending leftDescending (fun bound => (same bound).ge) here
  apply List.ext_getElem?
  intro position
  cases here : left[position]? with
  | none =>
      cases there : right[position]? with
      | none => rfl
      | some value =>
          rcases back position value there with ⟨other, found, _⟩
          rw [here] at found
          cases found
  | some value =>
      rcases forth position value here with ⟨other, there, le⟩
      rcases back position other there with ⟨again, found, ge⟩
      rw [here] at found
      cases found
      rw [there, le_antisymm le ge]

theorem reaching_take {values : List Score} (descending : values.Pairwise (· ≥ ·))
    (count : Nat) (bound : Score) :
    reaching (values.take count) bound = min count (reaching values bound) := by
  apply eq_of_forall_lt_iff
  intro position
  rw [lt_reaching_iff (descending.sublist (List.take_sublist _ _)), Nat.lt_min,
    lt_reaching_iff descending]
  constructor
  · intro found
    rcases found with ⟨value, here, reaches⟩
    rw [List.getElem?_take] at here
    split at here
    · rename_i within
      exact ⟨within, value, here, reaches⟩
    · cases here
  · intro both
    rcases both with ⟨within, value, here, reaches⟩
    exact ⟨value, by rw [List.getElem?_take, if_pos within, here], reaches⟩

end Values

/-! ## Ranked items -/

variable {Item : Type u} {Score : Type v} [LinearOrder Score] (score : Item → Score)

/-- The items by descending score. Items of equal score keep their order. -/
def ranked (items : List Item) : List Item :=
  items.insertionSort fun left right => score right ≤ score left

def best (count : Nat) (items : List Item) : List Item :=
  (ranked score items).take count

variable (count : Nat) (items : List Item)

theorem ranked_perm : (ranked score items).Perm items :=
  List.perm_insertionSort _ _

theorem ranked_pairwise :
    (ranked score items).Pairwise fun left right => score right ≤ score left := by
  have total : Std.Total fun left right : Item => score right ≤ score left :=
    ⟨fun left right => le_total (score right) (score left)⟩
  have transitive : IsTrans Item fun left right => score right ≤ score left :=
    ⟨fun _ _ _ first second => second.trans first⟩
  exact List.pairwise_insertionSort _ _

theorem best_pairwise :
    (best score count items).Pairwise fun left right => score right ≤ score left :=
  (ranked_pairwise score items).sublist (List.take_sublist _ _)

@[simp] theorem length_best : (best score count items).length = min count items.length := by
  rw [best, List.length_take, (ranked_perm score items).length_eq]

theorem best_subperm : (best score count items).Subperm items :=
  (List.take_sublist _ _).subperm.trans (ranked_perm score items).subperm

theorem reaching_best (bound : Score) :
    reaching ((best score count items).map score) bound =
      min count (reaching (items.map score) bound) := by
  have descending : ((ranked score items).map score).Pairwise (· ≥ ·) :=
    List.pairwise_map.mpr (ranked_pairwise score items)
  rw [best, List.map_take, reaching_take descending]
  congr 1
  exact ((ranked_perm score items).map score).countP_eq _

variable {items}

/-- The best scores depend only on the scores there are. -/
theorem best_scores_congr {others : List Item}
    (same : (items.map score).Perm (others.map score)) :
    (best score count items).map score = (best score count others).map score := by
  apply eq_of_reaching_eq (List.pairwise_map.mpr (best_pairwise score count items))
    (List.pairwise_map.mpr (best_pairwise score count others))
  intro bound
  rw [reaching_best, reaching_best]
  exact congrArg (min count) (same.countP_eq _)

/-- The best scores of what was kept are the best scores of all exactly when
enough kept items reach the score of each one that was dropped. -/
theorem best_scores_eq_iff {kept dropped : List Item} (split : items.Perm (kept ++ dropped)) :
    (best score count kept).map score = (best score count items).map score ↔
      ∀ item ∈ dropped, count ≤ reaching (kept.map score) (score item) := by
  have counts (bound : Score) : reaching (items.map score) bound =
      reaching (kept.map score) bound + reaching (dropped.map score) bound := by
    have permuted := (split.map score).countP_eq fun value => decide (bound ≤ value)
    rw [List.map_append, List.countP_append] at permuted
    exact permuted
  have same_iff : (best score count kept).map score = (best score count items).map score ↔
      ∀ bound, min count (reaching (kept.map score) bound) =
        min count (reaching (items.map score) bound) := by
    simp only [← reaching_best]
    constructor
    · intro same bound
      rw [same]
    · exact eq_of_reaching_eq (List.pairwise_map.mpr (best_pairwise score count kept))
        (List.pairwise_map.mpr (best_pairwise score count items))
  rw [same_iff]
  constructor
  · intro same item member
    have occurs : 0 < reaching (dropped.map score) (score item) :=
      List.countP_pos_iff.mpr ⟨score item, List.mem_map_of_mem member, by simp⟩
    have atScore := same (score item)
    rw [counts] at atScore
    omega
  · intro outranked bound
    rw [counts]
    rcases Nat.eq_zero_or_pos (reaching (dropped.map score) bound) with none | some
    · rw [none, Nat.add_zero]
    · rcases List.countP_pos_iff.mp some with ⟨value, member, reaches⟩
      rcases List.mem_map.mp member with ⟨item, isDropped, rfl⟩
      have enough := outranked item isDropped
      have more : reaching (kept.map score) (score item) ≤ reaching (kept.map score) bound := by
        apply List.countP_mono_left
        intro value _ above
        exact decide_eq_true ((of_decide_eq_true reaches).trans (of_decide_eq_true above))
      omega

/-! ## Items in parts -/

theorem subperm_map {Value : Type v} (value : Item → Value) {some all : List Item}
    (among : some.Subperm all) : (some.map value).Subperm (all.map value) := by
  rcases among with ⟨items, perm, sublist⟩
  exact ⟨items.map value, perm.map value, sublist.map value⟩

theorem perm_parts (parts : List (List Item)) (kept dropped : List Item → List Item)
    (split : ∀ part : List Item, part.Perm (kept part ++ dropped part)) :
    parts.flatten.Perm (parts.flatMap kept ++ parts.flatMap dropped) := by
  have together : parts.flatten.Perm (parts.flatMap fun part => kept part ++ dropped part) := by
    induction parts with
    | nil => exact List.Perm.refl _
    | cons part parts induction =>
        rw [List.flatten_cons, List.flatMap_cons]
        exact (split part).append induction
  exact together.trans (List.flatMap_append_perm parts kept dropped).symm

theorem subperm_parts (parts : List (List Item)) {kept dropped : List Item → List Item}
    (split : ∀ part : List Item, part.Perm (kept part ++ dropped part)) :
    (parts.flatMap kept).Subperm parts.flatten :=
  (List.sublist_append_left _ _).subperm.trans (perm_parts parts kept dropped split).symm.subperm

theorem best_split (count : Nat) (items : List Item) :
    items.Perm (best score count items ++ (ranked score items).drop count) := by
  have whole : best score count items ++ (ranked score items).drop count = ranked score items :=
    List.take_append_drop count _
  rw [whole]
  exact (ranked_perm score items).symm

/-- When each part keeps at least as many of its best as are wanted, the best
scores are those of all parts together. -/
theorem best_of_bests (parts : List (List Item)) {more : Nat} (enough : count ≤ more) :
    (best score count (parts.flatMap (best score more))).map score =
      (best score count parts.flatten).map score := by
  have split := perm_parts parts (best score more) (fun part => (ranked score part).drop more)
    (best_split score more)
  apply (best_scores_eq_iff score count split).mpr
  intro item dropped
  rcases List.mem_flatMap.mp dropped with ⟨part, isPart, behind⟩
  have longer : more ≤ (ranked score part).length := by
    have positive := List.length_pos_of_mem behind
    rw [List.length_drop] at positive
    omega
  have above : reaching ((best score more part).map score) (score item) = more := by
    have everyone : reaching ((best score more part).map score) (score item) =
        ((best score more part).map score).length := by
      apply List.countP_eq_length.mpr
      intro value member
      rcases List.mem_map.mp member with ⟨other, isBest, rfl⟩
      have ordered := ranked_pairwise score part
      rw [← List.take_append_drop more (ranked score part)] at ordered
      exact decide_eq_true ((List.pairwise_append.mp ordered).2.2 other isBest item behind)
    rw [everyone, List.length_map, best, List.length_take, Nat.min_eq_left longer]
  have part_le : reaching ((best score more part).map score) (score item) ≤
      reaching ((parts.flatMap (best score more)).map score) (score item) :=
    ((List.sublist_flatten_of_mem (List.mem_map_of_mem isPart)).map score).countP_le
  omega

end FunDB.Ranking
