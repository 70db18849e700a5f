import Mathlib.Algebra.BigOperators.Group.List.Basic
import Mathlib.Algebra.GroupWithZero.Nat
import Mathlib.Algebra.Order.BigOperators.Group.List
import Mathlib.Algebra.Order.Ring.Nat
import Mathlib.Data.List.Dedup

/-! # Recency

Keys in the order in which they were last used, and giving up the least recently
used ones until there is room. -/

namespace FunDB.Recency

universe u

variable {Key : Type u}

/-! ## The order of last use -/

section Order

variable [DecidableEq Key]

/-- The keys that were used, each where it was used last. -/
def byLastUse (uses : List Key) : List Key := uses.dedup

theorem nodup_byLastUse (uses : List Key) : (byLastUse uses).Nodup := List.nodup_dedup uses

theorem byLastUse_concat (uses : List Key) (key : Key) :
    byLastUse (uses ++ [key]) = (byLastUse uses).filter (· ≠ key) ++ [key] := by
  induction uses with
  | nil => rfl
  | cons first rest induction =>
      unfold byLastUse at induction ⊢
      rw [List.cons_append]
      by_cases again : first ∈ rest
      · rw [List.dedup_cons_of_mem (List.mem_append_left _ again),
          List.dedup_cons_of_mem again, induction]
      · by_cases same : first = key
        · subst same
          rw [List.dedup_cons_of_mem (List.mem_append_right _ List.mem_cons_self),
            List.dedup_cons_of_notMem again, List.filter_cons_of_neg (by simp), induction]
        · have absent : first ∉ rest ++ [key] := by
            simp [again, same]
          rw [List.dedup_cons_of_notMem absent, List.dedup_cons_of_notMem again,
            List.filter_cons_of_pos (by simpa using same), induction, List.cons_append]

variable {uses : List Key} {held more : Key → Prop} [DecidablePred held] [DecidablePred more]

/-- Using a key that is not held changes nothing about the held ones. -/
theorem filter_byLastUse_concat_of_not {key : Key} (absent : ¬ held key) :
    (byLastUse (uses ++ [key])).filter (held ·) = (byLastUse uses).filter (held ·) := by
  rw [byLastUse_concat, List.filter_append, List.filter_cons_of_neg (by simpa using absent),
    List.filter_nil, List.append_nil, List.filter_filter]
  apply List.filter_congr
  intro other _
  by_cases same : other = key
  · subst same
    simp [absent]
  · simp [same]

theorem filter_byLastUse_concat {key : Key} (present : more key) :
    (byLastUse (uses ++ [key])).filter (more ·) =
      ((byLastUse uses).filter (more ·)).filter (· ≠ key) ++ [key] := by
  rw [byLastUse_concat, List.filter_append, List.filter_cons_of_pos (by simpa using present),
    List.filter_nil, List.filter_filter, List.filter_filter]
  congr 1
  apply List.filter_congr
  intro other _
  exact Bool.and_comm _ _

/-- When the used key enters and a front part of the others leaves, the rest stays
in order. -/
theorem filter_byLastUse_enter {key : Key} {evicted kept : List Key}
    (split : ((byLastUse uses).filter (held ·)).filter (· ≠ key) = evicted ++ kept)
    (entered : ∀ other, more other ↔ other = key ∨ other ∈ kept) :
    (byLastUse (uses ++ [key])).filter (more ·) = kept ++ [key] := by
  have distinct : (evicted ++ kept).Nodup := by
    rw [← split]
    exact ((nodup_byLastUse uses).filter _).filter _
  have apart := (List.nodup_append.mp distinct).2.2
  have rest : (evicted ++ kept).filter (· ∈ kept) = kept := by
    have gone : evicted.filter (· ∈ kept) = [] := by
      rw [List.filter_eq_nil_iff]
      intro other isGone isKept
      exact apart other isGone other (of_decide_eq_true isKept) rfl
    rw [List.filter_append, gone, List.nil_append, List.filter_eq_self]
    intro other isKept
    exact decide_eq_true isKept
  rw [filter_byLastUse_concat ((entered key).mpr (.inl rfl)), ← rest, ← split,
    List.filter_filter, List.filter_filter, List.filter_filter]
  congr 1
  apply List.filter_congr
  intro other isUsed
  rw [Bool.eq_iff_iff]
  simp only [Bool.and_eq_true, decide_eq_true_eq, entered]
  constructor
  · intro both
    rcases both with ⟨different, same | isKept⟩
    · exact absurd same different
    · have inBoth : other ∈ ((byLastUse uses).filter (held ·)).filter (· ≠ key) := by
        rw [split]
        exact List.mem_append_right _ isKept
      have isHeld := (List.mem_filter.mp (List.mem_filter.mp inBoth).1).2
      exact ⟨⟨isKept, different⟩, of_decide_eq_true isHeld⟩
  · intro all
    exact ⟨all.1.2, .inr all.1.1⟩

end Order

/-! ## Making room -/

section Room

variable (weight : Key → Nat) (capacity needed : Nat)

def total (keys : List Key) : Nat := (keys.map weight).sum

@[simp] theorem total_nil : total weight [] = 0 := rfl

@[simp] theorem total_cons (key : Key) (keys : List Key) :
    total weight (key :: keys) = weight key + total weight keys := by
  simp [total]

theorem total_append (left right : List Key) :
    total weight (left ++ right) = total weight left + total weight right := by
  simp [total]

theorem total_congr {other : Key → Nat} {keys : List Key}
    (same : ∀ key ∈ keys, weight key = other key) : total weight keys = total other keys := by
  rw [total, total, List.map_congr_left same]

theorem total_eq_of_perm {left right : List Key} (perm : left.Perm right) :
    total weight left = total weight right :=
  (perm.map weight).sum_eq

/-- A part of the keys weighs less, unless it is all of them. -/
theorem total_eq_iff_of_sublist (positive : ∀ key, 0 < weight key) {part keys : List Key}
    (sublist : part.Sublist keys) : total weight part = total weight keys ↔ part = keys := by
  have within {few many : List Key} (sub : few.Sublist many) :
      total weight few ≤ total weight many := (sub.map weight).sum_le_sum fun _ _ => Nat.zero_le _
  constructor
  · intro same
    induction sublist with
    | slnil => rfl
    | cons key sublist induction =>
        have lighter := within sublist
        have heavy := positive key
        rw [total_cons] at same
        omega
    | cons_cons key sublist induction =>
        rw [total_cons, total_cons, Nat.add_left_cancel_iff] at same
        rw [induction same]
  · intro same
    rw [same]

/-- The evicted keys are the shortest part from the front without which the rest
leaves room. -/
structure Evicts (order evicted kept : List Key) : Prop where
  split : order = evicted ++ kept
  fits : total weight kept + needed ≤ capacity
  shortest : ∀ fewer < evicted.length, capacity < total weight (order.drop fewer) + needed

variable {weight capacity needed} {order evicted kept : List Key}

theorem evicts_nothing (fits : total weight order + needed ≤ capacity) :
    Evicts weight capacity needed order [] order :=
  ⟨rfl, fits, fun _ none => absurd none (Nat.not_lt_zero _)⟩

theorem Evicts.cons {oldest : Key} (tight : capacity < total weight (oldest :: order) + needed)
    (evicts : Evicts weight capacity needed order evicted kept) :
    Evicts weight capacity needed (oldest :: order) (oldest :: evicted) kept where
  split := by rw [evicts.split, List.cons_append]
  fits := evicts.fits
  shortest fewer within := by
    cases fewer with
    | zero => exact tight
    | succ fewer => exact evicts.shortest fewer (Nat.lt_of_succ_lt_succ within)

/-- Only the weights of the keys that are there matter. -/
theorem Evicts.congr {other : Key → Nat} (evicts : Evicts weight capacity needed order evicted kept)
    (same : ∀ key ∈ order, weight key = other key) :
    Evicts other capacity needed order evicted kept where
  split := evicts.split
  fits := by
    have sameKept : total weight kept = total other kept :=
      total_congr weight fun key member =>
        same key (by rw [evicts.split]; exact List.mem_append_right _ member)
    rw [← sameKept]
    exact evicts.fits
  shortest fewer within := by
    have sameRest : total weight (order.drop fewer) = total other (order.drop fewer) :=
      total_congr weight fun key member => same key (List.mem_of_mem_drop member)
    rw [← sameRest]
    exact evicts.shortest fewer within

end Room

/-! ## The newest entries -/

section Newest

universe v

variable {Entry : Type v} (limit : Nat)

def newest (entries : List Entry) : List Entry :=
  entries.drop (entries.length - limit)

variable {limit}

theorem newest_append (first second : List Entry) :
    newest limit (newest limit first ++ second) = newest limit (first ++ second) := by
  have front : newest limit first ++ second = (first ++ second).drop (first.length - limit) := by
    rw [newest, List.drop_append_of_le_length (Nat.sub_le _ _)]
  have amount : first.length - limit + (first.length + second.length -
      (first.length - limit) - limit) = first.length + second.length - limit := by
    omega
  rw [front, newest, newest, List.drop_drop, List.length_drop, List.length_append, amount]

theorem length_newest_le (entries : List Entry) : (newest limit entries).length ≤ limit := by
  rw [newest, List.length_drop]
  omega

theorem newest_newest (fewer limit : Nat) (entries : List Entry) :
    newest fewer (newest limit entries) = newest (min fewer limit) entries := by
  have amount : entries.length - limit + (entries.length - (entries.length - limit) - fewer) =
      entries.length - min fewer limit := by
    omega
  rw [newest, newest, newest, List.drop_drop, List.length_drop, amount]

/-- A new entry takes the place of the oldest one if there is no room. -/
theorem newest_concat (room : 0 < limit) (entries : List Entry) (entry : Entry) :
    newest limit (entries ++ [entry]) =
      (if limit ≤ (newest limit entries).length then (newest limit entries).tail
        else newest limit entries) ++ [entry] := by
  have bound : (newest limit entries).length ≤ limit := length_newest_le entries
  rw [← newest_append]
  generalize newest limit entries = kept at bound ⊢
  by_cases full : limit ≤ kept.length
  · have one : (kept ++ [entry]).length - limit = 1 := by
      rw [List.length_append, List.length_singleton]
      omega
    rw [if_pos full, newest, one]
    cases kept with
    | nil => exact absurd (room.trans_le full) (Nat.lt_irrefl 0)
    | cons first others => rfl
  · have fits : (kept ++ [entry]).length - limit = 0 := by
      rw [List.length_append, List.length_singleton]
      omega
    rw [if_neg full, newest, fits, List.drop_zero]

end Newest

end FunDB.Recency
