import Mathlib.Data.List.Basic
import Mathlib.Order.Lattice

/-! # Chains of intervals

Half-open intervals of time, one after the other, of which the last may be open
until the end of time. -/

namespace FunDB.IntervalChain

universe u

variable {Time : Type u} [LinearOrder Time]

structure TimeSpan (Time : Type u) where
  start : Time
  stop : Time
deriving DecidableEq, Repr

def TimeSpan.Covers (interval : TimeSpan Time) (time : Time) : Prop :=
  interval.start ≤ time ∧ time < interval.stop

/-- Intervals by ascending start that run forward and do not overlap, at most
one of them open. -/
structure Orderly (forever : Time) (chain : List (TimeSpan Time)) : Prop where
  ascending : chain.Pairwise fun earlier later => earlier.start ≤ later.start
  forward : ∀ interval ∈ chain, interval.start ≤ interval.stop
  oneOpen : chain.Pairwise fun earlier later =>
    ¬ (earlier.stop = forever ∧ later.stop = forever)
  disjoint : chain.Pairwise fun earlier later =>
    ∀ time, ¬ (earlier.Covers time ∧ later.Covers time)

namespace Orderly

variable {forever : Time} {chain part earlier : List (TimeSpan Time)} {start time : Time}

theorem sublist (orderly : Orderly forever chain) (isPart : part.Sublist chain) :
    Orderly forever part where
  ascending := orderly.ascending.sublist isPart
  forward interval member := orderly.forward interval (isPart.subset member)
  oneOpen := orderly.oneOpen.sublist isPart
  disjoint := orderly.disjoint.sublist isPart

theorem nil : Orderly forever ([] : List (TimeSpan Time)) where
  ascending := List.Pairwise.nil
  forward _ member := by cases member
  oneOpen := List.Pairwise.nil
  disjoint := List.Pairwise.nil

theorem singleton (bound : start ≤ forever) : Orderly forever [⟨start, forever⟩] where
  ascending := List.pairwise_singleton _ _
  forward interval member := by
    rw [List.mem_singleton.mp member]
    exact bound
  oneOpen := List.pairwise_singleton _ _
  disjoint := List.pairwise_singleton _ _

/-- Closing the open interval of a chain at a time within it, and opening the
next one there. -/
theorem extend (orderly : Orderly forever (earlier ++ [⟨start, forever⟩]))
    (reached : start ≤ time) (ends : time < forever) :
    Orderly forever (earlier ++ [⟨start, time⟩, ⟨time, forever⟩]) where
  ascending := by
    have before := List.pairwise_append.mp orderly.ascending
    refine List.pairwise_append.mpr ⟨before.1, List.pairwise_pair.mpr reached, ?_⟩
    intro interval member last isLast
    have ordered := before.2.2 interval member _ (List.mem_singleton_self _)
    rcases List.mem_pair.mp isLast with rfl | rfl
    · exact ordered
    · exact ordered.trans reached
  forward := by
    intro interval member
    rcases List.mem_append.mp member with isEarlier | isLast
    · exact orderly.forward interval (List.mem_append_left _ isEarlier)
    · rcases List.mem_pair.mp isLast with rfl | rfl
      · exact reached
      · exact ends.le
  oneOpen := by
    have before := List.pairwise_append.mp orderly.oneOpen
    refine List.pairwise_append.mpr
      ⟨before.1, List.pairwise_pair.mpr fun both => ends.ne both.1, ?_⟩
    intro interval member last isLast bothOpen
    exact before.2.2 interval member _ (List.mem_singleton_self _) ⟨bothOpen.1, rfl⟩
  disjoint := by
    have before := List.pairwise_append.mp orderly.disjoint
    refine List.pairwise_append.mpr ⟨before.1, List.pairwise_pair.mpr ?_, ?_⟩
    · intro moment both
      exact absurd both.1.2 (not_lt.mpr both.2.1)
    · intro interval member last isLast moment both
      rcases both with ⟨covered, later⟩
      -- Both new intervals lie within the one that was open.
      have within : (TimeSpan.mk start forever).Covers moment := by
        rcases List.mem_pair.mp isLast with rfl | rfl
        · exact ⟨later.1, later.2.trans ends⟩
        · exact ⟨reached.trans later.1, later.2⟩
      exact before.2.2 interval member _ (List.mem_singleton_self _) moment ⟨covered, within⟩

theorem extend_iff (orderly : Orderly forever (earlier ++ [⟨start, forever⟩]))
    (bound : time ≤ forever) :
    Orderly forever (earlier ++ [⟨start, time⟩, ⟨time, forever⟩]) ↔
      start ≤ time ∧ time < forever := by
  constructor
  · intro extended
    have forward := extended.forward ⟨start, time⟩ (by simp)
    have oneOpen := List.pairwise_pair.mp (List.pairwise_append.mp extended.oneOpen).2.1
    exact ⟨forward, lt_of_le_of_ne bound fun same => oneOpen ⟨same, rfl⟩⟩
  · exact fun within => orderly.extend within.1 within.2

end Orderly

end FunDB.IntervalChain
