import Mathlib.Algebra.GroupWithZero.Nat
import Mathlib.Data.List.Basic
import Mathlib.Data.Nat.Count
import Mathlib.Data.Vector.Basic

/-! # Histograms of 32-bit counters

Items are counted in the bucket of their place. A counter wraps. -/

namespace FunDB.Histogram

universe u v

variable {Item : Type u} {Other : Type v} {count : Nat}

/-- One more item of a bucket. -/
def bump (histogram : Vector UInt32 count) (bucket : Fin count) : Vector UInt32 count :=
  histogram.set bucket (histogram[bucket] + 1)

def tally (place : Item → Fin count) (items : List Item) : Vector UInt32 count :=
  items.foldl (fun histogram item => bump histogram (place item)) (Vector.replicate count 0)

theorem tally_concat (place : Item → Fin count) (items : List Item) (item : Item) :
    tally place (items ++ [item]) = bump (tally place items) (place item) := by
  rw [tally, List.foldl_append]
  rfl

theorem tally_map (place : Other → Fin count) (other : Item → Other) (items : List Item) :
    tally place (items.map other) = tally (fun item => place (other item)) items :=
  List.foldl_map

theorem tally_congr {place other : Item → Fin count} {items : List Item}
    (same : ∀ item ∈ items, place item = other item) : tally place items = tally other items := by
  induction items using List.reverseRecOn with
  | nil => rfl
  | append_singleton items item induction =>
      rw [tally_concat, tally_concat, same item (by simp),
        induction fun earlier member => same earlier (by simp [member])]

/-- A bucket holds the number of its items, as far as 32 bits tell it. -/
theorem getElem_tally (place : Item → Fin count) (items : List Item) (bucket : Fin count) :
    (tally place items)[bucket] = UInt32.ofNat (items.countP fun item => place item = bucket) := by
  induction items using List.reverseRecOn with
  | nil => simp [tally]
  | append_singleton items item induction =>
      rw [tally_concat, bump, List.countP_append, List.countP_singleton]
      by_cases here : place item = bucket
      · subst here
        simp [UInt32.ofNat_add, ← induction]
      · have apart : (place item).val ≠ bucket.val := fun same => here (Fin.ext same)
        have kept : ((tally place items).set (place item)
            ((tally place items)[place item] + 1))[bucket] = (tally place items)[bucket] :=
          Vector.getElem_set_ne _ _ apart
        rw [kept, induction]
        simp [here]

/-- The sum of the buckets from `first` up to `last`. -/
def bucketSum (histogram : Vector UInt32 count) (first last : Nat) : Nat :=
  (((histogram.toList.drop first).take (last - first)).map UInt32.toNat).sum

theorem bucketSum_self (histogram : Vector UInt32 count) (first : Nat) :
    bucketSum histogram first first = 0 := by
  rw [bucketSum, Nat.sub_self, List.take_zero]
  rfl

theorem bucketSum_succ (histogram : Vector UInt32 count) {first last : Nat}
    (order : first ≤ last) (within : last < count) :
    bucketSum histogram first (last + 1) =
      bucketSum histogram first last + histogram[last].toNat := by
  have step : last + 1 - first = (last - first) + 1 := by omega
  have next : (histogram.toList.drop first)[last - first]? = some histogram[last] := by
    rw [List.getElem?_drop, Nat.add_sub_cancel' order]
    simp [within]
  rw [bucketSum, bucketSum, step, List.take_add_one, next, List.map_append, List.sum_append]
  simp

/-! ## Counts -/

section Counts

variable {items : List Item} {whole first second : Item → Bool}

theorem countP_eq_add (split : ∀ item ∈ items, whole item = (first item || second item))
    (apart : ∀ item ∈ items, (first item && second item) = false) :
    items.countP whole = items.countP first + items.countP second := by
  induction items with
  | nil => rfl
  | cons item items induction =>
      rcases List.forall_mem_cons.mp split with ⟨here, split⟩
      rcases List.forall_mem_cons.mp apart with ⟨hereApart, apart⟩
      rw [List.countP_cons, List.countP_cons, List.countP_cons, induction split apart, here]
      cases isFirst : first item <;> cases isSecond : second item
      · simp
      · simp
        omega
      · simp
        omega
      · simp [isFirst, isSecond] at hereApart

end Counts

end FunDB.Histogram
