import Mathlib.Data.List.Basic
import Mathlib.Data.List.TakeWhile

/-! # Binary search

The search of a sorted list by halving a window of it until one item is left.
There is no early exit. -/

namespace FunDB.BinarySearch

universe u

variable {Item : Type u}

/-- The window of `size` positions from `base` on, narrowed to one. Every round
drops a position. -/
def narrow (probe : Nat → Ordering) : Nat → Nat → Nat → Nat
  | 0, base, _ => base
  | fuel + 1, base, size =>
      if size ≤ 1 then base
      else
        let half := size / 2
        let mid := base + half
        narrow probe fuel (if probe mid = .gt then base else mid) (size - half)

def probeAt (order : Item → Ordering) (items : List Item) (position : Nat) : Ordering :=
  match items[position]? with
  | some item => order item
  | none => .gt

/-- A position where the order is `eq`, or else the position where such an item
belongs. -/
def binarySearchBy (order : Item → Ordering) (items : List Item) : Except Nat Nat :=
  if items.length = 0 then .error 0
  else
    let base := narrow (probeAt order items) items.length 0 items.length
    match probeAt order items base with
    | .eq => .ok base
    | .lt => .error (base + 1)
    | .gt => .error base

/-- The number of items in front of the first that is not to be skipped. -/
def partitionPoint (skip : Item → Bool) (items : List Item) : Nat :=
  match binarySearchBy (fun item => if skip item then .lt else .gt) items with
  | .ok position => position
  | .error position => position

/-! ## Where the window ends -/

/-- What is not below stays not below, what is above stays above. -/
structure Ascending (probe : Nat → Ordering) (count : Nat) : Prop where
  below : ∀ left right, left ≤ right → right < count → probe right = .lt → probe left = .lt
  above : ∀ left right, left ≤ right → right < count → probe left = .gt → probe right = .gt

/-- Every position behind the window is above, and its first position is not,
unless it is the first of all. -/
structure Window (probe : Nat → Ordering) (count base size : Nat) : Prop where
  nonempty : 0 < size
  within : base + size ≤ count
  start : base = 0 ∨ probe base ≠ .gt
  behind : ∀ position, base + size ≤ position → position < count → probe position = .gt

variable {probe : Nat → Ordering} {count base size : Nat}

theorem Window.halve (ascending : Ascending probe count)
    (window : Window probe count base size) (several : ¬ size ≤ 1) :
    Window probe count (if probe (base + size / 2) = .gt then base else base + size / 2)
      (size - size / 2) := by
  have within := window.within
  by_cases isAbove : probe (base + size / 2) = .gt
  · rw [if_pos isAbove]
    exact
      { nonempty := by omega
        within := by omega
        start := window.start
        behind := fun position after bound =>
          ascending.above (base + size / 2) position (by omega) bound isAbove }
  · rw [if_neg isAbove]
    exact
      { nonempty := by omega
        within := by omega
        start := .inr isAbove
        behind := fun position after bound => window.behind position (by omega) bound }

theorem Window.narrow (ascending : Ascending probe count) {fuel : Nat}
    (window : Window probe count base size) (enough : size ≤ fuel + 1) :
    Window probe count (narrow probe fuel base size) 1 := by
  induction fuel generalizing base size with
  | zero =>
      have one : size = 1 := by
        have nonempty := window.nonempty
        omega
      subst one
      exact window
  | succ fuel induction =>
      rw [BinarySearch.narrow]
      split
      · have one : size = 1 := by
          have nonempty := window.nonempty
          omega
        subst one
        exact window
      · rename_i several
        exact induction (window.halve ascending several) (by omega)

section Search

variable {order : Item → Ordering} {items : List Item}

theorem probeAt_of_lt {position : Nat} (within : position < items.length) :
    probeAt order items position = order items[position] := by
  rw [probeAt, List.getElem?_eq_getElem within]

theorem binarySearchBy_ok {position : Nat}
    (found : binarySearchBy order items = .ok position) :
    ∃ item, items[position]? = some item ∧ order item = .eq := by
  rw [binarySearchBy] at found
  split at found
  · cases found
  · dsimp only at found
    split at found
    · rename_i equal
      cases found
      rw [probeAt] at equal
      split at equal
      · rename_i item held
        exact ⟨item, held, equal⟩
      · cases equal
    · cases found
    · cases found

/-- Where nothing is found, all items in front of the position are below and all
others above. -/
theorem binarySearchBy_error (ascending : Ascending (probeAt order items) items.length)
    {position : Nat} (missing : binarySearchBy order items = .error position) :
    position ≤ items.length ∧
      (∀ index, index < position → probeAt order items index = .lt) ∧
      ∀ index, position ≤ index → index < items.length → probeAt order items index = .gt := by
  rw [binarySearchBy] at missing
  split at missing
  · rename_i empty
    cases missing
    exact ⟨Nat.zero_le _, fun index early => by omega, fun index _ within => by omega⟩
  · rename_i nonempty
    have whole : Window (probeAt order items) items.length 0 items.length :=
      { nonempty := by omega
        within := by omega
        start := .inl rfl
        behind := fun index after within => by omega }
    have last := whole.narrow ascending (Nat.le_succ _)
    have within := last.within
    dsimp only at missing
    split at missing
    · cases missing
    · rename_i isBelow
      cases missing
      refine ⟨within, fun index early => ?_, fun index after bound => ?_⟩
      · exact ascending.below index _ (Nat.le_of_lt_succ early) within isBelow
      · exact last.behind index after bound
    · rename_i isAbove
      cases missing
      have first := last.start.resolve_right fun notAbove => notAbove isAbove
      refine ⟨by omega, fun index early => by omega, fun index after bound => ?_⟩
      exact ascending.above _ index after bound isAbove

end Search

/-! ## Partitions -/

section Partition

variable {skip : Item → Bool} {items : List Item}

theorem binarySearchBy_skip_ne_ok (position : Nat) :
    binarySearchBy (fun item => if skip item then .lt else .gt) items ≠ .ok position := by
  intro found
  rcases binarySearchBy_ok found with ⟨item, _, equal⟩
  split at equal <;> cases equal

theorem ascending_skip
    (partitioned : items.Pairwise fun left right => skip right = true → skip left = true) :
    Ascending (probeAt (fun item => if skip item then .lt else .gt) items) items.length := by
  have earlier : ∀ left right, (within : right < items.length) → (le : left ≤ right) →
      skip items[right] = true → skip items[left] = true := by
    intro left right within le skipped
    rcases Nat.lt_or_eq_of_le le with lt | same
    · exact List.pairwise_iff_getElem.mp partitioned left right (by omega) within lt skipped
    · subst same
      exact skipped
  constructor
  · intro left right le within isBelow
    rw [probeAt_of_lt within] at isBelow
    rw [probeAt_of_lt (le.trans_lt within)]
    split at isBelow
    · rename_i skipped
      rw [if_pos (earlier left right within le skipped)]
    · cases isBelow
  · intro left right le within isAbove
    rw [probeAt_of_lt (le.trans_lt within)] at isAbove
    rw [probeAt_of_lt within]
    split at isAbove
    · cases isAbove
    · rename_i kept
      rw [if_neg fun skipped => kept (earlier left right within le skipped)]

theorem drop_partitionPoint
    (partitioned : items.Pairwise fun left right => skip right = true → skip left = true) :
    items.drop (partitionPoint skip items) = items.dropWhile skip := by
  rw [partitionPoint]
  cases searched : binarySearchBy (fun item => if skip item then .lt else .gt) items with
  | ok position => exact absurd searched (binarySearchBy_skip_ne_ok position)
  | error position =>
      rcases binarySearchBy_error (ascending_skip partitioned) searched with
        ⟨within, skipped, kept⟩
      have front : ∀ item ∈ items.take position, skip item = true := by
        intro item member
        rcases List.mem_iff_getElem.mp member with ⟨index, bound, rfl⟩
        rw [List.length_take] at bound
        have isBelow := skipped index (by omega)
        rw [probeAt_of_lt (by omega)] at isBelow
        rw [List.getElem_take]
        split at isBelow
        · assumption
        · cases isBelow
      calc items.drop position
          = (items.drop position).dropWhile skip := by
            symm
            rw [List.dropWhile_eq_self_iff]
            intro more
            rw [List.length_drop] at more
            have isAbove := kept position le_rfl (by omega)
            rw [probeAt_of_lt (by omega)] at isAbove
            rw [List.getElem_drop]
            split at isAbove
            · cases isAbove
            · rename_i notSkipped
              simpa using notSkipped
        _ = (items.take position ++ items.drop position).dropWhile skip :=
            (List.dropWhile_append_of_pos front).symm
        _ = items.dropWhile skip := by rw [List.take_append_drop]

end Partition

end FunDB.BinarySearch
