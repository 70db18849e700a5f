import Mathlib.Data.List.Sort
import Mathlib.Data.Prod.Lex

/-! # Successors on a ring

The entries of a ring stand at positions of a linear order. A key belongs to
the first entry at or after its position, past the highest position to the
first entry of all. -/

namespace FunDB.HashRing

universe u v

variable {Entry : Type u} {Position : Type v} [LinearOrder Position]
variable (position : Entry → Position)

/-- The entries stand by ascending position. -/
def Sorted (ring : List Entry) : Prop :=
  ring.Pairwise fun earlier later => position earlier ≤ position later

/-- No two entries stand at one position. -/
def Distinct (ring : List Entry) : Prop := (ring.map position).Nodup

instance (ring : List Entry) : Decidable (Distinct position ring) :=
  inferInstanceAs (Decidable (ring.map position).Nodup)

/-- A sort by position that leaves the order at one position open. -/
structure PositionSort where
  sort : List Entry → List Entry
  perm : ∀ ring, (sort ring).Perm ring
  sorted : ∀ ring, Sorted position (sort ring)

/-- The stable sort is one of them. -/
def stableSort : PositionSort position where
  sort ring := ring.insertionSort fun left right => position left ≤ position right
  perm ring := List.perm_insertionSort _ ring
  sorted ring := by
    have total : Std.Total fun left right : Entry => position left ≤ position right :=
      ⟨fun left right => le_total (position left) (position right)⟩
    have transitive : IsTrans Entry fun left right => position left ≤ position right :=
      ⟨fun _ _ _ => le_trans⟩
    exact List.pairwise_insertionSort _ ring

/-- The entries as a walk from the key meets them. -/
def walk (ring : List Entry) (key : Position) : List Entry :=
  ring.filter (fun entry => key ≤ position entry) ++
    ring.filter fun entry => position entry < key

def successor (ring : List Entry) (key : Position) : Option Entry :=
  (walk position ring key).head?

/-- How far a walk from the key gets to a position: first the positions from the
key on, then those before it. -/
def distance (key : Position) (target : Position) : Lex (Bool × Position) :=
  toLex (decide (target < key), target)

/-! ## Walks -/

variable {position} {ring : List Entry} {key : Position}

@[simp] theorem mem_walk {entry : Entry} : entry ∈ walk position ring key ↔ entry ∈ ring := by
  simp only [walk, List.mem_append, List.mem_filter, decide_eq_true_eq, ← and_or_left]
  exact and_iff_left (le_or_gt key (position entry))

/-- A walk over some of the entries meets them in the same order. -/
theorem walk_filter (kept : Entry → Bool) :
    walk position (ring.filter kept) key = (walk position ring key).filter kept := by
  simp only [walk, List.filter_append, List.filter_filter, Bool.and_comm]

theorem Sorted.filter (sorted : Sorted position ring) (kept : Entry → Bool) :
    Sorted position (ring.filter kept) :=
  List.Pairwise.filter kept sorted

theorem Sorted.pairwise_walk (sorted : Sorted position ring) (key : Position) :
    (walk position ring key).Pairwise fun earlier later =>
      distance key (position earlier) ≤ distance key (position later) := by
  have sameSide (reached : Entry → Bool)
      (side : ∀ left right, reached left → reached right →
        decide (position left < key) = decide (position right < key)) :
      (ring.filter reached).Pairwise fun earlier later =>
        distance key (position earlier) ≤ distance key (position later) := by
    refine (sorted.filter reached).imp_of_mem fun isLeft isRight ordered => ?_
    rw [distance, distance, Prod.Lex.toLex_le_toLex]
    exact .inr ⟨side _ _ (List.mem_filter.mp isLeft).2 (List.mem_filter.mp isRight).2, ordered⟩
  rw [walk, List.pairwise_append]
  refine ⟨sameSide _ fun left right => ?_, sameSide _ fun left right => ?_, ?_⟩
  · simp only [decide_eq_true_eq, decide_eq_decide]
    exact fun leftReached rightReached =>
      iff_of_false (not_lt.mpr leftReached) (not_lt.mpr rightReached)
  · simp only [decide_eq_true_eq, decide_eq_decide]
    exact fun leftReached rightReached => iff_of_true leftReached rightReached
  · intro early isEarly late isLate
    have reached := (List.mem_filter.mp isEarly).2
    have wrapped := (List.mem_filter.mp isLate).2
    rw [decide_eq_true_eq] at reached wrapped
    rw [distance, distance, Prod.Lex.toLex_le_toLex]
    left
    rw [decide_eq_true wrapped, decide_eq_false (not_lt.mpr reached)]
    exact Bool.false_lt_true

/-! ## Successors -/

theorem mem_of_successor {entry : Entry} (found : successor position ring key = some entry) :
    entry ∈ ring :=
  mem_walk.mp (List.mem_of_mem_head? found)

theorem successor_eq_none_iff : successor position ring key = none ↔ ring = [] := by
  rw [successor, List.head?_eq_none_iff]
  constructor
  · intro nothing
    refine List.eq_nil_iff_forall_not_mem.mpr fun entry member => ?_
    have met : entry ∈ walk position ring key := mem_walk.mpr member
    rw [nothing] at met
    cases met
  · intro empty
    rw [empty]
    rfl

variable (position) in
theorem exists_successor (nonempty : ring ≠ []) (key : Position) :
    ∃ entry, successor position ring key = some entry :=
  Option.ne_none_iff_exists'.mp (mt successor_eq_none_iff.mp nonempty)

/-- Without the other entries, the successor is the first entry of the walk that
is kept. -/
theorem successor_filter (kept : Entry → Bool) :
    successor position (ring.filter kept) key = (walk position ring key).find? kept := by
  rw [successor, walk_filter, List.head?_filter]

theorem successor_filter_of_kept (kept : Entry → Bool) {entry : Entry}
    (found : successor position ring key = some entry) (isKept : kept entry) :
    successor position (ring.filter kept) key = some entry := by
  rw [successor] at found
  rcases List.head?_eq_some_iff.mp found with ⟨rest, met⟩
  rw [successor_filter, met, List.find?_cons_of_pos isKept]

/-- The search of a scan: the first entry from the key on, else the first of all. -/
theorem find?_or_head? (ring : List Entry) (key : Position) :
    (ring.find? fun entry => key ≤ position entry).or ring.head? =
      successor position ring key := by
  rw [successor, walk, List.head?_append, List.head?_filter]
  cases reached : ring.find? fun entry => key ≤ position entry with
  | some entry => rfl
  | none =>
      have all : ring.filter (fun entry => position entry < key) = ring := by
        rw [List.filter_eq_self]
        intro entry member
        have := List.find?_eq_none.mp reached entry member
        simpa using this
      rw [all]

/-- The search by place: the entry at the first place from the key on, else at
place 0. -/
theorem getElem?_findIdx (ring : List Entry) (key : Position) :
    let place := ring.findIdx fun entry => key ≤ position entry
    (if place < ring.length then ring[place]? else ring[0]?) =
      successor position ring key := by
  intro place
  rw [← find?_or_head?, List.find?_eq_getElem?_findIdx, ← List.head?_eq_getElem?]
  split
  · rename_i within
    rw [List.getElem?_eq_getElem within]
    rfl
  · rename_i beyond
    rw [List.getElem?_eq_none (Nat.not_lt.mp beyond)]
    rfl

theorem Sorted.distance_successor_le (sorted : Sorted position ring) {entry other : Entry}
    (found : successor position ring key = some entry) (member : other ∈ ring) :
    distance key (position entry) ≤ distance key (position other) := by
  have farther := sorted.pairwise_walk key
  rcases List.head?_eq_some_iff.mp found with ⟨rest, met⟩
  have inWalk : other ∈ walk position ring key := mem_walk.mpr member
  rw [met] at farther inWalk
  rcases List.mem_cons.mp inWalk with rfl | later
  · exact le_rfl
  · exact (List.pairwise_cons.mp farther).1 other later

theorem distance_injective (key : Position) : Function.Injective (distance key) := by
  intro left right same
  have both := toLex.injective same
  rw [Prod.mk.injEq] at both
  exact both.2

/-! ## A larger ring -/

section Extend

variable {larger : List Entry} (kept : Entry → Bool)

/-- Distinct positions leave one order only, so the entries that were there
keep theirs. -/
theorem filter_eq_of_perm {added : List Entry} (sorted : Sorted position ring)
    (distinct : Distinct position ring) (largerSorted : Sorted position larger)
    (perm : larger.Perm (ring ++ added))
    (old : ∀ entry ∈ ring, kept entry = true) (new : ∀ entry ∈ added, kept entry = false) :
    larger.filter kept = ring := by
  have same : (larger.filter kept).Perm ring := by
    have none : added.filter kept = [] := List.filter_eq_nil_iff.mpr (by simpa using new)
    have filtered := perm.filter kept
    rwa [List.filter_append, List.filter_eq_self.mpr old, none, List.append_nil] at filtered
  refine same.eq_of_pairwise ?_ (largerSorted.filter kept) sorted
  intro left right isLeft isRight before after
  exact List.inj_on_of_nodup_map distinct (same.subset isLeft) isRight
    (le_antisymm before after)

/-- With distinct positions, the successor among all entries is one of the added
ones exactly when one of them is nearer than the successor so far. -/
theorem Sorted.successor_added_iff (largerSorted : Sorted position larger)
    (distinct : Distinct position larger) {entry found : Entry}
    (before : successor position (larger.filter kept) key = some entry)
    (after : successor position larger key = some found) :
    kept found = false ↔
      ∃ added ∈ larger, kept added = false ∧
        distance key (position added) < distance key (position entry) := by
  have entryKept := List.mem_filter.mp (mem_of_successor before)
  constructor
  · intro isAdded
    refine ⟨found, mem_of_successor after, isAdded, lt_of_le_of_ne ?_ ?_⟩
    · exact largerSorted.distance_successor_le after entryKept.1
    · intro same
      have equal := List.inj_on_of_nodup_map distinct (mem_of_successor after) entryKept.1
        (distance_injective key same)
      rw [equal, entryKept.2] at isAdded
      cases isAdded
  · intro someNearer
    rcases someNearer with ⟨added, member, isAdded, nearer⟩
    by_contra isKept
    rw [Bool.not_eq_false] at isKept
    have unchanged := successor_filter_of_kept kept after isKept
    rw [before] at unchanged
    cases unchanged
    exact absurd nearer (not_lt.mpr (largerSorted.distance_successor_le after member))

end Extend

end FunDB.HashRing
