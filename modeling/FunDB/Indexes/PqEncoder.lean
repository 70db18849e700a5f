import FunDB.Core.CausalGraph
import FunDB.Foundation.CheckedAccess
import Mathlib.Algebra.Field.Rat
import Mathlib.Algebra.Order.Ring.Rat
import Mathlib.Data.List.Basic
import Mathlib.Order.WithBot

/-! # Training of a product quantizer

Each subspace gets up to 256 centroids, by Lloyd's method over a sample of the training
vectors. A codebook is the list of centroids of a subspace. -/

namespace FunDB.Pq

open CheckedAccess

/-- What training takes from floating-point numbers. -/
structure Numbers (Coord Distance : Type) where
  zero : Coord
  add : Coord → Coord → Coord
  /-- A sum over a number of vectors. -/
  divide : Coord → Nat → Coord
  euclidean : List Coord → List Coord → Distance
  infinity : Distance
  isLess : Distance → Distance → Bool

structure PqEncoder (Coord : Type) where
  numSubspaces : Nat
  dims : Nat
  codebooks : List (List (List Coord))
  trained : Bool
deriving DecidableEq

/-- Training with its error texts and its panics. -/
abbrev Training (Value : Type) := Checked String Value

/-- The first value and every one that many positions behind another. -/
def stepBy {Value : Type} (step : Nat) : List Value → List Value
  | [] => []
  | value :: values => value :: stepBy step (values.drop (step - 1))
termination_by values => values.length

/-- At most 10 000 training vectors. -/
def sample {Value : Type} (vectors : List Value) : List Value :=
  if 10000 < vectors.length then
    (stepBy (max (vectors.length / 10000) 1) vectors).take 10000
  else vectors

section Training

variable {Coord Distance : Type} (numbers : Numbers Coord Distance)

/-- The index and the distance of the nearest centroid so far. -/
def nearer (vector : List Coord) (best : Nat × Distance) (centroid : List Coord × Nat) :
    Nat × Distance :=
  let dist := numbers.euclidean vector centroid.1
  if numbers.isLess dist best.2 then (centroid.2, dist) else best

def nearestCentroid (vector : List Coord) (centroids : List (List Coord)) : Nat :=
  (centroids.zipIdx.foldl (nearer numbers vector) (0, numbers.infinity)).1

/-- Sums and numbers of the vectors assigned to each centroid. -/
structure Totals (Coord : Type) where
  sums : List (List Coord)
  counts : List Nat

def addVector (totals : Totals Coord) (assigned : List Coord × Nat) :
    Training (Totals Coord) := do
  let (vector, centroid) := assigned
  let sums ← vector.zipIdx.foldlM
    (fun sums entry => updateAt sums centroid entry.2 (numbers.add · entry.1)) totals.sums
  let count ← elementAt totals.counts centroid
  let counts ← replaceAt totals.counts centroid (count + 1)
  return ⟨sums, counts⟩

/-- The mean in one dimension. -/
def moveCoordinate (totals : Totals Coord) (centroid : Nat) (centroids : List (List Coord))
    (dim : Nat) : Training (List (List Coord)) := do
  let sums ← elementAt totals.sums centroid
  let sum ← elementAt sums dim
  let count ← elementAt totals.counts centroid
  updateAt centroids centroid dim fun _ => numbers.divide sum count

/-- A centroid with no vectors keeps its position. -/
def moveCentroid (totals : Totals Coord) (subdim : Nat) (centroids : List (List Coord))
    (centroid : Nat) : Training (List (List Coord)) := do
  let count ← elementAt totals.counts centroid
  if 0 < count then
    (List.range subdim).foldlM (moveCoordinate numbers totals centroid) centroids
  else return centroids

/-- One round of Lloyd's method. -/
def lloydRound (subdim actualK : Nat) (subVecs centroids : List (List Coord)) (_round : Nat) :
    Training (List (List Coord)) := do
  let assignments := subVecs.map (nearestCentroid numbers · centroids)
  let empty := ⟨List.replicate actualK (List.replicate subdim numbers.zero),
    List.replicate actualK 0⟩
  let totals ← (subVecs.zip assignments).foldlM (addVector numbers) empty
  (List.range actualK).foldlM (moveCentroid numbers totals subdim) centroids

def trainSubspace (sampled : List (List Coord)) (subdim sub : Nat) :
    Training (List (List Coord)) := do
  let start := sub * subdim
  let stop := start + subdim
  let subVecs ← sampled.mapM (slice · start stop)
  let actualK := min 256 subVecs.length
  let centroids ← slice subVecs 0 actualK
  (List.range 20).foldlM (lloydRound numbers subdim actualK subVecs) centroids

namespace PqEncoder

def new (dims numSubspaces : Nat) : PqEncoder Coord :=
  ⟨numSubspaces, dims, [], false⟩

/-- The trained encoder. It is as before if training fails. -/
def train (encoder : PqEncoder Coord) (vectors : List (List Coord)) :
    Training (PqEncoder Coord) :=
  match vectors with
  | [] => .error (.refused "cannot train on empty vector set")
  | first :: _ =>
      if first.length ≠ encoder.dims then
        .error (.refused s!"vector dimension mismatch: expected {encoder.dims}, got {first.length}")
      else do
        let left ← remainder encoder.dims encoder.numSubspaces
        if left ≠ 0 then
          .error (.refused (s!"dims ({encoder.dims}) must be divisible by " ++
            s!"num_subspaces ({encoder.numSubspaces})"))
        else do
          let subdim ← quotient encoder.dims encoder.numSubspaces
          withCapacity 24 encoder.numSubspaces
          let codebooks ← (List.range encoder.numSubspaces).mapM
            (trainSubspace numbers (sample vectors) subdim)
          return { encoder with codebooks, trained := true }

end PqEncoder

/-! ## The sample -/

theorem getElem?_stepBy {Value : Type} {step : Nat} (positive : 0 < step)
    (values : List Value) (index : Nat) :
    (stepBy step values)[index]? = values[index * step]? := by
  fun_induction stepBy step values generalizing index with
  | case1 => simp
  | case2 value values induction =>
      cases index with
      | zero => simp
      | succ index =>
          have position : (index + 1) * step = step - 1 + index * step + 1 := by
            rw [Nat.succ_mul]
            omega
          rw [List.getElem?_cons_succ, induction, List.getElem?_drop, position,
            List.getElem?_cons_succ]

/-- Training looks at this position among that many vectors. -/
def IsSampled (count position : Nat) : Prop :=
  count ≤ 10000 ∨ count / 10000 ∣ position ∧ position / (count / 10000) < 10000

theorem mem_sample_iff {Value : Type} {vectors : List Value} {vector : Value} :
    vector ∈ sample vectors ↔
      ∃ position, IsSampled vectors.length position ∧ vectors[position]? = some vector := by
  unfold sample IsSampled
  by_cases many : 10000 < vectors.length
  · have positive : 0 < vectors.length / 10000 := Nat.div_pos many.le (by omega)
    rw [if_pos many, Nat.max_eq_left positive, List.mem_iff_getElem?]
    simp only [List.getElem?_take, getElem?_stepBy positive, Nat.not_le.mpr many, false_or]
    apply Iff.intro
    · intro found
      rcases found with ⟨index, present⟩
      by_cases early : index < 10000
      · rw [if_pos early] at present
        refine ⟨index * (vectors.length / 10000), ⟨Nat.dvd_mul_left _ _, ?_⟩, present⟩
        rwa [Nat.mul_div_cancel _ positive]
      · rw [if_neg early] at present
        cases present
    · intro found
      rcases found with ⟨position, ⟨aligned, early⟩, present⟩
      refine ⟨position / (vectors.length / 10000), ?_⟩
      rw [if_pos early, Nat.div_mul_cancel aligned]
      exact present
  · rw [if_neg many]
    simp only [Nat.le_of_not_lt many, true_or, true_and, List.mem_iff_getElem?]

/-! ## Lloyd's method -/

theorem nearestCentroid_lt {vector : List Coord} {centroids : List (List Coord)}
    (nonempty : 0 < centroids.length) :
    nearestCentroid numbers vector centroids < centroids.length := by
  have kept : ∀ (entries : List (List Coord × Nat)) (best : Nat × Distance),
      best.1 < centroids.length → (∀ entry ∈ entries, entry.2 < centroids.length) →
      (entries.foldl (nearer numbers vector) best).1 < centroids.length := by
    intro entries
    induction entries with
    | nil => exact fun _ small _ => small
    | cons entry entries induction =>
        intro best small inside
        rcases List.forall_mem_cons.mp inside with ⟨first, rest⟩
        refine induction _ ?_ rest
        simp only [nearer]
        split
        · exact first
        · exact small
  exact kept _ _ nonempty fun entry member => (List.mem_zipIdx' member).1

namespace Totals

/-- One sum of each dimension and one count for each centroid. -/
structure Fits (actualK subdim : Nat) (totals : Totals Coord) : Prop where
  sums : IsGrid actualK subdim totals.sums
  counts : totals.counts.length = actualK

end Totals

variable {actualK subdim : Nat}

theorem exists_addVector {totals : Totals Coord} (fits : totals.Fits actualK subdim)
    {vector : List Coord} {centroid : Nat} (sameLength : vector.length = subdim)
    (inside : centroid < actualK) :
    ∃ after, addVector numbers totals (vector, centroid) = .ok after ∧
      after.Fits actualK subdim := by
  rcases exists_foldlM
      (fun sums (entry : Coord × Nat) =>
        (updateAt sums centroid entry.2 (numbers.add · entry.1) : Training (List (List Coord))))
      (IsGrid actualK subdim) vector.zipIdx fits.sums (fun entry member sums isGrid =>
        isGrid.exists_updateAt String inside (sameLength ▸ (List.mem_zipIdx' member).1) _) with
    ⟨sums, summed, isGrid⟩
  have counted : centroid < totals.counts.length := fits.counts ▸ inside
  rcases exists_elementAt String counted with ⟨count, _, present⟩
  refine ⟨⟨sums, totals.counts.set centroid (count + 1)⟩, ?_, isGrid, ?_⟩
  · simp only [addVector, summed, present, replaceAt_eq_ok counted, bind, Except.bind]
    rfl
  · rw [List.length_set, fits.counts]

theorem exists_moveCoordinate {totals : Totals Coord} (fits : totals.Fits actualK subdim)
    {centroids : List (List Coord)} (isGrid : IsGrid actualK subdim centroids)
    {centroid dim : Nat} (inside : centroid < actualK) (small : dim < subdim) :
    ∃ after, moveCoordinate numbers totals centroid centroids dim = .ok after ∧
      IsGrid actualK subdim after := by
  rcases fits.sums.exists_row String inside with ⟨sums, found, length⟩
  rcases exists_elementAt String (length ▸ small) with ⟨sum, _, summed⟩
  rcases exists_elementAt String (fits.counts ▸ inside) with ⟨count, _, counted⟩
  rcases isGrid.exists_updateAt String inside small
    (fun _ => numbers.divide sum count) with ⟨after, updated, kept⟩
  refine ⟨after, ?_, kept⟩
  simp only [moveCoordinate, found, summed, counted, bind, Except.bind]
  exact updated

theorem exists_moveCentroid {totals : Totals Coord} (fits : totals.Fits actualK subdim)
    {centroids : List (List Coord)} (isGrid : IsGrid actualK subdim centroids)
    {centroid : Nat} (inside : centroid < actualK) :
    ∃ after, moveCentroid numbers totals subdim centroids centroid = .ok after ∧
      IsGrid actualK subdim after := by
  rcases exists_elementAt String (fits.counts ▸ inside) with ⟨count, _, counted⟩
  simp only [moveCentroid, counted, bind, Except.bind]
  split
  · exact exists_foldlM (moveCoordinate numbers totals centroid) (IsGrid actualK subdim)
      (List.range subdim) isGrid fun dim member state kept =>
        exists_moveCoordinate numbers fits kept inside (List.mem_range.mp member)
  · exact ⟨centroids, rfl, isGrid⟩

/-- A round keeps the shape of the centroids: each vector is assigned to one that is
there. -/
theorem exists_lloydRound {subVecs centroids : List (List Coord)}
    (sameLength : ∀ vector ∈ subVecs, vector.length = subdim)
    (nonempty : subVecs ≠ [] → 0 < actualK)
    (isGrid : IsGrid actualK subdim centroids) (round : Nat) :
    ∃ after, lloydRound numbers subdim actualK subVecs centroids round = .ok after ∧
      IsGrid actualK subdim after := by
  have start : Totals.Fits actualK subdim
      ⟨List.replicate actualK (List.replicate subdim numbers.zero),
        List.replicate actualK 0⟩ := ⟨IsGrid.replicate _, List.length_replicate⟩
  rcases exists_foldlM (addVector numbers) (Totals.Fits actualK subdim)
      (subVecs.zip (subVecs.map (nearestCentroid numbers · centroids))) start
      (by
        intro assigned member totals fits
        rcases List.of_mem_zip member with ⟨isVector, isAssigned⟩
        rcases List.mem_map.mp isAssigned with ⟨vector, vectorMember, same⟩
        refine exists_addVector numbers fits (sameLength _ isVector) ?_
        rw [← same, ← isGrid.length_eq]
        apply nearestCentroid_lt
        rw [isGrid.length_eq]
        exact nonempty (List.ne_nil_of_mem vectorMember)) with ⟨totals, summed, fits⟩
  rcases exists_foldlM (moveCentroid numbers totals subdim) (IsGrid actualK subdim)
      (List.range actualK) isGrid (fun centroid member state kept =>
        exists_moveCentroid numbers fits kept (List.mem_range.mp member)) with
    ⟨after, moved, kept⟩
  refine ⟨after, ?_, kept⟩
  simp only [lloydRound, summed, bind, Except.bind]
  exact moved

/-! ## A subspace -/

theorem exists_trainSubspace {sampled : List (List Coord)} {sub : Nat}
    (reach : ∀ vector ∈ sampled, sub * subdim + subdim ≤ vector.length) :
    ∃ codebook, trainSubspace numbers sampled subdim sub = .ok codebook ∧
      ∀ centroid ∈ codebook, centroid.length = subdim := by
  rcases exists_mapM (fun vector : List Coord =>
        (slice vector (sub * subdim) (sub * subdim + subdim) : Training (List Coord)))
      (fun part : List Coord => part.length = subdim) sampled (by
        intro vector member
        have sliced := slice_eq_ok String (Nat.le_add_right _ subdim)
          (reach vector member)
        refine ⟨_, sliced, ?_⟩
        rw [length_of_slice sliced, Nat.add_sub_cancel_left]) with
    ⟨subVecs, extracted, _, sameLength⟩
  have fewer : min 256 subVecs.length ≤ subVecs.length := Nat.min_le_right _ _
  have isGrid : IsGrid (min 256 subVecs.length) subdim
      (subVecs.take (min 256 subVecs.length)) :=
    ⟨by rw [List.length_take, Nat.min_eq_left fewer],
      fun row member => sameLength row (List.mem_of_mem_take member)⟩
  have nonempty : subVecs ≠ [] → 0 < min 256 subVecs.length := fun some =>
    Nat.lt_min.mpr ⟨by omega, List.length_pos_iff.mpr some⟩
  rcases exists_foldlM (lloydRound numbers subdim (min 256 subVecs.length) subVecs)
      (IsGrid (min 256 subVecs.length) subdim) (List.range 20) isGrid
      (fun round _ centroids kept =>
        exists_lloydRound numbers sameLength nonempty kept round) with
    ⟨codebook, moved, kept⟩
  refine ⟨codebook, ?_, kept.row_length⟩
  simp only [trainSubspace, extracted, slice_eq_ok String (Nat.zero_le _) fewer, bind, Except.bind]
  exact moved

/-- A sampled vector that ends before the subspace does stops the training. -/
theorem trainSubspace_short {sampled : List (List Coord)} {sub : Nat} {vector : List Coord}
    (member : vector ∈ sampled) (short : vector.length < sub * subdim + subdim) :
    trainSubspace numbers sampled subdim sub = .error (.panicked .outOfRange) := by
  have stopped := mapM_eq_error_of_mem
    (fun vector : List Coord =>
      (slice vector (sub * subdim) (sub * subdim + subdim) : Training (List Coord)))
    member (fun other _ reason failed => slice_eq_error failed)
    (if_neg fun inside => Nat.not_le_of_lt short inside.2)
  simp only [trainSubspace, stopped, bind, Except.bind]

theorem trainSubspace_error {sampled : List (List Coord)} {sub : Nat}
    {reason : Failure String}
    (failed : trainSubspace numbers sampled subdim sub = .error reason) :
    reason = .panicked .outOfRange := by
  by_cases reach : ∀ vector ∈ sampled, sub * subdim + subdim ≤ vector.length
  · rcases exists_trainSubspace numbers reach with ⟨codebook, trained, _⟩
    rw [trained] at failed
    cases failed
  · simp only [not_forall] at reach
    rcases reach with ⟨vector, member, short⟩
    rw [trainSubspace_short numbers member (Nat.lt_of_not_le short)] at failed
    cases failed
    rfl

/-! ## Training -/

namespace PqEncoder

variable {encoder : PqEncoder Coord} {vectors : List (List Coord)}

/-- Training returns, and leaves one codebook for each subspace, of centroids of the
length of a subspace. -/
structure TrainsSafely (encoder : PqEncoder Coord) (vectors : List (List Coord)) : Prop where
  noPanic : ∀ panic, encoder.train numbers vectors ≠ .error (.panicked panic)
  codebooks : ∀ trained, encoder.train numbers vectors = .ok trained →
    trained.codebooks.length = encoder.numSubspaces ∧
    ∀ codebook ∈ trained.codebooks, ∀ centroid ∈ codebook,
      centroid.length = encoder.dims / encoder.numSubspaces

/-- If the first vector has the length of the encoder then there are subspaces, and if
they divide the length then their codebooks have room and every sampled vector is that
long. -/
def IsTrainable (encoder : PqEncoder Coord) (vectors : List (List Coord)) : Prop :=
  ∀ first, vectors.head? = some first → first.length = encoder.dims →
    0 < encoder.numSubspaces ∧
    (encoder.numSubspaces ∣ encoder.dims →
      24 * encoder.numSubspaces < 2 ^ 63 ∧
      ∀ position vector, IsSampled vectors.length position →
        vectors[position]? = some vector → encoder.dims ≤ vector.length)

theorem train_checked {first : List Coord} (isFirst : vectors.head? = some first)
    (sameLength : first.length = encoder.dims) (some : 0 < encoder.numSubspaces)
    (divides : encoder.numSubspaces ∣ encoder.dims)
    (room : 24 * encoder.numSubspaces < 2 ^ 63) :
    encoder.train numbers vectors = do
      let codebooks ← (List.range encoder.numSubspaces).mapM
        (trainSubspace numbers (sample vectors) (encoder.dims / encoder.numSubspaces))
      return { encoder with codebooks, trained := true } := by
  rcases List.head?_eq_some_iff.mp isFirst with ⟨rest, same⟩
  have left : encoder.dims % encoder.numSubspaces = 0 := Nat.mod_eq_zero_of_dvd divides
  simp only [train, same, sameLength, remainder, quotient, withCapacity, some.ne', left, room,
    ne_eq, not_true_eq_false, if_false, if_true, bind, Except.bind]

theorem reach_of_sampled (divides : encoder.numSubspaces ∣ encoder.dims) {sub : Nat}
    (inside : sub < encoder.numSubspaces) :
    sub * (encoder.dims / encoder.numSubspaces) + encoder.dims / encoder.numSubspaces ≤
      encoder.dims := by
  rw [← Nat.succ_mul]
  calc
    (sub + 1) * (encoder.dims / encoder.numSubspaces) ≤
        encoder.numSubspaces * (encoder.dims / encoder.numSubspaces) :=
      Nat.mul_le_mul_right _ inside
    _ = encoder.dims := Nat.mul_div_cancel' divides

theorem TrainsSafely.of_refused
    (refused : ∃ text, encoder.train numbers vectors = .error (.refused text)) :
    encoder.TrainsSafely numbers vectors := by
  rcases refused with ⟨text, returned⟩
  apply TrainsSafely.mk
  · intro panic panicked
    rw [returned] at panicked
    cases panicked
  · intro trained result
    rw [returned] at result
    cases result

theorem train_mismatch {first : List Coord} (isFirst : vectors.head? = some first)
    (mismatch : first.length ≠ encoder.dims) :
    ∃ text, encoder.train numbers vectors = .error (.refused text) := by
  rcases List.head?_eq_some_iff.mp isFirst with ⟨rest, same⟩
  rw [same]
  exact ⟨_, if_pos mismatch⟩

/-- Without subspaces the check for divisibility is a division by zero. -/
theorem train_noSubspaces {first : List Coord} (isFirst : vectors.head? = some first)
    (sameLength : first.length = encoder.dims) (none : encoder.numSubspaces = 0) :
    encoder.train numbers vectors = .error (.panicked .divisionByZero) := by
  rcases List.head?_eq_some_iff.mp isFirst with ⟨rest, same⟩
  simp only [train, same, sameLength, none, remainder, ne_eq, not_true_eq_false, if_false,
    if_true, bind, Except.bind]

theorem train_indivisible {first : List Coord} (isFirst : vectors.head? = some first)
    (sameLength : first.length = encoder.dims) (some : 0 < encoder.numSubspaces)
    (indivisible : ¬ encoder.numSubspaces ∣ encoder.dims) :
    ∃ text, encoder.train numbers vectors = .error (.refused text) := by
  rcases List.head?_eq_some_iff.mp isFirst with ⟨rest, same⟩
  have left : encoder.dims % encoder.numSubspaces ≠ 0 :=
    fun zero => indivisible (Nat.dvd_of_mod_eq_zero zero)
  simp only [train, same, sameLength, remainder, some.ne', left, ne_eq, not_true_eq_false,
    not_false_eq_true, if_false, if_true, bind, Except.bind]
  exact ⟨_, rfl⟩

theorem train_noRoom {first : List Coord} (isFirst : vectors.head? = some first)
    (sameLength : first.length = encoder.dims) (some : 0 < encoder.numSubspaces)
    (divides : encoder.numSubspaces ∣ encoder.dims)
    (many : ¬ 24 * encoder.numSubspaces < 2 ^ 63) :
    encoder.train numbers vectors = .error (.panicked .capacityOverflow) := by
  rcases List.head?_eq_some_iff.mp isFirst with ⟨rest, same⟩
  have left : encoder.dims % encoder.numSubspaces = 0 := Nat.mod_eq_zero_of_dvd divides
  simp only [train, same, sameLength, remainder, quotient, withCapacity, some.ne', left, many,
    ne_eq, not_true_eq_false, if_false, bind, Except.bind]

/-- Behind the checks, training is safe exactly if every sampled vector is long enough. -/
theorem trainsSafely_checked_iff {first : List Coord} (isFirst : vectors.head? = some first)
    (sameLength : first.length = encoder.dims) (some : 0 < encoder.numSubspaces)
    (divides : encoder.numSubspaces ∣ encoder.dims)
    (room : 24 * encoder.numSubspaces < 2 ^ 63) :
    encoder.TrainsSafely numbers vectors ↔
      ∀ vector ∈ sample vectors, encoder.dims ≤ vector.length := by
  have checked := train_checked numbers isFirst sameLength some divides room
  apply Iff.intro
  · intro safe vector member
    by_contra long
    let last := encoder.numSubspaces - 1
    have isLast : last + 1 = encoder.numSubspaces := Nat.sub_add_cancel some
    have short : vector.length <
        last * (encoder.dims / encoder.numSubspaces) + encoder.dims / encoder.numSubspaces := by
      rw [← Nat.succ_mul, Nat.succ_eq_add_one, isLast, Nat.mul_div_cancel' divides]
      exact Nat.lt_of_not_le long
    have stopped := mapM_eq_error_of_mem
      (trainSubspace numbers (sample vectors) (encoder.dims / encoder.numSubspaces))
      (List.mem_range.mpr (Nat.lt_of_succ_le (Nat.le_of_eq isLast)))
      (fun other _ reason failed => trainSubspace_error numbers failed)
      (trainSubspace_short numbers member short)
    rw [stopped] at checked
    exact safe.noPanic _ checked
  · intro long
    rcases exists_mapM
        (trainSubspace numbers (sample vectors) (encoder.dims / encoder.numSubspaces))
        (fun codebook => ∀ centroid ∈ codebook,
          centroid.length = encoder.dims / encoder.numSubspaces)
        (List.range encoder.numSubspaces) (fun sub member =>
          exists_trainSubspace numbers fun vector inside =>
            Nat.le_trans (reach_of_sampled divides (List.mem_range.mp member))
              (long vector inside)) with
      ⟨codebooks, results, count, lengths⟩
    rw [results] at checked
    apply TrainsSafely.mk
    · intro panic panicked
      rw [checked] at panicked
      cases panicked
    · intro trained result
      rw [checked] at result
      cases result
      exact ⟨by rw [count, List.length_range], lengths⟩

theorem isTrainable_iff {first : List Coord} (isFirst : vectors.head? = some first)
    (sameLength : first.length = encoder.dims) :
    encoder.IsTrainable vectors ↔
      0 < encoder.numSubspaces ∧
      (encoder.numSubspaces ∣ encoder.dims →
        24 * encoder.numSubspaces < 2 ^ 63 ∧
        ∀ vector ∈ sample vectors, encoder.dims ≤ vector.length) := by
  have reached : (∀ position vector, IsSampled vectors.length position →
        vectors[position]? = some vector → encoder.dims ≤ vector.length) ↔
      ∀ vector ∈ sample vectors, encoder.dims ≤ vector.length := by
    simp only [mem_sample_iff]
    apply Iff.intro
    · intro long vector found
      rcases found with ⟨position, sampled, present⟩
      exact long position vector sampled present
    · exact fun long position vector sampled present =>
        long vector ⟨position, sampled, present⟩
  rw [IsTrainable, reached]
  apply Iff.intro
  · exact fun trainable => trainable first isFirst sameLength
  · exact fun trainable _ _ _ => trainable

/-- Training neither panics nor leaves a misshapen codebook exactly if its input is
refused, or its sampled vectors are as long as the encoder asks. -/
theorem trainsSafely_iff (encoder : PqEncoder Coord) (vectors : List (List Coord)) :
    encoder.TrainsSafely numbers vectors ↔ encoder.IsTrainable vectors := by
  cases isFirst : vectors.head? with
  | none =>
      have empty : vectors = [] := List.head?_eq_none_iff.mp isFirst
      refine iff_of_true (.of_refused numbers ⟨_, by rw [empty, train]⟩) fun first isOther => ?_
      rw [isFirst] at isOther
      cases isOther
  | some first =>
      by_cases sameLength : first.length = encoder.dims
      · rw [isTrainable_iff isFirst sameLength]
        rcases Nat.eq_zero_or_pos encoder.numSubspaces with none | some
        · have panicked := train_noSubspaces numbers isFirst sameLength none
          exact iff_of_false (fun safe => safe.noPanic _ panicked)
            fun trainable => Nat.ne_of_gt trainable.1 none
        · rw [and_iff_right some]
          by_cases divides : encoder.numSubspaces ∣ encoder.dims
          · rw [forall_prop_of_true divides]
            by_cases room : 24 * encoder.numSubspaces < 2 ^ 63
            · rw [and_iff_right room]
              exact trainsSafely_checked_iff numbers isFirst sameLength some divides room
            · have panicked := train_noRoom numbers isFirst sameLength some divides room
              exact iff_of_false (fun safe => safe.noPanic _ panicked)
                fun trainable => room trainable.1
          · exact iff_of_true
              (.of_refused numbers (train_indivisible numbers isFirst sameLength some divides))
              fun impossible => absurd impossible divides
      · refine iff_of_true (.of_refused numbers (train_mismatch numbers isFirst sameLength)) ?_
        intro other isOther matching
        rw [isFirst] at isOther
        cases isOther
        exact absurd matching sameLength

end PqEncoder

end Training

/-- Exact numbers. Distances stand for their squares, which have the same order. -/
def Numbers.exact : Numbers ℚ (WithTop ℚ) where
  zero := 0
  add := (· + ·)
  divide sum count := sum / count
  euclidean left right := (((left.zip right).map fun pair => (pair.1 - pair.2) ^ 2).sum : ℚ)
  infinity := ⊤
  isLess left right := left < right

example : ((PqEncoder.new 2 2).train Numbers.exact [[1, 4], [1, 8]]).map PqEncoder.codebooks =
    .ok [[[1], [1]], [[4], [8]]] := by
  decide +kernel

/-- Training panics without subspaces, and on a vector that is shorter than the first
one. -/
theorem train_panics :
    ¬ (PqEncoder.new 4 0).TrainsSafely Numbers.exact [[1, 2, 3, 4]] ∧
    ¬ (PqEncoder.new 4 2).TrainsSafely Numbers.exact [[1, 2, 3, 4], [1]] := by
  apply And.intro
  · exact fun safe => safe.noPanic .divisionByZero rfl
  · exact fun safe => safe.noPanic .outOfRange rfl

end FunDB.Pq
