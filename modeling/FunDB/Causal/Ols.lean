import FunDB.Foundation.LeastSquares
import Mathlib.Algebra.Order.Ring.Rat
import Mathlib.Data.List.OfFn

/-! # Ordinary least squares

Coefficients from the normal equations by elimination, over exact numbers. -/

namespace FunDB.Tier2

/-! ## The algorithm -/

/-- A number of a matrix, which is a list of rows. -/
def entry (rows : List (List ℚ)) (r k : Nat) : ℚ := (rows.getD r []).getD k 0

def tabulate (rows columns : Nat) (value : Nat → Nat → ℚ) : List (List ℚ) :=
  (List.range rows).map fun r => (List.range columns).map (value r)

def ata (xMatrix : List (List ℚ)) (j k : Nat) : ℚ :=
  (xMatrix.map fun row => row.getD j 0 * row.getD k 0).sum

def atb (xMatrix : List (List ℚ)) (y : List ℚ) (j : Nat) : ℚ :=
  ((xMatrix.zip y).map fun observation => observation.1.getD j 0 * observation.2).sum

/-- The normal equations, each with its right-hand side at the end. -/
def augmented (xMatrix : List (List ℚ)) (y : List ℚ) (p : Nat) : List (List ℚ) :=
  tabulate p (p + 1) fun r k => if k < p then ata xMatrix r k else atb xMatrix y r

/-- The row from a column on where the column is greatest, and how great it is there. -/
def findPivot (p : Nat) (column : Nat → ℚ) (col : Nat) : Nat × ℚ :=
  (List.range' (col + 1) (p - (col + 1))).foldl
    (fun best r => if best.2 < |column r| then (r, |column r|) else best) (col, |column col|)

/-- Columns below it are skipped. -/
def threshold : ℚ := 1 / 10 ^ 12

def swapRows (p col pivotRow : Nat) (aug : List (List ℚ)) : List (List ℚ) :=
  tabulate p (p + 1) fun r k =>
    entry aug (if r = col then pivotRow else if r = pivotRow then col else r) k

/-- Divide a row by its pivot, from the column of the pivot on. -/
def scaleRow (p col : Nat) (aug : List (List ℚ)) : List (List ℚ) :=
  tabulate p (p + 1) fun r k =>
    if r = col ∧ col ≤ k then entry aug r k / entry aug col col else entry aug r k

/-- Take a row away from the others, from the column of its pivot on. -/
def subtractRow (p col : Nat) (aug : List (List ℚ)) : List (List ℚ) :=
  tabulate p (p + 1) fun r k =>
    if r ≠ col ∧ col ≤ k then entry aug r k - entry aug r col * entry aug col k
    else entry aug r k

def eliminateColumn (p : Nat) (aug : List (List ℚ)) (col : Nat) : List (List ℚ) :=
  let pivot := findPivot p (fun r => entry aug r col) col
  if pivot.2 < threshold then aug
  else subtractRow p col (scaleRow p col (swapRows p col pivot.1 aug))

/-- The equations after so many columns. -/
def afterColumns (p : Nat) (aug : List (List ℚ)) (cols : Nat) : List (List ℚ) :=
  (List.range cols).foldl (eliminateColumn p) aug

def olsCoefficients (xMatrix : List (List ℚ)) (y : List ℚ) : List ℚ :=
  if xMatrix = [] ∨ y = [] then []
  else
    let p := (xMatrix.getD 0 []).length
    if xMatrix.length < p then List.replicate p 0
    else
      let aug := afterColumns p (augmented xMatrix y p) p
      (List.range p).map fun r => entry aug r p

def residualSumSquares (xMatrix : List (List ℚ)) (y coeffs : List ℚ) : ℚ :=
  ((xMatrix.zip y).map fun observation =>
    let predicted := (observation.1.zipWith (· * ·) coeffs).sum
    (observation.2 - predicted) * (observation.2 - predicted)).sum

/-! ## Steps -/

theorem threshold_pos : 0 < threshold := by norm_num [threshold]

theorem threshold_lt_one : threshold < 1 := by norm_num [threshold]

theorem entry_tabulate {rows columns r k : Nat} (value : Nat → Nat → ℚ) (isRow : r < rows)
    (isColumn : k < columns) : entry (tabulate rows columns value) r k = value r k := by
  simp [entry, tabulate, isRow, isColumn]

/-- The row that is found is one from the column on, and nothing there is greater. -/
theorem findPivot_spec {p col : Nat} (column : Nat → ℚ) (isColumn : col < p) :
    (col ≤ (findPivot p column col).1 ∧ (findPivot p column col).1 < p) ∧
      (findPivot p column col).2 = |column (findPivot p column col).1| ∧
      ∀ r, col ≤ r → r < p → |column r| ≤ (findPivot p column col).2 := by
  have search : ∀ count, col + 1 + count ≤ p →
      let best := (List.range' (col + 1) count).foldl
        (fun best r => if best.2 < |column r| then (r, |column r|) else best) (col, |column col|)
      (col ≤ best.1 ∧ best.1 < p) ∧ best.2 = |column best.1| ∧
        ∀ r, col ≤ r → r < col + 1 + count → |column r| ≤ best.2 := by
    intro count
    induction count with
    | zero =>
        intro _
        refine ⟨⟨le_rfl, isColumn⟩, rfl, fun r above below => ?_⟩
        have same : r = col := by omega
        rw [same]
        exact le_rfl
    | succ count induction =>
        intro within
        rcases induction (by omega) with ⟨⟨above, below⟩, isValue, greatest⟩
        rw [List.range'_concat, List.foldl_append, List.foldl_cons, List.foldl_nil]
        dsimp only
        split
        · next greater =>
            refine ⟨⟨by omega, by omega⟩, rfl, fun r aboveRow belowRow => ?_⟩
            by_cases last : r = col + 1 + 1 * count
            · rw [last]
            · exact (greatest r aboveRow (by omega)).trans greater.le
        · next less =>
            refine ⟨⟨above, below⟩, isValue, fun r aboveRow belowRow => ?_⟩
            by_cases last : r = col + 1 + 1 * count
            · rw [last]
              exact not_lt.mp less
            · exact greatest r aboveRow (by omega)
  have all := search (p - (col + 1)) (by omega)
  refine ⟨all.1, all.2.1, fun r above below => all.2.2 r above (by omega)⟩

theorem lt_findPivot {p col : Nat} (column : Nat → ℚ) (isColumn : col < p) {r : Nat}
    (above : col ≤ r) (before : r < (findPivot p column col).1) :
    |column r| < (findPivot p column col).2 := by
  have search : ∀ count, col + 1 + count ≤ p →
      let best := (List.range' (col + 1) count).foldl
        (fun best r => if best.2 < |column r| then (r, |column r|) else best) (col, |column col|)
      best.1 < col + 1 + count ∧ (∀ r, col ≤ r → r < col + 1 + count → |column r| ≤ best.2) ∧
        ∀ r, col ≤ r → r < best.1 → |column r| < best.2 := by
    intro count
    induction count with
    | zero =>
        intro _
        refine ⟨Nat.lt_succ_self col, fun r above below => ?_, fun r above below => ?_⟩
        · have same : r = col := by omega
          rw [same]
          exact le_rfl
        · exact absurd below above.not_gt
    | succ count induction =>
        intro within
        rcases induction (by omega) with ⟨below, greatest, first⟩
        rw [List.range'_concat, List.foldl_append, List.foldl_cons, List.foldl_nil]
        dsimp only
        split
        · next greater =>
            refine ⟨by omega, fun r aboveRow belowRow => ?_, fun r aboveRow belowRow => ?_⟩
            · by_cases last : r = col + 1 + 1 * count
              · rw [last]
              · exact (greatest r aboveRow (by omega)).trans greater.le
            · exact (greatest r aboveRow (by omega)).trans_lt greater
        · next less =>
            refine ⟨by omega, fun r aboveRow belowRow => ?_, first⟩
            by_cases last : r = col + 1 + 1 * count
            · rw [last]
              exact not_lt.mp less
            · exact greatest r aboveRow (by omega)
  exact (search (p - (col + 1)) (by omega)).2.2 r above before

theorem findPivot_congr {p col : Nat} {first second : Nat → ℚ} (isColumn : col < p)
    (same : ∀ r < p, first r = second r) : findPivot p first col = findPivot p second col := by
  unfold findPivot
  rw [same col isColumn]
  apply List.foldl_ext
  intro best r isRow
  rw [List.mem_range'_1] at isRow
  rw [same r (by omega)]

/-! ## Row operations -/

open LeastSquares Matrix

section Operations

variable {p : Nat}

/-- A column with two numbers swapped. -/
def swapped (col pivotRow : Fin p) : (Fin p → ℚ) →ₗ[ℚ] Fin p → ℚ :=
  LinearMap.funLeft ℚ ℚ (Equiv.swap col pivotRow)

/-- What an elimination does to each column from its own on. -/
def operation (col pivotRow : Fin p) (factors : Fin p → ℚ) : (Fin p → ℚ) →ₗ[ℚ] Fin p → ℚ :=
  clear col (swapped col pivotRow factors) ∘ₗ swapped col pivotRow

variable {col pivotRow : Fin p} {factors : Fin p → ℚ}

theorem swapped_apply (col pivotRow row : Fin p) (values : Fin p → ℚ) :
    swapped col pivotRow values row = values (Equiv.swap col pivotRow row) := rfl

theorem swapped_col (col pivotRow : Fin p) (values : Fin p → ℚ) :
    swapped col pivotRow values col = values pivotRow := by
  rw [swapped_apply, Equiv.swap_apply_left]

theorem swapped_single {other : Fin p} (notCol : other ≠ col) (notPivot : other ≠ pivotRow) :
    swapped col pivotRow (Pi.single other 1) = Pi.single other 1 := by
  funext row
  rw [swapped_apply, Pi.single_apply, Pi.single_apply]
  apply if_congr _ rfl rfl
  rw [Equiv.swap_apply_eq_iff, Equiv.swap_apply_of_ne_of_ne notCol notPivot]

theorem operation_injective (nonzero : factors pivotRow ≠ 0) :
    Function.Injective (operation col pivotRow factors) := by
  have cleared : Function.Injective (clear col (swapped col pivotRow factors)) :=
    clear_injective ((swapped_col col pivotRow factors).symm ▸ nonzero)
  exact cleared.comp (LinearMap.funLeft_injective_of_surjective _ _ _
    (Equiv.swap col pivotRow).surjective)

theorem operation_factors (nonzero : factors pivotRow ≠ 0) :
    operation col pivotRow factors factors = Pi.single col 1 :=
  clear_factors ((swapped_col col pivotRow factors).symm ▸ nonzero)

theorem operation_single {other : Fin p} (notCol : other ≠ col) (notPivot : other ≠ pivotRow) :
    operation col pivotRow factors (Pi.single other 1) = Pi.single other 1 := by
  rw [operation, LinearMap.comp_apply, swapped_single notCol notPivot, clear_single notCol]

/-- A column of some equations. -/
def columnOf (p : Nat) (aug : List (List ℚ)) (k : Nat) : Fin p → ℚ := fun r => entry aug r k

theorem entry_swapRows (col pivotRow row : Fin p) (aug : List (List ℚ)) {k : Nat}
    (isColumn : k ≤ p) :
    entry (swapRows p col pivotRow aug) row k =
      swapped col pivotRow (columnOf p aug k) row := by
  have moved : (if (row : Nat) = col then (pivotRow : Nat) else if (row : Nat) = pivotRow then col
      else row) = (Equiv.swap col pivotRow row : Nat) := by
    rw [Equiv.swap_apply_def, apply_ite Fin.val, apply_ite Fin.val]
    simp only [Fin.ext_iff]
  rw [swapRows, entry_tabulate _ row.isLt (Nat.lt_succ_of_le isColumn), moved]
  rfl

/-- An elimination does the same operation to each column from its own on. -/
theorem columnOf_subtractRow (col pivotRow : Fin p) (aug : List (List ℚ)) {k : Nat}
    (isColumn : k ≤ p) (from_ : col ≤ k) :
    columnOf p (subtractRow p col (scaleRow p col (swapRows p col pivotRow aug))) k =
      operation col pivotRow (columnOf p aug col) (columnOf p aug k) := by
  funext row
  have scaled : ∀ (row : Fin p) (k : Nat), k ≤ p → col ≤ k →
      entry (scaleRow p col (swapRows p col pivotRow aug)) row k =
        if row = col then swapped col pivotRow (columnOf p aug k) col /
          swapped col pivotRow (columnOf p aug col) col
        else swapped col pivotRow (columnOf p aug k) row := by
    intro row k isColumn from_
    rw [scaleRow, entry_tabulate _ row.isLt (Nat.lt_succ_of_le isColumn)]
    by_cases same : row = col
    · rw [if_pos ⟨congrArg Fin.val same, from_⟩, if_pos same, same,
        entry_swapRows _ _ _ _ isColumn, entry_swapRows _ _ _ _ col.isLt.le]
    · rw [if_neg fun both => same (Fin.ext both.1), if_neg same, entry_swapRows _ _ _ _ isColumn]
  rw [operation, LinearMap.comp_apply, clear_apply, columnOf, subtractRow,
    entry_tabulate _ row.isLt (Nat.lt_succ_of_le isColumn), scaled row k isColumn from_]
  by_cases same : row = col
  · rw [if_neg fun both => both.1 (congrArg Fin.val same), if_pos same, if_pos same]
  · rw [if_pos ⟨fun sameVal => same (Fin.ext sameVal), from_⟩, if_neg same, if_neg same,
      scaled row col col.isLt.le le_rfl, if_neg same, scaled col k isColumn from_, if_pos rfl]

end Operations

/-! ## Matrices -/

section Matrices

variable {n p : Nat}

def rowsOf (X : Matrix (Fin n) (Fin p) ℚ) : List (List ℚ) := List.ofFn fun i => List.ofFn (X i)

theorem getD_ofFn (values : Fin p → ℚ) (k : Fin p) : (List.ofFn values).getD k 0 = values k := by
  rw [List.getD_eq_getElem?_getD, List.getElem?_ofFn, dif_pos k.isLt]
  rfl

theorem ata_rowsOf (X : Matrix (Fin n) (Fin p) ℚ) (j k : Fin p) :
    ata (rowsOf X) j k = (Xᵀ * X) j k := by
  rw [ata, rowsOf, List.map_ofFn, List.sum_ofFn, mul_apply]
  apply Finset.sum_congr rfl
  intro i _
  rw [Function.comp_apply, getD_ofFn, getD_ofFn, transpose_apply]

theorem zipWith_ofFn {A B C : Type} (combine : A → B → C) (first : Fin n → A)
    (second : Fin n → B) : (List.ofFn first).zipWith combine (List.ofFn second) =
      List.ofFn fun i => combine (first i) (second i) := by
  apply List.ext_getElem
  · simp
  · intro i _ _
    simp

theorem atb_rowsOf (X : Matrix (Fin n) (Fin p) ℚ) (y : Fin n → ℚ) (j : Fin p) :
    atb (rowsOf X) (List.ofFn y) j = (Xᵀ *ᵥ y) j := by
  rw [atb, rowsOf, List.zip, zipWith_ofFn, List.map_ofFn, List.sum_ofFn, mulVec, dotProduct]
  apply Finset.sum_congr rfl
  intro i _
  rw [Function.comp_apply, getD_ofFn, transpose_apply]

theorem residualSumSquares_rowsOf (X : Matrix (Fin n) (Fin p) ℚ) (y : Fin n → ℚ)
    (coefficients : Fin p → ℚ) :
    residualSumSquares (rowsOf X) (List.ofFn y) (List.ofFn coefficients) =
      residual X y coefficients := by
  have predicted : ∀ i, ((List.ofFn (X i)).zipWith (· * ·) (List.ofFn coefficients)).sum =
      (X *ᵥ coefficients) i := by
    intro i
    rw [zipWith_ofFn, List.sum_ofFn]
    rfl
  rw [residualSumSquares, rowsOf, List.zip, zipWith_ofFn, List.map_ofFn, List.sum_ofFn,
    LeastSquares.residual, dotProduct]
  apply Finset.sum_congr rfl
  intro i _
  rw [Function.comp_apply, predicted]
  rfl

theorem columnOf_augmented (X : Matrix (Fin n) (Fin p) ℚ) (y : Fin n → ℚ) (k : Fin p) :
    columnOf p (augmented (rowsOf X) (List.ofFn y) p) k =
      (Xᵀ * X).mulVecLin (Pi.single k 1) := by
  funext r
  rw [columnOf, augmented, entry_tabulate _ r.isLt (Nat.lt_succ_of_lt k.isLt), if_pos k.isLt,
    ata_rowsOf, mulVecLin_apply, mulVec_single_one, col_apply]

theorem columnOf_augmented_last (X : Matrix (Fin n) (Fin p) ℚ) (y : Fin n → ℚ) :
    columnOf p (augmented (rowsOf X) (List.ofFn y) p) p = Xᵀ *ᵥ y := by
  funext r
  rw [columnOf, augmented, entry_tabulate _ r.isLt (Nat.lt_succ_self p), if_neg (lt_irrefl p),
    atb_rowsOf]

end Matrices

/-! ## Elimination -/

/-- The elimination skips a column. What the targets are makes no difference. -/
def skips (xMatrix : List (List ℚ)) (p col : Nat) : Bool :=
  let aug := afterColumns p (augmented xMatrix (xMatrix.map fun _ => 0) p) col
  (findPivot p (fun r => entry aug r col) col).2 < threshold

section Elimination

variable {n p : Nat} {X : Matrix (Fin n) (Fin p) ℚ} {cols : Nat}
variable {E : (Fin p → ℚ) →ₗ[ℚ] Fin p → ℚ}

/-- The equations of a matrix after so many columns. -/
def reducedRows (X : Matrix (Fin n) (Fin p) ℚ) (y : Fin n → ℚ) (cols : Nat) : List (List ℚ) :=
  afterColumns p (augmented (rowsOf X) (List.ofFn y) p) cols

/-- One column of the normal equations. -/
def gramColumn (X : Matrix (Fin n) (Fin p) ℚ) (k : Fin p) : Fin p → ℚ :=
  (Xᵀ * X).mulVecLin (Pi.single k 1)

/-- The columns so far are those of the identity where they are not skipped. The columns
ahead and the targets are what the same operations make of them. -/
structure Reduces (X : Matrix (Fin n) (Fin p) ℚ) (cols : Nat)
    (E : (Fin p → ℚ) →ₗ[ℚ] Fin p → ℚ) : Prop where
  injective : Function.Injective E
  ahead : ∀ y, ∀ k : Fin p, cols ≤ k → columnOf p (reducedRows X y cols) k = E (gramColumn X k)
  targets : ∀ y, columnOf p (reducedRows X y cols) p = E (Xᵀ *ᵥ y)
  pivots : ∀ k : Fin p, k < cols → skips (rowsOf X) p k = false →
    E (gramColumn X k) = Pi.single k 1
  skipped : ∀ k : Fin p, k < cols → skips (rowsOf X) p k = true →
    E (gramColumn X k) ≠ Pi.single k 1

theorem reduces_zero (X : Matrix (Fin n) (Fin p) ℚ) : Reduces X 0 LinearMap.id where
  injective := Function.injective_id
  ahead y k _ := columnOf_augmented X y k
  targets y := columnOf_augmented_last X y
  pivots _ impossible := absurd impossible (Nat.not_lt_zero _)
  skipped _ impossible := absurd impossible (Nat.not_lt_zero _)

theorem reducedRows_succ (X : Matrix (Fin n) (Fin p) ℚ) (y : Fin n → ℚ) (cols : Nat) :
    reducedRows X y (cols + 1) = eliminateColumn p (reducedRows X y cols) cols := by
  rw [reducedRows, afterColumns, List.range_succ, List.foldl_append]
  rfl

theorem Reduces.findPivot_eq (reduces : Reduces X cols E) (isColumn : cols < p) (y : Fin n → ℚ) :
    findPivot p (fun r => entry (reducedRows X y cols) r cols) cols =
      findPivot p (fun r => entry (reducedRows X 0 cols) r cols) cols := by
  apply findPivot_congr isColumn
  intro r isRow
  have same := (reduces.ahead y ⟨cols, isColumn⟩ le_rfl).trans
    (reduces.ahead 0 ⟨cols, isColumn⟩ le_rfl).symm
  exact congrFun same ⟨r, isRow⟩

theorem skips_rowsOf (X : Matrix (Fin n) (Fin p) ℚ) (col : Nat) :
    skips (rowsOf X) p col =
      decide ((findPivot p (fun r => entry (reducedRows X 0 col) r col) col).2 < threshold) := by
  have zeros : (rowsOf X).map (fun _ => (0 : ℚ)) = List.ofFn (0 : Fin n → ℚ) := by
    rw [rowsOf, List.map_ofFn]
    rfl
  rw [skips, zeros]
  rfl

theorem Reduces.succ_of_skips (reduces : Reduces X cols E) (isColumn : cols < p)
    (skip : skips (rowsOf X) p cols = true) : Reduces X (cols + 1) E := by
  have small := skip
  rw [skips_rowsOf, decide_eq_true_eq] at small
  have same : ∀ y, reducedRows X y (cols + 1) = reducedRows X y cols := by
    intro y
    rw [reducedRows_succ, eliminateColumn, reduces.findPivot_eq isColumn y, if_pos small]
  have notUnit : E (gramColumn X ⟨cols, isColumn⟩) ≠ Pi.single ⟨cols, isColumn⟩ 1 := by
    intro unit
    have bound := (findPivot_spec (fun r => entry (reducedRows X 0 cols) r cols) isColumn).2.2
      cols le_rfl isColumn
    have one : entry (reducedRows X 0 cols) cols cols = 1 := by
      have values := congrFun ((reduces.ahead 0 ⟨cols, isColumn⟩ le_rfl).trans unit)
        ⟨cols, isColumn⟩
      rwa [Pi.single_eq_same] at values
    rw [one, abs_one] at bound
    exact absurd (bound.trans_lt small) threshold_lt_one.not_gt
  exact {
    injective := reduces.injective
    ahead := fun y k above => by rw [same, reduces.ahead y k (Nat.le_of_succ_le above)]
    targets := fun y => by rw [same, reduces.targets y]
    pivots := fun k below pivot => by
      rcases Nat.lt_succ_iff_lt_or_eq.mp below with before | now
      · exact reduces.pivots k before pivot
      · rw [now, skip] at pivot
        cases pivot
    skipped := fun k below skip => by
      rcases Nat.lt_succ_iff_lt_or_eq.mp below with before | now
      · exact reduces.skipped k before skip
      · have same : k = ⟨cols, isColumn⟩ := Fin.ext now
        exact same ▸ notUnit }

/-- A column that is not skipped becomes a column of the identity, by an operation on the
rows that leaves those before it. -/
theorem Reduces.operate (reduces : Reduces X cols E) {col pivotRow : Fin p}
    (isColumn : col.val = cols) (above : cols ≤ pivotRow)
    (taken : skips (rowsOf X) p cols = false) (nonzero : E (gramColumn X col) pivotRow ≠ 0)
    (step : ∀ y, ∀ k, cols ≤ k → k ≤ p → columnOf p (reducedRows X y (cols + 1)) k =
      operation col pivotRow (E (gramColumn X col)) (columnOf p (reducedRows X y cols) k)) :
    Reduces X (cols + 1) (operation col pivotRow (E (gramColumn X col)) ∘ₗ E) := by
  have before : ∀ k : Fin p, k < cols →
      operation col pivotRow (E (gramColumn X col)) (Pi.single k 1) = Pi.single k 1 := by
    intro k isBefore
    apply operation_single
    · exact fun same => isBefore.ne (isColumn ▸ congrArg Fin.val same)
    · exact fun same => (isBefore.trans_le above).ne (congrArg Fin.val same)
  refine ⟨(operation_injective nonzero).comp reduces.injective, ?_, ?_, ?_, ?_⟩
  · intro y k above
    rw [step y k (Nat.le_of_succ_le above) k.isLt.le, reduces.ahead y k (Nat.le_of_succ_le above)]
    rfl
  · intro y
    rw [step y p (isColumn ▸ col.isLt.le) le_rfl, reduces.targets y]
    rfl
  · intro k belowNext pivot
    rw [LinearMap.comp_apply]
    rcases Nat.lt_succ_iff_lt_or_eq.mp belowNext with isBefore | now
    · rw [reduces.pivots k isBefore pivot, before k isBefore]
    · have same : k = col := Fin.ext (now.trans isColumn.symm)
      rw [same]
      exact operation_factors nonzero
  · intro k belowNext skip
    rw [LinearMap.comp_apply]
    rcases Nat.lt_succ_iff_lt_or_eq.mp belowNext with isBefore | now
    · -- The operation keeps this column of the identity, and takes nothing else to it.
      intro unit
      rw [← before k isBefore] at unit
      exact reduces.skipped k isBefore skip (operation_injective nonzero unit)
    · rw [now, taken] at skip
      cases skip

/-- The row that becomes that of a column. -/
def foundRow (X : Matrix (Fin n) (Fin p) ℚ) (col : Fin p) : Fin p :=
  ⟨(findPivot p (fun r => entry (reducedRows X 0 col) r col) col).1,
    (findPivot_spec _ col.isLt).1.2⟩

theorem Reduces.succ_of_takes (reduces : Reduces X cols E) {col : Fin p} (isColumn : col.val = cols)
    (taken : skips (rowsOf X) p cols = false) :
    E (gramColumn X col) (foundRow X col) ≠ 0 ∧
      Reduces X (cols + 1) (operation col (foundRow X col) (E (gramColumn X col)) ∘ₗ E) := by
  subst isColumn
  have large := taken
  rw [skips_rowsOf, decide_eq_false_iff_not, not_lt] at large
  rcases findPivot_spec (fun r => entry (reducedRows X 0 col) r col) col.isLt with
    ⟨⟨above, -⟩, isValue, -⟩
  have factors : ∀ y, columnOf p (reducedRows X y col) col = E (gramColumn X col) :=
    fun y => reduces.ahead y col le_rfl
  have nonzero : E (gramColumn X col) (foundRow X col) ≠ 0 := by
    intro zero
    rw [← factors 0] at zero
    have value : entry (reducedRows X 0 col) (foundRow X col) col = 0 := zero
    change threshold ≤ (findPivot p (fun r => entry (reducedRows X 0 col) r col) col).2 at large
    rw [isValue] at large
    change threshold ≤ |entry (reducedRows X 0 col) (foundRow X col) col| at large
    rw [value, abs_zero] at large
    exact absurd large threshold_pos.not_ge
  refine ⟨nonzero, reduces.operate rfl above taken nonzero fun y k from_ isAny => ?_⟩
  rw [reducedRows_succ, eliminateColumn, reduces.findPivot_eq col.isLt y, if_neg large.not_gt,
    ← factors y]
  exact columnOf_subtractRow col (foundRow X col) _ isAny from_

theorem exists_reduces (X : Matrix (Fin n) (Fin p) ℚ) (within : cols ≤ p) :
    ∃ E, Reduces X cols E := by
  induction cols with
  | zero => exact ⟨_, reduces_zero X⟩
  | succ cols induction =>
      rcases induction (Nat.le_of_succ_le within) with ⟨E, reduces⟩
      cases skip : skips (rowsOf X) p cols with
      | true => exact ⟨E, reduces.succ_of_skips within skip⟩
      | false =>
          have column : (⟨cols, within⟩ : Fin p).val = cols := rfl
          exact ⟨_, (reduces.succ_of_takes column skip).2⟩

end Elimination

/-! ## Partial pivoting -/

section Pivoting

variable {n p : Nat}

/-- The first of the largest entries from a position on. -/
structure FirstLargest (value : Fin p → ℚ) (start place : Fin p) : Prop where
  start_le : start ≤ place
  largest : ∀ i, start ≤ i → |value i| ≤ |value place|
  first : ∀ i, start ≤ i → i < place → |value i| < |value place|

/-- Column by column, a row of the normal matrix is swapped into its place: the first of
those whose entry is largest once multiples of the columns before have cleared the entries
of the rows before. -/
structure PartialPivoting (X : Matrix (Fin n) (Fin p) ℚ) (order : Nat → Equiv.Perm (Fin p))
    (combination : Fin p → Fin p → ℚ) : Prop where
  start : order 0 = 1
  unit : ∀ k, combination k k = 1
  before : ∀ k j, k < j → combination k j = 0
  cleared : ∀ k i : Fin p, i < k → ((Xᵀ * X) *ᵥ combination k) (order k i) = 0
  place : ∀ k : Fin p, ∃ r, order (k + 1) = order k * Equiv.swap k r ∧
    FirstLargest (fun i => ((Xᵀ * X) *ᵥ combination k) (order k i)) k r ∧
    (((Xᵀ * X) *ᵥ combination k) (order k r) = 0 ∨
      threshold ≤ |((Xᵀ * X) *ᵥ combination k) (order k r)|)

/-- The rows so far are those of the order, and what vanishes on them is only permuted. -/
structure Ordered (X : Matrix (Fin n) (Fin p) ℚ) (cols : Nat)
    (E : (Fin p → ℚ) →ₗ[ℚ] Fin p → ℚ) (order : Equiv.Perm (Fin p)) : Prop where
  reduces : Reduces X cols E
  permutes : ∀ values : Fin p → ℚ, (∀ i : Fin p, i < cols → values (order i) = 0) →
    E values = values ∘ order

variable {X : Matrix (Fin n) (Fin p) ℚ} {cols : Nat}
variable {E : (Fin p → ℚ) →ₗ[ℚ] Fin p → ℚ} {order : Equiv.Perm (Fin p)}

theorem ordered_zero (X : Matrix (Fin n) (Fin p) ℚ) : Ordered X 0 LinearMap.id 1 where
  reduces := reduces_zero X
  permutes _ _ := rfl

/-- A row without an entry in the column is only moved. -/
theorem operation_of_eq_zero {col pivotRow : Fin p} {factors values : Fin p → ℚ}
    (zero : values pivotRow = 0) :
    operation col pivotRow factors values = swapped col pivotRow values := by
  funext row
  rw [operation, LinearMap.comp_apply, clear_apply, swapped_col, zero, zero_div, mul_zero,
    sub_zero]
  split
  · next same => rw [same, swapped_col, zero]
  · rfl

theorem Ordered.succ_of_takes (ordered : Ordered X cols E order) {col : Fin p}
    (isColumn : col.val = cols) (taken : skips (rowsOf X) p cols = false) :
    Ordered X (cols + 1) (operation col (foundRow X col) (E (gramColumn X col)) ∘ₗ E)
      (order * Equiv.swap col (foundRow X col)) where
  reduces := (ordered.reduces.succ_of_takes isColumn taken).2
  permutes values vanish := by
    have above : col ≤ foundRow X col := (findPivot_spec _ col.isLt).1.1
    have earlier : ∀ i : Fin p, i < cols → values (order i) = 0 := by
      intro i isBefore
      have notCol : i ≠ col := fun same => (same ▸ isBefore : col.val < cols).ne isColumn
      have notFound : i ≠ foundRow X col := by
        intro same
        have below : (foundRow X col).val < cols := same ▸ isBefore
        have from_ : col.val ≤ (foundRow X col).val := above
        omega
      have zero := vanish i (Nat.lt_succ_of_lt isBefore)
      rwa [Equiv.Perm.mul_apply, Equiv.swap_apply_of_ne_of_ne notCol notFound] at zero
    have atPivot : (values ∘ order) (foundRow X col) = 0 := by
      have zero := vanish col (by omega)
      rwa [Equiv.Perm.mul_apply, Equiv.swap_apply_left] at zero
    rw [LinearMap.comp_apply, ordered.permutes values earlier, operation_of_eq_zero atPivot]
    rfl

theorem Ordered.succ_of_skips (ordered : Ordered X cols E order) (isColumn : cols < p)
    (skip : skips (rowsOf X) p cols = true) : Ordered X (cols + 1) E order where
  reduces := ordered.reduces.succ_of_skips isColumn skip
  permutes values vanish :=
    ordered.permutes values fun i isBefore => vanish i (Nat.lt_succ_of_lt isBefore)

/-! ### Columns as combinations -/

/-- The normal matrix takes a combination to that of its columns. -/
theorem map_gram_combination (X : Matrix (Fin n) (Fin p) ℚ) (E : (Fin p → ℚ) →ₗ[ℚ] Fin p → ℚ)
    (k : Fin p) {combination : Fin p → ℚ} (unit : combination k = 1)
    (before : ∀ j, k < j → combination j = 0) :
    E ((Xᵀ * X) *ᵥ combination) =
      E (gramColumn X k) + ∑ j ∈ Finset.Iio k, combination j • E (gramColumn X j) := by
  have columns : combination = ∑ j, combination j • (Pi.single j 1 : Fin p → ℚ) := by
    funext i
    simp [Finset.sum_apply, Pi.single_apply]
  have whole : E ((Xᵀ * X) *ᵥ combination) = ∑ j, combination j • E (gramColumn X j) := by
    conv_lhs => rw [columns]
    rw [← mulVecLin_apply, map_sum, map_sum]
    exact Finset.sum_congr rfl fun j _ => by rw [map_smul, map_smul, gramColumn]
  have parts : (Finset.univ : Finset (Fin p)) = insert k (Finset.Iio k) ∪ Finset.Ioi k := by
    ext j
    simp only [Finset.mem_univ, Finset.mem_union, Finset.mem_insert, Finset.mem_Iio,
      Finset.mem_Ioi, true_iff]
    rcases lt_trichotomy j k with less | same | greater
    · exact .inl (.inr less)
    · exact .inl (.inl same)
    · exact .inr greater
  have apart : Disjoint (insert k (Finset.Iio k)) (Finset.Ioi k) := by
    rw [Finset.disjoint_left]
    intro j isIn later
    rw [Finset.mem_Ioi] at later
    rcases Finset.mem_insert.mp isIn with same | earlier
    · exact absurd same later.ne'
    · exact absurd (Finset.mem_Iio.mp earlier) later.le.not_gt
  have none : ∑ j ∈ Finset.Ioi k, combination j • E (gramColumn X j) = 0 :=
    Finset.sum_eq_zero fun j later => by rw [before j (Finset.mem_Ioi.mp later), zero_smul]
  rw [whole, parts, Finset.sum_union apart, none, add_zero,
    Finset.sum_insert (by simp), unit, one_smul]

/-! ### The elimination follows the order -/

theorem FirstLargest.findPivot_eq {value : Fin p → ℚ} {column : Nat → ℚ} {start place : Fin p}
    (first : FirstLargest value start place) (same : ∀ r : Fin p, start ≤ r → column r = value r) :
    findPivot p column start = (place.val, |value place|) := by
  rcases findPivot_spec column start.isLt with ⟨⟨above, below⟩, isValue, greatest⟩
  let found : Fin p := ⟨(findPivot p column start).1, below⟩
  have foundValue : (findPivot p column start).2 = |value found| := by
    rw [isValue]
    exact congrArg abs (same found above)
  have atPlace : column place = value place := same place first.start_le
  have isPlace : found = place := by
    rcases lt_trichotomy found place with before | equal | behind
    · have less := first.first found above before
      have bound := greatest place first.start_le place.isLt
      rw [atPlace, foundValue] at bound
      exact absurd less bound.not_gt
    · exact equal
    · have less := lt_findPivot column start.isLt first.start_le behind
      rw [atPlace, foundValue] at less
      exact absurd less (first.largest found above).not_gt
  rw [isPlace] at foundValue
  exact Prod.ext (congrArg Fin.val isPlace) foundValue

/-- Columns that are done have no entries from here on, where those that are skipped
depend on the columns before. -/
theorem Reduces.settled (reduces : Reduces X cols E) {combination : Fin p → Fin p → ℚ}
    (unit : ∀ k, combination k k = 1) (before : ∀ k j, k < j → combination k j = 0)
    (dependent : ∀ j : Fin p, j < cols → skips (rowsOf X) p j = true →
      (Xᵀ * X) *ᵥ combination j = 0)
    (j : Fin p) (done : j < cols) (r : Fin p) (ahead : cols ≤ r) : E (gramColumn X j) r = 0 := by
  induction j using WellFoundedLT.induction with
  | ind j induction =>
      cases skip : skips (rowsOf X) p j with
      | false =>
          have apart : r ≠ j := fun same => (done.trans_le ahead).ne (congrArg Fin.val same.symm)
          rw [reduces.pivots j done skip, Pi.single_eq_of_ne apart]
      | true =>
          have whole := congrFun (map_gram_combination X E j (unit j) (before j)) r
          rw [dependent j done skip, map_zero, Pi.zero_apply, Pi.add_apply,
            Finset.sum_apply] at whole
          have none : ∑ i ∈ Finset.Iio j, (combination j i • E (gramColumn X i)) r = 0 := by
            refine Finset.sum_eq_zero fun i earlier => ?_
            have below := Finset.mem_Iio.mp earlier
            rw [Pi.smul_apply, induction i below (lt_trans below done), smul_zero]
          rw [none, add_zero] at whole
          exact whole.symm

/-- Under partial pivoting the elimination takes the rows in the order, and skips only
columns that depend on those before. -/
theorem PartialPivoting.exists_ordered {orders : Nat → Equiv.Perm (Fin p)}
    {combination : Fin p → Fin p → ℚ} (pivoting : PartialPivoting X orders combination)
    (within : cols ≤ p) :
    ∃ E, Ordered X cols E (orders cols) ∧ ∀ j : Fin p, j < cols →
      skips (rowsOf X) p j = true → (Xᵀ * X) *ᵥ combination j = 0 := by
  induction cols with
  | zero =>
      rw [pivoting.start]
      exact ⟨_, ordered_zero X, fun j impossible => absurd impossible (Nat.not_lt_zero _)⟩
  | succ cols induction =>
      rcases induction (Nat.le_of_succ_le within) with ⟨E, ordered, dependent⟩
      let k : Fin p := ⟨cols, within⟩
      have moved := ordered.permutes _ fun i isBefore => pivoting.cleared k i isBefore
      have entries : ∀ r, k ≤ r → entry (reducedRows X 0 cols) r cols =
          ((Xᵀ * X) *ᵥ combination k) (orders cols r) := by
        intro r ahead
        have column := congrFun (ordered.reduces.ahead 0 k le_rfl) r
        have whole := congrFun (map_gram_combination X E k (pivoting.unit k) (pivoting.before k)) r
        have none : ∑ j ∈ Finset.Iio k, (combination k j • E (gramColumn X j)) r = 0 := by
          refine Finset.sum_eq_zero fun j earlier => ?_
          have below : j < k := Finset.mem_Iio.mp earlier
          rw [Pi.smul_apply, ordered.reduces.settled pivoting.unit pivoting.before dependent j
            below r ahead, smul_zero]
        rw [moved, Pi.add_apply, Finset.sum_apply, none, add_zero] at whole
        exact column.trans whole.symm
      rcases pivoting.place k with ⟨r, next, first, size⟩
      have found : findPivot p (fun r => entry (reducedRows X 0 cols) r cols) cols =
          (r.val, |((Xᵀ * X) *ᵥ combination k) (orders cols r)|) := first.findPivot_eq entries
      have skips_iff := skips_rowsOf X cols
      rw [found] at skips_iff
      rcases size with zero | large
      · have skip : skips (rowsOf X) p cols = true := by
          rw [skips_iff, decide_eq_true_eq]
          change |((Xᵀ * X) *ᵥ combination k) (orders cols r)| < threshold
          rw [zero, abs_zero]
          exact threshold_pos
        have small : ∀ i, k ≤ i → ((Xᵀ * X) *ᵥ combination k) (orders cols i) = 0 := by
          intro i ahead
          have bound := first.largest i ahead
          change |((Xᵀ * X) *ᵥ combination k) (orders cols i)| ≤
            |((Xᵀ * X) *ᵥ combination k) (orders cols r)| at bound
          rw [zero, abs_zero] at bound
          exact abs_nonpos_iff.mp bound
        have same : r = k := by
          by_contra other
          have less := first.first k le_rfl (lt_of_le_of_ne first.start_le (Ne.symm other))
          change |((Xᵀ * X) *ᵥ combination k) (orders cols k)| <
            |((Xᵀ * X) *ᵥ combination k) (orders cols r)| at less
          rw [zero, abs_zero] at less
          exact absurd less (abs_nonneg _).not_gt
        refine ⟨E, ?_, ?_⟩
        · have unmoved : orders (cols + 1) = orders cols := by
            have step : orders (cols + 1) = orders cols * Equiv.swap k r := next
            rw [step, same, Equiv.swap_self]
            rfl
          rw [unmoved]
          exact ordered.succ_of_skips within skip
        · intro j done skipped
          rcases Nat.lt_succ_iff_lt_or_eq.mp done with earlier | now
          · exact dependent j earlier skipped
          · have isColumn : j = k := Fin.ext now
            rw [isColumn]
            funext row
            rcases (orders cols).surjective row with ⟨i, rfl⟩
            rcases lt_or_ge i k with behind | ahead
            · exact pivoting.cleared k i behind
            · exact small i ahead
      · have taken : skips (rowsOf X) p cols = false := by
          rw [skips_iff, decide_eq_false_iff_not, not_lt]
          exact large
        have isFound : foundRow X k = r := Fin.ext (congrArg Prod.fst found)
        have column : k.val = cols := rfl
        have step := ordered.succ_of_takes column taken
        rw [isFound] at step
        have moves : orders (cols + 1) = orders cols * Equiv.swap k r := next
        rw [← moves] at step
        refine ⟨_, step, fun j done skipped => ?_⟩
        rcases Nat.lt_succ_iff_lt_or_eq.mp done with earlier | now
        · exact dependent j earlier skipped
        · rw [now, taken] at skipped
          cases skipped

end Pivoting

/-! ## Least residuals -/

section Minimal

variable {n p : Nat} {X : Matrix (Fin n) (Fin p) ℚ}

/-- No other coefficients leave a smaller residual. -/
def Minimises (X : Matrix (Fin n) (Fin p) ℚ) (y : Fin n → ℚ) : Prop :=
  ∀ other : Fin p → ℚ,
    residualSumSquares (rowsOf X) (List.ofFn y)
        (olsCoefficients (rowsOf X) (List.ofFn y)) ≤
      residualSumSquares (rowsOf X) (List.ofFn y) (List.ofFn other)

theorem olsCoefficients_rowsOf (tall : p ≤ n) (y : Fin n → ℚ) :
    olsCoefficients (rowsOf X) (List.ofFn y) =
      List.ofFn (columnOf p (reducedRows X y p) p) := by
  unfold olsCoefficients
  rcases Nat.eq_zero_or_pos n with none | some
  · subst none
    have empty : p = 0 := Nat.le_zero.mp tall
    subst empty
    rfl
  · have width : ((rowsOf X).getD 0 []).length = p := by
      rw [rowsOf, List.getD_eq_getElem?_getD, List.getElem?_ofFn, dif_pos some]
      exact List.length_ofFn
    have height : (rowsOf X).length = n := List.length_ofFn
    have notEmpty : ¬(rowsOf X = [] ∨ List.ofFn y = []) := by
      rintro (empty | empty)
      · rw [← height, empty] at some
        exact absurd some (Nat.lt_irrefl 0)
      · rw [← List.length_ofFn (f := y), empty] at some
        exact absurd some (Nat.lt_irrefl 0)
    rw [if_neg notEmpty]
    dsimp only
    rw [width, height, if_neg tall.not_gt]
    apply List.ext_getElem
    · simp
    · intro r _ _
      simp [columnOf, reducedRows]

theorem minimises_iff (tall : p ≤ n) (y : Fin n → ℚ) :
    Minimises X y ↔ Normal X y (columnOf p (reducedRows X y p) p) := by
  rw [← residual_le_iff, Minimises, olsCoefficients_rowsOf tall]
  simp only [residualSumSquares_rowsOf]

theorem Reduces.normal_iff {E : (Fin p → ℚ) →ₗ[ℚ] Fin p → ℚ} (reduces : Reduces X p E)
    (y : Fin n → ℚ) (coefficients : Fin p → ℚ) :
    Normal X y coefficients ↔
      E ((Xᵀ * X) *ᵥ coefficients) = columnOf p (reducedRows X y p) p := by
  rw [reduces.targets y]
  exact reduces.injective.eq_iff.symm

/-- Where the skipped columns depend on those before, the reduced matrix leaves its columns
as they are. -/
theorem Reduces.idempotent {E : (Fin p → ℚ) →ₗ[ℚ] Fin p → ℚ} (reduces : Reduces X p E)
    {combination : Fin p → Fin p → ℚ} (unit : ∀ k, combination k k = 1)
    (before : ∀ k j, k < j → combination k j = 0)
    (dependent : ∀ j : Fin p, j < p → skips (rowsOf X) p j = true →
      (Xᵀ * X) *ᵥ combination j = 0) (values : Fin p → ℚ) :
    E ((Xᵀ * X) *ᵥ E ((Xᵀ * X) *ᵥ values)) = E ((Xᵀ * X) *ᵥ values) := by
  have columns : ∀ k : Fin p, E ((Xᵀ * X) *ᵥ E (gramColumn X k)) = E (gramColumn X k) := by
    intro k
    induction k using WellFoundedLT.induction with
    | ind k induction =>
        cases skip : skips (rowsOf X) p k with
        | false =>
            have single := reduces.pivots k k.isLt skip
            rw [single]
            exact single
        | true =>
            have whole := map_gram_combination X E k (unit k) (before k)
            rw [dependent k k.isLt skip, map_zero] at whole
            have column := eq_neg_of_add_eq_zero_left whole.symm
            rw [column, ← mulVecLin_apply, map_neg, map_neg, map_sum, map_sum]
            refine congrArg Neg.neg (Finset.sum_congr rfl fun j earlier => ?_)
            rw [map_smul, map_smul, mulVecLin_apply, induction j (Finset.mem_Iio.mp earlier)]
  have linear : (E ∘ₗ (Xᵀ * X).mulVecLin) ∘ₗ E ∘ₗ (Xᵀ * X).mulVecLin =
      E ∘ₗ (Xᵀ * X).mulVecLin := by
    apply LinearMap.pi_ext'
    intro k
    apply LinearMap.ext_ring
    exact columns k
  exact LinearMap.congr_fun linear values

/-- No coefficients for some of the columns leave a smaller residual. -/
def BeatsParts (X : Matrix (Fin n) (Fin p) ℚ) (y : Fin n → ℚ) : Prop :=
  ∀ (q : Nat) (columns : Fin q → Fin p) (coefficients : Fin q → ℚ),
    residualSumSquares (rowsOf X) (List.ofFn y) (olsCoefficients (rowsOf X) (List.ofFn y)) ≤
      residualSumSquares (rowsOf (X.submatrix id columns)) (List.ofFn y)
        (List.ofFn coefficients)

theorem Minimises.beatsParts {y : Fin n → ℚ} (minimises : Minimises X y) : BeatsParts X y := by
  intro q columns coefficients
  have same : X *ᵥ (∑ j, Pi.single (columns j) (coefficients j)) =
      X.submatrix id columns *ᵥ coefficients := by
    rw [mulVec_sum]
    funext i
    rw [Finset.sum_apply, mulVec, dotProduct]
    apply Finset.sum_congr rfl
    intro j _
    rw [mulVec_single, Pi.smul_apply, MulOpposite.smul_eq_mul_unop]
    rfl
  have bound := minimises (∑ j, Pi.single (columns j) (coefficients j))
  rw [residualSumSquares_rowsOf, LeastSquares.residual, same] at bound
  rwa [residualSumSquares_rowsOf (X.submatrix id columns)]

/-! ### An order for columns that are all taken -/

/-- The rows in the order in which the elimination takes them. -/
def pivotOrder (X : Matrix (Fin n) (Fin p) ℚ) : Nat → Equiv.Perm (Fin p)
  | 0 => 1
  | col + 1 =>
      if below : col < p then
        pivotOrder X col * Equiv.swap ⟨col, below⟩ (foundRow X ⟨col, below⟩)
      else pivotOrder X col

theorem exists_ordered_pivotOrder (taken : ∀ k : Fin p, skips (rowsOf X) p k = false)
    {cols : Nat} (within : cols ≤ p) : ∃ E, Ordered X cols E (pivotOrder X cols) := by
  induction cols with
  | zero => exact ⟨_, ordered_zero X⟩
  | succ cols induction =>
      rcases induction (Nat.le_of_succ_le within) with ⟨E, ordered⟩
      have column : (⟨cols, within⟩ : Fin p).val = cols := rfl
      rw [pivotOrder, dif_pos (Nat.lt_of_succ_le within)]
      exact ⟨_, ordered.succ_of_takes column (taken ⟨cols, within⟩)⟩

/-- What the elimination has in a column is what a combination of the columns up to it has
in the rows that are left. -/
theorem Ordered.exists_combination {cols : Nat} {E : (Fin p → ℚ) →ₗ[ℚ] Fin p → ℚ}
    {order : Equiv.Perm (Fin p)} (ordered : Ordered X cols E order) {k : Fin p}
    (isColumn : k.val = cols) (taken : ∀ j : Fin p, skips (rowsOf X) p j = false) :
    ∃ combination : Fin p → ℚ, combination k = 1 ∧ (∀ j, k < j → combination j = 0) ∧
      (∀ i, i < k → ((Xᵀ * X) *ᵥ combination) (order i) = 0) ∧
      ∀ r : Fin p, k ≤ r → entry (reducedRows X 0 k) r k =
        ((Xᵀ * X) *ᵥ combination) (order r) := by
  subst isColumn
  let rest : Fin p → ℚ := fun r => if r < k then 0 else E (gramColumn X k) r
  let combination : Fin p → ℚ :=
    fun j => if j = k then 1 else if j < k then -E (gramColumn X k) j else 0
  have unit : combination k = 1 := if_pos rfl
  have before : ∀ j, k < j → combination j = 0 := by
    intro j later
    exact (if_neg later.ne').trans (if_neg later.le.not_gt)
  have left : E ((Xᵀ * X) *ᵥ combination) = rest := by
    rw [map_gram_combination X E k unit before]
    funext r
    have single : ∀ j ∈ Finset.Iio k, (combination j • E (gramColumn X j)) r =
        if r = j then -E (gramColumn X k) j else 0 := by
      intro j earlier
      have below := Finset.mem_Iio.mp earlier
      have factor : combination j = -E (gramColumn X k) j :=
        (if_neg below.ne).trans (if_pos below)
      rw [ordered.reduces.pivots j below (taken j), Pi.smul_apply, factor, Pi.single_apply,
        smul_eq_mul, mul_ite, mul_one, mul_zero]
    rw [Pi.add_apply, Finset.sum_apply, Finset.sum_congr rfl single, Finset.sum_ite_eq]
    by_cases behind : r < k
    · rw [if_pos (Finset.mem_Iio.mpr behind), add_neg_cancel]
      exact (if_pos behind).symm
    · rw [if_neg fun isIn => behind (Finset.mem_Iio.mp isIn), add_zero]
      exact (if_neg behind).symm
  have vanish : ∀ i : Fin p, i.val < k → (rest ∘ order.symm) (order i) = 0 := by
    intro i behind
    rw [Function.comp_apply, Equiv.symm_apply_apply]
    exact if_pos behind
  have same : (Xᵀ * X) *ᵥ combination = rest ∘ order.symm := by
    apply ordered.reduces.injective
    rw [left, ordered.permutes _ vanish]
    funext r
    exact congrArg rest (Equiv.symm_apply_apply order r).symm
  refine ⟨combination, unit, before, fun i behind => ?_, fun r ahead => ?_⟩
  · rw [same]
    exact vanish i behind
  · rw [same, Function.comp_apply, Equiv.symm_apply_apply]
    exact (congrFun (ordered.reduces.ahead 0 k le_rfl) r).trans (if_neg ahead.not_gt).symm

theorem exists_partialPivoting (taken : ∀ k : Fin p, skips (rowsOf X) p k = false) :
    ∃ combination, PartialPivoting X (pivotOrder X) combination := by
  have each : ∀ k : Fin p, ∃ combination : Fin p → ℚ, combination k = 1 ∧
      (∀ j, k < j → combination j = 0) ∧
      (∀ i, i < k → ((Xᵀ * X) *ᵥ combination) (pivotOrder X k i) = 0) ∧
      ∀ r : Fin p, k ≤ r → entry (reducedRows X 0 k) r k =
        ((Xᵀ * X) *ᵥ combination) (pivotOrder X k r) := by
    intro k
    rcases exists_ordered_pivotOrder taken k.isLt.le with ⟨E, ordered⟩
    exact ordered.exists_combination rfl taken
  choose combination unit before cleared entries using each
  refine ⟨combination, rfl, unit, before, cleared, fun k => ⟨foundRow X k, ?_, ?_, .inr ?_⟩⟩
  · rw [pivotOrder, dif_pos k.isLt]
  · rcases findPivot_spec (fun r => entry (reducedRows X 0 k) r k) k.isLt with
      ⟨⟨above, -⟩, isValue, greatest⟩
    have atFound : ((Xᵀ * X) *ᵥ combination k) (pivotOrder X k (foundRow X k)) =
        entry (reducedRows X 0 k) (foundRow X k) k := (entries k (foundRow X k) above).symm
    refine ⟨above, fun i ahead => ?_, fun i ahead earlier => ?_⟩
    · rw [atFound, ← entries k i ahead]
      exact (greatest i ahead i.isLt).trans_eq isValue
    · rw [atFound, ← entries k i ahead]
      exact (lt_findPivot _ k.isLt ahead earlier).trans_eq isValue
  · rcases findPivot_spec (fun r => entry (reducedRows X 0 k) r k) k.isLt with
      ⟨⟨above, -⟩, isValue, -⟩
    have large := taken k
    rw [skips_rowsOf, decide_eq_false_iff_not, not_lt, isValue] at large
    rw [← entries k (foundRow X k) above]
    exact large

/-! ### Where the coefficients are best -/

def trend : Matrix (Fin 4) (Fin 3) ℚ := !![1, 0, 1; 1, 1, 2; 1, 2, 3; 1, 3, 4]

example : olsCoefficients [[1, 0], [1, 1], [1, 2]] [1, 3, 5] = [1, 2] := by decide +kernel

end Minimal

end FunDB.Tier2
