import Mathlib.LinearAlgebra.Matrix.Rank

/-! # Least squares

Coefficients with the least residual are those that solve the normal equations, and the row
operations that reduce these. -/

namespace FunDB.LeastSquares

open Matrix

universe u v w

variable {Row : Type u} {Column : Type v} {K : Type w} [Fintype Row] [Fintype Column]
variable [Field K]

/-! ## Normal equations -/

/-- The sum of the squares of what the coefficients leave. -/
def residual (X : Matrix Row Column K) (y : Row → K) (coefficients : Column → K) : K :=
  (y - X *ᵥ coefficients) ⬝ᵥ (y - X *ᵥ coefficients)

def Normal (X : Matrix Row Column K) (y : Row → K) (coefficients : Column → K) : Prop :=
  (Xᵀ * X) *ᵥ coefficients = Xᵀ *ᵥ y

section Residuals

variable [LinearOrder K] [IsStrictOrderedRing K]
variable {X : Matrix Row Column K} {y : Row → K} {coefficients other : Column → K}

theorem exists_normal (X : Matrix Row Column K) (y : Row → K) :
    ∃ coefficients, Normal X y coefficients := by
  have below : LinearMap.range (Xᵀ * X).mulVecLin ≤ LinearMap.range Xᵀ.mulVecLin := by
    rw [Matrix.mulVecLin_mul]
    exact LinearMap.range_comp_le_range _ _
  have sameRank : Module.finrank K (LinearMap.range (Xᵀ * X).mulVecLin) =
      Module.finrank K (LinearMap.range Xᵀ.mulVecLin) :=
    (rank_transpose_mul_self X).trans (rank_transpose X).symm
  have same := Submodule.eq_of_le_of_finrank_eq below sameRank
  have isIn : Xᵀ *ᵥ y ∈ LinearMap.range (Xᵀ * X).mulVecLin := same ▸ ⟨y, rfl⟩
  exact isIn

omit [LinearOrder K] [IsStrictOrderedRing K] in
/-- Other coefficients leave more by the square of the difference of the predictions. -/
theorem Normal.residual_eq (normal : Normal X y coefficients) (other : Column → K) :
    residual X y other = residual X y coefficients +
      (X *ᵥ (coefficients - other)) ⬝ᵥ (X *ᵥ (coefficients - other)) := by
  have orthogonal : (X *ᵥ (coefficients - other)) ⬝ᵥ (y - X *ᵥ coefficients) = 0 := by
    have gradient : Xᵀ *ᵥ (y - X *ᵥ coefficients) = 0 := by
      rw [mulVec_sub, mulVec_mulVec, normal, sub_self]
    rw [← vecMul_transpose, ← dotProduct_mulVec, gradient, dotProduct_zero]
  have split : y - X *ᵥ other = y - X *ᵥ coefficients + X *ᵥ (coefficients - other) := by
    rw [mulVec_sub]
    abel
  rw [residual, residual, split, add_dotProduct, dotProduct_add, dotProduct_add, orthogonal,
    dotProduct_comm (y - X *ᵥ coefficients) (X *ᵥ (coefficients - other)), orthogonal]
  ring

theorem dotProduct_self_nonneg (values : Row → K) : 0 ≤ values ⬝ᵥ values :=
  Finset.sum_nonneg fun _ _ => mul_self_nonneg _

theorem residual_le_iff :
    (∀ other, residual X y coefficients ≤ residual X y other) ↔ Normal X y coefficients := by
  constructor
  · intro minimal
    rcases exists_normal X y with ⟨solution, normal⟩
    have bound := minimal solution
    rw [normal.residual_eq coefficients] at bound
    have none : (X *ᵥ (solution - coefficients)) ⬝ᵥ (X *ᵥ (solution - coefficients)) = 0 :=
      le_antisymm (by linarith) (dotProduct_self_nonneg _)
    have same : X *ᵥ solution = X *ᵥ coefficients := by
      have zero := dotProduct_self_eq_zero.mp none
      rw [mulVec_sub] at zero
      exact sub_eq_zero.mp zero
    rw [Normal, ← mulVec_mulVec, ← same, mulVec_mulVec]
    exact normal
  · intro normal other
    rw [normal.residual_eq other]
    exact le_add_of_nonneg_right (dotProduct_self_nonneg _)

end Residuals

/-! ## Full rank -/

section Rank

theorem injective_of_rank {A : Matrix Column Column K} (full : A.rank = Fintype.card Column) :
    Function.Injective A.mulVec := by
  have dimensions := A.mulVecLin.finrank_range_add_finrank_ker
  rw [Module.finrank_fintype_fun_eq_card] at dimensions
  have none : Module.finrank K (LinearMap.ker A.mulVecLin) = 0 := by
    have range : Module.finrank K (LinearMap.range A.mulVecLin) = Fintype.card Column := full
    omega
  exact LinearMap.ker_eq_bot.mp (Submodule.finrank_eq_zero.mp none)

end Rank

/-! ## Row operations -/

section Operations

omit [Fintype Column]

variable [DecidableEq Column]

/-- Divide the row of the pivot by its factor, and take it away from the others so many
times. -/
def clear (pivot : Column) (factors : Column → K) : (Column → K) →ₗ[K] Column → K where
  toFun values row :=
    if row = pivot then values pivot / factors pivot
    else values row - factors row * (values pivot / factors pivot)
  map_add' first second := by
    funext row
    dsimp only [Pi.add_apply]
    split
    · exact add_div _ _ _
    · ring
  map_smul' scale values := by
    funext row
    dsimp only [Pi.smul_apply, smul_eq_mul, RingHom.id_apply]
    split
    · exact mul_div_assoc _ _ _
    · ring

variable {pivot : Column} {factors : Column → K}

theorem clear_apply (pivot : Column) (factors values : Column → K) (row : Column) :
    clear pivot factors values row =
      if row = pivot then values pivot / factors pivot
      else values row - factors row * (values pivot / factors pivot) := rfl

theorem clear_injective (nonzero : factors pivot ≠ 0) :
    Function.Injective (clear pivot factors) := by
  rw [injective_iff_map_eq_zero]
  intro values none
  have atPivot : values pivot = 0 := by
    have entry := congrFun none pivot
    rw [clear_apply, if_pos rfl] at entry
    exact (div_eq_zero_iff.mp entry).resolve_right nonzero
  funext row
  have entry := congrFun none row
  rw [clear_apply, atPivot, zero_div, mul_zero, sub_zero] at entry
  split at entry
  · next same => exact same ▸ atPivot
  · exact entry

theorem clear_factors (nonzero : factors pivot ≠ 0) :
    clear pivot factors factors = Pi.single pivot 1 := by
  funext row
  rw [clear_apply, div_self nonzero, mul_one, sub_self]
  by_cases same : row = pivot
  · rw [if_pos same, same, Pi.single_eq_same]
  · rw [if_neg same, Pi.single_eq_of_ne same]

theorem clear_single {other : Column} (different : other ≠ pivot) :
    clear pivot factors (Pi.single other 1) = Pi.single other 1 := by
  have zero : (Pi.single other 1 : Column → K) pivot = 0 := Pi.single_eq_of_ne different.symm 1
  funext row
  rw [clear_apply, zero, zero_div, mul_zero, sub_zero]
  split
  · next same => rw [same, zero]
  · rfl

end Operations

end FunDB.LeastSquares
