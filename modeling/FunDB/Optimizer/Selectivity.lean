import FunDB.Optimizer.Cost
import Mathlib.Algebra.Order.Field.Basic
import Mathlib.Data.List.GetD
import Mathlib.Tactic.Linarith
import Mathlib.Tactic.Positivity

/-! # Selectivities as probabilities -/

namespace FunDB.Optimizer.Cost

open Sql

/-! ## Fractions of a sum -/

def IsFraction (value : ℚ) : Prop :=
  0 ≤ value ∧ value ≤ 1

theorem isFraction_div {part whole : Nat} (within : part ≤ whole) :
    IsFraction (part / whole : ℚ) := by
  constructor
  · positivity
  · apply div_le_one_of_le₀
    · exact_mod_cast within
    · positivity

theorem isFraction_clampUnit (value : ℚ) : IsFraction (clampUnit value) := by
  unfold clampUnit
  exact ⟨le_max_left _ _, max_le zero_le_one (min_le_right _ _)⟩

theorem clampUnit_eq_self {value : ℚ} (fraction : IsFraction value) : clampUnit value = value := by
  rw [clampUnit, min_eq_left fraction.2, max_eq_right fraction.1]

theorem getD_le_sum (buckets : List Nat) (index : Nat) : buckets.getD index 0 ≤ buckets.sum := by
  rcases Nat.lt_or_ge index buckets.length with inside | outside
  · rw [List.getD_eq_getElem _ _ inside]
    exact List.le_sum_of_mem (List.getElem_mem inside)
  · rw [List.getD_eq_default _ _ outside]
    exact Nat.zero_le _

theorem sum_comparedBuckets_le (op : BinaryOp) (cutoff : Nat) (hist : Vector Nat 100) :
    (comparedBuckets op cutoff hist).sum ≤ hist.toList.sum := by
  have taken : ∀ count, (hist.toList.take count).sum ≤ hist.toList.sum := fun count =>
    (List.take_sublist count _).sum_le_sum fun _ _ => Nat.zero_le _
  have dropped : ∀ count, (hist.toList.drop count).sum ≤ hist.toList.sum := fun count =>
    (List.drop_sublist count _).sum_le_sum fun _ _ => Nat.zero_le _
  cases op with
  | lt => exact taken _
  | le => exact taken _
  | ge => exact dropped _
  | gt => exact dropped _
  | _ => exact Nat.zero_le _

/-! ## Every estimate is a fraction -/

theorem Histogram.isFraction_fraction (hist : Histogram) (value : ℚ) :
    IsFraction (hist.fraction value) := by
  unfold Histogram.fraction
  dsimp only
  split_ifs
  · constructor <;> norm_num
  · have atLeastOne : 1 ≤ max hist.buckets.length 1 := le_max_right _ _
    simpa using isFraction_div atLeastOne
  · exact isFraction_div (getD_le_sum _ _)

variable (stats : Statistics) (collection : String)

theorem isFraction_equalitySelectivity (col : String) (value : ℚ) :
    IsFraction (equalitySelectivity stats collection col value) := by
  unfold equalitySelectivity
  cases stats.columnHistograms.lookup (collection, col) with
  | none => constructor <;> norm_num
  | some hist => exact hist.isFraction_fraction value

theorem isFraction_confidenceSelectivity (op : BinaryOp) (threshold : ℚ) :
    IsFraction (confidenceSelectivity stats collection op threshold) := by
  unfold confidenceSelectivity
  cases stats.confidenceHistograms.lookup collection with
  | none => exact isFraction_clampUnit threshold
  | some hist =>
      dsimp only
      split_ifs
      · exact isFraction_clampUnit threshold
      · exact isFraction_div (sum_comparedBuckets_le _ _ _)

theorem isFraction_half : IsFraction (1 / 2) := by
  constructor <;> norm_num

theorem isFraction_comparisonSelectivity (op : BinaryOp) (left right : Expr) :
    IsFraction (comparisonSelectivity stats collection op left right) := by
  unfold comparisonSelectivity
  split
  · split_ifs
    · split
      · exact isFraction_confidenceSelectivity stats collection op _
      · exact isFraction_confidenceSelectivity stats collection op _
      · exact isFraction_half
    · exact isFraction_half
  · exact isFraction_half

theorem isFraction_estimateSelectivity (predicate : Expr) :
    IsFraction (estimateSelectivity stats collection predicate) := by
  fun_induction estimateSelectivity stats collection predicate with
  | case1 => exact isFraction_equalitySelectivity stats collection _ _
  | case2 => exact isFraction_equalitySelectivity stats collection _ _
  | case3 => constructor <;> norm_num
  | case4 => exact isFraction_comparisonSelectivity stats collection .lt _ _
  | case5 => exact isFraction_comparisonSelectivity stats collection .gt _ _
  | case6 => exact isFraction_comparisonSelectivity stats collection .le _ _
  | case7 => exact isFraction_comparisonSelectivity stats collection .ge _ _
  | case8 left right leftFraction rightFraction =>
      exact ⟨mul_nonneg leftFraction.1 rightFraction.1,
        mul_le_one₀ leftFraction.2 rightFraction.1 rightFraction.2⟩
  | case9 left right leftFraction rightFraction =>
      exact ⟨le_min (add_nonneg leftFraction.1 rightFraction.1) zero_le_one, min_le_right _ _⟩
  | case10 => exact ⟨zero_le_one, le_refl 1⟩
  | case11 => exact ⟨le_refl 0, zero_le_one⟩
  | case12 => exact isFraction_half

/-! ## Connectives -/

theorem estimateSelectivity_and_le (left right : Expr) :
    estimateSelectivity stats collection (.binaryOp .and left right) ≤
        estimateSelectivity stats collection left ∧
      estimateSelectivity stats collection (.binaryOp .and left right) ≤
        estimateSelectivity stats collection right := by
  have leftFraction := isFraction_estimateSelectivity stats collection left
  have rightFraction := isFraction_estimateSelectivity stats collection right
  rw [estimateSelectivity]
  exact ⟨mul_le_of_le_one_right leftFraction.1 rightFraction.2,
    mul_le_of_le_one_left rightFraction.1 leftFraction.2⟩

theorem le_estimateSelectivity_or (left right : Expr) :
    estimateSelectivity stats collection left ≤
        estimateSelectivity stats collection (.binaryOp .or left right) ∧
      estimateSelectivity stats collection right ≤
        estimateSelectivity stats collection (.binaryOp .or left right) := by
  have leftFraction := isFraction_estimateSelectivity stats collection left
  have rightFraction := isFraction_estimateSelectivity stats collection right
  rw [estimateSelectivity]
  exact ⟨le_min (le_add_of_nonneg_right rightFraction.1) leftFraction.2,
    le_min (le_add_of_nonneg_left leftFraction.1) rightFraction.2⟩

/-! ## Filters -/

theorem saturate_mul_le (rows : Nat) {selectivity : ℚ} (fraction : IsFraction selectivity)
    (largest : Nat) : saturate largest (rows * selectivity) ≤ rows := by
  have product : (rows : ℚ) * selectivity ≤ rows :=
    mul_le_of_le_one_right (Nat.cast_nonneg rows) fraction.2
  have floor : ⌊(rows : ℚ) * selectivity⌋ ≤ rows := by
    have step := Int.floor_le_floor product
    rwa [Int.floor_natCast] at step
  rw [saturate]
  exact (min_le_left _ _).trans (Int.toNat_le.mpr floor)

theorem estimatedRows_filter_le (platform : CostPlatform) (input : LogicalPlan)
    (predicate : Expr) :
    (optimize stats platform (.filter input predicate)).estimatedRows ≤
      (optimize stats platform input).estimatedRows :=
  saturate_mul_le _ (isFraction_estimateSelectivity stats _ predicate) _

/-! ## Complements -/

/-- The confidence of the collection has been counted. -/
def ConfidenceCounted : Prop :=
  ∃ hist, stats.confidenceHistograms.lookup collection = some hist ∧ hist.toList.sum ≠ 0

/-- A literal that stands for a threshold. -/
def IsThreshold (threshold : ℚ) (value : Literal) : Prop :=
  value = .float threshold ∨ ∃ whole : Int, value = .int whole ∧ (whole : ℚ) = threshold

def confidencePredicate (op : BinaryOp) (value : Literal) : Expr :=
  .binaryOp op (.column "_confidence") (.literal value)

theorem comparisonSelectivity_confidence {threshold : ℚ} {value : Literal}
    (literal : IsThreshold threshold value) (op : BinaryOp) :
    comparisonSelectivity stats collection op (.column "_confidence") (.literal value) =
      confidenceSelectivity stats collection op threshold := by
  rcases literal with same | ⟨whole, same, equal⟩
  · rw [same]
    rfl
  · rw [same, ← equal]
    rfl

theorem sum_take_add_sum_drop (buckets : List Nat) (cut : Nat) :
    (buckets.take cut).sum + (buckets.drop cut).sum = buckets.sum := by
  rw [← List.sum_append, List.take_append_drop]

/-- The two parts of a histogram are cut at the same bucket. -/
theorem confidenceSelectivity_add_of_counted {stats : Statistics} {collection : String}
    (counted : ConfidenceCounted stats collection) (threshold : ℚ) :
    confidenceSelectivity stats collection .lt threshold +
        confidenceSelectivity stats collection .ge threshold = 1 ∧
      confidenceSelectivity stats collection .le threshold +
        confidenceSelectivity stats collection .gt threshold = 1 := by
  rcases counted with ⟨hist, found, filled⟩
  have nonzero : (hist.toList.sum : ℚ) ≠ 0 := Nat.cast_ne_zero.mpr filled
  have parts : ∀ cut, ((hist.toList.take cut).sum : ℚ) / hist.toList.sum +
      ((hist.toList.drop cut).sum : ℚ) / hist.toList.sum = 1 := by
    intro cut
    rw [← add_div, ← Nat.cast_add, sum_take_add_sum_drop, div_self nonzero]
  simp only [confidenceSelectivity, found, filled, if_false, comparedBuckets]
  exact ⟨parts _, parts _⟩

/-- Where nothing was counted, all four comparisons have the threshold as their
estimate. -/
theorem confidenceSelectivity_of_not_counted {stats : Statistics} {collection : String}
    (uncounted : ¬ConfidenceCounted stats collection) (op : BinaryOp) (threshold : ℚ) :
    confidenceSelectivity stats collection op threshold = clampUnit threshold := by
  unfold confidenceSelectivity
  cases found : stats.confidenceHistograms.lookup collection with
  | none => rfl
  | some hist =>
      have empty : hist.toList.sum = 0 := by
        by_contra filled
        exact uncounted ⟨hist, found, filled⟩
      simp only [empty, if_true]

/-- Selectivities are fractions, connectives move them the right way, a comparison of
confidence and its complement share the whole, and a filter adds no rows. -/
structure ProbabilityLike (threshold : ℚ) : Prop where
  fraction : ∀ predicate, IsFraction (estimateSelectivity stats collection predicate)
  conjunct : ∀ left right,
    estimateSelectivity stats collection (.binaryOp .and left right) ≤
        estimateSelectivity stats collection left ∧
      estimateSelectivity stats collection (.binaryOp .and left right) ≤
        estimateSelectivity stats collection right
  disjunct : ∀ left right,
    estimateSelectivity stats collection left ≤
        estimateSelectivity stats collection (.binaryOp .or left right) ∧
      estimateSelectivity stats collection right ≤
        estimateSelectivity stats collection (.binaryOp .or left right)
  complement : ∀ value, IsThreshold threshold value →
    estimateSelectivity stats collection (confidencePredicate .lt value) +
        estimateSelectivity stats collection (confidencePredicate .ge value) = 1 ∧
      estimateSelectivity stats collection (confidencePredicate .le value) +
        estimateSelectivity stats collection (confidencePredicate .gt value) = 1
  filter : ∀ platform input predicate,
    (optimize stats platform (.filter input predicate)).estimatedRows ≤
      (optimize stats platform input).estimatedRows

/-- Estimates behave like probabilities exactly where the confidence has been
counted, and at one half. -/
theorem probabilityLike_iff {threshold : ℚ} (fraction : IsFraction threshold) :
    ProbabilityLike stats collection threshold ↔
      ConfidenceCounted stats collection ∨ threshold = 1 / 2 := by
  constructor
  · intro like
    by_contra given
    rcases not_or.mp given with ⟨uncounted, different⟩
    have whole := (like.complement (.float threshold) (.inl rfl)).1
    simp only [confidencePredicate, estimateSelectivity,
      comparisonSelectivity_confidence stats collection (.inl rfl : IsThreshold threshold _),
      confidenceSelectivity_of_not_counted uncounted, clampUnit_eq_self fraction] at whole
    apply different
    linarith
  · intro given
    refine ⟨isFraction_estimateSelectivity stats collection,
      estimateSelectivity_and_le stats collection, le_estimateSelectivity_or stats collection, ?_,
      estimatedRows_filter_le stats⟩
    intro value literal
    simp only [confidencePredicate, estimateSelectivity,
      comparisonSelectivity_confidence stats collection literal]
    by_cases counted : ConfidenceCounted stats collection
    · exact confidenceSelectivity_add_of_counted counted threshold
    · have half : threshold = 1 / 2 := given.resolve_left counted
      simp only [confidenceSelectivity_of_not_counted counted, clampUnit_eq_self fraction]
      constructor <;> linarith

theorem probabilityLike_iff_quarter :
    ProbabilityLike noStatistics "docs" (1 / 4) ↔
      ConfidenceCounted noStatistics "docs" ∨ (1 / 4 : ℚ) = 1 / 2 := by
  apply probabilityLike_iff
  constructor <;> norm_num

/-- Without a histogram, `_confidence < 0.25` and `_confidence >= 0.25` are both
estimated as a quarter. -/
theorem complements_not_whole :
    estimateSelectivity noStatistics "docs" (confidencePredicate .lt (.float (1 / 4))) = 1 / 4 ∧
      estimateSelectivity noStatistics "docs" (confidencePredicate .ge (.float (1 / 4))) =
        1 / 4 := by
  decide +kernel

end FunDB.Optimizer.Cost
