import FunDB.Executor.FilterSoundness
import FunDB.Optimizer.Preservation

/-! # The order of numbers in a filter

Orders compare the floats of a column and a literal exactly; equality allows a
difference below the machine epsilon. The six comparisons fit together where
different floats are not that near, and follow the numbers themselves where the
conversion to floats keeps their order. -/

namespace FunDB.Executor

open Storage Sql Optimizer

/-! ## One pair of floats -/

section Floats

variable (round : ℚ → ℚ) (epsilon : ℚ) (lhs rhs : ℚ)

/-- The rounded difference is below epsilon. -/
def Near : Prop := |round (lhs - rhs)| < epsilon

instance Near.decidable : Decidable (Near round epsilon lhs rhs) :=
  inferInstanceAs (Decidable (_ < _))

/-- Exactly one of the three holds. -/
def ExactlyOne (first second third : Prop) : Prop :=
  (first ∧ ¬ second ∧ ¬ third) ∨ (¬ first ∧ second ∧ ¬ third) ∨ (¬ first ∧ ¬ second ∧ third)

variable {round epsilon lhs rhs}

theorem compareFloat_eq (round : ℚ → ℚ) (epsilon lhs rhs : ℚ) :
    compareFloat round epsilon lhs .eq rhs = decide (Near round epsilon lhs rhs) := rfl

theorem compareFloat_ne (round : ℚ → ℚ) (epsilon lhs rhs : ℚ) :
    compareFloat round epsilon lhs .ne rhs = !compareFloat round epsilon lhs .eq rhs := by
  simp [compareFloat, ← not_lt]

/-- Less and equal, or equal and greater, come true together only for different
floats that are near. -/
theorem exactlyOne_iff (same : lhs = rhs → Near round epsilon lhs rhs) :
    ExactlyOne (compareFloat round epsilon lhs .lt rhs = true)
        (compareFloat round epsilon lhs .eq rhs = true)
        (compareFloat round epsilon lhs .gt rhs = true) ↔
      (Near round epsilon lhs rhs → lhs = rhs) := by
  rw [compareFloat_eq]
  simp only [ExactlyOne, compareFloat, decide_eq_true_eq]
  rcases lt_trichotomy lhs rhs with less | equal | greater
  · simp [less, less.le, less.ne]
  · subst equal
    simp [same rfl]
  · simp [greater, greater.le, greater.ne']

/-- The greater float of two that are near is equal to the other, but not less
or equal. -/
theorem compareFloat_le_iff (same : lhs = rhs → Near round epsilon lhs rhs) :
    compareFloat round epsilon lhs .le rhs =
        (compareFloat round epsilon lhs .lt rhs || compareFloat round epsilon lhs .eq rhs) ↔
      (Near round epsilon lhs rhs → lhs ≤ rhs) := by
  rw [compareFloat_eq]
  simp only [compareFloat]
  rcases lt_trichotomy lhs rhs with less | equal | greater
  · simp [less, less.le]
  · subst equal
    simp [same rfl]
  · simp [greater.not_ge, greater.not_gt]

theorem compare_eq_iff {left right other another : ℚ} :
    compare left right = compare other another ↔
      (left < right ↔ other < another) ∧ (left = right ↔ other = another) ∧
        (left > right ↔ other > another) := by
  rcases lt_trichotomy left right with less | equal | greater
  · rw [compare_lt_iff_lt.mpr less, eq_comm, compare_lt_iff_lt]
    simp only [less, less.ne, less.not_gt, true_iff, false_iff, gt_iff_lt]
    exact ⟨fun below => ⟨below, below.ne, below.not_gt⟩, fun all => all.1⟩
  · rw [compare_eq_iff_eq.mpr equal, eq_comm, compare_eq_iff_eq]
    simp only [equal, lt_irrefl, true_iff, false_iff, gt_iff_lt]
    exact ⟨fun level => ⟨level.not_lt, level, level.not_gt⟩, fun all => all.2.1⟩
  · rw [compare_gt_iff_gt.mpr greater, eq_comm, compare_gt_iff_gt]
    simp only [greater, greater.ne', greater.not_gt, true_iff, false_iff, gt_iff_lt]
    exact ⟨fun above => ⟨above.not_gt, above.ne', above⟩, fun all => all.2.2⟩

/-- The comparisons of the floats are those of two numbers exactly when the
numbers are in the order of the floats and different floats are not near. -/
theorem compareFloat_eq_compareNumbers_iff (same : lhs = rhs → Near round epsilon lhs rhs)
    {value given : ℚ} :
    (∀ op, isComparison op = true →
        compareFloat round epsilon lhs op rhs = compareNumbers value op given) ↔
      compare lhs rhs = compare value given ∧ (Near round epsilon lhs rhs → lhs = rhs) := by
  rw [compare_eq_iff]
  constructor
  · intro agree
    have less := agree .lt rfl
    have equal := agree .eq rfl
    have greater := agree .gt rfl
    rw [compareFloat_eq] at equal
    simp only [compareFloat, compareNumbers, decide_eq_decide] at less equal greater
    have level : lhs = rhs ↔ value = given := by
      constructor
      · exact fun both => equal.mp (same both)
      · intro both
        apply le_antisymm
        · exact not_lt.mp fun above => (greater.mp above).ne' both
        · exact not_lt.mp fun below => (less.mp below).ne both
    exact ⟨⟨less, level, greater⟩, fun near => level.mpr (equal.mp near)⟩
  · intro ordered op comparison
    rcases ordered with ⟨⟨less, level, greater⟩, apart⟩
    have equal : Near round epsilon lhs rhs ↔ value = given :=
      ⟨fun near => level.mp (apart near), fun both => same (level.mpr both)⟩
    cases op with
    | eq => exact decide_eq_decide.mpr equal
    | ne =>
        rw [compareFloat_ne, compareFloat_eq]
        simp [compareNumbers, equal]
    | lt => exact decide_eq_decide.mpr less
    | le => exact decide_eq_decide.mpr (by rw [← not_lt, ← not_lt]; exact not_congr greater)
    | gt => exact decide_eq_decide.mpr greater
    | ge =>
        have notLess : lhs ≥ rhs ↔ value ≥ given := by
          rw [ge_iff_le, ge_iff_le, ← not_lt, ← not_lt]
          exact not_congr less
        exact decide_eq_decide.mpr notLess
    | _ => cases comparison

/-- What the six comparisons of a column and a literal come to, where `lhs` and
`rhs` are their floats and `value` and `given` the numbers themselves. -/
structure NumericLaws (test : BinaryOp → Bool) (near : Prop) (lhs rhs value given : ℚ) :
    Prop where
  less : test .lt = true ↔ lhs < rhs
  lessEqual : test .le = true ↔ lhs ≤ rhs
  greater : test .gt = true ↔ lhs > rhs
  greaterEqual : test .ge = true ↔ lhs ≥ rhs
  equal : test .eq = true ↔ near
  notEqual : test .ne = !test .eq
  exactlyOne : ExactlyOne (test .lt = true) (test .eq = true) (test .gt = true) ↔
    (near → lhs = rhs)
  lessOrEqual : test .le = (test .lt || test .eq) ↔ (near → lhs ≤ rhs)
  asNumbers : (∀ op, isComparison op = true → test op = compareNumbers value op given) ↔
    compare lhs rhs = compare value given ∧ (near → lhs = rhs)

theorem numericLaws_compareFloat (same : lhs = rhs → Near round epsilon lhs rhs)
    (value given : ℚ) :
    NumericLaws (fun op => compareFloat round epsilon lhs op rhs) (Near round epsilon lhs rhs)
      lhs rhs value given where
  less := decide_eq_true_iff
  lessEqual := decide_eq_true_iff
  greater := decide_eq_true_iff
  greaterEqual := decide_eq_true_iff
  equal := decide_eq_true_iff
  notEqual := compareFloat_ne round epsilon lhs rhs
  exactlyOne := exactlyOne_iff same
  lessOrEqual := compareFloat_le_iff same
  asNumbers := compareFloat_eq_compareNumbers_iff same

theorem NumericLaws.congr {test other : BinaryOp → Bool} {near : Prop} {value given : ℚ}
    (laws : NumericLaws other near lhs rhs value given)
    (agree : ∀ op, isComparison op = true → test op = other op) :
    NumericLaws test near lhs rhs value given where
  less := by rw [agree .lt rfl, laws.less]
  lessEqual := by rw [agree .le rfl, laws.lessEqual]
  greater := by rw [agree .gt rfl, laws.greater]
  greaterEqual := by rw [agree .ge rfl, laws.greaterEqual]
  equal := by rw [agree .eq rfl, laws.equal]
  notEqual := by rw [agree .ne rfl, agree .eq rfl, laws.notEqual]
  exactlyOne := by rw [agree .lt rfl, agree .eq rfl, agree .gt rfl, laws.exactlyOne]
  lessOrEqual := by rw [agree .le rfl, agree .lt rfl, agree .eq rfl, laws.lessOrEqual]
  asNumbers := by
    rw [← laws.asNumbers]
    apply forall_congr'
    intro op
    apply forall_congr'
    intro comparison
    rw [agree op comparison]

end Floats

/-! ## Columns and literals -/

namespace Environment

variable (env : Environment)

/-- The number in a column. -/
def columnNumber (record : FunRecord) (col : String) : Option ℚ :=
  numberOf (columnValue record ((env.fromSlice record.data).getD []) col)

def literalNumber (literal : Literal) : Option ℚ :=
  numberOf (literalValue literal)

/-- The float that the filter compares for a column. -/
def columnFloat (record : FunRecord) (col : String) : Option ℚ :=
  if col = "_confidence" then some record.confidence
  else if col = "_tenant" then some record.tenant
  else if col = "_collection" then none
  else
    match env.fromSlice record.data with
    | none => none
    | some fields => (fieldOf fields col).bind env.storedFloat

def literalFloat (col : String) (literal : Literal) : Option ℚ :=
  (env.extractFloat (.literal literal)).map fun given =>
    if col = "_confidence" then env.roundF32 given else given

/-- Two floats of the column are taken for equal. -/
def NearIn (col : String) (lhs rhs : ℚ) : Prop :=
  if col = "_confidence" then Near env.roundF32 epsilonF32 lhs rhs
  else Near env.roundF64 epsilonF64 lhs rhs

variable {env} {record : FunRecord} {col : String} {literal : Literal}

theorem exists_columnFloat {value : ℚ} (number : env.columnNumber record col = some value) :
    ∃ lhs, env.columnFloat record col = some lhs := by
  unfold columnFloat
  split
  · exact ⟨_, rfl⟩
  split
  · exact ⟨_, rfl⟩
  rename_i notConfidence notTenant
  split
  · rename_i isCollection
    subst isCollection
    cases number
  rename_i notCollection
  rw [columnNumber, columnValue, if_neg notCollection, if_neg notTenant,
    if_neg notConfidence] at number
  cases readable : env.fromSlice record.data with
  | none =>
      rw [readable] at number
      cases number
  | some fields =>
      rw [readable, Option.getD_some] at number
      dsimp only
      cases found : fieldOf fields col with
      | none =>
          rw [found] at number
          cases number
      | some field =>
          rw [found, Option.getD_some] at number
          cases field with
          | int value => exact ⟨_, rfl⟩
          | float value => exact ⟨_, rfl⟩
          | _ => cases number

theorem exists_literalFloat {given : ℚ} (number : literalNumber literal = some given)
    (env : Environment) (col : String) : ∃ rhs, env.literalFloat col literal = some rhs := by
  cases literal with
  | int value => exact ⟨_, rfl⟩
  | float value => exact ⟨_, rfl⟩
  | _ => cases number

theorem evalExpr_comparison {op : BinaryOp} (comparison : isComparison op = true)
    {left right : Expr} :
    env.evalExpr (.binaryOp op left right) record = env.evalBinary op left right record := by
  apply evalExpr_binaryOp
  · rintro rfl
    cases comparison
  · rintro rfl
    cases comparison

/-- A numeric column and a numeric literal are compared as floats. -/
theorem evalColumnVsLiteral_numbers {lhs rhs : ℚ} (isColumn : env.columnFloat record col = some lhs)
    (isLiteral : env.literalFloat col literal = some rhs) (op : BinaryOp) :
    env.evalColumnVsLiteral col op (.literal literal) record =
      if col = "_confidence" then env.compareF32 lhs op rhs else env.compareF64 lhs op rhs := by
  rcases Option.map_eq_some_iff.mp isLiteral with ⟨given, extracted, shape⟩
  unfold columnFloat at isColumn
  split at isColumn
  · rename_i isConfidence
    subst isConfidence
    rw [if_pos rfl] at shape
    cases isColumn
    subst shape
    simp [evalColumnVsLiteral, extracted]
  rename_i notConfidence
  rw [if_neg notConfidence] at shape
  subst shape
  rw [if_neg notConfidence]
  split at isColumn
  · rename_i isTenant
    subst isTenant
    cases isColumn
    simp [evalColumnVsLiteral, extracted]
  rename_i notTenant
  split at isColumn
  · cases isColumn
  rename_i notCollection
  split at isColumn
  · cases isColumn
  rename_i fields readable
  rcases Option.bind_eq_some_iff.mp isColumn with ⟨field, found, stored⟩
  simp only [evalColumnVsLiteral, notConfidence, notTenant, notCollection, if_false, readable,
    found]
  exact compareField_of_numbers stored extracted

theorem nearIn_of_eq (zeroF32 : env.roundF32 0 = 0) (zeroF64 : env.roundF64 0 = 0) {lhs rhs : ℚ}
    (same : lhs = rhs) : env.NearIn col lhs rhs := by
  subst same
  unfold NearIn Near
  rw [sub_self, zeroF32, zeroF64, abs_zero]
  split
  · exact div_pos one_pos (by norm_num)
  · exact div_pos one_pos (by norm_num)

/-- For every record, numeric column and numeric literal the six comparisons obey
the laws of floats with an equality that is near, and the literal may stand on
the left of every column but the confidence. -/
theorem numeric_comparisons (env : Environment) (zeroF32 : env.roundF32 0 = 0)
    (zeroF64 : env.roundF64 0 = 0) (record : FunRecord) (col : String) (literal : Literal)
    (value given : ℚ) (isValue : env.columnNumber record col = some value)
    (isGiven : literalNumber literal = some given) :
    ∃ lhs rhs, env.columnFloat record col = some lhs ∧ env.literalFloat col literal = some rhs ∧
      NumericLaws
        (fun op => env.evalExpr (.binaryOp op (.column col) (.literal literal)) record)
        (env.NearIn col lhs rhs) lhs rhs value given ∧
      (col ≠ "_confidence" → ∀ op, isComparison op = true →
        env.evalExpr (.binaryOp op (.literal literal) (.column col)) record =
          env.evalExpr (.binaryOp (flipOp op) (.column col) (.literal literal)) record) := by
  rcases exists_columnFloat isValue with ⟨lhs, isColumn⟩
  rcases exists_literalFloat isGiven env col with ⟨rhs, isLiteral⟩
  refine ⟨lhs, rhs, isColumn, isLiteral, ?_, ?_⟩
  · have same : lhs = rhs → env.NearIn col lhs rhs := nearIn_of_eq zeroF32 zeroF64
    unfold NearIn at same ⊢
    by_cases isConfidence : col = "_confidence"
    · simp only [isConfidence, if_true] at same ⊢
      apply (numericLaws_compareFloat same value given).congr
      intro op comparison
      rw [evalExpr_comparison comparison, evalBinary_column, ← isConfidence,
        evalColumnVsLiteral_numbers isColumn isLiteral, if_pos isConfidence]
      rfl
    · simp only [isConfidence, if_false] at same ⊢
      apply (numericLaws_compareFloat same value given).congr
      intro op comparison
      rw [evalExpr_comparison comparison, evalBinary_column,
        evalColumnVsLiteral_numbers isColumn isLiteral, if_neg isConfidence]
      rfl
  · intro notConfidence op comparison
    have flipped : isComparison (flipOp op) = true := (isComparison_flipOp op).trans comparison
    rw [evalExpr_comparison comparison, evalExpr_comparison flipped, evalBinary_column,
      evalBinary_swapped_of_ne (fun _ => Expr.noConfusion) notConfidence]

theorem numeric_comparisons_tenant :
    ∃ lhs rhs, plainEnvironment.columnFloat (makeRecord []) "_tenant" = some lhs ∧
      plainEnvironment.literalFloat "_tenant" (.int 5) = some rhs ∧
      NumericLaws
        (fun op => plainEnvironment.evalExpr
          (.binaryOp op (.column "_tenant") (.literal (.int 5))) (makeRecord []))
        (plainEnvironment.NearIn "_tenant" lhs rhs) lhs rhs 0 5 ∧
      ("_tenant" ≠ "_confidence" → ∀ op, isComparison op = true →
        plainEnvironment.evalExpr (.binaryOp op (.literal (.int 5)) (.column "_tenant"))
            (makeRecord []) =
          plainEnvironment.evalExpr
            (.binaryOp (flipOp op) (.column "_tenant") (.literal (.int 5))) (makeRecord [])) :=
  numeric_comparisons plainEnvironment rfl rfl (makeRecord []) "_tenant" (.int 5) 0 5
    (by decide) (by decide)

/-- Zero is less than a very small number, and equal to it. -/
theorem less_and_equal :
    let literal := Expr.literal (.float (1 / 2 ^ 60))
    let test := fun op =>
      plainEnvironment.evalExpr (.binaryOp op (.column "_tenant") literal) (makeRecord [])
    ¬ ExactlyOne (test .lt = true) (test .eq = true) (test .gt = true) := by
  intro literal test exactly
  have less : test .lt = true := by decide +kernel
  have equal : test .eq = true := by decide +kernel
  simp [ExactlyOne, less, equal] at exactly

end Environment

end FunDB.Executor
