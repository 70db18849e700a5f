import FunDB.Optimizer.FoldedFilters
import FunDB.Foundation.ThreeValued

/-! # Rows that a filter may not reject

A predicate is true, false or unknown of a record, once the sub-expressions that
the filter cannot evaluate have values. Where the filter takes such a
sub-expression for true, a NOT above it rejects rows of which the predicate can
be true. -/

namespace FunDB.Executor

open Storage Sql Optimizer ThreeValued

/-! ## The truth of a predicate -/

/-- Values of the sub-expressions that are not evaluated. -/
abbrev Valuation := Expr → DataValue

def isComparison : BinaryOp → Bool
  | .eq | .ne | .lt | .le | .gt | .ge => true
  | _ => false

def isOrder : BinaryOp → Bool
  | .lt | .le | .gt | .ge => true
  | _ => false

/-- The connectives of a predicate over everything else. -/
def connectives : Expr → Formula Expr
  | .binaryOp .and left right => .and (connectives left) (connectives right)
  | .binaryOp .or left right => .or (connectives left) (connectives right)
  | .unaryOp .not operand => .not (connectives operand)
  | leaf => .leaf leaf

/-- A vector has no value that compares. -/
def literalValue : Literal → DataValue
  | .int value => .int value
  | .float value => .float value
  | .string value => .str value
  | .bool value => .bool value
  | .null => .null
  | .vector _ => .null

/-- A column that the record does not have is NULL. -/
def columnValue (record : FunRecord) (fields : List (String × DataValue)) (col : String) :
    DataValue :=
  if col = "_collection" then .str record.collection
  else if col = "_tenant" then .int record.tenant
  else if col = "_confidence" then .float record.confidence
  else (fieldOf fields col).getD .null

def operandValue (record : FunRecord) (fields : List (String × DataValue)) (values : Valuation) :
    Expr → DataValue
  | .column col => columnValue record fields col
  | .literal literal => literalValue literal
  | other => values other

def numberOf : DataValue → Option ℚ
  | .int value => some value
  | .float value => some value
  | _ => none

/-- Numbers compare as they are, without rounding. -/
def compareNumbers (lhs : ℚ) (op : BinaryOp) (rhs : ℚ) : Bool :=
  match op with
  | .eq => lhs = rhs
  | .ne => lhs ≠ rhs
  | .lt => lhs < rhs
  | .le => lhs ≤ rhs
  | .gt => lhs > rhs
  | .ge => lhs ≥ rhs
  | _ => true

/-- Of the boolean values, false is the lesser one. -/
def compareBool (lhs : Bool) (op : BinaryOp) (rhs : Bool) : Bool :=
  match op with
  | .eq => lhs = rhs
  | .ne => lhs ≠ rhs
  | .lt => !lhs && rhs
  | .le => !lhs || rhs
  | .gt => lhs && !rhs
  | .ge => lhs || !rhs
  | _ => true

/-- Compare two values. NULL, and values of different types, compare as unknown. -/
def compareValues (left : DataValue) (op : BinaryOp) (right : DataValue) : Option Bool :=
  match left, right with
  | .str left, .str right => some (compareStr left op right)
  | .bool left, .bool right => some (compareBool left op right)
  | left, right =>
      match numberOf left, numberOf right with
      | some left, some right => some (compareNumbers left op right)
      | _, _ => none

def valueTruth : DataValue → Option Bool
  | .bool value => some value
  | _ => none

section Truth

variable (record : FunRecord) (fields : List (String × DataValue)) (values : Valuation)

/-- The truth of a part without connectives. A comparison of two columns is one
of the sub-expressions that can have any value. -/
def leafTruth : Expr → Option Bool
  | .literal literal => valueTruth (literalValue literal)
  | .column col => valueTruth (columnValue record fields col)
  | .binaryOp op (.column left) (.column right) =>
      valueTruth (values (.binaryOp op (.column left) (.column right)))
  | .binaryOp op left right =>
      if isComparison op then
        compareValues (operandValue record fields values left) op
          (operandValue record fields values right)
      else
        valueTruth (values (.binaryOp op left right))
  | other => valueTruth (values other)

def truth (predicate : Expr) : Option Bool :=
  (connectives predicate).truth (leafTruth record fields values)

end Truth

theorem connectives_of_no_connective {leaf : Expr}
    (notAnd : ∀ left right, leaf ≠ .binaryOp .and left right)
    (notOr : ∀ left right, leaf ≠ .binaryOp .or left right)
    (notNot : ∀ operand, leaf ≠ .unaryOp .not operand) : connectives leaf = .leaf leaf := by
  rw [connectives]
  · exact notAnd
  · exact notOr
  · exact notNot

theorem Environment.decide_connectives (env : Environment) (predicate : Expr)
    (record : FunRecord) :
    (connectives predicate).decide (fun leaf => env.evalExpr leaf record) =
      env.evalExpr predicate record := by
  induction predicate using connectives.induct with
  | case1 left right leftInduction rightInduction =>
      rw [connectives, Formula.decide, leftInduction, rightInduction]
      rfl
  | case2 left right leftInduction rightInduction =>
      rw [connectives, Formula.decide, leftInduction, rightInduction]
      rfl
  | case3 operand induction =>
      rw [connectives, Formula.decide, induction]
      rfl
  | case4 leaf notAnd notOr notNot =>
      rw [connectives_of_no_connective notAnd notOr notNot]
      rfl

/-! ## How the filter handles a leaf -/

/-- The filter decides a leaf by its truth, or takes it for true or for false
whatever its truth is, or compares two numbers as floats. -/
inductive Handling where
  | evaluated
  | passed
  | rejected
  | measured (asFloats : Bool)
deriving DecidableEq, Repr

namespace Environment

variable (env : Environment)

/-- A number of the payload as a 64-bit float. -/
def storedFloat : DataValue → Option ℚ
  | .int value => some (env.roundF64 value)
  | .float value => some value
  | _ => none

def fieldHandling (op : BinaryOp) (field : DataValue) (literal : Literal) : Handling :=
  match env.storedFloat field, env.extractFloat (.literal literal) with
  | some stored, some given =>
      if isComparison op then .measured (env.compareF64 stored op given) else .passed
  | _, _ =>
      match field, literal with
      | .str _, .string _ => if isComparison op then .evaluated else .passed
      | .bool _, .bool _ => if op = .eq ∨ op = .ne then .evaluated else .passed
      | _, _ => .rejected

/-- A built-in number and a literal. Where the confidence stands on the right, the
operator is turned round but the operands stay where they are. -/
def builtInFloats (record : FunRecord) (col : String) (swapped : Bool) (op : BinaryOp)
    (given : ℚ) : Bool :=
  if col = "_confidence" then
    if swapped then env.compareF32 (env.roundF32 given) (flipOp op) record.confidence
    else env.compareF32 record.confidence op (env.roundF32 given)
  else
    env.compareF64 record.tenant (facingOp swapped op) given

def builtInHandling (record : FunRecord) (col : String) (swapped : Bool) (op : BinaryOp)
    (literal : Literal) : Handling :=
  if !isComparison op then .passed
  else
    match env.extractFloat (.literal literal) with
    | some given => .measured (env.builtInFloats record col swapped op given)
    | none => .evaluated

section Handling

variable (record : FunRecord) (fields : List (String × DataValue))

def comparisonHandling (op : BinaryOp) (left right : Expr) : Handling :=
  match compared left right with
  | .passes => .passed
  | .mismatched => .rejected
  | .compares col swapped literal =>
      if builtIn col then env.builtInHandling record col swapped op literal
      else
        match fieldOf fields col with
        | none => .rejected
        | some field => env.fieldHandling (facingOp swapped op) field literal

def handling : Expr → Handling
  | .literal (.bool _) => .evaluated
  | .literal .null => .rejected
  | .binaryOp op left right => env.comparisonHandling record fields op left right
  | _ => .passed

/-- A leaf that the filter takes for true cannot be false where that counts, and
one that it takes for false cannot be true where that counts. Numbers do not
compare as floats against what they are where that counts. -/
def Trustworthy (side : Bool) (leaf : Expr) : Prop :=
  match env.handling record fields leaf with
  | .evaluated => True
  | .passed => side = true → ∀ values, leafTruth record fields values leaf ≠ some false
  | .rejected => side = false → ∀ values, leafTruth record fields values leaf ≠ some true
  | .measured asFloats =>
      asFloats = side → ∀ values, leafTruth record fields values leaf ≠ some (!side)

/-- What a handling says about the decision of a leaf. -/
def Agrees (leaf : Expr) (decision : Bool) : Handling → Prop
  | .evaluated => ∀ values, leafTruth record fields values leaf = some decision
  | .passed => decision = true
  | .rejected => decision = false
  | .measured asFloats => decision = asFloats

end Handling

end Environment

/-! ## Swapped operands -/

theorem isComparison_flipOp (op : BinaryOp) : isComparison (flipOp op) = isComparison op := by
  cases op <;> rfl

theorem compareNumbers_flipOp (lhs : ℚ) (op : BinaryOp) (rhs : ℚ) :
    compareNumbers rhs (flipOp op) lhs = compareNumbers lhs op rhs := by
  cases op with
  | eq => simp only [compareNumbers, flipOp, eq_comm]
  | ne => simp only [compareNumbers, flipOp, ne_comm]
  | _ => rfl

theorem compareStr_flipOp (lhs : String) (op : BinaryOp) (rhs : String) :
    compareStr rhs (flipOp op) lhs = compareStr lhs op rhs := by
  cases op with
  | eq => simp only [compareStr, flipOp, eq_comm]
  | ne => simp only [compareStr, flipOp, ne_comm]
  | _ => rfl

theorem compareBool_flipOp (lhs : Bool) (op : BinaryOp) (rhs : Bool) :
    compareBool rhs (flipOp op) lhs = compareBool lhs op rhs := by
  cases op <;> cases lhs <;> cases rhs <;> rfl

theorem compareValues_flipOp (left : DataValue) (op : BinaryOp) (right : DataValue) :
    compareValues right (flipOp op) left = compareValues left op right := by
  cases left <;> cases right <;>
    simp only [compareValues, numberOf, compareStr_flipOp, compareBool_flipOp,
      compareNumbers_flipOp]

namespace Environment

variable {env : Environment} {record : FunRecord} {fields : List (String × DataValue)}
variable {op : BinaryOp} {left right : Expr} {col : String} {swapped : Bool} {literal : Literal}

theorem isComparison_facingOp : isComparison (facingOp swapped op) = isComparison op := by
  cases swapped with
  | false => rfl
  | true => exact isComparison_flipOp op

/-- A column is compared with a literal on either side of it. -/
theorem leafTruth_operands (compares : isComparison op = true)
    (isPair : (left, right) = operands col swapped literal) (values : Valuation) :
    leafTruth record fields values (.binaryOp op left right) =
      compareValues (columnValue record fields col) (facingOp swapped op)
        (literalValue literal) := by
  cases swapped with
  | false =>
      cases isPair
      rw [leafTruth, if_pos compares]
      · rfl
      · intro _ _ _ isColumn
        cases isColumn
  | true =>
      cases isPair
      rw [leafTruth, if_pos compares]
      · exact (compareValues_flipOp _ _ _).symm
      · intro _ _ isColumn
        cases isColumn

/-! ## Comparisons of a column with a literal -/

theorem compareFloat_of_not_comparison {op : BinaryOp} (other : ¬ isComparison op)
    (round : ℚ → ℚ) (epsilon lhs rhs : ℚ) : compareFloat round epsilon lhs op rhs = true := by
  cases op <;> first | rfl | exact absurd rfl other

theorem compareStr_of_not_comparison {op : BinaryOp} (other : ¬ isComparison op)
    (lhs rhs : String) : compareStr lhs op rhs = true := by
  cases op <;> first | rfl | exact absurd rfl other

theorem compareField_of_numbers {field : DataValue} {stored given : ℚ}
    (isStored : env.storedFloat field = some stored)
    (isGiven : env.extractFloat (.literal literal) = some given) :
    env.compareField field op (.literal literal) = env.compareF64 stored op given := by
  cases field with
  | int value =>
      cases isStored
      rw [compareField, isGiven]
  | float value =>
      cases isStored
      rw [compareField, isGiven]
  | _ => cases isStored

theorem payload_agrees (readable : env.fromSlice record.data = some fields)
    (taken : compared left right = .compares col swapped literal) (payload : builtIn col = false)
    {field : DataValue} (found : fieldOf fields col = some field) :
    Agrees record fields (.binaryOp op left right) (env.evalBinary op left right record)
      (env.fieldHandling (facingOp swapped op) field literal) := by
  have truthOf (compares : isComparison (facingOp swapped op) = true) (values : Valuation) :
      leafTruth record fields values (.binaryOp op left right) =
        compareValues field (facingOp swapped op) (literalValue literal) := by
    have notBuiltIn := mt (builtIn_iff col).mpr (by rw [payload]; exact Bool.false_ne_true)
    simp only [not_or] at notBuiltIn
    have value : columnValue record fields col = field := by
      rw [columnValue, if_neg notBuiltIn.1, if_neg notBuiltIn.2.1, if_neg notBuiltIn.2.2,
        found, Option.getD_some]
    rw [leafTruth_operands (isComparison_facingOp.symm.trans compares)
      (operands_of_compares taken).1, value]
  have decision : env.evalBinary op left right record =
      env.compareField field (facingOp swapped op) (.literal literal) := by
    rw [evalBinary_payload taken payload readable, found]
  rw [decision]
  generalize facingOp swapped op = facing at truthOf
  unfold fieldHandling
  split
  · next stored given isStored isGiven =>
      rw [compareField_of_numbers isStored isGiven]
      split
      · rfl
      · next arithmetic => exact compareFloat_of_not_comparison arithmetic _ _ _ _
  · next noNumbers =>
      split
      · split
        · next compares => exact truthOf compares
        · next arithmetic => exact compareStr_of_not_comparison arithmetic _ _
      · split
        · next equality =>
            intro values
            rcases equality with rfl | rfl
            · exact truthOf rfl values
            · exact truthOf rfl values
        · next other =>
            rw [not_or] at other
            cases facing with
            | eq => exact absurd rfl other.1
            | ne => exact absurd rfl other.2
            | _ => rfl
      · next notText notBool =>
          cases field <;> cases literal <;>
            first
            | rfl
            | exact (noNumbers _ _ rfl rfl).elim
            | exact (notText _ _ rfl rfl).elim
            | exact (notBool _ _ rfl rfl).elim

theorem comparedWith_of_compares (taken : compared left right = .compares col swapped literal) :
    comparedWith col swapped (.literal literal) = .compares col swapped literal := by
  have isPair := (operands_of_compares taken).1
  cases swapped <;> cases isPair <;> exact taken

theorem evalBinary_builtIn_number (taken : compared left right = .compares col swapped literal)
    (known : builtIn col = true) {given : ℚ}
    (number : env.extractFloat (.literal literal) = some given) :
    env.evalBinary op left right record = env.builtInFloats record col swapped op given := by
  have isPair := (operands_of_compares taken).1
  rcases (builtIn_iff col).mp known with rfl | rfl | rfl
  · have alone := comparedWith_of_compares taken
    cases literal with
    | int value => simp [comparedWith] at alone
    | float value => simp [comparedWith] at alone
    | _ => cases number
  · rw [evalBinary_operands isPair (by simp)]
    simp [evalColumnVsLiteral, number, builtInFloats]
  · cases swapped with
    | false =>
        cases isPair
        rw [evalBinary_column]
        simp [evalColumnVsLiteral, number, builtInFloats]
    | true =>
        cases isPair
        rw [evalBinary_swapped env op record (fun _ => Expr.noConfusion), number]
        rfl

/-- Without a number on the other side, the column is the collection's name. -/
theorem evalBinary_builtIn_text (op : BinaryOp) (record : FunRecord)
    (taken : compared left right = .compares col swapped literal) (known : builtIn col = true)
    (noNumber : env.extractFloat (.literal literal) = none) :
    ∃ text, literal = .string text ∧ col = "_collection" ∧
      env.evalBinary op left right record =
        compareStr record.collection (facingOp swapped op) text := by
  have isPair := (operands_of_compares taken).1
  have alone := comparedWith_of_compares taken
  cases literal with
  | string text =>
      rcases (builtIn_iff col).mp known with rfl | rfl | rfl
      · refine ⟨text, rfl, rfl, ?_⟩
        rw [evalBinary_operands isPair (by simp)]
        simp [evalColumnVsLiteral]
      · simp [comparedWith] at alone
      · simp [comparedWith] at alone
  | bool value => simp [comparedWith, known] at alone
  | null => simp [comparedWith, known] at alone
  | vector values => simp [comparedWith, known] at alone
  | int value => cases noNumber
  | float value => cases noNumber

theorem builtIn_agrees (taken : compared left right = .compares col swapped literal)
    (known : builtIn col = true) :
    Agrees record fields (.binaryOp op left right) (env.evalBinary op left right record)
      (env.builtInHandling record col swapped op literal) := by
  unfold builtInHandling
  cases number : env.extractFloat (.literal literal) with
  | some given =>
      rw [evalBinary_builtIn_number taken known number]
      split
      · next arithmetic =>
          have other : ¬ isComparison op := by simpa using arithmetic
          have turned : ¬ isComparison (flipOp op) := by rwa [isComparison_flipOp]
          rw [Agrees, builtInFloats]
          split
          · split
            · exact compareFloat_of_not_comparison turned _ _ _ _
            · exact compareFloat_of_not_comparison other _ _ _ _
          · exact compareFloat_of_not_comparison (by rwa [isComparison_facingOp]) _ _ _ _
      · rfl
  | none =>
      rcases evalBinary_builtIn_text op record taken known number with ⟨text, rfl, rfl, decision⟩
      rw [decision]
      split
      · next arithmetic =>
          have other : ¬ isComparison op := by simpa using arithmetic
          exact compareStr_of_not_comparison (by rwa [isComparison_facingOp]) _ _
      · next comparison =>
          intro values
          have compares : isComparison op = true := by simpa using comparison
          rw [leafTruth_operands compares (operands_of_compares taken).1]
          rfl

/-! ## The confidence behind a number -/

/-- Turned round, an order has the opposite result on different operands. -/
theorem compareFloat_flipOp_of_ne {op : BinaryOp} (order : isOrder op = true)
    (round : ℚ → ℚ) (epsilon : ℚ) {lhs rhs : ℚ} (different : lhs ≠ rhs) :
    compareFloat round epsilon lhs (flipOp op) rhs = !compareFloat round epsilon lhs op rhs := by
  rcases lt_or_gt_of_ne different with less | greater
  · cases op with
    | lt => simp [compareFloat, flipOp, less, less.le]
    | le => simp [compareFloat, flipOp, less, less.le]
    | gt => simp [compareFloat, flipOp, less, less.le]
    | ge => simp [compareFloat, flipOp, less, less.le]
    | _ => cases order
  · cases op with
    | lt => simp [compareFloat, flipOp, greater, greater.le]
    | le => simp [compareFloat, flipOp, greater, greater.le]
    | gt => simp [compareFloat, flipOp, greater, greater.le]
    | ge => simp [compareFloat, flipOp, greater, greater.le]
    | _ => cases order

/-- A number on the left of the confidence is compared the wrong way round. -/
theorem confidence_behind_number {given : ℚ} (order : isOrder op = true)
    (number : env.extractFloat (.literal literal) = some given)
    (different : env.roundF32 given ≠ record.confidence) :
    env.evalBinary op (.literal literal) (.column "_confidence") record =
      !env.compareF32 (env.roundF32 given) op record.confidence := by
  rw [evalBinary_swapped env op record (fun _ => Expr.noConfusion), number]
  exact compareFloat_flipOp_of_ne order _ _ different

/-! ## Leaves -/

theorem comparison_agrees (readable : env.fromSlice record.data = some fields) :
    Agrees record fields (.binaryOp op left right) (env.evalBinary op left right record)
      (env.comparisonHandling record fields op left right) := by
  unfold comparisonHandling
  cases taken : compared left right with
  | passes => exact evalBinary_of_passes taken
  | mismatched =>
      dsimp only
      rw [Agrees, evalBinary_of_mismatched taken, readable]
      rfl
  | compares col swapped literal =>
      dsimp only
      split
      · next known => exact builtIn_agrees taken known
      · next payload =>
          have unknown : builtIn col = false := Bool.eq_false_of_not_eq_true payload
          cases found : fieldOf fields col with
          | none =>
              dsimp only
              rw [Agrees, evalBinary_payload taken unknown readable, found]
          | some field => exact payload_agrees readable taken unknown found

variable {leaf : Expr}

theorem handling_agrees (readable : env.fromSlice record.data = some fields)
    (isLeaf : connectives leaf = .leaf leaf) :
    Agrees record fields leaf (env.evalExpr leaf record) (env.handling record fields leaf) := by
  cases leaf with
  | literal value =>
      cases value with
      | bool value =>
          intro values
          rfl
      | _ => rfl
  | binaryOp op left right =>
      rw [env.evalExpr_binaryOp]
      · exact comparison_agrees readable
      · rintro rfl
        simp [connectives] at isLeaf
      · rintro rfl
        simp [connectives] at isLeaf
  | unaryOp op operand =>
      cases op with
      | not => simp [connectives] at isLeaf
      | neg => rfl
  | _ => rfl

/-- The condition on a leaf says that it is not decided against its truth. -/
theorem trustworthy_iff (readable : env.fromSlice record.data = some fields) (side : Bool)
    (leaf : Expr) (isLeaf : connectives leaf = .leaf leaf) :
    env.Trustworthy record fields side leaf ↔
      (env.evalExpr leaf record = side →
        ∀ values, leafTruth record fields values leaf ≠ some (!side)) := by
  have agrees := handling_agrees readable isLeaf
  rw [Trustworthy]
  cases handled : env.handling record fields leaf with
  | evaluated =>
      rw [handled, Agrees] at agrees
      refine iff_of_true trivial fun decided values => ?_
      rw [agrees, decided]
      cases side <;> simp
  | passed =>
      rw [handled, Agrees] at agrees
      cases side <;> simp [agrees]
  | rejected =>
      rw [handled, Agrees] at agrees
      cases side <;> simp [agrees]
  | measured asFloats =>
      rw [handled, Agrees] at agrees
      rw [agrees]

theorem onCause_connectives_iff {decision : Expr → Bool} {fine other : Bool → Expr → Prop}
    (agree : ∀ side leaf, connectives leaf = .leaf leaf → (fine side leaf ↔ other side leaf))
    (predicate : Expr) (side : Bool) :
    (connectives predicate).OnCause decision fine side ↔
      (connectives predicate).OnCause decision other side := by
  induction predicate using connectives.induct generalizing side with
  | case1 left right leftInduction rightInduction =>
      cases side with
      | false =>
          simp only [connectives, Formula.OnCause]
          split
          · exact rightInduction false
          · exact leftInduction false
      | true => exact and_congr (leftInduction true) (rightInduction true)
  | case2 left right leftInduction rightInduction =>
      cases side with
      | false => exact and_congr (leftInduction false) (rightInduction false)
      | true =>
          simp only [connectives, Formula.OnCause]
          split
          · exact leftInduction true
          · exact rightInduction true
  | case3 operand induction => exact induction (!side)
  | case4 leaf notAnd notOr notNot =>
      have isLeaf := connectives_of_no_connective notAnd notOr notNot
      rw [isLeaf]
      exact agree side leaf isLeaf

end Environment

open Environment

/-- A filter rejects only rows of which the predicate cannot be true, where no
leaf that the rejection rests on is decided against its truth. A leaf by itself, or
under negations, must not be. -/
theorem FilterOperator.rejected_not_true (env : Environment) (operator : FilterOperator)
    {row : RecordKey × FunRecord} (member : row ∈ operator.input.rows)
    {fields : List (String × DataValue)} (readable : env.fromSlice row.2.data = some fields) :
    ((connectives operator.predicate).OnCause (fun leaf => env.evalExpr leaf row.2)
        (env.Trustworthy row.2 fields) false →
      row ∉ (operator.execute env).rows →
        ∀ values, truth row.2 fields values operator.predicate ≠ some true) ∧
    ((connectives operator.predicate).IsLiteral →
      (row ∉ (operator.execute env).rows →
        ∀ values, truth row.2 fields values operator.predicate ≠ some true) →
      (connectives operator.predicate).OnCause (fun leaf => env.evalExpr leaf row.2)
        (env.Trustworthy row.2 fields) false) := by
  have rejected : row ∉ (operator.execute env).rows ↔
      env.evalExpr operator.predicate row.2 = false := by
    rw [FilterOperator.rows_execute, List.mem_filter, not_and, Bool.not_eq_true]
    exact forall_prop_of_true member
  have fine : (connectives operator.predicate).OnCause (fun leaf => env.evalExpr leaf row.2)
      (env.Trustworthy row.2 fields) false ↔ _ :=
    onCause_connectives_iff (trustworthy_iff readable) operator.predicate false
  rw [rejected, fine, ← env.decide_connectives]
  constructor
  · intro onCause decided values
    have single := onCause.imp fun side leaf harmless decided => harmless decided values
    exact Formula.truth_ne_of_decide single decided
  · intro literal notTrue
    exact (Formula.onCause_iff_of_isLiteral literal).mpr notTrue

/-- `age > 25 AND NOT f()` is false for its first part, and the second is not reached. -/
theorem FilterOperator.rejected_not_true_conjunction :
    truth (makeRecord []) [("age", .int 20)] (fun _ => .bool false)
      (.binaryOp .and (.binaryOp .gt (.column "age") (.literal (.int 25)))
        (.unaryOp .not (.functionCall "f" []))) ≠ some true := by
  let env := readingEnvironment [("age", .int 20)]
  let operator : FilterOperator :=
    ⟨RecordBatch.new.push (makeKey 1) (makeRecord []),
      .binaryOp .and (.binaryOp .gt (.column "age") (.literal (.int 25)))
        (.unaryOp .not (.functionCall "f" []))⟩
  have member : (makeKey 1, makeRecord []) ∈ operator.input.rows := by
    simp [operator]
  have rejected : (makeKey 1, makeRecord []) ∉ (operator.execute env).rows := by
    decide
  have younger (values : Valuation) : leafTruth (makeRecord []) [("age", .int 20)] values
      (.binaryOp .gt (.column "age") (.literal (.int 25))) ≠ some true := by
    have isPair : (Expr.column "age", Expr.literal (.int 25)) =
        operands "age" false (.int 25) := rfl
    rw [leafTruth_operands rfl isPair]
    decide
  have first : env.evalExpr (.binaryOp .gt (.column "age") (.literal (.int 25)))
      (makeRecord []) = false := by
    decide
  have fine : (connectives operator.predicate).OnCause
      (fun leaf => env.evalExpr leaf (makeRecord []))
      (env.Trustworthy (makeRecord []) [("age", .int 20)]) false := by
    have reached : ¬ (connectives (.binaryOp .gt (.column "age") (.literal (.int 25)))).decide
        (fun leaf => env.evalExpr leaf (makeRecord [])) = true := by
      rw [Environment.decide_connectives, first]
      exact Bool.false_ne_true
    exact (if_neg reached).mpr fun _ => younger
  exact (FilterOperator.rejected_not_true env operator member rfl).1 fine rejected _

/-- `NOT f()` rejects a row, `f()` can be false. -/
theorem FilterOperator.negated_call_rejected :
    let row := (makeKey 1, makeRecord [])
    let operator : FilterOperator :=
      ⟨RecordBatch.new.push row.1 row.2, .unaryOp .not (.functionCall "f" [])⟩
    row ∈ operator.input.rows ∧ row ∉ (operator.execute (readingEnvironment [])).rows ∧
      (readingEnvironment []).fromSlice row.2.data = some [] ∧
      truth row.2 [] (fun _ => .bool false) operator.predicate = some true := by
  decide

end FunDB.Executor
