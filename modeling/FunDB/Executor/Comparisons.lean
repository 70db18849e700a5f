import FunDB.Executor.Filter

/-! # What the filter sees of a comparison

Of two operands the filter looks for a column and a literal. Everything else is
alike to it. -/

namespace FunDB.Executor

open Storage Sql

def builtIn (col : String) : Bool :=
  col = "_collection" || col = "_tenant" || col = "_confidence"

theorem builtIn_iff (col : String) :
    builtIn col = true ↔ col = "_collection" ∨ col = "_tenant" ∨ col = "_confidence" := by
  simp [builtIn, or_assoc]

/-- A comparison as the filter takes it: it lets every row through, it rejects
every row whose payload can be read, or it compares a column with a literal,
which may stand on the left. -/
inductive Compared where
  | passes
  | mismatched
  | compares (col : String) (swapped : Bool) (literal : Literal)
deriving DecidableEq, Repr

def comparedWith (col : String) (swapped : Bool) (other : Expr) : Compared :=
  match other with
  | .literal (.string value) =>
      if col = "_tenant" ∨ col = "_confidence" then .passes
      else .compares col swapped (.string value)
  | .literal (.int value) =>
      if col = "_collection" then .passes else .compares col swapped (.int value)
  | .literal (.float value) =>
      if col = "_collection" then .passes else .compares col swapped (.float value)
  | .literal (.bool value) =>
      if builtIn col then .passes else .compares col swapped (.bool value)
  | _ => if builtIn col then .passes else .mismatched

def compared (left right : Expr) : Compared :=
  match left, right with
  | .column col, right => comparedWith col false right
  | left, .column col => comparedWith col true left
  | _, _ => .passes

namespace Environment

variable (env : Environment) (op : BinaryOp) (record : FunRecord)

theorem evalExpr_binaryOp {op : BinaryOp} (notAnd : op ≠ .and) (notOr : op ≠ .or)
    (left right : Expr) (record : FunRecord) :
    env.evalExpr (.binaryOp op left right) record = env.evalBinary op left right record := by
  cases op with
  | and => exact absurd rfl notAnd
  | or => exact absurd rfl notOr
  | _ => rfl

/-- A column on the left is compared with whatever stands on the right. -/
theorem evalBinary_column (col : String) (right : Expr) :
    env.evalBinary op (.column col) right record =
      env.evalColumnVsLiteral col op right record := by
  rw [evalBinary]
  cases number : env.extractFloat right with
  | none => rfl
  | some rhs =>
      dsimp only
      split
      · next isConfidence =>
          subst isConfidence
          simp [evalColumnVsLiteral, number]
      · rfl

/-- A column on the right is compared the other way round, unless it is the
confidence: then the operands stay where they are. -/
theorem evalBinary_swapped {left : Expr} (notColumn : ∀ col, left ≠ .column col) (col : String) :
    env.evalBinary op left (.column col) record =
      match env.extractFloat left with
      | some lhs =>
          if col = "_confidence" then
            env.compareF32 (env.roundF32 lhs) (flipOp op) record.confidence
          else
            env.evalColumnVsLiteral col (flipOp op) left record
      | none => env.evalColumnVsLiteral col (flipOp op) left record := by
  cases left with
  | column other => exact absurd rfl (notColumn other)
  | _ => rfl

variable {env op record}

theorem compareField_of_no_literal {field : DataValue} {other : Expr}
    (noNumber : env.extractFloat other = none)
    (notText : ∀ value, other ≠ .literal (.string value))
    (notBool : ∀ value, other ≠ .literal (.bool value)) :
    env.compareField field op other = false := by
  cases field with
  | bool value =>
      rw [compareField]
      exact notBool
  | int value => rw [compareField, noNumber]
  | float value => rw [compareField, noNumber]
  | str value =>
      rw [compareField]
      exact notText
  | null => rfl

/-- A built-in column compared with a literal of another type. -/
theorem evalColumnVsLiteral_passes {col : String} {swapped : Bool} {other : Expr}
    (passes : comparedWith col swapped other = .passes) :
    env.evalColumnVsLiteral col op other record = true := by
  unfold comparedWith at passes
  split at passes
  · split at passes
    · next isNumber => rcases isNumber with rfl | rfl <;> simp [evalColumnVsLiteral, extractFloat]
    · cases passes
  · split at passes
    · next isText =>
        subst isText
        simp [evalColumnVsLiteral]
    · cases passes
  · split at passes
    · next isText =>
        subst isText
        simp [evalColumnVsLiteral]
    · cases passes
  · split at passes
    · next known =>
        rcases (builtIn_iff col).mp known with rfl | rfl | rfl <;>
          simp [evalColumnVsLiteral, extractFloat]
    · cases passes
  · next notText notInt notFloat notBool =>
      have noNumber : env.extractFloat other = none := by
        rw [extractFloat]
        · exact notFloat
        · exact notInt
      split at passes
      · next known =>
          rcases (builtIn_iff col).mp known with rfl | rfl | rfl
          · rw [evalColumnVsLiteral, if_pos rfl]
            exact notText
          · simp [evalColumnVsLiteral, noNumber]
          · simp [evalColumnVsLiteral, noNumber]
      · cases passes

/-- A column of the payload compared with anything that is no literal. -/
theorem evalColumnVsLiteral_mismatched {col : String} {swapped : Bool} {other : Expr}
    (mismatched : comparedWith col swapped other = .mismatched) :
    env.evalColumnVsLiteral col op other record = (env.fromSlice record.data).isNone := by
  unfold comparedWith at mismatched
  split at mismatched
  · split at mismatched <;> cases mismatched
  · split at mismatched <;> cases mismatched
  · split at mismatched <;> cases mismatched
  · split at mismatched <;> cases mismatched
  · next notText notInt notFloat notBool =>
      have noNumber : env.extractFloat other = none := by
        rw [extractFloat]
        · exact notFloat
        · exact notInt
      split at mismatched
      · cases mismatched
      · next unknown =>
          have notBuiltIn := mt (builtIn_iff col).mpr unknown
          simp only [not_or] at notBuiltIn
          rw [evalColumnVsLiteral, if_neg notBuiltIn.1, if_neg notBuiltIn.2.1,
            if_neg notBuiltIn.2.2]
          · cases env.fromSlice record.data with
            | none => rfl
            | some fields =>
                dsimp only
                cases fieldOf fields col with
                | none => rfl
                | some field => exact compareField_of_no_literal noNumber notText notBool
          · exact notText

end Environment

theorem compared_cases (left right : Expr) :
    (∃ col, left = .column col ∧ compared left right = comparedWith col false right) ∨
      (∃ col, (∀ other, left ≠ .column other) ∧ right = .column col ∧
        compared left right = comparedWith col true left) ∨
      (∀ col, left ≠ .column col) ∧ (∀ col, right ≠ .column col) ∧
        compared left right = .passes := by
  unfold compared
  split
  · exact .inl ⟨_, rfl, rfl⟩
  · next _ col notColumn => exact .inr (.inl ⟨col, notColumn, rfl, rfl⟩)
  · next noColumn notColumn =>
      refine .inr (.inr ⟨fun col isLeft => noColumn col isLeft, fun col isRight => ?_, rfl⟩)
      exact notColumn col isRight

def comparable : Literal → Bool
  | .null | .vector _ => false
  | _ => true

theorem comparedWith_eq_compares {col name : String} {swapped side : Bool} {other : Expr}
    {literal : Literal} (compares : comparedWith col swapped other = .compares name side literal) :
    name = col ∧ side = swapped ∧ other = .literal literal ∧ comparable literal = true := by
  unfold comparedWith at compares
  split at compares <;> split at compares <;> cases compares
  · exact ⟨rfl, rfl, rfl, rfl⟩
  · exact ⟨rfl, rfl, rfl, rfl⟩
  · exact ⟨rfl, rfl, rfl, rfl⟩
  · exact ⟨rfl, rfl, rfl, rfl⟩

/-- The operands of a comparison of a column with a literal. -/
def operands (col : String) (swapped : Bool) (literal : Literal) : Expr × Expr :=
  if swapped then (.literal literal, .column col) else (.column col, .literal literal)

theorem operands_of_compares {left right : Expr} {col : String} {swapped : Bool}
    {literal : Literal} (compares : compared left right = .compares col swapped literal) :
    (left, right) = operands col swapped literal ∧ comparable literal = true := by
  rcases compared_cases left right with
    ⟨name, isLeft, shape⟩ | ⟨name, _, isRight, shape⟩ | ⟨_, _, shape⟩ <;> rw [shape] at compares
  · rcases comparedWith_eq_compares compares with ⟨rfl, rfl, rfl, known⟩
    rw [isLeft]
    exact ⟨rfl, known⟩
  · rcases comparedWith_eq_compares compares with ⟨rfl, rfl, rfl, known⟩
    rw [isRight]
    exact ⟨rfl, known⟩
  · cases compares

namespace Environment

variable {env : Environment} {op : BinaryOp} {record : FunRecord} {left right : Expr}

theorem evalBinary_swapped_of_ne (notColumn : ∀ col, left ≠ .column col) {col : String}
    (notConfidence : col ≠ "_confidence") :
    env.evalBinary op left (.column col) record =
      env.evalColumnVsLiteral col (flipOp op) left record := by
  rw [evalBinary_swapped env op record notColumn col]
  split
  · rw [if_neg notConfidence]
  · rfl

theorem evalBinary_swapped_other (notColumn : ∀ col, left ≠ .column col) {col : String}
    (other : ∀ name literal, comparedWith col true left ≠ .compares name true literal) :
    env.evalBinary op left (.column col) record =
      env.evalColumnVsLiteral col (flipOp op) left record := by
  by_cases isConfidence : col = "_confidence"
  · subst isConfidence
    rw [evalBinary_swapped env op record notColumn]
    split
    · next lhs number =>
        unfold extractFloat at number
        split at number
        · exact absurd rfl (other "_confidence" _)
        · exact absurd rfl (other "_confidence" _)
        · cases number
    · rfl
  · exact evalBinary_swapped_of_ne notColumn isConfidence

theorem evalBinary_of_passes (passes : compared left right = .passes) :
    env.evalBinary op left right record = true := by
  rcases compared_cases left right with
    ⟨col, rfl, shape⟩ | ⟨col, notColumn, rfl, shape⟩ | ⟨leftOther, rightOther, _⟩
  · rw [shape] at passes
    rw [evalBinary_column, evalColumnVsLiteral_passes passes]
  · rw [shape] at passes
    rw [evalBinary_swapped_other notColumn (by rw [passes]; simp),
      evalColumnVsLiteral_passes passes]
  · exact env.evalBinary_of_no_column op leftOther rightOther record

theorem evalBinary_of_mismatched (mismatched : compared left right = .mismatched) :
    env.evalBinary op left right record = (env.fromSlice record.data).isNone := by
  rcases compared_cases left right with
    ⟨col, rfl, shape⟩ | ⟨col, notColumn, rfl, shape⟩ | ⟨_, _, shape⟩ <;> rw [shape] at mismatched
  · rw [evalBinary_column, evalColumnVsLiteral_mismatched mismatched]
  · rw [evalBinary_swapped_other notColumn (by rw [mismatched]; simp),
      evalColumnVsLiteral_mismatched mismatched]
  · cases mismatched

theorem evalBinary_congr {otherLeft otherRight : Expr}
    (same : compared left right = compared otherLeft otherRight) :
    env.evalBinary op left right record = env.evalBinary op otherLeft otherRight record := by
  cases taken : compared otherLeft otherRight with
  | passes => rw [evalBinary_of_passes taken, evalBinary_of_passes (same.trans taken)]
  | mismatched => rw [evalBinary_of_mismatched taken, evalBinary_of_mismatched (same.trans taken)]
  | compares col swapped literal =>
      have operands := (operands_of_compares (same.trans taken)).1.trans
        (operands_of_compares taken).1.symm
      rw [(Prod.mk.inj operands).1, (Prod.mk.inj operands).2]

/-- The operator that stands between the column and the literal. -/
def facingOp (swapped : Bool) (op : BinaryOp) : BinaryOp :=
  if swapped then flipOp op else op

/-- A column may stand on either side, unless it is the confidence. -/
theorem evalBinary_operands {col : String} {swapped : Bool} {literal : Literal}
    (isPair : (left, right) = operands col swapped literal)
    (notConfidence : swapped = true → col ≠ "_confidence") :
    env.evalBinary op left right record =
      env.evalColumnVsLiteral col (facingOp swapped op) (.literal literal) record := by
  cases swapped with
  | false =>
      cases isPair
      rw [evalBinary_column]
      rfl
  | true =>
      cases isPair
      rw [evalBinary_swapped_of_ne (fun _ => Expr.noConfusion) (notConfidence rfl)]
      rfl

/-- A column of the payload that is compared with a literal. -/
theorem evalBinary_payload {col : String} {swapped : Bool} {literal : Literal}
    (compares : compared left right = .compares col swapped literal)
    (payload : builtIn col = false) {fields : List (String × DataValue)}
    (readable : env.fromSlice record.data = some fields) :
    env.evalBinary op left right record =
      match fieldOf fields col with
      | none => false
      | some field => env.compareField field (facingOp swapped op) (.literal literal) := by
  have notBuiltIn := mt (builtIn_iff col).mpr (by rw [payload]; exact Bool.false_ne_true)
  simp only [not_or] at notBuiltIn
  rw [evalBinary_operands (operands_of_compares compares).1 fun _ => notBuiltIn.2.2]
  cases found : fieldOf fields col with
  | none => simp [evalColumnVsLiteral, notBuiltIn, readable, found]
  | some field => simp [evalColumnVsLiteral, notBuiltIn, readable, found]

end Environment

end FunDB.Executor
