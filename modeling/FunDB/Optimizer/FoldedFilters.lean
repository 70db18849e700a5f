import FunDB.Executor.Comparisons
import FunDB.Optimizer.Preservation
import Mathlib.Algebra.Order.Ring.Abs
import Mathlib.Tactic.NormNum

/-! # Folded predicates

Folding AND and OR decides no row otherwise. Below a comparison it can uncover a
column or a literal, which the filter compares where it let the row through. -/

namespace FunDB.Optimizer

open Storage Sql Executor

variable (env : Environment)

theorem evalExpr_foldBinary_and (left right : Expr) (record : FunRecord) :
    env.evalExpr (foldBinary .and left right) record =
      (env.evalExpr left record && env.evalExpr right record) := by
  simp only [foldBinary]
  split
  · simp [Environment.evalExpr]
  · simp [Environment.evalExpr]
  · rfl

theorem evalExpr_foldBinary_or (left right : Expr) (record : FunRecord) :
    env.evalExpr (foldBinary .or left right) record =
      (env.evalExpr left record || env.evalExpr right record) := by
  simp only [foldBinary]
  split
  · simp [Environment.evalExpr]
  · simp [Environment.evalExpr]
  · rfl

/-- Each comparison that the filter reaches is to it, with folded operands, what
it was: it compares the same column with the same literal, or none. -/
def ComparisonsKept : Expr → Prop
  | .binaryOp .and left right => ComparisonsKept left ∧ ComparisonsKept right
  | .binaryOp .or left right => ComparisonsKept left ∧ ComparisonsKept right
  | .unaryOp .not operand => ComparisonsKept operand
  | .binaryOp _ left right => compared (foldExpr left) (foldExpr right) = compared left right
  | _ => True

theorem foldBinary_of_ne {op : BinaryOp} (notAnd : op ≠ .and) (notOr : op ≠ .or)
    (left right : Expr) : foldBinary op left right = .binaryOp op left right := by
  cases op with
  | and => exact absurd rfl notAnd
  | or => exact absurd rfl notOr
  | _ => rfl

theorem comparisonsKept_binaryOp {op : BinaryOp} (notAnd : op ≠ .and) (notOr : op ≠ .or)
    (left right : Expr) :
    ComparisonsKept (.binaryOp op left right) ↔
      compared (foldExpr left) (foldExpr right) = compared left right := by
  cases op with
  | and => exact absurd rfl notAnd
  | or => exact absurd rfl notOr
  | _ => rfl

/-- Folding decides no row otherwise where the comparisons are kept. -/
theorem evalExpr_foldExpr {predicate : Expr} (kept : ComparisonsKept predicate)
    (record : FunRecord) :
    env.evalExpr (foldExpr predicate) record = env.evalExpr predicate record := by
  induction predicate using ComparisonsKept.induct with
  | case1 left right leftInduction rightInduction =>
      rw [foldExpr, evalExpr_foldBinary_and, leftInduction kept.1, rightInduction kept.2]
      rfl
  | case2 left right leftInduction rightInduction =>
      rw [foldExpr, evalExpr_foldBinary_or, leftInduction kept.1, rightInduction kept.2]
      rfl
  | case3 operand induction =>
      rw [foldExpr, Environment.evalExpr, induction kept, Environment.evalExpr]
  | case4 op left right notAnd notOr =>
      rw [foldExpr, foldBinary_of_ne notAnd notOr, env.evalExpr_binaryOp notAnd notOr,
        env.evalExpr_binaryOp notAnd notOr]
      exact Environment.evalBinary_congr
        ((comparisonsKept_binaryOp notAnd notOr left right).mp kept)
  | case5 predicate _ _ notNot notBinary =>
      cases predicate with
      | binaryOp op left right => exact absurd rfl (notBinary op left right)
      | unaryOp op operand =>
          cases op with
          | not => exact absurd rfl (notNot operand)
          | neg => rfl
      | _ => rfl

/-! ## A comparison by itself -/

/-- An environment in which every payload has these fields. -/
def readingEnvironment (fields : List (String × DataValue)) : Environment :=
  { plainEnvironment with fromSlice := fun _ => some fields }

theorem kept_of_compares {left right : Expr} {col : String} {swapped : Bool} {literal : Literal}
    (compares : compared left right = .compares col swapped literal) :
    compared (foldExpr left) (foldExpr right) = compared left right := by
  have isPair := (operands_of_compares compares).1
  cases swapped with
  | false =>
      cases isPair
      rfl
  | true =>
      cases isPair
      rfl

/-- For each operator there is a number on the left of another one. -/
theorem exists_compareFloat (op : BinaryOp) (rhs : ℚ) :
    ∃ lhs, compareFloat id epsilonF64 lhs op rhs = true := by
  have small : (0 : ℚ) < epsilonF64 := by
    rw [epsilonF64]
    norm_num
  have one : epsilonF64 ≤ 1 := by
    rw [epsilonF64]
    norm_num
  cases op with
  | ne => exact ⟨rhs + 1, by simpa [compareFloat] using one⟩
  | lt => exact ⟨rhs - 1, by simp [compareFloat]⟩
  | gt => exact ⟨rhs + 1, by simp [compareFloat]⟩
  | _ => exact ⟨rhs, by simp [compareFloat, small]⟩

/-- For each operator there is a field that compares with a literal, unless that
is a text. -/
theorem exists_compareField (fields : List (String × DataValue)) (op : BinaryOp)
    {literal : Literal} (known : comparable literal = true)
    (noText : ∀ text, literal ≠ .string text) :
    ∃ field, (readingEnvironment fields).compareField field op (.literal literal) = true := by
  cases literal with
  | int value =>
      rcases exists_compareFloat op value with ⟨lhs, holds⟩
      exact ⟨.float lhs, holds⟩
  | float value =>
      rcases exists_compareFloat op value with ⟨lhs, holds⟩
      exact ⟨.float lhs, holds⟩
  | bool value =>
      cases op with
      | ne => exact ⟨.bool (!value), by cases value <;> rfl⟩
      | eq => exact ⟨.bool value, by cases value <;> rfl⟩
      | _ => exact ⟨.bool value, rfl⟩
  | string text => exact absurd rfl (noText text)
  | null => cases known
  | vector values => cases known

/-- The literal that folding uncovers is no text, and the column is one of the
payload. -/
def UncoversPayload : Compared → Prop
  | .compares col _ literal => builtIn col = false ∧ ∀ text, literal ≠ .string text
  | _ => True

/-- Where a comparison becomes another one, some record is decided otherwise. -/
theorem kept_of_evalBinary_eq {op : BinaryOp} {left right : Expr}
    (uncovers : UncoversPayload (compared (foldExpr left) (foldExpr right)))
    (agrees : ∀ (env : Environment) record,
      env.evalBinary op (foldExpr left) (foldExpr right) record =
        env.evalBinary op left right record) :
    compared (foldExpr left) (foldExpr right) = compared left right := by
  let record := makeRecord []
  cases before : compared left right with
  | compares col swapped literal => rw [kept_of_compares before, before]
  | passes =>
      have was (env : Environment) : env.evalBinary op left right record = true :=
        Environment.evalBinary_of_passes before
      have nothing := (agrees (readingEnvironment []) record).trans (was _)
      cases after : compared (foldExpr left) (foldExpr right) with
      | passes => rfl
      | mismatched =>
          rw [Environment.evalBinary_of_mismatched after] at nothing
          cases nothing
      | compares col swapped literal =>
          rw [after] at uncovers
          rw [Environment.evalBinary_payload after uncovers.1 rfl] at nothing
          cases nothing
  | mismatched =>
      have was (fields : List (String × DataValue)) :
          (readingEnvironment fields).evalBinary op left right record = false :=
        Environment.evalBinary_of_mismatched before
      cases after : compared (foldExpr left) (foldExpr right) with
      | mismatched => rfl
      | passes =>
          have all := (agrees (readingEnvironment []) record).trans (was [])
          rw [Environment.evalBinary_of_passes after] at all
          cases all
      | compares col swapped literal =>
          rw [after] at uncovers
          have known := (operands_of_compares after).2
          rcases exists_compareField [] (Environment.facingOp swapped op) known uncovers.2 with
            ⟨field, holds⟩
          have some := (agrees (readingEnvironment [(col, field)]) record).trans (was _)
          rw [Environment.evalBinary_payload after uncovers.1 rfl] at some
          have found : fieldOf [(col, field)] col = .some field := by
            simp [fieldOf]
          rw [found] at some
          exact absurd (some.symm.trans holds) Bool.false_ne_true

/-- Folding a predicate decides no row otherwise where the comparisons are kept.
A comparison by itself that is not kept, and of which folding uncovers a column
of the payload, is decided otherwise on some record. -/
theorem fold_preserves_filter (predicate : Expr) :
    (ComparisonsKept predicate → ∀ (env : Environment) record,
      env.evalExpr (foldExpr predicate) record = env.evalExpr predicate record) ∧
    ∀ op left right, predicate = .binaryOp op left right → op ≠ .and → op ≠ .or →
      UncoversPayload (compared (foldExpr left) (foldExpr right)) →
      (∀ (env : Environment) record,
        env.evalExpr (foldExpr predicate) record = env.evalExpr predicate record) →
      ComparisonsKept predicate := by
  constructor
  · intro kept env record
    exact evalExpr_foldExpr env kept record
  · intro op left right isComparison notAnd notOr uncovers agrees
    subst isComparison
    apply (comparisonsKept_binaryOp notAnd notOr left right).mpr
    apply kept_of_evalBinary_eq uncovers
    intro env record
    have same := agrees env record
    rw [foldExpr, foldBinary_of_ne notAnd notOr, env.evalExpr_binaryOp notAnd notOr,
      env.evalExpr_binaryOp notAnd notOr] at same
    exact same

/-- `(FALSE OR age > 25) AND TRUE` -/
theorem fold_preserves_filter_conjunction :
    (readingEnvironment [("age", .int 30)]).evalExpr
        (foldExpr (.binaryOp .and (.binaryOp .or (.literal (.bool false))
          (.binaryOp .gt (.column "age") (.literal (.int 25)))) (.literal (.bool true))))
        (makeRecord []) =
      (readingEnvironment [("age", .int 30)]).evalExpr
        (.binaryOp .and (.binaryOp .or (.literal (.bool false))
          (.binaryOp .gt (.column "age") (.literal (.int 25)))) (.literal (.bool true)))
        (makeRecord []) :=
  (fold_preserves_filter (.binaryOp .and (.binaryOp .or (.literal (.bool false))
    (.binaryOp .gt (.column "age") (.literal (.int 25)))) (.literal (.bool true)))).1
      ⟨⟨trivial, rfl⟩, trivial⟩ _ _

/-- `(TRUE AND age) > 25` lets a record of age 5 through, `age > 25` does not. -/
theorem folding_rejects_row :
    (readingEnvironment [("age", .int 5)]).evalExpr
        (.binaryOp .gt (.binaryOp .and (.literal (.bool true)) (.column "age"))
          (.literal (.int 25))) (makeRecord []) = true ∧
      (readingEnvironment [("age", .int 5)]).evalExpr
        (foldExpr (.binaryOp .gt (.binaryOp .and (.literal (.bool true)) (.column "age"))
          (.literal (.int 25)))) (makeRecord []) = false := by
  decide

end FunDB.Optimizer
