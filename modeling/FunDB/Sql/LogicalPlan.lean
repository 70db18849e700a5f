import Mathlib.Data.Rat.Defs

/-! # Logical plans

The plan tree that the binder builds and the optimizer rewrites. Floating-point
numbers are rational. -/

namespace FunDB.Sql

inductive Literal where
  | int (value : Int)
  | float (value : ℚ)
  | string (value : String)
  | bool (value : Bool)
  | null
  | vector (values : List ℚ)
deriving DecidableEq, Repr

inductive BinaryOp where
  | eq
  | ne
  | lt
  | le
  | gt
  | ge
  | and
  | or
  | add
  | sub
  | mul
  | div
  | vectorDist
deriving DecidableEq, Repr

inductive UnaryOp where
  | not
  | neg
deriving DecidableEq, Repr

inductive Expr where
  | column (name : String)
  | literal (value : Literal)
  | binaryOp (op : BinaryOp) (left right : Expr)
  | unaryOp (op : UnaryOp) (operand : Expr)
  | functionCall (name : String) (args : List Expr)
  | param (name : String)
  | vectorRef (field : String)
  | star
deriving Repr

namespace Expr

/-! ## Equality of expressions -/

mutual

def same : Expr → Expr → Bool
  | .column left, .column right => left = right
  | .literal left, .literal right => left = right
  | .binaryOp op left right, .binaryOp otherOp otherLeft otherRight =>
      op = otherOp && same left otherLeft && same right otherRight
  | .unaryOp op operand, .unaryOp otherOp otherOperand =>
      op = otherOp && same operand otherOperand
  | .functionCall name args, .functionCall otherName otherArgs =>
      name = otherName && sameAll args otherArgs
  | .param left, .param right => left = right
  | .vectorRef left, .vectorRef right => left = right
  | .star, .star => true
  | _, _ => false

def sameAll : List Expr → List Expr → Bool
  | [], [] => true
  | left :: lefts, right :: rights => same left right && sameAll lefts rights
  | _, _ => false

end

mutual

theorem same_iff : ∀ left right, same left right = true ↔ left = right
  | .column _, right => by cases right <;> simp [same]
  | .literal _, right => by cases right <;> simp [same]
  | .binaryOp _ left right, other => by
      cases other <;> simp [same, same_iff left, same_iff right, and_assoc]
  | .unaryOp _ operand, right => by cases right <;> simp [same, same_iff operand]
  | .functionCall _ args, right => by cases right <;> simp [same, sameAll_iff args]
  | .param _, right => by cases right <;> simp [same]
  | .vectorRef _, right => by cases right <;> simp [same]
  | .star, right => by cases right <;> simp [same]

theorem sameAll_iff : ∀ lefts rights, sameAll lefts rights = true ↔ lefts = rights
  | [], rights => by cases rights <;> simp [sameAll]
  | left :: lefts, rights => by
      cases rights <;> simp [sameAll, same_iff left, sameAll_iff lefts]

end

instance : DecidableEq Expr := fun left right =>
  decidable_of_iff (same left right = true) (same_iff left right)

end Expr

structure SortExpr where
  expr : Expr
  asc : Bool
deriving DecidableEq, Repr

inductive AggFunc where
  | count
  | sum
  | avg
  | min
  | max
deriving DecidableEq, Repr

structure AggExpr where
  func : AggFunc
  arg : Expr
  aliasName : Option String
deriving DecidableEq, Repr

structure ContextOptions where
  maxTokens : Option Nat
  coherence : Option ℚ
  diversity : Option ℚ
  includeContradictions : Option Bool
deriving DecidableEq, Repr

structure UnderstandOptions where
  minConfidence : Option ℚ
  withinDays : Option Nat
  depth : Option Nat
  collection : Option String
  vectorField : Option String
  minSimilarity : Option ℚ
deriving DecidableEq, Repr

inductive LogicalPlan where
  | scan (collection : String) (predicate : Option Expr) (projections : List Expr)
  | vectorScan (collection vectorField : String) (query : List ℚ) (threshold : ℚ)
  | graphTraverse (start : Expr) (predicate : String) (minDepth maxDepth : Nat)
  | causalTrace (start finish : Expr) (maxDepth : Nat) (minStrength : ℚ)
      (minStability : Option ℚ)
  | filter (input : LogicalPlan) (predicate : Expr)
  | project (input : LogicalPlan) (exprs : List Expr)
  | join (left right : LogicalPlan) (condition : Expr)
  | aggregate (input : LogicalPlan) (groupBy : List Expr) (aggregates : List AggExpr)
  | sort (input : LogicalPlan) (orderBy : List SortExpr)
  | limit (input : LogicalPlan) (n : Nat)
  | contextOptimize (input : LogicalPlan) (options : ContextOptions)
  | understand (intent : String) (options : UnderstandOptions)
  | estimateEffect (model : String) (setVars : List (String × ℚ)) (predict : String)
  | counterfactual (model : String) (observed had : List (String × ℚ)) (predict : String)
  | insert (collection : String) (columns : List String) (values : List (List Expr))
  | empty
deriving DecidableEq, Repr

end FunDB.Sql
