import FunDB.Foundation.Text
import FunDB.Sql.Ast
import FunDB.Sql.LogicalPlan
import Mathlib.Data.Finset.Sort
import Mathlib.Data.String.Basic
import Mathlib.Algebra.Order.Floor.Defs
import Mathlib.Data.Rat.Floor

/-! # The binder

Statements become logical plans. Binding an expression never fails. -/

namespace FunDB.Sql

open Text

/-- What the binder takes from outside: letter cases and the rounding of
floating-point numbers. -/
structure BindPlatform where
  cases : CaseMapping
  roundF32 : ℚ → ℚ
  roundF64 : ℚ → ℚ

/-! ## The catalog -/

structure Catalog where
  collections : Finset String
deriving DecidableEq

namespace Catalog

def new : Catalog where
  collections := ∅

def addCollection (catalog : Catalog) (name : String) : Catalog where
  collections := insert name catalog.collections

def hasCollection (catalog : Catalog) (name : String) : Bool :=
  name ∈ catalog.collections

/-- `Catalog::open`: the collections that a server starts with. -/
def opened : Catalog :=
  ["knowledge_base", "documents", "users", "metrics", "events", "entities", "research_papers",
    "agent_memory"].foldl addCollection new

def listCollections (catalog : Catalog) : List String :=
  catalog.collections.sort (· ≤ ·)

@[simp] theorem hasCollection_addCollection (catalog : Catalog) (name : String) :
    (catalog.addCollection name).hasCollection name = true := by
  simp [addCollection, hasCollection]

end Catalog

inductive BindError where
  | unknownCollection (name : String)
  | typeMismatch (key : String) (got : Ast.Expr)

/-! ## Expressions -/

def bindLiteral : Ast.Literal → Literal
  | .int value => .int value
  | .float value => .float value
  | .string value => .string value
  | .bool value => .bool value
  | .null => .null

def bindBinaryOp : Ast.BinaryOp → BinaryOp
  | .eq => .eq
  | .notEq => .ne
  | .lt => .lt
  | .ltEq => .le
  | .gt => .gt
  | .gtEq => .ge
  | .and => .and
  | .or => .or
  | .add => .add
  | .sub => .sub
  | .mul => .mul
  | .div => .div
  -- "Operators that don't map 1-to-1"
  | .mod => .div
  | .like | .notLike => .eq
  | .in | .notIn => .eq
  | .between => .and
  | .arrow => .eq

def bindUnaryOp : Ast.UnaryOp → UnaryOp
  | .neg => .neg
  | .not | .isNull | .isNotNull => .not

variable (platform : BindPlatform)

def exprToF32 : Ast.Expr → Option ℚ
  | .literal (.float value) => some (platform.roundF32 value)
  | .literal (.int value) => some (platform.roundF32 value)
  | _ => none

def vectorOf (elems : List Ast.Expr) : Option (List ℚ) :=
  elems.mapM (exprToF32 platform)

mutual

def bindExpr : Ast.Expr → Expr
  | .literal lit => .literal (bindLiteral lit)
  | .ident name => .column name
  | .param name => .param name
  | .star => .star
  | .binaryOp op left right => .binaryOp (bindBinaryOp op) (bindExpr left) (bindExpr right)
  | .unaryOp op expr => .unaryOp (bindUnaryOp op) (bindExpr expr)
  | .not inner => .unaryOp .not (bindExpr inner)
  | .functionCall name args => .functionCall name (bindExprs args)
  | .vectorDist field value => .binaryOp .vectorDist (.vectorRef field) (bindExpr value)
  | .qualified table field => .column s!"{table}.{field}"
  | .inList expr list => .functionCall "in_list" (bindExpr expr :: bindExprs list)
  | .isNull inner => .functionCall "is_null" [bindExpr inner]
  | .isNotNull inner => .functionCall "is_not_null" [bindExpr inner]
  | .between expr low high =>
      .binaryOp .and (.binaryOp .ge (bindExpr expr) (bindExpr low))
        (.binaryOp .le (bindExpr expr) (bindExpr high))
  | .array elems =>
      match vectorOf platform elems with
      | some floats => .literal (.vector floats)
      | none => .functionCall "array" (bindExprs elems)
  | .case operand whenClauses elseClause =>
      .functionCall "case"
        (bindOptional operand ++ bindClauses whenClauses ++ bindOptional elseClause)
  | .cast expr ty => .functionCall s!"cast::{ty}" [bindExpr expr]
  | .subquery _ => .functionCall "subquery" []

def bindExprs : List Ast.Expr → List Expr
  | [] => []
  | expr :: exprs => bindExpr expr :: bindExprs exprs

def bindOptional : Option Ast.Expr → List Expr
  | none => []
  | some expr => [bindExpr expr]

def bindClauses : List (Ast.Expr × Ast.Expr) → List Expr
  | [] => []
  | clause :: clauses => bindClause clause ++ bindClauses clauses

def bindClause : Ast.Expr × Ast.Expr → List Expr
  | (cond, result) => [bindExpr cond, bindExpr result]

end

theorem bindExprs_eq (exprs : List Ast.Expr) :
    bindExprs platform exprs = exprs.map (bindExpr platform) := by
  induction exprs with
  | nil => rfl
  | cons expr exprs induction => rw [bindExprs, induction, List.map_cons]

theorem bindOptional_eq (expr : Option Ast.Expr) :
    bindOptional platform expr = expr.toList.map (bindExpr platform) := by
  cases expr <;> rfl

theorem bindClauses_eq (clauses : List (Ast.Expr × Ast.Expr)) :
    bindClauses platform clauses =
      (clauses.flatMap fun clause => [clause.1, clause.2]).map (bindExpr platform) := by
  induction clauses with
  | nil => rfl
  | cons clause clauses induction =>
      rw [bindClauses, bindClause, induction]
      rfl

/-- The arguments that the parts of a CASE become. -/
def caseArgs (operand : Option Ast.Expr) (whenClauses : List (Ast.Expr × Ast.Expr))
    (elseClause : Option Ast.Expr) : List Ast.Expr :=
  operand.toList ++ (whenClauses.flatMap fun clause => [clause.1, clause.2]) ++ elseClause.toList

theorem bindExpr_case (operand : Option Ast.Expr) (whenClauses : List (Ast.Expr × Ast.Expr))
    (elseClause : Option Ast.Expr) :
    bindExpr platform (.case operand whenClauses elseClause) =
      bindExpr platform (.functionCall "case" (caseArgs operand whenClauses elseClause)) := by
  rw [bindExpr, bindExpr, bindOptional_eq, bindOptional_eq, bindClauses_eq, bindExprs_eq,
    caseArgs, List.map_append, List.map_append]

def bindSelectItem : Ast.SelectItem Ast.Expr → Expr
  | .wildcard => .star
  | .expr expr _ => bindExpr platform expr

/-! ## Numbers -/

/-- The integer part of a number that is not negative, up to a largest value. -/
def saturate (largest : Nat) (value : ℚ) : Nat :=
  min ⌊value⌋.toNat largest

def exprToU32 : Ast.Expr → Option Nat
  | .literal (.int value) => if 0 ≤ value then some (value % 2 ^ 32).toNat else none
  | .literal (.float value) => if 0 ≤ value then some (saturate (2 ^ 32 - 1) value) else none
  | _ => none

def exprToUsize : Ast.Expr → Option Nat
  | .literal (.int value) => if 0 ≤ value then some value.toNat else none
  | .literal (.float value) => if 0 ≤ value then some (saturate (2 ^ 64 - 1) value) else none
  | _ => none

/-- The right side of a comparison such as `confidence > 0.7`, or a number alone. -/
def exprRhsFloat : Ast.Expr → Option ℚ
  | .binaryOp _ _ right => exprToF32 platform right
  | expr => exprToF32 platform expr

/-- A number of days in a text such as "last 2 years". The product wraps. -/
def withinDays : List String → Option Nat
  | [] => none
  | part :: parts =>
      match parseUnsigned 32 part with
      | some n =>
          let unit := parts.headD "days"
          if unit.startsWith "year" then some (n * 365 % 2 ^ 32)
          else if unit.startsWith "month" then some (n * 30 % 2 ^ 32)
          else if unit.startsWith "week" then some (n * 7 % 2 ^ 32)
          else some n
      | none => withinDays parts

def parseWithinDays (text : String) : Option Nat :=
  withinDays (splitWhitespace (platform.cases.toLowercase text))

/-! ## SELECT -/

/-- The vector that a distance is measured to. A parameter is a placeholder. -/
def extractVectorFloats : Ast.Expr → Option (List ℚ)
  | .array elems => vectorOf platform elems
  | .param _ => some []
  | _ => none

/-- "If the top-level WHERE expression is a simple VectorDist < threshold pattern,
return a VectorScan plan node." -/
def tryBuildVectorScan (collection : String) : Ast.Expr → Option LogicalPlan
  | .binaryOp op (.vectorDist field value) right =>
      if op = .lt ∨ op = .ltEq then
        match exprToF32 platform right, extractVectorFloats platform value with
        | some threshold, some query => some (.vectorScan collection field query threshold)
        | _, _ => none
      else none
  | _ => none

/-- The scan below a WHERE clause, and the clause. -/
def bindWhere (collection : String) (projections : List Expr) : Option Ast.Expr → LogicalPlan
  | some whereExpr =>
      match tryBuildVectorScan platform collection whereExpr with
      | some vectorScan => vectorScan
      | none => .filter (.scan collection none projections) (bindExpr platform whereExpr)
  | none => .scan collection none projections

def bindTraceCausality (clause : Ast.TraceCausalityClause Ast.Expr) : LogicalPlan :=
  .causalTrace ((clause.start.map (bindExpr platform)).getD (.literal .null))
    ((clause.finish.map (bindExpr platform)).getD (.literal .null))
    ((clause.maxDepth.bind exprToU32).getD 10)
    ((clause.minStrength.bind (exprToF32 platform)).getD 0)
    (clause.minStability.bind (exprToF32 platform))

def bindTraverse (collection : String) (clause : Ast.TraverseClause Ast.Expr) : LogicalPlan :=
  let depthMin := (clause.depthMin.bind exprToU32).getD 1
  let depthMax := (clause.depthMax.bind exprToU32).getD depthMin
  .graphTraverse (.column collection) clause.relation depthMin depthMax

def bindContextOptions (options : Ast.ContextOptions Ast.Expr) : ContextOptions where
  maxTokens := options.maxTokens.bind exprToU32
  coherence := options.coherence.bind (exprToF32 platform)
  diversity := options.diversity.bind (exprToF32 platform)
  includeContradictions := options.includeContradictions

def aggFunc (name : String) : Option AggFunc :=
  match platform.cases.toLowercase name with
  | "count" => some .count
  | "sum" => some .sum
  | "avg" | "average" => some .avg
  | "min" => some .min
  | "max" => some .max
  | _ => none

def tryExtractAgg (aliasName : Option String) : Ast.Expr → Option AggExpr
  | .functionCall name args =>
      match aggFunc platform name with
      | some func =>
          some { func
                 arg := (args.head?.map (bindExpr platform)).getD .star
                 aliasName }
      | none => none
  | _ => none

def extractAggregates (items : List (Ast.SelectItem Ast.Expr)) : List AggExpr :=
  items.filterMap fun item =>
    match item with
    | .wildcard => none
    | .expr expr aliasName => tryExtractAgg platform aliasName expr

def bindOrderBy (item : Ast.OrderByItem Ast.Expr) : SortExpr where
  expr := bindExpr platform item.expr
  asc := item.asc

def selectPlan (collection : String) (stmt : Ast.SelectStmt Ast.Expr) : LogicalPlan :=
  let plan := bindWhere platform collection (stmt.projections.map (bindSelectItem platform))
    stmt.whereClause
  let plan := match stmt.traceCausality with
    | some clause => bindTraceCausality platform clause
    | none => plan
  let plan := match stmt.traverse with
    | some clause => bindTraverse collection clause
    | none => plan
  let plan := match stmt.withinContext with
    | some options => .contextOptimize plan (bindContextOptions platform options)
    | none => plan
  let plan := if stmt.groupBy.isEmpty then plan
    else .aggregate plan (stmt.groupBy.map (bindExpr platform))
      (extractAggregates platform stmt.projections)
  let plan := if stmt.orderBy.isEmpty then plan
    else .sort plan (stmt.orderBy.map (bindOrderBy platform))
  match stmt.limit with
  | some limit => .limit plan ((exprToUsize limit).getD 0)
  | none => plan

def collectionOf (stmt : Ast.SelectStmt Ast.Expr) : String :=
  (stmt.source.map Ast.TableRef.name).getD ""

def bindSelect (stmt : Ast.SelectStmt Ast.Expr) (catalog : Catalog) :
    Except BindError LogicalPlan :=
  let collection := collectionOf stmt
  if collection ≠ "" ∧ catalog.hasCollection collection = false then
    .error (.unknownCollection collection)
  else .ok (selectPlan platform collection stmt)

/-! ## Statements -/

def bindInsert (stmt : Ast.InsertStmt) : LogicalPlan :=
  .insert stmt.table stmt.columns (stmt.values.map (bindExprs platform))

def bindUnderstandOption (out : UnderstandOptions) :
    Ast.UnderstandOption → UnderstandOptions
  | .confidence expr =>
      match exprRhsFloat platform expr with
      | some value => { out with minConfidence := some value }
      | none => out
  | .within period => { out with withinDays := parseWithinDays platform period }
  | .depth expr => { out with depth := exprToU32 expr }
  | .inCollection name => { out with collection := some name }
  | .usingVector field => { out with vectorField := some field }
  | .minSimilarity expr =>
      { out with minSimilarity := (exprToF32 platform expr).or (exprRhsFloat platform expr) }

def bindUnderstandOptions (options : List Ast.UnderstandOption) : UnderstandOptions :=
  options.foldl (bindUnderstandOption platform)
    { minConfidence := none
      withinDays := none
      depth := none
      collection := none
      vectorField := none
      minSimilarity := none }

/-- Numbers under their keys. A later pair replaces an earlier one. -/
def bindKvPairsToF64 (pairs : List (String × Ast.Expr)) :
    Except BindError (List (String × ℚ)) :=
  pairs.foldlM (fun map pair =>
    let others := map.filter fun entry => entry.1 ≠ pair.1
    match pair.2 with
    | .literal (.float value) => .ok (others ++ [(pair.1, value)])
    | .literal (.int value) => .ok (others ++ [(pair.1, platform.roundF64 value)])
    | other => .error (.typeMismatch pair.1 other)) []

def bind (stmt : Ast.Statement) (catalog : Catalog) : Except BindError LogicalPlan :=
  match stmt with
  | .select stmt => bindSelect platform stmt catalog
  | .understand stmt =>
      .ok (.understand stmt.intent (bindUnderstandOptions platform stmt.options))
  | .estimateEffect stmt => do
      let setVars ← bindKvPairsToF64 platform stmt.setVars
      return .estimateEffect stmt.model setVars stmt.predict
  | .counterfactual stmt => do
      let observed ← match stmt.given with
        | some (.pairs pairs) => bindKvPairsToF64 platform pairs
        | _ => pure []
      let had ← bindKvPairsToF64 platform stmt.had
      return .counterfactual stmt.model observed had stmt.predict
  | .insert stmt => .ok (bindInsert platform stmt)
  -- "Statements that produce no result set."
  | .update _ | .delete _ | .remember _ | .recallBy _ | .forget _ | .discoverCausal _
  | .createCausalModel _ | .createCollection _ | .createIndex _ | .traceCausality _ => .ok .empty

end FunDB.Sql
