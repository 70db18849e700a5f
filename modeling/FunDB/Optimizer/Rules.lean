import FunDB.Sql.LogicalPlan

/-! # Rewriting rules

The five rules of the optimizer and the loop that applies them. -/

namespace FunDB.Optimizer

open Sql

/-- Filters move below projections. -/
def predicatePushdown : LogicalPlan → LogicalPlan
  | .filter (.project child exprs) predicate =>
      .project (.filter (predicatePushdown child) predicate) exprs
  | .filter other predicate => .filter (predicatePushdown other) predicate
  | .project input exprs => .project (predicatePushdown input) exprs
  | .join left right condition =>
      .join (predicatePushdown left) (predicatePushdown right) condition
  | .aggregate input groupBy aggregates =>
      .aggregate (predicatePushdown input) groupBy aggregates
  | .sort input orderBy => .sort (predicatePushdown input) orderBy
  | .limit input n => .limit (predicatePushdown input) n
  | .contextOptimize input options => .contextOptimize (predicatePushdown input) options
  | leaf => leaf

/-- Limits move below projections, not below sorts. -/
def limitPushdown : LogicalPlan → LogicalPlan
  | .limit (.project child exprs) n => .project (.limit (limitPushdown child) n) exprs
  | .limit other n => .limit (limitPushdown other) n
  | .filter input predicate => .filter (limitPushdown input) predicate
  | .project input exprs => .project (limitPushdown input) exprs
  | .join left right condition => .join (limitPushdown left) (limitPushdown right) condition
  | .aggregate input groupBy aggregates => .aggregate (limitPushdown input) groupBy aggregates
  | .sort input orderBy => .sort (limitPushdown input) orderBy
  | .contextOptimize input options => .contextOptimize (limitPushdown input) options
  | leaf => leaf

/-- Projections of everything go away. -/
def eliminateRedundantProject : LogicalPlan → LogicalPlan
  | .project input [.star] => eliminateRedundantProject input
  | .project input exprs => .project (eliminateRedundantProject input) exprs
  | .filter input predicate => .filter (eliminateRedundantProject input) predicate
  | .join left right condition =>
      .join (eliminateRedundantProject left) (eliminateRedundantProject right) condition
  | .aggregate input groupBy aggregates =>
      .aggregate (eliminateRedundantProject input) groupBy aggregates
  | .sort input orderBy => .sort (eliminateRedundantProject input) orderBy
  | .limit input n => .limit (eliminateRedundantProject input) n
  | .contextOptimize input options => .contextOptimize (eliminateRedundantProject input) options
  | leaf => leaf

/-- `true AND e`, `e AND true`, `false OR e` and `e OR false` become `e`, on
folded operands. -/
def foldBinary (op : BinaryOp) (left right : Expr) : Expr :=
  match op with
  | .and =>
      match left, right with
      | .literal (.bool true), right => right
      | left, .literal (.bool true) => left
      | left, right => .binaryOp .and left right
  | .or =>
      match left, right with
      | .literal (.bool false), right => right
      | left, .literal (.bool false) => left
      | left, right => .binaryOp .or left right
  | op => .binaryOp op left right

mutual

def foldExpr : Expr → Expr
  | .binaryOp op left right => foldBinary op (foldExpr left) (foldExpr right)
  | .unaryOp op operand => .unaryOp op (foldExpr operand)
  | .functionCall name args => .functionCall name (foldArgs args)
  | other => other

def foldArgs : List Expr → List Expr
  | [] => []
  | arg :: args => foldExpr arg :: foldArgs args

end

def foldAgg (agg : AggExpr) : AggExpr :=
  { agg with arg := foldExpr agg.arg }

def foldSort (item : SortExpr) : SortExpr :=
  { item with expr := foldExpr item.expr }

def constantFold : LogicalPlan → LogicalPlan
  | .filter input predicate => .filter (constantFold input) (foldExpr predicate)
  | .project input exprs => .project (constantFold input) (exprs.map foldExpr)
  | .join left right condition =>
      .join (constantFold left) (constantFold right) (foldExpr condition)
  | .aggregate input groupBy aggregates =>
      .aggregate (constantFold input) (groupBy.map foldExpr) (aggregates.map foldAgg)
  | .sort input orderBy => .sort (constantFold input) (orderBy.map foldSort)
  | .limit input n => .limit (constantFold input) n
  | .contextOptimize input options => .contextOptimize (constantFold input) options
  | .scan collection predicate projections =>
      .scan collection (predicate.map foldExpr) (projections.map foldExpr)
  | leaf => leaf

/-- The predicates that a vector scan is taken to have answered with its
threshold. -/
def isVectorDistPredicate : Expr → Bool
  | .binaryOp .vectorDist _ _ | .binaryOp .lt _ _ | .binaryOp .le _ _ => true
  | _ => false

/-- Such filters directly over a vector scan go away. -/
def vectorScanElideFilter : LogicalPlan → LogicalPlan
  | .filter (.vectorScan collection vectorField query threshold) predicate =>
      if isVectorDistPredicate predicate then
        .vectorScan collection vectorField query threshold
      else
        .filter (.vectorScan collection vectorField query threshold) predicate
  | .filter other predicate => .filter (vectorScanElideFilter other) predicate
  | .project input exprs => .project (vectorScanElideFilter input) exprs
  | .join left right condition =>
      .join (vectorScanElideFilter left) (vectorScanElideFilter right) condition
  | .aggregate input groupBy aggregates =>
      .aggregate (vectorScanElideFilter input) groupBy aggregates
  | .sort input orderBy => .sort (vectorScanElideFilter input) orderBy
  | .limit input n => .limit (vectorScanElideFilter input) n
  | .contextOptimize input options => .contextOptimize (vectorScanElideFilter input) options
  | leaf => leaf

/-- Every rule once. -/
def applyAllRules (plan : LogicalPlan) : LogicalPlan :=
  vectorScanElideFilter (constantFold
    (eliminateRedundantProject (limitPushdown (predicatePushdown plan))))

/-- The rules until nothing changes, at most `rounds` times. -/
def optimizeLoop : Nat → LogicalPlan → LogicalPlan
  | 0, current => current
  | rounds + 1, current =>
      let next := applyAllRules current
      if next = current then current else optimizeLoop rounds next

def optimize (plan : LogicalPlan) : LogicalPlan :=
  optimizeLoop 8 plan

end FunDB.Optimizer
