import FunDB.Foundation.Buckets
import FunDB.Sql.Binder

/-! # The cost optimizer

Logical plans become physical plans by what is known of the collections. Costs and
fractions are rational numbers. -/

namespace FunDB.Optimizer.Cost

open Sql

/-! ## Statistics -/

structure Histogram where
  buckets : List Nat
  minVal : ℚ
  maxVal : ℚ

structure Statistics where
  collectionRowCount : Dict String Nat
  columnHistograms : Dict (String × String) Histogram
  confidenceHistograms : Dict String (Vector Nat 100)

def noStatistics : Statistics where
  collectionRowCount := ∅
  columnHistograms := ∅
  confidenceHistograms := ∅

/-- What the optimizer takes from outside: logarithms and the texts of expressions. -/
structure CostPlatform where
  log2 : Nat → ℚ
  debugExpr : Expr → String

/-- Logarithms rounded down, and no texts. -/
def plainCostPlatform : CostPlatform where
  log2 rows := Nat.log2 rows
  debugExpr _ := ""

/-! ## Physical plans -/

inductive PhysicalPlan where
  | seqScan (collection : String) (estimatedRows : Nat) (estimatedCost : ℚ)
  | indexScan (collection indexField : String) (estimatedRows : Nat) (estimatedCost : ℚ)
  | vectorScan (collection vectorField : String) (query : List ℚ) (threshold : ℚ)
      (estimatedRows : Nat)
  | causalScan (start finish : String) (maxDepth : Nat) (minStrength : ℚ)
  | filter (input : PhysicalPlan) (selectivity : ℚ) (estimatedRows : Nat)
  | limit (input : PhysicalPlan) (n : Nat)
  | aggregate (input : PhysicalPlan) (groupCount : Nat)
  | sort (input : PhysicalPlan) (estimatedCost : ℚ)
  | empty
deriving DecidableEq, Repr

def PhysicalPlan.estimatedRows : PhysicalPlan → Nat
  | .seqScan _ rows _ => rows
  | .indexScan _ _ rows _ => rows
  | .vectorScan _ _ _ _ rows => rows
  | .filter _ _ rows => rows
  | .limit _ n => n
  | .aggregate _ _ => 1
  | .sort input _ => input.estimatedRows
  | _ => 0

/-! ## Costs -/

def scanCost (rowCount : Nat) : ℚ :=
  rowCount / 1000

def selectedRows (rowCount : Nat) (selectivity : ℚ) : Nat :=
  saturate (2 ^ 64 - 1) ⌈rowCount * selectivity⌉

def indexScanCost (platform : CostPlatform) (rowCount : Nat) (selectivity : ℚ) : ℚ :=
  max (platform.log2 rowCount) 1 / 100 + selectedRows rowCount selectivity / 1000

/-! ## Selectivity -/

namespace Histogram

/-- The bucket that a value falls into, the last one for values behind it. -/
def index (hist : Histogram) (value : ℚ) : Nat :=
  let bucketWidth := (hist.maxVal - hist.minVal) / hist.buckets.length
  min (saturate (2 ^ 64 - 1) ((value - hist.minVal) / bucketWidth)) (hist.buckets.length - 1)

/-- The fraction of the rows in the bucket of a value. -/
def fraction (hist : Histogram) (value : ℚ) : ℚ :=
  let total := hist.buckets.sum
  if total = 0 then 1 / 10
  else if hist.maxVal ≤ hist.minVal then 1 / (max hist.buckets.length 1 : Nat)
  else (hist.buckets.getD (hist.index value) 0 : Nat) / total

end Histogram

variable (stats : Statistics) (collection : String)

def equalitySelectivity (col : String) (value : ℚ) : ℚ :=
  match stats.columnHistograms.lookup (collection, col) with
  | some hist => hist.fraction value
  | none => 1 / 10

/-- The buckets below a confidence, or those above it. Only the four comparisons
get here. The sum behind a cutoff wraps. -/
def comparedBuckets (op : BinaryOp) (cutoff : Nat) (hist : Vector Nat 100) : List Nat :=
  match op with
  | .lt => hist.toList.take (min cutoff 100)
  | .le => hist.toList.take (min ((cutoff + 1) % 2 ^ 64) 100)
  | .ge => hist.toList.drop (min cutoff 100)
  | .gt => hist.toList.drop (min ((cutoff + 1) % 2 ^ 64) 100)
  | _ => []

/-- `f64::clamp(0.0, 1.0)` -/
def clampUnit (value : ℚ) : ℚ :=
  max 0 (min value 1)

def confidenceSelectivity (op : BinaryOp) (threshold : ℚ) : ℚ :=
  match stats.confidenceHistograms.lookup collection with
  | some hist =>
      let total := hist.toList.sum
      if total = 0 then clampUnit threshold
      else
        let cutoffBucket := saturate (2 ^ 64 - 1) (threshold * 100)
        (comparedBuckets op cutoffBucket hist).sum / total
  -- no histogram: linear assumption
  | none => clampUnit threshold

def comparisonSelectivity (op : BinaryOp) (left right : Expr) : ℚ :=
  match left with
  | .column col =>
      if col = "_confidence" then
        match right with
        | .literal (.float value) => confidenceSelectivity stats collection op value
        | .literal (.int value) => confidenceSelectivity stats collection op value
        | _ => 1 / 2
      else 1 / 2
  | _ => 1 / 2

/-- The fraction of the rows of a collection that satisfy a predicate. -/
def estimateSelectivity : Expr → ℚ
  | .binaryOp .eq left right =>
      match left, right with
      | .column col, .literal (.int value) => equalitySelectivity stats collection col value
      | .column col, .literal (.float value) => equalitySelectivity stats collection col value
      | _, _ => 1 / 10
  | .binaryOp .lt left right => comparisonSelectivity stats collection .lt left right
  | .binaryOp .gt left right => comparisonSelectivity stats collection .gt left right
  | .binaryOp .le left right => comparisonSelectivity stats collection .le left right
  | .binaryOp .ge left right => comparisonSelectivity stats collection .ge left right
  | .binaryOp .and left right => estimateSelectivity left * estimateSelectivity right
  | .binaryOp .or left right => min (estimateSelectivity left + estimateSelectivity right) 1
  | .literal (.bool true) => 1
  | .literal (.bool false) => 0
  | _ => 1 / 2

/-! ## Planning -/

def collectionOf : LogicalPlan → String
  | .scan collection _ _ => collection
  | .vectorScan collection _ _ _ => collection
  | .filter input _ => collectionOf input
  | .project input _ => collectionOf input
  | .limit input _ => collectionOf input
  | .sort input _ => collectionOf input
  | .aggregate input _ _ => collectionOf input
  | .contextOptimize input _ => collectionOf input
  | _ => ""

/-- The column of a simple predicate; `_id` otherwise. -/
def predicateIndexField : Expr → String
  | .binaryOp _ (.column col) _ => col
  | _ => "_id"

def rowCountOf (collection : String) : Nat :=
  (stats.collectionRowCount.lookup collection).getD 10000

/-- Small collections are read in sequence, and larger ones unless very few rows
are selected. -/
def planScan (platform : CostPlatform) (collection : String) (predicate : Option Expr) :
    PhysicalPlan :=
  let rowCount := rowCountOf stats collection
  let sequential := PhysicalPlan.seqScan collection rowCount (scanCost rowCount)
  if rowCount < 1000 then sequential
  else
    match predicate with
    | some pred =>
        let selectivity := estimateSelectivity stats collection pred
        if selectivity < 1 / 100 then
          .indexScan collection (predicateIndexField pred) (selectedRows rowCount selectivity)
            (indexScanCost platform rowCount selectivity)
        else sequential
    | none => sequential

def optimize (platform : CostPlatform) : LogicalPlan → PhysicalPlan
  | .scan collection predicate _ => planScan stats platform collection predicate
  | .vectorScan collection vectorField query threshold =>
      .vectorScan collection vectorField query threshold
        (saturate (2 ^ 64 - 1) (rowCountOf stats collection * threshold / 10))
  | .filter input predicate =>
      let selectivity := estimateSelectivity stats (collectionOf input) predicate
      let physicalInput := optimize platform input
      .filter physicalInput selectivity
        (saturate (2 ^ 64 - 1) (physicalInput.estimatedRows * selectivity))
  | .limit input n => .limit (optimize platform input) n
  | .sort input _ =>
      let physicalInput := optimize platform input
      .sort physicalInput (scanCost physicalInput.estimatedRows * 10)
  | .aggregate input _ _ => .aggregate (optimize platform input) 1
  | .causalTrace start finish maxDepth minStrength _ =>
      .causalScan (platform.debugExpr start) (platform.debugExpr finish) maxDepth minStrength
  | _ => .empty

end FunDB.Optimizer.Cost
