import FunDB.Executor.Sort

/-! # Plan execution

Execution returns a batch and leaves a store. Joins, aggregates and the graph,
causal and semantic plans are not executed yet: they return an empty batch
without looking at their inputs. -/

namespace FunDB.Executor

open Storage Sql

/-- The tree and the number of records built so far, which counts the
identifiers and times that were drawn. -/
structure Store where
  lsm : LsmTree
  built : Nat

structure ProjectOperator where
  input : RecordBatch
  exprs : List Expr

def ProjectOperator.execute (operator : ProjectOperator) : RecordBatch :=
  operator.input

structure VectorScanOperator where
  collection : String
  vectorField : String
  query : List ℚ
  threshold : ℚ
  lsm : LsmTree

/-- The records of the collection whose named vector is nearer than the
threshold. -/
def VectorScanOperator.execute (env : Environment) (operator : VectorScanOperator) :
    RecordBatch :=
  let full := (ScanOperator.mk operator.collection operator.lsm).execute
  RecordBatch.new.extend (full.rows.filter fun row =>
    match row.2.vectors.lookup operator.vectorField with
    | some vec => env.cosineDistance operator.query vec < operator.threshold
    | none => false)

/-! ## Insertion -/

/-- The stored form of a literal; any other expression is stored as null. -/
def evalExprToValue : Expr → MsgValue
  | .literal (.string value) => .str value
  | .literal (.int value) => .int value
  | .literal (.float value) => .float value
  | .literal (.bool value) => .bool value
  | .literal .null => .null
  | .literal (.vector values) => .array values
  | _ => .null

/-- `HashMap::insert` -/
def insertValue (dataMap : List (String × MsgValue)) (colName : String) (value : MsgValue) :
    List (String × MsgValue) :=
  dataMap.filter (fun entry => entry.1 ≠ colName) ++ [(colName, value)]

namespace Environment

variable (env : Environment)

/-- The column of the value at position `i`, or `_unknown` behind the last
column. -/
def colName (columns : List String) (i : Nat) : String :=
  columns[i]?.getD "_unknown"

/-- Take one value into the payload. A number for `_confidence` goes into the
record, and anything else for it is dropped. -/
def takeValue (columns : List String) (taken : List (String × MsgValue) × FunRecordBuilder)
    (item : Expr × Nat) : List (String × MsgValue) × FunRecordBuilder :=
  let value := evalExprToValue item.1
  if colName columns item.2 = "_confidence" then
    match value with
    | .float confidence => (taken.1, taken.2.withConfidence (env.roundF32 confidence))
    | .int confidence => (taken.1, taken.2.withConfidence (env.roundF32 confidence))
    | _ => taken
  else
    (insertValue taken.1 (colName columns item.2) value, taken.2)

/-- Build the record of a row and write it under its generated identifier. -/
def insertRow (collection : String) (columns : List String) (store : Store)
    (row : List Expr) : Store :=
  let (dataMap, builder) :=
    row.zipIdx.foldl (env.takeValue columns) ([], FunRecordBuilder.new collection)
  let record := (builder.withData (env.toVec dataMap)).build (env.newId store.built)
    (env.now store.built)
  let key : RecordKey := { collection := collection, id := record.id }
  { lsm := store.lsm.write env.platform key record (env.timing store.built)
    built := store.built + 1 }

/-! ## Dispatch -/

def executePlan : LogicalPlan → Store → RecordBatch × Store
  | .scan collection predicate projections, store =>
      let batch := (ScanOperator.mk collection store.lsm).execute
      let batch := match predicate with
        | some pred => FilterOperator.execute env ⟨batch, pred⟩
        | none => batch
      let batch := if projections.isEmpty then batch
        else ProjectOperator.execute ⟨batch, projections⟩
      (batch, store)
  | .vectorScan collection vectorField query threshold, store =>
      (VectorScanOperator.execute env ⟨collection, vectorField, query, threshold, store.lsm⟩,
        store)
  | .filter input predicate, store =>
      let (batch, store) := executePlan input store
      (FilterOperator.execute env ⟨batch, predicate⟩, store)
  | .project input exprs, store =>
      let (batch, store) := executePlan input store
      (ProjectOperator.execute ⟨batch, exprs⟩, store)
  | .limit input n, store =>
      let (batch, store) := executePlan input store
      (batch.truncate n, store)
  | .sort input orderBy, store =>
      let (batch, store) := executePlan input store
      (SortOperator.execute env ⟨batch, orderBy⟩, store)
  | .insert collection columns values, store =>
      (RecordBatch.new, values.foldl (env.insertRow collection columns) store)
  | .empty, store => (RecordBatch.new, store)
  -- "Stubs for future epics"
  | .join _ _ _, store | .aggregate _ _ _, store | .graphTraverse _ _ _ _, store
  | .causalTrace _ _ _ _ _, store | .contextOptimize _ _, store | .understand _ _, store
  | .estimateEffect _ _ _, store | .counterfactual _ _ _ _, store => (RecordBatch.new, store)

end Environment

end FunDB.Executor
