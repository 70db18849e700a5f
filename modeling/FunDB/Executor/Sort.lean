import FunDB.Executor.Filter
import FunDB.Foundation.StableSort

/-! # Sorting -/

namespace FunDB.Executor

open Storage Sql

inductive SortValue where
  | float (value : ℚ)
  | str (value : String)
  | null
deriving DecidableEq, Repr

/-- Numbers before strings, and nulls last. -/
def compareSortValues : SortValue → SortValue → Ordering
  | .null, .null => .eq
  | .null, _ => .gt
  | _, .null => .lt
  | .float left, .float right => compare left right
  | .str left, .str right => compare left right
  | .float _, .str _ => .lt
  | .str _, .float _ => .gt

namespace Environment

variable (env : Environment)

def extractSortValue (record : FunRecord) (col : String) : SortValue :=
  if col = "_confidence" then .float record.confidence
  else if col = "_collection" then .str record.collection
  else if col = "_tenant" then .float record.tenant
  else
    match env.fromSlice record.data with
    | none => .null
    | some dataMap =>
        match fieldOf dataMap col with
        | some (.int value) => .float (env.roundF64 value)
        | some (.float value) => .float value
        | some (.str value) => .str value
        | some (.bool value) => .float (if value then 1 else 0)
        | some .null | none => .null

/-- The first column that tells the records apart decides. Sort expressions that
are not columns are passed over. -/
def compareRecords (a b : FunRecord) : List SortExpr → Ordering
  | [] => .eq
  | item :: orderBy =>
      match item.expr with
      | .column colName =>
          match compareSortValues (env.extractSortValue a colName)
              (env.extractSortValue b colName) with
          | .eq => compareRecords a b orderBy
          | cmp => if item.asc then cmp else cmp.swap
      | _ => compareRecords a b orderBy

end Environment

structure SortOperator where
  input : RecordBatch
  orderBy : List SortExpr

/-- Stable sort of the rows. -/
def SortOperator.execute (env : Environment) (operator : SortOperator) : RecordBatch :=
  if operator.orderBy.isEmpty || operator.input.keys.isEmpty then
    operator.input
  else
    RecordBatch.new.extend (operator.input.rows.insertionSort fun left right =>
      env.compareRecords left.2 right.2 operator.orderBy ≠ .gt)

end FunDB.Executor
