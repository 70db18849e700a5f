import FunDB.Executor.Scan
import FunDB.Sql.LogicalPlan
import Mathlib.Algebra.Order.Ring.Rat

/-! # Filters

A filter keeps the rows for which its predicate is true. A predicate that it
does not understand is true. -/

namespace FunDB.Executor

open Storage Sql

/-- A field of a record's payload, as it is read back. -/
inductive DataValue where
  | bool (value : Bool)
  | int (value : Int)
  | float (value : ℚ)
  | str (value : String)
  | null
deriving DecidableEq, Repr

/-- A value of an inserted row, as it is stored. -/
inductive MsgValue where
  | str (value : String)
  | int (value : Int)
  | float (value : ℚ)
  | bool (value : Bool)
  | null
  | array (values : List ℚ)
deriving DecidableEq, Repr

/-- What execution takes from outside: MessagePack for payloads, the rounding of
floating-point results, the distance of two vectors, generated identifiers, the
clock, and the timing of the flush that a write may trigger. -/
structure Environment where
  platform : Platform
  toVec : List (String × MsgValue) → List UInt8
  fromSlice : List UInt8 → Option (List (String × DataValue))
  roundF32 : ℚ → ℚ
  roundF64 : ℚ → ℚ
  cosineDistance : List ℚ → List ℚ → ℚ
  newId : Nat → Uuid
  now : Nat → Timestamp
  timing : Nat → FlushTiming

/-- `f32::EPSILON` -/
def epsilonF32 : ℚ := 1 / 2 ^ 23

/-- `f64::EPSILON` -/
def epsilonF64 : ℚ := 1 / 2 ^ 52

def flipOp : BinaryOp → BinaryOp
  | .lt => .gt
  | .le => .ge
  | .gt => .lt
  | .ge => .le
  | other => other

/-- Compare two floats. They are equal when their rounded difference is small;
an operator that compares nothing is true. -/
def compareFloat (round : ℚ → ℚ) (epsilon lhs : ℚ) (op : BinaryOp) (rhs : ℚ) : Bool :=
  match op with
  | .eq => |round (lhs - rhs)| < epsilon
  | .ne => |round (lhs - rhs)| ≥ epsilon
  | .lt => lhs < rhs
  | .le => lhs ≤ rhs
  | .gt => lhs > rhs
  | .ge => lhs ≥ rhs
  | _ => true

def compareStr (lhs : String) (op : BinaryOp) (rhs : String) : Bool :=
  match op with
  | .eq => lhs = rhs
  | .ne => lhs ≠ rhs
  | .lt => lhs < rhs
  | .le => lhs ≤ rhs
  | .gt => lhs > rhs
  | .ge => lhs ≥ rhs
  | _ => true

/-- The value of a field of the payload, where it can be read. -/
def fieldOf (fields : List (String × DataValue)) (col : String) : Option DataValue :=
  fields.lookup col

namespace Environment

variable (env : Environment)

def compareF32 : ℚ → BinaryOp → ℚ → Bool := compareFloat env.roundF32 epsilonF32

def compareF64 : ℚ → BinaryOp → ℚ → Bool := compareFloat env.roundF64 epsilonF64

/-- The number that a literal stands for. -/
def extractFloat : Expr → Option ℚ
  | .literal (.float value) => some value
  | .literal (.int value) => some (env.roundF64 value)
  | _ => none

def compareField (field : DataValue) (op : BinaryOp) (litExpr : Expr) : Bool :=
  match field with
  | .int value =>
      match env.extractFloat litExpr with
      | some rhs => env.compareF64 (env.roundF64 value) op rhs
      | none => false
  | .float value =>
      match env.extractFloat litExpr with
      | some rhs => env.compareF64 value op rhs
      | none => false
  | .str value =>
      match litExpr with
      | .literal (.string other) => compareStr value op other
      | _ => false
  | .bool value =>
      match litExpr with
      | .literal (.bool other) =>
          match op with
          | .eq => value = other
          | .ne => value ≠ other
          | _ => true
      | _ => false
  | .null => false

/-- Compare a column, built-in or of the payload, with a literal. -/
def evalColumnVsLiteral (col : String) (op : BinaryOp) (litExpr : Expr)
    (record : FunRecord) : Bool :=
  if col = "_collection" then
    match litExpr with
    | .literal (.string value) => compareStr record.collection op value
    | _ => true
  else if col = "_tenant" then
    match env.extractFloat litExpr with
    | some rhs => env.compareF64 record.tenant op rhs
    | none => true
  else if col = "_confidence" then
    match env.extractFloat litExpr with
    | some rhs => env.compareF32 record.confidence op (env.roundF32 rhs)
    | none => true
  else
    match env.fromSlice record.data with
    -- A payload that cannot be read passes.
    | none => true
    | some dataMap =>
        match fieldOf dataMap col with
        | none => false
        | some field => env.compareField field op litExpr

/-- A comparison. `_confidence` against a number comes first; between two
columns the left one counts. -/
def evalBinary (op : BinaryOp) (left right : Expr) (record : FunRecord) : Bool :=
  match left, right with
  | .column col, right =>
      match env.extractFloat right with
      | some rhs =>
          if col = "_confidence" then
            env.compareF32 record.confidence op (env.roundF32 rhs)
          else
            env.evalColumnVsLiteral col op right record
      | none => env.evalColumnVsLiteral col op right record
  | left, .column col =>
      match env.extractFloat left with
      | some lhs =>
          if col = "_confidence" then
            env.compareF32 (env.roundF32 lhs) (flipOp op) record.confidence
          else
            env.evalColumnVsLiteral col (flipOp op) left record
      | none => env.evalColumnVsLiteral col (flipOp op) left record
  | _, _ => true

def evalExpr : Expr → FunRecord → Bool
  | .literal (.bool value), _ => value
  | .literal .null, _ => false
  | .binaryOp .and left right, record => evalExpr left record && evalExpr right record
  | .binaryOp .or left right, record => evalExpr left record || evalExpr right record
  | .unaryOp .not operand, record => !evalExpr operand record
  | .binaryOp op left right, record => env.evalBinary op left right record
  | _, _ => true

end Environment

structure FilterOperator where
  input : RecordBatch
  predicate : Expr

def FilterOperator.execute (env : Environment) (operator : FilterOperator) : RecordBatch :=
  RecordBatch.new.extend
    (operator.input.rows.filter fun row => env.evalExpr operator.predicate row.2)

@[simp] theorem FilterOperator.rows_execute (env : Environment) (input : RecordBatch)
    (predicate : Expr) :
    (FilterOperator.execute env ⟨input, predicate⟩).rows =
      input.rows.filter fun row => env.evalExpr predicate row.2 := by
  simp [execute]

namespace Environment

variable (env : Environment)

/-- Two operands of which none is a column compare as true. -/
theorem evalBinary_of_no_column (op : BinaryOp) {left right : Expr}
    (leftOther : ∀ col, left ≠ .column col) (rightOther : ∀ col, right ≠ .column col)
    (record : FunRecord) : env.evalBinary op left right record = true := by
  unfold evalBinary
  split
  · exact absurd rfl (leftOther _)
  · exact absurd rfl (rightOther _)
  · rfl

end Environment

end FunDB.Executor
