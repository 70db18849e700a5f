import FunDB.Executor.Sort
import FunDB.Optimizer.FoldedFilters
import Mathlib.Order.Monotone.Basic

/-! # The order that sorting should leave

Rows in the order of their keys, one key after the other, each key ascending or
descending, and rows without a value behind those that have one either way.
Reversing a comparison for DESC reverses that too. -/

namespace FunDB.Executor

open Storage Sql Optimizer StableSort

/-! ## Comparisons of values -/

theorem transCmp_comap {Item Value : Type} (cmp : Value → Value → Ordering) [Std.TransCmp cmp]
    (value : Item → Value) : Std.TransCmp fun left right => cmp (value left) (value right) where
  eq_swap := Std.OrientedCmp.eq_swap
  isLE_trans := Std.TransCmp.isLE_trans

theorem transCmp_equal (Item : Type) : Std.TransCmp fun _ _ : Item => Ordering.eq where
  eq_swap := rfl
  isLE_trans := fun _ _ => rfl

namespace SortValue

/-- Numbers, strings, and then nulls. -/
def kind : SortValue → Nat
  | .float _ => 0
  | .str _ => 1
  | .null => 2

def number : SortValue → ℚ
  | .float value => value
  | _ => 0

def text : SortValue → String
  | .str value => value
  | _ => ""

end SortValue

theorem compareSortValues_eq (left right : SortValue) :
    compareSortValues left right =
      compareLex (compareOn SortValue.kind)
        (compareLex (compareOn SortValue.number) (compareOn SortValue.text)) left right := by
  cases left <;> cases right <;>
    simp [compareSortValues, compareLex, compareOn, SortValue.kind, SortValue.number,
      SortValue.text] <;> rfl

instance compareSortValues_trans : Std.TransCmp compareSortValues := by
  have same : compareSortValues = compareLex (compareOn SortValue.kind)
      (compareLex (compareOn SortValue.number) (compareOn SortValue.text)) := by
    funext left right
    exact compareSortValues_eq left right
  rw [same]
  infer_instance

def directed {Item : Type} (asc : Bool) (cmp : Item → Item → Ordering) (left right : Item) :
    Ordering :=
  if asc then cmp left right else (cmp left right).swap

instance directed_trans {Item : Type} (asc : Bool) (cmp : Item → Item → Ordering)
    [Std.TransCmp cmp] : Std.TransCmp (directed asc cmp) := by
  cases asc with
  | true => exact inferInstanceAs (Std.TransCmp cmp)
  | false =>
      have same : directed false cmp = fun left right => cmp right left := by
        funext left right
        exact (Std.OrientedCmp.eq_swap).symm
      rw [same]
      infer_instance

/-- Two values of a key, with nulls last in both directions. -/
def compareKey (asc : Bool) (left right : SortValue) : Ordering :=
  match left, right with
  | .null, .null => .eq
  | .null, _ => .gt
  | _, .null => .lt
  | left, right => directed asc compareSortValues left right

theorem compareKey_eq (asc : Bool) (left right : SortValue) :
    compareKey asc left right =
      compareLex (compareOn fun value : SortValue => decide (value = .null))
        (directed asc compareSortValues) left right := by
  cases left <;> cases right <;> cases asc <;> rfl

instance compareKey_trans (asc : Bool) : Std.TransCmp (compareKey asc) := by
  have same : compareKey asc = compareLex (compareOn fun value => decide (value = .null))
      (directed asc compareSortValues) := by
    funext left right
    exact compareKey_eq asc left right
  rw [same]
  infer_instance

/-! ## Key after key -/

/-- The first key that tells two records apart decides. -/
def lexicographic (compareAt : SortExpr → FunRecord → FunRecord → Ordering) :
    List SortExpr → FunRecord → FunRecord → Ordering
  | [], _, _ => .eq
  | item :: orderBy, left, right =>
      (compareAt item left right).then (lexicographic compareAt orderBy left right)

theorem lexicographic_trans {compareAt : SortExpr → FunRecord → FunRecord → Ordering}
    (trans : ∀ item, Std.TransCmp (compareAt item)) (orderBy : List SortExpr) :
    Std.TransCmp (lexicographic compareAt orderBy) := by
  induction orderBy with
  | nil => exact transCmp_equal FunRecord
  | cons item orderBy induction =>
      have here := trans item
      exact inferInstanceAs
        (Std.TransCmp (compareLex (compareAt item) (lexicographic compareAt orderBy)))

namespace Environment

variable (env : Environment)

/-- The value of a column as it is, without rounding. -/
def exactSortValue (record : FunRecord) (col : String) : SortValue :=
  { env with roundF64 := id }.extractSortValue record col

/-- How `compareRecords` compares at one sort expression. -/
def compareAt (item : SortExpr) (left right : FunRecord) : Ordering :=
  match item.expr with
  | .column colName =>
      directed item.asc compareSortValues (env.extractSortValue left colName)
        (env.extractSortValue right colName)
  | _ => .eq

def orderAt (item : SortExpr) (left right : FunRecord) : Ordering :=
  match item.expr with
  | .column colName =>
      compareKey item.asc (env.exactSortValue left colName) (env.exactSortValue right colName)
  | _ => .eq

def orderRecords (left right : FunRecord) (orderBy : List SortExpr) : Ordering :=
  lexicographic env.orderAt orderBy left right

/-- At the first key that tells the records apart, a null is only compared if the
key is ascending; numbers that are the same float leave the decision to the
later keys, which must decide as the numbers do. -/
def AgreesOn (left right : FunRecord) : List SortExpr → Prop
  | [] => True
  | item :: orderBy =>
      match item.expr with
      | .column col =>
          if env.exactSortValue left col = env.exactSortValue right col then
            AgreesOn left right orderBy
          else if env.exactSortValue left col = .null ∨ env.exactSortValue right col = .null then
            item.asc = true
          else
            env.extractSortValue left col = env.extractSortValue right col →
              (env.compareRecords left right orderBy = .gt ↔
                compareKey item.asc (env.exactSortValue left col)
                  (env.exactSortValue right col) = .gt)
      | _ => AgreesOn left right orderBy

/-- Rounding to floats keeps the order, and zero and one are floats. -/
structure RoundsF64 : Prop where
  monotone : Monotone env.roundF64
  zero : env.roundF64 0 = 0
  one : env.roundF64 1 = 1

/-- The floats of a record, and its tenant, are 64-bit floats. -/
structure HasFloats (record : FunRecord) : Prop where
  confidence : env.roundF64 record.confidence = record.confidence
  tenant : env.roundF64 record.tenant = record.tenant
  payload : ∀ fields col value, env.fromSlice record.data = some fields →
    fieldOf fields col = some (.float value) → env.roundF64 value = value

variable {env}

theorem compareRecords_eq (left right : FunRecord) (orderBy : List SortExpr) :
    env.compareRecords left right orderBy = lexicographic env.compareAt orderBy left right := by
  induction orderBy with
  | nil => rfl
  | cons item orderBy induction =>
      rw [compareRecords, lexicographic, compareAt]
      cases item.expr with
      | column colName =>
          dsimp only
          rw [induction]
          unfold directed
          cases compareSortValues (env.extractSortValue left colName)
            (env.extractSortValue right colName) <;> cases item.asc <;> rfl
      | _ => exact induction

theorem compareAt_trans (item : SortExpr) : Std.TransCmp (env.compareAt item) := by
  unfold compareAt
  split
  · exact transCmp_comap (directed item.asc compareSortValues) _
  · exact transCmp_equal FunRecord

theorem orderAt_trans (item : SortExpr) : Std.TransCmp (env.orderAt item) := by
  unfold orderAt
  split
  · exact transCmp_comap (compareKey item.asc) _
  · exact transCmp_equal FunRecord

/-! ## Rounding -/

def roundValue (env : Environment) : SortValue → SortValue
  | .float value => .float (env.roundF64 value)
  | other => other

theorem extractSortValue_eq (rounds : env.RoundsF64) {record : FunRecord}
    (floats : env.HasFloats record) (col : String) :
    env.extractSortValue record col = env.roundValue (env.exactSortValue record col) := by
  unfold exactSortValue extractSortValue
  split
  · rw [roundValue, floats.confidence]
  split
  · rfl
  split
  · rw [roundValue, floats.tenant]
  dsimp only
  cases readable : env.fromSlice record.data with
  | none => rfl
  | some fields =>
      dsimp only
      cases found : fieldOf fields col with
      | none => rfl
      | some field =>
          cases field with
          | int value => rfl
          | float value =>
              dsimp only
              rw [roundValue, floats.payload fields col value readable found]
          | str value => rfl
          | bool value => cases value <;> simp [roundValue, rounds.zero, rounds.one]
          | null => rfl

/-- Values that are different when rounded compare as they do exactly. -/
theorem compareSortValues_roundValue (rounds : env.RoundsF64) {left right : SortValue}
    (different : env.roundValue left ≠ env.roundValue right) :
    compareSortValues (env.roundValue left) (env.roundValue right) =
      compareSortValues left right := by
  cases left with
  | float left =>
      cases right with
      | float right =>
          have apart : env.roundF64 left ≠ env.roundF64 right := fun same =>
            different (congrArg SortValue.float same)
          rcases lt_trichotomy left right with less | same | greater
          · have below := lt_of_le_of_ne (rounds.monotone less.le) apart
            exact (compare_lt_iff_lt.mpr below).trans (compare_lt_iff_lt.mpr less).symm
          · exact absurd (congrArg env.roundF64 same) apart
          · have above := lt_of_le_of_ne (rounds.monotone greater.le) apart.symm
            exact (compare_gt_iff_gt.mpr above).trans (compare_gt_iff_gt.mpr greater).symm
      | _ => rfl
  | str left => cases right <;> rfl
  | null => cases right <;> rfl

/-! ## Two records -/

theorem then_of_ne {first : Ordering} (different : first ≠ .eq) (second : Ordering) :
    first.then second = first := by
  cases first with
  | eq => exact absurd rfl different
  | _ => rfl

/-- A comparison of a value with a null, or of a null with a value, comes out
right only in ascending order. -/
theorem directed_null_iff (env : Environment) (asc : Bool) {left right : SortValue}
    (different : left ≠ right) (missing : left = .null ∨ right = .null) :
    env.roundValue left ≠ env.roundValue right ∧ compareKey asc left right ≠ .eq ∧
      ((directed asc compareSortValues (env.roundValue left) (env.roundValue right) = .gt ↔
        compareKey asc left right = .gt) ↔ asc = true) := by
  rcases missing with rfl | rfl
  · cases right with
    | null => exact absurd rfl different
    | _ => cases asc <;> simp [directed, compareSortValues, compareKey, roundValue]
  · cases left with
    | null => exact absurd rfl different
    | _ => cases asc <;> simp [directed, compareSortValues, compareKey, roundValue]

theorem compareKey_of_values {asc : Bool} {left right : SortValue}
    (present : ¬ (left = .null ∨ right = .null)) :
    compareKey asc left right = directed asc compareSortValues left right := by
  cases left <;> cases right <;> simp_all [compareKey]

theorem compareSortValues_ne_eq {left right : SortValue} (different : left ≠ right) :
    compareSortValues left right ≠ .eq := by
  intro level
  apply different
  cases left with
  | float left =>
      cases right with
      | float right => rw [compare_eq_iff_eq.mp (show compare left right = .eq from level)]
      | _ => cases level
  | str left =>
      cases right with
      | str right => rw [compare_eq_iff_eq.mp (show compare left right = .eq from level)]
      | _ => cases level
  | null =>
      cases right with
      | null => rfl
      | _ => cases level

theorem directed_ne_eq {asc : Bool} {left right : SortValue} (different : left ≠ right) :
    directed asc compareSortValues left right ≠ .eq := by
  have apart := compareSortValues_ne_eq different
  unfold directed
  cases asc with
  | true => exact apart
  | false =>
      intro level
      exact apart (Ordering.swap_eq_eq.mp level)

/-- The two comparisons put the same records out of order exactly when the
records agree on the keys. -/
theorem agreesOn_iff (rounds : env.RoundsF64) {left right : FunRecord}
    (leftFloats : env.HasFloats left) (rightFloats : env.HasFloats right)
    (orderBy : List SortExpr) :
    env.AgreesOn left right orderBy ↔
      (env.compareRecords left right orderBy = .gt ↔
        env.orderRecords left right orderBy = .gt) := by
  simp only [compareRecords_eq, orderRecords]
  induction orderBy with
  | nil => simp [AgreesOn, lexicographic]
  | cons item orderBy induction =>
      rw [AgreesOn, lexicographic, lexicographic, compareAt, orderAt]
      cases item.expr with
      | column col =>
          dsimp only
          rw [extractSortValue_eq rounds leftFloats, extractSortValue_eq rounds rightFloats,
            compareRecords_eq]
          generalize env.exactSortValue left col = leftValue
          generalize env.exactSortValue right col = rightValue
          by_cases same : leftValue = rightValue
          · subst same
            rw [if_pos rfl, compare_self (directed item.asc compareSortValues),
              compare_self (compareKey item.asc)]
            exact induction
          rw [if_neg same]
          by_cases missing : leftValue = .null ∨ rightValue = .null
          · have null := directed_null_iff env item.asc same missing
            rw [if_pos missing, then_of_ne (directed_ne_eq null.1), then_of_ne null.2.1, null.2.2]
          rw [if_neg missing, compareKey_of_values missing, then_of_ne (directed_ne_eq same)]
          by_cases collapsed : env.roundValue leftValue = env.roundValue rightValue
          · rw [collapsed, compare_self (directed item.asc compareSortValues)]
            exact forall_prop_of_true rfl
          · have kept : directed item.asc compareSortValues (env.roundValue leftValue)
                (env.roundValue rightValue) =
                  directed item.asc compareSortValues leftValue rightValue := by
              unfold directed
              rw [compareSortValues_roundValue rounds collapsed]
            rw [then_of_ne (directed_ne_eq collapsed), kept]
            exact iff_of_true (fun both => absurd both collapsed) Iff.rfl
      | _ => exact induction

end Environment

/-! ## Sorted batches -/

namespace SortOperator

variable {env : Environment}

theorem rows_execute (operator : SortOperator) :
    (operator.execute env).rows = operator.input.rows.insertionSort
      (InOrder fun left right => env.compareRecords left.2 right.2 operator.orderBy) := by
  rcases operator with ⟨input, orderBy⟩
  unfold execute
  split
  · rename_i trivialSort
    dsimp only at trivialSort ⊢
    rw [Bool.or_eq_true, List.isEmpty_iff, List.isEmpty_iff] at trivialSort
    symm
    apply List.Pairwise.insertionSort_eq
    rcases trivialSort with noKeys | noRows
    · subst noKeys
      exact List.pairwise_of_forall fun _ _ => by simp [InOrder, Environment.compareRecords]
    · rw [RecordBatch.rows, noRows]
      exact List.Pairwise.nil
  · rw [RecordBatch.rows_extend, RecordBatch.rows_new, List.nil_append]
    rfl

/-- The sorted batch is the stable sort of its rows by the exact order of their
keys, with nulls last, exactly when the rows agree pair by pair. -/
theorem execute_stable_iff (env : Environment) (rounds : env.RoundsF64)
    (operator : SortOperator) (floats : ∀ row ∈ operator.input.rows, env.HasFloats row.2) :
    IsStableSort (fun left right => env.orderRecords left.2 right.2 operator.orderBy)
        operator.input.rows (operator.execute env).rows ↔
      operator.input.rows.Pairwise fun left right =>
        env.AgreesOn left.2 right.2 operator.orderBy := by
  have compares : Std.TransCmp fun left right : RecordKey × FunRecord =>
      env.compareRecords left.2 right.2 operator.orderBy := by
    have records : Std.TransCmp (lexicographic env.compareAt operator.orderBy) :=
      lexicographic_trans Environment.compareAt_trans operator.orderBy
    simp only [Environment.compareRecords_eq]
    exact transCmp_comap (lexicographic env.compareAt operator.orderBy) Prod.snd
  have orders : Std.TransCmp fun left right : RecordKey × FunRecord =>
      env.orderRecords left.2 right.2 operator.orderBy := by
    have records : Std.TransCmp (lexicographic env.orderAt operator.orderBy) :=
      lexicographic_trans Environment.orderAt_trans operator.orderBy
    exact transCmp_comap (lexicographic env.orderAt operator.orderBy) Prod.snd
  rw [rows_execute, isStableSort_insertionSort_iff]
  apply List.Pairwise.iff_of_mem
  intro left right isLeft isRight
  exact (Environment.agreesOn_iff rounds (floats left isLeft) (floats right isRight) _).symm

/-- A record with an age, and one whose payload is empty. -/
def agedEnvironment : Environment :=
  { plainEnvironment with
    fromSlice := fun bytes => if bytes = [0x80] then some [] else some [("age", .int 5)] }

theorem agedEnvironment_rounds : agedEnvironment.RoundsF64 where
  monotone := monotone_id
  zero := rfl
  one := rfl

theorem agedEnvironment_floats (record : FunRecord) : agedEnvironment.HasFloats record where
  confidence := rfl
  tenant := rfl
  payload _ _ _ _ _ := rfl

def agedBatch : RecordBatch :=
  RecordBatch.new.extend [(makeKey 1, makeRecord [0x80]), (makeKey 2, makeRecord [1])]

/-- In ascending order the record without an age comes last. -/
theorem execute_stable_iff_ascending :
    IsStableSort (fun left right => agedEnvironment.orderRecords left.2 right.2
        [⟨.column "age", true⟩]) agedBatch.rows
      ((SortOperator.mk agedBatch [⟨.column "age", true⟩]).execute agedEnvironment).rows :=
  (execute_stable_iff agedEnvironment agedEnvironment_rounds ⟨agedBatch, [⟨.column "age", true⟩]⟩
    fun row _ => agedEnvironment_floats row.2).mpr (by
      rw [agedBatch, RecordBatch.rows_extend, RecordBatch.rows_new, List.nil_append,
        List.pairwise_pair]
      simp only [Environment.AgreesOn]
      decide +kernel)

theorem descending_puts_null_first :
    ¬ IsStableSort (fun left right => agedEnvironment.orderRecords left.2 right.2
        [⟨.column "age", false⟩]) agedBatch.rows
      ((SortOperator.mk agedBatch [⟨.column "age", false⟩]).execute agedEnvironment).rows := by
  intro sorted
  have shown : ((SortOperator.mk agedBatch [⟨.column "age", false⟩]).execute
      agedEnvironment).rows = [(makeKey 1, makeRecord [0x80]), (makeKey 2, makeRecord [1])] := by
    decide +kernel
  have ordered := sorted.ordered
  rw [shown, List.pairwise_pair] at ordered
  exact ordered (by decide +kernel)

end SortOperator

end FunDB.Executor
