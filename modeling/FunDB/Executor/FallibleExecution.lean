import FunDB.Executor.Execute
import FunDB.Optimizer.Rules
import FunDB.Storage.WriteFaults

/-! # Execution whose writes may fail

An insertion writes row by row and returns the first error. Rows that reached a
memtable before it stay there. -/

namespace FunDB.Executor

open Storage Sql Optimizer LsmTree

namespace Environment

variable (env : Environment) (faults : Nat → Option WriteFault)

/-! ## Fallible insertion -/

def rowRecord (collection : String) (columns : List String) (built : Nat) (row : List Expr) :
    FunRecord :=
  let (dataMap, builder) :=
    row.zipIdx.foldl (env.takeValue columns) ([], FunRecordBuilder.new collection)
  (builder.withData (env.toVec dataMap)).build (env.newId built) (env.now built)

def rowKey (collection : String) (built : Nat) : RecordKey where
  collection := collection
  id := env.newId built

theorem insertRow_eq (collection : String) (columns : List String) (store : Store)
    (row : List Expr) :
    env.insertRow collection columns store row =
      { lsm := store.lsm.write env.platform (env.rowKey collection store.built)
          (env.rowRecord collection columns store.built row) (env.timing store.built)
        built := store.built + 1 } := rfl

/-- `insertRow` with the fault of this write. -/
def tryInsertRow (collection : String) (columns : List String) (store : Store)
    (row : List Expr) : Except WriteFault Unit × Store :=
  let (result, lsm) := store.lsm.tryWrite env.platform (env.rowKey collection store.built)
    (env.rowRecord collection columns store.built row) (env.timing store.built)
    (faults store.built)
  (result, { lsm := lsm, built := store.built + 1 })

def tryInsertRows (collection : String) (columns : List String) :
    List (List Expr) → Store → Except WriteFault Unit × Store
  | [], store => (.ok (), store)
  | row :: rows, store =>
      match env.tryInsertRow faults collection columns store row with
      | (.ok _, store) => tryInsertRows collection columns rows store
      | (.error error, store) => (.error error, store)

/-! ## Dispatch -/

/-- `executePlan` with the faults of the writes, which are numbered like the
records they write. -/
def tryExecutePlan : LogicalPlan → Store → Except WriteFault RecordBatch × Store
  | .filter input predicate, store =>
      let (result, store) := tryExecutePlan input store
      (result.map fun batch => FilterOperator.execute env ⟨batch, predicate⟩, store)
  | .project input exprs, store =>
      let (result, store) := tryExecutePlan input store
      (result.map fun batch => ProjectOperator.execute ⟨batch, exprs⟩, store)
  | .limit input n, store =>
      let (result, store) := tryExecutePlan input store
      (result.map fun batch => batch.truncate n, store)
  | .sort input orderBy, store =>
      let (result, store) := tryExecutePlan input store
      (result.map fun batch => SortOperator.execute env ⟨batch, orderBy⟩, store)
  | .insert collection columns values, store =>
      let (result, store) := env.tryInsertRows faults collection columns values store
      (result.map fun _ => RecordBatch.new, store)
  -- The other plans write nothing.
  | plan, store => (.ok (env.executePlan plan store).1, (env.executePlan plan store).2)

/-- "Applies the optimizer pass before physical execution." -/
def tryExecute (plan : LogicalPlan) (store : Store) : Except WriteFault RecordBatch × Store :=
  env.tryExecutePlan faults (optimize plan) store

variable {env} {faults}

/-! ## Without a fault -/

theorem tryInsertRow_faultless (faultless : ∀ count, faults count = none) (collection : String)
    (columns : List String) (store : Store) (row : List Expr) :
    env.tryInsertRow faults collection columns store row =
      (.ok (), env.insertRow collection columns store row) := by
  rw [insertRow_eq, tryInsertRow, faultless, tryWrite_none]

theorem tryInsertRows_faultless (faultless : ∀ count, faults count = none) (collection : String)
    (columns : List String) (rows : List (List Expr)) (store : Store) :
    env.tryInsertRows faults collection columns rows store =
      (.ok (), rows.foldl (env.insertRow collection columns) store) := by
  induction rows generalizing store with
  | nil => rfl
  | cons row rows induction =>
      rw [tryInsertRows, tryInsertRow_faultless faultless, List.foldl_cons]
      exact induction _

/-- Where no write fails, execution is that of the infallible model. -/
theorem tryExecutePlan_faultless (faultless : ∀ count, faults count = none) (plan : LogicalPlan)
    (store : Store) :
    env.tryExecutePlan faults plan store =
      (.ok (env.executePlan plan store).1, (env.executePlan plan store).2) := by
  fun_induction tryExecutePlan env faults plan store with
  | case1 input predicate store result after same induction =>
      rw [same, Prod.mk.injEq] at induction
      rcases induction with ⟨rfl, rfl⟩
      rfl
  | case2 input exprs store result after same induction =>
      rw [same, Prod.mk.injEq] at induction
      rcases induction with ⟨rfl, rfl⟩
      rfl
  | case3 input n store result after same induction =>
      rw [same, Prod.mk.injEq] at induction
      rcases induction with ⟨rfl, rfl⟩
      rfl
  | case4 input orderBy store result after same induction =>
      rw [same, Prod.mk.injEq] at induction
      rcases induction with ⟨rfl, rfl⟩
      rfl
  | case5 collection columns values store result after same =>
      rw [tryInsertRows_faultless faultless, Prod.mk.injEq] at same
      rcases same with ⟨rfl, rfl⟩
      rfl
  | case6 plan store => rfl

end Environment

end FunDB.Executor
