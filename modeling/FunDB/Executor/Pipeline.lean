import FunDB.Optimizer.FoldedFilters
import FunDB.Sql.Binder
import Mathlib.Data.List.Perm.Subperm

/-! # From statements to rows

Binding, optimizing and executing. A comparison of a vector distance with a
threshold is a vector scan where it stands alone, and true where it is part of a
larger condition. -/

namespace FunDB.Executor

open Storage Sql Optimizer

/-- `Executor::execute` -/
def Environment.execute (env : Environment) (plan : LogicalPlan) (store : Store) :
    RecordBatch × Store :=
  env.executePlan (optimize plan) store

/-- Bind a statement and execute its plan. -/
def runStatement (platform : BindPlatform) (env : Environment) (catalog : Catalog)
    (stmt : Ast.Statement) (store : Store) : Except BindError (RecordBatch × Store) := do
  let plan ← Sql.bind platform stmt catalog
  return env.execute plan store

/-! ## What the optimizer does with a WHERE clause -/

theorem optimizeLoop_of_fixed (plan : LogicalPlan)
    (fixed : applyAllRules (applyAllRules plan) = applyAllRules plan) (rounds : Nat) :
    optimizeLoop (rounds + 2) plan = applyAllRules plan := by
  rw [optimizeLoop]
  split
  · next same => exact same.symm
  · rw [optimizeLoop, if_pos fixed]

theorem optimize_filter_scan (collection : String) (projections : List Expr) (predicate : Expr) :
    optimize (.filter (.scan collection none projections) predicate) =
      .filter (.scan collection none (projections.map foldExpr)) (foldExpr predicate) := by
  have once (projections : List Expr) (predicate : Expr) :
      applyAllRules (.filter (.scan collection none projections) predicate) =
        .filter (.scan collection none (projections.map foldExpr)) (foldExpr predicate) := rfl
  have twice : (projections.map foldExpr).map foldExpr = projections.map foldExpr := by
    rw [List.map_map]
    apply List.map_congr_left
    intro expr _
    exact foldExpr_foldExpr expr
  have loop := optimizeLoop_of_fixed (.filter (.scan collection none projections) predicate)
    (by rw [once, once, twice, foldExpr_foldExpr]) 6
  rw [once] at loop
  exact loop

theorem optimize_vectorScan (collection field : String) (query : List ℚ) (threshold : ℚ) :
    optimize (.vectorScan collection field query threshold) =
      .vectorScan collection field query threshold := by
  rw [optimize, optimizeLoop]
  exact if_pos rfl

/-! ## Rows of a WHERE clause -/

variable (platform : BindPlatform) (env : Environment)

/-- `SELECT projections FROM source WHERE condition` -/
def selectWhere (source : Ast.TableRef) (projections : List (Ast.SelectItem Ast.Expr))
    (condition : Ast.Expr) : Ast.SelectStmt Ast.Expr where
  distinct := false
  projections := projections
  source := some source
  joins := []
  whereClause := some condition
  groupBy := []
  having := none
  orderBy := []
  limit := none
  offset := none
  withinContext := none
  asOf := none
  traverse := none
  traceCausality := none
  returnItems := []
  recallBy := none

def Readable (catalog : Catalog) (collection : String) : Prop :=
  collection = "" ∨ catalog.hasCollection collection = true

theorem bind_selectWhere (catalog : Catalog) (source : Ast.TableRef)
    (projections : List (Ast.SelectItem Ast.Expr)) (condition : Ast.Expr)
    (readable : Readable catalog source.name) :
    Sql.bind platform (.select (selectWhere source projections condition)) catalog =
      .ok (bindWhere platform source.name (projections.map (bindSelectItem platform))
        (some condition)) := by
  have known : ¬ (source.name ≠ "" ∧ catalog.hasCollection source.name = false) := by
    intro unknown
    rcases readable with empty | present
    · exact unknown.1 empty
    · rw [present] at unknown
      exact absurd unknown.2 (by decide)
  simp only [Sql.bind, bindSelect, collectionOf, selectWhere, Option.map_some, Option.getD_some,
    known, if_false, selectPlan, List.isEmpty_nil, if_true]

theorem rows_filter_scan (collection : String) (projections : List Expr) (predicate : Expr)
    (store : Store) :
    (env.execute (.filter (.scan collection none projections) predicate) store).1.rows =
      (ScanOperator.mk collection store.lsm).execute.rows.filter fun row =>
        env.evalExpr (foldExpr predicate) row.2 := by
  rw [Environment.execute, optimize_filter_scan, Environment.executePlan, executePlan_scan]
  exact FilterOperator.rows_execute ..

/-- The vector of the record is nearer than the threshold. -/
def near (field : String) (query : List ℚ) (threshold : ℚ) (record : FunRecord) : Bool :=
  match record.vectors.lookup field with
  | some vec => env.cosineDistance query vec < threshold
  | none => false

theorem rows_vectorScan (collection field : String) (query : List ℚ) (threshold : ℚ)
    (store : Store) :
    (env.execute (.vectorScan collection field query threshold) store).1.rows =
      (ScanOperator.mk collection store.lsm).execute.rows.filter fun row =>
        near env field query threshold row.2 := by
  rw [Environment.execute, optimize_vectorScan]
  simp only [Environment.executePlan, VectorScanOperator.execute, RecordBatch.rows_extend,
    RecordBatch.rows_new, List.nil_append]
  rfl

/-- Every row of `p AND q` is a row of `p`, as often. -/
def AddsNoRows (catalog : Catalog) (store : Store) (source : Ast.TableRef)
    (projections : List (Ast.SelectItem Ast.Expr)) (p q : Ast.Expr) : Prop :=
  ∀ narrowed, runStatement platform env catalog
      (.select (selectWhere source projections (.binaryOp .and p q))) store = .ok narrowed →
    ∃ rows, runStatement platform env catalog
        (.select (selectWhere source projections p)) store = .ok rows ∧
      narrowed.1.rows.Subperm rows.1.rows

theorem rows_conjunction (collection : String) (projections : List Expr) (p q : Ast.Expr)
    (store : Store) :
    (env.execute (bindWhere platform collection projections (some (.binaryOp .and p q)))
      store).1.rows =
      (ScanOperator.mk collection store.lsm).execute.rows.filter fun row =>
        env.evalExpr (foldExpr (bindExpr platform p)) row.2 &&
          env.evalExpr (foldExpr (bindExpr platform q)) row.2 := by
  have shape : bindWhere platform collection projections (some (.binaryOp .and p q)) =
      .filter (.scan collection none projections)
        (.binaryOp .and (bindExpr platform p) (bindExpr platform q)) := by
    cases p <;> simp [bindWhere, tryBuildVectorScan, bindExpr, bindBinaryOp]
  rw [shape, rows_filter_scan]
  simp only [foldExpr, evalExpr_foldBinary_and]

theorem tryBuildVectorScan_cases {collection : String} {p : Ast.Expr} {scan : LogicalPlan}
    (found : tryBuildVectorScan platform collection p = some scan) :
    ∃ op field value right query threshold,
      p = .binaryOp op (.vectorDist field value) right ∧ (op = .lt ∨ op = .ltEq) ∧
        exprToF32 platform right = some threshold ∧
        scan = .vectorScan collection field query threshold := by
  unfold tryBuildVectorScan at found
  split at found
  · next op field value right =>
      split at found
      · next compares =>
          split at found
          · next threshold query isNumber isVector =>
              cases found
              exact ⟨op, field, value, right, query, threshold, rfl, compares, isNumber, rfl⟩
          · cases found
      · cases found
  · cases found

/-- A number is not a column after binding and folding. -/
theorem foldExpr_bindExpr_number {expr : Ast.Expr} {value : ℚ}
    (isNumber : exprToF32 platform expr = some value) (name : String) :
    foldExpr (bindExpr platform expr) ≠ .column name := by
  unfold exprToF32 at isNumber
  split at isNumber
  · simp [bindExpr, foldExpr]
  · simp [bindExpr, foldExpr]
  · cases isNumber

/-- Inside a larger condition a vector threshold is true of every record. -/
theorem evalExpr_vectorThreshold {collection : String} {p : Ast.Expr} {scan : LogicalPlan}
    (found : tryBuildVectorScan platform collection p = some scan) (record : FunRecord) :
    env.evalExpr (foldExpr (bindExpr platform p)) record = true := by
  rcases tryBuildVectorScan_cases platform found with
    ⟨op, field, value, right, _, _, shape, compares, isNumber, _⟩
  have rightOther := foldExpr_bindExpr_number platform isNumber
  have distance : foldExpr (bindExpr platform (.vectorDist field value)) =
      .binaryOp .vectorDist (.vectorRef field) (foldExpr (bindExpr platform value)) := by
    simp [bindExpr, foldExpr, foldBinary]
  have leftOther (name : String) :
      foldExpr (bindExpr platform (.vectorDist field value)) ≠ .column name := by
    rw [distance]
    simp
  have compared := env.evalBinary_of_no_column (bindBinaryOp op) leftOther rightOther record
  subst shape
  rcases compares with lt | ltEq
  · subst lt
    exact compared
  · subst ltEq
    exact compared

/-! ## Adding a conjunct -/

theorem runStatement_selectWhere (catalog : Catalog) (store : Store) (source : Ast.TableRef)
    (projections : List (Ast.SelectItem Ast.Expr)) (condition : Ast.Expr)
    (readable : Readable catalog source.name) :
    runStatement platform env catalog (.select (selectWhere source projections condition)) store =
      .ok (env.execute (bindWhere platform source.name
        (projections.map (bindSelectItem platform)) (some condition)) store) := by
  rw [runStatement, bind_selectWhere platform catalog source projections condition readable]
  rfl

theorem readable_of_runStatement {catalog : Catalog} {store : Store} {source : Ast.TableRef}
    {projections : List (Ast.SelectItem Ast.Expr)} {condition : Ast.Expr}
    {result : RecordBatch × Store}
    (ran : runStatement platform env catalog
      (.select (selectWhere source projections condition)) store = .ok result) :
    Readable catalog source.name := by
  by_contra unreadable
  have unknown : source.name ≠ "" ∧ catalog.hasCollection source.name = false := by
    simpa [Readable] using unreadable
  have refused : Sql.bind platform (.select (selectWhere source projections condition)) catalog =
      .error (.unknownCollection source.name) := if_pos unknown
  rw [runStatement, refused] at ran
  cases ran

theorem filter_subperm_filter_iff {Item : Type} {narrow wide : Item → Bool} {items : List Item} :
    (items.filter narrow).Subperm (items.filter wide) ↔
      ∀ item ∈ items, narrow item = true → wide item = true := by
  constructor
  · intro within item member passes
    have present := within.subset (List.mem_filter.mpr ⟨member, passes⟩)
    exact (List.mem_filter.mp present).2
  · intro implies
    have twice : (items.filter wide).filter narrow = items.filter narrow := by
      rw [List.filter_filter]
      apply List.filter_congr
      intro item member
      cases passes : narrow item with
      | false => rfl
      | true => rw [implies item member passes, Bool.and_true]
    rw [← twice]
    exact List.filter_sublist.subperm

/-- A conjunct adds no rows exactly when the first condition is not a vector
threshold, or the rows that meet the second one lie within the threshold. -/
theorem addsNoRows_iff (catalog : Catalog) (store : Store) (source : Ast.TableRef)
    (projections : List (Ast.SelectItem Ast.Expr)) (p q : Ast.Expr) :
    AddsNoRows platform env catalog store source projections p q ↔
      (Readable catalog source.name → ∀ field query threshold,
        tryBuildVectorScan platform source.name p =
            some (.vectorScan source.name field query threshold) →
          ∀ row ∈ (ScanOperator.mk source.name store.lsm).execute.rows,
            env.evalExpr (foldExpr (bindExpr platform q)) row.2 = true →
              near env field query threshold row.2 = true) := by
  constructor
  · intro noRows readable field query threshold found row member passes
    have ran (condition : Ast.Expr) := runStatement_selectWhere platform env catalog store source
      projections condition readable
    rcases noRows _ (ran _) with ⟨rows, rowsRan, within⟩
    rw [ran p] at rowsRan
    cases rowsRan
    rw [rows_conjunction, bindWhere, found, rows_vectorScan, filter_subperm_filter_iff] at within
    apply within row member
    rw [evalExpr_vectorThreshold platform env found, passes]
    rfl
  · intro covered narrowed narrowedRan
    have readable := readable_of_runStatement platform env narrowedRan
    have ran (condition : Ast.Expr) := runStatement_selectWhere platform env catalog store source
      projections condition readable
    rw [ran] at narrowedRan
    cases narrowedRan
    refine ⟨_, ran p, ?_⟩
    rw [rows_conjunction]
    cases found : tryBuildVectorScan platform source.name p with
    | none =>
        have shape : bindWhere platform source.name (projections.map (bindSelectItem platform))
            (some p) = .filter (.scan source.name none (projections.map (bindSelectItem platform)))
              (bindExpr platform p) := by
          rw [bindWhere, found]
        rw [shape, rows_filter_scan, filter_subperm_filter_iff]
        intro row _ both
        rw [Bool.and_eq_true] at both
        exact both.1
    | some scan =>
        rcases tryBuildVectorScan_cases platform found with
          ⟨_, field, _, _, query, threshold, _, _, _, shape⟩
        subst shape
        rw [bindWhere, found, rows_vectorScan, filter_subperm_filter_iff]
        intro row member both
        rw [Bool.and_eq_true] at both
        exact covered readable field query threshold found row member both.2

/-! ## A row that a conjunct adds -/

def plainBindPlatform : BindPlatform where
  cases := Text.asciiCases
  roundF32 := id
  roundF64 := id

def docsSource : Ast.TableRef where
  name := "docs"
  aliasName := none
  isAgentMemory := false

/-- `_vector('missing') <-> [1] < 1` -/
def missingThreshold : Ast.Expr :=
  .binaryOp .lt (.vectorDist "missing" (.array [.literal (.int 1)])) (.literal (.int 1))

/-- No record has the vector, and `AND true` returns all of them. -/
theorem conjunct_adds_row :
    ¬ AddsNoRows plainBindPlatform plainEnvironment ⟨{"docs"}⟩ embeddedStore docsSource
      [.wildcard] missingThreshold (.literal (.bool true)) := by
  intro noRows
  have ran (condition : Ast.Expr) := runStatement_selectWhere plainBindPlatform plainEnvironment
    ⟨{"docs"}⟩ embeddedStore docsSource [.wildcard] condition (.inr (by decide))
  have found : tryBuildVectorScan plainBindPlatform "docs" missingThreshold =
      some (.vectorScan "docs" "missing" [1] 1) := by decide
  rcases noRows _ (ran _) with ⟨rows, rowsRan, within⟩
  rw [ran missingThreshold] at rowsRan
  cases rowsRan
  have name : docsSource.name = "docs" := rfl
  rw [rows_conjunction, name, bindWhere, found, rows_vectorScan,
    filter_subperm_filter_iff] at within
  have near := within (makeKey 1, embedded) embedded_mem_scan (by decide)
  exact absurd near (by decide)

end FunDB.Executor
