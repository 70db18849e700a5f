import FunDB.Server.Handler
import FunDB.Sql.ParserPost

/-! # Shortcuts and inserts

A shortcut looks at the whole text, string literals included, and answers in the
place of an INSERT that it takes. -/

namespace FunDB.Server

open Text Storage Sql Executor Protocol Optimizer

variable (platform : HandlerPlatform)

/-- The rows of an INSERT as the executor gets them. -/
def boundRows (stmt : Ast.InsertStmt) : List (List Expr) :=
  stmt.values.map (bindExprs platform.bind)

def writeRows (stmt : Ast.InsertStmt) (store : Store) : Store :=
  (boundRows platform stmt).foldl (platform.env.insertRow stmt.table stmt.columns) store

theorem built_foldl_insertRow (env : Environment) (collection : String) (columns : List String)
    (rows : List (List Expr)) (store : Store) :
    (rows.foldl (env.insertRow collection columns) store).built = store.built + rows.length := by
  induction rows generalizing store with
  | nil => rfl
  | cons row rows induction =>
      have step : (env.insertRow collection columns store row).built = store.built + 1 := rfl
      rw [List.foldl_cons, induction, step, List.length_cons]
      omega

theorem writeRows_ne {stmt : Ast.InsertStmt} (rows : stmt.values ≠ []) (store : Store) :
    writeRows platform stmt store ≠ store := by
  intro same
  have counted := congrArg Store.built same
  have positive := List.length_pos_of_ne_nil rows
  rw [writeRows, built_foldl_insertRow, boundRows, List.length_map] at counted
  omega

theorem execute_insertPlan (env : Environment) (collection : String) (columns : List String)
    (rows : List (List Expr)) (store : Store) :
    env.execute (.insert collection columns rows) store =
      (RecordBatch.new, rows.foldl (env.insertRow collection columns) store) := by
  have fixed : optimize (.insert collection columns rows) = .insert collection columns rows := by
    rw [optimize, optimizeLoop]
    exact if_pos rfl
  rw [Environment.execute, fixed, Environment.executePlan]

/-- Once parsed, an INSERT is registered and its rows are written. -/
theorem executeStatement_insert (engine : Engine) (query : String) (stmt : Ast.InsertStmt) :
    (executeStatement platform engine query (.insert stmt)).2 =
      { catalog := engine.catalog.addCollection stmt.table
        store := writeRows platform stmt engine.store } := by
  have written := execute_insertPlan platform.env stmt.table stmt.columns
    (boundRows platform stmt) engine.store
  simp only [executeStatement, Sql.bind, bindInsert]
  rw [boundRows] at written
  rw [written]
  cases countValuesInQuery platform query <;> rfl

/-- An answer means that every row was written and the collection registered. -/
def CarriedOut (engine : Engine) (query : String) (stmt : Ast.InsertStmt) : Prop :=
  ∀ result, (execute platform engine query).1 = .ok result →
    (execute platform engine query).2.store = writeRows platform stmt engine.store ∧
      (execute platform engine query).2.catalog.hasCollection stmt.table = true

theorem not_carriedOut_of_taken {engine : Engine} {query : String} {stmt : Ast.InsertStmt}
    (accepted : parse platform.text (trim query) = .ok (.insert stmt)) {path : Shortcut}
    (taken : shortcut platform (trim query) = some (some path)) :
    ¬ CarriedOut platform engine query stmt := by
  intro carriedOut
  have answered : execute platform engine query =
      (.ok (answerShortcut platform engine path), engine) := by
    simp only [execute, taken]
  rw [CarriedOut, answered] at carriedOut
  have unchanged := (carriedOut _ rfl).1
  exact writeRows_ne platform (parse_insert_ne_nil accepted) engine.store unchanged.symm

/-- An INSERT is carried out exactly when no shortcut takes its text. -/
theorem insert_carriedOut_iff (engine : Engine) (query : String) {stmt : Ast.InsertStmt}
    (accepted : parse platform.text (trim query) = .ok (.insert stmt)) :
    CarriedOut platform engine query stmt ↔
      ∀ path, shortcut platform (trim query) ≠ some (some path) := by
  constructor
  · intro carriedOut path taken
    exact not_carriedOut_of_taken platform accepted taken carriedOut
  · intro untaken result answered
    cases looked : shortcut platform (trim query) with
    | none =>
        simp only [execute, looked] at answered
        cases answered
    | some taken =>
        cases taken with
        | some path => exact absurd looked (untaken path)
        | none =>
            have carried : execute platform engine query =
                executeStatement platform engine (trim query) (.insert stmt) := by
              simp only [execute, looked, accepted]
            rw [carried, executeStatement_insert]
            exact ⟨rfl, Catalog.hasCollection_addCollection _ _⟩

/-! ## A literal that is taken for a query -/

/-- ASCII letters, payloads that cannot be read, and no debug forms. -/
def plainHandlerPlatform : HandlerPlatform where
  text := .latin1
  bind := plainBindPlatform
  env := plainEnvironment
  fromSlice _ := none
  showF64 _ := ""
  showConfidence _ := ""
  ids := .hyphenated
  debugToken _ := ""
  debugExpr _ := ""

def plainEngine : Engine where
  catalog := .new
  store := embeddedStore

def isInsert : ParseOutcome → Bool
  | .ok (.insert _) => true
  | _ => false

theorem exists_of_isInsert {outcome : ParseOutcome} (inserts : isInsert outcome = true) :
    ∃ stmt, outcome = .ok (.insert stmt) := by
  unfold isInsert at inserts
  split at inserts
  · exact ⟨_, rfl⟩
  · cases inserts

def plainInsert : String := "INSERT INTO notes (body) VALUES ('ok')"

theorem insert_carriedOut_iff_plain :
    ∃ stmt, parse .latin1 (trim plainInsert) = .ok (.insert stmt) ∧
      CarriedOut plainHandlerPlatform plainEngine plainInsert stmt := by
  have inserts : isInsert (parse .latin1 (trim plainInsert)) = true := by decide +kernel
  have untaken : shortcut plainHandlerPlatform (trim plainInsert) = some none := by
    decide +kernel
  rcases exists_of_isInsert inserts with ⟨stmt, accepted⟩
  refine ⟨stmt, accepted, ?_⟩
  apply (insert_carriedOut_iff plainHandlerPlatform plainEngine _ accepted).mpr
  rw [untaken]
  simp

def versionInsert : String := "INSERT INTO notes (body) VALUES ('VERSION()')"

/-- The literal is taken for a query of the version, and the row is not written. -/
theorem version_literal_not_written :
    ∃ stmt, parse .latin1 (trim versionInsert) = .ok (.insert stmt) ∧
      (execute plainHandlerPlatform plainEngine versionInsert).1 =
        .ok (answerShortcut plainHandlerPlatform plainEngine .version) ∧
      ¬ CarriedOut plainHandlerPlatform plainEngine versionInsert stmt := by
  have inserts : isInsert (parse .latin1 (trim versionInsert)) = true := by decide +kernel
  have taken : shortcut plainHandlerPlatform (trim versionInsert) = some (some .version) := by
    decide +kernel
  rcases exists_of_isInsert inserts with ⟨stmt, accepted⟩
  refine ⟨stmt, accepted, ?_, not_carriedOut_of_taken plainHandlerPlatform accepted taken⟩
  simp only [execute, taken]

end FunDB.Server
