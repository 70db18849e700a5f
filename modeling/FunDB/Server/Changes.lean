import FunDB.Server.Shortcuts

/-! # Deletes and updates

Both are parsed and answered, and the plan they are bound to is empty. -/

namespace FunDB.Server

open Text Storage Sql Executor Protocol Optimizer

variable (platform : HandlerPlatform)

/-! ## What a change is for -/

def Engine.rows (engine : Engine) (collection : String) : List (RecordKey × FunRecord) :=
  (ScanOperator.mk collection engine.store.lsm).execute.rows

def Engine.live (engine : Engine) (key : RecordKey) : Option FunRecord :=
  engine.store.lsm.get platform.env.platform key

/-- Whether a record meets a WHERE clause, as a filter decides it. Every record
meets a clause that is missing. -/
def meets (whereClause : Option Ast.Expr) (record : FunRecord) : Bool :=
  whereClause.all fun condition =>
    platform.env.evalExpr (bindExpr platform.bind condition) record

/-- The value of a column, built-in or of the payload. -/
def columnValue (record : FunRecord) (column : String) : Option Executor.DataValue :=
  if column = "_collection" then some (.str record.collection)
  else if column = "_tenant" then some (.int record.tenant)
  else if column = "_confidence" then some (.float record.confidence)
  else
    match platform.env.fromSlice record.data with
    | some fields => fieldOf fields column
    | none => none

/-- After a DELETE, a scan returns the earlier rows that do not meet the
condition. -/
def Deleted (stmt : Ast.DeleteStmt) (before after : Engine) : Prop :=
  after.rows stmt.table =
    (before.rows stmt.table).filter fun row => !meets platform stmt.whereClause row.2

section Updates

-- The value that an assignment gives the column of a record.
variable (assigned : String × Ast.Expr → FunRecord → Executor.DataValue)

/-- The record carries the values assigned to another one. The last assignment to
a column counts. -/
def Carries (assignments : List (String × Ast.Expr)) (old new : FunRecord) : Prop :=
  ∀ column expr, assignments.reverse.lookup column = some expr →
    columnValue platform new column = some (assigned (column, expr) old)

/-- After an UPDATE, the records of the collection that meet the condition carry
the assigned values, and no other record is changed. -/
structure Updated (stmt : Ast.UpdateStmt) (before after : Engine) : Prop where
  carried : ∀ key old, key.collection = stmt.table → before.live platform key = some old →
    meets platform stmt.whereClause old = true →
      ∃ new, after.live platform key = some new ∧
        Carries platform assigned stmt.assignments old new
  kept : ∀ key,
    (key.collection = stmt.table → ∀ old, before.live platform key = some old →
      meets platform stmt.whereClause old = false) →
        after.live platform key = before.live platform key

/-! ## Changes that are not carried out -/

theorem deleted_self_iff (stmt : Ast.DeleteStmt) (engine : Engine) :
    Deleted platform stmt engine engine ↔
      ∀ row ∈ engine.rows stmt.table, meets platform stmt.whereClause row.2 = false := by
  rw [Deleted, eq_comm, List.filter_eq_self]
  simp only [Bool.not_eq_true']

theorem updated_self_iff (stmt : Ast.UpdateStmt) (engine : Engine) :
    Updated platform assigned stmt engine engine ↔
      ∀ key old, key.collection = stmt.table → engine.live platform key = some old →
        meets platform stmt.whereClause old = true →
          Carries platform assigned stmt.assignments old old := by
  constructor
  · intro updated key old own live matched
    rcases updated.carried key old own live matched with ⟨new, same, carries⟩
    rw [live] at same
    cases same
    exact carries
  · intro already
    exact {
      carried := fun key old own live matched =>
        ⟨old, live, already key old own live matched⟩
      kept := fun _ _ => rfl }

end Updates

/-- The statements that are bound to an empty plan and change no catalog. -/
def IsChange : Ast.Statement → Prop
  | .delete _ | .update _ => True
  | _ => False

theorem executeStatement_change (engine : Engine) (query : String) {stmt : Ast.Statement}
    (isChange : IsChange stmt) :
    executeStatement platform engine query stmt =
      (.ok (batchToQueryResult platform RecordBatch.new), engine) := by
  have nothing : platform.env.execute .empty engine.store = (RecordBatch.new, engine.store) := rfl
  cases stmt with
  | delete stmt => simp only [executeStatement, Sql.bind, nothing]
  | update stmt => simp only [executeStatement, Sql.bind, nothing]
  | _ => exact isChange.elim

/-- A change is answered unless a slice panics, and nothing is different
afterwards. -/
theorem execute_change (engine : Engine) (query : String) {stmt : Ast.Statement}
    (accepted : parse platform.text (trim query) = .ok stmt) (isChange : IsChange stmt) :
    (execute platform engine query).2 = engine ∧
      ((∃ result, (execute platform engine query).1 = .ok result) ↔
        shortcut platform (trim query) ≠ none) := by
  cases looked : shortcut platform (trim query) with
  | none =>
      simp [execute, looked]
  | some taken =>
      cases taken with
      | some path => simp [execute, looked]
      | none =>
          have carried : execute platform engine query =
              executeStatement platform engine (trim query) stmt := by
            simp only [execute, looked, accepted]
          rw [carried, executeStatement_change platform engine _ isChange]
          simp

/-- What an answer is to mean holds exactly when it holds beforehand, or when there
is no answer. -/
theorem answered_implies_iff (engine : Engine) (query : String) {stmt : Ast.Statement}
    (accepted : parse platform.text (trim query) = .ok stmt) (isChange : IsChange stmt)
    (meaning : Engine → Prop) :
    (∀ result, (execute platform engine query).1 = .ok result →
        meaning (execute platform engine query).2) ↔
      shortcut platform (trim query) = none ∨ meaning engine := by
  rcases execute_change platform engine query accepted isChange with ⟨unchanged, answered⟩
  rw [unchanged, ← forall_exists_index (p := fun result =>
    (execute platform engine query).1 = .ok result) (q := fun _ => meaning engine), answered]
  exact imp_iff_not_or.trans (or_congr_left not_not)

/-- An answered DELETE or UPDATE takes effect exactly when there is nothing to do:
no row meets the condition, or those that do carry the values already. -/
theorem change_takes_effect_iff (engine : Engine) (query : String)
    (assigned : String × Ast.Expr → FunRecord → Executor.DataValue) :
    (∀ stmt, parse platform.text (trim query) = .ok (.delete stmt) →
      ((∀ result, (execute platform engine query).1 = .ok result →
          Deleted platform stmt engine (execute platform engine query).2) ↔
        shortcut platform (trim query) = none ∨
          ∀ row ∈ engine.rows stmt.table, meets platform stmt.whereClause row.2 = false)) ∧
    (∀ stmt, parse platform.text (trim query) = .ok (.update stmt) →
      ((∀ result, (execute platform engine query).1 = .ok result →
          Updated platform assigned stmt engine (execute platform engine query).2) ↔
        shortcut platform (trim query) = none ∨
          ∀ key old, key.collection = stmt.table → engine.live platform key = some old →
            meets platform stmt.whereClause old = true →
              Carries platform assigned stmt.assignments old old)) := by
  constructor
  · intro stmt accepted
    rw [← deleted_self_iff]
    exact answered_implies_iff platform engine query accepted trivial
      (Deleted platform stmt engine)
  · intro stmt accepted
    rw [← updated_self_iff]
    exact answered_implies_iff platform engine query accepted trivial
      (Updated platform assigned stmt engine)

/-! ## One record -/

/-- `_confidence > bound` -/
def moreConfident (bound : Int) : Ast.Expr :=
  .binaryOp .gt (.ident "_confidence") (.literal (.int bound))

def deleteConfident (bound : Int) : Ast.DeleteStmt where
  table := "docs"
  whereClause := some (moreConfident bound)

/-- `UPDATE docs SET _confidence = 1 WHERE _confidence > 0` -/
def updateConfident : Ast.UpdateStmt where
  table := "docs"
  aliasName := none
  assignments := [("_confidence", .literal (.int 1))]
  whereClause := some (moreConfident 0)

/-- Numbers are stored as floats, and nothing else is. -/
def storedNumber (assignment : String × Ast.Expr) (_ : FunRecord) : Executor.DataValue :=
  match assignment.2 with
  | .literal (.int value) => .float value
  | .literal (.float value) => .float value
  | _ => .null

def isDeleteConfident (bound : Int) : ParseOutcome → Bool
  | .ok (.delete ⟨"docs",
      some (.binaryOp .gt (.ident "_confidence") (.literal (.int value)))⟩) => value = bound
  | _ => false

theorem eq_of_isDeleteConfident {bound : Int} {outcome : ParseOutcome}
    (deletes : isDeleteConfident bound outcome = true) :
    outcome = .ok (.delete (deleteConfident bound)) := by
  unfold isDeleteConfident at deletes
  split at deletes
  · rw [of_decide_eq_true deletes]
    rfl
  · cases deletes

def isUpdateConfident : ParseOutcome → Bool
  | .ok (.update ⟨"docs", none, [("_confidence", .literal (.int 1))],
      some (.binaryOp .gt (.ident "_confidence") (.literal (.int 0)))⟩) => true
  | _ => false

theorem eq_of_isUpdateConfident {outcome : ParseOutcome}
    (updates : isUpdateConfident outcome = true) :
    outcome = .ok (.update updateConfident) := by
  unfold isUpdateConfident at updates
  split at updates
  · rfl
  · cases updates

theorem live_plain {key : RecordKey} {record : FunRecord}
    (live : plainEngine.live plainHandlerPlatform key = some record) : record = embedded := by
  have nothing : (LsmTree.openDir plainPlatform [] [] 0).get plainPlatform key = none := rfl
  have same : plainEngine.live plainHandlerPlatform key =
      if makeKey 1 = key then filterTombstone embedded else none := by
    rw [← nothing]
    exact LsmTree.get_insertActive (makeKey 1) embedded key
  rw [same] at live
  split at live
  · have kept : filterTombstone embedded = some embedded := by decide
    rw [kept] at live
    exact (Option.some.inj live).symm
  · cases live

theorem row_plain {row : RecordKey × FunRecord} (member : row ∈ plainEngine.rows "docs") :
    row.2 = embedded := by
  have written : embeddedStore.lsm.FilesWritten plainPlatform := by
    intro file isFile
    cases isFile
  rw [Engine.rows, ScanOperator.rows_execute] at member
  exact live_plain ((LsmTree.mem_scan_iff written _ row.1 row.2).mp member).2

theorem change_takes_effect_iff_confident :
    (∀ result, (execute plainHandlerPlatform plainEngine
          "DELETE FROM docs WHERE _confidence > 1").1 = .ok result →
        Deleted plainHandlerPlatform (deleteConfident 1) plainEngine
          (execute plainHandlerPlatform plainEngine "DELETE FROM docs WHERE _confidence > 1").2) ∧
      ∀ result, (execute plainHandlerPlatform plainEngine
          "UPDATE docs SET _confidence = 1 WHERE _confidence > 0").1 = .ok result →
        Updated plainHandlerPlatform storedNumber updateConfident plainEngine
          (execute plainHandlerPlatform plainEngine
            "UPDATE docs SET _confidence = 1 WHERE _confidence > 0").2 := by
  have deletes : isDeleteConfident 1
      (parse .latin1 (trim "DELETE FROM docs WHERE _confidence > 1")) = true := by decide +kernel
  have updates : isUpdateConfident
      (parse .latin1 (trim "UPDATE docs SET _confidence = 1 WHERE _confidence > 0")) = true := by
    decide +kernel
  constructor
  · apply ((change_takes_effect_iff plainHandlerPlatform plainEngine _ storedNumber).1 _
      (eq_of_isDeleteConfident deletes)).mpr
    refine .inr fun row member => ?_
    rw [row_plain member]
    decide
  · apply ((change_takes_effect_iff plainHandlerPlatform plainEngine _ storedNumber).2 _
      (eq_of_isUpdateConfident updates)).mpr
    refine .inr fun key old _ live _ => ?_
    rw [live_plain live]
    intro column expr found
    by_cases same : column = "_confidence"
    · subst same
      cases found
      decide
    · rw [updateConfident, List.reverse_singleton, List.lookup_cons, beq_false_of_ne same] at found
      cases found

/-- The record meets the condition, the DELETE is answered, and the record is still
there. -/
theorem deleted_record_remains :
    parse .latin1 (trim "DELETE FROM docs WHERE _confidence > 0") =
        .ok (.delete (deleteConfident 0)) ∧
      meets plainHandlerPlatform (deleteConfident 0).whereClause embedded = true ∧
      ∃ result,
        (execute plainHandlerPlatform plainEngine "DELETE FROM docs WHERE _confidence > 0").1 =
            .ok result ∧
          (makeKey 1, embedded) ∈ (execute plainHandlerPlatform plainEngine
            "DELETE FROM docs WHERE _confidence > 0").2.rows "docs" ∧
          ¬ Deleted plainHandlerPlatform (deleteConfident 0) plainEngine
            (execute plainHandlerPlatform plainEngine
              "DELETE FROM docs WHERE _confidence > 0").2 := by
  have deletes : isDeleteConfident 0
      (parse .latin1 (trim "DELETE FROM docs WHERE _confidence > 0")) = true := by decide +kernel
  have untaken : shortcut plainHandlerPlatform (trim "DELETE FROM docs WHERE _confidence > 0") =
      some none := by decide +kernel
  have accepted := eq_of_isDeleteConfident deletes
  have matched : meets plainHandlerPlatform (deleteConfident 0).whereClause embedded = true := by
    decide
  rcases execute_change plainHandlerPlatform plainEngine _ accepted trivial with
    ⟨unchanged, answered⟩
  rcases answered.mpr (by rw [untaken]; exact Option.some_ne_none _) with ⟨result, ok⟩
  refine ⟨accepted, matched, result, ok, ?_⟩
  rw [unchanged, deleted_self_iff]
  refine ⟨embedded_mem_scan, fun unmatched => ?_⟩
  have absent := unmatched _ embedded_mem_scan
  rw [matched] at absent
  cases absent

end FunDB.Server
