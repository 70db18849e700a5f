import FunDB.Executor.AppendOnly
import FunDB.Foundation.Reading
import FunDB.Server.Shortcuts

/-! # Runs of a server

A server only ever adds rows. What it answers comes from the rows of the INSERTs
it carried out, and not from where the store has put them. -/

namespace FunDB.Server

open Text Storage Sql Executor Protocol Optimizer Reading

variable (platform : HandlerPlatform)

/-! ## Runs -/

inductive ServerEvent where
  | query (text : String)
  | restart

def Engine.opened (readings : Nat) : Engine where
  catalog := Catalog.opened
  store := { lsm := LsmTree.openDir platform.env.platform [] [] readings, built := 0 }

/-- A restart opens the directory again, with the default catalog. -/
def Engine.step (engine : Engine) : ServerEvent → Engine
  | .query text => (execute platform engine text).2
  | .restart =>
      { catalog := Catalog.opened
        store := { engine.store with lsm := engine.store.lsm.reopen platform.env.platform } }

/-- How a query ends. -/
def Engine.answer (engine : Engine) : ServerEvent → Option Handled
  | .query text => some (execute platform engine text).1
  | .restart => none

/-! ## The rows of a run -/

/-- The INSERT of a query that no shortcut takes. -/
def carriedInsert (query : String) : Option Ast.InsertStmt :=
  match shortcut platform (trim query), parse platform.text (trim query) with
  | some none, .ok (.insert stmt) => some stmt
  | _, _ => none

/-- The rows that an event adds, when so many records have been built before. -/
def addedRows (built : Nat) : ServerEvent → List (RecordKey × FunRecord)
  | .query text =>
      match carriedInsert platform text with
      | some stmt =>
          platform.env.builtRows stmt.table stmt.columns built (boundRows platform stmt)
      | none => []
  | .restart => []

def insertedRows : Nat → List ServerEvent → List (RecordKey × FunRecord)
  | _, [] => []
  | built, event :: events =>
      addedRows platform built event ++
        insertedRows (built + (addedRows platform built event).length) events

theorem insertedRows_append (built : Nat) (done rest : List ServerEvent) :
    insertedRows platform built (done ++ rest) =
      insertedRows platform built done ++
        insertedRows platform (built + (insertedRows platform built done).length) rest := by
  induction done generalizing built with
  | nil => rfl
  | cons first done induction =>
      rw [List.cons_append, insertedRows, induction, insertedRows, List.append_assoc,
        List.length_append, Nat.add_assoc]

/-- The rows of a run carry the identifiers in the order in which they are drawn. -/
theorem ids_insertedRows (built : Nat) (events : List ServerEvent) :
    (insertedRows platform built events).map (fun row => row.1.id) =
      (List.range' built (insertedRows platform built events).length).map platform.env.newId := by
  induction events generalizing built with
  | nil => rfl
  | cons event events induction =>
      have here : (addedRows platform built event).map (fun row => row.1.id) =
          (List.range' built (addedRows platform built event).length).map platform.env.newId := by
        cases event with
        | restart => rfl
        | query text =>
            rw [addedRows]
            split
            · rw [Environment.keys_builtRows, Environment.length_builtRows]
            · rfl
      rw [insertedRows, List.map_append, induction, here, List.length_append, ← List.map_append,
        List.range'_append_1]

/-! ## Statements that write nothing -/

theorem reads_bindWhere (bindPlatform : BindPlatform) (collection : String)
    (projections : List Expr) (whereClause : Option Ast.Expr) :
    Reads (bindWhere bindPlatform collection projections whereClause) := by
  cases whereClause with
  | none => trivial
  | some whereExpr =>
      rw [bindWhere]
      split
      · rename_i vectorScan built
        unfold tryBuildVectorScan at built
        split at built
        · split at built
          · split at built
            · cases built
              trivial
            · cases built
          · cases built
        · cases built
      · trivial

theorem reads_selectPlan (bindPlatform : BindPlatform) (collection : String)
    (stmt : Ast.SelectStmt Ast.Expr) : Reads (selectPlan bindPlatform collection stmt) := by
  have rows := reads_bindWhere bindPlatform collection
    (stmt.projections.map (bindSelectItem bindPlatform)) stmt.whereClause
  -- Each clause that is there puts a reading plan on top of the one so far.
  unfold selectPlan
  cases stmt.traceCausality <;> cases stmt.traverse <;> cases stmt.withinContext <;>
    cases stmt.groupBy.isEmpty <;> cases stmt.orderBy.isEmpty <;> cases stmt.limit <;>
      first | exact rows | trivial

/-- Only an INSERT is bound to a plan that writes. -/
theorem reads_bind {bindPlatform : BindPlatform} {stmt : Ast.Statement} {catalog : Catalog}
    {plan : LogicalPlan} (bound : Sql.bind bindPlatform stmt catalog = .ok plan)
    (other : ∀ insert, stmt ≠ .insert insert) : Reads plan := by
  cases stmt with
  | select stmt =>
      simp only [Sql.bind, bindSelect] at bound
      split at bound
      · cases bound
      · cases bound
        exact reads_selectPlan bindPlatform _ stmt
  | insert stmt => exact absurd rfl (other stmt)
  | estimateEffect stmt =>
      rcases bind_eq_ok_iff.mp bound with ⟨setVars, _, done⟩
      cases done
      trivial
  | counterfactual stmt =>
      simp only [Sql.bind] at bound
      split at bound
      · rcases bind_eq_ok_iff.mp bound with ⟨observed, _, rest⟩
        rcases bind_eq_ok_iff.mp rest with ⟨had, _, done⟩
        cases done
        trivial
      · rcases bind_eq_ok_iff.mp bound with ⟨observed, _, rest⟩
        rcases bind_eq_ok_iff.mp rest with ⟨had, _, done⟩
        cases done
        trivial
  | _ =>
      cases bound
      trivial

/-- The catalog that a statement is bound with. -/
def boundCatalog (catalog : Catalog) : Ast.Statement → Catalog
  | .createCollection create => catalog.addCollection create.name
  | _ => catalog

section Statements

variable {engine : Engine} {query : String} {stmt : Ast.Statement}
variable (noInsert : ∀ insert, stmt ≠ .insert insert)

include noInsert

theorem executeStatement_of_error {error : BindError}
    (failed : Sql.bind platform.bind stmt (boundCatalog engine.catalog stmt) = .error error) :
    executeStatement platform engine query stmt =
      (.err { code := "42P01", message := bindErrorMessage platform error },
        { engine with catalog := boundCatalog engine.catalog stmt }) := by
  cases stmt with
  | insert stmt => exact absurd rfl (noInsert stmt)
  | _ =>
      simp only [executeStatement, boundCatalog] at failed ⊢
      rw [failed]

theorem executeStatement_of_ok {plan : LogicalPlan}
    (bound : Sql.bind platform.bind stmt (boundCatalog engine.catalog stmt) = .ok plan) :
    executeStatement platform engine query stmt =
      (.ok (batchToQueryResult platform (platform.env.execute plan engine.store).1),
        { catalog := boundCatalog engine.catalog stmt
          store := (platform.env.execute plan engine.store).2 }) := by
  cases stmt with
  | insert stmt => exact absurd rfl (noInsert stmt)
  | _ =>
      simp only [executeStatement, boundCatalog] at bound ⊢
      rw [bound]

end Statements

/-! ## Other storage -/

/-- The same platform over other storage. -/
def HandlerPlatform.onto (storage : Platform) (timing : Nat → FlushTiming) : HandlerPlatform :=
  { platform with env := platform.env.onto storage timing }

section Over

variable (storage : Platform) (timing : Nat → FlushTiming)

mutual

theorem showValue_over : ∀ value,
    showValue (platform.onto storage timing) value = showValue platform value
  | .bool value => rfl
  | .int value => rfl
  | .float value => rfl
  | .str value => rfl
  | .array values => by rw [showValue, showValue, showValues_over values]
  | .null => rfl

theorem showValues_over : ∀ values,
    showValues (platform.onto storage timing) values = showValues platform values
  | [] => rfl
  | value :: values => by
      rw [showValues, showValues, showValue_over value, showValues_over values]

end

theorem recordRow_over (columns : List String) (record : FunRecord) :
    recordRow (platform.onto storage timing) columns record = recordRow platform columns record := by
  rw [recordRow, recordRow]
  simp only [showValue_over]
  rfl

theorem batchToQueryResult_over (batch : RecordBatch) :
    batchToQueryResult (platform.onto storage timing) batch = batchToQueryResult platform batch := by
  have rows : recordRow (platform.onto storage timing) = recordRow platform :=
    funext fun columns => funext fun record => recordRow_over platform storage timing columns record
  rw [batchToQueryResult, batchToQueryResult, rows]
  rfl

theorem shortcut_over (query : String) :
    shortcut (platform.onto storage timing) query = shortcut platform query := rfl

theorem carriedInsert_over (query : String) :
    carriedInsert (platform.onto storage timing) query = carriedInsert platform query := by
  have text : (platform.onto storage timing).text = platform.text := rfl
  rw [carriedInsert, carriedInsert, shortcut_over, text]

variable {platform storage timing} {engine other : Engine}

/-- A shortcut answers from the catalog and from what scans show. -/
theorem answerShortcut_over (sameCatalog : other.catalog = engine.catalog)
    (scans : ∀ range, other.store.lsm.scan range = engine.store.lsm.scan range)
    (path : Shortcut) :
    answerShortcut (platform.onto storage timing) other path =
      answerShortcut platform engine path := by
  cases path with
  | schema collection =>
      have reads : Reads (schemaPlan collection) := trivial
      have same := (Environment.execute_over platform.env storage timing reads scans).2
      have sameBatch : (platform.onto storage timing).env.execute (schemaPlan collection)
          other.store = _ := same
      rw [answerShortcut, answerShortcut, sameBatch]
      rfl
  | collections =>
      rw [answerShortcut, answerShortcut, sameCatalog]
  | _ => rfl

/-- A statement that is no INSERT leaves the store. Its answer and the catalog
behind it come from the catalog and from what scans show. -/
theorem executeStatement_over (sameCatalog : other.catalog = engine.catalog)
    (scans : ∀ range, other.store.lsm.scan range = engine.store.lsm.scan range)
    (query : String) {stmt : Ast.Statement} (noInsert : ∀ insert, stmt ≠ .insert insert) :
    (executeStatement platform engine query stmt).2.store = engine.store ∧
      executeStatement (platform.onto storage timing) other query stmt =
        ((executeStatement platform engine query stmt).1,
          { (executeStatement platform engine query stmt).2 with store := other.store }) := by
  cases bound : Sql.bind platform.bind stmt (boundCatalog engine.catalog stmt) with
  | error error =>
      have otherBound : Sql.bind (platform.onto storage timing).bind stmt
          (boundCatalog other.catalog stmt) = .error error := by
        rw [sameCatalog]
        exact bound
      rw [executeStatement_of_error platform noInsert bound,
        executeStatement_of_error _ noInsert otherBound, sameCatalog]
      exact ⟨rfl, rfl⟩
  | ok plan =>
      have otherBound : Sql.bind (platform.onto storage timing).bind stmt
          (boundCatalog other.catalog stmt) = .ok plan := by
        rw [sameCatalog]
        exact bound
      rcases Environment.execute_over platform.env storage timing (reads_bind bound noInsert)
        scans with ⟨kept, same⟩
      have sameBatch : (platform.onto storage timing).env.execute plan other.store = _ := same
      rw [executeStatement_of_ok platform noInsert bound,
        executeStatement_of_ok _ noInsert otherBound, sameBatch, batchToQueryResult_over,
        sameCatalog]
      exact ⟨kept, rfl⟩

/-- A query that carries out no INSERT leaves the store. Its answer and the catalog
behind it come from the catalog and from what scans show. -/
theorem execute_over (storage : Platform) (timing : Nat → FlushTiming)
    (sameCatalog : other.catalog = engine.catalog)
    (scans : ∀ range, other.store.lsm.scan range = engine.store.lsm.scan range) {query : String}
    (noInsert : carriedInsert platform query = none) :
    (execute platform engine query).2.store = engine.store ∧
      execute (platform.onto storage timing) other query =
        ((execute platform engine query).1,
          { (execute platform engine query).2 with store := other.store }) := by
  have unchanged : other = { engine with store := other.store } := by
    rw [← sameCatalog]
  unfold carriedInsert at noInsert
  rw [execute, execute]
  dsimp only
  rw [shortcut_over]
  cases taken : shortcut platform (trim query) with
  | none => exact ⟨rfl, Prod.ext rfl unchanged⟩
  | some path =>
      cases path with
      | some path =>
          exact ⟨rfl, Prod.ext (congrArg Handled.ok (answerShortcut_over sameCatalog scans path))
            unchanged⟩
      | none =>
          rw [taken] at noInsert
          have text : (platform.onto storage timing).text = platform.text := rfl
          dsimp only
          rw [text]
          cases parsed : parse platform.text (trim query) with
          | ok stmt =>
              rw [parsed] at noInsert
              apply executeStatement_over sameCatalog scans
              intro insert isInsert
              rw [isInsert] at noInsert
              cases noInsert
          | _ => exact ⟨rfl, Prod.ext rfl unchanged⟩

theorem execute_of_carriedInsert {query : String} {stmt : Ast.InsertStmt}
    (carried : carriedInsert platform query = some stmt) :
    execute platform engine query =
      executeStatement platform engine (trim query) (.insert stmt) := by
  unfold carriedInsert at carried
  split at carried
  · rename_i taken parsed
    cases carried
    simp only [execute, taken, parsed]
  · cases carried

theorem addedRows_over (built : Nat) (event : ServerEvent) :
    addedRows (platform.onto storage timing) built event = addedRows platform built event := by
  cases event with
  | restart => rfl
  | query text =>
      rw [addedRows, addedRows, carriedInsert_over]
      cases carriedInsert platform text with
      | none => rfl
      | some stmt => exact Environment.builtRows_over storage timing _ _ _ _

theorem executeStatement_insert_over (query : String) (stmt : Ast.InsertStmt) :
    (executeStatement (platform.onto storage timing) other query (.insert stmt)).1 =
      (executeStatement platform engine query (.insert stmt)).1 := by
  have sameCount : countValuesInQuery (platform.onto storage timing) query =
      countValuesInQuery platform query := rfl
  simp only [executeStatement, Sql.bind, sameCount]
  cases countValuesInQuery platform query <;> rfl

end Over

/-! ## Steps -/

variable {platform} {engine : Engine} {table : List (RecordKey × FunRecord)}

/-- An event adds its rows to what the store keeps. -/
theorem keeps_step (platform : HandlerPlatform) (ticks : StrictMono platform.env.platform.clock)
    (keeps : engine.store.lsm.Keeps platform.env.platform table) (event : ServerEvent)
    (distinct : ((table ++ addedRows platform engine.store.built event).map Prod.fst).Nodup) :
    (engine.step platform event).store.lsm.Keeps platform.env.platform
        (table ++ addedRows platform engine.store.built event) ∧
      (engine.step platform event).store.built =
        engine.store.built + (addedRows platform engine.store.built event).length := by
  cases event with
  | restart =>
      rw [addedRows, List.append_nil]
      exact ⟨keeps.reopen, rfl⟩
  | query text =>
      cases carried : carriedInsert platform text with
      | none =>
          have kept : (execute platform engine text).2.store = engine.store :=
            (execute_over platform.env.platform platform.env.timing rfl (fun _ => rfl) carried).1
          simp only [addedRows, carried, List.append_nil, Engine.step, kept]
          exact ⟨keeps, rfl⟩
      | some stmt =>
          simp only [addedRows, carried] at distinct ⊢
          rw [Engine.step, execute_of_carriedInsert carried, executeStatement_insert, writeRows]
          refine ⟨Environment.keeps_insertRows ticks keeps distinct, ?_⟩
          rw [built_foldl_insertRow, Environment.length_builtRows]

/-- Two engines of the same catalog whose stores keep the same table. -/
structure Agree (platform : HandlerPlatform) (storage : Platform) (engine other : Engine)
    (table : List (RecordKey × FunRecord)) : Prop where
  catalog : other.catalog = engine.catalog
  built : other.store.built = engine.store.built
  keeps : engine.store.lsm.Keeps platform.env.platform table
  otherKeeps : other.store.lsm.Keeps storage table

theorem Agree.step {storage : Platform} (timing : Nat → FlushTiming) {other : Engine}
    (ticks : StrictMono platform.env.platform.clock) (otherTicks : StrictMono storage.clock)
    (agree : Agree platform storage engine other table) (event : ServerEvent)
    (distinct : ((table ++ addedRows platform engine.store.built event).map Prod.fst).Nodup) :
    other.answer (platform.onto storage timing) event = engine.answer platform event ∧
      Agree platform storage (engine.step platform event)
        (other.step (platform.onto storage timing) event)
        (table ++ addedRows platform engine.store.built event) := by
  have sameRows : addedRows (platform.onto storage timing) other.store.built event =
      addedRows platform engine.store.built event := by
    rw [agree.built, addedRows_over]
  have here := keeps_step platform ticks agree.keeps event distinct
  have there := keeps_step (platform.onto storage timing) otherTicks agree.otherKeeps event (by rwa [sameRows])
  rw [sameRows, agree.built] at there
  have scans (range : KeyRange) :
      other.store.lsm.scan range = engine.store.lsm.scan range := by
    rw [agree.keeps.scan_eq, agree.otherKeeps.scan_eq]
  suffices same : other.answer (platform.onto storage timing) event =
        engine.answer platform event ∧
      (other.step (platform.onto storage timing) event).catalog =
        (engine.step platform event).catalog from
    ⟨same.1, same.2, there.2.trans here.2.symm, here.1, there.1⟩
  cases event with
  | restart => exact ⟨rfl, rfl⟩
  | query text =>
      cases carried : carriedInsert platform text with
      | none =>
          have same := (execute_over storage timing agree.catalog scans carried).2
          rw [Engine.answer, Engine.answer, Engine.step, Engine.step, same]
          dsimp only
          exact ⟨rfl, rfl⟩
      | some stmt =>
          have otherCarried : carriedInsert (platform.onto storage timing) text = some stmt := by
            rw [carriedInsert_over, carried]
          have answered : (executeStatement (platform.onto storage timing) other (trim text)
              (.insert stmt)).1 =
                (executeStatement platform engine (trim text) (.insert stmt)).1 :=
            executeStatement_insert_over _ stmt
          rw [Engine.answer, Engine.answer, Engine.step, Engine.step,
            execute_of_carriedInsert carried, execute_of_carriedInsert otherCarried]
          refine ⟨congrArg some answered, ?_⟩
          rw [executeStatement_insert, executeStatement_insert, agree.catalog]

/-! ## Whole runs -/

theorem run_agree {storage : Platform} (timing : Nat → FlushTiming) {other : Engine}
    (ticks : StrictMono platform.env.platform.clock) (otherTicks : StrictMono storage.clock)
    (agree : Agree platform storage engine other table) (events : List ServerEvent)
    (distinct : ((table ++ insertedRows platform engine.store.built events).map
      Prod.fst).Nodup) :
    Execution.observations (Engine.step (platform.onto storage timing))
        (Engine.answer (platform.onto storage timing)) other events =
      Execution.observations (Engine.step platform) (Engine.answer platform) engine events ∧
    Agree platform storage (Execution.run (Engine.step platform) engine events)
      (Execution.run (Engine.step (platform.onto storage timing)) other events)
      (table ++ insertedRows platform engine.store.built events) ∧
    (Execution.run (Engine.step platform) engine events).store.built =
      engine.store.built + (insertedRows platform engine.store.built events).length := by
  induction events generalizing engine other table with
  | nil =>
      rw [Execution.run_nil, Execution.run_nil, insertedRows, List.append_nil,
        Execution.observations, Execution.observations]
      exact ⟨rfl, agree, rfl⟩
  | cons event events induction =>
      rw [insertedRows, ← List.append_assoc] at distinct ⊢
      have first : ((table ++ addedRows platform engine.store.built event).map
          Prod.fst).Nodup := by
        rw [List.map_append] at distinct
        exact distinct.of_append_left
      rcases agree.step timing ticks otherTicks event first with ⟨answer, next⟩
      have built := (keeps_step platform ticks agree.keeps event first).2
      rw [← built] at distinct ⊢
      rcases induction next distinct with ⟨answers, ends, count⟩
      rw [Execution.observations, Execution.observations, answer, answers, Execution.run_cons,
        Execution.run_cons]
      refine ⟨rfl, ends, ?_⟩
      rw [count, List.length_append, ← Nat.add_assoc, ← built]

theorem agree_opened (platform : HandlerPlatform) (storage : Platform)
    (timing : Nat → FlushTiming) (readings otherReadings : Nat) :
    Agree platform storage (Engine.opened platform readings)
      (Engine.opened (platform.onto storage timing) otherReadings) [] where
  catalog := rfl
  built := rfl
  keeps := LsmTree.keeps_openDir readings
  otherKeeps := LsmTree.keeps_openDir otherReadings

theorem distinct_insertedRows {events : List ServerEvent}
    (distinct : ((List.range (insertedRows platform 0 events).length).map
      platform.env.newId).Nodup) :
    ((insertedRows platform 0 events).map Prod.fst).Nodup := by
  rw [List.range_eq_range', ← ids_insertedRows] at distinct
  apply List.Nodup.of_map RecordKey.id
  rwa [List.map_map]

/-- Whenever a server that began with an empty directory is looked at, its store
shows the rows of the INSERTs carried out so far, except those of confidence zero. -/
theorem stored_exact (platform : HandlerPlatform) (ticks : StrictMono platform.env.platform.clock)
    (readings : Nat) (events : List ServerEvent)
    (distinct : ((List.range (insertedRows platform 0 events).length).map
      platform.env.newId).Nodup) :
    ∀ done, done <+: events →
      let table := insertedRows platform 0 done
      let store := (Execution.run (Engine.step platform) (Engine.opened platform readings)
        done).store
      store.built = table.length ∧
        (∀ range, store.lsm.scan range = rowsBetween table range) ∧
        ∀ key record, store.lsm.get platform.env.platform key = some record ↔
          (key, record) ∈ table ∧ record.confidence ≠ 0 := by
  intro done isPrefix table store
  rcases isPrefix with ⟨rest, rfl⟩
  have doneDistinct : (table.map Prod.fst).Nodup := by
    have all := distinct_insertedRows distinct
    rw [insertedRows_append, List.map_append] at all
    exact all.of_append_left
  rcases (run_agree platform.env.timing ticks ticks (agree_opened platform platform.env.platform
    platform.env.timing readings readings) done doneDistinct).2 with ⟨agree, count⟩
  have keeps : store.lsm.Keeps platform.env.platform table := agree.keeps
  refine ⟨count.trans (Nat.zero_add _), keeps.scan_eq, ?_⟩
  intro key record
  rw [keeps.get_eq_some_iff]
  simp [isTombstone]

/-- Two users are inserted, the server is started anew, and they are read. -/
def userEvents : List ServerEvent :=
  [.query "INSERT INTO users (name) VALUES ('a'), ('b')", .restart, .query "SELECT * FROM users"]

theorem stored_exact_users :
    (insertedRows plainHandlerPlatform 0 userEvents).length = 2 ∧
    ∀ done, done <+: userEvents →
      let table := insertedRows plainHandlerPlatform 0 done
      let store := (Execution.run (Engine.step plainHandlerPlatform)
        (Engine.opened plainHandlerPlatform 0) done).store
      store.built = table.length ∧
        (∀ range, store.lsm.scan range = rowsBetween table range) ∧
        ∀ key record, store.lsm.get plainPlatform key = some record ↔
          (key, record) ∈ table ∧ record.confidence ≠ 0 :=
  ⟨by decide +kernel,
    stored_exact plainHandlerPlatform plainPlatform_clock 0 userEvents (by decide +kernel)⟩

/-- On any two storages, with flushes and compactions wherever they come, a server
gives the same answers. -/
theorem answers_over (platform : HandlerPlatform) (storage : Platform)
    (timing : Nat → FlushTiming) (ticks : StrictMono platform.env.platform.clock)
    (otherTicks : StrictMono storage.clock) (readings otherReadings : Nat)
    (events : List ServerEvent)
    (distinct : ((List.range (insertedRows platform 0 events).length).map
      platform.env.newId).Nodup) :
    Execution.observations (Engine.step (platform.onto storage timing))
        (Engine.answer (platform.onto storage timing))
        (Engine.opened (platform.onto storage timing) otherReadings) events =
      Execution.observations (Engine.step platform) (Engine.answer platform)
        (Engine.opened platform readings) events :=
  (run_agree timing ticks otherTicks (agree_opened platform storage timing readings otherReadings) events
    (distinct_insertedRows distinct)).1

/-- Each write fills a memtable, which a task flushes behind the compaction. -/
theorem answers_over_flushing :
    let storage := { plainPlatform with recordSize := 64 * 1024 * 1024 }
    Execution.observations
        (Engine.step (plainHandlerPlatform.onto storage fun _ => .afterCompaction))
        (Engine.answer (plainHandlerPlatform.onto storage fun _ => .afterCompaction))
        (Engine.opened (plainHandlerPlatform.onto storage fun _ => .afterCompaction) 7)
        userEvents =
      Execution.observations (Engine.step plainHandlerPlatform)
        (Engine.answer plainHandlerPlatform) (Engine.opened plainHandlerPlatform 0)
        userEvents := by
  intro storage
  have distinct : ((List.range (insertedRows plainHandlerPlatform 0 userEvents).length).map
      plainHandlerPlatform.env.newId).Nodup := by
    decide +kernel
  exact answers_over plainHandlerPlatform storage (fun _ => .afterCompaction) plainPlatform_clock
    plainPlatform_clock 0 7 userEvents distinct

end FunDB.Server
