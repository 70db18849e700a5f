import FunDB.Executor.InsertAtomicity
import FunDB.Executor.Pipeline
import FunDB.Storage.Recovery

/-! # Tables of records written once

A tree in which no key is written twice reads as the list of what was written,
wherever flushes, compactions and reopening have put the records. -/

namespace FunDB.Storage

open KeyedList Overlay
open Executor (present_inserted_of_ne sole_inserted sole_inserted_of_ne)

/-- The live rows of a table between two keys, in the order of their keys. -/
def rowsBetween (table : List (RecordKey × FunRecord)) (range : KeyRange) :
    List (RecordKey × FunRecord) :=
  sortByKey (table.filter fun row => range.contains row.1 && !isTombstone row.2)

theorem mem_rowsBetween_iff (table : List (RecordKey × FunRecord)) (range : KeyRange)
    (row : RecordKey × FunRecord) :
    row ∈ rowsBetween table range ↔
      row ∈ table ∧ range.contains row.1 = true ∧ isTombstone row.2 = false := by
  rw [rowsBetween, (sortByKey_perm _).mem_iff, List.mem_filter, Bool.and_eq_true,
    Bool.not_eq_true']

namespace LsmTree

variable (platform : Platform)

/-- A settled tree that holds and has logged the rows of a table, and nothing
else. -/
structure Keeps (tree : LsmTree) (table : List (RecordKey × FunRecord)) : Prop where
  settled : tree.Settled platform
  written : tree.FilesWritten platform
  distinct : (table.map Prod.fst).Nodup
  logged : tree.wal.entries = table.map fun row => .write 0 row.1 row.2
  sole : ∀ row ∈ table, tree.Sole platform row.1 row.2
  only : ∀ key record, tree.Present platform key record → (key, record) ∈ table

variable {platform} {tree : LsmTree} {table : List (RecordKey × FunRecord)}

/-! ## Reads -/

theorem Keeps.record_eq (keeps : tree.Keeps platform table) (key : RecordKey) :
    tree.record platform key = find table key := by
  cases found : find table key with
  | none =>
      cases held : tree.record platform key with
      | none => rfl
      | some record =>
          have member := keeps.only key record (present_of_record held)
          rw [find_of_mem keeps.distinct member] at found
          cases found
  | some record => exact (keeps.sole _ (mem_of_find found)).answers

theorem Keeps.get_eq (keeps : tree.Keeps platform table) (key : RecordKey) :
    tree.get platform key = (find table key).bind filterTombstone := by
  rw [get_eq_record, keeps.record_eq]

theorem Keeps.get_eq_some_iff (keeps : tree.Keeps platform table) (key : RecordKey)
    (record : FunRecord) :
    tree.get platform key = some record ↔ (key, record) ∈ table ∧ isTombstone record = false := by
  rw [keeps.get_eq, Option.bind_eq_some_iff]
  simp only [filterTombstone_eq_some_iff, Bool.not_eq_true']
  constructor
  · intro read
    rcases read with ⟨held, found, rfl, live⟩
    exact ⟨mem_of_find found, live⟩
  · intro row
    exact ⟨record, find_of_mem keeps.distinct row.1, rfl, row.2⟩

/-- The rows between two keys are in strict order when no key is repeated. -/
theorem rowsBetween_sorted (distinct : (table.map Prod.fst).Nodup) (range : KeyRange) :
    (rowsBetween table range).Pairwise fun left right => left.1 < right.1 := by
  have different : (rowsBetween table range).Pairwise fun left right => left.1 ≠ right.1 := by
    have kept := distinct_filter distinct fun row => range.contains row.1 && !isTombstone row.2
    exact List.pairwise_map.mp ((((sortByKey_perm _).map Prod.fst).nodup_iff).mpr kept)
  exact (sortByKey_pairwise _).imp₂ (fun _ _ le ne => lt_of_le_of_ne le ne) different

/-- A scan lists the live rows of the table in its range. -/
theorem Keeps.scan_eq (keeps : tree.Keeps platform table) (range : KeyRange) :
    tree.scan range = rowsBetween table range := by
  have scanned := scan_sorted tree range
  have listed := rowsBetween_sorted keeps.distinct range
  have nodup {rows : List (RecordKey × FunRecord)}
      (sorted : rows.Pairwise fun left right => left.1 < right.1) : rows.Nodup :=
    sorted.imp fun below same => absurd (congrArg Prod.fst same) below.ne
  have perm : (tree.scan range).Perm (rowsBetween table range) := by
    apply (List.perm_ext_iff_of_nodup (nodup scanned) (nodup listed)).mpr
    intro row
    rw [mem_rowsBetween_iff, mem_scan_iff keeps.written, keeps.get_eq_some_iff]
    exact and_left_comm
  exact perm.eq_of_pairwise (fun _ _ _ _ below above => absurd below above.asymm) scanned listed

/-! ## Writes and reopening -/

theorem keeps_openDir (readings : Nat) : (openDir platform [] [] readings).Keeps platform [] where
  settled := openDir_settled readings
  written file member := by cases member
  distinct := List.nodup_nil
  logged := rfl
  sole row member := by cases member
  only key record present := by
    rcases present with active | ⟨immutable, member, _⟩ | ⟨file, member, _⟩
    · simp [openDir] at active
    · cases member
    · cases member

theorem wal_write (ticks : StrictMono platform.clock) (settled : tree.Settled platform)
    (key : RecordKey) (record : FunRecord) (timing : FlushTiming) :
    (tree.write platform key record timing).wal = (tree.inserted platform key record).wal := by
  rw [write_eq]
  split
  · exact (flushMemtable_moves ticks (inserted_settled settled key record) timing).sameLog
  · rfl

theorem Keeps.write (ticks : StrictMono platform.clock) (keeps : tree.Keeps platform table)
    {key : RecordKey} (new : key ∉ table.map Prod.fst) (record : FunRecord)
    (timing : FlushTiming) :
    (tree.write platform key record timing).Keeps platform (table ++ [(key, record)]) := by
  have absent (found : FunRecord) : ¬ tree.Present platform key found :=
    fun present => new (List.mem_map.mpr ⟨_, keeps.only key found present, rfl⟩)
  have here : (tree.inserted platform key record).Sole platform key record :=
    sole_inserted absent
  have spec := @tryWrite_spec platform tree none ticks keeps.settled key record timing (by decide)
  rw [tryWrite_none] at spec
  constructor
  · exact spec.2.2 rfl
  · exact filesWritten_apply keeps.written (.write key record timing)
  · rw [List.map_append, List.nodup_append']
    exact ⟨keeps.distinct, List.nodup_singleton _,
      fun other member isNew => new ((List.mem_singleton.mp isNew : other = key) ▸ member)⟩
  · have entries : (tree.inserted platform key record).wal.entries =
        tree.wal.entries ++ [.write 0 key record] := rfl
    rw [wal_write ticks keeps.settled, entries, keeps.logged, List.map_append]
    rfl
  · intro row member
    rcases List.mem_append.mp member with earlier | last
    · have different : key ≠ row.1 := fun same => new (same ▸ List.mem_map_of_mem earlier)
      exact (sole_inserted_of_ne different (keeps.sole row earlier)).of_rearranged spec.1
    · rw [List.mem_singleton.mp last]
      exact here.of_rearranged spec.1
  · intro other found present
    have held := spec.1.present other found present
    by_cases same : key = other
    · subst same
      rw [here.alone found held]
      exact List.mem_append_right _ List.mem_cons_self
    · exact List.mem_append_left _ (keeps.only other found (present_inserted_of_ne same held))

theorem lastLogged_writes (distinct : (table.map Prod.fst).Nodup) (key : RecordKey) :
    lastLogged (table.map fun row => .write 0 row.1 row.2) key = find table key := by
  induction table using List.reverseRecOn with
  | nil => rfl
  | append_singleton earlier row induction =>
      rw [List.map_append, List.nodup_append'] at distinct
      rw [List.map_append, List.map_singleton, lastLogged_concat, induction distinct.1, find_append,
        WalEntry.written, find_cons, find_nil]
      by_cases same : row.1 = key
      · have absent : find earlier key = none :=
          (find_eq_none_iff _ _).mpr fun member =>
            distinct.2.2 member (List.mem_singleton.mpr same.symm)
        rw [if_pos same, if_pos same, absent, Option.none_or, Option.some_or]
      · rw [if_neg same, if_neg same, Option.none_or, Option.or_none]

theorem Keeps.reopen (keeps : tree.Keeps platform table) :
    (tree.reopen platform).Keeps platform table := by
  have replayed (key : RecordKey) :
      (tree.reopen platform).active.get key = find table key := by
    have active : (tree.reopen platform).active =
        tree.wal.entries.foldl (replayEntry platform) MemTable.new := rfl
    rw [active, get_replay, keeps.logged, lastLogged_writes keeps.distinct]
  have only (key : RecordKey) (record : FunRecord)
      (present : (tree.reopen platform).Present platform key record) : (key, record) ∈ table := by
    rcases present with active | ⟨immutable, member, _⟩ | inFile
    · rw [replayed] at active
      exact mem_of_find active
    · cases member
    · exact keeps.only key record (.inr (.inr inFile))
  refine ⟨⟨rfl, keeps.settled.files⟩, keeps.written, keeps.distinct, keeps.logged, ?_, only⟩
  intro row member
  have found := find_of_mem keeps.distinct member
  constructor
  · rw [record, replayed, found, Option.some_or]
  · intro other present
    have otherFound := find_of_mem keeps.distinct (only row.1 other present)
    rw [found] at otherFound
    exact (Option.some.inj otherFound).symm

end LsmTree

end FunDB.Storage

namespace FunDB.Executor

open Storage Sql Optimizer LsmTree

/-! ## Plans that write nothing -/

/-- The plan inserts nothing. -/
def Reads : LogicalPlan → Prop
  | .insert _ _ _ => False
  | .filter input _ | .project input _ | .limit input _ | .sort input _ => Reads input
  | _ => True

theorem reads_predicatePushdown {plan : LogicalPlan} (reads : Reads plan) :
    Reads (predicatePushdown plan) := by
  fun_induction predicatePushdown plan with
  | case1 child exprs predicate induction => exact induction reads
  | case2 other predicate _ induction => exact induction reads
  | case3 input exprs induction => exact induction reads
  | case4 | case5 | case8 => trivial
  | case6 input orderBy induction => exact induction reads
  | case7 input n induction => exact induction reads
  | case9 => exact reads

theorem reads_limitPushdown {plan : LogicalPlan} (reads : Reads plan) :
    Reads (limitPushdown plan) := by
  fun_induction limitPushdown plan with
  | case1 child exprs n induction => exact induction reads
  | case2 other n _ induction => exact induction reads
  | case3 input predicate induction => exact induction reads
  | case4 input exprs induction => exact induction reads
  | case5 | case6 | case8 => trivial
  | case7 input orderBy induction => exact induction reads
  | case9 => exact reads

theorem reads_eliminateRedundantProject {plan : LogicalPlan} (reads : Reads plan) :
    Reads (eliminateRedundantProject plan) := by
  fun_induction eliminateRedundantProject plan with
  | case1 input induction => exact induction reads
  | case2 input exprs _ induction => exact induction reads
  | case3 input predicate induction => exact induction reads
  | case4 | case5 | case8 => trivial
  | case6 input orderBy induction => exact induction reads
  | case7 input n induction => exact induction reads
  | case9 => exact reads

theorem reads_constantFold {plan : LogicalPlan} (reads : Reads plan) :
    Reads (constantFold plan) := by
  fun_induction constantFold plan with
  | case1 input predicate induction => exact induction reads
  | case2 input exprs induction => exact induction reads
  | case3 | case4 | case7 | case8 => trivial
  | case5 input orderBy induction => exact induction reads
  | case6 input n induction => exact induction reads
  | case9 => exact reads

theorem reads_vectorScanElideFilter {plan : LogicalPlan} (reads : Reads plan) :
    Reads (vectorScanElideFilter plan) := by
  fun_induction vectorScanElideFilter plan with
  | case1 | case2 => trivial
  | case3 other predicate _ induction => exact induction reads
  | case4 input exprs induction => exact induction reads
  | case5 | case6 | case9 => trivial
  | case7 input orderBy induction => exact induction reads
  | case8 input n induction => exact induction reads
  | case10 => exact reads

theorem reads_optimizeLoop (rounds : Nat) {plan : LogicalPlan} (reads : Reads plan) :
    Reads (optimizeLoop rounds plan) := by
  induction rounds generalizing plan with
  | zero => exact reads
  | succ rounds induction =>
      rw [optimizeLoop]
      split
      · exact reads
      · exact induction (reads_vectorScanElideFilter (reads_constantFold
          (reads_eliminateRedundantProject (reads_limitPushdown
            (reads_predicatePushdown reads)))))

namespace Environment

/-- The same environment over other storage. -/
def onto (env : Environment) (platform : Platform) (timing : Nat → FlushTiming) : Environment :=
  { env with platform := platform, timing := timing }

variable (env : Environment) (platform : Platform) (timing : Nat → FlushTiming)

theorem evalExpr_over (expr : Expr) (record : FunRecord) :
    (env.onto platform timing).evalExpr expr record = env.evalExpr expr record := by
  fun_induction evalExpr env expr record with
  | case1 | case2 => rfl
  | case3 record left right first second => rw [evalExpr, first, second]
  | case4 record left right first second => rw [evalExpr, first, second]
  | case5 record operand induction => rw [evalExpr, induction]
  | case6 op left right record notAnd notOr =>
      rw [evalExpr]
      · rfl
      · exact notAnd
      · exact notOr
  | case7 =>
      rw [evalExpr]
      all_goals assumption

theorem compareRecords_over (left right : FunRecord) (orderBy : List SortExpr) :
    (env.onto platform timing).compareRecords left right orderBy =
      env.compareRecords left right orderBy := by
  induction orderBy with
  | nil => rfl
  | cons item orderBy induction =>
      rw [compareRecords, compareRecords, induction]
      rfl

theorem filter_over (operator : FilterOperator) :
    FilterOperator.execute (env.onto platform timing) operator =
      FilterOperator.execute env operator := by
  rw [FilterOperator.execute, FilterOperator.execute]
  simp only [evalExpr_over]

theorem sort_over (operator : SortOperator) :
    SortOperator.execute (env.onto platform timing) operator =
      SortOperator.execute env operator := by
  rw [SortOperator.execute, SortOperator.execute]
  simp only [compareRecords_over]

theorem scanOperator_congr {store other : Store}
    (scans : ∀ range, other.lsm.scan range = store.lsm.scan range) (collection : String) :
    (ScanOperator.mk collection other.lsm).execute =
      (ScanOperator.mk collection store.lsm).execute := by
  rw [ScanOperator.execute, ScanOperator.execute, scans]

/-- A plan that reads leaves the store, and its answer comes from what scans show. -/
theorem executePlan_over {plan : LogicalPlan} (reads : Reads plan) {store other : Store}
    (scans : ∀ range, other.lsm.scan range = store.lsm.scan range) :
    (env.executePlan plan store).2 = store ∧
      (env.onto platform timing).executePlan plan other =
        ((env.executePlan plan store).1, other) := by
  have scanned := scanOperator_congr scans
  induction plan with
  | scan collection predicate projections =>
      rw [executePlan_scan, executePlan_scan, scanned]
      cases predicate with
      | none => exact ⟨rfl, rfl⟩
      | some predicate => exact ⟨rfl, Prod.ext (filter_over env platform timing _) rfl⟩
  | vectorScan collection vectorField query threshold =>
      refine ⟨rfl, ?_⟩
      simp only [executePlan, VectorScanOperator.execute, scanned]
      rfl
  | filter input predicate induction =>
      rcases induction reads with ⟨kept, same⟩
      rw [executePlan, executePlan, same]
      exact ⟨kept, Prod.ext (filter_over env platform timing _) rfl⟩
  | project input exprs induction =>
      rcases induction reads with ⟨kept, same⟩
      rw [executePlan, executePlan, same]
      exact ⟨kept, rfl⟩
  | limit input n induction =>
      rcases induction reads with ⟨kept, same⟩
      rw [executePlan, executePlan, same]
      exact ⟨kept, rfl⟩
  | sort input orderBy induction =>
      rcases induction reads with ⟨kept, same⟩
      rw [executePlan, executePlan, same]
      exact ⟨kept, Prod.ext (sort_over env platform timing _) rfl⟩
  | insert collection columns values => exact reads.elim
  | _ => exact ⟨rfl, rfl⟩

/-- Reading queries see the rows that scans show, on whatever storage. -/
theorem execute_over {plan : LogicalPlan} (reads : Reads plan) {store other : Store}
    (scans : ∀ range, other.lsm.scan range = store.lsm.scan range) :
    (env.execute plan store).2 = store ∧
      (env.onto platform timing).execute plan other = ((env.execute plan store).1, other) :=
  executePlan_over env platform timing (reads_optimizeLoop 8 reads) scans

/-! ## Rows of an INSERT -/

/-- The rows of an INSERT, when so many records have been built before. -/
def builtRows (collection : String) (columns : List String) :
    Nat → List (List Expr) → List (RecordKey × FunRecord)
  | _, [] => []
  | built, row :: rows =>
      (env.rowKey collection built, env.rowRecord collection columns built row) ::
        builtRows collection columns (built + 1) rows

variable {env}

@[simp] theorem length_builtRows (collection : String) (columns : List String) (built : Nat)
    (rows : List (List Expr)) :
    (env.builtRows collection columns built rows).length = rows.length := by
  induction rows generalizing built with
  | nil => rfl
  | cons row rows induction => rw [builtRows, List.length_cons, induction, List.length_cons]

theorem keys_builtRows (collection : String) (columns : List String) (built : Nat)
    (rows : List (List Expr)) :
    (env.builtRows collection columns built rows).map (fun row => row.1.id) =
      (List.range' built rows.length).map env.newId := by
  induction rows generalizing built with
  | nil => rfl
  | cons row rows induction =>
      rw [builtRows, List.map_cons, induction, List.length_cons, List.range'_succ, List.map_cons]
      rfl

theorem builtRows_over (platform : Platform) (timing : Nat → FlushTiming) (collection : String)
    (columns : List String) (built : Nat) (rows : List (List Expr)) :
    (env.onto platform timing).builtRows collection columns built rows =
      env.builtRows collection columns built rows := by
  induction rows generalizing built with
  | nil => rfl
  | cons row rows induction =>
      rw [builtRows, induction]
      rfl

/-- The rows of an INSERT are added to the table, when their identifiers are new. -/
theorem keeps_insertRows (ticks : StrictMono env.platform.clock) {collection : String}
    {columns : List String} {rows : List (List Expr)} {store : Store}
    {table : List (RecordKey × FunRecord)} (keeps : store.lsm.Keeps env.platform table)
    (distinct : ((table ++ env.builtRows collection columns store.built rows).map
      Prod.fst).Nodup) :
    (rows.foldl (env.insertRow collection columns) store).lsm.Keeps env.platform
      (table ++ env.builtRows collection columns store.built rows) := by
  induction rows generalizing store table with
  | nil => simpa [builtRows] using keeps
  | cons row rows induction =>
      have split : table ++ env.builtRows collection columns store.built (row :: rows) =
          (table ++ [(env.rowKey collection store.built,
            env.rowRecord collection columns store.built row)]) ++
          env.builtRows collection columns (store.built + 1) rows := by
        rw [builtRows, List.append_assoc]
        rfl
      rw [split] at distinct ⊢
      rw [List.foldl_cons]
      have new : env.rowKey collection store.built ∉ table.map Prod.fst := by
        rw [List.map_append, List.nodup_append', List.map_append, List.nodup_append'] at distinct
        exact fun member => distinct.1.2.2 member List.mem_cons_self
      exact induction (keeps.write ticks new _ (env.timing store.built)) distinct

end Environment

end FunDB.Executor
