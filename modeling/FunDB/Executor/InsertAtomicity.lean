import FunDB.Executor.FallibleExecution
import FunDB.Optimizer.Preservation

/-! # Insertions that fail half way

After an error a scan shows the rows that had reached a memtable. It shows what
it showed before only if all of these are of confidence zero, which makes them
tombstones, and the merge of a compaction left no broken file. -/

namespace FunDB.Executor

open Storage Sql Optimizer LsmTree

namespace Environment

variable (env : Environment) (faults : Nat → Option WriteFault)

/-- What a scan of the collection returns after an error. It fails on a part of a
merged file. -/
def scanAfter (error : WriteFault) (collection : String) (lsm : LsmTree) : Option RecordBatch :=
  if error = .merge .part then none else some (ScanOperator.mk collection lsm).execute

/-- Every row that reaches a memtable before the error is of confidence zero, and
the error leaves no part of a merged file. -/
def Unseen (collection : String) (columns : List String) : List (List Expr) → Store → Prop
  | [], _ => True
  | row :: rows, store =>
      Behind (faults store.built) →
        (env.rowRecord collection columns store.built row).confidence = 0 ∧
          match env.tryInsertRow faults collection columns store row with
          | (.ok _, store) => Unseen collection columns rows store
          | (.error error, _) => error ≠ .merge .part

/-- The compactions that the writes up to the error complete are safe. -/
def SafeWrites (collection : String) (columns : List String) : List (List Expr) → Store → Prop
  | [], _ => True
  | row :: rows, store =>
      store.lsm.SafeWrite env.platform (env.rowKey collection store.built)
          (env.rowRecord collection columns store.built row) (env.timing store.built)
          (faults store.built) ∧
        match env.tryInsertRow faults collection columns store row with
        | (.ok _, store) => SafeWrites collection columns rows store
        | (.error _, _) => True

/-- The identifiers drawn for the next `count` records are different from each
other and from those of stored records. -/
structure FreshIds (collection : String) (store : Store) (count : Nat) : Prop where
  distinct : ∀ first second, first < second → second < count →
    env.newId (store.built + first) ≠ env.newId (store.built + second)
  unused : ∀ place, place < count → ∀ record,
    ¬ store.lsm.Present env.platform (env.rowKey collection (store.built + place)) record

end Environment

/-! ## Records of other keys -/

section Trees

variable {platform : Platform} {tree : LsmTree} {key other : RecordKey} {record : FunRecord}

theorem present_inserted_of_ne (different : key ≠ other) {found : FunRecord}
    (present : (tree.inserted platform key record).Present platform other found) :
    tree.Present platform other found := by
  rcases present with inActive | elsewhere
  · have same : (tree.inserted platform key record).active =
        tree.active.insert platform key record := rfl
    rw [same, MemTable.get_insert, if_neg different] at inActive
    exact .inl inActive
  · exact .inr elsewhere

theorem record_inserted_of_ne (different : key ≠ other) :
    (tree.inserted platform key record).record platform other = tree.record platform other := by
  rw [inserted, FlushSystem.record_insertActive, if_neg different]
  rfl

theorem sole_inserted_of_ne (different : key ≠ other) {found : FunRecord}
    (sole : tree.Sole platform other found) :
    (tree.inserted platform key record).Sole platform other found where
  answers := by rw [record_inserted_of_ne different, sole.answers]
  alone another present := sole.alone another (present_inserted_of_ne different present)

theorem sole_inserted (absent : ∀ found, ¬ tree.Present platform key found) :
    (tree.inserted platform key record).Sole platform key record where
  answers := record_inserted tree key record
  alone found present := by
    rcases present with inActive | elsewhere
    · rw [active_inserted] at inActive
      exact (Option.some.inj inActive).symm
    · exact absurd (.inr elsewhere) (absent found)

theorem get_of_absent (absent : ∀ found, ¬ tree.Present platform key found) :
    tree.get platform key = none := by
  rw [get_eq_record]
  cases held : tree.record platform key with
  | none => rfl
  | some found => exact absurd (present_of_record held) (absent found)

theorem get_of_sameSources {after : LsmTree} (active : after.active = tree.active)
    (immutables : after.immutables = tree.immutables) (files : after.sstables = tree.sstables)
    (key : RecordKey) : after.get platform key = tree.get platform key := by
  rw [LsmTree.get, LsmTree.get, active, immutables, files]

theorem filterTombstone_eq_none_iff : filterTombstone record = none ↔ record.confidence = 0 := by
  simp [filterTombstone, isTombstone]

end Trees

namespace Environment

variable {env : Environment} {faults : Nat → Option WriteFault} {collection : String}
  {columns : List String} {store : Store} {row : List Expr}

/-! ## Identifiers -/

theorem FreshIds.head_absent {count : Nat} (fresh : FreshIds env collection store (count + 1))
    (record : FunRecord) :
    ¬ store.lsm.Present env.platform (env.rowKey collection store.built) record :=
  fresh.unused 0 (Nat.succ_pos count) record

theorem FreshIds.key_ne {count place : Nat} (fresh : FreshIds env collection store (count + 1))
    (within : place < count) :
    env.rowKey collection store.built ≠ env.rowKey collection (store.built + 1 + place) := by
  intro same
  apply fresh.distinct 0 (place + 1) (Nat.succ_pos place) (Nat.succ_lt_succ within)
  have sameId := congrArg RecordKey.id same
  rwa [Nat.add_assoc, Nat.add_comm 1 place] at sameId

/-- The sources of a store after a row of another key. -/
theorem present_tryInsertRow_of_ne (ticks : StrictMono env.platform.clock)
    (settled : store.lsm.Settled env.platform) {key : RecordKey}
    (different : env.rowKey collection store.built ≠ key) {record : FunRecord}
    (present : (env.tryInsertRow faults collection columns store row).2.lsm.Present env.platform
      key record) : store.lsm.Present env.platform key record := by
  by_cases behind : Behind (faults store.built)
  · have spec := tryWrite_spec ticks settled (env.rowKey collection store.built)
      (env.rowRecord collection columns store.built row) (env.timing store.built) behind
    exact present_inserted_of_ne different (spec.1.present key record present)
  · rcases tryWrite_of_not_behind (env.rowKey collection store.built)
      (env.rowRecord collection columns store.built row) (env.timing store.built) behind with
      ⟨error, after, same, _, active, immutables, files⟩
    rw [tryInsertRow, same] at present
    simp only [Present, active, immutables, files] at present
    exact present

theorem FreshIds.tail {count : Nat} (ticks : StrictMono env.platform.clock)
    (settled : store.lsm.Settled env.platform)
    (fresh : FreshIds env collection store (count + 1)) :
    FreshIds env collection (env.tryInsertRow faults collection columns store row).2 count where
  distinct first second before within := by
    have shifted := fresh.distinct (first + 1) (second + 1) (Nat.succ_lt_succ before)
      (Nat.succ_lt_succ within)
    have sameFirst : store.built + 1 + first = store.built + (first + 1) := by omega
    have sameSecond : store.built + 1 + second = store.built + (second + 1) := by omega
    change env.newId (store.built + 1 + first) ≠ env.newId (store.built + 1 + second)
    rwa [sameFirst, sameSecond]
  unused place within record present := by
    have earlier := present_tryInsertRow_of_ne ticks settled (fresh.key_ne within) present
    have samePlace : store.built + 1 + place = store.built + (place + 1) := by omega
    rw [samePlace] at earlier
    exact fresh.unused (place + 1) (Nat.succ_lt_succ within) record earlier

/-! ## One row -/

theorem sole_tryInsertRow_of_ne (ticks : StrictMono env.platform.clock)
    (settled : store.lsm.Settled env.platform) {key : RecordKey}
    (different : env.rowKey collection store.built ≠ key) {record : FunRecord}
    (sole : store.lsm.Sole env.platform key record) :
    (env.tryInsertRow faults collection columns store row).2.lsm.Sole env.platform key record := by
  by_cases behind : Behind (faults store.built)
  · have spec := tryWrite_spec ticks settled (env.rowKey collection store.built)
      (env.rowRecord collection columns store.built row) (env.timing store.built) behind
    exact (sole_inserted_of_ne different sole).of_rearranged spec.1
  · rcases tryWrite_of_not_behind (env.rowKey collection store.built)
      (env.rowRecord collection columns store.built row) (env.timing store.built) behind with
      ⟨error, after, same, _, active, immutables, files⟩
    rw [tryInsertRow, same]
    constructor
    · simp only [LsmTree.record, active, immutables, files]
      exact sole.answers
    · intro other present
      simp only [Present, active, immutables, files] at present
      exact sole.alone other present

theorem sole_tryInsertRow (ticks : StrictMono env.platform.clock)
    (settled : store.lsm.Settled env.platform)
    (absent : ∀ found, ¬ store.lsm.Present env.platform (env.rowKey collection store.built) found)
    (behind : Behind (faults store.built)) :
    (env.tryInsertRow faults collection columns store row).2.lsm.Sole env.platform
      (env.rowKey collection store.built)
      (env.rowRecord collection columns store.built row) := by
  have spec := tryWrite_spec ticks settled (env.rowKey collection store.built)
    (env.rowRecord collection columns store.built row) (env.timing store.built) behind
  exact (sole_inserted absent).of_rearranged spec.1

theorem settled_tryInsertRow (ticks : StrictMono env.platform.clock)
    (settled : store.lsm.Settled env.platform)
    (done : (env.tryInsertRow faults collection columns store row).1 = .ok ()) :
    (env.tryInsertRow faults collection columns store row).2.lsm.Settled env.platform := by
  by_cases behind : Behind (faults store.built)
  · exact (tryWrite_spec ticks settled (env.rowKey collection store.built)
      (env.rowRecord collection columns store.built row) (env.timing store.built) behind).2.2 done
  · rcases tryWrite_of_not_behind (env.rowKey collection store.built)
      (env.rowRecord collection columns store.built row) (env.timing store.built) behind with
      ⟨error, after, same, _⟩
    rw [tryInsertRow, same] at done
    cases done

/-- A row of confidence zero, or one that fails before its insert, changes no
read. -/
theorem get_tryInsertRow (ticks : StrictMono env.platform.clock)
    (settled : store.lsm.Settled env.platform)
    (absent : ∀ found, ¬ store.lsm.Present env.platform (env.rowKey collection store.built) found)
    (safe : store.lsm.SafeWrite env.platform (env.rowKey collection store.built)
      (env.rowRecord collection columns store.built row) (env.timing store.built)
      (faults store.built))
    (hidden : Behind (faults store.built) →
      (env.rowRecord collection columns store.built row).confidence = 0) (key : RecordKey) :
    (env.tryInsertRow faults collection columns store row).2.lsm.get env.platform key =
      store.lsm.get env.platform key := by
  by_cases behind : Behind (faults store.built)
  · have spec := tryWrite_spec ticks settled (env.rowKey collection store.built)
      (env.rowRecord collection columns store.built row) (env.timing store.built) behind
    have kept := spec.2.1 safe key
    rw [get_inserted] at kept
    refine kept.trans ?_
    split
    · rename_i same
      rw [filterTombstone_eq_none_iff.mpr (hidden behind), ← same, get_of_absent absent]
    · rfl
  · rcases tryWrite_of_not_behind (env.rowKey collection store.built)
      (env.rowRecord collection columns store.built row) (env.timing store.built) behind with
      ⟨error, after, same, _, active, immutables, files⟩
    rw [tryInsertRow, same]
    exact get_of_sameSources active immutables files key

/-- A fault before the insert is an error, and not one of a merge. -/
theorem tryInsertRow_ne_ok (early : ¬ Behind (faults store.built)) :
    (env.tryInsertRow faults collection columns store row).1 ≠ .ok () := by
  rcases tryWrite_of_not_behind (env.rowKey collection store.built)
    (env.rowRecord collection columns store.built row) (env.timing store.built) early with
    ⟨error, after, same, _⟩
  rw [tryInsertRow, same]
  simp

theorem tryInsertRow_ne_part (early : ¬ Behind (faults store.built)) :
    (env.tryInsertRow faults collection columns store row).1 ≠ .error (.merge .part) := by
  rcases tryWrite_of_not_behind (env.rowKey collection store.built)
    (env.rowRecord collection columns store.built row) (env.timing store.built) early with
    ⟨error, after, same, other, _⟩
  rw [tryInsertRow, same]
  simpa using other

/-! ## All rows -/

section Rows

variable {rows : List (List Expr)}

theorem tryInsertRows_of_ok
    (done : (env.tryInsertRow faults collection columns store row).1 = .ok ()) :
    env.tryInsertRows faults collection columns (row :: rows) store =
      env.tryInsertRows faults collection columns rows
        (env.tryInsertRow faults collection columns store row).2 := by
  rw [tryInsertRows]
  split
  · rename_i same
    rw [same]
  · rename_i same
    rw [same] at done
    cases done

theorem tryInsertRows_of_error {error : WriteFault}
    (failed : (env.tryInsertRow faults collection columns store row).1 = .error error) :
    env.tryInsertRows faults collection columns (row :: rows) store =
      (.error error, (env.tryInsertRow faults collection columns store row).2) := by
  rw [tryInsertRows]
  split
  · rename_i same
    rw [same] at failed
    cases failed
  · rename_i same
    rw [same] at failed ⊢
    cases failed
    rfl

theorem unseen_cons_iff : Unseen env faults collection columns (row :: rows) store ↔
    (Behind (faults store.built) →
      (env.rowRecord collection columns store.built row).confidence = 0 ∧
        ((env.tryInsertRow faults collection columns store row).1 = .ok () →
          Unseen env faults collection columns rows
            (env.tryInsertRow faults collection columns store row).2) ∧
        (env.tryInsertRow faults collection columns store row).1 ≠ .error (.merge .part)) := by
  rw [Unseen]
  cases env.tryInsertRow faults collection columns store row with
  | mk result after => cases result <;> simp

theorem safeWrites_cons_iff : SafeWrites env faults collection columns (row :: rows) store ↔
    store.lsm.SafeWrite env.platform (env.rowKey collection store.built)
        (env.rowRecord collection columns store.built row) (env.timing store.built)
        (faults store.built) ∧
      ((env.tryInsertRow faults collection columns store row).1 = .ok () →
        SafeWrites env faults collection columns rows
          (env.tryInsertRow faults collection columns store row).2) := by
  rw [SafeWrites]
  cases env.tryInsertRow faults collection columns store row with
  | mk result after => cases result <;> simp

/-- What is in a memtable stays through the rows that follow. -/
theorem sole_tryInsertRows (ticks : StrictMono env.platform.clock)
    (settled : store.lsm.Settled env.platform) {key : RecordKey}
    (different : ∀ place, place < rows.length →
      env.rowKey collection (store.built + place) ≠ key) {record : FunRecord}
    (sole : store.lsm.Sole env.platform key record) :
    (env.tryInsertRows faults collection columns rows store).2.lsm.Sole env.platform key
      record := by
  induction rows generalizing store with
  | nil => exact sole
  | cons row rows induction =>
      have here : (env.tryInsertRow faults collection columns store row).2.lsm.Sole env.platform
          key record :=
        sole_tryInsertRow_of_ne ticks settled (different 0 (Nat.succ_pos _)) sole
      cases outcome : (env.tryInsertRow faults collection columns store row).1 with
      | error error =>
          rw [tryInsertRows_of_error outcome]
          exact here
      | ok done =>
          rw [tryInsertRows_of_ok outcome]
          apply induction (settled_tryInsertRow ticks settled outcome) _ here
          intro place within
          have shifted := different (place + 1) (Nat.succ_lt_succ within)
          rwa [← Nat.add_assoc, Nat.add_right_comm] at shifted

/-- If the records of the rows cannot be read at the end, none of them reached a
memtable with a confidence. -/
theorem unseen_of_hidden (ticks : StrictMono env.platform.clock)
    (settled : store.lsm.Settled env.platform)
    (fresh : FreshIds env collection store rows.length)
    (whole : (env.tryInsertRows faults collection columns rows store).1 ≠ .error (.merge .part))
    (hidden : ∀ place, place < rows.length →
      (env.tryInsertRows faults collection columns rows store).2.lsm.get env.platform
        (env.rowKey collection (store.built + place)) = none) :
    Unseen env faults collection columns rows store := by
  induction rows generalizing store with
  | nil => trivial
  | cons row rows induction =>
      have here (behind : Behind (faults store.built)) :
          (env.tryInsertRow faults collection columns store row).2.lsm.Sole env.platform
            (env.rowKey collection store.built)
            (env.rowRecord collection columns store.built row) :=
        sole_tryInsertRow ticks settled fresh.head_absent behind
      have unread {lsm : LsmTree} {record : FunRecord}
          (sole : lsm.Sole env.platform (env.rowKey collection store.built) record)
          (none : lsm.get env.platform (env.rowKey collection store.built) = none) :
          record.confidence = 0 := by
        rw [get_eq_record, sole.answers] at none
        exact filterTombstone_eq_none_iff.mp none
      rw [unseen_cons_iff]
      intro behind
      cases outcome : (env.tryInsertRow faults collection columns store row).1 with
      | error error =>
          rw [tryInsertRows_of_error outcome] at whole hidden
          refine ⟨unread (here behind) (hidden 0 (Nat.succ_pos _)), ?_, whole⟩
          intro impossible
          cases impossible
      | ok done =>
          rw [tryInsertRows_of_ok outcome] at whole hidden
          have next := settled_tryInsertRow ticks settled outcome
          have kept : (env.tryInsertRows faults collection columns rows
              (env.tryInsertRow faults collection columns store row).2).2.lsm.Sole env.platform
                (env.rowKey collection store.built)
                (env.rowRecord collection columns store.built row) :=
            sole_tryInsertRows ticks next (fun place within => (fresh.key_ne within).symm)
              (here behind)
          refine ⟨unread kept (hidden 0 (Nat.succ_pos _)), fun _ => ?_, by simp⟩
          apply induction next (fresh.tail ticks settled) whole
          intro place within
          have shifted := hidden (place + 1) (Nat.succ_lt_succ within)
          rwa [← Nat.add_assoc, Nat.add_right_comm] at shifted

theorem get_of_unseen (ticks : StrictMono env.platform.clock)
    (settled : store.lsm.Settled env.platform)
    (fresh : FreshIds env collection store rows.length)
    (safe : SafeWrites env faults collection columns rows store)
    (unseen : Unseen env faults collection columns rows store) :
    (env.tryInsertRows faults collection columns rows store).1 ≠ .error (.merge .part) ∧
      ∀ key, (env.tryInsertRows faults collection columns rows store).2.lsm.get env.platform key =
        store.lsm.get env.platform key := by
  induction rows generalizing store with
  | nil => exact ⟨by simp [tryInsertRows], fun _ => rfl⟩
  | cons row rows induction =>
      rw [unseen_cons_iff] at unseen
      rw [safeWrites_cons_iff] at safe
      have here := get_tryInsertRow ticks settled fresh.head_absent safe.1
        fun behind => (unseen behind).1
      cases outcome : (env.tryInsertRow faults collection columns store row).1 with
      | error error =>
          rw [tryInsertRows_of_error outcome]
          refine ⟨?_, here⟩
          by_cases behind : Behind (faults store.built)
          · rw [← outcome]
            exact (unseen behind).2.2
          · rw [← outcome]
            exact tryInsertRow_ne_part behind
      | ok done =>
          have behind : Behind (faults store.built) := by
            by_contra early
            exact tryInsertRow_ne_ok early outcome
          rw [tryInsertRows_of_ok outcome]
          have later := induction (settled_tryInsertRow ticks settled outcome)
            (fresh.tail ticks settled) (safe.2 outcome) ((unseen behind).2.1 outcome)
          exact ⟨later.1, fun key => (later.2 key).trans (here key)⟩

theorem filesWritten_tryInsertRows (ticks : StrictMono env.platform.clock)
    (settled : store.lsm.Settled env.platform) (written : store.lsm.FilesWritten env.platform) :
    (env.tryInsertRows faults collection columns rows store).2.lsm.FilesWritten env.platform := by
  induction rows generalizing store with
  | nil => exact written
  | cons row rows induction =>
      have here : (env.tryInsertRow faults collection columns store row).2.lsm.FilesWritten
          env.platform :=
        filesWritten_tryWrite settled written _ _ _ _
      cases outcome : (env.tryInsertRow faults collection columns store row).1 with
      | error error =>
          rw [tryInsertRows_of_error outcome]
          exact here
      | ok done =>
          rw [tryInsertRows_of_ok outcome]
          exact induction (settled_tryInsertRow ticks settled outcome) here

end Rows

/-! ## The statement -/

theorem optimize_insert (collection : String) (columns : List String)
    (values : List (List Expr)) :
    optimize (.insert collection columns values) = .insert collection columns values := by
  simp [optimize, optimizeLoop, applyAllRules, predicatePushdown, limitPushdown,
    eliminateRedundantProject, constantFold, vectorScanElideFilter]

theorem execute_congr {platform : Platform} {before after : LsmTree}
    (beforeWritten : before.FilesWritten platform) (afterWritten : after.FilesWritten platform)
    (same : ∀ key, after.get platform key = before.get platform key) (collection : String) :
    (ScanOperator.mk collection after).execute = (ScanOperator.mk collection before).execute := by
  apply RecordBatch.ext_rows
  rw [ScanOperator.rows_execute, ScanOperator.rows_execute]
  have afterSorted := scan_sorted after (keyRange collection)
  have beforeSorted := scan_sorted before (keyRange collection)
  have distinct {rows : List (RecordKey × FunRecord)}
      (sorted : rows.Pairwise fun left right => left.1 < right.1) : rows.Nodup :=
    sorted.imp fun below same => absurd (congrArg Prod.fst same) below.ne
  have perm := (List.perm_ext_iff_of_nodup (distinct afterSorted) (distinct beforeSorted)).mpr
    fun row => by
      rw [mem_scan_iff afterWritten, mem_scan_iff beforeWritten, same]
  exact perm.eq_of_pairwise (fun _ _ _ _ below above => absurd below above.asymm)
    afterSorted beforeSorted

/-- A failed insertion is followed by the same scan only if none of its rows is
seen, and that is enough where its compactions are safe. -/
theorem insert_atomic_iff (env : Environment) (faults : Nat → Option WriteFault)
    (collection : String) (columns : List String) (values : List (List Expr)) (store : Store)
    (ticks : StrictMono env.platform.clock) (settled : store.lsm.Settled env.platform)
    (written : store.lsm.FilesWritten env.platform)
    (fresh : FreshIds env collection store values.length) (error : WriteFault)
    (failed : (env.tryExecute faults (.insert collection columns values) store).1 =
      .error error) :
    let after := (env.tryExecute faults (.insert collection columns values) store).2
    let unchanged := scanAfter error collection after.lsm =
      some (ScanOperator.mk collection store.lsm).execute
    (unchanged → Unseen env faults collection columns values store) ∧
      (SafeWrites env faults collection columns values store →
        Unseen env faults collection columns values store → unchanged) := by
  have shape : env.tryExecute faults (.insert collection columns values) store =
      ((env.tryInsertRows faults collection columns values store).1.map
          fun _ => RecordBatch.new,
        (env.tryInsertRows faults collection columns values store).2) := by
    rw [tryExecute, optimize_insert, tryExecutePlan]
  have failedRows : (env.tryInsertRows faults collection columns values store).1 =
      .error error := by
    rw [shape] at failed
    cases outcome : (env.tryInsertRows faults collection columns values store).1 with
    | ok done =>
        rw [outcome] at failed
        cases failed
    | error other =>
        rw [outcome] at failed
        cases failed
        rfl
  have afterWritten : (env.tryInsertRows faults collection columns values store).2.lsm.FilesWritten
      env.platform := filesWritten_tryInsertRows ticks settled written
  rw [shape]
  constructor
  · intro unchanged
    rw [scanAfter] at unchanged
    split at unchanged
    · cases unchanged
    rename_i whole
    have same := congrArg RecordBatch.rows (Option.some.inj unchanged)
    rw [ScanOperator.rows_execute, ScanOperator.rows_execute] at same
    apply unseen_of_hidden ticks settled fresh
    · rw [failedRows]
      simpa using whole
    · intro place within
      have absent := get_of_absent (fresh.unused place within)
      have inside : (keyRange collection).contains
          (env.rowKey collection (store.built + place)) = true := by
        rw [keyRange_contains_iff]
        exact ⟨"", by simp [rowKey], by decide⟩
      -- A record that could be read now would be a row of the scan before.
      cases read : (env.tryInsertRows faults collection columns values store).2.lsm.get
          env.platform (env.rowKey collection (store.built + place)) with
      | none => rfl
      | some record =>
          have shown := (mem_scan_iff afterWritten _ _ _).mpr ⟨inside, read⟩
          rw [same, mem_scan_iff written, absent] at shown
          cases shown.2
  · intro safe unseen
    have kept := get_of_unseen ticks settled fresh safe unseen
    rw [failedRows] at kept
    rw [scanAfter, if_neg fun part => kept.1 (congrArg Except.error part)]
    exact congrArg some (execute_congr written afterWritten kept.2 collection)

def emptyStore : Store where
  lsm := openDir plainPlatform [] [] 0
  built := 0

theorem emptyStore_get (key : RecordKey) : emptyStore.lsm.get plainPlatform key = none :=
  get_openDir_empty 0 key

theorem insert_atomic_iff_first_row :
    let faults := fun count => if count = 0 then some WriteFault.wal else none
    let after := (plainEnvironment.tryExecute faults
      (.insert "docs" ["age"] [[.literal (.int 5)], [.literal (.int 6)]]) emptyStore).2
    scanAfter .wal "docs" after.lsm = some (ScanOperator.mk "docs" emptyStore.lsm).execute := by
  intro faults after
  have early : ¬ Behind (faults 0) := by decide
  have fresh : FreshIds plainEnvironment "docs" emptyStore 2 := by
    constructor
    · intro first second before within
      have firstZero : first = 0 := by omega
      have secondOne : second = 1 := by omega
      subst firstZero secondOne
      decide
    · intro place within record present
      rcases present with inActive | ⟨immutable, member, _⟩ | ⟨file, member, _⟩
      · exact absurd inActive (by simp [emptyStore, openDir])
      · cases member
      · cases member
  apply (insert_atomic_iff plainEnvironment faults "docs" ["age"]
    [[.literal (.int 5)], [.literal (.int 6)]] emptyStore plainPlatform_clock
    (openDir_settled 0) (fun _ member => by cases member) fresh .wal ?_).2
  · rw [safeWrites_cons_iff]
    exact ⟨fun completes => by simp [faults, emptyStore] at completes,
      fun done => absurd done (tryInsertRow_ne_ok early)⟩
  · rw [unseen_cons_iff]
    exact fun behind => absurd behind early
  · rw [tryExecute, optimize_insert]
    rfl

/-- The log fails at the second row, and the first one stays. -/
theorem failed_insert_leaves_row :
    let faults := fun count => if count = 1 then some WriteFault.wal else none
    let plan := LogicalPlan.insert "docs" ["age"] [[.literal (.int 5)], [.literal (.int 6)]]
    let outcome := plainEnvironment.tryExecute faults plan emptyStore
    outcome.1 = .error .wal ∧
      scanAfter .wal "docs" outcome.2.lsm ≠
        some (ScanOperator.mk "docs" emptyStore.lsm).execute := by
  intro faults plan outcome
  have shape : outcome = (.error .wal, (plainEnvironment.tryInsertRows faults "docs" ["age"]
      [[.literal (.int 5)], [.literal (.int 6)]] emptyStore).2) := by
    simp only [outcome, plan, tryExecute, optimize_insert]
    rfl
  have files : (plainEnvironment.tryInsertRows faults "docs" ["age"]
      [[.literal (.int 5)], [.literal (.int 6)]] emptyStore).2.lsm.sstables = [] := by
    decide +kernel
  have found : ((plainEnvironment.tryInsertRows faults "docs" ["age"]
      [[.literal (.int 5)], [.literal (.int 6)]] emptyStore).2.lsm.get plainPlatform
        (plainEnvironment.rowKey "docs" 0)).isSome = true := by
    decide +kernel
  rcases Option.isSome_iff_exists.mp found with ⟨record, read⟩
  rw [shape]
  refine ⟨rfl, fun unchanged => ?_⟩
  have same := congrArg RecordBatch.rows (Option.some.inj unchanged)
  rw [ScanOperator.rows_execute, ScanOperator.rows_execute] at same
  have afterWritten : (plainEnvironment.tryInsertRows faults "docs" ["age"]
      [[.literal (.int 5)], [.literal (.int 6)]] emptyStore).2.lsm.FilesWritten
        plainPlatform := by
    intro file member
    rw [files] at member
    cases member
  have shown := (mem_scan_iff afterWritten (keyRange "docs") _ _).mpr ⟨by decide +kernel, read⟩
  have before : emptyStore.lsm.FilesWritten plainPlatform := fun _ member => by cases member
  rw [same, mem_scan_iff before, emptyStore_get] at shown
  cases shown.2

end Environment

end FunDB.Executor
