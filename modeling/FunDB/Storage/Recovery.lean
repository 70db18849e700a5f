import FunDB.Storage.Refinement

/-! # Recovery

Opening a directory again replays the log into a fresh memtable, writes only.
So a reader sees the same as before exactly when no delete has a logged record
to hide, on top of what keeps the running tree right. -/

namespace FunDB.Storage

open Overlay

namespace LsmTree

variable (platform : Platform)

/-- The tree that comes back shows the same records. -/
def Recovers (tree : LsmTree) : Prop :=
  ∀ key, (tree.reopen platform).get platform key = tree.get platform key

/-- The operation is safe, and if it is a delete, the last write in the log for
its key, if there is one, wrote a tombstone. -/
def RecoverableOperation (tree : LsmTree) (operation : Operation) : Prop :=
  tree.SafeOperation platform operation ∧
    match operation with
    | .delete key _ _ => (lastLogged tree.wal.entries key).bind filterTombstone = none
    | _ => True

instance (tree : LsmTree) : ∀ operation, Decidable (tree.RecoverableOperation platform operation)
  | .write key record timing =>
      inferInstanceAs (Decidable (tree.SafeOperation platform (.write key record timing) ∧ True))
  | .delete _ _ _ => inferInstanceAs (Decidable (True ∧ _ = none))
  | .flushMemtable timing =>
      inferInstanceAs (Decidable (tree.SafeFlush platform timing ∧ True))
  | .triggerCompaction => inferInstanceAs (Decidable (tree.CompactionSafe platform ∧ True))

/-- The record is held for the key by the active memtable or a file. -/
def Holds (tree : LsmTree) (key : RecordKey) (record : FunRecord) : Prop :=
  tree.active.get key = some record ∨
    ∃ file ∈ tree.sstables, file.reader.get platform key = some record

/-- What the log knows about a settled tree: it agrees on the keys that were
written, and of the others the tree holds tombstones only. -/
structure LogAgrees (tree : LsmTree) : Prop where
  settled : tree.Settled platform
  logged : ∀ key record, lastLogged tree.wal.entries key = some record →
    tree.get platform key = filterTombstone record
  unlogged : ∀ key, lastLogged tree.wal.entries key = none →
    ∀ record, tree.Holds platform key record → filterTombstone record = none

variable {platform} {tree : LsmTree}

/-! ## Replaying -/

theorem get_replay (entries : List WalEntry) (key : RecordKey) :
    (entries.foldl (replayEntry platform) MemTable.new).get key = lastLogged entries key := by
  induction entries using List.reverseRecOn with
  | nil => simp
  | append_singleton earlier entry induction =>
      rw [List.foldl_concat, lastLogged_concat]
      cases entry with
      | write txnId other record =>
          rw [replayEntry, MemTable.get_insert, WalEntry.written, induction]
          split <;> rfl
      | delete txnId other => exact induction
      | txnCommit txnId => exact induction
      | txnAbort txnId => exact induction
      | checkpoint lsn => exact induction

theorem get_reopen (key : RecordKey) :
    (tree.reopen platform).get platform key =
      ((lastLogged tree.wal.entries key).or (fileRecord platform tree.sstables key)).bind
        filterTombstone := by
  rw [get_eq_record, record, reopen, openDir]
  simp only [get_replay, newest_nil, Option.none_or]

theorem get_eq_none_of_unlogged (agrees : tree.LogAgrees platform) {key : RecordKey}
    (unlogged : lastLogged tree.wal.entries key = none) : tree.get platform key = none := by
  rw [get_eq_record, record, agrees.settled.finished, newest_nil, Option.none_or]
  cases held : tree.active.get key with
  | some record => exact agrees.unlogged key unlogged record (.inl held)
  | none =>
      cases found : fileRecord platform tree.sstables key with
      | none => rfl
      | some record =>
          exact agrees.unlogged key unlogged record
            (.inr (exists_of_newest_eq_some _ found))

/-! ## Moving records between files -/

/-- A move of records: the log is the same and nothing new is held. -/
structure Moves (platform : Platform) (before after : LsmTree) : Prop where
  settled : after.Settled platform
  sameLog : after.wal = before.wal
  held : ∀ key record, after.Holds platform key record → before.Holds platform key record

theorem Moves.trans {first second third : LsmTree} (left : Moves platform first second)
    (right : Moves platform second third) : Moves platform first third where
  settled := right.settled
  sameLog := right.sameLog.trans left.sameLog
  held key record holds := left.held key record (right.held key record holds)

theorem Moves.refl (settled : tree.Settled platform) : Moves platform tree tree where
  settled := settled
  sameLog := rfl
  held _ _ holds := holds

/-- Opening the directory again undoes a move for the reader. -/
theorem Moves.get_reopen {before after : LsmTree} (moves : Moves platform before after)
    (agrees : before.LogAgrees platform) (key : RecordKey) :
    (after.reopen platform).get platform key = before.get platform key := by
  rw [LsmTree.get_reopen, moves.sameLog]
  cases written : lastLogged before.wal.entries key with
  | some record => exact (agrees.logged key record written).symm
  | none =>
      rw [get_eq_none_of_unlogged agrees written, Option.none_or]
      cases found : fileRecord platform after.sstables key with
      | none => rfl
      | some record =>
          exact agrees.unlogged key written record
            (moves.held key record (.inr (exists_of_newest_eq_some _ found)))

theorem LogAgrees.get_reopen (agrees : tree.LogAgrees platform) (key : RecordKey) :
    (tree.reopen platform).get platform key = tree.get platform key :=
  (Moves.refl agrees.settled).get_reopen agrees key

/-- When records only move, recovery works afterwards exactly when no read
changed. -/
theorem Moves.recovers_iff {before after : LsmTree} (moves : Moves platform before after)
    (agrees : before.LogAgrees platform) :
    after.Recovers platform ↔
      ∀ key, after.get platform key = before.get platform key := by
  simp only [Recovers, moves.get_reopen agrees]
  exact forall_congr' fun key => eq_comm

theorem Moves.logAgrees {before after : LsmTree} (moves : Moves platform before after)
    (agrees : before.LogAgrees platform)
    (same : ∀ key, after.get platform key = before.get platform key) :
    after.LogAgrees platform where
  settled := moves.settled
  logged key record written := by
    rw [moves.sameLog] at written
    rw [same]
    exact agrees.logged key record written
  unlogged key unlogged record holds := by
    rw [moves.sameLog] at unlogged
    exact agrees.unlogged key unlogged record (moves.held key record holds)

theorem exists_holder_of_mergedFile
    (files : FilesBelow platform tree.sstables (platform.clock tree.readings))
    {key : RecordKey} {record : FunRecord}
    (held : (tree.mergedFile platform).reader.get platform key = some record) :
    ∃ file ∈ tree.sstables, file.reader.get platform key = some record := by
  have merged := fileRecord_mergedFile files key
  rw [fileRecord, newest_singleton, held] at merged
  rcases exists_of_newest_eq_some _ merged.symm with ⟨file, member, holds⟩
  exact ⟨file, mem_of_mem_selected member, holds⟩

theorem triggerCompaction_moves (ticks : StrictMono platform.clock)
    (settled : tree.Settled platform) :
    Moves platform tree (tree.triggerCompaction platform) := by
  refine ⟨triggerCompaction_settled ticks settled, ?_, ?_⟩ <;>
    rw [triggerCompaction_eq settled.files] <;> split
  · rfl
  · rfl
  · intro key record holds
    rcases holds with active | ⟨file, member, held⟩
    · exact .inl active
    · right
      rcases List.mem_append.mp member with isKept | isMerged
      · exact ⟨file, mem_of_mem_kept isKept, held⟩
      · rw [List.mem_singleton.mp isMerged] at held
        exact exists_holder_of_mergedFile settled.files held
  · exact fun _ _ holds => holds

theorem flushed_moves (ticks : StrictMono platform.clock) (settled : tree.Settled platform) :
    Moves platform tree (tree.flushed platform) := by
  refine ⟨flushed_settled ticks settled, ?_, ?_⟩ <;> rw [flushed_eq settled]
  intro key record holds
  rcases holds with active | ⟨file, member, held⟩
  · simp at active
  · rcases List.mem_append.mp member with old | isFlushed
    · exact .inr ⟨file, old, held⟩
    · rw [List.mem_singleton.mp isFlushed, get_flushedFile] at held
      exact .inl held

theorem flushMemtable_moves (ticks : StrictMono platform.clock)
    (settled : tree.Settled platform) (timing : FlushTiming) :
    Moves platform tree (tree.flushMemtable platform timing) := by
  have early := flushed_moves ticks settled
  have afterwards := flushMemtable_settled ticks settled timing
  rcases flushMemtable_cases ticks settled timing with
    alone | compacted | ⟨many, late⟩
  · rw [alone]
    exact early
  · rw [compacted]
    exact early.trans (triggerCompaction_moves ticks early.settled)
  · rw [late, lateFlush_eq ticks settled many] at afterwards ⊢
    refine ⟨afterwards, rfl, fun key record holds => ?_⟩
    rcases holds with active | ⟨file, member, held⟩
    · simp at active
    · rcases List.mem_append.mp member with before | isMerged
      · rcases List.mem_append.mp before with isKept | isFlushed
        · exact .inr ⟨file, mem_of_mem_kept isKept, held⟩
        · rw [List.mem_singleton.mp isFlushed, get_flushedFile] at held
          exact .inl held
      · rw [List.mem_singleton.mp isMerged] at held
        exact .inr (exists_holder_of_mergedFile (frozen_files ticks settled.files) held)

/-! ## The operations -/

theorem inserted_logAgrees (agrees : tree.LogAgrees platform) (key : RecordKey)
    (record : FunRecord) : (tree.inserted platform key record).LogAgrees platform where
  settled := inserted_settled agrees.settled key record
  logged other last written := by
    rw [inserted, insertActive, logEntry, Wal.append, lastLogged_concat, WalEntry.written]
      at written
    rw [get_inserted]
    split
    · rename_i same
      rw [if_pos same, Option.some_or] at written
      rw [Option.some.inj written]
    · rename_i different
      rw [if_neg different, Option.none_or] at written
      exact agrees.logged other last written
  unlogged other unlogged held holds := by
    rw [inserted, insertActive, logEntry, Wal.append, lastLogged_concat, WalEntry.written]
      at unlogged
    rcases Option.or_eq_none_iff.mp unlogged with ⟨notThis, before⟩
    have different : key ≠ other := fun same => by simp [same] at notThis
    rcases holds with active | inFile
    · rw [inserted, insertActive, MemTable.get_insert, if_neg different] at active
      exact agrees.unlogged other before held (.inl active)
    · exact agrees.unlogged other before held (.inr inFile)

theorem lastLogged_delete (key : RecordKey) (id : Uuid) (now : Timestamp) (other : RecordKey) :
    lastLogged (tree.delete platform key id now).wal.entries other =
      lastLogged tree.wal.entries other := by
  rw [delete, insertActive, logEntry, Wal.append, lastLogged_concat]
  rfl

theorem get_delete (key : RecordKey) (id : Uuid) (now : Timestamp) (other : RecordKey) :
    (tree.delete platform key id now).get platform other =
      if key = other then none else tree.get platform other := by
  rw [delete, get_insertActive, get_logEntry, filterTombstone_tombstoneRecord]

theorem delete_logAgrees (agrees : tree.LogAgrees platform) {key : RecordKey} {id : Uuid}
    {now : Timestamp}
    (hidden : (lastLogged tree.wal.entries key).bind filterTombstone = none) :
    (tree.delete platform key id now).LogAgrees platform where
  settled := insertActive_settled (logEntry_settled agrees.settled _) key _
  logged other last written := by
    rw [lastLogged_delete] at written
    rw [get_delete]
    split
    · rename_i same
      rw [same, written] at hidden
      exact hidden.symm
    · exact agrees.logged other last written
  unlogged other unlogged held holds := by
    rw [lastLogged_delete] at unlogged
    rcases holds with active | inFile
    · rw [delete, insertActive, MemTable.get_insert] at active
      split at active
      · rw [← Option.some.inj active]
        exact filterTombstone_tombstoneRecord _ _ _
      · exact agrees.unlogged other unlogged held (.inl active)
    · exact agrees.unlogged other unlogged held (.inr inFile)

theorem delete_recovers_iff (agrees : tree.LogAgrees platform) (key : RecordKey) (id : Uuid)
    (now : Timestamp) :
    (tree.delete platform key id now).Recovers platform ↔
      (lastLogged tree.wal.entries key).bind filterTombstone = none := by
  constructor
  · intro recovers
    have hidden := recovers key
    rw [get_reopen, lastLogged_delete, get_delete, if_pos rfl] at hidden
    cases written : lastLogged tree.wal.entries key with
    | none => rfl
    | some record =>
        rw [written] at hidden
        exact hidden
  · intro hidden
    exact (delete_logAgrees agrees hidden).get_reopen

/-- After an operation recovery works exactly when the operation was
recoverable, and then the log agrees with the tree. -/
theorem apply_recovers_iff (ticks : StrictMono platform.clock)
    (agrees : tree.LogAgrees platform) (operation : Operation) :
    ((tree.apply platform operation).Recovers platform ↔
        tree.RecoverableOperation platform operation) ∧
      (tree.RecoverableOperation platform operation →
        (tree.apply platform operation).LogAgrees platform) := by
  have of_moves {before after : LsmTree} (moves : Moves platform before after)
      (start : before.LogAgrees platform) {Safe : Prop}
      (reads : (∀ key, after.get platform key = before.get platform key) ↔ Safe) :
      (after.Recovers platform ↔ Safe) ∧ (Safe → after.LogAgrees platform) :=
    ⟨(moves.recovers_iff start).trans reads,
      fun safe => moves.logAgrees start (reads.mpr safe)⟩
  cases operation with
  | write key record timing =>
      have start := inserted_logAgrees agrees key record
      simp only [RecoverableOperation, SafeOperation, and_true, apply, write_eq]
      split
      · rename_i full
        simp only [full, true_implies]
        exact of_moves (flushMemtable_moves ticks start.settled timing) start
          (get_flushMemtable_iff ticks start.settled timing)
      · rename_i room
        exact ⟨iff_of_true start.get_reopen fun full => absurd full room, fun _ => start⟩
  | delete key id now =>
      simp only [RecoverableOperation, SafeOperation, true_and, apply]
      exact ⟨delete_recovers_iff agrees key id now, fun hidden => delete_logAgrees agrees hidden⟩
  | flushMemtable timing =>
      simp only [RecoverableOperation, SafeOperation, and_true, apply]
      exact of_moves (flushMemtable_moves ticks agrees.settled timing) agrees
        (get_flushMemtable_iff ticks agrees.settled timing)
  | triggerCompaction =>
      simp only [RecoverableOperation, SafeOperation, and_true, apply]
      exact of_moves (triggerCompaction_moves ticks agrees.settled) agrees
        (get_triggerCompaction_iff agrees.settled)

theorem openDir_logAgrees (readings : Nat) :
    (openDir platform [] [] readings).LogAgrees platform where
  settled := openDir_settled readings
  logged key record written := by simp [openDir, Wal.openFile] at written
  unlogged key _ record holds := by
    rcases holds with active | ⟨file, member, _⟩
    · simp [openDir] at active
    · simp [openDir] at member

/-- From an empty directory, in every state of a run opening the directory again
shows every key as before exactly when every operation is recoverable. -/
theorem recovers_throughout_iff (ticks : StrictMono platform.clock) (readings : Nat)
    (operations : List Operation) :
    (∀ done, done <+: operations →
        (Execution.run (apply platform) (openDir platform [] [] readings) done).Recovers
          platform) ↔
      Execution.EveryStep (apply platform) (RecoverableOperation platform)
        (openDir platform [] [] readings) operations := by
  let tree (done : List Operation) : LsmTree :=
    Execution.run (apply platform) (openDir platform [] [] readings) done
  exact Execution.holds_iff_everyStep (apply platform)
    (fun done => (tree done).LogAgrees platform) (fun done => (tree done).Recovers platform)
    (openDir_logAgrees readings) (fun _ agrees => agrees.get_reopen)
    (fun done operation agrees recoverable => by
      simp only [tree, Execution.run_concat] at agrees ⊢
      exact (apply_recovers_iff ticks agrees operation).2 recoverable)
    (fun done operation agrees after => by
      simp only [tree, Execution.run_concat] at agrees after
      exact (apply_recovers_iff ticks agrees operation).1.mp after)

theorem recovers_throughout_iff_overwriting :
    (Execution.run (apply plainPlatform) (openDir plainPlatform [] [] 0)
      [.write (makeKey 1) (makeRecord [1]) .beforeCheck, .flushMemtable .afterCheck,
        .delete (makeKey 2) (Vector.replicate 16 9) 5, .flushMemtable .beforeCheck,
        .write (makeKey 1) (makeRecord [2]) .beforeCheck]).Recovers plainPlatform :=
  (recovers_throughout_iff plainPlatform_clock 0 _).mpr (by decide +kernel) _ (List.prefix_refl _)

/-- A deleted record is back after the directory was opened again. -/
theorem deleted_record_returns :
    let reached := Execution.run (apply plainPlatform) (openDir plainPlatform [] [] 0)
      [.write (makeKey 1) (makeRecord [1]) .beforeCheck,
        .delete (makeKey 1) (Vector.replicate 16 9) 5]
    reached.get plainPlatform (makeKey 1) = none ∧
      (reached.reopen plainPlatform).get plainPlatform (makeKey 1) = some (makeRecord [1]) := by
  decide +kernel

end LsmTree

end FunDB.Storage
