import FunDB.Storage.LsmReads
import FunDB.Foundation.Execution

/-! # The store as a map

A reader of the store should see, for each key, what was last written to it. An
LSM tree shows that as long as no compaction puts an older record in front of a
newer one. -/

namespace FunDB.Storage

open Overlay

/-- An operation on the store. Its flush tasks finish before the next one. -/
inductive Operation where
  | write (key : RecordKey) (record : FunRecord) (timing : FlushTiming)
  | delete (key : RecordKey) (id : Uuid) (now : Timestamp)
  | flushMemtable (timing : FlushTiming)
  | triggerCompaction

/-- What a reader of a key sees from the operation on, if it touches the key. -/
def Operation.effect (operation : Operation) (key : RecordKey) :
    Option (Option FunRecord) :=
  match operation with
  | .write other record _ => if other = key then some (filterTombstone record) else none
  | .delete other _ _ => if other = key then some none else none
  | .flushMemtable _ | .triggerCompaction => none

/-- The record of the most recent write that no delete follows, unless that
record is itself a tombstone. -/
def expected (operations : List Operation) (key : RecordKey) : Option FunRecord :=
  (newest Operation.effect operations key).join

@[simp] theorem expected_nil (key : RecordKey) : expected [] key = none := rfl

theorem expected_concat (done : List Operation) (operation : Operation) (key : RecordKey) :
    expected (done ++ [operation]) key = (operation.effect key).getD (expected done key) := by
  rw [expected, newest_append, newest_singleton]
  cases operation.effect key <;> rfl

namespace LsmTree

variable (platform : Platform)

def apply (tree : LsmTree) : Operation → LsmTree
  | .write key record timing => tree.write platform key record timing
  | .delete key id now => tree.delete platform key id now
  | .flushMemtable timing => tree.flushMemtable platform timing
  | .triggerCompaction => tree.triggerCompaction platform

/-- The tree of a write before it may flush. -/
def inserted (tree : LsmTree) (key : RecordKey) (record : FunRecord) : LsmTree :=
  (tree.logEntry (.write 0 key record)).insertActive platform key record

/-- Every compaction that the operation runs is safe. -/
def SafeOperation (tree : LsmTree) : Operation → Prop
  | .write key record timing =>
      (tree.inserted platform key record).active.sizeBytes ≥ tree.flushThresholdBytes →
        (tree.inserted platform key record).SafeFlush platform timing
  | .delete _ _ _ => True
  | .flushMemtable timing => tree.SafeFlush platform timing
  | .triggerCompaction => tree.CompactionSafe platform

instance (tree : LsmTree) : ∀ operation, Decidable (tree.SafeOperation platform operation)
  | .write _ _ _ => inferInstanceAs (Decidable (_ → _))
  | .delete _ _ _ => inferInstanceAs (Decidable True)
  | .flushMemtable timing => inferInstanceAs (Decidable (tree.SafeFlush platform timing))
  | .triggerCompaction => inferInstanceAs (Decidable (tree.CompactionSafe platform))

section Steps

variable {platform} {tree : LsmTree}

theorem get_insertActive (key : RecordKey) (record : FunRecord) (other : RecordKey) :
    (tree.insertActive platform key record).get platform other =
      if key = other then filterTombstone record else tree.get platform other := by
  rw [get_eq_record, get_eq_record, LsmTree.record, LsmTree.record, insertActive]
  simp only [MemTable.get_insert]
  split <;> rfl

theorem get_logEntry (entry : WalEntry) (key : RecordKey) :
    (tree.logEntry entry).get platform key = tree.get platform key := rfl

theorem insertActive_settled (settled : tree.Settled platform) (key : RecordKey)
    (record : FunRecord) : (tree.insertActive platform key record).Settled platform :=
  ⟨settled.finished, settled.files⟩

theorem logEntry_settled (settled : tree.Settled platform) (entry : WalEntry) :
    (tree.logEntry entry).Settled platform :=
  ⟨settled.finished, settled.files⟩

theorem inserted_settled (settled : tree.Settled platform) (key : RecordKey)
    (record : FunRecord) : (tree.inserted platform key record).Settled platform :=
  insertActive_settled (logEntry_settled settled _) key record

theorem get_inserted (key : RecordKey) (record : FunRecord) (other : RecordKey) :
    (tree.inserted platform key record).get platform other =
      if key = other then filterTombstone record else tree.get platform other := by
  rw [inserted, get_insertActive, get_logEntry]

theorem write_eq (key : RecordKey) (record : FunRecord) (timing : FlushTiming) :
    tree.write platform key record timing =
      if (tree.inserted platform key record).active.sizeBytes ≥ tree.flushThresholdBytes then
        (tree.inserted platform key record).flushMemtable platform timing
      else
        tree.inserted platform key record := rfl

theorem apply_settled (ticks : StrictMono platform.clock) (settled : tree.Settled platform)
    (operation : Operation) : (tree.apply platform operation).Settled platform := by
  cases operation with
  | write key record timing =>
      rw [apply, write_eq]
      split
      · exact flushMemtable_settled ticks (inserted_settled settled key record) timing
      · exact inserted_settled settled key record
  | delete key id now => exact insertActive_settled (logEntry_settled settled _) key _
  | flushMemtable timing => exact flushMemtable_settled ticks settled timing
  | triggerCompaction => exact triggerCompaction_settled ticks settled

theorem filterTombstone_tombstoneRecord (collection : String) (id : Uuid) (now : Timestamp) :
    filterTombstone (tombstoneRecord collection id now) = none := rfl

/-- An operation shows its effect and changes no other read exactly when it is
safe. -/
theorem get_apply_iff (ticks : StrictMono platform.clock) (settled : tree.Settled platform)
    (operation : Operation) :
    (∀ key, (tree.apply platform operation).get platform key =
        (operation.effect key).getD (tree.get platform key)) ↔
      tree.SafeOperation platform operation := by
  cases operation with
  | write key record timing =>
      have shown (other : RecordKey) :
          ((Operation.write key record timing).effect other).getD (tree.get platform other) =
            (tree.inserted platform key record).get platform other := by
        rw [get_inserted, Operation.effect]
        split <;> rfl
      simp only [shown]
      rw [apply, write_eq]
      split
      · rename_i full
        have flush_iff := get_flushMemtable_iff ticks
          (inserted_settled settled key record) timing
        exact flush_iff.trans ⟨fun safe _ => safe, fun safe => safe full⟩
      · rename_i room
        exact iff_of_true (fun _ => rfl) fun full => absurd full room
  | delete key id now =>
      refine iff_of_true (fun other => ?_) trivial
      rw [apply, delete, get_insertActive, get_logEntry, filterTombstone_tombstoneRecord, Operation.effect]
      split <;> rfl
  | flushMemtable timing => exact get_flushMemtable_iff ticks settled timing
  | triggerCompaction => exact get_triggerCompaction_iff settled

theorem openDir_settled (readings : Nat) : (openDir platform [] [] readings).Settled platform where
  finished := rfl
  files := ⟨by simp [openDir], by simp [openDir], by simp [openDir]⟩

@[simp] theorem get_openDir_empty (readings : Nat) (key : RecordKey) :
    (openDir platform [] [] readings).get platform key = none := by
  rw [get_eq_record, LsmTree.record]
  simp [openDir, fileRecord]

end Steps

/-- From an empty directory, every state of a run shows for every key what was
last written to it exactly when every compaction of the run is safe. -/
theorem get_eq_expected_iff (ticks : StrictMono platform.clock) (readings : Nat)
    (operations : List Operation) :
    (∀ done, done <+: operations → ∀ key,
        (Execution.run (apply platform) (openDir platform [] [] readings) done).get
          platform key = expected done key) ↔
      Execution.EveryStep (apply platform) (SafeOperation platform)
        (openDir platform [] [] readings) operations := by
  let tree (done : List Operation) : LsmTree :=
    Execution.run (apply platform) (openDir platform [] [] readings) done
  have settled (done : List Operation) : (tree done).Settled platform :=
    Execution.run_invariant (apply platform) (fun tree => tree.Settled platform)
      (fun _ operation held => apply_settled ticks held operation)
      (openDir_settled readings) done
  let Holds (done : List Operation) : Prop :=
    ∀ key, (tree done).get platform key = expected done key
  have step_iff (done : List Operation) (operation : Operation) (holds : Holds done) :
      Holds (done ++ [operation]) ↔ (tree done).SafeOperation platform operation := by
    have shown := get_apply_iff ticks (settled done) operation
    simp only [Holds, tree, Execution.run_concat, expected_concat] at shown holds ⊢
    simp only [holds] at shown
    exact shown
  have initial : Holds [] := fun key => by simp [tree]
  exact Execution.holds_iff_everyStep_of_step_iff (apply platform) Holds initial step_iff

theorem get_eq_expected_iff_compacting :
    let operations : List Operation :=
      [.write (makeKey 1) (makeRecord [1]) .beforeCheck, .flushMemtable .afterCheck,
        .delete (makeKey 1) (Vector.replicate 16 9) 5, .flushMemtable .beforeCheck,
        .write (makeKey 2) (makeRecord [2]) .beforeCheck, .flushMemtable .afterCompaction,
        .triggerCompaction]
    (Execution.run (apply plainPlatform) (openDir plainPlatform [] [] 0) operations).get
      plainPlatform (makeKey 1) = expected operations (makeKey 1) :=
  (get_eq_expected_iff plainPlatform plainPlatform_clock 0 _).mpr (by decide +kernel) _
    (List.prefix_refl _) _

/-- The two oldest of three files hold the older record; merged, they get the
newest name and hide the newer one. -/
theorem compaction_shows_older_record :
    let operations : List Operation :=
      [.write (makeKey 1) (makeRecord [1]) .beforeCheck, .flushMemtable .beforeCheck,
        .flushMemtable .beforeCheck,
        .write (makeKey 1) (makeRecord [2]) .beforeCheck, .flushMemtable .beforeCheck,
        .triggerCompaction]
    let reached := Execution.run (apply plainPlatform) (openDir plainPlatform [] [] 0) operations
    expected operations (makeKey 1) = some (makeRecord [2]) ∧
      reached.get plainPlatform (makeKey 1) = some (makeRecord [1]) ∧
      reached.get plainPlatform (makeKey 1) ≠ expected operations (makeKey 1) := by
  decide +kernel

end LsmTree

end FunDB.Storage
