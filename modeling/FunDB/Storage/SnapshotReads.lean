import FunDB.Storage.Mvcc

/-! # Reads at a snapshot

A read at a snapshot time stays as it is while every write to the key comes from
a transaction that began later. A write from an older transaction closes the
current version before the snapshot and puts its own record there. -/

namespace FunDB.Storage

namespace VersionedRecord

/-- The record of the first version that was current at the time. -/
def recordAt (systemTs : Timestamp) (versions : List VersionedRecord) : Option FunRecord :=
  (versions.find? fun version => version.CurrentAt systemTs).map VersionedRecord.record

/-- The versions that a write does not supersede. -/
def leftAlone (versions : List VersionedRecord) : List VersionedRecord :=
  versions.eraseP fun version => version.sysTo = maxTimestamp

variable {systemTs writtenTs : Timestamp}

/-! ## The superseded chain -/

theorem recordAt_supersede_of_lt (later : systemTs < writtenTs)
    (ends : systemTs < maxTimestamp) (versions : List VersionedRecord) :
    recordAt systemTs (supersede writtenTs versions) = recordAt systemTs versions := by
  induction versions with
  | nil => rfl
  | cons version rest induction =>
      rw [supersede]
      split
      · rename_i isOpen
        have same : ({ version with sysTo := writtenTs } : VersionedRecord).CurrentAt systemTs ↔
            version.CurrentAt systemTs := by
          simp only [CurrentAt, isOpen, later, ends, and_true]
        by_cases shown : version.CurrentAt systemTs
        · simp [recordAt, same, shown]
        · simp [recordAt, same, shown]
      · by_cases shown : version.CurrentAt systemTs
        · simp [recordAt, shown]
        · simpa [recordAt, shown] using induction

/-- A version that ends at the snapshot or before it shows no more. -/
theorem recordAt_supersede_of_le (earlier : writtenTs ≤ systemTs)
    (versions : List VersionedRecord) :
    recordAt systemTs (supersede writtenTs versions) =
      recordAt systemTs (leftAlone versions) := by
  induction versions with
  | nil => rfl
  | cons version rest induction =>
      rw [supersede]
      split
      · rename_i isOpen
        have hidden : ¬ ({ version with sysTo := writtenTs } : VersionedRecord).CurrentAt
            systemTs := fun shown => absurd shown.2 (not_lt.mpr earlier)
        simp [recordAt, leftAlone, isOpen, hidden]
      · rename_i isClosed
        by_cases shown : version.CurrentAt systemTs
        · simp [recordAt, leftAlone, isClosed, shown]
        · simpa [recordAt, leftAlone, isClosed, shown] using induction

/-- At the end of time the current version does not show anyway. -/
theorem recordAt_leftAlone_of_ended (ended : maxTimestamp ≤ systemTs)
    (versions : List VersionedRecord) :
    recordAt systemTs (leftAlone versions) = recordAt systemTs versions := by
  induction versions with
  | nil => rfl
  | cons version rest induction =>
      by_cases isOpen : version.sysTo = maxTimestamp
      · have hidden : ¬ version.CurrentAt systemTs := fun shown =>
          absurd shown.2 (by rw [isOpen]; exact not_lt.mpr ended)
        simp [recordAt, leftAlone, isOpen, hidden]
      · by_cases shown : version.CurrentAt systemTs
        · simp [recordAt, leftAlone, isOpen, shown]
        · simpa [recordAt, leftAlone, isOpen, shown] using induction

theorem recordAt_concat (versions : List VersionedRecord) (version : VersionedRecord) :
    recordAt systemTs (versions ++ [version]) =
      (recordAt systemTs versions).or
        (if version.CurrentAt systemTs then some version.record else none) := by
  rw [recordAt, recordAt, List.find?_append, List.find?_singleton]
  cases versions.find? fun version => version.CurrentAt systemTs with
  | some found => rfl
  | none =>
      by_cases shown : version.CurrentAt systemTs
      · simp [shown]
      · simp [shown]

/-- Collecting what ended before the snapshot, or before an earlier time, leaves
the versions that show. -/
theorem recordAt_collected {beforeSystemTs : Timestamp} (horizon : beforeSystemTs ≤ systemTs)
    (versions : List VersionedRecord) :
    recordAt systemTs (versions.filter fun version => version.sysTo ≥ beforeSystemTs) =
      recordAt systemTs versions := by
  rw [recordAt, recordAt, List.find?_filter]
  congr 2
  funext version
  by_cases shown : version.CurrentAt systemTs
  · have kept : beforeSystemTs ≤ version.sysTo := horizon.trans shown.2.le
    simp [shown, kept]
  · simp [shown]

end VersionedRecord

namespace MvccStore

open VersionedRecord

variable (store : MvccStore) (key : RecordKey) (systemTs : Timestamp)

theorem readAsOfSystem_eq :
    store.readAsOfSystem key systemTs = recordAt systemTs (store.versions key) := rfl

theorem readAsOfSystem_gc {beforeSystemTs : Timestamp} (horizon : beforeSystemTs ≤ systemTs) :
    (store.gc beforeSystemTs).2.readAsOfSystem key systemTs =
      store.readAsOfSystem key systemTs := by
  rw [readAsOfSystem_eq, versions_gc, recordAt_collected horizon, readAsOfSystem_eq]

/-- The write leaves what the key shows at the time: its transaction began
later, or nothing shows at the end of time, or what shows is what the versions
that it does not supersede show, or else the written record. -/
def KeepsRead (txn : Transaction) (record : FunRecord) : Prop :=
  systemTs < txn.snapshotTs ∨ maxTimestamp ≤ systemTs ∨
    store.readAsOfSystem key systemTs =
      some ((recordAt systemTs (leftAlone (store.versions key))).getD record)

instance (txn : Transaction) (record : FunRecord) :
    Decidable (store.KeepsRead key systemTs txn record) :=
  inferInstanceAs (Decidable (_ ∨ _ ∨ _))

theorem readAsOfSystem_write_iff {txn : Transaction} (bound : txn.snapshotTs ≤ maxTimestamp)
    (record : FunRecord) :
    (store.write txn record).readAsOfSystem key systemTs =
        store.readAsOfSystem key systemTs ↔
      (keyOf record = key → store.KeepsRead key systemTs txn record) := by
  rw [readAsOfSystem_eq, versions_write]
  by_cases same : keyOf record = key
  · rw [if_pos same, recordAt_concat, KeepsRead, readAsOfSystem_eq]
    simp only [same, true_implies]
    rcases lt_or_ge systemTs txn.snapshotTs with later | earlier
    · have hidden : ¬ (pushed txn record).CurrentAt systemTs := fun shown =>
        absurd shown.1 (not_le.mpr later)
      rw [recordAt_supersede_of_lt later (later.trans_le bound), if_neg hidden, Option.or_none]
      exact iff_of_true rfl (.inl later)
    · rw [recordAt_supersede_of_le earlier, or_iff_right (not_lt.mpr earlier)]
      rcases lt_or_ge systemTs maxTimestamp with ends | ended
      · rw [if_pos ⟨earlier, ends⟩, or_iff_right (not_le.mpr ends)]
        cases recordAt systemTs (leftAlone (store.versions key)) with
        | some shown => exact eq_comm
        | none => exact eq_comm
      · have hidden : ¬ (pushed txn record).CurrentAt systemTs := fun shown =>
          absurd shown.2 (not_lt.mpr ended)
        rw [if_neg hidden, Option.or_none, recordAt_leftAlone_of_ended ended]
        exact iff_of_true rfl (.inl ended)
  · rw [if_neg same]
    exact iff_of_true rfl fun equal => absurd equal same

end MvccStore

namespace MvccSession

open MvccStore

/-- A write to the key keeps the read at the time. -/
def KeepsRead (key : RecordKey) (systemTs : Timestamp) (session : MvccSession) :
    MvccEvent → Prop
  | .write transaction record =>
      ∀ txn ∈ session.transactions[transaction]?,
        keyOf record = key → session.store.KeepsRead key systemTs txn record
  | .begin _ | .commit _ | .gc _ => True

instance (key : RecordKey) (systemTs : Timestamp) (session : MvccSession) :
    ∀ event, Decidable (session.KeepsRead key systemTs event)
  | .write _ _ => inferInstanceAs (Decidable (∀ _ ∈ _, _ → _))
  | .begin _ | .commit _ | .gc _ => inferInstanceAs (Decidable True)

/-- Garbage collection does not go above the time. -/
def CollectsUpTo (systemTs : Timestamp) : MvccEvent → Prop
  | .gc beforeSystemTs => beforeSystemTs ≤ systemTs
  | .begin _ | .write _ _ | .commit _ => True

instance (systemTs : Timestamp) : ∀ event, Decidable (CollectsUpTo systemTs event)
  | .gc _ => inferInstanceAs (Decidable (_ ≤ _))
  | .begin _ | .write _ _ | .commit _ => inferInstanceAs (Decidable True)

theorem readAsOfSystem_handle_iff {session : MvccSession} (bounded : session.SnapshotsBounded)
    (key : RecordKey) {systemTs : Timestamp} {event : MvccEvent}
    (collected : CollectsUpTo systemTs event) :
    (session.handle event).store.readAsOfSystem key systemTs =
        session.store.readAsOfSystem key systemTs ↔
      session.KeepsRead key systemTs event := by
  cases event with
  | begin nanos => exact iff_of_true rfl trivial
  | write transaction record =>
      rw [handle, KeepsRead]
      cases begun : session.transactions[transaction]? with
      | none => exact iff_of_true rfl fun _ absent => by cases absent
      | some txn =>
          have bound := bounded txn (List.mem_of_getElem? begun)
          simp only [session.store.readAsOfSystem_write_iff key systemTs bound,
            Option.mem_def, Option.some.injEq, forall_eq']
  | commit transaction =>
      rw [handle]
      cases session.transactions[transaction]? with
      | none => exact iff_of_true rfl trivial
      | some txn => exact iff_of_true rfl trivial
  | gc beforeSystemTs =>
      exact iff_of_true (session.store.readAsOfSystem_gc key systemTs collected) trivial

/-- Once a transaction has begun, a read at its snapshot gives the same result in
every later state of a run exactly when each write to the key keeps it. -/
theorem snapshot_read_repeatable_iff (earlier later : List MvccEvent) (key : RecordKey) :
    ∀ txn ∈ (Execution.run handle new earlier).transactions,
      (∀ event ∈ later, CollectsUpTo txn.snapshotTs event) →
        ((∀ done, done <+: later →
            (Execution.run handle new (earlier ++ done)).store.readAsOfSystem key
                txn.snapshotTs =
              (Execution.run handle new earlier).store.readAsOfSystem key txn.snapshotTs) ↔
          Execution.EveryStep handle (KeepsRead key txn.snapshotTs)
            (Execution.run handle new earlier) later) := by
  intro txn _ collected
  have bounded : (Execution.run handle new earlier).SnapshotsBounded :=
    Execution.run_invariant handle SnapshotsBounded
      (fun _ event bounded => bounded.handle event) (fun _ member => by cases member) earlier
  simp only [Execution.run_append]
  exact Execution.constant_iff_everyStep handle
    (fun session => session.store.readAsOfSystem key txn.snapshotTs) SnapshotsBounded
    (fun _ event bounded => bounded.handle event)
    (fun _ _ bounded collected => readAsOfSystem_handle_iff bounded key collected)
    bounded collected

/-- The reader at time 2 keeps the version of time 1 while a transaction of time
3 supersedes it. -/
theorem snapshot_read_repeatable_iff_superseded :
    let record := sampleRecord 1
    (Execution.run handle new ([.begin 1, .write 0 record, .begin 2] ++
        [.begin 3, .write 2 (sampleRecord 0), .gc 2])).store.readAsOfSystem
          (keyOf record) 2 =
      (Execution.run handle new [.begin 1, .write 0 record, .begin 2]).store.readAsOfSystem
        (keyOf record) 2 :=
  (snapshot_read_repeatable_iff [.begin 1, .write 0 (sampleRecord 1), .begin 2]
    [.begin 3, .write 2 (sampleRecord 0), .gc 2] (keyOf (sampleRecord 1)) ⟨2, 2⟩
    (by decide +kernel) (by decide)).mpr (by decide +kernel) _ (List.prefix_refl _)

/-- A transaction that began before the reader writes after it: the record
appears in the reader's snapshot. -/
theorem older_write_appears_in_snapshot :
    let record := sampleRecord 1
    let began := Execution.run handle new [.begin 1, .begin 2]
    ⟨2, 2⟩ ∈ began.transactions ∧
      began.store.readAsOfSystem (keyOf record) 2 = none ∧
      (Execution.run handle new [.begin 1, .begin 2, .write 0 record]).store.readAsOfSystem
        (keyOf record) 2 = some record := by
  decide +kernel

end MvccSession

end FunDB.Storage

/-! ## Garbage collection

Collecting versions leaves every read at the horizon or behind it as it was,
and counts what it drops. -/

namespace FunDB.Storage

namespace MvccStore

variable (store : MvccStore) (beforeSystemTs : Timestamp)

def allVersions : List VersionedRecord :=
  store.inner.toList.flatMap Prod.snd

/-- The version ended before the horizon. -/
def EndedBefore (version : VersionedRecord) : Bool :=
  version.sysTo < beforeSystemTs

/-- What is not kept is what ended before the horizon. -/
theorem retained_eq (versions : List VersionedRecord) :
    (versions.filter fun version => version.sysTo ≥ beforeSystemTs) =
      versions.filter fun version => !EndedBefore beforeSystemTs version := by
  apply List.filter_congr
  intro version _
  rw [EndedBefore, ← decide_not]
  exact decide_eq_decide.mpr not_lt.symm

theorem length_sub_retained (versions : List VersionedRecord) :
    versions.length - (versions.filter fun version => version.sysTo ≥ beforeSystemTs).length =
      versions.countP (EndedBefore beforeSystemTs) := by
  have parts : versions.length =
      versions.countP (EndedBefore beforeSystemTs) +
        versions.countP (fun version => !EndedBefore beforeSystemTs version) := by
    simpa using List.length_eq_countP_add_countP (EndedBefore beforeSystemTs) (l := versions)
  rw [retained_eq, ← List.countP_eq_length_filter]
  omega

theorem foldl_dropped (entries : List (RecordKey × List VersionedRecord)) (deleted : Nat) :
    entries.foldl (fun deleted entry => deleted + (entry.2.length -
        (entry.2.filter fun version => version.sysTo ≥ beforeSystemTs).length)) deleted =
      deleted + (entries.flatMap Prod.snd).countP (EndedBefore beforeSystemTs) := by
  induction entries generalizing deleted with
  | nil => rfl
  | cons entry rest induction =>
      rw [List.foldl_cons, induction, length_sub_retained, List.flatMap_cons, List.countP_append,
        Nat.add_assoc]

theorem gc_deleted :
    (store.gc beforeSystemTs).1 = store.allVersions.countP (EndedBefore beforeSystemTs) := by
  rw [gc, Std.ExtTreeMap.foldl_eq_foldl_toList, allVersions]
  exact (foldl_dropped beforeSystemTs store.inner.toList 0).trans (Nat.zero_add _)

/-- Reads from the horizon on do not notice the collection. It drops exactly the
versions that ended before the horizon, from every key, and returns how many
there were. -/
theorem gc_invisible_above_horizon :
    (∀ key systemTs, beforeSystemTs ≤ systemTs →
        (store.gc beforeSystemTs).2.readAsOfSystem key systemTs =
          store.readAsOfSystem key systemTs) ∧
      (∀ key, (store.gc beforeSystemTs).2.versions key =
        (store.versions key).filter fun version => ¬ version.sysTo < beforeSystemTs) ∧
      (store.gc beforeSystemTs).1 =
        store.allVersions.countP fun version => version.sysTo < beforeSystemTs := by
  refine ⟨fun key systemTs horizon => ?_, fun key => ?_, store.gc_deleted beforeSystemTs⟩
  · exact store.readAsOfSystem_gc key systemTs horizon
  · rw [versions_gc, retained_eq]
    apply List.filter_congr
    intro version _
    rw [EndedBefore, ← decide_not]

/-- A version that ended at time 3, and one that is current, read at the horizon 5. -/
theorem gc_invisible_above_horizon_superseded :
    let record := sampleRecord 1
    let store := (new.write ⟨1, 1⟩ record).write ⟨2, 3⟩ record
    (store.gc 5).2.readAsOfSystem (keyOf record) 5 =
      store.readAsOfSystem (keyOf record) 5 :=
  (gc_invisible_above_horizon _ 5).1 _ 5 (by decide)

end MvccStore

end FunDB.Storage
