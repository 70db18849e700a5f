import FunDB.Storage.Mvcc
import FunDB.Foundation.IntervalChain

/-! # Version chains

The versions of a key follow each other in system time as long as no write comes
from a transaction that is older than the version it supersedes. -/

namespace FunDB.Storage

open IntervalChain

/-- The system time during which the version was current. -/
def VersionedRecord.interval (version : VersionedRecord) : TimeSpan Timestamp where
  start := version.sysFrom
  stop := version.sysTo

namespace MvccStore

open VersionedRecord

/-- Every key's versions ascend, run forward, do not overlap, and at most one of
them is current. -/
def ChainsWellFormed (store : MvccStore) : Prop :=
  ∀ key, Orderly maxTimestamp ((store.versions key).map interval)

/-- The version that a write to the key supersedes. -/
def currentVersion (store : MvccStore) (key : RecordKey) : Option VersionedRecord :=
  (store.versions key).find? fun version => version.sysTo = maxTimestamp

end MvccStore

/-! ## One chain -/

namespace VersionedRecord

variable {versions earlier : List VersionedRecord} {current : VersionedRecord}

theorem closed_of_orderly (orderly : Orderly maxTimestamp ((earlier ++ [current]).map interval))
    (isOpen : current.sysTo = maxTimestamp) :
    ∀ version ∈ earlier, version.sysTo ≠ maxTimestamp := by
  intro version member alsoOpen
  have oneOpen := orderly.oneOpen
  rw [List.map_append, List.pairwise_append] at oneOpen
  exact oneOpen.2.2 version.interval (List.mem_map_of_mem member) current.interval
    (by simp) ⟨alsoOpen, isOpen⟩

/-- A write keeps the chain exactly when it comes at or after the start of the
version that it supersedes, and before the end of time. -/
theorem orderly_write_iff (orderly : Orderly maxTimestamp (versions.map interval))
    (lastOpen : ∀ last, versions.getLast? = some last → last.sysTo = maxTimestamp)
    (txn : Transaction) (record : FunRecord) (bound : txn.snapshotTs ≤ maxTimestamp) :
    Orderly maxTimestamp ((supersede txn.snapshotTs versions ++
        [MvccStore.pushed txn record]).map interval) ↔
      ∀ current, (versions.find? fun version => version.sysTo = maxTimestamp) = some current →
        current.sysFrom ≤ txn.snapshotTs ∧ txn.snapshotTs < maxTimestamp := by
  rcases List.eq_nil_or_concat' versions with rfl | ⟨earlier, current, rfl⟩
  · exact iff_of_true (Orderly.singleton bound) fun _ nowhere => by cases nowhere
  · have isOpen := lastOpen current (by simp)
    have closed := closed_of_orderly orderly isOpen
    have found : ((earlier ++ [current]).find? fun version => version.sysTo = maxTimestamp) =
        some current := by
      have none : (earlier.find? fun version => version.sysTo = maxTimestamp) = none :=
        List.find?_eq_none.mpr (by simpa using closed)
      rw [List.find?_append, none, Option.none_or, List.find?_singleton, if_pos (by simpa)]
    have shape : (earlier ++ [current]).map interval =
        earlier.map interval ++ [⟨current.sysFrom, maxTimestamp⟩] := by
      rw [List.map_append, ← isOpen]
      rfl
    have extended : ((supersede txn.snapshotTs (earlier ++ [current]) ++
        [MvccStore.pushed txn record]).map interval) =
        earlier.map interval ++
          [⟨current.sysFrom, txn.snapshotTs⟩, ⟨txn.snapshotTs, maxTimestamp⟩] := by
      rw [supersede_append closed isOpen, List.append_assoc, List.map_append]
      rfl
    rw [shape] at orderly
    rw [extended, orderly.extend_iff bound, found]
    simp

end VersionedRecord

namespace MvccSession

open VersionedRecord MvccStore

/-- A write supersedes a version only at or after the version's start, and before
the end of time. -/
def SupersedesInOrder (session : MvccSession) : MvccEvent → Prop
  | .write transaction record =>
      ∀ txn ∈ session.transactions[transaction]?,
        ∀ current ∈ session.store.currentVersion (keyOf record),
          current.sysFrom ≤ txn.snapshotTs ∧ txn.snapshotTs < maxTimestamp
  | .begin _ | .commit _ | .gc _ => True

/-- The invariant: the chains are well formed, and each ends with its current
version. -/
structure Chained (session : MvccSession) : Prop where
  wellFormed : session.store.ChainsWellFormed
  lastOpen : ∀ key last, (session.store.versions key).getLast? = some last →
    last.sysTo = maxTimestamp
  endsBounded : ∀ key, ∀ version ∈ session.store.versions key,
    version.sysTo ≤ maxTimestamp
  begunBounded : session.SnapshotsBounded

namespace Chained

variable {session : MvccSession}

theorem new : MvccSession.new.Chained where
  wellFormed key := by
    have none : MvccSession.new.store.versions key = [] := rfl
    rw [none]
    exact Orderly.nil
  lastOpen _ _ last := by cases last
  endsBounded _ _ member := by cases member
  begunBounded _ member := by cases member

theorem begin (chained : session.Chained) (nanos : Nat) :
    (session.handle (.begin nanos)).Chained where
  wellFormed := chained.wellFormed
  lastOpen := chained.lastOpen
  endsBounded := chained.endsBounded
  begunBounded := chained.begunBounded.handle (.begin nanos)

/-- A write ends its key's chain with the pushed version, whatever came before. -/
theorem write_iff (chained : session.Chained) {txn : Transaction}
    (begun : txn ∈ session.transactions) (record : FunRecord) :
    (session.store.write txn record).ChainsWellFormed ↔
      ∀ current, session.store.currentVersion (keyOf record) = some current →
        current.sysFrom ≤ txn.snapshotTs ∧ txn.snapshotTs < maxTimestamp := by
  have atKey := orderly_write_iff (chained.wellFormed (keyOf record))
    (chained.lastOpen (keyOf record)) txn record (chained.begunBounded txn begun)
  rw [currentVersion, ← atKey]
  constructor
  · intro wellFormed
    have here := wellFormed (keyOf record)
    rwa [versions_write, if_pos rfl] at here
  · intro here key
    rw [versions_write]
    split
    · rename_i same
      subst same
      exact here
    · exact chained.wellFormed key

theorem mem_supersede {systemTs : Timestamp} {versions : List VersionedRecord}
    {version : VersionedRecord} (member : version ∈ supersede systemTs versions) :
    version ∈ versions ∨ version.sysTo = systemTs := by
  induction versions with
  | nil => cases member
  | cons first rest induction =>
      rw [supersede] at member
      split at member
      · rcases List.mem_cons.mp member with rfl | inRest
        · exact .inr rfl
        · exact .inl (List.mem_cons_of_mem _ inRest)
      · rcases List.mem_cons.mp member with rfl | inRest
        · exact .inl List.mem_cons_self
        · rcases induction inRest with isOld | ended
          · exact .inl (List.mem_cons_of_mem _ isOld)
          · exact .inr ended

theorem write (chained : session.Chained) {txn : Transaction}
    (begun : txn ∈ session.transactions) {record : FunRecord}
    (inOrder : ∀ current, session.store.currentVersion (keyOf record) = some current →
      current.sysFrom ≤ txn.snapshotTs ∧ txn.snapshotTs < maxTimestamp) :
    MvccSession.Chained { session with store := session.store.write txn record } where
  wellFormed := (chained.write_iff begun record).mpr inOrder
  lastOpen key last isLast := by
    simp only [versions_write] at isLast
    split at isLast
    · rw [List.getLast?_concat] at isLast
      cases isLast
      rfl
    · exact chained.lastOpen key last isLast
  endsBounded key version member := by
    simp only [versions_write] at member
    split at member
    · rcases List.mem_append.mp member with isOld | isPushed
      · rcases mem_supersede isOld with before | ended
        · exact chained.endsBounded key version before
        · rw [ended]
          exact chained.begunBounded txn begun
      · obtain rfl := List.mem_singleton.mp isPushed
        exact le_rfl
    · exact chained.endsBounded key version member
  begunBounded := chained.begunBounded

/-- Collection keeps a part of each chain, with its current version or with
nothing at all. -/
theorem gc (chained : session.Chained) (beforeSystemTs : Timestamp) :
    (session.handle (.gc beforeSystemTs)).Chained where
  wellFormed key := by
    simp only [handle, versions_gc]
    exact (chained.wellFormed key).sublist (List.filter_sublist.map interval)
  lastOpen key last isLast := by
    simp only [handle, versions_gc] at isLast
    have member := List.mem_filter.mp (List.mem_of_getLast? isLast)
    have reaches : beforeSystemTs ≤ maxTimestamp := by
      have bound := chained.endsBounded key last member.1
      have kept := of_decide_eq_true member.2
      exact le_trans kept bound
    rcases List.eq_nil_or_concat' (session.store.versions key) with
      none | ⟨earlier, current, shape⟩
    · rw [none] at isLast
      cases isLast
    · have isOpen := chained.lastOpen key current (by rw [shape, List.getLast?_concat])
      rw [shape, List.filter_append,
        List.filter_cons_of_pos (by simpa [isOpen] using reaches), List.filter_nil,
        List.getLast?_concat] at isLast
      cases isLast
      exact isOpen
  endsBounded key version member := by
    simp only [handle, versions_gc] at member
    exact chained.endsBounded key version (List.mem_filter.mp member).1
  begunBounded := chained.begunBounded

theorem handle (chained : session.Chained) {event : MvccEvent}
    (inOrder : session.SupersedesInOrder event) : (session.handle event).Chained := by
  cases event with
  | begin nanos => exact chained.begin nanos
  | write transaction record =>
      rw [MvccSession.handle]
      cases begun : session.transactions[transaction]? with
      | none => exact chained
      | some txn => exact chained.write (List.mem_of_getElem? begun) (inOrder txn begun)
  | commit transaction =>
      rw [MvccSession.handle]
      cases session.transactions[transaction]? with
      | none => exact chained
      | some txn => exact chained
  | gc beforeSystemTs => exact chained.gc beforeSystemTs

theorem inOrder_of_wellFormed (chained : session.Chained) {event : MvccEvent}
    (wellFormed : (session.handle event).store.ChainsWellFormed) :
    session.SupersedesInOrder event := by
  cases event with
  | write transaction record =>
      intro txn begun
      rw [MvccSession.handle, begun] at wellFormed
      exact (chained.write_iff (List.mem_of_getElem? begun) record).mp wellFormed
  | begin nanos => trivial
  | commit transaction => trivial
  | gc beforeSystemTs => trivial

end Chained

/-- Every chain is well formed throughout a run exactly when each write comes at
or after the start of the version that it supersedes, and before the end of time. -/
theorem chains_wellFormed_iff (events : List MvccEvent) :
    (∀ done, done <+: events →
        (Execution.run handle new done).store.ChainsWellFormed) ↔
      Execution.EveryStep handle SupersedesInOrder new events := by
  refine Execution.holds_iff_everyStep handle
    (fun done => (Execution.run handle new done).Chained)
    (fun done => (Execution.run handle new done).store.ChainsWellFormed)
    Chained.new (fun _ chained => chained.wellFormed) ?_ ?_
  · intro done event chained inOrder
    rw [Execution.run_concat]
    exact chained.handle inOrder
  · intro done event chained wellFormed
    rw [Execution.run_concat] at wellFormed
    exact chained.inOrder_of_wellFormed wellFormed

/-- Two transactions begin, at times 1 and 2. The later one writes first, so the
older one ends its version before it starts. -/
theorem older_writer_inverts_interval :
    let events : List MvccEvent :=
      [.begin 1, .begin 2, .write 1 (sampleRecord 1), .write 0 (sampleRecord 1)]
    let reached := Execution.run handle new events
    (reached.store.versions (keyOf (sampleRecord 1))).map interval =
        [⟨2, 1⟩, ⟨1, maxTimestamp⟩] ∧
      ¬ reached.store.ChainsWellFormed := by
  have chain : ((Execution.run handle new
      [.begin 1, .begin 2, .write 1 (sampleRecord 1),
        .write 0 (sampleRecord 1)]).store.versions
          (keyOf (sampleRecord 1))).map interval = [⟨2, 1⟩, ⟨1, maxTimestamp⟩] := by
    decide +kernel
  refine ⟨chain, fun wellFormed => ?_⟩
  have here := wellFormed (keyOf (sampleRecord 1))
  rw [chain] at here
  exact absurd (here.forward ⟨2, 1⟩ List.mem_cons_self) (by decide)

end MvccSession

end FunDB.Storage
