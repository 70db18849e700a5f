import FunDB.Storage.MemTable
import FunDB.Foundation.Execution

/-! # The multiversion store

Each key has a chain of versions. A write supersedes the current version at the
writer's snapshot time, which is the time when its transaction began. -/

namespace FunDB.Storage

open Std (ExtTreeMap)

structure Transaction where
  txnId : Nat
  snapshotTs : Timestamp
deriving DecidableEq, Repr

structure VersionedRecord where
  sysFrom : Timestamp
  /-- The time of the next version, `i64::MAX` for the current one. -/
  sysTo : Timestamp
  validFrom : Timestamp
  validTo : Timestamp
  record : FunRecord
deriving DecidableEq, Repr

structure MvccStore where
  inner : ExtTreeMap RecordKey (List VersionedRecord)
  nextTxn : Nat

/-- The clock's nanoseconds cast to `i64`. -/
def currentNanos (nanos : Nat) : Timestamp := Int.bmod nanos (2 ^ 64)

namespace VersionedRecord

def CurrentAt (version : VersionedRecord) (systemTs : Timestamp) : Prop :=
  version.sysFrom ≤ systemTs ∧ systemTs < version.sysTo

instance (version : VersionedRecord) (systemTs : Timestamp) :
    Decidable (version.CurrentAt systemTs) :=
  inferInstanceAs (Decidable (_ ∧ _))

def supersede (systemTs : Timestamp) : List VersionedRecord → List VersionedRecord
  | [] => []
  | version :: rest =>
      if version.sysTo = maxTimestamp then
        { version with sysTo := systemTs } :: rest
      else
        version :: supersede systemTs rest

end VersionedRecord

namespace MvccStore

open VersionedRecord

def new : MvccStore where
  inner := ∅
  nextTxn := 1

def versions (store : MvccStore) (key : RecordKey) : List VersionedRecord :=
  store.inner.getD key []

def beginTxn (store : MvccStore) (nanos : Nat) : Transaction × MvccStore :=
  ({ txnId := store.nextTxn, snapshotTs := currentNanos nanos },
    { store with nextTxn := (store.nextTxn + 1) % 2 ^ 64 })

def write (store : MvccStore) (txn : Transaction) (record : FunRecord) : MvccStore :=
  let key : RecordKey := { collection := record.collection, id := record.id }
  let versioned : VersionedRecord :=
    { sysFrom := txn.snapshotTs
      sysTo := maxTimestamp
      validFrom := record.validFrom
      validTo := record.validTo
      record := record }
  let superseded := supersede txn.snapshotTs (store.versions key)
  { store with inner := store.inner.insert key (superseded ++ [versioned]) }

/-- The version of the key that was current at the system time. -/
def readAsOfSystem (store : MvccStore) (key : RecordKey) (systemTs : Timestamp) :
    Option FunRecord :=
  ((store.versions key).find? fun version => version.CurrentAt systemTs).map
    VersionedRecord.record

def readAsOfValid (store : MvccStore) (key : RecordKey) (validFrom validTo : Timestamp) :
    List FunRecord :=
  ((store.versions key).filter fun version =>
    version.validFrom < validTo ∧ version.validTo > validFrom).map VersionedRecord.record

/-- Committing does nothing. -/
def commit (store : MvccStore) (_txn : Transaction) : MvccStore := store

def gc (store : MvccStore) (beforeSystemTs : Timestamp) : Nat × MvccStore :=
  let retained (versions : List VersionedRecord) : List VersionedRecord :=
    versions.filter fun version => version.sysTo ≥ beforeSystemTs
  (store.inner.foldl
      (fun deleted _ versions => deleted + (versions.length - (retained versions).length)) 0,
    { store with inner := store.inner.map fun _ versions => retained versions })

end MvccStore

/-! ## Interleaved transactions -/

structure MvccSession where
  store : MvccStore
  transactions : List Transaction

inductive MvccEvent where
  | begin (nanos : Nat)
  | write (transaction : Nat) (record : FunRecord)
  | commit (transaction : Nat)
  | gc (beforeSystemTs : Timestamp)
deriving DecidableEq, Repr

namespace MvccSession

def new : MvccSession where
  store := MvccStore.new
  transactions := []

def handle (session : MvccSession) : MvccEvent → MvccSession
  | .begin nanos =>
      let (txn, store) := session.store.beginTxn nanos
      { store := store, transactions := session.transactions ++ [txn] }
  | .write transaction record =>
      match session.transactions[transaction]? with
      | some txn => { session with store := session.store.write txn record }
      | none => session
  | .commit transaction =>
      match session.transactions[transaction]? with
      | some txn => { session with store := session.store.commit txn }
      | none => session
  | .gc beforeSystemTs => { session with store := (session.store.gc beforeSystemTs).2 }

end MvccSession

/-- A record of one key of the collection `col`. -/
def sampleRecord (confidence : ℚ) : FunRecord :=
  ((FunRecordBuilder.new "col").withConfidence confidence).build (Vector.replicate 16 0) 0

/-! ## What the operations do to the versions -/

theorem currentNanos_le (nanos : Nat) : currentNanos nanos ≤ maxTimestamp := by
  have positive : 0 < 2 ^ 64 := by simp
  have bound := Int.bmod_lt (x := nanos) positive
  change Int.bmod nanos (2 ^ 64) ≤ 2 ^ 63 - 1
  omega

namespace MvccStore

open VersionedRecord

variable (store : MvccStore)

def keyOf (record : FunRecord) : RecordKey where
  collection := record.collection
  id := record.id

def pushed (txn : Transaction) (record : FunRecord) : VersionedRecord where
  sysFrom := txn.snapshotTs
  sysTo := maxTimestamp
  validFrom := record.validFrom
  validTo := record.validTo
  record := record

theorem versions_write (txn : Transaction) (record : FunRecord) (key : RecordKey) :
    (store.write txn record).versions key =
      if keyOf record = key then
        supersede txn.snapshotTs (store.versions key) ++ [pushed txn record]
      else
        store.versions key := by
  simp only [versions, write, Std.ExtTreeMap.getD_insert, Std.LawfulEqCmp.compare_eq_iff_eq]
  by_cases same : keyOf record = key
  · subst same
    rfl
  · rw [if_neg same]
    exact if_neg same

theorem versions_gc (beforeSystemTs : Timestamp) (key : RecordKey) :
    (store.gc beforeSystemTs).2.versions key =
      (store.versions key).filter fun version => version.sysTo ≥ beforeSystemTs := by
  simp only [versions, gc, Std.ExtTreeMap.getD_eq_getD_getElem?, Std.ExtTreeMap.getElem?_map]
  cases store.inner[key]? <;> rfl

end MvccStore

namespace VersionedRecord

/-- Behind closed versions, it is the open one that a write ends. -/
theorem supersede_append {earlier : List VersionedRecord} {current : VersionedRecord}
    (closed : ∀ version ∈ earlier, version.sysTo ≠ maxTimestamp)
    (isOpen : current.sysTo = maxTimestamp) (systemTs : Timestamp) :
    supersede systemTs (earlier ++ [current]) =
      earlier ++ [{ current with sysTo := systemTs }] := by
  induction earlier with
  | nil => simp [supersede, isOpen]
  | cons version rest induction =>
      rw [List.cons_append, supersede, if_neg (closed version List.mem_cons_self),
        induction fun other member => closed other (List.mem_cons_of_mem _ member)]
      rfl

end VersionedRecord

namespace MvccSession

/-- Snapshot times are clock readings. -/
def SnapshotsBounded (session : MvccSession) : Prop :=
  ∀ txn ∈ session.transactions, txn.snapshotTs ≤ maxTimestamp

theorem SnapshotsBounded.handle {session : MvccSession} (bounded : session.SnapshotsBounded)
    (event : MvccEvent) : (session.handle event).SnapshotsBounded := by
  cases event with
  | begin nanos =>
      intro txn member
      rcases List.mem_append.mp member with isOld | isNew
      · exact bounded txn isOld
      · rw [List.mem_singleton.mp isNew]
        dsimp only
        exact currentNanos_le nanos
  | write transaction record =>
      rw [MvccSession.handle]
      split
      · exact bounded
      · exact bounded
  | commit transaction =>
      rw [MvccSession.handle]
      split
      · exact bounded
      · exact bounded
  | gc beforeSystemTs => exact bounded

end MvccSession

end FunDB.Storage
