import FunDB.Raft.Types
import Mathlib.Data.List.Basic

/-! # Durable Raft storage

The storage trait over an arbitrary disk state, and its in-memory
implementation. An operation returns its result together with the disk it
leaves behind. -/

namespace FunDB.Raft

class RaftStorage (Disk : Type) where
  appendEntries : Disk → List LogEntry → Except String Unit × Disk
  getEntries : Disk → Nat → Nat → Except String (List LogEntry)
  lastIndex : Disk → Nat
  lastTerm : Disk → Nat
  saveHardState : Disk → HardState → Except String Unit × Disk
  loadHardState : Disk → Except String HardState
  saveSnapshot : Disk → Snapshot → Except String Unit × Disk
  loadSnapshot : Disk → Except String (Option Snapshot)

/-- A storage whose hard-state operations succeed: what was saved last is
loaded, and the other operations leave it alone. -/
class DurableHardState (Disk : Type) [RaftStorage Disk] : Prop where
  loads (disk : Disk) :
    ∃ state, RaftStorage.loadHardState disk = .ok state
  saved (disk : Disk) (state : HardState) :
    RaftStorage.loadHardState (RaftStorage.saveHardState disk state).2 = .ok state
  snapshotKeeps (disk : Disk) (snapshot : Snapshot) :
    RaftStorage.loadHardState (RaftStorage.saveSnapshot disk snapshot).2 =
      RaftStorage.loadHardState disk
  appendKeeps (disk : Disk) (entries : List LogEntry) :
    RaftStorage.loadHardState (RaftStorage.appendEntries disk entries).2 =
      RaftStorage.loadHardState disk

/-! ## In-memory storage -/

structure MemoryRaftStorage where
  log : List LogEntry
  hardState : HardState
  snapshot : Option Snapshot
deriving DecidableEq, Repr

namespace MemoryRaftStorage

def new : MemoryRaftStorage where
  log := []
  hardState := .default
  snapshot := none

/-- Drop the log from the first entry at or after `entry`, then push it. An
index of zero truncates nothing. -/
def appendEntry (log : List LogEntry) (entry : LogEntry) : List LogEntry :=
  let kept :=
    if entry.index > 0 then
      match log.findIdx? fun existing => existing.index ≥ entry.index with
      | some position => log.take position
      | none => log
    else
      log
  kept ++ [entry]

def appendEntries (storage : MemoryRaftStorage) (entries : List LogEntry) :
    MemoryRaftStorage :=
  { storage with log := entries.foldl appendEntry storage.log }

def getEntries (storage : MemoryRaftStorage) (first last : Nat) : List LogEntry :=
  storage.log.filter fun entry => first ≤ entry.index ∧ entry.index ≤ last

def lastIndex (storage : MemoryRaftStorage) : Nat :=
  (storage.log.getLast?.map LogEntry.index).getD 0

def lastTerm (storage : MemoryRaftStorage) : Nat :=
  (storage.log.getLast?.map LogEntry.term).getD 0

def saveHardState (storage : MemoryRaftStorage) (state : HardState) :
    MemoryRaftStorage :=
  { storage with hardState := state }

def saveSnapshot (storage : MemoryRaftStorage) (snapshot : Snapshot) :
    MemoryRaftStorage :=
  { storage with snapshot := some snapshot }

end MemoryRaftStorage

instance : RaftStorage MemoryRaftStorage where
  appendEntries storage entries := (.ok (), storage.appendEntries entries)
  getEntries storage first last := .ok (storage.getEntries first last)
  lastIndex := MemoryRaftStorage.lastIndex
  lastTerm := MemoryRaftStorage.lastTerm
  saveHardState storage state := (.ok (), storage.saveHardState state)
  loadHardState storage := .ok storage.hardState
  saveSnapshot storage snapshot := (.ok (), storage.saveSnapshot snapshot)
  loadSnapshot storage := .ok storage.snapshot

instance : DurableHardState MemoryRaftStorage where
  loads storage := ⟨storage.hardState, rfl⟩
  saved _ _ := rfl
  snapshotKeeps _ _ := rfl
  appendKeeps _ _ := rfl

namespace MemoryRaftStorage

variable {log : List LogEntry} {entry : LogEntry}

theorem appendEntry_of_lt (beyond : ∀ existing ∈ log, existing.index < entry.index) :
    appendEntry log entry = log ++ [entry] := by
  have absent : log.findIdx? (fun existing => existing.index ≥ entry.index) = none := by
    apply List.findIdx?_eq_none_iff.mpr
    intro existing member
    have := beyond existing member
    simp
    omega
  simp [appendEntry, absent]

/-- Nothing at or above a positive appended index survives but the new entry. -/
theorem index_lt_of_mem_appendEntry (positive : 0 < entry.index)
    {existing : LogEntry} (member : existing ∈ appendEntry log entry) :
    existing = entry ∨ existing ∈ log ∧ existing.index < entry.index := by
  rw [appendEntry, if_pos positive] at member
  rcases List.mem_append.mp member with kept | pushed
  · right
    cases located : log.findIdx? fun existing => existing.index ≥ entry.index with
    | none =>
        rw [located] at kept
        have below := List.findIdx?_eq_none_iff.mp located existing kept
        simp only [decide_eq_false_iff_not] at below
        exact ⟨kept, by omega⟩
    | some position =>
        rw [located] at kept
        refine ⟨List.mem_of_mem_take kept, ?_⟩
        rcases List.mem_iff_getElem.mp kept with ⟨earlier, within, rfl⟩
        rw [List.getElem_take]
        rw [List.length_take] at within
        rcases List.findIdx?_eq_some_iff_getElem.mp located with
          ⟨positionWithin, _, smaller⟩
        have notReached := smaller earlier (by omega)
        simp only [decide_eq_true_eq] at notReached
        omega
  · exact .inl (List.mem_singleton.mp pushed)

end MemoryRaftStorage

end FunDB.Raft
