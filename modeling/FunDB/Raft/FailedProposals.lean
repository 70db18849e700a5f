import FunDB.Raft.Node

/-! # Proposals that the storage refuses

`propose` pushes its entry in memory before it stores it. When the storage
fails, the entry stays: the call returns an error and the log has grown. -/

namespace FunDB.Raft

/-! ## A storage that fails at times -/

/-- The in-memory storage behind a disk that refuses the appends marked. -/
structure FlakyStorage where
  inner : MemoryRaftStorage
  refuses : List Bool
deriving DecidableEq

namespace FlakyStorage

def appendEntries (storage : FlakyStorage) (entries : List LogEntry) :
    Except String Unit × FlakyStorage :=
  match storage.refuses with
  | true :: later => (.error "disk full", { storage with refuses := later })
  | false :: later => (.ok (), ⟨storage.inner.appendEntries entries, later⟩)
  | [] => (.ok (), ⟨storage.inner.appendEntries entries, []⟩)

end FlakyStorage

instance : RaftStorage FlakyStorage where
  appendEntries := FlakyStorage.appendEntries
  getEntries storage first last := .ok (storage.inner.getEntries first last)
  lastIndex storage := storage.inner.lastIndex
  lastTerm storage := storage.inner.lastTerm
  saveHardState storage state :=
    (.ok (), { storage with inner := storage.inner.saveHardState state })
  loadHardState storage := .ok storage.inner.hardState
  saveSnapshot storage snapshot :=
    (.ok (), { storage with inner := storage.inner.saveSnapshot snapshot })
  loadSnapshot storage := .ok storage.inner.snapshot

namespace RaftNode

variable {Disk : Type} [RaftStorage Disk]

/-- The call failed, and log, commit index and stored log are what they were. -/
structure LeavesLog (before : RaftNode Disk) (result : Except RaftError Unit)
    (after : RaftNode Disk) : Prop where
  failed : ∃ error, result = .error error
  log : after.state.log = before.state.log
  commit : after.state.commitIndex = before.state.commitIndex
  stored : ∀ first last, RaftStorage.getEntries after.storage first last =
    RaftStorage.getEntries before.storage first last

theorem propose_of_refused {node : RaftNode Disk} {data : List UInt8} {cause : String}
    (leads : node.state.role = .leader)
    (refused : (RaftStorage.appendEntries node.storage [node.nextEntry data]).1 = .error cause) :
    node.propose data =
      (.error (.storage cause),
        { node with
          state := { node.state with log := node.state.log ++ [node.nextEntry data] }
          storage := (RaftStorage.appendEntries node.storage [node.nextEntry data]).2 }) := by
  have checked : node.proposeCheck = .ok () := by
    rw [proposeCheck, if_neg (not_not.mpr leads)]
  have stored : ((node.proposeAppend data).2.proposeStore (node.nextEntry data)).1 =
      .error (.storage cause) := by
    have asked : (RaftStorage.appendEntries (node.proposeAppend data).2.storage
        [node.nextEntry data]).1 = .error cause := refused
    rw [proposeStore, asked]
    rfl
  rw [nextEntry] at stored
  rw [propose, checked]
  dsimp only
  rw [stored]
  rfl

/-- The entry stays in the log, and the next proposal takes the index behind it. -/
theorem lastLogIndex_propose_of_refused {node : RaftNode Disk} {data : List UInt8}
    {cause : String} (leads : node.state.role = .leader)
    (refused : (RaftStorage.appendEntries node.storage [node.nextEntry data]).1 = .error cause) :
    (node.propose data).2.state.lastLogIndex = wrappingSucc node.state.lastLogIndex := by
  rw [propose_of_refused leads refused, RaftState.lastLogIndex, List.getLast?_concat]
  rfl

/-- On no leader and no storage that refuses the entry does a failed call leave
the log as it was, and the next entry is proposed with a gap in front of it. -/
theorem refused_propose_leaves_entry (node : RaftNode Disk) (data : List UInt8)
    (leads : node.state.role = .leader)
    (refused : ∃ cause,
      (RaftStorage.appendEntries node.storage [node.nextEntry data]).1 = .error cause) :
    ¬ node.LeavesLog (node.propose data).1 (node.propose data).2 ∧
      ∀ more, ((node.propose data).2.nextEntry more).index =
        wrappingSucc (wrappingSucc node.state.lastLogIndex) := by
  rcases refused with ⟨cause, refused⟩
  constructor
  · intro leaves
    have grown := leaves.log
    rw [propose_of_refused leads refused] at grown
    exact absurd grown (by simp)
  · intro more
    have index : ((node.propose data).2.nextEntry more).index =
        wrappingSucc (node.propose data).2.state.lastLogIndex := rfl
    rw [index, lastLogIndex_propose_of_refused leads refused]

/-- A single node that leads, on a disk that refuses the first append. -/
def flakyLeader : RaftNode FlakyStorage :=
  (RaftNode.new 1 [] ⟨MemoryRaftStorage.new, [true]⟩).forceBecomeLeader

theorem refused_propose_leaves_entry_flaky :
    ¬ flakyLeader.LeavesLog (flakyLeader.propose [1]).1 (flakyLeader.propose [1]).2 ∧
      ((flakyLeader.propose [1]).2.nextEntry [2]).index = 2 := by
  rcases refused_propose_leaves_entry flakyLeader [1] rfl ⟨"disk full", rfl⟩ with ⟨grown, gap⟩
  exact ⟨grown, gap [2]⟩

/-- The second proposal succeeds, and stores and commits index 2: the stored log
has no index 1. -/
theorem refused_entry_leaves_gap :
    let refused := flakyLeader.propose [1]
    let accepted := refused.2.propose [2]
    refused.1 = .error (.storage "disk full") ∧
      refused.2.state.log.map LogEntry.index = [1] ∧
      flakyLeader.state.log = [] ∧
      accepted.1 = .ok () ∧
      accepted.2.storage.inner.log.map LogEntry.index = [2] := by
  exact ⟨rfl, rfl, rfl, rfl, rfl⟩

end RaftNode

end FunDB.Raft
