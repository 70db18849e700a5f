import FunDB.Raft.State
import FunDB.Raft.Storage

/-! # A Raft node

The node couples the locked state with durable storage. Every public call is one
atomic step here; `propose` is also given by the critical sections it consists
of, for the runs in which calls overlap. -/

namespace FunDB.Raft

structure RaftNode (Disk : Type) where
  id : NodeId
  peers : List (NodeId × PeerAddr)
  storage : Disk
  state : RaftState

namespace RaftNode

variable {Disk : Type} [RaftStorage Disk]

/-- The hard state that the handlers save. -/
def hardState (node : RaftNode Disk) : HardState where
  currentTerm := node.state.currentTerm
  votedFor := node.state.votedFor
  commit := node.state.commitIndex

def peerIds (node : RaftNode Disk) : List NodeId := node.peers.map Prod.fst

/-- Save the hard state, as `let _ = storage.save_hard_state(hs)` does: a
failure is ignored. -/
def persist (node : RaftNode Disk) : RaftNode Disk :=
  { node with storage := (RaftStorage.saveHardState node.storage node.hardState).2 }

/-- A node on the given storage: persisted hard state and log are loaded where
the storage returns them. -/
def new (id : NodeId) (peers : List (NodeId × PeerAddr)) (storage : Disk) :
    RaftNode Disk :=
  let state := RaftState.new
  let state :=
    match RaftStorage.loadHardState storage with
    | .ok saved =>
        { state with
          currentTerm := saved.currentTerm
          votedFor := saved.votedFor
          commitIndex := saved.commit }
    | .error _ => state
  let lastIdx := RaftStorage.lastIndex storage
  let state :=
    if lastIdx > 0 then
      match RaftStorage.getEntries storage 1 lastIdx with
      | .ok entries => { state with log := entries }
      | .error _ => state
    else
      state
  { id := id, peers := peers, storage := storage, state := state }

/-- The node that comes back on the same storage. -/
def restart (node : RaftNode Disk) : RaftNode Disk :=
  RaftNode.new node.id node.peers node.storage

/-! ## Proposals -/

/-- The check under the read lock: only a leader proposes. -/
def proposeCheck (node : RaftNode Disk) : Except RaftError Unit :=
  if node.state.role ≠ .leader then
    .error (.notLeader node.state.leaderId)
  else
    .ok ()

/-- The in-memory append under the write lock. -/
def proposeAppend (node : RaftNode Disk) (data : List UInt8) :
    LogEntry × RaftNode Disk :=
  let entry : LogEntry :=
    { index := wrappingSucc node.state.lastLogIndex
      term := node.state.currentTerm
      data := data
      entryType := .normal }
  (entry, { node with state := { node.state with log := node.state.log ++ [entry] } })

def nextEntry (node : RaftNode Disk) (data : List UInt8) : LogEntry :=
  (node.proposeAppend data).1

/-- The durable append, after the write lock is released. -/
def proposeStore (node : RaftNode Disk) (entry : LogEntry) :
    Except RaftError Unit × RaftNode Disk :=
  let stored := RaftStorage.appendEntries node.storage [entry]
  (stored.1.mapError .storage, { node with storage := stored.2 })

/-- Replicate to the peers and commit. The source has no transport and counts
every peer as acknowledging. -/
def replicateAndCommit (node : RaftNode Disk) (upToIndex : Nat) :
    Except RaftError Unit × RaftNode Disk :=
  let total := node.peers.length + 1
  let majority := total / 2 + 1
  let acks := 1 + node.peers.length
  if acks ≥ majority then
    if upToIndex > node.state.commitIndex then
      if node.state.logTermAt upToIndex = node.state.currentTerm then
        let node := { node with state := { node.state with commitIndex := upToIndex } }
        let saved := RaftStorage.saveHardState node.storage node.hardState
        (saved.1.mapError .storage, { node with storage := saved.2 })
      else
        (.ok (), node)
    else
      (.ok (), node)
  else
    (.ok (), node)

/-- The commit under the second write lock: at once without peers, through
replication otherwise. -/
def proposeCommit (node : RaftNode Disk) (entry : LogEntry) :
    Except RaftError Unit × RaftNode Disk :=
  if node.peers.isEmpty then
    let node := { node with state := { node.state with commitIndex := entry.index } }
    let saved := RaftStorage.saveHardState node.storage node.hardState
    (saved.1.mapError .storage, { node with storage := saved.2 })
  else
    node.replicateAndCommit entry.index

def propose (node : RaftNode Disk) (data : List UInt8) :
    Except RaftError Unit × RaftNode Disk :=
  match node.proposeCheck with
  | .error error => (.error error, node)
  | .ok () =>
      let (entry, node) := node.proposeAppend data
      let (stored, node) := node.proposeStore entry
      match stored with
      | .error error => (.error error, node)
      | .ok () => node.proposeCommit entry

/-! ## Elections -/

/-- Become candidate and vote for oneself. The flag tells whether the node won
at once. -/
def startElection (node : RaftNode Disk) : Bool × RaftNode Disk :=
  let candidate := node.state.becomeCandidate
  let node := { node with state := { candidate with votedFor := some node.id } }
  let term := node.state.currentTerm
  let node := node.persist
  if node.peerIds.isEmpty then
    (true, { node with state := node.state.becomeLeader node.id [] })
  else
    let votes := 1
    let total := node.peerIds.length + 1
    let majority := total / 2 + 1
    if votes ≥ majority then
      if node.state.currentTerm = term ∧ node.state.role = .candidate then
        (true, { node with state := node.state.becomeLeader node.id node.peerIds })
      else
        (false, node)
    else
      (false, node)

/-- Bootstrap helper: the term rises, nothing is saved. -/
def forceBecomeLeader (node : RaftNode Disk) : RaftNode Disk :=
  let raised := { node.state with currentTerm := wrappingSucc node.state.currentTerm }
  { node with state := raised.becomeLeader node.id node.peerIds }

/-! ## RPC handlers -/

def handleAppendEntries (node : RaftNode Disk) (req : AppendEntriesRequest) :
    AppendEntriesResponse × RaftNode Disk :=
  let ((response, persist), state) := node.state.handleAppendEntries req node.id
  let node := { node with state := state }
  (response, if persist then node.persist else node)

def handleRequestVote (node : RaftNode Disk) (req : RequestVoteRequest) :
    RequestVoteResponse × RaftNode Disk :=
  let ((response, persist), state) := node.state.handleRequestVote req
  let node := { node with state := state }
  (response, if persist then node.persist else node)

def handleInstallSnapshot (node : RaftNode Disk) (req : InstallSnapshotRequest) :
    InstallSnapshotResponse × RaftNode Disk :=
  if req.term < node.state.currentTerm then
    (⟨node.state.currentTerm⟩, node)
  else
    -- Unlike an append, a snapshot leaves a candidate of the same term candidate.
    let state :=
      if req.term > node.state.currentTerm then
        node.state.becomeFollower req.term (some req.leaderId)
      else
        { node.state with leaderId := some req.leaderId }
    let snapshot : Snapshot :=
      { index := req.lastIncludedIndex, term := req.lastIncludedTerm, data := req.data }
    let state :=
      { state with
        log := state.log.filter fun entry => entry.index > req.lastIncludedIndex
        commitIndex := max state.commitIndex req.lastIncludedIndex
        lastApplied := max state.lastApplied req.lastIncludedIndex }
    let node := { node with
      state := state
      storage := (RaftStorage.saveSnapshot node.storage snapshot).2 }
    (⟨state.currentTerm⟩, node.persist)

/-- Record how far a follower has replicated and try to advance the commit
index. -/
def updateMatchIndex (node : RaftNode Disk) (peerId : NodeId) (matchIdx : Nat) :
    RaftNode Disk :=
  if node.state.role ≠ .leader then
    node
  else
    let state := { node.state with
      matchIndex := node.state.matchIndex.insert peerId matchIdx
      nextIndex := node.state.nextIndex.insert peerId (wrappingSucc matchIdx) }
    let (advanced, state) := state.advanceCommitIndex node.id state.nextIndex.keys
    let node := { node with state := state }
    if advanced then node.persist else node

end RaftNode

/-! ## Calls and runs -/

/-- A call of a node's public interface. -/
inductive Call where
  | startElection
  | forceBecomeLeader
  | requestVote (req : RequestVoteRequest)
  | appendEntries (req : AppendEntriesRequest)
  | installSnapshot (req : InstallSnapshotRequest)
  | propose (data : List UInt8)
  | updateMatchIndex (peerId : NodeId) (matchIdx : Nat)
deriving DecidableEq, Repr

/-- What a call answers. -/
inductive Reply where
  | none
  | won (result : Bool)
  | vote (response : RequestVoteResponse)
  | appended (response : AppendEntriesResponse)
  | installed (response : InstallSnapshotResponse)
  | proposed (result : Except RaftError Unit)

namespace RaftNode

variable {Disk : Type} [RaftStorage Disk]

def call (node : RaftNode Disk) : Call → Reply × RaftNode Disk
  | .startElection => let (won, node) := node.startElection; (.won won, node)
  | .forceBecomeLeader => (.none, node.forceBecomeLeader)
  | .requestVote req =>
      let (response, node) := node.handleRequestVote req; (.vote response, node)
  | .appendEntries req =>
      let (response, node) := node.handleAppendEntries req; (.appended response, node)
  | .installSnapshot req =>
      let (response, node) := node.handleInstallSnapshot req
      (.installed response, node)
  | .propose data =>
      let (result, node) := node.propose data; (.proposed result, node)
  | .updateMatchIndex peerId matchIdx => (.none, node.updateMatchIndex peerId matchIdx)

def step (node : RaftNode Disk) (call : Call) : RaftNode Disk := (node.call call).2

def reply (node : RaftNode Disk) (call : Call) : Reply := (node.call call).1

def makeClusterNode : RaftNode MemoryRaftStorage :=
  RaftNode.new 1 [(2, "node2:7000"), (3, "node3:7000")] MemoryRaftStorage.new

/-! ## What the calls do to a node -/

section Effects

variable (node : RaftNode Disk)

@[simp] theorem persist_state : node.persist.state = node.state := rfl

@[simp] theorem persist_id : node.persist.id = node.id := rfl

@[simp] theorem persist_peers : node.persist.peers = node.peers := rfl

/-- Committing an entry saves the hard state with the entry's index, or does nothing. -/
theorem proposeCommit_cases (entry : LogEntry) :
    (node.proposeCommit entry).2 = node ∨
      (node.proposeCommit entry).2 =
        persist { node with state := { node.state with commitIndex := entry.index } } := by
  rw [proposeCommit]
  split
  · exact .inr rfl
  · rw [replicateAndCommit]
    split_ifs
    · exact .inr rfl
    all_goals exact .inl rfl

/-- A proposal is refused, is left in the log, or is committed there. -/
theorem propose_cases (data : List UInt8) :
    (node.propose data).2 = node ∨
      (node.propose data).2 =
        ((node.proposeAppend data).2.proposeStore (node.proposeAppend data).1).2 ∨
      (node.propose data).2 =
        (proposeCommit ((node.proposeAppend data).2.proposeStore
          (node.proposeAppend data).1).2 (node.proposeAppend data).1).2 := by
  rw [propose]
  split
  · exact .inl rfl
  · dsimp only
    split
    · exact .inr (.inl rfl)
    · exact .inr (.inr rfl)

theorem startElection_state :
    ∃ role leaderId nextIndex matchIndex,
      node.startElection.2.state = { node.state with
        currentTerm := wrappingSucc node.state.currentTerm
        votedFor := some node.id
        role := role
        leaderId := leaderId
        nextIndex := nextIndex
        matchIndex := matchIndex } := by
  rw [startElection]
  simp only
  split_ifs <;> exact ⟨_, _, _, _, rfl⟩

omit [RaftStorage Disk] in
theorem forceBecomeLeader_state :
    ∃ nextIndex matchIndex,
      node.forceBecomeLeader.state = { node.state with
        currentTerm := wrappingSucc node.state.currentTerm
        role := .leader
        leaderId := some node.id
        nextIndex := nextIndex
        matchIndex := matchIndex } :=
  ⟨_, _, rfl⟩

theorem handleAppendEntries_state (req : AppendEntriesRequest) :
    (node.handleAppendEntries req).2.state =
      (node.state.handleAppendEntries req node.id).2 := by
  rw [handleAppendEntries]
  dsimp only
  split <;> rfl

theorem handleRequestVote_state (req : RequestVoteRequest) :
    (node.handleRequestVote req).2.state =
      (node.state.handleRequestVote req).2 := by
  rw [handleRequestVote]
  dsimp only
  split <;> rfl

theorem propose_state (data : List UInt8) :
    ∃ log commitIndex, (node.propose data).2.state =
      { node.state with log := log, commitIndex := commitIndex } := by
  rcases node.propose_cases data with result | result | result <;> rw [result]
  · exact ⟨_, _, rfl⟩
  · exact ⟨_, _, rfl⟩
  · rcases ((node.proposeAppend data).2.proposeStore
      (node.proposeAppend data).1).2.proposeCommit_cases (node.proposeAppend data).1 with
      result | result <;> rw [result]
    · exact ⟨_, _, rfl⟩
    · exact ⟨_, _, rfl⟩

theorem updateMatchIndex_state (peerId : NodeId) (matchIdx : Nat) :
    ∃ nextIndex matchIndex commitIndex,
      (node.updateMatchIndex peerId matchIdx).state = { node.state with
        nextIndex := nextIndex
        matchIndex := matchIndex
        commitIndex := commitIndex } := by
  rw [updateMatchIndex]
  split
  · exact ⟨_, _, _, rfl⟩
  · dsimp only
    rcases RaftState.advanceCommitIndex_cases _ node.id _ with
      ⟨_, result⟩ | result <;> rw [result] <;> exact ⟨_, _, _, rfl⟩

end Effects

end RaftNode

end FunDB.Raft
