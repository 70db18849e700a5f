import FunDB.Raft.Node
import FunDB.Raft.EntryLoops
import FunDB.Raft.Replication
import FunDB.Foundation.Execution

/-! # Committed entries and snapshots

A committed index must be covered by the stored snapshot or by the log. It stays
so while snapshots do not go back and a request that cuts off committed entries
brings them again. -/

namespace FunDB.Raft

open RaftState

/-- The received entries are those between the predecessor and the last index. -/
theorem AppendEntriesRequest.TakenFrom.hasIndex_entries_iff {req : AppendEntriesRequest}
    {leader : List LogEntry} (taken : req.TakenFrom leader) (wellFormed : WellFormedLog leader)
    (index : Nat) :
    HasIndex req.entries index ↔ req.prevLogIndex < index ∧ index ≤ req.lastIndex := by
  have position (offset : Nat) (within : offset < req.entries.length) :
      ∃ entry, req.entries[offset]? = some entry ∧
        entry.index = req.prevLogIndex + offset + 1 := by
    have bound := taken.lastIndex_le
    rw [lastIndex] at bound
    have inLeader : req.prevLogIndex + offset < leader.length := by omega
    have here := List.getElem?_eq_getElem inLeader
    refine ⟨leader[req.prevLogIndex + offset], ?_,
      wellFormed.contiguous.index_of_getElem? here⟩
    rw [taken.consecutive, List.getElem?_take, if_pos within, List.getElem?_drop, here]
  constructor
  · intro received
    rcases received with ⟨entry, member, rfl⟩
    rcases List.mem_iff_getElem?.mp member with ⟨offset, here⟩
    have within := (List.getElem?_eq_some_iff.mp here).1
    rcases position offset within with ⟨other, sameHere, number⟩
    rw [here] at sameHere
    rw [Option.some.inj sameHere, number, lastIndex]
    omega
  · intro between
    rcases between with ⟨above, reached⟩
    rw [lastIndex] at reached
    rcases position (index - req.prevLogIndex - 1) (by omega) with
      ⟨entry, here, number⟩
    exact ⟨entry, List.mem_of_getElem? here, by omega⟩

inductive ReplicationEvent where
  | appendEntries (req : AppendEntriesRequest)
  | installSnapshot (req : InstallSnapshotRequest)

/-- The entries of the message come from the log of the leader of its term. -/
def ReplicationEvent.ConsistentWith (leaders : Nat → List LogEntry) :
    ReplicationEvent → Prop
  | .appendEntries req => req.TakenFrom (leaders req.term)
  | .installSnapshot _ => True

instance (leaders : Nat → List LogEntry) :
    ∀ event : ReplicationEvent, Decidable (event.ConsistentWith leaders)
  | .appendEntries req => inferInstanceAs (Decidable (req.TakenFrom _))
  | .installSnapshot _ => inferInstanceAs (Decidable True)

namespace RaftNode

def receive (node : RaftNode MemoryRaftStorage) :
    ReplicationEvent → RaftNode MemoryRaftStorage
  | .appendEntries req => (node.handleAppendEntries req).2
  | .installSnapshot req => (node.handleInstallSnapshot req).2

/-- The index of the stored snapshot, 0 without one. -/
def snapshotIndex (node : RaftNode MemoryRaftStorage) : Nat :=
  (node.storage.snapshot.map Snapshot.index).getD 0

@[simp] theorem snapshotIndex_persist (node : RaftNode MemoryRaftStorage)
    (state : RaftState) :
    snapshotIndex (persist { node with state := state }) = node.snapshotIndex := rfl

/-- The index is covered by the stored snapshot or by an entry of the log. -/
def Covers (node : RaftNode MemoryRaftStorage) (index : Nat) : Prop :=
  index ≤ node.snapshotIndex ∨ HasIndex node.state.log index

instance (node : RaftNode MemoryRaftStorage) (index : Nat) : Decidable (node.Covers index) :=
  inferInstanceAs (Decidable (_ ∨ _))

/-- Every committed index is covered. -/
def CommittedCovered (node : RaftNode MemoryRaftStorage) : Prop :=
  ∀ index, 1 ≤ index → index ≤ node.state.commitIndex → node.Covers index

/-- An accepted snapshot is not older than the stored one, unless the log has
the entries between the two; and an accepted request that does not raise the
commit index and conflicts with a committed entry brings entries up to the
commit index, unless the stored snapshot reaches it. -/
def KeepsCommitted (node : RaftNode MemoryRaftStorage) : ReplicationEvent → Prop
  | .installSnapshot req =>
      node.state.currentTerm ≤ req.term →
        ∀ index ≤ node.snapshotIndex, req.lastIncludedIndex < index →
          HasIndex node.state.log index
  | .appendEntries req =>
      node.state.currentTerm ≤ req.term → prevMatches node.state.log req = true →
        req.leaderCommit ≤ node.state.commitIndex →
          ∀ received ∈ req.entries, ConflictsWith node.state.log received →
            received.index ≤ node.state.commitIndex →
              node.state.commitIndex ≤ max node.snapshotIndex req.lastIndex

instance (node : RaftNode MemoryRaftStorage) :
    ∀ event, Decidable (node.KeepsCommitted event)
  | .installSnapshot _ => inferInstanceAs (Decidable (_ → ∀ _ ≤ _, _ → _))
  | .appendEntries _ => inferInstanceAs (Decidable (_ → _ → _ → ∀ _ ∈ _, _ → _ → _))

/-- The invariant: besides the committed indices, every index below an entry of
the log is covered. -/
structure Gapless (node : RaftNode MemoryRaftStorage) : Prop where
  committed : node.CommittedCovered
  below : ∀ entry ∈ node.state.log, ∀ index, 1 ≤ index → index ≤ entry.index →
    node.Covers index

namespace Gapless

variable {node : RaftNode MemoryRaftStorage}

/-! ## Snapshots -/

theorem handleInstallSnapshot (gapless : node.Gapless) (req : InstallSnapshotRequest)
    (keeps : node.KeepsCommitted (.installSnapshot req)) :
    (node.handleInstallSnapshot req).2.Gapless := by
  have covered {after : RaftNode MemoryRaftStorage}
      (stored : after.snapshotIndex = req.lastIncludedIndex)
      (log : after.state.log =
        node.state.log.filter fun entry => entry.index > req.lastIncludedIndex)
      (current : node.state.currentTerm ≤ req.term) {index : Nat}
      (before : node.Covers index) : after.Covers index := by
    rcases Nat.lt_or_ge req.lastIncludedIndex index with above | inSnapshot
    · right
      have held : HasIndex node.state.log index := by
        rcases before with bySnapshot | byLog
        · exact keeps current index bySnapshot above
        · exact byLog
      rcases held with ⟨entry, member, rfl⟩
      rw [log]
      exact ⟨entry, List.mem_filter.mpr ⟨member, by simpa using above⟩, rfl⟩
    · left
      rw [stored]
      exact inSnapshot
  rw [RaftNode.handleInstallSnapshot]
  split
  · exact gapless
  · rename_i notStale
    have current := Nat.not_lt.mp notStale
    by_cases raised : req.term > node.state.currentTerm
    all_goals
      simp only [raised, if_true, if_false, becomeFollower]
      constructor
      · intro index positive committed
        rcases Nat.le_total index req.lastIncludedIndex with inSnapshot | above
        · exact .inl inSnapshot
        · rcases Nat.eq_or_lt_of_le above with same | above
          · exact .inl same.ge
          · have before : index ≤ node.state.commitIndex := by
              simp only [persist_state] at committed
              omega
            exact covered rfl rfl current (gapless.committed index positive before)
      · intro entry member index positive reached
        have inLog := (List.mem_filter.mp member).1
        exact covered rfl rfl current (gapless.below entry inLog index positive reached)

/-! ## Requests -/

variable {leader : List LogEntry} {req : AppendEntriesRequest}

/-- Up to the predecessor everything is covered, and stays so. -/
theorem covered_upTo_prev (gapless : node.Gapless) (wellFormed : WellFormedLog leader)
    (taken : req.TakenFrom leader) (matched : prevMatches node.state.log req = true)
    {index : Nat} (positive : 1 ≤ index) (bound : index ≤ req.prevLogIndex) :
    node.Covers index := by
  rcases Nat.exists_eq_succ_of_ne_zero (n := req.prevLogIndex) (by omega) with
    ⟨position, shape⟩
  have within : position < leader.length := by
    have := taken.prevWithin
    omega
  have leaderTerm := mt (wellFormed.termAt_succ_eq_zero_iff position).mp (by omega)
  have ownTerm : termAt node.state.log req.prevLogIndex ≠ 0 := by
    rw [termAt_eq_of_prevMatches taken matched (by omega), shape]
    exact leaderTerm
  rcases hasIndex_of_termAt_ne_zero ownTerm with ⟨entry, member, same⟩
  exact gapless.below entry member index positive (by omega)

theorem covers_replicated (gapless : node.Gapless) (wellFormed : WellFormedLog leader)
    (taken : req.TakenFrom leader) (matched : prevMatches node.state.log req = true)
    {entry : LogEntry} (member : entry ∈ replicateEntries node.state.log req.entries)
    {index : Nat} (positive : 1 ≤ index) (bound : index ≤ entry.index) :
    index ≤ node.snapshotIndex ∨
      HasIndex (replicateEntries node.state.log req.entries) index := by
  have receivedIndex := taken.hasIndex_entries_iff wellFormed
  rw [hasIndex_replicateEntries_iff, hasIndex_survivors_iff]
  have entryPlace := (hasIndex_replicateEntries_iff node.state.log req.entries
    entry.index).mp ⟨entry, member, rfl⟩
  rcases entryPlace with ofLog | ofRequest
  · rw [hasIndex_survivors_iff] at ofLog
    rcases ofLog with ⟨⟨own, inLog, same⟩, belowConflicts⟩
    rcases gapless.below own inLog index positive (by omega) with bySnapshot | byLog
    · exact .inl bySnapshot
    · exact .inr (.inl ⟨byLog, fun received isReceived conflict =>
        bound.trans_lt (belowConflicts received isReceived conflict)⟩)
  · have reached := (receivedIndex entry.index).mp ofRequest
    rcases Nat.lt_or_ge req.prevLogIndex index with above | upToPrev
    · exact .inr (.inr ((receivedIndex index).mpr ⟨above, by omega⟩))
    · rcases gapless.covered_upTo_prev wellFormed taken matched positive upToPrev with
        bySnapshot | byLog
      · exact .inl bySnapshot
      · refine .inr (.inl ⟨byLog, fun received isReceived _ => ?_⟩)
        have := ((receivedIndex received.index).mp ⟨received, isReceived, rfl⟩).1
        omega

theorem committed_replicated (gapless : node.Gapless) (wellFormed : WellFormedLog leader)
    (taken : req.TakenFrom leader) (matched : prevMatches node.state.log req = true)
    (keeps : req.leaderCommit ≤ node.state.commitIndex →
      ∀ received ∈ req.entries, ConflictsWith node.state.log received →
        received.index ≤ node.state.commitIndex →
          node.state.commitIndex ≤ max node.snapshotIndex req.lastIndex)
    {index : Nat} (positive : 1 ≤ index)
    (committed : index ≤ (node.state.replicated req).commitIndex) :
    index ≤ node.snapshotIndex ∨
      HasIndex (replicateEntries node.state.log req.entries) index := by
  simp only [replicated] at committed
  split at committed
  · -- The commit index is raised to the end of the log at most.
    have reached := committed.trans (Nat.min_le_right _ _)
    cases last : (replicateEntries node.state.log req.entries).getLast? with
    | none =>
        simp only [last, Option.map_none, Option.getD_none] at reached
        omega
    | some entry =>
        simp only [last, Option.map_some, Option.getD_some] at reached
        exact gapless.covers_replicated wellFormed taken matched
          (List.mem_of_getLast? last) positive reached
  · rename_i unraised
    rcases gapless.committed index positive committed with bySnapshot | byLog
    · exact .inl bySnapshot
    · rw [hasIndex_replicateEntries_iff, hasIndex_survivors_iff]
      by_cases survives : ∀ received ∈ req.entries,
          ConflictsWith node.state.log received → index < received.index
      · exact .inr (.inl ⟨byLog, survives⟩)
      · -- The entry is cut off, so it is received again.
        simp only [not_forall, Nat.not_lt] at survives
        rcases survives with ⟨received, isReceived, conflict, cut⟩
        have restored := keeps (Nat.not_lt.mp unraised) received isReceived conflict
          (cut.trans committed)
        rw [taken.hasIndex_entries_iff wellFormed]
        have above := ((taken.hasIndex_entries_iff wellFormed received.index).mp
          ⟨received, isReceived, rfl⟩).1
        rcases Nat.lt_or_ge node.snapshotIndex index with beyond | bySnapshot
        · exact .inr (.inr ⟨by omega, by omega⟩)
        · exact .inl bySnapshot

theorem handleAppendEntries (gapless : node.Gapless) (wellFormed : WellFormedLog leader)
    (taken : req.TakenFrom leader) (keeps : node.KeepsCommitted (.appendEntries req)) :
    (node.handleAppendEntries req).2.Gapless := by
  rw [RaftNode.handleAppendEntries]
  rcases node.state.handleAppendEntries_cases req node.id with
    ⟨_, result⟩ | ⟨_, _, result⟩ | ⟨current, matched, result⟩ <;> rw [result]
  · exact gapless
  · exact
      { committed := fun index positive bound => by
          have before := gapless.committed index positive (by simpa using bound)
          simpa [Covers] using before
        below := fun entry member index positive bound => by
          have before := gapless.below entry (by simpa using member) index positive bound
          simpa [Covers] using before }
  · exact
      { committed := fun _ positive bound =>
          gapless.committed_replicated wellFormed taken matched (keeps current matched)
            positive bound
        below := fun _ member _ positive bound =>
          gapless.covers_replicated wellFormed taken matched member positive bound }

theorem receive (gapless : node.Gapless) {leaders : Nat → List LogEntry}
    (wellFormed : ∀ term, WellFormedLog (leaders term)) {event : ReplicationEvent}
    (consistent : event.ConsistentWith leaders) (keeps : node.KeepsCommitted event) :
    (node.receive event).Gapless := by
  cases event with
  | appendEntries req => exact gapless.handleAppendEntries (wellFormed req.term) consistent keeps
  | installSnapshot req => exact gapless.handleInstallSnapshot req keeps

theorem run {events : List ReplicationEvent} (gapless : node.Gapless)
    {leaders : Nat → List LogEntry} (wellFormed : ∀ term, WellFormedLog (leaders term))
    (consistent : ∀ event ∈ events, event.ConsistentWith leaders)
    (keeps : Execution.EveryStep RaftNode.receive KeepsCommitted node events) :
    (Execution.run RaftNode.receive node events).Gapless := by
  induction events generalizing node with
  | nil => exact gapless
  | cons event rest induction =>
      have first := gapless.receive wellFormed (consistent event List.mem_cons_self) keeps.1
      exact induction first
        (fun later member => consistent later (List.mem_cons_of_mem _ member)) keeps.2

theorem new (id : NodeId) (peers : List (NodeId × PeerAddr)) :
    (RaftNode.new id peers MemoryRaftStorage.new).Gapless where
  committed index positive committed := by
    have none : index ≤ 0 := committed
    omega
  below entry member := by cases member

end Gapless

/-- Every committed index stays in the stored snapshot or in the log, in every
run whose snapshots do not go back over dropped entries and whose requests bring
committed entries again that they cut off. -/
theorem committed_entries_covered (id : NodeId) (peers : List (NodeId × PeerAddr))
    (leaders : Nat → List LogEntry) (wellFormed : ∀ term, WellFormedLog (leaders term))
    (events : List ReplicationEvent)
    (consistent : ∀ event ∈ events, event.ConsistentWith leaders)
    (keeps : Execution.EveryStep receive KeepsCommitted
      (RaftNode.new id peers MemoryRaftStorage.new) events) :
    ∀ done, done <+: events →
      (Execution.run receive (RaftNode.new id peers MemoryRaftStorage.new)
        done).CommittedCovered := by
  intro done isPrefix
  have reached := (Gapless.new id peers).run wellFormed
    (fun event member => consistent event (isPrefix.subset member))
    (keeps.of_prefix receive isPrefix)
  exact reached.committed

/-- The log of the leader of term 1. -/
def snapshotLeader (term : Nat) : List LogEntry :=
  if term = 1 then [⟨1, 1, [10], .normal⟩, ⟨2, 1, [20], .normal⟩] else []

theorem committed_entries_covered_installing :
    (Execution.run receive (RaftNode.new 2 [(1, "node1:7000")] MemoryRaftStorage.new)
      [.installSnapshot ⟨1, 1, 1, 1, [1]⟩,
        .appendEntries ⟨1, 1, 0, 0,
          [⟨1, 1, [10], .normal⟩, ⟨2, 1, [20], .normal⟩], 2⟩,
        .installSnapshot ⟨1, 1, 1, 1, [1]⟩]).CommittedCovered :=
  committed_entries_covered 2 [(1, "node1:7000")] snapshotLeader
    (by
      intro term
      rw [snapshotLeader]
      split <;> decide)
    [.installSnapshot ⟨1, 1, 1, 1, [1]⟩,
      .appendEntries ⟨1, 1, 0, 0,
        [⟨1, 1, [10], .normal⟩, ⟨2, 1, [20], .normal⟩], 2⟩,
      .installSnapshot ⟨1, 1, 1, 1, [1]⟩]
    (by decide) (by decide) _ (List.prefix_refl _)

/-- A delayed snapshot up to index 1 overwrites the one up to index 2, whose
entries the log has dropped: the committed index 2 is nowhere. -/
theorem older_snapshot_loses_entry :
    let entries : List LogEntry := [⟨1, 1, [10], .normal⟩, ⟨2, 1, [20], .normal⟩]
    let events : List ReplicationEvent :=
      [.appendEntries ⟨1, 1, 0, 0, entries, 2⟩,
        .installSnapshot ⟨1, 1, 2, 1, [1, 2]⟩,
        .installSnapshot ⟨1, 1, 1, 1, [1]⟩]
    let reached := Execution.run receive
      (RaftNode.new 2 [(1, "node1:7000")] MemoryRaftStorage.new) events
    WellFormedLog entries ∧ (∀ event ∈ events, event.ConsistentWith snapshotLeader) ∧
      reached.state.commitIndex = 2 ∧ reached.snapshotIndex = 1 ∧
      reached.state.log = [] ∧ ¬ reached.CommittedCovered := by
  refine ⟨by decide, by decide, by decide, by decide, by decide, fun covered => ?_⟩
  have uncovered := covered 2 (by decide) (by decide)
  exact absurd uncovered (by decide)

end RaftNode

end FunDB.Raft
