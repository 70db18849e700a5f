import FunDB.Raft.Sessions
import FunDB.Raft.EntryLoops
import FunDB.Raft.Commit

/-! # The order of commits

Where the commit index can fall: at the commit of a proposal on a node without
peers, and at a request that raises it to the end of a log that does not reach
it. -/

namespace FunDB.Raft.Session

variable {Disk : Type} [RaftStorage Disk]

/-- The event does not commit below what is committed: a node without peers
commits its proposals in order, and a request that raises the commit index
leaves a log that reaches it. -/
def KeepsCommit (session : Session Disk) : SessionEvent → Prop
  | .proceed caller =>
      match session.calls[caller]? with
      | some (.stored entry) =>
          session.node.peers.isEmpty = true → session.node.state.commitIndex ≤ entry.index
      | _ => True
  | .appendEntries req =>
      session.node.state.currentTerm ≤ req.term →
        RaftState.prevMatches session.node.state.log req = true →
          session.node.state.commitIndex < req.leaderCommit →
            session.node.state.commitIndex ≤
              RaftState.endIndex session.node.state.log req.entries
  | .requestVote _ | .installSnapshot _ | .updateMatchIndex _ _ => True

instance (session : Session Disk) : ∀ event, Decidable (session.KeepsCommit event)
  | .proceed caller =>
      match found : session.calls[caller]? with
      | some (.stored entry) =>
          decidable_of_iff
            (session.node.peers.isEmpty = true → session.node.state.commitIndex ≤ entry.index)
            (by rw [KeepsCommit, found])
      | some (.started _) | some (.checked _) | some (.appended _) | some (.returned _)
      | none => .isTrue (by rw [KeepsCommit, found]; trivial)
  | .appendEntries _ => inferInstanceAs (Decidable (_ → _ → _ → _))
  | .requestVote _ | .installSnapshot _ | .updateMatchIndex _ _ =>
      inferInstanceAs (Decidable True)

/-! ## The commit index after an event -/

section Effects

variable (node : RaftNode Disk)

theorem replicateAndCommit_commitIndex (upToIndex : Nat) :
    node.state.commitIndex ≤ (node.replicateAndCommit upToIndex).2.state.commitIndex := by
  rw [RaftNode.replicateAndCommit]
  split_ifs with _ above _
  · exact le_of_lt above
  all_goals exact le_rfl

theorem proposeCommit_commitIndex_iff (entry : LogEntry) :
    node.state.commitIndex ≤ (node.proposeCommit entry).2.state.commitIndex ↔
      (node.peers.isEmpty = true → node.state.commitIndex ≤ entry.index) := by
  rw [RaftNode.proposeCommit]
  split
  · rename_i alone
    simp [alone]
  · rename_i peered
    exact iff_of_true (replicateAndCommit_commitIndex node entry.index)
      fun alone => absurd alone peered

theorem advance_commitIndex {call : ProposeCall} (unstored : ∀ entry, call ≠ .stored entry) :
    (call.advance node).2.state.commitIndex = node.state.commitIndex := by
  cases call with
  | started data =>
      rw [ProposeCall.advance]
      split <;> rfl
  | checked data => rfl
  | appended entry =>
      rw [ProposeCall.advance]
      dsimp only [RaftNode.proposeStore]
      split <;> rfl
  | stored entry => exact absurd rfl (unstored entry)
  | returned result => rfl

theorem handleRequestVote_commitIndex (req : RequestVoteRequest) :
    (node.handleRequestVote req).2.state.commitIndex = node.state.commitIndex := by
  rw [RaftNode.handleRequestVote_state]
  rcases node.state.handleRequestVote_cases req with
    ⟨_, result⟩ | ⟨_, _, _, result⟩ | ⟨_, _, result⟩ <;> rw [result]
  · exact node.state.judging_commitIndex req
  · exact node.state.judging_commitIndex req

theorem handleAppendEntries_commitIndex_iff (req : AppendEntriesRequest) :
    node.state.commitIndex ≤ (node.handleAppendEntries req).2.state.commitIndex ↔
      (node.state.currentTerm ≤ req.term →
        RaftState.prevMatches node.state.log req = true →
          node.state.commitIndex < req.leaderCommit →
            node.state.commitIndex ≤ RaftState.endIndex node.state.log req.entries) := by
  rw [RaftNode.handleAppendEntries_state]
  rcases node.state.handleAppendEntries_cases req node.id with
    ⟨stale, result⟩ | ⟨_, mismatch, result⟩ | ⟨current, matched, result⟩ <;> rw [result]
  · exact iff_of_true le_rfl fun current => absurd current (Nat.not_le.mpr stale)
  · exact iff_of_true (by simp) fun _ matched => by rw [mismatch] at matched; cases matched
  · simp only [RaftState.replicated, RaftState.lastIndex_replicateEntries, current, matched,
      true_implies]
    split
    · rename_i raises
      rw [Nat.le_min]
      exact ⟨fun reached _ => reached.2, fun reaches => ⟨le_of_lt raises, reaches raises⟩⟩
    · rename_i keeps
      exact iff_of_true le_rfl fun raises => absurd raises keeps

theorem handleInstallSnapshot_commitIndex (req : InstallSnapshotRequest) :
    node.state.commitIndex ≤ (node.handleInstallSnapshot req).2.state.commitIndex := by
  rw [RaftNode.handleInstallSnapshot]
  split
  · exact le_rfl
  · by_cases raised : req.term > node.state.currentTerm <;>
      simp [raised, RaftState.becomeFollower]

theorem updateMatchIndex_commitIndex (peerId : NodeId) (matchIdx : Nat) :
    node.state.commitIndex ≤ (node.updateMatchIndex peerId matchIdx).state.commitIndex := by
  let recorded : RaftState := { node.state with
    matchIndex := node.state.matchIndex.insert peerId matchIdx
    nextIndex := node.state.nextIndex.insert peerId (wrappingSucc matchIdx) }
  have advances : recorded.commitIndex ≤
      (recorded.advanceCommitIndex node.id recorded.nextIndex.keys).2.commitIndex := by
    rw [RaftState.advanceCommitIndex_commitIndex]
    split_ifs with raised
    · exact le_of_lt raised.1
    · exact le_rfl
  rw [RaftNode.updateMatchIndex]
  split
  · exact le_rfl
  · dsimp only
    split
    · rw [RaftNode.persist_state]
      exact advances
    · exact advances

end Effects

theorem handle_commitIndex_iff (session : Session Disk) (event : SessionEvent) :
    session.node.state.commitIndex ≤ (session.handle event).node.state.commitIndex ↔
      session.KeepsCommit event := by
  cases event with
  | proceed caller =>
      rw [handle, KeepsCommit]
      cases called : session.calls[caller]? with
      | none => exact iff_of_true le_rfl trivial
      | some call =>
          cases call with
          | stored entry => exact proposeCommit_commitIndex_iff session.node entry
          | started data | checked data | appended entry | returned result =>
              refine iff_of_true (ge_of_eq ?_) trivial
              exact advance_commitIndex session.node (by simp)
  | requestVote req =>
      exact iff_of_true (ge_of_eq (handleRequestVote_commitIndex session.node req)) trivial
  | appendEntries req => exact handleAppendEntries_commitIndex_iff session.node req
  | installSnapshot req =>
      exact iff_of_true (handleInstallSnapshot_commitIndex session.node req) trivial
  | updateMatchIndex peerId matchIdx =>
      exact iff_of_true (updateMatchIndex_commitIndex session.node peerId matchIdx) trivial

/-- The commit index never falls in a run exactly when no event of it commits
below what is committed. -/
theorem commitIndex_monotone_iff (session : Session Disk) (events : List SessionEvent) :
    (∀ earlier later, earlier <+: later → later <+: events →
        (Execution.run handle session earlier).node.state.commitIndex ≤
          (Execution.run handle session later).node.state.commitIndex) ↔
      Execution.EveryStep handle KeepsCommit session events := by
  rw [Execution.monotone_iff_everyStep handle fun session : Session Disk =>
    session.node.state.commitIndex]
  simp only [handle_commitIndex_iff]

/-- Two ways back: a heartbeat after a snapshot that emptied the log, and two
proposals of a node without peers that commit in the other order. -/
theorem commitIndex_falls :
    (Execution.run handle (start RaftNode.makeClusterNode [])
        [.installSnapshot ⟨1, 2, 5, 1, []⟩]).node.state.commitIndex = 5 ∧
      (Execution.run handle (start RaftNode.makeClusterNode [])
        [.installSnapshot ⟨1, 2, 5, 1, []⟩,
          .appendEntries ⟨1, 2, 0, 0, [], 6⟩]).node.state.commitIndex = 0 ∧
      (Execution.run handle (start Proposals.makeLeader [[7], [8]])
        [.proceed 0, .proceed 0, .proceed 0, .proceed 1, .proceed 1, .proceed 1,
          .proceed 1]).node.state.commitIndex = 2 ∧
      (Execution.run handle (start Proposals.makeLeader [[7], [8]])
        [.proceed 0, .proceed 0, .proceed 0, .proceed 1, .proceed 1, .proceed 1,
          .proceed 1, .proceed 0]).node.state.commitIndex = 1 := by
  decide

end FunDB.Raft.Session
