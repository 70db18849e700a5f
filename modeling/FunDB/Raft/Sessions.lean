import FunDB.Raft.Proposals

/-! # Proposals among messages

A node whose `propose` calls take their critical sections one by one, while the
messages of its peers arrive in between. The storage is arbitrary and may
fail. -/

namespace FunDB.Raft

variable {Disk : Type} [RaftStorage Disk]

/-- A node with its calls of `propose` in flight. -/
structure Session (Disk : Type) where
  node : RaftNode Disk
  calls : List ProposeCall

inductive SessionEvent where
  | proceed (caller : Nat)
  | requestVote (req : RequestVoteRequest)
  | appendEntries (req : AppendEntriesRequest)
  | installSnapshot (req : InstallSnapshotRequest)
  | updateMatchIndex (peerId : NodeId) (matchIdx : Nat)

def SessionEvent.term : SessionEvent → Option Nat
  | .requestVote req => some req.term
  | .appendEntries req => some req.term
  | .installSnapshot req => some req.term
  | .proceed _ | .updateMatchIndex _ _ => none

namespace Session

/-- Calls that have not begun. -/
def start (node : RaftNode Disk) (data : List (List UInt8)) : Session Disk where
  node := node
  calls := data.map .started

def handle (session : Session Disk) : SessionEvent → Session Disk
  | .proceed caller =>
      match session.calls[caller]? with
      | some call =>
          let (call, node) := call.advance session.node
          { node := node, calls := session.calls.set caller call }
      | none => session
  | .requestVote req => { session with node := (session.node.handleRequestVote req).2 }
  | .appendEntries req => { session with node := (session.node.handleAppendEntries req).2 }
  | .installSnapshot req => { session with node := (session.node.handleInstallSnapshot req).2 }
  | .updateMatchIndex peerId matchIdx =>
      { session with node := session.node.updateMatchIndex peerId matchIdx }

end Session

/-! ## Who stays leader -/

namespace RaftNode

variable (node : RaftNode Disk)

theorem proposeCommit_state (entry : LogEntry) :
    ∃ commitIndex, (node.proposeCommit entry).2.state =
      { node.state with commitIndex := commitIndex } := by
  rcases node.proposeCommit_cases entry with result | result <;> rw [result]
  · exact ⟨_, rfl⟩
  · exact ⟨_, rfl⟩

theorem advance_state (call : ProposeCall) :
    ∃ log commitIndex, (call.advance node).2.state =
      { node.state with log := log, commitIndex := commitIndex } := by
  cases call with
  | started data =>
      rw [ProposeCall.advance]
      split <;> exact ⟨_, _, rfl⟩
  | checked data => exact ⟨_, _, rfl⟩
  | appended entry =>
      rw [ProposeCall.advance]
      dsimp only [proposeStore]
      split <;> exact ⟨_, _, rfl⟩
  | stored entry =>
      rcases node.proposeCommit_state entry with ⟨commitIndex, result⟩
      exact ⟨_, commitIndex, result⟩
  | returned result => exact ⟨_, _, rfl⟩

theorem handleRequestVote_leader_iff (req : RequestVoteRequest) :
    (node.handleRequestVote req).2.state.role = .leader ↔
      node.state.role = .leader ∧ req.term ≤ node.state.currentTerm := by
  have judged : (node.state.judging req).role = .leader ↔
      node.state.role = .leader ∧ req.term ≤ node.state.currentTerm := by
    rw [RaftState.judging]
    split
    · rename_i raised
      exact iff_of_false (by simp [RaftState.becomeFollower]) fun both => by omega
    · rename_i same
      simp [Nat.not_lt.mp same]
  rw [handleRequestVote_state]
  rcases node.state.handleRequestVote_cases req with
    ⟨stale, result⟩ | ⟨_, _, _, result⟩ | ⟨_, _, result⟩ <;> rw [result]
  · simp [stale.le]
  · exact judged
  · exact judged

theorem handleAppendEntries_leader_iff (req : AppendEntriesRequest) :
    (node.handleAppendEntries req).2.state.role = .leader ↔
      node.state.role = .leader ∧ req.term ≤ node.state.currentTerm := by
  have accepted : (node.state.acceptLeader req.term req.leaderId).role = .leader ↔
      node.state.role = .leader ∧ req.term ≤ node.state.currentTerm := by
    rw [RaftState.acceptLeader]
    split
    · rename_i demoted
      refine iff_of_false (by simp [RaftState.becomeFollower]) fun both => ?_
      rcases demoted with raised | candidate
      · omega
      · rw [candidate] at both
        cases both.1
    · rename_i kept
      simp only [not_or, gt_iff_lt, Nat.not_lt] at kept
      simp [kept.1]
  rw [handleAppendEntries_state]
  rcases node.state.handleAppendEntries_cases req node.id with
    ⟨stale, result⟩ | ⟨_, _, result⟩ | ⟨_, _, result⟩ <;> rw [result]
  · simp [stale.le]
  · exact accepted
  · exact accepted

theorem handleInstallSnapshot_leader_iff (req : InstallSnapshotRequest) :
    (node.handleInstallSnapshot req).2.state.role = .leader ↔
      node.state.role = .leader ∧ req.term ≤ node.state.currentTerm := by
  rw [handleInstallSnapshot]
  split
  · rename_i stale
    simp [stale.le]
  · by_cases raised : req.term > node.state.currentTerm
    · simp [raised, RaftState.becomeFollower]
    · simp [raised, Nat.not_lt.mp raised]

end RaftNode

namespace Session

/-- A node is leader after an event exactly when it was before and no later term
arrived. -/
theorem handle_leader_iff (session : Session Disk) (event : SessionEvent) :
    (session.handle event).node.state.role = .leader ↔
      session.node.state.role = .leader ∧
        ∀ term ∈ event.term, term ≤ session.node.state.currentTerm := by
  cases event with
  | proceed caller =>
      rw [handle]
      split
      · rename_i call _
        rcases session.node.advance_state call with ⟨_, _, result⟩
        simp [result, SessionEvent.term]
      · simp [SessionEvent.term]
  | requestVote req =>
      simpa [handle, SessionEvent.term] using session.node.handleRequestVote_leader_iff req
  | appendEntries req =>
      simpa [handle, SessionEvent.term] using session.node.handleAppendEntries_leader_iff req
  | installSnapshot req =>
      simpa [handle, SessionEvent.term] using session.node.handleInstallSnapshot_leader_iff req
  | updateMatchIndex peerId matchIdx =>
      rcases session.node.updateMatchIndex_state peerId matchIdx with ⟨_, _, _, result⟩
      simp [handle, result, SessionEvent.term]

theorem handle_getElem? (session : Session Disk) {event : SessionEvent} {caller : Nat}
    (other : event ≠ .proceed caller) :
    (session.handle event).calls[caller]? = session.calls[caller]? := by
  cases event with
  | proceed mover =>
      have different : mover ≠ caller := fun same => other (by rw [same])
      rw [handle]
      split
      · exact List.getElem?_set_ne different
      · rfl
  | requestVote req => rfl
  | appendEntries req => rfl
  | installSnapshot req => rfl
  | updateMatchIndex peerId matchIdx => rfl

end Session

end FunDB.Raft
