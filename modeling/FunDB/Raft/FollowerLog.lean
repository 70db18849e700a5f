import FunDB.Raft.Replication

/-! # A follower's log under a leader's requests

Requests taken from one leader's log, in any order and any number of times, keep
the follower's log matching it. -/

namespace FunDB.Raft

open IndexedLog

/-- A well-formed log that matches the leader's. -/
structure Follows (log leader : List LogEntry) : Prop where
  wellFormed : WellFormedLog log
  matching : LogMatching log leader

namespace RaftState

section Handling

variable (state : RaftState) (req : AppendEntriesRequest) (myId : NodeId)

theorem handleAppendEntries_refused
    (refused : (state.handleAppendEntries req myId).1.1.success = false) :
    (state.handleAppendEntries req myId).2.log = state.log ∧
      (state.handleAppendEntries req myId).2.commitIndex = state.commitIndex := by
  rcases state.handleAppendEntries_cases req myId with
    ⟨_, result⟩ | ⟨_, _, result⟩ | ⟨_, _, result⟩ <;> rw [result] at refused ⊢
  · exact ⟨rfl, rfl⟩
  · simp
  · cases refused

theorem handleAppendEntries_success_iff :
    (state.handleAppendEntries req myId).1.1.success = true ↔
      state.currentTerm ≤ req.term ∧ prevMatches state.log req = true := by
  rcases state.handleAppendEntries_cases req myId with
    ⟨stale, result⟩ | ⟨current, mismatch, result⟩ | ⟨current, matched, result⟩ <;>
    rw [result]
  · simp [Nat.not_le.mpr stale]
  · simp [mismatch]
  · simp [current, matched]

theorem handleAppendEntries_accepted
    (accepted : (state.handleAppendEntries req myId).1.1.success = true) :
    (state.handleAppendEntries req myId).2 = state.replicated req := by
  rcases state.handleAppendEntries_cases req myId with
    ⟨_, result⟩ | ⟨_, _, result⟩ | ⟨_, _, result⟩ <;> rw [result] at accepted ⊢
  · cases accepted
  · cases accepted

end Handling

section Leader

variable {state : RaftState} {leader : List LogEntry} {req : AppendEntriesRequest}
variable (leaderWellFormed : WellFormedLog leader)

/-- The log after a request of the leader: unchanged, or the leader's log up to
the request's last index, which the follower did not have yet. -/
theorem handleAppendEntries_log_cases (follows : Follows state.log leader)
    (leaderWellFormed : WellFormedLog leader) (taken : req.TakenFrom leader)
    (myId : NodeId) :
    let after := (state.handleAppendEntries req myId).2
    (after.log = state.log ∧
        ((state.handleAppendEntries req myId).1.1.success = true →
          state.log.take req.lastIndex = leader.take req.lastIndex)) ∨
      (after.log = leader.take req.lastIndex ∧
        state.log.take req.lastIndex ≠ leader.take req.lastIndex) := by
  intro after
  cases answered : (state.handleAppendEntries req myId).1.1.success with
  | false => exact .inl ⟨(state.handleAppendEntries_refused req myId answered).1, by simp⟩
  | true =>
      have matched := ((state.handleAppendEntries_success_iff req myId).mp answered).2
      have agree := take_eq_of_prevMatches follows.wellFormed leaderWellFormed
        follows.matching taken matched
      have replicatedLog : after.log = replicateEntries state.log req.entries := by
        simp only [after, state.handleAppendEntries_accepted req myId answered]
        rfl
      rw [replicatedLog, replicateEntries_spec follows.wellFormed leaderWellFormed
        follows.matching taken agree]
      by_cases complete : state.log.take req.lastIndex = leader.take req.lastIndex
      · exact .inl ⟨if_pos complete, fun _ => complete⟩
      · exact .inr ⟨if_neg complete, complete⟩

include leaderWellFormed

theorem follows_handled (follows : Follows state.log leader)
    (taken : req.TakenFrom leader) (myId : NodeId) :
    Follows (state.handleAppendEntries req myId).2.log leader := by
  rcases handleAppendEntries_log_cases follows leaderWellFormed taken myId with
    ⟨unchanged, _⟩ | ⟨extended, _⟩
  · rw [unchanged]
    exact follows
  · rw [extended]
    exact ⟨leaderWellFormed.take _, leaderWellFormed.contiguous.matching_take _⟩

theorem take_eq_handled (follows : Follows state.log leader)
    (taken : req.TakenFrom leader) (myId : NodeId) {bound : Nat}
    (agree : state.log.take bound = leader.take bound) :
    (state.handleAppendEntries req myId).2.log.take bound = leader.take bound := by
  rcases handleAppendEntries_log_cases follows leaderWellFormed taken myId with
    ⟨unchanged, _⟩ | ⟨extended, incomplete⟩
  · rw [unchanged, agree]
  · have beyond : bound ≤ req.lastIndex := by
      by_contra shorter
      apply incomplete
      have cut := congrArg (List.take req.lastIndex) agree
      rw [List.take_take, List.take_take, Nat.min_eq_left (by omega)] at cut
      exact cut
    rw [extended, List.take_take, Nat.min_eq_left beyond]

/-- A request that brings nothing new leaves the log alone. -/
theorem log_eq_handled_of_covered (follows : Follows state.log leader)
    (taken : req.TakenFrom leader) (myId : NodeId)
    (covered : state.log.take req.lastIndex = leader.take req.lastIndex) :
    (state.handleAppendEntries req myId).2.log = state.log := by
  rcases handleAppendEntries_log_cases follows leaderWellFormed taken myId with
    ⟨unchanged, _⟩ | ⟨_, incomplete⟩
  · exact unchanged
  · exact absurd covered incomplete

theorem take_lastIndex_of_success (follows : Follows state.log leader)
    (taken : req.TakenFrom leader) (myId : NodeId)
    (answered : (state.handleAppendEntries req myId).1.1.success = true) :
    (state.handleAppendEntries req myId).2.log.take req.lastIndex =
      leader.take req.lastIndex := by
  rcases handleAppendEntries_log_cases follows leaderWellFormed taken myId with
    ⟨unchanged, complete⟩ | ⟨extended, _⟩
  · rw [unchanged]
    exact complete answered
  · rw [extended, List.take_take, Nat.min_self]

def handleAll (state : RaftState) (requests : List AppendEntriesRequest)
    (myId : NodeId) : RaftState :=
  requests.foldl (fun state req => (state.handleAppendEntries req myId).2) state

/-- Agreement with the leader outlasts any further requests of the leader. -/
theorem handleAll_agrees (requests : List AppendEntriesRequest)
    (allTaken : ∀ later ∈ requests, later.TakenFrom leader) (myId : NodeId)
    {bound : Nat} (follows : Follows state.log leader)
    (agree : state.log.take bound = leader.take bound) :
    Follows (state.handleAll requests myId).log leader ∧
      (state.handleAll requests myId).log.take bound = leader.take bound := by
  induction requests generalizing state with
  | nil => exact ⟨follows, agree⟩
  | cons first rest induction =>
      have firstTaken := allTaken first List.mem_cons_self
      exact induction (fun later member =>
          allTaken later (List.mem_cons_of_mem _ member))
        (follows_handled leaderWellFormed follows firstTaken myId)
        (take_eq_handled leaderWellFormed follows firstTaken myId agree)

end Leader

/-- What a successful request guarantees of the follower's log `after` it. -/
structure Replicates (before after : RaftState) (req : AppendEntriesRequest)
    (leader : List LogEntry) (myId : NodeId) : Prop where
  contiguous : Contiguous LogEntry.index after.log
  noDuplicates : (after.log.map LogEntry.index).Nodup
  matching : LogMatching after.log leader
  received : ∀ entry ∈ req.entries, entry ∈ after.log
  nothingLost : ∀ entry ∈ before.log, entry ∈ leader → entry ∈ after.log
  /-- Delivered again after any later requests of the leader, also at once. -/
  idempotent : ∀ later : List AppendEntriesRequest,
    (∀ request ∈ later, request.TakenFrom leader) →
      let reached := after.handleAll later myId
      (reached.handleAppendEntries req myId).2.log = reached.log
  /-- A delayed request that reaches no further than this one. -/
  reorderSafe : ∀ older : AppendEntriesRequest, older.TakenFrom leader →
    older.lastIndex ≤ req.lastIndex →
      (after.handleAppendEntries older myId).2.log = after.log

/-- `AppendEntries` keeps Log Matching, is idempotent and safe under
re-delivery; a refused request leaves the log as it was. -/
theorem handleAppendEntries_replicates (state : RaftState)
    (leader : List LogEntry) (req : AppendEntriesRequest) (myId : NodeId)
    (leaderWellFormed : WellFormedLog leader)
    (followerWellFormed : WellFormedLog state.log)
    (matching : LogMatching state.log leader) (taken : req.TakenFrom leader) :
    ((state.handleAppendEntries req myId).1.1.success = true →
      Replicates state (state.handleAppendEntries req myId).2 req leader myId) ∧
    ((state.handleAppendEntries req myId).1.1.success = false →
      (state.handleAppendEntries req myId).2.log = state.log) := by
  refine ⟨fun answered => ?_, fun refused =>
    (state.handleAppendEntries_refused req myId refused).1⟩
  have follows : Follows state.log leader := ⟨followerWellFormed, matching⟩
  have after := follows_handled leaderWellFormed follows taken myId
  have reached := take_lastIndex_of_success leaderWellFormed follows taken myId answered
  have inAfter {entry : LogEntry} (inLeader : entry ∈ leader)
      (bound : entry.index ≤ req.lastIndex) :
      entry ∈ (state.handleAppendEntries req myId).2.log := by
    have inPrefix := leaderWellFormed.contiguous.mem_take_iff.mpr ⟨inLeader, bound⟩
    rw [← reached] at inPrefix
    exact List.mem_of_mem_take inPrefix
  exact
    { contiguous := after.wellFormed.contiguous
      noDuplicates := after.wellFormed.contiguous.nodup
      matching := after.matching
      received := by
        intro entry member
        rcases taken.entry_of_mem leaderWellFormed member with ⟨inLeader, bound⟩
        exact inAfter inLeader bound
      nothingLost := by
        intro entry member inLeader
        have agree := matching.take_eq_of_mem member inLeader
        have kept := take_eq_handled leaderWellFormed follows taken myId agree
        have inPrefix := leaderWellFormed.contiguous.mem_take_iff.mpr
          ⟨inLeader, le_refl entry.index⟩
        rw [← kept] at inPrefix
        exact List.mem_of_mem_take inPrefix
      idempotent := by
        intro later allTaken
        rcases handleAll_agrees leaderWellFormed later allTaken myId after reached
          with ⟨laterFollows, agree⟩
        exact log_eq_handled_of_covered leaderWellFormed laterFollows taken myId agree
      reorderSafe := by
        intro older olderTaken shorter
        apply log_eq_handled_of_covered leaderWellFormed after olderTaken myId
        have cut := congrArg (List.take older.lastIndex) reached
        rwa [List.take_take, List.take_take, Nat.min_eq_left shorter] at cut }

theorem handleAppendEntries_replicates_overwriting :
    let leader : List LogEntry :=
      [⟨1, 1, [10], .normal⟩, ⟨2, 3, [30], .normal⟩, ⟨3, 3, [31], .normal⟩]
    let follower : RaftState := { RaftState.new with
      currentTerm := 2
      log := [⟨1, 1, [10], .normal⟩, ⟨2, 2, [20], .normal⟩] }
    let req : AppendEntriesRequest := ⟨3, 2, 1, 1, leader.drop 1, 0⟩
    Replicates follower (follower.handleAppendEntries req 1).2 req leader 1 ∧
      (follower.handleAppendEntries req 1).2.log = leader :=
  ⟨(handleAppendEntries_replicates _ _ _ 1 (by decide) (by decide) (by decide)
    (by decide)).1 (by decide), by decide⟩

end RaftState

end FunDB.Raft
