import FunDB.Raft.Node
import FunDB.Foundation.Execution

/-! # One vote per term

A node's vote is `voted_for` in its current term. It stays one vote as long as
no call clears it without raising the term. -/

namespace FunDB.Raft

namespace RaftNode

variable {Disk : Type} [RaftStorage Disk]

/-- The votes that a call gives away, each with its term. A node that starts an
election votes for itself. -/
def votesGranted (node : RaftNode Disk) (call : Call) : List (Nat × NodeId) :=
  match call, node.reply call with
  | .startElection, _ => [((node.step .startElection).state.currentTerm, node.id)]
  | .requestVote req, .vote response =>
      if response.voteGranted then [(response.term, req.candidateId)] else []
  | _, _ => []

/-- The votes given away during a run. -/
def votesOf (node : RaftNode Disk) (calls : List Call) : List (Nat × NodeId) :=
  (Execution.observations step votesGranted node calls).flatten

/-- In no term are two candidates voted for. -/
def OneVotePerTerm (votes : List (Nat × NodeId)) : Prop :=
  ∀ term first second, (term, first) ∈ votes → (term, second) ∈ votes →
    first = second

/-- The step does not clear a vote within its term: no `AppendEntries` of the
current term reaches a candidate, and the term counter does not wrap. -/
def KeepsVote (node : RaftNode Disk) : Call → Prop
  | .startElection => node.state.currentTerm + 1 < 2 ^ 64
  | .forceBecomeLeader => node.state.currentTerm + 1 < 2 ^ 64
  | .appendEntries req =>
      ¬(node.state.role = .candidate ∧ req.term = node.state.currentTerm)
  | _ => True

instance (node : RaftNode Disk) : ∀ call, Decidable (node.KeepsVote call)
  | .startElection => inferInstanceAs (Decidable (_ < _))
  | .forceBecomeLeader => inferInstanceAs (Decidable (_ < _))
  | .appendEntries _ => inferInstanceAs (Decidable (¬(_ ∧ _)))
  | .requestVote _ | .installSnapshot _ | .propose _ | .updateMatchIndex _ _ =>
      inferInstanceAs (Decidable True)

end RaftNode

/-- How a step may change the ballot of a node that gives `votes` away. -/
structure BallotStep (before after : RaftState) (votes : List (Nat × NodeId)) :
    Prop where
  termRises : before.currentTerm ≤ after.currentTerm
  voteKept : after.currentTerm = before.currentTerm →
    ∀ candidate, before.votedFor = some candidate →
      after.votedFor = some candidate
  voteRecorded : ∀ vote ∈ votes,
    vote.1 = after.currentTerm ∧ after.votedFor = some vote.2

namespace BallotStep

variable {before after : RaftState}

theorem of_unchanged (sameTerm : after.currentTerm = before.currentTerm)
    (sameVote : after.votedFor = before.votedFor) :
    BallotStep before after [] where
  termRises := sameTerm.ge
  voteKept _ _ voted := sameVote.trans voted
  voteRecorded _ member := by cases member

theorem of_raised {votes : List (Nat × NodeId)}
    (raised : before.currentTerm < after.currentTerm)
    (recorded : ∀ vote ∈ votes,
      vote.1 = after.currentTerm ∧ after.votedFor = some vote.2) :
    BallotStep before after votes where
  termRises := raised.le
  voteKept same := by omega
  voteRecorded := recorded

end BallotStep

namespace RaftState

theorem handleAppendEntries_ballot (state : RaftState) (req : AppendEntriesRequest)
    (myId : NodeId)
    (keeps : ¬(state.role = .candidate ∧ req.term = state.currentTerm)) :
    BallotStep state (state.handleAppendEntries req myId).2 [] := by
  have accepted (after : RaftState) (current : state.currentTerm ≤ req.term)
      (sameTerm : after.currentTerm =
        (state.acceptLeader req.term req.leaderId).currentTerm)
      (sameVote : after.votedFor =
        (state.acceptLeader req.term req.leaderId).votedFor) :
      BallotStep state after [] := by
    rw [state.acceptLeader_currentTerm _ _ current] at sameTerm
    rcases Nat.lt_or_ge state.currentTerm req.term with raised | same
    · exact .of_raised (by omega) (by simp)
    · have equal := Nat.le_antisymm same current
      apply BallotStep.of_unchanged (sameTerm.trans equal)
      rw [sameVote]
      exact state.acceptLeader_votedFor _ _ equal
        fun candidate => keeps ⟨candidate, equal⟩
  rcases state.handleAppendEntries_cases req myId with
    ⟨_, result⟩ | ⟨current, _, result⟩ | ⟨current, _, result⟩
  · rw [result]
    exact .of_unchanged rfl rfl
  · rw [result]
    exact accepted _ current rfl rfl
  · rw [result]
    exact accepted _ current rfl rfl

theorem handleRequestVote_ballot (state : RaftState) (req : RequestVoteRequest) :
    BallotStep state (state.handleRequestVote req).2
      (if (state.handleRequestVote req).1.1.voteGranted then
        [((state.handleRequestVote req).1.1.term, req.candidateId)] else []) := by
  have judgedVote (same : req.term = state.currentTerm) :
      (state.judging req).votedFor = state.votedFor := by
    rw [judging, if_neg (by omega)]
  rcases state.handleRequestVote_cases req with
    ⟨_, result⟩ | ⟨current, free, _, result⟩ | ⟨current, _, result⟩
  · rw [result]
    exact .of_unchanged rfl rfl
  · rw [result]
    have term := state.judging_currentTerm current
    rcases Nat.lt_or_ge state.currentTerm req.term with raised | same
    · exact .of_raised (by rw [← term] at raised; exact raised) (by simp [term])
    · have equal := Nat.le_antisymm same current
      refine ⟨by simp [term, current], ?_, by simp [term]⟩
      -- Within the term the vote was free or already this candidate's.
      intro _ candidate voted
      rw [judgedVote equal, voted] at free
      rcases free with impossible | already
      · cases impossible
      · exact already.symm
  · rw [result]
    have term := state.judging_currentTerm current
    rcases Nat.lt_or_ge state.currentTerm req.term with raised | same
    · exact .of_raised (by rw [term]; exact raised) (by simp)
    · have equal := Nat.le_antisymm same current
      exact .of_unchanged (term.trans equal) (judgedVote equal)

end RaftState

namespace RaftNode

variable {Disk : Type} [RaftStorage Disk]

theorem handleInstallSnapshot_ballot (node : RaftNode Disk)
    (req : InstallSnapshotRequest) :
    BallotStep node.state (node.handleInstallSnapshot req).2.state [] := by
  rw [handleInstallSnapshot]
  split
  · exact .of_unchanged rfl rfl
  · rename_i current
    by_cases raised : req.term > node.state.currentTerm
    · apply BallotStep.of_raised
      · simp [raised, RaftState.becomeFollower]
      · simp
    · apply BallotStep.of_unchanged <;> simp [raised]

/-- Each call is a ballot step, unless it clears the vote within the term. -/
theorem step_ballot (node : RaftNode Disk) (call : Call)
    (keeps : node.KeepsVote call) :
    BallotStep node.state (node.step call).state (node.votesGranted call) := by
  cases call with
  | startElection =>
      rcases node.startElection_state with ⟨_, _, _, _, result⟩
      have stepped : (node.step .startElection).state =
          node.startElection.2.state := rfl
      have raised := wrappingSucc_of_lt keeps
      apply BallotStep.of_raised
      · rw [stepped, result]
        simp [raised]
      · intro vote member
        simp only [votesGranted, List.mem_singleton] at member
        subst member
        rw [stepped, result]
        exact ⟨rfl, rfl⟩
  | forceBecomeLeader =>
      rcases node.forceBecomeLeader_state with ⟨_, _, result⟩
      apply BallotStep.of_raised
      · rw [step, RaftNode.call, result]
        simp [wrappingSucc_of_lt keeps]
      · simp [votesGranted]
  | requestVote req =>
      have ballot := node.state.handleRequestVote_ballot req
      rw [← node.handleRequestVote_state] at ballot
      exact ballot
  | appendEntries req =>
      have ballot := node.state.handleAppendEntries_ballot req node.id keeps
      rw [← node.handleAppendEntries_state] at ballot
      exact ballot
  | installSnapshot req => exact node.handleInstallSnapshot_ballot req
  | propose data =>
      rcases node.propose_state data with ⟨_, _, result⟩
      apply BallotStep.of_unchanged <;> rw [step, RaftNode.call, result]
  | updateMatchIndex peerId matchIdx =>
      rcases node.updateMatchIndex_state peerId matchIdx with ⟨_, _, _, result⟩
      apply BallotStep.of_unchanged <;> rw [step, RaftNode.call, result]

/-- The invariant: every vote is of a term that was reached, and the votes of
the current term are all recorded in `voted_for`. -/
structure BallotInvariant (state : RaftState) (votes : List (Nat × NodeId)) :
    Prop where
  reached : ∀ vote ∈ votes, vote.1 ≤ state.currentTerm
  recorded : ∀ vote ∈ votes, vote.1 = state.currentTerm →
    state.votedFor = some vote.2
  unique : OneVotePerTerm votes

theorem BallotInvariant.step {before after : RaftState}
    {votes given : List (Nat × NodeId)} (invariant : BallotInvariant before votes)
    (ballot : BallotStep before after given) :
    BallotInvariant after (votes ++ given) := by
  have reached : ∀ vote ∈ votes ++ given, vote.1 ≤ after.currentTerm := by
    intro vote member
    rcases List.mem_append.mp member with old | new
    · exact (invariant.reached vote old).trans ballot.termRises
    · exact (ballot.voteRecorded vote new).1.le
  have recorded : ∀ vote ∈ votes ++ given, vote.1 = after.currentTerm →
      after.votedFor = some vote.2 := by
    intro vote member current
    rcases List.mem_append.mp member with old | new
    · have bound := invariant.reached vote old
      have rises := ballot.termRises
      exact ballot.voteKept (by omega) vote.2
        (invariant.recorded vote old (by omega))
    · exact (ballot.voteRecorded vote new).2
  refine ⟨reached, recorded, ?_⟩
  intro term first second firstVoted secondVoted
  by_cases current : term = after.currentTerm
  · have firstRecorded := recorded (term, first) firstVoted current
    have secondRecorded := recorded (term, second) secondVoted current
    exact Option.some.inj (firstRecorded.symm.trans secondRecorded)
  · -- A vote outside the new term was given before this step.
    have earlier {candidate : NodeId} (member : (term, candidate) ∈ votes ++ given) :
        (term, candidate) ∈ votes := by
      rcases List.mem_append.mp member with old | new
      · exact old
      · exact absurd (ballot.voteRecorded _ new).1 current
    exact invariant.unique term first second (earlier firstVoted)
      (earlier secondVoted)

/-- In a run that never clears a vote within its term, a node votes at most once
per term, in every state reached. -/
theorem one_vote_per_term (node : RaftNode Disk) (calls : List Call)
    (keeps : Execution.EveryStep step KeepsVote node calls) :
    ∀ done, done <+: calls → OneVotePerTerm (node.votesOf done) := by
  let Holds (done : List Call) : Prop :=
    BallotInvariant (Execution.run step node done).state (node.votesOf done)
  have initial : Holds [] :=
    { reached := fun _ member => by cases member
      recorded := fun _ member => by cases member
      unique := fun _ _ _ member => by cases member }
  have preserved (done : List Call) (call : Call) (invariant : Holds done)
      (keepsVote : (Execution.run step node done).KeepsVote call) :
      Holds (done ++ [call]) := by
    have stepped := invariant.step (step_ballot _ call keepsVote)
    simpa [Holds, votesOf] using stepped
  intro done isPrefix
  exact (Execution.holds_of_everyStep step Holds initial preserved keeps
    done isPrefix).unique

theorem one_vote_per_term_contested :
    let calls : List Call :=
      [.startElection, .requestVote ⟨1, 3, 0, 0⟩, .appendEntries ⟨2, 2, 0, 0, [], 0⟩,
        .requestVote ⟨2, 3, 0, 0⟩, .requestVote ⟨2, 2, 0, 0⟩]
    OneVotePerTerm (makeClusterNode.votesOf calls) ∧
      makeClusterNode.votesOf calls = [(1, 1), (2, 3)] :=
  ⟨one_vote_per_term makeClusterNode _ (by decide) _ (List.prefix_refl _),
    by decide⟩

/-- A candidate that hears from the leader of its own term forgets that it voted
for itself, and votes again in that term. -/
theorem candidate_votes_twice :
    ¬ OneVotePerTerm (makeClusterNode.votesOf
      [.startElection, .appendEntries ⟨1, 2, 0, 0, [], 0⟩,
        .requestVote ⟨1, 3, 0, 0⟩]) := by
  intro unique
  have same : (1 : NodeId) = 3 := unique 1 1 3 (by decide) (by decide)
  contradiction

end RaftNode

end FunDB.Raft
