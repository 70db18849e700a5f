import FunDB.Raft.Node
import FunDB.Foundation.Execution
import Mathlib.Data.List.ReduceOption

/-! # The durable ballot

Term and vote must be on disk before a call answers, so that a restarted node
does not fall behind what it has said. -/

namespace FunDB.Raft.RaftNode

variable {Disk : Type} [RaftStorage Disk]

/-- The stored hard state has the term and the vote of the node. -/
def Persisted (node : RaftNode Disk) : Prop :=
  ∃ saved, RaftStorage.loadHardState node.storage = .ok saved ∧
    saved.currentTerm = node.state.currentTerm ∧ saved.votedFor = node.state.votedFor

/-- The step does not leave its ballot in memory only: it is no bootstrap, and
no vote request that raises the term and is then refused for its log. -/
def PersistsBallot (node : RaftNode Disk) : Call → Prop
  | .forceBecomeLeader => False
  | .requestVote req =>
      req.term ≤ node.state.currentTerm ∨
        node.state.isLogUpToDate req.lastLogIndex req.lastLogTerm = true
  | _ => True

/-- The term counter does not wrap at the step. -/
def TermFits (node : RaftNode Disk) : Call → Prop
  | .startElection | .forceBecomeLeader => node.state.currentTerm + 1 < 2 ^ 64
  | _ => True

instance (node : RaftNode Disk) : ∀ call, Decidable (node.PersistsBallot call)
  | .forceBecomeLeader => inferInstanceAs (Decidable False)
  | .requestVote _ => inferInstanceAs (Decidable (_ ∨ _))
  | .startElection | .appendEntries _ | .installSnapshot _ | .propose _
  | .updateMatchIndex _ _ => inferInstanceAs (Decidable True)

instance (node : RaftNode Disk) : ∀ call, Decidable (node.TermFits call)
  | .startElection | .forceBecomeLeader => inferInstanceAs (Decidable (_ < _))
  | .requestVote _ | .appendEntries _ | .installSnapshot _ | .propose _
  | .updateMatchIndex _ _ => inferInstanceAs (Decidable True)

/-- The term that a call answers with, if it answers with one. -/
def answeredTerm (node : RaftNode Disk) (call : Call) : Option Nat :=
  match node.reply call with
  | .vote response => some response.term
  | .appended response => some response.term
  | .installed response => some response.term
  | _ => none

/-- The terms answered during a run. -/
def answeredTerms (node : RaftNode Disk) (calls : List Call) : List Nat :=
  (Execution.observations step answeredTerm node calls).reduceOption

section Persisted

variable [DurableHardState Disk]

theorem persisted_of_saved {node : RaftNode Disk} {disk : Disk} {saved : HardState}
    (storage : node.storage = (RaftStorage.saveHardState disk saved).2)
    (sameTerm : saved.currentTerm = node.state.currentTerm)
    (sameVote : saved.votedFor = node.state.votedFor) : node.Persisted :=
  ⟨saved, by rw [storage]; exact DurableHardState.saved disk saved, sameTerm, sameVote⟩

theorem persisted_persist (node : RaftNode Disk) : node.persist.Persisted :=
  persisted_of_saved rfl rfl rfl

omit [DurableHardState Disk] in
/-- Only the hard state on disk and the ballot in memory matter. -/
theorem Persisted.transfer {before after : RaftNode Disk}
    (persisted : before.Persisted)
    (sameDisk : RaftStorage.loadHardState after.storage =
      RaftStorage.loadHardState before.storage)
    (sameTerm : after.state.currentTerm = before.state.currentTerm)
    (sameVote : after.state.votedFor = before.state.votedFor) : after.Persisted := by
  rcases persisted with ⟨saved, loaded, term, vote⟩
  exact ⟨saved, sameDisk.trans loaded, term.trans sameTerm.symm,
    vote.trans sameVote.symm⟩

theorem persisted_new (id : NodeId) (peers : List (NodeId × PeerAddr))
    (storage : Disk) : (RaftNode.new id peers storage).Persisted := by
  rcases DurableHardState.loads storage with ⟨saved, loaded⟩
  refine ⟨saved, loaded, ?_⟩
  simp only [RaftNode.new, loaded]
  split
  · split <;> exact ⟨rfl, rfl⟩
  · exact ⟨rfl, rfl⟩

/-- A restarted node is in the term that was stored. -/
theorem restart_currentTerm {node : RaftNode Disk} (persisted : node.Persisted) :
    node.restart.state.currentTerm = node.state.currentTerm := by
  rcases persisted_new node.id node.peers node.storage with ⟨found, reloaded, term, _⟩
  rcases persisted with ⟨saved, loaded, sameTerm, _⟩
  have same : found = saved := by
    have storage : (RaftNode.new node.id node.peers node.storage).storage =
        node.storage := rfl
    rw [storage, loaded] at reloaded
    exact (Except.ok.inj reloaded).symm
  rw [restart, ← term, same, sameTerm]

/-! ## The calls -/

theorem startElection_persisted (node : RaftNode Disk) :
    node.startElection.2.Persisted := by
  rw [startElection]
  dsimp only
  split_ifs <;> exact persisted_of_saved rfl rfl rfl

theorem handleAppendEntries_persisted {node : RaftNode Disk}
    (persisted : node.Persisted) (req : AppendEntriesRequest) :
    (node.handleAppendEntries req).2.Persisted := by
  rw [handleAppendEntries]
  rcases node.state.handleAppendEntries_cases req node.id with
    ⟨_, result⟩ | ⟨_, _, result⟩ | ⟨_, _, result⟩ <;> rw [result]
  · exact persisted.transfer rfl rfl rfl
  · exact persisted_persist _
  · exact persisted_persist _

theorem handleInstallSnapshot_persisted {node : RaftNode Disk}
    (persisted : node.Persisted) (req : InstallSnapshotRequest) :
    (node.handleInstallSnapshot req).2.Persisted := by
  rw [handleInstallSnapshot]
  split
  · exact persisted
  · exact persisted_persist _

/-- A vote request leaves the ballot in memory only when it raises the term
without being granted. -/
theorem handleRequestVote_persisted_iff {node : RaftNode Disk}
    (persisted : node.Persisted) (req : RequestVoteRequest) :
    (node.handleRequestVote req).2.Persisted ↔
      req.term ≤ node.state.currentTerm ∨
        node.state.isLogUpToDate req.lastLogIndex req.lastLogTerm = true := by
  rw [handleRequestVote]
  rcases node.state.handleRequestVote_cases req with
    ⟨stale, result⟩ | ⟨_, _, upToDate, result⟩ | ⟨current, refused, result⟩ <;>
    rw [result]
  · exact iff_of_true (persisted.transfer rfl rfl rfl) (.inl stale.le)
  · exact iff_of_true (persisted_persist _) (.inr upToDate)
  · have term := node.state.judging_currentTerm current
    rcases Nat.lt_or_ge node.state.currentTerm req.term with raised | same
    · -- The vote is free after stepping down, so the log was refused.
      have free : (node.state.judging req).votedFor = none := by
        rw [RaftState.judging, if_pos raised]
        rfl
      have outdated : ¬ node.state.isLogUpToDate req.lastLogIndex
          req.lastLogTerm = true := fun upToDate => refused ⟨.inl free, upToDate⟩
      refine iff_of_false ?_ (not_or.mpr ⟨by omega, outdated⟩)
      intro after
      rcases after with ⟨saved, loaded, sameTerm, _⟩
      rcases persisted with ⟨stored, earlier, storedTerm, _⟩
      have equal : saved = stored :=
        Except.ok.inj (loaded.symm.trans earlier)
      simp only [equal, storedTerm, Bool.false_eq_true, if_false, term] at sameTerm
      omega
    · have unjudged : node.state.judging req = node.state := by
        rw [RaftState.judging, if_neg (by omega)]
      refine iff_of_true ?_ (.inl same)
      exact persisted.transfer rfl (by simp [unjudged]) (by simp [unjudged])

omit [DurableHardState Disk] in
theorem forceBecomeLeader_not_persisted {node : RaftNode Disk}
    (persisted : node.Persisted) : ¬ node.forceBecomeLeader.Persisted := by
  intro after
  rcases after with ⟨saved, loaded, sameTerm, _⟩
  rcases persisted with ⟨stored, earlier, storedTerm, _⟩
  have equal : saved = stored := Except.ok.inj (loaded.symm.trans earlier)
  have raised : saved.currentTerm = wrappingSucc node.state.currentTerm := sameTerm
  rw [equal, storedTerm, wrappingSucc] at raised
  omega

theorem propose_persisted {node : RaftNode Disk} (persisted : node.Persisted)
    (data : List UInt8) : (node.propose data).2.Persisted := by
  have stored : ((node.proposeAppend data).2.proposeStore
      (node.proposeAppend data).1).2.Persisted :=
    persisted.transfer (DurableHardState.appendKeeps _ _) rfl rfl
  rcases node.propose_cases data with result | result | result <;> rw [result]
  · exact persisted
  · exact stored
  · rcases ((node.proposeAppend data).2.proposeStore
      (node.proposeAppend data).1).2.proposeCommit_cases (node.proposeAppend data).1 with
      result | result <;> rw [result]
    · exact stored
    · exact persisted_persist _

theorem updateMatchIndex_persisted {node : RaftNode Disk}
    (persisted : node.Persisted) (peerId : NodeId) (matchIdx : Nat) :
    (node.updateMatchIndex peerId matchIdx).Persisted := by
  rw [updateMatchIndex]
  split
  · exact persisted
  · dsimp only
    rcases RaftState.advanceCommitIndex_cases _ node.id _ with
      ⟨_, result⟩ | result <;> rw [result]
    · exact persisted_persist _
    · exact persisted.transfer rfl rfl rfl

theorem step_persisted_iff {node : RaftNode Disk} (persisted : node.Persisted)
    (call : Call) : (node.step call).Persisted ↔ node.PersistsBallot call := by
  cases call with
  | startElection => exact iff_of_true node.startElection_persisted trivial
  | forceBecomeLeader =>
      exact iff_of_false (forceBecomeLeader_not_persisted persisted)
        fun impossible => impossible
  | requestVote req => exact handleRequestVote_persisted_iff persisted req
  | appendEntries req =>
      exact iff_of_true (handleAppendEntries_persisted persisted req) trivial
  | installSnapshot req =>
      exact iff_of_true (handleInstallSnapshot_persisted persisted req) trivial
  | propose data => exact iff_of_true (propose_persisted persisted data) trivial
  | updateMatchIndex peerId matchIdx =>
      exact iff_of_true (updateMatchIndex_persisted persisted peerId matchIdx) trivial

end Persisted

/-! ## Answered terms -/

/-- A step answers with the term it ends in, and does not lower the term. -/
theorem step_term {node : RaftNode Disk} {call : Call} (fits : node.TermFits call) :
    node.state.currentTerm ≤ (node.step call).state.currentTerm ∧
      ∀ term, node.answeredTerm call = some term →
        term = (node.step call).state.currentTerm := by
  cases call with
  | startElection =>
      rcases node.startElection_state with ⟨_, _, _, _, result⟩
      refine ⟨?_, fun _ answered => by cases answered⟩
      rw [step, RaftNode.call]
      simp only [result, wrappingSucc_of_lt fits]
      omega
  | forceBecomeLeader =>
      rcases node.forceBecomeLeader_state with ⟨_, _, result⟩
      refine ⟨?_, fun _ answered => by cases answered⟩
      rw [step, RaftNode.call]
      simp only [result, wrappingSucc_of_lt fits]
      omega
  | requestVote req =>
      rw [step, answeredTerm, reply, RaftNode.call]
      simp only [Option.some.injEq, handleRequestVote]
      rcases node.state.handleRequestVote_cases req with
        ⟨_, result⟩ | ⟨current, _, _, result⟩ | ⟨current, _, result⟩ <;> rw [result]
      · exact ⟨le_rfl, fun _ answered => answered.symm⟩
      · have term := node.state.judging_currentTerm current
        exact ⟨by simp [term, current], fun _ answered => by simp [term, ← answered]⟩
      · have term := node.state.judging_currentTerm current
        exact ⟨by simp [term, current], fun _ answered => by simp [term, ← answered]⟩
  | appendEntries req =>
      rw [step, answeredTerm, reply, RaftNode.call]
      simp only [Option.some.injEq, handleAppendEntries]
      rcases node.state.handleAppendEntries_cases req node.id with
        ⟨_, result⟩ | ⟨current, _, result⟩ | ⟨current, _, result⟩ <;> rw [result]
      · exact ⟨le_rfl, fun _ answered => answered.symm⟩
      · have term := node.state.acceptLeader_currentTerm req.term req.leaderId current
        exact ⟨by simp [term, current], fun _ answered => by simp [term, ← answered]⟩
      · have term := node.state.acceptLeader_currentTerm req.term req.leaderId current
        exact ⟨by simp [RaftState.replicated, term, current],
          fun _ answered => by simp [RaftState.replicated, term, ← answered]⟩
  | installSnapshot req =>
      rw [step, answeredTerm, reply, RaftNode.call]
      simp only [Option.some.injEq, handleInstallSnapshot]
      split_ifs with stale raised
      · exact ⟨le_rfl, fun _ answered => answered.symm⟩
      · exact ⟨by simpa [RaftState.becomeFollower] using raised.le,
          fun _ answered => answered.symm⟩
      · exact ⟨le_rfl, fun _ answered => answered.symm⟩
  | propose data =>
      rcases node.propose_state data with ⟨_, _, result⟩
      refine ⟨?_, fun _ answered => by cases answered⟩
      rw [step, RaftNode.call, result]
  | updateMatchIndex peerId matchIdx =>
      rcases node.updateMatchIndex_state peerId matchIdx with ⟨_, _, _, result⟩
      refine ⟨?_, fun _ answered => by cases answered⟩
      rw [step, RaftNode.call, result]

theorem answered_le_currentTerm (node : RaftNode Disk) (calls : List Call)
    (fits : Execution.EveryStep step TermFits node calls) :
    ∀ done, done <+: calls → ∀ term ∈ node.answeredTerms done,
      term ≤ (Execution.run step node done).state.currentTerm := by
  apply Execution.holds_of_everyStep step (fun done =>
    ∀ term ∈ node.answeredTerms done,
      term ≤ (Execution.run step node done).state.currentTerm) _ _ fits
  · intro _ member
    cases member
  · intro done call bounded callFits term member
    rcases step_term callFits with ⟨rises, answers⟩
    simp only [answeredTerms, Execution.observations_concat, List.reduceOption_mem_iff,
      List.mem_append, List.mem_singleton, Execution.run_concat] at member bounded ⊢
    rcases member with old | answered
    · exact (bounded term old).trans rises
    · exact (answers term answered.symm).le

/-- The stored ballot is the node's after every call of a run exactly when no
call leaves it in memory; and then, as long as the term does not wrap, a restart
never ends below an answered term. -/
theorem ballot_durable_iff [DurableHardState Disk] (id : NodeId)
    (peers : List (NodeId × PeerAddr)) (storage : Disk) (calls : List Call) :
    let node := RaftNode.new id peers storage
    ((∀ done, done <+: calls → (Execution.run step node done).Persisted) ↔
      Execution.EveryStep step PersistsBallot node calls) ∧
    (Execution.EveryStep step PersistsBallot node calls →
      Execution.EveryStep step TermFits node calls →
        ∀ done, done <+: calls → ∀ term ∈ node.answeredTerms done,
          term ≤ (Execution.run step node done).restart.state.currentTerm) := by
  intro node
  let Holds (done : List Call) : Prop := (Execution.run step node done).Persisted
  have initial : Holds [] := persisted_new id peers storage
  have durable : (∀ done, done <+: calls → Holds done) ↔
      Execution.EveryStep step PersistsBallot node calls := by
    apply Execution.holds_iff_everyStep_of_step_iff step Holds initial
    intro done call persisted
    simpa [Holds] using step_persisted_iff persisted call
  refine ⟨durable, fun persists fits done isPrefix term answered => ?_⟩
  rw [restart_currentTerm (durable.mpr persists done isPrefix)]
  exact answered_le_currentTerm node calls fits done isPrefix term answered

theorem ballot_durable_granting :
    let calls : List Call :=
      [.requestVote ⟨4, 2, 0, 0⟩, .startElection, .appendEntries ⟨6, 2, 0, 0, [], 0⟩]
    (Execution.run step makeClusterNode calls).Persisted ∧
      6 ≤ (Execution.run step makeClusterNode calls).restart.state.currentTerm :=
  have durable := ballot_durable_iff 1 makeClusterNode.peers MemoryRaftStorage.new
      [.requestVote ⟨4, 2, 0, 0⟩, .startElection, .appendEntries ⟨6, 2, 0, 0, [], 0⟩]
  ⟨durable.1.mpr (by decide) _ (List.prefix_refl _),
    durable.2 (by decide) (by decide) _ (List.prefix_refl _) 6 (by decide)⟩

/-- A vote request from a later term that is refused for its log: the node
answers with term 2 and comes back in term 1. -/
theorem refused_vote_leaves_term_in_memory :
    let calls : List Call :=
      [.appendEntries ⟨1, 2, 0, 0, [⟨1, 1, [], .normal⟩], 0⟩, .requestVote ⟨2, 2, 0, 0⟩]
    2 ∈ makeClusterNode.answeredTerms calls ∧
      ¬ (Execution.run step makeClusterNode calls).Persisted ∧
      (Execution.run step makeClusterNode calls).restart.state.currentTerm = 1 := by
  refine ⟨by decide, ?_, by decide⟩
  intro after
  rcases after with ⟨saved, loaded, sameTerm, _⟩
  have found := Except.ok.inj loaded
  rw [← found] at sameTerm
  exact absurd sameTerm (by decide)

end FunDB.Raft.RaftNode
