import FunDB.Raft.Election
import FunDB.Raft.HardState
import Mathlib.Data.Finset.Card
import Mathlib.Data.Fintype.Defs
import Mathlib.Logic.Function.Basic

/-! # Elections in a cluster

A node stands for election by itself. The layer above carries the requests for votes to
the other nodes, and calls `force_become_leader` on a candidate that a majority has voted
for. Nothing else is asked of it: messages may be lost, repeated, reordered and forged, and
nodes may restart at any time. -/

namespace FunDB.Raft

/-- The nodes of a cluster, each with the others as its peers. -/
structure Membership where
  members : Finset NodeId
  peers : NodeId → List (NodeId × PeerAddr)
  complete : ∀ id ∈ members, insert id ((peers id).map Prod.fst).toFinset = members

/-- A node that was leader after a step, with its term and its log. -/
structure Reign where
  term : Nat
  leader : NodeId
  log : List LogEntry

/-- The nodes, the votes that each has given away, and the leaders that were. -/
structure Cluster (Disk : Type) where
  node : NodeId → RaftNode Disk
  votes : NodeId → List (Nat × NodeId)
  reigns : List Reign

inductive ClusterEvent where
  | call (id : NodeId) (call : Call)
  | restart (id : NodeId)
deriving DecidableEq, Repr

theorem Membership.peers_ne_nil (membership : Membership) {id : NodeId}
    (member : id ∈ membership.members) (several : 1 < membership.members.card) :
    membership.peers id ≠ [] := by
  intro alone
  have complete := membership.complete id member
  rw [alone] at complete
  have single := congrArg Finset.card complete
  simp only [List.map_nil, List.toFinset_nil, insert_empty_eq, Finset.card_singleton] at single
  omega

namespace Cluster

variable {Disk : Type} [RaftStorage Disk]

def start (membership : Membership) (disks : NodeId → Disk) : Cluster Disk where
  node id := RaftNode.new id (membership.peers id) (disks id)
  votes _ := []
  reigns := []

/-- One node after a step, with the votes that it gave away. -/
def moved (cluster : Cluster Disk) (id : NodeId) (after : RaftNode Disk)
    (given : List (Nat × NodeId)) : Cluster Disk where
  node := Function.update cluster.node id after
  votes := Function.update cluster.votes id (cluster.votes id ++ given)
  reigns :=
    if after.state.role = .leader then
      ⟨after.state.currentTerm, id, after.state.log⟩ :: cluster.reigns
    else cluster.reigns

def step (cluster : Cluster Disk) : ClusterEvent → Cluster Disk
  | .call id call =>
      cluster.moved id ((cluster.node id).step call) ((cluster.node id).votesGranted call)
  | .restart id => cluster.moved id (cluster.node id).restart []

def voters (cluster : Cluster Disk) (members : Finset NodeId) (term : Nat)
    (candidate : NodeId) : Finset NodeId :=
  members.filter fun voter => (term, candidate) ∈ cluster.votes voter

/-- A candidate that a majority has voted for in its term. -/
def Elected (cluster : Cluster Disk) (members : Finset NodeId) (id : NodeId) : Prop :=
  (cluster.node id).state.role = .candidate ∧
    members.card / 2 + 1 ≤ (cluster.voters members (cluster.node id).state.currentTerm id).card

/-- Only an elected candidate is made leader, and no term counter wraps. -/
def Admitted (members : Finset NodeId) (cluster : Cluster Disk) : ClusterEvent → Prop
  | .call id call =>
      id ∈ members ∧ (cluster.node id).TermFits call ∧
        (call = .forceBecomeLeader → cluster.Elected members id)
  | .restart id => id ∈ members

instance (cluster : Cluster Disk) (members : Finset NodeId) (id : NodeId) :
    Decidable (cluster.Elected members id) := inferInstanceAs (Decidable (_ ∧ _))

instance (members : Finset NodeId) (cluster : Cluster Disk) :
    ∀ event, Decidable (Admitted members cluster event)
  | .call _ _ => inferInstanceAs (Decidable (_ ∧ _ ∧ (_ → _)))
  | .restart _ => inferInstanceAs (Decidable (_ ∈ _))

end Cluster

/-! ## What a call does to the vote -/

/-- What of a node's state decides about its vote. -/
structure Standing where
  role : RaftRole
  term : Nat
  votedFor : Option NodeId

def RaftState.standing (state : RaftState) : Standing :=
  ⟨state.role, state.currentTerm, state.votedFor⟩

theorem role_of_standing {Disk : Type} {node : RaftNode Disk} {standing : Standing}
    (same : node.state.standing = standing) : node.state.role = standing.role :=
  congrArg Standing.role same

/-- All that a call can do to a node's standing, with the votes that it gives away. -/
inductive StandingChange {Disk : Type} (node : RaftNode Disk) (call : Call) :
    Standing → List (Nat × NodeId) → Prop where
  | kept : StandingChange node call node.state.standing []
  | granted (candidate : NodeId)
      (free : node.state.votedFor = none ∨ node.state.votedFor = some candidate) :
      StandingChange node call ⟨node.state.role, node.state.currentTerm, some candidate⟩
        [(node.state.currentTerm, candidate)]
  | followed (term : Nat) (above : node.state.currentTerm < term) :
      StandingChange node call ⟨.follower, term, none⟩ []
  | voted (term : Nat) (candidate : NodeId) (above : node.state.currentTerm < term) :
      StandingChange node call ⟨.follower, term, some candidate⟩ [(term, candidate)]
  /-- The vote is cleared within its term. -/
  | deposed (standing : node.state.role = .candidate) :
      StandingChange node call ⟨.follower, node.state.currentTerm, none⟩ []
  | stood (role : RaftRole) (others : node.peers ≠ [] → role = .candidate) :
      StandingChange node call ⟨role, node.state.currentTerm + 1, some node.id⟩
        [(node.state.currentTerm + 1, node.id)]
  | promoted (forced : call = .forceBecomeLeader) :
      StandingChange node call ⟨.leader, node.state.currentTerm + 1, node.state.votedFor⟩ []

namespace RaftNode

variable {Disk : Type} [RaftStorage Disk] (node : RaftNode Disk)

theorem startElection_standing (fits : node.state.currentTerm + 1 < 2 ^ 64) :
    ∃ role, node.startElection.2.state.standing =
        ⟨role, node.state.currentTerm + 1, some node.id⟩ ∧
      (node.peers ≠ [] → role = .candidate) := by
  have raised := wrappingSucc_of_lt fits
  by_cases alone : node.peers = []
  · refine ⟨.leader, ?_, fun others => absurd alone others⟩
    simp [startElection, peerIds, alone, persist, RaftState.becomeLeader,
      RaftState.becomeCandidate, RaftState.standing, raised]
  · have several : 0 < node.peers.length := List.length_pos_iff.mpr alone
    have few : ¬ 1 ≥ (node.peers.length + 1) / 2 + 1 := by omega
    refine ⟨.candidate, ?_, fun _ => rfl⟩
    simp [startElection, peerIds, alone, few, persist, RaftState.becomeCandidate,
      RaftState.standing, raised]

theorem handleRequestVote_standing (req : RequestVoteRequest) :
    StandingChange node (.requestVote req) (node.handleRequestVote req).2.state.standing
      (node.votesGranted (.requestVote req)) := by
  rw [handleRequestVote_state]
  have given : node.votesGranted (.requestVote req) =
      if (node.state.handleRequestVote req).1.1.voteGranted then
        [((node.state.handleRequestVote req).1.1.term, req.candidateId)] else [] := rfl
  rw [given]
  have raised (above : node.state.currentTerm < req.term) :
      node.state.judging req = node.state.becomeFollower req.term none := if_pos above
  have judged (same : req.term = node.state.currentTerm) : node.state.judging req = node.state :=
    if_neg (by omega)
  rcases node.state.handleRequestVote_cases req with
    ⟨_, result⟩ | ⟨current, free, _, result⟩ | ⟨current, _, result⟩ <;> rw [result]
  · exact .kept
  · rcases Nat.lt_or_eq_of_le current with above | same
    · rw [raised above]
      exact .voted req.term req.candidateId above
    · rw [judged same.symm] at free ⊢
      rw [← same]
      exact .granted req.candidateId free
  · rcases Nat.lt_or_eq_of_le current with above | same
    · rw [raised above]
      exact .followed req.term above
    · rw [judged same.symm]
      exact .kept

theorem handleAppendEntries_standing (req : AppendEntriesRequest) :
    StandingChange node (.appendEntries req) (node.handleAppendEntries req).2.state.standing
      [] := by
  have accepted (current : node.state.currentTerm ≤ req.term) :
      StandingChange node (.appendEntries req)
        (node.state.acceptLeader req.term req.leaderId).standing [] := by
    rw [RaftState.acceptLeader]
    split
    · rcases Nat.lt_or_eq_of_le current with above | same
      · exact .followed req.term above
      · next either =>
          have candidate := either.resolve_left (by omega)
          rw [← same]
          exact .deposed candidate
    · exact .kept
  rw [handleAppendEntries_state]
  rcases node.state.handleAppendEntries_cases req node.id with
    ⟨_, result⟩ | ⟨current, _, result⟩ | ⟨current, _, result⟩ <;> rw [result]
  · exact .kept
  · exact accepted current
  · exact accepted current

theorem handleInstallSnapshot_standing (req : InstallSnapshotRequest) :
    StandingChange node (.installSnapshot req) (node.handleInstallSnapshot req).2.state.standing
      [] := by
  rw [handleInstallSnapshot]
  split
  · exact .kept
  · dsimp only
    split
    · exact .followed req.term ‹_›
    · exact .kept

/-- Every call changes the standing in one of these ways. -/
theorem step_standing (call : Call) (fits : node.TermFits call) :
    StandingChange node call (node.step call).state.standing (node.votesGranted call) := by
  cases call with
  | startElection =>
      rcases node.startElection_standing fits with ⟨role, standing, others⟩
      have given : node.votesGranted .startElection =
          [((node.startElection).2.state.standing.term, node.id)] := rfl
      change StandingChange node _ node.startElection.2.state.standing _
      rw [given, standing]
      exact .stood role others
  | forceBecomeLeader =>
      have raised := wrappingSucc_of_lt fits
      change StandingChange node _ ⟨.leader, wrappingSucc _, _⟩ _
      rw [raised]
      exact .promoted rfl
  | requestVote req => exact node.handleRequestVote_standing req
  | appendEntries req => exact node.handleAppendEntries_standing req
  | installSnapshot req => exact node.handleInstallSnapshot_standing req
  | propose data =>
      rcases node.propose_state data with ⟨_, _, result⟩
      change StandingChange node _ (node.propose data).2.state.standing _
      rw [result]
      exact .kept
  | updateMatchIndex peerId matchIdx =>
      rcases node.updateMatchIndex_state peerId matchIdx with ⟨_, _, _, result⟩
      change StandingChange node _ (node.updateMatchIndex peerId matchIdx).state.standing _
      rw [result]
      exact .kept

theorem step_identity (call : Call) :
    (node.step call).id = node.id ∧ (node.step call).peers = node.peers := by
  cases call with
  | startElection =>
      change node.startElection.2.id = _ ∧ node.startElection.2.peers = _
      rw [startElection]
      dsimp only
      split_ifs <;> exact ⟨rfl, rfl⟩
  | forceBecomeLeader => exact ⟨rfl, rfl⟩
  | requestVote req =>
      change (node.handleRequestVote req).2.id = _ ∧ (node.handleRequestVote req).2.peers = _
      rw [handleRequestVote]
      dsimp only
      split <;> exact ⟨rfl, rfl⟩
  | appendEntries req =>
      change (node.handleAppendEntries req).2.id = _ ∧ (node.handleAppendEntries req).2.peers = _
      rw [handleAppendEntries]
      dsimp only
      split <;> exact ⟨rfl, rfl⟩
  | installSnapshot req =>
      change (node.handleInstallSnapshot req).2.id = _ ∧
        (node.handleInstallSnapshot req).2.peers = _
      rw [handleInstallSnapshot]
      split <;> exact ⟨rfl, rfl⟩
  | propose data =>
      change (node.propose data).2.id = _ ∧ (node.propose data).2.peers = _
      rcases node.propose_cases data with result | result | result <;> rw [result]
      · exact ⟨rfl, rfl⟩
      · exact ⟨rfl, rfl⟩
      · rcases ((node.proposeAppend data).2.proposeStore
          (node.proposeAppend data).1).2.proposeCommit_cases (node.proposeAppend data).1 with
          result | result <;> rw [result] <;> exact ⟨rfl, rfl⟩
  | updateMatchIndex peerId matchIdx =>
      change (node.updateMatchIndex peerId matchIdx).id = _ ∧
        (node.updateMatchIndex peerId matchIdx).peers = _
      rw [updateMatchIndex]
      split
      · exact ⟨rfl, rfl⟩
      · dsimp only
        split <;> exact ⟨rfl, rfl⟩

variable [DurableHardState Disk]

/-- A call that gives a vote away leaves it on disk. -/
theorem step_stored (call : Call) :
    (node.step call).Persisted ∨
      RaftStorage.loadHardState (node.step call).storage =
          RaftStorage.loadHardState node.storage ∧
        node.votesGranted call = [] := by
  cases call with
  | startElection => exact .inl node.startElection_persisted
  | forceBecomeLeader => exact .inr ⟨rfl, rfl⟩
  | requestVote req =>
      have stepped : node.step (.requestVote req) = (node.handleRequestVote req).2 := rfl
      have given : node.votesGranted (.requestVote req) =
          if (node.state.handleRequestVote req).1.1.voteGranted then
            [((node.state.handleRequestVote req).1.1.term, req.candidateId)] else [] := rfl
      rw [stepped, given, handleRequestVote]
      rcases node.state.handleRequestVote_cases req with
        ⟨_, result⟩ | ⟨_, _, _, result⟩ | ⟨_, _, result⟩ <;> rw [result]
      · exact .inr ⟨rfl, rfl⟩
      · exact .inl (persisted_persist _)
      · exact .inr ⟨rfl, rfl⟩
  | appendEntries req =>
      change (node.handleAppendEntries req).2.Persisted ∨ _
      have stepped : node.step (.appendEntries req) = (node.handleAppendEntries req).2 := rfl
      rw [stepped, handleAppendEntries]
      rcases node.state.handleAppendEntries_cases req node.id with
        ⟨_, result⟩ | ⟨_, _, result⟩ | ⟨_, _, result⟩ <;> rw [result]
      · exact .inr ⟨rfl, rfl⟩
      · exact .inl (persisted_persist _)
      · exact .inl (persisted_persist _)
  | installSnapshot req =>
      have stepped : node.step (.installSnapshot req) = (node.handleInstallSnapshot req).2 := rfl
      rw [stepped, handleInstallSnapshot]
      split
      · exact .inr ⟨rfl, rfl⟩
      · exact .inl (persisted_persist _)
  | propose data =>
      have stepped : node.step (.propose data) = (node.propose data).2 := rfl
      have kept : RaftStorage.loadHardState ((node.proposeAppend data).2.proposeStore
          (node.proposeAppend data).1).2.storage = RaftStorage.loadHardState node.storage :=
        DurableHardState.appendKeeps _ _
      rw [stepped]
      rcases node.propose_cases data with result | result | result <;> rw [result]
      · exact .inr ⟨rfl, rfl⟩
      · exact .inr ⟨kept, rfl⟩
      · rcases ((node.proposeAppend data).2.proposeStore
          (node.proposeAppend data).1).2.proposeCommit_cases (node.proposeAppend data).1 with
          result | result <;> rw [result]
        · exact .inr ⟨kept, rfl⟩
        · exact .inl (persisted_persist _)
  | updateMatchIndex peerId matchIdx =>
      have stepped : node.step (.updateMatchIndex peerId matchIdx) =
          node.updateMatchIndex peerId matchIdx := rfl
      rw [stepped, updateMatchIndex]
      split
      · exact .inr ⟨rfl, rfl⟩
      · dsimp only
        split
        · exact .inl (persisted_persist _)
        · exact .inr ⟨rfl, rfl⟩

omit [DurableHardState Disk] in
/-- A node starts as a follower with the ballot that it finds. -/
theorem new_standing (id : NodeId) (peers : List (NodeId × PeerAddr)) {disk : Disk}
    {saved : HardState} (loaded : RaftStorage.loadHardState disk = .ok saved) :
    (RaftNode.new id peers disk).state.standing =
      ⟨.follower, saved.currentTerm, saved.votedFor⟩ := by
  simp only [RaftNode.new, loaded]
  split
  · split <;> rfl
  · rfl

end RaftNode

/-! ## A voter -/

/-- A ballot behind the votes that a node has given away: none is of a later term, and one
of this term for another node is recorded. -/
structure Backs (id : NodeId) (term : Nat) (votedFor : Option NodeId)
    (votes : List (Nat × NodeId)) : Prop where
  reached : ∀ vote ∈ votes, vote.1 ≤ term
  recorded : ∀ vote ∈ votes, vote.1 = term → vote.2 ≠ id → votedFor = some vote.2

/-- What holds of the votes of a node. The vote of a candidate for itself can be cleared
within its term, so only the votes for others are single. -/
structure HonestVotes (id : NodeId) (standing : Standing) (votes : List (Nat × NodeId)) :
    Prop where
  backs : Backs id standing.term standing.votedFor votes
  own : standing.role = .candidate → standing.votedFor = some id ∧
    ∀ vote ∈ votes, vote.1 = standing.term → vote.2 = id
  single : ∀ term first second, (term, first) ∈ votes → (term, second) ∈ votes →
    first ≠ id → second ≠ id → first = second

section Votes

variable {Disk : Type} {node : RaftNode Disk} {call : Call} {standing : Standing}
variable {votes : List (Nat × NodeId)}

theorem HonestVotes.raised (honest : HonestVotes node.id node.state.standing votes)
    (above : node.state.currentTerm < standing.term) (follows : standing.role ≠ .candidate) :
    HonestVotes node.id standing votes where
  backs :=
    { reached := fun vote member => (honest.backs.reached vote member).trans above.le
      recorded := fun vote member same =>
        absurd (same ▸ honest.backs.reached vote member) (Nat.not_le.mpr above) }
  own candidate := absurd candidate follows
  single := honest.single

theorem HonestVotes.concat (honest : HonestVotes node.id standing votes) {candidate : NodeId}
    (recorded : standing.votedFor = some candidate) :
    HonestVotes node.id standing (votes ++ [(standing.term, candidate)]) where
  backs :=
    { reached := by
        intro vote member
        rcases List.mem_append.mp member with old | new
        · exact honest.backs.reached vote old
        · rw [List.mem_singleton.mp new]
      recorded := by
        intro vote member same other
        rcases List.mem_append.mp member with old | new
        · exact honest.backs.recorded vote old same other
        · rw [List.mem_singleton.mp new]
          exact recorded }
  own := by
    intro stands
    have own := honest.own stands
    refine ⟨own.1, fun vote member same => ?_⟩
    rcases List.mem_append.mp member with old | new
    · exact own.2 vote old same
    · rw [List.mem_singleton.mp new]
      exact Option.some.inj (recorded.symm.trans own.1)
  single := by
    intro term first second firstVoted secondVoted firstOther secondOther
    -- A vote for another node in this term is the recorded one.
    have voted {chosen : NodeId} (member : (term, chosen) ∈ votes ++ [(standing.term, candidate)])
        (other : chosen ≠ node.id) (current : term = standing.term) : chosen = candidate := by
      rcases List.mem_append.mp member with old | new
      · have held := honest.backs.recorded _ old current other
        exact Option.some.inj (held.symm.trans recorded)
      · exact congrArg Prod.snd (List.mem_singleton.mp new)
    by_cases current : term = standing.term
    · rw [voted firstVoted firstOther current, voted secondVoted secondOther current]
    · have earlier {chosen : NodeId}
          (member : (term, chosen) ∈ votes ++ [(standing.term, candidate)]) :
          (term, chosen) ∈ votes := by
        rcases List.mem_append.mp member with old | new
        · exact old
        · exact absurd (congrArg Prod.fst (List.mem_singleton.mp new)) current
      exact honest.single term first second (earlier firstVoted) (earlier secondVoted)
        firstOther secondOther

theorem HonestVotes.change (honest : HonestVotes node.id node.state.standing votes)
    {given : List (Nat × NodeId)} (change : StandingChange node call standing given) :
    HonestVotes node.id standing (votes ++ given) := by
  cases change with
  | kept => rwa [List.append_nil]
  | granted candidate free =>
      have chosen {earlier : NodeId} (voted : node.state.votedFor = some earlier) :
          candidate = earlier := by
        rcases free with none | same
        · rw [voted] at none
          cases none
        · exact Option.some.inj (same.symm.trans voted)
      have recording : HonestVotes node.id
          ⟨node.state.role, node.state.currentTerm, some candidate⟩ votes :=
        { backs :=
            { reached := honest.backs.reached
              recorded := fun vote member same other =>
                congrArg some (chosen (honest.backs.recorded vote member same other)) }
          own := fun stands =>
            ⟨congrArg some (chosen (honest.own stands).1), (honest.own stands).2⟩
          single := honest.single }
      exact recording.concat rfl
  | followed term above =>
      rw [List.append_nil]
      exact honest.raised above (fun impossible => by cases impossible)
  | voted term candidate above =>
      have raised : HonestVotes node.id ⟨.follower, term, some candidate⟩ votes :=
        honest.raised above fun impossible => by cases impossible
      exact raised.concat rfl
  | deposed stands =>
      rw [List.append_nil]
      exact
        { backs :=
            { reached := honest.backs.reached
              recorded := fun vote member same other =>
                absurd ((honest.own stands).2 vote member same) other }
          own := fun impossible => by cases impossible
          single := honest.single }
  | stood role others =>
      have fresh (vote : Nat × NodeId) (member : vote ∈ votes) :
          vote.1 ≠ node.state.currentTerm + 1 := by
        have reached : vote.1 ≤ node.state.currentTerm := honest.backs.reached vote member
        omega
      have standing : HonestVotes node.id ⟨role, node.state.currentTerm + 1, some node.id⟩ votes :=
        { backs :=
            { reached := fun vote member => Nat.le_succ_of_le (honest.backs.reached vote member)
              recorded := fun vote member same => absurd same (fresh vote member) }
          own := fun _ => ⟨rfl, fun vote member same => absurd same (fresh vote member)⟩
          single := honest.single }
      exact standing.concat rfl
  | promoted forced =>
      rw [List.append_nil]
      exact honest.raised (Nat.lt_succ_self _) fun impossible => by cases impossible

end Votes

section Voter

variable {Disk : Type} [RaftStorage Disk]

/-- What holds of a voter, in memory and on disk. -/
structure HonestVoter (node : RaftNode Disk) (votes : List (Nat × NodeId)) : Prop where
  inMemory : HonestVotes node.id node.state.standing votes
  onDisk : ∀ saved, RaftStorage.loadHardState node.storage = .ok saved →
    Backs node.id saved.currentTerm saved.votedFor votes
  standing : node.state.role = .candidate →
    ∀ saved, RaftStorage.loadHardState node.storage = .ok saved →
      saved.currentTerm = node.state.currentTerm ∧ saved.votedFor = some node.id

/-- A term in which a node has voted for itself only, and will not vote again. -/
structure Sealed (node : RaftNode Disk) (votes : List (Nat × NodeId)) (term : Nat) : Prop where
  ownVotes : ∀ vote ∈ votes, vote.1 = term → vote.2 = node.id
  inMemory : term < node.state.currentTerm ∨
    term = node.state.currentTerm ∧ node.state.votedFor = some node.id ∧
      node.state.role ≠ .candidate
  onDisk : ∀ saved, RaftStorage.loadHardState node.storage = .ok saved →
    term < saved.currentTerm ∨ term = saved.currentTerm ∧ saved.votedFor = some node.id

variable [DurableHardState Disk] {node : RaftNode Disk} {votes : List (Nat × NodeId)}

omit [DurableHardState Disk] in
/-- What a node has persisted is what it has in memory. -/
theorem eq_of_persisted (persisted : node.Persisted) {saved : HardState}
    (loaded : RaftStorage.loadHardState node.storage = .ok saved) :
    saved.currentTerm = node.state.currentTerm ∧ saved.votedFor = node.state.votedFor := by
  rcases persisted with ⟨found, reloaded, sameTerm, sameVote⟩
  rw [reloaded] at loaded
  cases loaded
  exact ⟨sameTerm, sameVote⟩

theorem HonestVoter.step (honest : HonestVoter node votes) (call : Call)
    (fits : node.TermFits call) :
    HonestVoter (node.step call) (votes ++ node.votesGranted call) := by
  have change := node.step_standing call fits
  have sameId := (node.step_identity call).1
  have inMemory : HonestVotes (node.step call).id (node.step call).state.standing
      (votes ++ node.votesGranted call) := by
    rw [sameId]
    exact honest.inMemory.change change
  rcases node.step_stored call with persisted | ⟨sameDisk, given⟩
  · exact
      { inMemory := inMemory
        onDisk := fun saved loaded => by
          rcases eq_of_persisted persisted loaded with ⟨sameTerm, sameVote⟩
          rw [sameTerm, sameVote]
          exact inMemory.backs
        standing := fun stands saved loaded => by
          rcases eq_of_persisted persisted loaded with ⟨sameTerm, sameVote⟩
          exact ⟨sameTerm, sameVote.trans (inMemory.own stands).1⟩ }
  · rw [given] at change inMemory ⊢
    rw [List.append_nil] at inMemory ⊢
    refine ⟨inMemory, ?_, ?_⟩
    · intro saved loaded
      rw [sameId]
      exact honest.onDisk saved (sameDisk ▸ loaded)
    · intro stands saved loaded
      have role : (node.step call).state.standing.role = .candidate := stands
      have sameTerm : (node.step call).state.currentTerm =
          (node.step call).state.standing.term := rfl
      rw [sameId, sameTerm]
      generalize (node.step call).state.standing = standing at change role
      cases change with
      | kept => exact honest.standing role saved (sameDisk ▸ loaded)
      | followed term above => cases role
      | deposed candidate => cases role
      | promoted forced => cases role

theorem HonestVoter.restart (honest : HonestVoter node votes) :
    HonestVoter node.restart votes := by
  rcases DurableHardState.loads node.storage with ⟨saved, loaded⟩
  have standing : node.restart.state.standing = _ :=
    RaftNode.new_standing node.id node.peers loaded
  refine ⟨?_, fun _ reloaded => honest.onDisk _ reloaded, ?_⟩
  · rw [standing]
    exact ⟨honest.onDisk saved loaded, fun impossible => RaftRole.noConfusion impossible,
      honest.inMemory.single⟩
  · intro stands
    have follows : node.restart.state.role = .follower := congrArg Standing.role standing
    rw [follows] at stands
    cases stands

theorem Sealed.step {term : Nat} (closed : Sealed node votes term) (call : Call)
    (fits : node.TermFits call) :
    Sealed (node.step call) (votes ++ node.votesGranted call) term := by
  have change := node.step_standing call fits
  have sameId := (node.step_identity call).1
  have both : (∀ vote ∈ node.votesGranted call, vote.1 = term → vote.2 = node.id) ∧
      (term < (node.step call).state.standing.term ∨
        term = (node.step call).state.standing.term ∧
          (node.step call).state.standing.votedFor = some node.id ∧
          (node.step call).state.standing.role ≠ .candidate) := by
    have inMemory := closed.inMemory
    generalize (node.step call).state.standing = standing at change
    generalize node.votesGranted call = given at change
    cases change with
    | kept => exact ⟨fun _ member => absurd member List.not_mem_nil, inMemory⟩
    | granted candidate free =>
        rcases inMemory with left | ⟨current, own, stays⟩
        · refine ⟨fun vote member same => ?_, .inl left⟩
          rw [List.mem_singleton.mp member] at same
          omega
        · have chosen : candidate = node.id := by
            rcases free with none | same
            · rw [own] at none
              cases none
            · exact Option.some.inj (same.symm.trans own)
          rw [chosen]
          refine ⟨fun vote member _ => ?_, .inr ⟨current, rfl, stays⟩⟩
          rw [List.mem_singleton.mp member]
    | followed other above =>
        exact ⟨fun _ member => absurd member List.not_mem_nil, .inl (show term < other by omega)⟩
    | voted other candidate above =>
        refine ⟨fun vote member same => ?_, .inl (show term < other by omega)⟩
        rw [List.mem_singleton.mp member] at same
        omega
    | deposed stands =>
        rcases inMemory with left | ⟨_, _, stays⟩
        · exact ⟨fun _ member => absurd member List.not_mem_nil, .inl left⟩
        · exact absurd stands stays
    | stood role others =>
        refine ⟨fun vote member _ => ?_, .inl (show term < _ + 1 by omega)⟩
        rw [List.mem_singleton.mp member]
    | promoted forced =>
        exact ⟨fun _ member => absurd member List.not_mem_nil, .inl (show term < _ + 1 by omega)⟩
  rw [← sameId] at both
  refine ⟨?_, both.2, ?_⟩
  · intro vote member same
    rcases List.mem_append.mp member with old | new
    · rw [sameId]
      exact closed.ownVotes vote old same
    · exact both.1 vote new same
  · intro saved loaded
    rcases node.step_stored call with persisted | ⟨sameDisk, _⟩
    · rcases eq_of_persisted persisted loaded with ⟨sameTerm, sameVote⟩
      rw [sameTerm, sameVote]
      exact both.2.imp_right fun current => ⟨current.1, current.2.1⟩
    · rw [sameId]
      exact closed.onDisk saved (sameDisk ▸ loaded)

theorem Sealed.restart {term : Nat} (closed : Sealed node votes term) :
    Sealed node.restart votes term := by
  rcases DurableHardState.loads node.storage with ⟨saved, loaded⟩
  have standing : node.restart.state.standing = _ :=
    RaftNode.new_standing node.id node.peers loaded
  have sameTerm : node.restart.state.currentTerm = saved.currentTerm :=
    congrArg Standing.term standing
  have sameVote : node.restart.state.votedFor = saved.votedFor :=
    congrArg Standing.votedFor standing
  have follows : node.restart.state.role = .follower := congrArg Standing.role standing
  refine ⟨closed.ownVotes, ?_, fun _ reloaded => closed.onDisk _ reloaded⟩
  rw [sameTerm, sameVote, follows]
  exact (closed.onDisk saved loaded).imp_right fun current =>
    ⟨current.1, current.2, fun impossible => by cases impossible⟩

omit [DurableHardState Disk] in
/-- An elected candidate has sealed the term of its election when it is made leader. -/
theorem HonestVoter.sealed_forceBecomeLeader (honest : HonestVoter node votes)
    (stands : node.state.role = .candidate) (fits : node.state.currentTerm + 1 < 2 ^ 64) :
    Sealed node.forceBecomeLeader votes node.state.currentTerm := by
  have raised : node.forceBecomeLeader.state.currentTerm = node.state.currentTerm + 1 :=
    wrappingSucc_of_lt fits
  refine ⟨(honest.inMemory.own stands).2, .inl (by omega), ?_⟩
  intro saved loaded
  rcases honest.standing stands saved loaded with ⟨sameTerm, own⟩
  exact .inr ⟨sameTerm.symm, own⟩

end Voter

/-! ## The cluster -/

namespace Cluster

variable {Disk : Type} [RaftStorage Disk] {cluster : Cluster Disk} {membership : Membership}
variable {members : Finset NodeId}

/-- A majority has voted for the node in the term, and the term is sealed. -/
structure Won (cluster : Cluster Disk) (members : Finset NodeId) (term : Nat)
    (leader : NodeId) : Prop where
  majority : members.card / 2 + 1 ≤ (cluster.voters members term leader).card
  closed : Sealed (cluster.node leader) (cluster.votes leader) term

/-- What holds of a cluster: its voters are honest, and its leaders have won the election
in the term before. -/
structure SafeElections (membership : Membership) (cluster : Cluster Disk) : Prop where
  identity : ∀ id, (cluster.node id).id = id ∧ (cluster.node id).peers = membership.peers id
  honest : ∀ id, HonestVoter (cluster.node id) (cluster.votes id)
  won : ∀ reign ∈ cluster.reigns, reign.leader ∈ membership.members ∧
    (1 < membership.members.card →
      ∃ term, reign.term = term + 1 ∧ cluster.Won membership.members term reign.leader)
  reigning : ∀ id, (cluster.node id).state.role = .leader →
    ∃ reign ∈ cluster.reigns, reign.leader = id ∧
      reign.term = (cluster.node id).state.currentTerm

omit [RaftStorage Disk] in
theorem voters_moved (term : Nat) (candidate id : NodeId) (after : RaftNode Disk)
    (given : List (Nat × NodeId)) :
    cluster.voters members term candidate ⊆
      (cluster.moved id after given).voters members term candidate := by
  intro voter member
  rcases Finset.mem_filter.mp member with ⟨inside, voted⟩
  apply Finset.mem_filter.mpr
  refine ⟨inside, ?_⟩
  by_cases same : voter = id
  · subst same
    simp only [moved, Function.update_self]
    exact List.mem_append_left _ voted
  · simpa only [moved, Function.update_of_ne same] using voted

omit [RaftStorage Disk] in
theorem reigns_moved (id : NodeId) (after : RaftNode Disk) (given : List (Nat × NodeId)) :
    cluster.reigns ⊆ (cluster.moved id after given).reigns := by
  rw [moved]
  dsimp only
  split
  · exact List.subset_cons_self _ _
  · exact List.Subset.refl _

theorem reigns_run (events : List ClusterEvent) :
    cluster.reigns ⊆ (Execution.run step cluster events).reigns := by
  induction events generalizing cluster with
  | nil => exact List.Subset.refl _
  | cons event rest induction =>
      have first : cluster.reigns ⊆ (cluster.step event).reigns := by
        cases event with
        | call id call => exact reigns_moved _ _ _
        | restart id => exact reigns_moved _ _ _
      exact List.Subset.trans first induction

theorem Won.moved {term : Nat} {leader : NodeId} (won : cluster.Won members term leader)
    {id : NodeId} {after : RaftNode Disk} {given : List (Nat × NodeId)}
    (keeps : Sealed (cluster.node id) (cluster.votes id) term →
      Sealed after (cluster.votes id ++ given) term) :
    (cluster.moved id after given).Won members term leader where
  majority := won.majority.trans (Finset.card_le_card (voters_moved term leader id after given))
  closed := by
    by_cases same : leader = id
    · subst same
      simp only [Cluster.moved, Function.update_self]
      exact keeps won.closed
    · simpa only [Cluster.moved, Function.update_of_ne same] using won.closed

/-- Two majorities have a member in common, who has not voted for two others. -/
theorem SafeElections.won_unique (safe : SafeElections membership cluster) {term : Nat}
    {first second : NodeId} (firstWon : cluster.Won membership.members term first)
    (secondWon : cluster.Won membership.members term second) : first = second := by
  have overlap : membership.members.card <
      (cluster.voters membership.members term first).card +
        (cluster.voters membership.members term second).card := by
    have left := firstWon.majority
    have right := secondWon.majority
    omega
  rcases Finset.inter_nonempty_of_card_lt_card_add_card (Finset.filter_subset _ _)
    (Finset.filter_subset _ _) overlap with ⟨voter, common⟩
  rcases Finset.mem_inter.mp common with ⟨firstVoter, secondVoter⟩
  have firstVoted := (Finset.mem_filter.mp firstVoter).2
  have secondVoted := (Finset.mem_filter.mp secondVoter).2
  have identity := (safe.identity voter).1
  by_cases isFirst : voter = first
  · subst isFirst
    exact ((firstWon.closed.ownVotes _ secondVoted rfl).trans identity).symm
  by_cases isSecond : voter = second
  · subst isSecond
    exact (secondWon.closed.ownVotes _ firstVoted rfl).trans identity
  apply (safe.honest voter).inMemory.single term first second firstVoted secondVoted
  · rw [identity]
    exact Ne.symm isFirst
  · rw [identity]
    exact Ne.symm isSecond

theorem SafeElections.moved (safe : SafeElections membership cluster) {id : NodeId}
    {after : RaftNode Disk} {given : List (Nat × NodeId)}
    (identity : after.id = (cluster.node id).id ∧ after.peers = (cluster.node id).peers)
    (honest : HonestVoter after (cluster.votes id ++ given))
    (keeps : ∀ term, Sealed (cluster.node id) (cluster.votes id) term →
      Sealed after (cluster.votes id ++ given) term)
    (leads : after.state.role = .leader → id ∈ membership.members ∧
      (1 < membership.members.card → ∃ term, after.state.currentTerm = term + 1 ∧
        (cluster.moved id after given).Won membership.members term id)) :
    SafeElections membership (cluster.moved id after given) where
  identity other := by
    by_cases same : other = id
    · subst same
      simp only [Cluster.moved, Function.update_self]
      exact ⟨identity.1.trans (safe.identity other).1, identity.2.trans (safe.identity other).2⟩
    · simpa only [Cluster.moved, Function.update_of_ne same] using safe.identity other
  honest other := by
    by_cases same : other = id
    · subst same
      simpa only [Cluster.moved, Function.update_self] using honest
    · simpa only [Cluster.moved, Function.update_of_ne same] using safe.honest other
  won := by
    have earlier (reign : Reign) (member : reign ∈ cluster.reigns) :
        reign.leader ∈ membership.members ∧ (1 < membership.members.card →
          ∃ term, reign.term = term + 1 ∧
            (cluster.moved id after given).Won membership.members term reign.leader) := by
      rcases safe.won reign member with ⟨inside, wins⟩
      refine ⟨inside, fun several => ?_⟩
      rcases wins several with ⟨term, raised, won⟩
      exact ⟨term, raised, won.moved (keeps term)⟩
    intro reign member
    by_cases rules : after.state.role = .leader
    · have recorded : (cluster.moved id after given).reigns =
          ⟨after.state.currentTerm, id, after.state.log⟩ :: cluster.reigns := if_pos rules
      rw [recorded] at member
      rcases List.mem_cons.mp member with same | old
      · subst same
        exact leads rules
      · exact earlier reign old
    · have unchanged : (cluster.moved id after given).reigns = cluster.reigns := if_neg rules
      rw [unchanged] at member
      exact earlier reign member
  reigning other rules := by
    by_cases same : other = id
    · subst same
      simp only [Cluster.moved, Function.update_self] at rules ⊢
      rw [if_pos rules]
      exact ⟨_, List.mem_cons_self, rfl, rfl⟩
    · simp only [Cluster.moved, Function.update_of_ne same] at rules ⊢
      rcases safe.reigning other rules with ⟨reign, member, found⟩
      refine ⟨reign, ?_, found⟩
      split
      · exact List.mem_cons_of_mem _ member
      · exact member

variable [DurableHardState Disk]

theorem safeElections_start (membership : Membership) (disks : NodeId → Disk) :
    SafeElections membership (start membership disks) where
  identity _ := ⟨rfl, rfl⟩
  honest id := by
    rcases DurableHardState.loads (disks id) with ⟨saved, loaded⟩
    have standing := RaftNode.new_standing id (membership.peers id) loaded
    have backs (term : Nat) (votedFor : Option NodeId) : Backs id term votedFor [] :=
      ⟨fun _ member => absurd member List.not_mem_nil,
        fun _ member => absurd member List.not_mem_nil⟩
    refine ⟨⟨backs _ _, ?_, fun _ _ _ member => absurd member List.not_mem_nil⟩,
      fun _ _ => backs _ _, ?_⟩
    · intro stands
      rw [start, standing] at stands
      cases stands
    · intro stands
      rw [start, role_of_standing standing] at stands
      cases stands
  won _ member := absurd member List.not_mem_nil
  reigning id rules := by
    rcases DurableHardState.loads (disks id) with ⟨saved, loaded⟩
    rw [start, role_of_standing (RaftNode.new_standing id (membership.peers id) loaded)] at rules
    cases rules

theorem SafeElections.step (safe : SafeElections membership cluster) {event : ClusterEvent}
    (admitted : Admitted membership.members cluster event) :
    SafeElections membership (cluster.step event) := by
  cases event with
  | restart id =>
      refine safe.moved ⟨rfl, rfl⟩ ?_ ?_ ?_
      · rw [List.append_nil]
        exact (safe.honest id).restart
      · intro term closed
        rw [List.append_nil]
        exact closed.restart
      · intro rules
        rcases DurableHardState.loads (cluster.node id).storage with ⟨saved, loaded⟩
        have follows : (cluster.node id).restart.state.role = .follower :=
          role_of_standing (RaftNode.new_standing _ _ loaded)
        rw [follows] at rules
        cases rules
  | call id call =>
      rcases admitted with ⟨member, fits, elected⟩
      have keeps (term : Nat) (closed : Sealed (cluster.node id) (cluster.votes id) term) :=
        closed.step call fits
      refine safe.moved ((cluster.node id).step_identity call) ((safe.honest id).step call fits)
        keeps ?_
      intro rules
      refine ⟨member, fun several => ?_⟩
      -- A leader that stays one has won before.
      have stays (led : (cluster.node id).state.role = .leader)
          (sameTerm : ((cluster.node id).step call).state.currentTerm =
            (cluster.node id).state.currentTerm) :
          ∃ term, ((cluster.node id).step call).state.currentTerm = term + 1 ∧
            (cluster.moved id ((cluster.node id).step call)
              ((cluster.node id).votesGranted call)).Won membership.members term id := by
        rcases safe.reigning id led with ⟨reign, recorded, same, reignTerm⟩
        rcases (safe.won reign recorded).2 several with ⟨term, raised, won⟩
        rw [same] at won
        exact ⟨term, by rw [sameTerm, ← reignTerm, raised], won.moved (keeps term)⟩
      have change := (cluster.node id).step_standing call fits
      have role : ((cluster.node id).step call).state.standing.role = .leader := rules
      have term : ((cluster.node id).step call).state.currentTerm =
          ((cluster.node id).step call).state.standing.term := rfl
      generalize ((cluster.node id).step call).state.standing = standing at change role term
      generalize given : (cluster.node id).votesGranted call = votes at change
      cases change with
      | kept => exact given ▸ stays role term
      | granted candidate free => exact given ▸ stays role term
      | followed other above => cases role
      | voted other candidate above => cases role
      | deposed stands => cases role
      | stood role' others =>
          have peers : (cluster.node id).peers ≠ [] := by
            rw [(safe.identity id).2]
            exact membership.peers_ne_nil member several
          have stands : role' = .candidate := others peers
          rw [stands] at role
          cases role
      | promoted forced =>
          subst forced
          rcases elected rfl with ⟨stands, majority⟩
          refine ⟨(cluster.node id).state.currentTerm, term, ?_⟩
          refine ⟨majority.trans (Finset.card_le_card (voters_moved _ id id _ _)), ?_⟩
          have closed := (safe.honest id).sealed_forceBecomeLeader stands fits
          have stepped : (cluster.node id).step .forceBecomeLeader =
            (cluster.node id).forceBecomeLeader := rfl
          rw [stepped]
          simpa only [Cluster.moved, Function.update_self, List.append_nil] using closed

theorem safeElections_run (membership : Membership) (disks : NodeId → Disk)
    {events : List ClusterEvent}
    (admitted : Execution.EveryStep step (Admitted membership.members) (start membership disks)
      events) {done : List ClusterEvent} (isPrefix : done <+: events) :
    SafeElections membership (Execution.run step (start membership disks) done) := by
  apply Execution.holds_of_everyStep step (fun done =>
    SafeElections membership (Execution.run step (start membership disks) done))
    (safeElections_start membership disks) _ admitted done isPrefix
  intro done event safe condition
  rw [Execution.run_concat]
  exact safe.step condition

omit [DurableHardState Disk] in
/-- Two reigns of one term are those of one leader. -/
theorem SafeElections.leader_unique (safe : SafeElections membership cluster)
    {first second : Reign} (firstReigned : first ∈ cluster.reigns)
    (secondReigned : second ∈ cluster.reigns) (sameTerm : first.term = second.term) :
    first.leader = second.leader := by
  rcases safe.won first firstReigned with ⟨firstMember, firstWins⟩
  rcases safe.won second secondReigned with ⟨secondMember, secondWins⟩
  by_cases several : 1 < membership.members.card
  · rcases firstWins several with ⟨term, firstRaised, firstWon⟩
    rcases secondWins several with ⟨other, secondRaised, secondWon⟩
    have same : other = term := by omega
    rw [same] at secondWon
    exact safe.won_unique firstWon secondWon
  · exact Finset.card_le_one.mp (not_lt.mp several) _ firstMember _ secondMember

/-- In every run in which only elected candidates are made leaders, no term has two
leaders, at whatever moments they lead. -/
theorem one_leader_per_term (membership : Membership) (disks : NodeId → Disk)
    (events : List ClusterEvent)
    (admitted : Execution.EveryStep step (Admitted membership.members) (start membership disks)
      events) :
    let after := Execution.run step (start membership disks)
    ∀ earlier later, earlier <+: events → later <+: events → ∀ first second,
      ((after earlier).node first).state.role = .leader →
      ((after later).node second).state.role = .leader →
      ((after earlier).node first).state.currentTerm =
        ((after later).node second).state.currentTerm →
      first = second := by
  intro after
  have reigned (done : List ClusterEvent) (isPrefix : done <+: events) (id : NodeId)
      (leads : ((after done).node id).state.role = .leader) :
      ∃ reign ∈ (after events).reigns, reign.leader = id ∧
        reign.term = ((after done).node id).state.currentTerm := by
    rcases (safeElections_run membership disks admitted isPrefix).reigning id leads with
      ⟨reign, member, found⟩
    rcases isPrefix with ⟨rest, rfl⟩
    refine ⟨reign, ?_, found⟩
    rw [show after (done ++ rest) = Execution.run step (after done) rest from
      Execution.run_append step _ done rest]
    exact reigns_run rest member
  intro earlier later firstPrefix secondPrefix first second firstLeads secondLeads sameTerm
  rcases reigned earlier firstPrefix first firstLeads with
    ⟨firstReign, firstMember, firstLeader, firstTerm⟩
  rcases reigned later secondPrefix second secondLeads with
    ⟨secondReign, secondMember, secondLeader, secondTerm⟩
  have safe := safeElections_run membership disks admitted (List.prefix_refl events)
  have same := safe.leader_unique firstMember secondMember
    (firstTerm.trans (sameTerm.trans secondTerm.symm))
  exact firstLeader.symm.trans (same.trans secondLeader)

/-- Node 2 votes for node 1, which is made leader, and node 3 follows it. -/
theorem one_leader_per_term_three :
    let membership : Membership :=
      ⟨{1, 2, 3}, fun id => if id = 1 then [(2, ""), (3, "")] else
        if id = 2 then [(1, ""), (3, "")] else [(1, ""), (2, "")], by decide⟩
    let events : List ClusterEvent :=
      [.call 1 .startElection, .call 2 (.requestVote ⟨1, 1, 0, 0⟩),
        .call 1 .forceBecomeLeader, .restart 3, .call 3 (.appendEntries ⟨2, 1, 0, 0, [], 0⟩)]
    let after := Execution.run step (start membership fun _ => MemoryRaftStorage.new)
    ((after events).node 1).state.role = .leader ∧
    ∀ earlier later, earlier <+: events → later <+: events → ∀ first second,
      ((after earlier).node first).state.role = .leader →
      ((after later).node second).state.role = .leader →
      ((after earlier).node first).state.currentTerm =
        ((after later).node second).state.currentTerm →
      first = second :=
  ⟨by decide, one_leader_per_term _ _ _ (by decide)⟩

end Cluster

end FunDB.Raft
