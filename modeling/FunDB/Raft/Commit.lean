import FunDB.Raft.State

/-! # Committing by majority

The leader commits the value at the middle position of the sorted match
indices. In a cluster of even size that position asks for half of the nodes
only. -/

namespace FunDB.Raft.RaftState

open OrderStatistic

/-- The index that `advanceCommitIndex` considers. -/
def quorumIndex (state : RaftState) (peerIds : List NodeId) : Nat :=
  (ascending (state.allMatch peerIds)).getD
    ((ascending (state.allMatch peerIds)).length / 2) 0

/-- How many nodes of the cluster have an index of at least `index`. -/
def nodesReaching (state : RaftState) (peerIds : List NodeId) (index : Nat) : Nat :=
  reaching (state.allMatch peerIds) index

/-- How many nodes of the cluster have an index above `index`. -/
def nodesPassing (state : RaftState) (peerIds : List NodeId) (index : Nat) : Nat :=
  passing (state.allMatch peerIds) index

/-- The leader never lowers its commit index, and raises it only to an entry of
its own term that more than half of the cluster has. -/
def CommitsByMajority (state : RaftState) (myId : NodeId)
    (peerIds : List NodeId) : Prop :=
  let commitIndex := (state.advanceCommitIndex myId peerIds).2.commitIndex
  state.commitIndex ≤ commitIndex ∧
    (state.commitIndex < commitIndex →
      peerIds.length + 1 < 2 * state.nodesReaching peerIds commitIndex ∧
        ∃ entry, state.log.find? (fun entry => entry.index = commitIndex) = some entry ∧
          entry.term = state.currentTerm)

/-- No index that could be committed is reached by exactly half of the nodes;
and in term 0, which is also the term reported for an absent entry, the middle
index is in the log. -/
def NoHalfQuorum (state : RaftState) (peerIds : List NodeId) : Prop :=
  ∀ candidate ∈ state.allMatch peerIds, state.commitIndex < candidate →
    state.logTermAt candidate = state.currentTerm →
      2 * state.nodesReaching peerIds candidate ≠ peerIds.length + 1 ∧
        (state.currentTerm = 0 →
          peerIds.length + 1 < 2 * state.nodesReaching peerIds candidate →
          2 * state.nodesPassing peerIds candidate < peerIds.length + 1 →
            (state.log.find? fun entry => entry.index = candidate).isSome)

section

variable (state : RaftState) (myId : NodeId) (peerIds : List NodeId)

@[simp] theorem length_allMatch :
    (state.allMatch peerIds).length = peerIds.length + 1 := by
  simp [allMatch]

theorem advanceCommitIndex_commitIndex :
    (state.advanceCommitIndex myId peerIds).2.commitIndex =
      if state.commitIndex < state.quorumIndex peerIds ∧
          state.logTermAt (state.quorumIndex peerIds) = state.currentTerm then
        state.quorumIndex peerIds
      else
        state.commitIndex := by
  have considered : (ascending (state.allMatch peerIds)).getD
      ((ascending (state.allMatch peerIds)).length / 2) 0 =
        state.quorumIndex peerIds := rfl
  rw [advanceCommitIndex]
  simp only [considered, gt_iff_lt]
  by_cases above : state.commitIndex < state.quorumIndex peerIds <;>
    by_cases current : state.logTermAt (state.quorumIndex peerIds) =
      state.currentTerm <;>
    simp [above, current]

/-- The considered index by counting: half of the nodes, rounded up, reach it,
and fewer pass it. -/
theorem eq_quorumIndex_iff (index : Nat) :
    index = state.quorumIndex peerIds ↔
      peerIds.length + 1 ≤ 2 * state.nodesReaching peerIds index ∧
        2 * state.nodesPassing peerIds index < peerIds.length + 1 := by
  have within : (peerIds.length + 1) / 2 < (state.allMatch peerIds).length := by
    rw [length_allMatch]
    omega
  have located := ascending_getElem?_iff within index
  rw [length_allMatch] at located
  have considered : (ascending (state.allMatch peerIds))[(peerIds.length + 1) / 2]? =
      some (state.quorumIndex peerIds) := by
    rw [quorumIndex, length_ascending, length_allMatch, List.getD_eq_getElem?_getD]
    rw [List.getElem?_eq_getElem (by rw [length_ascending]; exact within)]
    rfl
  rw [considered] at located
  simp only [nodesReaching, nodesPassing]
  constructor
  · intro equal
    have counts := located.mp (by rw [equal])
    omega
  · intro counts
    have same := located.mpr (by omega)
    exact (Option.some.inj same).symm

theorem quorumIndex_mem : state.quorumIndex peerIds ∈ state.allMatch peerIds := by
  have positive : 0 < (ascending (state.allMatch peerIds)).length := by
    rw [length_ascending, length_allMatch]
    omega
  have within : (ascending (state.allMatch peerIds)).length / 2 <
      (ascending (state.allMatch peerIds)).length := by omega
  rw [quorumIndex, List.getD_eq_getElem?_getD, List.getElem?_eq_getElem within]
  exact (ascending_perm _).mem_iff.mp (List.getElem_mem within)

/-- Above index 0, a term other than 0 comes from an entry of the log. -/
theorem exists_entry_of_logTermAt {index : Nat} (positive : 0 < index)
    (stored : state.logTermAt index ≠ 0 ∨
      (state.log.find? fun entry => entry.index = index).isSome) :
    ∃ entry, state.log.find? (fun entry => entry.index = index) = some entry ∧
      entry.term = state.logTermAt index := by
  cases found : state.log.find? fun entry => entry.index = index with
  | none =>
      simp [logTermAt, termAt, found] at stored
  | some entry =>
      exact ⟨entry, rfl, by simp [logTermAt, termAt, found, Nat.ne_of_gt positive]⟩

/-- The leader commits by majority exactly when no committable index is reached
by just half of the cluster. -/
theorem commitsByMajority_iff_noHalfQuorum :
    state.CommitsByMajority myId peerIds ↔ state.NoHalfQuorum peerIds := by
  rw [CommitsByMajority, advanceCommitIndex_commitIndex]
  constructor
  · intro both candidate member above current
    rcases both with ⟨_, majority⟩
    -- A candidate at the middle position is what the leader commits.
    have committed (middle : candidate = state.quorumIndex peerIds) :
        peerIds.length + 1 < 2 * state.nodesReaching peerIds candidate ∧
          ∃ entry, state.log.find? (fun entry => entry.index = candidate) =
            some entry ∧ entry.term = state.currentTerm := by
      rw [if_pos ⟨by rw [← middle]; exact above, by rw [← middle]; exact current⟩,
        ← middle] at majority
      exact majority above
    refine ⟨?_, ?_⟩
    · intro half
      have fewerPass : state.nodesPassing peerIds candidate <
          state.nodesReaching peerIds candidate := passing_lt_reaching member
      have middle := (state.eq_quorumIndex_iff peerIds candidate).mpr
        ⟨by omega, by omega⟩
      have reached := (committed middle).1
      omega
    · intro _ reached passed
      have middle := (state.eq_quorumIndex_iff peerIds candidate).mpr
        ⟨by omega, passed⟩
      rcases (committed middle).2 with ⟨entry, found, _⟩
      rw [found]
      rfl
  · intro noHalf
    split
    · rename_i raised
      refine ⟨raised.1.le, fun _ => ?_⟩
      have counts := (state.eq_quorumIndex_iff peerIds _).mp rfl
      rcases noHalf _ (state.quorumIndex_mem peerIds) raised.1 raised.2 with
        ⟨notHalf, present⟩
      have reached : peerIds.length + 1 <
          2 * state.nodesReaching peerIds (state.quorumIndex peerIds) := by omega
      refine ⟨reached, ?_⟩
      have stored : state.logTermAt (state.quorumIndex peerIds) ≠ 0 ∨
          (state.log.find? fun entry =>
            entry.index = state.quorumIndex peerIds).isSome := by
        by_cases zero : state.currentTerm = 0
        · exact .inr (present zero reached counts.2)
        · exact .inl (by rw [raised.2]; exact zero)
      rcases state.exists_entry_of_logTermAt (by omega) stored with
        ⟨entry, found, term⟩
      exact ⟨entry, found, term.trans raised.2⟩
    · exact ⟨le_rfl, fun impossible => absurd impossible (lt_irrefl _)⟩

end

/-- The leader of a cluster of two, with an entry that the other node has not
acknowledged. -/
def unacknowledged : RaftState :=
  { RaftState.new with
    role := .leader
    currentTerm := 1
    log := [⟨1, 1, [], .normal⟩]
    matchIndex := (∅ : Std.ExtTreeMap NodeId Nat).insert 2 0 }

/-- In a cluster of two the leader commits an entry that it alone has. -/
theorem commits_unacknowledged_entry :
    ¬ unacknowledged.CommitsByMajority 1 [2] := by
  intro byMajority
  have majority : 2 < 2 * unacknowledged.nodesReaching [2] 1 :=
    (byMajority.2 (by decide)).1
  have onlyLeader : unacknowledged.nodesReaching [2] 1 = 1 := by decide
  omega

end FunDB.Raft.RaftState
