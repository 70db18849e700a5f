import FunDB.Raft.Node
import FunDB.Foundation.Execution
import FunDB.Foundation.IndexedLog

/-! # The durable log

A leader's proposals reach the storage, the entries that a follower accepts do
not. So a restart gives the log back as long as every accepted request brings
only entries that the node already holds. -/

namespace FunDB.Raft

open IndexedLog

namespace RaftState

/-- The log has an entry of the same index and term for each of the entries. -/
def HoldsEntries (log entries : List LogEntry) : Prop :=
  ∀ entry ∈ entries, entry.term ≠ 0 ∧ termAt log entry.index = entry.term

instance (log entries : List LogEntry) : Decidable (HoldsEntries log entries) :=
  inferInstanceAs (Decidable (∀ entry ∈ entries, _ ∧ _))

theorem replicateEntries_of_holdsEntries {log entries : List LogEntry}
    (holds : HoldsEntries log entries) : replicateEntries log entries = log := by
  have truncated : truncateConflicts log entries = log :=
    truncateConflicts_of_sameTerm fun entry member => (holds entry member).2
  rw [replicateEntries, truncated]
  apply appendMissing_of_present
  intro entry member
  rcases holds entry member with ⟨positive, same⟩
  rwa [same]

end RaftState

namespace RaftNode

/-- What happens to a node of a cluster: calls of its peers and clients, its
election timeout, a crash with a restart. -/
inductive LogEvent where
  | appendEntries (req : AppendEntriesRequest)
  | requestVote (req : RequestVoteRequest)
  | propose (data : List UInt8)
  | startElection
  | restart

def logStep (node : RaftNode MemoryRaftStorage) : LogEvent → RaftNode MemoryRaftStorage
  | .appendEntries req => (node.handleAppendEntries req).2
  | .requestVote req => (node.handleRequestVote req).2
  | .propose data => (node.propose data).2
  | .startElection => node.startElection.2
  | .restart => node.restart

/-- A restart gives the log back, and the log covers the restored commit index. -/
def SurvivesRestart (node : RaftNode MemoryRaftStorage) : Prop :=
  node.restart.state.log = node.state.log ∧
    ∀ index, 1 ≤ index → index ≤ node.restart.state.commitIndex →
      ∃ entry ∈ node.restart.state.log, entry.index = index

/-- A request that the node accepts brings only entries that it holds, and the index of
a proposal does not wrap. -/
def BringsHeldEntries (node : RaftNode MemoryRaftStorage) : LogEvent → Prop
  | .appendEntries req =>
      node.state.currentTerm ≤ req.term →
        RaftState.prevMatches node.state.log req = true →
          RaftState.HoldsEntries node.state.log req.entries
  | .propose _ => node.state.lastLogIndex + 1 < 2 ^ 64
  | .requestVote _ | .startElection | .restart => True

instance (node : RaftNode MemoryRaftStorage) :
    ∀ event, Decidable (node.BringsHeldEntries event)
  | .appendEntries _ => inferInstanceAs (Decidable (_ → _ → _))
  | .propose _ => inferInstanceAs (Decidable (_ < _))
  | .requestVote _ | .startElection | .restart => inferInstanceAs (Decidable True)

/-- The log in memory is the stored one, without a gap, and covers both commit
indices. -/
structure DurableLog (node : RaftNode MemoryRaftStorage) : Prop where
  stored : node.storage.log = node.state.log
  contiguous : Contiguous LogEntry.index node.state.log
  commitWithin : node.state.commitIndex ≤ node.state.log.length
  savedWithin : node.storage.hardState.commit ≤ node.state.log.length

/-! ## Restarting -/

@[simp] theorem new_commitIndex (id : NodeId) (peers : List (NodeId × PeerAddr))
    (storage : MemoryRaftStorage) :
    (RaftNode.new id peers storage).state.commitIndex = storage.hardState.commit := by
  rw [RaftNode.new]
  simp only [RaftStorage.loadHardState, RaftStorage.getEntries]
  split <;> rfl

theorem new_log (id : NodeId) (peers : List (NodeId × PeerAddr))
    {storage : MemoryRaftStorage}
    (contiguous : Contiguous LogEntry.index storage.log) :
    (RaftNode.new id peers storage).state.log = storage.log := by
  have last : storage.lastIndex = storage.log.length := contiguous.last_index
  have whole : storage.getEntries 1 storage.log.length = storage.log := by
    apply List.filter_eq_self.mpr
    intro entry member
    have bound := contiguous.index_le_length member
    have positive := (contiguous.getElem?_of_mem member).1
    simp
    omega
  rw [RaftNode.new]
  simp only [RaftStorage.loadHardState, RaftStorage.getEntries, RaftStorage.lastIndex,
    last, whole]
  split
  · rfl
  · rename_i empty
    exact (List.length_eq_zero_iff.mp (Nat.eq_zero_of_not_pos empty)).symm

namespace DurableLog

variable {node : RaftNode MemoryRaftStorage}

theorem restart_log (durable : node.DurableLog) :
    node.restart.state.log = node.state.log := by
  rw [restart, new_log _ _ (by rw [durable.stored]; exact durable.contiguous),
    durable.stored]

theorem survivesRestart (durable : node.DurableLog) : node.SurvivesRestart := by
  refine ⟨durable.restart_log, fun index positive committed => ?_⟩
  have within : index - 1 < node.state.log.length := by
    have saved := durable.savedWithin
    rw [restart, new_commitIndex] at committed
    omega
  rw [durable.restart_log]
  refine ⟨_, List.getElem_mem within, ?_⟩
  rw [durable.contiguous.index_getElem within]
  omega

/-! ## The steps -/

theorem restart (durable : node.DurableLog) : node.restart.DurableLog where
  stored := durable.stored.trans durable.restart_log.symm
  contiguous := by rw [durable.restart_log]; exact durable.contiguous
  commitWithin := by
    rw [durable.restart_log]
    simpa [RaftNode.restart] using durable.savedWithin
  savedWithin := by rw [durable.restart_log]; exact durable.savedWithin

/-- A step that touches neither log keeps it durable, whether or not it saves
the hard state. -/
theorem of_sameLog {after : RaftNode MemoryRaftStorage} (durable : node.DurableLog)
    (sameLog : after.state.log = node.state.log)
    (sameStored : after.storage.log = node.storage.log)
    (commitWithin : after.state.commitIndex ≤ node.state.log.length)
    (saved : after.storage.hardState = node.storage.hardState ∨
      after.storage.hardState.commit = after.state.commitIndex) :
    after.DurableLog where
  stored := by rw [sameStored, durable.stored, sameLog]
  contiguous := by rw [sameLog]; exact durable.contiguous
  commitWithin := by rw [sameLog]; exact commitWithin
  savedWithin := by
    rw [sameLog]
    rcases saved with unsaved | saved
    · rw [unsaved]; exact durable.savedWithin
    · rw [saved]; exact commitWithin

theorem handleAppendEntries (durable : node.DurableLog) (req : AppendEntriesRequest)
    (brings : node.BringsHeldEntries (.appendEntries req)) :
    (node.handleAppendEntries req).2.DurableLog := by
  rw [RaftNode.handleAppendEntries]
  rcases node.state.handleAppendEntries_cases req node.id with
    ⟨_, result⟩ | ⟨_, _, result⟩ | ⟨current, matched, result⟩ <;> rw [result]
  · exact durable
  · exact durable.of_sameLog (by simp) rfl (by simpa using durable.commitWithin) (.inr rfl)
  · have unchanged := RaftState.replicateEntries_of_holdsEntries (brings current matched)
    have last := durable.contiguous.last_index
    have commitWithin : (node.state.replicated req).commitIndex ≤
        node.state.log.length := by
      have within := durable.commitWithin
      simp only [RaftState.replicated, unchanged, last]
      split <;> omega
    exact durable.of_sameLog unchanged rfl commitWithin (.inr rfl)

theorem handleRequestVote (durable : node.DurableLog) (req : RequestVoteRequest) :
    (node.handleRequestVote req).2.DurableLog := by
  rw [RaftNode.handleRequestVote]
  rcases node.state.handleRequestVote_cases req with
    ⟨_, result⟩ | ⟨_, _, _, result⟩ | ⟨_, _, result⟩ <;> rw [result]
  · exact durable
  · exact durable.of_sameLog (by simp) rfl (by simpa using durable.commitWithin)
      (.inr rfl)
  · exact durable.of_sameLog (by simp) rfl (by simpa using durable.commitWithin)
      (.inl rfl)

theorem startElection (durable : node.DurableLog) :
    node.startElection.2.DurableLog := by
  rw [RaftNode.startElection]
  dsimp only
  split_ifs <;> exact durable.of_sameLog rfl rfl durable.commitWithin (.inr rfl)

/-- The append of a proposal goes to both logs alike. -/
theorem proposeStore (durable : node.DurableLog) (data : List UInt8)
    (fits : node.state.lastLogIndex + 1 < 2 ^ 64) :
    ((node.proposeAppend data).2.proposeStore (node.proposeAppend data).1).2.DurableLog ∧
      (node.proposeAppend data).1.index = node.state.log.length + 1 := by
  have next : (node.proposeAppend data).1.index = node.state.log.length + 1 := by
    rw [proposeAppend, wrappingSucc_of_lt fits, RaftState.lastLogIndex,
      durable.contiguous.last_index]
  refine ⟨?_, next⟩
  have pushed : MemoryRaftStorage.appendEntry node.storage.log (node.proposeAppend data).1 =
      node.storage.log ++ [(node.proposeAppend data).1] := by
    apply MemoryRaftStorage.appendEntry_of_lt
    intro existing member
    rw [durable.stored] at member
    have bound := durable.contiguous.index_le_length member
    omega
  have longer : ((node.proposeAppend data).2.proposeStore
      (node.proposeAppend data).1).2.state.log.length = node.state.log.length + 1 := by
    simp [RaftNode.proposeStore, proposeAppend]
  have commitWithin := durable.commitWithin
  have savedWithin := durable.savedWithin
  refine
    { stored := ?_
      contiguous := durable.contiguous.concat next
      commitWithin := ?_
      savedWithin := ?_ }
  · exact pushed.trans (by rw [durable.stored]; rfl)
  · exact le_trans (b := node.state.log.length) commitWithin (by omega)
  · exact le_trans (b := node.state.log.length) savedWithin (by omega)

theorem propose (durable : node.DurableLog) (data : List UInt8)
    (fits : node.state.lastLogIndex + 1 < 2 ^ 64) : (node.propose data).2.DurableLog := by
  rcases durable.proposeStore data fits with ⟨stored, next⟩
  have committed : (node.proposeAppend data).1.index ≤
      ((node.proposeAppend data).2.proposeStore
        (node.proposeAppend data).1).2.state.log.length := by
    rw [next]
    simp [RaftNode.proposeStore, proposeAppend]
  rcases node.propose_cases data with result | result | result <;> rw [result]
  · exact durable
  · exact stored
  · rcases ((node.proposeAppend data).2.proposeStore
      (node.proposeAppend data).1).2.proposeCommit_cases (node.proposeAppend data).1 with
      result | result <;> rw [result]
    · exact stored
    · exact stored.of_sameLog rfl rfl committed (.inr rfl)

theorem logStep (durable : node.DurableLog) {event : LogEvent}
    (brings : node.BringsHeldEntries event) : (node.logStep event).DurableLog := by
  cases event with
  | appendEntries req => exact durable.handleAppendEntries req brings
  | requestVote req => exact durable.handleRequestVote req
  | propose data => exact durable.propose data brings
  | startElection => exact durable.startElection
  | restart => exact durable.restart

end DurableLog

/-- In a run that starts on a fresh storage and in which every accepted request
brings held entries only, every state reached survives a restart. -/
theorem log_survives_restart (id : NodeId) (peers : List (NodeId × PeerAddr))
    (events : List LogEvent)
    (brings : Execution.EveryStep logStep BringsHeldEntries
      (RaftNode.new id peers MemoryRaftStorage.new) events) :
    ∀ done, done <+: events →
      (Execution.run logStep (RaftNode.new id peers MemoryRaftStorage.new)
        done).SurvivesRestart := by
  let start := RaftNode.new id peers MemoryRaftStorage.new
  have initial : start.DurableLog :=
    { stored := rfl
      contiguous := rfl
      commitWithin := le_rfl
      savedWithin := le_rfl }
  have preserved (done : List LogEvent) (event : LogEvent)
      (durable : (Execution.run logStep start done).DurableLog)
      (bringsHeld : (Execution.run logStep start done).BringsHeldEntries event) :
      (Execution.run logStep start (done ++ [event])).DurableLog := by
    rw [Execution.run_concat]
    exact durable.logStep bringsHeld
  intro done isPrefix
  exact (Execution.holds_of_everyStep logStep
    (fun done => (Execution.run logStep start done).DurableLog)
    initial preserved brings done isPrefix).survivesRestart

theorem log_survives_restart_proposing :
    (Execution.run logStep (RaftNode.new 1 [] MemoryRaftStorage.new)
      [.startElection, .propose [7], .requestVote ⟨2, 2, 1, 1⟩,
        .appendEntries ⟨2, 2, 0, 0, [⟨1, 1, [7], .normal⟩], 5⟩, .restart]).SurvivesRestart :=
  log_survives_restart 1 [] _ (by decide) _ (List.prefix_refl _)

/-- A follower acknowledges an entry and has it no more after a restart. -/
theorem acknowledged_entry_lost :
    let events : List LogEvent :=
      [.appendEntries ⟨1, 2, 0, 0, [⟨1, 1, [7], .normal⟩], 1⟩]
    (makeClusterNode.handleAppendEntries
        ⟨1, 2, 0, 0, [⟨1, 1, [7], .normal⟩], 1⟩).1 = ⟨1, true⟩ ∧
      ¬ (Execution.run logStep makeClusterNode events).SurvivesRestart ∧
      (Execution.run logStep makeClusterNode events).restart.state.log = [] ∧
      (Execution.run logStep makeClusterNode events).restart.state.commitIndex = 1 := by
  refine ⟨by decide, ?_, by decide, by decide⟩
  intro durable
  exact absurd durable.1 (by decide)

end RaftNode

end FunDB.Raft
