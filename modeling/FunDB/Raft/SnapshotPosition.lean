import FunDB.Raft.Node
import FunDB.Raft.Replication
import Mathlib.Data.Prod.Lex

/-! # The log position of a snapshot

A snapshot that covers the whole log leaves the log empty, and the handlers take
their position from the log alone. -/

namespace FunDB.Raft

/-- The entries of the request follow its predecessor without a gap. -/
def AppendEntriesRequest.Consecutive (req : AppendEntriesRequest) : Prop :=
  ∀ offset, (within : offset < req.entries.length) →
    req.entries[offset].index = req.prevLogIndex + offset + 1

instance (req : AppendEntriesRequest) : Decidable req.Consecutive :=
  inferInstanceAs (Decidable (∀ offset, (_ : offset < req.entries.length) → _))

namespace RaftState

/-! ## An empty log -/

@[simp] theorem termAt_nil (index : Nat) : termAt [] index = 0 := by
  rw [termAt]
  split <;> rfl

theorem truncateConflicts_nil (entries : List LogEntry) :
    truncateConflicts [] entries = [] := by
  induction entries with
  | nil => rfl
  | cons entry rest induction =>
      rw [truncateConflicts, List.foldl_cons, if_neg (by simp)]
      exact induction

/-- Consecutive entries are all missing from a log that ends below them. -/
theorem appendMissing_of_beyond {log : List LogEntry} {bound : Nat}
    (below : ∀ entry ∈ log, entry.index ≤ bound) :
    ∀ {entries : List LogEntry},
      (∀ offset, (within : offset < entries.length) →
        entries[offset].index = bound + offset + 1) →
      appendMissing log entries = log ++ entries := by
  intro entries
  induction entries generalizing log bound with
  | nil => intro _; simp [appendMissing]
  | cons entry rest induction =>
      intro consecutive
      have first : entry.index = bound + 1 := consecutive 0 (by simp)
      have absent : termAt log entry.index = 0 := by
        have noEntry : log.find? (fun existing => existing.index = entry.index) = none := by
          refine List.find?_eq_none.mpr fun existing member => ?_
          have := below existing member
          simp only [decide_eq_true_eq]
          omega
        rw [termAt, noEntry]
        split <;> rfl
      have stillBelow : ∀ existing ∈ log ++ [entry], existing.index ≤ bound + 1 := by
        intro existing member
        rcases List.mem_append.mp member with inLog | isNew
        · exact (below existing inLog).trans (Nat.le_succ _)
        · rw [List.mem_singleton.mp isNew, first]
      have restConsecutive : ∀ offset, (within : offset < rest.length) →
          rest[offset].index = bound + 1 + offset + 1 := by
        intro offset within
        have later := consecutive (offset + 1) (by simpa using within)
        rw [List.getElem_cons_succ] at later
        omega
      rw [appendMissing, List.foldl_cons, if_pos absent]
      have appended := induction stillBelow restConsecutive
      rw [appendMissing] at appended
      rw [appended, List.append_assoc]
      rfl

theorem replicateEntries_nil {req : AppendEntriesRequest} (consecutive : req.Consecutive) :
    replicateEntries [] req.entries = req.entries := by
  rw [replicateEntries, truncateConflicts_nil]
  exact appendMissing_of_beyond (by simp) consecutive

theorem isLogUpToDate_of_empty {state : RaftState} (empty : state.log = [])
    (lastLogIndex lastLogTerm : Nat) :
    state.isLogUpToDate lastLogIndex lastLogTerm = true := by
  by_cases sameTerm : lastLogTerm = 0 <;>
    simp [isLogUpToDate, RaftState.lastLogTerm, RaftState.lastLogIndex, empty, sameTerm]

end RaftState

namespace RaftNode

variable {Disk : Type} [RaftStorage Disk] (node : RaftNode Disk)

/-- Requests of the known leader that build on the position are accepted and
their entries appended. -/
def AppendsAfter (index term : Nat) : Prop :=
  ∀ req : AppendEntriesRequest,
    req.term = node.state.currentTerm → node.state.leaderId = some req.leaderId →
      req.prevLogIndex = index → req.prevLogTerm = term → req.Consecutive →
        (node.handleAppendEntries req).1.success = true ∧
          (node.handleAppendEntries req).2.state.log = node.state.log ++ req.entries

/-- No candidate whose log ends below the position gets a vote. -/
def RefusesBelow (index term : Nat) : Prop :=
  ∀ req : RequestVoteRequest,
    toLex (req.lastLogTerm, req.lastLogIndex) < toLex (term, index) →
      (node.handleRequestVote req).1.voteGranted = false

variable {node}

theorem appendsAfter_iff_of_empty (empty : node.state.log = [])
    {leader : NodeId} (known : node.state.leaderId = some leader) (index term : Nat) :
    node.AppendsAfter index term ↔ index = 0 ∨ term = 0 := by
  have matches_iff (req : AppendEntriesRequest) :
      RaftState.prevMatches node.state.log req = true ↔
        req.prevLogIndex = 0 ∨ req.prevLogTerm = 0 := by
    rw [RaftState.prevMatches, empty, RaftState.termAt_nil, Bool.or_eq_true,
      decide_eq_true_eq, decide_eq_true_eq, eq_comm (a := 0)]
  constructor
  · intro appends
    let heartbeat : AppendEntriesRequest :=
      { term := node.state.currentTerm
        leaderId := leader
        prevLogIndex := index
        prevLogTerm := term
        entries := []
        leaderCommit := 0 }
    have accepted := (appends heartbeat rfl known rfl rfl (fun _ within => by cases within)).1
    rw [handleAppendEntries] at accepted
    rcases node.state.handleAppendEntries_cases heartbeat node.id with
      ⟨stale, _⟩ | ⟨_, _, result⟩ | ⟨_, matched, _⟩
    · exact absurd stale (Nat.lt_irrefl node.state.currentTerm)
    · rw [result] at accepted
      cases accepted
    · exact (matches_iff heartbeat).mp matched
  · intro position req sameTerm _ atIndex atTerm consecutive
    subst atIndex
    subst atTerm
    have matched := (matches_iff req).mpr position
    rw [handleAppendEntries_state, handleAppendEntries]
    rcases node.state.handleAppendEntries_cases req node.id with
      ⟨stale, _⟩ | ⟨_, mismatch, _⟩ | ⟨_, _, result⟩
    · omega
    · rw [matched] at mismatch
      cases mismatch
    · rw [result]
      refine ⟨rfl, ?_⟩
      simp only [RaftState.replicated, empty, List.nil_append]
      exact RaftState.replicateEntries_nil consecutive

/-- An empty log grants its vote to every candidate, so only the lowest position
has no candidate below it. -/
theorem refusesBelow_iff_of_empty (empty : node.state.log = []) (index term : Nat) :
    node.RefusesBelow index term ↔ index = 0 ∧ term = 0 := by
  constructor
  · intro refuses
    by_contra above
    have below : toLex ((0 : Nat), (0 : Nat)) < toLex (term, index) := by
      rw [Prod.Lex.toLex_lt_toLex]
      simp only
      omega
    -- A vote of this term is given again to the candidate that has it.
    let req : RequestVoteRequest :=
      { term := node.state.currentTerm
        candidateId := node.state.votedFor.getD 0
        lastLogIndex := 0
        lastLogTerm := 0 }
    have refused := refuses req below
    have judged : node.state.judging req = node.state := if_neg (Nat.lt_irrefl _)
    rw [handleRequestVote] at refused
    rcases node.state.handleRequestVote_cases req with
      ⟨stale, _⟩ | ⟨_, _, _, result⟩ | ⟨_, unwilling, _⟩
    · exact Nat.lt_irrefl _ stale
    · rw [result] at refused
      cases refused
    · refine unwilling ⟨?_, RaftState.isLogUpToDate_of_empty empty _ _⟩
      rw [judged]
      cases voted : node.state.votedFor with
      | none => exact .inl rfl
      | some candidate => exact .inr (by simp [req, voted])
  · intro lowest req below
    rw [lowest.1, lowest.2, Prod.Lex.toLex_lt_toLex] at below
    simp only at below
    omega

/-- An accepted snapshot that covers the log leaves it empty and its sender the
known leader. -/
theorem handleInstallSnapshot_of_covers {req : InstallSnapshotRequest}
    (current : node.state.currentTerm ≤ req.term)
    (covers : ∀ entry ∈ node.state.log, entry.index ≤ req.lastIncludedIndex) :
    (node.handleInstallSnapshot req).2.state.log = [] ∧
      (node.handleInstallSnapshot req).2.state.leaderId = some req.leaderId := by
  have dropped : node.state.log.filter (fun entry => entry.index > req.lastIncludedIndex) =
      [] := by
    refine List.filter_eq_nil_iff.mpr fun entry member => ?_
    simpa using covers entry member
  rw [handleInstallSnapshot, if_neg (Nat.not_lt.mpr current)]
  by_cases raised : req.term > node.state.currentTerm
  · simp only [raised, if_true, RaftState.becomeFollower, persist_state]
    exact ⟨dropped, trivial⟩
  · simp only [raised, if_false, persist_state]
    exact ⟨dropped, trivial⟩

/-- The position of a snapshot that covers the log counts as the log's position
exactly when it is that of an empty log. -/
theorem snapshot_position_counts_iff (node : RaftNode Disk) (req : InstallSnapshotRequest)
    (current : node.state.currentTerm ≤ req.term)
    (covers : ∀ entry ∈ node.state.log, entry.index ≤ req.lastIncludedIndex) :
    ((node.handleInstallSnapshot req).2.AppendsAfter
          req.lastIncludedIndex req.lastIncludedTerm ∧
        (node.handleInstallSnapshot req).2.RefusesBelow
          req.lastIncludedIndex req.lastIncludedTerm) ↔
      req.lastIncludedIndex = 0 ∧ req.lastIncludedTerm = 0 := by
  have ⟨empty, known⟩ := handleInstallSnapshot_of_covers current covers
  rw [appendsAfter_iff_of_empty empty known, refusesBelow_iff_of_empty empty]
  constructor
  · exact fun both => both.2
  · exact fun lowest => ⟨.inl lowest.1, lowest⟩

theorem snapshot_position_counts_iff_raised :
    ¬ ((makeClusterNode.handleInstallSnapshot ⟨1, 2, 5, 1, []⟩).2.AppendsAfter 5 1 ∧
      (makeClusterNode.handleInstallSnapshot ⟨1, 2, 5, 1, []⟩).2.RefusesBelow 5 1) :=
  mt (snapshot_position_counts_iff makeClusterNode ⟨1, 2, 5, 1, []⟩
    (by decide) (by decide)).mp (by decide)

/-- After a snapshot up to index 5 of term 1, the leader's next entry is refused
and a candidate with an empty log gets the vote. -/
theorem snapshot_position_ignored :
    let installed := (makeClusterNode.handleInstallSnapshot ⟨1, 2, 5, 1, []⟩).2
    let next : AppendEntriesRequest := ⟨1, 2, 5, 1, [⟨6, 1, [60], .normal⟩], 5⟩
    let candidate : RequestVoteRequest := ⟨1, 3, 0, 0⟩
    (∀ entry ∈ makeClusterNode.state.log, entry.index ≤ 5) ∧ next.Consecutive ∧
      installed.state.leaderId = some 2 ∧
      (installed.handleAppendEntries next).1.success = false ∧
      toLex (candidate.lastLogTerm, candidate.lastLogIndex) < toLex (1, 5) ∧
      (installed.handleRequestVote candidate).1.voteGranted = true := by
  decide

end RaftNode

end FunDB.Raft
