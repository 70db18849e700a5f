import FunDB.Raft.Types
import FunDB.Foundation.OrderStatistic
import Std.Data.ExtTreeMap

/-! # The Raft state machine of one node

The state under the node's lock and its message handlers. The election timer
(`last_heartbeat`, `election_timeout`) is set by the source but read by none of
these functions, so the state leaves it out. -/

namespace FunDB.Raft

open Std

structure RaftState where
  role : RaftRole
  currentTerm : Nat
  votedFor : Option NodeId
  log : List LogEntry
  commitIndex : Nat
  lastApplied : Nat
  /-- Leader only. -/
  nextIndex : ExtTreeMap NodeId Nat
  /-- Leader only. -/
  matchIndex : ExtTreeMap NodeId Nat
  leaderId : Option NodeId

namespace RaftState

def new : RaftState where
  role := .follower
  currentTerm := 0
  votedFor := none
  log := []
  commitIndex := 0
  lastApplied := 0
  nextIndex := ∅
  matchIndex := ∅
  leaderId := none

def lastLogIndex (state : RaftState) : Nat :=
  (state.log.getLast?.map LogEntry.index).getD 0

def lastLogTerm (state : RaftState) : Nat :=
  (state.log.getLast?.map LogEntry.term).getD 0

/-- The term at an index of a log, or 0 for index 0 and for an index that is
not in the log. -/
def termAt (log : List LogEntry) (index : Nat) : Nat :=
  if index = 0 then 0
  else ((log.find? fun entry => entry.index = index).map LogEntry.term).getD 0

def logTermAt (state : RaftState) (index : Nat) : Nat :=
  termAt state.log index

/-- Whether a candidate's log is at least as up to date as this one. -/
def isLogUpToDate (state : RaftState) (lastLogIndex lastLogTerm : Nat) : Bool :=
  if lastLogTerm ≠ state.lastLogTerm then
    decide (lastLogTerm ≥ state.lastLogTerm)
  else
    decide (lastLogIndex ≥ state.lastLogIndex)

/-! ## Role changes -/

def becomeFollower (state : RaftState) (term : Nat) (leaderId : Option NodeId) :
    RaftState :=
  { state with
    role := .follower
    currentTerm := term
    votedFor := none
    leaderId := leaderId }

def becomeCandidate (state : RaftState) : RaftState :=
  { state with
    currentTerm := wrappingSucc state.currentTerm
    role := .candidate
    votedFor := none
    leaderId := none }

def becomeLeader (state : RaftState) (myId : NodeId) (peerIds : List NodeId) :
    RaftState :=
  let nextIdx := wrappingSucc state.lastLogIndex
  { state with
    role := .leader
    leaderId := some myId
    nextIndex := peerIds.foldl (fun map peer => map.insert peer nextIdx) ∅
    matchIndex := peerIds.foldl (fun map peer => map.insert peer 0) ∅ }

/-! ## Commit index -/

/-- The match index of every peer, followed by the leader's own last index. -/
def allMatch (state : RaftState) (peerIds : List NodeId) : List Nat :=
  peerIds.map (fun id => state.matchIndex.getD id 0) ++ [state.lastLogIndex]

/-- Advance the commit index from the match indices. The flag tells whether it
advanced. -/
def advanceCommitIndex (state : RaftState) (_myId : NodeId)
    (peerIds : List NodeId) : Bool × RaftState :=
  let sorted := OrderStatistic.ascending (state.allMatch peerIds)
  let majorityIdx := sorted.length / 2
  -- The list is never empty, so the position exists.
  let newCommit := sorted.getD majorityIdx 0
  if newCommit > state.commitIndex then
    if state.logTermAt newCommit = state.currentTerm then
      (true, { state with commitIndex := newCommit })
    else
      (false, state)
  else
    (false, state)

/-! ## Message handlers

Each returns the response and whether the hard state is to be persisted. -/

/-- Delete from the first conflicting entry on, for each received entry. -/
def truncateConflicts (log : List LogEntry) (entries : List LogEntry) :
    List LogEntry :=
  entries.foldl (fun log entry =>
    let existingTerm := termAt log entry.index
    if existingTerm ≠ 0 ∧ existingTerm ≠ entry.term then
      log.filter fun existing => existing.index < entry.index
    else
      log) log

/-- Push each received entry whose index the log does not have. -/
def appendMissing (log : List LogEntry) (entries : List LogEntry) :
    List LogEntry :=
  entries.foldl (fun log entry =>
    if termAt log entry.index = 0 then log ++ [entry] else log) log

/-- The log after both loops over the received entries. -/
def replicateEntries (log : List LogEntry) (entries : List LogEntry) :
    List LogEntry :=
  appendMissing (truncateConflicts log entries) entries

/-- The role and leader bookkeeping on a request of a current leader. -/
def acceptLeader (state : RaftState) (term : Nat) (leaderId : NodeId) : RaftState :=
  if term > state.currentTerm ∨ state.role = .candidate then
    state.becomeFollower term (some leaderId)
  else
    { state with leaderId := some leaderId }

/-- Whether the log has the entry that the request builds on. -/
def prevMatches (log : List LogEntry) (req : AppendEntriesRequest) : Bool :=
  req.prevLogIndex = 0 || termAt log req.prevLogIndex = req.prevLogTerm

def handleAppendEntries (state : RaftState) (req : AppendEntriesRequest)
    (_myId : NodeId) : (AppendEntriesResponse × Bool) × RaftState :=
  if req.term < state.currentTerm then
    ((⟨state.currentTerm, false⟩, false), state)
  else
    let state := state.acceptLeader req.term req.leaderId
    if !prevMatches state.log req then
      ((⟨state.currentTerm, false⟩, true), state)
    else
      let state := { state with log := replicateEntries state.log req.entries }
      let state :=
        if req.leaderCommit > state.commitIndex then
          { state with commitIndex := min req.leaderCommit state.lastLogIndex }
        else
          state
      ((⟨state.currentTerm, true⟩, true), state)

def handleRequestVote (state : RaftState) (req : RequestVoteRequest) :
    (RequestVoteResponse × Bool) × RaftState :=
  if req.term < state.currentTerm then
    ((⟨state.currentTerm, false⟩, false), state)
  else
    let state :=
      if req.term > state.currentTerm then state.becomeFollower req.term none
      else state
    let canVote := state.votedFor.isNone || state.votedFor == some req.candidateId
    let logOk := state.isLogUpToDate req.lastLogIndex req.lastLogTerm
    if canVote && logOk then
      let state := { state with votedFor := some req.candidateId }
      ((⟨state.currentTerm, true⟩, true), state)
    else
      ((⟨state.currentTerm, false⟩, false), state)

/-! ## Entries that are present already -/

section Present

variable {log entries : List LogEntry}

theorem truncateConflicts_of_sameTerm
    (same : ∀ entry ∈ entries, termAt log entry.index = entry.term) :
    truncateConflicts log entries = log := by
  induction entries with
  | nil => rfl
  | cons entry rest induction =>
      have first := same entry List.mem_cons_self
      rw [truncateConflicts, List.foldl_cons, if_neg (by simp [first])]
      exact induction fun item member => same item (List.mem_cons_of_mem _ member)

theorem appendMissing_of_present
    (present : ∀ entry ∈ entries, termAt log entry.index ≠ 0) :
    appendMissing log entries = log := by
  induction entries with
  | nil => rfl
  | cons entry rest induction =>
      have first := present entry List.mem_cons_self
      rw [appendMissing, List.foldl_cons, if_neg first]
      exact induction fun item member => present item (List.mem_cons_of_mem _ member)

end Present

/-! ## What the handlers do to a state -/

section Handlers

variable (state : RaftState) (term : Nat) (leader : NodeId)

@[simp] theorem acceptLeader_log :
    (state.acceptLeader term leader).log = state.log := by
  rw [acceptLeader]
  split <;> rfl

@[simp] theorem acceptLeader_commitIndex :
    (state.acceptLeader term leader).commitIndex = state.commitIndex := by
  rw [acceptLeader]
  split <;> rfl

theorem acceptLeader_currentTerm (current : state.currentTerm ≤ term) :
    (state.acceptLeader term leader).currentTerm = term := by
  rw [acceptLeader]
  split
  · rfl
  · rename_i unchanged
    simp only [not_or, gt_iff_lt, Nat.not_lt] at unchanged
    exact Nat.le_antisymm current unchanged.1

theorem acceptLeader_votedFor (same : term = state.currentTerm)
    (notCandidate : state.role ≠ .candidate) :
    (state.acceptLeader term leader).votedFor = state.votedFor := by
  rw [acceptLeader, if_neg (by simp [same, notCandidate])]

theorem advanceCommitIndex_cases (myId : NodeId) (peerIds : List NodeId) :
    (∃ commitIndex, state.advanceCommitIndex myId peerIds =
      (true, { state with commitIndex := commitIndex })) ∨
    state.advanceCommitIndex myId peerIds = (false, state) := by
  rw [advanceCommitIndex]
  split
  · split
    · exact .inl ⟨_, rfl⟩
    · exact .inr rfl
  · exact .inr rfl

/-- The accepted state of an `AppendEntries` request. -/
def replicated (req : AppendEntriesRequest) : RaftState :=
  let log := replicateEntries state.log req.entries
  { state.acceptLeader req.term req.leaderId with
    log := log
    commitIndex :=
      if req.leaderCommit > state.commitIndex then
        min req.leaderCommit ((log.getLast?.map LogEntry.index).getD 0)
      else
        state.commitIndex }

/-- The three ways an `AppendEntries` request ends: stale, refused for its
predecessor, accepted. -/
theorem handleAppendEntries_cases (req : AppendEntriesRequest) (myId : NodeId) :
    (req.term < state.currentTerm ∧
      state.handleAppendEntries req myId =
        ((⟨state.currentTerm, false⟩, false), state)) ∨
    (state.currentTerm ≤ req.term ∧ prevMatches state.log req = false ∧
      state.handleAppendEntries req myId =
        ((⟨req.term, false⟩, true), state.acceptLeader req.term req.leaderId)) ∨
    (state.currentTerm ≤ req.term ∧ prevMatches state.log req = true ∧
      state.handleAppendEntries req myId =
        ((⟨req.term, true⟩, true), state.replicated req)) := by
  rcases Nat.lt_or_ge req.term state.currentTerm with stale | current
  · left
    exact ⟨stale, by rw [handleAppendEntries, if_pos stale]⟩
  · right
    have term := state.acceptLeader_currentTerm req.term req.leaderId current
    have notStale : ¬ req.term < state.currentTerm := Nat.not_lt.mpr current
    cases matched : prevMatches state.log req with
    | false =>
        left
        refine ⟨current, rfl, ?_⟩
        simp [handleAppendEntries, notStale, matched, term]
    | true =>
        right
        refine ⟨current, rfl, ?_⟩
        by_cases advances : req.leaderCommit > state.commitIndex <;>
          simp [handleAppendEntries, notStale, matched, term, replicated,
            advances, lastLogIndex]

/-- The state in which a vote request of a current term is judged. -/
def judging (req : RequestVoteRequest) : RaftState :=
  if req.term > state.currentTerm then state.becomeFollower req.term none
  else state

@[simp] theorem judging_log (req : RequestVoteRequest) :
    (state.judging req).log = state.log := by
  rw [judging]
  split <;> rfl

@[simp] theorem judging_commitIndex (req : RequestVoteRequest) :
    (state.judging req).commitIndex = state.commitIndex := by
  rw [judging]
  split <;> rfl

theorem judging_currentTerm {req : RequestVoteRequest}
    (current : state.currentTerm ≤ req.term) :
    (state.judging req).currentTerm = req.term := by
  rw [judging]
  split
  · rfl
  · exact Nat.le_antisymm current (Nat.not_lt.mp ‹_›)

/-- The three ways a vote request ends: stale, granted, refused. Only a granted
vote is persisted. -/
theorem handleRequestVote_cases (req : RequestVoteRequest) :
    (req.term < state.currentTerm ∧
      state.handleRequestVote req = ((⟨state.currentTerm, false⟩, false), state)) ∨
    (state.currentTerm ≤ req.term ∧
      ((state.judging req).votedFor = none ∨
        (state.judging req).votedFor = some req.candidateId) ∧
      state.isLogUpToDate req.lastLogIndex req.lastLogTerm = true ∧
      state.handleRequestVote req =
        ((⟨req.term, true⟩, true),
          { state.judging req with votedFor := some req.candidateId })) ∨
    (state.currentTerm ≤ req.term ∧
      ¬(((state.judging req).votedFor = none ∨
          (state.judging req).votedFor = some req.candidateId) ∧
        state.isLogUpToDate req.lastLogIndex req.lastLogTerm = true) ∧
      state.handleRequestVote req =
        ((⟨req.term, false⟩, false), state.judging req)) := by
  rcases Nat.lt_or_ge req.term state.currentTerm with stale | current
  · left
    exact ⟨stale, by rw [handleRequestVote, if_pos stale]⟩
  · right
    have term := state.judging_currentTerm current
    have notStale : ¬ req.term < state.currentTerm := Nat.not_lt.mpr current
    have judged : (if req.term > state.currentTerm then
        state.becomeFollower req.term none else state) = state.judging req := rfl
    have sameLog : (state.judging req).isLogUpToDate req.lastLogIndex
        req.lastLogTerm = state.isLogUpToDate req.lastLogIndex req.lastLogTerm := by
      simp [isLogUpToDate, lastLogTerm, lastLogIndex]
    by_cases granted : ((state.judging req).votedFor = none ∨
        (state.judging req).votedFor = some req.candidateId) ∧
        state.isLogUpToDate req.lastLogIndex req.lastLogTerm = true
    · left
      refine ⟨current, granted.1, granted.2, ?_⟩
      rw [handleRequestVote, if_neg notStale]
      simp only [judged, sameLog]
      rw [if_pos (by simpa using granted)]
      simp [term]
    · right
      refine ⟨current, granted, ?_⟩
      rw [handleRequestVote, if_neg notStale]
      simp only [judged, sameLog]
      rw [if_neg (by simpa using granted)]
      simp [term]

end Handlers

end RaftState

end FunDB.Raft
