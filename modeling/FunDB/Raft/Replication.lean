import FunDB.Raft.State
import FunDB.Foundation.IndexedLog

/-! # Log replication

What the two loops of `handle_append_entries` make of a follower's log, for a
request taken from the log of a leader that matches it. -/

namespace FunDB.Raft

open IndexedLog

/-- A gapless log from index 1 with terms from 1. -/
structure WellFormedLog (log : List LogEntry) : Prop where
  contiguous : Contiguous LogEntry.index log
  positiveTerms : ∀ entry ∈ log, 1 ≤ entry.term

instance (log : List LogEntry) : Decidable (WellFormedLog log) :=
  decidable_of_iff
    (Contiguous LogEntry.index log ∧ ∀ entry ∈ log, 1 ≤ entry.term)
    ⟨fun both => ⟨both.1, both.2⟩, fun log => ⟨log.contiguous, log.positiveTerms⟩⟩

/-- Entries of one index and term have equal logs up to them. -/
abbrev LogMatching (left right : List LogEntry) : Prop :=
  Matching LogEntry.index LogEntry.term left right

namespace AppendEntriesRequest

def lastIndex (req : AppendEntriesRequest) : Nat :=
  req.prevLogIndex + req.entries.length

/-- The request is taken from a leader's log: its predecessor is an entry of the
log or index 0, its entries are the next ones. -/
structure TakenFrom (req : AppendEntriesRequest) (leader : List LogEntry) :
    Prop where
  prevWithin : req.prevLogIndex ≤ leader.length
  prevTerm : 0 < req.prevLogIndex →
    req.prevLogTerm = RaftState.termAt leader req.prevLogIndex
  consecutive : req.entries =
    (leader.drop req.prevLogIndex).take req.entries.length

instance (req : AppendEntriesRequest) (leader : List LogEntry) :
    Decidable (req.TakenFrom leader) :=
  decidable_of_iff
    (req.prevLogIndex ≤ leader.length ∧
      (0 < req.prevLogIndex →
        req.prevLogTerm = RaftState.termAt leader req.prevLogIndex) ∧
      req.entries = (leader.drop req.prevLogIndex).take req.entries.length)
    ⟨fun all => ⟨all.1, all.2.1, all.2.2⟩,
      fun taken => ⟨taken.prevWithin, taken.prevTerm, taken.consecutive⟩⟩

theorem TakenFrom.lastIndex_le {req : AppendEntriesRequest}
    {leader : List LogEntry} (taken : req.TakenFrom leader) :
    req.lastIndex ≤ leader.length := by
  have length := congrArg List.length taken.consecutive
  rw [List.length_take, List.length_drop] at length
  have within := taken.prevWithin
  rw [lastIndex]
  omega

end AppendEntriesRequest

/-- The entries of a request are the leader's, up to its last index. -/
theorem AppendEntriesRequest.TakenFrom.entry_of_mem {req : AppendEntriesRequest}
    {leader : List LogEntry} (taken : req.TakenFrom leader)
    (wellFormed : WellFormedLog leader) {entry : LogEntry}
    (member : entry ∈ req.entries) :
    entry ∈ leader ∧ entry.index ≤ req.lastIndex := by
  rcases List.mem_iff_getElem?.mp member with ⟨offset, here⟩
  have within := (List.getElem?_eq_some_iff.mp here).1
  rw [taken.consecutive, List.getElem?_take, if_pos within,
    List.getElem?_drop] at here
  refine ⟨List.mem_of_getElem? here, ?_⟩
  rw [wellFormed.contiguous.index_of_getElem? here, AppendEntriesRequest.lastIndex]
  omega

namespace WellFormedLog

variable {log : List LogEntry}

theorem take (wellFormed : WellFormedLog log) (count : Nat) :
    WellFormedLog (log.take count) where
  contiguous := wellFormed.contiguous.take count
  positiveTerms entry member :=
    wellFormed.positiveTerms entry (List.mem_of_mem_take member)

theorem termAt_succ (wellFormed : WellFormedLog log) (position : Nat) :
    RaftState.termAt log (position + 1) =
      (log[position]?.map LogEntry.term).getD 0 := by
  rw [RaftState.termAt, if_neg (Nat.succ_ne_zero position),
    wellFormed.contiguous.find?_index, if_neg (Nat.succ_ne_zero position)]
  rfl

theorem termAt_of_getElem? (wellFormed : WellFormedLog log) {position : Nat}
    {entry : LogEntry} (here : log[position]? = some entry) :
    RaftState.termAt log (position + 1) = entry.term := by
  rw [wellFormed.termAt_succ, here]
  rfl

/-- Term 0 stands for an index beyond the log. -/
theorem termAt_succ_eq_zero_iff (wellFormed : WellFormedLog log) (position : Nat) :
    RaftState.termAt log (position + 1) = 0 ↔ log.length ≤ position := by
  rw [wellFormed.termAt_succ]
  cases here : log[position]? with
  | none => simpa using here
  | some entry =>
      have within := (List.getElem?_eq_some_iff.mp here).1
      have positive := wellFormed.positiveTerms entry (List.mem_of_getElem? here)
      simp only [Option.map_some, Option.getD_some]
      omega

end WellFormedLog

namespace RaftState

variable {log leader : List LogEntry}

/-! ## The two loops -/

section Loops

variable (logWellFormed : WellFormedLog log) (leaderWellFormed : WellFormedLog leader)

private theorem take_succ_window {prev count : Nat} {entry : LogEntry}
    (here : leader[prev + count]? = some entry) :
    (leader.drop prev).take (count + 1) = (leader.drop prev).take count ++ [entry] := by
  rw [List.take_add_one, List.getElem?_drop, here]
  rfl

include logWellFormed leaderWellFormed in
/-- The truncating loop leaves a log that agrees with the leader as far as it
goes, and otherwise cuts it down to a prefix of the leader's log. -/
theorem truncateConflicts_spec (matching : LogMatching log leader) {prev : Nat}
    (agree : log.take prev = leader.take prev) :
    ∀ count, prev + count ≤ leader.length →
      let result := truncateConflicts log ((leader.drop prev).take count)
      (log.take (prev + count) <+: leader ∧ result = log) ∨
        (¬ log.take (prev + count) <+: leader ∧
          ∃ kept, prev ≤ kept ∧ kept < prev + count ∧ result = leader.take kept) := by
  intro count
  induction count with
  | zero =>
      intro _
      left
      exact ⟨by rw [Nat.add_zero, agree]; exact List.take_prefix _ _, rfl⟩
  | succ count induction =>
      intro bound
      have within : prev + count < leader.length := by omega
      have here := List.getElem?_eq_getElem within
      have number := leaderWellFormed.contiguous.index_of_getElem? here
      have shorter : log.take (prev + count) <+: log.take (prev + (count + 1)) :=
        List.take_prefix_take_left (by omega)
      simp only [take_succ_window here, truncateConflicts, List.foldl_append,
        List.foldl_cons, List.foldl_nil]
      rcases induction (by omega) with
        ⟨agreeing, unchanged⟩ | ⟨conflict, kept, above, below, truncated⟩
      · rw [truncateConflicts] at unchanged
        rw [unchanged, number]
        cases own : log[prev + count]? with
        | none =>
            -- The log ends before this index.
            have short : log.length ≤ prev + count := by simpa using own
            have absent := (logWellFormed.termAt_succ_eq_zero_iff _).mpr short
            left
            rw [List.take_of_length_le short] at agreeing
            rw [List.take_of_length_le (by omega)]
            exact ⟨agreeing, by simp [absent]⟩
        | some existing =>
            have ownWithin := (List.getElem?_eq_some_iff.mp own).1
            have positive := logWellFormed.positiveTerms existing
              (List.mem_of_getElem? own)
            rw [logWellFormed.termAt_of_getElem? own]
            by_cases sameTerm : existing.term = leader[prev + count].term
            · left
              have equal := matching.take_eq logWellFormed.contiguous
                leaderWellFormed.contiguous own here sameTerm
              rw [show prev + (count + 1) = prev + count + 1 by omega, equal]
              exact ⟨List.take_prefix _ _, by simp [sameTerm]⟩
            · right
              have cut : log.take (prev + count) = leader.take (prev + count) := by
                have length := List.length_take_of_le (l := log) ownWithin.le
                rw [List.prefix_iff_eq_take.mp agreeing, length]
              refine ⟨?_, prev + count, by omega, by omega, ?_⟩
              · intro isPrefix
                have same := isPrefix.getElem (i := prev + count)
                  (by rw [List.length_take]; omega)
                rw [List.getElem_take] at same
                rw [List.getElem?_eq_getElem ownWithin] at own
                exact sameTerm (by rw [← Option.some.inj own, same])
              · rw [if_pos ⟨by omega, sameTerm⟩, logWellFormed.contiguous.filter_lt,
                  Nat.add_sub_cancel, cut]
      · right
        rw [truncateConflicts] at truncated
        rw [truncated, number]
        have absent := ((leaderWellFormed.take kept).termAt_succ_eq_zero_iff
          (prev + count)).mpr (by rw [List.length_take]; omega)
        exact ⟨fun isPrefix => conflict (shorter.trans isPrefix), kept, above,
          by omega, by simp [absent]⟩

include leaderWellFormed in
/-- The appending loop extends a prefix of the leader's log to cover the
entries. -/
theorem appendMissing_take {prev kept : Nat} (above : prev ≤ kept) :
    ∀ count, prev + count ≤ leader.length →
      appendMissing (leader.take kept) ((leader.drop prev).take count) =
        leader.take (max kept (prev + count)) := by
  intro count
  induction count with
  | zero =>
      intro _
      rw [Nat.add_zero, Nat.max_eq_left above]
      rfl
  | succ count induction =>
      intro bound
      have within : prev + count < leader.length := by omega
      have here := List.getElem?_eq_getElem within
      have number := leaderWellFormed.contiguous.index_of_getElem? here
      have soFar := induction (by omega)
      rw [appendMissing] at soFar
      rw [take_succ_window here, appendMissing, List.foldl_append, soFar]
      simp only [List.foldl_cons, List.foldl_nil, number]
      rcases Nat.lt_or_ge (prev + count) kept with covered | reached
      · have present := mt ((leaderWellFormed.take (max kept (prev + count))).termAt_succ_eq_zero_iff
          (prev + count)).mp (by rw [List.length_take]; omega)
        rw [if_neg present]
        congr 1
        omega
      · have absent := ((leaderWellFormed.take (max kept (prev + count))).termAt_succ_eq_zero_iff
          (prev + count)).mpr (by rw [List.length_take]; omega)
        rw [if_pos absent, Nat.max_eq_right reached,
          Nat.max_eq_right (by omega : kept ≤ prev + (count + 1)),
          show prev + (count + 1) = prev + count + 1 by omega, List.take_add_one, here]
        rfl

include logWellFormed leaderWellFormed in
private theorem replicate_window (matching : LogMatching log leader)
    {prev count : Nat} (agree : log.take prev = leader.take prev)
    (bound : prev + count ≤ leader.length) :
    replicateEntries log ((leader.drop prev).take count) =
      if log.take (prev + count) = leader.take (prev + count) then log
      else leader.take (prev + count) := by
  rw [replicateEntries]
  rcases truncateConflicts_spec logWellFormed leaderWellFormed matching agree
      count bound with ⟨agreeing, unchanged⟩ | ⟨conflict, kept, above, below, cut⟩
  · rw [unchanged]
    rcases Nat.lt_or_ge log.length (prev + count) with short | long
    · -- The log is a proper prefix of what the request brings.
      rw [List.take_of_length_le short.le] at agreeing
      have own := List.prefix_iff_eq_take.mp agreeing
      have prevBelow : prev ≤ log.length := by
        have lengths := congrArg List.length agree
        simp only [List.length_take] at lengths
        omega
      have different : log.take (prev + count) ≠ leader.take (prev + count) := by
        intro same
        have lengths := congrArg List.length same
        simp only [List.length_take] at lengths
        omega
      rw [if_neg different]
      conv_lhs => rw [own]
      rw [appendMissing_take leaderWellFormed prevBelow _ bound,
        Nat.max_eq_right short.le]
    · have length := List.length_take_of_le (l := log) long
      have same := List.prefix_iff_eq_take.mp agreeing
      rw [length] at same
      rw [if_pos same]
      apply appendMissing_of_present
      intro entry member
      rcases List.mem_iff_getElem?.mp member with ⟨offset, here⟩
      have offsetBound := (List.getElem?_eq_some_iff.mp here).1
      rw [List.length_take] at offsetBound
      rw [List.getElem?_take, if_pos (by omega), List.getElem?_drop] at here
      rw [leaderWellFormed.contiguous.index_of_getElem? here]
      exact mt (logWellFormed.termAt_succ_eq_zero_iff _).mp (by omega)
  · have different : log.take (prev + count) ≠ leader.take (prev + count) := by
      intro same
      exact conflict (by rw [same]; exact List.take_prefix _ _)
    rw [cut, if_neg different, appendMissing_take leaderWellFormed above _ bound,
      Nat.max_eq_right below.le]

include logWellFormed leaderWellFormed in
/-- Both loops: a log that has all the entries stays, any other becomes the
leader's log up to the last of them. -/
theorem replicateEntries_spec (matching : LogMatching log leader)
    {req : AppendEntriesRequest} (taken : req.TakenFrom leader)
    (agree : log.take req.prevLogIndex = leader.take req.prevLogIndex) :
    replicateEntries log req.entries =
      if log.take req.lastIndex = leader.take req.lastIndex then log
      else leader.take req.lastIndex := by
  conv_lhs => rw [taken.consecutive]
  exact replicate_window logWellFormed leaderWellFormed matching agree
    taken.lastIndex_le

/-- A passed predecessor check makes the terms at the predecessor equal. -/
theorem termAt_eq_of_prevMatches {req : AppendEntriesRequest} (taken : req.TakenFrom leader)
    (matched : prevMatches log req = true) (positive : 0 < req.prevLogIndex) :
    termAt log req.prevLogIndex = termAt leader req.prevLogIndex := by
  rw [prevMatches, taken.prevTerm positive] at matched
  simpa [Nat.ne_of_gt positive] using matched

include logWellFormed leaderWellFormed in
/-- A passed predecessor check makes the logs equal up to the predecessor. -/
theorem take_eq_of_prevMatches (matching : LogMatching log leader)
    {req : AppendEntriesRequest} (taken : req.TakenFrom leader)
    (matched : prevMatches log req = true) :
    log.take req.prevLogIndex = leader.take req.prevLogIndex := by
  rcases Nat.eq_zero_or_pos req.prevLogIndex with zero | positive
  · rw [zero, List.take_zero, List.take_zero]
  · rcases Nat.exists_eq_succ_of_ne_zero (Nat.ne_of_gt positive) with ⟨position, shape⟩
    have within : position < leader.length := by
      have := taken.prevWithin
      omega
    have here := List.getElem?_eq_getElem within
    have terms := termAt_eq_of_prevMatches taken matched positive
    rw [shape, Nat.succ_eq_add_one] at terms
    rw [leaderWellFormed.termAt_of_getElem? here] at terms
    have leaderPositive := leaderWellFormed.positiveTerms _ (List.getElem_mem within)
    have notAbsent := mt (logWellFormed.termAt_succ_eq_zero_iff position).mpr (by omega)
    have ownWithin : position < log.length := Nat.not_le.mp notAbsent
    have own := List.getElem?_eq_getElem ownWithin
    rw [logWellFormed.termAt_of_getElem? own] at terms
    rw [shape]
    exact matching.take_eq logWellFormed.contiguous leaderWellFormed.contiguous
      own here terms

end Loops

end RaftState

end FunDB.Raft
