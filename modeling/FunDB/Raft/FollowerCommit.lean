import FunDB.Raft.FollowerLog

/-! # How far a follower commits

An accepted request moves the commit index up to the end of the follower's own
log, which may reach past the entries that the request vouches for. -/

namespace FunDB.Raft

/-- Every entry up to `bound` is the leader's entry of its index. -/
def AgreesUpTo (log leader : List LogEntry) (bound : Nat) : Prop :=
  ∀ entry ∈ log, entry.index ≤ bound → leader[entry.index - 1]? = some entry

instance (log leader : List LogEntry) (bound : Nat) :
    Decidable (AgreesUpTo log leader bound) :=
  inferInstanceAs (Decidable (∀ entry ∈ log, _ → _))

namespace RaftState

/-- The committed entries are the leader's. -/
def CommittedAgrees (state : RaftState) (leader : List LogEntry) : Prop :=
  AgreesUpTo state.log leader state.commitIndex

/-- The request does not commit entries it says nothing about: it is refused,
brings no new commit index, replaces a conflicting entry, or the entries that
follow its own up to the leader's commit index are the leader's. -/
def CommitsVouched (state : RaftState) (leader : List LogEntry)
    (req : AppendEntriesRequest) : Prop :=
  req.term < state.currentTerm ∨
  prevMatches state.log req = false ∨
  req.leaderCommit ≤ state.commitIndex ∨
  (∃ entry ∈ req.entries, ∃ existing ∈ state.log,
    existing.index = entry.index ∧ existing.term ≠ entry.term) ∨
  (∀ existing ∈ state.log, req.lastIndex < existing.index →
    existing.index ≤ req.leaderCommit → leader[existing.index - 1]? = some existing)

section

variable {state : RaftState} {leader : List LogEntry} {req : AppendEntriesRequest}

theorem agreesUpTo_take (leaderWellFormed : WellFormedLog leader)
    (count bound : Nat) : AgreesUpTo (leader.take count) leader bound := by
  intro entry member _
  exact (leaderWellFormed.contiguous.getElem?_of_mem
    (List.mem_of_mem_take member)).2

theorem agreesUpTo_of_take_eq (wellFormed : WellFormedLog state.log)
    (leaderWellFormed : WellFormedLog leader) {bound : Nat}
    (agree : state.log.take bound = leader.take bound) :
    AgreesUpTo state.log leader bound := by
  intro entry member within
  have inPrefix := wellFormed.contiguous.mem_take_iff.mpr ⟨member, within⟩
  rw [agree] at inPrefix
  exact (leaderWellFormed.contiguous.getElem?_of_mem
    (List.mem_of_mem_take inPrefix)).2

/-- When the log already has all the entries, no entry of it conflicts. -/
theorem no_conflict_of_complete (follows : Follows state.log leader)
    (leaderWellFormed : WellFormedLog leader) (taken : req.TakenFrom leader)
    (complete : state.log.take req.lastIndex = leader.take req.lastIndex) :
    ¬ ∃ entry ∈ req.entries, ∃ existing ∈ state.log,
      existing.index = entry.index ∧ existing.term ≠ entry.term := by
  intro conflict
  rcases conflict with ⟨entry, inRequest, existing, inLog, sameIndex, otherTerm⟩
  rcases taken.entry_of_mem leaderWellFormed inRequest with ⟨inLeader, bound⟩
  have agrees := agreesUpTo_of_take_eq follows.wellFormed leaderWellFormed complete
    existing inLog (by omega)
  rw [sameIndex, (leaderWellFormed.contiguous.getElem?_of_mem inLeader).2] at agrees
  exact otherTerm (by rw [Option.some.inj agrees])

/-- A log that lacks entries of an accepted request and extends beyond it has a
conflicting one. -/
theorem conflict_of_incomplete (follows : Follows state.log leader)
    (leaderWellFormed : WellFormedLog leader) (taken : req.TakenFrom leader)
    (matched : prevMatches state.log req = true)
    (incomplete : state.log.take req.lastIndex ≠ leader.take req.lastIndex)
    {existing : LogEntry} (member : existing ∈ state.log)
    (beyond : req.lastIndex < existing.index) :
    ∃ entry ∈ req.entries, ∃ existing ∈ state.log,
      existing.index = entry.index ∧ existing.term ≠ entry.term := by
  have long := follows.wellFormed.contiguous.index_le_length member
  have bound := taken.lastIndex_le
  have agree := take_eq_of_prevMatches follows.wellFormed leaderWellFormed
    follows.matching taken matched
  by_contra noConflict
  apply incomplete
  -- The last entry of the request decides: equal terms make equal prefixes.
  rcases Nat.eq_zero_or_pos req.entries.length with none | some
  · rw [AppendEntriesRequest.lastIndex, none, Nat.add_zero, agree]
  · have within : req.lastIndex - 1 < leader.length := by
      rw [AppendEntriesRequest.lastIndex] at bound ⊢
      omega
    have inLeader := List.getElem?_eq_getElem within
    have ownWithin : req.lastIndex - 1 < state.log.length := by omega
    have inLog := List.getElem?_eq_getElem ownWithin
    have inRequest : leader[req.lastIndex - 1] ∈ req.entries := by
      rw [taken.consecutive]
      apply List.mem_of_getElem? (i := req.entries.length - 1)
      rw [List.getElem?_take, if_pos (by omega), List.getElem?_drop, ← inLeader,
        AppendEntriesRequest.lastIndex]
      congr 1
      omega
    have sameTerm : state.log[req.lastIndex - 1].term =
        leader[req.lastIndex - 1].term := by
      by_contra otherTerm
      apply noConflict
      refine ⟨_, inRequest, _, List.getElem_mem ownWithin, ?_, otherTerm⟩
      rw [follows.wellFormed.contiguous.index_getElem,
        leaderWellFormed.contiguous.index_getElem]
    have equal := follows.matching.take_eq follows.wellFormed.contiguous
      leaderWellFormed.contiguous inLog inLeader sameTerm
    have positive : 0 < req.lastIndex := by
      rw [AppendEntriesRequest.lastIndex]
      omega
    rwa [Nat.sub_add_cancel positive] at equal

/-- A refused request changes nothing, and the condition allows for refusals. -/
theorem committedAgrees_iff_of_refused (committed : state.CommittedAgrees leader) (myId : NodeId)
    (refused : (state.handleAppendEntries req myId).1.1.success = false) :
    (state.handleAppendEntries req myId).2.CommittedAgrees leader ↔
      state.CommitsVouched leader req := by
  have same := state.handleAppendEntries_refused req myId refused
  have condition := mt (state.handleAppendEntries_success_iff req myId).mpr (by simp [refused])
  constructor
  · intro _
    rcases Nat.lt_or_ge req.term state.currentTerm with stale | current
    · exact .inl stale
    · exact .inr (.inl (by simpa [current] using condition))
  · intro _
    rw [CommittedAgrees, same.1, same.2]
    exact committed

/-- Where the log has all the entries already, what follows them decides. -/
theorem committedAgrees_iff_of_complete (follows : Follows state.log leader)
    (leaderWellFormed : WellFormedLog leader) (committed : state.CommittedAgrees leader)
    (taken : req.TakenFrom leader) (myId : NodeId)
    (answered : (state.handleAppendEntries req myId).1.1.success = true)
    (unchanged : (state.handleAppendEntries req myId).2.log = state.log)
    (complete : state.log.take req.lastIndex = leader.take req.lastIndex) :
    (state.handleAppendEntries req myId).2.CommittedAgrees leader ↔
      state.CommitsVouched leader req := by
  rcases (state.handleAppendEntries_success_iff req myId).mp answered with ⟨current, matched⟩
  have accepted := state.handleAppendEntries_accepted req myId answered
  have vouched := agreesUpTo_of_take_eq follows.wellFormed leaderWellFormed complete
  have newCommit : (state.handleAppendEntries req myId).2.commitIndex =
      if req.leaderCommit > state.commitIndex then
        min req.leaderCommit state.log.length
      else state.commitIndex := by
    rw [accepted] at unchanged ⊢
    simp only [replicated] at unchanged ⊢
    rw [unchanged, follows.wellFormed.contiguous.last_index]
  rw [CommittedAgrees, unchanged, newCommit]
  constructor
  · intro agrees
    by_cases advances : req.leaderCommit > state.commitIndex
    · right; right; right; right
      intro existing member _ bound
      rw [if_pos advances] at agrees
      exact agrees existing member (Nat.le_min.mpr
        ⟨bound, follows.wellFormed.contiguous.index_le_length member⟩)
    · exact .inr (.inr (.inl (Nat.not_lt.mp advances)))
  · intro allowed
    rcases allowed with stale | mismatch | behind | conflict | suffixAgrees
    · omega
    · rw [matched] at mismatch
      cases mismatch
    · rw [if_neg (by omega)]
      exact committed
    · exact absurd conflict
        (no_conflict_of_complete follows leaderWellFormed taken complete)
    · split
      · intro existing member bound
        rcases Nat.lt_or_ge req.lastIndex existing.index with beyond | within
        · exact suffixAgrees existing member beyond
            (bound.trans (Nat.min_le_left _ _))
        · exact vouched existing member within
      · exact committed

/-- After a request of a leader that it matches, a follower whose committed
entries were the leader's has only the leader's entries committed, exactly when
the request does not commit entries it says nothing about. -/
theorem committedAgrees_iff_commitsVouched (state : RaftState)
    (leader : List LogEntry) (req : AppendEntriesRequest) (myId : NodeId)
    (leaderWellFormed : WellFormedLog leader)
    (followerWellFormed : WellFormedLog state.log)
    (matching : LogMatching state.log leader)
    (committed : state.CommittedAgrees leader) (taken : req.TakenFrom leader) :
    (state.handleAppendEntries req myId).2.CommittedAgrees leader ↔
      state.CommitsVouched leader req := by
  have follows : Follows state.log leader := ⟨followerWellFormed, matching⟩
  cases answered : (state.handleAppendEntries req myId).1.1.success with
  | false => exact committedAgrees_iff_of_refused committed myId answered
  | true =>
      have matched := ((state.handleAppendEntries_success_iff req myId).mp answered).2
      rcases handleAppendEntries_log_cases follows leaderWellFormed taken myId with
        ⟨unchanged, complete⟩ | ⟨extended, incomplete⟩
      · exact committedAgrees_iff_of_complete follows leaderWellFormed committed taken myId
          answered unchanged (complete answered)
      · rw [CommittedAgrees, extended]
        refine iff_of_true (agreesUpTo_take leaderWellFormed _ _) ?_
        right; right; right
        by_cases reaches : ∃ existing ∈ state.log, req.lastIndex < existing.index
        · rcases reaches with ⟨existing, member, beyond⟩
          exact .inl (conflict_of_incomplete follows leaderWellFormed taken matched
            incomplete member beyond)
        · right
          intro existing member beyond
          exact absurd ⟨existing, member, beyond⟩ reaches

end

/-- The log of a leader of term 3. -/
def leaderLog : List LogEntry :=
  [⟨1, 1, [10], .normal⟩, ⟨2, 3, [30], .normal⟩, ⟨3, 3, [31], .normal⟩]

/-- A follower with an entry of term 2 that its leader never had. -/
def staleFollower : RaftState :=
  { RaftState.new with
    currentTerm := 2
    log := [⟨1, 1, [10], .normal⟩, ⟨2, 2, [20], .normal⟩]
    commitIndex := 1 }

theorem committedAgrees_iff_commitsVouched_replacing :
    WellFormedLog leaderLog ∧ WellFormedLog staleFollower.log ∧
      LogMatching staleFollower.log leaderLog ∧
      (staleFollower.handleAppendEntries
        ⟨3, 2, 1, 1, [⟨2, 3, [30], .normal⟩], 2⟩ 1).2.CommittedAgrees leaderLog := by
  refine ⟨by decide, by decide, by decide, ?_⟩
  apply (committedAgrees_iff_commitsVouched staleFollower leaderLog _ 1 (by decide)
    (by decide) (by decide) (show AgreesUpTo _ _ _ by decide) (by decide)).mpr
  right; right; right; left
  exact ⟨⟨2, 3, [30], .normal⟩, by decide, ⟨2, 2, [20], .normal⟩, by decide,
    rfl, by decide⟩

/-- A heartbeat that knows the follower's log only up to index 1 commits the
follower's stale entry at index 2. -/
theorem heartbeat_commits_stale_entry :
    let heartbeat : AppendEntriesRequest := ⟨3, 2, 1, 1, [], 2⟩
    WellFormedLog leaderLog ∧ WellFormedLog staleFollower.log ∧
      LogMatching staleFollower.log leaderLog ∧
      staleFollower.CommittedAgrees leaderLog ∧ heartbeat.TakenFrom leaderLog ∧
      heartbeat.leaderCommit ≤ leaderLog.length ∧
      ¬ (staleFollower.handleAppendEntries heartbeat 1).2.CommittedAgrees leaderLog := by
  refine ⟨by decide, by decide, by decide, show AgreesUpTo _ _ _ by decide,
    by decide, by decide, show ¬ AgreesUpTo _ _ _ by decide⟩

end RaftState

end FunDB.Raft
