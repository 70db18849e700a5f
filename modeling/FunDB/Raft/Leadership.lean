import FunDB.Raft.Sessions

/-! # Entries of a leader

`propose` checks the role under one lock and appends under another. An entry is
created by a leader as long as no message of a later term comes between the
two. -/

namespace FunDB.Raft.Session

variable {Disk : Type} [RaftStorage Disk]

/-- The entry that the event appends for a proposal. -/
def created (session : Session Disk) : SessionEvent → Option LogEntry
  | .proceed caller =>
      match session.calls[caller]? with
      | some (.checked data) => some (session.node.proposeAppend data).1
      | _ => none
  | _ => none

/-- An entry that the event appends is of the term in which the node is leader
at this moment. -/
def CreatesAsLeader (session : Session Disk) (event : SessionEvent) : Prop :=
  ∀ entry ∈ session.created event,
    session.node.state.role = .leader ∧ entry.term = session.node.state.currentTerm

/-- A call stands between its check and its append. -/
def AwaitsAppend (session : Session Disk) : Prop :=
  ∃ call ∈ session.calls, ∃ data, call = .checked data

/-- No message of a later term comes between the check and the append of a call. -/
def KeepsLeadership (session : Session Disk) (event : SessionEvent) : Prop :=
  ∀ term ∈ event.term, session.node.state.currentTerm < term → ¬ session.AwaitsAppend

instance (session : Session Disk) : Decidable session.AwaitsAppend :=
  decidable_of_iff (∃ call ∈ session.calls, call matches .checked _)
    (by
      refine exists_congr fun call => and_congr_right fun _ => ?_
      cases call <;> simp)

instance (session : Session Disk) (event : SessionEvent) :
    Decidable (session.KeepsLeadership event) :=
  inferInstanceAs (Decidable (∀ term ∈ event.term, _ → ¬ session.AwaitsAppend))

/-! ## While a call waits -/

/-- A call waits for its append only under a leader. -/
def LedWhileAwaiting (session : Session Disk) : Prop :=
  session.AwaitsAppend → session.node.state.role = .leader

omit [RaftStorage Disk] in
theorem created_eq_some {session : Session Disk} {event : SessionEvent} {entry : LogEntry}
    (creates : entry ∈ session.created event) :
    ∃ caller data, event = .proceed caller ∧ session.calls[caller]? = some (.checked data) ∧
      entry = (session.node.proposeAppend data).1 := by
  cases event with
  | proceed caller =>
      rw [created] at creates
      split at creates
      · rename_i data called
        exact ⟨caller, data, rfl, called, (Option.mem_some_iff.mp creates).symm⟩
      · cases creates
  | requestVote req => cases creates
  | appendEntries req => cases creates
  | installSnapshot req => cases creates
  | updateMatchIndex peerId matchIdx => cases creates

omit [RaftStorage Disk] in
theorem awaitsAppend_of_getElem? {session : Session Disk} {caller : Nat} {data : List UInt8}
    (called : session.calls[caller]? = some (.checked data)) : session.AwaitsAppend :=
  ⟨.checked data, List.mem_of_getElem? called, data, rfl⟩

/-- A call that has just been checked was checked as a leader's. -/
theorem advance_eq_checked {node : RaftNode Disk} {call : ProposeCall} {data : List UInt8}
    (checked : (call.advance node).1 = .checked data) : node.state.role = .leader := by
  cases call with
  | started payload =>
      rw [ProposeCall.advance, RaftNode.proposeCheck] at checked
      by_contra notLeader
      simp [notLeader] at checked
  | checked payload => cases checked
  | appended entry =>
      rw [ProposeCall.advance] at checked
      dsimp only at checked
      split at checked <;> cases checked
  | stored entry => cases checked
  | returned result => cases checked

theorem LedWhileAwaiting.handle {session : Session Disk} (led : session.LedWhileAwaiting)
    {event : SessionEvent} (keeps : session.KeepsLeadership event) :
    (session.handle event).LedWhileAwaiting := by
  intro awaits
  rcases awaits with ⟨call, member, data, rfl⟩
  rw [handle_leader_iff]
  cases event with
  | proceed caller =>
      refine ⟨?_, by simp [SessionEvent.term]⟩
      rw [Session.handle] at member
      split at member
      · rcases List.mem_or_eq_of_mem_set member with old | new
        · exact led ⟨_, old, data, rfl⟩
        · exact advance_eq_checked new.symm
      · exact led ⟨_, member, data, rfl⟩
  | requestVote req | appendEntries req | installSnapshot req =>
      have awaits : session.AwaitsAppend := ⟨_, member, data, rfl⟩
      exact ⟨led awaits, fun term carried =>
        Nat.not_lt.mp fun later => keeps term carried later awaits⟩
  | updateMatchIndex peerId matchIdx =>
      exact ⟨led ⟨_, member, data, rfl⟩, by simp [SessionEvent.term]⟩

omit [RaftStorage Disk] in
theorem LedWhileAwaiting.createsAsLeader {session : Session Disk}
    (led : session.LedWhileAwaiting) (event : SessionEvent) :
    session.CreatesAsLeader event := by
  intro entry creates
  rcases created_eq_some creates with ⟨caller, data, _, called, rfl⟩
  exact ⟨led (awaitsAppend_of_getElem? called), rfl⟩

/-- A node that has lost its office does not get it back here, so a call that
was checked before either appends as no leader or waits to the end. -/
theorem awaits_of_deposed {session : Session Disk} (deposed : session.node.state.role ≠ .leader)
    {caller : Nat} {data : List UInt8} (called : session.calls[caller]? = some (.checked data))
    {events : List SessionEvent}
    (asLeader : Execution.EveryStep handle CreatesAsLeader session events) :
    (Execution.run handle session events).AwaitsAppend := by
  induction events generalizing session with
  | nil => exact awaitsAppend_of_getElem? called
  | cons event rest induction =>
      rcases asLeader with ⟨first, later⟩
      have other : event ≠ .proceed caller := by
        intro appends
        subst appends
        have creates : (session.node.proposeAppend data).1 ∈
            session.created (.proceed caller) := by
          simp [created, called]
        exact deposed (first _ creates).1
      have stillDeposed : (session.handle event).node.state.role ≠ .leader :=
        fun leads => deposed (((session.handle_leader_iff event).mp leads).1)
      exact induction stillDeposed ((session.handle_getElem? other).trans called) later

omit [RaftStorage Disk] in
theorem start_not_awaitsAppend (node : RaftNode Disk) (data : List (List UInt8)) :
    ¬ (start node data).AwaitsAppend := by
  intro awaits
  rcases awaits with ⟨call, member, payload, rfl⟩
  rcases List.mem_map.mp member with ⟨_, _, impossible⟩
  cases impossible

/-- Every entry that a proposal appends is created by the leader of its term, in
every run in which no message of a later term comes between a check and its
append. Once no call waits for its append any more, exactly in such runs. -/
theorem entries_created_as_leader (node : RaftNode Disk) (data : List (List UInt8))
    (events : List SessionEvent) :
    (Execution.EveryStep handle KeepsLeadership (start node data) events →
      Execution.EveryStep handle CreatesAsLeader (start node data) events) ∧
    (¬ (Execution.run handle (start node data) events).AwaitsAppend →
      (Execution.EveryStep handle CreatesAsLeader (start node data) events ↔
        Execution.EveryStep handle KeepsLeadership (start node data) events)) := by
  have initial : (start node data).LedWhileAwaiting :=
    fun awaits => absurd awaits (start_not_awaitsAppend node data)
  have sufficient : Execution.EveryStep handle KeepsLeadership (start node data) events →
      Execution.EveryStep handle CreatesAsLeader (start node data) events :=
    Execution.EveryStep.of_invariant handle LedWhileAwaiting
      (fun _ _ led keeps => led.handle keeps) (fun _ event led _ => led.createsAsLeader event)
      initial
  refine ⟨sufficient, fun settled => ⟨fun asLeader => ?_, sufficient⟩⟩
  by_contra broken
  rcases Execution.exists_of_not_everyStep handle broken with
    ⟨done, event, rest, rfl, deposes⟩
  simp only [KeepsLeadership, not_forall, not_not] at deposes
  rcases deposes with ⟨term, carried, later, call, member, payload, rfl⟩
  rcases List.mem_iff_getElem?.mp member with ⟨caller, called⟩
  rw [Execution.run_append, Execution.run_cons] at settled
  have rightAfter := ((Execution.EveryStep.append_iff handle).mp asLeader).2
  have deposed : ((Execution.run handle (start node data) done).handle
      event).node.state.role ≠ .leader := by
    intro leads
    have bound := ((handle_leader_iff _ event).mp leads).2 term carried
    omega
  have other : event ≠ .proceed caller := by
    intro proceeds
    subst proceeds
    cases carried
  exact settled (awaits_of_deposed deposed ((handle_getElem? _ other).trans called)
    rightAfter.2)

theorem entries_created_as_leader_proposing :
    let session := start RaftNode.makeClusterNode.forceBecomeLeader [[7], [8]]
    let events : List SessionEvent :=
      [.proceed 0, .appendEntries ⟨1, 2, 0, 0, [], 0⟩, .proceed 0, .proceed 0,
        .requestVote ⟨3, 2, 5, 5⟩, .proceed 1]
    Execution.EveryStep handle CreatesAsLeader session events ∧
      (Execution.run handle session events).node.state.log = [⟨1, 1, [7], .normal⟩] :=
  ⟨(entries_created_as_leader RaftNode.makeClusterNode.forceBecomeLeader [[7], [8]]
    [.proceed 0, .appendEntries ⟨1, 2, 0, 0, [], 0⟩, .proceed 0, .proceed 0,
      .requestVote ⟨3, 2, 5, 5⟩, .proceed 1]).1 (by decide), by decide⟩

/-- A vote request of a later term comes between the check and the append: the
node appends an entry of a term in which it is follower. -/
theorem follower_creates_entry :
    let session := start RaftNode.makeClusterNode.forceBecomeLeader [[7]]
    let events : List SessionEvent := [.proceed 0, .requestVote ⟨2, 2, 0, 0⟩]
    let reached := Execution.run handle session events
    reached.created (.proceed 0) = some ⟨1, 2, [7], .normal⟩ ∧
      reached.node.state.role = .follower ∧
      ¬ Execution.EveryStep handle CreatesAsLeader session (events ++ [.proceed 0]) := by
  refine ⟨by decide, by decide, fun asLeader => ?_⟩
  have last := ((Execution.EveryStep.concat_iff handle).mp asLeader).2
  have leads := (last ⟨1, 2, [7], .normal⟩ (by decide)).1
  exact absurd leads (by decide)

end FunDB.Raft.Session
