import FunDB.Raft.Cluster
import FunDB.Raft.FollowerLog

/-! # Log Matching in a cluster

While no node restarts and no snapshot is installed, a log is made of what leaders appended
in their terms. The logs of any two nodes then agree below every entry they share, also
when they are read at different moments of a run. -/

namespace FunDB.Raft

open IndexedLog

namespace RaftNode

variable {Disk : Type} [RaftStorage Disk] (node : RaftNode Disk)

/-- What a call does to the log: a leader appends to it, and a follower replicates. -/
theorem step_log (call : Call) (noSnapshot : ∀ req, call ≠ .installSnapshot req) :
    (node.step call).state.log = node.state.log ∨
      (∃ data, call = .propose data ∧ node.state.role = .leader ∧
        (node.step call).state.standing = node.state.standing ∧
        (node.step call).state.log = node.state.log ++ [node.nextEntry data]) ∨
      ∃ req, call = .appendEntries req ∧
        (node.step call).state.log = (node.state.handleAppendEntries req node.id).2.log := by
  cases call with
  | startElection =>
      rcases node.startElection_state with ⟨_, _, _, _, result⟩
      left
      change node.startElection.2.state.log = _
      rw [result]
  | forceBecomeLeader => exact .inl rfl
  | requestVote req =>
      left
      change (node.handleRequestVote req).2.state.log = _
      rw [handleRequestVote_state]
      rcases node.state.handleRequestVote_cases req with
        ⟨_, result⟩ | ⟨_, _, _, result⟩ | ⟨_, _, result⟩ <;> rw [result]
      · exact node.state.judging_log req
      · exact node.state.judging_log req
  | appendEntries req =>
      refine .inr (.inr ⟨req, rfl, ?_⟩)
      change (node.handleAppendEntries req).2.state.log = _
      rw [handleAppendEntries_state]
  | installSnapshot req => exact absurd rfl (noSnapshot req)
  | propose data =>
      by_cases leads : node.state.role = .leader
      · refine .inr (.inl ⟨data, rfl, leads, ?_⟩)
        change (node.propose data).2.state.standing = _ ∧ (node.propose data).2.state.log = _
        have leader : node.proposeCheck = .ok () := by rw [proposeCheck, if_neg (by simp [leads])]
        rw [propose, leader]
        dsimp only
        split
        · exact ⟨rfl, rfl⟩
        · rcases ((node.proposeAppend data).2.proposeStore
            (node.proposeAppend data).1).2.proposeCommit_cases (node.proposeAppend data).1 with
            result | result <;> rw [result] <;> exact ⟨rfl, rfl⟩
      · left
        change (node.propose data).2.state.log = _
        rw [propose, proposeCheck, if_pos leads]
  | updateMatchIndex peerId matchIdx =>
      rcases node.updateMatchIndex_state peerId matchIdx with ⟨_, _, _, result⟩
      left
      change (node.updateMatchIndex peerId matchIdx).state.log = _
      rw [result]

end RaftNode

section Standing

variable {Disk : Type} {node : RaftNode Disk} {call : Call} {standing : Standing}
variable {given : List (Nat × NodeId)}

/-- A leader was leader of the term before, or its term has risen. -/
theorem StandingChange.leads (change : StandingChange node call standing given)
    (leads : standing.role = .leader) :
    node.state.role = .leader ∧ standing.term = node.state.currentTerm ∨
      node.state.currentTerm < standing.term := by
  cases change with
  | kept => exact .inl ⟨leads, rfl⟩
  | granted candidate free => exact .inl ⟨leads, rfl⟩
  | followed term above => exact .inr above
  | voted term candidate above => exact .inr above
  | deposed stands => cases leads
  | stood role others => exact .inr (Nat.lt_succ_self _)
  | promoted forced => exact .inr (Nat.lt_succ_self _)

theorem StandingChange.stays (change : StandingChange node call standing given)
    (leads : node.state.role = .leader) (sameTerm : standing.term = node.state.currentTerm) :
    standing.role = .leader := by
  cases change with
  | kept => exact leads
  | granted candidate free => exact leads
  | followed term above => exact absurd sameTerm (Nat.ne_of_gt above)
  | voted term candidate above => exact absurd sameTerm (Nat.ne_of_gt above)
  | deposed stands => exact RaftRole.noConfusion (stands.symm.trans leads)
  | stood role others => exact absurd sameTerm (Nat.succ_ne_self _)
  | promoted forced => rfl

end Standing

namespace Cluster

variable {Disk : Type}

/-- The log that a term's leader had when it last took a step. -/
def leaderLog (cluster : Cluster Disk) (term : Nat) : List LogEntry :=
  ((cluster.reigns.find? fun reign => reign.term = term).map Reign.log).getD []

/-- Entries come from the log of the request's term; no log is cut at its start or lost,
and the index of a proposal does not wrap. -/
def Carried (cluster : Cluster Disk) : ClusterEvent → Prop
  | .call _ (.appendEntries req) =>
      ∃ reign ∈ cluster.reigns, req.term = reign.term ∧ req.TakenFrom reign.log
  | .call id (.propose _) => (cluster.node id).state.lastLogIndex + 1 < 2 ^ 64
  | .call _ (.installSnapshot _) | .restart _ => False
  | .call _ _ => True

def Replicating (members : Finset NodeId) (cluster : Cluster Disk) (event : ClusterEvent) :
    Prop :=
  Admitted members cluster event ∧ cluster.Carried event

instance (cluster : Cluster Disk) : ∀ event, Decidable (cluster.Carried event)
  | .call _ (.appendEntries _) => inferInstanceAs (Decidable (∃ reign ∈ cluster.reigns, _))
  | .call _ (.installSnapshot _) | .restart _ => inferInstanceAs (Decidable False)
  | .call _ (.propose _) => inferInstanceAs (Decidable (_ < _))
  | .call _ .startElection | .call _ .forceBecomeLeader | .call _ (.requestVote _)
  | .call _ (.updateMatchIndex _ _) => inferInstanceAs (Decidable True)

instance (members : Finset NodeId) (cluster : Cluster Disk) (event : ClusterEvent) :
    Decidable (Replicating members cluster event) :=
  inferInstanceAs (Decidable (_ ∧ _))

/-- A log made of what leaders appended. -/
structure Traced (cluster : Cluster Disk) (log : List LogEntry) : Prop where
  wellFormed : WellFormedLog log
  traces : Traces LogEntry.index LogEntry.term cluster.leaderLog log

structure TracedLogs (cluster : Cluster Disk) : Prop where
  nodes : ∀ id, cluster.Traced (cluster.node id).state.log
  leaders : ∀ term, cluster.Traced (cluster.leaderLog term)
  recorded : ∀ reign ∈ cluster.reigns, reign.log <+: cluster.leaderLog reign.term
  past : ∀ reign ∈ cluster.reigns,
    reign.term ≤ (cluster.node reign.leader).state.currentTerm ∧
      (reign.term = (cluster.node reign.leader).state.currentTerm →
        (cluster.node reign.leader).state.role = .leader)
  current : ∀ id, (cluster.node id).state.role = .leader →
    0 < (cluster.node id).state.currentTerm ∧
      (cluster.node id).state.log = cluster.leaderLog (cluster.node id).state.currentTerm

variable {cluster : Cluster Disk} {membership : Membership}

theorem Traced.mono {log : List LogEntry} (traced : cluster.Traced log) {later : Cluster Disk}
    (grows : ∀ term, cluster.leaderLog term <+: later.leaderLog term) : later.Traced log :=
  ⟨traced.wellFormed, traced.traces.mono traced.wellFormed.contiguous grows⟩

theorem Traced.take {log : List LogEntry} (traced : cluster.Traced log) (count : Nat) :
    cluster.Traced (log.take count) :=
  ⟨traced.wellFormed.take count, traced.traces.take traced.wellFormed.contiguous count⟩

theorem leaderLog_moved (id : NodeId) (after : RaftNode Disk) (given : List (Nat × NodeId))
    (term : Nat) :
    (cluster.moved id after given).leaderLog term =
      if after.state.role = .leader ∧ after.state.currentTerm = term then after.state.log
      else cluster.leaderLog term := by
  rw [leaderLog, moved]
  dsimp only
  by_cases rules : after.state.role = .leader
  · by_cases same : after.state.currentTerm = term
    · rw [if_pos rules, if_pos ⟨rules, same⟩, List.find?_cons_of_pos (by simpa using same)]
      rfl
    · rw [if_pos rules, if_neg (fun both => same both.2),
        List.find?_cons_of_neg (by simpa using same)]
      rfl
  · rw [if_neg rules, if_neg (fun both => rules both.1)]
    rfl

theorem mem_reigns_moved (id : NodeId) {after : RaftNode Disk} {given : List (Nat × NodeId)}
    (leads : after.state.role = .leader) :
    ⟨after.state.currentTerm, id, after.state.log⟩ ∈ (cluster.moved id after given).reigns := by
  rw [moved, if_pos leads]
  exact List.mem_cons_self

theorem mem_reigns_of_moved {id : NodeId} {after : RaftNode Disk} {given : List (Nat × NodeId)}
    {reign : Reign} (member : reign ∈ (cluster.moved id after given).reigns) :
    (after.state.role = .leader ∧ reign = ⟨after.state.currentTerm, id, after.state.log⟩) ∨
      reign ∈ cluster.reigns := by
  by_cases leads : after.state.role = .leader
  · rw [moved, if_pos leads] at member
    exact (List.mem_cons.mp member).imp_left fun same => ⟨leads, same⟩
  · rw [moved, if_neg leads] at member
    exact .inr member

theorem exists_reign_of_leaderLog {term : Nat} (some : cluster.leaderLog term ≠ []) :
    ∃ reign ∈ cluster.reigns, reign.term = term := by
  rw [leaderLog] at some
  cases found : cluster.reigns.find? fun reign => reign.term = term with
  | none =>
      rw [found] at some
      exact absurd rfl some
  | some reign =>
      exact ⟨reign, List.mem_of_find?_eq_some found, by simpa using List.find?_some found⟩

/-- A follower is left with a log that it had or that the leader of the term had, and a
leader that hears itself is left as it was. -/
theorem TracedLogs.handled (traced : TracedLogs cluster) (id : NodeId)
    {req : AppendEntriesRequest} {reign : Reign} (member : reign ∈ cluster.reigns)
    (sameTerm : req.term = reign.term) (taken : req.TakenFrom reign.log) :
    let state := (cluster.node id).state
    let after := (state.handleAppendEntries req id).2
    cluster.Traced after.log ∧
      (state.role = .leader → after.currentTerm = state.currentTerm → after.log = state.log) := by
  intro state after
  have own := traced.nodes id
  have recorded := traced.recorded reign member
  have created : cluster.Traced reign.log := by
    rw [List.prefix_iff_eq_take.mp recorded]
    exact (traced.leaders reign.term).take _
  have follows : Follows state.log reign.log :=
    ⟨own.wellFormed, own.traces.matching created.traces⟩
  constructor
  · rcases RaftState.handleAppendEntries_log_cases follows created.wellFormed taken id with
      ⟨unchanged, _⟩ | ⟨extended, _⟩
    · rw [show after.log = state.log from unchanged]
      exact own
    · rw [show after.log = reign.log.take req.lastIndex from extended]
      exact created.take _
  · intro leads still
    rcases Nat.lt_or_ge req.term state.currentTerm with stale | current
    · have refused : (state.handleAppendEntries req id).1.1.success = false := by
        rw [RaftState.handleAppendEntries, if_pos stale]
      exact (state.handleAppendEntries_refused req id refused).1
    · have reached : after.currentTerm = req.term := by
        have raised := state.acceptLeader_currentTerm req.term req.leaderId current
        rcases state.handleAppendEntries_cases req id with
          ⟨stale, _⟩ | ⟨_, _, result⟩ | ⟨_, _, result⟩
        · omega
        · rw [show after = _ from congrArg Prod.snd result]
          exact raised
        · rw [show after = _ from congrArg Prod.snd result]
          exact raised
      have hears : reign.log <+: state.log := by
        rw [(traced.current id leads).2, ← still, reached, sameTerm]
        exact recorded
      rcases hears with ⟨rest, whole⟩
      apply RaftState.log_eq_handled_of_covered created.wellFormed follows taken id
      rw [← whole, List.take_append_of_le_length taken.lastIndex_le]

variable [RaftStorage Disk]

/-- The log after a call: one made of what leaders appended, or a leader's with an entry
more. -/
theorem TracedLogs.call_log (traced : TracedLogs cluster)
    (safe : SafeElections membership cluster) {id : NodeId} {call : Call}
    (replicating : Replicating membership.members cluster (.call id call)) :
    let node := cluster.node id
    let after := node.step call
    (cluster.Traced after.state.log ∧ (node.state.role = .leader →
        after.state.currentTerm = node.state.currentTerm → after.state.log = node.state.log)) ∨
      ∃ entry, node.state.role = .leader ∧ after.state.standing = node.state.standing ∧
        after.state.log = node.state.log ++ [entry] ∧
        entry.index = node.state.log.length + 1 ∧ entry.term = node.state.currentTerm := by
  intro node after
  have own := traced.nodes id
  have noSnapshot (req : InstallSnapshotRequest) : call ≠ .installSnapshot req := by
    intro same
    subst same
    exact replicating.2
  rcases node.step_log call noSnapshot with
    unchanged | ⟨data, same, leads, sameStanding, appended⟩ | ⟨req, same, handled⟩
  · left
    rw [show after.state.log = node.state.log from unchanged]
    exact ⟨own, fun _ _ => rfl⟩
  · refine .inr ⟨node.nextEntry data, leads, sameStanding, appended, ?_, rfl⟩
    subst same
    have last : node.state.lastLogIndex = node.state.log.length :=
      own.wellFormed.contiguous.last_index
    exact (wrappingSucc_of_lt replicating.2).trans (congrArg Nat.succ last)
  · left
    subst same
    rcases replicating.2 with ⟨reign, member, sameTerm, taken⟩
    have sameId : node.id = id := (safe.identity id).1
    have reached : after.state = (node.state.handleAppendEntries req id).2 := by
      rw [← sameId]
      exact node.handleAppendEntries_state req
    rw [reached]
    exact traced.handled id member sameTerm taken

/-- A leader's log only grows, so the log of each term does. -/
theorem TracedLogs.grows (traced : TracedLogs cluster) {id : NodeId} {call : Call}
    (fits : (cluster.node id).TermFits call)
    (replicating : Replicating membership.members cluster (.call id call))
    (safe : SafeElections membership cluster)
    (safeAfter : SafeElections membership (cluster.step (.call id call))) (term : Nat) :
    cluster.leaderLog term <+: (cluster.step (.call id call)).leaderLog term := by
  have stepped : (cluster.step (.call id call)).leaderLog term = _ :=
    leaderLog_moved id ((cluster.node id).step call) ((cluster.node id).votesGranted call) term
  rw [stepped]
  split
  · next rules =>
      rcases rules with ⟨leads, sameTerm⟩
      by_cases empty : cluster.leaderLog term = []
      · rw [empty]
        exact List.nil_prefix
      · rcases exists_reign_of_leaderLog empty with ⟨reign, member, reignTerm⟩
        have ruler : reign.leader = id :=
          safeAfter.leader_unique (reigns_moved _ _ _ member) (mem_reigns_moved id leads)
            (reignTerm.trans sameTerm.symm)
        have past := traced.past reign member
        rw [ruler, reignTerm] at past
        have rises := (RaftNode.step_term fits).1
        have still : ((cluster.node id).step call).state.currentTerm =
            (cluster.node id).state.currentTerm := by omega
        have led := past.2 (sameTerm.symm.trans still)
        rw [← sameTerm, still, ← (traced.current id led).2]
        rcases traced.call_log safe replicating with ⟨_, kept⟩ | ⟨entry, _, _, appended, _⟩
        · rw [kept led still]
        · rw [appended]
          exact List.prefix_append _ _
  · exact List.prefix_refl _

variable [DurableHardState Disk]

/-- Every replicating step keeps the logs made of what leaders appended. -/
theorem TracedLogs.step (traced : TracedLogs cluster)
    (safe : SafeElections membership cluster) {event : ClusterEvent}
    (replicating : Replicating membership.members cluster event) :
    TracedLogs (cluster.step event) := by
  have safeAfter := safe.step replicating.1
  cases event with
  | restart id => exact replicating.2.elim
  | call id call =>
  have fits := replicating.1.2.1
  have rises := (RaftNode.step_term fits).1
  have grows := traced.grows fits replicating safe safeAfter
  have change := (cluster.node id).step_standing call fits
  have moves := traced.call_log safe replicating
  dsimp only at moves
  have stepped : cluster.step (.call id call) = cluster.moved id ((cluster.node id).step call)
      ((cluster.node id).votesGranted call) := rfl
  rw [stepped] at safeAfter grows ⊢
  generalize (cluster.node id).votesGranted call = given at safeAfter grows change ⊢
  generalize (cluster.node id).step call = after at safeAfter rises grows change moves ⊢
  have own := traced.nodes id
  have ruling (leads : after.state.role = .leader) :
      (cluster.moved id after given).leaderLog after.state.currentTerm = after.state.log := by
    rw [leaderLog_moved, if_pos ⟨leads, rfl⟩]
  have tracedAfter : (cluster.moved id after given).Traced after.state.log := by
    rcases moves with ⟨tracedLog, _⟩ | ⟨entry, leads, sameStanding, appended, next, created⟩
    · exact tracedLog.mono grows
    · have stays : after.state.role = .leader := (role_of_standing sameStanding).trans leads
      have sameTerm : after.state.currentTerm = (cluster.node id).state.currentTerm :=
        congrArg Standing.term sameStanding
      have before := own.mono grows
      rw [appended]
      refine ⟨⟨own.wellFormed.contiguous.concat next, ?_⟩,
        before.traces.concat own.wellFormed.contiguous ?_⟩
      · intro other member
        rcases List.mem_append.mp member with old | new
        · exact own.wellFormed.positiveTerms other old
        · rw [List.mem_singleton.mp new, created]
          exact (traced.current id leads).1
      · rw [created, ← sameTerm, ruling stays, appended]
  exact
    { nodes := by
        intro other
        by_cases same : other = id
        · subst same
          simpa only [moved, Function.update_self] using tracedAfter
        · simpa only [moved, Function.update_of_ne same] using (traced.nodes other).mono grows
      leaders := by
        intro term
        rw [leaderLog_moved]
        split
        · exact tracedAfter
        · exact (traced.leaders term).mono grows
      recorded := by
        intro reign member
        rcases mem_reigns_of_moved member with ⟨leads, rfl⟩ | old
        · rw [ruling leads]
        · exact (traced.recorded reign old).trans (grows reign.term)
      past := by
        intro reign member
        rcases mem_reigns_of_moved member with ⟨leads, rfl⟩ | old
        · simp only [moved, Function.update_self]
          exact ⟨le_rfl, fun _ => leads⟩
        · rcases traced.past reign old with ⟨reached, leads⟩
          by_cases same : reign.leader = id
          · rw [same] at reached leads ⊢
            simp only [moved, Function.update_self]
            refine ⟨reached.trans rises, fun current => ?_⟩
            have still : after.state.currentTerm = (cluster.node id).state.currentTerm := by
              omega
            exact change.stays (leads (current.trans still)) still
          · simpa only [moved, Function.update_of_ne same] using ⟨reached, leads⟩
      current := by
        intro other leads
        by_cases same : other = id
        · subst same
          simp only [moved, Function.update_self] at leads
          have positive : 0 < after.state.currentTerm := by
            rcases change.leads leads with ⟨led, sameTerm⟩ | raised
            · rw [show after.state.currentTerm = _ from sameTerm]
              exact (traced.current other led).1
            · exact Nat.zero_lt_of_lt raised
          rw [show (cluster.moved other after given).node other = after from
            Function.update_self _ _ _]
          exact ⟨positive, (ruling leads).symm⟩
        · have untouched : (cluster.moved id after given).node other = cluster.node other :=
            Function.update_of_ne same _ _
          rw [untouched] at leads ⊢
          rcases traced.current other leads with ⟨positive, sameLog⟩
          refine ⟨positive, ?_⟩
          -- No other node has begun to lead in the term.
          have notBoth : ¬ (after.state.role = .leader ∧
              after.state.currentTerm = (cluster.node other).state.currentTerm) := by
            intro both
            rcases safe.reigning other leads with ⟨reign, member, ruler, reignTerm⟩
            have one : reign.leader = id := safeAfter.leader_unique (reigns_moved _ _ _ member)
              (mem_reigns_moved id both.1) (reignTerm.trans both.2.symm)
            exact same (ruler.symm.trans one)
          rw [leaderLog_moved, if_neg notBoth]
          exact sameLog }

theorem tracedLogs_start (membership : Membership) {disks : NodeId → Disk}
    (fresh : ∀ id, RaftStorage.lastIndex (disks id) = 0) :
    TracedLogs (start membership disks) := by
  have none (term : Nat) : (start membership disks).leaderLog term = [] := rfl
  have noLog : (start membership disks).Traced [] :=
    ⟨⟨rfl, fun _ member => absurd member List.not_mem_nil⟩,
      fun _ member => absurd member List.not_mem_nil⟩
  exact
    { nodes := by
        intro id
        have empty : ((start membership disks).node id).state.log = [] := by
          have nothing : ¬ RaftStorage.lastIndex (disks id) > 0 := by simp [fresh id]
          simp only [start, RaftNode.new, if_neg nothing]
          split <;> rfl
        rw [empty]
        exact noLog
      leaders := by
        intro term
        rw [none]
        exact noLog
      recorded := fun _ member => absurd member List.not_mem_nil
      past := fun _ member => absurd member List.not_mem_nil
      current := by
        intro id leads
        rcases (safeElections_start membership disks).reigning id leads with ⟨_, member, _⟩
        exact absurd member List.not_mem_nil }

/-- A replicating run keeps all this, and the logs of the terms grow in it. -/
theorem TracedLogs.run (traced : TracedLogs cluster) (safe : SafeElections membership cluster)
    {events : List ClusterEvent}
    (replicating : Execution.EveryStep Cluster.step (Replicating membership.members) cluster
      events) :
    let after := Execution.run Cluster.step cluster events
    TracedLogs after ∧ SafeElections membership after ∧
      ∀ term, cluster.leaderLog term <+: after.leaderLog term := by
  induction events generalizing cluster with
  | nil => exact ⟨traced, safe, fun _ => List.prefix_refl _⟩
  | cons event rest induction =>
      rcases replicating with ⟨first, later⟩
      have safeAfter := safe.step first.1
      have grows (term : Nat) : cluster.leaderLog term <+: (cluster.step event).leaderLog term := by
        cases event with
        | restart id => exact first.2.elim
        | call id call => exact traced.grows first.1.2.1 first safe safeAfter term
      rcases induction (traced.step safe first) safeAfter later with ⟨tracedEnd, safeEnd, growsOn⟩
      exact ⟨tracedEnd, safeEnd, fun term => (grows term).trans (growsOn term)⟩

/-- In a run without restarts and snapshots, in which elected candidates lead and leaders
send what is in their logs, the logs of any two nodes match, at whatever moments. -/
theorem log_matching (membership : Membership) (disks : NodeId → Disk)
    (fresh : ∀ id, RaftStorage.lastIndex (disks id) = 0) (events : List ClusterEvent)
    (replicating : Execution.EveryStep step (Replicating membership.members)
      (start membership disks) events) :
    let after := Execution.run step (start membership disks)
    ∀ earlier later, earlier <+: events → later <+: events → ∀ first second,
      LogMatching ((after earlier).node first).state.log
        ((after later).node second).state.log := by
  intro after
  have tracedAt (done : List ClusterEvent) (isPrefix : done <+: events) (id : NodeId) :
      (after events).Traced ((after done).node id).state.log := by
    rcases isPrefix with ⟨rest, rfl⟩
    rcases (Execution.EveryStep.append_iff step).mp replicating with ⟨first, later⟩
    rcases (tracedLogs_start membership fresh).run (safeElections_start membership disks) first
      with ⟨traced, safe, _⟩
    rcases traced.run safe later with ⟨_, _, grows⟩
    rw [show after (done ++ rest) = Execution.run step (after done) rest from
      Execution.run_append step _ done rest]
    exact (traced.nodes id).mono grows
  intro earlier later firstPrefix secondPrefix first second
  exact (tracedAt earlier firstPrefix first).traces.matching
    (tracedAt later secondPrefix second).traces

/-- Node 2 replicates an entry of node 1 and leads after it; its log reaches node 1. -/
theorem log_matching_successor :
    let membership : Membership :=
      ⟨{1, 2, 3}, fun id => if id = 1 then [(2, ""), (3, "")] else
        if id = 2 then [(1, ""), (3, "")] else [(1, ""), (2, "")], by decide⟩
    let created : LogEntry := ⟨1, 2, [7], .normal⟩
    let events : List ClusterEvent :=
      [.call 1 .startElection, .call 2 (.requestVote ⟨1, 1, 0, 0⟩), .call 1 .forceBecomeLeader,
        .call 1 (.propose [7]), .call 2 (.appendEntries ⟨2, 1, 0, 0, [created], 1⟩),
        .call 1 (.propose [8]), .call 2 .startElection, .call 3 (.requestVote ⟨3, 2, 1, 2⟩),
        .call 2 .forceBecomeLeader, .call 2 (.propose [9]),
        .call 1 (.appendEntries ⟨4, 2, 1, 2, [⟨2, 4, [9], .normal⟩], 0⟩)]
    let after := Execution.run step (start membership fun _ => MemoryRaftStorage.new)
    ((after events).node 1).state.log = [created, ⟨2, 4, [9], .normal⟩] ∧
    ∀ earlier later, earlier <+: events → later <+: events → ∀ first second,
      LogMatching ((after earlier).node first).state.log
        ((after later).node second).state.log :=
  ⟨by decide, log_matching _ _ (fun _ => rfl) _ (by decide)⟩

end Cluster

end FunDB.Raft
