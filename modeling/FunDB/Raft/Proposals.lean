import FunDB.Raft.Node
import FunDB.Foundation.Execution

/-! # Concurrent proposals

`propose` releases the state lock between its in-memory append and its durable
append. The steps of several calls interleave here; the durable log ends equal
to the log in memory exactly when the durable appends come in the order of the
indices. -/

namespace FunDB.Raft

/-- How far a call of `propose` has come. -/
inductive ProposeCall where
  | started (data : List UInt8)
  | checked (data : List UInt8)
  | appended (entry : LogEntry)
  | stored (entry : LogEntry)
  | returned (result : Except RaftError Unit)
deriving DecidableEq

/-- The entry that the call still has to store. -/
def ProposeCall.waiting : ProposeCall → Option LogEntry
  | .appended entry => some entry
  | _ => none

/-- The next critical section of a call. -/
def ProposeCall.advance {Disk : Type} [RaftStorage Disk] (node : RaftNode Disk) : ProposeCall → ProposeCall × RaftNode Disk
  | .started data =>
      match node.proposeCheck with
      | .error error => (.returned (.error error), node)
      | .ok () => (.checked data, node)
  | .checked data =>
      let (entry, node) := node.proposeAppend data
      (.appended entry, node)
  | .appended entry =>
      let (result, node) := node.proposeStore entry
      match result with
      | .error error => (.returned (.error error), node)
      | .ok () => (.stored entry, node)
  | .stored entry =>
      let (result, node) := node.proposeCommit entry
      (.returned result, node)
  | .returned result => (.returned result, node)

/-- The call has not appended its entry yet. -/
def ProposeCall.unpushed : ProposeCall → Bool
  | .started _ | .checked _ => true
  | .appended _ | .stored _ | .returned _ => false

/-- A node and the calls of `propose` in flight on it. -/
structure Proposals where
  node : RaftNode MemoryRaftStorage
  calls : List ProposeCall

namespace Proposals

def start (node : RaftNode MemoryRaftStorage) (data : List (List UInt8)) : Proposals where
  node := node
  calls := data.map .started

/-- The next critical section of one call. -/
def step (state : Proposals) (caller : Nat) : Proposals :=
  match state.calls[caller]? with
  | some call =>
      let (call, node) := call.advance state.node
      { node := node, calls := state.calls.set caller call }
  | none => state

/-- The entries between their two appends. -/
def waiting (state : Proposals) : List LogEntry :=
  state.calls.filterMap ProposeCall.waiting

/-- Every call has returned `Ok`. -/
def Finished (state : Proposals) : Prop :=
  ∀ call ∈ state.calls, call = .returned (.ok ())

instance (state : Proposals) : Decidable state.Finished :=
  inferInstanceAs (Decidable (∀ call ∈ state.calls, _))

/-- The step does not store an entry while one of a smaller index waits. -/
def StoresInOrder (state : Proposals) (caller : Nat) : Prop :=
  match state.calls[caller]? with
  | some (.appended entry) => ∀ other ∈ state.waiting, entry.index ≤ other.index
  | _ => True

instance (state : Proposals) (caller : Nat) :
    Decidable (state.StoresInOrder caller) :=
  match found : state.calls[caller]? with
  | some (.appended entry) =>
      decidable_of_iff (∀ other ∈ state.waiting, entry.index ≤ other.index)
        (by rw [StoresInOrder, found])
  | some (.started _) | some (.checked _) | some (.stored _) | some (.returned _)
  | none => .isTrue (by rw [StoresInOrder, found]; trivial)

/-! ## What a step does to the logs -/

/-- A step leaves both logs alone, pushes an entry in memory, or stores a
waiting entry. -/
inductive LogChange (before after : Proposals) (caller : Nat) : Prop where
  | unchanged
      (sameLog : after.node.state.log = before.node.state.log)
      (sameStored : after.node.storage.log = before.node.storage.log)
      (sameWaiting : after.waiting = before.waiting)
  | appended (entry : LogEntry)
      (called : ∃ data, before.calls[caller]? = some (.checked data))
      (next : entry.index = wrappingSucc before.node.state.lastLogIndex)
      (pushed : after.node.state.log = before.node.state.log ++ [entry])
      (sameStored : after.node.storage.log = before.node.storage.log)
      (joined : after.waiting.Perm (entry :: before.waiting))
  | stored (entry : LogEntry)
      (called : before.calls[caller]? = some (.appended entry))
      (sameLog : after.node.state.log = before.node.state.log)
      (written : after.node.storage.log =
        MemoryRaftStorage.appendEntry before.node.storage.log entry)
      (left : before.waiting.Perm (entry :: after.waiting))

theorem filterMap_waiting_set {calls : List ProposeCall} {caller : Nat}
    {call next : ProposeCall} (found : calls[caller]? = some call)
    (same : next.waiting = call.waiting) :
    (calls.set caller next).filterMap ProposeCall.waiting =
      calls.filterMap ProposeCall.waiting := by
  rcases Execution.exists_split_of_getElem? found with ⟨earlier, later, split, replaced⟩
  rw [replaced next, split]
  simp [List.filterMap_cons, same]

theorem proposeCommit_logs (node : RaftNode MemoryRaftStorage) (entry : LogEntry) :
    (node.proposeCommit entry).2.state.log = node.state.log ∧
      (node.proposeCommit entry).2.storage.log = node.storage.log := by
  rcases node.proposeCommit_cases entry with result | result <;> rw [result]
  · exact ⟨rfl, rfl⟩
  · exact ⟨rfl, rfl⟩

theorem step_of_call {state : Proposals} {caller : Nat} {call : ProposeCall}
    (called : state.calls[caller]? = some call) :
    state.step caller =
      ⟨(call.advance state.node).2, state.calls.set caller (call.advance state.node).1⟩ := by
  rw [step, called]

theorem step_of_appended {state : Proposals} {caller : Nat} {entry : LogEntry}
    (called : state.calls[caller]? = some (.appended entry)) :
    (state.step caller).node.state.log = state.node.state.log ∧
      (state.step caller).node.storage.log =
        MemoryRaftStorage.appendEntry state.node.storage.log entry ∧
      state.waiting.Perm (entry :: (state.step caller).waiting) := by
  rcases Execution.exists_split_of_getElem? called with ⟨earlier, later, split, replaced⟩
  rw [step_of_call called]
  refine ⟨rfl, rfl, ?_⟩
  dsimp only [ProposeCall.advance, RaftNode.proposeStore, RaftStorage.appendEntries,
    Except.mapError]
  rw [waiting, waiting, replaced, split]
  simp [List.filterMap_cons, ProposeCall.waiting]

theorem step_logChange (state : Proposals) (caller : Nat) :
    LogChange state (state.step caller) caller := by
  cases called : state.calls[caller]? with
  | none =>
      rw [step, called]
      exact .unchanged rfl rfl rfl
  | some call =>
      cases call with
      | started data =>
          rw [step_of_call called, ProposeCall.advance]
          split <;> exact .unchanged rfl rfl (filterMap_waiting_set called rfl)
      | checked data =>
          rcases Execution.exists_split_of_getElem? called with ⟨earlier, later, split, replaced⟩
          rw [step_of_call called, ProposeCall.advance]
          refine .appended (state.node.proposeAppend data).1 ⟨data, called⟩ rfl rfl rfl ?_
          dsimp only
          rw [waiting, waiting, replaced, split]
          simp [List.filterMap_cons, ProposeCall.waiting]
      | appended entry =>
          rcases step_of_appended called with ⟨sameLog, written, left⟩
          exact .stored entry called sameLog written left
      | stored entry =>
          rcases proposeCommit_logs state.node entry with ⟨sameLog, sameStored⟩
          rw [step_of_call called, ProposeCall.advance]
          exact .unchanged sameLog sameStored (filterMap_waiting_set called rfl)
      | returned result =>
          rw [step_of_call called, ProposeCall.advance]
          exact .unchanged rfl rfl (filterMap_waiting_set called rfl)

/-! ## Indices that fit -/

/-- The calls that have not appended yet. -/
def unpushed (state : Proposals) : Nat := state.calls.countP ProposeCall.unpushed

/-- The indices that the calls will take are below the last one. -/
def Fits (state : Proposals) : Prop :=
  state.node.state.lastLogIndex + state.unpushed < 2 ^ 64

theorem countP_unpushed_set {calls : List ProposeCall} {caller : Nat} {call : ProposeCall}
    (called : calls[caller]? = some call) (next : ProposeCall) :
    (calls.set caller next).countP ProposeCall.unpushed + call.unpushed.toNat =
      calls.countP ProposeCall.unpushed + next.unpushed.toNat := by
  rcases Execution.exists_split_of_getElem? called with ⟨earlier, later, split, replaced⟩
  rw [replaced, split]
  simp only [List.countP_append, List.countP_cons]
  cases call.unpushed <;> cases next.unpushed <;> simp <;> omega

/-- An index is taken by a call that has not appended, and only once. -/
theorem Fits.step {state : Proposals} (fits : state.Fits) (caller : Nat) :
    (state.step caller).Fits := by
  cases called : state.calls[caller]? with
  | none =>
      rw [Proposals.step, called]
      exact fits
  | some call =>
      have counted := countP_unpushed_set called (call.advance state.node).1
      rw [step_of_call called]
      unfold Fits unpushed at fits ⊢
      dsimp only
      cases call with
      | started data =>
          rw [ProposeCall.advance] at counted ⊢
          split at counted
          · simp [ProposeCall.unpushed] at counted ⊢
            omega
          · simp [ProposeCall.unpushed] at counted ⊢
            omega
      | checked data =>
          have longer : ((ProposeCall.checked data).advance state.node).2.state.lastLogIndex =
              wrappingSucc state.node.state.lastLogIndex := by
            rw [RaftState.lastLogIndex]
            simp [ProposeCall.advance, RaftNode.proposeAppend]
          have taken : (((ProposeCall.checked data).advance state.node).1).unpushed = false := rfl
          rw [taken] at counted
          simp only [ProposeCall.unpushed, Bool.toNat_true, Bool.toNat_false] at counted
          rw [longer, wrappingSucc_of_lt (by omega)]
          omega
      | appended entry =>
          have sameLog := (step_of_appended called).1
          rw [step_of_call called] at sameLog
          have still : ((ProposeCall.appended entry).advance state.node).2.state.lastLogIndex =
              state.node.state.lastLogIndex :=
            congrArg (fun log => (log.getLast?.map LogEntry.index).getD 0) sameLog
          have taken : (((ProposeCall.appended entry).advance state.node).1).unpushed = false := rfl
          rw [taken] at counted
          simp only [ProposeCall.unpushed, Bool.toNat_false] at counted
          rw [still]
          omega
      | stored entry =>
          have sameLog := (proposeCommit_logs state.node entry).1
          have taken : (((ProposeCall.stored entry).advance state.node).1).unpushed = false := rfl
          rw [taken] at counted
          simp only [ProposeCall.unpushed, Bool.toNat_false] at counted
          have still : ((ProposeCall.stored entry).advance state.node).2.state.lastLogIndex =
              state.node.state.lastLogIndex :=
            congrArg (fun log => (log.getLast?.map LogEntry.index).getD 0) sameLog
          rw [still]
          omega
      | returned result =>
          simp only [ProposeCall.advance, ProposeCall.unpushed, Bool.toNat_false] at counted ⊢
          omega

/-- The index that a call takes is the next one. -/
theorem Fits.next {state : Proposals} (fits : state.Fits) {caller : Nat} {data : List UInt8}
    (called : state.calls[caller]? = some (.checked data)) :
    wrappingSucc state.node.state.lastLogIndex = state.node.state.lastLogIndex + 1 := by
  have counted := countP_unpushed_set called (.returned (.ok ()))
  simp only [ProposeCall.unpushed, Bool.toNat_true, Bool.toNat_false] at counted
  unfold Fits unpushed at fits
  exact wrappingSucc_of_lt (by omega)

/-! ## Invariants -/

/-- What holds in every interleaving: the log in memory is ordered by index, and
the waiting and the stored entries come from it. -/
structure Interleaved (state : Proposals) : Prop where
  fits : state.Fits
  increasing : state.node.state.log.Pairwise fun first second => first.index < second.index
  distinct : state.waiting.Nodup
  waitingLogged : ∀ entry ∈ state.waiting, 0 < entry.index ∧ entry ∈ state.node.state.log
  storedLogged : ∀ entry ∈ state.node.storage.log, entry ∈ state.node.state.log

/-- The durable log lacks nothing but the waiting entries at its end. -/
def Trailing (state : Proposals) : Prop :=
  ∃ pending, state.node.state.log = state.node.storage.log ++ pending ∧
    pending.Perm state.waiting

/-- An entry that no call will store again is missing in the durable log, or
will be truncated from it by a waiting entry of a smaller index. -/
def Doomed (state : Proposals) : Prop :=
  ∃ entry ∈ state.node.state.log, entry ∉ state.waiting ∧
    (entry ∉ state.node.storage.log ∨
      ∃ other ∈ state.waiting, other.index < entry.index)

theorem index_le_lastLogIndex {log : List LogEntry}
    (increasing : log.Pairwise fun first second => first.index < second.index)
    {entry : LogEntry} (member : entry ∈ log) :
    entry.index ≤ (log.getLast?.map LogEntry.index).getD 0 := by
  cases log using List.reverseRecOn with
  | nil => cases member
  | append_singleton earlier last =>
      rw [List.getLast?_concat, Option.map_some, Option.getD_some]
      rcases List.mem_append.mp member with inside | isLast
      · have below := (List.pairwise_append.mp increasing).2.2 entry inside last
          List.mem_cons_self
        omega
      · rw [List.mem_singleton.mp isLast]

theorem Interleaved.step {state : Proposals} (interleaved : state.Interleaved)
    (caller : Nat) : (state.step caller).Interleaved := by
  rcases state.step_logChange caller with
    ⟨sameLog, sameStored, sameWaiting⟩ | ⟨entry, ⟨data, called⟩, next, pushed, sameStored, joined⟩ |
    ⟨entry, called, sameLog, written, left⟩
  · exact
      { fits := interleaved.fits.step caller
        increasing := by rw [sameLog]; exact interleaved.increasing
        distinct := by rw [sameWaiting]; exact interleaved.distinct
        waitingLogged := by rw [sameWaiting, sameLog]; exact interleaved.waitingLogged
        storedLogged := by rw [sameStored, sameLog]; exact interleaved.storedLogged }
  · have beyond : ∀ existing ∈ state.node.state.log, existing.index < entry.index := by
      intro existing member
      have bound := index_le_lastLogIndex interleaved.increasing member
      rw [next, interleaved.fits.next called, RaftState.lastLogIndex]
      omega
    have fresh : entry ∉ state.waiting := by
      intro member
      exact Nat.lt_irrefl _ (beyond entry (interleaved.waitingLogged entry member).2)
    refine
      { fits := interleaved.fits.step caller
        increasing := ?_
        distinct := joined.nodup_iff.mpr (List.nodup_cons.mpr ⟨fresh, interleaved.distinct⟩)
        waitingLogged := ?_
        storedLogged := ?_ }
    · rw [pushed]
      exact List.pairwise_append.mpr ⟨interleaved.increasing, List.pairwise_singleton _ _,
        fun existing member last isLast => by
          rw [List.mem_singleton.mp isLast]
          exact beyond existing member⟩
    · intro other member
      rw [pushed]
      rcases List.mem_cons.mp (joined.mem_iff.mp member) with rfl | old
      · refine ⟨?_, by simp⟩
        rw [next, interleaved.fits.next called]
        exact Nat.succ_pos _
      · rcases interleaved.waitingLogged other old with ⟨positive, logged⟩
        exact ⟨positive, List.mem_append_left _ logged⟩
    · intro other member
      rw [sameStored] at member
      rw [pushed]
      exact List.mem_append_left _ (interleaved.storedLogged other member)
  · have waits : entry ∈ state.waiting := left.mem_iff.mpr List.mem_cons_self
    rcases interleaved.waitingLogged entry waits with ⟨positive, logged⟩
    refine
      { fits := interleaved.fits.step caller
        increasing := by rw [sameLog]; exact interleaved.increasing
        distinct := (List.nodup_cons.mp (left.nodup_iff.mp interleaved.distinct)).2
        waitingLogged := ?_
        storedLogged := ?_ }
    · intro other member
      rw [sameLog]
      exact interleaved.waitingLogged other
        (left.mem_iff.mpr (List.mem_cons_of_mem _ member))
    · intro other member
      rw [written] at member
      rw [sameLog]
      rcases MemoryRaftStorage.index_lt_of_mem_appendEntry positive member with rfl | old
      · exact logged
      · exact interleaved.storedLogged other old.1

/-- Stored in order, the entry is the first of the pending ones. -/
theorem Trailing.step {state : Proposals} (trailing : state.Trailing)
    (interleaved : state.Interleaved) {caller : Nat}
    (inOrder : state.StoresInOrder caller) : (state.step caller).Trailing := by
  rcases trailing with ⟨pending, split, permuted⟩
  rcases state.step_logChange caller with
    ⟨sameLog, sameStored, sameWaiting⟩ | ⟨entry, ⟨data, called⟩, next, pushed, sameStored, joined⟩ |
    ⟨entry, called, sameLog, written, left⟩
  · exact ⟨pending, by rw [sameLog, sameStored, split], by rw [sameWaiting]; exact permuted⟩
  · refine ⟨pending ++ [entry], by rw [pushed, sameStored, split, List.append_assoc], ?_⟩
    exact (List.perm_append_singleton entry pending).trans
      ((permuted.cons entry).trans joined.symm)
  · have increasing := interleaved.increasing
    rw [split, List.pairwise_append] at increasing
    rw [StoresInOrder, called] at inOrder
    have waits : entry ∈ pending :=
      permuted.mem_iff.mpr (left.mem_iff.mpr List.mem_cons_self)
    rcases pending with _ | ⟨first, rest⟩
    · cases waits
    · have isFirst : first = entry := by
        rcases List.mem_cons.mp waits with same | later
        · exact same.symm
        · have smaller := (List.pairwise_cons.mp increasing.2.1).1 entry later
          have least := inOrder first (permuted.mem_iff.mp List.mem_cons_self)
          omega
      subst isFirst
      refine ⟨rest, ?_, (List.perm_cons _).mp (permuted.trans left)⟩
      have pushedLast := MemoryRaftStorage.appendEntry_of_lt
        fun existing member => increasing.2.2 existing member first List.mem_cons_self
      rw [sameLog, written, pushedLast, split, List.append_assoc]
      rfl

theorem Doomed.step {state : Proposals} (doomed : state.Doomed)
    (interleaved : state.Interleaved) (caller : Nat) : (state.step caller).Doomed := by
  rcases doomed with ⟨victim, logged, settled, fate⟩
  rcases state.step_logChange caller with
    ⟨sameLog, sameStored, sameWaiting⟩ | ⟨entry, ⟨data, called⟩, next, pushed, sameStored, joined⟩ |
    ⟨entry, called, sameLog, written, left⟩
  · rw [Doomed, sameLog, sameStored, sameWaiting]
    exact ⟨victim, logged, settled, fate⟩
  · have bound := index_le_lastLogIndex interleaved.increasing logged
    have older : victim ≠ entry := by
      intro same
      rw [same, next, interleaved.fits.next called, RaftState.lastLogIndex] at bound
      omega
    refine ⟨victim, by rw [pushed]; exact List.mem_append_left _ logged, ?_, ?_⟩
    · intro member
      rcases List.mem_cons.mp (joined.mem_iff.mp member) with same | old
      · exact older same
      · exact settled old
    · rw [sameStored]
      rcases fate with missing | ⟨other, waits, smaller⟩
      · exact .inl missing
      · exact .inr ⟨other, joined.mem_iff.mpr (List.mem_cons_of_mem _ waits), smaller⟩
  · have waits : entry ∈ state.waiting := left.mem_iff.mpr List.mem_cons_self
    have positive := (interleaved.waitingLogged entry waits).1
    have different : victim ≠ entry := by
      intro same
      rw [← same] at waits
      exact settled waits
    refine ⟨victim, by rw [sameLog]; exact logged, ?_, ?_⟩
    · intro member
      exact settled (left.mem_iff.mpr (List.mem_cons_of_mem _ member))
    · rw [written]
      rcases fate with missing | ⟨other, waits, smaller⟩
      · left
        intro member
        rcases MemoryRaftStorage.index_lt_of_mem_appendEntry positive member with
          same | old
        · exact different same
        · exact missing old.1
      · rcases List.mem_cons.mp (left.mem_iff.mp waits) with rfl | stillWaits
        · -- The truncation that comes with this append removes the victim.
          left
          intro member
          rcases MemoryRaftStorage.index_lt_of_mem_appendEntry positive member with
            same | old
          · exact different same
          · omega
        · exact .inr ⟨other, stillWaits, smaller⟩

/-- Storing an entry ahead of a smaller one dooms it. -/
theorem doomed_of_outOfOrder {state : Proposals} (interleaved : state.Interleaved)
    {caller : Nat} (outOfOrder : ¬ state.StoresInOrder caller) :
    (state.step caller).Doomed := by
  rw [StoresInOrder] at outOfOrder
  split at outOfOrder
  · rename_i entry called
    simp only [not_forall, Nat.not_le] at outOfOrder
    rcases outOfOrder with ⟨other, waits, smaller⟩
    rcases step_of_appended called with ⟨sameLog, _, left⟩
    have logged := (interleaved.waitingLogged entry
      (left.mem_iff.mpr List.mem_cons_self)).2
    have settled := (List.nodup_cons.mp (left.nodup_iff.mp interleaved.distinct)).1
    refine ⟨entry, by rw [sameLog]; exact logged, settled, .inr ⟨other, ?_, smaller⟩⟩
    rcases List.mem_cons.mp (left.mem_iff.mp waits) with rfl | stillWaits
    · omega
    · exact stillWaits
  · exact absurd trivial outOfOrder

theorem Finished.waiting_eq_nil {state : Proposals} (finished : state.Finished) :
    state.waiting = [] := by
  rw [waiting, List.filterMap_eq_nil_iff]
  intro call member
  rw [finished call member]
  rfl

@[simp] theorem start_waiting (node : RaftNode MemoryRaftStorage)
    (data : List (List UInt8)) : (start node data).waiting = [] := by
  rw [waiting, List.filterMap_eq_nil_iff]
  intro call member
  rcases List.mem_map.mp member with ⟨_, _, rfl⟩
  rfl

@[simp] theorem start_unpushed (node : RaftNode MemoryRaftStorage)
    (data : List (List UInt8)) : (start node data).unpushed = data.length := by
  rw [unpushed, start, List.countP_map]
  exact List.countP_eq_length.mpr fun _ _ => rfl

/-- Once all calls have returned `Ok`, in whatever interleaving, the durable log
equals the log in memory exactly when no entry was stored while one of a smaller
index was waiting. No index of theirs wraps. -/
theorem durable_log_eq_iff_storesInOrder (node : RaftNode MemoryRaftStorage)
    (sameLog : node.storage.log = node.state.log)
    (increasing : node.state.log.Pairwise fun first second => first.index < second.index)
    (data : List (List UInt8)) (fits : node.state.lastLogIndex + data.length < 2 ^ 64)
    (schedule : List Nat)
    (finished : (Execution.run step (start node data) schedule).Finished) :
    (Execution.run step (start node data) schedule).node.storage.log =
        (Execution.run step (start node data) schedule).node.state.log ↔
      Execution.EveryStep step StoresInOrder (start node data) schedule := by
  have initial : (start node data).Interleaved :=
    { fits := by rw [Fits, start_unpushed]; exact fits
      increasing := increasing
      distinct := by simp
      waitingLogged := by simp
      storedLogged := fun entry member => by
        rw [start, sameLog] at member
        exact member }
  have interleaved (steps : List Nat) :
      (Execution.run step (start node data) steps).Interleaved :=
    Execution.run_invariant step Interleaved (fun _ caller held => held.step caller)
      initial steps
  constructor
  · intro equal
    by_contra broken
    rcases Execution.exists_of_not_everyStep step broken with
      ⟨done, caller, rest, rfl, outOfOrder⟩
    have doomed := doomed_of_outOfOrder (interleaved done) outOfOrder
    have invariant := Execution.run_invariant step
      (fun state => state.Interleaved ∧ state.Doomed)
      (fun _ caller held => ⟨held.1.step caller, held.2.step held.1 caller⟩)
      ⟨(interleaved done).step caller, doomed⟩ rest
    rw [Execution.run_append, Execution.run_cons] at equal finished
    rcases invariant.2 with ⟨victim, logged, _, missing | ⟨other, waits, _⟩⟩
    · rw [equal] at missing
      exact missing logged
    · rw [finished.waiting_eq_nil] at waits
      cases waits
  · intro inOrder
    have trailing := Execution.holds_of_everyStep step
      (fun done => (Execution.run step (start node data) done).Trailing)
      ⟨[], by simp [start, sameLog], by simp⟩
      (fun done caller held met => by
        rw [Execution.run_concat]
        exact held.step (interleaved done) met)
      inOrder schedule (List.prefix_refl _)
    rcases trailing with ⟨pending, split, permuted⟩
    rw [finished.waiting_eq_nil, List.perm_nil] at permuted
    rw [split, permuted, List.append_nil]

/-- A node without peers that has won its election. -/
def makeLeader : RaftNode MemoryRaftStorage :=
  (RaftNode.new 1 [] MemoryRaftStorage.new).startElection.2

theorem durable_log_eq_iff_storesInOrder_overlapping :
    let proposals := start makeLeader [[7], [8]]
    let schedule := [0, 1, 1, 0, 1, 0, 0, 1]
    (Execution.run step proposals schedule).node.storage.log =
      (Execution.run step proposals schedule).node.state.log :=
  (durable_log_eq_iff_storesInOrder makeLeader (by decide) (by decide) [[7], [8]]
    (by decide) [0, 1, 1, 0, 1, 0, 0, 1] (by decide)).mpr (by decide)

/-- The second proposal is stored first; storing the first one then truncates it
from the durable log. -/
theorem second_proposal_truncated :
    let proposals := start makeLeader [[7], [8]]
    let schedule := [0, 1, 0, 1, 1, 0, 0, 1]
    (Execution.run step proposals schedule).Finished ∧
      (Execution.run step proposals schedule).node.state.log =
        [⟨1, 1, [7], .normal⟩, ⟨2, 1, [8], .normal⟩] ∧
      (Execution.run step proposals schedule).node.storage.log =
        [⟨1, 1, [7], .normal⟩] :=
  ⟨by decide, by decide, by decide⟩

end Proposals

end FunDB.Raft
