import FunDB.Storage.Recovery
import FunDB.Foundation.Execution

/-! # The order of the log and of the memtable

`write` gives the log back before it inserts into the memtable. The two steps
of several calls interleave here; a restart shows what the running tree shows
exactly when, for each key, the call logged last and the call inserted last
wrote the same record. -/

namespace FunDB.Storage

open Overlay

/-- How far a call of `write` has come. -/
inductive WriteCall where
  | started (key : RecordKey) (record : FunRecord)
  | logged (key : RecordKey) (record : FunRecord)
  | returned
deriving DecidableEq

/-- A tree and the calls of `write` in flight on it. -/
structure Writers where
  tree : LsmTree
  calls : List WriteCall

namespace Writers

variable (platform : Platform)

def start (tree : LsmTree) (writes : List (RecordKey × FunRecord)) : Writers where
  tree := tree
  calls := writes.map fun write => .started write.1 write.2

/-- The next step of one call: append to the log, insert into the memtable. -/
def step (state : Writers) (caller : Nat) : Writers :=
  match state.calls[caller]? with
  | some (.started key record) =>
      { tree := state.tree.logEntry (.write 0 key record)
        calls := state.calls.set caller (.logged key record) }
  | some (.logged key record) =>
      { tree := state.tree.insertActive platform key record
        calls := state.calls.set caller .returned }
  | some .returned => state
  | none => state

def run (state : Writers) (schedule : List Nat) : Writers :=
  Execution.run (step platform) state schedule

/-- Every call has returned. -/
def Finished (state : Writers) : Prop :=
  ∀ call ∈ state.calls, call = .returned

instance (state : Writers) : Decidable state.Finished :=
  inferInstanceAs (Decidable (∀ call ∈ state.calls, _))

/-- The calls in the order of their log entries. -/
def logOrder (schedule : List Nat) : List Nat :=
  Execution.stepOrder 0 [] schedule

def insertOrder (schedule : List Nat) : List Nat :=
  Execution.stepOrder 1 [] schedule

/-- The record that a call writes for a key. -/
def writtenBy (writes : List (RecordKey × FunRecord)) (caller : Nat) (key : RecordKey) :
    Option FunRecord :=
  writes[caller]?.bind fun write => if write.1 = key then some write.2 else none

/-- The record of the last of these calls that writes the key. -/
def lastBy (writes : List (RecordKey × FunRecord)) (order : List Nat) (key : RecordKey) :
    Option FunRecord :=
  newest (writtenBy writes) order key

/-- The call logged last and the call inserted last write the same record, for
every key. -/
def OrdersAgree (writes : List (RecordKey × FunRecord)) (schedule : List Nat) : Prop :=
  ∀ key, lastBy writes (logOrder schedule) key = lastBy writes (insertOrder schedule) key

/-! ## What the steps leave -/

/-- Where a call is after a number of steps. -/
def callAfter (write : RecordKey × FunRecord) : Nat → WriteCall
  | 0 => .started write.1 write.2
  | 1 => .logged write.1 write.2
  | _ + 2 => .returned

/-- What a schedule has done: each call has taken its steps, and log and
memtable hold what the calls brought in their two orders. -/
structure Progress (before : Writers) (writes : List (RecordKey × FunRecord))
    (done : List Nat) (state : Writers) : Prop where
  calls : ∀ caller, state.calls[caller]? =
    writes[caller]?.map fun write => callAfter write (done.count caller)
  log : ∀ key, lastLogged state.tree.wal.entries key =
    (lastBy writes (logOrder done) key).or (lastLogged before.tree.wal.entries key)
  memtable : ∀ key, state.tree.active.get key =
    (lastBy writes (insertOrder done) key).or (before.tree.active.get key)

variable {platform}

theorem lastBy_logOrder_concat (writes : List (RecordKey × FunRecord)) (done : List Nat)
    (caller : Nat) (key : RecordKey) :
    lastBy writes (logOrder (done ++ [caller])) key =
      if done.count caller = 0 then
        (writtenBy writes caller key).or (lastBy writes (logOrder done) key)
      else
        lastBy writes (logOrder done) key := by
  rw [logOrder, Execution.stepOrder_concat, lastBy, newest_append, List.count_nil, Nat.zero_add]
  split
  · rw [newest_singleton]
    rfl
  · rfl

theorem lastBy_insertOrder_concat (writes : List (RecordKey × FunRecord)) (done : List Nat)
    (caller : Nat) (key : RecordKey) :
    lastBy writes (insertOrder (done ++ [caller])) key =
      if done.count caller = 1 then
        (writtenBy writes caller key).or (lastBy writes (insertOrder done) key)
      else
        lastBy writes (insertOrder done) key := by
  rw [insertOrder, Execution.stepOrder_concat, lastBy, newest_append, List.count_nil,
    Nat.zero_add]
  split
  · rw [newest_singleton]
    rfl
  · rfl

/-- Setting the phase of the caller keeps the other calls where they are. -/
theorem calls_concat {calls : List WriteCall} {writes : List (RecordKey × FunRecord)}
    {done : List Nat} {caller : Nat} {write : RecordKey × FunRecord} {next : WriteCall}
    (progress : ∀ other, calls[other]? =
      writes[other]?.map fun write => callAfter write (done.count other))
    (called : writes[caller]? = some write)
    (advanced : next = callAfter write (done.count caller + 1)) (other : Nat) :
    (calls.set caller next)[other]? =
      writes[other]?.map fun write => callAfter write ((done ++ [caller]).count other) := by
  have size : caller < calls.length := by
    have here := progress caller
    rw [called] at here
    exact (List.getElem?_eq_some_iff.mp here).1
  rw [List.getElem?_set, List.count_append, List.count_singleton]
  by_cases same : caller = other
  · subst same
    simp [size, called, advanced]
  · have different : (caller == other) = false := by simp [same]
    simp [same, progress other, different]

/-- A call that writes nothing or has returned leaves everything as it is. -/
theorem progress_idle {before state : Writers} {writes : List (RecordKey × FunRecord)}
    {done : List Nat} (progress : Progress before writes done state) {caller : Nat}
    (idle : ∀ write, writes[caller]? = some write → 2 ≤ done.count caller) :
    Progress before writes (done ++ [caller]) state := by
  constructor
  · intro other
    rw [progress.calls other, List.count_append, List.count_singleton]
    by_cases same : caller = other
    · subst same
      cases called : writes[caller]? with
      | none => rfl
      | some write =>
          rcases Nat.exists_eq_add_of_le' (idle write called) with ⟨more, taken⟩
          simp [taken, callAfter]
    · have different : (caller == other) = false := by simp [same]
      simp [different]
  · intro key
    rw [progress.log key, lastBy_logOrder_concat]
    cases called : writes[caller]? with
    | none => simp [writtenBy, called]
    | some write =>
        have taken := idle write called
        rw [if_neg (by omega)]
  · intro key
    rw [progress.memtable key, lastBy_insertOrder_concat]
    cases called : writes[caller]? with
    | none => simp [writtenBy, called]
    | some write =>
        have taken := idle write called
        rw [if_neg (by omega)]

theorem progress_step {before state : Writers} {writes : List (RecordKey × FunRecord)}
    {done : List Nat} (progress : Progress before writes done state) (caller : Nat) :
    Progress before writes (done ++ [caller]) (step platform state caller) := by
  have phase := progress.calls caller
  cases called : writes[caller]? with
  | none =>
      rw [called, Option.map_none] at phase
      rw [step, phase]
      apply progress_idle progress
      intro write other
      rw [called] at other
      cases other
  | some write =>
      rw [called, Option.map_some] at phase
      have brought : ∀ key, writtenBy writes caller key =
          if write.1 = key then some write.2 else none := by
        intro key
        rw [writtenBy, called]
        rfl
      rcases taken : done.count caller with _ | _ | more
      · -- The first step logs the entry.
        rw [taken, callAfter] at phase
        rw [step, phase]
        constructor
        · exact calls_concat progress.calls called (by rw [taken]; rfl)
        · intro key
          simp only [LsmTree.logEntry, Wal.append]
          rw [lastLogged_concat, progress.log key, lastBy_logOrder_concat, taken, if_pos rfl,
            brought key, WalEntry.written, Option.or_assoc]
        · intro key
          rw [lastBy_insertOrder_concat, taken, if_neg (by decide)]
          exact progress.memtable key
      · -- The second step inserts the record.
        rw [taken, callAfter] at phase
        rw [step, phase]
        constructor
        · exact calls_concat progress.calls called (by rw [taken]; rfl)
        · intro key
          rw [lastBy_logOrder_concat, taken, if_neg (by decide)]
          exact progress.log key
        · intro key
          simp only [LsmTree.insertActive]
          rw [MemTable.get_insert, progress.memtable key, lastBy_insertOrder_concat, taken,
            if_pos rfl, brought key]
          split <;> rfl
      · rw [taken, callAfter] at phase
        rw [step, phase]
        apply progress_idle progress
        intro _ _
        omega

theorem progress_run (platform : Platform) (tree : LsmTree) (writes : List (RecordKey × FunRecord))
    (schedule : List Nat) :
    Progress (start tree writes) writes schedule (run platform (start tree writes) schedule) := by
  induction schedule using List.reverseRecOn with
  | nil =>
      constructor
      · intro caller
        rw [run, Execution.run_nil, start, List.getElem?_map]
        rfl
      · intro key
        rfl
      · intro key
        rfl
  | append_singleton done caller induction =>
      rw [run, Execution.run_concat]
      exact progress_step induction caller

/-! ## After the last call has returned -/

/-- Every call that writes has taken both steps, so a key appears in both
orders or in neither. -/
theorem lastBy_eq_none_iff_of_finished {tree : LsmTree} {writes : List (RecordKey × FunRecord)}
    {schedule : List Nat} (finished : (run platform (start tree writes) schedule).Finished)
    (key : RecordKey) :
    lastBy writes (logOrder schedule) key = none ↔
      lastBy writes (insertOrder schedule) key = none := by
  have steps : ∀ caller write, writes[caller]? = some write → 2 ≤ schedule.count caller := by
    intro caller write called
    have phase := (progress_run platform tree writes schedule).calls caller
    rw [called, Option.map_some] at phase
    have returned := finished _ (List.mem_of_getElem? phase)
    rcases taken : schedule.count caller with _ | _ | taken
    · rw [taken] at returned
      cases returned
    · rw [taken] at returned
      cases returned
    · omega
  have present : ∀ order, (∀ caller write, writes[caller]? = some write → caller ∈ order) →
      (lastBy writes order key = none ↔ ∀ caller, writtenBy writes caller key = none) := by
    intro order complete
    rw [lastBy, newest_eq_none_iff]
    constructor
    · intro absent caller
      cases called : writes[caller]? with
      | none =>
          rw [writtenBy, called]
          rfl
      | some write => exact absent caller (complete caller write called)
    · intro absent caller _
      exact absent caller
  rw [present (logOrder schedule) fun caller write called => ?_,
    present (insertOrder schedule) fun caller write called => ?_]
  · have taken := steps caller write called
    rw [insertOrder, Execution.mem_stepOrder_iff]
    omega
  · have taken := steps caller write called
    rw [logOrder, Execution.mem_stepOrder_iff]
    omega

/-- Once all calls on a freshly opened tree have returned, replaying the log
gives the memtable exactly if log and memtable saw the same last record of each
key. -/
theorem replay_eq_active_iff (platform : Platform) (logged : List WalEntry)
    (files : List SstFile) (readings : Nat) (writes : List (RecordKey × FunRecord))
    (schedule : List Nat)
    (finished : (run platform
      (start (LsmTree.openDir platform logged files readings) writes) schedule).Finished) :
    ((run platform (start (LsmTree.openDir platform logged files readings) writes)
        schedule).tree.reopen platform).active.inner =
      (run platform (start (LsmTree.openDir platform logged files readings) writes)
        schedule).tree.active.inner ↔
      OrdersAgree writes schedule := by
  have progress := progress_run platform
    (LsmTree.openDir platform logged files readings) writes schedule
  have opened : ∀ key, (LsmTree.openDir platform logged files readings).active.get key =
      lastLogged logged key := LsmTree.get_replay logged
  constructor
  · intro same key
    have absent := lastBy_eq_none_iff_of_finished finished key
    have shown := congrArg (fun table => table[key]?) same
    change MemTable.get _ key = MemTable.get _ key at shown
    rw [LsmTree.reopen, LsmTree.openDir, LsmTree.get_replay, progress.log key,
      progress.memtable key] at shown
    -- A key that one order has, the other has too.
    cases last : lastBy writes (logOrder schedule) key with
    | none => exact (absent.mp last).symm
    | some record =>
        cases inserted : lastBy writes (insertOrder schedule) key with
        | none =>
            rw [absent.mpr inserted] at last
            cases last
        | some other =>
            rw [last, inserted] at shown
            exact shown
  · intro agree
    apply Std.ExtTreeMap.ext_getElem?
    intro key
    change MemTable.get _ key = MemTable.get _ key
    rw [LsmTree.reopen, LsmTree.openDir, LsmTree.get_replay, progress.log key,
      progress.memtable key, agree key]
    exact congrArg _ (opened key).symm

/-- Two calls that write one key. -/
def rivals : List (RecordKey × FunRecord) :=
  [(makeKey 1, makeRecord [1]), (makeKey 1, makeRecord [2])]

theorem replay_eq_active_iff_rivals :
    ((run plainPlatform (start (LsmTree.openDir plainPlatform [] [] 0) rivals)
        [0, 1, 0, 1]).tree.reopen plainPlatform).active.inner =
      (run plainPlatform (start (LsmTree.openDir plainPlatform [] [] 0) rivals)
        [0, 1, 0, 1]).tree.active.inner ↔
      OrdersAgree rivals [0, 1, 0, 1] :=
  replay_eq_active_iff plainPlatform [] [] 0 rivals [0, 1, 0, 1] (by decide)

theorem replay_ne_active_rivals :
    (run plainPlatform (start (LsmTree.openDir plainPlatform [] [] 0) rivals)
      [0, 1, 1, 0]).Finished ∧
    ((run plainPlatform (start (LsmTree.openDir plainPlatform [] [] 0) rivals)
        [0, 1, 1, 0]).tree.reopen plainPlatform).active.inner ≠
      (run plainPlatform (start (LsmTree.openDir plainPlatform [] [] 0) rivals)
        [0, 1, 1, 0]).tree.active.inner := by
  refine ⟨by decide, ?_⟩
  intro same
  have progress := progress_run plainPlatform
    (LsmTree.openDir plainPlatform [] [] 0) rivals [0, 1, 1, 0]
  have shown := congrArg (fun table => table[makeKey 1]?) same
  change MemTable.get _ _ = MemTable.get _ _ at shown
  rw [LsmTree.reopen, LsmTree.openDir, LsmTree.get_replay, progress.log, progress.memtable] at shown
  have replayed : lastBy rivals (logOrder [0, 1, 1, 0]) (makeKey 1) = some (makeRecord [2]) := by
    decide
  have live : lastBy rivals (insertOrder [0, 1, 1, 0]) (makeKey 1) = some (makeRecord [1]) := by
    decide
  rw [replayed, live] at shown
  exact absurd (Option.some.inj shown) (by decide)

end Writers

end FunDB.Storage
