import Mathlib.Data.List.Basic
import Mathlib.Data.List.Induction

/-! # Runs that can fail

A step function that may have no result. A run goes on until a step has none. -/

namespace FunDB.FallibleRuns

universe u v

variable {State : Type u} {Event : Type v}

/-- The state that a list of events leads to, if every step has a result. -/
def attempt (step : State → Event → Option State) (start : State) (events : List Event) :
    Option State :=
  events.foldlM step start

variable (step : State → Event → Option State) {start state after : State}
variable {done events : List Event} {event : Event}

theorem attempt_concat :
    attempt step start (done ++ [event]) = (attempt step start done).bind (step · event) := by
  rw [attempt, List.foldlM_append, attempt]
  cases done.foldlM step start with
  | none => rfl
  | some state => cases reached : step state event <;> simp [reached]

theorem attempt_concat_eq_some_iff :
    attempt step start (done ++ [event]) = some after ↔
      ∃ state, attempt step start done = some state ∧ step state event = some after := by
  rw [attempt_concat, Option.bind_eq_some_iff]

/-- What holds at the start and is kept by every step holds in every state
reached. -/
theorem attempt_invariant (Invariant : List Event → State → Prop)
    (initial : Invariant [] start)
    (kept : ∀ done state event after, Invariant done state → step state event = some after →
      Invariant (done ++ [event]) after)
    (reached : attempt step start events = some state) : Invariant events state := by
  induction events using List.reverseRecOn generalizing state with
  | nil =>
      cases reached
      exact initial
  | append_singleton done event induction =>
      rcases (attempt_concat_eq_some_iff step).mp reached with ⟨before, earlier, taken⟩
      exact kept done before event state (induction earlier) taken

/-- A run of events that have a result in every state goes through. -/
theorem exists_attempt (taken : ∀ event ∈ events, ∀ state, (step state event).isSome) :
    ∃ state, attempt step start events = some state := by
  induction events using List.reverseRecOn with
  | nil => exact ⟨start, rfl⟩
  | append_singleton done event induction =>
      rcases induction fun other member => taken other (List.mem_append_left _ member) with
        ⟨before, earlier⟩
      have last := taken event (List.mem_append_right _ List.mem_cons_self) before
      rcases Option.isSome_iff_exists.mp last with ⟨state, result⟩
      exact ⟨state, (attempt_concat_eq_some_iff step).mpr ⟨before, earlier, result⟩⟩

/-- A run goes through if some invariant gives every step a result that keeps it. -/
theorem exists_attempt_of_invariant {Invariant : State → Prop} (initial : Invariant start)
    (taken : ∀ state event, Invariant state →
      ∃ after, step state event = some after ∧ Invariant after) :
    ∃ state, attempt step start events = some state ∧ Invariant state := by
  induction events using List.reverseRecOn with
  | nil => exact ⟨start, rfl, initial⟩
  | append_singleton done event induction =>
      rcases induction with ⟨before, earlier, holds⟩
      rcases taken before event holds with ⟨after, result, kept⟩
      exact ⟨after, (attempt_concat_eq_some_iff step).mpr ⟨before, earlier, result⟩, kept⟩

/-- A property whose every step keeps it exactly under a condition holds in every
state of a run exactly when every step of the run meets the condition. The property
may be the visible part of a stronger one. -/
theorem holds_throughout_iff_of_strong (Property Strong : List Event → State → Prop)
    {Condition : State → Event → Prop} (initial : Strong [] start)
    (visible : ∀ done state, Strong done state → Property done state)
    (needed : ∀ done state event after, attempt step start done = some state →
      step state event = some after → Strong done state →
        Property (done ++ [event]) after → Condition state event)
    (enough : ∀ done state event after, attempt step start done = some state →
      step state event = some after → Strong done state → Condition state event →
        Strong (done ++ [event]) after) :
    (∀ done, done <+: events → ∀ state, attempt step start done = some state →
        Property done state) ↔
      ∀ done event, done ++ [event] <+: events → ∀ state after,
        attempt step start done = some state → step state event = some after →
          Condition state event := by
  have shorter {done : List Event} {event : Event} (isPrefix : done ++ [event] <+: events) :
      done <+: events := (List.prefix_append done [event]).trans isPrefix
  constructor
  · intro throughout
    have strong : ∀ done, done <+: events → ∀ state, attempt step start done = some state →
        Strong done state := by
      intro done
      induction done using List.reverseRecOn with
      | nil =>
          intro _ state reached
          cases reached
          exact initial
      | append_singleton done event induction =>
          intro isPrefix after reached
          rcases (attempt_concat_eq_some_iff step).mp reached with ⟨state, earlier, taken⟩
          have before := induction (shorter isPrefix) state earlier
          have condition := needed done state event after earlier taken before
            (throughout _ isPrefix after reached)
          exact enough done state event after earlier taken before condition
    intro done event isPrefix state after reached taken
    have both := (attempt_concat_eq_some_iff step).mpr ⟨state, reached, taken⟩
    exact needed done state event after reached taken (strong done (shorter isPrefix) state reached)
      (throughout _ isPrefix after both)
  · intro conditions done isPrefix state reached
    apply visible
    induction done using List.reverseRecOn generalizing state with
    | nil =>
        cases reached
        exact initial
    | append_singleton done event induction =>
        rcases (attempt_concat_eq_some_iff step).mp reached with ⟨before, earlier, taken⟩
        exact enough done before event state earlier taken
          (induction (shorter isPrefix) before earlier)
          (conditions done event isPrefix before state earlier taken)

theorem holds_throughout_iff (Property : List Event → State → Prop)
    {Condition : State → Event → Prop} (initial : Property [] start)
    (stepped : ∀ done state event after, attempt step start done = some state →
      step state event = some after → Property done state →
        (Property (done ++ [event]) after ↔ Condition state event)) :
    (∀ done, done <+: events → ∀ state, attempt step start done = some state →
        Property done state) ↔
      ∀ done event, done ++ [event] <+: events → ∀ state after,
        attempt step start done = some state → step state event = some after →
          Condition state event :=
  holds_throughout_iff_of_strong step Property Property initial (fun _ _ => id)
    (fun done state event after reached taken before =>
      (stepped done state event after reached taken before).mp)
    fun done state event after reached taken before =>
      (stepped done state event after reached taken before).mpr

end FunDB.FallibleRuns
