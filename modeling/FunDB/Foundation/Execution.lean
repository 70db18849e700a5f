import Mathlib.Data.List.Basic
import Mathlib.Data.List.Induction
import Mathlib.Order.Basic

/-! # Runs of a step function

A system is a step function from a state and an event to the next state.
Properties of a run are indexed by the events done so far, so that they may
mention the whole history as well as the state reached. -/

namespace FunDB.Execution

universe u v w

variable {State : Type u} {Event : Type v} {Output : Type w}
variable (step : State → Event → State)

/-- The state reached from `start` by a list of events. -/
def run (start : State) (events : List Event) : State :=
  events.foldl step start

/-- What `observe` reports at each event of a run, in order. -/
def observations (observe : State → Event → Output) :
    State → List Event → List Output
  | _, [] => []
  | state, event :: rest =>
      observe state event :: observations observe (step state event) rest

/-- Every event of the run meets `Condition` in the state it is taken from. -/
def EveryStep (Condition : State → Event → Prop) : State → List Event → Prop
  | _, [] => True
  | state, event :: rest =>
      Condition state event ∧ EveryStep Condition (step state event) rest

instance EveryStep.decidable (Condition : State → Event → Prop)
    [∀ state event, Decidable (Condition state event)] :
    ∀ start events, Decidable (EveryStep step Condition start events)
  | _, [] => .isTrue trivial
  | state, event :: rest =>
      have := EveryStep.decidable Condition (step state event) rest
      inferInstanceAs (Decidable (Condition state event ∧
        EveryStep step Condition (step state event) rest))

@[simp] theorem run_nil (start : State) : run step start [] = start := rfl

@[simp] theorem run_cons (start : State) (event : Event) (rest : List Event) :
    run step start (event :: rest) = run step (step start event) rest := rfl

theorem run_append (start : State) (first second : List Event) :
    run step start (first ++ second) = run step (run step start first) second :=
  List.foldl_append

@[simp] theorem run_concat (start : State) (done : List Event) (event : Event) :
    run step start (done ++ [event]) = step (run step start done) event := by
  rw [run_append]
  rfl

theorem observations_append (observe : State → Event → Output) (start : State)
    (first second : List Event) :
    observations step observe start (first ++ second) =
      observations step observe start first ++
        observations step observe (run step start first) second := by
  induction first generalizing start with
  | nil => rfl
  | cons event rest induction => simp [observations, induction]

@[simp] theorem observations_concat (observe : State → Event → Output)
    (start : State) (done : List Event) (event : Event) :
    observations step observe start (done ++ [event]) =
      observations step observe start done ++
        [observe (run step start done) event] := by
  simp [observations_append, observations]

theorem EveryStep.append_iff {Condition : State → Event → Prop} {start : State}
    {first second : List Event} :
    EveryStep step Condition start (first ++ second) ↔
      EveryStep step Condition start first ∧
        EveryStep step Condition (run step start first) second := by
  induction first generalizing start with
  | nil => simp [EveryStep]
  | cons event rest induction => simp [EveryStep, induction, and_assoc]

theorem EveryStep.concat_iff {Condition : State → Event → Prop} {start : State}
    {done : List Event} {event : Event} :
    EveryStep step Condition start (done ++ [event]) ↔
      EveryStep step Condition start done ∧
        Condition (run step start done) event := by
  simp [EveryStep.append_iff, EveryStep]

theorem EveryStep.of_prefix {Condition : State → Event → Prop} {start : State}
    {done events : List Event} (isPrefix : done <+: events)
    (everyStep : EveryStep step Condition start events) :
    EveryStep step Condition start done := by
  rcases isPrefix with ⟨rest, rfl⟩
  exact ((EveryStep.append_iff step).mp everyStep).1

/-- An event that breaks the condition splits the run in front of itself. -/
theorem exists_of_not_everyStep {Condition : State → Event → Prop} {start : State}
    {events : List Event} (broken : ¬ EveryStep step Condition start events) :
    ∃ done event rest, events = done ++ event :: rest ∧
      ¬ Condition (run step start done) event := by
  induction events generalizing start with
  | nil => exact absurd trivial broken
  | cons event rest induction =>
      by_cases met : Condition start event
      · have brokenLater : ¬ EveryStep step Condition (step start event) rest :=
          fun later => broken ⟨met, later⟩
        rcases induction brokenLater with ⟨done, next, after, rfl, unmet⟩
        exact ⟨event :: done, next, after, rfl, unmet⟩
      · exact ⟨[], event, rest, rfl, met⟩

/-- What holds of each event that meets the condition in a state of the invariant
holds throughout a run whose events all meet it. -/
theorem EveryStep.of_invariant {Condition Property : State → Event → Prop}
    (Invariant : State → Prop)
    (preserved : ∀ state event, Invariant state → Condition state event →
      Invariant (step state event))
    (gives : ∀ state event, Invariant state → Condition state event → Property state event)
    {start : State} (initial : Invariant start) {events : List Event}
    (everyStep : EveryStep step Condition start events) :
    EveryStep step Property start events := by
  induction events generalizing start with
  | nil => trivial
  | cons event rest induction =>
      exact ⟨gives start event initial everyStep.1,
        induction (preserved start event initial everyStep.1) everyStep.2⟩

/-- A measure rises along every run exactly when it rises at every step. -/
theorem monotone_iff_everyStep {Measure : Type w} [Preorder Measure] (measure : State → Measure)
    {start : State} {events : List Event} :
    (∀ earlier later, earlier <+: later → later <+: events →
        measure (run step start earlier) ≤ measure (run step start later)) ↔
      EveryStep step (fun state event => measure state ≤ measure (step state event))
        start events := by
  constructor
  · intro rises
    by_contra broken
    rcases exists_of_not_everyStep step broken with ⟨done, event, rest, rfl, falls⟩
    apply falls
    have stepRises := rises done (done ++ [event]) (List.prefix_append _ _)
      ⟨rest, by simp⟩
    rwa [run_concat] at stepRises
  · intro everyStep earlier later continues isPrefix
    rcases continues with ⟨between, rfl⟩
    have rises := everyStep.of_prefix step isPrefix
    rw [EveryStep.append_iff] at rises
    replace rises := rises.2
    rw [run_append]
    generalize run step start earlier = state at rises
    clear isPrefix everyStep
    induction between generalizing state with
    | nil => exact le_rfl
    | cons event rest induction => exact rises.1.trans (induction _ rises.2)

/-- What is observed stays as it was at the start exactly when no event changes
it, where admitted events from states of the invariant change it unless they
meet the condition. -/
theorem constant_iff_everyStep {Condition : State → Event → Prop} {Admitted : Event → Prop}
    (observe : State → Output) (Invariant : State → Prop)
    (preserved : ∀ state event, Invariant state → Invariant (step state event))
    (step_iff : ∀ state event, Invariant state → Admitted event →
      (observe (step state event) = observe state ↔ Condition state event))
    {start : State} (initial : Invariant start) {events : List Event}
    (admitted : ∀ event ∈ events, Admitted event) :
    (∀ done, done <+: events → observe (run step start done) = observe start) ↔
      EveryStep step Condition start events := by
  induction events generalizing start with
  | nil =>
      refine iff_of_true (fun done isPrefix => ?_) trivial
      rw [List.prefix_nil.mp isPrefix]
      rfl
  | cons event rest induction =>
      have first := step_iff start event initial (admitted event List.mem_cons_self)
      have later := induction (preserved start event initial) fun other member =>
        admitted other (List.mem_cons_of_mem _ member)
      rw [EveryStep, ← first, ← later]
      constructor
      · intro constant
        have unchanged := constant [event] (List.cons_prefix_cons.mpr ⟨rfl, List.nil_prefix⟩)
        refine ⟨unchanged, fun done isPrefix => ?_⟩
        exact (constant (event :: done) (List.cons_prefix_cons.mpr ⟨rfl, isPrefix⟩)).trans
          unchanged.symm
      · intro both done isPrefix
        rcases both with ⟨unchanged, constant⟩
        rcases List.prefix_cons_iff.mp isPrefix with rfl | ⟨after, rfl, isAfter⟩
        · rfl
        · exact (constant after isAfter).trans unchanged

theorem run_invariant (Invariant : State → Prop)
    (preserved : ∀ state event, Invariant state → Invariant (step state event))
    {start : State} (initial : Invariant start) (events : List Event) :
    Invariant (run step start events) := by
  induction events generalizing start with
  | nil => exact initial
  | cons event rest induction => exact induction (preserved start event initial)

/-- The invariant rule: what holds before the first event, and is kept by every
event that meets the condition, holds in every state of the run. -/
theorem holds_of_everyStep {Condition : State → Event → Prop} {start : State}
    (Holds : List Event → Prop) (initial : Holds [])
    (preserved : ∀ done event, Holds done →
      Condition (run step start done) event → Holds (done ++ [event]))
    {events : List Event} (everyStep : EveryStep step Condition start events) :
    ∀ done, done <+: events → Holds done := by
  intro done isPrefix
  have doneSteps := everyStep.of_prefix step isPrefix
  clear isPrefix everyStep
  induction done using List.reverseRecOn with
  | nil => exact initial
  | append_singleton done event induction =>
      rcases (EveryStep.concat_iff step).mp doneSteps with ⟨earlier, last⟩
      exact preserved done event (induction earlier) last

/-- The exactness rule: when the invariant gives the property, and from a state
of the invariant the property survives an event only if the condition holds,
the property holds throughout a run exactly when every step meets the condition. -/
theorem holds_iff_everyStep {Condition : State → Event → Prop} {start : State}
    (Invariant Holds : List Event → Prop) (initial : Invariant [])
    (holds : ∀ done, Invariant done → Holds done)
    (preserved : ∀ done event, Invariant done →
      Condition (run step start done) event → Invariant (done ++ [event]))
    (needed : ∀ done event, Invariant done → Holds (done ++ [event]) →
      Condition (run step start done) event)
    {events : List Event} :
    (∀ done, done <+: events → Holds done) ↔
      EveryStep step Condition start events := by
  constructor
  · intro everywhere
    suffices reached : Invariant events ∧ EveryStep step Condition start events from
      reached.2
    induction events using List.reverseRecOn with
    | nil => exact ⟨initial, trivial⟩
    | append_singleton done event induction =>
        rcases induction fun earlier isPrefix =>
          everywhere earlier (isPrefix.trans (List.prefix_append _ _)) with
          ⟨invariant, everyStep⟩
        have condition := needed done event invariant
          (everywhere _ (List.prefix_refl _))
        exact ⟨preserved done event invariant condition,
          (EveryStep.concat_iff step).mpr ⟨everyStep, condition⟩⟩
  · intro everyStep done isPrefix
    exact holds done
      (holds_of_everyStep step Invariant initial preserved everyStep done isPrefix)

/-- The exactness rule for a property that is its own invariant. -/
theorem holds_iff_everyStep_of_step_iff {Condition : State → Event → Prop} {start : State}
    (Holds : List Event → Prop) (initial : Holds [])
    (step_iff : ∀ done event, Holds done →
      (Holds (done ++ [event]) ↔ Condition (run step start done) event))
    {events : List Event} :
    (∀ done, done <+: events → Holds done) ↔
      EveryStep step Condition start events :=
  holds_iff_everyStep step Holds Holds initial (fun _ held => held)
    (fun done event held met => (step_iff done event held).mpr met)
    (fun done event held after => (step_iff done event held).mp after)

/-! ## Interleaved processes -/

/-- The processes in the order in which they take their step number `count`,
when those of `earlier` have taken steps before. -/
def stepOrder {Process : Type u} [DecidableEq Process] (count : Nat)
    (earlier : List Process) : List Process → List Process
  | [] => []
  | process :: later =>
      if earlier.count process = count then
        process :: stepOrder count (process :: earlier) later
      else
        stepOrder count (process :: earlier) later

theorem stepOrder_concat {Process : Type u} [DecidableEq Process] (count : Nat)
    (earlier done : List Process) (process : Process) :
    stepOrder count earlier (done ++ [process]) =
      stepOrder count earlier done ++
        if earlier.count process + done.count process = count then [process] else [] := by
  induction done generalizing earlier with
  | nil =>
      rw [List.nil_append, stepOrder, stepOrder, stepOrder, List.count_nil, Nat.add_zero]
      split <;> rfl
  | cons first done induction =>
      have counted : (first :: earlier).count process + done.count process =
          earlier.count process + (first :: done).count process := by
        rw [List.count_cons, List.count_cons]
        omega
      rw [List.cons_append, stepOrder, stepOrder]
      split
      · rw [induction, counted, List.cons_append]
      · rw [induction, counted]

/-- A process takes its step number `count` once it has taken more steps. -/
theorem mem_stepOrder_iff {Process : Type u} [DecidableEq Process] (count : Nat)
    (done : List Process) (process : Process) :
    process ∈ stepOrder count [] done ↔ count < done.count process := by
  induction done using List.reverseRecOn with
  | nil => simp [stepOrder]
  | append_singleton done last induction =>
      rw [stepOrder_concat, List.mem_append, induction, List.count_append, List.count_singleton,
        List.count_nil, Nat.zero_add]
      by_cases same : last = process
      · subst same
        by_cases exactly : done.count last = count
        · simp [exactly]
        · simp only [exactly, if_false, List.not_mem_nil, or_false, beq_self_eq_true, if_true]
          omega
      · have other : (last == process) = false := by simp [same]
        have notLast : process ≠ last := fun equal => same equal.symm
        split <;> simp [other, notLast]

/-- One process among the others, before and after it changes. -/
theorem exists_split_of_getElem? {Process : Type u} {processes : List Process}
    {index : Nat} {process : Process} (found : processes[index]? = some process) :
    ∃ earlier later, processes = earlier ++ process :: later ∧
      ∀ next, processes.set index next = earlier ++ next :: later := by
  rcases List.getElem?_eq_some_iff.mp found with ⟨within, rfl⟩
  refine ⟨processes.take index, processes.drop (index + 1), by simp, fun next => ?_⟩
  rw [List.set_eq_take_append_cons_drop, if_pos within]

end FunDB.Execution
