import Mathlib.Data.List.Perm.Basic

/-! # Greedy growth

A selection grows by one item after another, each admitted by what was selected
before, until nothing that is left is admitted. -/

namespace FunDB.Greedy

universe u v

section Growth

variable {Item : Type u} (Admits : List Item → Item → Prop)

/-- Items are admitted one after another behind those that are selected. -/
def Grows : List Item → List Item → Prop
  | _, [] => True
  | selected, item :: added => Admits selected item ∧ Grows (selected ++ [item]) added

variable {Admits}

/-- Each item was admitted by those in front of it. -/
theorem Grows.admits {selected front back : List Item} {item : Item}
    (grows : Grows Admits selected (front ++ item :: back)) : Admits (selected ++ front) item := by
  induction front generalizing selected with
  | nil =>
      rw [List.append_nil]
      exact grows.1
  | cons first front induction =>
      have later := induction grows.2
      rwa [List.append_assoc, List.singleton_append] at later

end Growth

section Runs

variable {State : Type v} (step : State → Option State)

/-- The steps of a greedy loop, up to a number of them. -/
def iterate : Nat → State → State
  | 0, state => state
  | fuel + 1, state =>
      match step state with
      | none => state
      | some next => iterate fuel next

variable {step} in
theorem iterate_of_some {state next : State} (taken : step state = some next) (fuel : Nat) :
    iterate step (fuel + 1) state = iterate step fuel next := by
  rw [iterate, taken]

variable {step} in
theorem iterate_of_none {state : State} (stopped : step state = none) (fuel : Nat) :
    iterate step fuel state = state := by
  cases fuel with
  | zero => rfl
  | succ fuel => rw [iterate, stopped]

variable {Item : Type u}

/-- Each step moves an item that is admitted from what is left to what is selected,
and there is one unless none is admitted. -/
structure IsGreedy (Admits : List Item → Item → Prop) (Valid : State → Prop)
    (selected left : State → List Item) : Prop where
  step_some : ∀ state next, Valid state → step state = some next →
    Valid next ∧ ∃ item, Admits (selected state) item ∧
      selected next = selected state ++ [item] ∧ (left state).Perm (item :: left next)
  step_none : ∀ state, Valid state → step state = none →
    ∀ item ∈ left state, ¬Admits (selected state) item

variable {step} {Admits : List Item → Item → Prop} {Valid : State → Prop}
variable {selected left : State → List Item}

/-- A run that may take as many steps as there are items ends where none is
admitted. -/
theorem IsGreedy.exists_added (greedy : IsGreedy step Admits Valid selected left) {fuel : Nat}
    {state : State} (valid : Valid state) (enough : (left state).length ≤ fuel) :
    Valid (iterate step fuel state) ∧
      (∀ item ∈ left (iterate step fuel state),
        ¬Admits (selected (iterate step fuel state)) item) ∧
      ∃ added, selected (iterate step fuel state) = selected state ++ added ∧
        Grows Admits (selected state) added ∧
        (left state).Perm (added ++ left (iterate step fuel state)) := by
  induction fuel generalizing state with
  | zero =>
      have nothing : left state = [] := List.length_eq_zero_iff.mp (Nat.le_zero.mp enough)
      refine ⟨valid, ?_, [], (List.append_nil _).symm, trivial, List.Perm.refl _⟩
      intro item member
      rw [iterate, nothing] at member
      cases member
  | succ fuel induction =>
      cases taken : step state with
      | none =>
          rw [iterate_of_none taken]
          exact ⟨valid, greedy.step_none state valid taken, [], (List.append_nil _).symm, trivial,
            List.Perm.refl _⟩
      | some next =>
          rw [iterate_of_some taken]
          rcases greedy.step_some state next valid taken with
            ⟨nextValid, item, admitted, grown, moved⟩
          have fewer : (left next).length ≤ fuel := by
            have sizes := moved.length_eq
            rw [List.length_cons] at sizes
            omega
          rcases induction nextValid fewer with ⟨lastValid, maximal, added, shape, grows, parts⟩
          refine ⟨lastValid, maximal, item :: added, ?_, ⟨admitted, ?_⟩, ?_⟩
          · rw [shape, grown, List.append_assoc, List.singleton_append]
          · rwa [grown] at grows
          · exact moved.trans (parts.cons item)

end Runs

end FunDB.Greedy
