import Mathlib.Logic.Basic

/-! # Three-valued logic

Formulas whose leaves are true, false or unknown, and decisions that know two
values only. A decision can be wrong about a leaf in one direction and harmless
in the other; which direction counts changes with each negation. -/

namespace FunDB.ThreeValued

universe u

/-! ## Connectives -/

/-- `none` is unknown. -/
def conj : Option Bool → Option Bool → Option Bool
  | some false, _ => some false
  | _, some false => some false
  | some true, some true => some true
  | _, _ => none

def disj : Option Bool → Option Bool → Option Bool
  | some true, _ => some true
  | _, some true => some true
  | some false, some false => some false
  | _, _ => none

def neg (operand : Option Bool) : Option Bool := operand.map not

variable (left right operand : Option Bool)

@[simp] theorem conj_eq_true_iff :
    conj left right = some true ↔ left = some true ∧ right = some true := by
  rcases left with _ | _ | _ <;> rcases right with _ | _ | _ <;> simp [conj]

@[simp] theorem conj_eq_false_iff :
    conj left right = some false ↔ left = some false ∨ right = some false := by
  rcases left with _ | _ | _ <;> rcases right with _ | _ | _ <;> simp [conj]

@[simp] theorem disj_eq_true_iff :
    disj left right = some true ↔ left = some true ∨ right = some true := by
  rcases left with _ | _ | _ <;> rcases right with _ | _ | _ <;> simp [disj]

@[simp] theorem disj_eq_false_iff :
    disj left right = some false ↔ left = some false ∧ right = some false := by
  rcases left with _ | _ | _ <;> rcases right with _ | _ | _ <;> simp [disj]

@[simp] theorem neg_eq_some_iff (value : Bool) :
    neg operand = some value ↔ operand = some (!value) := by
  rcases operand with _ | _ | _ <;> cases value <;> simp [neg]

/-! ## Formulas -/

inductive Formula (Leaf : Type u) where
  | leaf (item : Leaf)
  | and (left right : Formula Leaf)
  | or (left right : Formula Leaf)
  | not (operand : Formula Leaf)

namespace Formula

variable {Leaf : Type u}

/-- The decision of a formula by the decisions of its leaves. -/
def decide (decision : Leaf → Bool) : Formula Leaf → Bool
  | .leaf item => decision item
  | .and left right => left.decide decision && right.decide decision
  | .or left right => left.decide decision || right.decide decision
  | .not operand => !operand.decide decision

/-- The truth of a formula by the truth of its leaves. -/
def truth (meaning : Leaf → Option Bool) : Formula Leaf → Option Bool
  | .leaf item => meaning item
  | .and left right => conj (left.truth meaning) (right.truth meaning)
  | .or left right => disj (left.truth meaning) (right.truth meaning)
  | .not operand => neg (operand.truth meaning)

/-- The leaves that a decision rests on are as they should be. A conjunction is false
for its first false part and true for both, a disjunction is true for its first true
part and false for both, and a negation turns the decision round. -/
def OnCause (decision : Leaf → Bool) (fine : Bool → Leaf → Prop) : Bool → Formula Leaf → Prop
  | side, .leaf item => fine side item
  | false, .and left right =>
      if left.decide decision then right.OnCause decision fine false
      else left.OnCause decision fine false
  | true, .and left right => left.OnCause decision fine true ∧ right.OnCause decision fine true
  | false, .or left right => left.OnCause decision fine false ∧ right.OnCause decision fine false
  | true, .or left right =>
      if left.decide decision then left.OnCause decision fine true
      else right.OnCause decision fine true
  | side, .not operand => operand.OnCause decision fine (!side)

theorem OnCause.imp {decision : Leaf → Bool} {fine other : Bool → Leaf → Prop}
    (implies : ∀ side item, fine side item → other side item) {side : Bool}
    {formula : Formula Leaf} (onCause : formula.OnCause decision fine side) :
    formula.OnCause decision other side := by
  induction formula generalizing side with
  | leaf item => exact implies side item onCause
  | and left right leftInduction rightInduction =>
      cases side with
      | false =>
          rw [OnCause] at onCause ⊢
          split at onCause
          · next leftIn =>
              rw [if_pos leftIn]
              exact rightInduction onCause
          · next leftOut =>
              rw [if_neg leftOut]
              exact leftInduction onCause
      | true => exact ⟨leftInduction onCause.1, rightInduction onCause.2⟩
  | or left right leftInduction rightInduction =>
      cases side with
      | false => exact ⟨leftInduction onCause.1, rightInduction onCause.2⟩
      | true =>
          rw [OnCause] at onCause ⊢
          split at onCause
          · next leftIn =>
              rw [if_pos leftIn]
              exact leftInduction onCause
          · next leftOut =>
              rw [if_neg leftOut]
              exact rightInduction onCause
  | not operand induction => exact induction onCause

/-- Where no leaf that a decision rests on is decided against its truth, the formula
is not. -/
theorem truth_ne_of_decide {decision : Leaf → Bool} {meaning : Leaf → Option Bool} {side : Bool}
    {formula : Formula Leaf}
    (fine : formula.OnCause decision
      (fun side item => decision item = side → meaning item ≠ some (!side)) side)
    (decided : formula.decide decision = side) : formula.truth meaning ≠ some (!side) := by
  induction formula generalizing side with
  | leaf item => exact fine decided
  | and left right leftInduction rightInduction =>
      rw [decide] at decided
      rw [truth]
      cases side with
      | false =>
          intro both
          have parts := (conj_eq_true_iff _ _).mp both
          rw [OnCause] at fine
          split at fine
          · next leftIn =>
              rw [leftIn, Bool.true_and] at decided
              exact rightInduction fine decided parts.2
          · next leftOut => exact leftInduction fine (eq_false_of_ne_true leftOut) parts.1
      | true =>
          intro either
          have parts := Bool.and_eq_true_iff.mp decided
          rcases (conj_eq_false_iff _ _).mp either with leftFalse | rightFalse
          · exact leftInduction fine.1 parts.1 leftFalse
          · exact rightInduction fine.2 parts.2 rightFalse
  | or left right leftInduction rightInduction =>
      rw [decide] at decided
      rw [truth]
      cases side with
      | false =>
          intro either
          have parts := Bool.or_eq_false_iff.mp decided
          rcases (disj_eq_true_iff _ _).mp either with leftTrue | rightTrue
          · exact leftInduction fine.1 parts.1 leftTrue
          · exact rightInduction fine.2 parts.2 rightTrue
      | true =>
          intro both
          have parts := (disj_eq_false_iff _ _).mp both
          rw [OnCause] at fine
          split at fine
          · next leftIn => exact leftInduction fine leftIn parts.1
          · next leftOut =>
              rw [eq_false_of_ne_true leftOut, Bool.false_or] at decided
              exact rightInduction fine decided parts.2
  | not operand induction =>
      have flipped : operand.decide decision = !side := by
        rw [← decided, decide, Bool.not_not]
      rw [truth, Ne, neg_eq_some_iff]
      exact induction fine flipped

def IsLiteral : Formula Leaf → Prop
  | .leaf _ => True
  | .not operand => operand.IsLiteral
  | _ => False

/-- A literal has no other leaf that hides a wrong decision. -/
theorem onCause_iff_of_isLiteral {Index : Type*} {decision : Leaf → Bool}
    {meaning : Index → Leaf → Option Bool} {side : Bool} {formula : Formula Leaf}
    (literal : formula.IsLiteral) :
    formula.OnCause decision
        (fun side item => decision item = side → ∀ index, meaning index item ≠ some (!side)) side ↔
      (formula.decide decision = side → ∀ index, formula.truth (meaning index) ≠ some (!side)) := by
  induction formula generalizing side with
  | leaf item => exact Iff.rfl
  | and left right => exact literal.elim
  | or left right => exact literal.elim
  | not operand induction =>
      rw [OnCause, induction literal, decide]
      simp only [truth, Ne, neg_eq_some_iff, Bool.not_eq_eq_eq_not]

end Formula

end FunDB.ThreeValued
