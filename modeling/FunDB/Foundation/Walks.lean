import Mathlib.Algebra.Group.Basic
import Mathlib.Order.Bounds.Defs

/-! # Walks

Walks over edges with strengths, and the strongest of at most so many steps. -/

namespace FunDB.StrongestWalks

universe u v

variable {Node : Type u} {S : Type v}

/-! ## Walks -/

section Walks

/-- A walk of some steps leads to a node, with the product of the strengths of its steps
from the left. -/
inductive Walk [Mul S] [One S] (next : Node → List (Node × S)) (start : Node) :
    Nat → Node → S → Prop
  | nil : Walk next start 0 start 1
  | step {depth : Nat} {node : Node} {strength : S} {edge : Node × S}
      (walk : Walk next start depth node strength) (isNext : edge ∈ next node) :
      Walk next start (depth + 1) edge.1 (strength * edge.2)

theorem Walk.eq_start [Mul S] [One S] {next : Node → List (Node × S)} {start node : Node}
    {strength : S} (walk : Walk next start 0 node strength) : node = start := by
  cases walk
  rfl

variable [Monoid S]

/-- The strengths of the walks of at least one and at most so many steps. -/
def strengths (next : Node → List (Node × S)) (start : Node) (maxDepth : Nat) (node : Node) :
    Set S :=
  {strength | ∃ depth, 1 ≤ depth ∧ depth ≤ maxDepth ∧ Walk next start depth node strength}

/-- A step over an edge leaves the stronger of two strengths the stronger. -/
def KeepsOrder [LE S] (next : Node → List (Node × S)) : Prop :=
  ∀ node, ∀ edge ∈ next node, ∀ weaker stronger : S, weaker ≤ stronger →
    weaker * edge.2 ≤ stronger * edge.2

theorem Walk.single {next : Node → List (Node × S)} {start : Node} {edge : Node × S}
    (isNext : edge ∈ next start) : Walk next start 1 edge.1 edge.2 := by
  have walk : Walk next start 1 edge.1 (1 * edge.2) := Walk.nil.step isNext
  rwa [one_mul] at walk

end Walks

/-- The edges of one graph are those of the other, turned round. -/
def Reversed (next back : Node → List (Node × S)) : Prop :=
  ∀ node other strength, (other, strength) ∈ back node ↔ (node, strength) ∈ next other

/-- The nodes that walks lead to, each once with the strength of the strongest walk. -/
structure Strongest [Monoid S] [LE S] (next : Node → List (Node × S)) (start : Node)
    (maxDepth : Nat) (found : List (Node × S)) : Prop where
  distinct : (found.map Prod.fst).Nodup
  nodes : ∀ node, node ∈ found.map Prod.fst ↔ (strengths next start maxDepth node).Nonempty
  greatest : ∀ entry ∈ found, IsGreatest (strengths next start maxDepth entry.1) entry.2

end FunDB.StrongestWalks
