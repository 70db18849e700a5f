import FunDB.Core.Record
import FunDB.Foundation.Buckets
import FunDB.Foundation.GraphSearch
import FunDB.Foundation.StrongestWalks
import Mathlib.Algebra.Order.Ring.Rat

/-! # Graphs of causal edges

Edges in two maps, by their source and by their target. -/

namespace FunDB

open GraphSearch StrongestWalks

/-- What the graphs take from `f32`: comparisons and products, with laws that
rounded products of numbers between 0 and 1 have. -/
class Strength (S : Type) extends LE S, Mul S, Zero S, One S where
  decideLE : ∀ left right : S, Decidable (left ≤ right)
  trans : ∀ {first second third : S}, first ≤ second → second ≤ third → first ≤ third
  zero_le_one : (0 : S) ≤ 1
  one_le_one : (1 : S) ≤ 1
  zero_le_mul : ∀ {strength factor : S}, 0 ≤ strength → strength ≤ 1 → 0 ≤ factor →
    factor ≤ 1 → 0 ≤ strength * factor
  mul_le : ∀ {strength factor : S}, 0 ≤ strength → strength ≤ 1 → 0 ≤ factor →
    factor ≤ 1 → strength * factor ≤ strength

instance Strength.decidableLE {S : Type} [Strength S] (left right : S) :
    Decidable (left ≤ right) := Strength.decideLE left right

/-- Exact numbers. -/
instance Strength.rational : Strength ℚ where
  zero := 0
  one := 1
  decideLE _ _ := inferInstance
  trans := le_trans
  zero_le_one := by decide
  one_le_one := le_rfl
  zero_le_mul positive _ factorPositive _ := mul_nonneg positive factorPositive
  mul_le positive _ _ small := mul_le_of_le_one_right positive small

inductive CausalType where
  | caused
  | influenced
  | correlated
  | preceded
deriving DecidableEq, Repr

/-- How an edge was found, with the numbers that its source gave. -/
inductive CausalOrigin (S : Type) where
  | userDeclared
  | granger (pValue : S) (lag : UInt32)
  | temporalPrecedence (correlation : S)
  | llmValidated (model : String) (coherenceScore : S)
deriving DecidableEq, Repr

inductive StabilityStatus where
  | stable
  | unstable
  | provisional
  | notApplicable
deriving DecidableEq, Repr

inductive DirectionStatus where
  | confirmed
  | directionUncertain
deriving DecidableEq, Repr

structure CausalEdge (S : Type) where
  sourceId : Uuid
  targetId : Uuid
  relation : CausalType
  strength : S
  mechanism : Option String
  origin : CausalOrigin S
  confidence : S
  stabilityScore : Option S
  stabilityStatus : StabilityStatus
  directionStatus : DirectionStatus
  discoveryAlgo : Option String
deriving DecidableEq, Repr

def declaredEdge (sourceId targetId : Uuid) (strength : ℚ) : CausalEdge ℚ :=
  ⟨sourceId, targetId, .caused, strength, none, .userDeclared, 1, none, .notApplicable, .confirmed,
    none⟩

variable {S : Type}

structure EdgeMaps (S : Type) where
  adjacency : Buckets Uuid (CausalEdge S)
  reverse : Buckets Uuid (CausalEdge S)

namespace EdgeMaps

def new : EdgeMaps S := ⟨∅, ∅⟩

/-- The ends of the edges that start at a node. -/
def targets (maps : EdgeMaps S) (node : Uuid) : List Uuid :=
  (maps.adjacency.bucket node).map CausalEdge.targetId

/-- What the edges that start at a node lead to. -/
def forward (maps : EdgeMaps S) (node : Uuid) : List (Uuid × S) :=
  (maps.adjacency.bucket node).map fun edge => (edge.targetId, edge.strength)

/-- What the edges that end at a node come from. -/
def backward (maps : EdgeMaps S) (node : Uuid) : List (Uuid × S) :=
  (maps.reverse.bucket node).map fun edge => (edge.sourceId, edge.strength)

/-- Depth-first search for a node, with fuel for one call at each node with
edges and one more. -/
def canReach (maps : EdgeMaps S) (source target : Uuid) : Bool :=
  match search maps.targets target (maps.adjacency.keys.length + 1) [] source with
  | some (found, _) => found
  | none => false

/-- Put an edge into both maps. -/
def push (maps : EdgeMaps S) (edge : CausalEdge S) : EdgeMaps S where
  adjacency := maps.adjacency.push edge.sourceId edge
  reverse := maps.reverse.push edge.targetId edge

/-- The graph has no cycle, and both maps hold the same edges, each under its own
end. -/
structure Sound (maps : EdgeMaps S) : Prop where
  acyclic : Acyclic maps.targets
  same : maps.adjacency.all.Perm maps.reverse.all
  bySource : maps.adjacency.Filed CausalEdge.sourceId
  byTarget : maps.reverse.Filed CausalEdge.targetId

variable (maps : EdgeMaps S) (edge : CausalEdge S)

/-! ## The search -/

theorem mem_targets_iff (node other : Uuid) :
    other ∈ maps.targets node ↔ ∃ edge ∈ maps.adjacency.bucket node, edge.targetId = other :=
  List.mem_map

theorem mem_keys_of_targets (node : Uuid) (some : maps.targets node ≠ []) :
    node ∈ maps.adjacency.keys := by
  by_contra absent
  apply some
  rw [targets, maps.adjacency.bucket_eq_nil node absent]
  rfl

theorem exists_search (source target : Uuid) :
    ∃ result, search maps.targets target (maps.adjacency.keys.length + 1) [] source =
      some result := by
  apply exists_of_search maps.mem_keys_of_targets
  exact Nat.lt_succ_of_le (List.length_filter_le _ _)

theorem canReach_iff (source target : Uuid) :
    maps.canReach source target = true ↔ Reaches maps.targets source target := by
  rcases maps.exists_search source target with ⟨⟨found, visited⟩, ran⟩
  rw [canReach, ran]
  cases found with
  | true => exact iff_of_true rfl (reaches_of_search ran)
  | false => exact iff_of_false Bool.false_ne_true (not_reaches_of_search ran)

/-! ## New edges -/

theorem edge_push (node other : Uuid) (isEdge : Edge (maps.push edge).targets node other) :
    Edge maps.targets node other ∨ node = edge.sourceId ∧ other = edge.targetId := by
  rcases ((maps.push edge).mem_targets_iff node other).mp isEdge with ⟨found, isIn, rfl⟩
  rcases (Buckets.mem_bucket_push maps.adjacency _ edge found node).mp isIn with old | ⟨same, rfl⟩
  · exact .inl ((maps.mem_targets_iff node _).mpr ⟨found, old, rfl⟩)
  · exact .inr ⟨same, rfl⟩

variable {maps edge}

theorem sound_new : (new : EdgeMaps S).Sound where
  acyclic node cycle := by
    rcases Relation.TransGen.head'_iff.mp cycle with ⟨other, isEdge, _⟩
    cases isEdge
  same := .rfl
  bySource := Buckets.filed_empty _
  byTarget := Buckets.filed_empty _

theorem Sound.push (sound : maps.Sound)
    (apart : ¬Reaches maps.targets edge.targetId edge.sourceId) : (maps.push edge).Sound where
  acyclic := sound.acyclic.extend (maps.edge_push edge) apart
  same := by
    have forward := Buckets.all_push maps.adjacency edge.sourceId edge
    have backward := Buckets.all_push maps.reverse edge.targetId edge
    exact forward.trans ((sound.same.cons edge).trans backward.symm)
  bySource := sound.bySource.push rfl
  byTarget := sound.byTarget.push rfl

theorem Sound.reversed (sound : maps.Sound) : Reversed maps.forward maps.backward := by
  intro node other strength
  have stored (edge : CausalEdge S) : edge ∈ maps.reverse.bucket edge.targetId ↔
      edge ∈ maps.adjacency.bucket edge.sourceId := by
    rw [← sound.byTarget.mem_all_iff, ← sound.bySource.mem_all_iff, sound.same.mem_iff]
  constructor
  · intro isBack
    rcases List.mem_map.mp isBack with ⟨edge, isEdge, same⟩
    cases same
    have atTarget : edge.targetId = node := sound.byTarget node edge isEdge
    subst atTarget
    exact List.mem_map.mpr ⟨edge, (stored edge).mp isEdge, rfl⟩
  · intro isForward
    rcases List.mem_map.mp isForward with ⟨edge, isEdge, same⟩
    cases same
    have atSource : edge.sourceId = other := sound.bySource other edge isEdge
    subst atSource
    exact List.mem_map.mpr ⟨edge, (stored edge).mpr isEdge, rfl⟩

def Every (maps : EdgeMaps S) (property : CausalEdge S → Prop) : Prop :=
  ∀ node, ∀ edge ∈ maps.adjacency.bucket node, property edge

theorem Every.push {property : CausalEdge S → Prop} (every : maps.Every property)
    {edge : CausalEdge S} (holds : property edge) : (maps.push edge).Every property := by
  intro node other isIn
  rcases (Buckets.mem_bucket_push _ _ edge other node).mp isIn with old | ⟨-, rfl⟩
  · exact every node other old
  · exact holds

/-- Edges with strengths that are not negative keep the order, forward and backward. -/
theorem Sound.keepsOrder {maps : EdgeMaps ℚ} (sound : maps.Sound)
    (nonneg : maps.Every fun edge => 0 ≤ edge.strength) :
    KeepsOrder maps.forward ∧ KeepsOrder maps.backward := by
  have forward : ∀ node, ∀ edge ∈ maps.forward node, 0 ≤ edge.2 := by
    intro node edge isEdge
    rcases List.mem_map.mp isEdge with ⟨stored, isStored, rfl⟩
    exact nonneg node stored isStored
  constructor
  · intro node edge isEdge weaker stronger order
    exact mul_le_mul_of_nonneg_right order (forward node edge isEdge)
  · intro node edge isEdge weaker stronger order
    have turned : (node, edge.2) ∈ maps.forward edge.1 :=
      (sound.reversed node edge.1 edge.2).mp isEdge
    exact mul_le_mul_of_nonneg_right order (forward edge.1 (node, edge.2) turned)

end EdgeMaps

/-- One node leads to another over a third one, and more weakly without it. -/
def detourEdges : List (CausalEdge ℚ) :=
  [declaredEdge (.ofByte 1) (.ofByte 3) (1 / 8), declaredEdge (.ofByte 1) (.ofByte 2) (1 / 2),
    declaredEdge (.ofByte 2) (.ofByte 3) (1 / 2)]

end FunDB
