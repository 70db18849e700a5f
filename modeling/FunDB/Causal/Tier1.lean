import FunDB.Core.CausalGraph
import FunDB.Foundation.Execution
import FunDB.Indexes.CausalDag

/-! # The causal engine

The graph of explicitly declared causal edges, and what can be reached in it. -/

namespace FunDB.Tier1

open StrongestWalks

inductive CausalError where
  | cycle (source target : Uuid)
  | nodeNotFound (node : Uuid)
deriving DecidableEq, Repr

structure CausalEngine (S : Type) where
  graph : EdgeMaps S

namespace CausalEngine

variable {S : Type}

def new : CausalEngine S := ⟨.new⟩

def insertEdge (engine : CausalEngine S) (edge : CausalEdge S) :
    Except CausalError Unit × CausalEngine S :=
  if engine.graph.canReach edge.targetId edge.sourceId then
    (.error (.cycle edge.sourceId edge.targetId), engine)
  else (.ok (), { engine with graph := engine.graph.push edge })

variable [LinearOrder S] [Mul S] [One S]

def bfsReachable (start : Uuid) (maxDepth : UInt32) (edges : Uuid → List (Uuid × S)) :
    Option (List (Uuid × S)) :=
  reach atEnd edges maxDepth.toNat start

def effectsOf (engine : CausalEngine S) (event : Uuid) (maxDepth : UInt32) :
    Option (List (Uuid × S)) :=
  bfsReachable event maxDepth engine.graph.forward

def causesOf (engine : CausalEngine S) (event : Uuid) (maxDepth : UInt32) :
    Option (List (Uuid × S)) :=
  bfsReachable event maxDepth engine.graph.backward

end CausalEngine

end FunDB.Tier1

/-! ## Causal graphs without cycles

What insertion does to the graphs of the index and of the engine. -/

namespace FunDB

open GraphSearch Execution

variable {S : Type}

/-! ## The index -/

namespace CausalDag.CausalDagIndex

variable [Strength S] (index : CausalDagIndex S) (edge : CausalEdge S)

/-- The index after edges were inserted, if they could be. -/
def afterInserts (edges : List (CausalEdge S)) : CausalDagIndex S :=
  run (fun index edge => (index.insertEdge edge).2) new edges

/-- The strength is valid and the edge closes no cycle. -/
def Accepts : Prop :=
  (0 ≤ edge.strength ∧ edge.strength ≤ 1) ∧
    ¬Reaches index.graph.targets edge.targetId edge.sourceId

theorem insertEdge_cases :
    index.Accepts edge ∧
        index.insertEdge edge = (.ok (), { index with graph := index.graph.push edge }) ∨
      ¬index.Accepts edge ∧ ∃ error, index.insertEdge edge = (.error error, index) := by
  rw [insertEdge, Accepts, ← EdgeMaps.canReach_iff]
  by_cases valid : 0 ≤ edge.strength ∧ edge.strength ≤ 1
  · rw [if_neg (not_not.mpr valid)]
    by_cases reached : index.graph.canReach edge.targetId edge.sourceId = true
    · rw [if_pos reached]
      exact .inr ⟨fun both => both.2 reached, _, rfl⟩
    · rw [if_neg reached]
      exact .inl ⟨⟨valid, reached⟩, rfl⟩
  · rw [if_pos valid]
    exact .inr ⟨fun both => valid both.1, _, rfl⟩

variable {index edge}

theorem sound_insertEdge (sound : index.graph.Sound) :
    (index.insertEdge edge).2.graph.Sound := by
  rcases index.insertEdge_cases edge with ⟨accepts, inserted⟩ | ⟨-, error, rejected⟩
  · rw [inserted]
    exact sound.push accepts.2
  · rw [rejected]
    exact sound

theorem sound_afterInserts (edges : List (CausalEdge S)) : (afterInserts edges).graph.Sound :=
  run_invariant _ (fun index : CausalDagIndex S => index.graph.Sound)
    (fun _ _ => sound_insertEdge) EdgeMaps.sound_new edges

end CausalDag.CausalDagIndex

/-! ## The engine -/

namespace Tier1.CausalEngine

variable (engine : CausalEngine S) (edge : CausalEdge S)

/-- The engine after edges were inserted, if they could be. -/
def afterInserts (edges : List (CausalEdge S)) : CausalEngine S :=
  run (fun engine edge => (engine.insertEdge edge).2) new edges

/-- The edge closes no cycle. -/
def Accepts : Prop := ¬Reaches engine.graph.targets edge.targetId edge.sourceId

theorem insertEdge_cases :
    engine.Accepts edge ∧
        engine.insertEdge edge = (.ok (), { engine with graph := engine.graph.push edge }) ∨
      ¬engine.Accepts edge ∧ ∃ error, engine.insertEdge edge = (.error error, engine) := by
  rw [insertEdge, Accepts, ← EdgeMaps.canReach_iff]
  by_cases reached : engine.graph.canReach edge.targetId edge.sourceId = true
  · rw [if_pos reached]
    exact .inr ⟨not_not.mpr reached, _, rfl⟩
  · rw [if_neg reached]
    exact .inl ⟨reached, rfl⟩

variable {engine edge}

theorem sound_insertEdge (sound : engine.graph.Sound) :
    (engine.insertEdge edge).2.graph.Sound := by
  rcases engine.insertEdge_cases edge with ⟨accepts, inserted⟩ | ⟨-, error, rejected⟩
  · rw [inserted]
    exact sound.push accepts
  · rw [rejected]
    exact sound

theorem sound_afterInserts (edges : List (CausalEdge S)) : (afterInserts edges).graph.Sound :=
  run_invariant _ (fun engine : CausalEngine S => engine.graph.Sound)
    (fun _ _ => sound_insertEdge) EdgeMaps.sound_new edges

end Tier1.CausalEngine

/-! ## Both -/

/-- An insertion succeeds under exactly one condition, and does nothing otherwise. -/
structure Guarded {State Error : Type} (accepts : Prop) (before : State)
    (outcome : Except Error Unit × State) : Prop where
  succeeds : outcome.1 = .ok () ↔ accepts
  unchanged : outcome.1 ≠ .ok () → outcome.2 = before

theorem guarded_of_cases {State Error : Type} {accepts : Prop} {before after : State}
    {outcome : Except Error Unit × State}
    (cases : accepts ∧ outcome = (.ok (), after) ∨
      ¬accepts ∧ ∃ error, outcome = (.error error, before)) :
    Guarded accepts before outcome := by
  rcases cases with ⟨holds, rfl⟩ | ⟨fails, error, rfl⟩
  · exact ⟨iff_of_true rfl holds, fun rejected => absurd rfl rejected⟩
  · exact ⟨iff_of_false (fun same => nomatch same) fails, fun _ => rfl⟩

/-- In every state that insertions lead to, the graph has no cycle, its two maps
agree, and an edge is accepted exactly if it closes no cycle. -/
theorem causalGraphs_stay_acyclic [Strength S] (edges : List (CausalEdge S))
    (edge : CausalEdge S) :
    ((CausalDag.CausalDagIndex.afterInserts edges).graph.Sound ∧
      Guarded ((CausalDag.CausalDagIndex.afterInserts edges).Accepts edge)
        (CausalDag.CausalDagIndex.afterInserts edges)
        ((CausalDag.CausalDagIndex.afterInserts edges).insertEdge edge)) ∧
    (Tier1.CausalEngine.afterInserts edges).graph.Sound ∧
      Guarded ((Tier1.CausalEngine.afterInserts edges).Accepts edge)
        (Tier1.CausalEngine.afterInserts edges)
        ((Tier1.CausalEngine.afterInserts edges).insertEdge edge) := by
  refine ⟨⟨CausalDag.CausalDagIndex.sound_afterInserts edges, ?_⟩,
    Tier1.CausalEngine.sound_afterInserts edges, ?_⟩
  · exact guarded_of_cases (CausalDag.CausalDagIndex.insertEdge_cases _ edge)
  · exact guarded_of_cases (Tier1.CausalEngine.insertEdge_cases _ edge)

end FunDB

/-! ## What the causal engine reaches

The queue takes arrivals in the order of their depths. So what is passed over was
reached before, no later and no weaker. -/

namespace FunDB.Tier1.CausalEngine

open Execution StrongestWalks

theorem every_afterInserts {S : Type} {property : CausalEdge S → Prop}
    {inserted : List (CausalEdge S)} (all : ∀ edge ∈ inserted, property edge) :
    (afterInserts inserted).graph.Every property := by
  induction inserted using List.reverseRecOn with
  | nil => exact fun _ _ isIn => nomatch isIn
  | append_singleton inserted edge induction =>
      have before := induction fun other isIn => all other (List.mem_append_left _ isIn)
      have step : afterInserts (inserted ++ [edge]) =
          ((afterInserts inserted).insertEdge edge).2 := run_concat _ _ _ _
      rw [step]
      rcases (afterInserts inserted).insertEdge_cases edge with ⟨-, accepted⟩ | ⟨-, error, rejected⟩
      · rw [accepted]
        exact before.push (all edge (List.mem_append_right _ List.mem_cons_self))
      · rw [rejected]
        exact before

/-- The effects and the causes of an event are the nodes that paths of at most so many
edges lead to, forward and backward, each once with the strength of the strongest. -/
theorem effects_causes_exact {inserted : List (CausalEdge ℚ)}
    (nonneg : ∀ edge ∈ inserted, 0 ≤ edge.strength) (event : Uuid) (maxDepth : UInt32) :
    Reversed (afterInserts inserted).graph.forward (afterInserts inserted).graph.backward ∧
    (∃ found, (afterInserts inserted).effectsOf event maxDepth = some found ∧
      Strongest (afterInserts inserted).graph.forward event maxDepth.toNat found) ∧
    ∃ found, (afterInserts inserted).causesOf event maxDepth = some found ∧
      Strongest (afterInserts inserted).graph.backward event maxDepth.toNat found := by
  have sound : (afterInserts inserted).graph.Sound := sound_afterInserts inserted
  rcases sound.keepsOrder (every_afterInserts nonneg) with ⟨forward, backward⟩
  exact ⟨sound.reversed, reach_atEnd event maxDepth.toNat forward,
    reach_atEnd event maxDepth.toNat backward⟩

theorem effects_causes_exact_detour :
    (∀ edge ∈ detourEdges, 0 ≤ edge.strength) ∧
      ∃ found, (afterInserts detourEdges).effectsOf (.ofByte 1) 2 = some found ∧
        Strongest (afterInserts detourEdges).graph.forward (.ofByte 1) 2 found := by
  have nonneg : ∀ edge ∈ detourEdges, 0 ≤ edge.strength := by decide +kernel
  exact ⟨nonneg, (effects_causes_exact nonneg (.ofByte 1) 2).2.1⟩

example : (afterInserts detourEdges).effectsOf (.ofByte 1) 2 =
    some [(.ofByte 3, 1 / 4), (.ofByte 2, 1 / 2)] := by
  decide +kernel

end FunDB.Tier1.CausalEngine
