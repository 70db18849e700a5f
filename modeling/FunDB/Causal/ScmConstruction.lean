import FunDB.Causal.Scm

/-! # Construction of causal models

Which equations make a model. -/

namespace FunDB.Scm

open TopologicalSort GraphSearch

/-! ## The map of the equations -/

def declaredEdges (equations : List StructuralEquation) : List (String × String) :=
  equations.flatMap fun equation => equation.parents.map (·, equation.variableName)

def Declared (equations : List StructuralEquation) (name : String) : Prop :=
  ∃ equation ∈ equations, equation.variableName = name ∨ name ∈ equation.parents

variable {equations : List StructuralEquation}

/-- Where no two equations have the same variable, the map holds all of them. -/
theorem lookup_equationMap_iff (distinct : (equations.map StructuralEquation.variableName).Nodup)
    (name : String) (equation : StructuralEquation) :
    (equationMap equations).lookup name = some equation ↔
      equation ∈ equations ∧ equation.variableName = name := by
  induction equations using List.reverseRecOn with
  | nil => exact iff_of_false (fun found => nomatch found) fun both => nomatch both.1
  | append_singleton equations last induction =>
      rw [List.map_append, List.nodup_append] at distinct
      rcases distinct with ⟨distinct, -, apart⟩
      have inserted : equationMap (equations ++ [last]) =
          (equationMap equations).insert last.variableName last := List.foldl_append
      rw [inserted, Dict.lookup_insert, List.mem_append, List.mem_singleton]
      split
      · next same =>
          rw [Option.some_inj]
          constructor
          · rintro rfl
            exact ⟨.inr rfl, same.symm⟩
          · rintro ⟨isIn | rfl, sameName⟩
            · exact absurd (sameName.trans same)
                (apart _ (List.mem_map_of_mem isIn) _ (List.mem_singleton_self _))
            · rfl
      · next different =>
          rw [induction distinct]
          constructor
          · exact fun both => ⟨.inl both.1, both.2⟩
          · rintro ⟨isIn | rfl, sameName⟩
            · exact ⟨isIn, sameName⟩
            · exact absurd sameName.symm different

theorem mem_entries_iff (distinct : (equations.map StructuralEquation.variableName).Nodup)
    (entry : Sigma fun _ : String => StructuralEquation) :
    entry ∈ (equationMap equations).entries ↔
      entry.2 ∈ equations ∧ entry.2.variableName = entry.1 := by
  rw [← lookup_equationMap_iff distinct]
  exact AList.mem_lookup_iff.symm

theorem mem_parentEdges_iff (distinct : (equations.map StructuralEquation.variableName).Nodup)
    (edge : String × String) :
    edge ∈ parentEdges (equationMap equations) ↔ edge ∈ declaredEdges equations := by
  rw [parentEdges, declaredEdges, List.mem_flatMap, List.mem_flatMap]
  constructor
  · rintro ⟨⟨name, equation⟩, isEntry, isParent⟩
    have found : equation ∈ equations ∧ equation.variableName = name :=
      (mem_entries_iff distinct _).mp isEntry
    exact ⟨equation, found.1, found.2.symm ▸ isParent⟩
  · rintro ⟨equation, isIn, isParent⟩
    exact ⟨⟨equation.variableName, equation⟩, (mem_entries_iff distinct _).mpr ⟨isIn, rfl⟩,
      isParent⟩

theorem mentioned_iff (distinct : (equations.map StructuralEquation.variableName).Nodup)
    (name : String) : Mentioned (equationMap equations) name ↔ Declared equations name := by
  have isKey : name ∈ equationMap equations ↔
      ∃ equation ∈ equations, equation.variableName = name := by
    rw [← AList.lookup_isSome, Option.isSome_iff_exists]
    exact exists_congr fun equation => lookup_equationMap_iff distinct name equation
  have isParent : (∃ edge ∈ parentEdges (equationMap equations), edge.1 = name) ↔
      ∃ equation ∈ equations, name ∈ equation.parents := by
    constructor
    · rintro ⟨edge, isEdge, rfl⟩
      rcases List.mem_flatMap.mp ((mem_parentEdges_iff distinct edge).mp isEdge) with
        ⟨equation, isIn, isPair⟩
      rcases List.mem_map.mp isPair with ⟨parent, isParent, rfl⟩
      exact ⟨equation, isIn, isParent⟩
    · rintro ⟨equation, isIn, isParent⟩
      refine ⟨(name, equation.variableName), (mem_parentEdges_iff distinct _).mpr ?_, rfl⟩
      exact List.mem_flatMap.mpr ⟨equation, isIn, List.mem_map_of_mem isParent⟩
  rw [Mentioned, isKey, isParent, Declared]
  constructor
  · rintro (⟨equation, isIn, same⟩ | ⟨equation, isIn, isParent⟩)
    · exact ⟨equation, isIn, .inl same⟩
    · exact ⟨equation, isIn, .inr isParent⟩
  · rintro ⟨equation, isIn, same | isParent⟩
    · exact .inl ⟨equation, isIn, same⟩
    · exact .inr ⟨equation, isIn, isParent⟩

/-! ## The sorting -/

/-- The sorting takes all variables if and only if there is no cycle. -/
theorem length_kahn_iff (equations : Equations) :
    (DegreeMaps.ofEquations equations).kahn.length =
        (DegreeMaps.ofEquations equations).inDegree.keys.length ↔
      Acyclic (childrenOf (parentEdges equations)) := by
  have tracks := DegreeMaps.tracks_ofEquations equations
  rcases tracks.valid_kahn with ⟨progress, valid, empty, same⟩
  have isKnown : ∀ edge ∈ parentEdges equations,
      edge.1 ∈ (DegreeMaps.ofEquations equations).inDegree.keys := by
    intro edge isEdge
    exact AList.mem_keys.mp ((tracks.known edge.1).mpr (.inr ⟨edge, isEdge, rfl⟩))
  rw [← same]
  constructor
  · intro all
    apply valid.sorted.acyclic
    exact fun edge isEdge => (valid.perm all).mem_iff.mpr (isKnown edge isEdge)
  · exact valid.complete empty (AList.keys_nodup _) isKnown

theorem acyclic_congr {edges others : List (String × String)}
    (same : ∀ edge, edge ∈ edges ↔ edge ∈ others) :
    Acyclic (childrenOf edges) ↔ Acyclic (childrenOf others) := by
  have sameEdge : Edge (childrenOf edges) = Edge (childrenOf others) := by
    funext parent name
    exact propext (mem_childrenOf_iff.trans ((same _).trans mem_childrenOf_iff.symm))
  rw [Acyclic, Acyclic, sameEdge]

namespace ScmModel

theorem new_cases (equations : List StructuralEquation) :
    (∃ equation ∈ equations, equation.coefficients.length ≠ equation.parents.length) ∧
        (∃ error, new equations = .error error) ∨
      (∀ equation ∈ equations, equation.coefficients.length = equation.parents.length) ∧
        ((∃ model, new equations = .ok model ∧ model.equations = equationMap equations) ∧
            Acyclic (childrenOf (parentEdges (equationMap equations))) ∨
          (∃ error, new equations = .error error) ∧
            ¬Acyclic (childrenOf (parentEdges (equationMap equations)))) := by
  unfold new
  split
  · next equation found =>
      have uneven := List.find?_some found
      exact .inl ⟨⟨equation, List.mem_of_find?_eq_some found, of_decide_eq_true uneven⟩, _, rfl⟩
  · next none =>
      right
      constructor
      · intro equation isIn
        simpa using List.find?_eq_none.mp none equation isIn
      · dsimp only
        rw [← length_kahn_iff]
        split
        · next all => exact .inl ⟨⟨_, rfl, rfl⟩, all⟩
        · next notAll => exact .inr ⟨⟨_, rfl⟩, notAll⟩

/-- Equations make a model if and only if each has as many coefficients as parents and
there is no cycle. The order of the model has every variable and every parent once, parents
before their children. -/
theorem new_decides_acyclicity {equations : List StructuralEquation}
    (distinct : (equations.map StructuralEquation.variableName).Nodup) :
    ((∃ model, new equations = .ok model) ↔
      (∀ equation ∈ equations, equation.coefficients.length = equation.parents.length) ∧
        Acyclic (childrenOf (declaredEdges equations))) ∧
    ∀ model, new equations = .ok model →
      model.topoOrder.Nodup ∧ (∀ name, name ∈ model.topoOrder ↔ Declared equations name) ∧
        Sorted (declaredEdges equations) model.topoOrder := by
  have acyclic := acyclic_congr (mem_parentEdges_iff distinct)
  rcases new_cases equations with ⟨⟨equation, isIn, uneven⟩, error, failed⟩ | ⟨even, made | failed⟩
  · rw [failed]
    refine ⟨iff_of_false (fun made => ?_) fun both => uneven (both.1 equation isIn), ?_⟩
    · rcases made with ⟨model, impossible⟩
      cases impossible
    · exact fun model made => nomatch made
  · rcases made with ⟨⟨model, made, sameEquations⟩, noCycle⟩
    refine ⟨iff_of_true ⟨model, made⟩ ⟨even, acyclic.mp noCycle⟩, fun other madeOther => ?_⟩
    cases made.symm.trans madeOther
    refine ⟨model.distinct, fun name => ?_, fun before node after split parent isEdge => ?_⟩
    · rw [model.complete, sameEquations]
      exact mentioned_iff distinct name
    · apply model.sorted before node after split parent
      rw [sameEquations]
      exact (mem_parentEdges_iff distinct _).mpr isEdge
  · rcases failed with ⟨⟨error, failed⟩, cycle⟩
    rw [failed]
    refine ⟨iff_of_false (fun made => ?_) fun both => cycle (acyclic.mpr both.2), ?_⟩
    · rcases made with ⟨model, impossible⟩
      cases impossible
    · exact fun model made => nomatch made

/-- A variable with a repeated parent that has no equation, and a child of both. -/
def sampleEquations : List StructuralEquation :=
  [⟨"z", ["y", "x"], [1, 1], 0⟩, ⟨"y", ["x", "x"], [1, 2], 0⟩]

theorem new_decides_acyclicity_sample :
    ∃ model, new sampleEquations = .ok model ∧ model.topoOrder.Nodup ∧
      (∀ name, name ∈ model.topoOrder ↔ Declared sampleEquations name) ∧
        Sorted (declaredEdges sampleEquations) model.topoOrder := by
  have made : (new sampleEquations).isOk = true := by decide +kernel
  cases result : new sampleEquations with
  | error error =>
      rw [result] at made
      cases made
  | ok model => exact ⟨model, rfl, (new_decides_acyclicity (by decide)).2 model result⟩

example : (new [⟨"y", ["z"], [1], 0⟩, ⟨"z", ["y"], [1], 0⟩]).isOk = false := by decide +kernel

end ScmModel

end FunDB.Scm
