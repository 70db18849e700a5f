import FunDB.Causal.Scm
import Mathlib.Order.WellFounded

/-! # Worlds of causal models

What the evaluations compute: values in which every variable that is not fixed
satisfies its equation. -/

namespace FunDB.Scm.ScmModel

open TopologicalSort

variable {model : ScmModel}

/-! ## Parents -/

def IsParent (model : ScmModel) (parent name : String) : Prop :=
  ∃ equation, model.equations.lookup name = some equation ∧ parent ∈ equation.parents

/-- The variable depends on the other one, directly or not. -/
def Descends (model : ScmModel) (ancestor name : String) : Prop :=
  Relation.TransGen model.IsParent ancestor name

theorem mem_topoOrder_of_equation {name : String} {equation : StructuralEquation}
    (found : model.equations.lookup name = some equation) : name ∈ model.topoOrder := by
  apply (model.complete name).mpr
  exact .inl (AList.lookup_isSome.mp (by rw [found]; rfl))

theorem edge_of_isParent {parent name : String} (isParent : model.IsParent parent name) :
    (parent, name) ∈ parentEdges model.equations := by
  rcases isParent with ⟨equation, found, isIn⟩
  apply List.mem_flatMap.mpr
  exact ⟨⟨name, equation⟩, AList.mem_lookup_iff.mp found, List.mem_map.mpr ⟨parent, isIn, rfl⟩⟩

theorem wellFounded_isParent (model : ScmModel) : WellFounded model.IsParent := by
  have edges : WellFounded (GraphSearch.Edge (childrenOf (parentEdges model.equations))) :=
    model.sorted.wellFounded fun edge isEdge => (model.complete edge.1).mpr (.inr ⟨_, isEdge, rfl⟩)
  apply edges.mono
  exact fun parent name isParent => mem_childrenOf_iff.mpr (edge_of_isParent isParent)

theorem not_descends_self (name : String) : ¬model.Descends name name :=
  model.wellFounded_isParent.transGen.irrefl.irrefl name

/-! ## Worlds -/

/-- The values that are fixed, and the equations of all other variables. -/
def IsWorld (model : ScmModel) (compute : String → StructuralEquation → Values → ℚ)
    (fixed world : Values) : Prop :=
  ∀ name, world name = (fixed name).or
    ((model.equations.lookup name).map fun equation => compute name equation world)

/-- Equations read only their parents. -/
def Local (compute : String → StructuralEquation → Values → ℚ) : Prop :=
  ∀ name equation (values others : Values),
    (∀ parent ∈ equation.parents, values parent = others parent) →
      compute name equation values = compute name equation others

theorem computeEquation_congr {equation : StructuralEquation} {values others : Values}
    (same : ∀ parent ∈ equation.parents, values parent = others parent) :
    computeEquation equation values = computeEquation equation others := by
  unfold computeEquation
  apply List.foldl_ext
  rintro result ⟨parent, coefficient⟩ isIn
  rw [same parent (List.of_mem_zip isIn).1]

theorem local_computeEquation : Local fun _ => computeEquation :=
  fun _ _ _ _ => computeEquation_congr

theorem local_computeWithNoise (antecedent : String) (noiseTerms : Values) :
    Local (computeWithNoise antecedent noiseTerms) := by
  intro name equation values others same
  rw [computeWithNoise, computeEquation_congr same, computeWithNoise]

section Evaluation

variable {compute : String → StructuralEquation → Values → ℚ} {fixed values : Values}

/-- What holds when the variables of a list have been evaluated. -/
def Evaluated (model : ScmModel) (compute : String → StructuralEquation → Values → ℚ)
    (fixed : Values) (done : List String) (values : Values) : Prop :=
  ∀ name, values name = (fixed name).or (if name ∈ done then
    (model.equations.lookup name).map fun equation => compute name equation values else none)

theorem parent_mem_of_split {before after : List String} {name other parent : String}
    (split : model.topoOrder = before ++ name :: after) (isIn : other ∈ before ++ [name])
    (isParent : model.IsParent parent other) : parent ∈ before := by
  have isEdge := edge_of_isParent isParent
  rcases List.mem_append.mp isIn with earlier | same
  · rcases List.append_of_mem earlier with ⟨first, second, rfl⟩
    rw [List.append_assoc] at split
    exact List.mem_append_left _ (model.sorted first other _ split parent isEdge)
  · rw [List.mem_singleton.mp same] at isEdge
    exact model.sorted before name after split parent isEdge

theorem not_mem_of_split {before after : List String} {name : String}
    (split : model.topoOrder = before ++ name :: after) : name ∉ before := by
  intro earlier
  have distinct := model.distinct
  rw [split] at distinct
  exact (List.nodup_append.mp distinct).2.2 name earlier name List.mem_cons_self rfl

theorem Evaluated.assign (readsParents : Local compute) {before after : List String} {name : String}
    (split : model.topoOrder = before ++ name :: after)
    (evaluated : model.Evaluated compute fixed before values) :
    model.Evaluated compute fixed (before ++ [name]) (model.assign compute values name) := by
  have new : name ∉ before := not_mem_of_split split
  have own : values name = fixed name := by
    rw [evaluated name, if_neg new, Option.or_none]
  have otherIff : ∀ other, other ≠ name → (other ∈ before ++ [name] ↔ other ∈ before) := by
    intro other different
    simp [different]
  intro other
  unfold ScmModel.assign
  by_cases hasValue : (values name).isSome
  · rw [if_pos hasValue]
    by_cases same : other = name
    · subst same
      rw [own] at hasValue ⊢
      rw [Option.or_of_isSome hasValue]
    · simp only [otherIff other same]
      exact evaluated other
  · rw [if_neg hasValue]
    rw [own, Option.not_isSome_iff_eq_none] at hasValue
    cases found : model.equations.lookup name with
    | none =>
        dsimp only
        by_cases same : other = name
        · subst same
          rw [own, hasValue, found, if_pos (by simp)]
          rfl
        · simp only [otherIff other same]
          exact evaluated other
    | some equation =>
        dsimp only
        have kept : ∀ other equation value, other ∈ before ++ [name] →
            model.equations.lookup other = some equation →
            compute other equation (Function.update values name value) =
              compute other equation values := by
          intro other equation value isIn foundOther
          apply readsParents
          intro parent isParent
          apply Function.update_of_ne
          rintro rfl
          exact new (parent_mem_of_split split isIn ⟨equation, foundOther, isParent⟩)
        by_cases same : other = name
        · subst same
          have isIn : other ∈ before ++ [other] := by simp
          rw [Function.update_self, hasValue, Option.none_or, if_pos isIn, found, Option.map_some,
            kept other equation _ isIn found]
        · rw [Function.update_of_ne same, evaluated other]
          simp only [otherIff other same]
          by_cases isIn : other ∈ before
          · rw [if_pos isIn, if_pos isIn]
            cases foundOther : model.equations.lookup other with
            | none => rfl
            | some equation =>
                rw [Option.map_some, Option.map_some,
                  kept other equation _ (List.mem_append_left _ isIn) foundOther]
          · rw [if_neg isIn, if_neg isIn]

theorem isWorld_foldl (readsParents : Local compute) :
    model.IsWorld compute fixed (model.topoOrder.foldl (model.assign compute) fixed) := by
  have evaluated : ∀ after before values, model.topoOrder = before ++ after →
      model.Evaluated compute fixed before values →
      model.Evaluated compute fixed model.topoOrder (after.foldl (model.assign compute) values) := by
    intro after
    induction after with
    | nil =>
        intro before values split evaluated
        rw [split, List.append_nil]
        exact evaluated
    | cons name after induction =>
        intro before values split evaluated
        apply induction (before ++ [name])
        · rw [split, List.append_assoc]
          rfl
        · exact evaluated.assign readsParents split
  have start : model.Evaluated compute fixed [] fixed := by
    intro name
    simp
  intro name
  rw [evaluated _ [] fixed rfl start name]
  cases found : model.equations.lookup name with
  | none => simp
  | some equation => rw [if_pos (mem_topoOrder_of_equation found)]

end Evaluation

end FunDB.Scm.ScmModel
