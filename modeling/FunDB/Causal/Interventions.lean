import FunDB.Causal.Worlds

/-! # Interventions and counterfactuals

When an intervention computes everything behind it again, and which
counterfactuals are facts. -/

namespace FunDB.Scm.ScmModel

/-! ## Evaluated worlds -/

variable (model : ScmModel) (observations : Values)

theorem isWorld_evaluate : model.IsWorld (fun _ => computeEquation) observations
    (model.evaluate observations) :=
  isWorld_foldl local_computeEquation

theorem isWorld_evaluateMutilated (intervention : String) :
    model.IsWorld (fun _ => computeEquation) observations
      (model.evaluateMutilated intervention observations) :=
  isWorld_foldl local_computeEquation

theorem isWorld_evaluateCounterfactualWithNoise (antecedent : String) (noiseTerms : Values) :
    model.IsWorld (computeWithNoise antecedent noiseTerms) observations
      (model.evaluateCounterfactualWithNoise antecedent observations noiseTerms) :=
  isWorld_foldl (local_computeWithNoise antecedent noiseTerms)

variable {model observations}

theorem outcome_of_some {values : Values} {target : String} {value : ℚ}
    (found : values target = some value) : outcome values target = .ok value := by
  rw [outcome, found]

theorem evaluate_of_observed {name : String} {value : ℚ} (observed : observations name = some value) :
    model.evaluate observations name = some value := by
  rw [isWorld_evaluate model observations name, observed]
  rfl

theorem evaluate_of_equation {name : String} {equation : StructuralEquation}
    (unobserved : observations name = none)
    (found : model.equations.lookup name = some equation) :
    model.evaluate observations name =
      some (computeEquation equation (model.evaluate observations)) := by
  rw [isWorld_evaluate model observations name, unobserved, found]
  rfl

theorem evaluate_of_no_equation {name : String} (missing : model.equations.lookup name = none) :
    model.evaluate observations name = observations name := by
  rw [isWorld_evaluate model observations name, missing]
  exact Option.or_none

theorem exists_evaluate_of_equation {name : String} {equation : StructuralEquation}
    (found : model.equations.lookup name = some equation) :
    ∃ value, model.evaluate observations name = some value := by
  cases observed : observations name with
  | some value => exact ⟨value, evaluate_of_observed observed⟩
  | none => exact ⟨_, evaluate_of_equation observed found⟩

theorem exists_evaluate_of_known {name : String} (known : model.Known observations name) :
    ∃ value, model.evaluate observations name = some value := by
  rcases known with hasEquation | isObserved
  · rcases Option.isSome_iff_exists.mp (AList.lookup_isSome.mpr hasEquation) with ⟨equation, found⟩
    exact exists_evaluate_of_equation found
  · rcases Option.isSome_iff_exists.mp isObserved with ⟨value, observed⟩
    exact ⟨value, evaluate_of_observed observed⟩

theorem evaluate_of_unknown {name : String} (unknown : ¬model.Known observations name) :
    model.evaluate observations name = none := by
  rw [Known, not_or, Option.not_isSome_iff_eq_none] at unknown
  rw [evaluate_of_no_equation (AList.lookup_eq_none.mpr unknown.1)]
  exact unknown.2

/-! ## Counterfactuals -/

/-- A variable whose equation is computed again with its own noise keeps its
value. -/
theorem computeWithNoise_noiseTerms {antecedent name : String} {equation : StructuralEquation}
    {world : Values} (different : name ≠ antecedent)
    (found : model.equations.lookup name = some equation)
    (same : ∀ parent ∈ equation.parents, world parent = model.evaluate observations parent) :
    some (computeWithNoise antecedent (model.noiseTerms (model.evaluate observations)) name
      equation world) = model.evaluate observations name := by
  rcases exists_evaluate_of_equation found with ⟨value, factual⟩
  have noise : model.noiseTerms (model.evaluate observations) name =
      some (value - computeEquation equation (model.evaluate observations)) := by
    rw [noiseTerms, found, factual]
    rfl
  rw [computeWithNoise, if_pos different, noise, computeEquation_congr same, factual]
  dsimp only
  rw [add_sub_cancel]

/-- Where the antecedent has its factual value, or is not above a variable, the
counterfactual world is the factual one. -/
theorem counterfactual_world_eq {antecedent : String} {value : ℚ} (name : String)
    (factual : name = antecedent ∨ model.Descends antecedent name →
      model.evaluate observations antecedent = some value) :
    model.evaluateCounterfactualWithNoise antecedent
        (Function.update (model.exogenous observations) antecedent (some value))
        (model.noiseTerms (model.evaluate observations)) name =
      model.evaluate observations name := by
  induction name using model.wellFounded_isParent.induction with
  | _ name induction =>
      rw [isWorld_evaluateCounterfactualWithNoise]
      by_cases same : name = antecedent
      · subst same
        rw [Function.update_self, factual (.inl rfl)]
        rfl
      · rw [Function.update_of_ne same]
        cases found : model.equations.lookup name with
        | none =>
            have hasNone : name ∉ model.equations := AList.lookup_eq_none.mp found
            rw [exogenous, if_neg hasNone, Option.map_none, Option.or_none,
              evaluate_of_no_equation found]
        | some equation =>
            have hasEquation : name ∈ model.equations :=
              AList.lookup_isSome.mp (by rw [found]; rfl)
            rw [exogenous, if_pos hasEquation, Option.none_or, Option.map_some]
            apply computeWithNoise_noiseTerms same found
            intro parent isIn
            have isParent : model.IsParent parent name := ⟨equation, found, isIn⟩
            apply induction parent isParent
            rintro (rfl | descends)
            · exact factual (.inr (.single isParent))
            · exact factual (.inr (descends.tail isParent))

theorem counterfactual_eq_outcome {antecedent target : String} {value : ℚ}
    (known : model.Known observations antecedent)
    (factual : target = antecedent ∨ model.Descends antecedent target →
      model.evaluate observations antecedent = some value) :
    model.counterfactual antecedent value target observations =
      outcome (model.evaluate observations) target := by
  rw [counterfactual, if_neg (not_not.mpr known)]
  split
  · next unknown => rw [outcome, evaluate_of_unknown unknown]
  · next isKnown =>
      dsimp only
      rw [outcome, counterfactual_world_eq target factual, outcome]

/-- A counterfactual with the factual value of its antecedent is a fact, and so is
one about a variable that does not depend on the antecedent. -/
theorem counterfactual_consistent (model : ScmModel) (observations : Values) (antecedent : String)
    (known : model.Known observations antecedent) :
    (∃ value, model.evaluate observations antecedent = some value ∧
      ∀ target, model.counterfactual antecedent value target observations =
        outcome (model.evaluate observations) target) ∧
    ∀ value target, target ≠ antecedent → ¬model.Descends antecedent target →
      model.counterfactual antecedent value target observations =
        outcome (model.evaluate observations) target := by
  constructor
  · rcases exists_evaluate_of_known known with ⟨value, factual⟩
    exact ⟨value, factual, fun target => counterfactual_eq_outcome known fun _ => factual⟩
  · intro value target different apart
    apply counterfactual_eq_outcome known
    rintro (same | descends)
    · exact absurd same different
    · exact absurd descends apart

/-- One variable is the other. -/
def sampleEquation : StructuralEquation := ⟨"y", ["x"], [1], 0⟩

def sampleModel : ScmModel := .ofOrder (AList.singleton "y" sampleEquation) (by decide +kernel)

def sampleObservations : Values :=
  Function.update (Function.update (fun _ => none) "x" (some 0)) "y" (some 5)

theorem counterfactual_consistent_sample :
    sampleModel.Known sampleObservations "x" ∧
      sampleModel.counterfactual "x" 0 "y" sampleObservations = .ok 5 := by
  have known : sampleModel.Known sampleObservations "x" := by decide +kernel
  rcases (counterfactual_consistent sampleModel sampleObservations "x" known).1 with
    ⟨value, factual, consistent⟩
  have isZero : sampleModel.evaluate sampleObservations "x" = some 0 := by decide +kernel
  cases factual.symm.trans isZero
  refine ⟨known, (consistent "y").trans ?_⟩
  decide +kernel

/-! ## Interventions -/

/-- The values when a variable is set: what does not depend on it stays as it was,
and what depends on it follows from its equation. -/
structure DoWorld (model : ScmModel) (observations : Values) (intervention : String) (value : ℚ)
    (world : Values) : Prop where
  intervened : world intervention = some value
  kept : ∀ name, name ≠ intervention → ¬model.Descends intervention name →
    world name = model.evaluate observations name
  computed : ∀ name equation, model.Descends intervention name →
    model.equations.lookup name = some equation →
    world name = some (computeEquation equation world)

theorem exists_equation_of_descends {ancestor name : String} (descends : model.Descends ancestor name) :
    ∃ equation, model.equations.lookup name = some equation := by
  rcases Relation.TransGen.tail'_iff.mp descends with ⟨parent, -, equation, found, -⟩
  exact ⟨equation, found⟩

section Interventions

variable {intervention : String} {value : ℚ} {world : Values}

/-- A world that fixes what does not depend on the intervention. -/
theorem exists_doWorld (model : ScmModel) (observations : Values) (intervention : String)
    (value : ℚ) : ∃ world, model.DoWorld observations intervention value world := by
  classical
  let fixed : Values := fun name =>
    if name = intervention then some value
    else if model.Descends intervention name then none
    else model.evaluate observations name
  refine ⟨model.evaluate fixed, ?_, ?_, ?_⟩
  · exact evaluate_of_observed (if_pos rfl)
  · intro name different apart
    have isFixed : fixed name = model.evaluate observations name :=
      (if_neg different).trans (if_neg apart)
    cases found : model.equations.lookup name with
    | none => rw [evaluate_of_no_equation found, isFixed]
    | some equation =>
        have hasValue : ∃ value, model.evaluate observations name = some value :=
          exists_evaluate_of_equation found
        rcases hasValue with ⟨value, isValue⟩
        rw [evaluate_of_observed (isFixed.trans isValue), isValue]
  · intro name equation descends found
    apply evaluate_of_equation _ found
    have different : name ≠ intervention := by
      rintro rfl
      exact model.not_descends_self name descends
    exact (if_neg different).trans (if_pos descends)

theorem DoWorld.unique {other : Values} (isDo : model.DoWorld observations intervention value world)
    (isOther : model.DoWorld observations intervention value other) : other = world := by
  funext name
  induction name using model.wellFounded_isParent.induction with
  | _ name induction =>
      by_cases same : name = intervention
      · rw [same, isOther.intervened, isDo.intervened]
      · by_cases descends : model.Descends intervention name
        · rcases exists_equation_of_descends descends with ⟨equation, found⟩
          rw [isOther.computed name equation descends found,
            isDo.computed name equation descends found]
          congr 1
          apply computeEquation_congr
          exact fun parent isIn => induction parent ⟨equation, found, isIn⟩
        · rw [isOther.kept name same descends, isDo.kept name same descends]

/-- What an intervention evaluates, where the observations agree with the
equations behind it. -/
theorem DoWorld.evaluateMutilated_eq (isDo : model.DoWorld observations intervention value world)
    (agrees : ∀ name equation, model.Descends intervention name →
      model.equations.lookup name = some equation →
      ∀ observed, observations name = some observed →
        observed = computeEquation equation world) (name : String) :
    model.evaluateMutilated intervention
      (Function.update observations intervention (some value)) name = world name := by
  induction name using model.wellFounded_isParent.induction with
  | _ name induction =>
      rw [isWorld_evaluateMutilated]
      by_cases same : name = intervention
      · rw [same, Function.update_self, isDo.intervened]
        rfl
      · rw [Function.update_of_ne same]
        by_cases descends : model.Descends intervention name
        · rcases exists_equation_of_descends descends with ⟨equation, found⟩
          rw [isDo.computed name equation descends found, found]
          cases isObserved : observations name with
          | some observed =>
              rw [agrees name equation descends found observed isObserved]
              rfl
          | none =>
              rw [Option.none_or, Option.map_some]
              congr 1
              apply computeEquation_congr
              exact fun parent isIn => induction parent ⟨equation, found, isIn⟩
        · rw [isDo.kept name same descends]
          cases found : model.equations.lookup name with
          | none =>
              rw [evaluate_of_no_equation found]
              exact Option.or_none
          | some equation =>
              cases isObserved : observations name with
              | some observed =>
                  rw [evaluate_of_observed isObserved]
                  rfl
              | none =>
                  rw [evaluate_of_equation isObserved found, Option.none_or, Option.map_some]
                  congr 1
                  apply computeEquation_congr
                  intro parent isIn
                  have isParent : model.IsParent parent name := ⟨equation, found, isIn⟩
                  rw [induction parent isParent]
                  apply isDo.kept
                  · rintro rfl
                    exact descends (.single isParent)
                  · exact fun above => descends (above.tail isParent)

theorem intervene_of_known {target : String} (known : model.Known observations intervention)
    (targetKnown : model.Known observations target) :
    model.intervene intervention value target observations =
      outcome (model.evaluateMutilated intervention
        (Function.update observations intervention (some value))) target := by
  rw [intervene, if_neg (not_not.mpr known), if_neg (not_not.mpr targetKnown)]

theorem known_of_intervene {target : String} {result : ℚ}
    (returned : model.intervene intervention value target observations = .ok result) :
    model.Known observations intervention ∧ model.Known observations target := by
  rw [intervene] at returned
  by_cases known : model.Known observations intervention
  · rw [if_neg (not_not.mpr known)] at returned
    by_cases targetKnown : model.Known observations target
    · exact ⟨known, targetKnown⟩
    · rw [if_pos targetKnown] at returned
      cases returned
  · rw [if_pos known] at returned
    cases returned

end Interventions

/-- There is one world in which a variable is set, and interventions return its
values for all that depends on the variable exactly if the variable is known and
every observation behind it is what the equation gives in that world. -/
theorem intervene_computes_descendants_iff (model : ScmModel) (observations : Values)
    (intervention : String) (value : ℚ) :
    ∃ world, (∀ other, model.DoWorld observations intervention value other ↔ other = world) ∧
      ((∀ target, model.Descends intervention target → ∃ result, world target = some result ∧
        model.intervene intervention value target observations = .ok result) ↔
      ∀ target equation, model.Descends intervention target →
        model.equations.lookup target = some equation →
        model.Known observations intervention ∧
          ∀ observed, observations target = some observed →
            observed = computeEquation equation world) := by
  rcases exists_doWorld model observations intervention value with ⟨world, isDo⟩
  refine ⟨world, fun other => ⟨isDo.unique, fun same => same ▸ isDo⟩, ?_, ?_⟩
  · intro returns target equation descends found
    rcases returns target descends with ⟨result, isValue, returned⟩
    rcases known_of_intervene returned with ⟨known, targetKnown⟩
    refine ⟨known, fun observed isObserved => ?_⟩
    have different : target ≠ intervention := by
      rintro rfl
      exact model.not_descends_self target descends
    have kept : model.evaluateMutilated intervention
        (Function.update observations intervention (some value)) target = some observed := by
      rw [isWorld_evaluateMutilated, Function.update_of_ne different, isObserved]
      rfl
    rw [intervene_of_known known targetKnown, outcome_of_some kept] at returned
    cases returned
    rw [isDo.computed target equation descends found] at isValue
    exact (Option.some.inj isValue).symm
  · intro agrees target descends
    rcases exists_equation_of_descends descends with ⟨equation, found⟩
    have known := (agrees target equation descends found).1
    have targetKnown : model.Known observations target :=
      .inl (AList.lookup_isSome.mp (by rw [found]; rfl))
    have isValue := isDo.computed target equation descends found
    refine ⟨_, isValue, ?_⟩
    rw [intervene_of_known known targetKnown]
    apply outcome_of_some
    rw [isDo.evaluateMutilated_eq, isValue]
    exact fun name equation descends found => (agrees name equation descends found).2

/-- An observed variable keeps its value when its parent is set. -/
theorem observed_descendant_kept :
    sampleModel.Descends "x" "y" ∧
      sampleModel.DoWorld sampleObservations "x" 1
        (Function.update (Function.update (fun _ => none) "x" (some 1)) "y" (some 1)) ∧
      sampleModel.intervene "x" 1 "y" sampleObservations = .ok 5 := by
  have found : sampleModel.equations.lookup "y" = some sampleEquation := by decide +kernel
  have descends : sampleModel.Descends "x" "y" := .single ⟨sampleEquation, found, by decide⟩
  have missing : ∀ name, name ≠ "y" → sampleModel.equations.lookup name = none := by
    intro name different
    apply AList.lookup_eq_none.mpr
    intro isIn
    exact different (List.mem_singleton.mp (AList.mem_keys.mp isIn))
  refine ⟨descends, ⟨by decide +kernel, ?_, ?_⟩, by decide +kernel⟩
  · intro name different apart
    have other : name ≠ "y" := by
      rintro rfl
      exact apart descends
    rw [evaluate_of_no_equation (missing name other), sampleObservations,
      Function.update_of_ne other, Function.update_of_ne different, Function.update_of_ne other,
      Function.update_of_ne different]
  · intro name equation _ isEquation
    by_cases same : name = "y"
    · subst same
      cases found.symm.trans isEquation
      decide +kernel
    · cases (missing name same).symm.trans isEquation

end FunDB.Scm.ScmModel
