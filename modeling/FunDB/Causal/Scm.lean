import FunDB.Foundation.Buckets
import FunDB.Foundation.TopologicalSort
import Mathlib.Data.List.Sort
import Mathlib.Data.Rat.Defs
import Mathlib.Data.String.Basic

/-! # Structural causal models

Linear equations between variables, sorted so that every variable comes after its
parents. -/

namespace FunDB.Scm

open TopologicalSort

/-- A linear equation. The standard deviation of its noise is not used by models. -/
structure StructuralEquation where
  variableName : String
  parents : List String
  coefficients : List ℚ
  intercept : ℚ
deriving DecidableEq, Repr

inductive ScmError where
  | cycleDetected (variableName : String)
  | unknownVariable (variableName : String)
  | dimensionMismatch (expected got : Nat)
deriving DecidableEq, Repr

abbrev Equations := Dict String StructuralEquation

/-! ## Degrees -/

/-- How many parents are left for each variable, and the children of each. -/
structure DegreeMaps where
  inDegree : Dict String Nat
  children : Buckets String String

namespace DegreeMaps

def degree (maps : DegreeMaps) (name : String) : Nat := (maps.inDegree.lookup name).getD 0

/-- Give a variable the degree 0 if it has none. -/
def orInsert (maps : DegreeMaps) (name : String) : DegreeMaps where
  inDegree := if name ∈ maps.inDegree then maps.inDegree else maps.inDegree.insert name 0
  children := maps.children

def addParent (name : String) (maps : DegreeMaps) (parent : String) : DegreeMaps :=
  let maps := maps.orInsert parent
  let maps := { maps with children := maps.children.push parent name }
  let maps := maps.orInsert name
  { maps with inDegree := maps.inDegree.insert name (maps.degree name + 1) }

def addEquation (maps : DegreeMaps) (name : String) (equation : StructuralEquation) : DegreeMaps :=
  equation.parents.foldl (addParent name) (maps.orInsert name)

def ofEquations (equations : Equations) : DegreeMaps :=
  equations.entries.foldl (fun maps entry => maps.addEquation entry.1 entry.2) ⟨∅, ∅⟩

/-- Sort the variables, those that become ready together by their names. -/
def kahn (maps : DegreeMaps) : List String :=
  let queue := maps.inDegree.keys.filter fun name => maps.degree name = 0
  let start : Progress String := ⟨[], queue.insertionSort (· ≤ ·), maps.degree⟩
  (turns (List.insertionSort (· ≤ ·)) maps.children.bucket maps.inDegree.keys.length start).order

end DegreeMaps

/-! ## The graph of the equations -/

def parentEdges (equations : Equations) : List (String × String) :=
  equations.entries.flatMap fun entry => entry.2.parents.map (·, entry.1)

def Mentioned (equations : Equations) (name : String) : Prop :=
  name ∈ equations ∨ ∃ edge ∈ parentEdges equations, edge.1 = name

namespace DegreeMaps

/-- The maps are those of some variables and of edges between them. -/
structure Tracks (maps : DegreeMaps) (names : List String) (edges : List (String × String)) :
    Prop where
  degree : maps.degree = pending edges []
  children : maps.children.bucket = childrenOf edges
  known : ∀ name, name ∈ maps.inDegree ↔ name ∈ names ∨ ∃ edge ∈ edges, edge.1 = name
  targets : ∀ edge ∈ edges, edge.2 ∈ names

variable {maps : DegreeMaps} {names : List String} {edges : List (String × String)}

theorem mem_orInsert_iff (maps : DegreeMaps) (name other : String) :
    other ∈ (maps.orInsert name).inDegree ↔ other ∈ maps.inDegree ∨ other = name := by
  unfold orInsert
  by_cases present : name ∈ maps.inDegree
  · rw [if_pos present]
    exact ⟨.inl, fun either => either.elim id fun same => same ▸ present⟩
  · rw [if_neg present, AList.mem_insert]
    exact Or.comm

theorem degree_orInsert (maps : DegreeMaps) (name : String) :
    (maps.orInsert name).degree = maps.degree := by
  funext other
  unfold orInsert degree
  by_cases present : name ∈ maps.inDegree
  · rw [if_pos present]
  · rw [if_neg present]
    rw [Dict.lookup_insert]
    split
    · next same => rw [same, AList.lookup_eq_none.mpr present]; rfl
    · rfl

theorem degree_addParent (maps : DegreeMaps) (name parent other : String) :
    (maps.addParent name parent).degree other =
      maps.degree other + if name = other then 1 else 0 := by
  have before : (DegreeMaps.orInsert ⟨(maps.orInsert parent).inDegree,
      (maps.orInsert parent).children.push parent name⟩ name).degree = maps.degree := by
    rw [degree_orInsert]
    exact degree_orInsert maps parent
  have result : (maps.addParent name parent).degree other =
      ((AList.insert name (maps.degree name + 1) (DegreeMaps.orInsert
        ⟨(maps.orInsert parent).inDegree, (maps.orInsert parent).children.push parent name⟩
        name).inDegree).lookup other).getD 0 := by
    rw [← before]
    rfl
  rw [result, Dict.lookup_insert]
  split
  · next same => rw [same, if_pos rfl]; rfl
  · next different => rw [if_neg (Ne.symm different), ← before]; rfl

theorem mem_addParent_iff (maps : DegreeMaps) (name parent other : String) :
    other ∈ (maps.addParent name parent).inDegree ↔
      other ∈ maps.inDegree ∨ other = parent ∨ other = name := by
  have result : other ∈ (maps.addParent name parent).inDegree ↔
      other = name ∨ other ∈ (DegreeMaps.orInsert
        ⟨(maps.orInsert parent).inDegree, (maps.orInsert parent).children.push parent name⟩
        name).inDegree := AList.mem_insert _
  rw [result, mem_orInsert_iff, mem_orInsert_iff]
  tauto

theorem bucket_addParent (maps : DegreeMaps) (name parent other : String) :
    (maps.addParent name parent).children.bucket other =
      if other = parent then maps.children.bucket parent ++ [name]
      else maps.children.bucket other :=
  Buckets.bucket_push _ _ _ _

theorem Tracks.addParent (tracks : maps.Tracks names edges) {name : String} (isName : name ∈ names)
    (parent : String) : (maps.addParent name parent).Tracks names (edges ++ [(parent, name)]) where
  degree := by
    funext other
    rw [degree_addParent, tracks.degree, pending, pending, List.countP_append]
    simp
  children := by
    funext other
    rw [bucket_addParent, tracks.children, childrenOf, childrenOf, childrenOf, List.filter_append,
      List.map_append]
    by_cases same : other = parent
    · simp [same]
    · simp [same, Ne.symm same]
  known other := by
    rw [mem_addParent_iff, tracks.known]
    constructor
    · rintro ((isName | ⟨edge, isEdge, rfl⟩) | rfl | rfl)
      · exact .inl isName
      · exact .inr ⟨edge, List.mem_append_left _ isEdge, rfl⟩
      · exact .inr ⟨_, List.mem_append_right _ List.mem_cons_self, rfl⟩
      · exact .inl isName
    · rintro (isName | ⟨edge, isEdge, rfl⟩)
      · exact .inl (.inl isName)
      · rcases List.mem_append.mp isEdge with old | new
        · exact .inl (.inr ⟨edge, old, rfl⟩)
        · cases List.mem_singleton.mp new
          exact .inr (.inl rfl)
  targets edge isEdge := by
    rcases List.mem_append.mp isEdge with old | new
    · exact tracks.targets edge old
    · cases List.mem_singleton.mp new
      exact isName

theorem Tracks.orInsert (tracks : maps.Tracks names edges) (name : String) :
    (maps.orInsert name).Tracks (names ++ [name]) edges where
  degree := (degree_orInsert maps name).trans tracks.degree
  children := tracks.children
  known other := by
    rw [mem_orInsert_iff, tracks.known, List.mem_append, List.mem_singleton]
    exact or_right_comm
  targets edge isEdge := List.mem_append_left _ (tracks.targets edge isEdge)

theorem Tracks.addParents {name : String} (isName : name ∈ names) (parents : List String)
    (tracks : maps.Tracks names edges) :
    (parents.foldl (DegreeMaps.addParent name) maps).Tracks names
      (edges ++ parents.map (·, name)) := by
  induction parents generalizing maps edges with
  | nil => simpa using tracks
  | cons parent parents induction =>
      have next := induction (tracks.addParent isName parent)
      rw [List.append_assoc] at next
      exact next

theorem Tracks.addEntries (entries : List (Sigma fun _ : String => StructuralEquation))
    (tracks : maps.Tracks names edges) :
    (entries.foldl (fun maps entry => maps.addEquation entry.1 entry.2) maps).Tracks
      (names ++ entries.map Sigma.fst)
      (edges ++ entries.flatMap fun entry => entry.2.parents.map (·, entry.1)) := by
  induction entries generalizing maps names edges with
  | nil => simpa using tracks
  | cons entry entries induction =>
      have added : (maps.addEquation entry.1 entry.2).Tracks (names ++ [entry.1])
          (edges ++ entry.2.parents.map (·, entry.1)) :=
        (tracks.orInsert entry.1).addParents (by simp) entry.2.parents
      have next := induction added
      rw [List.append_assoc, List.append_assoc] at next
      exact next

theorem tracks_ofEquations (equations : Equations) :
    (ofEquations equations).Tracks equations.keys (parentEdges equations) := by
  have start : DegreeMaps.Tracks ⟨∅, ∅⟩ [] [] := by
    refine ⟨rfl, rfl, fun name => ?_, fun edge isEdge => nomatch isEdge⟩
    simp [AList.notMem_empty]
  exact start.addEntries equations.entries

theorem Tracks.valid_kahn (tracks : maps.Tracks names edges) :
    ∃ progress : Progress String, Valid edges maps.inDegree.keys progress ∧
      progress.queue = [] ∧ progress.order = maps.kahn := by
  have children : ∀ edge ∈ edges, edge.2 ∈ maps.inDegree.keys := fun edge isEdge =>
    AList.mem_keys.mp ((tracks.known edge.2).mpr (.inl (tracks.targets edge isEdge)))
  have permutes : ∀ list : List String, (list.insertionSort (· ≤ ·)).Perm list :=
    List.perm_insertionSort (· ≤ ·)
  have start : Valid edges maps.inDegree.keys ⟨[], (maps.inDegree.keys.filter
      fun name => maps.degree name = 0).insertionSort (· ≤ ·), maps.degree⟩ := by
    rw [tracks.degree]
    exact valid_start maps.inDegree.keys_nodup (permutes _)
  refine ⟨_, start.turns children permutes maps.inDegree.keys.length,
    queue_turns start children permutes (Nat.le_add_left _ _), ?_⟩
  rw [kahn, tracks.children]

end DegreeMaps

/-! ## Models -/

/-- A model has an order of all its variables, parents first. -/
structure ScmModel where
  equations : Equations
  topoOrder : List String
  distinct : topoOrder.Nodup
  complete : ∀ name, name ∈ topoOrder ↔ Mentioned equations name
  sorted : Sorted (parentEdges equations) topoOrder

/-- An order of all variables is one for a model. -/
def ScmModel.ofOrder (equations : Equations)
    (all : (DegreeMaps.ofEquations equations).kahn.length =
      (DegreeMaps.ofEquations equations).inDegree.keys.length) : ScmModel where
  equations := equations
  topoOrder := (DegreeMaps.ofEquations equations).kahn
  distinct := by
    rcases (DegreeMaps.tracks_ofEquations equations).valid_kahn with ⟨progress, valid, -, same⟩
    rw [← same] at all ⊢
    exact (valid.perm all).nodup_iff.mpr (AList.keys_nodup _)
  complete name := by
    have tracks := DegreeMaps.tracks_ofEquations equations
    rcases tracks.valid_kahn with ⟨progress, valid, -, same⟩
    rw [← same] at all ⊢
    rw [(valid.perm all).mem_iff]
    exact tracks.known name
  sorted := by
    rcases (DegreeMaps.tracks_ofEquations equations).valid_kahn with ⟨progress, valid, -, same⟩
    rw [← same]
    exact valid.sorted

def equationMap (equations : List StructuralEquation) : Equations :=
  equations.foldl (fun map equation => map.insert equation.variableName equation) ∅

namespace ScmModel

def new (equations : List StructuralEquation) : Except ScmError ScmModel :=
  match equations.find? fun equation => equation.coefficients.length ≠ equation.parents.length with
  | some equation =>
      .error (.dimensionMismatch equation.parents.length equation.coefficients.length)
  | none =>
      let equations := equationMap equations
      let maps := DegreeMaps.ofEquations equations
      if all : maps.kahn.length = maps.inDegree.keys.length then .ok (ofOrder equations all)
      else
        let unsorted := maps.inDegree.keys.find? fun name => name ∉ maps.kahn
        .error (.cycleDetected (unsorted.getD "unknown"))

/-! ## Evaluation -/

abbrev Values := String → Option ℚ

def computeEquation (equation : StructuralEquation) (values : Values) : ℚ :=
  (equation.parents.zip equation.coefficients).foldl
    (fun result parent => result + parent.2 * (values parent.1).getD 0) equation.intercept

/-- Compute a variable with an equation if it has no value. -/
def assign (model : ScmModel) (compute : String → StructuralEquation → Values → ℚ)
    (values : Values) (name : String) : Values :=
  if (values name).isSome then values
  else
    match model.equations.lookup name with
    | some equation => Function.update values name (some (compute name equation values))
    | none => values

def evaluate (model : ScmModel) (observations : Values) : Values :=
  model.topoOrder.foldl (model.assign fun _ => computeEquation) observations

def evaluateMutilated (model : ScmModel) (_intervention : String) (observations : Values) :
    Values :=
  model.topoOrder.foldl (model.assign fun _ => computeEquation) observations

def computeWithNoise (antecedent : String) (noiseTerms : Values) (name : String)
    (equation : StructuralEquation) (values : Values) : ℚ :=
  let computed := computeEquation equation values
  if name ≠ antecedent then
    match noiseTerms name with
    | some noise => computed + noise
    | none => computed
  else computed

def evaluateCounterfactualWithNoise (model : ScmModel) (antecedent : String)
    (observations noiseTerms : Values) : Values :=
  model.topoOrder.foldl (model.assign (computeWithNoise antecedent noiseTerms)) observations

def Known (model : ScmModel) (observations : Values) (name : String) : Prop :=
  name ∈ model.equations ∨ (observations name).isSome

instance (model : ScmModel) (observations : Values) (name : String) :
    Decidable (model.Known observations name) :=
  inferInstanceAs (Decidable (_ ∨ _))

/-- The value of a variable, or an error if it has none. -/
def outcome (values : Values) (target : String) : Except ScmError ℚ :=
  match values target with
  | some value => .ok value
  | none => .error (.unknownVariable target)

def intervene (model : ScmModel) (intervention : String) (value : ℚ) (target : String)
    (observations : Values) : Except ScmError ℚ :=
  if ¬model.Known observations intervention then .error (.unknownVariable intervention)
  else if ¬model.Known observations target then .error (.unknownVariable target)
  else
    let mutilated := Function.update observations intervention (some value)
    outcome (model.evaluateMutilated intervention mutilated) target

/-- What is left of the values of variables when their equations are taken off. -/
def noiseTerms (model : ScmModel) (factual : Values) : Values := fun name => do
  let equation ← model.equations.lookup name
  let observed ← factual name
  return observed - computeEquation equation factual

def exogenous (model : ScmModel) (observations : Values) : Values := fun name =>
  if name ∈ model.equations then none else observations name

def counterfactual (model : ScmModel) (antecedent : String) (antecedentValue : ℚ)
    (target : String) (observations : Values) : Except ScmError ℚ :=
  if ¬model.Known observations antecedent then .error (.unknownVariable antecedent)
  else if ¬model.Known observations target then .error (.unknownVariable target)
  else
    let noise := model.noiseTerms (model.evaluate observations)
    let observations :=
      Function.update (model.exogenous observations) antecedent (some antecedentValue)
    outcome (model.evaluateCounterfactualWithNoise antecedent observations noise) target

end ScmModel

end FunDB.Scm
