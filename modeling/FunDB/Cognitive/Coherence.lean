import FunDB.Cognitive.ContextSelection
import FunDB.Cognitive.Contradiction
import Mathlib.Tactic.Linarith

/-! # The coherence of a selection

The coherence is required of each record as it is added, and not of the mean. -/

namespace FunDB.Cognitive

open Greedy

variable (cosineSim : FunRecord → FunRecord → ℚ)

/-- Options that ask for coherence and for no contradictions. -/
def coherentOptions (maxTokens : Nat) (coherence diversity : ℚ) (priority : List SortKey) :
    ContextOptions where
  maxTokens := maxTokens
  coherence := coherence
  diversity := diversity
  includeContradictions := false
  priority := priority

/-- Two or more selected records are as similar in the mean as is asked for. -/
def CoherenceHolds (options : ContextOptions) (candidates : List Candidate) : Prop :=
  2 ≤ (select cosineSim options candidates).1.length →
    options.coherence ≤ (select cosineSim options candidates).2.coherenceScore

/-- Some of the records one after another, each within the budget and similar enough
to one in front of it, until no other record is. -/
structure MaximalChain (maxTokens : Nat) (coherence : ℚ) (records chain : List FunRecord) :
    Prop where
  grows : Grows (Admits cosineSim (coherentOptions maxTokens coherence 1 [])) [] chain
  maximal : ∃ others, records.Perm (chain ++ others) ∧
    ∀ record ∈ others, ¬Admits cosineSim (coherentOptions maxTokens coherence 1 []) chain record

variable {maxTokens : Nat} {coherence : ℚ}

/-! ## A selection is a chain -/

theorem select_maximalChain {diversity : ℚ} {priority : List SortKey}
    (candidates : List Candidate) :
    MaximalChain cosineSim maxTokens coherence (candidates.map Prod.fst)
      (select cosineSim (coherentOptions maxTokens coherence diversity priority) candidates).1 := by
  by_cases empty : candidates = []
  · subst empty
    exact ⟨trivial, [], List.Perm.refl _, nofun⟩
  · have sorted := (perm_sortCandidates priority candidates).map Prod.fst
    rw [select_of_ne_nil cosineSim _ empty]
    have valid : (Selection.mk [] 0 (sortCandidates priority candidates)).Valid := rfl
    have grown :=
      mmrLoop_spec cosineSim (coherentOptions maxTokens coherence diversity priority) valid
    rcases grown with
      ⟨_, maximal, added, shape, grows, parts⟩
    rw [List.nil_append] at shape
    rw [← shape] at grows parts
    exact ⟨grows, _, sorted.symm.trans parts, maximal⟩

/-! ## Every chain is a selection -/

/-- Candidates that are all equally relevant. -/
def indifferent (records : List FunRecord) : List Candidate :=
  records.map fun record => (record, 0)

theorem map_fst_indifferent (records : List FunRecord) :
    (indifferent records).map Prod.fst = records := by
  rw [indifferent, List.map_map]
  exact List.map_id records

/-- The first of several that are equally good is the best. -/
theorem argmax_cons_of_le {Value : Type} {score : Value → ℚ} {first : Value}
    {values : List Value} (least : ∀ value ∈ values, score value ≤ score first) :
    List.argmax score (first :: values) = some first := by
  rw [List.argmax_cons]
  cases best : List.argmax score values with
  | none => rfl
  | some value => exact if_neg (not_lt.mpr (least value (List.argmax_mem best)))

/-- Where only relevance counts and all are equally relevant, the first candidate is
taken if it passes. -/
theorem mmrStep_indifferent {selected records : List FunRecord} {used : Nat} {record : FunRecord}
    (pass : passes cosineSim (coherentOptions maxTokens coherence 1 [])
      ⟨selected, used, indifferent (record :: records)⟩ record = true) :
    mmrStep cosineSim (coherentOptions maxTokens coherence 1 [])
        ⟨selected, used, indifferent (record :: records)⟩ =
      some ⟨selected ++ [record], (used + estimateTokens record) % 2 ^ 32,
        indifferent records⟩ := by
  have equal : ∀ entry ∈ (indifferent (record :: records)).zipIdx,
      entryScore cosineSim (coherentOptions maxTokens coherence 1 [])
        ⟨selected, used, indifferent (record :: records)⟩ entry = 0 := by
    intro entry member
    have present := List.mem_of_getElem? (List.mk_mem_zipIdx_iff_getElem?.mp member)
    rcases List.mem_map.mp present with ⟨other, _, same⟩
    simp [entryScore, mmrScore, coherentOptions, ← same]
  have best : bestEntry cosineSim (coherentOptions maxTokens coherence 1 [])
      ⟨selected, used, indifferent (record :: records)⟩ = some ((record, 0), 0) := by
    have front : (indifferent (record :: records)).zipIdx.filter
        (entryPasses cosineSim (coherentOptions maxTokens coherence 1 [])
          ⟨selected, used, indifferent (record :: records)⟩) =
        ((record, 0), 0) :: ((indifferent records).zipIdx 1).filter
          (entryPasses cosineSim (coherentOptions maxTokens coherence 1 [])
            ⟨selected, used, indifferent (record :: records)⟩) :=
      List.filter_cons_of_pos pass
    rw [bestEntry, front]
    apply argmax_cons_of_le
    intro entry member
    rw [equal _ (List.mem_cons_of_mem _ (List.mem_of_mem_filter member)),
      equal _ List.mem_cons_self]
  rw [mmrStep_eq, best]
  rfl

/-- A chain in front of the other candidates is taken in its order. -/
theorem iterate_indifferent {chain others selected : List FunRecord} {used fuel : Nat}
    (enough : chain.length + others.length ≤ fuel)
    (valid : (Selection.mk selected used (indifferent (chain ++ others))).Valid)
    (grows : Grows (Admits cosineSim (coherentOptions maxTokens coherence 1 [])) selected chain)
    (maximal : ∀ record ∈ others,
      ¬Admits cosineSim (coherentOptions maxTokens coherence 1 []) (selected ++ chain) record) :
    (iterate (mmrStep cosineSim (coherentOptions maxTokens coherence 1 [])) fuel
      ⟨selected, used, indifferent (chain ++ others)⟩).selected = selected ++ chain := by
  have greedy := isGreedy_mmrStep cosineSim (coherentOptions maxTokens coherence 1 [])
  induction chain generalizing selected used fuel with
  | nil =>
      have stopped : mmrStep cosineSim (coherentOptions maxTokens coherence 1 [])
          ⟨selected, used, indifferent others⟩ = none := by
        cases taken : mmrStep cosineSim (coherentOptions maxTokens coherence 1 [])
            ⟨selected, used, indifferent others⟩ with
        | none => rfl
        | some next =>
            rcases greedy.step_some _ _ valid taken with ⟨_, record, admitted, _, moved⟩
            have member : record ∈ others := by
              rw [← map_fst_indifferent others]
              exact moved.mem_iff.mpr List.mem_cons_self
            rw [List.append_nil] at maximal
            exact absurd admitted (maximal record member)
      rw [List.nil_append, iterate_of_none stopped, List.append_nil]
  | cons record chain induction =>
      rcases fuel with _ | fuel
      · rw [List.length_cons] at enough
        omega
      have pass := (passes_iff cosineSim _ valid record).mpr grows.1
      have taken : mmrStep cosineSim (coherentOptions maxTokens coherence 1 [])
          ⟨selected, used, indifferent (record :: chain ++ others)⟩ =
            some ⟨selected ++ [record], (used + estimateTokens record) % 2 ^ 32,
              indifferent (chain ++ others)⟩ := mmrStep_indifferent cosineSim pass
      have nextValid := (greedy.step_some _ _ valid taken).1
      have fewer : chain.length + others.length ≤ fuel := by
        rw [List.length_cons] at enough
        omega
      rw [List.append_cons] at maximal
      rw [iterate_of_some taken, induction fewer nextValid grows.2 maximal, ← List.append_cons]

theorem select_of_maximalChain {records chain : List FunRecord}
    (maximalChain : MaximalChain cosineSim maxTokens coherence records chain) :
    ∃ candidates, (candidates.map Prod.fst).Perm records ∧
      (select cosineSim (coherentOptions maxTokens coherence 1 []) candidates).1 = chain := by
  rcases maximalChain with ⟨grows, others, parts, maximal⟩
  refine ⟨indifferent (chain ++ others), ?_, ?_⟩
  · rw [map_fst_indifferent]
    exact parts.symm
  · by_cases empty : indifferent (chain ++ others) = []
    · have nothing := congrArg (List.map Prod.fst) empty
      rw [map_fst_indifferent] at nothing
      rw [empty, (List.append_eq_nil_iff.mp nothing).1]
      rfl
    · have valid : (Selection.mk [] 0 (indifferent (chain ++ others))).Valid := rfl
      have enough : chain.length + others.length ≤ (indifferent (chain ++ others)).length := by
        rw [indifferent, List.length_map, List.length_append]
      rw [select_of_ne_nil cosineSim _ empty]
      exact iterate_indifferent cosineSim enough valid grows maximal

theorem coherenceScore_select (options : ContextOptions) (candidates : List Candidate) :
    (select cosineSim options candidates).2.coherenceScore =
      meanPairwiseCosine cosineSim (select cosineSim options candidates).1 := by
  by_cases empty : candidates = []
  · subst empty
    rfl
  · rw [select_of_ne_nil cosineSim options empty]
    rfl

/-- Whatever is relevant and however diverse, the coherence holds exactly where it
holds of every maximal chain. -/
theorem coherenceHolds_iff (records : List FunRecord) (maxTokens : Nat) (coherence : ℚ) :
    (∀ candidates diversity priority, (candidates.map Prod.fst).Perm records →
        CoherenceHolds cosineSim (coherentOptions maxTokens coherence diversity priority)
          candidates) ↔
      ∀ chain, MaximalChain cosineSim maxTokens coherence records chain → 2 ≤ chain.length →
        coherence ≤ meanPairwiseCosine cosineSim chain := by
  constructor
  · intro holds chain maximalChain several
    rcases select_of_maximalChain cosineSim maximalChain with ⟨candidates, same, selected⟩
    have kept := holds candidates 1 [] same
    rw [CoherenceHolds, coherenceScore_select, selected] at kept
    exact kept several
  · intro chains candidates diversity priority same several
    have chain : MaximalChain cosineSim maxTokens coherence (candidates.map Prod.fst)
        (select cosineSim (coherentOptions maxTokens coherence diversity priority) candidates).1 :=
      select_maximalChain cosineSim candidates
    rw [coherenceScore_select]
    refine chains _ ⟨chain.grows, ?_⟩ several
    rcases chain.maximal with ⟨others, parts, maximal⟩
    exact ⟨others, same.symm.trans parts, maximal⟩

/-! ## Three records, each turned a little from the one before -/

def unitCosine (left right : FunRecord) : ℚ :=
  max (-1) (min 1 (dot ((left.vectors.lookup "embedding").getD [])
    ((right.vectors.lookup "embedding").getD [])))

theorem unitCosine_comm (left right : FunRecord) :
    unitCosine left right = unitCosine right left := by
  rw [unitCosine, dot_comm, ← unitCosine]

theorem unitCosine_mem (left right : FunRecord) :
    -1 ≤ unitCosine left right ∧ unitCosine left right ≤ 1 :=
  ⟨le_max_left _ _, max_le (by norm_num) (min_le_left _ _)⟩

def turnedRecords : List FunRecord :=
  [embeddedRecord [1, 0], embeddedRecord [4 / 5, 3 / 5], embeddedRecord [7 / 25, 24 / 25]]

/-- Each record is as similar to the one before as is asked for, and the mean is
lower. -/
theorem coherence_below_minimum :
    (∀ left right, unitCosine left right = unitCosine right left) ∧
      (∀ left right, -1 ≤ unitCosine left right ∧ unitCosine left right ≤ 1) ∧
        (select unitCosine (coherentOptions 512 (4 / 5) 1 []) (indifferent turnedRecords)).1 =
            turnedRecords ∧
          (select unitCosine (coherentOptions 512 (4 / 5) 1 [])
            (indifferent turnedRecords)).2.coherenceScore = 47 / 75 := by
  refine ⟨unitCosine_comm, unitCosine_mem, ?_⟩
  decide +kernel

end FunDB.Cognitive
