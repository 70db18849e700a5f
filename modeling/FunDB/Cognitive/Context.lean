import FunDB.Core.Record
import FunDB.Foundation.Greedy
import Mathlib.Algebra.Field.Rat
import Mathlib.Algebra.Order.Ring.Rat
import Mathlib.Data.List.Sort

/-! # The context optimizer

Records are selected for a window of tokens by maximal marginal relevance. Tokens are
counted in words of 32 bits. -/

namespace FunDB.Cognitive

open Greedy

/-- A key by which candidates are sorted before they are selected. -/
inductive SortKey where
  | confidence
  | relevance
  | recency
deriving DecidableEq

structure ContextOptions where
  maxTokens : Nat
  /-- Minimum mean pairwise cosine similarity required for the selected set. -/
  coherence : ℚ
  diversity : ℚ
  includeContradictions : Bool
  priority : List SortKey

structure ContextMetadata where
  tokensUsed : Nat
  tokensBudget : Nat
  coverageScore : ℚ
  coherenceScore : ℚ
  diversityScore : ℚ
  avgConfidence : ℚ
  contradictionsFound : Nat
  candidatesEvaluated : Nat
  candidatesSelected : Nat

abbrev Candidate := FunRecord × ℚ

/-! ## Tokens -/

def tokenCount (record : FunRecord) : Nat :=
  50 + (record.vectors.map fun vector => 6 * vector.2.length).sum + 10

def estimateTokens (record : FunRecord) : Nat :=
  tokenCount record % 2 ^ 32

/-! ## Similarity -/

-- The cosine similarity of two records.
variable (cosineSim : FunRecord → FunRecord → ℚ)

/-- The similarities of all pairs, in order. -/
def pairSims : List FunRecord → List ℚ
  | [] => []
  | record :: records => records.map (cosineSim record) ++ pairSims records

def meanPairwiseCosine (records : List FunRecord) : ℚ :=
  if records.length < 2 then 0
  else
    let sims := pairSims cosineSim records
    if sims.length = 0 then 0 else sims.sum / sims.length

def maxSimToSelected (candidate : FunRecord) (selected : List FunRecord) : ℚ :=
  (selected.map (cosineSim candidate)).foldl max 0

/-! ## Selecting -/

def sortCandidates (priority : List SortKey) (candidates : List Candidate) : List Candidate :=
  match priority.head? with
  | some .confidence =>
      candidates.insertionSort fun left right => right.1.confidence ≤ left.1.confidence
  | some .relevance => candidates.insertionSort fun left right => right.2 ≤ left.2
  | some .recency =>
      candidates.insertionSort fun left right => right.1.validFrom ≤ left.1.validFrom
  | none => candidates

/-- The state of a selection. What remains stands for the remaining indices, in
order. -/
structure Selection where
  selected : List FunRecord
  usedTokens : Nat
  remaining : List Candidate

/-- The first candidate of low confidence comes in without regard to the budget.
The comparison has the cost on both sides, and fails where the right one wraps. -/
def forceContradiction (options : ContextOptions) (candidates : List Candidate) : Selection :=
  let start := Selection.mk [] 0 candidates
  if options.includeContradictions then
    match candidates.findIdx? fun candidate => candidate.1.confidence < 3 / 10 with
    | some cidx =>
        match candidates[cidx]? with
        | some (record, _) =>
            let cost := estimateTokens record
            if (0 + cost) % 2 ^ 32 ≤ (options.maxTokens + cost) % 2 ^ 32 then
              { selected := [record]
                usedTokens := (0 + cost) % 2 ^ 32
                remaining := candidates.eraseIdx cidx }
            else start
        | none => start
    | none => start
  else start

variable (options : ContextOptions)

/-- A record within the budget that is not too dissimilar from those selected. -/
def passes (state : Selection) (record : FunRecord) : Bool :=
  if options.maxTokens < (state.usedTokens + estimateTokens record) % 2 ^ 32 then false
  else if 0 < options.coherence ∧ state.selected ≠ [] then
    !(maxSimToSelected cosineSim record state.selected < options.coherence)
  else true

def mmrScore (selected : List FunRecord) (candidate : Candidate) : ℚ :=
  options.diversity * candidate.2 -
    (1 - options.diversity) * maxSimToSelected cosineSim candidate.1 selected

/-- The position and the score of the best candidate so far. -/
def consider (state : Selection) (best : Option (Nat × ℚ)) (entry : Candidate × Nat) :
    Option (Nat × ℚ) :=
  if passes cosineSim options state entry.1.1 then
    let score := mmrScore cosineSim options state.selected entry.1
    if best.all fun held => held.2 < score then some (entry.2, score) else best
  else best

/-- One turn of the main loop; none where it breaks. -/
def mmrStep (state : Selection) : Option Selection :=
  match state.remaining.zipIdx.foldl (consider cosineSim options state) none with
  | none => none
  | some (pos, _) =>
      match state.remaining[pos]? with
      | none => none
      | some (record, _) =>
          some
            { selected := state.selected ++ [record]
              usedTokens := (state.usedTokens + estimateTokens record) % 2 ^ 32
              remaining := state.remaining.eraseIdx pos }

/-- The main loop. It takes a record in each turn. -/
def mmrLoop (state : Selection) : Selection :=
  iterate (mmrStep cosineSim options) state.remaining.length state

def metadata (candidatesEvaluated : Nat) (state : Selection) : ContextMetadata :=
  let selected := state.selected
  let coherenceScore := meanPairwiseCosine cosineSim selected
  { tokensUsed := state.usedTokens
    tokensBudget := options.maxTokens
    coverageScore := selected.length / (max candidatesEvaluated 1 : Nat)
    coherenceScore
    diversityScore := 1 - coherenceScore
    avgConfidence :=
      if selected = [] then 0 else (selected.map (·.confidence)).sum / selected.length
    contradictionsFound := selected.countP fun record => record.confidence < 3 / 10
    candidatesEvaluated
    candidatesSelected := selected.length }

/-- The records that are selected, and what is reported of them. -/
def select (candidates : List Candidate) : List FunRecord × ContextMetadata :=
  if candidates = [] then
    ([],
      { tokensUsed := 0
        tokensBudget := options.maxTokens
        coverageScore := 0
        coherenceScore := 0
        diversityScore := 1
        avgConfidence := 0
        contradictionsFound := 0
        candidatesEvaluated := 0
        candidatesSelected := 0 })
  else
    let sorted := sortCandidates options.priority candidates
    let state := mmrLoop cosineSim options (forceContradiction options sorted)
    (state.selected, metadata cosineSim options candidates.length state)

end FunDB.Cognitive
