import FunDB.Cognitive.Context
import Mathlib.Algebra.Order.BigOperators.Group.List
import Mathlib.Data.List.MinMax

/-! # Selections within the budget -/

namespace FunDB.Cognitive

open Greedy

def tokens (records : List FunRecord) : Nat :=
  (records.map tokenCount).sum

@[simp] theorem tokens_nil : tokens [] = 0 := rfl

@[simp] theorem tokens_cons (record : FunRecord) (records : List FunRecord) :
    tokens (record :: records) = tokenCount record + tokens records := by
  simp [tokens]

@[simp] theorem tokens_append (left right : List FunRecord) :
    tokens (left ++ right) = tokens left + tokens right := by
  simp [tokens]

theorem tokens_perm {left right : List FunRecord} (same : left.Perm right) :
    tokens left = tokens right :=
  (same.map tokenCount).sum_eq

variable (cosineSim : FunRecord → FunRecord → ℚ) (options : ContextOptions)

/-- The coherence filter, where it is active. -/
def Coheres (selected : List FunRecord) (record : FunRecord) : Prop :=
  options.coherence ≤ 0 ∨ selected = [] ∨
    options.coherence ≤ maxSimToSelected cosineSim record selected

/-- A record fits into the budget that is left, as it is counted in 32 bits, and
passes the coherence filter. -/
def Admits (selected : List FunRecord) (record : FunRecord) : Prop :=
  (tokens selected + tokenCount record) % 2 ^ 32 ≤ options.maxTokens ∧
    Coheres cosineSim options selected record

/-- The tokens that are counted are those of the selected records. -/
def Selection.Valid (state : Selection) : Prop :=
  state.usedTokens = tokens state.selected % 2 ^ 32

/-! ## One turn -/

section Turn

variable {state : Selection} (valid : state.Valid)

include valid in
theorem Selection.Valid.add_eq (record : FunRecord) :
    (state.usedTokens + estimateTokens record) % 2 ^ 32 =
      (tokens state.selected + tokenCount record) % 2 ^ 32 := by
  rw [valid, estimateTokens, ← Nat.add_mod]

include valid in
theorem passes_iff (record : FunRecord) :
    passes cosineSim options state record = true ↔
      Admits cosineSim options state.selected record := by
  unfold passes Admits Coheres
  rw [valid.add_eq record]
  split_ifs with exceeds active
  · exact iff_of_false (by simp) fun admitted => Nat.not_le.mpr exceeds admitted.1
  · rcases active with ⟨positive, nonempty⟩
    simp only [Bool.not_eq_true', decide_eq_false_iff_not, not_lt, not_le.mpr positive, nonempty,
      false_or]
    exact (and_iff_right (Nat.not_lt.mp exceeds)).symm
  · refine iff_of_true rfl ⟨Nat.not_lt.mp exceeds, ?_⟩
    rcases not_and_or.mp active with inactive | empty
    · exact .inl (not_lt.mp inactive)
    · exact .inr (.inl (not_not.mp empty))

end Turn

def entryPasses (state : Selection) (entry : Candidate × Nat) : Bool :=
  passes cosineSim options state entry.1.1

def entryScore (state : Selection) (entry : Candidate × Nat) : ℚ :=
  mmrScore cosineSim options state.selected entry.1

/-- The best candidate is the first of those with the highest score among all that
pass. -/
theorem foldl_consider (state : Selection) (best : Option (Candidate × Nat))
    (entries : List (Candidate × Nat)) :
    entries.foldl (consider cosineSim options state)
        (best.map fun entry => (entry.2, entryScore cosineSim options state entry)) =
      ((entries.filter (entryPasses cosineSim options state)).foldl
        (List.argAux fun entry held => entryScore cosineSim options state held <
          entryScore cosineSim options state entry) best).map
        fun entry => (entry.2, entryScore cosineSim options state entry) := by
  induction entries generalizing best with
  | nil => rfl
  | cons entry entries induction =>
      by_cases pass : entryPasses cosineSim options state entry = true
      · rw [List.foldl_cons, List.filter_cons_of_pos pass, List.foldl_cons, ← induction]
        apply congrArg (List.foldl _ · entries)
        have here : passes cosineSim options state entry.1.1 = true := pass
        rw [consider, if_pos here]
        cases best with
        | none => rfl
        | some held =>
            by_cases higher : mmrScore cosineSim options state.selected held.1 <
                mmrScore cosineSim options state.selected entry.1
            · simp [List.argAux, entryScore, higher]
            · simp [List.argAux, entryScore, higher]
      · rw [List.foldl_cons, List.filter_cons_of_neg pass, ← induction]
        apply congrArg (List.foldl _ · entries)
        have here : ¬passes cosineSim options state entry.1.1 = true := pass
        rw [consider, if_neg here]

/-- The candidate that the loop takes, with its place. -/
def bestEntry (state : Selection) : Option (Candidate × Nat) :=
  List.argmax (entryScore cosineSim options state)
    (state.remaining.zipIdx.filter (entryPasses cosineSim options state))

theorem mmrStep_eq (state : Selection) :
    mmrStep cosineSim options state =
      (bestEntry cosineSim options state).map fun entry =>
        { selected := state.selected ++ [entry.1.1]
          usedTokens := (state.usedTokens + estimateTokens entry.1.1) % 2 ^ 32
          remaining := state.remaining.eraseIdx entry.2 } := by
  have fold : state.remaining.zipIdx.foldl (consider cosineSim options state) none =
      (bestEntry cosineSim options state).map
        fun entry => (entry.2, entryScore cosineSim options state entry) :=
    foldl_consider cosineSim options state none state.remaining.zipIdx
  rw [mmrStep, fold]
  cases best : bestEntry cosineSim options state with
  | none => rfl
  | some entry =>
      have member := List.mem_of_mem_filter (List.argmax_mem best)
      have place : state.remaining[entry.2]? = some entry.1 :=
        List.mk_mem_zipIdx_iff_getElem?.mp member
      simp only [Option.map_some, place]

/-! ## The main loop -/

theorem candidate_mem_of_bestEntry {state : Selection} {entry : Candidate × Nat}
    (best : bestEntry cosineSim options state = some entry) :
    state.remaining[entry.2]? = some entry.1 ∧
      passes cosineSim options state entry.1.1 = true := by
  have member := List.argmax_mem best
  rcases List.mem_filter.mp member with ⟨placed, pass⟩
  exact ⟨List.mk_mem_zipIdx_iff_getElem?.mp placed, pass⟩

theorem perm_of_getElem? {remaining : List Candidate} {pos : Nat} {candidate : Candidate}
    (found : remaining[pos]? = some candidate) :
    (remaining.map Prod.fst).Perm (candidate.1 :: (remaining.eraseIdx pos).map Prod.fst) := by
  rcases List.getElem?_eq_some_iff.mp found with ⟨inside, same⟩
  have moved := (List.getElem_cons_eraseIdx_perm inside).symm.map Prod.fst
  rwa [same, List.map_cons] at moved

/-- The main loop grows the selection by what is admitted. -/
theorem isGreedy_mmrStep :
    IsGreedy (mmrStep cosineSim options) (Admits cosineSim options) Selection.Valid
      Selection.selected (fun state => state.remaining.map Prod.fst) := by
  constructor
  · intro state next valid taken
    rw [mmrStep_eq] at taken
    rcases Option.map_eq_some_iff.mp taken with ⟨entry, best, same⟩
    subst same
    rcases candidate_mem_of_bestEntry cosineSim options best with ⟨found, pass⟩
    refine ⟨?_, entry.1.1, (passes_iff cosineSim options valid _).mp pass, rfl,
      perm_of_getElem? found⟩
    change (state.usedTokens + estimateTokens entry.1.1) % 2 ^ 32 =
      tokens (state.selected ++ [entry.1.1]) % 2 ^ 32
    rw [valid.add_eq, tokens_append, tokens_cons, tokens_nil, Nat.add_zero]
  · intro state valid stopped record member admitted
    rw [mmrStep_eq, Option.map_eq_none_iff, bestEntry, List.argmax_eq_none,
      List.filter_eq_nil_iff] at stopped
    rcases List.mem_map.mp member with ⟨candidate, present, same⟩
    rcases List.mem_iff_getElem?.mp present with ⟨pos, found⟩
    apply stopped (candidate, pos) (List.mk_mem_zipIdx_iff_getElem?.mpr found)
    rw [← same] at admitted
    exact (passes_iff cosineSim options valid _).mpr admitted

/-! ## The start -/

theorem perm_sortCandidates (priority : List SortKey) (candidates : List Candidate) :
    (sortCandidates priority candidates).Perm candidates := by
  unfold sortCandidates
  cases priority.head? with
  | none => exact List.Perm.refl _
  | some key =>
      cases key with
      | confidence => exact List.perm_insertionSort _ _
      | relevance => exact List.perm_insertionSort _ _
      | recency => exact List.perm_insertionSort _ _

/-- The records that a selection starts with: none, or a contradiction that was asked
for. -/
def Forced (forced : List FunRecord) : Prop :=
  forced = [] ∨ ∃ record, forced = [record] ∧ options.includeContradictions = true ∧
    record.confidence < 3 / 10

/-- A selection starts with all candidates, or with all but the contradiction. -/
theorem forceContradiction_spec (candidates : List Candidate) :
    (forceContradiction options candidates).Valid ∧
      Forced options (forceContradiction options candidates).selected ∧
        (candidates.map Prod.fst).Perm ((forceContradiction options candidates).selected ++
          (forceContradiction options candidates).remaining.map Prod.fst) := by
  have unforced : (Selection.mk [] 0 candidates).Valid ∧ Forced options [] ∧
      (candidates.map Prod.fst).Perm ([] ++ candidates.map Prod.fst) :=
    ⟨rfl, .inl rfl, List.Perm.refl _⟩
  unfold forceContradiction
  dsimp only
  split_ifs with wanted
  · cases place : candidates.findIdx? fun candidate => candidate.1.confidence < 3 / 10 with
    | none => exact unforced
    | some cidx =>
        rcases List.findIdx?_eq_some_iff_getElem.mp place with ⟨inside, low, _⟩
        have found : candidates[cidx]? = some candidates[cidx] :=
          List.getElem?_eq_getElem inside
        have counted : (0 + estimateTokens candidates[cidx].1) % 2 ^ 32 =
            tokens [candidates[cidx].1] % 2 ^ 32 := by
          simp [estimateTokens]
        dsimp only
        rw [found]
        dsimp only
        split_ifs
        · exact ⟨counted, .inr ⟨_, rfl, wanted, by simpa using low⟩, perm_of_getElem? found⟩
        · exact unforced
  · exact unforced

/-! ## The whole selection -/

/-- What a selection of candidates is: some of them, with the tokens they take, each
added within the budget but for a contradiction that was forced, and none left that
could be added. -/
structure SelectsWithinBudget (candidates : List Candidate) (selected : List FunRecord)
    (metadata : ContextMetadata) : Prop where
  tokensUsed : metadata.tokensUsed = tokens selected
  budget : ∃ forced added, selected = forced ++ added ∧ Forced options forced ∧
    (forced = [] → metadata.tokensUsed ≤ options.maxTokens) ∧
      ∀ front record back, added = front ++ record :: back →
        tokens (forced ++ front ++ [record]) ≤ options.maxTokens
  maximal : ∃ unselected, (candidates.map Prod.fst).Perm (selected ++ unselected) ∧
    ∀ record ∈ unselected, ¬(tokens selected + tokenCount record ≤ options.maxTokens ∧
      Coheres cosineSim options selected record)

theorem mmrLoop_spec {state : Selection} (valid : state.Valid) :
    (mmrLoop cosineSim options state).Valid ∧
      (∀ record ∈ (mmrLoop cosineSim options state).remaining.map Prod.fst,
        ¬Admits cosineSim options (mmrLoop cosineSim options state).selected record) ∧
      ∃ added, (mmrLoop cosineSim options state).selected = state.selected ++ added ∧
        Grows (Admits cosineSim options) state.selected added ∧
        (state.remaining.map Prod.fst).Perm
          (added ++ (mmrLoop cosineSim options state).remaining.map Prod.fst) :=
  (isGreedy_mmrStep cosineSim options).exists_added valid (by rw [List.length_map])

theorem select_of_ne_nil {candidates : List Candidate} (nonempty : candidates ≠ []) :
    select cosineSim options candidates =
      ((mmrLoop cosineSim options
          (forceContradiction options (sortCandidates options.priority candidates))).selected,
        metadata cosineSim options candidates.length
          (mmrLoop cosineSim options
            (forceContradiction options (sortCandidates options.priority candidates)))) :=
  if_neg nonempty

/-- A selection keeps to its budget and is maximal. -/
theorem select_selectsWithinBudget {candidates : List Candidate}
    (fits : tokens (candidates.map Prod.fst) < 2 ^ 32) :
    SelectsWithinBudget cosineSim options candidates (select cosineSim options candidates).1
      (select cosineSim options candidates).2 := by
  by_cases empty : candidates = []
  · subst empty
    exact ⟨rfl, ⟨[], [], rfl, .inl rfl, fun _ => Nat.zero_le _, by simp⟩,
      ⟨[], List.Perm.refl _, nofun⟩⟩
  · have sorted := (perm_sortCandidates options.priority candidates).map Prod.fst
    rcases forceContradiction_spec options (sortCandidates options.priority candidates) with
      ⟨startValid, forced, startParts⟩
    rw [select_of_ne_nil cosineSim options empty]
    generalize forceContradiction options (sortCandidates options.priority candidates) = start at *
    rcases mmrLoop_spec cosineSim options startValid with
      ⟨valid, maximal, added, shape, grows, parts⟩
    have whole : (candidates.map Prod.fst).Perm ((mmrLoop cosineSim options start).selected ++
        (mmrLoop cosineSim options start).remaining.map Prod.fst) := by
      rw [shape, List.append_assoc]
      exact sorted.symm.trans (startParts.trans (parts.append_left _))
    have total := tokens_perm whole
    rw [tokens_append] at total
    have used : (mmrLoop cosineSim options start).usedTokens =
        tokens (mmrLoop cosineSim options start).selected := by
      rw [valid, Nat.mod_eq_of_lt (by omega)]
    have within : ∀ front record back, added = front ++ record :: back →
        tokens (start.selected ++ front ++ [record]) ≤ options.maxTokens := by
      intro front record back same
      rw [same] at grows
      have admitted := grows.admits.1
      have size := congrArg tokens shape
      simp only [same, tokens_append, tokens_cons, tokens_nil] at admitted size ⊢
      rw [Nat.mod_eq_of_lt (by omega)] at admitted
      omega
    refine ⟨used, ⟨start.selected, added, shape, forced, ?_, within⟩, _, whole, ?_⟩
    · intro unforced
      change (mmrLoop cosineSim options start).usedTokens ≤ options.maxTokens
      rw [used, shape]
      rcases List.eq_nil_or_concat added with none | ⟨front, record, same⟩
      · rw [unforced, none]
        exact Nat.zero_le _
      · rw [List.concat_eq_append] at same
        rw [same, ← List.append_assoc]
        exact within front record [] same
    · intro record member fitting
      have cost : tokenCount record ≤
          tokens ((mmrLoop cosineSim options start).remaining.map Prod.fst) :=
        List.le_sum_of_mem (List.mem_map.mpr ⟨record, member, rfl⟩)
      apply maximal record member
      refine ⟨?_, fitting.2⟩
      rw [Nat.mod_eq_of_lt (by omega)]
      exact fitting.1

def embeddedRecord (embedding : List ℚ) : FunRecord :=
  { (FunRecordBuilder.new "docs").build (Vector.replicate 16 0) 0 with
    vectors := [("embedding", embedding)] }

/-- Two records of 72 tokens, and a window for one. -/
theorem select_selectsWithinBudget_one :
    SelectsWithinBudget (fun _ _ => 0) ⟨100, 0, 1, false, [.relevance]⟩
      [(embeddedRecord [1, 0], 1), (embeddedRecord [0, 1], 2)]
      (select (fun _ _ => 0) ⟨100, 0, 1, false, [.relevance]⟩
        [(embeddedRecord [1, 0], 1), (embeddedRecord [0, 1], 2)]).1
      (select (fun _ _ => 0) ⟨100, 0, 1, false, [.relevance]⟩
        [(embeddedRecord [1, 0], 1), (embeddedRecord [0, 1], 2)]).2 :=
  select_selectsWithinBudget _ _ (by decide)

end FunDB.Cognitive
