import FunDB.Core.CausalGraph
import FunDB.Core.Record
import FunDB.Foundation.Buckets
import FunDB.Foundation.Promotion
import Mathlib.Algebra.Order.Field.Rat
import Mathlib.Tactic.FieldSimp
import Mathlib.Tactic.Linarith
import Mathlib.Tactic.Positivity

/-! # Learning to rank

Feedback is counted for each agent, in counters of 32 bits. Once an agent has given 100
signals its candidates are ranked by their score blended with the share of their uses. -/

namespace FunDB.Ltr

structure AgentModel where
  usedCount : Dict Uuid UInt32
  ignoredCount : Dict Uuid UInt32
  totalSignals : UInt32

/-- One more in the counter of a document. The counter wraps around. -/
def countOne (counts : Dict Uuid UInt32) (docId : Uuid) : Dict Uuid UInt32 :=
  counts.insert docId ((counts.lookup docId).getD 0 + 1)

namespace AgentModel

def new : AgentModel := ⟨∅, ∅, 0⟩

def used (model : AgentModel) (docId : Uuid) : Nat :=
  ((model.usedCount.lookup docId).getD 0).toNat

def ignored (model : AgentModel) (docId : Uuid) : Nat :=
  ((model.ignoredCount.lookup docId).getD 0).toNat

/-- Uses over the number of times the document was shown and one. -/
def learnedScore (model : AgentModel) (docId : Uuid) : ℚ :=
  (model.used docId : ℚ) / (model.used docId + model.ignored docId + 1)

def countUsed (model : AgentModel) (docId : Uuid) : AgentModel :=
  { model with
    usedCount := countOne model.usedCount docId
    totalSignals := model.totalSignals + 1 }

def countIgnored (model : AgentModel) (docId : Uuid) : AgentModel :=
  { model with
    ignoredCount := countOne model.ignoredCount docId
    totalSignals := model.totalSignals + 1 }

def combined (model : AgentModel) (candidate : Uuid × ℚ) : ℚ :=
  7 / 10 * candidate.2 + 3 / 10 * model.learnedScore candidate.1

end AgentModel

structure FeedbackRecord where
  queryId : Uuid
  used : List Uuid
  ignored : List Uuid

structure LtrRanker where
  models : Dict String AgentModel
  history : Buckets String FeedbackRecord

namespace LtrRanker

def new : LtrRanker := ⟨∅, ∅⟩

def recordFeedback (ranker : LtrRanker) (agentId : String) (queryId : Uuid)
    (used ignored : List Uuid) : LtrRanker :=
  let model := (ranker.models.lookup agentId).getD .new
  let counted := used.foldl .countUsed model
  let counted := ignored.foldl .countIgnored counted
  { models := ranker.models.insert agentId counted
    history := ranker.history.push agentId ⟨queryId, used, ignored⟩ }

/-- The candidates with their combined scores, the highest first, or as they are if there
are too few signals. -/
def rerank (ranker : LtrRanker) (agentId _query : String) (candidates : List (Uuid × ℚ)) :
    List (Uuid × ℚ) :=
  match ranker.models.lookup agentId with
  | none => candidates
  | some model =>
      if 100 ≤ model.totalSignals then
        Ranking.ranked Prod.snd
          (candidates.map fun candidate => (candidate.1, model.combined candidate))
      else candidates

/-- What an agent taught the ranker. -/
def model (ranker : LtrRanker) (agentId : String) : AgentModel :=
  (ranker.models.lookup agentId).getD .new

end LtrRanker

/-! ## Counting -/

theorem lookup_countOne (counts : Dict Uuid UInt32) (docId other : Uuid) :
    (((countOne counts docId).lookup other).getD 0).toNat =
      (((counts.lookup other).getD 0).toNat + if other = docId then 1 else 0) % 2 ^ 32 := by
  rw [countOne, Dict.lookup_insert]
  by_cases same : other = docId
  · rw [if_pos same, if_pos same, same]
    exact UInt32.toNat_add _ _
  · rw [if_neg same, if_neg same, Nat.add_zero, Nat.mod_eq_of_lt (UInt32.toNat_lt _)]

namespace AgentModel

variable (model : AgentModel) (docId other : Uuid) (docs : List Uuid)

theorem used_countUsed : (model.countUsed docId).used other =
    (model.used other + if other = docId then 1 else 0) % 2 ^ 32 :=
  lookup_countOne model.usedCount docId other

theorem used_foldl_countUsed :
    (docs.foldl countUsed model).used docId % 2 ^ 32 =
      (model.used docId + docs.count docId) % 2 ^ 32 := by
  induction docs generalizing model with
  | nil => rfl
  | cons first docs induction =>
      rw [List.foldl_cons, induction, used_countUsed, Nat.mod_add_mod, List.count_cons]
      by_cases same : docId = first
      · rw [if_pos same, if_pos (beq_iff_eq.mpr same.symm), Nat.add_assoc, Nat.add_comm 1]
      · rw [if_neg same, if_neg (mt (fun found => (beq_iff_eq.mp found).symm) same), Nat.add_zero,
          Nat.add_zero]

theorem ignored_foldl_countUsed :
    (docs.foldl countUsed model).ignored docId = model.ignored docId := by
  induction docs generalizing model with
  | nil => rfl
  | cons first docs induction => exact induction (model.countUsed first)

theorem used_foldl_countIgnored :
    (docs.foldl countIgnored model).used docId = model.used docId := by
  induction docs generalizing model with
  | nil => rfl
  | cons first docs induction => exact induction (model.countIgnored first)

/-- Every use and every document that was ignored is a signal. -/
theorem totalSignals_foldl {count : AgentModel → Uuid → AgentModel}
    (one : ∀ model docId, (count model docId).totalSignals = model.totalSignals + 1) :
    (docs.foldl count model).totalSignals.toNat =
      (model.totalSignals.toNat + docs.length) % 2 ^ 32 := by
  induction docs generalizing model with
  | nil => exact (Nat.mod_eq_of_lt (UInt32.toNat_lt _)).symm
  | cons first docs induction =>
      have step : (model.totalSignals + 1).toNat = (model.totalSignals.toNat + 1) % 2 ^ 32 :=
        UInt32.toNat_add _ _
      rw [List.foldl_cons, induction, one, step, Nat.mod_add_mod, List.length_cons, Nat.add_assoc,
        Nat.add_comm 1]

theorem used_lt : model.used docId < 2 ^ 32 :=
  UInt32.toNat_lt _

end AgentModel

namespace LtrRanker

variable (ranker : LtrRanker) (agentId other : String) (queryId : Uuid) (used ignored : List Uuid)

theorem model_recordFeedback :
    (ranker.recordFeedback agentId queryId used ignored).model agentId =
      ignored.foldl .countIgnored (used.foldl .countUsed (ranker.model agentId)) := by
  rw [model, recordFeedback, Dict.lookup_insert, if_pos rfl]
  rfl

theorem model_recordFeedback_of_ne (different : agentId ≠ other) :
    (ranker.recordFeedback other queryId used ignored).model agentId = ranker.model agentId := by
  rw [model, recordFeedback, Dict.lookup_insert, if_neg different]
  rfl

theorem rerank_eq (query : String) (candidates : List (Uuid × ℚ)) :
    ranker.rerank agentId query candidates =
      if 100 ≤ (ranker.model agentId).totalSignals.toNat then
        Ranking.ranked Prod.snd (candidates.map fun candidate =>
          (candidate.1, (ranker.model agentId).combined candidate))
      else candidates := by
  rw [rerank, model]
  cases ranker.models.lookup agentId with
  | none => rfl
  | some found =>
      exact if_congr UInt32.le_iff_toNat_le rfl rfl

end LtrRanker

/-! ## Histories -/

structure Feedback where
  agentId : String
  queryId : Uuid
  used : List Uuid
  ignored : List Uuid

/-- The ranker that has recorded some feedback, the oldest first. -/
def LtrRanker.ofHistory (history : List Feedback) : LtrRanker :=
  history.foldl
    (fun ranker feedback =>
      ranker.recordFeedback feedback.agentId feedback.queryId feedback.used feedback.ignored)
    .new

/-- How many signals an agent has given. -/
def signals (history : List Feedback) (agentId : String) : Nat :=
  ((history.filter (·.agentId = agentId)).map
    fun feedback => feedback.used.length + feedback.ignored.length).sum

/-- How often an agent has used a document. -/
def uses (history : List Feedback) (agentId : String) (docId : Uuid) : Nat :=
  ((history.filter (·.agentId = agentId)).map fun feedback => feedback.used.count docId).sum

/-- The counters are the counts along the history, as far as 32 bits hold them. -/
theorem counters_ofHistory (history : List Feedback) (agentId : String) (docId : Uuid) :
    ((LtrRanker.ofHistory history).model agentId).totalSignals.toNat =
        signals history agentId % 2 ^ 32 ∧
      ((LtrRanker.ofHistory history).model agentId).used docId =
        uses history agentId docId % 2 ^ 32 := by
  induction history using List.reverseRecOn with
  | nil => exact ⟨rfl, rfl⟩
  | append_singleton history feedback induction =>
      rcases induction with ⟨total, used⟩
      have step : LtrRanker.ofHistory (history ++ [feedback]) =
          (LtrRanker.ofHistory history).recordFeedback feedback.agentId feedback.queryId
            feedback.used feedback.ignored := by
        rw [LtrRanker.ofHistory, List.foldl_append]
        rfl
      rw [step, signals, uses, List.filter_append, List.map_append, List.map_append,
        List.sum_append, List.sum_append]
      by_cases same : feedback.agentId = agentId
      · subst same
        have only : [feedback].filter (·.agentId = feedback.agentId) = [feedback] := by simp
        rw [only, LtrRanker.model_recordFeedback]
        apply And.intro
        · rw [AgentModel.totalSignals_foldl _ _ fun _ _ => rfl,
            AgentModel.totalSignals_foldl _ _ fun _ _ => rfl, total, Nat.mod_add_mod,
            Nat.add_assoc, Nat.mod_add_mod]
          rfl
        · rw [AgentModel.used_foldl_countIgnored,
            ← Nat.mod_eq_of_lt (AgentModel.used_lt _ docId), AgentModel.used_foldl_countUsed,
            used, Nat.mod_add_mod]
          rfl
      · have none : [feedback].filter (·.agentId = agentId) = [] := by simp [same]
        rw [none, LtrRanker.model_recordFeedback_of_ne _ _ _ _ _ _ (Ne.symm same)]
        exact ⟨total, used⟩

/-! ## Scores -/

namespace AgentModel

variable {first second : AgentModel} {docId : Uuid}

theorem learnedScore_nonneg (model : AgentModel) (docId : Uuid) :
    0 ≤ model.learnedScore docId := by
  unfold learnedScore
  positivity

theorem learnedScore_lt_one (model : AgentModel) (docId : Uuid) :
    model.learnedScore docId < 1 := by
  have shown : (0 : ℚ) < model.used docId + model.ignored docId + 1 := by positivity
  have ignoredNonneg : (0 : ℚ) ≤ model.ignored docId := Nat.cast_nonneg _
  rw [learnedScore, div_lt_one shown]
  linarith

theorem learnedScore_lt (same : first.ignored docId = second.ignored docId)
    (fewer : first.used docId < second.used docId) :
    first.learnedScore docId < second.learnedScore docId := by
  have fewer : (first.used docId : ℚ) < second.used docId := Nat.cast_lt.mpr fewer
  have shown : (0 : ℚ) < first.used docId + first.ignored docId + 1 := by positivity
  have shownMore : (0 : ℚ) < second.used docId + second.ignored docId + 1 := by positivity
  have positive : (0 : ℚ) < second.ignored docId + 1 := by positivity
  rw [learnedScore, learnedScore, div_lt_div_iff₀ shown shownMore, same]
  nlinarith [mul_pos (sub_pos.mpr fewer) positive]

theorem learnedScore_le (same : first.ignored docId = second.ignored docId)
    (fewer : first.used docId ≤ second.used docId) :
    first.learnedScore docId ≤ second.learnedScore docId := by
  rcases Nat.lt_or_eq_of_le fewer with less | level
  · exact (learnedScore_lt same less).le
  · rw [learnedScore, learnedScore, same, level]

end AgentModel

/-! ## Ranks -/

namespace LtrRanker

def place (result : List (Uuid × ℚ)) (docId : Uuid) : Nat :=
  (result.map Prod.fst).idxOf docId

variable (ranker : LtrRanker) (agentId : String) (docId : Uuid) (times : Nat)

/-- The ranker after one more feedback, that used a document and nothing else. -/
def afterUse (queryId : Uuid) : LtrRanker :=
  ranker.recordFeedback agentId queryId (List.replicate times docId) []

/-- One more feedback that used only one document moves it to no later place and keeps the
order of the others. A result has the documents of the candidates, and depends on no other
agent. -/
structure LearnsLawfully : Prop where
  promoted : ∀ queryId query candidates, (candidates.map Prod.fst).Nodup →
    place ((ranker.afterUse agentId docId times queryId).rerank agentId query candidates) docId ≤
      place (ranker.rerank agentId query candidates) docId
  others : ∀ queryId query candidates, (candidates.map Prod.fst).Nodup →
    (((ranker.afterUse agentId docId times queryId).rerank agentId query candidates).map
        Prod.fst).filter (· ≠ docId) =
      ((ranker.rerank agentId query candidates).map Prod.fst).filter (· ≠ docId)
  perm : ∀ query candidates,
    ((ranker.rerank agentId query candidates).map Prod.fst).Perm (candidates.map Prod.fst)
  isolated : ∀ other queryId used ignored query candidates, other ≠ agentId →
    (ranker.recordFeedback other queryId used ignored).rerank agentId query candidates =
      ranker.rerank agentId query candidates

variable {ranker agentId docId times}

theorem rerank_of_taught (query : String)
    (taught : 100 ≤ (ranker.model agentId).totalSignals.toNat) (candidates : List (Uuid × ℚ)) :
    (ranker.rerank agentId query candidates).map Prod.fst =
      (Ranking.ranked (ranker.model agentId).combined candidates).map Prod.fst := by
  rw [rerank_eq, if_pos taught]
  let score (candidate : Uuid × ℚ) := (candidate.1, (ranker.model agentId).combined candidate)
  have sorted : (Ranking.ranked (ranker.model agentId).combined candidates).map score =
      Ranking.ranked Prod.snd (candidates.map score) :=
    List.map_insertionSort _ _ score _ fun _ _ _ _ => Iff.rfl
  rw [← sorted, List.map_map]
  rfl

theorem rerank_of_untaught (query : String)
    (untaught : ¬ 100 ≤ (ranker.model agentId).totalSignals.toNat)
    (candidates : List (Uuid × ℚ)) :
    ranker.rerank agentId query candidates = candidates := by
  rw [rerank_eq, if_neg untaught]

theorem rerank_perm (query : String) (candidates : List (Uuid × ℚ)) :
    ((ranker.rerank agentId query candidates).map Prod.fst).Perm (candidates.map Prod.fst) := by
  by_cases taught : 100 ≤ (ranker.model agentId).totalSignals.toNat
  · rw [rerank_of_taught query taught]
    exact (Ranking.ranked_perm _ candidates).map _
  · rw [rerank_of_untaught query taught]

theorem rerank_isolated {other : String} (different : other ≠ agentId) (queryId : Uuid)
    (used ignored : List Uuid) (query : String) (candidates : List (Uuid × ℚ)) :
    (ranker.recordFeedback other queryId used ignored).rerank agentId query candidates =
      ranker.rerank agentId query candidates := by
  rw [rerank_eq, rerank_eq, model_recordFeedback_of_ne _ _ _ _ _ _ (Ne.symm different)]

/-! ## One more use -/

/-- A document of the candidates comes where its candidate does. -/
theorem idxOf_of_split {result front back : List (Uuid × ℚ)} {candidate : Uuid × ℚ}
    (distinct : (result.map Prod.fst).Nodup) (split : result = front ++ candidate :: back) :
    (result.map Prod.fst).idxOf candidate.1 = front.length := by
  rw [split, List.map_append, List.map_cons] at distinct ⊢
  have fresh : candidate.1 ∉ front.map Prod.fst := fun member =>
    (List.nodup_append.mp distinct).2.2 _ member _ List.mem_cons_self rfl
  rw [List.idxOf_append_of_notMem fresh, List.idxOf_cons_self, Nat.add_zero, List.length_map]

variable {before after : AgentModel} {candidates : List (Uuid × ℚ)}

theorem combined_eq (same : ∀ other, other ≠ docId →
      after.learnedScore other = before.learnedScore other) {candidate : Uuid × ℚ}
    (different : candidate.1 ≠ docId) : after.combined candidate = before.combined candidate := by
  rw [AgentModel.combined, AgentModel.combined, same _ different]

theorem idxOf_ranked_le (same : ∀ other, other ≠ docId →
      after.learnedScore other = before.learnedScore other)
    (raised : before.learnedScore docId ≤ after.learnedScore docId)
    (distinct : (candidates.map Prod.fst).Nodup) :
    ((Ranking.ranked after.combined candidates).map Prod.fst).idxOf docId ≤
      ((Ranking.ranked before.combined candidates).map Prod.fst).idxOf docId := by
  have perm (model : AgentModel) := (Ranking.ranked_perm model.combined candidates).map Prod.fst
  by_cases listed : docId ∈ candidates.map Prod.fst
  · rcases List.mem_map.mp listed with ⟨candidate, member, rfl⟩
    have place (model : AgentModel) : ∃ front back,
        Ranking.ranked model.combined candidates = front ++ candidate :: back :=
      List.append_of_mem ((Ranking.ranked_perm model.combined candidates).mem_iff.mpr member)
    rcases place after with ⟨front, back, split⟩
    rcases place before with ⟨lowFront, lowBack, lowSplit⟩
    rw [idxOf_of_split ((perm after).nodup_iff.mpr distinct) split,
      idxOf_of_split ((perm before).nodup_iff.mpr distinct) lowSplit]
    refine Promotion.length_before_le (List.Nodup.of_map _ distinct) ?_ ?_ split lowSplit
    · rw [AgentModel.combined, AgentModel.combined]
      linarith
    · intro other isOther different
      apply combined_eq same
      exact fun sameId => different (List.inj_on_of_nodup_map distinct isOther member sameId)
  · have absent (model : AgentModel) :
        docId ∉ (Ranking.ranked model.combined candidates).map Prod.fst := fun member =>
      listed ((perm model).mem_iff.mp member)
    rw [List.idxOf_eq_length (absent after), List.idxOf_eq_length (absent before),
      (perm after).length_eq, (perm before).length_eq]

theorem filter_ranked_ids (same : ∀ other, other ≠ docId →
      after.learnedScore other = before.learnedScore other) :
    ((Ranking.ranked after.combined candidates).map Prod.fst).filter (· ≠ docId) =
      ((Ranking.ranked before.combined candidates).map Prod.fst).filter (· ≠ docId) := by
  rw [List.filter_map, List.filter_map, Promotion.filter_ranked, Promotion.filter_ranked]
  congr 1
  apply Promotion.ranked_congr
  intro candidate member
  have kept : decide (candidate.1 ≠ docId) = true := (List.mem_filter.mp member).2
  exact combined_eq same (of_decide_eq_true kept)

section AfterUse

variable (ranker agentId docId times) (queryId : Uuid)

theorem model_afterUse : (ranker.afterUse agentId docId times queryId).model agentId =
    (List.replicate times docId).foldl .countUsed (ranker.model agentId) :=
  model_recordFeedback ranker agentId queryId _ []

theorem totalSignals_afterUse :
    ((ranker.afterUse agentId docId times queryId).model agentId).totalSignals.toNat =
      ((ranker.model agentId).totalSignals.toNat + times) % 2 ^ 32 := by
  rw [model_afterUse, AgentModel.totalSignals_foldl _ _ fun _ _ => rfl, List.length_replicate]

theorem used_afterUse (other : Uuid) :
    ((ranker.afterUse agentId docId times queryId).model agentId).used other =
      ((ranker.model agentId).used other + if docId = other then times else 0) % 2 ^ 32 := by
  rw [model_afterUse, ← Nat.mod_eq_of_lt (AgentModel.used_lt _ other),
    AgentModel.used_foldl_countUsed, List.count_replicate]
  simp only [beq_iff_eq]

theorem learnedScore_afterUse {other : Uuid} (different : other ≠ docId) :
    ((ranker.afterUse agentId docId times queryId).model agentId).learnedScore other =
      (ranker.model agentId).learnedScore other := by
  have used := used_afterUse ranker agentId docId times queryId other
  rw [if_neg (Ne.symm different), Nat.add_zero,
    Nat.mod_eq_of_lt (AgentModel.used_lt _ other)] at used
  have ignored : ((ranker.afterUse agentId docId times queryId).model agentId).ignored other =
      (ranker.model agentId).ignored other := by
    rw [model_afterUse, AgentModel.ignored_foldl_countUsed]
  rw [AgentModel.learnedScore, AgentModel.learnedScore, used, ignored]

theorem ignored_afterUse :
    ((ranker.afterUse agentId docId times queryId).model agentId).ignored docId =
      (ranker.model agentId).ignored docId := by
  rw [model_afterUse, AgentModel.ignored_foldl_countUsed]

end AfterUse

def KeepsOrder (ranker : LtrRanker) (agentId : String) (docId : Uuid) (times : Nat) : Prop :=
  let before := ranker.model agentId
  let total := (before.totalSignals.toNat + times) % 2 ^ 32
  (100 ≤ before.totalSignals.toNat ↔ 100 ≤ total) ∧
  (100 ≤ total → before.used docId ≤ (before.used docId + times) % 2 ^ 32)

theorem learnsLawfully_of_keepsOrder (keeps : ranker.KeepsOrder agentId docId times) :
    ranker.LearnsLawfully agentId docId times := by
  have same (queryId : Uuid) (other : Uuid) (different : other ≠ docId) :=
    learnedScore_afterUse ranker agentId docId times queryId different
  by_cases taught : 100 ≤ (ranker.model agentId).totalSignals.toNat
  · have stillTaught (queryId : Uuid) : 100 ≤
        ((ranker.afterUse agentId docId times queryId).model agentId).totalSignals.toNat := by
      rw [totalSignals_afterUse]
      exact keeps.1.mp taught
    refine ⟨fun queryId query candidates distinct => ?_, fun queryId query candidates _ => ?_,
      fun query candidates => rerank_perm query candidates,
      fun other queryId used ignored query candidates different =>
        rerank_isolated different queryId used ignored query candidates⟩
    · rw [place, place, rerank_of_taught query (stillTaught queryId),
        rerank_of_taught query taught]
      refine idxOf_ranked_le (same queryId) ?_ distinct
      apply AgentModel.learnedScore_le
      · rw [ignored_afterUse]
      · rw [used_afterUse, if_pos rfl]
        exact keeps.2 (keeps.1.mp taught)
    · rw [rerank_of_taught query (stillTaught queryId), rerank_of_taught query taught]
      exact filter_ranked_ids (same queryId)
  · have stillUntaught (queryId : Uuid) : ¬ 100 ≤
        ((ranker.afterUse agentId docId times queryId).model agentId).totalSignals.toNat := by
      rw [totalSignals_afterUse]
      exact fun total => taught (keeps.1.mpr total)
    refine ⟨fun queryId query candidates _ => ?_, fun queryId query candidates _ => ?_,
      fun query candidates => rerank_perm query candidates,
      fun other queryId used ignored query candidates different =>
        rerank_isolated different queryId used ignored query candidates⟩
    · rw [rerank_of_untaught query (stillUntaught queryId), rerank_of_untaught query taught]
    · rw [rerank_of_untaught query (stillUntaught queryId), rerank_of_untaught query taught]

/-! ## Where a document falls -/

theorem exists_other (docId : Uuid) : ∃ other : Uuid, other ≠ docId := by
  by_cases same : Uuid.ofByte 0 = docId
  · exact ⟨Uuid.ofByte 1, fun again => absurd (same.trans again.symm) (by decide)⟩
  · exact ⟨Uuid.ofByte 0, same⟩

/-- A document that was first of two and is second has been moved back. -/
theorem not_learnsLawfully {other : Uuid} (different : other ≠ docId) (queryId : Uuid)
    (query : String) (candidates : List (Uuid × ℚ))
    (distinct : (candidates.map Prod.fst).Nodup)
    (first : (ranker.rerank agentId query candidates).map Prod.fst = [docId, other])
    (second : ((ranker.afterUse agentId docId times queryId).rerank agentId query candidates).map
      Prod.fst = [other, docId]) : ¬ ranker.LearnsLawfully agentId docId times := by
  intro lawful
  have promoted := lawful.promoted queryId query candidates distinct
  rw [place, place, first, second] at promoted
  simp [different] at promoted

theorem ranked_pair_ids (model : AgentModel) (left right : Uuid × ℚ) :
    (Ranking.ranked model.combined [left, right]).map Prod.fst =
      if model.combined right ≤ model.combined left then [left.1, right.1]
      else [right.1, left.1] := by
  rw [Promotion.ranked_pair]
  split <;> rfl

/-- A high score beats whatever is learned. -/
theorem combined_lt (model : AgentModel) (docId other : Uuid) :
    model.combined (docId, 0) < model.combined (other, 10) := by
  have small := model.learnedScore_lt_one docId
  have nonneg := model.learnedScore_nonneg other
  simp only [AgentModel.combined]
  linarith

theorem keepsOrder_of_learnsLawfully (lawful : ranker.LearnsLawfully agentId docId times) :
    ranker.KeepsOrder agentId docId times := by
  rcases exists_other docId with ⟨other, different⟩
  let queryId := Uuid.ofByte 0
  let after := (ranker.afterUse agentId docId times queryId).model agentId
  have total : after.totalSignals.toNat =
      ((ranker.model agentId).totalSignals.toNat + times) % 2 ^ 32 :=
    totalSignals_afterUse ranker agentId docId times queryId
  have crossing : 100 ≤ (ranker.model agentId).totalSignals.toNat ↔
      100 ≤ after.totalSignals.toNat := by
    apply Iff.intro
    · intro taught
      by_contra untaught
      refine not_learnsLawfully different queryId "" [(other, 0), (docId, 10)]
        (by simp [different]) ?_ ?_ lawful
      · rw [rerank_of_taught "" taught, ranked_pair_ids,
          if_neg (not_le.mpr (combined_lt _ other docId))]
      · rw [rerank_of_untaught "" untaught]
        rfl
    · intro taught
      by_contra untaught
      refine not_learnsLawfully different queryId "" [(docId, 0), (other, 10)]
        (by simp [different.symm]) ?_ ?_ lawful
      · rw [rerank_of_untaught "" untaught]
        rfl
      · rw [rerank_of_taught "" taught, ranked_pair_ids,
          if_neg (not_le.mpr (combined_lt _ docId other))]
  rw [KeepsOrder, ← total]
  refine ⟨crossing, fun taught => ?_⟩
  by_contra falls
  have fewer : after.used docId < (ranker.model agentId).used docId := by
    rw [used_afterUse, if_pos rfl]
    exact Nat.lt_of_not_le falls
  have lower : after.learnedScore docId < (ranker.model agentId).learnedScore docId :=
    AgentModel.learnedScore_lt (ignored_afterUse ranker agentId docId times queryId) fewer
  have same : after.learnedScore other = (ranker.model agentId).learnedScore other :=
    learnedScore_afterUse ranker agentId docId times queryId different
  -- A score for the other document between those of this one before and after.
  let score : ℚ := 3 / 7 *
    ((after.learnedScore docId + (ranker.model agentId).learnedScore docId) / 2 -
      after.learnedScore other)
  refine not_learnsLawfully different queryId "" [(other, score), (docId, 0)]
    (by simp [different]) ?_ ?_ lawful
  · rw [rerank_of_taught "" (crossing.mpr taught), ranked_pair_ids, if_neg]
    simp only [AgentModel.combined, score, ← same]
    linarith
  · rw [rerank_of_taught "" taught, ranked_pair_ids, if_pos]
    simp only [AgentModel.combined, score]
    linarith

end LtrRanker

/-! ## Rankers with a history -/

/-- Neither counter wraps around where it matters: with the feedback the number of signals
stays on its side of 100, and from 100 on the number of uses does not fall, both as far as
32 bits hold them. -/
def HoldsCounts (signalCount useCount times : Nat) : Prop :=
  (100 ≤ signalCount % 2 ^ 32 ↔ 100 ≤ (signalCount + times) % 2 ^ 32) ∧
  (100 ≤ (signalCount + times) % 2 ^ 32 → useCount % 2 ^ 32 ≤ (useCount + times) % 2 ^ 32)

theorem keepsOrder_iff (history : List Feedback) (agentId : String) (docId : Uuid)
    (times : Nat) :
    (LtrRanker.ofHistory history).KeepsOrder agentId docId times ↔
      HoldsCounts (signals history agentId) (uses history agentId docId) times := by
  rcases counters_ofHistory history agentId docId with ⟨total, used⟩
  rw [LtrRanker.KeepsOrder, HoldsCounts]
  simp only [total, used, Nat.mod_add_mod]

/-- After any history, feedback is lawful exactly if the counters hold it. -/
theorem learnsLawfully_iff (history : List Feedback) (agentId : String) (docId : Uuid)
    (times : Nat) :
    (LtrRanker.ofHistory history).LearnsLawfully agentId docId times ↔
      HoldsCounts (signals history agentId) (uses history agentId docId) times := by
  rw [← keepsOrder_iff]
  exact ⟨LtrRanker.keepsOrder_of_learnsLawfully, LtrRanker.learnsLawfully_of_keepsOrder⟩

theorem uses_le_signals (history : List Feedback) (agentId : String) (docId : Uuid) :
    uses history agentId docId ≤ signals history agentId := by
  apply List.sum_le_sum
  intro feedback _
  exact Nat.le_trans List.count_le_length (Nat.le_add_right _ _)

/-- Feedback is lawful as long as there are fewer than `2 ^ 32` signals. -/
theorem learnsLawfully_of_lt {history : List Feedback} {agentId : String} {times : Nat}
    (taught : 100 ≤ signals history agentId) (few : signals history agentId + times < 2 ^ 32)
    (docId : Uuid) : (LtrRanker.ofHistory history).LearnsLawfully agentId docId times := by
  have fewUses := uses_le_signals history agentId docId
  apply LtrRanker.learnsLawfully_of_keepsOrder
  rw [keepsOrder_iff, HoldsCounts, Nat.mod_eq_of_lt few,
    Nat.mod_eq_of_lt (show signals history agentId < 2 ^ 32 by omega),
    Nat.mod_eq_of_lt (show uses history agentId docId < 2 ^ 32 by omega),
    Nat.mod_eq_of_lt (show uses history agentId docId + times < 2 ^ 32 by omega)]
  exact ⟨iff_of_true taught (Nat.le_add_right_of_le taught), fun _ => Nat.le_add_right _ _⟩

theorem signals_replicate (count : Nat) (agentId : String) (queryId docId : Uuid) :
    signals (List.replicate count ⟨agentId, queryId, [docId], []⟩) agentId = count := by
  simp [signals]

/-- With `2 ^ 32 - 1` signals one more use can move a document back. -/
theorem feedback_moves_document_back :
    let history : List Feedback :=
      List.replicate (2 ^ 32 - 1) ⟨"agent", .ofByte 0, [.ofByte 1], []⟩
    100 ≤ signals history "agent" ∧
    ¬ (LtrRanker.ofHistory history).LearnsLawfully "agent" (.ofByte 2) 1 := by
  intro history
  have count : signals history "agent" = 2 ^ 32 - 1 := signals_replicate _ _ _ _
  refine ⟨by rw [count]; omega, fun lawful => ?_⟩
  have counts := LtrRanker.keepsOrder_of_learnsLawfully lawful
  rw [keepsOrder_iff, HoldsCounts, count] at counts
  omega

/-! ## Gain of the recorded results -/

-- Logarithms of base 2 as they are rounded.
variable (log2 : ℚ → ℚ)

def gain (usedSet : List Uuid) (i : Nat) (uuid : Uuid) : ℚ :=
  (if uuid ∈ usedSet then 1 else 0) / log2 (i + 2)

/-- The discounted gain of a record's results over the ideal one. Used results
stand in front of ignored ones. -/
def ndcgForRecord (record : FeedbackRecord) : ℚ :=
  let ordered := record.used ++ record.ignored
  let dcg := ((ordered.take 10).mapIdx (gain log2 record.used)).sum
  let idealUsed := min record.used.length 10
  let idcg := ((List.range idealUsed).map fun i : Nat => 1 / log2 (i + 2)).sum
  if idcg ≤ 0 then 1 else min (dcg / idcg) 1

def LtrRanker.ndcgAt10 (ranker : LtrRanker) (agentId : String) : Option ℚ :=
  match ranker.models.lookup agentId with
  | none => none
  | some model =>
      if model.totalSignals < 100 then none
      else
        match ranker.history.lookup agentId with
        | none => none
        | some records =>
            if records = [] then none
            else some ((records.map (ndcgForRecord log2)).sum / records.length)

variable {log2}

/-- The ideal ranking is a part of the recorded one, so that no record falls
short of it. -/
theorem ndcgForRecord_eq_one (positive : ∀ place : Nat, 0 < log2 (place + 2))
    (record : FeedbackRecord) : ndcgForRecord log2 record = 1 := by
  have ideal : (record.used.take 10).mapIdx (gain log2 record.used) =
      (List.range (min record.used.length 10)).map fun i : Nat => 1 / log2 (i + 2) := by
    apply List.ext_getElem
    · rw [List.length_mapIdx, List.length_take, List.length_map, List.length_range,
        Nat.min_comm]
    · intro place inUsed inRange
      rw [List.getElem_mapIdx, List.getElem_map, List.getElem_range, List.getElem_take, gain,
        if_pos (List.getElem_mem _)]
  have reached : ((List.range (min record.used.length 10)).map
      fun i : Nat => 1 / log2 (i + 2)).sum ≤
        (((record.used ++ record.ignored).take 10).mapIdx (gain log2 record.used)).sum := by
    rw [List.take_append, List.mapIdx_append, List.sum_append, ideal]
    apply le_add_of_nonneg_right
    apply List.sum_nonneg
    intro value member
    rcases List.mem_mapIdx.mp member with ⟨place, inside, rfl⟩
    apply div_nonneg _ (positive _).le
    split
    · exact zero_le_one
    · exact le_rfl
  unfold ndcgForRecord
  dsimp only
  split
  · rfl
  · next some =>
      rw [min_eq_right]
      exact (one_le_div (not_le.mp some)).mpr reached

/-- An agent has a model from its first feedback on, and a history with it. -/
theorem history_ofHistory (history : List Feedback) (agentId : String) :
    (LtrRanker.ofHistory history).models.lookup agentId = none ∨
      ∃ records ≠ [], (LtrRanker.ofHistory history).history.lookup agentId = some records := by
  induction history using List.reverseRecOn with
  | nil => exact .inl rfl
  | append_singleton history feedback induction =>
      have step : LtrRanker.ofHistory (history ++ [feedback]) =
          (LtrRanker.ofHistory history).recordFeedback feedback.agentId feedback.queryId
            feedback.used feedback.ignored := by
        rw [LtrRanker.ofHistory, List.foldl_append]
        rfl
      rw [step, LtrRanker.recordFeedback]
      dsimp only
      rw [Dict.lookup_insert, Buckets.push, Dict.lookup_insert]
      by_cases same : agentId = feedback.agentId
      · rw [if_pos same, if_pos same]
        exact .inr ⟨_, List.append_ne_nil_of_right_ne_nil _ (List.cons_ne_nil _ _), rfl⟩
      · rw [if_neg same, if_neg same]
        exact induction

/-- Whatever the feedback was, an agent that has given enough of it gets the gain
1, and any other agent none. -/
theorem ndcgAt10_ofHistory (positive : ∀ place : Nat, 0 < log2 (place + 2))
    (history : List Feedback) (agentId : String) :
    (LtrRanker.ofHistory history).ndcgAt10 log2 agentId =
      if 100 ≤ signals history agentId % 2 ^ 32 then some 1 else none := by
  have total := (counters_ofHistory history agentId (.ofByte 0)).1
  have recorded := history_ofHistory history agentId
  rw [LtrRanker.model] at total
  rw [← total, LtrRanker.ndcgAt10]
  cases found : (LtrRanker.ofHistory history).models.lookup agentId with
  | none => rfl
  | some model =>
      rcases recorded with unknown | ⟨records, some, isHistory⟩
      · cases unknown.symm.trans found
      · have ones : records.map (ndcgForRecord log2) = List.replicate records.length 1 :=
          List.map_eq_replicate_iff.mpr fun record _ => ndcgForRecord_eq_one positive record
        have length : (records.length : ℚ) ≠ 0 :=
          Nat.cast_ne_zero.mpr (mt List.length_eq_zero_iff.mp some)
        have average : (records.map (ndcgForRecord log2)).sum / records.length = 1 := by
          rw [ones, List.sum_replicate, nsmul_one, div_self length]
        rw [isHistory, Option.getD_some]
        dsimp only
        rw [if_neg some, average]
        have enough : model.totalSignals < 100 ↔ ¬100 ≤ model.totalSignals.toNat := by
          rw [UInt32.lt_iff_toNat_lt, Nat.not_le]
          rfl
        rw [if_congr enough rfl rfl, ite_not]

/-- The gain is 1 where no result was ever used. -/
theorem ndcgAt10_ofHistory_unused :
    let history : List Feedback :=
      List.replicate 100 ⟨"agent", .ofByte 0, [], [.ofByte 1]⟩
    (LtrRanker.ofHistory history).ndcgAt10 (fun _ => 1) "agent" = some 1 := by
  intro history
  have taught : signals history "agent" = 100 := by
    simp [history, signals]
  rw [ndcgAt10_ofHistory fun _ => zero_lt_one, taught]
  rfl

end FunDB.Ltr
