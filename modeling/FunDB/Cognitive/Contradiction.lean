import FunDB.Core.Record
import FunDB.Foundation.Text
import Mathlib.Algebra.Order.Field.Rat
import Mathlib.Algebra.Order.Group.Abs
import Mathlib.Data.List.Sort
import Mathlib.Tactic.NormNum

/-! # The contradiction detector

Records are compared by the tags among their sources and by their text vectors. -/

namespace FunDB.Cognitive

open Text

structure SourcedRecord extends FunRecord where
  origins : List String
deriving DecidableEq

inductive Polarity where
  | conflicting
  | corroborating
deriving DecidableEq, Repr

structure ContradictionCandidate where
  existingId : Uuid
  similarity : ℚ
  polarity : Polarity
deriving DecidableEq

/-! ## Similarity -/

def tagsOf (record : SourcedRecord) : List String :=
  record.origins.filter fun origin => !startsWith origin "contradicts:"

/-- The number of tags that are among the other ones, each time they occur. -/
def overlap (newTags candidateTags : List String) : Nat :=
  newTags.countP fun tag => candidateTags.contains tag

def tagSimilarity (newTags candidateTags : List String) : ℚ :=
  let denom := max (max newTags.length candidateTags.length) 1
  overlap newTags candidateTags / (denom : Nat)

def dot (left right : List ℚ) : ℚ :=
  (List.zipWith (· * ·) left right).sum

-- Square roots as they are rounded.
variable (sqrt : ℚ → ℚ)

def cosineTextSimilarity (a b : SourcedRecord) : ℚ :=
  match a.vectors.lookup "text", b.vectors.lookup "text" with
  | some va, some vb =>
      let normA := sqrt (dot va va)
      let normB := sqrt (dot vb vb)
      if normA = 0 ∨ normB = 0 then 0 else max (-1) (min (dot va vb / (normA * normB)) 1)
  | _, _ => 0

def combinedSimilarity (a b : SourcedRecord) : ℚ :=
  max (tagSimilarity (tagsOf a) (tagsOf b)) (cosineTextSimilarity sqrt a b)

/-! ## Polarity -/

def endsWith (text pattern : String) : Bool :=
  pattern.toList.isSuffixOf text.toList

/-- Whether the second tag negates the first one. -/
def isNegationPair (newTag candidateTag : String) : Bool :=
  candidateTag == "not_" ++ newTag || startsWith candidateTag "not_" ||
    startsWith candidateTag "no_" || contains candidateTag "anti" ||
    endsWith candidateTag "_false"

def polarityWithSim (newTags candidateTags : List String)
    (newConfidence candidateConfidence similarity : ℚ) : Polarity :=
  if newTags.any fun newTag => candidateTags.any fun candTag => isNegationPair newTag candTag then
    .conflicting
  else if 7 / 10 < similarity ∧ 1 / 2 < |newConfidence - candidateConfidence| then .conflicting
  else .corroborating

def polarity (a b : SourcedRecord) : Polarity :=
  polarityWithSim (tagsOf a) (tagsOf b) a.confidence b.confidence (combinedSimilarity sqrt a b)

/-- The candidates that are similar to a new record, the most similar first. -/
def checkInsert (new : SourcedRecord) (candidates : List SourcedRecord) :
    List ContradictionCandidate :=
  let results := candidates.filterMap fun candidate =>
    let similarity := combinedSimilarity sqrt new candidate
    if similarity ≤ 3 / 10 then none
    else
      some
        { existingId := candidate.id
          similarity
          polarity := polarity sqrt new candidate }
  results.insertionSort fun left right => right.similarity ≤ left.similarity

/-! ## Similarity in both directions -/

theorem dot_comm (left right : List ℚ) : dot left right = dot right left :=
  congrArg List.sum (List.zipWith_comm_of_comm mul_comm)

theorem cosineTextSimilarity_comm (a b : SourcedRecord) :
    cosineTextSimilarity sqrt a b = cosineTextSimilarity sqrt b a := by
  unfold cosineTextSimilarity
  cases a.vectors.lookup "text" with
  | none => cases b.vectors.lookup "text" <;> rfl
  | some va =>
      cases b.vectors.lookup "text" with
      | none => rfl
      | some vb =>
          simp only [dot_comm va vb, mul_comm (sqrt (dot va va)), or_comm]

/-- The larger of two numbers does not change with the first one exactly where it is
the same or does not count. -/
theorem max_eq_max_iff {first second other : ℚ} :
    max first other = max second other ↔ first = second ∨ first ≤ other ∧ second ≤ other := by
  constructor
  · intro same
    rcases le_total first other with below | above
    · rw [max_eq_right below] at same
      exact .inr ⟨below, max_eq_right_iff.mp same.symm⟩
    · rw [max_eq_left above] at same
      rcases le_total second other with low | high
      · rw [max_eq_right low] at same
        exact .inr ⟨same.le, low⟩
      · rw [max_eq_left high] at same
        exact .inl same
  · intro given
    rcases given with same | ⟨below, low⟩
    · rw [same]
    · rw [max_eq_right below, max_eq_right low]

theorem tagSimilarity_comm_iff (left right : List String) :
    tagSimilarity left right = tagSimilarity right left ↔
      overlap left right = overlap right left := by
  have nonzero : ((max (max left.length right.length) 1 : Nat) : ℚ) ≠ 0 :=
    Nat.cast_ne_zero.mpr (Nat.ne_of_gt (Nat.le_max_right _ 1))
  unfold tagSimilarity
  rw [max_comm right.length left.length]
  dsimp only
  rw [div_left_inj' nonzero, Nat.cast_inj]

/-- The similarity is the same in both directions where the overlaps are, or where the
text decides. -/
theorem combinedSimilarity_comm_iff (a b : SourcedRecord) :
    combinedSimilarity sqrt a b = combinedSimilarity sqrt b a ↔
      overlap (tagsOf a) (tagsOf b) = overlap (tagsOf b) (tagsOf a) ∨
        tagSimilarity (tagsOf a) (tagsOf b) ≤ cosineTextSimilarity sqrt a b ∧
          tagSimilarity (tagsOf b) (tagsOf a) ≤ cosineTextSimilarity sqrt a b := by
  rw [combinedSimilarity, combinedSimilarity, cosineTextSimilarity_comm sqrt b a, max_eq_max_iff,
    tagSimilarity_comm_iff]

/-! ## Markers of negation -/

/-- A tag that negates every tag. -/
def Marked (tag : String) : Prop :=
  startsWith tag "not_" ∨ startsWith tag "no_" ∨ contains tag "anti" ∨ endsWith tag "_false"

instance (tag : String) : Decidable (Marked tag) :=
  inferInstanceAs (Decidable (_ ∨ _ ∨ _ ∨ _))

theorem isNegationPair_iff (newTag candidateTag : String) :
    isNegationPair newTag candidateTag = true ↔ Marked candidateTag := by
  have prefixed : startsWith ("not_" ++ newTag) "not_" = true := by
    rw [startsWith, List.isPrefixOf_iff_prefix, String.toList_append]
    exact List.prefix_append _ _
  unfold isNegationPair Marked
  simp only [Bool.or_eq_true, beq_iff_eq, or_assoc]
  constructor
  · intro given
    rcases given with same | marked
    · exact .inl (same ▸ prefixed)
    · exact marked
  · exact .inr

theorem polarity_eq_conflicting_iff (a b : SourcedRecord) :
    polarity sqrt a b = .conflicting ↔
      (tagsOf a ≠ [] ∧ ∃ tag ∈ tagsOf b, Marked tag) ∨
        7 / 10 < combinedSimilarity sqrt a b ∧ 1 / 2 < |a.confidence - b.confidence| := by
  have negated : ((tagsOf a).any fun newTag => (tagsOf b).any fun candTag =>
      isNegationPair newTag candTag) = true ↔ tagsOf a ≠ [] ∧ ∃ tag ∈ tagsOf b, Marked tag := by
    simp only [List.any_eq_true, isNegationPair_iff]
    constructor
    · intro given
      rcases given with ⟨newTag, member, marked⟩
      exact ⟨List.ne_nil_of_mem member, marked⟩
    · intro given
      rcases List.exists_mem_of_ne_nil _ given.1 with ⟨newTag, member⟩
      exact ⟨newTag, member, given.2⟩
  unfold polarity polarityWithSim
  rw [← negated]
  split_ifs with negation divergence
  · exact iff_of_true rfl (.inl negation)
  · exact iff_of_true rfl (.inr divergence)
  · exact iff_of_false nofun fun either => either.elim negation divergence

/-- A record conflicts with its copy where one of its tags is marked. -/
theorem polarity_self_iff (record : SourcedRecord) :
    polarity sqrt record record = .conflicting ↔ ∃ tag ∈ tagsOf record, Marked tag := by
  rw [polarity_eq_conflicting_iff, sub_self, abs_zero]
  constructor
  · intro given
    rcases given with ⟨_, marked⟩ | ⟨_, diverged⟩
    · exact marked
    · exact absurd diverged (by norm_num)
  · intro marked
    rcases marked with ⟨tag, member, isMarked⟩
    exact .inl ⟨List.ne_nil_of_mem member, tag, member, isMarked⟩

/-! ## Both directions -/

/-- Two records are compared alike in both directions, and neither conflicts with its
copy. -/
structure ComparedAlike (a b : SourcedRecord) : Prop where
  similarity : combinedSimilarity sqrt a b = combinedSimilarity sqrt b a
  polarity : polarity sqrt a b = polarity sqrt b a
  left_self : Cognitive.polarity sqrt a a ≠ .conflicting
  right_self : Cognitive.polarity sqrt b b ≠ .conflicting

theorem eq_of_conflicting_iff {first second : Polarity}
    (same : first = .conflicting ↔ second = .conflicting) : first = second := by
  cases first <;> cases second <;> simp at same ⊢

/-- Comparison is symmetric and irreflexive exactly on records without marked tags
whose overlaps agree or do not count. -/
theorem comparedAlike_iff (a b : SourcedRecord) :
    ComparedAlike sqrt a b ↔
      (∀ tag ∈ tagsOf a ++ tagsOf b, ¬Marked tag) ∧
        (overlap (tagsOf a) (tagsOf b) = overlap (tagsOf b) (tagsOf a) ∨
          tagSimilarity (tagsOf a) (tagsOf b) ≤ cosineTextSimilarity sqrt a b ∧
            tagSimilarity (tagsOf b) (tagsOf a) ≤ cosineTextSimilarity sqrt a b) := by
  rw [← combinedSimilarity_comm_iff]
  constructor
  · intro alike
    refine ⟨?_, alike.similarity⟩
    intro tag member marked
    rcases List.mem_append.mp member with inLeft | inRight
    · exact alike.left_self ((polarity_self_iff sqrt a).mpr ⟨tag, inLeft, marked⟩)
    · exact alike.right_self ((polarity_self_iff sqrt b).mpr ⟨tag, inRight, marked⟩)
  · intro given
    rcases given with ⟨unmarked, similarity⟩
    have left : ¬∃ tag ∈ tagsOf a, Marked tag := by
      intro marked
      rcases marked with ⟨tag, member, isMarked⟩
      exact unmarked tag (List.mem_append_left _ member) isMarked
    have right : ¬∃ tag ∈ tagsOf b, Marked tag := by
      intro marked
      rcases marked with ⟨tag, member, isMarked⟩
      exact unmarked tag (List.mem_append_right _ member) isMarked
    refine ⟨similarity, ?_, (left <| (polarity_self_iff sqrt a).mp ·),
      (right <| (polarity_self_iff sqrt b).mp ·)⟩
    apply eq_of_conflicting_iff
    rw [polarity_eq_conflicting_iff, polarity_eq_conflicting_iff, similarity, abs_sub_comm]
    simp only [left, right, and_false, false_or]

def taggedRecord (origins : List String) : SourcedRecord where
  toFunRecord := (FunRecordBuilder.new "facts").build (Vector.replicate 16 0) 0
  origins := origins

/-- A record with a marked tag conflicts with its copy, a marked tag counts in one
direction only, and so does a tag that occurs twice. -/
theorem comparison_depends_on_order :
    polarity id (taggedRecord ["not_safe"]) (taggedRecord ["not_safe"]) = .conflicting ∧
      polarity id (taggedRecord ["safe"]) (taggedRecord ["not_safe"]) = .conflicting ∧
      polarity id (taggedRecord ["not_safe"]) (taggedRecord ["safe"]) = .corroborating ∧
      combinedSimilarity id (taggedRecord ["sky", "sky"]) (taggedRecord ["sky", "sea"]) = 1 ∧
      combinedSimilarity id (taggedRecord ["sky", "sea"]) (taggedRecord ["sky", "sky"]) =
        1 / 2 := by
  decide +kernel

end FunDB.Cognitive
