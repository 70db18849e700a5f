import FunDB.Cognitive.Contradiction
import FunDB.Foundation.Execution
import Mathlib.Algebra.Order.Field.Basic
import Mathlib.Algebra.Order.Field.Rat
import Mathlib.Tactic.Linarith
import Mathlib.Tactic.Positivity

/-! # Confidence

Rules that combine and update confidences, and the links between records that
contradict each other. A link lowers the confidence of both records. -/

namespace FunDB.Cognitive

open Text Execution

/-! ## Rules -/

namespace ConfidencePropagator

def propagateJoin (a b : ℚ) : ℚ := min a b

def propagateUnion (a b : ℚ) : ℚ := max a b

/-- The average of confidences by their weights. -/
def propagateAggregate (scores : List (ℚ × ℚ)) : ℚ :=
  if scores = [] then 0
  else
    let sums := scores.foldl
      (fun sums score => (sums.1 + score.1 * score.2, sums.2 + score.2)) (0, 0)
    if sums.2 = 0 then 0 else sums.1 / sums.2

def propagateGraphPath (nodes edges : List ℚ) : ℚ := (nodes ++ edges).prod

def propagateNegation (c : ℚ) : ℚ := 1 - c

def confidenceForNEqualContradictions (n : Nat) : ℚ :=
  if n = 0 then 1 / 2 else 1 / 2 + 1 / (2 * n)

def updateOnCorroboration (current : ℚ) : ℚ := min (current + 1 / 10) 1

def updateOnContradiction (current contradictionConfidence : ℚ) : ℚ :=
  max (current - 1 / 5 * contradictionConfidence) 0

/-- Confidences that the rules make, however they are nested. -/
inductive Derived : ℚ → Prop
  | given (c : ℚ) (bounds : 0 ≤ c ∧ c ≤ 1) : Derived c
  | join (a b : ℚ) (left : Derived a) (right : Derived b) : Derived (propagateJoin a b)
  | union (a b : ℚ) (left : Derived a) (right : Derived b) : Derived (propagateUnion a b)
  | aggregate (scores : List (ℚ × ℚ)) (parts : ∀ score ∈ scores, Derived score.1)
      (weights : ∀ score ∈ scores, 0 ≤ score.2) : Derived (propagateAggregate scores)
  | graphPath (nodes edges : List ℚ) (onNodes : ∀ c ∈ nodes, Derived c)
      (onEdges : ∀ c ∈ edges, Derived c) : Derived (propagateGraphPath nodes edges)
  | negation (c : ℚ) (part : Derived c) : Derived (propagateNegation c)
  | contradictions (n : Nat) : Derived (confidenceForNEqualContradictions n)
  | corroboration (c : ℚ) (part : Derived c) : Derived (updateOnCorroboration c)
  | contradiction (c against : ℚ) (part : Derived c) (other : Derived against) :
      Derived (updateOnContradiction c against)

theorem aggregate_sums (scores : List (ℚ × ℚ)) (start : ℚ × ℚ)
    (bounds : ∀ score ∈ scores, 0 ≤ score.1 ∧ score.1 ≤ 1)
    (weights : ∀ score ∈ scores, 0 ≤ score.2) (below : 0 ≤ start.1 ∧ start.1 ≤ start.2) :
    let sums := scores.foldl
      (fun sums score => (sums.1 + score.1 * score.2, sums.2 + score.2)) start
    0 ≤ sums.1 ∧ sums.1 ≤ sums.2 := by
  induction scores generalizing start with
  | nil => exact below
  | cons score scores induction =>
      have bound := bounds score List.mem_cons_self
      have weight := weights score List.mem_cons_self
      have lower : 0 ≤ score.1 * score.2 := mul_nonneg bound.1 weight
      have upper : score.1 * score.2 ≤ score.2 := mul_le_of_le_one_left weight bound.2
      rw [List.foldl_cons]
      apply induction _ (fun other member => bounds other (List.mem_cons_of_mem _ member))
        fun other member => weights other (List.mem_cons_of_mem _ member)
      exact ⟨add_nonneg below.1 lower, add_le_add below.2 upper⟩

theorem prod_bounds {parts : List ℚ} (bounds : ∀ c ∈ parts, 0 ≤ c ∧ c ≤ 1) :
    0 ≤ parts.prod ∧ parts.prod ≤ 1 := by
  induction parts with
  | nil => exact ⟨zero_le_one, le_rfl⟩
  | cons c parts induction =>
      have here := bounds c List.mem_cons_self
      have rest := induction fun other member => bounds other (List.mem_cons_of_mem _ member)
      rw [List.prod_cons]
      exact ⟨mul_nonneg here.1 rest.1, mul_le_one₀ here.2 rest.1 rest.2⟩

/-- Nested rules stay between no confidence and certainty. -/
theorem Derived.bounds {c : ℚ} (derived : Derived c) : 0 ≤ c ∧ c ≤ 1 := by
  induction derived with
  | given c bounds => exact bounds
  | join a b left right leftBounds rightBounds =>
      exact ⟨le_min leftBounds.1 rightBounds.1, min_le_of_left_le leftBounds.2⟩
  | union a b left right leftBounds rightBounds =>
      exact ⟨le_max_of_le_left leftBounds.1, max_le leftBounds.2 rightBounds.2⟩
  | aggregate scores parts weights bounds =>
      have sums := aggregate_sums scores (0, 0) bounds weights ⟨le_rfl, le_rfl⟩
      unfold propagateAggregate
      dsimp only at sums ⊢
      split
      · exact ⟨le_rfl, zero_le_one⟩
      · split
        · exact ⟨le_rfl, zero_le_one⟩
        · have positive := sums.1.trans sums.2
          exact ⟨div_nonneg sums.1 positive, div_le_one_of_le₀ sums.2 positive⟩
  | graphPath nodes edges onNodes onEdges nodeBounds edgeBounds =>
      apply prod_bounds
      intro c member
      exact (List.mem_append.mp member).elim (nodeBounds c) (edgeBounds c)
  | negation c part bounds =>
      exact ⟨sub_nonneg.mpr bounds.2, sub_le_self 1 bounds.1⟩
  | contradictions n =>
      unfold confidenceForNEqualContradictions
      split
      · norm_num
      · next some =>
          have count : (1 : ℚ) ≤ n := Nat.one_le_cast.mpr (Nat.pos_of_ne_zero some)
          have share : 1 / (2 * (n : ℚ)) ≤ 1 / 2 := by
            apply one_div_le_one_div_of_le
            · norm_num
            · linarith
          have positive : 0 ≤ 1 / (2 * (n : ℚ)) := by
            positivity
          constructor
          · linarith
          · linarith
  | corroboration c part bounds =>
      refine ⟨le_min ?_ zero_le_one, min_le_right _ _⟩
      linarith [bounds.1]
  | contradiction c against part other bounds againstBounds =>
      refine ⟨le_max_right _ _, max_le ?_ zero_le_one⟩
      linarith [bounds.2, againstBounds.1]

/-- A weighted average of a contradicted path and the opposite of a join. -/
theorem Derived.bounds_nested :
    let path := updateOnContradiction (propagateGraphPath [9 / 10, 4 / 5] [1 / 2]) 1
    let average := propagateAggregate [(path, 2), (propagateNegation (propagateJoin 1 (1 / 3)), 1)]
    average = 74 / 225 ∧ 0 ≤ average ∧ average ≤ 1 := by
  intro path average
  refine ⟨by decide +kernel, ?_⟩
  have given : ∀ c ∈ [(9 : ℚ) / 10, 4 / 5, 1 / 2, 1, 1 / 3], Derived c := by
    intro c member
    apply Derived.given c
    revert member c
    decide +kernel
  apply Derived.bounds
  apply Derived.aggregate
  · intro score member
    rcases List.mem_pair.mp member with rfl | rfl
    · apply Derived.contradiction _ _ _ (given _ (by decide +kernel))
      apply Derived.graphPath
      · intro c member
        rcases List.mem_pair.mp member with rfl | rfl
        · exact given _ (by decide +kernel)
        · exact given _ (by decide +kernel)
      · intro c member
        rw [List.mem_singleton.mp member]
        exact given _ (by decide +kernel)
    · exact .negation _ (.join _ _ (given _ (by decide +kernel)) (given _ (by decide +kernel)))
  · decide +kernel

end ConfidencePropagator

/-! ## Links -/

/-- A UUID in hexadecimal digits without hyphens. -/
def idAsHex (id : Uuid) : String := String.ofList (hexDigits id.toList)

def linkOrigin (id : Uuid) : String := "contradicts:" ++ idAsHex id

/-- Link two records and lower the confidence of both. -/
def autoLink (recordA recordB : SourcedRecord) (strength : ℚ) : SourcedRecord × SourcedRecord :=
  ({ recordA with
      confidence := max (recordA.confidence - 1 / 5 * strength) 0
      origins := recordA.origins ++ [linkOrigin recordB.id] },
    { recordB with
      confidence := max (recordB.confidence - 1 / 5 * strength) 0
      origins := recordB.origins ++ [linkOrigin recordA.id] })

/-- Two records that are found to contradict each other, and how much. -/
structure Link (Place : Type) where
  left : Place
  right : Place
  strength : ℚ

namespace Link

variable {Place : Type} [DecidableEq Place]

def apply (records : Place → SourcedRecord) (link : Link Place) : Place → SourcedRecord :=
  let linked := autoLink (records link.left) (records link.right) link.strength
  Function.update (Function.update records link.left linked.1) link.right linked.2

/-- The other end, seen from one of the two. -/
def partner (link : Link Place) (place : Place) : Option Place :=
  if link.left = place then some link.right
  else if link.right = place then some link.left
  else none

def strengthsAt (links : List (Link Place)) (place : Place) : List ℚ :=
  (links.filter fun link => (link.partner place).isSome).map strength

def partnersOf (links : List (Link Place)) (place : Place) : List Place :=
  links.filterMap fun link => link.partner place

variable {records : Place → SourcedRecord}

/-- A link changes the confidence and the origins of its two ends. -/
theorem apply_eq (link : Link Place) (distinct : link.left ≠ link.right) (place : Place) :
    apply records link place =
      (link.partner place).elim (records place) fun other =>
        { records place with
          confidence := max ((records place).confidence - 1 / 5 * link.strength) 0
          origins := (records place).origins ++ [linkOrigin (records other).id] } := by
  rw [apply, partner]
  by_cases left : link.left = place
  · subst left
    rw [if_pos rfl, Function.update_of_ne distinct, Function.update_self]
    rfl
  · rw [if_neg left]
    by_cases right : link.right = place
    · subst right
      rw [if_pos rfl, Function.update_self]
      rfl
    · rw [if_neg right, Function.update_of_ne (Ne.symm right),
        Function.update_of_ne (Ne.symm left), Option.elim_none]

variable (records)

theorem id_run (links : List (Link Place)) (distinct : ∀ link ∈ links, link.left ≠ link.right)
    (place : Place) : (run apply records links place).id = (records place).id := by
  induction links generalizing records with
  | nil => rfl
  | cons link links induction =>
      have here := List.forall_mem_cons.mp distinct
      rw [run_cons, induction _ here.2, apply_eq link here.1]
      cases link.partner place with
      | none => rfl
      | some other => rfl

theorem lowered_twice (confidence first : ℚ) {second : ℚ} (strength : 0 ≤ second) :
    max (max (confidence - 1 / 5 * first) 0 - 1 / 5 * second) 0 =
      max (confidence - 1 / 5 * (first + second)) 0 := by
  have loss : 0 ≤ 1 / 5 * second := mul_nonneg (by norm_num) strength
  have both : confidence - 1 / 5 * (first + second) =
      confidence - 1 / 5 * first - 1 / 5 * second := by
    rw [mul_add, sub_sub]
  rw [both]
  rcases le_total (confidence - 1 / 5 * first) 0 with below | above
  · rw [max_eq_right below, max_eq_right (by linarith), max_eq_right (by linarith)]
  · rw [max_eq_left above]

theorem partnersOf_concat (links : List (Link Place)) (link : Link Place) (place : Place) :
    partnersOf (links ++ [link]) place =
      partnersOf links place ++ (link.partner place).toList := by
  rw [partnersOf, List.filterMap_append, partnersOf]
  cases found : link.partner place with
  | none => exact congrArg (_ ++ ·) (List.filterMap_cons_none found)
  | some other => exact congrArg (_ ++ ·) (List.filterMap_cons_some found)

theorem strengthsAt_concat (links : List (Link Place)) (link : Link Place) (place : Place) :
    strengthsAt (links ++ [link]) place =
      strengthsAt links place ++ (link.partner place).toList.map fun _ => link.strength := by
  rw [strengthsAt, List.filter_append, List.map_append, strengthsAt]
  cases found : link.partner place with
  | none =>
      have outside : [link].filter (fun link => (link.partner place).isSome) = [] :=
        List.filter_eq_nil_iff.mpr fun other member held => by
          rw [List.mem_singleton.mp member, found] at held
          cases held
      rw [outside]
      rfl
  | some other =>
      have inside : [link].filter (fun link => (link.partner place).isSome) = [link] :=
        List.filter_eq_self.mpr fun other member => by
          rw [List.mem_singleton.mp member, found]
          rfl
      rw [inside]
      rfl

/-- What a record is after its links: the same but for the confidence, which is lower
by a fifth of their strengths and not below 0, and the links among its origins. -/
theorem run_apply (links : List (Link Place)) (distinct : ∀ link ∈ links, link.left ≠ link.right)
    (strengths : ∀ link ∈ links, 0 ≤ link.strength) (place : Place)
    (bounded : 0 ≤ (records place).confidence) :
    run apply records links place =
      { records place with
        confidence :=
          max ((records place).confidence - 1 / 5 * (strengthsAt links place).sum) 0
        origins := (records place).origins ++
          (partnersOf links place).map fun other => linkOrigin (records other).id } := by
  induction links using List.reverseRecOn with
  | nil =>
      have same : max ((records place).confidence - 1 / 5 * (0 : ℚ)) 0 =
          (records place).confidence := by
        rw [mul_zero, sub_zero, max_eq_left bounded]
      rw [strengthsAt, partnersOf, List.filter_nil, List.map_nil, List.sum_nil, same,
        List.filterMap_nil, List.map_nil, List.append_nil]
      rfl
  | append_singleton links link induction =>
      have before := fun (other : Link Place) (member : other ∈ links) =>
        List.mem_append_left [link] member
      have last : link ∈ links ++ [link] := List.mem_append_right links List.mem_cons_self
      have earlier := induction (fun other member => distinct other (before other member))
        fun other member => strengths other (before other member)
      have ids := id_run records links fun other member => distinct other (before other member)
      rw [run_concat, apply_eq link (distinct link last), earlier, strengthsAt_concat,
        partnersOf_concat]
      cases link.partner place with
      | none =>
          rw [Option.elim_none, Option.toList_none, List.map_nil, List.append_nil,
            List.append_nil]
      | some other =>
          rw [Option.elim_some]
          dsimp only
          rw [ids other, lowered_twice _ _ (strengths link last), Option.toList_some,
            List.map_singleton, List.sum_append, List.sum_singleton, List.map_append,
            List.append_assoc]
          rfl

theorem tagsOf_run {links : List (Link Place)} (distinct : ∀ link ∈ links, link.left ≠ link.right)
    (strengths : ∀ link ∈ links, 0 ≤ link.strength) {place : Place}
    (bounded : 0 ≤ (records place).confidence) :
    tagsOf (run apply records links place) = tagsOf (records place) := by
  have marked : ∀ id : Uuid, startsWith (linkOrigin id) "contradicts:" = true := by
    intro id
    rw [startsWith, List.isPrefixOf_iff_prefix, linkOrigin, String.toList_append]
    exact List.prefix_append _ _
  have noTag : ((partnersOf links place).map fun other => linkOrigin (records other).id).filter
      (fun origin => !startsWith origin "contradicts:") = [] := by
    rw [List.filter_eq_nil_iff]
    intro origin member
    rcases List.mem_map.mp member with ⟨other, _, rfl⟩
    rw [marked]
    decide
  rw [run_apply records links distinct strengths place bounded, tagsOf, tagsOf,
    List.filter_append, noTag, List.append_nil]

theorem partner_comm {link : Link Place} (distinct : link.left ≠ link.right)
    (place other : Place) : link.partner place = some other ↔ link.partner other = some place := by
  have ends : ∀ near far : Place, link.partner near = some far ↔
      link.left = near ∧ link.right = far ∨ link.left = far ∧ link.right = near := by
    intro near far
    unfold partner
    by_cases left : link.left = near
    · have apart : link.right ≠ near := fun right => distinct (left.trans right.symm)
      simp [left, apart]
    · by_cases right : link.right = near
      · simp [left, right]
      · simp [left, right]
  rw [ends, ends]
  exact or_comm

theorem linkOrigin_injective : Function.Injective linkOrigin := by
  intro left right same
  have digits : hexDigits left.toList = hexDigits right.toList := by
    have texts := congrArg String.toList same
    simp only [linkOrigin, idAsHex, String.toList_append, String.toList_ofList] at texts
    exact List.append_cancel_left texts
  exact Vector.toList_inj.mp (hexDigits_injective digits)

theorem count_origins {links : List (Link Place)}
    (distinct : ∀ link ∈ links, link.left ≠ link.right)
    (strengths : ∀ link ∈ links, 0 ≤ link.strength) {place : Place}
    (bounded : 0 ≤ (records place).confidence)
    (ids : Function.Injective fun place => (records place).id) {other : Place}
    (fresh : linkOrigin (records other).id ∉ (records place).origins) :
    (run apply records links place).origins.count (linkOrigin (records other).id) =
      links.countP fun link => link.partner place = some other := by
  have origins : Function.Injective fun place => linkOrigin (records place).id :=
    linkOrigin_injective.comp ids
  rw [run_apply records links distinct strengths place bounded]
  dsimp only
  have counted := List.count_map_of_injective (partnersOf links place) _ origins other
  rw [List.count_append, List.count_eq_zero_of_not_mem fresh, Nat.zero_add, counted, partnersOf,
    List.count_filterMap]
  apply List.countP_congr
  intro link member
  rw [beq_iff_eq, decide_eq_true_iff]

/-- Over any links, a confidence falls by a fifth of the strengths at its record and
never below 0, no similarity changes, and two records are linked to each other
equally often. -/
theorem linked_exact (sqrt : ℚ → ℚ) {links : List (Link Place)}
    (distinct : ∀ link ∈ links, link.left ≠ link.right)
    (strengths : ∀ link ∈ links, 0 ≤ link.strength)
    (bounded : ∀ place, 0 ≤ (records place).confidence)
    (ids : Function.Injective fun place => (records place).id)
    (fresh : ∀ place other, linkOrigin (records other).id ∉ (records place).origins)
    (place other : Place) :
    let after := run apply records links
    (after place).confidence =
        max ((records place).confidence - 1 / 5 * (strengthsAt links place).sum) 0 ∧
      combinedSimilarity sqrt (after place) (after other) =
        combinedSimilarity sqrt (records place) (records other) ∧
      (after place).origins.count (linkOrigin (records other).id) =
        (after other).origins.count (linkOrigin (records place).id) ∧
      (after place).origins.count (linkOrigin (records other).id) =
        links.countP fun link => link.partner place = some other := by
  intro after
  have counts := fun near far => count_origins records distinct strengths (bounded near) ids
    (fresh near far)
  refine ⟨?_, ?_, ?_, counts place other⟩
  · exact congrArg (·.confidence)
      (run_apply records links distinct strengths place (bounded place))
  · have vectors : ∀ near, (after near).vectors = (records near).vectors := by
      intro near
      exact congrArg (·.vectors) (run_apply records links distinct strengths near (bounded near))
    have tags : ∀ near, tagsOf (after near) = tagsOf (records near) := by
      intro near
      exact tagsOf_run records distinct strengths (bounded near)
    rw [combinedSimilarity, combinedSimilarity, cosineTextSimilarity, cosineTextSimilarity, tags,
      tags, vectors, vectors]
  · rw [counts, counts]
    apply List.countP_congr
    intro link member
    rw [decide_eq_true_iff, decide_eq_true_iff]
    exact partner_comm (distinct link member) place other

theorem linked_exact_twice :
    let records : Bool → SourcedRecord := fun place =>
      { taggedRecord ["sky"] with id := .ofByte (if place then 1 else 0) }
    let links : List (Link Bool) := [⟨true, false, 1⟩, ⟨false, true, 1 / 2⟩]
    (run apply records links true).confidence = 7 / 10 ∧
      (run apply records links true).origins.count (linkOrigin (.ofByte 0)) = 2 ∧
      (run apply records links false).origins.count (linkOrigin (.ofByte 1)) = 2 := by
  intro records links
  have distinct : ∀ link ∈ links, link.left ≠ link.right := by
    decide
  have strengths : ∀ link ∈ links, 0 ≤ link.strength := by
    decide +kernel
  have bounded : ∀ place, 0 ≤ (records place).confidence := by
    decide +kernel
  have ids : Function.Injective fun place => (records place).id := by
    intro left right same
    revert left right
    decide +kernel
  have fresh : ∀ place other, linkOrigin (records other).id ∉ (records place).origins := by
    decide +kernel
  have exact := linked_exact records id distinct strengths bounded ids fresh true false
  have lowered : max ((records true).confidence - 1 / 5 * (strengthsAt links true).sum) 0 =
      7 / 10 := by
    decide +kernel
  have joined : (links.countP fun link => link.partner true = some false) = 2 := by
    decide
  exact ⟨exact.1.trans lowered, exact.2.2.2.trans joined,
    exact.2.2.1.symm.trans (exact.2.2.2.trans joined)⟩

end Link

end FunDB.Cognitive
