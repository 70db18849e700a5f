import FunDB.Foundation.Text
import FunDB.Sql.Binder
import FunDB.Sql.Lexer

/-! # Intents

A sentence becomes a plan by the keywords that it holds. The rules are tried from
the most specific one on. -/

namespace FunDB.Semantic

open Text Sql

inductive IntentResult where
  | confident (plan : LogicalPlan) (score : ℚ)
  | candidates (queries : List (String × ℚ))
  | failed (message : String)
deriving DecidableEq

/-! ## Plans of the rules -/

def buildScan (collection : String) : LogicalPlan := .scan collection none []

def buildVectorScan (collection : String) : LogicalPlan :=
  .vectorScan collection "embedding" [] (1 / 2)

def buildCausalTrace : LogicalPlan :=
  .causalTrace (.param "from") (.param "to") 5 (3 / 10) none

def buildUnderstand (intent : String) : LogicalPlan :=
  .understand intent
    { minConfidence := some (1 / 2)
      withinDays := none
      depth := some 2
      collection := none
      vectorField := none
      minSimilarity := none }

def buildAggregate (collection : String) : LogicalPlan :=
  .aggregate (buildScan collection) []
    [{ func := .count, arg := .star, aliasName := some "count" }]

/-! ## Limits -/

def limitSuffixes : List String := ["results", "items", "records", "rows", "entries"]

/-- A number in front of the first suffix that has one. -/
def suffixLimit : List String → Option Nat
  | previous :: word :: words =>
      if word ∈ limitSuffixes then
        match parseUnsigned 64 previous with
        | some n => some (min n 1000)
        | none => suffixLimit (word :: words)
      else suffixLimit (word :: words)
  | _ => none

/-- A small number behind `top`, `first` or `last`, or in front of a suffix. -/
def contextLimit : Option String → List String → Option Nat
  | _, [] => none
  | previous, word :: words =>
      match parseUnsigned 64 word with
      | some n =>
          if n ≤ 1000 ∧ (previous ∈ [some "top", some "first", some "last"] ∨
              words.headD "" ∈ limitSuffixes) then some n
          else contextLimit (some word) words
      | none => contextLimit (some word) words

def extractLimit (lower : String) : Option Nat :=
  let words := splitWhitespace lower
  let scanned := (suffixLimit words).or (contextLimit none words)
  if startsWith lower "top " then
    match (splitWhitespace (String.ofList (lower.toList.drop 4))).head? with
    | none => none
    | some token =>
        match parseUnsigned 64 token with
        | some n => some (min n 1000)
        | none => scanned
  else scanned

def maybeWrapLimit (plan : LogicalPlan) (lower : String) : LogicalPlan :=
  match extractLimit lower with
  | some n => .limit plan n
  | none => plan

/-! ## Collections -/

variable (platform : TextPlatform)

/-- A word without what is not a letter around it. -/
def cleaned (word : String) : String :=
  String.ofList ((word.toList.dropWhile (!platform.isAlphabetic ·)).rdropWhile
    (!platform.isAlphabetic ·))

/-- `Iterator::max_by_key`, which takes the last one of several. -/
def longest : List String → Option String
  | [] => none
  | word :: words =>
      some (words.foldl
        (fun best word => if best.utf8ByteSize ≤ word.utf8ByteSize then word else best) word)

def extractCollection (intent : String) (catalog : Catalog) : Option String :=
  let words := (splitWhitespace intent).map (cleaned platform)
  (words.find? (catalog.hasCollection ·)).or
    (longest (words.filter (·.utf8ByteSize > 4)))

/-! ## Rules -/

/-- 1 if a keyword occurs. -/
def scoreMulti (intent : String) (keywords : List String) : ℚ :=
  if keywords = [] then 0
  else
    let found := keywords.countP (contains intent ·)
    if found = 0 then 0 else 1

def causalKeywords : List String :=
  ["caused by", "cause of", "effects of", "leads to", "trace causality", "what caused", "why did"]

def vectorKeywords : List String :=
  ["similar to", "like", "nearest to", "closest to", "<->", "resembles"]

def understandKeywords : List String :=
  ["understand", "explain", "what is", "tell me about", "describe"]

def countKeywords : List String := ["count", "how many", "number of", "total"]

def temporalKeywords : List String :=
  ["last", "recent", "today", "yesterday", "this week", "since", "before", "after", "as of"]

def selectKeywords : List String :=
  ["find", "get", "show", "list", "fetch", "select", "query", "retrieve", "top"]

def makeCandidates (intent collection : String) : IntentResult :=
  .candidates
    [("SELECT * FROM " ++ collection ++ " WHERE _confidence > 0.5", 2 / 5),
      ("SELECT * FROM " ++ collection ++ " ORDER BY _confidence DESC LIMIT 10", 7 / 20),
      ("UNDERSTAND \"" ++ intent ++ "\" MIN_CONFIDENCE 0.5 DEPTH 2", 3 / 10)]

/-- The rules with the score of their keywords, their own confidence and a number. -/
def candidatesRanked (lower : String) : List (ℚ × ℚ × Nat) :=
  [(scoreMulti lower causalKeywords, 17 / 20, 3), (scoreMulti lower vectorKeywords, 3 / 4, 2),
    (scoreMulti lower understandKeywords, 7 / 10, 4), (scoreMulti lower countKeywords, 3 / 4, 5),
    (scoreMulti lower temporalKeywords, 3 / 5, 6), (scoreMulti lower selectKeywords, 4 / 5, 1)]

/-- `Iterator::reduce` by the higher score, the first one of several. -/
def winner (ranked : List (ℚ × ℚ × Nat)) : Option (ℚ × ℚ × Nat) :=
  match ranked.filter (0 < ·.1) with
  | [] => none
  | first :: rest => some (rest.foldl (fun best cur => if best.1 < cur.1 then cur else best) first)

def basePlan (ruleId : Nat) (trimmed collection : String) : LogicalPlan :=
  match ruleId with
  | 1 => buildScan collection
  | 2 => buildVectorScan collection
  | 3 => buildCausalTrace
  | 4 => buildUnderstand trimmed
  | 5 => buildAggregate collection
  | 6 => buildScan collection
  | _ => buildScan collection

def parseIntent (cases : CaseMapping) (intent : String) (catalog : Catalog) : IntentResult :=
  let trimmed := trim intent
  if trimmed = "" then .failed "empty intent string"
  else
    let lower := cases.toLowercase trimmed
    let collection := (extractCollection platform lower catalog).getD "records"
    match winner (candidatesRanked lower) with
    | none => makeCandidates trimmed collection
    | some (keywordScore, baseConfidence, ruleId) =>
        let combined := max (1 / 10) (min (keywordScore * baseConfidence) 1)
        if combined < 1 / 2 then makeCandidates trimmed collection
        else .confident (maybeWrapLimit (basePlan ruleId trimmed collection) lower) combined

/-! ## The first rule with a keyword -/

/-- A rule, its keywords, its confidence, and the number of its plan. -/
structure Rule where
  keywords : List String
  confidence : ℚ
  ruleId : Nat

def rules : List Rule :=
  [⟨causalKeywords, 17 / 20, 3⟩, ⟨vectorKeywords, 3 / 4, 2⟩, ⟨understandKeywords, 7 / 10, 4⟩,
    ⟨countKeywords, 3 / 4, 5⟩, ⟨temporalKeywords, 3 / 5, 6⟩, ⟨selectKeywords, 4 / 5, 1⟩]

def Rule.matches (rule : Rule) (lower : String) : Bool :=
  rule.keywords.any (contains lower ·)

theorem scoreMulti_eq (lower : String) (keywords : List String) :
    scoreMulti lower keywords = if keywords.any (contains lower ·) then 1 else 0 := by
  rw [scoreMulti]
  by_cases none : keywords = []
  · rw [if_pos none, none]
    rfl
  · rw [if_neg none]
    by_cases found : keywords.any (contains lower ·) = true
    · have some : keywords.countP (contains lower ·) ≠ 0 :=
        Nat.ne_of_gt (List.countP_pos_iff.mpr (List.any_eq_true.mp found))
      rw [if_pos found]
      exact if_neg some
    · have zero : keywords.countP (contains lower ·) = 0 :=
        List.countP_eq_zero.mpr fun keyword member held =>
          found (List.any_eq_true.mpr ⟨keyword, member, held⟩)
      rw [if_neg found]
      exact if_pos zero

/-- All scores are 0 or 1, so that the first rule with a keyword wins. -/
theorem winner_eq (lower : String) (rules : List Rule) :
    winner (rules.map fun rule =>
        (scoreMulti lower rule.keywords, rule.confidence, rule.ruleId)) =
      (rules.find? (·.matches lower)).map fun rule => (1, rule.confidence, rule.ruleId) := by
  have stays : ∀ (rest : List (ℚ × ℚ × Nat)) (first : ℚ × ℚ × Nat), first.1 = 1 →
      (∀ other ∈ rest, other.1 ≤ 1) →
      rest.foldl (fun best cur => if best.1 < cur.1 then cur else best) first = first := by
    intro rest first one
    induction rest with
    | nil => exact fun _ => rfl
    | cons other rest induction =>
        intro bounded
        have low : ¬first.1 < other.1 := by
          rw [one, not_lt]
          exact bounded other List.mem_cons_self
        rw [List.foldl_cons, if_neg low]
        exact induction fun other member => bounded other (List.mem_cons_of_mem _ member)
  induction rules with
  | nil => rfl
  | cons rule rules induction =>
      have score := scoreMulti_eq lower rule.keywords
      rw [winner] at induction ⊢
      rw [List.map_cons, List.find?_cons]
      cases held : rule.matches lower with
      | true =>
          have one : scoreMulti lower rule.keywords = 1 := score.trans (if_pos held)
          rw [one, List.filter_cons, if_pos (decide_eq_true zero_lt_one)]
          dsimp only
          rw [stays _ _ rfl]
          · rfl
          · intro other member
            rcases List.mem_map.mp (List.mem_of_mem_filter member) with ⟨later, _, rfl⟩
            dsimp only
            rw [scoreMulti_eq]
            split
            · exact le_rfl
            · exact zero_le_one
      | false =>
          have absent : ¬(rule.keywords.any (contains lower ·)) = true := by
            rw [Bool.not_eq_true]
            exact held
          have zero : scoreMulti lower rule.keywords = 0 := score.trans (if_neg absent)
          rw [zero, List.filter_cons,
            if_neg fun positive => lt_irrefl (0 : ℚ) (of_decide_eq_true positive)]
          exact induction

theorem rules_confident {rule : Rule} (member : rule ∈ rules) :
    1 / 2 < rule.confidence ∧ rule.confidence ≤ 1 := by
  revert rule
  decide +kernel

/-- What an intent becomes: nothing if it is blank, three suggestions if no rule has a
keyword in it, and otherwise the plan of the first such rule with its confidence. -/
theorem parseIntent_eq (cases : CaseMapping) (intent : String) (catalog : Catalog) :
    parseIntent platform cases intent catalog =
      if trim intent = "" then .failed "empty intent string"
      else
        let lower := cases.toLowercase (trim intent)
        let collection := (extractCollection platform lower catalog).getD "records"
        (rules.find? (·.matches lower)).elim (makeCandidates (trim intent) collection) fun rule =>
          .confident (maybeWrapLimit (basePlan rule.ruleId (trim intent) collection) lower)
            rule.confidence := by
  rw [parseIntent]
  split
  · rfl
  · dsimp only
    have ranked : candidatesRanked (cases.toLowercase (trim intent)) =
        rules.map fun rule => (scoreMulti (cases.toLowercase (trim intent)) rule.keywords,
          rule.confidence, rule.ruleId) := rfl
    rw [ranked, winner_eq]
    cases found : rules.find? (·.matches (cases.toLowercase (trim intent))) with
    | none => rfl
    | some rule =>
        have bounds := rules_confident (List.mem_of_find?_eq_some found)
        have same : max (1 / 10) (min (1 * rule.confidence) 1) = rule.confidence := by
          rw [one_mul, min_eq_left bounds.2, max_eq_right]
          exact le_trans (by norm_num) bounds.1.le
        dsimp only [Option.map_some]
        rw [same, if_neg (not_lt.mpr bounds.1.le), Option.elim_some]

theorem contextLimit_le {previous : Option String} {words : List String} {n : Nat}
    (found : contextLimit previous words = some n) : n ≤ 1000 := by
  induction words generalizing previous with
  | nil => cases found
  | cons word words induction =>
      rw [contextLimit] at found
      split at found
      · split at found
        · next small =>
            cases found
            exact small.1
        · exact induction found
      · exact induction found

theorem suffixLimit_le {words : List String} {n : Nat} (found : suffixLimit words = some n) :
    n ≤ 1000 := by
  induction words with
  | nil => cases found
  | cons previous words induction =>
      cases words with
      | nil => cases found
      | cons word words =>
          rw [suffixLimit] at found
          split at found
          · split at found
            · cases found
              exact Nat.min_le_right _ _
            · exact induction found
          · exact induction found

theorem extractLimit_le {lower : String} {n : Nat} (found : extractLimit lower = some n) :
    n ≤ 1000 := by
  have scanned : ∀ words : List String,
      (suffixLimit words).or (contextLimit none words) = some n → n ≤ 1000 := by
    intro words either
    rcases Option.or_eq_some_iff.mp either with suffix | ⟨_, context⟩
    · exact suffixLimit_le suffix
    · exact contextLimit_le context
  rw [extractLimit] at found
  split at found
  · split at found
    · cases found
    · split at found
      · cases found
        exact Nat.min_le_right _ _
      · exact scanned _ found
  · exact scanned _ found

theorem maybeWrapLimit_eq_iff (base plan : LogicalPlan) (lower : String) :
    maybeWrapLimit base lower = plan ↔ extractLimit lower = none ∧ base = plan ∨
      ∃ n ≤ 1000, extractLimit lower = some n ∧ .limit base n = plan := by
  rw [maybeWrapLimit]
  cases found : extractLimit lower with
  | none => simp
  | some limit =>
      have small := extractLimit_le found
      constructor
      · intro limited
        exact .inr ⟨limit, small, rfl, limited⟩
      · intro either
        rcases either with ⟨none, _⟩ | ⟨n, _, same, limited⟩
        · cases none
        · cases same
          exact limited

/-- An intent fails exactly if it is blank, and is answered with suggestions exactly if
no keyword of any rule is in it. Every other one becomes the plan of the first rule
with a keyword in it, with the confidence of that rule and at most 1000 rows if it
asks for a number of them. -/
theorem parseIntent_exact (cases : CaseMapping) (intent : String) (catalog : Catalog) :
    let lower := cases.toLowercase (trim intent)
    let collection := (extractCollection platform lower catalog).getD "records"
    let result := parseIntent platform cases intent catalog
    ((∃ message, result = .failed message) ↔ trim intent = "") ∧
      ((∃ queries, result = .candidates queries) ↔ trim intent ≠ "" ∧
        ∀ rule ∈ rules, ∀ keyword ∈ rule.keywords, contains lower keyword = false) ∧
      ∀ plan score, result = .confident plan score ↔ trim intent ≠ "" ∧
        ∃ rule, rules.find? (·.matches lower) = some rule ∧ rule.confidence = score ∧
          (extractLimit lower = none ∧ basePlan rule.ruleId (trim intent) collection = plan ∨
            ∃ n ≤ 1000, extractLimit lower = some n ∧
              .limit (basePlan rule.ruleId (trim intent) collection) n = plan) := by
  intro lower collection result
  have spec : result = _ := parseIntent_eq platform cases intent catalog
  have noKeyword : (∀ rule ∈ rules, ∀ keyword ∈ rule.keywords, contains lower keyword = false) ↔
      rules.find? (·.matches lower) = none := by
    simp only [List.find?_eq_none, Rule.matches, List.any_eq_true, not_exists, not_and,
      Bool.not_eq_true]
  rw [noKeyword]
  by_cases blank : trim intent = ""
  · rw [if_pos blank] at spec
    rw [spec]
    simp [blank]
  · rw [if_neg blank] at spec
    change result = (rules.find? (·.matches lower)).elim
      (makeCandidates (trim intent) collection) fun rule => .confident
        (maybeWrapLimit (basePlan rule.ruleId (trim intent) collection) lower)
          rule.confidence at spec
    cases found : rules.find? (·.matches lower) with
    | none =>
        rw [found, Option.elim_none] at spec
        rw [spec]
        simp [blank, makeCandidates]
    | some rule =>
        rw [found, Option.elim_some] at spec
        rw [spec]
        refine ⟨by simp [blank], by simp, fun plan score => ?_⟩
        rw [IntentResult.confident.injEq, maybeWrapLimit_eq_iff]
        simp [blank, and_comm]

end FunDB.Semantic
