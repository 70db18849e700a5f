import Mathlib.Data.List.Sort
import Mathlib.Data.List.Lex

/-! # Lists of keyed entries

Sorting entries by key keeps entries of one key in their order, so a lookup by
key does not see the sort. -/

namespace FunDB.KeyedList

universe u v

variable {Key : Type u} [LinearOrder Key] {Value : Type v}

/-- The value of the first entry for `key`. -/
def find (entries : List (Key × Value)) (key : Key) : Option Value :=
  (entries.find? fun entry => entry.1 = key).map Prod.snd

/-- Stable sort by key. -/
def sortByKey (entries : List (Key × Value)) : List (Key × Value) :=
  entries.insertionSort fun left right => left.1 ≤ right.1

/-- Keep the first entry of each stretch of equal keys, where `previous` is the
key of the entry kept last. -/
def dropRepeats : Option Key → List (Key × Value) → List (Key × Value)
  | _, [] => []
  | previous, (key, value) :: rest =>
      if previous = some key then
        dropRepeats previous rest
      else
        (key, value) :: dropRepeats (some key) rest

/-! ## Lookup -/

@[simp] theorem find_nil (key : Key) :
    find ([] : List (Key × Value)) key = none := rfl

theorem find_cons (entry : Key × Value) (rest : List (Key × Value)) (key : Key) :
    find (entry :: rest) key = if entry.1 = key then some entry.2 else find rest key := by
  by_cases same : entry.1 = key <;> simp [find, same]

@[simp] theorem find_append (first second : List (Key × Value)) (key : Key) :
    find (first ++ second) key = (find first key).or (find second key) := by
  induction first with
  | nil => simp
  | cons entry rest induction =>
      rw [List.cons_append, find_cons, find_cons, induction]
      split <;> rfl

theorem mem_of_find {entries : List (Key × Value)} {key : Key} {value : Value}
    (found : find entries key = some value) : (key, value) ∈ entries := by
  induction entries with
  | nil => simp at found
  | cons entry rest induction =>
      rw [find_cons] at found
      split at found
      · rename_i same
        cases found
        subst same
        exact List.mem_cons_self
      · exact List.mem_cons_of_mem _ (induction found)

theorem find_eq_none_iff (entries : List (Key × Value)) (key : Key) :
    find entries key = none ↔ key ∉ entries.map Prod.fst := by
  induction entries with
  | nil => simp
  | cons entry rest induction =>
      rw [find_cons]
      split
      · rename_i same
        simp [same]
      · rename_i different
        simp only [List.map_cons, List.mem_cons, not_or, induction]
        exact ⟨fun absent => ⟨fun same => different same.symm, absent⟩,
          fun absent => absent.2⟩

theorem find_of_mem {entries : List (Key × Value)} {key : Key} {value : Value}
    (distinct : (entries.map Prod.fst).Nodup) (member : (key, value) ∈ entries) :
    find entries key = some value := by
  induction entries with
  | nil => cases member
  | cons entry rest induction =>
      rw [List.map_cons, List.nodup_cons] at distinct
      rw [find_cons]
      rcases List.mem_cons.mp member with equal | inRest
      · subst equal
        simp
      · have different : entry.1 ≠ key := by
          intro same
          exact distinct.1 (List.mem_map.mpr ⟨(key, value), inRest, same.symm⟩)
        rw [if_neg different]
        exact induction distinct.2 inRest

/-- A lookup only sees the entries of its own key. -/
theorem find_eq_of_filter_eq {first second : List (Key × Value)} {key : Key}
    (equal : first.filter (fun entry => entry.1 = key) =
      second.filter (fun entry => entry.1 = key)) :
    find first key = find second key := by
  rw [find, find, ← List.head?_filter, ← List.head?_filter, equal]

/-- Under distinct keys the order of the entries does not matter. -/
theorem find_eq_of_perm {first second : List (Key × Value)}
    (perm : first.Perm second) (distinct : (first.map Prod.fst).Nodup) (key : Key) :
    find first key = find second key := by
  have otherDistinct : (second.map Prod.fst).Nodup :=
    (perm.map Prod.fst).nodup_iff.mp distinct
  cases found : find first key with
  | none =>
      have absent := (find_eq_none_iff first key).mp found
      rw [(perm.map Prod.fst).mem_iff] at absent
      exact ((find_eq_none_iff second key).mpr absent).symm
  | some value =>
      exact (find_of_mem otherDistinct
        (perm.mem_iff.mp (mem_of_find found))).symm

/-! ## Stable sort -/

theorem sortByKey_perm (entries : List (Key × Value)) :
    (sortByKey entries).Perm entries :=
  List.perm_insertionSort _ _

theorem sortByKey_pairwise (entries : List (Key × Value)) :
    (sortByKey entries).Pairwise fun left right => left.1 ≤ right.1 :=
  haveI : Std.Total fun left right : Key × Value => left.1 ≤ right.1 :=
    ⟨fun left right => le_total left.1 right.1⟩
  haveI : IsTrans (Key × Value) fun left right => left.1 ≤ right.1 :=
    ⟨fun _ _ _ => le_trans⟩
  List.pairwise_insertionSort _ _

private theorem filter_orderedInsert (entry : Key × Value)
    (entries : List (Key × Value)) (key : Key) :
    (entries.orderedInsert (fun left right => left.1 ≤ right.1) entry).filter
        (fun item => item.1 = key) =
      (entry :: entries).filter (fun item => item.1 = key) := by
  induction entries with
  | nil => rfl
  | cons head tail induction =>
      rw [List.orderedInsert_cons]
      split
      · rfl
      · -- The entry moves behind a head of a strictly smaller key.
        rename_i notBefore
        rw [List.filter_cons, induction]
        by_cases headKey : head.1 = key
        · have different : ¬ entry.1 = key := fun same =>
            notBefore (by rw [same, headKey])
          simp [headKey, different]
        · simp [headKey, List.filter_cons]

/-- Stability: the entries of one key keep their order. -/
theorem filter_sortByKey (entries : List (Key × Value)) (key : Key) :
    (sortByKey entries).filter (fun entry => entry.1 = key) =
      entries.filter (fun entry => entry.1 = key) := by
  induction entries with
  | nil => rfl
  | cons entry rest induction =>
      rw [sortByKey, List.insertionSort_cons, filter_orderedInsert,
        List.filter_cons, List.filter_cons]
      rw [sortByKey] at induction
      rw [induction]

@[simp] theorem find_sortByKey (entries : List (Key × Value)) (key : Key) :
    find (sortByKey entries) key = find entries key :=
  find_eq_of_filter_eq (filter_sortByKey entries key)

theorem find_reverse_sortByKey (entries : List (Key × Value)) (key : Key) :
    find (sortByKey entries).reverse key = find entries.reverse key := by
  apply find_eq_of_filter_eq
  rw [List.filter_reverse, List.filter_reverse, filter_sortByKey]

/-! ## Dropping repeated keys -/

/-- Only entries whose key was kept just before are dropped, so the first
entry of any other key survives. -/
theorem find_dropRepeats (entries : List (Key × Value)) (key : Key) :
    ∀ previous, previous ≠ some key →
      find (dropRepeats previous entries) key = find entries key := by
  induction entries with
  | nil => intro _ _; rfl
  | cons entry rest induction =>
      intro previous fresh
      rcases entry with ⟨head, value⟩
      rw [dropRepeats, find_cons]
      split
      · rename_i repeated
        have different : head ≠ key := fun same => fresh (by rw [repeated, same])
        rw [if_neg different]
        exact induction previous fresh
      · rw [find_cons]
        split
        · rfl
        · rename_i different
          exact induction (some head) fun same => different (Option.some.inj same)

/-- What is kept of a descending list is strictly descending. -/
theorem dropRepeats_strict {entries : List (Key × Value)}
    (descending : entries.Pairwise fun left right => right.1 ≤ left.1) :
    ∀ previous, (∀ key, previous = some key → ∀ entry ∈ entries, entry.1 ≤ key) →
      (dropRepeats previous entries).Pairwise (fun left right => right.1 < left.1) ∧
        ∀ key, previous = some key →
          ∀ entry ∈ dropRepeats previous entries, entry.1 < key := by
  induction entries with
  | nil => intro _ _; simp [dropRepeats]
  | cons head rest induction =>
      intro previous bounded
      rcases List.pairwise_cons.mp descending with ⟨headAbove, restDescending⟩
      rw [dropRepeats]
      split
      · exact induction restDescending previous fun key equal entry member =>
          bounded key equal entry (List.mem_cons_of_mem _ member)
      · rename_i fresh
        rcases induction restDescending (some head.1) (by
          intro key equal entry member
          cases equal
          exact headAbove entry member) with ⟨strict, belowHead⟩
        have below := belowHead head.1 rfl
        refine ⟨List.pairwise_cons.mpr ⟨below, strict⟩, ?_⟩
        intro key equal entry member
        have headBelow : head.1 < key := by
          apply lt_of_le_of_ne (bounded key equal head List.mem_cons_self)
          intro same
          exact fresh (by rw [equal, same])
        rcases List.mem_cons.mp member with same | inRest
        · subst same
          exact headBelow
        · exact (below entry inRest).trans headBelow

/-! ## Ranges -/

theorem find_filter (entries : List (Key × Value)) (keep : Key → Bool) (key : Key) :
    find (entries.filter fun entry => keep entry.1) key =
      if keep key then find entries key else none := by
  induction entries with
  | nil => simp
  | cons entry rest induction =>
      rw [List.filter_cons, find_cons]
      by_cases same : entry.1 = key
      · subst same
        split
        · simp [find_cons]
        · rename_i dropped
          rw [induction, if_neg dropped]
      · split
        · rw [find_cons, if_neg same, induction]
        · rw [induction]

theorem takeWhile_le_eq_filter {entries : List (Key × Value)}
    (sorted : entries.Pairwise fun left right => left.1 < right.1) (upper : Key) :
    entries.takeWhile (fun entry => entry.1 ≤ upper) =
      entries.filter fun entry => entry.1 ≤ upper := by
  induction entries with
  | nil => rfl
  | cons entry rest induction =>
      rcases List.pairwise_cons.mp sorted with ⟨below, restSorted⟩
      by_cases within : entry.1 ≤ upper
      · rw [List.takeWhile_cons_of_pos (by simpa using within),
          List.filter_cons_of_pos (by simpa using within), induction restSorted]
      · rw [List.takeWhile_cons_of_neg (by simpa using within),
          List.filter_cons_of_neg (by simpa using within)]
        symm
        apply List.filter_eq_nil_iff.mpr
        intro other member
        simpa using (not_le.mp within).trans (below other member)

/-- From the first key that is not below `lower` to the last that is not above
`upper`: in a sorted list these are all the keys between. -/
theorem takeWhile_dropWhile_eq_filter {entries : List (Key × Value)}
    (sorted : entries.Pairwise fun left right => left.1 < right.1) (lower upper : Key) :
    (entries.dropWhile fun entry => entry.1 < lower).takeWhile (fun entry => entry.1 ≤ upper) =
      entries.filter fun entry => lower ≤ entry.1 ∧ entry.1 ≤ upper := by
  induction entries with
  | nil => rfl
  | cons entry rest induction =>
      rcases List.pairwise_cons.mp sorted with ⟨below, restSorted⟩
      by_cases early : entry.1 < lower
      · rw [List.dropWhile_cons_of_pos (by simpa using early), induction restSorted,
          List.filter_cons_of_neg (by simp [not_le.mpr early])]
      · rw [List.dropWhile_cons_of_neg (by simpa using early)]
        have allLate : ∀ other ∈ entry :: rest, lower ≤ other.1 := by
          intro other member
          rcases List.mem_cons.mp member with same | later
          · rw [same]
            exact not_lt.mp early
          · exact (not_lt.mp early).trans (below other later).le
        have onlyUpper : (entry :: rest).filter (fun other => lower ≤ other.1 ∧ other.1 ≤ upper) =
            (entry :: rest).filter fun other => other.1 ≤ upper := by
          apply List.filter_congr
          intro other member
          simp [allLate other member]
        rw [onlyUpper]
        exact takeWhile_le_eq_filter sorted upper

/-! ## Ranges of words -/

section Words

variable {Letter : Type u} [LinearOrder Letter]

theorem cons_le_cons_iff {left right : Letter} {leftTail rightTail : List Letter} :
    left :: leftTail ≤ right :: rightTail ↔
      left < right ∨ left = right ∧ leftTail ≤ rightTail := by
  rw [← not_lt, ← not_lt, List.cons_lt_cons_iff]
  rcases lt_trichotomy left right with lt | same | gt
  · simp [lt, lt.asymm, lt.ne']
  · simp [same]
  · simp [gt, gt.asymm, gt.ne']

/-- Between a word and the word followed by a letter are its extensions by
what is not above the letter. -/
theorem between_iff_exists_suffix (word other : List Letter) (letter : Letter) :
    word ≤ other ∧ other ≤ word ++ [letter] ↔
      ∃ suffix, other = word ++ suffix ∧ suffix ≤ [letter] := by
  induction word generalizing other with
  | nil =>
      have least : [] ≤ other := not_lt.mp (List.not_lt_nil other)
      simp [least]
  | cons first word induction =>
      cases other with
      | nil =>
          have below : ¬ first :: word ≤ [] := not_le.mpr (List.nil_lt_cons first word)
          simp [below]
      | cons head tail =>
          rw [List.cons_append, cons_le_cons_iff, cons_le_cons_iff]
          have step := induction tail
          constructor
          · intro between
            rcases between with ⟨lower, upper⟩
            have same : first = head := by
              rcases lower with lt | ⟨same, _⟩
              · rcases upper with gt | ⟨same, _⟩
                · exact absurd lt gt.asymm
                · exact same.symm
              · exact same
            subst same
            have within : word ≤ tail ∧ tail ≤ word ++ [letter] := by
              simpa using And.intro lower upper
            rcases step.mp within with ⟨suffix, shape, small⟩
            exact ⟨suffix, by rw [shape, List.cons_append], small⟩
          · intro extended
            rcases extended with ⟨suffix, shape, small⟩
            rw [List.cons_append, List.cons.injEq] at shape
            rcases shape with ⟨same, shape⟩
            subst same
            have within := step.mpr ⟨suffix, shape, small⟩
            exact ⟨.inr ⟨rfl, within.1⟩, .inr ⟨rfl, within.2⟩⟩

theorem replicate_le {least : Letter} (word : List Letter)
    (bound : ∀ letter ∈ word, least ≤ letter) : List.replicate word.length least ≤ word := by
  induction word with
  | nil => exact le_rfl
  | cons head tail induction =>
      rw [List.length_cons, List.replicate_succ, cons_le_cons_iff]
      have rest := induction fun letter member => bound letter (List.mem_cons_of_mem _ member)
      rcases (bound head List.mem_cons_self).lt_or_eq with lt | same
      · exact .inl lt
      · exact .inr ⟨same, rest⟩

theorem le_replicate {greatest : Letter}
    (word : List Letter) (bound : ∀ letter ∈ word, letter ≤ greatest) :
    word ≤ List.replicate word.length greatest := by
  induction word with
  | nil => exact le_rfl
  | cons head tail induction =>
      rw [List.length_cons, List.replicate_succ, cons_le_cons_iff]
      have rest := induction fun letter member => bound letter (List.mem_cons_of_mem _ member)
      rcases (bound head List.mem_cons_self).lt_or_eq with lt | same
      · exact .inl lt
      · exact .inr ⟨same, rest⟩

end Words

end FunDB.KeyedList
