import Mathlib.Order.MinMax

/-! # Least values of parts

The least value of a list, with a default for the empty list, found in parts. An
empty part contributes the default, which may be less than every value. -/

namespace FunDB.Extremum

universe u

variable {α : Type u} [LinearOrder α] {default least : α} {values : List α}

instance lawfulOrderMin : Std.LawfulOrderMin α where
  min_eq_or := min_choice
  le_min_iff _ _ _ := le_min_iff

/-- The least value, or the default where there is none. -/
def leastOr (default : α) (values : List α) : α :=
  values.min?.getD default

@[simp] theorem leastOr_nil : leastOr default ([] : List α) = default := rfl

theorem leastOr_eq_iff (nonempty : values ≠ []) :
    leastOr default values = least ↔ least ∈ values ∧ ∀ value ∈ values, least ≤ value := by
  rw [← List.min?_eq_some_iff, leastOr]
  cases found : values.min? with
  | none => exact absurd (List.min?_eq_none_iff.mp found) nonempty
  | some value => simp

theorem leastOr_eq_default (all : ∀ value ∈ values, value = default) :
    leastOr default values = default := by
  by_cases empty : values = []
  · rw [empty, leastOr_nil]
  · rcases List.exists_mem_of_ne_nil values empty with ⟨value, member⟩
    apply (leastOr_eq_iff empty).mpr
    exact ⟨all value member ▸ member, fun other isOther => (all other isOther).ge⟩

theorem leastOr_mem (default : α) (nonempty : values ≠ []) : leastOr default values ∈ values :=
  ((leastOr_eq_iff nonempty).mp rfl).1

theorem leastOr_le {value : α} (member : value ∈ values) : leastOr default values ≤ value :=
  ((leastOr_eq_iff (List.ne_nil_of_mem member)).mp rfl).2 value member

/-- The least of the parts' least values is the least of all exactly when the
default of an empty part is not below every value. -/
theorem leastOr_parts_iff (parts : List (List α)) :
    leastOr default (parts.map (leastOr default)) = leastOr default parts.flatten ↔
      ([] ∈ parts → parts.flatten = [] ∨ ∃ value ∈ parts.flatten, value ≤ default) := by
  by_cases empty : parts.flatten = []
  · have defaults : ∀ value ∈ parts.map (leastOr default), value = default := by
      intro value member
      rcases List.mem_map.mp member with ⟨part, isPart, rfl⟩
      rw [List.flatten_eq_nil_iff.mp empty part isPart, leastOr_nil]
    rw [leastOr_eq_default defaults, empty, leastOr_nil]
    simp
  · have inParts : leastOr default parts.flatten ∈ parts.map (leastOr default) := by
      rcases List.mem_flatten.mp (leastOr_mem default empty) with
        ⟨part, isPart, member⟩
      have here : leastOr default part = leastOr default parts.flatten := by
        apply (leastOr_eq_iff (List.ne_nil_of_mem member)).mpr
        refine ⟨member, fun value inPart => ?_⟩
        exact leastOr_le (List.mem_flatten.mpr ⟨part, isPart, inPart⟩)
      exact List.mem_map.mpr ⟨part, isPart, here⟩
    rw [leastOr_eq_iff (List.ne_nil_of_mem inParts), and_iff_right inParts]
    constructor
    · intro below isEmpty
      refine .inr ⟨leastOr default parts.flatten, leastOr_mem default empty, ?_⟩
      exact below default (List.mem_map.mpr ⟨[], isEmpty, leastOr_nil⟩)
    · intro harmless value member
      rcases List.mem_map.mp member with ⟨part, isPart, rfl⟩
      by_cases nothing : part = []
      · subst nothing
        rcases harmless isPart with none | ⟨value, isValue, low⟩
        · exact absurd none empty
        · exact (leastOr_le isValue).trans low
      · exact leastOr_le (List.mem_flatten.mpr ⟨part, isPart, leastOr_mem default nothing⟩)

/-! ## A running extremum -/

section Running

universe v

variable {Value : Type v} (rank : Value → α) (kept : Option Value) (value : Value)

/-- What is kept after a value was seen: the value, if it is the first one or
ranks below what was kept. -/
def lowered : Option Value :=
  if kept.all fun held => rank value < rank held then some value else kept

theorem exists_lowered :
    ∃ low, lowered rank kept value = some low ∧ rank low ≤ rank value ∧
      ∀ held, kept = some held → rank low ≤ rank held := by
  cases kept with
  | none => exact ⟨value, rfl, le_rfl, fun _ none => by cases none⟩
  | some held =>
      rw [lowered, Option.all_some]
      by_cases below : rank value < rank held
      · refine ⟨value, if_pos (decide_eq_true below), le_rfl, fun other same => ?_⟩
        cases same
        exact below.le
      · refine ⟨held, if_neg (by simpa using below), not_lt.mp below, fun other same => ?_⟩
        cases same
        exact le_rfl

end Running

end FunDB.Extremum
