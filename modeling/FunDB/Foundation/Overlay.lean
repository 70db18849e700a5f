import Mathlib.Data.List.Basic

/-! # Overlaid sources

A store that keeps its data in several sources reads a key from the newest
source that holds it. Sources are listed oldest first. -/

namespace FunDB.Overlay

universe u v w x

variable {Source : Type u} {Key : Type v} {Value : Type w}

/-- The value that the newest source holding `key` has for it. -/
def newest (read : Source → Key → Option Value) (sources : List Source)
    (key : Key) : Option Value :=
  sources.reverse.findSome? fun source => read source key

section Lookup

variable (read : Source → Key → Option Value)

@[simp] theorem newest_nil (key : Key) : newest read [] key = none := rfl

@[simp] theorem newest_append (older younger : List Source) (key : Key) :
    newest read (older ++ younger) key =
      (newest read younger key).or (newest read older key) := by
  simp [newest, List.findSome?_append]

@[simp] theorem newest_singleton (source : Source) (key : Key) :
    newest read [source] key = read source key := by
  cases held : read source key <;> simp [newest, held]

theorem newest_cons (source : Source) (younger : List Source) (key : Key) :
    newest read (source :: younger) key =
      (newest read younger key).or (read source key) := by
  rw [← List.singleton_append, newest_append, newest_singleton]

/-- Whatever is found is held by one of the sources. -/
theorem exists_of_newest_eq_some {sources : List Source} {key : Key}
    {value : Value} (found : newest read sources key = some value) :
    ∃ source ∈ sources, read source key = some value := by
  rcases List.exists_of_findSome?_eq_some found with ⟨source, member, held⟩
  exact ⟨source, List.mem_reverse.mp member, held⟩

theorem newest_eq_none_iff (sources : List Source) (key : Key) :
    newest read sources key = none ↔ ∀ source ∈ sources, read source key = none := by
  simp [newest, List.findSome?_eq_none_iff]

/-- The value is that of the last source that holds the key. -/
theorem newest_eq_some_iff (sources : List Source) (key : Key) (value : Value) :
    newest read sources key = some value ↔
      ∃ older source younger, sources = older ++ source :: younger ∧
        read source key = some value ∧ ∀ later ∈ younger, read later key = none := by
  constructor
  · intro found
    induction sources with
    | nil => cases found
    | cons first rest induction =>
        rw [newest_cons] at found
        rcases Option.or_eq_some_iff.mp found with younger | ⟨noneYounger, held⟩
        · rcases induction younger with ⟨older, source, later, rfl, held, hidden⟩
          exact ⟨first :: older, source, later, rfl, held, hidden⟩
        · exact ⟨[], first, rest, rfl, held, (newest_eq_none_iff read rest key).mp noneYounger⟩
  · intro last
    rcases last with ⟨older, source, younger, rfl, held, hidden⟩
    rw [newest_append, newest_cons, (newest_eq_none_iff read younger key).mpr hidden, held]
    rfl

theorem newest_congr {other : Source → Key → Option Value}
    {sources : List Source} {key : Key}
    (equal : ∀ source ∈ sources, read source key = other source key) :
    newest read sources key = newest other sources key := by
  induction sources with
  | nil => rfl
  | cons source younger induction =>
      rw [newest_cons, newest_cons, equal source List.mem_cons_self,
        induction fun item member => equal item (List.mem_cons_of_mem _ member)]

theorem newest_map {Origin : Type x} (source : Origin → Source) (origins : List Origin)
    (key : Key) :
    newest read (origins.map source) key =
      newest (fun origin key => read (source origin) key) origins key := by
  rw [newest, newest, ← List.map_reverse, List.findSome?_map]
  rfl

/-- Reading around the source at `position`. -/
theorem newest_split {sources : List Source} {position : Nat} {source : Source}
    (here : sources[position]? = some source) (key : Key) :
    newest read sources key =
      ((newest read (sources.drop (position + 1)) key).or
        (read source key)).or (newest read (sources.take position) key) := by
  rcases List.getElem?_eq_some_iff.mp here with ⟨within, atPosition⟩
  have split : sources =
      sources.take position ++ [source] ++ sources.drop (position + 1) := by
    rw [← atPosition, List.take_append_getElem, List.take_append_drop]
  calc newest read sources key
      = newest read (sources.take position ++ [source] ++
          sources.drop (position + 1)) key := by rw [← split]
    _ = _ := by simp [newest_cons, Option.or_assoc]

theorem newest_eraseIdx (sources : List Source) (position : Nat) (key : Key) :
    newest read (sources.eraseIdx position) key =
      (newest read (sources.drop (position + 1)) key).or
        (newest read (sources.take position) key) := by
  rw [List.eraseIdx_eq_take_drop_succ, newest_append]

end Lookup

/-! ## Moving sources -/

/-- A source between a front and what lies behind changes no answer exactly when
each of its values that the front does not hide is also the answer behind. -/
theorem between_eq_iff (front source behind : Option Value) :
    front.or (source.or behind) = front.or behind ↔
      (front = none → ∀ value, source = some value → behind = some value) := by
  cases front <;> cases source <;> simp [eq_comm]

/-- Behind a front that hides both, which of two answers is preferred matters
exactly when both exist and differ as far as the reader can see. -/
theorem shown_swap_iff {Shown : Type x} (shown : Value → Option Shown)
    (front first second : Option Value) :
    (front.or (first.or second)).bind shown = (front.or (second.or first)).bind shown ↔
      (front = none → ∀ left right, first = some left → second = some right →
        shown left = shown right) := by
  cases front <;> cases first <;> cases second <;> simp

end FunDB.Overlay
