import Mathlib.Data.List.Basic
import Mathlib.Data.List.Nodup

/-! # Laps around a list

A walk from place to place, with the last place followed by the first, that ends
where it started. It meets every other place once. -/

namespace FunDB.Laps

universe u

variable {Entry : Type u}

/-! ## Places -/

def nextPlace {count : Nat} (place : Fin count) : Fin count :=
  ⟨(place + 1) % count, Nat.mod_lt _ (Nat.lt_of_le_of_lt (Nat.zero_le place) place.isLt)⟩

/-- How many places a walk still has to pass before it is back at the start. -/
def remaining {count : Nat} (start place : Fin count) : Nat :=
  if place ≤ start then start - place else start + count - place

theorem nextPlace_cases {count : Nat} (place : Fin count) :
    (place + 1 < count ∧ (nextPlace place : Nat) = place + 1) ∨
      ((place : Nat) + 1 = count ∧ (nextPlace place : Nat) = 0) := by
  have bound := place.isLt
  rcases Nat.lt_or_ge (place + 1) count with inside | last
  · exact .inl ⟨inside, Nat.mod_eq_of_lt inside⟩
  · have whole : (place : Nat) + 1 = count := by omega
    refine .inr ⟨whole, ?_⟩
    rw [nextPlace]
    simp only [whole, Nat.mod_self]

theorem remaining_nextPlace_lt {count : Nat} {start place : Fin count}
    (away : place ≠ start) : remaining start (nextPlace place) < remaining start place := by
  have different : (place : Nat) ≠ start := fun same => away (Fin.ext same)
  have startBound := start.isLt
  unfold remaining
  rcases nextPlace_cases place with ⟨inside, next⟩ | ⟨last, next⟩
  · split <;> split <;> simp only [Fin.le_def] at * <;> omega
  · split <;> split <;> simp only [Fin.le_def] at * <;> omega

/-! ## Laps -/

/-- The entries from a place to the start, the start excluded. -/
def lap (ring : List Entry) (start place : Fin ring.length) : List Entry :=
  if place ≤ start then (ring.take start).drop place else ring.drop place ++ ring.take start

variable (ring : List Entry) (start : Fin ring.length)

@[simp] theorem lap_self : lap ring start start = [] := by
  rw [lap, if_pos (Fin.le_refl start), List.drop_eq_nil_iff]
  exact List.length_take_le _ _

theorem lap_of_ne {place : Fin ring.length} (away : place ≠ start) :
    lap ring start place = ring[place] :: lap ring start (nextPlace place) := by
  have different : (place : Nat) ≠ start := fun same => away (Fin.ext same)
  have bound := place.isLt
  unfold lap
  rcases nextPlace_cases place with ⟨inside, next⟩ | ⟨last, next⟩
  · by_cases before : place ≤ start
    · have nextBefore : nextPlace place ≤ start := by
        simp only [Fin.le_def] at before ⊢
        omega
      have within : (place : Nat) < (ring.take start).length := by
        rw [List.length_take]
        simp only [Fin.le_def] at before
        omega
      rw [if_pos before, if_pos nextBefore, next, List.drop_eq_getElem_cons within,
        List.getElem_take]
      rfl
    · have nextBehind : ¬ nextPlace place ≤ start := by
        simp only [Fin.le_def] at before ⊢
        omega
      rw [if_neg before, if_neg nextBehind, next, List.drop_eq_getElem_cons bound]
      rfl
  · have behind : ¬ place ≤ start := by
      have startBound := start.isLt
      simp only [Fin.le_def]
      omega
    have nextBefore : nextPlace place ≤ start := by
      simp only [Fin.le_def]
      omega
    rw [if_neg behind, if_pos nextBefore, next, List.drop_eq_getElem_cons bound, last,
      List.drop_length, List.drop_zero]
    rfl

/-- A whole lap: what stands behind the start, then what stands before it. -/
theorem lap_nextPlace :
    lap ring start (nextPlace start) = ring.drop (start + 1) ++ ring.take start := by
  unfold lap
  rcases nextPlace_cases start with ⟨inside, next⟩ | ⟨last, next⟩
  · have behind : ¬ nextPlace start ≤ start := by
      simp only [Fin.le_def]
      omega
    rw [if_neg behind, next]
  · have before : nextPlace start ≤ start := by
      simp only [Fin.le_def]
      omega
    rw [if_pos before, next, last, List.drop_length, List.drop_zero, List.nil_append]

/-! ## First appearances -/

section FirstAppearances

variable {Value : Type u} [DecidableEq Value]

/-- The values that were not seen before, each where it appears first. -/
def firstSeen (seen : Value → Prop) [DecidablePred seen] (values : List Value) : List Value :=
  (values.filter fun value => ¬ seen value).eraseDups

theorem nodup_eraseDups (values : List Value) : values.eraseDups.Nodup := by
  induction size : values.length using Nat.strongRecOn generalizing values with
  | _ size induction =>
    cases values with
    | nil => exact List.nodup_nil
    | cons value values =>
        rw [List.eraseDups_cons, List.nodup_cons]
        constructor
        · simp [List.mem_eraseDups]
        · have shorter := List.length_filter_le (fun other => !other == value) values
          rw [List.length_cons] at size
          exact induction _ (by omega) _ rfl

variable {seen : Value → Prop} [DecidablePred seen] {values : List Value} {value : Value}

theorem nodup_firstSeen : (firstSeen seen values).Nodup := nodup_eraseDups _

@[simp] theorem mem_firstSeen : value ∈ firstSeen seen values ↔ value ∈ values ∧ ¬ seen value := by
  simp [firstSeen, List.mem_eraseDups]

@[simp] theorem firstSeen_nil : firstSeen seen [] = [] := rfl

theorem firstSeen_cons_of_seen (isSeen : seen value) :
    firstSeen seen (value :: values) = firstSeen seen values := by
  rw [firstSeen, List.filter_cons_of_neg (by simpa using isSeen), firstSeen]

theorem firstSeen_cons_of_new (isNew : ¬ seen value) {more : Value → Prop} [DecidablePred more]
    (grown : ∀ other, more other ↔ other = value ∨ seen other) :
    firstSeen seen (value :: values) = value :: firstSeen more values := by
  rw [firstSeen, List.filter_cons_of_pos (by simpa using isNew), List.eraseDups_cons, firstSeen,
    List.filter_filter]
  congr 2
  apply List.filter_congr
  intro other _
  rw [Bool.eq_iff_iff]
  simp [grown]

end FirstAppearances

end FunDB.Laps
