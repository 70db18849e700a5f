import Mathlib.Data.List.Basic
import Mathlib.Data.List.Flatten

/-! # Readers that can fail

A reader takes a value from the front of its input, or fails. -/

namespace FunDB.Reading

universe u v

/-! ## Steps that can fail -/

section Steps

variable {Error : Type u} {Value Result : Type v}

theorem bind_eq_error_iff {run : Except Error Value} {next : Value → Except Error Result}
    {error : Error} :
    (run >>= next) = .error error ↔
      run = .error error ∨ ∃ value, run = .ok value ∧ next value = .error error := by
  cases run with
  | error other => simp [bind, Except.bind]
  | ok value => simp [bind, Except.bind]

theorem bind_eq_error_iff_of_ne {run : Except Error Value}
    {next : Value → Except Error Result} {error : Error} (never : run ≠ .error error) :
    (run >>= next) = .error error ↔ ∃ value, run = .ok value ∧ next value = .error error := by
  rw [bind_eq_error_iff]
  exact or_iff_right never

theorem bind_eq_ok_iff {run : Except Error Value} {next : Value → Except Error Result}
    {result : Result} :
    (run >>= next) = .ok result ↔ ∃ value, run = .ok value ∧ next value = .ok result := by
  cases run with
  | error other => simp [bind, Except.bind]
  | ok value => simp [bind, Except.bind]

end Steps

/-! ## Values one after another -/

section Many

variable {Error : Type u} {Symbol Value : Type v}

/-- Read as many values as are asked for. The reader also gets the position
of the value, which its errors may name. -/
def readEach (read : Nat → List Symbol → Except Error (Value × List Symbol)) :
    Nat → Nat → List Symbol → Except Error (List Value × List Symbol)
  | 0, _, input => .ok ([], input)
  | count + 1, index, input => do
      let (value, input) ← read index input
      let (values, input) ← readEach read count (index + 1) input
      return (value :: values, input)

/-- The reader takes what was written and nothing else, at every position.
Values that do not fit cannot be written. -/
def Exact (read : Nat → List Symbol → Except Error (Value × List Symbol))
    (Fits : Value → Prop) (write : Value → List Symbol) : Prop :=
  ∀ index input value rest,
    read index input = .ok (value, rest) ↔ Fits value ∧ input = write value ++ rest

variable {read : Nat → List Symbol → Except Error (Value × List Symbol)}

/-- What no value fails with, a list does not fail with. -/
theorem readEach_ne_error {error : Error} (never : ∀ index input, read index input ≠ .error error)
    (count index : Nat) (input : List Symbol) : readEach read count index input ≠ .error error := by
  induction count generalizing index input with
  | zero => nofun
  | succ count induction =>
      intro failed
      rw [readEach] at failed
      rcases bind_eq_error_iff.mp failed with first | ⟨taken, _, failed⟩
      · exact never index input first
      · rcases bind_eq_error_iff.mp failed with later | ⟨_, _, failed⟩
        · exact induction (index + 1) taken.2 later
        · cases failed

variable {Fits : Value → Prop} {write : Value → List Symbol}

theorem Exact.readEach_eq_ok_iff (exact : Exact read Fits write) {count index : Nat}
    {input : List Symbol} {values : List Value} {rest : List Symbol} :
    readEach read count index input = .ok (values, rest) ↔
      values.length = count ∧ (∀ value ∈ values, Fits value) ∧
        input = values.flatMap write ++ rest := by
  induction count generalizing index input values with
  | zero =>
      rw [readEach, Except.ok.injEq, Prod.mk.injEq, List.length_eq_zero_iff]
      constructor
      · intro given
        rcases given with ⟨rfl, rfl⟩
        exact ⟨rfl, nofun, rfl⟩
      · intro given
        rcases given with ⟨rfl, _, rfl⟩
        exact ⟨rfl, rfl⟩
  | succ count induction =>
      rw [readEach]
      constructor
      · intro taken
        rcases bind_eq_ok_iff.mp taken with ⟨⟨value, behind⟩, first, taken⟩
        rcases bind_eq_ok_iff.mp taken with ⟨⟨others, last⟩, later, taken⟩
        cases taken
        rcases (exact index input value behind).mp first with ⟨fits, shape⟩
        rcases induction.mp later with ⟨length, othersFit, behindShape⟩
        refine ⟨congrArg Nat.succ length, List.forall_mem_cons.mpr ⟨fits, othersFit⟩, ?_⟩
        rw [shape, behindShape, List.flatMap_cons, List.append_assoc]
      · intro given
        rcases given with ⟨length, fit, shape⟩
        cases values with
        | nil => cases length
        | cons value others =>
            rcases List.forall_mem_cons.mp fit with ⟨fits, othersFit⟩
            rw [List.flatMap_cons, List.append_assoc] at shape
            have first := (exact index input value (others.flatMap write ++ rest)).mpr
              ⟨fits, shape⟩
            have later : readEach read count (index + 1) (others.flatMap write ++ rest) =
                .ok (others, rest) :=
              induction.mpr ⟨Nat.succ.inj length, othersFit, rfl⟩
            refine bind_eq_ok_iff.mpr ⟨_, first, ?_⟩
            exact bind_eq_ok_iff.mpr ⟨_, later, rfl⟩

end Many

end FunDB.Reading
