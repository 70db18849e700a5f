import Mathlib.Algebra.Group.Nat.Defs
import Mathlib.Data.List.Basic

/-! # Checked accesses

Arithmetic and list accesses that panic outside their range, in programs that can
also refuse their input. A program whose loops keep a rectangle of values
rectangular never leaves the range. -/

namespace FunDB.CheckedAccess

universe u v

inductive Panic where
  | divisionByZero
  | capacityOverflow
  | outOfRange
deriving DecidableEq, Repr

/-- How a program fails. `refused` is an error value that it returns. -/
inductive Failure (Error : Type u) where
  | refused (error : Error)
  | panicked (panic : Panic)
deriving DecidableEq, Repr

abbrev Checked (Error : Type u) (Value : Type v) := Except (Failure Error) Value

variable {Error : Type u} {Value Result : Type v}

def quotient (dividend divisor : Nat) : Checked Error Nat :=
  if divisor = 0 then .error (.panicked .divisionByZero) else .ok (dividend / divisor)

def remainder (dividend divisor : Nat) : Checked Error Nat :=
  if divisor = 0 then .error (.panicked .divisionByZero) else .ok (dividend % divisor)

/-- Room for some elements of some size, below `2 ^ 63` bytes. -/
def withCapacity (size count : Nat) : Checked Error PUnit :=
  if size * count < 2 ^ 63 then .ok ⟨⟩ else .error (.panicked .capacityOverflow)

/-- The values from one position up to another. -/
def slice (values : List Value) (start stop : Nat) : Checked Error (List Value) :=
  if start ≤ stop ∧ stop ≤ values.length then .ok ((values.take stop).drop start)
  else .error (.panicked .outOfRange)

def elementAt (values : List Value) (position : Nat) : Checked Error Value :=
  match values[position]? with
  | some value => .ok value
  | none => .error (.panicked .outOfRange)

def replaceAt (values : List Value) (position : Nat) (value : Value) :
    Checked Error (List Value) :=
  if position < values.length then .ok (values.set position value)
  else .error (.panicked .outOfRange)

/-! ## Accesses in range -/

theorem slice_eq_ok (Error : Type u) {values : List Value} {start stop : Nat}
    (ordered : start ≤ stop) (inside : stop ≤ values.length) :
    (slice values start stop : Checked Error (List Value)) = .ok ((values.take stop).drop start) :=
  if_pos ⟨ordered, inside⟩

theorem slice_eq_ok_iff {values part : List Value} {start stop : Nat} :
    (slice values start stop : Checked Error (List Value)) = .ok part ↔
      (start ≤ stop ∧ stop ≤ values.length) ∧ (values.take stop).drop start = part := by
  by_cases inside : start ≤ stop ∧ stop ≤ values.length <;> simp [slice, inside]

theorem slice_eq_error {values : List Value} {start stop : Nat} {reason : Failure Error}
    (failed : slice values start stop = .error reason) : reason = .panicked .outOfRange := by
  unfold slice at failed
  split at failed
  · cases failed
  · cases failed
    rfl

theorem length_of_slice {values part : List Value} {start stop : Nat}
    (sliced : (slice values start stop : Checked Error (List Value)) = .ok part) :
    part.length = stop - start := by
  rcases slice_eq_ok_iff.mp sliced with ⟨⟨_, inside⟩, same⟩
  rw [← same, List.length_drop, List.length_take, Nat.min_eq_left inside]

theorem exists_elementAt (Error : Type u) {values : List Value} {position : Nat}
    (inside : position < values.length) :
    ∃ value ∈ values, (elementAt values position : Checked Error Value) = .ok value := by
  refine ⟨values[position], List.getElem_mem inside, ?_⟩
  rw [elementAt, List.getElem?_eq_getElem inside]

theorem replaceAt_eq_ok {values : List Value} {position : Nat}
    (inside : position < values.length) (value : Value) :
    (replaceAt values position value : Checked Error (List Value)) =
      .ok (values.set position value) :=
  if_pos inside

/-! ## Loops -/

/-- A loop goes through and keeps what each of its steps keeps. -/
theorem exists_foldlM {State : Type v} (step : State → Value → Checked Error State)
    (Kept : State → Prop) (values : List Value) {start : State} (initial : Kept start)
    (taken : ∀ value ∈ values, ∀ state, Kept state →
      ∃ after, step state value = .ok after ∧ Kept after) :
    ∃ after, values.foldlM step start = .ok after ∧ Kept after := by
  induction values generalizing start with
  | nil => exact ⟨start, rfl, initial⟩
  | cons value values induction =>
      rcases taken value List.mem_cons_self start initial with ⟨next, first, kept⟩
      rcases induction kept fun other member =>
        taken other (List.mem_cons_of_mem _ member) with ⟨after, rest, result⟩
      refine ⟨after, ?_, result⟩
      rw [List.foldlM_cons, first]
      exact rest

/-- A pass over some values goes through if it does for each of them, and its results
have what each result has. -/
theorem exists_mapM (produce : Value → Checked Error Result) (Kept : Result → Prop)
    (values : List Value)
    (taken : ∀ value ∈ values, ∃ result, produce value = .ok result ∧ Kept result) :
    ∃ results, values.mapM produce = .ok results ∧ results.length = values.length ∧
      ∀ result ∈ results, Kept result := by
  induction values with
  | nil => exact ⟨[], rfl, rfl, List.forall_mem_nil _⟩
  | cons value values induction =>
      rcases taken value List.mem_cons_self with ⟨result, first, kept⟩
      rcases induction fun other member => taken other (List.mem_cons_of_mem _ member) with
        ⟨results, rest, sameLength, all⟩
      refine ⟨result :: results, ?_, congrArg Nat.succ sameLength, ?_⟩
      · rw [List.mapM_cons, first]
        exact congrArg (· >>= fun results => pure (result :: results)) rest
      · exact List.forall_mem_cons.mpr ⟨kept, all⟩

/-- A pass that fails nowhere but for one reason stops there for it. -/
theorem mapM_eq_error_of_mem (produce : Value → Checked Error Result)
    {failure : Failure Error} {values : List Value} {value : Value} (member : value ∈ values)
    (only : ∀ other ∈ values, ∀ reason, produce other = .error reason → reason = failure)
    (fails : produce value = .error failure) : values.mapM produce = .error failure := by
  induction values with
  | nil => cases member
  | cons head values induction =>
      rw [List.mapM_cons]
      cases first : produce head with
      | error reason =>
          rw [only head List.mem_cons_self reason first]
          rfl
      | ok result =>
          rcases List.mem_cons.mp member with same | later
          · rw [same, first] at fails
            cases fails
          · have rest := induction later fun other inside =>
              only other (List.mem_cons_of_mem _ inside)
            exact congrArg (· >>= fun results => pure (result :: results)) rest

/-! ## Rectangles -/

structure IsGrid (rows columns : Nat) (grid : List (List Value)) : Prop where
  length_eq : grid.length = rows
  row_length : ∀ row ∈ grid, row.length = columns

namespace IsGrid

variable {rows columns row column : Nat} {grid : List (List Value)}

theorem replicate (value : Value) :
    IsGrid rows columns (List.replicate rows (List.replicate columns value)) where
  length_eq := List.length_replicate
  row_length row member := by
    rw [List.eq_of_mem_replicate member, List.length_replicate]

theorem set (isGrid : IsGrid rows columns grid) {values : List Value}
    (sameLength : values.length = columns) : IsGrid rows columns (grid.set row values) where
  length_eq := by rw [List.length_set, isGrid.length_eq]
  row_length other member := by
    rcases List.mem_or_eq_of_mem_set member with earlier | same
    · exact isGrid.row_length other earlier
    · rw [same, sameLength]

theorem exists_row (Error : Type u) (isGrid : IsGrid rows columns grid) (inside : row < rows) :
    ∃ values, (elementAt grid row : Checked Error (List Value)) = .ok values ∧
      values.length = columns := by
  rcases exists_elementAt Error (isGrid.length_eq ▸ inside) with ⟨values, member, found⟩
  exact ⟨values, found, isGrid.row_length values member⟩

end IsGrid

/-- A value in a row, replaced by what becomes of it. -/
def updateAt (grid : List (List Value)) (row column : Nat) (update : Value → Value) :
    Checked Error (List (List Value)) := do
  let values ← elementAt grid row
  let value ← elementAt values column
  return grid.set row (values.set column (update value))

theorem IsGrid.exists_updateAt (Error : Type u) {rows columns row column : Nat}
    {grid : List (List Value)} (isGrid : IsGrid rows columns grid) (rowInside : row < rows)
    (columnInside : column < columns) (update : Value → Value) :
    ∃ after, (updateAt grid row column update : Checked Error (List (List Value))) = .ok after ∧
      IsGrid rows columns after := by
  rcases isGrid.exists_row Error rowInside with ⟨values, found, length⟩
  rcases exists_elementAt Error (length ▸ columnInside) with ⟨value, _, present⟩
  refine ⟨grid.set row (values.set column (update value)), ?_, ?_⟩
  · rw [updateAt, found]
    change (elementAt values column >>= _) = _
    rw [present]
    rfl
  · exact isGrid.set (by rw [List.length_set, length])

end FunDB.CheckedAccess
