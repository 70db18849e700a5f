import Mathlib.Algebra.Order.Ring.Int
import Mathlib.Data.List.Basic

/-! # Groups in parentheses

How many groups a text opens at its outermost level. -/

namespace FunDB.Parentheses

/-- The outermost groups opened so far, and how many parentheses are open. -/
structure Groups where
  opened : Nat
  level : Int
deriving DecidableEq

namespace Groups

def start : Groups := ⟨0, 0⟩

def read (groups : Groups) (char : Char) : Groups :=
  if char = '(' then
    { opened := if groups.level = 0 then groups.opened + 1 else groups.opened
      level := groups.level + 1 }
  else if char = ')' then { groups with level := groups.level - 1 }
  else groups

def readAll (groups : Groups) (text : List Char) : Groups := text.foldl read groups

@[simp] theorem readAll_nil (groups : Groups) : groups.readAll [] = groups := rfl

@[simp] theorem readAll_cons (groups : Groups) (char : Char) (text : List Char) :
    groups.readAll (char :: text) = (groups.read char).readAll text := rfl

theorem readAll_append (groups : Groups) (left right : List Char) :
    groups.readAll (left ++ right) = (groups.readAll left).readAll right :=
  List.foldl_append

theorem read_inside {groups : Groups} (inside : groups.level ≠ 0) :
    groups.read '(' = { groups with level := groups.level + 1 } := by
  rw [read, if_pos rfl, if_neg inside]

theorem read_open (opened depth : Nat) :
    read ⟨opened, depth⟩ '(' = ⟨if depth = 0 then opened + 1 else opened, (depth + 1 : Nat)⟩ := by
  rw [read, if_pos rfl]
  by_cases outside : depth = 0
  · subst outside
    rfl
  · have inside : (depth : Int) ≠ 0 := by omega
    rw [if_neg inside, if_neg outside]
    rfl

theorem read_close (groups : Groups) :
    groups.read ')' = { groups with level := groups.level - 1 } := rfl

end Groups

/-! ## The parentheses alone -/

def isParenthesis (char : Char) : Bool := char == '(' || char == ')'

def parentheses (text : List Char) : List Char := text.filter isParenthesis

theorem Groups.readAll_parentheses (groups : Groups) (text : List Char) :
    groups.readAll (parentheses text) = groups.readAll text := by
  induction text generalizing groups with
  | nil => rfl
  | cons char text induction =>
      rw [parentheses, List.filter_cons]
      split
      · exact induction (groups.read char)
      · next other =>
          have passed : groups.read char = groups := by
            simp only [isParenthesis, Bool.or_eq_true, beq_iff_eq, not_or] at other
            rw [Groups.read, if_neg other.1, if_neg other.2]
          rw [Groups.readAll_cons, passed]
          exact induction groups

/-! ## Counts -/

/-- How many groups a text opens at its outermost level, and one at least. -/
def groupCount (text : List Char) : Nat := max (Groups.start.readAll text).opened 1

theorem groupCount_parentheses (text : List Char) :
    groupCount (parentheses text) = groupCount text := by
  rw [groupCount, groupCount, Groups.readAll_parentheses]

/-! ## Texts that leave the groups alone -/

/-- How many parentheses a text leaves open inside of a group, unless it closes it. -/
def within : Nat → List Char → Option Nat
  | depth, [] => some depth
  | depth, char :: text =>
      if char = '(' then within (depth + 1) text
      else if char = ')' then if depth ≤ 1 then none else within (depth - 1) text
      else within depth text

/-- Outside of all groups a text may have no parentheses at all. -/
def hidden (level depth : Nat) (text : List Char) : Option Nat :=
  if level = 0 then if parentheses text = [] then some depth else none
  else within depth text

theorem readAll_within {depth after : Nat} {text : List Char} (inside : 0 < depth)
    (stays : within depth text = some after) (opened : Nat) :
    0 < after ∧ Groups.readAll ⟨opened, depth⟩ text = ⟨opened, after⟩ := by
  induction text generalizing depth with
  | nil =>
      cases stays
      exact ⟨inside, rfl⟩
  | cons char text induction =>
      rw [within] at stays
      rw [Groups.readAll_cons]
      split at stays
      · next opens =>
          have deep : (depth : Int) ≠ 0 := by omega
          rw [opens, Groups.read_inside deep]
          exact induction (Nat.succ_pos depth) stays
      · next other =>
          split at stays
          · next closes =>
              split at stays
              · cases stays
              · next deep =>
                  have level : (depth : Int) - 1 = (depth - 1 : Nat) := by omega
                  rw [closes, Groups.read_close, level]
                  exact induction (by omega) stays
          · next plain =>
              rw [Groups.read, if_neg other, if_neg plain]
              exact induction inside stays

theorem readAll_hidden {level depth after : Nat} {text : List Char}
    (aligned : depth = 0 ↔ level = 0) (found : hidden level depth text = some after)
    (opened : Nat) :
    (after = 0 ↔ level = 0) ∧ Groups.readAll ⟨opened, depth⟩ text = ⟨opened, after⟩ := by
  rw [hidden] at found
  split at found
  · split at found
    · next silent =>
        cases found
        refine ⟨aligned, ?_⟩
        rw [← Groups.readAll_parentheses, silent, Groups.readAll_nil]
    · cases found
  · next inside =>
      rcases readAll_within (by omega) found opened with ⟨still, moved⟩
      exact ⟨by omega, moved⟩

end FunDB.Parentheses
