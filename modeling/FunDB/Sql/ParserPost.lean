import FunDB.Sql.ParseStatement

/-! # What parsed statements satisfy

A parsing function ensures a property when every value that it returns has it. -/

namespace FunDB.Sql

open Ast

namespace Parse

variable {α β σ : Type}

structure Ensures (parse : Parse α) (post : α → Prop) : Prop where
  of_ok : ∀ parser value after, parse parser = .ok value after → post value

namespace Ensures

variable {post : β → Prop}

theorem pure {post : α → Prop} {value : α} (holds : post value) :
    Ensures (Pure.pure value) post := by
  constructor
  intro parser returned after ran
  rw [pure_apply] at ran
  cases ran
  exact holds

theorem fail {post : α → Prop} (message : ParseMessage) : Ensures (Parse.fail message) post := by
  constructor
  intro parser value after ran
  cases ran

theorem mono {stronger : β → Prop} {parse : Parse β} (ensured : Ensures parse stronger)
    (implied : ∀ value, stronger value → post value) : Ensures parse post :=
  ⟨fun parser value after ran => implied value (ensured.of_ok parser value after ran)⟩

theorem bindWith {first : Parse α} {next : α → Parse β} {middle : α → Prop}
    (ensured : Ensures first middle)
    (rest : ∀ value, middle value → Ensures (next value) post) : Ensures (first >>= next) post := by
  constructor
  intro parser returned after ran
  rcases exists_of_bind_ok ran with ⟨value, between, started, finished⟩
  exact (rest value (ensured.of_ok parser value between started)).of_ok between returned after
    finished

theorem bind {first : Parse α} {next : α → Parse β}
    (rest : ∀ value, Ensures (next value) post) : Ensures (first >>= next) post := by
  have anything : Ensures first fun _ => True := ⟨fun _ _ _ _ => trivial⟩
  exact bindWith anything fun value _ => rest value

theorem loop {step : σ → Parse (Option σ)} {invariant : σ → Prop}
    (keeps : ∀ state, invariant state →
      Ensures (step state) fun next => ∀ after, next = some after → invariant after)
    {start : σ} (holds : invariant start) : Ensures (Parse.loop step start) invariant := by
  have fuelled : ∀ fuel state, invariant state → Ensures (loopWith step fuel state) invariant := by
    intro fuel
    induction fuel with
    | zero =>
        intro state _
        constructor
        intro parser value after ran
        cases ran
    | succ fuel induction =>
        intro state held
        rw [loopWith]
        refine bindWith (keeps state held) fun next kept => ?_
        cases next with
        | none => exact pure held
        | some state => exact induction state (kept state rfl)
  constructor
  intro parser
  exact (fuelled parser.size start holds).of_ok parser

end Ensures

theorem commaList_ne_nil (item : Parse α) (closing : Option Token) :
    Ensures (commaList item closing) (· ≠ []) := by
  apply Ensures.bind
  intro first
  refine Ensures.loop ?_ (List.cons_ne_nil first [])
  intro items _
  apply Ensures.bind
  intro comma
  split
  · apply Ensures.bind
    intro token
    split
    · exact .pure fun after none => nomatch none
    · apply Ensures.bind
      intro value
      apply Ensures.pure
      intro after same
      cases same
      simp
  · exact .pure fun after none => nomatch none

/-! ## Inserted rows -/

def HasRows : Statement → Prop
  | .insert stmt => stmt.values ≠ []
  | _ => True

theorem parseInsert_hasRows (nested : Nested) :
    Ensures (parseInsert nested) fun stmt => stmt.values ≠ [] := by
  apply Ensures.bind
  intro _
  apply Ensures.bind
  intro _
  apply Ensures.bind
  intro table
  apply Ensures.bind
  intro columns
  apply Ensures.bind
  intro _
  apply Ensures.bindWith (commaList_ne_nil _ _)
  intro values rows
  exact .pure rows

/-! ## Other statements -/

def isInsertion : Statement → Bool
  | .insert _ => true
  | _ => false

def NotInsert (stmt : Statement) : Prop := isInsertion stmt = false

theorem hasRows_of_notInsert {stmt : Statement} (other : NotInsert stmt) : HasRows stmt := by
  unfold HasRows
  split
  · cases other
  · trivial

theorem parseSelectStmt_notInsert (nested : Nested) :
    Ensures (parseSelectStmt nested) NotInsert := by
  apply Ensures.bind
  intro _
  apply Ensures.bind
  intro distinct
  apply Ensures.bind
  intro projections
  apply Ensures.bind
  intro fromClause
  split
  · apply Ensures.bind
    intro token
    split
    · exact .bind fun _ => .pure rfl
    · exact .bind fun _ => .pure rfl
    · exact .bind fun _ => .pure rfl
    · exact .bind fun _ => .bind fun _ => .pure rfl
  · exact .bind fun _ => .pure rfl

theorem parseCreate_notInsert (nested : Nested) : Ensures (parseCreate nested) NotInsert := by
  apply Ensures.bind
  intro _
  apply Ensures.bind
  intro token
  split
  · exact .bind fun _ => .bind fun _ => .pure rfl
  · exact .bind fun _ => .bind fun _ => .pure rfl
  · exact .bind fun _ => .bind fun _ => .pure rfl
  · split
    · exact .bind fun _ => .bind fun _ => .bind fun _ => .pure rfl
    · exact .fail _

theorem parseStatementKind_hasRows (nested : Nested) :
    Ensures (parseStatementKind nested) HasRows := by
  apply Ensures.bind
  intro token
  split
  · exact (parseSelectStmt_notInsert nested).mono fun _ => hasRows_of_notInsert
  · exact .bindWith (parseInsert_hasRows nested) fun _ rows => .pure rows
  · exact .bind fun _ => .pure trivial
  · exact .bind fun _ => .pure trivial
  · exact (parseCreate_notInsert nested).mono fun _ => hasRows_of_notInsert
  iterate 9 exact .bind fun _ => .pure trivial
  · exact .fail _
  · split
    · exact .bind fun _ => .pure trivial
    · exact .fail _

theorem parseStatement_hasRows : Ensures parseStatement HasRows := by
  have kind : ∀ nested, Ensures (do
      skipSemicolons
      let stmt ← parseStatementKind nested
      let _ ← eat .semicolon
      return stmt) HasRows := by
    intro nested
    apply Ensures.bind
    intro _
    apply Ensures.bindWith (parseStatementKind_hasRows nested)
    intro stmt rows
    exact .bind fun _ => .pure rows
  constructor
  intro parser
  exact (kind _).of_ok parser

end Parse

/-- A text that is parsed as an INSERT has at least one row. -/
theorem parse_insert_ne_nil {platform : TextPlatform} {input : String} {stmt : InsertStmt}
    (parsed : parse platform input = .ok (.insert stmt)) : stmt.values ≠ [] := by
  unfold parse at parsed
  split at parsed
  · cases parsed
  · cases parsed
  · cases parsed
  · split at parsed
    · cases parsed
    · split at parsed
      · next statement after ran =>
          cases parsed
          exact Parse.parseStatement_hasRows.of_ok _ _ _ ran
      · cases parsed
      · cases parsed

end FunDB.Sql
