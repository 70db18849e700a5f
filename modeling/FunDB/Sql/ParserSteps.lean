import FunDB.Sql.ParseExpr

/-! # What parsing functions read

A parsing function is told by the tokens that it reads and by how it ends. -/

namespace FunDB.Sql

open Ast

/-! ## Cursors -/

/-- Reading these tokens leads from the one cursor to the other. -/
inductive Reading : Parser → List Token → Parser → Prop where
  | done (parser : Parser) : Reading parser [] parser
  | token {token : Token} {span : Span} {next : Token × Span} {rest : List (Token × Span)}
      {tokens : List Token} {after : Parser} :
      Reading ⟨next, rest⟩ tokens after →
      Reading ⟨(token, span), next :: rest⟩ (token :: tokens) after

namespace Reading

variable {parser after : Parser} {token : Token} {tokens more : List Token}

theorem current (reading : Reading parser (token :: tokens) after) :
    parser.current.1 = token := by
  cases reading
  rfl

theorem next (reading : Reading parser (token :: tokens) after) :
    Reading parser.next tokens after := by
  cases reading with
  | token reading => exact reading

theorem eq_of_nil (reading : Reading parser [] after) : parser = after := by
  cases reading
  rfl

theorem split (reading : Reading parser (tokens ++ more) after) :
    ∃ middle, Reading parser tokens middle ∧ Reading middle more after := by
  induction tokens generalizing parser with
  | nil => exact ⟨parser, .done parser, reading⟩
  | cons token tokens induction =>
      cases reading with
      | token reading =>
          rcases induction reading with ⟨middle, first, second⟩
          exact ⟨middle, .token first, second⟩

theorem size (reading : Reading parser tokens after) :
    parser.size = tokens.length + after.size := by
  induction reading with
  | done => simp
  | token reading induction =>
      simp only [Parser.size, List.length_cons] at induction ⊢
      omega

end Reading

/-! ## Endings -/

/-- Parsing gives the value and stops at the cursor if the condition holds, and
fails if it does not. -/
def Settles {α : Type} (parsed : Parsed α) (good : Prop) (value : α) (after : Parser) : Prop :=
  (good → parsed = .ok value after) ∧ (¬good → ∃ error, parsed = .err error)

namespace Settles

variable {α β : Type} {good goodNext : Prop} {value : α} {valueNext : β}
variable {parser middle after : Parser} {first : Parse α} {next : α → Parse β}

theorem ok : Settles (.ok value after) True value after :=
  ⟨fun _ => rfl, fun bad => absurd trivial bad⟩

theorem congr {parsed : Parsed α} {other : Prop} (settles : Settles parsed good value after)
    (same : good ↔ other) : Settles parsed other value after :=
  ⟨fun holds => settles.1 (same.mpr holds), fun bad => settles.2 fun holds => bad (same.mp holds)⟩

theorem bind (settles : Settles (first parser) good value middle)
    (settlesNext : good → Settles (next value middle) goodNext valueNext after) :
    Settles ((first >>= next) parser) (good ∧ goodNext) valueNext after := by
  constructor
  · intro both
    rw [Parse.bind_ok (settles.1 both.1)]
    exact (settlesNext both.1).1 both.2
  · intro notBoth
    by_cases holds : good
    · rw [Parse.bind_ok (settles.1 holds)]
      exact (settlesNext holds).2 fun holdsNext => notBoth ⟨holds, holdsNext⟩
    · rcases settles.2 holds with ⟨error, failed⟩
      exact ⟨error, Parse.bind_err failed _⟩

theorem of_ok (ran : first parser = .ok value middle)
    (settlesNext : Settles (next value middle) goodNext valueNext after) :
    Settles ((first >>= next) parser) goodNext valueNext after := by
  rw [Settles, Parse.bind_ok ran]
  exact settlesNext

theorem map (settles : Settles (first parser) good value middle) (f : α → β) :
    Settles ((do let result ← first; return f result) parser) good (f value) middle := by
  apply Settles.congr _ (iff_of_eq (and_true good))
  apply settles.bind
  intro _
  exact ok

end Settles

/-! ## Single steps -/

namespace Parse

variable {parser after : Parser} {token : Token} {tokens : List Token}

theorem peek_apply (parser : Parser) : peek parser = .ok parser.current.1 parser := rfl

theorem advance_apply (parser : Parser) : advance parser = .ok () parser.next := rfl

theorem eat_of_eq (same : parser.current.1 = token) :
    eat token parser = .ok true parser.next := by
  rw [eat, if_pos same]

theorem eat_of_ne (other : parser.current.1 ≠ token) :
    eat token parser = .ok false parser := by
  rw [eat, if_neg other]

theorem expect_of_eq (same : parser.current.1 = token) :
    expect token parser = .ok () parser.next := by
  rw [expect, bind_ok (eat_of_eq same)]
  rfl

/-! ## Loops -/

variable {σ : Type} {step : σ → Parse (Option σ)} {state stateNext : σ}

theorem loopWith_stop {fuel : Nat} (enough : 0 < fuel)
    (stops : step state parser = .ok none after) :
    loopWith step fuel state parser = .ok state after := by
  rcases Nat.exists_eq_succ_of_ne_zero enough.ne' with ⟨less, same⟩
  rw [same, loopWith, bind_ok stops]
  rfl

theorem loopWith_next {fuel : Nat} (goesOn : step state parser = .ok (some stateNext) after) :
    loopWith step (fuel + 1) state parser = loopWith step fuel stateNext after := by
  rw [loopWith, bind_ok goesOn]

theorem loopWith_err {fuel : Nat} {error : ParseError}
    (fails : step state parser = .err error) :
    loopWith step (fuel + 1) state parser = .err error := by
  rw [loopWith, bind_err fails]

theorem size_pos (parser : Parser) : 0 < parser.size := Nat.succ_pos _

/-! ## Lists -/

/-- Items to read with the values they have, and whether each can be read. -/
structure ListItem (α : Type) where
  tokens : List Token
  value : α
  good : Prop

def ListItem.tailTokens {α : Type} (items : List (ListItem α)) : List Token :=
  items.flatMap fun item => .comma :: item.tokens

theorem ListItem.tailTokens_cons {α : Type} (entry : ListItem α) (items : List (ListItem α)) :
    tailTokens (entry :: items) = .comma :: (entry.tokens ++ tailTokens items) := rfl

/-- An item is read before a comma or the token that ends the list. -/
def ListItem.ReadBy {α : Type} (parse : Parse α) (closing : Token) (entry : ListItem α) : Prop :=
  ∀ parser after, Reading parser entry.tokens after →
    after.current.1 = .comma ∨ after.current.1 = closing →
    Settles (parse parser) entry.good entry.value after

variable {α : Type} {parse : Parse α} {closing : Token}

/-- One step of the loop of a list that its closing token does not cut short. -/
def listStep (parse : Parse α) (items : List α) : Parse (Option (List α)) := do
  if ← eat .comma then
    if none = some (← peek) then return none
    else return some (items ++ [← parse])
  else return none

theorem listStep_stop {items : List α} (notComma : parser.current.1 ≠ .comma) :
    listStep parse items parser = .ok none parser := by
  rw [listStep, bind_ok (eat_of_ne notComma)]
  rfl

theorem listStep_comma {items : List α} {good : Prop} {value : α}
    (isComma : parser.current.1 = .comma)
    (settles : Settles (parse parser.next) good value after) :
    Settles (listStep parse items parser) good (some (items ++ [value])) after := by
  refine .of_ok (eat_of_eq isComma) ?_
  refine .of_ok (peek_apply parser.next) ?_
  exact settles.map fun value => some (items ++ [value])

theorem current_tailTokens {items : List (ListItem α)}
    (reading : Reading parser (ListItem.tailTokens items) after)
    (ends : after.current.1 = closing) :
    parser.current.1 = .comma ∨ parser.current.1 = closing := by
  cases items with
  | nil => exact .inr (reading.eq_of_nil ▸ ends)
  | cons entry items => exact .inl reading.current

theorem listStep_loop {items : List (ListItem α)} (acc : List α) (fuel : Nat)
    (notComma : closing ≠ .comma) (read : ∀ entry ∈ items, entry.ReadBy parse closing)
    (reading : Reading parser (ListItem.tailTokens items) after)
    (ends : after.current.1 = closing) (enough : parser.size ≤ fuel) :
    Settles (loopWith (listStep parse) fuel acc parser)
      (∀ entry ∈ items, entry.good) (acc ++ items.map ListItem.value) after := by
  induction items generalizing parser acc fuel with
  | nil =>
      cases reading.eq_of_nil
      have stops : listStep parse acc after = .ok none after := listStep_stop (ends ▸ notComma)
      rw [loopWith_stop ((size_pos after).trans_le enough) stops]
      simpa using Settles.ok
  | cons entry items induction =>
      rw [ListItem.tailTokens_cons] at reading
      have isComma : parser.current.1 = .comma := reading.current
      rcases reading.next.split with ⟨middle, readEntry, readItems⟩
      have entrySettles :=
        read entry List.mem_cons_self _ _ readEntry (current_tailTokens readItems ends)
      have step : Settles (listStep parse acc parser) entry.good (some (acc ++ [entry.value]))
          middle := listStep_comma isComma entrySettles
      have shorter : middle.size < parser.size := by
        have whole := reading.size
        have part := readItems.size
        rw [List.length_cons, List.length_append] at whole
        omega
      rcases Nat.exists_eq_succ_of_ne_zero (Nat.ne_zero_of_lt (shorter.trans_le enough)) with
        ⟨less, same⟩
      have following := induction (acc ++ [entry.value]) less
        (fun entry isIn => read entry (List.mem_cons_of_mem _ isIn)) readItems (by omega)
      rw [same, loopWith]
      refine (step.bind fun _ => ?_).congr (List.forall_mem_cons (p := ListItem.good)).symm
      simpa using following

theorem commaList_spec {first : ListItem α} {items : List (ListItem α)}
    (notComma : closing ≠ .comma)
    (firstRead : first.ReadBy parse closing) (read : ∀ entry ∈ items, entry.ReadBy parse closing)
    (reading : Reading parser (first.tokens ++ ListItem.tailTokens items) after)
    (ends : after.current.1 = closing) :
    Settles (commaList parse none parser) (first.good ∧ ∀ entry ∈ items, entry.good)
      (first.value :: items.map ListItem.value) after := by
  rcases reading.split with ⟨middle, readFirst, readItems⟩
  refine (firstRead _ _ readFirst (current_tailTokens readItems ends)).bind fun _ => ?_
  exact listStep_loop [first.value] _ notComma read readItems ends le_rfl

/-! ## Operators that group to the left -/

variable {operand : Parse Ast.Expr} {operator : Token → Option Ast.BinaryOp}

/-- One step of the loop of `leftAssoc`. -/
def leftStep (operand : Parse Ast.Expr) (operator : Token → Option Ast.BinaryOp) (left : Ast.Expr) :
    Parse (Option Ast.Expr) := do
  match operator (← peek) with
  | some op =>
      advance
      return some (.binaryOp op left (← operand))
  | none => return none

theorem leftStep_stop {left : Ast.Expr} (noOperator : operator parser.current.1 = none) :
    leftStep operand operator left parser = .ok none parser := by
  rw [leftStep, bind_ok (peek_apply parser), noOperator]
  rfl

/-- The loop is at a cursor with enough fuel, and the value read so far. -/
def LeftLoop (operand : Parse Ast.Expr) (operator : Token → Option Ast.BinaryOp)
    (parsed : Parsed Ast.Expr) (good : Prop) (value : Ast.Expr) (after : Parser) : Prop :=
  (good → ∃ fuel, after.size ≤ fuel ∧
    parsed = loopWith (leftStep operand operator) fuel value after) ∧
  (¬good → ∃ error, parsed = .err error)

theorem leftAssoc_first {good : Prop} {value : Ast.Expr}
    (settles : Settles (operand parser) good value after) :
    LeftLoop operand operator (leftAssoc operand operator parser) good value after := by
  constructor
  · intro holds
    refine ⟨after.size, le_rfl, ?_⟩
    rw [leftAssoc, bind_ok (settles.1 holds)]
    rfl
  · intro bad
    rcases settles.2 bad with ⟨error, failed⟩
    exact ⟨error, bind_err failed _⟩

theorem LeftLoop.next {parsed : Parsed Ast.Expr} {good goodRight : Prop} {left right : Ast.Expr}
    {op : Ast.BinaryOp} {middle : Parser}
    (looping : LeftLoop operand operator parsed good left middle)
    (isOperator : operator middle.current.1 = some op)
    (smaller : after.size < middle.size)
    (settles : Settles (operand middle.next) goodRight right after) :
    LeftLoop operand operator parsed (good ∧ goodRight) (.binaryOp op left right) after := by
  have step : Settles (leftStep operand operator left middle) goodRight
      (some (.binaryOp op left right)) after := by
    have goesOn : leftStep operand operator left middle =
        (do
          advance
          return some (.binaryOp op left (← operand)) : Parse (Option Ast.Expr)) middle := by
      rw [leftStep, bind_ok (peek_apply middle), isOperator]
    rw [goesOn]
    exact .of_ok rfl (settles.map fun value => some (Ast.Expr.binaryOp op left value))
  constructor
  · intro both
    rcases looping.1 both.1 with ⟨fuel, enough, same⟩
    rcases Nat.exists_eq_succ_of_ne_zero (Nat.ne_zero_of_lt (smaller.trans_le enough)) with
      ⟨less, fuel_eq⟩
    exact ⟨less, by omega, by rw [same, fuel_eq, loopWith_next (step.1 both.2)]⟩
  · intro notBoth
    by_cases holds : good
    · rcases looping.1 holds with ⟨fuel, enough, same⟩
      rcases Nat.exists_eq_succ_of_ne_zero (Nat.ne_zero_of_lt (smaller.trans_le enough)) with
        ⟨less, fuel_eq⟩
      rcases step.2 fun holdsRight => notBoth ⟨holds, holdsRight⟩ with ⟨error, failed⟩
      exact ⟨error, by rw [same, fuel_eq, loopWith_err failed]⟩
    · exact looping.2 holds

theorem LeftLoop.settles {parsed : Parsed Ast.Expr} {good : Prop} {value : Ast.Expr}
    (looping : LeftLoop operand operator parsed good value after)
    (noOperator : good → operator after.current.1 = none) : Settles parsed good value after := by
  constructor
  · intro holds
    rcases looping.1 holds with ⟨fuel, enough, same⟩
    rw [same]
    exact loopWith_stop ((size_pos after).trans_le enough) (leftStep_stop (noOperator holds))
  · exact looping.2

end Parse

end FunDB.Sql
