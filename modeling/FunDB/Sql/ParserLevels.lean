import FunDB.Foundation.Parentheses
import FunDB.Sql.ParserSteps
import FunDB.Sql.ParseStatement

/-! # Parentheses that are parsed

An expression closes every parenthesis that it opens, and none besides. -/

namespace FunDB.Sql

open Ast Parentheses

/-! ## Parentheses among tokens -/

def Token.parenthesis : Token → Option Char
  | .lParen => some '('
  | .rParen => some ')'
  | _ => none

/-- Whether a token is neither a parenthesis nor the end of the input. -/
def isPlain : Token → Bool
  | .lParen => false
  | .rParen => false
  | .eof => false
  | _ => true

theorem parenthesis_of_isPlain {token : Token} (plain : isPlain token = true) :
    token.parenthesis = none := by
  cases token <;> first | rfl | cases plain

theorem ne_eof_of_isPlain {token : Token} (plain : isPlain token = true) : token ≠ .eof := by
  intro same
  rw [same] at plain
  cases plain

/-- Inside a group, tokens lead from one level to another and open no group. -/
def Moves (low high : Nat) (tokens : List Token) : Prop :=
  ∀ opened depth : Nat,
    Groups.readAll ⟨opened, depth + low + 1⟩ (tokens.filterMap Token.parenthesis) =
      ⟨opened, depth + high + 1⟩

namespace Moves

variable {low middle high : Nat} {token : Token} {tokens more : List Token}

theorem nil (level : Nat) : Moves level level [] := fun _ _ => rfl

theorem append (first : Moves low middle tokens) (second : Moves middle high more) :
    Moves low high (tokens ++ more) := by
  intro opened depth
  rw [List.filterMap_append, Groups.readAll_append, first opened depth, second opened depth]

theorem deeper (moves : Moves 0 0 tokens) (level : Nat) : Moves level level tokens := by
  intro opened depth
  have shifted := moves opened (depth + level)
  simpa using shifted

theorem plain (other : isPlain token = true) (level : Nat) : Moves level level [token] := by
  intro opened depth
  rw [List.filterMap_cons, parenthesis_of_isPlain other]
  rfl

theorem lParen (level : Nat) : Moves level (level + 1) [.lParen] := by
  intro opened depth
  have inside : ((depth : Int) + level + 1) ≠ 0 := by omega
  change Groups.read ⟨opened, depth + level + 1⟩ '(' = _
  rw [Groups.read_inside inside]
  simp only [Groups.mk.injEq, true_and]
  omega

theorem rParen (level : Nat) : Moves (level + 1) level [.rParen] := by
  intro opened depth
  change Groups.read ⟨opened, _⟩ ')' = _
  rw [Groups.read_close]
  simp only [Groups.mk.injEq, true_and]
  omega

end Moves

/-! ## Reading to the end of the input -/

theorem Reading.trans {parser between after : Parser} {tokens more : List Token}
    (first : Reading parser tokens between) (second : Reading between more after) :
    Reading parser (tokens ++ more) after := by
  induction first with
  | done => exact second
  | token reading induction => exact .token (induction second)

namespace Parser

/-- The last token is the end of the input. -/
def Ends (parser : Parser) : Prop :=
  ((parser.current :: parser.rest).getLast?.map Prod.fst) = some .eof

theorem Ends.reading_next {parser : Parser} (ends : parser.Ends)
    (inside : parser.current.1 ≠ .eof) :
    Reading parser [parser.current.1] parser.next ∧ parser.next.Ends := by
  rcases parser with ⟨⟨token, span⟩, rest⟩
  cases rest with
  | nil => exact absurd (Option.some.inj ends) inside
  | cons following rest =>
      have last : Parser.Ends ⟨following, rest⟩ := by
        rw [Ends, List.getLast?_cons_cons] at ends
        exact ends
      exact ⟨.token (.done _), last⟩

theorem Ends.of_reading {parser after : Parser} {tokens : List Token} (ends : parser.Ends)
    (reading : Reading parser tokens after) : after.Ends := by
  induction reading with
  | done => exact ends
  | @token token span next rest tokens after reading induction =>
      apply induction
      rw [Ends, List.getLast?_cons_cons] at ends
      exact ends

end Parser

/-! ## What a parsing function reads -/

namespace Parse

variable {α β σ : Type}

/-- From a cursor whose token may be known, a value is returned behind tokens that
meet the condition. -/
structure Consumes (known : Option Token) (parse : Parse α)
    (post : α → List Token → Prop) : Prop where
  of_ok : ∀ parser value after, parser.Ends →
    (∀ token, known = some token → parser.current.1 = token) →
    parse parser = .ok value after →
      ∃ tokens, Reading parser tokens after ∧ post value tokens

namespace Consumes

variable {known : Option Token} {parse : Parse α} {first : Parse α} {next : α → Parse β}

theorem mono {post weaker : α → List Token → Prop} (consumes : Consumes known parse post)
    (implied : ∀ value tokens, post value tokens → weaker value tokens) :
    Consumes known parse weaker := by
  constructor
  intro parser value after ends current ran
  rcases consumes.of_ok parser value after ends current ran with ⟨tokens, reading, held⟩
  exact ⟨tokens, reading, implied value tokens held⟩

theorem ofAny {post : α → List Token → Prop} (consumes : Consumes none parse post) :
    Consumes known parse post := by
  constructor
  intro parser value after ends _ ran
  exact consumes.of_ok parser value after ends (by simp) ran

theorem pure {post : α → List Token → Prop} {value : α} (held : post value []) :
    Consumes known (Pure.pure value) post := by
  constructor
  intro parser returned after _ _ ran
  rw [pure_apply] at ran
  cases ran
  exact ⟨[], .done parser, held⟩

theorem fail {post : α → List Token → Prop} (message : ParseMessage) :
    Consumes known (Parse.fail message) post := by
  constructor
  intro parser value after _ _ ran
  cases ran

theorem bind {middle : α → List Token → Prop} {post : β → List Token → Prop}
    (consumes : Consumes known first middle)
    (rest : ∀ value, Consumes none (next value) fun returned more =>
      ∀ tokens, middle value tokens → post returned (tokens ++ more)) :
    Consumes known (first >>= next) post := by
  constructor
  intro parser returned after ends current ran
  rcases exists_of_bind_ok ran with ⟨value, between, started, finished⟩
  rcases consumes.of_ok parser value between ends current started with ⟨tokens, reading, held⟩
  rcases (rest value).of_ok between returned after (ends.of_reading reading)
    (by simp) finished with ⟨more, readingMore, following⟩
  exact ⟨tokens ++ more, reading.trans readingMore, following tokens held⟩

theorem peek {next : Token → Parse β} {post : β → List Token → Prop}
    (rest : ∀ token, Consumes (some token) (next token) post) :
    Consumes known (Parse.peek >>= next) post := by
  constructor
  intro parser returned after ends _ ran
  rw [bind_ok (peek_apply parser)] at ran
  apply (rest parser.current.1).of_ok parser returned after ends _ ran
  intro token same
  exact Option.some.inj same

theorem peek2 {next : Option Token → Parse β} {post : β → List Token → Prop}
    (rest : ∀ following, Consumes known (next following) post) :
    Consumes known (Parse.peek2 >>= next) post := by
  constructor
  intro parser returned after ends current ran
  exact (rest (parser.rest.head?.map Prod.fst)).of_ok parser returned after ends current ran

theorem advance {token : Token} (inside : token ≠ .eof) :
    Consumes (some token) Parse.advance fun _ tokens => tokens = [token] := by
  constructor
  intro parser returned after ends current ran
  have same := current token rfl
  cases ran
  refine ⟨[token], ?_, rfl⟩
  exact same ▸ (ends.reading_next (same ▸ inside)).1

theorem eat {token : Token} (inside : token ≠ .eof) :
    Consumes known (Parse.eat token) fun eaten tokens =>
      tokens = if eaten then [token] else [] := by
  constructor
  intro parser returned after ends _ ran
  rw [Parse.eat] at ran
  split at ran
  · next same =>
      cases ran
      refine ⟨[token], ?_, rfl⟩
      exact same ▸ (ends.reading_next (same ▸ inside)).1
  · cases ran
    exact ⟨[], .done parser, rfl⟩

theorem expect {token : Token} (inside : token ≠ .eof) :
    Consumes known (Parse.expect token) fun _ tokens => tokens = [token] := by
  apply bind (eat inside)
  intro eaten
  cases eaten with
  | true =>
      apply pure
      intro tokens read
      rw [read]
      rfl
  | false => exact peek fun token => fail _

theorem loop {step : σ → Parse (Option σ)} {invariant : σ → List Token → Prop}
    {start : σ} (holds : invariant start [])
    (keeps : ∀ state, Consumes none (step state) fun next more =>
      ∀ tokens, invariant state tokens → invariant (next.getD state) (tokens ++ more)) :
    Consumes known (Parse.loop step start) invariant := by
  have fuelled : ∀ fuel state, Consumes none (loopWith step fuel state) fun last more =>
      ∀ tokens, invariant state tokens → invariant last (tokens ++ more) := by
    intro fuel
    induction fuel with
    | zero =>
        intro state
        constructor
        intro parser value after _ _ ran
        cases ran
    | succ fuel induction =>
        intro state
        rw [loopWith]
        apply bind (keeps state)
        intro next
        cases next with
        | none =>
            apply pure
            intro more kept tokens held
            rw [List.append_nil]
            exact kept tokens held
        | some state =>
            apply (induction state).mono
            intro last more later middle kept tokens held
            rw [← List.append_assoc]
            exact later _ (kept tokens held)
  constructor
  intro parser value after ends _ ran
  rcases (fuelled parser.size start).of_ok parser value after ends
    (by simp) ran with ⟨tokens, reading, kept⟩
  exact ⟨tokens, reading, kept [] holds⟩

end Consumes

/-! ## Levels -/

/-- Inside a group, a parsing function leads from one level to another. -/
def Shifts (known : Option Token) (low high : Nat) (parse : Parse α) : Prop :=
  Consumes known parse fun _ tokens => Moves low high tokens

def Balanced (parse : Parse α) : Prop := Shifts none 0 0 parse

theorem Balanced.shifts {known : Option Token} {parse : Parse α} (balanced : Balanced parse)
    (level : Nat) : Shifts known level level parse :=
  (Consumes.ofAny balanced).mono fun _ _ moves => moves.deeper level

namespace Shifts

variable {known : Option Token} {low middle high : Nat} {token : Token}
variable {first : Parse α} {next : α → Parse β}

theorem pure (value : α) (level : Nat) :
    Shifts known level level (Pure.pure value : Parse α) :=
  Consumes.pure (Moves.nil level)

theorem fail (message : ParseMessage) : Shifts known low high (Parse.fail message : Parse α) :=
  Consumes.fail message

theorem bind (shifts : Shifts known low middle first)
    (rest : ∀ value, Shifts none middle high (next value)) :
    Shifts known low high (first >>= next) := by
  apply Consumes.bind shifts
  intro value
  exact (rest value).mono fun _ _ later _ moves => moves.append later

theorem after (balanced : Balanced first)
    (rest : ∀ value, Shifts none low high (next value)) :
    Shifts known low high (first >>= next) :=
  (balanced.shifts low).bind rest

theorem peek {next : Token → Parse β}
    (rest : ∀ token, Shifts (some token) low high (next token)) :
    Shifts known low high (Parse.peek >>= next) :=
  Consumes.peek rest

theorem peek2 {next : Option Token → Parse β}
    (rest : ∀ following, Shifts known low high (next following)) :
    Shifts known low high (Parse.peek2 >>= next) :=
  Consumes.peek2 rest

theorem single {parse : Parse α} (moves : Moves low high [token])
    (reads : Consumes known parse fun _ tokens => tokens = [token]) :
    Shifts known low high parse :=
  reads.mono fun _ _ same => same ▸ moves

theorem advance {next : Unit → Parse β} (plain : isPlain token = true)
    (rest : Shifts none low high (next ())) :
    Shifts (some token) low high (Parse.advance >>= next) :=
  (Shifts.single (Moves.plain plain low) (.advance (ne_eof_of_isPlain plain))).bind fun _ => rest

theorem advanceOpen {next : Unit → Parse β} (rest : Shifts none (low + 1) high (next ())) :
    Shifts (some .lParen) low high (Parse.advance >>= next) :=
  (Shifts.single (Moves.lParen low) (.advance (by decide))).bind fun _ => rest

theorem advanceClose {next : Unit → Parse β} (rest : Shifts none low high (next ())) :
    Shifts (some .rParen) (low + 1) high (Parse.advance >>= next) :=
  (Shifts.single (Moves.rParen low) (.advance (by decide))).bind fun _ => rest

theorem expectOpen {next : Unit → Parse β} (rest : Shifts none (low + 1) high (next ())) :
    Shifts known low high (Parse.expect .lParen >>= next) :=
  (Shifts.single (Moves.lParen low) (.expect (by decide))).bind fun _ => rest

theorem expectClose {next : Unit → Parse β} (rest : Shifts none low high (next ())) :
    Shifts known (low + 1) high (Parse.expect .rParen >>= next) :=
  (Shifts.single (Moves.rParen low) (.expect (by decide))).bind fun _ => rest

theorem eatOpen {next : Bool → Parse β} (opened : Shifts none (low + 1) high (next true))
    (other : Shifts none low high (next false)) :
    Shifts known low high (Parse.eat .lParen >>= next) := by
  apply Consumes.bind (Consumes.eat (by decide))
  intro eaten
  cases eaten with
  | true => exact opened.mono fun _ _ later _ read => read ▸ (Moves.lParen low).append later
  | false => exact other.mono fun _ _ later _ read => read ▸ (Moves.nil low).append later

end Shifts

namespace Balanced

variable {first : Parse α} {token : Token}

theorem eat (plain : isPlain token = true) : Balanced (Parse.eat token) := by
  apply (Consumes.eat (ne_eof_of_isPlain plain)).mono
  intro eaten tokens read
  rw [read]
  cases eaten with
  | true => exact Moves.plain plain 0
  | false => exact Moves.nil 0

theorem expect (plain : isPlain token = true) : Balanced (Parse.expect token) :=
  Shifts.single (Moves.plain plain 0) (.expect (ne_eof_of_isPlain plain))

theorem map (balanced : Balanced first) (f : α → β) : Balanced (f <$> first) :=
  Shifts.after balanced fun value => Shifts.pure (f value) 0

theorem loop {step : σ → Parse (Option σ)} (balanced : ∀ state, Balanced (step state))
    (start : σ) : Balanced (Parse.loop step start) := by
  change Consumes none _ fun _ tokens => Moves 0 0 tokens
  apply Consumes.loop
  · exact Moves.nil 0
  · intro state
    exact (balanced state).mono fun _ _ later _ moves => moves.append later

theorem commaList (balanced : Balanced first) (closing : Option Token) :
    Balanced (Parse.commaList first closing) := by
  apply Shifts.after balanced
  intro item
  apply Balanced.loop
  intro items
  apply Shifts.after (.eat rfl)
  intro comma
  split
  · apply Shifts.peek
    intro token
    split
    · exact Shifts.pure none 0
    · exact Shifts.after balanced fun item => Shifts.pure (some (items ++ [item])) 0
  · exact Shifts.pure none 0

end Balanced

end Parse

end FunDB.Sql
