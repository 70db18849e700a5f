import FunDB.Sql.ParserLevels

/-! # Parsing that ends

A parsing function that ends returns a value or an error, never past the last token. The
measure is the number of tokens left: a loop goes on only behind a token that it read, and
so does a call from inside brackets. -/

namespace FunDB.Sql

/-- Whether a token is the end of the input, where a cursor stays. -/
def isEnd : Token → Bool
  | .eof => true
  | _ => false

theorem isEnd_of_isPlain {token : Token} (plain : isPlain token = true) :
    isEnd token = false := by
  cases token <;> first | rfl | cases plain

theorem ne_eof_of_isEnd {token : Token} (inside : isEnd token = false) : token ≠ .eof := by
  intro same
  rw [same] at inside
  cases inside

/-! ## Cursors by position -/

namespace Parser

/-- The cursor at a position of a list of tokens, which is inside the list. -/
def atPosition (tokens : List (Token × Span)) (position : Fin tokens.length) : Parser :=
  ⟨tokens[position], tokens.drop (position + 1)⟩

theorem next_atPosition (tokens : List (Token × Span)) (position : Fin tokens.length) :
    (atPosition tokens position).next =
      if more : position.val + 1 < tokens.length then atPosition tokens ⟨position + 1, more⟩
      else atPosition tokens position := by
  split
  · next more =>
      rw [next, atPosition, List.drop_eq_getElem_cons more]
      rfl
  · next last =>
      rw [next, atPosition, List.drop_of_length_le (Nat.le_of_not_lt last)]

/-- Reading leads to a later position of the same list. -/
theorem exists_position_of_reading {tokens : List (Token × Span)} {parser after : Parser}
    {read : List Token} (reading : Reading parser read after) {position : Fin tokens.length}
    (here : parser = atPosition tokens position) :
    ∃ later : Fin tokens.length, position.val + read.length = later ∧
      after = atPosition tokens later := by
  induction reading generalizing position with
  | done => exact ⟨position, rfl, here⟩
  | @token token span following rest read after reading induction =>
      have moved := congrArg next here
      rw [next_atPosition] at moved
      by_cases more : position.val + 1 < tokens.length
      · rw [dif_pos more] at moved
        rcases induction moved with ⟨later, count, there⟩
        refine ⟨later, ?_, there⟩
        rw [List.length_cons, ← count]
        exact (Nat.succ_add_eq_add_succ _ _).symm
      · have last := congrArg Parser.rest here
        rw [atPosition, List.drop_of_length_le (Nat.le_of_not_lt more)] at last
        cases last

end Parser

namespace Parse

variable {α β σ : Type}

/-! ## Ending -/

/-- A value or an error comes out, and a value that must be read comes behind a token. -/
def Ended (must : α → Prop) (parser : Parser) : Parsed α → Prop
  | .ok value after => ∃ tokens, Reading parser tokens after ∧ (must value → tokens ≠ [])
  | .err _ => True
  | .running => False

/-- From a cursor whose token may be known, with no more tokens left than the limit, parsing
ends. -/
structure Halts (known : Option Token) (must : α → Prop) (limit : Nat) (parse : Parse α) :
    Prop where
  ended : ∀ parser : Parser, parser.Ends → parser.size ≤ limit →
    (∀ token, known = some token → parser.current.1 = token) →
    Ended must parser (parse parser)

/-- Parsing ends. -/
abbrev Returns (limit : Nat) (parse : Parse α) : Prop := Halts none (fun _ => False) limit parse

/-- Parsing ends, and every value comes behind a token. -/
abbrev Reads (limit : Nat) (parse : Parse α) : Prop := Halts none (fun _ => True) limit parse

/-- A step of a loop ends, and goes on only behind a token. -/
abbrev GoesOn (limit : Nat) (step : Parse (Option σ)) : Prop :=
  Halts none (fun next => next.isSome = true) limit step

namespace Halts

variable {known : Option Token} {must : α → Prop} {wanted : β → Prop} {limit : Nat}
variable {parse : Parse α} {first : Parse α} {next : α → Parse β}

theorem mono {weaker : α → Prop} (halts : Halts none must limit parse)
    (implied : ∀ value, weaker value → must value) : Halts known weaker limit parse := by
  constructor
  intro parser ends small _
  have ended := halts.ended parser ends small (by simp)
  cases ran : parse parser with
  | ok value after =>
      rw [ran] at ended
      rcases ended with ⟨tokens, reading, enough⟩
      exact ⟨tokens, reading, fun held => enough (implied value held)⟩
  | err error => trivial
  | running =>
      rw [ran] at ended
      exact ended

theorem ofReads (reads : Reads limit parse) : Halts known must limit parse :=
  reads.mono fun _ _ => trivial

theorem returns (halts : Halts none must limit parse) : Returns limit parse :=
  halts.mono fun _ impossible => impossible.elim

theorem pure {value : α} (free : ¬ must value) : Halts known must limit (Pure.pure value) :=
  ⟨fun parser _ _ _ => ⟨[], .done parser, fun held => absurd held free⟩⟩

theorem done (value : α) : Halts known (fun _ => False) limit (Pure.pure value) :=
  pure fun impossible => impossible

theorem stop : Halts known (fun next : Option σ => next.isSome = true) limit (Pure.pure none) :=
  pure fun impossible => by cases impossible

theorem fail (message : ParseMessage) : Halts known must limit (Parse.fail message) :=
  ⟨fun _ _ _ _ => trivial⟩

theorem ended_of_reading {weaker : β → Prop} {parser between : Parser} {tokens : List Token}
    {result : Parsed β} (reading : Reading parser tokens between)
    (ended : Ended weaker between result)
    (implied : ∀ value, wanted value → tokens ≠ [] ∨ weaker value) :
    Ended wanted parser result := by
  cases result with
  | err error => trivial
  | running => exact ended
  | ok value after =>
      rcases ended with ⟨more, readingMore, enough⟩
      refine ⟨tokens ++ more, reading.trans readingMore, fun held => ?_⟩
      rcases implied value held with some | later
      · exact List.append_ne_nil_of_left_ne_nil some _
      · exact List.append_ne_nil_of_right_ne_nil _ (enough later)

/-- The rest of a sequence starts where its first part ended. -/
theorem ended_bind {middle : α → Prop} {parser : Parser}
    (ended : Ended middle parser (first parser))
    (rest : ∀ value between tokens, Reading parser tokens between →
      (middle value → tokens ≠ []) → Ended wanted parser (next value between)) :
    Ended wanted parser ((first >>= next) parser) := by
  cases ran : first parser with
  | err error =>
      rw [bind_err ran]
      trivial
  | running =>
      rw [ran] at ended
      exact ended.elim
  | ok value between =>
      rw [ran] at ended
      rcases ended with ⟨tokens, reading, enough⟩
      rw [bind_ok ran]
      exact rest value between tokens reading enough

/-- The first part need not read anything if the rest does what is wanted. -/
theorem after {middle : α → Prop} (halts : Halts none middle limit first)
    (rest : ∀ value, Halts none wanted limit (next value)) :
    Halts known wanted limit (first >>= next) := by
  constructor
  intro parser ends small _
  apply ended_bind (halts.ended parser ends small (by simp))
  intro value between tokens reading _
  have size := reading.size
  have ended := (rest value).ended between (ends.of_reading reading) (by omega) (by simp)
  exact ended_of_reading reading ended fun _ held => .inr held

/-- Behind a token that was read, the rest has fewer tokens. -/
theorem inside {fewer : Nat} (reads : Reads limit first) (drop : limit ≤ fewer + 1)
    (rest : ∀ value, Returns fewer (next value)) : Halts known wanted limit (first >>= next) := by
  constructor
  intro parser ends small _
  apply ended_bind (reads.ended parser ends small (by simp))
  intro value between tokens reading enough
  have some := List.length_pos_iff.mpr (enough trivial)
  have size := reading.size
  have ended := (rest value).ended between (ends.of_reading reading) (by omega) (by simp)
  exact ended_of_reading reading ended fun _ _ => .inl (enough trivial)

theorem read (reads : Reads limit first) (rest : ∀ value, Returns limit (next value)) :
    Halts known wanted limit (first >>= next) :=
  reads.inside (Nat.le_succ limit) rest

theorem peek {next : Token → Parse β}
    (rest : ∀ token, Halts (some token) wanted limit (next token)) :
    Halts known wanted limit (Parse.peek >>= next) := by
  constructor
  intro parser ends small _
  rw [bind_ok (peek_apply parser)]
  apply (rest parser.current.1).ended parser ends small
  intro token same
  exact Option.some.inj same

theorem peek2 {next : Option Token → Parse β}
    (rest : ∀ following, Halts known wanted limit (next following)) :
    Halts known wanted limit (Parse.peek2 >>= next) := by
  constructor
  intro parser ends small current
  exact (rest (parser.rest.head?.map Prod.fst)).ended parser ends small current

/-! ## Tokens -/

theorem advanceInside {token : Token} {fewer : Nat} {next : Unit → Parse β}
    (plain : isEnd token = false) (drop : limit ≤ fewer + 1) (rest : Returns fewer (next ())) :
    Halts (some token) wanted limit (Parse.advance >>= next) := by
  constructor
  intro parser ends small current
  have same := current token rfl
  have reading := (ends.reading_next (same ▸ ne_eof_of_isEnd plain)).1
  have size := reading.size
  rw [List.length_singleton] at size
  rw [bind_ok (advance_apply parser)]
  have ended := rest.ended parser.next (ends.of_reading reading) (by omega) (by simp)
  exact ended_of_reading reading ended fun _ _ => .inl (List.cons_ne_nil _ _)

theorem advanceRead {token : Token} {next : Unit → Parse β} (plain : isEnd token = false)
    (rest : Returns limit (next ())) :
    Halts (some token) wanted limit (Parse.advance >>= next) :=
  advanceInside plain (Nat.le_succ limit) rest

theorem advanceAny : Halts known (fun _ => False) limit Parse.advance := by
  constructor
  intro parser ends _ _
  rcases parser with ⟨⟨token, span⟩, rest⟩
  cases rest with
  | nil => exact ⟨[], .done _, fun impossible => impossible.elim⟩
  | cons following rest => exact ⟨[token], .token (.done _), fun impossible => impossible.elim⟩

theorem eat {token : Token} (inside : isEnd token = false) :
    Halts known (fun eaten => eaten = true) limit (Parse.eat token) := by
  constructor
  intro parser ends _ _
  rw [Parse.eat]
  split
  · next same =>
      have reading := (ends.reading_next (same ▸ ne_eof_of_isEnd inside)).1
      exact ⟨[parser.current.1], reading, fun _ => List.cons_ne_nil _ _⟩
  · exact ⟨[], .done parser, fun impossible => by cases impossible⟩

/-- The rest has one token less if the token was there. -/
theorem eatInside {token : Token} {fewer : Nat} {next : Bool → Parse β}
    (plain : isEnd token = false) (drop : limit ≤ fewer + 1) (taken : Returns fewer (next true))
    (other : Halts none wanted limit (next false)) :
    Halts known wanted limit (Parse.eat token >>= next) := by
  constructor
  intro parser ends small current
  apply ended_bind ((eat plain).ended parser ends small current)
  intro eaten between tokens reading enough
  have size := reading.size
  have between_ends := ends.of_reading reading
  cases eaten with
  | true =>
      have some := List.length_pos_iff.mpr (enough rfl)
      have ended := taken.ended between between_ends (by omega) (by simp)
      exact ended_of_reading reading ended fun _ _ => .inl (enough rfl)
  | false =>
      have ended := other.ended between between_ends (by omega) (by simp)
      exact ended_of_reading reading ended fun _ held => .inr held

theorem eatRead {token : Token} {next : Bool → Parse β} (plain : isEnd token = false)
    (taken : Returns limit (next true)) (other : Halts none wanted limit (next false)) :
    Halts known wanted limit (Parse.eat token >>= next) :=
  eatInside plain (Nat.le_succ limit) taken other

theorem expect {token : Token} (plain : isEnd token = false) : Reads limit (Parse.expect token) :=
  eatRead plain (done ()) (peek fun _ => fail _)

theorem map (halts : Halts none must limit parse) (f : α → β) : Returns limit (f <$> parse) :=
  halts.after fun _ => done _

theorem mapReads (reads : Reads limit parse) (f : α → β) : Reads limit (f <$> parse) :=
  reads.read fun _ => done _

/-! ## Loops -/

/-- A loop whose steps go on only behind a token has enough fuel. -/
theorem loop {step : σ → Parse (Option σ)} (steps : ∀ state, GoesOn limit (step state))
    (start : σ) : Returns limit (Parse.loop step start) := by
  have fuelled : ∀ fuel state (parser : Parser), parser.Ends → parser.size ≤ limit →
      parser.size ≤ fuel → Ended (fun _ => False) parser (loopWith step fuel state parser) := by
    intro fuel
    induction fuel with
    | zero =>
        intro state parser _ _ enough
        have positive := size_pos parser
        omega
    | succ fuel induction =>
        intro state parser ends small enough
        apply ended_bind ((steps state).ended parser ends small (by simp))
        intro next between tokens reading goesOn
        have size := reading.size
        cases next with
        | none => exact ⟨tokens, reading, fun impossible => impossible.elim⟩
        | some state =>
            have some := List.length_pos_iff.mpr (goesOn rfl)
            have later := induction state between (ends.of_reading reading) (by omega) (by omega)
            exact ended_of_reading reading later fun _ held => .inr held
  constructor
  intro parser ends small _
  exact fuelled parser.size start parser ends small (Nat.le_refl _)

end Halts

/-- One step of the loop of a list with commas. -/
def commaStep (item : Parse α) (closing : Option Token) (items : List α) :
    Parse (Option (List α)) := do
  if ← eat .comma then
    if closing = some (← peek) then return none
    else return some (items ++ [← item])
  else return none

variable {limit : Nat} {item : Parse α}

theorem goesOn_commaStep {must : α → Prop} (halts : Halts none must limit item)
    (closing : Option Token) (items : List α) : GoesOn limit (commaStep item closing items) := by
  refine Halts.eatRead rfl ?_ .stop
  apply Halts.peek
  intro token
  split
  · exact .done none
  · exact halts.after fun _ => .done _

theorem reads_commaList (reads : Reads limit item) (closing : Option Token) :
    Reads limit (commaList item closing) :=
  reads.read fun first => Halts.loop (goesOn_commaStep reads closing) [first]

end Parse

end FunDB.Sql
