import FunDB.Sql.Ast
import FunDB.Sql.Lexer

/-! # Parsers

A cursor in a list of tokens, and what a parsing function does to it. -/

namespace FunDB.Sql

/-- A message of a parse error. The tokens of the last two forms are shown in
their debug form. -/
inductive ParseMessage where
  | text (message : String)
  | expected (wanted found : Token)
  | found (message : String) (token : Token)
deriving DecidableEq, Repr

structure ParseError where
  message : ParseMessage
  line : UInt32
  col : UInt32
deriving DecidableEq, Repr

/-- The tokens from the current one on. The cursor never passes the last token. -/
structure Parser where
  current : Token × Span
  rest : List (Token × Span)
deriving DecidableEq, Repr

/-- How parsing ends. A recursion that has used up its fuel is still running. -/
inductive Parsed (α : Type) where
  | ok (value : α) (parser : Parser)
  | err (error : ParseError)
  | running

def Parse (α : Type) : Type := Parser → Parsed α

/-! ## Sequencing -/

namespace Parse

variable {α β : Type}

def bind (first : Parse α) (next : α → Parse β) : Parse β := fun parser =>
  match first parser with
  | .ok value after => next value after
  | .err error => .err error
  | .running => .running

instance : Monad Parse where
  pure value := fun parser => .ok value parser
  bind := bind

theorem bind_ok {first : Parse α} {parser after : Parser} {value : α}
    (ran : first parser = .ok value after) (next : α → Parse β) :
    (first >>= next) parser = next value after := by
  change bind first next parser = _
  rw [bind, ran]

theorem bind_err {first : Parse α} {parser : Parser} {error : ParseError}
    (ran : first parser = .err error) (next : α → Parse β) :
    (first >>= next) parser = .err error := by
  change bind first next parser = _
  rw [bind, ran]

theorem exists_of_bind_ok {first : Parse α} {next : α → Parse β} {parser after : Parser}
    {returned : β} (ran : (first >>= next) parser = .ok returned after) :
    ∃ value between, first parser = .ok value between ∧
      next value between = .ok returned after := by
  change bind first next parser = _ at ran
  rw [bind] at ran
  cases result : first parser with
  | ok value between =>
      rw [result] at ran
      exact ⟨value, between, rfl, ran⟩
  | err error =>
      rw [result] at ran
      cases ran
  | running =>
      rw [result] at ran
      cases ran

theorem pure_apply (value : α) (parser : Parser) :
    (pure value : Parse α) parser = .ok value parser := rfl

end Parse

/-! ## Moving through the tokens -/

namespace Parser

def next (parser : Parser) : Parser :=
  match parser.rest with
  | [] => parser
  | token :: rest => ⟨token, rest⟩

/-- The number of tokens from the current one on. -/
def size (parser : Parser) : Nat := parser.rest.length + 1

end Parser

namespace Parse

def peek : Parse Token := fun parser => .ok parser.current.1 parser

def peek2 : Parse (Option Token) := fun parser =>
  .ok (parser.rest.head?.map Prod.fst) parser

def advance : Parse Unit := fun parser => .ok () parser.next

def fail {α : Type} (message : ParseMessage) : Parse α := fun parser =>
  .err ⟨message, parser.current.2.line, parser.current.2.col⟩

def eat (token : Token) : Parse Bool := fun parser =>
  if parser.current.1 = token then .ok true parser.next else .ok false parser

def expect (token : Token) : Parse Unit := do
  if ← eat token then return ()
  else fail (.expected token (← peek))

/-! ## Words -/

def lower (word : String) : String := String.ofList (word.toList.map Char.toLower)

/-- Whether a token is an identifier that is the word in some case. -/
def isWord (token : Token) (word : String) : Bool :=
  match token with
  | .ident name => lower name == word
  | _ => false

def eatKeywordOrIdent (keyword : String) : Parse Bool := do
  if isWord (← peek) keyword then
    advance
    return true
  else return false

/-- The name that a token is where a name is wanted. -/
def keywordAsIdent : Token → Option String
  | .ident name => some name
  | .algorithm => some "algorithm"
  | .structure => some "structure"
  | .equations => some "equations"
  | .variables => some "variables"
  | .confidence => some "confidence"
  | .depth => some "depth"
  | .path => some "path"
  | .causality => some "causality"
  | .recency => some "recency"
  | .importance => some "importance"
  | .memory => some "memory"
  | .agent => some "agent"
  | .priority => some "priority"
  | .coherence => some "coherence"
  | .diversity => some "diversity"
  | .context => some "context"
  | .collection => some "collection"
  | .start => some "start"
  | .return => some "return"
  | .predict => some "predict"
  | .now => some "now"
  | .interval => some "interval"
  | .explain => some "explain"
  | .set => some "set"
  | .value => some "value"
  | .minConfidence => some "min_confidence"
  | .store => some "store"
  | .decay => some "decay"
  | .semanticSimilarity => some "semantic_similarity"
  | .consolidate => some "consolidate"
  | .infer => some "infer"
  | .storeAs => some "store_as"
  | .vector => some "_vector"
  | .traverse => some "traverse"
  | .trace => some "trace"
  | .with => some "with"
  | .maxTokens => some "max_tokens"
  | .includeContradictions => some "include_contradictions"
  | _ => none

def expectIdent : Parse String := do
  let token ← peek
  match keywordAsIdent token with
  | some name =>
      advance
      return name
  | none => fail (.found "expected identifier, found " token)

def expectStringOrIdent : Parse String := do
  match ← peek with
  | .stringLiteral content =>
      advance
      return content
  | _ => expectIdent

/-! ## Loops -/

variable {σ α : Type}

def loopWith (step : σ → Parse (Option σ)) : Nat → σ → Parse σ
  | 0, _ => fun _ => .running
  | fuel + 1, state => do
      match ← step state with
      | none => return state
      | some after => loopWith step fuel after

/-- Repeat a step until it gives no new state. A step that goes on reads a token. -/
def loop (step : σ → Parse (Option σ)) (state : σ) : Parse σ := fun parser =>
  loopWith step parser.size state parser

/-- Items with commas between them. After a comma, a token in `closing` ends the
list. -/
def commaList (item : Parse α) (closing : Option Token) : Parse (List α) := do
  let first ← item
  loop (fun items => do
    if ← eat .comma then
      if closing = some (← peek) then return none
      else return some (items ++ [← item])
    else return none) [first]

end Parse

end FunDB.Sql
