import FunDB.Sql.ParseExpr

/-! # Parsing SELECT

The clauses of a SELECT come in any order, and a clause that comes again replaces
the earlier one. -/

namespace FunDB.Sql

open Ast

namespace Parse

variable (nested : Nested)

/-! ## Items and tables -/

def isClauseKeyword : Token → Bool
  | .where => true
  | .join => true
  | .inner => true
  | .left => true
  | .right => true
  | .cross => true
  | .outer => true
  | .order => true
  | .group => true
  | .having => true
  | .limit => true
  | .offset => true
  | .within => true
  | .asOf => true
  | .as => true
  | .traverse => true
  | .trace => true
  | .return => true
  | .recall => true
  | .eof => true
  | .semicolon => true
  | _ => false

/-- Whether a token is an alias without `AS`. -/
def isBareAlias (token : Token) : Bool :=
  match token with
  | .ident _ => !isClauseKeyword token
  | _ => false

def isOf (token : Option Token) : Bool := token.any (isWord · "of")

/-- An alias after `AS`, or an identifier that is no clause keyword. -/
def parseAlias : Parse (Option String) := do
  if ← eat .as then return some (← expectIdent)
  else if isBareAlias (← peek) then return some (← expectIdent)
  else return none

def parseSelectItem : Parse (SelectItem Ast.Expr) := do
  if ← eat .star then return .wildcard
  else
    let expr ← parseExpr nested
    return .expr expr (← parseAlias)

def parseProjectionList : Parse (List (SelectItem Ast.Expr)) :=
  commaList (parseSelectItem nested) none

def parseQualifiedName : Parse String := do
  let name ← expectIdent
  if ← eat .dot then
    let sub ← expectIdent
    return s!"{name}.{sub}"
  else return name

/-- An alias of a table; `AS OF` is a clause, not an alias. -/
def parseTableAlias : Parse (Option String) := do
  let token ← peek
  let following ← peek2
  if token = .as ∧ isOf following = false then
    advance
    return some (← expectIdent)
  else if isBareAlias token then return some (← expectIdent)
  else return none

def parseTableRef : Parse TableRef := do
  if ← eat .agent then
    expect .memory
    return ⟨← expectIdent, none, true⟩
  else if ← eat .lParen then
    let _ ← nested.selectInner
    expect .rParen
    return ⟨"<subquery>", ← parseAlias, false⟩
  else
    let name ← parseQualifiedName
    return ⟨name, ← parseTableAlias, false⟩

def parseJoinType : Parse JoinType := do
  let token ← peek
  match token with
  | .inner =>
      advance
      let _ ← eat .join
      return .inner
  | .left =>
      advance
      let _ ← eat .outer
      let _ ← eat .join
      return .left
  | .right =>
      advance
      let _ ← eat .outer
      let _ ← eat .join
      return .right
  | .cross =>
      advance
      let _ ← eat .join
      return .cross
  | .outer =>
      advance
      let _ ← eat .join
      return .full
  | .join =>
      advance
      return .inner
  | _ => fail (.found "expected JOIN keyword, found " token)

def parseJoin : Parse (JoinClause Ast.Expr) := do
  let joinType ← parseJoinType
  let table ← parseTableRef nested
  if ← eat .on then return ⟨joinType, table, some (← parseExpr nested)⟩
  else return ⟨joinType, table, none⟩

def isJoin : Token → Bool
  | .join => true
  | .inner => true
  | .left => true
  | .right => true
  | .cross => true
  | .outer => true
  | _ => false

/-! ## ORDER BY -/

def parseOrderByItem : Parse (OrderByItem Ast.Expr) := do
  let expr ← parseExpr nested
  if ← eat .desc then return ⟨expr, false⟩
  else
    let _ ← eat .asc
    return ⟨expr, true⟩

def parseOrderByList : Parse (List (OrderByItem Ast.Expr)) :=
  commaList (parseOrderByItem nested) (some .rBracket)

/-! ## TRAVERSE -/

/-- `relation -> name -> name …` -/
def parseChain : Parse (List String) := do
  let first ← expectIdent
  loop (fun chain => do
    if ← eat .arrow then return some (chain ++ [← expectIdent])
    else return none) [first]

/-- `(depth: low..high)`, if there is one. -/
def parseDepthRange : Parse (Option (Ast.Expr × Ast.Expr)) := do
  if ← eat .lParen then
    let token ← peek
    if token = .depth ∨ isWord token "depth" then
      advance
      let _ ← eat .colon
    let low ← parsePrimaryExpr nested
    let high ← if ← eat .dotDot then parsePrimaryExpr nested else pure low
    expect .rParen
    return some (low, high)
  else return none

def parseTraverseClause : Parse (TraverseClause Ast.Expr) := do
  expect .traverse
  let relation ← expectIdent
  let depth ← parseDepthRange nested
  let chain ← loop (fun chain => do
    if ← eat .arrow then return some (chain ++ [← expectIdent])
    else return none) [relation]
  return ⟨relation, chain, depth.map Prod.fst, depth.map Prod.snd, none⟩

/-! ## TRACE CAUSALITY -/

def traceStep (clause : TraceCausalityClause Ast.Expr) :
    Parse (Option (TraceCausalityClause Ast.Expr)) := do
  let token ← peek
  if token = .from then
    advance
    return some { clause with start := some (← parsePrimaryExpr nested) }
  else if isWord token "to" then
    advance
    return some { clause with finish := some (← parsePrimaryExpr nested) }
  else if token = .maxDepth then
    advance
    return some { clause with maxDepth := some (← parseExpr nested) }
  else if token = .minStrength then
    advance
    return some { clause with minStrength := some (← parseExpr nested) }
  else if token = .minStability then
    advance
    return some { clause with minStability := some (← parseExpr nested) }
  else return none

def parseTraceCausalityClause : Parse (TraceCausalityClause Ast.Expr) := do
  expect .trace
  expect .causality
  loop (traceStep nested) ⟨none, none, none, none, none⟩

/-! ## WITHIN CONTEXT -/

def contextStep (options : Ast.ContextOptions Ast.Expr) :
    Parse (Option (Ast.ContextOptions Ast.Expr)) := do
  let token ← peek
  if token = .rParen ∨ token = .eof then return none
  else
    let key ← expectIdent
    expect .colon
    let options ← match lower key with
      | "max_tokens" => do
          pure { options with maxTokens := some (← parseExpr nested) }
      | "coherence" => do
          pure { options with coherence := some (← parseExpr nested) }
      | "diversity" => do
          pure { options with diversity := some (← parseExpr nested) }
      | "include_contradictions" => do
          let token ← peek
          match token with
          | .true =>
              advance
              pure { options with includeContradictions := some true }
          | .false =>
              advance
              pure { options with includeContradictions := some false }
          | _ => fail (.found "expected true/false for include_contradictions, found " token)
      | "priority" => do
          if ← eat .lBracket then
            let priority ← parseOrderByList nested
            expect .rBracket
            pure { options with priority := priority }
          else pure { options with priority := ← parseOrderByList nested }
      | other => fail (.text s!"unknown WITHIN CONTEXT option: {other}")
    let _ ← eat .comma
    return some options

def parseWithinContext : Parse (Ast.ContextOptions Ast.Expr) := do
  expect .within
  expect .context
  expect .lParen
  let options ← loop (contextStep nested) ⟨none, none, none, none, []⟩
  expect .rParen
  return options

/-! ## AS OF -/

/-- What follows `VALID TIME`. -/
def parseValidTime : Parse (AsOfClause Ast.Expr) := do
  if ← eat .between then
    let low ← parsePrimaryExpr nested
    expect .and
    return .validTimeBetween low (← parsePrimaryExpr nested)
  else return .validTimeAt (← parsePrimaryExpr nested)

def parseAsOfBody : Parse (AsOfClause Ast.Expr) := do
  let first ← peek
  if first = .systemTime then
    advance
    return .systemTime (← parsePrimaryExpr nested)
  else if first = .validTime then
    advance
    parseValidTime nested
  else if isWord first "system" then
    advance
    let _ ← eatKeywordOrIdent "time"
    return .systemTime (← parsePrimaryExpr nested)
  else if isWord first "valid" then
    advance
    let _ ← eatKeywordOrIdent "time"
    parseValidTime nested
  else fail (.found "expected SYSTEM TIME or VALID TIME after AS OF, found " first)

/-! ## RECALL BY -/

/-- `weight: value`, if the key is `weight`. -/
def parseWeight : Parse (Option Ast.Expr) := do
  let key ← expectIdent
  if lower key = "weight" then
    expect .colon
    return some (← parsePrimaryExpr nested)
  else return none

def recencyStep (options : Option String × Option String × Option Ast.Expr) :
    Parse (Option (Option String × Option String × Option Ast.Expr)) := do
  let token ← peek
  if token = .rParen ∨ token = .eof then return none
  else
    let (decay, halfLife, weight) := options
    let key ← expectIdent
    expect .colon
    let options ← match lower key with
      | "decay" => do pure (some (← expectStringOrIdent), halfLife, weight)
      | "half_life" => do pure (decay, some (← expectStringOrIdent), weight)
      | "weight" => do pure (decay, halfLife, some (← parsePrimaryExpr nested))
      | _ => do
          let _ ← parsePrimaryExpr nested
          pure options
    let _ ← eat .comma
    return some options

def parseRecallWeight : Parse (RecallWeight Ast.Expr) := do
  let name ← expectIdent
  expect .lParen
  match lower name with
  | "semantic_similarity" =>
      let query ← parsePrimaryExpr nested
      let weight ← if ← eat .comma then parseWeight nested else pure none
      expect .rParen
      return .semanticSimilarity query weight
  | "recency" =>
      let (decay, halfLife, weight) ← loop (recencyStep nested) (none, none, none)
      expect .rParen
      return .recency decay halfLife weight
  | "importance" =>
      let weight ← if (← peek) = .rParen then pure none else parseWeight nested
      expect .rParen
      return .importance weight
  | other => fail (.text s!"unknown recall weight function: {other}")

def parseRecallWeights : Parse (List (RecallWeight Ast.Expr)) := do
  let first ← parseRecallWeight nested
  loop (fun weights => do
    if ← eat .plus then return some (weights ++ [← parseRecallWeight nested])
    else return none) [first]

def parseRecallByClause : Parse (List (RecallWeight Ast.Expr)) := do
  expect .recall
  expect .by
  parseRecallWeights nested

/-! ## The clauses -/

/-- `OF` behind an `AS` that starts a clause. -/
def eatAsOf : Parse Bool := do
  let token ← peek
  let following ← peek2
  if token = .as ∧ isOf following then
    advance
    advance
    return true
  else return false

/-- Change the trace clause, if there is one already. -/
def traceOption (stmt : SelectStmt Ast.Expr)
    (set : TraceCausalityClause Ast.Expr → Ast.Expr → TraceCausalityClause Ast.Expr) :
    Parse (Option (SelectStmt Ast.Expr)) := do
  match stmt.traceCausality with
  | some clause =>
      advance
      let value ← parseExpr nested
      return some { stmt with traceCausality := some (set clause value) }
  | none => return none

def selectClause (stmt : SelectStmt Ast.Expr) : Parse (Option (SelectStmt Ast.Expr)) := do
  let token ← peek
  if isJoin token then
    return some { stmt with joins := stmt.joins ++ [← parseJoin nested] }
  else
    match token with
    | .traverse => return some { stmt with traverse := some (← parseTraverseClause nested) }
    | .trace =>
        return some { stmt with traceCausality := some (← parseTraceCausalityClause nested) }
    | .where =>
        advance
        return some { stmt with whereClause := some (← parseExpr nested) }
    | .recall => return some { stmt with recallBy := some (← parseRecallByClause nested) }
    | .group =>
        advance
        expect .by
        return some { stmt with groupBy := ← parseExprList nested }
    | .having =>
        advance
        return some { stmt with having := some (← parseExpr nested) }
    | .order =>
        advance
        expect .by
        return some { stmt with orderBy := ← parseOrderByList nested }
    | .limit =>
        advance
        return some { stmt with limit := some (← parseExpr nested) }
    | .offset =>
        advance
        return some { stmt with offset := some (← parseExpr nested) }
    | .within => return some { stmt with withinContext := some (← parseWithinContext nested) }
    | .asOf =>
        advance
        return some { stmt with asOf := some (← parseAsOfBody nested) }
    | .as =>
        if ← eatAsOf then return some { stmt with asOf := some (← parseAsOfBody nested) }
        else return none
    | .return =>
        advance
        return some { stmt with returnItems := ← parseProjectionList nested }
    | .maxDepth => traceOption nested stmt fun clause value =>
        { clause with maxDepth := some value }
    | .minStrength => traceOption nested stmt fun clause value =>
        { clause with minStrength := some value }
    | .minStability => traceOption nested stmt fun clause value =>
        { clause with minStability := some value }
    | _ => return none

/-- A statement without clauses. -/
def bareSelect (distinct : Bool) (projections : List (SelectItem Ast.Expr))
    (source : Option TableRef) : SelectStmt Ast.Expr where
  distinct := distinct
  projections := projections
  source := source
  joins := []
  whereClause := none
  groupBy := []
  having := none
  orderBy := []
  limit := none
  offset := none
  withinContext := none
  asOf := none
  traverse := none
  traceCausality := none
  returnItems := []
  recallBy := none

def finishSelect (distinct : Bool) (projections : List (SelectItem Ast.Expr))
    (source : Option TableRef) : Parse (SelectStmt Ast.Expr) :=
  loop (selectClause nested) (bareSelect distinct projections source)

def parseSelectInner : Parse (SelectStmt Ast.Expr) := do
  expect .select
  let distinct ← eat .distinct
  let projections ← parseProjectionList nested
  if ← eat .from then
    finishSelect nested distinct projections (some (← parseTableRef nested))
  else finishSelect nested distinct projections none

/-! ## Nesting -/

/-- The functions that may be called inside so many brackets. -/
def nestedTo : Nat → Nested
  | 0 => ⟨fun _ => .running, fun _ => .running, fun _ => .running, fun _ => .running⟩
  | depth + 1 =>
      let inner := nestedTo depth
      ⟨parseExpr inner, parseNotExpr inner, parsePrimaryExpr inner, parseSelectInner inner⟩

/-- Parse with as much nesting as there are tokens. -/
def withNesting {α : Type} (parse : Nested → Parse α) : Parse α := fun parser =>
  parse (nestedTo parser.size) parser

end Parse

end FunDB.Sql
