import FunDB.Sql.ParseSelect

/-! # Parsing statements -/

namespace FunDB.Sql

open Ast

namespace Parse

variable (nested : Nested)

/-! ## Assignments -/

/-- `=` or `==`, or both, or none. -/
def eatEquals : Parse Unit := do
  let _ ← eat .assign
  let _ ← eat .eq
  return ()

def parseAssignment : Parse (String × Ast.Expr) := do
  let name ← expectIdent
  if ← eat .assign then return (name, ← parseExpr nested)
  else
    let _ ← eat .eq
    return (name, ← parseExpr nested)

def parseAssignmentList : Parse (List (String × Ast.Expr)) :=
  commaList (parseAssignment nested) none

/-- `key = value` of GIVEN and HAD. -/
def parsePair : Parse (String × Ast.Expr) := do
  let key ← expectIdent
  eatEquals
  return (key, ← parseExpr nested)

/-! ## SELECT -/

def parseInterveneAfterFrom (projections : List (SelectItem Ast.Expr)) :
    Parse EstimateEffectStmt := do
  expect .intervene
  expect .on
  let model ← expectIdent
  expect .set
  let setVars ← parseAssignmentList nested
  expect .predict
  let predict ← expectIdent
  return ⟨projections, model, setVars, predict, none⟩

def parseIntervene : Parse EstimateEffectStmt := parseInterveneAfterFrom nested [.wildcard]

def counterfactualStep (stmt : CounterfactualStmt) : Parse (Option CounterfactualStmt) := do
  match ← peek with
  | .given =>
      advance
      let key ← expectIdent
      eatEquals
      if ← eat .lParen then
        let sub ← parseSelectInner nested
        expect .rParen
        return some { stmt with given := some (.subquery sub) }
      else
        let value ← parseExpr nested
        let pairs ← loop (fun pairs => do
          if ← eat .comma then return some (pairs ++ [← parsePair nested])
          else return none) [(key, value)]
        return some { stmt with given := some (.pairs pairs) }
  | .had =>
      advance
      return some { stmt with had := stmt.had ++ (← commaList (parsePair nested) none) }
  | .predict =>
      advance
      return some { stmt with predict := ← expectIdent }
  | _ => return none

def parseCounterfactualBody (projections : List (SelectItem Ast.Expr)) :
    Parse CounterfactualStmt := do
  expect .counterfactual
  expect .on
  let model ← expectIdent
  loop (counterfactualStep nested) ⟨projections, model, none, [], ""⟩

def parseCounterfactualWithSelect : Parse CounterfactualStmt := do
  expect .counterfactual
  let sub ← parseSelectInner nested
  if ← eat .intervene then
    expect .set
    let had ← parseAssignmentList nested
    return ⟨sub.projections, "", some (.subquery sub), had, ""⟩
  else return ⟨sub.projections, "", some (.subquery sub), [], ""⟩

def parseCounterfactualDispatch : Parse CounterfactualStmt := do
  if (← peek2) = some .select then parseCounterfactualWithSelect nested
  else parseCounterfactualBody nested [.wildcard]

/-- `FROM TRAVERSE a -> b [AS alias]` -/
def parseFromTraverse (distinct : Bool) (projections : List (SelectItem Ast.Expr)) :
    Parse (SelectStmt Ast.Expr) := do
  advance
  let chain ← parseChain
  let targetAlias ← if ← eat .as then some <$> expectIdent else pure none
  let stmt ← finishSelect nested distinct projections none
  return { stmt with traverse := some ⟨chain.headD "", chain, none, none, targetAlias⟩ }

def parseSelectStmt : Parse Statement := do
  expect .select
  let distinct ← eat .distinct
  let projections ← parseProjectionList nested
  if ← eat .from then
    match ← peek with
    | .intervene => return .estimateEffect (← parseInterveneAfterFrom nested projections)
    | .counterfactual => return .counterfactual (← parseCounterfactualBody nested projections)
    | .traverse => return .select (← parseFromTraverse nested distinct projections)
    | _ =>
        let source ← parseTableRef nested
        return .select (← finishSelect nested distinct projections (some source))
  else return .select (← finishSelect nested distinct projections none)

def traverseStep (stmt : SelectStmt Ast.Expr) : Parse (Option (SelectStmt Ast.Expr)) := do
  match ← peek with
  | .where =>
      advance
      return some { stmt with whereClause := some (← parseExpr nested) }
  | .limit =>
      advance
      return some { stmt with limit := some (← parseExpr nested) }
  | .order =>
      advance
      expect .by
      return some { stmt with orderBy := ← parseOrderByList nested }
  | .and =>
      match stmt.whereClause with
      | some condition =>
          advance
          let extra ← parseExpr nested
          return some { stmt with whereClause := some (.binaryOp .and condition extra) }
      | none => return none
  | _ => return none

def parseTraverseStmt : Parse (SelectStmt Ast.Expr) := do
  expect .traverse
  let chain ← parseChain
  loop (traverseStep nested)
    { bareSelect false [.wildcard] none with
      traverse := some ⟨chain.headD "", chain, none, none, none⟩ }

/-! ## TRACE CAUSALITY -/

/-- An end of a trace, with a condition after `WHERE` if there is one. -/
def parseTraceEnd : Parse Ast.Expr := do
  let base ← parsePrimaryExpr nested
  if ← eat .where then return .binaryOp .and base (← parseExpr nested)
  else return base

def traceTopStep (state : TraceCausalityClause Ast.Expr × List (SelectItem Ast.Expr)) :
    Parse (Option (TraceCausalityClause Ast.Expr × List (SelectItem Ast.Expr))) := do
  let (clause, fields) := state
  let token ← peek
  if token = .from then
    advance
    return some ({ clause with start := some (← parseTraceEnd nested) }, fields)
  else if isWord token "to" then
    advance
    return some ({ clause with finish := some (← parseTraceEnd nested) }, fields)
  else if token = .maxDepth then
    advance
    return some ({ clause with maxDepth := some (← parseExpr nested) }, fields)
  else if token = .minStrength then
    advance
    return some ({ clause with minStrength := some (← parseExpr nested) }, fields)
  else if token = .minStability then
    advance
    return some ({ clause with minStability := some (← parseExpr nested) }, fields)
  else if token = .return then
    advance
    return some (clause, ← parseProjectionList nested)
  else if token = .order then
    advance
    expect .by
    let _ ← parseOrderByList nested
    return some (clause, fields)
  else return none

def parseTraceCausalityTop : Parse TraceCausalityStmt := do
  expect .trace
  expect .causality
  let (clause, fields) ← loop (traceTopStep nested) (⟨none, none, none, none, none⟩, [])
  match clause.start with
  | none => fail (.text "TRACE CAUSALITY requires FROM <expr>")
  | some start =>
      match clause.finish with
      | none => fail (.text "TRACE CAUSALITY requires TO <expr>")
      | some finish =>
          return ⟨"", start, finish, clause.maxDepth, clause.minStrength,
            clause.minStability, fields⟩

/-! ## ESTIMATE EFFECT and DISCOVER -/

/-- A table with joins that are read and dropped. -/
def parseJoinedTable : Parse TableRef := do
  let table ← parseTableRef nested
  loop (fun table => do
    if isJoin (← peek) then
      let _ ← parseJoin nested
      return some table
    else return none) table

def parseEstimateEffectNatural : Parse EstimateEffectStmt := do
  advance
  let _ ← eatKeywordOrIdent "effect"
  let _ ← eatKeywordOrIdent "of"
  let treatment ← expectIdent
  expect .on
  let outcome ← expectIdent
  if ← eat .from then
    let table ← parseJoinedTable nested
    if ← eat .where then
      let _ ← parseExpr nested
      return ⟨[.wildcard], table.name, [(treatment, .literal (.int 1))], outcome, none⟩
    else return ⟨[.wildcard], table.name, [(treatment, .literal (.int 1))], outcome, none⟩
  else return ⟨[.wildcard], "", [(treatment, .literal (.int 1))], outcome, none⟩

/-- A word that may be a keyword token or an identifier. -/
def eatWord (keyword : Token) (word : String) : Parse Unit := do
  if ← eat keyword then return ()
  else
    let _ ← eatKeywordOrIdent word
    return ()

def discoverStep (stmt : DiscoverCausalStmt) : Parse (Option DiscoverCausalStmt) := do
  let token ← peek
  if token = .variables ∨ isWord token "variables" then
    advance
    return some { stmt with «variables» := stmt.variables ++ (← commaList expectIdent none) }
  else if token = .algorithm then
    advance
    return some { stmt with algorithm := some (← expectStringOrIdent) }
  else if token = .minConfidence ∨ isWord token "min_confidence" then
    advance
    return some { stmt with minConfidence := some (← parseExpr nested) }
  else if token = .store ∨ isWord token "store" then
    advance
    eatWord .as "as"
    return some { stmt with storeAs := some (← expectStringOrIdent) }
  else return none

def parseDiscoverSource : Parse String := do
  if ← eat .in then
    eatWord .collection "collection"
    expectIdent
  else if ← eat .from then return (← parseJoinedTable nested).name
  else fail (.text "expected IN or FROM after DISCOVER CAUSAL STRUCTURE")

def parseDiscoverCausal : Parse DiscoverCausalStmt := do
  expect .discover
  eatWord .causality "causal"
  eatWord .structure "structure"
  let collection ← parseDiscoverSource nested
  loop (discoverStep nested) ⟨collection, none, none, none, []⟩

/-! ## UNDERSTAND -/

/-- The words of a period, up to the next option. -/
def parsePeriod : Parse (List String) :=
  loop (fun parts => do
    match ← peek with
    | .ident word =>
        advance
        return some (parts ++ [word])
    | .intLiteral value =>
        advance
        return some (parts ++ [toString value])
    | .stringLiteral content =>
        advance
        return some (parts ++ [content])
    | _ => return none) []

def understandWith : Parse UnderstandOption := do
  let token ← peek
  let key ← match token with
    | .ident name => pure (lower name)
    | .confidence => pure "confidence"
    | .minConfidence => pure "min_confidence"
    | _ => fail (.found "expected option name after WITH in UNDERSTAND, found " token)
  match key with
  | "confidence" => return .confidence (← parseExpr nested)
  | "min_similarity" =>
      advance
      return .minSimilarity (← parseExpr nested)
  | other => fail (.text s!"unknown UNDERSTAND WITH option: {other}")

def understandStep (options : List UnderstandOption) :
    Parse (Option (List UnderstandOption)) := do
  let token ← peek
  if token = .with then
    advance
    return some (options ++ [← understandWith nested])
  else if token = .within then
    advance
    return some (options ++ [.within (" ".intercalate (← parsePeriod))])
  else if token = .depth then
    advance
    return some (options ++ [.depth (← parseExpr nested)])
  else if token = .in then
    advance
    eatWord .collection "collection"
    return some (options ++ [.inCollection (← expectIdent)])
  else if isWord token "using" then
    advance
    eatWord .vector "vector"
    return some (options ++ [.usingVector (← expectStringOrIdent)])
  else return none

def expectString (message : String) : Parse String := do
  let token ← peek
  match token with
  | .stringLiteral content =>
      advance
      return content
  | _ => fail (.found message token)

def parseUnderstand : Parse UnderstandStmt := do
  expect .understand
  let intent ← expectString "UNDERSTAND expects a string literal, found "
  return ⟨intent, ← loop (understandStep nested) []⟩

/-! ## Agent memory -/

/-- `FOR AGENT expr` or `WITHIN CONTEXT expr` -/
def parseAgentId (message : String) : Parse Ast.Expr := do
  if ← eat .for then
    expect .agent
    parsePrimaryExpr nested
  else if ← eat .within then
    expect .context
    parsePrimaryExpr nested
  else fail (.text message)

def rememberStep (stmt : RememberStmt) : Parse (Option RememberStmt) := do
  match ← peek with
  | .with =>
      advance
      let key ← expectIdent
      match lower key with
      | "importance" => return some { stmt with importance := some (← parsePrimaryExpr nested) }
      | "_confidence" =>
          eatEquals
          return some { stmt with importance := some (← parsePrimaryExpr nested) }
      | other => fail (.text s!"unknown REMEMBER WITH option: {other}")
  | .importance =>
      advance
      return some { stmt with importance := some (← parsePrimaryExpr nested) }
  | .as =>
      advance
      return some { stmt with memoryType := some (← expectIdent) }
  | _ => return none

def parseRemember : Parse RememberStmt := do
  expect .remember
  let content ← expectString "REMEMBER expects a string literal, found "
  let agentId ← parseAgentId nested "expected FOR AGENT or WITHIN CONTEXT after REMEMBER string"
  loop (rememberStep nested) ⟨content, agentId, none, none⟩

def recallByStep (stmt : RecallByStmt) : Parse (Option RecallByStmt) := do
  match ← peek with
  | .where =>
      advance
      let _ ← parseExpr nested
      return some stmt
  | .order =>
      advance
      expect .by
      let _ ← parseOrderByList nested
      return some stmt
  | .limit =>
      advance
      return some { stmt with limit := some (← parseExpr nested) }
  | _ => return none

def parseRecallBy : Parse RecallByStmt := do
  expect .recall
  expect .by
  let weights ← match ← peek with
    | .stringLiteral _ => do
        let query ← parsePrimaryExpr nested
        pure [RecallWeight.semanticSimilarity query none]
    | _ => parseRecallWeights nested
  let agentId ← parseAgentId nested
    "expected FOR AGENT or WITHIN CONTEXT after RECALL BY weights"
  loop (recallByStep nested) ⟨weights, agentId, none⟩

/-- A condition after `WHERE`, if there is one. -/
def parseWhere : Parse (Option Ast.Expr) := do
  if ← eat .where then return some (← parseExpr nested)
  else return none

def parseForget : Parse ForgetStmt := do
  expect .forget
  let agentId ← parseAgentId nested "expected FOR AGENT or WITHIN CONTEXT after FORGET"
  return ⟨agentId, ← parseWhere nested⟩

/-! ## INSERT, UPDATE and DELETE -/

def parseRow : Parse (List Ast.Expr) := do
  expect .lParen
  let row ← commaList (parseExpr nested) none
  expect .rParen
  return row

/-- The column names in parentheses, if there are any. -/
def parseColumns : Parse (List String) := do
  if ← eat .lParen then
    let columns ← commaList expectIdent none
    expect .rParen
    return columns
  else return []

def parseInsert : Parse InsertStmt := do
  expect .insert
  expect .into
  let table ← parseQualifiedName
  let columns ← parseColumns
  expect .values
  return ⟨table, columns, ← commaList (parseRow nested) none⟩

def parseUpdate : Parse UpdateStmt := do
  expect .update
  let table ← parseQualifiedName
  let aliasName ← if ← eat .as then some <$> expectIdent else pure none
  expect .set
  let assignments ← parseAssignmentList nested
  return ⟨table, aliasName, assignments, ← parseWhere nested⟩

def parseDelete : Parse DeleteStmt := do
  expect .delete
  expect .from
  let table ← parseQualifiedName
  return ⟨table, ← parseWhere nested⟩

/-! ## CREATE -/

/-- `NOT NULL`, if it is there. -/
def parseNullable : Parse Bool := do
  if ← eat .not then
    expect .null
    return false
  else return true

def columnStep (columns : List ColumnDef) : Parse (Option (List ColumnDef)) := do
  let token ← peek
  if token = .rParen ∨ token = .eof then return none
  else
    let name ← expectIdent
    let ty ← expectIdent
    let nullable ← parseNullable
    let _ ← eat .comma
    return some (columns ++ [⟨name, ty, nullable⟩])

def parseCreateTableBody : Parse CreateCollectionStmt := do
  let name ← expectIdent
  if ← eat .lParen then
    let columns ← loop columnStep []
    expect .rParen
    return ⟨name, false, columns⟩
  else return ⟨name, false, []⟩

def parseCreateIndexBody : Parse CreateIndexStmt := do
  let name ← expectIdent
  expect .on
  let table ← expectIdent
  expect .lParen
  let columns ← commaList expectIdent none
  expect .rParen
  return ⟨name, table, columns, false⟩

inductive ModelSection where
  | «variables»
  | «structure»
  | equations
deriving DecidableEq, Repr

/-- The section of a causal model that a token opens. -/
def modelSection (token : Token) : Option ModelSection :=
  if token = .variables ∨ isWord token "variables" then some .variables
  else if token = .structure ∨ isWord token "structure" then some .structure
  else if token = .equations ∨ isWord token "equations" then some .equations
  else none

def isNextSectionOrEnd (token : Token) : Bool :=
  token = .rParen ∨ token = .eof ∨ (modelSection token).isSome

def variableStep (entries : List CausalVariable) : Parse (Option (List CausalVariable)) := do
  if isNextSectionOrEnd (← peek) then return none
  else
    let name ← expectIdent
    let ty ← expectIdent
    let _ ← eat .comma
    return some (entries ++ [⟨name, ty⟩])

def edgeStep (edges : List (String × String)) : Parse (Option (List (String × String))) := do
  if isNextSectionOrEnd (← peek) then return none
  else
    let start ← expectIdent
    expect .arrow
    let finish ← expectIdent
    let _ ← eat .comma
    return some (edges ++ [(start, finish)])

/-- `LEARN FROM collection`, if it is there. -/
def parseLearnFrom : Parse (Option String) := do
  if isWord (← peek) "learn" then
    advance
    eatWord .from "from"
    return some (← expectIdent)
  else return none

def equationStep (equations : List CausalEquation) : Parse (Option (List CausalEquation)) := do
  if isNextSectionOrEnd (← peek) then return none
  else
    let variableName ← expectIdent
    eatEquals
    let rhs ← parsePrimaryExpr nested
    let learnFrom ← parseLearnFrom
    let _ ← eat .comma
    return some (equations ++ [⟨variableName, rhs, learnFrom⟩])

/-- Read the next section; a token that opens none is skipped. -/
def modelStep (stmt : CreateCausalModelStmt) : Parse (Option CreateCausalModelStmt) := do
  let token ← peek
  if token = .rParen ∨ token = .eof then return none
  else
    advance
    match modelSection token with
    | some .variables =>
        let _ ← eat .colon
        return some { stmt with «variables» := ← loop variableStep stmt.variables }
    | some .structure =>
        let _ ← eat .colon
        return some { stmt with structureEdges := ← loop edgeStep stmt.structureEdges }
    | some .equations =>
        let _ ← eat .colon
        return some { stmt with equations := ← loop (equationStep nested) stmt.equations }
    | none => return some stmt

def parseCreateCausalModelBody : Parse CreateCausalModelStmt := do
  let name ← expectIdent
  let equilibrium ← eat .modeEquilibrium
  let _ ← eat .as
  expect .lParen
  let stmt ← loop (modelStep nested)
    ⟨name, if equilibrium then .equilibrium else .standard, [], [], []⟩
  expect .rParen
  return stmt

def parseCreate : Parse Statement := do
  expect .create
  let token ← peek
  match token with
  | .table =>
      advance
      return .createCollection (← parseCreateTableBody)
  | .collection =>
      advance
      return .createCollection (← parseCreateTableBody)
  | .index =>
      advance
      return .createIndex (← parseCreateIndexBody)
  | _ =>
      if isWord token "causal" then
        advance
        let _ ← eatKeywordOrIdent "model"
        return .createCausalModel (← parseCreateCausalModelBody nested)
      else fail (.found "unexpected CREATE target: " token)

/-! ## All statements -/

def parseStatementKind : Parse Statement := do
  let token ← peek
  match token with
  | .select => parseSelectStmt nested
  | .insert => return .insert (← parseInsert nested)
  | .update => return .update (← parseUpdate nested)
  | .delete => return .delete (← parseDelete nested)
  | .create => parseCreate nested
  | .understand => return .understand (← parseUnderstand nested)
  | .remember => return .remember (← parseRemember nested)
  | .recall => return .recallBy (← parseRecallBy nested)
  | .forget => return .forget (← parseForget nested)
  | .discover => return .discoverCausal (← parseDiscoverCausal nested)
  | .trace => return .traceCausality (← parseTraceCausalityTop nested)
  | .intervene => return .estimateEffect (← parseIntervene nested)
  | .counterfactual => return .counterfactual (← parseCounterfactualDispatch nested)
  | .traverse => return .select (← parseTraverseStmt nested)
  | .eof => fail (.text "unexpected end of input")
  | _ =>
      if isWord token "estimate" then
        return .estimateEffect (← parseEstimateEffectNatural nested)
      else fail (.found "unexpected token " token)

def skipSemicolons : Parse Unit :=
  loop (fun _ => do
    if ← eat .semicolon then return some ()
    else return none) ()

def parseStatement : Parse Statement :=
  withNesting fun nested => do
    skipSemicolons
    let stmt ← parseStatementKind nested
    let _ ← eat .semicolon
    return stmt

end Parse

def Parser.new : List (Token × Span) → Option Parser
  | [] => none
  | token :: rest => some ⟨token, rest⟩

/-- How parsing a text ends. -/
inductive ParseOutcome where
  | ok (stmt : Statement)
  | lexError (error : LexError)
  | parseError (error : ParseError)
  | panic
  | running

def parse (platform : TextPlatform) (input : String) : ParseOutcome :=
  match (Lexer.new input).tokenize platform with
  | .err error => .lexError error
  | .panic => .panic
  | .running => .running
  | .ok (tokens, _) =>
      match Parser.new tokens with
      | none => .panic
      | some parser =>
          match Parse.parseStatement parser with
          | .ok stmt _ => .ok stmt
          | .err error => .parseError error
          | .running => .running

end FunDB.Sql
