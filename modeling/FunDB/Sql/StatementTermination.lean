import FunDB.Sql.ParseStatement
import FunDB.Sql.SelectTermination

/-! # Statements end

The parser comes to a statement or an error on every list of tokens that ends with the end
of the input. -/

namespace FunDB.Sql

open Ast

namespace Parse

variable {limit : Nat}

/-! ## Words -/

theorem returns_eatEquals : Returns limit eatEquals :=
  Halts.after (.eat rfl) fun _ => Halts.after (.eat rfl) fun _ => .done ()

theorem returns_eatWord {keyword : Token} (inside : isEnd keyword = false) (word : String) :
    Returns limit (eatWord keyword word) := by
  apply Halts.eatRead inside
  · exact .done ()
  · exact (returns_eatKeywordOrIdent word).after fun _ => .done ()

theorem reads_expectString (message : String) : Reads limit (expectString message) := by
  apply Halts.peek
  intro token
  split
  · exact Halts.advanceRead rfl (.done _)
  · exact .fail _

/-- One more word of a period. -/
def periodStep (parts : List String) : Parse (Option (List String)) := do
  match ← peek with
  | .ident word =>
      advance
      return some (parts ++ [word])
  | .intLiteral value =>
      advance
      return some (parts ++ [toString value])
  | .stringLiteral content =>
      advance
      return some (parts ++ [content])
  | _ => return none

theorem goesOn_periodStep (parts : List String) : GoesOn limit (periodStep parts) := by
  apply Halts.peek
  intro token
  split
  · exact Halts.advanceRead rfl (.done _)
  · exact Halts.advanceRead rfl (.done _)
  · exact Halts.advanceRead rfl (.done _)
  · exact .stop

theorem returns_parsePeriod : Returns limit parsePeriod :=
  Halts.loop goesOn_periodStep []

def semicolonStep (_ : Unit) : Parse (Option Unit) := do
  if ← eat .semicolon then return some ()
  else return none

theorem goesOn_semicolonStep (state : Unit) : GoesOn limit (semicolonStep state) :=
  Halts.eatRead rfl (.done _) .stop

theorem returns_skipSemicolons : Returns limit skipSemicolons :=
  Halts.loop goesOn_semicolonStep ()

/-! ## Parts without expressions -/

theorem returns_parseColumns : Returns limit parseColumns := by
  apply Halts.eatRead rfl
  · apply Halts.after (reads_commaList reads_expectIdent none)
    intro columns
    exact Halts.after (.expect rfl) fun _ => .done columns
  · exact .done []

theorem returns_parseNullable : Returns limit parseNullable := by
  apply Halts.eatRead rfl
  · exact Halts.after (.expect rfl) fun _ => .done false
  · exact .done true

theorem goesOn_columnStep (columns : List ColumnDef) : GoesOn limit (columnStep columns) := by
  apply Halts.peek
  intro token
  split
  · exact .stop
  · apply Halts.read reads_expectIdent
    intro name
    apply Halts.after reads_expectIdent
    intro ty
    apply Halts.after returns_parseNullable
    intro nullable
    exact Halts.after (.eat rfl) fun _ => .done _

theorem reads_parseCreateTableBody : Reads limit parseCreateTableBody := by
  apply Halts.read reads_expectIdent
  intro name
  apply Halts.eatRead rfl
  · apply Halts.after (Halts.loop goesOn_columnStep [])
    intro columns
    exact Halts.after (.expect rfl) fun _ => .done _
  · exact .done _

theorem reads_parseCreateIndexBody : Reads limit parseCreateIndexBody := by
  apply Halts.read reads_expectIdent
  intro name
  apply Halts.after (.expect rfl)
  intro _
  apply Halts.after reads_expectIdent
  intro table
  apply Halts.after (.expect rfl)
  intro _
  apply Halts.after (reads_commaList reads_expectIdent none)
  intro columns
  exact Halts.after (.expect rfl) fun _ => .done _

theorem goesOn_variableStep (entries : List CausalVariable) :
    GoesOn limit (variableStep entries) := by
  apply Halts.peek
  intro token
  split
  · exact .stop
  · apply Halts.read reads_expectIdent
    intro name
    apply Halts.after reads_expectIdent
    intro ty
    exact Halts.after (.eat rfl) fun _ => .done _

theorem goesOn_edgeStep (edges : List (String × String)) : GoesOn limit (edgeStep edges) := by
  apply Halts.peek
  intro token
  split
  · exact .stop
  · apply Halts.read reads_expectIdent
    intro start
    apply Halts.after (.expect rfl)
    intro _
    apply Halts.after reads_expectIdent
    intro finish
    exact Halts.after (.eat rfl) fun _ => .done _

theorem returns_parseLearnFrom : Returns limit parseLearnFrom := by
  apply Halts.peek
  intro token
  split
  · next word =>
      apply Halts.advanceRead (isEnd_of_isWord word)
      apply Halts.after (returns_eatWord rfl _)
      intro _
      exact reads_expectIdent.after fun _ => .done _
  · exact .done none

/-! ## Assignments and SELECT -/

variable {nested : Nested} (inner : ReadsNested limit nested)

include inner

theorem reads_parseAssignment : Reads (limit + 1) (parseAssignment nested) := by
  have value := reads_parseExpr inner
  apply Halts.read reads_expectIdent
  intro name
  apply Halts.eatRead rfl
  · exact value.after fun _ => .done _
  · apply Halts.after (.eat rfl)
    intro _
    exact value.after fun _ => .done _

theorem reads_parseAssignmentList : Reads (limit + 1) (parseAssignmentList nested) :=
  reads_commaList (reads_parseAssignment inner) none

theorem reads_parsePair : Reads (limit + 1) (parsePair nested) := by
  apply Halts.read reads_expectIdent
  intro key
  apply Halts.after returns_eatEquals
  intro _
  exact (reads_parseExpr inner).after fun _ => .done _

theorem reads_parseInterveneAfterFrom (projections : List (SelectItem Ast.Expr)) :
    Reads (limit + 1) (parseInterveneAfterFrom nested projections) := by
  apply Halts.read (.expect rfl)
  intro _
  apply Halts.after (.expect rfl)
  intro _
  apply Halts.after reads_expectIdent
  intro model
  apply Halts.after (.expect rfl)
  intro _
  apply Halts.after (reads_parseAssignmentList inner)
  intro setVars
  apply Halts.after (.expect rfl)
  intro _
  exact reads_expectIdent.after fun _ => .done _

/-- One more pair of GIVEN. -/
def pairStep (nested : Nested) (pairs : List (String × Ast.Expr)) :
    Parse (Option (List (String × Ast.Expr))) := do
  if ← eat .comma then return some (pairs ++ [← parsePair nested])
  else return none

theorem goesOn_pairStep (pairs : List (String × Ast.Expr)) :
    GoesOn (limit + 1) (pairStep nested pairs) :=
  Halts.eatRead rfl ((reads_parsePair inner).after fun _ => .done _) .stop

theorem goesOn_counterfactualStep (stmt : CounterfactualStmt) :
    GoesOn (limit + 1) (counterfactualStep nested stmt) := by
  apply Halts.peek
  intro token
  split
  · apply Halts.advanceRead rfl
    apply Halts.after reads_expectIdent
    intro key
    apply Halts.after returns_eatEquals
    intro _
    apply Halts.eatRead rfl
    · apply Halts.after (reads_parseSelectInner inner)
      intro sub
      exact Halts.after (.expect rfl) fun _ => .done _
    · apply Halts.after (reads_parseExpr inner)
      intro value
      exact (Halts.loop (goesOn_pairStep inner) [(key, value)]).after fun _ => .done _
  · apply Halts.advanceRead rfl
    exact (reads_commaList (reads_parsePair inner) none).after fun _ => .done _
  · exact Halts.advanceRead rfl (reads_expectIdent.after fun _ => .done _)
  · exact .stop

theorem reads_parseCounterfactualBody (projections : List (SelectItem Ast.Expr)) :
    Reads (limit + 1) (parseCounterfactualBody nested projections) := by
  apply Halts.read (.expect rfl)
  intro _
  apply Halts.after (.expect rfl)
  intro _
  apply Halts.after reads_expectIdent
  intro model
  exact Halts.loop (goesOn_counterfactualStep inner) _

theorem reads_parseCounterfactualWithSelect :
    Reads (limit + 1) (parseCounterfactualWithSelect nested) := by
  apply Halts.read (.expect rfl)
  intro _
  apply Halts.after (reads_parseSelectInner inner)
  intro sub
  apply Halts.eatRead rfl
  · apply Halts.after (.expect rfl)
    intro _
    exact (reads_parseAssignmentList inner).after fun _ => .done _
  · exact .done _

theorem reads_parseCounterfactualDispatch :
    Reads (limit + 1) (parseCounterfactualDispatch nested) := by
  apply Halts.peek2
  intro following
  split
  · exact reads_parseCounterfactualWithSelect inner
  · exact reads_parseCounterfactualBody inner _

theorem returns_parseFromTraverse (distinct : Bool) (projections : List (SelectItem Ast.Expr)) :
    Returns (limit + 1) (parseFromTraverse nested distinct projections) := by
  have clauses := returns_finishSelect inner distinct projections none
  apply Halts.after .advanceAny
  intro _
  apply Halts.after reads_parseChain
  intro chain
  apply Halts.after (.eat rfl)
  intro renamed
  dsimp only
  split
  · apply Halts.after (reads_expectIdent.map _)
    intro targetAlias
    exact clauses.after fun _ => .done _
  · exact clauses.after fun _ => .done _

theorem reads_parseSelectStmt : Reads (limit + 1) (parseSelectStmt nested) := by
  apply Halts.read (.expect rfl)
  intro _
  apply Halts.after (.eat rfl)
  intro distinct
  apply Halts.after (reads_parseProjectionList inner)
  intro projections
  apply Halts.eatRead rfl
  · apply Halts.peek
    intro token
    split
    · exact Halts.after (reads_parseInterveneAfterFrom inner projections) fun _ => .done _
    · exact Halts.after (reads_parseCounterfactualBody inner projections) fun _ => .done _
    · exact Halts.after (returns_parseFromTraverse inner distinct projections) fun _ => .done _
    · apply Halts.after (reads_parseTableRef inner)
      intro source
      exact (returns_finishSelect inner distinct projections (some source)).after fun _ => .done _
  · exact (returns_finishSelect inner distinct projections none).after fun _ => .done _

theorem goesOn_traverseStep (stmt : SelectStmt Ast.Expr) :
    GoesOn (limit + 1) (traverseStep nested stmt) := by
  have expr := reads_parseExpr inner
  apply Halts.peek
  intro token
  split
  · exact Halts.advanceRead rfl (expr.after fun _ => .done _)
  · exact Halts.advanceRead rfl (expr.after fun _ => .done _)
  · apply Halts.advanceRead rfl
    apply Halts.after (.expect rfl)
    intro _
    exact (reads_parseOrderByList inner).after fun _ => .done _
  · split
    · exact Halts.advanceRead rfl (expr.after fun _ => .done _)
    · exact .stop
  · exact .stop

theorem reads_parseTraverseStmt : Reads (limit + 1) (parseTraverseStmt nested) := by
  apply Halts.read (.expect rfl)
  intro _
  apply Halts.after reads_parseChain
  intro chain
  exact Halts.loop (goesOn_traverseStep inner) _

/-! ## TRACE CAUSALITY -/

theorem reads_parseTraceEnd : Reads (limit + 1) (parseTraceEnd nested) := by
  apply Halts.read (reads_parsePrimaryExpr inner)
  intro base
  apply Halts.eatRead rfl
  · exact (reads_parseExpr inner).after fun _ => .done _
  · exact .done base

theorem goesOn_traceTopStep
    (state : TraceCausalityClause Ast.Expr × List (SelectItem Ast.Expr)) :
    GoesOn (limit + 1) (traceTopStep nested state) := by
  have expr := reads_parseExpr inner
  have traceEnd := reads_parseTraceEnd inner
  rcases state with ⟨clause, fields⟩
  apply Halts.peek
  intro token
  split
  · next same => exact Halts.advanceRead (by rw [same]; rfl) (traceEnd.after fun _ => .done _)
  · split
    · next word => exact Halts.advanceRead (isEnd_of_isWord word) (traceEnd.after fun _ => .done _)
    · split
      · next same => exact Halts.advanceRead (by rw [same]; rfl) (expr.after fun _ => .done _)
      · split
        · next same => exact Halts.advanceRead (by rw [same]; rfl) (expr.after fun _ => .done _)
        · split
          · next same => exact Halts.advanceRead (by rw [same]; rfl) (expr.after fun _ => .done _)
          · split
            · next same =>
                apply Halts.advanceRead (by rw [same]; rfl)
                exact (reads_parseProjectionList inner).after fun _ => .done _
            · split
              · next same =>
                  apply Halts.advanceRead (by rw [same]; rfl)
                  apply Halts.after (.expect rfl)
                  intro _
                  exact (reads_parseOrderByList inner).after fun _ => .done _
              · exact .stop

theorem reads_parseTraceCausalityTop : Reads (limit + 1) (parseTraceCausalityTop nested) := by
  apply Halts.read (.expect rfl)
  intro _
  apply Halts.after (.expect rfl)
  intro _
  apply Halts.after (Halts.loop (goesOn_traceTopStep inner) _)
  intro state
  rcases state with ⟨clause, fields⟩
  dsimp only
  split
  · exact .fail _
  · split
    · exact .fail _
    · exact .done _

/-! ## ESTIMATE EFFECT and DISCOVER -/

/-- One more join behind a table. -/
def joinedStep (nested : Nested) (table : TableRef) : Parse (Option TableRef) := do
  if isJoin (← peek) then
    let _ ← parseJoin nested
    return some table
  else return none

theorem goesOn_joinedStep (table : TableRef) : GoesOn (limit + 1) (joinedStep nested table) := by
  apply Halts.peek
  intro token
  split
  · exact (reads_parseJoin inner).read fun _ => .done _
  · exact .stop

theorem reads_parseJoinedTable : Reads (limit + 1) (parseJoinedTable nested) :=
  (reads_parseTableRef inner).read fun table => Halts.loop (goesOn_joinedStep inner) table

theorem returns_parseEstimateEffectNatural :
    Returns (limit + 1) (parseEstimateEffectNatural nested) := by
  apply Halts.after .advanceAny
  intro _
  apply Halts.after (returns_eatKeywordOrIdent _)
  intro _
  apply Halts.after (returns_eatKeywordOrIdent _)
  intro _
  apply Halts.after reads_expectIdent
  intro treatment
  apply Halts.after (.expect rfl)
  intro _
  apply Halts.after reads_expectIdent
  intro outcome
  apply Halts.eatRead rfl
  · apply Halts.after (reads_parseJoinedTable inner)
    intro table
    apply Halts.eatRead rfl
    · exact (reads_parseExpr inner).after fun _ => .done _
    · exact .done _
  · exact .done _

theorem goesOn_discoverStep (stmt : DiscoverCausalStmt) :
    GoesOn (limit + 1) (discoverStep nested stmt) := by
  have keyword : ∀ {token other : Token} {word : String}, isEnd other = false →
      token = other ∨ isWord token word = true → isEnd token = false := by
    intro token other word inside named
    rcases named with same | found
    · rw [same]
      exact inside
    · exact isEnd_of_isWord found
  apply Halts.peek
  intro token
  split
  · next named =>
      apply Halts.advanceRead (keyword rfl named)
      exact (reads_commaList reads_expectIdent none).after fun _ => .done _
  · split
    · next same =>
        apply Halts.advanceRead (by rw [same]; rfl)
        exact reads_expectStringOrIdent.after fun _ => .done _
    · split
      · next named =>
          apply Halts.advanceRead (keyword rfl named)
          exact (reads_parseExpr inner).after fun _ => .done _
      · split
        · next named =>
            apply Halts.advanceRead (keyword rfl named)
            apply Halts.after (returns_eatWord rfl _)
            intro _
            exact reads_expectStringOrIdent.after fun _ => .done _
        · exact .stop

theorem reads_parseDiscoverSource : Reads (limit + 1) (parseDiscoverSource nested) := by
  apply Halts.eatRead rfl
  · apply Halts.after (returns_eatWord rfl _)
    intro _
    exact reads_expectIdent.returns
  · apply Halts.eatRead rfl
    · exact (reads_parseJoinedTable inner).after fun _ => .done _
    · exact .fail _

theorem reads_parseDiscoverCausal : Reads (limit + 1) (parseDiscoverCausal nested) := by
  apply Halts.read (.expect rfl)
  intro _
  apply Halts.after (returns_eatWord rfl _)
  intro _
  apply Halts.after (returns_eatWord rfl _)
  intro _
  apply Halts.after (reads_parseDiscoverSource inner)
  intro collection
  exact Halts.loop (goesOn_discoverStep inner) _

/-! ## UNDERSTAND -/

theorem returns_understandWith : Returns (limit + 1) (understandWith nested) := by
  have expr := reads_parseExpr inner
  apply Halts.peek
  intro token
  dsimp only
  split
  · apply Halts.after (.done _)
    intro key
    split
    · exact expr.after fun _ => .done _
    · exact Halts.after .advanceAny fun _ => expr.after fun _ => .done _
    · exact .fail _
  · exact expr.after fun _ => .done _
  · exact .fail _
  · exact .fail _

theorem goesOn_understandStep (options : List UnderstandOption) :
    GoesOn (limit + 1) (understandStep nested options) := by
  apply Halts.peek
  intro token
  split
  · next same =>
      apply Halts.advanceRead (by rw [same]; rfl)
      exact (returns_understandWith inner).after fun _ => .done _
  · split
    · next same =>
        apply Halts.advanceRead (by rw [same]; rfl)
        exact returns_parsePeriod.after fun _ => .done _
    · split
      · next same =>
          apply Halts.advanceRead (by rw [same]; rfl)
          exact (reads_parseExpr inner).after fun _ => .done _
      · split
        · next same =>
            apply Halts.advanceRead (by rw [same]; rfl)
            apply Halts.after (returns_eatWord rfl _)
            intro _
            exact reads_expectIdent.after fun _ => .done _
        · split
          · next word =>
              apply Halts.advanceRead (isEnd_of_isWord word)
              apply Halts.after (returns_eatWord rfl _)
              intro _
              exact reads_expectStringOrIdent.after fun _ => .done _
          · exact .stop

theorem reads_parseUnderstand : Reads (limit + 1) (parseUnderstand nested) := by
  apply Halts.read (.expect rfl)
  intro _
  apply Halts.after (reads_expectString _)
  intro intent
  exact (Halts.loop (goesOn_understandStep inner) []).after fun _ => .done _

/-! ## Agent memory -/

theorem reads_parseAgentId (message : String) :
    Reads (limit + 1) (parseAgentId nested message) := by
  have primary := reads_parsePrimaryExpr inner
  apply Halts.eatRead rfl
  · exact Halts.after (.expect rfl) fun _ => primary.returns
  · apply Halts.eatRead rfl
    · exact Halts.after (.expect rfl) fun _ => primary.returns
    · exact .fail _

theorem goesOn_rememberStep (stmt : RememberStmt) :
    GoesOn (limit + 1) (rememberStep nested stmt) := by
  have primary := reads_parsePrimaryExpr inner
  apply Halts.peek
  intro token
  split
  · apply Halts.advanceRead rfl
    apply Halts.after reads_expectIdent
    intro key
    split
    · exact primary.after fun _ => .done _
    · apply Halts.after returns_eatEquals
      intro _
      exact primary.after fun _ => .done _
    · exact .fail _
  · exact Halts.advanceRead rfl (primary.after fun _ => .done _)
  · exact Halts.advanceRead rfl (reads_expectIdent.after fun _ => .done _)
  · exact .stop

theorem reads_parseRemember : Reads (limit + 1) (parseRemember nested) := by
  apply Halts.read (.expect rfl)
  intro _
  apply Halts.after (reads_expectString _)
  intro content
  apply Halts.after (reads_parseAgentId inner _)
  intro agentId
  exact Halts.loop (goesOn_rememberStep inner) _

theorem goesOn_recallByStep (stmt : RecallByStmt) :
    GoesOn (limit + 1) (recallByStep nested stmt) := by
  have expr := reads_parseExpr inner
  apply Halts.peek
  intro token
  split
  · exact Halts.advanceRead rfl (expr.after fun _ => .done _)
  · apply Halts.advanceRead rfl
    apply Halts.after (.expect rfl)
    intro _
    exact (reads_parseOrderByList inner).after fun _ => .done _
  · exact Halts.advanceRead rfl (expr.after fun _ => .done _)
  · exact .stop

theorem reads_parseRecallBy : Reads (limit + 1) (parseRecallBy nested) := by
  have behind : ∀ weights : List (RecallWeight Ast.Expr), Returns (limit + 1) (do
      let agentId ← parseAgentId nested
        "expected FOR AGENT or WITHIN CONTEXT after RECALL BY weights"
      loop (recallByStep nested) ⟨weights, agentId, none⟩ : Parse RecallByStmt) := fun weights =>
    (reads_parseAgentId inner _).after fun agentId => Halts.loop (goesOn_recallByStep inner) _
  apply Halts.read (.expect rfl)
  intro _
  apply Halts.after (.expect rfl)
  intro _
  apply Halts.peek
  intro token
  dsimp only
  split
  · exact (reads_parsePrimaryExpr inner).after fun query => behind _
  · exact (reads_parseRecallWeights inner).after fun weights => behind weights

theorem returns_parseWhere : Returns (limit + 1) (parseWhere nested) := by
  apply Halts.eatRead rfl
  · exact (reads_parseExpr inner).after fun _ => .done _
  · exact .done none

theorem reads_parseForget : Reads (limit + 1) (parseForget nested) := by
  apply Halts.read (.expect rfl)
  intro _
  apply Halts.after (reads_parseAgentId inner _)
  intro agentId
  exact (returns_parseWhere inner).after fun _ => .done _

/-! ## INSERT, UPDATE and DELETE -/

theorem reads_parseRow : Reads (limit + 1) (parseRow nested) := by
  apply Halts.read (.expect rfl)
  intro _
  apply Halts.after (reads_commaList (reads_parseExpr inner) none)
  intro row
  exact Halts.after (.expect rfl) fun _ => .done row

theorem reads_parseInsert : Reads (limit + 1) (parseInsert nested) := by
  apply Halts.read (.expect rfl)
  intro _
  apply Halts.after (.expect rfl)
  intro _
  apply Halts.after reads_parseQualifiedName
  intro table
  apply Halts.after returns_parseColumns
  intro columns
  apply Halts.after (.expect rfl)
  intro _
  exact (reads_commaList (reads_parseRow inner) none).after fun _ => .done _

theorem reads_parseUpdate : Reads (limit + 1) (parseUpdate nested) := by
  have behind : ∀ (table : String) (aliasName : Option String), Returns (limit + 1) (do
      expect .set
      let assignments ← parseAssignmentList nested
      return ⟨table, aliasName, assignments, ← parseWhere nested⟩ : Parse UpdateStmt) := by
    intro table aliasName
    apply Halts.after (.expect rfl)
    intro _
    apply Halts.after (reads_parseAssignmentList inner)
    intro assignments
    exact (returns_parseWhere inner).after fun _ => .done _
  apply Halts.read (.expect rfl)
  intro _
  apply Halts.after reads_parseQualifiedName
  intro table
  apply Halts.after (.eat rfl)
  intro renamed
  dsimp only
  split
  · exact (reads_expectIdent.map _).after fun aliasName => behind table aliasName
  · exact behind table none

theorem reads_parseDelete : Reads (limit + 1) (parseDelete nested) := by
  apply Halts.read (.expect rfl)
  intro _
  apply Halts.after (.expect rfl)
  intro _
  apply Halts.after reads_parseQualifiedName
  intro table
  exact (returns_parseWhere inner).after fun _ => .done _

/-! ## CREATE -/

theorem goesOn_equationStep (equations : List CausalEquation) :
    GoesOn (limit + 1) (equationStep nested equations) := by
  apply Halts.peek
  intro token
  split
  · exact .stop
  · apply Halts.read reads_expectIdent
    intro variableName
    apply Halts.after returns_eatEquals
    intro _
    apply Halts.after (reads_parsePrimaryExpr inner)
    intro rhs
    apply Halts.after returns_parseLearnFrom
    intro learnFrom
    exact Halts.after (.eat rfl) fun _ => .done _

theorem goesOn_modelStep (stmt : CreateCausalModelStmt) :
    GoesOn (limit + 1) (modelStep nested stmt) := by
  apply Halts.peek
  intro token
  split
  · exact .stop
  · next notEnd =>
      have inside : isEnd token = false := by
        cases token <;> first | rfl | exact absurd (.inr rfl) notEnd
      apply Halts.advanceRead inside
      split
      · apply Halts.after (.eat rfl)
        intro _
        exact (Halts.loop goesOn_variableStep _).after fun _ => .done _
      · apply Halts.after (.eat rfl)
        intro _
        exact (Halts.loop goesOn_edgeStep _).after fun _ => .done _
      · apply Halts.after (.eat rfl)
        intro _
        exact (Halts.loop (goesOn_equationStep inner) _).after fun _ => .done _
      · exact .done _

theorem reads_parseCreateCausalModelBody :
    Reads (limit + 1) (parseCreateCausalModelBody nested) := by
  apply Halts.read reads_expectIdent
  intro name
  apply Halts.after (.eat rfl)
  intro equilibrium
  apply Halts.after (.eat rfl)
  intro _
  apply Halts.after (.expect rfl)
  intro _
  apply Halts.after (Halts.loop (goesOn_modelStep inner) _)
  intro stmt
  exact Halts.after (.expect rfl) fun _ => .done stmt

theorem reads_parseCreate : Reads (limit + 1) (parseCreate nested) := by
  apply Halts.read (.expect rfl)
  intro _
  apply Halts.peek
  intro token
  split
  · exact Halts.advanceRead rfl (reads_parseCreateTableBody.after fun _ => .done _)
  · exact Halts.advanceRead rfl (reads_parseCreateTableBody.after fun _ => .done _)
  · exact Halts.advanceRead rfl (reads_parseCreateIndexBody.after fun _ => .done _)
  · split
    · next word =>
        apply Halts.advanceRead (isEnd_of_isWord word)
        apply Halts.after (returns_eatKeywordOrIdent _)
        intro _
        exact (reads_parseCreateCausalModelBody inner).after fun _ => .done _
    · exact .fail _

/-! ## All statements -/

theorem returns_parseStatementKind : Returns (limit + 1) (parseStatementKind nested) := by
  apply Halts.peek
  intro token
  split
  · exact (reads_parseSelectStmt inner).ofReads
  · exact (reads_parseInsert inner).after fun _ => .done _
  · exact (reads_parseUpdate inner).after fun _ => .done _
  · exact (reads_parseDelete inner).after fun _ => .done _
  · exact (reads_parseCreate inner).ofReads
  · exact (reads_parseUnderstand inner).after fun _ => .done _
  · exact (reads_parseRemember inner).after fun _ => .done _
  · exact (reads_parseRecallBy inner).after fun _ => .done _
  · exact (reads_parseForget inner).after fun _ => .done _
  · exact (reads_parseDiscoverCausal inner).after fun _ => .done _
  · exact (reads_parseTraceCausalityTop inner).after fun _ => .done _
  · exact (reads_parseInterveneAfterFrom inner _).after fun _ => .done _
  · exact (reads_parseCounterfactualDispatch inner).after fun _ => .done _
  · exact (reads_parseTraverseStmt inner).after fun _ => .done _
  · exact .fail _
  · split
    · exact (returns_parseEstimateEffectNatural inner).after fun _ => .done _
    · exact .fail _

omit inner in
theorem returns_parseStatement : Returns limit parseStatement := by
  constructor
  intro parser ends _ _
  have inner := readsNested_nestedTo parser.size
  have whole : Returns (parser.size + 1) (do
      skipSemicolons
      let stmt ← parseStatementKind (nestedTo parser.size)
      let _ ← eat .semicolon
      return stmt) := by
    apply Halts.after returns_skipSemicolons
    intro _
    apply Halts.after (returns_parseStatementKind inner)
    intro stmt
    exact Halts.after (.eat rfl) fun _ => .done stmt
  exact whole.ended parser ends (Nat.le_succ _) (by simp)

/-! ## The whole parser -/

/-- Parsing tokens ends in an error, or in a statement with the cursor at one of them. -/
def EndsInside (tokens : List (Token × Span)) : Prop :=
  ∃ parser, Parser.new tokens = some parser ∧
    ((∃ error, parseStatement parser = .err error) ∨
      ∃ stmt position, parseStatement parser = .ok stmt (Parser.atPosition tokens position))

omit inner in
theorem endsInside_of_eof {tokens : List (Token × Span)}
    (eof : tokens.getLast?.map Prod.fst = some .eof) : EndsInside tokens := by
  cases tokens with
  | nil => cases eof
  | cons first rest =>
      let parser : Parser := ⟨first, rest⟩
      have ends : parser.Ends := eof
      have returns : Returns parser.size parseStatement := returns_parseStatement
      have ended := returns.ended parser ends (Nat.le_refl _) (by simp)
      refine ⟨parser, rfl, ?_⟩
      cases ran : parseStatement parser with
      | err error => exact .inl ⟨error, rfl⟩
      | running =>
          rw [ran] at ended
          exact ended.elim
      | ok stmt after =>
          rw [ran] at ended
          rcases ended with ⟨read, reading, _⟩
          have start : parser = Parser.atPosition (first :: rest) ⟨0, Nat.succ_pos _⟩ := rfl
          rcases Parser.exists_position_of_reading reading start with ⟨position, _, there⟩
          exact .inr ⟨stmt, position, there ▸ rfl⟩

/-- The functions that call themselves inside brackets, each of which then has fewer tokens
left. All other calls are to functions of a lower level. -/
structure Descends (limit : Nat) (nested : Nested) : Prop where
  expr : Reads limit (parseExpr nested)
  andExpr : Reads limit (parseAndExpr nested)
  notExpr : Reads limit (parseNotExpr nested)
  comparisonExpr : Reads limit (parseComparisonExpr nested)
  additiveExpr : Reads limit (parseAdditiveExpr nested)
  multiplicativeExpr : Reads limit (parseMultiplicativeExpr nested)
  vectorDistExpr : Reads limit (parseVectorDistExpr nested)
  unaryExpr : Reads limit (parseUnaryExpr nested)
  primaryExpr : Reads limit (parsePrimaryExpr nested)
  caseExpr : Reads limit (parseCaseExpr nested)
  inList : Reads limit (parseInList nested)
  tableRef : Reads limit (parseTableRef nested)
  withinContext : Reads limit (parseWithinContext nested)
  recallWeights : Reads limit (parseRecallWeights nested)
  selectInner : Reads limit (parseSelectInner nested)
  createTable : Reads limit parseCreateTableBody
  causalModel : Reads limit (parseCreateCausalModelBody nested)
  statement : Returns limit (parseStatementKind nested)

/-- The steps of all loops go on only behind a token. -/
structure LoopsRead (limit : Nat) (nested : Nested) : Prop where
  list : ∀ {α : Type} {item : Parse α}, Reads limit item → ∀ closing items,
    GoesOn limit (commaStep item closing items)
  operators : ∀ {operand : Parse Ast.Expr} {operator : Token → Option Ast.BinaryOp},
    Reads limit operand → (∀ token op, operator token = some op → isEnd token = false) →
    ∀ left, GoesOn limit (leftStep operand operator left)
  chain : ∀ names, GoesOn limit (chainStep names)
  selectClause : ∀ stmt, GoesOn limit (selectClause nested stmt)
  trace : ∀ clause, GoesOn limit (traceStep nested clause)
  withinContext : ∀ options, GoesOn limit (contextStep nested options)
  recency : ∀ options, GoesOn limit (recencyStep nested options)
  weights : ∀ weights, GoesOn limit (weightStep nested weights)
  counterfactual : ∀ stmt, GoesOn limit (counterfactualStep nested stmt)
  pairs : ∀ pairs, GoesOn limit (pairStep nested pairs)
  traverse : ∀ stmt, GoesOn limit (traverseStep nested stmt)
  traceTop : ∀ state, GoesOn limit (traceTopStep nested state)
  joins : ∀ table, GoesOn limit (joinedStep nested table)
  discover : ∀ stmt, GoesOn limit (discoverStep nested stmt)
  understand : ∀ options, GoesOn limit (understandStep nested options)
  period : ∀ parts, GoesOn limit (periodStep parts)
  remember : ∀ stmt, GoesOn limit (rememberStep nested stmt)
  recallBy : ∀ stmt, GoesOn limit (recallByStep nested stmt)
  columns : ∀ columns, GoesOn limit (columnStep columns)
  modelSections : ∀ stmt, GoesOn limit (modelStep nested stmt)
  modelVariables : ∀ entries, GoesOn limit (variableStep entries)
  modelEdges : ∀ edges, GoesOn limit (edgeStep edges)
  modelEquations : ∀ equations, GoesOn limit (equationStep nested equations)
  semicolons : ∀ state, GoesOn limit (semicolonStep state)

theorem descends : Descends (limit + 1) nested where
  expr := reads_parseExpr inner
  andExpr := reads_parseAndExpr inner
  notExpr := reads_parseNotExpr inner
  comparisonExpr := reads_parseComparisonExpr inner
  additiveExpr := reads_parseAdditiveExpr inner
  multiplicativeExpr := reads_parseMultiplicativeExpr inner
  vectorDistExpr := reads_parseVectorDistExpr inner
  unaryExpr := reads_parseUnaryExpr inner
  primaryExpr := reads_parsePrimaryExpr inner
  caseExpr := reads_parseCaseExpr inner
  inList := reads_parseInList inner
  tableRef := reads_parseTableRef inner
  withinContext := reads_parseWithinContext inner
  recallWeights := reads_parseRecallWeights inner
  selectInner := reads_parseSelectInner inner
  createTable := reads_parseCreateTableBody
  causalModel := reads_parseCreateCausalModelBody inner
  statement := returns_parseStatementKind inner

theorem loopsRead : LoopsRead (limit + 1) nested where
  list reads := goesOn_commaStep reads
  operators reads := goesOn_leftStep reads
  chain := goesOn_chainStep
  selectClause := goesOn_selectClause inner
  trace := goesOn_traceStep inner
  withinContext := goesOn_contextStep inner
  recency := goesOn_recencyStep inner
  weights := goesOn_weightStep inner
  counterfactual := goesOn_counterfactualStep inner
  pairs := goesOn_pairStep inner
  traverse := goesOn_traverseStep inner
  traceTop := goesOn_traceTopStep inner
  joins := goesOn_joinedStep inner
  discover := goesOn_discoverStep inner
  understand := goesOn_understandStep inner
  period := goesOn_periodStep
  remember := goesOn_rememberStep inner
  recallBy := goesOn_recallByStep inner
  columns := goesOn_columnStep
  modelSections := goesOn_modelStep inner
  modelVariables := goesOn_variableStep
  modelEdges := goesOn_edgeStep
  modelEquations := goesOn_equationStep inner
  semicolons := goesOn_semicolonStep

/-- The parser ends on all tokens up to the end of the input. Calls from inside brackets and
rounds of loops come behind tokens that were read: with fewer tokens left, the former may be
whatever reads a token and ends. -/
structure ParserTerminates : Prop where
  returns : ∀ tokens : List (Token × Span), tokens.getLast?.map Prod.fst = some .eof →
    EndsInside tokens
  descends : ∀ limit nested, ReadsNested limit nested → Descends (limit + 1) nested
  arguments : ∀ limit nested, ReadsNested limit nested →
    (∀ allowNamed args, GoesOn limit (argStep nested allowNamed args)) ∧
    ∀ clauses, GoesOn limit (whenStep nested clauses)
  loops : ∀ limit nested, ReadsNested limit nested → LoopsRead (limit + 1) nested

omit inner in
theorem parser_terminates : ParserTerminates where
  returns _ eof := endsInside_of_eof eof
  descends _ _ inner := descends inner
  arguments _ _ inner := ⟨goesOn_argStep inner, goesOn_whenStep inner⟩
  loops _ _ inner := loopsRead inner

end Parse

end FunDB.Sql
