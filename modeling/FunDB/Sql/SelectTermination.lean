import FunDB.Sql.BalancedParsing
import FunDB.Sql.ParserTermination

/-! # Expressions and SELECTs end

Every parsing function ends if what it calls inside brackets does with one token less. The
levels of precedence call only lower ones. -/

namespace FunDB.Sql

open Ast

namespace Parse

variable {limit : Nat}

/-! ## Words -/

theorem isEnd_of_keywordAsIdent {token : Token} {name : String}
    (named : keywordAsIdent token = some name) : isEnd token = false :=
  isEnd_of_isPlain (isPlain_of_keywordAsIdent named)

theorem isEnd_of_isWord {token : Token} {word : String} (isWord : isWord token word = true) :
    isEnd token = false :=
  isEnd_of_isPlain (isPlain_of_isWord isWord)

theorem returns_eatKeywordOrIdent (keyword : String) :
    Returns limit (eatKeywordOrIdent keyword) := by
  apply Halts.peek
  intro token
  split
  · next word => exact Halts.advanceRead (isEnd_of_isWord word) (.done true)
  · exact .done false

theorem reads_expectIdent : Reads limit expectIdent := by
  apply Halts.peek
  intro token
  split
  · next name named => exact Halts.advanceRead (isEnd_of_keywordAsIdent named) (.done name)
  · exact .fail _

theorem reads_expectStringOrIdent : Reads limit expectStringOrIdent := by
  apply Halts.peek
  intro token
  split
  · next content => exact Halts.advanceRead rfl (.done content)
  · exact reads_expectIdent.ofReads

/-! ## Expressions -/

/-- What is called inside brackets reads something and ends, with at most so many tokens
left. -/
structure ReadsNested (limit : Nat) (nested : Nested) : Prop where
  expr : Reads limit nested.expr
  notExpr : Reads limit nested.notExpr
  primaryExpr : Reads limit nested.primaryExpr
  selectInner : Reads limit nested.selectInner

variable {nested : Nested} (inner : ReadsNested limit nested)

include inner

theorem returns_vectorTail : Returns limit (vectorTail nested) := by
  apply Halts.eatRead rfl
  · exact inner.primaryExpr.after fun _ => .done _
  · apply Halts.after (.expect rfl)
    intro _
    apply Halts.after reads_expectStringOrIdent
    intro field
    apply Halts.after (.expect rfl)
    intro _
    apply Halts.eatRead rfl
    · exact inner.primaryExpr.after fun _ => .done _
    · exact .done _

/-- One more argument behind a comma. -/
def argStep (nested : Nested) (allowNamed : Bool) (args : List Ast.Expr) :
    Parse (Option (List Ast.Expr)) := do
  if ← eat .comma then
    let token ← peek
    if token = .rParen then return none
    else
      let following ← peek2
      match allowNamed, token, following with
      | true, .ident _, some .colon =>
          let _ ← expectIdent
          expect .colon
          return some (args ++ [← nested.expr])
      | _, _, _ => return some (args ++ [← nested.expr])
  else return none

theorem goesOn_argStep (allowNamed : Bool) (args : List Ast.Expr) :
    GoesOn limit (argStep nested allowNamed args) := by
  refine Halts.eatRead rfl ?_ .stop
  apply Halts.peek
  intro token
  split
  · exact .done none
  · apply Halts.peek2
    intro following
    split
    · apply Halts.after reads_expectIdent
      intro _
      apply Halts.after (.expect rfl)
      intro _
      exact inner.expr.after fun _ => .done _
    · exact inner.expr.after fun _ => .done _

theorem returns_callArgs (allowNamed : Bool) : Returns limit (callArgs nested allowNamed) := by
  apply Halts.peek
  intro token
  split
  · next closing =>
      subst closing
      exact Halts.advanceRead rfl (.done [])
  · apply Halts.after inner.expr
    intro first
    apply Halts.after (Halts.loop (goesOn_argStep inner allowNamed) [first])
    intro args
    exact Halts.after (.expect rfl) fun _ => .done args

theorem returns_nameTail (name : String) : Returns limit (nameTail nested name) := by
  apply Halts.eatRead rfl
  · exact (returns_callArgs inner true).after fun _ => .done _
  · apply Halts.eatRead rfl
    · apply Halts.peek
      intro token
      split
      · exact Halts.advanceRead rfl (.done _)
      · exact Halts.advanceRead rfl (returns_vectorTail inner)
      · apply Halts.after reads_expectIdent
        intro field
        apply Halts.eatRead rfl
        · exact (returns_callArgs inner false).after fun _ => .done _
        · exact .done _
    · exact .done _

theorem returns_parseArray : Returns limit (parseArray nested) := by
  apply Halts.eatRead rfl
  · exact .done _
  · apply Halts.after (reads_commaList inner.expr _)
    intro elems
    exact Halts.after (.expect rfl) fun _ => .done _

/-- One more `WHEN … THEN …`. -/
def whenStep (nested : Nested) (clauses : List (Ast.Expr × Ast.Expr)) :
    Parse (Option (List (Ast.Expr × Ast.Expr))) := do
  if ← eat .when then
    let cond ← nested.expr
    expect .then
    return some (clauses ++ [(cond, ← nested.expr)])
  else return none

theorem goesOn_whenStep (clauses : List (Ast.Expr × Ast.Expr)) :
    GoesOn limit (whenStep nested clauses) := by
  refine Halts.eatRead rfl ?_ .stop
  apply Halts.after inner.expr
  intro condition
  apply Halts.after (.expect rfl)
  intro _
  exact inner.expr.after fun _ => .done _

theorem reads_parseCaseExpr : Reads (limit + 1) (parseCaseExpr nested) := by
  have ending : ∀ (operand elseClause : Option Ast.Expr) (clauses : List (Ast.Expr × Ast.Expr)),
      Returns limit (do
        expect .end
        return .case operand clauses elseClause : Parse Ast.Expr) := fun _ _ _ =>
    Halts.after (.expect rfl) fun _ => .done _
  have clauses : ∀ operand : Option Ast.Expr, Returns limit (do
      let clauses ← loop (whenStep nested) []
      let elseClause ← if ← eat .else then some <$> nested.expr else pure none
      expect .end
      return .case operand clauses elseClause : Parse Ast.Expr) := by
    intro operand
    apply Halts.after (Halts.loop (goesOn_whenStep inner) [])
    intro clauses
    apply Halts.after (.eat rfl)
    intro otherwise
    dsimp only
    split
    · exact (inner.expr.map _).after fun elseClause => ending operand elseClause clauses
    · exact ending operand none clauses
  apply Halts.inside (.expect rfl) (Nat.le_refl _)
  intro _
  apply Halts.peek
  intro token
  dsimp only
  split
  · exact (clauses none).mono fun _ held => held
  · exact Halts.after (inner.expr.map _) clauses

theorem returns_parenthesized : Returns limit (do
    if (← peek) = .select then
      let sub ← nested.selectInner
      expect .rParen
      return .subquery sub
    else
      let expr ← nested.expr
      expect .rParen
      return expr : Parse Ast.Expr) := by
  apply Halts.peek
  intro token
  split
  · apply Halts.after inner.selectInner
    intro sub
    exact Halts.after (.expect rfl) fun _ => .done _
  · apply Halts.after inner.expr
    intro expr
    exact Halts.after (.expect rfl) fun _ => .done _

theorem reads_parsePrimaryExpr : Reads (limit + 1) (parsePrimaryExpr nested) := by
  have drop : limit + 1 ≤ limit + 1 := Nat.le_refl _
  apply Halts.peek
  intro token
  split
  iterate 8 exact Halts.advanceRead rfl (.done _)
  · exact Halts.advanceInside rfl drop (returns_vectorTail inner)
  · exact Halts.advanceInside rfl drop (returns_parenthesized inner)
  · exact Halts.advanceInside rfl drop (returns_parseArray inner)
  · apply Halts.advanceInside rfl drop
    apply Halts.after (.expect rfl)
    intro _
    apply Halts.after inner.selectInner
    intro sub
    exact Halts.after (.expect rfl) fun _ => .done _
  · exact (reads_parseCaseExpr inner).ofReads
  · apply Halts.advanceRead rfl
    apply Halts.peek
    intro token
    split
    · exact Halts.advanceRead rfl (.done _)
    · exact .done _
  · split
    · next name named =>
        exact Halts.advanceInside (isEnd_of_keywordAsIdent named) drop (returns_nameTail inner name)
    · exact .fail _

/-! ## Levels of precedence -/

theorem reads_parseUnaryExpr : Reads (limit + 1) (parseUnaryExpr nested) := by
  apply Halts.eatRead rfl
  · exact (reads_parsePrimaryExpr inner).after fun _ => .done _
  · exact reads_parsePrimaryExpr inner

theorem reads_parseVectorDistExpr : Reads (limit + 1) (parseVectorDistExpr nested) := by
  apply Halts.read (reads_parseUnaryExpr inner)
  intro expr
  apply Halts.eatRead rfl
  · exact (reads_parseUnaryExpr inner).after fun _ => .done _
  · exact .done _

omit inner in
theorem goesOn_leftStep {operand : Parse Ast.Expr} {operator : Token → Option Ast.BinaryOp}
    (reads : Reads limit operand)
    (inside : ∀ token op, operator token = some op → isEnd token = false) (left : Ast.Expr) :
    GoesOn limit (leftStep operand operator left) := by
  apply Halts.peek
  intro token
  split
  · next op found =>
      apply Halts.advanceRead (inside token op found)
      exact reads.after fun _ => .done _
  · exact .stop

omit inner in
theorem reads_leftAssoc {operand : Parse Ast.Expr} {operator : Token → Option Ast.BinaryOp}
    (reads : Reads limit operand)
    (inside : ∀ token op, operator token = some op → isEnd token = false) :
    Reads limit (leftAssoc operand operator) :=
  reads.read fun first => Halts.loop (goesOn_leftStep reads inside) first

theorem reads_parseMultiplicativeExpr : Reads (limit + 1) (parseMultiplicativeExpr nested) := by
  apply reads_leftAssoc (reads_parseVectorDistExpr inner)
  intro token op found
  cases token <;> first | rfl | cases found

theorem reads_parseAdditiveExpr : Reads (limit + 1) (parseAdditiveExpr nested) := by
  apply reads_leftAssoc (reads_parseMultiplicativeExpr inner)
  intro token op found
  cases token <;> first | rfl | cases found

theorem reads_parseInList : Reads (limit + 1) (parseInList nested) := by
  apply Halts.inside (.expect rfl) (Nat.le_refl _)
  intro _
  apply Halts.after (reads_commaList inner.expr _)
  intro list
  exact Halts.after (.expect rfl) fun _ => .done list

theorem returns_comparisonTail (left : Ast.Expr) :
    Returns (limit + 1) (comparisonTail nested left) := by
  have operand := reads_parseAdditiveExpr inner
  have list := reads_parseInList inner
  apply Halts.peek
  intro token
  split
  · next op found =>
      apply Halts.advanceRead (isEnd_of_isPlain (isPlain_of_comparisonOp found))
      exact operand.after fun _ => .done _
  · split
    · apply Halts.advanceRead rfl
      apply Halts.eatRead rfl
      · exact operand.after fun _ => .done _
      · apply Halts.eatRead rfl
        · exact list.after fun _ => .done _
        · exact .fail _
    · apply Halts.advanceRead rfl
      apply Halts.eatRead rfl
      · exact Halts.after (.expect rfl) fun _ => .done _
      · exact Halts.after (.expect rfl) fun _ => .done _
    · apply Halts.advanceRead rfl
      exact list.after fun _ => .done _
    · apply Halts.advanceRead rfl
      apply Halts.after operand
      intro low
      apply Halts.after (.expect rfl)
      intro _
      exact operand.after fun _ => .done _
    · exact .done left

theorem reads_parseComparisonExpr : Reads (limit + 1) (parseComparisonExpr nested) :=
  (reads_parseAdditiveExpr inner).read (returns_comparisonTail inner)

theorem reads_parseNotExpr : Reads (limit + 1) (parseNotExpr nested) := by
  apply Halts.eatInside rfl (Nat.le_refl _)
  · exact inner.notExpr.after fun _ => .done _
  · exact reads_parseComparisonExpr inner

theorem reads_parseAndExpr : Reads (limit + 1) (parseAndExpr nested) := by
  apply reads_leftAssoc (reads_parseNotExpr inner)
  intro token op found
  cases token <;> first | rfl | cases found

theorem reads_parseExpr : Reads (limit + 1) (parseExpr nested) := by
  apply reads_leftAssoc (reads_parseAndExpr inner)
  intro token op found
  cases token <;> first | rfl | cases found

/-! ## Items and tables -/

omit inner in
theorem returns_parseAlias : Returns limit parseAlias := by
  apply Halts.eatRead rfl
  · exact reads_expectIdent.after fun _ => .done _
  · apply Halts.peek
    intro token
    split
    · exact reads_expectIdent.after fun _ => .done _
    · exact .done none

theorem reads_parseSelectItem : Reads (limit + 1) (parseSelectItem nested) := by
  apply Halts.eatRead rfl
  · exact .done _
  · apply Halts.read (reads_parseExpr inner)
    intro expr
    exact returns_parseAlias.after fun _ => .done _

theorem reads_parseProjectionList : Reads (limit + 1) (parseProjectionList nested) :=
  reads_commaList (reads_parseSelectItem inner) none

omit inner in
theorem reads_parseQualifiedName : Reads limit parseQualifiedName := by
  apply Halts.read reads_expectIdent
  intro name
  apply Halts.eatRead rfl
  · exact reads_expectIdent.after fun _ => .done _
  · exact .done name

omit inner in
theorem returns_parseTableAlias : Returns limit parseTableAlias := by
  apply Halts.peek
  intro token
  apply Halts.peek2
  intro following
  split
  · next named =>
      apply Halts.advanceRead (by rw [named.1]; rfl)
      exact reads_expectIdent.after fun _ => .done _
  · split
    · exact reads_expectIdent.after fun _ => .done _
    · exact .done none

theorem reads_parseTableRef : Reads (limit + 1) (parseTableRef nested) := by
  apply Halts.eatRead rfl
  · apply Halts.after (.expect rfl)
    intro _
    exact reads_expectIdent.after fun _ => .done _
  · apply Halts.eatInside rfl (Nat.le_refl _)
    · apply Halts.after inner.selectInner
      intro _
      apply Halts.after (.expect rfl)
      intro _
      exact returns_parseAlias.after fun _ => .done _
    · apply Halts.read reads_parseQualifiedName
      intro name
      exact returns_parseTableAlias.after fun _ => .done _

omit inner in
theorem reads_parseJoinType : Reads limit parseJoinType := by
  have join : ∀ joinType : JoinType, Returns limit (do
      let _ ← eat .join
      return joinType : Parse JoinType) := fun joinType => Halts.after (.eat rfl) fun _ => .done _
  apply Halts.peek
  intro token
  split
  · exact Halts.advanceRead rfl (join _)
  · exact Halts.advanceRead rfl (Halts.after (.eat rfl) fun _ => join _)
  · exact Halts.advanceRead rfl (Halts.after (.eat rfl) fun _ => join _)
  · exact Halts.advanceRead rfl (join _)
  · exact Halts.advanceRead rfl (join _)
  · exact Halts.advanceRead rfl (.done _)
  · exact .fail _

theorem reads_parseJoin : Reads (limit + 1) (parseJoin nested) := by
  apply Halts.read reads_parseJoinType
  intro joinType
  apply Halts.after (reads_parseTableRef inner)
  intro table
  apply Halts.eatRead rfl
  · exact (reads_parseExpr inner).after fun _ => .done _
  · exact .done _

theorem reads_parseOrderByItem : Reads (limit + 1) (parseOrderByItem nested) := by
  apply Halts.read (reads_parseExpr inner)
  intro expr
  apply Halts.eatRead rfl
  · exact .done _
  · exact Halts.after (.eat rfl) fun _ => .done _

theorem reads_parseOrderByList : Reads (limit + 1) (parseOrderByList nested) :=
  reads_commaList (reads_parseOrderByItem inner) _

/-! ## TRAVERSE and TRACE CAUSALITY -/

omit inner in
/-- One more name behind an arrow. -/
def chainStep (chain : List String) : Parse (Option (List String)) := do
  if ← eat .arrow then return some (chain ++ [← expectIdent])
  else return none

omit inner in
theorem goesOn_chainStep (chain : List String) : GoesOn limit (chainStep chain) :=
  Halts.eatRead rfl (reads_expectIdent.after fun _ => .done _) .stop

omit inner in
theorem reads_parseChain : Reads limit parseChain :=
  reads_expectIdent.read fun first => Halts.loop goesOn_chainStep [first]

theorem returns_parseDepthRange : Returns (limit + 1) (parseDepthRange nested) := by
  have primary := reads_parsePrimaryExpr inner
  have closes : ∀ range : Ast.Expr × Ast.Expr, Returns (limit + 1) (do
      expect .rParen
      return some range : Parse (Option (Ast.Expr × Ast.Expr))) := fun range =>
    Halts.after (.expect rfl) fun _ => .done (some range)
  have bounds : Returns (limit + 1) (do
      let low ← parsePrimaryExpr nested
      let high ← if ← eat .dotDot then parsePrimaryExpr nested else pure low
      expect .rParen
      return some (low, high) : Parse (Option (Ast.Expr × Ast.Expr))) := by
    apply Halts.after primary
    intro low
    apply Halts.after (.eat rfl)
    intro ranged
    dsimp only
    split
    · exact primary.after fun high => closes (low, high)
    · exact closes (low, low)
  apply Halts.eatRead rfl
  · apply Halts.peek
    intro token
    dsimp only
    split
    · next named =>
        have inside : isEnd token = false := by
          rcases named with same | word
          · rw [same]
            rfl
          · exact isEnd_of_isWord word
        exact Halts.advanceRead inside (Halts.after (.eat rfl) fun _ => bounds)
    · exact bounds.mono fun _ held => held
  · exact .done none

theorem reads_parseTraverseClause : Reads (limit + 1) (parseTraverseClause nested) := by
  apply Halts.read (.expect rfl)
  intro _
  apply Halts.after reads_expectIdent
  intro relation
  apply Halts.after (returns_parseDepthRange inner)
  intro depth
  exact (Halts.loop goesOn_chainStep [relation]).after fun _ => .done _

theorem goesOn_traceStep (clause : TraceCausalityClause Ast.Expr) :
    GoesOn (limit + 1) (traceStep nested clause) := by
  have expr := reads_parseExpr inner
  have primary := reads_parsePrimaryExpr inner
  apply Halts.peek
  intro token
  split
  · next same => exact Halts.advanceRead (by rw [same]; rfl) (primary.after fun _ => .done _)
  · split
    · next word => exact Halts.advanceRead (isEnd_of_isWord word) (primary.after fun _ => .done _)
    · split
      · next same => exact Halts.advanceRead (by rw [same]; rfl) (expr.after fun _ => .done _)
      · split
        · next same => exact Halts.advanceRead (by rw [same]; rfl) (expr.after fun _ => .done _)
        · split
          · next same => exact Halts.advanceRead (by rw [same]; rfl) (expr.after fun _ => .done _)
          · exact .stop

theorem reads_parseTraceCausalityClause : Reads (limit + 1) (parseTraceCausalityClause nested) := by
  apply Halts.read (.expect rfl)
  intro _
  apply Halts.after (.expect rfl)
  intro _
  exact Halts.loop (goesOn_traceStep inner) _

/-! ## WITHIN CONTEXT and AS OF -/

theorem goesOn_contextStep (options : Ast.ContextOptions Ast.Expr) :
    GoesOn (limit + 1) (contextStep nested options) := by
  have expr := reads_parseExpr inner
  have priorities := reads_parseOrderByList inner
  apply Halts.peek
  intro token
  split
  · exact .stop
  · apply Halts.read reads_expectIdent
    intro key
    apply Halts.after (.expect rfl)
    intro _
    have ending : ∀ options : Ast.ContextOptions Ast.Expr, Returns (limit + 1) (do
        let _ ← eat .comma
        return some options : Parse (Option (Ast.ContextOptions Ast.Expr))) := fun options =>
      Halts.after (.eat rfl) fun _ => .done (some options)
    dsimp only
    split
    iterate 3 exact expr.after fun _ => ending _
    · apply Halts.peek
      intro token
      split
      · exact Halts.advanceRead rfl (ending _)
      · exact Halts.advanceRead rfl (ending _)
      · exact Halts.read (.fail _) ending
    · apply Halts.after (.eat rfl)
      intro listed
      split
      · apply Halts.after priorities
        intro priority
        exact Halts.after (.expect rfl) fun _ => ending _
      · exact priorities.after fun _ => ending _
    · exact Halts.read (.fail _) ending

theorem reads_parseWithinContext : Reads (limit + 1) (parseWithinContext nested) := by
  apply Halts.read (.expect rfl)
  intro _
  apply Halts.after (.expect rfl)
  intro _
  apply Halts.after (.expect rfl)
  intro _
  apply Halts.after (Halts.loop (goesOn_contextStep inner) _)
  intro options
  exact Halts.after (.expect rfl) fun _ => .done options

theorem reads_parseValidTime : Reads (limit + 1) (parseValidTime nested) := by
  have primary := reads_parsePrimaryExpr inner
  apply Halts.eatRead rfl
  · apply Halts.after primary
    intro low
    apply Halts.after (.expect rfl)
    intro _
    exact primary.after fun _ => .done _
  · exact primary.mapReads _

theorem reads_parseAsOfBody : Reads (limit + 1) (parseAsOfBody nested) := by
  have primary := reads_parsePrimaryExpr inner
  have validTime := reads_parseValidTime inner
  apply Halts.peek
  intro first
  split
  · next same => exact Halts.advanceRead (by rw [same]; rfl) (primary.after fun _ => .done _)
  · split
    · next same => exact Halts.advanceRead (by rw [same]; rfl) validTime.returns
    · split
      · next word =>
          apply Halts.advanceRead (isEnd_of_isWord word)
          apply Halts.after (returns_eatKeywordOrIdent _)
          intro _
          exact primary.after fun _ => .done _
      · split
        · next word =>
            apply Halts.advanceRead (isEnd_of_isWord word)
            exact Halts.after (returns_eatKeywordOrIdent _) fun _ => validTime.returns
        · exact .fail _

/-! ## RECALL BY -/

theorem reads_parseWeight : Reads (limit + 1) (parseWeight nested) := by
  apply Halts.read reads_expectIdent
  intro key
  split
  · apply Halts.after (.expect rfl)
    intro _
    exact (reads_parsePrimaryExpr inner).after fun _ => .done _
  · exact .done none

theorem goesOn_recencyStep (options : Option String × Option String × Option Ast.Expr) :
    GoesOn (limit + 1) (recencyStep nested options) := by
  have primary := reads_parsePrimaryExpr inner
  have ending : ∀ options : Option String × Option String × Option Ast.Expr,
      Returns (limit + 1) (do
        let _ ← eat .comma
        return some options : Parse (Option (Option String × Option String × Option Ast.Expr))) :=
    fun options => Halts.after (.eat rfl) fun _ => .done (some options)
  apply Halts.peek
  intro token
  split
  · exact .stop
  · rcases options with ⟨decay, halfLife, weight⟩
    apply Halts.read reads_expectIdent
    intro key
    apply Halts.after (.expect rfl)
    intro _
    dsimp only
    split
    · exact reads_expectStringOrIdent.after fun _ => ending _
    · exact reads_expectStringOrIdent.after fun _ => ending _
    · exact primary.after fun _ => ending _
    · exact primary.after fun _ => ending _

theorem reads_parseRecallWeight : Reads (limit + 1) (parseRecallWeight nested) := by
  have primary := reads_parsePrimaryExpr inner
  have weighted := reads_parseWeight inner
  have closes : ∀ weight : RecallWeight Ast.Expr, Returns (limit + 1) (do
      expect .rParen
      return weight : Parse (RecallWeight Ast.Expr)) := fun weight =>
    Halts.after (.expect rfl) fun _ => .done weight
  apply Halts.read reads_expectIdent
  intro name
  apply Halts.after (.expect rfl)
  intro _
  split
  · apply Halts.after primary
    intro query
    apply Halts.after (.eat rfl)
    intro more
    dsimp only
    split
    · exact weighted.after fun _ => closes _
    · exact closes _
  · apply Halts.after (Halts.loop (goesOn_recencyStep inner) _)
    intro options
    exact closes _
  · apply Halts.peek
    intro token
    dsimp only
    split
    · exact (closes _).mono fun _ held => held
    · exact Halts.after weighted fun _ => closes _
  · exact .fail _

/-- One more weight behind a plus. -/
def weightStep (nested : Nested) (weights : List (RecallWeight Ast.Expr)) :
    Parse (Option (List (RecallWeight Ast.Expr))) := do
  if ← eat .plus then return some (weights ++ [← parseRecallWeight nested])
  else return none

theorem goesOn_weightStep (weights : List (RecallWeight Ast.Expr)) :
    GoesOn (limit + 1) (weightStep nested weights) :=
  Halts.eatRead rfl ((reads_parseRecallWeight inner).after fun _ => .done _) .stop

theorem reads_parseRecallWeights : Reads (limit + 1) (parseRecallWeights nested) :=
  (reads_parseRecallWeight inner).read fun first =>
    Halts.loop (goesOn_weightStep inner) [first]

theorem reads_parseRecallByClause : Reads (limit + 1) (parseRecallByClause nested) := by
  apply Halts.read (.expect rfl)
  intro _
  apply Halts.after (.expect rfl)
  intro _
  exact (reads_parseRecallWeights inner).returns

/-! ## The whole SELECT -/

omit inner in
theorem returns_eatAsOf : Returns limit eatAsOf := by
  apply Halts.peek
  intro token
  apply Halts.peek2
  intro following
  split
  · next words =>
      apply Halts.advanceRead (by rw [words.1]; rfl)
      exact Halts.after .advanceAny fun _ => .done true
  · exact .done false

theorem goesOn_traceOption {token : Token} (inside : isEnd token = false)
    (stmt : SelectStmt Ast.Expr)
    (set : TraceCausalityClause Ast.Expr → Ast.Expr → TraceCausalityClause Ast.Expr) :
    Halts (some token) (fun next => next.isSome = true) (limit + 1)
      (traceOption nested stmt set) := by
  rw [traceOption]
  split
  · exact Halts.advanceRead inside ((reads_parseExpr inner).after fun _ => .done _)
  · exact .stop

theorem goesOn_selectClause (stmt : SelectStmt Ast.Expr) :
    GoesOn (limit + 1) (selectClause nested stmt) := by
  have expr := reads_parseExpr inner
  have asOf := reads_parseAsOfBody inner
  apply Halts.peek
  intro token
  split
  · exact (reads_parseJoin inner).read fun _ => .done _
  · split
    · exact (reads_parseTraverseClause inner).read fun _ => .done _
    · exact (reads_parseTraceCausalityClause inner).read fun _ => .done _
    · exact Halts.advanceRead rfl (expr.after fun _ => .done _)
    · exact (reads_parseRecallByClause inner).read fun _ => .done _
    · apply Halts.advanceRead rfl
      apply Halts.after (.expect rfl)
      intro _
      exact (reads_commaList expr none).after fun _ => .done _
    · exact Halts.advanceRead rfl (expr.after fun _ => .done _)
    · apply Halts.advanceRead rfl
      apply Halts.after (.expect rfl)
      intro _
      exact (reads_parseOrderByList inner).after fun _ => .done _
    · exact Halts.advanceRead rfl (expr.after fun _ => .done _)
    · exact Halts.advanceRead rfl (expr.after fun _ => .done _)
    · exact (reads_parseWithinContext inner).read fun _ => .done _
    · exact Halts.advanceRead rfl (asOf.after fun _ => .done _)
    · apply Halts.after returns_eatAsOf
      intro eaten
      split
      · exact asOf.read fun _ => .done _
      · exact .stop
    · exact Halts.advanceRead rfl ((reads_parseProjectionList inner).after fun _ => .done _)
    · exact goesOn_traceOption inner rfl stmt _
    · exact goesOn_traceOption inner rfl stmt _
    · exact goesOn_traceOption inner rfl stmt _
    · exact .stop

theorem returns_finishSelect (distinct : Bool) (projections : List (SelectItem Ast.Expr))
    (source : Option TableRef) :
    Returns (limit + 1) (finishSelect nested distinct projections source) :=
  Halts.loop (goesOn_selectClause inner) _

theorem reads_parseSelectInner : Reads (limit + 1) (parseSelectInner nested) := by
  apply Halts.read (.expect rfl)
  intro _
  apply Halts.after (.eat rfl)
  intro distinct
  apply Halts.after (reads_parseProjectionList inner)
  intro projections
  apply Halts.eatRead rfl
  · apply Halts.after (reads_parseTableRef inner)
    intro table
    exact returns_finishSelect inner distinct projections (some table)
  · exact returns_finishSelect inner distinct projections none

/-! ## Nesting -/

omit inner in
/-- With as much nesting as there are tokens, what is called inside brackets ends. -/
theorem readsNested_nestedTo (depth : Nat) : ReadsNested depth (nestedTo depth) := by
  induction depth with
  | zero =>
      have none : ∀ {α : Type} (parse : Parse α), Reads 0 parse := fun parse =>
        ⟨fun parser _ small => absurd small (Nat.not_le_of_lt (size_pos parser))⟩
      exact ⟨none _, none _, none _, none _⟩
  | succ depth inner =>
      exact ⟨reads_parseExpr inner, reads_parseNotExpr inner, reads_parsePrimaryExpr inner,
        reads_parseSelectInner inner⟩

end Parse

end FunDB.Sql
