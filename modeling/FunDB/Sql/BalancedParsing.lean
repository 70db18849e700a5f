import FunDB.Sql.ParserLevels

/-! # Balanced expressions

Every parsing function of expressions and of nested SELECTs closes the parentheses
that it opens. -/

namespace FunDB.Sql

open Ast

namespace Parse

/-! ## Words -/

theorem isPlain_of_keywordAsIdent {token : Token} {name : String}
    (named : keywordAsIdent token = some name) : isPlain token = true := by
  cases token <;> first | rfl | cases named

theorem isPlain_of_isWord {token : Token} {word : String} (isWord : isWord token word = true) :
    isPlain token = true := by
  cases token <;> first | rfl | cases isWord

theorem balanced_eatKeywordOrIdent (keyword : String) : Balanced (eatKeywordOrIdent keyword) := by
  apply Shifts.peek
  intro token
  split
  · next word => exact Shifts.advance (isPlain_of_isWord word) (Shifts.pure true 0)
  · exact Shifts.pure false 0

theorem balanced_expectIdent : Balanced expectIdent := by
  apply Shifts.peek
  intro token
  split
  · next name named => exact Shifts.advance (isPlain_of_keywordAsIdent named) (Shifts.pure name 0)
  · exact Shifts.fail _

theorem balanced_expectStringOrIdent : Balanced expectStringOrIdent := by
  apply Shifts.peek
  intro token
  split
  · next content => exact Shifts.advance rfl (Shifts.pure content 0)
  · exact balanced_expectIdent.shifts 0

/-! ## Expressions -/

/-- What is called inside brackets is balanced. -/
structure BalancedNested (nested : Nested) : Prop where
  expr : Balanced nested.expr
  notExpr : Balanced nested.notExpr
  primaryExpr : Balanced nested.primaryExpr
  selectInner : Balanced nested.selectInner

variable {nested : Nested} (balanced : BalancedNested nested)

include balanced

theorem balanced_vectorTail : Balanced (vectorTail nested) := by
  apply Shifts.after (.eat rfl)
  intro distance
  split
  · exact Shifts.after balanced.primaryExpr fun _ => Shifts.pure _ 0
  · apply Shifts.expectOpen
    apply Shifts.after balanced_expectStringOrIdent
    intro field
    apply Shifts.expectClose
    apply Shifts.after (.eat rfl)
    intro distance
    split
    · exact Shifts.after balanced.primaryExpr fun _ => Shifts.pure _ 0
    · exact Shifts.pure _ 0

/-- The arguments of a call end with the parenthesis that closes it. -/
theorem shifts_callArgs (allowNamed : Bool) : Shifts none 1 0 (callArgs nested allowNamed) := by
  apply Shifts.peek
  intro token
  split
  · next closing =>
      subst closing
      exact Shifts.advanceClose (Shifts.pure [] 0)
  · apply Shifts.after balanced.expr
    intro first
    apply Shifts.after
    · apply Balanced.loop
      intro args
      apply Shifts.after (.eat rfl)
      intro comma
      split
      · apply Shifts.peek
        intro token
        split
        · exact Shifts.pure none 0
        · apply Shifts.peek2
          intro following
          split
          · apply Shifts.after balanced_expectIdent
            intro _
            apply Shifts.after (.expect rfl)
            intro _
            exact Shifts.after balanced.expr fun _ => Shifts.pure _ 0
          · exact Shifts.after balanced.expr fun _ => Shifts.pure _ 0
      · exact Shifts.pure none 0
    · intro args
      exact Shifts.expectClose (Shifts.pure args 0)

theorem balanced_nameTail (name : String) : Balanced (nameTail nested name) := by
  apply Shifts.eatOpen
  · exact (shifts_callArgs balanced true).bind fun _ => Shifts.pure _ 0
  · apply Shifts.after (.eat rfl)
    intro dotted
    split
    · apply Shifts.peek
      intro token
      split
      · exact Shifts.advance rfl (Shifts.pure _ 0)
      · exact Shifts.advance rfl (balanced_vectorTail balanced)
      · apply Shifts.after balanced_expectIdent
        intro field
        apply Shifts.eatOpen
        · exact (shifts_callArgs balanced false).bind fun _ => Shifts.pure _ 0
        · exact Shifts.pure _ 0
    · exact Shifts.pure _ 0

theorem balanced_parseArray : Balanced (parseArray nested) := by
  apply Shifts.after (.eat rfl)
  intro empty
  split
  · exact Shifts.pure _ 0
  · apply Shifts.after (.commaList balanced.expr _)
    intro elems
    exact Shifts.after (.expect rfl) fun _ => Shifts.pure _ 0

theorem balanced_parseCaseExpr : Balanced (parseCaseExpr nested) := by
  have ending : ∀ (operand elseClause : Option Ast.Expr) (clauses : List (Ast.Expr × Ast.Expr)),
      Balanced (do
        expect .end
        return .case operand clauses elseClause : Parse Ast.Expr) := fun _ _ _ =>
    Shifts.after (.expect rfl) fun _ => Shifts.pure _ 0
  have clauses : ∀ operand : Option Ast.Expr, Balanced (do
      let clauses ← loop (fun clauses => do
        if ← eat .when then
          let cond ← nested.expr
          expect .then
          return some (clauses ++ [(cond, ← nested.expr)])
        else return none) []
      let elseClause ← if ← eat .else then some <$> nested.expr else pure none
      expect .end
      return .case operand clauses elseClause : Parse Ast.Expr) := by
    intro operand
    apply Shifts.after
    · apply Balanced.loop
      intro clauses
      apply Shifts.after (.eat rfl)
      intro another
      split
      · apply Shifts.after balanced.expr
        intro condition
        apply Shifts.after (.expect rfl)
        intro _
        exact Shifts.after balanced.expr fun _ => Shifts.pure _ 0
      · exact Shifts.pure none 0
    · intro clauses
      apply Shifts.after (.eat rfl)
      intro otherwise
      dsimp only
      split
      · apply Shifts.after (.map balanced.expr _)
        intro elseClause
        exact ending operand elseClause clauses
      · exact ending operand none clauses
  apply Shifts.after (.expect rfl)
  intro _
  apply Shifts.peek
  intro token
  dsimp only
  split
  · exact (clauses none).shifts 0
  · exact Shifts.after (.map balanced.expr _) clauses

/-- The inside of an opened parenthesis, with the parenthesis that closes it. -/
theorem shifts_parenthesized : Shifts none 1 0 (do
    if (← peek) = .select then
      let sub ← nested.selectInner
      expect .rParen
      return .subquery sub
    else
      let expr ← nested.expr
      expect .rParen
      return expr : Parse Ast.Expr) := by
  apply Shifts.peek
  intro token
  split
  · apply Shifts.after balanced.selectInner
    intro sub
    exact Shifts.expectClose (Shifts.pure _ 0)
  · apply Shifts.after balanced.expr
    intro expr
    exact Shifts.expectClose (Shifts.pure _ 0)

theorem balanced_parsePrimaryExpr : Balanced (parsePrimaryExpr nested) := by
  apply Shifts.peek
  intro token
  split
  iterate 8 exact Shifts.advance rfl (Shifts.pure _ 0)
  · exact Shifts.advance rfl (balanced_vectorTail balanced)
  · exact Shifts.advanceOpen (shifts_parenthesized balanced)
  · exact Shifts.advance rfl (balanced_parseArray balanced)
  · apply Shifts.advance rfl
    apply Shifts.expectOpen
    apply Shifts.after balanced.selectInner
    intro sub
    exact Shifts.expectClose (Shifts.pure _ 0)
  · exact (balanced_parseCaseExpr balanced).shifts 0
  · apply Shifts.advance rfl
    apply Shifts.peek
    intro token
    split
    · exact Shifts.advance rfl (Shifts.pure _ 0)
    · exact Shifts.pure _ 0
  · split
    · next name named =>
        exact Shifts.advance (isPlain_of_keywordAsIdent named) (balanced_nameTail balanced name)
    · exact Shifts.fail _

/-! ## Levels of precedence -/

theorem balanced_parseUnaryExpr : Balanced (parseUnaryExpr nested) := by
  apply Shifts.after (.eat rfl)
  intro negated
  split
  · exact Shifts.after (balanced_parsePrimaryExpr balanced) fun _ => Shifts.pure _ 0
  · exact balanced_parsePrimaryExpr balanced

theorem balanced_parseVectorDistExpr : Balanced (parseVectorDistExpr nested) := by
  apply Shifts.after (balanced_parseUnaryExpr balanced)
  intro expr
  apply Shifts.after (.eat rfl)
  intro distance
  split
  · exact Shifts.after (balanced_parseUnaryExpr balanced) fun _ => Shifts.pure _ 0
  · exact Shifts.pure _ 0

omit balanced in
theorem balanced_leftAssoc {operand : Parse Ast.Expr} {operator : Token → Option Ast.BinaryOp}
    (balanced : Balanced operand)
    (plain : ∀ token op, operator token = some op → isPlain token = true) :
    Balanced (leftAssoc operand operator) := by
  apply Shifts.after balanced
  intro first
  apply Balanced.loop
  intro left
  apply Shifts.peek
  intro token
  split
  · next op found =>
      apply Shifts.advance (plain token op found)
      exact Shifts.after balanced fun _ => Shifts.pure _ 0
  · exact Shifts.pure none 0

theorem balanced_parseMultiplicativeExpr : Balanced (parseMultiplicativeExpr nested) := by
  apply balanced_leftAssoc (balanced_parseVectorDistExpr balanced)
  intro token op found
  cases token <;> first | rfl | cases found

theorem balanced_parseAdditiveExpr : Balanced (parseAdditiveExpr nested) := by
  apply balanced_leftAssoc (balanced_parseMultiplicativeExpr balanced)
  intro token op found
  cases token <;> first | rfl | cases found

theorem balanced_parseInList : Balanced (parseInList nested) := by
  apply Shifts.expectOpen
  apply Shifts.after (.commaList balanced.expr _)
  intro list
  exact Shifts.expectClose (Shifts.pure list 0)

omit balanced in
theorem isPlain_of_comparisonOp {token : Token} {op : Ast.BinaryOp}
    (found : comparisonOp token = some op) : isPlain token = true := by
  cases token <;> first | rfl | cases found

theorem balanced_comparisonTail (left : Ast.Expr) : Balanced (comparisonTail nested left) := by
  have operand := balanced_parseAdditiveExpr balanced
  have list := balanced_parseInList balanced
  apply Shifts.peek
  intro token
  split
  · next op found =>
      apply Shifts.advance (isPlain_of_comparisonOp found)
      exact Shifts.after operand fun _ => Shifts.pure _ 0
  · split
    · apply Shifts.advance rfl
      apply Shifts.after (.eat rfl)
      intro likes
      split
      · exact Shifts.after operand fun _ => Shifts.pure _ 0
      · apply Shifts.after (.eat rfl)
        intro listed
        split
        · exact Shifts.after list fun _ => Shifts.pure _ 0
        · exact Shifts.fail _
    · apply Shifts.advance rfl
      apply Shifts.after (.eat rfl)
      intro negated
      split
      · exact Shifts.after (.expect rfl) fun _ => Shifts.pure _ 0
      · exact Shifts.after (.expect rfl) fun _ => Shifts.pure _ 0
    · apply Shifts.advance rfl
      exact Shifts.after list fun _ => Shifts.pure _ 0
    · apply Shifts.advance rfl
      apply Shifts.after operand
      intro low
      apply Shifts.after (.expect rfl)
      intro _
      exact Shifts.after operand fun _ => Shifts.pure _ 0
    · exact Shifts.pure left 0

theorem balanced_parseNotExpr : Balanced (parseNotExpr nested) := by
  apply Shifts.after (.eat rfl)
  intro negated
  split
  · exact Shifts.after balanced.notExpr fun _ => Shifts.pure _ 0
  · apply Shifts.after (balanced_parseAdditiveExpr balanced)
    exact balanced_comparisonTail balanced

theorem balanced_parseExpr : Balanced (parseExpr nested) := by
  apply balanced_leftAssoc
  · apply balanced_leftAssoc (balanced_parseNotExpr balanced)
    intro token op found
    cases token <;> first | rfl | cases found
  · intro token op found
    cases token <;> first | rfl | cases found

/-! ## Items and tables -/

omit balanced in
theorem balanced_parseAlias : Balanced parseAlias := by
  apply Shifts.after (.eat rfl)
  intro named
  split
  · exact Shifts.after balanced_expectIdent fun _ => Shifts.pure _ 0
  · apply Shifts.peek
    intro token
    split
    · exact Shifts.after balanced_expectIdent fun _ => Shifts.pure _ 0
    · exact Shifts.pure none 0

theorem balanced_parseSelectItem : Balanced (parseSelectItem nested) := by
  apply Shifts.after (.eat rfl)
  intro wildcard
  split
  · exact Shifts.pure _ 0
  · apply Shifts.after (balanced_parseExpr balanced)
    intro expr
    exact Shifts.after balanced_parseAlias fun _ => Shifts.pure _ 0

theorem balanced_parseProjectionList : Balanced (parseProjectionList nested) :=
  .commaList (balanced_parseSelectItem balanced) none

omit balanced in
theorem balanced_parseQualifiedName : Balanced parseQualifiedName := by
  apply Shifts.after balanced_expectIdent
  intro name
  apply Shifts.after (.eat rfl)
  intro dotted
  split
  · exact Shifts.after balanced_expectIdent fun _ => Shifts.pure _ 0
  · exact Shifts.pure name 0

omit balanced in
theorem balanced_parseTableAlias : Balanced parseTableAlias := by
  apply Shifts.peek
  intro token
  apply Shifts.peek2
  intro following
  split
  · next named =>
      apply Shifts.advance (by rw [named.1]; rfl)
      exact Shifts.after balanced_expectIdent fun _ => Shifts.pure _ 0
  · split
    · exact Shifts.after balanced_expectIdent fun _ => Shifts.pure _ 0
    · exact Shifts.pure none 0

theorem balanced_parseTableRef : Balanced (parseTableRef nested) := by
  apply Shifts.after (.eat rfl)
  intro agent
  split
  · apply Shifts.after (.expect rfl)
    intro _
    exact Shifts.after balanced_expectIdent fun _ => Shifts.pure _ 0
  · apply Shifts.eatOpen
    · apply Shifts.after balanced.selectInner
      intro _
      apply Shifts.expectClose
      exact Shifts.after balanced_parseAlias fun _ => Shifts.pure _ 0
    · apply Shifts.after balanced_parseQualifiedName
      intro name
      exact Shifts.after balanced_parseTableAlias fun _ => Shifts.pure _ 0

omit balanced in
theorem balanced_parseJoinType : Balanced parseJoinType := by
  apply Shifts.peek
  intro token
  split
  · exact Shifts.advance rfl (Shifts.after (.eat rfl) fun _ => Shifts.pure _ 0)
  · exact Shifts.advance rfl
      (Shifts.after (.eat rfl) fun _ => Shifts.after (.eat rfl) fun _ => Shifts.pure _ 0)
  · exact Shifts.advance rfl
      (Shifts.after (.eat rfl) fun _ => Shifts.after (.eat rfl) fun _ => Shifts.pure _ 0)
  · exact Shifts.advance rfl (Shifts.after (.eat rfl) fun _ => Shifts.pure _ 0)
  · exact Shifts.advance rfl (Shifts.after (.eat rfl) fun _ => Shifts.pure _ 0)
  · exact Shifts.advance rfl (Shifts.pure _ 0)
  · exact Shifts.fail _

theorem balanced_parseJoin : Balanced (parseJoin nested) := by
  apply Shifts.after balanced_parseJoinType
  intro joinType
  apply Shifts.after (balanced_parseTableRef balanced)
  intro table
  apply Shifts.after (.eat rfl)
  intro condition
  split
  · exact Shifts.after (balanced_parseExpr balanced) fun _ => Shifts.pure _ 0
  · exact Shifts.pure _ 0

theorem balanced_parseOrderByList : Balanced (parseOrderByList nested) := by
  apply Balanced.commaList
  apply Shifts.after (balanced_parseExpr balanced)
  intro expr
  apply Shifts.after (.eat rfl)
  intro descending
  split
  · exact Shifts.pure _ 0
  · exact Shifts.after (.eat rfl) fun _ => Shifts.pure _ 0

/-! ## The clauses of a SELECT -/

theorem balanced_parseDepthRange : Balanced (parseDepthRange nested) := by
  have primary := balanced_parsePrimaryExpr balanced
  have closes : ∀ range : Ast.Expr × Ast.Expr, Shifts none 1 0 (do
      expect .rParen
      return some range : Parse (Option (Ast.Expr × Ast.Expr))) := fun range =>
    Shifts.expectClose (Shifts.pure (some range) 0)
  have bounds : Shifts none 1 0 (do
      let low ← parsePrimaryExpr nested
      let high ← if ← eat .dotDot then parsePrimaryExpr nested else pure low
      expect .rParen
      return some (low, high) : Parse (Option (Ast.Expr × Ast.Expr))) := by
    apply Shifts.after primary
    intro low
    apply Shifts.after (.eat rfl)
    intro ranged
    dsimp only
    split
    · exact Shifts.after primary fun high => closes (low, high)
    · exact closes (low, low)
  apply Shifts.eatOpen
  · apply Shifts.peek
    intro token
    dsimp only
    split
    · next named =>
        have plain : isPlain token = true := by
          rcases named with same | word
          · rw [same]
            rfl
          · exact isPlain_of_isWord word
        exact Shifts.advance plain (Shifts.after (.eat rfl) fun _ => bounds)
    · exact Consumes.ofAny bounds
  · exact Shifts.pure none 0

theorem balanced_parseTraverseClause : Balanced (parseTraverseClause nested) := by
  apply Shifts.after (.expect rfl)
  intro _
  apply Shifts.after balanced_expectIdent
  intro relation
  apply Shifts.after (balanced_parseDepthRange balanced)
  intro depth
  apply Shifts.after
  · apply Balanced.loop
    intro chain
    apply Shifts.after (.eat rfl)
    intro longer
    split
    · exact Shifts.after balanced_expectIdent fun _ => Shifts.pure _ 0
    · exact Shifts.pure none 0
  · exact fun chain => Shifts.pure _ 0

theorem balanced_traceStep (clause : TraceCausalityClause Ast.Expr) :
    Balanced (traceStep nested clause) := by
  have expr := balanced_parseExpr balanced
  have primary := balanced_parsePrimaryExpr balanced
  apply Shifts.peek
  intro token
  split
  · next same =>
      apply Shifts.advance (by rw [same]; rfl)
      exact Shifts.after primary fun _ => Shifts.pure _ 0
  · split
    · next word =>
        apply Shifts.advance (isPlain_of_isWord word)
        exact Shifts.after primary fun _ => Shifts.pure _ 0
    · split
      · next same =>
          apply Shifts.advance (by rw [same]; rfl)
          exact Shifts.after expr fun _ => Shifts.pure _ 0
      · split
        · next same =>
            apply Shifts.advance (by rw [same]; rfl)
            exact Shifts.after expr fun _ => Shifts.pure _ 0
        · split
          · next same =>
              apply Shifts.advance (by rw [same]; rfl)
              exact Shifts.after expr fun _ => Shifts.pure _ 0
          · exact Shifts.pure none 0

theorem balanced_parseTraceCausalityClause : Balanced (parseTraceCausalityClause nested) := by
  apply Shifts.after (.expect rfl)
  intro _
  apply Shifts.after (.expect rfl)
  intro _
  exact Balanced.loop (balanced_traceStep balanced) _

theorem balanced_contextStep (options : Ast.ContextOptions Ast.Expr) :
    Balanced (contextStep nested options) := by
  have expr := balanced_parseExpr balanced
  have priorities := balanced_parseOrderByList balanced
  apply Shifts.peek
  intro token
  split
  · exact Shifts.pure none 0
  · apply Shifts.after balanced_expectIdent
    intro key
    apply Shifts.after (.expect rfl)
    intro _
    have ending : ∀ options : Ast.ContextOptions Ast.Expr, Balanced (do
        let _ ← eat .comma
        return some options : Parse (Option (Ast.ContextOptions Ast.Expr))) := fun options =>
      Shifts.after (.eat rfl) fun _ => Shifts.pure (some options) 0
    dsimp only
    split
    iterate 3 exact Shifts.after expr fun _ => ending _
    · apply Shifts.peek
      intro token
      split
      · exact Shifts.advance rfl (ending _)
      · exact Shifts.advance rfl (ending _)
      · exact Shifts.bind (Shifts.fail _) ending
    · apply Shifts.after (.eat rfl)
      intro listed
      split
      · apply Shifts.after priorities
        intro priority
        exact Shifts.after (.expect rfl) fun _ => ending _
      · exact Shifts.after priorities fun _ => ending _
    · exact Shifts.bind (Shifts.fail _) ending

theorem balanced_parseWithinContext : Balanced (parseWithinContext nested) := by
  apply Shifts.after (.expect rfl)
  intro _
  apply Shifts.after (.expect rfl)
  intro _
  apply Shifts.expectOpen
  apply Shifts.after (.loop (balanced_contextStep balanced) _)
  intro options
  exact Shifts.expectClose (Shifts.pure options 0)

theorem balanced_parseValidTime : Balanced (parseValidTime nested) := by
  have primary := balanced_parsePrimaryExpr balanced
  apply Shifts.after (.eat rfl)
  intro ranged
  split
  · apply Shifts.after primary
    intro low
    apply Shifts.after (.expect rfl)
    intro _
    exact Shifts.after primary fun _ => Shifts.pure _ 0
  · exact Shifts.after primary fun _ => Shifts.pure _ 0

theorem balanced_parseAsOfBody : Balanced (parseAsOfBody nested) := by
  have primary := balanced_parsePrimaryExpr balanced
  have validTime := balanced_parseValidTime balanced
  apply Shifts.peek
  intro first
  split
  · next same =>
      apply Shifts.advance (by rw [same]; rfl)
      exact Shifts.after primary fun _ => Shifts.pure _ 0
  · split
    · next same => exact Shifts.advance (by rw [same]; rfl) validTime
    · split
      · next word =>
          apply Shifts.advance (isPlain_of_isWord word)
          apply Shifts.after (balanced_eatKeywordOrIdent _)
          intro _
          exact Shifts.after primary fun _ => Shifts.pure _ 0
      · split
        · next word =>
            apply Shifts.advance (isPlain_of_isWord word)
            exact Shifts.after (balanced_eatKeywordOrIdent _) fun _ => validTime
        · exact Shifts.fail _

/-! ## RECALL BY -/

theorem balanced_parseWeight : Balanced (parseWeight nested) := by
  apply Shifts.after balanced_expectIdent
  intro key
  split
  · apply Shifts.after (.expect rfl)
    intro _
    exact Shifts.after (balanced_parsePrimaryExpr balanced) fun _ => Shifts.pure _ 0
  · exact Shifts.pure none 0

theorem balanced_recencyStep (options : Option String × Option String × Option Ast.Expr) :
    Balanced (recencyStep nested options) := by
  have primary := balanced_parsePrimaryExpr balanced
  have ending : ∀ options : Option String × Option String × Option Ast.Expr, Balanced (do
      let _ ← eat .comma
      return some options : Parse (Option (Option String × Option String × Option Ast.Expr))) :=
    fun options => Shifts.after (.eat rfl) fun _ => Shifts.pure (some options) 0
  apply Shifts.peek
  intro token
  split
  · exact Shifts.pure none 0
  · rcases options with ⟨decay, halfLife, weight⟩
    apply Shifts.after balanced_expectIdent
    intro key
    apply Shifts.after (.expect rfl)
    intro _
    dsimp only
    split
    · exact Shifts.after balanced_expectStringOrIdent fun _ => ending _
    · exact Shifts.after balanced_expectStringOrIdent fun _ => ending _
    · exact Shifts.after primary fun _ => ending _
    · exact Shifts.after primary fun _ => ending _

theorem balanced_parseRecallWeight : Balanced (parseRecallWeight nested) := by
  have primary := balanced_parsePrimaryExpr balanced
  have weighted := balanced_parseWeight balanced
  apply Shifts.after balanced_expectIdent
  intro name
  apply Shifts.expectOpen
  split
  · apply Shifts.after primary
    intro query
    apply Shifts.after (.eat rfl)
    intro more
    dsimp only
    split
    · exact Shifts.after weighted fun _ => Shifts.expectClose (Shifts.pure _ 0)
    · exact Shifts.expectClose (Shifts.pure _ 0)
  · apply Shifts.after (.loop (balanced_recencyStep balanced) _)
    intro options
    exact Shifts.expectClose (Shifts.pure _ 0)
  · apply Shifts.peek
    intro token
    dsimp only
    split
    · exact Shifts.expectClose (Shifts.pure _ 0)
    · exact Shifts.after weighted fun _ => Shifts.expectClose (Shifts.pure _ 0)
  · exact Shifts.fail _

theorem balanced_parseRecallByClause : Balanced (parseRecallByClause nested) := by
  have weight := balanced_parseRecallWeight balanced
  apply Shifts.after (.expect rfl)
  intro _
  apply Shifts.after (.expect rfl)
  intro _
  apply Shifts.after weight
  intro first
  apply Balanced.loop
  intro weights
  apply Shifts.after (.eat rfl)
  intro more
  split
  · exact Shifts.after weight fun _ => Shifts.pure _ 0
  · exact Shifts.pure none 0

/-! ## The whole SELECT -/

omit balanced in
theorem isPlain_of_isOf {parser : Parser} (ofNext : isOf (parser.rest.head?.map Prod.fst) = true) :
    isPlain parser.next.current.1 = true := by
  rcases parser with ⟨current, rest⟩
  cases rest with
  | nil => cases ofNext
  | cons following rest => exact isPlain_of_isWord ofNext

omit balanced in
theorem balanced_eatAsOf : Balanced eatAsOf := by
  constructor
  intro parser value after ends _ ran
  change (if parser.current.1 = .as ∧ isOf (parser.rest.head?.map Prod.fst) = true then do
    advance
    advance
    return true
  else return false : Parse Bool) parser = .ok value after at ran
  split at ran
  · next words =>
      cases ran
      have plain := isPlain_of_isOf words.2
      have first := ends.reading_next (by rw [words.1]; decide)
      have second := first.2.reading_next (ne_eof_of_isPlain plain)
      refine ⟨_, first.1.trans second.1, ?_⟩
      rw [words.1]
      exact (Moves.plain rfl 0).append (Moves.plain plain 0)
  · cases ran
    exact ⟨[], .done parser, Moves.nil 0⟩

theorem shifts_traceOption {token : Token} (plain : isPlain token = true)
    (stmt : SelectStmt Ast.Expr)
    (set : TraceCausalityClause Ast.Expr → Ast.Expr → TraceCausalityClause Ast.Expr) :
    Shifts (some token) 0 0 (traceOption nested stmt set) := by
  rw [traceOption]
  split
  · apply Shifts.advance plain
    exact Shifts.after (balanced_parseExpr balanced) fun _ => Shifts.pure _ 0
  · exact Shifts.pure none 0

theorem balanced_selectClause (stmt : SelectStmt Ast.Expr) :
    Balanced (selectClause nested stmt) := by
  have expr := balanced_parseExpr balanced
  have asOf := balanced_parseAsOfBody balanced
  apply Shifts.peek
  intro token
  split
  · exact Shifts.after (balanced_parseJoin balanced) fun _ => Shifts.pure _ 0
  · split
    · exact Shifts.after (balanced_parseTraverseClause balanced) fun _ => Shifts.pure _ 0
    · exact Shifts.after (balanced_parseTraceCausalityClause balanced) fun _ => Shifts.pure _ 0
    · exact Shifts.advance rfl (Shifts.after expr fun _ => Shifts.pure _ 0)
    · exact Shifts.after (balanced_parseRecallByClause balanced) fun _ => Shifts.pure _ 0
    · apply Shifts.advance rfl
      apply Shifts.after (.expect rfl)
      intro _
      exact Shifts.after (.commaList expr none) fun _ => Shifts.pure _ 0
    · exact Shifts.advance rfl (Shifts.after expr fun _ => Shifts.pure _ 0)
    · apply Shifts.advance rfl
      apply Shifts.after (.expect rfl)
      intro _
      exact Shifts.after (balanced_parseOrderByList balanced) fun _ => Shifts.pure _ 0
    · exact Shifts.advance rfl (Shifts.after expr fun _ => Shifts.pure _ 0)
    · exact Shifts.advance rfl (Shifts.after expr fun _ => Shifts.pure _ 0)
    · exact Shifts.after (balanced_parseWithinContext balanced) fun _ => Shifts.pure _ 0
    · exact Shifts.advance rfl (Shifts.after asOf fun _ => Shifts.pure _ 0)
    · apply Shifts.after balanced_eatAsOf
      intro eaten
      split
      · exact Shifts.after asOf fun _ => Shifts.pure _ 0
      · exact Shifts.pure none 0
    · apply Shifts.advance rfl
      exact Shifts.after (balanced_parseProjectionList balanced) fun _ => Shifts.pure _ 0
    · exact shifts_traceOption balanced rfl stmt _
    · exact shifts_traceOption balanced rfl stmt _
    · exact shifts_traceOption balanced rfl stmt _
    · exact Shifts.pure none 0

theorem balanced_parseSelectInner : Balanced (parseSelectInner nested) := by
  have clauses := balanced_selectClause balanced
  apply Shifts.after (.expect rfl)
  intro _
  apply Shifts.after (.eat rfl)
  intro distinct
  apply Shifts.after (balanced_parseProjectionList balanced)
  intro projections
  apply Shifts.after (.eat rfl)
  intro source
  split
  · apply Shifts.after (balanced_parseTableRef balanced)
    intro table
    exact Balanced.loop clauses _
  · exact Balanced.loop clauses _

omit balanced in
/-- Whatever the nesting, what is called inside brackets is balanced. -/
theorem balancedNested_nestedTo (depth : Nat) : BalancedNested (nestedTo depth) := by
  induction depth with
  | zero =>
      have running : ∀ α : Type, Balanced (fun _ => .running : Parse α) := by
        intro α
        constructor
        intro parser value after _ _ ran
        cases ran
      exact ⟨running _, running _, running _, running _⟩
  | succ depth balanced =>
      exact ⟨balanced_parseExpr balanced, balanced_parseNotExpr balanced,
        balanced_parsePrimaryExpr balanced, balanced_parseSelectInner balanced⟩

end Parse

end FunDB.Sql
