import FunDB.Sql.ExprPrinter
import FunDB.Sql.ParserSteps
import FunDB.Sql.ParseSelect

/-! # Parsing printed expressions

What the levels of the expression parser make of the tokens of a printed
expression. -/

namespace FunDB.Sql

open Ast

/-! ## What can be read back -/

namespace Printable

variable {platform : TextPlatform}

def isNeg : Printable platform → Bool
  | neg _ => true
  | _ => false

mutual

/-- No minus sign directly behind a minus sign, and no empty list. -/
def supported : Printable platform → Bool
  | int .. | string .. | bool .. | null | param .. | column .. => true
  | binary _ left right => left.supported && right.supported
  | inList expr list => expr.supported && (!list.isEmpty && allSupported list)
  | between expr low high => expr.supported && (low.supported && high.supported)
  | isNull expr => expr.supported
  | isNotNull expr => expr.supported
  | not expr => expr.supported
  | neg expr => !expr.isNeg && expr.supported

def allSupported : List (Printable platform) → Bool
  | [] => true
  | expr :: list => expr.supported && allSupported list

end

end Printable

/-! ## Levels -/

namespace Parse

def levelParser (nested : Nested) : Nat → Parse Ast.Expr
  | 1 => parseOrExpr nested
  | 2 => parseAndExpr nested
  | 3 => parseNotExpr nested
  | 4 => parseComparisonExpr nested
  | 5 => parseAdditiveExpr nested
  | 6 => parseMultiplicativeExpr nested
  | 7 => parseVectorDistExpr nested
  | _ => parsePrimaryExpr nested

/-- The highest level at which a token goes on with an expression. -/
def tightness : Token → Nat
  | .or => 1
  | .and => 2
  | .eq | .assign | .notEq | .lt | .ltEq | .gt | .gtEq | .like | .not | .is | .in | .between => 4
  | .plus | .minus => 5
  | .star | .slash | .percent => 6
  | .vectorDist => 7
  | .lParen | .dot => 8
  | _ => 0

/-- The highest level at which a token can start an expression. -/
def opens : Token → Nat
  | .select => 0
  | .not => 3
  | .minus => 7
  | _ => 8

def levelOp : Nat → Token → Option Ast.BinaryOp
  | 1 => orOp
  | 2 => andOp
  | 5 => additiveOp
  | 6 => multiplicativeOp
  | _ => fun _ => none

def GroupsLeft (level : Nat) : Prop := level = 1 ∨ level = 2 ∨ level = 5 ∨ level = 6

instance : DecidablePred GroupsLeft := fun _ => inferInstanceAs (Decidable (_ ∨ _))

variable {nested : Nested} {level : Nat}

theorem levelParser_chain (chain : GroupsLeft level) :
    levelParser nested level = leftAssoc (levelParser nested (level + 1)) (levelOp level) := by
  rcases chain with rfl | rfl | rfl | rfl <;> rfl

theorem tightness_of_levelOp {token : Token} {op : Ast.BinaryOp}
    (isOperator : levelOp level token = some op) : tightness token = level := by
  unfold levelOp at isOperator
  split at isOperator
  · unfold orOp at isOperator
    split at isOperator <;> simp_all [tightness]
  · unfold andOp at isOperator
    split at isOperator <;> simp_all [tightness]
  · unfold additiveOp at isOperator
    split at isOperator <;> simp_all [tightness]
  · unfold multiplicativeOp at isOperator
    split at isOperator <;> simp_all [tightness]
  · cases isOperator

theorem levelOp_of_lt {token : Token} (loose : tightness token < level) :
    levelOp level token = none := by
  cases found : levelOp level token with
  | none => rfl
  | some op => exact absurd (tightness_of_levelOp found) loose.ne

theorem tightness_of_comparisonOp {token : Token} {op : Ast.BinaryOp}
    (isOperator : comparisonOp token = some op) : tightness token = 4 := by
  unfold comparisonOp at isOperator
  split at isOperator <;> simp_all [tightness]

theorem comparisonTail_stop {parser : Parser} {left : Ast.Expr}
    (loose : tightness parser.current.1 < 4) :
    comparisonTail nested left parser = .ok left parser := by
  have notOperator : comparisonOp parser.current.1 = none := by
    cases found : comparisonOp parser.current.1 with
    | none => rfl
    | some op => exact absurd (tightness_of_comparisonOp found) loose.ne
  rw [comparisonTail, bind_ok (peek_apply parser), notOperator]
  generalize parser.current.1 = token at loose
  split
  case h_5 => rfl
  all_goals exact absurd loose (by decide)

/-! ## From one level to the next -/

section

variable {parser after : Parser} {good : Prop} {value : Ast.Expr}

theorem settles_unary (settles : Settles (parsePrimaryExpr nested parser) good value after)
    (head : 7 < opens parser.current.1) :
    Settles (parseUnaryExpr nested parser) good value after := by
  have notMinus : parser.current.1 ≠ .minus := fun same => absurd (same ▸ head) (by decide)
  exact .of_ok (eat_of_ne notMinus) settles

theorem settles_vectorDist (settles : Settles (parseUnaryExpr nested parser) good value after)
    (loose : tightness after.current.1 < 7) :
    Settles (parseVectorDistExpr nested parser) good value after := by
  have noDistance : after.current.1 ≠ .vectorDist := fun same => absurd (same ▸ loose) (by decide)
  refine (settles.bind fun _ => ?_).congr (iff_of_eq (and_true good))
  exact .of_ok (eat_of_ne noDistance) .ok

theorem settles_chain (chain : GroupsLeft level)
    (settles : Settles (levelParser nested (level + 1) parser) good value after)
    (loose : tightness after.current.1 < level) :
    Settles (levelParser nested level parser) good value after := by
  rw [levelParser_chain chain]
  exact (leftAssoc_first settles).settles fun _ => levelOp_of_lt loose

theorem settles_comparison
    (settles : Settles (parseAdditiveExpr nested parser) good value after)
    (loose : tightness after.current.1 < 4) :
    Settles (parseComparisonExpr nested parser) good value after := by
  refine (settles.bind fun _ => ?_).congr (iff_of_eq (and_true good))
  rw [comparisonTail_stop loose]
  exact .ok

theorem settles_not (settles : Settles (parseComparisonExpr nested parser) good value after)
    (head : 3 < opens parser.current.1) :
    Settles (parseNotExpr nested parser) good value after := by
  have noNot : parser.current.1 ≠ .not := fun same => absurd (same ▸ head) (by decide)
  exact .of_ok (eat_of_ne noNot) settles

theorem settles_lower (positive : 0 < level) (bounded : level < 8)
    (settles : Settles (levelParser nested (level + 1) parser) good value after)
    (head : level < opens parser.current.1) (loose : tightness after.current.1 < level) :
    Settles (levelParser nested level parser) good value after := by
  have cases : GroupsLeft level ∨ level = 3 ∨ level = 4 ∨ level = 7 := by
    unfold GroupsLeft
    omega
  rcases cases with chain | rfl | rfl | rfl
  · exact settles_chain chain settles loose
  · exact settles_not settles head
  · exact settles_comparison settles loose
  · exact settles_vectorDist (settles_unary settles head) loose

/-- What a level reads is read by every level below it. -/
theorem settles_below {low high : Nat} (positive : 0 < low) (below : low ≤ high)
    (bounded : high ≤ 8)
    (settles : Settles (levelParser nested high parser) good value after)
    (head : high ≤ opens parser.current.1) (loose : tightness after.current.1 < low) :
    Settles (levelParser nested low parser) good value after := by
  induction high, below using Nat.le_induction with
  | base => exact settles
  | succ high below induction =>
      have lower := settles_lower (positive.trans_le below) (by omega) settles head
        (loose.trans_le below)
      exact induction (by omega) lower (by omega)

end

/-! ## Primary expressions -/

section

variable {parser middle : Parser} {good : Prop} {value : Ast.Expr}

theorem primary_bracket (isOpen : parser.current.1 = .lParen)
    (notSelect : parser.next.current.1 ≠ .select)
    (settles : Settles (nested.expr parser.next) good value middle)
    (isClosed : middle.current.1 = .rParen) :
    Settles (parsePrimaryExpr nested parser) good value middle.next := by
  have inside : parsePrimaryExpr nested parser =
      (do let expr ← nested.expr; expect .rParen; return expr : Parse Ast.Expr) parser.next := by
    rw [parsePrimaryExpr, bind_ok (peek_apply parser), isOpen]
    dsimp only
    rw [bind_ok (advance_apply parser), bind_ok (peek_apply _), if_neg notSelect]
  rw [inside]
  refine (settles.bind fun _ => ?_).congr (iff_of_eq (and_true good))
  exact .of_ok (expect_of_eq isClosed) .ok

theorem primary_column {name : String} (isName : parser.current.1 = .ident name)
    (loose : tightness parser.next.current.1 < 8) :
    parsePrimaryExpr nested parser = .ok (.ident name) parser.next := by
  have noCall : parser.next.current.1 ≠ .lParen := fun same => absurd (same ▸ loose) (by decide)
  have noField : parser.next.current.1 ≠ .dot := fun same => absurd (same ▸ loose) (by decide)
  rw [parsePrimaryExpr, bind_ok (peek_apply parser), isName]
  change nameTail nested name parser.next = _
  rw [nameTail, bind_ok (eat_of_ne noCall), if_neg Bool.false_ne_true,
    bind_ok (eat_of_ne noField), if_neg Bool.false_ne_true]
  rfl

/-- The value of a primary expression of one token. -/
def atomValue : Token → Option Ast.Expr
  | .intLiteral value => some (.literal (.int value))
  | .stringLiteral content => some (.literal (.string content))
  | .true => some (.literal (.bool true))
  | .false => some (.literal (.bool false))
  | .null => some (.literal .null)
  | .param name => some (.param name)
  | _ => none

theorem primary_atom (isAtom : atomValue parser.current.1 = some value) :
    parsePrimaryExpr nested parser = .ok value parser.next := by
  rw [parsePrimaryExpr, bind_ok (peek_apply parser)]
  generalize parser.current.1 = token at isAtom
  unfold atomValue at isAtom
  split at isAtom <;> cases isAtom <;> rfl

theorem primary_minus (isMinus : parser.current.1 = .minus) :
    ∃ error, parsePrimaryExpr nested parser = .err error := by
  rw [parsePrimaryExpr, bind_ok (peek_apply parser), isMinus]
  exact ⟨_, rfl⟩

theorem primary_closed (isClosed : parser.current.1 = .rParen) :
    ∃ error, parsePrimaryExpr nested parser = .err error := by
  rw [parsePrimaryExpr, bind_ok (peek_apply parser), isClosed]
  exact ⟨_, rfl⟩

end

/-! ## What follows the left operand of a comparison -/

section

variable {parser middle after : Parser} {good goodHigh : Prop} {left low high : Ast.Expr}

theorem tail_operator {op : Ast.BinaryOp} (isOperator : comparisonOp parser.current.1 = some op)
    (settles : Settles (parseAdditiveExpr nested parser.next) good high after) :
    Settles (comparisonTail nested left parser) good (.binaryOp op left high) after := by
  have goesOn : comparisonTail nested left parser =
      (do return .binaryOp op left (← parseAdditiveExpr nested) : Parse Ast.Expr) parser.next := by
    rw [comparisonTail, bind_ok (peek_apply parser), isOperator]
    rfl
  rw [goesOn]
  exact settles.map fun value => Ast.Expr.binaryOp op left value

theorem tail_notLike (isNot : parser.current.1 = .not) (isLike : parser.next.current.1 = .like)
    (settles : Settles (parseAdditiveExpr nested parser.next.next) good high after) :
    Settles (comparisonTail nested left parser) good (.binaryOp .notLike left high) after := by
  have goesOn : comparisonTail nested left parser =
      (do return .binaryOp .notLike left (← parseAdditiveExpr nested) : Parse Ast.Expr)
        parser.next.next := by
    rw [comparisonTail, bind_ok (peek_apply parser), isNot]
    dsimp only [comparisonOp]
    rw [bind_ok (advance_apply parser), bind_ok (eat_of_eq isLike)]
    rfl
  rw [goesOn]
  exact settles.map fun value => Ast.Expr.binaryOp .notLike left value

theorem tail_in {list : List Ast.Expr} (isIn : parser.current.1 = .in)
    (isOpen : parser.next.current.1 = .lParen)
    (settles : Settles (commaList nested.expr none parser.next.next) good list after)
    (isClosed : good → after.current.1 = .rParen) :
    Settles (comparisonTail nested left parser) good (.inList left list) after.next := by
  have goesOn : comparisonTail nested left parser =
      (do return .inList left (← parseInList nested) : Parse Ast.Expr) parser.next := by
    rw [comparisonTail, bind_ok (peek_apply parser), isIn]
    rfl
  have inside : Settles (parseInList nested parser.next) good list after.next := by
    refine .of_ok (expect_of_eq isOpen) ?_
    refine (settles.bind fun holds => ?_).congr (iff_of_eq (and_true good))
    exact .of_ok (expect_of_eq (isClosed holds)) .ok
  rw [goesOn]
  exact inside.map fun list => Ast.Expr.inList left list

theorem tail_between (isBetween : parser.current.1 = .between)
    (settlesLow : Settles (parseAdditiveExpr nested parser.next) good low middle)
    (isAnd : middle.current.1 = .and)
    (settlesHigh : Settles (parseAdditiveExpr nested middle.next) goodHigh high after) :
    Settles (comparisonTail nested left parser) (good ∧ goodHigh) (.between left low high)
      after := by
  have goesOn : comparisonTail nested left parser =
      (do
        let low ← parseAdditiveExpr nested
        expect .and
        return .between left low (← parseAdditiveExpr nested) : Parse Ast.Expr) parser.next := by
    rw [comparisonTail, bind_ok (peek_apply parser), isBetween]
    rfl
  rw [goesOn]
  refine settlesLow.bind fun _ => ?_
  exact .of_ok (expect_of_eq isAnd) (settlesHigh.map fun high => Ast.Expr.between left low high)

theorem tail_isNull (isIs : parser.current.1 = .is) (isNull : parser.next.current.1 = .null) :
    comparisonTail nested left parser = .ok (.isNull left) parser.next.next := by
  have noNot : parser.next.current.1 ≠ .not := by rw [isNull]; decide
  rw [comparisonTail, bind_ok (peek_apply parser), isIs]
  dsimp only [comparisonOp]
  rw [bind_ok (advance_apply parser), bind_ok (eat_of_ne noNot), if_neg Bool.false_ne_true,
    bind_ok (expect_of_eq isNull)]
  rfl

theorem tail_isNotNull (isIs : parser.current.1 = .is) (isNot : parser.next.current.1 = .not)
    (isNull : parser.next.next.current.1 = .null) :
    comparisonTail nested left parser = .ok (.isNotNull left) parser.next.next.next := by
  rw [comparisonTail, bind_ok (peek_apply parser), isIs]
  dsimp only [comparisonOp]
  rw [bind_ok (advance_apply parser), bind_ok (eat_of_eq isNot), if_pos rfl,
    bind_ok (expect_of_eq isNull)]
  rfl

end

end Parse

/-! ## The first token -/

namespace Printable

open Parse

/-- The first token can start an expression at the level. -/
def Opens (level : Nat) (tokens : List Token) : Prop :=
  ∃ token rest, tokens = token :: rest ∧ level ≤ opens token

namespace Opens

variable {level minimum : Nat} {tokens : List Token}

theorem append (starts : Opens level tokens) (more : List Token) :
    Opens level (tokens ++ more) := by
  rcases starts with ⟨token, rest, rfl, head⟩
  exact ⟨token, rest ++ more, rfl, head⟩

theorem bracket (starts : Opens level tokens) (bounded : minimum ≤ 8) :
    Opens minimum (bracket level minimum tokens) := by
  unfold Sql.bracket
  split
  · exact ⟨.lParen, tokens ++ [Token.rParen], rfl, bounded⟩
  · next enough =>
      rcases starts with ⟨token, rest, same, head⟩
      exact ⟨token, rest, same, by omega⟩

theorem head {parser after : Parser} (starts : Opens level tokens)
    (reading : Reading parser tokens after) : level ≤ opens parser.current.1 := by
  rcases starts with ⟨token, rest, rfl, head⟩
  rw [reading.current]
  exact head

theorem ne_nil (starts : Opens level tokens) : tokens ≠ [] := by
  rcases starts with ⟨token, rest, rfl, -⟩
  exact List.cons_ne_nil token rest

end Opens

theorem Opens.lower {low high : Nat} {tokens : List Token} (starts : Opens high tokens)
    (below : low ≤ high) : Opens low tokens := by
  rcases starts with ⟨token, rest, same, head⟩
  exact ⟨token, rest, same, below.trans head⟩

theorem Opens.comparison {level : Nat} {tokens : List Token} (starts : Opens level tokens)
    (more : List Token) : Opens 4 (Sql.bracket level 5 tokens ++ more) :=
  ((starts.bracket (by decide)).append more).lower (by decide)

theorem operator_bounds (op : InfixOp) :
    0 < op.level ∧ op.level ≤ op.leftLevel ∧ op.leftLevel ≤ 8 := by
  cases op <;> decide

variable {platform : TextPlatform}

theorem opens_tokens (expr : Printable platform) : Opens expr.level expr.tokens := by
  cases expr with
  | int value | string content | null | param name | column name =>
      exact ⟨_, [], rfl, le_rfl⟩
  | bool value => cases value <;> exact ⟨_, [], rfl, le_rfl⟩
  | binary op left right =>
      rcases operator_bounds op with ⟨-, lower, bounded⟩
      exact (((opens_tokens left).bracket bounded).append _).lower lower
  | inList expr list => exact (opens_tokens expr).comparison _
  | between expr low high => exact (opens_tokens expr).comparison _
  | isNull expr => exact (opens_tokens expr).comparison _
  | isNotNull expr => exact (opens_tokens expr).comparison _
  | not expr => exact ⟨.not, _, rfl, le_rfl⟩
  | neg expr => exact ⟨.minus, _, rfl, le_rfl⟩

theorem level_bounds (expr : Printable platform) : 0 < expr.level ∧ expr.level ≤ 8 := by
  cases expr with
  | binary op left right =>
      rcases operator_bounds op with ⟨positive, lower, bounded⟩
      exact ⟨positive, lower.trans bounded⟩
  | _ => simp [level]

theorem isNeg_iff_level (expr : Printable platform) : expr.isNeg = true ↔ expr.level = 7 := by
  cases expr with
  | binary op left right => cases op <;> simp [isNeg, level, InfixOp.level]
  | _ => simp [isNeg, level]

theorem current_of_isNeg {expr : Printable platform} {parser after : Parser}
    (negative : expr.isNeg = true) (reading : Reading parser expr.tokens after) :
    parser.current.1 = .minus := by
  cases expr with
  | neg inner => exact reading.current
  | _ => cases negative

theorem chain_operator {op : InfixOp} (chain : GroupsLeft op.level) :
    ∃ token, op.tokens = [token] ∧ tightness token = op.level ∧
      levelOp op.level token = some op.ast := by
  cases op <;> first | exact ⟨_, rfl, rfl, rfl⟩ | exact absurd chain (by decide)

theorem comparison_operator {op : InfixOp} (single : ¬GroupsLeft op.level) :
    op = .notLike ∨ ∃ token, op.tokens = [token] ∧ tightness token = 4 ∧
      comparisonOp token = some op.ast := by
  cases op <;>
    first
      | exact .inl rfl
      | exact .inr ⟨_, rfl, rfl, rfl⟩
      | exact absurd (by decide) single

theorem level_of_single {op : InfixOp} (single : ¬GroupsLeft op.level) : op.level = 4 := by
  cases op <;> first | rfl | exact absurd (by decide) single

/-! ## Operands -/

/-- The tokens of the expression are read at its level and, where that level
groups to the left, by its loop. -/
structure ReadBack (expr : Printable platform) : Prop where
  settles : ∀ depth parser after, expr.tokens.length ≤ depth →
    Reading parser expr.tokens after → tightness after.current.1 < expr.level →
    Settles (levelParser (nestedTo depth) expr.level parser) (expr.supported = true) expr.ast
      after
  looping : GroupsLeft expr.level → ∀ depth parser after, expr.tokens.length ≤ depth →
    Reading parser expr.tokens after → tightness after.current.1 ≤ expr.level →
    LeftLoop (levelParser (nestedTo depth) (expr.level + 1)) (levelOp expr.level)
      (levelParser (nestedTo depth) expr.level parser) (expr.supported = true) expr.ast after

namespace ReadBack

variable {expr : Printable platform} {depth minimum : Nat} {parser after : Parser}

/-- What is inside brackets is read as a whole expression. -/
theorem nested (read : expr.ReadBack) (enough : expr.tokens.length < depth)
    (reading : Reading parser expr.tokens after) (loose : tightness after.current.1 = 0) :
    Settles ((nestedTo depth).expr parser) (expr.supported = true) expr.ast after := by
  rcases Nat.exists_eq_succ_of_ne_zero (Nat.ne_zero_of_lt enough) with ⟨less, rfl⟩
  have bounds := expr.level_bounds
  have settles := read.settles less parser after (Nat.le_of_lt_succ enough) reading (by omega)
  exact settles_below (by decide) bounds.1 bounds.2 settles (expr.opens_tokens.head reading)
    (by omega)

theorem brackets (read : expr.ReadBack) (enough : expr.tokens.length + 2 ≤ depth)
    (reading : Reading parser (.lParen :: (expr.tokens ++ [.rParen])) after) :
    Settles (parsePrimaryExpr (nestedTo depth) parser) (expr.supported = true) expr.ast
      after := by
  rcases reading.next.split with ⟨middle, inside, closing⟩
  have isClosed : middle.current.1 = .rParen := closing.current
  have notSelect : parser.next.current.1 ≠ .select := by
    have head := expr.opens_tokens.head inside
    have positive := expr.level_bounds.1
    intro same
    rw [same] at head
    exact absurd (positive.trans_le head) (by decide)
  rw [← closing.next.eq_of_nil]
  exact primary_bracket reading.current notSelect
    (read.nested (by omega) inside (by rw [isClosed]; rfl)) isClosed

/-- An operand with the brackets that it needs is read at the level. -/
theorem operand (read : expr.ReadBack) (positive : 0 < minimum) (bounded : minimum ≤ 8)
    (enough : (bracket expr.level minimum expr.tokens).length ≤ depth)
    (reading : Reading parser (bracket expr.level minimum expr.tokens) after)
    (loose : tightness after.current.1 < minimum) :
    Settles (levelParser (nestedTo depth) minimum parser) (expr.supported = true) expr.ast
      after := by
  unfold bracket at enough reading
  split at reading
  · next looser =>
      rw [if_pos looser, List.length_cons, List.length_append, List.length_singleton] at enough
      have settles : Settles (levelParser (nestedTo depth) 8 parser) (expr.supported = true)
          expr.ast after := read.brackets enough reading
      have head : 8 ≤ opens parser.current.1 := by rw [reading.current]; decide
      exact settles_below positive bounded le_rfl settles head loose
  · next tighter =>
      rw [if_neg tighter] at enough
      have settles := read.settles depth parser after enough reading (by omega)
      exact settles_below positive (by omega) expr.level_bounds.2 settles
        (expr.opens_tokens.head reading) loose

/-- A left operand is read by the loop of a level that groups to the left. -/
theorem leftOperand (read : expr.ReadBack) (chain : GroupsLeft minimum)
    (enough : (bracket expr.level minimum expr.tokens).length ≤ depth)
    (reading : Reading parser (bracket expr.level minimum expr.tokens) after)
    (loose : tightness after.current.1 ≤ minimum) :
    LeftLoop (levelParser (nestedTo depth) (minimum + 1)) (levelOp minimum)
      (levelParser (nestedTo depth) minimum parser) (expr.supported = true) expr.ast after := by
  have bounded : minimum + 1 ≤ 8 := by
    unfold GroupsLeft at chain
    omega
  by_cases same : expr.level = minimum
  · subst same
    rw [bracket, if_neg (lt_irrefl _)] at enough reading
    exact read.looping chain depth parser after enough reading loose
  · have next : bracket expr.level minimum expr.tokens =
        bracket expr.level (minimum + 1) expr.tokens := by
      unfold bracket
      exact if_congr (by omega) rfl rfl
    rw [next] at enough reading
    rw [levelParser_chain chain]
    exact leftAssoc_first
      (read.operand (by omega) bounded enough reading (by omega))

/-! ## One constructor after the other -/

theorem of_settles (level : Nat) (isLevel : expr.level = level) (single : ¬GroupsLeft level)
    (settles : ∀ depth parser after, expr.tokens.length ≤ depth →
      Reading parser expr.tokens after → tightness after.current.1 < level →
      Settles (levelParser (nestedTo depth) level parser) (expr.supported = true) expr.ast
        after) : expr.ReadBack := by
  subst isLevel
  exact ⟨settles, fun chain => absurd chain single⟩

theorem of_primary {token : Token} (isToken : expr.tokens = [token]) (top : expr.level = 8)
    (supported : expr.supported = true)
    (primary : ∀ (nested : Nested) (parser : Parser), parser.current.1 = token →
      tightness parser.next.current.1 < 8 →
      parsePrimaryExpr nested parser = .ok expr.ast parser.next) : expr.ReadBack := by
  apply of_settles 8 top (by decide)
  intro depth parser after _ reading loose
  rw [isToken] at reading
  have same := reading.next.eq_of_nil
  have read := primary (nestedTo depth) parser reading.current (same ▸ loose)
  rw [same] at read
  exact ⟨fun _ => read, fun bad => absurd supported bad⟩

theorem atom (token : Token) (isToken : expr.tokens = [token]) (top : expr.level = 8)
    (supported : expr.supported = true) (isAtom : atomValue token = some expr.ast) :
    expr.ReadBack :=
  of_primary isToken top supported fun _ _ same _ => primary_atom (same ▸ isAtom)

theorem column (name : String) (plain : LexesAlone platform name (.ident name)) :
    (Printable.column name plain).ReadBack :=
  of_primary rfl rfl rfl fun _ _ same loose => primary_column same loose

theorem and_congr_supported {left right : Bool} :
    left = true ∧ right = true ↔ (left && right) = true :=
  (iff_of_eq (Bool.and_eq_true left right)).symm

theorem neg (read : expr.ReadBack) : (Printable.neg expr).ReadBack := by
  apply of_settles 7 rfl (by decide)
  intro depth parser after enough reading loose
  have minus : parser.current.1 = .minus := reading.current
  have operandSettles : Settles (parsePrimaryExpr (nestedTo depth) parser.next)
      ((!expr.isNeg && expr.supported) = true) expr.ast after := by
    by_cases negative : expr.isNeg = true
    · have unbracketed : bracket expr.level 7 expr.tokens = expr.tokens :=
        if_neg (by rw [expr.isNeg_iff_level.mp negative]; decide)
      have second := current_of_isNeg negative (unbracketed ▸ reading.next)
      refine ⟨fun holds => ?_, fun _ => primary_minus second⟩
      rw [negative] at holds
      cases holds
    · have notUnary : expr.level ≠ 7 := fun same => negative (expr.isNeg_iff_level.mpr same)
      have atom : bracket expr.level 7 expr.tokens = bracket expr.level 8 expr.tokens :=
        if_congr (by omega) rfl rfl
      change (bracket expr.level 7 expr.tokens).length + 1 ≤ depth at enough
      have rest := reading.next
      rw [atom] at enough rest
      have settles : Settles (levelParser (nestedTo depth) 8 parser.next)
          (expr.supported = true) expr.ast after :=
        read.operand (by decide) le_rfl (by omega) rest (by omega)
      exact settles.congr (by simp [negative])
  refine settles_vectorDist ?_ loose
  refine .of_ok (eat_of_eq minus) ?_
  exact operandSettles.map fun value => Ast.Expr.unaryOp .neg value

theorem not (read : expr.ReadBack) : (Printable.not expr).ReadBack := by
  apply of_settles 3 rfl (by decide)
  intro depth parser after enough reading loose
  change (bracket expr.level 3 expr.tokens).length + 1 ≤ depth at enough
  rcases Nat.exists_eq_succ_of_ne_zero (Nat.ne_zero_of_lt enough) with ⟨less, rfl⟩
  have isNot : parser.current.1 = .not := reading.current
  refine .of_ok (eat_of_eq isNot) ?_
  have settles : Settles ((nestedTo (less + 1)).notExpr parser.next) (expr.supported = true)
      expr.ast after :=
    read.operand (by decide) (by decide) (Nat.le_of_succ_le_succ enough) reading.next loose
  exact settles.map fun value => Ast.Expr.not value

/-- The left operand of a comparison and what follows it. -/
theorem comparison (read : expr.ReadBack) (good : Prop) {depth : Nat} {parser after : Parser}
    {token : Token} {tail : List Token} {value : Ast.Expr}
    (enough : (bracket expr.level 5 expr.tokens ++ token :: tail).length ≤ depth)
    (reading : Reading parser (bracket expr.level 5 expr.tokens ++ token :: tail) after)
    (loose : tightness token = 4)
    (settles : ∀ middle, Reading middle (token :: tail) after →
      Settles (comparisonTail (nestedTo depth) expr.ast middle) good value after) :
    Settles (levelParser (nestedTo depth) 4 parser) (expr.supported = true ∧ good) value
      after := by
  rw [List.length_append] at enough
  rcases reading.split with ⟨middle, first, second⟩
  have operandSettles : Settles (levelParser (nestedTo depth) 5 parser) (expr.supported = true)
      expr.ast middle :=
    read.operand (by decide) (by decide) (by omega) first (by rw [second.current, loose]; decide)
  exact operandSettles.bind fun _ => settles middle second

theorem isNull (read : expr.ReadBack) : (Printable.isNull expr).ReadBack := by
  apply of_settles 4 rfl (by decide)
  intro depth parser after enough reading loose
  refine (read.comparison True enough reading rfl fun middle tail => ?_).congr
    (iff_of_eq (and_true _))
  rw [tail_isNull tail.current tail.next.current, tail.next.next.eq_of_nil]
  exact .ok

theorem isNotNull (read : expr.ReadBack) : (Printable.isNotNull expr).ReadBack := by
  apply of_settles 4 rfl (by decide)
  intro depth parser after enough reading loose
  refine (read.comparison True enough reading rfl fun middle tail => ?_).congr
    (iff_of_eq (and_true _))
  rw [tail_isNotNull tail.current tail.next.current tail.next.next.current,
    tail.next.next.next.eq_of_nil]
  exact .ok

theorem between {low high : Printable platform} (read : expr.ReadBack) (readLow : low.ReadBack)
    (readHigh : high.ReadBack) : (Printable.between expr low high).ReadBack := by
  apply of_settles 4 rfl (by decide)
  intro depth parser after enough reading loose
  refine (read.comparison (low.supported = true ∧ high.supported = true) enough reading rfl
    fun middle tail => ?_).congr ?_
  · rcases tail.next.split with ⟨lowAfter, lowReading, rest⟩
    have sizes : (bracket low.level 5 low.tokens).length ≤ depth ∧
        (bracket high.level 5 high.tokens).length ≤ depth := by
      simp only [tokens, List.length_append, List.length_cons] at enough
      omega
    exact tail_between tail.current
      (readLow.operand (by decide) (by decide) sizes.1 lowReading (by rw [rest.current]; decide))
      rest.current
      (readHigh.operand (by decide) (by decide) sizes.2 rest.next (by omega))
  · rw [and_congr_supported, and_congr_supported]
    rfl

theorem binary_looping {op : InfixOp} {left right : Printable platform} (readLeft : left.ReadBack)
    (readRight : right.ReadBack) (chain : GroupsLeft op.level) (depth : Nat) (parser after : Parser)
    (enough : (Printable.binary op left right).tokens.length ≤ depth)
    (reading : Reading parser (Printable.binary op left right).tokens after)
    (loose : tightness after.current.1 ≤ op.level) :
    LeftLoop (levelParser (nestedTo depth) (op.level + 1)) (levelOp op.level)
      (levelParser (nestedTo depth) op.level parser)
      ((Printable.binary op left right).supported = true) (Printable.binary op left right).ast
      after := by
  rcases chain_operator chain with ⟨token, isToken, tight, isOperator⟩
  have sameLevel : op.leftLevel = op.level := if_neg fun four => by simp [four, GroupsLeft] at chain
  simp only [tokens, isToken, sameLevel, List.singleton_append] at enough reading
  rw [List.length_append, List.length_cons] at enough
  rcases reading.split with ⟨middle, leftReading, rest⟩
  have bounded : op.level + 1 ≤ 8 := by
    unfold GroupsLeft at chain
    omega
  have smaller : after.size < middle.size := by
    rw [rest.size, List.length_cons]
    omega
  have leftEnough : (bracket left.level op.level left.tokens).length ≤ depth := by omega
  have rightEnough : (bracket right.level (op.level + 1) right.tokens).length ≤ depth := by omega
  have leftLoop := readLeft.leftOperand chain leftEnough leftReading (by rw [rest.current, tight])
  have rightSettles := readRight.operand (Nat.succ_pos _) bounded rightEnough rest.next
    (Nat.lt_succ_of_le loose)
  have looping := leftLoop.next (rest.current ▸ isOperator) smaller rightSettles
  rw [and_congr_supported] at looping
  exact looping

theorem binary_single {op : InfixOp} {left right : Printable platform} (readLeft : left.ReadBack)
    (readRight : right.ReadBack) (single : ¬GroupsLeft op.level) (depth : Nat)
    (parser after : Parser) (enough : (Printable.binary op left right).tokens.length ≤ depth)
    (reading : Reading parser (Printable.binary op left right).tokens after)
    (loose : tightness after.current.1 < 4) :
    Settles (levelParser (nestedTo depth) 4 parser)
      ((Printable.binary op left right).supported = true) (Printable.binary op left right).ast
      after := by
  have isLevel := level_of_single single
  have leftLevel : op.leftLevel = 5 := if_pos isLevel
  simp only [tokens, leftLevel, isLevel] at enough reading
  rcases comparison_operator single with rfl | ⟨token, isToken, tight, isOperator⟩
  · simp only [InfixOp.tokens, List.cons_append, List.nil_append] at enough reading
    refine (readLeft.comparison _ enough reading rfl fun middle tail => ?_).congr
      and_congr_supported
    rw [List.length_append, List.length_cons, List.length_cons] at enough
    exact tail_notLike tail.current tail.next.current
      (readRight.operand (by decide) (by decide) (by omega) tail.next.next (by omega))
  · simp only [isToken, List.singleton_append] at enough reading
    refine (readLeft.comparison _ enough reading tight fun middle tail => ?_).congr
      and_congr_supported
    rw [List.length_append, List.length_cons] at enough
    exact tail_operator (tail.current ▸ isOperator)
      (readRight.operand (by decide) (by decide) (by omega) tail.next (by omega))

theorem binary {op : InfixOp} {left right : Printable platform} (readLeft : left.ReadBack)
    (readRight : right.ReadBack) : (Printable.binary op left right).ReadBack := by
  by_cases chain : GroupsLeft op.level
  · refine ⟨fun depth parser after enough reading loose => ?_, fun _ =>
      binary_looping readLeft readRight chain⟩
    have looping := binary_looping readLeft readRight chain depth parser after enough reading
      loose.le
    exact looping.settles fun _ => levelOp_of_lt loose
  · exact of_settles 4 (level_of_single chain) (by decide) (binary_single readLeft readRight chain)

def entry (expr : Printable platform) : ListItem Ast.Expr :=
  ⟨expr.tokens, expr.ast, expr.supported = true⟩

theorem tailTokens_entries (list : List (Printable platform)) :
    ListItem.tailTokens (list.map entry) = tailTokens list := by
  induction list with
  | nil => rfl
  | cons expr list induction =>
      rw [List.map_cons, ListItem.tailTokens_cons, induction]
      rfl

theorem asts_entries (list : List (Printable platform)) :
    (list.map entry).map ListItem.value = asts list := by
  induction list with
  | nil => rfl
  | cons expr list induction =>
      rw [List.map_cons, List.map_cons, induction]
      rfl

theorem allSupported_iff (list : List (Printable platform)) :
    (∀ item ∈ list.map entry, item.good) ↔ allSupported list = true := by
  induction list with
  | nil => simp [allSupported]
  | cons expr list induction =>
      rw [List.map_cons, List.forall_mem_cons, induction]
      exact and_congr_supported

theorem length_le_tailTokens {list : List (Printable platform)} {expr : Printable platform}
    (isIn : expr ∈ list) : expr.tokens.length ≤ (tailTokens list).length := by
  induction list with
  | nil => cases isIn
  | cons first list induction =>
      rw [tailTokens, List.length_cons, List.length_append]
      rcases List.mem_cons.mp isIn with rfl | isIn
      · omega
      · exact (induction isIn).trans (by omega)

theorem entry_readBy {depth : Nat} (read : expr.ReadBack) (enough : expr.tokens.length < depth) :
    (entry expr).ReadBy (nestedTo depth).expr .rParen := by
  intro parser after reading ends
  apply read.nested enough reading
  rcases ends with same | same <;> rw [same] <;> rfl

theorem list_closed {depth : Nat} {parser : Parser} (isClosed : parser.current.1 = .rParen)
    (positive : 0 < depth) :
    ∃ error, commaList (nestedTo depth).expr none parser = .err error := by
  rcases Nat.exists_eq_succ_of_ne_zero positive.ne' with ⟨less, rfl⟩
  have top : Settles (levelParser (nestedTo less) 8 parser) False .star parser :=
    ⟨False.elim, fun _ => primary_closed isClosed⟩
  have whole : Settles (levelParser (nestedTo less) 1 parser) False .star parser :=
    settles_below (by decide) (by decide) le_rfl top (by rw [isClosed]; decide)
      (by rw [isClosed]; decide)
  rcases whole.2 id with ⟨error, failed⟩
  exact ⟨error, bind_err failed _⟩

theorem listSettles {list : List (Printable platform)} {depth : Nat} {parser after : Parser}
    (read : ∀ expr ∈ list, expr.ReadBack) (enough : (listTokens list).length < depth)
    (reading : Reading parser (listTokens list) after) (ends : after.current.1 = .rParen) :
    Settles (commaList (nestedTo depth).expr none parser)
      ((!list.isEmpty && allSupported list) = true) (asts list) after := by
  cases list with
  | nil =>
      cases reading.eq_of_nil
      exact ⟨fun holds => absurd holds Bool.false_ne_true,
        fun _ => list_closed ends (Nat.zero_lt_of_lt enough)⟩
  | cons expr list =>
      rw [listTokens] at enough reading
      rw [List.length_append] at enough
      rw [← tailTokens_entries] at reading
      have firstEnough : expr.tokens.length < depth := by omega
      have readFirst := entry_readBy (read expr List.mem_cons_self) firstEnough
      have readItems : ∀ item ∈ list.map entry, item.ReadBy (nestedTo depth).expr .rParen := by
        intro item isItem
        rcases List.mem_map.mp isItem with ⟨other, isIn, rfl⟩
        have shorter := length_le_tailTokens isIn
        exact entry_readBy (read other (List.mem_cons_of_mem _ isIn)) (by omega)
      have spec := commaList_spec (by decide) readFirst readItems reading ends
      rw [asts_entries, allSupported_iff] at spec
      exact spec.congr and_congr_supported

theorem inList {list : List (Printable platform)} (read : expr.ReadBack)
    (readList : ∀ expr ∈ list, expr.ReadBack) : (Printable.inList expr list).ReadBack := by
  apply of_settles 4 rfl (by decide)
  intro depth parser after enough reading loose
  refine (read.comparison _ enough reading rfl fun middle tail => ?_).congr and_congr_supported
  simp only [tokens, List.length_append, List.length_cons, List.length_nil] at enough
  rcases tail.next.next.split with ⟨closing, inside, last⟩
  rw [← last.next.eq_of_nil]
  exact tail_in tail.current tail.next.current
    (listSettles readList (by omega) inside last.current) fun _ => last.current

end ReadBack

mutual

theorem readBack : (expr : Printable platform) → expr.ReadBack
  | int value _ => .atom (.intLiteral value) rfl rfl rfl rfl
  | string content _ => .atom (.stringLiteral content) rfl rfl rfl rfl
  | bool true => .atom .true rfl rfl rfl rfl
  | bool false => .atom .false rfl rfl rfl rfl
  | null => .atom .null rfl rfl rfl rfl
  | param name _ => .atom (.param name) rfl rfl rfl rfl
  | column name plain => .column name plain
  | binary _ left right => left.readBack.binary right.readBack
  | inList expr list => expr.readBack.inList (allReadBack list)
  | between expr low high => expr.readBack.between low.readBack high.readBack
  | isNull expr => expr.readBack.isNull
  | isNotNull expr => expr.readBack.isNotNull
  | not expr => expr.readBack.not
  | neg expr => expr.readBack.neg

theorem allReadBack : (list : List (Printable platform)) → ∀ expr ∈ list, expr.ReadBack
  | [] => fun _ isIn => nomatch isIn
  | first :: list => List.forall_mem_cons.mpr ⟨first.readBack, allReadBack list⟩

end

/-- The expression parser on the tokens of a printed expression and the end of
the input. -/
theorem withNesting_settles (expr : Printable platform) {parser after : Parser}
    (reading : Reading parser expr.tokens after) (ends : after.current.1 = .eof) :
    Settles (withNesting parseExpr parser) (expr.supported = true) expr.ast after := by
  have enough : expr.tokens.length < parser.size + 1 := by
    rw [reading.size]
    omega
  exact expr.readBack.nested enough reading (by rw [ends]; rfl)

end Printable

end FunDB.Sql
