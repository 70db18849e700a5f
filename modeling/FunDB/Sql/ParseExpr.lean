import FunDB.Sql.Parser

/-! # Parsing expressions

One function for each level of precedence. What a level calls inside brackets,
where at least one token has been read, comes from outside. -/

namespace FunDB.Sql

open Ast

/-- The parsing functions that are called inside brackets. -/
structure Nested where
  expr : Parse Ast.Expr
  notExpr : Parse Ast.Expr
  primaryExpr : Parse Ast.Expr
  selectInner : Parse (SelectStmt Ast.Expr)

namespace Parse

variable (nested : Nested)

/-! ## Primary expressions -/

/-- What follows `_vector`: a distance to the default field, a distance to a
named field, or a reference to a named field. -/
def vectorTail : Parse Ast.Expr := do
  if ← eat .vectorDist then
    return .vectorDist "_default" (← nested.primaryExpr)
  else
    expect .lParen
    let field ← expectStringOrIdent
    expect .rParen
    if ← eat .vectorDist then
      return .vectorDist field (← nested.primaryExpr)
    else return .functionCall "_vector" [.literal (.string field)]

/-- Arguments up to the closing parenthesis; every one after the first may be
named. -/
def callArgs (allowNamed : Bool) : Parse (List Ast.Expr) := do
  if (← peek) = .rParen then
    advance
    return []
  else
    let first ← nested.expr
    let args ← loop (fun args => do
      if ← eat .comma then
        let token ← peek
        if token = .rParen then return none
        else
          let following ← peek2
          match allowNamed, token, following with
          | true, .ident _, some .colon =>
              let _ ← expectIdent
              expect .colon
              return some (args ++ [← nested.expr])
          | _, _, _ => return some (args ++ [← nested.expr])
      else return none) [first]
    expect .rParen
    return args

/-- What follows a name: a call, a qualified name, or nothing. -/
def nameTail (name : String) : Parse Ast.Expr := do
  if ← eat .lParen then
    return .functionCall name (← callArgs nested true)
  else if ← eat .dot then
    match ← peek with
    | .star =>
        advance
        return .qualified name "*"
    | .vector =>
        advance
        vectorTail nested
    | _ =>
        let field ← expectIdent
        if ← eat .lParen then
          return .functionCall s!"{name}.{field}" (← callArgs nested false)
        else return .qualified name field
  else return .ident name

def parseArray : Parse Ast.Expr := do
  if ← eat .rBracket then return .array []
  else
    let elems ← commaList nested.expr (some .rBracket)
    expect .rBracket
    return .array elems

def parseCaseExpr : Parse Ast.Expr := do
  expect .case
  let operand ← if (← peek) = .when then pure none else some <$> nested.expr
  let clauses ← loop (fun clauses => do
    if ← eat .when then
      let cond ← nested.expr
      expect .then
      return some (clauses ++ [(cond, ← nested.expr)])
    else return none) []
  let elseClause ← if ← eat .else then some <$> nested.expr else pure none
  expect .end
  return .case operand clauses elseClause

def parsePrimaryExpr : Parse Ast.Expr := do
  let token ← peek
  match token with
  | .intLiteral value =>
      advance
      return .literal (.int value)
  | .floatLiteral value =>
      advance
      return .literal (.float value)
  | .stringLiteral value =>
      advance
      return .literal (.string value)
  | .true =>
      advance
      return .literal (.bool true)
  | .false =>
      advance
      return .literal (.bool false)
  | .null =>
      advance
      return .literal .null
  | .param name =>
      advance
      return .param name
  | .star =>
      advance
      return .star
  | .vector =>
      advance
      vectorTail nested
  | .lParen =>
      advance
      if (← peek) = .select then
        let sub ← nested.selectInner
        expect .rParen
        return .subquery sub
      else
        let expr ← nested.expr
        expect .rParen
        return expr
  | .lBracket =>
      advance
      parseArray nested
  | .exists =>
      advance
      expect .lParen
      let sub ← nested.selectInner
      expect .rParen
      return .subquery sub
  | .case => parseCaseExpr nested
  | .interval =>
      advance
      match ← peek with
      | .stringLiteral value =>
          advance
          return .functionCall "interval" [.literal (.string value)]
      | _ => return .ident "interval"
  | _ =>
      match keywordAsIdent token with
      | some name =>
          advance
          nameTail nested name
      | none => fail (.found "unexpected token in expression: " token)

/-! ## Levels of precedence -/

def parseUnaryExpr : Parse Ast.Expr := do
  if ← eat .minus then return .unaryOp .neg (← parsePrimaryExpr nested)
  else parsePrimaryExpr nested

def parseVectorDistExpr : Parse Ast.Expr := do
  let expr ← parseUnaryExpr nested
  if ← eat .vectorDist then
    return .binaryOp .arrow expr (← parseUnaryExpr nested)
  else return expr

/-- Operands with the operators of one level between them, grouped to the left. -/
def leftAssoc (operand : Parse Ast.Expr) (operator : Token → Option Ast.BinaryOp) :
    Parse Ast.Expr := do
  let first ← operand
  loop (fun left => do
    match operator (← peek) with
    | some op =>
        advance
        return some (.binaryOp op left (← operand))
    | none => return none) first

def multiplicativeOp : Token → Option Ast.BinaryOp
  | .star => some .mul
  | .slash => some .div
  | .percent => some .mod
  | _ => none

def parseMultiplicativeExpr : Parse Ast.Expr :=
  leftAssoc (parseVectorDistExpr nested) multiplicativeOp

def additiveOp : Token → Option Ast.BinaryOp
  | .plus => some .add
  | .minus => some .sub
  | _ => none

def parseAdditiveExpr : Parse Ast.Expr :=
  leftAssoc (parseMultiplicativeExpr nested) additiveOp

def parseInList : Parse (List Ast.Expr) := do
  expect .lParen
  let list ← commaList nested.expr none
  expect .rParen
  return list

/-- The operators that take one operand on each side. -/
def comparisonOp : Token → Option Ast.BinaryOp
  | .eq => some .eq
  | .assign => some .eq
  | .notEq => some .notEq
  | .lt => some .lt
  | .ltEq => some .ltEq
  | .gt => some .gt
  | .gtEq => some .gtEq
  | .like => some .like
  | _ => none

def comparisonTail (left : Ast.Expr) : Parse Ast.Expr := do
  let token ← peek
  match comparisonOp token with
  | some op =>
      advance
      return .binaryOp op left (← parseAdditiveExpr nested)
  | none =>
      match token with
      | .not =>
          advance
          if ← eat .like then return .binaryOp .notLike left (← parseAdditiveExpr nested)
          else if ← eat .in then return .inList left (← parseInList nested)
          else fail (.text "expected LIKE or IN after NOT")
      | .is =>
          advance
          if ← eat .not then
            expect .null
            return .isNotNull left
          else
            expect .null
            return .isNull left
      | .in =>
          advance
          return .inList left (← parseInList nested)
      | .between =>
          advance
          let low ← parseAdditiveExpr nested
          expect .and
          return .between left low (← parseAdditiveExpr nested)
      | _ => return left

def parseComparisonExpr : Parse Ast.Expr := do
  comparisonTail nested (← parseAdditiveExpr nested)

def parseNotExpr : Parse Ast.Expr := do
  if ← eat .not then return .not (← nested.notExpr)
  else parseComparisonExpr nested

def andOp : Token → Option Ast.BinaryOp
  | .and => some .and
  | _ => none

def parseAndExpr : Parse Ast.Expr := leftAssoc (parseNotExpr nested) andOp

def orOp : Token → Option Ast.BinaryOp
  | .or => some .or
  | _ => none

def parseOrExpr : Parse Ast.Expr := leftAssoc (parseAndExpr nested) orOp

def parseExpr : Parse Ast.Expr := parseOrExpr nested

def parseExprList : Parse (List Ast.Expr) := commaList (parseExpr nested) none

end Parse

end FunDB.Sql
