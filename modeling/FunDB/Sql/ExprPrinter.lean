import FunDB.Sql.Ast
import FunDB.Sql.Lexer

/-! # Printed expressions

Expressions of a fragment of FunQL, and the text that they are written as with
the brackets that precedence asks for. -/

namespace FunDB.Sql

open Ast

/-- The text is one token. -/
def LexesAlone (platform : TextPlatform) (text : String) (token : Token) : Prop :=
  ∃ span finish lexer,
    (Lexer.new text).tokenize platform = .ok ([(token, span), (.eof, finish)], lexer)

/-! ## Infix operators -/

inductive InfixOp where
  | or
  | and
  | eq
  | notEq
  | lt
  | ltEq
  | gt
  | gtEq
  | like
  | notLike
  | add
  | sub
  | mul
  | div
  | mod
deriving DecidableEq, Repr

namespace InfixOp

def ast : InfixOp → Ast.BinaryOp
  | or => .or
  | and => .and
  | eq => .eq
  | notEq => .notEq
  | lt => .lt
  | ltEq => .ltEq
  | gt => .gt
  | gtEq => .gtEq
  | like => .like
  | notLike => .notLike
  | add => .add
  | sub => .sub
  | mul => .mul
  | div => .div
  | mod => .mod

def tokens : InfixOp → List Token
  | or => [.or]
  | and => [.and]
  | eq => [.assign]
  | notEq => [.notEq]
  | lt => [.lt]
  | ltEq => [.ltEq]
  | gt => [.gt]
  | gtEq => [.gtEq]
  | like => [.like]
  | notLike => [.not, .like]
  | add => [.plus]
  | sub => [.minus]
  | mul => [.star]
  | div => [.slash]
  | mod => [.percent]

/-- How tightly an operator binds: 1 for OR, 2 for AND, 3 for NOT, 4 for
comparisons, 5 and 6 for arithmetic, 7 for unary minus. -/
def level : InfixOp → Nat
  | or => 1
  | and => 2
  | eq | notEq | lt | ltEq | gt | gtEq | like | notLike => 4
  | add | sub => 5
  | mul | div | mod => 6

/-- The level from which a left operand needs no brackets. Comparisons do not
associate, all others associate to the left. -/
def leftLevel (op : InfixOp) : Nat := if op.level = 4 then 5 else op.level

end InfixOp

/-! ## The fragment -/

/-- The expressions to print. A name comes with the fact that it is one token, a
string consists of ASCII characters, and an integer is an `i64`. -/
inductive Printable (platform : TextPlatform) where
  | int (value : Nat) (bounded : value ≤ i64Max)
  | string (content : String) (ascii : ∀ char ∈ content.toList, char.toNat < 128)
  | bool (value : Bool)
  | null
  | param (name : String) (plain : LexesAlone platform (":" ++ name) (.param name))
  | column (name : String) (plain : LexesAlone platform name (.ident name))
  | binary (op : InfixOp) (left right : Printable platform)
  | inList (expr : Printable platform) (list : List (Printable platform))
  | between (expr low high : Printable platform)
  | isNull (expr : Printable platform)
  | isNotNull (expr : Printable platform)
  | not (expr : Printable platform)
  | neg (expr : Printable platform)

/-- Brackets around an operand that binds less tightly than is asked for. -/
def bracket (level minimum : Nat) (tokens : List Token) : List Token :=
  if level < minimum then .lParen :: (tokens ++ [.rParen]) else tokens

namespace Printable

variable {platform : TextPlatform}

mutual

def ast : Printable platform → Ast.Expr
  | int value _ => .literal (.int value)
  | string content _ => .literal (.string content)
  | bool value => .literal (.bool value)
  | null => .literal .null
  | param name _ => .param name
  | column name _ => .ident name
  | binary op left right => .binaryOp op.ast left.ast right.ast
  | inList expr list => .inList expr.ast (asts list)
  | between expr low high => .between expr.ast low.ast high.ast
  | isNull expr => .isNull expr.ast
  | isNotNull expr => .isNotNull expr.ast
  | not expr => .not expr.ast
  | neg expr => .unaryOp .neg expr.ast

def asts : List (Printable platform) → List Ast.Expr
  | [] => []
  | expr :: list => expr.ast :: asts list

end

def level : Printable platform → Nat
  | binary op _ _ => op.level
  | inList .. | between .. | isNull .. | isNotNull .. => 4
  | not _ => 3
  | neg _ => 7
  | int .. | string .. | bool .. | null | param .. | column .. => 8

mutual

def tokens : Printable platform → List Token
  | int value _ => [.intLiteral value]
  | string content _ => [.stringLiteral content]
  | bool value => [if value then .true else .false]
  | null => [.null]
  | param name _ => [.param name]
  | column name _ => [.ident name]
  | binary op left right =>
      bracket left.level op.leftLevel left.tokens ++
        (op.tokens ++ bracket right.level (op.level + 1) right.tokens)
  | inList expr list =>
      bracket expr.level 5 expr.tokens ++ (.in :: .lParen :: (listTokens list ++ [.rParen]))
  | between expr low high =>
      bracket expr.level 5 expr.tokens ++ (.between :: (bracket low.level 5 low.tokens ++
        (.and :: bracket high.level 5 high.tokens)))
  | isNull expr => bracket expr.level 5 expr.tokens ++ [.is, .null]
  | isNotNull expr => bracket expr.level 5 expr.tokens ++ [.is, .not, .null]
  | not expr => .not :: bracket expr.level 3 expr.tokens
  | neg expr => .minus :: bracket expr.level 7 expr.tokens

/-- Expressions with commas between them. -/
def listTokens : List (Printable platform) → List Token
  | [] => []
  | expr :: list => expr.tokens ++ tailTokens list

def tailTokens : List (Printable platform) → List Token
  | [] => []
  | expr :: list => .comma :: (expr.tokens ++ tailTokens list)

end

end Printable

/-! ## Text -/

def digits (value : Nat) : List Char := Nat.toDigits 10 value

def quoted (content : List Char) : List Char :=
  '\'' :: (content.flatMap fun char => if char = '\'' then ['\'', '\''] else [char]) ++ ['\'']

/-- How a token of a printed expression is written. -/
def spell : Token → List Char
  | .intLiteral value => digits value.toNat
  | .stringLiteral content => quoted content.toList
  | .param name => ':' :: name.toList
  | .ident name => name.toList
  | .true => "TRUE".toList
  | .false => "FALSE".toList
  | .null => "NULL".toList
  | .or => "OR".toList
  | .and => "AND".toList
  | .not => "NOT".toList
  | .in => "IN".toList
  | .is => "IS".toList
  | .between => "BETWEEN".toList
  | .like => "LIKE".toList
  | .assign => ['=']
  | .notEq => ['<', '>']
  | .lt => ['<']
  | .ltEq => ['<', '=']
  | .gt => ['>']
  | .gtEq => ['>', '=']
  | .plus => ['+']
  | .minus => ['-']
  | .star => ['*']
  | .slash => ['/']
  | .percent => ['%']
  | .lParen => ['(']
  | .rParen => [')']
  | .comma => [',']
  | _ => []

/-- Tokens with a space between them. -/
def spellAll : List Token → List Char
  | [] => []
  | [token] => spell token
  | token :: tokens => spell token ++ ' ' :: spellAll tokens

def Printable.text {platform : TextPlatform} (expr : Printable platform) : String :=
  String.ofList (spellAll expr.tokens)

end FunDB.Sql
