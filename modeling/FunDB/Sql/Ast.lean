import Mathlib.Data.Rat.Defs

/-! # Syntax trees

What the parser builds. The parts of a SELECT are over a type of expressions,
since a subquery is an expression that contains one. -/

namespace FunDB.Sql.Ast

/-! ## Operators and literals -/

inductive Literal where
  | int (value : Int)
  | float (value : ℚ)
  | string (value : String)
  | bool (value : Bool)
  | null
deriving DecidableEq, Repr

inductive BinaryOp where
  | eq
  | notEq
  | lt
  | ltEq
  | gt
  | gtEq
  | and
  | or
  | add
  | sub
  | mul
  | div
  | mod
  | like
  | notLike
  | «in»
  | notIn
  | between
  | arrow
deriving DecidableEq, Repr

inductive UnaryOp where
  | neg
  | not
  | isNull
  | isNotNull
deriving DecidableEq, Repr

/-! ## Parts of a SELECT -/

inductive SelectItem (E : Type) where
  | wildcard
  | expr (expr : E) (aliasName : Option String)

structure TableRef where
  name : String
  aliasName : Option String
  isAgentMemory : Bool
deriving DecidableEq, Repr

inductive JoinType where
  | inner
  | left
  | right
  | cross
  | full
deriving DecidableEq, Repr

structure JoinClause (E : Type) where
  joinType : JoinType
  table : TableRef
  on : Option E

structure OrderByItem (E : Type) where
  expr : E
  asc : Bool

inductive AsOfClause (E : Type) where
  | systemTime (time : E)
  | validTimeBetween (low high : E)
  | validTimeAt (time : E)

structure ContextOptions (E : Type) where
  maxTokens : Option E
  coherence : Option E
  diversity : Option E
  includeContradictions : Option Bool
  priority : List (OrderByItem E)

structure TraverseClause (E : Type) where
  relation : String
  chain : List String
  depthMin : Option E
  depthMax : Option E
  targetAlias : Option String

structure TraceCausalityClause (E : Type) where
  start : Option E
  finish : Option E
  maxDepth : Option E
  minStrength : Option E
  minStability : Option E

inductive RecallWeight (E : Type) where
  | semanticSimilarity (query : E) (weight : Option E)
  | recency (decay halfLife : Option String) (weight : Option E)
  | importance (weight : Option E)

structure SelectStmt (E : Type) where
  distinct : Bool
  projections : List (SelectItem E)
  source : Option TableRef
  joins : List (JoinClause E)
  whereClause : Option E
  groupBy : List E
  having : Option E
  orderBy : List (OrderByItem E)
  limit : Option E
  offset : Option E
  withinContext : Option (ContextOptions E)
  asOf : Option (AsOfClause E)
  traverse : Option (TraverseClause E)
  traceCausality : Option (TraceCausalityClause E)
  returnItems : List (SelectItem E)
  recallBy : Option (List (RecallWeight E))

/-! ## Expressions -/

inductive Expr where
  | literal (value : Literal)
  | ident (name : String)
  | param (name : String)
  | binaryOp (op : BinaryOp) (left right : Expr)
  | unaryOp (op : UnaryOp) (expr : Expr)
  | functionCall (name : String) (args : List Expr)
  | vectorDist (field : String) (value : Expr)
  | inList (expr : Expr) (list : List Expr)
  | isNull (expr : Expr)
  | isNotNull (expr : Expr)
  | between (expr low high : Expr)
  | subquery (statement : SelectStmt Expr)
  | star
  | array (elems : List Expr)
  | qualified (table field : String)
  | case (operand : Option Expr) (whenClauses : List (Expr × Expr)) (elseClause : Option Expr)
  | cast (expr : Expr) (ty : String)
  | not (expr : Expr)

/-! ## Other statements -/

structure TraceCausalityStmt where
  collection : String
  start : Expr
  finish : Expr
  maxDepth : Option Expr
  minStrength : Option Expr
  minStability : Option Expr
  returnFields : List (SelectItem Expr)

inductive UnderstandOption where
  | confidence (expr : Expr)
  | within (period : String)
  | depth (expr : Expr)
  | inCollection (name : String)
  | usingVector (field : String)
  | minSimilarity (expr : Expr)

structure UnderstandStmt where
  intent : String
  options : List UnderstandOption

inductive CausalModelMode where
  | standard
  | equilibrium
deriving DecidableEq, Repr

structure CausalVariable where
  name : String
  ty : String
deriving DecidableEq, Repr

structure CausalEquation where
  variableName : String
  rhs : Expr
  learnFrom : Option String

structure CreateCausalModelStmt where
  name : String
  mode : CausalModelMode
  «variables» : List CausalVariable
  structureEdges : List (String × String)
  equations : List CausalEquation

structure EstimateEffectStmt where
  projections : List (SelectItem Expr)
  model : String
  setVars : List (String × Expr)
  predict : String
  given : Option (List (String × Expr))

inductive CounterfactualGiven where
  | subquery (statement : SelectStmt Expr)
  | pairs (pairs : List (String × Expr))

structure CounterfactualStmt where
  projections : List (SelectItem Expr)
  model : String
  given : Option CounterfactualGiven
  had : List (String × Expr)
  predict : String

structure DiscoverCausalStmt where
  collection : String
  algorithm : Option String
  minConfidence : Option Expr
  storeAs : Option String
  «variables» : List String

structure RememberStmt where
  content : String
  agentId : Expr
  importance : Option Expr
  memoryType : Option String

structure RecallByStmt where
  weights : List (RecallWeight Expr)
  agentId : Expr
  limit : Option Expr

structure ForgetStmt where
  agentId : Expr
  filter : Option Expr

structure InsertStmt where
  table : String
  columns : List String
  values : List (List Expr)

structure UpdateStmt where
  table : String
  aliasName : Option String
  assignments : List (String × Expr)
  whereClause : Option Expr

structure DeleteStmt where
  table : String
  whereClause : Option Expr

structure ColumnDef where
  name : String
  ty : String
  nullable : Bool
deriving DecidableEq, Repr

structure CreateCollectionStmt where
  name : String
  ifNotExists : Bool
  columns : List ColumnDef
deriving DecidableEq, Repr

structure CreateIndexStmt where
  name : String
  table : String
  columns : List String
  unique : Bool
deriving DecidableEq, Repr

inductive Statement where
  | select (stmt : SelectStmt Expr)
  | insert (stmt : InsertStmt)
  | update (stmt : UpdateStmt)
  | delete (stmt : DeleteStmt)
  | createCollection (stmt : CreateCollectionStmt)
  | createIndex (stmt : CreateIndexStmt)
  | createCausalModel (stmt : CreateCausalModelStmt)
  | understand (stmt : UnderstandStmt)
  | traceCausality (stmt : TraceCausalityStmt)
  | estimateEffect (stmt : EstimateEffectStmt)
  | counterfactual (stmt : CounterfactualStmt)
  | discoverCausal (stmt : DiscoverCausalStmt)
  | remember (stmt : RememberStmt)
  | recallBy (stmt : RecallByStmt)
  | forget (stmt : ForgetStmt)

end FunDB.Sql.Ast
