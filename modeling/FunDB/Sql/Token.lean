import Mathlib.Data.Rat.Defs

/-! # Tokens

The tokens of FunQL, and its keywords in lower case. -/

namespace FunDB.Sql

inductive Token where
  | select
  | «from»
  | «where»
  | insert
  | into
  | values
  | update
  | «set»
  | delete
  | create
  | drop
  | table
  | index
  | on
  | as
  | «by»
  | order
  | group
  | having
  | limit
  | offset
  | join
  | inner
  | left
  | right
  | outer
  | cross
  | union
  | all
  | distinct
  | and
  | or
  | not
  | «in»
  | is
  | null
  | true
  | false
  | asc
  | desc
  | between
  | like
  | exists
  | case
  | when
  | «then»
  | «else»
  | «end»
  | «with»
  | interval
  | now
  | explain
  | value
  | vector
  | traverse
  | return
  | depth
  | start
  | path
  | asOf
  | systemTime
  | validTime
  | timeTravel
  | confidence
  | sourceCount
  | contradictionCount
  | trace
  | causality
  | maxDepth
  | minStrength
  | minStability
  | estimateEffect
  | intervene
  | counterfactual
  | predict
  | had
  | given
  | discover
  | causalStructure
  | algorithm
  | createCausalModel
  | modeEquilibrium
  | «structure»
  | equations
  | «variables»
  | infer
  | within
  | context
  | maxTokens
  | coherence
  | diversity
  | includeContradictions
  | priority
  | understand
  | remember
  | recallBy
  | recall
  | forget
  | for
  | agent
  | memory
  | importance
  | semanticSimilarity
  | recency
  | decay
  | collection
  | consolidate
  | minConfidence
  | storeAs
  | store
  | arrow
  | vectorDist
  | dotDot
  | eq
  | notEq
  | lt
  | ltEq
  | gt
  | gtEq
  | plus
  | minus
  | star
  | slash
  | percent
  | assign
  | lParen
  | rParen
  | lBrace
  | rBrace
  | lBracket
  | rBracket
  | comma
  | semicolon
  | colon
  | dot
  | intLiteral (value : Int)
  | floatLiteral (value : ℚ)
  | stringLiteral (value : String)
  | param (name : String)
  | ident (name : String)
  | eof
  | newline
deriving DecidableEq, Repr

namespace Token

def keywords : List (String × Token) :=
  [("select", .select), ("from", .from), ("where", .where), ("insert", .insert),
   ("into", .into), ("values", .values), ("update", .update), ("set", .set),
   ("delete", .delete), ("create", .create), ("drop", .drop), ("table", .table),
   ("index", .index), ("on", .on), ("as", .as), ("by", .by), ("order", .order),
   ("group", .group), ("having", .having), ("limit", .limit), ("offset", .offset),
   ("join", .join), ("inner", .inner), ("left", .left), ("right", .right), ("outer", .outer),
   ("cross", .cross), ("union", .union), ("all", .all), ("distinct", .distinct), ("and", .and),
   ("or", .or), ("not", .not), ("in", .in), ("is", .is), ("null", .null), ("true", .true),
   ("false", .false), ("asc", .asc), ("desc", .desc), ("between", .between), ("like", .like),
   ("exists", .exists), ("case", .case), ("when", .when), ("then", .then), ("else", .else),
   ("end", .end), ("with", .with), ("interval", .interval), ("now", .now),
   ("explain", .explain), ("_vector", .vector), ("traverse", .traverse), ("return", .return),
   ("depth", .depth), ("start", .start), ("path", .path), ("as_of", .asOf),
   ("systemtime", .systemTime), ("validtime", .validTime), ("confidence", .confidence),
   ("source_count", .sourceCount), ("contradiction_count", .contradictionCount),
   ("trace", .trace), ("causality", .causality), ("max_depth", .maxDepth),
   ("min_strength", .minStrength), ("min_stability", .minStability),
   ("estimate_effect", .estimateEffect), ("intervene", .intervene),
   ("counterfactual", .counterfactual), ("predict", .predict), ("had", .had),
   ("given", .given), ("discover", .discover), ("causal_structure", .causalStructure),
   ("algorithm", .algorithm), ("equilibrium", .modeEquilibrium), ("structure", .structure),
   ("equations", .equations), ("variables", .variables), ("infer", .infer),
   ("within", .within), ("context", .context), ("max_tokens", .maxTokens),
   ("coherence", .coherence), ("diversity", .diversity),
   ("include_contradictions", .includeContradictions), ("priority", .priority),
   ("understand", .understand), ("remember", .remember), ("recall", .recall),
   ("forget", .forget), ("for", .for), ("agent", .agent), ("memory", .memory),
   ("importance", .importance), ("semantic_similarity", .semanticSimilarity),
   ("recency", .recency), ("decay", .decay), ("collection", .collection),
   ("consolidate", .consolidate), ("min_confidence", .minConfidence), ("store", .store)]

def keyword (word : String) : Option Token :=
  keywords.lookup word

end Token

end FunDB.Sql
