import FunDB.Executor.Pipeline
import FunDB.Protocol.PgWire
import FunDB.Sql.ParseStatement
import Mathlib.Data.Finset.Sort
import Mathlib.Data.String.Basic

/-! # The query handler

Five shortcuts look at the text, upper-cased as a whole, before it is parsed. -/

namespace FunDB.Server

open Text ByteSlices Storage Sql Executor Protocol

/-! ## Values of data columns -/

inductive DataValue where
  | bool (value : Bool)
  | int (value : Int)
  | float (value : ℚ)
  | str (value : String)
  | array (values : List DataValue)
  | null

/-- What the handler takes from outside: the platforms of the layers below, the
payloads of its own value type, and the texts of numbers, ids, tokens and trees. -/
structure HandlerPlatform where
  text : TextPlatform
  bind : BindPlatform
  env : Environment
  fromSlice : List UInt8 → Option (Dict String DataValue)
  showF64 : ℚ → String
  showConfidence : ℚ → String
  ids : UuidDisplay
  debugToken : Token → String
  debugExpr : Ast.Expr → String

variable (platform : HandlerPlatform)

mutual

def showValue : DataValue → String
  | .bool value => if value then "true" else "false"
  | .int value => toString value
  | .float value => platform.showF64 value
  | .str value => value
  | .array values => "[" ++ String.intercalate "," (showValues values) ++ "]"
  | .null => ""

def showValues : List DataValue → List String
  | [] => []
  | value :: values => showValue value :: showValues values

end

/-- The names of the user columns of a payload, sorted. -/
def userColumns (payload : List UInt8) : List String :=
  if payload = [] then []
  else
    match platform.fromSlice payload with
    | some map => map.keys.mergeSort (· ≤ ·)
    | none => []

/-! ## Results -/

/-- How a query ends. A slice off a character boundary panics. -/
inductive Handled where
  | ok (result : QueryResult)
  | err (error : QueryError)
  | panicked
  | running
deriving DecidableEq

def textColumn (name : String) : FieldDescription where
  name := name
  typeOid := 25

def recordRow (columns : List String) (record : FunRecord) : List (Option String) :=
  let dataMap := if record.data = [] then ∅ else (platform.fromSlice record.data).getD ∅
  some (platform.ids.toText record.id) :: columns.map (fun column =>
    match dataMap.lookup column with
    | some .null => none
    | none => none
    | some value => some (showValue platform value)) ++
    [some (platform.showConfidence record.confidence)]

/-- The columns are those of the first record. -/
def batchToQueryResult (batch : RecordBatch) : QueryResult :=
  match batch.records with
  | [] => { columns := [], rows := [], commandTag := "SELECT 0" }
  | first :: _ =>
      let columns := userColumns platform first.data
      { columns := ("_id" :: columns ++ ["_confidence"]).map textColumn
        rows := batch.records.map (recordRow platform columns)
        commandTag := s!"SELECT {batch.records.length}" }

def countStep (counted : Nat × Int32) (char : Char) : Nat × Int32 :=
  if char = '(' then (if counted.2 = 0 then counted.1 + 1 else counted.1, counted.2 + 1)
  else if char = ')' then (counted.1, counted.2 - 1)
  else counted

/-- The number of bracketed groups behind VALUES. The position is that of the
upper-cased text. -/
def countValuesInQuery (query : String) : Option Nat :=
  match find (platform.bind.cases.toUppercase query) "VALUES" with
  | some pos =>
      (dropBytes query.toList (pos + 6)).map fun afterValues =>
        max (afterValues.foldl countStep (0, 0)).1 1
  | none => some 1

/-! ## Shortcuts -/

/-- A text that is answered without being parsed. -/
inductive Shortcut where
  | empty
  | literal (value : Int)
  | version
  | schema (collection : String)
  | collections
deriving DecidableEq

/-- `trim_end_matches` -/
def trimSemicolons (text : String) : String :=
  String.ofList (text.toList.rdropWhile (· == ';'))

/-- The integer of `SELECT 1`; the outer level is missing where the slice panics. -/
def selectLiteral (query upper : String) : Option (Option Int) :=
  if startsWith upper "SELECT " && !contains upper "FROM" then
    (dropBytes query.toList 7).map fun rest =>
      parseI64 (trim (trimSemicolons (trim (String.ofList rest))))
  else some none

/-- The text between the first quotes behind the first `collection`. The position
is that of the lower-cased text. -/
def extractSchemaCollection (query : String) : Option (Option String) :=
  match find (platform.bind.cases.toLowercase query) "collection" with
  | none => some none
  | some pos =>
      (dropBytes query.toList pos).map fun rest =>
        let quote := if '\'' ∈ rest then '\'' else '"'
        let afterQuote := (rest.dropWhile (· != quote)).tail
        if quote ∈ rest ∧ quote ∈ afterQuote then
          some (String.ofList (afterQuote.takeWhile (· != quote)))
        else none

/-- The shortcut that takes a trimmed text; the outer level is missing where a
slice panics. -/
def shortcut (query : String) : Option (Option Shortcut) :=
  if query.isEmpty then some (some .empty)
  else do
    let upper := platform.bind.cases.toUppercase query
    match ← selectLiteral query upper with
    | some value => return some (.literal value)
    | none =>
        if contains upper "VERSION()" || contains upper "VERSION ()" then return some .version
        else
          let collection ← if contains upper "FROM _SCHEMA" then
            extractSchemaCollection platform query else some none
          match collection with
          | some name => return some (.schema name)
          | none =>
              if contains upper "FROM _COLLECTIONS" then return some .collections
              else return none

/-! ## Execution -/

/-- What the handler works on. -/
structure Engine where
  catalog : Catalog
  store : Store

def schemaPlan (collection : String) : LogicalPlan :=
  .limit (.scan collection none [.star]) 1

/-- The answer of a shortcut, which changes nothing. -/
def answerShortcut (engine : Engine) : Shortcut → QueryResult
  | .empty => { columns := [], rows := [], commandTag := "" }
  | .literal value =>
      { columns := [⟨"?column?", 23⟩]
        rows := [[some (toString value)]]
        commandTag := "SELECT 1" }
  | .version =>
      { columns := [textColumn "version"]
        rows := [[some "FunDB 0.1.0"]]
        commandTag := "SELECT 1" }
  | .schema collection =>
      let batch := (platform.env.execute (schemaPlan collection) engine.store).1
      let columns := match batch.records with
        | [] => []
        | first :: _ => userColumns platform first.data
      let names := "_id" :: columns ++ ["_confidence"]
      { columns := [textColumn "column_name"]
        rows := names.map fun name => [some name]
        commandTag := s!"SELECT {names.length}" }
  | .collections =>
      let names := engine.catalog.listCollections
      { columns := [textColumn "name"]
        rows := names.map fun name => [some name]
        commandTag := s!"SELECT {names.length}" }

def parseMessage : ParseMessage → String
  | .text message => message
  | .expected wanted found =>
      s!"expected {platform.debugToken wanted}, found {platform.debugToken found}"
  | .found message token => message ++ platform.debugToken token

def syntaxError (message : String) : QueryError where
  code := "42601"
  message := s!"syntax error: {message}"

def bindErrorMessage : BindError → String
  | .unknownCollection name =>
      s!"unknown collection '{name}': no such collection exists. Check the collection name and ensure it has been created"
  | .typeMismatch key got =>
      s!"type mismatch: expected numeric literal for key '{key}', got {platform.debugExpr got}. Check that column types match the operation being performed"

/-- A statement is bound, and a collection that it creates or inserts into is
registered, before it is executed. -/
def executeStatement (engine : Engine) (query : String) (stmt : Ast.Statement) :
    Handled × Engine :=
  let created := match stmt with
    | .createCollection create => engine.catalog.addCollection create.name
    | _ => engine.catalog
  match Sql.bind platform.bind stmt created with
  | .error error =>
      (.err { code := "42P01", message := bindErrorMessage platform error },
        { engine with catalog := created })
  | .ok plan =>
      let registered := match stmt with
        | .insert insert => created.addCollection insert.table
        | _ => created
      let (batch, store) := platform.env.execute plan engine.store
      let after : Engine := { catalog := registered, store := store }
      match stmt with
      | .insert _ =>
          match countValuesInQuery platform query with
          | some count =>
              (.ok { columns := [], rows := [], commandTag := s!"INSERT 0 {count}" }, after)
          | none => (.panicked, after)
      | _ => (.ok (batchToQueryResult platform batch), after)

def execute (engine : Engine) (query : String) : Handled × Engine :=
  let query := trim query
  match shortcut platform query with
  | none => (.panicked, engine)
  | some (some path) => (.ok (answerShortcut platform engine path), engine)
  | some none =>
      match parse platform.text query with
      | .lexError error => (.err (syntaxError error.message), engine)
      | .parseError error => (.err (syntaxError (parseMessage platform error.message)), engine)
      | .panic => (.panicked, engine)
      | .running => (.running, engine)
      | .ok stmt => executeStatement platform engine query stmt

end FunDB.Server
