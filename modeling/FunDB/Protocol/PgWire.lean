import FunDB.Foundation.Buckets
import FunDB.Foundation.Framing
import FunDB.Foundation.Text
import FunDB.Foundation.Utf8

/-! # The server's side of the wire

Messages are a type byte, a length that counts itself, and a body. The startup
packet has no type byte. -/

namespace FunDB.Protocol

open Framing Utf8

structure FieldDescription where
  name : String
  typeOid : Int32
deriving DecidableEq

structure QueryResult where
  columns : List FieldDescription
  rows : List (List (Option String))
  commandTag : String
deriving DecidableEq

structure QueryError where
  code : String
  message : String
deriving DecidableEq

/-- What a handler answers to a query. -/
abbrev Answer := Except QueryError QueryResult

structure ConnContext where
  user : String
  database : String
  tenantId : UInt32
  agentId : Option String
deriving DecidableEq

abbrev QueryHandler (State : Type) := State → String → ConnContext → Answer × State

inductive FrontendMessage where
  | startupMessage (protocolVersion : Int32) (params : Dict String String)
  | query (text : String)
  | terminate
deriving DecidableEq

inductive BackendMessage where
  | authenticationOk
  | backendKeyData (pid secretKey : Int32)
  | readyForQuery (status : UInt8)
  | rowDescription (fields : List FieldDescription)
  | dataRow (values : List (Option String))
  | commandComplete (tag : String)
  | errorResponse (severity code message : String)
  | emptyQueryResponse
deriving DecidableEq

/-! ## What the server writes -/

def FieldDescription.encode (field : FieldDescription) : List UInt8 :=
  asBytes field.name ++ 0 :: (putI32 0 ++ putI16 0 ++ putI32 field.typeOid ++ putI16 (-1) ++
    putI32 (-1) ++ putI16 0)

def encodeValue : Option String → List UInt8
  | none => putI32 (-1)
  | some text => putI32 (Int32.ofNat (asBytes text).length) ++ asBytes text

def BackendMessage.body : BackendMessage → List UInt8
  | authenticationOk => putI32 0
  | backendKeyData pid secretKey => putI32 pid ++ putI32 secretKey
  | readyForQuery status => [status]
  | rowDescription fields =>
      putI16 (Int16.ofNat fields.length) ++ fields.flatMap FieldDescription.encode
  | dataRow values => putI16 (Int16.ofNat values.length) ++ values.flatMap encodeValue
  | commandComplete tag => asBytes tag ++ [0]
  | errorResponse severity code message =>
      'S'.toUInt8 :: asBytes severity ++ 0 :: 'C'.toUInt8 :: asBytes code ++
        0 :: 'M'.toUInt8 :: asBytes message ++ [0, 0]
  | emptyQueryResponse => []

def BackendMessage.typeByte : BackendMessage → Char
  | authenticationOk => 'R'
  | backendKeyData _ _ => 'K'
  | readyForQuery _ => 'Z'
  | rowDescription _ => 'T'
  | dataRow _ => 'D'
  | commandComplete _ => 'C'
  | errorResponse _ _ _ => 'E'
  | emptyQueryResponse => 'I'

def BackendMessage.encode (message : BackendMessage) : List UInt8 :=
  message.typeByte.toUInt8 :: (putI32 (4 + Int32.ofNat message.body.length) ++ message.body)

/-- The messages for one query. A result without columns sends no rows. -/
def reply : Answer → List BackendMessage
  | .ok result =>
      (if result.columns.isEmpty then []
        else .rowDescription result.columns :: result.rows.map .dataRow) ++
        [.commandComplete result.commandTag, .readyForQuery 'I'.toUInt8]
  | .error error =>
      [.errorResponse "ERROR" error.code error.message, .readyForQuery 'I'.toUInt8]

def encodeReply (answer : Answer) : List UInt8 :=
  (reply answer).flatMap BackendMessage.encode

/-! ## What the server reads -/

inductive ServerError where
  | earlyEof
  | refused (text : String)
deriving DecidableEq

/-- A connection: the bytes that still come in, and the bytes that went out. -/
structure PgConnection where
  incoming : List UInt8
  outgoing : List UInt8
deriving DecidableEq

def readCstring (src : List UInt8) : Option (String × List UInt8) :=
  match src.findIdx? (· == 0) with
  | none => none
  | some nul => some (fromUtf8Lossy (src.take nul), src.drop (nul + 1))

def insertStartupParams : Nat → List UInt8 → Dict String String → Dict String String
  | 0, _, params => params
  | fuel + 1, src, params =>
      match readCstring src with
      | none => params
      | some (key, src) =>
          if key.isEmpty then params
          else
            match readCstring src with
            | some (value, src) => insertStartupParams fuel src (params.insert key value)
            | none => params

/-- A name takes at least its zero byte. -/
def parseStartupParams (body : List UInt8) : Dict String String :=
  insertStartupParams body.length body ∅

namespace PgConnection

def send (connection : PgConnection) (message : BackendMessage) : PgConnection :=
  { connection with outgoing := connection.outgoing ++ message.encode }

def readExactBytes (connection : PgConnection) (count : Nat) :
    Except ServerError (List UInt8 × PgConnection) :=
  match takeExact count connection.incoming with
  | none => .error .earlyEof
  | some (bytes, rest) => .ok (bytes, { connection with incoming := rest })

def sslRequestCode : Int32 := 80877103

/-- The startup phase. An SSL request is declined and the next packet read. -/
def startupPackets : Nat → PgConnection →
    Except ServerError (Dict String String × PgConnection)
  | 0, _ => .error .earlyEof
  | fuel + 1, connection => do
      let (lenBytes, connection) ← connection.readExactBytes 4
      let totalLen := i32FromBeBytes lenBytes
      if totalLen < 4 then
        throw (.refused s!"invalid startup message: declared length {totalLen} is less than the 4-byte minimum. Ensure the client uses PostgreSQL protocol v3.0")
      let (payload, connection) ← connection.readExactBytes (totalLen - 4).toNatClampNeg
      if payload.length < 4 then
        throw (.refused s!"startup payload too short: expected at least 4 bytes for protocol version, got {payload.length}")
      let code := i32FromBeBytes (payload.take 4)
      if code = sslRequestCode then
        startupPackets fuel
          { connection with outgoing := connection.outgoing ++ ['N'.toUInt8] }
      else
        return (parseStartupParams (payload.drop 4), connection)

/-- A packet takes at least the four bytes of its length. -/
def startup (connection : PgConnection) :
    Except ServerError (Dict String String × PgConnection) :=
  startupPackets (connection.incoming.length + 1) connection

def readFrontendMessage (connection : PgConnection) :
    Except ServerError (FrontendMessage × PgConnection) := do
  let (typeByte, connection) ← connection.readExactBytes 1
  let (lenBytes, connection) ← connection.readExactBytes 4
  let totalLen := i32FromBeBytes lenBytes
  if totalLen < 4 then
    throw (.refused s!"invalid message length {totalLen}: must be at least 4 bytes")
  let (body, connection) ← connection.readExactBytes (totalLen - 4).toNatClampNeg
  let type := typeByte.headD 0
  match Char.ofNat type.toNat with
  | 'Q' =>
      let text := if body.getLast? = some 0 then body.dropLast else body
      return (.query (fromUtf8Lossy text), connection)
  | 'X' => return (.terminate, connection)
  | other =>
      throw (.refused s!"unsupported frontend message type: 0x{Text.hexByte type} ('{other}' as char). Supported: Q (Query), X (Terminate)")

def sendAll (connection : PgConnection) (messages : List BackendMessage) : PgConnection :=
  messages.foldl send connection

end PgConnection

/-! ## A session -/

variable {State : Type}

/-- The messages for the text of a query. A blank text does not reach the handler. -/
def respond (handler : QueryHandler State) (context : ConnContext) (state : State)
    (query : String) : List BackendMessage × State :=
  let trimmed := Text.trim query
  if trimmed.isEmpty then ([.emptyQueryResponse, .readyForQuery 'I'.toUInt8], state)
  else
    let (answer, state) := handler state trimmed context
    (reply answer, state)

/-- The query loop. What cannot be read ends the session. -/
def queryLoop (handler : QueryHandler State) (context : ConnContext) :
    Nat → State → PgConnection → PgConnection × State
  | 0, state, connection => (connection, state)
  | fuel + 1, state, connection =>
      match connection.readFrontendMessage with
      | .error _ => (connection, state)
      | .ok (.terminate, connection) => (connection, state)
      | .ok (.startupMessage _ _, connection) =>
          queryLoop handler context fuel state connection
      | .ok (.query query, connection) =>
          let (messages, state) := respond handler context state query
          queryLoop handler context fuel state (connection.sendAll messages)

def handshake : List BackendMessage :=
  [.authenticationOk, .backendKeyData 1 0, .readyForQuery 'I'.toUInt8]

/-- A message takes at least its type byte. -/
def run (handler : QueryHandler State) (state : State) (connection : PgConnection) :
    Except ServerError (PgConnection × State) := do
  let (params, connection) ← connection.startup
  let context : ConnContext :=
    { user := (params.lookup "user").getD ""
      database := (params.lookup "database").getD ""
      tenantId := 0
      agentId := none }
  let connection := connection.sendAll handshake
  return queryLoop handler context (connection.incoming.length + 1) state connection

end FunDB.Protocol
