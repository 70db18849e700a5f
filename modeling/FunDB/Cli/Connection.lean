import FunDB.Foundation.Framing
import FunDB.Foundation.Utf8

/-! # The command line's side of the wire -/

namespace FunDB.Cli

open Framing Utf8

structure QueryResponse where
  columns : List String := []
  rows : List (List String) := []
  commandTag : String := ""
  notice : Option String := none
  error : Option String := none
deriving DecidableEq

/-- An error, or a slice or an allocation that panics. -/
inductive ConnError where
  | failed (text : String)
  | panicked
deriving DecidableEq

/-- A connection: the bytes that still come in, and the bytes that went out. -/
structure FunDbConn where
  incoming : List UInt8
  outgoing : List UInt8
deriving DecidableEq

/-! ## What the command line writes -/

def startupParams (user database : String) : List UInt8 :=
  asBytes "user" ++ 0 :: asBytes user ++ 0 :: asBytes "database" ++ 0 :: asBytes database ++ [0, 0]

def buildStartup (user database : String) : List UInt8 :=
  let protocol : Int32 := 196608
  let totalLen := 4 + 4 + (startupParams user database).length
  putI32 (Int32.ofNat totalLen) ++ (putI32 protocol ++ startupParams user database)

def buildSimpleQuery (sql : String) : List UInt8 :=
  let len := 4 + (asBytes sql).length + 1
  'Q'.toUInt8 :: (putI32 (Int32.ofNat len) ++ (asBytes sql ++ [0]))

/-! ## Payloads -/

def readCstring (buf : List UInt8) (pos : Nat) : Except ConnError (String × Nat) :=
  if buf.length < pos then .error .panicked
  else
    let bytes := (buf.drop pos).takeWhile (· != 0)
    match fromUtf8 bytes with
    | none => .error (.failed "Non-UTF8 string in message")
    | some text => .ok (text, pos + bytes.length + 1)

def readColumns : Nat → List UInt8 → Nat → Except ConnError (List String)
  | 0, _, _ => .ok []
  | count + 1, payload, pos => do
      let (name, pos) ← readCstring payload pos
      let names ← readColumns count payload (pos + (4 + 2 + 4 + 2 + 4 + 2))
      return name :: names

def parseRowDescription (payload : List UInt8) : Except ConnError (List String) :=
  if payload.length < 2 then .ok []
  else readColumns (u16FromBeBytes (payload.take 2)) payload 2

/-- The value of a column and the position behind it. -/
def readValue (payload : List UInt8) (pos : Nat) : Except ConnError (String × Nat) :=
  if payload.length < pos + 4 then .error (.failed "DataRow payload truncated")
  else
    let colLen := i32FromBeBytes ((payload.drop pos).take 4)
    let pos := pos + 4
    if colLen = -1 then .ok ("NULL", pos)
    else
      -- the sum wraps, and a slice that ends before it begins panics
      let stop := (pos + asUsize colLen.toInt) % 2 ^ 64
      if payload.length < stop then .error (.failed "DataRow column data truncated")
      else if stop < pos then .error .panicked
      else
        .ok ((fromUtf8 ((payload.drop pos).take (stop - pos))).getD "<binary>", stop)

def readValues : Nat → List UInt8 → Nat → Except ConnError (List String)
  | 0, _, _ => .ok []
  | count + 1, payload, pos => do
      let (value, pos) ← readValue payload pos
      let values ← readValues count payload pos
      return value :: values

def parseDataRow (payload : List UInt8) : Except ConnError (List String) :=
  if payload.length < 2 then .ok []
  else readValues (u16FromBeBytes (payload.take 2)) payload 2

def fieldParts (wanted : List UInt8) : Nat → List UInt8 → List String
  | 0, _ => []
  | _ + 1, [] => []
  | fuel + 1, code :: rest =>
      if code = 0 then []
      else
        let bytes := rest.takeWhile (· != 0)
        let parts := fieldParts wanted fuel (rest.drop (bytes.length + 1))
        if wanted.contains code then (fromUtf8 bytes).getD "" :: parts else parts

def parseFieldMessages (payload wanted : List UInt8) : Option String :=
  let parts := fieldParts wanted payload.length payload
  if parts.isEmpty then none else some (String.intercalate " — " parts)

def parseErrorResponse (payload : List UInt8) : String :=
  (parseFieldMessages payload ['M'.toUInt8, 'D'.toUInt8, 'H'.toUInt8]).getD
    "Unknown server error"

def parseNoticeResponse (payload : List UInt8) : String :=
  (parseFieldMessages payload ['M'.toUInt8]).getD "Notice"

def parseCstring (buf : List UInt8) : Option String :=
  match buf.findIdx? (· == 0) with
  | none => none
  | some stop => fromUtf8 (buf.take stop)

/-! ## Queries -/

def QueryResponse.receive (response : QueryResponse) (msgType : Char) (payload : List UInt8) :
    Except ConnError QueryResponse :=
  match msgType with
  | 'T' => do
      let columns ← parseRowDescription payload
      return { response with columns }
  | 'D' => do
      let row ← parseDataRow payload
      return { response with rows := response.rows ++ [row] }
  | 'C' => .ok { response with commandTag := (parseCstring payload).getD "" }
  | 'E' => .ok { response with error := some (parseErrorResponse payload) }
  | 'N' => .ok { response with notice := some (parseNoticeResponse payload) }
  | _ => .ok response

namespace FunDbConn

def readExact (conn : FunDbConn) (count : Nat) (context : String) :
    Except ConnError (List UInt8 × FunDbConn) :=
  match takeExact count conn.incoming with
  | none => .error (.failed context)
  | some (bytes, rest) => .ok (bytes, { conn with incoming := rest })

def readMessage (conn : FunDbConn) : Except ConnError (Char × List UInt8 × FunDbConn) := do
  let (typeBuf, conn) ← conn.readExact 1 "Connection closed while reading message type"
  let msgType := Char.ofNat (typeBuf.headD 0).toNat
  let (lenBuf, conn) ← conn.readExact 4 "Connection closed while reading message length"
  let totalLen := asUsize (i32FromBeBytes lenBuf).toInt
  if totalLen < 4 then
    throw (.failed s!"Invalid message length {totalLen} for type '{msgType}'")
  let payloadLen := totalLen - 4
  -- a length that was negative asks for more than can be allocated
  if 2 ^ 63 ≤ payloadLen then throw .panicked
  let (payload, conn) ← conn.readExact payloadLen "Connection closed while reading message payload"
  return (msgType, payload, conn)

/-- Messages up to the one that says the server is ready. -/
def collect : Nat → QueryResponse → FunDbConn → Except ConnError (QueryResponse × FunDbConn)
  | 0, _, _ => .error (.failed "Connection closed while reading message type")
  | fuel + 1, response, conn => do
      let (msgType, payload, conn) ← conn.readMessage
      if msgType = 'Z' then return (response, conn)
      let response ← response.receive msgType payload
      collect fuel response conn

/-- A message takes at least its type byte. -/
def simpleQuery (conn : FunDbConn) (sql : String) :
    Except ConnError (QueryResponse × FunDbConn) :=
  collect (conn.incoming.length + 1) {}
    { conn with outgoing := conn.outgoing ++ buildSimpleQuery sql }

/-- Queries one after the other. -/
def simpleQueries : FunDbConn → List String → Except ConnError (List QueryResponse × FunDbConn)
  | conn, [] => .ok ([], conn)
  | conn, sql :: queries => do
      let (response, conn) ← conn.simpleQuery sql
      let (responses, conn) ← conn.simpleQueries queries
      return (response :: responses, conn)

end FunDbConn

end FunDB.Cli
