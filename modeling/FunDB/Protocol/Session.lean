import FunDB.Cli.PasswordHash
import FunDB.Protocol.WireAgreement

/-! # Whole sessions

The command line logs in, sends queries one after the other and says goodbye. What the one
side writes is what the other side reads, from the first byte to the last. -/

namespace FunDB.Cli

open Framing Utf8

/-! ## Logging in -/

def buildPasswordMessage (password : String) : List UInt8 :=
  let len := 4 + (asBytes password).length + 1
  'p'.toUInt8 :: (putI32 (Int32.ofNat len) ++ (asBytes password ++ [0]))

def readI32Be (buf : List UInt8) (offset : Nat) : Except ConnError Int32 :=
  if buf.length < offset + 4 then
    .error (.failed s!"Buffer too short to read i32 at {offset}")
  else .ok (i32FromBeBytes ((buf.drop offset).take 4))

namespace FunDbConn

def write (conn : FunDbConn) (bytes : List UInt8) : FunDbConn :=
  { conn with outgoing := conn.outgoing ++ bytes }

def authenticate (conn : FunDbConn) (user : String) (password : Option String)
    (payload : List UInt8) : Except ConnError FunDbConn := do
  let authType ← readI32Be payload 0
  if authType = 0 then return conn
  else if authType = 3 then return conn.write (buildPasswordMessage (password.getD ""))
  else if authType = 5 then
    if payload.length < 8 then
      throw (.failed s!"MD5 authentication failed: server sent incomplete salt (expected 8 bytes, got {payload.length})")
    match md5Password user (password.getD "") ((payload.drop 4).take 4) with
    | some hashed => return conn.write (buildPasswordMessage hashed)
    | none => throw .panicked
  else
    throw (.failed s!"Unsupported authentication method (type {authType}). FunDB CLI supports cleartext (3) and MD5 (5) authentication")

/-- Messages up to the one that says the server is ready. -/
def awaitReady (user : String) (password : Option String) :
    Nat → FunDbConn → Except ConnError FunDbConn
  | 0, _ => .error (.failed "Connection closed while reading message type")
  | fuel + 1, conn => do
      let (msgType, payload, conn) ← conn.readMessage
      match msgType with
      | 'R' =>
          let conn ← conn.authenticate user password payload
          awaitReady user password fuel conn
      | 'S' => awaitReady user password fuel conn
      | 'K' => awaitReady user password fuel conn
      | 'Z' => return conn
      | 'E' => throw (.failed s!"Server error during startup: {parseErrorResponse payload}")
      | 'N' => awaitReady user password fuel conn
      | other =>
          throw (.failed s!"Unexpected protocol message '{other}' (0x{Text.hexByte other.toUInt8}) during startup. Is the server running FunDB or a compatible PostgreSQL protocol?")

/-- A message takes at least its type byte. -/
def connect (conn : FunDbConn) (database user : String) (password : Option String) :
    Except ConnError FunDbConn :=
  awaitReady user password (conn.incoming.length + 1) (conn.write (buildStartup user database))

def close (conn : FunDbConn) : FunDbConn :=
  conn.write ('X'.toUInt8 :: putI32 4)

/-- A session that sends some queries. -/
def session (conn : FunDbConn) (database user : String) (password : Option String)
    (queries : List String) : Except ConnError (List QueryResponse × FunDbConn) := do
  let conn ← conn.connect database user password
  let (responses, conn) ← conn.simpleQueries queries
  return (responses, conn.close)

end FunDbConn

end FunDB.Cli

namespace FunDB.Protocol

open Framing Utf8 Cli

/-! ## The login -/

/-- The command line reads what the server writes at the start. -/
theorem connect_handshake (database user : String) (password : Option String)
    (rest : List UInt8) :
    FunDbConn.connect ⟨handshake.flatMap BackendMessage.encode ++ rest, []⟩ database user
      password = .ok ⟨rest, buildStartup user database⟩ := by
  have fits : ∀ message ∈ handshake, message.encode.length < 2 ^ 31 := by decide
  have okFits := fits .authenticationOk (by decide)
  have keyFits := fits (.backendKeyData 1 0) (by decide)
  have readyFits := fits (.readyForQuery 'I'.toUInt8) (by decide)
  have shape : handshake.flatMap BackendMessage.encode ++ rest =
      BackendMessage.authenticationOk.encode ++ ((BackendMessage.backendKeyData 1 0).encode ++
        ((BackendMessage.readyForQuery 'I'.toUInt8).encode ++ rest)) := by
    simp [handshake]
  obtain ⟨fuel, enough⟩ : ∃ fuel, (handshake.flatMap BackendMessage.encode ++ rest).length + 1 =
      fuel + 1 + 1 + 1 := by
    refine ⟨(handshake.flatMap BackendMessage.encode ++ rest).length - 2, ?_⟩
    have three : 2 ≤ (handshake.flatMap BackendMessage.encode).length := by decide
    rw [List.length_append]
    omega
  have authenticated (conn : FunDbConn) :
      conn.authenticate user password BackendMessage.authenticationOk.body = .ok conn := rfl
  rw [FunDbConn.connect, enough, FunDbConn.write, List.nil_append, shape, FunDbConn.awaitReady,
    readMessage_encode _ okFits]
  simp only [bind, Except.bind, BackendMessage.typeByte, authenticated]
  rw [FunDbConn.awaitReady, readMessage_encode _ keyFits]
  simp only [bind, Except.bind, BackendMessage.typeByte]
  rw [FunDbConn.awaitReady, readMessage_encode _ readyFits]
  rfl

/-! ## The queries -/

section Queries

variable {State : Type}

/-- What the command line is to read after a query. -/
def answered (handler : QueryHandler State) (context : ConnContext) (state : State)
    (query : String) : QueryResponse × State :=
  if (Text.trim query).isEmpty then ({}, state)
  else
    let (answer, state) := handler state (Text.trim query) context
    (response answer, state)

def answers (handler : QueryHandler State) (context : ConnContext) :
    State → List String → List QueryResponse × State
  | state, [] => ([], state)
  | state, query :: queries =>
      let (response, state) := answered handler context state query
      let (rest, state) := answers handler context state queries
      (response :: rest, state)

/-- Each query that is not blank gets an answer that can be sent. -/
def AllSendable (handler : QueryHandler State) (context : ConnContext) :
    State → List String → Prop
  | _, [] => True
  | state, query :: queries =>
      ((Text.trim query).isEmpty = false → Sendable (handler state (Text.trim query) context).1) ∧
        AllSendable handler context (answered handler context state query).2 queries

def replies (handler : QueryHandler State) (context : ConnContext) :
    State → List String → List UInt8
  | _, [] => []
  | state, query :: queries =>
      (respond handler context state query).1.flatMap BackendMessage.encode ++
        replies handler context (respond handler context state query).2 queries

variable (handler : QueryHandler State) (context : ConnContext)

theorem respond_state (state : State) (query : String) :
    (respond handler context state query).2 = (answered handler context state query).2 := by
  rw [respond, answered]
  dsimp only
  split <;> rfl

theorem sendAll_outgoing (connection : PgConnection) (messages : List BackendMessage) :
    connection.sendAll messages =
      { connection with
        outgoing := connection.outgoing ++ messages.flatMap BackendMessage.encode } := by
  induction messages generalizing connection with
  | nil => simp [PgConnection.sendAll]
  | cons message messages induction =>
      have step : connection.sendAll (message :: messages) =
          (connection.send message).sendAll messages := rfl
      rw [step, induction]
      simp [PgConnection.send]

theorem readFrontendMessage_goodbye (outgoing : List UInt8) :
    PgConnection.readFrontendMessage ⟨'X'.toUInt8 :: putI32 4, outgoing⟩ =
      .ok (.terminate, ⟨[], outgoing⟩) := by
  have shape : 'X'.toUInt8 :: putI32 4 = ['X'.toUInt8] ++ (putI32 4 ++ ([] ++ [])) := by simp
  have type : Char.ofNat ((['X'.toUInt8] : List UInt8).headD 0).toNat = 'X' := rfl
  have long : ¬ (4 : Int32) < 4 := by decide
  have none : ([] : List UInt8).length = ((4 : Int32) - 4).toNatClampNeg := by decide
  simp only [PgConnection.readFrontendMessage, shape,
    readExactBytes_append (List.length_singleton), readExactBytes_append (length_putI32 _),
    i32FromBeBytes_putI32, long, if_false, readExactBytes_append none, type, bind,
    Except.bind, pure, Except.pure]

/-- The server answers each query in turn, up to the goodbye. -/
theorem queryLoop_queries {queries : List String}
    (fits : ∀ query ∈ queries, (buildSimpleQuery query).length < 2 ^ 31) {fuel : Nat}
    (enough : queries.length < fuel) (state : State) (outgoing : List UInt8) :
    queryLoop handler context fuel state
        ⟨queries.flatMap buildSimpleQuery ++ 'X'.toUInt8 :: putI32 4, outgoing⟩ =
      (⟨[], outgoing ++ replies handler context state queries⟩,
        (answers handler context state queries).2) := by
  induction queries generalizing fuel state outgoing with
  | nil =>
      rcases fuel with _ | fuel
      · omega
      · rw [List.flatMap_nil, List.nil_append, queryLoop, readFrontendMessage_goodbye]
        simp [replies, answers]
  | cons query queries induction =>
      rcases fuel with _ | fuel
      · omega
      · have read := readFrontendMessage_buildSimpleQuery (fits query List.mem_cons_self)
          (queries.flatMap buildSimpleQuery ++ 'X'.toUInt8 :: putI32 4) outgoing
        have next := induction (fun other member => fits other (List.mem_cons_of_mem _ member))
          (Nat.lt_of_succ_lt_succ enough) (respond handler context state query).2
          (outgoing ++ (respond handler context state query).1.flatMap BackendMessage.encode)
        rw [List.flatMap_cons, List.append_assoc, queryLoop, read]
        simp only [sendAll_outgoing]
        rw [next, respond_state]
        simp [replies, answers, respond_state]

theorem simpleQuery_respond {state : State} {query : String}
    (sendable : (Text.trim query).isEmpty = false →
      Sendable (handler state (Text.trim query) context).1) (rest outgoing : List UInt8) :
    FunDbConn.simpleQuery
        ⟨(respond handler context state query).1.flatMap BackendMessage.encode ++ rest, outgoing⟩
        query =
      .ok ((answered handler context state query).1,
        ⟨rest, outgoing ++ buildSimpleQuery query⟩) := by
  cases blank : (Text.trim query).isEmpty with
  | false =>
      have shape : (respond handler context state query).1.flatMap BackendMessage.encode =
          encodeReply (handler state (Text.trim query) context).1 := by
        rw [respond]
        simp only [blank]
        rfl
      have given : (answered handler context state query).1 =
          response (handler state (Text.trim query) context).1 := by
        rw [answered]
        simp only [blank]
        rfl
      rw [shape, given]
      exact simpleQuery_reply (sendable blank) query rest outgoing
  | true =>
      have messages : (respond handler context state query).1 =
          [.emptyQueryResponse, .readyForQuery 'I'.toUInt8] := by
        rw [respond]
        simp only [blank, if_true]
      have given : (answered handler context state query).1 = {} := by
        rw [answered]
        simp only [blank, if_true]
      have emptyFits : BackendMessage.emptyQueryResponse.encode.length < 2 ^ 31 := by decide
      have received : ({} : QueryResponse).receive
          BackendMessage.emptyQueryResponse.typeByte BackendMessage.emptyQueryResponse.body =
            .ok {} := rfl
      have unfinished : BackendMessage.emptyQueryResponse.typeByte ≠ 'Z' := by decide
      obtain ⟨fuel, enough⟩ : ∃ fuel, (BackendMessage.emptyQueryResponse.encode ++
          ((BackendMessage.readyForQuery 'I'.toUInt8).encode ++ rest)).length + 1 =
            fuel + 1 + 1 := by
        refine ⟨(BackendMessage.emptyQueryResponse.encode ++
          ((BackendMessage.readyForQuery 'I'.toUInt8).encode ++ rest)).length - 1, ?_⟩
        rw [List.length_append, length_encode]
        omega
      rw [messages, given, List.flatMap_cons, List.flatMap_cons, List.flatMap_nil,
        List.append_nil, List.append_assoc, FunDbConn.simpleQuery, enough,
        collect_message emptyFits unfinished received, collect_readyForQuery]

theorem simpleQueries_replies_all {state : State} {queries : List String}
    (sendable : AllSendable handler context state queries) (outgoing : List UInt8) :
    FunDbConn.simpleQueries ⟨replies handler context state queries, outgoing⟩ queries =
      .ok ((answers handler context state queries).1,
        ⟨[], outgoing ++ queries.flatMap buildSimpleQuery⟩) := by
  induction queries generalizing state outgoing with
  | nil => simp [FunDbConn.simpleQueries, replies, answers]
  | cons query queries induction =>
      rcases sendable with ⟨first, later⟩
      have next := induction later (outgoing ++ buildSimpleQuery query)
      rw [replies, FunDbConn.simpleQueries, simpleQuery_respond handler context first]
      simp only [bind, Except.bind]
      rw [respond_state, next]
      simp [pure, Except.pure, answers]

theorem length_le_length_queries (queries : List String) :
    queries.length ≤ (queries.flatMap buildSimpleQuery).length := by
  induction queries with
  | nil => exact Nat.le_refl _
  | cons query queries induction =>
      rw [List.flatMap_cons, List.length_append, List.length_cons, buildSimpleQuery,
        List.length_cons]
      omega

end Queries

/-! ## Sessions -/

/-- In a whole session, with any password, each side reads all that the other one writes.
The command line gets the answer to each query in turn, the server is left in the state
behind the last one, and both are done. -/
theorem session_exact {State : Type} (handler : QueryHandler State) (state : State)
    {database user : String} (password : Option String) (userNoNul : NoNul user)
    (databaseNoNul : NoNul database)
    (startupFits : (buildStartup user database).length < 2 ^ 31) {queries : List String}
    (fits : ∀ query ∈ queries, (buildSimpleQuery query).length < 2 ^ 31)
    (sendable : AllSendable handler ⟨user, database, 0, none⟩ state queries) :
    let given := answers handler ⟨user, database, 0, none⟩ state queries
    ∃ sent received,
      run handler state ⟨sent, []⟩ = .ok (⟨[], received⟩, given.2) ∧
        FunDbConn.session ⟨received, []⟩ database user password queries =
          .ok (given.1, ⟨[], sent⟩) := by
  intro given
  let context : ConnContext := ⟨user, database, 0, none⟩
  refine ⟨buildStartup user database ++
      (queries.flatMap buildSimpleQuery ++ 'X'.toUInt8 :: putI32 4),
    handshake.flatMap BackendMessage.encode ++ replies handler context state queries, ?_, ?_⟩
  · have startup := startup_buildStartup userNoNul databaseNoNul startupFits
      (queries.flatMap buildSimpleQuery ++ 'X'.toUInt8 :: putI32 4) []
    have enough : queries.length <
        (queries.flatMap buildSimpleQuery ++ 'X'.toUInt8 :: putI32 4).length + 1 := by
      have each := length_le_length_queries queries
      rw [List.length_append]
      omega
    have served := queryLoop_queries handler context fits enough state
      (handshake.flatMap BackendMessage.encode)
    simp only [run, startup, bind, Except.bind, pure, Except.pure, sendAll_outgoing,
      List.nil_append, AList.lookup_insert, Option.getD_some]
    rw [AList.lookup_insert_ne (by decide), AList.lookup_insert, Option.getD_some, served]
  · have login := connect_handshake database user password
      (replies handler context state queries)
    have asked := simpleQueries_replies_all handler context sendable
      (buildStartup user database)
    rw [FunDbConn.session, login]
    simp only [bind, Except.bind, asked, pure, Except.pure, FunDbConn.close, FunDbConn.write,
      List.append_assoc]
    rfl

/-- A handler that counts the queries it sees. -/
def countingHandler : QueryHandler Nat :=
  fun state _ _ => (.ok sampleResult, state + 1)

theorem session_exact_counting :
    ∃ sent received,
      run countingHandler 0 ⟨sent, []⟩ = .ok (⟨[], received⟩, 2) ∧
        FunDbConn.session ⟨received, []⟩ "d" "u" none ["q", " ", "r"] =
          .ok ([response (.ok sampleResult), {}, response (.ok sampleResult)], ⟨[], sent⟩) := by
  have each : AllSendable countingHandler ⟨"u", "d", 0, none⟩ 0 ["q", " ", "r"] :=
    ⟨fun _ => sendable_sampleResult, fun _ => sendable_sampleResult,
      fun _ => sendable_sampleResult, trivial⟩
  exact session_exact countingHandler 0 none (by decide) (by decide) (by decide +kernel)
    (by decide +kernel) each

end FunDB.Protocol
