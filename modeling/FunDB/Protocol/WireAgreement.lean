import FunDB.Protocol.PgWire
import FunDB.Cli.Connection

/-! # The two sides of the wire agree -/

namespace FunDB.Protocol

open Framing Utf8 Cli

/-! ## Lengths -/

theorem four_add_ofNat (count : Nat) : 4 + Int32.ofNat count = Int32.ofNat (count + 4) := by
  rw [Nat.add_comm]
  exact (Int32.ofNat_add 4 count).symm

theorem asUsize_ofNat {count : Nat} (fits : count < 2 ^ 31) :
    asUsize (Int32.ofNat count).toInt = count := by
  rw [asUsize, Int32.toInt_ofNat_of_lt fits]
  omega

theorem length_encode (message : BackendMessage) :
    message.encode.length = message.body.length + 5 := by
  rw [BackendMessage.encode, List.length_cons, List.length_append, length_putI32]
  omega

/-! ## One message -/

theorem readExact_append {front : List UInt8} {count : Nat} (length : front.length = count)
    (rest outgoing : List UInt8) (context : String) :
    FunDbConn.readExact ⟨front ++ rest, outgoing⟩ count context =
      .ok (front, ⟨rest, outgoing⟩) := by
  simp only [FunDbConn.readExact, takeExact_append length]

theorem charOf_typeByte (message : BackendMessage) :
    Char.ofNat (([message.typeByte.toUInt8] : List UInt8).headD 0).toNat = message.typeByte := by
  cases message <;> rfl

theorem readMessage_encode (message : BackendMessage) (fits : message.encode.length < 2 ^ 31)
    (rest outgoing : List UInt8) :
    FunDbConn.readMessage ⟨message.encode ++ rest, outgoing⟩ =
      .ok (message.typeByte, message.body, ⟨rest, outgoing⟩) := by
  rw [length_encode] at fits
  have shape : message.encode ++ rest = [message.typeByte.toUInt8] ++
      (putI32 (Int32.ofNat (message.body.length + 4)) ++ (message.body ++ rest)) := by
    rw [BackendMessage.encode, four_add_ofNat]
    simp
  have length : asUsize (Int32.ofNat (message.body.length + 4)).toInt = message.body.length + 4 :=
    asUsize_ofNat (by omega)
  have notShort : ¬ message.body.length + 4 < 4 := by omega
  have notHuge : ¬ 2 ^ 63 ≤ message.body.length := by omega
  simp only [FunDbConn.readMessage, shape, readExact_append (List.length_singleton),
    readExact_append (length_putI32 _), charOf_typeByte, i32FromBeBytes_putI32, length,
    Nat.add_sub_cancel, readExact_append rfl, notShort, notHuge, bind, Except.bind, pure,
    Except.pure, if_false]

/-! ## Payloads -/

def NoNul (text : String) : Prop :=
  '\x00' ∉ text.toList

instance (text : String) : Decidable (NoNul text) :=
  inferInstanceAs (Decidable ('\x00' ∉ text.toList))

theorem readCstring_append {text : String} (noNul : NoNul text) (front rest : List UInt8) :
    Cli.readCstring (front ++ (asBytes text ++ 0 :: rest)) front.length =
      .ok (text, front.length + (asBytes text).length + 1) := by
  have inside : ¬ (front ++ (asBytes text ++ 0 :: rest)).length < front.length := by
    rw [List.length_append]
    omega
  simp only [Cli.readCstring, inside, if_false, List.drop_left, takeWhile_asBytes noNul,
    fromUtf8_asBytes]

theorem readColumns_encode {fields : List FieldDescription}
    (noNul : ∀ field ∈ fields, NoNul field.name) (front : List UInt8) :
    readColumns fields.length (front ++ fields.flatMap FieldDescription.encode) front.length =
      .ok (fields.map FieldDescription.name) := by
  induction fields generalizing front with
  | nil => rfl
  | cons field fields induction =>
      have name := noNul field List.mem_cons_self
      have first := readCstring_append name front (putI32 0 ++ putI16 0 ++
        putI32 field.typeOid ++ putI16 (-1) ++ putI32 (-1) ++ putI16 0 ++
          fields.flatMap FieldDescription.encode)
      have next := induction (fun other member => noNul other (List.mem_cons_of_mem _ member))
        (front ++ field.encode)
      have length : (front ++ field.encode).length =
          front.length + (asBytes field.name).length + 1 + (4 + 2 + 4 + 2 + 4 + 2) := by
        simp [FieldDescription.encode]
        omega
      have shape : front ++ (field :: fields).flatMap FieldDescription.encode =
          front ++ (asBytes field.name ++ 0 :: (putI32 0 ++ putI16 0 ++ putI32 field.typeOid ++
            putI16 (-1) ++ putI32 (-1) ++ putI16 0 ++
              fields.flatMap FieldDescription.encode)) := by
        simp [FieldDescription.encode]
      have after : front ++ (field :: fields).flatMap FieldDescription.encode =
          front ++ field.encode ++ fields.flatMap FieldDescription.encode := by
        rw [List.flatMap_cons, List.append_assoc]
      rw [length, ← after] at next
      rw [← shape] at first
      rw [List.length_cons, readColumns, first]
      simp only [bind, Except.bind, pure, Except.pure, next, List.map_cons]

theorem parseRowDescription_body {fields : List FieldDescription}
    (count : fields.length ≤ 65535) (noNul : ∀ field ∈ fields, NoNul field.name) :
    parseRowDescription (BackendMessage.rowDescription fields).body =
      .ok (fields.map FieldDescription.name) := by
  have columns := readColumns_encode noNul (putI16 (Int16.ofNat fields.length))
  rw [length_putI16] at columns
  have long : ¬ (putI16 (Int16.ofNat fields.length) ++
      fields.flatMap FieldDescription.encode).length < 2 := by
    rw [List.length_append, length_putI16]
    omega
  have number : (putI16 (Int16.ofNat fields.length) ++
      fields.flatMap FieldDescription.encode).take 2 = putI16 (Int16.ofNat fields.length) :=
    List.take_left' (length_putI16 _)
  rw [parseRowDescription, BackendMessage.body, if_neg long, number,
    u16FromBeBytes_putI16_ofNat count, columns]

/-- The text that stands for a value. -/
def shown (value : Option String) : String :=
  value.getD "NULL"

theorem readValue_encode {value : Option String} (front rest : List UInt8)
    (fits : (front ++ encodeValue value).length < 2 ^ 31) :
    readValue (front ++ (encodeValue value ++ rest)) front.length =
      .ok (shown value, (front ++ encodeValue value).length) := by
  rw [List.length_append] at fits
  cases value with
  | none =>
      have long : ¬ (front ++ (encodeValue none ++ rest)).length < front.length + 4 := by
        simp only [encodeValue, List.length_append, length_putI32]
        omega
      have number : ((front ++ (encodeValue none ++ rest)).drop front.length).take 4 =
          putI32 (-1) := by
        rw [List.drop_left, encodeValue, List.take_left' (length_putI32 _)]
      rw [readValue, if_neg long, number, i32FromBeBytes_putI32, if_pos rfl, List.length_append,
        encodeValue, length_putI32]
      rfl
  | some text =>
      have size : front.length + 4 + (asBytes text).length < 2 ^ 31 := by
        simpa [encodeValue, Nat.add_assoc] using fits
      have long : ¬ (front ++ (encodeValue (some text) ++ rest)).length < front.length + 4 := by
        simp only [encodeValue, List.length_append, length_putI32]
        omega
      have number : ((front ++ (encodeValue (some text) ++ rest)).drop front.length).take 4 =
          putI32 (Int32.ofNat (asBytes text).length) := by
        rw [List.drop_left, encodeValue, List.append_assoc, List.take_left' (length_putI32 _)]
      have present : Int32.ofNat (asBytes text).length ≠ -1 := by
        intro same
        have value := congrArg Int32.toInt same
        rw [Int32.toInt_ofNat_of_lt (by omega)] at value
        have negative : (-1 : Int32).toInt = -1 := rfl
        omega
      have stop : (front.length + 4 + asUsize (Int32.ofNat (asBytes text).length).toInt) % 2 ^ 64 =
          front.length + 4 + (asBytes text).length := by
        rw [asUsize_ofNat (by omega), Nat.mod_eq_of_lt (by omega)]
      have inside : ¬ (front ++ (encodeValue (some text) ++ rest)).length <
          front.length + 4 + (asBytes text).length := by
        simp only [encodeValue, List.length_append, length_putI32]
        omega
      have forward : ¬ front.length + 4 + (asBytes text).length < front.length + 4 := by omega
      have behind : (front ++ (encodeValue (some text) ++ rest)).drop (front.length + 4) =
          asBytes text ++ rest := by
        rw [← List.drop_drop, List.drop_left, encodeValue, List.append_assoc,
          List.drop_left' (length_putI32 _)]
      have width : (front ++ encodeValue (some text)).length =
          front.length + 4 + (asBytes text).length := by
        simp only [encodeValue, List.length_append, length_putI32]
        omega
      rw [readValue, if_neg long, number, i32FromBeBytes_putI32, if_neg present, stop,
        if_neg inside, if_neg forward, behind, Nat.add_sub_cancel_left, List.take_left,
        fromUtf8_asBytes, width]
      rfl

theorem readValues_encode {values : List (Option String)} (front : List UInt8)
    (fits : (front ++ values.flatMap encodeValue).length < 2 ^ 31) :
    readValues values.length (front ++ values.flatMap encodeValue) front.length =
      .ok (values.map shown) := by
  induction values generalizing front with
  | nil => rfl
  | cons value values induction =>
      have whole : front ++ (value :: values).flatMap encodeValue =
          front ++ encodeValue value ++ values.flatMap encodeValue := by
        rw [List.flatMap_cons, List.append_assoc]
      have short : (front ++ encodeValue value).length < 2 ^ 31 := by
        rw [whole, List.length_append] at fits
        omega
      have first := readValue_encode front (values.flatMap encodeValue) short
      rw [← List.append_assoc, ← whole] at first
      rw [whole] at fits
      have next := induction _ fits
      rw [← whole] at next
      rw [List.length_cons, readValues, first]
      simp only [bind, Except.bind, pure, Except.pure, next, List.map_cons]

theorem parseDataRow_body {values : List (Option String)} (count : values.length ≤ 65535)
    (fits : (BackendMessage.dataRow values).body.length < 2 ^ 31) :
    parseDataRow (BackendMessage.dataRow values).body = .ok (values.map shown) := by
  have row := readValues_encode (putI16 (Int16.ofNat values.length)) fits
  rw [length_putI16] at row
  have long : ¬ (putI16 (Int16.ofNat values.length) ++ values.flatMap encodeValue).length < 2 := by
    rw [List.length_append, length_putI16]
    omega
  have number : (putI16 (Int16.ofNat values.length) ++ values.flatMap encodeValue).take 2 =
      putI16 (Int16.ofNat values.length) :=
    List.take_left' (length_putI16 _)
  rw [parseDataRow, BackendMessage.body, if_neg long, number, u16FromBeBytes_putI16_ofNat count,
    row]

theorem parseCstring_body {tag : String} (noNul : NoNul tag) :
    parseCstring (BackendMessage.commandComplete tag).body = some tag := by
  have nul := findIdx?_asBytes noNul []
  simp only [parseCstring, BackendMessage.body, nul, List.take_left, fromUtf8_asBytes]

/-- One field of an error, and the fields behind it. -/
theorem fieldParts_append {code : UInt8} (named : code ≠ 0) {text : String}
    (noNul : NoNul text) (wanted rest : List UInt8) (fuel : Nat) :
    fieldParts wanted (fuel + 1) (code :: (asBytes text ++ 0 :: rest)) =
      if wanted.contains code then text :: fieldParts wanted fuel rest
      else fieldParts wanted fuel rest := by
  have behind : (asBytes text ++ 0 :: rest).drop ((asBytes text).length + 1) = rest :=
    List.drop_length_add_append 1
  rw [fieldParts, if_neg named]
  simp only [takeWhile_asBytes noNul, behind, fromUtf8_asBytes, Option.getD_some]

theorem parseErrorResponse_body {severity code message : String}
    (severityNoNul : NoNul severity) (codeNoNul : NoNul code) (messageNoNul : NoNul message) :
    parseErrorResponse (BackendMessage.errorResponse severity code message).body = message := by
  have shape : (BackendMessage.errorResponse severity code message).body =
      'S'.toUInt8 :: (asBytes severity ++ 0 :: ('C'.toUInt8 :: (asBytes code ++
        0 :: ('M'.toUInt8 :: (asBytes message ++ 0 :: [0]))))) := by
    simp [BackendMessage.body]
  have fuel : ∃ fuel, (BackendMessage.errorResponse severity code message).body.length =
      fuel + 4 := by
    refine ⟨(asBytes severity).length + (asBytes code).length + (asBytes message).length + 3, ?_⟩
    rw [shape]
    simp only [List.length_cons, List.length_append, List.length_nil]
    omega
  rcases fuel with ⟨fuel, length⟩
  have severityUnwanted : ['M'.toUInt8, 'D'.toUInt8, 'H'.toUInt8].contains 'S'.toUInt8 = false := by
    decide
  have codeUnwanted : ['M'.toUInt8, 'D'.toUInt8, 'H'.toUInt8].contains 'C'.toUInt8 = false := by
    decide
  have messageWanted : ['M'.toUInt8, 'D'.toUInt8, 'H'.toUInt8].contains 'M'.toUInt8 = true := by
    decide
  have parts : fieldParts ['M'.toUInt8, 'D'.toUInt8, 'H'.toUInt8] (fuel + 4)
      (BackendMessage.errorResponse severity code message).body = [message] := by
    rw [shape, fieldParts_append (by decide) severityNoNul, severityUnwanted,
      fieldParts_append (by decide) codeNoNul, codeUnwanted,
      fieldParts_append (by decide) messageNoNul, messageWanted]
    rfl
  rw [parseErrorResponse, parseFieldMessages, length, parts]
  rfl

/-! ## Replies -/

/-- What a query returns on the other side. A result without columns comes back
without rows. -/
def response : Answer → QueryResponse
  | .ok result =>
      { columns := result.columns.map FieldDescription.name
        rows := if result.columns.isEmpty then [] else result.rows.map (·.map shown)
        commandTag := result.commandTag }
  | .error error => { error := some error.message }

/-- Texts that end at a zero byte hold none, and counts fit in 16 bits and
lengths in 31. -/
structure Sendable (answer : Answer) : Prop where
  columnNames : ∀ result, answer = .ok result → ∀ field ∈ result.columns, NoNul field.name
  commandTag : ∀ result, answer = .ok result → NoNul result.commandTag
  errorFields : ∀ error, answer = .error error → NoNul error.code ∧ NoNul error.message
  columnCount : ∀ result, answer = .ok result → result.columns.length ≤ 65535
  rowWidth : ∀ result, answer = .ok result → ∀ row ∈ result.rows, row.length ≤ 65535
  messageSize : ∀ message ∈ reply answer, message.encode.length < 2 ^ 31

theorem Sendable.ofResult {result : QueryResult}
    (columnNames : ∀ field ∈ result.columns, NoNul field.name)
    (commandTag : NoNul result.commandTag) (columnCount : result.columns.length ≤ 65535)
    (rowWidth : ∀ row ∈ result.rows, row.length ≤ 65535)
    (messageSize : ∀ message ∈ reply (.ok result), message.encode.length < 2 ^ 31) :
    Sendable (.ok result) where
  columnNames := by
    intro _ same
    cases same
    exact columnNames
  commandTag := by
    intro _ same
    cases same
    exact commandTag
  errorFields := by
    intro _ same
    cases same
  columnCount := by
    intro _ same
    cases same
    exact columnCount
  rowWidth := by
    intro _ same
    cases same
    exact rowWidth
  messageSize := messageSize

theorem collect_message {message : BackendMessage} (fits : message.encode.length < 2 ^ 31)
    (unfinished : message.typeByte ≠ 'Z') {before after : QueryResponse}
    (received : before.receive message.typeByte message.body = .ok after)
    (fuel : Nat) (rest outgoing : List UInt8) :
    FunDbConn.collect (fuel + 1) before ⟨message.encode ++ rest, outgoing⟩ =
      FunDbConn.collect fuel after ⟨rest, outgoing⟩ := by
  rw [FunDbConn.collect, readMessage_encode message fits]
  simp only [bind, Except.bind, received, unfinished, if_false]

theorem collect_readyForQuery {status : UInt8} (fuel : Nat) (response : QueryResponse)
    (rest outgoing : List UInt8) :
    FunDbConn.collect (fuel + 1) response
      ⟨(BackendMessage.readyForQuery status).encode ++ rest, outgoing⟩ =
        .ok (response, ⟨rest, outgoing⟩) := by
  have fits : (BackendMessage.readyForQuery status).encode.length < 2 ^ 31 := by
    rw [length_encode, BackendMessage.body, List.length_singleton]
    decide
  rw [FunDbConn.collect, readMessage_encode _ fits]
  rfl

theorem receive_dataRow {row : List (Option String)} (width : row.length ≤ 65535)
    (fits : (BackendMessage.dataRow row).encode.length < 2 ^ 31) (before : QueryResponse) :
    before.receive (BackendMessage.dataRow row).typeByte (BackendMessage.dataRow row).body =
      .ok { before with rows := before.rows ++ [row.map shown] } := by
  rw [length_encode] at fits
  have parsed := parseDataRow_body width (by omega)
  simp only [QueryResponse.receive, BackendMessage.typeByte, parsed, bind, Except.bind, pure,
    Except.pure]

/-- Every row is added behind those that came before it. -/
theorem collect_dataRows {rows : List (List (Option String))}
    (width : ∀ row ∈ rows, row.length ≤ 65535)
    (fits : ∀ row ∈ rows, (BackendMessage.dataRow row).encode.length < 2 ^ 31)
    (fuel : Nat) (before : QueryResponse) (rest outgoing : List UInt8) :
    FunDbConn.collect (fuel + rows.length) before
      ⟨(rows.map BackendMessage.dataRow).flatMap BackendMessage.encode ++ rest, outgoing⟩ =
        FunDbConn.collect fuel { before with rows := before.rows ++ rows.map (·.map shown) }
          ⟨rest, outgoing⟩ := by
  induction rows generalizing before with
  | nil => simp
  | cons row rows induction =>
      have received := receive_dataRow (width row List.mem_cons_self)
        (fits row List.mem_cons_self) before
      have next := induction (fun other member => width other (List.mem_cons_of_mem _ member))
        (fun other member => fits other (List.mem_cons_of_mem _ member))
        { before with rows := before.rows ++ [row.map shown] }
      rw [List.map_cons, List.flatMap_cons, List.append_assoc, List.length_cons, ← Nat.add_assoc,
        collect_message (fits row List.mem_cons_self) (by simp [BackendMessage.typeByte]) received,
        next]
      simp

theorem receive_rowDescription {fields : List FieldDescription}
    (count : fields.length ≤ 65535) (noNul : ∀ field ∈ fields, NoNul field.name)
    (before : QueryResponse) :
    before.receive (BackendMessage.rowDescription fields).typeByte
      (BackendMessage.rowDescription fields).body =
        .ok { before with columns := fields.map FieldDescription.name } := by
  have parsed := parseRowDescription_body count noNul
  simp only [QueryResponse.receive, BackendMessage.typeByte, parsed, bind, Except.bind, pure,
    Except.pure]

theorem receive_commandComplete {tag : String} (noNul : NoNul tag) (before : QueryResponse) :
    before.receive (BackendMessage.commandComplete tag).typeByte
      (BackendMessage.commandComplete tag).body = .ok { before with commandTag := tag } := by
  have parsed := parseCstring_body noNul
  simp only [QueryResponse.receive, BackendMessage.typeByte, parsed, Option.getD_some]

theorem receive_errorResponse {severity code message : String}
    (severityNoNul : NoNul severity) (codeNoNul : NoNul code) (messageNoNul : NoNul message)
    (before : QueryResponse) :
    before.receive (BackendMessage.errorResponse severity code message).typeByte
      (BackendMessage.errorResponse severity code message).body =
        .ok { before with error := some message } := by
  have parsed := parseErrorResponse_body severityNoNul codeNoNul messageNoNul
  simp only [QueryResponse.receive, BackendMessage.typeByte, parsed]

theorem collect_complete {tag : String} (noNul : NoNul tag)
    (fits : (BackendMessage.commandComplete tag).encode.length < 2 ^ 31) (fuel : Nat)
    (before : QueryResponse) (rest outgoing : List UInt8) :
    FunDbConn.collect (fuel + 1 + 1) before
      ⟨(BackendMessage.commandComplete tag).encode ++
        ((BackendMessage.readyForQuery 'I'.toUInt8).encode ++ rest), outgoing⟩ =
          .ok ({ before with commandTag := tag }, ⟨rest, outgoing⟩) := by
  rw [collect_message fits (by simp [BackendMessage.typeByte])
    (receive_commandComplete noNul before), collect_readyForQuery]

theorem collect_reply {answer : Answer} (sendable : Sendable answer) {fuel : Nat}
    (enough : (reply answer).length ≤ fuel) (rest outgoing : List UInt8) :
    FunDbConn.collect fuel {} ⟨encodeReply answer ++ rest, outgoing⟩ =
      .ok (response answer, ⟨rest, outgoing⟩) := by
  cases answer with
  | error error =>
      rcases sendable.errorFields error rfl with ⟨code, message⟩
      have fits := sendable.messageSize _ List.mem_cons_self
      have severity : NoNul "ERROR" := by decide
      obtain ⟨fuel, rfl⟩ : ∃ more, fuel = more + 1 + 1 := by
        refine ⟨fuel - 2, ?_⟩
        simp only [reply, List.length_cons, List.length_nil] at enough
        omega
      have shape : encodeReply (.error error) ++ rest =
          (BackendMessage.errorResponse "ERROR" error.code error.message).encode ++
            ((BackendMessage.readyForQuery 'I'.toUInt8).encode ++ rest) := by
        simp [encodeReply, reply]
      rw [shape, collect_message fits (by simp [BackendMessage.typeByte])
        (receive_errorResponse severity code message {}), collect_readyForQuery]
      rfl
  | ok result =>
      have tag := sendable.commandTag result rfl
      have tagFits : (BackendMessage.commandComplete result.commandTag).encode.length < 2 ^ 31 :=
        sendable.messageSize _ (by simp [reply])
      by_cases columnless : result.columns.isEmpty = true
      · obtain ⟨fuel, rfl⟩ : ∃ more, fuel = more + 1 + 1 := by
          refine ⟨fuel - 2, ?_⟩
          simp only [reply, columnless, if_true, List.nil_append, List.length_cons,
            List.length_nil] at enough
          omega
        have shape : encodeReply (.ok result) ++ rest =
            (BackendMessage.commandComplete result.commandTag).encode ++
              ((BackendMessage.readyForQuery 'I'.toUInt8).encode ++ rest) := by
          simp [encodeReply, reply, columnless]
        have none : result.columns = [] := List.isEmpty_iff.mp columnless
        rw [shape, collect_complete tag tagFits]
        simp [response, none]
      · have names := sendable.columnNames result rfl
        have count := sendable.columnCount result rfl
        have description : (BackendMessage.rowDescription result.columns).encode.length <
            2 ^ 31 :=
          sendable.messageSize _ (by simp [reply, columnless])
        have rowFits : ∀ row ∈ result.rows,
            (BackendMessage.dataRow row).encode.length < 2 ^ 31 := by
          intro row member
          apply sendable.messageSize
          simp [reply, columnless, member]
        obtain ⟨fuel, rfl⟩ : ∃ more, fuel = more + 1 + 1 + result.rows.length + 1 := by
          refine ⟨fuel - 3 - result.rows.length, ?_⟩
          simp only [reply, columnless, Bool.false_eq_true, if_false, List.length_append,
            List.length_cons, List.length_map, List.length_nil] at enough
          omega
        have shape : encodeReply (.ok result) ++ rest =
            (BackendMessage.rowDescription result.columns).encode ++
              ((result.rows.map BackendMessage.dataRow).flatMap BackendMessage.encode ++
                ((BackendMessage.commandComplete result.commandTag).encode ++
                  ((BackendMessage.readyForQuery 'I'.toUInt8).encode ++ rest))) := by
          simp [encodeReply, reply, columnless]
        rw [shape, collect_message description (by simp [BackendMessage.typeByte])
          (receive_rowDescription count names {}),
          collect_dataRows (sendable.rowWidth result rfl) rowFits, collect_complete tag tagFits]
        simp [response, columnless]

theorem length_reply_le (answer : Answer) :
    (reply answer).length ≤ (encodeReply answer).length := by
  rw [encodeReply]
  induction reply answer with
  | nil => exact Nat.le_refl _
  | cons message messages induction =>
      rw [List.flatMap_cons, List.length_append, List.length_cons, length_encode]
      omega

theorem simpleQuery_reply {answer : Answer} (sendable : Sendable answer) (sql : String)
    (rest outgoing : List UInt8) :
    FunDbConn.simpleQuery ⟨encodeReply answer ++ rest, outgoing⟩ sql =
      .ok (response answer, ⟨rest, outgoing ++ buildSimpleQuery sql⟩) := by
  have enough := length_reply_le answer
  apply collect_reply sendable
  simp only [List.length_append]
  omega

/-- Each query takes its own reply from the stream and leaves the next one. -/
theorem simpleQueries_replies (exchanges : List (String × Answer))
    (sendable : ∀ exchange ∈ exchanges, Sendable exchange.2) (rest outgoing : List UInt8) :
    FunDbConn.simpleQueries
      ⟨exchanges.flatMap (fun exchange => encodeReply exchange.2) ++ rest, outgoing⟩
      (exchanges.map Prod.fst) =
        .ok (exchanges.map fun exchange => response exchange.2,
          ⟨rest, outgoing ++ exchanges.flatMap fun exchange => buildSimpleQuery exchange.1⟩) := by
  induction exchanges generalizing outgoing with
  | nil => simp [FunDbConn.simpleQueries]
  | cons exchange exchanges induction =>
      have first := simpleQuery_reply (sendable exchange List.mem_cons_self) exchange.1
        (exchanges.flatMap (fun exchange => encodeReply exchange.2) ++ rest) outgoing
      have next := induction (fun other member => sendable other (List.mem_cons_of_mem _ member))
        (outgoing ++ buildSimpleQuery exchange.1)
      rw [List.flatMap_cons, List.append_assoc, List.map_cons, FunDbConn.simpleQueries, first]
      simp only [bind, Except.bind, next]
      simp [pure, Except.pure]

/-! ## Requests -/

theorem readExactBytes_append {front : List UInt8} {count : Nat}
    (length : front.length = count) (rest outgoing : List UInt8) :
    PgConnection.readExactBytes ⟨front ++ rest, outgoing⟩ count =
      .ok (front, ⟨rest, outgoing⟩) := by
  simp only [PgConnection.readExactBytes, takeExact_append length]

theorem not_ofNat_lt_four {count : Nat} (fits : count + 4 < 2 ^ 31) :
    ¬ Int32.ofNat (count + 4) < 4 := by
  have four : (4 : Int32).toInt = 4 := rfl
  rw [Int32.lt_iff_toInt_lt, Int32.toInt_ofNat_of_lt fits, four]
  omega

theorem toNatClampNeg_sub_four {count : Nat} (fits : count + 4 < 2 ^ 31) :
    (Int32.ofNat (count + 4) - 4).toNatClampNeg = count := by
  have difference : Int32.ofNat (count + 4) - 4 = Int32.ofNat count := by
    have split := Int32.ofNat_sub (count + 4) 4 (by omega)
    rw [Nat.add_sub_cancel] at split
    exact split.symm
  rw [difference, Int32.toNatClampNeg_ofNat_of_lt (by omega)]

/-- The server reads the text of a query as it was typed. -/
theorem readFrontendMessage_buildSimpleQuery {sql : String}
    (fits : (buildSimpleQuery sql).length < 2 ^ 31) (rest outgoing : List UInt8) :
    PgConnection.readFrontendMessage ⟨buildSimpleQuery sql ++ rest, outgoing⟩ =
      .ok (.query sql, ⟨rest, outgoing⟩) := by
  have size : (asBytes sql ++ [0]).length + 4 < 2 ^ 31 := by
    simp only [buildSimpleQuery, List.length_cons, List.length_append, length_putI32,
      List.length_nil] at fits ⊢
    omega
  have count : 4 + (asBytes sql).length + 1 = (asBytes sql ++ [0]).length + 4 := by
    rw [List.length_append, List.length_singleton]
    omega
  have shape : buildSimpleQuery sql ++ rest = ['Q'.toUInt8] ++
      (putI32 (Int32.ofNat ((asBytes sql ++ [0]).length + 4)) ++
        ((asBytes sql ++ [0]) ++ rest)) := by
    simp only [buildSimpleQuery, count, List.cons_append, List.nil_append, List.append_assoc]
  have type : Char.ofNat ((['Q'.toUInt8] : List UInt8).headD 0).toNat = 'Q' := rfl
  have long := not_ofNat_lt_four size
  have body := toNatClampNeg_sub_four size
  simp only [PgConnection.readFrontendMessage, shape,
    readExactBytes_append (List.length_singleton), readExactBytes_append (length_putI32 _),
    i32FromBeBytes_putI32, long, if_false, body, readExactBytes_append rfl, type, bind,
    Except.bind, pure, Except.pure, List.getLast?_concat, if_true, List.dropLast_concat,
    fromUtf8Lossy_asBytes]

theorem readCstring_asBytes {text : String} (noNul : NoNul text) (rest : List UInt8) :
    readCstring (asBytes text ++ 0 :: rest) = some (text, rest) := by
  have nul := findIdx?_asBytes noNul rest
  have behind : (asBytes text ++ 0 :: rest).drop ((asBytes text).length + 1) = rest :=
    List.drop_length_add_append 1
  simp only [readCstring, nul, List.take_left, fromUtf8Lossy_asBytes, behind]

theorem insertStartupParams_append {key value : String} (named : key.isEmpty = false)
    (keyNoNul : NoNul key) (valueNoNul : NoNul value) (fuel : Nat) (rest : List UInt8)
    (params : Dict String String) :
    insertStartupParams (fuel + 1) (asBytes key ++ 0 :: (asBytes value ++ 0 :: rest)) params =
      insertStartupParams fuel rest (params.insert key value) := by
  simp only [insertStartupParams, readCstring_asBytes keyNoNul, readCstring_asBytes valueNoNul,
    named, Bool.false_eq_true, if_false]

theorem parseStartupParams_startupParams {user database : String} (userNoNul : NoNul user)
    (databaseNoNul : NoNul database) :
    parseStartupParams (startupParams user database) =
      AList.insert "database" database (AList.insert "user" user ∅) := by
  have shape : startupParams user database = asBytes "user" ++ 0 :: (asBytes user ++
      0 :: (asBytes "database" ++ 0 :: (asBytes database ++ 0 :: [0]))) := by
    simp [startupParams]
  have userKey : NoNul "user" := by decide
  have databaseKey : NoNul "database" := by decide
  obtain ⟨fuel, length⟩ : ∃ fuel, (startupParams user database).length = fuel + 1 + 1 + 1 := by
    refine ⟨(startupParams user database).length - 3, ?_⟩
    simp only [startupParams, List.length_append, List.length_cons, List.length_nil]
    omega
  rw [parseStartupParams, length, shape,
    insertStartupParams_append (by decide) userKey userNoNul,
    insertStartupParams_append (by decide) databaseKey databaseNoNul]
  have stop : readCstring [0] = some ("", []) := by decide
  rw [insertStartupParams, stop]
  rfl

theorem startup_buildStartup {user database : String} (userNoNul : NoNul user)
    (databaseNoNul : NoNul database) (fits : (buildStartup user database).length < 2 ^ 31)
    (rest outgoing : List UInt8) :
    PgConnection.startup ⟨buildStartup user database ++ rest, outgoing⟩ =
      .ok (AList.insert "database" database (AList.insert "user" user ∅), ⟨rest, outgoing⟩) := by
  have count : 4 + 4 + (startupParams user database).length =
      (putI32 196608 ++ startupParams user database).length + 4 := by
    rw [List.length_append, length_putI32]
    omega
  have packet : buildStartup user database =
      putI32 (Int32.ofNat ((putI32 196608 ++ startupParams user database).length + 4)) ++
        (putI32 196608 ++ startupParams user database) := by
    rw [← count]
    rfl
  have size : (putI32 196608 ++ startupParams user database).length + 4 < 2 ^ 31 := by
    rw [packet, List.length_append, length_putI32] at fits
    omega
  have long := not_ofNat_lt_four size
  have payload := toNatClampNeg_sub_four size
  have holdsCode : ¬ (putI32 196608 ++ startupParams user database).length < 4 := by
    rw [List.length_append, length_putI32]
    omega
  have notSsl : ¬ (196608 : Int32) = PgConnection.sslRequestCode := by decide
  simp only [PgConnection.startup, PgConnection.startupPackets, packet, List.append_assoc,
    readExactBytes_append (length_putI32 _)]
  simp only [i32FromBeBytes_putI32, long, if_false, payload, ← List.append_assoc _ _ rest,
    readExactBytes_append rfl, holdsCode, bind, Except.bind, pure, Except.pure,
    List.take_left' (length_putI32 _), notSsl, List.drop_left' (length_putI32 _),
    parseStartupParams_startupParams userNoNul databaseNoNul]

/-! ## Agreement -/

/-- What either side writes, the other side reads, and the reader stops at the
next message. -/
theorem wire_codecs_agree (exchanges : List (String × Answer)) (sql user database : String)
    (rest outgoing : List UInt8) (sendable : ∀ exchange ∈ exchanges, Sendable exchange.2)
    (sqlFits : (buildSimpleQuery sql).length < 2 ^ 31) (userNoNul : NoNul user)
    (databaseNoNul : NoNul database)
    (startupFits : (buildStartup user database).length < 2 ^ 31) :
    FunDbConn.simpleQueries
      ⟨exchanges.flatMap (fun exchange => encodeReply exchange.2) ++ rest, outgoing⟩
      (exchanges.map Prod.fst) =
        .ok (exchanges.map fun exchange => response exchange.2,
          ⟨rest, outgoing ++ exchanges.flatMap fun exchange => buildSimpleQuery exchange.1⟩) ∧
    PgConnection.readFrontendMessage ⟨buildSimpleQuery sql ++ rest, outgoing⟩ =
      .ok (.query sql, ⟨rest, outgoing⟩) ∧
    ∃ params, PgConnection.startup ⟨buildStartup user database ++ rest, outgoing⟩ =
        .ok (params, ⟨rest, outgoing⟩) ∧
      params.lookup "user" = some user ∧ params.lookup "database" = some database := by
  refine ⟨simpleQueries_replies exchanges sendable rest outgoing,
    readFrontendMessage_buildSimpleQuery sqlFits rest outgoing, _,
    startup_buildStartup userNoNul databaseNoNul startupFits rest outgoing, ?_, ?_⟩
  · rw [AList.lookup_insert_ne (by decide), AList.lookup_insert]
  · rw [AList.lookup_insert]

def sampleResult : QueryResult where
  columns := [⟨"id", 23⟩, ⟨"name", 25⟩]
  rows := [[some "1", some "é"], [some "2", none]]
  commandTag := "SELECT 2"

theorem sendable_sampleResult : Sendable (.ok sampleResult) := by
  apply Sendable.ofResult <;> decide +kernel

theorem wire_codecs_agree_sample :
    FunDbConn.simpleQueries ⟨encodeReply (.ok sampleResult) ++ [0x5A], []⟩ ["q"] =
        .ok ([⟨["id", "name"], [["1", "é"], ["2", "NULL"]], "SELECT 2", none, none⟩],
          ⟨[0x5A], buildSimpleQuery "q"⟩) ∧
      PgConnection.readFrontendMessage ⟨buildSimpleQuery "q" ++ [0x5A], []⟩ =
        .ok (.query "q", ⟨[0x5A], []⟩) := by
  have agree := wire_codecs_agree [("q", .ok sampleResult)] "q" "u" "d" [0x5A] []
    (by
      intro exchange member
      rw [List.mem_singleton.mp member]
      exact sendable_sampleResult)
    (by decide +kernel) (by decide) (by decide) (by decide +kernel)
  exact ⟨by simpa [response, sampleResult, shown] using agree.1, agree.2.1⟩

def columnlessResult : QueryResult where
  columns := []
  rows := [[some "1"]]
  commandTag := "SELECT 1"

/-- A row of a result without columns is not sent. -/
theorem columnless_row_not_sent :
    Sendable (.ok columnlessResult) ∧ columnlessResult.rows = [[some "1"]] ∧
      FunDbConn.simpleQuery ⟨encodeReply (.ok columnlessResult), []⟩ "q" =
        .ok (⟨[], [], "SELECT 1", none, none⟩, ⟨[], buildSimpleQuery "q"⟩) := by
  refine ⟨?_, rfl, by decide +kernel⟩
  apply Sendable.ofResult <;> decide +kernel

end FunDB.Protocol
