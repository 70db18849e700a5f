import FunDB.Cli.Display
import FunDB.Cli.HostileBytes
import FunDB.Foundation.Json
import FunDB.Protocol.WireAgreement
import Mathlib.Data.List.Forall2

/-! # NULL in the JSON form

The server sends NULL as a length of minus one. The command line turns it into the
text `NULL`, and the JSON form turns that text into `null`. -/

namespace FunDB.Cli

open Framing Json Protocol Reading Utf8

/-! ## What the JSON form reads as -/

/-- How a character is told in the text of a string. -/
def pieceOf (char : Char) : Piece :=
  if char.toNat < 0x20 ∧ char ≠ '\n' ∧ char ≠ '\r' ∧ char ≠ '\t' then .unit char.toNat
  else .char char

/-- A code of a control character has two zeros and two more digits. -/
theorem hexFour_digits {code : Nat} (control : code < 0x20) :
    ∃ third fourth, (hexFour code).toList = ['0', '0', third, fourth] ∧
      hexCode ['0', '0', third, fourth] = some code := by
  have digits : ∀ code < 0x20, (Nat.toDigits 16 code).leftpad 4 '0' =
      ['0', '0', Nat.digitChar (code / 16), Nat.digitChar (code % 16)] := by
    decide
  have read : ∀ code < 0x20,
      hexCode ['0', '0', Nat.digitChar (code / 16), Nat.digitChar (code % 16)] = some code := by
    decide
  refine ⟨Nat.digitChar (code / 16), Nat.digitChar (code % 16), ?_, read code control⟩
  rw [hexFour, String.toList_ofList]
  exact digits code control

theorem readPieces_escapeJsonChar (char : Char) (rest : List Char) :
    readPieces (escapeJsonChar char ++ rest) = (pieceOf char).before (readPieces rest) := by
  by_cases quote : char = '"'
  · subst quote
    rfl
  by_cases backslash : char = '\\'
  · subst backslash
    rfl
  by_cases newline : char = '\n'
  · subst newline
    rfl
  by_cases carriage : char = '\r'
  · subst carriage
    rfl
  by_cases tab : char = '\t'
  · subst tab
    rfl
  rw [escapeJsonChar, if_neg quote, if_neg backslash, if_neg newline, if_neg carriage,
    if_neg tab]
  by_cases control : char.toNat < 0x20
  · rcases hexFour_digits control with ⟨third, fourth, digits, code⟩
    rw [if_pos control, digits, pieceOf, if_pos ⟨control, newline, carriage, tab⟩]
    have escape : readPieces ('\\' :: 'u' :: '0' :: '0' :: third :: fourth :: rest) =
        (Piece.unit char.toNat).before (readPieces rest) := by
      rw [readPieces, code]
      rfl
    exact escape
  · rw [if_neg control, pieceOf, if_neg (fun both => control both.1),
      List.singleton_append, readPieces.eq_def]
    simp only [if_neg quote, if_neg backslash, if_neg control]

theorem readPieces_escapeJson (chars rest : List Char) :
    readPieces (chars.flatMap escapeJsonChar ++ '"' :: rest) =
      some (chars.map pieceOf, rest) := by
  induction chars with
  | nil =>
      rw [List.flatMap_nil, List.nil_append, readPieces.eq_def]
      rfl
  | cons char chars induction =>
      rw [List.flatMap_cons, List.append_assoc, readPieces_escapeJsonChar, induction]
      rfl

theorem charsOf_pieceOf (chars : List Char) :
    charsOf none (chars.map pieceOf) = some chars := by
  induction chars with
  | nil => rfl
  | cons char chars induction =>
      rw [List.map_cons, pieceOf]
      split
      next control =>
        have high : ¬ IsHighSurrogate char.toNat := by
          intro high
          have := high.1
          omega
        have low : ¬ IsLowSurrogate char.toNat := by
          intro low
          have := low.1
          omega
        rw [charsOf, if_neg high, if_neg low, induction, Char.ofNat_toNat]
        rfl
      next =>
        rw [charsOf, induction]
        rfl

theorem spells_escapeJson (text : String) : Spells (escapeJson text).toList text := by
  intro rest
  rw [escapeJson, String.toList_ofList, readString, readPieces_escapeJson]
  simp only [charsOf_pieceOf, Option.map_some, String.ofList_toList]

theorem reads_quoted (text : String) :
    Reads ("\"" ++ escapeJson text ++ "\"").toList (.string text) := by
  rw [String.toList_append, String.toList_append]
  exact reads_string (spells_escapeJson text)

/-- A shown cell as the JSON form tells it. -/
def shownValue (cell : String) : Value :=
  if cell = "NULL" then .null else .string cell

theorem reads_jsonCell (cell : String) : Reads (jsonCell cell).toList (shownValue cell) := by
  unfold jsonCell shownValue
  split
  next => exact reads_null
  next => exact reads_quoted cell

theorem reads_brackets {Element : Type} (elements : List Element) (text : Element → String)
    (value : Element → Value)
    (reads : ∀ element ∈ elements, Reads (text element).toList (value element)) :
    Reads ("[" ++ ", ".intercalate (elements.map text) ++ "]").toList
      (.array (elements.map value)) := by
  rw [String.toList_append, String.toList_append, String.toList_intercalate, List.map_map]
  exact reads_array elements reads

def responseValue (columns : List String) (rows : List (List Value)) : Value :=
  .object [("columns", .array (columns.map .string)), ("rows", .array (rows.map .array))]

theorem member_of_reads {name value : String} {found : Value}
    (plain : escapeJson name = name) (reads : Reads value.toList found) :
    Member ("\"" ++ name ++ "\": " ++ value).toList name found := by
  have spells := spells_escapeJson name
  rw [plain] at spells
  refine ⟨name.toList, value.toList, ?_, spells, reads⟩
  rw [String.toList_append, String.toList_append, String.toList_append, List.append_assoc,
    List.append_assoc]
  rfl

theorem reads_object {first second firstName secondName : String}
    {firstValue secondValue : Value} (firstMember : Member first.toList firstName firstValue)
    (secondMember : Member second.toList secondName secondValue) :
    Reads ("\x7b" ++ first ++ ", " ++ second ++ "\x7d").toList
      (.object [(firstName, firstValue), (secondName, secondValue)]) := by
  intro fuel rest enough
  have split : ("\x7b" ++ first ++ ", " ++ second ++ "\x7d").toList ++ rest =
      '\x7b' :: (first.toList ++ ',' :: ' ' :: (second.toList ++ '\x7d' :: rest)) := by
    simp only [String.toList_append, List.append_assoc]
    rfl
  have long : ("\x7b" ++ first ++ ", " ++ second ++ "\x7d").toList.length =
      first.toList.length + second.toList.length + 4 := by
    simp only [String.toList_append, List.length_append]
    have brace : "\x7b".toList.length = 1 := rfl
    have comma : ", ".toList.length = 2 := rfl
    have close : "\x7d".toList.length = 1 := rfl
    omega
  rcases Nat.exists_eq_add_of_le' (show 3 ≤ fuel by omega) with ⟨fuel, rfl⟩
  have opened : ∃ text, first.toList ++ ',' :: ' ' :: (second.toList ++ '\x7d' :: rest) =
      '"' :: text := by
    rcases firstMember with ⟨body, valueText, here, -, -⟩
    exact ⟨_, by rw [here]; rfl⟩
  have members : readMembers (fuel + 2)
      (first.toList ++ ',' :: ' ' :: (second.toList ++ '\x7d' :: rest)) =
        some ([(firstName, firstValue), (secondName, secondValue)], rest) := by
    rw [firstMember.readMembers_comma (by omega), readMembers_space,
      secondMember.readMembers_close (by omega)]
    rfl
  rcases opened with ⟨text, here⟩
  rw [split, here, readValue_members, ← here, members]
  rfl

/-- The JSON form always reads as an object with the columns and the rows, each cell
as it is shown. -/
theorem read_renderJson (response : QueryResponse) :
    read (renderJson response) = some (responseValue response.columns
      (response.rows.map fun row => (List.range response.columns.length).map fun i =>
        shownValue (row[i]?.getD "null"))) := by
  have columns := reads_brackets response.columns _ _ fun column _ => reads_quoted column
  have rows := reads_brackets response.rows _ _ fun row _ =>
    reads_brackets (List.range response.columns.length) _ _ fun i _ =>
      reads_jsonCell (row[i]?.getD "null")
  have members := reads_object
    (member_of_reads (by decide +kernel : escapeJson "columns" = "columns") columns)
    (member_of_reads (by decide +kernel : escapeJson "rows" = "rows") rows)
  rw [responseValue, List.map_map]
  refine read_of_reads ?_ members
  unfold renderJson
  have front : "\x7b\"columns\": [" = "\x7b" ++ ("\"" ++ "columns" ++ "\": ") ++ "[" := rfl
  have middle : "], \"rows\": [" = "]" ++ ", " ++ ("\"" ++ "rows" ++ "\": ") ++ "[" := rfl
  have back : "]\x7d" = "]" ++ "\x7d" := rfl
  rw [front, middle, back, String.toList_append]
  simp only [String.append_assoc]
  rfl

/-! ## Rows on their way -/

/-- What a cell has to be: null for NULL, and else a string with the server's text. -/
def cellValue : Option String → Value
  | none => .null
  | some text => .string text

/-- A text whose length can be written in the message. -/
def Short (value : Option String) : Prop :=
  ∀ text ∈ value, (asBytes text).length < 2 ^ 31

instance (value : Option String) : Decidable (Short value) :=
  inferInstanceAs (Decidable (∀ text ∈ value, _ < _))

/-- The count of a row is sent by its last sixteen bits. The values within it must be
short and must not be the text `NULL`; those behind it are lost, and a lost value is
shown as the text `null`. -/
def Unmistakable (row : List (Option String)) : Prop :=
  (∀ value ∈ row.take (row.length % 65536), Short value ∧ value ≠ some "NULL") ∧
    ∀ value ∈ row.drop (row.length % 65536), value = some "null"

instance (row : List (Option String)) : Decidable (Unmistakable row) :=
  inferInstanceAs (Decidable (_ ∧ _))

def receiveRows (columns : List String) (rows : List (List (Option String))) :
    Except ConnError QueryResponse :=
  rows.foldlM (fun response row =>
    response.receive (BackendMessage.dataRow row).typeByte (BackendMessage.dataRow row).body)
    { columns }

/-- The JSON form is an object with the columns and with exactly the server's values. -/
def RendersFaithfully (columns : List String) (rows : List (List (Option String))) : Prop :=
  ∃ response, receiveRows columns rows = .ok response ∧
    read (renderJson response) = some (responseValue columns (rows.map (·.map cellValue)))

theorem shownValue_shown_eq_iff (value : Option String) :
    shownValue (shown value) = cellValue value ↔ value ≠ some "NULL" := by
  cases value with
  | none => simp [shown, shownValue, cellValue]
  | some text =>
      by_cases marker : text = "NULL"
      · simp [shown, shownValue, cellValue, marker]
      · simp [shown, shownValue, cellValue, marker]

theorem cellValue_eq_string_iff {value : Option String} {text : String} :
    cellValue value = .string text ↔ value = some text := by
  cases value <;> simp [cellValue]

theorem eq_of_shownValue_eq_string {cell text : String}
    (same : shownValue cell = .string text) : cell = text := by
  unfold shownValue at same
  split at same
  next => cases same
  next => exact Value.string.inj same

section Value

variable {front rest : List UInt8} {value : Option String}

theorem readValue_of_short_value (short : Short value)
    (allocated : (front ++ (encodeValue value ++ rest)).length < 2 ^ 63) :
    readValue (front ++ (encodeValue value ++ rest)) front.length =
      .ok (shown value, (front ++ encodeValue value).length) := by
  cases value with
  | none =>
      have shape : (front ++ (encodeValue none ++ rest)).drop front.length =
          putI32 (-1) ++ rest := List.drop_left
      rw [readValue_null shape, List.length_append, encodeValue, length_putI32]
      rfl
  | some text =>
      have small : (asBytes text).length < 2 ^ 31 := short text rfl
      have shape : (front ++ (encodeValue (some text) ++ rest)).drop front.length =
          putI32 (Int32.ofNat (asBytes text).length) ++ (asBytes text ++ rest) := by
        rw [List.drop_left, encodeValue, List.append_assoc]
      have number : (Int32.ofNat (asBytes text).length).toInt = (asBytes text).length :=
        Int32.toInt_ofNat_of_lt small
      have enough : ¬ (asBytes text ++ rest).length < (asBytes text).length := by
        rw [List.length_append]
        omega
      rw [readValue_of_nonneg allocated shape (by omega), number, Int.toNat_natCast,
        if_neg enough, List.take_left, fromUtf8_asBytes]
      simp only [encodeValue, List.length_append, length_putI32, Nat.add_assoc]
      rfl

/-- A text of 2^31 bytes or more is never shown as what it is. -/
theorem readValue_of_long_text {text cell : String} {stop : Nat}
    (long : 2 ^ 31 ≤ (asBytes text).length)
    (allocated : (front ++ (encodeValue (some text) ++ rest)).length < 2 ^ 63)
    (read : readValue (front ++ (encodeValue (some text) ++ rest)) front.length =
      .ok (cell, stop)) :
    shownValue cell ≠ .string text := by
  intro same
  have same := eq_of_shownValue_eq_string same
  subst same
  have shape : (front ++ (encodeValue (some cell) ++ rest)).drop front.length =
      putI32 (Int32.ofNat (asBytes cell).length) ++ (asBytes cell ++ rest) := by
    rw [List.drop_left, encodeValue, List.append_assoc]
  have wrapped : (Int32.ofNat (asBytes cell).length).toInt =
      ((asBytes cell).length : Int).bmod (2 ^ 32) := Int32.toInt_ofNat
  rcases lt_trichotomy (Int32.ofNat (asBytes cell).length).toInt (-1) with
    negative | null | nonneg
  · rw [readValue_of_neg allocated shape negative] at read
    split at read <;> cases read
  · have minus : Int32.ofNat (asBytes cell).length = -1 := Int32.toInt_inj.mp null
    rw [minus] at shape
    rw [readValue_null shape] at read
    cases read
    revert long
    decide +kernel
  · have bound := (Int32.ofNat (asBytes cell).length).toInt_lt
    rw [readValue_of_nonneg allocated shape (by omega)] at read
    split at read
    next => cases read
    next =>
      have shownText := (Prod.mk.inj (Except.ok.inj read)).1
      cases decoded : fromUtf8
          ((asBytes cell ++ rest).take (Int32.ofNat (asBytes cell).length).toInt.toNat) with
      | none =>
          rw [decoded, Option.getD_none] at shownText
          subst shownText
          revert long
          decide +kernel
      | some found =>
          rw [decoded, Option.getD_some] at shownText
          subst shownText
          have fewer := length_asBytes_le decoded
          rw [List.length_take] at fewer
          omega

end Value

theorem length_of_readValues {count pos : Nat} {payload : List UInt8} {cells : List String}
    (read : readValues count payload pos = .ok cells) : cells.length = count := by
  induction count generalizing pos cells with
  | zero =>
      cases read
      rfl
  | succ count induction =>
      rw [readValues] at read
      rcases bind_eq_ok_iff.mp read with ⟨⟨value, next⟩, _, read⟩
      rcases bind_eq_ok_iff.mp read with ⟨rest, later, made⟩
      cases made
      rw [List.length_cons, induction later]

/-- The values within the count are shown as what they are exactly if each of them is
short and none is the text `NULL`. -/
theorem readValues_faithful_iff {values : List (Option String)} {count : Nat}
    (front : List UInt8) (within : count ≤ values.length)
    (allocated : (front ++ values.flatMap encodeValue).length < 2 ^ 63) :
    (∃ cells, readValues count (front ++ values.flatMap encodeValue) front.length = .ok cells ∧
        cells.map shownValue = (values.take count).map cellValue) ↔
      ∀ value ∈ values.take count, Short value ∧ value ≠ some "NULL" := by
  induction count generalizing values front with
  | zero => simp [readValues]
  | succ count induction =>
      cases values with
      | nil => exact absurd within (Nat.not_succ_le_zero count)
      | cons value values =>
          have whole : front ++ (value :: values).flatMap encodeValue =
              front ++ (encodeValue value ++ values.flatMap encodeValue) := by
            rw [List.flatMap_cons]
          rw [whole] at allocated ⊢
          rw [List.take_succ_cons, List.map_cons, List.forall_mem_cons, readValues]
          by_cases short : Short value
          · have later := induction (front ++ encodeValue value)
              (Nat.le_of_succ_le_succ within) (by rwa [List.append_assoc])
            rw [List.append_assoc] at later
            rw [readValue_of_short_value short allocated, ← later, ← shownValue_shown_eq_iff]
            constructor
            · intro given
              rcases given with ⟨cells, read, same⟩
              rcases bind_eq_ok_iff.mp read with ⟨first, here, read⟩
              cases here
              rcases bind_eq_ok_iff.mp read with ⟨rest, readRest, made⟩
              cases made
              rw [List.map_cons, List.cons.injEq] at same
              exact ⟨⟨short, same.1⟩, rest, readRest, same.2⟩
            · intro given
              rcases given with ⟨⟨-, first⟩, rest, readRest, same⟩
              refine ⟨shown value :: rest, ?_, by rw [List.map_cons, first, same]⟩
              simp only [bind, Except.bind, pure, Except.pure, readRest]
          · constructor
            · intro given
              rcases given with ⟨cells, read, same⟩
              rcases bind_eq_ok_iff.mp read with ⟨⟨cell, stop⟩, readCell, read⟩
              rcases bind_eq_ok_iff.mp read with ⟨rest, readRest, made⟩
              cases made
              rw [List.map_cons, List.cons.injEq] at same
              cases value with
              | none => exact absurd (fun _ impossible => by cases impossible) short
              | some text =>
                  have long : 2 ^ 31 ≤ (asBytes text).length := by
                    by_contra small
                    apply short
                    intro other here
                    cases here
                    omega
                  exact absurd same.1 (readValue_of_long_text long allocated readCell)
            · intro given
              exact absurd given.1.1 short

/-- What the JSON form shows of a row with these cells. -/
def shownRow (width : Nat) (cells : List String) : List Value :=
  (List.range width).map fun i => shownValue (cells[i]?.getD "null")

theorem shownRow_eq {width : Nat} {cells : List String} (within : cells.length ≤ width) :
    shownRow width cells =
      cells.map shownValue ++ List.replicate (width - cells.length) (.string "null") := by
  apply List.ext_getElem
  · simp only [shownRow, List.length_map, List.length_range, List.length_append,
      List.length_replicate]
    omega
  · intro position inside _
    have cell : (shownRow width cells)[position] = shownValue (cells[position]?.getD "null") := by
      simp only [shownRow, List.getElem_map, List.getElem_range]
    rw [cell]
    by_cases here : position < cells.length
    · rw [List.getElem_append_left (by rwa [List.length_map]), List.getElem_map,
        List.getElem?_eq_getElem here, Option.getD_some]
    · rw [List.getElem_append_right (by rw [List.length_map]; omega),
        List.getElem_replicate, List.getElem?_eq_none (by omega)]
      rfl

/-- A row is shown as what it is exactly if it is as wide as the columns and cannot be
mistaken. -/
theorem parseDataRow_faithful_iff {row : List (Option String)} {width : Nat}
    (allocated : (BackendMessage.dataRow row).body.length < 2 ^ 63) :
    (∃ cells, parseDataRow (BackendMessage.dataRow row).body = .ok cells ∧
        shownRow width cells = row.map cellValue) ↔
      row.length = width ∧ Unmistakable row := by
  have counted : row.length % 65536 ≤ row.length := Nat.mod_le _ _
  have long : ¬ (putI16 (Int16.ofNat row.length) ++ row.flatMap encodeValue).length < 2 := by
    rw [List.length_append, length_putI16]
    omega
  have number : (putI16 (Int16.ofNat row.length) ++ row.flatMap encodeValue).take 2 =
      putI16 (Int16.ofNat row.length) := List.take_left' (length_putI16 _)
  have within := readValues_faithful_iff (putI16 (Int16.ofNat row.length)) counted allocated
  rw [length_putI16] at within
  rw [parseDataRow, BackendMessage.body, if_neg long, number, u16FromBeBytes_putI16_mod,
    Unmistakable, ← within]
  have wide (cells : List String) (same : shownRow width cells = row.map cellValue) :
      row.length = width := by
    have lengths := congrArg List.length same
    rw [shownRow, List.length_map, List.length_range, List.length_map] at lengths
    exact lengths.symm
  have lost : (∀ value ∈ row.drop (row.length % 65536), value = some "null") ↔
      List.replicate (row.length - row.length % 65536) (Value.string "null") =
        (row.drop (row.length % 65536)).map cellValue := by
    rw [eq_comm, List.eq_replicate_iff, List.length_map, List.length_drop,
      and_iff_right rfl, List.forall_mem_map]
    simp only [cellValue_eq_string_iff]
  have split : row.map cellValue = (row.take (row.length % 65536)).map cellValue ++
      (row.drop (row.length % 65536)).map cellValue := by
    rw [← List.map_append, List.take_append_drop]
  constructor
  · intro given
    rcases given with ⟨cells, read, same⟩
    have length := length_of_readValues read
    have width := wide cells same
    subst width
    rw [shownRow_eq (by omega), split, length] at same
    rcases List.append_inj same (by simp [length]; omega) with ⟨first, second⟩
    exact ⟨rfl, ⟨cells, read, first⟩, lost.mpr second⟩
  · intro given
    rcases given with ⟨width, ⟨cells, read, same⟩, rest⟩
    subst width
    have length := length_of_readValues read
    refine ⟨cells, read, ?_⟩
    rw [shownRow_eq (by omega), split, length, same, lost.mp rest]

/-! ## Whole results -/

theorem responseValue_eq_iff {columns : List String} {rows others : List (List Value)} :
    responseValue columns rows = responseValue columns others ↔ rows = others := by
  constructor
  · intro same
    have members := Value.object.inj same
    simp only [List.cons.injEq, Prod.mk.injEq, Value.array.injEq, true_and, and_true] at members
    exact List.map_injective_iff.mpr (fun _ _ => Value.array.inj) members
  · intro same
    rw [same]

theorem foldlM_receive_eq_ok_iff {rows : List (List (Option String))}
    {before after : QueryResponse} :
    rows.foldlM (fun response row =>
        response.receive (BackendMessage.dataRow row).typeByte
          (BackendMessage.dataRow row).body) before = .ok after ↔
      ∃ cells, List.Forall₂ (fun row cells =>
          parseDataRow (BackendMessage.dataRow row).body = .ok cells) rows cells ∧
        after = { before with rows := before.rows ++ cells } := by
  induction rows generalizing before with
  | nil =>
      constructor
      · intro same
        cases same
        exact ⟨[], .nil, by rw [List.append_nil]⟩
      · intro given
        rcases given with ⟨cells, none, rfl⟩
        cases none
        rw [List.append_nil]
        rfl
  | cons row rows induction =>
      rw [List.foldlM_cons, bind_eq_ok_iff]
      constructor
      · intro given
        rcases given with ⟨between, received, later⟩
        rcases bind_eq_ok_iff.mp received with ⟨first, read, made⟩
        cases made
        rcases induction.mp later with ⟨cells, all, rfl⟩
        refine ⟨first :: cells, .cons read all, ?_⟩
        rw [List.append_assoc, List.singleton_append]
      · intro given
        rcases given with ⟨cells, all, rfl⟩
        cases all with
        | @cons _ first _ cells read all =>
            refine ⟨{ before with rows := before.rows ++ [first] }, ?_, ?_⟩
            · exact bind_eq_ok_iff.mpr ⟨first, read, rfl⟩
            · refine induction.mpr ⟨cells, all, ?_⟩
              rw [List.append_assoc, List.singleton_append]

theorem exists_forall₂_map_iff {rows : List (List (Option String))} {width : Nat}
    (allocated : ∀ row ∈ rows, (BackendMessage.dataRow row).body.length < 2 ^ 63) :
    (∃ cells, List.Forall₂ (fun row cells =>
          parseDataRow (BackendMessage.dataRow row).body = .ok cells) rows cells ∧
        cells.map (shownRow width) = rows.map (·.map cellValue)) ↔
      ∀ row ∈ rows, row.length = width ∧ Unmistakable row := by
  induction rows with
  | nil => simp
  | cons row rows induction =>
      rcases List.forall_mem_cons.mp allocated with ⟨here, allocated⟩
      rw [List.forall_mem_cons, ← induction allocated, ← parseDataRow_faithful_iff here]
      constructor
      · intro given
        rcases given with ⟨cells, all, same⟩
        cases all with
        | @cons _ first _ cells read all =>
            rw [List.map_cons, List.map_cons, List.cons.injEq] at same
            exact ⟨⟨first, read, same.1⟩, cells, all, same.2⟩
      · intro given
        rcases given with ⟨⟨first, read, same⟩, cells, all, sameRest⟩
        refine ⟨first :: cells, .cons read all, ?_⟩
        rw [List.map_cons, List.map_cons, same, sameRest]

/-- The JSON form tells NULL from text, for every row of a result, exactly if the rows
are as wide as the columns and cannot be mistaken. -/
theorem rendersFaithfully_iff (columns : List String) (rows : List (List (Option String)))
    (allocated : ∀ row ∈ rows, (BackendMessage.dataRow row).body.length < 2 ^ 63) :
    RendersFaithfully columns rows ↔
      ∀ row ∈ rows, row.length = columns.length ∧ Unmistakable row := by
  rw [← exists_forall₂_map_iff allocated]
  constructor
  · intro given
    rcases given with ⟨response, received, shows⟩
    rcases foldlM_receive_eq_ok_iff.mp received with ⟨cells, all, rfl⟩
    rw [read_renderJson, Option.some.injEq, responseValue_eq_iff] at shows
    exact ⟨cells, all, shows⟩
  · intro given
    rcases given with ⟨cells, all, same⟩
    refine ⟨_, foldlM_receive_eq_ok_iff.mpr ⟨cells, all, rfl⟩, ?_⟩
    rw [read_renderJson, Option.some.injEq, responseValue_eq_iff]
    exact same

/-- NULL, its lookalikes, and a text with characters to escape. -/
theorem rendersFaithfully_iff_lookalikes :
    RendersFaithfully ["a", "b", "c", "d"]
      [[none, some "null", some "NULLS", some "\"\\\n\x01é"]] :=
  (rendersFaithfully_iff _ _ (by decide +kernel)).mpr (by decide +kernel)

/-- The text `NULL` is shown as null. -/
theorem null_text_shown_as_null : ¬ RendersFaithfully ["a"] [[some "NULL"]] := by
  intro given
  rcases given with ⟨response, received, shows⟩
  have arrived : receiveRows ["a"] [[some "NULL"]] =
      .ok { columns := ["a"], rows := [["NULL"]] } := by
    decide +kernel
  rw [arrived] at received
  cases received
  rw [read_renderJson, Option.some.injEq, responseValue_eq_iff] at shows
  cases shows

end FunDB.Cli
