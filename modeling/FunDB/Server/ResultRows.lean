import FunDB.Server.Shortcuts

/-! # Rows of a result

The columns of a result are discovered from its first record. -/

namespace FunDB.Server

open Storage Executor Protocol

variable (platform : HandlerPlatform)

/-- The data of a record. A record without payload has no fields. -/
def dataMap (record : FunRecord) : Option (Dict String DataValue) :=
  if record.data = [] then some ∅ else platform.fromSlice record.data

/-- The data can be decoded, and no field has the name of a system column. -/
def Decodable (record : FunRecord) : Prop :=
  ∃ map, dataMap platform record = some map ∧ "_id" ∉ map ∧ "_confidence" ∉ map

def cellText : Option DataValue → Option String
  | some .null => none
  | none => none
  | some value => some (showValue platform value)

def QueryResult.names (result : QueryResult) : List String :=
  result.columns.map (·.name)

/-- One row for each record, in order, below columns of different names. Each row
holds the values of its record that are to be shown. -/
structure Converted (shown : String → Prop) (batch : RecordBatch) (result : QueryResult) :
    Prop where
  length_rows : result.rows.length = batch.records.length
  width : ∀ row ∈ result.rows, row.length = result.columns.length
  nodup : (QueryResult.names result).Nodup
  cells : ∀ (place : Nat) record map, batch.records[place]? = some record →
    dataMap platform record = some map →
      ∃ row : List (Option String), result.rows[place]? = some row ∧
        row.head? = some (some (platform.ids.toText record.id)) ∧
        row.getLast? = some (some (platform.showConfidence record.confidence)) ∧
          ∀ key value, map.lookup key = some value → shown key →
            ∃ column : Nat, (QueryResult.names result)[column]? = some key ∧
              row[column]? = some (cellText platform (some value))

/-! ## Columns -/

theorem userColumns_eq {record : FunRecord} {map : Dict String DataValue}
    (decoded : dataMap platform record = some map) :
    userColumns platform record.data = map.keys.mergeSort (· ≤ ·) := by
  unfold dataMap at decoded
  rw [userColumns]
  split_ifs at decoded with empty
  · cases decoded
    rw [if_pos empty]
    exact List.mergeSort_nil.symm
  · rw [if_neg empty, decoded]

theorem mem_userColumns_iff {record : FunRecord} {map : Dict String DataValue}
    (decoded : dataMap platform record = some map) (key : String) :
    key ∈ userColumns platform record.data ↔ key ∈ map := by
  rw [userColumns_eq platform decoded, List.mem_mergeSort, AList.mem_keys]

theorem nodup_userColumns {record : FunRecord} {map : Dict String DataValue}
    (decoded : dataMap platform record = some map) :
    (userColumns platform record.data).Nodup := by
  rw [userColumns_eq platform decoded]
  exact (List.mergeSort_perm _ _).nodup_iff.mpr map.nodupKeys

theorem recordRow_eq {record : FunRecord} {map : Dict String DataValue}
    (decoded : dataMap platform record = some map) (columns : List String) :
    recordRow platform columns record =
      some (platform.ids.toText record.id) ::
          columns.map (fun column => cellText platform (map.lookup column)) ++
        [some (platform.showConfidence record.confidence)] := by
  have same : (if record.data = [] then ∅ else (platform.fromSlice record.data).getD ∅) = map := by
    unfold dataMap at decoded
    split_ifs at decoded with empty
    · cases decoded
      rw [if_pos empty]
    · rw [if_neg empty, decoded]
      rfl
  rw [recordRow, same]
  rfl

theorem length_recordRow (columns : List String) (record : FunRecord) :
    (recordRow platform columns record).length = columns.length + 2 := by
  simp [recordRow]

section FirstRecord

variable {batch : RecordBatch} {first : FunRecord} {rest : List FunRecord}
variable (shape : batch.records = first :: rest)

include shape in
theorem batchToQueryResult_eq :
    batchToQueryResult platform batch =
      { columns := ("_id" :: userColumns platform first.data ++ ["_confidence"]).map textColumn
        rows := batch.records.map (recordRow platform (userColumns platform first.data))
        commandTag := s!"SELECT {batch.records.length}" } := by
  unfold batchToQueryResult
  rw [shape]

include shape in
theorem names_batchToQueryResult :
    QueryResult.names (batchToQueryResult platform batch) =
      "_id" :: userColumns platform first.data ++ ["_confidence"] := by
  rw [batchToQueryResult_eq platform shape, QueryResult.names, List.map_map]
  exact List.map_id _

end FirstRecord

/-- The cell of a key stands one behind its place among the user columns. -/
theorem exists_cell {record : FunRecord} {map : Dict String DataValue}
    (decoded : dataMap platform record = some map) {columns : List String} {key : String}
    (member : key ∈ columns) :
    ∃ column : Nat, ("_id" :: columns ++ ["_confidence"])[column]? = some key ∧
      (recordRow platform columns record)[column]? = some (cellText platform (map.lookup key)) := by
  rcases List.mem_iff_getElem?.mp member with ⟨column, found⟩
  have inside : column < columns.length := (List.getElem?_eq_some_iff.mp found).1
  refine ⟨column + 1, ?_, ?_⟩
  · rw [List.cons_append, List.getElem?_cons_succ, List.getElem?_append_left inside, found]
  · rw [recordRow_eq platform decoded, List.cons_append, List.getElem?_cons_succ,
      List.getElem?_append_left (by simpa using inside), List.getElem?_map, found]
    rfl

/-- A result shows the fields that its first record has. -/
theorem batchToQueryResult_converted {batch : RecordBatch} {first : FunRecord}
    {rest : List FunRecord} (shape : batch.records = first :: rest)
    (decodable : ∀ record ∈ batch.records, Decodable platform record) :
    Converted platform (fun key => ∃ map, dataMap platform first = some map ∧ key ∈ map) batch
      (batchToQueryResult platform batch) := by
  have present : first ∈ batch.records := by
    rw [shape]
    exact List.mem_cons_self
  rcases decodable first present with ⟨firstMap, firstDecoded, noId, noConfidence⟩
  have result := batchToQueryResult_eq platform shape
  have names := names_batchToQueryResult platform shape
  have width : (batchToQueryResult platform batch).columns.length =
      (userColumns platform first.data).length + 2 := by
    rw [result, List.length_map]
    simp
  constructor
  · rw [result, List.length_map]
  · intro row member
    rw [result] at member
    rcases List.mem_map.mp member with ⟨record, _, written⟩
    rw [← written, length_recordRow, width]
  · rw [names, List.cons_append, List.nodup_cons, List.nodup_append]
    refine ⟨?_, nodup_userColumns platform firstDecoded, List.nodup_singleton _, ?_⟩
    · intro member
      rcases List.mem_append.mp member with inside | last
      · exact noId ((mem_userColumns_iff platform firstDecoded _).mp inside)
      · revert last
        decide
    · intro key member other last same
      rw [List.mem_singleton.mp last] at same
      subst same
      exact noConfidence ((mem_userColumns_iff platform firstDecoded _).mp member)
  · intro place record map found decoded
    refine ⟨recordRow platform (userColumns platform first.data) record, ?_, ?_, ?_, ?_⟩
    · rw [result, List.getElem?_map, found]
      rfl
    · rw [recordRow_eq platform decoded]
      rfl
    · rw [recordRow_eq platform decoded, List.getLast?_append_of_ne_nil _ (by simp)]
      rfl
    · intro key value held known
      rcases known with ⟨other, otherDecoded, member⟩
      rw [firstDecoded] at otherDecoded
      cases otherDecoded
      rw [names, ← held]
      have listed := (mem_userColumns_iff platform firstDecoded key).mpr member
      exact exists_cell platform decoded listed

/-! ## Two records with different fields -/

/-- Decoding of maps with at most one small field, `a` or `b`. -/
def decodeSmallMap : List UInt8 → Option (Dict String DataValue)
  | [0x80] => some ∅
  | [0x81, 0xA1, 0x61, value] =>
      if value < 0x80 then some (AList.singleton "a" (.int value.toNat)) else none
  | [0x81, 0xA1, 0x62, value] =>
      if value < 0x80 then some (AList.singleton "b" (.int value.toNat)) else none
  | _ => none

def smallMapPlatform : HandlerPlatform :=
  { plainHandlerPlatform with fromSlice := decodeSmallMap }

def mixedBatch : RecordBatch where
  keys := [makeKey 1, makeKey 2]
  records := [makeRecord [0x81, 0xA1, 0x61, 1], makeRecord [0x81, 0xA1, 0x62, 2]]
  parallel := rfl

theorem decodable_mixedBatch (record : FunRecord) (member : record ∈ mixedBatch.records) :
    Decodable smallMapPlatform record := by
  rcases List.mem_pair.mp member with same | same
  · subst same
    exact ⟨AList.singleton "a" (.int 1), rfl, by decide, by decide⟩
  · subst same
    exact ⟨AList.singleton "b" (.int 2), rfl, by decide, by decide⟩

theorem batchToQueryResult_converted_mixed :
    Converted smallMapPlatform
      (fun key => ∃ map, dataMap smallMapPlatform (makeRecord [0x81, 0xA1, 0x61, 1]) = some map ∧
        key ∈ map) mixedBatch (batchToQueryResult smallMapPlatform mixedBatch) :=
  batchToQueryResult_converted smallMapPlatform rfl decodable_mixedBatch

/-- The second record has a field that the first one has not. -/
theorem later_field_not_shown :
    (∀ record ∈ mixedBatch.records, Decodable smallMapPlatform record) ∧
      ¬Converted smallMapPlatform (fun _ => True) mixedBatch
        (batchToQueryResult smallMapPlatform mixedBatch) := by
  refine ⟨decodable_mixedBatch, ?_⟩
  intro converted
  rcases converted.cells 1 _ (AList.singleton "b" (.int 2)) rfl rfl with ⟨row, _, _, _, cells⟩
  rcases cells "b" (.int 2) rfl trivial with ⟨column, named, _⟩
  have member : "b" ∈ QueryResult.names (batchToQueryResult smallMapPlatform mixedBatch) :=
    List.mem_of_getElem? named
  rw [names_batchToQueryResult smallMapPlatform rfl] at member
  rcases List.mem_append.mp member with front | last
  · rcases List.mem_cons.mp front with system | user
    · revert system
      decide
    · have decoded : dataMap smallMapPlatform (makeRecord [0x81, 0xA1, 0x61, 1]) =
          some (AList.singleton "a" (.int 1)) := rfl
      have known := (mem_userColumns_iff smallMapPlatform decoded "b").mp user
      revert known
      decide
  · revert last
    decide

end FunDB.Server
