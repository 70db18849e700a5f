import FunDB.Foundation.BinarySearch
import FunDB.Foundation.Framing
import FunDB.Foundation.Utf8
import FunDB.Storage.Scan

/-! # Table files by their bytes

A writer sorts what was added and writes it as framed MessagePack values behind
a magic number, with the filter at the end. A reader loads the whole file and
searches it by halving. -/

namespace FunDB.Storage

open BinarySearch Framing KeyedList

/-- What table files take from MessagePack beyond the encoding of keys. -/
structure TableCodec where
  keyFromSlice : List UInt8 → Option RecordKey
  recordToVec : FunRecord → List UInt8
  recordFromSlice : List UInt8 → Option FunRecord
  /-- The words of a filter and its number of hashes. -/
  bloomToVec : List UInt64 × UInt8 → List UInt8
  bloomFromSlice : List UInt8 → Option (List UInt64 × UInt8)

inductive SstableError where
  /-- `read_exact` at the end of the file. -/
  | unexpectedEof
  | invalidMagic
  | deserialise
deriving DecidableEq, Repr

/-! ## Frames -/

def writeFramed (bytes : List UInt8) : List UInt8 :=
  leBytes 4 bytes.length ++ bytes

def readBytes (count : Nat) (file : List UInt8) :
    Except SstableError (List UInt8 × List UInt8) :=
  match takeExact count file with
  | none => .error .unexpectedEof
  | some read => .ok read

def readFramed {Value : Type} (fromSlice : List UInt8 → Option Value) (file : List UInt8) :
    Except SstableError (Value × List UInt8) := do
  let (lenBuf, file) ← readBytes 4 file
  let (buf, file) ← readBytes (leValue lenBuf) file
  match fromSlice buf with
  | none => throw .deserialise
  | some value => return (value, file)

/-! ## Writing -/

/-- "FUNDBSST" -/
def magic : List UInt8 := [0x46, 0x55, 0x4E, 0x44, 0x42, 0x53, 0x53, 0x54]

section Files

variable (platform : Platform) (codec : TableCodec)

def writeEntry (entry : RecordKey × FunRecord) : List UInt8 :=
  writeFramed (platform.encodeKey entry.1) ++ writeFramed (codec.recordToVec entry.2)

def SstableReader.bytes (table : SstableReader) : List UInt8 :=
  magic ++ leBytes 4 table.entries.length ++ table.entries.flatMap (writeEntry platform codec) ++
    writeFramed (codec.bloomToVec (table.bloom.bits, table.bloom.k))

structure SstableWriter where
  entries : List (RecordKey × FunRecord)

namespace SstableWriter

def new : SstableWriter := ⟨[]⟩

def add (writer : SstableWriter) (key : RecordKey) (record : FunRecord) : SstableWriter :=
  ⟨writer.entries ++ [(key, record)]⟩

/-- The file that `finish` writes before it opens it. -/
def finishFile (writer : SstableWriter) : List UInt8 :=
  (finish platform writer.entries).bytes platform codec

def addAll (writer : SstableWriter) (entries : List (RecordKey × FunRecord)) : SstableWriter :=
  entries.foldl (fun writer entry => writer.add entry.1 entry.2) writer

theorem entries_addAll (writer : SstableWriter) (entries : List (RecordKey × FunRecord)) :
    (writer.addAll entries).entries = writer.entries ++ entries := by
  induction entries generalizing writer with
  | nil => simp [addAll]
  | cons entry rest induction =>
      have step : writer.addAll (entry :: rest) = (writer.add entry.1 entry.2).addAll rest := rfl
      rw [step, induction, add, List.append_assoc, List.singleton_append]

end SstableWriter

/-! ## Opening -/

def readEntries : Nat → List UInt8 →
    Except SstableError (List (RecordKey × FunRecord) × List UInt8)
  | 0, file => .ok ([], file)
  | count + 1, file => do
      let (key, file) ← readFramed codec.keyFromSlice file
      let (record, file) ← readFramed codec.recordFromSlice file
      let (entries, file) ← readEntries count file
      return ((key, record) :: entries, file)

def SstableReader.openFile (file : List UInt8) : Except SstableError SstableReader := do
  let (start, file) ← readBytes 8 file
  if start ≠ magic then
    throw .invalidMagic
  let (countBuf, file) ← readBytes 4 file
  let (entries, file) ← readEntries codec (leValue countBuf) file
  let (bloomPayload, _) ← readFramed codec.bloomFromSlice file
  return { entries := entries, bloom := { bits := bloomPayload.1, k := bloomPayload.2 } }

/-! ## Searching -/

/-- `get` by halving. -/
def SstableReader.search (reader : SstableReader) (key : RecordKey) : Option FunRecord :=
  if !reader.mayContain platform key then none
  else
    match binarySearchBy (fun entry => compare entry.1 key) reader.entries with
    | .ok idx => (reader.entries[idx]?).map Prod.snd
    | .error _ => none

/-- `range` from the partition point. -/
def SstableReader.rangeBetween (reader : SstableReader) (first last : RecordKey) :
    List (RecordKey × FunRecord) :=
  let start := partitionPoint (fun entry => entry.1 < first) reader.entries
  (reader.entries.drop start).takeWhile fun entry => entry.1 ≤ last

/-! ## What was written is read -/

/-- MessagePack restores every value of the table, and the length of each frame
is a 32-bit number. -/
structure TableCodec.Stores (table : SstableReader) : Prop where
  keys : ∀ entry ∈ table.entries,
    codec.keyFromSlice (platform.encodeKey entry.1) = some entry.1 ∧
      (platform.encodeKey entry.1).length < 2 ^ 32
  records : ∀ entry ∈ table.entries,
    codec.recordFromSlice (codec.recordToVec entry.2) = some entry.2 ∧
      (codec.recordToVec entry.2).length < 2 ^ 32
  bloom : codec.bloomFromSlice (codec.bloomToVec (table.bloom.bits, table.bloom.k)) =
      some (table.bloom.bits, table.bloom.k) ∧
    (codec.bloomToVec (table.bloom.bits, table.bloom.k)).length < 2 ^ 32

variable {platform codec}

theorem readBytes_append {count : Nat} {front : List UInt8} (length : front.length = count)
    (rest : List UInt8) : readBytes count (front ++ rest) = .ok (front, rest) := by
  rw [readBytes, takeExact_append length]

theorem readFramed_writeFramed {Value : Type} {fromSlice : List UInt8 → Option Value}
    {bytes : List UInt8} {value : Value} (restored : fromSlice bytes = some value)
    (fits : bytes.length < 2 ^ 32) (rest : List UInt8) :
    readFramed fromSlice (writeFramed bytes ++ rest) = .ok (value, rest) := by
  have length : leValue (leBytes 4 bytes.length) = bytes.length := leValue_leBytes_of_lt fits
  rw [writeFramed, List.append_assoc, readFramed, readBytes_append (length_leBytes 4 _)]
  simp only [bind, Except.bind, length, readBytes_append rfl, restored]
  rfl

theorem readEntries_writeEntry {entries : List (RecordKey × FunRecord)}
    (keys : ∀ entry ∈ entries,
      codec.keyFromSlice (platform.encodeKey entry.1) = some entry.1 ∧
        (platform.encodeKey entry.1).length < 2 ^ 32)
    (records : ∀ entry ∈ entries,
      codec.recordFromSlice (codec.recordToVec entry.2) = some entry.2 ∧
        (codec.recordToVec entry.2).length < 2 ^ 32)
    (rest : List UInt8) :
    readEntries codec entries.length (entries.flatMap (writeEntry platform codec) ++ rest) =
      .ok (entries, rest) := by
  induction entries with
  | nil => rfl
  | cons entry entries induction =>
      rcases keys entry List.mem_cons_self with ⟨keyRestored, keyFits⟩
      rcases records entry List.mem_cons_self with ⟨recordRestored, recordFits⟩
      have later := induction (fun other member => keys other (List.mem_cons_of_mem _ member))
        fun other member => records other (List.mem_cons_of_mem _ member)
      rw [List.length_cons, readEntries, List.flatMap_cons, writeEntry]
      simp only [List.append_assoc, readFramed_writeFramed keyRestored keyFits,
        readFramed_writeFramed recordRestored recordFits, later, bind, Except.bind]
      rfl

theorem openFile_bytes {table : SstableReader} (few : table.entries.length < 2 ^ 32)
    (stores : codec.Stores platform table) :
    SstableReader.openFile codec (table.bytes platform codec) = .ok table := by
  have count : leValue (leBytes 4 table.entries.length) = table.entries.length :=
    leValue_leBytes_of_lt few
  have bloomRead := readFramed_writeFramed stores.bloom.1 stores.bloom.2 []
  rw [List.append_nil] at bloomRead
  rw [SstableReader.bytes, SstableReader.openFile, List.append_assoc, List.append_assoc,
    readBytes_append (show magic.length = 8 from rfl)]
  simp only [bind, Except.bind, ne_eq, not_true, if_false, pure, Except.pure,
    readBytes_append (length_leBytes 4 _), count,
    readEntries_writeEntry stores.keys stores.records, bloomRead]

end Files

/-! ## Searching sorted tables -/

section Searching

variable {platform : Platform} {reader : SstableReader}

/-- Keys compare to one key in the order of the table. -/
theorem ascending_compare
    (sorted : reader.entries.Pairwise fun left right => left.1 < right.1) (key : RecordKey) :
    Ascending (probeAt (fun entry : RecordKey × FunRecord => compare entry.1 key) reader.entries)
      reader.entries.length := by
  have earlier : ∀ left right, (within : right < reader.entries.length) → (le : left ≤ right) →
      reader.entries[left].1 ≤ reader.entries[right].1 := by
    intro left right within le
    rcases Nat.lt_or_eq_of_le le with lt | same
    · exact (List.pairwise_iff_getElem.mp sorted left right (by omega) within lt).le
    · subst same
      exact le_rfl
  constructor
  · intro left right le within isBelow
    rw [probeAt_of_lt within, compare_lt_iff_lt] at isBelow
    rw [probeAt_of_lt (le.trans_lt within), compare_lt_iff_lt]
    exact (earlier left right within le).trans_lt isBelow
  · intro left right le within isAbove
    rw [probeAt_of_lt (le.trans_lt within), compare_gt_iff_gt] at isAbove
    rw [probeAt_of_lt within, compare_gt_iff_gt]
    exact lt_of_lt_of_le isAbove (earlier left right within le)

theorem search_eq_get
    (sorted : reader.entries.Pairwise fun left right => left.1 < right.1) (key : RecordKey) :
    reader.search platform key = reader.get platform key := by
  have distinct : (reader.entries.map Prod.fst).Nodup :=
    List.pairwise_map.mpr (sorted.imp fun below => below.ne)
  rw [SstableReader.search, SstableReader.get]
  split
  · rfl
  · cases searched : binarySearchBy (fun entry : RecordKey × FunRecord => compare entry.1 key)
        reader.entries with
    | ok idx =>
        rcases binarySearchBy_ok searched with ⟨entry, held, equal⟩
        have same : entry.1 = key := compare_eq_iff_eq.mp equal
        have member : (entry.1, entry.2) ∈ reader.entries := List.mem_of_getElem? held
        have found := find_of_mem distinct member
        simp only [held, Option.map_some, ← same, found]
    | error position =>
        rcases binarySearchBy_error (ascending_compare sorted key) searched with
          ⟨_, below, above⟩
        symm
        apply (find_eq_none_iff _ _).mpr
        intro named
        rcases List.mem_map.mp named with ⟨entry, member, same⟩
        rcases List.mem_iff_getElem.mp member with ⟨index, within, rfl⟩
        have equal : probeAt (fun entry : RecordKey × FunRecord => compare entry.1 key)
            reader.entries index = .eq := by
          rw [probeAt_of_lt within]
          exact compare_eq_iff_eq.mpr same
        rcases Nat.lt_or_ge index position with early | late
        · rw [below index early] at equal
          cases equal
        · rw [above index late within] at equal
          cases equal

theorem rangeBetween_eq_filter
    (sorted : reader.entries.Pairwise fun left right => left.1 < right.1)
    (first last : RecordKey) :
    reader.rangeBetween first last =
      reader.entries.filter fun entry => first ≤ entry.1 ∧ entry.1 ≤ last := by
  have partitioned : reader.entries.Pairwise fun left right =>
      decide (right.1 < first) = true → decide (left.1 < first) = true := by
    apply sorted.imp
    intro left right below isEarly
    simp only [decide_eq_true_eq] at isEarly ⊢
    exact below.trans isEarly
  rw [SstableReader.rangeBetween, drop_partitionPoint partitioned,
    takeWhile_dropWhile_eq_filter sorted]

end Searching

/-! ## A small table

MessagePack as it is for keys, for records without vectors whose confidence is
one, and for filters; what it restores is given as a list. -/

def packUint (value : Nat) : List UInt8 :=
  if value < 128 then [UInt8.ofNat value]
  else if value < 2 ^ 8 then 0xCC :: beBytes 1 value
  else if value < 2 ^ 16 then 0xCD :: beBytes 2 value
  else if value < 2 ^ 32 then 0xCE :: beBytes 4 value
  else 0xCF :: beBytes 8 value

def packArray (count : Nat) : List UInt8 :=
  if count < 16 then [0x90 + UInt8.ofNat count] else 0xDC :: beBytes 2 count

/-- A string of fewer than 32 bytes. -/
def packStr (text : String) : List UInt8 :=
  let bytes := Utf8.asBytes text
  (0xA0 + UInt8.ofNat bytes.length) :: bytes

def packBytes (bytes : List UInt8) : List UInt8 :=
  packArray bytes.length ++ bytes.flatMap fun byte => packUint byte.toNat

def packKey (key : RecordKey) : List UInt8 :=
  packArray 2 ++ packStr key.collection ++ packBytes key.id.toList

def packRecord (record : FunRecord) : List UInt8 :=
  packArray 17 ++ 0xC4 :: 16 :: record.id.toList ++ packStr record.collection ++
    packUint record.tenant ++ packUint record.sysFrom.toNat ++ packUint record.sysTo.toNat ++
    packUint record.validFrom.toNat ++ packUint record.validTo.toNat ++ packBytes record.data ++
    0x80 :: packArray 0 ++ packArray 0 ++ 0xCA :: [0x3F, 0x80, 0, 0] ++
    (List.replicate 5 (packArray 0)).flatten

def packBloom (payload : List UInt64 × UInt8) : List UInt8 :=
  packArray 2 ++ packArray payload.1.length ++
    payload.1.flatMap (fun word => packUint word.toNat) ++ packUint payload.2.toNat

def packPlatform : Platform := { plainPlatform with encodeKey := packKey }

/-- The codec on the values of a table. -/
def packCodec (table : SstableReader) : TableCodec where
  keyFromSlice bytes := (table.entries.map Prod.fst).find? fun key => packKey key = bytes
  recordToVec := packRecord
  recordFromSlice bytes :=
    (table.entries.map Prod.snd).find? fun record => packRecord record = bytes
  bloomToVec := packBloom
  bloomFromSlice bytes :=
    [(table.bloom.bits, table.bloom.k)].find? fun payload => packBloom payload = bytes

def packEntries : List (RecordKey × FunRecord) :=
  [(makeKey 2, makeRecord []), (makeKey 1, makeRecord [7])]

/-! ## The round trip -/

/-- Entries of distinct keys, added in any order, come back when the file is
opened: point lookups find exactly them, the filter hides none of them, and
ranges list them in the order of their keys. -/
theorem sstable_round_trip (platform : Platform) (codec : TableCodec)
    (entries : List (RecordKey × FunRecord)) (distinct : (entries.map Prod.fst).Nodup)
    (few : entries.length < 2 ^ 32)
    (stores : codec.Stores platform (finish platform entries)) :
    ∃ reader,
      SstableReader.openFile codec
          ((SstableWriter.new.addAll entries).finishFile platform codec) = .ok reader ∧
        (∀ key record, reader.search platform key = some record ↔ (key, record) ∈ entries) ∧
        (∀ entry ∈ entries, reader.mayContain platform entry.1 = true) ∧
        ∀ first last,
          (reader.rangeBetween first last).Pairwise (fun left right => left.1 < right.1) ∧
            ∀ entry, entry ∈ reader.rangeBetween first last ↔
              entry ∈ entries ∧ first ≤ entry.1 ∧ entry.1 ≤ last := by
  let reader := finish platform entries
  have written : reader.Written platform := ⟨entries, distinct, rfl⟩
  have perm : reader.entries.Perm entries := sortByKey_perm entries
  have opened : SstableReader.openFile codec
      ((SstableWriter.new.addAll entries).finishFile platform codec) = .ok reader := by
    rw [SstableWriter.finishFile, SstableWriter.entries_addAll]
    exact openFile_bytes (perm.length_eq ▸ few) stores
  refine ⟨reader, opened, fun key record => ?_, fun entry member => ?_, fun first last => ?_⟩
  · rw [search_eq_get written.sorted, get_finish platform distinct]
    exact ⟨mem_of_find, find_of_mem distinct⟩
  · exact mayContain_finish platform (perm.mem_iff.mpr member)
  · rw [rangeBetween_eq_filter written.sorted]
    refine ⟨written.sorted.filter _, fun entry => ?_⟩
    rw [List.mem_filter, perm.mem_iff, decide_eq_true_eq]

theorem sstable_round_trip_unsorted :
    ∃ reader,
      SstableReader.openFile (packCodec (finish packPlatform packEntries))
          ((SstableWriter.new.addAll packEntries).finishFile packPlatform
            (packCodec (finish packPlatform packEntries))) = .ok reader ∧
        reader.search packPlatform (makeKey 1) = some (makeRecord [7]) := by
  have stores : (packCodec (finish packPlatform packEntries)).Stores packPlatform
      (finish packPlatform packEntries) :=
    { keys := by decide +kernel
      records := by decide +kernel
      bloom := by decide +kernel }
  rcases sstable_round_trip packPlatform _ packEntries (by decide +kernel) (by decide) stores with
    ⟨reader, opened, lookups, _, _⟩
  exact ⟨reader, opened, (lookups _ _).mpr (by decide +kernel)⟩

end FunDB.Storage
