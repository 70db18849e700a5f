import FunDB.Core.BloomFilter
import FunDB.Core.Record
import FunDB.Foundation.Extremum
import FunDB.Foundation.FallibleRuns
import FunDB.Foundation.Framing
import FunDB.Foundation.Utf8

/-! # Column pages

The records of a page one behind the other, and their confidences once more in a
column of their own. A header keeps what a reader can skip the page by. -/

namespace FunDB

open Extremum FallibleRuns Framing

universe u

/-- A record as a page sees it: its identifier, its confidence as the bits of a
float, and whatever else it holds. -/
structure PageRecord (Fields : Type u) where
  id : Uuid
  confidence : UInt32
  fields : Fields
deriving DecidableEq, Repr

/-- What pages take from libraries: MessagePack, the hash functions of the filter
and the arithmetic of floats. -/
structure PageCodec (Fields : Type u) where
  encode : PageRecord Fields → Option (List UInt8)
  /-- The record at the front of a stream, and the stream behind it. -/
  fromRead : List UInt8 → Option (PageRecord Fields × List UInt8)
  bloom : BloomParameters
  /-- `(confidence * 100.0).round() as usize` -/
  percent : UInt32 → Nat

structure PageHeader where
  minKey : List UInt8
  maxKey : List UInt8
  rowCount : Nat
  bloomFilter : BloomFilter
  confidenceHistogram : Vector UInt32 100

inductive PageError where
  | emptySlice
  | encode
  /-- The panic of `unwrap` on a missing key. -/
  | unwrapNone
  | tooShort (length : Nat)
  | shorterThanExpected (expected length : Nat)
  | rowCount (header encoded : Nat)
  | decodeRecord (index : Nat)
  | decodedCount (decoded expected : Nat)
deriving DecidableEq, Repr

/-- Bytes compare as the list of their values. -/
def bytesRank (bytes : List UInt8) : List Nat := bytes.map UInt8.toNat

namespace PageRecord

variable {Fields : Type u}

def keyBytes (record : PageRecord Fields) : List UInt8 := record.id.toList

end PageRecord

/-! ## Encoding -/

namespace PageEncoder

variable {Fields : Type u} (codec : PageCodec Fields)

/-- What the loop over the records fills. -/
structure Columns where
  msgpackBuf : List UInt8
  confidences : List UInt32
  minKey : Option (List UInt8)
  maxKey : Option (List UInt8)
  bloom : BloomFilter
  histogram : Vector UInt32 100

def start (count : Nat) : Columns where
  msgpackBuf := []
  confidences := []
  minKey := none
  maxKey := none
  bloom := BloomFilter.new codec.bloom (max count 1) (1 / 100)
  histogram := Vector.replicate 100 0

/-- The bucket of a confidence. The last one takes everything above. -/
def bucket (confidence : UInt32) : Fin 100 :=
  ⟨min (codec.percent confidence) 99, by omega⟩

def addRecord (columns : Columns) (record : PageRecord Fields) : Option Columns := do
  let encoded ← codec.encode record
  let key := record.keyBytes
  let bucket := bucket codec record.confidence
  return {
    msgpackBuf := columns.msgpackBuf ++ encoded
    confidences := columns.confidences ++ [record.confidence]
    minKey := lowered bytesRank columns.minKey key
    maxKey := lowered (fun key => OrderDual.toDual (bytesRank key)) columns.maxKey key
    bloom := columns.bloom.insert codec.bloom key
    histogram := columns.histogram.set bucket (columns.histogram[bucket] + 1) }

/-- The page with these columns. Both numbers are cut to 32 bits. -/
def assemble (recordCount : Nat) (columns : Columns) : List UInt8 :=
  leBytes 4 recordCount ++ leBytes 4 columns.msgpackBuf.length ++ columns.msgpackBuf ++
    columns.confidences.flatMap fun confidence => leBytes 4 confidence.toNat

def encode (records : List (PageRecord Fields)) :
    Except PageError (PageHeader × List UInt8) :=
  if records.isEmpty then .error .emptySlice
  else
    match attempt (addRecord codec) (start codec records.length) records with
    | none => .error .encode
    | some columns =>
      match columns.minKey, columns.maxKey with
      | some minKey, some maxKey =>
        .ok
          ({ minKey := minKey
             maxKey := maxKey
             rowCount := records.length % 2 ^ 32
             bloomFilter := columns.bloom
             confidenceHistogram := columns.histogram },
            assemble records.length columns)
      | _, _ => .error .unwrapNone

end PageEncoder

/-! ## Decoding -/

namespace PageDecoder

variable {Fields : Type u} (codec : PageCodec Fields)

/-- `data[first..last]` -/
def slice (data : List UInt8) (first last : Nat) : List UInt8 :=
  (data.drop first).take (last - first)

/-- The loop over the concatenated records. -/
def readRecords : Nat → Nat → List UInt8 → Except PageError (List (PageRecord Fields))
  | 0, _, _ => .ok []
  | count + 1, index, cursor =>
      match codec.fromRead cursor with
      | none => .error (.decodeRecord index)
      | some (record, cursor) =>
        match readRecords count (index + 1) cursor with
        | .error problem => .error problem
        | .ok records => .ok (record :: records)

def readConfidences (count : Nat) (column : List UInt8) : List UInt32 :=
  (List.range count).map fun i => UInt32.ofNat (leValue (slice column (i * 4) (i * 4 + 4)))

/-- Each confidence goes to the record of its place. -/
def reattach : List (PageRecord Fields) → List UInt32 → List (PageRecord Fields)
  | record :: records, confidence :: confidences =>
      { record with confidence := confidence } :: reattach records confidences
  | records, _ => records

def decode (header : PageHeader) (data : List UInt8) :
    Except PageError (List (PageRecord Fields)) :=
  if data.length < 8 then .error (.tooShort data.length)
  else
    let recordCount := leValue (slice data 0 4)
    let msgpackLen := leValue (slice data 4 8)
    let expectedMin := 8 + msgpackLen + recordCount * 4
    if data.length < expectedMin then .error (.shorterThanExpected expectedMin data.length)
    else if recordCount ≠ header.rowCount then .error (.rowCount header.rowCount recordCount)
    else
      let msgpackSection := slice data 8 (8 + msgpackLen)
      let confSection := slice data (8 + msgpackLen) (8 + msgpackLen + recordCount * 4)
      let confidences := readConfidences recordCount confSection
      match readRecords codec recordCount 0 msgpackSection with
      | .error problem => .error problem
      | .ok records =>
        if records.length ≠ recordCount then .error (.decodedCount records.length recordCount)
        else .ok (reattach records confidences)

end PageDecoder

/-! ## The columns of a page -/

variable {Fields : Type u}

namespace PageCodec

variable (codec : PageCodec Fields)

/-- MessagePack writes each of the records, and reads it back from the front of
any stream that begins with it. -/
def Restores (records : List (PageRecord Fields)) : Prop :=
  ∀ record ∈ records, ∃ bytes, codec.encode record = some bytes ∧
    ∀ rest, codec.fromRead (bytes ++ rest) = some (record, rest)

def concatenated (records : List (PageRecord Fields)) : List UInt8 :=
  records.flatMap fun record => (codec.encode record).getD []

end PageCodec

def histogramTotal (histogram : Vector UInt32 100) : Nat :=
  (histogram.toList.map UInt32.toNat).sum

theorem histogramTotal_new : histogramTotal (Vector.replicate 100 0) = 0 := by
  decide

theorem sum_set_add (counts : List Nat) {place : Nat} (within : place < counts.length)
    (count : Nat) : (counts.set place count).sum + counts[place] = counts.sum + count := by
  induction counts generalizing place with
  | nil => exact absurd within (Nat.not_lt_zero place)
  | cons first counts induction =>
      cases place with
      | zero =>
          simp only [List.set_cons_zero, List.getElem_cons_zero, List.sum_cons]
          omega
      | succ place =>
          have later := induction (Nat.lt_of_succ_lt_succ within)
          simp only [List.set_cons_succ, List.getElem_cons_succ, List.sum_cons]
          omega

/-- One more record is counted, as long as 32 bits suffice. -/
theorem histogramTotal_set (histogram : Vector UInt32 100) (bucket : Fin 100)
    (few : histogramTotal histogram + 1 < 2 ^ 32) :
    histogramTotal (histogram.set bucket (histogram[bucket] + 1)) =
      histogramTotal histogram + 1 := by
  have within : bucket.val < (histogram.toList.map UInt32.toNat).length := by simp
  have counted : (histogram.toList.map UInt32.toNat)[bucket.val] = histogram[bucket].toNat := by
    simp
  have single : histogram[bucket].toNat ≤ histogramTotal histogram := by
    have zeroed := sum_set_add _ within 0
    rw [counted] at zeroed
    rw [histogramTotal]
    omega
  have more : (histogram[bucket] + 1).toNat = histogram[bucket].toNat + 1 := by
    rw [UInt32.toNat_add]
    exact Nat.mod_eq_of_lt (by change histogram[bucket].toNat + 1 < 2 ^ 32; omega)
  have changed := sum_set_add _ within (histogram[bucket] + 1).toNat
  rw [counted, more] at changed
  rw [histogramTotal, Vector.toList_set, List.map_set, more]
  rw [histogramTotal] at few ⊢
  omega

namespace PageEncoder

variable (codec : PageCodec Fields)

/-- What the columns hold after some of the records. -/
structure Holds (count : Nat) (done : List (PageRecord Fields)) (columns : Columns) : Prop where
  msgpack : columns.msgpackBuf = codec.concatenated done
  confidences : columns.confidences = done.map PageRecord.confidence
  low : ∀ record ∈ done, ∃ key, columns.minKey = some key ∧
    bytesRank key ≤ bytesRank record.keyBytes
  high : ∀ record ∈ done, ∃ key, columns.maxKey = some key ∧
    bytesRank record.keyBytes ≤ bytesRank key
  bloom : columns.bloom = (done.map PageRecord.keyBytes).foldl
    (fun bloom key => bloom.insert codec.bloom key) (start codec count).bloom
  counted : done.length < 2 ^ 32 → histogramTotal columns.histogram = done.length

theorem holds_start (count : Nat) :
    Holds codec count ([] : List (PageRecord Fields)) (start codec count) where
  msgpack := rfl
  confidences := rfl
  low _ member := by cases member
  high _ member := by cases member
  bloom := rfl
  counted _ := histogramTotal_new

/-- A bound of the earlier records that a new one only moves outwards bounds all
of them. -/
theorem bounds_concat {Bound : Type} [LinearOrder Bound] (rank : List UInt8 → Bound)
    {kept : Option (List UInt8)} {done : List (PageRecord Fields)}
    (bounded : ∀ record ∈ done, ∃ key, kept = some key ∧ rank key ≤ rank record.keyBytes)
    (record : PageRecord Fields) :
    ∀ other ∈ done ++ [record], ∃ key, lowered rank kept record.keyBytes = some key ∧
      rank key ≤ rank other.keyBytes := by
  rcases exists_lowered rank kept record.keyBytes with ⟨low, result, below, others⟩
  intro other member
  refine ⟨low, result, ?_⟩
  rcases List.mem_append.mp member with earlier | last
  · rcases bounded other earlier with ⟨key, held, bound⟩
    exact (others key held).trans bound
  · rw [List.mem_singleton.mp last]
    exact below

theorem holds_addRecord {count : Nat} {done : List (PageRecord Fields)} {columns after : Columns}
    {record : PageRecord Fields} (holds : Holds codec count done columns)
    (added : addRecord codec columns record = some after) :
    Holds codec count (done ++ [record]) after := by
  rcases Option.bind_eq_some_iff.mp added with ⟨encoded, isEncoded, built⟩
  cases built
  constructor
  · rw [holds.msgpack, PageCodec.concatenated, PageCodec.concatenated, List.flatMap_append,
      List.flatMap_singleton, isEncoded, Option.getD_some]
  · rw [holds.confidences, List.map_append]
    rfl
  · exact bounds_concat bytesRank holds.low record
  · exact bounds_concat (fun key => OrderDual.toDual (bytesRank key)) holds.high record
  · rw [holds.bloom, List.map_append, List.foldl_append]
    rfl
  · intro few
    rw [List.length_append, List.length_singleton] at few ⊢
    have before := holds.counted (Nat.lt_of_succ_lt few)
    dsimp only
    rw [histogramTotal_set _ _ (by omega), before]

/-- What `encode` makes of records that MessagePack writes. -/
theorem encode_spec {records : List (PageRecord Fields)} (nonempty : records ≠ [])
    (restores : codec.Restores records) :
    ∃ columns minKey maxKey, Holds codec records.length records columns ∧
      columns.minKey = some minKey ∧ columns.maxKey = some maxKey ∧
      encode codec records = .ok
        ({ minKey := minKey
           maxKey := maxKey
           rowCount := records.length % 2 ^ 32
           bloomFilter := columns.bloom
           confidenceHistogram := columns.histogram },
          assemble records.length columns) := by
  have taken : ∀ record ∈ records, ∀ columns, (addRecord codec columns record).isSome := by
    intro record member columns
    rcases restores record member with ⟨bytes, encoded, _⟩
    simp [addRecord, encoded]
  have goesThrough : ∃ columns,
      attempt (addRecord codec) (start codec records.length) records = some columns :=
    exists_attempt (addRecord codec) taken
  rcases goesThrough with ⟨columns, reached⟩
  have holds := attempt_invariant (addRecord codec) (Holds codec records.length)
    (holds_start codec records.length)
    (fun _ _ _ _ before added => holds_addRecord codec before added) reached
  rcases List.exists_mem_of_ne_nil records nonempty with ⟨record, member⟩
  rcases holds.low record member with ⟨minKey, isMin, _⟩
  rcases holds.high record member with ⟨maxKey, isMax, _⟩
  refine ⟨columns, minKey, maxKey, holds, isMin, isMax, ?_⟩
  rw [encode, if_neg (by simpa using nonempty), reached]
  simp only [isMin, isMax]

end PageEncoder

namespace PageDecoder

variable (codec : PageCodec Fields)

/-- The part of the data between a front and what follows. -/
theorem slice_append (front middle rest : List UInt8) {first last : Nat}
    (start : front.length = first) (finish : first + middle.length = last) :
    slice (front ++ (middle ++ rest)) first last = middle := by
  subst start finish
  rw [slice, List.drop_left, Nat.add_sub_cancel_left, List.take_left]

theorem readRecords_concatenated {records : List (PageRecord Fields)}
    (restores : codec.Restores records) (index : Nat) :
    readRecords codec records.length index (codec.concatenated records) = .ok records := by
  induction records generalizing index with
  | nil => rfl
  | cons record records induction =>
      rcases restores record List.mem_cons_self with ⟨bytes, encoded, isRead⟩
      have later := induction fun other member => restores other (List.mem_cons_of_mem _ member)
      have split : codec.concatenated (record :: records) =
          bytes ++ codec.concatenated records := by
        rw [PageCodec.concatenated, List.flatMap_cons, encoded, Option.getD_some]
        rfl
      rw [split, List.length_cons, readRecords, isRead]
      simp only [later]

/-- Behind a front the data is cut as if it began there. -/
theorem slice_skip {front : List UInt8} {length : Nat} (whole : front.length = length)
    (rest : List UInt8) (first last : Nat) :
    slice (front ++ rest) (length + first) (length + last) = slice rest first last := by
  subst whole
  rw [slice, slice, List.drop_length_add_append, Nat.add_sub_add_left]

/-- The column holds the bits of the floats, lowest byte first. -/
theorem readConfidences_column (confidences : List UInt32) :
    readConfidences confidences.length
      (confidences.flatMap fun confidence => leBytes 4 confidence.toNat) = confidences := by
  induction confidences with
  | nil => rfl
  | cons confidence confidences induction =>
      have bits : leValue (leBytes 4 confidence.toNat) = confidence.toNat :=
        leValue_leBytes_of_lt confidence.toNat_lt
      rw [readConfidences, List.length_cons, List.range_succ_eq_map, List.map_cons, List.map_map,
        List.flatMap_cons]
      congr 1
      · rw [slice, List.drop_zero, show 0 * 4 + 4 - 0 * 4 = 4 from rfl,
          List.take_left' (length_leBytes 4 _), bits, UInt32.ofNat_toNat]
      · refine Eq.trans ?_ induction
        rw [readConfidences]
        apply List.map_congr_left
        intro place _
        have next : slice (leBytes 4 confidence.toNat ++
              confidences.flatMap fun confidence => leBytes 4 confidence.toNat)
            (4 + place * 4) (4 + (place * 4 + 4)) =
              slice (confidences.flatMap fun confidence => leBytes 4 confidence.toNat)
                (place * 4) (place * 4 + 4) :=
          slice_skip (length_leBytes 4 _) _ _ _
        have index : place.succ * 4 = 4 + place * 4 := by omega
        rw [Function.comp_apply, index, Nat.add_assoc, next]

theorem reattach_own (records : List (PageRecord Fields)) :
    reattach records (records.map PageRecord.confidence) = records := by
  induction records with
  | nil => rfl
  | cons record records induction =>
      rw [List.map_cons, reattach, induction]

theorem length_column (confidences : List UInt32) :
    (confidences.flatMap fun confidence => leBytes 4 confidence.toNat).length =
      confidences.length * 4 := by
  induction confidences with
  | nil => rfl
  | cons confidence confidences induction =>
      rw [List.flatMap_cons, List.length_append, length_leBytes, induction, List.length_cons]
      omega

/-- A page is decoded by the sections that it was assembled from. -/
theorem decode_assemble {records : List (PageRecord Fields)} {header : PageHeader}
    {columns : PageEncoder.Columns} (few : records.length < 2 ^ 32)
    (restores : codec.Restores records) (short : (codec.concatenated records).length < 2 ^ 32)
    (msgpack : columns.msgpackBuf = codec.concatenated records)
    (confidences : columns.confidences = records.map PageRecord.confidence)
    (rowCount : header.rowCount = records.length) :
    decode codec header (PageEncoder.assemble records.length columns) = .ok records := by
  have countValue : leValue (leBytes 4 records.length) = records.length :=
    leValue_leBytes_of_lt few
  have lenValue : leValue (leBytes 4 (codec.concatenated records).length) =
      (codec.concatenated records).length := leValue_leBytes_of_lt short
  have read := readRecords_concatenated codec restores 0
  have column := readConfidences_column (records.map PageRecord.confidence)
  have columnLength := length_column (records.map PageRecord.confidence)
  rw [List.length_map] at column columnLength
  rw [PageEncoder.assemble, msgpack, confidences]
  generalize codec.concatenated records = packed at *
  generalize ((records.map PageRecord.confidence).flatMap fun confidence =>
    leBytes 4 confidence.toNat) = floats at *
  let data := leBytes 4 records.length ++ leBytes 4 packed.length ++ packed ++ floats
  have length : data.length = 8 + packed.length + records.length * 4 := by
    simp only [data, List.length_append, length_leBytes, columnLength]
  have countSlice : slice data 0 4 = leBytes 4 records.length := by
    simpa [data] using slice_append [] (leBytes 4 records.length)
      (leBytes 4 packed.length ++ (packed ++ floats)) rfl rfl
  have lenSlice : slice data 4 8 = leBytes 4 packed.length := by
    simpa [data] using slice_append (leBytes 4 records.length) (leBytes 4 packed.length)
      (packed ++ floats) rfl rfl
  have packedSlice : slice data 8 (8 + packed.length) = packed := by
    simpa [data] using slice_append (leBytes 4 records.length ++ leBytes 4 packed.length) packed
      floats rfl rfl
  have floatSlice : slice data (8 + packed.length) (8 + packed.length + records.length * 4) =
      floats := by
    have start : (leBytes 4 records.length ++ leBytes 4 packed.length ++ packed).length =
        8 + packed.length := by
      rw [List.length_append, List.length_append, length_leBytes, length_leBytes]
    simpa [data] using slice_append
      (leBytes 4 records.length ++ leBytes 4 packed.length ++ packed) floats [] start
      (by rw [columnLength])
  change decode codec header data = .ok records
  simp only [decode, countSlice, lenSlice, countValue, lenValue, packedSlice, floatSlice, read,
    column, length, rowCount]
  rw [if_neg (by omega), if_neg (by omega), if_neg (by simp), if_neg (by simp), reattach_own]

end PageDecoder

/-! ## A small page

MessagePack as it is for records whose other fields are as the builder leaves
them; what it restores is given as a list. -/

namespace SamplePage

def packName (name : String) : List UInt8 :=
  (0xA0 + UInt8.ofNat (Utf8.asBytes name).length) :: Utf8.asBytes name

def packTimestamp (timestamp : Timestamp) : List UInt8 := 0xCF :: beBytes 8 timestamp.toNat

def packRecord (record : PageRecord Unit) : List UInt8 :=
  [0xDE, 0, 17] ++ packName "_id" ++ 0xC4 :: 16 :: record.keyBytes ++ packName "_collection" ++
    packName "pages" ++ packName "_tenant" ++ 0 :: packName "_sys_from" ++
    packTimestamp 1700000000000000000 ++ packName "_sys_to" ++ packTimestamp maxTimestamp ++
    packName "_valid_from" ++ 0 :: packName "_valid_to" ++ packTimestamp maxTimestamp ++
    packName "data" ++ 0x90 :: packName "_vectors" ++ 0x80 :: packName "_edges" ++
    0x90 :: packName "_timeseries" ++ 0x90 :: packName "_confidence" ++
    0xCA :: beBytes 4 record.confidence.toNat ++ packName "_sources" ++
    0x90 :: packName "_supports" ++ 0x90 :: packName "_contradicts" ++
    0x90 :: packName "_caused_by" ++ 0x90 :: packName "_effects" ++ [0x90]

/-- Records of confidence 0.9 and 1. -/
def records : List (PageRecord Unit) :=
  [⟨Uuid.ofByte 1, 0x3F666666, ()⟩, ⟨Uuid.ofByte 2, 0x3F800000, ()⟩]

def codec : PageCodec Unit where
  encode record := some (packRecord record)
  fromRead cursor :=
    (records.find? fun record => packRecord record <+: cursor).map fun record =>
      (record, cursor.drop (packRecord record).length)
  bloom :=
    { xxh3 := fun bytes => bytes.foldl (fun hash byte => hash * 31 + byte.toUInt64) 7
      xxh3WithSeed := fun bytes seed =>
        bytes.foldl (fun hash byte => hash * 37 + byte.toUInt64) seed
      optimalBits := fun capacity _ => 10 * capacity
      optimalHashes := fun bits capacity => UInt8.ofNat (bits * 7 / (capacity * 10)) }
  percent bits := if bits = 0x3F666666 then 90 else 100

theorem restores : codec.Restores records := by
  have apart : ¬ packRecord ⟨Uuid.ofByte 1, 0x3F666666, ()⟩ <+:
      packRecord ⟨Uuid.ofByte 2, 0x3F800000, ()⟩ := by
    decide
  have sameLength : (packRecord ⟨Uuid.ofByte 1, 0x3F666666, ()⟩).length ≤
      (packRecord ⟨Uuid.ofByte 2, 0x3F800000, ()⟩).length := by
    decide +kernel
  intro record member
  refine ⟨packRecord record, rfl, fun rest => ?_⟩
  have found : (records.find? fun other => packRecord other <+: packRecord record ++ rest) =
      some record := by
    rw [records, List.mem_cons, List.mem_singleton] at member
    rcases member with rfl | rfl
    · exact List.find?_cons_of_pos (by simp)
    · rw [records, List.find?_cons_of_neg, List.find?_cons_of_pos (by simp)]
      intro early
      have isPrefix := List.prefix_of_prefix_length_le (of_decide_eq_true early)
        (List.prefix_append _ rest) sameLength
      exact apart isPrefix
  simp only [codec, found, Option.map_some, List.drop_left]

end SamplePage

/-- A page of records with an encoding each is decoded as these records. Its
header bounds all identifiers, its filter contains them, and its histogram counts
each record once. -/
theorem page_round_trip (codec : PageCodec Fields) (records : List (PageRecord Fields))
    (nonempty : records ≠ []) (few : records.length < 2 ^ 32) (restores : codec.Restores records)
    (short : (codec.concatenated records).length < 2 ^ 32) :
    ∃ header data, PageEncoder.encode codec records = .ok (header, data) ∧
      PageDecoder.decode codec header data = .ok records ∧
      (∀ record ∈ records, bytesRank header.minKey ≤ bytesRank record.keyBytes ∧
        bytesRank record.keyBytes ≤ bytesRank header.maxKey) ∧
      (∀ record ∈ records,
        header.bloomFilter.contains codec.bloom record.keyBytes = true) ∧
      histogramTotal header.confidenceHistogram = records.length := by
  rcases PageEncoder.encode_spec codec nonempty restores with
    ⟨columns, minKey, maxKey, holds, isMin, isMax, encoded⟩
  refine ⟨_, _, encoded, ?_, ?_, ?_, holds.counted few⟩
  · exact PageDecoder.decode_assemble codec few restores short holds.msgpack holds.confidences
      (Nat.mod_eq_of_lt few)
  · intro record member
    rcases holds.low record member with ⟨low, isLow, below⟩
    rcases holds.high record member with ⟨high, isHigh, above⟩
    cases isMin.symm.trans isLow
    cases isMax.symm.trans isHigh
    exact ⟨below, above⟩
  · intro record member
    dsimp only
    rw [holds.bloom]
    exact BloomFilter.contains_of_mem_inserted codec.bloom _ (BloomFilter.new_m_pos _ _ _)
      (List.mem_map_of_mem member)

theorem page_round_trip_two :
    ∃ header data, PageEncoder.encode SamplePage.codec SamplePage.records = .ok (header, data) ∧
      PageDecoder.decode SamplePage.codec header data = .ok SamplePage.records ∧
      histogramTotal header.confidenceHistogram = 2 := by
  rcases page_round_trip SamplePage.codec SamplePage.records (by decide) (by decide)
      SamplePage.restores (by decide +kernel) with ⟨header, data, encoded, decoded, _, _, counted⟩
  exact ⟨header, data, encoded, decoded, counted⟩

end FunDB
