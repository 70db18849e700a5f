import FunDB.Storage.Scan

/-! # Collection scans

A collection is scanned as a range of keys, from its own name up to the name
followed by DEL. The range also holds the collections whose names extend it by
something that is not above DEL. -/

namespace FunDB.Executor

open Storage KeyedList

/-! ## Batches -/

/-- Keys and records in parallel columns. -/
structure RecordBatch where
  keys : List RecordKey
  records : List FunRecord
  parallel : keys.length = records.length

namespace RecordBatch

def new : RecordBatch where
  keys := []
  records := []
  parallel := rfl

def push (batch : RecordBatch) (key : RecordKey) (record : FunRecord) : RecordBatch where
  keys := batch.keys ++ [key]
  records := batch.records ++ [record]
  parallel := by simp [batch.parallel]

def extend (batch : RecordBatch) (pairs : List (RecordKey × FunRecord)) : RecordBatch :=
  pairs.foldl (fun batch pair => batch.push pair.1 pair.2) batch

def truncate (batch : RecordBatch) (count : Nat) : RecordBatch where
  keys := batch.keys.take count
  records := batch.records.take count
  parallel := by simp [batch.parallel]

def rows (batch : RecordBatch) : List (RecordKey × FunRecord) :=
  batch.keys.zip batch.records

@[simp] theorem rows_new : new.rows = [] := rfl

@[simp] theorem rows_push (batch : RecordBatch) (key : RecordKey) (record : FunRecord) :
    (batch.push key record).rows = batch.rows ++ [(key, record)] := by
  rw [rows, push, List.zip_append batch.parallel]
  rfl

@[simp] theorem rows_extend (batch : RecordBatch) (pairs : List (RecordKey × FunRecord)) :
    (batch.extend pairs).rows = batch.rows ++ pairs := by
  induction pairs generalizing batch with
  | nil => simp [extend]
  | cons pair pairs induction =>
      have step : batch.extend (pair :: pairs) = (batch.push pair.1 pair.2).extend pairs := rfl
      rw [step, induction, rows_push, List.append_assoc]
      rfl

@[simp] theorem rows_truncate (batch : RecordBatch) (count : Nat) :
    (batch.truncate count).rows = batch.rows.take count := by
  simp only [rows, truncate, List.zip_eq_zipWith, List.take_zipWith]

theorem ext_rows {left right : RecordBatch} (same : left.rows = right.rows) :
    left = right := by
  rcases left with ⟨keys, records, parallel⟩
  rcases right with ⟨otherKeys, otherRecords, otherParallel⟩
  have sameKeys : keys = otherKeys := by
    have firsts := congrArg (List.map Prod.fst) same
    rwa [rows, rows, List.map_fst_zip parallel.le, List.map_fst_zip otherParallel.le] at firsts
  have sameRecords : records = otherRecords := by
    have seconds := congrArg (List.map Prod.snd) same
    rwa [rows, rows, List.map_snd_zip parallel.ge, List.map_snd_zip otherParallel.ge] at seconds
  subst sameKeys sameRecords
  rfl

end RecordBatch

/-! ## The range of a collection -/

def firstKey (collection : String) : RecordKey where
  collection := collection
  id := Vector.replicate 16 0

/-- "The upper bound uses a collection name with the ASCII DEL character (0x7F)
appended, which sorts after every valid collection-prefixed key." -/
def lastKey (collection : String) : RecordKey where
  collection := collection ++ "\x7f"
  id := Vector.replicate 16 0xff

theorem rank_le_iff (left right : RecordKey) :
    left ≤ right ↔ left.collection < right.collection ∨
      left.collection = right.collection ∧
        left.id.toList.map UInt8.toNat ≤ right.id.toList.map UInt8.toNat :=
  Prod.Lex.toLex_le_toLex

theorem firstKey_le_iff (collection : String) (key : RecordKey) :
    firstKey collection ≤ key ↔ collection ≤ key.collection := by
  have least : (firstKey collection).id.toList.map UInt8.toNat ≤ key.id.toList.map UInt8.toNat := by
    have below := replicate_le (key.id.toList.map UInt8.toNat) fun _ _ => Nat.zero_le _
    rw [List.length_map, Vector.length_toList] at below
    exact below
  rw [rank_le_iff]
  constructor
  · intro above
    rcases above with lt | ⟨same, _⟩
    · exact le_of_lt lt
    · exact le_of_eq same
  · intro above
    rcases above.lt_or_eq with lt | same
    · exact .inl lt
    · exact .inr ⟨same, least⟩

theorem le_lastKey_iff (collection : String) (key : RecordKey) :
    key ≤ lastKey collection ↔ key.collection ≤ collection ++ "\x7f" := by
  have greatest : key.id.toList.map UInt8.toNat ≤
      (lastKey collection).id.toList.map UInt8.toNat := by
    have small : ∀ byte ∈ key.id.toList.map UInt8.toNat, byte ≤ 255 := by
      intro byte member
      rcases List.mem_map.mp member with ⟨letter, _, rfl⟩
      exact Nat.le_of_lt_succ letter.toNat_lt
    have above := le_replicate (key.id.toList.map UInt8.toNat) small
    rw [List.length_map, Vector.length_toList] at above
    exact above
  rw [rank_le_iff]
  constructor
  · intro below
    rcases below with lt | ⟨same, _⟩
    · exact le_of_lt lt
    · exact le_of_eq same
  · intro below
    rcases below.lt_or_eq with lt | same
    · exact .inl lt
    · exact .inr ⟨same, greatest⟩

/-- The name is the other name with something appended that is not above DEL. -/
def Extends (collection other : String) : Prop :=
  ∃ suffix : String, other = collection ++ suffix ∧ suffix ≤ "\x7f"

theorem between_iff_extends (collection other : String) :
    collection ≤ other ∧ other ≤ collection ++ "\x7f" ↔ Extends collection other := by
  rw [String.le_iff_toList_le, String.le_iff_toList_le, String.toList_append]
  have words := between_iff_exists_suffix collection.toList other.toList '\x7f'
  constructor
  · intro between
    rcases words.mp between with ⟨suffix, shape, small⟩
    refine ⟨String.ofList suffix, ?_, ?_⟩
    · apply String.toList_injective
      rw [shape, String.toList_append, String.toList_ofList]
    · rw [String.le_iff_toList_le, String.toList_ofList]
      exact small
  · intro extension
    rcases extension with ⟨suffix, shape, small⟩
    apply words.mpr
    refine ⟨suffix.toList, ?_, String.le_iff_toList_le.mp small⟩
    rw [shape, String.toList_append]

/-- The key range that `execute` scans. -/
def keyRange (collection : String) : KeyRange where
  first := firstKey collection
  last := lastKey collection
  ordered := by
    rw [firstKey_le_iff]
    exact ((between_iff_extends collection (collection ++ "\x7f")).mpr
      ⟨"\x7f", rfl, le_rfl⟩).1

theorem keyRange_contains_iff (collection : String) (key : RecordKey) :
    (keyRange collection).contains key = true ↔ Extends collection key.collection := by
  rw [← between_iff_extends, ← firstKey_le_iff, ← le_lastKey_iff, KeyRange.contains,
    decide_eq_true_iff]
  rfl

/-! ## The operator -/

/-- A full scan of one collection. -/
structure ScanOperator where
  collection : String
  lsm : LsmTree

def ScanOperator.execute (operator : ScanOperator) : RecordBatch :=
  RecordBatch.new.extend (operator.lsm.scan (keyRange operator.collection))

theorem ScanOperator.rows_execute (operator : ScanOperator) :
    operator.execute.rows = operator.lsm.scan (keyRange operator.collection) := by
  simp [execute]

namespace ScanOperator

variable (platform : Platform)

/-- The scan returns the live records of its collection and nothing else, in key
order. -/
def Isolated (operator : ScanOperator) : Prop :=
  (operator.execute.rows.Pairwise fun left right => left.1 < right.1) ∧
    ∀ key record, (key, record) ∈ operator.execute.rows ↔
      key.collection = operator.collection ∧ operator.lsm.get platform key = some record

/-- A scan is isolated exactly when no collection whose name extends its own by
something not above DEL has a live record. -/
theorem isolated_iff (platform : Platform) (operator : ScanOperator)
    (written : operator.lsm.FilesWritten platform) :
    operator.Isolated platform ↔
      ∀ key, Extends operator.collection key.collection →
        key.collection ≠ operator.collection → operator.lsm.get platform key = none := by
  rw [Isolated, rows_execute]
  simp only [LsmTree.mem_scan_iff written, keyRange_contains_iff]
  constructor
  · intro isolated key extension other
    cases live : operator.lsm.get platform key with
    | none => rfl
    | some record => exact absurd ((isolated.2 key record).mp ⟨extension, live⟩).1 other
  · intro alone
    refine ⟨LsmTree.scan_sorted _ _, ?_⟩
    intro key record
    constructor
    · intro shown
      rcases shown with ⟨extension, live⟩
      refine ⟨?_, live⟩
      by_contra other
      rw [alone key extension other] at live
      cases live
    · intro own
      rcases own with ⟨same, live⟩
      refine ⟨⟨"", ?_, ?_⟩, live⟩
      · rw [same, String.append_empty]
      · decide

/-- A directory with one file, which holds a record of `docs`. -/
def docsDirectory : LsmTree :=
  LsmTree.openDir plainPlatform []
    [{ name := 1, reader := finish plainPlatform [(makeKey 1, makeRecord [1])] }] 2

theorem docsDirectory_written : docsDirectory.FilesWritten plainPlatform := by
  intro file member
  rw [List.mem_singleton.mp member]
  exact ⟨[(makeKey 1, makeRecord [1])], by decide, rfl⟩

theorem isolated_iff_docs :
    (ScanOperator.mk "docs" docsDirectory).Isolated plainPlatform ↔
      ∀ key, Extends "docs" key.collection → key.collection ≠ "docs" →
        docsDirectory.get plainPlatform key = none :=
  isolated_iff plainPlatform ⟨"docs", docsDirectory⟩ docsDirectory_written

/-- A scan of `doc` returns the record of `docs`. -/
theorem doc_scan_returns_docs :
    (makeKey 1, makeRecord [1]) ∈ (ScanOperator.mk "doc" docsDirectory).execute.rows ∧
      (makeKey 1).collection = "docs" ∧
      ¬ (ScanOperator.mk "doc" docsDirectory).Isolated plainPlatform := by
  have live : docsDirectory.get plainPlatform (makeKey 1) = some (makeRecord [1]) := by
    have stored : docsDirectory.record plainPlatform (makeKey 1) = some (makeRecord [1]) := by
      have distinct : ([(makeKey 1, makeRecord [1])].map Prod.fst).Nodup := by decide
      have file := get_finish plainPlatform distinct (makeKey 1)
      rw [find_cons, if_pos rfl] at file
      simpa [docsDirectory, LsmTree.openDir, LsmTree.record, fileRecord] using file
    rw [LsmTree.get_eq_record, stored]
    decide
  have shown : (makeKey 1, makeRecord [1]) ∈
      (ScanOperator.mk "doc" docsDirectory).execute.rows := by
    rw [rows_execute, LsmTree.mem_scan_iff docsDirectory_written, keyRange_contains_iff]
    exact ⟨⟨"s", by decide, by decide⟩, live⟩
  refine ⟨shown, rfl, ?_⟩
  intro isolated
  exact absurd ((isolated.2 _ _).mp shown).1 (by decide)

end ScanOperator

end FunDB.Executor
