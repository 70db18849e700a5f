import FunDB.Storage.Refinement

/-! # Range scans

`scan` merges what memtables and files hold between two keys, oldest source
first. It shows the same records as `get` does key by key. -/

namespace FunDB.Storage

open KeyedList Overlay
open Std (ExtTreeMap)

/-- The keys between two keys. A `BTreeMap` panics when asked for a range whose
ends are the wrong way round. -/
structure KeyRange where
  first : RecordKey
  last : RecordKey
  ordered : first ≤ last

namespace KeyRange

def contains (range : KeyRange) (key : RecordKey) : Bool :=
  range.first ≤ key ∧ key ≤ range.last

end KeyRange

/-! ## Ranges of one source -/

def MemTable.range (table : MemTable) (range : KeyRange) : List (RecordKey × FunRecord) :=
  table.inner.toList.filter fun entry => range.contains entry.1

/-- From the first key not below the range up to its end. -/
def SstableReader.range (reader : SstableReader) (range : KeyRange) :
    List (RecordKey × FunRecord) :=
  (reader.entries.dropWhile fun entry => entry.1 < range.first).takeWhile
    fun entry => entry.1 ≤ range.last

namespace LsmTree

/-- Later entries overwrite earlier ones. -/
def insertAll (merged : ExtTreeMap RecordKey FunRecord)
    (entries : List (RecordKey × FunRecord)) : ExtTreeMap RecordKey FunRecord :=
  entries.foldl (fun merged entry => merged.insert entry.1 entry.2) merged

/-- Files, immutables and the active memtable, each from old to new. -/
def merged (tree : LsmTree) (range : KeyRange) : ExtTreeMap RecordKey FunRecord :=
  let merged := tree.sstables.foldl
    (fun merged file => insertAll merged (file.reader.range range)) ∅
  let merged := tree.immutables.foldl
    (fun merged immutable =>
      insertAll merged (immutable.entries.filter fun entry => range.contains entry.1)) merged
  insertAll merged (tree.active.range range)

/-- The live records of a range. The collection that the source passes along is
not read. -/
def scan (tree : LsmTree) (range : KeyRange) : List (RecordKey × FunRecord) :=
  (tree.merged range).toList.filter fun entry => !isTombstone entry.2

end LsmTree

/-! ## Files as written -/

namespace SstableReader

variable (platform : Platform)

/-- The table was written from entries of distinct keys. -/
def Written (reader : SstableReader) : Prop :=
  ∃ entries : List (RecordKey × FunRecord),
    (entries.map Prod.fst).Nodup ∧ reader = finish platform entries

/-- A table as a reader needs it: sorted by key, and the filter hides none of
the keys. -/
structure Searchable (reader : SstableReader) : Prop where
  sorted : reader.entries.Pairwise fun left right => left.1 < right.1
  covered : ∀ entry ∈ reader.entries, reader.mayContain platform entry.1 = true

variable {platform} {reader : SstableReader}

theorem Searchable.sound (searchable : reader.Searchable platform) : reader.Sound platform where
  distinct := List.pairwise_map.mpr (searchable.sorted.imp fun below => below.ne)
  covered := searchable.covered

theorem Written.sound (written : reader.Written platform) : reader.Sound platform := by
  rcases written with ⟨entries, distinct, rfl⟩
  exact finish_sound platform distinct

theorem Written.sorted (written : reader.Written platform) :
    reader.entries.Pairwise fun left right => left.1 < right.1 := by
  have distinct := List.pairwise_map.mp written.sound.distinct
  rcases written with ⟨entries, _, rfl⟩
  exact (sortByKey_pairwise entries).imp₂ (fun _ _ le ne => lt_of_le_of_ne le ne) distinct

theorem Written.searchable (written : reader.Written platform) :
    reader.Searchable platform where
  sorted := written.sorted
  covered := written.sound.covered

theorem written_mergeSstables (inputs : List SstableReader) :
    (mergeSstables platform inputs).Written platform :=
  ⟨mergedEntries inputs, mergedEntries_distinct inputs, rfl⟩

end SstableReader

namespace LsmTree

variable (platform : Platform)

/-- Every file was written by the engine. -/
def FilesWritten (tree : LsmTree) : Prop :=
  ∀ file ∈ tree.sstables, file.reader.Written platform

variable {platform} {tree : LsmTree}

theorem mem_foldl_removeFile {names : List Nat} {files : List SstFile} {existing : SstFile}
    (member : existing ∈ names.foldl removeFile files) : existing ∈ files := by
  induction names generalizing files with
  | nil => exact member
  | cons name names induction => exact List.mem_of_mem_filter (induction member)

theorem filesWritten_writeSstable (written : tree.FilesWritten platform) (name : Nat)
    {entries : List (RecordKey × FunRecord)} (distinct : (entries.map Prod.fst).Nodup) :
    (tree.writeSstable platform name entries).FilesWritten platform := by
  intro file member
  rcases mem_createFile member with earlier | new
  · exact written file earlier
  · rw [new]
    exact ⟨entries, distinct, rfl⟩

theorem filesWritten_runFlushTask (written : tree.FilesWritten platform) (immIdx name : Nat) :
    (tree.runFlushTask platform immIdx name).FilesWritten platform := by
  rw [runFlushTask]
  split
  · exact written
  · rename_i entries read
    rcases Option.map_eq_some_iff.mp read with ⟨immutable, _, rfl⟩
    have kept := filesWritten_writeSstable written name immutable.distinct
    rw [removeImmutable]
    split
    · exact kept
    · exact kept

theorem filesWritten_triggerCompaction (written : tree.FilesWritten platform) :
    (tree.triggerCompaction platform).FilesWritten platform := by
  rw [triggerCompaction]
  split
  · exact written
  · intro file member
    rcases mem_createFile (mem_foldl_removeFile member) with earlier | new
    · exact written file earlier
    · rw [new]
      exact SstableReader.written_mergeSstables _

theorem filesWritten_flushMemtable (written : tree.FilesWritten platform)
    (timing : FlushTiming) : (tree.flushMemtable platform timing).FilesWritten platform := by
  have frozen : (tree.freezeActive platform).2.FilesWritten platform := written
  have flushed := filesWritten_runFlushTask frozen (tree.freezeActive platform).1.1
    (tree.freezeActive platform).1.2
  rw [flushMemtable]
  cases timing with
  | beforeCheck =>
      dsimp only
      split
      · exact filesWritten_triggerCompaction flushed
      · exact flushed
  | afterCheck =>
      dsimp only
      split
      · exact filesWritten_triggerCompaction flushed
      · exact flushed
  | afterCompaction =>
      apply filesWritten_runFlushTask
      split
      · exact filesWritten_triggerCompaction frozen
      · exact frozen

theorem filesWritten_apply (written : tree.FilesWritten platform) (operation : Operation) :
    (tree.apply platform operation).FilesWritten platform := by
  cases operation with
  | write key record timing =>
      rw [apply, write_eq]
      have inserted : (tree.inserted platform key record).FilesWritten platform := written
      split
      · exact filesWritten_flushMemtable inserted timing
      · exact inserted
  | delete key id now => exact written
  | flushMemtable timing => exact filesWritten_flushMemtable written timing
  | triggerCompaction => exact filesWritten_triggerCompaction written

/-- In every run from an empty directory all files are as the engine writes
them. -/
theorem filesWritten_run (readings : Nat) (operations : List Operation) :
    (Execution.run (apply platform) (openDir platform [] [] readings) operations).FilesWritten
      platform := by
  apply Execution.run_invariant (apply platform) (FilesWritten platform)
  · intro tree operation written
    exact filesWritten_apply written operation
  · intro file member
    cases member

/-! ## What a scan shows -/

theorem getElem?_insertAll (merged : ExtTreeMap RecordKey FunRecord)
    {entries : List (RecordKey × FunRecord)} (distinct : (entries.map Prod.fst).Nodup)
    (key : RecordKey) : (insertAll merged entries)[key]? = (find entries key).or merged[key]? := by
  induction entries generalizing merged with
  | nil => rfl
  | cons entry rest induction =>
      rw [List.map_cons, List.nodup_cons] at distinct
      have step : insertAll merged (entry :: rest) =
          insertAll (merged.insert entry.1 entry.2) rest := rfl
      rw [step, induction _ distinct.2, find_cons, ExtTreeMap.getElem?_insert]
      by_cases same : entry.1 = key
      · have absent := (find_eq_none_iff rest key).mpr (same ▸ distinct.1)
        simp [same, absent]
      · simp [same]

/-- Sources inserted one after the other answer as the newest of them. -/
theorem getElem?_foldl_insertAll {Source : Type} (entries : Source → List (RecordKey × FunRecord))
    (sources : List Source) (distinct : ∀ source ∈ sources, ((entries source).map Prod.fst).Nodup)
    (merged : ExtTreeMap RecordKey FunRecord) (key : RecordKey) :
    (sources.foldl (fun merged source => insertAll merged (entries source)) merged)[key]? =
      (newest (fun source key => find (entries source) key) sources key).or merged[key]? := by
  induction sources generalizing merged with
  | nil => rfl
  | cons source sources induction =>
      rw [List.foldl_cons,
        induction fun other member => distinct other (List.mem_cons_of_mem _ member),
        getElem?_insertAll _ (distinct source List.mem_cons_self), newest_cons, Option.or_assoc]

theorem find_contains (range : KeyRange) (entries : List (RecordKey × FunRecord))
    (key : RecordKey) :
    find (entries.filter fun entry => range.contains entry.1) key =
      if range.contains key then find entries key else none :=
  find_filter entries range.contains key

theorem distinct_filter {entries : List (RecordKey × FunRecord)}
    (distinct : (entries.map Prod.fst).Nodup) (keep : RecordKey × FunRecord → Bool) :
    ((entries.filter keep).map Prod.fst).Nodup :=
  distinct.sublist (List.filter_sublist.map Prod.fst)

theorem range_active (tree : LsmTree) (range : KeyRange) :
    tree.active.range range =
      tree.active.freeze.entries.filter fun entry => range.contains entry.1 := rfl

theorem range_file {reader : SstableReader}
    (sorted : reader.entries.Pairwise fun left right => left.1 < right.1) (range : KeyRange) :
    reader.range range = reader.entries.filter fun entry => range.contains entry.1 := by
  rw [SstableReader.range, takeWhile_dropWhile_eq_filter sorted]
  rfl

/-- Where a range does not contain the key, no source answers. -/
theorem newest_contained {Source : Type} (range : KeyRange)
    (read : Source → RecordKey → Option FunRecord) (sources : List Source) (key : RecordKey) :
    newest (fun source key => if range.contains key then read source key else none) sources key =
      if range.contains key then newest read sources key else none := by
  split
  · rename_i inside
    exact newest_congr _ fun source _ => if_pos inside
  · rename_i outside
    exact (newest_eq_none_iff _ _ _).mpr fun source _ => if_neg outside

/-- The merge holds what answers a read, for the keys of the range. -/
theorem getElem?_merged
    (searchable : ∀ file ∈ tree.sstables, file.reader.Searchable platform) (range : KeyRange)
    (key : RecordKey) :
    (tree.merged range)[key]? = if range.contains key then tree.record platform key else none := by
  have files : ∀ file ∈ tree.sstables, ((file.reader.range range).map Prod.fst).Nodup := by
    intro file member
    rw [range_file (searchable file member).sorted]
    exact distinct_filter (searchable file member).sound.distinct _
  have immutables : ∀ immutable ∈ tree.immutables,
      ((immutable.entries.filter fun entry => range.contains entry.1).map Prod.fst).Nodup :=
    fun immutable _ => distinct_filter immutable.distinct _
  have fileAnswers : newest (fun file key => find (file.reader.range range) key) tree.sstables key =
      if range.contains key then fileRecord platform tree.sstables key else none := by
    rw [fileRecord, ← newest_contained]
    apply newest_congr
    intro file member
    rw [range_file (searchable file member).sorted, find_contains,
      (searchable file member).sound.get_eq]
  have immutableAnswers : newest (fun immutable key => find
        (immutable.entries.filter fun entry => range.contains entry.1) key) tree.immutables key =
      if range.contains key then newest ImmutableMemTable.get tree.immutables key else none := by
    rw [← newest_contained]
    exact newest_congr _ fun immutable _ => find_contains range immutable.entries key
  have activeAnswers : find (tree.active.range range) key =
      if range.contains key then tree.active.get key else none := by
    rw [range_active, find_contains]
    exact congrArg (fun answer => if range.contains key then answer else none)
      (MemTable.get_freeze tree.active key)
  have activeDistinct : ((tree.active.range range).map Prod.fst).Nodup :=
    distinct_filter tree.active.freeze.distinct _
  rw [merged, getElem?_insertAll _ activeDistinct,
    getElem?_foldl_insertAll (fun immutable : ImmutableMemTable => immutable.entries.filter
      fun entry => range.contains entry.1) _ immutables,
    getElem?_foldl_insertAll (fun file : SstFile => file.reader.range range) _ files,
    fileAnswers, immutableAnswers, activeAnswers, ExtTreeMap.getElem?_empty, Option.or_none]
  split
  · rfl
  · rfl

theorem filterTombstone_eq_some_iff (held record : FunRecord) :
    filterTombstone held = some record ↔ held = record ∧ (!isTombstone record) = true := by
  rw [filterTombstone]
  split
  · rename_i dead
    simp only [reduceCtorEq, false_iff, not_and]
    intro same
    simp [← same, dead]
  · rename_i live
    simp only [Option.some.injEq, iff_self_and]
    intro same
    simp [← same, live]

/-- A scan shows the live records of the range, as reads do. -/
theorem mem_scan_iff_of_searchable
    (searchable : ∀ file ∈ tree.sstables, file.reader.Searchable platform) (range : KeyRange)
    (key : RecordKey) (record : FunRecord) :
    (key, record) ∈ tree.scan range ↔
      range.contains key = true ∧ tree.get platform key = some record := by
  rw [scan, List.mem_filter, ExtTreeMap.mem_toList_iff_getElem?_eq_some,
    getElem?_merged searchable, get_eq_record, Option.bind_eq_some_iff]
  simp only [filterTombstone_eq_some_iff]
  split
  · rename_i inside
    simp [inside]
  · rename_i outside
    simp [outside]

theorem mem_scan_iff (written : tree.FilesWritten platform) (range : KeyRange)
    (key : RecordKey) (record : FunRecord) :
    (key, record) ∈ tree.scan range ↔
      range.contains key = true ∧ tree.get platform key = some record :=
  mem_scan_iff_of_searchable (fun file member => (written file member).searchable) range key
    record

theorem scan_sorted (tree : LsmTree) (range : KeyRange) :
    (tree.scan range).Pairwise fun left right => left.1 < right.1 :=
  List.Pairwise.filter _
    ((ExtTreeMap.ordered_keys_toList).imp fun ordered => compare_lt_iff_lt.mp ordered)

/-- Whatever the memtables hold and however many tables there are, a scan lists
the pairs of its range that point reads find, in the order of their keys. -/
theorem scan_agrees_with_get (tree : LsmTree)
    (searchable : ∀ file ∈ tree.sstables, file.reader.Searchable platform) (range : KeyRange) :
    (tree.scan range).Pairwise (fun left right => left.1 < right.1) ∧
      ∀ key record, (key, record) ∈ tree.scan range ↔
        range.first ≤ key ∧ key ≤ range.last ∧ tree.get platform key = some record := by
  refine ⟨scan_sorted tree range, fun key record => ?_⟩
  rw [mem_scan_iff_of_searchable searchable, KeyRange.contains, decide_eq_true_eq, and_assoc]

/-- A key in two tables, deleted in an immutable, and a second key beside it. -/
theorem scan_agrees_with_get_layered :
    let older : SstFile := ⟨1, finish plainPlatform [(makeKey 1, makeRecord [1])]⟩
    let younger : SstFile :=
      ⟨2, finish plainPlatform [(makeKey 2, makeRecord [2]), (makeKey 1, makeRecord [3])]⟩
    let deleted := MemTable.new.insert plainPlatform (makeKey 1)
      (tombstoneRecord "docs" (Vector.replicate 16 0) 0)
    let tree : LsmTree :=
      { openDir plainPlatform [] [older, younger] 3 with immutables := [deleted.freeze] }
    let range : KeyRange := ⟨makeKey 1, makeKey 2, by decide +kernel⟩
    (makeKey 2, makeRecord [2]) ∈ tree.scan range ∧
      (makeKey 1, makeRecord [3]) ∉ tree.scan range := by
  intro older younger deleted tree range
  have searchable : ∀ file ∈ tree.sstables, file.reader.Searchable plainPlatform := by
    intro file member
    rcases List.mem_cons.mp member with rfl | isYounger
    · exact SstableReader.Written.searchable ⟨_, by decide +kernel, rfl⟩
    · rw [List.mem_singleton.mp isYounger]
      exact SstableReader.Written.searchable ⟨_, by decide +kernel, rfl⟩
  have agrees := (scan_agrees_with_get tree searchable range).2
  constructor
  · apply (agrees _ _).mpr
    exact ⟨by decide +kernel, by decide +kernel, by decide +kernel⟩
  · intro shown
    have found := ((agrees _ _).mp shown).2.2
    revert found
    decide +kernel

end LsmTree

/-! ## Merging tables

A merge of sorted tables holds the keys of all of them, each with the record of
the last table that has it. Tombstones are records like others. -/

def SstableReader.keys (reader : SstableReader) : List RecordKey :=
  reader.entries.map Prod.fst

variable (platform : Platform) {inputs : List SstableReader}

theorem mem_entries_iff_find {reader : SstableReader} (distinct : reader.keys.Nodup)
    (key : RecordKey) (record : FunRecord) :
    (key, record) ∈ reader.entries ↔ find reader.entries key = some record :=
  ⟨find_of_mem distinct, mem_of_find⟩

/-- What the merge holds for a key is what the newest input has for it. -/
theorem find_mergeSstables (distinct : ∀ reader ∈ inputs, reader.keys.Nodup)
    (key : RecordKey) :
    find (mergeSstables platform inputs).entries key =
      newest (fun reader key => find reader.entries key) inputs key := by
  rw [← find_flatMap_reverse distinct, ← find_mergedEntries]
  exact find_sortByKey (mergedEntries inputs) key

theorem keys_mergeSstables_nodup (inputs : List SstableReader) :
    (mergeSstables platform inputs).keys.Nodup :=
  (mergeSstables_sound platform inputs).distinct

theorem mem_keys_mergeSstables (distinct : ∀ reader ∈ inputs, reader.keys.Nodup)
    (key : RecordKey) :
    key ∈ (mergeSstables platform inputs).keys ↔ ∃ reader ∈ inputs, key ∈ reader.keys := by
  have absent := find_eq_none_iff (mergeSstables platform inputs).entries key
  rw [find_mergeSstables platform distinct, newest_eq_none_iff] at absent
  simp only [find_eq_none_iff] at absent
  rw [← not_iff_not]
  simpa [SstableReader.keys] using absent.symm

/-- The merge of sorted tables, oldest first, is sorted, has the keys of all of
them, and has for each key the record of the last table that contains it. -/
theorem mergeSstables_newest_wins (inputs : List SstableReader)
    (sorted : ∀ reader ∈ inputs,
      reader.entries.Pairwise fun left right => left.1 < right.1) :
    (mergeSstables platform inputs).entries.Pairwise
        (fun left right => left.1 < right.1) ∧
      (∀ key, key ∈ (mergeSstables platform inputs).keys ↔
        ∃ reader ∈ inputs, key ∈ reader.keys) ∧
      ∀ key record, (key, record) ∈ (mergeSstables platform inputs).entries ↔
        ∃ older reader younger, inputs = older ++ reader :: younger ∧
          (key, record) ∈ reader.entries ∧ ∀ later ∈ younger, key ∉ later.keys := by
  have distinct : ∀ reader ∈ inputs, reader.keys.Nodup := fun reader member =>
    List.pairwise_map.mpr ((sorted reader member).imp fun below => below.ne)
  refine ⟨(SstableReader.written_mergeSstables inputs).sorted,
    mem_keys_mergeSstables platform distinct, fun key record => ?_⟩
  rw [mem_entries_iff_find (keys_mergeSstables_nodup platform inputs),
    find_mergeSstables platform distinct, newest_eq_some_iff]
  simp only [find_eq_none_iff]
  constructor
  · intro last
    rcases last with ⟨older, reader, younger, split, held, hidden⟩
    exact ⟨older, reader, younger, split, mem_of_find held, hidden⟩
  · intro last
    rcases last with ⟨older, reader, younger, split, held, hidden⟩
    have member : reader ∈ inputs := by simp [split]
    exact ⟨older, reader, younger, split, find_of_mem (distinct reader member) held, hidden⟩

theorem mergeSstables_newest_wins_deleted :
    let deleted := tombstoneRecord "docs" (Vector.replicate 16 0) 0
    let older := finish plainPlatform [(makeKey 1, makeRecord [1]), (makeKey 2, makeRecord [2])]
    let younger := finish plainPlatform [(makeKey 1, deleted)]
    (makeKey 1, deleted) ∈ (mergeSstables plainPlatform [older, younger]).entries := by
  intro deleted older younger
  have olderWritten : older.Written plainPlatform := ⟨_, by decide +kernel, rfl⟩
  have youngerWritten : younger.Written plainPlatform := ⟨_, by decide, rfl⟩
  have sorted : ∀ reader ∈ [older, younger],
      reader.entries.Pairwise fun left right => left.1 < right.1 := by
    intro reader member
    rcases List.mem_cons.mp member with rfl | isYounger
    · exact olderWritten.sorted
    · rw [List.mem_singleton.mp isYounger]
      exact youngerWritten.sorted
  apply ((mergeSstables_newest_wins plainPlatform [older, younger] sorted).2.2 _ _).mpr
  exact ⟨[older], younger, [], rfl, by decide +kernel, fun _ later => by cases later⟩

end FunDB.Storage
