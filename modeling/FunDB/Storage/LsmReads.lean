import FunDB.Storage.LsmTree

/-! # Reads of an LSM tree

What flushes and compactions do to the record that answers a read. A flush moves
records without changing an answer; a compaction puts what it merges in front of
the files it did not select. -/

namespace FunDB.Storage

open KeyedList Overlay

variable (platform : Platform)

/-- The newest record of a key among files. -/
def fileRecord (files : List SstFile) (key : RecordKey) : Option FunRecord :=
  newest (fun file key => file.reader.get platform key) files key

/-- Files as the engine leaves them: sound, in the order of their names, all
named before the next reading of the clock. -/
structure FilesBelow (files : List SstFile) (bound : Nat) : Prop where
  sound : ∀ file ∈ files, file.reader.Sound platform
  ordered : files.Pairwise fun older younger => older.name < younger.name
  below : ∀ file ∈ files, file.name < bound

namespace FilesBelow

variable {platform} {files : List SstFile} {bound : Nat}

theorem concat (kept : FilesBelow platform files bound) {file : SstFile}
    (sound : file.reader.Sound platform) {later : Nat} (reached : bound ≤ file.name)
    (before : file.name < later) : FilesBelow platform (files ++ [file]) later where
  sound existing member := by
    rcases List.mem_append.mp member with old | new
    · exact kept.sound existing old
    · rw [List.mem_singleton.mp new]
      exact sound
  ordered := List.pairwise_append.mpr ⟨kept.ordered, List.pairwise_singleton _ _,
    fun existing member last isLast => by
      have bounded := kept.below existing member
      rw [List.mem_singleton.mp isLast]
      omega⟩
  below existing member := by
    rcases List.mem_append.mp member with old | new
    · have bounded := kept.below existing old
      omega
    · rw [List.mem_singleton.mp new]
      exact before

theorem mono (kept : FilesBelow platform files bound) {later : Nat} (le : bound ≤ later) :
    FilesBelow platform files later where
  sound := kept.sound
  ordered := kept.ordered
  below file member := (kept.below file member).trans_le le

theorem of_append_right {older : List SstFile}
    (kept : FilesBelow platform (older ++ files) bound) : FilesBelow platform files bound where
  sound file member := kept.sound file (List.mem_append_right _ member)
  ordered := (List.pairwise_append.mp kept.ordered).2.1
  below file member := kept.below file (List.mem_append_right _ member)

end FilesBelow

/-! ## The directory -/

/-- A file takes the place that its name has among the others. -/
theorem createFile_between {older younger : List SstFile} {file : SstFile}
    (after : ∀ existing ∈ older, existing.name < file.name)
    (before : ∀ existing ∈ younger, file.name < existing.name) :
    createFile (older ++ younger) file = older ++ [file] ++ younger := by
  have olderBelow : older.filter (fun existing => existing.name < file.name) = older :=
    List.filter_eq_self.mpr fun existing member => by simpa using after existing member
  have olderAbove : older.filter (fun existing => file.name < existing.name) = [] :=
    List.filter_eq_nil_iff.mpr fun existing member => by
      simpa using (after existing member).le
  have youngerBelow : younger.filter (fun existing => existing.name < file.name) = [] :=
    List.filter_eq_nil_iff.mpr fun existing member => by
      simpa using (before existing member).le
  have youngerAbove : younger.filter (fun existing => file.name < existing.name) = younger :=
    List.filter_eq_self.mpr fun existing member => by simpa using before existing member
  simp [createFile, olderBelow, olderAbove, youngerBelow, youngerAbove]

theorem foldl_removeFile (names : List Nat) (files : List SstFile) :
    names.foldl removeFile files = files.filter fun file => file.name ∉ names := by
  induction names generalizing files with
  | nil => simp
  | cons name rest induction =>
      rw [List.foldl_cons, induction, removeFile, List.filter_filter]
      congr 1
      funext file
      simp [Bool.and_comm]

theorem removeFiles_append {removed rest : List SstFile}
    (different : ∀ file ∈ rest, ∀ other ∈ removed, other.name ≠ file.name) :
    (removed.map SstFile.name).foldl removeFile (removed ++ rest) = rest := by
  rw [foldl_removeFile, List.filter_append]
  have gone : removed.filter (fun file => file.name ∉ removed.map SstFile.name) = [] := by
    apply List.filter_eq_nil_iff.mpr
    intro file member
    simpa using ⟨file, member, rfl⟩
  have stays : rest.filter (fun file => file.name ∉ removed.map SstFile.name) = rest := by
    apply List.filter_eq_self.mpr
    intro file member
    simpa using different file member
  rw [gone, stays, List.nil_append]

namespace LsmTree

theorem mem_createFile {files : List SstFile} {file existing : SstFile}
    (member : existing ∈ createFile files file) : existing ∈ files ∨ existing = file := by
  simp only [createFile, List.mem_append, List.mem_filter, List.mem_singleton] at member
  tauto

/-- The record that answers a read of the key, tombstones included. -/
def record (tree : LsmTree) (key : RecordKey) : Option FunRecord :=
  (tree.active.get key).or
    ((newest ImmutableMemTable.get tree.immutables key).or
      (fileRecord platform tree.sstables key))

theorem get_eq_record (tree : LsmTree) (key : RecordKey) :
    tree.get platform key = (tree.record platform key).bind filterTombstone := by
  rw [get, record]
  cases tree.active.get key with
  | some record => rfl
  | none =>
      rw [Option.none_or, newest, fileRecord, newest]
      cases tree.immutables.reverse.findSome? fun immutable => immutable.get key with
      | some record => rfl
      | none =>
          cases tree.sstables.reverse.findSome? fun file => file.reader.get platform key <;> rfl

/-- The tree between two operations: every flush task has finished. -/
structure Settled (tree : LsmTree) : Prop where
  finished : tree.immutables = []
  files : FilesBelow platform tree.sstables (platform.clock tree.readings)

/-! ## Compaction -/

def kept (tree : LsmTree) : List SstFile :=
  tree.compactionPolicy.keptFiles tree.sstables

def mergedFile (tree : LsmTree) : SstFile where
  name := platform.clock tree.readings
  reader := mergeSstables platform (tree.selected.map SstFile.reader)

/-- A compaction that merges shows no reader an older record: a key that no
active memtable shadows looks the same in the selected files as in what is newer
than them. -/
def CompactionSafe (tree : LsmTree) : Prop :=
  2 ≤ tree.selected.length →
    ∀ key ∈ tree.selected.flatMap fun file => file.reader.entries.map Prod.fst,
      tree.active.get key = none →
        ∀ old ∈ fileRecord platform tree.selected key,
          ∀ young ∈ (newest ImmutableMemTable.get tree.immutables key).or
              (fileRecord platform tree.kept key),
            filterTombstone old = filterTombstone young

instance (tree : LsmTree) : Decidable (tree.CompactionSafe platform) :=
  inferInstanceAs (Decidable (_ → ∀ _ ∈ _, _ → ∀ _ ∈ _, ∀ _ ∈ _, _))

section Compaction

variable {platform} {tree : LsmTree}

theorem selected_append_kept (tree : LsmTree) : tree.selected ++ tree.kept = tree.sstables :=
  tree.compactionPolicy.selectFiles_append_keptFiles tree.sstables

theorem mem_of_mem_selected {file : SstFile} (member : file ∈ tree.selected) :
    file ∈ tree.sstables := by
  rw [← tree.selected_append_kept]
  exact List.mem_append_left _ member

theorem mem_of_mem_kept {file : SstFile} (member : file ∈ tree.kept) :
    file ∈ tree.sstables := by
  rw [← tree.selected_append_kept]
  exact List.mem_append_right _ member

theorem Settled.keptFiles (settled : tree.Settled platform) :
    FilesBelow platform tree.kept (platform.clock tree.readings) := by
  have files := settled.files
  rw [← tree.selected_append_kept] at files
  exact files.of_append_right

theorem triggerCompaction_eq
    (files : FilesBelow platform tree.sstables (platform.clock tree.readings)) :
    tree.triggerCompaction platform =
      if 2 ≤ tree.selected.length then
        { tree with
          sstables := tree.kept ++ [tree.mergedFile platform]
          readings := tree.readings + 1 }
      else
        tree := by
  rw [triggerCompaction]
  dsimp only
  by_cases many : 2 ≤ tree.selected.length
  · have split := tree.selected_append_kept
    have created : createFile tree.sstables (tree.mergedFile platform) =
        tree.selected ++ (tree.kept ++ [tree.mergedFile platform]) := by
      have between : createFile (tree.sstables ++ []) (tree.mergedFile platform) =
          tree.sstables ++ [tree.mergedFile platform] ++ [] :=
        createFile_between files.below (by simp)
      rw [List.append_nil, List.append_nil] at between
      rw [between, ← List.append_assoc, split]
    have different : ∀ file ∈ tree.kept ++ [tree.mergedFile platform],
        ∀ other ∈ tree.selected, other.name ≠ file.name := by
      intro file member other isSelected
      rcases List.mem_append.mp member with isKept | isMerged
      · have ordered := files.ordered
        rw [← split] at ordered
        exact ((List.pairwise_append.mp ordered).2.2 other isSelected file isKept).ne
      · rw [List.mem_singleton.mp isMerged]
        exact (files.below other (mem_of_mem_selected isSelected)).ne
    rw [if_neg (by omega), if_pos many]
    rw [mergedFile] at created
    rw [created]
    congr 1
    exact removeFiles_append different
  · rw [if_pos (by omega), if_neg many]

theorem fileRecord_mergedFile
    (files : FilesBelow platform tree.sstables (platform.clock tree.readings))
    (key : RecordKey) :
    fileRecord platform [tree.mergedFile platform] key =
      fileRecord platform tree.selected key := by
  have sound : ∀ reader ∈ tree.selected.map SstFile.reader, reader.Sound platform := by
    intro reader member
    rcases List.mem_map.mp member with ⟨file, isSelected, rfl⟩
    exact files.sound file (mem_of_mem_selected isSelected)
  rw [fileRecord, newest_singleton, mergedFile, get_mergeSstables platform sound, newest_map]
  rfl

/-- The files and immutables newer than what a compaction merges. -/
def youngRecord (platform : Platform) (tree : LsmTree) (key : RecordKey) : Option FunRecord :=
  (newest ImmutableMemTable.get tree.immutables key).or (fileRecord platform tree.kept key)

theorem record_eq_young_or_selected (tree : LsmTree) (key : RecordKey) :
    tree.record platform key = (tree.active.get key).or
      ((tree.youngRecord platform key).or (fileRecord platform tree.selected key)) := by
  rw [record, youngRecord, ← tree.selected_append_kept, fileRecord, newest_append,
    Option.or_assoc]
  rfl

theorem compactionSafe_iff (tree : LsmTree) :
    tree.CompactionSafe platform ↔
      (2 ≤ tree.selected.length → ∀ key, tree.active.get key = none →
        ∀ old young, fileRecord platform tree.selected key = some old →
          tree.youngRecord platform key = some young →
            filterTombstone old = filterTombstone young) := by
  constructor
  · intro safe many key hidden old young isOld isYoung
    refine safe many key ?_ hidden old isOld young isYoung
    rcases exists_of_newest_eq_some _ isOld with ⟨file, member, held⟩
    refine List.mem_flatMap.mpr ⟨file, member, ?_⟩
    rw [SstableReader.get] at held
    split at held
    · cases held
    · exact List.mem_map.mpr ⟨_, mem_of_find held, rfl⟩
  · intro safe many key _ hidden old isOld young isYoung
    exact safe many key hidden old young isOld isYoung

/-- When the merged files come to answer before the newer ones, reads stay the
same exactly when the compaction was safe. -/
theorem get_eq_iff_compactionSafe {after : LsmTree} (many : 2 ≤ tree.selected.length)
    (compacted : ∀ key, after.record platform key = (tree.active.get key).or
      ((fileRecord platform tree.selected key).or (tree.youngRecord platform key))) :
    (∀ key, after.get platform key = tree.get platform key) ↔
      tree.CompactionSafe platform := by
  have perKey (key : RecordKey) : after.get platform key = tree.get platform key ↔
      (tree.active.get key = none → ∀ old young,
        fileRecord platform tree.selected key = some old →
          tree.youngRecord platform key = some young →
            filterTombstone old = filterTombstone young) := by
    rw [get_eq_record, get_eq_record, compacted, record_eq_young_or_selected]
    exact shown_swap_iff filterTombstone _ _ _
  rw [compactionSafe_iff]
  exact ⟨fun same _ key => (perKey key).mp (same key),
    fun safe key => (perKey key).mpr (safe many key)⟩

/-- The merged files come to answer before the newer ones. -/
theorem record_triggerCompaction (settled : tree.Settled platform)
    (many : 2 ≤ tree.selected.length) (key : RecordKey) :
    (tree.triggerCompaction platform).record platform key = (tree.active.get key).or
      ((fileRecord platform tree.selected key).or (tree.youngRecord platform key)) := by
  rw [triggerCompaction_eq settled.files, if_pos many]
  simp only [record, youngRecord, settled.finished, newest_nil, Option.none_or]
  rw [← fileRecord_mergedFile settled.files, fileRecord, newest_append]
  rfl

theorem get_triggerCompaction_iff (settled : tree.Settled platform) :
    (∀ key, (tree.triggerCompaction platform).get platform key = tree.get platform key) ↔
      tree.CompactionSafe platform := by
  by_cases many : 2 ≤ tree.selected.length
  · exact get_eq_iff_compactionSafe many (record_triggerCompaction settled many)
  · rw [triggerCompaction_eq settled.files, if_neg many]
    exact iff_of_true (fun _ => rfl) fun enough => absurd enough many

end Compaction

/-! ## Flushing -/

section Flushing

variable {platform} {tree : LsmTree}

def flushedFile (platform : Platform) (name : Nat) (immutable : ImmutableMemTable) :
    SstFile where
  name := name
  reader := finish platform immutable.entries

theorem get_flushedFile (name : Nat) (table : MemTable) (key : RecordKey) :
    (flushedFile platform name table.freeze).reader.get platform key = table.get key := by
  rw [flushedFile, get_finish platform table.freeze.distinct]
  exact table.get_freeze key

/-- The task of the last immutable puts its file in its place by name. -/
theorem runFlushTask_last (immutable : ImmutableMemTable) {earlier : List ImmutableMemTable}
    (last : tree.immutables = earlier ++ [immutable])
    {name : Nat} (older younger : List SstFile) (split : tree.sstables = older ++ younger)
    (after : ∀ file ∈ older, file.name < name)
    (before : ∀ file ∈ younger, name < file.name) :
    tree.runFlushTask platform earlier.length name =
      { tree with
        immutables := earlier
        sstables := older ++ [flushedFile platform name immutable] ++ younger } := by
  have created : createFile (older ++ younger) (flushedFile platform name immutable) =
      older ++ [flushedFile platform name immutable] ++ younger :=
    createFile_between after before
  have removed : (earlier ++ [immutable]).eraseIdx earlier.length = earlier := by
    rw [List.eraseIdx_append_of_length_le le_rfl]
    simp
  rw [flushedFile] at created
  simp [runFlushTask, readImmutable, writeSstable, removeImmutable, last, split, created,
    removed, flushedFile]

theorem runFlushTask_eq (immutable : ImmutableMemTable) (only : tree.immutables = [immutable])
    {name : Nat} (older younger : List SstFile) (split : tree.sstables = older ++ younger)
    (after : ∀ file ∈ older, file.name < name)
    (before : ∀ file ∈ younger, name < file.name) :
    tree.runFlushTask platform 0 name =
      { tree with
        immutables := []
        sstables := older ++ [flushedFile platform name immutable] ++ younger } := by
  have last : tree.immutables = [] ++ [immutable] := only
  exact runFlushTask_last immutable last older younger split after before

def frozen (platform : Platform) (tree : LsmTree) : LsmTree := (tree.freezeActive platform).2

def flushed (platform : Platform) (tree : LsmTree) : LsmTree :=
  (tree.frozen platform).runFlushTask platform 0 (platform.clock tree.readings)

def SafeFlush (platform : Platform) (tree : LsmTree) (timing : FlushTiming) : Prop :=
  match timing with
  | .beforeCheck =>
      (tree.flushed platform).shouldCompact = true →
        (tree.flushed platform).CompactionSafe platform
  | .afterCheck =>
      (tree.frozen platform).shouldCompact = true →
        (tree.flushed platform).CompactionSafe platform
  | .afterCompaction =>
      (tree.frozen platform).shouldCompact = true →
        (tree.frozen platform).CompactionSafe platform

instance (tree : LsmTree) : ∀ timing, Decidable (tree.SafeFlush platform timing)
  | .beforeCheck | .afterCheck | .afterCompaction => inferInstanceAs (Decidable (_ → _))

theorem flushMemtable_eq (finished : tree.immutables = []) (timing : FlushTiming) :
    tree.flushMemtable platform timing =
      match timing with
      | .beforeCheck =>
          if (tree.flushed platform).shouldCompact then
            (tree.flushed platform).triggerCompaction platform
          else
            tree.flushed platform
      | .afterCheck =>
          if (tree.frozen platform).shouldCompact then
            (tree.flushed platform).triggerCompaction platform
          else
            tree.flushed platform
      | .afterCompaction =>
          (if (tree.frozen platform).shouldCompact then
            (tree.frozen platform).triggerCompaction platform
          else
            tree.frozen platform).runFlushTask platform 0 (platform.clock tree.readings) := by
  rw [flushMemtable]
  simp only [freezeActive, finished, flushed, frozen]
  rfl

theorem flushed_eq (settled : tree.Settled platform) :
    tree.flushed platform =
      { tree with
        active := MemTable.new
        sstables := tree.sstables ++
          [flushedFile platform (platform.clock tree.readings) tree.active.freeze]
        readings := tree.readings + 1 } := by
  have only : (tree.frozen platform).immutables = [tree.active.freeze] := by
    simp [frozen, freezeActive, settled.finished]
  rw [flushed, runFlushTask_eq _ only tree.sstables [] (List.append_nil _).symm
    settled.files.below (by simp), List.append_nil]
  simp [frozen, freezeActive, settled.finished]

variable (ticks : StrictMono platform.clock)

include ticks in
theorem flushed_settled (settled : tree.Settled platform) :
    (tree.flushed platform).Settled platform := by
  rw [flushed_eq settled]
  exact
    { finished := settled.finished
      files := settled.files.concat (finish_sound platform tree.active.freeze.distinct)
        le_rfl (ticks (Nat.lt_succ_self _)) }

theorem record_flushed (settled : tree.Settled platform) (key : RecordKey) :
    (tree.flushed platform).record platform key = tree.record platform key := by
  rw [flushed_eq settled]
  simp only [record, settled.finished, newest_nil, MemTable.get_new, Option.none_or]
  rw [fileRecord, newest_append, newest_singleton, get_flushedFile]
  rfl

theorem get_flushed (settled : tree.Settled platform) (key : RecordKey) :
    (tree.flushed platform).get platform key = tree.get platform key := by
  rw [get_eq_record, get_eq_record, record_flushed settled]

include ticks in
theorem triggerCompaction_settled (settled : tree.Settled platform) :
    (tree.triggerCompaction platform).Settled platform := by
  rw [triggerCompaction_eq settled.files]
  split
  · exact
      { finished := settled.finished
        files := settled.keptFiles.concat (mergeSstables_sound platform _) le_rfl
          (ticks (Nat.lt_succ_self _)) }
  · exact settled

theorem frozen_files (ticks : StrictMono platform.clock)
    (files : FilesBelow platform tree.sstables (platform.clock tree.readings)) :
    FilesBelow platform (tree.frozen platform).sstables
      (platform.clock (tree.frozen platform).readings) :=
  files.mono (ticks (Nat.lt_succ_self _)).le

/-- The files when the task finishes after a compaction: its file comes before
the merged one, which has the later name. -/
theorem lateFlush_eq (ticks : StrictMono platform.clock) (settled : tree.Settled platform)
    (many : 2 ≤ (tree.frozen platform).selected.length) :
    ((tree.frozen platform).triggerCompaction platform).runFlushTask platform 0
        (platform.clock tree.readings) =
      { tree with
        active := MemTable.new
        sstables := tree.kept ++
          [flushedFile platform (platform.clock tree.readings) tree.active.freeze] ++
            [(tree.frozen platform).mergedFile platform]
        readings := tree.readings + 2 } := by
  rw [triggerCompaction_eq (frozen_files ticks settled.files), if_pos many]
  rw [runFlushTask_eq tree.active.freeze _ tree.kept
    [(tree.frozen platform).mergedFile platform] rfl settled.keptFiles.below]
  · simp [frozen, freezeActive, settled.finished]
  · intro file member
    rw [List.mem_singleton.mp member]
    exact ticks (Nat.lt_succ_self _)
  · simp [frozen, freezeActive, settled.finished]

/-- The flushed file answers as the immutable did, behind the merged one. -/
theorem record_lateFlush (ticks : StrictMono platform.clock) (settled : tree.Settled platform)
    (many : 2 ≤ (tree.frozen platform).selected.length) (key : RecordKey) :
    (((tree.frozen platform).triggerCompaction platform).runFlushTask platform 0
        (platform.clock tree.readings)).record platform key =
      ((tree.frozen platform).active.get key).or
        ((fileRecord platform (tree.frozen platform).selected key).or
          ((tree.frozen platform).youngRecord platform key)) := by
  have merged := fileRecord_mergedFile (frozen_files ticks settled.files) key
  rw [lateFlush_eq ticks settled many]
  rw [fileRecord] at merged
  rw [record, youngRecord, fileRecord, newest_append, newest_append, merged,
    newest_singleton, get_flushedFile]
  simp [frozen, freezeActive, settled.finished]
  rfl

theorem triggerCompaction_frozen_of_few (ticks : StrictMono platform.clock)
    (settled : tree.Settled platform) (few : ¬ 2 ≤ (tree.frozen platform).selected.length) :
    (tree.frozen platform).triggerCompaction platform = tree.frozen platform := by
  rw [triggerCompaction_eq (frozen_files ticks settled.files), if_neg few]

/-- What a flush can come to: its task alone, its task and then a compaction, or
a compaction that merges and then its task. -/
theorem flushMemtable_cases (ticks : StrictMono platform.clock)
    (settled : tree.Settled platform) (timing : FlushTiming) :
    tree.flushMemtable platform timing = tree.flushed platform ∨
      tree.flushMemtable platform timing =
        (tree.flushed platform).triggerCompaction platform ∨
      2 ≤ (tree.frozen platform).selected.length ∧
        tree.flushMemtable platform timing =
          ((tree.frozen platform).triggerCompaction platform).runFlushTask platform 0
            (platform.clock tree.readings) := by
  rw [flushMemtable_eq settled.finished]
  cases timing with
  | beforeCheck =>
      dsimp only
      split
      · exact .inr (.inl rfl)
      · exact .inl rfl
  | afterCheck =>
      dsimp only
      split
      · exact .inr (.inl rfl)
      · exact .inl rfl
  | afterCompaction =>
      dsimp only
      split
      · by_cases many : 2 ≤ (tree.frozen platform).selected.length
        · exact .inr (.inr ⟨many, rfl⟩)
        · rw [triggerCompaction_frozen_of_few ticks settled many]
          exact .inl rfl
      · exact .inl rfl

include ticks in
theorem flushMemtable_settled (settled : tree.Settled platform) (timing : FlushTiming) :
    (tree.flushMemtable platform timing).Settled platform := by
  rcases flushMemtable_cases ticks settled timing with
    alone | compacted | ⟨many, late⟩
  · rw [alone]
    exact flushed_settled ticks settled
  · rw [compacted]
    exact triggerCompaction_settled ticks (flushed_settled ticks settled)
  · rw [late, lateFlush_eq ticks settled many]
    have flushedLast : FilesBelow platform (tree.kept ++
        [flushedFile platform (platform.clock tree.readings) tree.active.freeze])
        (platform.clock (tree.readings + 1)) :=
      settled.keptFiles.concat (finish_sound platform tree.active.freeze.distinct) le_rfl
        (ticks (Nat.lt_succ_self _))
    exact
      { finished := settled.finished
        files := flushedLast.concat (mergeSstables_sound platform _) le_rfl
          (ticks (Nat.lt_succ_self _)) }

theorem record_frozen (settled : tree.Settled platform) (key : RecordKey) :
    (tree.frozen platform).record platform key = tree.record platform key := by
  simp [record, frozen, freezeActive, settled.finished]

theorem get_frozen (settled : tree.Settled platform) (key : RecordKey) :
    (tree.frozen platform).get platform key = tree.get platform key := by
  rw [get_eq_record, get_eq_record, record_frozen settled]

/-- A flush keeps every read exactly when each compaction within it is safe. -/
theorem get_flushMemtable_iff (ticks : StrictMono platform.clock)
    (settled : tree.Settled platform) (timing : FlushTiming) :
    (∀ key, (tree.flushMemtable platform timing).get platform key = tree.get platform key) ↔
      tree.SafeFlush platform timing := by
  have early := flushed_settled ticks settled
  have early_iff := get_triggerCompaction_iff early
  simp only [get_flushed settled] at early_iff
  rw [flushMemtable_eq settled.finished]
  cases timing with
  | beforeCheck =>
      by_cases compacts : (tree.flushed platform).shouldCompact = true
      · simpa [SafeFlush, compacts] using early_iff
      · simp [SafeFlush, compacts, get_flushed settled]
  | afterCheck =>
      by_cases compacts : (tree.frozen platform).shouldCompact = true
      · simpa [SafeFlush, compacts] using early_iff
      · simp [SafeFlush, compacts, get_flushed settled]
  | afterCompaction =>
      by_cases compacts : (tree.frozen platform).shouldCompact = true
      · simp only [SafeFlush, compacts, if_true, true_implies]
        by_cases many : 2 ≤ (tree.frozen platform).selected.length
        · have late := get_eq_iff_compactionSafe many (record_lateFlush ticks settled many)
          simpa only [get_frozen settled] using late
        · rw [triggerCompaction_frozen_of_few ticks settled many]
          exact iff_of_true (get_flushed settled) fun enough => absurd enough many
      · simp only [SafeFlush, compacts]
        exact iff_of_true (get_flushed settled) fun yes => absurd yes (by simp)

end Flushing

end LsmTree

end FunDB.Storage
