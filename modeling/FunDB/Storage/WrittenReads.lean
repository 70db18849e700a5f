import FunDB.Storage.FlushTasks
import FunDB.Storage.Scan

/-! # Reading what was written

A record that a write has stored shows in reads and scans unless it is taken for
a tombstone, or the flush that the write triggers lets an older record in front
of it: an older immutable whose task is still running, or a compaction. -/

namespace FunDB.Storage

open KeyedList Overlay

namespace LsmTree

variable (platform : Platform)

/-- A write that completes before the task of its flush has run. -/
def writePending (tree : LsmTree) (key : RecordKey) (record : FunRecord) : LsmTree :=
  let tree := tree.inserted platform key record
  if tree.active.sizeBytes ≥ tree.flushThresholdBytes then
    let tree := tree.frozen platform
    if tree.shouldCompact then tree.triggerCompaction platform else tree
  else
    tree

/-- A write up to its completion. `none` leaves the task of its flush pending. -/
def writeUntil (tree : LsmTree) (key : RecordKey) (record : FunRecord) :
    Option FlushTiming → LsmTree
  | none => tree.writePending platform key record
  | some timing => tree.write platform key record timing

/-- The memtable reaches the threshold. -/
def WriteFlushes (tree : LsmTree) (key : RecordKey) (record : FunRecord) : Prop :=
  (tree.inserted platform key record).active.sizeBytes ≥ tree.flushThresholdBytes

/-- The tree after the swap and the task of a flush, behind earlier immutables. -/
def flushedLast (tree : LsmTree) : LsmTree :=
  (tree.frozen platform).runFlushTask platform tree.immutables.length
    (platform.clock tree.readings)

/-- A compaction puts no other record of the key in front. -/
def CompactionShows (tree : LsmTree) (key : RecordKey) (record : FunRecord) : Prop :=
  2 ≤ tree.selected.length →
    ∀ old ∈ fileRecord platform tree.selected key, old = record

/-- If the flush compacts, the compaction shows the record of the key. -/
def FlushShows (tree : LsmTree) (key : RecordKey) (record : FunRecord) : FlushTiming → Prop
  | .beforeCheck =>
      (tree.flushedLast platform).shouldCompact = true →
        (tree.flushedLast platform).CompactionShows platform key record
  | .afterCheck =>
      (tree.frozen platform).shouldCompact = true →
        (tree.flushedLast platform).CompactionShows platform key record
  | .afterCompaction =>
      (tree.frozen platform).shouldCompact = true →
        (tree.frozen platform).CompactionShows platform key record

/-- Nothing older comes in front of the record: if the write flushes and the
task has run, neither an older immutable nor a compaction has another record of
the key. -/
def WriteShows (tree : LsmTree) (key : RecordKey) (record : FunRecord) :
    Option FlushTiming → Prop
  | none => True
  | some timing =>
      tree.WriteFlushes platform key record →
        (∀ old ∈ newest ImmutableMemTable.get tree.immutables key, old = record) ∧
          (newest ImmutableMemTable.get tree.immutables key = none →
            (tree.inserted platform key record).FlushShows platform key record timing)

instance (tree : LsmTree) (key : RecordKey) (record : FunRecord) :
    Decidable (tree.CompactionShows platform key record) :=
  inferInstanceAs (Decidable (_ → ∀ _ ∈ _, _))

instance (tree : LsmTree) (key : RecordKey) (record : FunRecord) :
    ∀ timing, Decidable (tree.FlushShows platform key record timing)
  | .beforeCheck | .afterCheck | .afterCompaction => inferInstanceAs (Decidable (_ → _))

instance (tree : LsmTree) (key : RecordKey) (record : FunRecord) :
    ∀ timing, Decidable (tree.WriteShows platform key record timing)
  | none => inferInstanceAs (Decidable True)
  | some _ => inferInstanceAs (Decidable (_ ≥ _ → (∀ _ ∈ _, _) ∧ (_ → _)))

section Answers

variable {platform} {tree : LsmTree} {key : RecordKey} {record : FunRecord}

/-- A read shows the record that answers it, unless that is a tombstone. -/
theorem get_eq_some_iff (tree : LsmTree) (key : RecordKey) (record : FunRecord) :
    tree.get platform key = some record ↔
      record.confidence ≠ 0 ∧ tree.record platform key = some record := by
  rw [get_eq_record, Option.bind_eq_some_iff]
  simp only [filterTombstone_eq_some_iff]
  constructor
  · intro shown
    rcases shown with ⟨held, answers, rfl, live⟩
    exact ⟨by simpa [isTombstone] using live, answers⟩
  · intro both
    exact ⟨record, both.2, rfl, by simpa [isTombstone] using both.1⟩

/-- With an empty active memtable the immutables answer before the files. -/
theorem record_eq_some_iff (empty : tree.active = MemTable.new) :
    tree.record platform key = some record ↔
      (∀ old ∈ newest ImmutableMemTable.get tree.immutables key, old = record) ∧
        (newest ImmutableMemTable.get tree.immutables key = none →
          fileRecord platform tree.sstables key = some record) := by
  rw [LsmTree.record, empty, MemTable.get_new, Option.none_or]
  cases newest ImmutableMemTable.get tree.immutables key with
  | none => simp
  | some old => simp

/-- Records that come in front of the right one must be the right one. -/
theorem or_eq_some_iff_of_behind {front behind : Option FunRecord}
    (shown : behind.or front = some record) :
    front.or behind = some record ↔ ∀ old ∈ front, old = record := by
  cases front with
  | none => simpa using shown
  | some old => simp

/-- Files whose newest record of the key is the right one keep it in front
exactly when the compaction shows it. -/
theorem fileRecord_triggerCompaction_iff
    (files : FilesBelow platform tree.sstables (platform.clock tree.readings))
    (shown : fileRecord platform tree.sstables key = some record) :
    fileRecord platform (tree.triggerCompaction platform).sstables key = some record ↔
      tree.CompactionShows platform key record := by
  rw [triggerCompaction_eq files, CompactionShows]
  split
  · rename_i many
    have merged := fileRecord_mergedFile files key
    rw [← tree.selected_append_kept, fileRecord, newest_append] at shown
    rw [fileRecord] at merged
    rw [fileRecord, newest_append, merged]
    exact (or_eq_some_iff_of_behind shown).trans ⟨fun same _ => same, fun same => same many⟩
  · rename_i few
    exact iff_of_true shown fun many => absurd many few

end Answers

section Flush

variable {platform} {tree : LsmTree} {key : RecordKey} {record : FunRecord}

variable (platform) in
theorem immutables_triggerCompaction (tree : LsmTree) :
    (tree.triggerCompaction platform).immutables = tree.immutables ∧
      (tree.triggerCompaction platform).active = tree.active := by
  rw [triggerCompaction]
  split <;> exact ⟨rfl, rfl⟩

theorem flushedLast_eq
    (files : FilesBelow platform tree.sstables (platform.clock tree.readings)) :
    tree.flushedLast platform =
      { tree with
        active := MemTable.new
        sstables := tree.sstables ++
          [flushedFile platform (platform.clock tree.readings) tree.active.freeze]
        readings := tree.readings + 1 } := by
  have last : (tree.frozen platform).immutables = tree.immutables ++ [tree.active.freeze] := rfl
  rw [flushedLast, runFlushTask_last _ last tree.sstables [] (List.append_nil _).symm files.below
    (by simp), List.append_nil]
  rfl

theorem flushedLast_below (ticks : StrictMono platform.clock)
    (files : FilesBelow platform tree.sstables (platform.clock tree.readings)) :
    FilesBelow platform (tree.flushedLast platform).sstables
      (platform.clock (tree.flushedLast platform).readings) := by
  rw [flushedLast_eq files]
  exact files.concat (finish_sound platform tree.active.freeze.distinct) le_rfl
    (ticks (Nat.lt_succ_self _))

theorem fileRecord_flushedLast
    (files : FilesBelow platform tree.sstables (platform.clock tree.readings))
    (held : tree.active.get key = some record) :
    fileRecord platform (tree.flushedLast platform).sstables key = some record := by
  rw [flushedLast_eq files, fileRecord, newest_append, newest_singleton, get_flushedFile, held]
  rfl

/-- The task of the flush after its compaction: the file has an older name than
the merged one. -/
theorem fileRecord_lateFlush_iff (ticks : StrictMono platform.clock)
    (files : FilesBelow platform tree.sstables (platform.clock tree.readings))
    (held : tree.active.get key = some record) :
    fileRecord platform (((tree.frozen platform).triggerCompaction platform).runFlushTask platform
        tree.immutables.length (platform.clock tree.readings)).sstables key = some record ↔
      (tree.frozen platform).CompactionShows platform key record := by
  have compacted := triggerCompaction_eq (frozen_files ticks files)
  by_cases many : 2 ≤ (tree.frozen platform).selected.length
  · have last : ((tree.frozen platform).triggerCompaction platform).immutables =
        tree.immutables ++ [tree.active.freeze] := (immutables_triggerCompaction platform _).1
    have split : ((tree.frozen platform).triggerCompaction platform).sstables =
        tree.kept ++ [(tree.frozen platform).mergedFile platform] := by
      rw [compacted, if_pos many]
      rfl
    have keptBelow : ∀ file ∈ tree.kept, file.name < platform.clock tree.readings :=
      fun file member => files.below file (mem_of_mem_kept member)
    have mergedAbove : ∀ file ∈ [(tree.frozen platform).mergedFile platform],
        platform.clock tree.readings < file.name := by
      intro file member
      rw [List.mem_singleton.mp member]
      exact ticks (Nat.lt_succ_self _)
    have merged := fileRecord_mergedFile (frozen_files ticks files) key
    rw [fileRecord] at merged
    rw [runFlushTask_last _ last _ _ split keptBelow mergedAbove]
    rw [fileRecord, newest_append, merged, newest_append, newest_singleton, get_flushedFile, held,
      Option.some_or]
    have behind : (some record).or (fileRecord platform (tree.frozen platform).selected key) =
        some record := rfl
    exact (or_eq_some_iff_of_behind behind).trans
      ⟨fun same _ => same, fun same => same many⟩
  · have alone := fileRecord_flushedLast files held
    rw [compacted, if_neg many]
    exact iff_of_true alone fun enough => absurd enough many

theorem active_runFlushTask (tree : LsmTree) (immIdx name : Nat) :
    (tree.runFlushTask platform immIdx name).active = tree.active := by
  rw [runFlushTask]
  split
  · rfl
  · rw [removeImmutable]
    split <;> rfl

theorem immutables_runFlushTask_last {earlier : List ImmutableMemTable}
    {immutable : ImmutableMemTable} (last : tree.immutables = earlier ++ [immutable])
    (name : Nat) : (tree.runFlushTask platform earlier.length name).immutables = earlier := by
  have removed : (earlier ++ [immutable]).eraseIdx earlier.length = earlier := by
    rw [List.eraseIdx_append_of_length_le le_rfl]
    simp
  simp [runFlushTask, readImmutable, writeSstable, removeImmutable, last, removed]

theorem flushMemtable_eq_last (timing : FlushTiming) :
    tree.flushMemtable platform timing =
      match timing with
      | .beforeCheck =>
          if (tree.flushedLast platform).shouldCompact then
            (tree.flushedLast platform).triggerCompaction platform
          else
            tree.flushedLast platform
      | .afterCheck =>
          if (tree.frozen platform).shouldCompact then
            (tree.flushedLast platform).triggerCompaction platform
          else
            tree.flushedLast platform
      | .afterCompaction =>
          (if (tree.frozen platform).shouldCompact then
            (tree.frozen platform).triggerCompaction platform
          else
            tree.frozen platform).runFlushTask platform tree.immutables.length
              (platform.clock tree.readings) := by
  have position : (tree.immutables ++ [tree.active.freeze]).length - 1 =
      tree.immutables.length := by simp
  simp only [flushMemtable, freezeActive, position]
  cases timing <;> rfl

/-- What a flush whose task has run shows for a key of the active memtable. -/
theorem record_flushMemtable_iff (ticks : StrictMono platform.clock)
    (files : FilesBelow platform tree.sstables (platform.clock tree.readings))
    (held : tree.active.get key = some record) (timing : FlushTiming) :
    (tree.flushMemtable platform timing).record platform key = some record ↔
      (∀ old ∈ newest ImmutableMemTable.get tree.immutables key, old = record) ∧
        (newest ImmutableMemTable.get tree.immutables key = none →
          tree.FlushShows platform key record timing) := by
  have early := flushedLast_below ticks files
  have shown := fileRecord_flushedLast files held
  have swapped : (tree.flushedLast platform).active = MemTable.new ∧
      (tree.flushedLast platform).immutables = tree.immutables := by
    rw [flushedLast_eq files]
    exact ⟨rfl, rfl⟩
  have alone : (tree.flushedLast platform).record platform key = some record ↔
      (∀ old ∈ newest ImmutableMemTable.get tree.immutables key, old = record) := by
    rw [record_eq_some_iff swapped.1, swapped.2]
    exact and_iff_left fun _ => shown
  have compacted : ((tree.flushedLast platform).triggerCompaction platform).record platform key =
        some record ↔
      (∀ old ∈ newest ImmutableMemTable.get tree.immutables key, old = record) ∧
        (newest ImmutableMemTable.get tree.immutables key = none →
          (tree.flushedLast platform).CompactionShows platform key record) := by
    rcases immutables_triggerCompaction platform (tree.flushedLast platform) with
      ⟨sameImmutables, sameActive⟩
    rw [record_eq_some_iff (sameActive.trans swapped.1), sameImmutables, swapped.2,
      fileRecord_triggerCompaction_iff early shown]
  rw [flushMemtable_eq_last]
  cases timing with
  | beforeCheck =>
      by_cases compacts : (tree.flushedLast platform).shouldCompact = true
      · simpa [FlushShows, compacts] using compacted
      · simpa [FlushShows, compacts] using alone
  | afterCheck =>
      by_cases compacts : (tree.frozen platform).shouldCompact = true
      · simpa [FlushShows, compacts] using compacted
      · simpa [FlushShows, compacts] using alone
  | afterCompaction =>
      by_cases compacts : (tree.frozen platform).shouldCompact = true
      · have swappedLate := immutables_triggerCompaction platform
          (tree.frozen platform)
        have last : ((tree.frozen platform).triggerCompaction platform).immutables =
            tree.immutables ++ [tree.active.freeze] := swappedLate.1
        simp only [FlushShows, compacts, if_true, true_implies]
        rw [record_eq_some_iff ((active_runFlushTask _ _ _).trans swappedLate.2),
          immutables_runFlushTask_last last, fileRecord_lateFlush_iff ticks files held]
      · simpa [FlushShows, compacts, flushedLast] using alone

end Flush

section Writes

variable {platform} {tree : LsmTree} {key : RecordKey} {record : FunRecord}

theorem filesWritten_writeUntil (written : tree.FilesWritten platform) (key : RecordKey)
    (record : FunRecord) (timing : Option FlushTiming) :
    (tree.writeUntil platform key record timing).FilesWritten platform := by
  cases timing with
  | none =>
      have frozen : ((tree.inserted platform key record).frozen platform).FilesWritten platform :=
        written
      rw [writeUntil, writePending]
      dsimp only
      split
      · split
        · exact filesWritten_triggerCompaction frozen
        · exact frozen
      · exact written
  | some timing => exact filesWritten_apply written (.write key record timing)

theorem active_inserted (tree : LsmTree) (key : RecordKey) (record : FunRecord) :
    (tree.inserted platform key record).active.get key = some record := by
  have same : (tree.inserted platform key record).active = tree.active.insert platform key record :=
    rfl
  rw [same, MemTable.get_insert, if_pos rfl]

/-- While the record is in the active memtable it answers. -/
theorem record_inserted (tree : LsmTree) (key : RecordKey) (record : FunRecord) :
    (tree.inserted platform key record).record platform key = some record := by
  rw [LsmTree.record, active_inserted]
  rfl

/-- While the task is pending the record is in the newest immutable. -/
theorem record_writePending
    (tree : LsmTree) (key : RecordKey) (record : FunRecord) :
    (tree.writePending platform key record).record platform key = some record := by
  have frozenShows : ((tree.inserted platform key record).frozen platform).record platform key =
      some record := by
    rw [frozen, FlushSystem.record_freezeActive, record_inserted]
  rw [writePending]
  dsimp only
  split
  · split
    · rcases immutables_triggerCompaction platform
        ((tree.inserted platform key record).frozen platform) with ⟨immutables, active⟩
      have newestHas : newest ImmutableMemTable.get
          ((tree.inserted platform key record).frozen platform).immutables key = some record := by
        have last : ((tree.inserted platform key record).frozen platform).immutables =
            tree.immutables ++ [(tree.inserted platform key record).active.freeze] := rfl
        rw [last, newest_append, newest_singleton, MemTable.get_freeze, active_inserted,
          Option.some_or]
      rw [record_eq_some_iff active, immutables, newestHas]
      simp
    · exact frozenShows
  · exact record_inserted tree key record

/-- In every state of a store, a record that was written is found by reads and
scans exactly when its confidence is not zero and nothing older is in front. -/
theorem written_record_readable_iff (ticks : StrictMono platform.clock) (tree : LsmTree)
    (written : tree.FilesWritten platform)
    (files : FilesBelow platform tree.sstables (platform.clock tree.readings))
    (key : RecordKey) (record : FunRecord) (timing : Option FlushTiming) :
    ((tree.writeUntil platform key record timing).get platform key = some record ∧
        ∀ range : KeyRange, range.contains key = true →
          (key, record) ∈ (tree.writeUntil platform key record timing).scan range) ↔
      record.confidence ≠ 0 ∧ tree.WriteShows platform key record timing := by
  have scans : (∀ range : KeyRange, range.contains key = true →
        (key, record) ∈ (tree.writeUntil platform key record timing).scan range) ↔
      (tree.writeUntil platform key record timing).get platform key = some record := by
    simp only [mem_scan_iff (filesWritten_writeUntil written key record timing)]
    constructor
    · intro shown
      exact (shown ⟨key, key, le_rfl⟩ (by simp [KeyRange.contains])).2
    · exact fun found range inside => ⟨inside, found⟩
  rw [scans, and_self, get_eq_some_iff]
  apply and_congr_right'
  cases timing with
  | none => exact iff_of_true (record_writePending tree key record) trivial
  | some timing =>
      rw [writeUntil, write_eq, WriteShows, WriteFlushes]
      split
      · rename_i full
        have insertedFiles : FilesBelow platform (tree.inserted platform key record).sstables
            (platform.clock (tree.inserted platform key record).readings) := files
        have flush_iff := record_flushMemtable_iff ticks insertedFiles
          (active_inserted tree key record) timing
        exact flush_iff.trans ⟨fun shows _ => shows, fun shows => shows full⟩
      · rename_i room
        exact iff_of_true (record_inserted tree key record) fun full => absurd full room

theorem written_record_readable_iff_flushing :
    let tree : LsmTree := { openDir plainPlatform [] [] 0 with flushThresholdBytes := 1 }
    (tree.writeUntil plainPlatform (makeKey 1) (makeRecord [1]) (some .afterCompaction)).get
      plainPlatform (makeKey 1) = some (makeRecord [1]) := by
  intro tree
  have files : FilesBelow plainPlatform tree.sstables (plainPlatform.clock tree.readings) :=
    (openDir_settled 0).files
  exact ((written_record_readable_iff plainPlatform_clock tree (fun _ member => by cases member)
    files (makeKey 1) (makeRecord [1]) (some .afterCompaction)).mpr (by decide +kernel)).1

/-- A record of confidence zero is taken for a tombstone. -/
theorem zero_confidence_not_read :
    let record : FunRecord := { makeRecord [1] with confidence := 0 }
    let tree := openDir plainPlatform [] [] 0
    (0 ≤ record.confidence ∧ record.confidence ≤ 1) ∧
      (tree.writeUntil plainPlatform (makeKey 1) record none).get plainPlatform (makeKey 1) =
        none := by
  decide +kernel

end Writes

end LsmTree

end FunDB.Storage
