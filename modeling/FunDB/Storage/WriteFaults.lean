import FunDB.Storage.WrittenReads

/-! # Writes that fail

A write logs, inserts and may flush, and gives up at the first of these that
fails. What it did before stays: the record is in a memtable as soon as the
insert is done, whatever becomes of the flush. -/

namespace FunDB.Storage

open KeyedList Overlay

/-- Where a write can fail. -/
inductive WriteFault where
  /-- "WAL mutex poisoned", or "WAL append failed during write" -/
  | wal
  /-- "memtable insert failed" -/
  | memtable
  /-- "failed to read directory" -/
  | directory
  /-- "compaction: failed to open SSTable" -/
  | sstable
  /-- "compaction: merge_sstables failed" -/
  | merge (remains : FileRemains)
deriving DecidableEq, Repr

namespace LsmTree

variable (platform : Platform)

/-! ## The fallible calls -/

/-- The merged file in the directory, beside the files it was merged from. -/
def withMerged (tree : LsmTree) : LsmTree :=
  { tree with
    sstables := createFile tree.sstables (tree.mergedFile platform)
    readings := tree.readings + 1 }

/-- `triggerCompaction` with a fault. Files that cannot be deleted are only
reported. A part of a merged file is not in the list of files: no scan gets past
it. -/
def tryTriggerCompaction (tree : LsmTree) (fault : Option WriteFault) :
    Except WriteFault Unit × LsmTree :=
  if fault = some .directory then
    (.error .directory, tree)
  else if tree.selected.length < 2 then
    (.ok (), tree)
  else
    match fault with
    | some .sstable => (.error .sstable, tree)
    | some (.merge .whole) => (.error (.merge .whole), tree.withMerged platform)
    | some (.merge remains) => (.error (.merge remains), { tree with readings := tree.readings + 1 })
    | _ => (.ok (), tree.triggerCompaction platform)

/-- `flushMemtable` with a fault. The task is spawned before the compaction and
runs whether or not that fails. -/
def tryFlushMemtable (tree : LsmTree) (timing : FlushTiming) (fault : Option WriteFault) :
    Except WriteFault Unit × LsmTree :=
  let ((immIdx, name), tree) := tree.freezeActive platform
  match timing with
  | .beforeCheck =>
      let tree := tree.runFlushTask platform immIdx name
      if tree.shouldCompact then tree.tryTriggerCompaction platform fault else (.ok (), tree)
  | .afterCheck =>
      let compact := tree.shouldCompact
      let tree := tree.runFlushTask platform immIdx name
      if compact then tree.tryTriggerCompaction platform fault else (.ok (), tree)
  | .afterCompaction =>
      let (result, tree) :=
        if tree.shouldCompact then tree.tryTriggerCompaction platform fault else (.ok (), tree)
      (result, tree.runFlushTask platform immIdx name)

/-- `write` with a fault. -/
def tryWrite (tree : LsmTree) (key : RecordKey) (record : FunRecord) (timing : FlushTiming)
    (fault : Option WriteFault) : Except WriteFault Unit × LsmTree :=
  if fault = some .wal then
    (.error .wal, tree)
  else
    let tree := tree.logEntry (.write 0 key record)
    if fault = some .memtable then
      (.error .memtable, tree)
    else
      let tree := tree.insertActive platform key record
      if tree.active.sizeBytes ≥ tree.flushThresholdBytes then
        tree.tryFlushMemtable platform timing fault
      else
        (.ok (), tree)

/-! ## Without a fault -/

section Faultless

variable {platform} (tree : LsmTree)

@[simp] theorem tryTriggerCompaction_none :
    tree.tryTriggerCompaction platform none = (.ok (), tree.triggerCompaction platform) := by
  unfold tryTriggerCompaction triggerCompaction
  simp only [reduceCtorEq, if_false]
  split <;> rfl

theorem tryFlushMemtable_none (timing : FlushTiming) :
    tree.tryFlushMemtable platform timing none = (.ok (), tree.flushMemtable platform timing) := by
  unfold tryFlushMemtable flushMemtable
  cases timing <;> simp only [tryTriggerCompaction_none] <;> split <;> rfl

theorem tryWrite_none (key : RecordKey) (record : FunRecord) (timing : FlushTiming) :
    tree.tryWrite platform key record timing none =
      (.ok (), tree.write platform key record timing) := by
  unfold tryWrite write
  simp only [reduceCtorEq, if_false, tryFlushMemtable_none]
  split <;> rfl

end Faultless

/-! ## What rearranging keeps -/

/-- The later tree has no record that the earlier one had not, and an answer for
each of its keys. -/
structure Rearranged (before after : LsmTree) : Prop where
  present : ∀ key record, after.Present platform key record → before.Present platform key record
  answers : ∀ key, before.record platform key ≠ none → after.record platform key ≠ none

/-- The record answers for the key, and the tree holds no other one of it. -/
structure Sole (tree : LsmTree) (key : RecordKey) (record : FunRecord) : Prop where
  answers : tree.record platform key = some record
  alone : ∀ other, tree.Present platform key other → other = record

section Rearranging

variable {platform} {tree before middle after : LsmTree}

theorem Rearranged.refl (tree : LsmTree) : tree.Rearranged platform tree :=
  ⟨fun _ _ held => held, fun _ answered => answered⟩

theorem Rearranged.trans (first : before.Rearranged platform middle)
    (second : middle.Rearranged platform after) : before.Rearranged platform after where
  present key record held := first.present key record (second.present key record held)
  answers key answered := second.answers key (first.answers key answered)

theorem Sole.of_rearranged {key : RecordKey} {record : FunRecord}
    (sole : before.Sole platform key record) (rearranged : before.Rearranged platform after) :
    after.Sole platform key record := by
  have alone (other : FunRecord) (held : after.Present platform key other) : other = record :=
    sole.alone other (rearranged.present key other held)
  have answered : after.record platform key ≠ none := by
    apply rearranged.answers
    rw [sole.answers]
    exact Option.some_ne_none record
  rcases Option.ne_none_iff_exists'.mp answered with ⟨other, found⟩
  refine ⟨?_, alone⟩
  rw [found, alone other (present_of_record found)]

/-- Files keep no more than earlier files and the active memtable had. -/
theorem present_of_files (active : after.active.get = before.active.get ∨
      after.active = MemTable.new)
    (immutables : after.immutables = [])
    (files : ∀ file ∈ after.sstables, ∀ key record,
      file.reader.get platform key = some record → before.Present platform key record)
    (key : RecordKey) (record : FunRecord) (held : after.Present platform key record) :
    before.Present platform key record := by
  rcases held with inActive | ⟨immutable, member, _⟩ | ⟨file, member, inFile⟩
  · rcases active with same | empty
    · exact .inl (same ▸ inActive)
    · rw [empty, MemTable.get_new] at inActive
      cases inActive
  · rw [immutables] at member
    cases member
  · exact files file member key record inFile

theorem present_of_sstable {file : SstFile} (member : file ∈ tree.sstables) {key : RecordKey}
    {record : FunRecord} (held : file.reader.get platform key = some record) :
    tree.Present platform key record :=
  .inr (.inr ⟨file, member, held⟩)

theorem present_of_flushedFile {name : Nat} {key : RecordKey} {record : FunRecord}
    (held : (flushedFile platform name tree.active.freeze).reader.get platform key =
      some record) : tree.Present platform key record :=
  .inl (by rwa [get_flushedFile] at held)

/-- A merged file has nothing that the selected files had not. -/
theorem present_of_mergedFile
    (files : FilesBelow platform tree.sstables (platform.clock tree.readings))
    {key : RecordKey} {record : FunRecord}
    (held : (tree.mergedFile platform).reader.get platform key = some record) :
    tree.Present platform key record := by
  have merged := fileRecord_mergedFile files key
  rw [fileRecord, newest_singleton, held] at merged
  rcases exists_of_newest_eq_some _ merged.symm with ⟨file, member, inFile⟩
  exact present_of_sstable (mem_of_mem_selected member) inFile

theorem present_of_selected {key : RecordKey} {record : FunRecord}
    (found : fileRecord platform tree.selected key = some record) :
    tree.Present platform key record := by
  rcases exists_of_newest_eq_some _ found with ⟨file, member, inFile⟩
  exact present_of_sstable (mem_of_mem_selected member) inFile

/-- What a merge does to the answers: the merged files come before the others. -/
def Swapped (platform : Platform) (before after : LsmTree) : Prop :=
  ∀ key, after.record platform key = (before.active.get key).or
    ((fileRecord platform before.selected key).or (before.youngRecord platform key))

theorem Swapped.answers (swapped : before.Swapped platform after) (key : RecordKey)
    (answered : before.record platform key ≠ none) : after.record platform key ≠ none := by
  rw [record_eq_young_or_selected] at answered
  rw [swapped key]
  intro missing
  apply answered
  simp only [Option.or_eq_none_iff] at missing ⊢
  exact ⟨missing.1, missing.2.2, missing.2.1⟩

theorem rearranged_flushed (settled : tree.Settled platform) :
    tree.Rearranged platform (tree.flushed platform) where
  present := by
    apply present_of_files
    · exact .inr (by rw [flushed_eq settled])
    · rw [flushed_eq settled]
      exact settled.finished
    · intro file member key record held
      rw [flushed_eq settled] at member
      rcases List.mem_append.mp member with old | new
      · exact present_of_sstable old held
      · rw [List.mem_singleton.mp new] at held
        exact present_of_flushedFile held
  answers key answered := by rwa [record_flushed settled]

theorem rearranged_triggerCompaction (settled : tree.Settled platform) :
    tree.Rearranged platform (tree.triggerCompaction platform) := by
  by_cases many : 2 ≤ tree.selected.length
  · refine ⟨?_, Swapped.answers (record_triggerCompaction settled many)⟩
    rw [triggerCompaction_eq settled.files, if_pos many]
    refine present_of_files ?_ settled.finished ?_
    · exact .inl rfl
    intro file member key record held
    rcases List.mem_append.mp member with old | new
    · exact present_of_sstable (mem_of_mem_kept old) held
    · rw [List.mem_singleton.mp new] at held
      exact present_of_mergedFile settled.files held
  · rw [triggerCompaction_eq settled.files, if_neg many]
    exact .refl tree

/-! ### A merged file beside its inputs -/

theorem withMerged_eq
    (files : FilesBelow platform tree.sstables (platform.clock tree.readings)) :
    tree.withMerged platform =
      { tree with
        sstables := tree.sstables ++ [tree.mergedFile platform]
        readings := tree.readings + 1 } := by
  have created : createFile (tree.sstables ++ []) (tree.mergedFile platform) =
      tree.sstables ++ [tree.mergedFile platform] ++ [] :=
    createFile_between files.below (by simp)
  rw [List.append_nil, List.append_nil] at created
  rw [withMerged, created]

/-- The selected files answer twice, the second time in vain. -/
theorem or_or_left_self {first second : Option FunRecord} :
    first.or (second.or first) = first.or second := by
  cases first <;> cases second <;> rfl

theorem swapped_withMerged (settled : tree.Settled platform) :
    tree.Swapped platform (tree.withMerged platform) := by
  intro key
  have merged := fileRecord_mergedFile settled.files key
  rw [fileRecord] at merged
  rw [withMerged_eq settled.files]
  simp only [record, youngRecord, settled.finished, newest_nil, Option.none_or]
  rw [fileRecord, newest_append, merged]
  rw [← tree.selected_append_kept, newest_append]
  exact congrArg _ or_or_left_self

theorem rearranged_withMerged (settled : tree.Settled platform) :
    tree.Rearranged platform (tree.withMerged platform) := by
  refine ⟨?_, (swapped_withMerged settled).answers⟩
  rw [withMerged_eq settled.files]
  refine present_of_files ?_ settled.finished ?_
  · exact .inl rfl
  intro file member key record held
  rcases List.mem_append.mp member with old | new
  · exact present_of_sstable old held
  · rw [List.mem_singleton.mp new] at held
    exact present_of_mergedFile settled.files held

/-! ### A task behind its compaction -/

/-- The tree when the task runs last: its file comes before the merged one. -/
def lateTree (platform : Platform) (tree : LsmTree) (older : List SstFile) : LsmTree :=
  { tree with
    active := MemTable.new
    sstables := older ++
      [flushedFile platform (platform.clock tree.readings) tree.active.freeze] ++
        [(tree.frozen platform).mergedFile platform]
    readings := tree.readings + 2 }

theorem present_lateTree (ticks : StrictMono platform.clock) (settled : tree.Settled platform)
    {older : List SstFile} (within : ∀ file ∈ older, file ∈ tree.sstables) (key : RecordKey)
    (record : FunRecord) (held : (tree.lateTree platform older).Present platform key record) :
    tree.Present platform key record := by
  have finished : (tree.lateTree platform older).immutables = [] := settled.finished
  refine present_of_files ?_ finished ?_ key record held
  · exact .inr rfl
  intro file member key record held
  rcases List.mem_append.mp member with behind | last
  · rcases List.mem_append.mp behind with old | flushedLast
    · exact present_of_sstable (within file old) held
    · rw [List.mem_singleton.mp flushedLast] at held
      exact present_of_flushedFile held
  · rw [List.mem_singleton.mp last] at held
    have merged := fileRecord_mergedFile (frozen_files ticks settled.files) key
    rw [fileRecord, newest_singleton, held] at merged
    exact present_of_selected merged.symm

theorem rearranged_lateFlush (ticks : StrictMono platform.clock)
    (settled : tree.Settled platform) (many : 2 ≤ (tree.frozen platform).selected.length) :
    tree.Rearranged platform
      (((tree.frozen platform).triggerCompaction platform).runFlushTask platform 0
        (platform.clock tree.readings)) where
  present := by
    rw [lateFlush_eq ticks settled many]
    exact present_lateTree ticks settled fun file member => mem_of_mem_kept member
  answers key answered := by
    have swapped : (tree.frozen platform).Swapped platform _ := record_lateFlush ticks settled many
    apply swapped.answers key
    rwa [record_frozen settled]

theorem lateWhole_eq (ticks : StrictMono platform.clock) (settled : tree.Settled platform) :
    ((tree.frozen platform).withMerged platform).runFlushTask platform 0
        (platform.clock tree.readings) = tree.lateTree platform tree.sstables := by
  rw [withMerged_eq (frozen_files ticks settled.files)]
  rw [runFlushTask_eq tree.active.freeze _ tree.sstables
    [(tree.frozen platform).mergedFile platform] rfl settled.files.below]
  · simp [lateTree, frozen, freezeActive, settled.finished]
  · intro file member
    rw [List.mem_singleton.mp member]
    exact ticks (Nat.lt_succ_self _)
  · simp [frozen, freezeActive, settled.finished]

theorem swapped_lateWhole (ticks : StrictMono platform.clock) (settled : tree.Settled platform) :
    (tree.frozen platform).Swapped platform (tree.lateTree platform tree.sstables) := by
  intro key
  have merged := fileRecord_mergedFile (frozen_files ticks settled.files) key
  have files : fileRecord platform tree.sstables key =
      (fileRecord platform (tree.frozen platform).kept key).or
        (fileRecord platform (tree.frozen platform).selected key) := by
    have same : (tree.frozen platform).sstables = tree.sstables := rfl
    rw [← same, ← (tree.frozen platform).selected_append_kept, fileRecord, newest_append]
    rfl
  have young : (tree.frozen platform).youngRecord platform key =
      (tree.active.get key).or (fileRecord platform (tree.frozen platform).kept key) := by
    have only : (tree.frozen platform).immutables = [tree.active.freeze] := by
      simp [frozen, freezeActive, settled.finished]
    rw [youngRecord, only, newest_singleton, MemTable.get_freeze]
  rw [fileRecord] at merged
  rw [lateTree, record, fileRecord, newest_append, newest_append, merged, newest_singleton,
    get_flushedFile]
  rw [fileRecord] at files
  rw [files, young]
  simp only [settled.finished, newest_nil, MemTable.get_new, Option.none_or]
  have empty : (tree.frozen platform).active.get key = none := MemTable.get_new key
  rw [empty, Option.none_or]
  generalize fileRecord platform (tree.frozen platform).selected key = selectedRecord
  generalize fileRecord platform (tree.frozen platform).kept key = keptRecord
  cases selectedRecord <;> cases tree.active.get key <;> cases keptRecord <;> rfl

theorem rearranged_lateWhole (ticks : StrictMono platform.clock)
    (settled : tree.Settled platform) :
    tree.Rearranged platform (tree.lateTree platform tree.sstables) where
  present := present_lateTree ticks settled fun _ member => member
  answers key answered := by
    apply (swapped_lateWhole ticks settled).answers key
    rwa [record_frozen settled]

theorem rearranged_flushMemtable (ticks : StrictMono platform.clock)
    (settled : tree.Settled platform) (timing : FlushTiming) :
    tree.Rearranged platform (tree.flushMemtable platform timing) := by
  have flush := rearranged_flushed settled
  rcases flushMemtable_cases ticks settled timing with alone | compacted | ⟨many, late⟩
  · rw [alone]
    exact flush
  · rw [compacted]
    exact flush.trans (rearranged_triggerCompaction (flushed_settled ticks settled))
  · rw [late]
    exact rearranged_lateFlush ticks settled many

end Rearranging

/-! ## What a failed flush leaves -/

section Flushing

variable {platform} {tree : LsmTree} {fault : Option WriteFault}

/-- The fault is one of a flush. -/
def Behind (fault : Option WriteFault) : Prop :=
  fault ≠ some .wal ∧ fault ≠ some .memtable

theorem tryTriggerCompaction_of_few (few : tree.selected.length < 2)
    (listed : fault ≠ some .directory) :
    tree.tryTriggerCompaction platform fault = (.ok (), tree.triggerCompaction platform) := by
  have unchanged : tree.triggerCompaction platform = tree := by
    rw [triggerCompaction]
    exact if_pos few
  unfold tryTriggerCompaction
  rw [if_neg listed, if_pos few, unchanged]

/-- A compaction succeeds, or fails with its files as they were, or fails behind
its merge. -/
theorem tryTriggerCompaction_cases (tree : LsmTree) (behind : Behind fault) :
    (tree.tryTriggerCompaction platform fault = (.ok (), tree.triggerCompaction platform) ∧
        (2 ≤ tree.selected.length → fault = none)) ∨
      (∃ error readings, tree.tryTriggerCompaction platform fault =
          (.error error, { tree with readings := readings }) ∧ error ≠ .merge .whole) ∨
      fault = some (.merge .whole) ∧ 2 ≤ tree.selected.length ∧
        tree.tryTriggerCompaction platform fault =
          (.error (.merge .whole), tree.withMerged platform) := by
  rcases behind with ⟨notWal, notMemtable⟩
  by_cases unlisted : fault = some .directory
  · subst unlisted
    exact .inr (.inl ⟨.directory, tree.readings, rfl, by simp⟩)
  by_cases few : tree.selected.length < 2
  · exact .inl ⟨tryTriggerCompaction_of_few few unlisted, fun many => by omega⟩
  unfold tryTriggerCompaction
  rw [if_neg unlisted, if_neg few]
  rcases fault with _ | (_ | _ | _ | _ | remains)
  · exact .inl ⟨rfl, fun _ => rfl⟩
  · exact absurd rfl notWal
  · exact absurd rfl notMemtable
  · exact absurd rfl unlisted
  · exact .inr (.inl ⟨.sstable, tree.readings, rfl, by simp⟩)
  · cases remains with
    | nothing => exact .inr (.inl ⟨.merge .nothing, tree.readings + 1, rfl, by simp⟩)
    | part => exact .inr (.inl ⟨.merge .part, tree.readings + 1, rfl, by simp⟩)
    | whole => exact .inr (.inr ⟨rfl, by omega, rfl⟩)

theorem runFlushTask_readings (tree : LsmTree) (immIdx name readings : Nat) :
    ({ tree with readings := readings }.runFlushTask platform immIdx name) =
      { tree.runFlushTask platform immIdx name with readings := readings } := by
  simp only [runFlushTask, readImmutable, writeSstable, removeImmutable]
  cases tree.immutables[immIdx]? with
  | none => rfl
  | some immutable =>
      by_cases within : immIdx < tree.immutables.length
      · simp [within]
      · simp [within]

/-- The compaction that a flush makes if its check asks for one. -/
def tryCompactIf (platform : Platform) (tree : LsmTree) (compact : Bool)
    (fault : Option WriteFault) : Except WriteFault Unit × LsmTree :=
  if compact then tree.tryTriggerCompaction platform fault else (.ok (), tree)

theorem tryCompactIf_cases (tree : LsmTree) (compact : Bool) (behind : Behind fault) :
    (tree.tryCompactIf platform compact fault =
        (.ok (), if compact then tree.triggerCompaction platform else tree) ∧
          (fault = none ∨ (compact = true → tree.CompactionSafe platform))) ∨
      (∃ error readings, tree.tryCompactIf platform compact fault =
          (.error error, { tree with readings := readings }) ∧ error ≠ .merge .whole) ∨
      fault = some (.merge .whole) ∧ 2 ≤ tree.selected.length ∧ compact = true ∧
        tree.tryCompactIf platform compact fault =
          (.error (.merge .whole), tree.withMerged platform) := by
  cases compact with
  | false => exact .inl ⟨rfl, .inr fun impossible => by cases impossible⟩
  | true =>
      rw [tryCompactIf, if_pos rfl]
      rcases tryTriggerCompaction_cases tree behind with
        ⟨same, faultless⟩ | ⟨error, readings, same, other⟩ | ⟨whole, many, same⟩
      · refine .inl ⟨same, ?_⟩
        by_cases many : 2 ≤ tree.selected.length
        · exact .inl (faultless many)
        · exact .inr fun _ enough => absurd enough many
      · exact .inr (.inl ⟨error, readings, same, other⟩)
      · exact .inr (.inr ⟨whole, many, rfl, same⟩)

theorem tryFlushMemtable_eq (finished : tree.immutables = []) (timing : FlushTiming)
    (fault : Option WriteFault) :
    tree.tryFlushMemtable platform timing fault =
      match timing with
      | .beforeCheck => (tree.flushed platform).tryCompactIf platform
          (tree.flushed platform).shouldCompact fault
      | .afterCheck => (tree.flushed platform).tryCompactIf platform
          (tree.frozen platform).shouldCompact fault
      | .afterCompaction =>
          let result := (tree.frozen platform).tryCompactIf platform
            (tree.frozen platform).shouldCompact fault
          (result.1, result.2.runFlushTask platform 0 (platform.clock tree.readings)) := by
  rw [tryFlushMemtable]
  simp only [freezeActive, finished, flushed, frozen]
  rfl

/-- How a flush with a fault ends: as the flush does, with the task alone and an
error, or with an error behind a merge that came to answer. -/
theorem tryFlushMemtable_cases (ticks : StrictMono platform.clock)
    (settled : tree.Settled platform) (timing : FlushTiming) (behind : Behind fault) :
    (tree.tryFlushMemtable platform timing fault =
        (.ok (), tree.flushMemtable platform timing) ∧
          (fault = none ∨ tree.SafeFlush platform timing)) ∨
      (∃ error readings, tree.tryFlushMemtable platform timing fault =
          (.error error, { tree.flushed platform with readings := readings }) ∧
            error ≠ .merge .whole) ∨
      fault = some (.merge .whole) ∧ ∃ base after,
        (base = tree.flushed platform ∨ base = tree.frozen platform) ∧
          2 ≤ base.selected.length ∧
          (tree.SafeFlush platform timing ↔ base.CompactionSafe platform) ∧
          base.Swapped platform after ∧ tree.Rearranged platform after ∧
          tree.tryFlushMemtable platform timing fault = (.error (.merge .whole), after) := by
  have early := flushed_settled ticks settled
  have rearranged := (rearranged_flushed settled).trans (rearranged_withMerged early)
  rw [tryFlushMemtable_eq settled.finished, flushMemtable_eq settled.finished]
  cases timing with
  | beforeCheck =>
      rcases tryCompactIf_cases (tree.flushed platform) (tree.flushed platform).shouldCompact
        behind with done | failed | ⟨whole, many, due, same⟩
      · exact .inl done
      · exact .inr (.inl failed)
      · exact .inr (.inr ⟨whole, _, _, .inl rfl, many, forall_prop_of_true due,
          swapped_withMerged early, rearranged, same⟩)
  | afterCheck =>
      rcases tryCompactIf_cases (tree.flushed platform) (tree.frozen platform).shouldCompact
        behind with done | failed | ⟨whole, many, due, same⟩
      · exact .inl done
      · exact .inr (.inl failed)
      · exact .inr (.inr ⟨whole, _, _, .inl rfl, many, forall_prop_of_true due,
          swapped_withMerged early, rearranged, same⟩)
  | afterCompaction =>
      dsimp only
      rcases tryCompactIf_cases (tree.frozen platform) (tree.frozen platform).shouldCompact
        behind with ⟨same, safe⟩ | ⟨error, readings, same, other⟩ | ⟨whole, many, due, same⟩
      · rw [same]
        exact .inl ⟨rfl, safe⟩
      · rw [same, runFlushTask_readings]
        exact .inr (.inl ⟨error, readings, rfl, other⟩)
      · rw [same, lateWhole_eq ticks settled]
        exact .inr (.inr ⟨whole, _, _, .inr rfl, many, forall_prop_of_true due,
          swapped_lateWhole ticks settled, rearranged_lateWhole ticks settled, rfl⟩)

theorem filesWritten_tryCompactIf (written : tree.FilesWritten platform) (compact : Bool)
    (fault : Option WriteFault) :
    (tree.tryCompactIf platform compact fault).2.FilesWritten platform := by
  have merged : (tree.withMerged platform).FilesWritten platform := by
    intro file member
    rcases mem_createFile member with earlier | new
    · exact written file earlier
    · rw [new]
      exact SstableReader.written_mergeSstables _
  unfold tryCompactIf tryTriggerCompaction
  split
  · split
    · exact written
    · split
      · exact written
      · split
        · exact written
        · exact merged
        · exact written
        · exact filesWritten_triggerCompaction written
  · exact written

theorem filesWritten_tryFlushMemtable (settled : tree.Settled platform)
    (written : tree.FilesWritten platform) (timing : FlushTiming) (fault : Option WriteFault) :
    (tree.tryFlushMemtable platform timing fault).2.FilesWritten platform := by
  have frozen : (tree.frozen platform).FilesWritten platform := written
  have flushed : (tree.flushed platform).FilesWritten platform :=
    filesWritten_runFlushTask frozen _ _
  rw [tryFlushMemtable_eq settled.finished]
  cases timing with
  | beforeCheck => exact filesWritten_tryCompactIf flushed _ fault
  | afterCheck => exact filesWritten_tryCompactIf flushed _ fault
  | afterCompaction =>
      exact filesWritten_runFlushTask (filesWritten_tryCompactIf frozen _ fault) _ _

/-- A flush with a fault rearranges the tree, keeps the reads if its compactions
are safe, and leaves a settled tree when it succeeds. -/
theorem tryFlushMemtable_spec (ticks : StrictMono platform.clock)
    (settled : tree.Settled platform) (timing : FlushTiming) (behind : Behind fault) :
    tree.Rearranged platform (tree.tryFlushMemtable platform timing fault).2 ∧
      ((fault = none ∨ fault = some (.merge .whole) → tree.SafeFlush platform timing) →
        ∀ key, (tree.tryFlushMemtable platform timing fault).2.get platform key =
          tree.get platform key) ∧
      ((tree.tryFlushMemtable platform timing fault).1 = .ok () →
        (tree.tryFlushMemtable platform timing fault).2.Settled platform) := by
  rcases tryFlushMemtable_cases ticks settled timing behind with
    ⟨same, safe⟩ | ⟨error, readings, same, _⟩ | ⟨whole, base, after, from_, many, safe_iff,
      swapped, rearranged, same⟩
  · rw [same]
    refine ⟨rearranged_flushMemtable ticks settled timing, fun asked => ?_,
      fun _ => flushMemtable_settled ticks settled timing⟩
    apply (get_flushMemtable_iff ticks settled timing).mpr
    rcases safe with faultless | safe
    · exact asked (.inl faultless)
    · exact safe
  · rw [same]
    have flushed := rearranged_flushed settled
    exact ⟨⟨flushed.present, flushed.answers⟩, fun _ => get_flushed settled,
      fun impossible => by cases impossible⟩
  · rw [same]
    refine ⟨rearranged, fun asked key => ?_, fun impossible => by cases impossible⟩
    have kept := (get_eq_iff_compactionSafe many swapped).mpr
      (safe_iff.mp (asked (.inr whole))) key
    rcases from_ with rfl | rfl
    · exact kept.trans (get_flushed settled key)
    · exact kept.trans (get_frozen settled key)

end Flushing

/-! ## What a failed write leaves -/

section Writing

variable {platform} {tree : LsmTree} {fault : Option WriteFault}

instance Behind.decidable (fault : Option WriteFault) : Decidable (Behind fault) :=
  inferInstanceAs (Decidable (_ ∧ _))

/-- The compactions that the write completes, the last of them perhaps with an
error behind its merge, are safe. -/
def SafeWrite (platform : Platform) (tree : LsmTree) (key : RecordKey) (record : FunRecord)
    (timing : FlushTiming) (fault : Option WriteFault) : Prop :=
  fault = none ∨ fault = some (.merge .whole) →
    tree.SafeOperation platform (.write key record timing)

instance SafeWrite.decidable (tree : LsmTree) (key : RecordKey) (record : FunRecord)
    (timing : FlushTiming) (fault : Option WriteFault) :
    Decidable (tree.SafeWrite platform key record timing fault) :=
  inferInstanceAs (Decidable (_ → _))

/-- A write that fails before its insert leaves every answer. -/
theorem tryWrite_of_not_behind (key : RecordKey) (record : FunRecord) (timing : FlushTiming)
    (early : ¬ Behind fault) :
    ∃ error after, tree.tryWrite platform key record timing fault = (.error error, after) ∧
      error ≠ .merge .part ∧ after.active = tree.active ∧
      after.immutables = tree.immutables ∧ after.sstables = tree.sstables := by
  unfold tryWrite
  by_cases unlogged : fault = some .wal
  · rw [if_pos unlogged]
    exact ⟨.wal, tree, rfl, by simp, rfl, rfl, rfl⟩
  · have uninserted : fault = some .memtable := by
      by_contra inserted
      exact early ⟨unlogged, inserted⟩
    rw [if_neg unlogged, if_pos uninserted]
    exact ⟨.memtable, _, rfl, by simp, rfl, rfl, rfl⟩

theorem tryWrite_eq (key : RecordKey) (record : FunRecord) (timing : FlushTiming)
    (behind : Behind fault) :
    tree.tryWrite platform key record timing fault =
      if (tree.inserted platform key record).active.sizeBytes ≥ tree.flushThresholdBytes then
        (tree.inserted platform key record).tryFlushMemtable platform timing fault
      else
        (.ok (), tree.inserted platform key record) := by
  unfold tryWrite
  rw [if_neg behind.1, if_neg behind.2]
  rfl

theorem tryWrite_spec (ticks : StrictMono platform.clock) (settled : tree.Settled platform)
    (key : RecordKey) (record : FunRecord) (timing : FlushTiming) (behind : Behind fault) :
    (tree.inserted platform key record).Rearranged platform
        (tree.tryWrite platform key record timing fault).2 ∧
      (tree.SafeWrite platform key record timing fault →
        ∀ other, (tree.tryWrite platform key record timing fault).2.get platform other =
          (tree.inserted platform key record).get platform other) ∧
      ((tree.tryWrite platform key record timing fault).1 = .ok () →
        (tree.tryWrite platform key record timing fault).2.Settled platform) := by
  have inserted := inserted_settled settled key record
  rw [tryWrite_eq key record timing behind]
  split
  · rename_i full
    rcases tryFlushMemtable_spec ticks inserted timing behind with ⟨rearranged, kept, ended⟩
    exact ⟨rearranged, fun safe => kept fun completes => safe completes full, ended⟩
  · exact ⟨.refl _, fun _ _ => rfl, fun _ => inserted⟩

theorem filesWritten_tryWrite (settled : tree.Settled platform)
    (written : tree.FilesWritten platform) (key : RecordKey) (record : FunRecord)
    (timing : FlushTiming) (fault : Option WriteFault) :
    (tree.tryWrite platform key record timing fault).2.FilesWritten platform := by
  by_cases behind : Behind fault
  · rw [tryWrite_eq key record timing behind]
    split
    · exact filesWritten_tryFlushMemtable (inserted_settled settled key record) written timing
        fault
    · exact written
  · rcases tryWrite_of_not_behind key record timing behind with
      ⟨_, after, same, _, _, _, sameFiles⟩
    rw [same]
    intro file member
    exact written file (sameFiles ▸ member)

end Writing

end LsmTree

end FunDB.Storage
