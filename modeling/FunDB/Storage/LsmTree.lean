import FunDB.Storage.Sstable
import FunDB.Storage.Wal
import Mathlib.Data.List.Basic
import Mathlib.Order.Monotone.Basic

/-! # Compaction policy -/

namespace FunDB.Storage

inductive CompactionPolicy where
  /-- `levelSizeRatio` is kept for future use in the source. -/
  | leveled (levelSizeRatio maxLevels : Nat)
  | sizeTiered (minSstableCount : Nat)
deriving DecidableEq, Repr

namespace CompactionPolicy

universe u

variable {File : Type u}

def shouldCompact (policy : CompactionPolicy) (files : List File) : Bool :=
  match policy with
  | .leveled _ maxLevels => decide (files.length > maxLevels * 4)
  | .sizeTiered minSstableCount => decide (files.length ≥ minSstableCount)

/-- The oldest files, of a list sorted oldest first. -/
def selectFiles (policy : CompactionPolicy) (files : List File) : List File :=
  match policy with
  | .leveled _ _ =>
      let n := files.length
      if n = 0 then [] else files.take ((n + 1) / 2)
  | .sizeTiered minSstableCount =>
      if files.length < minSstableCount then [] else files.take minSstableCount

/-- What is not selected. -/
def keptFiles (policy : CompactionPolicy) (files : List File) : List File :=
  files.drop (policy.selectFiles files).length

theorem selectFiles_append_keptFiles (policy : CompactionPolicy) (files : List File) :
    policy.selectFiles files ++ policy.keptFiles files = files := by
  have isPrefix : policy.selectFiles files <+: files := by
    cases policy with
    | leveled ratio maxLevels =>
        rw [selectFiles]
        split
        · exact List.nil_prefix
        · exact List.take_prefix _ _
    | sizeTiered minSstableCount =>
        rw [selectFiles]
        split
        · exact List.nil_prefix
        · exact List.take_prefix _ _
  rcases isPrefix with ⟨kept, split⟩
  have rest : policy.keptFiles files = kept := by
    rw [keptFiles]
    nth_rewrite 2 [← split]
    exact List.drop_left
  rw [rest, split]

end CompactionPolicy

end FunDB.Storage

/-! ## The LSM tree

The tree by its atomic pieces. A flush spawns a task; `FlushTiming` says where
the task runs relative to the rest of the call that spawned it. -/

namespace FunDB.Storage

open KeyedList Overlay

/-- An SSTable file: the timestamp it is named by, and its content. -/
structure SstFile where
  name : Nat
  reader : SstableReader

structure LsmTree where
  active : MemTable
  wal : Wal
  /-- Oldest first. -/
  immutables : List ImmutableMemTable
  /-- The `.sst` files of the directory, sorted by name. -/
  sstables : List SstFile
  flushThresholdBytes : Nat
  compactionPolicy : CompactionPolicy
  /-- How often the clock was read. -/
  readings : Nat

/-- When the task that a flush spawns runs: before the directory is listed for
the compaction check, between the check and the compaction, or after both. -/
inductive FlushTiming where
  | beforeCheck
  | afterCheck
  | afterCompaction
deriving DecidableEq, Repr

/-! ## Tombstones -/

/-- An empty record of confidence zero. -/
def tombstoneRecord (collection : String) (id : Uuid) (now : Timestamp) : FunRecord :=
  ((FunRecordBuilder.new collection).withConfidence 0).build id now

def isTombstone (record : FunRecord) : Bool := record.confidence == 0

def filterTombstone (record : FunRecord) : Option FunRecord :=
  if isTombstone record then none else some record

/-! ## Files -/

/-- Write a file under its name into a directory listing, replacing a file of
the same name. -/
def createFile (files : List SstFile) (file : SstFile) : List SstFile :=
  files.filter (fun existing => existing.name < file.name) ++ [file] ++
    files.filter (fun existing => file.name < existing.name)

def removeFile (files : List SstFile) (name : Nat) : List SstFile :=
  files.filter fun existing => existing.name ≠ name

namespace LsmTree

variable (platform : Platform)

/-! ## Opening -/

/-- Replay one log entry into the memtable. -/
def replayEntry (active : MemTable) : WalEntry → MemTable
  | .write _ key record => active.insert platform key record
  -- "Tombstones: skip for now (the tombstone is already in the SSTable from the
  -- previous flush)."
  | .delete _ _ => active
  | .txnCommit _ | .txnAbort _ | .checkpoint _ => active

/-- `open` on a directory with the given log and files. -/
def openDir (logged : List WalEntry) (files : List SstFile) (readings : Nat) :
    LsmTree where
  active := logged.foldl (replayEntry platform) MemTable.new
  wal := Wal.openFile logged
  immutables := []
  sstables := files
  flushThresholdBytes := 64 * 1024 * 1024
  compactionPolicy := .leveled 10 7
  readings := readings

def reopen (tree : LsmTree) : LsmTree :=
  openDir platform tree.wal.entries tree.sstables tree.readings

/-! ## Reading -/

/-- Active memtable, immutables newest first, files newest first. -/
def get (tree : LsmTree) (key : RecordKey) : Option FunRecord :=
  match tree.active.get key with
  | some record => filterTombstone record
  | none =>
      match tree.immutables.reverse.findSome? fun immutable => immutable.get key with
      | some record => filterTombstone record
      | none =>
          match tree.sstables.reverse.findSome? fun file => file.reader.get platform key with
          | some record => filterTombstone record
          | none => none

/-! ## Compaction -/

/-- The files that a compaction merges, oldest first. -/
def selected (tree : LsmTree) : List SstFile :=
  tree.compactionPolicy.selectFiles tree.sstables

def shouldCompact (tree : LsmTree) : Bool :=
  tree.compactionPolicy.shouldCompact tree.sstables

/-- Merge the selected files into a file named by the current time, then delete
them. -/
def triggerCompaction (tree : LsmTree) : LsmTree :=
  let toMerge := tree.selected
  if toMerge.length < 2 then
    tree
  else
    let merged : SstFile :=
      { name := platform.clock tree.readings
        reader := mergeSstables platform (toMerge.map SstFile.reader) }
    { tree with
      sstables := (toMerge.map SstFile.name).foldl removeFile
        (createFile tree.sstables merged)
      readings := tree.readings + 1 }

/-! ## Flushing -/

/-- Swap and freeze the active memtable and push it to the immutables. The task
gets the position of the immutable and the name of its file. -/
def freezeActive (tree : LsmTree) : (Nat × Nat) × LsmTree :=
  let immutables := tree.immutables ++ [tree.active.freeze]
  ((immutables.length - 1, platform.clock tree.readings),
    { tree with
      active := MemTable.new
      immutables := immutables
      readings := tree.readings + 1 })

/-- First step of a task: read the immutable at its position. -/
def readImmutable (tree : LsmTree) (immIdx : Nat) :
    Option (List (RecordKey × FunRecord)) :=
  tree.immutables[immIdx]?.map ImmutableMemTable.entries

/-- Second step: write the file. -/
def writeSstable (tree : LsmTree) (name : Nat) (entries : List (RecordKey × FunRecord)) :
    LsmTree :=
  { tree with
    sstables := createFile tree.sstables { name := name, reader := finish platform entries } }

/-- Third step: remove the immutable at the position. -/
def removeImmutable (tree : LsmTree) (immIdx : Nat) : LsmTree :=
  if immIdx < tree.immutables.length then
    { tree with immutables := tree.immutables.eraseIdx immIdx }
  else
    tree

/-- The three steps in one go. -/
def runFlushTask (tree : LsmTree) (immIdx name : Nat) : LsmTree :=
  match tree.readImmutable immIdx with
  | none => tree
  | some entries => (tree.writeSstable platform name entries).removeImmutable immIdx

def flushMemtable (tree : LsmTree) (timing : FlushTiming) : LsmTree :=
  let ((immIdx, name), tree) := tree.freezeActive platform
  match timing with
  | .beforeCheck =>
      let tree := tree.runFlushTask platform immIdx name
      if tree.shouldCompact then tree.triggerCompaction platform else tree
  | .afterCheck =>
      let compact := tree.shouldCompact
      let tree := tree.runFlushTask platform immIdx name
      if compact then tree.triggerCompaction platform else tree
  | .afterCompaction =>
      let tree := if tree.shouldCompact then tree.triggerCompaction platform else tree
      tree.runFlushTask platform immIdx name

/-! ## Writing -/

def logEntry (tree : LsmTree) (entry : WalEntry) : LsmTree :=
  { tree with wal := (tree.wal.append entry).2 }

def insertActive (tree : LsmTree) (key : RecordKey) (record : FunRecord) : LsmTree :=
  { tree with active := tree.active.insert platform key record }

/-- Log, insert, and flush once the memtable has reached the threshold. -/
def write (tree : LsmTree) (key : RecordKey) (record : FunRecord) (timing : FlushTiming) :
    LsmTree :=
  let tree := tree.logEntry (.write 0 key record)
  let tree := tree.insertActive platform key record
  if tree.active.sizeBytes ≥ tree.flushThresholdBytes then
    tree.flushMemtable platform timing
  else
    tree

/-- Log, and insert a tombstone built with the given identifier and time. -/
def delete (tree : LsmTree) (key : RecordKey) (id : Uuid) (now : Timestamp) : LsmTree :=
  let tree := tree.logEntry (.delete 0 key)
  tree.insertActive platform key (tombstoneRecord key.collection id now)

end LsmTree

/-! ## A small platform -/

/-- Stand-ins for what the engine takes from outside, with a clock that counts. -/
def plainPlatform : Platform where
  encodeKey key := key.id.toList
  bloom :=
    { xxh3 := fun bytes => bytes.foldl (fun hash byte => hash * 31 + byte.toUInt64) 7
      xxh3WithSeed := fun bytes seed =>
        bytes.foldl (fun hash byte => hash * 37 + byte.toUInt64) seed
      optimalBits := fun capacity _ => 15 * capacity
      optimalHashes := fun bits capacity => UInt8.ofNat (bits * 7 / (capacity * 10)) }
  recordSize := 400
  clock reading := reading

theorem plainPlatform_clock : StrictMono plainPlatform.clock := strictMono_id

def makeKey (byte : UInt8) : RecordKey where
  collection := "docs"
  id := Vector.replicate 16 byte

def makeRecord (payload : List UInt8) : FunRecord :=
  { (FunRecordBuilder.new "docs").build (Vector.replicate 16 0) 0 with data := payload }

end FunDB.Storage
