import FunDB.Storage.LsmReads
import FunDB.Foundation.Execution
import Mathlib.Data.Fintype.EquivFin

/-! # Interleaved flush tasks

The tasks that flushes spawn take their steps in any order, among each other and
among further writes and flushes. A task knows its memtable by a position in a
list from which other tasks remove. -/

namespace FunDB.Storage

open KeyedList Overlay

/-- What a failed write of a file leaves at its path: no file, a part that cannot be
opened, or the whole file. -/
inductive FileRemains where
  | nothing
  | part
  | whole
deriving DecidableEq, Repr

inductive TaskPhase where
  | spawned
  | loaded (entries : List (RecordKey × FunRecord))
  | written
  | finished

/-- A flush task: the position of its immutable, the name of its file, and how
far it has come. -/
structure FlushTask where
  immIdx : Nat
  name : Nat
  phase : TaskPhase

/-- The file of the task does not exist yet. -/
def TaskPhase.Unwritten : TaskPhase → Prop
  | .spawned | .loaded _ => True
  | .written | .finished => False

/-- A tree, the tasks of its flushes, and the names of files that cannot be opened. -/
structure FlushSystem where
  tree : LsmTree
  tasks : List FlushTask
  parts : List Nat

inductive FlushEvent where
  | write (key : RecordKey) (record : FunRecord)
  | flush
  /-- The next step of a task, with what is left of its file if writing it fails. -/
  | taskStep (task : Nat) (failure : Option FileRemains)

/-- The record that an event writes for a key. -/
def FlushEvent.written (event : FlushEvent) (key : RecordKey) : Option FunRecord :=
  match event with
  | .write other record => if other = key then some record else none
  | _ => none

def lastWritten (events : List FlushEvent) (key : RecordKey) : Option FunRecord :=
  newest FlushEvent.written events key

theorem lastWritten_concat (events : List FlushEvent) (event : FlushEvent)
    (key : RecordKey) :
    lastWritten (events ++ [event]) key = (event.written key).or (lastWritten events key) := by
  simp [lastWritten]

namespace LsmTree

/-- The record is in the active memtable, an immutable or a file. -/
def Present (platform : Platform) (tree : LsmTree) (key : RecordKey) (record : FunRecord) :
    Prop :=
  tree.active.get key = some record ∨
    (∃ immutable ∈ tree.immutables, immutable.get key = some record) ∨
    ∃ file ∈ tree.sstables, file.reader.get platform key = some record

theorem present_of_record {platform : Platform} {tree : LsmTree} {key : RecordKey}
    {record : FunRecord} (answers : tree.record platform key = some record) :
    tree.Present platform key record := by
  rw [LsmTree.record] at answers
  rcases Option.or_eq_some_iff.mp answers with active | ⟨_, behind⟩
  · exact .inl active
  · rcases Option.or_eq_some_iff.mp behind with immutable | ⟨_, inFile⟩
    · exact .inr (.inl (exists_of_newest_eq_some _ immutable))
    · exact .inr (.inr (exists_of_newest_eq_some _ inFile))

end LsmTree

namespace FlushSystem

variable (platform : Platform)

def start (readings : Nat) : FlushSystem where
  tree := LsmTree.openDir platform [] [] readings
  tasks := []
  parts := []

def setPhase (system : FlushSystem) (index : Nat) (task : FlushTask) (phase : TaskPhase) :
    FlushSystem :=
  { system with tasks := system.tasks.set index { task with phase := phase } }

/-- The next step of a task: read the immutable at its position, write the file,
remove the immutable at the position. A task that fails ends. -/
def taskStep (system : FlushSystem) (index : Nat) (task : FlushTask)
    (failure : Option FileRemains) : FlushSystem :=
  match task.phase with
  | .spawned =>
      match system.tree.readImmutable task.immIdx with
      | none => system.setPhase index task .finished
      | some entries => system.setPhase index task (.loaded entries)
  | .loaded entries =>
      match failure with
      | none =>
          { system with tree := system.tree.writeSstable platform task.name entries }.setPhase
            index task .written
      | some .nothing => system.setPhase index task .finished
      | some .part =>
          { system with parts := task.name :: system.parts }.setPhase index task .finished
      | some .whole =>
          { system with tree := system.tree.writeSstable platform task.name entries }.setPhase
            index task .finished
  | .written =>
      { system with tree := system.tree.removeImmutable task.immIdx }.setPhase
        index task .finished
  | .finished => system

def step (system : FlushSystem) : FlushEvent → FlushSystem
  | .write key record =>
      { system with
        tree := (system.tree.logEntry (.write 0 key record)).insertActive platform key record }
  | .flush =>
      let ((immIdx, name), tree) := system.tree.freezeActive platform
      { system with
        tree := tree
        tasks := system.tasks ++ [{ immIdx := immIdx, name := name, phase := .spawned }] }
  | .taskStep index failure =>
      match system.tasks[index]? with
      | some task => system.taskStep platform index task failure
      | none => system

/-- The files that are newer than every part. -/
def readable (system : FlushSystem) : List SstFile :=
  system.tree.sstables.filter fun file => system.parts.all (· < file.name)

/-- The record that answers a read of the key. A read that comes to a part of a file
fails, and has no answer. -/
def answer (system : FlushSystem) (key : RecordKey) : Option (Option FunRecord) :=
  match ({ system.tree with sstables := system.readable } : LsmTree).record platform key with
  | some record => some (some record)
  | none => if system.parts = [] then some none else none

/-- `LsmTree::get` beside parts of files. -/
def get (system : FlushSystem) (key : RecordKey) : Option (Option FunRecord) :=
  (system.answer platform key).map (·.bind filterTombstone)

/-- Every key shows its last write, and the record is somewhere in the tree. -/
def Faithful (system : FlushSystem) (latest : RecordKey → Option FunRecord) : Prop :=
  ∀ key, (∀ record, latest key = some record → system.tree.Present platform key record) ∧
    system.get platform key = some ((latest key).bind filterTombstone)

/-- Writing the file hides no record of an older file: a key that no memtable
and no newer file has is in the older files with the same record. -/
def WriteKeeps (tree : LsmTree) (name : Nat) (entries : List (RecordKey × FunRecord)) : Prop :=
  ∀ entry ∈ entries, tree.active.get entry.1 = none →
    newest ImmutableMemTable.get tree.immutables entry.1 = none →
      fileRecord platform (tree.sstables.filter fun file => name < file.name) entry.1 = none →
        fileRecord platform tree.sstables entry.1 = some entry.2

/-- Removing the immutable uncovers the same records: what it answers is also
the answer of the older immutables and the files. -/
def RemoveKeeps (tree : LsmTree) (immIdx : Nat) : Prop :=
  ∀ immutable ∈ tree.immutables[immIdx]?, ∀ entry ∈ immutable.entries,
    tree.active.get entry.1 = none →
      newest ImmutableMemTable.get (tree.immutables.drop (immIdx + 1)) entry.1 = none →
        (newest ImmutableMemTable.get (tree.immutables.take immIdx) entry.1).or
          (fileRecord platform tree.sstables entry.1) = some entry.2

/-- A task that writes its file, also one that fails then, hides no record, and none
leaves a part of its file. -/
def TaskKeeps (tree : LsmTree) (task : FlushTask) (failure : Option FileRemains) : Prop :=
  match task.phase with
  | .loaded entries =>
      failure ≠ some .part ∧
        (failure ≠ some .nothing → WriteKeeps platform tree task.name entries)
  | .written => RemoveKeeps platform tree task.immIdx
  | .spawned | .finished => True

/-- The event changes no answer but that of the key it writes. -/
def KeepsRecords (system : FlushSystem) : FlushEvent → Prop
  | .taskStep index failure =>
      ∀ task ∈ system.tasks[index]?, TaskKeeps platform system.tree task failure
  | .write _ _ | .flush => True

instance (tree : LsmTree) (name : Nat) (entries : List (RecordKey × FunRecord)) :
    Decidable (WriteKeeps platform tree name entries) :=
  inferInstanceAs (Decidable (∀ _ ∈ _, _ → _ → _ → _))

instance (tree : LsmTree) (immIdx : Nat) : Decidable (RemoveKeeps platform tree immIdx) :=
  inferInstanceAs (Decidable (∀ _ ∈ _, ∀ _ ∈ _, _ → _ → _))

instance (tree : LsmTree) :
    ∀ task failure, Decidable (TaskKeeps platform tree task failure)
  | ⟨_, name, .loaded entries⟩, failure =>
      inferInstanceAs (Decidable (failure ≠ some .part ∧
        (failure ≠ some .nothing → WriteKeeps platform tree name entries)))
  | ⟨immIdx, _, .written⟩, _ => inferInstanceAs (Decidable (RemoveKeeps platform tree immIdx))
  | ⟨_, _, .spawned⟩, _ | ⟨_, _, .finished⟩, _ => inferInstanceAs (Decidable True)

instance (system : FlushSystem) : ∀ event, Decidable (system.KeepsRecords platform event)
  | .taskStep index failure =>
      inferInstanceAs (Decidable (∀ task ∈ system.tasks[index]?,
        TaskKeeps platform system.tree task failure))
  | .write _ _ | .flush => inferInstanceAs (Decidable True)

/-! ## Files of unfinished tasks -/

/-- What every interleaving keeps: files and tasks have different names before
the clock, the file of a task appears when the task writes it, and a task has
loaded each key once. -/
structure Consistent (system : FlushSystem) : Prop where
  files : FilesBelow platform system.tree.sstables (platform.clock system.tree.readings)
  names : (system.tasks.map FlushTask.name).Nodup
  past : ∀ task ∈ system.tasks, task.name < platform.clock system.tree.readings
  unwritten : ∀ task ∈ system.tasks, task.phase.Unwritten →
    ∀ file ∈ system.tree.sstables, file.name ≠ task.name
  loaded : ∀ task ∈ system.tasks, ∀ entries, task.phase = .loaded entries →
    (entries.map Prod.fst).Nodup

variable {platform}

/-- Ordered files split at a name that none of them has. -/
theorem split_at_name {files : List SstFile} {name : Nat}
    (ordered : files.Pairwise fun older younger => older.name < younger.name)
    (absent : ∀ file ∈ files, file.name ≠ name) :
    files = files.filter (fun file => file.name < name) ++
      files.filter (fun file => name < file.name) := by
  induction files with
  | nil => rfl
  | cons first rest induction =>
      rcases List.pairwise_cons.mp ordered with ⟨below, restOrdered⟩
      have different := absent first List.mem_cons_self
      have later := induction restOrdered fun file member =>
        absent file (List.mem_cons_of_mem _ member)
      rcases Nat.lt_or_ge first.name name with before | after
      · have notAfter : ¬ name < first.name := by omega
        simp only [List.filter_cons, before, notAfter, decide_true, decide_false, if_true,
          Bool.false_eq_true, if_false, List.cons_append]
        rw [← later]
      · -- Everything from here on is younger.
        have younger : name < first.name := by omega
        have notBefore : ¬ first.name < name := by omega
        have noneBefore : rest.filter (fun file => file.name < name) = [] :=
          List.filter_eq_nil_iff.mpr fun file member => by
            have := below file member
            simp
            omega
        rw [noneBefore, List.nil_append] at later
        simp only [List.filter_cons, younger, notBefore, decide_true, decide_false, if_true,
          Bool.false_eq_true, if_false, noneBefore, List.nil_append]
        rw [← later]

theorem createFile_filesBelow {files : List SstFile} {bound : Nat}
    (kept : FilesBelow platform files bound) {file : SstFile}
    (sound : file.reader.Sound platform) (past : file.name < bound) :
    FilesBelow platform (createFile files file) bound where
  sound existing member := by
    rcases LsmTree.mem_createFile member with old | isNew
    · exact kept.sound existing old
    · rw [isNew]
      exact sound
  ordered := by
    rw [createFile, List.append_assoc, List.singleton_append]
    refine List.pairwise_append.mpr ⟨kept.ordered.filter _,
      List.pairwise_cons.mpr ⟨fun younger member => ?_, kept.ordered.filter _⟩,
      fun older isOlder other isOther => ?_⟩
    · simpa using (List.mem_filter.mp member).2
    · have before : older.name < file.name := by simpa using (List.mem_filter.mp isOlder).2
      rcases List.mem_cons.mp isOther with same | younger
      · rw [same]
        exact before
      · have after : file.name < other.name := by simpa using (List.mem_filter.mp younger).2
        omega
  below existing member := by
    rcases LsmTree.mem_createFile member with old | isNew
    · exact kept.below existing old
    · rw [isNew]
      exact past

/-! ## Task steps -/

theorem Consistent.setPhase {system : FlushSystem} (consistent : system.Consistent platform)
    {index : Nat} {task : FlushTask} (found : system.tasks[index]? = some task)
    {phase : TaskPhase} (unwritten : phase.Unwritten → task.phase.Unwritten)
    (loaded : ∀ entries, phase = .loaded entries → (entries.map Prod.fst).Nodup) :
    (system.setPhase index task phase).Consistent platform := by
  rcases Execution.exists_split_of_getElem? found with ⟨earlier, later, split, replaced⟩
  have member (other : FlushTask)
      (isTask : other ∈ (system.setPhase index task phase).tasks) :
      other = { task with phase := phase } ∨ other ∈ system.tasks := by
    rw [FlushSystem.setPhase, replaced] at isTask
    rw [split]
    simp only [List.mem_append, List.mem_cons] at isTask ⊢
    tauto
  have own : task ∈ system.tasks := List.mem_of_getElem? found
  refine
    { files := consistent.files
      names := ?_
      past := fun other isTask => ?_
      unwritten := fun other isTask => ?_
      loaded := fun other isTask => ?_ }
  · have names := consistent.names
    rw [FlushSystem.setPhase, replaced]
    rw [split] at names
    simpa using names
  · rcases member other isTask with rfl | old
    · exact consistent.past task own
    · exact consistent.past other old
  · rcases member other isTask with rfl | old
    · exact fun pending => consistent.unwritten task own (unwritten pending)
    · exact consistent.unwritten other old
  · rcases member other isTask with rfl | old
    · exact loaded
    · exact consistent.loaded other old

theorem Consistent.of_sameFiles {system : FlushSystem} (consistent : system.Consistent platform)
    {tree : LsmTree} (sameFiles : tree.sstables = system.tree.sstables)
    (sameReadings : tree.readings = system.tree.readings) :
    ({ system with tree := tree } : FlushSystem).Consistent platform where
  files := by rw [sameFiles, sameReadings]; exact consistent.files
  names := consistent.names
  past := by rw [sameReadings]; exact consistent.past
  unwritten := by rw [sameFiles]; exact consistent.unwritten
  loaded := consistent.loaded

/-- The file of a task that no longer counts as unwritten. -/
theorem Consistent.writeSstable {system : FlushSystem} (consistent : system.Consistent platform)
    {task : FlushTask} (own : task ∈ system.tasks) (settled : ¬ task.phase.Unwritten)
    {entries : List (RecordKey × FunRecord)} (distinct : (entries.map Prod.fst).Nodup) :
    ({ system with tree := system.tree.writeSstable platform task.name entries } :
      FlushSystem).Consistent platform where
  files := createFile_filesBelow consistent.files (finish_sound platform distinct)
    (consistent.past task own)
  names := consistent.names
  past := consistent.past
  unwritten other isTask pending file member := by
    rcases LsmTree.mem_createFile member with old | isNew
    · exact consistent.unwritten other isTask pending file old
    · rw [isNew]
      intro sameName
      have same := List.inj_on_of_nodup_map consistent.names own isTask sameName
      rw [same] at settled
      exact settled pending
  loaded := consistent.loaded

theorem removeImmutable_files (tree : LsmTree) (immIdx : Nat) :
    (tree.removeImmutable immIdx).sstables = tree.sstables ∧
      (tree.removeImmutable immIdx).readings = tree.readings := by
  rw [LsmTree.removeImmutable]
  split <;> exact ⟨rfl, rfl⟩

theorem taskStep_consistent {system : FlushSystem} (consistent : system.Consistent platform)
    {index : Nat} {task : FlushTask} (found : system.tasks[index]? = some task)
    (failure : Option FileRemains) :
    (system.taskStep platform index task failure).Consistent platform := by
  have own : task ∈ system.tasks := List.mem_of_getElem? found
  rw [taskStep]
  split
  · rename_i phase
    split
    · exact consistent.setPhase found (fun pending => pending.elim) (by simp)
    · rename_i entries read
      apply consistent.setPhase found (fun _ => by rw [phase]; trivial)
      intro loaded equal
      rw [LsmTree.readImmutable, Option.map_eq_some_iff] at read
      rcases read with ⟨immutable, _, sameEntries⟩
      rw [← TaskPhase.loaded.inj equal, ← sameEntries]
      exact immutable.distinct
  · rename_i entries phase
    -- The task counts as written before its file appears.
    have appears (next : TaskPhase) (settled : ¬ next.Unwritten)
        (notLoaded : ∀ loaded, next ≠ .loaded loaded) :
        (setPhase { system with tree := system.tree.writeSstable platform task.name entries }
          index task next).Consistent platform := by
      have advanced : (system.setPhase index task next).Consistent platform :=
        consistent.setPhase found (fun pending => absurd pending settled)
          fun loaded same => absurd same (notLoaded loaded)
      have isTask : { task with phase := next } ∈ (system.setPhase index task next).tasks := by
        rw [setPhase]
        exact List.mem_set (List.getElem?_eq_some_iff.mp found).1 _
      exact advanced.writeSstable isTask settled (consistent.loaded task own entries phase)
    split
    · exact appears .written (fun pending => pending) (by simp)
    · exact consistent.setPhase found (fun pending => pending.elim) (by simp)
    · have beside : ({ system with parts := task.name :: system.parts } :
          FlushSystem).Consistent platform :=
        ⟨consistent.files, consistent.names, consistent.past, consistent.unwritten,
          consistent.loaded⟩
      exact beside.setPhase found (fun pending => pending.elim) (by simp)
    · exact appears .finished (fun pending => pending) (by simp)
  · have removed := removeImmutable_files system.tree task.immIdx
    exact (consistent.of_sameFiles removed.1 removed.2).setPhase found
      (fun pending => pending.elim) (by simp)
  · exact consistent

theorem step_consistent (ticks : StrictMono platform.clock) {system : FlushSystem}
    (consistent : system.Consistent platform) (event : FlushEvent) :
    (system.step platform event).Consistent platform := by
  cases event with
  | write key record => exact consistent.of_sameFiles rfl rfl
  | flush =>
      have later : platform.clock system.tree.readings <
          platform.clock (system.tree.readings + 1) := ticks (Nat.lt_succ_self _)
      rw [step, LsmTree.freezeActive]
      refine
        { files := consistent.files.mono later.le
          names := ?_
          past := fun task member => ?_
          unwritten := fun task member => ?_
          loaded := fun task member => ?_ }
      · rw [List.map_append, List.nodup_append]
        refine ⟨consistent.names, by simp, fun name isName other isOther => ?_⟩
        rcases List.mem_map.mp isName with ⟨task, member, rfl⟩
        have past := consistent.past task member
        simp only [List.map_cons, List.map_nil, List.mem_singleton] at isOther
        omega
      · rcases List.mem_append.mp member with old | new
        · exact (consistent.past task old).trans later
        · rw [List.mem_singleton.mp new]
          exact later
      · rcases List.mem_append.mp member with old | new
        · exact consistent.unwritten task old
        · rw [List.mem_singleton.mp new]
          exact fun _ file isFile => (consistent.files.below file isFile).ne
      · rcases List.mem_append.mp member with old | new
        · exact consistent.loaded task old
        · rw [List.mem_singleton.mp new]
          exact fun _ loaded => by cases loaded
  | taskStep index failure =>
      rw [step]
      split
      · rename_i task found
        exact taskStep_consistent consistent found failure
      · exact consistent

/-! ## What the steps do to the answers -/

section Answers

variable {tree : LsmTree}

theorem forall_find_iff {entries : List (RecordKey × FunRecord)}
    (distinct : (entries.map Prod.fst).Nodup) (Condition : RecordKey → FunRecord → Prop) :
    (∀ key record, find entries key = some record → Condition key record) ↔
      ∀ entry ∈ entries, Condition entry.1 entry.2 :=
  ⟨fun holds entry member => holds entry.1 entry.2 (find_of_mem distinct member),
    fun holds key record found => holds (key, record) (mem_of_find found)⟩

theorem record_writeSstable_iff {bound : Nat} (files : FilesBelow platform tree.sstables bound)
    {name : Nat} (absent : ∀ file ∈ tree.sstables, file.name ≠ name)
    {entries : List (RecordKey × FunRecord)} (distinct : (entries.map Prod.fst).Nodup) :
    (∀ key, (tree.writeSstable platform name entries).record platform key =
        tree.record platform key) ↔ WriteKeeps platform tree name entries := by
  let younger := tree.sstables.filter fun file => name < file.name
  let older := tree.sstables.filter fun file => file.name < name
  have before (key : RecordKey) : fileRecord platform tree.sstables key =
      (fileRecord platform younger key).or (fileRecord platform older key) := by
    nth_rewrite 1 [split_at_name files.ordered absent]
    exact newest_append _ _ _ _
  have after (key : RecordKey) :
      fileRecord platform (tree.writeSstable platform name entries).sstables key =
        (fileRecord platform younger key).or
          ((find entries key).or (fileRecord platform older key)) := by
    rw [LsmTree.writeSstable, createFile, fileRecord, newest_append, newest_append,
      newest_singleton, get_finish platform distinct]
    rfl
  have perKey (key : RecordKey) :
      (tree.writeSstable platform name entries).record platform key =
          tree.record platform key ↔
        ∀ record, find entries key = some record → tree.active.get key = none →
          newest ImmutableMemTable.get tree.immutables key = none →
            fileRecord platform younger key = none →
              fileRecord platform tree.sstables key = some record := by
    have between := between_eq_iff
      ((tree.active.get key).or ((newest ImmutableMemTable.get tree.immutables key).or
        (fileRecord platform younger key))) (find entries key) (fileRecord platform older key)
    simp only [Option.or_assoc, ← after, ← before, Option.or_eq_none_iff] at between
    refine between.trans ⟨fun keeps record found active immutable young => ?_,
      fun keeps hidden record found => ?_⟩
    · rw [before, young, Option.none_or]
      exact keeps ⟨active, immutable, young⟩ record found
    · have answer := keeps record found hidden.1 hidden.2.1 hidden.2.2
      rwa [before, hidden.2.2, Option.none_or] at answer
  simp only [perKey]
  exact forall_find_iff distinct fun key record => tree.active.get key = none →
    newest ImmutableMemTable.get tree.immutables key = none →
      fileRecord platform younger key = none →
        fileRecord platform tree.sstables key = some record

theorem record_removeImmutable_iff (tree : LsmTree) (immIdx : Nat) :
    (∀ key, (tree.removeImmutable immIdx).record platform key = tree.record platform key) ↔
      RemoveKeeps platform tree immIdx := by
  cases here : tree.immutables[immIdx]? with
  | none =>
      have beyond : ¬ immIdx < tree.immutables.length := by
        simpa using here
      rw [LsmTree.removeImmutable, if_neg beyond, RemoveKeeps, here]
      simp
  | some immutable =>
      have within := (List.getElem?_eq_some_iff.mp here).1
      let younger := tree.immutables.drop (immIdx + 1)
      let older := tree.immutables.take immIdx
      have perKey (key : RecordKey) :
          (tree.removeImmutable immIdx).record platform key = tree.record platform key ↔
            ∀ record, find immutable.entries key = some record →
              tree.active.get key = none → newest ImmutableMemTable.get younger key = none →
                (newest ImmutableMemTable.get older key).or
                  (fileRecord platform tree.sstables key) = some record := by
        have between := between_eq_iff
          ((tree.active.get key).or (newest ImmutableMemTable.get younger key))
          (immutable.get key)
          ((newest ImmutableMemTable.get older key).or
            (fileRecord platform tree.sstables key))
        rw [LsmTree.removeImmutable, if_pos within, LsmTree.record, LsmTree.record,
          newest_eraseIdx, newest_split _ here, eq_comm]
        simp only [Option.or_assoc, Option.or_eq_none_iff] at between ⊢
        refine between.trans ⟨fun keeps record found active young => ?_,
          fun keeps hidden record found => ?_⟩
        · exact keeps ⟨active, young⟩ record found
        · exact keeps record found hidden.1 hidden.2
      simp only [perKey, RemoveKeeps, here, Option.mem_some_iff, forall_eq']
      exact forall_find_iff immutable.distinct fun key record =>
        tree.active.get key = none → newest ImmutableMemTable.get younger key = none →
          (newest ImmutableMemTable.get older key).or
            (fileRecord platform tree.sstables key) = some record

theorem record_insertActive (tree : LsmTree) (key : RecordKey) (record : FunRecord)
    (other : RecordKey) :
    (tree.insertActive platform key record).record platform other =
      (if key = other then some record else none).or (tree.record platform other) := by
  rw [LsmTree.record, LsmTree.record, LsmTree.insertActive]
  simp only [MemTable.get_insert]
  split <;> rfl

theorem record_freezeActive (tree : LsmTree) (key : RecordKey) :
    (tree.freezeActive platform).2.record platform key = tree.record platform key := by
  simp [LsmTree.record, LsmTree.freezeActive, Option.or_assoc]

end Answers

/-! ## Parts of files -/

theorem answer_of_whole {system : FlushSystem} (whole : system.parts = []) (key : RecordKey) :
    system.answer platform key = some (system.tree.record platform key) := by
  have all : system.readable = system.tree.sstables := by
    simp [readable, whole]
  rw [answer, all, whole]
  cases system.tree.record platform key <;> rfl

/-- Beside a part no read says that there is no record. -/
theorem answer_ne_of_part {system : FlushSystem} (broken : system.parts ≠ []) (key : RecordKey) :
    system.answer platform key ≠ some none := by
  rw [answer, if_neg broken]
  split <;> simp

theorem exists_unwritten (events : List FlushEvent) : ∃ key, lastWritten events key = none := by
  let written : FlushEvent → Option RecordKey
    | .write key _ => some key
    | _ => none
  rcases Infinite.exists_notMem_finset ((events.filterMap written).map RecordKey.collection).toFinset
    with ⟨collection, fresh⟩
  refine ⟨⟨collection, Vector.replicate 16 0⟩, ?_⟩
  rw [lastWritten, newest_eq_none_iff]
  intro event member
  cases event with
  | write key record =>
      refine if_neg fun same => fresh ?_
      apply List.mem_toFinset.mpr
      exact List.mem_map.mpr ⟨key, List.mem_filterMap.mpr ⟨_, member, rfl⟩, by rw [same]⟩
  | flush => rfl
  | taskStep task failure => rfl

theorem taskStep_record_iff {system : FlushSystem} (consistent : system.Consistent platform)
    {index : Nat} {task : FlushTask} (found : system.tasks[index]? = some task)
    {failure : Option FileRemains}
    (whole : (system.taskStep platform index task failure).parts = []) :
    (∀ key, (system.taskStep platform index task failure).tree.record platform key =
        system.tree.record platform key) ↔
      TaskKeeps platform system.tree task failure := by
  have own : task ∈ system.tasks := List.mem_of_getElem? found
  rw [taskStep] at whole ⊢
  rw [TaskKeeps]
  cases phase : task.phase with
  | spawned =>
      dsimp only
      split <;> exact iff_of_true (fun _ => rfl) trivial
  | loaded entries =>
      have written := record_writeSstable_iff consistent.files
        (consistent.unwritten task own (by rw [phase]; trivial))
        (consistent.loaded task own entries phase)
      rw [phase] at whole
      cases failure with
      | none => simpa [setPhase] using written
      | some remains =>
          cases remains with
          | nothing => simp [setPhase]
          | part => cases whole
          | whole => simpa [setPhase] using written
  | written => exact record_removeImmutable_iff system.tree task.immIdx
  | finished => exact iff_of_true (fun _ => rfl) trivial

/-- A step that keeps records leaves no part of a file. -/
theorem parts_step {system : FlushSystem} {event : FlushEvent}
    (keeps : system.KeepsRecords platform event) :
    (system.step platform event).parts = system.parts := by
  cases event with
  | write key record => rfl
  | flush => rfl
  | taskStep index failure =>
      rw [step]
      cases found : system.tasks[index]? with
      | none => rfl
      | some task =>
          have taskKeeps := keeps task found
          rw [TaskKeeps] at taskKeeps
          dsimp only
          rw [taskStep]
          cases phase : task.phase with
          | spawned =>
              dsimp only
              split <;> rfl
          | loaded entries =>
              rw [phase] at taskKeeps
              cases failure with
              | none => rfl
              | some remains =>
                  cases remains with
                  | nothing => rfl
                  | part => exact absurd rfl taskKeeps.1
                  | whole => rfl
          | written => rfl
          | finished => rfl

/-- An event changes the answer for the key that it writes, and no other exactly
when it keeps records. -/
theorem step_record_iff {system : FlushSystem} (consistent : system.Consistent platform)
    {event : FlushEvent} (whole : (system.step platform event).parts = []) :
    (∀ key, (system.step platform event).tree.record platform key =
        (event.written key).or (system.tree.record platform key)) ↔
      system.KeepsRecords platform event := by
  cases event with
  | write key record =>
      refine iff_of_true (fun other => ?_) trivial
      rw [step, record_insertActive]
      rfl
  | flush =>
      refine iff_of_true (fun key => ?_) trivial
      exact record_freezeActive system.tree key
  | taskStep index failure =>
      simp only [FlushEvent.written, Option.none_or]
      rw [step] at whole ⊢
      rw [KeepsRecords]
      cases found : system.tasks[index]? with
      | none => simp
      | some task =>
          rw [found] at whole
          simp only [Option.mem_some_iff, forall_eq']
          exact taskStep_record_iff consistent found whole

theorem faithful_of_answer {system : FlushSystem} {latest : RecordKey → Option FunRecord}
    (answers : ∀ key, system.answer platform key = some (latest key)) :
    system.Faithful platform latest := by
  intro key
  refine ⟨fun record isLatest => ?_, by rw [get, answers, Option.map_some]⟩
  have answered := answers key
  rw [answer, isLatest] at answered
  split at answered
  · rename_i found shown
    cases Option.some_inj.mp answered
    have inReadable := LsmTree.present_of_record shown
    rcases inReadable with active | immutable | ⟨file, member, inFile⟩
    · exact .inl active
    · exact .inr (.inl immutable)
    · exact .inr (.inr ⟨file, List.mem_of_mem_filter member, inFile⟩)
  · split at answered <;> cases answered

theorem start_consistent (readings : Nat) : (start platform readings).Consistent platform where
  files := ⟨by simp [start, LsmTree.openDir], by simp [start, LsmTree.openDir],
    by simp [start, LsmTree.openDir]⟩
  names := by simp [start]
  past := by simp [start]
  unwritten := by simp [start]
  loaded := by simp [start]

/-- In a run whose task steps all keep records, from an empty directory, every
state has every last written record somewhere in the tree and shows it; and the
record that answers is the last written one throughout exactly in such runs. -/
theorem last_writes_kept (ticks : StrictMono platform.clock) (readings : Nat)
    (events : List FlushEvent) :
    (Execution.EveryStep (step platform) (KeepsRecords platform)
        (start platform readings) events →
      ∀ done, done <+: events →
        (Execution.run (step platform) (start platform readings) done).Faithful platform
          (lastWritten done)) ∧
    ((∀ done, done <+: events → ∀ key,
        (Execution.run (step platform) (start platform readings) done).answer platform key =
          some (lastWritten done key)) ↔
      Execution.EveryStep (step platform) (KeepsRecords platform)
        (start platform readings) events) := by
  let reached (done : List FlushEvent) : FlushSystem :=
    Execution.run (step platform) (start platform readings) done
  have consistent (done : List FlushEvent) : (reached done).Consistent platform :=
    Execution.run_invariant (step platform) (Consistent platform)
      (fun _ event held => step_consistent ticks held event) (start_consistent readings) done
  let Answers (done : List FlushEvent) : Prop :=
    ∀ key, (reached done).answer platform key = some (lastWritten done key)
  -- Some key was never written, and beside a part no read says so.
  have whole (done : List FlushEvent) (answers : Answers done) : (reached done).parts = [] := by
    by_contra broken
    rcases exists_unwritten done with ⟨key, unwritten⟩
    exact answer_ne_of_part broken key (unwritten ▸ answers key)
  have answers_iff (done : List FlushEvent) (noPart : (reached done).parts = []) :
      Answers done ↔ ∀ key, (reached done).tree.record platform key = lastWritten done key := by
    simp only [Answers, answer_of_whole noPart, Option.some_inj]
  have initial : Answers [] := by
    refine (answers_iff [] rfl).mpr fun key => ?_
    simp [reached, start, LsmTree.record, LsmTree.openDir, fileRecord, lastWritten]
  have step_iff (done : List FlushEvent) (event : FlushEvent) (answers : Answers done) :
      Answers (done ++ [event]) ↔ (reached done).KeepsRecords platform event := by
    have next : reached (done ++ [event]) = (reached done).step platform event :=
      Execution.run_concat ..
    have records := (answers_iff done (whole done answers)).mp answers
    have shown (noPart : (reached (done ++ [event])).parts = []) :
        Answers (done ++ [event]) ↔ (reached done).KeepsRecords platform event := by
      rw [answers_iff _ noPart, ← step_record_iff (consistent done) (next ▸ noPart), next]
      simp only [lastWritten_concat, records]
    constructor
    · exact fun later => (shown (whole _ later)).mp later
    · intro keeps
      have noPart : (reached (done ++ [event])).parts = [] := by
        rw [next, parts_step keeps, whole done answers]
      exact (shown noPart).mpr keeps
  have exactly : (∀ done, done <+: events → Answers done) ↔
      Execution.EveryStep (step platform) (KeepsRecords platform)
        (start platform readings) events :=
    Execution.holds_iff_everyStep_of_step_iff (step platform) Answers initial step_iff
  exact ⟨fun keeps done isPrefix => faithful_of_answer (exactly.mpr keeps done isPrefix),
    exactly⟩

theorem last_writes_kept_in_order :
    let events : List FlushEvent :=
      [.write (makeKey 1) (makeRecord [1]), .flush, .write (makeKey 1) (makeRecord [2]),
        .taskStep 0 none, .taskStep 0 none, .taskStep 0 none, .flush, .taskStep 1 (some .nothing),
        .taskStep 1 none, .write (makeKey 2) (makeRecord [3]), .taskStep 1 none]
    (Execution.run (step plainPlatform) (start plainPlatform 0) events).Faithful plainPlatform
      (lastWritten events) :=
  (last_writes_kept plainPlatform_clock 0 _).1 (by decide +kernel) _ (List.prefix_refl _)

/-- Three memtables are flushed, the first two tasks have loaded theirs. The
first task removes its memtable, so the position of the second one is that of
the third: its record is gone. -/
theorem third_memtable_removed :
    let events : List FlushEvent :=
      [.write (makeKey 1) (makeRecord [1]), .flush, .write (makeKey 2) (makeRecord [2]), .flush,
        .write (makeKey 3) (makeRecord [3]), .flush, .taskStep 0 none, .taskStep 1 none,
        .taskStep 0 none, .taskStep 0 none, .taskStep 1 none, .taskStep 1 none]
    let reached := Execution.run (step plainPlatform) (start plainPlatform 0) events
    lastWritten events (makeKey 3) = some (makeRecord [3]) ∧
      reached.get plainPlatform (makeKey 3) = some none ∧
      ¬ reached.Faithful plainPlatform (lastWritten events) := by
  intro events reached
  have missing : reached.get plainPlatform (makeKey 3) = some none := by decide +kernel
  have latest : lastWritten events (makeKey 3) = some (makeRecord [3]) := by decide +kernel
  refine ⟨latest, missing, fun faithful => ?_⟩
  have shown := (faithful (makeKey 3)).2
  rw [missing, latest] at shown
  cases shown

end FlushSystem

end FunDB.Storage
