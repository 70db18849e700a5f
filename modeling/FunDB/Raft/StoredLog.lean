import FunDB.Raft.Storage
import FunDB.Foundation.LastingEntries

/-! # The order of the stored log

Every entry of a batch may cut off entries of the same batch or of earlier ones.
What is left after any sequence of batches is told from the entries appended so
far, in their order. -/

namespace FunDB.Raft.MemoryRaftStorage

open LastingEntries

variable {log : List LogEntry} {entry : LogEntry}

/-- In an increasing log, appending keeps what lies below the entry. -/
theorem appendEntry_of_increasing (positive : 0 < entry.index)
    (increasing : (log.map LogEntry.index).Pairwise (· < ·)) :
    appendEntry log entry =
      log.filter (fun existing => existing.index < entry.index) ++ [entry] := by
  have kept := take_findIdx_eq_filter entry.index increasing
  rw [appendEntry, if_pos positive, ← kept]
  cases located : log.findIdx? fun existing => existing.index ≥ entry.index with
  | none =>
      have whole := (List.findIdx?_eq_none_iff_findIdx_eq.mp located).symm
      rw [← whole, List.take_length]
  | some position =>
      rw [(List.findIdx?_eq_some_iff_findIdx_eq.mp located).2]

/-- Appending a history to an empty log leaves its lasting entries. -/
theorem foldl_appendEntry_eq_lasting (history : List LogEntry)
    (positive : ∀ entry ∈ history, 1 ≤ entry.index) :
    history.foldl appendEntry [] = lasting LogEntry.index history := by
  induction history using List.reverseRecOn with
  | nil => rfl
  | append_singleton before entry induction =>
      have here : 0 < entry.index := positive entry (by simp)
      have earlier : before.foldl appendEntry [] = lasting LogEntry.index before :=
        induction fun existing member => positive existing (by simp [member])
      rw [List.foldl_append, List.foldl_cons, List.foldl_nil, earlier,
        appendEntry_of_increasing here (lasting_increasing before),
        lasting_append_singleton]

def appendBatches (storage : MemoryRaftStorage) (batches : List (List LogEntry)) :
    MemoryRaftStorage :=
  batches.foldl appendEntries storage

theorem log_appendBatches (storage : MemoryRaftStorage)
    (batches : List (List LogEntry)) :
    (storage.appendBatches batches).log =
      batches.flatten.foldl appendEntry storage.log := by
  induction batches generalizing storage with
  | nil => rfl
  | cons batch rest induction =>
      rw [List.flatten_cons, List.foldl_append]
      exact induction (storage.appendEntries batch)

/-- The log after any run of batches, the entries appended so far being `history`. -/
structure StrictlyOrdered (history : List LogEntry) (storage : MemoryRaftStorage) :
    Prop where
  increasing : (storage.log.map LogEntry.index).Pairwise (· < ·)
  lastIndex : storage.lastIndex = (history.getLast?.map LogEntry.index).getD 0
  lastTerm : storage.lastTerm = (history.getLast?.map LogEntry.term).getD 0
  /-- A stored entry is the latest of its index, and nothing has cut it off since. -/
  latest : ∀ entry ∈ storage.log, ∃ earlier later,
    history = earlier ++ entry :: later ∧
      (∀ next ∈ later, next.index ≠ entry.index) ∧
      ∀ since, since <+: later →
        entry ∈ (earlier ++ entry :: since).foldl appendEntry []
  /-- Nothing else is missing: what no later entry reached is stored. -/
  complete : ∀ earlier entry later, history = earlier ++ entry :: later →
    (∀ next ∈ later, entry.index < next.index) → entry ∈ storage.log
  /-- A range of indices gives back the stored entries within it, in their order. -/
  ranges : ∀ first last, (storage.getEntries first last).Sublist storage.log ∧
    ∀ entry, entry ∈ storage.getEntries first last ↔
      entry ∈ storage.log ∧ first ≤ entry.index ∧ entry.index ≤ last

theorem mem_getEntries (storage : MemoryRaftStorage) (first last : Nat)
    (entry : LogEntry) :
    entry ∈ storage.getEntries first last ↔
      entry ∈ storage.log ∧ first ≤ entry.index ∧ entry.index ≤ last := by
  simp [getEntries]

/-- A lasting entry is in the log after every shorter history that has it. -/
theorem mem_foldl_appendEntry_of_lasts {earlier later since : List LogEntry}
    (positive : ∀ existing ∈ earlier ++ entry :: later, 1 ≤ existing.index)
    (lasts : Lasts LogEntry.index entry later) (shorter : since <+: later) :
    entry ∈ (earlier ++ entry :: since).foldl appendEntry [] := by
  rcases shorter with ⟨dropped, rfl⟩
  have kept : ∀ existing ∈ earlier ++ entry :: since, 1 ≤ existing.index := by
    intro existing member
    apply positive existing
    rw [← List.cons_append, ← List.append_assoc]
    exact List.mem_append_left dropped member
  rw [foldl_appendEntry_eq_lasting _ kept]
  exact mem_lasting.mpr ⟨earlier, since, rfl, ((lasts_append _ _ _ _).mp lasts).1⟩

/-- After any batches of entries with positive indices, on a new storage. -/
theorem appendBatches_strictlyOrdered (batches : List (List LogEntry))
    (positive : ∀ batch ∈ batches, ∀ entry ∈ batch, 1 ≤ entry.index) :
    StrictlyOrdered batches.flatten (new.appendBatches batches) := by
  have positive : ∀ entry ∈ batches.flatten, 1 ≤ entry.index := by
    intro entry member
    rcases List.mem_flatten.mp member with ⟨batch, inBatches, inBatch⟩
    exact positive batch inBatches entry inBatch
  have stored : (new.appendBatches batches).log =
      lasting LogEntry.index batches.flatten := by
    rw [log_appendBatches]
    exact foldl_appendEntry_eq_lasting _ positive
  refine
    { increasing := by rw [stored]; exact lasting_increasing _
      lastIndex := by rw [MemoryRaftStorage.lastIndex, stored, getLast?_lasting]
      lastTerm := by rw [MemoryRaftStorage.lastTerm, stored, getLast?_lasting]
      latest := ?_
      complete := ?_
      ranges := fun first last => ⟨List.filter_sublist, mem_getEntries _ first last⟩ }
  · intro entry member
    rw [stored] at member
    rcases mem_lasting.mp member with ⟨earlier, later, history, lasts⟩
    refine ⟨earlier, later, history, ?_, ?_⟩
    · intro next inLater
      exact Nat.ne_of_gt (lasts next inLater)
    · intro since shorter
      exact mem_foldl_appendEntry_of_lasts (history ▸ positive) lasts shorter
  · intro earlier entry later history lasts
    rw [stored]
    exact mem_lasting.mpr ⟨earlier, later, history, lasts⟩

/-- A second batch goes back below the first, and then repeats an index of its own. -/
theorem appendBatches_strictlyOrdered_overlapping :
    let entry (index term : Nat) : LogEntry := ⟨index, term, [], .normal⟩
    let batches := [[entry 1 1, entry 2 1, entry 3 1], [entry 2 2, entry 5 2, entry 5 3]]
    StrictlyOrdered batches.flatten (new.appendBatches batches) ∧
      (new.appendBatches batches).log = [entry 1 1, entry 2 2, entry 5 3] :=
  ⟨appendBatches_strictlyOrdered _ (by decide), rfl⟩

end FunDB.Raft.MemoryRaftStorage
