import FunDB.Foundation.Recency
import FunDB.Storage.LsmTree
import FunDB.Storage.SstableFile

/-! # The size and the ranges of a memtable

The counter of bytes grows with every insertion, also with one that overwrites an
entry. The bounds of a range come from the caller, and of a memtable and the table
written from it only one side checks them. -/

namespace FunDB.Storage

open KeyedList

/-! ## Size -/

namespace MemTable

open Recency
open Std (ExtTreeMap)

section Size

variable (platform : Platform)

def entrySize (key : RecordKey) : Nat :=
  platform.recordSize + key.collection.utf8ByteSize + 16

theorem entrySize_pos (key : RecordKey) : 0 < entrySize platform key :=
  Nat.succ_pos _

/-- The table after a list of insertions. -/
def insertAll (table : MemTable) (entries : List (RecordKey × FunRecord)) : MemTable :=
  entries.foldl (fun table entry => table.insert platform entry.1 entry.2) table

/-- The estimates of the entries that are in the table. -/
def heldBytes (table : MemTable) : Nat :=
  (table.inner.toList.map fun entry => entrySize platform entry.1).sum

theorem insertAll_cons (table : MemTable) (entry : RecordKey × FunRecord)
    (entries : List (RecordKey × FunRecord)) :
    table.insertAll platform (entry :: entries) =
      (table.insert platform entry.1 entry.2).insertAll platform entries := rfl

theorem sizeBytes_insertAll (table : MemTable) (entries : List (RecordKey × FunRecord)) :
    (table.insertAll platform entries).sizeBytes =
      table.sizeBytes + total (entrySize platform) (entries.map Prod.fst) := by
  induction entries generalizing table with
  | nil => rfl
  | cons entry entries induction =>
      rw [insertAll_cons, induction, List.map_cons, total_cons, ← Nat.add_assoc]
      rfl

theorem mem_inner_insertAll (table : MemTable) (entries : List (RecordKey × FunRecord))
    (key : RecordKey) :
    key ∈ (table.insertAll platform entries).inner ↔
      key ∈ entries.map Prod.fst ∨ key ∈ table.inner := by
  induction entries generalizing table with
  | nil => simp [insertAll]
  | cons entry entries induction =>
      rw [insertAll_cons, induction, List.map_cons, List.mem_cons, insert,
        ExtTreeMap.mem_insert, Std.LawfulEqCmp.compare_eq_iff_eq, eq_comm, or_left_comm, or_assoc]

theorem keys_insertAll_perm (entries : List (RecordKey × FunRecord)) :
    ((new.insertAll platform entries).inner.toList.map Prod.fst).Perm
      (entries.map Prod.fst).dedup := by
  have distinct : ((new.insertAll platform entries).inner.toList.map Prod.fst).Nodup :=
    (new.insertAll platform entries).freeze.distinct
  rw [List.perm_ext_iff_of_nodup distinct (List.nodup_dedup _)]
  intro key
  rw [List.mem_dedup, ExtTreeMap.map_fst_toList_eq_keys, ExtTreeMap.mem_keys,
    mem_inner_insertAll]
  simp [new]

theorem heldBytes_insertAll (entries : List (RecordKey × FunRecord)) :
    (new.insertAll platform entries).heldBytes platform =
      total (entrySize platform) (entries.map Prod.fst).dedup := by
  rw [← total_eq_of_perm _ (keys_insertAll_perm platform entries), total, List.map_map]
  rfl

/-- The counter is the size of what is in the table exactly when no key was
inserted twice. -/
theorem sizeBytes_exact_iff (entries : List (RecordKey × FunRecord)) :
    (new.insertAll platform entries).sizeBytes =
        (new.insertAll platform entries).heldBytes platform ↔
      (entries.map Prod.fst).Nodup := by
  have counted : (new.insertAll platform entries).sizeBytes =
      total (entrySize platform) (entries.map Prod.fst) :=
    (sizeBytes_insertAll platform new entries).trans (Nat.zero_add _)
  rw [counted, heldBytes_insertAll, eq_comm,
    total_eq_iff_of_sublist _ (entrySize_pos platform) (List.dedup_sublist _), List.dedup_eq_self]

/-- One record written twice. -/
def rewritten : List (RecordKey × FunRecord) :=
  [(makeKey 1, makeRecord []), (makeKey 1, makeRecord [])]

theorem rewritten_counted_twice :
    (new.insertAll plainPlatform rewritten).sizeBytes = 840 ∧
      (new.insertAll plainPlatform rewritten).heldBytes plainPlatform = 420 ∧
      (new.insertAll plainPlatform rewritten).inner.toList.length = 1 := by
  decide

end Size

end MemTable

/-! ## Ranges -/

/-- The range of the tree, both ends included. `None` is the panic of `BTreeMap`
on a start above the end. The documentation has it for every map; `checksEmpty`
says whether a map that holds nothing panics as well. -/
def MemTable.rangeBetween (checksEmpty : Bool) (table : MemTable) (first last : RecordKey) :
    Option (List (RecordKey × FunRecord)) :=
  if last < first ∧ (checksEmpty ∨ ¬ table.inner.isEmpty) then
    none
  else
    some (table.inner.toList.filter fun entry => first ≤ entry.1 ∧ entry.1 ≤ last)

/-- Between ordered ends this is the range that a scan takes. -/
theorem MemTable.rangeBetween_of_le (checksEmpty : Bool) (table : MemTable)
    {first last : RecordKey} (ordered : first ≤ last) :
    table.rangeBetween checksEmpty first last = some (table.range ⟨first, last, ordered⟩) :=
  if_neg fun panics => absurd panics.1 ordered.not_gt

/-- The ends of a range are the wrong way round, and the tree notices. -/
theorem MemTable.rangeBetween_eq_none_iff (checksEmpty : Bool) (table : MemTable)
    (first last : RecordKey) :
    table.rangeBetween checksEmpty first last = none ↔
      last < first ∧ (checksEmpty ∨ ¬ table.inner.isEmpty) := by
  rw [rangeBetween]
  split <;> simp_all

/-- A table that is written from sorted entries holds them as they are. -/
theorem entries_finish_of_sorted (platform : Platform) {entries : List (RecordKey × FunRecord)}
    (sorted : entries.Pairwise fun left right => left.1 < right.1) :
    (finish platform entries).entries = entries :=
  List.Pairwise.insertionSort_eq (sorted.imp fun below => below.le)

/-- The table has the same entries in the range as the memtable. -/
theorem rangeBetween_finish_freeze (platform : Platform) (table : MemTable)
    (first last : RecordKey) :
    (finish platform table.freeze.entries).rangeBetween first last =
      table.inner.toList.filter fun entry => first ≤ entry.1 ∧ entry.1 ≤ last := by
  have same := entries_finish_of_sorted platform table.freeze.sorted
  rw [rangeBetween_eq_filter (by rw [same]; exact table.freeze.sorted), same]
  rfl

/-- The two ranges are the same, without a panic, exactly when the ends are in
order, or the memtable is empty and does not check them. -/
theorem range_agrees_iff (checksEmpty : Bool) (platform : Platform) (table : MemTable)
    (first last : RecordKey) :
    table.rangeBetween checksEmpty first last =
        some ((finish platform table.freeze.entries).rangeBetween first last) ↔
      first ≤ last ∨ checksEmpty = false ∧ table.inner.isEmpty := by
  rw [rangeBetween_finish_freeze, MemTable.rangeBetween]
  split
  · next panics =>
      refine iff_of_false (by simp) ?_
      rintro (ordered | ⟨unchecked, empty⟩)
      · exact absurd panics.1 ordered.not_gt
      · rcases panics.2 with checked | nonempty
        · rw [unchecked] at checked
          cases checked
        · exact nonempty empty
  · next fine =>
      refine iff_of_true rfl ?_
      by_cases ordered : first ≤ last
      · exact .inl ordered
      · right
        have unnoticed := not_and.mp fine (not_le.mp ordered)
        rw [not_or, not_not, Bool.not_eq_true] at unnoticed
        exact unnoticed

/-- A memtable with one record. -/
def oneRecord : MemTable := MemTable.new.insert plainPlatform (makeKey 1) (makeRecord [])

/-- Asked for a range whose ends are the wrong way round, the table has nothing
in it, and the memtable panics. -/
theorem reversed_range_panics :
    (∀ checksEmpty, oneRecord.rangeBetween checksEmpty (makeKey 2) (makeKey 1) = none) ∧
      (finish plainPlatform oneRecord.freeze.entries).rangeBetween (makeKey 2) (makeKey 1) =
        [] := by
  constructor
  · intro checksEmpty
    rw [MemTable.rangeBetween_eq_none_iff]
    exact ⟨by decide, .inr (by decide)⟩
  · rw [rangeBetween_finish_freeze]
    decide

end FunDB.Storage
