import FunDB.Storage.MemTable
import FunDB.Foundation.Overlay

/-! # Sorted string tables

A table file by the entries and the filter that a reader loads from it. -/

namespace FunDB.Storage

open KeyedList Overlay

structure SstableReader where
  entries : List (RecordKey × FunRecord)
  bloom : BloomFilter

namespace SstableReader

variable (platform : Platform)

/-- Whether the key may be in the table: `false` is definitive. -/
def mayContain (reader : SstableReader) (key : RecordKey) : Bool :=
  reader.bloom.contains platform.bloom (platform.encodeKey key)

/-- Point lookup: the filter first, then the search among the sorted entries. -/
def get (reader : SstableReader) (key : RecordKey) : Option FunRecord :=
  if !reader.mayContain platform key then none else find reader.entries key

/-- What a written file is: no key twice, and every key in the filter. -/
structure Sound (reader : SstableReader) : Prop where
  distinct : (reader.entries.map Prod.fst).Nodup
  covered : ∀ entry ∈ reader.entries, reader.mayContain platform entry.1 = true

variable {platform} {reader : SstableReader}

theorem Sound.get_eq (sound : reader.Sound platform) (key : RecordKey) :
    reader.get platform key = find reader.entries key := by
  rw [get]
  split
  · rename_i excluded
    cases held : find reader.entries key with
    | none => rfl
    | some record =>
        have possible := sound.covered _ (mem_of_find held)
        simp [possible] at excluded
  · rfl

end SstableReader

/-! ## Writing -/

section Writing

variable (platform : Platform)

/-- What `SstableWriter::finish` writes for the entries added: sorted by key,
with a filter over the keys. -/
def finish (entries : List (RecordKey × FunRecord)) : SstableReader :=
  let sorted := sortByKey entries
  let bloom := BloomFilter.new platform.bloom (max sorted.length 1) (1 / 1000)
  { entries := sorted
    bloom := (sorted.map fun entry => platform.encodeKey entry.1).foldl
      (fun bloom key => bloom.insert platform.bloom key) bloom }

theorem mayContain_finish {entries : List (RecordKey × FunRecord)}
    {entry : RecordKey × FunRecord} (member : entry ∈ (finish platform entries).entries) :
    (finish platform entries).mayContain platform entry.1 = true :=
  BloomFilter.contains_of_mem_inserted platform.bloom _ (BloomFilter.new_m_pos _ _ _)
    (List.mem_map.mpr ⟨entry, member, rfl⟩)

variable {entries : List (RecordKey × FunRecord)}

theorem finish_sound (distinct : (entries.map Prod.fst).Nodup) :
    (finish platform entries).Sound platform where
  distinct := ((sortByKey_perm entries).map Prod.fst).nodup_iff.mpr distinct
  covered _ member := mayContain_finish platform member

theorem get_finish (distinct : (entries.map Prod.fst).Nodup) (key : RecordKey) :
    (finish platform entries).get platform key = find entries key := by
  rw [(finish_sound platform distinct).get_eq]
  exact find_sortByKey entries key

end Writing

/-! ## Merging -/

section Merging

variable (platform : Platform)

/-- The entries of the merge: all entries sorted by key, the last one of each
key kept. -/
def mergedEntries (inputs : List SstableReader) : List (RecordKey × FunRecord) :=
  let all := sortByKey (inputs.flatMap SstableReader.entries)
  (dropRepeats none all.reverse).reverse

def mergeSstables (inputs : List SstableReader) : SstableReader :=
  finish platform (mergedEntries inputs)

theorem mergedEntries_distinct (inputs : List SstableReader) :
    ((mergedEntries inputs).map Prod.fst).Nodup := by
  have descending : (sortByKey (inputs.flatMap SstableReader.entries)).reverse.Pairwise
      fun left right => right.1 ≤ left.1 :=
    List.pairwise_reverse.mpr (sortByKey_pairwise _)
  have strict := (dropRepeats_strict descending none (by simp)).1
  rw [mergedEntries, List.map_reverse, List.nodup_reverse]
  exact List.pairwise_map.mpr (strict.imp fun below => below.ne')

theorem find_mergedEntries (inputs : List SstableReader) (key : RecordKey) :
    find (mergedEntries inputs) key =
      find (inputs.flatMap SstableReader.entries).reverse key := by
  have kept := mergedEntries_distinct inputs
  rw [mergedEntries] at kept ⊢
  rw [find_eq_of_perm (List.reverse_perm _) kept key,
    find_dropRepeats _ _ none (by simp), find_reverse_sortByKey]

/-- Searching from the back is searching the newest input first. -/
theorem find_flatMap_reverse {inputs : List SstableReader}
    (distinct : ∀ reader ∈ inputs, (reader.entries.map Prod.fst).Nodup) (key : RecordKey) :
    find (inputs.flatMap SstableReader.entries).reverse key =
      newest (fun reader key => find reader.entries key) inputs key := by
  induction inputs with
  | nil => rfl
  | cons first rest induction =>
      have own := find_eq_of_perm (List.reverse_perm first.entries).symm
        (distinct first List.mem_cons_self) key
      rw [List.flatMap_cons, List.reverse_append, find_append, newest_cons, own,
        induction fun reader member => distinct reader (List.mem_cons_of_mem _ member)]

theorem mergeSstables_sound (inputs : List SstableReader) :
    (mergeSstables platform inputs).Sound platform :=
  finish_sound platform (mergedEntries_distinct inputs)

/-- The merge of sound tables, oldest first, answers as the newest of them. -/
theorem get_mergeSstables {inputs : List SstableReader}
    (sound : ∀ reader ∈ inputs, reader.Sound platform) (key : RecordKey) :
    (mergeSstables platform inputs).get platform key =
      newest (SstableReader.get platform) inputs key := by
  rw [mergeSstables, get_finish platform (mergedEntries_distinct inputs), find_mergedEntries,
    find_flatMap_reverse fun reader member => (sound reader member).distinct]
  exact newest_congr _ fun reader member => ((sound reader member).get_eq key).symm

end Merging

end FunDB.Storage
