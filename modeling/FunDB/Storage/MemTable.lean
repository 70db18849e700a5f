import FunDB.Core.Record
import FunDB.Core.BloomFilter
import FunDB.Foundation.KeyedList
import Std.Data.ExtTreeMap

/-! # Memtables

The mutable write buffer and the sorted snapshot it is frozen into. -/

namespace FunDB.Storage

open KeyedList
open Std (ExtTreeMap LawfulEqCmp TransCmp)

/-- What the engine takes from outside: the MessagePack encoding of keys, hashing
and filter sizing, `size_of::<FunRecord>()` and the successive readings of the
clock. -/
structure Platform where
  encodeKey : RecordKey → List UInt8
  bloom : BloomParameters
  recordSize : Nat
  clock : Nat → Nat

instance : LawfulEqCmp (compare : RecordKey → RecordKey → Ordering) where
  eq_of_compare := compare_eq_iff_eq.mp

instance : TransCmp (compare : RecordKey → RecordKey → Ordering) := inferInstance

/-! ## The active table -/

structure MemTable where
  inner : ExtTreeMap RecordKey FunRecord
  sizeBytes : Nat

/-- A read-only snapshot, sorted by key. -/
structure ImmutableMemTable where
  entries : List (RecordKey × FunRecord)
  sorted : entries.Pairwise fun left right => left.1 < right.1

namespace MemTable

def new : MemTable where
  inner := ∅
  sizeBytes := 0

/-- Insert or overwrite. The size grows by the estimate of the entry either way. -/
def insert (platform : Platform) (table : MemTable) (key : RecordKey)
    (record : FunRecord) : MemTable where
  inner := table.inner.insert key record
  sizeBytes := table.sizeBytes + (platform.recordSize + key.collection.utf8ByteSize + 16)

def get (table : MemTable) (key : RecordKey) : Option FunRecord := table.inner[key]?

def freeze (table : MemTable) : ImmutableMemTable where
  entries := table.inner.toList
  sorted := table.inner.ordered_keys_toList.imp fun ordered => compare_lt_iff_lt.mp ordered

end MemTable

namespace ImmutableMemTable

/-- The lookup by iteration that `LsmTree::get` makes. -/
def get (table : ImmutableMemTable) (key : RecordKey) : Option FunRecord :=
  find table.entries key

theorem distinct (table : ImmutableMemTable) : (table.entries.map Prod.fst).Nodup :=
  List.pairwise_map.mpr (table.sorted.imp fun ordered => ordered.ne)

end ImmutableMemTable

/-! ## Lookups -/

@[simp] theorem MemTable.get_new (key : RecordKey) : MemTable.new.get key = none := by
  simp [MemTable.new, MemTable.get]

theorem MemTable.get_insert (platform : Platform) (table : MemTable)
    (key : RecordKey) (record : FunRecord) (other : RecordKey) :
    (table.insert platform key record).get other =
      if key = other then some record else table.get other := by
  simp [MemTable.insert, MemTable.get, ExtTreeMap.getElem?_insert]

@[simp] theorem MemTable.get_freeze (table : MemTable) (key : RecordKey) :
    table.freeze.get key = table.get key := by
  cases held : table.get key with
  | none =>
      apply (find_eq_none_iff _ _).mpr
      rw [List.mem_map]
      intro named
      rcases named with ⟨entry, member, rfl⟩
      have present := ExtTreeMap.mem_toList_iff_getElem?_eq_some.mp member
      rw [MemTable.get, present] at held
      cases held
  | some record =>
      exact find_of_mem table.freeze.distinct
        (ExtTreeMap.mem_toList_iff_getElem?_eq_some.mpr held)

end FunDB.Storage
