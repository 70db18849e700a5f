import Mathlib.Data.List.AList

/-! # Buckets

A finite map from keys to lists of values. A key without an entry has an empty
bucket. -/

namespace FunDB

universe u v

/-- A finite map. The order of its entries means nothing. -/
abbrev Dict (Key : Type u) (Value : Type v) := AList fun _ : Key => Value

namespace Dict

variable {Key : Type u} [DecidableEq Key] {Value : Type v}

theorem lookup_insert (dict : Dict Key Value) (key other : Key) (value : Value) :
    (AList.insert key value dict).lookup other =
      if other = key then some value else dict.lookup other := by
  split
  · next same =>
      subst same
      exact AList.lookup_insert dict
  · next different => exact AList.lookup_insert_ne different

def eraseAll (dict : Dict Key Value) (keys : List Key) : Dict Key Value :=
  keys.foldl (fun dict key => AList.erase key dict) dict

theorem lookup_eraseAll (dict : Dict Key Value) (keys : List Key) (key : Key) :
    (dict.eraseAll keys).lookup key = if key ∈ keys then none else dict.lookup key := by
  induction keys generalizing dict with
  | nil => simp [eraseAll]
  | cons first keys induction =>
      have step : dict.eraseAll (first :: keys) = eraseAll (AList.erase first dict) keys := rfl
      rw [step, induction]
      by_cases same : key = first
      · subst same
        rw [AList.lookup_erase, if_pos List.mem_cons_self, ite_self]
      · rw [AList.lookup_erase_ne same]
        simp [same]

theorem mem_eraseAll_iff (dict : Dict Key Value) (keys : List Key) (key : Key) :
    key ∈ dict.eraseAll keys ↔ key ∈ dict ∧ key ∉ keys := by
  rw [← AList.lookup_isSome, lookup_eraseAll]
  split
  · next erased => simp [erased]
  · next kept => rw [AList.lookup_isSome]; simp [kept]

end Dict

abbrev Buckets (Key : Type u) (Value : Type v) := Dict Key (List Value)

namespace Buckets

variable {Key : Type u} [DecidableEq Key] {Value : Type v}

def bucket (buckets : Buckets Key Value) (key : Key) : List Value :=
  (buckets.lookup key).getD []

def push (buckets : Buckets Key Value) (key : Key) (value : Value) : Buckets Key Value :=
  buckets.insert key (buckets.bucket key ++ [value])

def without (buckets : Buckets Key Value) (key : Key) : Buckets Key Value :=
  AList.erase key buckets

/-- The values that meet a condition, in the same buckets. -/
def retain (keep : Value → Bool) (buckets : Buckets Key Value) : Buckets Key Value where
  entries := buckets.entries.map fun entry => ⟨entry.1, entry.2.filter keep⟩
  nodupKeys := by
    have sameKeys : (buckets.entries.map fun entry : Sigma fun _ : Key => List Value =>
        (⟨entry.1, entry.2.filter keep⟩ : Sigma fun _ : Key => List Value)).keys =
        buckets.entries.keys := List.map_map
    unfold List.NodupKeys
    rw [sameKeys]
    exact buckets.nodupKeys

/-- The values of all buckets. -/
def all (buckets : Buckets Key Value) : List Value :=
  buckets.entries.flatMap Sigma.snd

/-- Every value is in the bucket of its own key. -/
def Filed (key : Value → Key) (buckets : Buckets Key Value) : Prop :=
  ∀ place, ∀ value ∈ buckets.bucket place, key value = place

variable (buckets : Buckets Key Value) (key other : Key) (value : Value)

theorem bucket_empty : (∅ : Buckets Key Value).bucket key = [] := rfl

theorem bucket_push :
    (buckets.push key value).bucket other =
      if other = key then buckets.bucket key ++ [value] else buckets.bucket other := by
  unfold push bucket
  rw [Dict.lookup_insert]
  split
  · rfl
  · rfl

theorem mem_bucket_push (other : Value) (place : Key) :
    other ∈ (buckets.push key value).bucket place ↔
      other ∈ buckets.bucket place ∨ place = key ∧ other = value := by
  rw [bucket_push]
  split
  · next same => simp [same]
  · next different => simp [different]

/-- The values of all buckets, those of one key first. -/
theorem all_perm (key : Key) :
    buckets.all.Perm (buckets.bucket key ++ (buckets.without key).all) := by
  by_cases present : key ∈ buckets.keys
  · rcases List.exists_of_kerase present with ⟨values, before, after, _, split, erased⟩
    have found : buckets.bucket key = values := by
      have isEntry : (⟨key, values⟩ : Sigma fun _ : Key => List Value) ∈ buckets.entries := by
        rw [split]
        simp
      have lookup := AList.mem_lookup_iff.mpr isEntry
      rw [bucket, Option.mem_def.mp lookup]
      rfl
    have rest : (buckets.without key).all = (before ++ after).flatMap Sigma.snd := by
      rw [← erased]
      rfl
    rw [all, split, found, rest, List.flatMap_append, List.flatMap_append, List.flatMap_cons]
    exact List.perm_append_comm_assoc _ _ _
  · have missing : buckets.lookup key = none := AList.lookup_eq_none.mpr present
    have same : (buckets.without key).all = buckets.all := by
      have kept : (buckets.without key).entries = buckets.entries :=
        List.kerase_of_notMem_keys present
      rw [all, kept, all]
    rw [same, bucket, missing]
    exact .rfl

theorem all_push : (buckets.push key value).all.Perm (value :: buckets.all) := by
  have inserted : (buckets.push key value).all =
      buckets.bucket key ++ [value] ++ (buckets.without key).all := rfl
  rw [inserted, List.append_assoc]
  exact List.perm_middle.trans ((buckets.all_perm key).symm.cons value)

theorem mem_all_iff : value ∈ buckets.all ↔ ∃ key, value ∈ buckets.bucket key := by
  constructor
  · intro isIn
    rcases List.mem_flatMap.mp isIn with ⟨entry, isEntry, isValue⟩
    refine ⟨entry.1, ?_⟩
    rw [bucket, Option.mem_def.mp (AList.mem_lookup_iff.mpr isEntry)]
    exact isValue
  · rintro ⟨key, isIn⟩
    exact (buckets.all_perm key).symm.subset (List.mem_append_left _ isIn)

theorem bucket_eq_nil (absent : key ∉ buckets.keys) : buckets.bucket key = [] := by
  rw [bucket, AList.lookup_eq_none.mpr absent]
  rfl

/-! ## Fewer values -/

omit [DecidableEq Key] in
theorem keys_retain (keep : Value → Bool) : (buckets.retain keep).keys = buckets.keys :=
  List.map_map

theorem bucket_retain (keep : Value → Bool) :
    (buckets.retain keep).bucket key = (buckets.bucket key).filter keep := by
  cases found : buckets.lookup key with
  | none =>
      have absent : key ∉ (buckets.retain keep).keys := by
        rw [keys_retain]
        exact AList.lookup_eq_none.mp found
      rw [bucket_eq_nil _ _ absent, bucket, found]
      rfl
  | some values =>
      have isEntry : (⟨key, values.filter keep⟩ : Sigma fun _ : Key => List Value) ∈
          (buckets.retain keep).entries :=
        List.mem_map.mpr ⟨_, AList.mem_lookup_iff.mp found, rfl⟩
      rw [bucket, Option.mem_def.mp (AList.mem_lookup_iff.mpr isEntry), bucket, found]
      rfl

omit [DecidableEq Key] in
theorem mem_retain_iff (keep : Value → Bool) : key ∈ buckets.retain keep ↔ key ∈ buckets := by
  rw [AList.mem_keys, keys_retain, ← AList.mem_keys]

theorem bucket_eraseAll (keys : List Key) :
    bucket (Dict.eraseAll buckets keys) key = if key ∈ keys then [] else buckets.bucket key := by
  rw [bucket, Dict.lookup_eraseAll]
  split
  · rfl
  · rfl

variable {buckets key value}

theorem filed_empty (place : Value → Key) : Filed place (∅ : Buckets Key Value) :=
  fun _ _ isIn => nomatch isIn

theorem Filed.push {place : Value → Key} (filed : Filed place buckets)
    (own : place value = key) : Filed place (buckets.push key value) := by
  intro where_ other isIn
  rcases (mem_bucket_push buckets key value other where_).mp isIn with isIn | ⟨rfl, rfl⟩
  · exact filed where_ other isIn
  · exact own

theorem Filed.mem_all_iff {place : Value → Key} (filed : Filed place buckets) (value : Value) :
    value ∈ buckets.all ↔ value ∈ buckets.bucket (place value) := by
  rw [Buckets.mem_all_iff]
  constructor
  · rintro ⟨key, isIn⟩
    exact filed key value isIn ▸ isIn
  · exact fun isIn => ⟨_, isIn⟩

end Buckets

end FunDB
