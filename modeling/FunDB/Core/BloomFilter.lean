import Mathlib.Data.Rat.Defs
import Mathlib.Data.List.Basic

/-! # Bloom filters

A filter over byte keys with double hashing. The hash functions and the
floating-point sizing are parameters; a filter has no false negatives for any of
them. -/

namespace FunDB

/-- The hash functions and the two roundings of the sizing formulas. -/
structure BloomParameters where
  xxh3 : List UInt8 → UInt64
  xxh3WithSeed : List UInt8 → UInt64 → UInt64
  /-- `ceil(-n ln fpr / ln(2)^2)` -/
  optimalBits : Nat → ℚ → Nat
  /-- `max(1, round(m / n ln 2))` -/
  optimalHashes : Nat → Nat → UInt8

structure BloomFilter where
  bits : List UInt64
  k : UInt8
deriving DecidableEq, Repr

namespace BloomFilter

variable (parameters : BloomParameters)

/-- An empty filter for `capacity` items, of at least one word. -/
def new (capacity : Nat) (fpr : ℚ) : BloomFilter :=
  let base := max (parameters.optimalBits capacity fpr) 64
  let rounded := (base + 63) / 64 * 64
  { bits := List.replicate (rounded / 64) 0
    k := parameters.optimalHashes rounded capacity }

def m (filter : BloomFilter) : Nat := filter.bits.length * 64

def bitIndex (filter : BloomFilter) (key : List UInt8) (i : Nat) : Nat :=
  let h1 := parameters.xxh3 key
  let h2 := parameters.xxh3WithSeed key h1
  let combined := h1 + UInt64.ofNat i * h2
  combined.toNat % filter.m

def mask (bit : Nat) : UInt64 := 1 <<< UInt64.ofNat (bit % 64)

def setBit (filter : BloomFilter) (bit : Nat) : BloomFilter :=
  { filter with bits := filter.bits.modify (bit / 64) fun word => word ||| mask bit }

def hasBit (filter : BloomFilter) (bit : Nat) : Bool :=
  filter.bits.getD (bit / 64) 0 &&& mask bit != 0

def insert (filter : BloomFilter) (key : List UInt8) : BloomFilter :=
  (List.range filter.k.toNat).foldl
    (fun filter i => filter.setBit (filter.bitIndex parameters key i)) filter

def contains (filter : BloomFilter) (key : List UInt8) : Bool :=
  (List.range filter.k.toNat).all fun i => filter.hasBit (filter.bitIndex parameters key i)

/-! ## No false negatives -/

theorem mask_ne_zero (bit : Nat) : mask bit ≠ 0 := by
  have every : ∀ position : Fin 64, (1 : UInt64) <<< UInt64.ofNat position ≠ 0 := by
    decide
  exact every ⟨bit % 64, Nat.mod_lt _ (by omega)⟩

theorem or_and_eq_zero_iff (left right bits : UInt64) :
    (left ||| right) &&& bits = 0 ↔ left &&& bits = 0 ∧ right &&& bits = 0 := by
  rw [← UInt64.toBitVec_inj, ← UInt64.toBitVec_inj, ← UInt64.toBitVec_inj]
  simp [BitVec.and_or_distrib_right, BitVec.or_eq_zero_iff]

section SetBit

variable (filter : BloomFilter) (bit : Nat)

@[simp] theorem length_setBit : (filter.setBit bit).bits.length = filter.bits.length := by
  simp [setBit]

@[simp] theorem setBit_m : (filter.setBit bit).m = filter.m := by
  simp [m]

theorem hasBit_setBit (within : bit < filter.m) : (filter.setBit bit).hasBit bit = true := by
  have word : bit / 64 < filter.bits.length := by
    rw [m] at within
    omega
  rw [hasBit, setBit]
  simp [List.getD_eq_getElem?_getD, List.getElem?_eq_getElem word, or_and_eq_zero_iff, mask_ne_zero]

theorem hasBit_setBit_of_hasBit {other : Nat} (set : filter.hasBit other = true) :
    (filter.setBit bit).hasBit other = true := by
  rw [hasBit, List.getD_eq_getElem?_getD] at set ⊢
  rw [setBit, List.getElem?_modify]
  cases word : filter.bits[other / 64]? with
  | none => simp [word] at set
  | some bits =>
      by_cases same : bit / 64 = other / 64 <;>
        simp_all [or_and_eq_zero_iff]

end SetBit

section Insert

variable (filter : BloomFilter) (key : List UInt8)

/-- What setting bits keeps: the number of bits, and every bit that is set. -/
structure Extends (before after : BloomFilter) : Prop where
  sameLength : after.bits.length = before.bits.length
  sameHashes : after.k = before.k
  bitsKept : ∀ bit, before.hasBit bit = true → after.hasBit bit = true

theorem Extends.trans {first second third : BloomFilter} (left : Extends first second)
    (right : Extends second third) : Extends first third where
  sameLength := right.sameLength.trans left.sameLength
  sameHashes := right.sameHashes.trans left.sameHashes
  bitsKept bit set := right.bitsKept bit (left.bitsKept bit set)

theorem Extends.bitIndex {before after : BloomFilter} (extended : Extends before after)
    (i : Nat) : after.bitIndex parameters key i = before.bitIndex parameters key i := by
  simp [BloomFilter.bitIndex, m, extended.sameLength]

theorem extends_setBit (bit : Nat) : Extends filter (filter.setBit bit) where
  sameLength := filter.length_setBit bit
  sameHashes := rfl
  bitsKept _ := filter.hasBit_setBit_of_hasBit bit

private theorem setBits_spec (indices : List Nat) (words : 0 < filter.m) :
    let after := indices.foldl
      (fun filter i => filter.setBit (filter.bitIndex parameters key i)) filter
    Extends filter after ∧
      ∀ i ∈ indices, after.hasBit (filter.bitIndex parameters key i) = true := by
  induction indices generalizing filter with
  | nil => exact ⟨⟨rfl, rfl, fun _ set => set⟩, fun _ member => by cases member⟩
  | cons first rest induction =>
      let next := filter.setBit (filter.bitIndex parameters key first)
      have step : Extends filter next := filter.extends_setBit _
      rcases induction next (by simpa [next] using words) with ⟨extended, found⟩
      refine ⟨step.trans extended, fun i member => ?_⟩
      rcases List.mem_cons.mp member with rfl | inRest
      · apply extended.bitsKept
        exact filter.hasBit_setBit _ (Nat.mod_lt _ words)
      · rw [← step.bitIndex]
        exact found i inRest

theorem extends_insert (words : 0 < filter.m) :
    Extends filter (filter.insert parameters key) :=
  (setBits_spec parameters filter key _ words).1

theorem contains_insert (words : 0 < filter.m) :
    (filter.insert parameters key).contains parameters key = true := by
  rcases setBits_spec parameters filter key (List.range filter.k.toNat) words with
    ⟨extended, found⟩
  rw [contains, List.all_eq_true]
  intro i member
  rw [insert] at member ⊢
  rw [extended.bitIndex]
  exact found i (by rwa [← extended.sameHashes])

theorem Extends.contains {before after : BloomFilter} (extended : Extends before after)
    (held : before.contains parameters key = true) :
    after.contains parameters key = true := by
  rw [BloomFilter.contains, List.all_eq_true] at held ⊢
  intro i member
  rw [extended.bitIndex]
  exact extended.bitsKept _ (held i (by rwa [← extended.sameHashes]))

end Insert

theorem new_m_pos (capacity : Nat) (fpr : ℚ) : 0 < (new parameters capacity fpr).m := by
  simp only [new, m, List.length_replicate]
  omega

theorem Extends.m_pos {before after : BloomFilter} (extended : Extends before after)
    (words : 0 < before.m) : 0 < after.m := by
  rw [m, extended.sameLength]
  exact words

theorem extends_insertAll (filter : BloomFilter) (words : 0 < filter.m)
    (keys : List (List UInt8)) :
    Extends filter (keys.foldl (fun filter key => filter.insert parameters key) filter) := by
  induction keys generalizing filter with
  | nil => exact ⟨rfl, rfl, fun _ set => set⟩
  | cons first rest induction =>
      have step := filter.extends_insert parameters first words
      exact step.trans (induction _ (step.m_pos words))

theorem contains_of_mem_inserted (filter : BloomFilter) (words : 0 < filter.m)
    {keys : List (List UInt8)} {key : List UInt8} (member : key ∈ keys) :
    (keys.foldl (fun filter key => filter.insert parameters key) filter).contains
      parameters key = true := by
  induction keys generalizing filter with
  | nil => cases member
  | cons first rest induction =>
      have step := filter.extends_insert parameters first words
      rcases List.mem_cons.mp member with rfl | inRest
      · exact (extends_insertAll parameters _ (step.m_pos words) rest).contains parameters key
          (filter.contains_insert parameters key words)
      · exact induction _ (step.m_pos words) inRest

end BloomFilter

end FunDB
