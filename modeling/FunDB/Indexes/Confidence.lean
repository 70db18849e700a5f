import FunDB.Core.Page
import FunDB.Foundation.Histogram
import Mathlib.Algebra.Order.Floor.Ring
import Mathlib.Data.Rat.Floor

/-! # The confidence index

Confidences are rational numbers here. The histograms of the index and of a page are
the same function of the confidences. -/

namespace FunDB

open FallibleRuns Histogram

structure ConfidenceIndex where
  entries : List (Uuid × ℚ)
deriving DecidableEq

/-- `(confidence * 100.0).round() as usize` -/
def roundPercent (confidence : ℚ) : Nat :=
  ⌊100 * confidence + 1 / 2⌋.toNat

/-- The bucket that the code takes for a confidence. -/
def roundedBucket (confidence : ℚ) : Fin 100 :=
  ⟨min (roundPercent confidence) 99, by omega⟩

namespace ConfidenceIndex

def new : ConfidenceIndex where
  entries := []

def insert (index : ConfidenceIndex) (id : Uuid) (confidence : ℚ) : ConfidenceIndex :=
  { entries := index.entries ++ [(id, confidence)] }

/-- The identifiers with a confidence in the closed interval. -/
def range (index : ConfidenceIndex) (min max : ℚ) : List Uuid :=
  (index.entries.filter fun entry => min ≤ entry.2 ∧ entry.2 ≤ max).map Prod.fst

def histogram (index : ConfidenceIndex) : Vector UInt32 100 :=
  index.entries.foldl (fun buckets entry => bump buckets (roundedBucket entry.2))
    (Vector.replicate 100 0)

/-- Changes the first entry of the identifier, if there is one. -/
def update (index : ConfidenceIndex) (id : Uuid) (newConfidence : ℚ) : ConfidenceIndex :=
  match index.entries.findIdx? fun entry => entry.1 == id with
  | some position =>
      { entries := index.entries.modify position fun entry => (entry.1, newConfidence) }
  | none => index

def confidences (index : ConfidenceIndex) : List ℚ :=
  index.entries.map Prod.snd

end ConfidenceIndex

/-! ## The law of the buckets -/

/-- A bucket is a half-open interval of one percent; the last one has one as well. -/
def Covers (bucket : Nat) (confidence : ℚ) : Prop :=
  (bucket : ℚ) / 100 ≤ confidence ∧
    (confidence < (bucket + 1 : ℚ) / 100 ∨ bucket = 99 ∧ confidence = 1)

/-- The half-open interval of some buckets, with one if it ends with the last. -/
def Between (first last : Nat) (confidence : ℚ) : Prop :=
  (first : ℚ) / 100 ≤ confidence ∧
    (confidence < (last : ℚ) / 100 ∨ first < last ∧ last = 100 ∧ confidence = 1)

instance (bucket : Nat) (confidence : ℚ) : Decidable (Covers bucket confidence) :=
  inferInstanceAs (Decidable (_ ∧ _))

instance (first last : Nat) (confidence : ℚ) : Decidable (Between first last confidence) :=
  inferInstanceAs (Decidable (_ ∧ _))

structure ObeysLaw (histogram : Vector UInt32 100) (confidences : List ℚ) : Prop where
  buckets : ∀ bucket : Fin 100,
    histogram[bucket].toNat = confidences.countP fun c => Covers bucket c
  ranges : ∀ first last, first ≤ last → last ≤ 100 →
    bucketSum histogram first last = confidences.countP fun c => Between first last c

/-- Rounding to a percent does not leave the bucket, or there is no next one. -/
def Stays (confidence : ℚ) : Prop :=
  99 / 100 ≤ confidence ∨ Int.fract (100 * confidence) < 1 / 2

instance (confidence : ℚ) : Decidable (Stays confidence) :=
  inferInstanceAs (Decidable (_ ∨ _))

/-- No confidence is rounded out of its bucket, and no bucket has more than 32 bits
can count. -/
def Binned (confidences : List ℚ) : Prop :=
  (∀ c ∈ confidences, Stays c) ∧
    ∀ bucket < 100, (confidences.countP fun c => Covers bucket c) < 2 ^ 32

instance (confidences : List ℚ) : Decidable (Binned confidences) :=
  inferInstanceAs (Decidable (_ ∧ _))

def InUnit (confidences : List ℚ) : Prop :=
  ∀ c ∈ confidences, 0 ≤ c ∧ c ≤ 1

instance (confidences : List ℚ) : Decidable (InUnit confidences) :=
  inferInstanceAs (Decidable (∀ c ∈ confidences, _))

/-! ## The bucket of one confidence -/

/-- The bucket that covers a confidence. -/
def exactBucket (confidence : ℚ) : Nat :=
  min ⌊100 * confidence⌋.toNat 99

section One

variable {c : ℚ}

theorem covers_iff (low : 0 ≤ c) (high : c ≤ 1) {bucket : Nat} (within : bucket < 100) :
    Covers bucket c ↔ exactBucket c = bucket := by
  have nonneg : 0 ≤ ⌊100 * c⌋ := Int.floor_nonneg.mpr (by positivity)
  have below : (bucket : ℚ) / 100 ≤ c ↔ (bucket : ℤ) ≤ ⌊100 * c⌋ := by
    rw [Int.le_floor, div_le_iff₀ (by norm_num), mul_comm]
    norm_cast
  have above : c < (bucket + 1 : ℚ) / 100 ↔ ⌊100 * c⌋ < (bucket + 1 : ℤ) := by
    rw [Int.floor_lt, lt_div_iff₀ (by norm_num), mul_comm]
    norm_cast
  have full : c = 1 ↔ 100 ≤ ⌊100 * c⌋ := by
    rw [Int.le_floor]
    constructor
    · intro one
      rw [one]
      norm_num
    · intro reached
      push_cast at reached
      linarith
  rw [Covers, below, above, full, exactBucket]
  omega

theorem roundPercent_eq (low : 0 ≤ c) :
    roundPercent c =
      if Int.fract (100 * c) < 1 / 2 then ⌊100 * c⌋.toNat else ⌊100 * c⌋.toNat + 1 := by
  have nonneg : 0 ≤ ⌊100 * c⌋ := Int.floor_nonneg.mpr (by positivity)
  have parts := Int.floor_add_fract (100 * c)
  have small := Int.fract_lt_one (100 * c)
  have least := Int.fract_nonneg (100 * c)
  rw [roundPercent]
  split
  next under =>
    have same : ⌊100 * c + 1 / 2⌋ = ⌊100 * c⌋ := by
      apply Int.floor_eq_iff.mpr
      constructor <;> linarith
    rw [same]
  next upper =>
    have next : ⌊100 * c + 1 / 2⌋ = ⌊100 * c⌋ + 1 := by
      apply Int.floor_eq_iff.mpr
      push_cast
      constructor <;> linarith
    rw [next]
    omega

/-- A confidence that does not stay goes to the next bucket. -/
theorem roundedBucket_val (low : 0 ≤ c) :
    (roundedBucket c).val = if Stays c then exactBucket c else exactBucket c + 1 := by
  have nonneg : 0 ≤ ⌊100 * c⌋ := Int.floor_nonneg.mpr (by positivity)
  have last : 99 / 100 ≤ c ↔ 99 ≤ ⌊100 * c⌋ := by
    rw [Int.le_floor, div_le_iff₀ (by norm_num), mul_comm]
    norm_cast
  change min (roundPercent c) 99 = _
  rw [roundPercent_eq low, exactBucket]
  by_cases under : Int.fract (100 * c) < 1 / 2
  · have stays : Stays c := .inr under
    rw [if_pos under, if_pos stays]
  · rw [if_neg under]
    by_cases top : 99 / 100 ≤ c
    · have stays : Stays c := .inl top
      rw [if_pos stays]
      have := last.mp top
      omega
    · have moves : ¬ Stays c := fun stays => stays.elim top under
      rw [if_neg moves]
      have := mt last.mpr top
      omega

theorem exactBucket_lt : exactBucket c < 100 := by
  rw [exactBucket]
  omega

end One

/-! ## All confidences -/

section All

variable {confidences : List ℚ}

theorem countP_covers (inUnit : InUnit confidences) {bucket : Nat} (within : bucket < 100) :
    (confidences.countP fun c => Covers bucket c) =
      confidences.countP fun c => exactBucket c = bucket := by
  apply List.countP_congr
  intro c member
  rcases inUnit c member with ⟨low, high⟩
  simp only [decide_eq_true_eq]
  exact covers_iff low high within

theorem countP_between_succ (inUnit : InUnit confidences) {first last : Nat}
    (order : first ≤ last) (within : last < 100) :
    (confidences.countP fun c => Between first (last + 1) c) =
      (confidences.countP fun c => Between first last c) +
        confidences.countP fun c => Covers last c := by
  apply countP_eq_add
  · intro c member
    rcases inUnit c member with ⟨low, high⟩
    rw [← Bool.decide_or, decide_eq_decide, Between, Between, Covers]
    have ordered : (first : ℚ) / 100 ≤ last / 100 := by
      have := Nat.cast_le (α := ℚ).mpr order
      linarith
    have notEnd : ¬ (first < last ∧ last = 100 ∧ c = 1) := by omega
    have isLast : first < last + 1 ∧ last + 1 = 100 ∧ c = 1 ↔ last = 99 ∧ c = 1 :=
      ⟨fun ended => ⟨by omega, ended.2.2⟩, fun ended => ⟨by omega, by omega, ended.2⟩⟩
    rw [isLast]
    push_cast
    constructor
    · intro inside
      rcases inside with ⟨above, below⟩
      rcases lt_or_ge c (last / 100) with earlier | later
      · exact .inl ⟨above, .inl earlier⟩
      · exact .inr ⟨later, below⟩
    · intro either
      rcases either with ⟨above, below | impossible⟩ | ⟨above, below⟩
      · refine ⟨above, .inl ?_⟩
        linarith
      · exact absurd impossible notEnd
      · exact ⟨ordered.trans above, below⟩
  · intro c _
    rw [← Bool.decide_and, decide_eq_false_iff_not, Between, Covers]
    intro both
    rcases both with ⟨⟨-, below | impossible⟩, above, -⟩
    · exact absurd below (not_lt.mpr above)
    · omega

/-- Buckets that hold their counts add up to the counts of ranges. -/
theorem obeysLaw_of_buckets (inUnit : InUnit confidences) {histogram : Vector UInt32 100}
    (buckets : ∀ bucket : Fin 100,
      histogram[bucket].toNat = confidences.countP fun c => Covers bucket c) :
    ObeysLaw histogram confidences where
  buckets := buckets
  ranges first last order within := by
    induction last, order using Nat.le_induction with
    | base =>
        rw [bucketSum_self, eq_comm, List.countP_eq_zero]
        intro c _ inside
        rcases of_decide_eq_true inside with ⟨above, below | impossible⟩
        · exact absurd below (not_lt.mpr above)
        · omega
    | succ last order induction =>
        have here : histogram[last].toNat = confidences.countP fun c => Covers last c :=
          buckets ⟨last, by omega⟩
        rw [bucketSum_succ histogram order (by omega), induction (by omega), here,
          countP_between_succ inUnit order (by omega)]

theorem getElem_roundedBucket (bucket : Fin 100) :
    (tally roundedBucket confidences)[bucket].toNat =
      (confidences.countP fun c => (roundedBucket c).val = bucket.val) % 2 ^ 32 := by
  rw [getElem_tally, UInt32.toNat_ofNat']
  simp only [Fin.ext_iff]

/-- The items of a bucket are those that stay in it and those that come from below. -/
theorem countP_roundedBucket (inUnit : InUnit confidences) (bucket : Nat) :
    (confidences.countP fun c => (roundedBucket c).val = bucket) =
      (confidences.countP fun c => exactBucket c = bucket ∧ Stays c) +
        confidences.countP fun c => exactBucket c + 1 = bucket ∧ ¬ Stays c := by
  apply countP_eq_add
  · intro c member
    rcases inUnit c member with ⟨low, high⟩
    rw [← Bool.decide_or, decide_eq_decide, roundedBucket_val low]
    by_cases stays : Stays c
    · simp [stays]
    · simp [stays]
  · intro c _
    rw [← Bool.decide_and, decide_eq_false_iff_not]
    intro both
    exact both.2.2 both.1.2

theorem countP_exactBucket (confidences : List ℚ) (bucket : Nat) :
    (confidences.countP fun c => exactBucket c = bucket) =
      (confidences.countP fun c => exactBucket c = bucket ∧ Stays c) +
        confidences.countP fun c => exactBucket c = bucket ∧ ¬ Stays c := by
  apply countP_eq_add
  · intro c _
    rw [← Bool.decide_or, decide_eq_decide, ← and_or_left]
    simp [Classical.em]
  · intro c _
    rw [← Bool.decide_and, decide_eq_false_iff_not]
    intro both
    exact both.2.2 both.1.2

/-- If all counters are right then no confidence left its bucket: the first bucket that
one left would hold too few. -/
theorem stays_of_buckets (inUnit : InUnit confidences)
    (buckets : ∀ bucket < 100,
      (confidences.countP fun c => (roundedBucket c).val = bucket) % 2 ^ 32 =
        confidences.countP fun c => exactBucket c = bucket) (bucket : Nat) :
    bucket < 100 → ∀ c ∈ confidences, exactBucket c = bucket → Stays c := by
  induction bucket using Nat.strong_induction_on with
  | _ bucket induction =>
      intro within
      have none : (confidences.countP fun c => exactBucket c + 1 = bucket ∧ ¬ Stays c) = 0 := by
        apply List.countP_eq_zero.mpr
        intro c member moved
        simp only [decide_eq_true_eq] at moved
        exact moved.2 (induction (exactBucket c) (by omega) (by omega) c member rfl)
      have rounded := countP_roundedBucket inUnit bucket
      have inBucket := countP_exactBucket confidences bucket
      have held := buckets bucket within
      have bound := Nat.mod_le
        (confidences.countP fun c => (roundedBucket c).val = bucket) (2 ^ 32)
      have left : (confidences.countP fun c => exactBucket c = bucket ∧ ¬ Stays c) = 0 := by
        omega
      intro c member here
      by_contra moves
      have absent := List.countP_eq_zero.mp left c member
      simp only [decide_eq_true_eq] at absent
      exact absent ⟨here, moves⟩

/-- The histogram of the code obeys the law exactly if rounding changes no bucket and
no counter wraps. -/
theorem obeysLaw_tally_iff (inUnit : InUnit confidences) :
    ObeysLaw (tally roundedBucket confidences) confidences ↔ Binned confidences := by
  constructor
  · intro law
    have buckets : ∀ bucket < 100,
        (confidences.countP fun c => (roundedBucket c).val = bucket) % 2 ^ 32 =
          confidences.countP fun c => exactBucket c = bucket := by
      intro bucket within
      have held := law.buckets ⟨bucket, within⟩
      rwa [getElem_roundedBucket, countP_covers inUnit within] at held
    refine ⟨?_, ?_⟩
    · intro c member
      exact stays_of_buckets inUnit buckets (exactBucket c) exactBucket_lt c member rfl
    · intro bucket within
      rw [countP_covers inUnit within, ← buckets bucket within]
      exact Nat.mod_lt _ (by decide)
  · intro binned
    apply obeysLaw_of_buckets inUnit
    intro bucket
    have few := binned.2 bucket.val bucket.isLt
    have same : (confidences.countP fun c => (roundedBucket c).val = bucket.val) =
        confidences.countP fun c => Covers bucket c := by
      rw [countP_covers inUnit bucket.isLt]
      apply List.countP_congr
      intro c member
      rw [roundedBucket_val (inUnit c member).1, if_pos (binned.1 c member)]
    rw [getElem_roundedBucket, same]
    exact Nat.mod_eq_of_lt few

end All

/-! ## The histograms of the index and of a page -/

universe u

theorem ConfidenceIndex.histogram_eq (index : ConfidenceIndex) :
    index.histogram = tally roundedBucket index.confidences := by
  rw [ConfidenceIndex.confidences, tally_map]
  rfl

theorem PageEncoder.histogram_of_encode {Fields : Type u} {codec : PageCodec Fields}
    {records : List (PageRecord Fields)} {header : PageHeader} {data : List UInt8}
    (encoded : PageEncoder.encode codec records = .ok (header, data)) :
    header.confidenceHistogram =
      tally (fun record => PageEncoder.bucket codec record.confidence) records := by
  rw [PageEncoder.encode] at encoded
  split at encoded
  next => cases encoded
  next =>
    cases reached : attempt (PageEncoder.addRecord codec)
        (PageEncoder.start codec records.length) records with
    | none =>
        rw [reached] at encoded
        cases encoded
    | some columns =>
        have counted := attempt_invariant (PageEncoder.addRecord codec)
          (fun done columns => columns.histogram =
            tally (fun record => PageEncoder.bucket codec record.confidence) done)
          rfl (by
            intro done columns record after before added
            rcases Option.bind_eq_some_iff.mp added with ⟨_, _, built⟩
            cases built
            rw [tally_concat, ← before]
            rfl) reached
        rw [reached] at encoded
        dsimp only at encoded
        split at encoded
        · cases encoded
          exact counted
        · cases encoded

/-- Both histograms obey the law exactly if rounding takes no confidence out of its
bucket and no counter wraps. What a page computes of the bits of a confidence is given
as rounding its value. -/
theorem histograms_obey_law_iff (index : ConfidenceIndex) (indexUnit : InUnit index.confidences)
    {Fields : Type u} {codec : PageCodec Fields} {records : List (PageRecord Fields)}
    {header : PageHeader} {data : List UInt8}
    (encoded : PageEncoder.encode codec records = .ok (header, data)) (value : UInt32 → ℚ)
    (rounds : ∀ record ∈ records,
      codec.percent record.confidence = roundPercent (value record.confidence))
    (pageUnit : InUnit (records.map fun record => value record.confidence)) :
    (ObeysLaw index.histogram index.confidences ↔ Binned index.confidences) ∧
      (ObeysLaw header.confidenceHistogram (records.map fun record => value record.confidence) ↔
        Binned (records.map fun record => value record.confidence)) := by
  constructor
  · rw [index.histogram_eq]
    exact obeysLaw_tally_iff indexUnit
  · have same : header.confidenceHistogram =
        tally roundedBucket (records.map fun record => value record.confidence) := by
      rw [PageEncoder.histogram_of_encode encoded, tally_map]
      apply tally_congr
      intro record member
      simp only [PageEncoder.bucket, roundedBucket, rounds record member]
    rw [same]
    exact obeysLaw_tally_iff pageUnit

/-- Halves and ones, which rounding leaves where they are. -/
theorem histograms_obey_law_iff_halves :
    let index : ConfidenceIndex := ⟨[(Uuid.ofByte 1, 1 / 2), (Uuid.ofByte 2, 1)]⟩
    let percent (bits : UInt32) : Nat := if bits = 0x3F000000 then 50 else 100
    let value (bits : UInt32) : ℚ := if bits = 0x3F000000 then 1 / 2 else 1
    let records : List (PageRecord Unit) :=
      [⟨Uuid.ofByte 1, 0x3F000000, ()⟩, ⟨Uuid.ofByte 2, 0x3F800000, ()⟩]
    ∃ header data,
      PageEncoder.encode { SamplePage.codec with percent } records = .ok (header, data) ∧
        ObeysLaw index.histogram index.confidences ∧
        ObeysLaw header.confidenceHistogram
          (records.map fun record => value record.confidence) := by
  intro index percent value records
  have encodes : ∃ header data,
      PageEncoder.encode { SamplePage.codec with percent } records = .ok (header, data) :=
    ⟨_, _, rfl⟩
  rcases encodes with ⟨header, data, encoded⟩
  have both := histograms_obey_law_iff index (by decide +kernel) encoded value
    (by decide +kernel) (by decide +kernel)
  exact ⟨header, data, encoded, both.1.mpr (by decide +kernel), both.2.mpr (by decide +kernel)⟩

/-- A confidence of 0.006 is counted in the second bucket. -/
theorem histogram_leaves_bucket :
    ¬ ObeysLaw (ConfidenceIndex.histogram ⟨[(Uuid.ofByte 1, 6 / 1000)]⟩) [6 / 1000] := by
  intro law
  have first := law.buckets 0
  revert first
  decide +kernel

end FunDB
