import FunDB.Storage.SstableFile
import FunDB.Storage.WalFrames

/-! # Recovery of a cut log

A log that lost its end is recovered up to the last whole frame. The length of a
body is written as 32 bits, whatever it is. -/

namespace FunDB.Storage.WalFile

open Framing

/-- The file after the entries were appended to an empty log. -/
def written (codec : WalCodec) (entries : List WalEntry) : List UInt8 :=
  (appendAll codec (openFile codec []) entries).bytes

/-- The entries whose frames lie wholly within the first `cut` bytes. -/
def whole (codec : WalCodec) (cut : Nat) (entries : List WalEntry) : List WalEntry :=
  wholeWithin codec.frame cut entries

section Recovery

variable {codec : WalCodec}

theorem written_eq (exact : codec.Exact) (entries : List WalEntry) :
    written codec entries = (codec.format exact).frames entries := by
  rw [written, appendAll_eq exact]
  rfl

theorem whole_written (exact : codec.Exact) (entries : List WalEntry) :
    whole codec (written codec entries).length entries = entries := by
  rw [written_eq exact]
  exact wholeWithin_length codec.frame entries

/-- A log is recovered as a whole only if the bodies fit. -/
theorem fits_of_recover (exact : codec.Exact) {entries : List WalEntry}
    (recovers : recover codec (written codec entries) = entries.map .ok) :
    ∀ entry ∈ entries, codec.Fits entry := by
  intro entry member
  rw [recover_eq exact] at recovers
  have same := List.map_injective_iff.mpr (fun _ _ => Except.ok.inj) recovers
  rw [← same] at member
  exact (codec.format exact).fits_of_mem_readAll member

end Recovery

/-- A log that was cut anywhere is recovered up to its last whole frame, without
an error, and opens with the number of these frames, exactly when the length of
every body that was appended has 32 bits. -/
theorem cut_log_recovers_iff (codec : WalCodec) (exact : codec.Exact) (entries : List WalEntry) :
    (∀ cut, recover codec ((written codec entries).take cut) =
          (whole codec cut entries).map .ok ∧
        (openFile codec ((written codec entries).take cut)).currentLsn =
          (whole codec cut entries).length) ↔
      ∀ entry ∈ entries, codec.Fits entry := by
  constructor
  · intro recovers
    have all := (recovers (written codec entries).length).1
    rw [List.take_length, whole_written exact] at all
    exact fits_of_recover exact all
  · intro fit cut
    have read := (codec.format exact).readAll_take_frames fit cut
    rw [← written_eq exact] at read
    rw [recover_eq exact, currentLsn_openFile exact, read]
    exact ⟨rfl, rfl⟩

theorem cut_log_recovers_iff_commit :
    (∀ cut, recover SampleCodec.codec ((written SampleCodec.codec [.txnCommit 1]).take cut) =
          (whole SampleCodec.codec cut [.txnCommit 1]).map .ok ∧
        (openFile SampleCodec.codec
            ((written SampleCodec.codec [.txnCommit 1]).take cut)).currentLsn =
          (whole SampleCodec.codec cut [.txnCommit 1]).length) ↔
      ∀ entry ∈ [WalEntry.txnCommit 1], SampleCodec.codec.Fits entry :=
  cut_log_recovers_iff SampleCodec.codec SampleCodec.exact [.txnCommit 1]

/-! ## A record that is too long -/

namespace LongWrite

/-- The write of a record with this many bytes of data. -/
def entry (size : Nat) : WalEntry :=
  .write 0 (makeKey 1) (makeRecord (List.replicate size 255))

/-- The bytes of the data, each behind a marker. -/
def dataBody (size : Nat) : List UInt8 :=
  0xDD :: beBytes 4 size ++
    (List.replicate size 255).flatMap fun byte : UInt8 => packUint byte.toNat

def recordBody (size : Nat) : List UInt8 :=
  packArray 17 ++ 0xC4 :: 16 :: List.replicate 16 0 ++ packStr "docs" ++ packUint 0 ++
    packUint 0 ++ packUint maxTimestamp.toNat ++ packUint 0 ++ packUint maxTimestamp.toNat ++
    dataBody size ++ 0x80 :: packArray 0 ++ packArray 0 ++ 0xCA :: [0x3F, 0x80, 0, 0] ++
    (List.replicate 5 (packArray 0)).flatten

/-- A map of one field named `Write` with three values. -/
def body (size : Nat) : List UInt8 :=
  [0x81, 0xA5, 87, 114, 105, 116, 101, 0x93, 0] ++ packKey (makeKey 1) ++ recordBody size

theorem length_body (size : Nat) : 2 * size ≤ (body size).length := by
  have pairs : ((List.replicate size (255 : UInt8)).flatMap
      fun byte => packUint byte.toNat).length = 2 * size := by
    induction size with
    | zero => rfl
    | succ size induction =>
        rw [List.replicate_succ, List.flatMap_cons, List.length_append, induction, Nat.mul_succ,
          Nat.add_comm]
        rfl
  simp only [body, recordBody, dataBody, List.length_append, List.length_cons, pairs]
  omega

/-- The sample codec, but for the body of the long write. -/
def toVec (size : Nat) (other : WalEntry) : List UInt8 :=
  if other = entry size then body size else SampleCodec.toVec other

theorem body_ne (size : Nat) (other : WalEntry) : body size ≠ SampleCodec.toVec other := by
  rcases SampleCodec.toVec_cases other with ⟨txnId, _, _, shape⟩ | shape
  · rw [shape, body, SampleCodec.commitBody]
    simp
  · rw [shape, body, SampleCodec.numberedBody]
    simp

theorem toVec_injective (size : Nat) : Function.Injective (toVec size) := by
  intro left right same
  rw [toVec, toVec] at same
  split at same
  · next isLeft =>
      split at same
      · next isRight => rw [isLeft, isRight]
      · exact absurd same (body_ne size right)
  · split at same
    · exact absurd same.symm (body_ne size left)
    · exact SampleCodec.toVec_injective same

def candidates (size : Nat) (bytes : List UInt8) : List WalEntry :=
  entry size :: SampleCodec.candidates bytes

theorem mem_candidates (size : Nat) (other : WalEntry) :
    other ∈ candidates size (toVec size other) := by
  by_cases same : other = entry size
  · rw [same]
    exact List.mem_cons_self
  · rw [toVec, if_neg same]
    exact List.mem_cons_of_mem _ (SampleCodec.mem_candidates other)

def codec (size : Nat) : WalCodec where
  toVec := toVec size
  fromSlice bytes := (candidates size bytes).find? fun other => toVec size other = bytes
  xxh3 := SampleCodec.codec.xxh3

theorem exact (size : Nat) : (codec size).Exact :=
  find_candidates_iff (toVec_injective size) (mem_candidates size)

/-- Two gigabytes of data have a body of four, which is not recovered. -/
theorem not_recovered {size : Nat} (long : 2 ^ 31 ≤ size) :
    recover (codec size) (written (codec size) [entry size]) ≠ [.ok (entry size)] := by
  intro recovers
  have fits := fits_of_recover (exact size) recovers (entry size) List.mem_cons_self
  have isBody : (codec size).toVec (entry size) = body size := if_pos rfl
  have length := length_body size
  rw [WalCodec.Fits, isBody] at fits
  omega

end LongWrite

/-- A write of 2^31 bytes of data is not recovered from the whole file. -/
theorem long_write_not_recovered :
    (LongWrite.codec (2 ^ 31)).Exact ∧
      recover (LongWrite.codec (2 ^ 31))
          ((written (LongWrite.codec (2 ^ 31)) [LongWrite.entry (2 ^ 31)]).take
            (written (LongWrite.codec (2 ^ 31)) [LongWrite.entry (2 ^ 31)]).length) ≠
        (whole (LongWrite.codec (2 ^ 31))
          (written (LongWrite.codec (2 ^ 31)) [LongWrite.entry (2 ^ 31)]).length
          [LongWrite.entry (2 ^ 31)]).map .ok := by
  refine ⟨LongWrite.exact _, ?_⟩
  rw [List.take_length, whole_written (LongWrite.exact _)]
  exact LongWrite.not_recovered (Nat.le_refl _)

end FunDB.Storage.WalFile
