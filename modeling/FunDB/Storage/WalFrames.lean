import FunDB.Foundation.Framing
import FunDB.Storage.Wal
import Mathlib.Data.Rat.Encodable
import Mathlib.Logic.Encodable.Pi
import Mathlib.Logic.Equiv.List
import Mathlib.Tactic.DeriveEncodable

/-! # Write-ahead log by its bytes

The file is read in three places: by `open`, to count its entries, by
`recover`, and at its end by `append`, which does not look at what stands
there. -/

namespace FunDB.Storage

open Framing

/-- What the log takes from libraries: MessagePack and the checksum. -/
structure WalCodec where
  toVec : WalEntry → List UInt8
  fromSlice : List UInt8 → Option WalEntry
  xxh3 : List UInt8 → Nat

inductive WalError where
  | shortBody (expected : Nat)
  | shortChecksum
  | checksumMismatch (stored computed : Nat)
  | undecodable
deriving DecidableEq, Repr

namespace WalCodec

variable (codec : WalCodec)

/-- The codec reads back exactly what it writes. -/
def Exact : Prop :=
  ∀ body entry, codec.fromSlice body = some entry ↔ codec.toVec entry = body

/-- The length of the body is a 32-bit number. -/
def Fits (entry : WalEntry) : Prop :=
  (codec.toVec entry).length < 2 ^ 32

instance (entry : WalEntry) : Decidable (codec.Fits entry) :=
  inferInstanceAs (Decidable (_ < _))

def frame (entry : WalEntry) : List UInt8 :=
  let body := codec.toVec entry
  leBytes 4 body.length ++ body ++ leBytes 4 (codec.xxh3 body)

/-- `none` is the end of the file, also inside of the length. -/
def readFrame (reader : List UInt8) : Except WalError (Option (WalEntry × List UInt8)) :=
  match takeExact 4 reader with
  | none => .ok none
  | some (lenBuf, reader) =>
    let entryLen := leValue lenBuf
    match takeExact entryLen reader with
    | none => .error (.shortBody entryLen)
    | some (body, reader) =>
      match takeExact 4 reader with
      | none => .error .shortChecksum
      | some (crcBuf, reader) =>
        let storedCrc := leValue crcBuf
        let computedCrc := codec.xxh3 body % 2 ^ 32
        if computedCrc ≠ storedCrc then
          .error (.checksumMismatch storedCrc computedCrc)
        else
          match codec.fromSlice body with
          | none => .error .undecodable
          | some entry => .ok (some (entry, reader))

/-- The entry at the front of the input, unless the file ends or is corrupt. -/
def read (reader : List UInt8) : Option (WalEntry × List UInt8) :=
  match codec.readFrame reader with
  | .ok found => found
  | .error _ => none

theorem readFrame_frame (exact : codec.Exact) {entry : WalEntry} (fits : codec.Fits entry)
    (rest : List UInt8) :
    codec.readFrame (codec.frame entry ++ rest) = .ok (some (entry, rest)) := by
  have length : leValue (leBytes 4 (codec.toVec entry).length) = (codec.toVec entry).length :=
    leValue_leBytes_of_lt fits
  have checksum := leValue_leBytes 4 (codec.xxh3 (codec.toVec entry))
  have decoded := (exact (codec.toVec entry) entry).mpr rfl
  simp only [frame, readFrame, List.append_assoc, takeExact_append (length_leBytes 4 _), length,
    takeExact_append rfl, checksum, decoded]
  simp

theorem frame_of_read (exact : codec.Exact) {input rest : List UInt8} {entry : WalEntry}
    (read : codec.readFrame input = .ok (some (entry, rest))) :
    codec.Fits entry ∧ input = codec.frame entry ++ rest := by
  unfold readFrame at read
  split at read
  · cases read
  next lenBuf afterLen lenRead =>
    rcases takeExact_eq_some_iff.mp lenRead with ⟨lenLength, lenShape⟩
    dsimp only at read
    split at read
    · cases read
    next body afterBody bodyRead =>
      rcases takeExact_eq_some_iff.mp bodyRead with ⟨bodyLength, bodyShape⟩
      split at read
      · cases read
      next crcBuf afterCrc crcRead =>
        rcases takeExact_eq_some_iff.mp crcRead with ⟨crcLength, crcShape⟩
        split at read
        · cases read
        next agree =>
          split at read
          · cases read
          next decoded =>
            cases read
            have encoded := (exact body entry).mp decoded
            have bound : body.length < 2 ^ 32 := by
              have small := leValue_lt lenBuf
              rw [lenLength] at small
              omega
            have lenBytes : leBytes 4 body.length = lenBuf := by
              rw [bodyLength, ← lenLength]
              exact leBytes_leValue lenBuf
            have crcBytes : leBytes 4 (codec.xxh3 body) = crcBuf := by
              rw [← leBytes_mod, show codec.xxh3 body % 256 ^ 4 = leValue crcBuf from
                not_not.mp agree, ← crcLength]
              exact leBytes_leValue crcBuf
            refine ⟨by rw [Fits, encoded]; exact bound, ?_⟩
            rw [frame, encoded, lenBytes, crcBytes, lenShape, bodyShape, crcShape]
            simp

theorem frame_ne_nil (entry : WalEntry) : codec.frame entry ≠ [] := by
  simp [frame, leBytes]

/-- The frames of the log. -/
def format (exact : codec.Exact) : Format UInt8 WalEntry where
  frame := codec.frame
  read := codec.read
  Fits := codec.Fits
  frame_ne_nil := codec.frame_ne_nil
  read_frame := by
    intro entry rest fits
    rw [read, codec.readFrame_frame exact fits]
  frame_read := by
    intro input entry rest found
    apply codec.frame_of_read exact
    unfold read at found
    split at found
    next result => rw [result, found]
    next => cases found

@[simp] theorem format_read (exact : codec.Exact) : (codec.format exact).read = codec.read :=
  rfl

end WalCodec

/-! ## The log file -/

/-- An open log: the bytes of its file and the number of the last entry. -/
structure WalFile where
  bytes : List UInt8
  currentLsn : Nat
deriving DecidableEq, Repr

namespace WalFile

variable (codec : WalCodec)

/-- The loop of `countValidEntries`. Every round reads at least a length. -/
def countLoop : Nat → List UInt8 → Nat → Nat
  | 0, _, count => count
  | fuel + 1, reader, count =>
      match codec.readFrame reader with
      | .ok (some (_, rest)) => countLoop fuel rest (count + 1)
      | .ok none => count
      | .error _ => count

def countValidEntries (bytes : List UInt8) : Nat :=
  countLoop codec bytes.length bytes 0

/-- Open a file with the given content. -/
def openFile (bytes : List UInt8) : WalFile where
  bytes := bytes
  currentLsn := countValidEntries codec bytes

def append (wal : WalFile) (entry : WalEntry) : Nat × WalFile :=
  let lsn := wal.currentLsn + 1
  (lsn, { bytes := wal.bytes ++ codec.frame entry, currentLsn := lsn })

def appendAll (wal : WalFile) (entries : List WalEntry) : WalFile :=
  entries.foldl (fun wal entry => (append codec wal entry).2) wal

end WalFile

structure WalRecoveryIter where
  reader : List UInt8
  done : Bool

namespace WalRecoveryIter

variable (codec : WalCodec)

/-- The next item. A corrupt frame ends the iteration without an item. -/
def next (iter : WalRecoveryIter) :
    Option (Except WalError WalEntry) × WalRecoveryIter :=
  if iter.done then (none, iter)
  else
    match codec.readFrame iter.reader with
    | .ok (some (entry, rest)) => (some (.ok entry), { iter with reader := rest })
    | .ok none => (none, { iter with done := true })
    | .error _ => (none, { iter with done := true })

/-- The items up to the end of the iteration, at most `fuel` of them. -/
def collect : Nat → WalRecoveryIter → List (Except WalError WalEntry)
  | 0, _ => []
  | fuel + 1, iter =>
      match next codec iter with
      | (none, _) => []
      | (some item, iter) => item :: collect fuel iter

end WalRecoveryIter

/-- Everything that the recovery iterator yields for a file. -/
def WalFile.recover (codec : WalCodec) (bytes : List UInt8) :
    List (Except WalError WalEntry) :=
  WalRecoveryIter.collect codec bytes.length { reader := bytes, done := false }

namespace WalFile

variable {codec : WalCodec} (exact : codec.Exact)

/-! The two loops are the one of the frame format. -/

theorem countLoop_eq (fuel : Nat) (reader : List UInt8) (count : Nat) :
    countLoop codec fuel reader count =
      count + ((codec.format exact).readMany fuel reader).length := by
  induction fuel generalizing reader count with
  | zero => rfl
  | succ fuel induction =>
      simp only [countLoop, Format.readMany, WalCodec.format_read, WalCodec.read]
      cases codec.readFrame reader with
      | error problem => rfl
      | ok found =>
          cases found with
          | none => rfl
          | some pair =>
              rcases pair with ⟨entry, rest⟩
              simp only [induction, List.length_cons]
              omega

theorem collect_eq (fuel : Nat) (reader : List UInt8) :
    WalRecoveryIter.collect codec fuel { reader := reader, done := false } =
      ((codec.format exact).readMany fuel reader).map .ok := by
  induction fuel generalizing reader with
  | zero => rfl
  | succ fuel induction =>
      simp only [WalRecoveryIter.collect, WalRecoveryIter.next, Format.readMany,
        WalCodec.format_read, WalCodec.read, Bool.false_eq_true, if_false]
      cases codec.readFrame reader with
      | error problem => rfl
      | ok found =>
          cases found with
          | none => rfl
          | some pair =>
              rcases pair with ⟨entry, rest⟩
              simp only [List.map_cons, induction]

theorem currentLsn_openFile (bytes : List UInt8) :
    (openFile codec bytes).currentLsn = ((codec.format exact).readAll bytes).length := by
  rw [openFile, countValidEntries, countLoop_eq exact, Format.readAll, Nat.zero_add]

theorem recover_eq (bytes : List UInt8) :
    recover codec bytes = ((codec.format exact).readAll bytes).map .ok := by
  rw [recover, collect_eq exact, Format.readAll]

/-- `appendAll` writes the frames of the entries at the end of the file. -/
theorem appendAll_eq (wal : WalFile) (entries : List WalEntry) :
    appendAll codec wal entries =
      { bytes := wal.bytes ++ (codec.format exact).frames entries
        currentLsn := wal.currentLsn + entries.length } := by
  induction entries generalizing wal with
  | nil => simp [appendAll]
  | cons entry entries induction =>
      have step : appendAll codec wal (entry :: entries) =
          appendAll codec (append codec wal entry).2 entries := rfl
      rw [step, induction, Format.frames_cons, List.length_cons, append, List.append_assoc,
        Nat.add_assoc, Nat.add_comm 1]
      rfl

/-! ## The log by its entries -/

/-- The file holds the frames of the log's entries and nothing else. -/
structure Holds (codec : WalCodec) (exact : codec.Exact) (file : WalFile) (wal : Wal) :
    Prop where
  bytes : file.bytes = (codec.format exact).frames wal.entries
  lsn : file.currentLsn = wal.currentLsn
  fit : ∀ entry ∈ wal.entries, codec.Fits entry

theorem holds_append {file : WalFile} {wal : Wal} (holds : Holds codec exact file wal)
    {entry : WalEntry} (fits : codec.Fits entry) :
    Holds codec exact (append codec file entry).2 (wal.append entry).2 := by
  constructor
  · simp only [append, Wal.append, holds.bytes, Format.frames_append]
    simp [WalCodec.format]
  · simp [append, Wal.append, holds.lsn]
  · intro other member
    rcases List.mem_append.mp member with earlier | last
    · exact holds.fit other earlier
    · rw [List.mem_singleton.mp last]
      exact fits

/-- A file that was closed without a torn frame opens as the log it holds. -/
theorem holds_openFile {file : WalFile} {wal : Wal} (holds : Holds codec exact file wal) :
    Holds codec exact (openFile codec file.bytes) (Wal.openFile wal.entries) := by
  have complete := (codec.format exact).readAll_frames_append holds.fit []
  have nothing : (codec.format exact).read [] = none := rfl
  constructor
  · exact holds.bytes
  · rw [List.append_nil, Format.readAll_of_read_none _ nothing, List.append_nil] at complete
    rw [currentLsn_openFile exact, holds.bytes, complete]
    rfl
  · exact holds.fit

end WalFile

/-! ## An exact codec

Commits of the first transactions have their MessagePack form. All other
entries are numbered, and their bodies are the number in unary. -/

instance encodableUInt8 : Encodable UInt8 :=
  Encodable.ofLeftInverse UInt8.toNat UInt8.ofNat fun _ => UInt8.ofNat_toNat

instance encodableChar : Encodable Char :=
  Encodable.ofLeftInverse Char.toNat Char.ofNat Char.ofNat_toNat

instance encodableString : Encodable String :=
  Encodable.ofLeftInverse String.toList String.ofList fun _ => String.ofList_toList

instance encodableUuid : Encodable Uuid :=
  Encodable.ofLeftInjection Vector.toList
    (fun bytes => if size : bytes.length = 16 then some ⟨bytes.toArray, size⟩ else none)
    fun id => by simp only [Vector.length_toList, dite_true]; rfl

deriving instance Encodable for RecordKey
deriving instance Encodable for FunRecord
deriving instance Encodable for WalEntry

/-- A reader that looks for the entry with its body among candidates is exact, if
the bodies differ and each entry is a candidate. -/
theorem find_candidates_iff {toVec : WalEntry → List UInt8}
    {candidates : List UInt8 → List WalEntry} (injective : Function.Injective toVec)
    (listed : ∀ entry, entry ∈ candidates (toVec entry)) (body : List UInt8) (entry : WalEntry) :
    (candidates body).find? (fun other => toVec other = body) = some entry ↔
      toVec entry = body := by
  constructor
  · intro decoded
    have chosen := List.find?_some (p := fun other => decide (toVec other = body)) decoded
    exact of_decide_eq_true chosen
  · intro encoded
    subst encoded
    cases found : (candidates (toVec entry)).find? (fun other => toVec other = toVec entry) with
    | none =>
        have refused := List.find?_eq_none.mp found entry (listed entry)
        exact absurd (decide_eq_true rfl) refused
    | some other =>
        have chosen := List.find?_some (p := fun other => decide (toVec other = toVec entry)) found
        rw [injective (of_decide_eq_true chosen)]

namespace SampleCodec

/-- A map of one field named `TxnCommit` with a small number. -/
def commitBody (txnId : Nat) : List UInt8 :=
  [0x81, 0xA9, 84, 120, 110, 67, 111, 109, 109, 105, 116, UInt8.ofNat txnId]

def numberedBody (entry : WalEntry) : List UInt8 :=
  0xC1 :: List.replicate (Encodable.encode entry) 0

def toVec (entry : WalEntry) : List UInt8 :=
  match entry with
  | .txnCommit txnId => if txnId < 128 then commitBody txnId else numberedBody entry
  | _ => numberedBody entry

/-- The only entries that can have this body. -/
def candidates (body : List UInt8) : List WalEntry :=
  .txnCommit (body.getLastD 0).toNat :: (Encodable.decode (body.length - 1)).toList

def fromSlice (body : List UInt8) : Option WalEntry :=
  (candidates body).find? fun entry => toVec entry = body

theorem toVec_cases (entry : WalEntry) :
    (∃ txnId < 128, entry = .txnCommit txnId ∧ toVec entry = commitBody txnId) ∨
      toVec entry = numberedBody entry := by
  cases entry with
  | txnCommit txnId =>
      by_cases small : txnId < 128
      · exact .inl ⟨txnId, small, rfl, by simp [toVec, small]⟩
      · exact .inr (by simp [toVec, small])
  | write _ _ _ => exact .inr rfl
  | delete _ _ => exact .inr rfl
  | txnAbort _ => exact .inr rfl
  | checkpoint _ => exact .inr rfl

theorem mem_candidates (entry : WalEntry) : entry ∈ candidates (toVec entry) := by
  rcases toVec_cases entry with ⟨txnId, small, commit, shape⟩ | shape
  · have byte : (UInt8.ofNat txnId).toNat = txnId := by
      rw [UInt8.toNat_ofNat']
      omega
    rw [shape, commit, candidates, commitBody]
    simp [List.getLastD, byte]
  · rw [shape, candidates, numberedBody]
    simp

theorem toVec_injective : Function.Injective toVec := by
  intro left right same
  rcases toVec_cases left with ⟨first, firstSmall, leftCommit, leftShape⟩ | leftShape
  · rcases toVec_cases right with ⟨second, secondSmall, rightCommit, rightShape⟩ | rightShape
    · rw [leftShape, rightShape, commitBody, commitBody] at same
      have byte : UInt8.ofNat first = UInt8.ofNat second := by simpa using same
      have number := congrArg UInt8.toNat byte
      rw [UInt8.toNat_ofNat', UInt8.toNat_ofNat'] at number
      rw [leftCommit, rightCommit, show first = second by omega]
    · rw [leftShape, rightShape, commitBody, numberedBody] at same
      exact absurd (List.cons.inj same).1 (by decide)
  · rcases toVec_cases right with ⟨second, _, _, rightShape⟩ | rightShape
    · rw [leftShape, rightShape, commitBody, numberedBody] at same
      exact absurd (List.cons.inj same).1 (by decide)
    · rw [leftShape, rightShape, numberedBody, numberedBody] at same
      have lengths := congrArg List.length (List.cons.inj same).2
      rw [List.length_replicate, List.length_replicate] at lengths
      exact Encodable.encode_injective lengths

/-- The checksum is that of the commit of transaction 1. -/
def codec : WalCodec where
  toVec := toVec
  fromSlice := fromSlice
  xxh3 _ := 0x190B245025924227

theorem exact : codec.Exact :=
  find_candidates_iff toVec_injective mem_candidates

end SampleCodec

namespace WalFile

variable {codec : WalCodec} (exact : codec.Exact)

/-! ## After a torn frame -/

/-- Everything appended to the file after it was opened comes back, behind
what was there before, and the number of the last entry is found again. -/
def Recovers (codec : WalCodec) (file : List UInt8) (old new : List WalEntry) : Prop :=
  let running := appendAll codec (openFile codec file) new
  (∃ items, recover codec running.bytes = old.map .ok ++ items ∧ (new.map .ok).Sublist items) ∧
    (∀ item ∈ recover codec running.bytes, ∃ entry, item = .ok entry) ∧
    (openFile codec running.bytes).currentLsn = running.currentLsn

/-- The torn bytes and the frames behind them read as these frames, with
nothing readable left over. -/
def Realigns (codec : WalCodec) (torn : List UInt8) (new : List WalEntry) : Prop :=
  ∃ rest, torn ++ new.flatMap codec.frame = new.flatMap codec.frame ++ rest ∧
    ∀ entry, codec.Fits entry → ¬ codec.frame entry <+: rest

theorem openFile_torn {old : List WalEntry} (oldFit : ∀ entry ∈ old, codec.Fits entry)
    {torn : List UInt8} (stops : (codec.format exact).read torn = none) :
    (openFile codec (old.flatMap codec.frame ++ torn)).currentLsn = old.length := by
  have opened := (codec.format exact).readAll_frames_append oldFit torn
  rw [Format.readAll_of_read_none _ stops, List.append_nil] at opened
  rw [currentLsn_openFile exact]
  exact congrArg List.length opened

/-- The log recovers exactly if what follows the old frames reads as the new
entries. -/
theorem recovers_iff_readAll {old : List WalEntry} (oldFit : ∀ entry ∈ old, codec.Fits entry)
    {torn : List UInt8} (stops : (codec.format exact).read torn = none) (new : List WalEntry) :
    Recovers codec (old.flatMap codec.frame ++ torn) old new ↔
      (codec.format exact).readAll (torn ++ new.flatMap codec.frame) = new := by
  have running := appendAll_eq exact (openFile codec (old.flatMap codec.frame ++ torn)) new
  rw [openFile_torn exact oldFit stops] at running
  have read : (codec.format exact).readAll
      (appendAll codec (openFile codec (old.flatMap codec.frame ++ torn)) new).bytes =
        old ++ (codec.format exact).readAll (torn ++ new.flatMap codec.frame) := by
    rw [running, openFile, List.append_assoc]
    exact (codec.format exact).readAll_frames_append oldFit _
  have lsn := congrArg currentLsn running
  dsimp only at lsn
  unfold Recovers
  dsimp only
  rw [recover_eq exact, lsn, currentLsn_openFile exact, read, List.map_append,
    List.length_append]
  constructor
  · intro recovers
    rcases recovers with ⟨⟨items, split, kept⟩, _, count⟩
    have later := List.append_cancel_left split
    subst later
    have sameLength : (new.map Except.ok : List (Except WalError WalEntry)).length =
        (((codec.format exact).readAll (torn ++ new.flatMap codec.frame)).map
          Except.ok : List (Except WalError WalEntry)).length := by
      simp only [List.length_map]
      omega
    have same := kept.eq_of_length sameLength
    exact (List.map_injective_iff.mpr (fun _ _ => Except.ok.inj) same).symm
  · intro same
    rw [same]
    refine ⟨⟨_, rfl, List.Sublist.refl _⟩, ?_, rfl⟩
    intro item member
    rw [← List.map_append] at member
    rcases List.mem_map.mp member with ⟨entry, _, shape⟩
    exact ⟨entry, shape.symm⟩

/-- A log that was torn in the middle of a frame recovers what is appended
after it only if nothing was torn, nothing is appended, or the torn bytes
happen to be continued by the new frames. -/
theorem tornWrite_recovers_iff (codec : WalCodec) (exact : codec.Exact)
    (old new : List WalEntry) (lost : WalEntry) (torn : List UInt8)
    (oldFit : ∀ entry ∈ old, codec.Fits entry) (newFit : ∀ entry ∈ new, codec.Fits entry)
    (lostFits : codec.Fits lost) (cut : torn <+: codec.frame lost)
    (proper : torn ≠ codec.frame lost) :
    Recovers codec (old.flatMap codec.frame ++ torn) old new ↔
      torn = [] ∨ new = [] ∨ Realigns codec torn new := by
  have stops : (codec.format exact).read torn = none :=
    (codec.format exact).read_of_cut lostFits cut proper
  rw [recovers_iff_readAll exact oldFit stops, Format.readAll_eq_iff _ newFit]
  have meaning := (codec.format exact).read_eq_none_iff
  constructor
  · intro shape
    rcases shape with ⟨rest, shape, last⟩
    exact .inr (.inr ⟨rest, shape, (meaning rest).mp last⟩)
  · intro condition
    rcases condition with empty | empty | realigns
    · subst empty
      exact ⟨[], by rw [List.append_nil]; rfl, stops⟩
    · subst empty
      exact ⟨torn, List.append_nil torn, stops⟩
    · rcases realigns with ⟨rest, shape, last⟩
      exact ⟨rest, shape, (meaning rest).mpr last⟩

theorem tornWrite_recovers_iff_commit :
    Recovers SampleCodec.codec
        (SampleCodec.codec.frame (.txnCommit 1) ++ [12, 0, 0]) [.txnCommit 1] [.txnCommit 1] ↔
      [12, 0, 0] = ([] : List UInt8) ∨ [WalEntry.txnCommit 1] = [] ∨
        Realigns SampleCodec.codec [12, 0, 0] [.txnCommit 1] := by
  have fit : ∀ entry ∈ [WalEntry.txnCommit 1], SampleCodec.codec.Fits entry := by
    intro entry member
    rw [List.mem_singleton.mp member]
    decide
  exact tornWrite_recovers_iff SampleCodec.codec SampleCodec.exact [.txnCommit 1] [.txnCommit 1]
    (.txnCommit 1) [12, 0, 0] fit fit (by decide) (by decide) (by decide)

/-- Three bytes of a length are left in the file. The next frame completes
them to a length that no body has. -/
theorem tornWrite_loses_commit :
    [12, 0, 0] <+: SampleCodec.codec.frame (.txnCommit 1) ∧
      [12, 0, 0] ≠ SampleCodec.codec.frame (.txnCommit 1) ∧
      ¬ Recovers SampleCodec.codec [12, 0, 0] [] [.txnCommit 1] := by
  refine ⟨by decide, by decide, ?_⟩
  intro recovers
  have reopened := recovers.2.2
  revert reopened
  decide

end WalFile

end FunDB.Storage
