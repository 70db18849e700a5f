import FunDB.Protocol.ExtendedParsing
import FunDB.Protocol.WireAgreement

/-! # Extended messages come back from their bytes -/

namespace FunDB.Protocol

open Framing Reading Utf8 Extended

def DescribeKind.encode : DescribeKind → UInt8
  | statement => 'S'.toUInt8
  | portal => 'P'.toUInt8

namespace ExtendedFrontendMessage

def typeByte : ExtendedFrontendMessage → Char
  | parse _ _ _ => 'P'
  | bind _ _ _ => 'B'
  | describe _ _ => 'D'
  | execute _ _ => 'E'
  | sync => 'S'
  | flush => 'H'

/-- The body of a message in version 3 of the protocol. A Bind also sends the
formats of its parameters and of its results. -/
def body (paramFormats resultFormats : List Int16) : ExtendedFrontendMessage → List UInt8
  | parse name query paramTypes =>
      asBytes name ++ 0 :: (asBytes query ++ 0 ::
        (putI16 (Int16.ofNat paramTypes.length) ++ paramTypes.flatMap putI32))
  | bind portal statement params =>
      asBytes portal ++ 0 :: (asBytes statement ++ 0 ::
        (putI16 (Int16.ofNat paramFormats.length) ++ (paramFormats.flatMap putI16 ++
          (putI16 (Int16.ofNat params.length) ++ (params.flatMap encodeParam ++
            (putI16 (Int16.ofNat resultFormats.length) ++ resultFormats.flatMap putI16))))))
  | describe kind name => kind.encode :: (asBytes name ++ [0])
  | execute portal maxRows => asBytes portal ++ 0 :: putI32 maxRows
  | sync => []
  | flush => []

/-- Texts that end at a zero byte hold none, counts are positive numbers of 16
bits, and lengths of 32. -/
def Encodable : ExtendedFrontendMessage → Prop
  | parse name query paramTypes =>
      NoNul name ∧ NoNul query ∧ paramTypes.length ≤ 32767
  | bind portal statement params =>
      NoNul portal ∧ NoNul statement ∧ params.length ≤ 32767 ∧ ∀ param ∈ params, ParamFits param
  | describe _ name => NoNul name
  | execute portal _ => NoNul portal
  | sync => True
  | flush => True

end ExtendedFrontendMessage

namespace Extended

theorem requireCstring_asBytes {name : String} (noNul : NoNul name) (text : String)
    (rest : List UInt8) :
    okOr text (Extended.readCstring (asBytes name ++ 0 :: rest)) = .ok (name, rest) := by
  rw [requireCstring_eq_ok_iff]
  exact ⟨asBytes name, zero_notMem_asBytes noNul, rfl, (fromUtf8Lossy_asBytes name).symm⟩

theorem toInt_ofNat_count {count : Nat} (fits : count ≤ 32767) :
    (Int16.ofNat count).toInt = count :=
  Int16.toInt_ofNat_of_lt (by omega)

theorem toNatClampNeg_ofNat_count {count : Nat} (fits : count ≤ 32767) :
    (Int16.ofNat count).toNatClampNeg = count := by
  have whole := toInt_ofNat_count fits
  rw [← Int16.toNat_toInt, whole, Int.toNat_natCast]

theorem withCapacity_ofNat {size count : Nat} (positive : 0 < size) (small : size < 2 ^ 40)
    (fits : count ≤ 32767) :
    withCapacity size (asUsize (Int16.ofNat count).toInt) = .ok () := by
  have nonneg : ¬ Int16.ofNat count < 0 := by
    rw [Int16.lt_iff_toInt_lt, toInt_ofNat_count fits]
    exact not_lt_of_ge (Int.natCast_nonneg _)
  rw [withCapacity_count positive small, if_neg nonneg]

theorem parseParse_body {name query : String} {paramTypes : List Int32} (nameNoNul : NoNul name)
    (queryNoNul : NoNul query) (count : paramTypes.length ≤ 32767) (paramFormats resultFormats) :
    parseParse ((ExtendedFrontendMessage.parse name query paramTypes).body
      paramFormats resultFormats) = .ok (.parse name query paramTypes) := by
  have types : readEach readTypeOid (Int16.ofNat paramTypes.length).toNatClampNeg 0
      (paramTypes.flatMap putI32) = .ok (paramTypes, []) := by
    rw [toNatClampNeg_ofNat_count count, readTypeOid_exact.readEach_eq_ok_iff, List.append_nil]
    exact ⟨rfl, fun _ _ => trivial, rfl⟩
  refine bind_eq_ok_iff.mpr ⟨_, requireCstring_asBytes nameNoNul _ _, ?_⟩
  refine bind_eq_ok_iff.mpr ⟨_, requireCstring_asBytes queryNoNul _ _, ?_⟩
  refine bind_eq_ok_iff.mpr ⟨_, requireI16_eq_ok_iff.mpr rfl, ?_⟩
  refine bind_eq_ok_iff.mpr ⟨_, withCapacity_ofNat (by decide) (by decide) count, ?_⟩
  exact bind_eq_ok_iff.mpr ⟨_, types, rfl⟩

theorem parseBind_body {portal statement : String} {params : List (Option (List UInt8))}
    (portalNoNul : NoNul portal) (statementNoNul : NoNul statement)
    (count : params.length ≤ 32767) (fit : ∀ param ∈ params, ParamFits param)
    {paramFormats : List Int16} (formatCount : paramFormats.length ≤ 32767) (resultFormats) :
    parseBind ((ExtendedFrontendMessage.bind portal statement params).body
      paramFormats resultFormats) = .ok (.bind portal statement params) := by
  have formats : ∀ rest, readEach readParamFormat (Int16.ofNat paramFormats.length).toNatClampNeg 0
      (paramFormats.flatMap putI16 ++ rest) = .ok (paramFormats, rest) := by
    intro rest
    rw [toNatClampNeg_ofNat_count formatCount, readParamFormat_exact.readEach_eq_ok_iff]
    exact ⟨rfl, fun _ _ => trivial, rfl⟩
  have values : ∀ rest, readEach readParam (Int16.ofNat params.length).toNatClampNeg 0
      (params.flatMap encodeParam ++ rest) = .ok (params, rest) := by
    intro rest
    rw [toNatClampNeg_ofNat_count count, readParam_exact.readEach_eq_ok_iff]
    exact ⟨rfl, fit, rfl⟩
  refine bind_eq_ok_iff.mpr ⟨_, requireCstring_asBytes portalNoNul _ _, ?_⟩
  refine bind_eq_ok_iff.mpr ⟨_, requireCstring_asBytes statementNoNul _ _, ?_⟩
  refine bind_eq_ok_iff.mpr ⟨_, requireI16_eq_ok_iff.mpr rfl, ?_⟩
  refine bind_eq_ok_iff.mpr ⟨_, formats _, ?_⟩
  refine bind_eq_ok_iff.mpr ⟨_, requireI16_eq_ok_iff.mpr rfl, ?_⟩
  refine bind_eq_ok_iff.mpr ⟨_, withCapacity_ofNat (by decide) (by decide) count, ?_⟩
  refine bind_eq_ok_iff.mpr ⟨_, values _, ?_⟩
  rcases exists_skipResultFormats (putI16 (Int16.ofNat resultFormats.length) ++
    resultFormats.flatMap putI16) with ⟨rest, skipped⟩
  exact bind_eq_ok_iff.mpr ⟨_, skipped, rfl⟩

theorem parseDescribe_body (kind : DescribeKind) {name : String} (noNul : NoNul name)
    (paramFormats resultFormats) :
    parseDescribe ((ExtendedFrontendMessage.describe kind name).body paramFormats resultFormats) =
      .ok (.describe kind name) := by
  have readKind : readDescribeKind kind.encode = .ok kind := by
    cases kind <;> rfl
  refine bind_eq_ok_iff.mpr ⟨([kind.encode], asBytes name ++ [0]), rfl, ?_⟩
  refine bind_eq_ok_iff.mpr ⟨kind, readKind, ?_⟩
  exact bind_eq_ok_iff.mpr ⟨_, requireCstring_asBytes noNul _ [], rfl⟩

theorem parseExecute_body {portal : String} (noNul : NoNul portal) (maxRows : Int32)
    (paramFormats resultFormats) :
    parseExecute ((ExtendedFrontendMessage.execute portal maxRows).body
      paramFormats resultFormats) = .ok (.execute portal maxRows) := by
  refine bind_eq_ok_iff.mpr ⟨_, requireCstring_asBytes noNul _ _, ?_⟩
  refine bind_eq_ok_iff.mpr ⟨(maxRows, []), ?_, rfl⟩
  rw [requireI32_eq_ok_iff, List.append_nil]

/-- What a client sends is what the server reads, whatever formats a Bind asks
for. -/
theorem parseExtendedMessage_body (message : ExtendedFrontendMessage)
    (paramFormats resultFormats : List Int16) (encodable : message.Encodable)
    (paramFormatCount : paramFormats.length ≤ 32767) :
    parseExtendedMessage message.typeByte.toUInt8 (message.body paramFormats resultFormats) =
      .ok message := by
  cases message with
  | parse name query paramTypes =>
      rcases encodable with ⟨nameNoNul, queryNoNul, count⟩
      exact parseParse_body nameNoNul queryNoNul count paramFormats resultFormats
  | bind portal statement params =>
      rcases encodable with ⟨portalNoNul, statementNoNul, count, fit⟩
      exact parseBind_body portalNoNul statementNoNul count fit paramFormatCount resultFormats
  | describe kind name => exact parseDescribe_body kind encodable paramFormats resultFormats
  | execute portal maxRows => exact parseExecute_body encodable maxRows paramFormats resultFormats
  | sync => rfl
  | flush => rfl

/-- A Bind with a null and a value that holds a zero byte. -/
theorem parseExtendedMessage_body_bind :
    parseExtendedMessage 'B'.toUInt8
      [0x70, 0, 0xC3, 0xA9, 0, 0, 1, 0, 1, 0, 2, 0xFF, 0xFF, 0xFF, 0xFF, 0, 0, 0, 2, 0, 0x5A,
        0, 2, 0, 0, 0, 1] =
      .ok (.bind "p" "é" [none, some [0, 0x5A]]) := by
  let message : ExtendedFrontendMessage := .bind "p" "é" [none, some [0, 0x5A]]
  have encodable : message.Encodable := by
    refine ⟨by decide, by decide, by decide, ?_⟩
    simp [ParamFits]
  have bytes : message.body [1] [0, 1] =
      [0x70, 0, 0xC3, 0xA9, 0, 0, 1, 0, 1, 0, 2, 0xFF, 0xFF, 0xFF, 0xFF, 0, 0, 0, 2, 0, 0x5A,
        0, 2, 0, 0, 0, 1] := by
    decide
  rw [← bytes]
  exact parseExtendedMessage_body message [1] [0, 1] encodable (by decide)

end Extended

end FunDB.Protocol
