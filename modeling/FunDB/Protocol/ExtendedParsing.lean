import FunDB.Foundation.Reading
import FunDB.Protocol.Extended
import FunDB.Protocol.PgWire

/-! # Parsing extended messages

A message is a type byte and a body. Counts in a body are signed 16-bit numbers,
lengths are signed 32-bit numbers. -/

namespace FunDB.Protocol.Extended

open Framing PgConnection Reading Utf8

inductive Panic where
  | capacityOverflow
  | outOfRange
deriving DecidableEq

/-- How parsing fails. `refused` is an `Err` with its text. -/
inductive Failure where
  | refused (text : String)
  | panicked (panic : Panic)
deriving DecidableEq

abbrev Parsing (Value : Type) := Except Failure Value

def splitAt (position : Nat) (src : List UInt8) : Parsing (List UInt8 × List UInt8) :=
  match takeExact position src with
  | some parts => .ok parts
  | none => .error (.panicked .outOfRange)

/-- `Vec::with_capacity` for elements of some size. A `Vec` has at most
`isize::MAX` bytes. -/
def withCapacity (size count : Nat) : Parsing Unit :=
  if size * count < 2 ^ 63 then .ok () else .error (.panicked .capacityOverflow)

/-- `Option::ok_or_else` and the question mark behind it. -/
def okOr {Value : Type} (text : String) (read : Parsing (Option Value)) : Parsing Value := do
  match ← read with
  | some value => return value
  | none => throw (.refused text)

/-! ## Reading -/

def readCstring (src : List UInt8) : Parsing (Option (String × List UInt8)) :=
  match src.findIdx? (· == 0) with
  | none => .ok none
  | some nul => do
      let (front, _) ← splitAt nul src
      let (_, src) ← splitAt (nul + 1) src
      return some (fromUtf8Lossy front, src)

/-- A number that takes `width` bytes. -/
def readNumber {Value : Type} (width : Nat) (fromBeBytes : List UInt8 → Value)
    (src : List UInt8) : Parsing (Option (Value × List UInt8)) :=
  if src.length < width then .ok none
  else do
    let (bytes, src) ← splitAt width src
    return some (fromBeBytes bytes, src)

def readI16 (src : List UInt8) : Parsing (Option (Int16 × List UInt8)) :=
  readNumber 2 i16FromBeBytes src

def readI32 (src : List UInt8) : Parsing (Option (Int32 × List UInt8)) :=
  readNumber 4 i32FromBeBytes src

/-! ## Parsing -/

def readTypeOid (i : Nat) (src : List UInt8) : Parsing (Int32 × List UInt8) :=
  okOr s!"Parse: missing type OID for param {i}" (readI32 src)

def parseParse (src : List UInt8) : Parsing ExtendedFrontendMessage := do
  let (name, src) ← okOr "Parse: missing statement name" (readCstring src)
  let (query, src) ← okOr "Parse: missing query string" (readCstring src)
  let (nParams, src) ← okOr "Parse: missing param_count" (readI16 src)
  -- an `i32` has 4 bytes
  withCapacity 4 (asUsize nParams.toInt)
  let (paramTypes, _) ← readEach readTypeOid nParams.toNatClampNeg 0 src
  return .parse name query paramTypes

def readParamFormat (i : Nat) (src : List UInt8) : Parsing (Int16 × List UInt8) :=
  okOr s!"Bind: missing param format code {i}" (readI16 src)

def readParam (i : Nat) (src : List UInt8) : Parsing (Option (List UInt8) × List UInt8) := do
  let (len, src) ← okOr s!"Bind: missing length for param {i}" (readI32 src)
  if len = -1 then
    return (none, src)
  else if len < 0 then
    throw (.refused s!"Bind: invalid param length {len} for param {i}")
  else if src.length < asUsize len.toInt then
    throw (.refused s!"Bind: not enough bytes for param {i}; need {asUsize len.toInt}, have {src.length}")
  else
    let (value, src) ← splitAt (asUsize len.toInt) src
    return (some value, src)

def skipCodes : Nat → List UInt8 → Parsing (List UInt8)
  | 0, src => .ok src
  | remaining + 1, src => do
      match ← readI16 src with
      | some (_, src) => skipCodes remaining src
      | none => skipCodes remaining src

/-- What is missing of the result formats is not missed. -/
def skipResultFormats (src : List UInt8) : Parsing (List UInt8) := do
  match ← readI16 src with
  | some (rfmtCount, src) => skipCodes rfmtCount.toNatClampNeg src
  | none => return src

def parseBind (src : List UInt8) : Parsing ExtendedFrontendMessage := do
  let (portal, src) ← okOr "Bind: missing portal name" (readCstring src)
  let (statement, src) ← okOr "Bind: missing statement name" (readCstring src)
  let (fmtCount, src) ← okOr "Bind: missing param_format_count" (readI16 src)
  let (_, src) ← readEach readParamFormat fmtCount.toNatClampNeg 0 src
  let (paramCount, src) ← okOr "Bind: missing param_count" (readI16 src)
  -- an `Option<Vec<u8>>` has 24 bytes
  withCapacity 24 (asUsize paramCount.toInt)
  let (params, src) ← readEach readParam paramCount.toNatClampNeg 0 src
  let _ ← skipResultFormats src
  return .bind portal statement params

def readDescribeKind (kindByte : UInt8) : Parsing DescribeKind :=
  match Char.ofNat kindByte.toNat with
  | 'S' => .ok .statement
  | 'P' => .ok .portal
  | _ => .error (.refused s!"Describe: unknown kind byte 0x{Text.hexByte kindByte}")

def parseDescribe (src : List UInt8) : Parsing ExtendedFrontendMessage := do
  if src.isEmpty then throw (.refused "Describe: empty body")
  let (front, src) ← splitAt 1 src
  let kind ← readDescribeKind (front.headD 0)
  let (name, _) ← okOr "Describe: missing name" (readCstring src)
  return .describe kind name

def parseExecute (src : List UInt8) : Parsing ExtendedFrontendMessage := do
  let (portal, src) ← okOr "Execute: missing portal name" (readCstring src)
  let (maxRows, _) ← okOr "Execute: missing max_rows" (readI32 src)
  return .execute portal maxRows

def parseExtendedMessage (typeByte : UInt8) (body : List UInt8) :
    Parsing ExtendedFrontendMessage :=
  match Char.ofNat typeByte.toNat with
  | 'P' => parseParse body
  | 'B' => parseBind body
  | 'D' => parseDescribe body
  | 'E' => parseExecute body
  | 'S' => .ok .sync
  | 'H' => .ok .flush
  | _ => .error (.refused s!"unknown extended message type: 0x{Text.hexByte typeByte}")

/-! ## What a step takes -/

theorem splitAt_of_le {position : Nat} {src : List UInt8} (within : position ≤ src.length) :
    splitAt position src = .ok (src.take position, src.drop position) := by
  rw [splitAt, takeExact, if_pos within]

theorem readCstring_eq (src : List UInt8) : readCstring src = .ok (Protocol.readCstring src) := by
  rw [readCstring, Protocol.readCstring]
  cases found : src.findIdx? (· == 0) with
  | none => rfl
  | some nul =>
      have inside : nul < src.length := (List.findIdx?_eq_some_iff_getElem.mp found).1
      simp only [splitAt_of_le (Nat.le_of_lt inside), splitAt_of_le inside]
      rfl

theorem readNumber_eq {Value : Type} (width : Nat) (fromBeBytes : List UInt8 → Value)
    (src : List UInt8) :
    readNumber width fromBeBytes src =
      .ok ((takeExact width src).map fun parts => (fromBeBytes parts.1, parts.2)) := by
  rw [readNumber, takeExact]
  by_cases short : src.length < width
  · rw [if_pos short, if_neg (Nat.not_le_of_lt short)]
    rfl
  · have long : width ≤ src.length := Nat.le_of_not_lt short
    rw [if_neg short, if_pos long, splitAt_of_le long]
    rfl

theorem okOr_eq_ok_iff {Value : Type} {text : String} {read : Option Value} {value : Value} :
    okOr text (.ok read) = .ok value ↔ read = some value := by
  cases read with
  | none => simp [okOr, bind, Except.bind, throw, throwThe, MonadExceptOf.throw]
  | some other => simp [okOr, bind, Except.bind, pure, Except.pure]

theorem okOr_ne_panicked {Value : Type} (text : String) (read : Option Value) (panic : Panic) :
    okOr text (.ok read) ≠ .error (.panicked panic) := by
  cases read with
  | none => simp [okOr, bind, Except.bind, throw, throwThe, MonadExceptOf.throw]
  | some other => simp [okOr, bind, Except.bind, pure, Except.pure]

theorem requireCstring_eq_ok_iff {text name : String} {src rest : List UInt8} :
    okOr text (readCstring src) = .ok (name, rest) ↔
      ∃ bytes, 0 ∉ bytes ∧ src = bytes ++ 0 :: rest ∧ name = fromUtf8Lossy bytes := by
  rw [readCstring_eq, okOr_eq_ok_iff, Protocol.readCstring]
  constructor
  · intro taken
    cases found : src.findIdx? (· == 0) with
    | none => simp [found] at taken
    | some nul =>
        simp only [found, Option.some.injEq, Prod.mk.injEq] at taken
        rcases List.findIdx?_eq_some_iff_getElem.mp found with ⟨inside, isZero, before⟩
        refine ⟨src.take nul, ?_, ?_, taken.1.symm⟩
        · intro member
          rcases List.mem_take_iff_getElem.mp member with ⟨position, bound, zero⟩
          have earlier := before position (by omega)
          simp [zero] at earlier
        · rw [← taken.2, ← beq_iff_eq.mp isZero, List.getElem_cons_drop, List.take_append_drop]
  · intro given
    rcases given with ⟨bytes, nonzero, rfl, rfl⟩
    have behind : (bytes ++ 0 :: rest).drop (bytes.length + 1) = rest :=
      List.drop_length_add_append 1
    simp only [findIdx?_zero nonzero, List.take_left, behind]

/-- A number is read from the bytes that it was written to. -/
theorem requireNumber_eq_ok_iff {Value : Type} {width : Nat}
    {fromBeBytes : List UInt8 → Value} {write : Value → List UInt8}
    (length_write : ∀ value, (write value).length = width)
    (fromBeBytes_write : ∀ value, fromBeBytes (write value) = value)
    (write_fromBeBytes : ∀ {bytes}, bytes.length = width → write (fromBeBytes bytes) = bytes)
    {text : String} {value : Value} {src rest : List UInt8} :
    okOr text (readNumber width fromBeBytes src) = .ok (value, rest) ↔
      src = write value ++ rest := by
  rw [readNumber_eq, okOr_eq_ok_iff, Option.map_eq_some_iff]
  constructor
  · intro found
    rcases found with ⟨⟨bytes, behind⟩, taken, same⟩
    rcases takeExact_eq_some_iff.mp taken with ⟨length, shape⟩
    cases same
    rw [write_fromBeBytes length, shape]
  · intro shape
    refine ⟨(write value, rest), ?_, by rw [fromBeBytes_write]⟩
    exact takeExact_eq_some_iff.mpr ⟨length_write value, shape⟩

theorem requireI16_eq_ok_iff {text : String} {value : Int16} {src rest : List UInt8} :
    okOr text (readI16 src) = .ok (value, rest) ↔ src = putI16 value ++ rest :=
  requireNumber_eq_ok_iff length_putI16 i16FromBeBytes_putI16 putI16_i16FromBeBytes

theorem requireI32_eq_ok_iff {text : String} {value : Int32} {src rest : List UInt8} :
    okOr text (readI32 src) = .ok (value, rest) ↔ src = putI32 value ++ rest :=
  requireNumber_eq_ok_iff length_putI32 i32FromBeBytes_putI32 putI32_i32FromBeBytes

theorem requireCstring_ne_panicked (text : String) (src : List UInt8) (panic : Panic) :
    okOr text (readCstring src) ≠ .error (.panicked panic) := by
  rw [readCstring_eq]
  exact okOr_ne_panicked text _ panic

theorem requireNumber_ne_panicked {Value : Type} {width : Nat}
    {fromBeBytes : List UInt8 → Value} (text : String) (src : List UInt8) (panic : Panic) :
    okOr text (readNumber width fromBeBytes src) ≠ .error (.panicked panic) := by
  rw [readNumber_eq]
  exact okOr_ne_panicked text _ panic

theorem requireI16_ne_panicked (text : String) (src : List UInt8) (panic : Panic) :
    okOr text (readI16 src) ≠ .error (.panicked panic) :=
  requireNumber_ne_panicked text src panic

theorem requireI32_ne_panicked (text : String) (src : List UInt8) (panic : Panic) :
    okOr text (readI32 src) ≠ .error (.panicked panic) :=
  requireNumber_ne_panicked text src panic

/-- A count asks for too much exactly when it is negative. -/
theorem withCapacity_count {size : Nat} (positive : 0 < size) (small : size < 2 ^ 40)
    (count : Int16) :
    withCapacity size (asUsize count.toInt) =
      if count < 0 then .error (.panicked .capacityOverflow) else .ok () := by
  have low : -32768 ≤ count.toInt := count.le_toInt
  have high : count.toInt < 32768 := count.toInt_lt
  rw [withCapacity]
  by_cases negative : count < 0
  · have below : count.toInt < 0 := Int16.lt_iff_toInt_lt.mp negative
    have huge : 2 ^ 63 ≤ asUsize count.toInt := by
      rw [asUsize]
      omega
    have tooMuch : 2 ^ 63 ≤ size * asUsize count.toInt :=
      le_trans huge (Nat.le_mul_of_pos_left _ positive)
    rw [if_neg (Nat.not_lt_of_le tooMuch), if_pos negative]
  · have above : 0 ≤ count.toInt := by
      rw [Int16.lt_iff_toInt_lt] at negative
      simpa using negative
    have few : asUsize count.toInt < 2 ^ 15 := by
      rw [asUsize]
      omega
    have room : size * asUsize count.toInt < 2 ^ 63 :=
      lt_of_lt_of_le (Nat.mul_lt_mul'' small few) (by decide)
    rw [if_pos room, if_neg negative]

/-! ## Lists in a body -/

theorem readTypeOid_exact : Exact readTypeOid (fun _ => True) putI32 := by
  intro index src value rest
  rw [readTypeOid, requireI32_eq_ok_iff, true_and]

theorem readParamFormat_exact : Exact readParamFormat (fun _ => True) putI16 := by
  intro index src value rest
  rw [readParamFormat, requireI16_eq_ok_iff, true_and]

/-- A parameter as it is sent: its length and its bytes, or the length -1. -/
def encodeParam : Option (List UInt8) → List UInt8
  | none => putI32 (-1)
  | some bytes => putI32 (Int32.ofNat bytes.length) ++ bytes

/-- The length of a parameter is a positive number of 32 bits. -/
def ParamFits (param : Option (List UInt8)) : Prop :=
  ∀ bytes ∈ param, bytes.length < 2 ^ 31

theorem asUsize_of_nonneg {len : Int32} (nonneg : ¬ len < 0) :
    (asUsize len.toInt : Int) = len.toInt := by
  have low : 0 ≤ len.toInt := by
    rw [Int32.lt_iff_toInt_lt] at nonneg
    simpa using nonneg
  have high : len.toInt < 2147483648 := len.toInt_lt
  rw [asUsize]
  omega

theorem encodeParam_take {len : Int32} (nonneg : ¬ len < 0) {src : List UInt8}
    (enough : asUsize len.toInt ≤ src.length) :
    ParamFits (some (src.take (asUsize len.toInt))) ∧
      encodeParam (some (src.take (asUsize len.toInt))) ++ src.drop (asUsize len.toInt) =
        putI32 len ++ src := by
  have length := asUsize_of_nonneg nonneg
  have high : len.toInt < 2147483648 := len.toInt_lt
  have count : (src.take (asUsize len.toInt)).length = asUsize len.toInt :=
    List.length_take_of_le enough
  constructor
  · intro bytes same
    cases same
    rw [count]
    omega
  · have sameLen : Int32.ofNat (asUsize len.toInt) = len := by
      rw [← Int32.toInt_inj, Int32.toInt_ofNat_of_lt (by omega), length]
    rw [encodeParam, count, sameLen, List.append_assoc, List.take_append_drop]

theorem readParam_cases (index : Nat) (src : List UInt8) :
    (∃ text, readParam index src = .error (.refused text)) ∨
      ∃ value rest, readParam index src = .ok (value, rest) ∧ ParamFits value ∧
        src = encodeParam value ++ rest := by
  rw [readParam, readI32, readNumber_eq]
  cases taken : takeExact 4 src with
  | none => exact .inl ⟨_, rfl⟩
  | some parts =>
      rcases parts with ⟨bytes, behind⟩
      rcases takeExact_eq_some_iff.mp taken with ⟨length, shape⟩
      rw [← putI32_i32FromBeBytes length] at shape
      simp only [Option.map_some]
      generalize i32FromBeBytes bytes = len at shape
      have lengthRead : ∀ text, okOr text (.ok (some (len, behind))) = .ok (len, behind) :=
        fun _ => rfl
      rw [lengthRead]
      by_cases isNull : len = -1
      · subst isNull
        exact .inr ⟨none, behind, rfl, nofun, shape⟩
      by_cases negative : len < 0
      · refine .inl ⟨s!"Bind: invalid param length {len} for param {index}", ?_⟩
        simp only [bind, Except.bind, isNull, if_false, negative, if_true]
        rfl
      by_cases missing : behind.length < asUsize len.toInt
      · refine .inl ⟨s!"Bind: not enough bytes for param {index}; need {asUsize len.toInt}, have {behind.length}", ?_⟩
        simp only [bind, Except.bind, isNull, negative, if_false, missing, if_true]
        rfl
      have enough : asUsize len.toInt ≤ behind.length := Nat.le_of_not_lt missing
      rcases encodeParam_take negative enough with ⟨fits, same⟩
      refine .inr ⟨_, _, ?_, fits, shape.trans same.symm⟩
      simp only [bind, Except.bind, isNull, negative, missing, if_false, splitAt_of_le enough]
      rfl

theorem readParam_encodeParam (index : Nat) {value : Option (List UInt8)} (fits : ParamFits value)
    (rest : List UInt8) : readParam index (encodeParam value ++ rest) = .ok (value, rest) := by
  cases value with
  | none => exact bind_eq_ok_iff.mpr ⟨(-1, rest), requireI32_eq_ok_iff.mpr rfl, rfl⟩
  | some bytes =>
      have short : bytes.length < 2 ^ 31 := fits bytes rfl
      have length : (Int32.ofNat bytes.length).toInt = bytes.length :=
        Int32.toInt_ofNat_of_lt (by omega)
      have count : asUsize (Int32.ofNat bytes.length).toInt = bytes.length := by
        rw [length, asUsize]
        omega
      have nonneg : ¬ Int32.ofNat bytes.length < 0 := by
        rw [Int32.lt_iff_toInt_lt, length]
        exact not_lt_of_ge (Int.natCast_nonneg _)
      have present : ¬ Int32.ofNat bytes.length = -1 := by
        intro same
        rw [same] at nonneg
        exact nonneg (by decide)
      have enough : ¬ (bytes ++ rest).length < bytes.length := by
        rw [List.length_append]
        omega
      refine bind_eq_ok_iff.mpr ⟨(Int32.ofNat bytes.length, bytes ++ rest), ?_, ?_⟩
      · rw [requireI32_eq_ok_iff, encodeParam, List.append_assoc]
      · simp only [present, nonneg, count, enough, if_false,
          splitAt_of_le (Nat.le_of_not_lt enough), List.take_left, List.drop_left]
        rfl

theorem readParam_exact : Exact readParam ParamFits encodeParam := by
  intro index src value rest
  constructor
  · intro taken
    rcases readParam_cases index src with ⟨text, refused⟩ | ⟨other, behind, found, fits, shape⟩
    · rw [refused] at taken
      cases taken
    · rw [found] at taken
      cases taken
      exact ⟨fits, shape⟩
  · intro given
    rcases given with ⟨fits, rfl⟩
    exact readParam_encodeParam index fits rest

theorem readParam_ne_panicked (index : Nat) (src : List UInt8) (panic : Panic) :
    readParam index src ≠ .error (.panicked panic) := by
  rcases readParam_cases index src with ⟨text, refused⟩ | ⟨value, rest, found, _, _⟩
  · rw [refused]
    simp
  · rw [found]
    nofun

theorem exists_skipCodes (remaining : Nat) (src : List UInt8) :
    ∃ rest, skipCodes remaining src = .ok rest := by
  induction remaining generalizing src with
  | zero => exact ⟨src, rfl⟩
  | succ remaining induction =>
      rw [skipCodes, readI16, readNumber_eq]
      cases takeExact 2 src with
      | none => exact induction src
      | some parts => exact induction parts.2

theorem exists_skipResultFormats (src : List UInt8) :
    ∃ rest, skipResultFormats src = .ok rest := by
  rw [skipResultFormats, readI16, readNumber_eq]
  cases takeExact 2 src with
  | none => exact ⟨src, rfl⟩
  | some parts => exact exists_skipCodes _ parts.2

/-! ## Panics -/

/-- Behind a name and a query, the count of parameter types is negative. -/
def NegativeTypeCount (body : List UInt8) : Prop :=
  ∃ name query : List UInt8, 0 ∉ name ∧ 0 ∉ query ∧ ∃ count < 0, ∃ rest,
    body = name ++ 0 :: (query ++ 0 :: (putI16 count ++ rest))

/-- Behind a portal, a statement and the formats, the count of parameters is
negative. -/
def NegativeParamCount (body : List UInt8) : Prop :=
  ∃ portal statement : List UInt8, 0 ∉ portal ∧ 0 ∉ statement ∧
    ∃ (fmtCount : Int16) (formats : List Int16), formats.length = fmtCount.toNatClampNeg ∧
      ∃ count < 0, ∃ rest,
        body = portal ++ 0 :: (statement ++ 0 :: (putI16 fmtCount ++
          (formats.flatMap putI16 ++ (putI16 count ++ rest))))

def NegativeCount (typeByte : UInt8) (body : List UInt8) : Prop :=
  Char.ofNat typeByte.toNat = 'P' ∧ NegativeTypeCount body ∨
    Char.ofNat typeByte.toNat = 'B' ∧ NegativeParamCount body

section Steps

variable {Value : Type} {panic : Panic}

theorem cstring_then_panicked_iff {text : String} {src : List UInt8}
    {next : String × List UInt8 → Parsing Value} :
    (okOr text (readCstring src) >>= next) = .error (.panicked panic) ↔
      ∃ bytes rest, 0 ∉ bytes ∧ src = bytes ++ 0 :: rest ∧
        next (fromUtf8Lossy bytes, rest) = .error (.panicked panic) := by
  rw [bind_eq_error_iff_of_ne (requireCstring_ne_panicked text src panic)]
  constructor
  · intro given
    rcases given with ⟨⟨name, rest⟩, taken, failed⟩
    rcases requireCstring_eq_ok_iff.mp taken with ⟨bytes, nonzero, shape, rfl⟩
    exact ⟨bytes, rest, nonzero, shape, failed⟩
  · intro given
    rcases given with ⟨bytes, rest, nonzero, shape, failed⟩
    exact ⟨_, requireCstring_eq_ok_iff.mpr ⟨bytes, nonzero, shape, rfl⟩, failed⟩

theorem i16_then_panicked_iff {text : String} {src : List UInt8}
    {next : Int16 × List UInt8 → Parsing Value} :
    (okOr text (readI16 src) >>= next) = .error (.panicked panic) ↔
      ∃ count rest, src = putI16 count ++ rest ∧
        next (count, rest) = .error (.panicked panic) := by
  rw [bind_eq_error_iff_of_ne (requireI16_ne_panicked text src panic), Prod.exists]
  simp only [requireI16_eq_ok_iff]

theorem formats_then_panicked_iff {count : Nat} {src : List UInt8}
    {next : List Int16 × List UInt8 → Parsing Value} :
    (readEach readParamFormat count 0 src >>= next) = .error (.panicked panic) ↔
      ∃ formats rest, formats.length = count ∧ src = formats.flatMap putI16 ++ rest ∧
        next (formats, rest) = .error (.panicked panic) := by
  have never : readEach readParamFormat count 0 src ≠ .error (.panicked panic) :=
    readEach_ne_error (fun _ _ => requireI16_ne_panicked _ _ _) _ _ _
  rw [bind_eq_error_iff_of_ne never, Prod.exists]
  simp only [readParamFormat_exact.readEach_eq_ok_iff, implies_true, true_and, and_assoc]

theorem capacity_then_panicked_iff {size : Nat} (positive : 0 < size) (small : size < 2 ^ 40)
    {count : Int16} {next : Unit → Parsing Value} (never : next () ≠ .error (.panicked panic)) :
    (withCapacity size (asUsize count.toInt) >>= next) = .error (.panicked panic) ↔
      panic = .capacityOverflow ∧ count < 0 := by
  rw [withCapacity_count positive small]
  by_cases negative : count < 0
  · rw [if_pos negative]
    constructor
    · intro failed
      cases failed
      exact ⟨rfl, negative⟩
    · intro given
      rcases given with ⟨rfl, _⟩
      rfl
  · rw [if_neg negative]
    exact iff_of_false never fun overflow => negative overflow.2

end Steps

theorem typesRead_ne_panicked (name query : String) (count : Nat) (src : List UInt8)
    (panic : Panic) :
    (do
      let (paramTypes, _) ← readEach readTypeOid count 0 src
      return ExtendedFrontendMessage.parse name query paramTypes) ≠
        Except.error (Failure.panicked panic) := by
  intro failed
  rcases bind_eq_error_iff.mp failed with noType | ⟨_, _, failed⟩
  · exact readEach_ne_error (fun _ _ => requireI32_ne_panicked _ _ _) _ _ _ noType
  · cases failed

theorem parseParse_eq_panicked_iff (src : List UInt8) (panic : Panic) :
    parseParse src = .error (.panicked panic) ↔
      panic = .capacityOverflow ∧ NegativeTypeCount src := by
  rw [parseParse]
  constructor
  · intro failed
    rcases cstring_then_panicked_iff.mp failed with
      ⟨name, behindName, nameNonzero, shape, afterName⟩
    rcases cstring_then_panicked_iff.mp afterName with
      ⟨query, behindQuery, queryNonzero, nameShape, afterQuery⟩
    rcases i16_then_panicked_iff.mp afterQuery with ⟨count, rest, queryShape, afterCount⟩
    rcases (capacity_then_panicked_iff (by decide) (by decide)
      (typesRead_ne_panicked _ _ _ _ _)).mp afterCount with ⟨overflow, negative⟩
    refine ⟨overflow, name, query, nameNonzero, queryNonzero, count, negative, rest, ?_⟩
    rw [shape, nameShape, queryShape]
  · intro given
    rcases given with ⟨overflow, name, query, nameNonzero, queryNonzero, count, negative, rest,
      shape⟩
    refine cstring_then_panicked_iff.mpr ⟨name, _, nameNonzero, shape, ?_⟩
    refine cstring_then_panicked_iff.mpr ⟨query, _, queryNonzero, rfl, ?_⟩
    refine i16_then_panicked_iff.mpr ⟨count, rest, rfl, ?_⟩
    exact (capacity_then_panicked_iff (by decide) (by decide)
      (typesRead_ne_panicked _ _ _ _ _)).mpr ⟨overflow, negative⟩

theorem paramsRead_ne_panicked (portal statement : String) (count : Nat) (src : List UInt8)
    (panic : Panic) :
    (do
      let (params, src) ← readEach readParam count 0 src
      let _ ← skipResultFormats src
      return ExtendedFrontendMessage.bind portal statement params) ≠
        Except.error (Failure.panicked panic) := by
  intro failed
  rcases bind_eq_error_iff.mp failed with noParam | ⟨⟨params, behind⟩, _, afterParams⟩
  · exact readEach_ne_error (fun _ _ => readParam_ne_panicked _ _ _) _ _ _ noParam
  · rcases exists_skipResultFormats behind with ⟨rest, skipped⟩
    rcases bind_eq_error_iff.mp afterParams with notSkipped | ⟨_, _, afterSkip⟩
    · rw [skipped] at notSkipped
      cases notSkipped
    · cases afterSkip

theorem parseBind_eq_panicked_iff (src : List UInt8) (panic : Panic) :
    parseBind src = .error (.panicked panic) ↔
      panic = .capacityOverflow ∧ NegativeParamCount src := by
  rw [parseBind]
  constructor
  · intro failed
    rcases cstring_then_panicked_iff.mp failed with
      ⟨portal, behindPortal, portalNonzero, shape, afterPortal⟩
    rcases cstring_then_panicked_iff.mp afterPortal with
      ⟨statement, behindStatement, statementNonzero, portalShape, afterStatement⟩
    rcases i16_then_panicked_iff.mp afterStatement with
      ⟨fmtCount, behindCount, statementShape, afterFmtCount⟩
    rcases formats_then_panicked_iff.mp afterFmtCount with
      ⟨formats, behindFormats, length, countShape, afterFormats⟩
    rcases i16_then_panicked_iff.mp afterFormats with ⟨count, rest, formatsShape, afterCount⟩
    rcases (capacity_then_panicked_iff (by decide) (by decide)
      (paramsRead_ne_panicked _ _ _ _ _)).mp afterCount with ⟨overflow, negative⟩
    refine ⟨overflow, portal, statement, portalNonzero, statementNonzero, fmtCount, formats,
      length, count, negative, rest, ?_⟩
    rw [shape, portalShape, statementShape, countShape, formatsShape]
  · intro given
    rcases given with ⟨overflow, portal, statement, portalNonzero, statementNonzero, fmtCount,
      formats, length, count, negative, rest, shape⟩
    refine cstring_then_panicked_iff.mpr ⟨portal, _, portalNonzero, shape, ?_⟩
    refine cstring_then_panicked_iff.mpr ⟨statement, _, statementNonzero, rfl, ?_⟩
    refine i16_then_panicked_iff.mpr ⟨fmtCount, _, rfl, ?_⟩
    refine formats_then_panicked_iff.mpr ⟨formats, _, length, rfl, ?_⟩
    refine i16_then_panicked_iff.mpr ⟨count, rest, rfl, ?_⟩
    exact (capacity_then_panicked_iff (by decide) (by decide)
      (paramsRead_ne_panicked _ _ _ _ _)).mpr ⟨overflow, negative⟩

theorem readDescribeKind_ne_panicked (kindByte : UInt8) (panic : Panic) :
    readDescribeKind kindByte ≠ .error (.panicked panic) := by
  rw [readDescribeKind]
  split
  · nofun
  · nofun
  · simp

theorem parseDescribe_ne_panicked (src : List UInt8) (panic : Panic) :
    parseDescribe src ≠ .error (.panicked panic) := by
  cases src with
  | nil => simp [parseDescribe, throw, throwThe, MonadExceptOf.throw, bind, Except.bind]
  | cons kindByte src =>
      intro failed
      rcases bind_eq_error_iff.mp failed with noSplit | ⟨parts, _, afterSplit⟩
      · rw [splitAt_of_le (by simp)] at noSplit
        cases noSplit
      rcases bind_eq_error_iff.mp afterSplit with noKind | ⟨kind, _, afterKind⟩
      · exact readDescribeKind_ne_panicked _ _ noKind
      rcases bind_eq_error_iff.mp afterKind with noName | ⟨_, _, afterName⟩
      · exact requireCstring_ne_panicked _ _ _ noName
      · cases afterName

theorem parseExecute_ne_panicked (src : List UInt8) (panic : Panic) :
    parseExecute src ≠ .error (.panicked panic) := by
  intro failed
  rcases bind_eq_error_iff.mp failed with noPortal | ⟨_, _, afterPortal⟩
  · exact requireCstring_ne_panicked _ _ _ noPortal
  · rcases bind_eq_error_iff.mp afterPortal with noMaxRows | ⟨_, _, afterMaxRows⟩
    · exact requireI32_ne_panicked _ _ _ noMaxRows
    · cases afterMaxRows

/-- The only panic is that of a `Vec` for a negative count. No slice goes
beyond its bytes. -/
theorem parseExtendedMessage_eq_panicked_iff (typeByte : UInt8) (body : List UInt8)
    (panic : Panic) :
    parseExtendedMessage typeByte body = .error (.panicked panic) ↔
      panic = .capacityOverflow ∧ NegativeCount typeByte body := by
  rw [parseExtendedMessage, NegativeCount]
  generalize Char.ofNat typeByte.toNat = type
  split
  · simpa using parseParse_eq_panicked_iff body panic
  · simpa using parseBind_eq_panicked_iff body panic
  · simpa using parseDescribe_ne_panicked body panic
  · simpa using parseExecute_ne_panicked body panic
  · simp
  · simp
  · next noParse noBind _ _ _ _ =>
      refine iff_of_false (by simp) ?_
      intro given
      rcases given with ⟨_, ⟨isParse, _⟩ | ⟨isBind, _⟩⟩
      · exact noParse isParse
      · exact noBind isBind

/-- Parsing returns, with `Ok` or `Err`, exactly when no count is negative that
is read for a `Vec`. -/
theorem parseExtendedMessage_returns_iff (typeByte : UInt8) (body : List UInt8) :
    (∀ panic, parseExtendedMessage typeByte body ≠ .error (.panicked panic)) ↔
      ¬NegativeCount typeByte body := by
  simp only [ne_eq, parseExtendedMessage_eq_panicked_iff]
  constructor
  · intro returns negative
    exact returns .capacityOverflow ⟨rfl, negative⟩
  · intro positive panic failed
    exact positive failed.2

/-- A Parse with -1 parameters. -/
theorem negative_type_count_panics :
    parseExtendedMessage 'P'.toUInt8 [0, 0, 0xFF, 0xFF] =
      .error (.panicked .capacityOverflow) := by
  decide

end FunDB.Protocol.Extended
