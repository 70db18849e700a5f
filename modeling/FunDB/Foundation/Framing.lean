import Mathlib.Data.List.Basic
import Mathlib.Data.List.Infix
import Mathlib.Data.List.Flatten
import Mathlib.Tactic.Ring

/-! # Framed files

Numbers as little-endian bytes, and files that are a sequence of frames. -/

namespace FunDB.Framing

universe u v

/-! ## Little-endian numbers -/

/-- The low bytes of a number, lowest first. -/
def leBytes : Nat → Nat → List UInt8
  | 0, _ => []
  | width + 1, value => UInt8.ofNat value :: leBytes width (value / 256)

/-- The number with these bytes, lowest first. -/
def leValue : List UInt8 → Nat
  | [] => 0
  | byte :: bytes => byte.toNat + 256 * leValue bytes

@[simp] theorem length_leBytes (width value : Nat) :
    (leBytes width value).length = width := by
  induction width generalizing value with
  | zero => rfl
  | succ width induction => rw [leBytes, List.length_cons, induction]

theorem leValue_leBytes (width value : Nat) :
    leValue (leBytes width value) = value % 256 ^ width := by
  induction width generalizing value with
  | zero => simp [leBytes, leValue, Nat.mod_one]
  | succ width induction =>
      have digits : value % (256 * 256 ^ width) =
          value % 256 + 256 * (value / 256 % 256 ^ width) := Nat.mod_mul
      rw [leBytes, leValue, induction, UInt8.toNat_ofNat', pow_succ' 256 width, digits]

theorem leValue_leBytes_of_lt {width value : Nat} (fits : value < 256 ^ width) :
    leValue (leBytes width value) = value := by
  rw [leValue_leBytes, Nat.mod_eq_of_lt fits]

theorem leValue_lt (bytes : List UInt8) : leValue bytes < 256 ^ bytes.length := by
  induction bytes with
  | nil => simp [leValue]
  | cons byte bytes induction =>
      have byteBound : byte.toNat < 256 := byte.toNat_lt
      rw [leValue, List.length_cons, pow_succ]
      omega

theorem leBytes_leValue (bytes : List UInt8) :
    leBytes bytes.length (leValue bytes) = bytes := by
  induction bytes with
  | nil => rfl
  | cons byte bytes induction =>
      have byteBound : byte.toNat < 256 := byte.toNat_lt
      have quotient : (byte.toNat + 256 * leValue bytes) / 256 = leValue bytes := by omega
      have low : UInt8.ofNat (byte.toNat + 256 * leValue bytes) = byte := by
        apply UInt8.toNat_inj.mp
        rw [UInt8.toNat_ofNat']
        omega
      rw [List.length_cons, leValue, leBytes, quotient, induction, low]

theorem leBytes_mod (width value : Nat) :
    leBytes width (value % 256 ^ width) = leBytes width value := by
  have same := leBytes_leValue (leBytes width value)
  rw [length_leBytes, leValue_leBytes] at same
  exact same

/-! ## Big-endian numbers -/

/-- The low bytes of a number, lowest last. -/
def beBytes (width value : Nat) : List UInt8 :=
  (leBytes width value).reverse

/-- The number with these bytes, lowest last. -/
def beValue (bytes : List UInt8) : Nat :=
  leValue bytes.reverse

@[simp] theorem length_beBytes (width value : Nat) :
    (beBytes width value).length = width := by
  rw [beBytes, List.length_reverse, length_leBytes]

theorem beValue_beBytes_of_lt {width value : Nat} (fits : value < 256 ^ width) :
    beValue (beBytes width value) = value := by
  rw [beValue, beBytes, List.reverse_reverse, leValue_leBytes_of_lt fits]

theorem beBytes_beValue (bytes : List UInt8) :
    beBytes bytes.length (beValue bytes) = bytes := by
  have same := leBytes_leValue bytes.reverse
  rw [List.length_reverse] at same
  rw [beBytes, beValue, same, List.reverse_reverse]

theorem beValue_lt (bytes : List UInt8) : beValue bytes < 256 ^ bytes.length := by
  have small := leValue_lt bytes.reverse
  rwa [List.length_reverse] at small

def putI16 (value : Int16) : List UInt8 :=
  beBytes 2 value.toUInt16.toNat

def putI32 (value : Int32) : List UInt8 :=
  beBytes 4 value.toUInt32.toNat

def i16FromBeBytes (bytes : List UInt8) : Int16 :=
  (UInt16.ofNat (beValue bytes)).toInt16

def i32FromBeBytes (bytes : List UInt8) : Int32 :=
  (UInt32.ofNat (beValue bytes)).toInt32

def u16FromBeBytes (bytes : List UInt8) : Nat :=
  beValue bytes

@[simp] theorem length_putI16 (value : Int16) : (putI16 value).length = 2 :=
  length_beBytes 2 _

@[simp] theorem length_putI32 (value : Int32) : (putI32 value).length = 4 :=
  length_beBytes 4 _

@[simp] theorem i32FromBeBytes_putI32 (value : Int32) :
    i32FromBeBytes (putI32 value) = value := by
  rw [i32FromBeBytes, putI32, beValue_beBytes_of_lt value.toUInt32.toNat_lt, UInt32.ofNat_toNat]
  rfl

@[simp] theorem i16FromBeBytes_putI16 (value : Int16) :
    i16FromBeBytes (putI16 value) = value := by
  rw [i16FromBeBytes, putI16, beValue_beBytes_of_lt value.toUInt16.toNat_lt, UInt16.ofNat_toNat]
  rfl

theorem putI16_i16FromBeBytes {bytes : List UInt8} (length : bytes.length = 2) :
    putI16 (i16FromBeBytes bytes) = bytes := by
  have small := beValue_lt bytes
  have same := beBytes_beValue bytes
  rw [length] at small same
  have value : (i16FromBeBytes bytes).toUInt16.toNat = beValue bytes := by
    rw [i16FromBeBytes, UInt16.toUInt16_toInt16, UInt16.toNat_ofNat']
    omega
  rw [putI16, value, same]

theorem putI32_i32FromBeBytes {bytes : List UInt8} (length : bytes.length = 4) :
    putI32 (i32FromBeBytes bytes) = bytes := by
  have small := beValue_lt bytes
  have same := beBytes_beValue bytes
  rw [length] at small same
  have value : (i32FromBeBytes bytes).toUInt32.toNat = beValue bytes := by
    rw [i32FromBeBytes, UInt32.toUInt32_toInt32, UInt32.toNat_ofNat']
    omega
  rw [putI32, value, same]

/-- A count that was written signed is read unsigned, by its last sixteen bits. -/
theorem u16FromBeBytes_putI16_mod (count : Nat) :
    u16FromBeBytes (putI16 (Int16.ofNat count)) = count % 65536 := by
  have whole : (Int16.ofNat count).toUInt16.toNat = count % 65536 := by
    have same : (Int16.ofNat count).toUInt16 = UInt16.ofNat count := rfl
    rw [same, UInt16.toNat_ofNat']
  rw [u16FromBeBytes, putI16, whole, beValue_beBytes_of_lt (by omega)]

theorem u16FromBeBytes_putI16_ofNat {count : Nat} (fits : count ≤ 65535) :
    u16FromBeBytes (putI16 (Int16.ofNat count)) = count := by
  rw [u16FromBeBytes_putI16_mod, Nat.mod_eq_of_lt (by omega)]

/-- A signed number as a word of 64 bits. -/
def asUsize (value : Int) : Nat :=
  (value % 2 ^ 64).toNat

/-! ## Streams -/

def takeExact {Symbol : Type u} (count : Nat) (stream : List Symbol) :
    Option (List Symbol × List Symbol) :=
  if count ≤ stream.length then some (stream.take count, stream.drop count) else none

theorem takeExact_append {Symbol : Type u} {count : Nat} {front : List Symbol}
    (length : front.length = count) (rest : List Symbol) :
    takeExact count (front ++ rest) = some (front, rest) := by
  subst length
  rw [takeExact, if_pos (by simp), List.take_left, List.drop_left]

theorem takeExact_eq_some_iff {Symbol : Type u} {count : Nat}
    {stream front rest : List Symbol} :
    takeExact count stream = some (front, rest) ↔
      front.length = count ∧ stream = front ++ rest := by
  constructor
  · intro taken
    rw [takeExact, Option.ite_none_right_eq_some] at taken
    rcases taken with ⟨long, same⟩
    cases same
    exact ⟨List.length_take_of_le long, (List.take_append_drop count stream).symm⟩
  · intro shape
    rw [shape.2, takeExact_append shape.1]

/-! ## Frames -/

/-- The items whose frames end within the first `cut` symbols of the file. -/
def wholeWithin {Symbol : Type u} {Item : Type v} (frame : Item → List Symbol) :
    Nat → List Item → List Item
  | _, [] => []
  | cut, item :: items =>
      if (frame item).length ≤ cut then
        item :: wholeWithin frame (cut - (frame item).length) items
      else
        []

section WholeFrames

variable {Symbol : Type u} {Item : Type v} (frame : Item → List Symbol)

theorem wholeWithin_length (items : List Item) :
    wholeWithin frame (items.flatMap frame).length items = items := by
  induction items with
  | nil => rfl
  | cons item items induction =>
      rw [List.flatMap_cons, List.length_append, wholeWithin, if_pos (Nat.le_add_right _ _),
        Nat.add_sub_cancel_left, induction]

end WholeFrames

/-- Items are written as frames, and a reader takes the frame at the front of
its input. It reads what was written and nothing else. Items that do not fit
have no frame that can be read. -/
structure Format (Symbol : Type u) (Item : Type v) where
  frame : Item → List Symbol
  read : List Symbol → Option (Item × List Symbol)
  Fits : Item → Prop
  frame_ne_nil : ∀ item, frame item ≠ []
  read_frame : ∀ item rest, Fits item → read (frame item ++ rest) = some (item, rest)
  frame_read : ∀ input item rest, read input = some (item, rest) →
    Fits item ∧ input = frame item ++ rest

namespace Format

variable {Symbol : Type u} {Item : Type v} (format : Format Symbol Item)

def frames (items : List Item) : List Symbol :=
  items.flatMap format.frame

@[simp] theorem frames_nil : format.frames [] = [] := rfl

@[simp] theorem frames_cons (item : Item) (items : List Item) :
    format.frames (item :: items) = format.frame item ++ format.frames items := by
  simp [frames]

@[simp] theorem frames_append (left right : List Item) :
    format.frames (left ++ right) = format.frames left ++ format.frames right := by
  simp [frames]

/-- Read frames until one is missing, at most `fuel` of them. -/
def readMany : Nat → List Symbol → List Item
  | 0, _ => []
  | fuel + 1, input =>
      match format.read input with
      | none => []
      | some (item, rest) => item :: readMany fuel rest

/-- Read frames until one is missing. A frame is not empty, so there are no
more frames than symbols. -/
def readAll (input : List Symbol) : List Item :=
  format.readMany input.length input

theorem length_rest_lt {input rest : List Symbol} {item : Item}
    (read : format.read input = some (item, rest)) : rest.length < input.length := by
  rcases format.frame_read input item rest read with ⟨_, shape⟩
  have positive := List.length_pos_of_ne_nil (format.frame_ne_nil item)
  rw [shape, List.length_append]
  omega

theorem readMany_of_length_le {fuel : Nat} {input : List Symbol}
    (enough : input.length ≤ fuel) : format.readMany fuel input = format.readAll input := by
  have more : ∀ bound other, bound ≤ other → ∀ rest : List Symbol, rest.length ≤ bound →
      format.readMany other rest = format.readMany bound rest := by
    intro bound
    induction bound with
    | zero =>
        intro other _ rest short
        have empty : rest = [] := List.length_eq_zero_iff.mp (by omega)
        subst empty
        have stops : format.read [] = none := by
          cases read : format.read [] with
          | none => rfl
          | some pair =>
              rcases pair with ⟨item, behind⟩
              exact absurd (format.length_rest_lt read) (by simp)
        cases other with
        | zero => rfl
        | succ other => simp [readMany, stops]
    | succ bound induction =>
        intro other more rest short
        rcases other with _ | other
        · omega
        · cases read : format.read rest with
          | none => simp [readMany, read]
          | some pair =>
              rcases pair with ⟨item, behind⟩
              have shorter := format.length_rest_lt read
              simp only [readMany, read]
              rw [induction other (by omega) behind (by omega)]
  exact more _ _ enough input (Nat.le_refl _)

theorem readAll_of_read_none {input : List Symbol} (stops : format.read input = none) :
    format.readAll input = [] := by
  rw [← format.readMany_of_length_le (Nat.le_succ _)]
  simp [readMany, stops]

theorem readAll_of_read_some {input rest : List Symbol} {item : Item}
    (read : format.read input = some (item, rest)) :
    format.readAll input = item :: format.readAll rest := by
  have shorter := format.length_rest_lt read
  rw [← format.readMany_of_length_le (Nat.le_succ _)]
  simp only [readMany, read]
  rw [format.readMany_of_length_le (Nat.le_of_lt shorter)]

/-- What was written comes back, followed by whatever stands behind it. -/
theorem readAll_frames_append {items : List Item} (fit : ∀ item ∈ items, format.Fits item)
    (rest : List Symbol) :
    format.readAll (format.frames items ++ rest) = items ++ format.readAll rest := by
  induction items with
  | nil => rfl
  | cons item items induction =>
      rw [frames_cons, List.append_assoc, format.readAll_of_read_some
          (format.read_frame item _ (fit item List.mem_cons_self)),
        induction fun other member => fit other (List.mem_cons_of_mem _ member),
        List.cons_append]

/-- A file reads as the items whose frames it begins with, up to the point
where no frame begins. -/
theorem exists_of_readAll (input : List Symbol) :
    ∃ rest, input = format.frames (format.readAll input) ++ rest ∧
      format.read rest = none := by
  induction size : input.length using Nat.strong_induction_on generalizing input with
  | _ size induction =>
    cases read : format.read input with
    | none => exact ⟨input, by rw [format.readAll_of_read_none read]; rfl, read⟩
    | some pair =>
        rcases pair with ⟨item, behind⟩
        have shorter := format.length_rest_lt read
        rcases induction behind.length (by omega) behind rfl with ⟨rest, shape, stops⟩
        refine ⟨rest, ?_, stops⟩
        rw [format.readAll_of_read_some read, frames_cons, List.append_assoc, ← shape]
        exact (format.frame_read _ _ _ read).2

theorem fits_of_mem_readAll {input : List Symbol} {item : Item}
    (member : item ∈ format.readAll input) : format.Fits item := by
  induction size : input.length using Nat.strong_induction_on generalizing input with
  | _ size induction =>
    cases read : format.read input with
    | none =>
        rw [format.readAll_of_read_none read] at member
        cases member
    | some pair =>
        rcases pair with ⟨first, behind⟩
        have shorter := format.length_rest_lt read
        rw [format.readAll_of_read_some read] at member
        rcases List.mem_cons.mp member with same | later
        · rw [same]
          exact (format.frame_read _ _ _ read).1
        · exact induction behind.length (by omega) later rfl

theorem readAll_eq_iff {items : List Item} (fit : ∀ item ∈ items, format.Fits item)
    (input : List Symbol) :
    format.readAll input = items ↔
      ∃ rest, input = format.frames items ++ rest ∧ format.read rest = none := by
  constructor
  · intro same
    subst same
    exact format.exists_of_readAll input
  · intro shape
    rcases shape with ⟨rest, shape, stops⟩
    rw [shape, format.readAll_frames_append fit, format.readAll_of_read_none stops,
      List.append_nil]

theorem read_eq_none_iff (input : List Symbol) :
    format.read input = none ↔ ∀ item, format.Fits item → ¬ format.frame item <+: input := by
  constructor
  · intro stops item fits start
    rcases start with ⟨rest, shape⟩
    rw [← shape, format.read_frame item rest fits] at stops
    cases stops
  · intro noFrame
    cases read : format.read input with
    | none => rfl
    | some pair =>
        rcases format.frame_read _ _ _ read with ⟨fits, shape⟩
        exact absurd ⟨pair.2, shape.symm⟩ (noFrame pair.1 fits)

/-- No frame begins in a frame that was cut short. -/
theorem read_of_cut {item : Item} (fits : format.Fits item) {torn : List Symbol}
    (cut : torn <+: format.frame item) (proper : torn ≠ format.frame item) :
    format.read torn = none := by
  rw [read_eq_none_iff]
  intro other otherFits start
  rcases cut with ⟨missing, whole⟩
  rcases start with ⟨rest, shape⟩
  have here := format.read_frame item [] fits
  have there := format.read_frame other (rest ++ missing) otherFits
  rw [← List.append_assoc, shape, whole, ← List.append_nil (format.frame item), here] at there
  have nothing : rest ++ missing = [] := (Prod.mk.inj (Option.some.inj there)).2.symm
  have complete : missing = [] := (List.append_eq_nil_iff.mp nothing).2
  apply proper
  rw [← whole, complete, List.append_nil]

/-- A file that was cut anywhere reads as the items whose frames are whole. -/
theorem readAll_take_frames {items : List Item} (fit : ∀ item ∈ items, format.Fits item)
    (cut : Nat) :
    format.readAll ((format.frames items).take cut) = wholeWithin format.frame cut items := by
  induction items generalizing cut with
  | nil =>
      rw [frames_nil, List.take_nil]
      rfl
  | cons item items induction =>
      have itemFits := fit item List.mem_cons_self
      rw [frames_cons, wholeWithin, List.take_append]
      split
      · next whole =>
          rw [List.take_of_length_le whole,
            format.readAll_of_read_some (format.read_frame item _ itemFits),
            induction fun other member => fit other (List.mem_cons_of_mem _ member)]
      · next torn =>
          have nothing : cut - (format.frame item).length = 0 := by omega
          rw [nothing, List.take_zero, List.append_nil]
          apply format.readAll_of_read_none
          exact format.read_of_cut itemFits (List.take_prefix _ _) fun same =>
            torn ((List.take_eq_self_iff _).mp same)

end Format

end FunDB.Framing
