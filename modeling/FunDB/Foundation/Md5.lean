import FunDB.Foundation.Framing
import Mathlib.Analysis.Complex.Trigonometric
import Mathlib.Algebra.Order.Floor.Defs

/-! # The MD5 message digest

As RFC 1321 has it: a padded message is read in words with the low byte first, and each
block of sixteen words goes through four rounds of sixteen operations on four registers.
The operations take their constants from a table of sines. -/

namespace FunDB.Md5

open Framing

abbrev Word := BitVec 32

/-! ## Operations -/

inductive Auxiliary where
  | f
  | g
  | h
  | i
deriving DecidableEq

def Auxiliary.apply (x y z : Word) : Auxiliary → Word
  | .f => (x &&& y) ||| (~~~x &&& z)
  | .g => (x &&& z) ||| (y &&& ~~~z)
  | .h => x ^^^ y ^^^ z
  | .i => y ^^^ (x ||| ~~~z)

structure Registers where
  a : Word
  b : Word
  c : Word
  d : Word
deriving DecidableEq

/-- The registers in the order in which an operation names them. It replaces the first. -/
inductive Order where
  | abcd
  | dabc
  | cdab
  | bcda
deriving DecidableEq

/-- The order of the registers, the word of the block, the shift and the element of the
table. -/
structure Operation where
  order : Order
  k : Fin 16
  s : Nat
  i : Nat
deriving DecidableEq

section Blocks

variable (table : Nat → Word) (x : Fin 16 → Word)

def Operation.value (operation : Operation) (auxiliary : Auxiliary) (a b c d : Word) : Word :=
  b + (a + auxiliary.apply b c d + x operation.k + table operation.i).rotateLeft operation.s

def Operation.apply (operation : Operation) (auxiliary : Auxiliary) (registers : Registers) :
    Registers :=
  match operation.order, registers with
  | .abcd, ⟨a, b, c, d⟩ => ⟨operation.value table x auxiliary a b c d, b, c, d⟩
  | .dabc, ⟨a, b, c, d⟩ => ⟨a, b, c, operation.value table x auxiliary d a b c⟩
  | .cdab, ⟨a, b, c, d⟩ => ⟨a, b, operation.value table x auxiliary c d a b, d⟩
  | .bcda, ⟨a, b, c, d⟩ => ⟨a, operation.value table x auxiliary b c d a, c, d⟩

local instance neZero_sixteen : NeZero 16 := ⟨Nat.succ_ne_zero 15⟩

/-- The four rounds. -/
def rounds : List (Auxiliary × List Operation) :=
  [(.f,
    [⟨.abcd, 0, 7, 1⟩, ⟨.dabc, 1, 12, 2⟩, ⟨.cdab, 2, 17, 3⟩, ⟨.bcda, 3, 22, 4⟩,
      ⟨.abcd, 4, 7, 5⟩, ⟨.dabc, 5, 12, 6⟩, ⟨.cdab, 6, 17, 7⟩, ⟨.bcda, 7, 22, 8⟩,
      ⟨.abcd, 8, 7, 9⟩, ⟨.dabc, 9, 12, 10⟩, ⟨.cdab, 10, 17, 11⟩, ⟨.bcda, 11, 22, 12⟩,
      ⟨.abcd, 12, 7, 13⟩, ⟨.dabc, 13, 12, 14⟩, ⟨.cdab, 14, 17, 15⟩, ⟨.bcda, 15, 22, 16⟩]),
    (.g,
    [⟨.abcd, 1, 5, 17⟩, ⟨.dabc, 6, 9, 18⟩, ⟨.cdab, 11, 14, 19⟩, ⟨.bcda, 0, 20, 20⟩,
      ⟨.abcd, 5, 5, 21⟩, ⟨.dabc, 10, 9, 22⟩, ⟨.cdab, 15, 14, 23⟩, ⟨.bcda, 4, 20, 24⟩,
      ⟨.abcd, 9, 5, 25⟩, ⟨.dabc, 14, 9, 26⟩, ⟨.cdab, 3, 14, 27⟩, ⟨.bcda, 8, 20, 28⟩,
      ⟨.abcd, 13, 5, 29⟩, ⟨.dabc, 2, 9, 30⟩, ⟨.cdab, 7, 14, 31⟩, ⟨.bcda, 12, 20, 32⟩]),
    (.h,
    [⟨.abcd, 5, 4, 33⟩, ⟨.dabc, 8, 11, 34⟩, ⟨.cdab, 11, 16, 35⟩, ⟨.bcda, 14, 23, 36⟩,
      ⟨.abcd, 1, 4, 37⟩, ⟨.dabc, 4, 11, 38⟩, ⟨.cdab, 7, 16, 39⟩, ⟨.bcda, 10, 23, 40⟩,
      ⟨.abcd, 13, 4, 41⟩, ⟨.dabc, 0, 11, 42⟩, ⟨.cdab, 3, 16, 43⟩, ⟨.bcda, 6, 23, 44⟩,
      ⟨.abcd, 9, 4, 45⟩, ⟨.dabc, 12, 11, 46⟩, ⟨.cdab, 15, 16, 47⟩, ⟨.bcda, 2, 23, 48⟩]),
    (.i,
    [⟨.abcd, 0, 6, 49⟩, ⟨.dabc, 7, 10, 50⟩, ⟨.cdab, 14, 15, 51⟩, ⟨.bcda, 5, 21, 52⟩,
      ⟨.abcd, 12, 6, 53⟩, ⟨.dabc, 3, 10, 54⟩, ⟨.cdab, 10, 15, 55⟩, ⟨.bcda, 1, 21, 56⟩,
      ⟨.abcd, 8, 6, 57⟩, ⟨.dabc, 15, 10, 58⟩, ⟨.cdab, 6, 15, 59⟩, ⟨.bcda, 13, 21, 60⟩,
      ⟨.abcd, 4, 6, 61⟩, ⟨.dabc, 11, 10, 62⟩, ⟨.cdab, 2, 15, 63⟩, ⟨.bcda, 9, 21, 64⟩])]

def runRound (registers : Registers) (round : Auxiliary × List Operation) : Registers :=
  round.2.foldl (fun registers operation => operation.apply table x round.1 registers) registers

/-- Each register is increased by what the rounds leave in it. -/
def processBlock (registers : Registers) : Registers :=
  let after := rounds.foldl (runRound table x) registers
  ⟨registers.a + after.a, registers.b + after.b, registers.c + after.c, registers.d + after.d⟩

end Blocks

/-! ## Messages -/

/-- The zeros behind the one bit that bring a message to 56 bytes modulo 64. -/
def paddingZeros (length : Nat) : Nat := (119 - length % 64) % 64

/-- The message, a one bit, zeros and the number of bits of the message, as far as 64 bits
hold it. -/
def padded (message : List UInt8) : List UInt8 :=
  message ++ 0x80 :: List.replicate (paddingZeros message.length) 0 ++
    leBytes 8 (8 * message.length)

/-- A word of a message, low byte first. -/
def word (bytes : List UInt8) (n : Nat) : Word :=
  BitVec.ofNat 32 (leValue ((bytes.drop (4 * n)).take 4))

def initial : Registers := ⟨0x67452301, 0xefcdab89, 0x98badcfe, 0x10325476⟩

/-- The registers, low bytes first. -/
def Registers.output (registers : Registers) : List UInt8 :=
  leBytes 4 registers.a.toNat ++ leBytes 4 registers.b.toNat ++ leBytes 4 registers.c.toNat ++
    leBytes 4 registers.d.toNat

def digestWith (table : Nat → Word) (message : List UInt8) : List UInt8 :=
  let bytes := padded message
  let blocks := List.range (bytes.length / 64)
  (blocks.foldl
    (fun registers block => processBlock table (fun j => word bytes (16 * block + j)) registers)
    initial).output

/-- The whole part of 4294967296 times the size of the sine of a number of radians. -/
noncomputable def sineTable (i : Nat) : Word :=
  BitVec.ofNat 32 ⌊4294967296 * |Real.sin i|⌋₊

noncomputable def digest (message : List UInt8) : List UInt8 :=
  digestWith sineTable message

/-! ## Lengths -/

theorem padded_zeros_mod (length : Nat) : (length + 1 + paddingZeros length) % 64 = 56 := by
  rw [paddingZeros]
  omega

theorem length_padded_mod (message : List UInt8) : (padded message).length % 64 = 0 := by
  have zeros := padded_zeros_mod message.length
  rw [padded]
  simp only [List.length_append, List.length_cons, List.length_replicate, length_leBytes]
  omega

/-! ## One list of operations -/

/-- The operations of all rounds with their functions. -/
def operations : List (Auxiliary × Operation) :=
  rounds.flatMap fun round => round.2.map fun operation => (round.1, operation)

theorem foldl_rounds (table : Nat → Word) (x : Fin 16 → Word) (registers : Registers) :
    rounds.foldl (runRound table x) registers =
      operations.foldl (fun registers step => step.2.apply table x step.1 registers)
        registers := by
  rw [operations, List.foldl_flatMap]
  simp only [List.foldl_map]
  rfl

end FunDB.Md5
