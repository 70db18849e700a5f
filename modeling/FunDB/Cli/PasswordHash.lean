import FunDB.Foundation.Md5
import FunDB.Foundation.Sines
import FunDB.Foundation.Text
import FunDB.Foundation.Utf8
import Mathlib.Data.List.FinRange

/-! # The MD5 of the command line

A digest without an external library, for the password of a login. One loop does all four
rounds: it turns the registers instead of naming them, and computes which word of the block
comes next. -/

namespace FunDB.Cli

open Framing Md5 Utf8

def perRoundShifts : Vector Nat 64 :=
  #v[7, 12, 17, 22, 7, 12, 17, 22, 7, 12, 17, 22, 7, 12, 17, 22,
    5, 9, 14, 20, 5, 9, 14, 20, 5, 9, 14, 20, 5, 9, 14, 20,
    4, 11, 16, 23, 4, 11, 16, 23, 4, 11, 16, 23, 4, 11, 16, 23,
    6, 10, 15, 21, 6, 10, 15, 21, 6, 10, 15, 21, 6, 10, 15, 21]

/-- The table of sines. -/
def precomputedTable : Vector Word 64 :=
  #v[0xd76aa478, 0xe8c7b756, 0x242070db, 0xc1bdceee, 0xf57c0faf, 0x4787c62a, 0xa8304613,
    0xfd469501, 0x698098d8, 0x8b44f7af, 0xffff5bb1, 0x895cd7be, 0x6b901122, 0xfd987193,
    0xa679438e, 0x49b40821, 0xf61e2562, 0xc040b340, 0x265e5a51, 0xe9b6c7aa, 0xd62f105d,
    0x02441453, 0xd8a1e681, 0xe7d3fbc8, 0x21e1cde6, 0xc33707d6, 0xf4d50d87, 0x455a14ed,
    0xa9e3e905, 0xfcefa3f8, 0x676f02d9, 0x8d2a4c8a, 0xfffa3942, 0x8771f681, 0x6d9d6122,
    0xfde5380c, 0xa4beea44, 0x4bdecfa9, 0xf6bb4b60, 0xbebfbc70, 0x289b7ec6, 0xeaa127fa,
    0xd4ef3085, 0x04881d05, 0xd9d4d039, 0xe6db99e5, 0x1fa27cf8, 0xc4ac5665, 0xf4292244,
    0x432aff97, 0xab9423a7, 0xfc93a039, 0x655b59c3, 0x8f0ccc92, 0xffeff47d, 0x85845dd1,
    0x6fa87e4f, 0xfe2ce6e0, 0xa3014314, 0x4e0811a1, 0xf7537e82, 0xbd3af235, 0x2ad7d2bb,
    0xeb86d391]

/-- Zeros until there are 56 bytes modulo 64. -/
def pushZeros (padded : List UInt8) : List UInt8 :=
  if padded.length % 64 ≠ 56 then pushZeros (padded ++ [0]) else padded
termination_by (120 - padded.length % 64) % 64
decreasing_by
  rw [List.length_append, List.length_singleton]
  omega

/-- Parts of some length, in order. The last may be shorter. -/
def chunks (size : Nat) : List UInt8 → List (List UInt8)
  | [] => []
  | byte :: bytes => (byte :: bytes).take size :: chunks size (bytes.drop (size - 1))
termination_by bytes => bytes.length

/-- The mixing function and the position of the word in step `i`. -/
def selectWord (b c d : Word) (i : Fin 64) : Word × Fin 16 :=
  if small : i.val < 16 then ((b &&& c) ||| (~~~b &&& d), ⟨i.val, small⟩)
  else if i.val < 32 then
    ((d &&& b) ||| (~~~d &&& c), ⟨(5 * i.val + 1) % 16, Nat.mod_lt _ (Nat.succ_pos 15)⟩)
  else if i.val < 48 then
    (b ^^^ c ^^^ d, ⟨(3 * i.val + 5) % 16, Nat.mod_lt _ (Nat.succ_pos 15)⟩)
  else (c ^^^ (b ||| ~~~d), ⟨7 * i.val % 16, Nat.mod_lt _ (Nat.succ_pos 15)⟩)

def md5Step (m : Vector Word 16) (registers : Registers) (i : Fin 64) : Registers :=
  let ⟨a, b, c, d⟩ := registers
  let (f, g) := selectWord b c d i
  ⟨d, b + (a + f + precomputedTable[i] + m[g]).rotateLeft perRoundShifts[i], b, c⟩

def chunkWords (chunk : List UInt8) (whole : chunk.length = 64) : Vector Word 16 :=
  .ofFn fun j => BitVec.ofNat 32
    (leValue [chunk[4 * j.val], chunk[4 * j.val + 1], chunk[4 * j.val + 2], chunk[4 * j.val + 3]])

/-- The words of a shorter chunk would be read past its end. -/
def processChunk (registers : Registers) (chunk : List UInt8) : Option Registers :=
  if whole : chunk.length = 64 then
    let after := (List.finRange 64).foldl (md5Step (chunkWords chunk whole)) registers
    some ⟨registers.a + after.a, registers.b + after.b, registers.c + after.c,
      registers.d + after.d⟩
  else none

/-- The digest, if no access panics. -/
def simpleMd5 (input : List UInt8) : Option (List UInt8) := do
  let msgLen := input.length % 2 ^ 64
  let bitLen := msgLen * 8 % 2 ^ 64
  let padded := pushZeros (input ++ [0x80]) ++ leBytes 8 bitLen
  let after ← (chunks 64 padded).foldlM processChunk
    ⟨0x67452301, 0xefcdab89, 0x98badcfe, 0x10325476⟩
  return leBytes 4 after.a.toNat ++ leBytes 4 after.b.toNat ++ leBytes 4 after.c.toNat ++
    leBytes 4 after.d.toNat

def hexEncode (bytes : List UInt8) : String :=
  .ofList (Text.hexDigits bytes)

def md5Password (user password : String) (salt : List UInt8) : Option String := do
  let innerHash ← simpleMd5 (asBytes (password ++ user))
  let salted := asBytes (hexEncode innerHash) ++ salt
  let outerHash ← simpleMd5 salted
  return "md5" ++ hexEncode outerHash

/-! ## The table -/

theorem encloses_precomputedTable (i : Fin 64) :
    Sines.Encloses (i + 1) precomputedTable[i].toNat := by
  have all : ∀ i : Fin 64, Sines.Encloses (i + 1) precomputedTable[i].toNat := by
    decide +kernel
  exact all i

theorem precomputedTable_eq (i : Fin 64) : precomputedTable[i] = sineTable (i + 1) := by
  have floor := Sines.floor_abs_sin (encloses_precomputedTable i)
  have whole : (2 : ℝ) ^ 32 = 4294967296 := by norm_num
  rw [sineTable, ← whole, floor, BitVec.ofNat_toNat, BitVec.setWidth_eq]

/-! ## Steps -/

/-- The registers as the loop has them when an operation of some order is next. -/
def turned : Order → Registers → Registers
  | .abcd, ⟨a, b, c, d⟩ => ⟨a, b, c, d⟩
  | .dabc, ⟨a, b, c, d⟩ => ⟨d, a, b, c⟩
  | .cdab, ⟨a, b, c, d⟩ => ⟨c, d, a, b⟩
  | .bcda, ⟨a, b, c, d⟩ => ⟨b, c, d, a⟩

def nextOrder : Order → Order
  | .abcd => .dabc
  | .dabc => .cdab
  | .cdab => .bcda
  | .bcda => .abcd

def orderOf : Nat → Order
  | 0 => .abcd
  | i + 1 => nextOrder (orderOf i)

theorem turned_abcd (registers : Registers) : turned .abcd registers = registers := rfl

theorem orderOf_64 : orderOf 64 = .abcd := by decide

def auxiliaryOf (i : Fin 64) : Auxiliary :=
  if i.val < 16 then .f else if i.val < 32 then .g else if i.val < 48 then .h else .i

/-- The position of the word does not depend on the registers. -/
def wordOf (i : Fin 64) : Fin 16 := (selectWord 0 0 0 i).2

theorem selectWord_eq (b c d : Word) (i : Fin 64) :
    selectWord b c d i = ((auxiliaryOf i).apply b c d, wordOf i) := by
  unfold wordOf selectWord auxiliaryOf
  split
  · rfl
  · split
    · rw [Auxiliary.apply, BitVec.and_comm d b, BitVec.and_comm (~~~d) c]
    · split <;> rfl

/-- The operation that a step performs. -/
def operationOf (i : Fin 64) : Operation :=
  ⟨orderOf i, wordOf i, perRoundShifts[i], i + 1⟩

theorem operations_eq :
    operations = (List.finRange 64).map fun i => (auxiliaryOf i, operationOf i) := by
  decide +kernel

theorem md5Step_eq (m : Vector Word 16) (a b c d : Word) (i : Fin 64) :
    md5Step m ⟨a, b, c, d⟩ i =
      ⟨d, (operationOf i).value sineTable (fun j => m[j]) (auxiliaryOf i) a b c d, b, c⟩ := by
  have swap (first second third : Word) : first + second + third = first + third + second := by
    rw [BitVec.add_assoc, BitVec.add_comm second, BitVec.add_assoc]
  simp only [md5Step, selectWord_eq, Operation.value, operationOf]
  rw [swap _ precomputedTable[i], precomputedTable_eq]

/-- A step does to the turned registers what its operation does to the registers. -/
theorem md5Step_turned (m : Vector Word 16) (registers : Registers) (i : Fin 64) :
    md5Step m (turned (orderOf i) registers) i =
      turned (orderOf (i + 1))
        ((operationOf i).apply sineTable (fun j => m[j]) (auxiliaryOf i) registers) := by
  have order : (operationOf i).order = orderOf i := rfl
  rw [orderOf, Operation.apply.eq_def, order]
  cases orderOf i <;> exact md5Step_eq m _ _ _ _ i

theorem foldl_md5Step (m : Vector Word 16) (registers : Registers) {count : Nat}
    (within : count ≤ 64) :
    ((List.finRange 64).take count).foldl (md5Step m) registers =
      turned (orderOf count) (((List.finRange 64).take count).foldl
        (fun registers i =>
          (operationOf i).apply sineTable (fun j => m[j]) (auxiliaryOf i) registers)
        registers) := by
  induction count with
  | zero => rfl
  | succ count induction =>
      have inside : count < (List.finRange 64).length := by
        rw [List.length_finRange]
        omega
      rw [List.take_succ_eq_append_getElem inside, List.foldl_append, List.foldl_append,
        induction (Nat.le_of_succ_le within), List.getElem_finRange]
      exact md5Step_turned m _ ⟨count, within⟩

theorem foldl_md5Step_all (m : Vector Word 16) (registers : Registers) :
    (List.finRange 64).foldl (md5Step m) registers =
      rounds.foldl (runRound sineTable fun j => m[j]) registers := by
  have loop := foldl_md5Step m registers (Nat.le_refl 64)
  rw [List.take_of_length_le (Nat.le_of_eq List.length_finRange)] at loop
  rw [loop, orderOf_64, turned_abcd, foldl_rounds, operations_eq, List.foldl_map]

/-! ## Padding -/

theorem pushZeros_eq (padded : List UInt8) :
    pushZeros padded = padded ++ List.replicate ((120 - padded.length % 64) % 64) 0 := by
  fun_induction pushZeros padded with
  | case1 padded short induction =>
      have zeros : (120 - padded.length % 64) % 64 =
          (120 - (padded ++ [0]).length % 64) % 64 + 1 := by
        rw [List.length_append, List.length_singleton]
        omega
      rw [induction, zeros, List.replicate_succ, List.append_assoc]
      rfl
  | case2 padded full =>
      have zeros : (120 - padded.length % 64) % 64 = 0 := by omega
      rw [zeros, List.replicate_zero, List.append_nil]

theorem pushZeros_append_eq (input : List UInt8) :
    pushZeros (input ++ [0x80]) ++ leBytes 8 (input.length % 2 ^ 64 * 8 % 2 ^ 64) =
      padded input := by
  have zeros : (120 - (input ++ [0x80]).length % 64) % 64 = paddingZeros input.length := by
    rw [paddingZeros, List.length_append, List.length_singleton]
    omega
  have bits : leBytes 8 (input.length % 2 ^ 64 * 8 % 2 ^ 64) = leBytes 8 (8 * input.length) := by
    rw [Nat.mod_mul_mod, Nat.mul_comm]
    exact leBytes_mod 8 _
  rw [pushZeros_eq, zeros, bits, padded, List.append_assoc]
  simp only [List.append_assoc, List.cons_append, List.nil_append]

/-! ## Chunks -/

theorem chunks_eq {size : Nat} (positive : 0 < size) {bytes : List UInt8} {count : Nat}
    (whole : bytes.length = count * size) :
    chunks size bytes =
      (List.range count).map fun block => (bytes.drop (size * block)).take size := by
  induction count generalizing bytes with
  | zero =>
      rw [Nat.zero_mul, List.length_eq_zero_iff] at whole
      rw [whole, chunks]
      rfl
  | succ count induction =>
      have long : (count + 1) * size = count * size + size := Nat.succ_mul _ _
      cases bytes with
      | nil =>
          rw [List.length_nil] at whole
          omega
      | cons byte bytes =>
          have behind : bytes.drop (size - 1) = (byte :: bytes).drop size := by
            rw [List.drop_cons positive]
          have rest : ((byte :: bytes).drop size).length = count * size := by
            rw [List.length_drop]
            omega
          rw [chunks, behind, induction rest, List.range_succ_eq_map, List.map_cons, List.map_map]
          simp only [List.drop_drop, Function.comp_def, Nat.mul_succ, Nat.mul_zero, List.drop_zero,
            Nat.add_comm size]

theorem take_four_drop {bytes : List UInt8} {position : Nat}
    (inside : position + 3 < bytes.length) :
    (bytes.drop position).take 4 =
      [bytes[position], bytes[position + 1], bytes[position + 2], bytes[position + 3]] := by
  rw [List.drop_eq_getElem_cons (by omega), List.drop_eq_getElem_cons (by omega),
    List.drop_eq_getElem_cons (by omega), List.drop_eq_getElem_cons inside]
  rfl

/-- The words of a chunk are those of the message. -/
theorem chunkWords_eq {bytes : List UInt8} {block : Nat}
    (whole : ((bytes.drop (64 * block)).take 64).length = 64) (j : Fin 16) :
    (chunkWords ((bytes.drop (64 * block)).take 64) whole)[j] = word bytes (16 * block + j) := by
  have inside : 64 * block + 64 ≤ bytes.length := by
    rw [List.length_take, List.length_drop] at whole
    omega
  have position : 4 * (16 * block + j.val) = 64 * block + 4 * j.val := by omega
  rw [word, position, take_four_drop (by omega)]
  simp only [chunkWords, Fin.getElem_fin, Vector.getElem_ofFn, List.getElem_take,
    List.getElem_drop, Nat.add_assoc]

theorem processChunk_eq {bytes : List UInt8} {block : Nat}
    (inside : 64 * block + 64 ≤ bytes.length) (registers : Registers) :
    processChunk registers ((bytes.drop (64 * block)).take 64) =
      some (processBlock sineTable (fun j => word bytes (16 * block + j)) registers) := by
  have whole : ((bytes.drop (64 * block)).take 64).length = 64 := by
    rw [List.length_take, List.length_drop]
    omega
  have words : (fun j : Fin 16 => (chunkWords ((bytes.drop (64 * block)).take 64) whole)[j]) =
      fun j : Fin 16 => word bytes (16 * block + j) :=
    funext fun j => chunkWords_eq whole j
  rw [processChunk, dif_pos whole, foldl_md5Step_all, words]
  rfl

/-! ## The digest -/

theorem foldlM_processChunk {bytes : List UInt8} {count : Nat} (start : Registers)
    (inside : count * 64 ≤ bytes.length) :
    ((List.range count).map fun block => (bytes.drop (64 * block)).take 64).foldlM
        processChunk start =
      some ((List.range count).foldl (fun registers block =>
        processBlock sineTable (fun j => word bytes (16 * block + j)) registers) start) := by
  induction count with
  | zero => rfl
  | succ count induction =>
      rw [List.range_succ, List.map_append, List.foldlM_append, induction (by omega),
        List.foldl_append]
      exact congrArg (· >>= pure) (processChunk_eq (by omega) _)

theorem simpleMd5_eq (input : List UInt8) :
    simpleMd5 input = some (digestWith sineTable input) := by
  have blocks : (padded input).length = (padded input).length / 64 * 64 := by
    have whole := length_padded_mod input
    omega
  rw [simpleMd5, pushZeros_append_eq, chunks_eq (by omega) blocks]
  rw [foldlM_processChunk _ (Nat.le_of_eq blocks.symm)]
  rfl

/-- The digest is that of RFC 1321, for every message, and no access panics. -/
theorem simpleMd5_eq_digest (input : List UInt8) : simpleMd5 input = some (digest input) :=
  simpleMd5_eq input

/-- A password is hashed with the user, and the hexadecimal digits of that with the salt. -/
theorem md5Password_eq (user password : String) (salt : List UInt8) :
    md5Password user password salt =
      some ("md5" ++ hexEncode
        (digest (asBytes (hexEncode (digest (asBytes (password ++ user)))) ++ salt))) := by
  rw [md5Password, simpleMd5_eq]
  change (simpleMd5 _ >>= _) = _
  rw [simpleMd5_eq]
  rfl

/-- The digest of the text `abc`. -/
example : digestWith (fun i => (precomputedTable[i - 1]?).getD 0) [0x61, 0x62, 0x63] =
    [0x90, 0x01, 0x50, 0x98, 0x3c, 0xd2, 0x4f, 0xb0,
      0xd6, 0x96, 0x3f, 0x7d, 0x28, 0xe1, 0x7f, 0x72] := by
  decide +kernel

end FunDB.Cli
