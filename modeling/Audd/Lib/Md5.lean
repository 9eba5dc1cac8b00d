import Mathlib.Data.List.Basic
import Mathlib.Tactic.IntervalCases

/-! MD5 as RFC 1321 gives it: the message is padded to whole blocks, its length last, and each
block is mixed into four words by four rounds of sixteen steps.  A step's function, word, shift and
constant are given by its number alone. -/

namespace Md5

abbrev Byte := BitVec 8

abbrev Word := BitVec 32

structure State where
  a : Word
  b : Word
  c : Word
  d : Word
deriving DecidableEq

def initial : State := ⟨0x67452301, 0xefcdab89, 0x98badcfe, 0x10325476⟩

/-! ### A block -/

/-- The functions F, G, H and I of the four rounds. -/
def mix (round : Nat) (x y z : Word) : Word :=
  match round with
  | 0 => (x &&& y) ||| (~~~x &&& z)
  | 1 => (x &&& z) ||| (y &&& ~~~z)
  | 2 => x ^^^ y ^^^ z
  | _ => y ^^^ (x ||| ~~~z)

/-- The constant of step `i` from 0: the first 32 bits of the fraction of `|sin (i + 1)|`. -/
def table : List Word :=
  [0xd76aa478, 0xe8c7b756, 0x242070db, 0xc1bdceee,
    0xf57c0faf, 0x4787c62a, 0xa8304613, 0xfd469501,
    0x698098d8, 0x8b44f7af, 0xffff5bb1, 0x895cd7be,
    0x6b901122, 0xfd987193, 0xa679438e, 0x49b40821,
    0xf61e2562, 0xc040b340, 0x265e5a51, 0xe9b6c7aa,
    0xd62f105d, 0x02441453, 0xd8a1e681, 0xe7d3fbc8,
    0x21e1cde6, 0xc33707d6, 0xf4d50d87, 0x455a14ed,
    0xa9e3e905, 0xfcefa3f8, 0x676f02d9, 0x8d2a4c8a,
    0xfffa3942, 0x8771f681, 0x6d9d6122, 0xfde5380c,
    0xa4beea44, 0x4bdecfa9, 0xf6bb4b60, 0xbebfbc70,
    0x289b7ec6, 0xeaa127fa, 0xd4ef3085, 0x04881d05,
    0xd9d4d039, 0xe6db99e5, 0x1fa27cf8, 0xc4ac5665,
    0xf4292244, 0x432aff97, 0xab9423a7, 0xfc93a039,
    0x655b59c3, 0x8f0ccc92, 0xffeff47d, 0x85845dd1,
    0x6fa87e4f, 0xfe2ce6e0, 0xa3014314, 0x4e0811a1,
    0xf7537e82, 0xbd3af235, 0x2ad7d2bb, 0xeb86d391]

/-- Which word of the block a step reads. -/
def index (i : Nat) : Nat :=
  match i / 16 with
  | 0 => i
  | 1 => (5 * i + 1) % 16
  | 2 => (3 * i + 5) % 16
  | _ => 7 * i % 16

def shift (i : Nat) : Nat :=
  (match i / 16 with
  | 0 => [7, 12, 17, 22]
  | 1 => [5, 9, 14, 20]
  | 2 => [4, 11, 16, 23]
  | _ => [6, 10, 15, 21]).getD (i % 4) 0

/-- Word `k` of a block, its low-order byte first. -/
def word (block : List Byte) (k : Nat) : Word :=
  block.getD (4 * k + 3) 0 ++ block.getD (4 * k + 2) 0 ++ block.getD (4 * k + 1) 0 ++
    block.getD (4 * k) 0

/-- Step `i`: the words move on by one place, and the one that leaves comes back mixed. -/
def step (block : List Byte) (s : State) (i : Nat) : State where
  a := s.d
  b := s.b + (s.a + mix (i / 16) s.b s.c s.d + word block (index i) +
    table.getD i 0).rotateLeft (shift i)
  c := s.b
  d := s.c

def compress (s : State) (block : List Byte) : State :=
  let t := (List.range 64).foldl (step block) s
  ⟨s.a + t.a, s.b + t.b, s.c + t.c, s.d + t.d⟩

/-! ### A message -/

/-- The first `n` blocks of `m` mixed in. -/
def absorb : Nat → State → List Byte → State
  | 0, s, _ => s
  | n + 1, s, m => absorb n (compress s (m.take 64)) (m.drop 64)

/-- A one bit, and zeros up to 8 bytes short of a whole block. -/
def padding (length : Nat) : List Byte := 0x80 :: List.replicate ((119 - length % 64) % 64) 0

/-- The length in bits modulo `2 ^ 64`, its low-order byte first. -/
def lengthBytes (length : Nat) : List Byte :=
  (List.range 8).map fun i => BitVec.ofNat 8 (8 * length / 256 ^ i)

def pad (m : List Byte) : List Byte := m ++ padding m.length ++ lengthBytes m.length

def wordBytes (w : Word) : List Byte := (List.range 4).map fun i => (w >>> (8 * i)).setWidth 8

def hash (m : List Byte) : List Byte :=
  let s := absorb ((pad m).length / 64) initial (pad m)
  wordBytes s.a ++ wordBytes s.b ++ wordBytes s.c ++ wordBytes s.d

/-- Lower-case hexadecimal digits, the high-order one of each byte first. -/
def hex (bytes : List Byte) : List Char :=
  bytes.flatMap fun b => [Nat.digitChar (b.toNat / 16), Nat.digitChar (b.toNat % 16)]

/-! ### Blocks one after the other -/

theorem index_lt {i : Nat} (h : i < 64) : index i < 16 := by
  rw [index]
  split <;> omega

theorem shift_lt (i : Nat) : shift i < 32 := by
  have h : i % 4 < 4 := Nat.mod_lt i (by omega)
  rw [shift]
  generalize i % 4 = k at h
  split <;> interval_cases k <;> decide

theorem word_take (block : List Byte) {k : Nat} (h : k < 16) :
    word (block.take 64) k = word block k := by
  have hbyte (j : Nat) (hj : j < 64) : (block.take 64).getD j 0 = block.getD j 0 := by
    simp [List.getD_eq_getElem?_getD, hj]
  rw [word, word, hbyte _ (by omega), hbyte _ (by omega), hbyte _ (by omega), hbyte _ (by omega)]

/-- Only the first 64 bytes are read. -/
theorem compress_take (s : State) (block : List Byte) :
    compress s (block.take 64) = compress s block := by
  have hsteps (n : Nat) (hn : n ≤ 64) : (List.range n).foldl (step (block.take 64)) s =
      (List.range n).foldl (step block) s := by
    induction n with
    | zero => rfl
    | succ n ih =>
      rw [List.range_succ, List.foldl_append, List.foldl_append, ih (by omega)]
      have hword := word_take block (index_lt (i := n) (by omega))
      simp only [List.foldl_cons, List.foldl_nil, step, hword]
  rw [compress, compress, hsteps 64 (Nat.le_refl 64)]

@[simp] theorem absorb_zero (s : State) (m : List Byte) : absorb 0 s m = s := rfl

theorem absorb_add (n k : Nat) (s : State) (m : List Byte) :
    absorb (n + k) s m = absorb k (absorb n s m) (m.drop (64 * n)) := by
  induction n generalizing s m with
  | zero => simp
  | succ n ih =>
    rw [show n + 1 + k = n + k + 1 by omega, absorb, ih, absorb, List.drop_drop]
    congr 2
    omega

theorem absorb_succ (n : Nat) (s : State) (m : List Byte) :
    absorb (n + 1) s m = compress (absorb n s m) ((m.drop (64 * n)).take 64) :=
  absorb_add n 1 s m

/-- Only the blocks themselves count. -/
theorem absorb_append {n : Nat} {m : List Byte} (h : 64 * n ≤ m.length) (s : State)
    (more : List Byte) : absorb n s (m ++ more) = absorb n s m := by
  induction n generalizing s m with
  | zero => rfl
  | succ n ih =>
    rw [absorb, absorb, List.take_append_of_le_length (by omega),
      List.drop_append_of_le_length (by omega), ih (by rw [List.length_drop]; omega)]

/-! ### Lengths -/

theorem length_padding (length : Nat) :
    (padding length).length = 1 + (119 - length % 64) % 64 := by
  simp [padding, Nat.add_comm]

@[simp] theorem length_lengthBytes (length : Nat) : (lengthBytes length).length = 8 := by
  simp [lengthBytes]

@[simp] theorem length_hash (m : List Byte) : (hash m).length = 16 := by
  simp [hash, wordBytes]

theorem length_hex (bytes : List Byte) : (hex bytes).length = 2 * bytes.length := by
  induction bytes with
  | nil => rfl
  | cons b bytes ih =>
    show (hex bytes).length + 1 + 1 = 2 * (bytes.length + 1)
    omega

/-- The digest of `abc`. -/
example : hex (hash [0x61, 0x62, 0x63]) = "900150983cd24fb0d6963f7d28e17f72".toList := by
  decide +kernel

end Md5
