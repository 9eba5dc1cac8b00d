import Audd.CLib
import Audd.Lib.Md5

/-! `audd_md5.c`.  The transform is the unrolled list of its steps, and the functions that buffer a
message keep the 32-bit counters that the code keeps.  The block loop may fail to end, so it has
fuel. -/

namespace Audd

open Md5 (Byte Word)

/-! ### The transform -/

inductive Md5Macro
  | ff
  | gg
  | hh
  | ii
deriving DecidableEq

-- `F`, `G`, `H` and `I_`.
def Md5Macro.mix : Md5Macro → Word → Word → Word → Word
  | ff, x, y, z => (x &&& y) ||| (~~~x &&& z)
  | gg, x, y, z => (x &&& z) ||| (y &&& ~~~z)
  | hh, x, y, z => x ^^^ y ^^^ z
  | ii, x, y, z => y ^^^ (x ||| ~~~z)

def rotl (x : Word) (n : Nat) : Word := (x <<< n) ||| (x >>> (32 - n))

/-- The local variables of the transform. -/
inductive Md5Var
  | a
  | b
  | c
  | d
deriving DecidableEq

def Md5Var.get (s : Md5.State) : Md5Var → Word
  | a => s.a
  | b => s.b
  | c => s.c
  | d => s.d

def Md5Var.set (s : Md5.State) (w : Word) : Md5Var → Md5.State
  | a => { s with a := w }
  | b => { s with b := w }
  | c => { s with c := w }
  | d => { s with d := w }

/-- One line of the transform, such as `FF(d,a,b,c,x[1],12,0xe8c7b756)`. -/
structure Md5Op where
  fn : Md5Macro
  a : Md5Var
  b : Md5Var
  c : Md5Var
  d : Md5Var
  x : Nat
  s : Nat
  ac : Word
deriving DecidableEq

def Md5Op.run (x : List Word) (s : Md5.State) (op : Md5Op) : Md5.State :=
  let a := op.a.get s + (op.fn.mix (op.b.get s) (op.c.get s) (op.d.get s) + x.getD op.x 0 + op.ac)
  op.a.set s (rotl a op.s + op.b.get s)

def md5Ops : List Md5Op :=
  [⟨.ff, .a, .b, .c, .d, 0, 7, 0xd76aa478⟩, ⟨.ff, .d, .a, .b, .c, 1, 12, 0xe8c7b756⟩,
    ⟨.ff, .c, .d, .a, .b, 2, 17, 0x242070db⟩, ⟨.ff, .b, .c, .d, .a, 3, 22, 0xc1bdceee⟩,
    ⟨.ff, .a, .b, .c, .d, 4, 7, 0xf57c0faf⟩, ⟨.ff, .d, .a, .b, .c, 5, 12, 0x4787c62a⟩,
    ⟨.ff, .c, .d, .a, .b, 6, 17, 0xa8304613⟩, ⟨.ff, .b, .c, .d, .a, 7, 22, 0xfd469501⟩,
    ⟨.ff, .a, .b, .c, .d, 8, 7, 0x698098d8⟩, ⟨.ff, .d, .a, .b, .c, 9, 12, 0x8b44f7af⟩,
    ⟨.ff, .c, .d, .a, .b, 10, 17, 0xffff5bb1⟩, ⟨.ff, .b, .c, .d, .a, 11, 22, 0x895cd7be⟩,
    ⟨.ff, .a, .b, .c, .d, 12, 7, 0x6b901122⟩, ⟨.ff, .d, .a, .b, .c, 13, 12, 0xfd987193⟩,
    ⟨.ff, .c, .d, .a, .b, 14, 17, 0xa679438e⟩, ⟨.ff, .b, .c, .d, .a, 15, 22, 0x49b40821⟩,
    ⟨.gg, .a, .b, .c, .d, 1, 5, 0xf61e2562⟩, ⟨.gg, .d, .a, .b, .c, 6, 9, 0xc040b340⟩,
    ⟨.gg, .c, .d, .a, .b, 11, 14, 0x265e5a51⟩, ⟨.gg, .b, .c, .d, .a, 0, 20, 0xe9b6c7aa⟩,
    ⟨.gg, .a, .b, .c, .d, 5, 5, 0xd62f105d⟩, ⟨.gg, .d, .a, .b, .c, 10, 9, 0x02441453⟩,
    ⟨.gg, .c, .d, .a, .b, 15, 14, 0xd8a1e681⟩, ⟨.gg, .b, .c, .d, .a, 4, 20, 0xe7d3fbc8⟩,
    ⟨.gg, .a, .b, .c, .d, 9, 5, 0x21e1cde6⟩, ⟨.gg, .d, .a, .b, .c, 14, 9, 0xc33707d6⟩,
    ⟨.gg, .c, .d, .a, .b, 3, 14, 0xf4d50d87⟩, ⟨.gg, .b, .c, .d, .a, 8, 20, 0x455a14ed⟩,
    ⟨.gg, .a, .b, .c, .d, 13, 5, 0xa9e3e905⟩, ⟨.gg, .d, .a, .b, .c, 2, 9, 0xfcefa3f8⟩,
    ⟨.gg, .c, .d, .a, .b, 7, 14, 0x676f02d9⟩, ⟨.gg, .b, .c, .d, .a, 12, 20, 0x8d2a4c8a⟩,
    ⟨.hh, .a, .b, .c, .d, 5, 4, 0xfffa3942⟩, ⟨.hh, .d, .a, .b, .c, 8, 11, 0x8771f681⟩,
    ⟨.hh, .c, .d, .a, .b, 11, 16, 0x6d9d6122⟩, ⟨.hh, .b, .c, .d, .a, 14, 23, 0xfde5380c⟩,
    ⟨.hh, .a, .b, .c, .d, 1, 4, 0xa4beea44⟩, ⟨.hh, .d, .a, .b, .c, 4, 11, 0x4bdecfa9⟩,
    ⟨.hh, .c, .d, .a, .b, 7, 16, 0xf6bb4b60⟩, ⟨.hh, .b, .c, .d, .a, 10, 23, 0xbebfbc70⟩,
    ⟨.hh, .a, .b, .c, .d, 13, 4, 0x289b7ec6⟩, ⟨.hh, .d, .a, .b, .c, 0, 11, 0xeaa127fa⟩,
    ⟨.hh, .c, .d, .a, .b, 3, 16, 0xd4ef3085⟩, ⟨.hh, .b, .c, .d, .a, 6, 23, 0x04881d05⟩,
    ⟨.hh, .a, .b, .c, .d, 9, 4, 0xd9d4d039⟩, ⟨.hh, .d, .a, .b, .c, 12, 11, 0xe6db99e5⟩,
    ⟨.hh, .c, .d, .a, .b, 15, 16, 0x1fa27cf8⟩, ⟨.hh, .b, .c, .d, .a, 2, 23, 0xc4ac5665⟩,
    ⟨.ii, .a, .b, .c, .d, 0, 6, 0xf4292244⟩, ⟨.ii, .d, .a, .b, .c, 7, 10, 0x432aff97⟩,
    ⟨.ii, .c, .d, .a, .b, 14, 15, 0xab9423a7⟩, ⟨.ii, .b, .c, .d, .a, 5, 21, 0xfc93a039⟩,
    ⟨.ii, .a, .b, .c, .d, 12, 6, 0x655b59c3⟩, ⟨.ii, .d, .a, .b, .c, 3, 10, 0x8f0ccc92⟩,
    ⟨.ii, .c, .d, .a, .b, 10, 15, 0xffeff47d⟩, ⟨.ii, .b, .c, .d, .a, 1, 21, 0x85845dd1⟩,
    ⟨.ii, .a, .b, .c, .d, 8, 6, 0x6fa87e4f⟩, ⟨.ii, .d, .a, .b, .c, 15, 10, 0xfe2ce6e0⟩,
    ⟨.ii, .c, .d, .a, .b, 6, 15, 0xa3014314⟩, ⟨.ii, .b, .c, .d, .a, 13, 21, 0x4e0811a1⟩,
    ⟨.ii, .a, .b, .c, .d, 4, 6, 0xf7537e82⟩, ⟨.ii, .d, .a, .b, .c, 11, 10, 0xbd3af235⟩,
    ⟨.ii, .c, .d, .a, .b, 2, 15, 0x2ad7d2bb⟩, ⟨.ii, .b, .c, .d, .a, 9, 21, 0xeb86d391⟩]

-- `x[i]`.
def md5Load (block : List Byte) (i : Nat) : Word :=
  let byte (k : Nat) : Word := (block.getD k 0).setWidth 32
  byte (i * 4) ||| byte (i * 4 + 1) <<< 8 ||| byte (i * 4 + 2) <<< 16 ||| byte (i * 4 + 3) <<< 24

def md5Transform (state : Md5.State) (block : List Byte) : Md5.State :=
  let t := md5Ops.foldl (Md5Op.run ((List.range 16).map (md5Load block))) state
  ⟨state.a + t.a, state.b + t.b, state.c + t.c, state.d + t.d⟩

/-! ### The buffering functions -/

structure Md5Ctx where
  state : Md5.State
  count0 : Word
  count1 : Word
  buffer : List Byte

/-- `md5_init`, on a context whose buffer holds whatever the stack held. -/
def md5Init (stale : Vector Byte 64) : Md5Ctx where
  state := ⟨0x67452301, 0xefcdab89, 0x98badcfe, 0x10325476⟩
  count0 := 0
  count1 := 0
  buffer := stale.toList

-- `memcpy(&buffer[at], bytes, ..)`.
def overwrite (buffer : List Byte) (pos : Nat) (bytes : List Byte) : List Byte :=
  buffer.take pos ++ bytes ++ buffer.drop (pos + bytes.length)

/-- `for (; i + 63 < len; i += 64)`, where `i + 63` wraps: the last `i` and the state. -/
def md5Blocks (input : List Byte) : Nat → Word → Md5.State → Option (Word × Md5.State)
  | 0, _, _ => none
  | fuel + 1, i, s =>
    if (i + 63).toNat < input.length then
      md5Blocks input fuel (i + 64) (md5Transform s (input.drop i.toNat))
    else some (i, s)

def md5Update (fuel : Nat) (c : Md5Ctx) (input : List Byte) : Option Md5Ctx := do
  let len := input.length
  let idx := (c.count0 >>> 3) &&& 0x3f
  let bits : Word := BitVec.ofNat 32 (len <<< 3)
  let count0 := c.count0 + bits
  let count1 := (if count0 < bits then c.count1 + 1 else c.count1) + BitVec.ofNat 32 (len >>> 29)
  let partlen := 64 - idx
  if len ≥ partlen.toNat then
    let filled := overwrite c.buffer idx.toNat (input.take partlen.toNat)
    let (i, state) ← md5Blocks input fuel partlen (md5Transform c.state filled)
    some ⟨state, count0, count1, overwrite filled 0 (input.drop i.toNat)⟩
  else some ⟨c.state, count0, count1, overwrite c.buffer idx.toNat input⟩

def md5Pad : List Byte := 0x80 :: List.replicate 63 0

-- Byte `i` of a word.
def byteAt (w : Word) (i : Nat) : Byte := (w >>> (i * 8)).setWidth 8

def md5Final (fuel : Nat) (c : Md5Ctx) : Option (List Byte) := do
  let bits := (List.range 4).map (byteAt c.count0) ++ (List.range 4).map (byteAt c.count1)
  let idx := (c.count0 >>> 3) &&& 0x3f
  let padlen := if idx < 56 then 56 - idx else 120 - idx
  let c ← md5Update fuel c (md5Pad.take padlen.toNat)
  let c ← md5Update fuel c bits
  some ((List.range 4).map (byteAt c.state.a) ++ (List.range 4).map (byteAt c.state.b) ++
    (List.range 4).map (byteAt c.state.c) ++ (List.range 4).map (byteAt c.state.d))

def hexDigits : CString := "0123456789abcdef"

/-- `audd_md5_hex`, without the NUL. -/
def md5Hex (fuel : Nat) (stale : Vector Byte 64) (data : List Byte) : Option CString := do
  let digest ← md5Final fuel (← md5Update fuel (md5Init stale) data)
  some (digest.flatMap fun (b : Byte) =>
    [hexDigits.getD ((b >>> 4) &&& 0xf).toNat '\x00', hexDigits.getD (b &&& 0xf).toNat '\x00'])

/-! ### The transform mixes in a block -/

/-- The macro of a round. -/
def macroOf : Nat → Md5Macro
  | 0 => .ff
  | 1 => .gg
  | 2 => .hh
  | _ => .ii

/-- Line `i` of the transform, from its number. -/
def md5Op (i : Nat) : Md5Op :=
  match i % 4 with
  | 0 => ⟨macroOf (i / 16), .a, .b, .c, .d, Md5.index i, Md5.shift i, Md5.table.getD i 0⟩
  | 1 => ⟨macroOf (i / 16), .d, .a, .b, .c, Md5.index i, Md5.shift i, Md5.table.getD i 0⟩
  | 2 => ⟨macroOf (i / 16), .c, .d, .a, .b, Md5.index i, Md5.shift i, Md5.table.getD i 0⟩
  | _ => ⟨macroOf (i / 16), .b, .c, .d, .a, Md5.index i, Md5.shift i, Md5.table.getD i 0⟩

/-- The lines follow the tables. -/
theorem md5Ops_eq : md5Ops = (List.range 64).map md5Op := by decide +kernel

theorem mix_macroOf (round : Nat) : (macroOf round).mix = Md5.mix round := by
  funext x y z
  match round with
  | 0 | 1 | 2 | _ + 3 => rfl

theorem rotl_eq (x : Word) {n : Nat} (h : n < 32) : rotl x n = x.rotateLeft n := by
  rw [rotl, BitVec.rotateLeft_def, Nat.mod_eq_of_lt h]

theorem md5Load_eq (block : List Byte) (i : Nat) : md5Load block i = Md5.word block i := by
  simp only [md5Load, Md5.word, Nat.mul_comm i 4]
  generalize block.getD (4 * i) 0 = b0
  generalize block.getD (4 * i + 1) 0 = b1
  generalize block.getD (4 * i + 2) 0 = b2
  generalize block.getD (4 * i + 3) 0 = b3
  grind

theorem md5Load_getD (block : List Byte) {k : Nat} (h : k < 16) :
    ((List.range 16).map (md5Load block)).getD k 0 = Md5.word block k := by
  simp [h, md5Load_eq]

/-- Where the variables hold the words after `i` steps: the code moves the names of its variables
on by one place, and not the words. -/
def turned (i : Nat) (s : Md5.State) : Md5.State :=
  match i % 4 with
  | 0 => s
  | 1 => ⟨s.b, s.c, s.d, s.a⟩
  | 2 => ⟨s.c, s.d, s.a, s.b⟩
  | _ => ⟨s.d, s.a, s.b, s.c⟩

theorem md5Op_run (block : List Byte) {i : Nat} (h : i < 64) (s : Md5.State) :
    (md5Op i).run ((List.range 16).map (md5Load block)) (turned i s) =
      turned (i + 1) (Md5.step block s i) := by
  have hx := md5Load_getD block (Md5.index_lt h)
  have hmixed (f x t : Word) : s.b + (s.a + f + x + t).rotateLeft (Md5.shift i) =
      rotl (s.a + (f + x + t)) (Md5.shift i) + s.b := by
    rw [rotl_eq _ (Md5.shift_lt i), BitVec.add_comm s.b, BitVec.add_assoc, BitVec.add_assoc,
      BitVec.add_assoc]
  obtain hi | hi | hi | hi : i % 4 = 0 ∨ i % 4 = 1 ∨ i % 4 = 2 ∨ i % 4 = 3 := by omega
  all_goals
    have hnext : (i + 1) % 4 = (i % 4 + 1) % 4 := by omega
    rw [hi] at hnext
    simp only [md5Op, turned, hi, hnext, Md5.step, hmixed, Md5Op.run, Md5Var.get, Md5Var.set, hx,
      mix_macroOf]

theorem md5Ops_run (block : List Byte) (s : Md5.State) {n : Nat} (h : n ≤ 64) :
    ((List.range n).map md5Op).foldl (Md5Op.run ((List.range 16).map (md5Load block))) s =
      turned n ((List.range n).foldl (Md5.step block) s) := by
  induction n with
  | zero => rfl
  | succ n ih =>
    rw [List.range_succ (n := n), List.map_append, List.foldl_append, List.foldl_append,
      ih (by omega)]
    exact md5Op_run block (by omega) _

theorem md5Transform_eq (s : Md5.State) (block : List Byte) :
    md5Transform s block = Md5.compress s block := by
  simp only [md5Transform, Md5.compress, md5Ops_eq, md5Ops_run block s (Nat.le_refl 64)]
  rfl

/-! ### The buffer holds what is left over of the message -/

theorem length_overwrite {buffer bytes : List Byte} {pos : Nat}
    (h : pos + bytes.length ≤ buffer.length) :
    (overwrite buffer pos bytes).length = buffer.length := by
  simp only [overwrite, List.length_append, List.length_take, List.length_drop]
  omega

theorem take_overwrite {buffer : List Byte} {pos : Nat} (h : pos ≤ buffer.length)
    (bytes : List Byte) :
    (overwrite buffer pos bytes).take (pos + bytes.length) = buffer.take pos ++ bytes := by
  have hlength : (buffer.take pos ++ bytes).length = pos + bytes.length := by
    rw [List.length_append, List.length_take_of_le h]
  rw [overwrite, ← hlength, List.take_left]

/-- The context after the message `m`. -/
structure Md5Ctx.Holds (c : Md5Ctx) (m : List Byte) : Prop where
  state : c.state = Md5.absorb (m.length / 64) Md5.initial m
  length : c.buffer.length = 64
  tail : c.buffer.take (m.length % 64) = m.drop (64 * (m.length / 64))
  count : c.count1.toNat * 2 ^ 32 + c.count0.toNat = 8 * m.length % 2 ^ 64

theorem md5Init_holds (stale : Vector Byte 64) : (md5Init stale).Holds [] :=
  ⟨rfl, by simp [md5Init], rfl, by simp [md5Init]⟩

theorem Md5Ctx.Holds.idx {c : Md5Ctx} {m : List Byte} (h : c.Holds m) :
    ((c.count0 >>> 3) &&& 0x3f).toNat = m.length % 64 := by
  have hcount := h.count
  have hlow : c.count0.toNat < 2 ^ 32 := c.count0.isLt
  have hmask : ((c.count0 >>> 3) &&& 0x3f).toNat = c.count0.toNat / 8 % 64 := by
    rw [BitVec.toNat_and, BitVec.toNat_ushiftRight, Nat.shiftRight_eq_div_pow]
    exact Nat.and_two_pow_sub_one_eq_mod _ 6
  omega

theorem mod_two_words (n : Nat) : n % 2 ^ 64 = n / 2 ^ 32 % 2 ^ 32 * 2 ^ 32 + n % 2 ^ 32 := by
  omega

/-- The counters together add `len` bytes. -/
theorem counters_add {low high : Word} {total : Nat} (len : Nat)
    (h : high.toNat * 2 ^ 32 + low.toNat = 8 * total % 2 ^ 64) :
    ((if low + BitVec.ofNat 32 (len <<< 3) < BitVec.ofNat 32 (len <<< 3) then high + 1 else high) +
        BitVec.ofNat 32 (len >>> 29)).toNat * 2 ^ 32 + (low + BitVec.ofNat 32 (len <<< 3)).toNat =
      8 * (total + len) % 2 ^ 64 := by
  have hlow : low.toNat < 2 ^ 32 := low.isLt
  have hbits : (BitVec.ofNat 32 (len <<< 3)).toNat = 8 * len % 2 ^ 32 := by
    rw [BitVec.toNat_ofNat, Nat.shiftLeft_eq, Nat.mul_comm]
  have hupper : (BitVec.ofNat 32 (len >>> 29)).toNat = len / 2 ^ 29 % 2 ^ 32 := by
    rw [BitVec.toNat_ofNat, Nat.shiftRight_eq_div_pow]
  have hsum : (low.toNat + 8 * len % 2 ^ 32) % 2 ^ 32 = 8 * (total + len) % 2 ^ 32 := by omega
  -- the low counter wrapped exactly when the sum is below what was added
  by_cases hcarry : low + BitVec.ofNat 32 (len <<< 3) < BitVec.ofNat 32 (len <<< 3)
  · rw [if_pos hcarry]
    rw [BitVec.lt_def, BitVec.toNat_add, hbits] at hcarry
    rw [BitVec.toNat_add, BitVec.toNat_add, BitVec.toNat_add, hbits, hupper, mod_two_words, hsum]
    congr 2
    rw [show (1 : Word).toNat = 1 from rfl]
    omega
  · rw [if_neg hcarry]
    rw [BitVec.lt_def, BitVec.toNat_add, hbits] at hcarry
    rw [BitVec.toNat_add, BitVec.toNat_add, hbits, hupper, mod_two_words, hsum]
    congr 2
    omega

theorem guard_toNat {i : Nat} (h : i + 63 < 2 ^ 32) :
    (BitVec.ofNat 32 i + 63).toNat = i + 63 := by
  rw [BitVec.toNat_add, BitVec.toNat_ofNat, show (63 : Word).toNat = 63 from rfl]
  omega

/-- Room for `i + 63` not to wrap: the loop goes through the whole blocks. -/
theorem md5Blocks_run {input : List Byte} {n i fuel : Nat} (s : Md5.State)
    (hn : (input.length - i) / 64 = n) (hroom : i + 64 * n + 63 < 2 ^ 32) (hfuel : n < fuel) :
    md5Blocks input fuel (BitVec.ofNat 32 i) s =
      some (BitVec.ofNat 32 (i + 64 * n), Md5.absorb n s (input.drop i)) := by
  induction n generalizing i fuel s with
  | zero =>
    obtain _ | fuel := fuel
    · omega
    rw [md5Blocks, guard_toNat hroom, if_neg (by omega)]
    rfl
  | succ n ih =>
    obtain _ | fuel := fuel
    · omega
    have hi : (BitVec.ofNat 32 i).toNat = i := by
      rw [BitVec.toNat_ofNat]
      omega
    have hnext : BitVec.ofNat 32 i + 64 = BitVec.ofNat 32 (i + 64) := BitVec.ofNat_add i 64 |>.symm
    rw [md5Blocks, guard_toNat (by omega), if_pos (by omega), hi, hnext,
      ih _ (by omega) (by omega) (by omega),
      md5Transform_eq, Md5.absorb, Md5.compress_take, List.drop_drop]
    congr 3
    omega

theorem Md5Ctx.Holds.partlen {c : Md5Ctx} {m : List Byte} (h : c.Holds m) :
    (64 : Word) - ((c.count0 >>> 3) &&& 0x3f) = BitVec.ofNat 32 (64 - m.length % 64) := by
  apply BitVec.eq_of_toNat_eq
  rw [BitVec.toNat_sub, h.idx, BitVec.toNat_ofNat, show (64 : Word).toNat = 64 from rfl]
  omega

theorem length_tail (m : List Byte) :
    (m.drop (64 * (m.length / 64))).length = m.length % 64 := by
  rw [List.length_drop]
  omega

/-- The block that the left-over bytes and the first new ones make. -/
theorem Md5Ctx.Holds.filled {c : Md5Ctx} {m : List Byte} (h : c.Holds m) {input : List Byte}
    (hfull : 64 - m.length % 64 ≤ input.length) :
    overwrite c.buffer (m.length % 64) (input.take (64 - m.length % 64)) =
      ((m ++ input).drop (64 * (m.length / 64))).take 64 := by
  have htail := length_tail m
  have hmod : m.length % 64 < 64 := Nat.mod_lt _ (by omega)
  have hover : c.buffer.drop (m.length % 64 + (64 - m.length % 64)) = [] :=
    List.drop_of_length_le (by rw [h.length]; omega)
  have hkept : (m.drop (64 * (m.length / 64))).take 64 = m.drop (64 * (m.length / 64)) :=
    List.take_of_length_le (by omega)
  rw [overwrite, h.tail, List.length_take_of_le hfull, hover, List.append_nil,
    List.drop_append_of_le_length (by omega), List.take_append, htail, hkept]

/-- What an update that stays within the buffer leaves. -/
theorem Md5Ctx.Holds.buffered {c : Md5Ctx} {m : List Byte} (h : c.Holds m) {input : List Byte}
    (hshort : m.length % 64 + input.length < 64) {count0 count1 : Word}
    (hcount : count1.toNat * 2 ^ 32 + count0.toNat = 8 * (m ++ input).length % 2 ^ 64) :
    (Md5Ctx.mk c.state count0 count1 (overwrite c.buffer (m.length % 64) input)).Holds
      (m ++ input) := by
  have hlength : (m ++ input).length = m.length + input.length := List.length_append
  have hblocks : (m ++ input).length / 64 = m.length / 64 := by omega
  refine ⟨?_, ?_, ?_, hcount⟩
  · rw [hblocks, Md5.absorb_append (by omega)]
    exact h.state
  · rw [length_overwrite (by rw [h.length]; omega), h.length]
  · rw [hblocks, show (m ++ input).length % 64 = m.length % 64 + input.length by omega,
      take_overwrite (by rw [h.length]; omega), h.tail, List.drop_append_of_le_length (by omega)]

/-- What an update that fills the buffer and goes through `n` more blocks leaves. -/
theorem Md5Ctx.Holds.flushed {c : Md5Ctx} {m : List Byte} (h : c.Holds m) {input : List Byte}
    (hfull : 64 - m.length % 64 ≤ input.length) {n : Nat}
    (hn : (input.length - (64 - m.length % 64)) / 64 = n) {count0 count1 : Word}
    (hcount : count1.toNat * 2 ^ 32 + count0.toNat = 8 * (m ++ input).length % 2 ^ 64) :
    (Md5Ctx.mk (Md5.absorb n (md5Transform c.state (overwrite c.buffer (m.length % 64)
        (input.take (64 - m.length % 64)))) (input.drop (64 - m.length % 64))) count0 count1
      (overwrite (overwrite c.buffer (m.length % 64) (input.take (64 - m.length % 64))) 0
        (input.drop (64 - m.length % 64 + 64 * n)))).Holds (m ++ input) := by
  have hmod : m.length % 64 < 64 := Nat.mod_lt _ (by omega)
  have hlength : (m ++ input).length = m.length + input.length := List.length_append
  have hblocks : (m ++ input).length / 64 = m.length / 64 + 1 + n := by omega
  have hdrop (k : Nat) : (m ++ input).drop (64 * (m.length / 64 + 1 + k)) =
      input.drop (64 - m.length % 64 + 64 * k) := by
    rw [List.drop_append, List.drop_of_length_le (by omega), List.nil_append]
    congr 1
    omega
  have hrest : (input.drop (64 - m.length % 64 + 64 * n)).length = (m ++ input).length % 64 := by
    rw [List.length_drop]
    omega
  rw [h.filled hfull]
  have hblock : (((m ++ input).drop (64 * (m.length / 64))).take 64).length = 64 := by
    rw [List.length_take, List.length_drop]
    omega
  refine ⟨?_, ?_, ?_, hcount⟩
  · rw [hblocks, Md5.absorb_add, Md5.absorb_succ, Md5.absorb_append (by omega), ← h.state,
      ← md5Transform_eq]
    exact congrArg (Md5.absorb n _) (hdrop 0).symm
  · rw [length_overwrite (by omega), hblock]
  · rw [← hrest]
    have htaken (b : List Byte) := take_overwrite (Nat.zero_le b.length)
      (input.drop (64 - m.length % 64 + 64 * n))
    rw [hblocks, hdrop]
    simpa using htaken _

theorem md5Update_holds {c : Md5Ctx} {m : List Byte} (h : c.Holds m) (input : List Byte)
    (hroom : m.length % 64 + input.length < 2 ^ 32) {fuel : Nat}
    (hfuel : input.length / 64 < fuel) :
    ∃ c', md5Update fuel c input = some c' ∧ c'.Holds (m ++ input) := by
  have hmod : m.length % 64 < 64 := Nat.mod_lt _ (by omega)
  have hcount := counters_add input.length h.count
  rw [← List.length_append] at hcount
  have htoNat (i : Nat) (hi : i < 2 ^ 32) : (BitVec.ofNat 32 i).toNat = i := by
    rw [BitVec.toNat_ofNat, Nat.mod_eq_of_lt hi]
  simp only [md5Update, h.partlen, h.idx, htoNat (64 - m.length % 64) (by omega)]
  by_cases hfull : 64 - m.length % 64 ≤ input.length
  · obtain ⟨n, hn⟩ : ∃ n, (input.length - (64 - m.length % 64)) / 64 = n := ⟨_, rfl⟩
    rw [if_pos hfull, md5Blocks_run _ hn (by omega) (by omega)]
    refine ⟨_, rfl, ?_⟩
    rw [htoNat _ (by omega)]
    exact h.flushed hfull hn hcount
  · rw [if_neg hfull]
    exact ⟨_, rfl, h.buffered (by omega) hcount⟩

/-! ### The digest -/

theorem padlen_eq {idx : Word} {length : Nat} (h : idx.toNat = length % 64) :
    (if idx < 56 then 56 - idx else 120 - idx).toNat = 1 + (119 - length % 64) % 64 := by
  have hlt : length % 64 < 64 := Nat.mod_lt _ (by omega)
  by_cases hshort : idx < 56
  · rw [if_pos hshort]
    rw [BitVec.lt_def, h, show (56 : Word).toNat = 56 from rfl] at hshort
    rw [BitVec.toNat_sub, h, show (56 : Word).toNat = 56 from rfl]
    omega
  · rw [if_neg hshort]
    rw [BitVec.lt_def, h, show (56 : Word).toNat = 56 from rfl] at hshort
    rw [BitVec.toNat_sub, h, show (120 : Word).toNat = 120 from rfl]
    omega

theorem take_md5Pad (length : Nat) :
    md5Pad.take (1 + (119 - length % 64) % 64) = Md5.padding length := by
  rw [Nat.add_comm, md5Pad, List.take_succ_cons, List.take_replicate, Md5.padding]
  congr 2
  omega

theorem map_byteAt (w : Word) : (List.range 4).map (byteAt w) = Md5.wordBytes w := by
  simp [byteAt, Md5.wordBytes, Nat.mul_comm]

theorem byteAt_eq {w : Word} {n i : Nat} (h : w.toNat / 256 ^ i % 256 = n % 256) :
    byteAt w i = BitVec.ofNat 8 n := by
  apply BitVec.eq_of_toNat_eq
  rw [byteAt, BitVec.toNat_setWidth, BitVec.toNat_ushiftRight, Nat.shiftRight_eq_div_pow,
    BitVec.toNat_ofNat, Nat.mul_comm, Nat.pow_mul]
  exact h

/-- The counters, low-order byte first, are the length in bits. -/
theorem Md5Ctx.Holds.bits {c : Md5Ctx} {m : List Byte} (h : c.Holds m) :
    Md5.wordBytes c.count0 ++ Md5.wordBytes c.count1 = Md5.lengthBytes m.length := by
  have hcount := h.count
  have hlow : c.count0.toNat < 2 ^ 32 := c.count0.isLt
  have hrange : List.range 8 = List.range 4 ++ (List.range 4).map (4 + ·) := by decide
  rw [Md5.lengthBytes, hrange, List.map_append, List.map_map, ← map_byteAt, ← map_byteAt]
  congr 1
  · refine List.map_congr_left fun i hi => byteAt_eq ?_
    have hi : i < 4 := List.mem_range.1 hi
    interval_cases i <;> omega
  · refine List.map_congr_left fun i hi => byteAt_eq ?_
    have hi : i < 4 := List.mem_range.1 hi
    simp only
    interval_cases i <;> omega

theorem md5Final_eq {c : Md5Ctx} {m : List Byte} (h : c.Holds m) {fuel : Nat} (hfuel : 1 < fuel) :
    md5Final fuel c = some (Md5.hash m) := by
  have hpadding := Md5.length_padding m.length
  have hlength := Md5.length_lengthBytes m.length
  obtain ⟨c₁, hc₁, h₁⟩ := md5Update_holds h (Md5.padding m.length) (by omega)
    (show _ < fuel by omega)
  obtain ⟨c₂, hc₂, h₂⟩ := md5Update_holds h₁ (Md5.lengthBytes m.length) (by omega)
    (show _ < fuel by omega)
  simp only [md5Final, padlen_eq h.idx, take_md5Pad, map_byteAt, h.bits, hc₁, hc₂,
    Option.bind_eq_bind, Option.bind_some, h₂.state]
  rfl

theorem hexDigits_getD {n : Nat} (h : n < 16) : hexDigits.getD n '\x00' = Nat.digitChar n := by
  interval_cases n <;> rfl

theorem toNat_high (b : Byte) : ((b >>> 4) &&& 0xf).toNat = b.toNat / 16 := by
  have hb : b.toNat < 2 ^ 8 := b.isLt
  have hmask : ((b >>> 4) &&& 0xf).toNat = b.toNat / 2 ^ 4 % 2 ^ 4 := by
    rw [BitVec.toNat_and, BitVec.toNat_ushiftRight, Nat.shiftRight_eq_div_pow]
    exact Nat.and_two_pow_sub_one_eq_mod _ 4
  omega

theorem toNat_low (b : Byte) : (b &&& 0xf).toNat = b.toNat % 16 := by
  rw [BitVec.toNat_and]
  exact Nat.and_two_pow_sub_one_eq_mod _ 4

/-- `audd_md5_hex` is MD5, in lower-case hexadecimal, of fewer than `2 ^ 32` bytes. -/
theorem md5Hex_eq (stale : Vector Byte 64) {data : List Byte} (hdata : data.length < 2 ^ 32)
    {fuel : Nat} (hfuel : data.length / 64 + 1 < fuel) :
    md5Hex fuel stale data = some (Md5.hex (Md5.hash data)) := by
  obtain ⟨c, hc, h⟩ := md5Update_holds (md5Init_holds stale) data (by simpa using hdata)
    (show _ < fuel by omega)
  have hdigits (b : Byte) : [hexDigits.getD ((b >>> 4) &&& 0xf).toNat '\x00',
      hexDigits.getD (b &&& 0xf).toNat '\x00'] =
      [Nat.digitChar (b.toNat / 16), Nat.digitChar (b.toNat % 16)] := by
    have hb : b.toNat < 2 ^ 8 := b.isLt
    rw [toNat_high, toNat_low, hexDigits_getD (by omega), hexDigits_getD (by omega)]
  rw [List.nil_append] at h
  simp only [md5Hex, hc, md5Final_eq h (show 1 < fuel by omega), Option.bind_eq_bind,
    Option.bind_some, hdigits]
  rfl

end Audd
