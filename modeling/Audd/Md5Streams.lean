import Audd.Md5

/-! A message in parts.  Updates one after the other leave a context that holds the whole message,
so the digest of a message is the same however it was cut.  An update of any length is stated once
more with a record of what it reads and transforms: it ends, within its input, exactly as long as
the bytes in the buffer and the new ones are fewer than `2 ^ 32` together.  From there on the 32-bit
index wraps before it gets past the end, and the block loop goes round for ever. -/

namespace Audd

open Md5 (Byte Word)

/-! ### Updates one after the other -/

def md5Updates (fuel : Nat) (c : Md5Ctx) (chunks : List (List Byte)) : Option Md5Ctx :=
  chunks.foldlM (md5Update fuel) c

theorem md5Updates_holds {fuel : Nat} (hfuel : 2 ^ 26 ≤ fuel) {chunks : List (List Byte)}
    (hchunks : ∀ chunk ∈ chunks, chunk.length ≤ 2 ^ 32 - 64) {c : Md5Ctx} {m : List Byte}
    (h : c.Holds m) :
    ∃ c', md5Updates fuel c chunks = some c' ∧ c'.Holds (m ++ chunks.flatten) := by
  induction chunks generalizing c m with
  | nil => exact ⟨c, rfl, by simpa using h⟩
  | cons chunk chunks ih =>
    have hchunk : chunk.length ≤ 2 ^ 32 - 64 := hchunks chunk List.mem_cons_self
    have hmod : m.length % 64 < 64 := Nat.mod_lt _ (by omega)
    obtain ⟨c₁, hc₁, h₁⟩ := md5Update_holds h chunk (by omega) (show _ < fuel by omega)
    obtain ⟨c₂, hc₂, h₂⟩ := ih (fun chunk' hmem => hchunks chunk' (List.mem_cons_of_mem _ hmem)) h₁
    refine ⟨c₂, ?_, ?_⟩
    · rw [md5Updates, List.foldlM_cons, hc₁]
      exact hc₂
    · rw [List.flatten_cons, ← List.append_assoc]
      exact h₂

/-- After the chunks of a message the context holds the message: its blocks are compressed, its
tail is in the buffer, and the two counters are its length.  The digest is the one of the message,
whatever the chunks were. -/
theorem md5Updates_digest (stale : Vector Byte 64) (chunks : List (List Byte))
    (hchunks : ∀ chunk ∈ chunks, chunk.length ≤ 2 ^ 32 - 64) (fuel : Nat) (hfuel : 2 ^ 26 ≤ fuel) :
    ∃ c, md5Updates fuel (md5Init stale) chunks = some c ∧ c.Holds chunks.flatten ∧
      md5Final fuel c = some (Md5.hash chunks.flatten) := by
  obtain ⟨c, hc, h⟩ := md5Updates_holds hfuel hchunks (md5Init_holds stale)
  rw [List.nil_append] at h
  exact ⟨c, hc, h, md5Final_eq h (by omega)⟩

/-- The digest of `abc`, in chunks of one and two bytes. -/
theorem md5Updates_digest_abc :
    ∃ c, md5Updates (2 ^ 26) (md5Init (Vector.replicate 64 0)) [[0x61], [], [0x62, 0x63]] = some c ∧
      c.Holds [0x61, 0x62, 0x63] ∧
      md5Final (2 ^ 26) c = some (Md5.hash [0x61, 0x62, 0x63]) :=
  md5Updates_digest (Vector.replicate 64 0) [[0x61], [], [0x62, 0x63]] (by decide) (2 ^ 26)
    (Nat.le_refl _)

/-! ### An update with a record -/

/-- An update reads `count` bytes of its input from `pos` on, or transforms a block. -/
inductive Md5Action
  | read (pos count : Nat)
  | transform (block : List Byte)
deriving DecidableEq

def md5BlocksRecorded (input : List Byte) :
    Nat → Word → Md5.State → Option ((Word × Md5.State) × List Md5Action)
  | 0, _, _ => none
  | fuel + 1, i, s =>
    if (i + 63).toNat < input.length then do
      let block := input.drop i.toNat
      let rest ← md5BlocksRecorded input fuel (i + 64) (md5Transform s block)
      some (rest.1, .read i.toNat 64 :: .transform (block.take 64) :: rest.2)
    else some ((i, s), [])

def md5UpdateRecorded (fuel : Nat) (c : Md5Ctx) (input : List Byte) :
    Option (Md5Ctx × List Md5Action) := do
  let len := input.length
  let idx := (c.count0 >>> 3) &&& 0x3f
  let bits : Word := BitVec.ofNat 32 (len <<< 3)
  let count0 := c.count0 + bits
  let count1 := (if count0 < bits then c.count1 + 1 else c.count1) + BitVec.ofNat 32 (len >>> 29)
  let partlen := 64 - idx
  if len ≥ partlen.toNat then
    let filled := overwrite c.buffer idx.toNat (input.take partlen.toNat)
    let blocks ← md5BlocksRecorded input fuel partlen (md5Transform c.state filled)
    let i := blocks.1.1.toNat
    some (⟨blocks.1.2, count0, count1, overwrite filled 0 (input.drop i)⟩,
      .read 0 partlen.toNat :: .transform filled :: blocks.2 ++ [.read i (len - i)])
  else some (⟨c.state, count0, count1, overwrite c.buffer idx.toNat input⟩, [.read 0 len])

theorem md5BlocksRecorded_erased (input : List Byte) (fuel : Nat) (i : Word) (s : Md5.State) :
    (md5BlocksRecorded input fuel i s).map Prod.fst = md5Blocks input fuel i s := by
  induction fuel generalizing i s with
  | zero => rfl
  | succ fuel ih =>
    rw [md5BlocksRecorded, md5Blocks, ← ih]
    by_cases hguard : (i + 63).toNat < input.length
    · rw [if_pos hguard, if_pos hguard]
      simp only [Option.bind_eq_bind, Option.map_bind]
      cases md5BlocksRecorded input fuel (i + 64) (md5Transform s (input.drop i.toNat)) <;> rfl
    · rw [if_neg hguard, if_neg hguard]
      rfl

/-- Without the record it is the update. -/
theorem md5UpdateRecorded_erased (fuel : Nat) (c : Md5Ctx) (input : List Byte) :
    (md5UpdateRecorded fuel c input).map Prod.fst = md5Update fuel c input := by
  simp only [md5UpdateRecorded, md5Update]
  by_cases hfull : input.length ≥ ((64 : Word) - ((c.count0 >>> 3) &&& 0x3f)).toNat
  · rw [if_pos hfull, if_pos hfull, ← md5BlocksRecorded_erased]
    cases md5BlocksRecorded input fuel (64 - ((c.count0 >>> 3) &&& 0x3f)) _ <;> rfl
  · rw [if_neg hfull, if_neg hfull]
    rfl

/-! ### Contexts -/

/-- The contexts that updates which return lead to. -/
inductive Md5Ctx.Reachable : Md5Ctx → Prop
  | init (stale : Vector Byte 64) : Reachable (md5Init stale)
  | update {c c' : Md5Ctx} {fuel : Nat} {input : List Byte} :
      Reachable c → input.length < 2 ^ 64 → md5Update fuel c input = some c' → Reachable c'

/-- How many bytes wait in the buffer. -/
def Md5Ctx.idx (c : Md5Ctx) : Nat := ((c.count0 >>> 3) &&& 0x3f).toNat

def Md5Ctx.buffered (c : Md5Ctx) : List Byte := c.buffer.take c.idx

theorem Md5Ctx.idx_lt (c : Md5Ctx) : c.idx < 64 := by
  have hmask : c.idx = ((c.count0 >>> 3).toNat) % 2 ^ 6 := by
    rw [Md5Ctx.idx, BitVec.toNat_and]
    exact Nat.and_two_pow_sub_one_eq_mod _ 6
  omega

theorem Md5Ctx.partlen_toNat (c : Md5Ctx) :
    ((64 : Word) - ((c.count0 >>> 3) &&& 0x3f)).toNat = 64 - c.idx := by
  have hlt := c.idx_lt
  rw [BitVec.toNat_sub, show ((c.count0 >>> 3) &&& 0x3f).toNat = c.idx from rfl,
    show (64 : Word).toNat = 64 from rfl]
  omega

/-! ### Updates that do not end -/

/-- The loop does not end when every index in its residue class passes the guard. -/
theorem md5Blocks_diverges {input : List Byte} {i : Word}
    (h : ∀ j : Word, j.toNat % 64 = i.toNat % 64 → (j + 63).toNat < input.length) (fuel : Nat)
    (s : Md5.State) : md5Blocks input fuel i s = none := by
  induction fuel generalizing i s with
  | zero => rfl
  | succ fuel ih =>
    have hnext : (i + 64).toNat % 64 = i.toNat % 64 := by
      rw [BitVec.toNat_add, show (64 : Word).toNat = 64 from rfl]
      omega
    rw [md5Blocks, if_pos (h i rfl)]
    exact ih (fun j hj => h j (hj.trans hnext)) _

/-- From `2 ^ 32` bytes on, those in the buffer included, the index wraps before the guard can
fail: the index behind the last whole block plus 63 is past `2 ^ 32`. -/
theorem md5Update_diverges {c : Md5Ctx} {input : List Byte}
    (h : 2 ^ 32 ≤ c.idx + input.length) (fuel : Nat) : md5Update fuel c input = none := by
  have hidx := c.idx_lt
  have hfull : input.length ≥ ((64 : Word) - ((c.count0 >>> 3) &&& 0x3f)).toNat := by
    rw [c.partlen_toNat]
    omega
  simp only [md5Update]
  rw [if_pos hfull, md5Blocks_diverges]
  · rfl
  · intro j hj
    have hj' : j.toNat < 2 ^ 32 := j.isLt
    rw [c.partlen_toNat] at hj
    rw [BitVec.toNat_add, show (63 : Word).toNat = 63 from rfl]
    omega

theorem md5Blocks_mono {input : List Byte} {fuel more : Nat} (hle : fuel ≤ more) {i : Word}
    {s : Md5.State} {result : Word × Md5.State} (h : md5Blocks input fuel i s = some result) :
    md5Blocks input more i s = some result := by
  induction fuel generalizing more i s with
  | zero => cases h
  | succ fuel ih =>
    obtain _ | more := more
    · omega
    rw [md5Blocks] at h ⊢
    by_cases hguard : (i + 63).toNat < input.length
    · rw [if_pos hguard] at h ⊢
      exact ih (by omega) h
    · rw [if_neg hguard] at h ⊢
      exact h

theorem md5Update_mono {fuel more : Nat} (hle : fuel ≤ more) {c c' : Md5Ctx} {input : List Byte}
    (h : md5Update fuel c input = some c') : md5Update more c input = some c' := by
  simp only [md5Update] at h ⊢
  by_cases hfull : input.length ≥ ((64 : Word) - ((c.count0 >>> 3) &&& 0x3f)).toNat
  · rw [if_pos hfull] at h ⊢
    obtain ⟨result, hrun, hc'⟩ := Option.bind_eq_some_iff.mp h
    rw [md5Blocks_mono hle hrun]
    exact hc'
  · rw [if_neg hfull] at h ⊢
    exact h

/-- An update that ends had room. -/
theorem md5Update_room {fuel : Nat} {c c' : Md5Ctx} {input : List Byte}
    (h : md5Update fuel c input = some c') : c.idx + input.length < 2 ^ 32 := by
  by_contra hge
  rw [md5Update_diverges (by omega)] at h
  cases h

theorem Md5Ctx.Reachable.holds {c : Md5Ctx} (h : c.Reachable) : ∃ m, c.Holds m := by
  induction h with
  | init stale => exact ⟨[], md5Init_holds stale⟩
  | @update c c' fuel input _ _ hupdate ih =>
    obtain ⟨m, hm⟩ := ih
    have hroom := md5Update_room hupdate
    rw [Md5Ctx.idx, hm.idx] at hroom
    obtain ⟨c₁, hc₁, h₁⟩ := md5Update_holds hm input hroom
      (show _ < fuel + input.length / 64 + 1 by omega)
    rw [md5Update_mono (by omega) hupdate] at hc₁
    exact ⟨m ++ input, Option.some.inj hc₁ ▸ h₁⟩

/-! ### Updates that end -/

def transforms (actions : List Md5Action) : List (List Byte) :=
  actions.filterMap fun
    | .transform block => some block
    | _ => none

/-- The whole blocks of `data`, in order. -/
def wholeBlocks (data : List Byte) : List (List Byte) :=
  (List.range (data.length / 64)).map fun k => (data.drop (64 * k)).take 64

/-- The actions transform the whole blocks of `data`, each once, and read nothing past the `len`
bytes of the input. -/
structure Complete (data : List Byte) (len : Nat) (actions : List Md5Action) : Prop where
  transforms : transforms actions = wholeBlocks data
  reads : ∀ pos count, .read pos count ∈ actions → pos + count ≤ len

/-- What the loop does with `n` blocks from `i` on. -/
def blockActions (input : List Byte) : Nat → Nat → List Md5Action
  | 0, _ => []
  | n + 1, i => .read i 64 :: .transform ((input.drop i).take 64) :: blockActions input n (i + 64)

theorem transforms_blockActions (input : List Byte) (n i : Nat) :
    transforms (blockActions input n i) =
      (List.range n).map fun k => (input.drop (i + 64 * k)).take 64 := by
  induction n generalizing i with
  | zero => rfl
  | succ n ih =>
    have hnext (k : Nat) : i + 64 + 64 * k = i + 64 * (k + 1) := by omega
    rw [List.range_succ_eq_map, List.map_cons, List.map_map]
    show (input.drop i).take 64 :: transforms (blockActions input n (i + 64)) = _
    simp only [ih, hnext]
    rfl

theorem reads_blockActions {input : List Byte} {n i pos count : Nat}
    (h : .read pos count ∈ blockActions input n i) : pos + count ≤ i + 64 * n := by
  induction n generalizing i with
  | zero => cases h
  | succ n ih =>
    rcases List.mem_cons.mp h with hread | h
    · cases hread
      omega
    · rcases List.mem_cons.mp h with htransform | h
      · cases htransform
      · have := ih h
        omega

/-- With room for the index, the loop goes through the whole blocks, and does nothing else. -/
theorem md5BlocksRecorded_run {input : List Byte} {n i fuel : Nat} (s : Md5.State)
    (hn : (input.length - i) / 64 = n) (hroom : i + 64 * n + 63 < 2 ^ 32) (hfuel : n < fuel) :
    ∃ s', md5BlocksRecorded input fuel (BitVec.ofNat 32 i) s =
      some ((BitVec.ofNat 32 (i + 64 * n), s'), blockActions input n i) := by
  induction n generalizing i fuel s with
  | zero =>
    obtain _ | fuel := fuel
    · omega
    rw [md5BlocksRecorded, guard_toNat hroom, if_neg (by omega)]
    exact ⟨s, rfl⟩
  | succ n ih =>
    obtain _ | fuel := fuel
    · omega
    have hi : (BitVec.ofNat 32 i).toNat = i := by
      rw [BitVec.toNat_ofNat]
      omega
    have hnext : BitVec.ofNat 32 i + 64 = BitVec.ofNat 32 (i + 64) := BitVec.ofNat_add i 64 |>.symm
    have hend : i + 64 + 64 * n = i + 64 * (n + 1) := by omega
    obtain ⟨s', hrun⟩ := @ih (i + 64) fuel (md5Transform s (input.drop i)) (by omega) (by omega)
      (by omega)
    rw [md5BlocksRecorded, guard_toNat (by omega), if_pos (by omega), hi, hnext]
    simp only [hrun, hend]
    exact ⟨s', rfl⟩

/-- The block that `buffered` begins, the blocks of the input behind it, and the rest copied. -/
theorem complete_flushed {buffered input : List Byte} {partlen n : Nat}
    (hpartlen : buffered.length + partlen = 64) (hfull : partlen ≤ input.length)
    (hn : (input.length - partlen) / 64 = n) :
    Complete (buffered ++ input) input.length (.read 0 partlen ::
      .transform (buffered ++ input.take partlen) :: blockActions input n partlen ++
        [.read (partlen + 64 * n) (input.length - (partlen + 64 * n))]) where
  transforms := by
    have hblocks : (buffered ++ input).length / 64 = n + 1 := by
      rw [List.length_append]
      omega
    have hfirst : (buffered ++ input).take 64 = buffered ++ input.take partlen := by
      rw [List.take_append, List.take_of_length_le (by omega),
        show 64 - buffered.length = partlen by omega]
    have hlater (k : Nat) :
        (buffered ++ input).drop (64 * (k + 1)) = input.drop (partlen + 64 * k) := by
      rw [List.drop_append, List.drop_of_length_le (by omega), List.nil_append]
      congr 1
      omega
    have hactions : transforms (.read 0 partlen :: .transform (buffered ++ input.take partlen) ::
        blockActions input n partlen ++
          [.read (partlen + 64 * n) (input.length - (partlen + 64 * n))]) =
        (buffered ++ input.take partlen) :: transforms (blockActions input n partlen) := by
      simp [transforms]
    rw [hactions, transforms_blockActions, wholeBlocks, hblocks, List.range_succ_eq_map,
      List.map_cons, List.map_map]
    congr 1
    · rw [Nat.mul_zero, List.drop_zero, hfirst]
    · refine List.map_congr_left fun k _ => ?_
      show _ = ((buffered ++ input).drop (64 * (k + 1))).take 64
      rw [hlater]
  reads := by
    intro pos count hread
    rcases List.mem_append.mp hread with hread | hlast
    · rcases List.mem_cons.mp hread with hfirst | hread
      · cases hfirst
        omega
      · rcases List.mem_cons.mp hread with htransform | hblock
        · cases htransform
        · have := reads_blockActions hblock
          omega
    · cases List.mem_singleton.mp hlast
      omega

theorem Md5Ctx.Holds.complete {c : Md5Ctx} {m : List Byte} (h : c.Holds m) {input : List Byte}
    (hroom : c.idx + input.length < 2 ^ 32) :
    ∃ c' actions, md5UpdateRecorded (input.length / 64 + 1) c input = some (c', actions) ∧
      Complete (c.buffered ++ input) input.length actions := by
  have hidx := c.idx_lt
  have hbuffered : c.buffered.length = c.idx := by
    rw [Md5Ctx.buffered, List.length_take, h.length]
    omega
  have hdata : (c.buffered ++ input).length = c.idx + input.length := by
    rw [List.length_append, hbuffered]
  have hpartlen : (64 : Word) - ((c.count0 >>> 3) &&& 0x3f) = BitVec.ofNat 32 (64 - c.idx) := by
    rw [h.partlen, Md5Ctx.idx, h.idx]
  simp only [md5UpdateRecorded, c.partlen_toNat]
  by_cases hfull : input.length ≥ 64 - c.idx
  · obtain ⟨n, hn⟩ : ∃ n, (input.length - (64 - c.idx)) / 64 = n := ⟨_, rfl⟩
    rw [if_pos hfull, hpartlen]
    obtain ⟨s', hrun⟩ := md5BlocksRecorded_run
      (md5Transform c.state (overwrite c.buffer c.idx (input.take (64 - c.idx)))) hn (by omega)
      (show n < input.length / 64 + 1 by omega)
    have hi : (BitVec.ofNat 32 (64 - c.idx + 64 * n)).toNat = 64 - c.idx + 64 * n := by
      rw [BitVec.toNat_ofNat]
      omega
    have hover : c.buffer.drop (c.idx + (64 - c.idx)) = [] :=
      List.drop_of_length_le (by rw [h.length]; omega)
    have hfilled : overwrite c.buffer c.idx (input.take (64 - c.idx)) =
        c.buffered ++ input.take (64 - c.idx) := by
      rw [overwrite, List.length_take_of_le hfull, hover, List.append_nil, Md5Ctx.buffered]
    have hcomplete :=
      complete_flushed (show c.buffered.length + (64 - c.idx) = 64 by omega) hfull hn
    refine ⟨_, _, by rw [show ((c.count0 >>> 3) &&& 0x3f).toNat = c.idx from rfl, hrun]; rfl, ?_⟩
    rw [hfilled, hi]
    exact hcomplete
  · rw [if_neg hfull]
    refine ⟨_, _, rfl, ?_, fun pos count hread => ?_⟩
    · have hnone : (c.buffered ++ input).length / 64 = 0 := by omega
      rw [wholeBlocks, hnone]
      rfl
    · cases List.mem_singleton.mp hread
      omega

/-- From any context that updates lead to, and for an input of any length: the update ends,
transforms the whole blocks of the buffered and the new bytes, each once, and reads only the input,
if and only if those bytes are fewer than `2 ^ 32`. -/
theorem md5Update_complete_iff {c : Md5Ctx} (hc : c.Reachable) (input : List Byte) :
    (∃ fuel c' actions, md5UpdateRecorded fuel c input = some (c', actions) ∧
        Complete (c.buffered ++ input) input.length actions) ↔
      c.idx + input.length < 2 ^ 32 := by
  constructor
  · rintro ⟨fuel, c', actions, hrun, -⟩
    have hupdate : md5Update fuel c input = some c' := by
      rw [← md5UpdateRecorded_erased, hrun]
      rfl
    exact md5Update_room hupdate
  · intro hroom
    obtain ⟨m, hm⟩ := hc.holds
    obtain ⟨c', actions, hrun, hcomplete⟩ := hm.complete hroom
    exact ⟨_, c', actions, hrun, hcomplete⟩

theorem md5Init_idx (stale : Vector Byte 64) : (md5Init stale).idx = 0 := by
  show ((0 : Word) >>> 3 &&& 0x3f).toNat = 0
  decide

/-- Two bytes on a fresh context. -/
theorem md5Update_complete_fresh :
    let c := md5Init (Vector.replicate 64 0)
    ∃ fuel c' actions, md5UpdateRecorded fuel c [0x61, 0x62] = some (c', actions) ∧
      Complete (c.buffered ++ [0x61, 0x62]) 2 actions :=
  (md5Update_complete_iff (.init (Vector.replicate 64 0)) [0x61, 0x62]).mpr
    (by rw [md5Init_idx]; decide)

/-- An input of `2 ^ 32` bytes is never digested. -/
theorem md5Update_endless :
    ¬∃ fuel c' actions, md5UpdateRecorded fuel (md5Init (Vector.replicate 64 0))
      (List.replicate (2 ^ 32) 0) = some (c', actions) := by
  rintro ⟨fuel, c', actions, hrun⟩
  have herased := md5UpdateRecorded_erased fuel (md5Init (Vector.replicate 64 0))
    (List.replicate (2 ^ 32) 0)
  rw [hrun, md5Update_diverges (by rw [List.length_replicate]; omega)] at herased
  cases herased

/-- `audd_md5_hex` does not return for data of `2 ^ 32` bytes or more. -/
theorem md5Hex_diverges (stale : Vector Byte 64) {data : List Byte} (h : 2 ^ 32 ≤ data.length)
    (fuel : Nat) : md5Hex fuel stale data = none := by
  rw [md5Hex, md5Update_diverges (by omega)]
  rfl

end Audd
