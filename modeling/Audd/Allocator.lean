import Audd.Lib.Heap
import Audd.Lib.Md5

/-! `audd_alloc.c`: the allocator that the embedder installs, and the `realloc` that is emulated
over its `malloc` and `free` where it installs none.  An emulated block begins with a header that
keeps its size. -/

namespace Audd

open Md5 (Byte)
open HeapM

/-! ### Reallocation -/

/-- What the emulation takes from the platform: `sizeof(audd_emu_header_t)`, and the bytes of a
`size_t`. -/
structure Abi where
  headerSize : Nat
  encode : Nat → List Byte
  decode : List Byte → Nat
  length_encode : ∀ n, (encode n).length = 8
  decode_encode : ∀ n, n < 2 ^ 64 → decode (encode n) = n
  holds_size : 8 ≤ headerSize
  small : headerSize ≤ 4096

/-- The bytes of a `size_t`, its low-order byte first. -/
def littleEndian (n : Nat) : List Byte := (List.range 8).map fun i => BitVec.ofNat 8 (n / 256 ^ i)

def ofLittleEndian (bytes : List Byte) : Nat := bytes.foldr (fun b n => b.toNat + 256 * n) 0

theorem length_littleEndian (n : Nat) : (littleEndian n).length = 8 := by
  rw [littleEndian, List.length_map, List.length_range]

theorem ofLittleEndian_littleEndian (n : Nat) (h : n < 2 ^ 64) :
    ofLittleEndian (littleEndian n) = n := by
  simp only [ofLittleEndian, littleEndian, List.range, List.range.loop, List.map_cons,
    List.map_nil, List.foldr_cons, List.foldr_nil, BitVec.toNat_ofNat]
  omega

/-- A 64-bit platform whose `max_align_t` has 32 bytes. -/
def Abi.amd64 : Abi where
  headerSize := 32
  encode := littleEndian
  decode := ofLittleEndian
  length_encode := length_littleEndian
  decode_encode := ofLittleEndian_littleEndian
  holds_size := by decide
  small := by decide

/-- Whether a `realloc` keeps a block where it is. -/
abbrev Placement := Ptr → Nat → Bool

/-- `audd_allocator_t`, with the `malloc_fn` and the `free_fn` that it must have. -/
structure AuddAllocator where
  reallocFn : Option Placement

/-- libc's `realloc`, and what is installed over it (`g_alloc_set`, `g_alloc`). -/
structure Allocators where
  libc : Placement
  gAlloc : Option AuddAllocator

variable (abi : Abi)

def auddEmuRealloc (ptr : Option Ptr) (size : Nat) : HeapM Byte (Option Ptr) :=
  if size = 0 then
    match ptr with
    | some p => do
      free (p.sub abi.headerSize)
      pure none
    | none => pure none
  else do
    match ← malloc ((abi.headerSize + size) % 2 ^ 64) with
    | none => pure none
    | some nh => granted nh
where
  -- the rest of the function, with the new header `nh`
  granted (nh : Ptr) : HeapM Byte (Option Ptr) := do
    store nh (abi.encode size)
    let out := nh.add abi.headerSize
    match ptr with
    | none => pure (some out)
    | some p =>
      let oh := p.sub abi.headerSize
      let oldSize := abi.decode (← load oh 8)
      copy out p (if oldSize < size then oldSize else size)
      free oh
      pure (some out)

def auddRealloc (g : Allocators) (ptr : Option Ptr) (size : Nat) : HeapM Byte (Option Ptr) :=
  match g.gAlloc with
  | some a =>
    match a.reallocFn with
    | some stays => realloc stays ptr size
    | none => auddEmuRealloc abi ptr size
  | none => realloc g.libc ptr size

def auddReallocFree (g : Allocators) (ptr : Option Ptr) : HeapM Byte Unit :=
  match ptr with
  | none => pure ()
  | some p => do
    let _ ← auddRealloc abi g (some p) 0
    pure ()

/-- Only `malloc` and `free` are installed. -/
def Allocators.Emulates (g : Allocators) : Prop := g.gAlloc = some ⟨none⟩

variable {abi}

theorem auddRealloc_emulates {g : Allocators} (hg : g.Emulates) (ptr : Option Ptr) (size : Nat) :
    auddRealloc abi g ptr size = auddEmuRealloc abi ptr size := by
  rw [auddRealloc, hg]

/-! ### Emulated blocks -/

/-- An emulated block: its size is in the header, and its payload follows the header. -/
structure EmuBlock (abi : Abi) (cells payload : List (Option Byte)) : Prop where
  size : cells.take 8 = (abi.encode payload.length).map some
  rest : cells.drop abi.headerSize = payload
  length : cells.length = abi.headerSize + payload.length

/-- A new block, with nothing in it but its size. -/
theorem EmuBlock.fresh (abi : Abi) (size : Nat) :
    EmuBlock abi (Heap.splice (List.replicate (abi.headerSize + size) none) 0
      ((abi.encode size).map some)) (List.replicate size none) := by
  have hencode := abi.length_encode size
  have hholds := abi.holds_size
  have hlength : ((abi.encode size).map some).length = 8 := by rw [List.length_map, hencode]
  refine ⟨?_, ?_, ?_⟩
  · have hend := @Heap.take_splice_end Byte (List.replicate (abi.headerSize + size) none)
      ((abi.encode size).map some) 0 (Nat.zero_le _)
    rw [Nat.zero_add, hlength] at hend
    rw [hend, List.length_replicate]
    rfl
  · rw [Heap.splice, hlength, List.take_zero, List.nil_append, List.drop_append,
      List.drop_of_length_le (by omega), List.nil_append, hlength, List.drop_replicate,
      List.drop_replicate]
    congr 1
    omega
  · rw [Heap.length_splice (by rw [List.length_replicate]; omega), List.length_replicate,
      List.length_replicate]

section

variable {cells payload : List (Option Byte)} {tape : Tape}

/-- A store into the payload leaves the header as it is. -/
theorem EmuBlock.splice (h : EmuBlock abi cells payload) {k : Nat} {stored : List (Option Byte)}
    (hk : k + stored.length ≤ payload.length) :
    EmuBlock abi (Heap.splice cells (abi.headerSize + k) stored)
      (Heap.splice payload k stored) := by
  have hholds := abi.holds_size
  have hlength := h.length
  refine ⟨?_, ?_, ?_⟩
  · rw [Heap.take_splice (by omega) (by omega), Heap.length_splice hk, h.size]
  · rw [Heap.drop_splice (by omega), h.rest]
  · rw [Heap.length_splice (by omega), Heap.length_splice hk, hlength]

/-- The size stored in front of a new block makes it an emulated one. -/
theorem ensures_header {h : Heap Byte} {size : Nat} {Q : Unit → Heap Byte → Tape → Prop}
    (hQ : ∀ h' cells, h'.blocks = Function.update h.blocks h.next (some cells) →
      h'.faulted = h.faulted → EmuBlock abi cells (List.replicate size none) → Q () h' tape) :
    Ensures (store ⟨h.next, (0 : Nat)⟩ (abi.encode size))
      (h.alloc (List.replicate (abi.headerSize + size) none)) tape Q := by
  have hencode := abi.length_encode size
  have hholds := abi.holds_size
  have hnew : (h.alloc (List.replicate (abi.headerSize + size) none)).blocks h.next =
      some (List.replicate (abi.headerSize + size) none) := Function.update_self ..
  refine ensures_store hnew (by rw [List.length_replicate]; omega)
    (hQ _ _ ?_ rfl (.fresh abi size))
  rw [Heap.blocks_set hnew]
  exact Function.update_idem ..

/-- What a request of the emulation leaves: nothing, where its `malloc` is refused, and otherwise
what `P` says. -/
def Requested (h : Heap Byte) (tape : Tape) (P : Option Ptr → Heap Byte → Prop)
    (out : Option Ptr) (h' : Heap Byte) (tape' : Tape) : Prop :=
  (tape' = fun n => tape (n + 1)) ∧
    ((tape 0 = false ∧ out = none ∧ h' = h) ∨ (tape 0 = true ∧ P out h'))

/-- A new block for a request of `size` bytes, or nothing. -/
theorem emuRealloc_new {h : Heap Byte} {size : Nat} (hpos : 0 < size)
    (hroom : abi.headerSize + size < 2 ^ 64) :
    Ensures (auddEmuRealloc abi none size) h tape <| Requested h tape fun out h' =>
      ∃ cells, out = some ⟨h.next, abi.headerSize⟩ ∧
        h'.blocks = Function.update h.blocks h.next (some cells) ∧ h'.faulted = h.faulted ∧
        EmuBlock abi cells (List.replicate size none) := by
  rw [auddEmuRealloc, if_neg (by omega), Nat.mod_eq_of_lt hroom, ensures_bind]
  refine ensures_malloc (fun hrefused => ⟨rfl, .inl ⟨hrefused, rfl, rfl⟩⟩) fun hgranted => ?_
  simp only [auddEmuRealloc.granted]
  rw [ensures_bind]
  exact ensures_header fun h' cells hblocks hfaulted hemu =>
    ensures_pure ⟨rfl, .inr ⟨hgranted, cells, by simp [Ptr.add], hblocks, hfaulted, hemu⟩⟩

/-- A block grown or shrunk: nothing happens, or a new block has what both sizes have in common,
and the old one is gone. -/
theorem emuRealloc_resize {h : Heap Byte} {b size : Nat} (hb : h.blocks b = some cells)
    (hemu : EmuBlock abi cells payload) (hold : payload.length < 2 ^ 64) (hpos : 0 < size)
    (hroom : abi.headerSize + size < 2 ^ 64) :
    Ensures (auddEmuRealloc abi (some ⟨b, abi.headerSize⟩) size) h tape <|
      Requested h tape fun out h' => ∃ cells' payload', out = some ⟨h.next, abi.headerSize⟩ ∧
        h'.blocks = Function.update (Function.update h.blocks b none) h.next (some cells') ∧
        h'.faulted = h.faulted ∧ EmuBlock abi cells' payload' ∧ payload'.length = size ∧
        payload'.take (min payload.length size) = payload.take (min payload.length size) := by
  have hholds := abi.holds_size
  have hlength := hemu.length
  have hne : b ≠ h.next := Nat.ne_of_lt (Heap.Live.lt_next (by rw [Heap.Live, hb]; simp))
  rw [auddEmuRealloc, if_neg (by omega), Nat.mod_eq_of_lt hroom, ensures_bind]
  refine ensures_malloc (fun hrefused => ⟨rfl, .inl ⟨hrefused, rfl, rfl⟩⟩) fun hgranted => ?_
  simp only [auddEmuRealloc.granted]
  rw [ensures_bind]
  refine ensures_header fun h₂ target hblocks hfaulted hfresh => ?_
  have hold₂ : h₂.blocks b = some cells := by rw [hblocks, Function.update_of_ne hne, hb]
  have htarget : h₂.blocks h.next = some target := by rw [hblocks, Function.update_self]
  -- the old block's size, and the copy of what both sizes have
  have hmin : (if payload.length < size then payload.length else size) =
      min payload.length size := by
    split <;> omega
  have htargetLength : target.length = abi.headerSize + size := by
    rw [hfresh.length, List.length_replicate]
  rw [Ptr.sub_self, ensures_bind]
  refine ensures_load hold₂ (by omega) (by rw [List.drop_zero, hemu.size]) ?_
  rw [abi.decode_encode _ hold, hmin, Ptr.add_mk, Nat.zero_add, ensures_bind]
  refine ensures_copy hold₂ htarget (Ne.symm hne) (by omega) (by omega) ?_
  rw [hemu.rest]
  have htaken : (payload.take (min payload.length size)).length = min payload.length size := by
    rw [List.length_take]
    omega
  have hroom' : 0 + (payload.take (min payload.length size)).length ≤
      (List.replicate size (none : Option Byte)).length := by
    rw [List.length_replicate]
    omega
  have hcopied := hfresh.splice hroom'
  rw [Nat.add_zero] at hcopied
  have hold₃ : (h₂.set h.next (Heap.splice target abi.headerSize
      (payload.take (min payload.length size)))).blocks b = some cells := by
    rw [Heap.blocks_set htarget, Function.update_of_ne hne, hold₂]
  rw [ensures_bind]
  refine ensures_free hold₃ (ensures_pure
    ⟨rfl, .inr ⟨hgranted, _, _, rfl, ?_, hfaulted, hcopied, ?_, ?_⟩⟩)
  · rw [Heap.blocks_remove, Heap.blocks_set htarget, hblocks, Function.update_idem,
      Function.update_comm hne]
  · rw [Heap.length_splice hroom', List.length_replicate]
  · have hend := @Heap.take_splice_end Byte (List.replicate size none)
      (payload.take (min payload.length size)) 0 (Nat.zero_le _)
    rw [Nat.zero_add, htaken] at hend
    exact hend

/-- Size zero frees the block with its header. -/
theorem emuRealloc_free {h : Heap Byte} {b : Nat} (hb : h.blocks b = some cells) :
    Ensures (auddEmuRealloc abi (some ⟨b, abi.headerSize⟩) 0) h tape fun out h' tape' =>
      out = none ∧ h' = h.remove b ∧ tape' = tape := by
  rw [auddEmuRealloc, if_pos rfl, Ptr.sub_self, ensures_bind]
  exact ensures_free hb ⟨rfl, rfl, rfl⟩

end

end Audd
