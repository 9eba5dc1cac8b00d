import Audd.Allocator

/-! The body of a response, as `audd_http.c` collects it: libcurl hands over one chunk after the
other, and a buffer that doubles keeps them one behind the other with a NUL at the end. -/

namespace Audd

open Md5 (Byte)
open HeapM

/-- `buf_t`. -/
structure Buf where
  data : Option Ptr
  len : Nat
  cap : Nat
deriving DecidableEq

def Buf.empty : Buf := ⟨none, 0, 0⟩

/-- What libcurl passes to the write callback: `size * nmemb` bytes. -/
structure Chunk where
  bytes : List Byte
  size : Nat
  nmemb : Nat
  length : bytes.length = size * nmemb

/-- `while (newcap < needed) newcap *= 2`. -/
def growCap : Nat → Nat → Nat → Option Nat
  | 0, _, _ => none
  | fuel + 1, newcap, needed =>
    if newcap < needed then growCap fuel (newcap * 2 % 2 ^ 64) needed else some newcap

section

variable (abi : Abi) (g : Allocators) (fuel : Nat)

/-- The end of `buf_append`, when there is room: the bytes and the NUL behind them. -/
def bufFill (b : Buf) (p : Ptr) (data : List Byte) (n : Nat) : HeapM Byte (Int × Buf) := do
  store (p.add b.len) (data.take n)
  let len := (b.len + n) % 2 ^ 64
  store (p.add len) [0]
  pure (0, { b with len := len })

/-- `buf_append`: the return value and the buffer, or `none` where the loop does not end. -/
def bufAppend (b : Buf) (data : List Byte) (n : Nat) : HeapM Byte (Option (Int × Buf)) :=
  let needed := (b.len + n + 1) % 2 ^ 64
  if needed > b.cap then
    match growCap fuel (if b.cap = 0 then 4096 else b.cap) needed with
    | none => pure none
    | some newcap => do
      match ← auddRealloc abi g b.data newcap with
      | none => pure (some (-1, b))
      | some p => do
        let filled ← bufFill { b with data := some p, cap := newcap } p data n
        pure (some filled)
  else
    match b.data with
    | some p => do
      let filled ← bufFill b p data n
      pure (some filled)
    | none => fun h => pure (some (0, b), h.fault)

/-- `write_cb`. -/
def writeCb (b : Buf) (chunk : Chunk) : HeapM Byte (Option (Nat × Buf)) := do
  let total := chunk.size * chunk.nmemb % 2 ^ 64
  match ← bufAppend abi g fuel b chunk.bytes total with
  | none => pure none
  | some (rc, b) => pure (some (if rc ≠ 0 then 0 else total, b))

/-- A transfer that goes on whatever the callback returns: the return values, and the buffer. -/
def receive : Buf → List Chunk → HeapM Byte (Option (List Nat × Buf))
  | b, [] => pure (some ([], b))
  | b, chunk :: chunks => do
    match ← writeCb abi g fuel b chunk with
    | none => pure none
    | some (returned, b) =>
      match ← receive b chunks with
      | none => pure none
      | some (rest, b) => pure (some (returned :: rest, b))

end

/-! ### Growing -/

/-- The doubling loop ends: it reaches any size up to `2 ^ 62`, and passes it by less than one
doubling. -/
theorem growCap_spec {needed : Nat} (hneeded : needed ≤ 2 ^ 62) {fuel newcap k : Nat}
    (hk : 2 ^ k ≤ newcap) (hfuel : 63 ≤ fuel + k) (hpos : 0 < fuel) :
    ∃ cap, growCap fuel newcap needed = some cap ∧ needed ≤ cap ∧ newcap ≤ cap ∧
      (cap = newcap ∨ cap < 2 * needed) := by
  induction fuel generalizing newcap k with
  | zero => exact absurd hpos (Nat.lt_irrefl 0)
  | succ fuel ih =>
    rw [growCap]
    by_cases hlt : newcap < needed
    · have hk62 : k < 62 := (Nat.pow_lt_pow_iff_right (by decide : 1 < 2)).mp (by omega)
      have hdouble : newcap * 2 % 2 ^ 64 = newcap * 2 := Nat.mod_eq_of_lt (by omega)
      have hnext : 2 ^ (k + 1) ≤ newcap * 2 := by
        rw [Nat.pow_succ]
        omega
      obtain ⟨cap, hcap, hn, hle, hlast⟩ := ih hnext (by omega) (by omega)
      rw [if_pos hlt, hdouble]
      exact ⟨cap, hcap, hn, by omega, by omega⟩
    · rw [if_neg hlt]
      exact ⟨newcap, rfl, by omega, Nat.le_refl _, .inl rfl⟩

/-! ### What the buffer holds -/

/-- The buffer keeps `bytes` and a NUL in the block, whose header has its capacity; no other block
is live but those of `base`, and no access went outside. -/
structure Stored (abi : Abi) (base : Heap Byte) (bytes : List Byte) (b : Buf) (h : Heap Byte)
    (block : Nat) (cells : List (Option Byte)) : Prop where
  data : b.data = some ⟨block, abi.headerSize⟩
  new : base.blocks block = none
  blocks : h.blocks = Function.update base.blocks block (some cells)
  faulted : h.faulted = base.faulted
  size : cells.length = abi.headerSize + b.cap
  header : cells.take 8 = (abi.encode b.cap).map some
  text : (cells.drop abi.headerSize).take (b.len + 1) = (bytes ++ [0]).map some
  len : b.len = bytes.length
  room : b.len < b.cap
  bound : b.cap ≤ 2 ^ 63

/-- An empty buffer, or one that keeps `bytes`. -/
def Buf.Holds (abi : Abi) (base : Heap Byte) (bytes : List Byte) (b : Buf) (h : Heap Byte) : Prop :=
  (b = .empty ∧ bytes = [] ∧ h = base) ∨ ∃ block cells, Stored abi base bytes b h block cells

section

variable {abi : Abi} {base h : Heap Byte} {bytes : List Byte} {b : Buf} {block : Nat}
  {cells payload : List (Option Byte)}

theorem Stored.emu (hs : Stored abi base bytes b h block cells) :
    EmuBlock abi cells (cells.drop abi.headerSize) where
  size := by
    rw [List.length_drop, hs.size, Nat.add_sub_cancel_left, hs.header]
  rest := rfl
  length := by
    rw [List.length_drop, hs.size, Nat.add_sub_cancel_left]

theorem Stored.get (hs : Stored abi base bytes b h block cells) : h.blocks block = some cells := by
  rw [hs.blocks, Function.update_self]

theorem Stored.kept (hs : Stored abi base bytes b h block cells) :
    (cells.drop abi.headerSize).take b.len = bytes.map some := by
  have htake := congrArg (List.take b.len) hs.text
  rw [List.take_take, Nat.min_eq_left (by omega), List.map_append,
    List.take_left' (by rw [List.length_map, hs.len])] at htake
  exact htake

/-- The buffer's block keeps `bytes` in its payload, and has room for `n` more and a NUL. -/
structure Ready (abi : Abi) (base : Heap Byte) (bytes : List Byte) (b : Buf) (h : Heap Byte)
    (block : Nat) (cells payload : List (Option Byte)) (n : Nat) : Prop where
  data : b.data = some ⟨block, abi.headerSize⟩
  new : base.blocks block = none
  blocks : h.blocks = Function.update base.blocks block (some cells)
  faulted : h.faulted = base.faulted
  emu : EmuBlock abi cells payload
  size : payload.length = b.cap
  kept : payload.take b.len = bytes.map some
  len : b.len = bytes.length
  room : b.len + n < b.cap
  bound : b.cap ≤ 2 ^ 63

theorem Stored.ready (hs : Stored abi base bytes b h block cells) {n : Nat}
    (hroom : b.len + n < b.cap) :
    Ready abi base bytes b h block cells (cells.drop abi.headerSize) n where
  data := hs.data
  new := hs.new
  blocks := hs.blocks
  faulted := hs.faulted
  emu := hs.emu
  size := by rw [List.length_drop, hs.size, Nat.add_sub_cancel_left]
  kept := hs.kept
  len := hs.len
  room := hroom
  bound := hs.bound

variable {tape : Tape}

/-- The bytes behind those that the payload already keeps, and the NUL behind them. -/
theorem bufFill_stored {data : List Byte}
    (hr : Ready abi base bytes b h block cells payload data.length) :
    Ensures (bufFill b ⟨block, abi.headerSize⟩ data data.length) h tape fun r h' tape' =>
      r.1 = 0 ∧ tape' = tape ∧ ∃ cells', Stored abi base (bytes ++ data) r.2 h' block cells' := by
  have hlength := hr.emu.length
  have hsize := hr.size
  have hroom := hr.room
  have hmod : (b.len + data.length) % 2 ^ 64 = b.len + data.length :=
    Nat.mod_eq_of_lt (by have := hr.bound; omega)
  have hget : h.blocks block = some cells := by rw [hr.blocks, Function.update_self]
  have hmap : (data.map some).length = data.length := List.length_map ..
  -- the block and its payload after the first store
  have hbytes : b.len + (data.map some).length ≤ payload.length := by omega
  have hfirst := hr.emu.splice hbytes
  have hpayload := Heap.length_splice hbytes
  have hget' := Heap.blocks_set hget (Heap.splice cells (abi.headerSize + b.len) (data.map some))
  have hblock := congrFun hget' block
  rw [Function.update_self] at hblock
  -- and after the second one
  have hnul : b.len + data.length + [some (0 : Byte)].length ≤
      (Heap.splice payload b.len (data.map some)).length := by
    rw [hpayload, List.length_singleton]
    omega
  have hsecond := hfirst.splice hnul
  have hlast := Heap.length_splice hnul
  rw [bufFill, Ptr.add_mk, List.take_length, ensures_bind]
  refine ensures_store hget (by omega) ?_
  dsimp only
  rw [hmod, Ptr.add_mk, ensures_bind]
  refine ensures_store hblock ?_ (ensures_pure ⟨rfl, rfl,
    Heap.splice (Heap.splice cells (abi.headerSize + b.len) (data.map some))
      (abi.headerSize + (b.len + data.length)) [some 0], ?_⟩)
  · rw [hfirst.length, hpayload, List.length_singleton]
    omega
  exact {
    data := hr.data
    new := hr.new
    blocks := by
      rw [List.map_singleton, Heap.blocks_set hblock, hget', hr.blocks, Function.update_idem,
        Function.update_idem]
    faulted := hr.faulted
    size := by rw [hsecond.length, hlast, hpayload, hsize]
    header := by rw [hsecond.size, hlast, hpayload, hsize]
    text := by
      have hend := @Heap.take_splice_end Byte (Heap.splice payload b.len (data.map some))
        [some 0] (b.len + data.length) (by omega)
      have hfirstEnd := @Heap.take_splice_end Byte payload (data.map some) b.len (by omega)
      rw [hmap, hr.kept] at hfirstEnd
      rw [hfirstEnd, List.length_singleton] at hend
      rw [hsecond.rest, hend]
      simp
    len := by rw [List.length_append, hr.len]
    room := hroom
    bound := hr.bound }

/-- A buffer in use: the bytes that it has taken, the heap, and the schedule of what is refused. -/
structure Reception where
  kept : List Byte
  buf : Buf
  heap : Heap Byte
  tape : Tape

/-- What a call leaves that hands over `data`.  It is taken where it fits behind what is kept, and
where it does not, if the request for a larger block is granted; if that is refused, everything is
as it was but for the request. -/
inductive Received (abi : Abi) (base : Heap Byte) (s : Reception) (data : List Byte) :
    (taken : Bool) → Reception → Prop
  | fits {s' : Reception} {block : Nat} {cells : List (Option Byte)} :
      s.kept.length + data.length < s.buf.cap → s'.kept = s.kept ++ data → s'.tape = s.tape →
      Stored abi base s'.kept s'.buf s'.heap block cells → Received abi base s data true s'
  | grown {s' : Reception} {block : Nat} {cells : List (Option Byte)} :
      s.buf.cap ≤ s.kept.length + data.length → s.tape 0 = true → s'.kept = s.kept ++ data →
      (s'.tape = fun n => s.tape (n + 1)) →
      Stored abi base s'.kept s'.buf s'.heap block cells → Received abi base s data true s'
  | refused : s.buf.cap ≤ s.kept.length + data.length → s.tape 0 = false →
      Received abi base s data false { s with tape := fun n => s.tape (n + 1) }

/-- What `buf_append` leaves. -/
def Appended (abi : Abi) (base : Heap Byte) (s : Reception) (data : List Byte)
    (r : Option (Int × Buf)) (h' : Heap Byte) (tape' : Tape) : Prop :=
  ∃ taken s', Received abi base s data taken s' ∧ r = some (if taken then 0 else -1, s'.buf) ∧
    h' = s'.heap ∧ tape' = s'.tape

theorem bufFill_appended {s : Reception} {data : List Byte}
    (hr : Ready abi base s.kept b h block cells payload data.length)
    (hasked : s.kept.length + data.length < s.buf.cap ∧ tape = s.tape ∨
      s.buf.cap ≤ s.kept.length + data.length ∧ s.tape 0 = true ∧
        tape = fun n => s.tape (n + 1)) :
    Ensures (bufFill b ⟨block, abi.headerSize⟩ data data.length >>= fun filled =>
      pure (some filled)) h tape (Appended abi base s data) := by
  refine (bufFill_stored hr).bind ?_
  rintro ⟨rc, b'⟩ h' tape' ⟨hrc, rfl, cells', hstored⟩
  refine ensures_pure ⟨true, ⟨s.kept ++ data, b', h', tape'⟩, ?_,
    congrArg (fun rc => some (rc, b')) hrc, rfl, rfl⟩
  rcases hasked with ⟨hfits, htape⟩ | ⟨hfull, hgranted, htape⟩
  · exact .fits hfits rfl htape hstored
  · exact .grown hfull hgranted rfl htape hstored

/-- A buffer whose block was grown: the old block is gone, and the new one begins with the same
bytes. -/
theorem Stored.regrown (hs : Stored abi base bytes b h block cells) {h' : Heap Byte} {cap n : Nat}
    {cells' : List (Option Byte)}
    (hblocks : h'.blocks = Function.update (Function.update h.blocks block none) h.next
      (some cells')) (hfaulted : h'.faulted = h.faulted) (hemu : EmuBlock abi cells' payload)
    (hsize : payload.length = cap)
    (hcopied : payload.take (min b.cap cap) =
      (cells.drop abi.headerSize).take (min b.cap cap))
    (hroom : b.len + n < cap) (hbound : cap ≤ 2 ^ 63) :
    Ready abi base bytes ⟨some ⟨h.next, abi.headerSize⟩, b.len, cap⟩ h' h.next cells' payload
      n := by
  have hlen := hs.room
  have hmin : b.len ≤ min b.cap cap := by omega
  have hnext : base.blocks h.next = none := by
    have hfresh := h.fresh h.next (Nat.le_refl _)
    rw [hs.blocks] at hfresh
    by_cases hne : h.next = block
    · rw [hne]
      exact hs.new
    · rwa [Function.update_of_ne hne] at hfresh
  have hbase : Function.update (Function.update base.blocks block (some cells)) block none =
      base.blocks := by
    rw [Function.update_idem, ← hs.new, Function.update_eq_self]
  exact {
    data := rfl
    new := hnext
    blocks := by rw [hblocks, hs.blocks, hbase]
    faulted := hfaulted.trans hs.faulted
    emu := hemu
    size := hsize
    kept := by
      rw [← hs.kept, ← Nat.min_eq_left hmin, ← List.take_take, hcopied, List.take_take]
    len := hs.len
    room := hroom
    bound := hbound }

variable {g : Allocators} {fuel : Nat}

/-- The first append: nothing is allocated yet. -/
theorem bufAppend_empty (hg : g.Emulates) (hfuel : 63 ≤ fuel) (base : Heap Byte) (tape : Tape)
    {data : List Byte} (htotal : data.length < 2 ^ 62) :
    Ensures (bufAppend abi g fuel .empty data data.length) base tape
      (Appended abi base ⟨[], .empty, base, tape⟩ data) := by
  have hsmall := abi.small
  have hneeded : (Buf.empty.len + data.length + 1) % 2 ^ 64 = data.length + 1 := by
    show (0 + data.length + 1) % 2 ^ 64 = data.length + 1
    omega
  obtain ⟨cap, hcap, hle, hlow, hhigh⟩ := growCap_spec
    (show data.length + 1 ≤ 2 ^ 62 by omega) (show 2 ^ 0 ≤ 4096 by decide)
    (show 63 ≤ fuel + 0 by omega) (by omega)
  simp only [bufAppend, hneeded]
  rw [if_pos (show data.length + 1 > Buf.empty.cap from Nat.succ_pos _),
    if_pos (show Buf.empty.cap = 0 from rfl), hcap]
  simp only [auddRealloc_emulates hg]
  refine (emuRealloc_new (by omega) (by omega)).bind ?_
  rintro out h' tape' ⟨htape, ⟨hrefused, rfl, rfl⟩ | ⟨hgranted, cells, rfl, hblocks, hfaulted,
    hemu⟩⟩
  · exact ensures_pure ⟨false, _, .refused (Nat.zero_le _) hrefused, rfl, rfl, htape⟩
  · have hready : Ready abi base [] ⟨some ⟨base.next, abi.headerSize⟩, 0, cap⟩ h' base.next cells
        (List.replicate cap none) data.length := {
      data := rfl
      new := base.fresh _ (Nat.le_refl _)
      blocks := hblocks
      faulted := hfaulted
      emu := hemu
      size := List.length_replicate ..
      kept := rfl
      len := rfl
      room := show 0 + data.length < cap by omega
      bound := show cap ≤ 2 ^ 63 by omega }
    exact bufFill_appended hready (.inr ⟨Nat.zero_le _, hgranted, htape⟩)

/-- A later one: there is room, or the block is grown and its bytes go with it. -/
theorem Stored.bufAppend (hg : g.Emulates) (hfuel : 63 ≤ fuel)
    (hs : Stored abi base bytes b h block cells) (tape : Tape) {data : List Byte}
    (htotal : bytes.length + data.length < 2 ^ 62) :
    Ensures (bufAppend abi g fuel b data data.length) h tape
      (Appended abi base ⟨bytes, b, h, tape⟩ data) := by
  have hsmall := abi.small
  have hlen := hs.len
  have hroom := hs.room
  have hbound := hs.bound
  have hneeded : (b.len + data.length + 1) % 2 ^ 64 = b.len + data.length + 1 :=
    Nat.mod_eq_of_lt (by omega)
  have hpayload : (cells.drop abi.headerSize).length = b.cap := by
    rw [List.length_drop, hs.size, Nat.add_sub_cancel_left]
  simp only [Audd.bufAppend, hneeded]
  by_cases hgrow : b.len + data.length + 1 > b.cap
  · have hfull : b.cap ≤ bytes.length + data.length := by omega
    obtain ⟨cap, hcap, hle, hlow, hhigh⟩ := growCap_spec
      (show b.len + data.length + 1 ≤ 2 ^ 62 by omega) (show 2 ^ 0 ≤ b.cap by omega)
      (show 63 ≤ fuel + 0 by omega) (by omega)
    rw [if_pos hgrow, if_neg (show ¬b.cap = 0 by omega), hcap]
    simp only [hs.data, auddRealloc_emulates hg]
    refine (emuRealloc_resize hs.get hs.emu (by omega) (by omega) (by omega)).bind ?_
    rintro out h' tape' ⟨htape, ⟨hrefused, rfl, rfl⟩ | ⟨hgranted, cells', payload', rfl, hblocks,
      hfaulted, hemu, hsize, hcopy⟩⟩
    · exact ensures_pure ⟨false, _, .refused hfull hrefused, rfl, rfl, htape⟩
    · rw [hpayload] at hcopy
      exact bufFill_appended
        (hs.regrown hblocks hfaulted hemu hsize hcopy (by omega) (by omega))
        (.inr ⟨hfull, hgranted, htape⟩)
  · have hfits : bytes.length + data.length < b.cap := by omega
    rw [if_neg hgrow, hs.data]
    exact bufFill_appended (hs.ready (by omega)) (.inl ⟨hfits, rfl⟩)

/-- The buffer of a reception holds what was taken. -/
def Reception.Sound (abi : Abi) (base : Heap Byte) (s : Reception) : Prop :=
  s.buf.Holds abi base s.kept s.heap

theorem bufAppend_ensures (hg : g.Emulates) (hfuel : 63 ≤ fuel) {s : Reception}
    (hs : s.Sound abi base) {data : List Byte}
    (htotal : s.kept.length + data.length < 2 ^ 62) :
    Ensures (bufAppend abi g fuel s.buf data data.length) s.heap s.tape
      (Appended abi base s data) := by
  obtain ⟨kept, buf, heap, tape⟩ := s
  rcases hs with ⟨hbuf, hkept, hheap⟩ | ⟨block, cells, hs⟩
  · dsimp only at hbuf hkept hheap htotal
    subst hbuf hkept hheap
    rw [List.length_nil] at htotal
    exact bufAppend_empty hg hfuel heap tape (by omega)
  · exact hs.bufAppend hg hfuel tape htotal

/-- The write callback returns the size of what it takes, and 0 for what it does not. -/
theorem writeCb_ensures (hg : g.Emulates) (hfuel : 63 ≤ fuel) {s : Reception}
    (hs : s.Sound abi base) {chunk : Chunk}
    (htotal : s.kept.length + chunk.bytes.length < 2 ^ 62) :
    Ensures (writeCb abi g fuel s.buf chunk) s.heap s.tape fun r h' tape' => ∃ taken s',
      Received abi base s chunk.bytes taken s' ∧
        r = some (if taken then chunk.bytes.length else 0, s'.buf) ∧ h' = s'.heap ∧
        tape' = s'.tape := by
  have hmod : chunk.size * chunk.nmemb % 2 ^ 64 = chunk.bytes.length := by
    rw [← chunk.length]
    exact Nat.mod_eq_of_lt (by omega)
  simp only [writeCb, hmod]
  refine (bufAppend_ensures hg hfuel hs htotal).bind ?_
  rintro r h' tape' ⟨taken, s', hreceived, rfl, rfl, rfl⟩
  refine ensures_pure ⟨taken, s', hreceived, ?_, rfl, rfl⟩
  cases taken <;> rfl

theorem Received.sound {s s' : Reception} {data : List Byte} {taken : Bool}
    (h : Received abi base s data taken s') (hs : s.Sound abi base) : s'.Sound abi base := by
  cases h with
  | fits _ _ _ hstored => exact .inr ⟨_, _, hstored⟩
  | grown _ _ _ _ hstored => exact .inr ⟨_, _, hstored⟩
  | refused => exact hs

theorem Received.length_le {s s' : Reception} {data : List Byte} {taken : Bool}
    (h : Received abi base s data taken s') :
    s'.kept.length ≤ s.kept.length + data.length := by
  cases h with
  | fits _ hkept =>
    rw [hkept, List.length_append]
  | grown _ _ hkept =>
    rw [hkept, List.length_append]
  | refused => exact Nat.le_add_right _ _

/-- A transfer: each chunk is received in the buffer that the ones before it left. -/
inductive Transferred (abi : Abi) (base : Heap Byte) :
    Reception → List Chunk → (returned : List Nat) → Reception → Prop
  | nil {s : Reception} : Transferred abi base s [] [] s
  | call {s s₁ s₂ : Reception} {chunk : Chunk} {chunks : List Chunk} {taken : Bool}
      {returned : List Nat} :
      Received abi base s chunk.bytes taken s₁ → Transferred abi base s₁ chunks returned s₂ →
      Transferred abi base s (chunk :: chunks)
        ((if taken then chunk.bytes.length else 0) :: returned) s₂

def totalSize (chunks : List Chunk) : Nat := (chunks.map fun chunk => chunk.bytes.length).sum

@[simp] theorem totalSize_cons (chunk : Chunk) (chunks : List Chunk) :
    totalSize (chunk :: chunks) = chunk.bytes.length + totalSize chunks := by
  simp [totalSize]

theorem receive_ensures (hg : g.Emulates) (hfuel : 63 ≤ fuel) {s : Reception}
    (hs : s.Sound abi base) {chunks : List Chunk}
    (htotal : s.kept.length + totalSize chunks < 2 ^ 62) :
    Ensures (receive abi g fuel s.buf chunks) s.heap s.tape fun r h' tape' => ∃ returned s',
      Transferred abi base s chunks returned s' ∧ s'.Sound abi base ∧
        r = some (returned, s'.buf) ∧ h' = s'.heap ∧ tape' = s'.tape := by
  induction chunks generalizing s with
  | nil => exact ensures_pure ⟨[], s, .nil, hs, rfl, rfl, rfl⟩
  | cons chunk chunks ih =>
    rw [totalSize_cons] at htotal
    rw [receive]
    refine (writeCb_ensures hg hfuel hs (by omega)).bind ?_
    rintro r h' tape' ⟨taken, s₁, hreceived, rfl, rfl, rfl⟩
    have hlength := hreceived.length_le
    refine (ih (hreceived.sound hs) (by omega)).bind ?_
    rintro r h' tape' ⟨returned, s₂, htransferred, hs₂, rfl, rfl, rfl⟩
    exact ensures_pure ⟨_, s₂, .call hreceived htransferred, hs₂, rfl, rfl, rfl⟩

/-- Releasing the buffer leaves the blocks that were there before it. -/
theorem release_ensures (hg : g.Emulates) {s : Reception} (hs : s.Sound abi base) (tape : Tape) :
    Ensures (auddReallocFree abi g s.buf.data) s.heap tape fun _ h' _ =>
      h'.blocks = base.blocks ∧ h'.faulted = base.faulted := by
  obtain ⟨kept, buf, heap, tape'⟩ := s
  rcases hs with ⟨hbuf, hkept, hheap⟩ | ⟨block, cells, hs⟩
  · dsimp only at hbuf hheap
    subst hbuf hheap
    exact ensures_pure ⟨rfl, rfl⟩
  · dsimp only at hs ⊢
    rw [hs.data, auddReallocFree, auddRealloc_emulates hg]
    refine (emuRealloc_free hs.get).bind ?_
    rintro out h' tape' ⟨-, rfl, -⟩
    refine ensures_pure ⟨?_, hs.faulted⟩
    rw [Heap.blocks_remove, hs.blocks, Function.update_idem, ← hs.new, Function.update_eq_self]

end

/-- Under an allocator with `malloc` and `free` only, under every schedule of what is refused and
whatever else is on the heap, for chunks of fewer than `2 ^ 62` bytes: each call of the write
callback takes its chunk, so that the buffer holds the chunks taken so far, or, only if a larger
block was needed and refused, returns 0 and changes nothing.  Every call returns, no access falls
outside a live block, and releasing the buffer leaves the heap's blocks as they were before the
transfer. -/
theorem receive_accumulates (abi : Abi) (g : Allocators) (hg : g.Emulates) (fuel : Nat)
    (hfuel : 63 ≤ fuel) (base : Heap Byte) (chunks : List Chunk)
    (htotal : totalSize chunks < 2 ^ 62) (tape : Tape) :
    Ensures (receive abi g fuel .empty chunks) base tape fun r h tape' => ∃ returned s,
      Transferred abi base ⟨[], .empty, base, tape⟩ chunks returned s ∧
      s.buf.Holds abi base s.kept s.heap ∧
      r = some (returned, s.buf) ∧ h = s.heap ∧ tape' = s.tape ∧
      ∀ tape, Ensures (auddReallocFree abi g s.buf.data) s.heap tape fun _ h' _ =>
        h'.blocks = base.blocks ∧ h'.faulted = base.faulted := by
  have hempty : Reception.Sound abi base ⟨[], .empty, base, tape⟩ := .inl ⟨rfl, rfl, rfl⟩
  refine (receive_ensures hg hfuel hempty (by rwa [List.length_nil, Nat.zero_add])).mono ?_
  rintro r h tape' ⟨returned, s, htransferred, hs, rfl, rfl, rfl⟩
  exact ⟨returned, s, htransferred, hs, rfl, rfl, rfl, fun tape => release_ensures hg hs tape⟩

/-- Three chunks of one byte onto an empty heap, with the first request refused. -/
theorem receive_accumulates_bytes :
    let g : Allocators := ⟨fun _ _ => false, some ⟨none⟩⟩
    let chunk : Byte → Chunk := fun byte => ⟨[byte], 1, 1, rfl⟩
    Ensures (receive .amd64 g 64 .empty [chunk 0x61, chunk 0x62, chunk 0x63]) Heap.empty
      (fun n => n != 0) fun r h _ => ∃ b, r = some ([0, 1, 1], b) ∧
        b.Holds .amd64 Heap.empty [0x62, 0x63] h := by
  intro g chunk
  refine (receive_accumulates .amd64 g rfl 64 (by decide) Heap.empty
    [chunk 0x61, chunk 0x62, chunk 0x63] (by decide) fun n => n != 0).mono ?_
  rintro r h _ ⟨returned, s, htransferred, hholds, rfl, rfl, -, -⟩
  obtain _ | ⟨hfirst, _ | ⟨hsecond, _ | ⟨hthird, ⟨⟩⟩⟩⟩ := htransferred
  cases hfirst with
  | fits hroom => exact absurd hroom (by decide)
  | grown _ hgranted => cases hgranted
  | refused =>
    cases hsecond with
    | fits hroom => exact absurd hroom (by decide)
    | refused _ hrefused => cases hrefused
    | grown _ _ hkept htape =>
      cases hthird with
      | refused _ hrefused =>
        rw [htape] at hrefused
        cases hrefused
      | fits _ hkept' | grown _ _ hkept' =>
        rw [hkept', hkept] at hholds
        exact ⟨_, rfl, hholds⟩

end Audd
