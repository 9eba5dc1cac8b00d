import Audd.Allocator

/-! The release of response buffers.  A buffer grows by calls of `audd_realloc`, and
`audd_realloc_free` gives its last pointer to `audd_realloc` with size zero.  The emulation frees
the block there.  A `realloc` that is installed, or libc's, may return a live block instead, which
the caller drops. -/

namespace Audd

open Md5 (Byte)
open HeapM

section

variable (abi : Abi) (g : Allocators)

/-- Growth calls one after the other.  A refused one leaves the pointer that there was. -/
def growAll : Option Ptr → List Nat → HeapM Byte (Option Ptr)
  | p, [] => pure p
  | p, size :: sizes => do
    match ← auddRealloc abi g p size with
    | none => growAll p sizes
    | some q => growAll (some q) sizes

def growThenFree (sizes : List Nat) : HeapM Byte Unit := do
  let p ← growAll abi g none sizes
  auddReallocFree abi g p

/-- How far into its block the pointer is that the allocator gives. -/
def Allocators.start : Nat :=
  match g.gAlloc with
  | some ⟨none⟩ => abi.headerSize
  | _ => 0

/-- The sequence owns the block of its pointer, and has nothing else. -/
structure Owns (base h : Heap Byte) (q : Ptr) : Prop where
  start : q.offset = g.start abi
  new : ¬base.Live q.block
  live : ∀ c, h.Live c ↔ base.Live c ∨ c = q.block

/-- The same, for a pointer that is NULL when the sequence has nothing. -/
def Holding (base h : Heap Byte) : Option Ptr → Prop
  | none => ∀ c, h.Live c ↔ base.Live c
  | some q => Owns abi g base h q

end

section

variable {abi : Abi} {g : Allocators} {base h : Heap Byte} {q : Ptr}

theorem Owns.owned (ho : Owns abi g base h q) : h.Live q.block := (ho.live q.block).mpr (.inr rfl)

theorem Holding.fresh {p : Option Ptr} (hp : Holding abi g base h p) : ¬base.Live h.next := by
  intro hlive
  have hnext : h.Live h.next := by
    cases p with
    | none => exact (hp h.next).mpr hlive
    | some q => exact (hp.live h.next).mpr (.inl hlive)
  exact Nat.lt_irrefl _ hnext.lt_next

/-- What the emulation does once it has its new block: the old block is freed, whatever the accesses
in between find. -/
theorem emuRealloc_granted (hg : g.Emulates) {p : Option Ptr} (hp : Holding abi g base h p)
    (size : Nat) (cells : List (Option Byte)) :
    Silent (auddEmuRealloc.granted abi p size ⟨h.next, (0 : Nat)⟩) (h.alloc cells) fun out h' =>
      ∃ q, out = some q ∧ Owns abi g base h' q := by
  have hnew := hp.fresh
  have hstart : g.start abi = abi.headerSize := by rw [Allocators.start, hg]
  have halloc := h.live_alloc cells
  rw [auddEmuRealloc.granted, Ptr.add_mk, Nat.zero_add]
  refine (silent_store _ _ _).bind fun _ h₁ hlive₁ => ?_
  cases p with
  | none =>
    refine silent_pure ⟨_, rfl, by rw [hstart], hnew, fun c => ?_⟩
    rw [hlive₁, halloc, hp c]
  | some q =>
    obtain ⟨b, offset⟩ := q
    obtain rfl : offset = abi.headerSize := hp.start.trans (by rw [hstart])
    have hne : b ≠ h.next := Nat.ne_of_lt hp.owned.lt_next
    dsimp only
    rw [Ptr.sub_self]
    refine (silent_load _ _ _).bind fun values h₂ hlive₂ => ?_
    refine (silent_copy _ _ _ _).bind fun _ h₃ hlive₃ => ?_
    have hb : h₃.Live b := by
      rw [hlive₃, hlive₂, hlive₁, halloc]
      exact .inl hp.owned
    refine (silent_free hb).bind fun _ h₄ hlive₄ => silent_pure ⟨_, rfl, by rw [hstart], hnew, ?_⟩
    intro c
    rw [hlive₄, hlive₃, hlive₂, hlive₁, halloc, hp.live c]
    show ((base.Live c ∨ c = b) ∨ c = h.next) ∧ c ≠ b ↔ base.Live c ∨ c = h.next
    by_cases hcb : c = b
    · subst hcb
      simpa [hp.new] using hne
    · simp [hcb]

/-- A growth call: refused, it changes nothing, and granted, the sequence owns one block
afterwards, the old one being gone. -/
theorem emuRealloc_holding (hg : g.Emulates) {p : Option Ptr} (hp : Holding abi g base h p)
    {size : Nat} (hsize : 0 < size) (tape : Tape) :
    ∃ out h', (auddEmuRealloc abi p size h).run tape = ((out, h'), fun n => tape (n + 1)) ∧
      (tape 0 = false → out = none ∧ h' = h) ∧
      (tape 0 = true → ∃ q, out = some q ∧ Owns abi g base h' q) := by
  unfold auddEmuRealloc
  rw [if_neg (by omega), run_malloc_bind]
  cases htape : tape 0 with
  | false => exact ⟨none, h, rfl, fun _ => ⟨rfl, rfl⟩, fun h => by cases h⟩
  | true =>
    rw [if_pos rfl]
    obtain ⟨out, h', hrun, hout⟩ := (emuRealloc_granted hg hp size _).run
      fun n => tape (n + 1)
    exact ⟨out, h', hrun, (fun h => by cases h), fun _ => hout⟩

theorem start_of_not_emulates (abi : Abi) (hg : ¬g.Emulates) : g.start abi = 0 := by
  obtain ⟨libc, gAlloc⟩ := g
  cases gAlloc with
  | none => rfl
  | some a =>
    obtain ⟨reallocFn⟩ := a
    cases reallocFn with
    | none => exact absurd rfl hg
    | some stays => rfl

theorem Owns.whole (hg : ¬g.Emulates) (ho : Owns abi g base h q) :
    ∃ block, h.whole q = some block := by
  obtain ⟨block, hblock⟩ := Option.ne_none_iff_exists'.mp ho.owned
  have hq : q = ⟨q.block, (0 : Nat)⟩ := by
    rw [← start_of_not_emulates abi hg, ← ho.start]
  exact ⟨block, by rw [hq]; exact Heap.whole_start hblock⟩

/-- Without the sequence's block, what is live was live before. -/
theorem Owns.live_other (ho : Owns abi g base h q) (c : Nat) :
    h.Live c ∧ c ≠ q.block ↔ base.Live c := by
  rw [ho.live]
  by_cases hc : c = q.block
  · subst hc
    simp [ho.new]
  · simp [hc]

theorem auddRealloc_of_not_emulates (abi : Abi) (hg : ¬g.Emulates) :
    ∃ stays, ∀ p size, auddRealloc abi g p size = realloc stays p size := by
  obtain ⟨libc, gAlloc⟩ := g
  cases gAlloc with
  | none => exact ⟨libc, fun _ _ => rfl⟩
  | some a =>
    obtain ⟨reallocFn⟩ := a
    cases reallocFn with
    | none => exact absurd rfl hg
    | some stays => exact ⟨stays, fun _ _ => rfl⟩

theorem realloc_holding (hg : ¬g.Emulates) (stays : Placement) {p : Option Ptr}
    (hp : Holding abi g base h p) {size : Nat} (hsize : 0 < size) (tape : Tape) :
    ∃ out h', (realloc stays p size h).run tape = ((out, h'), fun n => tape (n + 1)) ∧
      (tape 0 = false → out = none ∧ h' = h) ∧
      (tape 0 = true → ∃ q, out = some q ∧ Owns abi g base h' q) := by
  have hnew := hp.fresh
  have hstart := start_of_not_emulates abi hg
  cases p with
  | none =>
    refine ⟨_, _, rfl, fun htape => by rw [htape]; exact ⟨rfl, rfl⟩, fun htape => ?_⟩
    rw [htape]
    refine ⟨_, rfl, by rw [hstart], hnew, fun c => ?_⟩
    show (h.alloc _).Live c ↔ _
    rw [h.live_alloc, hp c]
  | some q =>
    obtain ⟨block, hwhole⟩ := hp.whole hg
    cases htape : tape 0 with
    | false =>
      refine ⟨_, _, realloc_refused hwhole stays size htape, fun _ => ⟨rfl, ?_⟩, nofun⟩
      rw [if_neg (by omega)]
    | true =>
      obtain ⟨q', h', hrun, hoffset, hplace, hlive⟩ := realloc_granted hwhole stays size htape
      refine ⟨_, _, hrun, nofun, fun _ => ⟨q', rfl, by rw [hoffset, hstart]; rfl, ?_, fun c => ?_⟩⟩
      · obtain hq | hq := hplace
        · rw [hq]
          exact hp.new
        · rw [hq]
          exact hnew
      · rw [hlive, hp.live_other]

/-- A growth call, whichever allocator there is. -/
theorem auddRealloc_holding {p : Option Ptr} (hp : Holding abi g base h p) {size : Nat}
    (hsize : 0 < size) (tape : Tape) :
    ∃ out h', (auddRealloc abi g p size h).run tape = ((out, h'), fun n => tape (n + 1)) ∧
      (tape 0 = false → out = none ∧ h' = h) ∧
      (tape 0 = true → ∃ q, out = some q ∧ Owns abi g base h' q) := by
  by_cases hg : g.Emulates
  · rw [auddRealloc_emulates hg]
    exact emuRealloc_holding hg hp hsize tape
  · obtain ⟨stays, hrealloc⟩ := auddRealloc_of_not_emulates abi hg
    rw [hrealloc]
    exact realloc_holding hg stays hp hsize tape

/-- Growth calls, by induction on their sizes: the sequence has a block as soon as one of them is
granted, and has at most one. -/
theorem growAll_holding {sizes : List Nat} (hsizes : ∀ size ∈ sizes, 0 < size) {p : Option Ptr}
    (hp : Holding abi g base h p) (tape : Tape) :
    ∃ p' h', (growAll abi g p sizes h).run tape = ((p', h'), fun n => tape (n + sizes.length)) ∧
      Holding abi g base h' p' ∧ (p' = none ↔ p = none ∧ ∀ i < sizes.length, tape i = false) := by
  induction sizes generalizing p h tape with
  | nil => exact ⟨p, h, rfl, hp, by simp⟩
  | cons size sizes ih =>
    obtain ⟨hsize, hrest⟩ := List.forall_mem_cons.mp hsizes
    obtain ⟨out, h₁, hrun, hrefused, hgranted⟩ := auddRealloc_holding hp hsize tape
    have hfirst : (∀ i < (size :: sizes).length, tape i = false) ↔
        tape 0 = false ∧ ∀ i < sizes.length, tape (i + 1) = false := by
      rw [List.length_cons]
      exact Nat.forall_lt_succ_left
    have hbind : (growAll abi g p (size :: sizes) h).run tape =
        (growAll abi g (out.or p) sizes h₁).run fun n => tape (n + 1) := by
      show ((auddRealloc abi g p size h >>= _).run tape) = _
      rw [AllocM.run_bind, hrun]
      cases out <;> rfl
    rw [hbind]
    cases htape : tape 0 with
    | false =>
      obtain ⟨rfl, rfl⟩ := hrefused htape
      obtain ⟨p', h', hrun', hholding, hnone⟩ := ih hrest hp fun n => tape (n + 1)
      refine ⟨p', h', ?_, hholding, ?_⟩
      · rw [Option.none_or, hrun']
        simp only [Nat.add_assoc, List.length_cons]
      · rw [hnone, hfirst, htape]
        simp
    | true =>
      obtain ⟨q, rfl, howns⟩ := hgranted htape
      obtain ⟨p', h', hrun', hholding, hnone⟩ :=
        ih hrest (p := some q) howns fun n => tape (n + 1)
      refine ⟨p', h', ?_, hholding, ?_⟩
      · rw [Option.some_or, hrun']
        simp only [Nat.add_assoc, List.length_cons]
      · rw [hnone, hfirst, htape]
        simp

theorem Owns.fresh (ho : Owns abi g base h q) : ¬base.Live h.next := Holding.fresh (p := some q) ho

/-- The release drops what the size-zero call returns. -/
theorem reallocFree_released (ho : Owns abi g base h q) (tape : Tape) :
    (∀ c, ((auddReallocFree abi g (some q) h).run tape).1.2.Live c → base.Live c) ↔
      g.Emulates ∨ tape 0 = false := by
  have hdrop : ((auddReallocFree abi g (some q) h).run tape).1.2 =
      ((auddRealloc abi g (some q) 0 h).run tape).1.2 := by
    show ((auddRealloc abi g (some q) 0 h >>= fun r => pure ((), r.2)).run tape).1.2 = _
    rw [AllocM.run_bind]
    rfl
  rw [hdrop]
  by_cases hg : g.Emulates
  · obtain ⟨b, offset⟩ := q
    obtain rfl : offset = abi.headerSize := ho.start.trans (by rw [Allocators.start, hg])
    rw [auddRealloc_emulates hg]
    have hrelease : Silent (auddEmuRealloc abi (some ⟨b, abi.headerSize⟩) 0) h
        fun _ h' => ∀ c, h'.Live c ↔ h.Live c ∧ c ≠ b := by
      rw [auddEmuRealloc, if_pos rfl, Ptr.sub_self]
      exact (silent_free ho.owned).bind fun _ _ hlive => silent_pure hlive
    obtain ⟨out, h', hrun, hlive⟩ := hrelease.run tape
    rw [hrun]
    refine iff_of_true (fun c hc => ?_) (.inl hg)
    rw [← ho.live_other]
    exact (hlive c).mp hc
  · obtain ⟨stays, hrealloc⟩ := auddRealloc_of_not_emulates abi hg
    obtain ⟨block, hwhole⟩ := ho.whole hg
    rw [hrealloc]
    cases htape : tape 0 with
    | false =>
      rw [realloc_refused hwhole stays 0 htape, if_pos rfl]
      refine iff_of_true (fun c hc => ?_) (.inr rfl)
      rw [← ho.live_other]
      exact (h.live_remove q.block c).mp hc
    | true =>
      -- the block that is returned is live, and is not one of those that were there before
      obtain ⟨q', h', hrun, -, hplace, hlive⟩ := realloc_granted hwhole stays 0 htape
      rw [hrun]
      refine iff_of_false (fun hbase => ?_) (by simp [hg])
      have hq' := hbase q'.block ((hlive q'.block).mpr (.inr rfl))
      obtain hq | hq := hplace
      · exact ho.new (hq ▸ hq')
      · exact ho.fresh (hq ▸ hq')

/-- Growth calls and the release leave nothing live of what they obtained just when the emulation
frees it, no growth call was granted, or the size-zero `realloc` frees its block. -/
theorem growThenFree_released_iff (abi : Abi) (g : Allocators) (sizes : List Nat)
    (hsizes : ∀ size ∈ sizes, 0 < size) (base : Heap Byte) (tape : Tape) :
    (∀ b, ((growThenFree abi g sizes base).run tape).1.2.Live b → base.Live b) ↔
      g.Emulates ∨ (∀ i < sizes.length, tape i = false) ∨ tape sizes.length = false := by
  have hnothing : Holding abi g base base none := fun _ => Iff.rfl
  obtain ⟨p, h, hrun, hholding, hnone⟩ := growAll_holding hsizes hnothing tape
  have hbind : (growThenFree abi g sizes base).run tape =
      (auddReallocFree abi g p h).run fun n => tape (n + sizes.length) := by
    show ((growAll abi g none sizes base >>= fun r => auddReallocFree abi g r.1 r.2).run tape) = _
    rw [AllocM.run_bind, hrun]
  rw [hbind]
  cases p with
  | none =>
    have hrefused := (hnone.mp rfl).2
    exact iff_of_true (fun b hb => (hholding b).mp hb) (.inr (.inl hrefused))
  | some q =>
    have hgranted : ¬∀ i < sizes.length, tape i = false :=
      fun h => Option.some_ne_none q (hnone.mpr ⟨rfl, h⟩)
    rw [reallocFree_released hholding, Nat.zero_add]
    simp only [hgranted, false_or]

theorem growThenFree_released_amd64 :
    (∀ size ∈ [16, 32], 0 < size) ∧
      ∀ b, ((growThenFree .amd64 ⟨fun _ _ => false, some ⟨none⟩⟩ [16, 32] .empty).run
        plenty).1.2.Live b → (Heap.empty : Heap Byte).Live b :=
  ⟨by decide, (growThenFree_released_iff .amd64 ⟨fun _ _ => false, some ⟨none⟩⟩ [16, 32]
    (by decide) .empty plenty).mpr (.inl rfl)⟩

/-- All three hooks are installed.  One growth call, and the release: `realloc_fn(p, 0)` returns a
new block, and the block is still live. -/
theorem growThenFree_leaks : ∃ b, ¬(Heap.empty : Heap Byte).Live b ∧
    ((growThenFree .amd64 ⟨fun _ _ => false, some ⟨some fun _ _ => false⟩⟩ [16] .empty).run
      plenty).1.2.Live b :=
  ⟨1, fun h => h rfl, Option.some_ne_none []⟩

end

end Audd
