import Audd.Lib.Alloc
import Mathlib.Data.List.Basic
import Mathlib.Logic.Function.Basic

/-! A heap of blocks, and the C functions that work on it.  A block is the list of its cells, and a
cell that was not stored to holds nothing.  An access outside the live blocks marks the heap as
faulted, and the run goes on.  Requests for memory may be refused, as in `AllocM`.  `Ensures` says
what holds of a computation's outcome from a given heap under a given schedule, and the rules after
it give what each operation ensures where its accesses are inside. -/

/-- The live blocks.  None has been handed out from `next` on. -/
structure Heap (κ : Type) where
  blocks : Nat → Option (List (Option κ))
  next : Nat
  faulted : Bool
  fresh : ∀ b, next ≤ b → blocks b = none

structure Ptr where
  block : Nat
  offset : Int
deriving DecidableEq

namespace Ptr

def add (p : Ptr) (n : Nat) : Ptr := ⟨p.block, p.offset + n⟩

def sub (p : Ptr) (n : Nat) : Ptr := ⟨p.block, p.offset - n⟩

@[simp] theorem add_mk (b : Nat) (k n : Nat) : (⟨b, k⟩ : Ptr).add n = ⟨b, (k + n : Nat)⟩ := rfl

@[simp] theorem sub_self (b : Nat) (n : Nat) : (⟨b, n⟩ : Ptr).sub n = ⟨b, (0 : Nat)⟩ :=
  congrArg (Ptr.mk b) (Int.sub_self n)

end Ptr

namespace Heap

variable {κ : Type}

theorem fresh_empty (b : Nat) (_ : 0 ≤ b) :
    (fun _ : Nat => (none : Option (List (Option κ)))) b = none := rfl

def empty : Heap κ := ⟨fun _ => none, 0, false, fresh_empty⟩

def Live (h : Heap κ) (b : Nat) : Prop := h.blocks b ≠ none

/-! ### Cells -/

/-- Cells stored over those from `k` on. -/
def splice (block : List (Option κ)) (k : Nat) (cells : List (Option κ)) : List (Option κ) :=
  block.take k ++ cells ++ block.drop (k + cells.length)

theorem length_splice {block cells : List (Option κ)} {k : Nat}
    (hk : k + cells.length ≤ block.length) : (splice block k cells).length = block.length := by
  simp only [splice, List.length_append, List.length_take, List.length_drop]
  omega

theorem take_splice {block cells : List (Option κ)} {k n : Nat} (hn : n ≤ k)
    (hk : k ≤ block.length) : (splice block k cells).take n = block.take n := by
  rw [splice, List.append_assoc, List.take_append_of_le_length (by rw [List.length_take]; omega),
    List.take_take, Nat.min_eq_left hn]

/-- The cells up to the end of what was stored. -/
theorem take_splice_end {block cells : List (Option κ)} {k : Nat} (hk : k ≤ block.length) :
    (splice block k cells).take (k + cells.length) = block.take k ++ cells := by
  have hlength : (block.take k ++ cells).length = k + cells.length := by
    rw [List.length_append, List.length_take_of_le hk]
  rw [splice, ← hlength, List.take_left]

theorem drop_splice {block cells : List (Option κ)} {k n : Nat} (hk : n + k ≤ block.length) :
    (splice block (n + k) cells).drop n = splice (block.drop n) k cells := by
  rw [splice, splice, List.append_assoc, List.drop_append_of_le_length
    (by rw [List.length_take]; omega), List.drop_take, List.drop_drop, Nat.add_sub_cancel_left,
    List.append_assoc, Nat.add_assoc]

/-! ### Blocks -/

theorem fresh_modify {blocks : Nat → Option (List (Option κ))} {next : Nat}
    (fresh : ∀ b, next ≤ b → blocks b = none) (b : Nat)
    (f : List (Option κ) → Option (List (Option κ))) :
    ∀ c, next ≤ c → Function.update blocks b ((blocks b).bind f) c = none := by
  intro c hc
  by_cases hcb : c = b
  · subst hcb
    rw [Function.update_self, fresh c hc]
    rfl
  · rw [Function.update_of_ne hcb, fresh c hc]

/-- A live block changed, or removed. -/
def modify (h : Heap κ) (b : Nat) (f : List (Option κ) → Option (List (Option κ))) : Heap κ where
  blocks := Function.update h.blocks b ((h.blocks b).bind f)
  next := h.next
  faulted := h.faulted
  fresh := fresh_modify h.fresh b f

def set (h : Heap κ) (b : Nat) (block : List (Option κ)) : Heap κ := h.modify b fun _ => some block

def remove (h : Heap κ) (b : Nat) : Heap κ := h.modify b fun _ => none

theorem fresh_alloc {blocks : Nat → Option (List (Option κ))} {next : Nat}
    (fresh : ∀ b, next ≤ b → blocks b = none) (block : List (Option κ)) :
    ∀ c, next + 1 ≤ c → Function.update blocks next (some block) c = none := by
  intro c hc
  rw [Function.update_of_ne (by omega), fresh c (by omega)]

/-- A new block. -/
def alloc (h : Heap κ) (block : List (Option κ)) : Heap κ where
  blocks := Function.update h.blocks h.next (some block)
  next := h.next + 1
  faulted := h.faulted
  fresh := fresh_alloc h.fresh block

def fault (h : Heap κ) : Heap κ := { h with faulted := true }

/-- `n` cells at `p`, where they are inside a live block. -/
def inside (h : Heap κ) (p : Ptr) (n : Nat) : Option (List (Option κ)) :=
  (h.blocks p.block).filter fun block => 0 ≤ p.offset ∧ p.offset + n ≤ block.length

def read (h : Heap κ) (p : Ptr) (n : Nat) : List (Option κ) × Heap κ :=
  match h.inside p n with
  | some block => ((block.drop p.offset.toNat).take n, h)
  | none => (List.replicate n none, h.fault)

def write (h : Heap κ) (p : Ptr) (cells : List (Option κ)) : Heap κ :=
  match h.inside p cells.length with
  | some block => h.set p.block (splice block p.offset.toNat cells)
  | none => h.fault

/-- The block that begins at `p`. -/
def whole (h : Heap κ) (p : Ptr) : Option (List (Option κ)) :=
  (h.blocks p.block).filter fun _ => p.offset = 0

section

variable {h : Heap κ} {b : Nat} {block : List (Option κ)}

theorem blocks_set (hb : h.blocks b = some block) (block' : List (Option κ)) :
    (h.set b block').blocks = Function.update h.blocks b (some block') := by
  show Function.update h.blocks b ((h.blocks b).bind fun _ => some block') = _
  rw [hb]
  rfl

@[simp] theorem blocks_remove (h : Heap κ) (b : Nat) :
    (h.remove b).blocks = Function.update h.blocks b none := by
  show Function.update h.blocks b ((h.blocks b).bind fun _ => none) = _
  cases h.blocks b <;> rfl

theorem inside_eq (hb : h.blocks b = some block) {k n : Nat} (hk : k + n ≤ block.length) :
    h.inside ⟨b, k⟩ n = some block := by
  have hin : (0 : Int) ≤ k ∧ (k : Int) + n ≤ block.length := by omega
  simp [inside, hb, hin]

theorem read_eq (hb : h.blocks b = some block) {k n : Nat} (hk : k + n ≤ block.length) :
    h.read ⟨b, k⟩ n = ((block.drop k).take n, h) := by
  rw [read, inside_eq hb hk]
  rfl

theorem write_eq (hb : h.blocks b = some block) {k : Nat} {cells : List (Option κ)}
    (hk : k + cells.length ≤ block.length) :
    h.write ⟨b, k⟩ cells = h.set b (splice block k cells) := by
  rw [write, inside_eq hb hk]
  rfl

theorem whole_start (hb : h.blocks b = some block) : h.whole ⟨b, (0 : Nat)⟩ = some block := by
  simp [whole, hb]

/-! ### Which blocks are live -/

theorem live_set (hb : h.Live b) (block' : List (Option κ)) (c : Nat) :
    (h.set b block').Live c ↔ h.Live c := by
  obtain ⟨block, hblock⟩ := Option.ne_none_iff_exists'.mp hb
  rw [Live, Live, blocks_set hblock]
  by_cases hcb : c = b
  · subst hcb
    simp [hblock]
  · rw [Function.update_of_ne hcb]

theorem live_remove (h : Heap κ) (b c : Nat) : (h.remove b).Live c ↔ h.Live c ∧ c ≠ b := by
  rw [Live, Live, blocks_remove]
  by_cases hcb : c = b
  · simp [hcb]
  · simp [hcb]

theorem live_alloc (h : Heap κ) (block : List (Option κ)) (c : Nat) :
    (h.alloc block).Live c ↔ h.Live c ∨ c = h.next := by
  rw [Live, Live, alloc]
  by_cases hc : c = h.next
  · simp [hc]
  · simp [hc]

theorem Live.lt_next (hb : h.Live b) : b < h.next := by
  by_contra hge
  exact hb (h.fresh b (by omega))

/-- Neither reading nor writing frees a block or makes one, also where it faults. -/
theorem live_write (h : Heap κ) (p : Ptr) (cells : List (Option κ)) (c : Nat) :
    (h.write p cells).Live c ↔ h.Live c := by
  rw [write]
  cases hin : h.inside p cells.length with
  | none => exact Iff.rfl
  | some block =>
    obtain ⟨hblock, -⟩ := Option.filter_eq_some_iff.mp hin
    exact live_set (by rw [Live, hblock]; exact Option.some_ne_none block) _ c

theorem live_faulting (h : Heap κ) (inside : Prop) [Decidable inside] (c : Nat) :
    (if inside then h else h.fault).Live c ↔ h.Live c := by
  split <;> exact Iff.rfl

theorem live_read (h : Heap κ) (p : Ptr) (n c : Nat) : (h.read p n).2.Live c ↔ h.Live c := by
  rw [read]
  cases h.inside p n <;> exact Iff.rfl

end

end Heap

/-! ### Computations -/

def HeapM (κ α : Type) : Type := Heap κ → AllocM (α × Heap κ)

namespace HeapM

variable {κ α β : Type}

instance : Monad (HeapM κ) where
  pure a := fun h => pure (a, h)
  bind x f := fun h => x h >>= fun r => f r.1 r.2

/-- `malloc(size)`. -/
def malloc (size : Nat) : HeapM κ (Option Ptr) := fun h =>
  .malloc fun granted => .done
    (if granted then (some ⟨h.next, (0 : Nat)⟩, h.alloc (List.replicate size none)) else (none, h))

/-- `free(p)`, for a pointer to the start of a live block. -/
def free (p : Ptr) : HeapM κ Unit := fun h =>
  pure ((), if (h.whole p).isSome then h.remove p.block else h.fault)

def store (p : Ptr) (values : List κ) : HeapM κ Unit := fun h =>
  pure ((), h.write p (values.map some))

/-- The values of `n` cells, each of which must hold one. -/
def load (p : Ptr) (n : Nat) : HeapM κ (List κ) := fun h =>
  let (cells, h) := h.read p n
  pure (cells.reduceOption, if cells.all Option.isSome then h else h.fault)

/-- `memcpy(dst, src, n)`, which copies cells that hold nothing as well. -/
def copy (dst src : Ptr) (n : Nat) : HeapM κ Unit := fun h =>
  let (cells, h) := h.read src n
  let overlap := dst.block = src.block ∧ dst.offset < src.offset + n ∧ src.offset < dst.offset + n
  pure ((), if overlap then h.fault else h.write dst cells)

/-- A block of another size: the cells that both have, and new ones. -/
def refit (block : List (Option κ)) (size : Nat) : List (Option κ) :=
  block.take size ++ List.replicate (size - block.length) none

/-- C's `realloc`.  `stays` is whether it keeps a block where it is.  A refused request leaves the
block alone; for size zero, it is the outcome in which the block is freed, and the other one returns
a live block. -/
def realloc (stays : Ptr → Nat → Bool) (ptr : Option Ptr) (size : Nat) : HeapM κ (Option Ptr) :=
  match ptr with
  | none => malloc size
  | some p => fun h =>
    .malloc fun granted => .done
      (match h.whole p with
      | none => (none, h.fault)
      | some block =>
        if granted then
          if stays p size then (some p, h.set p.block (refit block size))
          else (some ⟨h.next, (0 : Nat)⟩, (h.alloc (refit block size)).remove p.block)
        else (none, if size = 0 then h.remove p.block else h))

/-! ### What a computation ensures -/

/-- `Q` holds of the outcome from `h` under a schedule, and of what is left of the schedule. -/
def Ensures (x : HeapM κ α) (h : Heap κ) (tape : Tape) (Q : α → Heap κ → Tape → Prop) : Prop :=
  Q ((x h).run tape).1.1 ((x h).run tape).1.2 ((x h).run tape).2

section

variable {h : Heap κ} {tape : Tape} {Q : α → Heap κ → Tape → Prop} {b : Nat}
  {block : List (Option κ)}

theorem ensures_bind {R : β → Heap κ → Tape → Prop} (x : HeapM κ α) (f : α → HeapM κ β) :
    Ensures (x >>= f) h tape R ↔
      Ensures x h tape fun a h' tape' => Ensures (f a) h' tape' R := by
  have hrun : ((x >>= f) h).run tape = _ := AllocM.run_bind (x h) (fun r => f r.1 r.2) tape
  rw [Ensures, hrun]
  exact Iff.rfl

theorem ensures_pure {a : α} (hQ : Q a h tape) : Ensures (pure a) h tape Q := hQ

theorem Ensures.mono {R : α → Heap κ → Tape → Prop} {x : HeapM κ α} (hx : Ensures x h tape Q)
    (hQR : ∀ a h' tape', Q a h' tape' → R a h' tape') : Ensures x h tape R :=
  hQR _ _ _ hx

/-- The bind rule: what the first part leaves carries the second. -/
theorem Ensures.bind {R : β → Heap κ → Tape → Prop} {x : HeapM κ α} {f : α → HeapM κ β}
    (hx : Ensures x h tape Q) (hf : ∀ a h' tape', Q a h' tape' → Ensures (f a) h' tape' R) :
    Ensures (x >>= f) h tape R := by
  rw [ensures_bind]
  exact hx.mono hf

theorem ensures_malloc {Q : Option Ptr → Heap κ → Tape → Prop} {size : Nat}
    (hnone : tape 0 = false → Q none h fun n => tape (n + 1))
    (hsome : tape 0 = true → Q (some ⟨h.next, (0 : Nat)⟩) (h.alloc (List.replicate size none))
      fun n => tape (n + 1)) : Ensures (malloc size) h tape Q := by
  show Q (if tape 0 = true then _ else _ : Option Ptr × Heap κ).1
    (if tape 0 = true then _ else _ : Option Ptr × Heap κ).2 _
  cases hgranted : tape 0 with
  | false => exact hnone hgranted
  | true => exact hsome hgranted

theorem ensures_free {Q : Unit → Heap κ → Tape → Prop} (hb : h.blocks b = some block)
    (hQ : Q () (h.remove b) tape) : Ensures (free ⟨b, (0 : Nat)⟩) h tape Q := by
  show Q () (if (h.whole ⟨b, (0 : Nat)⟩).isSome then h.remove b else h.fault) tape
  rw [Heap.whole_start hb, if_pos (show (some block).isSome = true from rfl)]
  exact hQ

theorem ensures_store {Q : Unit → Heap κ → Tape → Prop} {k : Nat} {values : List κ}
    (hb : h.blocks b = some block) (hk : k + values.length ≤ block.length)
    (hQ : Q () (h.set b (Heap.splice block k (values.map some))) tape) :
    Ensures (store ⟨b, k⟩ values) h tape Q := by
  show Q () (h.write ⟨b, k⟩ (values.map some)) tape
  rw [Heap.write_eq hb (by rwa [List.length_map])]
  exact hQ

theorem ensures_load {Q : List κ → Heap κ → Tape → Prop} {k n : Nat} {values : List κ}
    (hb : h.blocks b = some block) (hk : k + n ≤ block.length)
    (hvalues : (block.drop k).take n = values.map some) (hQ : Q values h tape) :
    Ensures (load ⟨b, k⟩ n) h tape Q := by
  have hread : h.read ⟨b, k⟩ n = (values.map some, h) := by rw [Heap.read_eq hb hk, hvalues]
  have hall : (values.map some).all Option.isSome = true := by simp
  have hvals : (values.map some).reduceOption = values := by
    show (values.map some).filterMap id = values
    rw [List.filterMap_map]
    exact List.filterMap_some
  show Q (h.read ⟨b, k⟩ n).1.reduceOption
    (if (h.read ⟨b, k⟩ n).1.all Option.isSome then (h.read ⟨b, k⟩ n).2
      else (h.read ⟨b, k⟩ n).2.fault) tape
  rw [hread, if_pos hall, hvals]
  exact hQ

/-- A copy from one block to another. -/
theorem ensures_copy {Q : Unit → Heap κ → Tape → Prop} {c k m n : Nat} {target : List (Option κ)}
    (hb : h.blocks b = some block) (hc : h.blocks c = some target) (hcb : c ≠ b)
    (hk : k + n ≤ block.length) (hm : m + n ≤ target.length)
    (hQ : Q () (h.set c (Heap.splice target m ((block.drop k).take n))) tape) :
    Ensures (copy ⟨c, m⟩ ⟨b, k⟩ n) h tape Q := by
  have hlength : ((block.drop k).take n).length = n := by
    rw [List.length_take, List.length_drop]
    omega
  have hwrite := Heap.write_eq hc (show m + ((block.drop k).take n).length ≤ target.length by omega)
  show Q () (if c = b ∧ _ then (h.read ⟨b, k⟩ n).2.fault
    else (h.read ⟨b, k⟩ n).2.write ⟨c, m⟩ (h.read ⟨b, k⟩ n).1) tape
  rw [if_neg (fun h => hcb h.1), Heap.read_eq hb hk, hwrite]
  exact hQ

end

/-! ### Computations without requests -/

/-- The computation makes no request from `h`, and `Q` holds of its outcome. -/
def Silent (x : HeapM κ α) (h : Heap κ) (Q : α → Heap κ → Prop) : Prop :=
  ∃ a h', x h = pure (a, h') ∧ Q a h'

section

variable {h : Heap κ} {Q : α → Heap κ → Prop}

theorem silent_pure {a : α} (hQ : Q a h) : Silent (pure a) h Q := ⟨a, h, rfl, hQ⟩

theorem Silent.bind {R : β → Heap κ → Prop} {x : HeapM κ α} {f : α → HeapM κ β}
    (hx : Silent x h Q) (hf : ∀ a h', Q a h' → Silent (f a) h' R) : Silent (x >>= f) h R := by
  obtain ⟨a, h₁, hx, hQ⟩ := hx
  obtain ⟨b, h₂, hf, hR⟩ := hf a h₁ hQ
  refine ⟨b, h₂, ?_, hR⟩
  show x h >>= (fun r => f r.1 r.2) = _
  rw [hx]
  exact hf

theorem Silent.run {x : HeapM κ α} (hx : Silent x h Q) (tape : Tape) :
    ∃ a h', (x h).run tape = ((a, h'), tape) ∧ Q a h' := by
  obtain ⟨a, h', hx, hQ⟩ := hx
  exact ⟨a, h', by rw [hx]; rfl, hQ⟩

/-- Accesses free nothing, wherever they fall. -/
theorem silent_store (h : Heap κ) (p : Ptr) (values : List κ) :
    Silent (store p values) h fun _ h' => ∀ c, h'.Live c ↔ h.Live c :=
  ⟨_, _, rfl, h.live_write p _⟩

theorem silent_load (h : Heap κ) (p : Ptr) (n : Nat) :
    Silent (load p n) h fun _ h' => ∀ c, h'.Live c ↔ h.Live c := by
  refine ⟨_, _, rfl, fun c => ?_⟩
  exact (Heap.live_faulting _ _ c).trans (h.live_read p n c)

theorem silent_copy (h : Heap κ) (dst src : Ptr) (n : Nat) :
    Silent (copy dst src n) h fun _ h' => ∀ c, h'.Live c ↔ h.Live c := by
  refine ⟨_, _, rfl, fun c => ?_⟩
  have hread := h.live_read src n c
  by_cases hoverlap : dst.block = src.block ∧ dst.offset < src.offset + n ∧
      src.offset < dst.offset + n
  · rw [if_pos hoverlap]
    exact hread
  · rw [if_neg hoverlap]
    exact ((h.read src n).2.live_write dst _ c).trans hread

theorem silent_free {b : Nat} (hb : h.Live b) :
    Silent (free ⟨b, (0 : Nat)⟩) h fun _ h' => ∀ c, h'.Live c ↔ h.Live c ∧ c ≠ b := by
  obtain ⟨block, hblock⟩ := Option.ne_none_iff_exists'.mp hb
  refine ⟨_, _, rfl, fun c => ?_⟩
  rw [Heap.whole_start hblock, if_pos (show (some block).isSome = true from rfl)]
  exact h.live_remove b c

/-- A request, and what follows it. -/
theorem run_malloc_bind (size : Nat) (f : Option Ptr → HeapM κ α) (h : Heap κ) (tape : Tape) :
    ((malloc size >>= f) h).run tape =
      (if tape 0 then f (some ⟨h.next, (0 : Nat)⟩) (h.alloc (List.replicate size none))
        else f none h).run fun n => tape (n + 1) := by
  show (AllocM.run (f _ _) _) = _
  cases tape 0 <;> rfl

/-- A size that is granted: the block is where the new pointer says. -/
theorem realloc_granted {h : Heap κ} {p : Ptr} {block : List (Option κ)}
    (hp : h.whole p = some block) (stays : Ptr → Nat → Bool) (size : Nat) {tape : Tape}
    (htape : tape 0 = true) :
    ∃ q h', (realloc stays (some p) size h).run tape = ((some q, h'), fun n => tape (n + 1)) ∧
      q.offset = 0 ∧ (q.block = p.block ∨ q.block = h.next) ∧
      ∀ c, h'.Live c ↔ (h.Live c ∧ c ≠ p.block) ∨ c = q.block := by
  obtain ⟨hblock, hstart⟩ := Option.filter_eq_some_iff.mp hp
  have hlive : h.Live p.block := by
    rw [Heap.Live, hblock]
    exact Option.some_ne_none block
  have hrun : (realloc stays (some p) size h).run tape =
      (if stays p size then (some p, h.set p.block (refit block size))
        else (some ⟨h.next, (0 : Nat)⟩, (h.alloc (refit block size)).remove p.block),
        fun n => tape (n + 1)) := by
    show ((match h.whole p with | none => _ | some block => if tape 0 then _ else _), _) = _
    rw [hp, htape]
    rfl
  rw [hrun]
  by_cases hstays : stays p size = true
  · refine ⟨p, _, by rw [if_pos hstays], of_decide_eq_true hstart, .inl rfl, fun c => ?_⟩
    rw [Heap.live_set hlive]
    by_cases hc : c = p.block
    · subst hc
      simp [hlive]
    · simp [hc]
  · have hne : h.next ≠ p.block := (Nat.ne_of_lt hlive.lt_next).symm
    refine ⟨_, _, by rw [if_neg hstays], rfl, .inr rfl, fun c => ?_⟩
    rw [Heap.live_remove, Heap.live_alloc]
    by_cases hc : c = h.next
    · subst hc
      simp [hne]
    · simp [hc]

/-- A size that is refused, size zero being the block's release. -/
theorem realloc_refused {h : Heap κ} {p : Ptr} {block : List (Option κ)}
    (hp : h.whole p = some block) (stays : Ptr → Nat → Bool) (size : Nat) {tape : Tape}
    (htape : tape 0 = false) :
    (realloc stays (some p) size h).run tape =
      ((none, if size = 0 then h.remove p.block else h), fun n => tape (n + 1)) := by
  show ((match h.whole p with | none => _ | some block => if tape 0 then _ else _), _) = _
  rw [hp, htape]
  rfl

end

end HeapM
