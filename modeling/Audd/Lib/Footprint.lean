import Audd.Lib.Heap
import Mathlib.Algebra.Order.Group.Multiset
import Mathlib.Data.Multiset.Range

/-! What a computation on the heap owns, and how it refines one without a heap.  A footprint is a
multiset of blocks with their cells; the heap is just a footprint when its live blocks are those of
the footprint, each once.  `Refines m x y Q` says that `x`, from any heap that is `m` and a rest,
makes the requests of `y`, leaves the rest alone and faults nowhere, and that `Q` relates its result
to the one of `y` and to what it owns then. -/

abbrev Footprint (κ : Type) : Type := Multiset (Nat × List (Option κ))

/-- The live blocks of the heap are those of the footprint. -/
structure Heap.Is {κ : Type} (h : Heap κ) (m : Footprint κ) : Prop where
  nodup : (m.map Prod.fst).Nodup
  blocks : ∀ b block, h.blocks b = some block ↔ (b, block) ∈ m
  sound : h.faulted = false

namespace Heap.Is

variable {κ : Type} {h : Heap κ} {m : Footprint κ} {b : Nat} {block block' : List (Option κ)}

theorem empty : (Heap.empty : Heap κ).Is 0 where
  nodup := Multiset.nodup_zero
  blocks _ _ := iff_of_false nofun (Multiset.notMem_zero _)
  sound := rfl

theorem live_iff (hm : h.Is m) (c : Nat) : h.Live c ↔ c ∈ m.map Prod.fst := by
  rw [Heap.Live, Option.ne_none_iff_exists', Multiset.mem_map]
  constructor
  · rintro ⟨block, hc⟩
    exact ⟨_, (hm.blocks c block).1 hc, rfl⟩
  · rintro ⟨⟨b, block⟩, hmem, rfl⟩
    exact ⟨block, (hm.blocks b block).2 hmem⟩

theorem get (hm : h.Is ((b, block) ::ₘ m)) : h.blocks b = some block :=
  (hm.blocks b block).2 (Multiset.mem_cons_self _ _)

theorem notMem (hm : h.Is ((b, block) ::ₘ m)) (block' : List (Option κ)) : (b, block') ∉ m := by
  have hnodup := hm.nodup
  rw [Multiset.map_cons, Multiset.nodup_cons] at hnodup
  exact fun hmem => hnodup.1 (Multiset.mem_map.2 ⟨_, hmem, rfl⟩)

theorem alloc (hm : h.Is m) (block : List (Option κ)) :
    (h.alloc block).Is ((h.next, block) ::ₘ m) where
  nodup := by
    rw [Multiset.map_cons, Multiset.nodup_cons]
    refine ⟨fun hmem => ?_, hm.nodup⟩
    exact Nat.lt_irrefl _ ((hm.live_iff h.next).2 hmem).lt_next
  blocks c block' := by
    show Function.update h.blocks h.next (some block) c = some block' ↔ _
    rw [Multiset.mem_cons, Prod.mk.injEq, ← hm.blocks]
    by_cases hc : c = h.next
    · subst hc
      rw [Function.update_self, h.fresh h.next (Nat.le_refl _)]
      simp [eq_comm]
    · rw [Function.update_of_ne hc]
      simp [hc]
  sound := hm.sound

theorem set (hm : h.Is ((b, block) ::ₘ m)) (block' : List (Option κ)) :
    (h.set b block').Is ((b, block') ::ₘ m) where
  nodup := by
    have hnodup := hm.nodup
    rwa [Multiset.map_cons] at hnodup ⊢
  blocks c block'' := by
    rw [Heap.blocks_set hm.get, Multiset.mem_cons, Prod.mk.injEq]
    by_cases hc : c = b
    · subst hc
      rw [Function.update_self]
      simp [hm.notMem block'', eq_comm]
    · rw [Function.update_of_ne hc, hm.blocks]
      simp [hc]
  sound := hm.sound

theorem remove (hm : h.Is ((b, block) ::ₘ m)) : (h.remove b).Is m where
  nodup := by
    have hnodup := hm.nodup
    rw [Multiset.map_cons, Multiset.nodup_cons] at hnodup
    exact hnodup.2
  blocks c block' := by
    rw [Heap.blocks_remove]
    by_cases hc : c = b
    · subst hc
      rw [Function.update_self]
      simp [hm.notMem block']
    · rw [Function.update_of_ne hc, hm.blocks, Multiset.mem_cons, Prod.mk.injEq]
      simp [hc]
  sound := hm.sound

/-- There are no more blocks than were ever handed out. -/
theorem card_le (hm : h.Is m) : m.card ≤ h.next := by
  have hle : m.map Prod.fst ≤ Multiset.range h.next := by
    rw [Multiset.le_iff_subset hm.nodup]
    intro c hc
    exact Multiset.mem_range.2 ((hm.live_iff c).2 hc).lt_next
  have hcard := Multiset.card_le_card hle
  rwa [Multiset.card_map, Multiset.card_range] at hcard

end Heap.Is

namespace HeapM

variable {κ α β γ δ : Type}

def Refines (m : Footprint κ) (x : HeapM κ α) (y : AllocM β)
    (Q : α → β → Footprint κ → Prop) : Prop :=
  ∀ h rest, h.Is (m + rest) →
    (x h).Alike (fun r b => ∃ m', r.2.Is (m' + rest) ∧ Q r.1 b m') y

instance : LawfulMonad (HeapM κ) := LawfulMonad.mk' (HeapM κ)
  (fun x => funext fun h => AllocM.bind_pure (x h))
  (fun _ _ => rfl)
  (fun x _ _ => funext fun h => AllocM.bind_assoc (x h) _ _)

section

variable {m n : Footprint κ} {x : HeapM κ α} {y : AllocM β} {Q : α → β → Footprint κ → Prop}

/-- What a whole run leaves, under any schedule. -/
theorem Refines.run (hx : Refines m x y Q) {h : Heap κ} {rest : Footprint κ}
    (hm : h.Is (m + rest)) (tape : Tape) : ∃ a h' m', (x h).run tape = ((a, h'), (y.run tape).2) ∧
      h'.Is (m' + rest) ∧ Q a (y.run tape).1 m' := by
  obtain ⟨htape, m', hm', hQ⟩ := AllocM.Alike.run (hx h rest hm) tape
  exact ⟨_, _, m', Prod.ext rfl htape, hm', hQ⟩

theorem Refines.cast (hmn : m = n) (hx : Refines n x y Q) : Refines m x y Q := hmn ▸ hx

theorem Refines.mono {R : α → β → Footprint κ → Prop} (hx : Refines m x y Q)
    (hQR : ∀ a b m', Q a b m' → R a b m') : Refines m x y R := by
  intro h rest hm
  refine (hx h rest hm).mono ?_
  rintro r b ⟨m', hm', hQ⟩
  exact ⟨m', hm', hQR _ _ _ hQ⟩

theorem Refines.map {g : β → δ} {R : α → δ → Footprint κ → Prop} (hx : Refines m x y Q)
    (hQR : ∀ a b m', Q a b m' → R a (g b) m') :
    Refines m x (y >>= fun b => Pure.pure (g b)) R := by
  intro h rest hm
  rw [← AllocM.bind_pure (x h)]
  refine (hx h rest hm).bind ?_
  rintro r b ⟨m', hm', hQ⟩
  exact ⟨m', hm', hQR _ _ _ hQ⟩

theorem Refines.pure {a : α} {b : β} (hQ : Q a b m) : Refines m (pure a) (pure b) Q :=
  fun _ _ hm => ⟨m, hm, hQ⟩

/-- The bind rule, with a frame that the first part does not touch. -/
theorem Refines.bind {f : α → HeapM κ γ} {g : β → AllocM δ} {R : γ → δ → Footprint κ → Prop}
    (hx : Refines m x y Q) (hf : ∀ a b m', Q a b m' → Refines (m' + n) (f a) (g b) R) :
    Refines (m + n) (x >>= f) (y >>= g) R := by
  intro h rest hm
  rw [add_assoc] at hm
  refine (hx h (n + rest) hm).bind ?_
  rintro ⟨a, h'⟩ b ⟨m', hm', hQ⟩
  rw [← add_assoc] at hm'
  exact hf a b m' hQ h' rest hm'

/-- A first part that asks for nothing. -/
theorem Refines.seq {b : β} {f : α → HeapM κ γ} {y : AllocM δ} {R : γ → δ → Footprint κ → Prop}
    (hx : Refines m x (AllocM.done b) Q)
    (hf : ∀ a m', Q a b m' → Refines (m' + n) (f a) y R) : Refines (m + n) (x >>= f) y R := by
  intro h rest hm
  rw [add_assoc] at hm
  have hfirst := hx h (n + rest) hm
  show ((x h) >>= fun r => f r.1 r.2).Alike _ y
  cases hxh : x h with
  | done r =>
    rw [hxh] at hfirst
    obtain ⟨m', hm', hQ⟩ := hfirst
    rw [← add_assoc] at hm'
    exact hf r.1 m' hQ r.2 rest hm'
  | malloc next =>
    rw [hxh] at hfirst
    exact hfirst.elim

/-- Another result for the same computation, which asks for nothing. -/
theorem Refines.done {b : β} {b' : δ} {R : α → δ → Footprint κ → Prop}
    (hx : Refines m x (AllocM.done b) Q) (hQR : ∀ a m', Q a b m' → R a b' m') :
    Refines m x (AllocM.done b') R := by
  intro h rest hm
  have halike := hx h rest hm
  cases hxh : x h with
  | done r =>
    rw [hxh] at halike
    obtain ⟨m', hm', hQ⟩ := halike
    exact ⟨m', hm', hQR _ _ hQ⟩
  | malloc next =>
    rw [hxh] at halike
    exact halike.elim

/-- A run that is bounded by the blocks that there are. -/
def bounded (x : Nat → HeapM κ α) : HeapM κ α := fun h => x (h.next + 1) h

theorem refines_bounded {x : Nat → HeapM κ α} {f : α → HeapM κ γ} {y : AllocM δ}
    {R : γ → δ → Footprint κ → Prop}
    (hx : ∀ fuel, m.card < fuel → Refines m (x fuel >>= f) y R) :
    Refines m (bounded x >>= f) y R := by
  intro h rest hm
  have hcard := hm.card_le
  rw [Multiset.card_add] at hcard
  exact hx (h.next + 1) (by omega) h rest hm

/-! ### Operations -/

theorem refines_malloc {Q : Option Ptr → Option β → Footprint κ → Prop} {size : Nat} {c : β}
    (hnone : Q none none m)
    (hsome : ∀ b, Q (some ⟨b, (0 : Nat)⟩) (some c) ({(b, List.replicate size none)} + m)) :
    Refines m (malloc size) (AllocM.copy c) Q := by
  intro h rest hm granted
  cases granted with
  | false => exact ⟨m, hm, hnone⟩
  | true =>
    refine ⟨_, ?_, hsome h.next⟩
    rw [add_assoc, Multiset.singleton_add]
    exact hm.alloc _

theorem refines_free {Q : Unit → Unit → Footprint κ → Prop} {b : Nat} {block : List (Option κ)}
    (hQ : Q () () m) :
    Refines ((b, block) ::ₘ m) (free ⟨b, (0 : Nat)⟩) (AllocM.done ()) Q := by
  intro h rest hm
  rw [Multiset.cons_add] at hm
  refine ⟨m, ?_, hQ⟩
  show (if (h.whole ⟨b, (0 : Nat)⟩).isSome then h.remove b else h.fault).Is (m + rest)
  rw [Heap.whole_start hm.get, if_pos (show (some block).isSome = true from rfl)]
  exact hm.remove

/-- Cells stored behind the first `k` of a block. -/
theorem refines_store {b k : Nat} {block : List (Option κ)} {values : List κ}
    {f : Unit → HeapM κ γ} {y : AllocM δ} {R : γ → δ → Footprint κ → Prop}
    (hk : k + values.length ≤ block.length)
    (hf : Refines ({(b, Heap.splice block k (values.map some))} + m) (f ()) y R) :
    Refines ({(b, block)} + m) (store ⟨b, k⟩ values >>= f) y R := by
  intro h rest hm
  rw [add_assoc, Multiset.singleton_add] at hm
  have hwrite : h.write ⟨b, k⟩ (values.map some) = _ :=
    Heap.write_eq hm.get (by rwa [List.length_map])
  show (f () (h.write ⟨b, k⟩ (values.map some))).Alike _ y
  rw [hwrite]
  refine hf _ rest ?_
  rw [add_assoc, Multiset.singleton_add]
  exact hm.set _

end

end HeapM
