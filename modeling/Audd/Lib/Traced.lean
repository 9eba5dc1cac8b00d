import Audd.Lib.Alloc

/-! Computations that keep a record.  `Traced ε α` asks for memory as `AllocM α` does, and records
events on the way.  `erase` forgets the record, and `Each` is the rule for what holds of every
event, whatever is refused. -/

universe u

/-- A computation with the events that it records. -/
structure Traced (ε α : Type u) : Type u where
  recorded : AllocM (α × List ε)

namespace Traced

open AllocM

variable {ε α β : Type u}

instance : Monad (Traced ε) where
  pure a := ⟨pure (a, [])⟩
  bind x f := ⟨x.recorded >>= fun a => (f a.1).recorded >>= fun b => pure (b.1, a.2 ++ b.2)⟩

def record (e : ε) : Traced ε PUnit := ⟨pure (⟨⟩, [e])⟩

/-- A computation that records nothing. -/
def lift (x : AllocM α) : Traced ε α := ⟨x >>= fun a => pure (a, [])⟩

/-- The computation without its record. -/
def erase (x : Traced ε α) : AllocM α := x.recorded >>= fun a => pure a.1

/-- `P` holds of each event, whatever is refused. -/
def Each (P : ε → Prop) (x : Traced ε α) : Prop := x.recorded.Every fun a => ∀ e ∈ a.2, P e

theorem recorded_bind (x : Traced ε α) (f : α → Traced ε β) : (x >>= f).recorded =
    x.recorded >>= fun a => (f a.1).recorded >>= fun b => pure (b.1, a.2 ++ b.2) := rfl

/-! ### Forgetting the record -/

@[simp] theorem erase_pure (a : α) : (pure a : Traced ε α).erase = pure a := rfl

@[simp] theorem erase_record (e : ε) : (record e).erase = pure ⟨⟩ := rfl

@[simp] theorem erase_lift (x : AllocM α) : (lift x : Traced ε α).erase = x := by
  simp only [erase, lift, bind_assoc, pure_bind]
  exact bind_pure x

theorem erase_bind (x : Traced ε α) (f : α → Traced ε β) :
    (x >>= f).erase = x.erase >>= fun a => (f a).erase := by
  simp only [erase, recorded_bind, bind_assoc, pure_bind]

/-- The bind rule for forgetting. -/
theorem erase_bind_eq {x : Traced ε α} {y : AllocM α} {f : α → Traced ε β} {g : α → AllocM β}
    (hx : x.erase = y) (hf : ∀ a, (f a).erase = g a) : (x >>= f).erase = y >>= g := by
  rw [erase_bind, hx, funext hf]

theorem erase_lift_bind {x : AllocM α} {f : α → Traced ε β} {g : α → AllocM β}
    (hf : ∀ a, (f a).erase = g a) : (lift x >>= f).erase = x >>= g :=
  erase_bind_eq (erase_lift x) hf

/-! ### Every event -/

section

variable {P : ε → Prop} {A C : Prop}

@[simp] theorem each_pure (a : α) : (pure a : Traced ε α).Each P ↔ True :=
  iff_true_intro fun _ h => nomatch h

@[simp] theorem each_record (e : ε) : (record e).Each P ↔ P e := List.forall_mem_singleton

@[simp] theorem each_lift (x : AllocM α) : (lift x : Traced ε α).Each P ↔ True :=
  iff_true_intro (every_bind_of_forall (x := x) fun _ _ h => nomatch h)

/-- A composition records what its first part does, and then what the second does. -/
theorem each_bind (x : Traced ε α) (f : α → Traced ε β) :
    (x >>= f).Each P ↔ x.Each P ∧ x.erase.Every fun a => (f a).Each P := by
  simp only [Each, erase, recorded_bind, every_bind, every_pure, List.forall_mem_append, every_and,
    every_const]

/-- The bind rule, where what the second part records does not depend on the first. -/
theorem each_bind_iff {x : Traced ε α} {f : α → Traced ε β} (hx : x.Each P ↔ A)
    (hf : x.erase.Every fun a => (f a).Each P ↔ C) : (x >>= f).Each P ↔ A ∧ C := by
  rw [each_bind, hx]
  refine and_congr_right fun _ => ⟨fun h => ?_, fun h => hf.mono fun a ha => ha.mpr h⟩
  exact (every_const x.erase).mp ((hf.and h).mono fun a ha => ha.1.mp ha.2)

theorem each_lift_bind {x : AllocM α} {f : α → Traced ε β} (hf : ∀ a, (f a).Each P ↔ C) :
    (lift x >>= f).Each P ↔ C := by
  rw [each_bind_iff (each_lift x) (every_of_forall _ hf), true_and]

/-- A request goes on in two ways. -/
theorem each_copy_bind (a : α) (f : Option α → Traced ε β) :
    (lift (copy a) >>= f).Each P ↔ (f (some a)).Each P ∧ (f none).Each P := by
  rw [each_bind, each_lift, true_and, erase_lift, every_copy]

end

end Traced
