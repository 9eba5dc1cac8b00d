import Audd.Lib.Alloc
import Mathlib.Logic.Function.Basic

/-! Which requests a computation can do without.  `Depends` marks each request that it makes when
none before is refused: where a marked one is refused, its result shows it, and the others change
nothing.  A computation is marked part by part. -/

universe u v w

/-- The schedule of the requests after the first `n`. -/
def Tape.later (n : Nat) (tape : Tape) : Tape := fun k => tape (k + n)

/-- Every marked request is granted. -/
def Granted (needs : List Bool) (tape : Tape) : Prop := ∀ i, needs[i]? = some true → tape i = true

theorem granted_nil (tape : Tape) : Granted [] tape := fun _ h => nomatch h

theorem granted_cons {need : Bool} {needs : List Bool} {tape : Tape} :
    Granted (need :: needs) tape ↔ (need = true → tape 0 = true) ∧
      Granted needs (Tape.later 1 tape) := by
  refine ⟨fun h => ⟨fun hneed => h 0 (by rw [hneed]; rfl), fun i hi => h (i + 1) hi⟩, ?_⟩
  rintro ⟨hfirst, hrest⟩ (_ | i) hi
  · exact hfirst (Option.some.inj hi)
  · exact hrest i hi

/-- Nothing is needed. -/
theorem granted_of_all_false {needs : List Bool} (h : ∀ need ∈ needs, need = false) (tape : Tape) :
    Granted needs tape := fun i hi => by
  cases h true (List.mem_of_getElem? hi)

@[simp] theorem later_zero (tape : Tape) : Tape.later 0 tape = tape := rfl

theorem later_later (m n : Nat) (tape : Tape) :
    Tape.later n (Tape.later m tape) = Tape.later (n + m) tape := by
  funext k
  simp only [Tape.later, Nat.add_assoc]

theorem granted_append {needs more : List Bool} {tape : Tape} :
    Granted (needs ++ more) tape ↔ Granted needs tape ∧
      Granted more (Tape.later needs.length tape) := by
  induction needs generalizing tape with
  | nil => simp [granted_nil]
  | cons need needs ih =>
    rw [List.cons_append, granted_cons, granted_cons, ih, later_later, List.length_cons, and_assoc]

namespace AllocM

variable {α β : Type u} {γ : Type v} {δ : Type w}

/-- The requests of `x`, in order, with those that its result needs marked.  `view` is the part of
the result that shows a refusal. -/
structure Depends (view : α → γ) (x : AllocM α) (needs : List Bool) : Prop where
  kept : ∀ tape, Granted needs tape → x.run tape = (x.ok, Tape.later needs.length tape)
  lost : ∀ tape, ¬Granted needs tape → view (x.run tape).1 ≠ view x.ok

theorem Depends.congr {view : α → γ} {x : AllocM α} {needs needs' : List Bool}
    (h : needs = needs') (hx : x.Depends view needs) : x.Depends view needs' := h ▸ hx

theorem Depends.comp {view : α → γ} {x : AllocM α} {needs : List Bool} (h : x.Depends view needs)
    {φ : γ → δ} (hφ : Function.Injective φ) : x.Depends (φ ∘ view) needs where
  kept := h.kept
  lost tape hrefused heq := h.lost tape hrefused (hφ heq)

theorem depends_pure (view : α → γ) (a : α) : (pure a : AllocM α).Depends view [] where
  kept _ _ := rfl
  lost tape h := absurd (granted_nil tape) h

theorem depends_copy {view : Option α → γ} {a : α} (h : view none ≠ view (some a)) :
    (copy a).Depends view [true] where
  kept tape hgranted := by
    rw [run_copy, if_pos ((granted_cons.1 hgranted).1 rfl), ok_copy]
    rfl
  lost tape hrefused := by
    have htape : tape 0 ≠ true := fun h => hrefused (granted_cons.2 ⟨fun _ => h, granted_nil _⟩)
    rw [run_copy, if_neg htape, ok_copy]
    exact h

theorem depends_copy_id (a : α) : (copy a).Depends id [true] :=
  depends_copy (Option.some_ne_none a).symm

/-- The bind rule: a first part that has lost something shows it in every result.  `S` is what the
first part always gives. -/
theorem Depends.bind {view : α → γ} {view' : β → δ} {x : AllocM α} {f : α → AllocM β}
    {needs more : List Bool} {S : α → Prop} (hx : x.Depends view needs) (hS : x.Every S)
    (hf : (f x.ok).Depends view' more)
    (hlost : ∀ a, S a → view a ≠ view x.ok →
      (f a).Every fun b => view' b ≠ view' (f x.ok).ok) :
    (x >>= f).Depends view' (needs ++ more) where
  kept tape hgranted := by
    rw [granted_append] at hgranted
    rw [run_bind, hx.kept tape hgranted.1, hf.kept _ hgranted.2, ok_bind, later_later,
      List.length_append, Nat.add_comm]
  lost tape hrefused := by
    rw [run_bind, ok_bind]
    by_cases hfirst : Granted needs tape
    · rw [hx.kept tape hfirst]
      exact hf.lost _ fun hmore => hrefused (granted_append.2 ⟨hfirst, hmore⟩)
    · exact (hlost _ (hS.run tape) (hx.lost tape hfirst)).run _

/-- The bind rule where what the first part gives can be read off every result. -/
theorem Depends.read {view : α → γ} {x : AllocM α} {f : α → AllocM β} {needs more : List Bool}
    (hx : x.Depends view needs) (hf : (f x.ok).Depends id more) {g : β → γ}
    (hg : ∀ a, (f a).Every fun b => g b = view a) : (x >>= f).Depends id (needs ++ more) := by
  refine hx.bind (every_of_forall x fun _ => trivial) hf fun a _ ha =>
    (hg a).mono fun b hb heq => ?_
  have hok := (hg x.ok).ok
  rw [id_eq, id_eq] at heq
  rw [← heq, hb] at hok
  exact ha hok

/-- A request that changes nothing that follows. -/
theorem Depends.spare {view : β → γ} {x : AllocM α} {f : α → AllocM β} {needs : List Bool}
    (hx : ∀ tape, (x.run tape).2 = Tape.later 1 tape) (hsame : x.Every fun a => f a = f x.ok)
    (hf : (f x.ok).Depends view needs) : (x >>= f).Depends view (false :: needs) where
  kept tape hgranted := by
    rw [run_bind, hsame.run tape, hx tape, hf.kept _ (granted_cons.1 hgranted).2, ok_bind,
      later_later, List.length_cons]
  lost tape hrefused := by
    rw [run_bind, hsame.run tape, hx tape, ok_bind]
    exact hf.lost _ fun hgranted => hrefused (granted_cons.2 ⟨nofun, hgranted⟩)

/-- The result is NULL, or it is the one that comes of having enough memory. -/
def NullOrWhole (x : AllocM (Option α)) (tape : Tape) : Prop :=
  (x.run tape).1 = none ∨ (x.run tape).1 = x.ok

section

variable {a : β} {fill : Option β → AllocM (Option α)} {needs : List Bool}

/-- A structure that is filled only when it has its memory. -/
theorem depends_struct (hnone : fill none = pure none)
    (hsome : (fill (some a)).Every fun r => r.isSome = true)
    (hfill : (fill (some a)).Depends id needs) :
    (copy a >>= fill).Depends id (true :: needs) := by
  have hcases : (copy a).Every fun r => r = none ∨ r = some a := by simp
  refine (depends_copy_id a).bind hcases hfill ?_
  rintro r (rfl | rfl) hne
  · rw [hnone, every_pure]
    intro heq
    have hok := hsome.ok
    rw [show (fill (some a)).ok = none from heq.symm] at hok
    cases hok
  · exact absurd rfl hne

theorem nullOrWhole_struct (hnone : fill none = pure none)
    (hsome : (fill (some a)).Every fun r => r.isSome = true)
    (hfill : (fill (some a)).Depends id needs) (tape : Tape) :
    (copy a >>= fill).NullOrWhole tape ↔
      (tape 0 = true → Granted needs (Tape.later 1 tape)) := by
  unfold NullOrWhole
  rw [run_bind, run_copy, ok_bind, ok_copy]
  by_cases htape : tape 0 = true
  · simp only [htape, if_true, true_imp_iff]
    refine ⟨?_, fun h => .inr (congrArg Prod.fst (hfill.kept _ h))⟩
    rintro (hrun | hrun) <;> by_contra hrefused
    · have hnotNone := hsome.run (Tape.later 1 tape)
      rw [show ((fill (some a)).run (Tape.later 1 tape)).1 = none from hrun] at hnotNone
      cases hnotNone
    · exact hfill.lost _ hrefused hrun
  · simp [htape, hnone]

end

/-! ### Computations that a refusal ends -/

/-- Whatever is refused, the result is NULL or the one that comes of having enough memory. -/
def Strict (x : AllocM (Option α)) : Prop := x.Every fun r => r = none ∨ r = x.ok

theorem strict_pure (r : Option α) : (pure r : AllocM (Option α)).Strict := .inr rfl

theorem strict_copy (a : α) : (copy a).Strict := by
  simp [Strict]

theorem Strict.bind {x : AllocM (Option α)} {f : Option α → AllocM (Option β)} (hx : x.Strict)
    (hnone : f none = pure none) (hf : (f x.ok).Strict) : (x >>= f).Strict := by
  unfold Strict
  rw [ok_bind]
  refine Every.bind hx ?_
  rintro r (rfl | rfl)
  · rw [hnone]
    exact .inl rfl
  · exact hf

theorem granted_replicate {n : Nat} {tape : Tape} :
    Granted (List.replicate n true) tape ↔ ∀ i < n, tape i = true := by
  unfold Granted
  refine forall_congr' fun i => ?_
  rw [List.getElem?_replicate]
  by_cases hi : i < n <;> simp [hi]

/-- A strict computation that needs all of its requests: any refusal makes its result NULL. -/
theorem Strict.run_eq {x : AllocM (Option α)} (hx : x.Strict) {n : Nat}
    (hneeds : x.Depends id (List.replicate n true)) (tape : Tape) :
    (x.run tape).1 = if ∀ i < n, tape i = true then x.ok else none := by
  by_cases hgranted : ∀ i < n, tape i = true
  · rw [if_pos hgranted]
    exact congrArg Prod.fst (hneeds.kept tape (granted_replicate.2 hgranted))
  · rw [if_neg hgranted]
    refine (Every.run hx tape).resolve_right fun hok => ?_
    exact hneeds.lost tape (fun h => hgranted (granted_replicate.1 h)) hok

/-- A strict computation that needs every request it makes, and `Q` relates its result to their
number. -/
structure Tallied (Q : α → Nat → Prop) (x : AllocM (Option α)) : Prop where
  strict : x.Strict
  needs : ∀ a, x.ok = some a → ∃ n, Q a n ∧ x.Depends id (List.replicate n true)

section

variable {Q : α → Nat → Prop} {R : β → Nat → Prop} {x : AllocM (Option α)}

theorem Tallied.mono {Q' : α → Nat → Prop} (hx : x.Tallied Q) (hQ : ∀ a n, Q a n → Q' a n) :
    x.Tallied Q' where
  strict := hx.strict
  needs a ha :=
    let ⟨n, hn, hneeds⟩ := hx.needs a ha
    ⟨n, hQ a n hn, hneeds⟩

theorem tallied_pure {r : Option α} (h : ∀ a, r = some a → Q a 0) :
    (pure r : AllocM (Option α)).Tallied Q where
  strict := strict_pure r
  needs a ha := ⟨0, h a ha, depends_pure id r⟩

theorem tallied_copy {a : α} (h : Q a 1) : (copy a).Tallied Q where
  strict := strict_copy a
  needs _ hb := ⟨1, Option.some.inj hb ▸ h, depends_copy_id a⟩

/-- The requests of a part come before those of what follows it. -/
theorem Tallied.bind {f : Option α → AllocM (Option β)} (hx : x.Tallied Q)
    (hnone : f none = pure none)
    (hf : ∀ a n, Q a n → (f (some a)).Tallied fun b m => R b (n + m)) :
    (x >>= f).Tallied R := by
  cases hok : x.ok with
  | none =>
    have hfail : f x.ok = pure none := by rw [hok, hnone]
    exact {
      strict := hx.strict.bind hnone (hfail ▸ strict_pure none)
      needs := fun b hb => by
        rw [ok_bind, hfail] at hb
        cases hb }
  | some a =>
    obtain ⟨n, hn, hneeds⟩ := hx.needs a hok
    have hrest := hf a n hn
    rw [← hok] at hrest
    refine ⟨hx.strict.bind hnone hrest.strict, fun b hb => ?_⟩
    rw [ok_bind] at hb
    obtain ⟨m, hm, hmore⟩ := hrest.needs b hb
    refine ⟨n + m, hm, Depends.congr List.replicate_append_replicate
      (hneeds.bind hx.strict hmore ?_)⟩
    rintro r (rfl | rfl) hne
    · rw [hnone, every_pure, hb]
      exact (Option.some_ne_none b).symm
    · exact absurd rfl hne

theorem Tallied.map {f : α → β} (hx : x.Tallied fun a n => R (f a) n) :
    (x >>= fun r => pure (r.map f)).Tallied R :=
  hx.bind rfl fun _ _ hn => tallied_pure fun _ hb => Option.some.inj hb ▸ hn

/-- Any refusal among the requests makes the result NULL. -/
theorem Tallied.run_eq (hx : x.Tallied Q) {a : α} (ha : x.ok = some a) :
    ∃ n, Q a n ∧ ∀ tape, (x.run tape).1 = if ∀ i < n, tape i = true then some a else none := by
  obtain ⟨n, hn, hneeds⟩ := hx.needs a ha
  exact ⟨n, hn, fun tape => ha ▸ hx.strict.run_eq hneeds tape⟩

end

end AllocM
