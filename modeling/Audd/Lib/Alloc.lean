import Mathlib.Logic.Basic

/-! Computations whose allocations may fail.  `AllocM α` is the tree of a computation's
allocation requests: each request goes on according to whether it succeeds.  `ok` is the result
when every request succeeds, `run` the result under a schedule that decides each request, and
`Every` the rule for what holds whatever is refused.  `Alike` relates two computations that make
the same requests. -/

universe u

/-- A computation that asks for memory: it returns, or makes a request and goes on with its
success or its failure. -/
inductive AllocM (α : Type u) : Type u
  | done (a : α)
  | malloc (next : Bool → AllocM α)

/-- A schedule of requests: whether each one succeeds, the next request first. -/
abbrev Tape := Nat → Bool

def plenty : Tape := fun _ => true

namespace AllocM

variable {α β : Type u}

def bind : AllocM α → (α → AllocM β) → AllocM β
  | done a, f => f a
  | malloc next, f => malloc fun granted => (next granted).bind f

instance : Monad AllocM where
  pure := done
  bind := bind

/-- A copy of `a` on the heap: `none` when its memory is refused. -/
def copy (a : α) : AllocM (Option α) :=
  malloc fun granted => done (if granted then some a else none)

def ok : AllocM α → α
  | done a => a
  | malloc next => (next true).ok

/-- The result under a schedule, with the rest of the schedule. -/
def run : AllocM α → Tape → α × Tape
  | done a, tape => (a, tape)
  | malloc next, tape => (next (tape 0)).run fun n => tape (n + 1)

/-- `P` holds of the result whatever is refused. -/
def Every (P : α → Prop) : AllocM α → Prop
  | done a => P a
  | malloc next => ∀ granted, (next granted).Every P

theorem bind_assoc {γ : Type u} (x : AllocM α) (f : α → AllocM β) (g : β → AllocM γ) :
    x >>= f >>= g = x >>= fun a => f a >>= g := by
  show (x.bind f).bind g = x.bind fun a => (f a).bind g
  induction x with
  | done a => rfl
  | malloc next ih => exact congrArg malloc (funext ih)

theorem pure_bind (a : α) (f : α → AllocM β) : pure a >>= f = f a := rfl

theorem bind_pure (x : AllocM α) : x >>= pure = x := by
  show x.bind done = x
  induction x with
  | done a => rfl
  | malloc next ih => exact congrArg malloc (funext ih)

/-! ### Every request succeeds -/

@[simp] theorem ok_pure (a : α) : (pure a : AllocM α).ok = a := rfl

@[simp] theorem ok_copy (a : α) : (copy a).ok = some a := rfl

@[simp] theorem ok_bind (x : AllocM α) (f : α → AllocM β) : (x >>= f).ok = (f x.ok).ok := by
  show (x.bind f).ok = _
  induction x with
  | done a => rfl
  | malloc next ih => exact ih true

@[simp] theorem run_plenty (x : AllocM α) : x.run plenty = (x.ok, plenty) := by
  induction x with
  | done a => rfl
  | malloc next ih => exact ih true

/-! ### Any schedule -/

@[simp] theorem every_pure {P : α → Prop} (a : α) : (pure a : AllocM α).Every P ↔ P a := Iff.rfl

@[simp] theorem every_copy {P : Option α → Prop} (a : α) :
    (copy a).Every P ↔ P (some a) ∧ P none := by
  simp [copy, Every, and_comm]

@[simp] theorem every_bind {P : β → Prop} (x : AllocM α) (f : α → AllocM β) :
    (x >>= f).Every P ↔ x.Every fun a => (f a).Every P := by
  show (x.bind f).Every P ↔ _
  induction x with
  | done a => rfl
  | malloc next ih => exact forall_congr' ih

theorem Every.mono {P Q : α → Prop} {x : AllocM α} (h : x.Every P) (hPQ : ∀ a, P a → Q a) :
    x.Every Q := by
  induction x with
  | done a => exact hPQ a h
  | malloc next ih => exact fun granted => ih granted (h granted)

theorem Every.and {P Q : α → Prop} {x : AllocM α} (hP : x.Every P) (hQ : x.Every Q) :
    x.Every fun a => P a ∧ Q a := by
  induction x with
  | done a => exact ⟨hP, hQ⟩
  | malloc next ih => exact fun granted => ih granted (hP granted) (hQ granted)

theorem every_of_forall {P : α → Prop} (x : AllocM α) (h : ∀ a, P a) : x.Every P := by
  induction x with
  | done a => exact h a
  | malloc next ih => exact ih

@[simp] theorem every_true (x : AllocM α) : (x.Every fun _ => True) ↔ True :=
  iff_true_intro (every_of_forall x fun _ => trivial)

theorem every_and {P Q : α → Prop} (x : AllocM α) :
    (x.Every fun a => P a ∧ Q a) ↔ x.Every P ∧ x.Every Q :=
  ⟨fun h => ⟨h.mono fun _ ha => ha.1, h.mono fun _ ha => ha.2⟩, fun h => h.1.and h.2⟩

/-- A computation has a result, whatever is refused. -/
theorem every_const {A : Prop} (x : AllocM α) : (x.Every fun _ => A) ↔ A := by
  refine ⟨fun h => ?_, fun h => every_of_forall x fun _ => h⟩
  induction x with
  | done a => exact h
  | malloc next ih => exact ih true (h true)

/-- The bind rule: what the first part always gives carries the second. -/
theorem Every.bind {P : α → Prop} {Q : β → Prop} {x : AllocM α} {f : α → AllocM β}
    (hx : x.Every P) (hf : ∀ a, P a → (f a).Every Q) : (x >>= f).Every Q := by
  rw [every_bind]
  exact hx.mono hf

theorem every_bind_of_forall {Q : β → Prop} {x : AllocM α} {f : α → AllocM β}
    (hf : ∀ a, (f a).Every Q) : (x >>= f).Every Q := by
  rw [every_bind]
  exact every_of_forall x hf

/-- Continuations that agree on every result are alike. -/
theorem bind_congr_every {x : AllocM α} {f g : α → AllocM β} (h : x.Every fun a => f a = g a) :
    x >>= f = x >>= g := by
  show x.bind f = x.bind g
  induction x with
  | done a => exact h
  | malloc next ih => exact congrArg malloc (funext fun granted => ih granted (h granted))

/-- What holds whatever is refused holds under every schedule. -/
theorem Every.run {P : α → Prop} {x : AllocM α} (h : x.Every P) (tape : Tape) :
    P (x.run tape).1 := by
  induction x generalizing tape with
  | done a => exact h
  | malloc next ih => exact ih _ (h _) _

/-- A property of every result is a property of every run. -/
theorem every_iff_run {P : α → Prop} {x : AllocM α} : x.Every P ↔ ∀ tape, P (x.run tape).1 := by
  refine ⟨fun h tape => h.run tape, fun h => ?_⟩
  induction x with
  | done a => exact h plenty
  | malloc next ih =>
    intro granted
    refine ih granted fun tape => ?_
    -- the schedule that decides this request and leaves `tape` to the rest
    exact h fun n => match n with
      | 0 => granted
      | n + 1 => tape n

theorem Every.ok {P : α → Prop} {x : AllocM α} (h : x.Every P) : P x.ok := by
  have := h.run plenty
  rwa [run_plenty] at this

@[simp] theorem run_copy (a : α) (tape : Tape) :
    (copy a).run tape = (if tape 0 then some a else none, fun n => tape (n + 1)) := rfl

@[simp] theorem run_pure (a : α) (tape : Tape) : (pure a : AllocM α).run tape = (a, tape) := rfl

/-- The schedule is read in order: a composition runs its second part on what the first left. -/
theorem run_bind (x : AllocM α) (f : α → AllocM β) (tape : Tape) :
    (x >>= f).run tape = (f (x.run tape).1).run (x.run tape).2 := by
  show (x.bind f).run tape = _
  induction x generalizing tape with
  | done a => rfl
  | malloc next ih => exact ih _ _

/-! ### Two computations on one schedule -/

/-- The computations make the same requests, and `R` relates their results whatever is refused. -/
def Alike (R : α → β → Prop) : AllocM α → AllocM β → Prop
  | done a, done b => R a b
  | malloc next, malloc next' => ∀ granted, (next granted).Alike R (next' granted)
  | _, _ => False

section

variable {γ δ σ τ ι : Type u} {R : α → β → Prop} {S : γ → δ → Prop} {x : AllocM α} {y : AllocM β}

@[simp] theorem alike_pure (a : α) (b : β) : (pure a : AllocM α).Alike R (pure b) ↔ R a b := Iff.rfl

theorem Alike.bind {f : α → AllocM γ} {g : β → AllocM δ} (h : x.Alike R y)
    (hf : ∀ a b, R a b → (f a).Alike S (g b)) : (x >>= f).Alike S (y >>= g) := by
  show (x.bind f).Alike S (y.bind g)
  induction x generalizing y with
  | done a =>
    cases y with
    | done b => exact hf a b h
    | malloc next => exact h.elim
  | malloc next ih =>
    cases y with
    | done b => exact h.elim
    | malloc next' => exact fun granted => ih granted (h granted)

theorem alike_self (x : AllocM α) : x.Alike Eq x := by
  induction x with
  | done a => rfl
  | malloc next ih => exact ih

theorem Alike.eq {y : AllocM α} (h : x.Alike Eq y) : x = y := by
  induction x generalizing y with
  | done a =>
    cases y with
    | done b => exact congrArg done h
    | malloc next => exact h.elim
  | malloc next ih =>
    cases y with
    | done b => exact h.elim
    | malloc next' => exact congrArg malloc (funext fun granted => ih granted (h granted))

theorem Alike.ok (h : x.Alike R y) : R x.ok y.ok := by
  induction x generalizing y with
  | done a =>
    cases y with
    | done b => exact h
    | malloc next => exact h.elim
  | malloc next ih =>
    cases y with
    | done b => exact h.elim
    | malloc next' => exact ih true (y := next' true) (h true)

theorem Alike.mono {R' : α → β → Prop} (h : x.Alike R y) (hRR' : ∀ a b, R a b → R' a b) :
    x.Alike R' y := by
  induction x generalizing y with
  | done a =>
    cases y with
    | done b => exact hRR' a b h
    | malloc next => exact h.elim
  | malloc next ih =>
    cases y with
    | done b => exact h.elim
    | malloc next' => exact fun granted => ih granted (h granted)

/-- A schedule decides both alike, and leaves the same rest. -/
theorem Alike.run (h : x.Alike R y) (tape : Tape) :
    (x.run tape).2 = (y.run tape).2 ∧ R (x.run tape).1 (y.run tape).1 := by
  induction x generalizing y tape with
  | done a =>
    cases y with
    | done b => exact ⟨rfl, h⟩
    | malloc next => exact h.elim
  | malloc next ih =>
    cases y with
    | done b => exact h.elim
    | malloc next' => exact ih _ (h _) _

/-- What calls answer, made one after the other on a state. -/
def answers (step : σ → ι → AllocM (α × σ)) : σ → List ι → AllocM (List α)
  | _, [] => pure []
  | s, call :: calls => do
    let (answer, s) ← step s call
    let rest ← answers step s calls
    pure (answer :: rest)

variable {step : σ → ι → AllocM (α × σ)}

/-- The simulation rule: calls that answer alike from related states answer alike in any order. -/
theorem answers_eq {step' : τ → ι → AllocM (α × τ)} {R : σ → τ → Prop}
    (hstep : ∀ s t call, R s t →
      (step s call).Alike (fun x y => x.1 = y.1 ∧ R x.2 y.2) (step' t call))
    {s : σ} {t : τ} (h : R s t) (calls : List ι) :
    answers step s calls = answers step' t calls := by
  induction calls generalizing s t with
  | nil => rfl
  | cons call calls ih =>
    refine ((hstep s t call h).bind ?_).eq
    rintro ⟨answer, s'⟩ ⟨_, t'⟩ ⟨rfl, hafter⟩
    have hrest : answers step s' calls = answers step' t' calls := ih hafter
    dsimp only
    rw [hrest]
    exact alike_self _

/-- The invariant rule: what holds of every answer from the states that calls lead to. -/
theorem every_answers {P : α → Prop} {I : σ → Prop}
    (hstep : ∀ s call, I s → (step s call).Every fun x => P x.1 ∧ I x.2) {s : σ} (h : I s)
    (calls : List ι) : (answers step s calls).Every fun given => ∀ answer ∈ given, P answer := by
  induction calls generalizing s with
  | nil => exact fun _ h => nomatch h
  | cons call calls ih =>
    refine (hstep s call h).bind fun x hx => (ih hx.2).bind fun rest hrest => ?_
    exact List.forall_mem_cons.mpr ⟨hx.1, hrest⟩

/-- Answers that say which call they are of come in the order of the calls. -/
theorem every_answers_of {call : α → ι}
    (hstep : ∀ s c, (step s c).Every fun x => call x.1 = c) (s : σ) (calls : List ι) :
    (answers step s calls).Every fun given => given.map call = calls := by
  induction calls generalizing s with
  | nil => exact rfl
  | cons c calls ih =>
    refine (hstep s c).bind fun x hx => (ih x.2).bind fun rest hrest => ?_
    show call x.1 :: rest.map call = c :: calls
    rw [hx, hrest]

end

end AllocM
