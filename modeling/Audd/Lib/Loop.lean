import Mathlib.Data.List.Basic

/-! Loops that read one input a pass.  A `GuardedLoop` checks its guard, reads an input, emits the
pass's events, and goes on or returns.  `run` is the loop over a script of inputs, with the events
of each pass kept beside its input; a script that ends first leaves the loop waiting.  `Reaches`
is the loop's history up to a guard check, and the invariant rule is induction over it. -/

universe u

/-- What a pass leaves: the state of the next pass, or the value that the loop returns. -/
inductive Pass (σ ρ : Type u)
  | next (s : σ)
  | done (r : ρ)

/-- A loop over inputs `ι`, with states `σ`, events `ε`, and returned values `ρ`. -/
structure GuardedLoop (σ ι ε ρ : Type u) where
  guard : σ → Option ρ
  body : σ → ι → List ε × Pass σ ρ

namespace GuardedLoop

variable {σ ι ε ρ : Type u}

/-- A run: each input read with the events of its pass, in order, and what the run leaves. -/
structure Run (σ ι ε ρ : Type u) where
  passes : List (ι × List ε)
  outcome : Pass σ ρ

def Run.taken (r : Run σ ι ε ρ) : List ι := r.passes.map Prod.fst

def Run.events (r : Run σ ι ε ρ) : List ε := r.passes.flatMap Prod.snd

def run (L : GuardedLoop σ ι ε ρ) (s : σ) : List ι → Run σ ι ε ρ
  | [] =>
    match L.guard s with
    | some r => ⟨[], .done r⟩
    | none => ⟨[], .next s⟩
  | i :: rest =>
    match L.guard s with
    | some r => ⟨[], .done r⟩
    | none =>
      match L.body s i with
      | (es, .done r) => ⟨[(i, es)], .done r⟩
      | (es, .next s') => ⟨(i, es) :: (L.run s' rest).passes, (L.run s' rest).outcome⟩

/-- From `s`, the passes `h` bring the loop back to its guard in the given state. -/
inductive Reaches (L : GuardedLoop σ ι ε ρ) (s : σ) : List (ι × List ε) → σ → Prop
  | start : Reaches L s [] s
  | pass {h : List (ι × List ε)} {s₁ s₂ : σ} {i : ι} {es : List ε} :
      Reaches L s h s₁ → L.guard s₁ = none → L.body s₁ i = (es, .next s₂) →
      Reaches L s (h ++ [(i, es)]) s₂

variable {L : GuardedLoop σ ι ε ρ}

theorem Reaches.cons {s s₁ s₂ : σ} {i : ι} {es : List ε} {h : List (ι × List ε)}
    (hg : L.guard s = none) (hb : L.body s i = (es, .next s₁)) (hr : Reaches L s₁ h s₂) :
    Reaches L s ((i, es) :: h) s₂ := by
  induction hr with
  | start => exact Reaches.pass (h := []) .start hg hb
  | pass _ hg' hb' ih => exact Reaches.pass ih hg' hb'

/-- How a run ends: waiting for an input, stopped by the guard, or returning from a pass. -/
theorem run_cases (L : GuardedLoop σ ι ε ρ) (s : σ) (script : List ι) :
    (∃ s', Reaches L s (L.run s script).passes s' ∧ L.guard s' = none ∧
      (L.run s script).taken = script ∧ (L.run s script).outcome = .next s') ∨
    (∃ s' r, Reaches L s (L.run s script).passes s' ∧ L.guard s' = some r ∧
      (L.run s script).outcome = .done r) ∨
    (∃ h s' i es r, Reaches L s h s' ∧ L.guard s' = none ∧ L.body s' i = (es, .done r) ∧
      (L.run s script).passes = h ++ [(i, es)] ∧ (L.run s script).outcome = .done r) := by
  induction script generalizing s with
  | nil =>
    cases hg : L.guard s with
    | none => exact .inl ⟨s, by simp [run, hg, Reaches.start, Run.taken]⟩
    | some r => exact .inr (.inl ⟨s, r, by simp [run, hg, Reaches.start]⟩)
  | cons i rest ih =>
    cases hg : L.guard s with
    | some r => exact .inr (.inl ⟨s, r, by simp [run, hg, Reaches.start]⟩)
    | none =>
      rcases hb : L.body s i with ⟨es, s₁ | r⟩
      · have hrun : L.run s (i :: rest) =
            ⟨(i, es) :: (L.run s₁ rest).passes, (L.run s₁ rest).outcome⟩ := by simp [run, hg, hb]
        rw [hrun]
        rcases ih s₁ with ⟨s', hr, hg', ht, ho⟩ | ⟨s', r, hr, hg', ho⟩ |
          ⟨h, s', j, es', r, hr, hg', hb', hp, ho⟩
        · exact .inl ⟨s', hr.cons hg hb, hg', by simpa [Run.taken] using ht, ho⟩
        · exact .inr (.inl ⟨s', r, hr.cons hg hb, hg', ho⟩)
        · exact .inr (.inr ⟨(i, es) :: h, s', j, es', r, hr.cons hg hb, hg', hb', by simp [hp], ho⟩)
      · exact .inr (.inr ⟨[], s, i, es, r, .start, hg, hb, by simp [run, hg, hb]⟩)

/-- The invariant rule: what holds before the first pass and is kept by every pass that goes on
holds at every guard check. -/
theorem Reaches.invariant {I : List (ι × List ε) → σ → Prop} {s s' : σ}
    {h : List (ι × List ε)} (hr : Reaches L s h s') (h0 : I [] s)
    (step : ∀ h s₁ s₂ i es, I h s₁ → L.guard s₁ = none → L.body s₁ i = (es, .next s₂) →
      I (h ++ [(i, es)]) s₂) : I h s' := by
  induction hr with
  | start => exact h0
  | pass _ hg hb ih => exact step _ _ _ _ _ ih hg hb

/-- The run rule: an invariant of the history holds where a run waits, and what the guard and the
returning passes make of it holds of a run that is over. -/
theorem run_invariant {I : List (ι × List ε) → σ → Prop} {F : List (ι × List ε) → ρ → Prop}
    {s : σ} (script : List ι) (h0 : I [] s)
    (step : ∀ h s₁ s₂ i es, I h s₁ → L.guard s₁ = none → L.body s₁ i = (es, .next s₂) →
      I (h ++ [(i, es)]) s₂)
    (stop : ∀ h s₁ r, I h s₁ → L.guard s₁ = some r → F h r)
    (done : ∀ h s₁ i es r, I h s₁ → L.guard s₁ = none → L.body s₁ i = (es, .done r) →
      F (h ++ [(i, es)]) r) :
    (∃ s', I (L.run s script).passes s' ∧ (L.run s script).taken = script ∧
      (L.run s script).outcome = .next s') ∨
    (∃ r, F (L.run s script).passes r ∧ (L.run s script).outcome = .done r) := by
  rcases run_cases L s script with ⟨s', hr, -, ht, ho⟩ | ⟨s', r, hr, hg, ho⟩ |
    ⟨h, s', i, es, r, hr, hg, hb, hp, ho⟩
  · exact .inl ⟨s', hr.invariant h0 step, ht, ho⟩
  · exact .inr ⟨r, stop _ _ _ (hr.invariant h0 step) hg, ho⟩
  · rw [hp]
    exact .inr ⟨r, done _ _ _ _ _ (hr.invariant h0 step) hg hb, ho⟩

/-- Each pass of a run starts where the passes before it lead, and one that returns is the last. -/
theorem run_split (L : GuardedLoop σ ι ε ρ) (s : σ) (script : List ι)
    (before : List (ι × List ε)) (i : ι) (es : List ε) (after : List (ι × List ε))
    (h : (L.run s script).passes = before ++ (i, es) :: after) :
    ∃ s₁, Reaches L s before s₁ ∧ L.guard s₁ = none ∧ (L.body s₁ i).1 = es ∧
      ∀ r, (L.body s₁ i).2 = .done r → after = [] ∧ (L.run s script).outcome = .done r := by
  induction script generalizing s before with
  | nil => cases hg : L.guard s <;> simp [run, hg] at h
  | cons j rest ih =>
    cases hg : L.guard s with
    | some r => simp [run, hg] at h
    | none =>
      rcases hb : L.body s j with ⟨es', s₁ | r⟩
      · have hrun : L.run s (j :: rest) =
            ⟨(j, es') :: (L.run s₁ rest).passes, (L.run s₁ rest).outcome⟩ := by simp [run, hg, hb]
        rw [hrun] at h ⊢
        cases before with
        | nil =>
          obtain ⟨rfl, rfl⟩ := Prod.mk.inj (List.cons.inj h).1
          exact ⟨s, .start, hg, by rw [hb], by simp [hb]⟩
        | cons pass before =>
          obtain ⟨rfl, hrest⟩ := List.cons.inj h
          obtain ⟨s₂, hr, hg', hes, hdone⟩ := ih _ _ hrest
          exact ⟨s₂, hr.cons hg hb, hg', hes, hdone⟩
      · have hrun : L.run s (j :: rest) = ⟨[(j, es')], .done r⟩ := by simp [run, hg, hb]
        rw [hrun] at h ⊢
        cases before with
        | nil =>
          obtain ⟨hpass, rfl⟩ := List.cons.inj h
          obtain ⟨rfl, rfl⟩ := Prod.mk.inj hpass
          exact ⟨s, .start, hg, by rw [hb], fun r' hr' => ⟨rfl, by rwa [hb] at hr'⟩⟩
        | cons pass before => simp at h

theorem run_taken_prefix (L : GuardedLoop σ ι ε ρ) (s : σ) (script : List ι) :
    (L.run s script).taken <+: script := by
  induction script generalizing s with
  | nil => cases hg : L.guard s <;> simp [run, hg, Run.taken]
  | cons i rest ih =>
    cases hg : L.guard s with
    | some r => simp [run, hg, Run.taken]
    | none =>
      rcases hb : L.body s i with ⟨es, s₁ | r⟩
      · simpa [run, hg, hb, Run.taken] using ih s₁
      · simp [run, hg, hb, Run.taken]

end GuardedLoop
