import Mathlib.Data.List.Basic

/-! Transition systems whose steps show an event or are silent.  A run keeps the events that it
shows.  A simulation turns every run of one system into a run of another with the same events. -/

universe u v w

structure Transition (σ : Type u) (ε : Type v) where
  init : σ → Prop
  step : σ → Option ε → σ → Prop

namespace Transition

variable {σ : Type u} {α : Type w} {ε : Type v} {S : Transition σ ε} {A : Transition α ε}

/-- The states that a run comes to, with the events on the way. -/
inductive Run (S : Transition σ ε) : List ε → σ → Prop
  | start {s : σ} : S.init s → Run S [] s
  | step {es : List ε} {s s' : σ} {e : Option ε} :
      Run S es s → S.step s e s' → Run S (es ++ e.toList) s'

/-- The invariant rule. -/
theorem Run.invariant {I : σ → Prop} (hinit : ∀ s, S.init s → I s)
    (hstep : ∀ s e s', I s → S.step s e s' → I s') {es : List ε} {s : σ} (h : S.Run es s) :
    I s := by
  induction h with
  | start hs => exact hinit _ hs
  | step _ hs ih => exact hstep _ _ _ ih hs

/-- `R` relates the states of runs that show the same events: a step is answered by one that shows
what it shows, and a silent step may be left unanswered. -/
structure Simulation (S : Transition σ ε) (A : Transition α ε) (R : σ → α → Prop) : Prop where
  init : ∀ s, S.init s → ∃ a, A.init a ∧ R s a
  step : ∀ s e s' a, R s a → S.step s e s' → ∃ a', R s' a' ∧ (A.step a e a' ∨ e = none ∧ a' = a)

theorem Simulation.run {R : σ → α → Prop} (hR : Simulation S A R) {es : List ε} {s : σ}
    (h : S.Run es s) : ∃ a, R s a ∧ A.Run es a := by
  induction h with
  | start hs =>
    obtain ⟨a, ha, hrel⟩ := hR.init _ hs
    exact ⟨a, hrel, .start ha⟩
  | step _ hs ih =>
    obtain ⟨a, hrel, hrun⟩ := ih
    obtain ⟨a', hrel', hstep | ⟨rfl, rfl⟩⟩ := hR.step _ _ _ a hrel hs
    · exact ⟨a', hrel', hrun.step hstep⟩
    · exact ⟨a', hrel', by simpa using hrun⟩

end Transition
