import Mathlib.Data.List.Induction

/-! Histories of calls.  The calls fold over a state, and an invariant relates each state to the
calls that led to it.  What a call does is then read off the calls before it. -/

universe u v

variable {α : Type u} {σ : Type v} {step : σ → α → σ} {s : σ} {I : List α → σ → Prop}

/-- `P` holds of each call and the calls before it. -/
def AtEach (P : List α → α → Prop) (calls : List α) : Prop :=
  ∀ before a after, calls = before ++ a :: after → P before a

theorem atEach_nil (P : List α → α → Prop) : AtEach P [] := by
  intro before a after h
  cases before <;> cases h

theorem atEach_concat {P : List α → α → Prop} {calls : List α} {a : α} :
    AtEach P (calls ++ [a]) ↔ AtEach P calls ∧ P calls a := by
  constructor
  · intro h
    refine ⟨fun before b after hb => h before b (after ++ [a]) ?_, h calls a [] rfl⟩
    rw [hb, List.append_assoc, List.cons_append]
  · rintro ⟨hcalls, ha⟩ before b after hb
    rcases after.eq_nil_or_concat with rfl | ⟨after, c, rfl⟩
    · obtain ⟨rfl, hlast⟩ := List.append_inj' hb rfl
      obtain rfl := (List.cons.inj hlast).1
      exact ha
    · rw [List.concat_eq_append, ← List.cons_append, ← List.append_assoc] at hb
      exact hcalls before b after (List.append_inj' hb rfl).1

/-- The invariant rule. -/
theorem foldl_history (h0 : I [] s)
    (hstep : ∀ before s a, I before s → I (before ++ [a]) (step s a)) (calls : List α) :
    I calls (calls.foldl step s) := by
  induction calls using List.reverseRecOn with
  | nil => exact h0
  | append_singleton calls a ih =>
    rw [List.foldl_append]
    exact hstep calls _ a ih

/-- The rule for an invariant that only some calls keep.  Where `R` holds of a call exactly if `H`
does, and `H` keeps the invariant, `R` holds of all calls exactly if `H` does. -/
theorem atEach_iff {R : σ → α → Prop} {H : List α → α → Prop} (h0 : I [] s)
    (hright : ∀ before s a, I before s → (R s a ↔ H before a))
    (hkeep : ∀ before s a, I before s → H before a → I (before ++ [a]) (step s a))
    (calls : List α) :
    AtEach (fun before a => R (before.foldl step s) a) calls ↔ AtEach H calls := by
  have hboth : ∀ calls : List α,
      (AtEach (fun before a => R (before.foldl step s) a) calls ↔ AtEach H calls) ∧
        (AtEach H calls → I calls (calls.foldl step s)) := by
    intro calls
    induction calls using List.reverseRecOn with
    | nil => exact ⟨iff_of_true (atEach_nil _) (atEach_nil _), fun _ => h0⟩
    | append_singleton calls a ih =>
      obtain ⟨hiff, hinv⟩ := ih
      rw [atEach_concat, atEach_concat, hiff]
      refine ⟨and_congr_right fun h => hright calls _ a (hinv h), fun ⟨h, ha⟩ => ?_⟩
      rw [List.foldl_append]
      exact hkeep calls _ a (hinv h) ha
  exact (hboth calls).1

/-! ### The first call of a kind -/

section

variable (q : α → Bool)

/-- The calls before the first of a kind, where there is one. -/
def upTo : List α → Option (List α)
  | [] => none
  | a :: calls => if q a then some [] else (upTo calls).map (a :: ·)

theorem upTo_concat (calls : List α) (a : α) :
    upTo q (calls ++ [a]) = (upTo q calls).or (if q a then some calls else none) := by
  induction calls with
  | nil => simp [upTo]
  | cons b calls ih =>
    rw [List.cons_append, upTo, upTo, ih]
    cases q b with
    | true => rfl
    | false =>
      cases upTo q calls with
      | none => cases q a <;> rfl
      | some before => rfl

theorem takeWhile_eq_upTo (calls : List α) :
    calls.takeWhile (fun a => !q a) = (upTo q calls).getD calls := by
  induction calls with
  | nil => rfl
  | cons a calls ih =>
    rw [List.takeWhile_cons, upTo, ih]
    cases q a with
    | true => rfl
    | false => cases upTo q calls <;> rfl

end
