import Audd.Lib.Heap
import Mathlib.Logic.Equiv.Basic

/-! Who frees what.  An owner holds a pointer or NULL.  In an `Ownership` every live block has one
owner, and no pointer that is owned is stale, so that to free what one owns is no fault, frees it
once, and takes it from nobody else. -/

universe u

/-- The owned pointers are the live blocks, each owned once. -/
structure Ownership {κ : Type} {Ω : Type u} (own : Ω → Option Nat) (h : Heap κ) : Prop where
  live_iff : ∀ b, h.Live b ↔ ∃ o, own o = some b
  unique : ∀ o o' b, own o = some b → own o' = some b → o = o'
  sound : h.faulted = false

namespace Heap

variable {κ : Type}

/-- `free(p)`. -/
def release (h : Heap κ) (p : Option Nat) : Heap κ :=
  match p with
  | none => h
  | some b => if (h.blocks b).isSome then h.remove b else h.fault

end Heap

namespace Ownership

variable {κ : Type} {Ω : Type u} {own : Ω → Option Nat} {h : Heap κ}

theorem empty : Ownership (fun _ : Ω => none) (Heap.empty : Heap κ) where
  live_iff _ := iff_of_false (fun h => h rfl) (by simp)
  unique _ _ _ ho := by cases ho
  sound := rfl

theorem live (hown : Ownership own h) {o : Ω} {b : Nat} (ho : own o = some b) : h.Live b :=
  (hown.live_iff b).2 ⟨o, ho⟩

/-- Two owners that change places with their pointers. -/
theorem exchange (hown : Ownership own h) (π : Ω ≃ Ω) : Ownership (own ∘ π) h where
  live_iff b := by
    rw [hown.live_iff b]
    constructor
    · rintro ⟨o, ho⟩
      exact ⟨π.symm o, by rw [Function.comp_apply, π.apply_symm_apply, ho]⟩
    · rintro ⟨o, ho⟩
      exact ⟨π o, ho⟩
  unique o o' b ho ho' := π.injective (hown.unique _ _ b ho ho')
  sound := hown.sound

variable [DecidableEq Ω]

/-- A new block, for an owner that has none. -/
theorem alloc (hown : Ownership own h) {o : Ω} (ho : own o = none) (block : List (Option κ)) :
    Ownership (Function.update own o (some h.next)) (h.alloc block) where
  live_iff b := by
    rw [h.live_alloc, hown.live_iff b]
    constructor
    · rintro (⟨o', ho'⟩ | rfl)
      · refine ⟨o', ?_⟩
        rw [Function.update_of_ne ?_, ho']
        rintro rfl
        rw [ho] at ho'
        cases ho'
      · exact ⟨o, Function.update_self ..⟩
    · rintro ⟨o', ho'⟩
      by_cases heq : o' = o
      · subst heq
        rw [Function.update_self] at ho'
        exact .inr (Option.some.inj ho').symm
      · rw [Function.update_of_ne heq] at ho'
        exact .inl ⟨o', ho'⟩
  unique o₁ o₂ b h₁ h₂ := by
    have hnew : ∀ o', own o' ≠ some h.next := fun o' ho' =>
      absurd (hown.live ho').lt_next (Nat.lt_irrefl _)
    by_cases heq₁ : o₁ = o
    · subst heq₁
      rw [Function.update_self] at h₁
      obtain rfl := Option.some.inj h₁
      by_contra hne
      rw [Function.update_of_ne (Ne.symm hne)] at h₂
      exact hnew _ h₂
    · rw [Function.update_of_ne heq₁] at h₁
      by_cases heq₂ : o₂ = o
      · subst heq₂
        rw [Function.update_self] at h₂
        obtain rfl := Option.some.inj h₂
        exact absurd h₁ (hnew _)
      · rw [Function.update_of_ne heq₂] at h₂
        exact hown.unique _ _ b h₁ h₂
  sound := hown.sound

/-- What an owner frees is gone, and nothing else. -/
theorem release (hown : Ownership own h) (o : Ω) :
    Ownership (Function.update own o none) (h.release (own o)) := by
  cases ho : own o with
  | none =>
    rw [show Function.update own o none = own from Function.update_eq_self_iff.2 ho.symm]
    exact hown
  | some b =>
    have hlive : (h.blocks b).isSome = true := Option.isSome_iff_ne_none.2 (hown.live ho)
    have hremove : h.release (some b) = h.remove b := if_pos hlive
    rw [hremove]
    exact {
      live_iff := fun c => by
        rw [h.live_remove, hown.live_iff c]
        constructor
        · rintro ⟨⟨o', ho'⟩, hcb⟩
          refine ⟨o', ?_⟩
          rw [Function.update_of_ne ?_, ho']
          rintro rfl
          rw [ho] at ho'
          exact hcb (Option.some.inj ho').symm
        · rintro ⟨o', ho'⟩
          have hne : o' ≠ o := by
            rintro rfl
            rw [Function.update_self] at ho'
            cases ho'
          rw [Function.update_of_ne hne] at ho'
          refine ⟨⟨o', ho'⟩, ?_⟩
          rintro rfl
          exact hne (hown.unique _ _ c ho' ho)
      unique := fun o₁ o₂ c h₁ h₂ => by
        have hne : ∀ o', Function.update own o none o' = some c → own o' = some c := by
          intro o' ho'
          by_cases heq : o' = o
          · subst heq
            rw [Function.update_self] at ho'
            cases ho'
          · rwa [Function.update_of_ne heq] at ho'
        exact hown.unique _ _ c (hne _ h₁) (hne _ h₂)
      sound := hown.sound }

end Ownership
