import Mathlib.Data.List.Nodup

/-! Lists of keyed entries, in which some entries are to be the only ones of their keys.  `own`
prevails in a list when each of its entries is the one entry of its key there. -/

namespace Keyed

variable {α κ : Type} [DecidableEq κ] (key : α → κ)

/-- Each entry of `own` is the one entry of its key in `xs`. -/
def Prevails (own xs : List α) : Prop :=
  ∀ o ∈ own, xs.filter (fun x => key x = key o) = [o]

/-- The entries of `xs` whose keys `own` does not have. -/
def others (own xs : List α) : List α := xs.filter fun x => key x ∉ own.map key

variable {key} {own xs ys : List α}

theorem filter_of_nodup (h : (xs.map key).Nodup) {o : α} (ho : o ∈ xs) :
    xs.filter (fun x => key x = key o) = [o] := by
  induction xs with
  | nil => cases ho
  | cons x xs ih =>
    rw [List.map_cons, List.nodup_cons] at h
    rcases List.mem_cons.mp ho with rfl | ho
    · have hnone : xs.filter (fun x => key x = key o) = [] := by
        rw [List.filter_eq_nil_iff]
        intro y hy hkey
        exact h.1 ((of_decide_eq_true hkey) ▸ List.mem_map_of_mem hy)
      rw [List.filter_cons_of_pos (by simp), hnone]
    · have hne : key x ≠ key o := fun he => h.1 (he ▸ List.mem_map_of_mem ho)
      rw [List.filter_cons_of_neg (by simpa using hne)]
      exact ih h.2 ho

theorem prevails_of_nodup (h : (xs.map key).Nodup) (hown : ∀ o ∈ own, o ∈ xs) :
    Prevails key own xs :=
  fun o ho => filter_of_nodup h (hown o ho)

omit [DecidableEq κ] in
theorem nodup_append_iff : ((xs ++ ys).map key).Nodup ↔
    (xs.map key).Nodup ∧ (ys.map key).Nodup ∧ ∀ x ∈ xs, key x ∉ ys.map key := by
  rw [List.map_append, List.nodup_append']
  refine and_congr_right fun _ => and_congr_right fun _ => ?_
  rw [List.disjoint_left]
  exact List.forall_mem_map

end Keyed
