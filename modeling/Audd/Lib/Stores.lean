import Mathlib.Data.List.Basic

/-! Stores into an array, as the list of what is stored where.  Values stored at consecutive
indices are there in order afterwards, and nothing else has changed. -/

universe u

namespace Stores

variable {α : Type u}

/-- An array after stores, each an index and a value. -/
def apply (array : List α) (stores : List (Nat × α)) : List α :=
  stores.foldl (fun array store => array.set store.1 store.2) array

/-- Values stored one after the other, from index `k` on. -/
def consecutive : Nat → List α → List (Nat × α)
  | _, [] => []
  | k, v :: values => (k, v) :: consecutive (k + 1) values

@[simp] theorem consecutive_length (k : Nat) (values : List α) :
    (consecutive k values).length = values.length := by
  induction values generalizing k with
  | nil => rfl
  | cons v values ih => simp [consecutive, ih]

theorem consecutive_injective {k : Nat} {values more : List α}
    (h : consecutive k values = consecutive k more) : values = more := by
  induction values generalizing k more with
  | nil => cases more <;> first | rfl | cases h
  | cons v values ih =>
    cases more with
    | nil => cases h
    | cons w more =>
      rw [consecutive, consecutive, List.cons.injEq, Prod.mk.injEq] at h
      rw [h.1.2, ih h.2]

theorem consecutive_append (k : Nat) (values more : List α) :
    consecutive k (values ++ more) =
      consecutive k values ++ consecutive (k + values.length) more := by
  induction values generalizing k with
  | nil => rfl
  | cons v values ih =>
    rw [List.cons_append, consecutive, consecutive, ih, List.length_cons, List.cons_append]
    congr 3
    omega

theorem consecutive_index {k : Nat} {values : List α} {store : Nat × α}
    (h : store ∈ consecutive k values) : k ≤ store.1 ∧ store.1 < k + values.length := by
  induction values generalizing k with
  | nil => cases h
  | cons v values ih =>
    rw [List.length_cons]
    rcases List.mem_cons.mp h with rfl | h
    · show k ≤ k ∧ k < k + (values.length + 1)
      omega
    · have := ih h
      omega

theorem apply_consecutive {k : Nat} {values array : List α}
    (h : k + values.length ≤ array.length) :
    apply array (consecutive k values) =
      array.take k ++ values ++ array.drop (k + values.length) := by
  induction values generalizing k array with
  | nil => simp [apply, consecutive]
  | cons v values ih =>
    rw [List.length_cons] at h
    have hk : k < array.length := by omega
    calc apply array (consecutive k (v :: values))
        = apply (array.set k v) (consecutive (k + 1) values) := rfl
      _ = (array.set k v).take (k + 1) ++ values ++
            (array.set k v).drop (k + 1 + values.length) :=
          ih (by rw [List.length_set]; omega)
      _ = array.take k ++ v :: values ++ array.drop (k + (v :: values).length) := by
          have hdrop : (array.set k v).drop (k + 1 + values.length) =
              array.drop (k + 1 + values.length) := List.drop_set_of_lt (by omega)
          have htake : (array.set k v).take (k + 1) = array.take k ++ [v] := by
            rw [List.take_add_one, List.take_set_of_le (Nat.le_refl k),
              List.getElem?_set_self hk]
            rfl
          rw [hdrop, htake, List.length_cons]
          simp [Nat.add_comm, Nat.add_left_comm]

/-- Nothing else is in the array afterwards. -/
theorem mem_apply {v : α} {array : List α} {stores : List (Nat × α)} (h : v ∈ apply array stores) :
    v ∈ array ∨ ∃ store ∈ stores, store.2 = v := by
  induction stores generalizing array with
  | nil => exact .inl h
  | cons store stores ih =>
    rcases ih h with hset | ⟨later, hlater, hv⟩
    · rcases List.mem_or_eq_of_mem_set hset with harray | rfl
      · exact .inl harray
      · exact .inr ⟨store, List.mem_cons_self, rfl⟩
    · exact .inr ⟨later, List.mem_cons_of_mem _ hlater, hv⟩

/-! ### Arrays filled from the front -/

/-- An array on the way: the next index, and the stores so far. -/
structure Builder (α : Type u) where
  off : Nat
  stores : List (Nat × α)

namespace Builder

def empty : Builder α := ⟨0, []⟩

/-- `out[off++] = v`. -/
def put (b : Builder α) (v : α) : Builder α := ⟨b.off + 1, b.stores ++ [(b.off, v)]⟩

/-- `memcpy(out + off, values, ..)`, and `off` moves on behind them. -/
def copy (b : Builder α) (values : List α) : Builder α :=
  ⟨b.off + values.length, b.stores ++ consecutive b.off values⟩

/-- `out[off] = v`. -/
def terminate (b : Builder α) (v : α) : Builder α := ⟨b.off, b.stores ++ [(b.off, v)]⟩

/-- The values from index 0 on are what has been stored, each once. -/
structure Wrote (b : Builder α) (values : List α) : Prop where
  off : b.off = values.length
  stores : b.stores = consecutive 0 values

theorem empty_wrote : (empty : Builder α).Wrote [] := ⟨rfl, rfl⟩

variable {b : Builder α} {values : List α}

theorem Wrote.copy (h : b.Wrote values) (more : List α) : (b.copy more).Wrote (values ++ more) where
  off := by
    show b.off + more.length = _
    rw [h.off, List.length_append]
  stores := by
    show b.stores ++ consecutive b.off more = _
    rw [h.stores, h.off, consecutive_append, Nat.zero_add]

theorem Wrote.put (h : b.Wrote values) (v : α) : (b.put v).Wrote (values ++ [v]) :=
  h.copy [v]

theorem Wrote.terminate (h : b.Wrote values) (v : α) :
    (b.terminate v).stores = consecutive 0 (values ++ [v]) :=
  (h.put v).stores

end Builder

end Stores
