import Audd.ClientThreads

/-! No two threads meet at a field or at a block.  The lock keeps them apart at the fields; a block
belongs to one field, to one call on its way, or to a caller, and the calls only hand it on. -/

namespace Audd

namespace Threads

inductive Owner (τ : Type)
  | field (f : Field)
  | thread (t : τ)
  | caller (b : Nat)
deriving DecidableEq

variable {τ : Type} {s s' : State τ} {t : τ}

def State.owned (s : State τ) : Owner τ → Option Nat
  | .field f => s.fields f
  | .thread t => (s.phase t).owned
  | .caller b => if b ∈ s.kept then some b else none

structure Inv (s : State τ) : Prop where
  lock : ∀ t, s.holder = some t ↔ (s.phase t).inside = true
  owner : Ownership s.owned s.heap
  loaded : ∀ t w dup old, s.phase t = .loaded w dup old → old = s.fields w.field

/-- Only the thread that holds the lock is inside. -/
theorem Inv.alone (hi : Inv s) {u : τ} (ht : (s.phase t).inside = true)
    (hu : (s.phase u).inside = true) : u = t := by
  have hholder := (hi.lock t).2 ht
  rw [(hi.lock u).2 hu] at hholder
  exact Option.some.inj hholder

theorem Inv.code (hi : Inv s) (n : Int) : Inv { s with code := n } := ⟨hi.lock, hi.owner, hi.loaded⟩

/-! ### Accesses -/

def Actor.owner : Actor τ → Owner τ
  | .thread t => .thread t
  | .caller b => .caller b

theorem Actor.owner_injective {x y : Actor τ} (h : x.owner = y.owner) : x = y := by
  cases x <;> cases y <;> cases h <;> rfl

/-- The accesses to fields are inside the lock. -/
theorem inside_of_guarded {x : Actor τ} {l : Location} (h : l ∈ s.writes x ∨ l ∈ s.reads x)
    (hl : ∀ b, l ≠ .block b) : ∃ t, x = .thread t ∧ (s.phase t).inside = true := by
  cases x with
  | caller b =>
    have hmem : l ∈ if b ∈ s.kept then [Location.block b] else [] := h.elim id id
    split_ifs at hmem
    · exact absurd (List.mem_singleton.1 hmem) (hl b)
    · cases hmem
  | thread t =>
    refine ⟨t, rfl, ?_⟩
    change l ∈ State.phaseWrites (s.phase t) ∨ l ∈ s.phaseReads (s.phase t) at h
    cases hphase : s.phase t with
    | left w old =>
      rw [hphase] at h
      obtain h | h := h
      · obtain ⟨b, -, rfl⟩ := List.mem_map.1 h
        exact absurd rfl (hl b)
      · cases h
    | entered | loaded | stored | reading => rfl
    | _ =>
      rw [hphase] at h
      obtain h | h := h <;> cases h

theorem owned_of_write {x : Actor τ} {b : Nat} (h : .block b ∈ s.writes x) :
    s.owned x.owner = some b := by
  cases x with
  | caller c =>
    change Location.block b ∈ if c ∈ s.kept then [Location.block c] else [] at h
    split_ifs at h with hc
    · obtain rfl : b = c := by simpa using h
      exact if_pos hc
    · cases h
  | thread t =>
    change .block b ∈ State.phaseWrites (s.phase t) at h
    show (s.phase t).owned = some b
    cases hphase : s.phase t with
    | left w old =>
      rw [hphase] at h
      obtain ⟨c, hc, hcb⟩ := List.mem_map.1 h
      rw [← Location.block.inj hcb]
      exact Option.mem_toList.1 hc
    | _ => simp [hphase, State.phaseWrites] at h

theorem owned_of_read {x : Actor τ} {b : Nat} (h : .block b ∈ s.reads x) :
    s.owned x.owner = some b ∨ s.owned (.field .apiToken) = some b := by
  cases x with
  | caller c =>
    change Location.block b ∈ if c ∈ s.kept then [Location.block c] else [] at h
    split_ifs at h with hc
    · obtain rfl : b = c := by simpa using h
      exact .inl (if_pos hc)
    · cases h
  | thread t =>
    refine .inr ?_
    change .block b ∈ s.phaseReads (s.phase t) at h
    show s.fields .apiToken = some b
    cases hphase : s.phase t with
    | reading a =>
      rw [hphase] at h
      cases a with
      | copyApiToken => simpa [State.phaseReads] using h
      | _ => simp [State.phaseReads] at h
    | _ => simp [hphase, State.phaseReads] at h

/-! ### What the steps change -/

variable [DecidableEq τ]

theorem goes_self (s : State τ) (t : τ) (ph : Phase) : (s.goes t ph).phase t = ph :=
  Function.update_self ..

theorem goes_of_ne (s : State τ) {t u : τ} (ph : Phase) (h : u ≠ t) :
    (s.goes t ph).phase u = s.phase u := Function.update_of_ne h ..

theorem owned_goes (s : State τ) (t : τ) (ph : Phase) :
    (s.goes t ph).owned = Function.update s.owned (.thread t) ph.owned := by
  funext o
  cases o with
  | thread u =>
    by_cases hu : u = t
    · subst hu
      rw [Function.update_self]
      exact congrArg Phase.owned (goes_self s u ph)
    · rw [Function.update_of_ne (by simpa using hu)]
      exact congrArg Phase.owned (goes_of_ne s ph hu)
  | _ => rfl

theorem owned_goes_same {ph : Phase} (h : ph.owned = (s.phase t).owned) :
    (s.goes t ph).owned = s.owned := by
  rw [owned_goes]
  exact Function.update_eq_self_iff.2 h

theorem lock_goes (hi : Inv s) {ph : Phase} (h : ph.inside = (s.phase t).inside) (u : τ) :
    (s.goes t ph).holder = some u ↔ ((s.goes t ph).phase u).inside = true := by
  by_cases hu : u = t
  · subst hu
    rw [goes_self, h]
    exact hi.lock u
  · rw [goes_of_ne s ph hu]
    exact hi.lock u

theorem loaded_goes (hi : Inv s) {ph : Phase}
    (h : ∀ w dup old, ph = .loaded w dup old → old = s.fields w.field) (u : τ) (w : Swap)
    (dup old : Option Nat) (hu : (s.goes t ph).phase u = .loaded w dup old) :
    old = s.fields w.field := by
  by_cases hut : u = t
  · subst hut
    rw [goes_self] at hu
    exact h w dup old hu
  · rw [goes_of_ne s ph hut] at hu
    exact hi.loaded u w dup old hu

/-! ### The kinds of steps -/

/-- A thread goes on with what it owns, on the same side of the lock. -/
theorem Inv.goes (hi : Inv s) {ph : Phase} (hinside : ph.inside = (s.phase t).inside)
    (howned : ph.owned = (s.phase t).owned)
    (hloaded : ∀ w dup old, ph = .loaded w dup old → old = s.fields w.field) :
    Inv (s.goes t ph) where
  lock := lock_goes hi hinside
  owner := by
    rw [owned_goes_same howned]
    exact hi.owner
  loaded := loaded_goes hi hloaded

theorem Inv.takes (hi : Inv s) (hfree : s.holder = none) {ph : Phase} (hinside : ph.inside = true)
    (howned : ph.owned = (s.phase t).owned) (hloaded : ∀ w dup old, ph ≠ .loaded w dup old) :
    Inv { s.goes t ph with holder := some t } where
  lock u := by
    show some t = some u ↔ ((s.goes t ph).phase u).inside = true
    by_cases hu : u = t
    · subst hu
      rw [goes_self]
      exact iff_of_true rfl hinside
    · rw [goes_of_ne s ph hu]
      refine iff_of_false (fun h => hu (Option.some.inj h).symm) fun h => ?_
      rw [← hi.lock u, hfree] at h
      cases h
  owner := by
    show Ownership (s.goes t ph).owned s.heap
    rw [owned_goes_same howned]
    exact hi.owner
  loaded := loaded_goes hi fun w dup old h => absurd h (hloaded w dup old)

theorem Inv.leaves (hi : Inv s) (hin : (s.phase t).inside = true) {ph : Phase}
    (hinside : ph.inside = false) (howned : ph.owned = (s.phase t).owned)
    (hloaded : ∀ w dup old, ph ≠ .loaded w dup old) :
    Inv { s.goes t ph with holder := none } where
  lock u := by
    show none = some u ↔ ((s.goes t ph).phase u).inside = true
    refine iff_of_false (fun h => by cases h) fun h => ?_
    by_cases hu : u = t
    · subst hu
      rw [goes_self, hinside] at h
      cases h
    · rw [goes_of_ne s ph hu] at h
      exact hu (hi.alone hin h)
  owner := by
    show Ownership (s.goes t ph).owned s.heap
    rw [owned_goes_same howned]
    exact hi.owner
  loaded := loaded_goes hi fun w dup old h => absurd h (hloaded w dup old)

theorem Inv.allocs (hi : Inv s) {ph : Phase} (hinside : ph.inside = (s.phase t).inside)
    (hnone : (s.phase t).owned = none) (howned : ph.owned = some s.heap.next)
    (hloaded : ∀ w dup old, ph ≠ .loaded w dup old) (block : List (Option Char)) :
    Inv { s.goes t ph with heap := s.heap.alloc block } where
  lock := lock_goes hi hinside
  owner := by
    show Ownership (s.goes t ph).owned (s.heap.alloc block)
    rw [owned_goes, howned]
    exact hi.owner.alloc (o := .thread t) hnone block
  loaded := loaded_goes hi fun w dup old h => absurd h (hloaded w dup old)

/-- The new string and the field's change places. -/
theorem owned_store (hi : Inv s) {w : Swap} {dup old : Option Nat}
    (ht : s.phase t = .loaded w dup old) :
    ({ s.goes t (.stored w old) with
        fields := Function.update s.fields w.field dup } : State τ).owned =
      s.owned ∘ Equiv.swap (.field w.field) (.thread t) := by
  have hdup : s.owned (.thread t) = dup := congrArg Phase.owned ht
  have hold : s.owned (.field w.field) = old := (hi.loaded t w dup old ht).symm
  funext o
  rw [Function.comp_apply]
  cases o with
  | field f =>
    by_cases hf : f = w.field
    · subst hf
      rw [Equiv.swap_apply_left, hdup]
      exact Function.update_self ..
    · rw [Equiv.swap_apply_of_ne_of_ne (by simpa using hf) (by simp)]
      exact Function.update_of_ne hf ..
  | thread u =>
    by_cases hu : u = t
    · subst hu
      rw [Equiv.swap_apply_right, hold]
      exact congrArg Phase.owned (goes_self s u _)
    · rw [Equiv.swap_apply_of_ne_of_ne (by simp) (by simpa using hu)]
      exact congrArg Phase.owned (goes_of_ne s _ hu)
  | caller b =>
    rw [Equiv.swap_apply_of_ne_of_ne (by simp) (by simp)]
    rfl

theorem Inv.store (hi : Inv s) {w : Swap} {dup old : Option Nat}
    (ht : s.phase t = .loaded w dup old) :
    Inv { s.goes t (.stored w old) with fields := Function.update s.fields w.field dup } where
  lock := lock_goes hi (by rw [ht]; rfl)
  owner := by
    rw [owned_store hi ht]
    exact hi.owner.exchange _
  loaded u w' dup' old' hu := by
    change (s.goes t (.stored w old)).phase u = _ at hu
    by_cases hut : u = t
    · subst hut
      rw [goes_self] at hu
      cases hu
    · rw [goes_of_ne s _ hut] at hu
      exact absurd (hi.alone (t := t) (by rw [ht]; rfl) (by rw [hu]; rfl)) hut

theorem Inv.frees (hi : Inv s) {w : Swap} {old : Option Nat} (ht : s.phase t = .left w old) :
    Inv { s.goes t (.returning w.result) with heap := s.heap.release old } where
  lock := lock_goes hi (by rw [ht]; rfl)
  owner := by
    show Ownership (s.goes t _).owned (s.heap.release old)
    rw [owned_goes]
    have hrelease := hi.owner.release (.thread t)
    rwa [show s.owned (.thread t) = old from congrArg Phase.owned ht] at hrelease
  loaded := loaded_goes hi fun _ _ _ h => by cases h

/-- A copy that is returned goes from the call to its caller. -/
theorem Inv.returnsCopy (hi : Inv s) {copy : Option Nat} (ht : s.phase t = .returningCopy copy) :
    Inv { s.goes t .idle with kept := copy.toFinset ∪ s.kept } where
  lock := lock_goes hi (by rw [ht]; rfl)
  owner := by
    have hcopy : s.owned (.thread t) = copy := congrArg Phase.owned ht
    show Ownership _ s.heap
    cases copy with
    | none =>
      have hown : ({ s.goes t .idle with kept := (none : Option Nat).toFinset ∪ s.kept } :
          State τ).owned = s.owned := by
        rw [Option.toFinset_none, Finset.empty_union]
        exact owned_goes_same hcopy.symm
      rw [hown]
      exact hi.owner
    | some b =>
      have hfresh : s.owned (.caller b) = none := by
        cases hb : s.owned (.caller b) with
        | none => rfl
        | some c =>
          have hbc : c = b := by
            by_cases hkept : b ∈ s.kept
            · exact (Option.some.inj ((if_pos hkept).symm.trans hb)).symm
            · exact absurd ((if_neg hkept).symm.trans hb) (by simp)
          subst hbc
          cases hi.owner.unique _ _ c hcopy hb
      have hown : ({ s.goes t .idle with kept := (some b).toFinset ∪ s.kept } : State τ).owned =
          s.owned ∘ Equiv.swap (.caller b) (.thread t) := by
        funext o
        rw [Function.comp_apply]
        cases o with
        | field f =>
          rw [Equiv.swap_apply_of_ne_of_ne (by simp) (by simp)]
          rfl
        | thread u =>
          by_cases hu : u = t
          · subst hu
            rw [Equiv.swap_apply_right, hfresh]
            exact congrArg Phase.owned (goes_self s u _)
          · rw [Equiv.swap_apply_of_ne_of_ne (by simp) (by simpa using hu)]
            exact congrArg Phase.owned (goes_of_ne s _ hu)
        | caller c =>
          by_cases hc : c = b
          · subst hc
            rw [Equiv.swap_apply_left, hcopy]
            exact if_pos (by simp)
          · rw [Equiv.swap_apply_of_ne_of_ne (by simpa using hc) (by simp)]
            exact if_congr (by simp [hc]) rfl rfl
      rw [hown]
      exact hi.owner.exchange _
  loaded := loaded_goes hi fun _ _ _ h => by cases h

theorem Inv.stringFrees (hi : Inv s) {b : Nat} (hb : b ∈ s.kept) :
    Inv { s with kept := s.kept.erase b, heap := s.heap.release (some b) } where
  lock := hi.lock
  owner := by
    have hown : ({ s with kept := s.kept.erase b } : State τ).owned =
        Function.update s.owned (.caller b) none := by
      funext o
      cases o with
      | caller c =>
        by_cases hc : c = b
        · subst hc
          rw [Function.update_self]
          exact if_neg (by simp)
        · rw [Function.update_of_ne (by simpa using hc)]
          exact if_congr (by simp [hc]) rfl rfl
      | _ => rfl
    have hrelease := hi.owner.release (.caller b)
    rw [← hown, show s.owned (.caller b) = some b from if_pos hb] at hrelease
    exact hrelease
  loaded := hi.loaded

/-! ### Every step -/

theorem Inv.step (hi : Inv s) {e : Option (Event τ)} (h : Step s e s') : Inv s' := by
  cases h with
  | call _ ht => exact hi.goes (by rw [ht]; rfl) (by rw [ht]; rfl) (by simp)
  | dupNull ht => exact hi.goes (by rw [ht]; rfl) (by rw [ht]; rfl) (by simp)
  | dup ht => exact hi.allocs (by rw [ht]; rfl) (by rw [ht]; rfl) rfl (by simp) _
  | dupRefused ht =>
    split
    · exact hi.goes (by rw [ht]; rfl) (by rw [ht]; rfl) (by simp)
    · exact hi.goes (by rw [ht]; rfl) (by rw [ht]; rfl) (by simp)
  | lock ht hfree => exact hi.takes hfree rfl (by rw [ht]; rfl) (by simp)
  | load ht =>
    refine hi.goes (by rw [ht]; rfl) (by rw [ht]; rfl) ?_
    rintro w dup old ⟨⟩
    rfl
  | store ht => exact hi.store ht
  | storeCode ht => exact (hi.goes (by rw [ht]; rfl) (by rw [ht]; rfl) (by simp)).code _
  | unlock ht => exact hi.leaves (by rw [ht]; rfl) rfl (by rw [ht]; rfl) (by simp)
  | free ht => exact hi.frees ht
  | lockAccess ht hfree => exact hi.takes hfree rfl (by rw [ht]; rfl) (by simp)
  | copyNull ht => exact hi.goes (by rw [ht]; rfl) (by rw [ht]; rfl) (by simp)
  | copy ht => exact hi.allocs (by rw [ht]; rfl) (by rw [ht]; rfl) rfl (by simp) _
  | copyRefused ht => exact hi.goes (by rw [ht]; rfl) (by rw [ht]; rfl) (by simp)
  | copyStale ht hfield hstale =>
    exact absurd hstale (hi.owner.live (o := .field .apiToken) hfield)
  | readMessage ht => exact hi.goes (by rw [ht]; rfl) (by rw [ht]; rfl) (by simp)
  | readRequestId ht => exact hi.goes (by rw [ht]; rfl) (by rw [ht]; rfl) (by simp)
  | readCode ht => exact hi.goes (by rw [ht]; rfl) (by rw [ht]; rfl) (by simp)
  | unlockCopy ht => exact hi.leaves (by rw [ht]; rfl) rfl (by rw [ht]; rfl) (by simp)
  | unlockRead ht => exact hi.leaves (by rw [ht]; rfl) rfl (by rw [ht]; rfl) (by simp)
  | returnCopy ht => exact hi.returnsCopy ht
  | returns ht => exact hi.goes (by rw [ht]; rfl) (by rw [ht]; rfl) (by simp)
  | stringFree hb => exact hi.stringFrees hb

theorem inv_start (client : Client) : Inv (start client : State τ) where
  lock t := iff_of_false (fun h => by cases h) (fun h => by cases h)
  owner := by
    have hempty : Ownership (fun _ : Owner τ => none) (Heap.empty : Heap Char) := .empty
    cases htoken : client.apiToken with
    | none =>
      have hown : (start client : State τ).owned = fun _ => none := by
        funext o
        cases o with
        | field f => cases f <;> simp [State.owned, start, htoken]
        | thread t => rfl
        | caller b => simp [State.owned, start]
      rw [hown, start, htoken]
      exact hempty
    | some token =>
      have hown : (start client : State τ).owned =
          Function.update (fun _ => none) (.field .apiToken) (some 0) := by
        funext o
        cases o with
        | field f => cases f <;> simp [State.owned, start, htoken]
        | thread t => rfl
        | caller b => simp [State.owned, start]
      rw [hown, start, htoken]
      exact hempty.alloc rfl _
  loaded _ _ _ _ h := by cases h

theorem inv_of_run {client : Client} {es : List (Event τ)} (h : (threads client).Run es s) :
    Inv s :=
  h.invariant (fun _ hs => hs ▸ inv_start client) fun _ _ _ hi => hi.step

/-! ### Races -/

/-- Whoever is about to write to a place, or to free it, is alone there: no other thread, and no
caller with its copies, is about to access it.  And nothing that was freed is ever accessed. -/
theorem race_free {client : Client} {es : List (Event τ)} (h : (threads client).Run es s) :
    s.heap.faulted = false ∧ ∀ x y : Actor τ, ∀ l, l ∈ s.writes x →
      (l ∈ s.writes y ∨ l ∈ s.reads y) → x = y := by
  have hi := inv_of_run h
  refine ⟨hi.owner.sound, fun x y l hx hy => ?_⟩
  by_cases hl : ∀ b, l ≠ .block b
  · obtain ⟨t, rfl, ht⟩ := inside_of_guarded (.inl hx) hl
    obtain ⟨u, rfl, hu⟩ := inside_of_guarded hy hl
    rw [hi.alone hu ht]
  · obtain ⟨b, rfl⟩ := not_forall_not.1 hl
    have hxb := owned_of_write hx
    obtain hyb | hyb := hy
    · exact Actor.owner_injective (hi.owner.unique _ _ b hxb (owned_of_write hyb))
    · obtain hyb | hyb := owned_of_read hyb
      · exact Actor.owner_injective (hi.owner.unique _ _ b hxb hyb)
      · have howner := hi.owner.unique _ _ b hxb hyb
        cases x <;> cases howner

/-- A thread is about to assign the request id. -/
theorem race_free_store : ∃ s : State Bool, .field .lastRequestId ∈ s.writes (.thread true) ∧
    s.heap.faulted = false ∧ ∀ x y : Actor Bool, ∀ l, l ∈ s.writes x →
      (l ∈ s.writes y ∨ l ∈ s.reads y) → x = y := by
  have hcalled := Transition.Run.step (S := threads (Client.new none none none)) (.start rfl)
    (Step.call (t := true) (.setRequestId (some ['r'])) rfl)
  have hdupped := hcalled.step (Step.dup (t := true) rfl rfl)
  have hentered := hdupped.step (Step.lock (t := true) rfl rfl)
  have hloaded := hentered.step (Step.load (t := true) rfl)
  exact ⟨_, List.mem_singleton_self _, race_free hloaded⟩

/-! ### Release -/

/-- Once no call is under way, freeing the client leaves the copies that callers hold. -/
theorem clientFree_live_iff {client : Client} {es : List (Event τ)}
    (h : (threads client).Run es s) (hidle : ∀ t, s.phase t = .idle) :
    s.clientFree.faulted = false ∧ ∀ b, s.clientFree.Live b ↔ b ∈ s.kept := by
  have hi := inv_of_run h
  have howner := ((hi.owner.release (.field .apiToken)).release
    (.field .lastErrorMessage)).release (.field .lastRequestId)
  simp only [Function.update_of_ne, ne_eq, Owner.field.injEq, reduceCtorEq, not_false_eq_true]
    at howner
  refine ⟨howner.sound, fun b => (howner.live_iff b).trans ⟨?_, fun hb => ?_⟩⟩
  · rintro ⟨o, ho⟩
    cases o with
    | field f => cases f <;> simp at ho
    | thread t => simp [State.owned, hidle t, Phase.owned] at ho
    | caller c =>
      have hc : (if c ∈ s.kept then some c else none) = some b := ho
      split_ifs at hc with hkept
      rwa [← Option.some.inj hc]
  · exact ⟨.caller b, if_pos hb⟩

/-- The copy of a token outlives its client. -/
theorem clientFree_live_iff_copy : ∃ s : State Bool, s.kept = {1} ∧
    s.clientFree.faulted = false ∧ ∀ b, s.clientFree.Live b ↔ b ∈ s.kept := by
  have hcalled := Transition.Run.step (S := threads (Client.new (some ['t']) none none))
    (.start rfl) (Step.call (t := true) (.access .copyApiToken) rfl)
  have hreading := hcalled.step (Step.lockAccess (t := true) rfl rfl)
  have hcopied := hreading.step (Step.copy (t := true) (b := 0) rfl rfl rfl)
  have hunlocked := hcopied.step (Step.unlockCopy (t := true) rfl)
  have hreturned := hunlocked.step (Step.returnCopy (t := true) rfl)
  exact ⟨_, rfl, clientFree_live_iff hreturned (by rintro (_ | _) <;> rfl)⟩

end Threads

end Audd
