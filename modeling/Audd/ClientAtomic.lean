import Audd.ClientRaces

/-! The calls of the threads are atomic: each takes effect in one instant between its beginning and
its return, with the outcome of the call on its own.  A change takes effect when the field is
stored to, and a read when the field is read. -/

namespace Audd

namespace Threads

/-! ### The atomic client -/

def string (client : Client) : Field → Option CString
  | .apiToken => client.apiToken
  | .lastErrorMessage => client.lastErrorMessage
  | .lastRequestId => client.lastRequestId

/-- A client, and where its strings are. -/
structure Placed where
  client : Client
  place : Field → Option Nat

/-- The string of a field in a place where none was, or no string. -/
def Relocates (place : Field → Option Nat) (f : Field) (s : Option CString)
    (place' : Field → Option Nat) : Prop :=
  ∃ p : Option Nat, place' = Function.update place f p ∧ p.isSome = s.isSome ∧
    ∀ b, p = some b → ∀ g, place g ≠ some b

/-- The outcomes of a call that no other thread disturbs, by what is refused. -/
inductive Effect (a : Placed) : Call → Result → Placed → Prop
  | setApiToken {newToken : CString} {client : Client} {place : Field → Option Nat}
      (tape : Tape) :
      ((a.client.setApiToken (some newToken)).run tape).1 = (.ok, client) →
      Relocates a.place .apiToken client.apiToken place →
      Effect a (setApiToken newToken) (.error .ok) ⟨client, place⟩
  | setApiTokenFails {newToken : CString} {e : AuddError} {client : Client} (tape : Tape) :
      ((a.client.setApiToken (some newToken)).run tape).1 = (e, client) → e ≠ .ok →
      Effect a (setApiToken newToken) (.error e) ⟨client, a.place⟩
  | setError {message : CString} {apiCode : Int} {client : Client}
      {place : Field → Option Nat} (tape : Tape) :
      ((a.client.setError message apiCode).run tape).1 = client →
      Relocates a.place .lastErrorMessage client.lastErrorMessage place →
      Effect a (setError message apiCode) .unit ⟨client, place⟩
  | setRequestId {rid : Option CString} {client : Client} {place : Field → Option Nat}
      (tape : Tape) :
      ((a.client.setRequestId rid).run tape).1 = client →
      Relocates a.place .lastRequestId client.lastRequestId place →
      Effect a (setRequestId rid) .unit ⟨client, place⟩
  | clearError {place : Field → Option Nat} : Relocates a.place .lastErrorMessage none place →
      Effect a clearError .unit ⟨a.client.clearError, place⟩
  | copyApiToken (tape : Tape) :
      Effect a copyApiToken (.text (a.client.copyApiToken.run tape).1) a
  | lastErrorMessage : Effect a lastErrorMessage (.borrowed (a.place .lastErrorMessage)) a
  | lastErrorCode : Effect a lastErrorCode (.code a.client.lastErrorCode) a
  | lastRequestId : Effect a lastRequestId (.borrowed (a.place .lastRequestId)) a

inductive Progress
  | idle
  | pending (c : Call)
  | done (r : Result)

structure Atomic (τ : Type) where
  placed : Placed
  progress : τ → Progress

section

variable {τ : Type} [DecidableEq τ]

def Atomic.goes (a : Atomic τ) (t : τ) (p : Progress) : Atomic τ :=
  { a with progress := Function.update a.progress t p }

inductive AtomicStep : Atomic τ → Option (Event τ) → Atomic τ → Prop
  | call {a : Atomic τ} {t : τ} {c : Call} : Provided c → a.progress t = .idle →
      AtomicStep a (some (.call t c)) (a.goes t (.pending c))
  | effect {a : Atomic τ} {t : τ} {c : Call} {r : Result} {placed : Placed} :
      a.progress t = .pending c → Effect a.placed c r placed →
      AtomicStep a none { a.goes t (.done r) with placed }
  | returns {a : Atomic τ} {t : τ} {r : Result} : a.progress t = .done r →
      AtomicStep a (some (.returns t r)) (a.goes t .idle)

/-- Its strings may be anywhere at first. -/
def atomicThreads (client : Client) : Transition (Atomic τ) (Event τ) where
  init a := a.placed.client = client ∧
    (∀ f, (a.placed.place f).isSome = (string client f).isSome) ∧ ∀ t, a.progress t = .idle
  step := AtomicStep

end

/-! ### The effects of the calls -/

/-- A client after a swap. -/
def swapped (client : Client) (w : Swap) (dup : Option CString) : Client :=
  match w.field with
  | .apiToken =>
    { client with apiToken := dup, lastErrorCode := w.code.getD client.lastErrorCode }
  | .lastErrorMessage =>
    { client with lastErrorMessage := dup, lastErrorCode := w.code.getD client.lastErrorCode }
  | .lastRequestId =>
    { client with lastRequestId := dup, lastErrorCode := w.code.getD client.lastErrorCode }

theorem string_swapped (client : Client) (w : Swap) (dup : Option CString) :
    string (swapped client w dup) = Function.update (string client) w.field dup := by
  funext f
  unfold swapped
  cases hw : w.field <;> cases f <;> rfl

theorem code_swapped (client : Client) (w : Swap) (dup : Option CString) :
    (swapped client w dup).lastErrorCode = w.code.getD client.lastErrorCode := by
  unfold swapped
  cases w.field <;> rfl

/-- The swaps are those of the four functions that change a field. -/
theorem provided_swap {w : Swap} (h : Provided (.swap w)) :
    (∃ newToken, newToken ≠ [] ∧ .swap w = setApiToken newToken) ∨
    (∃ message apiCode, .swap w = setError message apiCode) ∨
    (∃ rid, .swap w = setRequestId rid) ∨ .swap w = clearError := by
  generalize hc : Call.swap w = c at h ⊢
  cases h with
  | setApiToken hne => exact .inl ⟨_, hne, rfl⟩
  | setError message apiCode => exact .inr (.inl ⟨message, apiCode, rfl⟩)
  | setRequestId rid => exact .inr (.inr (.inl ⟨rid, rfl⟩))
  | clearError => exact .inr (.inr (.inr rfl))
  | access a => cases hc

theorem effect_swap {w : Swap} (h : Provided (.swap w)) (a : Placed) {dup : Option CString}
    {place : Field → Option Nat} (hdup : dup = w.source ∨ dup = none ∧ w.refused = none)
    (hplace : Relocates a.place w.field dup place) :
    Effect a (.swap w) w.result ⟨swapped a.client w dup, place⟩ := by
  rcases provided_swap h with ⟨token, hne, hw⟩ | ⟨message, apiCode, hw⟩ | ⟨rid, hw⟩ | hw
  · obtain rfl := Call.swap.inj hw
    obtain rfl : dup = some token := hdup.resolve_right fun h => by cases h.2
    obtain ⟨c, token, rfl⟩ := List.exists_cons_of_ne_nil hne
    exact .setApiToken plenty rfl hplace
  · obtain rfl := Call.swap.inj hw
    obtain rfl | ⟨rfl, -⟩ := hdup
    · exact .setError plenty rfl hplace
    · exact .setError (fun _ => false) rfl hplace
  · obtain rfl := Call.swap.inj hw
    obtain hsource | ⟨rfl, -⟩ := hdup
    · obtain rfl : dup = rid := hsource
      cases dup with
      | none => exact .setRequestId plenty rfl hplace
      | some rid => exact .setRequestId plenty rfl hplace
    · cases rid with
      | none => exact .setRequestId plenty rfl hplace
      | some rid => exact .setRequestId (fun _ => false) rfl hplace
  · obtain rfl := Call.swap.inj hw
    obtain rfl : dup = none := by
      obtain rfl | ⟨rfl, -⟩ := hdup <;> rfl
    exact .clearError hplace

theorem effect_refused {w : Swap} (h : Provided (.swap w)) (a : Placed) {r : Result}
    (hr : w.refused = some r) : Effect a (.swap w) r a := by
  rcases provided_swap h with ⟨token, hne, hw⟩ | ⟨message, apiCode, hw⟩ | ⟨rid, hw⟩ | hw
  · obtain rfl := Call.swap.inj hw
    obtain rfl := Option.some.inj hr
    obtain ⟨c, token, rfl⟩ := List.exists_cons_of_ne_nil hne
    exact .setApiTokenFails (fun _ => false) rfl (by decide)
  · obtain rfl := Call.swap.inj hw
    cases hr
  · obtain rfl := Call.swap.inj hw
    cases hr
  · obtain rfl := Call.swap.inj hw
    cases hr

theorem copies_token {a : Placed} {token : Option CString} (tape : Tape)
    (h : a.client.apiToken = token) :
    Effect a copyApiToken
      (.text (token.bind fun token => if tape 0 then some token else none)) a := by
  have heffect : Effect a copyApiToken _ a := .copyApiToken tape
  cases token with
  | none => rwa [Client.copyApiToken, h] at heffect
  | some token => rwa [Client.copyApiToken, h] at heffect

/-! ### The relation -/

variable {τ : Type}

/-- The error code, with the store that is still to come of a message that is already stored. -/
def Phase.code : Phase → Int → Int
  | stored w _, n => w.code.getD n
  | _, n => n

def State.codeInForce (s : State τ) : Int :=
  match s.holder with
  | some t => (s.phase t).code s.code
  | none => s.code

/-- How far a call has come, seen from outside. -/
def Matches (s : State τ) : Phase → Progress → Prop
  | .idle, p => p = .idle
  | .called c, p => p = .pending c ∧ Provided c
  | .dupped w dup, p | .entered w dup, p | .loaded w dup _, p =>
    p = .pending (.swap w) ∧ Provided (.swap w) ∧
      (s.text dup = w.source ∨ s.text dup = none ∧ w.refused = none)
  | .stored w _, p | .coded w _, p | .left w _, p => p = .done w.result
  | .reading a, p => p = .pending (.access a)
  | .copied copy, p | .returningCopy copy, p => p = .done (.text (s.text copy))
  | .read r, p | .returning r, p => p = .done r

structure Rel (s : State τ) (a : Atomic τ) : Prop where
  inv : Inv s
  place : s.fields = a.placed.place
  text : ∀ f, s.text (s.fields f) = string a.placed.client f
  code : s.codeInForce = a.placed.client.lastErrorCode
  phase : ∀ t, Matches s (s.phase t) (a.progress t)

variable {s s' : State τ} {a : Atomic τ} {t : τ} {ph : Phase}

theorem Matches.congr {p : Progress} (h : Matches s ph p)
    (htext : s'.text ph.owned = s.text ph.owned) : Matches s' ph p := by
  cases ph <;> simp only [Matches, Phase.owned] at h htext ⊢ <;>
    first | exact h | rw [htext]; exact h

/-! ### What a step leaves of the strings -/

/-- A pointer that is owned points to a string. -/
theorem text_owned (hi : Inv s) (o : Owner τ) :
    (s.text (s.owned o)).isSome = (s.owned o).isSome := by
  cases ho : s.owned o with
  | none => rfl
  | some b =>
    obtain ⟨block, hblock⟩ := Option.ne_none_iff_exists'.1 (hi.owner.live ho)
    rw [State.text, Option.bind_some, hblock]
    rfl

theorem text_alloc (hi : Inv s) {o : Owner τ} (block : List (Option Char)) :
    ({ s with heap := s.heap.alloc block } : State τ).text (s.owned o) = s.text (s.owned o) := by
  cases ho : s.owned o with
  | none => rfl
  | some b =>
    have hne : b ≠ s.heap.next := (hi.owner.live ho).lt_next.ne
    show (Function.update s.heap.blocks s.heap.next (some block) b).map characters = _
    rw [Function.update_of_ne hne]
    rfl

theorem text_alloc_new (s : State τ) (block : List (Option Char)) :
    ({ s with heap := s.heap.alloc block } : State τ).text (some s.heap.next) =
      some (characters block) := by
  show (Function.update s.heap.blocks s.heap.next (some block) s.heap.next).map characters = _
  rw [Function.update_self]
  rfl

theorem text_release (hi : Inv s) {o o' : Owner τ} (hne : o' ≠ o) :
    ({ s with heap := s.heap.release (s.owned o) } : State τ).text (s.owned o') =
      s.text (s.owned o') := by
  cases ho : s.owned o with
  | none => rfl
  | some b =>
    have hlive : (s.heap.blocks b).isSome = true := Option.isSome_iff_ne_none.2 (hi.owner.live ho)
    have hremove : s.heap.release (some b) = s.heap.remove b := if_pos hlive
    cases ho' : s.owned o' with
    | none => rfl
    | some c =>
      have hcb : c ≠ b := by
        rintro rfl
        exact hne (hi.owner.unique _ _ c ho' ho)
      show ((s.heap.release (some b)).blocks c).map characters = _
      rw [hremove, Heap.blocks_remove, Function.update_of_ne hcb]
      rfl

theorem characters_map (source : CString) : characters (source.map some) = source := by
  show (source.map some).filterMap id = source
  rw [List.filterMap_map]
  exact List.filterMap_some

/-! ### The relation over a step -/

theorem codeInForce_inside (hi : Inv s) (ht : (s.phase t).inside = true) :
    s.codeInForce = (s.phase t).code s.code := by
  rw [State.codeInForce, (hi.lock t).2 ht]

variable [DecidableEq τ]

theorem codeInForce_goes (h : ph.code s.code = (s.phase t).code s.code) :
    (s.goes t ph).codeInForce = s.codeInForce := by
  unfold State.codeInForce
  show (match s.holder with
    | some u => ((s.goes t ph).phase u).code s.code
    | none => s.code) = _
  cases s.holder with
  | none => rfl
  | some u =>
    by_cases hu : u = t
    · subst hu
      simp only [goes_self, h]
    · simp only [goes_of_ne s ph hu]

/-- A step of one thread, seen from the others. -/
theorem Rel.step_of (hr : Rel s a) {placed : Placed} {p : Progress}
    (hphase : s'.phase = Function.update s.phase t ph) (hinv : Inv s')
    (hplace : s'.fields = placed.place)
    (htext : ∀ f, s'.text (s'.fields f) = string placed.client f)
    (hcode : s'.codeInForce = placed.client.lastErrorCode)
    (hothers : ∀ u, u ≠ t → s'.text (s.phase u).owned = s.text (s.phase u).owned)
    (hmatches : Matches s' ph p) : Rel s' { a.goes t p with placed } where
  inv := hinv
  place := hplace
  text := htext
  code := hcode
  phase u := by
    rw [hphase]
    by_cases hu : u = t
    · subst hu
      rw [Function.update_self]
      show Matches s' ph (Function.update a.progress u p u)
      rwa [Function.update_self]
    · rw [Function.update_of_ne hu]
      show Matches s' (s.phase u) (Function.update a.progress t p u)
      rw [Function.update_of_ne hu]
      exact (hr.phase u).congr (hothers u hu)

theorem goes_progress (a : Atomic τ) (t : τ) : a.goes t (a.progress t) = a := by
  unfold Atomic.goes
  rw [Function.update_eq_self]

/-- A step that nobody sees. -/
theorem Rel.stutter (hr : Rel s a) (hphase : s'.phase = Function.update s.phase t ph)
    (hinv : Inv s') (hfields : s'.fields = s.fields)
    (htext : ∀ f, s'.text (s'.fields f) = s.text (s.fields f))
    (hcode : s'.codeInForce = s.codeInForce)
    (hothers : ∀ u, u ≠ t → s'.text (s.phase u).owned = s.text (s.phase u).owned)
    (hmatches : Matches s' ph (a.progress t)) : Rel s' a := by
  have hrel : Rel s' { a.goes t (a.progress t) with placed := a.placed } :=
    hr.step_of hphase hinv (hfields.trans hr.place) (fun f => (htext f).trans (hr.text f))
      (hcode.trans hr.code) hothers hmatches
  have hsame : { a.goes t (a.progress t) with placed := a.placed } = a := goes_progress a t
  rwa [hsame] at hrel

/-- A step that only takes a thread on, in the client and in the atomic one. -/
theorem Rel.goes (hr : Rel s a) {p : Progress} (hinv : Inv (s.goes t ph))
    (hcode : ph.code s.code = (s.phase t).code s.code) (hmatches : Matches s ph p) :
    Rel (s.goes t ph) (a.goes t p) :=
  hr.step_of rfl hinv hr.place hr.text ((codeInForce_goes hcode).trans hr.code) (fun _ _ => rfl)
    hmatches

theorem Rel.stays (hr : Rel s a) (hinv : Inv (s.goes t ph))
    (hcode : ph.code s.code = (s.phase t).code s.code) (hmatches : Matches s ph (a.progress t)) :
    Rel (s.goes t ph) a := by
  have hrel : Rel (s.goes t ph) (a.goes t (a.progress t)) := hr.goes hinv hcode hmatches
  rwa [goes_progress] at hrel

/-- A call takes effect that changes nothing. -/
theorem Rel.effects (hr : Rel s a) {c : Call} {r : Result} (hinv : Inv (s.goes t ph))
    (hcode : ph.code s.code = (s.phase t).code s.code) (hpending : a.progress t = .pending c)
    (heffect : Effect a.placed c r a.placed) (hmatches : Matches s ph (.done r)) :
    ∃ a', Rel (s.goes t ph) a' ∧ AtomicStep a none a' :=
  ⟨a.goes t (.done r), hr.goes hinv hcode hmatches, .effect hpending heffect⟩

theorem Rel.takes (hr : Rel s a) (hfree : s.holder = none)
    (hinv : Inv { s.goes t ph with holder := some t }) (hcode : ph.code s.code = s.code)
    (hmatches : Matches s ph (a.progress t)) : Rel { s.goes t ph with holder := some t } a := by
  refine hr.stutter rfl hinv rfl (fun _ => rfl) ?_ (fun _ _ => rfl) hmatches
  show ((s.goes t ph).phase t).code s.code = _
  rw [goes_self, hcode, State.codeInForce, hfree]

theorem Rel.leaves (hr : Rel s a) (hinv : Inv { s.goes t ph with holder := none })
    (hinside : (s.phase t).inside = true) (hcode : (s.phase t).code s.code = s.code)
    (hmatches : Matches s ph (a.progress t)) : Rel { s.goes t ph with holder := none } a := by
  refine hr.stutter rfl hinv rfl (fun _ => rfl) ?_ (fun _ _ => rfl) hmatches
  rw [codeInForce_inside hr.inv hinside, hcode]
  rfl

/-! ### Every step -/

omit [DecidableEq τ] in
theorem Rel.token (hr : Rel s a) {b : Nat} {block : List (Option Char)}
    (hfield : s.fields .apiToken = some b) (hblock : s.heap.blocks b = some block) :
    a.placed.client.apiToken = some (characters block) := by
  have htext : s.text (s.fields .apiToken) = a.placed.client.apiToken := hr.text .apiToken
  rw [← htext, hfield, State.text, Option.bind_some, hblock, Option.map_some]

omit [DecidableEq τ] in
/-- The new string is in no place of the client's. -/
theorem Rel.relocates (hr : Rel s a) {w : Swap} {dup old : Option Nat}
    (ht : s.phase t = .loaded w dup old) :
    Relocates a.placed.place w.field (s.text dup) (Function.update s.fields w.field dup) := by
  have hdup : s.owned (.thread t) = dup := congrArg Phase.owned ht
  have hsome := text_owned hr.inv (.thread t)
  rw [hdup] at hsome
  rw [← hr.place]
  refine ⟨dup, rfl, hsome.symm, fun b hb g hg => ?_⟩
  have howner := hr.inv.owner.unique (.thread t) (.field g) b (hdup.trans hb) hg
  cases howner

theorem Rel.step (hr : Rel s a) {e : Option (Event τ)} (h : Step s e s') :
    ∃ a', Rel s' a' ∧ (AtomicStep a e a' ∨ e = none ∧ a' = a) := by
  have hinv := hr.inv.step h
  cases h with
  | @call t c hc ht =>
    have hm := hr.phase t
    rw [ht] at hm
    exact ⟨a.goes t (.pending c), hr.goes hinv (by rw [ht]; rfl) ⟨rfl, hc⟩, .inl (.call hc hm)⟩
  | @dupNull t w ht hsource =>
    have hm := hr.phase t
    rw [ht] at hm
    exact ⟨a, hr.stays hinv (by rw [ht]; rfl) ⟨hm.1, hm.2, .inl hsource.symm⟩, .inr ⟨rfl, rfl⟩⟩
  | @dup t w source ht hsource =>
    have hm := hr.phase t
    rw [ht] at hm
    have hphase : (Phase.dupped w (some s.heap.next)).code s.code = (s.phase t).code s.code := by
      rw [ht]
      rfl
    have hnew := text_alloc_new s (source.map some)
    rw [characters_map] at hnew
    exact ⟨a, hr.stutter rfl hinv rfl (fun f => text_alloc hr.inv (o := .field f) _)
      (codeInForce_goes (s := s.dups source) hphase)
      (fun u _ => text_alloc hr.inv (o := .thread u) _)
      ⟨hm.1, hm.2, .inl (hnew.trans hsource.symm)⟩, .inr ⟨rfl, rfl⟩⟩
  | @dupRefused t w source ht hsource =>
    have hm := hr.phase t
    rw [ht] at hm
    cases hrefused : w.refused with
    | some r =>
      rw [hrefused] at hinv
      obtain ⟨a', hrel, hstep⟩ := hr.effects hinv (by rw [ht]; rfl) hm.1
        (effect_refused hm.2 a.placed hrefused) rfl
      exact ⟨a', hrel, .inl hstep⟩
    | none =>
      rw [hrefused] at hinv
      exact ⟨a, hr.stays hinv (by rw [ht]; rfl) ⟨hm.1, hm.2, .inr ⟨rfl, hrefused⟩⟩,
        .inr ⟨rfl, rfl⟩⟩
  | @lock t w dup ht hfree =>
    have hm := hr.phase t
    rw [ht] at hm
    exact ⟨a, hr.takes hfree hinv rfl hm, .inr ⟨rfl, rfl⟩⟩
  | @load t w dup ht =>
    have hm := hr.phase t
    rw [ht] at hm
    exact ⟨a, hr.stays hinv (by rw [ht]; rfl) hm, .inr ⟨rfl, rfl⟩⟩
  | @store t w dup old ht =>
    have hm := hr.phase t
    rw [ht] at hm
    have hinside : (s.phase t).inside = true := by rw [ht]; rfl
    refine ⟨{ a.goes t (.done w.result) with
        placed := ⟨swapped a.placed.client w (s.text dup), Function.update s.fields w.field dup⟩ },
      hr.step_of rfl hinv rfl (fun f => ?_) ?_ (fun _ _ => rfl) rfl,
      .inl (.effect hm.1 (effect_swap hm.2.1 a.placed hm.2.2 (hr.relocates ht)))⟩
    · rw [string_swapped]
      show s.text (Function.update s.fields w.field dup f) = _
      by_cases hf : f = w.field
      · rw [hf, Function.update_self, Function.update_self]
      · rw [Function.update_of_ne hf, Function.update_of_ne hf, hr.text f]
    · rw [code_swapped, ← hr.code, codeInForce_inside hr.inv hinside, ht,
        codeInForce_inside hinv (t := t) (by rw [goes_self]; rfl)]
      exact congrArg (Phase.code · s.code) (goes_self s t _)
  | @storeCode t w old ht =>
    have hm := hr.phase t
    rw [ht] at hm
    have hinside : (s.phase t).inside = true := by rw [ht]; rfl
    refine ⟨a, hr.stutter rfl hinv rfl (fun _ => rfl) ?_ (fun _ _ => rfl) hm, .inr ⟨rfl, rfl⟩⟩
    rw [codeInForce_inside hr.inv hinside, ht,
      codeInForce_inside hinv (t := t) (by rw [goes_self]; rfl)]
    exact congrArg (Phase.code · (w.code.getD s.code)) (goes_self s t _)
  | @unlock t w old ht =>
    have hm := hr.phase t
    rw [ht] at hm
    exact ⟨a, hr.leaves hinv (by rw [ht]; rfl) (by rw [ht]; rfl) hm, .inr ⟨rfl, rfl⟩⟩
  | @free t w old ht =>
    have hm := hr.phase t
    rw [ht] at hm
    have hold : s.owned (.thread t) = old := congrArg Phase.owned ht
    have hrest : ∀ o, o ≠ .thread t →
        ({ s with heap := s.heap.release old } : State τ).text (s.owned o) =
          s.text (s.owned o) := by
      intro o ho
      rw [← hold]
      exact text_release hr.inv ho
    have hphase : (Phase.returning w.result).code s.code = (s.phase t).code s.code := by
      rw [ht]
      rfl
    exact ⟨a, hr.stutter rfl hinv rfl (fun f => hrest (.field f) (by simp))
      (codeInForce_goes (s := { s with heap := s.heap.release old }) hphase)
      (fun u hu => hrest (.thread u) (by simpa using hu)) hm, .inr ⟨rfl, rfl⟩⟩
  | @lockAccess t b ht hfree =>
    have hm := hr.phase t
    rw [ht] at hm
    exact ⟨a, hr.takes hfree hinv rfl hm.1, .inr ⟨rfl, rfl⟩⟩
  | @copyNull t ht hfield =>
    have hm := hr.phase t
    rw [ht] at hm
    have htext : s.text (s.fields .apiToken) = a.placed.client.apiToken := hr.text .apiToken
    rw [hfield] at htext
    have heffect := copies_token plenty htext.symm
    obtain ⟨a', hrel, hstep⟩ := hr.effects hinv (by rw [ht]; rfl) hm heffect rfl
    exact ⟨a', hrel, .inl hstep⟩
  | @copy t b block ht hfield hblock =>
    have hm := hr.phase t
    rw [ht] at hm
    have heffect := copies_token plenty (hr.token hfield hblock)
    have hphase : (Phase.copied (some s.heap.next)).code s.code = (s.phase t).code s.code := by
      rw [ht]
      rfl
    refine ⟨{ a.goes t (.done (.text (some (characters block)))) with placed := a.placed },
      hr.step_of rfl hinv hr.place (fun f => ?_) ?_
        (fun u _ => text_alloc hr.inv (o := .thread u) _) ?_,
      .inl (.effect hm heffect)⟩
    · exact (text_alloc hr.inv (o := .field f) _).trans (hr.text f)
    · exact (codeInForce_goes (s := { s with heap := s.heap.alloc block }) hphase).trans hr.code
    · exact congrArg (fun s => Progress.done (.text s)) (text_alloc_new s block).symm
  | @copyRefused t b block ht hfield hblock =>
    have hm := hr.phase t
    rw [ht] at hm
    have heffect := copies_token (fun _ => false) (hr.token hfield hblock)
    obtain ⟨a', hrel, hstep⟩ := hr.effects hinv (by rw [ht]; rfl) hm heffect rfl
    exact ⟨a', hrel, .inl hstep⟩
  | @copyStale t b ht hfield hstale =>
    exact absurd hstale (hr.inv.owner.live (o := .field .apiToken) hfield)
  | @readMessage t ht =>
    have hm := hr.phase t
    rw [ht] at hm
    have heffect : Effect a.placed lastErrorMessage _ a.placed := .lastErrorMessage
    rw [← hr.place] at heffect
    obtain ⟨a', hrel, hstep⟩ := hr.effects hinv (by rw [ht]; rfl) hm heffect rfl
    exact ⟨a', hrel, .inl hstep⟩
  | @readRequestId t ht =>
    have hm := hr.phase t
    rw [ht] at hm
    have heffect : Effect a.placed lastRequestId _ a.placed := .lastRequestId
    rw [← hr.place] at heffect
    obtain ⟨a', hrel, hstep⟩ := hr.effects hinv (by rw [ht]; rfl) hm heffect rfl
    exact ⟨a', hrel, .inl hstep⟩
  | @readCode t ht =>
    have hm := hr.phase t
    rw [ht] at hm
    have hinside : (s.phase t).inside = true := by rw [ht]; rfl
    have hcode : a.placed.client.lastErrorCode = s.code := by
      rw [← hr.code, codeInForce_inside hr.inv hinside, ht]
      rfl
    have heffect : Effect a.placed lastErrorCode _ a.placed := .lastErrorCode
    rw [hcode] at heffect
    obtain ⟨a', hrel, hstep⟩ := hr.effects hinv (by rw [ht]; rfl) hm heffect rfl
    exact ⟨a', hrel, .inl hstep⟩
  | @unlockCopy t copy ht =>
    have hm := hr.phase t
    rw [ht] at hm
    exact ⟨a, hr.leaves hinv (by rw [ht]; rfl) (by rw [ht]; rfl) hm, .inr ⟨rfl, rfl⟩⟩
  | @unlockRead t r ht =>
    have hm := hr.phase t
    rw [ht] at hm
    exact ⟨a, hr.leaves hinv (by rw [ht]; rfl) (by rw [ht]; rfl) hm, .inr ⟨rfl, rfl⟩⟩
  | @returnCopy t copy ht =>
    have hm := hr.phase t
    rw [ht] at hm
    have hphase : Phase.idle.code s.code = (s.phase t).code s.code := by
      rw [ht]
      rfl
    exact ⟨a.goes t .idle, hr.step_of rfl hinv hr.place hr.text
      ((codeInForce_goes (s := { s with kept := copy.toFinset ∪ s.kept }) hphase).trans hr.code)
      (fun _ _ => rfl) rfl, .inl (.returns hm)⟩
  | @returns t r ht =>
    have hm := hr.phase t
    rw [ht] at hm
    exact ⟨a.goes t .idle, hr.goes hinv (by rw [ht]; rfl) rfl, .inl (.returns hm)⟩
  | @stringFree b hb =>
    have hcaller : s.owned (.caller b) = some b := if_pos hb
    have hrest : ∀ o, o ≠ .caller b →
        ({ s with heap := s.heap.release (some b) } : State τ).text (s.owned o) =
          s.text (s.owned o) := by
      intro o ho
      rw [← hcaller]
      exact text_release hr.inv ho
    exact ⟨a, ⟨hinv, hr.place, fun f => (hrest (.field f) (by simp)).trans (hr.text f), hr.code,
      fun t => (hr.phase t).congr (hrest (.thread t) (by simp))⟩, .inr ⟨rfl, rfl⟩⟩

omit [DecidableEq τ] in
theorem text_start {client : Client} (hmessage : client.lastErrorMessage = none)
    (hrid : client.lastRequestId = none) (f : Field) :
    (start client : State τ).text ((start client : State τ).fields f) = string client f := by
  cases f with
  | apiToken =>
    cases htoken : client.apiToken with
    | none => simp [start, State.text, string, htoken]
    | some token =>
      have hblock : (Heap.empty.alloc (token.map some)).blocks 0 = some (token.map some) := rfl
      simp [start, State.text, string, htoken, hblock, characters_map]
  | lastErrorMessage => exact hmessage.symm
  | lastRequestId => exact hrid.symm

/-- Every run of the threads on a new client, with calls and steps in any order and any refusals,
shows what a run of atomic calls shows.  The pointers that are lent are those of the atomic client,
and point to its strings for as long as it has them there; when no call is under way, the error code
is the one that the atomic calls leave. -/
theorem threads_atomic {apiToken env : Option CString} {options : Option Options}
    {es : List (Event τ)} (h : (threads (Client.new apiToken env options)).Run es s) :
    ∃ a, (atomicThreads (Client.new apiToken env options)).Run es a ∧
      (∀ f, s.fields f = a.placed.place f ∧
        s.text (a.placed.place f) = string a.placed.client f) ∧
      ((∀ t, s.phase t = .idle) → s.code = a.placed.client.lastErrorCode) := by
  have hsimulation : Transition.Simulation (threads (Client.new apiToken env options))
      (atomicThreads (Client.new apiToken env options)) (Rel (τ := τ)) := by
    refine ⟨?_, fun s e s' a hr hs => hr.step hs⟩
    rintro s rfl
    have hi : Inv (start (τ := τ) (Client.new apiToken env options)) := inv_start _
    have htext := @text_start τ (Client.new apiToken env options) rfl rfl
    refine ⟨⟨⟨Client.new apiToken env options, (start (τ := τ) _).fields⟩, fun _ => .idle⟩,
      ⟨rfl, fun f => ?_, fun t => rfl⟩, hi, rfl, htext, rfl, fun t => rfl⟩
    rw [← htext f]
    exact (text_owned hi (.field f)).symm
  obtain ⟨a, hr, hrun⟩ := hsimulation.run h
  refine ⟨a, hrun, fun f => ⟨congrFun hr.place f, ?_⟩, fun hidle => ?_⟩
  · rw [← hr.place, hr.text f]
  · rw [← hr.code, State.codeInForce]
    cases s.holder with
    | none => rfl
    | some t => simp only [hidle t, Phase.code]

/-- A request id is lent, and it is freed by another thread before the pointer is returned. -/
theorem threads_atomic_stale : ∃ s : State Bool, ∃ a, s.heap.blocks 0 = none ∧
    (atomicThreads (Client.new none none none)).Run
      [.call true (setRequestId (some ['r'])), .returns true .unit, .call false lastRequestId,
        .call true (setRequestId none), .returns true .unit,
        .returns false (.borrowed (some 0))] a ∧
      (∀ f, s.fields f = a.placed.place f ∧
        s.text (a.placed.place f) = string a.placed.client f) ∧
      ((∀ t, s.phase t = .idle) → s.code = a.placed.client.lastErrorCode) := by
  have hcalled := Transition.Run.step (S := threads (Client.new none none none)) (.start rfl)
    (Step.call (t := true) (.setRequestId (some ['r'])) rfl)
  have hdupped := hcalled.step (Step.dup (t := true) rfl rfl)
  have hentered := hdupped.step (Step.lock (t := true) rfl rfl)
  have hloaded := hentered.step (Step.load (t := true) rfl)
  have hstored := hloaded.step (Step.store (t := true) rfl)
  have hcoded := hstored.step (Step.storeCode (t := true) rfl)
  have hleft := hcoded.step (Step.unlock (t := true) rfl)
  have hfreed := hleft.step (Step.free (t := true) rfl)
  have hset := hfreed.step (Step.returns (t := true) rfl)
  -- the other thread reads the pointer and leaves the lock
  have hasked := hset.step (Step.call (t := false) (.access .lastRequestId) rfl)
  have hreading := hasked.step (Step.lockAccess (t := false) rfl rfl)
  have hread := hreading.step (Step.readRequestId (t := false) rfl)
  have hlent := hread.step (Step.unlockRead (t := false) rfl)
  have hcalled' := hlent.step (Step.call (t := true) (.setRequestId none) rfl)
  have hdupped' := hcalled'.step (Step.dupNull (t := true) rfl rfl)
  have hentered' := hdupped'.step (Step.lock (t := true) rfl rfl)
  have hloaded' := hentered'.step (Step.load (t := true) rfl)
  have hstored' := hloaded'.step (Step.store (t := true) rfl)
  have hcoded' := hstored'.step (Step.storeCode (t := true) rfl)
  have hleft' := hcoded'.step (Step.unlock (t := true) rfl)
  have hfreed' := hleft'.step (Step.free (t := true) rfl)
  have hcleared := hfreed'.step (Step.returns (t := true) rfl)
  have hreturned := hcleared.step (Step.returns (t := false) rfl)
  obtain ⟨a, ha⟩ := threads_atomic hreturned
  exact ⟨_, a, rfl, ha⟩

end Threads

end Audd
