import Audd.Calls

/-! Token rotation while a call is in flight.  The token is copied by the transport, once in every
attempt, so the token of an attempt is the one in force at its own copy and not at the start of the
call. -/

namespace Audd

structure Rotation where
  newToken : Option CString
  tape : Tape

def Client.rotate (c : Client) (r : Rotation) : Client :=
  ((c.setApiToken r.newToken).run r.tape).1.2

def Client.rotateAll (c : Client) (rs : List Rotation) : Client := rs.foldl Client.rotate c

/-- Where the rotations of other threads fall: before the token copy of attempt `n`, from the end of
the attempt before it, and after that copy, up to the end of attempt `n`.  All other steps of a
call leave the token alone, so no more is told apart. -/
structure Interleaving where
  before : Nat → List Rotation
  during : Nat → List Rotation

def interleaved (schedule : Interleaving) (attempt : Nat → Client → Posted) (n : Nat)
    (client : Client) : Posted :=
  let posted := attempt n (client.rotateAll (schedule.before n))
  { posted with client := posted.client.rotateAll (schedule.during n) }

namespace Interleaving

variable (schedule : Interleaving)

def past : Nat → List Rotation
  | 0 => []
  | n + 1 => past n ++ schedule.before n ++ schedule.during n

/-- The token in force at the copy of attempt `n`. -/
def inForce (client : Client) (n : Nat) : Option CString :=
  (client.rotateAll (schedule.past n ++ schedule.before n)).apiToken

end Interleaving

/-- Every request that the attempts of a run hand over has the form with that token. -/
def HandsOver {ω : Type} (run : RetryRun ω) (posted : Nat → Posted) (apiToken : Option CString)
    (form : HttpForm) : Prop :=
  ∀ n, n < run.attempts.length → ∀ request, (posted n).request = some request →
    request.parts = mimeParts apiToken form

/-! ### Rotations -/

/-- A rotation changes the token and nothing else, in the same way whatever the client. -/
theorem rotate_eq (r : Rotation) : ∃ token : Option CString, ∀ c : Client,
    c.rotate r = { c with apiToken := token.or c.apiToken } := by
  rcases r with ⟨_ | _ | ⟨x, token⟩, tape⟩
  · exact ⟨none, fun c => rfl⟩
  · exact ⟨none, fun c => rfl⟩
  · cases hgranted : tape 0 with
    | true =>
      refine ⟨some (x :: token), fun c => ?_⟩
      simp [Client.rotate, Client.setApiToken, AllocM.run_bind, hgranted]
    | false =>
      refine ⟨none, fun c => ?_⟩
      simp [Client.rotate, Client.setApiToken, AllocM.run_bind, hgranted]

theorem rotateAll_eq (rs : List Rotation) : ∃ token : Option CString, ∀ c : Client,
    c.rotateAll rs = { c with apiToken := token.or c.apiToken } := by
  induction rs with
  | nil => exact ⟨none, fun c => rfl⟩
  | cons r rs ih =>
    obtain ⟨first, hfirst⟩ := rotate_eq r
    obtain ⟨last, hlast⟩ := ih
    refine ⟨last.or first, fun c => ?_⟩
    rw [Client.rotateAll, List.foldl_cons, hfirst]
    exact (hlast _).trans (by rw [Option.or_assoc])

theorem rotateAll_append (c : Client) (rs rs' : List Rotation) :
    c.rotateAll (rs ++ rs') = (c.rotateAll rs).rotateAll rs' :=
  List.foldl_append

theorem rotateAll_closed (c : Client) (rs : List Rotation) :
    (c.rotateAll rs).closed = c.closed := by
  obtain ⟨token, h⟩ := rotateAll_eq rs
  rw [h]

theorem rotateAll_congr {c c' : Client} (h : c.apiToken = c'.apiToken) (rs : List Rotation) :
    (c.rotateAll rs).apiToken = (c'.rotateAll rs).apiToken := by
  obtain ⟨token, hrotate⟩ := rotateAll_eq rs
  rw [hrotate, hrotate, h]

theorem rotate_ok {c : Client} {r : Rotation}
    (h : ((c.setApiToken r.newToken).run r.tape).1.1 = .ok) :
    (c.rotate r).apiToken = r.newToken := by
  rcases r with ⟨_ | _ | ⟨x, token⟩, tape⟩
  · cases h
  · cases h
  · cases hgranted : tape 0 with
    | true => simp [Client.rotate, Client.setApiToken, AllocM.run_bind, hgranted]
    | false => simp [Client.setApiToken, AllocM.run_bind, hgranted] at h

/-! ### Interleaved runs -/

section

variable (parse : CString → Option CJson) (schedule : Interleaving) (env : Nat → AttemptEnv)

theorem interleaved_faithful {comesTo : Nat → Transfer} {attempt : Nat → Client → Posted}
    (h : Faithful parse comesTo attempt) :
    Faithful parse comesTo (interleaved schedule attempt) where
  report n c := h.report n _
  brought n c := h.brought n _
  closed n c := by
    show (Client.rotateAll _ _).closed = _
    rw [rotateAll_closed, h.closed, rotateAll_closed]

/-- The token at the start of attempt `n` is the one that the rotations before it leave. -/
theorem interleaved_token (kind : AttemptKind) (c : Client) (n : Nat) :
    ((posting env (interleaved schedule (posts env (kind.post parse)))).worldAt
      (c, 0) n).1.apiToken = (c.rotateAll (schedule.past n)).apiToken := by
  refine posting_worldAt_fst (I := fun n client =>
    client.apiToken = (c.rotateAll (schedule.past n)).apiToken) rfl (fun n c' hc' => ?_) n
  obtain ⟨message, code, rid, hclient⟩ :=
    kind.post_client parse env n (c'.rotateAll (schedule.before n))
  rw [Interleaving.past, rotateAll_append, rotateAll_append]
  refine rotateAll_congr ?_ (schedule.during n)
  rw [hclient]
  exact rotateAll_congr hc' (schedule.before n)

/-- Attempt `n` hands its form over with the token in force at its own copy. -/
theorem interleaved_request (kind : AttemptKind) (c : Client) (n : Nat) :
    (postedAt env (interleaved schedule (posts env (kind.post parse))) c n).request.map
        HttpRequest.parts =
      if kind.comesTo (env n) = .noHandle then none
      else some (mimeParts (kind.sends (env n) (schedule.inForce c n)) kind.form) := by
  have htoken := rotateAll_congr (interleaved_token parse schedule env kind c n)
    (schedule.before n)
  rw [Interleaving.inForce, rotateAll_append, ← htoken]
  exact kind.post_request parse env n _

end

/-! ### Calls in flight -/

theorem tokenPart_injective : Function.Injective tokenPart := by
  intro token token' h
  cases token <;> cases token' <;> simp_all [tokenPart, valuePart]

theorem mimeParts_inj {token token' : Option CString} {form : HttpForm} :
    mimeParts token form = mimeParts token' form ↔ token = token' := by
  refine ⟨fun h => tokenPart_injective ?_, fun h => congrArg (mimeParts · form) h⟩
  rw [mimeParts, mimeParts, List.append_assoc, List.append_assoc] at h
  exact List.append_cancel_right h

/-- Every call, with any rotations interleaved: its attempts all carry the token in force at the
start of the call exactly when, for each attempt made that hands a request over, that token is in
force at the attempt's own copy and the copy is allocated.  A rotation that succeeds puts its token
in force for the calls that start after it. -/
theorem call_tokens_iff {ρ ε : Type} (linked : Linked ρ ε) (call : Call) (env : CallEnv)
    (schedule : Interleaving) (client client' : Client) (r : Request Unit)
    (hprepared : ((call.prepare linked client).run env.prep).1 = .request client' r) :
    (∃ kind : AttemptKind, r.post = kind.post linked.parse ∧
      let attempt := interleaved schedule (posts env.attempts r.post)
      (HandsOver (r.run env.attempts attempt client') (postedAt env.attempts attempt client')
          client.apiToken kind.form ↔
        client.closed = true ∨ ∀ n : Nat, (n : Int) < client.options.attemptLimit →
          (∀ j, j < n → (kind.comesTo (env.attempts j)).retried r.cls = true) →
          kind.comesTo (env.attempts n) ≠ .noHandle →
          kind.sends (env.attempts n) (schedule.inForce client n) = client.apiToken)) ∧
    ∀ rotation : Rotation, ((client.setApiToken rotation.newToken).run rotation.tape).1.1 = .ok →
      (client.rotate rotation).apiToken = rotation.newToken := by
  refine ⟨?_, fun rotation => rotate_ok⟩
  obtain ⟨kind, hpost, hclient⟩ := call.request_kind linked hprepared
  refine ⟨kind, hpost, ?_⟩
  have hsame : client'.closed = client.closed ∧ client'.options = client.options ∧
      client'.apiToken = client.apiToken := by
    rcases hclient with rfl | rfl <;> exact ⟨rfl, rfl, rfl⟩
  intro attempt
  have hattempt : attempt = interleaved schedule (posts env.attempts (kind.post linked.parse)) := by
    rw [← hpost]
  cases hopen : client.closed with
  | true =>
    have hrun := posting_closed_run env.attempts attempt r.cls client'.options .zero
      (hsame.1.trans hopen)
    refine iff_of_true (fun n hn => ?_) (.inl rfl)
    rw [Request.run, hrun] at hn
    cases hn
  | false =>
    obtain ⟨k, hk, hattempts, -⟩ := posting_runs env.attempts
      (interleaved_faithful linked.parse schedule (kind.post_faithful linked.parse env.attempts))
      r.cls client'.options .zero (hsame.1.trans hopen)
    have hlength : (r.run env.attempts attempt client').attempts.length = k := by
      rw [Request.run, hattempt, hattempts, List.length_map, List.length_range]
    have hmade := hk.made_iff (attemptLimit_pos client'.options)
    rw [hsame.2.1] at hmade
    have hrequest : ∀ n, (∀ request, (postedAt env.attempts attempt client' n).request =
          some request → request.parts = mimeParts client.apiToken kind.form) ↔
        (kind.comesTo (env.attempts n) ≠ .noHandle →
          kind.sends (env.attempts n) (schedule.inForce client n) = client.apiToken) := by
      intro n
      have hparts := interleaved_request linked.parse schedule env.attempts kind client' n
      have hforce : schedule.inForce client' n = schedule.inForce client n :=
        rotateAll_congr hsame.2.2 _
      rw [← hattempt, hforce] at hparts
      by_cases hnone : kind.comesTo (env.attempts n) = .noHandle
      · rw [if_pos hnone, Option.map_eq_none_iff] at hparts
        simp [hparts, hnone]
      · rw [if_neg hnone] at hparts
        obtain ⟨request, hrequest, hsent⟩ := Option.map_eq_some_iff.mp hparts
        rw [hrequest]
        constructor
        · intro h _
          exact mimeParts_inj.mp (hsent.symm.trans (h request rfl))
        · rintro h _ ⟨⟩
          rw [hsent, h hnone]
    rw [HandsOver, hlength]
    simp only [hmade, hrequest, and_imp]
    simp

def busyOnce : CallEnv where
  prep := plenty
  attempts
    | 0 => ⟨plenty, .performed ⟨[⟨64, 503⟩], .ok, [], none, none⟩⟩
    | _ => ⟨plenty, .performed ⟨[⟨64, 200⟩], .ok, [], none, none⟩⟩
  after := plenty

def silentServer : Linked Unit Unit :=
  ⟨fun _ => none, .exact, fun _ => false, fun _ => pure none, fun _ => pure none⟩

def recognizeUrl : Request Unit where
  cls := .recognition
  post := recognizeAttempt silentServer.parse ⟨false, none, none, none, some "http://a", none, none,
    none⟩
  finish client resp := do
    let (e, client, _) ←
      finishRecognize .exact (standardResult silentServer.recognitionFromJson) client resp
    pure (e, client, none)

theorem unrotated_sameToken : ∃ kind : AttemptKind,
    recognizeUrl.post = kind.post silentServer.parse ∧
    let attempt :=
      interleaved ⟨fun _ => [], fun _ => []⟩ (posts busyOnce.attempts recognizeUrl.post)
    HandsOver (recognizeUrl.run busyOnce.attempts attempt (.new (some "old") none none))
      (postedAt busyOnce.attempts attempt (.new (some "old") none none)) (some "old")
      kind.form := by
  have hpast : ∀ n, Interleaving.past ⟨fun _ => [], fun _ => []⟩ n = [] := by
    intro n
    induction n with
    | zero => rfl
    | succ n ih => simp [Interleaving.past, ih]
  obtain ⟨⟨kind, hpost, htokens⟩, -⟩ := call_tokens_iff silentServer
    (.recognize (some "http://a") none true) busyOnce ⟨fun _ => [], fun _ => []⟩
    (.new (some "old") none none) (.new (some "old") none none) recognizeUrl rfl
  refine ⟨kind, hpost, htokens.mpr (.inr fun n _ _ _ => ?_)⟩
  have hgranted : kind.rest (busyOnce.attempts n).tape 0 = true := by
    cases n <;> cases kind <;> rfl
  rw [AttemptKind.sends, hgranted, Interleaving.inForce, hpast]
  rfl

def rotatedBetween : Interleaving where
  before n := if n = 1 then [⟨some "new", plenty⟩] else []
  during _ := []

/-- The second attempt carries the new token, and not the one in force when the call started. -/
theorem rotatedBetween_newToken :
    let attempt := interleaved rotatedBetween (posts busyOnce.attempts recognizeUrl.post)
    ((Call.recognize (some "http://a") none true).prepare silentServer
      (.new (some "old") none none)).ok = .request (.new (some "old") none none) recognizeUrl ∧
    ¬HandsOver (recognizeUrl.run busyOnce.attempts attempt (.new (some "old") none none))
      (postedAt busyOnce.attempts attempt (.new (some "old") none none)) (some "old")
      (recognizeForm ⟨false, none, none, none, some "http://a", none, none, none⟩) :=
  ⟨rfl, fun h => absurd (h 1 (by decide) _ rfl) (by decide)⟩

end Audd
