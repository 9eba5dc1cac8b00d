import Audd.Retry

/-! Requests: the retry runner over attempts that post.  Memory and libcurl are given attempt by
attempt, and what the runner reads of an attempt is a function of its transfer alone. -/

namespace Audd

/-- What one attempt meets: its allocations and its transfer. -/
structure AttemptEnv where
  tape : Tape
  transfer : Transfer

/-- What attempt `n`, from 0, of a call posts. -/
def posts (env : Nat → AttemptEnv) (post : Client → Transfer → AllocM Posted) (n : Nat)
    (client : Client) : Posted :=
  ((post client (env n).transfer).run (env n).tape).1

/-- The runner of a call that makes those attempts. -/
def posting (env : Nat → AttemptEnv) (attempt : Nat → Client → Posted) :
    Runner (Client × Nat) where
  closed w := w.1.closed
  onClosed w := (((w.1.setError "client closed" 0).run (env w.2).tape).1, w.2)
  attempt w :=
    let posted := attempt w.2 w.1
    (posted.attempt, posted.client, w.2 + 1)

/-- What a call meets: the allocations of its preparation, its attempts, and the allocations that
follow its response. -/
structure CallEnv where
  prep : Tape
  attempts : Nat → AttemptEnv
  after : Tape

/-- A prepared request: its class, what an attempt does, and what becomes of the response. -/
structure Request (ρ : Type) where
  cls : RetryClass
  post : Client → Transfer → AllocM Posted
  finish : Client → HttpResponse → AllocM (AuddError × Client × Option ρ)

/-- What a completed call leaves, and the attempts that it made. -/
structure Completed (ρ : Type) where
  error : AuddError
  client : Client
  result : Option ρ
  attempts : List Attempt

def Request.run {ρ : Type} (r : Request ρ) (env : Nat → AttemptEnv)
    (attempt : Nat → Client → Posted) (client : Client) : RetryRun (Client × Nat) :=
  retryDo r.cls client.options (posting env attempt) (client, 0) .zero

def Request.submit {ρ : Type} (r : Request ρ) (env : CallEnv) (client : Client) : Completed ρ :=
  let run := r.run env.attempts (posts env.attempts r.post) client
  if run.rc ≠ 0 then ⟨.connection, run.world.1, none, run.attempts⟩
  else
    let (e, client, result) := ((r.finish run.world.1 run.resp).run env.after).1
    ⟨e, client, result, run.attempts⟩

inductive Prepared (ρ : Type)
  | refused (e : AuddError) (client : Client)
  | request (client : Client) (r : Request ρ)

def complete {ρ : Type} (prepare : Client → AllocM (Prepared ρ)) (env : CallEnv)
    (client : Client) : Completed ρ :=
  match ((prepare client).run env.prep).1 with
  | .refused e client => ⟨e, client, none, []⟩
  | .request client r => r.submit env client

/-- The return value, status, and `body_was_uploaded` of an attempt that posts. -/
def Transfer.report : Transfer → Int × Int × Int
  | .noHandle => (-1, 0, 1)
  | .performed p =>
    if p.code = .ok then (0, p.status, 1)
    else (-1, 0, if performFailedBeforeUpload p then 0 else 1)

def Transfer.body : Transfer → Option CString
  | .noHandle => none
  | .performed p => if p.code = .ok then p.body else none

def Attempt.report (a : Attempt) : Int × Int × Int := (a.rc, a.resp.status, a.bodyUploaded)

def Transfer.retried (cls : RetryClass) (t : Transfer) : Bool :=
  shouldRetry cls t.report.1 t.report.2.1 t.report.2.2

theorem retryable_iff_retried (cls : RetryClass) {a : Attempt} {t : Transfer}
    (h : a.report = t.report) : Retryable cls a ↔ t.retried cls = true := by
  rw [← shouldRetry_iff, Transfer.retried, ← h]
  rfl

/-! ### Forms -/

def extrasPairs (extraParameters : Option (List CString)) : List (CString × CString) :=
  pairs (extraParameters.getD [])

def textField (key : CString) (s : Option CString) : List (CString × CString) :=
  match s with
  | none | some [] => []
  | some text => [(key, text)]

/-! ### Lists of results -/

def objectsOf {α : Type} (read : CJson → AllocM α) : List CJson → AllocM (List α)
  | [] => pure []
  | it :: rest =>
    if it.isObject then do
      let item ← read it
      pure (item :: (← objectsOf read rest))
    else objectsOf read rest

/-- The list of a result: empty for anything but an array.  The list and its items are allocated
apart, and no items for an empty array. -/
def listOf {α : Type} (read : CJson → AllocM α) (result : Option CJson) :
    AllocM (AuddError × Option (List α)) := do
  match ← AllocM.copy () with
  | none => pure (.outOfMemory, none)
  | some _ =>
    match result with
    | some (.array (it :: rest)) =>
      match ← AllocM.copy () with
      | none => pure (.outOfMemory, none)
      | some _ => pure (.ok, some (← objectsOf read (it :: rest)))
    | _ => pure (.ok, some [])

section

variable (parse : CString → Option CJson)

/-- The attempt of the calls that print their URL first; they send fields and no file. -/
def printedAttempt (url : CString) (fields : Option (List CString)) (client : Client)
    (transfer : Transfer) : AllocM Posted := do
  match ← AllocM.copy url with
  | none => pure ⟨⟨-1, .zero, 1⟩, client, none⟩
  | some url =>
    httpPost parse client url ⟨fields, none⟩ client.options.standardTimeoutSeconds transfer

theorem printedAttempt_run (url : CString) (fields : Option (List CString)) (c : Client)
    (t : Transfer) (tape : Tape) : (printedAttempt parse url fields c t).run tape =
      if tape 0 then (httpPost parse c url ⟨fields, none⟩ c.options.standardTimeoutSeconds t).run
        fun n => tape (n + 1)
      else (⟨⟨-1, .zero, 1⟩, c, none⟩, fun n => tape (n + 1)) := by
  rw [printedAttempt, AllocM.run_bind, AllocM.run_copy]
  cases tape 0 <;> rfl

theorem connectionError_every {P : Client → Prop} {c : Client} (p : Perform)
    (h : ∀ message, P { c with lastErrorMessage := message, lastErrorCode := 0 }) :
    (connectionError c p).Every P := by
  simp [connectionError, h]

/-- A response holds the body of its transfer, and for its JSON what that body parses to. -/
def HttpResponse.Brought (resp : HttpResponse) (t : Transfer) : Prop :=
  resp.body = t.body ∧ ∀ json, resp.json = some json → t.body.bind parse = some json

theorem zero_brought {t : Transfer} (h : t.body = none) : HttpResponse.zero.Brought parse t :=
  ⟨h.symm, fun json hjson => by cases hjson⟩

theorem tryParseJson_every (body : Option CString) :
    (tryParseJson parse body).Every fun out => ∀ json, out = some json →
      body.bind parse = some json := by
  unfold tryParseJson
  split
  · simp
  · simp
  · simp

theorem received_every {P : HttpResponse × Client → Prop} {c : Client} (p : Perform)
    (h : ∀ rid json, (∀ parsed, json = some parsed → p.body.bind parse = some parsed) →
      P (⟨p.status, p.body, p.requestId, json⟩, { c with lastRequestId := rid })) :
    (received parse c p).Every P := by
  rw [received, AllocM.every_bind]
  apply Client.setRequestId_every _
  intro rid
  exact (tryParseJson_every parse p.body).bind fun json hjson => h rid json hjson

/-- Whatever memory is refused, a posted attempt reports its transfer, and changes of the client
only its last error and request id: a failure records code 0, and a response no error. -/
theorem httpPost_spec (c : Client) (url : CString) (form : HttpForm) (timeout : Int)
    (t : Transfer) : (httpPost parse c url form timeout t).Every fun posted =>
      posted.attempt.report = t.report ∧ posted.attempt.resp.Brought parse t ∧
      (∃ message rid, posted.client = if t.report.1 = 0 then { c with lastRequestId := rid }
        else { c with lastErrorMessage := message, lastErrorCode := 0 }) := by
  cases t with
  | noHandle =>
    simp [httpPost, Attempt.report, Transfer.report, HttpResponse.zero, HttpResponse.Brought,
      Transfer.body]
  | performed p =>
    rw [httpPost]
    apply AllocM.every_bind_of_forall
    intro apiToken
    by_cases hok : p.code = .ok
    · simp only [hok, ne_eq, not_true_eq_false, if_false, AllocM.every_bind]
      apply received_every parse p
      intro rid json hjson
      simp only [AllocM.every_pure, Attempt.report, Transfer.report, HttpResponse.Brought,
        Transfer.body, hok, if_true]
      exact ⟨trivial, ⟨trivial, hjson⟩, none, rid, rfl⟩
    · simp only [hok, ne_eq, not_false_eq_true, if_true, AllocM.every_bind]
      apply connectionError_every p
      intro message
      simp [Attempt.report, Transfer.report, hok, HttpResponse.zero, HttpResponse.Brought,
        Transfer.body]

theorem copyApiToken_run (c : Client) (tape : Tape) :
    (c.copyApiToken.run tape).1 = if tape 0 then c.apiToken else none := by
  unfold Client.copyApiToken
  cases c.apiToken with
  | some token => rfl
  | none => simp

/-- An attempt that gets as far as its transfer hands over the client's token, or none where its
copy could not be allocated. -/
theorem httpPost_request (c : Client) (url : CString) (form : HttpForm) (timeout : Int)
    (t : Transfer) (tape : Tape) : ((httpPost parse c url form timeout t).run tape).1.request =
      match t with
      | .noHandle => none
      | .performed _ =>
        some ⟨url, timeout, mimeParts (if tape 0 then c.apiToken else none) form⟩ := by
  cases t with
  | noHandle => rfl
  | performed p =>
    rw [httpPost, AllocM.run_bind, copyApiToken_run]
    dsimp only
    split
    · rw [AllocM.run_bind]
      rfl
    · rw [AllocM.run_bind]
      rfl

/-! ### Runs of posting attempts -/

/-- Each attempt reports the transfer that it comes to, with its body, and leaves the client as
open as it was. -/
structure Faithful (comesTo : Nat → Transfer) (attempt : Nat → Client → Posted) : Prop where
  report : ∀ n c, (attempt n c).attempt.report = (comesTo n).report
  brought : ∀ n c, (attempt n c).attempt.resp.Brought parse (comesTo n)
  closed : ∀ n c, (attempt n c).client.closed = c.closed

theorem httpPost_faithful (env : Nat → AttemptEnv) (url : CString) (form : HttpForm)
    (timeout : Int) : Faithful parse (fun n => (env n).transfer)
      (posts env fun c t => httpPost parse c url form timeout t) := by
  have hspec := fun n c =>
    (httpPost_spec parse c url form timeout (env n).transfer).run (env n).tape
  refine ⟨fun n c => (hspec n c).1, fun n c => (hspec n c).2.1, fun n c => ?_⟩
  obtain ⟨-, -, message, rid, hclient⟩ := hspec n c
  show (((httpPost parse c url form timeout (env n).transfer).run (env n).tape).1).client.closed = _
  rw [hclient]
  split <;> rfl

variable {parse} {env : Nat → AttemptEnv} {attempt : Nat → Client → Posted} {c : Client}

/-- What attempt `n` of a run posts. -/
def postedAt (env : Nat → AttemptEnv) (attempt : Nat → Client → Posted) (c : Client) (n : Nat) :
    Posted :=
  attempt n ((posting env attempt).worldAt (c, 0) n).1

theorem posting_worldAt_snd (n : Nat) : ((posting env attempt).worldAt (c, 0) n).2 = n := by
  induction n with
  | zero => rfl
  | succ n ih => simp only [Runner.worldAt, posting] at ih ⊢; rw [ih]

theorem posting_worldAt_succ (n : Nat) :
    (posting env attempt).worldAt (c, 0) (n + 1) = ((postedAt env attempt c n).client, n + 1) := by
  have h : ((posting env attempt).worldAt (c, 0) n).2 = n := posting_worldAt_snd n
  rw [Runner.worldAt, postedAt]
  simp only [posting] at h ⊢
  rw [h]

theorem posting_outcome (n : Nat) :
    (posting env attempt).outcome (c, 0) (n + 1) = (postedAt env attempt c n).attempt := by
  have h : ((posting env attempt).worldAt (c, 0) n).2 = n := posting_worldAt_snd n
  rw [Runner.outcome, postedAt, Nat.add_sub_cancel]
  simp only [posting] at h ⊢
  rw [h]

theorem posting_worldAt_fst {I : Nat → Client → Prop} (h0 : I 0 c)
    (hstep : ∀ n c', I n c' → I (n + 1) (attempt n c').client) (n : Nat) :
    I n ((posting env attempt).worldAt (c, 0) n).1 := by
  induction n with
  | zero => exact h0
  | succ n ih =>
    rw [posting_worldAt_succ]
    exact hstep n _ ih

variable {comesTo : Nat → Transfer}

theorem posting_closed (hfaithful : Faithful parse comesTo attempt) (n : Nat) :
    (posting env attempt).closed ((posting env attempt).worldAt (c, 0) n) = c.closed :=
  posting_worldAt_fst (I := fun _ client => client.closed = c.closed) rfl
    (fun m c' hc => (hfaithful.closed m c').trans hc) n

theorem postedAt_report (hfaithful : Faithful parse comesTo attempt) (n : Nat) :
    (postedAt env attempt c n).attempt.report = (comesTo n).report :=
  hfaithful.report n _

theorem postedAt_brought (hfaithful : Faithful parse comesTo attempt) (n : Nat) :
    (postedAt env attempt c n).attempt.resp.Brought parse (comesTo n) :=
  hfaithful.brought n _

/-- A run that goes on to attempt `k` stops there: it is the first one that is the last allowed or
whose transfer is not retried. -/
def StopsFirst (cls : RetryClass) (limit : Int) (t : Nat → Transfer) (k : Nat) : Prop :=
  IsLeast {i : Nat | 1 ≤ i ∧ ((i : Int) = limit ∨ (t (i - 1)).retried cls = false)} k

/-- With an open client, the runner posts up to the attempt where it stops first, and returns what
that one does. -/
theorem posting_runs (env : Nat → AttemptEnv) (hfaithful : Faithful parse comesTo attempt)
    (cls : RetryClass) (options : Options) (resp : HttpResponse) (hopen : c.closed = false) :
    let run := retryDo cls options (posting env attempt) (c, 0) resp
    ∃ k, StopsFirst cls options.attemptLimit comesTo k ∧
      run.attempts = (List.range k).map (fun n => (postedAt env attempt c n).attempt) ∧
      run.rc = (comesTo (k - 1)).report.1 ∧
      run.resp = (postedAt env attempt c (k - 1)).attempt.resp ∧
      run.world = (posting env attempt).worldAt (c, 0) k := by
  intro run
  obtain ⟨k, hk, hrun⟩ := retryDo_runs cls options (posting env attempt) (c, 0) resp
    fun n => (posting_closed hfaithful n).trans hopen
  have houtcome : ∀ i, 1 ≤ i → (posting env attempt).outcome (c, 0) i =
      (postedAt env attempt c (i - 1)).attempt := by
    intro i hi
    rw [← posting_outcome, Nat.sub_add_cancel hi]
  have hset : ∀ i, 1 ≤ i → (¬Retryable cls ((posting env attempt).outcome (c, 0) i) ↔
      (comesTo (i - 1)).retried cls = false) := by
    intro i hi
    rw [houtcome i hi, retryable_iff_retried cls (postedAt_report hfaithful _), Bool.not_eq_true]
  have hstops : StopsFirst cls options.attemptLimit comesTo k := by
    rw [StopsFirst]
    convert hk using 3 with i
    exact and_congr_right fun hi => or_congr_right (hset i hi).symm
  have hlast := houtcome k hk.1.1
  refine ⟨k, hstops, ?_, ?_, ?_, congrArg RetryRun.world hrun⟩
  · show (retryDo _ _ _ _ _).attempts = _
    rw [hrun, attempts_scriptEvents, List.range'_eq_map_range, List.map_map]
    apply List.map_congr_left
    intro n _
    show (posting env attempt).outcome (c, 0) (1 + n) = _
    rw [Nat.add_comm, posting_outcome]
  · have hrc := congrArg RetryRun.rc hrun
    rw [hlast] at hrc
    exact hrc.trans (congrArg Prod.fst (postedAt_report hfaithful _))
  · have hresp := congrArg RetryRun.resp hrun
    rwa [hlast] at hresp

/-- Attempt `i` is followed by another one exactly where it is not the last allowed and its
transfer, like every one before it, is retried. -/
theorem StopsFirst.lt_iff {cls : RetryClass} {limit : Int} {t : Nat → Transfer} {k : Nat}
    (hk : StopsFirst cls limit t k) (hpos : 0 < limit) (i : Nat) :
    i < k ↔ (i : Int) < limit ∧ ∀ j, 1 ≤ j → j ≤ i → (t (j - 1)).retried cls = true := by
  obtain ⟨⟨hk1, hstop⟩, hleast⟩ := hk
  constructor
  · intro hik
    have hlimit : (k : Int) ≤ limit := by
      have := hleast (show limit.toNat ∈ _ from ⟨by omega, .inl (by omega)⟩)
      omega
    refine ⟨by omega, fun j hj hji => ?_⟩
    by_contra hnot
    have := hleast (show j ∈ _ from ⟨hj, .inr (by simpa using hnot)⟩)
    omega
  · rintro ⟨hlimit, hretried⟩
    by_contra hki
    rcases hstop with h | h
    · omega
    · rw [hretried k hk1 (by omega)] at h
      cases h

theorem StopsFirst.made_iff {cls : RetryClass} {limit : Int} {t : Nat → Transfer} {k : Nat}
    (hk : StopsFirst cls limit t k) (hpos : 0 < limit) (n : Nat) :
    n < k ↔ (n : Int) < limit ∧ ∀ j, j < n → (t j).retried cls = true := by
  rw [hk.lt_iff hpos]
  refine and_congr_right fun _ => ⟨fun h j hj => ?_, fun h j hj hjn => ?_⟩
  · exact h (j + 1) (by omega) (by omega)
  · exact h (j - 1) (by omega)

theorem posting_closed_run (env : Nat → AttemptEnv) (attempt : Nat → Client → Posted)
    (cls : RetryClass) (options : Options) (resp : HttpResponse)
    (hclosed : c.closed = true) : retryDo cls options (posting env attempt) (c, 0) resp =
      ⟨-1, resp, [], (posting env attempt).onClosed (c, 0)⟩ := by
  obtain ⟨n, hn⟩ : ∃ n, options.attemptLimit.toNat = n + 1 :=
    ⟨options.attemptLimit.toNat - 1, by have := attemptLimit_pos options; omega⟩
  have hguard : (posting env attempt).closed (c, 0) = true := hclosed
  simp [retryDo, hn, retryLoop, hguard]

end

end Audd
