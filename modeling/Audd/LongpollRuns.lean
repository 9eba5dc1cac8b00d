import Audd.Longpoll
import Audd.Request

/-! Runs of the longpoll loop.  `Passed` says what one pass can do, and the invariants over whole
runs come from it: how a run ends, what it reports and how long it sleeps, what it delivers and
from where it resumes, and what becomes of an error that the API reports. -/

namespace Audd

/-! ### Polls -/

/-- The completed transfer of a poll; a poll that fails before or in its transfer has none. -/
def Poll.answer (poll : Poll) : Option Perform :=
  if poll.tape 0 then
    match poll.fetch with
    | .transfer (.performed r) => if r.code = .ok then some r else none
    | _ => none
  else none

/-- No answer, or one that asks to try again later. -/
def Poll.transient (poll : Poll) : Bool :=
  match poll.answer with
  | some r => r.status = 408 ∨ r.status = 429 ∨ 500 ≤ r.status
  | none => true

def Poll.refused (poll : Poll) : Bool :=
  match poll.answer with
  | some r => 400 ≤ r.status ∧ r.status ≠ 408 ∧ r.status ≠ 429 ∧ r.status < 500
  | none => false

/-- The number of transient failures that a list of polls ends in. -/
def streak (polls : List Poll) : Nat := (polls.rtakeWhile Poll.transient).length

def Poll.action (poll : Poll) : LongpollAction :=
  match poll.answer with
  | some r => longpollClassifyHttp 0 r.status
  | none => .retry

theorem action_retry_iff (poll : Poll) : poll.action = .retry ↔ poll.transient = true := by
  unfold Poll.action Poll.transient
  cases poll.answer with
  | none => simp
  | some r =>
    simp only [longpollClassifyHttp, decide_eq_true_eq]
    split_ifs <;> simp <;> omega

theorem action_terminal_iff (poll : Poll) : poll.action = .terminal ↔ poll.refused = true := by
  unfold Poll.action Poll.refused
  cases poll.answer with
  | none => simp
  | some r =>
    simp only [longpollClassifyHttp, decide_eq_true_eq]
    split_ifs <;> simp <;> omega

theorem not_transient_of_action {poll : Poll} (h : poll.action ≠ .retry) :
    ¬poll.transient = true :=
  mt (action_retry_iff poll).mpr h

theorem not_refused_of_action {poll : Poll} (h : poll.action ≠ .terminal) :
    ¬poll.refused = true :=
  mt (action_terminal_iff poll).mpr h

theorem streak_concat (polls : List Poll) (poll : Poll) : streak (polls ++ [poll]) =
    if poll.transient then streak polls + 1 else 0 := by
  unfold streak
  split
  · rename_i h
    rw [List.rtakeWhile_concat_pos _ _ _ h, List.length_append, List.length_singleton]
  · rename_i h
    rw [List.rtakeWhile_concat_neg _ _ _ h, List.length_nil]

theorem httpGet_spec (parse : CString → Option CJson) (c : Client) (poll : Poll) :
    let out := ((httpGet parse c poll.fetch).run poll.tape).1
    longpollClassifyHttp out.1 out.2.1.status = poll.action ∧
    (out.2.2.closed = c.closed ∧ out.2.2.options = c.options) ∧
    ∀ r, poll.answer = some r → out.2.1.status = r.status ∧ out.2.1.body = r.body := by
  -- a request that fails has no answer, and is a failure of the poll whatever it recorded
  have hfailed : ∀ (x : AllocM (Int × HttpResponse × Client)) (tape : Tape), poll.answer = none →
      (x.Every fun out => out.1 = -1 ∧ out.2.2.closed = c.closed ∧ out.2.2.options = c.options) →
      longpollClassifyHttp (x.run tape).1.1 (x.run tape).1.2.1.status = poll.action ∧
      ((x.run tape).1.2.2.closed = c.closed ∧ (x.run tape).1.2.2.options = c.options) ∧
      ∀ r, poll.answer = some r → (x.run tape).1.2.1.status = r.status ∧
        (x.run tape).1.2.1.body = r.body := by
    intro x tape hnone hx
    obtain ⟨hrc, hkept⟩ := hx.run tape
    refine ⟨?_, hkept, by simp [hnone]⟩
    simp [hrc, longpollClassifyHttp, Poll.action, hnone]
  intro out
  have hout : out = ((httpGet parse c poll.fetch).run poll.tape).1 := rfl
  rw [hout]
  unfold httpGet
  rw [AllocM.run_bind, AllocM.run_copy]
  cases hurl : poll.tape 0 with
  | false => exact hfailed _ _ (by simp [Poll.answer, hurl]) (by simp)
  | true =>
    cases hfetch : poll.fetch with
    | noEscape => exact hfailed _ _ (by simp [Poll.answer, hfetch]) (by simp)
    | transfer t =>
      cases t with
      | noHandle => exact hfailed _ _ (by simp [Poll.answer, hfetch]) (by simp)
      | performed r =>
        by_cases hok : r.code = .ok
        · have hanswer : poll.answer = some r := by simp [Poll.answer, hurl, hfetch, hok]
          simp only [if_true, hok, ne_eq, not_true_eq_false, if_false, AllocM.run_bind]
          have hreceived := (received_every (P := fun out => out.1.status = r.status ∧
            out.1.body = r.body ∧ out.2.closed = c.closed ∧ out.2.options = c.options)
            parse r fun rid json _ => ⟨rfl, rfl, rfl, rfl⟩).run fun n => poll.tape (n + 1)
          refine ⟨?_, hreceived.2.2, ?_⟩
          · rw [Poll.action, hanswer]
            exact congrArg (longpollClassifyHttp 0) hreceived.1
          · rintro r' hr'
            obtain rfl := Option.some.inj (hanswer.symm.trans hr')
            exact ⟨hreceived.1, hreceived.2.1⟩
        · simp only [if_true, hok, ne_eq, not_false_eq_true]
          refine hfailed _ _ (by simp [Poll.answer, hfetch, hok]) ?_
          rw [AllocM.every_bind]
          exact connectionError_every r fun message => ⟨rfl, rfl, rfl⟩

/-! ### Passes -/

def LongpollEvent.isPoll : LongpollEvent → Bool
  | poll _ _ => true
  | _ => false

def LongpollEvent.isError : LongpollEvent → Bool
  | onError _ _ => true
  | _ => false

def LongpollEvent.isSleep : LongpollEvent → Bool
  | sleep _ => true
  | _ => false

def LongpollEvent.isDelivery : LongpollEvent → Bool
  | onMatch _ | onNotification _ => true
  | _ => false

theorem isDelivery_only {e : LongpollEvent} (h : e.isDelivery = true) :
    e.isPoll = false ∧ e.isError = false ∧ e.isSleep = false ∧ e ≠ .close := by
  cases e with
  | onMatch m => exact ⟨rfl, rfl, rfl, by simp⟩
  | onNotification n => exact ⟨rfl, rfl, rfl, by simp⟩
  | poll kv timeout => cases h
  | onError err message => cases h
  | sleep ms => cases h
  | close => cases h

def requestEvents (category : CString) (o : LongpollOptions) (s : LongpollState) (poll : Poll) :
    List LongpollEvent :=
  .poll (longpollQuery category o.timeout s.sinceTime)
    (longpollPollTimeout s.client.options.standardTimeoutSeconds o.timeout) ::
  closing poll.closeInRequest

/-- What one pass of the loop can do. -/
inductive Passed (category : CString) (o : LongpollOptions) (cb : LongpollCallbacks)
    (s : LongpollState) (poll : Poll) :
    List LongpollEvent → Pass LongpollState (AuddError × Client) → Prop
  | refused (client : Client) (message : CString) : poll.action = .terminal →
      Passed category o cb s poll (requestEvents category o s poll ++ emitError cb .server message)
        (.done (.server, client))
  | gaveUp (client : Client) (message : CString) : poll.action = .retry →
      s.consecutiveFailures + 1 > kMaxConsecutiveFailures →
      Passed category o cb s poll
        (requestEvents category o s poll ++ emitError cb .connection message)
        (.done (.connection, client))
  | closed (client : Client) (message : CString) : poll.action = .retry →
      ¬s.consecutiveFailures + 1 > kMaxConsecutiveFailures →
      (s.closed || poll.closeInRequest || poll.closeInCallback || s.client.closed) = true →
      Passed category o cb s poll
        (requestEvents category o s poll ++ emitError cb .connection message ++
          closing poll.closeInCallback) (.done (.ok, client))
  | backedOff (client : Client) (message : CString) : poll.action = .retry →
      ¬s.consecutiveFailures + 1 > kMaxConsecutiveFailures →
      (s.closed || poll.closeInRequest || poll.closeInCallback || s.client.closed) = false →
      client.closed = s.client.closed →
      Passed category o cb s poll
        (requestEvents category o s poll ++ emitError cb .connection message ++
          closing poll.closeInCallback ++ [.sleep s.backoffMs] ++ closing poll.closeAfter)
        (.next ⟨client, poll.closeAfter, s.sinceTime, s.consecutiveFailures + 1,
          if s.backoffMs < kBackoffMaxMs / 2 then s.backoffMs * 2 else kBackoffMaxMs⟩)
  | answered (client : Client) (delivered : List LongpollEvent) (sinceTime : Int) :
      poll.action = .continue_ → client.closed = s.client.closed →
      (∀ e ∈ delivered, e.isDelivery = true) →
      Passed category o cb s poll
        (requestEvents category o s poll ++ delivered ++ closing poll.closeInCallback ++
          closing poll.closeAfter)
        (.next ⟨client, s.closed || poll.closeInRequest || poll.closeInCallback || poll.closeAfter,
          sinceTime, 0, kBackoffStartMs⟩)

section

variable {p : Platform} {parse : CString → Option CJson} {category : CString}
  {o : LongpollOptions} {cb : LongpollCallbacks}

theorem dispatch_every (p : Platform) (parse : CString → Option CJson) (cb : LongpollCallbacks)
    (resp : HttpResponse) :
    (dispatch p parse cb resp).Every fun delivered => ∀ e ∈ delivered, e.isDelivery = true := by
  unfold dispatch
  split
  · simp
  · apply AllocM.every_bind_of_forall
    intro out
    split
    · simp
    · rw [AllocM.every_pure]
      intro e he
      rcases List.mem_append.mp he with he | he
      · split at he
        · obtain ⟨m, -, rfl⟩ := List.mem_map.mp he
          rfl
        · cases he
      · split at he
        · obtain ⟨n, -, rfl⟩ := List.mem_map.mp he
          rfl
        · cases he

theorem longpollPass_passed (p : Platform) (parse : CString → Option CJson) (category : CString)
    (o : LongpollOptions) (cb : LongpollCallbacks) (s : LongpollState) (poll : Poll) :
    Passed category o cb s poll (longpollPass p parse category o cb s poll).1
      (longpollPass p parse category o cb s poll).2 := by
  obtain ⟨haction, ⟨hclosed, -⟩, -⟩ := httpGet_spec parse s.client poll
  unfold longpollPass
  rcases hget : (httpGet parse s.client poll.fetch).run poll.tape with ⟨⟨rc, resp, client⟩, tape⟩
  rw [hget] at haction hclosed
  dsimp only at haction hclosed ⊢
  rw [haction]
  cases hact : poll.action with
  | terminal => exact .refused _ _ hact
  | retry =>
    dsimp only
    split
    · rename_i hmany
      exact .gaveUp _ _ hact hmany
    · rename_i hfew
      rw [hclosed]
      split
      · rename_i hclose
        exact .closed _ _ hact hfew hclose
      · rename_i hopen
        exact .backedOff _ _ hact hfew (Bool.eq_false_of_not_eq_true hopen) hclosed
  | continue_ =>
    exact .answered _ _ _ hact hclosed ((dispatch_every p parse cb resp).run tape)

theorem longpollLoop_passed {s : LongpollState} {poll : Poll} {es : List LongpollEvent}
    {out : Pass LongpollState (AuddError × Client)}
    (hbody : (longpollLoop p parse category o cb).body s poll = (es, out)) :
    Passed category o cb s poll es out := by
  have h := longpollPass_passed p parse category o cb s poll
  rwa [show longpollPass p parse category o cb s poll = (es, out) from hbody] at h

/-! ### Termination, reports, and backoff -/

/-- The loop's delay after `failures` failures in a row. -/
def backoffAfter (failures : Nat) : Int := min (500 * 2 ^ failures) 30000

theorem backoffAfter_succ (failures : Nat) :
    (if backoffAfter failures < kBackoffMaxMs / 2 then backoffAfter failures * 2
      else kBackoffMaxMs) = backoffAfter (failures + 1) := by
  unfold backoffAfter kBackoffMaxMs
  rw [pow_succ]
  generalize (2 : Int) ^ failures = y
  split <;> omega

theorem closing_filter (f : LongpollEvent → Bool) (hf : f .close = false) (close : Bool) :
    (closing close).filter f = [] := by
  cases close <;> simp [closing, hf]

theorem mem_closing {close : Bool} {e : LongpollEvent} (h : e ∈ closing close) :
    close = true ∧ e = .close := by
  cases close with
  | false => cases h
  | true => exact ⟨rfl, List.mem_singleton.mp h⟩

theorem mem_emitError {e : AuddError} {message : CString} {event : LongpollEvent}
    (h : event ∈ emitError cb e message) : event = .onError e message := by
  unfold emitError at h
  split at h
  · exact List.mem_singleton.mp h
  · cases h

theorem Passed.poll_first {s : LongpollState} {poll : Poll}
    {es : List LongpollEvent} {out : Pass LongpollState (AuddError × Client)}
    (h : Passed category o cb s poll es out) :
    ∃ rest, es = .poll (longpollQuery category o.timeout s.sinceTime)
      (longpollPollTimeout s.client.options.standardTimeoutSeconds o.timeout) :: rest ∧
      ∀ e ∈ rest, e.isPoll = false := by
  have hclosing : ∀ {close e}, e ∈ closing close → e.isPoll = false := by
    intro close e he
    rw [(mem_closing he).2]
    rfl
  have hreport : ∀ {err message e}, e ∈ emitError cb err message → e.isPoll = false := by
    intro err message e he
    rw [mem_emitError he]
    rfl
  cases h with
  | refused client message _ =>
    refine ⟨closing poll.closeInRequest ++ emitError cb .server message, rfl, fun e he => ?_⟩
    rcases List.mem_append.mp he with he | he
    · exact hclosing he
    · exact hreport he
  | gaveUp client message _ _ =>
    refine ⟨closing poll.closeInRequest ++ emitError cb .connection message, rfl, fun e he => ?_⟩
    rcases List.mem_append.mp he with he | he
    · exact hclosing he
    · exact hreport he
  | closed client message _ _ _ =>
    refine ⟨closing poll.closeInRequest ++ emitError cb .connection message ++
      closing poll.closeInCallback, rfl, fun e he => ?_⟩
    simp only [List.mem_append] at he
    rcases he with (he | he) | he
    · exact hclosing he
    · exact hreport he
    · exact hclosing he
  | backedOff client message _ _ _ _ =>
    refine ⟨closing poll.closeInRequest ++ emitError cb .connection message ++
      closing poll.closeInCallback ++ [.sleep s.backoffMs] ++ closing poll.closeAfter, rfl,
      fun e he => ?_⟩
    simp only [List.mem_append, List.mem_singleton] at he
    rcases he with (((he | he) | he) | rfl) | he
    · exact hclosing he
    · exact hreport he
    · exact hclosing he
    · rfl
    · exact hclosing he
  | answered client delivered sinceTime _ _ hdelivered =>
    refine ⟨closing poll.closeInRequest ++ delivered ++ closing poll.closeInCallback ++
      closing poll.closeAfter, rfl, fun e he => ?_⟩
    simp only [List.mem_append] at he
    rcases he with ((he | he) | he) | he
    · exact hclosing he
    · exact (isDelivery_only (hdelivered e he)).1
    · exact hclosing he
    · exact hclosing he

/-- With `on_error` set, a pass reports once when its poll fails or is refused, and never
otherwise. -/
theorem Passed.reports {s : LongpollState} {poll : Poll}
    {es : List LongpollEvent} {out : Pass LongpollState (AuddError × Client)}
    (h : Passed category o cb s poll es out) (hcb : cb.onError = true) :
    (es.filter LongpollEvent.isError).length =
      if poll.transient ∨ poll.refused then 1 else 0 := by
  have hreport : ∀ err message, (emitError cb err message).filter LongpollEvent.isError =
      [.onError err message] := by
    intro err message
    rw [emitError, if_pos hcb]
    rfl
  have hrequest : (requestEvents category o s poll).filter LongpollEvent.isError = [] := by
    rw [requestEvents, List.filter_cons_of_neg (by exact Bool.false_ne_true)]
    exact closing_filter _ rfl _
  have hclosing := closing_filter LongpollEvent.isError rfl
  cases h with
  | refused client message hact =>
    rw [action_terminal_iff] at hact
    simp only [List.filter_append, hreport, hrequest]
    simp [hact]
  | gaveUp client message hact _ =>
    rw [action_retry_iff] at hact
    simp only [List.filter_append, hreport, hrequest]
    simp [hact]
  | closed client message hact _ _ =>
    rw [action_retry_iff] at hact
    simp only [List.filter_append, hreport, hrequest, hclosing]
    simp [hact]
  | backedOff client message hact _ _ _ =>
    rw [action_retry_iff] at hact
    have hsleep : [LongpollEvent.sleep s.backoffMs].filter LongpollEvent.isError = [] := rfl
    simp only [List.filter_append, hreport, hrequest, hclosing, hsleep]
    simp [hact]
  | answered client delivered sinceTime hact _ hdelivered =>
    have htransient : ¬poll.transient = true := not_transient_of_action (by rw [hact]; decide)
    have hrefused : ¬poll.refused = true := not_refused_of_action (by rw [hact]; decide)
    have hnone : delivered.filter LongpollEvent.isError = [] := by
      rw [List.filter_eq_nil_iff]
      intro e he
      simp [(isDelivery_only (hdelivered e he)).2.1]
    simp only [List.filter_append, hrequest, hclosing, hnone]
    simp [htransient, hrefused]

@[simp] theorem close_mem_closing (close : Bool) : .close ∈ closing close ↔ close = true := by
  cases close <;> simp [closing]

@[simp] theorem close_mem_requestEvents (s : LongpollState) (poll : Poll) :
    .close ∈ requestEvents category o s poll ↔ poll.closeInRequest = true := by
  simp [requestEvents]

theorem close_not_mem_emitError (e : AuddError) (message : CString) :
    .close ∉ emitError cb e message := by
  intro h
  cases mem_emitError h

/-- A pass that goes on leaves the handle closed exactly where it was, or was closed in it. -/
theorem Passed.closed_iff {s s' : LongpollState} {poll : Poll} {es : List LongpollEvent}
    (h : Passed category o cb s poll es (.next s')) :
    s'.closed = true ↔ s.closed = true ∨ .close ∈ es := by
  cases h with
  | backedOff client message _ _ hopen _ =>
    simp only [Bool.or_eq_false_iff] at hopen
    simp [hopen, close_not_mem_emitError]
  | answered client delivered sinceTime _ _ hdelivered =>
    have hnone : .close ∉ delivered := fun he => (isDelivery_only (hdelivered _ he)).2.2.2 rfl
    simp [hnone, or_assoc]

/-- What the loop keeps from one check of its guard to the next. -/
structure LoopInvariant (s₀ : LongpollState) (h : List (Poll × List LongpollEvent))
    (s : LongpollState) : Prop where
  failures : s.consecutiveFailures = streak (h.map Prod.fst)
  backoff : s.backoffMs = backoffAfter (streak (h.map Prod.fst))
  client : s.client.closed = s₀.client.closed
  closed : s.closed = true ↔ s₀.closed = true ∨ .close ∈ h.flatMap Prod.snd
  usable : ∀ poll ∈ h.map Prod.fst, poll.refused = false
  short : ∀ before, before <+: h.map Prod.fst → streak before ≤ 8
  order : (h.flatMap Prod.snd).Pairwise fun a b => a = .close → b.isPoll = false

theorem guard_none_iff (s : LongpollState) :
    (longpollLoop p parse category o cb).guard s = none ↔
      s.closed = false ∧ s.client.closed = false := by
  simp [longpollLoop]

theorem order_append {s₀ s : LongpollState} {h : List (Poll × List LongpollEvent)} {poll : Poll}
    {es : List LongpollEvent} {out : Pass LongpollState (AuddError × Client)}
    (hinv : LoopInvariant s₀ h s) (hopen : s.closed = false)
    (hpass : Passed category o cb s poll es out) :
    ((h ++ [(poll, es)]).flatMap Prod.snd).Pairwise
      fun a b => a = .close → b.isPoll = false := by
  obtain ⟨rest, hes, hrest⟩ := hpass.poll_first
  have hnone : .close ∉ h.flatMap Prod.snd := by
    intro hmem
    rw [hinv.closed.mpr (.inr hmem)] at hopen
    cases hopen
  rw [List.flatMap_append, List.flatMap_singleton, List.pairwise_append]
  refine ⟨hinv.order, ?_, ?_⟩
  · rw [hes, List.pairwise_cons]
    refine ⟨fun b hb _ => hrest b hb, ?_⟩
    exact List.Pairwise.imp_of_mem (R := fun _ _ => True) (fun _ hb _ _ => hrest _ hb)
      (List.pairwise_of_forall fun _ _ => trivial)
  · rintro a ha b - rfl
    exact absurd ha hnone

theorem LoopInvariant.start (s₀ : LongpollState) (hfailures : s₀.consecutiveFailures = 0)
    (hbackoff : s₀.backoffMs = kBackoffStartMs) : LoopInvariant s₀ [] s₀ where
  failures := hfailures
  backoff := hbackoff
  client := rfl
  closed := by simp
  usable := by simp
  short := by
    intro before hbefore
    rw [List.map_nil, List.prefix_nil] at hbefore
    rw [hbefore]
    exact Nat.zero_le 8
  order := List.Pairwise.nil

theorem LoopInvariant.step {s₀ s₁ s₂ : LongpollState} {h : List (Poll × List LongpollEvent)}
    {poll : Poll} {es : List LongpollEvent} (hinv : LoopInvariant s₀ h s₁)
    (hguard : (longpollLoop p parse category o cb).guard s₁ = none)
    (hbody : (longpollLoop p parse category o cb).body s₁ poll = (es, .next s₂)) :
    LoopInvariant s₀ (h ++ [(poll, es)]) s₂ := by
  rw [guard_none_iff] at hguard
  have hpass := longpollLoop_passed hbody
  have horder := order_append hinv hguard.1 hpass
  have hclosed := hpass.closed_iff
  -- the counters follow the streak, whether it grows or is reset
  have hstep : (poll.transient = true ∧ s₂.consecutiveFailures = s₁.consecutiveFailures + 1 ∧
        s₁.consecutiveFailures + 1 ≤ 8 ∧ s₂.backoffMs = backoffAfter (streak (h.map Prod.fst) + 1) ∨
      poll.transient = false ∧ s₂.consecutiveFailures = 0 ∧ s₂.backoffMs = backoffAfter 0) ∧
      poll.refused = false ∧ s₂.client.closed = s₁.client.closed := by
    cases hpass with
    | backedOff client message hact hfew _ hclient =>
      have hnot : ¬poll.refused = true := not_refused_of_action (by rw [hact]; decide)
      refine ⟨.inl ⟨(action_retry_iff poll).mp hact, rfl, ?_, ?_⟩, by simpa using hnot, hclient⟩
      · unfold kMaxConsecutiveFailures at hfew
        omega
      · rw [← backoffAfter_succ, ← hinv.backoff]
    | answered client delivered sinceTime hact hclient _ =>
      have hnot : ¬poll.refused = true := not_refused_of_action (by rw [hact]; decide)
      have hnot' : ¬poll.transient = true := not_transient_of_action (by rw [hact]; decide)
      exact ⟨.inr ⟨by simpa using hnot', rfl, rfl⟩, by simpa using hnot, hclient⟩
  obtain ⟨hcount, hrefused, hclient⟩ := hstep
  have hstreak := streak_concat (h.map Prod.fst) poll
  have hfailures := hinv.failures
  refine ⟨?_, ?_, hclient.trans hinv.client, ?_, ?_, ?_, horder⟩
  · rw [List.map_append, List.map_singleton, hstreak]
    rcases hcount with ⟨ht, hf, -⟩ | ⟨ht, hf, -⟩
    · rw [if_pos ht, hf, hfailures]
      rfl
    · rw [hf]
      simp [ht]
  · rw [List.map_append, List.map_singleton, hstreak]
    rcases hcount with ⟨ht, -, -, hb⟩ | ⟨ht, -, hb⟩
    · rw [if_pos ht, hb]
    · rw [hb]
      simp [ht]
  · rw [hclosed, hinv.closed, List.flatMap_append, List.flatMap_singleton, List.mem_append,
      or_assoc]
  · intro poll' hpoll'
    rw [List.map_append, List.mem_append, List.map_singleton, List.mem_singleton] at hpoll'
    rcases hpoll' with hpoll' | rfl
    · exact hinv.usable poll' hpoll'
    · exact hrefused
  · intro before hbefore
    rw [List.map_append, List.map_singleton, List.prefix_concat_iff] at hbefore
    rcases hbefore with rfl | hbefore
    · rw [hstreak]
      rcases hcount with ⟨ht, -, hfew, -⟩ | ⟨ht, -, -⟩
      · rw [if_pos ht]
        omega
      · simp [ht]
    · exact hinv.short before hbefore

/-- How a run that returned came to its end. -/
structure RunEnd (s₀ : LongpollState) (h : List (Poll × List LongpollEvent)) (e : AuddError) :
    Prop where
  refused : ((h.map Prod.fst).filter Poll.refused).length = if e = .server then 1 else 0
  connection : e = .connection ↔ streak (h.map Prod.fst) = 9
  otherwise : e = .server ∨ e = .connection ∨ e = .ok ∧
    (s₀.client.closed = true ∨ s₀.closed = true ∨ .close ∈ h.flatMap Prod.snd)
  short : ∀ before, before <+: h.map Prod.fst → before ≠ h.map Prod.fst → streak before ≤ 8
  order : (h.flatMap Prod.snd).Pairwise fun a b => a = .close → b.isPoll = false

theorem LoopInvariant.filter_refused {s₀ s : LongpollState}
    {h : List (Poll × List LongpollEvent)} (hinv : LoopInvariant s₀ h s) :
    (h.map Prod.fst).filter Poll.refused = [] := by
  rw [List.filter_eq_nil_iff]
  intro poll hpoll
  simp [hinv.usable poll hpoll]

theorem LoopInvariant.stop {s₀ s : LongpollState} {h : List (Poll × List LongpollEvent)}
    {r : AuddError × Client} (hinv : LoopInvariant s₀ h s)
    (hguard : (longpollLoop p parse category o cb).guard s = some r) : RunEnd s₀ h r.1 := by
  have hstopped : (s.closed || s.client.closed) = true ∧ r = (.ok, s.client) := by
    simp only [longpollLoop] at hguard
    split at hguard
    · exact ⟨‹_›, (Option.some.inj hguard).symm⟩
    · cases hguard
  obtain ⟨hclosed, rfl⟩ := hstopped
  have hshort := hinv.short _ List.prefix_rfl
  refine ⟨?_, iff_of_false (by simp) (by omega), .inr (.inr ⟨rfl, ?_⟩),
    fun before hbefore _ => hinv.short before hbefore, hinv.order⟩
  · rw [hinv.filter_refused]
    rfl
  · rcases Bool.or_eq_true_iff.mp hclosed with hs | hc
    · exact .inr (hinv.closed.mp hs)
    · exact .inl (hinv.client ▸ hc)

theorem LoopInvariant.done {s₀ s : LongpollState} {h : List (Poll × List LongpollEvent)}
    {poll : Poll} {es : List LongpollEvent} {r : AuddError × Client}
    (hinv : LoopInvariant s₀ h s)
    (hguard : (longpollLoop p parse category o cb).guard s = none)
    (hbody : (longpollLoop p parse category o cb).body s poll = (es, .done r)) :
    RunEnd s₀ (h ++ [(poll, es)]) r.1 := by
  rw [guard_none_iff] at hguard
  have hpass := longpollLoop_passed hbody
  have horder := order_append hinv hguard.1 hpass
  have hshort := hinv.short _ List.prefix_rfl
  have hstreak := streak_concat (h.map Prod.fst) poll
  have hbefore : ∀ before, before <+: (h ++ [(poll, es)]).map Prod.fst →
      before ≠ (h ++ [(poll, es)]).map Prod.fst → streak before ≤ 8 := by
    intro before hpre hne
    rw [List.map_append, List.map_singleton, List.prefix_concat_iff] at hpre
    rcases hpre with rfl | hpre
    · simp at hne
    · exact hinv.short before hpre
  have hrefused : (((h ++ [(poll, es)]).map Prod.fst).filter Poll.refused).length =
      if poll.refused then 1 else 0 := by
    rw [List.map_append, List.filter_append, hinv.filter_refused]
    cases hr : poll.refused <;> simp [hr]
  have hpolls : streak ((h ++ [(poll, es)]).map Prod.fst) =
      if poll.transient then streak (h.map Prod.fst) + 1 else 0 := by
    rw [List.map_append, List.map_singleton, hstreak]
  have hfailures := hinv.failures
  cases hpass with
  | refused client message hact =>
    have hnot : ¬poll.transient = true := not_transient_of_action (by rw [hact]; decide)
    rw [if_neg hnot] at hpolls
    rw [if_pos ((action_terminal_iff poll).mp hact)] at hrefused
    exact ⟨hrefused, iff_of_false (by simp) (by omega), .inl rfl, hbefore, horder⟩
  | gaveUp client message hact hmany =>
    have hnot : ¬poll.refused = true := not_refused_of_action (by rw [hact]; decide)
    rw [if_pos ((action_retry_iff poll).mp hact)] at hpolls
    rw [if_neg hnot] at hrefused
    unfold kMaxConsecutiveFailures at hmany
    exact ⟨hrefused, iff_of_true rfl (by omega), .inr (.inl rfl), hbefore, horder⟩
  | closed client message hact hfew hclose =>
    have hnot : ¬poll.refused = true := not_refused_of_action (by rw [hact]; decide)
    rw [if_pos ((action_retry_iff poll).mp hact)] at hpolls
    rw [if_neg hnot] at hrefused
    unfold kMaxConsecutiveFailures at hfew
    refine ⟨hrefused, iff_of_false (by simp) (by omega), .inr (.inr ⟨rfl, .inr (.inr ?_)⟩),
      hbefore, horder⟩
    rw [hguard.1, hguard.2, Bool.or_false, Bool.false_or, Bool.or_eq_true] at hclose
    rw [List.flatMap_append, List.flatMap_singleton, List.mem_append]
    refine .inr ?_
    rcases hclose with hclose | hclose
    · simp [hclose]
    · simp [hclose]

theorem reports_of_passes {passes : List (Poll × List LongpollEvent)} (hcb : cb.onError = true)
    (h : ∀ pass ∈ passes, ∃ s out, Passed category o cb s pass.1 pass.2 out) :
    ((passes.flatMap Prod.snd).filter LongpollEvent.isError).length =
      ((passes.map Prod.fst).filter fun poll => poll.transient ∨ poll.refused).length := by
  induction passes with
  | nil => rfl
  | cons pass passes ih =>
    obtain ⟨s, out, hpass⟩ := h pass List.mem_cons_self
    have hone := hpass.reports hcb
    have hrest := ih fun pass' hmem => h pass' (List.mem_cons_of_mem _ hmem)
    rw [List.flatMap_cons, List.filter_append, List.length_append, hone, hrest, List.map_cons,
      List.filter_cons]
    split
    · rename_i hfailed
      rw [if_pos (by simpa using hfailed), List.length_cons, Nat.add_comm]
    · rename_i hfailed
      rw [if_neg (by simpa using hfailed), Nat.zero_add]

theorem run_passes (p : Platform) (parse : CString → Option CJson) (category : CString)
    (o : LongpollOptions) (cb : LongpollCallbacks) {s₀ : LongpollState}
    (hstart : LoopInvariant s₀ [] s₀) (script : List Poll)
    (before : List (Poll × List LongpollEvent)) (poll : Poll) (es : List LongpollEvent)
    (after : List (Poll × List LongpollEvent))
    (h : ((longpollLoop p parse category o cb).run s₀ script).passes =
      before ++ (poll, es) :: after) :
    ∃ s out, LoopInvariant s₀ before s ∧ s.closed = false ∧ s.client.closed = false ∧
      (longpollLoop p parse category o cb).body s poll = (es, out) ∧
      Passed category o cb s poll es out := by
  obtain ⟨s, hreach, hguard, hes, -⟩ :=
    GuardedLoop.run_split _ s₀ script before poll es after h
  have hbody : (longpollLoop p parse category o cb).body s poll =
      (es, ((longpollLoop p parse category o cb).body s poll).2) := by
    rw [← hes]
  have hopen := (guard_none_iff s).mp hguard
  exact ⟨s, _, hreach.invariant hstart fun _ _ _ _ _ hinv => hinv.step, hopen.1, hopen.2, hbody,
    longpollLoop_passed hbody⟩

/-- An open pass whose failure is not the last one tolerated sleeps once, for the state's delay;
no other pass sleeps. -/
theorem Passed.sleeps {s : LongpollState} {poll : Poll} {es : List LongpollEvent}
    {out : Pass LongpollState (AuddError × Client)} (h : Passed category o cb s poll es out) :
    es.filter LongpollEvent.isSleep =
      if poll.transient ∧ s.consecutiveFailures + 1 ≤ 8 ∧
        (s.closed || poll.closeInRequest || poll.closeInCallback || s.client.closed) = false
      then [.sleep s.backoffMs] else [] := by
  have hreport : ∀ err message, (emitError cb err message).filter LongpollEvent.isSleep = [] := by
    intro err message
    rw [List.filter_eq_nil_iff]
    intro e he
    rw [mem_emitError he]
    exact Bool.false_ne_true
  have hrequest : (requestEvents category o s poll).filter LongpollEvent.isSleep = [] := by
    rw [requestEvents, List.filter_cons_of_neg (by exact Bool.false_ne_true)]
    exact closing_filter _ rfl _
  have hclosing := closing_filter LongpollEvent.isSleep rfl
  cases h with
  | refused client message hact =>
    have hnot : ¬poll.transient = true := not_transient_of_action (by rw [hact]; decide)
    simp only [List.filter_append, hreport, hrequest]
    simp [hnot]
  | gaveUp client message hact hmany =>
    have hnot : ¬s.consecutiveFailures + 1 ≤ 8 := by
      unfold kMaxConsecutiveFailures at hmany
      omega
    simp only [List.filter_append, hreport, hrequest]
    simp [hnot]
  | closed client message hact hfew hclose =>
    simp only [List.filter_append, hreport, hrequest, hclosing, hclose]
    simp
  | backedOff client message hact hfew hopen _ =>
    rw [action_retry_iff] at hact
    have hsleep : [LongpollEvent.sleep s.backoffMs].filter LongpollEvent.isSleep =
        [.sleep s.backoffMs] := rfl
    unfold kMaxConsecutiveFailures at hfew
    simp only [List.filter_append, hreport, hrequest, hclosing, hsleep, hopen]
    rw [if_pos ⟨hact, by omega, trivial⟩]
    rfl
  | answered client delivered sinceTime hact _ hdelivered =>
    have hnot : ¬poll.transient = true := not_transient_of_action (by rw [hact]; decide)
    have hnone : delivered.filter LongpollEvent.isSleep = [] := by
      rw [List.filter_eq_nil_iff]
      intro e he
      simp [(isDelivery_only (hdelivered e he)).2.2.1]
    simp only [List.filter_append, hrequest, hclosing, hnone]
    simp [hnot]

/-- The delay doubles with the streak that the failure makes longer. -/
theorem Passed.backsOff {s₀ s : LongpollState} {before : List (Poll × List LongpollEvent)}
    {poll : Poll} {es : List LongpollEvent} {out : Pass LongpollState (AuddError × Client)}
    (h : Passed category o cb s poll es out) (hinv : LoopInvariant s₀ before s)
    (hclosed : s.closed = false) (hclient : s.client.closed = false) (ht : poll.transient = true)
    (hfew : streak (before.map Prod.fst ++ [poll]) ≤ 8) (hreq : poll.closeInRequest = false)
    (hcallback : poll.closeInCallback = false) :
    es.filter LongpollEvent.isSleep =
      [.sleep (min (500 * 2 ^ (streak (before.map Prod.fst ++ [poll]) - 1)) 30000)] := by
  have hfailures := hinv.failures
  rw [streak_concat, if_pos ht] at hfew
  rw [h.sleeps, if_pos ⟨ht, by omega, by simp [hclosed, hclient, hreq, hcallback]⟩,
    streak_concat, if_pos ht, Nat.add_sub_cancel, hinv.backoff]
  rfl

/-- Only the transient failures since the last other poll count. -/
theorem streak_since {poll : Poll} (hpoll : poll.transient = false) (before since : List Poll)
    (hsince : ∀ p ∈ since, p.transient = true) :
    streak (before ++ poll :: since) = since.length := by
  induction since using List.reverseRecOn with
  | nil => rw [streak_concat, hpoll, if_neg Bool.false_ne_true, List.length_nil]
  | append_singleton since last ih =>
    rw [← List.cons_append, ← List.append_assoc, streak_concat,
      if_pos (hsince last (by simp)), ih fun p hp => hsince p (by simp [hp]), List.length_append,
      List.length_singleton]

/-- What a run of the loop over `polls` does that starts with an open or closed handle, whatever the
polls meet and whenever the handle is closed. -/
structure Terminates (client : Client) (closedAtStart : Bool) (polls : List Poll)
    (run : GuardedLoop.Run LongpollState Poll LongpollEvent (AuddError × Client)) : Prop where
  server : (∃ c, run.outcome = .done (.server, c)) ↔ ∃ poll ∈ run.taken, poll.refused = true
  connection : (∃ c, run.outcome = .done (.connection, c)) ↔ streak run.taken = 9
  ninth : ∀ before, before <+: run.taken → before ≠ run.taken → streak before ≤ 8
  otherwise : ∀ e c, run.outcome = .done (e, c) → e = .server ∨ e = .connection ∨ e = .ok ∧
    (client.closed = false → closedAtStart = true ∨ .close ∈ run.events)
  waits : (∀ r, run.outcome ≠ .done r) → run.taken = polls
  reports : (run.events.filter LongpollEvent.isError).length =
    (run.taken.filter Poll.transient).length + (run.taken.filter Poll.refused).length
  reportsRefused : (run.taken.filter Poll.refused).length ≤ 1
  backoff : ∀ before poll es after, run.passes = before ++ (poll, es) :: after →
    poll.transient = true → streak (before.map Prod.fst ++ [poll]) ≤ 8 →
    poll.closeInRequest = false → poll.closeInCallback = false →
    es.filter LongpollEvent.isSleep =
      [.sleep (min (500 * 2 ^ (streak (before.map Prod.fst ++ [poll]) - 1)) 30000)]
  reset : ∀ before poll es since last es' after,
    run.passes = before ++ (poll, es) :: since ++ (last, es') :: after →
    poll.transient = false → (∀ pass ∈ since, pass.1.transient = true) → last.transient = true →
    since.length < 8 → last.closeInRequest = false → last.closeInCallback = false →
    es'.filter LongpollEvent.isSleep = [.sleep (min (500 * 2 ^ since.length) 30000)]
  closed : run.events.Pairwise fun a b => a = .close → b.isPoll = false
  closedFirst : closedAtStart = true → run.passes = []

theorem exists_done_iff (r : AuddError × Client) (e : AuddError) :
    (∃ c, (Pass.done r : Pass LongpollState (AuddError × Client)) = .done (e, c)) ↔ r.1 = e := by
  constructor
  · rintro ⟨c, h⟩
    rw [Pass.done.inj h]
  · rintro rfl
    exact ⟨r.2, rfl⟩

theorem filter_failed_length (polls : List Poll) :
    (polls.filter fun poll => poll.transient ∨ poll.refused).length =
      (polls.filter Poll.transient).length + (polls.filter Poll.refused).length := by
  induction polls with
  | nil => rfl
  | cons poll polls ih =>
    have hboth : ¬(poll.transient = true ∧ poll.refused = true) := by
      rintro ⟨ht, hr⟩
      rw [← action_retry_iff] at ht
      rw [← action_terminal_iff, ht] at hr
      cases hr
    cases ht : poll.transient <;> cases hr : poll.refused <;> simp [ht, hr] at hboth ih ⊢ <;> omega

theorem longpollLoop_terminates (p : Platform) (parse : CString → Option CJson)
    (category : CString) (o : LongpollOptions) {cb : LongpollCallbacks} (hcb : cb.onError = true)
    (client : Client) (closedAtStart : Bool) (polls : List Poll) :
    Terminates client closedAtStart polls ((longpollLoop p parse category o cb).run
      (longpollStart client o closedAtStart) polls) := by
  have hstart : LoopInvariant (longpollStart client o closedAtStart) []
      (longpollStart client o closedAtStart) := .start _ rfl rfl
  have hends := GuardedLoop.run_invariant (L := longpollLoop p parse category o cb)
    (I := LoopInvariant (longpollStart client o closedAtStart))
    (F := fun h r => RunEnd (longpollStart client o closedAtStart) h r.1) polls hstart
    (fun _ _ _ _ _ hinv => hinv.step) (fun _ _ _ hinv => hinv.stop) fun _ _ _ _ _ hinv => hinv.done
  have hsplit := run_passes p parse category o cb hstart polls
  have hwaits : (∀ r, ((longpollLoop p parse category o cb).run
      (longpollStart client o closedAtStart) polls).outcome ≠ .done r) →
      ((longpollLoop p parse category o cb).run
        (longpollStart client o closedAtStart) polls).taken = polls := by
    intro hout
    rcases hends with ⟨s, -, htaken, -⟩ | ⟨r, -, hdone⟩
    · exact htaken
    · exact absurd hdone (hout r)
  generalize (longpollLoop p parse category o cb).run
    (longpollStart client o closedAtStart) polls = run at hends hsplit hwaits
  have hmem : ∀ pass ∈ run.passes, ∃ s out, Passed category o cb s pass.1 pass.2 out := by
    intro pass hpass
    obtain ⟨before, after, hpasses⟩ := List.append_of_mem hpass
    obtain ⟨s, out, -, -, -, -, hpassed⟩ := hsplit before pass.1 pass.2 after hpasses
    exact ⟨s, out, hpassed⟩
  -- a run waits, with nothing refused, or is over
  have hcases : (run.taken.filter Poll.refused = [] ∧ (∀ r, run.outcome ≠ .done r) ∧
      (∀ before, before <+: run.taken → streak before ≤ 8) ∧
      run.events.Pairwise fun a b => a = .close → b.isPoll = false) ∨
      ∃ r, RunEnd (longpollStart client o closedAtStart) run.passes r.1 ∧
        run.outcome = .done r := by
    rcases hends with ⟨s, hinv, -, hout⟩ | hdone
    · exact .inl ⟨hinv.filter_refused, by simp [hout], hinv.short, hinv.order⟩
    · exact .inr hdone
  have hsome : (∃ poll ∈ run.taken, poll.refused = true) ↔
      0 < (run.taken.filter Poll.refused).length := by
    rw [List.length_pos_iff_exists_mem]
    simp
  have hbackoff : ∀ before poll es after, run.passes = before ++ (poll, es) :: after →
      poll.transient = true → streak (before.map Prod.fst ++ [poll]) ≤ 8 →
      poll.closeInRequest = false → poll.closeInCallback = false →
      es.filter LongpollEvent.isSleep =
        [.sleep (min (500 * 2 ^ (streak (before.map Prod.fst ++ [poll]) - 1)) 30000)] := by
    intro before poll es after hpasses ht hfew hreq hcallback
    obtain ⟨s, out, hinv, hclosed, hclient, -, hpassed⟩ := hsplit before poll es after hpasses
    exact hpassed.backsOff hinv hclosed hclient ht hfew hreq hcallback
  refine ⟨?_, ?_, ?_, ?_, hwaits, ?_, ?_, hbackoff, ?_, ?_, ?_⟩
  · rw [hsome]
    rcases hcases with ⟨hnone, hout, -, -⟩ | ⟨r, hend, hout⟩
    · rw [hnone]
      exact iff_of_false (not_exists.mpr fun c => hout (.server, c)) (by simp)
    · rw [hout, exists_done_iff, GuardedLoop.Run.taken, hend.refused]
      split <;> simp_all
  · rcases hcases with ⟨-, hout, hshort, -⟩ | ⟨r, hend, hout⟩
    · have := hshort run.taken List.prefix_rfl
      exact iff_of_false (not_exists.mpr fun c => hout (.connection, c)) (by omega)
    · rw [hout, exists_done_iff]
      exact hend.connection
  · rcases hcases with ⟨-, -, hshort, -⟩ | ⟨r, hend, -⟩
    · exact fun before hbefore _ => hshort before hbefore
    · exact hend.short
  · intro e c hec
    rcases hcases with ⟨-, hout, -, -⟩ | ⟨r, hend, hout⟩
    · exact absurd hec (hout _)
    · rw [hout] at hec
      obtain rfl := Pass.done.inj hec
      refine hend.otherwise.imp_right (Or.imp_right (And.imp_right fun hclose hlive => ?_))
      exact hclose.resolve_left fun hclosed => Bool.false_ne_true (hlive.symm.trans hclosed)
  · rw [← filter_failed_length]
    exact reports_of_passes hcb hmem
  · rcases hcases with ⟨hnone, -, -, -⟩ | ⟨r, hend, -⟩
    · simp [hnone]
    · rw [GuardedLoop.Run.taken, hend.refused]
      split <;> omega
  · intro before poll es since last es' after hpasses hpoll hsince hlast hfew hreq hcallback
    have hstreak : streak ((before ++ (poll, es) :: since).map Prod.fst ++ [last]) =
        since.length + 1 := by
      rw [streak_concat, if_pos hlast, List.map_append, List.map_cons,
        streak_since hpoll _ _ (List.forall_mem_map.2 hsince), List.length_map]
    have hsleep := hbackoff _ last es' after hpasses hlast (by omega) hreq hcallback
    rwa [hstreak] at hsleep
  · rcases hcases with ⟨-, -, -, horder⟩ | ⟨r, hend, -⟩
    · exact horder
    · exact hend.order
  · intro hclosed
    cases hpasses : run.passes with
    | nil => rfl
    | cons pass after =>
      obtain ⟨s, out, hinv, hopen, -⟩ := hsplit [] pass.1 pass.2 after hpasses
      rw [hinv.closed.mpr (.inl hclosed)] at hopen
      cases hopen

/-- After a preflight that succeeds and the allocation of the handle, with `on_error` set: where the
URL cannot be allocated the run returns an out-of-memory error before any poll, and otherwise it
ends, reports, and sleeps as `Terminates` says. -/
theorem longpollRun_terminates (p : Platform) (parse : CString → Option CJson)
    (client client' : Client) (category : CString) (options : Option LongpollOptions)
    (cb : LongpollCallbacks) (env : LongpollEnv)
    (hpreflight : longpollPreflight p parse (longpollOptions options) client env = (.ok, client'))
    (hhandle : env.setup 0 = true) (hcb : cb.onError = true) :
    let ran := longpollRun p parse client (some category) options (some cb) env
    (env.setup 1 = false → ran = .stopped .outOfMemory client' []) ∧
    (env.setup 1 = true → ∃ run, ran = .looped run ∧
      Terminates client' env.closedAtStart env.polls run) := by
  intro ran
  have hran : ran = if !env.setup 1 then .stopped .outOfMemory client' [] else
      .looped ((longpollLoop p parse category (longpollOptions options) cb).run
        (longpollStart client' (longpollOptions options) env.closedAtStart) env.polls) := by
    show longpollRun p parse client (some category) options (some cb) env = _
    simp only [longpollRun, hpreflight, hhandle, ne_eq, not_true_eq_false, if_false, Bool.not_true,
      Bool.false_eq_true]
  rw [hran]
  constructor
  · intro hurl
    rw [hurl]
    rfl
  · intro hurl
    rw [hurl]
    exact ⟨_, rfl, longpollLoop_terminates p parse category (longpollOptions options) hcb client'
      env.closedAtStart env.polls⟩

/-- A poll that meets a transfer of one hop with memory, and no close. -/
def Poll.plain (code : CURLcode) (status : Nat) (body : Option CString) : Poll :=
  ⟨.transfer (.performed ⟨[⟨0, status⟩], code, [], body, none⟩), plenty, false, false, false⟩

/-- An environment with memory, for a run that skips the preflight. -/
def LongpollEnv.plain (polls : List Poll) : LongpollEnv :=
  ⟨⟨plenty, fun _ => ⟨plenty, .noHandle⟩, plenty⟩, plenty, plenty, false, polls⟩

/-- Two failures, a response, a failure, and one during whose report the handle is closed. -/
def failingPolls : List Poll :=
  [.plain .couldntConnect 0 none, .plain .ok 503 none, .plain .ok 200 none, .plain .ok 429 none,
    { Poll.plain .ok 500 none with closeInCallback := true }]

theorem failingPolls_terminates :
    ∃ run, longpollRun .exact (fun _ => none) (.new none none none) (some []) (some ⟨0, 50, true⟩)
      (some ⟨true, true, true⟩) (.plain failingPolls) = .looped run ∧
      run.events.filter LongpollEvent.isSleep = [.sleep 500, .sleep 1000, .sleep 500] ∧
      (∃ c, run.outcome = .done (.ok, c)) ∧
      Terminates (.new none none none) false failingPolls run := by
  obtain ⟨run, hrun, hterminates⟩ := (longpollRun_terminates .exact (fun _ => none)
    (.new none none none) (.new none none none) [] (some ⟨0, 50, true⟩) ⟨true, true, true⟩
    (.plain failingPolls) rfl rfl rfl).2 rfl
  obtain rfl := LongpollRun.looped.inj hrun
  exact ⟨_, hrun, rfl, ⟨_, rfl⟩, hterminates⟩

/-- Without memory for its URL, a run returns neither a server error nor a connection error, and
not a success either, and no close has been asked for. -/
theorem urlRefused_stops :
    ∃ e c, longpollRun .exact (fun _ => none) (.new none none none) (some []) (some ⟨0, 50, true⟩)
      (some ⟨true, true, true⟩) { LongpollEnv.plain [] with setup := fun n => n == 0 } =
        .stopped e c [] ∧ e ≠ .server ∧ e ≠ .connection ∧ e ≠ .ok :=
  ⟨.outOfMemory, .new none none none, rfl, by decide⟩

end

end Audd
