import Audd.LongpollRuns

/-! What the longpoll loop makes of response bodies.  With memory, the deliveries of a run are the
events that the callback parser accepts, in order, and each poll resumes from the last timestamp
before it.  An error that the API reports in a body is neither delivered nor reported: the loop
goes on. -/

namespace Audd

def bodyJson (parse : CString → Option CJson) (body : Option CString) : Option CJson :=
  match body with
  | none | some [] => none
  | some text => parse text

/-- The events that the callback parser accepts from a body, with memory. -/
def acceptedEvents (p : Platform) (parse : CString → Option CJson) (body : Option CString) :
    List LongpollEvent :=
  let out := (parseCallback p parse body).ok
  if out.err = .ok then
    out.outMatch.toList.map .onMatch ++ out.outNotification.toList.map .onNotification
  else []

def Poll.usable (poll : Poll) : Option Perform := poll.answer.filter fun r => r.status < 400

def Poll.accepted (p : Platform) (parse : CString → Option CJson) (poll : Poll) :
    List LongpollEvent :=
  match poll.usable with
  | some r => acceptedEvents p parse r.body
  | none => []

def Poll.timestamp (parse : CString → Option CJson) (poll : Poll) : Option CDouble :=
  match poll.usable.bind fun r => (bodyJson parse r.body).bind
    (CJson.getObjectItemCaseSensitive · "timestamp") with
  | some (.number ts) => some ts
  | _ => none

/-- The last timestamp of a list of polls, truncated, or `since` where there is none. -/
def cursorAfter (parse : CString → Option CJson) (since : Int) (polls : List Poll) : Int :=
  (polls.filterMap fun poll => (poll.timestamp parse).bind CDouble.trunc).getLast?.getD since

section

variable {p : Platform} {parse : CString → Option CJson} {category : CString}
  {o : LongpollOptions} {cb : LongpollCallbacks}

theorem tryParseJson_ok (body : Option CString) :
    (tryParseJson parse body).ok = bodyJson parse body := by
  unfold tryParseJson bodyJson
  split
  · rfl
  · rfl
  · simp

theorem action_continue_iff (poll : Poll) :
    poll.action = .continue_ ↔ ∃ r, poll.usable = some r := by
  unfold Poll.action Poll.usable
  cases poll.answer with
  | none => simp
  | some r =>
    simp only [longpollClassifyHttp, Option.filter_some, decide_eq_true_eq]
    split_ifs <;> simp <;> omega

/-! ### Bodies -/

theorem isKeepalive_of_isEvent {root : CJson} (h : root.IsEvent) :
    isKeepalive (some root) = false := by
  unfold isKeepalive
  rcases h with ⟨ms, hget⟩ | ⟨ms, hget⟩
  · dsimp only
    rw [CJson.hasObjectItem_of_get hget]
    split <;> rfl
  · dsimp only
    rw [CJson.hasObjectItem_of_get hget]
    rfl

theorem not_keepalive_of_accepted {body : Option CString}
    (h : (parseCallback p parse body).ok.err = .ok) :
    body.getD [] ≠ [] ∧ isKeepalive (bodyJson parse body) = false := by
  obtain ⟨text, root, rfl, hroot, hevent⟩ := (parseCallback_every p parse body).ok.2 h
  cases text with
  | nil => cases h
  | cons c text =>
    refine ⟨by simp, ?_⟩
    rw [bodyJson, hroot]
    · exact isKeepalive_of_isEvent hevent
    · simp

/-- A match or a notification, never both, and one of them where the parser succeeds. -/
theorem acceptedEvents_length (p : Platform) (parse : CString → Option CJson)
    (body : Option CString) : (acceptedEvents p parse body).length =
      if (parseCallback p parse body).ok.err = .ok then 1 else 0 := by
  unfold acceptedEvents
  have hconsistent := (parseCallback_every p parse body).ok.1
  generalize (parseCallback p parse body).ok = out at hconsistent
  unfold CallbackOut.Consistent at hconsistent
  dsimp only
  split
  · rename_i hok
    rw [if_pos hok, CallbackOut.Exclusive] at hconsistent
    cases hm : out.outMatch <;> cases hn : out.outNotification <;> simp [hm, hn] at hconsistent ⊢
  · rfl

theorem acceptedEvents_isDelivery {body : Option CString} {e : LongpollEvent}
    (h : e ∈ acceptedEvents p parse body) : e.isDelivery = true := by
  unfold acceptedEvents at h
  dsimp only at h
  split at h
  · rcases List.mem_append.mp h with h | h
    · obtain ⟨m, -, rfl⟩ := List.mem_map.mp h
      rfl
    · obtain ⟨n, -, rfl⟩ := List.mem_map.mp h
      rfl
  · cases h

theorem dispatch_ok (hmatch : cb.onMatch = true) (hnotification : cb.onNotification = true)
    (resp : HttpResponse) (hjson : resp.json = bodyJson parse resp.body) :
    (dispatch p parse cb resp).ok = acceptedEvents p parse resp.body := by
  unfold dispatch acceptedEvents
  by_cases hskip : resp.body.getD [] = [] ∨ isKeepalive resp.json = true
  · have hrefused : (parseCallback p parse resp.body).ok.err ≠ .ok := by
      intro hok
      obtain ⟨hbody, hkeep⟩ := not_keepalive_of_accepted hok
      rw [hjson, hkeep] at hskip
      simp [hbody] at hskip
    rw [if_pos hskip, if_neg hrefused]
    rfl
  · rw [if_neg hskip, AllocM.ok_bind]
    by_cases hok : (parseCallback p parse resp.body).ok.err = .ok
    · simp [hok, hmatch, hnotification]
    · simp [hok]

/-! ### Deliveries and the cursor -/

/-- A poll has memory, and its timestamp is in the range of `long`. -/
def Poll.Ample (parse : CString → Option CJson) (poll : Poll) : Prop :=
  poll.tape = plenty ∧ ∀ ts, poll.timestamp parse = some ts → ts.Converts 64

theorem fetch_of_answer {poll : Poll} {r : Perform} (h : poll.answer = some r) :
    poll.fetch = .transfer (.performed r) ∧ r.code = .ok := by
  unfold Poll.answer at h
  split at h
  · split at h
    · rename_i r' hfetch
      split at h
      · rename_i hok
        obtain rfl := Option.some.inj h
        exact ⟨hfetch, hok⟩
      · cases h
    · cases h
  · cases h

theorem httpGet_ok {poll : Poll} {r : Perform} (h : poll.answer = some r) (c : Client) :
    (httpGet parse c poll.fetch).ok = (0, ⟨r.status, r.body, r.requestId, bodyJson parse r.body⟩,
      (c.setRequestId r.requestId).ok) := by
  obtain ⟨hfetch, hok⟩ := fetch_of_answer h
  rw [hfetch]
  unfold httpGet
  simp only [AllocM.ok_bind, AllocM.ok_copy, hok, ne_eq, not_true_eq_false, if_false, received,
    tryParseJson_ok, AllocM.ok_pure]

/-- With memory, a usable answer is turned into its events and moves the cursor to its
timestamp. -/
theorem longpollPass_usable (p : Platform) (category : CString) (o : LongpollOptions)
    (s : LongpollState) {poll : Poll} {r : Perform} (hample : poll.Ample parse)
    (hr : poll.usable = some r) (hmatch : cb.onMatch = true)
    (hnotification : cb.onNotification = true) :
    ∃ client, longpollPass p parse category o cb s poll =
      (requestEvents category o s poll ++ acceptedEvents p parse r.body ++
        closing poll.closeInCallback ++ closing poll.closeAfter,
        .next ⟨client, s.closed || poll.closeInRequest || poll.closeInCallback || poll.closeAfter,
          cursorAfter parse s.sinceTime [poll], 0, kBackoffStartMs⟩) := by
  obtain ⟨hanswer, hstatus⟩ := Option.filter_eq_some_iff.mp hr
  have hclass : longpollClassifyHttp 0 r.status = .continue_ := by
    have : ¬(r.status : Int) ≥ 400 := by
      have := of_decide_eq_true hstatus
      omega
    simp [longpollClassifyHttp, this]
  have hcursor : advanceCursor p (bodyJson parse r.body) s.sinceTime =
      cursorAfter parse s.sinceTime [poll] := by
    have hts := hample.2
    unfold advanceCursor cursorAfter
    unfold Poll.timestamp at hts ⊢
    rw [hr, Option.bind_some] at hts
    simp only [List.filterMap_cons, List.filterMap_nil, hr, Option.bind_some]
    generalize (bodyJson parse r.body).bind
      (CJson.getObjectItemCaseSensitive · "timestamp") = item at hts
    cases item with
    | none => rfl
    | some item =>
      cases item with
      | number ts =>
        obtain ⟨n, hn, hrange⟩ := hts ts rfl
        simp [CDouble.toInt64, CDouble.convert_of_trunc hn hrange, hn]
      | null => rfl
      | bool b => rfl
      | string text => rfl
      | array items => rfl
      | object ms => rfl
  refine ⟨(s.client.setRequestId r.requestId).ok, ?_⟩
  unfold longpollPass
  rw [hample.1, AllocM.run_plenty, httpGet_ok hanswer]
  dsimp only
  rw [hclass]
  dsimp only
  rw [AllocM.run_plenty, dispatch_ok hmatch hnotification _ rfl, hcursor]
  rfl

theorem Passed.deliveries {s : LongpollState} {poll : Poll} {es : List LongpollEvent}
    {out : Pass LongpollState (AuddError × Client)}
    (hbody : (longpollLoop p parse category o cb).body s poll = (es, out))
    (hample : poll.Ample parse) (hmatch : cb.onMatch = true)
    (hnotification : cb.onNotification = true) :
    es.filter LongpollEvent.isDelivery = poll.accepted p parse := by
  have hreport : ∀ err message,
      (emitError cb err message).filter LongpollEvent.isDelivery = [] := by
    intro err message
    rw [List.filter_eq_nil_iff]
    intro e he
    rw [mem_emitError he]
    exact Bool.false_ne_true
  have hrequest : (requestEvents category o s poll).filter LongpollEvent.isDelivery = [] := by
    rw [requestEvents, List.filter_cons_of_neg (by exact Bool.false_ne_true)]
    exact closing_filter _ rfl _
  have hclosing := closing_filter LongpollEvent.isDelivery rfl
  cases hr : poll.usable with
  | some r =>
    obtain ⟨client, hpass⟩ := longpollPass_usable p category o s hample hr hmatch hnotification
    have hes : es = _ := (congrArg Prod.fst hbody).symm.trans (congrArg Prod.fst hpass)
    rw [hes, Poll.accepted, hr]
    simp only [List.filter_append, hrequest, hclosing, List.nil_append, List.append_nil]
    exact List.filter_eq_self.mpr fun e he => acceptedEvents_isDelivery he
  | none =>
    have hnot : poll.action ≠ .continue_ := by
      intro hact
      obtain ⟨r, hr'⟩ := (action_continue_iff poll).mp hact
      rw [hr] at hr'
      cases hr'
    rw [Poll.accepted, hr]
    cases longpollLoop_passed hbody with
    | refused client message _ => simp only [List.filter_append, hreport, hrequest, List.nil_append]
    | gaveUp client message _ _ =>
      simp only [List.filter_append, hreport, hrequest, List.nil_append]
    | closed client message _ _ _ =>
      simp only [List.filter_append, hreport, hrequest, hclosing, List.nil_append]
    | backedOff client message _ _ _ _ =>
      have hsleep : [LongpollEvent.sleep s.backoffMs].filter LongpollEvent.isDelivery = [] := rfl
      simp only [List.filter_append, hreport, hrequest, hclosing, hsleep, List.nil_append]
    | answered client delivered sinceTime hact _ _ => exact absurd hact hnot

theorem cursorAfter_concat (since : Int) (polls : List Poll) (poll : Poll) :
    cursorAfter parse since (polls ++ [poll]) =
      cursorAfter parse (cursorAfter parse since polls) [poll] := by
  unfold cursorAfter
  rw [List.filterMap_append, List.getLast?_append]
  cases (List.filterMap (fun poll => (poll.timestamp parse).bind CDouble.trunc) [poll]).getLast? <;>
    rfl

theorem sinceTime_step {s₁ s₂ : LongpollState} {poll : Poll} {es : List LongpollEvent}
    (hbody : (longpollLoop p parse category o cb).body s₁ poll = (es, .next s₂))
    (hample : poll.Ample parse) (hmatch : cb.onMatch = true)
    (hnotification : cb.onNotification = true) :
    s₂.sinceTime = cursorAfter parse s₁.sinceTime [poll] := by
  cases hr : poll.usable with
  | some r =>
    obtain ⟨client, hpass⟩ :=
      longpollPass_usable p category o s₁ hample hr hmatch hnotification
    have hnext := (congrArg Prod.snd hbody).symm.trans (congrArg Prod.snd hpass)
    rw [Pass.next.inj hnext]
  | none =>
    have hts : poll.timestamp parse = none := by
      unfold Poll.timestamp
      rw [hr]
      rfl
    have hnone : cursorAfter parse s₁.sinceTime [poll] = s₁.sinceTime := by
      unfold cursorAfter
      rw [List.filterMap_cons, hts]
      rfl
    rw [hnone]
    cases longpollLoop_passed hbody with
    | backedOff client message _ _ _ _ => rfl
    | answered client delivered sinceTime hact _ _ =>
      obtain ⟨r, hr'⟩ := (action_continue_iff poll).mp hact
      rw [hr] at hr'
      cases hr'

/-- What a run delivers, and from where each of its polls resumes. -/
structure Delivers (p : Platform) (parse : CString → Option CJson) (category : CString)
    (o : LongpollOptions)
    (run : GuardedLoop.Run LongpollState Poll LongpollEvent (AuddError × Client)) : Prop where
  deliveries : run.events.filter LongpollEvent.isDelivery =
    run.taken.flatMap (Poll.accepted p parse)
  queries : ∀ before poll es after, run.passes = before ++ (poll, es) :: after →
    let cursor := cursorAfter parse o.sinceTime (before.map Prod.fst)
    ∃ queryKv timeout, es.filter LongpollEvent.isPoll = [.poll queryKv timeout] ∧
      (pairs queryKv).lookup ("since_time" : CString) =
        if 0 < cursor then some (decimal cursor) else none

theorem longpollQuery_since (category : CString) (timeout sinceTime : Int) :
    (pairs (longpollQuery category timeout sinceTime)).lookup ("since_time" : CString) =
      if 0 < sinceTime then some (decimal sinceTime) else none := by
  have hcategory : (("since_time" : CString) == ("category" : CString)) = false := by decide
  have htimeout : (("since_time" : CString) == ("timeout" : CString)) = false := by decide
  unfold longpollQuery
  split
  · simp only [List.cons_append, List.nil_append, pairs, List.lookup_cons, hcategory, htimeout,
      beq_self_eq_true]
  · simp only [List.append_nil, pairs, List.lookup_cons, hcategory, htimeout, List.lookup_nil]

theorem longpollLoop_delivers (p : Platform) (parse : CString → Option CJson)
    (category : CString) (o : LongpollOptions) {cb : LongpollCallbacks}
    (hmatch : cb.onMatch = true) (hnotification : cb.onNotification = true) (client : Client)
    (closedAtStart : Bool) {polls : List Poll} (hample : ∀ poll ∈ polls, poll.Ample parse) :
    Delivers p parse category o ((longpollLoop p parse category o cb).run
      (longpollStart client o closedAtStart) polls) := by
  have htaken := GuardedLoop.run_taken_prefix (longpollLoop p parse category o cb)
    (longpollStart client o closedAtStart) polls
  have hsplit := GuardedLoop.run_split (longpollLoop p parse category o cb)
    (longpollStart client o closedAtStart) polls
  generalize (longpollLoop p parse category o cb).run
    (longpollStart client o closedAtStart) polls = run at htaken hsplit
  have hread : ∀ pass ∈ run.passes, pass.1.Ample parse := fun pass hpass =>
    hample _ (htaken.subset (List.mem_map_of_mem hpass))
  constructor
  · have hpasses : ∀ pass ∈ run.passes,
        pass.2.filter LongpollEvent.isDelivery = pass.1.accepted p parse := by
      intro pass hpass
      obtain ⟨before, after, hrun⟩ := List.append_of_mem hpass
      obtain ⟨s, -, -, hes, -⟩ := hsplit before pass.1 pass.2 after hrun
      have hbody : (longpollLoop p parse category o cb).body s pass.1 =
          (pass.2, ((longpollLoop p parse category o cb).body s pass.1).2) := by
        rw [← hes]
      exact Passed.deliveries hbody (hread pass hpass) hmatch hnotification
    rw [GuardedLoop.Run.events, GuardedLoop.Run.taken, List.filter_flatMap, List.flatMap_map]
    exact List.flatMap_congr hpasses
  · intro before poll es after hrun cursor
    obtain ⟨s, hreach, -, hes, -⟩ := hsplit before poll es after hrun
    -- the state's cursor follows the timestamps of the polls before
    have hcursor : (∀ pass ∈ before, pass.1.Ample parse) → s.sinceTime = cursor := by
      refine hreach.invariant (I := fun h s => (∀ pass ∈ h, pass.1.Ample parse) →
        s.sinceTime = cursorAfter parse o.sinceTime (h.map Prod.fst)) (fun _ => rfl) ?_
      intro h s₁ s₂ poll' es' hinv _ hbody hall
      have hstep := sinceTime_step hbody (hall (poll', es') (by simp)) hmatch hnotification
      have hbefore := hinv fun pass hpass => hall pass (List.mem_append_left _ hpass)
      rw [hstep, hbefore, List.map_append, List.map_singleton, cursorAfter_concat]
    have hsince := hcursor fun pass hpass =>
      hread pass (by rw [hrun]; exact List.mem_append_left _ hpass)
    have hpassed : Passed category o cb s poll es
        ((longpollLoop p parse category o cb).body s poll).2 :=
      longpollLoop_passed (by rw [← hes])
    obtain ⟨rest, hfirst, hrest⟩ := hpassed.poll_first
    refine ⟨longpollQuery category o.timeout s.sinceTime,
      longpollPollTimeout s.client.options.standardTimeoutSeconds o.timeout, ?_, ?_⟩
    · rw [hfirst, List.filter_cons_of_pos rfl, List.filter_eq_nil_iff.mpr fun e he => by
        simp [hrest e he]]
    · rw [longpollQuery_since, hsince]

theorem longpollRun_looped {client : Client} {options : Option LongpollOptions}
    {env : LongpollEnv} {run}
    (h : longpollRun p parse client (some category) options (some cb) env = .looped run) :
    run = (longpollLoop p parse category (longpollOptions options) cb).run
      (longpollStart (longpollPreflight p parse (longpollOptions options) client env).2
        (longpollOptions options) env.closedAtStart) env.polls := by
  simp only [longpollRun] at h
  split at h
  · cases h
  · split at h
    · cases h
    · split at h
      · cases h
      · exact (LongpollRun.looped.inj h).symm

/-- With memory, timestamps in range, and the callbacks set, a run delivers exactly the events that
the callback parser accepts from the usable answers, in order, and each poll resumes from the last
timestamp among the usable answers before it.  A body gives one event where the parser accepts it
and none elsewhere, and an accepted one is never taken for a keepalive.  A run that is not over has
read every poll. -/
theorem longpollRun_delivers (p : Platform) (parse : CString → Option CJson) (client : Client)
    (category : CString) (options : Option LongpollOptions) (cb : LongpollCallbacks)
    (env : LongpollEnv)
    (run : GuardedLoop.Run LongpollState Poll LongpollEvent (AuddError × Client))
    (hrun : longpollRun p parse client (some category) options (some cb) env = .looped run)
    (hmatch : cb.onMatch = true) (hnotification : cb.onNotification = true)
    (hample : ∀ poll ∈ env.polls, poll.Ample parse) :
    Delivers p parse category (longpollOptions options) run ∧
    ((∀ r, run.outcome ≠ .done r) → run.taken = env.polls) ∧
    ∀ body, (acceptedEvents p parse body).length =
        (if (parseCallback p parse body).ok.err = .ok then 1 else 0) ∧
      ((parseCallback p parse body).ok.err = .ok →
        isKeepalive (bodyJson parse body) = false) := by
  obtain rfl := longpollRun_looped hrun
  refine ⟨longpollLoop_delivers p parse category (longpollOptions options) hmatch hnotification _ _
    hample, fun hout => ?_, fun body => ⟨acceptedEvents_length p parse body,
      fun hok => (not_keepalive_of_accepted hok).2⟩⟩
  rcases GuardedLoop.run_cases (longpollLoop p parse category (longpollOptions options) cb)
    (longpollStart (longpollPreflight p parse (longpollOptions options) client env).2
      (longpollOptions options) env.closedAtStart) env.polls with
    ⟨s, -, -, htaken, -⟩ | ⟨s, r, -, -, hdone⟩ | ⟨h, s, poll, es, r, -, -, -, -, hdone⟩
  · exact htaken
  · exact absurd hdone (hout r)
  · exact absurd hdone (hout r)

/-- The bodies of a notification with a timestamp, a match, and a keepalive with a timestamp. -/
def streamBodies : CString → Option CJson
  | ['n'] => some (.object [("notification", .object []), ("timestamp", .number (.finite 7))])
  | ['m'] => some (.object [("result", .object [("results", .array [.object []])])])
  | ['k'] => some (.object [("timeout", .null), ("timestamp", .number (.finite 9))])
  | _ => none

def streamPolls : List Poll :=
  [.plain .ok 200 (some "n"), .plain .couldntConnect 0 none, .plain .ok 200 (some "m"),
    .plain .ok 503 (some "n"), .plain .ok 200 (some "k"), .plain .ok 200 (some "x")]

/-- The notification and the match are delivered, and the timestamps outlast what is between. -/
theorem stream_delivered :
    ∃ run, longpollRun .exact streamBodies (.new none none none) (some []) (some ⟨0, 50, true⟩)
      (some ⟨true, true, true⟩) (.plain streamPolls) = .looped run ∧
      run.events.filter LongpollEvent.isDelivery =
        [.onNotification ⟨0, -1, 0, none, 0, some "n"⟩,
          .onMatch ⟨0, none, 0, .empty, [], some "m"⟩] ∧
      run.events.filter LongpollEvent.isPoll =
        ([0, 7, 7, 7, 7, 9].map fun since => .poll (longpollQuery [] 50 since) 65) ∧
      Delivers .exact streamBodies [] ⟨0, 50, true⟩ run := by
  have hample : ∀ poll ∈ streamPolls, poll.Ample streamBodies := by
    intro poll hpoll
    simp only [streamPolls, List.mem_cons, List.not_mem_nil, or_false] at hpoll
    rcases hpoll with rfl | rfl | rfl | rfl | rfl | rfl <;> refine ⟨rfl, ?_⟩ <;> rintro ts ⟨⟩
    · exact ⟨7, rfl, by decide⟩
    · exact ⟨9, rfl, by decide⟩
  have hdelivers := (longpollRun_delivers .exact streamBodies (.new none none none) []
    (some ⟨0, 50, true⟩) ⟨true, true, true⟩ (.plain streamPolls) _ rfl rfl rfl hample).1
  exact ⟨_, rfl, hdelivers.deliveries.trans rfl, rfl, hdelivers⟩

/-! ### Errors of the API -/

/-- A poll that is answered with an error of the API: its status is below 400, and its body is an
error object with a numeric code, and none of the members that the loop looks for. -/
structure Poll.ApiError (parse : CString → Option CJson) (poll : Poll) (r : Perform)
    (text : CString) (body err : CJson) (code : CDouble) : Prop where
  answer : poll.usable = some r
  text_eq : r.body = some text
  parsed : parse text = some body
  status : body.getObjectItemCaseSensitive "status" = some (.string "error")
  error : body.getObjectItemCaseSensitive "error" = some err
  code_eq : err.getObjectItemCaseSensitive "error_code" = some (.number code)
  result : body.getObjectItemCaseSensitive "result" = none
  notification : body.getObjectItemCaseSensitive "notification" = none
  timeout : body.getObjectItemCaseSensitive "timeout" = none

/-- The pass ends its run: no poll follows, it reports through `on_error`, and the run returns an
error. -/
def Terminal (run : GuardedLoop.Run LongpollState Poll LongpollEvent (AuddError × Client))
    (before : List (Poll × List LongpollEvent)) (poll : Poll) (es : List LongpollEvent) : Prop :=
  run.passes = before ++ [(poll, es)] ∧ (∃ e message, .onError e message ∈ es) ∧
    ∃ e c, run.outcome = .done (e, c) ∧ e ≠ .ok

/-- No poll that is answered with an error of the API is terminal, in any run: it is not reported,
the loop goes on without a sleep, and it asks again unless the handle or the client is closed. -/
theorem apiError_never_terminal (p : Platform) (parse : CString → Option CJson) (client : Client)
    (category : CString) (options : Option LongpollOptions) (cb : LongpollCallbacks)
    (env : LongpollEnv)
    (run : GuardedLoop.Run LongpollState Poll LongpollEvent (AuddError × Client))
    (hrun : longpollRun p parse client (some category) options (some cb) env = .looped run)
    (before after : List (Poll × List LongpollEvent)) (poll : Poll) (es : List LongpollEvent)
    (hpasses : run.passes = before ++ (poll, es) :: after) (r : Perform) (text : CString)
    (body err : CJson) (code : CDouble) (herror : poll.ApiError parse r text body err code) :
    ¬Terminal run before poll es ∧
    (∀ event ∈ es, event.isError = false ∧ event.isSleep = false) ∧
    (after = [] → ∀ e c, run.outcome = .done (e, c) → e = .ok) := by
  obtain rfl := longpollRun_looped hrun
  have hact : poll.action = .continue_ := (action_continue_iff poll).mpr ⟨r, herror.answer⟩
  obtain ⟨s, out, -, -, -, -, hpassed⟩ :=
    run_passes p parse category (longpollOptions options) cb (.start _ rfl rfl) env.polls before
      poll es after hpasses
  have hquiet : ∀ event ∈ es, event.isError = false ∧ event.isSleep = false := by
    cases hpassed with
    | answered client' delivered sinceTime _ _ hdelivered =>
      intro event hevent
      simp only [requestEvents, List.mem_append, List.mem_cons] at hevent
      rcases hevent with (((rfl | hevent) | hevent) | hevent) | hevent
      · exact ⟨rfl, rfl⟩
      · rw [(mem_closing hevent).2]
        exact ⟨rfl, rfl⟩
      · have honly := isDelivery_only (hdelivered event hevent)
        exact ⟨honly.2.1, honly.2.2.1⟩
      · rw [(mem_closing hevent).2]
        exact ⟨rfl, rfl⟩
      · rw [(mem_closing hevent).2]
        exact ⟨rfl, rfl⟩
    | refused client' message h => rw [hact] at h; cases h
    | gaveUp client' message h _ => rw [hact] at h; cases h
    | closed client' message h _ _ => rw [hact] at h; cases h
    | backedOff client' message h _ _ _ => rw [hact] at h; cases h
  refine ⟨fun hterminal => ?_, hquiet, ?_⟩
  · obtain ⟨-, ⟨e, message, hmem⟩, -⟩ := hterminal
    cases (hquiet _ hmem).1
  · rintro rfl e c hout
    rcases GuardedLoop.run_cases (longpollLoop p parse category (longpollOptions options) cb)
      (longpollStart (longpollPreflight p parse (longpollOptions options) client env).2
        (longpollOptions options) env.closedAtStart) env.polls with
      ⟨s', -, -, -, hwait⟩ | ⟨s', r', -, hguard, hdone⟩ |
      ⟨h, s', poll', es', r', -, -, hbody, hsplit, -⟩
    · rw [hwait] at hout
      cases hout
    · rw [hdone] at hout
      obtain rfl := Pass.done.inj hout
      simp only [longpollLoop] at hguard
      split at hguard
      · exact (congrArg Prod.fst (Option.some.inj hguard)).symm
      · cases hguard
    · -- the last pass is this one, and it does not return
      obtain ⟨-, hlast⟩ := List.append_inj' (hpasses.symm.trans hsplit) rfl
      obtain ⟨rfl, rfl⟩ := Prod.mk.inj (List.cons.inj hlast).1
      cases longpollLoop_passed hbody with
      | refused client' message h => rw [hact] at h; cases h
      | gaveUp client' message h _ => rw [hact] at h; cases h
      | closed client' message h _ _ => rw [hact] at h; cases h

def tokenErrorBody : CJson := .object [("status", .string "error"),
  ("error", .object [("error_code", .number (.finite 900))])]

def tokenErrorPoll : Poll := .plain .ok 200 (some "e")

def tokenErrorRun : GuardedLoop.Run LongpollState Poll LongpollEvent (AuddError × Client) :=
  (longpollLoop .exact (fun _ => some tokenErrorBody) [] ⟨0, 50, true⟩ ⟨true, true, true⟩).run
    (longpollStart (.new none none none) ⟨0, 50, true⟩ false) [tokenErrorPoll, tokenErrorPoll]

theorem tokenErrorPoll_apiError : tokenErrorPoll.ApiError (fun _ => some tokenErrorBody)
    ⟨[⟨0, 200⟩], .ok, [], some "e", none⟩ "e" tokenErrorBody
    (.object [("error_code", .number (.finite 900))]) (.finite 900) where
  answer := rfl
  text_eq := rfl
  parsed := rfl
  status := rfl
  error := rfl
  code_eq := rfl
  result := rfl
  notification := rfl
  timeout := rfl

theorem tokenError_first :
    ¬Terminal tokenErrorRun [] tokenErrorPoll [.poll ["category", [], "timeout", "50"] 65] :=
  (apiError_never_terminal .exact (fun _ => some tokenErrorBody) (.new none none none) []
    (some ⟨0, 50, true⟩) ⟨true, true, true⟩ (.plain [tokenErrorPoll, tokenErrorPoll]) tokenErrorRun
    rfl [] [(tokenErrorPoll, [.poll ["category", [], "timeout", "50"] 65])] tokenErrorPoll _ rfl
    _ _ _ _ _ tokenErrorPoll_apiError).1

theorem tokenError_asksAgain :
    longpollRun .exact (fun _ => some tokenErrorBody) (.new none none none) (some [])
      (some ⟨0, 50, true⟩) (some ⟨true, true, true⟩) (.plain [tokenErrorPoll, tokenErrorPoll]) =
        .looped tokenErrorRun ∧
    tokenErrorPoll.ApiError (fun _ => some tokenErrorBody) ⟨[⟨0, 200⟩], .ok, [], some "e", none⟩
      "e" tokenErrorBody (.object [("error_code", .number (.finite 900))]) (.finite 900) ∧
    tokenErrorRun.taken = [tokenErrorPoll, tokenErrorPoll] ∧
    tokenErrorRun.events.filter LongpollEvent.isError = [] ∧
    ¬Terminal tokenErrorRun [] tokenErrorPoll [.poll ["category", [], "timeout", "50"] 65] :=
  ⟨rfl, tokenErrorPoll_apiError, rfl, rfl, fun h => absurd (congrArg List.length h.1) (by decide)⟩

end

end Audd
