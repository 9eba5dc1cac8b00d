import Audd.Callback
import Audd.Http
import Audd.Lib.Loop
import Audd.Streams

/-! The longpoll consumer.  `longpollRun` is `audd_longpoll_run`: the checks and allocations before
the loop, and the loop over a script of polls.  A poll is what one request met, with the moments
at which the handle was closed during it. -/

namespace Audd

def kNoCallbackErrorCode : Int := 19

def kBackoffStartMs : Int := 500

def kBackoffMaxMs : Int := 30000

def kMaxConsecutiveFailures : Int := 8

def kPollTimeoutMarginSeconds : Int := 15

def longpollPollTimeout (standardTimeoutSeconds holdTimeoutSeconds : Int) : Int :=
  let need := holdTimeoutSeconds + kPollTimeoutMarginSeconds
  let base := if standardTimeoutSeconds > 0 then standardTimeoutSeconds else 60
  if need > base then need else base

inductive LongpollAction
  | continue_
  | retry
  | terminal
deriving DecidableEq, Repr

def longpollClassifyHttp (rc status : Int) : LongpollAction :=
  if rc ≠ 0 then .retry
  else if status ≥ 400 then
    if status = 408 ∨ status = 429 ∨ status ≥ 500 then .retry else .terminal
  else .continue_

structure LongpollOptions where
  sinceTime : Int
  timeout : Int
  skipCallbackCheck : Bool
deriving DecidableEq, Repr

def LongpollOptions.default : LongpollOptions := ⟨0, 50, false⟩

structure LongpollCallbacks where
  onMatch : Bool
  onNotification : Bool
  onError : Bool
deriving DecidableEq, Repr

inductive LongpollEvent
  | poll (queryKv : List CString) (timeoutSeconds : Int)
  | onMatch (m : CallbackMatch)
  | onNotification (n : CallbackNotification)
  | onError (e : AuddError) (message : CString)
  | sleep (ms : Int)
  | close
deriving DecidableEq, Repr

/-- What one pass of the loop meets.  The handle may be closed, once or repeatedly, during the
request, during a callback, and after the last look at it in the pass. -/
structure Poll where
  fetch : Fetch
  tape : Tape
  closeInRequest : Bool
  closeInCallback : Bool
  closeAfter : Bool

structure LongpollState where
  client : Client
  closed : Bool
  sinceTime : Int
  consecutiveFailures : Int
  backoffMs : Int

def isKeepalive (body : Option CJson) : Bool :=
  match body with
  | none => false
  | some body =>
    if body.hasObjectItem "result" then false
    else if body.hasObjectItem "notification" then false
    else body.hasObjectItem "timeout"

def emitError (cb : LongpollCallbacks) (e : AuddError) (message : CString) : List LongpollEvent :=
  if cb.onError then [.onError e message] else []

def closing (close : Bool) : List LongpollEvent := if close then [.close] else []

def longpollQuery (category : CString) (timeout sinceTime : Int) : List CString :=
  [("category" : CString), category, ("timeout" : CString), decimal timeout] ++
    if sinceTime > 0 then [("since_time" : CString), decimal sinceTime] else []

section

variable (p : Platform) (parse : CString → Option CJson)

/-- The cursor after a response: its numeric top-level timestamp, or else the cursor before. -/
def advanceCursor (json : Option CJson) (sinceTime : Int) : Int :=
  match json.bind (CJson.getObjectItemCaseSensitive · "timestamp") with
  | some (.number ts) => ts.toInt64 p
  | _ => sinceTime

def dispatch (cb : LongpollCallbacks) (resp : HttpResponse) : AllocM (List LongpollEvent) :=
  if resp.body.getD [] = [] ∨ isKeepalive resp.json then pure []
  else do
    let out ← parseCallback p parse resp.body
    if out.err ≠ .ok then pure []
    else pure ((if cb.onMatch then out.outMatch.toList.map .onMatch else []) ++
      if cb.onNotification then out.outNotification.toList.map .onNotification else [])

def terminalError (client : Client) (status : Int) : AllocM Client := do
  let m ← AllocM.copy (("Longpoll endpoint returned HTTP " : CString) ++ decimal status)
  client.setError (m.getD "longpoll http error") 0

def longpollPass (category : CString) (o : LongpollOptions) (cb : LongpollCallbacks)
    (s : LongpollState) (poll : Poll) :
    List LongpollEvent × Pass LongpollState (AuddError × Client) :=
  let request : List LongpollEvent :=
    .poll (longpollQuery category o.timeout s.sinceTime)
      (longpollPollTimeout s.client.options.standardTimeoutSeconds o.timeout) ::
    closing poll.closeInRequest
  let ((rc, resp, client), tape) := (httpGet parse s.client poll.fetch).run poll.tape
  match longpollClassifyHttp rc resp.status with
  | .terminal =>
    let client := ((terminalError client resp.status).run tape).1
    (request ++ emitError cb .server client.errorMessage, .done (.server, client))
  | .retry =>
    let failures := s.consecutiveFailures + 1
    if failures > kMaxConsecutiveFailures then
      let client := ((client.setError "Longpoll gave up after repeated transient failures" 0).run
        tape).1
      (request ++ emitError cb .connection client.errorMessage, .done (.connection, client))
    else
      let notice := request ++ emitError cb .connection client.errorMessage ++
        closing poll.closeInCallback
      if s.closed || poll.closeInRequest || poll.closeInCallback || client.closed then
        (notice, .done (.ok, client))
      else
        (notice ++ [.sleep s.backoffMs] ++ closing poll.closeAfter,
          .next ⟨client, poll.closeAfter, s.sinceTime, failures,
            if s.backoffMs < kBackoffMaxMs / 2 then s.backoffMs * 2 else kBackoffMaxMs⟩)
  | .continue_ =>
    let delivered := ((dispatch p parse cb resp).run tape).1
    (request ++ delivered ++ closing poll.closeInCallback ++ closing poll.closeAfter,
      .next ⟨client, s.closed || poll.closeInRequest || poll.closeInCallback || poll.closeAfter,
        advanceCursor p resp.json s.sinceTime, 0, kBackoffStartMs⟩)

def longpollLoop (category : CString) (o : LongpollOptions) (cb : LongpollCallbacks) :
    GuardedLoop LongpollState Poll LongpollEvent (AuddError × Client) where
  guard s := if s.closed || s.client.closed then some (.ok, s.client) else none
  body := longpollPass p parse category o cb

/-! ### Before the loop -/

/-- What a run meets.  `setup` decides the allocations of the handle and of the URL, and
`closedAtStart` a close between the handle's release to the caller and the loop. -/
structure LongpollEnv where
  preflight : CallEnv
  hint : Tape
  setup : Tape
  closedAtStart : Bool
  polls : List Poll

def noCallbackHint : CString :=
  ("Longpoll won't deliver events because no callback URL is configured for this account. Set " ++
    "one first via audd_streams_set_callback_url(client, url, opts) \xe2\x80\x94 " ++
    "\"https://audd.tech/empty/\" is fine if you only want longpolling and don't need a real " ++
    "receiver. To skip this check, set audd_longpoll_options_t.skip_callback_check = 1." : String)

def preflightCallbackUrl (client : Client) (env : CallEnv) (hint : Tape) : AuddError × Client :=
  let check := complete (streamsGetCallbackUrl parse p true) env client
  if check.error = .ok then (.ok, check.client)
  else if check.client.lastErrorCode = kNoCallbackErrorCode then
    (check.error, ((check.client.setError noCallbackHint kNoCallbackErrorCode).run hint).1)
  else (check.error, check.client)

def longpollPreflight (o : LongpollOptions) (client : Client) (env : LongpollEnv) :
    AuddError × Client :=
  if o.skipCallbackCheck then (.ok, client)
  else preflightCallbackUrl p parse client env.preflight env.hint

/-- A run that ends before its loop, or its loop. -/
inductive LongpollRun
  | stopped (e : AuddError) (client : Client) (events : List LongpollEvent)
  | looped (run : GuardedLoop.Run LongpollState Poll LongpollEvent (AuddError × Client))

def longpollOptions (options : Option LongpollOptions) : LongpollOptions :=
  let o := options.getD .default
  if o.timeout ≤ 0 then { o with timeout := 50 } else o

def longpollStart (client : Client) (o : LongpollOptions) (closed : Bool) : LongpollState :=
  ⟨client, closed, o.sinceTime, 0, kBackoffStartMs⟩

def longpollRun (client : Client) (category : Option CString) (options : Option LongpollOptions)
    (callbacks : Option LongpollCallbacks) (env : LongpollEnv) : LongpollRun :=
  match category, callbacks with
  | some category, some cb =>
    let o := longpollOptions options
    let (pe, client) := longpollPreflight p parse o client env
    if pe ≠ .ok then .stopped pe client (emitError cb pe client.errorMessage)
    else if !env.setup 0 then .stopped .outOfMemory client []
    else if !env.setup 1 then .stopped .outOfMemory client []
    else .looped ((longpollLoop p parse category o cb).run
      (longpollStart client o env.closedAtStart) env.polls)
  | _, _ => .stopped .invalidArgument client []

end

end Audd
