import Audd.Advanced
import Audd.CustomCatalog
import Audd.LastError
import Audd.Streams

/-! The request calls of the client, as one type: a `Call` is an entry point with its arguments, and
every one of them runs as a preparation, the attempts of one kind, and the reading of a response. -/

namespace Audd

inductive Call
  | recognize (source : Option CString) (options : Option RecognizeOptions) (hasOut : Bool)
  | recognizeBytes (data : Option CString) (options : Option RecognizeOptions) (hasOut : Bool)
  | recognizeEnterprise (source : Option CString) (options : Option EnterpriseOptions)
      (hasOut : Bool)
  | recognizeEnterpriseBytes (data : Option CString) (options : Option EnterpriseOptions)
      (hasOut : Bool)
  | catalogAdd (audioId : Int) (source : Option CString)
  | catalogAddBytes (audioId : Int) (data : Option CString)
  | setCallbackUrl (url : Option CString) (options : Option SetCallbackUrlOptions)
  | getCallbackUrl (hasOut : Bool)
  | add (req : Option AddStreamRequest)
  | setUrl (radioId : Int) (url : Option CString)
  | delete (radioId : Int)
  | list (hasOut : Bool)
  | findLyrics (query : Option CString) (hasOut : Bool)
  | rawRequest (method : Option CString) (paramsKv : Option (List CString)) (hasOut : Bool)
deriving DecidableEq, Repr

def Request.forget {ρ : Type} (r : Request ρ) : Request Unit where
  cls := r.cls
  post := r.post
  finish client resp := do
    let (e, client, _) ← r.finish client resp
    pure (e, client, none)

def Prepared.forget {ρ : Type} : Prepared ρ → Prepared Unit
  | .refused e client => .refused e client
  | .request client r => .request client r.forget

/-- What the calls are linked with: the JSON parser, the platform, the file system, and the parsers
of a recognition and of an enterprise result. -/
structure Linked (ρ ε : Type) where
  parse : CString → Option CJson
  platform : Platform
  fileExists : CString → Bool
  recognitionFromJson : CJson → AllocM (Option ρ)
  enterpriseFromJson : Option CJson → AllocM (Option ε)

section

variable {ρ ε : Type} (linked : Linked ρ ε)

/-- The preparation of a call; what it would return besides its status is given up. -/
def Call.prepare (call : Call) (client : Client) : AllocM (Prepared Unit) :=
  let ⟨parse, p, fileExists, recognitionFromJson, enterpriseFromJson⟩ := linked
  match call with
  | .recognize source options hasOut => do
    pure (← recognizeWith parse p fileExists (standardResult recognitionFromJson)
      (.standard options) source hasOut client).forget
  | .recognizeBytes data options hasOut => do
    pure (← recognizeBytesWith parse p fileExists (standardResult recognitionFromJson)
      (.standard options) data hasOut client).forget
  | .recognizeEnterprise source options hasOut => do
    pure (← recognizeWith parse p fileExists (enterpriseResult enterpriseFromJson)
      (.enterprise options) source hasOut client).forget
  | .recognizeEnterpriseBytes data options hasOut => do
    pure (← recognizeBytesWith parse p fileExists (enterpriseResult enterpriseFromJson)
      (.enterprise options) data hasOut client).forget
  | .catalogAdd audioId source => do
    pure (← customCatalogAdd parse p fileExists audioId source client).forget
  | .catalogAddBytes audioId data => do
    pure (← customCatalogAddBytes parse p audioId data client).forget
  | .setCallbackUrl url options => do
    pure (← streamsSetCallbackUrl parse p url options client).forget
  | .getCallbackUrl hasOut => do
    pure (← streamsGetCallbackUrl parse p hasOut client).forget
  | .add req => do pure (← streamsAdd parse p req client).forget
  | .setUrl radioId url => do pure (← streamsSetUrl parse p radioId url client).forget
  | .delete radioId => do pure (← streamsDelete parse p radioId client).forget
  | .list hasOut => do pure (← streamsList parse p hasOut client).forget
  | .findLyrics query hasOut => do
    pure (← advancedFindLyrics parse p query hasOut client).forget
  | .rawRequest method paramsKv hasOut => do
    pure (← advancedRawRequest parse method paramsKv hasOut client).forget

def Call.run (call : Call) (env : CallEnv) (client : Client) : Completed Unit :=
  complete (call.prepare linked) env client

end

def Call.cls : Call → RetryClass
  | recognize .. | recognizeBytes .. | recognizeEnterprise .. | recognizeEnterpriseBytes ..
  | findLyrics .. | rawRequest .. => .recognition
  | catalogAdd .. | catalogAddBytes .. => .none
  | setCallbackUrl .. | add .. | setUrl .. | delete .. => .mutating
  | getCallbackUrl .. | list .. => .read

/-! ### Attempts -/

/-- The three attempt functions, with the data of their context that they send. -/
inductive AttemptKind
  | recognize (ctx : RecognizeCtx)
  | catalog (audioId : Int) (source : FileSource)
  | printed (url : CString) (fields : Option (List CString))

namespace AttemptKind

variable (parse : CString → Option CJson)

def post : AttemptKind → Client → Transfer → AllocM Posted
  | recognize ctx => recognizeAttempt parse ctx
  | catalog audioId source => catalogAttempt parse audioId source
  | printed url fields => printedAttempt parse url fields

def form : AttemptKind → HttpForm
  | recognize ctx => recognizeForm ctx
  | catalog audioId source => catalogForm audioId source
  | printed _ fields => ⟨fields, none⟩

/-- Whether an attempt goes on to its transfer: one allocation, for the fields or for the URL, comes
first in the attempts that build either. -/
def fed : AttemptKind → Tape → Bool
  | catalog .. => fun _ => true
  | recognize _ | printed .. => fun tape => tape 0

/-- What the allocations of the transfer are, the token's first. -/
def rest : AttemptKind → Tape → Tape
  | catalog .. => id
  | recognize _ | printed .. => fun tape n => tape (n + 1)

/-- An attempt without memory fails like one without a handle. -/
def comesTo (kind : AttemptKind) (e : AttemptEnv) : Transfer :=
  if kind.fed e.tape then e.transfer else .noHandle

/-- The attempts that fail without memory and record nothing. -/
def silent : AttemptKind → Bool
  | printed .. => true
  | recognize _ | catalog .. => false

variable (kind : AttemptKind) {e : AttemptEnv} {c : Client}

theorem post_fed (h : kind.fed e.tape = true) : ∃ url timeout,
    ((kind.post parse c e.transfer).run e.tape).1 =
      ((httpPost parse c url kind.form timeout e.transfer).run (kind.rest e.tape)).1 := by
  cases kind with
  | recognize ctx =>
    refine ⟨recognizeEndpoint ctx, recognizeTimeout ctx c.options, ?_⟩
    have hgranted : e.tape 0 = true := h
    rw [post, recognizeAttempt, AllocM.run_bind, AllocM.run_copy, hgranted]
    rfl
  | catalog audioId source => exact ⟨_, _, rfl⟩
  | printed url fields =>
    refine ⟨url, c.options.standardTimeoutSeconds, ?_⟩
    have hgranted : e.tape 0 = true := h
    rw [post, printedAttempt_run, hgranted]
    rfl

theorem post_fed_spec (h : kind.fed e.tape = true) :
    let posted := ((kind.post parse c e.transfer).run e.tape).1
    posted.attempt.report = e.transfer.report ∧ posted.attempt.resp.Brought parse e.transfer ∧
      ∃ message rid, posted.client = if e.transfer.report.1 = 0 then { c with lastRequestId := rid }
        else { c with lastErrorMessage := message, lastErrorCode := 0 } := by
  obtain ⟨url, timeout, hpost⟩ := kind.post_fed parse (c := c) h
  rw [hpost]
  exact (httpPost_spec parse c url kind.form timeout e.transfer).run (kind.rest e.tape)

/-- An attempt without memory hands nothing over, and records an error unless it is silent. -/
theorem post_unfed (h : kind.fed e.tape = false) :
    let posted := ((kind.post parse c e.transfer).run e.tape).1
    posted.attempt = ⟨-1, .zero, 1⟩ ∧ posted.request = none ∧ ∃ message, posted.client =
      if kind.silent then c else { c with lastErrorMessage := message, lastErrorCode := 0 } := by
  cases kind with
  | recognize ctx =>
    have hrefused : e.tape 0 = false := h
    simp only [post, recognizeAttempt, AllocM.run_bind, AllocM.run_copy, hrefused]
    exact ⟨rfl, rfl, _, rfl⟩
  | catalog audioId source => cases h
  | printed url fields =>
    have hrefused : e.tape 0 = false := h
    simp only [post, printedAttempt_run, hrefused]
    exact ⟨rfl, rfl, none, rfl⟩

theorem post_client (env : Nat → AttemptEnv) (n : Nat) (c : Client) : ∃ message code rid,
    (posts env (kind.post parse) n c).client =
      { c with lastErrorMessage := message, lastErrorCode := code, lastRequestId := rid } := by
  unfold posts
  cases hfed : kind.fed (env n).tape with
  | true =>
    obtain ⟨-, -, message, rid, hclient⟩ := kind.post_fed_spec parse (c := c) hfed
    rw [hclient]
    split
    · exact ⟨_, _, rid, rfl⟩
    · exact ⟨message, 0, _, rfl⟩
  | false =>
    obtain ⟨-, -, message, hclient⟩ := kind.post_unfed parse (c := c) hfed
    rw [hclient]
    split
    · exact ⟨_, _, _, rfl⟩
    · exact ⟨message, 0, _, rfl⟩

theorem post_faithful (env : Nat → AttemptEnv) :
    Faithful parse (fun n => kind.comesTo (env n)) (posts env (kind.post parse)) := by
  have hattempt : ∀ n c,
      (posts env (kind.post parse) n c).attempt.report = (kind.comesTo (env n)).report ∧
      (posts env (kind.post parse) n c).attempt.resp.Brought parse (kind.comesTo (env n)) := by
    intro n c
    unfold posts comesTo
    cases hfed : kind.fed (env n).tape with
    | true =>
      obtain ⟨hreport, hbrought, -⟩ := kind.post_fed_spec parse (c := c) hfed
      rw [if_pos rfl]
      exact ⟨hreport, hbrought⟩
    | false =>
      rw [(kind.post_unfed parse (c := c) hfed).1]
      exact ⟨rfl, zero_brought parse rfl⟩
  refine ⟨fun n c => (hattempt n c).1, fun n c => (hattempt n c).2, fun n c => ?_⟩
  obtain ⟨message, code, rid, hclient⟩ := kind.post_client parse env n c
  rw [hclient]

/-- The token that an attempt sends: the client's, or none where its copy is not allocated. -/
def sends (kind : AttemptKind) (e : AttemptEnv) (apiToken : Option CString) : Option CString :=
  if kind.rest e.tape 0 then apiToken else none

theorem post_request (env : Nat → AttemptEnv) (n : Nat) (c : Client) :
    ((posts env (kind.post parse) n c).request.map HttpRequest.parts) =
      if kind.comesTo (env n) = .noHandle then none
      else some (mimeParts (kind.sends (env n) c.apiToken) kind.form) := by
  unfold posts comesTo
  cases hfed : kind.fed (env n).tape with
  | true =>
    obtain ⟨url, timeout, hpost⟩ := kind.post_fed parse (c := c) hfed
    rw [hpost, httpPost_request]
    cases (env n).transfer <;> rfl
  | false =>
    rw [(kind.post_unfed parse (c := c) hfed).2.1]
    rfl

/-- The attempt leaves the last-error code as it was: it gets a response, or fails in silence. -/
def Keeps (kind : AttemptKind) (e : AttemptEnv) : Prop :=
  (kind.comesTo e).report.1 = 0 ∨ (kind.silent = true ∧ kind.fed e.tape = false)

theorem post_code (env : Nat → AttemptEnv) (n : Nat) (c : Client) :
    let code := (posts env (kind.post parse) n c).client.lastErrorCode
    (kind.Keeps (env n) → code = c.lastErrorCode) ∧ (¬kind.Keeps (env n) → code = 0) := by
  unfold posts Keeps comesTo
  cases hfed : kind.fed (env n).tape with
  | true =>
    obtain ⟨-, -, message, rid, hclient⟩ := kind.post_fed_spec parse (c := c) hfed
    rw [if_pos rfl, hclient]
    by_cases hreport : (env n).transfer.report.1 = 0 <;> simp [hreport]
  | false =>
    obtain ⟨-, -, message, hclient⟩ := kind.post_unfed parse (c := c) hfed
    rw [hclient]
    cases kind.silent <;> simp [Transfer.report]

end AttemptKind

/-! ### Reading the response -/

section

variable (parse : CString → Option CJson) (p : Platform)

theorem forget_settles {ρ : Type} {r : Request ρ} (h : r.Settles parse) :
    r.forget.Settles parse := by
  intro client resp t hbrought
  show (r.finish client resp >>= _).Every _
  exact (h client resp t hbrought).bind fun out hout => hout

theorem streamsPost_settles {ρ : Type} (path : CString) (fields : List CString) (cls : RetryClass)
    (read : Option CJson → AllocM (AuddError × Option ρ)) :
    (streamsPost parse p path fields cls read).Settles parse := by
  intro client resp t hbrought
  apply (decodeOrRaise_settled p hbrought client false).bind
  intro out hout
  dsimp only
  split
  · exact hout
  · rename_i hok
    have hread : ∀ result, (read result >>= fun r =>
        (pure (r.1, out.2.1, r.2) : AllocM (AuddError × Client × Option ρ))).Every fun r =>
          Settled (SaysError parse t.body) r.1 r.2.1 := by
      intro result
      exact AllocM.every_bind_of_forall fun _ => Client.ErrorFree.settled (hout.1 (not_not.mp hok))
    split
    · exact AllocM.every_bind_of_forall hread
    · exact hread none

theorem streamsCommand_settles (path : CString) (fields : List CString) (cls : RetryClass) :
    (streamsCommand parse p path fields cls).Settles parse :=
  fun client _ _ hbrought => (decodeOrRaise_settled p hbrought client false).bind fun _ hout => hout

theorem catalogRequest_settles (audioId : Int) (source : FileSource) :
    (catalogRequest parse p audioId source).Settles parse :=
  fun client _ _ hbrought => (decodeOrRaise_settled p hbrought client true).bind fun _ hout => hout

theorem finishRecognize_settles {ρ : Type} (ctx : RecognizeCtx)
    (fromJson : Option CJson → AllocM (Option (Option ρ))) :
    Request.Settles parse
      ⟨.recognition, recognizeAttempt parse ctx, finishRecognize p fromJson⟩ := by
  have hmemory : AuddError.outOfMemory ≠ .ok := by decide
  intro client resp t hbrought
  apply (decodeOrRaise_settled p hbrought client false).bind
  intro out hout
  dsimp only
  split
  · exact hout
  · rename_i hok
    apply AllocM.every_bind_of_forall
    intro result
    cases result with
    | none =>
      rw [AllocM.every_bind, Client.setError_every]
      exact ⟨settled_of_code_zero hmemory rfl, settled_of_code_zero hmemory rfl⟩
    | some result => exact Client.ErrorFree.settled (hout.1 (not_not.mp hok))

theorem lyricsRequest_settles (query : CString) : (lyricsRequest parse p query).Settles parse := by
  intro client resp t hbrought
  apply (decodeOrRaise_settled p hbrought client false).bind
  intro out hout
  dsimp only
  split
  · exact hout
  · rename_i hok
    exact AllocM.every_bind_of_forall fun _ => Client.ErrorFree.settled (hout.1 (not_not.mp hok))

theorem rawRequest_settles (method : CString) (paramsKv : Option (List CString)) :
    (rawRequest parse method paramsKv).Settles parse := by
  intro client resp t hbrought
  show (decodeTopLevel client resp >>= _).Every _
  have hdecoded : (decodeTopLevel client resp).Every fun out =>
      Settled (SaysError parse t.body) out.1 out.2 := decodeTopLevel_settled client resp
  apply hdecoded.bind
  intro out hout
  dsimp only
  split
  · exact hout
  · rename_i hok
    have hfree := hout.1 (not_not.mp hok)
    split
    · exact Client.ErrorFree.settled hfree
    · rw [AllocM.every_bind, AllocM.every_copy]
      exact ⟨Client.ErrorFree.settled hfree, Client.ErrorFree.settled hfree⟩

end

/-! ### Before the first attempt -/

/-- What becomes of a call before its first attempt: it is refused in silence, refused with an error
recorded, or let through. -/
inductive Gate
  | silent
  | recorded
  | through
deriving DecidableEq, Repr

/-- The gate of a call that asks for arguments and for nothing else. -/
def Gate.ofArguments (present : Bool) : Gate := if present then .through else .silent

def hasBytes (data : Option CString) : Bool := data.any (· ≠ [])

section

variable {ρ ε : Type} (linked : Linked ρ ε)

def sourceGate (source : Option CString) : Gate :=
  match source with
  | some source => if urlIsHttp source || linked.fileExists source then .through else .recorded
  | none => .recorded

def Call.gate (call : Call) (tape : Tape) : Gate :=
  match call with
  | .recognize source _ hasOut | .recognizeEnterprise source _ hasOut =>
    if hasOut then sourceGate linked source else .silent
  | .recognizeBytes data _ hasOut | .recognizeEnterpriseBytes data _ hasOut =>
    .ofArguments (hasOut && hasBytes data)
  | .catalogAdd _ none => .silent
  | .catalogAdd _ (some source) => if linked.fileExists source then .through else .recorded
  | .catalogAddBytes _ data => .ofArguments (hasBytes data)
  | .setCallbackUrl none _ => .silent
  | .setCallbackUrl (some url) options =>
    match (urlAppendReturn url (options.bind SetCallbackUrlOptions.returnMetadata)).run tape with
    | (.error .invalidArgument, _) => .recorded
    | (.error _, _) => .silent
    | (.ok _, tape) => .ofArguments (tape 0)
  | .getCallbackUrl hasOut | .list hasOut => .ofArguments hasOut
  | .add req => .ofArguments ((req.bind AddStreamRequest.url).isSome && tape 0)
  | .setUrl _ url => .ofArguments url.isSome
  | .delete _ => .through
  | .findLyrics query hasOut => .ofArguments (query.isSome && hasOut)
  | .rawRequest method _ hasOut => .ofArguments (method.isSome && hasOut)

def Call.printsUrl : Call → Bool
  | recognize .. | recognizeBytes .. | recognizeEnterprise .. | recognizeEnterpriseBytes ..
  | catalogAdd .. | catalogAddBytes .. => false
  | setCallbackUrl .. | getCallbackUrl .. | add .. | setUrl .. | delete .. | list ..
  | findLyrics .. | rawRequest .. => true

/-- What a preparation comes to at each gate. -/
inductive Prepares (call : Call) (client : Client) : Gate → Prepared Unit → Prop
  | silent (e : AuddError) : e ≠ .ok → Prepares call client .silent (.refused e client)
  | recorded (e : AuddError) (client' : Client) : e ≠ .ok → client'.lastErrorCode = 0 →
      Prepares call client .recorded (.refused e client')
  | through (client' : Client) (r : Request Unit) (kind : AttemptKind) :
      client' = client ∨ (kind.silent = false ∧ client' = client.clearError) →
      r.cls = call.cls → r.post = kind.post linked.parse → kind.silent = call.printsUrl →
      r.Settles linked.parse → Prepares call client .through (.request client' r)

theorem run_forget {τ : Type} (x : AllocM (Prepared τ)) (tape : Tape) :
    ((do pure (← x).forget : AllocM (Prepared Unit)).run tape).1 = (x.run tape).1.forget := by
  rw [AllocM.run_bind]
  rfl

theorem doRecognizeCommon_prepares {τ : Type} (call : Call) (client : Client)
    (hcls : call.cls = .recognition) (hprints : call.printsUrl = false)
    (fromJson : Option CJson → AllocM (Option (Option τ))) (kind : RecognizeKind)
    (source bytes : Option CString) (tape : Tape) :
    Prepares linked call client (if bytes.isSome then .through else sourceGate linked source)
      ((doRecognizeCommon linked.parse linked.platform linked.fileExists fromJson kind source bytes
        client).run tape).1.forget := by
  have hargument : AuddError.invalidArgument ≠ .ok := by decide
  have hrequest : ∀ ctx, Prepares linked call client .through (Prepared.forget
      (doRecognizeCommon.request linked.parse linked.platform fromJson client.clearError ctx)) :=
    fun ctx => .through _ _ (.recognize ctx) (.inr ⟨rfl, rfl⟩) hcls.symm rfl hprints.symm
      (forget_settles linked.parse (finishRecognize_settles linked.parse linked.platform ctx _))
  rw [doRecognizeCommon, AllocM.run_bind]
  cases bytes with
  | some data => exact hrequest _
  | none =>
    cases source with
    | none => exact .recorded _ _ hargument rfl
    | some source =>
      rw [Option.isSome_none, if_neg Bool.false_ne_true, sourceGate]
      by_cases hhttp : urlIsHttp source = true
      · simp only [hhttp, Bool.true_or, if_true]
        exact hrequest _
      · by_cases hfile : linked.fileExists source = true
        · simp only [hhttp, hfile, Bool.or_true, if_true]
          exact hrequest _
        · simp only [hhttp, hfile, Bool.or_self]
          exact .recorded _ _ hargument rfl

theorem recognizeWith_prepares {τ : Type} (call : Call) (client : Client)
    (hcls : call.cls = .recognition) (hprints : call.printsUrl = false)
    (fromJson : Option CJson → AllocM (Option (Option τ))) (kind : RecognizeKind)
    (source : Option CString) (hasOut : Bool) (tape : Tape) :
    Prepares linked call client (if hasOut then sourceGate linked source else .silent)
      ((recognizeWith linked.parse linked.platform linked.fileExists fromJson kind source hasOut
        client).run tape).1.forget := by
  cases hasOut with
  | false => exact .silent _ (by decide)
  | true =>
    exact doRecognizeCommon_prepares linked call client hcls hprints fromJson kind source none tape

theorem recognizeBytesWith_prepares {τ : Type} (call : Call) (client : Client)
    (hcls : call.cls = .recognition) (hprints : call.printsUrl = false)
    (fromJson : Option CJson → AllocM (Option (Option τ))) (kind : RecognizeKind)
    (data : Option CString) (hasOut : Bool) (tape : Tape) :
    Prepares linked call client (.ofArguments (hasOut && hasBytes data))
      ((recognizeBytesWith linked.parse linked.platform linked.fileExists fromJson kind data hasOut
        client).run tape).1.forget := by
  have hsilent : ∀ e, e ≠ AuddError.ok → Prepares linked call client .silent (.refused e client) :=
    fun e he => .silent e he
  cases hasOut with
  | false => exact hsilent _ (by decide)
  | true =>
    rcases data with _ | _ | ⟨b, data⟩
    · exact hsilent _ (by decide)
    · exact hsilent _ (by decide)
    · exact doRecognizeCommon_prepares linked call client hcls hprints fromJson kind none
        (some (b :: data)) tape

theorem printed_prepares {τ : Type} {call : Call} (client : Client) {r : Request τ} {url : CString}
    {fields : Option (List CString)} (hprints : call.printsUrl = true)
    (hcls : r.cls = call.cls) (hpost : r.post = printedAttempt linked.parse url fields)
    (hsettles : r.Settles linked.parse) :
    Prepares linked call client .through (.request client r.forget) :=
  .through client r.forget (.printed url fields) (.inl rfl) hcls hpost hprints.symm
    (forget_settles linked.parse hsettles)

theorem streamsSetCallbackUrl_prepares (client : Client) (url : Option CString)
    (options : Option SetCallbackUrlOptions) (tape : Tape) :
    Prepares linked (.setCallbackUrl url options) client
      ((Call.setCallbackUrl url options).gate linked tape)
      ((streamsSetCallbackUrl linked.parse linked.platform url options client).run
        tape).1.forget := by
  cases url with
  | none => exact .silent _ (by decide)
  | some url =>
    rw [streamsSetCallbackUrl, AllocM.run_bind, Call.gate]
    have herror := (urlAppendReturn_every url
      (options.bind SetCallbackUrlOptions.returnMetadata)).run tape
    generalize (urlAppendReturn url (options.bind SetCallbackUrlOptions.returnMetadata)).run tape =
      returned at herror
    obtain ⟨e | finalUrl, rest⟩ := returned
    · rcases herror e rfl with rfl | rfl
      · exact .recorded _ _ (by decide) rfl
      · exact .silent _ (by decide)
    · dsimp only
      rw [AllocM.run_bind, AllocM.run_copy]
      cases rest 0 with
      | false => exact .silent _ (by decide)
      | true =>
        exact printed_prepares linked client rfl rfl rfl
          (streamsCommand_settles linked.parse linked.platform _ _ _)

/-- The preparation of every call does what its gate says. -/
theorem Call.prepares (call : Call) (client : Client) (tape : Tape) :
    Prepares linked call client (call.gate linked tape)
      ((call.prepare linked client).run tape).1 := by
  have hargument : AuddError.invalidArgument ≠ .ok := by decide
  have hsilent : ∀ call : Call,
      Prepares linked call client .silent (.refused .invalidArgument client) :=
    fun call => .silent _ hargument
  cases call with
  | recognize source options hasOut =>
    rw [Call.prepare, run_forget]
    exact recognizeWith_prepares linked _ client rfl rfl _ _ source hasOut tape
  | recognizeBytes data options hasOut =>
    rw [Call.prepare, run_forget]
    exact recognizeBytesWith_prepares linked _ client rfl rfl _ _ data hasOut tape
  | recognizeEnterprise source options hasOut =>
    rw [Call.prepare, run_forget]
    exact recognizeWith_prepares linked _ client rfl rfl _ _ source hasOut tape
  | recognizeEnterpriseBytes data options hasOut =>
    rw [Call.prepare, run_forget]
    exact recognizeBytesWith_prepares linked _ client rfl rfl _ _ data hasOut tape
  | catalogAdd audioId source =>
    rw [Call.prepare, run_forget]
    cases source with
    | none => exact hsilent _
    | some source =>
      rw [Call.gate, customCatalogAdd]
      cases linked.fileExists source with
      | false => exact .recorded _ _ hargument rfl
      | true =>
        exact .through _ _ (.catalog audioId (.path source)) (.inl rfl) rfl rfl rfl
          (forget_settles _ (catalogRequest_settles linked.parse linked.platform _ _))
  | catalogAddBytes audioId data =>
    rw [Call.prepare, run_forget]
    rcases data with _ | _ | ⟨b, data⟩
    · exact hsilent _
    · exact hsilent _
    · exact .through _ _ (.catalog audioId (.bytes (b :: data))) (.inl rfl) rfl rfl rfl
        (forget_settles _ (catalogRequest_settles linked.parse linked.platform _ _))
  | setCallbackUrl url options =>
    rw [Call.prepare, run_forget]
    exact streamsSetCallbackUrl_prepares linked client url options tape
  | getCallbackUrl hasOut =>
    rw [Call.prepare, run_forget]
    cases hasOut with
    | false => exact hsilent _
    | true =>
      exact printed_prepares linked client rfl rfl rfl
        (streamsPost_settles linked.parse linked.platform _ _ _ _)
  | add req =>
    rw [Call.prepare, run_forget]
    rcases req with _ | ⟨_ | url, radioId, callbacks, extras⟩
    · exact hsilent _
    · exact hsilent _
    · rw [streamsAdd, AllocM.run_bind, AllocM.run_copy, Call.gate]
      cases tape 0 with
      | false => exact .silent _ (by decide)
      | true =>
        exact printed_prepares linked client rfl rfl rfl
          (streamsCommand_settles linked.parse linked.platform _ _ _)
  | setUrl radioId url =>
    rw [Call.prepare, run_forget]
    cases url with
    | none => exact hsilent _
    | some url =>
      exact printed_prepares linked client rfl rfl rfl
        (streamsCommand_settles linked.parse linked.platform _ _ _)
  | delete radioId =>
    rw [Call.prepare, run_forget]
    exact printed_prepares linked client rfl rfl rfl
      (streamsCommand_settles linked.parse linked.platform _ _ _)
  | list hasOut =>
    rw [Call.prepare, run_forget]
    cases hasOut with
    | false => exact hsilent _
    | true =>
      exact printed_prepares linked client rfl rfl rfl
        (streamsPost_settles linked.parse linked.platform _ _ _ _)
  | findLyrics query hasOut =>
    rw [Call.prepare, run_forget]
    rcases query with _ | query <;> cases hasOut
    · exact hsilent _
    · exact hsilent _
    · exact hsilent _
    · exact printed_prepares linked client rfl rfl rfl
        (lyricsRequest_settles linked.parse linked.platform query)
  | rawRequest method paramsKv hasOut =>
    rw [Call.prepare, run_forget]
    rcases method with _ | method <;> cases hasOut
    · exact hsilent _
    · exact hsilent _
    · exact hsilent _
    · exact printed_prepares linked client rfl rfl rfl
        (rawRequest_settles linked.parse method paramsKv)

/-- A request that a call prepares makes attempts of one kind, for the client as it was given or
cleared of its error. -/
theorem Call.request_kind {call : Call} {client client' : Client} {tape : Tape} {r : Request Unit}
    (h : ((call.prepare linked client).run tape).1 = .request client' r) :
    ∃ kind : AttemptKind, r.post = kind.post linked.parse ∧
      (client' = client ∨ client' = client.clearError) := by
  have hprepares := call.prepares linked client tape
  rw [h] at hprepares
  generalize call.gate linked tape = gate at hprepares
  cases hprepares with
  | through _ _ kind hclient _ hpost _ _ => exact ⟨kind, hpost, hclient.imp_right And.right⟩

end

end Audd
