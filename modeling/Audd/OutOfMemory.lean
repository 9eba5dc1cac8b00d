import Audd.Calls
import Audd.Enterprise
import Audd.Recognition

/-! Out of memory as the answer of a recognition call whose memory is all granted.  The parser of a
standard result gives NULL both without memory and for a result that is no object, and the call
tells the two apart only where the result is missing or null. -/

namespace Audd

/-- The calls linked with their own parsers. -/
def linkedWith (parse : CString → Option CJson) (p : Platform) (fileExists : CString → Bool) :
    Linked Recognition EnterpriseResult :=
  ⟨parse, p, fileExists, recognitionFromJson p, enterpriseFromJson p⟩

def CallEnv.Plenty (env : CallEnv) : Prop :=
  env.prep = plenty ∧ (∀ n, (env.attempts n).tape = plenty) ∧ env.after = plenty

/-- The four recognition calls, and whether the result is a standard one. -/
def Call.recognizes : Call → Option Bool
  | .recognize .. | .recognizeBytes .. => some true
  | .recognizeEnterprise .. | .recognizeEnterpriseBytes .. => some false
  | _ => none

/-- The body is a success once decoded, with a result that is neither null nor an object. -/
def CJson.UnusableResult (p : Platform) (body : CJson) : Prop :=
  (maybeWarnAndStrip p body).ok.statusStr = ("success" : CString) ∧
    ∃ result, body.getObjectItemCaseSensitive "result" = some result ∧
      result.isNull = false ∧ result.isObject = false

/-- The JSON that a transfer brings. -/
def Transfer.json (parse : CString → Option CJson) (t : Transfer) : Option CJson :=
  match t.body with
  | none | some [] => none
  | some text => parse text

section

variable {p : Platform}

/-! ### Decoding a response -/

theorem sentinelForCode_ne_outOfMemory (code : Int) : sentinelForCode code ≠ .outOfMemory := by
  unfold sentinelForCode
  split_ifs <;> decide

theorem verdict_ne_outOfMemory (p : Platform) (customCatalogContext : Bool) (body : CJson) :
    (verdict p customCatalogContext body).1 ≠ .outOfMemory := by
  unfold verdict
  split
  · decide
  · split
    · dsimp only
      split
      · decide
      · exact sentinelForCode_ne_outOfMemory _
    · decide

theorem get_result_strip (body : CJson) :
    (maybeWarnAndStrip p body).ok.getObjectItemCaseSensitive "result" =
      body.getObjectItemCaseSensitive "result" := by
  by_cases hd : body.Deprecated p
  · rw [maybeWarnAndStrip_of_deprecated hd, CJson.stripped, CJson.get_addString_ne _ (by decide),
      CJson.get_deleteItem_ne _ (by decide), CJson.get_deleteItem_ne _ (by decide)]
  · rw [maybeWarnAndStrip_of_not hd]

theorem finishRecognize_outOfMemory_iff {ρ : Type}
    (fromJson : Option CJson → AllocM (Option (Option ρ))) (client : Client)
    (resp : HttpResponse) :
    (finishRecognize p fromJson client resp).ok.1 = .outOfMemory ↔
      ∃ body, resp.json = some body ∧
        (maybeWarnAndStrip p body).ok.statusStr = ("success" : CString) ∧
        (fromJson (body.getObjectItemCaseSensitive "result")).ok = none := by
  rw [finishRecognize, AllocM.ok_bind]
  dsimp only
  cases hjson : resp.json with
  | none =>
    obtain ⟨herr, hok, -⟩ := decodeOrRaise_nonJson (p := p) client hjson false
    rw [if_pos hok]
    refine iff_of_false ?_ (by simp)
    rw [AllocM.ok_pure, herr]
    split <;> decide
  | some body =>
    by_cases hs : (maybeWarnAndStrip p body).ok.statusStr = ("success" : CString)
    · have hdecoded : (decodeOrRaise p client resp false).ok =
          (.ok, client.clearError, { resp with json := some (maybeWarnAndStrip p body).ok }) := by
        rw [decodeOrRaise, hjson]
        simp only [AllocM.ok_bind, classify, if_pos hs, AllocM.ok_pure]
      rw [hdecoded]
      dsimp only
      rw [if_neg (by decide), AllocM.ok_bind]
      simp only [Option.bind_some, get_result_strip]
      cases hresult : (fromJson (body.getObjectItemCaseSensitive "result")).ok with
      | none => exact iff_of_true rfl ⟨body, rfl, hs, hresult⟩
      | some out =>
        refine iff_of_false (by decide : AuddError.ok ≠ .outOfMemory) ?_
        rintro ⟨_, ⟨⟩, -, h⟩
        rw [hresult] at h
        cases h
    · obtain ⟨herr, -⟩ := decodeOrRaise_json (p := p) client hjson false
      have hrefused : (decodeOrRaise p client resp false).ok.1 ≠ .ok := by
        rw [herr, Ne, verdict_ok_iff]
        exact hs
      rw [if_pos hrefused, AllocM.ok_pure]
      refine iff_of_false ?_ ?_
      · rw [herr]
        exact verdict_ne_outOfMemory p false _
      · rintro ⟨_, ⟨⟩, h, -⟩
        exact hs h

/-! ### The parsers of a result -/

theorem recognitionFromJson_isSome (result : CJson) :
    (recognitionFromJson p result).ok.isSome = result.isObject := by
  cases result with
  | object members => rw [recognitionFromJson_ok]; rfl
  | _ => rfl

theorem enterpriseFromJson_isSome (result : Option CJson) :
    (enterpriseFromJson p result).ok.isSome = true := by
  unfold enterpriseFromJson
  rw [AllocM.ok_bind, AllocM.ok_copy]
  dsimp only
  split
  · split
    · rfl
    · rw [AllocM.ok_bind, AllocM.ok_copy, AllocM.ok_bind, AllocM.ok_pure, Option.isSome_some]
  · rfl

theorem standardResult_eq_none_iff (result : Option CJson) :
    (standardResult (recognitionFromJson p) result).ok = none ↔
      ∃ json, result = some json ∧ json.isNull = false ∧ json.isObject = false := by
  have hparsed : ∀ json : CJson, ((recognitionFromJson p json).ok.map some = none) ↔
      json.isObject = false := by
    intro json
    rw [Option.map_eq_none_iff, ← recognitionFromJson_isSome (p := p),
      ← Option.not_isSome_iff_eq_none, Bool.not_eq_true]
  unfold standardResult
  split
  · exact iff_of_false (by simp) (by simp)
  · exact iff_of_false (by simp) (by simp [CJson.isNull])
  · rename_i json hjson
    have hnull : json.isNull = false := by
      cases json <;> first | rfl | exact absurd rfl hjson
    rw [AllocM.ok_bind, AllocM.ok_pure, hparsed]
    simp [hnull]

/-! ### Calls -/

theorem httpPost_json {parse : CString → Option CJson} (client : Client) (url : CString)
    (form : HttpForm) (timeout : Int) (t : Transfer) :
    (httpPost parse client url form timeout t).ok.attempt.resp.json = t.json parse := by
  cases t with
  | noHandle => rfl
  | performed perform =>
    rw [httpPost, AllocM.ok_bind]
    by_cases hok : perform.code = .ok
    · rw [if_neg (not_not.mpr hok), AllocM.ok_bind, received, AllocM.ok_bind, AllocM.ok_bind]
      simp only [AllocM.ok_pure, Transfer.json, Transfer.body, hok, if_true]
      rcases perform.body with _ | _ | ⟨c, text⟩
      · rfl
      · rfl
      · simp [tryParseJson]
    · rw [if_pos hok, AllocM.ok_bind]
      simp [Transfer.json, Transfer.body, hok, HttpResponse.zero]

theorem report_of_json {parse : CString → Option CJson} {t : Transfer} {body : CJson}
    (h : t.json parse = some body) : t.report.1 = 0 := by
  cases t with
  | noHandle => cases h
  | performed perform =>
    by_cases hok : perform.code = .ok
    · simp [Transfer.report, hok]
    · simp [Transfer.json, Transfer.body, hok] at h

/-- A recognition request with memory stops at the first attempt that its class stops at, and has
the status and the body of that attempt's transfer. -/
theorem run_stops {parse : CString → Option CJson} {r : Request Unit} {ctx : RecognizeCtx}
    (hcls : r.cls = .recognition) (hpost : r.post = recognizeAttempt parse ctx) {env : CallEnv}
    (hplenty : env.Plenty) {client : Client} (hclosed : client.closed = false) :
    ∃ k, StopsFirst .recognition client.options.attemptLimit
        (fun n => (env.attempts n).transfer) k ∧
      (r.run env.attempts (posts env.attempts r.post) client).rc =
        (env.attempts (k - 1)).transfer.report.1 ∧
      (r.run env.attempts (posts env.attempts r.post) client).resp.json =
        (env.attempts (k - 1)).transfer.json parse := by
  have hattempts := hplenty.2.1
  have hkind : r.post = (AttemptKind.recognize ctx).post parse := hpost
  have hcomes : (fun n => (AttemptKind.recognize ctx).comesTo (env.attempts n)) =
      fun n => (env.attempts n).transfer := by
    funext n
    simp [AttemptKind.comesTo, AttemptKind.fed, hattempts n, plenty]
  have hfaithful := (AttemptKind.recognize ctx).post_faithful parse env.attempts
  rw [hcomes] at hfaithful
  obtain ⟨k, hk, -, hrc, hresp, -⟩ :=
    posting_runs env.attempts hfaithful r.cls client.options .zero hclosed
  rw [hcls] at hk
  rw [hkind]
  refine ⟨k, hk, hrc, (congrArg HttpResponse.json hresp).trans ?_⟩
  show (posts env.attempts ((AttemptKind.recognize ctx).post parse) _ _).attempt.resp.json = _
  obtain ⟨url, timeout, hposted⟩ := (AttemptKind.recognize ctx).post_fed parse
    (e := env.attempts (k - 1)) (c := ((posting env.attempts _).worldAt (client, 0) (k - 1)).1)
    (by rw [hattempts]; rfl)
  rw [posts, hposted, hattempts]
  have hrest : (AttemptKind.recognize ctx).rest plenty = plenty := rfl
  rw [hrest, AllocM.run_plenty]
  exact httpPost_json _ _ _ _ _

/-- What a request with memory answers out of memory to: the response that its runner stops at,
where the reading of responses does. -/
theorem submit_outOfMemory_iff {parse : CString → Option CJson} {r : Request Unit}
    {ctx : RecognizeCtx} (hcls : r.cls = .recognition) (hpost : r.post = recognizeAttempt parse ctx)
    {P : CJson → Prop} (hfinish : ∀ client resp, (r.finish client resp).ok.1 = .outOfMemory ↔
      ∃ body, resp.json = some body ∧ P body)
    {env : CallEnv} (hplenty : env.Plenty) (client : Client) :
    (r.submit env client).error = .outOfMemory ↔ client.closed = false ∧
      ∃ k body, StopsFirst .recognition client.options.attemptLimit
        (fun n => (env.attempts n).transfer) k ∧
        (env.attempts (k - 1)).transfer.json parse = some body ∧ P body := by
  have hconnection : AuddError.connection ≠ .outOfMemory := by decide
  cases hclosed : client.closed with
  | true =>
    have hkind : r.post = (AttemptKind.recognize ctx).post parse := hpost
    refine iff_of_false ?_ (by simp)
    rw [Request.submit, Request.run, hkind, posting_closed_run _ _ _ _ _ hclosed,
      if_pos (show (-1 : Int) ≠ 0 by decide)]
    exact hconnection
  | false =>
    obtain ⟨k, hk, hrc, hjson⟩ := run_stops hcls hpost hplenty hclosed
    have hunique : (∃ k' body, StopsFirst .recognition client.options.attemptLimit
          (fun n => (env.attempts n).transfer) k' ∧
          (env.attempts (k' - 1)).transfer.json parse = some body ∧ P body) ↔
        ∃ body, (env.attempts (k - 1)).transfer.json parse = some body ∧ P body := by
      constructor
      · rintro ⟨k', body, hk', h⟩
        rw [← hk'.unique hk]
        exact ⟨body, h⟩
      · rintro ⟨body, h⟩
        exact ⟨k, body, hk, h⟩
    rw [hunique, and_iff_right rfl, Request.submit]
    by_cases hfailed : (env.attempts (k - 1)).transfer.report.1 = 0
    · rw [if_neg (by rw [hrc]; exact not_not.mpr hfailed), hplenty.2.2, AllocM.run_plenty]
      exact (hfinish _ _).trans (by rw [hjson])
    · rw [if_pos (by rw [hrc]; exact hfailed)]
      refine iff_of_false hconnection ?_
      rintro ⟨body, hbody, -⟩
      exact hfailed (report_of_json hbody)

variable {parse : CString → Option CJson} {fileExists : CString → Bool}

theorem finish_standard_iff (client : Client) (resp : HttpResponse) :
    (finishRecognize p (standardResult (recognitionFromJson p)) client resp).ok.1 = .outOfMemory ↔
      ∃ body, resp.json = some body ∧ body.UnusableResult p := by
  rw [finishRecognize_outOfMemory_iff]
  simp only [standardResult_eq_none_iff]
  exact Iff.rfl

theorem finish_enterprise (client : Client) (resp : HttpResponse) :
    (finishRecognize p (enterpriseResult (enterpriseFromJson p)) client resp).ok.1 ≠
      .outOfMemory := by
  rw [Ne, finishRecognize_outOfMemory_iff]
  rintro ⟨body, -, -, hnone⟩
  have hsome := enterpriseFromJson_isSome (p := p) (body.getObjectItemCaseSensitive "result")
  rw [enterpriseResult, AllocM.ok_bind, AllocM.ok_pure, Option.map_eq_none_iff] at hnone
  rw [hnone] at hsome
  cases hsome

/-- What a recognition call prepares with memory: a request where its gate lets it through. -/
def PreparesRecognition (parse : CString → Option CJson) (client : Client) (P : CJson → Prop)
    (prepared : Prepared Unit) : Gate → Prop
  | .through => ∃ r ctx, prepared = .request client.clearError r ∧ r.cls = .recognition ∧
    r.post = recognizeAttempt parse ctx ∧
    ∀ client resp, (r.finish client resp).ok.1 = .outOfMemory ↔
      ∃ body, resp.json = some body ∧ P body
  | .silent | .recorded => ∃ client', prepared = .refused .invalidArgument client'

theorem forget_finish {ρ : Type} (r : Request ρ) (client : Client) (resp : HttpResponse) :
    (r.forget.finish client resp).ok.1 = (r.finish client resp).ok.1 := by
  simp [Request.forget]

section

variable {ρ : Type} {fromJson : Option CJson → AllocM (Option (Option ρ))} {P : CJson → Prop}
  (fileExists)
  (hfinish : ∀ client resp, (finishRecognize p fromJson client resp).ok.1 = .outOfMemory ↔
    ∃ body, resp.json = some body ∧ P body)

include hfinish

theorem doRecognizeCommon_ok (kind : RecognizeKind) (source bytes : Option CString)
    (client : Client) :
    PreparesRecognition parse client P
      (doRecognizeCommon parse p fileExists fromJson kind source bytes client).ok.forget
      (if bytes.isSome then .through else sourceGate (linkedWith parse p fileExists) source) := by
  have hrequest : ∀ ctx, PreparesRecognition parse client P (Prepared.forget
      (doRecognizeCommon.request parse p fromJson client.clearError ctx)) .through := by
    refine fun ctx => ⟨_, ctx, rfl, rfl, rfl, fun client resp => ?_⟩
    rw [forget_finish]
    exact hfinish client resp
  rw [doRecognizeCommon, AllocM.ok_bind]
  cases bytes with
  | some data => exact hrequest _
  | none =>
    cases source with
    | none => exact ⟨_, rfl⟩
    | some source =>
      rw [Option.isSome_none, if_neg Bool.false_ne_true, sourceGate]
      simp only [linkedWith]
      by_cases hhttp : urlIsHttp source = true
      · simp only [hhttp, Bool.true_or, if_true]
        exact hrequest _
      · by_cases hfile : fileExists source = true
        · simp only [hhttp, hfile, Bool.or_true, if_true]
          exact hrequest _
        · simp only [hhttp, hfile, Bool.or_self, Bool.false_eq_true, if_false]
          exact ⟨_, rfl⟩

theorem recognizeWith_ok (kind : RecognizeKind) (source : Option CString) (hasOut : Bool)
    (client : Client) :
    PreparesRecognition parse client P
      (recognizeWith parse p fileExists fromJson kind source hasOut client).ok.forget
      (if hasOut then sourceGate (linkedWith parse p fileExists) source else .silent) := by
  cases hasOut with
  | false => exact ⟨_, rfl⟩
  | true => exact doRecognizeCommon_ok fileExists hfinish kind source none client

theorem recognizeBytesWith_ok (kind : RecognizeKind) (data : Option CString) (hasOut : Bool)
    (client : Client) :
    PreparesRecognition parse client P
      (recognizeBytesWith parse p fileExists fromJson kind data hasOut client).ok.forget
      (.ofArguments (hasOut && hasBytes data)) := by
  cases hasOut with
  | false => exact ⟨_, rfl⟩
  | true =>
    rcases data with _ | _ | ⟨b, data⟩
    · exact ⟨_, rfl⟩
    · exact ⟨_, rfl⟩
    · exact doRecognizeCommon_ok fileExists hfinish kind none (some (b :: data)) client

end

/-- The preparation of each of the four calls. -/
theorem Call.recognizes_ok {call : Call} {standard : Bool} (h : call.recognizes = some standard)
    (client : Client) :
    PreparesRecognition parse client (fun body => standard = true ∧ body.UnusableResult p)
      (call.prepare (linkedWith parse p fileExists) client).ok
      (call.gate (linkedWith parse p fileExists) plenty) := by
  have hstandard : ∀ client resp,
      (finishRecognize p (standardResult (recognitionFromJson p)) client resp).ok.1 =
        .outOfMemory ↔ ∃ body, resp.json = some body ∧ true = true ∧ body.UnusableResult p := by
    intro client resp
    simpa using finish_standard_iff client resp
  have henterprise : ∀ client resp,
      (finishRecognize p (enterpriseResult (enterpriseFromJson p)) client resp).ok.1 =
        .outOfMemory ↔ ∃ body, resp.json = some body ∧ false = true ∧ body.UnusableResult p := by
    intro client resp
    simpa using finish_enterprise client resp
  cases call with
  | recognize source options hasOut =>
    obtain rfl := Option.some.inj h
    rw [Call.prepare, linkedWith, AllocM.ok_bind]
    exact recognizeWith_ok fileExists hstandard _ source hasOut client
  | recognizeBytes data options hasOut =>
    obtain rfl := Option.some.inj h
    rw [Call.prepare, linkedWith, AllocM.ok_bind]
    exact recognizeBytesWith_ok fileExists hstandard _ data hasOut client
  | recognizeEnterprise source options hasOut =>
    obtain rfl := Option.some.inj h
    rw [Call.prepare, linkedWith, AllocM.ok_bind]
    exact recognizeWith_ok fileExists henterprise _ source hasOut client
  | recognizeEnterpriseBytes data options hasOut =>
    obtain rfl := Option.some.inj h
    rw [Call.prepare, linkedWith, AllocM.ok_bind]
    exact recognizeBytesWith_ok fileExists henterprise _ data hasOut client
  | _ => cases h

/-- With memory, a recognition call does not answer out of memory exactly when the response that it
stops at, where it makes any attempt, is no success with a result that a standard call cannot
use. -/
theorem recognizes_outOfMemory_iff (parse : CString → Option CJson) (p : Platform)
    (fileExists : CString → Bool) {call : Call} {standard : Bool}
    (hcall : call.recognizes = some standard) {env : CallEnv} (hplenty : env.Plenty)
    (client : Client) :
    (call.run (linkedWith parse p fileExists) env client).error ≠ .outOfMemory ↔
      (standard = true → client.closed = false →
        call.gate (linkedWith parse p fileExists) plenty = .through →
        ∀ k body, StopsFirst .recognition client.options.attemptLimit
            (fun n => (env.attempts n).transfer) k →
          (env.attempts (k - 1)).transfer.json parse = some body → ¬body.UnusableResult p) := by
  have hargument : AuddError.invalidArgument ≠ .outOfMemory := by decide
  have hprepares : PreparesRecognition parse client
      (fun body => standard = true ∧ body.UnusableResult p)
      (call.prepare (linkedWith parse p fileExists) client).ok _ := Call.recognizes_ok hcall client
  rw [Call.run, complete, hplenty.1, AllocM.run_plenty]
  cases hgate : call.gate (linkedWith parse p fileExists) plenty with
  | through =>
    rw [hgate] at hprepares
    obtain ⟨r, ctx, hprepared, hcls, hpost, hfinish⟩ := hprepares
    rw [hprepared]
    dsimp only
    rw [Ne, submit_outOfMemory_iff hcls hpost hfinish hplenty]
    constructor
    · rintro h hstandard hopen - k body hk hjson hunusable
      exact h ⟨hopen, k, body, hk, hjson, hstandard, hunusable⟩
    · rintro h ⟨hopen, k, body, hk, hjson, hstandard, hunusable⟩
      exact h hstandard hopen rfl k body hk hjson hunusable
  | silent | recorded =>
    rw [hgate] at hprepares
    obtain ⟨client', hprepared⟩ := hprepares
    rw [hprepared]
    exact iff_of_true hargument fun _ _ h => by cases h

def listResultBody : CJson := .object [("status", .string "success"), ("result", .array [])]

/-- A run with memory in which every attempt gets the same body, with status 200. -/
def answeredWith (body : CString) : CallEnv :=
  ⟨plenty, fun _ => ⟨plenty, .performed ⟨[⟨64, 200⟩], .ok, [], some body, none⟩⟩, plenty⟩

theorem listResult_outOfMemory :
    ((Call.recognize (some "http://a") none true).run
      (linkedWith (fun _ => some listResultBody) .exact fun _ => false) (answeredWith "body")
      (.new (some "t") none none)).error = .outOfMemory := by
  decide

theorem listResult_enterprise :
    ((Call.recognizeEnterprise (some "http://a") none true).run
      (linkedWith (fun _ => some listResultBody) .exact fun _ => false) (answeredWith "body")
      (.new (some "t") none none)).error ≠ .outOfMemory := by
  have hcall : (Call.recognizeEnterprise (some "http://a") none true).recognizes = some false := rfl
  exact (recognizes_outOfMemory_iff _ .exact _ hcall ⟨rfl, fun _ => rfl, rfl⟩ _).mpr
    fun h => by cases h

end

end Audd
