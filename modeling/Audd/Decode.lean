import Audd.Client
import Audd.Http
import Audd.Json

/-! Top-level response decoding.  `decodeOrRaise` rewrites the parsed tree before it classifies it:
a deprecation error that still carries a result is stripped, and the error's message is coerced in
place.  `verdict` is what it decides, as a function of the three members that it looks at, and
`decodeOrRaise_exact` relates the two over every body, with what becomes of the tree. -/

namespace Audd

def kHttpClientErrorFloor : Int := 400

def kDeprecatedParamsCode : Int := 51

variable (p : Platform)

/-! ### Decoding -/

def CJson.errorCode (err : CJson) : Option CDouble :=
  match err.getObjectItemCaseSensitive "error_code" with
  | some (.number d) => some d
  | _ => none

def CJson.errorObject (body : CJson) : Option CJson :=
  (body.getObjectItemCaseSensitive "error").filter CJson.isObject

def CJson.hasResult (body : CJson) : Bool :=
  match body.getObjectItemCaseSensitive "result" with
  | none | some .null => false
  | some _ => true

def CJson.statusStr (body : CJson) : CString :=
  match body.getObjectItemCaseSensitive "status" with
  | some (.string s) => s
  | _ => []

def maybeWarnAndStrip (body : CJson) : AllocM CJson :=
  match body.errorObject.bind CJson.errorCode with
  | none => pure body
  | some code =>
    if code.toInt p ≠ kDeprecatedParamsCode then pure body
    else if !body.hasResult then pure body
    else do
      let body := body.deleteItemFromObjectCaseSensitive "error"
      let body := match body.getObjectItemCaseSensitive "status" with
        | some _ => body.deleteItemFromObjectCaseSensitive "status"
        | none => body
      match ← AllocM.copy () with
      | some _ => pure (body.addStringToObject "status" "success")
      | none => pure body

/-- What the error branch reads: the code, the message, and the tree with the message coerced. -/
def errorDetails (body : CJson) : AllocM (Int × CString × CJson) :=
  match body.errorObject with
  | none => pure (0, [], body)
  | some err => do
    let code := (err.errorCode.map (CDouble.toInt p)).getD 0
    let (m, err) ← jsonGetString p err "error_message"
    pure (code, m.getD [], body.setItem "error" err)

def overrideText : CString :=
  ("Adding songs to your custom catalog requires enterprise access that isn't enabled on your " ++
    "account.\n\nNote: the custom-catalog endpoint is for adding songs to your private " ++
    "fingerprint database, not for music recognition. If you intended to identify music, use " ++
    "audd_recognize(...) (or audd_recognize_enterprise(...) to scan beyond the first 12 seconds " ++
    "of a file) instead.\n\nTo request custom-catalog access, contact api@audd.io.\n\n" ++
    "[Server message: " : String)

def raiseError (client : Client) (body : CJson) (customCatalogContext : Bool) :
    AllocM (AuddError × Client × CJson) := do
  let (code, msg, body) ← errorDetails p body
  let full ← AllocM.copy (("[#" : CString) ++ decimal code ++ ("] " : CString) ++ msg)
  let client ← client.setError (full.getD msg) code
  if customCatalogContext ∧ (code = 904 ∨ code = 905) then
    let override ← AllocM.copy (overrideText ++ msg ++ ("]" : CString))
    let client ← client.setError (override.getD msg) code
    pure (.customCatalogAccess, client, body)
  else pure (sentinelForCode code, client, body)

def classify (client : Client) (body : CJson) (customCatalogContext : Bool) :
    AllocM (AuddError × Client × CJson) :=
  if body.statusStr = ("success" : CString) then pure (.ok, client, body)
  else if body.statusStr = ("error" : CString) then raiseError p client body customCatalogContext
  else do
    let m ← AllocM.copy (("Unexpected response status: " : CString) ++ body.statusStr)
    pure (.server, ← client.setError (m.getD "unexpected status") 0, body)

def raiseNonJson (client : Client) (status : Int) : AllocM (AuddError × Client) :=
  if status ≥ kHttpClientErrorFloor then do
    let msg ← AllocM.copy
      (("HTTP " : CString) ++ decimal status ++ (" with non-JSON response body" : CString))
    pure (.server, ← client.setError (msg.getD "HTTP error") 0)
  else do
    pure (.serialization, ← client.setError "Unparseable response" 0)

/-- The tree it leaves is in the response that it returns. -/
def decodeOrRaise (client : Client) (resp : HttpResponse) (customCatalogContext : Bool) :
    AllocM (AuddError × Client × HttpResponse) :=
  match resp.json with
  | none => do
    let (e, client) ← raiseNonJson client.clearError resp.status
    pure (e, client, resp)
  | some body => do
    let body ← maybeWarnAndStrip p body
    let (e, client, body) ← classify p client.clearError body customCatalogContext
    pure (e, client, { resp with json := some body })

def decodeTopLevel (client : Client) (resp : HttpResponse) : AllocM (AuddError × Client) :=
  match resp.json with
  | none => raiseNonJson client.clearError resp.status
  | some _ => pure (.ok, client.clearError)

/-! ### The strip -/

section

variable {p : Platform}

/-- The members that decoding never rewrites. -/
def CJson.others (body : CJson) : List (CString × CJson) :=
  body.members.filter fun m => m.1 ≠ ("error" : CString) ∧ m.1 ≠ ("status" : CString)

/-- The error is a deprecation that carries a result. -/
def CJson.Deprecated (p : Platform) (body : CJson) : Prop :=
  (∃ code, body.errorObject.bind CJson.errorCode = some code ∧
    code.toInt p = kDeprecatedParamsCode) ∧ body.hasResult = true

theorem maybeWarnAndStrip_of_not {body : CJson} (h : ¬body.Deprecated p) :
    (maybeWarnAndStrip p body).ok = body := by
  unfold maybeWarnAndStrip
  cases hcode : body.errorObject.bind CJson.errorCode with
  | none => rfl
  | some code =>
    by_cases h51 : code.toInt p = kDeprecatedParamsCode
    · have hresult : body.hasResult = false := by
        rw [← Bool.not_eq_true]
        exact fun hr => h ⟨⟨code, hcode, h51⟩, hr⟩
      simp [h51, hresult]
    · simp [h51]

theorem isObject_of_errorObject {body err : CJson} (h : body.errorObject = some err) :
    body.isObject = true := by
  exact CJson.isObject_of_get (Option.filter_eq_some_iff.mp h).1

/-- The members left by the strip, which replaces the status whether or not there was one. -/
def CJson.stripped (body : CJson) : CJson :=
  ((body.deleteItemFromObjectCaseSensitive "error").deleteItemFromObjectCaseSensitive
    "status").addStringToObject "status" "success"

theorem maybeWarnAndStrip_of_deprecated {body : CJson} (h : body.Deprecated p) :
    (maybeWarnAndStrip p body).ok = body.stripped := by
  obtain ⟨⟨code, hcode, h51⟩, hresult⟩ := h
  rw [maybeWarnAndStrip, hcode]
  simp only [h51, hresult, ne_eq, not_true_eq_false, if_false, Bool.not_true, Bool.false_eq_true]
  rw [AllocM.ok_bind, AllocM.ok_copy, AllocM.ok_pure, CJson.stripped]
  cases hs : (body.deleteItemFromObjectCaseSensitive "error").getObjectItemCaseSensitive
      "status" with
  | some item => rfl
  | none => rw [CJson.deleteItem_of_get_none hs]

/-- A stripped body is a success with its other members as they were, and no error. -/
theorem stripped_members {body : CJson} (hobject : body.isObject = true)
    (hnodup : (body.members.map Prod.fst).Nodup) :
    body.stripped.statusStr = ("success" : CString) ∧ body.stripped.others = body.others ∧
    body.stripped.errorObject = none := by
  have hne : ("error" : CString) ≠ ("status" : CString) := by decide
  have hdropped : ∀ key : CString, key = "error" ∨ key = "status" → ∀ m : CString × CJson,
      m.1 = key → decide (m.1 ≠ ("error" : CString) ∧ m.1 ≠ ("status" : CString)) = false := by
    intro key hkey m hm
    rw [hm, decide_eq_false_iff_not]
    exact fun h => hkey.elim h.1 h.2
  have hadded := hdropped _ (.inr rfl) (("status" : CString), .string "success") rfl
  refine ⟨?_, ?_, ?_⟩
  · rw [CJson.statusStr, CJson.stripped, CJson.get_addString_self _ (by simpa using hobject)
      (CJson.get_deleteItem_self (CJson.nodup_deleteItem hnodup _) _)]
  · rw [CJson.others, CJson.stripped, CJson.members_addString (by simpa using hobject),
      CJson.members_deleteItem, CJson.members_deleteItem, List.filter_append,
      CJson.filter_eraseP _ fun m hm => hdropped _ (.inr rfl) m (eq_of_beq hm),
      CJson.filter_eraseP _ fun m hm => hdropped _ (.inl rfl) m (eq_of_beq hm),
      List.filter_singleton, hadded]
    exact List.append_nil _
  · rw [CJson.errorObject, CJson.stripped, CJson.get_addString_ne _ hne,
      CJson.get_deleteItem_ne _ hne, CJson.get_deleteItem_self hnodup]
    rfl

/-! ### The verdict -/

/-- What the strip and the classification look at. -/
structure CJson.Alike (body body' : CJson) : Prop where
  status : body.statusStr = body'.statusStr
  error : body.errorObject.bind CJson.errorCode = body'.errorObject.bind CJson.errorCode
  others : body.others = body'.others

theorem CJson.Alike.refl (body : CJson) : body.Alike body := ⟨rfl, rfl, rfl⟩

theorem CJson.get_eq_of_others {body body' : CJson} (h : body.others = body'.others)
    {k : CString} (he : k ≠ ("error" : CString)) (hs : k ≠ ("status" : CString)) :
    body.getObjectItemCaseSensitive k = body'.getObjectItemCaseSensitive k := by
  have hfilter := CJson.lookup_filter
    (fun name => decide (name ≠ ("error" : CString) ∧ name ≠ ("status" : CString)))
    (decide_eq_true ⟨he, hs⟩)
  exact (hfilter body.members).symm.trans
    ((congrArg (List.lookup k) h).trans (hfilter body'.members))

theorem CJson.Alike.hasResult {body body' : CJson} (h : body.Alike body') :
    body.hasResult = body'.hasResult := by
  rw [CJson.hasResult, CJson.hasResult, CJson.get_eq_of_others h.others (by decide) (by decide)]

theorem CJson.Alike.deprecated {body body' : CJson} (h : body.Alike body')
    (hd : body.Deprecated p) : body'.Deprecated p := by
  rwa [CJson.Deprecated, h.error, h.hasResult] at hd

/-- The sentinel and the stored code that the classification gives. -/
def verdict (p : Platform) (customCatalogContext : Bool) (body : CJson) : AuddError × Int :=
  if body.statusStr = ("success" : CString) then (.ok, 0)
  else if body.statusStr = ("error" : CString) then
    let code := ((body.errorObject.bind CJson.errorCode).map (CDouble.toInt p)).getD 0
    (if customCatalogContext ∧ (code = 904 ∨ code = 905) then .customCatalogAccess
      else sentinelForCode code, code)
  else (.server, 0)

theorem verdict_ok_iff (p : Platform) (customCatalogContext : Bool) (body : CJson) :
    (verdict p customCatalogContext body).1 = .ok ↔ body.statusStr = ("success" : CString) := by
  unfold verdict
  by_cases hs : body.statusStr = ("success" : CString)
  · rw [if_pos hs]
    exact iff_of_true rfl hs
  · rw [if_neg hs]
    refine iff_of_false ?_ hs
    by_cases he : body.statusStr = ("error" : CString)
    · rw [if_pos he]
      dsimp only
      split
      · decide
      · exact sentinelForCode_ne_ok _
    · rw [if_neg he]
      decide

theorem CJson.Alike.verdict {body body' : CJson} (h : body.Alike body')
    (customCatalogContext : Bool) :
    Audd.verdict p customCatalogContext body = Audd.verdict p customCatalogContext body' := by
  rw [Audd.verdict, Audd.verdict, h.status, h.error]

theorem jsonGetString_keeps (p : Platform) (obj : CJson) (key : CString) :
    (jsonGetString p obj key).ok.2.isObject = obj.isObject ∧ ∀ k, k ≠ key →
      (jsonGetString p obj key).ok.2.getObjectItemCaseSensitive k =
        obj.getObjectItemCaseSensitive k := by
  have hcoerce : ∀ text,
      (jsonGetString.coerce obj key text).ok.2 = obj.setItem key (.string text) := fun _ => rfl
  unfold jsonGetString
  split
  · exact ⟨rfl, fun k _ => rfl⟩
  · rw [hcoerce]
    exact ⟨CJson.isObject_setItem _ _ _, fun k hk => CJson.get_setItem_ne _ _ hk⟩
  · rw [hcoerce]
    exact ⟨CJson.isObject_setItem _ _ _, fun k hk => CJson.get_setItem_ne _ _ hk⟩
  · exact ⟨rfl, fun k _ => rfl⟩

theorem errorDetails_ok (p : Platform) (body : CJson) :
    (errorDetails p body).ok.1 =
      ((body.errorObject.bind CJson.errorCode).map (CDouble.toInt p)).getD 0 ∧
    (errorDetails p body).ok.2.2.Alike body := by
  unfold errorDetails
  cases herr : body.errorObject with
  | none => exact ⟨rfl, .refl body⟩
  | some err =>
    have hkeys : ("error_code" : CString) ≠ ("error_message" : CString) := by decide
    have hstatus : ("status" : CString) ≠ ("error" : CString) := by decide
    obtain ⟨hget, hobject⟩ := Option.filter_eq_some_iff.mp herr
    obtain ⟨hkeep, hsame⟩ := jsonGetString_keeps p err "error_message"
    simp only [AllocM.ok_bind, AllocM.ok_pure]
    refine ⟨rfl, ?_, ?_, ?_⟩
    · rw [CJson.statusStr, CJson.statusStr, CJson.get_setItem_ne _ _ hstatus]
    · rw [CJson.errorObject, CJson.get_setItem_self _ hget, herr, Option.filter_some, hkeep,
        hobject]
      simp only [if_true, Option.bind_some, CJson.errorCode]
      rw [hsame _ hkeys]
    · rw [CJson.others, CJson.members_setItem]
      exact CJson.filter_replace (fun name => decide (name ≠ ("error" : CString) ∧
        name ≠ ("status" : CString))) (by simp) _ _

theorem raiseError_ok (p : Platform) (client : Client) (body : CJson)
    (customCatalogContext : Bool) :
    let details := (errorDetails p body).ok
    let out := (raiseError p client body customCatalogContext).ok
    out.1 = (if customCatalogContext ∧ (details.1 = 904 ∨ details.1 = 905) then .customCatalogAccess
      else sentinelForCode details.1) ∧
    out.1 ≠ .ok ∧ out.2.1.lastErrorCode = details.1 ∧ out.2.1.errorMessage ≠ [] ∧
    out.2.2 = details.2.2 := by
  have hcatalog : AuddError.customCatalogAccess ≠ .ok := by decide
  intro details out
  have hout : out = (raiseError p client body customCatalogContext).ok := rfl
  rw [hout, raiseError, AllocM.ok_bind]
  by_cases hctx : customCatalogContext ∧ (details.1 = 904 ∨ details.1 = 905)
  · rw [if_pos hctx, AllocM.ok_bind, AllocM.ok_copy, AllocM.ok_bind, Client.setError_ok]
    rw [if_pos hctx, AllocM.ok_bind, AllocM.ok_copy, AllocM.ok_bind, Client.setError_ok]
    refine ⟨rfl, hcatalog, rfl, ?_, rfl⟩
    rw [AllocM.ok_pure, Client.errorMessage_of_some rfl, Option.getD_some]
    exact List.append_ne_nil_of_right_ne_nil _ (by decide)
  · rw [if_neg hctx, AllocM.ok_bind, AllocM.ok_copy, AllocM.ok_bind, Client.setError_ok]
    rw [if_neg hctx]
    refine ⟨rfl, sentinelForCode_ne_ok _, rfl, ?_, rfl⟩
    rw [AllocM.ok_pure, Client.errorMessage_of_some rfl, Option.getD_some]
    exact List.append_ne_nil_of_left_ne_nil (List.append_ne_nil_of_right_ne_nil _ (by decide)) _

/-- The classification gives the verdict, stores its code, and a message unless it accepts. -/
theorem classify_ok (p : Platform) {client : Client} (hfree : client.ErrorFree) (body : CJson)
    (customCatalogContext : Bool) :
    let out := (classify p client body customCatalogContext).ok
    out.1 = (verdict p customCatalogContext body).1 ∧
    out.2.1.lastErrorCode = (verdict p customCatalogContext body).2 ∧
    (if out.1 = .ok then out.2.1 = client else out.2.1.errorMessage ≠ []) ∧
    out.2.2.Alike body := by
  intro out
  have hout : out = (classify p client body customCatalogContext).ok := rfl
  rw [hout, classify, verdict]
  by_cases hs : body.statusStr = ("success" : CString)
  · rw [if_pos hs, if_pos hs]
    exact ⟨rfl, hfree.2, rfl, .refl body⟩
  · rw [if_neg hs, if_neg hs]
    by_cases he : body.statusStr = ("error" : CString)
    · obtain ⟨hcode, halike⟩ := errorDetails_ok p body
      obtain ⟨herr, hok, hstored, hmessage, hbody⟩ :=
        raiseError_ok p client body customCatalogContext
      rw [if_pos he, if_pos he, if_neg hok, ← hcode, hbody]
      exact ⟨herr, hstored, hmessage, halike⟩
    · rw [if_neg he, if_neg he]
      exact ⟨rfl, rfl, List.append_ne_nil_of_left_ne_nil (by decide) _, .refl body⟩

/-! ### Decoding over every response -/

def CJson.ErrorCodeIs (body : CJson) (d : CDouble) : Prop :=
  ∃ err, body.getObjectItemCaseSensitive "error" = some err ∧ err.isObject = true ∧
    err.getObjectItemCaseSensitive "error_code" = some (.number d)

/-- The body is a success, or a deprecation error that carries a result. -/
def CJson.Accepted (body : CJson) : Prop :=
  body.getObjectItemCaseSensitive "status" = some (.string "success") ∨
  (∃ d, body.ErrorCodeIs d ∧ d.trunc = some 51) ∧
    ∃ result, body.getObjectItemCaseSensitive "result" = some result ∧ result.isNull = false

theorem errorCodeIs_iff (body : CJson) (d : CDouble) :
    body.ErrorCodeIs d ↔ body.errorObject.bind CJson.errorCode = some d := by
  rw [Option.bind_eq_some_iff]
  constructor
  · rintro ⟨err, hget, hobject, hcode⟩
    refine ⟨err, Option.filter_eq_some_iff.mpr ⟨hget, hobject⟩, ?_⟩
    rw [CJson.errorCode, hcode]
  · rintro ⟨err, herr, hcode⟩
    obtain ⟨hget, hobject⟩ := Option.filter_eq_some_iff.mp herr
    refine ⟨err, hget, hobject, ?_⟩
    unfold CJson.errorCode at hcode
    split at hcode
    · rename_i d' hd
      rw [hd, ← Option.some.inj hcode]
    · cases hcode

theorem statusStr_eq_iff (body : CJson) {s : CString} (hs : s ≠ []) :
    body.statusStr = s ↔ body.getObjectItemCaseSensitive "status" = some (.string s) := by
  unfold CJson.statusStr
  split
  · rename_i text htext
    rw [htext]
    simp
  · rename_i hnot
    exact iff_of_false (fun h => hs h.symm) fun h => hnot s h

theorem hasResult_iff (body : CJson) : body.hasResult = true ↔
    ∃ result, body.getObjectItemCaseSensitive "result" = some result ∧ result.isNull = false := by
  unfold CJson.hasResult
  rcases body.getObjectItemCaseSensitive "result" with _ | result
  · simp
  · cases result <;> simp [CJson.isNull]

theorem deprecated_iff (body : CJson) (hint : ∀ d, body.ErrorCodeIs d → d.Converts 32) :
    body.Deprecated p ↔ (∃ d, body.ErrorCodeIs d ∧ d.trunc = some 51) ∧
      ∃ result, body.getObjectItemCaseSensitive "result" = some result ∧ result.isNull = false := by
  rw [CJson.Deprecated, hasResult_iff]
  refine and_congr_left fun _ => exists_congr fun d => ?_
  rw [← errorCodeIs_iff]
  refine and_congr_right fun hd => ?_
  obtain ⟨n, hn, hrange⟩ := hint d hd
  rw [CDouble.toInt, CDouble.convert_of_trunc hn hrange, hn, kDeprecatedParamsCode]
  exact (Option.some_inj).symm

/-- The stripped body is not stripped again, nor is one that classifies alike. -/
theorem maybeWarnAndStrip_stable {body body' : CJson}
    (hnodup : (body.members.map Prod.fst).Nodup)
    (h : body'.Alike (maybeWarnAndStrip p body).ok) : (maybeWarnAndStrip p body').ok = body' := by
  apply maybeWarnAndStrip_of_not
  intro hd
  have hd' := h.deprecated hd
  by_cases hbody : body.Deprecated p
  · rw [maybeWarnAndStrip_of_deprecated hbody] at hd'
    obtain ⟨⟨code, hcode, -⟩, -⟩ := hbody
    obtain ⟨err, herr, -⟩ := Option.bind_eq_some_iff.mp hcode
    obtain ⟨⟨code', hcode', -⟩, -⟩ := hd'
    rw [(stripped_members (isObject_of_errorObject herr) hnodup).2.2] at hcode'
    cases hcode'
  · rw [maybeWarnAndStrip_of_not hbody] at hd'
    exact hbody hd'

theorem raiseNonJson_ok (client : Client) (status : Int) :
    let out := (raiseNonJson client status).ok
    out.1 = (if status ≥ kHttpClientErrorFloor then .server else .serialization) ∧
    out.1 ≠ .ok ∧ out.2.errorMessage ≠ [] ∧ out.2.lastErrorCode = 0 := by
  unfold raiseNonJson
  by_cases hs : status ≥ kHttpClientErrorFloor
  · simp only [if_pos hs, AllocM.ok_bind, AllocM.ok_copy, Client.setError_ok, AllocM.ok_pure]
    refine ⟨trivial, by decide, ?_, trivial⟩
    exact List.append_ne_nil_of_right_ne_nil _ (by decide)
  · simp only [if_neg hs, AllocM.ok_bind, Client.setError_ok, AllocM.ok_pure]
    refine ⟨trivial, by decide, ?_, trivial⟩
    exact show ("Unparseable response" : CString) ≠ [] by decide

theorem decodeOrRaise_json (client : Client) {resp : HttpResponse} {body : CJson}
    (hjson : resp.json = some body) (customCatalogContext : Bool) :
    let out := (decodeOrRaise p client resp customCatalogContext).ok
    let v := verdict p customCatalogContext (maybeWarnAndStrip p body).ok
    out.1 = v.1 ∧ out.2.1.lastErrorCode = v.2 ∧
    (if v.1 = .ok then out.2.1.ErrorFree else out.2.1.errorMessage ≠ []) ∧
    ∃ body', out.2.2.json = some body' ∧ body'.Alike (maybeWarnAndStrip p body).ok := by
  intro out v
  obtain ⟨herr, hcode, hstate, halike⟩ := classify_ok p client.clearError_errorFree
    (maybeWarnAndStrip p body).ok customCatalogContext
  have hout : out = ((classify p client.clearError (maybeWarnAndStrip p body).ok
      customCatalogContext).ok.1, (classify p client.clearError (maybeWarnAndStrip p body).ok
      customCatalogContext).ok.2.1, { resp with json := some (classify p client.clearError
      (maybeWarnAndStrip p body).ok customCatalogContext).ok.2.2 }) := by
    show (decodeOrRaise p client resp customCatalogContext).ok = _
    rw [decodeOrRaise, hjson]
    simp only [AllocM.ok_bind, AllocM.ok_pure]
  rw [hout]
  refine ⟨herr, hcode, ?_, _, rfl, halike⟩
  rw [herr] at hstate
  split_ifs at hstate ⊢ with hok
  · rw [hstate]
    exact client.clearError_errorFree
  · exact hstate

theorem decodeOrRaise_nonJson (client : Client) {resp : HttpResponse} (hjson : resp.json = none)
    (customCatalogContext : Bool) :
    let out := (decodeOrRaise p client resp customCatalogContext).ok
    out.1 = (if resp.status ≥ kHttpClientErrorFloor then .server else .serialization) ∧
    out.1 ≠ .ok ∧ out.2.1.errorMessage ≠ [] ∧ out.2.1.lastErrorCode = 0 ∧ out.2.2 = resp := by
  have hout : (decodeOrRaise p client resp customCatalogContext).ok =
      ((raiseNonJson client.clearError resp.status).ok.1,
        (raiseNonJson client.clearError resp.status).ok.2, resp) := by
    rw [decodeOrRaise, hjson]
    simp only [AllocM.ok_bind, AllocM.ok_pure]
  intro out
  have hout' : out = _ := hout
  rw [hout']
  obtain ⟨herr, hok, hmessage, hcode⟩ := raiseNonJson_ok client.clearError resp.status
  exact ⟨herr, hok, hmessage, hcode, rfl⟩

theorem decodeOrRaise_again (client client' : Client) {resp : HttpResponse} {body : CJson}
    (hjson : resp.json = some body) (hnodup : (body.members.map Prod.fst).Nodup)
    (customCatalogContext : Bool) :
    let out := (decodeOrRaise p client resp customCatalogContext).ok
    let again := (decodeOrRaise p client' out.2.2 customCatalogContext).ok
    again.1 = out.1 ∧ again.2.1.lastErrorCode = out.2.1.lastErrorCode := by
  intro out again
  obtain ⟨herr, hcode, -, body', hjson', halike⟩ :=
    decodeOrRaise_json (p := p) client hjson customCatalogContext
  obtain ⟨herr', hcode', -⟩ := decodeOrRaise_json (p := p) client' hjson' customCatalogContext
  rw [maybeWarnAndStrip_stable hnodup halike, halike.verdict] at herr' hcode'
  exact ⟨herr'.trans herr.symm, hcode'.trans hcode.symm⟩

theorem verdict_accepts_iff {body : CJson} (hnodup : (body.members.map Prod.fst).Nodup)
    (hint : ∀ d, body.ErrorCodeIs d → d.Converts 32) (customCatalogContext : Bool) :
    (verdict p customCatalogContext (maybeWarnAndStrip p body).ok).1 = .ok ↔ body.Accepted := by
  rw [verdict_ok_iff]
  by_cases hd : body.Deprecated p
  · refine iff_of_true ?_ (.inr ((deprecated_iff body hint).mp hd))
    obtain ⟨⟨code, hcode, -⟩, -⟩ := id hd
    obtain ⟨err, herr, -⟩ := Option.bind_eq_some_iff.mp hcode
    rw [maybeWarnAndStrip_of_deprecated hd]
    exact (stripped_members (isObject_of_errorObject herr) hnodup).1
  · rw [maybeWarnAndStrip_of_not hd, statusStr_eq_iff _ (by decide)]
    exact ⟨.inl, fun h => h.resolve_right fun h => hd ((deprecated_iff body hint).mpr h)⟩

theorem maybeWarnAndStrip_others {body : CJson} (hnodup : (body.members.map Prod.fst).Nodup) :
    (maybeWarnAndStrip p body).ok.others = body.others := by
  by_cases hd : body.Deprecated p
  · obtain ⟨⟨code, hcode, -⟩, -⟩ := id hd
    obtain ⟨err, herr, -⟩ := Option.bind_eq_some_iff.mp hcode
    rw [maybeWarnAndStrip_of_deprecated hd]
    exact (stripped_members (isObject_of_errorObject herr) hnodup).2.1
  · rw [maybeWarnAndStrip_of_not hd]

theorem verdict_code {body : CJson} (hint : ∀ d, body.ErrorCodeIs d → d.Converts 32)
    (customCatalogContext : Bool)
    (hstatus : body.getObjectItemCaseSensitive "status" = some (.string "error")) {d : CDouble}
    {n : Int} (hd : body.ErrorCodeIs d) (hn : d.trunc = some n) :
    (verdict p customCatalogContext body).2 = n := by
  have herror := (statusStr_eq_iff body (by decide)).mpr hstatus
  obtain ⟨m, hm, hrange⟩ := hint d hd
  obtain rfl : n = m := Option.some.inj (hn.symm.trans hm)
  have hne : body.statusStr ≠ ("success" : CString) := by
    rw [herror]
    decide
  rw [verdict, if_neg hne, if_pos herror, (errorCodeIs_iff body d).mp hd]
  exact CDouble.convert_of_trunc hn hrange

theorem verdict_code_zero (p : Platform) (customCatalogContext : Bool) {body : CJson}
    (h : ¬∃ d, body.getObjectItemCaseSensitive "status" = some (.string "error") ∧
      body.ErrorCodeIs d) : (verdict p customCatalogContext body).2 = 0 := by
  unfold verdict
  by_cases hs : body.statusStr = ("success" : CString)
  · rw [if_pos hs]
  · rw [if_neg hs]
    by_cases he : body.statusStr = ("error" : CString)
    · have hnone : body.errorObject.bind CJson.errorCode = none := by
        rw [Option.eq_none_iff_forall_ne_some]
        intro d hd
        exact h ⟨d, (statusStr_eq_iff body (by decide)).mp he, (errorCodeIs_iff body d).mpr hd⟩
      rw [if_pos he, hnone]
      rfl
    · rw [if_neg he]

/-- Every response whose names do not repeat, with memory: decoding accepts exactly the successes
and the deprecation errors that carry a result, which leave no error and only their error and
status rewritten; anything else stores a message and the error's code.  Decoding again, with any
client, decides the same. -/
theorem decodeOrRaise_exact (p : Platform) (client : Client) (resp : HttpResponse)
    (customCatalogContext : Bool)
    (hnodup : ∀ body, resp.json = some body → (body.members.map Prod.fst).Nodup)
    (hint : ∀ body d, resp.json = some body → body.ErrorCodeIs d → d.Converts 32) :
    let out := (decodeOrRaise p client resp customCatalogContext).ok
    let again := fun client' => (decodeOrRaise p client' out.2.2 customCatalogContext).ok
    (out.1 = .ok ↔ ∃ body, resp.json = some body ∧ body.Accepted) ∧
    (out.1 = .ok → out.2.1.ErrorFree ∧
      (∃ body body', resp.json = some body ∧ out.2.2.json = some body' ∧
        body'.getObjectItemCaseSensitive "result" = body.getObjectItemCaseSensitive "result" ∧
        body'.others = body.others) ∧
      ∀ client', (again client').1 = .ok) ∧
    (out.1 ≠ .ok → out.2.1.errorMessage ≠ [] ∧
      (∀ body d n, resp.json = some body →
        body.getObjectItemCaseSensitive "status" = some (.string "error") →
        body.ErrorCodeIs d → d.trunc = some n → out.2.1.lastErrorCode = n) ∧
      ((¬∃ body d, resp.json = some body ∧
        body.getObjectItemCaseSensitive "status" = some (.string "error") ∧
        body.ErrorCodeIs d) → out.2.1.lastErrorCode = 0) ∧
      ∀ client', (again client').1 = out.1 ∧
        (again client').2.1.lastErrorCode = out.2.1.lastErrorCode) := by
  intro out again
  cases hjson : resp.json with
  | none =>
    obtain ⟨herr, hok, hmessage, hcode, hresp⟩ :=
      decodeOrRaise_nonJson (p := p) client hjson customCatalogContext
    refine ⟨iff_of_false hok (by simp), fun h => absurd h hok, fun _ => ⟨hmessage, ?_, ?_, ?_⟩⟩
    · intro body d n h
      cases h
    · exact fun _ => hcode
    · intro client'
      obtain ⟨herr', -, -, hcode', -⟩ :=
        decodeOrRaise_nonJson (p := p) client' hjson customCatalogContext
      have hagain : again client' = (decodeOrRaise p client' resp customCatalogContext).ok :=
        congrArg (fun r => (decodeOrRaise p client' r customCatalogContext).ok) hresp
      rw [hagain]
      exact ⟨herr'.trans herr.symm, hcode'.trans hcode.symm⟩
  | some body =>
    have hnames := hnodup body hjson
    have hrange := fun d => hint body d hjson
    obtain ⟨herr, hcode, hstate, body', hjson', halike⟩ :=
      decodeOrRaise_json (p := p) client hjson customCatalogContext
    have hagain := fun client' =>
      decodeOrRaise_again (p := p) client client' hjson hnames customCatalogContext
    have haccepts := verdict_accepts_iff (p := p) hnames hrange customCatalogContext
    rw [← herr] at haccepts hstate
    -- a deprecation that is stripped is accepted, so a refused body is the one classified
    have hkept : out.1 ≠ .ok → ¬body.Deprecated p := fun hok hd =>
      hok (haccepts.mpr (.inr ((deprecated_iff body hrange).mp hd)))
    refine ⟨?_, fun hok => ⟨?_, ⟨body, body', rfl, hjson', ?_⟩, ?_⟩,
      fun hok => ⟨?_, ?_, ?_, hagain⟩⟩
    · rw [haccepts]
      simp
    · rwa [if_pos hok] at hstate
    · have hothers := halike.others.trans (maybeWarnAndStrip_others (p := p) hnames)
      exact ⟨CJson.get_eq_of_others hothers (by decide) (by decide), hothers⟩
    · exact fun client' => (hagain client').1.trans hok
    · rwa [if_neg hok] at hstate
    · rintro _ d n ⟨⟩ hstatus hd hn
      rw [hcode, maybeWarnAndStrip_of_not (hkept hok)]
      exact verdict_code hrange customCatalogContext hstatus hd hn
    · intro hnone
      rw [hcode, maybeWarnAndStrip_of_not (hkept hok)]
      exact verdict_code_zero p customCatalogContext fun ⟨d, hd⟩ => hnone ⟨body, d, rfl, hd⟩

def deprecationBody : CJson := .object [("status", .string "error"),
  ("error", .object [("error_code", .number (.finite 51))]), ("result", .object [])]

theorem decodeOrRaise_deprecation :
    (decodeOrRaise .exact (.new none none none) ⟨200, none, none, some deprecationBody⟩
      false).ok.1 = .ok := by
  refine (decodeOrRaise_exact .exact (.new none none none)
    ⟨200, none, none, some deprecationBody⟩ false ?_ ?_).1.mpr
    ⟨deprecationBody, rfl, .inr ⟨⟨.finite 51, ⟨_, rfl, rfl, rfl⟩, rfl⟩, _, rfl, rfl⟩⟩
  · rintro body ⟨⟩
    decide
  · rintro body d ⟨⟩ ⟨err, ⟨⟩, -, ⟨⟩⟩
    exact ⟨51, rfl, by decide⟩

end

end Audd
