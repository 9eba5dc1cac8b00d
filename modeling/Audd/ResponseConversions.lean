import Audd.Longpoll
import Audd.RecognitionConversions

/-! The conversions of the response decoder and of the longpoll cursor, with their record, and with
the parser's: when no conversion is undefined.  The decoder reads the error of a body once before
the strip, and once more after it where the status that is left is an error. -/

namespace Audd

/-! ### What is read -/

/-- The member that is left when the first of its name is deleted. -/
def CJson.second (o : CJson) (key : CString) : Option CJson :=
  (o.deleteItemFromObjectCaseSensitive key).getObjectItemCaseSensitive key

def errorReads : List Read := [.raw "error_code", .text "error_message"]

/-- The error of an error status is read. -/
def ErrorDefined (p : Platform) (status error : Option CJson) : Prop :=
  status = some (.string "error") → BlockDefined p errorReads error

/-- All that the decoder reads of the body is defined. -/
structure BodyDefined (p : Platform) (body : CJson) : Prop where
  code : BlockDefined p [.raw "error_code"] (body.getObjectItemCaseSensitive "error")
  kept : ¬body.Deprecated p →
    ErrorDefined p (body.getObjectItemCaseSensitive "status")
      (body.getObjectItemCaseSensitive "error")
  stripped : body.Deprecated p → ErrorDefined p (body.second "status") (body.second "error")

/-- The timestamp of a response, where it is a number, has the range of `long`. -/
def TimestampDefined (json : Option CJson) : Prop :=
  ∀ ts, json.bind (CJson.getObjectItemCaseSensitive · "timestamp") = some (.number ts) →
    ts.Converts 64

namespace Converting

/-! ### The decoder and the cursor -/

section

variable (p : Platform)

def maybeWarnAndStrip (body : CJson) : Converting CJson :=
  match body.errorObject.bind CJson.errorCode with
  | none => pure body
  | some code => do
    let code ← toInt p code
    if code ≠ kDeprecatedParamsCode then pure body
    else if !body.hasResult then pure body
    else do
      let body := body.deleteItemFromObjectCaseSensitive "error"
      let body := match body.getObjectItemCaseSensitive "status" with
        | some _ => body.deleteItemFromObjectCaseSensitive "status"
        | none => body
      match ← Traced.lift (AllocM.copy ()) with
      | some _ => pure (body.addStringToObject "status" "success")
      | none => pure body

def readErrorCode (err : CJson) : Converting Int :=
  match err.errorCode with
  | some code => toInt p code
  | none => pure 0

def errorDetails (body : CJson) : Converting (Int × CString × CJson) :=
  match body.errorObject with
  | none => pure (0, [], body)
  | some err => do
    let code ← readErrorCode p err
    let (m, err) ← jsonGetString p err "error_message"
    pure (code, m.getD [], body.setItem "error" err)

def raiseError (client : Client) (body : CJson) (customCatalogContext : Bool) :
    Converting (AuddError × Client × CJson) := do
  let (code, msg, body) ← errorDetails p body
  let full ← Traced.lift
    (AllocM.copy (("[#" : CString) ++ decimal code ++ ("] " : CString) ++ msg))
  let client ← Traced.lift (client.setError (full.getD msg) code)
  if customCatalogContext ∧ (code = 904 ∨ code = 905) then do
    let override ← Traced.lift (AllocM.copy (overrideText ++ msg ++ ("]" : CString)))
    let client ← Traced.lift (client.setError (override.getD msg) code)
    pure (.customCatalogAccess, client, body)
  else pure (sentinelForCode code, client, body)

def classify (client : Client) (body : CJson) (customCatalogContext : Bool) :
    Converting (AuddError × Client × CJson) :=
  if body.statusStr = ("success" : CString) then pure (.ok, client, body)
  else if body.statusStr = ("error" : CString) then raiseError p client body customCatalogContext
  else do
    let m ← Traced.lift
      (AllocM.copy (("Unexpected response status: " : CString) ++ body.statusStr))
    let client ← Traced.lift (client.setError (m.getD "unexpected status") 0)
    pure (.server, client, body)

def decodeOrRaise (client : Client) (resp : HttpResponse) (customCatalogContext : Bool) :
    Converting (AuddError × Client × HttpResponse) :=
  match resp.json with
  | none => do
    let (e, client) ← Traced.lift (raiseNonJson client.clearError resp.status)
    pure (e, client, resp)
  | some body => do
    let body ← maybeWarnAndStrip p body
    let (e, client, body) ← classify p client.clearError body customCatalogContext
    pure (e, client, { resp with json := some body })

def advanceCursor (json : Option CJson) (sinceTime : Int) : Converting Int :=
  match json.bind (CJson.getObjectItemCaseSensitive · "timestamp") with
  | some (.number ts) => toInt64 p ts
  | _ => pure sinceTime

end

section

variable {p : Platform}

theorem erase_maybeWarnAndStrip (body : CJson) :
    (maybeWarnAndStrip p body).erase = Audd.maybeWarnAndStrip p body := by
  unfold maybeWarnAndStrip Audd.maybeWarnAndStrip
  cases body.errorObject.bind CJson.errorCode with
  | none => rfl
  | some code =>
    dsimp only
    rw [Traced.erase_bind, erase_toInt, AllocM.pure_bind]
    split
    · rfl
    · split
      · rfl
      · refine Traced.erase_lift_bind fun memory => ?_
        cases memory <;> rfl

theorem erase_readErrorCode (err : CJson) : (readErrorCode p err).erase =
    pure ((err.errorCode.map (CDouble.toInt p)).getD 0) := by
  unfold readErrorCode
  cases err.errorCode <;> rfl

theorem erase_errorDetails (body : CJson) :
    (errorDetails p body).erase = Audd.errorDetails p body := by
  unfold errorDetails Audd.errorDetails
  cases body.errorObject with
  | none => rfl
  | some err =>
    dsimp only
    rw [Traced.erase_bind, erase_readErrorCode, AllocM.pure_bind]
    exact Traced.erase_bind_eq (erase_jsonGetString _ _) fun _ => rfl

theorem erase_classify (client : Client) (body : CJson) (customCatalogContext : Bool) :
    (classify p client body customCatalogContext).erase =
      Audd.classify p client body customCatalogContext := by
  unfold classify Audd.classify
  split
  · rfl
  · split
    · unfold raiseError Audd.raiseError
      refine Traced.erase_bind_eq (erase_errorDetails body) fun details => ?_
      refine Traced.erase_lift_bind fun full => ?_
      refine Traced.erase_lift_bind fun client => ?_
      split
      · refine Traced.erase_lift_bind fun override => ?_
        exact Traced.erase_lift_bind fun _ => rfl
      · rfl
    · refine Traced.erase_lift_bind fun m => ?_
      exact Traced.erase_lift_bind fun _ => rfl

/-- Without its record, the decoder is the decoder. -/
theorem erase_decodeOrRaise (client : Client) (resp : HttpResponse) (customCatalogContext : Bool) :
    (decodeOrRaise p client resp customCatalogContext).erase =
      Audd.decodeOrRaise p client resp customCatalogContext := by
  unfold decodeOrRaise Audd.decodeOrRaise
  cases resp.json with
  | none => exact Traced.erase_lift_bind fun _ => rfl
  | some body =>
    refine Traced.erase_bind_eq (erase_maybeWarnAndStrip body) fun body => ?_
    exact Traced.erase_bind_eq (erase_classify _ body _) fun _ => rfl

theorem erase_advanceCursor (json : Option CJson) (sinceTime : Int) :
    (advanceCursor p json sinceTime).erase = pure (Audd.advanceCursor p json sinceTime) := by
  unfold advanceCursor Audd.advanceCursor
  rcases json.bind (CJson.getObjectItemCaseSensitive · "timestamp") with
    _ | (_ | _ | _ | _ | _ | _) <;> rfl

/-! ### What they convert -/

theorem code_defined_iff (body : CJson) :
    BlockDefined p [.raw "error_code"] (body.getObjectItemCaseSensitive "error") ↔
      ∀ code, body.errorObject.bind CJson.errorCode = some code → code.Converts 32 := by
  simp only [← errorCodeIs_iff]
  constructor
  · rintro h code ⟨err, herr, hobject, hcode⟩
    exact h err herr hobject _ List.mem_cons_self code hcode
  · intro h err herr hobject read hread
    obtain rfl := List.mem_singleton.mp hread
    exact fun code hcode => h code ⟨err, herr, hobject, hcode⟩

theorem each_maybeWarnAndStrip (body : CJson) :
    (maybeWarnAndStrip p body).Each Conversion.Defined ↔
      BlockDefined p [.raw "error_code"] (body.getObjectItemCaseSensitive "error") := by
  rw [code_defined_iff]
  unfold maybeWarnAndStrip
  cases body.errorObject.bind CJson.errorCode with
  | none => simp
  | some code =>
    have hread : (∀ c, some code = some c → c.Converts 32) ↔ code.Converts 32 := by simp
    rw [hread]
    dsimp only
    rw [Traced.each_bind, each_toInt, erase_toInt, AllocM.every_pure]
    -- nothing is converted after the code
    refine and_iff_left_of_imp fun _ => ?_
    split
    · exact (Traced.each_pure _).mpr trivial
    · split
      · exact (Traced.each_pure _).mpr trivial
      · rw [Traced.each_copy_bind]
        simp

theorem each_errorDetails (body : CJson) : (errorDetails p body).Each Conversion.Defined ↔
    BlockDefined p errorReads (body.getObjectItemCaseSensitive "error") := by
  unfold errorDetails CJson.errorObject
  cases body.getObjectItemCaseSensitive "error" with
  | none => exact iff_of_true ((Traced.each_pure _).mpr trivial) fun _ h => nomatch h
  | some err =>
    cases hobject : err.isObject with
    | false =>
      rw [Option.filter_some, if_neg (by simp [hobject])]
      refine iff_of_true ((Traced.each_pure _).mpr trivial) fun o ho h => ?_
      obtain rfl := Option.some.inj ho
      rw [hobject] at h
      cases h
    | true =>
      have hblock : BlockDefined p errorReads (some err) ↔
          (Read.raw "error_code").Defined p err ∧ (Read.text "error_message").Defined p err := by
        simp [BlockDefined, AllDefined, errorReads, hobject]
      have hcode : (readErrorCode p err).Each Conversion.Defined ↔
          (Read.raw "error_code").Defined p err := by
        show _ ↔ ∀ d, err.getObjectItemCaseSensitive "error_code" = some (.number d) → d.Converts 32
        unfold readErrorCode CJson.errorCode
        cases err.getObjectItemCaseSensitive "error_code" with
        | none => simp
        | some item =>
          cases item with
          | number d => simp [each_toInt]
          | _ => simp
      rw [Option.filter_some, if_pos hobject, hblock]
      refine Traced.each_bind_iff hcode (AllocM.every_of_forall _ fun code => ?_)
      rw [Traced.each_bind, each_jsonGetString]
      simp

theorem each_classify (client : Client) (body : CJson) (customCatalogContext : Bool) :
    (classify p client body customCatalogContext).Each Conversion.Defined ↔
      ErrorDefined p (body.getObjectItemCaseSensitive "status")
        (body.getObjectItemCaseSensitive "error") := by
  have herror := statusStr_eq_iff body (s := "error") (by decide)
  unfold classify ErrorDefined
  rw [← herror]
  split
  · rename_i hsuccess
    rw [hsuccess]
    exact iff_of_true ((Traced.each_pure _).mpr trivial) fun h => absurd h (by decide)
  · split
    · rename_i hstatus
      rw [← each_errorDetails]
      simp only [hstatus, forall_const]
      unfold raiseError
      rw [Traced.each_bind]
      refine and_iff_left_of_imp fun _ => AllocM.every_of_forall _ fun details => ?_
      refine (Traced.each_lift_bind fun full => Traced.each_lift_bind fun client => ?_).mpr trivial
      split
      · exact Traced.each_lift_bind fun override =>
          Traced.each_lift_bind fun _ => Traced.each_pure _
      · exact Traced.each_pure _
    · rename_i hstatus
      refine iff_of_true ?_ fun h => absurd h hstatus
      exact (Traced.each_lift_bind fun m => Traced.each_lift_bind fun _ =>
        Traced.each_pure _).mpr trivial

/-! ### The body after the strip -/

theorem maybeWarnAndStrip_eq_pure {body : CJson} (h : ¬body.Deprecated p) :
    Audd.maybeWarnAndStrip p body = pure body := by
  unfold Audd.maybeWarnAndStrip
  cases hcode : body.errorObject.bind CJson.errorCode with
  | none => rfl
  | some code =>
    dsimp only
    split
    · rfl
    · rename_i h51
      split
      · rfl
      · rename_i hresult
        exact absurd ⟨⟨code, hcode, not_not.mp h51⟩, by simpa using hresult⟩ h

/-- A strip leaves the second members of the two names, and the status that it adds, if any. -/
theorem every_maybeWarnAndStrip {body : CJson} (h : body.Deprecated p) (P : CJson → Prop) :
    (Audd.maybeWarnAndStrip p body).Every P ↔ P body.stripped ∧
      P ((body.deleteItemFromObjectCaseSensitive "error").deleteItemFromObjectCaseSensitive
        "status") := by
  obtain ⟨⟨code, hcode, h51⟩, hresult⟩ := h
  rw [Audd.maybeWarnAndStrip, hcode]
  simp only [h51, hresult, ne_eq, not_true_eq_false, if_false, Bool.not_true, Bool.false_eq_true]
  rw [AllocM.every_bind, AllocM.every_copy, CJson.stripped]
  cases hs : (body.deleteItemFromObjectCaseSensitive "error").getObjectItemCaseSensitive
      "status" with
  | some item => rfl
  | none =>
    rw [CJson.deleteItem_of_get_none hs]
    rfl

theorem get_deleted_error (body : CJson) :
    ((body.deleteItemFromObjectCaseSensitive "error").deleteItemFromObjectCaseSensitive
      "status").getObjectItemCaseSensitive "error" = body.second "error" := by
  rw [CJson.get_deleteItem_ne _ (by decide), CJson.second]

theorem get_deleted_status (body : CJson) :
    ((body.deleteItemFromObjectCaseSensitive "error").deleteItemFromObjectCaseSensitive
      "status").getObjectItemCaseSensitive "status" = body.second "status" := by
  rw [CJson.second, CJson.getObjectItemCaseSensitive, CJson.getObjectItemCaseSensitive]
  simp only [CJson.members_deleteItem]
  rw [List.eraseP_comm, ← CJson.members_deleteItem, ← CJson.members_deleteItem]
  · exact CJson.get_deleteItem_ne _ (by decide)
  · intro m _
    by_cases herror : m.1 = ("error" : CString)
    · exact .inr (by simp only [herror]; decide)
    · exact .inl (by simpa using herror)

theorem every_strip_defined (body : CJson) :
    ((Audd.maybeWarnAndStrip p body).Every fun body =>
      ErrorDefined p (body.getObjectItemCaseSensitive "status")
        (body.getObjectItemCaseSensitive "error")) ↔
    (¬body.Deprecated p → ErrorDefined p (body.getObjectItemCaseSensitive "status")
      (body.getObjectItemCaseSensitive "error")) ∧
    (body.Deprecated p → ErrorDefined p (body.second "status") (body.second "error")) := by
  by_cases hd : body.Deprecated p
  · have hobject : body.isObject = true := by
      obtain ⟨⟨code, hcode, -⟩, -⟩ := hd
      obtain ⟨err, herr, -⟩ := Option.bind_eq_some_iff.mp hcode
      exact isObject_of_errorObject herr
    have hadded : ErrorDefined p (body.stripped.getObjectItemCaseSensitive "status")
        (body.stripped.getObjectItemCaseSensitive "error") ↔
        ErrorDefined p (body.second "status") (body.second "error") := by
      rw [CJson.stripped, CJson.get_addString (by simpa using hobject), if_pos rfl,
        CJson.get_addString_ne _ (by decide), get_deleted_error, get_deleted_status]
      cases body.second "status" with
      | some status => rfl
      | none =>
        -- the status that the strip adds is no error
        refine iff_of_true (fun h => ?_) fun h => ?_
        · exact absurd (CJson.string.inj (Option.some.inj h)) (by decide)
        · cases h
    rw [every_maybeWarnAndStrip hd, hadded, get_deleted_status, get_deleted_error]
    simp [hd]
  · rw [maybeWarnAndStrip_eq_pure hd, AllocM.every_pure]
    simp [hd]

theorem each_decodeOrRaise (client : Client) (resp : HttpResponse) (customCatalogContext : Bool) :
    (decodeOrRaise p client resp customCatalogContext).Each Conversion.Defined ↔
      ∀ body, resp.json = some body → BodyDefined p body := by
  unfold decodeOrRaise
  cases resp.json with
  | none =>
    refine iff_of_true ?_ fun _ h => nomatch h
    exact (Traced.each_lift_bind fun _ => Traced.each_pure _).mpr trivial
  | some body =>
    have hclassify : ∀ b, (classify p client.clearError b customCatalogContext >>= fun out =>
        pure (out.1, out.2.1, { resp with json := some out.2.2 })).Each Conversion.Defined ↔
          ErrorDefined p (b.getObjectItemCaseSensitive "status")
            (b.getObjectItemCaseSensitive "error") := by
      intro b
      rw [Traced.each_bind, each_classify]
      simp
    rw [Traced.each_bind, each_maybeWarnAndStrip, erase_maybeWarnAndStrip]
    dsimp only
    simp only [hclassify, every_strip_defined]
    constructor
    · rintro ⟨hcode, hkept, hstripped⟩ _ ⟨⟩
      exact ⟨hcode, hkept, hstripped⟩
    · intro h
      obtain ⟨hcode, hkept, hstripped⟩ := h body rfl
      exact ⟨hcode, hkept, hstripped⟩

theorem each_advanceCursor (json : Option CJson) (sinceTime : Int) :
    (advanceCursor p json sinceTime).Each Conversion.Defined ↔ TimestampDefined json := by
  unfold advanceCursor TimestampDefined
  cases json.bind (CJson.getObjectItemCaseSensitive · "timestamp") with
  | none => simp
  | some item =>
    cases item with
    | number ts => simp [each_toInt64]
    | _ => simp

end

end Converting

/-! ### When every conversion is defined -/

/-- The recorded functions are the functions, and what they convert is in range where the numbers
that they read are, each for the type that it is read as. -/
theorem conversions_defined_iff (p : Platform) :
    (∀ o, (Converting.recognitionFromJson p o).erase = recognitionFromJson p o ∧
      ((Converting.recognitionFromJson p o).Each Conversion.Defined ↔
        (o.isObject = true → RecognitionDefined p o))) ∧
    (∀ o key default,
      (Converting.jsonGetInt64 p o key default).erase = pure (jsonGetInt64 p o key default) ∧
      ((Converting.jsonGetInt64 p o key default).Each Conversion.Defined ↔
        (Read.integer key).Defined p o)) ∧
    (∀ client resp customCatalogContext,
      (Converting.decodeOrRaise p client resp customCatalogContext).erase =
        decodeOrRaise p client resp customCatalogContext ∧
      ((Converting.decodeOrRaise p client resp customCatalogContext).Each Conversion.Defined ↔
        ∀ body, resp.json = some body → BodyDefined p body)) ∧
    ∀ json sinceTime,
      (Converting.advanceCursor p json sinceTime).erase = pure (advanceCursor p json sinceTime) ∧
      ((Converting.advanceCursor p json sinceTime).Each Conversion.Defined ↔
        TimestampDefined json) := by
  refine ⟨fun o => ⟨?_, ?_⟩, fun o key default => ⟨?_, ?_⟩,
    fun client resp customCatalogContext => ⟨?_, ?_⟩, fun json sinceTime => ⟨?_, ?_⟩⟩
  · exact Converting.erase_recognitionFromJson o
  · exact Converting.each_recognitionFromJson o
  · exact Converting.erase_jsonGetInt64 o key default
  · exact Converting.each_jsonGetInt64 o key default
  · exact Converting.erase_decodeOrRaise client resp customCatalogContext
  · exact Converting.each_decodeOrRaise client resp customCatalogContext
  · exact Converting.erase_advanceCursor json sinceTime
  · exact Converting.each_advanceCursor json sinceTime

theorem not_defined_of_trunc {c : Conversion} {n : Int} (h : c.value.trunc = some n)
    (hrange : ¬InRange c.bits n) : ¬c.Defined := by
  rintro ⟨m, hm, hm_range⟩
  obtain rfl := Option.some.inj (h.symm.trans hm)
  exact hrange hm_range

/-- An identifier and an error code past `int`, and a member and a timestamp past `long`, are
converted in the run with all its memory. -/
theorem undefined_conversions :
    (∃ c ∈ (Converting.recognitionFromJson .exact
      (.object [("audio_id", .number (.finite 4294967296))])).recorded.ok.2, ¬c.Defined) ∧
    (∃ c ∈ (Converting.jsonGetInt64 .exact
      (.object [("length", .number (.finite (10 ^ 30)))]) "length" 0).recorded.ok.2,
      ¬c.Defined) ∧
    (∃ c ∈ (Converting.decodeOrRaise .exact (.new none none none) ⟨200, none, none,
      some (.object [("error", .object [("error_code", .number (.finite 10000000000))])])⟩
      false).recorded.ok.2, ¬c.Defined) ∧
    ∃ c ∈ (Converting.advanceCursor .exact
      (some (.object [("timestamp", .number (.finite (10 ^ 30)))])) 0).recorded.ok.2,
      ¬c.Defined := by
  have hlong : (CDouble.finite (10 ^ 30)).trunc = some (10 ^ 30) := by decide
  refine ⟨⟨⟨32, .finite 4294967296⟩, ?_, ?_⟩, ⟨⟨64, .finite (10 ^ 30)⟩, ?_, ?_⟩,
    ⟨⟨32, .finite 10000000000⟩, ?_, ?_⟩, ⟨⟨64, .finite (10 ^ 30)⟩, ?_, ?_⟩⟩
  · exact List.mem_singleton.mpr rfl
  · exact not_defined_of_trunc (n := 4294967296) (by decide) (by decide)
  · exact List.mem_singleton.mpr rfl
  · exact not_defined_of_trunc hlong (by decide)
  · exact List.mem_singleton.mpr rfl
  · exact not_defined_of_trunc (n := 10000000000) (by decide) (by decide)
  · exact List.mem_singleton.mpr rfl
  · exact not_defined_of_trunc hlong (by decide)

end Audd
