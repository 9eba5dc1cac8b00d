import Audd.Decode
import Audd.Lib.Keyed
import Audd.Request
import Audd.Url
import Mathlib.Data.List.DropRight

/-! Recognition requests.  The form of an attempt is assembled in three places: the token part and
the file part by the transport, and the field list by `buildRecognizeFields`, which drops the
extras that a typed field shadows.  `mimeParts_exclusive_iff` says when the three together send
no name twice. -/

namespace Audd

structure RecognizeOptions where
  returnMetadata : Option (List CString)
  market : Option CString
  extraParameters : Option (List CString)
deriving DecidableEq, Repr

structure EnterpriseOptions where
  returnMetadata : Option (List CString)
  skip : Int
  every : Int
  limit : Int
  skipFirstSeconds : Int
  useTimecode : Int
  accurateOffsets : Int
  extraParameters : Option (List CString)
deriving DecidableEq, Repr

def EnterpriseOptions.default : EnterpriseOptions := ⟨none, -1, -1, -1, -1, -1, 1, none⟩

structure RecognizeCtx where
  isEnterprise : Bool
  eopts : Option EnterpriseOptions
  returnCsv : Option CString
  market : Option CString
  url : Option CString
  filePath : Option CString
  bytes : Option CString
  extraParameters : Option (List CString)
deriving DecidableEq, Repr

/-! ### Fields -/

def collectTypedKeys (ctx : RecognizeCtx) (cap : Nat) : List CString :=
  List.take cap (options ++ (if hasText ctx.returnCsv then [("return" : CString)] else []) ++
    (if hasText ctx.market then [("market" : CString)] else []) ++
    (if ctx.url.isSome then [("url" : CString)] else []))
where
  hasText (s : Option CString) : Bool := s.any (· ≠ [])
  options : List CString :=
    match ctx.isEnterprise, ctx.eopts with
    | true, some o =>
      (if o.skip ≥ 0 then [("skip" : CString)] else []) ++
      (if o.every ≥ 0 then [("every" : CString)] else []) ++
      (if o.limit ≥ 0 then [("limit" : CString)] else []) ++
      (if o.skipFirstSeconds ≥ 0 then [("skip_first_seconds" : CString)] else []) ++
      (if o.useTimecode ≥ 0 then [("use_timecode" : CString)] else []) ++
      (if o.accurateOffsets ≥ 0 then [("accurate_offsets" : CString)] else [])
    | _, _ => []

def recognizeFieldsCapacity (ctx : RecognizeCtx) : Nat :=
  9 * 2 + (extrasPairs ctx.extraParameters).length * 2 + 1

/-- The extras loop of the assembler, with `f` slots used: a shadowed extra is skipped, and the
loop ends where the next one would not fit. -/
def emitExtras (typedKeys : List CString) (capacity : Nat) :
    Nat → List (CString × CString) → List (CString × CString)
  | _, [] => []
  | f, (k, v) :: rest =>
    if k ∈ typedKeys then emitExtras typedKeys capacity f rest
    else if f + 2 ≥ capacity then []
    else (k, v) :: emitExtras typedKeys capacity (f + 2) rest

def intField (key : CString) (n : Int) : List (CString × CString) :=
  if n ≥ 0 then [(key, decimal n)] else []

def boolField (key : CString) (n : Int) : List (CString × CString) :=
  if n ≥ 0 then [(key, if n ≠ 0 then ("true" : CString) else ("false" : CString))] else []

def typedFields (ctx : RecognizeCtx) : List (CString × CString) :=
  options ++ textField "return" ctx.returnCsv ++ textField "market" ctx.market ++
    (ctx.url.map fun url => (("url" : CString), url)).toList
where
  options : List (CString × CString) :=
    match ctx.isEnterprise, ctx.eopts with
    | true, some o =>
      intField "skip" o.skip ++ intField "every" o.every ++ intField "limit" o.limit ++
      intField "skip_first_seconds" o.skipFirstSeconds ++
      boolField "use_timecode" o.useTimecode ++ boolField "accurate_offsets" o.accurateOffsets
    | _, _ => []

def buildRecognizeFields (ctx : RecognizeCtx) (capacity : Nat) : List CString :=
  flatten (emitExtras (collectTypedKeys ctx 9) capacity 0 (extrasPairs ctx.extraParameters) ++
    typedFields ctx)

/-! ### Attempts -/

def basename (path : CString) : CString := path.rtakeWhile (· ≠ '/')

def recognizeFile (ctx : RecognizeCtx) : Option HttpFile :=
  match ctx.filePath, ctx.bytes with
  | some path, _ => some ⟨some "file", some (basename path), some "application/octet-stream",
      .path path⟩
  | none, some bytes => some ⟨some "file", some "upload.bin", some "application/octet-stream",
      .bytes bytes⟩
  | none, none => none

def recognizeForm (ctx : RecognizeCtx) : HttpForm :=
  ⟨some (buildRecognizeFields ctx (recognizeFieldsCapacity ctx)), recognizeFile ctx⟩

def recognizeEndpoint (ctx : RecognizeCtx) : CString :=
  if ctx.isEnterprise then "https://enterprise.audd.io/" else "https://api.audd.io/"

def recognizeTimeout (ctx : RecognizeCtx) (options : Options) : Int :=
  if ctx.isEnterprise then options.enterpriseTimeoutSeconds else options.standardTimeoutSeconds

section

variable (parse : CString → Option CJson)

def recognizeAttempt (ctx : RecognizeCtx) (client : Client) (transfer : Transfer) :
    AllocM Posted := do
  match ← AllocM.copy () with
  | none => pure ⟨⟨-1, .zero, 1⟩, ← client.setError "audd: out of memory" 0, none⟩
  | some _ =>
    httpPost parse client (recognizeEndpoint ctx) (recognizeForm ctx)
      (recognizeTimeout ctx client.options) transfer

/-! ### Calls -/

/-- The options of a call, and with them which of the two endpoints it is for. -/
inductive RecognizeKind
  | standard (options : Option RecognizeOptions)
  | enterprise (options : Option EnterpriseOptions)
deriving DecidableEq, Repr

/-- `join_csv`: NULL for no text, and also where its memory is refused. -/
def joinCsv (items : Option (List CString)) : AllocM (Option CString) :=
  if (items.getD []).any (· ≠ []) then AllocM.copy (csv (items.getD [])) else pure none

def optionsCtx : RecognizeKind → AllocM RecognizeCtx
  | .enterprise options => do
    let o := options.getD .default
    let returnCsv ← joinCsv o.returnMetadata
    pure ⟨true, some o, returnCsv, none, none, none, none, o.extraParameters⟩
  | .standard (some o) => do
    let returnCsv ← joinCsv o.returnMetadata
    pure ⟨false, none, returnCsv, o.market, none, none, none, o.extraParameters⟩
  | .standard none => pure ⟨false, none, none, none, none, none, none, none⟩

variable (p : Platform) (fileExists : CString → Bool)

/-- What `do_recognize_common` makes of a response.  `fromJson` is the parser of the result, with
`none` for the NULL that stands for a lack of memory. -/
def finishRecognize {ρ : Type} (fromJson : Option CJson → AllocM (Option (Option ρ)))
    (client : Client) (resp : HttpResponse) : AllocM (AuddError × Client × Option ρ) := do
  let (e, client, resp) ← decodeOrRaise p client resp false
  if e ≠ .ok then pure (e, client, none)
  else
    match ← fromJson (resp.json.bind (CJson.getObjectItemCaseSensitive · "result")) with
    | none => pure (.outOfMemory, ← client.setError "audd: out of memory" 0, none)
    | some out => pure (.ok, client, out)

def doRecognizeCommon {ρ : Type} (fromJson : Option CJson → AllocM (Option (Option ρ)))
    (kind : RecognizeKind) (source bytes : Option CString) (client : Client) :
    AllocM (Prepared ρ) := do
  let client := client.clearError
  let ctx ← optionsCtx kind
  match bytes, source with
  | some data, _ => pure (request client { ctx with bytes := some data })
  | none, some source =>
    if urlIsHttp source then pure (request client { ctx with url := some source })
    else if fileExists source then pure (request client { ctx with filePath := some source })
    else do
      let m ← AllocM.copy (("audd: " : CString) ++ source.take 256 ++
        (" is not an HTTP URL (must start with http:// or https://) " ++
          "and is not an existing file path" : String).toList)
      pure (.refused .invalidArgument (← client.setError (m.getD "invalid source") 0))
  | none, none =>
    pure (.refused .invalidArgument (← client.setError "audd: source must not be NULL" 0))
where
  request (client : Client) (ctx : RecognizeCtx) : Prepared ρ :=
    .request client ⟨.recognition, recognizeAttempt parse ctx, finishRecognize p fromJson⟩

/-- `audd_recognize_bytes` and its sibling refuse NULL and empty data.  `hasOut` says whether the
result pointer is there. -/
def recognizeBytesWith {ρ : Type} (fromJson : Option CJson → AllocM (Option (Option ρ)))
    (kind : RecognizeKind) (data : Option CString) (hasOut : Bool) (client : Client) :
    AllocM (Prepared ρ) :=
  if !hasOut then pure (.refused .invalidArgument client)
  else
    match data with
    | none | some [] => pure (.refused .invalidArgument client)
    | some data => doRecognizeCommon parse p fileExists fromJson kind none (some data) client

def recognizeWith {ρ : Type} (fromJson : Option CJson → AllocM (Option (Option ρ)))
    (kind : RecognizeKind) (source : Option CString) (hasOut : Bool) (client : Client) :
    AllocM (Prepared ρ) :=
  if !hasOut then pure (.refused .invalidArgument client)
  else doRecognizeCommon parse p fileExists fromJson kind source none client

def standardResult {ρ : Type} (recognitionFromJson : CJson → AllocM (Option ρ)) :
    Option CJson → AllocM (Option (Option ρ))
  | none | some .null => pure (some none)
  | some result => do pure ((← recognitionFromJson result).map some)

def enterpriseResult {ρ : Type} (enterpriseFromJson : Option CJson → AllocM (Option ρ))
    (result : Option CJson) : AllocM (Option (Option ρ)) := do
  pure ((← enterpriseFromJson result).map some)

end

/-! ### The assembled form -/

/-- Where there is room for all of the extras, the loop emits those that no typed field shadows. -/
theorem emitExtras_eq_filter (typedKeys : List CString) {capacity : Nat}
    (extras : List (CString × CString)) {f : Nat} (hroom : f + extras.length * 2 < capacity) :
    emitExtras typedKeys capacity f extras = extras.filter fun e => e.1 ∉ typedKeys := by
  induction extras generalizing f with
  | nil => rfl
  | cons e extras ih =>
    obtain ⟨k, v⟩ := e
    rw [List.length_cons] at hroom
    by_cases hk : k ∈ typedKeys
    · rw [emitExtras, if_pos hk, ih (by omega), List.filter_cons_of_neg (by simpa using hk)]
    · rw [emitExtras, if_neg hk, if_neg (by omega), ih (by omega),
        List.filter_cons_of_pos (by simpa using hk)]

def typedNames : List CString :=
  (["skip", "every", "limit", "skip_first_seconds", "use_timecode", "accurate_offsets", "return",
    "market", "url"] : List String).map String.toList

theorem map_fst_intField (key : CString) (n : Int) :
    (intField key n).map Prod.fst = if n ≥ 0 then [key] else [] := by
  unfold intField
  split <;> rfl

theorem map_fst_boolField (key : CString) (n : Int) :
    (boolField key n).map Prod.fst = if n ≥ 0 then [key] else [] := by
  unfold boolField
  split <;> rfl

theorem map_fst_textField (key : CString) (s : Option CString) :
    (textField key s).map Prod.fst = if collectTypedKeys.hasText s then [key] else [] := by
  rcases s with _ | _ | ⟨c, s⟩ <;> rfl

theorem ite_sublist {α : Type} (c : Prop) [Decidable c] (a : α) :
    (if c then [a] else []).Sublist [a] := by
  split <;> simp

theorem typedFields_sublist (ctx : RecognizeCtx) :
    ((typedFields ctx).map Prod.fst).Sublist typedNames := by
  have hurl : ((ctx.url.map fun url => (("url" : CString), url)).toList.map Prod.fst).Sublist
      [("url" : CString)] := by
    cases ctx.url <;> simp
  have hoptions : ((typedFields.options ctx).map Prod.fst).Sublist (typedNames.take 6) := by
    unfold typedFields.options
    split
    · simp only [List.map_append, map_fst_intField, map_fst_boolField]
      exact (((((ite_sublist _ _).append (ite_sublist _ _)).append (ite_sublist _ _)).append
        (ite_sublist _ _)).append (ite_sublist _ _)).append (ite_sublist _ _)
    · exact List.nil_sublist _
  rw [typedFields, List.map_append, List.map_append, List.map_append, map_fst_textField,
    map_fst_textField]
  exact ((hoptions.append (ite_sublist _ _)).append (ite_sublist _ _)).append hurl

theorem collectTypedKeys_eq (ctx : RecognizeCtx) :
    collectTypedKeys ctx 9 = (typedFields ctx).map Prod.fst := by
  have hoptions : collectTypedKeys.options ctx = (typedFields.options ctx).map Prod.fst := by
    unfold collectTypedKeys.options typedFields.options
    split
    · simp only [List.map_append, map_fst_intField, map_fst_boolField]
    · rfl
  have hurl : (if ctx.url.isSome then [("url" : CString)] else []) =
      (ctx.url.map fun url => (("url" : CString), url)).toList.map Prod.fst := by
    cases ctx.url <;> rfl
  have hkeys := (typedFields_sublist ctx).length_le
  rw [collectTypedKeys, hoptions, hurl, ← map_fst_textField "return", ← map_fst_textField "market",
    ← List.map_append, ← List.map_append, ← List.map_append]
  exact List.take_of_length_le hkeys

/-- The extras that no typed field shadows. -/
def keptExtras (ctx : RecognizeCtx) : List (CString × CString) :=
  (extrasPairs ctx.extraParameters).filter fun e => e.1 ∉ (typedFields ctx).map Prod.fst

theorem buildRecognizeFields_eq (ctx : RecognizeCtx) :
    buildRecognizeFields ctx (recognizeFieldsCapacity ctx) =
      flatten (keptExtras ctx ++ typedFields ctx) := by
  rw [buildRecognizeFields, emitExtras_eq_filter _ _ (by unfold recognizeFieldsCapacity; omega),
    collectTypedKeys_eq]
  rfl

/-- The fields and their terminator fit the array that is allocated for them. -/
theorem buildRecognizeFields_fits (ctx : RecognizeCtx) :
    (buildRecognizeFields ctx (recognizeFieldsCapacity ctx)).length <
      recognizeFieldsCapacity ctx := by
  have htyped := (typedFields_sublist ctx).length_le
  have hnames : typedNames.length = 9 := rfl
  have hkept := List.length_filter_le (fun e : CString × CString =>
    decide (e.1 ∉ (typedFields ctx).map Prod.fst)) (extrasPairs ctx.extraParameters)
  rw [buildRecognizeFields_eq, flatten_length, recognizeFieldsCapacity, List.length_append,
    keptExtras]
  rw [List.length_map] at htyped
  omega

/-- The parts that the client sends of its own: the token, the typed fields, and the file. -/
def ownParts (apiToken : Option CString) (ctx : RecognizeCtx) : List MimePart :=
  tokenPart apiToken ++ (typedFields ctx).map valuePart ++ filePart (recognizeFile ctx)

theorem mimeParts_recognizeForm (apiToken : Option CString) (ctx : RecognizeCtx) :
    (mimeParts apiToken (recognizeForm ctx)).Perm
      ((keptExtras ctx).map valuePart ++ ownParts apiToken ctx) := by
  rw [mimeParts, recognizeForm, buildRecognizeFields_eq, Option.getD_some, pairs_flatten,
    List.map_append, ownParts, List.append_assoc, List.append_assoc, List.append_assoc]
  exact List.perm_append_comm_assoc _ _ _

theorem map_name_tokenPart (apiToken : Option CString) : (tokenPart apiToken).map MimePart.name =
    if apiToken.isSome then [("api_token" : CString)] else [] := by
  cases apiToken <;> rfl

theorem map_name_filePart (ctx : RecognizeCtx) :
    (filePart (recognizeFile ctx)).map MimePart.name =
      if (recognizeFile ctx).isSome then [("file" : CString)] else [] := by
  unfold recognizeFile
  split <;> rfl

theorem map_name_ownParts (apiToken : Option CString) (ctx : RecognizeCtx) :
    (ownParts apiToken ctx).map MimePart.name =
      (if apiToken.isSome then [("api_token" : CString)] else []) ++
      (typedFields ctx).map Prod.fst ++
      (if (recognizeFile ctx).isSome then [("file" : CString)] else []) := by
  rw [ownParts, List.map_append, List.map_append, map_name_tokenPart, map_name_filePart,
    List.map_map]
  rfl

theorem ownParts_nodup (apiToken : Option CString) (ctx : RecognizeCtx) :
    ((ownParts apiToken ctx).map MimePart.name).Nodup := by
  rw [map_name_ownParts]
  have hnames : ([("api_token" : CString)] ++ typedNames ++ [("file" : CString)]).Nodup := by decide
  exact hnames.sublist
    (((ite_sublist _ _).append (typedFields_sublist ctx)).append (ite_sublist _ _))

theorem not_mem_ownParts_iff (apiToken : Option CString) (ctx : RecognizeCtx) :
    (∀ part ∈ (keptExtras ctx).map valuePart,
      part.name ∉ (ownParts apiToken ctx).map MimePart.name) ↔
    (apiToken.isSome = true → ("api_token" : CString) ∉ (keptExtras ctx).map Prod.fst) ∧
    ((recognizeFile ctx).isSome = true → ("file" : CString) ∉ (keptExtras ctx).map Prod.fst) := by
  rw [map_name_ownParts, List.forall_mem_map]
  constructor
  · intro h
    refine ⟨fun htoken hmem => ?_, fun hfile hmem => ?_⟩
    · obtain ⟨e, he, hkey⟩ := List.mem_map.mp hmem
      refine h e he (List.mem_append_left _ (List.mem_append_left _ ?_))
      rw [if_pos htoken]
      exact List.mem_singleton.mpr hkey
    · obtain ⟨e, he, hkey⟩ := List.mem_map.mp hmem
      refine h e he (List.mem_append_right _ ?_)
      rw [if_pos hfile]
      exact List.mem_singleton.mpr hkey
  · rintro ⟨htoken, hfile⟩ e he hmem
    rcases List.mem_append.mp hmem with hmem | hmem
    · rcases List.mem_append.mp hmem with hmem | hmem
      · split at hmem
        · rename_i hsome
          exact htoken hsome (List.mem_map.mpr ⟨e, he, List.mem_singleton.mp hmem⟩)
        · cases hmem
      · exact of_decide_eq_true (List.mem_filter.mp he).2 hmem
    · split at hmem
      · rename_i hsome
        exact hfile hsome (List.mem_map.mpr ⟨e, he, List.mem_singleton.mp hmem⟩)
      · cases hmem

/-- No name is sent twice exactly when the extras that are not shadowed repeat none, and none of
them is the name of the token part or of the file part that is sent with it. -/
theorem mimeParts_exclusive_iff (apiToken : Option CString) (ctx : RecognizeCtx) :
    ((mimeParts apiToken (recognizeForm ctx)).map MimePart.name).Nodup ↔
      ((keptExtras ctx).map Prod.fst).Nodup ∧
      (apiToken.isSome = true → ("api_token" : CString) ∉ (keptExtras ctx).map Prod.fst) ∧
      ((recognizeFile ctx).isSome = true →
        ("file" : CString) ∉ (keptExtras ctx).map Prod.fst) := by
  have hextras : ((keptExtras ctx).map valuePart).map MimePart.name =
      (keptExtras ctx).map Prod.fst := by
    rw [List.map_map]
    rfl
  rw [((mimeParts_recognizeForm apiToken ctx).map MimePart.name).nodup_iff,
    Keyed.nodup_append_iff, not_mem_ownParts_iff, hextras]
  exact and_congr_right fun _ => and_iff_right (ownParts_nodup apiToken ctx)

section

variable (parse : CString → Option CJson)

/-- Every form that a recognition attempt hands over, whatever its source, options, and extras,
sends no name twice, and for a name of its own only its own part, exactly when the extras that no
typed field shadows repeat no name and none of them is the name of the token or file part that is
sent. -/
theorem recognizeAttempt_exclusive_iff (ctx : RecognizeCtx) (client : Client) (t : Transfer) :
    (recognizeAttempt parse ctx client t).Every fun posted =>
      ∀ request, posted.request = some request → ∃ apiToken,
        (apiToken = client.apiToken ∨ apiToken = none) ∧
        request.parts = mimeParts apiToken (recognizeForm ctx) ∧
        ((request.parts.map MimePart.name).Nodup ∧
          Keyed.Prevails MimePart.name (ownParts apiToken ctx) request.parts ↔
        ((keptExtras ctx).map Prod.fst).Nodup ∧
          (apiToken.isSome = true → ("api_token" : CString) ∉ (keptExtras ctx).map Prod.fst) ∧
          ((recognizeFile ctx).isSome = true →
            ("file" : CString) ∉ (keptExtras ctx).map Prod.fst)) := by
  rw [recognizeAttempt, AllocM.every_bind, AllocM.every_copy]
  refine ⟨AllocM.every_iff_run.mpr fun tape request hrequest => ?_, by simp⟩
  rw [httpPost_request] at hrequest
  cases t with
  | noHandle => cases hrequest
  | performed p =>
    obtain rfl := Option.some.inj hrequest
    refine ⟨if tape 0 then client.apiToken else none, ?_, rfl, ?_⟩
    · split
      · exact .inl rfl
      · exact .inr rfl
    · rw [← mimeParts_exclusive_iff]
      refine and_iff_left_of_imp fun h => Keyed.prevails_of_nodup h fun part hpart => ?_
      rw [(mimeParts_recognizeForm _ ctx).mem_iff]
      exact List.mem_append_right _ hpart

end

def tokenExtras : RecognizeCtx :=
  ⟨false, none, none, none, some "http://a", none, none, some ["api_token", "x"]⟩

theorem tokenExtras_twice : ∃ request,
    ((recognizeAttempt (fun _ => none) tokenExtras (.new (some "t") none none)
      (.performed ⟨[⟨64, 200⟩], .ok, [], none, none⟩)).run plenty).1.request = some request ∧
    ¬(request.parts.map MimePart.name).Nodup :=
  ⟨_, rfl, by decide⟩

end Audd
