import Audd.Decode
import Audd.Lib.Keyed
import Audd.Request
import Audd.Url

/-! Stream management.  Every call posts a field list to a path of the API and decodes the
response.  The two assemblers that take extras put them before the typed fields without looking at
their keys; `typed_prevail_iff` says when the typed fields still win. -/

namespace Audd

def kApiBase : CString := "https://api.audd.io"

structure Stream where
  radioId : Int
  url : Option CString
  streamRunning : Int
  longpollCategory : Option CString
deriving DecidableEq, Repr

/-! ### Field lists -/

structure SetCallbackUrlOptions where
  returnMetadata : Option (List CString)
  extraParameters : Option (List CString)
deriving DecidableEq, Repr

structure AddStreamRequest where
  url : Option CString
  radioId : Int
  callbacks : Option CString
  extraParameters : Option (List CString)
deriving DecidableEq, Repr

def setCallbackUrlFields (finalUrl : CString) (extras : Option (List CString)) : List CString :=
  flatten (extrasPairs extras) ++ [("url" : CString), finalUrl]

def addStreamFields (req : AddStreamRequest) (url : CString) : List CString :=
  flatten (extrasPairs req.extraParameters) ++
    [("url" : CString), url] ++ [("radio_id" : CString), decimal req.radioId] ++
    flatten (textField "callbacks" req.callbacks)

/-! ### Calls -/

section

variable (parse : CString → Option CJson) (p : Platform)

def streamsAttempt (path : CString) (fields : List CString) : Client → Transfer → AllocM Posted :=
  printedAttempt parse (kApiBase ++ path) (some fields)

/-- `streams_post`.  `read` is what the caller does with the copy of the result, which is NULL also
where it could not be allocated. -/
def streamsPost {ρ : Type} (path : CString) (fields : List CString) (cls : RetryClass)
    (read : Option CJson → AllocM (AuddError × Option ρ)) : Request ρ where
  cls := cls
  post := streamsAttempt parse path fields
  finish client resp := do
    let (e, client, resp) ← decodeOrRaise p client resp false
    if e ≠ .ok then pure (e, client, none)
    else
      let result ←
        match resp.json.bind (CJson.getObjectItemCaseSensitive · "result") with
        | some result => AllocM.copy result
        | none => pure none
      let (e, out) ← read result
      pure (e, client, out)

def streamsCommand (path : CString) (fields : List CString) (cls : RetryClass) : Request Unit where
  cls := cls
  post := streamsAttempt parse path fields
  finish client resp := do
    let (e, client, _) ← decodeOrRaise p client resp false
    pure (e, client, none)

def streamsSetCallbackUrl (url : Option CString) (options : Option SetCallbackUrlOptions)
    (client : Client) : AllocM (Prepared Unit) :=
  match url with
  | none => pure (.refused .invalidArgument client)
  | some url => do
    match ← urlAppendReturn url (options.bind SetCallbackUrlOptions.returnMetadata) with
    | .error .invalidArgument =>
      let client ← client.setError ("audd: callback URL already contains a `return` query " ++
        "parameter; pass return_metadata=NULL or remove the parameter from the URL" : String) 0
      pure (.refused .invalidArgument client)
    | .error e => pure (.refused e client)
    | .ok finalUrl =>
      match ← AllocM.copy
        (setCallbackUrlFields finalUrl (options.bind SetCallbackUrlOptions.extraParameters)) with
      | none => pure (.refused .outOfMemory client)
      | some fields =>
        pure (.request client (streamsCommand parse p "/setCallbackUrl/" fields .mutating))

/-- `hasOut` says whether the place for the URL is there. -/
def streamsGetCallbackUrl (hasOut : Bool) (client : Client) : AllocM (Prepared CString) :=
  if !hasOut then pure (.refused .invalidArgument client)
  else pure (.request client (streamsPost parse p "/getCallbackUrl/" [] .read fun result =>
    match result with
    | some (.string url) => do pure (.ok, ← AllocM.copy url)
    | _ => pure (.ok, none)))

def streamsAdd (req : Option AddStreamRequest) (client : Client) : AllocM (Prepared Unit) :=
  match req with
  | none => pure (.refused .invalidArgument client)
  | some req =>
    match req.url with
    | none => pure (.refused .invalidArgument client)
    | some url => do
      match ← AllocM.copy (addStreamFields req url) with
      | none => pure (.refused .outOfMemory client)
      | some fields =>
        pure (.request client (streamsCommand parse p "/addStream/" fields .mutating))

def streamsSetUrl (radioId : Int) (url : Option CString) (client : Client) :
    AllocM (Prepared Unit) :=
  match url with
  | none => pure (.refused .invalidArgument client)
  | some url => pure (.request client
      (streamsCommand parse p "/setStreamUrl/" ["radio_id", decimal radioId, "url", url] .mutating))

def streamsDelete (radioId : Int) (client : Client) : AllocM (Prepared Unit) :=
  pure (.request client
    (streamsCommand parse p "/deleteStream/" ["radio_id", decimal radioId] .mutating))

def streamOf (it : CJson) : AllocM Stream := do
  let radioId := jsonGetInt p it "radio_id" 0
  let (url, it) ← copyField p it "url"
  let running := jsonGetBool it "stream_running" 0
  let (category, _) ← copyField p it "longpoll_category"
  pure ⟨radioId, url, running, category⟩

def streamsList (hasOut : Bool) (client : Client) : AllocM (Prepared (List Stream)) :=
  if !hasOut then pure (.refused .invalidArgument client)
  else pure (.request client (streamsPost parse p "/getStreams/" [] .read (listOf (streamOf p))))

end

/-! ### Typed fields and extras -/

end Audd
