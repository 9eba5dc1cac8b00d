import Audd.Client
import Audd.Json

/-! The HTTP transport of `audd_http.c`.  libcurl is an input: a `Perform` is what one
`curl_easy_perform` did, hop by hop, since redirects are followed.  `httpPost` and `httpGet` give
the outcome that the client makes of it, with the request that it handed over. -/

namespace Audd

/-! ### Responses and transfers -/

/-- The response structure that an attempt fills.  `json` is the parsed body. -/
structure HttpResponse where
  status : Int
  body : Option CString
  requestId : Option CString
  json : Option CJson

def HttpResponse.zero : HttpResponse := ⟨0, none, none, none⟩

/-- The curl codes that the source tells apart; every other one is known by its number. -/
inductive CURLcode
  | ok
  | unsupportedProtocol
  | urlMalformat
  | couldntResolveProxy
  | couldntResolveHost
  | couldntConnect
  | sslConnectError
  | peerFailedVerification
  | sslCipher
  | sslCacertBadfile
  | interfaceFailed
  | other (n : Nat)
deriving DecidableEq, Repr

/-- One hop of a transfer: a resolve, a connection, and a send, of which any may be the last.
`sent` counts the request-body bytes handed to the transport and `status` is the status line that
came back, 0 for none. -/
structure Hop where
  sent : Nat
  status : Nat
deriving DecidableEq, Repr

/-- One `curl_easy_perform`, with `curl_easy_strerror` of its code. -/
structure Perform where
  hops : List Hop
  code : CURLcode
  strerror : CString
  body : Option CString
  requestId : Option CString
deriving DecidableEq, Repr

namespace Perform

/-- The request-body bytes handed over so far, by all of the hops. -/
def uploaded (p : Perform) : Nat := (p.hops.map Hop.sent).sum

-- `CURLINFO_RESPONSE_CODE`: the last status line of any hop
def status (p : Perform) : Nat :=
  ((p.hops.map Hop.status).filter fun status => status != 0).getLast?.getD 0

end Perform

inductive Transfer
  | noHandle  -- `curl_easy_init` returned NULL
  | performed (p : Perform)
deriving DecidableEq, Repr

/-! ### Pre-upload classification -/

/-- The codes that the source takes to come before the transfer starts. -/
def CURLcode.preTransfer : CURLcode → Bool
  | unsupportedProtocol | urlMalformat | couldntResolveProxy | couldntResolveHost | couldntConnect
  | sslConnectError | peerFailedVerification | sslCipher | sslCacertBadfile
  | interfaceFailed => true
  | ok | other _ => false

def failureIsPreUpload (curlCode : CURLcode) (uploadedBodyBytes httpStatus : Int) : Bool :=
  if curlCode.preTransfer then true else uploadedBodyBytes == 0 && httpStatus == 0

def performFailedBeforeUpload (p : Perform) : Bool :=
  failureIsPreUpload p.code p.uploaded p.status

theorem performFailedBeforeUpload_iff (p : Perform) : performFailedBeforeUpload p = true ↔
    p.code.preTransfer = true ∨ (p.uploaded = 0 ∧ p.status = 0) := by
  cases h : p.code.preTransfer <;> simp [performFailedBeforeUpload, failureIsPreUpload, h]

/-! ### Requests -/

/-- The key/value pairs of a NULL-terminated alternating array; an unpaired last key is not read. -/
def pairs {α : Type} : List α → List (α × α)
  | k :: v :: rest => (k, v) :: pairs rest
  | _ => []

def flatten {α : Type} (fields : List (α × α)) : List α := fields.flatMap fun f => [f.1, f.2]

theorem pairs_flatten {α : Type} (fields : List (α × α)) : pairs (flatten fields) = fields := by
  induction fields with
  | nil => rfl
  | cons f fields ih => exact congrArg (f :: ·) ih

/-- Whatever one key more is behind the pairs, it is not read. -/
theorem pairs_flatten_append {α : Type} (fields : List (α × α)) {unpaired : List α}
    (h : unpaired.length ≤ 1) : pairs (flatten fields ++ unpaired) = fields := by
  induction fields with
  | nil =>
    match unpaired, h with
    | [], _ => rfl
    | [_], _ => rfl
  | cons f fields ih => exact congrArg (f :: ·) ih

/-- Every list is one of pairs, or of pairs and one key more. -/
theorem exists_flatten_append {α : Type} (list : List α) :
    ∃ fields unpaired, list = flatten fields ++ unpaired ∧ unpaired.length ≤ 1 := by
  induction list using pairs.induct with
  | case1 k v rest ih =>
    obtain ⟨fields, unpaired, hrest, hlength⟩ := ih
    exact ⟨(k, v) :: fields, unpaired, congrArg (fun rest => k :: v :: rest) hrest, hlength⟩
  | case2 list hshort =>
    refine ⟨[], list, rfl, ?_⟩
    by_contra hlong
    obtain ⟨k, v, rest, rfl⟩ : ∃ k v rest, list = k :: v :: rest := by
      cases list with
      | nil => simp at hlong
      | cons k list =>
        cases list with
        | nil => simp at hlong
        | cons v rest => exact ⟨k, v, rest, rfl⟩
    exact hshort k v rest rfl

theorem flatten_append {α : Type} (xs ys : List (α × α)) :
    flatten (xs ++ ys) = flatten xs ++ flatten ys :=
  List.flatMap_append

theorem flatten_length {α : Type} (fields : List (α × α)) :
    (flatten fields).length = 2 * fields.length := by
  induction fields with
  | nil => rfl
  | cons f fields ih =>
    show (flatten fields).length + 1 + 1 = 2 * (fields.length + 1)
    omega

inductive FileSource
  | path (p : CString)
  | bytes (data : CString)
deriving DecidableEq, Repr

structure HttpFile where
  name : Option CString
  filename : Option CString
  contentType : Option CString
  source : FileSource
deriving DecidableEq, Repr

structure HttpForm where
  fields : Option (List CString)
  file : Option HttpFile
deriving DecidableEq, Repr

inductive PartContent
  | value (v : CString)
  | file (filename contentType : CString) (source : FileSource)
deriving DecidableEq, Repr

structure MimePart where
  name : CString
  content : PartContent
deriving DecidableEq, Repr

structure HttpRequest where
  url : CString
  timeoutSeconds : Int
  parts : List MimePart
deriving DecidableEq, Repr

def valuePart (field : CString × CString) : MimePart := ⟨field.1, .value field.2⟩

def tokenPart (apiToken : Option CString) : List MimePart :=
  (apiToken.map fun token => valuePart ("api_token", token)).toList

def filePart (file : Option HttpFile) : List MimePart :=
  (file.map fun f => ⟨f.name.getD "file", .file (f.filename.getD "upload.bin")
    (f.contentType.getD "application/octet-stream") f.source⟩).toList

/-- The multipart form: the token, the fields in order, the file. -/
def mimeParts (apiToken : Option CString) (form : HttpForm) : List MimePart :=
  tokenPart apiToken ++ (pairs (form.fields.getD [])).map valuePart ++ filePart form.file

/-! ### One attempt -/

structure Attempt where
  rc : Int
  resp : HttpResponse
  bodyUploaded : Int

/-- What `audd_http_post` leaves: its outcome, the client, and the request that it handed over. -/
structure Posted where
  attempt : Attempt
  client : Client
  request : Option HttpRequest

section

variable (parse : CString → Option CJson)

/-- `try_parse_json`.  One entry of the schedule stands for all of the parser's allocations. -/
def tryParseJson (body : Option CString) : AllocM (Option CJson) :=
  match body with
  | none | some [] => pure none
  | some text => do pure (← AllocM.copy (parse text)).join

def connectionError (client : Client) (p : Perform) : AllocM Client := do
  let msg ← AllocM.copy (("audd: connection error: " : String) ++ p.strerror)
  client.setError (msg.getD "connection error") 0

def received (client : Client) (p : Perform) : AllocM (HttpResponse × Client) := do
  let client ← client.setRequestId p.requestId
  let json ← tryParseJson parse p.body
  pure (⟨p.status, p.body, p.requestId, json⟩, client)

def httpPost (client : Client) (url : CString) (form : HttpForm) (timeoutSeconds : Int)
    (transfer : Transfer) : AllocM Posted :=
  match transfer with
  | .noHandle => do
    let client ← client.setError "curl_easy_init failed" 0
    pure ⟨⟨-1, .zero, 1⟩, client, none⟩
  | .performed p => do
    let apiToken ← client.copyApiToken
    let request := some ⟨url, timeoutSeconds, mimeParts apiToken form⟩
    if p.code ≠ .ok then
      let client ← connectionError client p
      pure ⟨⟨-1, .zero, if performFailedBeforeUpload p then 0 else 1⟩, client, request⟩
    else
      let (resp, client) ← received parse client p
      pure ⟨⟨0, resp, 1⟩, client, request⟩

inductive Fetch
  | noEscape
  | transfer (t : Transfer)
deriving DecidableEq, Repr

/-- `audd_http_get` after its URL is sized: the return value, the response, and the client. -/
def httpGet (client : Client) (fetch : Fetch) : AllocM (Int × HttpResponse × Client) := do
  match ← AllocM.copy () with
  | none => do pure (-1, .zero, ← client.setError "out of memory" 0)
  | some _ =>
    match fetch with
    | .noEscape => do pure (-1, .zero, ← client.setError "curl_easy_escape failed" 0)
    | .transfer .noHandle => do pure (-1, .zero, ← client.setError "curl_easy_init failed" 0)
    | .transfer (.performed p) =>
      if p.code ≠ .ok then do pure (-1, .zero, ← connectionError client p)
      else do
        let (resp, client) ← received parse client p
        pure (0, resp, client)

end

end Audd
