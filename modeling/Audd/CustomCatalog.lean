import Audd.Recognize

/-! Custom-catalog uploads: one attempt, and a decoding that explains the codes of an account
without access. -/

namespace Audd

def catalogFile (source : FileSource) : HttpFile where
  name := some "file"
  filename :=
    match source with
    | .path path => some (basename path)
    | .bytes _ => some "upload.bin"
  contentType := some "application/octet-stream"
  source := source

def catalogForm (audioId : Int) (source : FileSource) : HttpForm :=
  ⟨some ["audio_id", decimal audioId], some (catalogFile source)⟩

section

variable (parse : CString → Option CJson) (p : Platform) (fileExists : CString → Bool)

/-- `cc_attempt`. -/
def catalogAttempt (audioId : Int) (source : FileSource) (client : Client) (transfer : Transfer) :
    AllocM Posted :=
  httpPost parse client "https://api.audd.io/upload/" (catalogForm audioId source)
    client.options.standardTimeoutSeconds transfer

def catalogRequest (audioId : Int) (source : FileSource) : Request Unit where
  cls := .none
  post := catalogAttempt parse audioId source
  finish client resp := do
    let (e, client, _) ← decodeOrRaise p client resp true
    pure (e, client, none)

def customCatalogAdd (audioId : Int) (source : Option CString) (client : Client) :
    AllocM (Prepared Unit) :=
  match source with
  | none => pure (.refused .invalidArgument client)
  | some source =>
    if !fileExists source then do
      let client ← client.setError "audd: source must be an existing file path" 0
      pure (.refused .invalidArgument client)
    else pure (.request client (catalogRequest parse p audioId (.path source)))

def customCatalogAddBytes (audioId : Int) (data : Option CString) (client : Client) :
    AllocM (Prepared Unit) :=
  match data with
  | none | some [] => pure (.refused .invalidArgument client)
  | some data => pure (.request client (catalogRequest parse p audioId (.bytes data)))

end

end Audd
