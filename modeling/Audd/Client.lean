import Audd.CLib
import Audd.Lib.Alloc

/-! The client object and its last-error state, with the error sentinels. -/

namespace Audd

inductive AuddError
  | ok
  | authentication
  | quota
  | subscription
  | customCatalogAccess
  | invalidRequest
  | invalidAudio
  | rateLimit
  | streamLimit
  | notReleased
  | blocked
  | needsUpdate
  | server
  | connection
  | serialization
  | invalidArgument
  | outOfMemory
  | io
  | closed
  | notFound
deriving DecidableEq, Repr

def sentinelForCode (code : Int) : AuddError :=
  if code = 900 ∨ code = 901 ∨ code = 903 then .authentication
  else if code = 902 then .quota
  else if code = 904 ∨ code = 905 then .subscription
  else if code ∈ [50, 51, 600, 601, 602, 700, 701, 702, 906] then .invalidRequest
  else if code = 300 ∨ code = 400 ∨ code = 500 then .invalidAudio
  else if code = 610 then .streamLimit
  else if code = 611 then .rateLimit
  else if code = 907 then .notReleased
  else if code = 19 ∨ code = 31337 then .blocked
  else if code = 20 then .needsUpdate
  else .server

theorem sentinelForCode_ne_ok (code : Int) : sentinelForCode code ≠ .ok := by
  unfold sentinelForCode
  split_ifs <;> decide

structure Options where
  standardTimeoutSeconds : Int
  enterpriseTimeoutSeconds : Int
  maxAttempts : Int
  backoffMs : Int
deriving DecidableEq, Repr

/-- `struct audd_client`: the fields that requests read or write. -/
structure Client where
  apiToken : Option CString
  options : Options
  lastErrorMessage : Option CString
  lastErrorCode : Int
  lastRequestId : Option CString
  closed : Bool
deriving DecidableEq, Repr

def Options.default : Options := ⟨60, 3600, 3, 500⟩

/-- The options of a new client: a value that is not positive is replaced by its default. -/
def Options.withDefaults (o : Options) : Options where
  standardTimeoutSeconds := if o.standardTimeoutSeconds ≤ 0 then 60 else o.standardTimeoutSeconds
  enterpriseTimeoutSeconds :=
    if o.enterpriseTimeoutSeconds ≤ 0 then 3600 else o.enterpriseTimeoutSeconds
  maxAttempts := if o.maxAttempts ≤ 0 then 3 else o.maxAttempts
  backoffMs := if o.backoffMs ≤ 0 then 500 else o.backoffMs

namespace Client

/-- `audd_client_new`, with its memory granted; `env` is the token of the environment. -/
def new (apiToken env : Option CString) (options : Option Options) : Client where
  apiToken := ((apiToken.filter (· ≠ [])).or env).filter (· ≠ [])
  options := (options.getD .default).withDefaults
  lastErrorMessage := none
  lastErrorCode := 0
  lastRequestId := none
  closed := false

/-- `audd_client_set_error`.  The message is dropped when its copy cannot be allocated. -/
def setError (c : Client) (message : CString) (apiCode : Int) : AllocM Client := do
  let copied ← AllocM.copy message
  pure { c with lastErrorMessage := copied, lastErrorCode := apiCode }

def setRequestId (c : Client) (rid : Option CString) : AllocM Client :=
  match rid with
  | some rid => do
    let copied ← AllocM.copy rid
    pure { c with lastRequestId := copied }
  | none => pure { c with lastRequestId := none }

def clearError (c : Client) : Client := { c with lastErrorMessage := none, lastErrorCode := 0 }

/-- `audd_last_error_message`: `""` when there is none. -/
def errorMessage (c : Client) : CString := c.lastErrorMessage.getD []

theorem errorMessage_of_some {c : Client} {message : CString}
    (h : c.lastErrorMessage = some message) : c.errorMessage = message := by
  rw [errorMessage, h, Option.getD_some]

def ErrorFree (c : Client) : Prop := c.errorMessage = [] ∧ c.lastErrorCode = 0

theorem clearError_errorFree (c : Client) : c.clearError.ErrorFree := ⟨rfl, rfl⟩

@[simp] theorem setError_ok (c : Client) (message : CString) (apiCode : Int) :
    (c.setError message apiCode).ok =
      { c with lastErrorMessage := some message, lastErrorCode := apiCode } := rfl

/-- Whatever becomes of the message, the code is recorded. -/
@[simp] theorem setError_every {P : Client → Prop} (c : Client) (message : CString)
    (apiCode : Int) : (c.setError message apiCode).Every P ↔
      P { c with lastErrorMessage := some message, lastErrorCode := apiCode } ∧
      P { c with lastErrorMessage := none, lastErrorCode := apiCode } := by
  simp [setError]

theorem setRequestId_every {P : Client → Prop} {c : Client} (rid : Option CString)
    (h : ∀ rid, P { c with lastRequestId := rid }) : (c.setRequestId rid).Every P := by
  cases rid <;> simp [setRequestId, h]

/-- `audd_client_set_api_token`: NULL and empty tokens are refused. -/
def setApiToken (c : Client) (newToken : Option CString) : AllocM (AuddError × Client) :=
  match newToken with
  | none | some [] => pure (.invalidArgument, c)
  | some token => do
    match ← AllocM.copy token with
    | none => pure (.outOfMemory, c)
    | some copied => pure (.ok, { c with apiToken := some copied })

/-- `audd_client_copy_api_token`: `none` when no token is set, or the copy cannot be allocated. -/
def copyApiToken (c : Client) : AllocM (Option CString) :=
  match c.apiToken with
  | some token => AllocM.copy token
  | none => pure none

end Client

end Audd
