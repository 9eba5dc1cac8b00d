import Audd.Client
import Audd.Lib.Ownership
import Audd.Lib.Transition
import Mathlib.Data.Finset.Option

/-! Threads on one client.  Each function of `audd_client.c` and `audd_error.c` that takes the
client's lock goes its way in single steps, with other threads between any two of them: a request
for memory, an access to a field or to a block, taking the lock, leaving it.  A thread's phase says
how far its call has come and what its local pointers hold.  A block holds the characters of a
string; the terminator is left out. -/

namespace Audd

namespace Threads

/-- The fields of `struct audd_client` that point to a string and are guarded by the lock. -/
inductive Field
  | apiToken
  | lastErrorMessage
  | lastRequestId
deriving DecidableEq, Repr

inductive Result
  | unit
  | error (e : AuddError)
  | text (s : Option CString)
  /-- A pointer that stays the client's, with NULL for the literal `""`. -/
  | borrowed (p : Option Nat)
  | code (n : Int)
deriving DecidableEq

/-- A call that changes a field: it copies `source`, changes places with the field's pointer under
the lock, and frees what the field held. -/
structure Swap where
  field : Field
  source : Option CString
  code : Option Int
  /-- What is returned when the copy is refused.  `none`: the call goes on without one. -/
  refused : Option Result
  result : Result
deriving DecidableEq

/-- A call that returns what it reads under the lock. -/
inductive Accessor
  | copyApiToken
  | lastErrorMessage
  | lastErrorCode
  | lastRequestId
deriving DecidableEq, Repr

inductive Call
  | swap (w : Swap)
  | access (a : Accessor)
deriving DecidableEq

/-! ### The functions -/

/-- `audd_client_set_api_token`, with a token that is neither NULL nor empty. -/
def setApiToken (newToken : CString) : Call :=
  .swap ⟨.apiToken, some newToken, none, some (.error .outOfMemory), .error .ok⟩

/-- `audd_client_set_error`. -/
def setError (message : CString) (apiCode : Int) : Call :=
  .swap ⟨.lastErrorMessage, some message, some apiCode, none, .unit⟩

/-- `audd_client_set_request_id`. -/
def setRequestId (rid : Option CString) : Call :=
  .swap ⟨.lastRequestId, rid, none, none, .unit⟩

/-- `audd_client_clear_error`. -/
def clearError : Call := .swap ⟨.lastErrorMessage, none, some 0, none, .unit⟩

/-- `audd_client_copy_api_token`. -/
def copyApiToken : Call := .access .copyApiToken

def lastErrorMessage : Call := .access .lastErrorMessage

def lastErrorCode : Call := .access .lastErrorCode

def lastRequestId : Call := .access .lastRequestId

/-- The calls that threads make. -/
inductive Provided : Call → Prop
  | setApiToken {newToken : CString} : newToken ≠ [] → Provided (setApiToken newToken)
  | setError (message : CString) (apiCode : Int) : Provided (setError message apiCode)
  | setRequestId (rid : Option CString) : Provided (setRequestId rid)
  | clearError : Provided clearError
  | access (a : Accessor) : Provided (.access a)

/-! ### States -/

/-- How far the call of a thread has come.  `dup` and `old` are its local pointers. -/
inductive Phase
  | idle
  | called (c : Call)
  | dupped (w : Swap) (dup : Option Nat)
  | entered (w : Swap) (dup : Option Nat)
  | loaded (w : Swap) (dup old : Option Nat)
  | stored (w : Swap) (old : Option Nat)
  | coded (w : Swap) (old : Option Nat)
  | left (w : Swap) (old : Option Nat)
  | reading (a : Accessor)
  /-- The copy of the token, or NULL. -/
  | copied (copy : Option Nat)
  | read (r : Result)
  | returningCopy (copy : Option Nat)
  | returning (r : Result)

/-- Between `pthread_mutex_lock` and `pthread_mutex_unlock`. -/
def Phase.inside : Phase → Bool
  | entered .. | loaded .. | stored .. | coded .. | reading _ | copied _ | read _ => true
  | _ => false

/-- The pointer that only this thread can free. -/
def Phase.owned : Phase → Option Nat
  | dupped _ dup | entered _ dup | loaded _ dup _ => dup
  | stored _ old | coded _ old | left _ old => old
  | copied copy | returningCopy copy => copy
  | _ => none

/-- A client and its threads; `kept` are the copies that callers have not freed. -/
structure State (τ : Type) where
  phase : τ → Phase
  holder : Option τ
  fields : Field → Option Nat
  code : Int
  kept : Finset Nat
  heap : Heap Char

def characters (block : List (Option Char)) : CString := block.reduceOption

variable {τ : Type} [DecidableEq τ]

namespace State

variable (s : State τ)

/-- The string that a pointer points to. -/
def text (p : Option Nat) : Option CString := p.bind fun b => (s.heap.blocks b).map characters

def goes (t : τ) (phase : Phase) : State τ := { s with phase := Function.update s.phase t phase }

/-- `audd_strdup` of a string that the caller passed, granted. -/
def dups (source : CString) : State τ := { s with heap := s.heap.alloc (source.map some) }

end State

/-- What a call shows: that a thread makes it, and what it returns. -/
inductive Event (τ : Type)
  | call (t : τ) (c : Call)
  | returns (t : τ) (r : Result)

/-! ### Steps -/

/-- The steps of a thread. -/
inductive Step : State τ → Option (Event τ) → State τ → Prop
  | call {s : State τ} {t : τ} {c : Call} : Provided c → s.phase t = .idle →
      Step s (some (.call t c)) (s.goes t (.called c))
  -- `dup = audd_strdup(..)`
  | dupNull {s : State τ} {t : τ} {w : Swap} : s.phase t = .called (.swap w) → w.source = none →
      Step s none (s.goes t (.dupped w none))
  | dup {s : State τ} {t : τ} {w : Swap} {source : CString} : s.phase t = .called (.swap w) →
      w.source = some source →
      Step s none ((s.dups source).goes t (.dupped w (some s.heap.next)))
  | dupRefused {s : State τ} {t : τ} {w : Swap} {source : CString} :
      s.phase t = .called (.swap w) → w.source = some source →
      Step s none (s.goes t
        (match w.refused with
        | some r => .returning r
        | none => .dupped w none))
  | lock {s : State τ} {t : τ} {w : Swap} {dup : Option Nat} : s.phase t = .dupped w dup →
      s.holder = none → Step s none { s.goes t (.entered w dup) with holder := some t }
  -- `old = client->field`
  | load {s : State τ} {t : τ} {w : Swap} {dup : Option Nat} : s.phase t = .entered w dup →
      Step s none (s.goes t (.loaded w dup (s.fields w.field)))
  -- `client->field = dup`
  | store {s : State τ} {t : τ} {w : Swap} {dup old : Option Nat} :
      s.phase t = .loaded w dup old →
      Step s none { s.goes t (.stored w old) with fields := Function.update s.fields w.field dup }
  | storeCode {s : State τ} {t : τ} {w : Swap} {old : Option Nat} : s.phase t = .stored w old →
      Step s none { s.goes t (.coded w old) with code := w.code.getD s.code }
  | unlock {s : State τ} {t : τ} {w : Swap} {old : Option Nat} : s.phase t = .coded w old →
      Step s none { s.goes t (.left w old) with holder := none }
  -- `audd_free(old)`
  | free {s : State τ} {t : τ} {w : Swap} {old : Option Nat} : s.phase t = .left w old →
      Step s none { s.goes t (.returning w.result) with heap := s.heap.release old }
  | lockAccess {s : State τ} {t : τ} {a : Accessor} : s.phase t = .called (.access a) →
      s.holder = none → Step s none { s.goes t (.reading a) with holder := some t }
  | copyNull {s : State τ} {t : τ} : s.phase t = .reading .copyApiToken →
      s.fields .apiToken = none → Step s none (s.goes t (.copied none))
  -- `audd_strdup(client->api_token)`
  | copy {s : State τ} {t : τ} {b : Nat} {block : List (Option Char)} :
      s.phase t = .reading .copyApiToken → s.fields .apiToken = some b →
      s.heap.blocks b = some block →
      Step s none { s.goes t (.copied (some s.heap.next)) with heap := s.heap.alloc block }
  | copyRefused {s : State τ} {t : τ} {b : Nat} {block : List (Option Char)} :
      s.phase t = .reading .copyApiToken → s.fields .apiToken = some b →
      s.heap.blocks b = some block → Step s none (s.goes t (.copied none))
  | copyStale {s : State τ} {t : τ} {b : Nat} : s.phase t = .reading .copyApiToken →
      s.fields .apiToken = some b → s.heap.blocks b = none →
      Step s none { s.goes t (.copied none) with heap := s.heap.fault }
  -- the pointers are read, but not what they point to
  | readMessage {s : State τ} {t : τ} : s.phase t = .reading .lastErrorMessage →
      Step s none (s.goes t (.read (.borrowed (s.fields .lastErrorMessage))))
  | readRequestId {s : State τ} {t : τ} : s.phase t = .reading .lastRequestId →
      Step s none (s.goes t (.read (.borrowed (s.fields .lastRequestId))))
  | readCode {s : State τ} {t : τ} : s.phase t = .reading .lastErrorCode →
      Step s none (s.goes t (.read (.code s.code)))
  | unlockCopy {s : State τ} {t : τ} {copy : Option Nat} : s.phase t = .copied copy →
      Step s none { s.goes t (.returningCopy copy) with holder := none }
  | unlockRead {s : State τ} {t : τ} {r : Result} : s.phase t = .read r →
      Step s none { s.goes t (.returning r) with holder := none }
  | returnCopy {s : State τ} {t : τ} {copy : Option Nat} : s.phase t = .returningCopy copy →
      Step s (some (.returns t (.text (s.text copy))))
        { s.goes t .idle with kept := copy.toFinset ∪ s.kept }
  | returns {s : State τ} {t : τ} {r : Result} : s.phase t = .returning r →
      Step s (some (.returns t r)) (s.goes t .idle)
  -- `audd_string_free`, by whoever holds the copy
  | stringFree {s : State τ} {b : Nat} : b ∈ s.kept →
      Step s none { s with kept := s.kept.erase b, heap := s.heap.release (some b) }

/-- A client as `audd_client_new` leaves it, before any thread calls. -/
def start (client : Client) : State τ where
  phase _ := .idle
  holder := none
  fields
    | .apiToken => client.apiToken.map fun _ => 0
    | _ => none
  code := 0
  kept := ∅
  heap :=
    match client.apiToken with
    | some token => Heap.empty.alloc (token.map some)
    | none => Heap.empty

/-- The threads of a new client. -/
def threads (client : Client) : Transition (State τ) (Event τ) where
  init s := s = start client
  step := Step

/-! ### Accesses -/

inductive Location
  | field (f : Field)
  | code
  | block (b : Nat)
deriving DecidableEq

/-- Who goes on next: a thread with its call, or the holder of a copy, who may read or free it. -/
inductive Actor (τ : Type)
  | thread (t : τ)
  | caller (b : Nat)
deriving DecidableEq

namespace State

variable (s : State τ)

/-- What the next step of a thread reads. -/
def phaseReads : Phase → List Location
  | .entered w _ => [.field w.field]
  | .reading .copyApiToken =>
    .field .apiToken :: (s.fields .apiToken).toList.map Location.block
  | .reading .lastErrorMessage => [.field .lastErrorMessage]
  | .reading .lastRequestId => [.field .lastRequestId]
  | .reading .lastErrorCode => [.code]
  | _ => []

/-- What it writes; to free a block is to write to it. -/
def phaseWrites : Phase → List Location
  | .loaded w _ _ => [.field w.field]
  | .stored w _ => w.code.toList.map fun _ => .code
  | .left _ old => old.toList.map Location.block
  | _ => []

def reads : Actor τ → List Location
  | .thread t => s.phaseReads (s.phase t)
  | .caller b => if b ∈ s.kept then [.block b] else []

def writes : Actor τ → List Location
  | .thread t => phaseWrites (s.phase t)
  | .caller b => if b ∈ s.kept then [.block b] else []

/-- `audd_client_free`, for the strings of the fields. -/
def clientFree : Heap Char :=
  ((s.heap.release (s.fields .apiToken)).release (s.fields .lastErrorMessage)).release
    (s.fields .lastRequestId)

end State

end Threads

end Audd
