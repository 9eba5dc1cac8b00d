import Audd.Client
import Audd.Json

/-! Stream callback bodies.  `parseCallback` reads a body as a match or as a notification: it
gives exactly one of the two when it succeeds and neither when it does not, whatever memory is
refused. -/

namespace Audd

structure CallbackSong where
  score : Int
  artist : Option CString
  title : Option CString
  album : Option CString
  releaseDate : Option CString
  label : Option CString
  songLink : Option CString
  isrc : Option CString
  upc : Option CString
deriving DecidableEq, Repr

def CallbackSong.empty : CallbackSong := ⟨0, none, none, none, none, none, none, none, none⟩

structure CallbackMatch where
  radioId : Int
  timestamp : Option CString
  playLength : Int
  song : CallbackSong
  alternatives : List CallbackSong
  rawResponse : Option CString
deriving DecidableEq, Repr

/-- `struct audd_stream_callback_notification`.  `streamRunning` is -1 where it is absent. -/
structure CallbackNotification where
  radioId : Int
  streamRunning : Int
  notificationCode : Int
  notificationMessage : Option CString
  time : Int
  rawResponse : Option CString
deriving DecidableEq, Repr

/-- What the parser returns and writes through its three output pointers. -/
structure CallbackOut where
  err : AuddError
  outMatch : Option CallbackMatch
  outNotification : Option CallbackNotification
  errorMessage : Option CString
deriving DecidableEq, Repr

def CallbackOut.Exclusive (out : CallbackOut) : Prop :=
  out.outMatch.isSome ≠ out.outNotification.isSome

def CallbackOut.failed (e : AuddError) (message : Option CString) : CallbackOut :=
  ⟨e, none, none, message⟩

section

variable (p : Platform)

def parseSong (o : CJson) : AllocM CallbackSong :=
  if !o.isObject then pure .empty
  else do
    let score := jsonGetInt p o "score" 0
    let (artist, o) ← copyField p o "artist"
    let (title, o) ← copyField p o "title"
    let (album, o) ← copyField p o "album"
    let (releaseDate, o) ← copyField p o "release_date"
    let (label, o) ← copyField p o "label"
    let (songLink, o) ← copyField p o "song_link"
    let (isrc, o) ← copyField p o "isrc"
    let (upc, _) ← copyField p o "upc"
    pure ⟨score, artist, title, album, releaseDate, label, songLink, isrc, upc⟩

def parseSongs : List CJson → AllocM (List CallbackSong)
  | [] => pure []
  | o :: rest => do
    let song ← parseSong p o
    pure (song :: (← parseSongs rest))

def parseNotification (root notif : CJson) (body : CString) : AllocM CallbackOut := do
  match ← AllocM.copy () with
  | none => pure (.failed .outOfMemory none)
  | some _ =>
    let radioId := jsonGetInt p notif "radio_id" 0
    let running :=
      match notif.getObjectItemCaseSensitive "stream_running" with
      | none | some .null => -1
      | some _ => jsonGetBool notif "stream_running" 0
    let code := jsonGetInt p notif "notification_code" 0
    let (message, _) ← copyField p notif "notification_message"
    let time := jsonGetInt p root "time" 0
    let raw ← AllocM.copy body
    pure ⟨.ok, none, some ⟨radioId, running, code, message, time, raw⟩, none⟩

/-- The songs after the first; NULL where their array cannot be allocated. -/
def parseAlternatives : List CJson → AllocM (Option (List CallbackSong))
  | [] => pure (some [])
  | rest => do
    match ← AllocM.copy () with
    | none => pure none
    | some _ => do pure (some (← parseSongs p rest))

/-- The branch of a body whose `result` is an object with the results `first :: rest`. -/
def parseMatch (result first : CJson) (rest : List CJson) (body : CString) :
    AllocM CallbackOut := do
  match ← AllocM.copy () with
  | none => pure (.failed .outOfMemory none)
  | some _ =>
    let radioId := jsonGetInt64 p result "radio_id" 0
    let (timestamp, result) ← copyField p result "timestamp"
    let playLength := jsonGetInt p result "play_length" 0
    let song ← parseSong p first
    match ← parseAlternatives p rest with
    | none => pure (.failed .outOfMemory none)
    | some alternatives =>
      let raw ← AllocM.copy body
      pure ⟨.ok, some ⟨radioId, timestamp, playLength, song, alternatives, raw⟩, none, none⟩

variable (parse : CString → Option CJson)

def parseCallback (body : Option CString) : AllocM CallbackOut :=
  match body with
  | none | some [] => invalid "audd: empty callback body"
  | some text => do
    match (← AllocM.copy (parse text)).join with
    | none => invalid "audd: callback body is not valid JSON"
    | some root =>
      match root.getObjectItemCaseSensitive "notification" with
      | some (.object notif) => parseNotification p root (.object notif) text
      | _ =>
        match root.getObjectItemCaseSensitive "result" with
        | some (.object result) =>
          match (CJson.object result).getObjectItemCaseSensitive "results" with
          | some (.array (first :: rest)) => parseMatch p (.object result) first rest text
          | _ => invalid "audd: callback result.results is empty"
        | _ => invalid "audd: callback body has neither result nor notification"
where
  invalid (message : CString) : AllocM CallbackOut := do
    pure (.failed .serialization (← AllocM.copy message))

end

/-! ### Outcomes -/

/-- What a return value promises of the outputs. -/
def CallbackOut.Consistent (out : CallbackOut) : Prop :=
  if out.err = .ok then out.Exclusive else out.outMatch = none ∧ out.outNotification = none

section

variable {p : Platform} {parse : CString → Option CJson}

theorem failed_consistent {e : AuddError} (he : e ≠ .ok) (message : Option CString) :
    (CallbackOut.failed e message).Consistent := by
  rw [CallbackOut.Consistent, if_neg (show (CallbackOut.failed e message).err ≠ .ok from he)]
  exact ⟨rfl, rfl⟩

theorem invalid_every (message : CString) :
    (parseCallback.invalid message).Every fun out => out.Consistent ∧ out.err ≠ .ok := by
  have h : ∀ copied, (CallbackOut.failed .serialization copied).Consistent ∧
      (CallbackOut.failed .serialization copied).err ≠ .ok :=
    fun copied =>
      ⟨failed_consistent (by decide) copied, show AuddError.serialization ≠ .ok by decide⟩
  exact AllocM.every_bind_of_forall h

theorem parseNotification_every (root notif : CJson) (body : CString) :
    (parseNotification p root notif body).Every CallbackOut.Consistent := by
  rw [parseNotification, AllocM.every_bind, AllocM.every_copy]
  refine ⟨?_, failed_consistent (by decide) none⟩
  apply AllocM.every_bind_of_forall
  intro message
  apply AllocM.every_bind_of_forall
  intro raw
  rw [AllocM.every_pure, CallbackOut.Consistent, if_pos rfl]
  exact Bool.false_ne_true

theorem parseMatch_every (result first : CJson) (rest : List CJson) (body : CString) :
    (parseMatch p result first rest body).Every CallbackOut.Consistent := by
  rw [parseMatch, AllocM.every_bind, AllocM.every_copy]
  refine ⟨?_, failed_consistent (by decide) none⟩
  apply AllocM.every_bind_of_forall
  intro timestamp
  apply AllocM.every_bind_of_forall
  intro song
  apply AllocM.every_bind_of_forall
  intro alternatives
  cases alternatives with
  | none => exact failed_consistent (by decide) none
  | some alternatives =>
    apply AllocM.every_bind_of_forall
    intro raw
    rw [AllocM.every_pure, CallbackOut.Consistent, if_pos rfl]
    exact Bool.true_eq_false_eq_False

def CJson.IsEvent (root : CJson) : Prop :=
  (∃ ms, root.getObjectItemCaseSensitive "notification" = some (.object ms)) ∨
  ∃ ms, root.getObjectItemCaseSensitive "result" = some (.object ms)

/-- Whatever memory is refused, the parser writes one output when it succeeds and none when it
does not, and it succeeds only on a body that parses to an event. -/
theorem parseCallback_every (p : Platform) (parse : CString → Option CJson)
    (body : Option CString) : (parseCallback p parse body).Every fun out => out.Consistent ∧
      (out.err = .ok → ∃ text root, body = some text ∧ parse text = some root ∧ root.IsEvent) := by
  have hinvalid : ∀ message, (parseCallback.invalid message).Every fun out => out.Consistent ∧
      (out.err = .ok → ∃ text root, body = some text ∧ parse text = some root ∧ root.IsEvent) :=
    fun message => (invalid_every message).mono fun out h => ⟨h.1, fun hok => absurd hok h.2⟩
  unfold parseCallback
  split
  · exact hinvalid _
  · exact hinvalid _
  · rename_i text htext
    rw [AllocM.every_bind, AllocM.every_copy]
    refine ⟨?_, hinvalid _⟩
    cases hroot : parse text with
    | none => exact hinvalid _
    | some root =>
      have hevent : root.IsEvent →
          ∃ text' root', some text = some text' ∧ parse text' = some root' ∧ root'.IsEvent :=
        fun h => ⟨text, root, rfl, hroot, h⟩
      simp only [Option.join_some]
      split
      · rename_i notif hnotif
        exact (parseNotification_every root _ text).mono
          fun out h => ⟨h, fun _ => hevent (.inl ⟨notif, hnotif⟩)⟩
      · split
        · rename_i result hresult
          split
          · exact (parseMatch_every _ _ _ text).mono
              fun out h => ⟨h, fun _ => hevent (.inr ⟨result, hresult⟩)⟩
          · exact hinvalid _
        · exact hinvalid _

end

end Audd
