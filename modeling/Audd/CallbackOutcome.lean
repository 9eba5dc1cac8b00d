import Audd.Callback

/-! The outcome of parsing a callback body, with memory: which bodies are accepted, and what the
match or the notification that is written holds. -/

namespace Audd

/-- The song that a result gives; a result that is no object gives an empty one. -/
def songOf (p : Platform) (o : CJson) : CallbackSong :=
  if o.isObject then
    ⟨jsonGetInt p o "score" 0, o.textOf p "artist", o.textOf p "title", o.textOf p "album",
      o.textOf p "release_date", o.textOf p "label", o.textOf p "song_link", o.textOf p "isrc",
      o.textOf p "upc"⟩
  else .empty

/-- The body's notification, where it is an object. -/
def CJson.notification (root : CJson) : Option CJson :=
  (root.getObjectItemCaseSensitive "notification").filter CJson.isObject

/-- The results of a match: a list that is not empty, in a result that is an object. -/
def CJson.MatchResults (root result first : CJson) (rest : List CJson) : Prop :=
  root.notification = none ∧ root.getObjectItemCaseSensitive "result" = some result ∧
    result.isObject = true ∧
    result.getObjectItemCaseSensitive "results" = some (.array (first :: rest))

def matchOf (p : Platform) (result first : CJson) (rest : List CJson) (body : CString) :
    CallbackMatch where
  radioId := jsonGetInt64 p result "radio_id" 0
  timestamp := result.textOf p "timestamp"
  playLength := jsonGetInt p result "play_length" 0
  song := songOf p first
  alternatives := rest.map (songOf p)
  rawResponse := some body

/-- Absent and null are told apart from everything that reads as a boolean. -/
def streamRunningOf (notif : CJson) : Int :=
  match notif.getObjectItemCaseSensitive "stream_running" with
  | none | some .null => -1
  | some _ => jsonGetBool notif "stream_running" 0

def notificationOf (p : Platform) (root notif : CJson) (body : CString) : CallbackNotification where
  radioId := jsonGetInt p notif "radio_id" 0
  streamRunning := streamRunningOf notif
  notificationCode := jsonGetInt p notif "notification_code" 0
  notificationMessage := notif.textOf p "notification_message"
  time := jsonGetInt p root "time" 0
  rawResponse := some body

section

variable {p : Platform} {parse : CString → Option CJson}

@[simp] theorem parseSong_ok (o : CJson) : (parseSong p o).ok = songOf p o := by
  unfold parseSong songOf
  cases o.isObject <;> simp

@[simp] theorem parseSongs_ok (items : List CJson) :
    (parseSongs p items).ok = items.map (songOf p) := by
  induction items with
  | nil => rfl
  | cons o items ih => simp [parseSongs, ih]

theorem parseAlternatives_ok (rest : List CJson) :
    (parseAlternatives p rest).ok = some (rest.map (songOf p)) := by
  cases rest with
  | nil => rfl
  | cons o rest => simp [parseAlternatives]

theorem parseNotification_ok (root notif : CJson) (body : CString) :
    (parseNotification p root notif body).ok =
      ⟨.ok, none, some (notificationOf p root notif body), none⟩ := by
  simp only [parseNotification, AllocM.ok_bind, AllocM.ok_copy, copyField_ok, AllocM.ok_pure]
  rfl

theorem parseMatch_ok (result first : CJson) (rest : List CJson) (body : CString) :
    (parseMatch p result first rest body).ok =
      ⟨.ok, some (matchOf p result first rest body), none, none⟩ := by
  simp [parseMatch, parseAlternatives_ok, matchOf]

theorem parseBoolString_cases (s : CString) (default : Int) :
    parseBoolString s default = 0 ∨ parseBoolString s default = 1 ∨
      parseBoolString s default = default := by
  unfold parseBoolString
  split
  · exact .inl rfl
  · split
    · exact .inr (.inr rfl)
    · dsimp only
      split_ifs <;> simp

/-- A member read as a boolean is 0 or 1, or the default. -/
theorem jsonGetBool_cases (obj : CJson) (key : CString) (default : Int) :
    jsonGetBool obj key default = 0 ∨ jsonGetBool obj key default = 1 ∨
      jsonGetBool obj key default = default := by
  unfold jsonGetBool
  split
  · split <;> simp
  · split <;> simp
  · exact parseBoolString_cases _ default
  · exact .inr (.inr rfl)

theorem streamRunningOf_iff (notif : CJson) : streamRunningOf notif = -1 ↔
    notif.getObjectItemCaseSensitive "stream_running" = none ∨
    notif.getObjectItemCaseSensitive "stream_running" = some .null := by
  unfold streamRunningOf
  split
  · rename_i h
    exact iff_of_true rfl (.inl h)
  · rename_i h
    exact iff_of_true rfl (.inr h)
  · rename_i item hnull hitem
    have := jsonGetBool_cases notif "stream_running" 0
    refine iff_of_false (by omega) ?_
    rw [hitem]
    simpa using hnull

theorem notification_eq_some_iff {root notif : CJson} : root.notification = some notif ↔
    root.getObjectItemCaseSensitive "notification" = some notif ∧ notif.isObject = true :=
  Option.filter_eq_some_iff

theorem filter_isObject {item : Option CJson} (h : ∀ ms, item ≠ some (.object ms)) :
    item.filter CJson.isObject = none := by
  rcases item with _ | item
  · rfl
  · cases item <;> first | rfl | exact absurd rfl (h _)

/-- What a body comes to: a notification, a match, or a rejection, by its members alone. -/
theorem parseCallback_cases (p : Platform) (parse : CString → Option CJson)
    (body : Option CString) :
    let out := (parseCallback p parse body).ok
    (∃ text root notif, body = some text ∧ text ≠ [] ∧ parse text = some root ∧
      root.notification = some notif ∧
      out = ⟨.ok, none, some (notificationOf p root notif text), none⟩) ∨
    (∃ text root result first rest, body = some text ∧ text ≠ [] ∧ parse text = some root ∧
      root.MatchResults result first rest ∧
      out = ⟨.ok, some (matchOf p result first rest text), none, none⟩) ∨
    ((∀ text root, body = some text → text ≠ [] → parse text = some root →
      root.notification = none ∧ ∀ result first rest, ¬root.MatchResults result first rest) ∧
      ∃ message, out = ⟨.serialization, none, none, some message⟩) := by
  intro out
  have hout : out = (parseCallback p parse body).ok := rfl
  rw [hout]
  unfold parseCallback
  split
  · exact .inr (.inr ⟨nofun, _, rfl⟩)
  · refine .inr (.inr ⟨fun text root h hne => ?_, _, rfl⟩)
    exact absurd (Option.some.inj h).symm hne
  · rename_i text htext
    rw [AllocM.ok_bind, AllocM.ok_copy, Option.join_some]
    cases hroot : parse text with
    | none =>
      refine .inr (.inr ⟨?_, _, rfl⟩)
      rintro _ root ⟨⟩ - h
      rw [hroot] at h
      cases h
    | some root =>
      dsimp only
      split
      · rename_i notif hnotif
        exact .inl ⟨text, root, _, rfl, htext, hroot, notification_eq_some_iff.mpr ⟨hnotif, rfl⟩,
          parseNotification_ok root _ text⟩
      · rename_i hnotif
        have hnone : root.notification = none := filter_isObject hnotif
        -- the body is a match or nothing, by its result
        have hrejected : (∀ result first rest, ¬root.MatchResults result first rest) →
            ∀ text' root', some text = some text' → text' ≠ [] → parse text' = some root' →
              root'.notification = none ∧
                ∀ result first rest, ¬root'.MatchResults result first rest := by
          rintro h _ root' ⟨⟩ - hroot'
          obtain rfl := Option.some.inj (hroot.symm.trans hroot')
          exact ⟨hnone, h⟩
        split
        · rename_i result hresult
          split
          · rename_i first rest hresults
            exact .inr (.inl ⟨text, root, _, first, rest, rfl, htext, hroot,
              ⟨hnone, hresult, rfl, hresults⟩, parseMatch_ok _ first rest text⟩)
          · rename_i hresults
            refine .inr (.inr ⟨hrejected ?_, _, rfl⟩)
            rintro result' first rest ⟨-, hresult', -, h⟩
            obtain rfl := Option.some.inj (hresult.symm.trans hresult')
            exact hresults first rest h
        · rename_i hresult
          refine .inr (.inr ⟨hrejected ?_, _, rfl⟩)
          rintro result' first rest ⟨-, hresult', hisObject, -⟩
          have := filter_isObject hresult
          rw [hresult', Option.filter_some, if_pos hisObject] at this
          cases this

/-- A body is accepted exactly when it is not empty, parses, and is a notification or a match.  One
output is written then and none otherwise: the notification where there is one.  A match has the
song of the first result, and for alternatives those of the others in order; the raw response is
the body as it came. -/
theorem parseCallback_outcome (p : Platform) (parse : CString → Option CJson)
    (body : Option CString) :
    let out := (parseCallback p parse body).ok
    (out.err = .ok ↔ ∃ text root, body = some text ∧ text ≠ [] ∧ parse text = some root ∧
      ((∃ notif, root.notification = some notif) ∨
        ∃ result first rest, root.MatchResults result first rest)) ∧
    (out.err = .ok → out.Exclusive ∧ ∀ text root, body = some text → parse text = some root →
      (out.outNotification.isSome ↔ root.notification.isSome)) ∧
    (out.err ≠ .ok → out.outMatch = none ∧ out.outNotification = none) ∧
    (∀ m, out.outMatch = some m → ∃ text root result first rest, body = some text ∧
      parse text = some root ∧ root.MatchResults result first rest ∧
      m.song = songOf p first ∧ m.alternatives.length + 1 = (first :: rest).length ∧
      (∀ i < m.alternatives.length,
        m.alternatives[i]? = ((first :: rest)[i + 1]?).map (songOf p)) ∧
      m.rawResponse = some text) ∧
    (∀ n, out.outNotification = some n → ∃ text root notif, body = some text ∧
      parse text = some root ∧ root.notification = some notif ∧ n.rawResponse = some text ∧
      (n.streamRunning = -1 ↔
        notif.getObjectItemCaseSensitive "stream_running" = none ∨
        notif.getObjectItemCaseSensitive "stream_running" = some .null)) := by
  have hcases := parseCallback_cases p parse body
  dsimp only at hcases ⊢
  generalize (parseCallback p parse body).ok = out at hcases ⊢
  rcases hcases with ⟨text, root, notif, rfl, htext, hroot, hnotif, rfl⟩ |
    ⟨text, root, result, first, rest, rfl, htext, hroot, hmatch, rfl⟩ | ⟨hnot, message, rfl⟩
  · refine ⟨iff_of_true rfl ⟨text, root, rfl, htext, hroot, .inl ⟨notif, hnotif⟩⟩,
      fun _ => ⟨Bool.false_ne_true, ?_⟩, fun h => absurd rfl h, fun m hm => absurd hm (by simp), ?_⟩
    · rintro _ root' ⟨⟩ hroot'
      obtain rfl := Option.some.inj (hroot.symm.trans hroot')
      exact iff_of_true rfl (by rw [hnotif]; rfl)
    · rintro _ ⟨⟩
      exact ⟨text, root, notif, rfl, hroot, hnotif, rfl, streamRunningOf_iff notif⟩
  · refine ⟨iff_of_true rfl ⟨text, root, rfl, htext, hroot, .inr ⟨result, first, rest, hmatch⟩⟩,
      fun _ => ⟨Bool.false_ne_true.symm, ?_⟩, fun h => absurd rfl h, ?_,
      fun n hn => absurd hn (by simp)⟩
    · rintro _ root' ⟨⟩ hroot'
      obtain rfl := Option.some.inj (hroot.symm.trans hroot')
      exact iff_of_false Bool.false_ne_true (by rw [hmatch.1]; exact Bool.false_ne_true)
    · rintro _ ⟨⟩
      refine ⟨text, root, result, first, rest, rfl, hroot, hmatch, rfl, ?_, fun i _ => ?_, rfl⟩
      · show (rest.map (songOf p)).length + 1 = _
        rw [List.length_map, List.length_cons]
      · show (rest.map (songOf p))[i]? = _
        rw [List.getElem?_map, List.getElem?_cons_succ]
  · have hrefused : AuddError.serialization ≠ .ok := by decide
    refine ⟨iff_of_false hrefused ?_, fun h => absurd h hrefused, fun _ => ⟨rfl, rfl⟩,
      fun m hm => absurd hm (by simp), fun n hn => absurd hn (by simp)⟩
    rintro ⟨text, root, hbody, htext, hroot, ⟨notif, hnotif⟩ | ⟨result, first, rest, hmatch⟩⟩
    · rw [(hnot text root hbody htext hroot).1] at hnotif
      cases hnotif
    · exact (hnot text root hbody htext hroot).2 result first rest hmatch

end

end Audd
