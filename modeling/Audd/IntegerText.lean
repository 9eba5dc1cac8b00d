import Audd.CallbackOutcome
import Audd.Decode
import Audd.Refused

/-! Integers that the server sends as text.  A body in which one integer has become the string of
its digits is compared with the body before, through each decoder.  The getters read both alike.
Two members are read past the getters, and these tell the two bodies apart. -/

namespace Audd

/-! ### The bodies -/

inductive Step
  | member (key : CString)
  | item (index : Nat)
deriving DecidableEq

/-- The value at a path, the integer `n`, became the string of its digits.  A member is the first
of its name, which is the one that is looked up. -/
inductive CJson.Retyped (n : Int) : List Step → CJson → CJson → Prop
  | here : Retyped n [] (.number (.finite n)) (.string (decimal n))
  | member {path : List Step} {key : CString} {child child' : CJson}
      {before after : List (CString × CJson)} (hfirst : before.lookup key = none)
      (hchild : Retyped n path child child') :
      Retyped n (.member key :: path) (.object (before ++ (key, child) :: after))
        (.object (before ++ (key, child') :: after))
  | item {path : List Step} {child child' : CJson} {before after : List CJson}
      (hchild : Retyped n path child child') :
      Retyped n (.item before.length :: path) (.array (before ++ child :: after))
        (.array (before ++ child' :: after))

/-- What the SDK decodes. -/
inductive Decoder
  | errorResponse
  | recognition
  | enterprise
  | callback

/-- The integers of the metadata blocks. -/
def blockIntegers : List (CString × CString) :=
  [("apple_music", "durationInMillis"), ("apple_music", "trackNumber"),
    ("apple_music", "discNumber"), ("spotify", "duration_ms"), ("spotify", "popularity"),
    ("spotify", "track_number"), ("deezer", "id"), ("deezer", "duration")]

/-- The members that are read as integers. -/
inductive ReadsInteger : Decoder → List Step → Prop
  | errorCode : ReadsInteger .errorResponse [.member "error", .member "error_code"]
  | audioId : ReadsInteger .recognition [.member "audio_id"]
  | block {block key : CString} (h : (block, key) ∈ blockIntegers) :
      ReadsInteger .recognition [.member block, .member key]
  | musicbrainz {i : Nat} {key : CString} (h : key ∈ (["length", "score"] : List CString)) :
      ReadsInteger .recognition [.member "musicbrainz", .item i, .member key]
  | song {i j : Nat} {key : CString}
      (h : key ∈ (["score", "start_offset", "end_offset"] : List CString)) :
      ReadsInteger .enterprise [.item i, .member "songs", .item j, .member key]
  | time : ReadsInteger .callback [.member "time"]
  | notification {key : CString} (h : key ∈ (["radio_id", "notification_code"] : List CString)) :
      ReadsInteger .callback [.member "notification", .member key]
  | result {key : CString} (h : key ∈ (["radio_id", "play_length"] : List CString)) :
      ReadsInteger .callback [.member "result", .member key]
  | callbackScore {i : Nat} :
      ReadsInteger .callback [.member "result", .member "results", .item i, .member "score"]

/-! ### What is compared -/

def AppleMusic.typed (m : AppleMusic) : AppleMusic := { m with raw := none }

def Spotify.typed (m : Spotify) : Spotify := { m with raw := none }

def Deezer.typed (m : Deezer) : Deezer := { m with raw := none }

def Napster.typed (m : Napster) : Napster := { m with raw := none }

/-- The fields that the typed getters read: all but the raw copies. -/
def Recognition.typed (r : Recognition) : Recognition :=
  { r with
    appleMusic := r.appleMusic.map AppleMusic.typed
    spotify := r.spotify.map Spotify.typed
    deezer := r.deezer.map Deezer.typed
    napster := r.napster.map Napster.typed
    rawObj := none
    rawResponseStr := none }

def CallbackOut.typed (out : CallbackOut) : CallbackOut :=
  { out with
    outMatch := out.outMatch.map fun m => { m with rawResponse := none }
    outNotification := out.outNotification.map fun n => { n with rawResponse := none } }

/-- The decoder gives the same from both bodies: the returned and the stored error, and what the
typed getters read. -/
def Decoder.Same (p : Platform) (body body' : CJson) : Decoder → Prop
  | errorResponse => ∀ (client : Client) (resp : HttpResponse) (customCatalogContext : Bool),
      let out := (decodeOrRaise p client { resp with json := some body } customCatalogContext).ok
      let out' := (decodeOrRaise p client { resp with json := some body' } customCatalogContext).ok
      out.1 = out'.1 ∧ out.2.1.lastErrorCode = out'.2.1.lastErrorCode
  | recognition => (recognitionFromJson p body).ok.map Recognition.typed =
      (recognitionFromJson p body').ok.map Recognition.typed
  | enterprise => (enterpriseFromJson p (some body)).ok = (enterpriseFromJson p (some body')).ok
  | callback => ∀ (parse : CString → Option CJson) (text text' : CString), text ≠ [] → text' ≠ [] →
      parse text = some body → parse text' = some body' →
      (parseCallback p parse (some text)).ok.typed = (parseCallback p parse (some text')).ok.typed

/-- The code that an error of the body stores. -/
def CJson.storedCode (p : Platform) (body : CJson) : Int :=
  ((body.errorObject.bind CJson.errorCode).map (CDouble.toInt p)).getD 0

/-- Losing the code of its error leaves what becomes of a body as it is: the code would have been
stored as 0, or it is a deprecation, and the body is a success with it as without. -/
def CJson.CodeHarmless (p : Platform) (body : CJson) : Prop :=
  (body.Deprecated p →
    (body.stripped.statusStr = ("success" : CString) ↔ body.statusStr = ("success" : CString)) ∧
      (body.stripped.statusStr = ("error" : CString) → body.stripped.storedCode p = 0)) ∧
  (¬body.Deprecated p → body.statusStr = ("error" : CString) → body.storedCode p = 0)

/-! ### Reading a body that has text for an integer -/

section

variable {p : Platform} {n : Int} {path : List Step} {o o' : CJson}

theorem CJson.Retyped.isObject {key : CString} (h : o.Retyped n (.member key :: path) o') :
    o.isObject = true ∧ o'.isObject = true := by
  cases h
  exact ⟨rfl, rfl⟩

theorem CJson.Retyped.first {key : CString} {child child' : CJson}
    {after : List (CString × CJson)} (h : child.Retyped n path child') :
    (CJson.object ((key, child) :: after)).Retyped n (.member key :: path)
      (.object ((key, child') :: after)) :=
  .member (List.lookup_nil) h

theorem CJson.Retyped.second {key name : CString} {child child' other : CJson}
    {after : List (CString × CJson)} (hne : key ≠ name) (h : child.Retyped n path child') :
    (CJson.object ((name, other) :: (key, child) :: after)).Retyped n (.member key :: path)
      (.object ((name, other) :: (key, child') :: after)) := by
  have hfirst : [(name, other)].lookup key = none := by
    rw [List.lookup_cons, beq_false_of_ne hne]
    rfl
  exact .member hfirst h

theorem CJson.Retyped.get_self {key : CString} (h : o.Retyped n (.member key :: path) o') :
    ∃ child child', o.getObjectItemCaseSensitive key = some child ∧
      o'.getObjectItemCaseSensitive key = some child' ∧ child.Retyped n path child' := by
  cases h with
  | member hfirst hchild =>
    refine ⟨_, _, ?_, ?_, hchild⟩ <;>
      simp [CJson.getObjectItemCaseSensitive, List.lookup_append, hfirst]

theorem CJson.Retyped.get_ne {key k : CString} (h : o.Retyped n (.member key :: path) o')
    (hk : k ≠ key) : o'.getObjectItemCaseSensitive k = o.getObjectItemCaseSensitive k := by
  cases h with
  | member hfirst hchild =>
    simp [CJson.getObjectItemCaseSensitive, List.lookup_append, List.lookup_cons,
      beq_false_of_ne hk]

theorem CJson.Retyped.textOf_ne {key k : CString} (h : o.Retyped n (.member key :: path) o')
    (hk : k ≠ key) : o'.textOf p k = o.textOf p k := by
  rw [CJson.textOf, CJson.textOf, h.get_ne hk]

/-- An integer reads alike from its number and from its digits. -/
theorem CJson.Retyped.getInt64 {key : CString} (h : o.Retyped n [.member key] o')
    (hn : InRange 32 n) (k : CString) (default : Int) :
    jsonGetInt64 p o' k default = jsonGetInt64 p o k default := by
  by_cases hk : k = key
  · subst hk
    obtain ⟨child, child', hget, hget', hchild⟩ := h.get_self
    cases hchild
    rw [jsonGetInt64, jsonGetInt64, hget, hget']
    simp only [parseIntString_decimal p hn.wide, Option.getD_some]
    exact (CDouble.convert_int hn.wide).symm
  · rw [jsonGetInt64, jsonGetInt64, h.get_ne hk]

theorem CJson.Retyped.getInt {key : CString} (h : o.Retyped n [.member key] o')
    (hn : InRange 32 n) (k : CString) (default : Int) :
    jsonGetInt p o' k default = jsonGetInt p o k default := by
  rw [jsonGetInt, jsonGetInt, h.getInt64 hn]

theorem CJson.Retyped.getBool_ne {key k : CString} (h : o.Retyped n (.member key :: path) o')
    (hk : k ≠ key) (default : Int) : jsonGetBool o' k default = jsonGetBool o k default := by
  rw [jsonGetBool, jsonGetBool, h.get_ne hk]

/-! ### Blocks -/

def appleMusicOf (p : Platform) (block : Option CJson) : Option AppleMusic :=
  (parseAppleMusic p block).ok.map AppleMusic.typed

def spotifyOf (p : Platform) (block : Option CJson) : Option Spotify :=
  (parseSpotify p block).ok.map Spotify.typed

def deezerOf (p : Platform) (block : Option CJson) : Option Deezer :=
  (parseDeezer p block).ok.map Deezer.typed

def napsterOf (p : Platform) (block : Option CJson) : Option Napster :=
  (parseNapster p block).ok.map Napster.typed

def musicbrainzOf (p : Platform) (arr : Option CJson) : List MusicbrainzEntry :=
  (parseMusicbrainz p arr).ok.getD []

theorem parseSpotify_ok (members : List (CString × CJson)) :
    let o := CJson.object members
    (parseSpotify p (some o)).ok.map Spotify.typed = some {
      id := o.textOf p "id"
      name := o.textOf p "name"
      durationMs := jsonGetInt p o "duration_ms" 0
      explicit := jsonGetBool o "explicit" 0
      popularity := jsonGetInt p o "popularity" 0
      trackNumber := jsonGetInt p o "track_number" 0
      type := o.textOf p "type"
      uri := o.textOf p "uri"
      raw := none } := by
  simp [parseSpotify, Spotify.typed]

theorem parseDeezer_ok (members : List (CString × CJson)) :
    let o := CJson.object members
    (parseDeezer p (some o)).ok.map Deezer.typed = some {
      id := jsonGetInt p o "id" 0
      title := o.textOf p "title"
      duration := jsonGetInt p o "duration" 0
      link := o.textOf p "link"
      raw := none } := by
  simp [parseDeezer, Deezer.typed]

theorem CJson.Retyped.exists_members {key : CString} (h : o.Retyped n (.member key :: path) o') :
    ∃ ms ms', o = .object ms ∧ o' = .object ms' := by
  cases h
  exact ⟨_, _, rfl, rfl⟩

/-- The texts of an object, for a member that is none of them. -/
theorem CJson.Retyped.texts {key : CString} (h : o.Retyped n (.member key :: path) o')
    {keys : List CString} (hkey : key ∉ keys) {k : CString} (hk : k ∈ keys) :
    o'.textOf p k = o.textOf p k :=
  h.textOf_ne fun heq => hkey (heq ▸ hk)

theorem CJson.Retyped.appleMusic {key : CString} (h : o.Retyped n [.member key] o')
    (hn : InRange 32 n) (hkey : key ∉ appleMusicKeys) :
    appleMusicOf p (some o') = appleMusicOf p (some o) := by
  have htext {k : CString} (hk : k ∈ appleMusicKeys) := h.texts (p := p) hkey hk
  have hint := h.getInt (p := p) hn
  obtain ⟨ms, ms', rfl, rfl⟩ := h.exists_members
  rw [appleMusicOf, appleMusicOf, parseAppleMusic_ok, parseAppleMusic_ok, Option.map_some,
    Option.map_some]
  simp only [AppleMusic.typed, hint]
  rw [htext (by decide : "artistName".toList ∈ _), htext (by decide : "url".toList ∈ _),
    htext (by decide : "name".toList ∈ _), htext (by decide : "isrc".toList ∈ _),
    htext (by decide : "albumName".toList ∈ _), htext (by decide : "composerName".toList ∈ _),
    htext (by decide : "releaseDate".toList ∈ _)]

theorem CJson.Retyped.spotify {key : CString} (h : o.Retyped n [.member key] o')
    (hn : InRange 32 n) (hkey : key ∉ spotifyKeys) (hexplicit : key ≠ "explicit") :
    spotifyOf p (some o') = spotifyOf p (some o) := by
  have htext {k : CString} (hk : k ∈ spotifyKeys) := h.texts (p := p) hkey hk
  have hint := h.getInt (p := p) hn
  have hbool := h.getBool_ne hexplicit.symm
  obtain ⟨ms, ms', rfl, rfl⟩ := h.exists_members
  rw [spotifyOf, spotifyOf, parseSpotify_ok, parseSpotify_ok]
  simp only [hint, hbool]
  rw [htext (by decide : "id".toList ∈ _), htext (by decide : "name".toList ∈ _),
    htext (by decide : "type".toList ∈ _), htext (by decide : "uri".toList ∈ _)]

theorem CJson.Retyped.deezer {key : CString} (h : o.Retyped n [.member key] o')
    (hn : InRange 32 n) (hkey : key ∉ deezerKeys) :
    deezerOf p (some o') = deezerOf p (some o) := by
  have htext {k : CString} (hk : k ∈ deezerKeys) := h.texts (p := p) hkey hk
  have hint := h.getInt (p := p) hn
  obtain ⟨ms, ms', rfl, rfl⟩ := h.exists_members
  rw [deezerOf, deezerOf, parseDeezer_ok, parseDeezer_ok]
  simp only [hint]
  rw [htext (by decide : "title".toList ∈ _), htext (by decide : "link".toList ∈ _)]

/-! ### MusicBrainz -/

def scoreText (p : Platform) (it : CJson) : Option CString :=
  match it.getObjectItemCaseSensitive "score" with
  | some (.string s) => some s
  | some (.number d) => some (decimal (d.toInt p))
  | _ => none

def musicbrainzEntry (p : Platform) (it : CJson) : MusicbrainzEntry :=
  ⟨it.textOf p "id", scoreText p it, it.textOf p "title", jsonGetInt p it "length" 0⟩

theorem musicbrainzScore_ok (it : CJson) : (musicbrainzScore p it).ok = scoreText p it := by
  unfold musicbrainzScore scoreText
  rcases it.getObjectItemCaseSensitive "score" with _ | (_ | _ | _ | _ | _ | _) <;> rfl

theorem parseMusicbrainzEntries_ok (items : List CJson) :
    (parseMusicbrainzEntries p items).ok =
      (items.filter CJson.isObject).map (musicbrainzEntry p) := by
  induction items with
  | nil => rfl
  | cons it items ih =>
    unfold parseMusicbrainzEntries
    cases hobject : it.isObject with
    | true =>
      simp [hobject, ih, parseMusicbrainzEntry, musicbrainzScore_ok, scoreText, musicbrainzEntry]
    | false => simp [hobject, ih]

theorem parseMusicbrainz_ok (items : List CJson) :
    (parseMusicbrainz p (some (.array items))).ok =
      some ((items.filter CJson.isObject).map (musicbrainzEntry p)) := by
  cases items with
  | nil => rfl
  | cons it items =>
    rw [parseMusicbrainz_cons]
    simp [parseMusicbrainzEntries_ok]

/-- The digits of a score are its text, whichever the server sends. -/
theorem CJson.Retyped.score {key : CString} (h : o.Retyped n [.member key] o')
    (hn : InRange 32 n) : scoreText p o' = scoreText p o := by
  by_cases hkey : key = "score"
  · subst hkey
    obtain ⟨child, child', hget, hget', hchild⟩ := h.get_self
    cases hchild
    rw [scoreText, scoreText, hget, hget']
    simp only [CDouble.toInt, CDouble.convert_int hn]
  · rw [scoreText, scoreText, h.get_ne (Ne.symm hkey)]

theorem CJson.Retyped.entry {key : CString} (h : o.Retyped n [.member key] o') (hn : InRange 32 n)
    (hkey : key ∉ (["id", "title"] : List CString)) :
    musicbrainzEntry p o' = musicbrainzEntry p o := by
  rw [musicbrainzEntry, musicbrainzEntry, h.score hn, h.getInt hn,
    h.texts hkey (by decide : "id".toList ∈ _), h.texts hkey (by decide : "title".toList ∈ _)]

theorem CJson.Retyped.musicbrainz {key : CString} {i : Nat}
    (h : o.Retyped n [.item i, .member key] o') (hn : InRange 32 n)
    (hkey : key ∉ (["id", "title"] : List CString)) :
    musicbrainzOf p (some o') = musicbrainzOf p (some o) := by
  cases h with
  | item hchild =>
    rw [musicbrainzOf, musicbrainzOf, parseMusicbrainz_ok, parseMusicbrainz_ok]
    simp [List.filter_append, hchild.isObject.1, hchild.isObject.2,
      hchild.entry hn hkey]

/-! ### The recognition -/

/-- What the typed getters of a recognition read. -/
structure RecognitionAlike (p : Platform) (o o' : CJson) : Prop where
  text : ∀ k ∈ recognitionKeys, o'.textOf p k = o.textOf p k
  audioId : o'.getObjectItemCaseSensitive "audio_id" = o.getObjectItemCaseSensitive "audio_id"
  appleMusic : appleMusicOf p (o'.getObjectItemCaseSensitive "apple_music") =
    appleMusicOf p (o.getObjectItemCaseSensitive "apple_music")
  spotify : spotifyOf p (o'.getObjectItemCaseSensitive "spotify") =
    spotifyOf p (o.getObjectItemCaseSensitive "spotify")
  deezer : deezerOf p (o'.getObjectItemCaseSensitive "deezer") =
    deezerOf p (o.getObjectItemCaseSensitive "deezer")
  napster : napsterOf p (o'.getObjectItemCaseSensitive "napster") =
    napsterOf p (o.getObjectItemCaseSensitive "napster")
  musicbrainz : musicbrainzOf p (o'.getObjectItemCaseSensitive "musicbrainz") =
    musicbrainzOf p (o.getObjectItemCaseSensitive "musicbrainz")

theorem RecognitionAlike.same {ms ms' : List (CString × CJson)}
    (h : RecognitionAlike p (.object ms) (.object ms')) :
    Decoder.recognition.Same p (.object ms) (.object ms') := by
  have happle := h.appleMusic
  have hspotify := h.spotify
  have hdeezer := h.deezer
  have hnapster := h.napster
  have hmb := h.musicbrainz
  unfold appleMusicOf at happle
  unfold spotifyOf at hspotify
  unfold deezerOf at hdeezer
  unfold napsterOf at hnapster
  unfold musicbrainzOf at hmb
  rw [Decoder.Same, recognitionFromJson_ok, recognitionFromJson_ok, Option.map_some,
    Option.map_some]
  simp only [Recognition.typed, happle, hspotify, hdeezer, hnapster, hmb, h.audioId]
  rw [h.text "timecode" (by decide), h.text "artist" (by decide), h.text "title" (by decide),
    h.text "album" (by decide), h.text "release_date" (by decide), h.text "label" (by decide),
    h.text "song_link" (by decide), h.text "isrc" (by decide), h.text "upc" (by decide)]

/-- What depends on a member is the same where it is another one, or is the same for what is at
the member. -/
theorem CJson.Retyped.through {α : Type} {f : Option CJson → α} {key k : CString}
    (h : o.Retyped n (.member key :: path) o')
    (hself : k = key → ∀ child child', child.Retyped n path child' →
      f (some child') = f (some child)) :
    f (o'.getObjectItemCaseSensitive k) = f (o.getObjectItemCaseSensitive k) := by
  by_cases hk : k = key
  · subst hk
    obtain ⟨child, child', hget, hget', hchild⟩ := h.get_self
    rw [hget, hget', hself rfl child child' hchild]
  · rw [h.get_ne hk]

theorem CJson.Retyped.recognition {key : CString} (h : o.Retyped n (.member key :: path) o')
    (halike : RecognitionAlike p o o') : Decoder.recognition.Same p o o' := by
  obtain ⟨ms, ms', rfl, rfl⟩ := h.exists_members
  exact halike.same

/-- An integer of a block. -/
theorem CJson.Retyped.blockInteger {block key : CString}
    (h : o.Retyped n [.member block, .member key] o') (hn : InRange 32 n)
    (hkey : (block, key) ∈ blockIntegers) : Decoder.recognition.Same p o o' := by
  have hkeys : ∀ m ∈ blockIntegers, m.1 ∉ recognitionKeys ∧ "audio_id".toList ≠ m.1 ∧
      "napster".toList ≠ m.1 ∧ "musicbrainz".toList ≠ m.1 ∧
      ("apple_music" = m.1 → m.2 ∉ appleMusicKeys) ∧
      ("spotify" = m.1 → m.2 ∉ spotifyKeys ∧ m.2 ≠ "explicit") ∧
      ("deezer" = m.1 → m.2 ∉ deezerKeys) := by decide
  obtain ⟨htext, haudio, hnapster, hmb, happle, hspotify, hdeezer⟩ := hkeys _ hkey
  exact h.recognition {
    text := fun k hk => h.texts htext hk
    audioId := h.get_ne haudio
    appleMusic := h.through fun heq c c' hc => hc.appleMusic hn (happle heq)
    spotify := h.through fun heq c c' hc => hc.spotify hn (hspotify heq).1 (hspotify heq).2
    deezer := h.through fun heq c c' hc => hc.deezer hn (hdeezer heq)
    napster := h.through fun heq => absurd heq hnapster
    musicbrainz := h.through fun heq => absurd heq hmb }

theorem CJson.Retyped.entryInteger {i : Nat} {key : CString}
    (h : o.Retyped n [.member "musicbrainz", .item i, .member key] o') (hn : InRange 32 n)
    (hkey : key ∉ (["id", "title"] : List CString)) : Decoder.recognition.Same p o o' :=
  h.recognition {
    text := fun k hk => h.texts (by decide) hk
    audioId := h.get_ne (by decide)
    appleMusic := h.through fun heq => absurd heq (by decide)
    spotify := h.through fun heq => absurd heq (by decide)
    deezer := h.through fun heq => absurd heq (by decide)
    napster := h.through fun heq => absurd heq (by decide)
    musicbrainz := h.through fun _ c c' hc => hc.musicbrainz hn hkey }

/-- A match has an audio id only when it is a number. -/
theorem CJson.Retyped.audioId (h : o.Retyped n [.member "audio_id"] o') :
    ¬Decoder.recognition.Same p o o' := by
  obtain ⟨child, child', hget, hget', hchild⟩ := h.get_self
  obtain ⟨ms, ms', rfl, rfl⟩ := h.exists_members
  cases hchild
  rw [Decoder.Same, recognitionFromJson_ok, recognitionFromJson_ok, Option.map_some,
    Option.map_some]
  simp only [hget, hget']
  intro hsame
  have hid := congrArg Recognition.hasAudioId (Option.some.inj hsame)
  exact Bool.noConfusion hid

/-! ### Enterprise results -/

theorem matchFromJson_ok (song : CJson) (base : Option CDouble) :
    (matchFromJson p song base).ok = {
      EnterpriseMatch.zero with
      score := jsonGetInt p song "score" 0
      timecode := song.textOf p "timecode"
      artist := song.textOf p "artist"
      title := song.textOf p "title"
      album := song.textOf p "album"
      releaseDate := song.textOf p "release_date"
      label := song.textOf p "label"
      isrc := song.textOf p "isrc"
      upc := song.textOf p "upc"
      songLink := song.textOf p "song_link"
      startOffset := jsonGetInt p song "start_offset" 0
      endOffset := jsonGetInt p song "end_offset" 0
      startSeconds := (songSeconds p base song).1
      endSeconds := (songSeconds p base song).2 } := by
  simp [matchFromJson, songSeconds, EnterpriseMatch.zero]

theorem CJson.Retyped.song {key : CString} (h : o.Retyped n [.member key] o') (hn : InRange 32 n)
    (hkey : key ∉ songKeys) (base : Option CDouble) :
    (matchFromJson p o' base).ok = (matchFromJson p o base).ok := by
  have htext {k : CString} (hk : k ∈ songKeys) := h.texts (p := p) hkey hk
  rw [matchFromJson_ok, matchFromJson_ok]
  simp only [songSeconds, h.getInt (p := p) hn]
  rw [htext (by decide : "timecode".toList ∈ _), htext (by decide : "artist".toList ∈ _),
    htext (by decide : "title".toList ∈ _), htext (by decide : "album".toList ∈ _),
    htext (by decide : "release_date".toList ∈ _), htext (by decide : "label".toList ∈ _),
    htext (by decide : "isrc".toList ∈ _), htext (by decide : "upc".toList ∈ _),
    htext (by decide : "song_link".toList ∈ _)]

theorem chunkSongs_of_get {chunk : CJson} {songs : List CJson}
    (h : chunk.getObjectItemCaseSensitive "songs" = some (.array songs)) :
    chunkSongs chunk = some songs := by
  rw [chunkSongs, if_pos (CJson.isObject_of_get h), h]

theorem CJson.Retyped.chunk {j : Nat} {key : CString}
    (h : o.Retyped n [.member "songs", .item j, .member key] o') (hn : InRange 32 n)
    (hkey : key ∉ songKeys) (base : Option CDouble) :
    ((chunkSongs o').getD []).length = ((chunkSongs o).getD []).length ∧
    (objectSongs o').map (fun song => (matchFromJson p song base).ok) =
      (objectSongs o).map fun song => (matchFromJson p song base).ok := by
  obtain ⟨child, child', hget, hget', hchild⟩ := h.get_self
  cases hchild with
  | item hsong =>
    rw [objectSongs, objectSongs, chunkSongs_of_get hget, chunkSongs_of_get hget']
    simp [List.filter_append, hsong.isObject.1, hsong.isObject.2, hsong.song hn hkey]

theorem CJson.Retyped.songInteger {i j : Nat} {key : CString}
    (h : o.Retyped n [.item i, .member "songs", .item j, .member key] o') (hn : InRange 32 n)
    (hkey : key ∉ songKeys) : Decoder.enterprise.Same p o o' := by
  cases h with
  | @item _ chunk chunk' before after hchunk =>
    have hbase : chunkBase p chunk' = chunkBase p chunk := by
      rw [chunkBase, chunkBase, hchunk.textOf_ne (by decide)]
    have hcount :
        countSongs (before ++ chunk' :: after) = countSongs (before ++ chunk :: after) := by
      simp [countSongs, (hchunk.chunk (p := p) hn hkey none).1]
    have hfill : (fillChunks p 0 (before ++ chunk' :: after)).ok =
        (fillChunks p 0 (before ++ chunk :: after)).ok := by
      rw [fillChunks_ok, fillChunks_ok, List.flatMap_append, List.flatMap_append, List.flatMap_cons,
        List.flatMap_cons, hbase, (hchunk.chunk hn hkey _).2]
    rw [Decoder.Same, enterpriseFromJson_ok, enterpriseFromJson_ok, hcount, hfill]

/-! ### Callbacks -/

/-- What the branch of a match gives, by the members of the result. -/
def resultOutcome (p : Platform) (result : CJson) : CallbackOut :=
  match result.getObjectItemCaseSensitive "results" with
  | some (.array (first :: rest)) =>
    ⟨.ok, some { matchOf p result first rest [] with rawResponse := none }, none, none⟩
  | _ => .failed .serialization (some "audd: callback result.results is empty")

/-- What a callback body gives, by its members. -/
def callbackOutcome (p : Platform) (root : CJson) : CallbackOut :=
  match root.getObjectItemCaseSensitive "notification" with
  | some (.object notif) =>
    ⟨.ok, none, some { notificationOf p root (.object notif) [] with rawResponse := none }, none⟩
  | _ =>
    match root.getObjectItemCaseSensitive "result" with
    | some (.object result) => resultOutcome p (.object result)
    | _ =>
      .failed .serialization (some "audd: callback body has neither result nor notification")

theorem parseCallback_typed {parse : CString → Option CJson} {text : CString} {root : CJson}
    (htext : text ≠ []) (hroot : parse text = some root) :
    (parseCallback p parse (some text)).ok.typed = callbackOutcome p root := by
  obtain ⟨c, rest, rfl⟩ := List.exists_cons_of_ne_nil htext
  simp only [parseCallback, AllocM.ok_bind, AllocM.ok_copy, Option.join_some, hroot,
    callbackOutcome]
  rcases root.getObjectItemCaseSensitive "notification" with _ | (_ | _ | _ | _ | _ | notif)
  case some.object =>
    simp only [parseNotification_ok]
    rfl
  all_goals
    simp only
    rcases root.getObjectItemCaseSensitive "result" with _ | (_ | _ | _ | _ | _ | result)
    case some.object =>
      simp only [resultOutcome]
      rcases (CJson.object result).getObjectItemCaseSensitive "results" with
        _ | (_ | _ | _ | _ | (_ | ⟨first, rest⟩) | _)
      case some.array.cons =>
        simp only [parseMatch_ok]
        rfl
      all_goals rfl
    all_goals rfl

theorem CJson.Retyped.callback (h : callbackOutcome p o' = callbackOutcome p o) :
    Decoder.callback.Same p o o' := by
  intro parse text text' htext htext' hroot hroot'
  rw [parseCallback_typed htext hroot, parseCallback_typed htext' hroot', h]

theorem CJson.Retyped.time (h : o.Retyped n [.member "time"] o') (hn : InRange 32 n) :
    Decoder.callback.Same p o o' := by
  apply CJson.Retyped.callback
  have htime := h.getInt (p := p) hn "time" 0
  rw [callbackOutcome, callbackOutcome, h.get_ne (by decide), h.get_ne (by decide)]
  simp only [notificationOf, htime]

theorem CJson.Retyped.streamRunning {key : CString} (h : o.Retyped n (.member key :: path) o')
    (hkey : key ≠ "stream_running") : streamRunningOf o' = streamRunningOf o := by
  rw [streamRunningOf, streamRunningOf, h.get_ne hkey.symm, h.getBool_ne hkey.symm]

theorem CJson.Retyped.notificationInteger {key : CString}
    (h : o.Retyped n [.member "notification", .member key] o') (hn : InRange 32 n)
    (hkey : key ∉ (["notification_message", "stream_running"] : List CString)) :
    Decoder.callback.Same p o o' := by
  apply CJson.Retyped.callback
  have htime : jsonGetInt p o' "time" 0 = jsonGetInt p o "time" 0 := by
    rw [jsonGetInt, jsonGetInt, jsonGetInt64, jsonGetInt64, h.get_ne (by decide)]
  obtain ⟨child, child', hget, hget', hchild⟩ := h.get_self
  have hmessage := hchild.texts (p := p) hkey (by decide : "notification_message".toList ∈ _)
  have hrunning := hchild.streamRunning fun heq => hkey (by rw [heq]; decide)
  have hint := hchild.getInt (p := p) hn
  obtain ⟨ms, ms', rfl, rfl⟩ := hchild.exists_members
  rw [callbackOutcome, callbackOutcome, hget, hget']
  simp only [notificationOf, hint, hmessage, hrunning, htime]

/-- An outcome that is the same for the result is the same for the body. -/
theorem CJson.Retyped.callbackResult (h : o.Retyped n (.member "result" :: path) o')
    (hresult : ∀ ms ms', (CJson.object ms).Retyped n path (.object ms') →
      resultOutcome p (.object ms') = resultOutcome p (.object ms))
    {key : CString} {below : List Step} (hpath : path = .member key :: below) :
    Decoder.callback.Same p o o' := by
  apply CJson.Retyped.callback
  subst hpath
  have htime : jsonGetInt p o' "time" 0 = jsonGetInt p o "time" 0 := by
    rw [jsonGetInt, jsonGetInt, jsonGetInt64, jsonGetInt64, h.get_ne (by decide)]
  obtain ⟨child, child', hget, hget', hchild⟩ := h.get_self
  obtain ⟨ms, ms', rfl, rfl⟩ := hchild.exists_members
  rw [callbackOutcome, callbackOutcome, hget, hget', h.get_ne (by decide)]
  simp only [notificationOf, htime, hresult ms ms' hchild]

theorem CJson.Retyped.resultInteger {key : CString}
    (h : o.Retyped n [.member "result", .member key] o') (hn : InRange 32 n)
    (hkey : key ∉ (["timestamp", "results"] : List CString)) : Decoder.callback.Same p o o' := by
  refine h.callbackResult (fun ms ms' hchild => ?_) rfl
  have htimestamp := hchild.texts (p := p) hkey (by decide : "timestamp".toList ∈ _)
  rw [resultOutcome, resultOutcome, hchild.get_ne fun heq => hkey (by rw [← heq]; decide)]
  simp only [matchOf, hchild.getInt64 (p := p) hn, hchild.getInt (p := p) hn, htimestamp]

theorem CJson.Retyped.songOf {key : CString} (h : o.Retyped n [.member key] o')
    (hn : InRange 32 n) (hkey : key ∉ songKeys) : Audd.songOf p o' = Audd.songOf p o := by
  have htext {k : CString} (hk : k ∈ songKeys) := h.texts (p := p) hkey hk
  rw [Audd.songOf, Audd.songOf, if_pos h.isObject.1, if_pos h.isObject.2, h.getInt hn,
    htext (by decide : "artist".toList ∈ _), htext (by decide : "title".toList ∈ _),
    htext (by decide : "album".toList ∈ _), htext (by decide : "release_date".toList ∈ _),
    htext (by decide : "label".toList ∈ _), htext (by decide : "song_link".toList ∈ _),
    htext (by decide : "isrc".toList ∈ _), htext (by decide : "upc".toList ∈ _)]

theorem CJson.Retyped.resultScore {i : Nat}
    (h : o.Retyped n [.member "result", .member "results", .item i, .member "score"] o')
    (hn : InRange 32 n) : Decoder.callback.Same p o o' := by
  refine h.callbackResult (fun ms ms' hchild => ?_) rfl
  have htimestamp := hchild.textOf_ne (p := p) (by decide : "timestamp".toList ≠ _)
  have hint {k : CString} (hk : k ≠ "results") : jsonGetInt64 p (.object ms') k 0 =
      jsonGetInt64 p (.object ms) k 0 := by
    rw [jsonGetInt64, jsonGetInt64, hchild.get_ne hk]
  have hradio := hint (by decide : "radio_id".toList ≠ _)
  have hlength := hint (by decide : "play_length".toList ≠ _)
  obtain ⟨songs, songs', hget, hget', hsongs⟩ := hchild.get_self
  cases hsongs with
  | @item _ song song' before after hsong =>
    have hsame := hsong.songOf (p := p) hn (by decide)
    rw [resultOutcome, resultOutcome, hget, hget']
    -- the song is the first one or an alternative
    cases before with
    | nil => simp only [List.nil_append, matchOf, jsonGetInt, htimestamp, hradio, hlength, hsame]
    | cons first before =>
      simp only [List.cons_append, matchOf, jsonGetInt, htimestamp, hradio, hlength, hsame,
        List.map_append, List.map_cons]

/-! ### Errors -/

theorem decodeOrRaise_same_iff : Decoder.errorResponse.Same p o o' ↔
    ∀ customCatalogContext, verdict p customCatalogContext (maybeWarnAndStrip p o).ok =
      verdict p customCatalogContext (maybeWarnAndStrip p o').ok := by
  have hpair : ∀ (client : Client) (resp : HttpResponse) (customCatalogContext : Bool),
      ∀ body, let out := (decodeOrRaise p client { resp with json := some body }
        customCatalogContext).ok
      (out.1, out.2.1.lastErrorCode) =
        verdict p customCatalogContext (maybeWarnAndStrip p body).ok := by
    intro client resp customCatalogContext body
    have hjson : { resp with json := some body }.json = some body := rfl
    obtain ⟨herr, hcode, -⟩ := decodeOrRaise_json (p := p) client hjson customCatalogContext
    exact Prod.ext herr hcode
  constructor
  · intro h customCatalogContext
    rw [← hpair (.new none none none) ⟨0, none, none, none⟩ customCatalogContext o,
      ← hpair (.new none none none) ⟨0, none, none, none⟩ customCatalogContext o']
    have := h (.new none none none) ⟨0, none, none, none⟩ customCatalogContext
    exact Prod.ext this.1 this.2
  · intro h client resp customCatalogContext
    have := h customCatalogContext
    rw [← hpair client resp customCatalogContext o, ← hpair client resp customCatalogContext o']
      at this
    exact Prod.mk.inj this

/-- A body without an error code is a success or a server error. -/
theorem verdict_same_iff {body : CJson} {accepted : Prop} [Decidable accepted] :
    (∀ customCatalogContext, verdict p customCatalogContext body =
      if accepted then (.ok, 0) else (.server, 0)) ↔
    (body.statusStr = ("success" : CString) ↔ accepted) ∧
      (body.statusStr = ("error" : CString) → body.storedCode p = 0) := by
  have hok := verdict_ok_iff p false body
  constructor
  · intro h
    rw [h false] at hok
    refine ⟨hok.symm.trans (by split_ifs with ha <;> simp [ha]), fun herror => ?_⟩
    have hsecond := congrArg Prod.snd (h false)
    rw [verdict, if_neg (by rw [herror]; decide), if_pos herror] at hsecond
    apply hsecond.trans
    split_ifs <;> rfl
  · rintro ⟨haccepted, hcode⟩ customCatalogContext
    rw [verdict]
    by_cases hs : body.statusStr = ("success" : CString)
    · rw [if_pos hs, if_pos (haccepted.mp hs)]
    · rw [if_neg hs, if_neg fun ha => hs (haccepted.mpr ha)]
      split_ifs with he
      · have := hcode he
        rw [CJson.storedCode] at this
        simp only [this]
        rw [if_neg (by simp)]
        rfl
      · rfl

theorem CJson.Retyped.errorCode (h : o.Retyped n [.member "error", .member "error_code"] o') :
    Decoder.errorResponse.Same p o o' ↔ o.CodeHarmless p := by
  have hstatus : o'.statusStr = o.statusStr := by
    rw [CJson.statusStr, CJson.statusStr, h.get_ne (by decide)]
  have hnone : o'.errorObject.bind CJson.errorCode = none := by
    obtain ⟨child, child', -, hget', hchild⟩ := h.get_self
    obtain ⟨code, code', -, hcode', hdigits⟩ := hchild.get_self
    cases hdigits
    rw [CJson.errorObject, hget', Option.filter_some, if_pos hchild.isObject.2, Option.bind_some,
      CJson.errorCode, hcode']
  have hkept : ¬o'.Deprecated p := by
    rintro ⟨⟨code, hcode, -⟩, -⟩
    rw [hnone] at hcode
    cases hcode
  -- the digits are no code, so the error is any server error
  have hverdict : ∀ customCatalogContext,
      verdict p customCatalogContext (maybeWarnAndStrip p o').ok =
        if o.statusStr = ("success" : CString) then (.ok, 0) else (.server, 0) := by
    rw [maybeWarnAndStrip_of_not hkept, verdict_same_iff, hstatus]
    exact ⟨Iff.rfl, fun _ => by rw [CJson.storedCode, hnone]; rfl⟩
  rw [decodeOrRaise_same_iff]
  simp only [hverdict]
  rw [verdict_same_iff, CJson.CodeHarmless]
  by_cases hd : o.Deprecated p
  · rw [maybeWarnAndStrip_of_deprecated hd]
    simp [hd]
  · rw [maybeWarnAndStrip_of_not hd]
    simp [hd]

/-- Digits in the place of an integer are read as the integer, but for two members: a match loses
its audio id, and an error its code, where that matters. -/
theorem retyped_same_iff {d : Decoder} (hread : ReadsInteger d path) (hn : InRange 32 n)
    (hbody : o.Retyped n path o') :
    d.Same p o o' ↔ path ≠ [.member "audio_id"] ∧
      (path = [.member "error", .member "error_code"] → o.CodeHarmless p) := by
  have hsame : ∀ {d : Decoder}, d.Same p o o' → path ≠ [.member "audio_id"] →
      path ≠ [.member "error", .member "error_code"] →
      (d.Same p o o' ↔ path ≠ [.member "audio_id"] ∧
        (path = [.member "error", .member "error_code"] → o.CodeHarmless p)) :=
    fun hd haudio hcode => iff_of_true hd ⟨haudio, fun heq => absurd heq hcode⟩
  cases hread with
  | errorCode =>
    rw [hbody.errorCode]
    exact ⟨fun h => ⟨by decide, fun _ => h⟩, fun h => h.2 rfl⟩
  | audioId => exact iff_of_false hbody.audioId fun h => h.1 rfl
  | @block block key h =>
    have hblock : ∀ m ∈ blockIntegers, m.1 ≠ "error" := by decide
    refine hsame (hbody.blockInteger hn h) (by simp) ?_
    simp only [ne_eq, List.cons.injEq, Step.member.injEq]
    exact fun heq => hblock _ h heq.1
  | @musicbrainz i key h =>
    have hkeys : ∀ k ∈ (["length", "score"] : List CString), k ∉ (["id", "title"] : List CString) :=
      by decide
    exact hsame (hbody.entryInteger hn (hkeys _ h)) (by simp) (by simp)
  | @song i j key h =>
    have hkeys : ∀ k ∈ (["score", "start_offset", "end_offset"] : List CString), k ∉ songKeys := by
      decide
    exact hsame (hbody.songInteger hn (hkeys _ h)) (by simp) (by simp)
  | time => exact hsame (hbody.time hn) (by decide) (by decide)
  | @notification key h =>
    have hkeys : ∀ k ∈ (["radio_id", "notification_code"] : List CString),
        k ∉ (["notification_message", "stream_running"] : List CString) := by decide
    exact hsame (hbody.notificationInteger hn (hkeys _ h)) (by simp) (by simp)
  | @result key h =>
    have hkeys : ∀ k ∈ (["radio_id", "play_length"] : List CString),
        k ∉ (["timestamp", "results"] : List CString) := by decide
    exact hsame (hbody.resultInteger hn (hkeys _ h)) (by simp) (by simp)
  | callbackScore => exact hsame (hbody.resultScore hn) (by simp) (by simp)

end

theorem retyped_same_duration :
    Decoder.recognition.Same .exact
      (.object [("deezer", .object [("duration", .number (.finite 7))])])
      (.object [("deezer", .object [("duration", .string "7")])]) := by
  have hread : ReadsInteger .recognition [.member "deezer", .member "duration"] :=
    .block (by decide)
  exact (retyped_same_iff hread ⟨by decide, by decide⟩ (.first (.first .here))).mpr
    ⟨by decide, fun h => absurd h (by decide)⟩

/-- The body of an error of an account, with its code. -/
def codeBody (code : CJson) : CJson := .object [("status", .string "error"),
  ("error", .object [("error_code", code)])]

/-- An error with a code as text is no error of the token, and a match with an audio id as text is
no match of the custom catalog. -/
theorem retyped_differs :
    (codeBody (.number (.finite 900))).Retyped 900 [.member "error", .member "error_code"]
      (codeBody (.string "900")) ∧
    ¬Decoder.errorResponse.Same .exact (codeBody (.number (.finite 900)))
      (codeBody (.string "900")) ∧
    (CJson.object [("audio_id", .number (.finite 7))]).Retyped 7 [.member "audio_id"]
      (.object [("audio_id", .string "7")]) ∧
    ¬Decoder.recognition.Same .exact (.object [("audio_id", .number (.finite 7))])
      (.object [("audio_id", .string "7")]) := by
  have haudio : (CJson.object [("audio_id", .number (.finite 7))]).Retyped 7 [.member "audio_id"]
      (.object [("audio_id", .string "7")]) := .first .here
  refine ⟨?_, fun h => ?_, haudio, haudio.audioId⟩
  · exact CJson.Retyped.second (by decide) (.first .here)
  · have := (h (.new none none none) ⟨200, none, none, none⟩ false).1
    exact absurd this (by decide)

end Audd
