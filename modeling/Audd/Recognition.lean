import Audd.JsonPrint
import Audd.Url
import Mathlib.Logic.Function.Basic

/-! A recognition: its metadata blocks, the parser that builds it from a result object, and the
accessors that read it.  The parser copies the raw object before it reads a field, since reading a
number or a boolean as text rewrites it in place; each block parser copies its block after.

One request stands for one operation that needs memory: a structure, a copied or printed string,
or a duplicated tree, which is whole or NULL. -/

namespace Audd

structure AppleMusic where
  artistName : Option CString
  url : Option CString
  durationMs : Int
  name : Option CString
  isrc : Option CString
  albumName : Option CString
  trackNumber : Int
  composerName : Option CString
  discNumber : Int
  releaseDate : Option CString
  raw : Option CJson

structure Spotify where
  id : Option CString
  name : Option CString
  durationMs : Int
  explicit : Int
  popularity : Int
  trackNumber : Int
  type : Option CString
  uri : Option CString
  raw : Option CJson

structure Deezer where
  id : Int
  title : Option CString
  duration : Int
  link : Option CString
  raw : Option CJson

structure Napster where
  id : Option CString
  name : Option CString
  isrc : Option CString
  artistName : Option CString
  albumName : Option CString
  raw : Option CJson

structure MusicbrainzEntry where
  id : Option CString
  score : Option CString
  title : Option CString
  length : Int
deriving DecidableEq, Repr

inductive Provider
  | spotify
  | appleMusic
  | deezer
  | napster
  | youtube
deriving DecidableEq, Repr

/-- `struct audd_recognition`.  The last six fields are built when they are first asked for. -/
structure Recognition where
  timecode : Option CString
  artist : Option CString
  title : Option CString
  album : Option CString
  releaseDate : Option CString
  label : Option CString
  songLink : Option CString
  isrc : Option CString
  upc : Option CString
  hasAudioId : Bool
  audioId : Int
  appleMusic : Option AppleMusic
  spotify : Option Spotify
  deezer : Option Deezer
  napster : Option Napster
  mb : List MusicbrainzEntry
  rawObj : Option CJson
  rawResponseStr : Option CString
  thumbnailUrl : Option CString
  streamingUrls : Provider → Option CString
  previewUrl : Option CString
  streamingLazy : Provider → Bool
  thumbnailLazy : Bool
  previewLazy : Bool

/-! ### The members that are read as text -/

def appleMusicKeys : List CString :=
  ["artistName", "url", "name", "isrc", "albumName", "composerName", "releaseDate"]

def spotifyKeys : List CString := ["id", "name", "type", "uri"]

def deezerKeys : List CString := ["title", "link"]

def napsterKeys : List CString := ["id", "name", "isrc", "artistName", "albumName"]

def recognitionKeys : List CString :=
  ["timecode", "artist", "title", "album", "release_date", "label", "song_link", "isrc", "upc"]

section

variable (p : Platform)

/-! ### Blocks -/

def parseAppleMusic (o : Option CJson) : AllocM (Option AppleMusic) :=
  match o with
  | some (.object members) => do
    match ← AllocM.copy () with
    | none => pure none
    | some _ =>
      let o := CJson.object members
      let (artistName, o) ← copyField p o "artistName"
      let (url, o) ← copyField p o "url"
      let durationMs := jsonGetInt p o "durationInMillis" 0
      let (name, o) ← copyField p o "name"
      let (isrc, o) ← copyField p o "isrc"
      let (albumName, o) ← copyField p o "albumName"
      let trackNumber := jsonGetInt p o "trackNumber" 0
      let (composerName, o) ← copyField p o "composerName"
      let discNumber := jsonGetInt p o "discNumber" 0
      let (releaseDate, o) ← copyField p o "releaseDate"
      let raw ← AllocM.copy o
      pure (some ⟨artistName, url, durationMs, name, isrc, albumName, trackNumber, composerName,
        discNumber, releaseDate, raw⟩)
  | _ => pure none

def parseSpotify (o : Option CJson) : AllocM (Option Spotify) :=
  match o with
  | some (.object members) => do
    match ← AllocM.copy () with
    | none => pure none
    | some _ =>
      let o := CJson.object members
      let (id, o) ← copyField p o "id"
      let (name, o) ← copyField p o "name"
      let durationMs := jsonGetInt p o "duration_ms" 0
      let explicit := jsonGetBool o "explicit" 0
      let popularity := jsonGetInt p o "popularity" 0
      let trackNumber := jsonGetInt p o "track_number" 0
      let (type, o) ← copyField p o "type"
      let (uri, o) ← copyField p o "uri"
      let raw ← AllocM.copy o
      pure (some ⟨id, name, durationMs, explicit, popularity, trackNumber, type, uri, raw⟩)
  | _ => pure none

def parseDeezer (o : Option CJson) : AllocM (Option Deezer) :=
  match o with
  | some (.object members) => do
    match ← AllocM.copy () with
    | none => pure none
    | some _ =>
      let o := CJson.object members
      let id := jsonGetInt p o "id" 0
      let (title, o) ← copyField p o "title"
      let duration := jsonGetInt p o "duration" 0
      let (link, o) ← copyField p o "link"
      let raw ← AllocM.copy o
      pure (some ⟨id, title, duration, link, raw⟩)
  | _ => pure none

def parseNapster (o : Option CJson) : AllocM (Option Napster) :=
  match o with
  | some (.object members) => do
    match ← AllocM.copy () with
    | none => pure none
    | some _ =>
      let o := CJson.object members
      let (id, o) ← copyField p o "id"
      let (name, o) ← copyField p o "name"
      let (isrc, o) ← copyField p o "isrc"
      let (artistName, o) ← copyField p o "artistName"
      let (albumName, o) ← copyField p o "albumName"
      let raw ← AllocM.copy o
      pure (some ⟨id, name, isrc, artistName, albumName, raw⟩)
  | _ => pure none

/-- The score of an entry is its text, or the digits of its number. -/
def musicbrainzScore (it : CJson) : AllocM (Option CString) :=
  match it.getObjectItemCaseSensitive "score" with
  | some (.string s) => AllocM.copy s
  | some (.number d) => AllocM.copy (decimal (d.toInt p))
  | _ => pure none

def parseMusicbrainzEntry (it : CJson) : AllocM MusicbrainzEntry := do
  let (id, it) ← copyField p it "id"
  let (title, it) ← copyField p it "title"
  let length := jsonGetInt p it "length" 0
  let score ← musicbrainzScore p it
  pure ⟨id, score, title, length⟩

/-- The entries of the array's objects; anything else in it is skipped. -/
def parseMusicbrainzEntries : List CJson → AllocM (List MusicbrainzEntry)
  | [] => pure []
  | it :: items =>
    if !it.isObject then parseMusicbrainzEntries items
    else do
      let e ← parseMusicbrainzEntry p it
      pure (e :: (← parseMusicbrainzEntries items))

/-- `none` stands for the -1 that says that the array of entries has no memory. -/
def parseMusicbrainz (arr : Option CJson) : AllocM (Option (List MusicbrainzEntry)) :=
  match arr with
  | some (.array []) => pure (some [])
  | some (.array items) => do
    match ← AllocM.copy () with
    | none => pure none
    | some _ => do pure (some (← parseMusicbrainzEntries p items))
  | _ => pure (some [])

/-! ### The parser -/

def recognitionFromJson (resultObj : CJson) : AllocM (Option Recognition) :=
  if !resultObj.isObject then pure none
  else do
    match ← AllocM.copy () with
    | none => pure none
    | some _ =>
      let rawObj ← AllocM.copy resultObj
      let rawResponseStr ← sdup (rawObj.map (printUnformatted p))
      let (timecode, o) ← copyField p resultObj "timecode"
      let (artist, o) ← copyField p o "artist"
      let (title, o) ← copyField p o "title"
      let (album, o) ← copyField p o "album"
      let (releaseDate, o) ← copyField p o "release_date"
      let (label, o) ← copyField p o "label"
      let (songLink, o) ← copyField p o "song_link"
      let (isrc, o) ← copyField p o "isrc"
      let (upc, o) ← copyField p o "upc"
      let audioId :=
        match o.getObjectItemCaseSensitive "audio_id" with
        | some (.number d) => some (d.toInt p)
        | _ => none
      let appleMusic ← parseAppleMusic p (o.getObjectItemCaseSensitive "apple_music")
      let spotify ← parseSpotify p (o.getObjectItemCaseSensitive "spotify")
      let deezer ← parseDeezer p (o.getObjectItemCaseSensitive "deezer")
      let napster ← parseNapster p (o.getObjectItemCaseSensitive "napster")
      -- a failure of this parser is not looked at
      let mb ← parseMusicbrainz p (o.getObjectItemCaseSensitive "musicbrainz")
      pure (some ⟨timecode, artist, title, album, releaseDate, label, songLink, isrc, upc,
        audioId.isSome, audioId.getD 0, appleMusic, spotify, deezer, napster, mb.getD [], rawObj,
        rawResponseStr, none, fun _ => none, none, fun _ => false, false, false⟩)

end

/-! ### What the parser gives with memory -/

section

variable {p : Platform}

theorem parseAppleMusic_ok (members : List (CString × CJson)) :
    let o := CJson.object members
    (parseAppleMusic p (some o)).ok = some {
      artistName := o.textOf p "artistName"
      url := o.textOf p "url"
      durationMs := jsonGetInt p o "durationInMillis" 0
      name := o.textOf p "name"
      isrc := o.textOf p "isrc"
      albumName := o.textOf p "albumName"
      trackNumber := jsonGetInt p o "trackNumber" 0
      composerName := o.textOf p "composerName"
      discNumber := jsonGetInt p o "discNumber" 0
      releaseDate := o.textOf p "releaseDate"
      raw := some (((((((o.coerced p "artistName").coerced p "url").coerced p "name").coerced p
        "isrc").coerced p "albumName").coerced p "composerName").coerced p "releaseDate") } := by
  simp [parseAppleMusic]

theorem recognitionFromJson_ok (members : List (CString × CJson)) :
    let o := CJson.object members
    let audioId :=
      match o.getObjectItemCaseSensitive "audio_id" with
      | some (.number d) => some (d.toInt p)
      | _ => none
    (recognitionFromJson p o).ok = some {
      timecode := o.textOf p "timecode"
      artist := o.textOf p "artist"
      title := o.textOf p "title"
      album := o.textOf p "album"
      releaseDate := o.textOf p "release_date"
      label := o.textOf p "label"
      songLink := o.textOf p "song_link"
      isrc := o.textOf p "isrc"
      upc := o.textOf p "upc"
      hasAudioId := audioId.isSome
      audioId := audioId.getD 0
      appleMusic := (parseAppleMusic p (o.getObjectItemCaseSensitive "apple_music")).ok
      spotify := (parseSpotify p (o.getObjectItemCaseSensitive "spotify")).ok
      deezer := (parseDeezer p (o.getObjectItemCaseSensitive "deezer")).ok
      napster := (parseNapster p (o.getObjectItemCaseSensitive "napster")).ok
      mb := (parseMusicbrainz p (o.getObjectItemCaseSensitive "musicbrainz")).ok.getD []
      rawObj := some o
      rawResponseStr := some (printUnformatted p o)
      thumbnailUrl := none
      streamingUrls := fun _ => none
      previewUrl := none
      streamingLazy := fun _ => false
      thumbnailLazy := false
      previewLazy := false } := by
  intro o audioId
  have hobject : o.isObject = true := rfl
  simp [recognitionFromJson, hobject, audioId]

end

end Audd
