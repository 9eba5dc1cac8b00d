import Audd.Decode
import Audd.Request

/-! The advanced calls: lyrics, and the raw request that leaves decoding to its caller. -/

namespace Audd

structure LyricsResult where
  artist : Option CString
  title : Option CString
  lyrics : Option CString
  songId : Int
  media : Option CString
  fullTitle : Option CString
  artistId : Int
  songLink : Option CString
deriving DecidableEq, Repr

section

variable (parse : CString → Option CJson) (p : Platform)

def advAttempt (method : CString) (kv : Option (List CString)) :
    Client → Transfer → AllocM Posted :=
  printedAttempt parse (("https://api.audd.io/" : CString) ++ method ++ ("/" : CString)) kv

def lyricsOf (it : CJson) : AllocM LyricsResult := do
  let (artist, it) ← copyField p it "artist"
  let (title, it) ← copyField p it "title"
  let (lyrics, it) ← copyField p it "lyrics"
  let songId := jsonGetInt p it "song_id" 0
  let (media, it) ← copyField p it "media"
  let (fullTitle, it) ← copyField p it "full_title"
  let artistId := jsonGetInt p it "artist_id" 0
  let (songLink, _) ← copyField p it "song_link"
  pure ⟨artist, title, lyrics, songId, media, fullTitle, artistId, songLink⟩

def lyricsRequest (query : CString) : Request (List LyricsResult) where
  cls := .recognition
  post := advAttempt parse "findLyrics" (some [("q" : CString), query])
  finish client resp := do
    let (e, client, resp) ← decodeOrRaise p client resp false
    if e ≠ .ok then pure (e, client, none)
    else
      let (e, list) ← listOf (lyricsOf p)
        (resp.json.bind (CJson.getObjectItemCaseSensitive · "result"))
      pure (e, client, list)

/-- `hasOut` says whether the place for the results is there. -/
def advancedFindLyrics (query : Option CString) (hasOut : Bool) (client : Client) :
    AllocM (Prepared (List LyricsResult)) :=
  match query, hasOut with
  | some query, true => pure (.request client (lyricsRequest parse p query))
  | _, _ => pure (.refused .invalidArgument client)

def rawRequest (method : CString) (paramsKv : Option (List CString)) : Request CString where
  cls := .recognition
  post := advAttempt parse method paramsKv
  finish client resp := do
    let (e, client) ← decodeTopLevel client resp
    if e ≠ .ok then pure (e, client, none)
    else
      match resp.body with
      | none => pure (.ok, client, none)
      | some body =>
        match ← AllocM.copy body with
        | none => pure (.outOfMemory, client, none)
        | some text => pure (.ok, client, some text)

def advancedRawRequest (method : Option CString) (paramsKv : Option (List CString))
    (hasOut : Bool) (client : Client) : AllocM (Prepared CString) :=
  match method, hasOut with
  | some method, true => pure (.request client (rawRequest parse method paramsKv))
  | _, _ => pure (.refused .invalidArgument client)

end

end Audd
