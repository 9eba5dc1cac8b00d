import Audd.Recognition

/-! The accessors of a recognition.  Some write: an extra keeps the text it prints in the tree that
it was printed from, under a name made from its key, and a link is built when it is first asked
for, which coerces the members that it is read from.

As in the parser, a request stands for a copied or printed string or for an added member. -/

namespace Audd

/-- The blocks with extras. -/
inductive Block
  | appleMusic
  | spotify
  | deezer
deriving DecidableEq, Repr

def knownKeys : List CString :=
  ["timecode", "audio_id", "artist", "title", "album", "release_date", "label", "song_link", "isrc",
    "upc", "apple_music", "spotify", "deezer", "napster", "musicbrainz"]

/-- The name under which the extra of a key is kept: `snprintf` into a buffer of 128 bytes. -/
def auxKey (key : CString) : CString := (("_audd_extra_" : CString) ++ key).take 127

section

variable (p : Platform)

/-! ### Extras -/

/-- The item printed, and the tree with its text added; NULL where either has no memory. -/
def stash (tree : CJson) (aux : CString) (it : CJson) : AllocM (Option CString × CJson) := do
  match ← AllocM.copy (printUnformatted p it) with
  | none => pure (none, tree)
  | some printed =>
    match ← AllocM.copy () with
    | none => pure (none, tree)
    | some _ => pure (some printed, tree.addStringToObject aux printed)

def recognitionExtra (r : Recognition) (key : Option CString) :
    AllocM (Option CString × Recognition) :=
  match r.rawObj, key with
  | some raw, some key =>
    if key ∈ knownKeys then pure (none, r)
    else
      match raw.getObjectItemCaseSensitive key with
      | none => pure (none, r)
      | some it =>
        match raw.getObjectItemCaseSensitive (auxKey key) with
        | some (.string cached) => pure (some cached, r)
        | _ => do
          let (printed, raw) ← stash p raw (auxKey key) it
          pure (printed, { r with rawObj := some raw })
  | _, _ => pure (none, r)

/-- What the extras of the blocks share.  The cache is looked at first, and no key is skipped. -/
def blockExtra (raw : Option CJson) (key : CString) : AllocM (Option CString × Option CJson) :=
  match raw with
  | none => pure (none, none)
  | some raw =>
    match raw.getObjectItemCaseSensitive (auxKey key) with
    | some (.string cached) => pure (some cached, some raw)
    | _ =>
      match raw.getObjectItemCaseSensitive key with
      | none => pure (none, some raw)
      | some it => do
        let (printed, raw) ← stash p raw (auxKey key) it
        pure (printed, some raw)

def appleMusicExtra (m : Option AppleMusic) (key : CString) :
    AllocM (Option CString × Option AppleMusic) :=
  match m with
  | none => pure (none, none)
  | some m => do
    let (printed, raw) ← blockExtra p m.raw key
    pure (printed, some { m with raw := raw })

def spotifyExtra (m : Option Spotify) (key : CString) : AllocM (Option CString × Option Spotify) :=
  match m with
  | none => pure (none, none)
  | some m => do
    let (printed, raw) ← blockExtra p m.raw key
    pure (printed, some { m with raw := raw })

def deezerExtra (m : Option Deezer) (key : CString) : AllocM (Option CString × Option Deezer) :=
  match m with
  | none => pure (none, none)
  | some m => do
    let (printed, raw) ← blockExtra p m.raw key
    pure (printed, some { m with raw := raw })

/-! ### Links -/

def songLinkIsLisTn (url : Option CString) : Bool := urlHostnameIs url "lis.tn"

def appendQparam (url : Option CString) (param : CString) : AllocM (Option CString) :=
  match url with
  | none | some [] => pure none
  | some url => AllocM.copy (url ++ [if '?' ∈ url then '&' else '?'] ++ param)

def recognitionThumbnailUrl (r : Recognition) : AllocM (Option CString × Recognition) :=
  if r.thumbnailLazy then pure (r.thumbnailUrl, r)
  else
    let r := { r with thumbnailLazy := true }
    if !songLinkIsLisTn r.songLink then pure (none, r)
    else do
      let url ← appendQparam r.songLink "thumb"
      pure (url, { r with thumbnailUrl := url })

/-- The values of the enumeration; no other number names a provider. -/
def Provider.ofNumber : Nat → Option Provider
  | 0 => some .spotify
  | 1 => some .appleMusic
  | 2 => some .deezer
  | 3 => some .napster
  | 4 => some .youtube
  | _ => none

def providerName : Provider → CString
  | .spotify => "spotify"
  | .appleMusic => "apple_music"
  | .deezer => "deezer"
  | .napster => "napster"
  | .youtube => "youtube"

/-- Reads `external_urls.spotify`; an object is left with that member coerced. -/
def spotifyExternalUrl (raw : CJson) : AllocM (Option CString × CJson) :=
  match raw.getObjectItemCaseSensitive "external_urls" with
  | some (.object urls) => do
    let (u, ext) ← jsonGetString p (.object urls) "spotify"
    pure (u, raw.setItem "external_urls" ext)
  | _ => pure (none, raw)

def directStreamingUrl (r : Recognition) (provider : Provider) :
    AllocM (Option CString × Recognition) :=
  match provider with
  | .appleMusic => do pure (← sdup (r.appleMusic.bind AppleMusic.url), r)
  | .spotify =>
    match r.spotify, r.spotify.bind Spotify.raw with
    | some m, some raw => do
      let (u, raw) ← spotifyExternalUrl p raw
      let r := { r with spotify := some { m with raw := some raw } }
      match u, m.uri with
      | some u, _ => do pure (← AllocM.copy u, r)
      | none, some (c :: uri) => do pure (← AllocM.copy (c :: uri), r)
      | none, _ => pure (none, r)
    | _, _ => pure (none, r)
  | .deezer => do pure (← sdup (r.deezer.bind Deezer.link), r)
  | .napster =>
    match r.napster, r.napster.bind Napster.raw with
    | some m, some raw => do
      let (u, raw) ← jsonGetString p raw "href"
      pure (← sdup u, { r with napster := some { m with raw := some raw } })
    | _, _ => pure (none, r)
  | .youtube => pure (none, r)

def recognitionStreamingUrl (r : Recognition) (number : Nat) :
    AllocM (Option CString × Recognition) :=
  match Provider.ofNumber number with
  | none => pure (none, r)
  | some provider =>
    if r.streamingLazy provider then pure (r.streamingUrls provider, r)
    else do
      let r := { r with streamingLazy := Function.update r.streamingLazy provider true }
      let (direct, r) ← directStreamingUrl p r provider
      match direct with
      | some (c :: url) => pure (some (c :: url), keep r provider (some (c :: url)))
      | _ =>
        if songLinkIsLisTn r.songLink then do
          let url ← appendQparam r.songLink (providerName provider)
          pure (url, keep r provider url)
        else pure (none, r)
where
  keep (r : Recognition) (provider : Provider) (url : Option CString) : Recognition :=
    { r with streamingUrls := Function.update r.streamingUrls provider url }

/-- Reads `previews[0].url`; the object is left with that member coerced. -/
def applePreview (raw : CJson) : AllocM (Option CString × CJson) :=
  match raw.getObjectItemCaseSensitive "previews" with
  | some (.array (.object first :: rest)) => do
    let (u, first) ← jsonGetString p (.object first) "url"
    pure (u, raw.setItem "previews" (.array (first :: rest)))
  | _ => pure (none, raw)

/-- The preview that a block carries, with the recognition that reading it leaves. -/
def Block.preview (r : Recognition) : Block → AllocM (Option CString × Recognition)
  | .appleMusic =>
    match r.appleMusic, r.appleMusic.bind AppleMusic.raw with
    | some m, some raw => do
      let (u, raw) ← applePreview p raw
      pure (u, { r with appleMusic := some { m with raw := some raw } })
    | _, _ => pure (none, r)
  | .spotify =>
    match r.spotify, r.spotify.bind Spotify.raw with
    | some m, some raw => do
      let (u, raw) ← jsonGetString p raw "preview_url"
      pure (u, { r with spotify := some { m with raw := some raw } })
    | _, _ => pure (none, r)
  | .deezer =>
    match r.deezer, r.deezer.bind Deezer.raw with
    | some m, some raw => do
      let (u, raw) ← jsonGetString p raw "preview"
      pure (u, { r with deezer := some { m with raw := some raw } })
    | _, _ => pure (none, r)

/-- The first preview that is not empty, of the blocks in order; a block after it is not read. -/
def firstPreview (r : Recognition) : List Block → AllocM (Option CString × Recognition)
  | [] => pure (none, r)
  | block :: blocks => do
    let (u, r) ← block.preview p r
    match u with
    | some (c :: u) => do
      let url ← AllocM.copy (c :: u)
      pure (url, { r with previewUrl := url })
    | _ => firstPreview r blocks

def recognitionPreviewUrl (r : Recognition) : AllocM (Option CString × Recognition) :=
  if r.previewLazy then pure (r.previewUrl, r)
  else firstPreview p { r with previewLazy := true } [.appleMusic, .spotify, .deezer]

/-! ### Calls -/

/-- A call of a public accessor.  The typed getters and `raw_response` read the structure. -/
inductive Accessor
  | getter (read : Recognition → Option CString)
  | thumbnailUrl
  | streamingUrl (provider : Nat)
  | previewUrl
  | extra (key : Option CString)
  | blockExtra (block : Block) (key : CString)

/-- The extra of a block of the recognition. -/
def Block.extra (r : Recognition) (key : CString) : Block → AllocM (Option CString × Recognition)
  | .appleMusic => do
    let (printed, m) ← appleMusicExtra p r.appleMusic key
    pure (printed, { r with appleMusic := m })
  | .spotify => do
    let (printed, m) ← spotifyExtra p r.spotify key
    pure (printed, { r with spotify := m })
  | .deezer => do
    let (printed, m) ← deezerExtra p r.deezer key
    pure (printed, { r with deezer := m })

def Accessor.call (r : Recognition) : Accessor → AllocM (Option CString × Recognition)
  | .getter read => pure (read r, r)
  | .thumbnailUrl => recognitionThumbnailUrl r
  | .streamingUrl provider => recognitionStreamingUrl p r provider
  | .previewUrl => recognitionPreviewUrl p r
  | .extra key => recognitionExtra p r key
  | .blockExtra block key => block.extra p r key

/-- The recognition after calls whose memory is granted. -/
def Recognition.after (r : Recognition) (calls : List Accessor) : Recognition :=
  calls.foldl (fun r call => (call.call p r).ok.2) r

end

/-! ### What a call leaves -/

section

variable {p : Platform} {r : Recognition}

@[simp] theorem stash_ok (tree : CJson) (aux : CString) (it : CJson) :
    (stash p tree aux it).ok =
      (some (printUnformatted p it), tree.addStringToObject aux (printUnformatted p it)) := rfl

theorem recognitionExtra_keeps (r : Recognition) (key : Option CString) :
    ∃ raw, (recognitionExtra p r key).ok.2 = { r with rawObj := raw } := by
  unfold recognitionExtra
  split
  · split
    · exact ⟨_, rfl⟩
    · split
      · exact ⟨_, rfl⟩
      · split
        · exact ⟨_, rfl⟩
        · simp only [AllocM.ok_bind, AllocM.ok_pure]
          exact ⟨_, rfl⟩
  · exact ⟨_, rfl⟩

theorem thumbnailUrl_keeps (r : Recognition) : ∃ url asked,
    (recognitionThumbnailUrl r).ok.2 = { r with thumbnailUrl := url, thumbnailLazy := asked } := by
  unfold recognitionThumbnailUrl
  split
  · exact ⟨_, _, rfl⟩
  · dsimp only
    split
    · exact ⟨_, _, rfl⟩
    · rw [AllocM.ok_bind]
      exact ⟨_, _, rfl⟩

/-- Apart from the link that it keeps, a first call leaves what the direct link leaves. -/
theorem recognitionStreamingUrl_keeps {number : Nat} {provider : Provider}
    (hprovider : Provider.ofNumber number = some provider)
    (hlazy : r.streamingLazy provider = false) :
    ∃ urls, (recognitionStreamingUrl p r number).ok.2 = { (directStreamingUrl p { r with
      streamingLazy := Function.update r.streamingLazy provider true } provider).ok.2 with
      streamingUrls := urls } := by
  unfold recognitionStreamingUrl
  rw [hprovider]
  simp only [hlazy, Bool.false_eq_true, if_false, AllocM.ok_bind]
  split
  · exact ⟨_, rfl⟩
  · split
    · simp only [AllocM.ok_bind, AllocM.ok_pure]
      exact ⟨_, rfl⟩
    · exact ⟨_, rfl⟩

end

end Audd
