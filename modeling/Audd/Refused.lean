import Audd.Enterprise
import Audd.Lib.Refusal

/-! What the result parsers give when an allocation fails.  Every request that a result needs is
marked, from the object alone.  A result that comes out whole had all of these; where one is
refused the parser goes on, and the result has a hole. -/

namespace Audd

open AllocM

/-! ### The requests -/

/-- Reading a number or a boolean as text makes a request. -/
def readNeeds (o : CJson) (key : CString) : List Bool :=
  match o.getObjectItemCaseSensitive key with
  | some (.number _) => [true]
  | some (.bool _) => [true]
  | _ => []

/-- The copy of what was read makes another. -/
def copyNeeds (o : CJson) (key : CString) : List Bool :=
  match o.getObjectItemCaseSensitive key with
  | some (.string _) => [true]
  | some (.number _) => [true, true]
  | some (.bool _) => [true, true]
  | _ => []

def fieldsNeeds (o : CJson) (keys : List CString) : List Bool :=
  keys.flatMap fun key => copyNeeds o key

/-- A block needs its structure, its texts and its raw copy. -/
def blockNeeds (block : Option CJson) (keys : List CString) : List Bool :=
  match block with
  | some (.object members) => true :: fieldsNeeds (.object members) keys ++ [true]
  | _ => []

def scoreNeeds (it : CJson) : List Bool :=
  match it.getObjectItemCaseSensitive "score" with
  | some (.string _) => [true]
  | some (.number _) => [true]
  | _ => []

def entryNeeds (it : CJson) : List Bool := fieldsNeeds it ["id", "title"] ++ scoreNeeds it

/-- The array of entries, which matters when one of them is an object, and the entries. -/
def musicbrainzNeeds (arr : Option CJson) : List Bool :=
  match arr with
  | some (.array []) => []
  | some (.array items) =>
    items.any CJson.isObject :: (items.filter CJson.isObject).flatMap entryNeeds
  | _ => []

/-- The requests after the structure of the recognition: the raw copy and its text first. -/
def recognitionNeeds (o : CJson) : List Bool :=
  let block := o.getObjectItemCaseSensitive
  [true, true] ++ fieldsNeeds o recognitionKeys ++
    blockNeeds (block "apple_music") appleMusicKeys ++
    blockNeeds (block "spotify") spotifyKeys ++ blockNeeds (block "deezer") deezerKeys ++
    blockNeeds (block "napster") napsterKeys ++ musicbrainzNeeds (block "musicbrainz")

def songKeys : List CString :=
  ["timecode", "artist", "title", "album", "release_date", "label", "isrc", "upc", "song_link"]

def songNeeds (song : CJson) : List Bool := fieldsNeeds song songKeys

/-- The seconds of a song in the file, for the offset of its chunk. -/
def songSeconds (p : Platform) (base : Option CDouble) (song : CJson) :
    Option CDouble × Option CDouble :=
  (secondsInto p base (jsonGetInt p song "start_offset" 0),
    secondsInto p base (jsonGetInt p song "end_offset" 0))

/-- Whether the offset of a chunk shows in one of its songs. -/
def offsetShows (p : Platform) (chunk : CJson) : Bool :=
  (objectSongs chunk).any fun song =>
    decide (songSeconds p (chunkBase p chunk) song ≠ (unknownSeconds, unknownSeconds))

def chunkNeeds (p : Platform) (chunk : CJson) : List Bool :=
  match chunkSongs chunk with
  | none => []
  | some _ => ((readNeeds chunk "offset").map fun _ => offsetShows p chunk) ++
      (objectSongs chunk).flatMap songNeeds

/-- The requests after the structure of the result and its array. -/
def enterpriseNeeds (p : Platform) (resultArr : Option CJson) : List Bool :=
  ((resultArr.map CJson.items).getD []).flatMap (chunkNeeds p)

/-! ### Fields -/

section

variable {p : Platform}

@[simp] theorem copyNeeds_coerced_ne {o : CJson} {key k : CString} (h : k ≠ key) :
    copyNeeds (o.coerced p key) k = copyNeeds o k := by
  rw [copyNeeds, copyNeeds, get_coerced_ne h]

theorem depends_sdup (s : Option CString) :
    (sdup s).Depends id (s.toList.map fun _ => true) := by
  cases s with
  | none => exact depends_pure id none
  | some s => exact depends_copy_id s

theorem depends_pair (s : Option CString) (o : CJson) :
    (do pure (← sdup s, o) : AllocM (Option CString × CJson)).Depends Prod.fst
      (s.toList.map fun _ => true) := by
  rw [← List.append_nil (List.map _ _)]
  exact (depends_sdup s).bind (every_of_forall _ fun _ => trivial) (depends_pure _ _)
    fun a _ ha => ha

/-- A coerced text shows whether it could be allocated. -/
theorem depends_coerce (o : CJson) (key text : CString) :
    (jsonGetString.coerce o key text).Depends Prod.fst [true] := by
  refine (depends_copy_id text).bind (every_of_forall _ fun _ => trivial) (depends_pure _ _)
    fun a _ ha => ?_
  cases a with
  | none => exact nofun
  | some s => exact fun h => ha h

theorem every_coerce (o : CJson) (key text : CString) :
    (jsonGetString.coerce o key text).Every fun a => a.1 = some text ∨ a.1 = none := by
  simp [jsonGetString.coerce]

theorem depends_jsonGetString (o : CJson) (key : CString) :
    (jsonGetString p o key).Depends Prod.fst (readNeeds o key) := by
  rcases hget : o.getObjectItemCaseSensitive key with _ | (_ | _ | _ | _ | _ | _) <;>
    simp only [jsonGetString, readNeeds, hget]
  all_goals first | exact depends_pure _ _ | exact depends_coerce o key _

theorem depends_copyField (o : CJson) (key : CString) :
    (copyField p o key).Depends Prod.fst (copyNeeds o key) := by
  have hcoerced (text : CString) : (jsonGetString.coerce o key text >>= fun a => do
      pure (← sdup a.1, a.2) : AllocM (Option CString × CJson)).Depends Prod.fst [true, true] := by
    refine (depends_coerce o key text).bind (every_coerce o key text) (depends_pair _ _) ?_
    rintro ⟨s, o'⟩ hs hne
    obtain rfl : s = none := hs.resolve_left hne
    exact nofun
  rcases hget : o.getObjectItemCaseSensitive key with _ | (_ | _ | _ | s | _ | _) <;>
    simp only [copyField, jsonGetString, copyNeeds, hget, pure_bind]
  case some.string => exact depends_pair (some s) o
  all_goals first | exact hcoerced _ | exact depends_pair none o

/-- A text field of what is built. -/
theorem depends_field {α : Type} {o : CJson} {key : CString}
    {f : Option CString × CJson → AllocM α} {needs more : List Bool}
    (hneeds : copyNeeds o key = needs) (g : α → Option CString)
    (hg : ∀ a, (f a).Every fun r => g r = a.1)
    (hf : (f (o.textOf p key, o.coerced p key)).Depends id more) :
    (copyField p o key >>= f).Depends id (needs ++ more) := by
  subst hneeds
  refine (depends_copyField o key).read ?_ hg
  rw [copyField_ok]
  exact hf

/-- The raw copy, last. -/
theorem depends_raw {α β : Type} {a : α} {f : Option α → β} (g : β → Option α)
    (hg : ∀ a, g (f a) = a) :
    (do let raw ← copy a; pure (some (f raw))).Depends id [true] := by
  exact ((depends_copy_id a).comp (Option.some_injective _)).read (depends_pure _ _)
    (g := Option.map g) fun a => congrArg some (hg a)

/-- A block parser, from what it does with an object: anything else is no block. -/
theorem depends_block {α : Type} {parse : Option CJson → AllocM (Option α)} {keys : List CString}
    (hobject : ∀ members, (parse (some (.object members))).Depends id
      (blockNeeds (some (.object members)) keys))
    (hother : ∀ o, (∀ members, o ≠ some (CJson.object members)) → parse o = pure none)
    (o : Option CJson) : (parse o).Depends id (blockNeeds o keys) := by
  by_cases h : ∃ members, o = some (.object members)
  · obtain ⟨members, rfl⟩ := h
    exact hobject members
  · rw [not_exists] at h
    have hneeds : blockNeeds o keys = [] := by
      unfold blockNeeds
      split
      · exact absurd rfl (h _)
      · rfl
    rw [hneeds, hother o h]
    exact depends_pure _ _

theorem depends_appleMusic (o : Option CJson) :
    (parseAppleMusic p o).Depends id (blockNeeds o appleMusicKeys) := by
  refine depends_block (fun members => ?_) (fun o ho => by cases o <;> simp [parseAppleMusic]) o
  simp only [parseAppleMusic, blockNeeds, fieldsNeeds, appleMusicKeys, List.flatMap_cons,
    List.flatMap_nil, List.append_nil, List.append_assoc, List.cons_append]
  refine depends_struct rfl (by simp) ?_
  apply depends_field rfl (·.bind AppleMusic.artistName) (by simp)
  apply depends_field (by simp) (·.bind AppleMusic.url) (by simp)
  apply depends_field (by simp) (·.bind AppleMusic.name) (by simp)
  apply depends_field (by simp) (·.bind AppleMusic.isrc) (by simp)
  apply depends_field (by simp) (·.bind AppleMusic.albumName) (by simp)
  apply depends_field (by simp) (·.bind AppleMusic.composerName) (by simp)
  apply depends_field (by simp) (·.bind AppleMusic.releaseDate) (by simp)
  exact depends_raw AppleMusic.raw fun _ => rfl

theorem depends_spotify (o : Option CJson) :
    (parseSpotify p o).Depends id (blockNeeds o spotifyKeys) := by
  refine depends_block (fun members => ?_) (fun o ho => by cases o <;> simp [parseSpotify]) o
  simp only [parseSpotify, blockNeeds, fieldsNeeds, spotifyKeys, List.flatMap_cons,
    List.flatMap_nil, List.append_nil, List.append_assoc, List.cons_append]
  refine depends_struct rfl (by simp) ?_
  apply depends_field rfl (·.bind Spotify.id) (by simp)
  apply depends_field (by simp) (·.bind Spotify.name) (by simp)
  apply depends_field (by simp) (·.bind Spotify.type) (by simp)
  apply depends_field (by simp) (·.bind Spotify.uri) (by simp)
  exact depends_raw Spotify.raw fun _ => rfl

theorem depends_deezer (o : Option CJson) :
    (parseDeezer p o).Depends id (blockNeeds o deezerKeys) := by
  refine depends_block (fun members => ?_) (fun o ho => by cases o <;> simp [parseDeezer]) o
  simp only [parseDeezer, blockNeeds, fieldsNeeds, deezerKeys, List.flatMap_cons,
    List.flatMap_nil, List.append_nil, List.append_assoc, List.cons_append]
  refine depends_struct rfl (by simp) ?_
  apply depends_field rfl (·.bind Deezer.title) (by simp)
  apply depends_field (by simp) (·.bind Deezer.link) (by simp)
  exact depends_raw Deezer.raw fun _ => rfl

theorem depends_napster (o : Option CJson) :
    (parseNapster p o).Depends id (blockNeeds o napsterKeys) := by
  refine depends_block (fun members => ?_) (fun o ho => by cases o <;> simp [parseNapster]) o
  simp only [parseNapster, blockNeeds, fieldsNeeds, napsterKeys, List.flatMap_cons,
    List.flatMap_nil, List.append_nil, List.append_assoc, List.cons_append]
  refine depends_struct rfl (by simp) ?_
  apply depends_field rfl (·.bind Napster.id) (by simp)
  apply depends_field (by simp) (·.bind Napster.name) (by simp)
  apply depends_field (by simp) (·.bind Napster.isrc) (by simp)
  apply depends_field (by simp) (·.bind Napster.artistName) (by simp)
  apply depends_field (by simp) (·.bind Napster.albumName) (by simp)
  exact depends_raw Napster.raw fun _ => rfl


/-! ### MusicBrainz -/

theorem depends_score (it : CJson) : (musicbrainzScore p it).Depends id (scoreNeeds it) := by
  rcases hget : it.getObjectItemCaseSensitive "score" with _ | (_ | _ | _ | _ | _ | _) <;>
    simp only [musicbrainzScore, scoreNeeds, hget]
  all_goals first | exact depends_pure _ _ | exact depends_copy_id _

theorem depends_entry (it : CJson) : (parseMusicbrainzEntry p it).Depends id (entryNeeds it) := by
  simp only [parseMusicbrainzEntry, entryNeeds, fieldsNeeds, List.flatMap_cons, List.flatMap_nil,
    List.append_nil, List.append_assoc]
  apply depends_field rfl MusicbrainzEntry.id (by simp)
  apply depends_field (by simp) MusicbrainzEntry.title (by simp)
  have hscore : scoreNeeds ((it.coerced p "id").coerced p "title") = scoreNeeds it := by
    simp [scoreNeeds]
  rw [← List.append_nil (scoreNeeds it), ← hscore]
  exact (depends_score _).read (depends_pure _ _) (g := MusicbrainzEntry.score) (by simp)

theorem depends_entries (items : List CJson) :
    (parseMusicbrainzEntries p items).Depends id
      ((items.filter CJson.isObject).flatMap entryNeeds) := by
  induction items with
  | nil => exact depends_pure _ _
  | cons it items ih =>
    unfold parseMusicbrainzEntries
    by_cases hobject : it.isObject = true
    · rw [if_neg (by simp [hobject]), List.filter_cons_of_pos hobject, List.flatMap_cons]
      refine (depends_entry it).bind (every_of_forall _ fun _ => trivial) ?_ fun e _ he => ?_
      · rw [← List.append_nil (List.flatMap _ _)]
        refine ih.bind (every_of_forall _ fun _ => trivial) (depends_pure _ _) fun es _ hes => ?_
        simpa using hes
      · have hne : e ≠ (parseMusicbrainzEntry p it).ok := he
        simp [hne]
    · rw [if_pos (by simp [hobject]), List.filter_cons_of_neg hobject]
      exact ih

theorem entries_ne_nil {items : List CJson} (h : items.any CJson.isObject = true) :
    (parseMusicbrainzEntries p items).ok ≠ [] := by
  induction items with
  | nil => cases h
  | cons it items ih =>
    unfold parseMusicbrainzEntries
    by_cases hobject : it.isObject = true
    · simp [hobject]
    · rw [if_pos (by simp [hobject])]
      rw [List.any_cons, Bool.or_eq_true] at h
      exact ih (h.resolve_left hobject)

theorem entries_of_none {items : List CJson} (h : items.any CJson.isObject = false) :
    parseMusicbrainzEntries p items = pure [] := by
  induction items with
  | nil => rfl
  | cons it items ih =>
    rw [List.any_cons, Bool.or_eq_false_iff] at h
    rw [parseMusicbrainzEntries, if_pos (by simp [h.1]), ih h.2]

theorem parseMusicbrainz_cons (it : CJson) (items : List CJson) :
    parseMusicbrainz p (some (.array (it :: items))) = copy () >>= fun array =>
      match array with
      | none => pure none
      | some _ => parseMusicbrainzEntries p (it :: items) >>= fun mb => pure (some mb) := rfl

theorem musicbrainzNeeds_cons (it : CJson) (items : List CJson) :
    musicbrainzNeeds (some (.array (it :: items))) = (it :: items).any CJson.isObject ::
      ((it :: items).filter CJson.isObject).flatMap entryNeeds := rfl

/-- The entries, where an array that has no memory looks like one without entries. -/
theorem depends_musicbrainz {α : Type} {f : Option (List MusicbrainzEntry) → α}
    (hempty : f none = f (some [])) (g : α → List MusicbrainzEntry)
    (hg : ∀ mb, g (f mb) = mb.getD []) (arr : Option CJson) :
    (do let mb ← parseMusicbrainz p arr; pure (f mb)).Depends id (musicbrainzNeeds arr) := by
  match arr with
  | some (.array (it :: items)) =>
    cases hany : (it :: items).any CJson.isObject with
    | true =>
      have hparse : (parseMusicbrainz p (some (.array (it :: items)))).Depends (·.getD [])
          (true :: ((it :: items).filter CJson.isObject).flatMap entryNeeds) := by
        rw [parseMusicbrainz_cons]
        refine (depends_copy_id ()).bind (every_of_forall _ fun _ => trivial) ?_ ?_
        · refine Depends.congr (List.append_nil _) ?_
          exact (depends_entries _).bind (every_of_forall _ fun _ => trivial) (depends_pure _ _)
            fun _ _ h => h
        · rintro (_ | _) - hne
          · have hentries := entries_ne_nil (p := p) hany
            simpa using hentries.symm
          · exact absurd rfl hne
      rw [musicbrainzNeeds_cons, hany, ← List.append_nil (true :: _)]
      exact hparse.read (depends_pure _ _) hg
    | false =>
      have hnone : (it :: items).filter CJson.isObject = [] := by
        simpa [List.any_eq_false] using hany
      rw [musicbrainzNeeds_cons, hany, hnone, parseMusicbrainz_cons, entries_of_none hany]
      refine Depends.spare (fun tape => ?_) ?_ (depends_pure _ _)
      · rw [run_bind, run_copy]
        cases tape 0 <;> rfl
      · simp [hempty]
  | some (.array []) | none | some .null | some (.bool _) | some (.number _) | some (.string _)
  | some (.object _) => exact depends_pure _ _

/-! ### The recognition -/

theorem get_coercedAll {keys : List CString} {k : CString} (h : k ∉ keys) (o : CJson) :
    (keys.foldl (CJson.coerced p) o).getObjectItemCaseSensitive k =
      o.getObjectItemCaseSensitive k := by
  induction keys generalizing o with
  | nil => rfl
  | cons key keys ih =>
    rw [List.mem_cons, not_or] at h
    rw [List.foldl_cons, ih h.2, get_coerced_ne h.1]

/-- What is filled in after the structure. -/
theorem recognitionFromJson_struct (members : List (CString × CJson)) :
    ∃ fill : Option Unit → AllocM (Option Recognition),
      recognitionFromJson p (.object members) = copy () >>= fill ∧ fill none = pure none ∧
      (fill (some ())).Every (fun r => r.isSome = true) ∧
      (fill (some ())).Depends id (recognitionNeeds (.object members)) := by
  have hobject : (CJson.object members).isObject = true := rfl
  simp only [recognitionFromJson, hobject, Bool.not_true, Bool.false_eq_true, if_false]
  refine ⟨_, rfl, rfl, by simp, ?_⟩
  simp only [recognitionNeeds, fieldsNeeds, recognitionKeys, List.flatMap_cons,
    List.flatMap_nil, List.append_nil, List.append_assoc, List.cons_append]
  refine (depends_copy_id _).read ?_ (g := (·.bind Recognition.rawObj)) (by simp)
  refine (depends_sdup _).read ?_ (g := (·.bind Recognition.rawResponseStr)) (by simp)
  apply depends_field rfl (·.bind Recognition.timecode) (by simp)
  apply depends_field (by simp) (·.bind Recognition.artist) (by simp)
  apply depends_field (by simp) (·.bind Recognition.title) (by simp)
  apply depends_field (by simp) (·.bind Recognition.album) (by simp)
  apply depends_field (by simp) (·.bind Recognition.releaseDate) (by simp)
  apply depends_field (by simp) (·.bind Recognition.label) (by simp)
  apply depends_field (by simp) (·.bind Recognition.songLink) (by simp)
  apply depends_field (by simp) (·.bind Recognition.isrc) (by simp)
  apply depends_field (by simp) (·.bind Recognition.upc) (by simp)
  have hget (k : CString) (hk : k ∉ recognitionKeys) := get_coercedAll (p := p) hk (.object members)
  simp only [recognitionKeys, List.foldl_cons, List.foldl_nil] at hget
  dsimp only
  rw [hget "apple_music" (by decide), hget "spotify" (by decide), hget "deezer" (by decide),
    hget "napster" (by decide), hget "musicbrainz" (by decide)]
  refine (depends_appleMusic _).read ?_ (g := (·.bind Recognition.appleMusic)) (by simp)
  refine (depends_spotify _).read ?_ (g := (·.bind Recognition.spotify)) (by simp)
  refine (depends_deezer _).read ?_ (g := (·.bind Recognition.deezer)) (by simp)
  refine (depends_napster _).read ?_ (g := (·.bind Recognition.napster)) (by simp)
  exact depends_musicbrainz rfl (fun r => (r.map Recognition.mb).getD []) (fun _ => rfl) _

/-! ### Enterprise matches -/

theorem depends_match (song : CJson) (base : Option CDouble) :
    (matchFromJson p song base).Depends id (songNeeds song) := by
  simp only [matchFromJson, songNeeds, fieldsNeeds, songKeys, List.flatMap_cons, List.flatMap_nil]
  apply depends_field rfl EnterpriseMatch.timecode (by simp)
  apply depends_field (by simp) EnterpriseMatch.artist (by simp)
  apply depends_field (by simp) EnterpriseMatch.title (by simp)
  apply depends_field (by simp) EnterpriseMatch.album (by simp)
  apply depends_field (by simp) EnterpriseMatch.releaseDate (by simp)
  apply depends_field (by simp) EnterpriseMatch.label (by simp)
  apply depends_field (by simp) EnterpriseMatch.isrc (by simp)
  apply depends_field (by simp) EnterpriseMatch.upc (by simp)
  apply depends_field (by simp) EnterpriseMatch.songLink (by simp)
  exact depends_pure _ _

theorem every_jsonGetString (o : CJson) (key : CString) :
    (jsonGetString p o key).Every fun a => (a.1 = o.textOf p key ∨ a.1 = none) ∧
      ∀ k ≠ key, a.2.getObjectItemCaseSensitive k = o.getObjectItemCaseSensitive k := by
  unfold jsonGetString CJson.textOf
  split
  all_goals simp +contextual [jsonGetString.coerce, CJson.get_setItem_ne]

theorem every_copyField (o : CJson) (key : CString) :
    (copyField p o key).Every fun a =>
      ∀ k ≠ key, a.2.getObjectItemCaseSensitive k = o.getObjectItemCaseSensitive k :=
  (every_jsonGetString o key).bind fun _ ha => every_bind_of_forall fun _ => ha.2

/-- The offsets of a match do not depend on what is refused. -/
theorem every_match_offsets (song : CJson) (base : Option CDouble) :
    (matchFromJson p song base).Every fun m =>
      m.startOffset = jsonGetInt p song "start_offset" 0 ∧
      m.endOffset = jsonGetInt p song "end_offset" 0 := by
  have hfield {α : Type} {P : α → Prop} {o : CJson} {key : CString}
      {f : Option CString × CJson → AllocM α} (hkey : key ≠ "start_offset" ∧ key ≠ "end_offset")
      (ho : jsonGetInt p o "start_offset" 0 = jsonGetInt p song "start_offset" 0 ∧
        jsonGetInt p o "end_offset" 0 = jsonGetInt p song "end_offset" 0)
      (hf : ∀ a, jsonGetInt p a.2 "start_offset" 0 = jsonGetInt p song "start_offset" 0 ∧
        jsonGetInt p a.2 "end_offset" 0 = jsonGetInt p song "end_offset" 0 → (f a).Every P) :
      (copyField p o key >>= f).Every P := by
    refine (every_copyField o key).bind fun a ha => hf a ?_
    rw [← ho.1, ← ho.2]
    simp only [jsonGetInt, jsonGetInt64, ha _ hkey.1.symm, ha _ hkey.2.symm, and_self]
  unfold matchFromJson
  refine hfield (by decide) ⟨rfl, rfl⟩ fun _ h => ?_
  refine hfield (by decide) h fun _ h => ?_
  refine hfield (by decide) h fun _ h => ?_
  refine hfield (by decide) h fun _ h => ?_
  refine hfield (by decide) h fun _ h => ?_
  refine hfield (by decide) h fun _ h => ?_
  refine hfield (by decide) h fun _ h => ?_
  refine hfield (by decide) h fun _ h => ?_
  exact hfield (by decide) h fun _ h => h

def EnterpriseMatch.placed (p : Platform) (base : Option CDouble) (m : EnterpriseMatch) :
    EnterpriseMatch :=
  { m with
    startSeconds := secondsInto p base m.startOffset
    endSeconds := secondsInto p base m.endOffset }

/-- The offset of the chunk is used last, in the seconds. -/
theorem matchFromJson_placed (song : CJson) (base : Option CDouble) :
    matchFromJson p song base =
      matchFromJson p song none >>= fun m => pure (m.placed p base) := by
  simp only [matchFromJson, EnterpriseMatch.placed, bind_assoc, pure_bind]

theorem every_match_seconds (song : CJson) (base : Option CDouble) :
    (matchFromJson p song base).Every fun m =>
      (m.startSeconds, m.endSeconds) = songSeconds p base song := by
  rw [matchFromJson_placed]
  refine (every_match_offsets song none).bind fun m hm => ?_
  rw [every_pure, EnterpriseMatch.placed, hm.1, hm.2]
  rfl

/-- Offsets that give a song the same seconds are read alike. -/
theorem matchFromJson_congr {song : CJson} {base base' : Option CDouble}
    (h : songSeconds p base song = songSeconds p base' song) :
    matchFromJson p song base = matchFromJson p song base' := by
  rw [matchFromJson_placed song base, matchFromJson_placed song base']
  refine bind_congr_every ((every_match_offsets song none).mono fun m hm => ?_)
  rw [EnterpriseMatch.placed, EnterpriseMatch.placed, hm.1, hm.2]
  rw [songSeconds, songSeconds, Prod.mk.injEq] at h
  rw [h.1, h.2]

/-! ### Songs and chunks -/

/-- What the fill pass stores, whatever is refused: the matches of the objects, one after the
other. -/
theorem every_fillSongs (base : Option CDouble) (count : Nat) (songs : List CJson) :
    (fillSongs p base count songs).Every fun stores => ∃ ms, stores = Stores.consecutive count ms ∧
      ms.map (fun m => (m.startSeconds, m.endSeconds)) =
        (songs.filter CJson.isObject).map (songSeconds p base) := by
  induction songs generalizing count with
  | nil => exact ⟨[], rfl, rfl⟩
  | cons song songs ih =>
    unfold fillSongs
    by_cases hobject : song.isObject = true
    · rw [if_neg (by simp [hobject]), List.filter_cons_of_pos hobject]
      refine (every_match_seconds song base).bind fun m hm => (ih _).bind ?_
      rintro _ ⟨ms, rfl, hms⟩
      exact ⟨m :: ms, rfl, by rw [List.map_cons, hm, hms, List.map_cons]⟩
    · rw [if_pos (by simp [hobject]), List.filter_cons_of_neg hobject]
      exact ih count

theorem depends_fillSongs (base : Option CDouble) (count : Nat) (songs : List CJson) :
    (fillSongs p base count songs).Depends id
      ((songs.filter CJson.isObject).flatMap songNeeds) := by
  induction songs generalizing count with
  | nil => exact depends_pure _ _
  | cons song songs ih =>
    unfold fillSongs
    by_cases hobject : song.isObject = true
    · rw [if_neg (by simp [hobject]), List.filter_cons_of_pos hobject, List.flatMap_cons]
      refine (depends_match song base).bind (every_of_forall _ fun _ => trivial) ?_ fun m _ hm => ?_
      · refine Depends.congr (List.append_nil _) ?_
        refine (ih _).bind (every_of_forall _ fun _ => trivial) (depends_pure _ _) fun _ _ h => ?_
        simpa using h
      · have hne : m ≠ (matchFromJson p song base).ok := hm
        simp [hne]
    · rw [if_pos (by simp [hobject]), List.filter_cons_of_neg hobject]
      exact ih count

theorem fillSongs_congr {base base' : Option CDouble} {songs : List CJson}
    (h : ∀ song ∈ songs.filter CJson.isObject, songSeconds p base song = songSeconds p base' song)
    (count : Nat) : fillSongs p base count songs = fillSongs p base' count songs := by
  induction songs generalizing count with
  | nil => rfl
  | cons song songs ih =>
    unfold fillSongs
    by_cases hobject : song.isObject = true
    · rw [List.filter_cons_of_pos hobject] at h
      have hrest := ih fun s hs => h s (List.mem_cons_of_mem _ hs)
      simp only [matchFromJson_congr (h song List.mem_cons_self), hrest]
    · rw [List.filter_cons_of_neg hobject] at h
      simp only [ih h, hobject, Bool.not_false, if_true]

/-- The seconds that a song has without an offset. -/
theorem songSeconds_none (song : CJson) :
    songSeconds p (offsetToSeconds p none) song = (unknownSeconds, unknownSeconds) := by
  have hunknown : atLeastZero (offsetToSeconds p none) = false := by
    show atLeastZero unknownSeconds = false
    simp [atLeastZero, unknownSeconds, CDouble.le]
  simp [songSeconds, secondsInto, hunknown]

theorem readNeeds_cases (o : CJson) (key : CString) :
    readNeeds o key = [] ∨ readNeeds o key = [true] := by
  unfold readNeeds
  split <;> simp

theorem every_of_no_request {α β : Type} {view : α → β} {x : AllocM α} (h : x.Depends view []) :
    x.Every fun a => a = x.ok := by
  rw [every_iff_run]
  intro tape
  rw [h.kept tape (granted_nil tape)]

/-- The rule for the fill pass over chunks: what the matches of one chunk add to those of the chunks
after it, for what was read of its offset. -/
theorem every_fillChunks_of {S : List CJson → List EnterpriseMatch → Prop} (hnil : S [] [])
    (hskip : ∀ chunk chunks ms, chunkSongs chunk = none → S chunks ms → S (chunk :: chunks) ms)
    (hsongs : ∀ chunk songs, chunkSongs chunk = some songs →
      (jsonGetString p chunk "offset").Every fun a => ∀ ms,
        ms.map (fun m => (m.startSeconds, m.endSeconds)) =
          (songs.filter CJson.isObject).map (songSeconds p (offsetToSeconds p a.1)) →
        ∀ chunks ms', S chunks ms' → S (chunk :: chunks) (ms ++ ms'))
    (count : Nat) (chunks : List CJson) :
    (fillChunks p count chunks).Every fun stores => ∃ ms, stores = Stores.consecutive count ms ∧
      S chunks ms := by
  induction chunks generalizing count with
  | nil => exact ⟨[], rfl, hnil⟩
  | cons chunk chunks ih =>
    unfold fillChunks
    cases hchunk : chunkSongs chunk with
    | none =>
      refine (ih count).mono ?_
      rintro _ ⟨ms, rfl, hms⟩
      exact ⟨ms, rfl, hskip chunk chunks ms hchunk hms⟩
    | some songs =>
      refine (hsongs chunk songs hchunk).bind fun a ha => (every_fillSongs _ _ _).bind ?_
      rintro _ ⟨ms, rfl, hms⟩
      refine (ih _).bind ?_
      rintro _ ⟨ms', rfl, hms'⟩
      refine ⟨ms ++ ms', ?_, ha ms hms chunks ms' hms'⟩
      rw [Stores.consecutive_append, Stores.consecutive_length]

theorem every_fillChunks (count : Nat) (chunks : List CJson) :
    (fillChunks p count chunks).Every fun stores => ∃ ms, stores = Stores.consecutive count ms ∧
      ms.length = (chunks.flatMap objectSongs).length := by
  refine every_fillChunks_of (S := fun chunks ms =>
    ms.length = (chunks.flatMap objectSongs).length) rfl ?_ ?_ count chunks
  · intro chunk chunks ms hnone hms
    rw [List.flatMap_cons, objectSongs, hnone]
    exact hms
  · intro chunk songs hsongs
    refine every_of_forall _ fun a ms hms chunks ms' hms' => ?_
    have hlength := congrArg List.length hms
    rw [List.length_map, List.length_map] at hlength
    rw [List.flatMap_cons, List.length_append, List.length_append, hlength, hms', objectSongs,
      hsongs]
    rfl

/-- The songs of a chunk and the chunks after it, for what was read of the offset. -/
def fillRest (p : Platform) (count : Nat) (songs chunks : List CJson)
    (a : Option CString × CJson) : AllocM (List (Nat × EnterpriseMatch)) := do
  let stores ← fillSongs p (offsetToSeconds p a.1) count songs
  pure (stores ++ (← fillChunks p (count + stores.length) chunks))

theorem every_fillSongs_length (base : Option CDouble) (count : Nat) (songs : List CJson) :
    (fillSongs p base count songs).Every fun stores =>
      stores.length = (songs.filter CJson.isObject).length := by
  refine (every_fillSongs base count songs).mono ?_
  rintro _ ⟨ms, rfl, hms⟩
  rw [Stores.consecutive_length, ← List.length_map, hms, List.length_map]

/-- As many stores that are not the same show in what the rest of the pass makes of them. -/
theorem every_append_ne {stores stores' : List (Nat × EnterpriseMatch)}
    (hlength : stores'.length = stores.length) (hne : stores' ≠ stores)
    (x y : AllocM (List (Nat × EnterpriseMatch))) :
    (do pure (stores' ++ (← x)) : AllocM (List (Nat × EnterpriseMatch))).Every fun all =>
      all ≠ (do pure (stores ++ (← y)) : AllocM (List (Nat × EnterpriseMatch))).ok := by
  refine every_bind_of_forall fun more => ?_
  rw [every_pure, ok_bind, ok_pure]
  exact fun h => hne (List.append_inj_left h hlength)

theorem depends_fillRest (count : Nat) (songs : List CJson) {chunks : List CJson}
    {needs : List Bool} (hrest : ∀ count, (fillChunks p count chunks).Depends id needs)
    (a : Option CString × CJson) :
    (fillRest p count songs chunks a).Depends id
      ((songs.filter CJson.isObject).flatMap songNeeds ++ needs) := by
  have hlength := every_fillSongs_length (p := p) (offsetToSeconds p a.1) count songs
  refine (depends_fillSongs _ _ _).bind hlength ?_ fun stores h hne =>
    every_append_ne (h.trans hlength.ok.symm) hne _ _
  refine Depends.congr (List.append_nil _) ?_
  refine (hrest _).bind (every_of_forall _ fun _ => trivial) (depends_pure _ _) fun _ _ h => ?_
  simpa using h

/-- Songs stored otherwise show in what is stored in all. -/
theorem every_fillRest_ne {count : Nat} {songs chunks : List CJson}
    {a b : Option CString × CJson}
    (hne : (fillSongs p (offsetToSeconds p a.1) count songs).Every fun stores =>
      stores ≠ (fillSongs p (offsetToSeconds p b.1) count songs).ok) :
    (fillRest p count songs chunks a).Every fun stores =>
      stores ≠ (fillRest p count songs chunks b).ok := by
  have hlength := (every_fillSongs_length (p := p) (offsetToSeconds p b.1) count songs).ok
  refine (hne.and (every_fillSongs_length _ _ _)).bind fun stores h => ?_
  rw [fillRest, ok_bind]
  exact every_append_ne (h.2.trans hlength.symm) h.1 _ _

/-- Without an offset that one of its songs shows, a chunk's songs are stored otherwise. -/
theorem every_refused_offset {chunk : CJson} {songs : List CJson}
    (hobjects : objectSongs chunk = songs.filter CJson.isObject)
    (hshows : offsetShows p chunk = true) (count : Nat) :
    (fillSongs p (offsetToSeconds p none) count songs).Every fun stores =>
      stores ≠ (fillSongs p (chunkBase p chunk) count songs).ok := by
  obtain ⟨ms, hms, hseconds⟩ := (every_fillSongs (p := p) (chunkBase p chunk) count songs).ok
  refine (every_fillSongs _ _ _).mono ?_
  rintro _ ⟨ms', rfl, hseconds'⟩ heq
  obtain rfl : ms' = ms := Stores.consecutive_injective (heq.trans hms)
  obtain ⟨song, hsong, hshown⟩ := List.any_eq_true.1 hshows
  rw [hobjects] at hsong
  have hsame := List.map_inj_left.1 (hseconds.symm.trans hseconds') song hsong
  rw [songSeconds_none] at hsame
  exact of_decide_eq_true hshown hsame

theorem run_jsonGetString {o : CJson} {key : CString} (h : readNeeds o key = [true])
    (tape : Tape) : ((jsonGetString p o key).run tape).2 = Tape.later 1 tape := by
  unfold readNeeds at h
  unfold jsonGetString
  split at h
  · rename_i hget
    rw [hget]
    simp only [jsonGetString.coerce, run_bind, run_copy]
    cases tape 0 <;> rfl
  · rename_i hget
    rw [hget]
    simp only [jsonGetString.coerce, run_bind, run_copy]
    cases tape 0 <;> rfl
  · cases h

theorem depends_fillChunks (count : Nat) (chunks : List CJson) :
    (fillChunks p count chunks).Depends id (chunks.flatMap (chunkNeeds p)) := by
  induction chunks generalizing count with
  | nil => exact depends_pure _ _
  | cons chunk chunks ih =>
    unfold fillChunks
    rw [List.flatMap_cons, chunkNeeds]
    cases hsongs : chunkSongs chunk with
    | none => exact ih count
    | some songs =>
      have hobjects : objectSongs chunk = songs.filter CJson.isObject := by
        rw [objectSongs, hsongs]
        rfl
      have hread := depends_jsonGetString (p := p) chunk "offset"
      have hrest := depends_fillRest (p := p) count songs ih (jsonGetString p chunk "offset").ok
      show (jsonGetString p chunk "offset" >>= fillRest p count songs chunks).Depends id _
      rw [List.append_assoc, hobjects]
      obtain hneeds | hneeds := readNeeds_cases chunk "offset"
      · rw [hneeds] at hread ⊢
        exact hread.bind (every_of_no_request hread) hrest
          fun a ha hne => absurd (congrArg Prod.fst ha) hne
      · rw [hneeds] at hread ⊢
        cases hshows : offsetShows p chunk with
        | true =>
          refine hread.bind (every_jsonGetString chunk "offset") hrest fun a ha hne => ?_
          rw [jsonGetString_ok] at hne ⊢
          have hnone : a.1 = none := ha.1.resolve_left hne
          refine every_fillRest_ne ?_
          rw [hnone]
          exact every_refused_offset hobjects hshows count
        | false =>
          refine Depends.spare (run_jsonGetString hneeds)
            ((every_jsonGetString chunk "offset").mono fun a ha => ?_) hrest
          rw [jsonGetString_ok, fillRest, fillRest]
          have hsame : fillSongs p (offsetToSeconds p a.1) count songs =
              fillSongs p (chunkBase p chunk) count songs := by
            refine fillSongs_congr (fun song hsong => ?_) count
            obtain htext | hnone := ha.1
            · rw [htext, chunkBase]
            · rw [hnone, songSeconds_none]
              by_contra hne
              rw [← hobjects] at hsong
              have hshown : offsetShows p chunk = true :=
                List.any_eq_true.2 ⟨song, hsong, decide_eq_true (Ne.symm hne)⟩
              rw [hshows] at hshown
              cases hshown
          rw [hsame]
          rfl

/-! ### The results -/

theorem recognitionFromJson_whole_iff (o : CJson) (tape : Tape) :
    (recognitionFromJson p o).NullOrWhole tape ↔ (o.isObject = true → tape 0 = true →
      Granted (recognitionNeeds o) (Tape.later 1 tape)) := by
  cases hobject : o.isObject with
  | false =>
    have hnone : recognitionFromJson p o = pure none := by simp [recognitionFromJson, hobject]
    rw [hnone]
    exact iff_of_true (.inl rfl) fun h => absurd h (by simp)
  | true =>
    obtain ⟨members, rfl⟩ : ∃ members, o = .object members := by
      cases o <;> first | exact ⟨_, rfl⟩ | cases hobject
    obtain ⟨fill, heq, hnone, hsome, hfill⟩ := recognitionFromJson_struct (p := p) members
    rw [heq, eq_self, true_imp_iff]
    exact nullOrWhole_struct hnone hsome hfill tape

/-- The matches fit into the array that the counting pass sizes. -/
theorem length_objectSongs (chunks : List CJson) :
    (chunks.flatMap objectSongs).length ≤ countSongs chunks := by
  have h := placedSongs_length (p := .exact) chunks
  have heq : (chunks.flatMap objectSongs).length =
      (placedSongs .exact (some (.array chunks))).length := by
    simp [placedSongs, List.length_flatMap, CJson.items]
  omega

/-- What fills the array of matches. -/
theorem depends_matches (chunks : List CJson) :
    (do
      let stores ← fillChunks p 0 chunks
      pure (some ⟨Stores.apply (List.replicate (countSongs chunks) .zero) stores, stores.length⟩)
        : AllocM (Option EnterpriseResult)).Depends id
      (enterpriseNeeds p (some (.array chunks))) := by
  have hstores := every_fillChunks (p := p) 0 chunks
  have hfits := length_objectSongs chunks
  have happly (ms : List EnterpriseMatch) (h : ms.length = (chunks.flatMap objectSongs).length) :
      Stores.apply (List.replicate (countSongs chunks) .zero) (Stores.consecutive 0 ms) =
        ms ++ (List.replicate (countSongs chunks) .zero).drop ms.length := by
    rw [Stores.apply_consecutive (by rw [List.length_replicate]; omega), Nat.zero_add]
    rfl
  refine Depends.congr (List.append_nil _) ?_
  refine (depends_fillChunks 0 chunks).bind hstores (depends_pure _ _) ?_
  rintro _ ⟨ms, rfl, hms⟩ hne heq
  obtain ⟨ms', hms', hlength⟩ := hstores.ok
  have hitems := congrArg EnterpriseResult.items (Option.some.inj heq)
  rw [hms', happly ms hms, happly ms' hlength] at hitems
  have hsame := List.append_inj_left hitems (hms.trans hlength.symm)
  exact hne (by rw [id_eq, id_eq, hms', hsame])

/-- Where there is no song there is nothing to lose. -/
theorem enterpriseNeeds_of_no_song {chunks : List CJson} (h : countSongs chunks = 0) (tape : Tape) :
    Granted (enterpriseNeeds p (some (.array chunks))) tape := by
  refine granted_of_all_false (fun need hneed => ?_) tape
  obtain ⟨chunk, hchunk, hneed⟩ := List.mem_flatMap.1 hneed
  have hsongs : objectSongs chunk = [] := by
    have hlength := length_objectSongs chunks
    rw [h, Nat.le_zero, List.length_eq_zero_iff, List.flatMap_eq_nil_iff] at hlength
    exact hlength chunk hchunk
  unfold chunkNeeds at hneed
  split at hneed
  · cases hneed
  · simp only [hsongs, List.flatMap_nil, List.append_nil, List.mem_map] at hneed
    obtain ⟨-, -, rfl⟩ := hneed
    simp [offsetShows, hsongs]

theorem enterpriseFromJson_whole_iff (resultArr : Option CJson) (tape : Tape) :
    (enterpriseFromJson p resultArr).NullOrWhole tape ↔ (tape 0 = true → tape 1 = true →
      Granted (enterpriseNeeds p resultArr) (Tape.later 2 tape)) := by
  unfold enterpriseFromJson NullOrWhole
  rw [run_bind, run_copy, ok_bind, ok_copy]
  by_cases htape : tape 0 = true
  · simp only [htape, if_true, true_imp_iff]
    split
    · rename_i chunks
      by_cases hsongs : countSongs chunks = 0
      · rw [if_pos hsongs]
        exact iff_of_true (.inr rfl) fun _ => enterpriseNeeds_of_no_song hsongs _
      · rw [if_neg hsongs]
        refine nullOrWhole_struct ?_ ?_ ?_ (Tape.later 1 tape)
        · rfl
        · simp
        · exact depends_matches chunks
    · rename_i hother
      refine iff_of_true (.inr rfl) fun _ => ?_
      have hneeds : enterpriseNeeds p resultArr = [] := by
        rcases resultArr with _ | item
        · rfl
        · cases item <;> first | rfl | exact absurd rfl (hother _)
      rw [hneeds]
      exact granted_nil _
  · simp [htape]

/-- Exactly when an allocation failure leaves no hole in a result. -/
theorem results_nullOrWhole_iff (p : Platform) (o : CJson) (tape : Tape) :
    ((recognitionFromJson p o).NullOrWhole tape ↔ (o.isObject = true → tape 0 = true →
        Granted (recognitionNeeds o) (Tape.later 1 tape))) ∧
      ((enterpriseFromJson p (some o)).NullOrWhole tape ↔ (tape 0 = true → tape 1 = true →
        Granted (enterpriseNeeds p (some o)) (Tape.later 2 tape))) :=
  ⟨recognitionFromJson_whole_iff o tape, enterpriseFromJson_whole_iff (some o) tape⟩

def titledResult : CJson := .object [("title", .string "Song")]

/-- Every request but that for the copy of the title. -/
def exceptTitle : Tape := fun n => n != 3

/-- The title is lost, and the recognition is not NULL. -/
theorem titledResult_partial :
    ¬(recognitionFromJson .exact titledResult).NullOrWhole exceptTitle ∧
      ((recognitionFromJson .exact titledResult).run exceptTitle).1.map Recognition.title =
        some none ∧
      (recognitionFromJson .exact titledResult).ok.map Recognition.title =
        some (some ("Song" : CString)) := by
  have hpartial : ((recognitionFromJson .exact titledResult).run exceptTitle).1.map
      Recognition.title = some none := by rfl
  have hwhole : (recognitionFromJson .exact titledResult).ok.map Recognition.title =
      some (some ("Song" : CString)) := by rfl
  refine ⟨?_, hpartial, hwhole⟩
  rintro (hnone | hsame)
  · rw [hnone] at hpartial
    cases hpartial
  · rw [hsame, hwhole] at hpartial
    cases hpartial

end

end Audd
