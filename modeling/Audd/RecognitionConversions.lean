import Audd.Conversions
import Audd.Refused

/-! The conversions of the recognition parser, with their record.  Which are defined is a condition
on the members that are read, each as it came, since no read rewrites a member that is read
later. -/

namespace Audd

/-! ### What is read -/

def Read.key : Read → CString
  | .text key | .integer key | .raw key => key

def AllDefined (p : Platform) (o : CJson) (reads : List Read) : Prop :=
  ∀ read ∈ reads, read.Defined p o

def recognitionReads : List Read := recognitionKeys.map Read.text ++ [.raw "audio_id"]

def appleMusicReads : List Read :=
  [.text "artistName", .text "url", .integer "durationInMillis", .text "name", .text "isrc",
    .text "albumName", .integer "trackNumber", .text "composerName", .integer "discNumber",
    .text "releaseDate"]

def spotifyReads : List Read :=
  [.text "id", .text "name", .integer "duration_ms", .integer "popularity",
    .integer "track_number", .text "type", .text "uri"]

def deezerReads : List Read := [.integer "id", .text "title", .integer "duration", .text "link"]

def napsterReads : List Read := napsterKeys.map Read.text

def entryReads : List Read := [.text "id", .text "title", .integer "length", .raw "score"]

/-- A block that is an object is read. -/
def BlockDefined (p : Platform) (reads : List Read) (block : Option CJson) : Prop :=
  ∀ o, block = some o → o.isObject = true → AllDefined p o reads

/-- The objects among the entries are read. -/
def EntriesDefined (p : Platform) (arr : Option CJson) : Prop :=
  ∀ items, arr = some (.array items) → ∀ it ∈ items, it.isObject = true →
    AllDefined p it entryReads

/-- The blocks, each with what is read of it. -/
def blockReads : List (CString × List Read) :=
  [("apple_music", appleMusicReads), ("spotify", spotifyReads), ("deezer", deezerReads),
    ("napster", napsterReads)]

/-- All that the parser reads of the result is defined. -/
structure RecognitionDefined (p : Platform) (o : CJson) : Prop where
  fields : AllDefined p o recognitionReads
  blocks : ∀ block ∈ blockReads, BlockDefined p block.2 (o.getObjectItemCaseSensitive block.1)
  entries : EntriesDefined p (o.getObjectItemCaseSensitive "musicbrainz")

theorem recognitionDefined_iff {p : Platform} {o : CJson} : RecognitionDefined p o ↔
    AllDefined p o recognitionReads ∧
      (∀ block ∈ blockReads, BlockDefined p block.2 (o.getObjectItemCaseSensitive block.1)) ∧
      EntriesDefined p (o.getObjectItemCaseSensitive "musicbrainz") :=
  ⟨fun h => ⟨h.fields, h.blocks, h.entries⟩, fun h => ⟨h.1, h.2.1, h.2.2⟩⟩

namespace Converting

section

variable (p : Platform)

/-! ### The recognition parser -/

def parseAppleMusic (o : Option CJson) : Converting (Option AppleMusic) :=
  match o with
  | some (.object members) => do
    match ← Traced.lift (AllocM.copy ()) with
    | none => pure none
    | some _ =>
      let o := CJson.object members
      let (artistName, o) ← copyField p o "artistName"
      let (url, o) ← copyField p o "url"
      let durationMs ← jsonGetInt p o "durationInMillis" 0
      let (name, o) ← copyField p o "name"
      let (isrc, o) ← copyField p o "isrc"
      let (albumName, o) ← copyField p o "albumName"
      let trackNumber ← jsonGetInt p o "trackNumber" 0
      let (composerName, o) ← copyField p o "composerName"
      let discNumber ← jsonGetInt p o "discNumber" 0
      let (releaseDate, o) ← copyField p o "releaseDate"
      let raw ← Traced.lift (AllocM.copy o)
      pure (some ⟨artistName, url, durationMs, name, isrc, albumName, trackNumber, composerName,
        discNumber, releaseDate, raw⟩)
  | _ => pure none

def parseSpotify (o : Option CJson) : Converting (Option Spotify) :=
  match o with
  | some (.object members) => do
    match ← Traced.lift (AllocM.copy ()) with
    | none => pure none
    | some _ =>
      let o := CJson.object members
      let (id, o) ← copyField p o "id"
      let (name, o) ← copyField p o "name"
      let durationMs ← jsonGetInt p o "duration_ms" 0
      let explicit := jsonGetBool o "explicit" 0
      let popularity ← jsonGetInt p o "popularity" 0
      let trackNumber ← jsonGetInt p o "track_number" 0
      let (type, o) ← copyField p o "type"
      let (uri, o) ← copyField p o "uri"
      let raw ← Traced.lift (AllocM.copy o)
      pure (some ⟨id, name, durationMs, explicit, popularity, trackNumber, type, uri, raw⟩)
  | _ => pure none

def parseDeezer (o : Option CJson) : Converting (Option Deezer) :=
  match o with
  | some (.object members) => do
    match ← Traced.lift (AllocM.copy ()) with
    | none => pure none
    | some _ =>
      let o := CJson.object members
      let id ← jsonGetInt p o "id" 0
      let (title, o) ← copyField p o "title"
      let duration ← jsonGetInt p o "duration" 0
      let (link, o) ← copyField p o "link"
      let raw ← Traced.lift (AllocM.copy o)
      pure (some ⟨id, title, duration, link, raw⟩)
  | _ => pure none

def parseNapster (o : Option CJson) : Converting (Option Napster) :=
  match o with
  | some (.object members) => do
    match ← Traced.lift (AllocM.copy ()) with
    | none => pure none
    | some _ =>
      let o := CJson.object members
      let (id, o) ← copyField p o "id"
      let (name, o) ← copyField p o "name"
      let (isrc, o) ← copyField p o "isrc"
      let (artistName, o) ← copyField p o "artistName"
      let (albumName, o) ← copyField p o "albumName"
      let raw ← Traced.lift (AllocM.copy o)
      pure (some ⟨id, name, isrc, artistName, albumName, raw⟩)
  | _ => pure none

def musicbrainzScore (it : CJson) : Converting (Option CString) :=
  match it.getObjectItemCaseSensitive "score" with
  | some (.string s) => Traced.lift (AllocM.copy s)
  | some (.number d) => do
    let n ← toInt p d
    Traced.lift (AllocM.copy (decimal n))
  | _ => pure none

def parseMusicbrainzEntry (it : CJson) : Converting MusicbrainzEntry := do
  let (id, it) ← copyField p it "id"
  let (title, it) ← copyField p it "title"
  let length ← jsonGetInt p it "length" 0
  let score ← musicbrainzScore p it
  pure ⟨id, score, title, length⟩

def parseMusicbrainzEntries : List CJson → Converting (List MusicbrainzEntry)
  | [] => pure []
  | it :: items =>
    if !it.isObject then parseMusicbrainzEntries items
    else do
      let e ← parseMusicbrainzEntry p it
      let rest ← parseMusicbrainzEntries items
      pure (e :: rest)

def parseMusicbrainz (arr : Option CJson) : Converting (Option (List MusicbrainzEntry)) :=
  match arr with
  | some (.array []) => pure (some [])
  | some (.array items) => do
    match ← Traced.lift (AllocM.copy ()) with
    | none => pure none
    | some _ => do
      let entries ← parseMusicbrainzEntries p items
      pure (some entries)
  | _ => pure (some [])

def readAudioId (o : CJson) : Converting (Option Int) :=
  match o.getObjectItemCaseSensitive "audio_id" with
  | some (.number d) => do
    let n ← toInt p d
    pure (some n)
  | _ => pure none

def recognitionFromJson (resultObj : CJson) : Converting (Option Recognition) :=
  if !resultObj.isObject then pure none
  else do
    match ← Traced.lift (AllocM.copy ()) with
    | none => pure none
    | some _ =>
      let rawObj ← Traced.lift (AllocM.copy resultObj)
      let rawResponseStr ← Traced.lift (sdup (rawObj.map (printUnformatted p)))
      let (timecode, o) ← copyField p resultObj "timecode"
      let (artist, o) ← copyField p o "artist"
      let (title, o) ← copyField p o "title"
      let (album, o) ← copyField p o "album"
      let (releaseDate, o) ← copyField p o "release_date"
      let (label, o) ← copyField p o "label"
      let (songLink, o) ← copyField p o "song_link"
      let (isrc, o) ← copyField p o "isrc"
      let (upc, o) ← copyField p o "upc"
      let audioId ← readAudioId p o
      let appleMusic ← parseAppleMusic p (o.getObjectItemCaseSensitive "apple_music")
      let spotify ← parseSpotify p (o.getObjectItemCaseSensitive "spotify")
      let deezer ← parseDeezer p (o.getObjectItemCaseSensitive "deezer")
      let napster ← parseNapster p (o.getObjectItemCaseSensitive "napster")
      let mb ← parseMusicbrainz p (o.getObjectItemCaseSensitive "musicbrainz")
      pure (some ⟨timecode, artist, title, album, releaseDate, label, songLink, isrc, upc,
        audioId.isSome, audioId.getD 0, appleMusic, spotify, deezer, napster, mb.getD [], rawObj,
        rawResponseStr, none, fun _ => none, none, fun _ => false, false, false⟩)

end

section

variable {p : Platform}

theorem erase_field {β : Type} {o : CJson} {key : CString}
    {f : Option CString × CJson → Converting β} {g : Option CString × CJson → AllocM β}
    (hf : ∀ s o', (f (s, o')).erase = g (s, o')) :
    (copyField p o key >>= f).erase = Audd.copyField p o key >>= g :=
  Traced.erase_bind_eq (erase_copyField o key) fun a => hf a.1 a.2

theorem erase_integer {β : Type} {o : CJson} {key : CString} {default : Int}
    {f : Int → Converting β} {y : AllocM β}
    (hf : (f (Audd.jsonGetInt p o key default)).erase = y) :
    (jsonGetInt p o key default >>= f).erase = y := by
  rw [Traced.erase_bind, erase_jsonGetInt, AllocM.pure_bind, hf]

/-- Without the structure, both give up alike. -/
theorem erase_structure {α : Type} {f : Option Unit → Converting (Option α)}
    {g : Option Unit → AllocM (Option α)} (hnone : (f none).erase = g none)
    (hsome : (f (some ())).erase = g (some ())) :
    (Traced.lift (AllocM.copy ()) >>= f).erase = AllocM.copy () >>= g := by
  refine Traced.erase_lift_bind fun memory => ?_
  cases memory with
  | none => exact hnone
  | some _ => exact hsome

theorem erase_parseAppleMusic (block : Option CJson) :
    (parseAppleMusic p block).erase = Audd.parseAppleMusic p block := by
  rcases block with _ | (_ | _ | _ | _ | _ | members)
  case some.object =>
    refine erase_structure rfl ?_
    refine erase_field fun _ o => erase_field fun _ o => erase_integer ?_
    refine erase_field fun _ o => erase_field fun _ o => erase_field fun _ o => erase_integer ?_
    refine erase_field fun _ o => erase_integer ?_
    refine erase_field fun _ o => Traced.erase_lift_bind fun raw => rfl
  all_goals rfl

theorem erase_parseSpotify (block : Option CJson) :
    (parseSpotify p block).erase = Audd.parseSpotify p block := by
  rcases block with _ | (_ | _ | _ | _ | _ | members)
  case some.object =>
    refine erase_structure rfl ?_
    refine erase_field fun _ o => erase_field fun _ o => ?_
    refine erase_integer (erase_integer (erase_integer ?_))
    refine erase_field fun _ o => erase_field fun _ o => ?_
    exact Traced.erase_lift_bind fun raw => rfl
  all_goals rfl

theorem erase_parseDeezer (block : Option CJson) :
    (parseDeezer p block).erase = Audd.parseDeezer p block := by
  rcases block with _ | (_ | _ | _ | _ | _ | members)
  case some.object =>
    refine erase_structure rfl ?_
    refine erase_integer (erase_field fun _ o => erase_integer (erase_field fun _ o => ?_))
    exact Traced.erase_lift_bind fun raw => rfl
  all_goals rfl

theorem erase_parseNapster (block : Option CJson) :
    (parseNapster p block).erase = Audd.parseNapster p block := by
  rcases block with _ | (_ | _ | _ | _ | _ | members)
  case some.object =>
    refine erase_structure rfl ?_
    refine erase_field fun _ o => erase_field fun _ o => erase_field fun _ o => ?_
    refine erase_field fun _ o => erase_field fun _ o => ?_
    exact Traced.erase_lift_bind fun raw => rfl
  all_goals rfl

theorem erase_musicbrainzScore (it : CJson) :
    (musicbrainzScore p it).erase = Audd.musicbrainzScore p it := by
  unfold musicbrainzScore Audd.musicbrainzScore
  rcases it.getObjectItemCaseSensitive "score" with _ | (_ | _ | _ | _ | _ | _) <;> rfl

theorem erase_parseMusicbrainzEntry (it : CJson) :
    (parseMusicbrainzEntry p it).erase = Audd.parseMusicbrainzEntry p it := by
  refine erase_field fun _ it => erase_field fun _ it => erase_integer ?_
  exact Traced.erase_bind_eq (erase_musicbrainzScore it) fun score => rfl

theorem erase_parseMusicbrainzEntries (items : List CJson) :
    (parseMusicbrainzEntries p items).erase = Audd.parseMusicbrainzEntries p items := by
  induction items with
  | nil => rfl
  | cons it items ih =>
    rw [parseMusicbrainzEntries, Audd.parseMusicbrainzEntries]
    split
    · exact ih
    · refine Traced.erase_bind_eq (erase_parseMusicbrainzEntry it) fun e => ?_
      exact Traced.erase_bind_eq ih fun rest => rfl

theorem erase_parseMusicbrainz (arr : Option CJson) :
    (parseMusicbrainz p arr).erase = Audd.parseMusicbrainz p arr := by
  rcases arr with _ | (_ | _ | _ | _ | (_ | ⟨it, items⟩) | _)
  case some.array.cons =>
    refine Traced.erase_lift_bind fun memory => ?_
    cases memory with
    | none => rfl
    | some _ => exact Traced.erase_bind_eq (erase_parseMusicbrainzEntries _) fun entries => rfl
  all_goals rfl

theorem erase_readAudioId (o : CJson) : (readAudioId p o).erase =
    pure (match o.getObjectItemCaseSensitive "audio_id" with
      | some (.number d) => some (d.toInt p)
      | _ => none) := by
  unfold readAudioId
  rcases o.getObjectItemCaseSensitive "audio_id" with _ | (_ | _ | _ | _ | _ | _) <;> rfl

/-- Without its record, the parser is the parser. -/
theorem erase_recognitionFromJson (o : CJson) :
    (recognitionFromJson p o).erase = Audd.recognitionFromJson p o := by
  unfold recognitionFromJson Audd.recognitionFromJson
  split
  · rfl
  · refine Traced.erase_lift_bind fun memory => ?_
    cases memory with
    | none => rfl
    | some _ =>
      refine Traced.erase_lift_bind fun rawObj => ?_
      refine Traced.erase_lift_bind fun rawResponseStr => ?_
      refine erase_field fun _ o => erase_field fun _ o => erase_field fun _ o => ?_
      refine erase_field fun _ o => erase_field fun _ o => erase_field fun _ o => ?_
      refine erase_field fun _ o => erase_field fun _ o => erase_field fun _ o => ?_
      dsimp only
      rw [Traced.erase_bind, erase_readAudioId, AllocM.pure_bind]
      refine Traced.erase_bind_eq (erase_parseAppleMusic _) fun appleMusic => ?_
      refine Traced.erase_bind_eq (erase_parseSpotify _) fun spotify => ?_
      refine Traced.erase_bind_eq (erase_parseDeezer _) fun deezer => ?_
      refine Traced.erase_bind_eq (erase_parseNapster _) fun napster => ?_
      exact Traced.erase_bind_eq (erase_parseMusicbrainz _) fun mb => rfl

/-! ### What the parser converts -/

theorem defined_congr {o o' : CJson} {read : Read}
    (h : o'.getObjectItemCaseSensitive read.key = o.getObjectItemCaseSensitive read.key) :
    read.Defined p o' ↔ read.Defined p o := by
  cases read <;> simp only [Read.key] at h <;> simp only [Read.Defined, h]

/-- The trees have the same members under the keys. -/
def SameAt (keys : List CString) (o o' : CJson) : Prop :=
  ∀ key ∈ keys, o'.getObjectItemCaseSensitive key = o.getObjectItemCaseSensitive key

theorem allDefined_cons {o : CJson} {read : Read} {reads : List Read} :
    AllDefined p o (read :: reads) ↔ read.Defined p o ∧ AllDefined p o reads :=
  List.forall_mem_cons

/-- A field is read as it came, and leaves the members that are read after it. -/
theorem each_field {β : Type} {o o' : CJson} {key : CString} {keys : List CString} {C : Prop}
    {f : Option CString × CJson → Converting β} (hkey : key ∉ keys)
    (h : SameAt (key :: keys) o o')
    (hf : ∀ s o', SameAt keys o o' → ((f (s, o')).Each Conversion.Defined ↔ C)) :
    (copyField p o' key >>= f).Each Conversion.Defined ↔ (Read.text key).Defined p o ∧ C := by
  have hread : (copyField p o' key).Each Conversion.Defined ↔ (Read.text key).Defined p o :=
    (each_copyField o' key).trans (defined_congr (h key List.mem_cons_self))
  refine Traced.each_bind_iff hread ?_
  rw [erase_copyField]
  refine (every_copyField o' key).mono fun a ha => hf a.1 a.2 fun k hk => ?_
  have hne : k ≠ key := by
    rintro rfl
    exact hkey hk
  exact (ha k hne).trans (h k (List.mem_cons_of_mem _ hk))

theorem each_text {β : Type} {o o' : CJson} {key : CString} {reads : List Read}
    {f : Option CString × CJson → Converting β} (hkey : key ∉ reads.map Read.key)
    (h : SameAt ((Read.text key :: reads).map Read.key) o o')
    (hf : ∀ s o', SameAt (reads.map Read.key) o o' →
      ((f (s, o')).Each Conversion.Defined ↔ AllDefined p o reads)) :
    (copyField p o' key >>= f).Each Conversion.Defined ↔ AllDefined p o (.text key :: reads) :=
  (each_field hkey h hf).trans allDefined_cons.symm

theorem each_integer {β : Type} {o o' : CJson} {key : CString} {reads : List Read}
    {default : Int} {f : Int → Converting β}
    (h : SameAt ((Read.integer key :: reads).map Read.key) o o')
    (hf : SameAt (reads.map Read.key) o o' → ∀ n,
      ((f n).Each Conversion.Defined ↔ AllDefined p o reads)) :
    (jsonGetInt p o' key default >>= f).Each Conversion.Defined ↔
      AllDefined p o (.integer key :: reads) := by
  have hread : (jsonGetInt p o' key default).Each Conversion.Defined ↔
      (Read.integer key).Defined p o :=
    (each_jsonGetInt o' key default).trans (defined_congr (h key List.mem_cons_self))
  have hrest : SameAt (reads.map Read.key) o o' := fun k hk => h k (List.mem_cons_of_mem _ hk)
  exact (Traced.each_bind_iff hread (AllocM.every_of_forall _ (hf hrest))).trans
    allDefined_cons.symm

/-- What is left is the raw copy of the block. -/
theorem each_raw {β : Type} {o o' : CJson} {f : Option CJson → β} :
    ((Traced.lift (AllocM.copy o') : Converting _) >>= fun raw => pure (f raw)).Each
      Conversion.Defined ↔ AllDefined p o [] := by
  rw [Traced.each_copy_bind]
  simp [AllDefined]

/-- Nothing is read without the structure. -/
theorem each_structure {α : Type} {A : Prop} {f : Option Unit → Converting (Option α)}
    (hnone : f none = pure none) (hsome : (f (some ())).Each Conversion.Defined ↔ A) :
    (Traced.lift (AllocM.copy ()) >>= f).Each Conversion.Defined ↔ A := by
  rw [Traced.each_copy_bind, hnone, Traced.each_pure, and_true, hsome]

/-- A block is parsed where it is an object. -/
theorem each_block {α : Type} {reads : List Read} {parse : Option CJson → Converting (Option α)}
    {f : List (CString × CJson) → Converting (Option α)}
    (hparse : ∀ block, parse block = match block with
      | some (.object members) => f members
      | _ => pure none)
    (hobject : ∀ members, (f members).Each Conversion.Defined ↔
      AllDefined p (.object members) reads)
    (block : Option CJson) :
    (parse block).Each Conversion.Defined ↔ BlockDefined p reads block := by
  rw [hparse]
  rcases block with _ | (_ | _ | _ | _ | _ | members)
  case some.object =>
    dsimp only
    rw [hobject]
    refine ⟨fun h o ho _ => ?_, fun h => h _ rfl rfl⟩
    obtain rfl := Option.some.inj ho
    exact h
  case none => exact iff_of_true ((Traced.each_pure _).mpr trivial) fun _ h => nomatch h
  all_goals
    refine iff_of_true ((Traced.each_pure _).mpr trivial) fun o ho hobject => ?_
    obtain rfl := Option.some.inj ho
    cases hobject

theorem each_parseAppleMusic (block : Option CJson) :
    (parseAppleMusic p block).Each Conversion.Defined ↔ BlockDefined p appleMusicReads block := by
  refine each_block (fun _ => rfl) (fun members => ?_) block
  refine each_structure rfl ?_
  have h : SameAt (appleMusicReads.map Read.key) (.object members) (.object members) :=
    fun _ _ => rfl
  refine each_text (by decide) h fun _ o h => each_text (by decide) h fun _ o h => ?_
  refine each_integer h fun h _ => each_text (by decide) h fun _ o h => ?_
  refine each_text (by decide) h fun _ o h => each_text (by decide) h fun _ o h => ?_
  refine each_integer h fun h _ => each_text (by decide) h fun _ o h => ?_
  exact each_integer h fun h _ => each_text (by decide) h fun _ o h => each_raw

theorem each_parseSpotify (block : Option CJson) :
    (parseSpotify p block).Each Conversion.Defined ↔ BlockDefined p spotifyReads block := by
  refine each_block (fun _ => rfl) (fun members => ?_) block
  refine each_structure rfl ?_
  have h : SameAt (spotifyReads.map Read.key) (.object members) (.object members) :=
    fun _ _ => rfl
  refine each_text (by decide) h fun _ o h => each_text (by decide) h fun _ o h => ?_
  refine each_integer h fun h _ => each_integer h fun h _ => each_integer h fun h _ => ?_
  exact each_text (by decide) h fun _ o h => each_text (by decide) h fun _ o h => each_raw

theorem each_parseDeezer (block : Option CJson) :
    (parseDeezer p block).Each Conversion.Defined ↔ BlockDefined p deezerReads block := by
  refine each_block (fun _ => rfl) (fun members => ?_) block
  refine each_structure rfl ?_
  have h : SameAt (deezerReads.map Read.key) (.object members) (.object members) :=
    fun _ _ => rfl
  refine each_integer h fun h _ => each_text (by decide) h fun _ o h => ?_
  exact each_integer h fun h _ => each_text (by decide) h fun _ o h => each_raw

theorem each_parseNapster (block : Option CJson) :
    (parseNapster p block).Each Conversion.Defined ↔ BlockDefined p napsterReads block := by
  refine each_block (fun _ => rfl) (fun members => ?_) block
  refine each_structure rfl ?_
  have h : SameAt (napsterReads.map Read.key) (.object members) (.object members) :=
    fun _ _ => rfl
  refine each_text (by decide) h fun _ o h => each_text (by decide) h fun _ o h => ?_
  refine each_text (by decide) h fun _ o h => each_text (by decide) h fun _ o h => ?_
  exact each_text (by decide) h fun _ o h => each_raw

theorem each_musicbrainzScore (it : CJson) :
    (musicbrainzScore p it).Each Conversion.Defined ↔ (Read.raw "score").Defined p it := by
  show _ ↔ ∀ d, it.getObjectItemCaseSensitive "score" = some (.number d) → d.Converts 32
  unfold musicbrainzScore
  cases it.getObjectItemCaseSensitive "score" with
  | none => simp
  | some item =>
    cases item with
    | number d => simp [Traced.each_bind, each_toInt]
    | _ => simp

theorem each_parseMusicbrainzEntry (it : CJson) :
    (parseMusicbrainzEntry p it).Each Conversion.Defined ↔ AllDefined p it entryReads := by
  have h : SameAt (entryReads.map Read.key) it it := fun _ _ => rfl
  refine each_text (by decide) h fun _ o h => each_text (by decide) h fun _ o h => ?_
  refine each_integer h fun h _ => ?_
  have hscore : (musicbrainzScore p o).Each Conversion.Defined ↔ (Read.raw "score").Defined p it :=
    (each_musicbrainzScore o).trans (defined_congr (h "score" List.mem_cons_self))
  refine (Traced.each_bind_iff hscore (AllocM.every_of_forall _ fun score => ?_)).trans
    allDefined_cons.symm
  simp [AllDefined]

theorem each_parseMusicbrainzEntries (items : List CJson) :
    (parseMusicbrainzEntries p items).Each Conversion.Defined ↔
      ∀ it ∈ items, it.isObject = true → AllDefined p it entryReads := by
  induction items with
  | nil => simp [parseMusicbrainzEntries]
  | cons it items ih =>
    rw [parseMusicbrainzEntries, List.forall_mem_cons]
    cases hobject : it.isObject with
    | false => simpa using ih
    | true =>
      simp only [Bool.not_true, Bool.false_eq_true, if_false, forall_const]
      refine Traced.each_bind_iff (each_parseMusicbrainzEntry it)
        (AllocM.every_of_forall _ fun e => ?_)
      rw [Traced.each_bind, ih]
      simp

theorem each_parseMusicbrainz (arr : Option CJson) :
    (parseMusicbrainz p arr).Each Conversion.Defined ↔ EntriesDefined p arr := by
  have harray : ∀ items, EntriesDefined p (some (.array items)) ↔
      ∀ it ∈ items, it.isObject = true → AllDefined p it entryReads := by
    refine fun items => ⟨fun h => h items rfl, fun h items' hitems => ?_⟩
    obtain rfl := CJson.array.inj (Option.some.inj hitems)
    exact h
  rcases arr with _ | (_ | _ | _ | _ | (_ | ⟨it, items⟩) | _)
  case some.array.cons =>
    rw [harray, ← each_parseMusicbrainzEntries]
    refine each_structure (f := fun memory => match memory with
      | none => pure none
      | some _ => do
        let entries ← parseMusicbrainzEntries p (it :: items)
        pure (some entries)) rfl ?_
    rw [Traced.each_bind]
    simp
  case some.array.nil =>
    rw [harray]
    simp [parseMusicbrainz]
  all_goals exact iff_of_true ((Traced.each_pure _).mpr trivial) fun _ h => nomatch h

theorem each_readAudioId (o : CJson) :
    (readAudioId p o).Each Conversion.Defined ↔ (Read.raw "audio_id").Defined p o := by
  show _ ↔ ∀ d, o.getObjectItemCaseSensitive "audio_id" = some (.number d) → d.Converts 32
  unfold readAudioId
  cases o.getObjectItemCaseSensitive "audio_id" with
  | none => simp
  | some item =>
    cases item with
    | number d => simp [Traced.each_bind, each_toInt]
    | _ => simp

/-- The members that are read after the fields. -/
def laterKeys : List CString :=
  ["audio_id", "apple_music", "spotify", "deezer", "napster", "musicbrainz"]

/-- A member that no field has changed. -/
theorem each_later {α β : Type} {o o' : CJson} {keys : List CString} {A : Option CJson → Prop}
    {C : Prop} {parse : Option CJson → Converting α} {f : α → Converting β}
    (hparse : ∀ block, (parse block).Each Conversion.Defined ↔ A block) {key : CString}
    (hkey : key ∈ keys) (h : SameAt keys o o')
    (hf : ∀ a, (f a).Each Conversion.Defined ↔ C) :
    (parse (o'.getObjectItemCaseSensitive key) >>= f).Each Conversion.Defined ↔
      A (o.getObjectItemCaseSensitive key) ∧ C := by
  refine Traced.each_bind_iff ?_ (AllocM.every_of_forall _ hf)
  rw [hparse, h key hkey]

theorem each_recognitionFromJson (o : CJson) :
    (recognitionFromJson p o).Each Conversion.Defined ↔
      (o.isObject = true → RecognitionDefined p o) := by
  unfold recognitionFromJson
  cases hobject : o.isObject with
  | false => simp
  | true =>
    simp only [Bool.not_true, Bool.false_eq_true, if_false, forall_const]
    refine each_structure rfl ?_
    refine Traced.each_lift_bind fun rawObj => Traced.each_lift_bind fun rawResponseStr => ?_
    rw [recognitionDefined_iff]
    simp only [AllDefined, recognitionReads, blockReads, List.forall_mem_append,
      recognitionKeys, List.map_cons, List.map_nil, List.forall_mem_cons, List.not_mem_nil,
      false_implies, implies_true, and_true, and_assoc]
    have h : SameAt (recognitionKeys ++ laterKeys) o o := fun _ _ => rfl
    refine each_field (by decide) h fun _ o' h => each_field (by decide) h fun _ o' h => ?_
    refine each_field (by decide) h fun _ o' h => each_field (by decide) h fun _ o' h => ?_
    refine each_field (by decide) h fun _ o' h => each_field (by decide) h fun _ o' h => ?_
    refine each_field (by decide) h fun _ o' h => each_field (by decide) h fun _ o' h => ?_
    refine each_field (by decide) h fun _ o' h => ?_
    have haudio : (readAudioId p o').Each Conversion.Defined ↔
        (Read.raw "audio_id").Defined p o :=
      (each_readAudioId o').trans (defined_congr (h "audio_id" (by decide)))
    refine Traced.each_bind_iff haudio (AllocM.every_of_forall _ fun audioId => ?_)
    refine each_later each_parseAppleMusic (by decide) h fun appleMusic => ?_
    refine each_later each_parseSpotify (by decide) h fun spotify => ?_
    refine each_later each_parseDeezer (by decide) h fun deezer => ?_
    refine each_later each_parseNapster (by decide) h fun napster => ?_
    rw [Traced.each_bind, each_parseMusicbrainz, h "musicbrainz" (by decide)]
    simp

end

end Converting

end Audd
