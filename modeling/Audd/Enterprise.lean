import Audd.Json
import Audd.Lib.Stores
import Audd.Offset
import Audd.Recognition

/-! Enterprise results.  The parser counts the songs of the chunks, and then fills an array of that
many matches with those songs that are objects.  A match is placed in the file by the offset of its
own chunk. -/

namespace Audd

/-- `struct audd_enterprise_match`.  The last four fields are built when they are first asked
for. -/
structure EnterpriseMatch where
  score : Int
  timecode : Option CString
  artist : Option CString
  title : Option CString
  album : Option CString
  releaseDate : Option CString
  label : Option CString
  isrc : Option CString
  upc : Option CString
  songLink : Option CString
  startOffset : Int
  endOffset : Int
  startSeconds : Option CDouble
  endSeconds : Option CDouble
  thumbnailUrl : Option CString
  streamingUrls : Provider → Option CString
  thumbLazy : Bool
  streamLazy : Provider → Bool

/-- A match in memory that is all zeros. -/
def EnterpriseMatch.zero : EnterpriseMatch :=
  ⟨0, none, none, none, none, none, none, none, none, none, 0, 0, some (.finite 0),
    some (.finite 0), none, fun _ => none, false, fun _ => false⟩

structure EnterpriseResult where
  items : List EnterpriseMatch
  count : Nat

/-- The matches that `audd_enterprise_result_at` gives out. -/
def EnterpriseResult.matches (r : EnterpriseResult) : List EnterpriseMatch := r.items.take r.count

section

variable (p : Platform)

/-- Seconds into the file, where the chunk is placed. -/
def secondsInto (base : Option CDouble) (milliseconds : Int) : Option CDouble :=
  if atLeastZero base then addDouble p base (some (p.round (milliseconds / 1000)))
  else unknownSeconds

def matchFromJson (o : CJson) (base : Option CDouble) : AllocM EnterpriseMatch := do
  let score := jsonGetInt p o "score" 0
  let (timecode, o) ← copyField p o "timecode"
  let (artist, o) ← copyField p o "artist"
  let (title, o) ← copyField p o "title"
  let (album, o) ← copyField p o "album"
  let (releaseDate, o) ← copyField p o "release_date"
  let (label, o) ← copyField p o "label"
  let (isrc, o) ← copyField p o "isrc"
  let (upc, o) ← copyField p o "upc"
  let (songLink, o) ← copyField p o "song_link"
  let startOffset := jsonGetInt p o "start_offset" 0
  let endOffset := jsonGetInt p o "end_offset" 0
  pure ⟨score, timecode, artist, title, album, releaseDate, label, isrc, upc, songLink, startOffset,
    endOffset, secondsInto p base startOffset, secondsInto p base endOffset, none, fun _ => none,
    false, fun _ => false⟩

/-- The songs of a chunk; NULL where it is no object or has no array of them. -/
def chunkSongs (chunk : CJson) : Option (List CJson) :=
  if chunk.isObject then
    match chunk.getObjectItemCaseSensitive "songs" with
    | some (.array songs) => some songs
    | _ => none
  else none

/-- The counting pass. -/
def countSongs (chunks : List CJson) : Nat :=
  (chunks.map fun chunk => ((chunkSongs chunk).getD []).length).sum

/-- The fill pass over the songs of a chunk, with `count` matches written: what it stores where. -/
def fillSongs (base : Option CDouble) : Nat → List CJson → AllocM (List (Nat × EnterpriseMatch))
  | _, [] => pure []
  | count, song :: songs =>
    if !song.isObject then fillSongs base count songs
    else do
      let m ← matchFromJson p song base
      pure ((count, m) :: (← fillSongs base (count + 1) songs))

def fillChunks : Nat → List CJson → AllocM (List (Nat × EnterpriseMatch))
  | _, [] => pure []
  | count, chunk :: chunks =>
    match chunkSongs chunk with
    | none => fillChunks count chunks
    | some songs => do
      let (offset, _) ← jsonGetString p chunk "offset"
      let stores ← fillSongs p (offsetToSeconds p offset) count songs
      pure (stores ++ (← fillChunks (count + stores.length) chunks))

def enterpriseFromJson (resultArr : Option CJson) : AllocM (Option EnterpriseResult) := do
  match ← AllocM.copy () with
  | none => pure none
  | some _ =>
    match resultArr with
    | some (.array chunks) =>
      let total := countSongs chunks
      if total = 0 then pure (some ⟨[], 0⟩)
      else
        match ← AllocM.copy () with
        | none => pure none
        | some _ => do
          let stores ← fillChunks p 0 chunks
          pure (some ⟨Stores.apply (List.replicate total .zero) stores, stores.length⟩)
    | _ => pure (some ⟨[], 0⟩)

end

/-! ### What the parser fills -/

/-- The seconds of a place in a chunk, as rationals where the chunk's own are. -/
def placeOf (base : Option CDouble) (milliseconds : Int) : Option CDouble :=
  match base with
  | some (.finite b) => if 0 ≤ b then some (.finite (b + milliseconds / 1000)) else unknownSeconds
  | some (.infinite false) => some (.infinite false)
  | _ => unknownSeconds

/-- A match has the fields of its song, and its place from the offset of its chunk. -/
structure EnterpriseMatch.Describes (p : Platform) (song : CJson) (base : Option CDouble)
    (m : EnterpriseMatch) : Prop where
  score : m.score = jsonGetInt p song "score" 0
  timecode : m.timecode = song.textOf p "timecode"
  artist : m.artist = song.textOf p "artist"
  title : m.title = song.textOf p "title"
  album : m.album = song.textOf p "album"
  releaseDate : m.releaseDate = song.textOf p "release_date"
  label : m.label = song.textOf p "label"
  isrc : m.isrc = song.textOf p "isrc"
  upc : m.upc = song.textOf p "upc"
  songLink : m.songLink = song.textOf p "song_link"
  startOffset : m.startOffset = jsonGetInt p song "start_offset" 0
  endOffset : m.endOffset = jsonGetInt p song "end_offset" 0
  startSeconds : m.startSeconds = placeOf base m.startOffset
  endSeconds : m.endSeconds = placeOf base m.endOffset

/-- The objects among the songs of a chunk. -/
def objectSongs (chunk : CJson) : List CJson :=
  ((chunkSongs chunk).getD []).filter CJson.isObject

def chunkBase (p : Platform) (chunk : CJson) : Option CDouble :=
  offsetToSeconds p (chunk.textOf p "offset")

/-- The songs of a result, each with the offset of its own chunk. -/
def placedSongs (p : Platform) (resultArr : Option CJson) : List (CJson × Option CDouble) :=
  ((resultArr.map CJson.items).getD []).flatMap fun chunk =>
    (objectSongs chunk).map fun song => (song, chunkBase p chunk)

section

variable {p : Platform}

theorem secondsInto_exact (hp : p.round = .finite) (base : Option CDouble) (milliseconds : Int) :
    secondsInto p base milliseconds = placeOf base milliseconds := by
  unfold placeOf
  split
  · rename_i b
    by_cases hb : 0 ≤ b
    · simp [secondsInto, atLeastZero, CDouble.le, addDouble, CDouble.add, hp, hb]
    · simp [secondsInto, atLeastZero, CDouble.le, hb]
  · simp [secondsInto, atLeastZero, CDouble.le, addDouble, CDouble.add, hp]
  · rename_i hfinite hinfinite
    have hunusable : atLeastZero base = false := by
      rcases base with _ | b | negative
      · rfl
      · exact absurd rfl (hfinite b)
      · cases negative
        · exact absurd rfl hinfinite
        · rfl
    simp [secondsInto, hunusable]

theorem matchFromJson_describes (hp : p.round = .finite) (song : CJson) (base : Option CDouble) :
    (matchFromJson p song base).ok.Describes p song base := by
  simp only [matchFromJson, AllocM.ok_bind, copyField_ok, AllocM.ok_pure, secondsInto_exact hp]
  constructor <;> simp

theorem fillSongs_ok (base : Option CDouble) (count : Nat) (songs : List CJson) :
    (fillSongs p base count songs).ok = Stores.consecutive count
      ((songs.filter CJson.isObject).map fun song => (matchFromJson p song base).ok) := by
  induction songs generalizing count with
  | nil => rfl
  | cons song songs ih =>
    rw [fillSongs, List.filter_cons]
    cases song.isObject with
    | false => simpa using ih count
    | true => simp [ih, Stores.consecutive]

/-- The fill pass stores the matches of all songs one after the other. -/
theorem fillChunks_ok (count : Nat) (chunks : List CJson) :
    (fillChunks p count chunks).ok = Stores.consecutive count
      (chunks.flatMap fun chunk => (objectSongs chunk).map fun song =>
        (matchFromJson p song (chunkBase p chunk)).ok) := by
  induction chunks generalizing count with
  | nil => rfl
  | cons chunk chunks ih =>
    rw [fillChunks, List.flatMap_cons]
    cases hsongs : chunkSongs chunk with
    | none => simp [objectSongs, hsongs, ih]
    | some songs =>
      simp [objectSongs, hsongs, ih, fillSongs_ok, chunkBase, Stores.consecutive_append]

theorem placedSongs_length (chunks : List CJson) :
    (placedSongs p (some (.array chunks))).length ≤ countSongs chunks := by
  have h : ∀ chunk, (objectSongs chunk).length ≤ ((chunkSongs chunk).getD []).length :=
    fun chunk => List.length_filter_le _ _
  show (chunks.flatMap _).length ≤ _
  induction chunks with
  | nil => rfl
  | cons chunk chunks ih =>
    have := h chunk
    simp only [List.flatMap_cons, List.length_append, List.length_map, countSongs, List.map_cons,
      List.sum_cons] at ih ⊢
    omega

theorem fillChunks_placed (chunks : List CJson) :
    (fillChunks p 0 chunks).ok = Stores.consecutive 0
      ((placedSongs p (some (.array chunks))).map fun placed =>
        (matchFromJson p placed.1 placed.2).ok) := by
  rw [fillChunks_ok]
  show _ = Stores.consecutive 0 ((chunks.flatMap _).map _)
  simp [List.map_flatMap, Function.comp_def]

/-- No store reaches the total that the counting pass finds. -/
theorem fillChunks_bounded (chunks : List CJson) :
    ∀ store ∈ (fillChunks p 0 chunks).ok, store.1 < countSongs chunks := by
  intro store hstore
  rw [fillChunks_placed] at hstore
  have hindex := (Stores.consecutive_index hstore).2
  have hlength := placedSongs_length (p := p) chunks
  rw [List.length_map] at hindex
  omega

theorem enterpriseFromJson_ok (chunks : List CJson) :
    (enterpriseFromJson p (some (.array chunks))).ok =
      if countSongs chunks = 0 then some ⟨[], 0⟩
      else some ⟨Stores.apply (List.replicate (countSongs chunks) .zero) (fillChunks p 0 chunks).ok,
        (fillChunks p 0 chunks).ok.length⟩ := by
  simp only [enterpriseFromJson, AllocM.ok_bind, AllocM.ok_copy]
  split
  · rfl
  · simp

theorem enterpriseFromJson_of_not_array {resultArr : Option CJson}
    (h : ∀ chunks, resultArr ≠ some (.array chunks)) :
    (enterpriseFromJson p resultArr).ok = some ⟨[], 0⟩ ∧ placedSongs p resultArr = [] := by
  rcases resultArr with _ | item
  · exact ⟨rfl, rfl⟩
  · cases item with
    | array chunks => exact absurd rfl (h chunks)
    | _ => exact ⟨rfl, rfl⟩

/-- The rule for a result, whatever is refused: it is empty without a song, and otherwise it is
filled. -/
theorem every_enterpriseFromJson {P : EnterpriseResult → Prop} {resultArr : Option CJson}
    (hempty : (∀ chunks, resultArr = some (.array chunks) → countSongs chunks = 0) → P ⟨[], 0⟩)
    (hfill : ∀ chunks, resultArr = some (.array chunks) →
      (fillChunks p 0 chunks).Every fun stores =>
        P ⟨Stores.apply (List.replicate (countSongs chunks) .zero) stores, stores.length⟩) :
    (enterpriseFromJson p resultArr).Every fun given => ∀ result, given = some result →
      P result := by
  have hnone : ∀ result, none = some result → P result := fun _ h => nomatch h
  unfold enterpriseFromJson
  refine AllocM.every_bind_of_forall fun memory => ?_
  cases memory with
  | none => exact hnone
  | some _ =>
    dsimp only
    split
    · rename_i chunks
      split
      · rename_i hzero
        rintro result ⟨⟩
        refine hempty fun chunks' hchunks => ?_
        obtain rfl := CJson.array.inj (Option.some.inj hchunks)
        exact hzero
      · refine AllocM.every_bind_of_forall fun memory => ?_
        cases memory with
        | none => exact hnone
        | some _ =>
          refine (hfill chunks rfl).bind fun stores hstores => ?_
          rintro result ⟨⟩
          exact hstores
    · rename_i hother
      rintro result ⟨⟩
      exact hempty fun chunks hchunks => absurd hchunks (hother chunks)

/-- The container of an array holds the matches of its placed songs. -/
theorem enterpriseFromJson_matches (chunks : List CJson) :
    ∃ r, (enterpriseFromJson p (some (.array chunks))).ok = some r ∧
      r.matches = (placedSongs p (some (.array chunks))).map (fun placed =>
        (matchFromJson p placed.1 placed.2).ok) ∧
      r.count = (placedSongs p (some (.array chunks))).length := by
  have hlength := placedSongs_length (p := p) chunks
  rw [enterpriseFromJson_ok]
  split
  · have hnil : placedSongs p (some (.array chunks)) = [] := List.length_eq_zero_iff.mp (by omega)
    rw [hnil]
    exact ⟨_, rfl, rfl, rfl⟩
  · refine ⟨_, rfl, ?_, ?_⟩
    · rw [EnterpriseResult.matches, fillChunks_placed, Stores.apply_consecutive (by simpa)]
      simp only [List.take_zero, List.nil_append, Stores.consecutive_length]
      exact List.take_left
    · rw [fillChunks_placed, Stores.consecutive_length, List.length_map]

/-- Every match is described by its own song and chunk, in order and once each, and the fill pass
stores below the total that the counting pass finds. -/
theorem enterpriseFromJson_flattens (hp : p.round = .finite) (resultArr : Option CJson) :
    ∃ r, (enterpriseFromJson p resultArr).ok = some r ∧
      List.Forall₂ (fun placed m => EnterpriseMatch.Describes p placed.1 placed.2 m)
        (placedSongs p resultArr) r.matches ∧
      r.count = (placedSongs p resultArr).length ∧
      ∀ chunks, resultArr = some (.array chunks) →
        ∀ store ∈ (fillChunks p 0 chunks).ok, store.1 < countSongs chunks := by
  have hbounds : ∀ chunks, resultArr = some (.array chunks) →
      ∀ store ∈ (fillChunks p 0 chunks).ok, store.1 < countSongs chunks :=
    fun chunks _ => fillChunks_bounded chunks
  by_cases harray : ∃ chunks, resultArr = some (.array chunks)
  · obtain ⟨chunks, rfl⟩ := harray
    obtain ⟨r, hr, hmatches, hcount⟩ := enterpriseFromJson_matches (p := p) chunks
    refine ⟨r, hr, ?_, hcount, hbounds⟩
    rw [hmatches, List.forall₂_map_right_iff, List.forall₂_same]
    exact fun placed _ => matchFromJson_describes hp placed.1 placed.2
  · obtain ⟨hr, hnil⟩ :=
      enterpriseFromJson_of_not_array (p := p) fun chunks h => harray ⟨chunks, h⟩
    rw [hnil]
    exact ⟨_, hr, .nil, rfl, hbounds⟩

def mixedChunks : CJson := .array [.null,
  .object [("offset", .string "1:00"), ("songs", .array [.null, .object [("title", .bool true)]])],
  .object [("songs", .array [.object [("start_offset", .string "500")]])]]

theorem mixedChunks_flattens : ∃ r m m',
    (enterpriseFromJson .exact (some mixedChunks)).ok = some r ∧ r.matches = [m, m'] ∧ r.count = 2 ∧
    m.title = some "true" ∧ m.startSeconds = some (.finite 60) ∧ m'.startOffset = 500 ∧
    m'.startSeconds = some (.finite (-1)) := by
  obtain ⟨r, hr, hmatches, hcount, -⟩ :=
    enterpriseFromJson_flattens (p := .exact) rfl (some mixedChunks)
  obtain ⟨m, ms, hm, hmatches', heq⟩ := List.forall₂_cons_left_iff.1 hmatches
  obtain ⟨m', ms', hm', hnil, rfl⟩ := List.forall₂_cons_left_iff.1 hmatches'
  obtain rfl := List.forall₂_nil_left_iff.1 hnil
  have hstart : m.startOffset = 0 := hm.startOffset
  have hstart' : m'.startOffset = 500 := hm'.startOffset
  have hseconds := hm.startSeconds
  have hseconds' := hm'.startSeconds
  rw [hstart] at hseconds
  rw [hstart'] at hseconds'
  exact ⟨r, m, m', hr, heq, hcount, hm.title, hseconds.trans (by decide +kernel), hstart',
    hseconds'.trans (by decide +kernel)⟩

end

end Audd
