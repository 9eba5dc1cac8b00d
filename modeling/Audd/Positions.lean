import Audd.Refused

/-! The positions of the matches in the file.  A position is unknown where the chunk of the match
has no offset that can be used.  A known one is the chunk's offset and an offset within the chunk,
which the server may send with a sign. -/

namespace Audd

open AllocM

/-- The songs that are matches, each with its chunk. -/
def matchSources (resultArr : Option CJson) : List (CJson × CJson) :=
  ((resultArr.map CJson.items).getD []).flatMap fun chunk =>
    (objectSongs chunk).map fun song => (chunk, song)

/-- The positions are both unknown exactly where the offset is of no use, and otherwise both are
positions in the file. -/
def EnterpriseMatch.TellsApart (usable : Bool) (m : EnterpriseMatch) : Prop :=
  (m.startSeconds = unknownSeconds ∧ m.endSeconds = unknownSeconds ↔ usable = false) ∧
  (usable = true → atLeastZero m.startSeconds = true ∧ atLeastZero m.endSeconds = true)

/-- What the offset of a chunk is read as: that of a number or a boolean is lost where its text has
no memory. -/
def OffsetReadAs (p : Platform) (chunk : CJson) (base : Option CDouble) : Prop :=
  base = chunkBase p chunk ∨ readNeeds chunk "offset" = [true] ∧ base = unknownSeconds

section

variable {p : Platform}

theorem placedSongs_eq (resultArr : Option CJson) : placedSongs p resultArr =
    (matchSources resultArr).map fun source => (source.2, chunkBase p source.1) := by
  rw [placedSongs, matchSources, List.map_flatMap]
  simp only [List.map_map, Function.comp_def]

theorem atLeastZero_unknown : atLeastZero unknownSeconds = false := by
  simp [atLeastZero, unknownSeconds, CDouble.le]

/-- A usable offset makes the seconds known; what is left is their sign. -/
theorem tellsApart_iff {base : Option CDouble} {song : CJson} {m : EnterpriseMatch}
    (hm : (m.startSeconds, m.endSeconds) = songSeconds p base song) :
    m.TellsApart (atLeastZero base) ↔ (atLeastZero base = true →
      atLeastZero m.startSeconds = true ∧ atLeastZero m.endSeconds = true) := by
  rw [songSeconds, Prod.mk.injEq] at hm
  refine ⟨fun h => h.2, fun h => ⟨?_, h⟩⟩
  cases husable : atLeastZero base with
  | false =>
    refine iff_of_true ?_ rfl
    rw [hm.1, hm.2, secondsInto, secondsInto, husable]
    exact ⟨rfl, rfl⟩
  | true =>
    refine iff_of_false (fun hunknown => ?_) (by simp)
    have hstart := (h husable).1
    rw [hunknown.1, atLeastZero_unknown] at hstart
    cases hstart

theorem atLeastZero_secondsInto (hp : p.round = .finite) {base : Option CDouble}
    (husable : atLeastZero base = true) (milliseconds : Int) :
    atLeastZero (secondsInto p base milliseconds) = true ↔
      ∀ b, base = some (.finite b) → -(1000 * b) ≤ milliseconds := by
  rw [secondsInto_exact hp]
  rcases base with _ | b | negative
  · cases husable
  · have hb : 0 ≤ b := by simpa [atLeastZero, CDouble.le] using husable
    simp only [placeOf, hb, if_true, Option.some.injEq, CDouble.finite.injEq, forall_eq']
    rw [atLeastZero, Option.any_some, CDouble.le, decide_eq_true_eq]
    constructor
    · intro h
      linarith
    · intro h
      linarith
  · cases negative with
    | false => simp [placeOf, atLeastZero, CDouble.le]
    | true => exact absurd husable (by simp [atLeastZero, CDouble.le])

/-- Neither end of the song lies before the start of the file. -/
def InFile (p : Platform) (base : Option CDouble) (song : CJson) : Prop :=
  ∀ b, base = some (.finite b) → 0 ≤ b → -(1000 * b) ≤ jsonGetInt p song "start_offset" 0 ∧
    -(1000 * b) ≤ jsonGetInt p song "end_offset" 0

theorem tellsApart_iff_inFile (hp : p.round = .finite) {base : Option CDouble} {song : CJson}
    {m : EnterpriseMatch} (hm : (m.startSeconds, m.endSeconds) = songSeconds p base song) :
    m.TellsApart (atLeastZero base) ↔ InFile p base song := by
  rw [tellsApart_iff hm]
  rw [songSeconds, Prod.mk.injEq] at hm
  rw [hm.1, hm.2]
  constructor
  · intro h b hb hpos
    have husable : atLeastZero base = true := by simpa [hb, atLeastZero, CDouble.le] using hpos
    exact ⟨(atLeastZero_secondsInto hp husable _).mp (h husable).1 b hb,
      (atLeastZero_secondsInto hp husable _).mp (h husable).2 b hb⟩
  · intro h husable
    have hpos : ∀ b, base = some (.finite b) → 0 ≤ b := by
      rintro b rfl
      simpa [atLeastZero, CDouble.le] using husable
    exact ⟨(atLeastZero_secondsInto hp husable _).mpr fun b hb => (h b hb (hpos b hb)).1,
      (atLeastZero_secondsInto hp husable _).mpr fun b hb => (h b hb (hpos b hb)).2⟩

theorem inFile_unknown (song : CJson) : InFile p unknownSeconds song := by
  intro b hb hpos
  obtain rfl := CDouble.finite.inj (Option.some.inj hb)
  exact absurd hpos (by norm_num)

/-! ### The container, whatever is refused -/

theorem every_offset (chunk : CJson) : (jsonGetString p chunk "offset").Every fun a =>
    OffsetReadAs p chunk (offsetToSeconds p a.1) := by
  have hnone : offsetToSeconds p none = unknownSeconds := rfl
  unfold jsonGetString OffsetReadAs chunkBase readNeeds CJson.textOf
  split <;> simp_all [jsonGetString.coerce]

/-- A match has the seconds of its song, for what was read of its chunk's offset. -/
def PlacedAs (p : Platform) (source : CJson × CJson) (m : EnterpriseMatch) : Prop :=
  ∃ base, OffsetReadAs p source.1 base ∧
    (m.startSeconds, m.endSeconds) = songSeconds p base source.2

theorem placedAs_of_seconds {chunk : CJson} {base : Option CDouble}
    (hbase : OffsetReadAs p chunk base) {songs : List CJson} {ms : List EnterpriseMatch}
    (h : ms.map (fun m => (m.startSeconds, m.endSeconds)) = songs.map (songSeconds p base)) :
    List.Forall₂ (PlacedAs p) (songs.map fun song => (chunk, song)) ms := by
  induction songs generalizing ms with
  | nil =>
    rw [List.map_nil, List.map_eq_nil_iff] at h
    rw [h]
    exact .nil
  | cons song songs ih =>
    cases ms with
    | nil => cases h
    | cons m ms =>
      rw [List.map_cons, List.map_cons, List.cons.injEq] at h
      exact .cons ⟨base, hbase, h.1⟩ (ih h.2)

theorem matchSources_cons (chunk : CJson) (chunks : List CJson) :
    matchSources (some (.array (chunk :: chunks))) =
      (objectSongs chunk).map (fun song => (chunk, song)) ++
        matchSources (some (.array chunks)) := List.flatMap_cons

theorem every_fillChunks_placed (count : Nat) (chunks : List CJson) :
    (fillChunks p count chunks).Every fun stores => ∃ ms, stores = Stores.consecutive count ms ∧
      List.Forall₂ (PlacedAs p) (matchSources (some (.array chunks))) ms := by
  refine every_fillChunks_of (S := fun chunks ms =>
    List.Forall₂ (PlacedAs p) (matchSources (some (.array chunks))) ms) .nil ?_ ?_ count chunks
  · intro chunk chunks ms hnone hms
    rw [matchSources_cons, objectSongs, hnone]
    exact hms
  · intro chunk songs hsongs
    refine (every_offset chunk).mono fun a hbase ms hms chunks ms' hms' => ?_
    rw [matchSources_cons, objectSongs, hsongs, Option.getD_some]
    exact List.rel_append (placedAs_of_seconds hbase hms) hms'

theorem matchSources_length (chunks : List CJson) :
    (matchSources (some (.array chunks))).length ≤ countSongs chunks := by
  have hlength := placedSongs_length (p := .exact) chunks
  rwa [placedSongs_eq, List.length_map] at hlength

theorem matchSources_of_no_song {resultArr : Option CJson}
    (h : ∀ chunks, resultArr = some (.array chunks) → countSongs chunks = 0) :
    matchSources resultArr = [] := by
  rcases resultArr with _ | item
  · rfl
  · cases item with
    | array chunks =>
      have hlength := matchSources_length chunks
      rw [h chunks rfl] at hlength
      exact List.length_eq_zero_iff.mp (by omega)
    | _ => rfl

theorem every_enterprise_placed (resultArr : Option CJson) :
    (enterpriseFromJson p resultArr).Every fun given => ∀ result, given = some result →
      List.Forall₂ (PlacedAs p) (matchSources resultArr) result.matches := by
  refine every_enterpriseFromJson
    (P := fun result => List.Forall₂ (PlacedAs p) (matchSources resultArr) result.matches)
    (fun hzero => ?_) fun chunks hchunks => ?_
  · rw [matchSources_of_no_song hzero]
    exact .nil
  · refine (every_fillChunks_placed 0 chunks).mono ?_
    rintro _ ⟨ms, rfl, hms⟩
    have hcount := hms.length_eq
    have hlength := matchSources_length chunks
    rw [EnterpriseResult.matches, Stores.apply_consecutive (by simp; omega), hchunks]
    simp only [List.take_zero, List.nil_append, Stores.consecutive_length, List.take_left]
    exact hms

/-- Where related elements satisfy `R` exactly if the first satisfies `Q`, all do exactly if all
do. -/
theorem forall₂_iff_of {α β : Type} {R S : α → β → Prop} {Q : α → Prop} {xs : List α} {ys : List β}
    (h : List.Forall₂ S xs ys) (hiff : ∀ x y, S x y → (R x y ↔ Q x)) :
    List.Forall₂ R xs ys ↔ ∀ x ∈ xs, Q x := by
  induction h with
  | nil => simp
  | cons hxy _ ih => rw [List.forall₂_cons, List.forall_mem_cons, ih, hiff _ _ hxy]

/-- With memory each offset is read as it came. -/
theorem enterpriseFromJson_placed (hp : p.round = .finite) (resultArr : Option CJson) :
    ∃ result, (enterpriseFromJson p resultArr).ok = some result ∧
      List.Forall₂ (fun source m => (m.startSeconds, m.endSeconds) =
        songSeconds p (chunkBase p source.1) source.2) (matchSources resultArr) result.matches := by
  obtain ⟨result, hresult, hmatches, -⟩ := enterpriseFromJson_flattens hp resultArr
  refine ⟨result, hresult, ?_⟩
  rw [placedSongs_eq, List.forall₂_map_left_iff] at hmatches
  refine hmatches.imp fun source m hm => ?_
  rw [songSeconds, secondsInto_exact hp, secondsInto_exact hp, hm.startSeconds, hm.endSeconds,
    hm.startOffset, hm.endOffset]

end

/-- A caller can tell the unknown positions from the known, and the known ones are positions in the
file, exactly if no song starts or ends before the file does. -/
theorem positions_told_apart_iff {p : Platform} (hp : p.round = .finite)
    (resultArr : Option CJson) :
    ((∃ result, (enterpriseFromJson p resultArr).ok = some result ∧
        List.Forall₂ (fun source m => m.TellsApart (atLeastZero (chunkBase p source.1)))
          (matchSources resultArr) result.matches) ∧
      (enterpriseFromJson p resultArr).Every fun given => ∀ result, given = some result →
        List.Forall₂ (fun source m => ∃ base, OffsetReadAs p source.1 base ∧
          m.TellsApart (atLeastZero base)) (matchSources resultArr) result.matches) ↔
    ∀ source ∈ matchSources resultArr, InFile p (chunkBase p source.1) source.2 := by
  obtain ⟨result, hresult, hplaced⟩ := enterpriseFromJson_placed hp resultArr
  have hiff : List.Forall₂ (fun source m => m.TellsApart (atLeastZero (chunkBase p source.1)))
      (matchSources resultArr) result.matches ↔
      ∀ source ∈ matchSources resultArr, InFile p (chunkBase p source.1) source.2 :=
    forall₂_iff_of hplaced fun _ _ hm => tellsApart_iff_inFile hp hm
  constructor
  · rintro ⟨⟨given, hgiven, htold⟩, -⟩
    obtain rfl := Option.some.inj (hresult.symm.trans hgiven)
    exact hiff.mp htold
  · intro hcond
    refine ⟨⟨result, hresult, hiff.mpr hcond⟩, (every_enterprise_placed resultArr).mono ?_⟩
    intro given hgiven result' hresult'
    have hboth := (List.forall₂_and_left _ _).mpr ⟨hcond, hgiven result' hresult'⟩
    refine hboth.imp ?_
    rintro source m ⟨hsource, base, hbase, hm⟩
    refine ⟨base, hbase, (tellsApart_iff_inFile hp hm).mpr ?_⟩
    rcases hbase with rfl | ⟨-, rfl⟩
    · exact hsource
    · exact inFile_unknown _

theorem mixedChunks_told_apart :
    ∃ result, (enterpriseFromJson .exact (some mixedChunks)).ok = some result ∧
      List.Forall₂ (fun source m => m.TellsApart (atLeastZero (chunkBase .exact source.1)))
        (matchSources (some mixedChunks)) result.matches := by
  refine ((positions_told_apart_iff (p := .exact) rfl (some mixedChunks)).mpr ?_).1
  -- no offset within a chunk has a sign
  have hplus : ∀ source ∈ matchSources (some mixedChunks),
      0 ≤ jsonGetInt .exact source.2 "start_offset" 0 ∧
      0 ≤ jsonGetInt .exact source.2 "end_offset" 0 := by decide +kernel
  intro source hsource b _ hb
  obtain ⟨hstart, hend⟩ := hplus source hsource
  have hstart' : (0 : ℚ) ≤ jsonGetInt .exact source.2 "start_offset" 0 := mod_cast hstart
  have hend' : (0 : ℚ) ≤ jsonGetInt .exact source.2 "end_offset" 0 := mod_cast hend
  exact ⟨by linarith, by linarith⟩

/-- A song that starts and ends a second before its chunk. -/
def earlySong : CJson :=
  .object [("start_offset", .number (.finite (-1000))), ("end_offset", .number (.finite (-1000)))]

theorem earlySong_unknown :
    atLeastZero (chunkBase .exact (.object [("offset", .string "0"), ("songs",
      .array [earlySong])])) = true ∧
    ∃ result m, (enterpriseFromJson .exact (some (.array [.object [("offset", .string "0"),
        ("songs", .array [earlySong])]]))).ok = some result ∧ result.matches = [m] ∧
      m.startSeconds = unknownSeconds ∧ m.endSeconds = unknownSeconds := by
  refine ⟨by decide +kernel, ⟨_, _⟩, _, rfl, rfl, ?_, ?_⟩
  · decide +kernel
  · decide +kernel

end Audd
