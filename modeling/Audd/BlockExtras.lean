import Audd.Accessors
import Audd.Lib.History
import Mathlib.Data.List.TakeWhile

/-! The extras of the metadata blocks.  A block's tree is copied after its parser has read texts
from it, and the links are read from it later, so an extra may print a node that was rewritten.
What it prints first is kept, and from then on is the answer. -/

namespace Audd

/-! ### The blocks of a result -/

def Block.name : Block → CString
  | .appleMusic => "apple_music"
  | .spotify => "spotify"
  | .deezer => "deezer"

def Block.textKeys : Block → List CString
  | .appleMusic => appleMusicKeys
  | .spotify => spotifyKeys
  | .deezer => deezerKeys

def Block.previewKey : Block → CString
  | .appleMusic => "previews"
  | .spotify => "preview_url"
  | .deezer => "preview"

/-- The node of a preview member that is read as text. -/
def Block.previewNode : Block → CJson → Option CJson
  | .appleMusic, .array (first :: _) => first.getObjectItemCaseSensitive "url"
  | .appleMusic, _ => none
  | _, item => some item

def CJson.block (o : CJson) (b : Block) : Option CJson :=
  (o.getObjectItemCaseSensitive b.name).filter CJson.isObject

/-- The text of a node. -/
def CJson.text (p : Platform) (item : CJson) : Option CString :=
  match item.asText p with
  | .string s => some s
  | _ => none

/-- The preview that is read from a block's tree. -/
def Block.previewIn (p : Platform) (b : Block) (tree : Option CJson) : Option CString := do
  let node ← b.previewNode (← (← tree).getObjectItemCaseSensitive b.previewKey)
  node.text p

def CJson.HasPreview (p : Platform) (o : CJson) (b : Block) : Prop :=
  ∃ c u, b.previewIn p (o.block b) = some (c :: u)

/-- The search for a preview comes to the block: those before it have none. -/
def CJson.PreviewReaches (p : Platform) (o : CJson) : Block → Prop
  | .appleMusic => True
  | .spotify => ¬o.HasPreview p .appleMusic
  | .deezer => ¬o.HasPreview p .appleMusic ∧ ¬o.HasPreview p .spotify

/-- A member whose value is rewritten by the parser or by the calls: a number or a boolean in it
was read as text. -/
inductive Rewritten (p : Platform) (o : CJson) (calls : List Accessor) (b : Block) :
    CString → CJson → Prop
  | text {key : CString} {item : CJson} (hkey : key ∈ b.textKeys) (hitem : item.isScalar = true) :
      Rewritten p o calls b key item
  | streaming {item node : CJson} (hblock : b = .spotify) (hcall : .streamingUrl 0 ∈ calls)
      (hnode : item.getObjectItemCaseSensitive "spotify" = some node)
      (hscalar : node.isScalar = true) : Rewritten p o calls b "external_urls" item
  | preview {item node : CJson} (hcall : .previewUrl ∈ calls) (hreaches : o.PreviewReaches p b)
      (hnode : b.previewNode item = some node) (hscalar : node.isScalar = true) :
      Rewritten p o calls b b.previewKey item

def Accessor.asks (b : Block) (key : CString) : Accessor → Bool
  | .blockExtra b' key' => b' = b ∧ key' = key
  | _ => false

/-- The answer for a member of the block, after the calls, is its value as it came.  A string that
came under the name of the key's text is the answer; any other value there keeps the text from
being found, so each call prints anew; and otherwise the first call's text stays. -/
structure KeepsWire (p : Platform) (o : CJson) (before : List Accessor) (b : Block) (wire : CJson)
    (key : CString) (item : CJson) : Prop where
  string : ∀ s, wire.getObjectItemCaseSensitive (auxKey key) = some (.string s) →
    s = printUnformatted p item
  printed : ∀ found, wire.getObjectItemCaseSensitive (auxKey key) = some found →
    (∀ s, found ≠ .string s) → ¬Rewritten p o before b key item
  kept : wire.getObjectItemCaseSensitive (auxKey key) = none →
    ¬Rewritten p o (before.takeWhile fun call => !call.asks b key) b key item

/-! ### What the accessors do to the trees -/

def Recognition.blockRaw (r : Recognition) : Block → Option CJson
  | .appleMusic => r.appleMusic.bind AppleMusic.raw
  | .spotify => r.spotify.bind Spotify.raw
  | .deezer => r.deezer.bind Deezer.raw

/-- A preview member after it is read. -/
def Block.previewEdit (p : Platform) : Block → CJson → CJson
  | .appleMusic, .array (first :: rest) => .array (first.edit "url" (CJson.asText p) :: rest)
  | .appleMusic, item => item
  | _, item => item.asText p

section

variable {p : Platform} {r : Recognition} {b : Block}

theorem textOf_eq (obj : CJson) (key : CString) :
    obj.textOf p key = (obj.getObjectItemCaseSensitive key).bind (CJson.text p) := by
  rw [CJson.textOf]
  rcases obj.getObjectItemCaseSensitive key with _ | (_ | _ | _ | _ | _ | _) <;> rfl

theorem parseAppleMusic_raw (block : Option CJson) :
    (parseAppleMusic p block).ok.bind AppleMusic.raw =
      (block.filter CJson.isObject).map fun wire =>
        appleMusicKeys.foldl (CJson.coerced p) wire := by
  rcases block with _ | (_ | _ | _ | _ | _ | members)
  case some.object =>
    rw [parseAppleMusic_ok]
    rfl
  all_goals rfl

theorem parseSpotify_raw (block : Option CJson) :
    (parseSpotify p block).ok.bind Spotify.raw =
      (block.filter CJson.isObject).map fun wire => spotifyKeys.foldl (CJson.coerced p) wire := by
  rcases block with _ | (_ | _ | _ | _ | _ | members)
  case some.object => simp [parseSpotify, spotifyKeys, CJson.isObject]
  all_goals rfl

theorem parseDeezer_raw (block : Option CJson) :
    (parseDeezer p block).ok.bind Deezer.raw =
      (block.filter CJson.isObject).map fun wire => deezerKeys.foldl (CJson.coerced p) wire := by
  rcases block with _ | (_ | _ | _ | _ | _ | members)
  case some.object => simp [parseDeezer, deezerKeys, CJson.isObject]
  all_goals rfl

theorem parse_blockRaw (members : List (CString × CJson)) :
    ∃ r, (recognitionFromJson p (.object members)).ok = some r ∧ r.previewLazy = false ∧
      r.streamingLazy .spotify = false ∧ ∀ b, r.blockRaw b =
        ((CJson.object members).block b).map fun wire =>
          b.textKeys.foldl (CJson.coerced p) wire := by
  refine ⟨_, recognitionFromJson_ok members, rfl, rfl, fun b => ?_⟩
  cases b with
  | appleMusic => exact parseAppleMusic_raw _
  | spotify => exact parseSpotify_raw _
  | deezer => exact parseDeezer_raw _

/-- The trees of `r'` are those of `r`, but for one block's, which has become `f` of what it was. -/
structure Recognition.Moves (r r' : Recognition) (b : Block) (f : Option CJson → Option CJson) :
    Prop where
  raw : ∀ b', r'.blockRaw b' = if b' = b then f (r.blockRaw b) else r.blockRaw b'
  previewLazy : r'.previewLazy = r.previewLazy
  streamingLazy : r'.streamingLazy = r.streamingLazy

theorem Recognition.Moves.of_fixed {f : Option CJson → Option CJson}
    (h : f (r.blockRaw b) = r.blockRaw b) : r.Moves r b f := by
  refine ⟨fun b' => ?_, rfl, rfl⟩
  split_ifs with hb
  · rw [hb, h]
  · rfl

theorem moves_appleMusic {m : AppleMusic} (hm : r.appleMusic = some m) {tree : Option CJson}
    {f : Option CJson → Option CJson} (hf : f m.raw = tree) :
    r.Moves { r with appleMusic := some { m with raw := tree } } .appleMusic f :=
  ⟨fun b' => by cases b' <;> simp [Recognition.blockRaw, hm, hf], rfl, rfl⟩

theorem moves_spotify {m : Spotify} (hm : r.spotify = some m) {tree : Option CJson}
    {f : Option CJson → Option CJson} (hf : f m.raw = tree) :
    r.Moves { r with spotify := some { m with raw := tree } } .spotify f :=
  ⟨fun b' => by cases b' <;> simp [Recognition.blockRaw, hm, hf], rfl, rfl⟩

theorem moves_deezer {m : Deezer} (hm : r.deezer = some m) {tree : Option CJson}
    {f : Option CJson → Option CJson} (hf : f m.raw = tree) :
    r.Moves { r with deezer := some { m with raw := tree } } .deezer f :=
  ⟨fun b' => by cases b' <;> simp [Recognition.blockRaw, hm, hf], rfl, rfl⟩

theorem extra_moves (r : Recognition) (b : Block) (key : CString) :
    (b.extra p r key).ok.1 = (blockExtra p (r.blockRaw b) key).ok.1 ∧
    r.Moves (b.extra p r key).ok.2 b fun tree => (blockExtra p tree key).ok.2 := by
  have hnone : (blockExtra p none key).ok = (none, none) := rfl
  cases b with
  | appleMusic =>
    cases hm : r.appleMusic with
    | none =>
      refine ⟨?_, fun b' => ?_, ?_, ?_⟩
      · simp [Block.extra, appleMusicExtra, Recognition.blockRaw, hm, hnone]
      · cases b' <;> simp [Block.extra, appleMusicExtra, Recognition.blockRaw, hm, hnone]
      · simp [Block.extra]
      · simp [Block.extra]
    | some m =>
      simp only [Block.extra, appleMusicExtra, hm, AllocM.ok_bind, AllocM.ok_pure]
      exact ⟨by rw [Recognition.blockRaw, hm]; rfl, moves_appleMusic hm rfl⟩
  | spotify =>
    cases hm : r.spotify with
    | none =>
      refine ⟨?_, fun b' => ?_, ?_, ?_⟩
      · simp [Block.extra, spotifyExtra, Recognition.blockRaw, hm, hnone]
      · cases b' <;> simp [Block.extra, spotifyExtra, Recognition.blockRaw, hm, hnone]
      · simp [Block.extra]
      · simp [Block.extra]
    | some m =>
      simp only [Block.extra, spotifyExtra, hm, AllocM.ok_bind, AllocM.ok_pure]
      exact ⟨by rw [Recognition.blockRaw, hm]; rfl, moves_spotify hm rfl⟩
  | deezer =>
    cases hm : r.deezer with
    | none =>
      refine ⟨?_, fun b' => ?_, ?_, ?_⟩
      · simp [Block.extra, deezerExtra, Recognition.blockRaw, hm, hnone]
      · cases b' <;> simp [Block.extra, deezerExtra, Recognition.blockRaw, hm, hnone]
      · simp [Block.extra]
      · simp [Block.extra]
    | some m =>
      simp only [Block.extra, deezerExtra, hm, AllocM.ok_bind, AllocM.ok_pure]
      exact ⟨by rw [Recognition.blockRaw, hm]; rfl, moves_deezer hm rfl⟩

theorem spotifyExternalUrl_ok (raw : CJson) : (spotifyExternalUrl p raw).ok.2 =
    raw.edit "external_urls" fun ext => ext.edit "spotify" (CJson.asText p) := by
  unfold spotifyExternalUrl
  split
  · rename_i urls hget
    rw [AllocM.ok_bind, jsonGetString_ok, CJson.edit_of_get hget, ← CJson.coerced_eq_edit]
    rfl
  · rename_i hnot
    cases hget : raw.getObjectItemCaseSensitive "external_urls" with
    | none => rw [CJson.edit_of_get_none hget, AllocM.ok_pure]
    | some ext =>
      have hnone : ext.getObjectItemCaseSensitive "spotify" = none := by
        cases ext with
        | object urls => exact absurd hget (hnot urls)
        | _ => rfl
      rw [CJson.edit_of_fixed hget (CJson.edit_of_get_none hnone), AllocM.ok_pure]

/-- A direct link is read from the blocks' fields, but for Spotify's. -/
theorem directStreamingUrl_moves (r : Recognition) (provider : Provider) :
    r.Moves (directStreamingUrl p r provider).ok.2 .spotify fun tree =>
      if provider = .spotify then
        tree.map fun raw => raw.edit "external_urls" fun ext => ext.edit "spotify" (CJson.asText p)
      else tree := by
  cases provider with
  | spotify =>
    simp only [directStreamingUrl, if_true]
    cases hm : r.spotify with
    | none => exact .of_fixed (by simp [Recognition.blockRaw, hm])
    | some m =>
      cases hraw : m.raw with
      | none =>
        simp only [Option.bind_some, hraw]
        exact .of_fixed (by simp [Recognition.blockRaw, hm, hraw])
      | some raw =>
        simp only [Option.bind_some, hraw, AllocM.ok_bind]
        split <;> exact moves_spotify hm (by rw [hraw, spotifyExternalUrl_ok]; rfl)
  | napster =>
    simp only [directStreamingUrl]
    split
    · simp only [AllocM.ok_bind, AllocM.ok_pure]
      exact ⟨fun b' => by cases b' <;> rfl, rfl, rfl⟩
    · exact .of_fixed rfl
  | _ =>
    simp only [directStreamingUrl, AllocM.ok_bind, AllocM.ok_pure]
    exact .of_fixed rfl

theorem ofNumber_spotify_iff {number : Nat} :
    Provider.ofNumber number = some .spotify ↔ number = 0 := by
  unfold Provider.ofNumber
  split <;> simp
  omega

/-- A first call for a provider. -/
theorem recognitionStreamingUrl_first {number : Nat} {provider : Provider}
    (hprovider : Provider.ofNumber number = some provider)
    (hlazy : r.streamingLazy provider = false) :
    let r' := (recognitionStreamingUrl p r number).ok.2
    (∀ b, r'.blockRaw b =
      if b = .spotify ∧ provider = .spotify then
        (r.blockRaw b).map fun raw =>
          raw.edit "external_urls" fun ext => ext.edit "spotify" (CJson.asText p)
      else r.blockRaw b) ∧
    r'.previewLazy = r.previewLazy ∧
    r'.streamingLazy = Function.update r.streamingLazy provider true := by
  intro r'
  have hr' : r' = (recognitionStreamingUrl p r number).ok.2 := rfl
  obtain ⟨urls, hkeep⟩ := recognitionStreamingUrl_keeps (p := p) hprovider hlazy
  obtain ⟨hraw, hpreview, hstreaming⟩ := directStreamingUrl_moves (p := p) { r with
    streamingLazy := Function.update r.streamingLazy provider true } provider
  rw [hr', hkeep]
  refine ⟨fun b => (hraw b).trans ?_, hpreview, hstreaming⟩
  by_cases hb : b = .spotify
  · subst hb
    simp only [if_true, true_and]
    rfl
  · simp only [hb, if_false, false_and]
    rfl

theorem recognitionStreamingUrl_moves (r : Recognition) (number : Nat) :
    let r' := (recognitionStreamingUrl p r number).ok.2
    (∀ b, r'.blockRaw b =
      if b = .spotify ∧ number = 0 ∧ r.streamingLazy .spotify = false then
        (r.blockRaw b).map fun raw =>
          raw.edit "external_urls" fun ext => ext.edit "spotify" (CJson.asText p)
      else r.blockRaw b) ∧
    r'.previewLazy = r.previewLazy ∧
    (r'.streamingLazy .spotify = true ↔ r.streamingLazy .spotify = true ∨ number = 0) := by
  intro r'
  -- a call that changes nothing is not the first one for Spotify
  have hidle : r' = r → (number = 0 → r.streamingLazy .spotify = true) →
      (∀ b, r'.blockRaw b =
        if b = .spotify ∧ number = 0 ∧ r.streamingLazy .spotify = false then
          (r.blockRaw b).map fun raw =>
            raw.edit "external_urls" fun ext => ext.edit "spotify" (CJson.asText p)
        else r.blockRaw b) ∧
      r'.previewLazy = r.previewLazy ∧
      (r'.streamingLazy .spotify = true ↔ r.streamingLazy .spotify = true ∨ number = 0) := by
    intro hsame hset
    rw [hsame]
    refine ⟨fun b => (if_neg ?_).symm, rfl, (or_iff_left_of_imp hset).symm⟩
    rintro ⟨-, hzero, hfalse⟩
    rw [hset hzero] at hfalse
    cases hfalse
  cases hprovider : Provider.ofNumber number with
  | none =>
    refine hidle (by simp [r', recognitionStreamingUrl, hprovider]) fun hzero => ?_
    rw [ofNumber_spotify_iff.mpr hzero] at hprovider
    cases hprovider
  | some provider =>
    have hspotify : provider = .spotify ↔ number = 0 := by
      rw [← ofNumber_spotify_iff, hprovider, Option.some.injEq]
    cases hlazy : r.streamingLazy provider with
    | true =>
      refine hidle (by simp [r', recognitionStreamingUrl, hprovider, hlazy]) fun hzero => ?_
      rw [← hspotify.mpr hzero, hlazy]
    | false =>
      obtain ⟨hraw, hpreview, hstreaming⟩ :=
        recognitionStreamingUrl_first (p := p) hprovider hlazy
      refine ⟨fun b => (hraw b).trans (if_congr (and_congr_right fun _ => ?_) rfl rfl), hpreview,
        ?_⟩
      · rw [hspotify, iff_self_and]
        intro hzero
        rw [← hspotify.mpr hzero, hlazy]
      · rw [hstreaming, ← hspotify, Function.update_apply]
        by_cases h : provider = .spotify
        · simp [h]
        · simp [h, Ne.symm h]

theorem applePreview_ok (raw : CJson) : (applePreview p raw).ok =
    (Block.appleMusic.previewIn p (some raw),
      raw.edit "previews" (Block.appleMusic.previewEdit p)) := by
  have hread : Block.appleMusic.previewIn p (some raw) =
      ((raw.getObjectItemCaseSensitive "previews").bind fun item =>
        (Block.appleMusic.previewNode item).bind (CJson.text p)) := rfl
  rw [hread]
  unfold applePreview
  split
  · rename_i ms rest hget
    rw [hget, CJson.edit_of_get hget, AllocM.ok_bind, jsonGetString_ok, textOf_eq,
      CJson.coerced_eq_edit]
    rfl
  · rename_i hnot
    rw [AllocM.ok_pure]
    cases hget : raw.getObjectItemCaseSensitive "previews" with
    | none => rw [CJson.edit_of_get_none hget, Option.bind_none]
    | some item =>
      rw [hget] at hnot
      have hnode : Block.appleMusic.previewNode item = none ∧
          Block.appleMusic.previewEdit p item = item := by
        rcases item with _ | _ | _ | _ | (_ | ⟨first, rest⟩) | _
        case array.cons =>
          cases first with
          | object ms => exact absurd rfl (hnot ms rest)
          | _ => exact ⟨rfl, rfl⟩
        all_goals exact ⟨rfl, rfl⟩
      rw [CJson.edit_of_fixed hget hnode.2, Option.bind_some, hnode.1, Option.bind_none]

theorem preview_absent (h : r.blockRaw b = none) : (b.preview p r).ok = (none, r) := by
  cases b with
  | appleMusic =>
    have h : r.appleMusic.bind AppleMusic.raw = none := h
    cases hm : r.appleMusic <;> simp_all [Block.preview]
  | spotify =>
    have h : r.spotify.bind Spotify.raw = none := h
    cases hm : r.spotify <;> simp_all [Block.preview]
  | deezer =>
    have h : r.deezer.bind Deezer.raw = none := h
    cases hm : r.deezer <;> simp_all [Block.preview]

theorem preview_moves (r : Recognition) (b : Block) :
    (b.preview p r).ok.1 = b.previewIn p (r.blockRaw b) ∧
    r.Moves (b.preview p r).ok.2 b
      (Option.map fun raw => raw.edit b.previewKey (b.previewEdit p)) := by
  cases hraw : r.blockRaw b with
  | none =>
    rw [preview_absent hraw]
    exact ⟨rfl, .of_fixed (by rw [hraw, Option.map_none])⟩
  | some raw =>
    cases b with
    | appleMusic =>
      obtain ⟨m, hm, hmraw⟩ := Option.bind_eq_some_iff.mp hraw
      have hok : (Block.appleMusic.preview p r).ok = (Block.appleMusic.previewIn p (some raw),
          { r with appleMusic := some { m with raw := some (raw.edit Block.appleMusic.previewKey
            (Block.appleMusic.previewEdit p)) } }) := by
        simp only [Block.preview, hm, Option.bind_some, hmraw, AllocM.ok_bind, applePreview_ok,
          AllocM.ok_pure]
        rfl
      rw [hok]
      exact ⟨rfl, moves_appleMusic hm (by rw [hmraw, Option.map_some])⟩
    | spotify =>
      obtain ⟨m, hm, hmraw⟩ := Option.bind_eq_some_iff.mp hraw
      have hok : (Block.spotify.preview p r).ok = (Block.spotify.previewIn p (some raw),
          { r with spotify := some { m with raw := some (raw.edit Block.spotify.previewKey
            (Block.spotify.previewEdit p)) } }) := by
        simp only [Block.preview, hm, Option.bind_some, hmraw, AllocM.ok_bind, jsonGetString_ok,
          textOf_eq, CJson.coerced_eq_edit,
          AllocM.ok_pure]
        rfl
      rw [hok]
      exact ⟨rfl, moves_spotify hm (by rw [hmraw, Option.map_some])⟩
    | deezer =>
      obtain ⟨m, hm, hmraw⟩ := Option.bind_eq_some_iff.mp hraw
      have hok : (Block.deezer.preview p r).ok = (Block.deezer.previewIn p (some raw),
          { r with deezer := some { m with raw := some (raw.edit Block.deezer.previewKey
            (Block.deezer.previewEdit p)) } }) := by
        simp only [Block.preview, hm, Option.bind_some, hmraw, AllocM.ok_bind, jsonGetString_ok,
          textOf_eq, CJson.coerced_eq_edit,
          AllocM.ok_pure]
        rfl
      rw [hok]
      exact ⟨rfl, moves_deezer hm (by rw [hmraw, Option.map_some])⟩

/-- The blocks that are searched until one has a preview. -/
def searched (read : Block → Option CString) : List Block → List Block
  | [] => []
  | b :: blocks => if (read b).getD [] ≠ [] then [b] else b :: searched read blocks

theorem searched_subset {read : Block → Option CString} {blocks : List Block}
    (h : b ∈ searched read blocks) : b ∈ blocks := by
  induction blocks with
  | nil => exact h
  | cons first blocks ih =>
    rw [searched] at h
    split_ifs at h
    · exact List.mem_cons.2 (.inl (List.mem_singleton.1 h))
    · exact List.mem_cons.2 ((List.mem_cons.1 h).imp_right ih)

theorem searched_congr {read read' : Block → Option CString} {blocks : List Block}
    (h : ∀ b ∈ blocks, read' b = read b) : searched read' blocks = searched read blocks := by
  induction blocks with
  | nil => rfl
  | cons b blocks ih =>
    rw [searched, searched, h b List.mem_cons_self,
      ih fun b' hb' => h b' (List.mem_cons_of_mem _ hb')]

/-- A search reads the blocks up to the first preview, and rewrites what it reads. -/
theorem firstPreview_moves (r : Recognition) {blocks : List Block} (hnodup : blocks.Nodup) :
    let r' := (firstPreview p r blocks).ok.2
    (∀ b, r'.blockRaw b =
      if b ∈ searched (fun b => b.previewIn p (r.blockRaw b)) blocks then
        (r.blockRaw b).map fun raw => raw.edit b.previewKey (b.previewEdit p)
      else r.blockRaw b) ∧
    r'.previewLazy = r.previewLazy ∧ r'.streamingLazy = r.streamingLazy := by
  induction blocks generalizing r with
  | nil => exact ⟨fun b => rfl, rfl, rfl⟩
  | cons first blocks ih =>
    obtain ⟨hfirst, hrest⟩ := List.nodup_cons.1 hnodup
    obtain ⟨hread, hraw, hlazy, hstreaming⟩ := preview_moves (p := p) r first
    simp only [firstPreview, AllocM.ok_bind]
    rw [hread]
    split
    · rename_i c u hsome
      have hstop : searched (fun b => b.previewIn p (r.blockRaw b)) (first :: blocks) = [first] :=
        if_pos (show (first.previewIn p (r.blockRaw first)).getD [] ≠ [] by
          rw [hsome]
          exact List.cons_ne_nil c u)
      refine ⟨fun b => (hraw b).trans ?_, hlazy, hstreaming⟩
      rw [hstop]
      by_cases hb : b = first
      · simp [hb]
      · simp [hb]
    · rename_i hnone
      have hempty : (first.previewIn p (r.blockRaw first)).getD [] = [] := by
        rcases hvalue : first.previewIn p (r.blockRaw first) with _ | _ | ⟨c, u⟩
        · rfl
        · rfl
        · exact absurd hvalue (hnone c u)
      obtain ⟨ihraw, ihlazy, ihstreaming⟩ := ih (first.preview p r).ok.2 hrest
      -- the blocks that follow are as they were
      have hlater : ∀ b, b ≠ first → (first.preview p r).ok.2.blockRaw b = r.blockRaw b :=
        fun b hb => (hraw b).trans (if_neg hb)
      have hsame : searched (fun b => b.previewIn p ((first.preview p r).ok.2.blockRaw b)) blocks =
          searched (fun b => b.previewIn p (r.blockRaw b)) blocks :=
        searched_congr fun b hb => by rw [hlater b fun heq => hfirst (heq ▸ hb)]
      have hgo : searched (fun b => b.previewIn p (r.blockRaw b)) (first :: blocks) =
          first :: searched (fun b => b.previewIn p (r.blockRaw b)) blocks :=
        if_neg (not_not_intro hempty)
      refine ⟨fun b => (ihraw b).trans ?_, ihlazy.trans hlazy, ihstreaming.trans hstreaming⟩
      rw [hsame, hgo]
      by_cases hb : b = first
      · subst hb
        rw [if_neg fun h => hfirst (searched_subset h), if_pos List.mem_cons_self, hraw, if_pos rfl]
      · rw [hlater b hb]
        simp only [List.mem_cons, hb, false_or]

theorem mem_searched_iff (o : CJson) : b ∈ searched (fun b => b.previewIn p (o.block b))
    [.appleMusic, .spotify, .deezer] ↔ o.PreviewReaches p b := by
  have hhas : ∀ b, o.HasPreview p b ↔ (b.previewIn p (o.block b)).getD [] ≠ [] := by
    intro b
    rw [CJson.HasPreview]
    rcases b.previewIn p (o.block b) with _ | _ | ⟨c, u⟩ <;> simp
  simp only [searched]
  cases b <;> simp only [CJson.PreviewReaches, hhas] <;> split_ifs <;> simp_all

end

/-! ### What the trees hold -/

section

variable {p : Platform} {o : CJson} {calls : List Accessor} {b : Block} {wire tree : CJson}

theorem keys_distinct (b : Block) : b.previewKey ∉ b.textKeys ∧
    "external_urls".toList ∉ b.textKeys ∧ "external_urls".toList ≠ b.previewKey := by
  cases b <;> decide

theorem keys_plain (b : Block) : (∀ key ∈ b.textKeys, ¬("_audd_extra_" : CString) <+: key) ∧
    ¬("_audd_extra_" : CString) <+: b.previewKey := by
  cases b <;> decide

open Classical in
/-- The value of a member in the block's tree after the calls. -/
noncomputable def Block.now (p : Platform) (o : CJson) (calls : List Accessor) (b : Block)
    (key : CString) (item : CJson) : CJson :=
  if key ∈ b.textKeys then item.asText p
  else if b = .spotify ∧ key = "external_urls" ∧ .streamingUrl 0 ∈ calls then
    item.edit "spotify" (CJson.asText p)
  else if key = b.previewKey ∧ .previewUrl ∈ calls ∧ o.PreviewReaches p b then b.previewEdit p item
  else item

theorem printUnformatted_previewEdit_iff (item : CJson) :
    printUnformatted p (b.previewEdit p item) = printUnformatted p item ↔
      ∀ node, b.previewNode item = some node → node.isScalar = false := by
  have hitem : printUnformatted p (item.asText p) = printUnformatted p item ↔
      ∀ node, some item = some node → node.isScalar = false := by
    rw [printUnformatted_asText_iff]
    simp
  cases b with
  | appleMusic =>
    rcases item with _ | _ | _ | _ | (_ | ⟨first, rest⟩) | _
    case array.cons =>
      simp only [Block.previewEdit, Block.previewNode]
      rw [printUnformatted_array_iff, printUnformatted_edit_iff]
      simp only [printUnformatted_asText_iff]
    all_goals exact iff_of_true rfl fun node h => by cases h
  | spotify => exact hitem
  | deezer => exact hitem

/-- A member prints as it came exactly if it was not rewritten. -/
theorem printUnformatted_now_iff (key : CString) (item : CJson) :
    printUnformatted p (b.now p o calls key item) = printUnformatted p item ↔
      ¬Rewritten p o calls b key item := by
  obtain ⟨hpreview, hurls, hdistinct⟩ := keys_distinct b
  unfold Block.now
  split_ifs with htext hstream hprev
  · rw [printUnformatted_asText_iff, ← Bool.not_eq_true, not_iff_not]
    refine ⟨.text htext, fun h => ?_⟩
    cases h with
    | text _ hitem => exact hitem
    | streaming => exact absurd htext hurls
    | preview => exact absurd htext hpreview
  · obtain ⟨rfl, rfl, hcall⟩ := hstream
    rw [printUnformatted_edit_iff]
    simp only [printUnformatted_asText_iff, ← Bool.not_eq_true]
    constructor
    · intro h hrewritten
      cases hrewritten with
      | text hkey => exact hurls hkey
      | streaming _ _ hnode hscalar => exact h _ hnode hscalar
    · exact fun h node hnode hscalar => h (.streaming rfl hcall hnode hscalar)
  · obtain ⟨rfl, hcall, hreaches⟩ := hprev
    rw [printUnformatted_previewEdit_iff]
    simp only [← Bool.not_eq_true]
    constructor
    · intro h hrewritten
      generalize hkey : b.previewKey = key at hrewritten
      cases hrewritten with
      | text htext => exact hpreview (hkey ▸ htext)
      | streaming => exact hdistinct hkey.symm
      | preview _ _ hnode hscalar => exact h _ hnode hscalar
    · exact fun h node hnode hscalar => h (.preview hcall hreaches hnode hscalar)
  · refine iff_of_true rfl fun h => ?_
    cases h with
    | text hkey => exact htext hkey
    | streaming hblock hcall => exact hstream ⟨hblock, rfl, hcall⟩
    | preview hcall hreaches => exact hprev ⟨rfl, hcall, hreaches⟩

open Classical in
/-- Only the calls that rewrite a member matter to it. -/
theorem now_congr {calls' : List Accessor} {key : CString}
    (hstreaming : b = .spotify → key = "external_urls" →
      (.streamingUrl 0 ∈ calls' ↔ .streamingUrl 0 ∈ calls))
    (hpreview : key = b.previewKey → o.PreviewReaches p b →
      (.previewUrl ∈ calls' ↔ .previewUrl ∈ calls)) :
    b.now p o calls' key = b.now p o calls key := by
  funext item
  have hurl : (b = .spotify ∧ key = "external_urls" ∧ .streamingUrl 0 ∈ calls') ↔
      b = .spotify ∧ key = "external_urls" ∧ .streamingUrl 0 ∈ calls :=
    and_congr_right fun hb => and_congr_right fun hkey => hstreaming hb hkey
  have hlink : (key = b.previewKey ∧ .previewUrl ∈ calls' ∧ o.PreviewReaches p b) ↔
      key = b.previewKey ∧ .previewUrl ∈ calls ∧ o.PreviewReaches p b :=
    and_congr_right fun hkey => and_congr_left fun hreaches => hpreview hkey hreaches
  exact if_congr Iff.rfl rfl (if_congr hurl rfl (if_congr hlink rfl rfl))

open Classical in
theorem now_externalUrls (item : CJson) : Block.spotify.now p o calls "external_urls" item =
    if .streamingUrl 0 ∈ calls then item.edit "spotify" (CJson.asText p) else item := by
  obtain ⟨-, hurls, hdistinct⟩ := keys_distinct .spotify
  rw [Block.now, if_neg hurls]
  by_cases hcall : .streamingUrl 0 ∈ calls
  · rw [if_pos hcall, if_pos ⟨rfl, rfl, hcall⟩]
  · rw [if_neg hcall, if_neg fun h => hcall h.2.2, if_neg fun h => hdistinct h.1]

open Classical in
theorem now_previewKey (item : CJson) : b.now p o calls b.previewKey item =
    if .previewUrl ∈ calls ∧ o.PreviewReaches p b then b.previewEdit p item else item := by
  obtain ⟨hpreview, -, hdistinct⟩ := keys_distinct b
  rw [Block.now, if_neg hpreview, if_neg fun h => hdistinct h.2.1.symm]
  exact if_congr (and_iff_right rfl) rfl rfl

theorem auxKey_eq (key : CString) :
    auxKey key = ("_audd_extra_" : CString) ++ key.take 115 := by
  rw [auxKey, List.take_append]
  rfl

theorem auxKey_starts (key : CString) : ("_audd_extra_" : CString) <+: auxKey key := by
  rw [auxKey_eq]
  exact List.prefix_append _ _

/-- A short key has its name to itself. -/
theorem auxKey_eq_iff {key key' : CString} (hlength : key.length < 100) :
    auxKey key' = auxKey key ↔ key' = key := by
  have hkey : key.take 115 = key := List.take_of_length_le (by omega)
  refine ⟨fun h => ?_, fun h => by rw [h]⟩
  rw [auxKey_eq, auxKey_eq, List.append_cancel_left_eq, hkey] at h
  have hshort : key'.length ≤ 115 := by
    have := congrArg List.length h
    rw [List.length_take] at this
    omega
  rwa [List.take_of_length_le hshort] at h

/-- The tree of a block after calls: its members as they have become, and under the name of a key
that was asked for the text that the first call printed. -/
structure BlockTree (p : Platform) (o : CJson) (calls : List Accessor) (b : Block)
    (wire tree : CJson) : Prop where
  isObject : tree.isObject = true
  plain : ∀ key, ¬("_audd_extra_" : CString) <+: key → tree.getObjectItemCaseSensitive key =
    (wire.getObjectItemCaseSensitive key).map (b.now p o calls key)
  aux : ∀ key, key.length < 100 → ¬("_audd_extra_" : CString) <+: key →
    tree.getObjectItemCaseSensitive (auxKey key) =
      (wire.getObjectItemCaseSensitive (auxKey key)).or
        ((upTo (Accessor.asks b key) calls).bind fun before =>
          (wire.getObjectItemCaseSensitive key).map fun item =>
            .string (printUnformatted p (b.now p o before key item)))

theorem blockTree_nil (hobject : wire.isObject = true) :
    BlockTree p o [] b wire (b.textKeys.foldl (CJson.coerced p) wire) := by
  refine ⟨by rw [CJson.isObject_coercedAll, hobject], fun key _ => ?_, fun key _ _ => ?_⟩
  · rw [CJson.get_coercedAll]
    by_cases hkey : key ∈ b.textKeys
    · rw [if_pos hkey]
      congr 1
      funext item
      exact (if_pos hkey).symm
    · rw [if_neg hkey]
      have hnow : b.now p o [] key = id := by
        funext item
        simp [Block.now, hkey]
      rw [hnow, Option.map_id_fun, id]
  · have hkey : auxKey key ∉ b.textKeys := fun hmem =>
      (keys_plain b).1 _ hmem (auxKey_starts key)
    rw [CJson.get_coercedAll, if_neg hkey, upTo, Option.bind_none, Option.or_none]

/-- A call that asks for no key of the block leaves the texts. -/
theorem BlockTree.call (h : BlockTree p o calls b wire tree) {call : Accessor} {tree' : CJson}
    (hobject : tree'.isObject = true)
    (hplain : ∀ key, ¬("_audd_extra_" : CString) <+: key → tree'.getObjectItemCaseSensitive key =
      (wire.getObjectItemCaseSensitive key).map (b.now p o (calls ++ [call]) key))
    (haux : ∀ key, ("_audd_extra_" : CString) <+: key →
      tree'.getObjectItemCaseSensitive key = tree.getObjectItemCaseSensitive key)
    (hasks : ∀ key, call.asks b key = false) :
    BlockTree p o (calls ++ [call]) b wire tree' := by
  refine ⟨hobject, hplain, fun key hlength hkey => ?_⟩
  rw [haux _ (auxKey_starts key), h.aux key hlength hkey, upTo_concat, hasks]
  simp only [Bool.false_eq_true, if_false, Option.or_none]

theorem BlockTree.call_same (h : BlockTree p o calls b wire tree) {call : Accessor}
    (hnow : ∀ key, b.now p o (calls ++ [call]) key = b.now p o calls key)
    (hasks : ∀ key, call.asks b key = false) : BlockTree p o (calls ++ [call]) b wire tree :=
  h.call h.isObject (fun key hkey => by rw [hnow, h.plain key hkey]) (fun _ _ => rfl) hasks

/-- A member edited in the tree. -/
theorem BlockTree.call_edit (h : BlockTree p o calls b wire tree) {call : Accessor}
    {key : CString} {f : CJson → CJson} (hkey : ¬("_audd_extra_" : CString) <+: key)
    (hself : ∀ item, b.now p o (calls ++ [call]) key item = f (b.now p o calls key item))
    (hother : ∀ k, k ≠ key → b.now p o (calls ++ [call]) k = b.now p o calls k)
    (hasks : ∀ key, call.asks b key = false) :
    BlockTree p o (calls ++ [call]) b wire (tree.edit key f) := by
  refine h.call (by rw [CJson.isObject_edit, h.isObject]) (fun k hk => ?_) (fun k hk => ?_) hasks
  · rw [CJson.get_edit, h.plain k hk]
    split_ifs with heq
    · subst heq
      rw [Option.map_map]
      congr 1
      funext item
      exact (hself item).symm
    · rw [hother k heq]
  · rw [CJson.get_edit, if_neg]
    rintro rfl
    exact hkey hk

/-! ### The extra of a block -/

theorem blockExtra_cached {key s : CString}
    (h : tree.getObjectItemCaseSensitive (auxKey key) = some (.string s)) :
    (blockExtra p (some tree) key).ok = (some s, some tree) := by
  simp only [blockExtra, h, AllocM.ok_pure]

theorem blockExtra_absent {key : CString}
    (h : ∀ s, tree.getObjectItemCaseSensitive (auxKey key) ≠ some (.string s))
    (hnone : tree.getObjectItemCaseSensitive key = none) :
    (blockExtra p (some tree) key).ok = (none, some tree) := by
  simp only [blockExtra, hnone, AllocM.ok_pure]

theorem blockExtra_printed {key : CString} {item : CJson}
    (h : ∀ s, tree.getObjectItemCaseSensitive (auxKey key) ≠ some (.string s))
    (hget : tree.getObjectItemCaseSensitive key = some item) :
    (blockExtra p (some tree) key).ok = (some (printUnformatted p item),
      some (tree.addStringToObject (auxKey key) (printUnformatted p item))) := by
  simp only [blockExtra, hget, AllocM.ok_bind, stash_ok, AllocM.ok_pure]

theorem blockExtra_tree (hobject : tree.isObject = true) (key : CString) :
    ∃ tree', (blockExtra p (some tree) key).ok.2 = some tree' ∧ tree'.isObject = true ∧
      ∀ k, tree'.getObjectItemCaseSensitive k = (tree.getObjectItemCaseSensitive k).or
        (if k = auxKey key then (tree.getObjectItemCaseSensitive key).map fun item =>
          .string (printUnformatted p item) else none) := by
  by_cases hcached : ∃ s, tree.getObjectItemCaseSensitive (auxKey key) = some (.string s)
  · obtain ⟨s, hs⟩ := hcached
    rw [blockExtra_cached hs]
    refine ⟨tree, rfl, hobject, fun k => ?_⟩
    split_ifs with hk
    · rw [hk, hs]
      rfl
    · rw [Option.or_none]
  · have hfresh := fun s hs => hcached ⟨s, hs⟩
    cases hget : tree.getObjectItemCaseSensitive key with
    | none =>
      rw [blockExtra_absent hfresh hget]
      refine ⟨tree, rfl, hobject, fun k => ?_⟩
      rw [Option.map_none]
      split_ifs <;> rw [Option.or_none]
    | some item =>
      rw [blockExtra_printed hfresh hget]
      exact ⟨_, rfl, by rw [CJson.isObject_addString, hobject],
        fun k => CJson.get_addString hobject _ _ k⟩

/-- An extra adds a text under the name of its own key, where there is none. -/
theorem BlockTree.call_extra (h : BlockTree p o calls b wire tree) (key : CString) :
    ∃ tree', (blockExtra p (some tree) key).ok.2 = some tree' ∧
      BlockTree p o (calls ++ [.blockExtra b key]) b wire tree' := by
  obtain ⟨tree', htree, hobject, hget⟩ := blockExtra_tree (p := p) h.isObject key
  have hnow : ∀ k, b.now p o (calls ++ [.blockExtra b key]) k = b.now p o calls k :=
    fun k => now_congr (fun _ _ => by simp) (fun _ _ => by simp)
  refine ⟨tree', htree, hobject, fun k hk => ?_, fun k hlength hk => ?_⟩
  · have hne : k ≠ auxKey key := by
      rintro rfl
      exact hk (auxKey_starts key)
    rw [hget, if_neg hne, Option.or_none, h.plain k hk, hnow]
  · rw [hget, h.aux k hlength hk, upTo_concat]
    by_cases hkey : key = k
    · subst hkey
      have hasks : Accessor.asks b key (.blockExtra b key) = true := by simp [Accessor.asks]
      rw [if_pos rfl, hasks, h.plain key hk, Option.or_assoc]
      congr 1
      cases hask : upTo (Accessor.asks b key) calls with
      | none => simp [Function.comp_def]
      | some before => cases wire.getObjectItemCaseSensitive key <;> rfl
    · have hasks : Accessor.asks b k (.blockExtra b key) = false := by simp [Accessor.asks, hkey]
      rw [if_neg fun heq => hkey ((auxKey_eq_iff hlength).1 heq.symm), Option.or_none, hasks]
      simp only [Bool.false_eq_true, if_false, Option.or_none]

/-- The answer of an extra, in the tree after any calls. -/
theorem BlockTree.answer_iff (h : BlockTree p o calls b wire tree) {key : CString} {item : CJson}
    (hitem : wire.getObjectItemCaseSensitive key = some item) (hlength : key.length < 100)
    (hkey : ¬("_audd_extra_" : CString) <+: key) :
    (blockExtra p (some tree) key).ok.1 = some (printUnformatted p item) ↔
      KeepsWire p o calls b wire key item := by
  have hget := h.plain key hkey
  have haux := h.aux key hlength hkey
  simp only [hitem, Option.map_some] at hget haux
  have hprinted : (∀ s, tree.getObjectItemCaseSensitive (auxKey key) ≠ some (.string s)) →
      ((blockExtra p (some tree) key).ok.1 = some (printUnformatted p item) ↔
        ¬Rewritten p o calls b key item) := by
    intro hfresh
    rw [blockExtra_printed hfresh hget, Option.some.injEq, printUnformatted_now_iff]
  cases hwire : wire.getObjectItemCaseSensitive (auxKey key) with
  | some found =>
    rw [hwire, Option.some_or] at haux
    by_cases hstring : ∃ s, found = .string s
    · obtain ⟨s, rfl⟩ := hstring
      rw [blockExtra_cached haux, Option.some.injEq]
      refine ⟨fun h => ⟨?_, ?_, ?_⟩, fun hkeeps => hkeeps.string s hwire⟩
      · intro s' hs'
        rw [hwire, Option.some.injEq, CJson.string.injEq] at hs'
        rw [← hs', h]
      · intro found hfound hnot
        exact absurd (Option.some.inj (hwire.symm.trans hfound)).symm (hnot s)
      · intro hnone
        rw [hwire] at hnone
        cases hnone
    · rw [hprinted fun s hs => hstring ⟨s, Option.some.inj (haux.symm.trans hs)⟩]
      refine ⟨fun h => ⟨?_, fun _ _ _ => h, ?_⟩, fun hkeeps => hkeeps.printed found hwire
        fun s hs => hstring ⟨s, hs⟩⟩
      · intro s hs
        exact absurd ⟨s, Option.some.inj (hwire.symm.trans hs)⟩ hstring
      · intro hnone
        rw [hwire] at hnone
        cases hnone
  | none =>
    have hkeeps : KeepsWire p o calls b wire key item ↔
        ¬Rewritten p o ((upTo (Accessor.asks b key) calls).getD calls) b key item := by
      rw [← takeWhile_eq_upTo]
      refine ⟨fun h => h.kept hwire, fun h => ⟨?_, ?_, fun _ => h⟩⟩
      · intro s hs
        rw [hwire] at hs
        cases hs
      · intro found hfound
        rw [hwire] at hfound
        cases hfound
    rw [hwire, Option.none_or] at haux
    rw [hkeeps]
    cases hask : upTo (Accessor.asks b key) calls with
    | none =>
      rw [hask, Option.bind_none] at haux
      exact hprinted fun s hs => by rw [haux] at hs; cases hs
    | some before =>
      rw [hask, Option.bind_some] at haux
      rw [blockExtra_cached haux, Option.some.injEq, printUnformatted_now_iff]
      rfl

/-! ### Any calls -/

/-- A recognition after calls on it. -/
structure Recognition.BlocksAfter (p : Platform) (o : CJson) (calls : List Accessor)
    (r : Recognition) : Prop where
  previewLazy : r.previewLazy = true ↔ .previewUrl ∈ calls
  streamingLazy : r.streamingLazy .spotify = true ↔ .streamingUrl 0 ∈ calls
  absent : ∀ b, o.block b = none → r.blockRaw b = none
  present : ∀ b wire, o.block b = some wire →
    ∃ tree, r.blockRaw b = some tree ∧ BlockTree p o calls b wire tree

variable {r : Recognition}

/-- A call that moves no tree and no flag. -/
theorem Recognition.BlocksAfter.call_same (h : r.BlocksAfter p o calls) {r' : Recognition}
    {call : Accessor} (hraw : r'.blockRaw = r.blockRaw) (hlazy : r'.previewLazy = r.previewLazy)
    (hstreaming : r'.streamingLazy = r.streamingLazy) (hpreview : call ≠ .previewUrl)
    (hstream : call ≠ .streamingUrl 0) (hasks : ∀ b key, call.asks b key = false) :
    r'.BlocksAfter p o (calls ++ [call]) := by
  have hpreview' : .previewUrl ∈ calls ++ [call] ↔ .previewUrl ∈ calls := by
    simp [hpreview.symm]
  have hstream' : .streamingUrl 0 ∈ calls ++ [call] ↔ .streamingUrl 0 ∈ calls := by
    simp [hstream.symm]
  refine ⟨by rw [hlazy, h.previewLazy, hpreview'], by rw [hstreaming, h.streamingLazy, hstream'],
    fun b hb => by rw [hraw, h.absent b hb], fun b wire hb => ?_⟩
  obtain ⟨tree, htree, hafter⟩ := h.present b wire hb
  refine ⟨tree, by rw [hraw, htree], hafter.call_same (fun key => ?_) fun key => hasks b key⟩
  exact now_congr (fun _ _ => hstream') (fun _ _ => hpreview')

theorem Recognition.BlocksAfter.call_extra (h : r.BlocksAfter p o calls) (b : Block)
    (key : CString) : (b.extra p r key).ok.2.BlocksAfter p o (calls ++ [.blockExtra b key]) := by
  obtain ⟨-, hraw, hlazy, hstreaming⟩ := extra_moves (p := p) r b key
  refine ⟨by rw [hlazy, h.previewLazy]; simp, by rw [hstreaming, h.streamingLazy]; simp,
    fun b' hb' => ?_, fun b' wire hb' => ?_⟩
  · rw [hraw]
    split_ifs with heq
    · subst heq
      rw [h.absent b' hb']
      rfl
    · exact h.absent b' hb'
  · obtain ⟨tree, htree, hafter⟩ := h.present b' wire hb'
    rw [hraw]
    split_ifs with heq
    · subst heq
      rw [htree]
      exact hafter.call_extra key
    · refine ⟨tree, htree, hafter.call_same (fun key => ?_) fun key' => ?_⟩
      · exact now_congr (fun _ _ => by simp) (fun _ _ => by simp)
      · simp [Accessor.asks, Ne.symm heq]

theorem Recognition.BlocksAfter.call_streaming (h : r.BlocksAfter p o calls) (number : Nat) :
    (recognitionStreamingUrl p r number).ok.2.BlocksAfter p o
      (calls ++ [.streamingUrl number]) := by
  obtain ⟨hraw, hlazy, hstreaming⟩ := recognitionStreamingUrl_moves (p := p) r number
  have hpreview : .previewUrl ∈ calls ++ [.streamingUrl number] ↔ .previewUrl ∈ calls := by simp
  have hstream : .streamingUrl 0 ∈ calls ++ [.streamingUrl number] ↔
      .streamingUrl 0 ∈ calls ∨ number = 0 := by
    simp [eq_comm]
  refine ⟨by rw [hlazy, h.previewLazy, hpreview], by rw [hstreaming, h.streamingLazy, hstream],
    fun b hb => ?_, fun b wire hb => ?_⟩
  · rw [hraw, h.absent b hb]
    split_ifs <;> rfl
  · obtain ⟨tree, htree, hafter⟩ := h.present b wire hb
    rw [hraw, htree]
    split_ifs with hfirst
    · obtain ⟨rfl, hzero, hnot⟩ := hfirst
      have hfresh : .streamingUrl 0 ∉ calls := by
        rw [← h.streamingLazy, hnot]
        exact Bool.false_ne_true
      refine ⟨_, rfl, hafter.call_edit (by decide) (fun item => ?_) (fun k hk => ?_) fun _ => rfl⟩
      · rw [now_externalUrls, now_externalUrls, if_pos (hstream.mpr (.inr hzero)), if_neg hfresh]
      · exact now_congr (fun _ hkey => absurd hkey hk) fun _ _ => hpreview
    · refine ⟨tree, rfl, hafter.call_same (fun key => ?_) fun _ => rfl⟩
      refine now_congr (fun hb _ => ?_) fun _ _ => hpreview
      rw [hstream]
      apply or_iff_left_of_imp
      intro hzero
      rw [← h.streamingLazy]
      by_contra hnot
      exact hfirst ⟨hb, hzero, by simpa using hnot⟩

/-- Until a preview is asked for, the previews are read as they came. -/
theorem Recognition.BlocksAfter.previewIn (h : r.BlocksAfter p o calls)
    (hfresh : .previewUrl ∉ calls) (b : Block) :
    b.previewIn p (r.blockRaw b) = b.previewIn p (o.block b) := by
  cases hb : o.block b with
  | none => rw [h.absent b hb]
  | some wire =>
    obtain ⟨tree, htree, hafter⟩ := h.present b wire hb
    have hsame : tree.getObjectItemCaseSensitive b.previewKey =
        wire.getObjectItemCaseSensitive b.previewKey := by
      have hnow : b.now p o calls b.previewKey = id := by
        funext item
        rw [now_previewKey, if_neg fun hcall => hfresh hcall.1, id]
      rw [hafter.plain _ (keys_plain b).2, hnow, Option.map_id_fun, id]
    rw [htree]
    simp only [Block.previewIn, Option.bind_eq_bind, Option.bind_some, hsame]

theorem Recognition.BlocksAfter.call_preview (h : r.BlocksAfter p o calls) :
    (recognitionPreviewUrl p r).ok.2.BlocksAfter p o (calls ++ [.previewUrl]) := by
  have hstream : .streamingUrl 0 ∈ calls ++ [.previewUrl] ↔ .streamingUrl 0 ∈ calls := by simp
  have hpreview : .previewUrl ∈ calls ++ [.previewUrl] := by simp
  cases hlazy : r.previewLazy with
  | true =>
    have hcalled := h.previewLazy.mp hlazy
    have hsame : (recognitionPreviewUrl p r).ok.2 = r := by
      rw [recognitionPreviewUrl, if_pos hlazy]
      rfl
    rw [hsame]
    refine ⟨iff_of_true hlazy hpreview, by rw [h.streamingLazy, hstream], h.absent,
      fun b wire hb => ?_⟩
    obtain ⟨tree, htree, hafter⟩ := h.present b wire hb
    refine ⟨tree, htree, hafter.call_same (fun key => ?_) fun _ => rfl⟩
    exact now_congr (fun _ _ => hstream) fun _ _ => iff_of_true hpreview hcalled
  | false =>
    have hfresh : .previewUrl ∉ calls := by
      rw [← h.previewLazy, hlazy]
      exact Bool.false_ne_true
    have hsearch : (recognitionPreviewUrl p r).ok.2 =
        (firstPreview p { r with previewLazy := true } [.appleMusic, .spotify, .deezer]).ok.2 := by
      rw [recognitionPreviewUrl, if_neg (by rw [hlazy]; exact Bool.false_ne_true)]
    have hnodup : [Block.appleMusic, .spotify, .deezer].Nodup := by decide
    obtain ⟨hraw, hset, hstreaming⟩ :=
      firstPreview_moves (p := p) { r with previewLazy := true } hnodup
    have hread : ∀ b, b ∈ searched (fun b => b.previewIn p (r.blockRaw b))
        [.appleMusic, .spotify, .deezer] ↔ o.PreviewReaches p b := by
      intro b
      rw [searched_congr fun b _ => h.previewIn hfresh b, mem_searched_iff]
    have hmoved : ∀ b, (recognitionPreviewUrl p r).ok.2.blockRaw b =
        if b ∈ searched (fun b => b.previewIn p (r.blockRaw b)) [.appleMusic, .spotify, .deezer]
        then (r.blockRaw b).map fun raw => raw.edit b.previewKey (b.previewEdit p)
        else r.blockRaw b := by
      rw [hsearch]
      exact hraw
    refine ⟨iff_of_true (by rw [hsearch, hset]) hpreview,
      by rw [hsearch, hstreaming, hstream]; exact h.streamingLazy, fun b hb => ?_,
      fun b wire hb => ?_⟩
    · rw [hmoved, h.absent b hb]
      split_ifs <;> rfl
    · obtain ⟨tree, htree, hafter⟩ := h.present b wire hb
      rw [hmoved, htree]
      split_ifs with hreached
      · have hreaches := (hread b).mp hreached
        refine ⟨_, rfl, hafter.call_edit (keys_plain b).2 (fun item => ?_) (fun k hk => ?_)
          fun _ => rfl⟩
        · rw [now_previewKey, now_previewKey, if_pos ⟨hpreview, hreaches⟩,
            if_neg fun hcall => hfresh hcall.1]
        · exact now_congr (fun _ _ => hstream) fun hkey => absurd hkey hk
      · refine ⟨tree, rfl, hafter.call_same (fun key => ?_) fun _ => rfl⟩
        exact now_congr (fun _ _ => hstream) fun _ hreaches =>
          absurd ((hread b).mpr hreaches) hreached

theorem Recognition.BlocksAfter.call (h : r.BlocksAfter p o calls) (call : Accessor) :
    (call.call p r).ok.2.BlocksAfter p o (calls ++ [call]) := by
  cases call with
  | getter read => exact h.call_same rfl rfl rfl (by simp) (by simp) fun _ _ => rfl
  | thumbnailUrl =>
    obtain ⟨url, asked, hkeep⟩ := thumbnailUrl_keeps r
    rw [Accessor.call, hkeep]
    exact h.call_same rfl rfl rfl (by simp) (by simp) fun _ _ => rfl
  | streamingUrl number => exact h.call_streaming number
  | previewUrl => exact h.call_preview
  | extra key =>
    obtain ⟨raw, hkeep⟩ := recognitionExtra_keeps (p := p) r key
    rw [Accessor.call, hkeep]
    exact h.call_same rfl rfl rfl (by simp) (by simp) fun _ _ => rfl
  | blockExtra b key => exact h.call_extra b key

/-- The extra of a block, after any calls: it is the member's text as it came exactly if the
member is kept until the extra is first asked for, and the server sent no text for it. -/
theorem blockExtra_faithful_iff (p : Platform) {members : List (CString × CJson)} {b : Block}
    {wire item : CJson} {key : CString} (hwire : (CJson.object members).block b = some wire)
    (hitem : wire.getObjectItemCaseSensitive key = some item) (hlength : key.length < 100)
    (hkey : ¬("_audd_extra_" : CString) <+: key) (calls : List Accessor) :
    ∃ r, (recognitionFromJson p (.object members)).ok = some r ∧
      ((b.extra p (r.after p calls) key).ok.1 = some (printUnformatted p item) ↔
        KeepsWire p (.object members) calls b wire key item) := by
  obtain ⟨r, hr, hlazy, hstreaming, hraw⟩ := parse_blockRaw (p := p) members
  refine ⟨r, hr, ?_⟩
  have hstart : r.BlocksAfter p (.object members) [] := by
    refine ⟨by simp [hlazy], by simp [hstreaming], fun b hb => ?_, fun b wire hb => ?_⟩
    · rw [hraw, hb, Option.map_none]
    · rw [hraw, hb]
      exact ⟨_, rfl, blockTree_nil (Option.filter_eq_some_iff.mp hb).2⟩
  have hafter : (r.after p calls).BlocksAfter p (.object members) calls :=
    foldl_history (I := fun calls (r : Recognition) => r.BlocksAfter p (.object members) calls)
      hstart (fun _ _ call h => h.call call) calls
  obtain ⟨tree, htree, hblock⟩ := hafter.present b wire hwire
  rw [(extra_moves _ b key).1, htree]
  exact hblock.answer_iff hitem hlength hkey

theorem blockExtra_faithful_rank :
    ∃ r, (recognitionFromJson .exact (.object [("deezer", .object [("rank", .bool true)])])).ok =
        some r ∧
      (Block.deezer.extra .exact (r.after .exact [.previewUrl]) "rank").ok.1 =
        some ("true" : CString) := by
  have hwire : (CJson.object [("deezer", .object [("rank", .bool true)])]).block .deezer =
      some (.object [("rank", .bool true)]) := rfl
  have hitem : (CJson.object [("rank", .bool true)]).getObjectItemCaseSensitive "rank" =
      some (.bool true) := rfl
  obtain ⟨r, hr, hiff⟩ :=
    blockExtra_faithful_iff .exact hwire hitem (by decide) (by decide) [.previewUrl]
  have hnone : (CJson.object [("rank", .bool true)]).getObjectItemCaseSensitive
      (auxKey "rank") = none := rfl
  refine ⟨r, hr, hiff.mpr ⟨?_, ?_, fun _ h => ?_⟩⟩
  · intro s hs
    cases hnone.symm.trans hs
  · intro found hfound
    cases hnone.symm.trans hfound
  · generalize hkey : ("rank" : CString) = key at h
    cases h with
    | text htext => exact absurd (hkey ▸ htext) (by decide)
    | streaming hblock => cases hblock
    | preview => exact absurd hkey (by decide)

/-- A boolean that was read as text prints in quotes: one that the parser reads at once, and one
that a link reads, from that call on. -/
theorem blockExtra_rewritten :
    (∃ r, (recognitionFromJson .exact
        (.object [("deezer", .object [("title", .bool true)])])).ok = some r ∧
      (deezerExtra .exact r.deezer "title").ok.1 = some ("\"true\"" : CString)) ∧
    (∃ r, (recognitionFromJson .exact
        (.object [("deezer", .object [("preview", .bool true)])])).ok = some r ∧
      (Block.deezer.extra .exact r "preview").ok.1 = some ("true" : CString) ∧
      (Block.deezer.extra .exact (r.after .exact [.previewUrl]) "preview").ok.1 =
        some ("\"true\"" : CString)) ∧
    printUnformatted .exact (.bool true) = ("true" : CString) :=
  ⟨⟨_, rfl, by decide⟩, ⟨_, rfl, by decide, by decide⟩, by decide⟩

end

end Audd
