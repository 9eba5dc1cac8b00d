import Audd.BlockExtras
import Audd.Lib.Uri

/-! The streaming link of a provider.  It is built when it is first asked for, from the blocks or
from the song link, and stays.  No accessor changes what it is built from. -/

namespace Audd

/-! ### What a link is built from -/

section

variable (p : Platform)

def CJson.externalUrl (raw : CJson) : Option CString :=
  (raw.getObjectItemCaseSensitive "external_urls").bind fun ext => ext.textOf p "spotify"

/-- The link into `lis.tn`, where the song link is one. -/
def Recognition.redirect (r : Recognition) (provider : Provider) : Option CString :=
  if songLinkIsLisTn r.songLink then
    r.songLink.map fun url => Uri.addParam url (providerName provider)
  else none

def Recognition.thumbnailLink (r : Recognition) : Option CString :=
  if songLinkIsLisTn r.songLink then r.songLink.map fun url => Uri.addParam url "thumb" else none

/-- The links that the recognition carries, the preferred first. -/
def Recognition.candidates (r : Recognition) (provider : Provider) : List (Option CString) :=
  (match provider with
    | .appleMusic => [r.appleMusic.bind AppleMusic.url]
    | .spotify => [(r.spotify.bind Spotify.raw).bind (CJson.externalUrl p),
        r.spotify.bind Spotify.uri]
    | .deezer => [r.deezer.bind Deezer.link]
    | .napster => [(r.napster.bind Napster.raw).bind (CJson.textOf p · "href")]
    | .youtube => []) ++ [r.redirect provider]

/-- The first link that is not empty. -/
def firstLink (candidates : List (Option CString)) : Option CString :=
  candidates.findSome? fun link => link.filter (· ≠ [])

/-- The direct link as the blocks give it: an external URL hides the other, though it be empty. -/
def Recognition.directLink (r : Recognition) : Provider → Option CString
  | .appleMusic => r.appleMusic.bind AppleMusic.url
  | .spotify => r.spotify.bind fun m => m.raw.bind fun raw =>
      (raw.externalUrl p).or (m.uri.filter (· ≠ []))
  | .deezer => r.deezer.bind Deezer.link
  | .napster => (r.napster.bind Napster.raw).bind (CJson.textOf p · "href")
  | .youtube => none

/-- The link that a first call builds. -/
def Recognition.linkOf (r : Recognition) (provider : Provider) : Option CString :=
  ((r.directLink p provider).filter (· ≠ [])).or (r.redirect provider)

end

section

variable {p : Platform} {r r' : Recognition} {provider : Provider}

theorem spotifyExternalUrl_read (raw : CJson) :
    (spotifyExternalUrl p raw).ok.1 = raw.externalUrl p := by
  unfold spotifyExternalUrl CJson.externalUrl
  split
  · rename_i urls hget
    rw [hget, AllocM.ok_bind, jsonGetString_ok, AllocM.ok_pure]
    rfl
  · rename_i hnot
    rcases hget : raw.getObjectItemCaseSensitive "external_urls" with _ | ext
    · rfl
    · cases ext with
      | object urls => exact absurd hget (hnot urls)
      | _ => rfl

theorem directStreamingUrl_link (r : Recognition) (provider : Provider) :
    (directStreamingUrl p r provider).ok.1 = r.directLink p provider := by
  cases provider with
  | spotify =>
    simp only [directStreamingUrl, Recognition.directLink]
    cases hm : r.spotify with
    | none => rfl
    | some m =>
      cases hraw : m.raw with
      | none => simp [hraw]
      | some raw =>
        simp only [Option.bind_some, hraw, AllocM.ok_bind, spotifyExternalUrl_read]
        rcases raw.externalUrl p with _ | u
        · rcases m.uri with _ | _ | ⟨c, uri⟩ <;> rfl
        · rfl
  | napster =>
    simp only [directStreamingUrl, Recognition.directLink]
    cases hm : r.napster with
    | none => rfl
    | some m => cases hraw : m.raw <;> simp [hraw]
  | _ => simp [directStreamingUrl, Recognition.directLink]

theorem redirect_ne_nil (r : Recognition) (provider : Provider) :
    (r.redirect provider).filter (· ≠ []) = r.redirect provider := by
  unfold Recognition.redirect
  split
  · cases r.songLink with
    | none => rfl
    | some url => simp [Uri.addParam, Option.filter_some]
  · rfl

@[simp] theorem firstLink_nil : firstLink [] = none := rfl

theorem firstLink_cons (link : Option CString) (rest : List (Option CString)) :
    firstLink (link :: rest) = (link.filter (· ≠ [])).or (firstLink rest) := by
  rw [firstLink, List.findSome?_cons]
  cases link.filter (· ≠ []) <;> rfl

/-! ### What the accessors keep -/

/-- The two recognitions have the same links, and have been asked for the same. -/
structure Recognition.SameLinks (p : Platform) (r r' : Recognition) : Prop where
  direct : ∀ provider, r'.directLink p provider = r.directLink p provider
  songLink : r'.songLink = r.songLink
  lazy : r'.streamingLazy = r.streamingLazy
  urls : r'.streamingUrls = r.streamingUrls
  thumbnailLazy : r'.thumbnailLazy = r.thumbnailLazy
  thumbnailUrl : r'.thumbnailUrl = r.thumbnailUrl

theorem Recognition.SameLinks.refl (r : Recognition) : r.SameLinks p r :=
  ⟨fun _ => rfl, rfl, rfl, rfl, rfl, rfl⟩

theorem Recognition.SameLinks.trans {r'' : Recognition} (h : r.SameLinks p r')
    (h' : r'.SameLinks p r'') : r.SameLinks p r'' :=
  ⟨fun provider => (h'.direct provider).trans (h.direct provider), h'.songLink.trans h.songLink,
    h'.lazy.trans h.lazy, h'.urls.trans h.urls, h'.thumbnailLazy.trans h.thumbnailLazy,
    h'.thumbnailUrl.trans h.thumbnailUrl⟩

theorem sameLinks_appleMusic {m : AppleMusic} (hm : r.appleMusic = some m) (raw : Option CJson) :
    r.SameLinks p { r with appleMusic := some { m with raw := raw } } := by
  refine ⟨fun provider => ?_, rfl, rfl, rfl, rfl, rfl⟩
  cases provider <;> simp [Recognition.directLink, hm]

theorem sameLinks_deezer {m : Deezer} (hm : r.deezer = some m) (raw : Option CJson) :
    r.SameLinks p { r with deezer := some { m with raw := raw } } := by
  refine ⟨fun provider => ?_, rfl, rfl, rfl, rfl, rfl⟩
  cases provider <;> simp [Recognition.directLink, hm]

theorem sameLinks_napster {m : Napster} (hm : r.napster = some m) {f : CJson → CJson}
    (hf : ∀ raw, m.raw = some raw → (f raw).textOf p "href" = raw.textOf p "href") :
    r.SameLinks p { r with napster := some { m with raw := m.raw.map f } } := by
  refine ⟨fun provider => ?_, rfl, rfl, rfl, rfl, rfl⟩
  cases provider with
  | napster =>
    simp only [Recognition.directLink, hm, Option.bind_some]
    cases hraw : m.raw with
    | none => rfl
    | some raw => exact hf raw hraw
  | _ => rfl

/-- Spotify's tree may change but for the external URL. -/
theorem sameLinks_spotify {m : Spotify} (hm : r.spotify = some m) {f : CJson → CJson}
    (hf : ∀ raw, m.raw = some raw → (f raw).externalUrl p = raw.externalUrl p) :
    r.SameLinks p { r with spotify := some { m with raw := m.raw.map f } } := by
  refine ⟨fun provider => ?_, rfl, rfl, rfl, rfl, rfl⟩
  cases provider with
  | spotify =>
    simp only [Recognition.directLink, hm, Option.bind_some]
    cases hraw : m.raw with
    | none => rfl
    | some raw => simp [hf raw hraw]
  | _ => rfl

theorem externalUrl_congr {raw raw' : CJson}
    (h : raw'.getObjectItemCaseSensitive "external_urls" =
      raw.getObjectItemCaseSensitive "external_urls") :
    raw'.externalUrl p = raw.externalUrl p := by
  rw [CJson.externalUrl, CJson.externalUrl, h]

theorem externalUrls_ne_auxKey (key : CString) : "external_urls".toList ≠ auxKey key := by
  intro heq
  have hstarts := auxKey_starts key
  rw [← heq] at hstarts
  exact absurd hstarts (by decide)

/-- An extra adds at most a member under its own name. -/
theorem blockExtra_raw (raw : Option CJson) (key : CString) :
    ∃ f : CJson → CJson, (blockExtra p raw key).ok.2 = raw.map f ∧
      ∀ tree k, k ≠ auxKey key →
        (f tree).getObjectItemCaseSensitive k = tree.getObjectItemCaseSensitive k := by
  cases raw with
  | none => exact ⟨id, rfl, fun _ _ _ => rfl⟩
  | some raw =>
    simp only [blockExtra]
    split
    · exact ⟨id, rfl, fun _ _ _ => rfl⟩
    · split
      · exact ⟨id, rfl, fun _ _ _ => rfl⟩
      · rename_i it _
        simp only [AllocM.ok_bind, stash_ok, AllocM.ok_pure]
        exact ⟨fun tree => tree.addStringToObject (auxKey key) (printUnformatted p it), rfl,
          fun tree k hk => CJson.get_addString_ne _ hk⟩

theorem extra_sameLinks (r : Recognition) (b : Block) (key : CString) :
    r.SameLinks p (b.extra p r key).ok.2 := by
  cases b with
  | appleMusic =>
    cases hm : r.appleMusic with
    | none =>
      simp only [Block.extra, appleMusicExtra, hm, AllocM.ok_bind, AllocM.ok_pure]
      refine ⟨fun provider => ?_, rfl, rfl, rfl, rfl, rfl⟩
      cases provider <;> simp [Recognition.directLink, hm]
    | some m =>
      simp only [Block.extra, appleMusicExtra, hm, AllocM.ok_bind, AllocM.ok_pure]
      exact sameLinks_appleMusic hm _
  | spotify =>
    cases hm : r.spotify with
    | none =>
      simp only [Block.extra, spotifyExtra, hm, AllocM.ok_bind, AllocM.ok_pure]
      refine ⟨fun provider => ?_, rfl, rfl, rfl, rfl, rfl⟩
      cases provider <;> simp [Recognition.directLink, hm]
    | some m =>
      simp only [Block.extra, spotifyExtra, hm, AllocM.ok_bind, AllocM.ok_pure]
      obtain ⟨f, hraw, hget⟩ := blockExtra_raw (p := p) m.raw key
      rw [hraw]
      exact sameLinks_spotify hm fun raw _ =>
        externalUrl_congr (hget raw _ (externalUrls_ne_auxKey key))
  | deezer =>
    cases hm : r.deezer with
    | none =>
      simp only [Block.extra, deezerExtra, hm, AllocM.ok_bind, AllocM.ok_pure]
      refine ⟨fun provider => ?_, rfl, rfl, rfl, rfl, rfl⟩
      cases provider <;> simp [Recognition.directLink, hm]
    | some m =>
      simp only [Block.extra, deezerExtra, hm, AllocM.ok_bind, AllocM.ok_pure]
      exact sameLinks_deezer hm _

theorem preview_sameLinks (r : Recognition) (b : Block) :
    r.SameLinks p (b.preview p r).ok.2 := by
  cases b with
  | appleMusic =>
    simp only [Block.preview]
    split
    · rename_i m raw hm hraw
      simp only [AllocM.ok_bind, AllocM.ok_pure]
      exact sameLinks_appleMusic hm _
    · exact .refl r
  | spotify =>
    simp only [Block.preview]
    split
    · rename_i m raw hm hraw
      rw [hm, Option.bind_some] at hraw
      simp only [AllocM.ok_bind, jsonGetString_ok, AllocM.ok_pure]
      have hsame := sameLinks_spotify (p := p) hm (f := fun raw => raw.coerced p "preview_url")
        fun raw _ => externalUrl_congr (get_coerced_ne (by decide))
      rwa [hraw] at hsame
    · exact .refl r
  | deezer =>
    simp only [Block.preview]
    split
    · rename_i m raw hm hraw
      simp only [AllocM.ok_bind, AllocM.ok_pure]
      exact sameLinks_deezer hm _
    · exact .refl r

theorem firstPreview_sameLinks (r : Recognition) (blocks : List Block) :
    r.SameLinks p (firstPreview p r blocks).ok.2 := by
  induction blocks generalizing r with
  | nil => exact .refl r
  | cons b blocks ih =>
    simp only [firstPreview, AllocM.ok_bind]
    have hfirst := preview_sameLinks (p := p) r b
    split
    · exact hfirst.trans ⟨fun _ => rfl, rfl, rfl, rfl, rfl, rfl⟩
    · exact hfirst.trans (ih _)

/-- The accessors that build no link keep all links. -/
theorem call_sameLinks (r : Recognition) {call : Accessor} (hthumbnail : call ≠ .thumbnailUrl)
    (hcall : ∀ number, call ≠ .streamingUrl number) : r.SameLinks p (call.call p r).ok.2 := by
  cases call with
  | getter read => exact .refl r
  | thumbnailUrl => exact absurd rfl hthumbnail
  | streamingUrl number => exact absurd rfl (hcall number)
  | previewUrl =>
    rw [Accessor.call, recognitionPreviewUrl]
    split
    · exact .refl r
    · have hmarked : r.SameLinks p { r with previewLazy := true } :=
        ⟨fun _ => rfl, rfl, rfl, rfl, rfl, rfl⟩
      exact hmarked.trans (firstPreview_sameLinks _ _)
  | extra key =>
    obtain ⟨raw, hkeep⟩ := recognitionExtra_keeps (p := p) r key
    rw [Accessor.call, hkeep]
    exact ⟨fun _ => rfl, rfl, rfl, rfl, rfl, rfl⟩
  | blockExtra b key => exact extra_sameLinks r b key

theorem text_asText (item : CJson) : (item.asText p).text p = item.text p := by
  rw [CJson.text, CJson.text, CJson.asText_asText]

/-- A text reads the same after it was read. -/
theorem textOf_edit_asText (obj : CJson) (key : CString) :
    (obj.edit key (CJson.asText p)).textOf p key = obj.textOf p key := by
  rw [textOf_eq, textOf_eq, CJson.get_edit, if_pos rfl]
  cases obj.getObjectItemCaseSensitive key with
  | none => rfl
  | some item => exact text_asText item

/-- Building a direct link keeps them too. -/
theorem directStreamingUrl_sameLinks (r : Recognition) (provider : Provider) :
    r.SameLinks p (directStreamingUrl p r provider).ok.2 := by
  cases provider with
  | spotify =>
    simp only [directStreamingUrl]
    split
    · rename_i m raw hm hraw
      rw [hm, Option.bind_some] at hraw
      have hread : ∀ raw, m.raw = some raw → (raw.edit "external_urls" fun ext =>
          ext.edit "spotify" (CJson.asText p)).externalUrl p = raw.externalUrl p := by
        intro raw _
        rw [CJson.externalUrl, CJson.externalUrl, CJson.get_edit, if_pos rfl]
        cases raw.getObjectItemCaseSensitive "external_urls" with
        | none => rfl
        | some ext => exact textOf_edit_asText ext "spotify"
      have hsame := sameLinks_spotify hm hread
      rw [hraw, Option.map_some] at hsame
      simp only [AllocM.ok_bind]
      split <;> simpa only [AllocM.ok_bind, AllocM.ok_pure, spotifyExternalUrl_ok] using hsame
    · exact .refl r
  | napster =>
    simp only [directStreamingUrl]
    split
    · rename_i m raw hm hraw
      rw [hm, Option.bind_some] at hraw
      have hsame := sameLinks_napster hm fun raw _ => textOf_edit_asText (p := p) raw "href"
      rw [hraw, Option.map_some] at hsame
      simpa only [AllocM.ok_bind, jsonGetString_ok, AllocM.ok_pure, CJson.coerced_eq_edit]
        using hsame
    · exact .refl r
  | _ =>
    simp only [directStreamingUrl, AllocM.ok_bind, AllocM.ok_pure]
    exact .refl r

/-! ### Runs -/

/-- After any calls, the links are those of the start, and those that were asked for are kept. -/
structure Recognition.Links (p : Platform) (r r' : Recognition) : Prop where
  direct : ∀ provider, r'.directLink p provider = r.directLink p provider
  songLink : r'.songLink = r.songLink
  kept : ∀ provider, r'.streamingUrls provider =
    if r'.streamingLazy provider then r.linkOf p provider else none
  thumbnail : r'.thumbnailUrl = if r'.thumbnailLazy then r.thumbnailLink else none

theorem Recognition.Links.linkOf (h : r.Links p r') (provider : Provider) :
    r'.linkOf p provider = r.linkOf p provider := by
  rw [Recognition.linkOf, Recognition.linkOf, Recognition.redirect, Recognition.redirect,
    h.direct, h.songLink]

theorem Recognition.Links.of_sameLinks {r'' : Recognition} (h : r.Links p r')
    (hsame : r'.SameLinks p r'') : r.Links p r'' :=
  ⟨fun provider => (hsame.direct provider).trans (h.direct provider),
    hsame.songLink.trans h.songLink, fun provider => by rw [hsame.urls, hsame.lazy, h.kept],
    by rw [hsame.thumbnailUrl, hsame.thumbnailLazy, h.thumbnail]⟩

theorem appendQparam_ok {url : Option CString} (h : songLinkIsLisTn url = true) (param : CString) :
    (appendQparam url param).ok = url.map fun url => Uri.addParam url param := by
  rcases url with _ | _ | ⟨c, url⟩
  · rfl
  · exact absurd h (by decide +kernel)
  · simp [appendQparam, Uri.addParam]

/-- Without a direct link, the redirect is given and kept. -/
theorem redirect_kept (hfree : r.streamingUrls provider = none) :
    (if songLinkIsLisTn r.songLink then do
        let url ← appendQparam r.songLink (providerName provider)
        pure (url, recognitionStreamingUrl.keep r provider url)
      else (pure (none, r) : AllocM (Option CString × Recognition))).ok =
    (r.redirect provider, recognitionStreamingUrl.keep r provider (r.redirect provider)) := by
  rw [Recognition.redirect]
  split
  · rename_i hlis
    rw [AllocM.ok_bind, AllocM.ok_pure, appendQparam_ok hlis]
  · rw [AllocM.ok_pure, recognitionStreamingUrl.keep, ← hfree, Function.update_eq_self]

/-- The first call for a provider gives the link that it keeps. -/
theorem recognitionStreamingUrl_first_link {number : Nat}
    (hprovider : Provider.ofNumber number = some provider)
    (hlazy : r.streamingLazy provider = false) (hfree : r.streamingUrls provider = none) :
    (recognitionStreamingUrl p r number).ok.1 = r.linkOf p provider ∧
    (recognitionStreamingUrl p r number).ok.2.streamingUrls =
      Function.update r.streamingUrls provider (r.linkOf p provider) := by
  have hlink := directStreamingUrl_link (p := p)
    { r with streamingLazy := Function.update r.streamingLazy provider true } provider
  have hsame := directStreamingUrl_sameLinks (p := p)
    { r with streamingLazy := Function.update r.streamingLazy provider true } provider
  have hdirect : ({ r with streamingLazy := Function.update r.streamingLazy provider true } :
      Recognition).directLink p provider = r.directLink p provider := by cases provider <;> rfl
  unfold recognitionStreamingUrl
  rw [hprovider]
  simp only [hlazy, Bool.false_eq_true, if_false, AllocM.ok_bind]
  generalize (directStreamingUrl p _ provider).ok = given at hlink hsame
  obtain ⟨direct, r₁⟩ := given
  have hurls : r₁.streamingUrls = r.streamingUrls := hsame.urls
  have hredirect : r₁.redirect provider = r.redirect provider := by
    have hsong : r₁.songLink = r.songLink := hsame.songLink
    rw [Recognition.redirect, Recognition.redirect, hsong]
  rw [hdirect] at hlink
  rw [Recognition.linkOf, ← hlink]
  have hfree₁ : r₁.streamingUrls provider = none := by rw [hurls, hfree]
  have hkept := redirect_kept hfree₁
  rw [hredirect] at hkept
  rcases direct with _ | _ | ⟨c, url⟩
  · rw [hkept, ← hurls]
    exact ⟨rfl, rfl⟩
  · rw [hkept, ← hurls]
    exact ⟨rfl, rfl⟩
  · exact ⟨rfl, by rw [← hurls]; rfl⟩

theorem recognitionStreamingUrl_links (r : Recognition) {number : Nat}
    (hprovider : Provider.ofNumber number = some provider)
    (hlazy : r.streamingLazy provider = false) :
    let r' := (recognitionStreamingUrl p r number).ok.2
    (∀ other, r'.directLink p other = r.directLink p other) ∧ r'.songLink = r.songLink ∧
      r'.streamingLazy = Function.update r.streamingLazy provider true ∧
      r'.thumbnailLazy = r.thumbnailLazy ∧ r'.thumbnailUrl = r.thumbnailUrl := by
  intro r'
  have hr' : r' = (recognitionStreamingUrl p r number).ok.2 := rfl
  obtain ⟨urls, hkeep⟩ := recognitionStreamingUrl_keeps (p := p) hprovider hlazy
  have hsame := directStreamingUrl_sameLinks (p := p)
    { r with streamingLazy := Function.update r.streamingLazy provider true } provider
  rw [hr', hkeep]
  refine ⟨fun other => ?_, hsame.songLink, hsame.lazy, hsame.thumbnailLazy, hsame.thumbnailUrl⟩
  have hother := hsame.direct other
  cases other <;> exact hother

/-- A call for a streaming link gives it and keeps the links. -/
theorem Recognition.Links.streaming (h : r.Links p r') {number : Nat}
    (hprovider : Provider.ofNumber number = some provider) :
    r.Links p (recognitionStreamingUrl p r' number).ok.2 ∧
      (recognitionStreamingUrl p r' number).ok.1 = r.linkOf p provider := by
  have hkept := h.kept provider
  cases hlazy : r'.streamingLazy provider with
  | true =>
    rw [hlazy, if_pos rfl] at hkept
    have hcached : recognitionStreamingUrl p r' number = pure (r'.streamingUrls provider, r') := by
      simp [recognitionStreamingUrl, hprovider, hlazy]
    rw [hcached, AllocM.ok_pure]
    exact ⟨h, hkept⟩
  | false =>
    rw [hlazy, if_neg Bool.false_ne_true] at hkept
    obtain ⟨hlink, hurls⟩ := recognitionStreamingUrl_first_link (p := p) hprovider hlazy hkept
    obtain ⟨hdirect, hsong, hasked, hthumbLazy, hthumbUrl⟩ :=
      recognitionStreamingUrl_links (p := p) r' hprovider hlazy
    refine ⟨⟨fun other => (hdirect other).trans (h.direct other), hsong.trans h.songLink,
      fun other => ?_, by rw [hthumbUrl, hthumbLazy, h.thumbnail]⟩, by rw [hlink, h.linkOf]⟩
    rw [hurls, hasked, Function.update_apply, Function.update_apply, h.linkOf]
    split
    · rename_i heq
      rw [heq, if_pos rfl]
    · exact h.kept other

theorem recognitionThumbnailUrl_first_link (hlazy : r.thumbnailLazy = false)
    (hfree : r.thumbnailUrl = none) : (recognitionThumbnailUrl r).ok =
      (r.thumbnailLink, { r with thumbnailLazy := true, thumbnailUrl := r.thumbnailLink }) := by
  unfold recognitionThumbnailUrl Recognition.thumbnailLink
  cases hlis : songLinkIsLisTn r.songLink with
  | true => simp [hlazy, hlis, appendQparam_ok hlis]
  | false => simp [hlazy, hlis, hfree]

/-- And so does a call for the thumbnail. -/
theorem Recognition.Links.thumbnailCall (h : r.Links p r') :
    r.Links p (recognitionThumbnailUrl r').ok.2 ∧
      (recognitionThumbnailUrl r').ok.1 = r.thumbnailLink := by
  have hkept := h.thumbnail
  have hlink : r'.thumbnailLink = r.thumbnailLink := by
    rw [Recognition.thumbnailLink, Recognition.thumbnailLink, h.songLink]
  cases hlazy : r'.thumbnailLazy with
  | true =>
    rw [hlazy, if_pos rfl] at hkept
    have hcached : recognitionThumbnailUrl r' = pure (r'.thumbnailUrl, r') := by
      rw [recognitionThumbnailUrl, if_pos hlazy]
    rw [hcached, AllocM.ok_pure]
    exact ⟨h, hkept⟩
  | false =>
    rw [hlazy, if_neg Bool.false_ne_true] at hkept
    rw [recognitionThumbnailUrl_first_link hlazy hkept]
    exact ⟨⟨h.direct, h.songLink, h.kept, hlink⟩, hlink⟩

theorem Recognition.Links.call (h : r.Links p r') (call : Accessor) :
    r.Links p (call.call p r').ok.2 := by
  by_cases hthumbnail : call = .thumbnailUrl
  · rw [hthumbnail]
    exact h.thumbnailCall.1
  · by_cases hstreaming : ∃ number, call = .streamingUrl number
    · obtain ⟨number, rfl⟩ := hstreaming
      cases hprovider : Provider.ofNumber number with
      | none =>
        have hsame : (Accessor.call p r' (.streamingUrl number)).ok.2 = r' := by
          simp [Accessor.call, recognitionStreamingUrl, hprovider]
        exact hsame.symm ▸ h
      | some provider => exact (h.streaming hprovider).1
    · exact h.of_sameLinks (call_sameLinks r' hthumbnail fun number heq => hstreaming ⟨number, heq⟩)

/-! ### Recognitions as the parser gives them -/

/-- No link has been asked for. -/
structure Recognition.Unasked (r : Recognition) : Prop where
  thumbnailLazy : r.thumbnailLazy = false
  thumbnailUrl : r.thumbnailUrl = none
  streamingLazy : ∀ provider, r.streamingLazy provider = false
  streamingUrls : ∀ provider, r.streamingUrls provider = none

theorem recognitionFromJson_unasked (o : CJson) :
    (recognitionFromJson p o).Every fun given => ∀ r, given = some r → r.Unasked := by
  rw [recognitionFromJson]
  split
  · rintro r hr
    cases hr
  · refine AllocM.every_bind_of_forall fun memory => ?_
    cases memory with
    | none =>
      rintro r hr
      cases hr
    | some _ =>
      iterate 16 refine AllocM.every_bind_of_forall fun _ => ?_
      rintro r hr
      obtain rfl := Option.some.inj hr
      exact ⟨rfl, rfl, fun _ => rfl, fun _ => rfl⟩

theorem parse_spotify_raw {o : CJson} (hr : (recognitionFromJson p o).ok = some r) {m : Spotify}
    (hm : r.spotify = some m) : m.raw ≠ none := by
  cases o with
  | object members =>
    rw [recognitionFromJson_ok] at hr
    obtain rfl := Option.some.inj hr
    rcases hblock : (CJson.object members).getObjectItemCaseSensitive "spotify" with
      _ | (_ | _ | _ | _ | _ | wire)
    case some.object =>
      simp only [hblock, parseSpotify, AllocM.ok_bind, AllocM.ok_copy, AllocM.ok_pure] at hm
      obtain rfl := Option.some.inj hm
      exact Option.some_ne_none _
    all_goals
      simp only [hblock] at hm
      cases hm
  | _ => cases hr

theorem Recognition.Unasked.links_after (hunasked : r.Unasked) (calls : List Accessor) :
    r.Links p (r.after p calls) := by
  refine foldl_history (I := fun _ r' => r.Links p r')
    ⟨fun _ => rfl, rfl, fun provider => ?_, ?_⟩ (fun _ _ call h => h.call call) calls
  · rw [hunasked.streamingUrls, hunasked.streamingLazy]
    rfl
  · rw [hunasked.thumbnailUrl, hunasked.thumbnailLazy]
    rfl

/-- Which links the preference agrees with: Spotify's second one is hidden by an external URL that
is empty. -/
theorem linkOf_eq_firstLink_iff {o : CJson} (hr : (recognitionFromJson p o).ok = some r)
    (provider : Provider) : r.linkOf p provider = firstLink (r.candidates p provider) ↔
      (provider = .spotify → (r.spotify.bind Spotify.raw).bind (CJson.externalUrl p) = some [] →
        ∀ uri, r.spotify.bind Spotify.uri = some uri → uri ≠ [] →
          r.redirect provider = some uri) := by
  have hredirect := redirect_ne_nil r provider
  by_cases hprovider : provider = .spotify
  · subst hprovider
    simp only [Recognition.linkOf, Recognition.directLink, Recognition.candidates,
      List.cons_append, List.nil_append, firstLink_cons, firstLink_nil, Option.or_none, hredirect,
      forall_const]
    cases hm : r.spotify with
    | none => simp
    | some m =>
      obtain ⟨raw, hraw⟩ := Option.ne_none_iff_exists'.mp (parse_spotify_raw hr hm)
      simp only [Option.bind_some, hraw]
      rcases raw.externalUrl p with _ | _ | ⟨c, url⟩
      · simp
      · rcases m.uri with _ | _ | ⟨c, uri⟩ <;> simp [Option.filter_some]
      · simp [Option.filter_some]
  · refine iff_of_true ?_ fun h => absurd h hprovider
    cases provider with
    | spotify => exact absurd rfl hprovider
    | _ =>
      simp only [Recognition.linkOf, Recognition.directLink, Recognition.candidates,
        List.cons_append, List.nil_append, firstLink_cons, firstLink_nil, Option.or_none,
        Option.filter_none, Option.none_or, hredirect]

end

/-- A streaming link, after any calls. -/
theorem recognitionStreamingUrl_preferred_iff (p : Platform) {o : CJson} {r : Recognition}
    (hr : (recognitionFromJson p o).ok = some r) {number : Nat} {provider : Provider}
    (hprovider : Provider.ofNumber number = some provider) (calls : List Accessor) :
    (recognitionStreamingUrl p (r.after p calls) number).ok.1 =
        firstLink (r.candidates p provider) ∧
      (∀ later, (recognitionStreamingUrl p (r.after p (calls ++ later)) number).ok.1 =
        (recognitionStreamingUrl p (r.after p calls) number).ok.1) ↔
      (provider = .spotify → (r.spotify.bind Spotify.raw).bind (CJson.externalUrl p) = some [] →
        ∀ uri, r.spotify.bind Spotify.uri = some uri → uri ≠ [] →
          r.redirect provider = some uri) := by
  have hunasked := (recognitionFromJson_unasked o).ok r hr
  have hgives : ∀ calls,
      (recognitionStreamingUrl p (r.after p calls) number).ok.1 = r.linkOf p provider :=
    fun calls => ((hunasked.links_after calls).streaming hprovider).2
  simp only [hgives]
  rw [linkOf_eq_firstLink_iff hr]
  exact and_iff_left fun _ => trivial

theorem spotifyUri_preferred : ∃ r,
    (recognitionFromJson .exact (.object [("spotify", .object [("uri", .string "track")])])).ok =
      some r ∧
    (recognitionStreamingUrl .exact (r.after .exact [.previewUrl]) 0).ok.1 =
      firstLink (r.candidates .exact .spotify) := by
  have hr := recognitionFromJson_ok (p := .exact)
    [("spotify", .object [("uri", .string "track")])]
  have hspotify : Provider.ofNumber 0 = some .spotify := rfl
  refine ⟨_, hr, ((recognitionStreamingUrl_preferred_iff .exact hr hspotify [.previewUrl]).mpr
    fun _ hempty => ?_).1⟩
  cases hempty

/-- An external URL that is empty hides the URI. -/
theorem emptyExternalUrl_hides : ∃ r,
    (recognitionFromJson .exact (.object [("spotify", .object
      [("external_urls", .object [("spotify", .string [])]), ("uri", .string "track")])])).ok =
      some r ∧
    (recognitionStreamingUrl .exact (r.after .exact []) 0).ok.1 = none ∧
    firstLink (r.candidates .exact .spotify) = some ("track" : CString) := by
  refine ⟨_, recognitionFromJson_ok _, ?_, ?_⟩
  · decide +kernel
  · decide +kernel

end Audd
