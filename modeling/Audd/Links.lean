import Audd.Enterprise
import Audd.Hostname
import Audd.StreamingUrl

/-! The links of an enterprise match, beside those of a recognition.  The two are built by separate
functions from the same song link.  Each kind keeps the hosts of the song link, and the two agree
where the recognition carries no blocks. -/

namespace Audd

def providerStr : Provider → CString
  | .spotify => "spotify"
  | .appleMusic => "apple_music"
  | .deezer => "deezer"
  | .napster => "napster"
  | .youtube => "youtube"

def enterpriseMatchThumbnailUrl (m : EnterpriseMatch) : AllocM (Option CString × EnterpriseMatch) :=
  if m.thumbLazy then pure (m.thumbnailUrl, m)
  else
    let m := { m with thumbLazy := true }
    match m.songLink with
    | none => pure (none, m)
    | some songLink =>
      if !urlHostnameIs (some songLink) "lis.tn" then pure (none, m)
      else do
        let sep := if '?' ∈ songLink then '&' else '?'
        let url ← AllocM.copy (songLink ++ [sep] ++ "thumb")
        pure (url, { m with thumbnailUrl := url })

def enterpriseMatchStreamingUrl (m : EnterpriseMatch) (number : Nat) :
    AllocM (Option CString × EnterpriseMatch) :=
  match Provider.ofNumber number with
  | none => pure (none, m)
  | some provider =>
    if m.streamLazy provider then pure (m.streamingUrls provider, m)
    else
      let m := { m with streamLazy := Function.update m.streamLazy provider true }
      match m.songLink with
      | none => pure (none, m)
      | some songLink =>
        if !urlHostnameIs (some songLink) "lis.tn" then pure (none, m)
        else do
          let sep := if '?' ∈ songLink then '&' else '?'
          let url ← AllocM.copy (songLink ++ [sep] ++ providerStr provider)
          pure (url, { m with streamingUrls := Function.update m.streamingUrls provider url })

/-- A call for a link, of a match or of a recognition. -/
inductive LinkCall
  | thumbnail
  | streaming (provider : Nat)

def LinkCall.onMatch (m : EnterpriseMatch) : LinkCall → AllocM (Option CString × EnterpriseMatch)
  | .thumbnail => enterpriseMatchThumbnailUrl m
  | .streaming provider => enterpriseMatchStreamingUrl m provider

def LinkCall.onRecognition (p : Platform) (r : Recognition) :
    LinkCall → AllocM (Option CString × Recognition)
  | .thumbnail => recognitionThumbnailUrl r
  | .streaming provider => recognitionStreamingUrl p r provider

def LinkCall.accessor : LinkCall → Accessor
  | .thumbnail => .thumbnailUrl
  | .streaming provider => .streamingUrl provider

/-- The match after calls whose memory is granted. -/
def EnterpriseMatch.after (m : EnterpriseMatch) (calls : List LinkCall) : EnterpriseMatch :=
  calls.foldl (fun m call => (call.onMatch m).ok.2) m

/-! ### Hosts -/

section

variable {u : CString}

theorem exists_of_urlIsHttp (h : urlIsHttp u = true) :
    ∃ scheme rest : CString, u = scheme ++ ("://" : CString) ++ rest ∧ ':' ∉ scheme ∧
      '?' ∉ scheme := by
  rcases Bool.or_eq_true_iff.1 h with h | h
  · obtain ⟨rest, rfl⟩ := List.isPrefixOf_iff_prefix.1 h
    exact ⟨"http", rest, rfl, by decide, by decide⟩
  · obtain ⟨rest, rfl⟩ := List.isPrefixOf_iff_prefix.1 h
    exact ⟨"https", rest, rfl, by decide, by decide⟩

/-- A parameter added to an HTTP URL does not change its hosts: the separator comes after the
authority. -/
theorem urlHostnameIs_addParam (h : urlIsHttp u = true) (param host : CString) :
    urlHostnameIs (some (Uri.addParam u param)) host = urlHostnameIs (some u) host := by
  obtain ⟨scheme, rest, rfl, hcolon, hquery⟩ := exists_of_urlIsHttp h
  have hfirst : afterFirst "://" (scheme ++ ("://" : CString) ++ rest) = some rest :=
    afterFirst_of_not_mem hcolon ['/', '/'] rest
  rw [urlHostnameIs_eq, urlHostnameIs_eq, Uri.addParam, afterFirst_append hfirst, hfirst,
    Option.any_some, Option.any_some, Uri.authorityOf_append]
  by_cases hmem : '?' ∈ rest
  · exact .inl ⟨'?', hmem, by decide⟩
  · have hnone : '?' ∉ scheme ++ ("://" : CString) ++ rest := by
      rw [List.mem_append, List.mem_append]
      rintro ((hmem' | hmem') | hmem')
      · exact hquery hmem'
      · exact absurd hmem' (by decide)
      · exact hmem hmem'
    rw [if_neg hnone]
    refine .inr fun c hc => ?_
    obtain rfl := Option.some.inj hc
    decide

end

/-! ### A match and a recognition on one schedule -/

/-- The recognition carries none of the blocks that have links. -/
structure Recognition.Bare (r : Recognition) : Prop where
  appleMusic : r.appleMusic = none
  spotify : r.spotify = none
  deezer : r.deezer = none
  napster : r.napster = none

/-- The recognition and the match have the same song link, and were asked for the same links. -/
structure SameLinkState (r : Recognition) (m : EnterpriseMatch) : Prop where
  bare : r.Bare
  songLink : m.songLink = r.songLink
  thumbLazy : m.thumbLazy = r.thumbnailLazy
  thumbnailUrl : m.thumbnailUrl = r.thumbnailUrl
  streamLazy : m.streamLazy = r.streamingLazy
  streamingUrls : m.streamingUrls = r.streamingUrls

/-- The same answer, and states that stay the same. -/
def SameAnswer (x : Option CString × Recognition) (y : Option CString × EnterpriseMatch) : Prop :=
  x.1 = y.1 ∧ SameLinkState x.2 y.2

section

variable {p : Platform} {r : Recognition} {m : EnterpriseMatch}

theorem directStreamingUrl_bare (h : r.Bare) (provider : Provider) :
    directStreamingUrl p r provider = pure (none, r) := by
  cases provider with
  | appleMusic => rw [directStreamingUrl, h.appleMusic]; rfl
  | spotify => rw [directStreamingUrl, h.spotify]
  | deezer => rw [directStreamingUrl, h.deezer]; rfl
  | napster => rw [directStreamingUrl, h.napster]
  | youtube => rfl

theorem providerStr_eq (provider : Provider) : providerStr provider = providerName provider := by
  cases provider <;> rfl

/-- A song link on `lis.tn` is not empty. -/
theorem appendQparam_of_lisTn {songLink : CString}
    (h : urlHostnameIs (some songLink) "lis.tn" = true) (param : CString) :
    appendQparam (some songLink) param =
      AllocM.copy (songLink ++ [if '?' ∈ songLink then '&' else '?'] ++ param) := by
  cases songLink with
  | nil => exact absurd h (by decide +kernel)
  | cons c songLink => rfl

theorem Recognition.Bare.of_blocks {r' : Recognition} (h : r.Bare)
    (happle : r'.appleMusic = r.appleMusic) (hspotify : r'.spotify = r.spotify)
    (hdeezer : r'.deezer = r.deezer) (hnapster : r'.napster = r.napster) : r'.Bare :=
  ⟨happle.trans h.appleMusic, hspotify.trans h.spotify, hdeezer.trans h.deezer,
    hnapster.trans h.napster⟩

theorem appendQparam_of_http {u : CString} (h : urlIsHttp u = true) (param : CString) :
    appendQparam (some u) param = AllocM.copy (Uri.addParam u param) := by
  cases u with
  | nil => exact absurd h (by decide)
  | cons c u => simp [appendQparam, Uri.addParam]

theorem SameLinkState.askedThumbnail (h : SameLinkState r m) :
    SameLinkState { r with thumbnailLazy := true } { m with thumbLazy := true } :=
  ⟨h.bare.of_blocks rfl rfl rfl rfl, h.songLink, rfl, h.thumbnailUrl, h.streamLazy,
    h.streamingUrls⟩

theorem SameLinkState.keptThumbnail (h : SameLinkState r m) (url : Option CString) :
    SameLinkState { r with thumbnailUrl := url } { m with thumbnailUrl := url } :=
  ⟨h.bare.of_blocks rfl rfl rfl rfl, h.songLink, h.thumbLazy, rfl, h.streamLazy, h.streamingUrls⟩

theorem SameLinkState.askedStreaming (h : SameLinkState r m) (provider : Provider) :
    SameLinkState { r with streamingLazy := Function.update r.streamingLazy provider true }
      { m with streamLazy := Function.update m.streamLazy provider true } :=
  ⟨h.bare.of_blocks rfl rfl rfl rfl, h.songLink, h.thumbLazy, h.thumbnailUrl,
    congrArg (Function.update · provider true) h.streamLazy, h.streamingUrls⟩

theorem SameLinkState.keptStreaming (h : SameLinkState r m) (provider : Provider)
    (url : Option CString) :
    SameLinkState { r with streamingUrls := Function.update r.streamingUrls provider url }
      { m with streamingUrls := Function.update m.streamingUrls provider url } :=
  ⟨h.bare.of_blocks rfl rfl rfl rfl, h.songLink, h.thumbLazy, h.thumbnailUrl, h.streamLazy,
    congrArg (Function.update · provider url) h.streamingUrls⟩

/-- The redirect that the two build. -/
theorem SameLinkState.redirect (h : SameLinkState r m) (param : CString)
    {keep : Option CString → Recognition} {keep' : Option CString → EnterpriseMatch}
    (hkeep : ∀ url, SameLinkState (keep url) (keep' url)) :
    AllocM.Alike SameAnswer
      (if songLinkIsLisTn r.songLink then do
        let url ← appendQparam r.songLink param
        pure (url, keep url)
      else pure (none, r))
      (match m.songLink with
      | none => pure (none, m)
      | some songLink =>
        if !urlHostnameIs (some songLink) "lis.tn" then pure (none, m)
        else do
          let sep := if '?' ∈ songLink then '&' else '?'
          let url ← AllocM.copy (songLink ++ [sep] ++ param)
          pure (url, keep' url)) := by
  rw [h.songLink, songLinkIsLisTn]
  cases r.songLink with
  | none => exact ⟨rfl, h⟩
  | some songLink =>
    dsimp only
    cases hlis : urlHostnameIs (some songLink) "lis.tn" with
    | false => exact ⟨rfl, h⟩
    | true =>
      rw [if_pos rfl, if_neg (by decide), appendQparam_of_lisTn hlis]
      refine (AllocM.alike_self _).bind ?_
      rintro url _ rfl
      exact ⟨rfl, hkeep url⟩

theorem SameLinkState.thumbnail (h : SameLinkState r m) :
    (recognitionThumbnailUrl r).Alike SameAnswer (enterpriseMatchThumbnailUrl m) := by
  unfold recognitionThumbnailUrl enterpriseMatchThumbnailUrl
  rw [h.thumbLazy]
  cases r.thumbnailLazy with
  | true => exact ⟨h.thumbnailUrl.symm, h⟩
  | false =>
    have hredirect := h.askedThumbnail.redirect "thumb" h.askedThumbnail.keptThumbnail
    cases hlis : songLinkIsLisTn r.songLink with
    | true =>
      simpa only [hlis, Bool.not_true, Bool.false_eq_true, if_false, if_true] using hredirect
    | false =>
      simpa only [hlis, Bool.not_false, Bool.false_eq_true, if_false, if_true] using hredirect

theorem SameLinkState.streaming (h : SameLinkState r m) (number : Nat) :
    (recognitionStreamingUrl p r number).Alike SameAnswer
      (enterpriseMatchStreamingUrl m number) := by
  unfold recognitionStreamingUrl enterpriseMatchStreamingUrl
  cases Provider.ofNumber number with
  | none => exact ⟨rfl, h⟩
  | some provider =>
    dsimp only
    rw [congrFun h.streamLazy provider]
    cases r.streamingLazy provider with
    | true => exact ⟨congrFun h.streamingUrls.symm provider, h⟩
    | false =>
      have hasked := h.askedStreaming provider
      rw [if_neg Bool.false_ne_true, if_neg Bool.false_ne_true, directStreamingUrl_bare hasked.bare,
        AllocM.pure_bind, providerStr_eq]
      exact hasked.redirect (providerName provider) (hasked.keptStreaming provider)

/-- One call answers alike. -/
theorem SameLinkState.call (h : SameLinkState r m) (call : LinkCall) :
    (call.onRecognition p r).Alike SameAnswer (call.onMatch m) := by
  cases call with
  | thumbnail => exact h.thumbnail
  | streaming number => exact h.streaming number

/-! ### Matches as the parser gives them -/

/-- No link has been asked for. -/
structure EnterpriseMatch.Unasked (m : EnterpriseMatch) : Prop where
  thumbLazy : m.thumbLazy = false
  thumbnailUrl : m.thumbnailUrl = none
  streamLazy : m.streamLazy = fun _ => false
  streamingUrls : m.streamingUrls = fun _ => none

theorem matchFromJson_unasked (song : CJson) (base : Option CDouble) :
    (matchFromJson p song base).Every EnterpriseMatch.Unasked := by
  rw [matchFromJson]
  iterate 9 refine AllocM.every_bind_of_forall fun _ => ?_
  exact ⟨rfl, rfl, rfl, rfl⟩

theorem fillSongs_unasked (base : Option CDouble) (count : Nat) (songs : List CJson) :
    (fillSongs p base count songs).Every fun stores => ∀ store ∈ stores, store.2.Unasked := by
  induction songs generalizing count with
  | nil => exact fun _ h => nomatch h
  | cons song songs ih =>
    rw [fillSongs]
    split
    · exact ih count
    · refine (matchFromJson_unasked song base).bind fun m hm => (ih _).bind fun stores hstores => ?_
      exact List.forall_mem_cons.mpr ⟨hm, hstores⟩

theorem fillChunks_unasked (count : Nat) (chunks : List CJson) :
    (fillChunks p count chunks).Every fun stores => ∀ store ∈ stores, store.2.Unasked := by
  induction chunks generalizing count with
  | nil => exact fun _ h => nomatch h
  | cons chunk chunks ih =>
    rw [fillChunks]
    split
    · exact ih count
    · refine AllocM.every_bind_of_forall fun _ => ?_
      refine (fillSongs_unasked _ _ _).bind fun stores hstores => (ih _).bind fun more hmore => ?_
      exact List.forall_mem_append.mpr ⟨hstores, hmore⟩

theorem enterpriseFromJson_unasked (resultArr : Option CJson) :
    (enterpriseFromJson p resultArr).Every fun given =>
      ∀ result, given = some result → ∀ m ∈ result.matches, m.Unasked := by
  refine every_enterpriseFromJson (P := fun result => ∀ m ∈ result.matches, m.Unasked)
    (fun _ m hm => nomatch hm) fun chunks _ => ?_
  refine (fillChunks_unasked 0 chunks).mono fun stores hstores m hm => ?_
  rcases Stores.mem_apply (List.mem_of_mem_take hm) with hzero | ⟨store, hstore, rfl⟩
  · rw [List.eq_of_mem_replicate hzero]
    exact ⟨rfl, rfl, rfl, rfl⟩
  · exact hstores store hstore

/-! ### What the links of a match are -/

/-- Each link that is kept is the song link with a parameter. -/
structure EnterpriseMatch.KeepsLinks (u : CString) (m : EnterpriseMatch) : Prop where
  songLink : m.songLink = some u
  thumbnailUrl : ∀ link, m.thumbnailUrl = some link → ∃ param, link = Uri.addParam u param
  streamingUrls : ∀ provider link, m.streamingUrls provider = some link →
    ∃ param, link = Uri.addParam u param

theorem every_copy_addParam (u param : CString) :
    (AllocM.copy (u ++ [if '?' ∈ u then '&' else '?'] ++ param)).Every fun url =>
      ∀ link, url = some link → ∃ param, link = Uri.addParam u param := by
  rw [AllocM.every_copy]
  refine ⟨fun link hlink => ⟨param, ?_⟩, fun link hlink => nomatch hlink⟩
  rw [← Option.some.inj hlink, Uri.addParam, List.append_assoc, List.singleton_append]

theorem EnterpriseMatch.KeepsLinks.call {u : CString} (h : m.KeepsLinks u) (call : LinkCall) :
    (call.onMatch m).Every fun x =>
      (∀ link, x.1 = some link → ∃ param, link = Uri.addParam u param) ∧ x.2.KeepsLinks u := by
  have hnone : ∀ link, (none : Option CString) = some link → ∃ param, link = Uri.addParam u param :=
    fun _ h => nomatch h
  cases call with
  | thumbnail =>
    rw [LinkCall.onMatch, enterpriseMatchThumbnailUrl]
    split
    · exact ⟨h.thumbnailUrl, h⟩
    · simp only [h.songLink]
      split
      · exact ⟨hnone, rfl, h.thumbnailUrl, h.streamingUrls⟩
      · refine (every_copy_addParam u "thumb").bind fun url hurl => ?_
        exact ⟨hurl, rfl, hurl, h.streamingUrls⟩
  | streaming number =>
    rw [LinkCall.onMatch, enterpriseMatchStreamingUrl]
    split
    · exact ⟨hnone, h⟩
    · rename_i provider _
      split
      · exact ⟨h.streamingUrls provider, h⟩
      · simp only [h.songLink]
        split
        · exact ⟨hnone, rfl, h.thumbnailUrl, h.streamingUrls⟩
        · refine (every_copy_addParam u (providerStr provider)).bind fun url hurl => ?_
          refine ⟨hurl, rfl, h.thumbnailUrl, fun other link => ?_⟩
          dsimp only
          rw [Function.update_apply]
          split
          · exact hurl link
          · exact h.streamingUrls other link

/-! ### Any calls before, with memory -/

theorem SameLinkState.after (h : SameLinkState r m) (calls : List LinkCall) :
    SameLinkState (r.after p (calls.map LinkCall.accessor)) (m.after calls) := by
  induction calls generalizing r m with
  | nil => exact h
  | cons call calls ih =>
    have hcall : SameLinkState (call.accessor.call p r).ok.2 (call.onMatch m).ok.2 := by
      have := (h.call (p := p) call).ok.2
      cases call <;> exact this
    exact ih hcall

/-- What a recognition answers does not depend on the calls before. -/
theorem Recognition.Unasked.answer (h : r.Unasked) (call : LinkCall)
    (calls before : List Accessor) :
    (call.onRecognition p (r.after p calls)).ok.1 =
      (call.onRecognition p (r.after p before)).ok.1 := by
  cases call with
  | thumbnail =>
    exact (h.links_after calls).thumbnailCall.2.trans (h.links_after before).thumbnailCall.2.symm
  | streaming number =>
    cases hprovider : Provider.ofNumber number with
    | none => simp [LinkCall.onRecognition, recognitionStreamingUrl, hprovider]
    | some provider =>
      exact ((h.links_after calls).streaming hprovider).2.trans
        ((h.links_after before).streaming hprovider).2.symm

theorem sameLinkState_of_unasked (hr : r.Unasked) (hm : m.Unasked) (hbare : r.Bare)
    (hsong : m.songLink = r.songLink) : SameLinkState r m :=
  ⟨hbare, hsong, hm.thumbLazy.trans hr.thumbnailLazy.symm,
    hm.thumbnailUrl.trans hr.thumbnailUrl.symm,
    hm.streamLazy.trans (funext fun provider => (hr.streamingLazy provider).symm),
    hm.streamingUrls.trans (funext fun provider => (hr.streamingUrls provider).symm)⟩

end

/-- A parameter added to a song link keeps its hosts.  A recognition without blocks and a match with
its song link answer alike: on one schedule, in any sequence of calls for links, where each link is
the song link with a parameter; and with memory, after any calls on each. -/
theorem redirects_agree (p : Platform) :
    (∀ u : CString, urlIsHttp u = true → ∀ param : CString,
      appendQparam (some u) param = AllocM.copy (Uri.addParam u param) ∧ ∀ host : CString,
        urlHostnameIs (some (Uri.addParam u param)) host = urlHostnameIs (some u) host) ∧
    ∀ (o : CJson) (resultArr : Option CJson) (tape tape' : Tape) (r : Recognition)
      (result : EnterpriseResult) (m : EnterpriseMatch),
      ((recognitionFromJson p o).run tape).1 = some r → r.Bare →
      ((enterpriseFromJson p resultArr).run tape').1 = some result → m ∈ result.matches →
      m.songLink = r.songLink →
      (∀ calls, AllocM.answers (LinkCall.onRecognition p) r calls =
        AllocM.answers LinkCall.onMatch m calls) ∧
      (∀ u, r.songLink = some u → ∀ calls, (AllocM.answers LinkCall.onMatch m calls).Every
        fun links => ∀ link, some link ∈ links → ∃ param, link = Uri.addParam u param) ∧
      ∀ (calls : List Accessor) (calls' : List LinkCall) (call : LinkCall),
        (call.onRecognition p (r.after p calls)).ok.1 = (call.onMatch (m.after calls')).ok.1 := by
  refine ⟨fun u hu param =>
    ⟨appendQparam_of_http hu param, fun host => urlHostnameIs_addParam hu param host⟩, ?_⟩
  intro o resultArr tape tape' r result m hr hbare hresult hm hsong
  have hunasked := (recognitionFromJson_unasked o).run tape r hr
  have hmatch := (enterpriseFromJson_unasked resultArr).run tape' result hresult m hm
  have hstate := sameLinkState_of_unasked hunasked hmatch hbare hsong
  refine ⟨AllocM.answers_eq (fun _ _ call h => h.call call) hstate, fun u hu calls => ?_,
    fun calls calls' call => ?_⟩
  · have hkeeps : m.KeepsLinks u := by
      refine ⟨hsong.trans hu, fun link h => ?_, fun provider link h => ?_⟩
      · rw [hmatch.thumbnailUrl] at h
        cases h
      · rw [hmatch.streamingUrls] at h
        cases h
    have hanswers := AllocM.every_answers
      (P := fun answer => ∀ link, answer = some link → ∃ param, link = Uri.addParam u param)
      (I := EnterpriseMatch.KeepsLinks u) (fun _ call h => h.call call) hkeeps calls
    exact hanswers.mono fun links hlinks link hlink => hlinks _ hlink link rfl
  · rw [hunasked.answer call calls (calls'.map LinkCall.accessor)]
    exact ((hstate.after calls').call call).ok.1

theorem lisTn_redirects_agree : ∃ r m,
    (recognitionFromJson .exact (.object [("song_link", .string "http://lis.tn/a")])).ok = some r ∧
    (enterpriseFromJson .exact (some (.array [.object [("songs",
      .array [.object [("song_link", .string "http://lis.tn/a")]])]]))).ok = some ⟨[m], 1⟩ ∧
    AllocM.answers (LinkCall.onRecognition .exact) r [.thumbnail, .streaming 0] =
      AllocM.answers LinkCall.onMatch m [.thumbnail, .streaming 0] := by
  have hr := recognitionFromJson_ok (p := .exact) [("song_link", .string "http://lis.tn/a")]
  have hresult : (enterpriseFromJson .exact (some (.array [.object [("songs",
      .array [.object [("song_link", .string "http://lis.tn/a")]])]]))).ok = some
      ⟨[(matchFromJson .exact (.object [("song_link", .string "http://lis.tn/a")])
        unknownSeconds).ok], 1⟩ := rfl
  have hgranted : ∀ {α : Type} (x : AllocM α), (x.run plenty).1 = x.ok :=
    fun x => congrArg Prod.fst x.run_plenty
  exact ⟨_, _, hr, hresult, ((redirects_agree .exact).2 _ _ plenty plenty _ _ _
    ((hgranted _).trans hr) ⟨rfl, rfl, rfl, rfl⟩ ((hgranted _).trans hresult)
    List.mem_cons_self rfl).1 _⟩

end Audd
