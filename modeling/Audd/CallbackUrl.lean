import Audd.Lib.Uri
import Audd.Url

/-! The `return` parameter of a callback URL.  It is the last parameter of the query when the URL
has no fragment, and a URL that has one already is refused.  With a fragment the parameter ends up
there, out of the query. -/

namespace Audd

/-- A text of bytes, as a C string is one. -/
abbrev ByteString := { s : CString // ∀ c ∈ s, c.toNat < 256 }

def texts (metadata : List ByteString) : List CString := metadata.map Subtype.val

/-! ### Percent encoding -/

theorem hexDigit_mem (n : Nat) : hexDigit n ∈ ("0123456789ABCDEF" : CString) := by
  unfold hexDigit
  rw [List.getD_eq_getElem?_getD]
  rcases hget : ("0123456789ABCDEF" : CString)[n]? with _ | c
  · decide
  · exact List.mem_of_getElem? hget

/-- An encoded text has no delimiter in it. -/
theorem not_delimiter_of_mem_urlEncode {s : CString} {c : Char} (h : c ∈ urlEncode s) :
    c ∉ ['&', '#', '?', '='] := by
  obtain ⟨x, -, hx⟩ := List.mem_flatMap.1 h
  have hdelimiter : ∀ d ∈ ['&', '#', '?', '='],
      ¬(d.isAlphanum ∨ d ∈ ['-', '.', '_', '~']) ∧ d ≠ '%' ∧ d ∉ ("0123456789ABCDEF" : CString) :=
    forall_mem_of_all (by decide)
  intro hc
  obtain ⟨hreserved, hpercent, hhex⟩ := hdelimiter c hc
  split at hx
  · rename_i hunreserved
    rw [List.mem_singleton.1 hx] at hreserved
    exact hreserved hunreserved
  · rcases List.mem_cons.1 hx with heq | hx
    · exact hpercent heq
    · rcases List.mem_pair.1 hx with heq | heq <;> exact hhex (heq ▸ hexDigit_mem _)

theorem hexValue_hexDigit : ∀ n < 16, Uri.hexValue (hexDigit n) = some n := by decide

/-- Encoded bytes are read back. -/
theorem percentDecode_urlEncode {s : CString} (h : ∀ c ∈ s, c.toNat < 256) :
    Uri.percentDecode (urlEncode s) = s := by
  induction s with
  | nil => rfl
  | cons c s ih =>
    have hc := h c List.mem_cons_self
    rw [urlEncode, List.flatMap_cons]
    change Uri.percentDecode (_ ++ urlEncode s) = _
    split
    · rename_i hunreserved
      have hpercent : c ≠ '%' := by
        rintro rfl
        exact absurd hunreserved (by decide)
      rw [List.singleton_append, Uri.percentDecode_cons hpercent,
        ih fun x hx => h x (List.mem_cons_of_mem _ hx)]
    · simp only [List.cons_append, List.nil_append]
      rw [Uri.percentDecode_byte (hexValue_hexDigit _ (by omega)) (hexValue_hexDigit _ (by omega)),
        ih fun x hx => h x (List.mem_cons_of_mem _ hx)]

theorem csv_bytes (metadata : List ByteString) : ∀ c ∈ csv (texts metadata), c.toNat < 256 := by
  intro c hc
  rcases Uri.mem_intercalate hc with rfl | ⟨entry, hentry, hc⟩
  · decide
  · obtain ⟨text, -, rfl⟩ := List.mem_map.1 (List.mem_of_mem_filter hentry)
    exact text.2 c hc

/-! ### The parameter -/

/-- The parameter that is added for a list of entries. -/
def returnParam (metadata : List CString) : CString :=
  ("return=" : CString) ++ urlEncode (csv metadata)

theorem cutAt_returnParam (metadata : List CString) : Uri.cutAt '=' (returnParam metadata) =
    (("return" : CString), some (urlEncode (csv metadata))) := by
  have hsplit : ("return=" : CString) = ("return" : CString) ++ ['='] := by
    decide +kernel
  unfold returnParam
  rw [hsplit, List.append_assoc, List.singleton_append]
  exact Uri.cutAt_append (by decide) _

theorem not_mem_returnParam (metadata : List CString) {c : Char} (h : c ∈ ['&', '#']) :
    c ∉ returnParam metadata := by
  have hsub : ∀ c ∈ ['&', '#'], c ∈ ['&', '#', '?', '='] ∧ c ∉ ("return=" : CString) :=
    forall_mem_of_all (by decide)
  unfold returnParam
  rw [List.mem_append, not_or]
  exact ⟨(hsub c h).2, fun hmem => not_delimiter_of_mem_urlEncode hmem (hsub c h).1⟩

/-- The parameters after the first `?`. -/
def queryParams (rawUrl : CString) : List CString := Uri.parameters (Uri.cutAt '?' rawUrl).2

theorem hasReturnParam_iff {rawUrl : CString} (h : '#' ∉ rawUrl) : hasReturnParam rawUrl = true ↔
    ∃ param ∈ queryParams rawUrl, Uri.paramName param = ("return" : CString) := by
  unfold hasReturnParam queryParams Uri.cutAt
  rcases hdrop : rawUrl.dropWhile (· ≠ '?') with _ | ⟨c, query⟩
  · simp [Uri.parameters]
  · have hstart : ∀ param ∈ query.splitOn '&', decide (param.head? ≠ some '#') = true := by
      intro param hparam
      refine decide_eq_true fun hhead => h ?_
      have hmem : '#' ∈ query := Uri.mem_of_mem_splitOn hparam (List.mem_of_mem_head? hhead)
      exact (List.dropWhile_sublist _).subset (hdrop ▸ List.mem_cons_of_mem c hmem)
    dsimp only
    rw [List.takeWhile_eq_self_iff.2 hstart, List.any_eq_true]
    simp only [decide_eq_true_eq]
    rfl

/-- An accepted URL is the URL with the parameter added. -/
theorem urlAppendReturn_added {rawUrl : CString} {metadata : List CString}
    (hany : ∃ entry ∈ metadata, entry ≠ []) :
    (urlAppendReturn rawUrl (some metadata)).Every fun result => ∀ out, result = .ok out →
      out = Uri.addParam rawUrl (returnParam metadata) := by
  have hany' : metadata.any (· ≠ []) = true := by simpa using hany
  unfold urlAppendReturn
  simp only [Option.getD_some, hany', Bool.not_true, Bool.false_eq_true, if_false]
  split
  · exact fun out h => by cases h
  · rw [AllocM.every_bind, AllocM.every_copy]
    refine ⟨?_, fun out h => by cases h⟩
    rw [AllocM.every_bind, AllocM.every_copy]
    refine ⟨?_, fun out h => by cases h⟩
    rw [AllocM.every_bind, AllocM.every_copy]
    refine ⟨fun out h => ?_, fun out h => by cases h⟩
    rw [← Except.ok.inj h, List.append_assoc, List.append_assoc, List.singleton_append]
    rfl

/-! ### Preservation -/

/-- Only the query changes: it has one parameter more, the last, which is named `return` and stands
for the entries. -/
structure Preserved (rawUrl : CString) (metadata : List CString) (out : CString) : Prop where
  scheme : (Uri.split out).scheme = (Uri.split rawUrl).scheme
  authority : (Uri.split out).authority = (Uri.split rawUrl).authority
  path : (Uri.split out).path = (Uri.split rawUrl).path
  fragment : (Uri.split out).fragment = (Uri.split rawUrl).fragment
  query : ∃ param, Uri.parameters (Uri.split out).query =
      Uri.parameters (Uri.split rawUrl).query ++ [param] ∧
    Uri.paramName param = ("return" : CString) ∧
    Uri.percentDecode (Uri.paramValue param) = csv metadata

/-- A URL is preserved exactly if it has no fragment. -/
theorem urlAppendReturn_preserved_iff {rawUrl out : CString} {metadata : List ByteString}
    {tape : Tape} (hany : ∃ entry ∈ texts metadata, entry ≠ [])
    (hok : ((urlAppendReturn rawUrl (some (texts metadata))).run tape).1 = .ok out) :
    Preserved rawUrl (texts metadata) out ↔ '#' ∉ rawUrl := by
  obtain rfl := (urlAppendReturn_added hany).run tape out hok
  constructor
  · intro hpreserved hfragment
    have hsame := hpreserved.fragment
    rw [Uri.addParam, Uri.split_fragment_append hfragment] at hsame
    obtain ⟨before, after, hbefore, rfl⟩ := Uri.exists_cutAt hfragment
    simp [Uri.split, Uri.cutAt_append hbefore] at hsame
  · intro hfragment
    have hparam := not_mem_returnParam (texts metadata) (c := '#') (by simp)
    have hamp := not_mem_returnParam (texts metadata) (c := '&') (by simp)
    have hsplit := Uri.split_addParam hfragment hparam
    refine ⟨by rw [hsplit], by rw [hsplit], by rw [hsplit], by rw [hsplit], ?_⟩
    refine ⟨_, Uri.parameters_addParam hfragment hparam hamp, ?_, ?_⟩
    · rw [Uri.paramName, cutAt_returnParam]
    · rw [Uri.paramValue, cutAt_returnParam]
      exact percentDecode_urlEncode (csv_bytes metadata)

def commaEntry : ByteString := ⟨"x,y", forall_mem_of_all (by decide)⟩

theorem fragmentUrl_changed : (urlAppendReturn "http://a/#f" (some ["x"])).ok =
      .ok "http://a/#f?return=x" ∧
    ¬Preserved "http://a/#f" ["x"] "http://a/#f?return=x" := by
  refine ⟨by decide +kernel, fun hpreserved => ?_⟩
  have hsame := hpreserved.fragment
  revert hsame
  decide +kernel

theorem queryUrl_preserved : Preserved "http://a/?b=1" (texts [commaEntry])
    "http://a/?b=1&return=x%2Cy" := by
  have hok : ((urlAppendReturn "http://a/?b=1" (some (texts [commaEntry]))).run plenty).1 =
      .ok "http://a/?b=1&return=x%2Cy" := by decide +kernel
  exact (urlAppendReturn_preserved_iff ⟨_, List.mem_singleton_self _, by decide⟩ hok).mpr
    (by decide +kernel)

/-! ### A parameter that is there already -/

theorem queryParams_addParam {rawUrl : CString} (h : '#' ∉ rawUrl) (metadata : List CString) :
    '#' ∉ Uri.addParam rawUrl (returnParam metadata) ∧
      queryParams (Uri.addParam rawUrl (returnParam metadata)) =
        queryParams rawUrl ++ [returnParam metadata] := by
  have hparam := not_mem_returnParam metadata (c := '#') (by simp)
  have hamp := not_mem_returnParam metadata (c := '&') (by simp)
  have hout : '#' ∉ Uri.addParam rawUrl (returnParam metadata) := by
    rw [Uri.addParam, List.mem_append, List.mem_cons, not_or, not_or]
    exact ⟨h, by split <;> decide, hparam⟩
  refine ⟨hout, ?_⟩
  rw [queryParams, ← Uri.query_split hout, Uri.parameters_addParam h hparam hamp,
    Uri.query_split h, queryParams]

theorem urlAppendReturn_of_none {metadata : Option (List CString)}
    (h : ∀ entry ∈ metadata.getD [], entry = []) (rawUrl : CString) :
    (urlAppendReturn rawUrl metadata).ok = .ok rawUrl := by
  have hany : (metadata.getD []).any (· ≠ []) = false := by simpa using h
  unfold urlAppendReturn
  simp only [hany, Bool.not_false, if_true, AllocM.ok_bind, AllocM.ok_copy,
    urlAppendReturn.granted, AllocM.ok_pure]

theorem urlAppendReturn_ok {metadata : Option (List CString)}
    (h : ∃ entry ∈ metadata.getD [], entry ≠ []) (rawUrl : CString) :
    (urlAppendReturn rawUrl metadata).ok = if hasReturnParam rawUrl then .error .invalidArgument
      else .ok (Uri.addParam rawUrl (returnParam (metadata.getD []))) := by
  have hany : (metadata.getD []).any (· ≠ []) = true := by simpa using h
  unfold urlAppendReturn
  simp only [hany, Bool.not_true, Bool.false_eq_true, if_false]
  split
  · rfl
  · simp only [AllocM.ok_bind, AllocM.ok_copy, urlAppendReturn.granted, AllocM.ok_pure,
      List.append_assoc, List.singleton_append]
    rfl

/-- A URL without a fragment is refused exactly if its query has a parameter named `return`, and
what is accepted has one.  A list without entries leaves any URL as it is. -/
theorem urlAppendReturn_duplicates {rawUrl : CString} (h : '#' ∉ rawUrl)
    (metadata : Option (List CString)) :
    ((∃ entry ∈ metadata.getD [], entry ≠ []) →
      ((urlAppendReturn rawUrl metadata).ok = .error .invalidArgument ↔
        ∃ param ∈ queryParams rawUrl, Uri.paramName param = ("return" : CString)) ∧
      ((¬∃ param ∈ queryParams rawUrl, Uri.paramName param = ("return" : CString)) →
        ∃ out, (urlAppendReturn rawUrl metadata).ok = .ok out ∧
          ∀ again : List CString, (∃ entry ∈ again, entry ≠ []) →
            (urlAppendReturn out (some again)).ok = .error .invalidArgument)) ∧
    ((∀ entry ∈ metadata.getD [], entry = []) →
      (urlAppendReturn rawUrl metadata).ok = .ok rawUrl) := by
  refine ⟨fun hany => ?_, fun hnone => urlAppendReturn_of_none hnone rawUrl⟩
  rw [← hasReturnParam_iff h, urlAppendReturn_ok hany]
  refine ⟨?_, fun hfree => ?_⟩
  · split <;> simp_all
  · rw [if_neg hfree]
    refine ⟨_, rfl, fun again hagain => ?_⟩
    obtain ⟨hout, hparams⟩ := queryParams_addParam h (metadata.getD [])
    have hdouble :
        hasReturnParam (Uri.addParam rawUrl (returnParam (metadata.getD []))) = true := by
      refine (hasReturnParam_iff hout).2 ⟨returnParam (metadata.getD []), ?_, ?_⟩
      · rw [hparams]
        exact List.mem_append_right _ (List.mem_singleton_self _)
      · rw [Uri.paramName, cutAt_returnParam]
    have hagain : ∃ entry ∈ (some again).getD [], entry ≠ [] := hagain
    rw [urlAppendReturn_ok hagain, if_pos hdouble]

theorem emptySegment_refused :
    (urlAppendReturn "http://a/?b&&return" (some ["x"])).ok = .error .invalidArgument :=
  ((urlAppendReturn_duplicates (by decide +kernel) (some ["x"])).1 ⟨_, List.mem_singleton_self _,
    by decide⟩).1.mpr ⟨("return" : String), by decide +kernel, by decide +kernel⟩

end Audd
