import Audd.JsonGrammar

/-! The parser takes every text of JSON whose numerals fit its buffer. -/

namespace Audd

open JsonText (Numeral Rules Literal Text hexNumber standardPlain standardCode)

/-- The rules of JSON, with numerals of at most 63 characters. -/
def jsonRules : Rules where
  blank := JsonText.standard.blank
  numeral x := x.Standard ∧ x.text.length ≤ 63
  quoted := JsonText.standard.quoted

/-! ### Strings -/

theorem hexDigit_plain {c : Char} (h : (JsonText.hexDigit c).isSome) : c ≠ '"' ∧ c ≠ '\\' := by
  constructor <;> rintro rfl <;> exact absurd h (by decide)

theorem hexNumber_plain {h : CString} {n : Nat} (hn : hexNumber h = some n) :
    ∀ c ∈ h, c ≠ '"' ∧ c ≠ '\\' := by
  have hfold : ∀ (h : CString) (a n : Nat),
      h.foldlM (fun n c => (JsonText.hexDigit c).map (16 * n + ·)) a = some n →
      ∀ c ∈ h, c ≠ '"' ∧ c ≠ '\\' := by
    intro h
    induction h with
    | nil => simp
    | cons d h ih =>
      intro a n hn c hc
      rw [List.foldlM_cons] at hn
      obtain ⟨b, hb, hn⟩ := Option.bind_eq_some_iff.1 hn
      rcases List.mem_cons.1 hc with rfl | hc
      · obtain ⟨d, hd, -⟩ := Option.map_eq_some_iff.1 hb
        exact hexDigit_plain (hd ▸ rfl)
      · exact ih b n hn c hc
  exact hfold h 0 n hn

theorem Scanned.plain_append {h t : CString} (hh : ∀ c ∈ h, c ≠ '"' ∧ c ≠ '\\') (ht : Scanned t) :
    Scanned (h ++ t) := by
  induction h with
  | nil => exact ht
  | cons c h ih =>
    obtain ⟨hquote, hslash⟩ := hh c List.mem_cons_self
    exact .plain hquote hslash (ih fun d hd => hh d (List.mem_cons_of_mem _ hd))

theorem scanned_of_standard {content t : CString}
    (h : Literal standardPlain standardCode content t) : Scanned t := by
  induction h with
  | nil => exact .nil
  | plain hc _ ih => exact .plain hc.2.1 hc.2.2 ih
  | escape _ _ ih => exact .pair ih
  | unicode hn _ _ _ ih => exact .pair (ih.plain_append (hexNumber_plain hn.2))
  | pair hn hm _ _ _ ih =>
    exact .pair (Scanned.plain_append (hexNumber_plain hn.2)
      (.pair (ih.plain_append (hexNumber_plain hm.2))))

theorem quotedTaken_of_standard {content s : CString}
    (h : JsonText.standard.quoted content s) : quotedTaken content s := by
  obtain ⟨t, rfl, ht⟩ := h
  refine ⟨t, rfl, scanned_of_standard ht, ht.mono (fun c hc => hc.2.2) fun h n hn => ?_⟩
  exact ⟨hn.1, by rw [hn.2, Option.getD_some]⟩

/-! ### Texts -/

theorem jsonRules_le : jsonRules.Le cjsonRules where
  blank c hc := forall_mem_of_all (P := fun c => isBlankByte c = true) (by decide) c hc
  numeral x hx := {
    toWellFormed := hx.1.toWellFormed
    begins := .inr hx.1.whole_ne_nil
    short := hx.2 }
  quoted _ _ hs := quotedTaken_of_standard hs

section

variable {p : Platform} {n : Nat} {w t rest : CString} {v : CJson}

theorem skipUtf8Bom_value (hw : cjsonRules.Blanks w)
    (h : Text (treeValues p) cjsonRules n (.value v) t) :
    skipUtf8Bom (w ++ (t ++ rest)) = w ++ (t ++ rest) := by
  have hhead : (w ++ (t ++ rest)).take 3 ≠ ['\xef', '\xbb', '\xbf'] := by
    intro hbom
    cases w with
    | nil =>
      obtain ⟨c, t', rfl, -, -, hc⟩ := value_head h
      exact hc (List.cons.inj hbom).1
    | cons c w =>
      have hc : isBlankByte c = true := hw c List.mem_cons_self
      rw [(List.cons.inj hbom).1] at hc
      cases hc
  rw [skipUtf8Bom, if_neg fun h => hhead h.2]

theorem parse_of_cjsonText (hw : cjsonRules.Blanks w)
    (h : Text (treeValues p) cjsonRules kNestingLimit (.value v) t) (hends : NumeralEnds t rest) :
    (parseWithLength p (w ++ (t ++ rest))).ok = some v :=
  parse_of_text (skipUtf8Bom_value hw h) hw h hends

end

end Audd
