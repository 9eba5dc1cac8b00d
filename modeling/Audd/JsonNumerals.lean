import Audd.JsonParse
import Audd.Lib.JsonText

/-! The blanks that the parser of cJSON skips, and the texts that it takes for a number: the longest
numeral of at most 63 characters, which needs no digit before or after a point. -/

namespace Audd

open JsonText (Numeral)

/-! ### Blanks -/

section

variable {s w : CString}

theorem bufferSkipWhitespace_split (s : CString) :
    ∃ w, (∀ c ∈ w, isBlankByte c = true) ∧ s = w ++ bufferSkipWhitespace s := by
  unfold bufferSkipWhitespace
  have hjoin := List.takeWhile_append_dropWhile (p := isBlankByte) (l := s)
  split
  · rename_i hnil
    have hall := List.dropWhile_eq_nil_iff.1 hnil
    exact ⟨s.take (s.length - 1), fun c hc => hall c (List.mem_of_mem_take hc),
      (List.take_append_drop _ s).symm⟩
  · rename_i rest hne
    exact ⟨s.takeWhile isBlankByte, fun c hc => List.mem_takeWhile_imp hc, hjoin.symm⟩

/-- Before a text that begins with something else, the blanks are what is skipped. -/
theorem bufferSkipWhitespace_blanks (hw : ∀ c ∈ w, isBlankByte c = true) {c : Char} {t : CString}
    (hc : isBlankByte c = false) : bufferSkipWhitespace (w ++ c :: t) = c :: t := by
  have hdrop : (w ++ c :: t).dropWhile isBlankByte = c :: t := by
    rw [List.dropWhile_append_of_pos hw, List.dropWhile_cons_of_neg (by simp [hc])]
  rw [bufferSkipWhitespace, hdrop]

end

/-! ### Numbers -/

theorem isNumberChar_cases {c : Char} (h : isNumberChar c = true) :
    c.isDigit = true ∨ c ∈ ['+', '-', 'e', 'E', '.'] := by
  simpa [isNumberChar] using h

/-- What cannot be written with the characters of numbers. -/
theorem lower_take_ne {s : CString} (hs : ∀ c ∈ s, isNumberChar c = true) (k : Nat)
    (word : CString) (hword : word.any (fun c => c ∈ ['i', 'n', 'x']) = true) :
    lower (s.take k) ≠ word := by
  rintro rfl
  obtain ⟨c, hc, hletter⟩ := List.any_eq_true.1 hword
  obtain ⟨d, hd, rfl⟩ := List.mem_map.1 hc
  have hd' := isNumberChar_cases (hs d (List.mem_of_mem_take hd))
  have hnone : d.toLower ∉ ['i', 'n', 'x'] := by
    rcases hd' with hd' | hd'
    · exact of_isDigit (P := fun c => c.toLower ∉ ['i', 'n', 'x']) (by decide) hd'
    · exact forall_mem_of_all (P := fun c => c.toLower ∉ ['i', 'n', 'x']) (by decide) d hd'
  exact hnone (by simpa using hletter)

theorem isspace_numberChar {c : Char} (h : isNumberChar c = true) : isspace c = false := by
  rcases isNumberChar_cases h with h | h
  · exact isspace_digit h
  · exact forall_mem_of_all (P := fun c => isspace c = false) (by decide) c h

/-- On the characters of numbers `strtod` reads a decimal after its sign. -/
theorem strtodText_numberChars (p : Platform) {s : CString}
    (hs : ∀ c ∈ s, isNumberChar c = true) :
    strtodText p s = (readDecimal (readSign s).2).map fun (magnitude, rest) =>
      (some (p.round (if (readSign s).1 then -magnitude else magnitude)), rest) := by
  have hspace : s.dropWhile isspace = s := by
    cases s with
    | nil => rfl
    | cons c rest =>
      rw [List.dropWhile_cons_of_neg (by simp [isspace_numberChar (hs c List.mem_cons_self)])]
  have hrest : ∀ c ∈ (readSign s).2, isNumberChar c = true := by
    intro c hc
    refine hs c ?_
    unfold readSign at hc
    split at hc
    · exact List.mem_cons_of_mem _ hc
    · exact List.mem_cons_of_mem _ hc
    · exact hc
  simp only [strtodText, hspace, if_neg (lower_take_ne hrest 8 "infinity" (by decide)),
    if_neg (lower_take_ne hrest 3 "inf" (by decide)),
    if_neg (lower_take_ne hrest 3 "nan" (by decide)),
    if_neg (lower_take_ne hrest 2 "0x" (by decide)), Option.none_or]

/-! #### Numerals are read -/

section

variable {x : Numeral}

theorem isNumberChar_digit {c : Char} (h : c.isDigit = true) : isNumberChar c = true := by
  simp [isNumberChar, h]

theorem isNumberChar_text (hx : x.WellFormed) : ∀ c ∈ x.text, isNumberChar c = true := by
  intro c hc
  simp only [Numeral.text, Numeral.unsigned, List.mem_append] at hc
  rcases hc with hc | hc | hc | hc
  · unfold Numeral.sign at hc
    split at hc
    · rw [List.mem_singleton.1 hc]
      decide
    · cases hc
  · exact isNumberChar_digit (hx.whole c hc)
  · unfold Numeral.fractionText at hc
    cases hf : x.fraction with
    | none =>
      rw [hf] at hc
      cases hc
    | some f =>
      rw [hf] at hc
      rcases List.mem_cons.1 hc with rfl | hc
      · decide
      · exact isNumberChar_digit (hx.fraction f hf c hc)
  · unfold Numeral.exponentText at hc
    cases he : x.exponent with
    | none =>
      rw [he] at hc
      cases hc
    | some e =>
      rw [he] at hc
      rcases List.mem_cons.1 hc with rfl | hc
      · rcases hx.mark e he with h | h <;> rw [h] <;> decide
      · rcases List.mem_append.1 hc with hc | hc
        · have hsign : c = '-' ∨ c = '+' := by
            rcases hn : e.negative with _ | _ | _ <;> simp_all
          rcases hsign with rfl | rfl <;> decide
        · exact isNumberChar_digit ((hx.exponent e he).2 c hc)

theorem readSign_digits {digits : CString} (h : ∀ c ∈ digits, c.isDigit = true) :
    readSign digits = (false, digits) := by
  cases digits with
  | nil => rfl
  | cons c rest =>
    have hsign : c ≠ '-' ∧ c ≠ '+' :=
      of_isDigit (P := fun c => c ≠ '-' ∧ c ≠ '+') (by decide) (h c List.mem_cons_self)
    unfold readSign
    split
    · rename_i heq
      exact absurd (List.cons.inj heq).1 hsign.1
    · rename_i heq
      exact absurd (List.cons.inj heq).1 hsign.2
    · rfl

theorem readMarkedExponent_text (hx : x.WellFormed) :
    readMarkedExponent ['e', 'E'] x.exponentText =
      ((x.exponent.map JsonText.Exponent.value).getD 0, []) := by
  unfold Numeral.exponentText
  cases he : x.exponent with
  | none => rfl
  | some e =>
    obtain ⟨hne, hdigits⟩ := hx.exponent e he
    have hmark : e.mark ∈ ['e', 'E'] := by
      rcases hx.mark e he with h | h <;> simp [h]
    have htake : e.digits.takeWhile Char.isDigit = e.digits := List.takeWhile_eq_self_iff.2 hdigits
    have hdrop : e.digits.dropWhile Char.isDigit = [] := List.dropWhile_eq_nil_iff.2 hdigits
    have hsign : readSign ((e.negative.map fun negative => if negative then '-' else '+').toList ++
        e.digits) = (decide (e.negative = some true), e.digits) := by
      rcases e.negative with _ | _ | _
      · exact readSign_digits hdigits
      · rfl
      · rfl
    show readMarkedExponent ['e', 'E'] (e.mark :: (_ ++ e.digits)) = _
    unfold readMarkedExponent
    simp only [hsign, htake, hdrop, hmark, hne, not_true_eq_false, or_self, if_false,
      decide_eq_true_eq]
    rfl

/-- The digits end where the point or the exponent begins. -/
theorem fractionText_head (hx : x.WellFormed) :
    ∀ c ∈ (x.fractionText ++ x.exponentText).head?, c.isDigit = false := by
  intro c hc
  unfold Numeral.fractionText Numeral.exponentText at hc
  cases hf : x.fraction with
  | some f =>
    rw [hf] at hc
    obtain rfl := Option.some.inj hc
    rfl
  | none =>
    cases he : x.exponent with
    | none =>
      rw [hf, he] at hc
      cases hc
    | some e =>
      rw [hf, he] at hc
      obtain rfl := Option.some.inj hc
      rcases hx.mark e he with h | h <;> rw [h] <;> decide

theorem exponentText_head (hx : x.WellFormed) :
    ∀ c ∈ x.exponentText.head?, c.isDigit = false ∧ c ≠ '.' := by
  intro c hc
  unfold Numeral.exponentText at hc
  cases he : x.exponent with
  | none =>
    rw [he] at hc
    cases hc
  | some e =>
    rw [he] at hc
    obtain rfl := Option.some.inj hc
    rcases hx.mark e he with h | h <;> rw [h] <;> decide

theorem readDigits_unsigned (hx : x.WellFormed) :
    readDigits Char.isDigit x.unsigned = (x.whole, x.fraction.getD [], x.exponentText) := by
  obtain ⟨htake, hdrop⟩ := takeWhile_digits hx.whole (fractionText_head hx)
  unfold readDigits Numeral.unsigned
  rw [htake, hdrop]
  unfold Numeral.fractionText
  cases hf : x.fraction with
  | some f =>
    obtain ⟨htake', hdrop'⟩ := takeWhile_digits (hx.fraction f hf)
      fun c hc => (exponentText_head hx c hc).1
    simp only [Option.map_some, Option.getD_some, List.cons_append, htake', hdrop']
  | none =>
    simp only [Option.map_none, Option.getD_none, List.nil_append]
    have hhead := exponentText_head hx
    cases he : x.exponentText with
    | nil => rfl
    | cons c rest =>
      rw [he] at hhead
      have hc := (hhead c rfl).2
      split
      · rename_i heq
        exact absurd (List.cons.inj heq).1 hc
      · rfl

theorem readDecimal_unsigned (hx : x.WellFormed) :
    readDecimal x.unsigned = some (x.magnitude, []) := by
  have hmantissa : ¬(x.whole = [] ∧ x.fraction.getD [] = []) := by
    have := hx.mantissa
    tauto
  simp only [readDecimal, readDigits_unsigned hx, if_neg hmantissa, readMarkedExponent_text hx]
  rfl

theorem readSign_text (hx : x.WellFormed) : readSign x.text = (x.negative, x.unsigned) := by
  unfold Numeral.text Numeral.sign
  cases hn : x.negative with
  | true => rfl
  | false =>
    show readSign x.unsigned = (false, x.unsigned)
    have hhead : ∀ c ∈ x.unsigned.head?, c ≠ '-' ∧ c ≠ '+' := by
      intro c hc
      unfold Numeral.unsigned at hc
      cases hw : x.whole with
      | cons d rest =>
        rw [hw] at hc
        obtain rfl := Option.some.inj hc
        exact of_isDigit (P := fun c => c ≠ '-' ∧ c ≠ '+') (by decide)
          (hx.whole d (hw ▸ List.mem_cons_self))
      | nil =>
        rw [hw] at hc
        unfold Numeral.fractionText Numeral.exponentText at hc
        cases hf : x.fraction with
        | some f =>
          rw [hf] at hc
          obtain rfl := Option.some.inj hc
          decide
        | none =>
          have := hx.mantissa
          rw [hw, hf] at this
          simp at this
    cases hu : x.unsigned with
    | nil => rfl
    | cons c rest =>
      rw [hu] at hhead
      obtain ⟨hminus, hplus⟩ := hhead c rfl
      unfold readSign
      split
      · rename_i heq
        exact absurd (List.cons.inj heq).1 hminus
      · rename_i heq
        exact absurd (List.cons.inj heq).1 hplus
      · rfl

theorem strtodText_numeral (p : Platform) (hx : x.WellFormed) :
    strtodText p x.text = some (some (p.round x.value), []) := by
  rw [strtodText_numberChars p (isNumberChar_text hx), readSign_text hx, readDecimal_unsigned hx]
  rfl

/-! #### What is read is a numeral -/

theorem readMarkedExponent_split (s : CString) : ∃ e : Option JsonText.Exponent,
    s = (e.map JsonText.Exponent.text).getD [] ++ (readMarkedExponent ['e', 'E'] s).2 ∧
    (readMarkedExponent ['e', 'E'] s).1 = (e.map JsonText.Exponent.value).getD 0 ∧
    (∀ e' ∈ e, e'.mark = 'e' ∨ e'.mark = 'E') ∧
    ∀ e' ∈ e, e'.digits ≠ [] ∧ ∀ c ∈ e'.digits, c.isDigit = true := by
  cases s with
  | nil => exact ⟨none, rfl, rfl, by simp, by simp⟩
  | cons mark rest =>
    simp only [readMarkedExponent]
    by_cases hnone : mark ∉ ['e', 'E'] ∨ (readSign rest).2.takeWhile Char.isDigit = []
    · rw [if_pos hnone]
      exact ⟨none, rfl, rfl, by simp, by simp⟩
    · rw [if_neg hnone]
      obtain ⟨hmark, hne⟩ := not_or.1 hnone
      have hjoin := List.takeWhile_append_dropWhile (p := Char.isDigit) (l := (readSign rest).2)
      obtain ⟨negative, hsign, hnegative⟩ : ∃ negative : Option Bool,
          rest = (negative.map fun negative => if negative then '-' else '+').toList ++
            (readSign rest).2 ∧ (readSign rest).1 = decide (negative = some true) := by
        unfold readSign
        split
        · exact ⟨some true, rfl, rfl⟩
        · exact ⟨some false, rfl, rfl⟩
        · exact ⟨none, rfl, rfl⟩
      refine ⟨some ⟨mark, negative, (readSign rest).2.takeWhile Char.isDigit⟩, ?_, ?_, ?_, ?_⟩
      · show mark :: rest = mark :: (_ ++ _) ++ _
        rw [List.cons_append, List.append_assoc, hjoin, ← hsign]
      · simp only [hnegative, decide_eq_true_eq]
        rfl
      · rintro e' ⟨⟩
        simpa using not_not.1 hmark
      · rintro e' ⟨⟩
        exact ⟨hne, fun c hc => List.mem_takeWhile_imp hc⟩

theorem readDecimal_split {s rest : CString} {q : ℚ} (h : readDecimal s = some (q, rest)) :
    ∃ x : Numeral, x.WellFormed ∧ s = x.unsigned ++ rest ∧ q = x.magnitude ∧
      x.whole = s.takeWhile Char.isDigit := by
  have hjoin := List.takeWhile_append_dropWhile (p := Char.isDigit) (l := s)
  obtain ⟨fraction, hfraction, hdigits, hparts⟩ : ∃ fraction : Option CString,
      s.dropWhile Char.isDigit = (fraction.map ('.' :: ·)).getD [] ++
        (readDigits Char.isDigit s).2.2 ∧ (∀ f ∈ fraction, ∀ c ∈ f, c.isDigit = true) ∧
      readDigits Char.isDigit s =
        (s.takeWhile Char.isDigit, fraction.getD [], (readDigits Char.isDigit s).2.2) := by
    unfold readDigits
    split
    · rename_i after hpoint
      refine ⟨some (after.takeWhile Char.isDigit), ?_, ?_, rfl⟩
      · rw [hpoint]
        exact congrArg ('.' :: ·) List.takeWhile_append_dropWhile.symm
      · rintro f ⟨⟩ c hc
        exact List.mem_takeWhile_imp hc
    · exact ⟨none, rfl, by simp, rfl⟩
  obtain ⟨e, hsplit, hvalue, hmark, hexponent⟩ :=
    readMarkedExponent_split (readDigits Char.isDigit s).2.2
  rw [readDecimal, hparts] at h
  simp only at h
  by_cases hnone : s.takeWhile Char.isDigit = [] ∧ fraction.getD [] = []
  · rw [if_pos hnone] at h
    cases h
  · rw [if_neg hnone] at h
    obtain ⟨rfl, rfl⟩ := Prod.ext_iff.1 (Option.some.inj h)
    refine ⟨⟨false, s.takeWhile Char.isDigit, fraction, e⟩, ?_, ?_, ?_, rfl⟩
    · exact {
        whole := fun c hc => List.mem_takeWhile_imp hc
        fraction := hdigits
        mantissa := not_and_or.1 hnone
        mark := hmark
        exponent := hexponent }
    · show s = s.takeWhile Char.isDigit ++ (_ ++ _) ++ _
      rw [List.append_assoc, List.append_assoc]
      conv_lhs => rw [← hjoin, hfraction, hsplit]
      rfl
    · show _ * (10 : ℚ) ^ (_ - _) = _
      rw [hvalue]
      rfl

theorem readSign_minus {s : CString} (h : ∀ c ∈ s.head?, c = '-' ∨ c.isDigit = true) :
    s = (if (readSign s).1 then ['-'] else []) ++ (readSign s).2 := by
  unfold readSign
  split
  · rfl
  · exact absurd (h '+' rfl) (by decide)
  · rfl

/-- The numerals that the parser takes where a value begins. -/
structure NumeralTaken (x : Numeral) : Prop extends x.WellFormed where
  begins : x.negative = true ∨ x.whole ≠ []
  short : x.text.length ≤ 63

theorem parseNumber_split {p : Platform} {s rest : CString} {d : CDouble}
    (hhead : ∀ c ∈ s.head?, c = '-' ∨ c.isDigit = true) (h : parseNumber p s = some (d, rest)) :
    ∃ x, NumeralTaken x ∧ s = x.text ++ rest ∧ d = p.round x.value := by
  obtain ⟨text, htext⟩ : ∃ text, (s.take 63).takeWhile isNumberChar = text := ⟨_, rfl⟩
  have hchars : ∀ c ∈ text, isNumberChar c = true := by
    rw [← htext]
    exact fun c hc => List.mem_takeWhile_imp hc
  have hprefix : text <+: s := by
    rw [← htext]
    exact (List.takeWhile_prefix _).trans (List.take_prefix 63 s)
  have hshort : text.length ≤ 63 := by
    rw [← htext]
    exact ((List.takeWhile_prefix _).length_le).trans (List.length_take_le 63 s)
  obtain ⟨after, rfl⟩ := hprefix
  simp only [parseNumber, htext, strtodText_numberChars p hchars] at h
  cases hread : readDecimal (readSign text).2 with
  | none =>
    rw [hread] at h
    cases h
  | some r =>
    obtain ⟨magnitude, left⟩ := r
    rw [hread] at h
    simp only [Option.map_some, Option.some.injEq, Prod.mk.injEq] at h
    obtain ⟨rfl, rfl⟩ := h
    obtain ⟨x, hx, hsplit, rfl, hwhole⟩ := readDecimal_split hread
    have hsign := readSign_minus (s := text) fun c hc => hhead c (by
      cases text with
      | nil => cases hc
      | cons d text => exact hc)
    have htaken : text = Numeral.text { x with negative := (readSign text).1 } ++ left := by
      show text = (if (readSign text).1 then ['-'] else []) ++ x.unsigned ++ left
      rw [List.append_assoc, ← hsplit, ← hsign]
    have hlength := congrArg List.length htaken
    rw [List.length_append] at hlength
    refine ⟨{ x with negative := (readSign text).1 }, ?_, ?_, rfl⟩
    · refine ⟨⟨hx.whole, hx.fraction, hx.mantissa, hx.mark, hx.exponent⟩, ?_, by omega⟩
      cases hn : (readSign text).1 with
      | true => exact .inl rfl
      | false =>
        -- without a sign the text begins with a digit
        refine .inr ?_
        show x.whole ≠ []
        rw [hwhole]
        cases ht : text with
        | nil =>
          rw [ht] at hread
          cases hread
        | cons c text =>
          rw [ht] at hhead hn hsign
          rw [hn] at hsign
          have hc : c.isDigit = true := by
            rcases hhead c rfl with rfl | hc
            · cases hn
            · exact hc
          rw [← List.nil_append (readSign (c :: text)).2]
          rw [show ([] : CString) ++ (readSign (c :: text)).2 = c :: text from hsign.symm]
          rw [List.takeWhile_cons_of_pos hc]
          exact List.cons_ne_nil _ _
    · have hdrop : text.drop (text.length - left.length) = left := by
        obtain ⟨t, ht⟩ : ∃ t, text = t ++ left := ⟨_, htaken⟩
        rw [ht, List.length_append, Nat.add_sub_cancel, List.drop_left]
      rw [List.drop_append_of_le_length (by omega), hdrop, ← List.append_assoc, ← htaken]

/-! #### The longest numeral is read -/

theorem readMarkedExponent_rest_le (s : CString) :
    (readMarkedExponent ['e', 'E'] s).2.length ≤ s.length := by
  obtain ⟨e, hsplit, -⟩ := readMarkedExponent_split s
  have hlength := congrArg List.length hsplit
  rw [List.length_append] at hlength
  omega

/-- An exponent is read whatever stands behind it. -/
theorem readMarkedExponent_text_append {e : JsonText.Exponent} (hmark : e.mark = 'e' ∨ e.mark = 'E')
    (hne : e.digits ≠ []) (hdigits : ∀ c ∈ e.digits, c.isDigit = true) (r : CString) :
    (readMarkedExponent ['e', 'E'] (e.text ++ r)).2.length ≤ r.length := by
  have hsign : (readSign ((e.negative.map fun negative => if negative then '-' else '+').toList ++
      e.digits ++ r)).2 = e.digits ++ r := by
    rcases e.negative with _ | _ | _
    · obtain ⟨c, digits, hc⟩ := List.exists_cons_of_ne_nil hne
      have hdigit := hdigits c (hc ▸ List.mem_cons_self)
      have hminus : c ≠ '-' := by
        rintro rfl
        cases hdigit
      have hplus : c ≠ '+' := by
        rintro rfl
        cases hdigit
      show (readSign (e.digits ++ r)).2 = _
      rw [hc, List.cons_append]
      unfold readSign
      split
      · rename_i heq
        exact absurd (List.cons.inj heq).1 hminus
      · rename_i heq
        exact absurd (List.cons.inj heq).1 hplus
      · rfl
    · rfl
    · rfl
  have htake : (e.digits ++ r).takeWhile Char.isDigit ≠ [] := by
    rw [List.takeWhile_append_of_pos hdigits]
    exact List.append_ne_nil_of_left_ne_nil hne _
  have hmem : e.mark ∈ ['e', 'E'] := by
    rcases hmark with h | h <;> simp [h]
  show (readMarkedExponent ['e', 'E'] (e.mark :: (_ ++ e.digits ++ r))).2.length ≤ _
  simp only [readMarkedExponent, hsign]
  rw [if_neg (by simp [hmem, htake]), List.dropWhile_append_of_pos hdigits]
  exact List.length_dropWhile_le _ _

/-- Behind the digits of a numeral its exponent is left, or no more than what stands behind it. -/
theorem readDigits_unsigned_append (hx : x.WellFormed) (r : CString) :
    ∃ whole fractional left, readDigits Char.isDigit (x.unsigned ++ r) =
        (whole, fractional, left) ∧ ¬(whole = [] ∧ fractional = []) ∧
      (∀ e ∈ x.exponent, left = e.text ++ r) ∧ (x.exponent = none → left.length ≤ r.length) := by
  have hmantissa := hx.mantissa
  have hmark := hx.mark
  unfold readDigits Numeral.unsigned Numeral.fractionText Numeral.exponentText
  rw [List.append_assoc, List.takeWhile_append_of_pos hx.whole,
    List.dropWhile_append_of_pos hx.whole]
  cases hf : x.fraction with
  | some f =>
    rw [hf, Option.getD_some] at hmantissa
    have hdigits := hx.fraction f hf
    simp only [Option.map_some, Option.getD_some, List.cons_append, List.append_assoc]
    rw [List.takeWhile_cons_of_neg (by decide), List.dropWhile_cons_of_neg (by decide)]
    simp only [List.append_nil]
    rw [List.takeWhile_append_of_pos hdigits, List.dropWhile_append_of_pos hdigits]
    refine ⟨_, _, _, rfl, ?_, ?_, ?_⟩
    · rw [List.append_eq_nil_iff]
      tauto
    · intro e he
      have hstop : e.mark.isDigit = false := by
        rcases hmark e he with h | h <;> rw [h] <;> rfl
      rw [Option.mem_def.1 he]
      exact List.dropWhile_cons_of_neg (by simp [hstop])
    · intro he
      rw [he]
      exact List.length_dropWhile_le _ _
  | none =>
    rw [hf] at hmantissa
    have hwhole : x.whole ≠ [] := by simpa using hmantissa
    simp only [Option.map_none, Option.getD_none, List.nil_append]
    cases he : x.exponent with
    | some e =>
      have hstop : e.mark.isDigit = false ∧ e.mark ≠ '.' := by
        rcases hmark e he with h | h <;> rw [h] <;> decide
      simp only [Option.map_some, Option.getD_some, JsonText.Exponent.text, List.cons_append]
      rw [List.takeWhile_cons_of_neg (by simp [hstop.1]),
        List.dropWhile_cons_of_neg (by simp [hstop.1])]
      split
      · rename_i heq
        exact absurd (List.cons.inj heq).1 hstop.2
      · refine ⟨_, _, _, rfl, by simp [hwhole], ?_, by simp⟩
        rintro e' ⟨⟩
        rfl
    | none =>
      simp only [Option.map_none, Option.getD_none, List.nil_append]
      have hle := List.length_dropWhile_le Char.isDigit r
      split
      · rename_i after hpoint
        rw [hpoint, List.length_cons] at hle
        have hle' := List.length_dropWhile_le Char.isDigit after
        exact ⟨_, _, _, rfl, by simp [hwhole], by simp, fun _ => by omega⟩
      · exact ⟨_, _, _, rfl, by simp [hwhole], by simp, fun _ => hle⟩

/-- No numeral that a text begins with reaches further than what is read. -/
theorem readDecimal_unsigned_append (hx : x.WellFormed) (r : CString) :
    ∃ magnitude left, readDecimal (x.unsigned ++ r) = some (magnitude, left) ∧
      left.length ≤ r.length := by
  obtain ⟨whole, fractional, left, hread, hne, hsome, hnone⟩ := readDigits_unsigned_append hx r
  simp only [readDecimal, hread, if_neg hne]
  refine ⟨_, _, rfl, ?_⟩
  cases he : x.exponent with
  | none => exact (readMarkedExponent_rest_le left).trans (hnone he)
  | some e =>
    rw [hsome e he]
    exact readMarkedExponent_text_append (hx.mark e he) (hx.exponent e he).1 (hx.exponent e he).2 r

theorem readSign_append {s : CString} (hs : s ≠ []) (r : CString) :
    readSign (s ++ r) = ((readSign s).1, (readSign s).2 ++ r) := by
  obtain ⟨c, s, rfl⟩ := List.exists_cons_of_ne_nil hs
  rw [List.cons_append]
  by_cases hminus : c = '-'
  · subst hminus
    rfl
  · by_cases hplus : c = '+'
    · subst hplus
      rfl
    · have hnone : ∀ t, readSign (c :: t) = (false, c :: t) := by
        intro t
        unfold readSign
        split
        · rename_i heq
          exact absurd (List.cons.inj heq).1 hminus
        · rename_i heq
          exact absurd (List.cons.inj heq).1 hplus
        · rfl
      rw [hnone, hnone, List.cons_append]

theorem text_ne_nil (hx : x.WellFormed) : x.text ≠ [] := by
  intro hnil
  simp only [Numeral.text, Numeral.unsigned, List.append_eq_nil_iff] at hnil
  obtain ⟨-, hwhole, hfraction, -⟩ := hnil
  rcases hx.mantissa with h | h
  · exact h hwhole
  · unfold Numeral.fractionText at hfraction
    cases hf : x.fraction with
    | none => exact h (by rw [hf]; rfl)
    | some f =>
      rw [hf] at hfraction
      cases hfraction

theorem parseNumber_reaches (p : Platform) (hx : NumeralTaken x) (r : CString) :
    ∃ d rest, parseNumber p (x.text ++ r) = some (d, rest) ∧ rest.length ≤ r.length := by
  have hchars := isNumberChar_text hx.toWellFormed
  obtain ⟨r', hr'⟩ : ∃ r', (r.take (63 - x.text.length)).takeWhile isNumberChar = r' := ⟨_, rfl⟩
  have hrun : ((x.text ++ r).take 63).takeWhile isNumberChar = x.text ++ r' := by
    rw [List.take_append, List.take_of_length_le hx.short, List.takeWhile_append_of_pos hchars, hr']
  have hrunChars : ∀ c ∈ x.text ++ r', isNumberChar c = true := by
    intro c hc
    rcases List.mem_append.1 hc with hc | hc
    · exact hchars c hc
    · rw [← hr'] at hc
      exact List.mem_takeWhile_imp hc
  have hsign : readSign (x.text ++ r') = (x.negative, x.unsigned ++ r') := by
    rw [readSign_append (text_ne_nil hx.toWellFormed), readSign_text hx.toWellFormed]
  obtain ⟨magnitude, left, hread, hle⟩ := readDecimal_unsigned_append hx.toWellFormed r'
  simp only [parseNumber, hrun, strtodText_numberChars p hrunChars, hsign, hread, Option.map_some]
  refine ⟨_, _, rfl, ?_⟩
  rw [List.length_drop, List.length_append, List.length_append]
  omega

theorem round_value_eq {y : Numeral} (p : Platform) (hx : x.WellFormed) (hy : y.WellFormed)
    (h : x.text = y.text) : p.round x.value = p.round y.value := by
  have hread := strtodText_numeral p hx
  rw [h, strtodText_numeral p hy] at hread
  simpa using hread.symm

/-- Nothing longer is a numeral when none of its characters follows. -/
theorem text_length_le_of_stop (hx : x.WellFormed) {s rest : CString}
    (hrest : ∀ c ∈ rest.head?, isNumberChar c = false) (h : x.text <+: s ++ rest) :
    x.text.length ≤ s.length := by
  by_contra hlong
  obtain ⟨u, hu⟩ := List.prefix_of_prefix_length_le (List.prefix_append s rest) h (by omega)
  rw [← hu, List.prefix_append_right_inj] at h
  cases u with
  | nil =>
    rw [List.append_nil] at hu
    rw [hu] at hlong
    exact hlong le_rfl
  | cons c u =>
    obtain ⟨v, rfl⟩ := h
    have hc := isNumberChar_text hx c (by rw [← hu]; simp)
    rw [hrest c rfl] at hc
    cases hc

/-- The number is that of the longest numeral that the text begins with. -/
theorem parseNumber_eq_some_iff {p : Platform} {s rest : CString} {d : CDouble}
    (hhead : ∀ c ∈ s.head?, c = '-' ∨ c.isDigit = true) : parseNumber p s = some (d, rest) ↔
      ∃ x, NumeralTaken x ∧ s = x.text ++ rest ∧ d = p.round x.value ∧
        ∀ y, NumeralTaken y → y.text <+: s → y.text.length ≤ x.text.length := by
  constructor
  · intro h
    obtain ⟨x, hx, hs, hd⟩ := parseNumber_split hhead h
    refine ⟨x, hx, hs, hd, ?_⟩
    rintro y hy ⟨r, hr⟩
    obtain ⟨d', rest', hparse, hle⟩ := parseNumber_reaches p hy r
    rw [hr, h] at hparse
    simp only [Option.some.injEq, Prod.mk.injEq] at hparse
    obtain ⟨rfl, rfl⟩ := hparse
    have hlength := congrArg List.length (hr.trans hs)
    rw [List.length_append, List.length_append] at hlength
    omega
  · rintro ⟨x, hx, hs, rfl, hlongest⟩
    obtain ⟨d', rest', hparse, hle⟩ := parseNumber_reaches p hx rest
    rw [← hs] at hparse
    obtain ⟨x', hx', hs', rfl⟩ := parseNumber_split hhead hparse
    have hreach := hlongest x' hx' ⟨rest', hs'.symm⟩
    have hlength := congrArg List.length (hs.symm.trans hs')
    rw [List.length_append, List.length_append] at hlength
    obtain ⟨htext, hrest⟩ := List.append_inj (hs.symm.trans hs') (by omega)
    rw [hparse, hrest, round_value_eq p hx.toWellFormed hx'.toWellFormed htext]

end

end Audd
