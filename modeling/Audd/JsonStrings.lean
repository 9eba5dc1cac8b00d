import Audd.JsonParse
import Audd.Lib.JsonText

/-! The texts that the parser of cJSON takes for a string.  Any byte may stand in one, and four
characters after `\u` that are no hexadecimal digits count as zero. -/

namespace Audd

open JsonText (Literal hexNumber utf8 escapes IsHigh IsLow pairPoint)

/-- A text in which every backslash has a character after it, and every quote a backslash before
it. -/
inductive Scanned : CString → Prop
  | nil : Scanned []
  | plain {c : Char} {t : CString} : c ≠ '"' → c ≠ '\\' → Scanned t → Scanned (c :: t)
  | pair {c : Char} {t : CString} : Scanned t → Scanned ('\\' :: c :: t)

theorem scanString_of_scanned {t : CString} (h : Scanned t) (rest : CString) :
    scanString (t ++ '"' :: rest) = some (t, rest) := by
  induction h with
  | nil => rfl
  | plain hquote hslash _ ih =>
    rw [List.cons_append, scanString, ih]
    · rfl
    · exact hquote
    · exact fun hc _ => hslash hc
    · exact fun _ _ hc _ => hslash hc
  | pair _ ih =>
    rw [List.cons_append, List.cons_append, scanString, ih]
    rfl

theorem scanned_of_scanString {s t rest : CString} (h : scanString s = some (t, rest)) :
    s = t ++ '"' :: rest ∧ Scanned t := by
  induction s using scanString.induct generalizing t with
  | case1 => cases h
  | case2 rest' =>
    obtain ⟨rfl, rfl⟩ := Prod.ext_iff.1 (Option.some.inj h)
    exact ⟨rfl, .nil⟩
  | case3 => cases h
  | case4 c s ih =>
    rw [scanString] at h
    obtain ⟨⟨t', rest'⟩, hscan, heq⟩ := Option.map_eq_some_iff.1 h
    obtain ⟨rfl, rfl⟩ := Prod.ext_iff.1 heq
    obtain ⟨rfl, hscanned⟩ := ih hscan
    exact ⟨rfl, hscanned.pair⟩
  | case5 c s hquote hone hpair ih =>
    rw [scanString] at h
    · obtain ⟨⟨t', rest'⟩, hscan, heq⟩ := Option.map_eq_some_iff.1 h
      obtain ⟨rfl, rfl⟩ := Prod.ext_iff.1 heq
      obtain ⟨rfl, hscanned⟩ := ih hscan
      refine ⟨rfl, .plain hquote ?_ hscanned⟩
      rintro rfl
      cases h : t' ++ '"' :: rest' with
      | nil => exact absurd h (by simp)
      | cons d _ => exact hpair d _ rfl h
    · exact hquote
    · exact hone
    · exact hpair

/-! ### The bytes of a code point -/

theorem continuation_byte (c : Nat) : (c ||| 0x80) &&& 0xBF = c % 64 + 0x80 := by
  have hbyte : ∀ x < 256, (x ||| 0x80) &&& 0xBF = x % 64 + 0x80 := by decide +kernel
  have hlow : ((c ||| 0x80) &&& 0xBF) % 2 ^ 8 = (c ||| 0x80) &&& 0xBF :=
    Nat.mod_eq_of_lt (Nat.lt_of_le_of_lt Nat.and_le_right (by decide))
  rw [← hlow, Nat.and_mod_two_pow, Nat.or_mod_two_pow]
  show (c % 256 ||| 0x80) &&& 0xBF = _
  rw [hbyte _ (Nat.mod_lt _ (by decide))]
  omega

theorem first_byte {mark bound : Nat} (h : (mark, bound) ∈ [(0xC0, 32), (0xE0, 16), (0xF0, 8)])
    {c : Nat} (hc : c < bound) : (c ||| mark) &&& 0xFF = c % bound + mark := by
  have hbytes : ∀ m ∈ [(0xC0, 32), (0xE0, 16), (0xF0, 8)], ∀ x < m.2,
      (x ||| m.1) &&& 0xFF = x % m.2 + m.1 := by decide +kernel
  exact hbytes _ h c hc

theorem toNat_ofNat_valid {n : Nat} (h : n < 0xD800 ∨ (0xDFFF < n ∧ n < 0x110000)) :
    (Char.ofNat n).val.toNat = n := by
  rw [Char.ofNat, dif_pos h]
  rfl

theorem utf8_eq {n : Nat} (h : n < 0xD800 ∨ (0xDFFF < n ∧ n < 0x110000)) : utf8 n =
    if n ≤ 0x7F then [Char.ofNat n]
    else if n ≤ 0x7FF then [Char.ofNat (n / 64 % 32 + 0xC0), Char.ofNat (n % 64 + 0x80)]
    else if n ≤ 0xFFFF then [Char.ofNat (n / 4096 % 16 + 0xE0), Char.ofNat (n / 64 % 64 + 0x80),
      Char.ofNat (n % 64 + 0x80)]
    else [Char.ofNat (n / 262144 % 8 + 0xF0), Char.ofNat (n / 4096 % 64 + 0x80),
      Char.ofNat (n / 64 % 64 + 0x80), Char.ofNat (n % 64 + 0x80)] := by
  have hbyte : ∀ x < 256, (UInt8.ofNat x).toNat = x := fun x hx => by
    rw [UInt8.toNat_ofNat']
    omega
  unfold utf8 String.utf8EncodeChar
  simp only [toNat_ofNat_valid h]
  split_ifs with h1 h2 h3
  · rw [List.map_singleton, hbyte n (by omega)]
  · simp only [List.map_cons, List.map_nil]
    rw [hbyte _ (by omega), hbyte _ (by omega)]
  · simp only [List.map_cons, List.map_nil]
    rw [hbyte _ (by omega), hbyte _ (by omega), hbyte _ (by omega)]
  · simp only [List.map_cons, List.map_nil]
    rw [hbyte _ (by omega), hbyte _ (by omega), hbyte _ (by omega), hbyte _ (by omega)]

/-- The code writes UTF-8. -/
theorem utf8Encode_eq {n : Nat} (h : n < 0xD800 ∨ (0xDFFF < n ∧ n < 0x110000)) :
    utf8Encode n = some (utf8 n) := by
  have hshift : ∀ c : Nat, c >>> 6 = c / 64 := fun c => Nat.shiftRight_eq_div_pow c 6
  rw [utf8_eq h, utf8Encode]
  by_cases h1 : n < 0x80
  · have hsmall : n &&& 0x7F = n := by
      rw [show (0x7F : Nat) = 2 ^ 7 - 1 from rfl, Nat.and_two_pow_sub_one_eq_mod]
      omega
    rw [if_pos h1, if_pos (show n ≤ 0x7F by omega), hsmall]
  · rw [if_neg h1, if_neg (show ¬n ≤ 0x7F by omega)]
    by_cases h2 : n < 0x800
    · have hfirst := @first_byte 0xC0 32 (by simp) (n / 64) (by omega)
      rw [if_pos (show n ≤ 0x7FF by omega)]
      simp only [if_pos h2, utf8Rest, hshift, continuation_byte, hfirst]
    · rw [if_neg (show ¬n ≤ 0x7FF by omega)]
      by_cases h3 : n < 0x10000
      · have hfirst := @first_byte 0xE0 16 (by simp) (n / 4096) (by omega)
        have hdiv : n / 64 / 64 = n / 4096 := by omega
        rw [if_pos (show n ≤ 0xFFFF by omega)]
        simp only [if_neg h2, if_pos h3, utf8Rest, hshift, continuation_byte, hdiv, hfirst]
      · have hfirst := @first_byte 0xF0 8 (by simp) (n / 262144) (by omega)
        have hdiv : n / 64 / 64 = n / 4096 := by omega
        have hdiv' : n / 4096 / 64 = n / 262144 := by omega
        have hmax : n ≤ 0x10FFFF := by omega
        rw [if_neg (show ¬n ≤ 0xFFFF by omega)]
        simp only [if_neg h2, if_neg h3, if_pos hmax, utf8Rest, hshift, continuation_byte, hdiv,
          hdiv', hfirst]

/-! ### What a scanned text decodes to -/

/-- Four characters after `\u`: digits that are not hexadecimal make it a zero. -/
def codeTaken (h : CString) (n : Nat) : Prop := h.length = 4 ∧ n = (hexNumber h).getD 0

def plainTaken (c : Char) : Prop := c ≠ '\\'

theorem parseHex4_append {h : CString} (hlength : h.length = 4) (t : CString) :
    parseHex4 (h ++ t) = (hexNumber h).getD 0 := by
  rw [parseHex4, ← hlength, List.take_left]
  rfl

theorem hexDigit_lt {c : Char} {d : Nat} (h : JsonText.hexDigit c = some d) : d < 16 := by
  unfold JsonText.hexDigit at h
  split_ifs at h with hdigit hlower hupper
  · have hc := of_isDigit (P := fun c => c.toNat - '0'.toNat < 16) (by decide) hdigit
    exact Option.some.inj h ▸ hc
  · have hlow : 97 ≤ c.toNat := hlower.1
    have hhigh : c.toNat ≤ 102 := hlower.2
    rw [← Option.some.inj h, show 'a'.toNat = 97 from rfl]
    omega
  · have hlow : 65 ≤ c.toNat := hupper.1
    have hhigh : c.toNat ≤ 70 := hupper.2
    rw [← Option.some.inj h, show 'A'.toNat = 65 from rfl]
    omega

theorem hexNumber_lt {digits : CString} {n : Nat} (h : hexNumber digits = some n) :
    n < 16 ^ digits.length := by
  have hfold : ∀ (digits : CString) (a n : Nat),
      digits.foldlM (fun n c => (JsonText.hexDigit c).map (16 * n + ·)) a = some n →
      n < 16 ^ digits.length * (a + 1) := by
    intro digits
    induction digits with
    | nil =>
      rintro a n h
      rw [← Option.some.inj h]
      simp
    | cons c digits ih =>
      intro a n h
      rw [List.foldlM_cons] at h
      obtain ⟨b, hb, h⟩ := Option.bind_eq_some_iff.1 h
      obtain ⟨d, hd, rfl⟩ := Option.map_eq_some_iff.1 hb
      have hlt := hexDigit_lt hd
      calc n < 16 ^ digits.length * (16 * a + d + 1) := ih _ n h
        _ ≤ 16 ^ digits.length * (16 * (a + 1)) := Nat.mul_le_mul_left _ (by omega)
        _ = 16 ^ (c :: digits).length * (a + 1) := by
          rw [List.length_cons, pow_succ, mul_assoc]
  simpa using hfold digits 0 n h

theorem codeTaken_lt {h : CString} {n : Nat} (hn : codeTaken h n) : n < 0x10000 := by
  obtain ⟨hlength, rfl⟩ := hn
  cases hh : hexNumber h with
  | none => decide
  | some n =>
    have hlt := hexNumber_lt hh
    rw [hlength] at hlt
    exact hlt

theorem codeTaken_valid {h : CString} {n : Nat} (hn : codeTaken h n) (hhigh : ¬IsHigh n)
    (hlow : ¬IsLow n) : n < 0xD800 ∨ (0xDFFF < n ∧ n < 0x110000) := by
  have hlt := codeTaken_lt hn
  unfold IsHigh at hhigh
  unfold IsLow at hlow
  omega

theorem pairPoint_eq {n m : Nat} (hn : IsHigh n) (hm : IsLow m) :
    0x10000 + (((n &&& 0x3FF) <<< 10) ||| (m &&& 0x3FF)) = pairPoint n m := by
  have hand : ∀ k : Nat, k &&& 0x3FF = k % 1024 := fun k => Nat.and_two_pow_sub_one_eq_mod k 10
  have hlt : m % 1024 < 2 ^ 10 := Nat.mod_lt m (Nat.succ_pos _)
  unfold IsHigh at hn
  unfold IsLow at hm
  unfold pairPoint
  rw [hand, hand, ← Nat.shiftLeft_add_eq_or_of_lt hlt, Nat.shiftLeft_eq]
  omega

theorem pairPoint_valid {n m : Nat} (hn : IsHigh n) (hm : IsLow m) :
    pairPoint n m < 0xD800 ∨ (0xDFFF < pairPoint n m ∧ pairPoint n m < 0x110000) := by
  obtain ⟨hn1, hn2⟩ := hn
  obtain ⟨hm1, hm2⟩ := hm
  unfold pairPoint
  omega

theorem utf16Literal_unicode {h t : CString} {n : Nat} (hn : codeTaken h n) (hhigh : ¬IsHigh n)
    (hlow : ¬IsLow n) : utf16LiteralToUtf8 ('\\' :: 'u' :: (h ++ t)) = some (utf8 n, 6) := by
  have hhex : parseHex4 (('\\' :: 'u' :: (h ++ t)).drop 2) = n :=
    (parseHex4_append hn.1 t).trans hn.2.symm
  have hlength : ¬('\\' :: 'u' :: (h ++ t)).length < 6 := by
    simp only [List.length_cons, List.length_append, hn.1]
    omega
  have hnhigh : ¬(0xD800 ≤ n ∧ n ≤ 0xDBFF) := hhigh
  have hnlow : ¬(0xDC00 ≤ n ∧ n ≤ 0xDFFF) := hlow
  simp only [utf16LiteralToUtf8, if_neg hlength, hhex]
  rw [if_neg hnlow, if_neg hnhigh, utf8Encode_eq (codeTaken_valid hn hhigh hlow)]
  rfl

theorem utf16Literal_pair {h l t : CString} {n m : Nat} (hn : codeTaken h n) (hm : codeTaken l m)
    (hhigh : IsHigh n) (hlow : IsLow m) :
    utf16LiteralToUtf8 ('\\' :: 'u' :: (h ++ '\\' :: 'u' :: (l ++ t))) =
      some (utf8 (pairPoint n m), 12) := by
  have hhex : parseHex4 (('\\' :: 'u' :: (h ++ '\\' :: 'u' :: (l ++ t))).drop 2) = n :=
    (parseHex4_append hn.1 _).trans hn.2.symm
  have hdrop : ('\\' :: 'u' :: (h ++ '\\' :: 'u' :: (l ++ t))).drop 6 =
      '\\' :: 'u' :: (l ++ t) := by
    show (h ++ _).drop 4 = _
    rw [← hn.1, List.drop_left]
  have hhex' : parseHex4 (('\\' :: 'u' :: (l ++ t)).drop 2) = m :=
    (parseHex4_append hm.1 t).trans hm.2.symm
  have hlength : ¬('\\' :: 'u' :: (h ++ '\\' :: 'u' :: (l ++ t))).length < 6 := by
    simp only [List.length_cons, List.length_append, hn.1]
    omega
  have hlength' : ¬('\\' :: 'u' :: (l ++ t)).length < 6 := by
    simp only [List.length_cons, List.length_append, hm.1]
    omega
  have hnlow : ¬(0xDC00 ≤ n ∧ n ≤ 0xDFFF) := by
    unfold IsHigh at hhigh
    omega
  have hmlow : ¬(m < 0xDC00 ∨ m > 0xDFFF) := by
    unfold IsLow at hlow
    omega
  have hnhigh : 0xD800 ≤ n ∧ n ≤ 0xDBFF := hhigh
  simp only [utf16LiteralToUtf8, if_neg hlength, hhex, if_neg hnlow]
  rw [if_pos hnhigh]
  simp only [hdrop, if_neg hlength', hhex', if_neg hmlow]
  rw [if_neg (by simp), pairPoint_eq hhigh hlow, utf8Encode_eq (pairPoint_valid hhigh hlow)]
  rfl

/-- The converse: what is converted is one of the two. -/
theorem utf16Literal_split {t bytes : CString} {k : Nat}
    (h : utf16LiteralToUtf8 ('\\' :: 'u' :: t) = some (bytes, k)) :
    (∃ h n t', t = h ++ t' ∧ codeTaken h n ∧ ¬IsHigh n ∧ ¬IsLow n ∧ bytes = utf8 n ∧ k = 6) ∨
    ∃ h l n m t', t = h ++ '\\' :: 'u' :: (l ++ t') ∧ codeTaken h n ∧ codeTaken l m ∧ IsHigh n ∧
      IsLow m ∧ bytes = utf8 (pairPoint n m) ∧ k = 12 := by
  have hlength : ¬('\\' :: 'u' :: t).length < 6 := fun hlt => by
    rw [utf16LiteralToUtf8, if_pos hlt] at h
    cases h
  have hfour : (t.take 4).length = 4 := by
    simp only [List.length_cons] at hlength
    rw [List.length_take]
    omega
  obtain ⟨n, hn⟩ : ∃ n, n = (hexNumber (t.take 4)).getD 0 := ⟨_, rfl⟩
  have hhex : parseHex4 (('\\' :: 'u' :: t).drop 2) = n := by
    show parseHex4 t = n
    rw [hn, ← parseHex4_append hfour (t.drop 4), List.take_append_drop]
  have hsplit := (List.take_append_drop 4 t).symm
  simp only [utf16LiteralToUtf8, if_neg hlength, hhex] at h
  by_cases hlow : 0xDC00 ≤ n ∧ n ≤ 0xDFFF
  · rw [if_pos hlow] at h
    cases h
  · rw [if_neg hlow] at h
    by_cases hhigh : 0xD800 ≤ n ∧ n ≤ 0xDBFF
    · rw [if_pos hhigh] at h
      refine .inr ?_
      have hdrop : ('\\' :: 'u' :: t).drop 6 = t.drop 4 := rfl
      rw [hdrop] at h
      by_cases hshort : (t.drop 4).length < 6
      · rw [if_pos hshort] at h
        cases h
      · rw [if_neg hshort] at h
        by_cases hmark : (t.drop 4).take 2 = ['\\', 'u']
        · rw [if_neg (not_not_intro hmark)] at h
          obtain ⟨u, hu⟩ : ∃ u, t.drop 4 = '\\' :: 'u' :: u := by
            have hjoin := List.take_append_drop 2 (t.drop 4)
            rw [hmark] at hjoin
            exact ⟨_, hjoin.symm⟩
          have hfour' : (u.take 4).length = 4 := by
            rw [hu] at hshort
            simp only [List.length_cons] at hshort
            rw [List.length_take]
            omega
          obtain ⟨m, hm⟩ : ∃ m, m = (hexNumber (u.take 4)).getD 0 := ⟨_, rfl⟩
          have hhex' : parseHex4 ((t.drop 4).drop 2) = m := by
            rw [hu]
            show parseHex4 u = m
            rw [hm, ← parseHex4_append hfour' (u.drop 4), List.take_append_drop]
          rw [hhex'] at h
          by_cases hmlow : IsLow m
          · have hcond : ¬(m < 0xDC00 ∨ m > 0xDFFF) := by
              unfold IsLow at hmlow
              omega
            rw [if_neg hcond, pairPoint_eq hhigh hmlow,
              utf8Encode_eq (pairPoint_valid hhigh hmlow), Option.map_some, Option.some.injEq,
              Prod.mk.injEq] at h
            obtain ⟨rfl, rfl⟩ := h
            refine ⟨t.take 4, u.take 4, n, m, u.drop 4, ?_, ⟨hfour, hn⟩, ⟨hfour', hm⟩, hhigh,
              hmlow, rfl, rfl⟩
            rw [List.take_append_drop, ← hu, List.take_append_drop]
          · have hcond : m < 0xDC00 ∨ m > 0xDFFF := by
              unfold IsLow at hmlow
              omega
            rw [if_pos hcond] at h
            cases h
        · rw [if_pos hmark] at h
          cases h
    · rw [if_neg hhigh, utf8Encode_eq (codeTaken_valid ⟨hfour, hn⟩ hhigh hlow), Option.map_some,
        Option.some.injEq, Prod.mk.injEq] at h
      obtain ⟨rfl, rfl⟩ := h
      exact .inl ⟨t.take 4, n, t.drop 4, hsplit, ⟨hfour, hn⟩, hhigh, hlow, rfl, rfl⟩

theorem decodeString_skip (k : Nat) (s : CString) :
    decodeString k s = decodeString 0 (s.drop k) := by
  induction k generalizing s with
  | zero => rfl
  | succ k ih =>
    cases s with
    | nil => rfl
    | cons c s => exact ih s

theorem decodeString_plain {c : Char} (hc : c ≠ '\\') (s : CString) :
    decodeString 0 (c :: s) = (decodeString 0 s).map (c :: ·) := by
  rw [decodeString]
  · cases decodeString 0 s <;> rfl
  · exact fun h => hc h

theorem decodeString_escape {e : Char} (he : e ≠ 'u') (s : CString) :
    decodeString 0 ('\\' :: e :: s) =
      (unescape e).bind fun c => (decodeString 0 s).map (c :: ·) := by
  rw [decodeString]
  simp only [List.head?_cons]
  rw [decodeString_skip 1]
  show (unescape e).bind _ = _
  congr 1
  funext c
  show (decodeString 0 s).bind _ = _
  cases decodeString 0 s <;> rfl

theorem decodeString_utf16 (s : CString) : decodeString 0 ('\\' :: 'u' :: s) =
    (utf16LiteralToUtf8 ('\\' :: 'u' :: s)).bind fun converted =>
      (decodeString (converted.2 - 1) ('u' :: s)).map (converted.1 ++ ·) := by
  rw [decodeString]
  simp only [List.head?_cons]
  show (utf16LiteralToUtf8 ('\\' :: 'u' :: s)).bind _ = _
  congr 1
  funext converted
  cases decodeString (converted.2 - 1) ('u' :: s) <;> rfl

theorem unescape_eq_some_iff {e c : Char} : unescape e = some c ↔ (e, c) ∈ escapes := by
  unfold unescape
  constructor
  · intro h
    split at h <;> cases h <;> simp [escapes]
  · intro h
    simp only [escapes, List.mem_cons, Prod.mk.injEq, List.not_mem_nil, or_false] at h
    rcases h with h | h | h | h | h | h | h | h <;> obtain ⟨rfl, rfl⟩ := h <;> rfl

theorem escapes_ne_u {e c : Char} (h : (e, c) ∈ escapes) : e ≠ 'u' := by
  rintro rfl
  revert h
  simp [escapes]

theorem drop_unicode {h : CString} (hlength : h.length = 4) (t : CString) :
    ('u' :: (h ++ t)).drop 5 = t := by
  show (h ++ t).drop 4 = t
  rw [← hlength, List.drop_left]

theorem drop_pair {h l : CString} (hlength : h.length = 4) (hlength' : l.length = 4)
    (t : CString) : ('u' :: (h ++ '\\' :: 'u' :: (l ++ t))).drop 11 = t := by
  have hfirst := drop_unicode hlength ('\\' :: 'u' :: (l ++ t))
  rw [show 11 = 5 + 6 from rfl, ← List.drop_drop, hfirst]
  exact drop_unicode hlength' t

theorem decodeString_of_literal {content t : CString}
    (h : Literal plainTaken codeTaken content t) : decodeString 0 t = some content := by
  induction h with
  | nil => rfl
  | plain hc _ ih => rw [decodeString_plain hc, ih, Option.map_some]
  | escape he _ ih =>
    rw [decodeString_escape (escapes_ne_u he), unescape_eq_some_iff.2 he, Option.bind_some, ih,
      Option.map_some]
  | @unicode h n s t hn hhigh hlow _ ih =>
    rw [decodeString_utf16, utf16Literal_unicode hn hhigh hlow, Option.bind_some]
    show (decodeString 5 _).map _ = _
    rw [decodeString_skip, drop_unicode hn.1, ih, Option.map_some]
  | @pair h l n m s t hn hm hhigh hlow _ ih =>
    rw [decodeString_utf16, utf16Literal_pair hn hm hhigh hlow, Option.bind_some]
    show (decodeString 11 _).map _ = _
    rw [decodeString_skip, drop_pair hn.1 hm.1, ih, Option.map_some]

theorem literal_of_decodeString {content t : CString} (h : decodeString 0 t = some content) :
    Literal plainTaken codeTaken content t := by
  induction hlength : t.length using Nat.strong_induction_on generalizing t content with
  | _ n ih =>
    cases t with
    | nil =>
      obtain rfl := Option.some.inj h
      exact .nil
    | cons c t =>
      by_cases hc : c = '\\'
      · subst hc
        cases t with
        | nil => cases h
        | cons e t =>
          by_cases he : e = 'u'
          · subst he
            rw [decodeString_utf16] at h
            obtain ⟨⟨bytes, k⟩, hconv, hrest⟩ := Option.bind_eq_some_iff.1 h
            obtain ⟨content', hdecode, rfl⟩ := Option.map_eq_some_iff.1 hrest
            rw [decodeString_skip] at hdecode
            simp only [List.length_cons] at hlength
            show Literal plainTaken codeTaken (bytes ++ content') _
            rcases utf16Literal_split hconv with
              ⟨d, n, t', rfl, hn, hhigh, hlow, hbytes, rfl⟩ |
              ⟨d, l, n, m, t', rfl, hn, hm, hhigh, hlow, hbytes, rfl⟩
            · rw [hbytes]
              change decodeString 0 (('u' :: (d ++ t')).drop 5) = _ at hdecode
              rw [drop_unicode hn.1] at hdecode
              rw [List.length_append] at hlength
              exact .unicode hn hhigh hlow (ih t'.length (by omega) hdecode rfl)
            · rw [hbytes]
              change decodeString 0 (('u' :: (d ++ _)).drop 11) = _ at hdecode
              rw [drop_pair hn.1 hm.1] at hdecode
              simp only [List.length_append, List.length_cons] at hlength
              exact .pair hn hm hhigh hlow (ih t'.length (by omega) hdecode rfl)
          · rw [decodeString_escape he] at h
            obtain ⟨d, hd, hrest⟩ := Option.bind_eq_some_iff.1 h
            obtain ⟨content', hdecode, rfl⟩ := Option.map_eq_some_iff.1 hrest
            simp only [List.length_cons] at hlength
            exact .escape (unescape_eq_some_iff.1 hd) (ih t.length (by omega) hdecode rfl)
      · rw [decodeString_plain hc] at h
        obtain ⟨content', hdecode, rfl⟩ := Option.map_eq_some_iff.1 h
        rw [List.length_cons] at hlength
        exact .plain hc (ih t.length (by omega) hdecode rfl)

/-- The strings that the parser takes. -/
def quotedTaken (content s : CString) : Prop :=
  ∃ t, s = '"' :: (t ++ ['"']) ∧ Scanned t ∧ Literal plainTaken codeTaken content t

theorem parseString_ok_quoted {content s : CString} (h : quotedTaken content s) (rest : CString) :
    (parseString (s ++ rest)).ok = some (upToNul content, rest) := by
  obtain ⟨t, rfl, hscanned, hliteral⟩ := h
  have hscan := scanString_of_scanned hscanned rest
  have hdecode := decodeString_of_literal hliteral
  have hs : '"' :: (t ++ ['"']) ++ rest = '"' :: (t ++ '"' :: rest) := by simp
  rw [hs]
  simp [parseString, hscan, hdecode]

theorem quoted_of_parseString {s name rest : CString}
    (h : (parseString s).ok = some (name, rest)) :
    ∃ content t, s = t ++ rest ∧ quotedTaken content t ∧ name = upToNul content := by
  unfold parseString at h
  split at h
  · rename_i s
    split at h
    · cases h
    · rename_i t rest' hscan
      obtain ⟨rfl, hscanned⟩ := scanned_of_scanString hscan
      simp only [AllocM.ok_bind, AllocM.ok_copy, AllocM.ok_pure, Option.map_eq_some_iff,
        Prod.mk.injEq] at h
      obtain ⟨content, hdecode, rfl, rfl⟩ := h
      exact ⟨content, '"' :: (t ++ ['"']), by simp,
        ⟨t, rfl, hscanned, literal_of_decodeString hdecode⟩, rfl⟩
  · cases h

end Audd
