import Audd.Json

/-! Strings that are read as scalars.  An integer is read from a plain decimal, and a boolean from
a few words; any other text gives the caller's default. -/

namespace Audd

/-! ### Plain decimals -/

/-- A decimal without an exponent: a sign or none, and digits with a point or none. -/
structure PlainDecimal where
  negative : Option Bool
  whole : CString
  fraction : Option CString
  whole_digits : ∀ c ∈ whole, c.isDigit = true
  fraction_digits : ∀ f ∈ fraction, ∀ c ∈ f, c.isDigit = true
  some_digit : whole ≠ [] ∨ fraction.getD [] ≠ []

def signText : Option Bool → CString
  | none => []
  | some true => ['-']
  | some false => ['+']

namespace PlainDecimal

def unsigned (d : PlainDecimal) : CString := d.whole ++ (d.fraction.map ('.' :: ·)).getD []

def text (d : PlainDecimal) : CString := signText d.negative ++ d.unsigned

def magnitude (d : PlainDecimal) : ℚ :=
  digitsValue (d.whole ++ d.fraction.getD []) * (10 : ℚ) ^ (-((d.fraction.getD []).length : Int))

def value (d : PlainDecimal) : ℚ := if d.negative = some true then -d.magnitude else d.magnitude

end PlainDecimal

/-- A rational truncated towards zero. -/
def truncated (q : ℚ) : Int := q.num.tdiv q.den

def trimmed (s : CString) : CString := (s.dropWhile isspace).rdropWhile isspace

/-- The text, trimmed, is the plain decimal and short enough to be looked at. -/
def Reads (s : CString) (d : PlainDecimal) : Prop := trimmed s = d.text ∧ (trimmed s).length ≤ 63

/-- The nearest integer of 64 bits. -/
def saturated (n : Int) : Int := max (-2 ^ 63) (min n (2 ^ 63 - 1))

/-! ### What the scanners make of one -/

namespace PlainDecimal

variable {p : Platform} (d : PlainDecimal)

theorem unsigned_head {c : Char} (h : d.unsigned.head? = some c) : c.isDigit = true ∨ c = '.' := by
  unfold unsigned at h
  cases hw : d.whole with
  | cons x whole =>
    rw [hw] at h
    obtain rfl := Option.some.inj h
    exact .inl (d.whole_digits x (by rw [hw]; exact List.mem_cons_self))
  | nil =>
    rw [hw] at h
    cases hf : d.fraction with
    | none => rw [hf] at h; cases h
    | some f => rw [hf] at h; exact .inr (Option.some.inj h).symm

theorem unsigned_ne_nil : d.unsigned ≠ [] := by
  intro h
  obtain ⟨hwhole, hfraction⟩ := List.append_eq_nil_iff.1 h
  rcases d.some_digit with hdigit | hdigit
  · exact hdigit hwhole
  · cases hf : d.fraction with
    | none => exact hdigit (by rw [hf]; rfl)
    | some f => rw [hf] at hfraction; cases hfraction

theorem readSign_text : readSign d.text = (decide (d.negative = some true), d.unsigned) := by
  unfold text
  rcases d.negative with _ | _ | _
  · obtain ⟨c, rest, hrest⟩ := List.exists_cons_of_ne_nil d.unsigned_ne_nil
    have hc := d.unsigned_head (c := c) (by rw [hrest]; rfl)
    have hsign : c ≠ '-' ∧ c ≠ '+' := by
      rcases hc with hc | rfl
      · exact of_isDigit (P := fun c => c ≠ '-' ∧ c ≠ '+') (by decide) hc
      · decide
    show readSign d.unsigned = (false, d.unsigned)
    rw [hrest]
    unfold readSign
    split
    · rename_i heq
      exact absurd (List.cons.inj heq).1 hsign.1
    · rename_i heq
      exact absurd (List.cons.inj heq).1 hsign.2
    · rfl
  · rfl
  · rfl

/-- Every character of a plain decimal is a digit, the point or a sign. -/
theorem mem_text {c : Char} (h : c ∈ d.text) : c.isDigit = true ∨ c ∈ ['.', '-', '+'] := by
  rw [text, unsigned, List.mem_append, List.mem_append] at h
  rcases h with h | h | h
  · rcases hn : d.negative with _ | _ | _ <;> rw [hn] at h <;> simp_all [signText]
  · exact .inl (d.whole_digits c h)
  · cases hf : d.fraction with
    | none => rw [hf] at h; cases h
    | some f =>
      rw [hf] at h
      rcases List.mem_cons.1 h with rfl | h
      · exact .inr (by simp)
      · exact .inl (d.fraction_digits f hf c h)

theorem not_alpha {c : Char} (h : c ∈ d.text) : c.isAlpha = false := by
  rcases d.mem_text h with h | h
  · exact of_isDigit (P := fun c => c.isAlpha = false) (by decide) h
  · exact forall_mem_of_all (P := fun c => c.isAlpha = false) (by decide) c h

theorem not_space {c : Char} (h : c ∈ d.text) : isspace c = false := by
  rcases d.mem_text h with h | h
  · exact isspace_digit h
  · exact forall_mem_of_all (P := fun c => isspace c = false) (by decide) c h

theorem text_ne_nil : d.text ≠ [] := List.append_ne_nil_of_right_ne_nil _ d.unsigned_ne_nil

theorem dropWhile_isspace_text : d.text.dropWhile isspace = d.text := by
  obtain ⟨c, rest, hc⟩ := List.exists_cons_of_ne_nil d.text_ne_nil
  have hspace : isspace c = false := d.not_space (hc ▸ List.mem_cons_self)
  rw [hc, List.dropWhile_cons_of_neg (by simp [hspace])]

theorem looksLikePlainDecimal_text : looksLikePlainDecimal d.text = true := by
  have hmem : ∀ c ∈ d.unsigned, c ∈ d.text := fun c hc => List.mem_append_right _ hc
  have halpha : d.unsigned.any Char.isAlpha = false :=
    List.any_eq_false.2 fun c hc => by simpa using d.not_alpha (hmem c hc)
  have hx (s : CString) (hs : s.any Char.isAlpha = true) : d.unsigned.take 2 ≠ s := by
    rintro rfl
    obtain ⟨c, hc, hca⟩ := List.any_eq_true.1 hs
    rw [d.not_alpha (hmem c (List.mem_of_mem_take hc))] at hca
    cases hca
  unfold looksLikePlainDecimal
  rw [readSign_text]
  simp only [hx ("0x" : String).toList (by decide), hx ("0X" : String).toList (by decide), or_self,
    if_false, halpha, Bool.not_false]

/-- The digits before the point, and what is left after them. -/
theorem scan_whole : d.unsigned.takeWhile Char.isDigit = d.whole ∧
    d.unsigned.dropWhile Char.isDigit = (d.fraction.map ('.' :: ·)).getD [] := by
  apply takeWhile_digits d.whole_digits
  cases d.fraction with
  | none => simp
  | some f => simp

/-- The integer before the point, with its sign. -/
def integer : Int :=
  if d.negative = some true then -digitsValue d.whole else digitsValue d.whole

theorem strtoll_text : strtoll d.text = if d.whole = [] then none
    else some (saturated d.integer, (d.fraction.map ('.' :: ·)).getD []) := by
  obtain ⟨htake, hdrop⟩ := d.scan_whole
  rw [strtoll, d.dropWhile_isspace_text, d.readSign_text]
  simp only [htake, hdrop, decide_eq_true_eq]
  rfl

theorem strtod_text : strtod p d.text = some (p.round d.value, []) := by
  obtain ⟨htake, hdrop⟩ := d.scan_whole
  have hinf : d.unsigned.take 3 ≠ ("inf" : String).toList := by
    intro h
    have hi : 'i' ∈ d.unsigned.take 3 := h ▸ (by decide)
    have := d.not_alpha (List.mem_append_right _ (List.mem_of_mem_take hi))
    exact absurd this (by decide)
  rw [strtod, d.dropWhile_isspace_text, d.readSign_text]
  simp only [htake, hdrop, hinf, if_false]
  cases hf : d.fraction with
  | none =>
    have hwhole : d.whole ≠ [] := by simpa [hf] using d.some_digit
    simp [hwhole, readExponent, value, magnitude, hf]
  | some f =>
    have hdigits : f.takeWhile Char.isDigit = f ∧ f.dropWhile Char.isDigit = [] :=
      ⟨List.takeWhile_eq_self_iff.2 (d.fraction_digits f hf),
        List.dropWhile_eq_nil_iff.2 (d.fraction_digits f hf)⟩
    have hne : ¬(d.whole = [] ∧ f = []) := by
      rintro ⟨hwhole, rfl⟩
      simpa [hf, hwhole] using d.some_digit
    simp [hdigits, hne, readExponent, value, magnitude, hf]

theorem value_of_integer (h : d.fraction = none) : d.value = d.integer := by
  simp only [value, magnitude, integer, h, Option.getD_none, List.append_nil, List.length_nil]
  split <;> simp

end PlainDecimal

/-! ### What the scanners accept -/

theorem readSign_split (s : CString) : ∃ negative, s = signText negative ++ (readSign s).2 := by
  unfold readSign
  split
  · exact ⟨some true, rfl⟩
  · exact ⟨some false, rfl⟩
  · exact ⟨none, rfl⟩

theorem readExponent_of_not_alpha {s : CString} (h : ∀ c ∈ s, c.isAlpha = false) :
    readExponent s = (0, s) := by
  unfold readExponent
  split
  · exact absurd (h 'e' List.mem_cons_self) (by decide)
  · rfl

section

variable {p : Platform} {s : CString}

theorem not_alpha_of_looks (h : looksLikePlainDecimal s = true) :
    ∀ c ∈ (readSign s).2, c.isAlpha = false := by
  unfold looksLikePlainDecimal at h
  dsimp only at h
  split at h
  · cases h
  · simpa using h

theorem plainDecimal_of_strtoll {n : Int} (hspace : s.dropWhile isspace = s)
    (h : strtoll s = some (n, [])) : ∃ d : PlainDecimal, s = d.text := by
  obtain ⟨negative, hs⟩ := readSign_split s
  rw [strtoll, hspace] at h
  dsimp only at h
  split at h
  · cases h
  · rename_i hdigits
    have hrest := (Prod.ext_iff.1 (Option.some.inj h)).2
    refine ⟨⟨negative, (readSign s).2, none, List.dropWhile_eq_nil_iff.1 hrest, by simp, .inl ?_⟩,
      ?_⟩
    · rintro hnil
      rw [hnil] at hdigits
      exact hdigits rfl
    · simpa [PlainDecimal.text, PlainDecimal.unsigned] using hs

theorem plainDecimal_of_strtod {x : CDouble} (hspace : s.dropWhile isspace = s)
    (halpha : ∀ c ∈ (readSign s).2, c.isAlpha = false) (h : strtod p s = some (x, [])) :
    ∃ d : PlainDecimal, s = d.text := by
  obtain ⟨negative, hs⟩ := readSign_split s
  generalize hu : (readSign s).2 = u at hs halpha
  have hinf : u.take 3 ≠ ("inf" : String).toList := by
    intro hinf
    have hi : 'i' ∈ u.take 3 := hinf ▸ (by decide)
    exact absurd (halpha 'i' (List.mem_of_mem_take hi)) (by decide)
  have hdigits : ∀ c ∈ u.takeWhile Char.isDigit, c.isDigit = true :=
    fun c hc => List.mem_takeWhile_imp hc
  have hjoin := List.takeWhile_append_dropWhile (p := Char.isDigit) (l := u)
  have hafter : ∀ c ∈ u.dropWhile Char.isDigit, c.isAlpha = false :=
    fun c hc => halpha c ((List.dropWhile_sublist _).subset hc)
  rw [strtod, hspace] at h
  simp only [hu, hinf, if_false] at h
  split at h
  · -- a point, with the digits after it
    rename_i after hpoint
    dsimp only at h
    split at h
    · cases h
    · rename_i hsome
      rw [hpoint] at hafter hjoin
      have hrest : ∀ c ∈ after.dropWhile Char.isDigit, c.isAlpha = false :=
        fun c hc => hafter c (List.mem_cons_of_mem _ ((List.dropWhile_sublist _).subset hc))
      rw [readExponent_of_not_alpha hrest] at h
      have hnil := List.dropWhile_eq_nil_iff.1 (Prod.ext_iff.1 (Option.some.inj h)).2
      rw [List.takeWhile_eq_self_iff.2 hnil] at hsome
      refine ⟨⟨negative, u.takeWhile Char.isDigit, some after, hdigits, by simpa using hnil,
        not_and_or.1 hsome⟩, ?_⟩
      exact hs.trans (congrArg (signText negative ++ ·) hjoin.symm)
  · rename_i hpoint
    dsimp only at h
    split at h
    · cases h
    · rename_i hsome
      rw [readExponent_of_not_alpha hafter] at h
      have hnil : u.dropWhile Char.isDigit = [] := (Prod.ext_iff.1 (Option.some.inj h)).2
      rw [hnil] at hjoin
      refine ⟨⟨negative, u.takeWhile Char.isDigit, none, hdigits, by simp,
        .inl fun hwhole => hsome ⟨hwhole, rfl⟩⟩, ?_⟩
      exact hs.trans (congrArg (signText negative ++ ·) hjoin.symm)

/-! ### Integers -/

theorem trimmed_space (s : CString) : (trimmed s).dropWhile isspace = trimmed s := by
  rcases htrim : trimmed s with _ | ⟨c, rest⟩
  · rfl
  · have hprefix : c :: rest <+: s.dropWhile isspace := htrim ▸ List.rdropWhile_prefix _ _
    obtain ⟨tail, htail⟩ := hprefix
    have hhead := List.head?_dropWhile_not isspace s
    rw [← htail] at hhead
    rw [List.dropWhile_cons_of_neg (by simpa using hhead)]

theorem trimCopy_eq (s : CString) (outlen : Nat) : trimCopy s outlen =
    if trimmed s = [] ∨ outlen ≤ (trimmed s).length then none else some (trimmed s) := by
  simp [trimCopy, trimmed, List.length_eq_zero_iff]

theorem parseIntString_reads {d : PlainDecimal} (h : Reads s d) : parseIntString p s =
    if d.fraction = none then some (saturated d.integer)
    else match p.round d.value with
      | .finite q => some ((CDouble.finite q).toInt64 p)
      | .infinite _ => none := by
  obtain ⟨htext, hlength⟩ := h
  have htrim : trimCopy s 64 = some d.text := by
    rw [trimCopy_eq, if_neg, htext]
    rw [not_or, htext]
    exact ⟨d.text_ne_nil, by rw [← htext]; omega⟩
  simp only [parseIntString, htrim, Option.bind_eq_bind, Option.bind_some,
    d.looksLikePlainDecimal_text, Bool.not_true, Bool.false_eq_true, if_false, d.strtoll_text,
    d.strtod_text]
  cases hf : d.fraction with
  | none =>
    have hwhole : d.whole ≠ [] := by simpa [hf] using d.some_digit
    simp [hwhole]
  | some f =>
    by_cases hwhole : d.whole = [] <;> cases p.round d.value <;> simp [hwhole]

theorem reads_of_parseIntString {n : Int} (h : parseIntString p s = some n) :
    ∃ d, Reads s d := by
  obtain ⟨t, htrim, h⟩ := Option.bind_eq_some_iff.1 h
  rw [trimCopy_eq] at htrim
  split at htrim
  · cases htrim
  · rename_i hfits
    obtain rfl := Option.some.inj htrim
    have hlength : (trimmed s).length ≤ 63 := by omega
    split at h
    · cases h
    · rename_i hlooks
      have hlooks : looksLikePlainDecimal (trimmed s) = true := by simpa using hlooks
      have hdecimal : ∃ d : PlainDecimal, trimmed s = d.text := by
        split at h
        · rename_i hstrtoll
          exact plainDecimal_of_strtoll (trimmed_space s) hstrtoll
        · split at h
          · rename_i hstrtod
            exact plainDecimal_of_strtod (trimmed_space s) (not_alpha_of_looks hlooks) hstrtod
          · cases h
      obtain ⟨d, hd⟩ := hdecimal
      exact ⟨d, hd, hlength⟩

variable {obj : CJson} {key : CString}

/-- `n` is what an exact coercion of the text gives: the decimal that it reads as, truncated, where
that has 64 bits, and otherwise the default. -/
def ExactInt64 (s : CString) (default n : Int) : Prop :=
  (∀ d, Reads s d → n = if InRange 64 (truncated d.value) then truncated d.value else default) ∧
  ((∀ d, ¬Reads s d) → n = default)

theorem saturated_of_inRange {n : Int} (h : InRange 64 n) : saturated n = n := by
  obtain ⟨hlow, hhigh⟩ := h
  unfold saturated
  omega

theorem truncated_intCast (n : Int) : truncated n = n := by simp [truncated]

/-- A text that reads as a decimal gives it, held within the range where it has no point, and
converted where it has one. -/
theorem jsonGetInt64_reads (hp : p.round = .finite)
    (h : obj.getObjectItemCaseSensitive key = some (.string s)) (default : Int) {d : PlainDecimal}
    (hd : Reads s d) : jsonGetInt64 p obj key default =
      if d.fraction = none then saturated (truncated d.value)
      else (CDouble.finite d.value).toInt64 p := by
  simp only [jsonGetInt64, h, parseIntString_reads hd, hp]
  split
  · rename_i hnone
    rw [d.value_of_integer hnone, truncated_intCast]
    rfl
  · rfl

theorem jsonGetInt64_not_reads (h : obj.getObjectItemCaseSensitive key = some (.string s))
    (default : Int) (hd : ∀ d, ¬Reads s d) : jsonGetInt64 p obj key default = default := by
  have hnone : parseIntString p s = none := by
    rcases hparse : parseIntString p s with _ | n
    · rfl
    · obtain ⟨d, hreads⟩ := reads_of_parseIntString hparse
      exact absurd hreads (hd d)
  simp [jsonGetInt64, h, hnone]

/-- The coercion is exact unless the decimal is out of range.  Then it is exact only by chance: a
decimal without a point gives the nearest bound, and one with a point an undefined conversion. -/
theorem jsonGetInt64_exact_iff (hp : p.round = .finite)
    (h : obj.getObjectItemCaseSensitive key = some (.string s)) (default : Int) :
    ExactInt64 s default (jsonGetInt64 p obj key default) ↔
      ∀ d, Reads s d → ¬InRange 64 (truncated d.value) → default =
        if d.fraction = none then saturated (truncated d.value)
        else p.toInt64 (.finite d.value) := by
  have hconvert : ∀ d : PlainDecimal, (CDouble.finite d.value).toInt64 p =
      if InRange 64 (truncated d.value) then truncated d.value else p.toInt64 (.finite d.value) :=
    fun _ => rfl
  constructor
  · intro hexact d hd hrange
    have hvalue := hexact.1 d hd
    rw [if_neg hrange, jsonGetInt64_reads hp h default hd, hconvert, if_neg hrange] at hvalue
    exact hvalue.symm
  · intro hchance
    refine ⟨fun d hd => ?_, fun hd => jsonGetInt64_not_reads h default hd⟩
    rw [jsonGetInt64_reads hp h default hd, hconvert]
    by_cases hrange : InRange 64 (truncated d.value)
    · rw [if_pos hrange, if_pos hrange, saturated_of_inRange hrange, ite_self]
    · rw [if_neg hrange, if_neg hrange]
      exact (hchance d hd hrange).symm

/-- The member `k` of an object, as a text. -/
def textMember (s : CString) : CJson := .object [("k", .string s)]

def pastLimit : CString := "9223372036854775808"

theorem pastLimit_digits : ∀ c ∈ pastLimit, c.isDigit = true := forall_mem_of_all (by decide)

theorem pastLimit_no_fraction : ∀ f ∈ (none : Option CString), ∀ c ∈ f, c.isDigit = true :=
  fun _ h => nomatch h

theorem pastLimit_some_digit : pastLimit ≠ [] ∨ (none : Option CString).getD [] ≠ [] :=
  .inl (by decide)

def pastLimitDecimal : PlainDecimal :=
  ⟨none, pastLimit, none, pastLimit_digits, pastLimit_no_fraction, pastLimit_some_digit⟩

theorem pastLimit_saturates :
    (textMember pastLimit).getObjectItemCaseSensitive "k" = some (.string pastLimit) ∧
    jsonGetInt64 .exact (textMember pastLimit) "k" 0 = 9223372036854775807 ∧
    ¬ExactInt64 pastLimit 0 (jsonGetInt64 .exact (textMember pastLimit) "k" 0) := by
  have hvalue : jsonGetInt64 .exact (textMember pastLimit) "k" 0 = 9223372036854775807 := by decide
  refine ⟨rfl, hvalue, fun hexact => ?_⟩
  have hreads : Reads pastLimit pastLimitDecimal := by constructor <;> decide
  have hinteger : pastLimitDecimal.integer = 9223372036854775808 := by decide
  have hexact := hexact.1 _ hreads
  rw [hvalue, PlainDecimal.value_of_integer _ rfl, truncated_intCast, hinteger] at hexact
  exact absurd hexact (by decide)

theorem paddedDigits_exact : ExactInt64 (" 85\t" : String) 5
    (jsonGetInt64 .exact (textMember (" 85\t" : String)) "k" 5) := by
  have h : (textMember (" 85\t" : String)).getObjectItemCaseSensitive "k" =
      some (.string (" 85\t" : String)) := rfl
  refine (jsonGetInt64_exact_iff rfl h 5).mpr fun d hd hrange => absurd ?_ hrange
  -- what is read is neither a bound nor the undefined conversion
  have hvalue : jsonGetInt64 .exact (textMember (" 85\t" : String)) "k" 5 = 85 := by decide
  have hreads := jsonGetInt64_reads (p := .exact) rfl h 5 hd
  rw [hvalue] at hreads
  split at hreads
  · unfold saturated at hreads
    constructor <;> omega
  · by_contra hout
    have hundefined : (CDouble.finite d.value).toInt64 .exact = 0 := if_neg hout
    rw [hundefined] at hreads
    cases hreads

/-! ### Booleans -/

def trueWords : List CString := ["true", "1", "yes", "on"]

def falseWords : List CString := ["false", "0", "no", "off"]

theorem trimmed_eq_nil_iff (s : CString) : trimmed s = [] ↔ s.dropWhile isspace = [] := by
  refine ⟨fun h => ?_, fun h => by rw [trimmed, h]; rfl⟩
  rcases hdrop : s.dropWhile isspace with _ | ⟨c, rest⟩
  · rfl
  · have hhead := List.head?_dropWhile_not isspace s
    rw [trimmed, List.rdropWhile_eq_nil_iff] at h
    rw [hdrop] at h hhead
    have := h c List.mem_cons_self
    simp_all

/-- A boolean is one of eight words, in any case and between any spaces; no text is 0. -/
theorem jsonGetBool_words (h : obj.getObjectItemCaseSensitive key = some (.string s))
    (default : Int) : jsonGetBool obj key default =
      if lower (trimmed s) ∈ trueWords then 1
      else if trimmed s = [] ∨ lower (trimmed s) ∈ falseWords then 0
      else default := by
  have hshort : ∀ words : List CString, (∀ word ∈ words, word.length < 16) →
      16 ≤ (trimmed s).length → lower (trimmed s) ∉ words := by
    intro words hwords hlong hmem
    have := hwords _ hmem
    rw [lower, List.length_map] at this
    omega
  have hempty : (trimmed s = []) → lower (trimmed s) ∉ trueWords := by
    intro hnil
    rw [hnil]
    decide
  have hgiven : jsonGetBool obj key default = parseBoolString s default := by rw [jsonGetBool, h]
  rw [hgiven, parseBoolString, trimCopy_eq]
  by_cases hnil : trimmed s = []
  · rw [if_pos ((trimmed_eq_nil_iff s).1 hnil), if_neg (hempty hnil), if_pos (.inl hnil)]
  · rw [if_neg (mt (trimmed_eq_nil_iff s).2 hnil)]
    by_cases hlong : 16 ≤ (trimmed s).length
    · rw [if_pos (.inr hlong), if_neg (hshort trueWords (by decide) hlong), if_neg]
      exact not_or.2 ⟨hnil, hshort falseWords (by decide) hlong⟩
    · rw [if_neg (not_or.2 ⟨hnil, hlong⟩)]
      simp only [hnil, false_or]
      rfl

theorem paddedYes_read :
    jsonGetBool (textMember ("               YES " : String)) "k" 7 = 1 := by
  have h : (textMember ("               YES " : String)).getObjectItemCaseSensitive "k" =
      some (.string ("               YES " : String)) := rfl
  rw [jsonGetBool_words h 7]
  decide

end

end Audd
