import Audd.Coercion
import Audd.JsonPrint
import Audd.JsonStandard

/-! What `cJSON_PrintUnformatted` writes is JSON: its numbers are numerals without a zero in front,
and its strings escape what a string may not hold. -/

namespace Audd

open JsonText (Numeral Literal Text escapes hexNumber standardPlain standardCode utf8)

/-! ### Numbers -/

def decimalNumeral (n : Int) : Numeral := ⟨decide (n < 0), Nat.toDigits 10 n.natAbs, none, none⟩

theorem decimalNumeral_text (n : Int) : (decimalNumeral n).text = decimal n := by
  rw [(decimal_canonical n).sign, Numeral.text, Numeral.sign, Numeral.unsigned]
  simp [decimalNumeral, Numeral.fractionText, Numeral.exponentText]

theorem decimalNumeral_standard (n : Int) : (decimalNumeral n).Standard where
  whole := (decimal_canonical n).isDigit
  fraction := by simp [decimalNumeral]
  mantissa := .inl (decimal_canonical n).nonempty
  mark := by simp [decimalNumeral]
  exponent := by simp [decimalNumeral]
  whole_ne_nil := (decimal_canonical n).nonempty
  no_leading_zero := (decimal_canonical n).shortest
  fraction_ne_nil := by simp [decimalNumeral]

def fractionDigits (digits : CString) : Option CString :=
  match digits.rdropWhile (· == '0') with
  | [] => none
  | rest => some rest

theorem fraction_eq (digits : CString) :
    fraction digits = ((fractionDigits digits).map ('.' :: ·)).getD [] := by
  unfold fraction fractionDigits
  cases digits.rdropWhile (· == '0') <;> rfl

theorem fractionDigits_ne_nil (digits : CString) : fractionDigits digits ≠ some [] := by
  unfold fractionDigits
  split
  · exact fun h => by cases h
  · rename_i rest hne
    intro h
    exact hne (Option.some.inj h)

theorem mem_fractionDigits {digits f : CString} (hf : f ∈ fractionDigits digits) {c : Char}
    (hc : c ∈ f) : c ∈ digits := by
  unfold fractionDigits at hf
  split at hf
  · cases hf
  · obtain rfl := Option.some.inj hf
    exact (List.rdropWhile_prefix _ _).subset hc

theorem length_fraction_le (digits : CString) : (fraction digits).length ≤ digits.length + 1 := by
  have hle := (List.rdropWhile_prefix (· == '0') digits).length_le
  unfold fraction
  split
  · exact Nat.zero_le _
  · exact Nat.succ_le_succ hle

section

variable {prec : Nat} {q : ℚ}

/-- A zero among the digits of a magnitude comes first only for the number zero. -/
structure SignificantDigits (prec : Nat) (digits : CString) (e : Int) : Prop where
  isDigit : ∀ c ∈ digits, c.isDigit = true
  nonempty : digits ≠ []
  length_le : digits.length ≤ prec
  leading_zero : digits.head? = some '0' → e = 0 ∨ digits = ['0']

theorem significant_digits (hprec : 0 < prec) (q : ℚ) :
    SignificantDigits prec (significant prec q).1 (significant prec q).2 := by
  unfold significant
  split_ifs with hq
  · exact {
      isDigit := fun c hc => by
        rw [List.eq_of_mem_replicate hc]
        rfl
      nonempty := by simpa using hprec.ne'
      length_le := by simp
      leading_zero := fun _ => .inl rfl }
  · obtain ⟨N, hN⟩ : ∃ N, (roundEven (q * (10 : ℚ) ^ ((prec : Int) - 1 - exponent q))).toNat = N :=
      ⟨_, rfl⟩
    simp only [hN]
    have hzero : (Nat.toDigits 10 N).head? = some '0' → Nat.toDigits 10 N = ['0'] := by
      intro h
      rw [head_toDigits h]
      rfl
    split_ifs with hlong
    · obtain ⟨k, rfl⟩ : ∃ k, prec = k + 1 := ⟨prec - 1, by omega⟩
      exact {
        isDigit := fun c hc => isDigit_toDigits (List.mem_of_mem_take hc)
        nonempty := by
          rw [Ne, List.take_eq_nil_iff, not_or]
          exact ⟨Nat.succ_ne_zero k, Nat.toDigits_ne_nil⟩
        length_le := List.length_take_le _ _
        leading_zero := fun h => by
          rw [List.head?_take, if_neg (Nat.succ_ne_zero k)] at h
          refine .inr ?_
          rw [hzero h]
          exact List.take_of_length_le (by simp) }
    · exact {
        isDigit := fun c hc => isDigit_toDigits hc
        nonempty := Nat.toDigits_ne_nil
        length_le := Nat.le_of_not_lt hlong
        leading_zero := fun h => .inr (hzero h) }

/-- The digits that `%g` writes for an exponent: at least two. -/
structure PowerDigits (e : Int) (power : CString) : Prop where
  isDigit : ∀ c ∈ power, c.isDigit = true
  nonempty : power ≠ []
  length_le : power.length ≤ (decimal e.natAbs).length + 1

theorem powerDigits (e : Int) : PowerDigits e
    (if (decimal e.natAbs).length < 2 then '0' :: decimal e.natAbs else decimal e.natAbs) := by
  have hdigits : ∀ c ∈ decimal e.natAbs, c.isDigit = true := fun c hc => isDigit_toDigits hc
  split_ifs
  · exact {
      isDigit := fun c hc => by
        rcases List.mem_cons.1 hc with rfl | hc
        · rfl
        · exact hdigits c hc
      nonempty := List.cons_ne_nil _ _
      length_le := le_rfl }
  · exact ⟨hdigits, decimal_ne_nil _, Nat.le_succ _⟩

/-- The kinds of text that `%.*g` writes. -/
theorem formatMagnitude_cases (prec : Nat) (q : ℚ) {digits : CString} {e : Int}
    (h : significant prec q = (digits, e)) :
    (∃ power, PowerDigits e power ∧ formatMagnitude prec q = digits.take 1 ++
      (fraction (digits.drop 1) ++ 'e' :: (if e < 0 then '-' else '+') :: power)) ∨
    (-4 ≤ e ∧ e < 0 ∧
      formatMagnitude prec q = '0' :: fraction (List.replicate (-e - 1).toNat '0' ++ digits)) ∨
    formatMagnitude prec q =
      digits.take (e.toNat + 1) ++ fraction (digits.drop (e.toNat + 1)) := by
  unfold formatMagnitude
  rw [h]
  dsimp only
  by_cases hscientific : e < -4 ∨ (prec : Int) ≤ e
  · rw [if_pos hscientific]
    exact .inl ⟨_, powerDigits e, by simp⟩
  · rw [if_neg hscientific]
    by_cases hsmall : e < 0
    · rw [if_pos hsmall]
      exact .inr (.inl ⟨by omega, hsmall, rfl⟩)
    · rw [if_neg hsmall]
      exact .inr (.inr rfl)

/-- `%.*g` writes a numeral. -/
theorem formatMagnitude_numeral (hprec : 0 < prec) (q : ℚ) (negative : Bool) :
    ∃ x : Numeral, x.Standard ∧ x.negative = negative ∧ x.unsigned = formatMagnitude prec q := by
  obtain ⟨digits, e, hdigits⟩ : ∃ digits e, significant prec q = (digits, e) := ⟨_, _, rfl⟩
  have hsig : SignificantDigits prec digits e := by
    have := significant_digits hprec q
    rwa [hdigits] at this
  obtain ⟨c, digits, rfl⟩ := List.exists_cons_of_ne_nil hsig.nonempty
  rcases formatMagnitude_cases prec q hdigits with ⟨power, hpower, h⟩ | ⟨-, -, h⟩ | h
  · refine ⟨⟨negative, [c], fractionDigits digits, some ⟨'e', some (decide (e < 0)), power⟩⟩,
      {
        whole := fun b hb => hsig.isDigit b (List.mem_singleton.1 hb ▸ List.mem_cons_self)
        fraction := fun f hf b hb =>
          hsig.isDigit b (List.mem_cons_of_mem _ (mem_fractionDigits hf hb))
        mantissa := .inl (List.cons_ne_nil _ _)
        mark := by simp
        exponent := by
          rintro e' ⟨⟩
          exact ⟨hpower.nonempty, hpower.isDigit⟩
        whole_ne_nil := List.cons_ne_nil _ _
        no_leading_zero := fun h => by rw [Option.some.inj h]
        fraction_ne_nil := fractionDigits_ne_nil _ }, rfl, ?_⟩
    rw [h, Numeral.unsigned, Numeral.fractionText, ← fraction_eq, Numeral.exponentText]
    simp [JsonText.Exponent.text]
  · refine ⟨⟨negative, ['0'],
      fractionDigits (List.replicate (-e - 1).toNat '0' ++ c :: digits), none⟩,
      {
        whole := fun b hb => by
          rw [List.mem_singleton.1 hb]
          rfl
        fraction := fun f hf b hb => by
          rcases List.mem_append.1 (mem_fractionDigits hf hb) with hb | hb
          · rw [List.eq_of_mem_replicate hb]
            rfl
          · exact hsig.isDigit b hb
        mantissa := .inl (List.cons_ne_nil _ _)
        mark := by simp
        exponent := by simp
        whole_ne_nil := List.cons_ne_nil _ _
        no_leading_zero := fun _ => rfl
        fraction_ne_nil := fractionDigits_ne_nil _ }, rfl, ?_⟩
    rw [h, Numeral.unsigned, Numeral.fractionText, ← fraction_eq, Numeral.exponentText]
    simp
  · have hlead : ((c :: digits).take (e.toNat + 1)).head? = some '0' →
        (c :: digits).take (e.toNat + 1) = ['0'] := by
      intro hhead
      rw [List.take_succ_cons] at hhead ⊢
      obtain rfl := Option.some.inj hhead
      rcases hsig.leading_zero rfl with rfl | hzero
      · rfl
      · rw [(List.cons.inj hzero).2, List.take_nil]
    refine ⟨⟨negative, (c :: digits).take (e.toNat + 1),
      fractionDigits ((c :: digits).drop (e.toNat + 1)), none⟩,
      {
        whole := fun b hb => hsig.isDigit b (List.mem_of_mem_take hb)
        fraction := fun f hf b hb =>
          hsig.isDigit b (List.mem_of_mem_drop (mem_fractionDigits hf hb))
        mantissa := .inl (by simp)
        mark := by simp
        exponent := by simp
        whole_ne_nil := by simp
        no_leading_zero := hlead
        fraction_ne_nil := fractionDigits_ne_nil _ }, rfl, ?_⟩
    rw [h, Numeral.unsigned, Numeral.fractionText, ← fraction_eq, Numeral.exponentText]
    simp

theorem formatG_numeral (hprec : 0 < prec) (q : ℚ) :
    ∃ x : Numeral, x.Standard ∧ x.text = formatG prec (.finite q) := by
  obtain ⟨x, hx, hnegative, htext⟩ :=
    formatMagnitude_numeral hprec (if q < 0 then -q else q) (decide (q < 0))
  refine ⟨x, hx, ?_⟩
  rw [Numeral.text, Numeral.sign, hnegative, htext, formatG]
  by_cases hq : q < 0
  · simp [hq]
  · simp [hq]

/-- What a number prints as is a numeral. -/
theorem printNumber_numeral (p : Platform) (q : ℚ) :
    ∃ x : Numeral, x.Standard ∧ x.text = printNumber p (.finite q) := by
  rw [printNumber]
  split_ifs with hint
  · exact ⟨_, decimalNumeral_standard _, decimalNumeral_text _⟩
  · split
    · split_ifs
      · exact formatG_numeral (by decide) q
      · exact formatG_numeral (by decide) q
    · exact formatG_numeral (by decide) q

/-! #### Their length -/

/-- What a double is other than a NaN. -/
def CDouble.Ranged : CDouble → Prop
  | .finite q => q = 0 ∨ (2 : ℚ) ^ (-1074 : Int) ≤ |q| ∧ |q| < 2 ^ 1024
  | .infinite _ => True

theorem two_pow_le : (2 : ℚ) ^ 1200 ≤ ((10 ^ 400 : Nat) : ℚ) := by
  have hbase : (2 : ℚ) ^ 150 ≤ 10 ^ 50 := by norm_num
  calc (2 : ℚ) ^ 1200 = (2 ^ 150) ^ 8 := by rw [← pow_mul]
    _ ≤ (10 ^ 50) ^ 8 := pow_le_pow_left₀ (by positivity) hbase 8
    _ = ((10 ^ 400 : Nat) : ℚ) := by rw [← pow_mul, Nat.cast_pow, Nat.cast_ofNat]

theorem exponent_natAbs_le (hlow : (2 : ℚ) ^ (-1074 : Int) ≤ q) (hhigh : q < 2 ^ 1024) :
    (exponent q).natAbs ≤ 400 := by
  unfold exponent
  split_ifs with hone
  · have hfloor : ⌊q⌋₊ < 10 ^ 400 := by
      rw [Nat.floor_lt (by linarith)]
      calc q < 2 ^ 1024 := hhigh
        _ ≤ 2 ^ 1200 := pow_le_pow_right₀ (by norm_num) (by decide)
        _ ≤ ((10 ^ 400 : Nat) : ℚ) := two_pow_le
    have hlog := Nat.log_lt_of_lt_pow' (by decide) hfloor
    omega
  · have hpos : (0 : ℚ) < 2 ^ (-1074 : Int) := zpow_pos (by norm_num) _
    have hceil : ⌈q⁻¹⌉₊ ≤ 10 ^ 400 := by
      rw [Nat.ceil_le]
      calc q⁻¹ ≤ ((2 : ℚ) ^ (-1074 : Int))⁻¹ := inv_anti₀ hpos hlow
        _ = 2 ^ 1074 := by rw [← zpow_neg]; rfl
        _ ≤ 2 ^ 1200 := pow_le_pow_right₀ (by norm_num) (by decide)
        _ ≤ ((10 ^ 400 : Nat) : ℚ) := two_pow_le
    have hclog := Nat.clog_le_of_le_pow hceil
    omega

theorem significant_natAbs_le (prec : Nat)
    (hq : q = 0 ∨ (2 : ℚ) ^ (-1074 : Int) ≤ q ∧ q < 2 ^ 1024) :
    (significant prec q).2.natAbs ≤ 401 := by
  unfold significant
  split_ifs with hzero
  · exact Nat.zero_le _
  · rcases hq with hq | ⟨hlow, hhigh⟩
    · exact absurd hq hzero
    · have hexponent := exponent_natAbs_le hlow hhigh
      dsimp only
      split_ifs
      · show (exponent q + 1).natAbs ≤ 401
        omega
      · show (exponent q).natAbs ≤ 401
        omega

theorem length_formatMagnitude_le (hprec : 0 < prec)
    (hq : q = 0 ∨ (2 : ℚ) ^ (-1074 : Int) ≤ q ∧ q < 2 ^ 1024) :
    (formatMagnitude prec q).length ≤ 2 * prec + 9 := by
  obtain ⟨digits, e, hdigits⟩ : ∃ digits e, significant prec q = (digits, e) := ⟨_, _, rfl⟩
  have hlength : digits.length ≤ prec := by
    have := (significant_digits hprec q).length_le
    rwa [hdigits] at this
  have he : e.natAbs ≤ 401 := by
    have := significant_natAbs_le prec hq
    rwa [hdigits] at this
  rcases formatMagnitude_cases prec q hdigits with ⟨power, hpower, h⟩ | ⟨hlow, -, h⟩ | h
  · have hfraction := length_fraction_le (digits.drop 1)
    have hdecimal := length_decimal (n := (e.natAbs : Int)) (k := 3) (by decide) (by omega)
    have hdigits' := hpower.length_le
    simp only [h, List.length_append, List.length_cons, List.length_take, List.length_drop]
      at hfraction ⊢
    omega
  · have hfraction := length_fraction_le (List.replicate (-e - 1).toNat '0' ++ digits)
    simp only [h, List.length_append, List.length_cons, List.length_replicate] at hfraction ⊢
    omega
  · have hfraction := length_fraction_le (digits.drop (e.toNat + 1))
    simp only [h, List.length_append, List.length_take, List.length_drop] at hfraction ⊢
    omega

theorem length_formatG_le (hprec : 0 < prec) (hprec' : prec ≤ 17)
    (hq : (CDouble.finite q).Ranged) : (formatG prec (.finite q)).length ≤ 63 := by
  have hmagnitude : ∀ r : ℚ, r = |q| → (formatMagnitude prec r).length ≤ 43 := by
    rintro r rfl
    refine (length_formatMagnitude_le hprec ?_).trans (by omega)
    rw [abs_eq_zero]
    exact hq
  unfold formatG
  dsimp only
  split_ifs with hsign
  · have := hmagnitude (-q) (abs_of_neg hsign).symm
    rw [List.length_cons]
    omega
  · exact (hmagnitude q (abs_of_nonneg (not_lt.1 hsign)).symm).trans (by decide)

theorem valueint_natAbs (h : q = (CDouble.finite q).valueint) :
    (CDouble.finite q).valueint.natAbs < 10 ^ 10 := by
  unfold CDouble.valueint at h ⊢
  dsimp only at h ⊢
  split_ifs at h ⊢ with hhigh hlow
  · decide
  · decide
  · rw [h] at hhigh hlow
    have hhigh' : ¬(2 ^ 31 - 1 ≤ q.num.tdiv q.den) := by exact_mod_cast hhigh
    have hlow' : ¬(q.num.tdiv q.den ≤ -2 ^ 31) := by exact_mod_cast hlow
    omega

theorem length_printNumber_le (p : Platform) (hq : (CDouble.finite q).Ranged) :
    (printNumber p (.finite q)).length ≤ 63 := by
  rw [printNumber]
  split_ifs with hint
  · exact (length_decimal (by decide) (valueint_natAbs hint)).trans (by decide)
  · split
    · split_ifs
      · exact length_formatG_le (by decide) (by decide) hq
      · exact length_formatG_le (by decide) le_rfl hq
    · exact length_formatG_le (by decide) le_rfl hq

end

/-! ### Strings -/

theorem control_escape : ∀ n < 32,
    hexNumber ['0', '0', Nat.digitChar (n / 16), Nat.digitChar (n % 16)] = some n ∧
      utf8 n = [Char.ofNat n] := by decide

theorem printString_literal (s : CString) :
    Literal standardPlain standardCode s (s.flatMap escapeChar) := by
  induction s with
  | nil => exact .nil
  | cons c s ih =>
    rw [List.flatMap_cons]
    unfold escapeChar
    split
    · exact .escape (by simp [escapes]) ih
    · exact .escape (by simp [escapes]) ih
    · exact .escape (by simp [escapes]) ih
    · exact .escape (by simp [escapes]) ih
    · exact .escape (by simp [escapes]) ih
    · exact .escape (by simp [escapes]) ih
    · exact .escape (by simp [escapes]) ih
    · rename_i hslash hquote _ _ _ _ _
      split_ifs with hcontrol
      · obtain ⟨hhex, hbytes⟩ := control_escape c.toNat hcontrol
        rw [Char.ofNat_toNat] at hbytes
        have hcode : standardCode
            ['0', '0', Nat.digitChar (c.toNat / 16), Nat.digitChar (c.toNat % 16)] c.toNat :=
          ⟨rfl, hhex⟩
        have hunicode : Literal standardPlain standardCode (utf8 c.toNat ++ s) _ :=
          .unicode hcode (fun h => by have := h.1; omega) (fun h => by have := h.1; omega) ih
        rw [hbytes] at hunicode
        exact hunicode
      · exact .plain ⟨Nat.le_of_not_lt hcontrol, hquote, hslash⟩ ih

theorem printString_quoted (s : CString) : JsonText.standard.quoted s (printString s) :=
  ⟨_, rfl, printString_literal s⟩

end Audd
