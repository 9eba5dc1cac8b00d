import Audd.JsonNumerals
import Audd.JsonStrings

/-! What `cJSON_ParseWithLength` accepts: the texts of a grammar that is wider than that of JSON in
its blanks, its numerals and its strings, and has the same brackets and separators.  What stands
behind the text of a value is never looked at. -/

namespace Audd

open JsonText (Numeral Rules Values Text Part)

/-- The rules that the parser goes by. -/
def cjsonRules : Rules where
  blank c := isBlankByte c = true
  numeral := NumeralTaken
  quoted := quotedTaken

/-- What the parser makes of a text: numbers rounded, strings cut at a NUL. -/
def treeValues (p : Platform) : Values CJson CString where
  null := .null
  bool := .bool
  number q := .number (p.round q)
  string := fun s => .string (upToNul s)
  name := upToNul
  array := .array
  object := .object

section

variable {p : Platform} {fuel depth n : Nat} {s t rest : CString} {v : CJson}

/-! ### What is accepted is a text -/

theorem take_eq {word : CString} (h : s.take word.length = word) :
    s = word ++ s.drop word.length := by
  conv_lhs => rw [← List.take_append_drop word.length s, h]

/-- What the three readers take at this fuel is a text, with what is left behind it. -/
structure TakesTexts (p : Platform) (fuel : Nat) : Prop where
  value : ∀ depth s v rest, (parseValue p fuel depth s).ok = some (v, rest) →
    ∃ t, s = t ++ rest ∧ Text (treeValues p) cjsonRules (kNestingLimit - depth) (.value v) t
  items : ∀ depth s vs rest, (parseItems p fuel depth s).ok = some (vs, rest) →
    ∃ t, s = t ++ rest ∧ vs ≠ [] ∧
      Text (treeValues p) cjsonRules (kNestingLimit - depth) (.items vs) t
  members : ∀ depth s ms rest, (parseMembers p fuel depth s).ok = some (ms, rest) →
    ∃ t, s = t ++ rest ∧ ms ≠ [] ∧
      Text (treeValues p) cjsonRules (kNestingLimit - depth) (.members ms) t

theorem TakesTexts.parseValue (h : TakesTexts p fuel)
    (hv : (parseValue p (fuel + 1) depth s).ok = some (v, rest)) :
    ∃ t, s = t ++ rest ∧ Text (treeValues p) cjsonRules (kNestingLimit - depth) (.value v) t := by
  cases s with
  | nil => cases hv
  | cons c s =>
    rw [Audd.parseValue] at hv
    obtain ⟨w, hw, hs⟩ := bufferSkipWhitespace_split s
    have hsub : ¬kNestingLimit ≤ depth →
        kNestingLimit - depth = kNestingLimit - (depth + 1) + 1 := by omega
    split_ifs at hv with hnull hfalse htrue hquote hnumber harray hdepth hobject hdepth
    · obtain ⟨rfl, rfl⟩ := Prod.ext_iff.1 (Option.some.inj hv)
      exact ⟨"null", take_eq hnull, .null⟩
    · obtain ⟨rfl, rfl⟩ := Prod.ext_iff.1 (Option.some.inj hv)
      exact ⟨"false", take_eq hfalse, .false⟩
    · obtain ⟨rfl, rfl⟩ := Prod.ext_iff.1 (Option.some.inj hv)
      exact ⟨"true", take_eq htrue, .true⟩
    · subst hquote
      simp only [AllocM.ok_bind, AllocM.ok_pure, Option.map_eq_some_iff, Prod.mk.injEq] at hv
      obtain ⟨⟨text, rest'⟩, hparse, rfl, rfl⟩ := hv
      obtain ⟨content, t, hs, hquoted, rfl⟩ := quoted_of_parseString hparse
      exact ⟨t, hs, .string hquoted⟩
    · obtain ⟨⟨d, rest'⟩, hparse, hv⟩ := Option.map_eq_some_iff.1 hv
      obtain ⟨rfl, rfl⟩ := Prod.ext_iff.1 hv
      obtain ⟨x, hx, hs, rfl⟩ := parseNumber_split (by simpa using hnumber) hparse
      exact ⟨x.text, hs, .number hx⟩
    · cases hv
    · subst harray
      rw [hsub hdepth]
      simp only at hv
      split at hv
      · cases hv
      · rename_i rest' hinner
        obtain ⟨rfl, rfl⟩ := Prod.ext_iff.1 (Option.some.inj hv)
        rw [hinner] at hs
        exact ⟨'[' :: (w ++ [']']), by simp [hs], .array (.noItems hw)⟩
      · simp only [AllocM.ok_bind, AllocM.ok_pure, Option.map_eq_some_iff, Prod.mk.injEq] at hv
        obtain ⟨⟨items, rest'⟩, hparse, rfl, rfl⟩ := hv
        obtain ⟨t, ht, -, htext⟩ := h.items _ _ _ _ hparse
        rw [ht] at hs
        exact ⟨'[' :: (w ++ t), by simp [hs], .array (htext.blanks_items hw)⟩
    · cases hv
    · subst hobject
      rw [hsub hdepth]
      simp only at hv
      split at hv
      · cases hv
      · rename_i rest' hinner
        obtain ⟨rfl, rfl⟩ := Prod.ext_iff.1 (Option.some.inj hv)
        rw [hinner] at hs
        exact ⟨'{' :: (w ++ ['}']), by simp [hs], .object (.noMembers hw)⟩
      · simp only [AllocM.ok_bind, AllocM.ok_pure, Option.map_eq_some_iff, Prod.mk.injEq] at hv
        obtain ⟨⟨members, rest'⟩, hparse, rfl, rfl⟩ := hv
        obtain ⟨t, ht, -, htext⟩ := h.members _ _ _ _ hparse
        rw [ht] at hs
        exact ⟨'{' :: (w ++ t), by simp [hs], .object (htext.blanks_members hw)⟩
    · cases hv

theorem TakesTexts.parseItems (h : TakesTexts p fuel) {vs : List CJson}
    (hvs : (parseItems p (fuel + 1) depth s).ok = some (vs, rest)) :
    ∃ t, s = t ++ rest ∧ vs ≠ [] ∧
      Text (treeValues p) cjsonRules (kNestingLimit - depth) (.items vs) t := by
  simp only [Audd.parseItems, AllocM.ok_bind, AllocM.ok_copy] at hvs
  obtain ⟨w, hw, hs⟩ := bufferSkipWhitespace_split s
  cases hv : (Audd.parseValue p fuel depth (bufferSkipWhitespace s)).ok with
  | none =>
    rw [hv] at hvs
    cases hvs
  | some result =>
    obtain ⟨item, s₁⟩ := result
    obtain ⟨t, ht, hitem⟩ := h.value _ _ _ _ hv
    obtain ⟨w', hw', hs₁⟩ := bufferSkipWhitespace_split s₁
    rw [hv] at hvs
    simp only at hvs
    split at hvs
    · rename_i s₂ hcomma
      simp only [AllocM.ok_bind, AllocM.ok_pure, Option.map_eq_some_iff, Prod.mk.injEq] at hvs
      obtain ⟨⟨items, rest'⟩, hparse, rfl, rfl⟩ := hvs
      obtain ⟨t', ht', hne, hitems⟩ := h.items _ _ _ _ hparse
      rw [hcomma, ht'] at hs₁
      rw [ht, hs₁] at hs
      exact ⟨w ++ (t ++ (w' ++ ',' :: t')), by simp [hs], List.cons_ne_nil _ _,
        .item hw hitem hw' hne hitems⟩
    · rename_i s₂ hbracket
      obtain ⟨rfl, rfl⟩ := Prod.ext_iff.1 (Option.some.inj hvs)
      rw [hbracket] at hs₁
      rw [ht, hs₁] at hs
      exact ⟨w ++ (t ++ (w' ++ [']'])), by simp [hs], List.cons_ne_nil _ _,
        .lastItem hw hitem hw'⟩
    · cases hvs

theorem TakesTexts.parseMembers (h : TakesTexts p fuel) {ms : List (CString × CJson)}
    (hms : (parseMembers p (fuel + 1) depth s).ok = some (ms, rest)) :
    ∃ t, s = t ++ rest ∧ ms ≠ [] ∧
      Text (treeValues p) cjsonRules (kNestingLimit - depth) (.members ms) t := by
  by_cases hnil : s = []
  · subst hnil
    cases hms
  · simp only [Audd.parseMembers, AllocM.ok_bind, AllocM.ok_copy, if_neg hnil] at hms
    obtain ⟨w₁, hw₁, hs⟩ := bufferSkipWhitespace_split s
    cases hname : (parseString (bufferSkipWhitespace s)).ok with
    | none =>
      rw [hname] at hms
      cases hms
    | some result =>
      obtain ⟨name, s₁⟩ := result
      obtain ⟨content, k, hk, hquoted, rfl⟩ := quoted_of_parseString hname
      obtain ⟨w₂, hw₂, hs₁⟩ := bufferSkipWhitespace_split s₁
      rw [hname] at hms
      simp only at hms
      split at hms
      · rename_i s₂ hcolon
        obtain ⟨w₃, hw₃, hs₂⟩ := bufferSkipWhitespace_split s₂
        rw [hcolon] at hs₁
        simp only [AllocM.ok_bind] at hms
        cases hv : (Audd.parseValue p fuel depth (bufferSkipWhitespace s₂)).ok with
        | none =>
          rw [hv] at hms
          cases hms
        | some result =>
          obtain ⟨item, s₃⟩ := result
          obtain ⟨t, ht, hitem⟩ := h.value _ _ _ _ hv
          obtain ⟨w₄, hw₄, hs₃⟩ := bufferSkipWhitespace_split s₃
          rw [hv] at hms
          simp only at hms
          split at hms
          · rename_i s₄ hcomma
            simp only [AllocM.ok_bind, AllocM.ok_pure, Option.map_eq_some_iff, Prod.mk.injEq]
              at hms
            obtain ⟨⟨members, rest'⟩, hparse, rfl, rfl⟩ := hms
            obtain ⟨t', ht', hne, hmembers⟩ := h.members _ _ _ _ hparse
            rw [hcomma, ht'] at hs₃
            rw [hk, hs₁, hs₂, ht, hs₃] at hs
            exact ⟨w₁ ++ (k ++ (w₂ ++ ':' :: (w₃ ++ (t ++ (w₄ ++ ',' :: t'))))), by simp [hs],
              List.cons_ne_nil _ _, .member hw₁ hquoted hw₂ hw₃ hitem hw₄ hne hmembers⟩
          · rename_i s₄ hbrace
            obtain ⟨rfl, rfl⟩ := Prod.ext_iff.1 (Option.some.inj hms)
            rw [hbrace] at hs₃
            rw [hk, hs₁, hs₂, ht, hs₃] at hs
            exact ⟨w₁ ++ (k ++ (w₂ ++ ':' :: (w₃ ++ (t ++ (w₄ ++ ['}']))))), by simp [hs],
              List.cons_ne_nil _ _, .lastMember hw₁ hquoted hw₂ hw₃ hitem hw₄⟩
          · cases hms
      · cases hms

theorem takesTexts (p : Platform) (fuel : Nat) : TakesTexts p fuel := by
  induction fuel with
  | zero =>
    exact {
      value := fun _ _ _ _ h => by cases h
      items := fun _ _ _ _ h => by cases h
      members := fun _ _ _ _ h => by cases h }
  | succ fuel ih =>
    exact {
      value := fun _ _ _ _ h => ih.parseValue h
      items := fun _ _ _ _ h => ih.parseItems h
      members := fun _ _ _ _ h => ih.parseMembers h }

/-! ### A text is accepted -/

theorem number_head {x : Numeral} (hx : NumeralTaken x) :
    ∃ c t, x.text = c :: t ∧ (c = '-' ∨ c.isDigit = true) := by
  cases hn : x.negative with
  | true => exact ⟨'-', x.unsigned, by rw [Numeral.text, Numeral.sign, hn]; rfl, .inl rfl⟩
  | false =>
    have hwhole : x.whole ≠ [] := by
      rcases hx.begins with h | h
      · rw [hn] at h
        cases h
      · exact h
    obtain ⟨c, digits, hc⟩ := List.exists_cons_of_ne_nil hwhole
    refine ⟨c, digits ++ (x.fractionText ++ x.exponentText), ?_,
      .inr (hx.whole c (hc ▸ List.mem_cons_self))⟩
    rw [Numeral.text, Numeral.sign, hn, Numeral.unsigned, hc]
    rfl

theorem value_head (h : Text (treeValues p) cjsonRules n (.value v) t) :
    ∃ c t', t = c :: t' ∧ isBlankByte c = false ∧ c ≠ ']' ∧ c ≠ '\xef' := by
  cases h with
  | null => exact ⟨_, _, rfl, rfl, by decide⟩
  | false => exact ⟨_, _, rfl, rfl, by decide⟩
  | true => exact ⟨_, _, rfl, rfl, by decide⟩
  | number hx =>
    obtain ⟨c, t', ht, hc⟩ := number_head hx
    refine ⟨c, t', ht, ?_⟩
    rcases hc with rfl | hc
    · decide
    · exact of_isDigit (P := fun c => isBlankByte c = false ∧ c ≠ ']' ∧ c ≠ '\xef') (by decide) hc
  | string hs =>
    obtain ⟨t', rfl, -⟩ := hs
    exact ⟨_, _, rfl, rfl, by decide⟩
  | array => exact ⟨_, _, rfl, rfl, by decide⟩
  | object => exact ⟨_, _, rfl, rfl, by decide⟩

theorem skip_value {w : CString} (hw : cjsonRules.Blanks w)
    (h : Text (treeValues p) cjsonRules n (.value v) t) :
    bufferSkipWhitespace (w ++ (t ++ rest)) = t ++ rest := by
  obtain ⟨c, t', rfl, hc, -⟩ := value_head h
  exact bufferSkipWhitespace_blanks hw hc

theorem skip_quoted {w content k : CString} (hw : cjsonRules.Blanks w)
    (h : quotedTaken content k) : bufferSkipWhitespace (w ++ (k ++ rest)) = k ++ rest := by
  obtain ⟨t, rfl, -⟩ := h
  exact bufferSkipWhitespace_blanks hw rfl

/-- No numeral reaches behind the text. -/
def NumeralEnds (t rest : CString) : Prop :=
  ∀ x, NumeralTaken x → x.text <+: t ++ rest → x.text.length ≤ t.length

theorem numeralEnds_of_stop (h : ∀ c ∈ rest.head?, isNumberChar c = false) : NumeralEnds t rest :=
  fun _ hx hprefix => text_length_le_of_stop hx.toWellFormed h hprefix

/-- What the readers make of the text of a part, when the fuel outlasts it. -/
def ReadsAs (p : Platform) (n : Nat) (t : CString) : Part CJson CString → Prop
  | .value v => ∀ fuel depth rest, depth + n ≤ kNestingLimit → t.length < fuel →
      NumeralEnds t rest → (parseValue p fuel depth (t ++ rest)).ok = some (v, rest)
  | .items vs => ∀ fuel depth rest, depth + n ≤ kNestingLimit → t.length < fuel → vs ≠ [] →
      (parseItems p fuel depth (t ++ rest)).ok = some (vs, rest)
  | .members ms => ∀ fuel depth rest, depth + n ≤ kNestingLimit → t.length < fuel → ms ≠ [] →
      (parseMembers p fuel depth (t ++ rest)).ok = some (ms, rest)

theorem ReadsAs.null : ReadsAs p n "null" (.value .null) := by
  rintro (_ | fuel) depth rest hdepth hfuel hends
  · cases hfuel
  · rfl

theorem ReadsAs.false : ReadsAs p n "false" (.value (.bool false)) := by
  rintro (_ | fuel) depth rest hdepth hfuel hends
  · cases hfuel
  · rfl

theorem ReadsAs.true : ReadsAs p n "true" (.value (.bool true)) := by
  rintro (_ | fuel) depth rest hdepth hfuel hends
  · cases hfuel
  · rfl

theorem not_word {c : Char} (hc : c ≠ 'n' ∧ c ≠ 'f' ∧ c ≠ 't') (s : CString) :
    (c :: s).take 4 ≠ "null" ∧ (c :: s).take 5 ≠ "false" ∧ (c :: s).take 4 ≠ "true" :=
  ⟨fun heq => hc.1 (List.cons.inj heq).1, fun heq => hc.2.1 (List.cons.inj heq).1,
    fun heq => hc.2.2 (List.cons.inj heq).1⟩

theorem parseValue_digit {c : Char} (hc : c = '-' ∨ c.isDigit = true) :
    (parseValue p (fuel + 1) depth (c :: s)).ok =
      (parseNumber p (c :: s)).map fun r => (.number r.1, r.2) := by
  have hletter : (c ≠ 'n' ∧ c ≠ 'f' ∧ c ≠ 't') ∧ c ≠ '"' := by
    rcases hc with rfl | hc
    · decide
    · exact of_isDigit (P := fun c => (c ≠ 'n' ∧ c ≠ 'f' ∧ c ≠ 't') ∧ c ≠ '"') (by decide) hc
  obtain ⟨hnull, hfalse, htrue⟩ := not_word hletter.1 s
  rw [parseValue, if_neg hnull, if_neg hfalse, if_neg htrue, if_neg hletter.2, if_pos hc]
  rfl

theorem ReadsAs.number {x : Numeral} (hx : NumeralTaken x) :
    ReadsAs p n x.text (.value (.number (p.round x.value))) := by
  rintro (_ | fuel) depth rest hdepth hfuel hends
  · cases hfuel
  · obtain ⟨c, t', ht, hc⟩ := number_head hx
    have hparse : parseNumber p (x.text ++ rest) = some (p.round x.value, rest) := by
      refine (parseNumber_eq_some_iff ?_).2 ⟨x, hx, rfl, rfl, hends⟩
      rw [ht]
      simpa using hc
    rw [ht, List.cons_append] at hparse ⊢
    rw [parseValue_digit hc, hparse, Option.map_some]

theorem ReadsAs.string {content : CString} (h : quotedTaken content t) :
    ReadsAs p n t (.value (.string (upToNul content))) := by
  rintro (_ | fuel) depth rest hdepth hfuel hends
  · cases hfuel
  · have hparse := parseString_ok_quoted h rest
    obtain ⟨t, rfl, -⟩ := h
    rw [List.cons_append] at hparse ⊢
    obtain ⟨hnull, hfalse, htrue⟩ := not_word (c := '"') (by decide) (t ++ ['"'] ++ rest)
    rw [parseValue, if_neg hnull, if_neg hfalse, if_neg htrue, if_pos rfl, AllocM.ok_bind, hparse]
    rfl

/-- An opened array: what is not its closing bracket begins its items. -/
theorem parseValue_bracket (hdepth : depth < kNestingLimit) {c : Char}
    (hinner : bufferSkipWhitespace s = c :: t) : (parseValue p (fuel + 1) depth ('[' :: s)).ok =
      if c = ']' then some (.array [], t)
      else (parseItems p fuel (depth + 1) (c :: t)).ok.map fun r => (.array r.1, r.2) := by
  obtain ⟨hnull, hfalse, htrue⟩ := not_word (c := '[') (by decide) s
  rw [parseValue, if_neg hnull, if_neg hfalse, if_neg htrue, if_neg (by decide), if_neg (by decide),
    if_pos rfl, if_neg (Nat.not_le.2 hdepth)]
  simp only [hinner]
  by_cases hc : c = ']'
  · subst hc
    rfl
  · rw [if_neg hc]
    split
    · rename_i heq
      cases heq
    · rename_i heq
      exact absurd (List.cons.inj heq).1 hc
    · rw [AllocM.ok_bind, AllocM.ok_pure]

theorem parseValue_brace (hdepth : depth < kNestingLimit) {c : Char}
    (hinner : bufferSkipWhitespace s = c :: t) : (parseValue p (fuel + 1) depth ('{' :: s)).ok =
      if c = '}' then some (.object [], t)
      else (parseMembers p fuel (depth + 1) (c :: t)).ok.map fun r => (.object r.1, r.2) := by
  obtain ⟨hnull, hfalse, htrue⟩ := not_word (c := '{') (by decide) s
  rw [parseValue, if_neg hnull, if_neg hfalse, if_neg htrue, if_neg (by decide), if_neg (by decide),
    if_neg (by decide), if_pos rfl, if_neg (Nat.not_le.2 hdepth)]
  simp only [hinner]
  by_cases hc : c = '}'
  · subst hc
    rfl
  · rw [if_neg hc]
    split
    · rename_i heq
      cases heq
    · rename_i heq
      exact absurd (List.cons.inj heq).1 hc
    · rw [AllocM.ok_bind, AllocM.ok_pure]

theorem parseItems_congr {s' : CString} (h : bufferSkipWhitespace s = bufferSkipWhitespace s') :
    parseItems p fuel depth s = parseItems p fuel depth s' := by
  cases fuel with
  | zero => rfl
  | succ fuel => rw [parseItems, parseItems, h]

theorem parseMembers_congr {s' : CString} (hs : s ≠ []) (hs' : s' ≠ [])
    (h : bufferSkipWhitespace s = bufferSkipWhitespace s') :
    parseMembers p fuel depth s = parseMembers p fuel depth s' := by
  cases fuel with
  | zero => rfl
  | succ fuel => rw [parseMembers, parseMembers, if_neg hs, if_neg hs', h]

theorem head_stop {w : CString} (hw : cjsonRules.Blanks w) {c : Char}
    (hc : isNumberChar c = false) : ∀ d ∈ (w ++ c :: t).head?, isNumberChar d = false := by
  intro d hd
  cases w with
  | nil =>
    obtain rfl := Option.some.inj hd
    exact hc
  | cons b w =>
    obtain rfl := Option.some.inj hd
    have hblank : isBlankByte b = true := hw b List.mem_cons_self
    by_contra hnumber
    rcases isNumberChar_cases (by simpa using hnumber) with hdigit | hmark
    · have := of_isDigit (P := fun c => isBlankByte c = false) (by decide) hdigit
      rw [hblank] at this
      cases this
    · have := forall_mem_of_all (P := fun c => isBlankByte c = false) (by decide) b hmark
      rw [hblank] at this
      cases this

theorem items_head {vs : List CJson} (hne : vs ≠ [])
    (h : Text (treeValues p) cjsonRules n (.items vs) t) :
    ∃ w c t', t = w ++ c :: t' ∧ cjsonRules.Blanks w ∧ isBlankByte c = false ∧ c ≠ ']' := by
  cases h with
  | noItems => exact absurd rfl hne
  | lastItem hw hv =>
    obtain ⟨c, t', rfl, hc, hbracket, -⟩ := value_head hv
    exact ⟨_, c, _, rfl, hw, hc, hbracket⟩
  | item hw hv =>
    obtain ⟨c, t', rfl, hc, hbracket, -⟩ := value_head hv
    exact ⟨_, c, _, rfl, hw, hc, hbracket⟩

theorem members_head {ms : List (CString × CJson)} (hne : ms ≠ [])
    (h : Text (treeValues p) cjsonRules n (.members ms) t) :
    ∃ w t', t = w ++ '"' :: t' ∧ cjsonRules.Blanks w := by
  cases h with
  | noMembers => exact absurd rfl hne
  | lastMember hw hk =>
    obtain ⟨t', rfl, -⟩ := hk
    exact ⟨_, _, rfl, hw⟩
  | member hw hk =>
    obtain ⟨t', rfl, -⟩ := hk
    exact ⟨_, _, rfl, hw⟩

theorem ReadsAs.array {vs : List CJson} (h : Text (treeValues p) cjsonRules n (.items vs) t)
    (ih : ReadsAs p n t (.items vs)) : ReadsAs p (n + 1) ('[' :: t) (.value (.array vs)) := by
  rintro (_ | fuel) depth rest hdepth hfuel hends
  · cases hfuel
  · rw [List.length_cons] at hfuel
    by_cases hvs : vs = []
    · subst hvs
      cases h with
      | @noItems _ w hw =>
        have hinner : bufferSkipWhitespace (w ++ [']'] ++ rest) = ']' :: rest := by
          rw [List.append_assoc]
          exact bufferSkipWhitespace_blanks hw rfl
        rw [List.cons_append, parseValue_bracket (by omega) hinner, if_pos rfl]
    · obtain ⟨w, c, t', ht, hw, hc, hbracket⟩ := items_head hvs h
      have hinner : bufferSkipWhitespace (t ++ rest) = c :: (t' ++ rest) := by
        rw [ht, List.append_assoc, List.cons_append]
        exact bufferSkipWhitespace_blanks hw hc
      have hskip : bufferSkipWhitespace (c :: (t' ++ rest)) = bufferSkipWhitespace (t ++ rest) := by
        rw [hinner]
        exact bufferSkipWhitespace_blanks (w := []) (by simp) hc
      rw [List.cons_append, parseValue_bracket (by omega) hinner, if_neg hbracket,
        parseItems_congr hskip, ih fuel (depth + 1) rest (by omega) (by omega) hvs]
      rfl

theorem ReadsAs.object {ms : List (CString × CJson)}
    (h : Text (treeValues p) cjsonRules n (.members ms) t) (ih : ReadsAs p n t (.members ms)) :
    ReadsAs p (n + 1) ('{' :: t) (.value (.object ms)) := by
  rintro (_ | fuel) depth rest hdepth hfuel hends
  · cases hfuel
  · rw [List.length_cons] at hfuel
    by_cases hms : ms = []
    · subst hms
      cases h with
      | @noMembers _ w hw =>
        have hinner : bufferSkipWhitespace (w ++ ['}'] ++ rest) = '}' :: rest := by
          rw [List.append_assoc]
          exact bufferSkipWhitespace_blanks hw rfl
        rw [List.cons_append, parseValue_brace (by omega) hinner, if_pos rfl]
    · obtain ⟨w, t', ht, hw⟩ := members_head hms h
      have hinner : bufferSkipWhitespace (t ++ rest) = '"' :: (t' ++ rest) := by
        rw [ht, List.append_assoc, List.cons_append]
        exact bufferSkipWhitespace_blanks hw rfl
      have hskip : bufferSkipWhitespace ('"' :: (t' ++ rest)) =
          bufferSkipWhitespace (t ++ rest) := by
        rw [hinner]
        exact bufferSkipWhitespace_blanks (w := []) (by simp) rfl
      have hne : t ++ rest ≠ [] := by
        rw [ht]
        simp
      rw [List.cons_append, parseValue_brace (by omega) hinner, if_neg (by decide),
        parseMembers_congr (List.cons_ne_nil _ _) hne hskip,
        ih fuel (depth + 1) rest (by omega) (by omega) hms]
      rfl

theorem ReadsAs.noItems : ReadsAs p n t (.items []) :=
  fun _ _ _ _ _ hne => absurd rfl hne

theorem ReadsAs.noMembers : ReadsAs p n t (.members []) :=
  fun _ _ _ _ _ hne => absurd rfl hne

theorem ReadsAs.lastItem {w w' : CString} (hw : cjsonRules.Blanks w)
    (h : Text (treeValues p) cjsonRules n (.value v) t) (ih : ReadsAs p n t (.value v))
    (hw' : cjsonRules.Blanks w') : ReadsAs p n (w ++ (t ++ (w' ++ [']']))) (.items [v]) := by
  rintro (_ | fuel) depth rest hdepth hfuel hne
  · cases hfuel
  · simp only [List.length_append, List.length_cons] at hfuel
    have hvalue := ih fuel depth (w' ++ ']' :: rest) hdepth (by omega)
      (numeralEnds_of_stop (head_stop hw' rfl))
    have hjoin : w ++ (t ++ (w' ++ [']'])) ++ rest = w ++ (t ++ (w' ++ ']' :: rest)) := by simp
    rw [hjoin, parseItems]
    simp only [AllocM.ok_bind, AllocM.ok_copy, skip_value hw h, hvalue,
      bufferSkipWhitespace_blanks hw' (c := ']') rfl]
    rfl

theorem ReadsAs.item {w w' t' : CString} {vs : List CJson} (hw : cjsonRules.Blanks w)
    (h : Text (treeValues p) cjsonRules n (.value v) t) (ih : ReadsAs p n t (.value v))
    (hw' : cjsonRules.Blanks w') (hvs : vs ≠ []) (ih' : ReadsAs p n t' (.items vs)) :
    ReadsAs p n (w ++ (t ++ (w' ++ ',' :: t'))) (.items (v :: vs)) := by
  rintro (_ | fuel) depth rest hdepth hfuel hne
  · cases hfuel
  · simp only [List.length_append, List.length_cons] at hfuel
    have hvalue := ih fuel depth (w' ++ ',' :: (t' ++ rest)) hdepth (by omega)
      (numeralEnds_of_stop (head_stop hw' rfl))
    have hitems := ih' fuel depth rest hdepth (by omega) hvs
    have hjoin : w ++ (t ++ (w' ++ ',' :: t')) ++ rest =
        w ++ (t ++ (w' ++ ',' :: (t' ++ rest))) := by simp
    rw [hjoin, parseItems]
    simp only [AllocM.ok_bind, AllocM.ok_copy, skip_value hw h, hvalue,
      bufferSkipWhitespace_blanks hw' (c := ',') rfl, hitems]
    rfl

theorem ReadsAs.lastMember {content w₁ k w₂ w₃ w₄ : CString} (h₁ : cjsonRules.Blanks w₁)
    (hk : quotedTaken content k) (h₂ : cjsonRules.Blanks w₂) (h₃ : cjsonRules.Blanks w₃)
    (h : Text (treeValues p) cjsonRules n (.value v) t) (ih : ReadsAs p n t (.value v))
    (h₄ : cjsonRules.Blanks w₄) :
    ReadsAs p n (w₁ ++ (k ++ (w₂ ++ ':' :: (w₃ ++ (t ++ (w₄ ++ ['}']))))))
      (.members [(upToNul content, v)]) := by
  rintro (_ | fuel) depth rest hdepth hfuel hne
  · cases hfuel
  · simp only [List.length_append, List.length_cons] at hfuel
    have hvalue := ih fuel depth (w₄ ++ '}' :: rest) hdepth (by omega)
      (numeralEnds_of_stop (head_stop h₄ rfl))
    have hjoin : w₁ ++ (k ++ (w₂ ++ ':' :: (w₃ ++ (t ++ (w₄ ++ ['}']))))) ++ rest =
        w₁ ++ (k ++ (w₂ ++ ':' :: (w₃ ++ (t ++ (w₄ ++ '}' :: rest))))) := by simp
    have hnil : w₁ ++ (k ++ (w₂ ++ ':' :: (w₃ ++ (t ++ (w₄ ++ '}' :: rest))))) ≠ [] := by simp
    rw [hjoin, parseMembers]
    simp only [AllocM.ok_bind, AllocM.ok_copy, if_neg hnil, skip_quoted h₁ hk,
      parseString_ok_quoted hk, bufferSkipWhitespace_blanks h₂ (c := ':') rfl, skip_value h₃ h,
      hvalue, bufferSkipWhitespace_blanks h₄ (c := '}') rfl]
    rfl

theorem ReadsAs.member {content w₁ k w₂ w₃ w₄ t' : CString} {ms : List (CString × CJson)}
    (h₁ : cjsonRules.Blanks w₁) (hk : quotedTaken content k) (h₂ : cjsonRules.Blanks w₂)
    (h₃ : cjsonRules.Blanks w₃) (h : Text (treeValues p) cjsonRules n (.value v) t)
    (ih : ReadsAs p n t (.value v)) (h₄ : cjsonRules.Blanks w₄) (hms : ms ≠ [])
    (ih' : ReadsAs p n t' (.members ms)) :
    ReadsAs p n (w₁ ++ (k ++ (w₂ ++ ':' :: (w₃ ++ (t ++ (w₄ ++ ',' :: t'))))))
      (.members ((upToNul content, v) :: ms)) := by
  rintro (_ | fuel) depth rest hdepth hfuel hne
  · cases hfuel
  · simp only [List.length_append, List.length_cons] at hfuel
    have hvalue := ih fuel depth (w₄ ++ ',' :: (t' ++ rest)) hdepth (by omega)
      (numeralEnds_of_stop (head_stop h₄ rfl))
    have hmembers := ih' fuel depth rest hdepth (by omega) hms
    have hjoin : w₁ ++ (k ++ (w₂ ++ ':' :: (w₃ ++ (t ++ (w₄ ++ ',' :: t'))))) ++ rest =
        w₁ ++ (k ++ (w₂ ++ ':' :: (w₃ ++ (t ++ (w₄ ++ ',' :: (t' ++ rest)))))) := by simp
    have hnil : w₁ ++ (k ++ (w₂ ++ ':' :: (w₃ ++ (t ++ (w₄ ++ ',' :: (t' ++ rest)))))) ≠ [] := by
      simp
    rw [hjoin, parseMembers]
    simp only [AllocM.ok_bind, AllocM.ok_copy, if_neg hnil, skip_quoted h₁ hk,
      parseString_ok_quoted hk, bufferSkipWhitespace_blanks h₂ (c := ':') rfl, skip_value h₃ h,
      hvalue, bufferSkipWhitespace_blanks h₄ (c := ',') rfl, hmembers]
    rfl

/-- Every text of the grammar is read, by its derivation. -/
theorem reads_of_text {part : Part CJson CString}
    (h : Text (treeValues p) cjsonRules n part t) : ReadsAs p n t part := by
  induction h with
  | null => exact .null
  | false => exact .false
  | true => exact .true
  | number hx => exact .number hx
  | string hs => exact .string hs
  | array h ih => exact .array h ih
  | object h ih => exact .object h ih
  | noItems => exact .noItems
  | lastItem hw h hw' ih => exact .lastItem hw h ih hw'
  | item hw h hw' hne _ ih ih' => exact .item hw h ih hw' hne ih'
  | noMembers => exact .noMembers
  | lastMember h₁ hk h₂ h₃ h h₄ ih => exact .lastMember h₁ hk h₂ h₃ h ih h₄
  | member h₁ hk h₂ h₃ h h₄ hne _ ih ih' => exact .member h₁ hk h₂ h₃ h ih h₄ hne ih'

/-! ### What the parser accepts -/

theorem parseWithLength_ok (hs : s ≠ []) : (parseWithLength p s).ok =
    (parseValue p (2 * s.length + 2) 0 (bufferSkipWhitespace (skipUtf8Bom s))).ok.map Prod.fst := by
  rw [parseWithLength, if_neg hs]
  simp

theorem skipUtf8Bom_length_le (s : CString) : (skipUtf8Bom s).length ≤ s.length := by
  unfold skipUtf8Bom
  split
  · rw [List.length_drop]
    omega
  · exact le_rfl

theorem numeralEnds_of_parse (h : (parseValue p fuel depth (t ++ rest)).ok = some (v, rest)) :
    NumeralEnds t rest := by
  intro y hy hprefix
  obtain ⟨c, u, hyt, hc⟩ := number_head hy
  obtain ⟨u', hu⟩ : ∃ u', t ++ rest = c :: u' := by
    obtain ⟨r, hr⟩ := hprefix
    exact ⟨u ++ r, by rw [← hr, hyt, List.cons_append]⟩
  cases fuel with
  | zero => cases h
  | succ fuel =>
    rw [hu, parseValue_digit hc, Option.map_eq_some_iff] at h
    obtain ⟨⟨d, rest'⟩, hparse, hv⟩ := h
    simp only [Prod.mk.injEq] at hv
    obtain ⟨-, rfl⟩ := hv
    have hhead : ∀ b ∈ (c :: u').head?, b = '-' ∨ b.isDigit = true := by
      rintro b ⟨⟩
      exact hc
    obtain ⟨x, -, htext, -, hlongest⟩ := (parseNumber_eq_some_iff hhead).1 hparse
    rw [← hu] at htext hlongest
    rw [List.append_cancel_right htext]
    exact hlongest y hy hprefix

theorem text_of_parse {s : CString} (h : (parseWithLength p s).ok = some v) :
    ∃ w t rest, skipUtf8Bom s = w ++ (t ++ rest) ∧ cjsonRules.Blanks w ∧
      Text (treeValues p) cjsonRules kNestingLimit (.value v) t ∧ NumeralEnds t rest := by
  have hs : s ≠ [] := by
    rintro rfl
    cases h
  rw [parseWithLength_ok hs] at h
  obtain ⟨⟨v', rest⟩, hparse, rfl⟩ := Option.map_eq_some_iff.1 h
  obtain ⟨w, hw, hskip⟩ := bufferSkipWhitespace_split (skipUtf8Bom s)
  obtain ⟨t, ht, htext⟩ := (takesTexts p _).value _ _ _ _ hparse
  rw [ht] at hparse hskip
  exact ⟨w, t, rest, hskip, hw, htext, numeralEnds_of_parse hparse⟩

theorem parse_of_text {s w t rest : CString} (hsplit : skipUtf8Bom s = w ++ (t ++ rest))
    (hw : cjsonRules.Blanks w) (htext : Text (treeValues p) cjsonRules kNestingLimit (.value v) t)
    (hends : NumeralEnds t rest) : (parseWithLength p s).ok = some v := by
  have hlength := congrArg List.length hsplit
  have hle := skipUtf8Bom_length_le s
  simp only [List.length_append] at hlength
  have hs : s ≠ [] := by
    rintro rfl
    obtain ⟨c, t', rfl, -⟩ := value_head htext
    rw [List.length_nil] at hle
    rw [List.length_cons] at hlength
    omega
  have hread := reads_of_text htext (2 * s.length + 2) 0 rest (by omega) (by omega) hends
  rw [parseWithLength_ok hs, hsplit, skip_value hw htext, hread, Option.map_some]

end

end Audd
