import Audd.Double
import Mathlib.Data.List.ReduceOption
import Mathlib.Data.List.TakeWhile

/-! The offset of a chunk, which `offsetToSeconds` reads as a number of seconds or as components
separated by colons.  The component loop counts to three, and where it ends by its count it has
already passed a colon. -/

namespace Audd

def isBlank (c : Char) : Bool := c == ' ' || c == '\t'

/-- The -1 that stands for an unknown position. -/
def unknownSeconds : Option CDouble := some (.finite (-1))

section

variable (p : Platform)

/-- The component loop with `n` components still allowed: those that it reads, and what is left. -/
def readParts : Nat → CString → Option (List (Option CDouble) × CString)
  | 0, s => some ([], s)
  | n + 1, s =>
    match strtodText p s with
    | none => none
    | some (v, rest) =>
      if belowZero v then none
      else
        match rest with
        | ':' :: rest => (readParts n rest).map fun (parts, rest) => (v :: parts, rest)
        | rest => if rest.dropWhile isBlank = [] then some ([v], []) else none

def sumParts (parts : List (Option CDouble)) : Option CDouble :=
  parts.foldl (fun seconds part => addDouble p (seconds.map (CDouble.scale p 60)) part)
    (some (.finite 0))

/-- `audd_offset_to_seconds`. -/
def offsetToSeconds (offset : Option CString) : Option CDouble :=
  match offset.map (List.dropWhile isBlank) with
  | none | some [] => unknownSeconds
  | some offset =>
    if ':' ∉ offset then
      match strtodText p offset with
      | none => unknownSeconds
      | some (v, rest) =>
        if rest.dropWhile isBlank ≠ [] then unknownSeconds
        else if belowZero v then unknownSeconds
        else v
    else
      match readParts p 3 offset with
      | none => unknownSeconds
      | some (parts, rest) => if rest.head? = some ':' then unknownSeconds else sumParts p parts

end

/-! ### The grammar of offsets -/

/-- A decimal component: digits with an optional fraction. -/
structure Decimal where
  whole : CString
  fraction : Option CString
  whole_ne : whole ≠ []
  whole_digits : ∀ c ∈ whole, c.isDigit = true
  fraction_digits : ∀ f ∈ fraction, ∀ c ∈ f, c.isDigit = true

namespace Decimal

def text (d : Decimal) : CString := d.whole ++ (d.fraction.map ('.' :: ·)).getD []

def value (d : Decimal) : ℚ :=
  digitsValue (d.whole ++ d.fraction.getD []) * (10 : ℚ) ^ (-((d.fraction.getD []).length : Int))

theorem value_nonneg (d : Decimal) : 0 ≤ d.value := by
  exact mul_nonneg (Nat.cast_nonneg _) (zpow_nonneg (by norm_num) _)

end Decimal

/-- The text of components joined by colons, `none` for one that is empty. -/
def joined (components : List (Option Decimal)) : CString :=
  [':'].intercalate (components.map fun c => (c.map Decimal.text).getD [])

/-- Seconds from hours, minutes and seconds, as far as they are there. -/
def horner (components : List Decimal) : ℚ :=
  components.foldl (fun seconds c => seconds * 60 + c.value) 0

/-- The seconds that components stand for: at most three of them, and none empty. -/
def secondsOf (components : List (Option Decimal)) : Option CDouble :=
  if components.length ≤ 3 ∧ components.all Option.isSome then
    some (.finite (horner components.reduceOption))
  else unknownSeconds

/-! ### Reading a component -/

/-- What may follow a component: the end, a colon, or a blank. -/
def EndsNumber (rest : CString) : Prop := ∀ c ∈ rest.head?, c = ':' ∨ isBlank c = true

theorem EndsNumber.not_digit {rest : CString} (h : EndsNumber rest) :
    ∀ c ∈ rest.head?, c.isDigit = false ∧ c ≠ '.' ∧ c ∉ ['e', 'E'] ∧ c.toLower ≠ 'x' := by
  intro c hc
  rcases h c hc with rfl | hblank
  · decide
  · rcases (by simpa [isBlank] using hblank : c = ' ' ∨ c = '\t') with rfl | rfl <;> decide

theorem digit_ne {c : Char} (h : c.isDigit = true) :
    isspace c = false ∧ isBlank c = false ∧ c ≠ '-' ∧ c ≠ '+' ∧ c ≠ ':' ∧
      c.toLower ≠ 'i' ∧ c.toLower ≠ 'n' ∧ c.toLower ≠ 'x' :=
  of_isDigit (P := fun c => isspace c = false ∧ isBlank c = false ∧ c ≠ '-' ∧ c ≠ '+' ∧ c ≠ ':' ∧
    c.toLower ≠ 'i' ∧ c.toLower ≠ 'n' ∧ c.toLower ≠ 'x') (by decide) h

namespace Decimal

theorem readDigits_text (d : Decimal) {rest : CString} (hrest : EndsNumber rest) :
    readDigits Char.isDigit (d.text ++ rest) = (d.whole, d.fraction.getD [], rest) := by
  have hend : ∀ c ∈ rest.head?, c.isDigit = false := fun c hc => (hrest.not_digit c hc).1
  cases hf : d.fraction with
  | none =>
    have htext : d.text = d.whole := by simp [text, hf]
    obtain ⟨htake, hdrop⟩ := takeWhile_digits d.whole_digits hend
    rw [htext, readDigits, htake, hdrop]
    split
    · rename_i after
      exact absurd rfl (hrest.not_digit '.' rfl).2.1
    · rfl
  | some f =>
    have htext : d.text ++ rest = d.whole ++ '.' :: (f ++ rest) := by simp [text, hf]
    have hpoint : ∀ c ∈ ('.' :: (f ++ rest)).head?, c.isDigit = false := by simp
    obtain ⟨htake, hdrop⟩ := takeWhile_digits d.whole_digits hpoint
    obtain ⟨hfrac, hafter⟩ := takeWhile_digits (d.fraction_digits f hf) hend
    rw [htext, readDigits, htake, hdrop]
    simp [hfrac, hafter]

theorem readDecimal_text (d : Decimal) {rest : CString} (hrest : EndsNumber rest) :
    readDecimal (d.text ++ rest) = some (d.value, rest) := by
  have hexponent : readMarkedExponent ['e', 'E'] rest = (0, rest) := by
    cases rest with
    | nil => rfl
    | cons c rest =>
      have := (hrest.not_digit c rfl).2.2.1
      simp [readMarkedExponent, this]
  simp [readDecimal, readDigits_text d hrest, d.whole_ne, hexponent, value]

/-- A component is read to its end, whatever may follow one. -/
theorem strtodText_text (p : Platform) (d : Decimal) {rest : CString} (hrest : EndsNumber rest) :
    strtodText p (d.text ++ rest) = some (some (p.round d.value), rest) := by
  obtain ⟨c, whole, hwhole⟩ := List.exists_cons_of_ne_nil d.whole_ne
  have hc : c.isDigit = true := d.whole_digits c (by simp [hwhole])
  obtain ⟨hspace, -, hminus, hplus, -, hi, hn, -⟩ := digit_ne hc
  obtain ⟨tail, htail⟩ : ∃ tail, d.text ++ rest = c :: tail := by simp [text, hwhole]
  have hsign : readSign (d.text ++ rest) = (false, d.text ++ rest) := by
    rw [htail]
    unfold readSign
    split <;> simp_all
  -- the second character, where there is one, is a digit, the point, or what follows the component
  have hprefix : lower ((d.text ++ rest).take 2) ≠ ("0x" : String).toList := by
    have hsecond : ∀ x ∈ tail.head?, x.toLower ≠ 'x' := by
      intro x hx
      have hmem : x ∈ whole ∨ x = '.' ∨ x ∈ rest.head? := by
        have hsplit : tail = whole ++ ((d.fraction.map ('.' :: ·)).getD [] ++ rest) := by
          simpa [text, hwhole, eq_comm] using htail
        rw [hsplit] at hx
        cases whole with
        | cons y whole => exact .inl (by simp_all)
        | nil =>
          cases hf : d.fraction with
          | none => exact .inr (.inr (by simpa [hf] using hx))
          | some f => exact .inr (.inl (by simpa [hf, eq_comm] using hx))
      rcases hmem with hmem | rfl | hmem
      · exact (digit_ne (d.whole_digits x (by simp [hwhole, hmem]))).2.2.2.2.2.2.2
      · decide
      · exact (hrest.not_digit x hmem).2.2.2
    rw [htail]
    cases tail with
    | nil => simp [lower]
    | cons x tail => simp [lower, hsecond x rfl]
  have hskip : (d.text ++ rest).dropWhile isspace = d.text ++ rest := by
    rw [htail]
    simp [hspace]
  have hinfinity : lower ((d.text ++ rest).take 8) ≠ ("infinity" : String).toList ∧
      lower ((d.text ++ rest).take 3) ≠ ("inf" : String).toList ∧
      lower ((d.text ++ rest).take 3) ≠ ("nan" : String).toList := by
    rw [htail]
    simp [lower, hi, hn]
  rw [strtodText, hskip, hsign]
  simp only [hinfinity, hprefix, if_false, Option.none_or, readDecimal_text d hrest,
    Option.map_some]
  simp

end Decimal

/-- No number starts at a colon or where only blanks are left. -/
theorem strtodText_none (p : Platform) {s : CString}
    (h : s.head? = some ':' ∨ ∀ c ∈ s, isBlank c = true) : strtodText p s = none := by
  rcases h with h | h
  · obtain ⟨t, rfl⟩ : ∃ t, s = ':' :: t := by
      cases s with
      | nil => cases h
      | cons c t => exact ⟨t, by rw [Option.some.inj h]⟩
    rfl
  · have hskip : s.dropWhile isspace = [] := by
      apply List.dropWhile_eq_nil_iff.mpr
      intro c hc
      rcases (by simpa [isBlank] using h c hc : c = ' ' ∨ c = '\t') with rfl | rfl <;> decide
    rw [strtodText, hskip]
    rfl

/-! ### Reading the components -/

theorem joined_cons (c : Option Decimal) (components : List (Option Decimal)) :
    joined (c :: components) = (c.map Decimal.text).getD [] ++
      if components = [] then [] else ':' :: joined components := by
  cases components <;> simp [joined, List.intercalate]

/-- Seconds are summed without rounding where doubles are exact. -/
theorem sumParts_exact {p : Platform} (hp : p.round = .finite) (components : List Decimal) :
    sumParts p (components.map fun c => some (.finite c.value)) =
      some (.finite (horner components)) := by
  unfold sumParts horner
  generalize (0 : ℚ) = start
  induction components generalizing start with
  | nil => rfl
  | cons c components ih =>
    simp only [List.map_cons, List.foldl_cons]
    rw [← ih]
    simp [addDouble, CDouble.add, CDouble.scale, hp]

theorem belowZero_value {p : Platform} (hp : p.round = .finite) (d : Decimal) :
    belowZero (some (p.round d.value)) = false := by
  simp [belowZero, hp, CDouble.le, d.value_nonneg]

/-- What the loop makes of components: it fails at one that is empty; it reads as many as it may,
and leaves those after. -/
theorem readParts_joined {p : Platform} (hp : p.round = .finite) (n : Nat)
    {components : List (Option Decimal)} (hne : components ≠ []) {trail : CString}
    (htrail : ∀ c ∈ trail, isBlank c = true) :
    readParts p n (joined components ++ trail) =
      if (components.take n).all Option.isSome then
        some ((components.take n).reduceOption.map fun c => some (CDouble.finite c.value),
          if components.length ≤ n then [] else joined (components.drop n) ++ trail)
      else none := by
  induction n generalizing components with
  | zero => simp [readParts, hne]
  | succ n ih =>
    cases components with
    | nil => exact absurd rfl hne
    | cons c components =>
      cases c with
      | none =>
        have hempty : strtodText p (joined (none :: components) ++ trail) = none := by
          apply strtodText_none
          rw [joined_cons]
          split
          · exact .inr (by simpa using htrail)
          · exact .inl rfl
        simp [readParts, hempty]
      | some d =>
        rw [joined_cons]
        by_cases hlast : components = []
        · have hend : EndsNumber trail := fun c hc => .inr (htrail c (List.mem_of_mem_head? hc))
          have hblank : trail.dropWhile isBlank = [] := List.dropWhile_eq_nil_iff.mpr htrail
          simp only [hlast, if_true, Option.map_some, Option.getD_some, List.append_nil, readParts,
            d.strtodText_text p hend, belowZero_value hp, Bool.false_eq_true, if_false]
          split
          · exact absurd (htrail ':' (by simp)) (by decide)
          · simp [hblank, hp]
        · have hend : EndsNumber (':' :: (joined components ++ trail)) := by
            rintro c ⟨rfl⟩
            exact .inl rfl
          simp only [hlast, if_false, Option.map_some, Option.getD_some, List.append_assoc,
            List.cons_append, readParts, d.strtodText_text p hend, belowZero_value hp,
            ih hlast, Bool.false_eq_true]
          cases hall : (components.take n).all Option.isSome <;> simp [hall, hp]

/-! ### What is accepted -/

/-- Whether an offset is accepted: the first three components are there, and a fourth is not both
empty and followed by a fifth. -/
def accepted (components : List (Option Decimal)) : Bool :=
  (components.take 3).all Option.isSome &&
    match components.drop 3 with
    | none :: _ :: _ => false
    | _ => true

theorem joined_head {c : Option Decimal} {components : List (Option Decimal)}
    (h : ¬(c = none ∧ components = [])) :
    ∃ first, (joined (c :: components)).head? = some first ∧ isBlank first = false ∧
      (first = ':' ↔ c = none) := by
  rw [joined_cons]
  cases c with
  | none =>
    rw [if_neg fun hlast => h ⟨rfl, hlast⟩]
    exact ⟨':', rfl, by decide, by simp⟩
  | some d =>
    obtain ⟨first, whole, hwhole⟩ := List.exists_cons_of_ne_nil d.whole_ne
    have hdigit := digit_ne (d.whole_digits first (by simp [hwhole]))
    exact ⟨first, by simp [Decimal.text, hwhole], hdigit.2.1, by simp [hdigit.2.2.2.2.1]⟩

theorem colon_mem_joined {components : List (Option Decimal)} (hne : components ≠ []) :
    ':' ∈ joined components ↔ 2 ≤ components.length := by
  obtain ⟨c, components, rfl⟩ := List.exists_cons_of_ne_nil hne
  rw [joined_cons]
  by_cases hlast : components = []
  · subst hlast
    cases c with
    | none => simp
    | some d =>
      have hwhole : ':' ∉ d.whole := fun h => (digit_ne (d.whole_digits _ h)).2.2.2.2.1 rfl
      cases hf : d.fraction with
      | none => simp [Decimal.text, hf, hwhole]
      | some f =>
        have hfraction : ':' ∉ f := fun h => (digit_ne (d.fraction_digits f hf _ h)).2.2.2.2.1 rfl
        simp [Decimal.text, hf, hwhole, hfraction]
  · have := List.length_pos_iff.mpr hlast
    simp only [hlast, if_false, List.mem_append, List.mem_cons, true_or, or_true, true_iff,
      List.length_cons]
    omega

theorem accepted_eq_false_iff (components : List (Option Decimal)) :
    accepted components = false ↔
      none ∈ components.take 3 ∨ ∃ c later, components.drop 3 = none :: c :: later := by
  have hall : (components.take 3).all Option.isSome = false ↔ none ∈ components.take 3 := by
    simp only [List.all_eq_false, Option.not_isSome_iff_eq_none, exists_eq_right]
  rw [accepted, Bool.and_eq_false_iff, hall]
  apply or_congr_right
  split
  · rename_i c later hdrop
    exact ⟨fun _ => ⟨c, later, hdrop⟩, fun _ => rfl⟩
  · rename_i hother
    exact ⟨fun h => absurd h (by decide), fun ⟨c, later, h⟩ => absurd h (hother c later)⟩

/-- What is left after three components starts with a colon only where the fourth is empty and not
the last. -/
theorem leftover_head_iff (components : List (Option Decimal)) {trail : CString}
    (hcolon : ':' ∉ trail) :
    (if components.length ≤ 3 then [] else joined (components.drop 3) ++ trail).head? = some ':' ↔
      ∃ c later, components.drop 3 = none :: c :: later := by
  cases hdrop : components.drop 3 with
  | nil =>
    rw [if_pos (List.drop_eq_nil_iff.mp hdrop)]
    simp
  | cons x later =>
    have hmany : ¬components.length ≤ 3 := fun h => by
      rw [List.drop_eq_nil_iff.mpr h] at hdrop
      cases hdrop
    rw [if_neg hmany]
    by_cases hlast : x = none ∧ later = []
    · obtain ⟨rfl, rfl⟩ := hlast
      have hhead : trail.head? ≠ some ':' := fun h => hcolon (List.mem_of_mem_head? h)
      simp [joined_cons, hhead]
    · obtain ⟨next, hnext, -, hiff⟩ := joined_head hlast
      rw [List.head?_append, hnext, Option.some_or]
      simp only [Option.some.injEq, hiff]
      cases x with
      | some d => simp
      | none =>
        obtain ⟨y, ys, rfl⟩ := List.exists_cons_of_ne_nil fun h => hlast ⟨rfl, h⟩
        simp

/-- Leading blanks are skipped, up to the first component. -/
theorem skip_joined {c : Option Decimal} {components : List (Option Decimal)}
    {lead : CString} (hlead : ∀ c ∈ lead, isBlank c = true) (trail : CString)
    (hempty : ¬(c = none ∧ components = [])) :
    ∃ first text, joined (c :: components) ++ trail = first :: text ∧
      (lead ++ joined (c :: components) ++ trail).dropWhile isBlank = first :: text := by
  obtain ⟨first, hfirst, hnotBlank, -⟩ := joined_head hempty
  obtain ⟨text, htext⟩ : ∃ text, joined (c :: components) ++ trail = first :: text := by
    cases hj : joined (c :: components) with
    | nil => simp [hj] at hfirst
    | cons x xs => exact ⟨xs ++ trail, by simp_all⟩
  refine ⟨first, text, htext, ?_⟩
  rw [List.append_assoc, List.dropWhile_append_of_pos hlead, htext]
  simp [hnotBlank]

/-- The seconds of joined components among blanks: those of the first three, where accepted. -/
theorem offsetToSeconds_joined {p : Platform} (hp : p.round = .finite)
    {components : List (Option Decimal)} (hne : components ≠ []) {lead trail : CString}
    (hlead : ∀ c ∈ lead, isBlank c = true) (htrail : ∀ c ∈ trail, isBlank c = true) :
    offsetToSeconds p (some (lead ++ joined components ++ trail)) =
      if accepted components then
        some (.finite (horner (components.take 3).reduceOption))
      else unknownSeconds := by
  have hblank : trail.dropWhile isBlank = [] := List.dropWhile_eq_nil_iff.mpr htrail
  have hend : EndsNumber trail := fun c hc => .inr (htrail c (List.mem_of_mem_head? hc))
  have hcolon : ':' ∉ trail := fun h => absurd (htrail ':' h) (by decide)
  obtain ⟨c, components, rfl⟩ := List.exists_cons_of_ne_nil hne
  by_cases hempty : c = none ∧ components = []
  · -- nothing but blanks
    obtain ⟨rfl, rfl⟩ := hempty
    have htext : (lead ++ joined [none] ++ trail).dropWhile isBlank = [] := by
      apply List.dropWhile_eq_nil_iff.mpr
      intro c hc
      rcases List.mem_append.mp hc with hc | hc
      · exact hlead c (by simpa [joined_cons] using hc)
      · exact htrail c hc
    rw [offsetToSeconds, Option.map_some, htext]
    rfl
  · obtain ⟨first, text, htext, hskip⟩ := skip_joined hlead trail hempty
    have hmem : ':' ∈ first :: text ↔ 2 ≤ (c :: components).length := by
      rw [← htext, List.mem_append, colon_mem_joined (by simp)]
      simp [hcolon]
    rw [offsetToSeconds, Option.map_some, hskip]
    simp only [hmem]
    by_cases hone : components = []
    · -- one component, read as a bare number
      subst hone
      obtain ⟨d, rfl⟩ : ∃ d, c = some d := Option.ne_none_iff_exists'.mp (by simpa using hempty)
      have hread : strtodText p (first :: text) = some (some (.finite d.value), trail) := by
        rw [← htext, joined_cons, ← hp]
        simpa using d.strtodText_text p hend
      simp [hread, hblank, belowZero, CDouble.le, d.value_nonneg, accepted, horner]
    · have hlength := List.length_pos_iff.mpr hone
      have htwo : 2 ≤ (c :: components).length := by
        rw [List.length_cons]
        omega
      rw [if_neg (not_not.mpr htwo), ← htext, readParts_joined hp 3 (by simp) htrail]
      cases hall : ((c :: components).take 3).all Option.isSome with
      | false => simp only [accepted, hall, Bool.false_and, Bool.false_eq_true, if_false]
      | true =>
        have hnone : none ∉ (c :: components).take 3 := fun h =>
          absurd (List.all_eq_true.mp hall none h) Bool.false_ne_true
        have hrefused := accepted_eq_false_iff (c :: components)
        rw [or_iff_right hnone, ← leftover_head_iff _ hcolon] at hrefused
        simp only [if_true, ← hrefused, sumParts_exact hp]
        cases accepted (c :: components) <;> rfl

theorem horner_nonneg (components : List Decimal) : 0 ≤ horner components := by
  suffices h : ∀ start : ℚ, 0 ≤ start →
      0 ≤ components.foldl (fun seconds c => seconds * 60 + c.value) start from h 0 le_rfl
  induction components with
  | nil => exact fun start h => h
  | cons c components ih =>
    intro start hstart
    have := c.value_nonneg
    exact ih _ (by linarith)

/-- An offset has the seconds of its components exactly when there are at most three, or one of the
first three is empty, or the fourth is empty and not the last. -/
theorem offsetToSeconds_meets_iff {p : Platform} (hp : p.round = .finite)
    {components : List (Option Decimal)} (hne : components ≠ []) {lead trail : CString}
    (hlead : ∀ c ∈ lead, isBlank c = true) (htrail : ∀ c ∈ trail, isBlank c = true) :
    offsetToSeconds p (some (lead ++ joined components ++ trail)) = secondsOf components ↔
      components.length ≤ 3 ∨ none ∈ components.take 3 ∨
        ∃ c later, components.drop 3 = none :: c :: later := by
  rw [offsetToSeconds_joined hp hne hlead htrail, secondsOf, ← accepted_eq_false_iff]
  by_cases hlength : components.length ≤ 3
  · simp [hlength, accepted, List.take_of_length_le hlength, List.drop_eq_nil_iff.mpr hlength]
  · cases haccepted : accepted components with
    | false => simp [hlength]
    | true =>
      have hnonneg := horner_nonneg (components.take 3).reduceOption
      have hknown : some (CDouble.finite (horner (components.take 3).reduceOption)) ≠
          unknownSeconds := by
        rw [unknownSeconds, Ne, Option.some.injEq, CDouble.finite.injEq]
        linarith
      rw [if_pos rfl, if_neg fun h => hlength h.1]
      exact iff_of_false hknown (by simpa using hlength)

/-- A component of one digit. -/
def oneDigit (c : Char) (h : c.isDigit = true) : Decimal :=
  ⟨[c], none, by simp, by simpa using h, by simp⟩

theorem oneDigit_value (c : Char) (h : c.isDigit = true) :
    (oneDigit c h).value = digitsValue [c] := by
  simp [oneDigit, Decimal.value]

def fourComponents : List (Option Decimal) :=
  [some (oneDigit '1' rfl), some (oneDigit '2' rfl), some (oneDigit '3' rfl),
    some (oneDigit '4' rfl)]

theorem fourComponents_accepted : joined fourComponents = ("1:2:3:4" : CString) ∧
    offsetToSeconds .exact (some (joined fourComponents)) = some (.finite 3723) ∧
    secondsOf fourComponents = some (.finite (-1)) := by
  refine ⟨by decide, ?_, rfl⟩
  have h : offsetToSeconds .exact (some ([] ++ joined fourComponents ++ [])) = _ :=
    offsetToSeconds_joined rfl (by decide) (by simp) (by simp)
  rw [List.append_nil, List.nil_append, if_pos (by decide)] at h
  rw [h]
  have hone : digitsValue ['1'] = 1 := by decide
  have htwo : digitsValue ['2'] = 2 := by decide
  have hthree : digitsValue ['3'] = 3 := by decide
  norm_num [fourComponents, horner, oneDigit_value, hone, htwo, hthree]

theorem twoComponents_met :
    offsetToSeconds .exact (some ([] ++ joined [some (oneDigit '1' rfl), some (oneDigit '2' rfl)] ++
      [' '])) = secondsOf [some (oneDigit '1' rfl), some (oneDigit '2' rfl)] :=
  (offsetToSeconds_meets_iff rfl (by simp) (by simp) (by simp [isBlank])).mpr (.inl (by decide))

end Audd
