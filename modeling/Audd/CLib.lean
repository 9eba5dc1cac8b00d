import Mathlib.Algebra.Order.Floor.Ring
import Mathlib.Data.List.DropRight
import Mathlib.Data.Nat.Log
import Mathlib.Data.Rat.Floor
import Mathlib.Tactic.IntervalCases

/-! The parts of C and its library that the client is written in: strings, character classes, the
conversions between numbers, and the number formats that it prints and parses. -/

namespace Audd

/-- A C string up to its NUL, one character for each byte. -/
abbrev CString := List Char

instance : Coe String CString := ⟨String.toList⟩

instance : LawfulBEq CString := inferInstanceAs (LawfulBEq (List Char))

/-! ### Characters, in the C locale -/

def isspace (c : Char) : Bool := c == ' ' || ('\t' ≤ c && c ≤ '\r')

def lower (s : CString) : CString := s.map Char.toLower

def sameIgnoringCase (s t : CString) : Bool := lower s == lower t

theorem digit_mem {c : Char} (h : c.isDigit = true) : c ∈ ("0123456789" : CString) := by
  obtain ⟨hlow, hhigh⟩ : 48 ≤ c.toNat ∧ c.toNat ≤ 57 := by
    simpa [Char.isDigit, UInt32.le_iff_toNat_le] using h
  rw [← Char.ofNat_toNat c]
  interval_cases c.toNat <;> decide

/-- A property of the ten digits is one of every character that is a digit. -/
theorem of_isDigit {P : Char → Prop} [DecidablePred P]
    (h : ("0123456789" : CString).all (fun c => decide (P c)) = true) {c : Char}
    (hc : c.isDigit = true) : P c :=
  of_decide_eq_true (List.all_eq_true.1 h c (digit_mem hc))

/-- A property of each character of a text, checked one after the other. -/
theorem forall_mem_of_all {P : Char → Prop} [DecidablePred P] {s : CString}
    (h : s.all (fun c => decide (P c)) = true) : ∀ c ∈ s, P c :=
  fun c hc => of_decide_eq_true (List.all_eq_true.1 h c hc)

theorem takeWhile_digits {digits rest : CString} (h : ∀ c ∈ digits, c.isDigit = true)
    (hrest : ∀ c ∈ rest.head?, c.isDigit = false) :
    (digits ++ rest).takeWhile Char.isDigit = digits ∧
      (digits ++ rest).dropWhile Char.isDigit = rest := by
  rw [List.takeWhile_append_of_pos h, List.dropWhile_append_of_pos h]
  cases rest with
  | nil => simp
  | cons c rest => simp [hrest c rfl]

theorem sameIgnoringCase_refl (s : CString) : sameIgnoringCase s s = true := by
  simp [sameIgnoringCase]

/-! ### Doubles and their conversions -/

/-- A `double` that is not a NaN. -/
inductive CDouble
  | finite (q : ℚ)
  | infinite (negative : Bool)
deriving DecidableEq, Repr

/-- What C leaves to the platform: how the decimal text of a number rounds to a `double`, and the
values that its undefined conversions give, from a `double` outside the range of the target type. -/
structure Platform where
  round : ℚ → CDouble
  toInt : CDouble → Int
  toInt64 : CDouble → Int

def Platform.exact : Platform := ⟨.finite, fun _ => 0, fun _ => 0⟩

def InRange (bits : Nat) (n : Int) : Prop := -2 ^ (bits - 1) ≤ n ∧ n < 2 ^ (bits - 1)

instance (bits : Nat) (n : Int) : Decidable (InRange bits n) :=
  inferInstanceAs (Decidable (_ ∧ _))

namespace CDouble

def trunc : CDouble → Option Int
  | finite q => some (q.num.tdiv q.den)
  | infinite _ => none

/-- A conversion to a signed type of `bits` bits, which gives `undefined` out of its range. -/
def convert (bits : Nat) (undefined : Int) (d : CDouble) : Int :=
  match d.trunc with
  | some n => if InRange bits n then n else undefined
  | none => undefined

-- `(int)d`.
def toInt (p : Platform) (d : CDouble) : Int := d.convert 32 (p.toInt d)

-- `(int64_t)d`, and `(long)d` and `(long long)d`, which have the same range.
def toInt64 (p : Platform) (d : CDouble) : Int := d.convert 64 (p.toInt64 d)

def Converts (bits : Nat) (d : CDouble) : Prop := ∃ n, d.trunc = some n ∧ InRange bits n

theorem convert_of_trunc {bits : Nat} {undefined n : Int} {d : CDouble} (h : d.trunc = some n)
    (hn : InRange bits n) : d.convert bits undefined = n := by
  simp [convert, h, hn]

/-- An integer converts to itself. -/
theorem convert_int {bits : Nat} {undefined n : Int} (hn : InRange bits n) :
    (finite n).convert bits undefined = n :=
  convert_of_trunc (by simp [trunc]) hn

end CDouble

/-- `(int)n` for an `int64_t`: the low 32 bits. -/
def narrow (n : Int) : Int := n.bmod (2 ^ 32)

/-! ### Printing -/

-- `%d`, `%ld` and `%lld`.
def decimal : Int → CString
  | .ofNat n => Nat.toDigits 10 n
  | .negSucc n => '-' :: Nat.toDigits 10 (n + 1)

def exponent (q : ℚ) : Int :=
  if 1 ≤ q then Nat.log 10 ⌊q⌋₊ else -Nat.clog 10 ⌈q⁻¹⌉₊

def roundEven (q : ℚ) : Int :=
  if q - ⌊q⌋ = 1 / 2 ∧ ⌊q⌋ % 2 = 0 then ⌊q⌋ else ⌊q + 1 / 2⌋

/-- The `prec` significant digits of a magnitude, and the exponent of the first. -/
def significant (prec : Nat) (q : ℚ) : CString × Int :=
  if q = 0 then (List.replicate prec '0', 0)
  else
    let e := exponent q
    let digits := Nat.toDigits 10 (roundEven (q * (10 : ℚ) ^ ((prec : Int) - 1 - e))).toNat
    -- rounding up to the next power of ten leaves one digit more
    if digits.length > prec then (digits.take prec, e + 1) else (digits, e)

/-- Digits after a decimal point, as `%g` leaves them: no trailing zeros, and no bare point. -/
def fraction (digits : CString) : CString :=
  match digits.rdropWhile (· == '0') with
  | [] => []
  | rest => '.' :: rest

-- `%.*g` for a magnitude.
def formatMagnitude (prec : Nat) (q : ℚ) : CString :=
  let (digits, e) := significant prec q
  if e < -4 ∨ prec ≤ e then
    let power := decimal e.natAbs
    digits.take 1 ++ fraction (digits.drop 1) ++ ['e', if e < 0 then '-' else '+'] ++
      (if power.length < 2 then '0' :: power else power)
  else if e < 0 then '0' :: fraction (List.replicate (-e - 1).toNat '0' ++ digits)
  else digits.take (e.toNat + 1) ++ fraction (digits.drop (e.toNat + 1))

-- `%.*g`.
def formatG (prec : Nat) : CDouble → CString
  | .finite q => if q < 0 then '-' :: formatMagnitude prec (-q) else formatMagnitude prec q
  | .infinite negative => if negative then ("-inf" : String) else ("inf" : String)

/-! ### Parsing -/

def digitsValue (digits : CString) : Nat := Nat.ofDigitChars 10 digits 0

def readSign : CString → Bool × CString
  | '-' :: rest => (true, rest)
  | '+' :: rest => (false, rest)
  | s => (false, s)

/-- `strtoll(s, &end, 10)`: the value, held within the range of the type, and what `end` points
at.  `none` when no digits are found, which leaves `end` at `s`. -/
def strtoll (s : CString) : Option (Int × CString) :=
  let (negative, rest) := readSign (s.dropWhile isspace)
  let digits := rest.takeWhile Char.isDigit
  if digits = [] then none
  else
    let n : Int := if negative then -(digitsValue digits) else digitsValue digits
    some (max (-2 ^ 63) (min n (2 ^ 63 - 1)), rest.dropWhile Char.isDigit)

def readExponent (s : CString) : Int × CString :=
  match s with
  | 'e' :: rest =>
    let (negative, rest) := readSign rest
    let digits := rest.takeWhile Char.isDigit
    if digits = [] then (0, s)
    else (if negative then -(digitsValue digits) else digitsValue digits,
      rest.dropWhile Char.isDigit)
  | _ => (0, s)

/-- `strtod(s, &end)` on decimal text and on the infinities that `%g` prints: the value and what
`end` points at.  `none` when no number is found, which leaves `end` at `s`.  The client parses
nothing else with it: its other callers refuse letters first. -/
def strtod (p : Platform) (s : CString) : Option (CDouble × CString) :=
  let (negative, rest) := readSign (s.dropWhile isspace)
  if rest.take 3 = ("inf" : String) then some (.infinite negative, rest.drop 3)
  else
    let whole := rest.takeWhile Char.isDigit
    let rest := rest.dropWhile Char.isDigit
    let (fractional, rest) :=
      match rest with
      | '.' :: after => (after.takeWhile Char.isDigit, after.dropWhile Char.isDigit)
      | _ => ([], rest)
    if whole = [] ∧ fractional = [] then none
    else
      let (e, rest) := readExponent rest
      let magnitude : ℚ := digitsValue (whole ++ fractional) * (10 : ℚ) ^ (e - fractional.length)
      some (p.round (if negative then -magnitude else magnitude), rest)

/-! ### Reading what was printed -/

theorem InRange.wide {n : Int} (h : InRange 32 n) : InRange 64 n := by
  obtain ⟨hlow, hhigh⟩ := h
  exact ⟨by omega, by omega⟩

theorem length_decimal {n : Int} {k : Nat} (hk : 0 < k) (h : n.natAbs < 10 ^ k) :
    (decimal n).length ≤ k + 1 := by
  have hdigits : (Nat.toDigits 10 n.natAbs).length ≤ k :=
    (Nat.length_toDigits_le_iff (by omega) hk).2 h
  cases n with
  | ofNat n => exact Nat.le_succ_of_le hdigits
  | negSucc n => exact Nat.succ_le_succ hdigits

theorem isDigit_toDigits {n : Nat} {c : Char} (h : c ∈ Nat.toDigits 10 n) : c.isDigit = true :=
  Nat.isDigit_of_mem_toDigits (by decide) (by decide) h

theorem isspace_digit {c : Char} (h : c.isDigit = true) : isspace c = false :=
  of_isDigit (P := fun c => isspace c = false) (by decide) h

theorem isspace_decimal {n : Int} {c : Char} (h : c ∈ decimal n) : isspace c = false := by
  cases n with
  | ofNat n => exact isspace_digit (isDigit_toDigits h)
  | negSucc n =>
    rcases List.mem_cons.1 h with rfl | h
    · decide
    · exact isspace_digit (isDigit_toDigits h)

theorem decimal_ne_nil (n : Int) : decimal n ≠ [] := by
  cases n with
  | ofNat n => exact Nat.toDigits_ne_nil
  | negSucc n => exact List.cons_ne_nil _ _

theorem readSign_decimal (n : Int) :
    readSign (decimal n) = (decide (n < 0), Nat.toDigits 10 n.natAbs) := by
  cases n with
  | ofNat n =>
    obtain ⟨c, rest, hdigits⟩ := List.exists_cons_of_ne_nil (Nat.toDigits_ne_nil (b := 10) (n := n))
    have hc : c.isDigit = true := isDigit_toDigits (hdigits ▸ List.mem_cons_self)
    have hsign : c ≠ '-' ∧ c ≠ '+' :=
      of_isDigit (P := fun c => c ≠ '-' ∧ c ≠ '+') (by decide) hc
    show readSign (Nat.toDigits 10 n) = _
    rw [hdigits]
    unfold readSign
    split
    · rename_i heq
      exact absurd (List.cons.inj heq).1 hsign.1
    · rename_i heq
      exact absurd (List.cons.inj heq).1 hsign.2
    · exact Prod.ext (by simp) hdigits.symm
  | negSucc n =>
    rw [decide_eq_true (Int.negSucc_lt_zero n)]
    rfl

theorem strtoll_decimal {n : Int} (h : InRange 64 n) : strtoll (decimal n) = some (n, []) := by
  obtain ⟨hlow, hhigh⟩ := h
  have hdrop : (decimal n).dropWhile isspace = decimal n := by
    obtain ⟨c, rest, hn⟩ := List.exists_cons_of_ne_nil (decimal_ne_nil n)
    have hc : isspace c = false := isspace_decimal (hn ▸ List.mem_cons_self)
    rw [hn, List.dropWhile_cons_of_neg (by simp [hc])]
  have hall : ∀ c ∈ Nat.toDigits 10 n.natAbs, c.isDigit = true := fun c hc => isDigit_toDigits hc
  have hvalue : digitsValue (Nat.toDigits 10 n.natAbs) = n.natAbs := Nat.ofDigitChars_ten_toDigits
  rw [strtoll, hdrop, readSign_decimal]
  simp only [List.takeWhile_eq_self_iff.2 hall, List.dropWhile_eq_nil_iff.2 hall,
    if_neg Nat.toDigits_ne_nil, hvalue]
  congr 2
  by_cases hn : n < 0
  · simp only [hn, decide_true, if_true]
    omega
  · simp only [hn, decide_false, Bool.false_eq_true, if_false]
    omega

end Audd
