import Mathlib.Data.Rat.Defs
import Mathlib.Data.List.Basic

/-! The texts of JSON.  A tree is any type with a value for each kind of text (`Values`).  `Rules`
says which characters are blank, which numerals count, and which texts are the strings; brackets,
separators and nesting are the same under all rules.  `standard` gives the rules of JSON itself, and
a reader that takes more has weaker ones. -/

namespace JsonText

/-! ### Numerals -/

structure Exponent where
  mark : Char
  negative : Option Bool
  digits : List Char
deriving DecidableEq

structure Numeral where
  negative : Bool
  whole : List Char
  fraction : Option (List Char)
  exponent : Option Exponent
deriving DecidableEq

namespace Exponent

def text (e : Exponent) : List Char :=
  e.mark :: ((e.negative.map fun negative => if negative then '-' else '+').toList ++ e.digits)

def value (e : Exponent) : Int :=
  let n : Int := Nat.ofDigitChars 10 e.digits 0
  if e.negative = some true then -n else n

end Exponent

namespace Numeral

variable (x : Numeral)

def sign : List Char := if x.negative then ['-'] else []

def fractionText : List Char := (x.fraction.map ('.' :: ·)).getD []

def exponentText : List Char := (x.exponent.map Exponent.text).getD []

def unsigned : List Char := x.whole ++ (x.fractionText ++ x.exponentText)

def text : List Char := x.sign ++ x.unsigned

def magnitude : ℚ :=
  Nat.ofDigitChars 10 (x.whole ++ x.fraction.getD []) 0 *
    (10 : ℚ) ^ ((x.exponent.map Exponent.value).getD 0 - (x.fraction.getD []).length)

def value : ℚ := if x.negative then -x.magnitude else x.magnitude

/-- Digits where digits belong, and at least one of them before the exponent. -/
structure WellFormed : Prop where
  whole : ∀ c ∈ x.whole, c.isDigit = true
  fraction : ∀ f ∈ x.fraction, ∀ c ∈ f, c.isDigit = true
  mantissa : x.whole ≠ [] ∨ x.fraction.getD [] ≠ []
  mark : ∀ e ∈ x.exponent, e.mark = 'e' ∨ e.mark = 'E'
  exponent : ∀ e ∈ x.exponent, e.digits ≠ [] ∧ ∀ c ∈ e.digits, c.isDigit = true

/-- A numeral of JSON: no zero in front, and a digit on both sides of a point. -/
structure Standard : Prop extends WellFormed x where
  whole_ne_nil : x.whole ≠ []
  no_leading_zero : x.whole.head? = some '0' → x.whole = ['0']
  fraction_ne_nil : x.fraction ≠ some []

end Numeral

/-! ### Strings -/

/-- The characters that a backslash stands before, with what they become. -/
def escapes : List (Char × Char) :=
  [('"', '"'), ('\\', '\\'), ('/', '/'), ('b', '\x08'), ('f', '\x0c'), ('n', '\n'), ('r', '\r'),
    ('t', '\t')]

def hexDigit (c : Char) : Option Nat :=
  if c.isDigit then some (c.toNat - '0'.toNat)
  else if 'a' ≤ c ∧ c ≤ 'f' then some (c.toNat - 'a'.toNat + 10)
  else if 'A' ≤ c ∧ c ≤ 'F' then some (c.toNat - 'A'.toNat + 10)
  else none

/-- The number that hexadecimal digits give. -/
def hexNumber (digits : List Char) : Option Nat :=
  digits.foldlM (fun n c => (hexDigit c).map (16 * n + ·)) 0

/-- The bytes of a code point, a character for each. -/
def utf8 (codePoint : Nat) : List Char :=
  (String.utf8EncodeChar (Char.ofNat codePoint)).map fun b => Char.ofNat b.toNat

def IsHigh (n : Nat) : Prop := 0xD800 ≤ n ∧ n ≤ 0xDBFF

def IsLow (n : Nat) : Prop := 0xDC00 ≤ n ∧ n ≤ 0xDFFF

/-- The code point of a surrogate pair. -/
def pairPoint (high low : Nat) : Nat := 0x10000 + (high - 0xD800) * 0x400 + (low - 0xDC00)

/-- A content, and a text between quotes that has it: `plain` are the characters that stand for
themselves, and `code` is what the characters after `\u` give. -/
inductive Literal (plain : Char → Prop) (code : List Char → Nat → Prop) :
    List Char → List Char → Prop
  | nil : Literal plain code [] []
  | plain {c : Char} {s t : List Char} : plain c → Literal plain code s t →
      Literal plain code (c :: s) (c :: t)
  | escape {e c : Char} {s t : List Char} : (e, c) ∈ escapes → Literal plain code s t →
      Literal plain code (c :: s) ('\\' :: e :: t)
  | unicode {h : List Char} {n : Nat} {s t : List Char} : code h n → ¬IsHigh n → ¬IsLow n →
      Literal plain code s t → Literal plain code (utf8 n ++ s) ('\\' :: 'u' :: (h ++ t))
  | pair {h l : List Char} {n m : Nat} {s t : List Char} : code h n → code l m → IsHigh n →
      IsLow m → Literal plain code s t →
      Literal plain code (utf8 (pairPoint n m) ++ s)
        ('\\' :: 'u' :: (h ++ '\\' :: 'u' :: (l ++ t)))

theorem Literal.mono {plain plain' : Char → Prop} {code code' : List Char → Nat → Prop}
    (hplain : ∀ c, plain c → plain' c) (hcode : ∀ h n, code h n → code' h n) {s t : List Char}
    (h : Literal plain code s t) : Literal plain' code' s t := by
  induction h with
  | nil => exact .nil
  | plain hc _ ih => exact .plain (hplain _ hc) ih
  | escape he _ ih => exact .escape he ih
  | unicode hn hhigh hlow _ ih => exact .unicode (hcode _ _ hn) hhigh hlow ih
  | pair hn hm hhigh hlow _ ih => exact .pair (hcode _ _ hn) (hcode _ _ hm) hhigh hlow ih

/-! ### Texts -/

/-- What the texts of a tree are read as. -/
structure Values (α κ : Type) where
  null : α
  bool : Bool → α
  number : ℚ → α
  string : List Char → α
  name : List Char → κ
  array : List α → α
  object : List (κ × α) → α

structure Rules where
  blank : Char → Prop
  numeral : Numeral → Prop
  quoted : List Char → List Char → Prop

def Rules.Blanks (R : Rules) (w : List Char) : Prop := ∀ c ∈ w, R.blank c

def standardPlain (c : Char) : Prop := 0x20 ≤ c.toNat ∧ c ≠ '"' ∧ c ≠ '\\'

def standardCode (h : List Char) (n : Nat) : Prop := h.length = 4 ∧ hexNumber h = some n

/-- The rules of JSON. -/
def standard : Rules where
  blank c := c ∈ [' ', '\t', '\n', '\r']
  numeral := Numeral.Standard
  quoted content s := ∃ t, s = '"' :: (t ++ ['"']) ∧ Literal standardPlain standardCode content t

/-- A value, or what there is of an array or of an object after its opening bracket. -/
inductive Part (α κ : Type)
  | value (v : α)
  | items (vs : List α)
  | members (ms : List (κ × α))

/-- The texts of the parts of a tree, nested at most `n` deep. -/
inductive Text {α κ : Type} (V : Values α κ) (R : Rules) : Nat → Part α κ → List Char → Prop
  | null {n : Nat} : Text V R n (.value V.null) ['n', 'u', 'l', 'l']
  | false {n : Nat} : Text V R n (.value (V.bool false)) ['f', 'a', 'l', 's', 'e']
  | true {n : Nat} : Text V R n (.value (V.bool true)) ['t', 'r', 'u', 'e']
  | number {n : Nat} {x : Numeral} : R.numeral x → Text V R n (.value (V.number x.value)) x.text
  | string {n : Nat} {content s : List Char} : R.quoted content s →
      Text V R n (.value (V.string content)) s
  | array {n : Nat} {vs : List α} {s : List Char} : Text V R n (.items vs) s →
      Text V R (n + 1) (.value (V.array vs)) ('[' :: s)
  | object {n : Nat} {ms : List (κ × α)} {s : List Char} : Text V R n (.members ms) s →
      Text V R (n + 1) (.value (V.object ms)) ('{' :: s)
  | noItems {n : Nat} {w : List Char} : R.Blanks w → Text V R n (.items []) (w ++ [']'])
  | lastItem {n : Nat} {v : α} {w s w' : List Char} : R.Blanks w → Text V R n (.value v) s →
      R.Blanks w' → Text V R n (.items [v]) (w ++ (s ++ (w' ++ [']'])))
  | item {n : Nat} {v : α} {vs : List α} {w s w' t : List Char} : R.Blanks w →
      Text V R n (.value v) s → R.Blanks w' → vs ≠ [] → Text V R n (.items vs) t →
      Text V R n (.items (v :: vs)) (w ++ (s ++ (w' ++ ',' :: t)))
  | noMembers {n : Nat} {w : List Char} : R.Blanks w → Text V R n (.members []) (w ++ ['}'])
  | lastMember {n : Nat} {content : List Char} {v : α} {w₁ k w₂ w₃ s w₄ : List Char} :
      R.Blanks w₁ → R.quoted content k → R.Blanks w₂ → R.Blanks w₃ → Text V R n (.value v) s →
      R.Blanks w₄ → Text V R n (.members [(V.name content, v)])
        (w₁ ++ (k ++ (w₂ ++ ':' :: (w₃ ++ (s ++ (w₄ ++ ['}']))))))
  | member {n : Nat} {content : List Char} {v : α} {ms : List (κ × α)}
      {w₁ k w₂ w₃ s w₄ t : List Char} :
      R.Blanks w₁ → R.quoted content k → R.Blanks w₂ → R.Blanks w₃ → Text V R n (.value v) s →
      R.Blanks w₄ → ms ≠ [] → Text V R n (.members ms) t →
      Text V R n (.members ((V.name content, v) :: ms))
        (w₁ ++ (k ++ (w₂ ++ ':' :: (w₃ ++ (s ++ (w₄ ++ ',' :: t))))))

/-- Every text under the first rules is one under the second. -/
structure Rules.Le (R R' : Rules) : Prop where
  blank : ∀ c, R.blank c → R'.blank c
  numeral : ∀ x, R.numeral x → R'.numeral x
  quoted : ∀ content s, R.quoted content s → R'.quoted content s

section

variable {α κ : Type} {V : Values α κ} {R R' : Rules} {n m : Nat} {part : Part α κ} {s : List Char}

theorem Rules.Le.refl : R.Le R := ⟨fun _ h => h, fun _ h => h, fun _ _ h => h⟩

theorem Rules.Le.blanks (h : R.Le R') {w : List Char} (hw : R.Blanks w) : R'.Blanks w :=
  fun c hc => h.blank c (hw c hc)

/-- Weaker rules and deeper nesting admit more. -/
theorem Text.mono (h : Text V R n part s) (hR : R.Le R') (hn : n ≤ m) : Text V R' m part s := by
  induction h generalizing m with
  | null => exact .null
  | false => exact .false
  | true => exact .true
  | number hx => exact .number (hR.numeral _ hx)
  | string hs => exact .string (hR.quoted _ _ hs)
  | array _ ih =>
    obtain ⟨m, rfl⟩ : ∃ k, m = k + 1 := ⟨m - 1, by omega⟩
    exact .array (ih (by omega))
  | object _ ih =>
    obtain ⟨m, rfl⟩ : ∃ k, m = k + 1 := ⟨m - 1, by omega⟩
    exact .object (ih (by omega))
  | noItems hw => exact .noItems (hR.blanks hw)
  | lastItem hw _ hw' ih => exact .lastItem (hR.blanks hw) (ih hn) (hR.blanks hw')
  | item hw _ hw' hne _ ih ih' => exact .item (hR.blanks hw) (ih hn) (hR.blanks hw') hne (ih' hn)
  | noMembers hw => exact .noMembers (hR.blanks hw)
  | lastMember h₁ hk h₂ h₃ _ h₄ ih =>
    exact .lastMember (hR.blanks h₁) (hR.quoted _ _ hk) (hR.blanks h₂) (hR.blanks h₃) (ih hn)
      (hR.blanks h₄)
  | member h₁ hk h₂ h₃ _ h₄ hne _ ih ih' =>
    exact .member (hR.blanks h₁) (hR.quoted _ _ hk) (hR.blanks h₂) (hR.blanks h₃) (ih hn)
      (hR.blanks h₄) hne (ih' hn)

theorem Rules.Blanks.append {w w' : List Char} (hw : R.Blanks w) (hw' : R.Blanks w') :
    R.Blanks (w ++ w') := by
  intro c hc
  rcases List.mem_append.1 hc with hc | hc
  · exact hw c hc
  · exact hw' c hc

theorem Text.blanks_items {vs : List α} {w : List Char} (hw : R.Blanks w)
    (h : Text V R n (.items vs) s) : Text V R n (.items vs) (w ++ s) := by
  cases h with
  | noItems hw₁ =>
    rw [← List.append_assoc]
    exact .noItems (hw.append hw₁)
  | lastItem hw₁ hv hw₂ =>
    rw [← List.append_assoc]
    exact .lastItem (hw.append hw₁) hv hw₂
  | item hw₁ hv hw₂ hne ht =>
    rw [← List.append_assoc]
    exact .item (hw.append hw₁) hv hw₂ hne ht

theorem Text.blanks_members {ms : List (κ × α)} {w : List Char} (hw : R.Blanks w)
    (h : Text V R n (.members ms) s) : Text V R n (.members ms) (w ++ s) := by
  cases h with
  | noMembers hw₁ =>
    rw [← List.append_assoc]
    exact .noMembers (hw.append hw₁)
  | lastMember hw₁ hk hw₂ hw₃ hv hw₄ =>
    rw [← List.append_assoc]
    exact .lastMember (hw.append hw₁) hk hw₂ hw₃ hv hw₄
  | member hw₁ hk hw₂ hw₃ hv hw₄ hne ht =>
    rw [← List.append_assoc]
    exact .member (hw.append hw₁) hk hw₂ hw₃ hv hw₄ hne ht

end

end JsonText
