import Audd.CLib

/-! Double arithmetic, and `strtod` on arbitrary text.  A result that may be a NaN is an
`Option CDouble`, with `none` for the NaN. -/

namespace Audd

namespace CDouble

def le : CDouble → CDouble → Bool
  | finite a, finite b => decide (a ≤ b)
  | infinite negative, finite _ => negative
  | finite _, infinite negative => !negative
  | infinite a, infinite b => a || !b

def add (p : Platform) : CDouble → CDouble → Option CDouble
  | finite a, finite b => some (p.round (a + b))
  | infinite negative, finite _ | finite _, infinite negative => some (infinite negative)
  | infinite a, infinite b => if a = b then some (infinite a) else none

/-- A product with a positive constant. -/
def scale (p : Platform) (c : ℚ) : CDouble → CDouble
  | finite a => p.round (a * c)
  | infinite negative => infinite negative

end CDouble

/-- A sum in which a NaN prevails. -/
def addDouble (p : Platform) (a b : Option CDouble) : Option CDouble := do
  CDouble.add p (← a) (← b)

/-- `d >= 0.0`, which no NaN meets. -/
def atLeastZero (d : Option CDouble) : Bool := d.any (CDouble.le (.finite 0))

/-- `d < 0.0`, which no NaN meets either. -/
def belowZero (d : Option CDouble) : Bool := d.any fun d => !CDouble.le (.finite 0) d

/-! ### Reading -/

def hexDigitValue (c : Char) : Option Nat :=
  if c.isDigit then some (c.toNat - '0'.toNat)
  else if 'a' ≤ c ∧ c ≤ 'f' then some (c.toNat - 'a'.toNat + 10)
  else if 'A' ≤ c ∧ c ≤ 'F' then some (c.toNat - 'A'.toNat + 10)
  else none

def isHexDigit (c : Char) : Bool := (hexDigitValue c).isSome

def hexValue (digits : CString) : Nat :=
  digits.foldl (fun n c => 16 * n + (hexDigitValue c).getD 0) 0

/-- An exponent after one of the two letters `marks`; the text stays where none follows. -/
def readMarkedExponent (marks : List Char) (s : CString) : Int × CString :=
  match s with
  | mark :: rest =>
    let (negative, rest) := readSign rest
    let digits := rest.takeWhile Char.isDigit
    if mark ∉ marks ∨ digits = [] then (0, s)
    else (if negative then -(digitsValue digits) else digitsValue digits,
      rest.dropWhile Char.isDigit)
  | [] => (0, s)

/-- Digits with a point before, among or after them: those before it, those after it, the rest. -/
def readDigits (isDigit : Char → Bool) (s : CString) : CString × CString × CString :=
  let whole := s.takeWhile isDigit
  match s.dropWhile isDigit with
  | '.' :: after => (whole, after.takeWhile isDigit, after.dropWhile isDigit)
  | rest => (whole, [], rest)

def readDecimal (s : CString) : Option (ℚ × CString) :=
  let (whole, fractional, rest) := readDigits Char.isDigit s
  if whole = [] ∧ fractional = [] then none
  else
    let (e, rest) := readMarkedExponent ['e', 'E'] rest
    some (digitsValue (whole ++ fractional) * (10 : ℚ) ^ (e - fractional.length), rest)

/-- What follows `0x`. -/
def readHex (s : CString) : Option (ℚ × CString) :=
  let (whole, fractional, rest) := readDigits isHexDigit s
  if whole = [] ∧ fractional = [] then none
  else
    let (e, rest) := readMarkedExponent ['p', 'P'] rest
    some (hexValue (whole ++ fractional) * (2 : ℚ) ^ (e - 4 * fractional.length), rest)

/-- The rest after `nan`: a parenthesised name belongs to the number. -/
def dropNanName (s : CString) : CString :=
  match s with
  | '(' :: rest =>
    match rest.dropWhile fun c => c.isAlphanum || c == '_' with
    | ')' :: after => after
    | _ => s
  | _ => s

/-- `strtod(s, &end)` on any text: the value, and what `end` points at.  `none` when no number is
found, which leaves `end` at `s`. -/
def strtodText (p : Platform) (s : CString) : Option (Option CDouble × CString) :=
  let (negative, rest) := readSign (s.dropWhile isspace)
  if lower (rest.take 8) = ("infinity" : String) then some (some (.infinite negative), rest.drop 8)
  else if lower (rest.take 3) = ("inf" : String) then some (some (.infinite negative), rest.drop 3)
  else if lower (rest.take 3) = ("nan" : String) then some (none, dropNanName (rest.drop 3))
  else
    let hex := if lower (rest.take 2) = ("0x" : String) then readHex (rest.drop 2) else none
    (hex.or (readDecimal rest)).map fun (magnitude, rest) =>
      (some (p.round (if negative then -magnitude else magnitude)), rest)

end Audd
