import Audd.Double
import Audd.Json

/-! `cJSON_ParseWithLength`.  The buffer at an offset is what is left of the text from there on, so
moving the offset drops characters.  A string is first scanned up to the quote that ends it, and
then decoded. -/

namespace Audd

def kNestingLimit : Nat := 1000

/-! ### Blanks -/

def isBlankByte (c : Char) : Bool := c.toNat ≤ 32

/-- `buffer_skip_whitespace`.  When nothing else is left it steps back to the last blank. -/
def bufferSkipWhitespace (s : CString) : CString :=
  match s.dropWhile isBlankByte with
  | [] => s.drop (s.length - 1)
  | rest => rest

def skipUtf8Bom (s : CString) : CString :=
  if 4 < s.length ∧ s.take 3 = ['\xef', '\xbb', '\xbf'] then s.drop 3 else s

/-! ### Numbers -/

def isNumberChar (c : Char) : Bool := c.isDigit || c ∈ ['+', '-', 'e', 'E', '.']

/-- `parse_number`: `strtod` on a copy of at most 63 characters.  They are none that a NaN has. -/
def parseNumber (p : Platform) (s : CString) : Option (CDouble × CString) :=
  let text := (s.take 63).takeWhile isNumberChar
  match strtodText p text with
  | some (some number, afterEnd) => some (number, s.drop (text.length - afterEnd.length))
  | _ => none

/-! ### Strings -/

/-- `parse_hex4`, which gives 0 for digits that are none. -/
def parseHex4 (input : CString) : Nat :=
  ((input.take 4).foldlM (fun h c => (hexDigitValue c).map (16 * h + ·)) 0).getD 0

/-- The loop of `utf16_literal_to_utf8` that writes the bytes after the first: the bytes, and what
is left of the code point for the first one. -/
def utf8Rest : Nat → Nat → CString → Nat × CString
  | 0, codepoint, written => (codepoint, written)
  | n + 1, codepoint, written =>
    utf8Rest n (codepoint >>> 6) (Char.ofNat ((codepoint ||| 0x80) &&& 0xBF) :: written)

def utf8Encode (codepoint : Nat) : Option CString :=
  if codepoint < 0x80 then some [Char.ofNat (codepoint &&& 0x7F)]
  else
    let encode (utf8Length firstByteMark : Nat) : CString :=
      let (codepoint, written) := utf8Rest (utf8Length - 1) codepoint []
      Char.ofNat ((codepoint ||| firstByteMark) &&& 0xFF) :: written
    if codepoint < 0x800 then some (encode 2 0xC0)
    else if codepoint < 0x10000 then some (encode 3 0xE0)
    else if codepoint ≤ 0x10FFFF then some (encode 4 0xF0)
    else none

/-- `utf16_literal_to_utf8` at a backslash: the bytes, and the length of the sequence. -/
def utf16LiteralToUtf8 (input : CString) : Option (CString × Nat) :=
  if input.length < 6 then none
  else
    let firstCode := parseHex4 (input.drop 2)
    if 0xDC00 ≤ firstCode ∧ firstCode ≤ 0xDFFF then none
    else if 0xD800 ≤ firstCode ∧ firstCode ≤ 0xDBFF then
      let second := input.drop 6
      if second.length < 6 then none
      else if second.take 2 ≠ ['\\', 'u'] then none
      else
        let secondCode := parseHex4 (second.drop 2)
        if secondCode < 0xDC00 ∨ secondCode > 0xDFFF then none
        else
          (utf8Encode (0x10000 + (((firstCode &&& 0x3FF) <<< 10) ||| (secondCode &&& 0x3FF)))).map
            (·, 12)
    else (utf8Encode firstCode).map (·, 6)

/-- The first loop of `parse_string`, after the opening quote: the text up to the closing one, and
what follows that. -/
def scanString : CString → Option (CString × CString)
  | [] => none
  | '"' :: rest => some ([], rest)
  | '\\' :: [] => none
  | '\\' :: c :: rest => (scanString rest).map fun (text, rest) => ('\\' :: c :: text, rest)
  | c :: rest => (scanString rest).map fun (text, rest) => (c :: text, rest)

def unescape (c : Char) : Option Char :=
  match c with
  | 'b' => some '\x08'
  | 'f' => some '\x0c'
  | 'n' => some '\n'
  | 'r' => some '\r'
  | 't' => some '\t'
  | '"' | '\\' | '/' => some c
  | _ => none

/-- The second loop, over the text that was scanned.  The number counts the characters of an escape
sequence that the input pointer is still to pass. -/
def decodeString : Nat → CString → Option CString
  | _, [] => some []
  | skip + 1, _ :: rest => decodeString skip rest
  | 0, '\\' :: rest =>
    match rest.head? with
    | none => none
    | some 'u' => do
      let (bytes, sequenceLength) ← utf16LiteralToUtf8 ('\\' :: rest)
      pure (bytes ++ (← decodeString (sequenceLength - 1) rest))
    | some c => do pure ((← unescape c) :: (← decodeString 1 rest))
  | 0, c :: rest => do pure (c :: (← decodeString 0 rest))

/-- A C string ends at its first NUL. -/
def upToNul (s : CString) : CString := s.takeWhile (· ≠ '\x00')

/-- `parse_string`. -/
def parseString (s : CString) : AllocM (Option (CString × CString)) :=
  match s with
  | '"' :: rest =>
    match scanString rest with
    | none => pure none
    | some (text, rest) => do
      match ← AllocM.copy () with
      | none => pure none
      | some _ => pure ((decodeString 0 text).map fun output => (upToNul output, rest))
  | _ => pure none

/-! ### Values -/

section

variable (p : Platform)

mutual

/-- `parse_value`.  A value and its list take two units of fuel for a character at least, so that
twice the length of the text, and two, are never used up. -/
def parseValue : Nat → Nat → CString → AllocM (Option (CJson × CString))
  | 0, _, _ => pure none
  | fuel + 1, depth, s =>
    if s.take 4 = "null" then pure (some (.null, s.drop 4))
    else if s.take 5 = "false" then pure (some (.bool false, s.drop 5))
    else if s.take 4 = "true" then pure (some (.bool true, s.drop 4))
    else
      match s with
      | [] => pure none
      | c :: rest =>
        if c = '"' then do
          pure ((← parseString s).map fun (text, rest) => (.string text, rest))
        else if c = '-' ∨ c.isDigit then
          pure ((parseNumber p s).map fun (number, rest) => (.number number, rest))
        else if c = '[' then
          -- `parse_array`
          if depth ≥ kNestingLimit then pure none
          else
            let inner := bufferSkipWhitespace rest
            match inner with
            | [] => pure none
            | ']' :: rest => pure (some (.array [], rest))
            | _ => do
              pure ((← parseItems fuel (depth + 1) inner).map fun (items, rest) =>
                (.array items, rest))
        else if c = '{' then
          -- `parse_object`
          if depth ≥ kNestingLimit then pure none
          else
            let inner := bufferSkipWhitespace rest
            match inner with
            | [] => pure none
            | '}' :: rest => pure (some (.object [], rest))
            | _ => do
              pure ((← parseMembers fuel (depth + 1) inner).map fun (members, rest) =>
                (.object members, rest))
        else pure none

/-- The loop of `parse_array`, from behind the bracket or a comma on. -/
def parseItems : Nat → Nat → CString → AllocM (Option (List CJson × CString))
  | 0, _, _ => pure none
  | fuel + 1, depth, s => do
    match ← AllocM.copy () with
    | none => pure none
    | some _ =>
      match ← parseValue fuel depth (bufferSkipWhitespace s) with
      | none => pure none
      | some (item, rest) =>
        match bufferSkipWhitespace rest with
        | ',' :: rest => do
          pure ((← parseItems fuel depth rest).map fun (items, rest) => (item :: items, rest))
        | ']' :: rest => pure (some ([item], rest))
        | _ => pure none

/-- The loop of `parse_object`, likewise. -/
def parseMembers : Nat → Nat → CString → AllocM (Option (List (CString × CJson) × CString))
  | 0, _, _ => pure none
  | fuel + 1, depth, s => do
    match ← AllocM.copy () with
    | none => pure none
    | some _ =>
      if s = [] then pure none
      else
        match ← parseString (bufferSkipWhitespace s) with
        | none => pure none
        | some (name, rest) =>
          match bufferSkipWhitespace rest with
          | ':' :: rest =>
            match ← parseValue fuel depth (bufferSkipWhitespace rest) with
            | none => pure none
            | some (item, rest) =>
              match bufferSkipWhitespace rest with
              | ',' :: rest => do
                pure ((← parseMembers fuel depth rest).map fun (members, rest) =>
                  ((name, item) :: members, rest))
              | '}' :: rest => pure (some ([(name, item)], rest))
              | _ => pure none
          | _ => pure none

end

/-- `cJSON_ParseWithLength`: what follows the value does not matter. -/
def parseWithLength (value : CString) : AllocM (Option CJson) :=
  if value = [] then pure none
  else do
    match ← AllocM.copy () with
    | none => pure none
    | some _ =>
      pure ((← parseValue p (2 * value.length + 2) 0
        (bufferSkipWhitespace (skipUtf8Bom value))).map Prod.fst)

end

end Audd
