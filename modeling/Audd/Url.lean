import Audd.Client

/-! The URL helpers of `audd_url.c`: the tests for an HTTP source and for a host, percent encoding,
and the `return` parameter that is added to a callback URL. -/

namespace Audd

def urlIsHttp (url : CString) : Bool :=
  ("http://" : CString).isPrefixOf url || ("https://" : CString).isPrefixOf url

/-- What follows the first occurrence of `needle`, where `strstr` finds one. -/
def afterFirst (needle : CString) : CString → Option CString
  | [] => if needle = [] then some [] else none
  | c :: rest =>
    if needle.isPrefixOf (c :: rest) then some ((c :: rest).drop needle.length)
    else afterFirst needle rest

def urlHostnameIs (url : Option CString) (host : CString) : Bool :=
  match url.bind (afterFirst "://") with
  | none => false
  | some p =>
    let authority := p.takeWhile (· ∉ ['/', '?', '#'])
    -- user information ends at the first `@`, which counts only before the path
    let p := if '@' ∈ authority then (p.dropWhile (· ≠ '@')).drop 1 else p
    sameIgnoringCase (p.takeWhile (· ∉ [':', '/', '?', '#'])) host

def hexDigit (n : Nat) : Char := ("0123456789ABCDEF" : CString).getD n '0'

def urlEncode (s : CString) : CString :=
  s.flatMap fun c =>
    if c.isAlphanum ∨ c ∈ ['-', '.', '_', '~'] then [c]
    else ['%', hexDigit (c.toNat / 16), hexDigit (c.toNat % 16)]

/-- A parameter named `return` after the first `?`: the scan stops at a parameter that starts a
fragment. -/
def hasReturnParam (rawUrl : CString) : Bool :=
  match rawUrl.dropWhile (· ≠ '?') with
  | [] => false
  | _ :: query =>
    ((query.splitOn '&').takeWhile fun param => param.head? ≠ some '#').any fun param =>
      param.takeWhile (· ≠ '=') = ("return" : CString)

def csv (items : List CString) : CString := [','].intercalate (items.filter (· ≠ []))

def urlAppendReturn (rawUrl : CString) (returnMetadata : Option (List CString)) :
    AllocM (Except AuddError CString) := do
  let metadata := returnMetadata.getD []
  if !metadata.any (· ≠ []) then granted (← AllocM.copy rawUrl)
  else if hasReturnParam rawUrl then pure (.error .invalidArgument)
  else
    match ← AllocM.copy (csv metadata) with
    | none => pure (.error .outOfMemory)
    | some list =>
      match ← AllocM.copy (urlEncode list) with
      | none => pure (.error .outOfMemory)
      | some enc =>
        let sep := if '?' ∈ rawUrl then '&' else '?'
        granted (← AllocM.copy (rawUrl ++ [sep] ++ ("return=" : CString) ++ enc))
where
  granted (copied : Option CString) : AllocM (Except AuddError CString) :=
    match copied with
    | some url => pure (.ok url)
    | none => pure (.error .outOfMemory)

theorem urlAppendReturn_every (rawUrl : CString) (returnMetadata : Option (List CString)) :
    (urlAppendReturn rawUrl returnMetadata).Every fun out =>
      ∀ e, out = .error e → e = .invalidArgument ∨ e = .outOfMemory := by
  unfold urlAppendReturn
  dsimp only
  split
  · simp [urlAppendReturn.granted]
  · split
    · simp
    · simp [urlAppendReturn.granted]

end Audd
