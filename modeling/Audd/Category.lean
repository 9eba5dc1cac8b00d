import Audd.Client
import Audd.Md5

/-! The category of a stream's longpoll channel: the first nine digits of the MD5 of the token's MD5
and the radio id. -/

namespace Audd

def strBytes (s : CString) : List Md5.Byte := s.map fun c => BitVec.ofNat 8 c.toNat

-- `sizeof(concat)`.
def concatSize : Nat := 64

section

variable (fuel : Nat) (stale stale' : Vector Md5.Byte 64)

/-- `audd_derive_longpoll_category`: the status, and what it writes, with the NUL. -/
def deriveLongpollCategory (apiToken : Option CString) (radioId : Int) (outCategory : Bool) :
    Option (AuddError × Option CString) :=
  match apiToken, outCategory with
  | some apiToken, true => do
    let inner ← md5Hex fuel stale (strBytes apiToken)
    let concat := inner ++ decimal radioId
    if concat.length ≥ concatSize then some (.invalidArgument, none)
    else do
      let outer ← md5Hex fuel stale' (strBytes concat)
      some (.ok, some (outer.take 9 ++ ['\x00']))
  | _, _ => some (.invalidArgument, none)

def streamsDeriveLongpollCategory (client : Option Client) (radioId : Int) (outCategory : Bool) :
    AllocM (Option (AuddError × Option CString)) :=
  match client with
  | none => pure (some (.invalidArgument, none))
  | some client => do
    match ← client.copyApiToken with
    | none => pure (some (.authentication, none))
    | some token =>
      pure (deriveLongpollCategory fuel stale stale' (some token) radioId outCategory)

end

/-- The digits that the category is made from. -/
def categoryKey (token : CString) (radioId : Int) : CString :=
  Md5.hex (Md5.hash (strBytes token)) ++ decimal radioId

theorem length_categoryKey (token : CString) {radioId : Int} (h : InRange 32 radioId) :
    (categoryKey token radioId).length ≤ 43 := by
  have hdecimal : (decimal radioId).length ≤ 11 := by
    obtain ⟨hlow, hhigh⟩ := h
    exact length_decimal (k := 10) (by omega) (by omega)
  rw [categoryKey, List.length_append, Md5.length_hex, Md5.length_hash]
  omega

/-- Every token of fewer than `2 ^ 32` bytes and every `int` have their category, and the digits it
is made from stay within their buffer. -/
theorem deriveLongpollCategory_eq (stale stale' : Vector Md5.Byte 64) {token : CString}
    {radioId : Int} (htoken : token.length < 2 ^ 32) (hradioId : InRange 32 radioId) {fuel : Nat}
    (hfuel : token.length / 64 + 1 < fuel) :
    deriveLongpollCategory fuel stale stale' (some token) radioId true =
        some (.ok, some ((Md5.hex (Md5.hash (strBytes (categoryKey token radioId)))).take 9 ++
          ['\x00'])) ∧
      (categoryKey token radioId).length < concatSize := by
  have hkey := length_categoryKey token hradioId
  have hbytes (s : CString) : (strBytes s).length = s.length := List.length_map _
  have hinner : md5Hex fuel stale (strBytes token) = some (Md5.hex (Md5.hash (strBytes token))) :=
    md5Hex_eq stale (by rwa [hbytes]) (by rwa [hbytes])
  have houter : md5Hex fuel stale' (strBytes (categoryKey token radioId)) =
      some (Md5.hex (Md5.hash (strBytes (categoryKey token radioId)))) :=
    md5Hex_eq stale' (by rw [hbytes]; omega) (by rw [hbytes]; omega)
  have hfits : (categoryKey token radioId).length < concatSize :=
    Nat.lt_of_le_of_lt hkey (by decide)
  refine ⟨?_, hfits⟩
  unfold categoryKey at hfits houter ⊢
  simp only [deriveLongpollCategory, hinner, Option.bind_eq_bind, Option.bind_some,
    if_neg (Nat.not_le.2 hfits), houter]

def zeroed : Vector Md5.Byte 64 := Vector.replicate 64 0

theorem deriveLongpollCategory_seven :
    deriveLongpollCategory 2 zeroed zeroed (some "test") 7 true =
        some (.ok,
          some ((Md5.hex (Md5.hash (strBytes (categoryKey "test" 7)))).take 9 ++ ['\x00'])) ∧
      (categoryKey "test" 7).length < concatSize :=
  deriveLongpollCategory_eq zeroed zeroed (by decide) (by decide) (by decide)

end Audd
