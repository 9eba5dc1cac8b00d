import Mathlib.Data.List.TakeWhile

/-! The parts of a URI.  A fragment starts at the first `#`, a query at the first `?` before it,
and what is left is a scheme, an authority and a path.  A query is a list of parameters, which
carry percent-encoded bytes. -/

namespace Uri

/-! ### Cutting at a delimiter -/

/-- The text before the first `c`, and the text after it where there is one. -/
def cutAt (c : Char) (s : List Char) : List Char × Option (List Char) :=
  (s.takeWhile (· ≠ c), (s.dropWhile (· ≠ c)).tail?)

section

variable {c : Char} {s : List Char}

theorem forall_ne_of_not_mem (h : c ∉ s) : ∀ x ∈ s, decide (x ≠ c) = true :=
  fun _ hx => decide_eq_true fun heq => h (heq ▸ hx)

theorem dropWhile_append_cons (h : c ∉ s) (t : List Char) :
    (s ++ c :: t).dropWhile (· ≠ c) = c :: t := by
  rw [List.dropWhile_append_of_pos (forall_ne_of_not_mem h), List.dropWhile_cons_of_neg (by simp)]

theorem cutAt_of_not_mem (h : c ∉ s) : cutAt c s = (s, none) := by
  have hne := forall_ne_of_not_mem h
  rw [cutAt, List.takeWhile_eq_self_iff.2 hne, List.dropWhile_eq_nil_iff.2 hne]
  rfl

theorem cutAt_append (h : c ∉ s) (t : List Char) : cutAt c (s ++ c :: t) = (s, some t) := by
  rw [cutAt, dropWhile_append_cons h, List.takeWhile_append_of_pos (forall_ne_of_not_mem h),
    List.takeWhile_cons_of_neg (by simp), List.append_nil]
  rfl

theorem exists_cutAt (h : c ∈ s) : ∃ before after, c ∉ before ∧ s = before ++ c :: after := by
  obtain ⟨before, after, hs, hbefore⟩ := List.eq_append_cons_of_mem h
  exact ⟨before, after, hbefore, hs⟩

end

/-! ### The five parts -/

structure Parts where
  scheme : Option (List Char)
  authority : Option (List Char)
  path : List Char
  query : Option (List Char)
  fragment : Option (List Char)
deriving DecidableEq, Repr

/-- A name and a colon before any slash; no name is no scheme. -/
def cutScheme (s : List Char) : Option (List Char) × List Char :=
  match s.dropWhile (· ∉ [':', '/']) with
  | ':' :: rest =>
    let name := s.takeWhile (· ∉ [':', '/'])
    if name = [] then (none, s) else (some name, rest)
  | _ => (none, s)

/-- What two slashes start, up to the next. -/
def cutAuthority (s : List Char) : Option (List Char) × List Char :=
  match s with
  | '/' :: '/' :: rest => (some (rest.takeWhile (· ≠ '/')), rest.dropWhile (· ≠ '/'))
  | _ => (none, s)

def split (s : List Char) : Parts :=
  let (s, fragment) := cutAt '#' s
  let (s, query) := cutAt '?' s
  let (scheme, s) := cutScheme s
  let (authority, path) := cutAuthority s
  ⟨scheme, authority, path, query, fragment⟩

/-! ### Parameters -/

theorem mem_intercalate {sep c : Char} {xs : List (List Char)} (h : c ∈ [sep].intercalate xs) :
    c = sep ∨ ∃ x ∈ xs, c ∈ x := by
  induction xs with
  | nil => cases h
  | cons x xs ih =>
    by_cases hxs : xs = []
    · rw [hxs, List.intercalate_singleton] at h
      exact .inr ⟨x, List.mem_cons_self, h⟩
    · rw [List.intercalate_cons_of_ne_nil hxs, List.mem_append, List.mem_append] at h
      rcases h with (h | h) | h
      · exact .inr ⟨x, List.mem_cons_self, h⟩
      · exact .inl (List.mem_singleton.1 h)
      · exact (ih h).imp_right fun ⟨y, hy, hc⟩ => ⟨y, List.mem_cons_of_mem _ hy, hc⟩

theorem mem_intercalate_of_mem (sep : Char) {c : Char} {xs : List (List Char)} {x : List Char}
    (hx : x ∈ xs) (hc : c ∈ x) : c ∈ [sep].intercalate xs := by
  induction xs with
  | nil => cases hx
  | cons y xs ih =>
    by_cases hxs : xs = []
    · rw [hxs, List.mem_singleton] at hx
      rwa [hxs, List.intercalate_singleton, ← hx]
    · rw [List.intercalate_cons_of_ne_nil hxs, List.mem_append, List.mem_append]
      rcases List.mem_cons.1 hx with rfl | hx
      · exact .inl (.inl hc)
      · exact .inr (ih hx)

theorem mem_of_mem_splitOn {sep c : Char} {s segment : List Char} (h : segment ∈ s.splitOn sep)
    (hc : c ∈ segment) : c ∈ s := by
  have hmem := mem_intercalate_of_mem sep h hc
  rwa [List.intercalate_splitOn] at hmem

def parameters (query : Option (List Char)) : List (List Char) :=
  match query with
  | none => []
  | some query => query.splitOn '&'

def paramName (param : List Char) : List Char := (cutAt '=' param).1

def paramValue (param : List Char) : List Char := (cutAt '=' param).2.getD []

/-- A parameter added to a URI: it starts a query, or follows those of the query. -/
def addParam (s param : List Char) : List Char := s ++ (if '?' ∈ s then '&' else '?') :: param

variable {s param : List Char}

/-- Without a fragment, the added parameter is the last of the query, and nothing else changes. -/
theorem split_addParam (hs : '#' ∉ s) (hparam : '#' ∉ param) :
    split (addParam s param) = { split s with
      query := some (match (split s).query with
        | none => param
        | some query => query ++ '&' :: param) } := by
  have hsep : ∀ c, c = '&' ∨ c = '?' → '#' ∉ s ++ c :: param := by
    rintro c (rfl | rfl) <;> simp [hs, hparam]
  by_cases hquery : '?' ∈ s
  · obtain ⟨before, query, hbefore, rfl⟩ := exists_cutAt hquery
    have hjoin : before ++ '?' :: query ++ '&' :: param =
        before ++ '?' :: (query ++ '&' :: param) := by simp
    have hcut := cutAt_of_not_mem (hsep '&' (.inl rfl))
    rw [hjoin] at hcut
    simp only [addParam, if_pos hquery, hjoin, split, hcut, cutAt_of_not_mem hs,
      cutAt_append hbefore]
  · simp only [addParam, if_neg hquery, split, cutAt_of_not_mem (hsep '?' (.inr rfl)),
      cutAt_of_not_mem hs, cutAt_append hquery, cutAt_of_not_mem hquery]

theorem parameters_addParam (hs : '#' ∉ s) (hparam : '#' ∉ param) (hamp : '&' ∉ param) :
    parameters (split (addParam s param)).query = parameters (split s).query ++ [param] := by
  rw [split_addParam hs hparam]
  cases (split s).query with
  | none => exact List.splitOn_eq_singleton hamp
  | some query =>
    show (query ++ '&' :: param).splitOn '&' = query.splitOn '&' ++ [param]
    rw [List.splitOn_append_cons_self, List.splitOn_eq_singleton hamp]

theorem query_split (hs : '#' ∉ s) : (split s).query = (cutAt '?' s).2 := by
  simp only [split, cutAt_of_not_mem hs]

/-- What is added to a URI with a fragment is part of the fragment. -/
theorem split_fragment_append (hs : '#' ∈ s) (t : List Char) :
    (split (s ++ t)).fragment = (split s).fragment.map (· ++ t) := by
  obtain ⟨before, after, hbefore, rfl⟩ := exists_cutAt hs
  have hjoin : before ++ '#' :: after ++ t = before ++ '#' :: (after ++ t) := by simp
  simp only [split, hjoin, cutAt_append hbefore, Option.map_some]

/-! ### Percent encoding -/

def hexValue (c : Char) : Option Nat := "0123456789ABCDEF".toList.idxOf? c.toUpper

def percentDecode : List Char → List Char
  | [] => []
  | '%' :: high :: low :: rest =>
    match hexValue high, hexValue low with
    | some h, some l => Char.ofNat (16 * h + l) :: percentDecode rest
    | _, _ => '%' :: percentDecode (high :: low :: rest)
  | c :: rest => c :: percentDecode rest

/-- A byte that is not encoded is read as it is. -/
theorem percentDecode_cons {c : Char} (h : c ≠ '%') (rest : List Char) :
    percentDecode (c :: rest) = c :: percentDecode rest := by
  rw [percentDecode]
  rintro _ _ _ rfl
  exact absurd rfl h

/-- An encoded byte is read from its two digits. -/
theorem percentDecode_byte {high low c : Char} (hhigh : hexValue high = some (c.toNat / 16))
    (hlow : hexValue low = some (c.toNat % 16)) (rest : List Char) :
    percentDecode ('%' :: high :: low :: rest) = c :: percentDecode rest := by
  rw [percentDecode, hhigh, hlow]
  simp only [Nat.div_add_mod, Char.ofNat_toNat]

/-! ### Host names -/

/-- A letter, and letters, digits and three signs after it. -/
def IsScheme (s : List Char) : Prop :=
  (∃ c ∈ s.head?, c.isAlpha = true) ∧ ∀ c ∈ s, c.isAlphanum = true ∨ c ∈ ['+', '-', '.']

/-- The authority that a text starts with. -/
def authorityOf (s : List Char) : List Char := s.takeWhile (· ∉ ['/', '?', '#'])

/-- The host of an authority: what follows its first `@`, or all of it, up to a colon. -/
def hostOf (authority : List Char) : List Char :=
  let (user, host) := cutAt '@' authority
  (host.getD user).takeWhile (· ≠ ':')

/-- Where an authority ends within a text, what follows the text does not change it. -/
theorem authorityOf_append {s t : List Char} (h : (∃ c ∈ s, c ∈ ['/', '?', '#']) ∨
    ∀ c ∈ t.head?, c ∈ ['/', '?', '#']) : authorityOf (s ++ t) = authorityOf s := by
  unfold authorityOf
  by_cases hall : ∀ c ∈ s, decide (c ∉ ['/', '?', '#']) = true
  · have ht : ∀ c ∈ t.head?, c ∈ ['/', '?', '#'] := by
      rcases h with ⟨c, hc, hmem⟩ | h
      · exact absurd hmem (of_decide_eq_true (hall c hc))
      · exact h
    rw [List.takeWhile_append_of_pos hall, List.takeWhile_eq_self_iff.2 hall]
    cases t with
    | nil => simp
    | cons c t =>
      have hc := ht c rfl
      rw [List.takeWhile_cons_of_neg (by simpa [← or_iff_not_imp_left] using hc), List.append_nil]
  · have hlength : (s.takeWhile (· ∉ ['/', '?', '#'])).length ≠ s.length := by
      intro hlength
      have hself := (List.takeWhile_prefix (p := (· ∉ ['/', '?', '#'])) (l := s)).eq_of_length
        hlength
      exact hall (List.takeWhile_eq_self_iff.1 hself)
    rw [List.takeWhile_append, if_neg hlength]

end Uri
