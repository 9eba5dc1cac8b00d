import Audd.Lib.Uri
import Audd.Url

/-! The host of a URL.  The check looks for the first `://` wherever it is, and compares the host
that follows it; what comes before is not looked at. -/

namespace Audd

section

variable {needle s rest : CString}

/-- What follows the first occurrence follows an occurrence. -/
theorem exists_of_afterFirst (h : afterFirst needle s = some rest) :
    ∃ before, s = before ++ needle ++ rest := by
  induction s with
  | nil =>
    unfold afterFirst at h
    split at h
    · rename_i hneedle
      exact ⟨[], by rw [hneedle, ← Option.some.inj h]; rfl⟩
    · cases h
  | cons c s ih =>
    unfold afterFirst at h
    split at h
    · rename_i hstart
      obtain ⟨tail, htail⟩ := List.isPrefixOf_iff_prefix.1 hstart
      refine ⟨[], ?_⟩
      rw [← Option.some.inj h, ← htail, List.drop_left, List.nil_append]
    · obtain ⟨before, hs⟩ := ih h
      exact ⟨c :: before, by rw [hs]; rfl⟩

/-- The first occurrence stays the first when the text goes on. -/
theorem afterFirst_append (h : afterFirst needle s = some rest) (t : CString) :
    afterFirst needle (s ++ t) = some (rest ++ t) := by
  induction s with
  | nil =>
    unfold afterFirst at h
    split at h
    · rename_i hneedle
      rw [hneedle, ← Option.some.inj h]
      cases t <;> simp [afterFirst]
    · cases h
  | cons c s ih =>
    unfold afterFirst at h
    rw [List.cons_append]
    unfold afterFirst
    split at h
    · rename_i hstart
      have hstarts := List.isPrefixOf_iff_prefix.1 hstart
      have hlonger : needle.isPrefixOf (c :: (s ++ t)) = true :=
        List.isPrefixOf_iff_prefix.2 (hstarts.trans (List.prefix_append (c :: s) t))
      rw [if_pos hlonger, ← Option.some.inj h, ← List.cons_append,
        List.drop_append_of_le_length hstarts.length_le]
    · rename_i hstart
      -- an occurrence that the longer text starts with would be one of the text itself
      obtain ⟨before, hs⟩ := exists_of_afterFirst h
      have hlength : needle.length ≤ (c :: s).length := by
        rw [hs, List.length_cons]
        simp only [List.length_append]
        omega
      have hlonger : ¬needle.isPrefixOf (c :: (s ++ t)) = true := by
        rw [List.isPrefixOf_iff_prefix] at hstart ⊢
        intro hstarts
        exact hstart (List.prefix_of_prefix_length_le hstarts
          (List.prefix_append (c :: s) t) hlength)
      rw [if_neg hlonger, ih h]

/-- An occurrence after a text that has none of the needle's first character is the first. -/
theorem afterFirst_of_not_mem {c : Char} {before : CString} (h : c ∉ before)
    (tail rest : CString) :
    afterFirst (c :: tail) (before ++ (c :: tail) ++ rest) = some rest := by
  induction before with
  | nil =>
    rw [List.nil_append, List.cons_append]
    unfold afterFirst
    have hstart : (c :: tail).isPrefixOf (c :: (tail ++ rest)) = true :=
      List.isPrefixOf_iff_prefix.2 (List.prefix_append (c :: tail) rest)
    rw [if_pos hstart, ← List.cons_append, List.drop_left]
  | cons b before ih =>
    rw [List.mem_cons, not_or] at h
    rw [List.cons_append, List.cons_append]
    unfold afterFirst
    rw [if_neg (by simp [List.isPrefixOf, h.1]), ih h.2]

end

/-! ### The check -/

theorem takeWhile_host {b tail : CString} (hb : ∀ c ∈ b, c ∉ ['/', '?', '#'])
    (htail : ∀ c ∈ tail.head?, c ∈ ['/', '?', '#']) :
    (b ++ tail).takeWhile (· ∉ [':', '/', '?', '#']) = b.takeWhile (· ≠ ':') := by
  induction b with
  | nil =>
    cases tail with
    | nil => rfl
    | cons c tail =>
      have hc : c ∈ [':', '/', '?', '#'] := List.mem_cons_of_mem _ (htail c rfl)
      exact List.takeWhile_cons_of_neg (by simpa only [decide_eq_true_eq, not_not] using hc)
  | cons c b ih =>
    have hc := hb c List.mem_cons_self
    rw [List.cons_append, List.takeWhile_cons, List.takeWhile_cons,
      ih fun x hx => hb x (List.mem_cons_of_mem _ hx)]
    by_cases hcolon : c = ':'
    · simp [hcolon]
    · have hkept : c ∉ [':', '/', '?', '#'] := by simpa [hcolon] using hc
      simp only [hkept, hcolon, not_false_eq_true, decide_true, ne_eq, if_true]

/-- The text that is compared is the host of the authority. -/
theorem hostText_eq (p : CString) :
    (if '@' ∈ p.takeWhile (· ∉ ['/', '?', '#']) then (p.dropWhile (· ≠ '@')).drop 1
      else p).takeWhile (· ∉ [':', '/', '?', '#']) = Uri.hostOf (Uri.authorityOf p) := by
  have hjoin := List.takeWhile_append_dropWhile (p := (· ∉ ['/', '?', '#'])) (l := p)
  have hauthority : ∀ c ∈ p.takeWhile (· ∉ ['/', '?', '#']), c ∉ ['/', '?', '#'] :=
    fun c hc => of_decide_eq_true (List.mem_takeWhile_imp (p := (· ∉ ['/', '?', '#'])) hc)
  have htail : ∀ c ∈ (p.dropWhile (· ∉ ['/', '?', '#'])).head?, c ∈ ['/', '?', '#'] := by
    intro c hc
    have hnot := List.head?_dropWhile_not (· ∉ ['/', '?', '#']) p
    rw [Option.mem_def.1 hc] at hnot
    exact not_not.1 (of_decide_eq_false hnot)
  unfold Uri.authorityOf
  generalize p.dropWhile (· ∉ ['/', '?', '#']) = tail at hjoin htail
  generalize p.takeWhile (· ∉ ['/', '?', '#']) = a at hjoin hauthority ⊢
  by_cases hat : '@' ∈ a
  · obtain ⟨user, b, huser, rfl⟩ := Uri.exists_cutAt hat
    have hrest : (p.dropWhile (· ≠ '@')).drop 1 = b ++ tail := by
      rw [← hjoin, List.append_assoc, List.cons_append, Uri.dropWhile_append_cons huser]
      rfl
    have hb : ∀ c ∈ b, c ∉ ['/', '?', '#'] :=
      fun c hc => hauthority c (List.mem_append_right _ (List.mem_cons_of_mem _ hc))
    rw [if_pos hat, hrest, takeWhile_host hb htail, Uri.hostOf, Uri.cutAt_append huser]
    rfl
  · rw [if_neg hat, ← hjoin, takeWhile_host hauthority htail, Uri.hostOf,
      Uri.cutAt_of_not_mem hat]
    rfl

/-- The host name is compared with the host of the text after the first `://`. -/
theorem urlHostnameIs_eq (url host : CString) : urlHostnameIs (some url) host =
    ((afterFirst "://" url).any fun rest =>
      sameIgnoringCase (Uri.hostOf (Uri.authorityOf rest)) host) := by
  rw [urlHostnameIs, Option.bind_some]
  cases afterFirst "://" url with
  | none => rfl
  | some rest => exact congrArg (sameIgnoringCase · host) (hostText_eq rest)

/-- The URL is a scheme, `://`, and a text whose authority has this host. -/
def HostIs (url host : CString) : Prop :=
  ∃ scheme rest : CString, url = scheme ++ ("://" : CString) ++ rest ∧ Uri.IsScheme scheme ∧
    sameIgnoringCase (Uri.hostOf (Uri.authorityOf rest)) host = true

theorem colon_not_mem_scheme {scheme : CString} (h : Uri.IsScheme scheme) : ':' ∉ scheme := by
  intro hcolon
  rcases h.2 ':' hcolon with h | h
  · exact absurd h (by decide)
  · exact absurd h (by decide)

theorem afterFirst_scheme {scheme : CString} (h : Uri.IsScheme scheme) (rest : CString) :
    afterFirst "://" (scheme ++ ("://" : CString) ++ rest) = some rest :=
  afterFirst_of_not_mem (colon_not_mem_scheme h) ['/', '/'] rest

/-- A scheme is all that stands before the first `://`. -/
theorem hostIs_iff {url host before rest : CString}
    (hurl : url = before ++ ("://" : CString) ++ rest)
    (hfirst : afterFirst "://" url = some rest) : HostIs url host ↔
      Uri.IsScheme before ∧ sameIgnoringCase (Uri.hostOf (Uri.authorityOf rest)) host = true := by
  constructor
  · rintro ⟨scheme, rest', hurl', hscheme, hhost⟩
    have hrest := afterFirst_scheme hscheme rest'
    rw [← hurl', hfirst] at hrest
    obtain rfl := Option.some.inj hrest
    rw [hurl, List.append_left_inj, List.append_left_inj] at hurl'
    exact ⟨hurl' ▸ hscheme, hhost⟩
  · rintro ⟨hscheme, hhost⟩
    exact ⟨before, rest, hurl, hscheme, hhost⟩

/-- The check is right about a URL unless its first `://` stands after a text that is no scheme and
before the host that is asked for. -/
theorem urlHostnameIs_meets_iff (url host : CString) :
    (urlHostnameIs (some url) host = true ↔ HostIs url host) ↔
      ∀ before rest : CString, url = before ++ ("://" : CString) ++ rest →
        afterFirst "://" url = some rest → Uri.IsScheme before ∨
          sameIgnoringCase (Uri.hostOf (Uri.authorityOf rest)) host = false := by
  rw [urlHostnameIs_eq]
  rcases hfirst : afterFirst "://" url with _ | rest
  · refine iff_of_true (iff_of_false Bool.false_ne_true ?_) fun _ _ _ h => by cases h
    rintro ⟨scheme, rest, rfl, hscheme, -⟩
    rw [afterFirst_scheme hscheme] at hfirst
    cases hfirst
  · obtain ⟨before, hurl⟩ := exists_of_afterFirst hfirst
    rw [Option.any_some, hostIs_iff hurl hfirst]
    constructor
    · intro hiff before' rest' hurl' hrest
      obtain rfl := Option.some.inj hrest
      rw [hurl, List.append_left_inj, List.append_left_inj] at hurl'
      rw [← hurl', ← Bool.not_eq_true, or_iff_not_imp_right, not_not]
      exact fun hhost => (hiff.1 hhost).1
    · intro hcond
      refine ⟨fun hhost => ⟨?_, hhost⟩, fun h => h.2⟩
      rcases hcond before rest hurl rfl with hscheme | hother
      · exact hscheme
      · exact absurd hhost (by rw [hother]; exact Bool.false_ne_true)

theorem mentionedHost_accepted : urlHostnameIs (some "/r?u=http://lis.tn") "lis.tn" = true ∧
    ¬HostIs "/r?u=http://lis.tn" "lis.tn" := by
  have hurl : ("/r?u=http://lis.tn" : CString) =
      ("/r?u=http" : CString) ++ ("://" : CString) ++ ("lis.tn" : CString) := by decide +kernel
  have hfirst : afterFirst "://" "/r?u=http://lis.tn" = some ("lis.tn" : CString) := by
    decide +kernel
  refine ⟨by decide +kernel, fun h => ?_⟩
  obtain ⟨⟨c, hc, halpha⟩, -⟩ := ((hostIs_iff hurl hfirst).1 h).1
  obtain rfl : '/' = c := Option.some.inj hc
  exact absurd halpha (by decide)

end Audd
