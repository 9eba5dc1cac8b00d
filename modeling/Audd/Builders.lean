import Audd.Lib.Stores
import Audd.Http
import Audd.Recognize
import Audd.Url

/-! The strings that are built in two passes: one loop adds up the size to allocate, in `size_t`,
and another fills the memory.  Each builder is given down to its stores, which all fall inside what
it allocated, and the text that they make is the one that the functions of the model return. -/

namespace Audd

open Stores (Builder)

/-- Memory that was allocated and then stored to. -/
structure Filled where
  allocated : Nat
  stores : List (Nat × Char)

namespace Filled

/-- No store is past the allocation, and there are no more stores than it has bytes. -/
structure Within (f : Filled) : Prop where
  index : ∀ store ∈ f.stores, store.1 < f.allocated
  count : f.stores.length ≤ f.allocated

/-- Whatever the memory held, it holds the text and its NUL afterwards. -/
def Holds (f : Filled) (text : CString) : Prop :=
  ∀ stale : List Char, stale.length = f.allocated →
    Stores.apply stale f.stores = text ++ ['\x00'] ++ stale.drop (text.length + 1)

theorem Within.of_consecutive {f : Filled} {values : List Char}
    (hstores : f.stores = Stores.consecutive 0 values) (hroom : values.length ≤ f.allocated) :
    f.Within where
  index := by
    intro store hstore
    rw [hstores] at hstore
    have := (Stores.consecutive_index hstore).2
    omega
  count := by
    rw [hstores, Stores.consecutive_length]
    exact hroom

theorem Holds.of_consecutive {f : Filled} {text : CString}
    (hstores : f.stores = Stores.consecutive 0 (text ++ ['\x00']))
    (hroom : text.length + 1 ≤ f.allocated) : f.Holds text := by
  intro stale hstale
  have hlength : (text ++ ['\x00']).length = text.length + 1 := List.length_append
  rw [hstores, Stores.apply_consecutive (by omega), hlength, Nat.zero_add, List.take_zero,
    List.nil_append]

end Filled

/-- Addition of `size_t`. -/
def sizeAdd (m n : Nat) : Nat := (m + n) % 2 ^ 64

theorem sizeAdd_eq {m n : Nat} (h : m + n < 2 ^ 64) : sizeAdd m n = m + n := Nat.mod_eq_of_lt h

/-! ### Comma-separated lists -/

structure CsvSize where
  total : Nat
  count : Nat

/-- The first loop, over the array up to its NULL. -/
def csvSize : List CString → CsvSize → CsvSize
  | [], size => size
  | item :: rest, size =>
    if item = [] then csvSize rest size
    else csvSize rest ⟨sizeAdd size.total (sizeAdd item.length 1), sizeAdd size.count 1⟩

/-- The second loop. -/
def csvFill : List CString → Bool → Builder Char → Builder Char
  | [], _, out => out
  | item :: rest, first, out =>
    if item = [] then csvFill rest first out
    else
      let out := if !first then out.put ',' else out
      csvFill rest false (out.copy item)

def csvFilled (items : List CString) : Filled :=
  ⟨(csvSize items ⟨0, 0⟩).total, ((csvFill items true .empty).terminate '\x00').stores⟩

/-- `join_csv`, where its memory is granted. -/
def joinCsvFilled : Option (List CString) → Option Filled
  | none | some [] => none
  | some items => if (csvSize items ⟨0, 0⟩).count = 0 then none else some (csvFilled items)

/-- The CSV value of `audd_url_append_return`, where the function gets to build one. -/
def urlAppendReturnFilled (rawUrl : CString) (returnMetadata : Option (List CString)) :
    Option Filled :=
  let metadata := returnMetadata.getD []
  if !metadata.any (· ≠ []) then none
  else if hasReturnParam rawUrl then none
  else
    let size := csvSize metadata ⟨0, 0⟩
    if size.count = 0 ∨ size.total = 0 then none else some (csvFilled metadata)

/-- The entries with a byte for the comma or the NUL after each. -/
def csvRoom (items : List CString) : Nat :=
  ((items.filter (· ≠ [])).map fun item => item.length + 1).sum

theorem csvRoom_cons (item : CString) (rest : List CString) :
    csvRoom (item :: rest) = (if item = [] then 0 else item.length + 1) + csvRoom rest := by
  by_cases hitem : item = []
  · simp [csvRoom, hitem]
  · simp [csvRoom, hitem]

/-- The first loop does not wrap where the sum is a `size_t`. -/
theorem csvSize_eq {items : List CString} {total count : Nat} (hcount : count ≤ total)
    (h : total + csvRoom items < 2 ^ 64) :
    csvSize items ⟨total, count⟩ =
      ⟨total + csvRoom items, count + (items.filter (· ≠ [])).length⟩ := by
  induction items generalizing total count with
  | nil => rfl
  | cons item rest ih =>
    rw [csvRoom_cons] at h ⊢
    by_cases hitem : item = []
    · rw [if_pos hitem, Nat.zero_add] at h ⊢
      rw [csvSize, if_pos hitem, ih hcount h]
      simp [hitem]
    · rw [if_neg hitem] at h ⊢
      have hone : sizeAdd item.length 1 = item.length + 1 := sizeAdd_eq (by omega)
      have htotal : sizeAdd total (item.length + 1) = total + (item.length + 1) :=
        sizeAdd_eq (by omega)
      have hnext : sizeAdd count 1 = count + 1 := sizeAdd_eq (by omega)
      rw [csvSize, if_neg hitem, hone, htotal, hnext, ih (by omega) (by omega),
        List.filter_cons_of_pos (by simpa using hitem), List.length_cons]
      congr 1 <;> omega

/-- What the second loop writes: a comma before every entry but the first. -/
def csvText : List CString → Bool → CString
  | [], _ => []
  | item :: rest, first =>
    if item = [] then csvText rest first
    else (if first then [] else [',']) ++ item ++ csvText rest false

theorem csvFill_wrote (items : List CString) (first : Bool) {out : Builder Char} {text : CString}
    (h : out.Wrote text) : (csvFill items first out).Wrote (text ++ csvText items first) := by
  induction items generalizing first out text with
  | nil => simpa [csvFill, csvText] using h
  | cons item rest ih =>
    rw [csvFill, csvText]
    by_cases hitem : item = []
    · rw [if_pos hitem, if_pos hitem]
      exact ih first h
    · rw [if_neg hitem, if_neg hitem]
      cases first with
      | true =>
        have hrest := ih false (h.copy item)
        simpa using hrest
      | false =>
        have hrest := ih false ((h.put ',').copy item)
        simpa using hrest

theorem csvText_false (items : List CString) :
    csvText items false = (items.filter (· ≠ [])).flatMap (',' :: ·) := by
  induction items with
  | nil => rfl
  | cons item rest ih =>
    rw [csvText]
    by_cases hitem : item = []
    · simpa [hitem] using ih
    · simp [hitem, ih]

theorem intercalate_cons (sep x : CString) (xs : List CString) :
    sep.intercalate (x :: xs) = x ++ xs.flatMap (sep ++ ·) := by
  induction xs generalizing x with
  | nil => simp [List.intercalate]
  | cons y ys ih =>
    rw [List.flatMap_cons, List.append_assoc, ← ih]
    simp [List.intercalate, List.intersperse]

/-- The text is the comma-join. -/
theorem csvText_true (items : List CString) : csvText items true = csv items := by
  induction items with
  | nil => rfl
  | cons item rest ih =>
    rw [csvText, csv]
    by_cases hitem : item = []
    · simpa [hitem, csv] using ih
    · rw [if_neg hitem, csvText_false, List.filter_cons_of_pos (by simpa using hitem),
        intercalate_cons]
      rfl

theorem length_csvText_false (items : List CString) :
    (csvText items false).length = csvRoom items := by
  induction items with
  | nil => rfl
  | cons item rest ih =>
    rw [csvText, csvRoom_cons]
    by_cases hitem : item = []
    · rw [if_pos hitem, if_pos hitem, ih, Nat.zero_add]
    · rw [if_neg hitem, if_neg hitem, List.length_append, List.length_append, ih]
      simp only [Bool.false_eq_true, if_false, List.length_cons, List.length_nil]
      omega

/-- The two passes agree to the byte: the separators and the NUL are one for each entry. -/
theorem length_csv {items : List CString} (h : items.filter (· ≠ []) ≠ []) :
    (csv items).length + 1 = csvRoom items := by
  rw [← csvText_true]
  induction items with
  | nil => exact absurd rfl h
  | cons item rest ih =>
    rw [csvText, csvRoom_cons]
    by_cases hitem : item = []
    · rw [if_pos hitem, if_pos hitem, Nat.zero_add]
      exact ih (by simpa [hitem] using h)
    · rw [if_neg hitem, if_neg hitem, List.length_append, List.length_append,
        length_csvText_false]
      simp only [if_true, List.length_nil]
      omega

theorem csvFilled_exact {items : List CString} (hitems : items.filter (· ≠ []) ≠ [])
    (h : csvRoom items < 2 ^ 64) :
    (csvFilled items).allocated = (csv items).length + 1 ∧
      (csvFilled items).Within ∧ (csvFilled items).Holds (csv items) := by
  have hallocated : (csvFilled items).allocated = (csv items).length + 1 := by
    show (csvSize items ⟨0, 0⟩).total = _
    rw [csvSize_eq (Nat.le_refl 0) (by rwa [Nat.zero_add]), length_csv hitems]
    exact Nat.zero_add _
  have hstores : (csvFilled items).stores = Stores.consecutive 0 (csv items ++ ['\x00']) := by
    have hwrote := csvFill_wrote items true Builder.empty_wrote
    rw [List.nil_append, csvText_true] at hwrote
    exact hwrote.terminate '\x00'
  exact ⟨hallocated, .of_consecutive hstores (by simp [hallocated]),
    .of_consecutive hstores (by omega)⟩

theorem any_iff_filter (items : List CString) :
    items.any (· ≠ []) = true ↔ items.filter (· ≠ []) ≠ [] := by
  simp [List.filter_eq_nil_iff]

theorem csvSize_count_iff {items : List CString} (h : csvRoom items < 2 ^ 64) :
    (csvSize items ⟨0, 0⟩).count = 0 ↔ items.filter (· ≠ []) = [] := by
  rw [csvSize_eq (Nat.le_refl 0) (by rwa [Nat.zero_add])]
  show 0 + (items.filter (· ≠ [])).length = 0 ↔ _
  rw [Nat.zero_add, List.length_eq_zero_iff]

theorem joinCsvFilled_cons (item : CString) (rest : List CString) :
    joinCsvFilled (some (item :: rest)) =
      if (csvSize (item :: rest) ⟨0, 0⟩).count = 0 then none
      else some (csvFilled (item :: rest)) := rfl

/-- `join_csv` is what the model's `joinCsv` asks one allocation for. -/
theorem joinCsv_filled (items : Option (List CString)) (h : csvRoom (items.getD []) < 2 ^ 64) :
    joinCsv items =
      if (joinCsvFilled items).isSome then AllocM.copy (csv (items.getD [])) else pure none := by
  match items, h with
  | none, _ => rfl
  | some [], _ => rfl
  | some (item :: rest), h =>
    rw [Option.getD_some] at h
    have hany := any_iff_filter (item :: rest)
    have hcount := csvSize_count_iff h
    rw [joinCsv, joinCsvFilled_cons, Option.getD_some]
    by_cases hnone : (item :: rest).filter (· ≠ []) = []
    · rw [if_neg (by rw [hany]; exact not_not_intro hnone), if_pos (hcount.mpr hnone)]
      rfl
    · rw [if_pos (hany.mpr hnone), if_neg (mt hcount.mp hnone)]
      rfl

theorem joinCsvFilled_isSome_iff {items : Option (List CString)}
    (hroom : csvRoom (items.getD []) < 2 ^ 64) :
    (joinCsvFilled items).isSome = true ↔ ∃ item ∈ items.getD [], item ≠ [] := by
  match items, hroom with
  | none, _ => simp [joinCsvFilled]
  | some [], _ => simp [joinCsvFilled]
  | some (item :: rest), hroom =>
    have hcount := csvSize_count_iff hroom
    rw [joinCsvFilled_cons]
    simp only [Option.getD_some] at hcount ⊢
    by_cases hnone : (item :: rest).filter (· ≠ []) = []
    · rw [if_pos (hcount.mpr hnone)]
      rw [List.filter_eq_nil_iff] at hnone
      exact iff_of_false (by simp) fun ⟨item, hitem, hne⟩ => hnone item hitem (by simpa using hne)
    · rw [if_neg (mt hcount.mp hnone)]
      obtain ⟨item, hitem⟩ := List.exists_mem_of_ne_nil _ hnone
      obtain ⟨hitem, hne⟩ := List.mem_filter.1 hitem
      exact iff_of_true rfl ⟨item, hitem, by simpa using hne⟩

theorem urlAppendReturnFilled_isSome_iff {rawUrl : CString} {metadata : Option (List CString)}
    (hroom : csvRoom (metadata.getD []) < 2 ^ 64) :
    (urlAppendReturnFilled rawUrl metadata).isSome = true ↔
      (∃ item ∈ metadata.getD [], item ≠ []) ∧ hasReturnParam rawUrl = false := by
  have hany : (metadata.getD []).any (· ≠ []) = true ↔ ∃ item ∈ metadata.getD [], item ≠ [] := by
    simp
  unfold urlAppendReturnFilled
  dsimp only
  by_cases hitems : (metadata.getD []).any (· ≠ []) = true
  · have hcount := mt (csvSize_count_iff hroom).mp ((any_iff_filter _).mp hitems)
    have htotal : (csvSize (metadata.getD []) ⟨0, 0⟩).total ≠ 0 := by
      rw [show (csvSize (metadata.getD []) ⟨0, 0⟩).total = _ from
        (csvFilled_exact ((any_iff_filter _).mp hitems) hroom).1]
      exact Nat.succ_ne_zero _
    rw [← hany, hitems]
    cases hasReturnParam rawUrl <;> simp [hcount, htotal]
  · rw [← hany]
    simp only [hitems, Bool.not_false, if_true, Bool.false_eq_true, false_and, Option.isSome_none]

theorem joinCsvFilled_exact {items : Option (List CString)} {f : Filled}
    (hroom : csvRoom (items.getD []) < 2 ^ 64) (hf : joinCsvFilled items = some f) :
    f.allocated = (csv (items.getD [])).length + 1 ∧ f.Within ∧ f.Holds (csv (items.getD [])) := by
  match items, hroom, hf with
  | none, _, hf => cases hf
  | some [], _, hf => cases hf
  | some (item :: rest), hroom, hf =>
    rw [joinCsvFilled_cons] at hf
    by_cases hcount : (csvSize (item :: rest) ⟨0, 0⟩).count = 0
    · rw [if_pos hcount] at hf
      cases hf
    · rw [if_neg hcount] at hf
      exact Option.some.inj hf ▸ csvFilled_exact (mt (csvSize_count_iff hroom).mpr hcount) hroom

theorem urlAppendReturnFilled_exact {rawUrl : CString} {metadata : Option (List CString)}
    {f : Filled} (hroom : csvRoom (metadata.getD []) < 2 ^ 64)
    (hf : urlAppendReturnFilled rawUrl metadata = some f) :
    f.allocated = (csv (metadata.getD [])).length + 1 ∧ f.Within ∧
      f.Holds (csv (metadata.getD [])) := by
  simp only [urlAppendReturnFilled] at hf
  by_cases hany : (metadata.getD []).any (· ≠ []) = true
  · have hitems := (any_iff_filter _).mp hany
    have hexact := csvFilled_exact hitems hroom
    have htotal : (csvSize (metadata.getD []) ⟨0, 0⟩).total ≠ 0 := by
      rw [show (csvSize (metadata.getD []) ⟨0, 0⟩).total = _ from hexact.1]
      exact Nat.succ_ne_zero _
    have hcount := mt (csvSize_count_iff hroom).mp hitems
    rw [hany, if_neg (by decide)] at hf
    by_cases hparam : hasReturnParam rawUrl = true
    · rw [if_pos hparam] at hf
      cases hf
    · rw [if_neg hparam, if_neg (not_or.mpr ⟨hcount, htotal⟩)] at hf
      exact Option.some.inj hf ▸ hexact
  · rw [Bool.not_eq_true] at hany
    rw [hany, if_pos (by decide)] at hf
    cases hf

/-! ### Percent encoding -/

def urlEncodeFill : CString → Builder Char → Builder Char
  | [], out => out
  | c :: rest, out =>
    if c.isAlphanum ∨ c ∈ ['-', '.', '_', '~'] then urlEncodeFill rest (out.put c)
    else
      let out := out.put '%'
      let out := out.put (hexDigit (c.toNat / 16))
      urlEncodeFill rest (out.put (hexDigit (c.toNat % 16)))

/-- `url_encode`, where its memory is granted. -/
def urlEncodeFilled (s : CString) : Filled :=
  ⟨sizeAdd (s.length * 3 % 2 ^ 64) 1, ((urlEncodeFill s .empty).terminate '\x00').stores⟩

theorem urlEncode_cons (c : Char) (rest : CString) : urlEncode (c :: rest) =
    (if c.isAlphanum ∨ c ∈ ['-', '.', '_', '~'] then [c]
      else ['%', hexDigit (c.toNat / 16), hexDigit (c.toNat % 16)]) ++ urlEncode rest := rfl

theorem urlEncodeFill_wrote (s : CString) {out : Builder Char} {text : CString}
    (h : out.Wrote text) : (urlEncodeFill s out).Wrote (text ++ urlEncode s) := by
  induction s generalizing out text with
  | nil => simpa [urlEncodeFill, urlEncode] using h
  | cons c rest ih =>
    rw [urlEncodeFill, urlEncode_cons]
    by_cases hplain : c.isAlphanum ∨ c ∈ ['-', '.', '_', '~']
    · have hrest := ih (h.put c)
      rw [List.append_assoc] at hrest
      rw [if_pos hplain, if_pos hplain]
      exact hrest
    · have hrest := ih (((h.put '%').put (hexDigit (c.toNat / 16))).put (hexDigit (c.toNat % 16)))
      simp only [List.append_assoc] at hrest
      rw [if_neg hplain, if_neg hplain]
      exact hrest

theorem length_urlEncode_le (s : CString) : (urlEncode s).length ≤ 3 * s.length := by
  induction s with
  | nil => exact Nat.le_refl 0
  | cons c rest ih =>
    have hthree : (if c.isAlphanum ∨ c ∈ ['-', '.', '_', '~'] then [c]
        else ['%', hexDigit (c.toNat / 16), hexDigit (c.toNat % 16)]).length ≤ 3 := by
      by_cases hplain : c.isAlphanum ∨ c ∈ ['-', '.', '_', '~']
      · rw [if_pos hplain, List.length_singleton]
        decide
      · rw [if_neg hplain]
        exact Nat.le_refl 3
    rw [urlEncode_cons, List.length_append, List.length_cons]
    omega

theorem urlEncodeFilled_exact {s : CString} (h : 3 * s.length + 1 < 2 ^ 64) :
    (urlEncodeFilled s).allocated = 3 * s.length + 1 ∧
      (urlEncodeFilled s).Within ∧ (urlEncodeFilled s).Holds (urlEncode s) := by
  have hallocated : (urlEncodeFilled s).allocated = 3 * s.length + 1 := by
    show sizeAdd (s.length * 3 % 2 ^ 64) 1 = _
    rw [Nat.mod_eq_of_lt (by omega), sizeAdd_eq (by omega), Nat.mul_comm]
  have hstores : (urlEncodeFilled s).stores =
      Stores.consecutive 0 (urlEncode s ++ ['\x00']) := by
    have hwrote := urlEncodeFill_wrote s Builder.empty_wrote
    rw [List.nil_append] at hwrote
    exact hwrote.terminate '\x00'
  have hlength := length_urlEncode_le s
  refine ⟨hallocated, .of_consecutive hstores ?_, .of_consecutive hstores (by omega)⟩
  rw [List.length_append, List.length_singleton]
  omega

/-! ### The query of a GET request -/

/-- The sizing loop over the NULL-terminated array: an unpaired last key ends it. -/
def querySize : List CString → Nat → Nat
  | k :: v :: rest, total =>
    querySize rest (sizeAdd total ((k.length * 3 + 1 + v.length * 3 + 1) % 2 ^ 64))
  | _, total => total

/-- The filling loop, from the escape `n` on: whether the URL was completed, or an escape gave
NULL. -/
def queryFill (escape : Nat → CString → Option CString) :
    Nat → List CString → Bool → Builder Char → Bool × Builder Char
  | n, k :: v :: rest, first, out =>
    match escape n k, escape (n + 1) v with
    | some kk, some vv =>
      let out := if !first then out.put '&' else out
      queryFill escape (n + 2) rest false (((out.copy kk).put '=').copy vv)
    | _, _ => (false, out)
  | _, _, _, out => (true, out)

/-- The URL that `audd_http_get` builds when it is given a query, where its memory is granted. -/
def httpGetFilled (escape : Nat → CString → Option CString) (url : CString)
    (queryKv : List CString) : Filled :=
  let total := querySize queryKv (sizeAdd url.length 1)
  let out := (Builder.empty.copy url).put (if '?' ∈ url then '&' else '?')
  let (completed, out) := queryFill escape 0 queryKv true out
  ⟨sizeAdd total 16, if completed then (out.terminate '\x00').stores else out.stores⟩

/-- Every pair three times over, with its `=` and a separator. -/
def queryRoom (queryKv : List CString) : Nat :=
  ((pairs queryKv).map fun f => 3 * f.1.length + 1 + 3 * f.2.length + 1).sum

theorem queryRoom_cons (k v : CString) (rest : List CString) :
    queryRoom (k :: v :: rest) =
      3 * k.length + 1 + 3 * v.length + 1 + queryRoom rest := by
  simp [queryRoom, pairs]

/-- What is left when there is no pair: nothing, or a key. -/
theorem unpaired {queryKv : List CString} (h : ∀ k v rest, queryKv = k :: v :: rest → False) :
    queryKv = [] ∨ ∃ k, queryKv = [k] := by
  match queryKv with
  | [] => exact .inl rfl
  | [k] => exact .inr ⟨k, rfl⟩
  | k :: v :: rest => exact (h k v rest rfl).elim

theorem querySize_eq {queryKv : List CString} {total : Nat}
    (h : total + queryRoom queryKv < 2 ^ 64) :
    querySize queryKv total = total + queryRoom queryKv := by
  induction queryKv, total using querySize.induct with
  | case1 k v rest total ih =>
    rw [queryRoom_cons] at h ⊢
    have hpair : (k.length * 3 + 1 + v.length * 3 + 1) % 2 ^ 64 =
        3 * k.length + 1 + 3 * v.length + 1 := by
      rw [Nat.mod_eq_of_lt (by omega), Nat.mul_comm, Nat.mul_comm v.length]
    have hsum := sizeAdd_eq (show total + (3 * k.length + 1 + 3 * v.length + 1) < 2 ^ 64 by omega)
    rw [hpair, hsum] at ih
    rw [querySize, hpair, hsum, ih (by omega)]
    omega
  | case2 queryKv total hshort => obtain rfl | ⟨k, rfl⟩ := unpaired hshort <;> rfl

/-- The loop writes no more than the pairs have room for, also when it stops at an escape. -/
theorem queryFill_wrote {escape : Nat → CString → Option CString}
    (hescape : ∀ n s t, escape n s = some t → t.length ≤ 3 * s.length) (queryKv : List CString)
    (n : Nat) (first : Bool) {out : Builder Char} {text : CString} (h : out.Wrote text) :
    ∃ more, (queryFill escape n queryKv first out).2.Wrote (text ++ more) ∧
      more.length ≤ queryRoom queryKv := by
  induction queryKv using pairs.induct generalizing n first out text with
  | case1 k v rest ih =>
    rw [queryRoom_cons, queryFill]
    cases hk : escape n k with
    | none => exact ⟨[], by simpa using h, Nat.zero_le _⟩
    | some kk =>
      cases hv : escape (n + 1) v with
      | none => exact ⟨[], by simpa using h, Nat.zero_le _⟩
      | some vv =>
        have hkk := hescape n k kk hk
        have hvv := hescape (n + 1) v vv hv
        obtain ⟨sep, hsep, hout⟩ : ∃ sep : CString, sep.length ≤ 1 ∧
            (if !first then out.put '&' else out).Wrote (text ++ sep) := by
          cases first with
          | true => exact ⟨[], by decide, by simpa using h⟩
          | false => exact ⟨['&'], Nat.le_refl 1, h.put '&'⟩
        obtain ⟨more, hmore, hlength⟩ := ih (n + 2) false (((hout.copy kk).put '=').copy vv)
        refine ⟨sep ++ kk ++ ['='] ++ vv ++ more, by simpa using hmore, ?_⟩
        simp only [List.length_append, List.length_singleton]
        omega
  | case2 queryKv hshort =>
    refine ⟨[], ?_, Nat.zero_le _⟩
    obtain rfl | ⟨k, rfl⟩ := unpaired hshort <;> simpa [queryFill] using h

theorem httpGetFilled_within {escape : Nat → CString → Option CString}
    (hescape : ∀ n s t, escape n s = some t → t.length ≤ 3 * s.length) {url : CString}
    {queryKv : List CString} (h : url.length + 1 + queryRoom queryKv + 16 < 2 ^ 64) :
    (httpGetFilled escape url queryKv).allocated = url.length + 1 + queryRoom queryKv + 16 ∧
      (httpGetFilled escape url queryKv).Within := by
  have hallocated : (httpGetFilled escape url queryKv).allocated =
      url.length + 1 + queryRoom queryKv + 16 := by
    show sizeAdd (querySize queryKv (sizeAdd url.length 1)) 16 = _
    rw [sizeAdd_eq (show url.length + 1 < 2 ^ 64 by omega), querySize_eq (by omega),
      sizeAdd_eq (by omega)]
  obtain ⟨more, hmore, hlength⟩ := queryFill_wrote hescape queryKv 0 true
    ((Builder.empty_wrote.copy url).put (if '?' ∈ url then '&' else '?'))
  refine ⟨hallocated, ?_⟩
  cases hcompleted : (queryFill escape 0 queryKv true
      ((Builder.empty.copy url).put (if '?' ∈ url then '&' else '?'))).1 with
  | true =>
    have hstores : (httpGetFilled escape url queryKv).stores =
        Stores.consecutive 0 (([] ++ url ++ [if '?' ∈ url then '&' else '?'] ++ more) ++
          ['\x00']) := (if_pos hcompleted).trans (hmore.terminate '\x00')
    refine .of_consecutive hstores ?_
    simp only [List.length_append, List.length_nil, List.length_singleton, hallocated]
    omega
  | false =>
    have hstores : (httpGetFilled escape url queryKv).stores =
        Stores.consecutive 0 ([] ++ url ++ [if '?' ∈ url then '&' else '?'] ++ more) :=
      (if_neg (by simp [hcompleted])).trans hmore.stores
    refine .of_consecutive hstores ?_
    simp only [List.length_append, List.length_nil, List.length_singleton, hallocated]
    omega

/-- The pairs after the first, where every escape gives `enc` of its text. -/
theorem queryFill_rest (enc : CString → CString) (queryKv : List CString) (n : Nat)
    {out : Builder Char} {text : CString} (h : out.Wrote text) :
    let filled := queryFill (fun _ s => some (enc s)) n queryKv false out
    filled.1 = true ∧ filled.2.Wrote
      (text ++ (pairs queryKv).flatMap fun f => ['&'] ++ (enc f.1 ++ ['='] ++ enc f.2)) := by
  induction queryKv using pairs.induct generalizing n out text with
  | case1 k v rest ih =>
    have hrest := ih (n + 2) ((((h.put '&').copy (enc k)).put '=').copy (enc v))
    rw [pairs, List.flatMap_cons]
    simp only [List.append_assoc] at hrest ⊢
    exact hrest
  | case2 queryKv hshort =>
    obtain rfl | ⟨k, rfl⟩ := unpaired hshort <;> simpa [queryFill, pairs] using h

theorem queryFill_text (enc : CString → CString) (queryKv : List CString) (n : Nat)
    {out : Builder Char} {text : CString} (h : out.Wrote text) :
    let filled := queryFill (fun _ s => some (enc s)) n queryKv true out
    filled.1 = true ∧ filled.2.Wrote (text ++ ['&'].intercalate ((pairs queryKv).map fun f =>
      enc f.1 ++ ['='] ++ enc f.2)) := by
  match queryKv with
  | [] | [k] => simpa [queryFill, pairs] using h
  | k :: v :: rest =>
    have hrest := queryFill_rest enc rest (n + 2) (((h.copy (enc k)).put '=').copy (enc v))
    rw [show pairs (k :: v :: rest) = (k, v) :: pairs rest from rfl, List.map_cons,
      intercalate_cons, List.flatMap_map]
    simp only [List.append_assoc] at hrest ⊢
    exact hrest

/-- Where every escape gives `enc` of its text, the URL is completed: the query follows the first
separator, its pairs joined by ampersands, and an unpaired last key leaves no trace. -/
theorem httpGetFilled_holds {enc : CString → CString}
    (henc : ∀ s, (enc s).length ≤ 3 * s.length) {url : CString} {queryKv : List CString}
    (h : url.length + 1 + queryRoom queryKv + 16 < 2 ^ 64) :
    (httpGetFilled (fun _ s => some (enc s)) url queryKv).Holds
      (url ++ [if '?' ∈ url then '&' else '?'] ++
        ['&'].intercalate ((pairs queryKv).map fun f => enc f.1 ++ ['='] ++ enc f.2)) := by
  have hescape : ∀ (n : Nat) (s t : CString), (fun _ s => some (enc s)) n s = some t →
      t.length ≤ 3 * s.length := fun _ s t hst => Option.some.inj hst ▸ henc s
  obtain ⟨hcompleted, hwrote⟩ := queryFill_text enc queryKv 0
    ((Builder.empty_wrote.copy url).put (if '?' ∈ url then '&' else '?'))
  have hstores : (httpGetFilled (fun _ s => some (enc s)) url queryKv).stores = _ :=
    (if_pos hcompleted).trans (hwrote.terminate '\x00')
  have hcount := (httpGetFilled_within hescape h).2.count
  have hlength := congrArg List.length hstores
  rw [Stores.consecutive_length, List.length_append, List.length_singleton] at hlength
  exact .of_consecutive hstores (hlength.symm.trans_le hcount)

/-! ### Every builder stays inside -/

/-- For every input, as long as the sizes that the first loops add up do not wrap and libcurl's
escape turns a byte into at most three: the two CSV builders, which build something where an entry
is not empty and the URL has no `return` parameter yet, fill exactly what they allocated with the
comma-join of the entries that are not empty, `url_encode` stays within three bytes for each
and a NUL, and the query of a GET request stays within its estimate, whether or not an escape
fails and whether or not the last key has a value. -/
theorem builders_within (escape : Nat → CString → Option CString)
    (hescape : ∀ n s t, escape n s = some t → t.length ≤ 3 * s.length) :
    (∀ items, csvRoom (items.getD []) < 2 ^ 64 →
      ((joinCsvFilled items).isSome = true ↔ ∃ item ∈ items.getD [], item ≠ []) ∧
      ∀ f, joinCsvFilled items = some f →
        f.allocated = (csv (items.getD [])).length + 1 ∧ f.Within ∧
          f.Holds (csv (items.getD []))) ∧
    (∀ rawUrl metadata, csvRoom (metadata.getD []) < 2 ^ 64 →
      ((urlAppendReturnFilled rawUrl metadata).isSome = true ↔
        (∃ item ∈ metadata.getD [], item ≠ []) ∧ hasReturnParam rawUrl = false) ∧
      ∀ f, urlAppendReturnFilled rawUrl metadata = some f →
        f.allocated = (csv (metadata.getD [])).length + 1 ∧ f.Within ∧
          f.Holds (csv (metadata.getD []))) ∧
    (∀ s, 3 * s.length + 1 < 2 ^ 64 →
      (urlEncodeFilled s).allocated = 3 * s.length + 1 ∧ (urlEncodeFilled s).Within ∧
        (urlEncodeFilled s).Holds (urlEncode s)) ∧
    (∀ url queryKv, url.length + 1 + queryRoom queryKv + 16 < 2 ^ 64 →
      (httpGetFilled escape url queryKv).allocated = url.length + 1 + queryRoom queryKv + 16 ∧
        (httpGetFilled escape url queryKv).Within) := by
  exact ⟨fun items hroom => ⟨joinCsvFilled_isSome_iff hroom,
      fun f hf => joinCsvFilled_exact hroom hf⟩,
    fun rawUrl metadata hroom => ⟨urlAppendReturnFilled_isSome_iff hroom,
      fun f hf => urlAppendReturnFilled_exact hroom hf⟩,
    fun s hs => urlEncodeFilled_exact hs, fun url queryKv h => httpGetFilled_within hescape h⟩

/-- `a,b` from three entries, the encoding of `é`, and a query with a key left over. -/
theorem builders_within_sample :
    (∃ f, joinCsvFilled (some ["a", "", "b"]) = some f ∧ f.allocated = 4 ∧ f.Within ∧
      f.Holds (csv ["a", "", "b"])) ∧
    (∃ f, urlAppendReturnFilled "http://a" (some ["a", "b"]) = some f ∧ f.Within ∧
      f.Holds (csv ["a", "b"])) ∧
    (urlEncodeFilled ['\xe9']).Within ∧
    (httpGetFilled (fun _ s => some (urlEncode s)) "http://a" ["k", "v", "rest"]).Within := by
  obtain ⟨hjoin, happend, hencode, hget⟩ :=
    builders_within (fun _ s => some (urlEncode s)) fun _ s t hst =>
      Option.some.inj hst ▸ length_urlEncode_le s
  have hcsv := (hjoin (some ["a", "", "b"]) (by decide)).2 (csvFilled ["a", "", "b"]) rfl
  exact ⟨⟨_, rfl, hcsv.1, hcsv.2⟩,
    ⟨_, rfl, ((happend "http://a" (some ["a", "b"]) (by decide)).2 (csvFilled ["a", "b"]) rfl).2⟩,
    (hencode ['\xe9'] (by decide)).2.1,
    (hget "http://a" ["k", "v", "rest"] (by decide)).2⟩

end Audd
