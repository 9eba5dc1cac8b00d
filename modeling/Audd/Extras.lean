import Audd.Accessors
import Audd.Lib.History

/-! The extras of a recognition.  The text of an extra is kept in the tree that extras are read
from, under a name that other keys may have too.  Extras are right exactly where no name is
shared: by a member that came from the server, by the name of another key, or by a key itself. -/

namespace Audd

section

variable (p : Platform)

/-- The extra that a key should have: the text of its member as it came. -/
def CJson.extraOf (o : CJson) (key : Option CString) : Option CString :=
  key.bind fun k =>
    if k ∈ knownKeys then none else (o.getObjectItemCaseSensitive k).map (printUnformatted p)

/-- A text that the calls have printed for a key of that name. -/
def CJson.Stashed (o : CJson) (calls : List Accessor) (name text : CString) : Prop :=
  ∃ key item, .extra (some key) ∈ calls ∧ key ∉ knownKeys ∧
    o.getObjectItemCaseSensitive key = some item ∧ auxKey key = name ∧
    printUnformatted p item = text

/-- The key's extra shares no name, after the calls before it: an absent key is not a name in use,
and what is found under the name of a present one is its own text. -/
def CJson.Undisturbed (o : CJson) (before : List Accessor) (key : CString) : Prop :=
  key ∉ knownKeys →
    (o.getObjectItemCaseSensitive key = none → ∀ text, ¬o.Stashed p before key text) ∧
    ∀ item, o.getObjectItemCaseSensitive key = some item →
      (∀ s, o.getObjectItemCaseSensitive (auxKey key) = some (.string s) →
        s = printUnformatted p item) ∧
      (o.getObjectItemCaseSensitive (auxKey key) = none →
        ∀ text, o.Stashed p before (auxKey key) text → text = printUnformatted p item)

/-- The tree of extras after harmless calls: the object as it came, and under the other names the
texts printed so far. -/
structure Recognition.Extras (o : CJson) (calls : List Accessor) (r : Recognition) : Prop where
  tree : ∃ raw, r.rawObj = some raw ∧ raw.isObject = true ∧
    (∀ k item, o.getObjectItemCaseSensitive k = some item →
      raw.getObjectItemCaseSensitive k = some item) ∧
    ∀ k, o.getObjectItemCaseSensitive k = none →
      (∀ item, raw.getObjectItemCaseSensitive k = some item →
        ∃ text, o.Stashed p calls k text ∧ item = .string text) ∧
      ∀ text, o.Stashed p calls k text → raw.getObjectItemCaseSensitive k = some (.string text)

end

section

variable {p : Platform} {o : CJson} {calls : List Accessor} {name text : CString}

theorem stashed_nil : ¬o.Stashed p [] name text := by
  rintro ⟨key, item, hcall, -⟩
  cases hcall

theorem stashed_concat {call : Accessor} : o.Stashed p (calls ++ [call]) name text ↔
    o.Stashed p calls name text ∨ ∃ key item, call = .extra (some key) ∧ key ∉ knownKeys ∧
      o.getObjectItemCaseSensitive key = some item ∧ auxKey key = name ∧
      printUnformatted p item = text := by
  simp only [CJson.Stashed, List.mem_append, List.mem_singleton]
  constructor
  · rintro ⟨key, item, hcall | rfl, h⟩
    · exact .inl ⟨key, item, hcall, h⟩
    · exact .inr ⟨key, item, rfl, h⟩
  · rintro (⟨key, item, hcall, h⟩ | ⟨key, item, rfl, h⟩)
    · exact ⟨key, item, .inl hcall, h⟩
    · exact ⟨key, item, .inr rfl, h⟩

theorem stashed_concat_other {call : Accessor} (hcall : ∀ key, call ≠ .extra (some key)) :
    o.Stashed p (calls ++ [call]) name text ↔ o.Stashed p calls name text := by
  rw [stashed_concat, or_iff_left]
  rintro ⟨key, item, h, -⟩
  exact hcall key h

theorem stashed_concat_absent {key : CString}
    (habsent : key ∈ knownKeys ∨ o.getObjectItemCaseSensitive key = none) :
    o.Stashed p (calls ++ [.extra (some key)]) name text ↔ o.Stashed p calls name text := by
  rw [stashed_concat, or_iff_left]
  rintro ⟨_, item, ⟨⟩, hkey, hitem, -⟩
  rcases habsent with hknown | hnone
  · exact hkey hknown
  · rw [hnone] at hitem
    cases hitem

/-- Only the text of the key is new, and it is new under the key's own name. -/
theorem stashed_concat_present {key : CString} {item : CJson} (hkey : key ∉ knownKeys)
    (hitem : o.getObjectItemCaseSensitive key = some item) :
    o.Stashed p (calls ++ [.extra (some key)]) name text ↔
      o.Stashed p calls name text ∨ auxKey key = name ∧ printUnformatted p item = text := by
  rw [stashed_concat]
  refine or_congr_right ⟨?_, fun ⟨hname, htext⟩ => ⟨key, item, rfl, hkey, hitem, hname, htext⟩⟩
  rintro ⟨_, item', ⟨⟩, -, hitem', hname, htext⟩
  obtain rfl := Option.some.inj (hitem.symm.trans hitem')
  exact ⟨hname, htext⟩

/-! ### The other accessors -/

theorem directStreamingUrl_rawObj (r : Recognition) (provider : Provider) :
    (directStreamingUrl p r provider).ok.2.rawObj = r.rawObj := by
  cases provider with
  | spotify =>
    simp only [directStreamingUrl]
    split
    · simp only [AllocM.ok_bind]
      split <;> rfl
    · rfl
  | napster =>
    simp only [directStreamingUrl]
    split
    · simp only [AllocM.ok_bind, AllocM.ok_pure]
    · rfl
  | _ => simp [directStreamingUrl]

theorem recognitionStreamingUrl_rawObj (r : Recognition) (number : Nat) :
    (recognitionStreamingUrl p r number).ok.2.rawObj = r.rawObj := by
  cases hprovider : Provider.ofNumber number with
  | none => simp [recognitionStreamingUrl, hprovider]
  | some provider =>
    cases hlazy : r.streamingLazy provider with
    | true => simp [recognitionStreamingUrl, hprovider, hlazy]
    | false =>
      obtain ⟨urls, hkeep⟩ := recognitionStreamingUrl_keeps (p := p) hprovider hlazy
      rw [hkeep]
      exact directStreamingUrl_rawObj _ provider

theorem preview_rawObj (r : Recognition) (block : Block) :
    (block.preview p r).ok.2.rawObj = r.rawObj := by
  cases block <;> simp only [Block.preview] <;> split <;> simp

theorem firstPreview_rawObj (r : Recognition) (blocks : List Block) :
    (firstPreview p r blocks).ok.2.rawObj = r.rawObj := by
  induction blocks generalizing r with
  | nil => rfl
  | cons block blocks ih =>
    simp only [firstPreview, AllocM.ok_bind]
    split
    · exact preview_rawObj r block
    · rw [ih, preview_rawObj]

theorem blockExtra_rawObj (r : Recognition) (block : Block) (key : CString) :
    (block.extra p r key).ok.2.rawObj = r.rawObj := by
  cases block <;> simp [Block.extra]

/-- Only an extra of the recognition touches the tree of extras. -/
theorem call_rawObj {call : Accessor} (hcall : ∀ key, call ≠ .extra (some key))
    (r : Recognition) : (call.call p r).ok.2.rawObj = r.rawObj := by
  cases call with
  | getter read => rfl
  | thumbnailUrl =>
    obtain ⟨url, asked, hkeep⟩ := thumbnailUrl_keeps r
    rw [Accessor.call, hkeep]
  | streamingUrl provider => exact recognitionStreamingUrl_rawObj r provider
  | previewUrl =>
    simp only [Accessor.call, recognitionPreviewUrl]
    split
    · rfl
    · exact firstPreview_rawObj _ _
  | extra key =>
    cases key with
    | none => simp [Accessor.call, recognitionExtra]
    | some key => exact absurd rfl (hcall key)
  | blockExtra block key => exact blockExtra_rawObj r block key

/-! ### One call -/

section

variable {r : Recognition} {key : CString}

theorem recognitionExtra_absent {raw : CJson} (hraw : r.rawObj = some raw)
    (habsent : key ∈ knownKeys ∨ raw.getObjectItemCaseSensitive key = none) :
    (recognitionExtra p r (some key)).ok = (none, r) := by
  simp only [recognitionExtra, hraw]
  rcases habsent with hknown | hget
  · rw [if_pos hknown, AllocM.ok_pure]
  · rw [hget]
    split <;> rfl

theorem recognitionExtra_cached {raw item : CJson} {s : CString} (hraw : r.rawObj = some raw)
    (hkey : key ∉ knownKeys) (hget : raw.getObjectItemCaseSensitive key = some item)
    (hcached : raw.getObjectItemCaseSensitive (auxKey key) = some (.string s)) :
    (recognitionExtra p r (some key)).ok = (some s, r) := by
  simp only [recognitionExtra, hraw, if_neg hkey, hget, hcached, AllocM.ok_pure]

theorem recognitionExtra_printed {raw item : CJson} (hraw : r.rawObj = some raw)
    (hkey : key ∉ knownKeys) (hget : raw.getObjectItemCaseSensitive key = some item)
    (hcached : ∀ s, raw.getObjectItemCaseSensitive (auxKey key) ≠ some (.string s)) :
    (recognitionExtra p r (some key)).ok = (some (printUnformatted p item), { r with
      rawObj := some (raw.addStringToObject (auxKey key) (printUnformatted p item)) }) := by
  simp only [recognitionExtra, hraw, if_neg hkey, hget, AllocM.ok_bind, stash_ok, AllocM.ok_pure]

/-- A key that is found has an extra. -/
theorem recognitionExtra_isSome {raw item : CJson} (hraw : r.rawObj = some raw)
    (hkey : key ∉ knownKeys) (hget : raw.getObjectItemCaseSensitive key = some item) :
    (recognitionExtra p r (some key)).ok.1.isSome := by
  by_cases hcached : ∃ s, raw.getObjectItemCaseSensitive (auxKey key) = some (.string s)
  · obtain ⟨s, hs⟩ := hcached
    rw [recognitionExtra_cached hraw hkey hget hs]
    rfl
  · rw [recognitionExtra_printed hraw hkey hget fun s hs => hcached ⟨s, hs⟩]
    rfl

/-- A name that the object lacks and no text has is not in the tree. -/
theorem Recognition.Extras.absent {raw : CJson} (h : r.Extras p o calls)
    (hraw : r.rawObj = some raw) (hname : o.getObjectItemCaseSensitive name = none)
    (hfree : ∀ text, ¬o.Stashed p calls name text) :
    raw.getObjectItemCaseSensitive name = none := by
  obtain ⟨_, hr, -, -, hadded⟩ := h.tree
  obtain rfl := Option.some.inj (hraw.symm.trans hr)
  rw [Option.eq_none_iff_forall_ne_some]
  intro item hitem
  obtain ⟨text, hstashed, -⟩ := (hadded name hname).1 item hitem
  exact hfree text hstashed

/-- After harmless calls, the extra of a key is right exactly if the key is undisturbed. -/
theorem Recognition.Extras.right_iff (h : r.Extras p o calls) (key : CString) :
    (recognitionExtra p r (some key)).ok.1 = o.extraOf p (some key) ↔
      o.Undisturbed p calls key := by
  obtain ⟨raw, hraw, -, hwire, hadded⟩ := h.tree
  rw [CJson.extraOf, Option.bind_some, CJson.Undisturbed]
  by_cases hkey : key ∈ knownKeys
  · rw [recognitionExtra_absent hraw (.inl hkey), if_pos hkey]
    exact iff_of_true rfl fun hnot => absurd hkey hnot
  rw [if_neg hkey]
  cases ho : o.getObjectItemCaseSensitive key with
  | none =>
    obtain ⟨hfound, htext⟩ := hadded key ho
    simp only [hkey, not_false_eq_true, true_imp_iff, reduceCtorEq, false_imp_iff, implies_true,
      and_true, Option.map_none]
    constructor
    · -- a name in use is found, and printed
      intro hnone text hstashed
      have := recognitionExtra_isSome (p := p) hraw hkey (htext text hstashed)
      rw [hnone] at this
      cases this
    · exact fun hfree =>
        congrArg Prod.fst (recognitionExtra_absent hraw (.inr (h.absent hraw ho hfree)))
  | some item =>
    have hget := hwire key item ho
    simp only [hkey, not_false_eq_true, true_imp_iff, reduceCtorEq, false_imp_iff, true_and,
      Option.map_some, Option.some.injEq, forall_eq']
    cases haux : o.getObjectItemCaseSensitive (auxKey key) with
    | some wire =>
      have hcached := hwire _ wire haux
      simp only [Option.some.injEq, reduceCtorEq, false_imp_iff, and_true]
      by_cases hstring : ∃ s, wire = .string s
      · obtain ⟨s, rfl⟩ := hstring
        rw [recognitionExtra_cached hraw hkey hget hcached]
        simp
      · rw [recognitionExtra_printed hraw hkey hget fun s hs => ?_]
        · exact iff_of_true rfl fun s hs => absurd ⟨s, hs⟩ hstring
        · exact hstring ⟨s, Option.some.inj (hcached.symm.trans hs)⟩
    | none =>
      obtain ⟨hfound, htext⟩ := hadded _ haux
      simp only [reduceCtorEq, false_imp_iff, implies_true, true_and, true_imp_iff]
      cases hcached : raw.getObjectItemCaseSensitive (auxKey key) with
      | none =>
        rw [recognitionExtra_printed hraw hkey hget fun s hs => by simp [hcached] at hs]
        refine iff_of_true rfl fun text hstashed => ?_
        rw [htext text hstashed] at hcached
        cases hcached
      | some found =>
        obtain ⟨text, hstashed, rfl⟩ := hfound found hcached
        rw [recognitionExtra_cached hraw hkey hget hcached, Option.some.injEq]
        refine ⟨?_, fun hall => hall text hstashed⟩
        rintro rfl other hother
        have := hcached.symm.trans (htext other hother)
        simpa using this.symm

/-- A call that prints nothing leaves the tree and the texts of the names that the object lacks. -/
theorem Recognition.Extras.of_same {r' : Recognition} {call : Accessor} (h : r.Extras p o calls)
    (hraw : r'.rawObj = r.rawObj)
    (hsame : ∀ name text, o.getObjectItemCaseSensitive name = none →
      (o.Stashed p (calls ++ [call]) name text ↔ o.Stashed p calls name text)) :
    r'.Extras p o (calls ++ [call]) := by
  obtain ⟨raw, hr, hobject, hwire, hadded⟩ := h.tree
  refine ⟨raw, hraw.trans hr, hobject, hwire, fun k hk => ?_⟩
  simp only [hsame k _ hk]
  exact hadded k hk

/-- An undisturbed extra keeps the tree as the texts printed so far make it. -/
theorem Recognition.Extras.extra (h : r.Extras p o calls) (hkey : o.Undisturbed p calls key) :
    (recognitionExtra p r (some key)).ok.2.Extras p o (calls ++ [.extra (some key)]) := by
  obtain ⟨raw, hraw, hobject, hwire, hadded⟩ := h.tree
  by_cases hknown : key ∈ knownKeys
  · rw [recognitionExtra_absent hraw (.inl hknown)]
    exact h.of_same rfl fun name text _ => stashed_concat_absent (.inl hknown)
  obtain ⟨hfree, hown⟩ := hkey hknown
  cases ho : o.getObjectItemCaseSensitive key with
  | none =>
    rw [recognitionExtra_absent hraw (.inr (h.absent hraw ho (hfree ho)))]
    exact h.of_same rfl fun name text _ => stashed_concat_absent (.inr ho)
  | some item =>
    have hget := hwire key item ho
    obtain ⟨-, hshared⟩ := hown item ho
    by_cases hcached : ∃ s, raw.getObjectItemCaseSensitive (auxKey key) = some (.string s)
    · obtain ⟨s, hs⟩ := hcached
      rw [recognitionExtra_cached hraw hknown hget hs]
      apply h.of_same rfl
      intro name text hname
      rw [stashed_concat_present hknown ho, or_iff_left_of_imp]
      rintro ⟨rfl, rfl⟩
      obtain ⟨text, hstashed, -⟩ := (hadded _ hname).1 _ hs
      rwa [← hshared hname text hstashed]
    · rw [recognitionExtra_printed hraw hknown hget fun s hs => hcached ⟨s, hs⟩]
      refine ⟨_, rfl, by rw [CJson.isObject_addString, hobject], fun k wire hk => ?_,
        fun k hk => ?_⟩
      · rw [CJson.get_addString hobject, hwire k wire hk]
        rfl
      · obtain ⟨hfound, htext⟩ := hadded k hk
        rw [CJson.get_addString hobject]
        simp only [stashed_concat_present hknown ho]
        by_cases hname : auxKey key = k
        · -- nothing was printed under the name before
          subst hname
          have hempty : ∀ text, ¬o.Stashed p calls (auxKey key) text := fun text hstashed =>
            hcached ⟨text, htext text hstashed⟩
          simp [h.absent hraw hk hempty, hempty]
        · simp only [hname, false_and, or_false, Ne.symm hname, if_false, Option.or_none]
          exact ⟨hfound, htext⟩

end

/-! ### Any calls -/

/-- The extras of a recognition in any run of calls are right exactly where every key asked for is
undisturbed by the calls before it. -/
theorem recognitionExtra_faithful_iff (p : Platform) (members : List (CString × CJson))
    (calls : List Accessor) :
    ∃ r, (recognitionFromJson p (.object members)).ok = some r ∧
      (AtEach (fun before call => ∀ key, call = .extra key →
          (recognitionExtra p (r.after p before) key).ok.1 =
            (CJson.object members).extraOf p key) calls ↔
        AtEach (fun before call => ∀ key, call = .extra (some key) →
          (CJson.object members).Undisturbed p before key) calls) := by
  refine ⟨_, recognitionFromJson_ok members, ?_⟩
  refine atEach_iff (I := fun before r => r.Extras p (.object members) before)
    (R := fun r call => ∀ key, call = .extra key → (recognitionExtra p r key).ok.1 =
      (CJson.object members).extraOf p key) ?_ ?_ ?_ calls
  · exact ⟨_, rfl, rfl, fun k item h => h, fun k hk => ⟨fun item h => absurd (hk.symm.trans h)
      (by simp), fun text h => absurd h stashed_nil⟩⟩
  · intro before r call h
    constructor
    · rintro hright key rfl
      exact (h.right_iff key).mp (hright _ rfl)
    · rintro hkeys key rfl
      cases key with
      | none => simp [recognitionExtra, CJson.extraOf]
      | some key => exact (h.right_iff key).mpr (hkeys key rfl)
  · intro before r call h hkeys
    by_cases hcall : ∃ key, call = .extra (some key)
    · obtain ⟨key, rfl⟩ := hcall
      exact h.extra (hkeys key rfl)
    · have hother := fun key hkey => hcall ⟨key, hkey⟩
      exact h.of_same (call_rawObj hother r) fun name text _ => stashed_concat_other hother

/-- The name under which a text is kept is a key of its own, and a member that has the name of a
key is taken for its text. -/
theorem recognitionExtra_stale :
    (∃ r, (recognitionFromJson .exact (.object [("x", .bool true)])).ok = some r ∧
      (recognitionExtra .exact (r.after .exact [.extra (some "x")])
        (some "_audd_extra_x")).ok.1 = some ("\"true\"" : CString) ∧
      (CJson.object [("x", .bool true)]).extraOf .exact (some "_audd_extra_x") = none) ∧
    ∃ r, (recognitionFromJson .exact
        (.object [("_audd_extra_x", .string "hi"), ("x", .bool true)])).ok = some r ∧
      (recognitionExtra .exact r (some "x")).ok.1 = some ("hi" : CString) ∧
      (CJson.object [("_audd_extra_x", .string "hi"), ("x", .bool true)]).extraOf .exact
        (some "x") = some ("true" : CString) :=
  ⟨⟨_, rfl, by decide, by decide⟩, ⟨_, rfl, by decide, by decide⟩⟩

end

end Audd
