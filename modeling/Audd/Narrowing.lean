import Audd.CallbackOutcome

/-! Integers of 64 bits that are read as an `int`.  The getter keeps the low 32 bits, so an id that
a match reports whole may be another id in a notification. -/

namespace Audd

theorem narrow_eq_iff {n : Int} : narrow n = n ↔ InRange 32 n := by
  unfold narrow InRange
  constructor
  · intro h
    have hlow := Int.le_bmod (x := n) (m := 2 ^ 32) (by omega)
    have hhigh := Int.bmod_lt (x := n) (m := 2 ^ 32) (by omega)
    rw [h] at hlow hhigh
    exact ⟨by omega, by omega⟩
  · rintro ⟨hlow, hhigh⟩
    exact Int.bmod_eq_of_le (by omega) (by omega)

/-- An integer as the server may send it: a number that a `double` holds exactly, or its digits. -/
inductive CJson.DenotesInt (n : Int) : CJson → Prop
  | number (h : |n| ≤ 2 ^ 53) : DenotesInt n (.number (.finite n))
  | text (h : InRange 64 n) : DenotesInt n (.string (decimal n))

section

variable {p : Platform} {n : Int} {item obj : CJson} {key : CString}

theorem jsonGetInt64_denotes (hitem : item.DenotesInt n)
    (h : obj.getObjectItemCaseSensitive key = some item) (default : Int) :
    jsonGetInt64 p obj key default = n := by
  rw [jsonGetInt64, h]
  cases hitem with
  | number hn =>
    rw [abs_le] at hn
    exact CDouble.convert_int ⟨by omega, by omega⟩
  | text hn => simp only [parseIntString_decimal p hn, Option.getD_some]

theorem jsonGetInt_denotes (hitem : item.DenotesInt n)
    (h : obj.getObjectItemCaseSensitive key = some item) (default : Int) :
    jsonGetInt p obj key default = narrow n := by
  rw [jsonGetInt, jsonGetInt64_denotes hitem h]

/-! ### Radio ids -/

variable {parse : CString → Option CJson}

/-- What is written of the ids: at most one of the two outputs, with this id. -/
def CallbackOut.Ids (out : CallbackOut) (notified matched : Option Int) : Prop :=
  (∀ n, out.outNotification = some n → notified = some n.radioId) ∧
  ∀ m, out.outMatch = some m → matched = some m.radioId

theorem failed_ids (e : AuddError) (message : Option CString) (notified matched : Option Int) :
    (CallbackOut.failed e message).Ids notified matched :=
  ⟨fun _ h => (by cases h), fun _ h => (by cases h)⟩

theorem invalid_ids (message : CString) (notified matched : Option Int) :
    (parseCallback.invalid message).Every fun out => out.Ids notified matched :=
  AllocM.every_bind_of_forall fun copied => failed_ids .serialization copied notified matched

theorem parseNotification_ids (root notif : CJson) (body : CString) :
    (parseNotification p root notif body).Every fun out =>
      out.Ids (some (jsonGetInt p notif "radio_id" 0)) none := by
  rw [parseNotification, AllocM.every_bind, AllocM.every_copy]
  refine ⟨?_, failed_ids _ _ _ _⟩
  apply AllocM.every_bind_of_forall
  intro message
  apply AllocM.every_bind_of_forall
  intro raw
  rw [AllocM.every_pure]
  refine ⟨fun n h => ?_, fun m h => (by cases h)⟩
  rw [← Option.some.inj h]

theorem parseMatch_ids (result first : CJson) (rest : List CJson) (body : CString) :
    (parseMatch p result first rest body).Every fun out =>
      out.Ids none (some (jsonGetInt64 p result "radio_id" 0)) := by
  rw [parseMatch, AllocM.every_bind, AllocM.every_copy]
  refine ⟨?_, failed_ids _ _ _ _⟩
  apply AllocM.every_bind_of_forall
  intro timestamp
  apply AllocM.every_bind_of_forall
  intro song
  apply AllocM.every_bind_of_forall
  intro alternatives
  cases alternatives with
  | none => exact failed_ids _ _ _ _
  | some alternatives =>
    apply AllocM.every_bind_of_forall
    intro raw
    rw [AllocM.every_pure]
    refine ⟨fun n h => (by cases h), fun m h => ?_⟩
    rw [← Option.some.inj h]

/-- Whatever memory is refused, a notification has the narrowed id and a match the whole one. -/
theorem parseCallback_ids {text : CString} {root : CJson} (hroot : parse text = some root) :
    (parseCallback p parse (some text)).Every fun out => out.Ids
      (root.notification.map fun notif => jsonGetInt p notif "radio_id" 0)
      ((root.getObjectItemCaseSensitive "result").map fun result =>
        jsonGetInt64 p result "radio_id" 0) := by
  have hwider : ∀ {out : CallbackOut} {a b a' b' : Option Int}, out.Ids a b →
      (∀ id, a = some id → a' = some id) → (∀ id, b = some id → b' = some id) → out.Ids a' b' :=
    fun h ha hb => ⟨fun n hn => ha _ (h.1 n hn), fun m hm => hb _ (h.2 m hm)⟩
  unfold parseCallback
  split
  · exact invalid_ids _ _ _
  · exact invalid_ids _ _ _
  · rename_i text' htext heq
    obtain rfl := Option.some.inj heq
    rw [AllocM.every_bind, AllocM.every_copy, hroot]
    refine ⟨?_, invalid_ids _ _ _⟩
    simp only [Option.join_some]
    split
    · rename_i notif hnotif
      refine (parseNotification_ids root _ text).mono fun out h => hwider h ?_ (by simp)
      rw [notification_eq_some_iff.2 ⟨hnotif, rfl⟩]
      simp
    · split
      · rename_i result hresult
        split
        · refine (parseMatch_ids _ _ _ text).mono fun out h => hwider h (by simp) ?_
          rw [hresult]
          simp
        · exact invalid_ids _ _ _
      · exact invalid_ids _ _ _

/-- The id that a notification with this `radio_id` is reported with, in some run. -/
def NotifiedId (p : Platform) (parse : CString → Option CJson) (item : CJson) (id : Int) : Prop :=
  ∃ text root notif tape n, parse text = some root ∧ root.notification = some notif ∧
    notif.getObjectItemCaseSensitive "radio_id" = some item ∧
    ((parseCallback p parse (some text)).run tape).1.outNotification = some n ∧ n.radioId = id

/-- The id that a match with this `radio_id` is reported with, in some run. -/
def MatchedId (p : Platform) (parse : CString → Option CJson) (item : CJson) (id : Int) : Prop :=
  ∃ text root result first rest tape m, parse text = some root ∧
    root.MatchResults result first rest ∧
    result.getObjectItemCaseSensitive "radio_id" = some item ∧
    ((parseCallback p parse (some text)).run tape).1.outMatch = some m ∧ m.radioId = id

theorem NotifiedId.eq_narrow {id : Int} (hitem : item.DenotesInt n)
    (h : NotifiedId p parse item id) : id = narrow n := by
  obtain ⟨text, root, notif, tape, out, hparse, hnotif, hget, hout, rfl⟩ := h
  have hid := ((parseCallback_ids hparse).run tape).1 out hout
  rw [hnotif, Option.map_some, jsonGetInt_denotes hitem hget] at hid
  exact (Option.some.inj hid).symm

theorem MatchedId.eq_whole {id : Int} (hitem : item.DenotesInt n)
    (h : MatchedId p parse item id) : id = n := by
  obtain ⟨text, root, result, first, rest, tape, out, hparse, hmatch, hget, hout, rfl⟩ := h
  have hid := ((parseCallback_ids hparse).run tape).2 out hout
  rw [hmatch.2.1, Option.map_some, jsonGetInt64_denotes hitem hget] at hid
  exact (Option.some.inj hid).symm

/-- An `int` is read whole or as the default exactly if it fits, or its low 32 bits are by chance
the default; and only then do the two kinds of callback agree on a radio id, or one has none. -/
theorem jsonGetInt_whole_iff (p : Platform) (parse : CString → Option CJson) {n : Int}
    {item : CJson} (hitem : item.DenotesInt n) :
    (∀ (obj : CJson) (key : CString) (default : Int),
      obj.getObjectItemCaseSensitive key = some item →
      (jsonGetInt p obj key default = (if InRange 32 n then n else default) ↔
        InRange 32 n ∨ narrow n = default)) ∧
    ∀ (item' : CJson) (id id' : Int), item'.DenotesInt n → NotifiedId p parse item id →
      MatchedId p parse item' id' →
      (¬(id ≠ id' ∧ id ≠ 0 ∧ id' ≠ 0) ↔ InRange 32 n ∨ narrow n = 0) := by
  constructor
  · intro obj key default h
    rw [jsonGetInt_denotes hitem h]
    by_cases hn : InRange 32 n
    · rw [if_pos hn]
      exact iff_of_true (narrow_eq_iff.2 hn) (.inl hn)
    · rw [if_neg hn]
      exact (or_iff_right hn).symm
  · intro item' id id' hitem' hid hid'
    obtain rfl := hid.eq_narrow hitem
    obtain rfl := hid'.eq_whole hitem'
    rw [← narrow_eq_iff]
    constructor
    · intro h
      by_contra hout
      rw [not_or] at hout
      refine h ⟨hout.1, hout.2, fun hzero => hout.1 ?_⟩
      rw [hzero]
      rfl
    · rintro (h | h) ⟨hne, hzero, -⟩
      · exact hne h
      · exact hzero h

/-! ### An id of 33 bits -/

def wideId : CJson := .number (.finite 4294967297)

def wideNotification : CJson :=
  .object [("notification", .object [("radio_id", wideId)])]

def wideMatch : CJson :=
  .object [("result", .object [("radio_id", wideId), ("results", .array [.null])])]

/-- A parser of two bodies. -/
def parseWide (text : CString) : Option CJson :=
  if text = ("n" : String) then some wideNotification else some wideMatch

theorem wideId_narrowed : wideId.DenotesInt 4294967297 ∧
    (CJson.object [("radio_id", wideId)]).getObjectItemCaseSensitive "radio_id" = some wideId ∧
    jsonGetInt .exact (.object [("radio_id", wideId)]) "radio_id" 0 = 1 ∧
    ¬InRange 32 4294967297 ∧ NotifiedId .exact parseWide wideId 1 ∧
    MatchedId .exact parseWide wideId 4294967297 := by
  have hwide : wideId.DenotesInt 4294967297 := .number (by norm_num)
  have hone : narrow 4294967297 = 1 := by decide
  have hget (rest : List (CString × CJson)) :
      CJson.getObjectItemCaseSensitive (.object (("radio_id", wideId) :: rest)) "radio_id" =
        some wideId := rfl
  refine ⟨hwide, rfl, ?_, by decide, ?_, ?_⟩
  · rw [jsonGetInt_denotes hwide (hget _), hone]
  · refine ⟨("n" : String), wideNotification, _, plenty, _, rfl, rfl, rfl, rfl, ?_⟩
    exact (jsonGetInt_denotes hwide (hget _) 0).trans hone
  · refine ⟨("m" : String), wideMatch, _, _, _, plenty, _, rfl, ⟨rfl, rfl, rfl, rfl⟩, rfl, rfl, ?_⟩
    exact jsonGetInt64_denotes (p := .exact) hwide (hget [("results", .array [.null])]) 0

theorem narrowId_whole : jsonGetInt .exact (.object [("radio_id", .string (decimal 7))]) "radio_id"
    0 = (if InRange 32 7 then 7 else 0) :=
  ((jsonGetInt_whole_iff .exact parseWide (.text (by decide))).1
    (.object [("radio_id", .string (decimal 7))]) "radio_id" 0 rfl).mpr (.inl (by decide))

end

end Audd
