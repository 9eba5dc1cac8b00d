import Audd.CLib
import Audd.Lib.Alloc

/-! The cJSON tree of a parsed body, its lookups and edits, and the lenient scalar getters of
`audd_json.c`.  The parser itself is a parameter of the modules that use it.  A getter that
coerces a node in place returns the tree that it leaves. -/

namespace Audd

/-- A parsed value.  An object keeps its members in order, and their names may repeat. -/
inductive CJson
  | null
  | bool (b : Bool)
  | number (d : CDouble)
  | string (s : CString)
  | array (items : List CJson)
  | object (members : List (CString × CJson))

namespace CJson

def isNull : CJson → Bool
  | null => true
  | _ => false

def isObject : CJson → Bool
  | object _ => true
  | _ => false

/-- The children that a lookup by name walks: only an object's carry names. -/
def members : CJson → List (CString × CJson)
  | object ms => ms
  | _ => []

def items : CJson → List CJson
  | array xs => xs
  | _ => []

@[simp] theorem members_object (ms : List (CString × CJson)) : (object ms).members = ms := rfl

def getObjectItemCaseSensitive (o : CJson) (key : CString) : Option CJson := o.members.lookup key

/-- `cJSON_HasObjectItem`, which compares names without case. -/
def hasObjectItem (o : CJson) (key : CString) : Bool :=
  o.members.any fun m => sameIgnoringCase key m.1

/-- The object with other members; any other value is left as it is. -/
def withMembers (o : CJson) (ms : List (CString × CJson)) : CJson :=
  match o with
  | object _ => object ms
  | o => o

def deleteItemFromObjectCaseSensitive (o : CJson) (key : CString) : CJson :=
  o.withMembers (o.members.eraseP fun m => m.1 == key)

/-- `cJSON_AddStringToObject`, with its item allocated: a string member at the end. -/
def addStringToObject (o : CJson) (key value : CString) : CJson :=
  o.withMembers (o.members ++ [(key, string value)])

/-- The first member of that name replaced: a node rewritten in place. -/
def setItem (o : CJson) (key : CString) (item : CJson) : CJson :=
  o.withMembers (replace o.members)
where
  replace : List (CString × CJson) → List (CString × CJson)
    | [] => []
    | m :: ms => if m.1 = key then (key, item) :: ms else m :: replace ms

/-! ### Lookups after edits -/

theorem hasObjectItem_of_get {o item : CJson} {key : CString}
    (h : o.getObjectItemCaseSensitive key = some item) : o.hasObjectItem key = true := by
  obtain ⟨before, after, hms, -⟩ := List.lookup_eq_some_iff.mp h
  simp [hasObjectItem, hms, sameIgnoringCase_refl]

theorem lookup_replace (ms : List (CString × CJson)) (key : CString) (item : CJson)
    (k : CString) : (setItem.replace key item ms).lookup k =
      if k = key then (ms.lookup key).map fun _ => item else ms.lookup k := by
  induction ms with
  | nil => simp [setItem.replace]
  | cons m ms ih =>
    obtain ⟨name, value⟩ := m
    simp only [setItem.replace]
    by_cases hname : name = key
    · subst hname
      by_cases hk : k = name
      · simp [hk]
      · simp [hk, List.lookup_cons, beq_false_of_ne hk]
    · by_cases hk : k = name
      · subst hk
        simp [hname]
      · have hkey : (key == name) = false := beq_false_of_ne (Ne.symm hname)
        simp [hname, List.lookup_cons, beq_false_of_ne hk, ih, hkey]

theorem members_setItem (o : CJson) (key : CString) (item : CJson) :
    (o.setItem key item).members = setItem.replace key item o.members := by
  cases o <;> rfl

theorem get_setItem_ne (o : CJson) {key k : CString} (item : CJson) (h : k ≠ key) :
    (o.setItem key item).getObjectItemCaseSensitive k = o.getObjectItemCaseSensitive k := by
  simp [getObjectItemCaseSensitive, members_setItem, lookup_replace, h]

theorem get_setItem_self {o old : CJson} {key : CString} (item : CJson)
    (h : o.getObjectItemCaseSensitive key = some old) :
    (o.setItem key item).getObjectItemCaseSensitive key = some item := by
  rw [getObjectItemCaseSensitive] at h
  simp [getObjectItemCaseSensitive, members_setItem, lookup_replace, h]

theorem isObject_of_get {o item : CJson} {key : CString}
    (h : o.getObjectItemCaseSensitive key = some item) : o.isObject = true := by
  cases o <;> first | rfl | cases h

theorem filter_replace (keep : CString → Bool) {key : CString} (h : keep key = false)
    (item : CJson) (ms : List (CString × CJson)) :
    (setItem.replace key item ms).filter (fun m => keep m.1) = ms.filter fun m => keep m.1 := by
  induction ms with
  | nil => rfl
  | cons m ms ih =>
    by_cases hm : m.1 = key
    · simp [setItem.replace, hm, h]
    · simp [setItem.replace, hm, List.filter_cons, ih]

theorem lookup_filter (keep : CString → Bool) {k : CString} (h : keep k = true)
    (ms : List (CString × CJson)) : (ms.filter fun m => keep m.1).lookup k = ms.lookup k := by
  induction ms with
  | nil => rfl
  | cons m ms ih =>
    obtain ⟨name, item⟩ := m
    by_cases hk : k = name
    · subst hk
      simp [h]
    · have hne : (k == name) = false := beq_false_of_ne hk
      cases hkeep : keep name <;> simp [hkeep, List.lookup_cons, hne, ih]

theorem filter_eraseP {α : Type} {keep drop : α → Bool} (xs : List α)
    (h : ∀ x, drop x = true → keep x = false) : (xs.eraseP drop).filter keep = xs.filter keep := by
  induction xs with
  | nil => rfl
  | cons x xs ih =>
    cases hx : drop x with
    | true => rw [List.eraseP_cons_of_pos hx, List.filter_cons_of_neg (by simp [h x hx])]
    | false =>
      rw [List.eraseP_cons_of_neg (by simp [hx]), List.filter_cons, List.filter_cons, ih]

theorem lookup_eraseP_ne (ms : List (CString × CJson)) {key k : CString} (h : k ≠ key) :
    (ms.eraseP fun m => m.1 == key).lookup k = ms.lookup k := by
  induction ms with
  | nil => rfl
  | cons m ms ih =>
    by_cases hm : m.1 = key
    · have hk : (k == m.1) = false := by rw [hm]; exact beq_false_of_ne h
      rw [List.eraseP_cons_of_pos (by simpa using hm), List.lookup_cons, hk]
    · rw [List.eraseP_cons_of_neg (by simpa using hm), List.lookup_cons, List.lookup_cons, ih]

/-- Where names do not repeat, the first member of a name is the only one. -/
theorem lookup_eraseP_self {ms : List (CString × CJson)} (h : (ms.map Prod.fst).Nodup)
    (key : CString) : (ms.eraseP fun m => m.1 == key).lookup key = none := by
  induction ms with
  | nil => rfl
  | cons m ms ih =>
    rw [List.map_cons, List.nodup_cons] at h
    by_cases hm : m.1 = key
    · rw [List.eraseP_cons_of_pos (by simpa using hm), List.lookup_eq_none_iff]
      intro n hn
      have hne : key ≠ n.1 := by
        rintro rfl
        exact h.1 (hm ▸ List.mem_map_of_mem hn)
      simpa using hne
    · have hk : (key == m.1) = false := beq_false_of_ne (Ne.symm hm)
      rw [List.eraseP_cons_of_neg (by simpa using hm), List.lookup_cons, hk]
      exact ih h.2

theorem members_deleteItem (o : CJson) (key : CString) :
    (o.deleteItemFromObjectCaseSensitive key).members = o.members.eraseP fun m => m.1 == key := by
  cases o <;> rfl

theorem get_deleteItem_ne (o : CJson) {key k : CString} (h : k ≠ key) :
    (o.deleteItemFromObjectCaseSensitive key).getObjectItemCaseSensitive k =
      o.getObjectItemCaseSensitive k := by
  rw [getObjectItemCaseSensitive, members_deleteItem, lookup_eraseP_ne _ h]
  rfl

theorem get_deleteItem_self {o : CJson} (h : (o.members.map Prod.fst).Nodup) (key : CString) :
    (o.deleteItemFromObjectCaseSensitive key).getObjectItemCaseSensitive key = none := by
  rw [getObjectItemCaseSensitive, members_deleteItem, lookup_eraseP_self h]

theorem nodup_deleteItem {o : CJson} (h : (o.members.map Prod.fst).Nodup) (key : CString) :
    ((o.deleteItemFromObjectCaseSensitive key).members.map Prod.fst).Nodup := by
  rw [members_deleteItem]
  exact h.sublist (List.eraseP_sublist.map _)

/-- Deleting a name that is not there changes nothing. -/
theorem deleteItem_of_get_none {o : CJson} {key : CString}
    (h : o.getObjectItemCaseSensitive key = none) :
    o.deleteItemFromObjectCaseSensitive key = o := by
  have hgone : ∀ m ∈ o.members, ¬(m.1 == key) = true := by
    intro m hm hkey
    have := List.lookup_eq_none_iff.mp h m hm
    rw [← eq_of_beq hkey] at this
    simp at this
  rw [deleteItemFromObjectCaseSensitive, List.eraseP_of_forall_not hgone]
  cases o <;> rfl

@[simp] theorem isObject_deleteItem (o : CJson) (key : CString) :
    (o.deleteItemFromObjectCaseSensitive key).isObject = o.isObject := by
  cases o <;> rfl

theorem members_addString {o : CJson} (h : o.isObject = true) (key value : CString) :
    (o.addStringToObject key value).members = o.members ++ [(key, string value)] := by
  cases o <;> first | rfl | cases h

theorem get_addString {o : CJson} (ho : o.isObject = true) (key value k : CString) :
    (o.addStringToObject key value).getObjectItemCaseSensitive k =
      (o.getObjectItemCaseSensitive k).or (if k = key then some (string value) else none) := by
  rw [getObjectItemCaseSensitive, members_addString ho, List.lookup_append, List.lookup_cons]
  by_cases hk : k = key
  · rw [if_pos hk, hk, beq_self_eq_true]
    rfl
  · rw [if_neg hk, beq_false_of_ne hk]
    rfl

theorem get_addString_ne {o : CJson} {key k : CString} (value : CString) (h : k ≠ key) :
    (o.addStringToObject key value).getObjectItemCaseSensitive k =
      o.getObjectItemCaseSensitive k := by
  cases ho : o.isObject with
  | true => rw [get_addString ho, if_neg h, Option.or_none]
  | false => cases o <;> first | rfl | cases ho

theorem get_addString_self {o : CJson} {key : CString} (value : CString) (ho : o.isObject = true)
    (h : o.getObjectItemCaseSensitive key = none) :
    (o.addStringToObject key value).getObjectItemCaseSensitive key = some (string value) := by
  rw [get_addString ho, h, if_pos rfl]
  rfl

theorem isObject_addString (o : CJson) (key value : CString) :
    (o.addStringToObject key value).isObject = o.isObject := by
  cases o <;> rfl

@[simp] theorem isObject_setItem (o : CJson) (key : CString) (item : CJson) :
    (o.setItem key item).isObject = o.isObject := by
  cases o <;> rfl

end CJson

/-! ### Rendering and reading scalars -/

/-- `render_number`: an integer below `1e18` without a point, and otherwise the shortest `%g`
text that reads back as the same number. -/
def renderNumber (p : Platform) (d : CDouble) : CString :=
  let n := d.toInt64 p
  if d = p.round n ∧ belowLimit then decimal n
  else
    match (List.range' 1 16).find? fun prec =>
        (strtod p (formatG prec d)).map Prod.fst = some d with
    | some prec => formatG prec d
    | none => formatG 17 d
where
  belowLimit : Bool :=
    match d with
    | .finite q => decide (|q| < 10 ^ 18)
    | .infinite _ => false

def trimCopy (s : CString) (outlen : Nat) : Option CString :=
  let trimmed := (s.dropWhile isspace).rdropWhile isspace
  if trimmed.length = 0 ∨ outlen ≤ trimmed.length then none else some trimmed

/-- `looks_like_plain_decimal`: no hexadecimal prefix and no letters. -/
def looksLikePlainDecimal (s : CString) : Bool :=
  let p := (readSign s).2
  if p.take 2 = ("0x" : String) ∨ p.take 2 = ("0X" : String) then false
  else !p.any Char.isAlpha

/-- `parse_int_string`: a whole decimal integer, or else a whole decimal, truncated. -/
def parseIntString (p : Platform) (s : CString) : Option Int := do
  let trimmed ← trimCopy s 64
  if !looksLikePlainDecimal trimmed then none
  else
    match strtoll trimmed with
    | some (n, []) => some n
    | _ =>
      match strtod p trimmed with
      | some (.finite q, []) => some ((CDouble.finite q).toInt64 p)
      | _ => none

def parseBoolString (s : CString) (default : Int) : Int :=
  if s.dropWhile isspace = [] then 0
  else
    match trimCopy s 16 with
    | none => default
    | some trimmed =>
      let token := lower trimmed
      if token ∈ (["true", "1", "yes", "on"] : List String).map String.toList then 1
      else if token ∈ (["false", "0", "no", "off"] : List String).map String.toList then 0
      else default

/-! ### Typed getters -/

/-- `audd_json_get_string`: the member's text, and the tree it leaves.  A number or a boolean
becomes a string node in place; when its text cannot be allocated it stays as it is. -/
def jsonGetString (p : Platform) (obj : CJson) (key : CString) :
    AllocM (Option CString × CJson) :=
  match obj.getObjectItemCaseSensitive key with
  | some (.string s) => pure (some s, obj)
  | some (.number d) => coerce (renderNumber p d)
  | some (.bool b) => coerce (if b then "true" else "false" : String)
  | _ => pure (none, obj)
where
  coerce (text : CString) : AllocM (Option CString × CJson) := do
    match ← AllocM.copy text with
    | some s => pure (some s, obj.setItem key (.string s))
    | none => pure (none, obj)

def sdup (s : Option CString) : AllocM (Option CString) :=
  match s with
  | some s => AllocM.copy s
  | none => pure none

/-- A copy of a member's text, with the tree that reading it leaves. -/
def copyField (p : Platform) (obj : CJson) (key : CString) : AllocM (Option CString × CJson) := do
  let (s, obj) ← jsonGetString p obj key
  pure (← sdup s, obj)

def jsonGetInt64 (p : Platform) (obj : CJson) (key : CString) (default : Int) : Int :=
  match obj.getObjectItemCaseSensitive key with
  | some (.number d) => d.toInt64 p
  | some (.bool b) => if b then 1 else 0
  | some (.string s) => (parseIntString p s).getD default
  | _ => default

def jsonGetInt (p : Platform) (obj : CJson) (key : CString) (default : Int) : Int :=
  narrow (jsonGetInt64 p obj key default)

def jsonGetBool (obj : CJson) (key : CString) (default : Int) : Int :=
  match obj.getObjectItemCaseSensitive key with
  | some (.bool b) => if b then 1 else 0
  | some (.number d) => if d = .finite 0 then 0 else 1
  | some (.string s) => parseBoolString s default
  | _ => default

/-! ### Reading printed integers -/

theorem trimCopy_of_no_space {s : CString} {outlen : Nat} (h : ∀ c ∈ s, isspace c = false)
    (hne : s ≠ []) (hlength : s.length < outlen) : trimCopy s outlen = some s := by
  have hhead : s.dropWhile isspace = s := by
    obtain ⟨c, rest, rfl⟩ := List.exists_cons_of_ne_nil hne
    rw [List.dropWhile_cons_of_neg (by simp [h c List.mem_cons_self])]
  have hlast : s.rdropWhile isspace = s :=
    List.rdropWhile_eq_self_iff.2 fun _ => by simp [h _ (List.getLast_mem _)]
  have hpositive : s.length ≠ 0 := fun h => hne (List.length_eq_zero_iff.1 h)
  rw [trimCopy, hhead, hlast]
  exact if_neg (by omega)

theorem looksLikePlainDecimal_decimal (n : Int) : looksLikePlainDecimal (decimal n) = true := by
  have hdigit {P : Char → Prop} [DecidablePred P]
      (h : ("0123456789" : CString).all (fun c => decide (P c)) = true) :
      ∀ c ∈ Nat.toDigits 10 n.natAbs, P c := fun c hc => of_isDigit h (isDigit_toDigits hc)
  have hx (s : CString) (hs : s.any (fun c => c == 'x' || c == 'X') = true) :
      (Nat.toDigits 10 n.natAbs).take 2 ≠ s := by
    rintro rfl
    obtain ⟨c, hc, hcx⟩ := List.any_eq_true.1 hs
    have := hdigit (P := fun c => (c == 'x' || c == 'X') = false) (by decide) c
      (List.mem_of_mem_take hc)
    rw [this] at hcx
    cases hcx
  have halpha : (Nat.toDigits 10 n.natAbs).any Char.isAlpha = false :=
    List.any_eq_false.2 fun c hc => by
      simpa using hdigit (P := fun c => c.isAlpha = false) (by decide) c hc
  unfold looksLikePlainDecimal
  rw [readSign_decimal]
  simp only [hx ("0x" : String).toList (by decide), hx ("0X" : String).toList (by decide), or_self,
    if_false, halpha, Bool.not_false]

/-- The digits of an integer of 64 bits read back as it. -/
theorem parseIntString_decimal (p : Platform) {n : Int} (h : InRange 64 n) :
    parseIntString p (decimal n) = some n := by
  have hlength : (decimal n).length ≤ 20 := by
    obtain ⟨hlow, hhigh⟩ := h
    exact length_decimal (k := 19) (by omega) (by omega)
  have htrim : trimCopy (decimal n) 64 = some (decimal n) :=
    trimCopy_of_no_space (fun _ => isspace_decimal) (decimal_ne_nil n) (by omega)
  simp [parseIntString, htrim, looksLikePlainDecimal_decimal, strtoll_decimal h]

/-! ### What the getters give with memory -/

/-- The text that `audd_json_get_string` reads. -/
def CJson.textOf (p : Platform) (obj : CJson) (key : CString) : Option CString :=
  match obj.getObjectItemCaseSensitive key with
  | some (.string s) => some s
  | some (.number d) => some (renderNumber p d)
  | some (.bool b) => some (if b then "true" else "false" : String)
  | _ => none

/-- The tree that it leaves. -/
def CJson.coerced (p : Platform) (obj : CJson) (key : CString) : CJson :=
  match obj.textOf p key with
  | some s => obj.setItem key (.string s)
  | none => obj

section

variable {p : Platform} {obj : CJson} {key : CString}

theorem replace_self {ms : List (CString × CJson)} {item : CJson} (h : ms.lookup key = some item) :
    CJson.setItem.replace key item ms = ms := by
  induction ms with
  | nil => rfl
  | cons m ms ih =>
    obtain ⟨name, value⟩ := m
    rw [List.lookup_cons] at h
    simp only [CJson.setItem.replace]
    split
    · rename_i hname
      subst hname
      simp_all
    · rename_i hname
      rw [beq_false_of_ne (Ne.symm hname)] at h
      rw [ih h]

theorem CJson.setItem_self {item : CJson} (h : obj.getObjectItemCaseSensitive key = some item) :
    obj.setItem key item = obj := by
  rw [CJson.getObjectItemCaseSensitive] at h
  rw [setItem, replace_self h]
  cases obj <;> rfl

@[simp] theorem jsonGetString_ok :
    (jsonGetString p obj key).ok = (obj.textOf p key, obj.coerced p key) := by
  unfold jsonGetString CJson.coerced CJson.textOf
  split
  · rename_i s h
    simp [CJson.setItem_self h]
  · simp [jsonGetString.coerce]
  · simp [jsonGetString.coerce]
  · split <;> simp_all

@[simp] theorem sdup_ok (s : Option CString) : (sdup s).ok = s := by
  cases s <;> rfl

@[simp] theorem copyField_ok :
    (copyField p obj key).ok = (obj.textOf p key, obj.coerced p key) := by
  simp [copyField]

@[simp] theorem get_coerced_ne {k : CString} (h : k ≠ key) :
    (obj.coerced p key).getObjectItemCaseSensitive k = obj.getObjectItemCaseSensitive k := by
  unfold CJson.coerced
  split
  · exact CJson.get_setItem_ne obj _ h
  · rfl

@[simp] theorem textOf_coerced_ne {k : CString} (h : k ≠ key) :
    (obj.coerced p key).textOf p k = obj.textOf p k := by
  rw [CJson.textOf, CJson.textOf, get_coerced_ne h]

@[simp] theorem jsonGetInt64_coerced_ne {k : CString} (h : k ≠ key) (default : Int) :
    jsonGetInt64 p (obj.coerced p key) k default = jsonGetInt64 p obj k default := by
  rw [jsonGetInt64, jsonGetInt64, get_coerced_ne h]

@[simp] theorem jsonGetInt_coerced_ne {k : CString} (h : k ≠ key) (default : Int) :
    jsonGetInt p (obj.coerced p key) k default = jsonGetInt p obj k default := by
  rw [jsonGetInt, jsonGetInt, jsonGetInt64_coerced_ne h]

@[simp] theorem jsonGetBool_coerced_ne {k : CString} (h : k ≠ key) (default : Int) :
    jsonGetBool (obj.coerced p key) k default = jsonGetBool obj k default := by
  rw [jsonGetBool, jsonGetBool, get_coerced_ne h]

@[simp] theorem isObject_coerced : (obj.coerced p key).isObject = obj.isObject := by
  unfold CJson.coerced
  split
  · exact CJson.isObject_setItem obj key _
  · rfl

end

/-! ### Nodes rewritten in place -/

/-- A scalar that reading it as text rewrites. -/
def CJson.isScalar : CJson → Bool
  | number _ | bool _ => true
  | _ => false

/-- The node after it is read as text. -/
def CJson.asText (p : Platform) : CJson → CJson
  | number d => string (renderNumber p d)
  | bool b => string (if b then "true" else "false" : String)
  | item => item

def CJson.edit (o : CJson) (key : CString) (f : CJson → CJson) : CJson :=
  match o.getObjectItemCaseSensitive key with
  | some item => o.setItem key (f item)
  | none => o

section

variable {p : Platform} {o : CJson} {key : CString} {f : CJson → CJson}

theorem CJson.edit_of_get {item : CJson} (h : o.getObjectItemCaseSensitive key = some item) :
    o.edit key f = o.setItem key (f item) := by
  rw [edit, h]

theorem CJson.edit_of_get_none (h : o.getObjectItemCaseSensitive key = none) :
    o.edit key f = o := by
  rw [edit, h]

theorem CJson.edit_of_fixed {item : CJson} (h : o.getObjectItemCaseSensitive key = some item)
    (hfixed : f item = item) : o.edit key f = o := by
  rw [edit_of_get h, hfixed, setItem_self h]

theorem CJson.get_edit (k : CString) : (o.edit key f).getObjectItemCaseSensitive k =
    if k = key then (o.getObjectItemCaseSensitive k).map f
    else o.getObjectItemCaseSensitive k := by
  cases h : o.getObjectItemCaseSensitive key with
  | none =>
    rw [edit_of_get_none h]
    split_ifs with hk
    · rw [hk, h, Option.map_none]
    · rfl
  | some item =>
    rw [edit_of_get h]
    split_ifs with hk
    · rw [hk, get_setItem_self _ h, h, Option.map_some]
    · exact get_setItem_ne _ _ hk

@[simp] theorem CJson.isObject_edit : (o.edit key f).isObject = o.isObject := by
  unfold edit
  split
  · exact isObject_setItem _ _ _
  · rfl

@[simp] theorem CJson.asText_asText (item : CJson) :
    (item.asText p).asText p = item.asText p := by
  cases item <;> rfl

/-- The coercion is an edit of the member. -/
theorem CJson.coerced_eq_edit (p : Platform) (o : CJson) (key : CString) :
    o.coerced p key = o.edit key (asText p) := by
  unfold coerced textOf edit
  rcases hget : o.getObjectItemCaseSensitive key with _ | (_ | _ | _ | _ | _ | _) <;>
    first | rfl | simp only [asText, setItem_self hget]

theorem CJson.get_coercedAll (keys : List CString) (k : CString) :
    (keys.foldl (coerced p) o).getObjectItemCaseSensitive k =
      if k ∈ keys then (o.getObjectItemCaseSensitive k).map (asText p)
      else o.getObjectItemCaseSensitive k := by
  induction keys generalizing o with
  | nil => rfl
  | cons key keys ih =>
    rw [List.foldl_cons, ih, coerced_eq_edit, get_edit]
    by_cases hk : k = key <;> by_cases hkeys : k ∈ keys <;>
      simp [hk, hkeys, Function.comp_def]

theorem CJson.isObject_coercedAll (keys : List CString) :
    (keys.foldl (coerced p) o).isObject = o.isObject := by
  induction keys generalizing o with
  | nil => rfl
  | cons key keys ih => rw [List.foldl_cons, ih, isObject_coerced]

end

end Audd
