import Audd.Double
import Audd.Json

/-! `cJSON_PrintUnformatted`: the text of a tree. -/

namespace Audd

/-- `valueint`, which the parser keeps in the range of an `int`. -/
def CDouble.valueint : CDouble → Int
  | finite q =>
    if 2 ^ 31 - 1 ≤ q then 2 ^ 31 - 1
    else if q ≤ -2 ^ 31 then -2 ^ 31
    else q.num.tdiv q.den
  | infinite negative => if negative then -2 ^ 31 else 2 ^ 31 - 1

/-- `compare_double`: equal up to the last bit of the larger magnitude. -/
def compareDouble (p : Platform) : CDouble → CDouble → Bool
  | .finite a, .finite b => (p.round |a - b|).le (p.round (max |a| |b| * 2 ^ (-52 : Int)))
  -- an infinite difference is not above an infinite bound
  | _, _ => true

def printNumber (p : Platform) (d : CDouble) : CString :=
  match d with
  | .infinite _ => "null"
  | .finite q =>
    if q = d.valueint then decimal d.valueint
    else
      match strtod p (formatG 15 d) with
      | some (test, _) => if compareDouble p test d then formatG 15 d else formatG 17 d
      | none => formatG 17 d

def escapeChar (c : Char) : CString :=
  match c with
  | '\\' => ['\\', '\\']
  | '"' => ['\\', '"']
  | '\x08' => ['\\', 'b']
  | '\x0c' => ['\\', 'f']
  | '\n' => ['\\', 'n']
  | '\r' => ['\\', 'r']
  | '\t' => ['\\', 't']
  | c =>
    if c.toNat < 32 then
      ['\\', 'u', '0', '0', Nat.digitChar (c.toNat / 16), Nat.digitChar (c.toNat % 16)]
    else [c]

def printString (s : CString) : CString := '"' :: (s.flatMap escapeChar ++ ['"'])

mutual

/-- `cJSON_PrintUnformatted` with its memory allocated. -/
def printUnformatted (p : Platform) : CJson → CString
  | .null => "null"
  | .bool b => if b then "true" else "false"
  | .number d => printNumber p d
  | .string s => printString s
  | .array items => '[' :: (printItems p items ++ [']'])
  | .object members => '{' :: (printMembers p members ++ ['}'])

def printItems (p : Platform) : List CJson → CString
  | [] => []
  | [item] => printUnformatted p item
  | item :: items => printUnformatted p item ++ ',' :: printItems p items

def printMembers (p : Platform) : List (CString × CJson) → CString
  | [] => []
  | [(name, item)] => printString name ++ ':' :: printUnformatted p item
  | (name, item) :: members =>
    printString name ++ ':' :: (printUnformatted p item ++ ',' :: printMembers p members)

end

/-! ### Texts that differ -/

section

variable {p : Platform}

theorem quote_notMem_toDigits (n : Nat) : '"' ∉ Nat.toDigits 10 n := fun h =>
  absurd (isDigit_toDigits h) (by decide)

theorem quote_notMem_decimal (n : Int) : '"' ∉ decimal n := by
  cases n with
  | ofNat n => exact quote_notMem_toDigits n
  | negSucc n =>
    rw [decimal, List.mem_cons, not_or]
    exact ⟨by decide, quote_notMem_toDigits _⟩

theorem quote_notMem_fraction {digits : CString} (h : '"' ∉ digits) : '"' ∉ fraction digits := by
  have hrest : '"' ∉ digits.rdropWhile (· == '0') := fun hmem =>
    h ((List.rdropWhile_prefix _ _).subset hmem)
  unfold fraction
  split
  · exact List.not_mem_nil
  · rw [List.mem_cons, not_or]
    exact ⟨by decide, hrest⟩

theorem quote_notMem_significant (prec : Nat) (q : ℚ) : '"' ∉ (significant prec q).1 := by
  unfold significant
  split_ifs
  · exact fun h => absurd (List.eq_of_mem_replicate h) (by decide)
  · dsimp only
    split_ifs
    · exact fun h => quote_notMem_toDigits _ (List.mem_of_mem_take h)
    · exact quote_notMem_toDigits _

theorem quote_notMem_formatMagnitude (prec : Nat) (q : ℚ) : '"' ∉ formatMagnitude prec q := by
  have hdigits := quote_notMem_significant prec q
  have htake : ∀ k, '"' ∉ (significant prec q).1.take k := fun k h =>
    hdigits (List.mem_of_mem_take h)
  have hdrop : ∀ k, '"' ∉ fraction ((significant prec q).1.drop k) := fun k =>
    quote_notMem_fraction fun h => hdigits (List.mem_of_mem_drop h)
  have hzeros : ∀ k, '"' ∉ fraction (List.replicate k '0' ++ (significant prec q).1) := fun k =>
    quote_notMem_fraction fun h => by
      rcases List.mem_append.1 h with h | h
      · exact absurd (List.eq_of_mem_replicate h) (by decide)
      · exact hdigits h
  unfold formatMagnitude
  dsimp only
  split_ifs <;> simp [htake, hdrop, hzeros, quote_notMem_decimal, -List.drop_one]

theorem quote_notMem_formatG (prec : Nat) (d : CDouble) : '"' ∉ formatG prec d := by
  unfold formatG
  split
  · split_ifs
    · rw [List.mem_cons, not_or]
      exact ⟨by decide, quote_notMem_formatMagnitude _ _⟩
    · exact quote_notMem_formatMagnitude _ _
  · split_ifs <;> decide

theorem quote_notMem_printNumber (d : CDouble) : '"' ∉ printNumber p d := by
  unfold printNumber
  split
  · decide
  · split_ifs
    · exact quote_notMem_decimal _
    · split
      · split_ifs <;> exact quote_notMem_formatG _ _
      · exact quote_notMem_formatG _ _

/-- A number or a boolean prints otherwise than its text, which prints in quotes. -/
theorem printUnformatted_asText_iff (item : CJson) :
    printUnformatted p (item.asText p) = printUnformatted p item ↔ item.isScalar = false := by
  have hquoted : ∀ s t : CString, '"' ∉ t → printString s ≠ t := by
    rintro s t ht rfl
    exact ht List.mem_cons_self
  cases item with
  | number d =>
    refine iff_of_false ?_ Bool.noConfusion
    rw [CJson.asText, printUnformatted, printUnformatted]
    exact hquoted _ _ (quote_notMem_printNumber d)
  | bool b =>
    refine iff_of_false ?_ Bool.noConfusion
    rw [CJson.asText, printUnformatted, printUnformatted]
    exact hquoted _ _ (by cases b <;> decide)
  | _ => exact iff_of_true rfl rfl

theorem printMembers_cons (name : CString) (item : CJson) (members : List (CString × CJson)) :
    printMembers p ((name, item) :: members) =
      printString name ++ ':' :: (printUnformatted p item ++
        if members.isEmpty then [] else ',' :: printMembers p members) := by
  cases members <;> simp [printMembers]

theorem printItems_cons (item : CJson) (items : List CJson) :
    printItems p (item :: items) = printUnformatted p item ++
      if items.isEmpty then [] else ',' :: printItems p items := by
  cases items <;> simp [printItems]

/-- An object prints alike with another value for a member only if the two values do. -/
theorem printMembers_replace_iff {members : List (CString × CJson)} {key : CString}
    {old item : CJson} (h : members.lookup key = some old) :
    printMembers p (CJson.setItem.replace key item members) = printMembers p members ↔
      printUnformatted p item = printUnformatted p old := by
  induction members with
  | nil => cases h
  | cons m members ih =>
    obtain ⟨name, value⟩ := m
    rw [List.lookup_cons] at h
    simp only [CJson.setItem.replace]
    by_cases hname : name = key
    · rw [if_pos hname]
      subst hname
      rw [beq_self_eq_true] at h
      obtain rfl := Option.some.inj h
      rw [printMembers_cons, printMembers_cons, List.append_cancel_left_eq, List.cons.injEq,
        List.append_cancel_right_eq]
      exact and_iff_right rfl
    · rw [if_neg hname]
      rw [beq_false_of_ne (Ne.symm hname)] at h
      have hempty : (CJson.setItem.replace key item members).isEmpty = members.isEmpty := by
        cases members with
        | nil => rfl
        | cons m members => simp only [CJson.setItem.replace]; split_ifs <;> rfl
      have hsome : members.isEmpty = false := by
        cases members with
        | nil => cases h
        | cons m members => rfl
      rw [printMembers_cons, printMembers_cons, hempty, hsome, ← ih h]
      simp

theorem printUnformatted_setItem_iff {o old : CJson} {key : CString} (item : CJson)
    (h : o.getObjectItemCaseSensitive key = some old) :
    printUnformatted p (o.setItem key item) = printUnformatted p o ↔
      printUnformatted p item = printUnformatted p old := by
  cases o with
  | object members =>
    rw [← printMembers_replace_iff h]
    simp [CJson.setItem, CJson.withMembers, printUnformatted]
  | _ => cases h

theorem printUnformatted_edit_iff (o : CJson) (key : CString) (f : CJson → CJson) :
    printUnformatted p (o.edit key f) = printUnformatted p o ↔
      ∀ item, o.getObjectItemCaseSensitive key = some item →
        printUnformatted p (f item) = printUnformatted p item := by
  cases h : o.getObjectItemCaseSensitive key with
  | none => simp [CJson.edit_of_get_none h]
  | some item => simp [CJson.edit_of_get h, printUnformatted_setItem_iff _ h]

theorem printUnformatted_array_iff (first first' : CJson) (rest : List CJson) :
    printUnformatted p (.array (first' :: rest)) = printUnformatted p (.array (first :: rest)) ↔
      printUnformatted p first' = printUnformatted p first := by
  simp [printUnformatted, printItems_cons]

end

end Audd
