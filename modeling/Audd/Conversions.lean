import Audd.Lib.Traced
import Audd.ScalarText

/-! The conversions from `double` to integers.  C leaves one undefined where the truncated value
does not fit the target type.  The getters are stated once more, with a record of the conversions
that they execute; without the record they are the getters as they were. -/

namespace Audd

/-- A conversion to a signed type of `bits` bits. -/
structure Conversion where
  bits : Nat
  value : CDouble

def Conversion.Defined (c : Conversion) : Prop := c.value.Converts c.bits

abbrev Converting := Traced Conversion

/-! ### Reads of a member -/

/-- A read of a member: as a text, as an integer by the getters, or as an `int` from a number. -/
inductive Read
  | text (key : CString)
  | integer (key : CString)
  | raw (key : CString)

/-- A decimal with a point is converted, where the text is one. -/
def PointDefined (p : Platform) (s : CString) : Prop :=
  ∀ n, Reads s n → n.fraction ≠ none → ∀ q, p.round n.value = .finite q →
    (CDouble.finite q).Converts 64

/-- What the read converts has the range of the target. -/
def Read.Defined (p : Platform) (o : CJson) : Read → Prop
  | .text key => ∀ d, o.getObjectItemCaseSensitive key = some (.number d) → d.Converts 64
  | .integer key =>
    (∀ d, o.getObjectItemCaseSensitive key = some (.number d) → d.Converts 64) ∧
      ∀ s, o.getObjectItemCaseSensitive key = some (.string s) → PointDefined p s
  | .raw key => ∀ d, o.getObjectItemCaseSensitive key = some (.number d) → d.Converts 32

namespace Converting

section

variable (p : Platform)

def toInt (d : CDouble) : Converting Int := do
  Traced.record ⟨32, d⟩
  pure (d.toInt p)

def toInt64 (d : CDouble) : Converting Int := do
  Traced.record ⟨64, d⟩
  pure (d.toInt64 p)

/-! ### Getters -/

def renderNumber (d : CDouble) : Converting CString := do
  let n ← toInt64 p d
  -- the magnitude is looked at when the number has been converted
  if d = p.round n ∧ renderNumber.belowLimit d then do pure (decimal (← toInt64 p d))
  else
    match (List.range' 1 16).find? fun prec =>
        (strtod p (formatG prec d)).map Prod.fst = some d with
    | some prec => pure (formatG prec d)
    | none => pure (formatG 17 d)

def jsonGetString (obj : CJson) (key : CString) : Converting (Option CString × CJson) :=
  match obj.getObjectItemCaseSensitive key with
  | some (.string s) => pure (some s, obj)
  | some (.number d) => do
    let text ← renderNumber p d
    Traced.lift (jsonGetString.coerce obj key text)
  | some (.bool b) =>
    Traced.lift (jsonGetString.coerce obj key (if b then "true" else "false" : String))
  | _ => pure (none, obj)

def copyField (obj : CJson) (key : CString) : Converting (Option CString × CJson) := do
  let (s, obj) ← jsonGetString p obj key
  let copied ← Traced.lift (sdup s)
  pure (copied, obj)

def parseIntString (s : CString) : Converting (Option Int) :=
  match trimCopy s 64 with
  | none => pure none
  | some trimmed =>
    if !looksLikePlainDecimal trimmed then pure none
    else
      match strtoll trimmed with
      | some (n, []) => pure (some n)
      | _ =>
        match strtod p trimmed with
        | some (.finite q, []) => do
          let n ← toInt64 p (.finite q)
          pure (some n)
        | _ => pure none

def jsonGetInt64 (obj : CJson) (key : CString) (default : Int) : Converting Int :=
  match obj.getObjectItemCaseSensitive key with
  | some (.number d) => toInt64 p d
  | some (.bool b) => pure (if b then 1 else 0)
  | some (.string s) => do
    let n ← parseIntString p s
    pure (n.getD default)
  | _ => pure default

def jsonGetInt (obj : CJson) (key : CString) (default : Int) : Converting Int := do
  let n ← jsonGetInt64 p obj key default
  pure (narrow n)

end

/-! ### Forgetting the record -/

section

variable {p : Platform}

theorem erase_toInt (d : CDouble) : (toInt p d).erase = pure (d.toInt p) := rfl

theorem erase_toInt64 (d : CDouble) : (toInt64 p d).erase = pure (d.toInt64 p) := rfl

theorem erase_renderNumber (d : CDouble) :
    (renderNumber p d).erase = pure (Audd.renderNumber p d) := by
  unfold renderNumber Audd.renderNumber
  rw [Traced.erase_bind, erase_toInt64, AllocM.pure_bind]
  dsimp only
  split
  · rfl
  · cases (List.range' 1 16).find? fun prec =>
        decide ((strtod p (formatG prec d)).map Prod.fst = some d) with
    | some prec => rfl
    | none => rfl

theorem erase_jsonGetString (obj : CJson) (key : CString) :
    (jsonGetString p obj key).erase = Audd.jsonGetString p obj key := by
  unfold jsonGetString Audd.jsonGetString
  cases obj.getObjectItemCaseSensitive key with
  | none => rfl
  | some item =>
    cases item with
    | number d => exact (Traced.erase_bind _ _).trans (by
        rw [erase_renderNumber, AllocM.pure_bind, Traced.erase_lift])
    | bool b => exact Traced.erase_lift _
    | _ => rfl

theorem erase_copyField (obj : CJson) (key : CString) :
    (copyField p obj key).erase = Audd.copyField p obj key :=
  Traced.erase_bind_eq (erase_jsonGetString obj key) fun _ =>
    Traced.erase_lift_bind fun _ => rfl

theorem erase_parseIntString (s : CString) :
    (parseIntString p s).erase = pure (Audd.parseIntString p s) := by
  unfold parseIntString Audd.parseIntString
  cases trimCopy s 64 with
  | none => rfl
  | some trimmed =>
    simp only [Option.bind_eq_bind, Option.bind_some]
    split
    · rfl
    · rcases strtoll trimmed with _ | ⟨n, _ | ⟨c, rest⟩⟩
      · rcases strtod p trimmed with _ | ⟨_ | _, _ | _⟩ <;> rfl
      · rfl
      · rcases strtod p trimmed with _ | ⟨_ | _, _ | _⟩ <;> rfl

theorem erase_jsonGetInt64 (obj : CJson) (key : CString) (default : Int) :
    (jsonGetInt64 p obj key default).erase = pure (Audd.jsonGetInt64 p obj key default) := by
  unfold jsonGetInt64 Audd.jsonGetInt64
  cases obj.getObjectItemCaseSensitive key with
  | none => rfl
  | some item =>
    cases item with
    | string s => exact (Traced.erase_bind _ _).trans (by
        rw [erase_parseIntString, AllocM.pure_bind, Traced.erase_pure])
    | _ => rfl

theorem erase_jsonGetInt (obj : CJson) (key : CString) (default : Int) :
    (jsonGetInt p obj key default).erase = pure (Audd.jsonGetInt p obj key default) := by
  rw [jsonGetInt, Traced.erase_bind, erase_jsonGetInt64, AllocM.pure_bind, Traced.erase_pure]
  rfl

/-! ### What the getters convert -/

theorem each_toInt (d : CDouble) : (toInt p d).Each Conversion.Defined ↔ d.Converts 32 := by
  rw [toInt, Traced.each_bind, Traced.each_record, Traced.erase_record]
  simp [Conversion.Defined]

theorem each_toInt64 (d : CDouble) : (toInt64 p d).Each Conversion.Defined ↔ d.Converts 64 := by
  rw [toInt64, Traced.each_bind, Traced.each_record, Traced.erase_record]
  simp [Conversion.Defined]

theorem each_renderNumber (d : CDouble) :
    (renderNumber p d).Each Conversion.Defined ↔ d.Converts 64 := by
  rw [renderNumber, Traced.each_bind, each_toInt64, erase_toInt64, AllocM.every_pure]
  refine and_iff_left_of_imp fun h => ?_
  split
  · rw [Traced.each_bind, each_toInt64]
    simpa [erase_toInt64] using h
  · split <;> simp

theorem each_jsonGetString (o : CJson) (key : CString) :
    (jsonGetString p o key).Each Conversion.Defined ↔ (Read.text key).Defined p o := by
  show _ ↔ ∀ d, o.getObjectItemCaseSensitive key = some (.number d) → d.Converts 64
  unfold jsonGetString
  cases o.getObjectItemCaseSensitive key with
  | none => simp
  | some item =>
    cases item with
    | number d => simp [Traced.each_bind, each_renderNumber]
    | _ => simp

theorem each_copyField (o : CJson) (key : CString) :
    (copyField p o key).Each Conversion.Defined ↔ (Read.text key).Defined p o := by
  rw [copyField, Traced.each_bind, each_jsonGetString]
  refine and_iff_left_of_imp fun _ => AllocM.every_of_forall _ fun a => ?_
  simp [Traced.each_bind]

/-- `strtoll` takes all of a decimal only where it has no point. -/
theorem fraction_of_strtoll {d : PlainDecimal} {n : Int} (h : strtoll d.text = some (n, [])) :
    d.fraction = none := by
  rw [d.strtoll_text] at h
  split at h
  · cases h
  · have hrest := (Prod.ext_iff.1 (Option.some.inj h)).2
    cases hf : d.fraction with
    | none => rfl
    | some f =>
      rw [hf] at hrest
      cases hrest

theorem strtoll_of_fraction {d : PlainDecimal} (h : d.fraction = none) :
    strtoll d.text = some (saturated d.integer, []) := by
  have hwhole : d.whole ≠ [] := by simpa [h] using d.some_digit
  rw [d.strtoll_text, if_neg hwhole, h]
  rfl

theorem each_parseIntString (s : CString) :
    (parseIntString p s).Each Conversion.Defined ↔ PointDefined p s := by
  unfold parseIntString
  by_cases hfits : trimmed s = [] ∨ 64 ≤ (trimmed s).length
  · rw [trimCopy_eq, if_pos hfits]
    refine iff_of_true (by simp) fun n hn => ?_
    rcases hfits with hnil | hlong
    · exact absurd (hn.1.symm.trans hnil) n.text_ne_nil
    · exact absurd hn.2 (by omega)
  · rw [trimCopy_eq, if_neg hfits]
    dsimp only
    split
    · rename_i hlooks
      refine iff_of_true (by simp) fun n hn => ?_
      rw [hn.1, n.looksLikePlainDecimal_text] at hlooks
      cases hlooks
    · rename_i hlooks
      have hlooks : looksLikePlainDecimal (trimmed s) = true := by simpa using hlooks
      split
      · -- digits alone
        rename_i n hstrtoll
        refine iff_of_true (by simp) fun d hd hpoint => absurd ?_ hpoint
        exact fraction_of_strtoll (hd.1 ▸ hstrtoll)
      · rename_i hstrtoll
        split
        · rename_i q hstrtod
          obtain ⟨d, hd⟩ :=
            plainDecimal_of_strtod (trimmed_space s) (not_alpha_of_looks hlooks) hstrtod
          have hread : ∀ n, Reads s n → p.round n.value = .finite q := by
            intro n hn
            rw [hn.1, n.strtod_text] at hstrtod
            exact (Prod.ext_iff.1 (Option.some.inj hstrtod)).1
          have hpoint : d.fraction ≠ none := by
            intro hnone
            rw [hd] at hstrtoll
            exact hstrtoll _ (strtoll_of_fraction hnone)
          have hreads : Reads s d := ⟨hd, by omega⟩
          have hconvert : (toInt64 p (.finite q) >>= fun n => pure (some n)).Each
              Conversion.Defined ↔ (CDouble.finite q).Converts 64 := by
            simp [Traced.each_bind, each_toInt64]
          rw [hconvert]
          constructor
          · intro h n hn _ q' hq'
            obtain rfl := CDouble.finite.inj ((hread n hn).symm.trans hq')
            exact h
          · exact fun h => h d hreads hpoint q (hread d hreads)
        · rename_i hstrtod
          refine iff_of_true (by simp) fun d hd _ q hq => absurd ?_ (hstrtod q)
          rw [hd.1, d.strtod_text, hq]

theorem each_jsonGetInt64 (o : CJson) (key : CString) (default : Int) :
    (jsonGetInt64 p o key default).Each Conversion.Defined ↔ (Read.integer key).Defined p o := by
  show _ ↔ (∀ d, o.getObjectItemCaseSensitive key = some (.number d) → d.Converts 64) ∧
    ∀ s, o.getObjectItemCaseSensitive key = some (.string s) → PointDefined p s
  unfold jsonGetInt64
  cases o.getObjectItemCaseSensitive key with
  | none => simp
  | some item =>
    cases item with
    | number d => simp [each_toInt64]
    | string s => simp [Traced.each_bind, each_parseIntString]
    | _ => simp

theorem each_jsonGetInt (o : CJson) (key : CString) (default : Int) :
    (jsonGetInt p o key default).Each Conversion.Defined ↔ (Read.integer key).Defined p o := by
  rw [jsonGetInt, Traced.each_bind, each_jsonGetInt64]
  simp

end

end Converting

end Audd
