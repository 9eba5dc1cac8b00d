import Audd.Lib.Stores
import Audd.Recognize

/-! The assembler of recognition fields, down to its stores: every slot of the array that it writes,
in order.  The stores are those of `buildRecognizeFields` from slot 0 on and then the terminator,
all below the capacity. -/

namespace Audd

/-- The state of the assembler: the slots used, and the stores made. -/
structure FieldStores where
  f : Nat
  stores : List (Nat × Option CString)

namespace FieldStores

/-- `fields[f++] = s`. -/
def put (out : FieldStores) (s : CString) : FieldStores :=
  ⟨out.f + 1, out.stores ++ [(out.f, some s)]⟩

def putPair (out : FieldStores) (key value : CString) : FieldStores := (out.put key).put value

def putInt (out : FieldStores) (key : CString) (n : Int) : FieldStores :=
  if n ≥ 0 then out.putPair key (decimal n) else out

def putBool (out : FieldStores) (key : CString) (n : Int) : FieldStores :=
  if n ≥ 0 then out.putPair key (if n ≠ 0 then "true" else "false" : String) else out

def putText (out : FieldStores) (key : CString) (s : Option CString) : FieldStores :=
  match s with
  | none | some [] => out
  | some text => out.putPair key text

end FieldStores

/-- The extras loop. -/
def storeExtras (typedKeys : List CString) (capacity : Nat) :
    List (CString × CString) → FieldStores → FieldStores
  | [], out => out
  | (k, v) :: rest, out =>
    if k ∈ typedKeys then storeExtras typedKeys capacity rest out
    else if out.f + 2 ≥ capacity then out
    else storeExtras typedKeys capacity rest (out.putPair k v)

def storeOptions (ctx : RecognizeCtx) (out : FieldStores) : FieldStores :=
  match ctx.isEnterprise, ctx.eopts with
  | true, some o =>
    let out := out.putInt "skip" o.skip
    let out := out.putInt "every" o.every
    let out := out.putInt "limit" o.limit
    let out := out.putInt "skip_first_seconds" o.skipFirstSeconds
    let out := out.putBool "use_timecode" o.useTimecode
    out.putBool "accurate_offsets" o.accurateOffsets
  | _, _ => out

/-- `audd_build_recognize_fields` as its stores; no typed field is checked against the capacity. -/
def storeRecognizeFields (ctx : RecognizeCtx) (capacity : Nat) : FieldStores :=
  let out := storeExtras (collectTypedKeys ctx 9) capacity (extrasPairs ctx.extraParameters) ⟨0, []⟩
  let out := storeOptions ctx out
  let out := out.putText "return" ctx.returnCsv
  let out := out.putText "market" ctx.market
  let out := match ctx.url with
    | some url => out.putPair "url" url
    | none => out
  ⟨out.f, out.stores ++ [(out.f, none)]⟩

/-! ### What the stores are -/

namespace FieldStores

/-- The slots used so far hold `values`, each stored once and in order. -/
structure Holds (out : FieldStores) (values : List CString) : Prop where
  f : out.f = values.length
  stores : out.stores = Stores.consecutive 0 (values.map some)

theorem Holds.empty : Holds ⟨0, []⟩ [] := ⟨rfl, rfl⟩

variable {out : FieldStores} {values : List CString}

theorem Holds.put (h : out.Holds values) (s : CString) : (out.put s).Holds (values ++ [s]) where
  f := by simp [FieldStores.put, h.f]
  stores := by
    rw [List.map_append, Stores.consecutive_append, List.length_map, FieldStores.put, h.stores, h.f]
    simp [Stores.consecutive]

theorem Holds.putPair (h : out.Holds values) (key value : CString) :
    (out.putPair key value).Holds (values ++ flatten [(key, value)]) := by
  have := (h.put key).put value
  rwa [List.append_assoc] at this

theorem Holds.putInt (h : out.Holds values) (key : CString) (n : Int) :
    (out.putInt key n).Holds (values ++ flatten (intField key n)) := by
  unfold FieldStores.putInt intField
  split
  · exact h.putPair key _
  · simpa [flatten] using h

theorem Holds.putBool (h : out.Holds values) (key : CString) (n : Int) :
    (out.putBool key n).Holds (values ++ flatten (boolField key n)) := by
  unfold FieldStores.putBool boolField
  split
  · split <;> exact h.putPair key _
  · simpa [flatten] using h

theorem Holds.putText (h : out.Holds values) (key : CString) (s : Option CString) :
    (out.putText key s).Holds (values ++ flatten (textField key s)) := by
  rcases s with _ | _ | ⟨c, s⟩
  · simpa [FieldStores.putText, textField, flatten] using h
  · simpa [FieldStores.putText, textField, flatten] using h
  · exact h.putPair key _

theorem Holds.storeExtras (h : out.Holds values) (typedKeys : List CString) (capacity : Nat)
    (extras : List (CString × CString)) : (storeExtras typedKeys capacity extras out).Holds
      (values ++ flatten (emitExtras typedKeys capacity values.length extras)) := by
  induction extras generalizing out values with
  | nil => simpa [Audd.storeExtras, emitExtras, flatten] using h
  | cons e extras ih =>
    obtain ⟨k, v⟩ := e
    rw [Audd.storeExtras, emitExtras, h.f]
    split
    · exact ih h
    · split
      · simpa [flatten] using h
      · have := ih (h.putPair k v)
        rw [List.append_assoc, ← flatten_append] at this
        simpa [flatten] using this

theorem Holds.storeOptions (h : out.Holds values) (ctx : RecognizeCtx) :
    (storeOptions ctx out).Holds (values ++ flatten (typedFields.options ctx)) := by
  unfold Audd.storeOptions typedFields.options
  rcases ctx.isEnterprise, ctx.eopts with ⟨_ | _, _ | o⟩
  · simpa [flatten] using h
  · simpa [flatten] using h
  · simpa [flatten] using h
  · have := (((((h.putInt "skip" o.skip).putInt "every" o.every).putInt "limit" o.limit).putInt
      "skip_first_seconds" o.skipFirstSeconds).putBool "use_timecode" o.useTimecode).putBool
      "accurate_offsets" o.accurateOffsets
    simpa only [flatten_append, List.append_assoc] using this

end FieldStores

/-- The stores of the assembler are those of its fields and then of the terminator. -/
theorem storeRecognizeFields_eq (ctx : RecognizeCtx) (capacity : Nat) :
    storeRecognizeFields ctx capacity =
      ⟨(buildRecognizeFields ctx capacity).length,
        Stores.consecutive 0 ((buildRecognizeFields ctx capacity).map some ++ [none])⟩ := by
  have hextras := FieldStores.Holds.empty.storeExtras (collectTypedKeys ctx 9) capacity
    (extrasPairs ctx.extraParameters)
  have htexts := ((hextras.storeOptions ctx).putText "return" ctx.returnCsv).putText "market"
    ctx.market
  have hfields : ∃ out : FieldStores, storeRecognizeFields ctx capacity =
      ⟨out.f, out.stores ++ [(out.f, none)]⟩ ∧ out.Holds (buildRecognizeFields ctx capacity) := by
    refine ⟨_, rfl, ?_⟩
    unfold buildRecognizeFields typedFields
    cases ctx.url with
    | none => simpa [flatten_append, flatten] using htexts
    | some url => simpa [flatten_append, flatten] using htexts.putPair "url" url
  obtain ⟨out, heq, hout⟩ := hfields
  rw [heq, hout.f, hout.stores, Stores.consecutive_append, List.length_map, Nat.zero_add]
  rfl

/-! ### The assembled fields -/

/-- The typed fields in order, each with its value where the context gives it one. -/
def RecognizeCtx.typedTable (ctx : RecognizeCtx) : List (CString × Option CString) :=
  [("skip", (option (·.skip)).map decimal),
    ("every", (option (·.every)).map decimal),
    ("limit", (option (·.limit)).map decimal),
    ("skip_first_seconds", (option (·.skipFirstSeconds)).map decimal),
    ("use_timecode", (option (·.useTimecode)).map flag),
    ("accurate_offsets", (option (·.accurateOffsets)).map flag),
    ("return", ctx.returnCsv.filter (· ≠ [])),
    ("market", ctx.market.filter (· ≠ [])),
    ("url", ctx.url)]
where
  option (read : EnterpriseOptions → Int) : Option Int :=
    if ctx.isEnterprise then (ctx.eopts.map read).filter (0 ≤ ·) else none
  flag (n : Int) : CString := if n ≠ 0 then "true" else "false"

/-- The pairs of a table that have a value. -/
def valued (table : List (CString × Option CString)) : List (CString × CString) :=
  table.filterMap fun entry => entry.2.map fun v => (entry.1, v)

theorem valued_cons (key : CString) (v : Option CString)
    (table : List (CString × Option CString)) :
    valued ((key, v) :: table) = (v.map fun v => (key, v)).toList ++ valued table := by
  cases v <;> rfl

theorem intField_eq (key : CString) (n : Int) : intField key n =
    (((some n).filter (0 ≤ ·)).map decimal).toList.map fun v => (key, v) := by
  unfold intField
  rw [Option.filter_some]
  by_cases h : 0 ≤ n <;> simp [h]

theorem boolField_eq (key : CString) (n : Int) : boolField key n =
    (((some n).filter (0 ≤ ·)).map RecognizeCtx.typedTable.flag).toList.map fun v => (key, v) := by
  unfold boolField RecognizeCtx.typedTable.flag
  rw [Option.filter_some]
  by_cases h : 0 ≤ n <;> simp [h]

theorem textField_eq (key : CString) (s : Option CString) :
    textField key s = (s.filter (· ≠ [])).toList.map fun v => (key, v) := by
  rcases s with _ | _ | ⟨c, s⟩ <;> rfl

/-- The typed fields are the entries of the table that have a value. -/
theorem typedFields_eq_valued (ctx : RecognizeCtx) : typedFields ctx = valued ctx.typedTable := by
  unfold typedFields typedFields.options RecognizeCtx.typedTable RecognizeCtx.typedTable.option
  simp only [valued_cons, textField_eq, intField_eq, boolField_eq, Option.toList_map]
  rcases ctx.isEnterprise, ctx.eopts with ⟨_ | _, _ | o⟩ <;> simp [valued]

/-- The caller's list of extras: pairs of a key and a value, and perhaps a last key without one. -/
structure RecognizeCtx.Extras (ctx : RecognizeCtx) (extras : List (CString × CString))
    (unpaired : List CString) : Prop where
  list : ctx.extraParameters.getD [] = flatten extras ++ unpaired
  unpaired : unpaired.length ≤ 1

theorem RecognizeCtx.Extras.pairs {ctx : RecognizeCtx} {extras : List (CString × CString)}
    {unpaired : List CString} (h : ctx.Extras extras unpaired) :
    extrasPairs ctx.extraParameters = extras := by
  rw [extrasPairs, h.list, pairs_flatten_append extras h.unpaired]

/-- Every list is one of extras.  The assembler writes those of them that no typed field shadows, in
order, and then the typed fields that have a value; every store is within the capacity, and the slot
after the fields ends them. -/
theorem storeRecognizeFields_assembles (ctx : RecognizeCtx) :
    (∃ extras unpaired, ctx.Extras extras unpaired) ∧
    ∀ extras unpaired, ctx.Extras extras unpaired →
      let capacity := recognizeFieldsCapacity ctx
      let out := storeRecognizeFields ctx capacity
      let typed := valued ctx.typedTable
      let kept := extras.filter fun e => e.1 ∉ typed.map Prod.fst
      let fields := flatten (kept ++ typed)
      out.stores = Stores.consecutive 0 (fields.map some ++ [none]) ∧
      out.f = fields.length ∧ out.f % 2 = 0 ∧ out.f < capacity ∧
      (∀ store ∈ out.stores, store.1 < capacity) ∧
      (Stores.apply (List.replicate capacity none) out.stores)[out.f]? = some none ∧
      (typed.map Prod.fst).Nodup ∧
      collectTypedKeys ctx 9 = typed.map Prod.fst := by
  refine ⟨?_, fun extras unpaired hextras => ?_⟩
  · obtain ⟨extras, unpaired, hlist, hlength⟩ :=
      exists_flatten_append (ctx.extraParameters.getD [])
    exact ⟨extras, unpaired, hlist, hlength⟩
  intro capacity out typed kept fields
  have htyped : typedFields ctx = typed := typedFields_eq_valued ctx
  have hkept : keptExtras ctx = kept := by
    rw [keptExtras, htyped, hextras.pairs]
  have hfields : buildRecognizeFields ctx capacity = fields := by
    rw [buildRecognizeFields_eq, hkept, htyped]
  have hfits : fields.length < capacity := hfields ▸ buildRecognizeFields_fits ctx
  have hout : out = ⟨fields.length, Stores.consecutive 0 (fields.map some ++ [none])⟩ := by
    rw [← hfields]
    exact storeRecognizeFields_eq ctx capacity
  have hlength : (fields.map some ++ [(none : Option CString)]).length = fields.length + 1 := by
    simp
  have heven : fields.length % 2 = 0 := by
    rw [flatten_length]
    omega
  rw [hout]
  refine ⟨rfl, rfl, heven, hfits, ?_, ?_, ?_, ?_⟩
  · intro store hstore
    have := (Stores.consecutive_index hstore).2
    omega
  · rw [Stores.apply_consecutive (by rw [hlength, List.length_replicate]; omega)]
    simp
  · have := (typedFields_sublist ctx).nodup (by decide : typedNames.Nodup)
    rwa [htyped] at this
  · rw [collectTypedKeys_eq, htyped]

/-- An extra that is kept, one that a typed field shadows, and a key without a value. -/
def shadowing : RecognizeCtx :=
  ⟨true, some .default, some "timecode", none, some "u", none, none,
    some ["q", "1", "return", "x", "last"]⟩

theorem storeRecognizeFields_assembles_shadowing :
    (storeRecognizeFields shadowing (recognizeFieldsCapacity shadowing)).stores =
      ([(0, some "q"), (1, some "1"), (2, some "accurate_offsets"), (3, some "true"),
        (4, some "return"), (5, some "timecode"), (6, some "url"), (7, some "u"), (8, none)] :
        List (Nat × Option CString)) := by
  have hextras : shadowing.Extras [("q", "1"), ("return", "x")] ["last"] := ⟨rfl, by decide⟩
  exact ((storeRecognizeFields_assembles shadowing).2 _ _ hextras).1.trans (by decide)

end Audd
