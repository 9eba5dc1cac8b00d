import Audd.JsonEdits

/-! `maybe_warn_and_strip` in memory.  It refines the one on trees, where the string that it adds is
one request: in memory it is three, of which any may be refused. -/

namespace Audd

namespace Items

open HeapM

variable (p : Platform)

/-- What `maybe_warn_and_strip` does to a deprecation. -/
def swallowError (body : Option Nat) : HeapM Cell Unit := do
  deleteItemFromObjectCaseSensitive body "error"
  let status ← getObjectItemCaseSensitive body "status"
  whenever (status ≠ none) (deleteItemFromObjectCaseSensitive body "status")
  let _ ← addStringToObject body "status" "success"
  pure ()

/-- `maybe_warn_and_strip`. -/
def maybeWarnAndStrip (body : Option Nat) : HeapM Cell Unit := do
  let err ← getObjectItemCaseSensitive body "error"
  if err = none then pure ()
  else do
    let e ← node err
    if !e.isType cJSON_Object then pure ()
    else do
      let code ← getObjectItemCaseSensitive err "error_code"
      if code = none then pure ()
      else do
        let c ← node code
        if !c.isType cJSON_Number ∨ c.valuedouble.toInt p ≠ kDeprecatedParamsCode then pure ()
        else do
          let result ← getObjectItemCaseSensitive body "result"
          if result = none then pure ()
          else do
            let r ← node result
            if r.isType cJSON_NULL then pure ()
            else swallowError body

/-- `swallowError` on a tree, with its requests. -/
def swallowRequests (body : CJson) : AllocM CJson := do
  let body := (body.deleteItemFromObjectCaseSensitive
    "error").deleteItemFromObjectCaseSensitive "status"
  match ← stringMemberRequests with
  | some _ => pure (body.addStringToObject "status" "success")
  | none => pure body

/-- `maybeWarnAndStrip`, with all of its requests. -/
def stripRequests (body : CJson) : AllocM CJson :=
  match body.errorObject.bind CJson.errorCode with
  | none => pure body
  | some code =>
    if code.toInt p ≠ kDeprecatedParamsCode then pure body
    else if !body.hasResult then pure body
    else swallowRequests body

theorem run_stringMemberRequests (tape : Tape) : (stringMemberRequests.run tape).1 =
    if tape 0 ∧ tape 1 ∧ tape 2 then some () else none := by
  cases h0 : tape 0 <;> cases h1 : tape 1 <;> cases h2 : tape 2 <;>
    simp [stringMemberRequests, stringRequests, AllocM.run_bind, h0, h1, h2]

/-- The string is added when its three requests are granted. -/
theorem run_stripRequests (body : CJson) (tape : Tape) : ((stripRequests p body).run tape).1 =
    ((Audd.maybeWarnAndStrip p body).run fun _ => tape 0 && tape 1 && tape 2).1 := by
  unfold stripRequests Audd.maybeWarnAndStrip
  cases body.errorObject.bind CJson.errorCode with
  | none => rfl
  | some code =>
    dsimp only
    split_ifs
    · rfl
    · rfl
    · rw [swallowRequests, AllocM.run_bind, AllocM.run_bind, run_stringMemberRequests,
        AllocM.run_copy]
      cases hs : (body.deleteItemFromObjectCaseSensitive "error").getObjectItemCaseSensitive
          "status" with
      | some item => cases tape 0 <;> cases tape 1 <;> cases tape 2 <;> rfl
      | none =>
        rw [CJson.deleteItem_of_get_none hs]
        cases tape 0 <;> cases tape 1 <;> cases tape 2 <;> rfl

/-! ### Members of members -/

section

variable {α β : Type} {m : Footprint Cell} {y : AllocM β} {Q : α → β → Footprint Cell → Prop}
  {x it inner : Item} {name : Option Str} {prev next : Option Nat} {key key' : CString}

end

/-! ### The strip refines -/

end Items

end Audd
