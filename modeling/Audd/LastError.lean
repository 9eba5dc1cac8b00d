import Audd.Decode
import Audd.Request

/-! The last-error state that reading a response leaves, whatever memory is refused: none for a
success, and code 0 for a failure of a response that is no API error. -/

namespace Audd

/-- The last-error state fits a status, when `said` tells whether the server sent an API error. -/
def Settled (said : Prop) (e : AuddError) (client : Client) : Prop :=
  (e = .ok → client.ErrorFree) ∧ (e ≠ .ok → ¬said → client.lastErrorCode = 0)

theorem Settled.mono {said said' : Prop} {e : AuddError} {client : Client}
    (h : Settled said e client) (himp : said → said') : Settled said' e client :=
  ⟨h.1, fun he hnot => h.2 he (mt himp hnot)⟩

theorem Client.ErrorFree.settled {said : Prop} {e : AuddError} {client : Client}
    (h : client.ErrorFree) : Settled said e client :=
  ⟨fun _ => h, fun _ _ => h.2⟩

theorem settled_of_code_zero {said : Prop} {e : AuddError} {client : Client} (he : e ≠ .ok)
    (h : client.lastErrorCode = 0) : Settled said e client :=
  ⟨fun hok => absurd hok he, fun _ _ => h⟩

section

variable (parse : CString → Option CJson) (p : Platform)

def errorStatus : CString × CJson := ("status", .string "error")

/-- A body that is JSON with a `status` member of `"error"`. -/
def SaysError (body : Option CString) : Prop :=
  ∃ json, body.bind parse = some json ∧ errorStatus ∈ json.members

theorem mem_members_of_get {o item : CJson} {key : CString}
    (h : o.getObjectItemCaseSensitive key = some item) : (key, item) ∈ o.members := by
  obtain ⟨before, after, hms, -⟩ := List.lookup_eq_some_iff.mp h
  rw [hms]
  simp

theorem mem_of_mem_deleteItem {o : CJson} {key : CString} {m : CString × CJson}
    (h : m ∈ (o.deleteItemFromObjectCaseSensitive key).members) : m ∈ o.members := by
  rw [CJson.members_deleteItem] at h
  exact List.mem_of_mem_eraseP h

theorem mem_of_mem_addString {o : CJson} {key value : CString} {m : CString × CJson}
    (h : m ∈ (o.addStringToObject key value).members) :
    m ∈ o.members ∨ m = (key, .string value) := by
  cases o with
  | object ms => exact (List.mem_append.mp h).imp_right List.mem_singleton.mp
  | _ => cases h

/-- The strip adds no status but a success, with memory or without. -/
theorem maybeWarnAndStrip_every (body : CJson) : (maybeWarnAndStrip p body).Every fun body' =>
    errorStatus ∈ body'.members → errorStatus ∈ body.members := by
  have hsuccess : errorStatus ≠ (("status" : CString), .string ("success" : CString)) := by
    intro h
    have htext := CJson.string.inj (congrArg Prod.snd h)
    exact absurd htext (by decide)
  unfold maybeWarnAndStrip
  split
  · exact id
  · split
    · exact id
    · split
      · exact id
      · dsimp only
        rw [AllocM.every_bind, AllocM.every_copy]
        constructor
        · intro h
          rcases mem_of_mem_addString h with h | h
          · split at h
            · exact mem_of_mem_deleteItem (mem_of_mem_deleteItem h)
            · exact mem_of_mem_deleteItem h
          · exact absurd h hsuccess
        · intro h
          split at h
          · exact mem_of_mem_deleteItem (mem_of_mem_deleteItem h)
          · exact mem_of_mem_deleteItem h

theorem raiseError_every (client : Client) (body : CJson) (customCatalogContext : Bool) :
    (raiseError p client body customCatalogContext).Every fun out => out.1 ≠ .ok := by
  have hcatalog : AuddError.customCatalogAccess ≠ .ok := by decide
  rw [raiseError]
  apply AllocM.every_bind_of_forall
  intro details
  dsimp only
  apply AllocM.every_bind_of_forall
  intro full
  apply AllocM.every_bind_of_forall
  intro client
  split
  · apply AllocM.every_bind_of_forall
    intro override
    exact AllocM.every_bind_of_forall fun client => hcatalog
  · exact sentinelForCode_ne_ok _

theorem raiseNonJson_every {said : Prop} (client : Client) (status : Int) :
    (raiseNonJson client status).Every fun out => Settled said out.1 out.2 := by
  have hserver : AuddError.server ≠ .ok := by decide
  have hserialization : AuddError.serialization ≠ .ok := by decide
  unfold raiseNonJson
  split
  · simp only [AllocM.every_bind, AllocM.every_copy, Client.setError_every, AllocM.every_pure]
    exact ⟨⟨settled_of_code_zero hserver rfl, settled_of_code_zero hserver rfl⟩,
      settled_of_code_zero hserver rfl, settled_of_code_zero hserver rfl⟩
  · simp only [AllocM.every_bind, Client.setError_every, AllocM.every_pure]
    exact ⟨settled_of_code_zero hserialization rfl, settled_of_code_zero hserialization rfl⟩

theorem classify_every {client : Client} (hfree : client.ErrorFree) (body : CJson)
    (customCatalogContext : Bool) :
    (classify p client body customCatalogContext).Every fun out =>
      Settled (errorStatus ∈ body.members) out.1 out.2.1 := by
  unfold classify
  split
  · exact Client.ErrorFree.settled hfree
  · split
    · rename_i herror
      have hget := (statusStr_eq_iff body (by decide)).mp herror
      apply (raiseError_every p client body customCatalogContext).mono
      intro out hne
      exact ⟨fun hok => absurd hok hne, fun _ hnot => absurd (mem_members_of_get hget) hnot⟩
    · have hserver : AuddError.server ≠ .ok := by decide
      simp only [AllocM.every_bind, AllocM.every_copy, Client.setError_every, AllocM.every_pure]
      exact ⟨⟨settled_of_code_zero hserver rfl, settled_of_code_zero hserver rfl⟩,
        settled_of_code_zero hserver rfl, settled_of_code_zero hserver rfl⟩

/-- The raw request's decoding reads no status, so it has no API error to tell. -/
theorem decodeTopLevel_settled {said : Prop} (client : Client) (resp : HttpResponse) :
    (decodeTopLevel client resp).Every fun out => Settled said out.1 out.2 := by
  unfold decodeTopLevel
  split
  · exact raiseNonJson_every client.clearError resp.status
  · exact Client.ErrorFree.settled client.clearError_errorFree

variable {parse}

/-- Decoding fits the last-error state to its status. -/
theorem decodeOrRaise_settled {resp : HttpResponse} {t : Transfer}
    (hbrought : resp.Brought parse t) (client : Client) (customCatalogContext : Bool) :
    (decodeOrRaise p client resp customCatalogContext).Every fun out =>
      Settled (SaysError parse t.body) out.1 out.2.1 := by
  unfold decodeOrRaise
  split
  · exact (raiseNonJson_every client.clearError resp.status).bind fun out hout => hout
  · rename_i body hjson
    apply (maybeWarnAndStrip_every p body).bind
    intro body' hbody
    apply (classify_every p client.clearError_errorFree body' customCatalogContext).bind
    intro out hout
    exact hout.mono fun hmem => ⟨body, hbrought.2 body hjson, hbody hmem⟩

end

/-- A request whose reading of a response fits the last-error state to its status. -/
def Request.Settles (parse : CString → Option CJson) {ρ : Type} (r : Request ρ) : Prop :=
  ∀ client resp t, resp.Brought parse t → (r.finish client resp).Every fun out =>
    Settled (SaysError parse t.body) out.1 out.2.1

end Audd
