import Audd.Request

/-! Double submission of metered requests.  A transfer is `Dirty` when it failed after some of the
request may have reached a server, and it `Slips` when its code is classified before the probes
are read.  Redirects are followed, so the codes of a connection that never opened can end a
transfer whose earlier hop carried the whole body. -/

namespace Audd

def Perform.Reached (p : Perform) : Prop := 0 < p.uploaded ∨ p.status ≠ 0

def Transfer.Dirty : Transfer → Prop
  | .noHandle => False
  | .performed p => p.code ≠ .ok ∧ p.Reached

/-- A transfer that may have reached a server, with a code that is pre-upload whatever was sent. -/
def Transfer.Slips : Transfer → Prop
  | .noHandle => False
  | .performed p => p.code.preTransfer = true ∧ p.Reached

/-- No attempt follows a failure that may have reached a server. -/
def SubmittedOnce {ω : Type} (env : Nat → AttemptEnv) (run : RetryRun ω) : Prop :=
  ∀ i, 1 ≤ i → i < run.attempts.length → ¬(env (i - 1)).transfer.Dirty

theorem ok_of_preTransfer {code : CURLcode} (h : code.preTransfer = true) : code ≠ .ok := by
  rintro rfl
  cases h

theorem not_performFailedBeforeUpload {p : Perform} (hreached : p.Reached)
    (hcode : p.code.preTransfer = false) : performFailedBeforeUpload p = false := by
  rw [← Bool.not_eq_true, performFailedBeforeUpload_iff, hcode]
  rintro (h | ⟨hu, hs⟩)
  · cases h
  · rcases hreached with h | h
    · omega
    · exact h hs

/-- The attempt of a transfer is marked as not uploaded only where nothing was sent, unless the
transfer slips. -/
theorem bodyUploaded_zero_iff (p : Perform) :
    ((Transfer.performed p).report.2.2 = 0 → p.uploaded = 0 ∧ p.status = 0) ↔
      ¬(Transfer.performed p).Slips := by
  constructor
  · rintro h ⟨hcode, hreached⟩
    have hpre : performFailedBeforeUpload p = true :=
      (performFailedBeforeUpload_iff p).mpr (.inl hcode)
    obtain ⟨hu, hs⟩ := h (by simp [Transfer.report, ok_of_preTransfer hcode, hpre])
    rcases hreached with hr | hr
    · omega
    · exact hr hs
  · intro hslips hzero
    by_contra hnot
    have hreached : p.Reached := by
      by_cases hu : p.uploaded = 0
      · exact .inr fun hs => hnot ⟨hu, hs⟩
      · exact .inl (by omega)
    have hcode : p.code.preTransfer = false := by
      rw [← Bool.not_eq_true]
      exact fun h => hslips ⟨h, hreached⟩
    have hpre := not_performFailedBeforeUpload hreached hcode
    by_cases hok : p.code = .ok <;> simp [Transfer.report, hok, hpre] at hzero

section

variable {cls : RetryClass} (hcls : cls = .recognition ∨ cls = .mutating)
include hcls

theorem Transfer.Slips.retried {t : Transfer} (h : t.Slips) : t.retried cls = true := by
  cases t with
  | noHandle => exact h.elim
  | performed p =>
    have hpre : performFailedBeforeUpload p = true :=
      (performFailedBeforeUpload_iff p).mpr (.inl h.1)
    rcases hcls with rfl | rfl <;>
      simp [Transfer.retried, Transfer.report, ok_of_preTransfer h.1, hpre, shouldRetry]

theorem Transfer.Dirty.slips {t : Transfer} (h : t.Dirty) (hretried : t.retried cls = true) :
    t.Slips := by
  cases t with
  | noHandle => exact h.elim
  | performed p =>
    obtain ⟨hok, hreached⟩ := h
    refine ⟨?_, hreached⟩
    by_contra hcode
    have hpre := not_performFailedBeforeUpload hreached (by simpa using hcode)
    rcases hcls with rfl | rfl <;>
      simp [Transfer.retried, Transfer.report, hok, hpre, shouldRetry] at hretried

end

/-- Metered requests over any transfers: no attempt follows a failure that may have reached a
server, and a failure is marked as not uploaded only where nothing was sent, exactly when no
transfer slips where the runner may still go on from it. -/
theorem metered_not_resubmitted_iff (parse : CString → Option CJson) (env : Nat → AttemptEnv)
    (c : Client) (url : CString) (form : HttpForm) (timeout : Int) (cls : RetryClass)
    (hcls : cls = .recognition ∨ cls = .mutating) (resp : HttpResponse) :
    let run := retryDo cls c.options
      (posting env (posts env fun c t => httpPost parse c url form timeout t)) (c, 0) resp
    (SubmittedOnce env run ↔
      (c.closed = true ∨ ∀ i : Nat, 1 ≤ i → (i : Int) < c.options.attemptLimit →
        (∀ j, 1 ≤ j → j < i → (env (j - 1)).transfer.retried cls = true) →
          ¬(env (i - 1)).transfer.Slips)) ∧
    ∀ p c' tape,
      ((((httpPost parse c' url form timeout (.performed p)).run tape).1.attempt.bodyUploaded = 0 →
        p.uploaded = 0 ∧ p.status = 0) ↔ ¬(Transfer.performed p).Slips) := by
  intro run
  refine ⟨?_, fun p c' tape => ?_⟩
  · cases hopen : c.closed with
    | true =>
      have hrun : run = _ := posting_closed_run env _ cls c.options resp hopen
      rw [hrun]
      simp [SubmittedOnce, RetryRun.attempts]
    | false =>
      obtain ⟨k, hk, hattempts, -⟩ := posting_runs env
        (httpPost_faithful parse env url form timeout) cls c.options resp hopen
      have hlength : run.attempts.length = k := by
        have hmade : run.attempts = _ := hattempts
        rw [hmade, List.length_map, List.length_range]
      rw [SubmittedOnce, hlength]
      have hnext := hk.lt_iff (attemptLimit_pos c.options)
      constructor
      · refine fun h => .inr fun i hi hlimit hbefore hslips => ?_
        have hretried : ∀ j, 1 ≤ j → j ≤ i → (env (j - 1)).transfer.retried cls = true := by
          intro j hj hji
          rcases Nat.lt_or_ge j i with hlt | hge
          · exact hbefore j hj hlt
          · rw [show j = i by omega]
            exact hslips.retried hcls
        refine h i hi ((hnext i).mpr ⟨hlimit, hretried⟩) ?_
        cases ht : (env (i - 1)).transfer with
        | noHandle => rw [ht] at hslips; exact hslips
        | performed p => rw [ht] at hslips; exact ⟨ok_of_preTransfer hslips.1, hslips.2⟩
      · rintro (h | h) i hi hik hdirty
        · cases h
        · obtain ⟨hlimit, hretried⟩ := (hnext i).mp hik
          exact h i hi hlimit (fun j hj hji => hretried j hj (by omega))
            (hdirty.slips hcls (hretried i hi le_rfl))
  · have hreport := ((httpPost_spec parse c' url form timeout (.performed p)).run tape).1
    rw [← bodyUploaded_zero_iff, ← hreport]
    rfl

def refused : Nat → AttemptEnv :=
  fun _ => ⟨plenty, .performed ⟨[⟨0, 0⟩], .couldntConnect, [], none, none⟩⟩

theorem refused_submittedOnce : SubmittedOnce refused
    (retryDo .recognition (Client.new none none none).options
      (posting refused (posts refused fun c t =>
        httpPost (fun _ => none) c [] ⟨none, none⟩ 60 t))
      (Client.new none none none, 0) .zero) :=
  (metered_not_resubmitted_iff (fun _ => none) refused (Client.new none none none) []
    ⟨none, none⟩ 60 .recognition (.inl rfl) .zero).1.mpr
    (.inr fun _ _ _ _ h => h.2.elim (absurd · (by decide)) (absurd rfl ·))

/-- The first attempt uploads its body and is redirected to a host that refuses the connection;
the second is answered. -/
def redirected : Nat → AttemptEnv
  | 0 => ⟨plenty, .performed ⟨[⟨8192, 307⟩, ⟨0, 0⟩], .couldntConnect, [], none, none⟩⟩
  | _ => ⟨plenty, .performed ⟨[⟨8192, 200⟩], .ok, [], none, none⟩⟩

theorem redirected_resubmitted : ¬SubmittedOnce redirected
    (retryDo .recognition (Client.new none none none).options
      (posting redirected (posts redirected fun c t =>
        httpPost (fun _ => none) c [] ⟨none, none⟩ 60 t))
      (Client.new none none none, 0) .zero) :=
  fun h => h 1 (by decide) (by decide) ⟨by decide, .inl (by decide)⟩

end Audd
