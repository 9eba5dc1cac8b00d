import Audd.Http
import Mathlib.Order.Bounds.Basic

/-! The retry runner.  `retryDo` is `audd_retry_do` over any world: what an attempt does to the
world, and how a closed client shows in it, are the `Runner`.  The policy that the runner keeps is
stated apart from it, as `Retryable`, and `retryDo_exact` says what a run over a script of outcomes
does: it makes attempts up to the first one that is not retryable, or the last one allowed. -/

namespace Audd

inductive RetryClass
  | read
  | recognition
  | mutating
  | none
deriving DecidableEq, Repr

/-! ### The runner -/

def shouldRetry (cls : RetryClass) (rc status bodyUploaded : Int) : Bool :=
  if rc = 0 then
    if status < 400 then false
    else
      match cls with
      | .read => status == 408 || status == 429 || 500 ≤ status
      | .recognition => 500 ≤ status
      | .mutating => false
      | .none => false
  else
    match cls with
    | .read => true
    | .recognition | .mutating => bodyUploaded == 0
    | .none => false

inductive RetryEvent
  | free (resp : HttpResponse)
  | attempt (a : Attempt)
  | sleep (ms : Option Int)  -- `none` where the arithmetic of the delay overflows

/-- What an attempt does to the world, and the client's `closed` flag in it. -/
structure Runner (ω : Type) where
  closed : ω → Bool
  onClosed : ω → ω
  attempt : ω → Attempt × ω

structure RetryRun (ω : Type) where
  rc : Int
  resp : HttpResponse
  events : List RetryEvent
  world : ω

def Options.attemptLimit (o : Options) : Int := if o.maxAttempts > 0 then o.maxAttempts else 3

def Options.backoff (o : Options) : Int := if o.backoffMs > 0 then o.backoffMs else 500

/-- `backoff_ms * (long)(1 << (attempt_n - 1))`: the shift is in `int`, the product in `long`. -/
def retryDelay (backoffMs : Int) (attemptN : Nat) : Option Int :=
  let shifted : Int := 2 ^ (attemptN - 1)
  if InRange 32 shifted ∧ InRange 64 (backoffMs * shifted) then some (backoffMs * shifted) else none

section

variable {ω : Type} (cls : RetryClass) (backoffMs : Int) (r : Runner ω)

/-- The loop from attempt `attemptN` on, of the `left` that remain up to `limit`. -/
def retryLoop (limit : Nat) : (left attemptN : Nat) → ω → HttpResponse → RetryRun ω
  | 0, _, w, resp => ⟨0, resp, [], w⟩
  | left + 1, attemptN, w, resp =>
    if r.closed w then ⟨-1, resp, [], r.onClosed w⟩
    else
      let (a, w) := r.attempt w
      if attemptN = limit then ⟨a.rc, a.resp, [.free resp, .attempt a], w⟩
      else if !shouldRetry cls a.rc a.resp.status a.bodyUploaded then
        ⟨a.rc, a.resp, [.free resp, .attempt a], w⟩
      else
        let rest := retryLoop limit left (attemptN + 1) w a.resp
        { rest with
          events :=
            [.free resp, .attempt a, .sleep (retryDelay backoffMs attemptN)] ++ rest.events }

end

def retryDo {ω : Type} (cls : RetryClass) (options : Options) (r : Runner ω) (w : ω)
    (resp : HttpResponse) : RetryRun ω :=
  let limit := options.attemptLimit.toNat
  retryLoop cls options.backoff r limit limit 1 w resp

/-! ### The policy -/

/-- What each class allows to be retried: a response of certain statuses, or a failure, which for
the metered classes must have come before the body was uploaded. -/
inductive Retryable : RetryClass → Attempt → Prop
  | readStatus {a : Attempt} : a.rc = 0 → (a.resp.status = 408 ∨ a.resp.status = 429 ∨
      500 ≤ a.resp.status) → Retryable .read a
  | readFailure {a : Attempt} : a.rc ≠ 0 → Retryable .read a
  | recognitionStatus {a : Attempt} : a.rc = 0 → 500 ≤ a.resp.status → Retryable .recognition a
  | recognitionFailure {a : Attempt} : a.rc ≠ 0 → a.bodyUploaded = 0 → Retryable .recognition a
  | mutatingFailure {a : Attempt} : a.rc ≠ 0 → a.bodyUploaded = 0 → Retryable .mutating a

theorem shouldRetry_iff (cls : RetryClass) (a : Attempt) :
    shouldRetry cls a.rc a.resp.status a.bodyUploaded = true ↔ Retryable cls a := by
  constructor
  · intro h
    unfold shouldRetry at h
    by_cases hrc : a.rc = 0
    · rw [if_pos hrc] at h
      by_cases hs : a.resp.status < 400
      · simp [hs] at h
      · rw [if_neg hs] at h
        cases cls with
        | read => exact .readStatus hrc (by simpa [or_assoc] using h)
        | recognition => exact .recognitionStatus hrc (by simpa using h)
        | mutating => cases h
        | none => cases h
    · rw [if_neg hrc] at h
      cases cls with
      | read => exact .readFailure hrc
      | recognition => exact .recognitionFailure hrc (by simpa using h)
      | mutating => exact .mutatingFailure hrc (by simpa using h)
      | none => cases h
  · intro h
    cases h with
    | readStatus hrc hs =>
      have hs' : ¬a.resp.status < 400 := by omega
      simp only [shouldRetry, hrc, if_pos, hs', if_false]
      simpa [or_assoc] using hs
    | readFailure hrc => simp [shouldRetry, hrc]
    | recognitionStatus hrc hs =>
      have hs' : ¬a.resp.status < 400 := by omega
      simp [shouldRetry, hrc, hs', hs]
    | recognitionFailure hrc hu => simp [shouldRetry, hrc, hu]
    | mutatingFailure hrc hu => simp [shouldRetry, hrc, hu]

/-! ### Runs -/

namespace Runner

variable {ω : Type} (r : Runner ω) (w : ω)

def worldAt : Nat → ω
  | 0 => w
  | n + 1 => (r.attempt (worldAt n)).2

def outcome (n : Nat) : Attempt := (r.attempt (r.worldAt w (n - 1))).1

def Open : Prop := ∀ n, r.closed (r.worldAt w n) = false

/-- A run stops after attempt `k`: the last one allowed, or one that is not retryable. -/
def StopsAt (cls : RetryClass) (limit k : Nat) : Prop :=
  k = limit ∨ ¬Retryable cls (r.outcome w k)

end Runner

def RetryRun.attempts {ω : Type} (run : RetryRun ω) : List Attempt :=
  run.events.filterMap fun
    | .attempt a => some a
    | _ => none

/-- The events of `count` attempts from attempt `n` on, when `resp` holds the response before
them: the response is freed before the next attempt, and a sleep follows every attempt but the
last. -/
def scriptEvents (backoffMs : Int) (o : Nat → Attempt) :
    (count n : Nat) → HttpResponse → List RetryEvent
  | 0, _, _ => []
  | 1, n, resp => [.free resp, .attempt (o n)]
  | count + 1, n, resp => [.free resp, .attempt (o n), .sleep (retryDelay backoffMs n)] ++
      scriptEvents backoffMs o count (n + 1) (o n).resp

section

variable {ω : Type} {r : Runner ω} {w : ω}

theorem retryLoop_exact (cls : RetryClass) (backoffMs : Int) (limit : Nat) (hopen : r.Open w)
    (left n : Nat) (resp : HttpResponse) (hleft : 0 < left) (hlimit : n + left = limit) :
    ∃ k, n < k ∧ k ≤ limit ∧ r.StopsAt w cls limit k ∧
      (∀ i, n < i → i < k → ¬r.StopsAt w cls limit i) ∧
      retryLoop cls backoffMs r limit left (n + 1) (r.worldAt w n) resp =
        ⟨(r.outcome w k).rc, (r.outcome w k).resp,
          scriptEvents backoffMs (r.outcome w) (k - n) (n + 1) resp, r.worldAt w k⟩ := by
  induction left generalizing n resp with
  | zero => exact absurd hleft (by decide)
  | succ left ih =>
    have hone : n + 1 - n = 1 := by omega
    by_cases hlast : n + 1 = limit
    · refine ⟨n + 1, by omega, by omega, .inl hlast, fun i h1 h2 => by omega, ?_⟩
      simp [retryLoop, hopen n, hlast.symm, hone, scriptEvents, Runner.outcome, Runner.worldAt]
    · by_cases hretry : Retryable cls (r.outcome w (n + 1))
      · obtain ⟨k, hk, hkl, hstop, hmin, hrun⟩ :=
          ih (n + 1) (r.outcome w (n + 1)).resp (by omega) (by omega)
        refine ⟨k, by omega, hkl, hstop, fun i h1 h2 => ?_, ?_⟩
        · by_cases hi : i = n + 1
          · subst hi
            exact fun h => h.elim hlast fun hn => hn hretry
          · exact hmin i (by omega) h2
        · have hshould := (shouldRetry_iff cls (r.outcome w (n + 1))).mpr hretry
          have hcount : k - n = k - (n + 1) - 1 + 1 + 1 := by omega
          have hcount' : k - (n + 1) = k - (n + 1) - 1 + 1 := by omega
          rw [hcount, scriptEvents, ← hcount']
          · simp only [Runner.outcome, Nat.add_sub_cancel] at hshould hrun ⊢
            simp only [retryLoop, hopen n, Bool.false_eq_true, if_false, hlast, hshould,
              Bool.not_true]
            rw [show (r.attempt (r.worldAt w n)).2 = r.worldAt w (n + 1) from rfl, hrun]
          · omega
      · refine ⟨n + 1, by omega, by omega, .inr hretry, fun i h1 h2 => by omega, ?_⟩
        have hshould : shouldRetry cls (r.outcome w (n + 1)).rc
            (r.outcome w (n + 1)).resp.status (r.outcome w (n + 1)).bodyUploaded = false := by
          rw [← Bool.not_eq_true, shouldRetry_iff]
          exact hretry
        simp only [Runner.outcome, Nat.add_sub_cancel] at hshould
        simp [retryLoop, hopen n, hlast, hshould, hone, scriptEvents, Runner.outcome,
          Runner.worldAt]

theorem attemptLimit_pos (options : Options) : 0 < options.attemptLimit := by
  unfold Options.attemptLimit
  split <;> omega

/-- What `retryDo` leaves with an open client: the outcome of the first attempt that it stops at,
after the attempts and frees up to there. -/
theorem retryDo_runs (cls : RetryClass) (options : Options) (r : Runner ω) (w : ω)
    (resp : HttpResponse) (hopen : r.Open w) :
    ∃ k, IsLeast {i : Nat | 1 ≤ i ∧ ((i : Int) = options.attemptLimit ∨
        ¬Retryable cls (r.outcome w i))} k ∧
      retryDo cls options r w resp = ⟨(r.outcome w k).rc, (r.outcome w k).resp,
        scriptEvents options.backoff (r.outcome w) k 1 resp, r.worldAt w k⟩ := by
  have hpos := attemptLimit_pos options
  have hcast : ∀ i : Nat, (i : Int) = options.attemptLimit ↔ i = options.attemptLimit.toNat := by
    intro i
    omega
  obtain ⟨k, hk, -, hstop, hmin, hrun⟩ := retryLoop_exact cls options.backoff
    options.attemptLimit.toNat hopen options.attemptLimit.toNat 0 resp (by omega) (by omega)
  refine ⟨k, ⟨⟨hk, by rw [hcast]; exact hstop⟩, fun i ⟨hi, hs⟩ => ?_⟩, hrun⟩
  rw [hcast] at hs
  by_contra hlt
  exact hmin i hi (by omega) hs

end

theorem attempts_append (before after : List RetryEvent) {ω : Type} (rc : Int)
    (resp : HttpResponse) (w : ω) : (⟨rc, resp, before ++ after, w⟩ : RetryRun ω).attempts =
      (⟨rc, resp, before, w⟩ : RetryRun ω).attempts ++
        (⟨rc, resp, after, w⟩ : RetryRun ω).attempts := by
  simp [RetryRun.attempts]

theorem attempts_scriptEvents {ω : Type} (backoffMs : Int) (o : Nat → Attempt) (rc : Int)
    (final : HttpResponse) (w : ω) (count n : Nat) (resp : HttpResponse) :
    (⟨rc, final, scriptEvents backoffMs o count n resp, w⟩ : RetryRun ω).attempts =
      (List.range' n count).map o := by
  induction count, n, resp using scriptEvents.induct o with
  | case1 n resp => rfl
  | case2 n resp => rfl
  | case3 n resp count hcount ih =>
    rw [scriptEvents, attempts_append, ih]
    · rfl
    · exact hcount

theorem range_map_split (o : Nat → Attempt) {k : Nat} (hk : 1 ≤ k) :
    (List.range' 1 k).map o = (List.range' 1 (k - 1)).map o ++ [o k] := by
  obtain ⟨m, rfl⟩ : ∃ m, k = m + 1 := ⟨k - 1, by omega⟩
  rw [List.range'_concat, List.map_append, Nat.add_sub_cancel]
  simp [Nat.add_comm]

/-! ### A script of outcomes -/

def scripted (script : Nat → Attempt) : Runner Nat where
  closed _ := false
  onClosed n := n
  attempt n := (script n, n + 1)

theorem scripted_worldAt (script : Nat → Attempt) (n : Nat) :
    (scripted script).worldAt 0 n = n := by
  induction n with
  | zero => rfl
  | succ n ih => rw [Runner.worldAt, ih]; rfl

theorem scripted_outcome (script : Nat → Attempt) :
    (scripted script).outcome 0 = fun i => script (i - 1) := by
  funext i
  rw [Runner.outcome, scripted_worldAt]
  rfl

/-- With an open client and any script of outcomes, where outcome `i` of attempt `i` is
`script (i - 1)`, the runner makes exactly the attempts up to the first one that is the last
allowed or not retryable, returns its outcome, and frees every earlier response before the next
attempt. -/
theorem retryDo_exact (cls : RetryClass) (options : Options) (script : Nat → Attempt)
    (resp : HttpResponse) :
    let run := retryDo cls options (scripted script) 0 resp
    let o := fun i => script (i - 1)
    let limit := if 0 < options.maxAttempts then options.maxAttempts else 3
    (∃ k, IsLeast {i : Nat | 1 ≤ i ∧ ((i : Int) = limit ∨ ¬Retryable cls (o i))} k ∧
      run.attempts = (List.range' 1 k).map o ∧ run.rc = (o k).rc ∧ run.resp = (o k).resp ∧
      run.events = scriptEvents options.backoff o k 1 resp) ∧
    (cls = .mutating →
      (run.attempts.filter fun a => a.rc = 0 ∨ a.bodyUploaded = 1).length ≤ 1) ∧
    (cls = .recognition → ∀ a ∈ run.attempts.dropLast,
      (a.rc = 0 ∧ 500 ≤ a.resp.status) ∨ (a.rc ≠ 0 ∧ a.bodyUploaded = 0)) ∧
    (cls = .none → run.attempts.length = 1) := by
  intro run o limit
  obtain ⟨k, hk, hrun⟩ :=
    retryDo_runs cls options (scripted script) 0 resp (fun _ => rfl)
  rw [scripted_outcome] at hk hrun
  have hattempts : run.attempts = (List.range' 1 k).map o := by
    show (retryDo _ _ _ _ _).attempts = _
    rw [hrun, attempts_scriptEvents]
  have hsplit : run.attempts = (List.range' 1 (k - 1)).map o ++ [o k] := by
    rw [hattempts, range_map_split o hk.1.1]
  -- every attempt before the last was retryable, or the runner would have stopped there
  have hretried : ∀ a ∈ (List.range' 1 (k - 1)).map o, Retryable cls a := by
    intro a ha
    obtain ⟨i, hi, rfl⟩ := List.mem_map.mp ha
    rw [List.mem_range'_1] at hi
    by_contra hnot
    have := hk.2 (show i ∈ _ from ⟨hi.1, .inr hnot⟩)
    omega
  refine ⟨⟨k, hk, hattempts, ?_, ?_, ?_⟩, ?_, ?_, ?_⟩
  · exact congrArg RetryRun.rc hrun
  · exact congrArg RetryRun.resp hrun
  · exact congrArg RetryRun.events hrun
  · rintro rfl
    have hnone : ((List.range' 1 (k - 1)).map o).filter
        (fun a => a.rc = 0 ∨ a.bodyUploaded = 1) = [] := by
      rw [List.filter_eq_nil_iff]
      intro a ha
      cases hretried a ha with
      | mutatingFailure hrc hu => simp [hrc, hu]
    rw [hsplit, List.filter_append, hnone]
    exact (List.length_filter_le _ _).trans (by simp)
  · rintro rfl a ha
    rw [hsplit, List.dropLast_concat] at ha
    cases hretried a ha with
    | recognitionStatus hrc hs => exact .inl ⟨hrc, hs⟩
    | recognitionFailure hrc hu => exact .inr ⟨hrc, hu⟩
  · rintro rfl
    have hone : k = 1 := by
      by_contra hne
      have hk1 := hk.1.1
      cases hretried (o 1) (List.mem_map.mpr ⟨1, by rw [List.mem_range'_1]; omega, rfl⟩)
    rw [hattempts, hone]
    rfl

/-- A server error, a failed connection, and server errors from then on. -/
def failing : Nat → Attempt
  | 1 => ⟨-1, .zero, 1⟩
  | n => ⟨0, { HttpResponse.zero with status := 500 + n }, 1⟩

/-- With no number of attempts set, a read that keeps failing is made three times. -/
theorem retryDo_exact_failing :
    let run := retryDo .read { Options.default with maxAttempts := 0 } (scripted failing) 0 .zero
    run.attempts = [failing 0, failing 1, failing 2] ∧ run.rc = 0 ∧ run.resp.status = 502 := by
  intro run
  obtain ⟨⟨k, ⟨⟨hpos, hstop⟩, hleast⟩, hattempts, hrc, hresp, -⟩, -⟩ :=
    retryDo_exact .read { Options.default with maxAttempts := 0 } failing .zero
  have hle : k ≤ 3 := hleast ⟨by decide, .inl rfl⟩
  have hone : k ≠ 1 := by
    rintro rfl
    exact hstop.elim (by decide) fun h => h (.readStatus rfl (by decide))
  have htwo : k ≠ 2 := by
    rintro rfl
    exact hstop.elim (by decide) fun h => h (.readFailure (by decide))
  obtain rfl : k = 3 := by omega
  exact ⟨hattempts, hrc, congrArg HttpResponse.status hresp⟩

end Audd
