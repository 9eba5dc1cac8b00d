import Audd.Retry

/-! The delays of the retry runner.  The delay after attempt `n` doubles the backoff `n - 1` times:
the factor is a shift of an `int`, which the cast to `long` only widens afterwards, and nothing
bounds the number of attempts or the backoff.  So the delays are the doubled backoff as long as the
factor fits in an `int` and the product in a `long`, and `retryDo_backoff_iff` says when every delay
of a run is. -/

namespace Audd

/-! ### The delays of a run -/

section

variable {ω : Type}

/-- What the run passes to `sleep_ms`, in order: entry `n` is the delay after attempt `n + 1`. -/
def RetryRun.delays (run : RetryRun ω) : List (Option Int) :=
  run.events.filterMap fun
    | .sleep ms => some ms
    | _ => none

/-- The runner goes on from attempt `n`: the client is open at the attempt, and what comes of it is
retryable. -/
def Runner.GoesOn (r : Runner ω) (w : ω) (cls : RetryClass) (n : Nat) : Prop :=
  r.closed (r.worldAt w (n - 1)) = false ∧ Retryable cls (r.outcome w n)

/-- Attempt `n` is made and is followed by a delay: it is not the last one allowed, and the runner
goes on from it and from all before it. -/
def Runner.Retried (r : Runner ω) (w : ω) (cls : RetryClass) (limit : Int) (n : Nat) : Prop :=
  1 ≤ n ∧ (n : Int) < limit ∧ ∀ i, 1 ≤ i → i ≤ n → r.GoesOn w cls i

end

/-- The delays double from the backoff on, with no step of the arithmetic outside its type; they
are positive, and each is longer than the one before. -/
structure Doubling (backoffMs : Int) (delays : List (Option Int)) : Prop where
  exact : ∀ n < delays.length, delays[n]? = some (some (backoffMs * 2 ^ n))
  positive : ∀ ms ∈ delays, ∃ d, ms = some d ∧ 0 < d
  increasing : ∀ i j, i < j → j < delays.length →
    ∃ d e, delays[i]? = some (some d) ∧ delays[j]? = some (some e) ∧ d < e

theorem Doubling.of_exact {backoffMs : Int} {delays : List (Option Int)} (hb : 1 ≤ backoffMs)
    (h : ∀ n < delays.length, delays[n]? = some (some (backoffMs * 2 ^ n))) :
    Doubling backoffMs delays where
  exact := h
  positive := by
    intro ms hms
    obtain ⟨n, hn, hget⟩ := List.getElem_of_mem hms
    have hms' := h n hn
    rw [List.getElem?_eq_getElem hn, hget] at hms'
    exact ⟨_, Option.some.inj hms', by positivity⟩
  increasing := by
    intro i j hij hj
    refine ⟨_, _, h i (by omega), h j hj, ?_⟩
    have hpow : (2 : Int) ^ i < 2 ^ j := pow_lt_pow_right₀ (by decide) hij
    nlinarith

/-! ### The arithmetic of a delay -/

theorem shift_inRange_iff (n : Nat) : InRange 32 (2 ^ n) ↔ n ≤ 30 := by
  have hpos : (0 : Int) < 2 ^ n := by positivity
  have hlt : (2 : Int) ^ n < 2 ^ 31 ↔ n < 31 := pow_lt_pow_iff_right₀ (by decide)
  unfold InRange
  norm_num at hlt ⊢
  omega

theorem product_inRange_iff {backoffMs : Int} (hb : 1 ≤ backoffMs) (n : Nat) :
    InRange 64 (backoffMs * 2 ^ n) ↔ backoffMs * 2 ^ n < 2 ^ 63 := by
  have hpos : (0 : Int) < backoffMs * 2 ^ n := by positivity
  unfold InRange
  norm_num
  omega

/-- The delay after attempt `n` is the doubled backoff, except that attempts past the 31st shift
past an `int`, and a large backoff leaves `long`. -/
theorem retryDelay_eq_iff {backoffMs : Int} (hb : 1 ≤ backoffMs) {n : Nat} (hn : 1 ≤ n) :
    retryDelay backoffMs n = some (backoffMs * 2 ^ (n - 1)) ↔
      n ≤ 31 ∧ backoffMs * 2 ^ (n - 1) < 2 ^ 63 := by
  have hiff : (InRange 32 (2 ^ (n - 1)) ∧ InRange 64 (backoffMs * 2 ^ (n - 1))) ↔
      n ≤ 31 ∧ backoffMs * 2 ^ (n - 1) < 2 ^ 63 := by
    rw [shift_inRange_iff, product_inRange_iff hb]
    refine and_congr_left fun _ => ?_
    omega
  rw [← hiff, retryDelay]
  by_cases h : InRange 32 (2 ^ (n - 1)) ∧ InRange 64 (backoffMs * 2 ^ (n - 1))
  · simp only [h, and_self, if_true]
  · rw [if_neg h]
    exact iff_of_false (fun he => by cases he) h

/-! ### Runs -/

section

variable {ω : Type}

/-- A round of the loop from which the runner goes on waits, and the next round follows. -/
theorem retryLoop_delays_goesOn (cls : RetryClass) (backoffMs : Int) (r : Runner ω) (w : ω)
    (limit left n : Nat) (resp : HttpResponse) (hlast : n + 1 ≠ limit)
    (hgo : r.GoesOn w cls (n + 1)) :
    (retryLoop cls backoffMs r limit (left + 1) (n + 1) (r.worldAt w n) resp).delays =
      retryDelay backoffMs (n + 1) :: (retryLoop cls backoffMs r limit left (n + 2)
        (r.worldAt w (n + 1)) (r.outcome w (n + 1)).resp).delays := by
  obtain ⟨hopen, hretry⟩ := hgo
  have hs := (shouldRetry_iff cls _).mpr hretry
  simp only [Runner.outcome, Nat.add_sub_cancel] at hopen hs ⊢
  simp [retryLoop, hopen, hlast, hs, RetryRun.delays, Runner.worldAt]

/-- Any other round is the last one, and no delay follows it. -/
theorem retryLoop_delays_stops (cls : RetryClass) (backoffMs : Int) (r : Runner ω) (w : ω)
    (limit left n : Nat) (resp : HttpResponse)
    (hstop : ¬(n + 1 ≠ limit ∧ r.GoesOn w cls (n + 1))) :
    (retryLoop cls backoffMs r limit (left + 1) (n + 1) (r.worldAt w n) resp).delays = [] := by
  rw [retryLoop]
  by_cases hclosed : r.closed (r.worldAt w n) = true
  · simp [hclosed, RetryRun.delays]
  · by_cases hlast : n + 1 = limit
    · simp [hclosed, hlast, RetryRun.delays]
    · have hretry : ¬Retryable cls (r.outcome w (n + 1)) := fun h =>
        hstop ⟨hlast, by simpa using hclosed, h⟩
      have hs := mt (shouldRetry_iff cls _).mp hretry
      simp only [Runner.outcome, Nat.add_sub_cancel] at hs
      simp [hclosed, hlast, hs, RetryRun.delays]

/-- The delays of the loop from attempt `n + 1` on are those after `n + 1, …, n + c`, the attempts
up to the first from which the runner does not go on. -/
theorem retryLoop_delays (cls : RetryClass) (backoffMs : Int) (r : Runner ω) (w : ω) (limit : Nat)
    (left n : Nat) (resp : HttpResponse) (hlimit : n + left = limit) :
    ∃ c, (retryLoop cls backoffMs r limit left (n + 1) (r.worldAt w n) resp).delays =
        (List.range' (n + 1) c).map (retryDelay backoffMs) ∧
      ∀ m, n < m → (m ≤ n + c ↔ m < limit ∧ ∀ i, n < i → i ≤ m → r.GoesOn w cls i) := by
  induction left generalizing n resp with
  | zero => exact ⟨0, rfl, fun m hm => ⟨fun h => by omega, fun h => by omega⟩⟩
  | succ left ih =>
    by_cases hgo : n + 1 ≠ limit ∧ r.GoesOn w cls (n + 1)
    · obtain ⟨c, hdelays, hiff⟩ := ih (n + 1) (r.outcome w (n + 1)).resp (by omega)
      refine ⟨c + 1, ?_, fun m hm => ?_⟩
      · rw [retryLoop_delays_goesOn cls backoffMs r w limit left n resp hgo.1 hgo.2, hdelays,
          List.range'_succ, List.map_cons]
      · by_cases hfirst : m = n + 1
        · subst hfirst
          refine iff_of_true (by omega) ⟨by omega, fun i h1 h2 => ?_⟩
          have hi : i = n + 1 := by omega
          exact hi ▸ hgo.2
        · have hrest := hiff m (by omega)
          constructor
          · intro h
            obtain ⟨hlt, hall⟩ := hrest.mp (by omega)
            refine ⟨hlt, fun i h1 h2 => ?_⟩
            by_cases hi : i = n + 1
            · exact hi ▸ hgo.2
            · exact hall i (by omega) h2
          · rintro ⟨hlt, hall⟩
            have := hrest.mpr ⟨hlt, fun i h1 h2 => hall i (by omega) h2⟩
            omega
    · refine ⟨0, retryLoop_delays_stops cls backoffMs r w limit left n resp hgo,
        fun m hm => iff_of_false (by omega) ?_⟩
      rintro ⟨hlt, hall⟩
      exact hgo ⟨by omega, hall (n + 1) (by omega) (by omega)⟩

/-- For any class, any script of outcomes and any options that set the attempts and the backoff:
the delays double exactly from the backoff if and only if every attempt that a delay follows is at
most the 31st, and its doubled backoff is below `2 ^ 63`. -/
theorem retryDo_backoff_iff (cls : RetryClass) (options : Options) (r : Runner ω) (w : ω)
    (resp : HttpResponse) (hattempts : 1 ≤ options.maxAttempts)
    (hbackoff : 1 ≤ options.backoffMs) :
    Doubling options.backoffMs (retryDo cls options r w resp).delays ↔
      ∀ n, r.Retried w cls options.maxAttempts n →
        n ≤ 31 ∧ options.backoffMs * 2 ^ (n - 1) < 2 ^ 63 := by
  have hlimit : options.attemptLimit = options.maxAttempts := if_pos (by omega)
  have hb : options.backoff = options.backoffMs := if_pos (by omega)
  obtain ⟨c, hdelays, hretried⟩ := retryLoop_delays cls options.backoffMs r w
    options.maxAttempts.toNat options.maxAttempts.toNat 0 resp (by omega)
  have hrun : (retryDo cls options r w resp).delays =
      (List.range' 1 c).map (retryDelay options.backoffMs) := by
    rw [← hdelays, retryDo, hlimit, hb]
    rfl
  have hlen : ((List.range' 1 c).map (retryDelay options.backoffMs)).length = c := by simp
  have hget : ∀ n < c, ((List.range' 1 c).map (retryDelay options.backoffMs))[n]? =
      some (retryDelay options.backoffMs (n + 1)) := by
    intro n hn
    rw [List.getElem?_map, List.getElem?_range' hn]
    simp [Nat.add_comm]
  rw [hrun]
  constructor
  · rintro h n ⟨h1, hlt, hall⟩
    have hc : n ≤ 0 + c := (hretried n (by omega)).mpr ⟨by omega, hall⟩
    have hexact := h.exact (n - 1) (by omega)
    rw [hget (n - 1) (by omega), Nat.sub_add_cancel h1] at hexact
    exact (retryDelay_eq_iff hbackoff h1).mp (Option.some.inj hexact)
  · intro h
    refine .of_exact hbackoff fun n hn => ?_
    rw [hlen] at hn
    obtain ⟨hlt, hall⟩ := (hretried (n + 1) (by omega)).mp (by omega)
    have hdelay := h (n + 1) ⟨by omega, by omega, hall⟩
    rw [hget n hn, (retryDelay_eq_iff hbackoff (by omega)).mpr hdelay, Nat.add_sub_cancel]

end

/-- Three attempts that get no answer wait 500 ms and then 1000 ms. -/
theorem threeAttempts_backoff :
    let options : Options := ⟨60, 3600, 3, 500⟩
    let r := scripted fun _ => ⟨-1, .zero, 0⟩
    (∀ n, r.Retried 0 .read options.maxAttempts n →
        n ≤ 31 ∧ options.backoffMs * 2 ^ (n - 1) < 2 ^ 63) ∧
      Doubling options.backoffMs (retryDo .read options r 0 .zero).delays := by
  intro options r
  have hn : ∀ n, r.Retried 0 .read options.maxAttempts n →
      n ≤ 31 ∧ options.backoffMs * 2 ^ (n - 1) < 2 ^ 63 := by
    rintro n ⟨h1, hlt, -⟩
    have hcases : n = 1 ∨ n = 2 := by
      have hlt' : (n : Int) < 3 := hlt
      omega
    rcases hcases with rfl | rfl
    · exact ⟨by decide, by decide⟩
    · exact ⟨by decide, by decide⟩
  exact ⟨hn, (retryDo_backoff_iff .read options r 0 .zero (by decide) (by decide)).mpr hn⟩

/-- With 33 attempts allowed and a backoff of 1 ms, the 32nd failure shifts a one into the sign of
an `int`; and with a backoff of `2 ^ 62` ms the second failure already leaves `long`. -/
theorem retryDo_backoff_overflows :
    let r := scripted fun _ => ⟨-1, .zero, 0⟩
    let shifted := (retryDo .read ⟨60, 3600, 33, 1⟩ r 0 .zero).delays
    let product := (retryDo .read ⟨60, 3600, 3, 2 ^ 62⟩ r 0 .zero).delays
    (∀ n, Retryable .read (r.outcome 0 n)) ∧ shifted[31]? = some none ∧ ¬Doubling 1 shifted ∧
      product[1]? = some none ∧ ¬Doubling (2 ^ 62) product := by
  intro r shifted product
  have hshifted : shifted[31]? = some none := by decide
  have hproduct : product[1]? = some none := by decide
  refine ⟨fun n => .readFailure (show (-1 : Int) ≠ 0 by decide), hshifted, fun h => ?_, hproduct,
    fun h => ?_⟩
  · have hexact := h.exact 31 (by decide)
    rw [hshifted] at hexact
    cases hexact
  · have hexact := h.exact 1 (by decide)
    rw [hproduct] at hexact
    cases hexact

end Audd
