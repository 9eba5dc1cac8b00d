import Audd.Calls

/-! Sequences of calls on one client, and the last-error state between them.  A call that is refused
in silence, or whose attempts run out of memory for their URL before libcurl has failed once,
returns with the state of the call before it. -/

namespace Audd

section

variable (parse : CString → Option CJson)

/-- The last-error state describes the call: none after a success, and code 0 after a failure of
which the server sent no API error. -/
def Describes {ρ : Type} (out : Completed ρ) : Prop :=
  Settled (∃ a ∈ out.attempts, SaysError parse a.resp.body) out.error out.client

/-- What an attempt that prints its URL comes to. -/
def AttemptEnv.printed (e : AttemptEnv) : Transfer := if e.tape 0 then e.transfer else .noHandle

/-- The call's last attempt runs out of memory for its URL, and every attempt before it does, or
brings a response that is no API error. -/
def Starves (cls : RetryClass) (limit : Int) (env : Nat → AttemptEnv) : Prop :=
  ∃ k, StopsFirst cls limit (fun n => (env n).printed) k ∧ (env (k - 1)).tape 0 = false ∧
    ∀ n, n < k → (env n).tape 0 = true →
      (env n).transfer.report.1 = 0 ∧ ¬SaysError parse (env n).transfer.body

/-! ### Requests -/

/-- The code after `n` attempts: what it was, unless one of them recorded a failure. -/
theorem worldAt_code (kind : AttemptKind) (env : CallEnv) (c : Client) (n : Nat) :
    let code := ((posting env.attempts (posts env.attempts (kind.post parse))).worldAt
      (c, 0) n).1.lastErrorCode
    ((∀ i, i < n → kind.Keeps (env.attempts i)) → code = c.lastErrorCode) ∧
    (∀ i, i < n → ¬kind.Keeps (env.attempts i) → code = 0) := by
  refine posting_worldAt_fst (I := fun n client =>
    ((∀ i, i < n → kind.Keeps (env.attempts i)) → client.lastErrorCode = c.lastErrorCode) ∧
    (∀ i, i < n → ¬kind.Keeps (env.attempts i) → client.lastErrorCode = 0)) ?_ ?_ n
  · exact ⟨fun _ => rfl, fun i hi => absurd hi (by omega)⟩
  · rintro n c' ⟨hkept, hrecorded⟩
    obtain ⟨hkeep, hrecord⟩ := kind.post_code parse env.attempts n c'
    by_cases hn : kind.Keeps (env.attempts n)
    · refine ⟨fun h => (hkeep hn).trans (hkept fun i hi => h i (by omega)), fun i hi hnot => ?_⟩
      have hbefore : i ≠ n := by
        rintro rfl
        exact hnot hn
      exact (hkeep hn).trans (hrecorded i (by omega) hnot)
    · exact ⟨fun h => absurd (h n (by omega)) hn, fun _ _ _ => hrecord hn⟩

theorem printed_of_fed {e : AttemptEnv} (h : e.tape 0 = true) : e.printed = e.transfer := if_pos h

theorem printed_of_starved {e : AttemptEnv} (h : e.tape 0 = false) : e.printed = .noHandle := by
  rw [AttemptEnv.printed, h]
  rfl

theorem fed_of_saysError {e : AttemptEnv} (h : SaysError parse e.printed.body) :
    e.tape 0 = true := by
  rw [← Bool.not_eq_false]
  intro hstarved
  rw [printed_of_starved hstarved] at h
  obtain ⟨json, hjson, -⟩ := h
  cases hjson

variable {parse} {kind : AttemptKind} {env : CallEnv} {c : Client} {r : Request Unit}
  (hpost : r.post = kind.post parse)
include hpost

theorem submit_closed (hclosed : c.closed = true) : Describes parse (r.submit env c) := by
  have hconnection : AuddError.connection ≠ .ok := by decide
  have hrun := posting_closed_run env.attempts
    (posts env.attempts (kind.post parse)) r.cls c.options .zero hclosed
  rw [Describes, Request.submit, Request.run, hpost, hrun]
  exact settled_of_code_zero hconnection rfl

variable (hsettles : r.Settles parse)
include hsettles

/-- A request of an open client ends with a response, and then describes itself, or with a failure
that leaves the client of its attempts. -/
theorem submit_open (env : CallEnv) (hopen : c.closed = false) : ∃ k,
    StopsFirst r.cls c.options.attemptLimit (fun n => kind.comesTo (env.attempts n)) k ∧
    ((kind.comesTo (env.attempts (k - 1))).report.1 = 0 → Describes parse (r.submit env c)) ∧
    ((kind.comesTo (env.attempts (k - 1))).report.1 ≠ 0 →
      (Describes parse (r.submit env c) ↔
        (∃ n, n < k ∧ SaysError parse (kind.comesTo (env.attempts n)).body) ∨
        ((posting env.attempts (posts env.attempts (kind.post parse))).worldAt
          (c, 0) k).1.lastErrorCode = 0)) := by
  have hfaithful := kind.post_faithful parse env.attempts
  obtain ⟨k, hk, hattempts, hrc, hresp, hworld⟩ :=
    posting_runs env.attempts hfaithful r.cls c.options .zero hopen
  have hsaid : (∃ a ∈ (r.run env.attempts (posts env.attempts r.post) c).attempts,
      SaysError parse a.resp.body) ↔
      ∃ n, n < k ∧ SaysError parse (kind.comesTo (env.attempts n)).body := by
    rw [Request.run, hpost, hattempts]
    simp only [List.mem_map, List.mem_range, exists_exists_and_eq_and]
    refine exists_congr fun n => and_congr_right fun _ => ?_
    rw [(postedAt_brought hfaithful n).1]
  refine ⟨k, hk, fun hreport => ?_, fun hreport => ?_⟩
  · have hrun : (r.run env.attempts (posts env.attempts r.post) c).rc = 0 := by
      rw [Request.run, hpost, hrc, hreport]
    have hbrought : (r.run env.attempts (posts env.attempts r.post) c).resp.Brought parse
        (kind.comesTo (env.attempts (k - 1))) := by
      rw [Request.run, hpost, hresp]
      exact postedAt_brought hfaithful _
    have hout := (hsettles (r.run env.attempts (posts env.attempts r.post) c).world.1 _ _
      hbrought).run env.after
    rw [Describes, Request.submit]
    simp only [hrun, ne_eq, not_true_eq_false, if_false]
    refine hout.mono fun hlast => hsaid.mpr ⟨k - 1, ?_, hlast⟩
    have := hk.1.1
    omega
  · have hconnection : AuddError.connection ≠ .ok := by decide
    have hrun : (r.run env.attempts (posts env.attempts r.post) c).rc ≠ 0 := by
      rwa [Request.run, hpost, hrc]
    rw [Describes, Request.submit]
    simp only [hrun, ne_eq, not_false_eq_true, if_true]
    rw [hsaid, Request.run, hpost, hworld]
    constructor
    · intro h
      by_cases hmember : ∃ n, n < k ∧ SaysError parse (kind.comesTo (env.attempts n)).body
      · exact .inl hmember
      · exact .inr (h.2 hconnection hmember)
    · rintro (h | h)
      · exact ⟨fun hok => absurd hok hconnection, fun _ hnot => absurd h hnot⟩
      · exact settled_of_code_zero hconnection h

theorem submit_describes (hkind : kind.silent = false) : Describes parse (r.submit env c) := by
  cases hopen : c.closed with
  | true => exact submit_closed hpost hopen
  | false =>
    obtain ⟨k, hk, hresponse, hfailure⟩ := submit_open hpost hsettles env hopen
    by_cases hreport : (kind.comesTo (env.attempts (k - 1))).report.1 = 0
    · exact hresponse hreport
    · have hlast : ¬kind.Keeps (env.attempts (k - 1)) := by
        rintro (h | ⟨h, -⟩)
        · exact hreport h
        · rw [hkind] at h
          cases h
      have hbound : k - 1 < k := by
        have := hk.1.1
        omega
      exact (hfailure hreport).mpr (.inr ((worldAt_code parse kind env c k).2 (k - 1) hbound hlast))

theorem submit_describes_iff (hkind : kind.silent = true) : Describes parse (r.submit env c) ↔
    c.lastErrorCode = 0 ∨
      ¬(c.closed = false ∧ Starves parse r.cls c.options.attemptLimit env.attempts) := by
  cases hopen : c.closed with
  | true => simp [submit_closed hpost hopen]
  | false =>
    have hcomes : ∀ e, kind.comesTo e = e.printed ∧ (kind.fed e.tape = e.tape 0) := by
      intro e
      cases kind with
      | printed url fields => exact ⟨rfl, rfl⟩
      | recognize ctx => cases hkind
      | catalog audioId source => cases hkind
    obtain ⟨k, hk, hresponse, hfailure⟩ := submit_open hpost hsettles env hopen
    have hcode := worldAt_code parse kind env c k
    simp only [AttemptKind.Keeps, hkind, true_and, fun e => (hcomes e).1,
      fun e => (hcomes e).2] at hk hresponse hfailure hcode
    by_cases hreport : (env.attempts (k - 1)).printed.report.1 = 0
    · refine iff_of_true (hresponse hreport) (.inr ?_)
      rintro ⟨-, k', hk', hstarved, -⟩
      obtain rfl := hk.unique hk'
      simp [AttemptEnv.printed, hstarved, Transfer.report] at hreport
    · obtain ⟨hkept, hrecorded⟩ := hcode
      rw [hfailure hreport]
      by_cases hstarves : Starves parse r.cls c.options.attemptLimit env.attempts
      · obtain ⟨k', hk', hlast, hbefore⟩ := id hstarves
        obtain rfl := hk.unique hk'
        have hcode := hkept fun i hi => by
          cases hfed : (env.attempts i).tape 0 with
          | true => exact .inl (printed_of_fed hfed ▸ (hbefore i hi hfed).1)
          | false => exact .inr rfl
        rw [hcode]
        constructor
        · rintro (⟨n, hn, hsays⟩ | h)
          · have hfed := fed_of_saysError parse hsays
            rw [printed_of_fed hfed] at hsays
            exact absurd hsays (hbefore n hn hfed).2
          · exact .inl h
        · rintro (h | h)
          · exact .inr h
          · exact absurd ⟨rfl, hstarves⟩ h
      · refine iff_of_true ?_ (.inr fun h => hstarves h.2)
        by_cases hall : ∀ i, i < k → (env.attempts i).printed.report.1 = 0 ∨
            (env.attempts i).tape 0 = false
        · have hpos := hk.1.1
          have hlast := (hall (k - 1) (by omega)).resolve_left hreport
          by_contra hnone
          refine hstarves ⟨k, hk, hlast, fun n hn hfed => ?_⟩
          rw [← printed_of_fed hfed]
          have hresponse := (hall n hn).resolve_right fun h => by rw [hfed] at h; cases h
          exact ⟨hresponse, fun hsays => hnone (.inl ⟨n, hn, hsays⟩)⟩
        · obtain ⟨i, hi⟩ := not_forall.mp hall
          obtain ⟨hik, hnot⟩ := Classical.not_imp.mp hi
          exact .inr (hrecorded i hik hnot)

end

/-! ### Calls -/

section

variable {ρ ε : Type} (linked : Linked ρ ε)

/-- The call returns before anything clears or records an error: it is refused in silence, or an
open client starves its attempts. -/
def Call.TurnedAway (call : Call) (env : CallEnv) (client : Client) : Prop :=
  match call.gate linked env.prep with
  | .silent => True
  | .recorded => False
  | .through => call.printsUrl = true ∧ client.closed = false ∧
      Starves linked.parse call.cls client.options.attemptLimit env.attempts

theorem Call.describes_iff (call : Call) (env : CallEnv) (client : Client) :
    Describes linked.parse (call.run linked env client) ↔
      client.lastErrorCode = 0 ∨ ¬call.TurnedAway linked env client := by
  have hprepares := call.prepares linked client env.prep
  unfold Call.run complete Call.TurnedAway
  generalize call.gate linked env.prep = gate at hprepares
  generalize ((call.prepare linked client).run env.prep).1 = prepared at hprepares
  cases hprepares with
  | silent e he =>
    have hdescribes : Describes linked.parse (⟨e, client, none, []⟩ : Completed Unit) ↔
        client.lastErrorCode = 0 :=
      ⟨fun h => h.2 he (by simp), settled_of_code_zero he⟩
    simpa using hdescribes
  | recorded e client' he hcode =>
    exact iff_of_true (settled_of_code_zero he hcode) (.inr id)
  | through client' r kind hclient hcls hpost hkind hsettles =>
    cases hsilent : kind.silent with
    | false =>
      refine iff_of_true (submit_describes hpost hsettles hsilent) (.inr fun h => ?_)
      rw [← hkind, hsilent] at h
      cases h.1
    | true =>
      rcases hclient with rfl | ⟨hkept, -⟩
      · rw [submit_describes_iff hpost hsettles hsilent, hcls, ← hkind, hsilent]
        simp
      · rw [hsilent] at hkept
        cases hkept

structure Served where
  call : Call
  env : CallEnv
  client : Client

def serve (client : Client) : List (Call × CallEnv) → List Served
  | [] => []
  | (call, env) :: rest => ⟨call, env, client⟩ :: serve (call.run linked env client).client rest

/-- In every sequence of calls on one client, every call describes itself exactly when none of them
is turned away from a client with a code left over. -/
theorem lastError_describes_iff (client : Client) (calls : List (Call × CallEnv)) :
    (∀ s ∈ serve linked client calls, Describes linked.parse (s.call.run linked s.env s.client)) ↔
      ∀ s ∈ serve linked client calls,
        s.client.lastErrorCode = 0 ∨ ¬s.call.TurnedAway linked s.env s.client :=
  forall₂_congr fun s _ => s.call.describes_iff linked s.env s.client

end

def errorServer : Linked Unit Unit where
  parse _ := some (.object [("status", .string "error"),
    ("error", .object [("error_code", .number (.finite 900))])])
  platform := .exact
  fileExists _ := false
  recognitionFromJson _ := pure (some ())
  enterpriseFromJson _ := pure (some ())

def answered : CallEnv :=
  ⟨plenty, fun _ => ⟨plenty, .performed ⟨[⟨64, 200⟩], .ok, [], some "e", none⟩⟩, plenty⟩

def errorThenArgument : List (Call × CallEnv) :=
  [(.findLyrics (some "q") true, answered), (.recognize none none false, answered)]

/-- The second call of that sequence leaves the code of the first. -/
theorem errorThenArgument_stale :
    ¬∀ s ∈ serve errorServer (.new none none none) errorThenArgument,
      Describes errorServer.parse (s.call.run errorServer s.env s.client) := by
  intro h
  have hsecond := h _ (List.mem_cons_of_mem _ List.mem_cons_self)
  have hcode := hsecond.2 (by decide) (by rintro ⟨a, ha, -⟩; cases ha)
  exact absurd hcode (by decide)

end Audd
