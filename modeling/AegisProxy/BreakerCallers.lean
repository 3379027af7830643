/-
Many callers on one breaker: `handle_client`'s contract with `CircuitBreaker`,
seen from one breaker.

`session.cpp` uses a breaker in one way: it calls `allow_request`, and if the
answer was `true` it calls exactly one of `record_success` / `record_failure`
when the attempt is over, which may be much later. Any number of sessions do this
at once. `Callers` is that situation: one breaker, and for each caller the
request it has outstanding, if any.

The object never learns which request an outcome belongs to. The bookkeeping of
this file does: a request remembers the state it was admitted in and the
`HALF_OPEN` period it belongs to, and that is all the two main results need.

* `half_open_gate`: at most one trial is outstanding in every state of a run in
  which no request admitted while `CLOSED` records its outcome during a trial, and
  the first such outcome can be followed by calls that bring a second trial in.
* `recovery_by_trials_iff`: recovery is decided by trials alone exactly in the
  runs in which no request admitted while `CLOSED` records its outcome while the
  breaker is `HALF_OPEN`.

Without the condition both fail: `half_open_gate_breached` and
`recovery_by_late_outcomes` are the two runs that show it.
-/
import AegisProxy.CircuitBreaker
import Mathlib.Logic.Function.Basic

set_option autoImplicit false

namespace AegisProxy

open Runs

/-! ## The callers of one breaker -/

/-- A request between its admission and its outcome: the breaker's state when
`allow_request` returned `true`, and the `HALF_OPEN` period it was admitted in
(for one admitted while `CLOSED`, the number of periods before it). -/
structure Request where
  admitted_in : BreakerState
  period : ℕ
  deriving DecidableEq, Repr

/-- A trial is a request admitted while the breaker was not `CLOSED`. -/
def Request.trial (r : Request) : Bool := r.admitted_in ≠ .CLOSED

/-- One breaker and its callers. `request i` is what caller `i` has outstanding.
`period` counts the `HALF_OPEN` periods begun; `trial_successes` and
`trial_failures` count the outcomes of the trials of the current one. -/
structure Callers where
  breaker : CircuitBreaker
  clock : Time
  request : ℕ → Option Request
  period : ℕ
  trial_successes : ℕ
  trial_failures : ℕ

/-- A call by a caller. -/
inductive CallerInput
  | allow_request (caller : ℕ) (now : Time)
  | record_success (caller : ℕ) (now : Time)
  | record_failure (caller : ℕ) (now : Time)
  deriving DecidableEq, Repr

namespace Callers

/-- Nobody has called yet. -/
def start (cb : CircuitBreaker) (clock : Time) : Callers where
  breaker := cb
  clock := clock
  request := fun _ => none
  period := 0
  trial_successes := 0
  trial_failures := 0

/-- Caller `i` was admitted, and the breaker is now `cb`. An admission from
`OPEN` begins a new period. -/
def grant (s : Callers) (i : ℕ) (now : Time) (cb : CircuitBreaker) : Callers :=
  if s.breaker.state_ = .OPEN then
    -- a new period, with a clean tally
    { breaker := cb
      clock := now
      request := Function.update s.request i (some ⟨s.breaker.state_, s.period + 1⟩)
      period := s.period + 1
      trial_successes := 0
      trial_failures := 0 }
  else
    { s with
      breaker := cb
      clock := now
      request := Function.update s.request i (some ⟨s.breaker.state_, s.period⟩) }

/-- Caller `i` recorded the outcome `ok` of its request `r`, and the breaker is
now `cb`. -/
def settle (s : Callers) (i : ℕ) (now : Time) (r : Request) (ok : Bool)
    (cb : CircuitBreaker) : Callers :=
  -- only a trial of the current period is tallied
  let current := r.trial ∧ r.period = s.period
  { s with
    breaker := cb
    clock := now
    request := Function.update s.request i none
    trial_successes := if current ∧ ok = true then s.trial_successes + 1 else s.trial_successes
    trial_failures := if current ∧ ok = false then s.trial_failures + 1 else s.trial_failures }

/-- One call. It is refused if the clock would go back, if the caller asks for
admission with a request outstanding, or if it records an outcome with none. -/
def step (s : Callers) : CallerInput → Option (Callers × List (CircuitBreaker.Call × Option Bool))
  | .allow_request i now =>
    if now < s.clock then none
    else
      match s.request i with
      | some _ => none
      | none =>
        let answer := s.breaker.allow_request now
        if answer.1 then
          some (s.grant i now answer.2, [(.allow_request now, some true)])
        else
          some ({ s with breaker := answer.2, clock := now }, [(.allow_request now, some false)])
  | .record_success i now =>
    if now < s.clock then none
    else
      match s.request i with
      | none => none
      | some r => some (s.settle i now r true s.breaker.record_success, [(.record_success now, none)])
  | .record_failure i now =>
    if now < s.clock then none
    else
      match s.request i with
      | none => none
      | some r =>
        some (s.settle i now r false (s.breaker.record_failure now), [(.record_failure now, none)])

/-! ## What a step can do -/

@[simp] theorem grant_breaker (s : Callers) (i : ℕ) (now : Time) (cb : CircuitBreaker) :
    (s.grant i now cb).breaker = cb := by
  unfold grant
  split <;> rfl

@[simp] theorem settle_breaker (s : Callers) (i : ℕ) (now : Time) (r : Request) (ok : Bool)
    (cb : CircuitBreaker) : (s.settle i now r ok cb).breaker = cb := rfl

/-- The caller that was admitted has a request from the state it was admitted in. -/
theorem grant_request_self (s : Callers) (i : ℕ) (now : Time) (cb : CircuitBreaker) :
    (s.grant i now cb).request i
      = some ⟨s.breaker.state_, (s.grant i now cb).period⟩ := by
  unfold grant
  split <;> exact Function.update_self ..

theorem grant_request_of_ne (s : Callers) {i j : ℕ} (hji : j ≠ i) (now : Time)
    (cb : CircuitBreaker) : (s.grant i now cb).request j = s.request j := by
  unfold grant
  split <;> exact Function.update_of_ne hji ..

/-- Whoever had nothing outstanding before an outcome has nothing after it. -/
theorem settle_request_none {s : Callers} {k : ℕ} (hk : s.request k = none) (i : ℕ) (now : Time)
    (r : Request) (ok : Bool) (cb : CircuitBreaker) :
    (s.settle i now r ok cb).request k = none := by
  simp only [settle, Function.update_apply, hk, ite_self]

/-- A step is an admission, a refusal, or the outcome of an outstanding
request. -/
theorem step_cases {s s' : Callers} {inp : CallerInput}
    {out : List (CircuitBreaker.Call × Option Bool)} (h : step s inp = some (s', out)) :
    (∃ i now, inp = .allow_request i now ∧ s.request i = none
        ∧ (s.breaker.allow_request now).1 = true
        ∧ s' = s.grant i now (s.breaker.allow_request now).2)
    ∨ (∃ i now, inp = .allow_request i now ∧ (s.breaker.allow_request now).1 = false
        ∧ s' = { s with breaker := (s.breaker.allow_request now).2, clock := now })
    ∨ (∃ i now r, inp = .record_success i now ∧ s.request i = some r
        ∧ s' = s.settle i now r true s.breaker.record_success)
    ∨ (∃ i now r, inp = .record_failure i now ∧ s.request i = some r
        ∧ s' = s.settle i now r false (s.breaker.record_failure now)) := by
  cases inp with
  | allow_request i now =>
      simp only [step] at h
      split at h
      · cases h
      · split at h
        · cases h
        · rename_i hreq
          split at h
          · rename_i hans
            cases h
            exact Or.inl ⟨i, now, rfl, hreq, hans, rfl⟩
          · rename_i hans
            cases h
            exact Or.inr (Or.inl ⟨i, now, rfl, by simpa using hans, rfl⟩)
  | record_success i now =>
      simp only [step] at h
      split at h
      · cases h
      · split at h
        · cases h
        · rename_i r hreq
          cases h
          exact Or.inr (Or.inr (Or.inl ⟨i, now, r, rfl, hreq, rfl⟩))
  | record_failure i now =>
      simp only [step] at h
      split at h
      · cases h
      · split at h
        · cases h
        · rename_i r hreq
          cases h
          exact Or.inr (Or.inr (Or.inr ⟨i, now, r, rfl, hreq, rfl⟩))

/-! ## The gate -/

/-- **The gate invariant.** A trial flag means `HALF_OPEN` and a trial outstanding; an
outstanding trial means the flag is up and the trial is of the current period; there is
at most one outstanding trial. -/
structure Gate (s : Callers) : Prop where
  flag_half_open : s.breaker.half_open_trial_in_flight_ = true → s.breaker.state_ = .HALF_OPEN
  flag_trial : s.breaker.half_open_trial_in_flight_ = true →
    ∃ i r, s.request i = some r ∧ r.trial = true
  trial_flag : ∀ i r, s.request i = some r → r.trial = true →
    s.breaker.half_open_trial_in_flight_ = true ∧ r.period = s.period
  trial_unique : ∀ i j r r', s.request i = some r → s.request j = some r' →
    r.trial = true → r'.trial = true → i = j

/-- No request admitted while `CLOSED` records its outcome during a trial: while
the breaker is `HALF_OPEN` with its trial in flight, only the trial itself
reports. -/
def NoLateOutcomeDuringTrial (s : Callers) : CallerInput → Prop
  | .allow_request _ _ => True
  | .record_success i _ | .record_failure i _ =>
    s.breaker.state_ = .HALF_OPEN → s.breaker.half_open_trial_in_flight_ = true →
      ∀ r, s.request i = some r → r.trial = true

theorem gate_start (f n c : ℤ) (clock : Time) : Gate (start (.new f n c) clock) where
  flag_half_open := by intro h; simp [start, CircuitBreaker.new] at h
  flag_trial := by intro h; simp [start, CircuitBreaker.new] at h
  trial_flag := by intro i r h; simp [start] at h
  trial_unique := by intro i j r r' h; simp [start] at h

/-- With the flag down no trial is outstanding. -/
theorem Gate.no_trial {s : Callers} (hg : Gate s)
    (hfl : s.breaker.half_open_trial_in_flight_ = false) :
    ∀ i r, s.request i = some r → r.trial = false := by
  intro i r hr
  by_contra htr
  have := (hg.trial_flag i r hr (by simpa using htr)).1
  rw [hfl] at this
  cases this

/-- Outside `HALF_OPEN` the flag is down. -/
theorem Gate.flag_down {s : Callers} (hg : Gate s) (hst : s.breaker.state_ ≠ .HALF_OPEN) :
    s.breaker.half_open_trial_in_flight_ = false := by
  by_contra hfl
  exact hst (hg.flag_half_open (by simpa using hfl))

/-- Taking a request out keeps the gate when the flag is down after it and no trial is
left. -/
theorem gate_settle {s : Callers} (i : ℕ) (now : Time) (r : Request) (ok : Bool)
    (cb : CircuitBreaker) (hfl : cb.half_open_trial_in_flight_ = false)
    (hleft : ∀ j r', j ≠ i → s.request j = some r' → r'.trial = false) :
    Gate (s.settle i now r ok cb) := by
  have hnone : ∀ j r', (s.settle i now r ok cb).request j = some r' → r'.trial = false := by
    intro j r' hj
    simp only [settle, Function.update_apply] at hj
    by_cases hji : j = i
    · rw [if_pos hji] at hj
      cases hj
    · rw [if_neg hji] at hj
      exact hleft j r' hji hj
  refine ⟨?_, ?_, ?_, ?_⟩
  · rw [settle_breaker, hfl]
    simp
  · rw [settle_breaker, hfl]
    simp
  · intro j r' hj htr
    rw [hnone j r' hj] at htr
    cases htr
  · intro j k r' r'' hj _ htr
    rw [hnone j r' hj] at htr
    cases htr

/-- An outcome recorded under the condition keeps the gate: it takes the flag
down only when the request it takes out was the one trial, or when there was
none. -/
theorem gate_outcome {s : Callers} (hg : Gate s) (i : ℕ) (now : Time) (r : Request) (ok : Bool)
    (cb : CircuitBreaker) (hr : s.request i = some r)
    (hcond : s.breaker.state_ = .HALF_OPEN → s.breaker.half_open_trial_in_flight_ = true →
      r.trial = true)
    (hflag : cb.half_open_trial_in_flight_
      = if s.breaker.state_ = .HALF_OPEN then false else s.breaker.half_open_trial_in_flight_) :
    Gate (s.settle i now r ok cb) := by
  by_cases hst : s.breaker.state_ = .HALF_OPEN
  · rw [if_pos hst] at hflag
    refine gate_settle i now r ok cb hflag ?_
    intro j r' hji hj
    cases hfl : s.breaker.half_open_trial_in_flight_ with
    | false => exact hg.no_trial hfl j r' hj
    | true =>
        -- the flag is up, so the request taken out is the trial, and it is the only one
        by_contra htr
        exact hji (hg.trial_unique j i r' r hj hr (by simpa using htr) (hcond hst hfl))
  · rw [if_neg hst, hg.flag_down hst] at hflag
    exact gate_settle i now r ok cb hflag fun j r' _ hj => hg.no_trial (hg.flag_down hst) j r' hj

/-- A trial admitted with the flag down is the only one. -/
theorem gate_grant_trial {s : Callers} (hg : Gate s) (i : ℕ) (now : Time) (cb : CircuitBreaker)
    (hst : s.breaker.state_ ≠ .CLOSED) (hfl : s.breaker.half_open_trial_in_flight_ = false)
    (hcb : cb.state_ = .HALF_OPEN) (hcbfl : cb.half_open_trial_in_flight_ = true) :
    Gate (s.grant i now cb) := by
  -- every outstanding trial after the admission is caller `i`'s
  have honly : ∀ j r, (s.grant i now cb).request j = some r → r.trial = true →
      j = i ∧ r.period = (s.grant i now cb).period := by
    intro j r hj htr
    by_cases hji : j = i
    · rw [hji, grant_request_self, Option.some.injEq] at hj
      exact ⟨hji, by rw [← hj]⟩
    · rw [grant_request_of_ne s hji] at hj
      rw [hg.no_trial hfl j r hj] at htr
      cases htr
  refine ⟨?_, ?_, ?_, ?_⟩
  · rw [grant_breaker]
    exact fun _ => hcb
  · intro _
    exact ⟨i, _, grant_request_self s i now cb, by simpa [Request.trial] using hst⟩
  · intro j r hj htr
    rw [grant_breaker]
    exact ⟨hcbfl, (honly j r hj htr).2⟩
  · intro j k r r' hj hk htr htr'
    rw [(honly j r hj htr).1, (honly k r' hk htr').1]

/-- A request admitted while `CLOSED` is no trial and leaves the gate alone. -/
theorem gate_grant_closed {s : Callers} (hg : Gate s) (i : ℕ) (now : Time)
    (hst : s.breaker.state_ = .CLOSED) : Gate (s.grant i now s.breaker) := by
  have hadm : s.grant i now s.breaker = { s with
      clock := now
      request := Function.update s.request i (some ⟨.CLOSED, s.period⟩) } := by
    simp [grant, hst]
  have hold : ∀ j r, Function.update s.request i (some ⟨.CLOSED, s.period⟩) j = some r →
      r.trial = true → s.request j = some r := by
    intro j r hj htr
    by_cases hji : j = i
    · rw [hji, Function.update_self, Option.some.injEq] at hj
      rw [← hj] at htr
      simp [Request.trial] at htr
    · rwa [Function.update_of_ne hji] at hj
  have hdown : s.breaker.half_open_trial_in_flight_ = false :=
    hg.flag_down (by rw [hst]; decide)
  rw [hadm]
  refine ⟨hg.flag_half_open, ?_, ?_, ?_⟩
  · intro hfl
    rw [hdown] at hfl
    cases hfl
  · intro j r hj htr
    exact hg.trial_flag j r (hold j r hj htr) htr
  · intro j k r r' hj hk htr htr'
    exact hg.trial_unique j k r r' (hold j r hj htr) (hold k r' hk htr') htr htr'

/-- One step under the condition keeps the gate. -/
theorem gate_step {s s' : Callers} {inp : CallerInput}
    {out : List (CircuitBreaker.Call × Option Bool)} (hg : Gate s)
    (hcond : NoLateOutcomeDuringTrial s inp) (h : step s inp = some (s', out)) : Gate s' := by
  rcases step_cases h with ⟨i, now, rfl, -, hans, rfl⟩ | ⟨i, now, rfl, hans, rfl⟩
    | ⟨i, now, r, rfl, hr, rfl⟩ | ⟨i, now, r, rfl, hr, rfl⟩
  · rcases s.breaker.allow_request_cases now with ⟨hst, he⟩ | ⟨-, -, he⟩ | ⟨hst, -, he⟩
      | ⟨-, -, he⟩ | ⟨hst, hfl, he⟩ <;> rw [he] at hans ⊢
    -- admitted while `CLOSED`, as the first trial, or as a further one
    · exact gate_grant_closed hg i now hst
    · cases hans
    · exact gate_grant_trial hg i now _ (by rw [hst]; decide)
        (hg.flag_down (by rw [hst]; decide)) rfl rfl
    · cases hans
    · exact gate_grant_trial hg i now _ (by rw [hst]; decide) hfl hst rfl
  · rw [CircuitBreaker.allow_request_refused hans]
    exact ⟨hg.flag_half_open, hg.flag_trial, hg.trial_flag, hg.trial_unique⟩
  · exact gate_outcome hg i now r true _ hr (fun hst hfl => hcond hst hfl r hr)
      s.breaker.record_success_flag
  · exact gate_outcome hg i now r false _ hr (fun hst hfl => hcond hst hfl r hr)
      (s.breaker.record_failure_flag now)

/-- At most one trial request is outstanding. -/
def AtMostOneTrial (s : Callers) : Prop :=
  ∀ i j r r', s.request i = some r → s.request j = some r' →
    r.trial = true → r'.trial = true → i = j

/-! ## A second trial -/

/-- Only finitely many callers have a request outstanding, so one has none. -/
theorem exists_idle {cb : CircuitBreaker} {clock : Time} {ins : List CallerInput} {s : Callers}
    {tr : List (CircuitBreaker.Call × Option Bool)}
    (h : exec step (start cb clock) ins = some (s, tr)) : ∃ k, s.request k = none := by
  have hinv := exec_invariant
    (I := fun (s : Callers) _ => ∃ n, ∀ k, n ≤ k → s.request k = none)
    (fun s tr inp s' out hs he => by
      obtain ⟨n, hn⟩ := hs
      rcases step_cases he with ⟨i, now, -, -, -, rfl⟩ | ⟨i, now, -, -, rfl⟩
        | ⟨i, now, r, -, -, rfl⟩ | ⟨i, now, r, -, -, rfl⟩
      · refine ⟨max n (i + 1), fun k hk => ?_⟩
        rw [grant_request_of_ne s (by omega)]
        exact hn k (by omega)
      · exact ⟨n, hn⟩
      · exact ⟨n, fun k hk => settle_request_none (hn k hk) ..⟩
      · exact ⟨n, fun k hk => settle_request_none (hn k hk) ..⟩)
    ⟨0, fun _ _ => rfl⟩ h
  obtain ⟨n, hn⟩ := hinv
  exact ⟨n, hn n (le_refl n)⟩

section Breach

variable {s : Callers} {j k : ℕ} {r : Request}

/-- With a trial outstanding and its flag down, the next caller is a second trial. -/
theorem second_trial (hj : s.request j = some r) (htr : r.trial = true)
    (hk : s.request k = none)
    (hst : s.breaker.state_ = .OPEN
      ∨ s.breaker.state_ = .HALF_OPEN ∧ s.breaker.half_open_trial_in_flight_ = false) :
    ∃ js t tr, exec step s js = some (t, tr) ∧ ¬ AtMostOneTrial t := by
  let now := max s.clock (s.breaker.opened_at_ + s.breaker.cooldown)
  have hnow : ¬ now < s.clock := not_lt.mpr (le_max_left _ _)
  have hcool : s.breaker.opened_at_ + s.breaker.cooldown ≤ now := le_max_right _ _
  have hans : (s.breaker.allow_request now).1 = true := by
    rcases s.breaker.allow_request_cases now with ⟨-, he⟩ | ⟨-, hlt, -⟩ | ⟨-, -, he⟩
      | ⟨hhalf, hfl, -⟩ | ⟨-, -, he⟩
    · rw [he]
    · exact absurd hlt (not_lt.mpr hcool)
    · rw [he]
    · rcases hst with hopen | ⟨-, hdown⟩
      · rw [hopen] at hhalf
        cases hhalf
      · rw [hdown] at hfl
        cases hfl
    · rw [he]
  have hstep : step s (.allow_request k now)
      = some (s.grant k now (s.breaker.allow_request now).2,
          [(.allow_request now, some true)]) := by
    simp only [step, if_neg hnow, hk, hans, if_true]
  refine ⟨_, _, _, exec_singleton hstep, ?_⟩
  intro hone
  have hne : j ≠ k := by
    rintro rfl
    rw [hj] at hk
    cases hk
  have hold : (s.grant k now (s.breaker.allow_request now).2).request j = some r := by
    rw [grant_request_of_ne s hne, hj]
  refine hne (hone j k r _ hold (grant_request_self s k now _) htr ?_)
  rcases hst with hopen | ⟨hhalf, -⟩
  · simp [Request.trial, hopen]
  · simp [Request.trial, hhalf]

/-- A caller with nothing outstanding can fail once on a `CLOSED` breaker. -/
theorem fails_once (hclosed : s.breaker.state_ = .CLOSED) (hk : s.request k = none) :
    ∃ t tr, exec step s [.allow_request k s.clock, .record_failure k s.clock] = some (t, tr)
      ∧ t.breaker = s.breaker.record_failure s.clock ∧ t.request = s.request := by
  have hans : s.breaker.allow_request s.clock = (true, s.breaker) := by
    simp [CircuitBreaker.allow_request, hclosed]
  have hask : step s (.allow_request k s.clock)
      = some (s.grant k s.clock s.breaker, [(.allow_request s.clock, some true)]) := by
    simp [step, hk, hans]
  have hclock : (s.grant k s.clock s.breaker).clock = s.clock := by simp [grant, hclosed]
  have hfail : step (s.grant k s.clock s.breaker) (.record_failure k s.clock)
      = some ((s.grant k s.clock s.breaker).settle k s.clock
          ⟨s.breaker.state_, (s.grant k s.clock s.breaker).period⟩ false
          (s.breaker.record_failure s.clock), [(.record_failure s.clock, none)]) := by
    simp [step, hclock, grant_request_self]
  refine ⟨_, _, exec_cons_iff.mpr ⟨_, _, _, hask, exec_singleton hfail, rfl⟩, rfl, ?_⟩
  funext i
  simp only [settle, Function.update_apply]
  split
  · rename_i hik
    rw [hik, hk]
  · rename_i hik
    exact grant_request_of_ne s hik s.clock s.breaker

/-- A `CLOSED` breaker can be tripped by one caller that fails often enough; the others keep
what they have outstanding. -/
theorem trips (hclosed : s.breaker.state_ = .CLOSED) (hk : s.request k = none) :
    ∃ js t tr, exec step s js = some (t, tr) ∧ t.breaker.state_ = .OPEN
      ∧ t.request = s.request := by
  -- the induction is on the failures that are missing
  obtain ⟨n, hn⟩ : ∃ n : ℕ,
      s.breaker.failure_threshold_ ≤ s.breaker.consecutive_failures_ + 1 + n :=
    ⟨(s.breaker.failure_threshold_ - s.breaker.consecutive_failures_).toNat, by omega⟩
  induction n using Nat.strong_induction_on generalizing s with
  | _ n ih =>
      obtain ⟨t, tr, hrun, hcb, hreq⟩ := fails_once hclosed hk
      rcases s.breaker.record_failure_cases s.clock with ⟨hst, -⟩ | ⟨-, -, he⟩ | ⟨-, hlt, he⟩
        | ⟨hst, -⟩
      · rw [hclosed] at hst
        cases hst
      · exact ⟨_, t, tr, hrun, by rw [hcb, he], hreq⟩
      · -- one more failure is counted, and one less is missing
        rw [he] at hcb
        obtain ⟨js, u, tr', hmore, hopen, hreq'⟩ := ih (n - 1) (by omega) (s := t)
          (by rw [hcb]; exact hclosed) (by rw [hreq]; exact hk) (by rw [hcb]; dsimp only; omega)
        exact ⟨_, u, tr ++ tr', exec_append_iff.mpr ⟨t, tr, tr', hrun, hmore, rfl⟩, hopen,
          hreq'.trans hreq⟩
      · rw [hclosed] at hst
        cases hst

/-- With the flag down and a trial outstanding a second one can come in, whatever the state. -/
theorem breach_of_flag_down (hfl : s.breaker.half_open_trial_in_flight_ = false)
    (hj : s.request j = some r) (htr : r.trial = true) (hk : s.request k = none) :
    ∃ js t tr, exec step s js = some (t, tr) ∧ ¬ AtMostOneTrial t := by
  cases hst : s.breaker.state_ with
  | CLOSED =>
      obtain ⟨js, t, tr, hrun, hopen, hreq⟩ := trips hst hk
      obtain ⟨js', u, tr', hmore, hnot⟩ := second_trial (s := t) (by rw [hreq]; exact hj) htr
        (by rw [hreq]; exact hk) (Or.inl hopen)
      exact ⟨js ++ js', u, tr ++ tr', exec_append_iff.mpr ⟨t, tr, tr', hrun, hmore, rfl⟩, hnot⟩
  | OPEN => exact second_trial hj htr hk (Or.inl hst)
  | HALF_OPEN => exact second_trial hj htr hk (Or.inr ⟨hst, hfl⟩)

/-- The outcome of a request that is no trial, recorded in `HALF_OPEN` during a trial. -/
theorem settle_breaches (hg : Gate s) (hfl : s.breaker.half_open_trial_in_flight_ = true)
    {i : ℕ} (hi : s.request i = some r) (htr : r.trial = false) (hk : s.request k = none)
    (now : Time) (ok : Bool) {cb : CircuitBreaker} (hcb : cb.half_open_trial_in_flight_ = false) :
    ∃ js t tr, exec step (s.settle i now r ok cb) js = some (t, tr) ∧ ¬ AtMostOneTrial t := by
  obtain ⟨j, r', hj, htr'⟩ := hg.flag_trial hfl
  have hji : j ≠ i := by
    rintro rfl
    rw [hi, Option.some.injEq] at hj
    rw [hj, htr'] at htr
    cases htr
  exact breach_of_flag_down (j := j) hcb ((Function.update_of_ne hji ..).trans hj) htr'
    (settle_request_none hk ..)

/-- **A late outcome during a trial opens the gate.** Its flag is taken down with the trial
outstanding. -/
theorem late_outcome_breaches (hg : Gate s) (hk : s.request k = none) {inp : CallerInput}
    (hlate : ¬ NoLateOutcomeDuringTrial s inp) (hacc : step s inp ≠ none) :
    ∃ js t tr, exec step s (inp :: js) = some (t, tr) ∧ ¬ AtMostOneTrial t := by
  obtain ⟨⟨u, out⟩, hu⟩ := Option.ne_none_iff_exists'.mp hacc
  have hrest : ∃ js t tr, exec step u js = some (t, tr) ∧ ¬ AtMostOneTrial t := by
    rcases step_cases hu with ⟨i, now, rfl, -⟩ | ⟨i, now, rfl, -⟩ | ⟨i, now, r, rfl, hr, rfl⟩
      | ⟨i, now, r, rfl, hr, rfl⟩
    · exact absurd trivial hlate
    · exact absurd trivial hlate
    · simp only [NoLateOutcomeDuringTrial, hr, Option.some.injEq, forall_eq', Classical.not_imp,
        Bool.not_eq_true] at hlate
      obtain ⟨hst, hfl, htr⟩ := hlate
      refine settle_breaches hg hfl hr htr hk now true ?_
      rw [CircuitBreaker.record_success_flag, if_pos hst]
    · simp only [NoLateOutcomeDuringTrial, hr, Option.some.injEq, forall_eq', Classical.not_imp,
        Bool.not_eq_true] at hlate
      obtain ⟨hst, hfl, htr⟩ := hlate
      refine settle_breaches hg hfl hr htr hk now false ?_
      rw [CircuitBreaker.record_failure_flag, if_pos hst]
  obtain ⟨js, t, tr, hrun, hnot⟩ := hrest
  exact ⟨js, t, out ++ tr, exec_cons_iff.mpr ⟨u, out, tr, hu, hrun, rfl⟩, hnot⟩

end Breach

/-- **Half-open gating.** For all thresholds, any number of callers and any
interleaving at non-decreasing times: in every state reached by calls that meet
the condition, at most one trial is outstanding; and a call that does not meet it
can be followed by calls after which two are. -/
theorem half_open_gate (failure_threshold success_threshold cooldown_period : ℤ) (clock : Time)
    (ins : List CallerInput) (s : Callers) (tr : List (CircuitBreaker.Call × Option Bool))
    (hcond : Along step NoLateOutcomeDuringTrial
      (start (.new failure_threshold success_threshold cooldown_period) clock) ins)
    (h : exec step (start (.new failure_threshold success_threshold cooldown_period) clock) ins
      = some (s, tr)) :
    AtMostOneTrial s
    ∧ ∀ inp, ¬ NoLateOutcomeDuringTrial s inp → step s inp ≠ none →
      ∃ js t tr', exec step (start (.new failure_threshold success_threshold cooldown_period) clock)
          (ins ++ inp :: js) = some (t, tr ++ tr')
        ∧ ¬ AtMostOneTrial t := by
  have hgate := exec_invariant_along (I := fun s _ => Gate s)
    (fun _ _ _ _ _ hg hc hs => gate_step hg hc hs)
    (gate_start failure_threshold success_threshold cooldown_period clock) hcond h
  refine ⟨hgate.trial_unique, ?_⟩
  intro inp hlate hacc
  obtain ⟨k, hk⟩ := exists_idle h
  obtain ⟨js, t, tr', hrun, hnot⟩ := late_outcome_breaches hgate hk hlate hacc
  exact ⟨js, t, tr', exec_append_iff.mpr ⟨s, tr, tr', h, hrun, rfl⟩, hnot⟩

/-- A trip, a cooldown and one trial, which the theorem covers: caller `0` fails
while `CLOSED` and caller `1` holds the trial. -/
theorem half_open_gate_one_trial :
    ∃ s tr, exec step (start (.new 1 2 150) 0)
        [.allow_request 0 0, .record_failure 0 1, .allow_request 1 150000001] = some (s, tr)
      ∧ s.request 1 = some ⟨.OPEN, 1⟩ ∧ AtMostOneTrial s := by
  refine ⟨_, _, rfl, rfl, ?_⟩
  refine (half_open_gate 1 2 150 0
    [.allow_request 0 0, .record_failure 0 1, .allow_request 1 150000001] _ _ ?_ rfl).1
  refine ⟨trivial, ?_⟩
  rintro _ _ hs
  cases hs
  refine ⟨?_, ?_⟩
  · intro hst
    cases hst
  · rintro _ _ hs
    cases hs
    exact ⟨trivial, fun _ _ _ => trivial⟩

/-- Without the condition the gate fails. Callers `0` and `1` are admitted while
`CLOSED`; `1` fails and trips the breaker; `2` is the trial. Then `0`, still
running, succeeds: its outcome takes the trial's flag down, and `3` is admitted
as a second trial while `2` is outstanding. -/
theorem half_open_gate_breached :
    ¬ ∀ (failure_threshold success_threshold cooldown_period : ℤ) (clock : Time)
        (ins : List CallerInput) (s : Callers) (tr : List (CircuitBreaker.Call × Option Bool)),
        exec step (start (.new failure_threshold success_threshold cooldown_period) clock) ins
          = some (s, tr) → AtMostOneTrial s := by
  intro h
  have hone := h 1 2 150 0
    [.allow_request 0 0, .allow_request 1 0, .record_failure 1 1, .allow_request 2 150000001,
      .record_success 0 150000002, .allow_request 3 150000003] _ _ rfl
  have heq : (2 : ℕ) = 3 := hone 2 3 _ _ rfl rfl rfl rfl
  omega

/-! ## Recovery -/

/-- No request admitted while `CLOSED` records its outcome while the breaker is
`HALF_OPEN`. -/
def NoLateOutcome (s : Callers) : CallerInput → Prop
  | .allow_request _ _ => True
  | .record_success i _ | .record_failure i _ =>
    s.breaker.state_ = .HALF_OPEN → ∀ r, s.request i = some r → r.trial = true

/-- What it means for one step that recovery is decided by trials only.

The breaker leaves `HALF_OPEN` only through the outcome of a trial of the current
period; it closes only with `success_threshold_` successes and no failure among
the trials of that period; and the outcome of a request admitted while `CLOSED`
leaves a `HALF_OPEN` breaker's state and success count alone. -/
structure DecidedByTrials (s : Callers) (inp : CallerInput) (s' : Callers) : Prop where
  leaves : s.breaker.state_ = .HALF_OPEN → s'.breaker.state_ ≠ .HALF_OPEN →
    ∃ i now r, (inp = .record_success i now ∨ inp = .record_failure i now)
      ∧ s.request i = some r ∧ r.trial = true ∧ r.period = s.period
  closes : s.breaker.state_ = .HALF_OPEN → s'.breaker.state_ = .CLOSED →
    s.breaker.success_threshold_ ≤ s'.trial_successes ∧ s'.trial_failures = 0
  uncounted : s.breaker.state_ = .HALF_OPEN → ∀ i now r,
    (inp = .record_success i now ∨ inp = .record_failure i now) → s.request i = some r →
      r.trial = false → s'.breaker.state_ = s.breaker.state_
        ∧ s'.breaker.consecutive_successes_ = s.breaker.consecutive_successes_

/-- Recovery is decided by trials in whatever the input leads to. -/
def RecoversByTrials (s : Callers) (inp : CallerInput) : Prop :=
  ∀ s' out, step s inp = some (s', out) → DecidedByTrials s inp s'

/-- The gate, and the success count is the tally of the current period's trials,
none of which has failed. -/
structure Tally (s : Callers) : Prop where
  gate : Gate s
  count : s.breaker.state_ = .HALF_OPEN →
    s.breaker.consecutive_successes_ = s.trial_successes ∧ s.trial_failures = 0

theorem noLateOutcome_duringTrial {s : Callers} {inp : CallerInput} (h : NoLateOutcome s inp) :
    NoLateOutcomeDuringTrial s inp := by
  cases inp with
  | allow_request i now => trivial
  | record_success i now => exact fun hst _ => h hst
  | record_failure i now => exact fun hst _ => h hst

/-- An outstanding trial is of the current period, so its outcome is tallied. -/
theorem settle_tally {s : Callers} (hg : Gate s) {i : ℕ} {r : Request} (hr : s.request i = some r)
    (htr : r.trial = true) (now : Time) (ok : Bool) (cb : CircuitBreaker) :
    (s.settle i now r ok cb).trial_successes = s.trial_successes + (if ok then 1 else 0)
      ∧ (s.settle i now r ok cb).trial_failures = s.trial_failures + (if ok then 0 else 1) := by
  have hper := (hg.trial_flag i r hr htr).2
  cases ok <;> simp [settle, htr, hper]

/-- One step under the condition keeps the tally. -/
theorem tally_step {s s' : Callers} {inp : CallerInput}
    {out : List (CircuitBreaker.Call × Option Bool)} (ht : Tally s) (hcond : NoLateOutcome s inp)
    (h : step s inp = some (s', out)) : Tally s' := by
  refine ⟨gate_step ht.gate (noLateOutcome_duringTrial hcond) h, ?_⟩
  rcases step_cases h with ⟨i, now, rfl, -, hans, rfl⟩ | ⟨i, now, rfl, hans, rfl⟩
    | ⟨i, now, r, rfl, hr, rfl⟩ | ⟨i, now, r, rfl, hr, rfl⟩
  · rcases s.breaker.allow_request_cases now with ⟨hst, he⟩ | ⟨-, -, he⟩ | ⟨hst, -, he⟩
      | ⟨-, -, he⟩ | ⟨hst, -, he⟩ <;> rw [he] at hans ⊢
    -- a new period starts with both counts at zero; a further trial leaves them
    · simp [grant, hst]
    · cases hans
    · simp [grant, hst]
    · cases hans
    · simpa [grant, hst] using ht.count hst
  · rw [CircuitBreaker.allow_request_refused hans]
    exact ht.count
  · intro hst'
    rcases s.breaker.record_success_cases with ⟨-, -, he⟩ | ⟨hst, -, he⟩ | ⟨hne, he⟩
    · simp [settle, he] at hst'
    · -- counted, and by the condition it is a trial's success that is counted
      obtain ⟨hsucc, hfail⟩ := settle_tally ht.gate hr (hcond hst r hr) now true
        s.breaker.record_success
      obtain ⟨hcount, hzero⟩ := ht.count hst
      rw [hsucc, hfail, hzero]
      simp [settle, he, hcount]
    · rw [settle_breaker, he] at hst'
      exact absurd hst' hne
  · -- a failure never leaves the breaker `HALF_OPEN`
    intro hst'
    rw [settle_breaker] at hst'
    rcases s.breaker.record_failure_cases now with ⟨-, he⟩ | ⟨-, -, he⟩ | ⟨hst, -, he⟩ | ⟨hst, he⟩
    · rw [he] at hst'; cases hst'
    · rw [he] at hst'; cases hst'
    · rw [he] at hst'; simp [hst] at hst'
    · rw [he, hst] at hst'; cases hst'

/-- From a state with the tally, a step under the condition is decided by
trials. -/
theorem decided_of_noLateOutcome {s s' : Callers} {inp : CallerInput}
    {out : List (CircuitBreaker.Call × Option Bool)} (ht : Tally s) (hcond : NoLateOutcome s inp)
    (h : step s inp = some (s', out)) : DecidedByTrials s inp s' := by
  rcases step_cases h with ⟨i, now, rfl, -, hans, rfl⟩ | ⟨i, now, rfl, hans, rfl⟩
    | ⟨i, now, r, rfl, hr, rfl⟩ | ⟨i, now, r, rfl, hr, rfl⟩
  · -- an admission never leaves `HALF_OPEN`
    have hstay : s.breaker.state_ = .HALF_OPEN →
        (s.grant i now (s.breaker.allow_request now).2).breaker.state_ = .HALF_OPEN := by
      intro hst
      rw [grant_breaker]
      rcases s.breaker.allow_request_cases now with ⟨hc, -⟩ | ⟨hc, -⟩ | ⟨hc, -⟩
        | ⟨-, -, he⟩ | ⟨-, -, he⟩
      · rw [hst] at hc; cases hc
      · rw [hst] at hc; cases hc
      · rw [hst] at hc; cases hc
      · rw [he]; exact hst
      · rw [he]; exact hst
    refine ⟨fun hst hne => absurd (hstay hst) hne, fun hst hcl => ?_, ?_⟩
    · rw [hstay hst] at hcl; cases hcl
    · rintro - j t r (hj | hj) <;> cases hj
  · -- neither does a refusal
    have hsame := CircuitBreaker.allow_request_refused hans
    refine ⟨fun hst hne => ?_, fun hst hcl => ?_, ?_⟩
    · rw [hsame] at hne; exact absurd hst hne
    · rw [hsame, hst] at hcl; cases hcl
    · rintro - j t r (hj | hj) <;> cases hj
  · refine ⟨fun hst _ => ?_, fun hst hcl => ?_, ?_⟩
    · have htr := hcond hst r hr
      exact ⟨i, now, r, Or.inl rfl, hr, htr, (ht.gate.trial_flag i r hr htr).2⟩
    · obtain ⟨hsucc, hfail⟩ := settle_tally ht.gate hr (hcond hst r hr) now true
        s.breaker.record_success
      obtain ⟨hcount, hzero⟩ := ht.count hst
      rw [hsucc, hfail, hzero]
      rcases s.breaker.record_success_cases with ⟨-, hthr, -⟩ | ⟨-, -, he⟩ | ⟨hne, -⟩
      · rw [hcount] at hthr
        exact ⟨by simpa using hthr, by simp⟩
      · rw [settle_breaker, he] at hcl
        simp [hst] at hcl
      · exact absurd hst hne
    · rintro hst j t r' (hj | hj) hr' hno <;> cases hj
      rw [hcond hst r' hr'] at hno
      cases hno
  · refine ⟨fun hst _ => ?_, fun hst hcl => ?_, ?_⟩
    · have htr := hcond hst r hr
      exact ⟨i, now, r, Or.inr rfl, hr, htr, (ht.gate.trial_flag i r hr htr).2⟩
    · -- a failure reopens, so it does not close
      rw [settle_breaker] at hcl
      rcases s.breaker.record_failure_cases now with ⟨-, he⟩ | ⟨hc, -⟩ | ⟨hc, -⟩ | ⟨hc, -⟩
      · rw [he] at hcl; cases hcl
      · rw [hst] at hc; cases hc
      · rw [hst] at hc; cases hc
      · rw [hst] at hc; cases hc
    · rintro hst j t r' (hj | hj) hr' hno <;> cases hj
      rw [hcond hst r' hr'] at hno
      cases hno

/-- In `HALF_OPEN` every recorded outcome counts, whoever records it: a success
moves the count or closes, a failure reopens. -/
theorem outcome_counts {s : Callers} (hst : s.breaker.state_ = .HALF_OPEN) (now : Time) :
    ¬ (s.breaker.record_success.state_ = s.breaker.state_
        ∧ s.breaker.record_success.consecutive_successes_ = s.breaker.consecutive_successes_)
    ∧ ¬ (s.breaker.record_failure now).state_ = s.breaker.state_ := by
  constructor
  · rcases s.breaker.record_success_cases with ⟨-, -, he⟩ | ⟨-, -, he⟩ | ⟨hne, -⟩
    · rw [he, hst]; simp
    · rw [he]; simp
    · exact absurd hst hne
  · rcases s.breaker.record_failure_cases now with ⟨-, he⟩ | ⟨hc, -⟩ | ⟨hc, -⟩ | ⟨hc, -⟩
    · rw [he, hst]; simp
    · rw [hst] at hc; cases hc
    · rw [hst] at hc; cases hc
    · rw [hst] at hc; cases hc

/-- Conversely, an accepted step that is decided by trials meets the
condition. -/
theorem noLateOutcome_of_decided {s s' : Callers} {inp : CallerInput}
    {out : List (CircuitBreaker.Call × Option Bool)} (hdec : DecidedByTrials s inp s')
    (h : step s inp = some (s', out)) : NoLateOutcome s inp := by
  rcases step_cases h with ⟨i, now, rfl, -⟩ | ⟨i, now, rfl, -⟩
    | ⟨i, now, r, rfl, hr, rfl⟩ | ⟨i, now, r, rfl, hr, rfl⟩
  · trivial
  · trivial
  · intro hst r' hr'
    by_contra hno
    exact (outcome_counts hst now).1
      (hdec.uncounted hst i now r' (Or.inl rfl) hr' (by simpa using hno))
  · intro hst r' hr'
    by_contra hno
    exact (outcome_counts hst now).2
      (hdec.uncounted hst i now r' (Or.inr rfl) hr' (by simpa using hno)).1

/-- **Recovery is decided by trials only, exactly when no late outcome lands in
`HALF_OPEN`.** For all thresholds, any number of callers and any interleaving:
every step of a run is decided by trials if and only if no step of it records,
while the breaker is `HALF_OPEN`, the outcome of a request admitted while
`CLOSED`. -/
theorem recovery_by_trials_iff (failure_threshold success_threshold cooldown_period : ℤ)
    (clock : Time) (ins : List CallerInput) (s : Callers)
    (tr : List (CircuitBreaker.Call × Option Bool))
    (h : exec step (start (.new failure_threshold success_threshold cooldown_period) clock) ins
      = some (s, tr)) :
    Along step RecoversByTrials
        (start (.new failure_threshold success_threshold cooldown_period) clock) ins
      ↔ Along step NoLateOutcome
        (start (.new failure_threshold success_threshold cooldown_period) clock) ins := by
  -- along the run the tally holds as long as the condition does, and under the tally the
  -- two conditions agree step by step
  refine along_congr (I := Tally) (fun s i s' out ht hc hs => tally_step ht hc hs) ?_ ?_ h
  · intro s i s' out ht hs
    constructor
    · intro hrec
      exact noLateOutcome_of_decided (hrec s' out hs) hs
    · intro hc s'' out' hs'
      exact decided_of_noLateOutcome ht hc hs'
  · refine ⟨gate_start failure_threshold success_threshold cooldown_period clock, ?_⟩
    intro hst
    simp [start, CircuitBreaker.new] at hst

/-- A trip and a recovery through two trials, with no late outcome: every step is
decided by trials. -/
theorem recovery_by_trials_two_trials :
    Along step RecoversByTrials (start (.new 1 2 150) 0)
      [.allow_request 0 0, .record_failure 0 1, .allow_request 1 150000001,
        .record_success 1 150000002, .allow_request 2 150000003, .record_success 2 150000004] := by
  refine (recovery_by_trials_iff 1 2 150 0 _ _ _ rfl).mpr ?_
  refine ⟨trivial, ?_⟩
  rintro _ _ hs
  cases hs
  refine ⟨by rintro ⟨⟩, ?_⟩
  rintro _ _ hs
  cases hs
  refine ⟨trivial, ?_⟩
  rintro _ _ hs
  cases hs
  refine ⟨by rintro - r hr; cases hr; rfl, ?_⟩
  rintro _ _ hs
  cases hs
  refine ⟨trivial, ?_⟩
  rintro _ _ hs
  cases hs
  exact ⟨by rintro - r hr; cases hr; rfl, fun _ _ _ => trivial⟩

/-- Without the condition recovery is not decided by trials. Callers `0`, `1` and
`2` are admitted while `CLOSED`; `2` trips the breaker; `3` is the trial. The late
successes of `0` and `1` close the breaker with the trial still outstanding and
no trial having succeeded. -/
theorem recovery_by_late_outcomes :
    ¬ ∀ (failure_threshold success_threshold cooldown_period : ℤ) (clock : Time)
        (ins : List CallerInput) (s : Callers) (tr : List (CircuitBreaker.Call × Option Bool)),
        1 ≤ success_threshold →
        exec step (start (.new failure_threshold success_threshold cooldown_period) clock) ins
          = some (s, tr) →
        Along step RecoversByTrials
          (start (.new failure_threshold success_threshold cooldown_period) clock) ins := by
  intro h
  have hall := h 1 2 150 0
    [.allow_request 0 0, .allow_request 1 0, .allow_request 2 0, .record_failure 2 1,
      .allow_request 3 150000001, .record_success 0 150000002, .record_success 1 150000003]
    _ _ (by decide) rfl
  have hlast := ((((((hall.2 _ _ rfl).2 _ _ rfl).2 _ _ rfl).2 _ _ rfl).2 _ _ rfl).2 _ _ rfl).1
  have hclose := ((hlast _ _ rfl).closes rfl rfl).1
  exact absurd hclose (by decide)

end Callers

end AegisProxy
