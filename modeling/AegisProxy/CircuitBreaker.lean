/-
`circuit_breaker.{hpp,cpp}`: the per-backend breaker, as the code computes it.

The three operations are pure functions on the object's fields. The clock is an
argument: `allow_request` and `record_failure` read `steady_clock::now()` at most
once per call, so one reading per call is exactly what the code sees. The mutex
is not modelled -- each operation holds it for its whole body, so calls are
atomic and a run is a sequence of calls.

Counters and thresholds are `int` in the source and `ℤ` here. The counters never
pass their thresholds while they are being counted, so no addition can overflow
where the thresholds themselves fit. Readings of the clock are not negative, so the
difference of two of them fits too. What can overflow is the conversion of
`cooldown_period_` from milliseconds to the clock's nanoseconds, a multiplication in
64 bits: `cooldown` wraps as it does, and is the period itself where the product fits
(`cooldown_eq`). `main` passes `5000`.

The last section is the isolation of the cooldown window: from the moment a
breaker is `OPEN`, nothing but an `allow_request` at or after
`opened_at_` and the cooldown can move it.
-/
import AegisProxy.Lib.Runs
import Mathlib.Data.Int.Basic
import Mathlib.Tactic.Ring
import Mathlib.Tactic.Linarith

set_option autoImplicit false

namespace AegisProxy

open Runs

/-! ## The object -/

/-- A `steady_clock::time_point`, in clock ticks of one nanosecond. -/
abbrev Time := ℤ

/-- `enum class BreakerState`. -/
inductive BreakerState
  | CLOSED
  | OPEN
  | HALF_OPEN
  deriving DecidableEq, Repr

/-- The fields of `CircuitBreaker`. `cooldown_period_` is in milliseconds, as in
the source. -/
structure CircuitBreaker where
  state_ : BreakerState
  failure_threshold_ : ℤ
  success_threshold_ : ℤ
  cooldown_period_ : ℤ
  consecutive_failures_ : ℤ
  consecutive_successes_ : ℤ
  opened_at_ : Time
  half_open_trial_in_flight_ : Bool
  deriving DecidableEq, Repr

namespace CircuitBreaker

/-- The constructor: `CLOSED`, all counters zero, no trial in flight. `opened_at_`
is a default-constructed time point, the clock's epoch. -/
def new (failure_threshold success_threshold cooldown_period : ℤ) : CircuitBreaker where
  state_ := .CLOSED
  failure_threshold_ := failure_threshold
  success_threshold_ := success_threshold
  cooldown_period_ := cooldown_period
  consecutive_failures_ := 0
  consecutive_successes_ := 0
  opened_at_ := 0
  half_open_trial_in_flight_ := false

/-- `cooldown_period_` in clock ticks: what `now - opened_at_` is compared with
once `std::chrono` has brought both sides to the finer period, which it does with one
multiplication in 64 bits. -/
def cooldown (cb : CircuitBreaker) : ℤ := (cb.cooldown_period_ * 1000000).bmod (2 ^ 64)

/-- A period whose nanoseconds are a 64-bit number. -/
def TicksFit (cooldown_period : ℤ) : Prop :=
  -2 ^ 63 ≤ cooldown_period * 1000000 ∧ cooldown_period * 1000000 < 2 ^ 63

instance (cooldown_period : ℤ) : Decidable (TicksFit cooldown_period) :=
  inferInstanceAs (Decidable (_ ∧ _))

/-- The conversion is exact where the product fits. -/
theorem cooldown_eq {cb : CircuitBreaker} (h : TicksFit cb.cooldown_period_) :
    cb.cooldown = cb.cooldown_period_ * 1000000 := by
  obtain ⟨hlow, hhigh⟩ := h
  exact Int.bmod_eq_of_le (by omega) (by omega)

/-- `CircuitBreaker::allow_request`. -/
def allow_request (cb : CircuitBreaker) (now : Time) : Bool × CircuitBreaker :=
  if cb.state_ = .CLOSED then (true, cb)
  else if cb.state_ = .OPEN then
    -- still cooling down, or this request becomes the first trial
    if now - cb.opened_at_ < cb.cooldown then (false, cb)
    else
      (true, { cb with
        state_ := .HALF_OPEN
        consecutive_successes_ := 0
        half_open_trial_in_flight_ := true })
  -- `HALF_OPEN`: one trial at a time
  else if cb.half_open_trial_in_flight_ then (false, cb)
  else (true, { cb with half_open_trial_in_flight_ := true })

/-- `CircuitBreaker::record_success`. Outside `HALF_OPEN` -- so also in `OPEN` --
it only resets the failure streak. -/
def record_success (cb : CircuitBreaker) : CircuitBreaker :=
  if cb.state_ = .HALF_OPEN then
    if cb.consecutive_successes_ + 1 ≥ cb.success_threshold_ then
      { cb with
        half_open_trial_in_flight_ := false
        state_ := .CLOSED
        consecutive_failures_ := 0
        consecutive_successes_ := 0 }
    else
      { cb with
        half_open_trial_in_flight_ := false
        consecutive_successes_ := cb.consecutive_successes_ + 1 }
  else { cb with consecutive_failures_ := 0 }

/-- `CircuitBreaker::record_failure`. -/
def record_failure (cb : CircuitBreaker) (now : Time) : CircuitBreaker :=
  if cb.state_ = .HALF_OPEN then
    { cb with
      half_open_trial_in_flight_ := false
      state_ := .OPEN
      opened_at_ := now
      consecutive_successes_ := 0 }
  else if cb.state_ = .CLOSED then
    if cb.consecutive_failures_ + 1 ≥ cb.failure_threshold_ then
      { cb with
        consecutive_failures_ := cb.consecutive_failures_ + 1
        state_ := .OPEN
        opened_at_ := now }
    else { cb with consecutive_failures_ := cb.consecutive_failures_ + 1 }
  -- `OPEN`: a late failure neither counts nor moves `opened_at_`
  else cb

/-- `CircuitBreaker::state`. -/
def state (cb : CircuitBreaker) : BreakerState := cb.state_

/-! ## Sequences of calls

A call is one of the three operations at a clock reading; `record_success` reads
no clock but still happens at some time. The machine below answers a call and
moves the object. Its trace pairs each call with its return value. -/

/-- One call on a breaker, at a clock reading. -/
inductive Call
  | allow_request (now : Time)
  | record_success (now : Time)
  | record_failure (now : Time)
  deriving DecidableEq, Repr

/-- When a call happens. -/
def Call.time : Call → Time
  | .allow_request now => now
  | .record_success now => now
  | .record_failure now => now

/-- The return value of a call (`none` for the two `void` operations) and the
object after it. -/
def call (cb : CircuitBreaker) : Call → Option Bool × CircuitBreaker
  | .allow_request now => (some (cb.allow_request now).1, (cb.allow_request now).2)
  | .record_success _ => (none, cb.record_success)
  | .record_failure now => (none, cb.record_failure now)

/-- One call as a machine step. No call is ever refused. -/
def callStep (cb : CircuitBreaker) (c : Call) :
    Option (CircuitBreaker × List (Call × Option Bool)) :=
  some ((cb.call c).2, [(c, (cb.call c).1)])

/-! ## What each operation can do

One inversion lemma per operation; no proof above this section unfolds them. -/

/-- What `allow_request` can do: pass while `CLOSED`; refuse while cooling down;
open a `HALF_OPEN` period with its first trial; refuse while a trial is in
flight; grant a further trial. -/
theorem allow_request_cases (cb : CircuitBreaker) (now : Time) :
    (cb.state_ = .CLOSED ∧ cb.allow_request now = (true, cb))
    ∨ (cb.state_ = .OPEN ∧ now < cb.opened_at_ + cb.cooldown
        ∧ cb.allow_request now = (false, cb))
    ∨ (cb.state_ = .OPEN ∧ cb.opened_at_ + cb.cooldown ≤ now
        ∧ cb.allow_request now = (true, { cb with
            state_ := .HALF_OPEN
            consecutive_successes_ := 0
            half_open_trial_in_flight_ := true }))
    ∨ (cb.state_ = .HALF_OPEN ∧ cb.half_open_trial_in_flight_ = true
        ∧ cb.allow_request now = (false, cb))
    ∨ (cb.state_ = .HALF_OPEN ∧ cb.half_open_trial_in_flight_ = false
        ∧ cb.allow_request now = (true, { cb with half_open_trial_in_flight_ := true })) := by
  cases hst : cb.state_ with
  | CLOSED => simp [allow_request, hst]
  | OPEN =>
      by_cases hcool : now - cb.opened_at_ < cb.cooldown
      · have hlt : now < cb.opened_at_ + cb.cooldown := by linarith
        simp [allow_request, hst, hcool, hlt]
      · have hle : cb.opened_at_ + cb.cooldown ≤ now := by linarith
        simp [allow_request, hst, hcool, hle]
  | HALF_OPEN =>
      cases hfl : cb.half_open_trial_in_flight_ <;> simp [allow_request, hst, hfl]

/-- What `record_success` can do: close, count, or reset the failure streak. -/
theorem record_success_cases (cb : CircuitBreaker) :
    (cb.state_ = .HALF_OPEN ∧ cb.success_threshold_ ≤ cb.consecutive_successes_ + 1
        ∧ cb.record_success = { cb with
            half_open_trial_in_flight_ := false
            state_ := .CLOSED
            consecutive_failures_ := 0
            consecutive_successes_ := 0 })
    ∨ (cb.state_ = .HALF_OPEN ∧ cb.consecutive_successes_ + 1 < cb.success_threshold_
        ∧ cb.record_success = { cb with
            half_open_trial_in_flight_ := false
            consecutive_successes_ := cb.consecutive_successes_ + 1 })
    ∨ (cb.state_ ≠ .HALF_OPEN
        ∧ cb.record_success = { cb with consecutive_failures_ := 0 }) := by
  by_cases hst : cb.state_ = .HALF_OPEN
  · by_cases hthr : cb.success_threshold_ ≤ cb.consecutive_successes_ + 1
    · simp [record_success, hst, hthr]
    · have hlt : cb.consecutive_successes_ + 1 < cb.success_threshold_ := by linarith
      simp [record_success, hst, hthr, hlt]
  · simp [record_success, hst]

/-- What `record_failure` can do: reopen, trip, count, or nothing. -/
theorem record_failure_cases (cb : CircuitBreaker) (now : Time) :
    (cb.state_ = .HALF_OPEN
        ∧ cb.record_failure now = { cb with
            half_open_trial_in_flight_ := false
            state_ := .OPEN
            opened_at_ := now
            consecutive_successes_ := 0 })
    ∨ (cb.state_ = .CLOSED ∧ cb.failure_threshold_ ≤ cb.consecutive_failures_ + 1
        ∧ cb.record_failure now = { cb with
            consecutive_failures_ := cb.consecutive_failures_ + 1
            state_ := .OPEN
            opened_at_ := now })
    ∨ (cb.state_ = .CLOSED ∧ cb.consecutive_failures_ + 1 < cb.failure_threshold_
        ∧ cb.record_failure now = { cb with
            consecutive_failures_ := cb.consecutive_failures_ + 1 })
    ∨ (cb.state_ = .OPEN ∧ cb.record_failure now = cb) := by
  cases hst : cb.state_ with
  | HALF_OPEN => simp [record_failure, hst]
  | CLOSED =>
      by_cases hthr : cb.failure_threshold_ ≤ cb.consecutive_failures_ + 1
      · simp [record_failure, hst, hthr]
      · have hlt : cb.consecutive_failures_ + 1 < cb.failure_threshold_ := by linarith
        simp [record_failure, hst, hthr, hlt]
  | OPEN => simp [record_failure, hst]

/-- A refusal leaves the object as it was. -/
theorem allow_request_refused {cb : CircuitBreaker} {now : Time}
    (h : (cb.allow_request now).1 = false) : (cb.allow_request now).2 = cb := by
  rcases cb.allow_request_cases now with ⟨-, he⟩ | ⟨-, -, he⟩ | ⟨-, -, he⟩ | ⟨-, -, he⟩
    | ⟨-, -, he⟩
  · rw [he]
  · rw [he]
  · rw [he] at h
    cases h
  · rw [he]
  · rw [he] at h
    cases h

/-- A success takes the flag down in `HALF_OPEN`, whoever reports it, and leaves it
elsewhere. -/
theorem record_success_flag (cb : CircuitBreaker) :
    cb.record_success.half_open_trial_in_flight_
      = if cb.state_ = .HALF_OPEN then false else cb.half_open_trial_in_flight_ := by
  rcases cb.record_success_cases with ⟨hst, -, he⟩ | ⟨hst, -, he⟩ | ⟨hst, he⟩
  · rw [he, if_pos hst]
  · rw [he, if_pos hst]
  · rw [he, if_neg hst]

/-- And so does a failure. -/
theorem record_failure_flag (cb : CircuitBreaker) (now : Time) :
    (cb.record_failure now).half_open_trial_in_flight_
      = if cb.state_ = .HALF_OPEN then false else cb.half_open_trial_in_flight_ := by
  rcases cb.record_failure_cases now with ⟨hst, he⟩ | ⟨hst, -, he⟩ | ⟨hst, -, he⟩ | ⟨hst, he⟩
  · rw [he, if_pos hst]
  · rw [he, if_neg (by rw [hst]; decide)]
  · rw [he, if_neg (by rw [hst]; decide)]
  · rw [he, if_neg (by rw [hst]; decide)]

/-! ## The cooldown window -/

/-- The call does not ask for admission at `t` or later. -/
def Call.asksBefore (t : Time) : Call → Prop
  | .allow_request now => now < t
  | _ => True

/-- `OPEN` since `t₀`, with a cooldown of `d` ticks. -/
structure OpenSince (cb : CircuitBreaker) (t₀ : Time) (d : ℤ) : Prop where
  state : cb.state_ = .OPEN
  opened_at : cb.opened_at_ = t₀
  cooldown : cb.cooldown = d

/-- No operation changes the cooldown. -/
theorem call_cooldown_period (cb : CircuitBreaker) (c : Call) :
    (cb.call c).2.cooldown_period_ = cb.cooldown_period_ := by
  cases c with
  | allow_request now =>
      rcases cb.allow_request_cases now with ⟨-, he⟩ | ⟨-, -, he⟩ | ⟨-, -, he⟩ | ⟨-, -, he⟩
        | ⟨-, -, he⟩ <;> simp [call, he]
  | record_success now =>
      rcases cb.record_success_cases with ⟨-, -, he⟩ | ⟨-, -, he⟩ | ⟨-, he⟩ <;> simp [call, he]
  | record_failure now =>
      rcases cb.record_failure_cases now with ⟨-, he⟩ | ⟨-, -, he⟩ | ⟨-, -, he⟩ | ⟨-, he⟩ <;>
        simp [call, he]

theorem call_cooldown (cb : CircuitBreaker) (c : Call) : (cb.call c).2.cooldown = cb.cooldown := by
  rw [cooldown, cooldown, call_cooldown_period]

/-- A breaker enters `OPEN` by a `record_failure`, and is then open since that
call. -/
theorem openSince_enter {cb : CircuitBreaker} {c : Call} (hst : cb.state_ ≠ .OPEN)
    (hopen : (cb.call c).2.state_ = .OPEN) : OpenSince (cb.call c).2 c.time cb.cooldown := by
  refine ⟨hopen, ?_, cb.call_cooldown c⟩
  cases c with
  | allow_request now =>
      -- `allow_request` only ever leaves `OPEN`
      rcases cb.allow_request_cases now with ⟨hc, he⟩ | ⟨hc, -⟩ | ⟨hc, -⟩ | ⟨hc, -, he⟩
        | ⟨hc, -, he⟩
      · simp [call, he, hc] at hopen
      · exact absurd hc hst
      · exact absurd hc hst
      · simp [call, he, hc] at hopen
      · simp [call, he, hc] at hopen
  | record_success now =>
      rcases cb.record_success_cases with ⟨-, -, he⟩ | ⟨hc, -, he⟩ | ⟨-, he⟩
      · simp [call, he] at hopen
      · simp [call, he, hc] at hopen
      · simp only [call, he] at hopen
        exact absurd hopen hst
  | record_failure now =>
      rcases cb.record_failure_cases now with ⟨-, he⟩ | ⟨-, -, he⟩ | ⟨hc, -, he⟩ | ⟨hc, -⟩
      · simp [call, he, Call.time]
      · simp [call, he, Call.time]
      · simp [call, he, hc] at hopen
      · exact absurd hc hst

/-- One call inside the window: the breaker stays as it is, and admission is
refused. -/
theorem openSince_call {cb : CircuitBreaker} {c : Call} {t₀ : Time} {d : ℤ}
    (h : OpenSince cb t₀ d) (hc : c.asksBefore (t₀ + d)) :
    OpenSince (cb.call c).2 t₀ d
      ∧ (∀ now, c = .allow_request now → (cb.call c).1 = some false) := by
  have hstay : (cb.call c).2.state_ = .OPEN ∧ (cb.call c).2.opened_at_ = cb.opened_at_
      ∧ (∀ now, c = .allow_request now → (cb.call c).1 = some false) := by
    cases c with
    | allow_request now =>
        have hlt : now < cb.opened_at_ + cb.cooldown := by
          rw [h.opened_at, h.cooldown]
          exact hc
        -- of what `allow_request` can do, only the refusal fits `OPEN` and the time
        rcases cb.allow_request_cases now with ⟨hs, -⟩ | ⟨-, -, he⟩ | ⟨-, hle, -⟩ | ⟨hs, -⟩
          | ⟨hs, -⟩
        · rw [h.state] at hs
          cases hs
        · simp [call, he, h.state]
        · exact absurd hlt (not_lt.mpr hle)
        · rw [h.state] at hs
          cases hs
        · rw [h.state] at hs
          cases hs
    | record_success now =>
        rcases cb.record_success_cases with ⟨hs, -⟩ | ⟨hs, -⟩ | ⟨-, he⟩
        · rw [h.state] at hs
          cases hs
        · rw [h.state] at hs
          cases hs
        · simp [call, he, h.state]
    | record_failure now =>
        rcases cb.record_failure_cases now with ⟨hs, -⟩ | ⟨hs, -⟩ | ⟨hs, -⟩ | ⟨-, he⟩
        · rw [h.state] at hs
          cases hs
        · rw [h.state] at hs
          cases hs
        · rw [h.state] at hs
          cases hs
        · simp [call, he, h.state]
  exact ⟨⟨hstay.1, hstay.2.1.trans h.opened_at, (cb.call_cooldown c).trans h.cooldown⟩,
    hstay.2.2⟩

/-- **The window is isolated.** Through any calls that do not ask for admission
after the cooldown, the breaker stays open since `t₀` and refuses every
request. -/
theorem openSince_calls {cb cb' : CircuitBreaker} {t₀ : Time} {d : ℤ}
    {cs : List Call} {outs : List (Call × Option Bool)} (h : OpenSince cb t₀ d)
    (hcs : ∀ c ∈ cs, c.asksBefore (t₀ + d)) (hrun : exec callStep cb cs = some (cb', outs)) :
    OpenSince cb' t₀ d
      ∧ (∀ now answer, (.allow_request now, answer) ∈ outs → answer = some false) := by
  have hinv := exec_invariant_along
    (P := fun _ c => Call.asksBefore (t₀ + d) c)
    (I := fun cb outs => OpenSince cb t₀ d
      ∧ ∀ now answer, (.allow_request now, answer) ∈ outs → answer = some false)
    (fun cb outs c cb' out hs hc he => by
      obtain ⟨hopen, hrefused⟩ := hs
      cases he
      obtain ⟨hopen', hans⟩ := openSince_call hopen hc
      refine ⟨hopen', ?_⟩
      intro now answer hmem
      rcases List.mem_append.mp hmem with hmem | hmem
      · exact hrefused now answer hmem
      · cases List.mem_singleton.mp hmem
        exact hans now rfl)
    ⟨h, by simp⟩ (along_of_mem (fun c hc _ => hcs c hc) cb) hrun
  exact hinv

/-- After the window the next request is admitted; inside it none is. -/
theorem openSince_allow_request {cb : CircuitBreaker} {t₀ : Time} {d : ℤ}
    (h : OpenSince cb t₀ d) (now : Time) :
    (cb.allow_request now).1 = true ↔ t₀ + d ≤ now := by
  have hcool : cb.opened_at_ + cb.cooldown = t₀ + d := by
    rw [h.opened_at, h.cooldown]
  rcases cb.allow_request_cases now with ⟨hs, -⟩ | ⟨-, hlt, he⟩ | ⟨-, hle, he⟩ | ⟨hs, -⟩ | ⟨hs, -⟩
  · rw [h.state] at hs
    cases hs
  · rw [hcool] at hlt
    rw [he]
    simpa using hlt
  · rw [hcool] at hle
    rw [he]
    simpa using hle
  · rw [h.state] at hs
    cases hs
  · rw [h.state] at hs
    cases hs

end CircuitBreaker

end AegisProxy
