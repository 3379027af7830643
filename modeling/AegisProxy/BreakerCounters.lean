/-
What the breaker's two counters count.

`circuit_breaker.cpp` resets its counters in some transitions and leaves them stale in
others: `consecutive_failures_` keeps its value when the breaker trips and through
`HALF_OPEN`, a late success in `OPEN` resets it, `consecutive_successes_` is reset in three
places. What they mean is said here by the calls alone. While the breaker is `CLOSED`, the
first is the number of `record_failure` calls since the last `record_success`; while it is
`HALF_OPEN`, the second is the number of `record_success` calls since it came into
`HALF_OPEN`.

The invariant is `Counters`, over the object, the whole trace, and the part of the trace
since `HALF_OPEN` was entered (`Runs.since`). It needs nothing of the clock: `opened_at_` and
the cooldown decide when `OPEN` is left, not what is counted.
-/
import AegisProxy.CircuitBreaker
import Mathlib.Data.List.DropRight

set_option autoImplicit false

namespace AegisProxy

open Runs

namespace CircuitBreaker

/-! ## Counting calls -/

/-- The trace entry is a `record_success`. -/
def isRecordSuccess : Call × Option Bool → Bool
  | (.record_success _, _) => true
  | _ => false

/-- The trace entry is a `record_failure`. -/
def isRecordFailure : Call × Option Bool → Bool
  | (.record_failure _, _) => true
  | _ => false

/-- The trace entry is one of the two `record_*` calls. -/
def isRecord (e : Call × Option Bool) : Bool := isRecordSuccess e || isRecordFailure e

/-- The trace entry is an `allow_request` that returned `true`. -/
def isAdmitted (e : Call × Option Bool) : Bool := e.2 == some true

/-- The number of `record_failure` calls since the last `record_success`, or since
construction if there was none. -/
def failuresSinceSuccess (tr : List (Call × Option Bool)) : ℕ :=
  (tr.rtakeWhile fun e => !isRecordSuccess e).countP isRecordFailure

/-- The breaker is in its trial period. -/
def isHalfOpen (cb : CircuitBreaker) : Bool := cb.state_ == .HALF_OPEN

/-- The calls of a run since the breaker last came into `HALF_OPEN`, the request that took it
there included. -/
def sinceHalfOpen (cb : CircuitBreaker) (cs : List Call) : List (Call × Option Bool) :=
  since callStep isHalfOpen cb cs []

theorem isHalfOpen_iff {cb : CircuitBreaker} : cb.isHalfOpen = true ↔ cb.state_ = .HALF_OPEN := by
  simp [isHalfOpen]

theorem isHalfOpen_eq_false {cb : CircuitBreaker} (h : cb.state_ ≠ .HALF_OPEN) :
    cb.isHalfOpen = false := by
  simp [isHalfOpen, h]

@[simp] theorem failuresSinceSuccess_nil : failuresSinceSuccess [] = 0 := by
  simp [failuresSinceSuccess]

/-- A success starts the count over, a failure adds one, a request changes nothing. -/
theorem failuresSinceSuccess_concat (tr : List (Call × Option Bool)) (c : Call)
    (answer : Option Bool) :
    failuresSinceSuccess (tr ++ [(c, answer)])
      = match c with
        | .record_success _ => 0
        | .record_failure _ => failuresSinceSuccess tr + 1
        | .allow_request _ => failuresSinceSuccess tr := by
  unfold failuresSinceSuccess
  rw [List.rtakeWhile_concat]
  cases c with
  | allow_request now => simp [isRecordSuccess, isRecordFailure, List.countP_append]
  | record_success now => simp [isRecordSuccess]
  | record_failure now => simp [isRecordSuccess, isRecordFailure, List.countP_append]

/-! ## The invariant -/

/-- The counters of a breaker with thresholds `f` and `s`, after the calls `tr`, of which
`period` are those since `HALF_OPEN` was entered. -/
structure Counters (f s : ℤ) (cb : CircuitBreaker) (tr period : List (Call × Option Bool)) :
    Prop where
  failure_threshold : cb.failure_threshold_ = f
  success_threshold : cb.success_threshold_ = s
  closed : cb.state_ = .CLOSED →
    cb.consecutive_failures_ = failuresSinceSuccess tr ∧ cb.consecutive_failures_ < f
  half_open : cb.state_ = .HALF_OPEN → cb.consecutive_successes_ = period.countP isRecordSuccess
  trial : cb.half_open_trial_in_flight_ = true → cb.state_ = .HALF_OPEN
  -- a request admitted and not yet answered for is the one in flight
  admitted : cb.state_ = .HALF_OPEN →
    period.countP isAdmitted
      ≤ period.countP isRecord + (if cb.half_open_trial_in_flight_ then 1 else 0)
  failures : 0 ≤ cb.consecutive_failures_ ∧ cb.consecutive_failures_ ≤ f
  successes : 0 ≤ cb.consecutive_successes_ ∧ cb.consecutive_successes_ < s

section Step

variable {f s : ℤ} {cb : CircuitBreaker} {tr period : List (Call × Option Bool)}

/-- Outside `HALF_OPEN` nothing is said of the trial period, only that no trial is in
flight. -/
theorem counters_outside (hthr : cb.failure_threshold_ = f ∧ cb.success_threshold_ = s)
    (hst : cb.state_ ≠ .HALF_OPEN) (hflag : cb.half_open_trial_in_flight_ = false)
    (hclosed : cb.state_ = .CLOSED →
      cb.consecutive_failures_ = failuresSinceSuccess tr ∧ cb.consecutive_failures_ < f)
    (hfail : 0 ≤ cb.consecutive_failures_ ∧ cb.consecutive_failures_ ≤ f)
    (hsucc : 0 ≤ cb.consecutive_successes_ ∧ cb.consecutive_successes_ < s) :
    Counters f s cb tr period where
  failure_threshold := hthr.1
  success_threshold := hthr.2
  closed := hclosed
  half_open hh := absurd hh hst
  trial hh := by rw [hflag] at hh; cases hh
  admitted hh := absurd hh hst
  failures := hfail
  successes := hsucc

theorem counters_new (hf : 1 ≤ f) (hs : 1 ≤ s) (cooldown_period : ℤ) :
    Counters f s (new f s cooldown_period) [] [] := by
  refine counters_outside ⟨rfl, rfl⟩ (fun hh => nomatch hh) rfl (fun _ => ⟨?_, ?_⟩) ⟨le_refl 0, ?_⟩
    ⟨le_refl 0, ?_⟩
  · rw [failuresSinceSuccess_nil]
    rfl
  · show (0 : ℤ) < f
    omega
  · show (0 : ℤ) ≤ f
    omega
  · show (0 : ℤ) < s
    omega

/-- No trial is in flight outside `HALF_OPEN`. -/
theorem Counters.flag_down (h : Counters f s cb tr period) (hst : cb.state_ ≠ .HALF_OPEN) :
    cb.half_open_trial_in_flight_ = false :=
  Bool.eq_false_iff.mpr fun hh => hst (h.trial hh)

/-- In a trial period at most one request more is admitted than records come in. -/
theorem Counters.admitted_le (h : Counters f s cb tr period) (hst : cb.state_ = .HALF_OPEN) :
    period.countP isAdmitted ≤ period.countP isRecord + 1 := by
  have hadmitted := h.admitted hst
  split at hadmitted
  · exact hadmitted
  · omega

/-- The calls since `HALF_OPEN` was entered, after one that stays there. -/
theorem carry_stay {cb' : CircuitBreaker} (h : cb.state_ = .HALF_OPEN)
    (h' : cb'.state_ = .HALF_OPEN) (out : List (Call × Option Bool)) :
    carry isHalfOpen cb cb' period out = period ++ out := by
  rw [carry, if_pos (isHalfOpen_iff.mpr h'), if_pos (isHalfOpen_iff.mpr h)]

/-- After the one that enters it. -/
theorem carry_enter {cb' : CircuitBreaker} (h : cb.state_ ≠ .HALF_OPEN)
    (h' : cb'.state_ = .HALF_OPEN) (out : List (Call × Option Bool)) :
    carry isHalfOpen cb cb' period out = out := by
  rw [carry, if_pos (isHalfOpen_iff.mpr h'), if_neg (by rw [isHalfOpen_eq_false h]; decide)]

/-- A request that leaves the object as it is: `CLOSED`, cooling down, or refused because
a trial is in flight. -/
theorem counters_unmoved (h : Counters f s cb tr period) (now : Time) {answer : Bool}
    (hans : cb.state_ = .HALF_OPEN → answer = false) :
    Counters f s cb (tr ++ [(.allow_request now, some answer)])
      (carry isHalfOpen cb cb period [(.allow_request now, some answer)]) where
  failure_threshold := h.failure_threshold
  success_threshold := h.success_threshold
  closed hst := by
    rw [failuresSinceSuccess_concat]
    exact h.closed hst
  half_open hst := by
    rw [carry_stay hst hst, List.countP_append, h.half_open hst]
    simp [isRecordSuccess]
  trial := h.trial
  admitted hst := by
    rw [carry_stay hst hst, List.countP_append, List.countP_append, hans hst]
    simpa [isAdmitted, isRecord, isRecordSuccess, isRecordFailure] using h.admitted hst
  failures := h.failures
  successes := h.successes

/-- The request that opens the trial period is the first of its calls. -/
theorem counters_enter (h : Counters f s cb tr period) (hs : 1 ≤ s) (now : Time)
    (hst : cb.state_ = .OPEN) {cb' : CircuitBreaker}
    (he : cb' = { cb with
      state_ := .HALF_OPEN
      consecutive_successes_ := 0
      half_open_trial_in_flight_ := true }) :
    Counters f s cb' (tr ++ [(.allow_request now, some true)])
      (carry isHalfOpen cb cb' period [(.allow_request now, some true)]) := by
  have hcarry : carry isHalfOpen cb cb' period [(.allow_request now, some true)]
      = [(.allow_request now, some true)] :=
    carry_enter (by rw [hst]; decide) (by rw [he]) _
  rw [hcarry]
  subst he
  exact {
    failure_threshold := h.failure_threshold
    success_threshold := h.success_threshold
    closed := fun hc => nomatch hc
    half_open := fun _ => rfl
    trial := fun _ => rfl
    admitted := fun _ => by simp [isAdmitted, isRecord, isRecordSuccess, isRecordFailure]
    failures := h.failures
    successes := ⟨le_refl 0, by show (0 : ℤ) < s; omega⟩ }

/-- A further trial of the same period. -/
theorem counters_trial (h : Counters f s cb tr period) (now : Time)
    (hst : cb.state_ = .HALF_OPEN) (hfree : cb.half_open_trial_in_flight_ = false)
    {cb' : CircuitBreaker} (he : cb' = { cb with half_open_trial_in_flight_ := true }) :
    Counters f s cb' (tr ++ [(.allow_request now, some true)])
      (carry isHalfOpen cb cb' period [(.allow_request now, some true)]) := by
  have hadmitted := h.admitted hst
  rw [hfree] at hadmitted
  rw [carry_stay hst (by rw [he]; exact hst)]
  subst he
  exact {
    failure_threshold := h.failure_threshold
    success_threshold := h.success_threshold
    closed := fun hc => by rw [hst] at hc; cases hc
    half_open := fun _ => by simpa [isRecordSuccess] using h.half_open hst
    trial := fun _ => hst
    admitted := fun _ => by
      simpa [isAdmitted, isRecord, isRecordSuccess, isRecordFailure] using hadmitted
    failures := h.failures
    successes := h.successes }

theorem counters_allow_request (h : Counters f s cb tr period) (hs : 1 ≤ s) (now : Time) :
    Counters f s (cb.allow_request now).2
      (tr ++ [(.allow_request now, some (cb.allow_request now).1)])
      (carry isHalfOpen cb (cb.allow_request now).2 period
        [(.allow_request now, some (cb.allow_request now).1)]) := by
  rcases cb.allow_request_cases now with ⟨hst, he⟩ | ⟨hst, -, he⟩ | ⟨hst, -, he⟩ | ⟨hst, -, he⟩
    | ⟨hst, hfree, he⟩
  · rw [he]
    exact counters_unmoved h now fun hh => by rw [hst] at hh; cases hh
  · rw [he]
    exact counters_unmoved h now fun _ => rfl
  · rw [he]
    exact counters_enter h hs now hst rfl
  · rw [he]
    exact counters_unmoved h now fun _ => rfl
  · rw [he]
    exact counters_trial h now hst hfree rfl

/-! ### The two records

A record either ends the trial period, or it is one more record of it, or it comes
outside. -/

theorem counters_record_success (h : Counters f s cb tr period) (hf : 1 ≤ f) (hs : 1 ≤ s)
    (now : Time) :
    Counters f s cb.record_success (tr ++ [(.record_success now, none)])
      (carry isHalfOpen cb cb.record_success period [(.record_success now, none)]) := by
  have hthr := And.intro h.failure_threshold h.success_threshold
  -- the streak starts over, in `CLOSED` as in the trace
  have hzero : (0 : ℤ) = failuresSinceSuccess (tr ++ [(.record_success now, none)]) ∧ 0 < f := by
    rw [failuresSinceSuccess_concat]
    exact ⟨rfl, by omega⟩
  have hlow : (0 : ℤ) ≤ 0 ∧ 0 ≤ f := ⟨le_refl 0, by omega⟩
  rcases cb.record_success_cases with ⟨hst, -, he⟩ | ⟨hst, hlt, he⟩ | ⟨hst, he⟩
  · -- closes
    rw [he]
    exact counters_outside hthr (fun hh => nomatch hh) rfl (fun _ => hzero) hlow
      ⟨le_refl 0, by show (0 : ℤ) < s; omega⟩
  · -- counts
    have hstay : cb.record_success.state_ = .HALF_OPEN := by rw [he]; exact hst
    have hbound := h.admitted_le hst
    have hsucc := h.successes
    rw [h.success_threshold] at hlt
    rw [carry_stay hst hstay, he]
    exact {
      failure_threshold := h.failure_threshold
      success_threshold := h.success_threshold
      closed := fun hc => by rw [hst] at hc; cases hc
      half_open := fun _ => by simp [isRecordSuccess, h.half_open hst]
      trial := fun hh => nomatch hh
      admitted := fun _ => by simpa [isAdmitted, isRecord, isRecordSuccess] using hbound
      failures := h.failures
      successes := ⟨by show 0 ≤ cb.consecutive_successes_ + 1; omega, hlt⟩ }
  · -- resets the failure streak
    rw [he]
    exact counters_outside hthr hst (h.flag_down hst) (fun _ => hzero) hlow h.successes

theorem counters_record_failure (h : Counters f s cb tr period) (hs : 1 ≤ s) (now : Time) :
    Counters f s (cb.record_failure now) (tr ++ [(.record_failure now, none)])
      (carry isHalfOpen cb (cb.record_failure now) period [(.record_failure now, none)]) := by
  have hthr := And.intro h.failure_threshold h.success_threshold
  have hfail := h.failures
  rcases cb.record_failure_cases now with ⟨-, he⟩ | ⟨hst, -, he⟩ | ⟨hst, hlt, he⟩ | ⟨hst, he⟩
  · -- reopens
    rw [he]
    exact counters_outside hthr (fun hh => nomatch hh) rfl (fun hc => nomatch hc) hfail
      ⟨le_refl 0, by show (0 : ℤ) < s; omega⟩
  · -- trips: the streak is at the threshold, and stays there while `OPEN`
    have hbelow := (h.closed hst).2
    have hflag := h.flag_down (by rw [hst]; decide)
    rw [he]
    refine counters_outside hthr (fun hh => nomatch hh) hflag (fun hc => nomatch hc) ⟨?_, ?_⟩
      h.successes
    · show 0 ≤ cb.consecutive_failures_ + 1
      omega
    · show cb.consecutive_failures_ + 1 ≤ f
      omega
  · -- counts
    have hstreak := (h.closed hst).1
    have hout : cb.state_ ≠ .HALF_OPEN := by rw [hst]; decide
    rw [h.failure_threshold] at hlt
    rw [he]
    refine counters_outside hthr hout (h.flag_down hout) (fun _ => ⟨?_, hlt⟩) ⟨?_, hlt.le⟩
      h.successes
    · rw [failuresSinceSuccess_concat, hstreak]
      rfl
    · show 0 ≤ cb.consecutive_failures_ + 1
      omega
  · -- `OPEN`: nothing
    have hout : cb.state_ ≠ .HALF_OPEN := by rw [hst]; decide
    rw [he]
    exact counters_outside hthr hout (h.flag_down hout) (fun hc => by rw [hst] at hc; cases hc)
      hfail h.successes

/-- One call of any kind. -/
theorem counters_call (h : Counters f s cb tr period) (hf : 1 ≤ f) (hs : 1 ≤ s) (c : Call) :
    Counters f s (cb.call c).2 (tr ++ [(c, (cb.call c).1)])
      (carry isHalfOpen cb (cb.call c).2 period [(c, (cb.call c).1)]) := by
  cases c with
  | allow_request now => exact counters_allow_request h hs now
  | record_success now => exact counters_record_success h hf hs now
  | record_failure now => exact counters_record_failure h hs now

/-- From `CLOSED`, a call trips the breaker exactly if it is the failure that completes the
streak. -/
theorem Counters.trips_iff (h : Counters f s cb tr period) (hst : cb.state_ = .CLOSED) (c : Call) :
    (cb.call c).2.state_ = .OPEN
      ↔ (∃ now, c = .record_failure now) ∧ (failuresSinceSuccess tr : ℤ) + 1 = f := by
  obtain ⟨hcount, hbelow⟩ := h.closed hst
  have hthr := h.failure_threshold
  cases c with
  | allow_request now =>
      have he : cb.allow_request now = (true, cb) := by simp [allow_request, hst]
      simp [call, he, hst]
  | record_success now =>
      have he : cb.record_success = { cb with consecutive_failures_ := 0 } := by
        simp [record_success, hst]
      simp [call, he, hst]
  | record_failure now =>
      rcases cb.record_failure_cases now with ⟨hh, -⟩ | ⟨-, hle, he⟩ | ⟨-, hlt, he⟩ | ⟨hh, -⟩
      · rw [hst] at hh
        cases hh
      · have hexact : (failuresSinceSuccess tr : ℤ) + 1 = f := by omega
        simp [call, he, hexact]
      · have hnot : (failuresSinceSuccess tr : ℤ) + 1 ≠ f := by omega
        simp [call, he, hst, hnot]
      · rw [hst] at hh
        cases hh

end Step

/-! ## Every reachable breaker -/

/-- The invariant after any sequence of calls. -/
theorem counters_run {f s cooldown_period : ℤ} (hf : 1 ≤ f) (hs : 1 ≤ s) {cs : List Call}
    {cb : CircuitBreaker} {tr : List (Call × Option Bool)}
    (hrun : exec callStep (new f s cooldown_period) cs = some (cb, tr)) :
    Counters f s cb tr (sinceHalfOpen (new f s cooldown_period) cs) := by
  refine exec_invariant_since (I := Counters f s) ?_ (counters_new hf hs cooldown_period) hrun
  intro cb tr period c cb' out h he
  cases he
  exact counters_call h hf hs c

/-- **What the counters count.** For all thresholds of at least one and every sequence of
calls on a new breaker, in the state it ends in:

* if `CLOSED`, `consecutive_failures_` is the number of failures since the last success, and
  below its threshold;
* if `HALF_OPEN`, `consecutive_successes_` is the number of successes since `HALF_OPEN` was
  entered, and below its threshold, and the requests admitted since then are at most one more
  than the records;
* a trial is in flight only in `HALF_OPEN`;
* if `CLOSED`, the next call trips the breaker exactly if it is the failure that makes the
  streak as long as the threshold;
* neither counter is negative or beyond its threshold. -/
theorem counter_invariant (failure_threshold success_threshold cooldown_period : ℤ)
    (hf : 1 ≤ failure_threshold) (hs : 1 ≤ success_threshold) (cs : List Call)
    (cb : CircuitBreaker) (tr : List (Call × Option Bool))
    (hrun : exec callStep (new failure_threshold success_threshold cooldown_period) cs
      = some (cb, tr)) :
    (cb.state_ = .CLOSED →
      cb.consecutive_failures_ = failuresSinceSuccess tr
      ∧ cb.consecutive_failures_ < failure_threshold)
    ∧ (cb.state_ = .HALF_OPEN →
      cb.consecutive_successes_
        = (sinceHalfOpen (new failure_threshold success_threshold cooldown_period) cs).countP
            isRecordSuccess
      ∧ cb.consecutive_successes_ < success_threshold
      ∧ (sinceHalfOpen (new failure_threshold success_threshold cooldown_period) cs).countP
            isAdmitted
        ≤ (sinceHalfOpen (new failure_threshold success_threshold cooldown_period) cs).countP
            isRecord + 1)
    ∧ (cb.half_open_trial_in_flight_ = true → cb.state_ = .HALF_OPEN)
    ∧ (cb.state_ = .CLOSED → ∀ c, (cb.call c).2.state_ = .OPEN
      ↔ (∃ now, c = .record_failure now)
        ∧ (failuresSinceSuccess tr : ℤ) + 1 = failure_threshold)
    ∧ (0 ≤ cb.consecutive_failures_ ∧ cb.consecutive_failures_ ≤ failure_threshold)
    ∧ (0 ≤ cb.consecutive_successes_ ∧ cb.consecutive_successes_ ≤ success_threshold) := by
  have hinv := counters_run hf hs hrun
  refine ⟨hinv.closed, ?_, hinv.trial, hinv.trips_iff, hinv.failures, ?_⟩
  · intro hst
    exact ⟨hinv.half_open hst, hinv.successes.2, hinv.admitted_le hst⟩
  · exact ⟨hinv.successes.1, hinv.successes.2.le⟩

/-- Two failures, a trial period of two successes after the cooldown, one more failure. -/
def tripAndRecover : List Call :=
  [.record_failure 0, .record_failure 1, .allow_request 20000000, .record_success 20000001,
    .allow_request 20000002, .record_success 20000003, .record_failure 20000004]

/-- With both thresholds at two the breaker has tripped and recovered and is `CLOSED` again:
the streak is one, and the next failure trips it. -/
theorem counter_invariant_after_recovery :
    ∃ cb tr, exec callStep (new 2 2 10) tripAndRecover = some (cb, tr)
      ∧ cb.state_ = .CLOSED
      ∧ cb.consecutive_failures_ = failuresSinceSuccess tr ∧ failuresSinceSuccess tr = 1
      ∧ ∀ now, (cb.call (.record_failure now)).2.state_ = .OPEN := by
  refine ⟨_, _, rfl, rfl, ?_, by decide, ?_⟩
  · exact ((counter_invariant 2 2 10 (by decide) (by decide) tripAndRecover _ _ rfl).1 rfl).1
  · intro now
    refine ((counter_invariant 2 2 10 (by decide) (by decide) tripAndRecover _ _ rfl).2.2.2.1 rfl
      (.record_failure now)).mpr ⟨⟨now, rfl⟩, by decide⟩

end CircuitBreaker

end AegisProxy
