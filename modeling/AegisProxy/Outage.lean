/-
What a dead backend costs, and how it comes back.

A breaker that has opened lets one request through for each cooldown. While the backend answers
nobody, that request fails too: the breaker is `OPEN` again, from then on, and the next trial is
a cooldown away. Other sessions cannot get in between, because the flag of the trial stays up
until an outcome is recorded, and a failure -- the trial's own or a late one -- opens the
breaker anew. So from the moment a breaker is `OPEN` until the first success on it, admissions
are a cooldown apart, and the connections that all sessions together begin to that backend are
no more than the time since then over the cooldown (`outage_shielded`).

The way back is as long as it is meant to be. If nothing was outstanding when the breaker was
`OPEN`, nobody but the trials can tell it of an outcome, so as long as they succeed there is one of
them at a time, and `success_threshold` successes close the breaker and no fewer
(`recovery_exact`).
-/
import AegisProxy.Ledger
import Mathlib.Data.List.Pairwise

set_option autoImplicit false

namespace AegisProxy

open Runs

/-! ## Times that are apart -/

/-- Times after `lo` and up to `hi`, each `d` or more after the one before, are no more than
fit in between. -/
theorem length_mul_le_of_spaced {d lo hi : ℤ} {ts : List ℤ} (hle : lo ≤ hi)
    (hspaced : ts.Pairwise fun t u => t + d ≤ u) (hts : ∀ t ∈ ts, lo + d ≤ t ∧ t ≤ hi) :
    ts.length * d ≤ hi - lo := by
  induction ts generalizing lo with
  | nil => simpa using hle
  | cons t ts ih =>
      obtain ⟨hfirst, hrest⟩ := List.pairwise_cons.mp hspaced
      obtain ⟨hlo, hhi⟩ := hts t List.mem_cons_self
      have hmore := ih hhi hrest fun u hu =>
        ⟨hfirst u hu, (hts u (List.mem_cons_of_mem t hu)).2⟩
      rw [List.length_cons, Nat.cast_succ, Int.add_mul, Int.one_mul]
      omega

/-! ## Admissions during an outage -/

/-- When an answered call was admitted. -/
def admittedTime : CircuitBreaker.Call × Option Bool → Option Time
  | (.allow_request now, some true) => some now
  | _ => none

/-- No success among the calls. -/
def NoSuccess (calls : List (CircuitBreaker.Call × Option Bool)) : Prop :=
  ∀ now answer, (.record_success now, answer) ∉ calls

/-- A breaker that has not been `CLOSED` since time `o`, with cooldown `d`, at time `now`. The
calls since then are `calls`. -/
structure Shut (o d : ℤ) (cb : CircuitBreaker) (now : Time)
    (calls : List (CircuitBreaker.Call × Option Bool)) : Prop where
  cooldown : cb.cooldown = d
  state : cb.state_ = .OPEN ∨ cb.state_ = .HALF_OPEN ∧ cb.half_open_trial_in_flight_ = true
  since : o ≤ now
  reopened : cb.state_ = .OPEN → o ≤ cb.opened_at_ ∧ ∀ t ∈ calls.filterMap admittedTime,
    t ≤ cb.opened_at_
  spaced : (calls.filterMap admittedTime).Pairwise fun t u => t + d ≤ u
  within : ∀ t ∈ calls.filterMap admittedTime, o + d ≤ t ∧ t ≤ now

namespace Shut

variable {o d : ℤ} {cb : CircuitBreaker} {now now' : Time}
  {calls : List (CircuitBreaker.Call × Option Bool)}

/-- Time goes on. -/
theorem later (h : Shut o d cb now calls) (hle : now ≤ now') : Shut o d cb now' calls where
  cooldown := h.cooldown
  state := h.state
  since := h.since.trans hle
  reopened := h.reopened
  spaced := h.spaced
  within := fun t ht => ⟨(h.within t ht).1, (h.within t ht).2.trans hle⟩

/-- A call that admits nobody and leaves the breaker as it is. -/
theorem ignored (h : Shut o d cb now calls) {x : CircuitBreaker.Call × Option Bool}
    (hx : admittedTime x = none) : Shut o d cb now (calls ++ [x]) := by
  have hsame : (calls ++ [x]).filterMap admittedTime = calls.filterMap admittedTime := by
    simp [List.filterMap_append, hx]
  exact ⟨h.cooldown, h.state, h.since, by rw [hsame]; exact h.reopened,
    by rw [hsame]; exact h.spaced, by rw [hsame]; exact h.within⟩

/-- The first trial after a cooldown. -/
theorem trial (h : Shut o d cb now calls) (hst : cb.state_ = .OPEN)
    (hcool : cb.opened_at_ + cb.cooldown ≤ now) {cb' : CircuitBreaker}
    (hcooldown : cb'.cooldown = cb.cooldown) (hst' : cb'.state_ = .HALF_OPEN)
    (hflag : cb'.half_open_trial_in_flight_ = true) :
    Shut o d cb' now (calls ++ [(.allow_request now, some true)]) := by
  have hcalls : (calls ++ [(CircuitBreaker.Call.allow_request now, some true)]).filterMap admittedTime
      = calls.filterMap admittedTime ++ [now] := by
    rw [List.filterMap_append]
    rfl
  obtain ⟨hopened, hbefore⟩ := h.reopened hst
  rw [h.cooldown] at hcool
  refine ⟨hcooldown.trans h.cooldown, Or.inr ⟨hst', hflag⟩, h.since, ?_, ?_, ?_⟩
  · intro hopen
    rw [hst'] at hopen
    cases hopen
  · rw [hcalls, List.pairwise_append]
    refine ⟨h.spaced, List.pairwise_singleton _ _, ?_⟩
    intro t ht u hu
    rw [List.mem_singleton.mp hu]
    have hle := hbefore t ht
    linarith
  · rw [hcalls]
    intro t ht
    rcases List.mem_append.mp ht with ht | ht
    · exact h.within t ht
    · rw [List.mem_singleton.mp ht]
      exact ⟨by linarith, le_refl _⟩

/-- A failure opens the breaker from then on. -/
theorem failed (h : Shut o d cb now calls) {cb' : CircuitBreaker}
    (hcooldown : cb'.cooldown = cb.cooldown) (hst : cb'.state_ = .OPEN)
    (hopened : cb'.opened_at_ = now) :
    Shut o d cb' now (calls ++ [(.record_failure now, none)]) := by
  have hcalls : (calls ++ [(CircuitBreaker.Call.record_failure now, none)]).filterMap admittedTime
      = calls.filterMap admittedTime := by
    simp [List.filterMap_append, admittedTime]
  refine ⟨hcooldown.trans h.cooldown, Or.inl hst, h.since, ?_, by rw [hcalls]; exact h.spaced,
    by rw [hcalls]; exact h.within⟩
  intro _
  rw [hcalls, hopened]
  exact ⟨h.since, fun t ht => (h.within t ht).2⟩

/-- **One call during an outage.** -/
theorem call (h : Shut o d cb now calls) {c : CircuitBreaker.Call} (hc : c.time = now)
    (hsuccess : ∀ t, c ≠ .record_success t) :
    Shut o d (cb.call c).2 now (calls ++ [(c, (cb.call c).1)]) := by
  cases c with
  | allow_request t =>
      obtain rfl : t = now := hc
      have hclosed : cb.state_ ≠ .CLOSED := by
        intro hst
        rcases h.state with hs | ⟨hs, -⟩ <;> rw [hst] at hs <;> cases hs
      rcases cb.allow_request_cases t with ⟨hst, -⟩ | ⟨-, -, he⟩ | ⟨hst, hcool, he⟩ | ⟨-, -, he⟩
        | ⟨hst, hfl, -⟩
      · exact absurd hst hclosed
      · simp only [CircuitBreaker.call, he]
        exact h.ignored rfl
      · simp only [CircuitBreaker.call, he]
        exact h.trial hst hcool rfl rfl rfl
      · simp only [CircuitBreaker.call, he]
        exact h.ignored rfl
      · -- the flag is up while the breaker is `HALF_OPEN`
        rcases h.state with hs | ⟨-, hup⟩
        · rw [hst] at hs
          cases hs
        · rw [hfl] at hup
          cases hup
  | record_success t => exact absurd rfl (hsuccess t)
  | record_failure t =>
      obtain rfl : t = now := hc
      rcases cb.record_failure_cases t with ⟨-, he⟩ | ⟨-, -, he⟩ | ⟨hst, -, -⟩ | ⟨-, he⟩
      · simp only [CircuitBreaker.call, he]
        exact h.failed rfl rfl rfl
      · simp only [CircuitBreaker.call, he]
        exact h.failed rfl rfl rfl
      · rcases h.state with hs | ⟨hs, -⟩ <;> rw [hst] at hs <;> cases hs
      · simp only [CircuitBreaker.call, he]
        exact h.ignored rfl

end Shut

/-- No call on an open breaker changes since when it is open. -/
theorem CircuitBreaker.opened_at_call {cb : CircuitBreaker} {c : Call} (hst : cb.state_ = .OPEN) :
    (cb.call c).2.opened_at_ = cb.opened_at_ := by
  cases c with
  | allow_request now =>
      rcases cb.allow_request_cases now with ⟨-, he⟩ | ⟨-, -, he⟩ | ⟨-, -, he⟩ | ⟨-, -, he⟩
        | ⟨-, -, he⟩ <;> simp [CircuitBreaker.call, he]
  | record_success now =>
      rcases cb.record_success_cases with ⟨-, -, he⟩ | ⟨-, -, he⟩ | ⟨-, he⟩ <;>
        simp [CircuitBreaker.call, he]
  | record_failure now =>
      rcases cb.record_failure_cases now with ⟨hs, -⟩ | ⟨hs, -⟩ | ⟨hs, -⟩ | ⟨-, he⟩
      · rw [hst] at hs
        cases hs
      · rw [hst] at hs
        cases hs
      · rw [hst] at hs
        cases hs
      · simp [CircuitBreaker.call, he]

/-! ## Connections that are begun -/

/-- Whether an action begins a connection to `b`. -/
def Action.acquires (b : ℕ) : Action → Bool
  | .acquire a => a.backend_index = b
  | _ => false

/-- A move begins a connection exactly when it is admitted. -/
theorem Session.Move.acquires {s s' : Session} {e : Event} {acts : List Action}
    (hm : Move s e s' acts) (b : ℕ) :
    acts.countP (Action.acquires b) = (callsOn b acts).countP isAdmission := by
  rw [← countP_isCall]
  cases hm with
  | relayed_up a socket race c p' acts chunk hp hr =>
      rw [hr.isCall]
      generalize race.upstream = up at hr
      cases hr <;> simp [Action.acquires]
  | relayed_down a socket race c p' acts chunk hp hr =>
      rw [hr.isCall]
      generalize race.downstream = down at hr
      cases hr <;> simp [Action.acquires]
  | _ => simp [Action.acquires, Action.isCall, isAdmission, List.countP_cons]

namespace Proxy

/-- The connections to `b` that the sessions began. -/
def acquires (b : ℕ) (tr : List (ℕ × Action)) : ℕ := (tr.map Prod.snd).countP (Action.acquires b)

/-- When the breaker of `b` admitted a request. -/
def admittedAt (b : ℕ) (tr : List (ℕ × Action)) : List Time :=
  (callsOn b tr).filterMap admittedTime

theorem length_admittedAt (b : ℕ) (tr : List (ℕ × Action)) :
    (admittedAt b tr).length = admissions b tr := by
  unfold admittedAt admissions
  rw [List.length_filterMap_eq_countP]
  congr 1
  funext ⟨call, answer⟩
  cases call with
  | allow_request now =>
      cases answer with
      | none => rfl
      | some ok => cases ok <;> rfl
  | _ => rfl

/-- What is begun is what is admitted. -/
theorem acquires_run {p p' : Proxy} {ins : List Input} {tr : List (ℕ × Action)} (b : ℕ)
    (h : exec step p ins = some (p', tr)) : acquires b tr = admissions b tr := by
  refine exec_invariant (I := fun _ tr => acquires b tr = admissions b tr) ?_ rfl h
  intro p tr inp p' out hs hstep
  unfold acquires admissions at hs ⊢
  rw [List.map_append, List.countP_append, callsOn_append, List.countP_append, hs]
  congr 1
  rcases step_quiet_or_session hstep with ⟨-, rfl⟩ | ⟨i, e, s, s', acts, -, hm, -, -, -, rfl⟩
  · rfl
  · rw [callsOn_session, List.map_map]
    simpa [Function.comp_def] using hm.acquires b

/-- A step leaves the breaker of `b` alone or makes one call on it, at the time of the step. -/
theorem step_breaker {p p' : Proxy} {inp : Input} {out : List (ℕ × Action)}
    (h : p.step inp = some (p', out)) (b : ℕ) :
    p.clock ≤ p'.clock
      ∧ (callsOn b out = [] ∧ p'.shared.breakers b = p.shared.breakers b
        ∨ ∃ c : CircuitBreaker.Call, c.time = p'.clock
          ∧ callsOn b out = [(c, ((p.shared.breakers b).call c).1)]
          ∧ p'.shared.breakers b = ((p.shared.breakers b).call c).2) := by
  rcases step_quiet_or_session h with ⟨hq, rfl⟩ | ⟨i, e, s, s', acts, -, hm, heff, hle, -, rfl⟩
  · exact ⟨hq.clock, Or.inl ⟨rfl, by rw [hq.breakers]⟩⟩
  · refine ⟨hle, ?_⟩
    have hcalls := heff.calls b
    rw [callsOn_session]
    rcases hm.calls_cases b with hcs | ⟨c, answer, hcs⟩
    · rw [hcs] at hcalls
      have hsame : p.shared.breakers b = p'.shared.breakers b := by simpa [exec] using hcalls
      exact Or.inl ⟨hcs, hsame.symm⟩
    · obtain ⟨a, -, hx⟩ := mem_callsOn.mp (by rw [hcs]; exact List.mem_singleton_self _)
      rw [hcs] at hcalls
      simp only [exec, CircuitBreaker.callStep, List.map_cons, List.map_nil, Option.some.injEq,
        Prod.mk.injEq, List.append_nil, List.cons.injEq, true_and, and_true] at hcalls
      exact Or.inr ⟨c, heff.times a c answer hx, by rw [hcs, hcalls.2], hcalls.1.symm⟩

/-- **A step of an outage.** -/
theorem shut_step {b : ℕ} {o d : ℤ} {p p' : Proxy} {inp : Input} {tr out : List (ℕ × Action)}
    (h : Shut o d (p.shared.breakers b) p.clock (callsOn b tr))
    (hdown : NoSuccess (callsOn b (tr ++ out))) (hstep : p.step inp = some (p', out)) :
    Shut o d (p'.shared.breakers b) p'.clock (callsOn b (tr ++ out)) := by
  obtain ⟨hle, hcalls⟩ := step_breaker hstep b
  rw [callsOn_append] at hdown ⊢
  rcases hcalls with ⟨hcs, hcb⟩ | ⟨c, htime, hcs, hcb⟩
  · rw [hcs, hcb, List.append_nil]
    exact h.later hle
  · rw [hcs] at hdown
    rw [hcs, hcb]
    refine (h.later hle).call htime fun t ht => ?_
    subst ht
    exact hdown t _ (List.mem_append_right _ List.mem_cons_self)

/-- An open breaker was opened by now. -/
theorem opened_at_le {p₀ p : Proxy} {ins : List Input} {tr : List (ℕ × Action)} (b : ℕ)
    (h₀ : (p₀.shared.breakers b).state_ ≠ .OPEN) (h : exec step p₀ ins = some (p, tr)) :
    (p.shared.breakers b).state_ = .OPEN → (p.shared.breakers b).opened_at_ ≤ p.clock := by
  refine exec_invariant (I := fun p _ => (p.shared.breakers b).state_ = .OPEN →
    (p.shared.breakers b).opened_at_ ≤ p.clock) ?_ (fun hopen => absurd hopen h₀) h
  intro p tr inp p' out hs hstep hopen
  by_cases hst : (p.shared.breakers b).state_ = .OPEN
  · obtain ⟨hle, ⟨-, hcb⟩ | ⟨c, -, -, hcb⟩⟩ := step_breaker hstep b
    · rw [hcb]
      exact (hs hst).trans hle
    · rw [hcb, CircuitBreaker.opened_at_call hst]
      exact (hs hst).trans hle
  · exact le_of_eq (openSince_step hstep hst hopen).opened_at

/-- **A dead backend is left alone.** In every run of the process, from any state in which the
breaker of `b` is `OPEN`, through whatever all sessions do and for as long as no success is
recorded on `b`: the breaker does not close; whoever it admits comes a cooldown or more after it
was opened, and after whoever was admitted before; and the connections to `b` that all sessions
together begin in that time are no more than that time over the cooldown. The nanoseconds of the
cooldown have to fit 64 bits. -/
theorem outage_shielded (backend_count num_vnodes : ℕ)
    (failure_threshold success_threshold cooldown_period : ℤ) (min_pool_size : ℕ → ℕ)
    (limiter : RateLimiter) (max_attempts : ℤ) (clock : Time) (ins ins' : List Input)
    (p p' : Proxy) (tr tr' : List (ℕ × Action)) (b : ℕ)
    (hfit : CircuitBreaker.TicksFit cooldown_period)
    (h : exec step (boot (.new backend_count num_vnodes failure_threshold success_threshold
      cooldown_period min_pool_size) limiter max_attempts clock) ins = some (p, tr))
    (hopen : (p.shared.breakers b).state_ = .OPEN) (h' : exec step p ins' = some (p', tr'))
    (hdown : NoSuccess (callsOn b tr')) :
    (p'.shared.breakers b).state_ ≠ .CLOSED
      ∧ (admittedAt b tr').Pairwise (fun t u => t + cooldown_period * 1000000 ≤ u)
      ∧ (∀ t ∈ admittedAt b tr',
        (p.shared.breakers b).opened_at_ + cooldown_period * 1000000 ≤ t ∧ t ≤ p'.clock)
      ∧ (acquires b tr' : ℤ) * (cooldown_period * 1000000)
        ≤ p'.clock - (p.shared.breakers b).opened_at_ := by
  have hcool : (p.shared.breakers b).cooldown = cooldown_period * 1000000 :=
    cooldown_run h rfl hfit
  have hby := opened_at_le b (by rintro ⟨⟩) h hopen
  have hinv := exec_invariant
    (I := fun q tr => NoSuccess (callsOn b tr) →
      Shut (p.shared.breakers b).opened_at_ (cooldown_period * 1000000) (q.shared.breakers b)
        q.clock (callsOn b tr))
    (fun q tr inp q' out hs hstep hno =>
      shut_step (hs fun now answer hx => hno now answer (by
        rw [callsOn_append]
        exact List.mem_append_left _ hx)) hno hstep)
    (fun _ => ⟨hcool, Or.inl hopen, hby, fun _ => ⟨le_refl _, by simp [callsOn]⟩, by simp [callsOn],
      by simp [callsOn]⟩) h' hdown
  refine ⟨?_, hinv.spaced, hinv.within, ?_⟩
  · intro hclosed
    rcases hinv.state with hs | ⟨hs, -⟩ <;> rw [hclosed] at hs <;> cases hs
  · rw [acquires_run b h', ← length_admittedAt]
    exact length_mul_le_of_spaced hinv.since hinv.spaced hinv.within

/-- The breaker opens at time `2`. Two sessions come a cooldown later, one of which is let through
and fails, and one more a cooldown after that. -/
theorem outage_shielded_two_trials :
    ∃ p p' tr tr', exec step oneBackend
        [.accept [] 0, .accept [49] 0, .accept [50] 0, .accept [51] 0, .session 0 1 .resume,
          .session 0 2 .connect_failed] = some (p, tr)
      ∧ exec step p
        [.session 1 5000000002 .resume, .session 2 5000000003 .resume,
          .session 1 5000000004 .connect_failed, .session 3 10000000004 .resume] = some (p', tr')
      ∧ acquires 0 tr' = 2 ∧ (acquires 0 tr' : ℤ) * (5000 * 1000000) ≤ p'.clock - 2 := by
  have hrun : (exec step oneBackend
      [.accept [] 0, .accept [49] 0, .accept [50] 0, .accept [51] 0, .session 0 1 .resume,
        .session 0 2 .connect_failed]).any (fun x => (x.1.shared.breakers 0).state_ = .OPEN
      ∧ (x.1.shared.breakers 0).opened_at_ = 2
      ∧ (exec step x.1
        [.session 1 5000000002 .resume, .session 2 5000000003 .resume,
          .session 1 5000000004 .connect_failed, .session 3 10000000004 .resume]).any (fun y =>
        acquires 0 y.2 = 2 ∧ (callsOn 0 y.2).all fun c => !isSuccess c)) = true := by
    decide +kernel
  obtain ⟨⟨p, tr⟩, hexec, hfacts⟩ := (Option.any_eq_true _ _).mp hrun
  obtain ⟨hopen, hat, hrest⟩ := of_decide_eq_true hfacts
  obtain ⟨⟨p', tr'⟩, hexec', hfacts'⟩ := (Option.any_eq_true _ _).mp hrest
  obtain ⟨htwo, hno⟩ := of_decide_eq_true hfacts'
  obtain ⟨-, -, -, hbound⟩ := outage_shielded 1 1 1 1 5000 (fun _ => 0) (.new 10 20 1 (by decide)) 3
    0 _ _ p p' tr tr' 0 (by decide) hexec hopen hexec' (by
      intro now answer hx
      have hall := List.all_eq_true.mp hno _ hx
      cases hall)
  rw [hat] at hbound
  exact ⟨p, p', tr, tr', hexec, hexec', htwo, hbound⟩

end Proxy

/-! ## Recovery -/

/-- Where a breaker is that was `OPEN` with nothing outstanding and has been told of `k` successes
and no failure since. `n` is the number of requests outstanding now. -/
structure Recovering (m : ℤ) (cb : CircuitBreaker) (n k : ℕ) : Prop where
  threshold : cb.success_threshold_ = m
  opened : cb.state_ = .OPEN → n = 0 ∧ k = 0
  trying : cb.state_ = .HALF_OPEN → cb.consecutive_successes_ = k ∧ (k : ℤ) < m
    ∧ n = cb.half_open_trial_in_flight_.toNat
  closed : cb.state_ = .CLOSED → m ≤ k

/-- No operation changes the threshold. -/
theorem CircuitBreaker.call_success_threshold (cb : CircuitBreaker) (c : Call) :
    (cb.call c).2.success_threshold_ = cb.success_threshold_ := by
  cases c with
  | allow_request now =>
      rcases cb.allow_request_cases now with ⟨-, he⟩ | ⟨-, -, he⟩ | ⟨-, -, he⟩ | ⟨-, -, he⟩
        | ⟨-, -, he⟩ <;> simp [CircuitBreaker.call, he]
  | record_success now =>
      rcases cb.record_success_cases with ⟨-, -, he⟩ | ⟨-, -, he⟩ | ⟨-, he⟩ <;>
        simp [CircuitBreaker.call, he]
  | record_failure now =>
      rcases cb.record_failure_cases now with ⟨-, he⟩ | ⟨-, -, he⟩ | ⟨-, -, he⟩ | ⟨-, he⟩ <;>
        simp [CircuitBreaker.call, he]

/-- **One call during a recovery.** -/
theorem Recovering.call {m : ℤ} {cb : CircuitBreaker} {n n' k : ℕ}
    (h : Recovering m cb n k) (hone : 1 ≤ m) {c : CircuitBreaker.Call}
    (hfailure : ∀ t, c ≠ .record_failure t)
    (hbal : n' + (isOutcome (c, (cb.call c).1)).toNat = n + (isAdmission (c, (cb.call c).1)).toNat) :
    Recovering m (cb.call c).2 n' (k + (isSuccess (c, (cb.call c).1)).toNat) := by
  cases c with
  | allow_request now =>
      rcases cb.allow_request_cases now with ⟨hst, he⟩ | ⟨hst, -, he⟩ | ⟨hst, -, he⟩
        | ⟨hst, hfl, he⟩ | ⟨hst, hfl, he⟩ <;>
        simp only [CircuitBreaker.call, he, isOutcome, isAdmission, isSuccess, Bool.toNat_false,
          Bool.toNat_true, Nat.add_zero] at hbal ⊢
      · refine ⟨h.threshold, ?_, ?_, fun _ => h.closed hst⟩
        · rw [hst]
          rintro ⟨⟩
        · rw [hst]
          rintro ⟨⟩
      · rw [hbal]
        exact h
      · -- the first trial
        obtain ⟨rfl, rfl⟩ := h.opened hst
        exact ⟨h.threshold, by rintro ⟨⟩, fun _ => ⟨rfl, hone, by simpa using hbal⟩, by rintro ⟨⟩⟩
      · rw [hbal]
        exact h
      · -- a further one
        obtain ⟨hcount, hlt, hn⟩ := h.trying hst
        rw [hfl] at hn
        refine ⟨h.threshold, ?_, fun _ => ⟨hcount, hlt, by rw [hbal, hn]; rfl⟩, ?_⟩
        · rw [hst]
          rintro ⟨⟩
        · rw [hst]
          rintro ⟨⟩
  | record_success now =>
      simp only [CircuitBreaker.call, isOutcome, isAdmission, isSuccess, Bool.toNat_true,
        Bool.toNat_false, Nat.add_zero] at hbal ⊢
      rcases cb.record_success_cases with ⟨hst, hthr, he⟩ | ⟨hst, hthr, he⟩ | ⟨hst, he⟩
      · obtain ⟨hcount, -, -⟩ := h.trying hst
        rw [he]
        refine ⟨h.threshold, by rintro ⟨⟩, by rintro ⟨⟩, fun _ => ?_⟩
        rw [h.threshold, hcount] at hthr
        exact_mod_cast hthr
      · obtain ⟨hcount, -, hn⟩ := h.trying hst
        have hdown : n' = 0 := by
          cases hfl : cb.half_open_trial_in_flight_ <;> simp [hfl] at hn <;> omega
        rw [he]
        refine ⟨h.threshold, ?_, fun _ => ⟨?_, ?_, hdown⟩, ?_⟩
        · rw [hst]
          rintro ⟨⟩
        · rw [hcount]
          push_cast
          rfl
        · rw [h.threshold, hcount] at hthr
          exact_mod_cast hthr
        · rw [hst]
          rintro ⟨⟩
      · -- `CLOSED`, since in `OPEN` there is nobody to tell of a success
        rw [he]
        refine ⟨h.threshold, ?_, fun hh => absurd hh hst, fun hc => ?_⟩
        · intro ho
          have hnone := (h.opened ho).1
          omega
        · have hthr := h.closed hc
          push_cast
          omega
  | record_failure now => exact absurd rfl (hfailure now)

namespace Proxy

/-- No failure among the calls. -/
def NoFailure (calls : List (CircuitBreaker.Call × Option Bool)) : Prop :=
  ∀ now answer, (.record_failure now, answer) ∉ calls

theorem successes_trace_append (b : ℕ) (tr tr' : List (ℕ × Action)) :
    successes b (tr ++ tr') = successes b tr + successes b tr' := by
  unfold successes
  rw [callsOn_append, List.countP_append]

/-- A step changes the requests outstanding on `b` by what it was admitted and what it told. -/
theorem holding_step {b : ℕ} {p p' : Proxy} {inp : Input} {tr out : List (ℕ × Action)}
    (h : Slots b p tr) (hstep : p.step inp = some (p', out)) :
    p'.holding b + outcomes b out = p.holding b + admissions b out := by
  have hbefore := h.balance
  have hafter := (slots_step h hstep).balance
  unfold admissions outcomes at *
  rw [callsOn_append, List.countP_append, List.countP_append] at hafter
  omega

/-- **A step of a recovery.** -/
theorem recovering_step {b : ℕ} {m : ℤ} (hone : 1 ≤ m) {p p' : Proxy} {inp : Input}
    {tr tr' out : List (ℕ × Action)} (hslots : Slots b p tr)
    (h : Recovering m (p.shared.breakers b) (p.holding b) (successes b tr'))
    (hup : NoFailure (callsOn b (tr' ++ out))) (hstep : p.step inp = some (p', out)) :
    Recovering m (p'.shared.breakers b) (p'.holding b) (successes b (tr' ++ out)) := by
  have hhold := holding_step hslots hstep
  unfold outcomes admissions at hhold
  rw [successes_trace_append]
  rw [callsOn_append] at hup
  obtain ⟨-, ⟨hcs, hcb⟩ | ⟨c, -, hcs, hcb⟩⟩ := step_breaker hstep b
  · have hsame : p'.holding b = p.holding b := by
      rw [hcs, List.countP_nil, List.countP_nil] at hhold
      omega
    have hnone : successes b out = 0 := by
      unfold successes
      rw [hcs, List.countP_nil]
    rw [hcb, hsame, hnone]
    exact h
  · rw [hcs] at hup hhold
    rw [hcb]
    have hcount : successes b out = (isSuccess (c, ((p.shared.breakers b).call c).1)).toNat := by
      unfold successes
      rw [hcs, List.countP_singleton]
      cases isSuccess (c, ((p.shared.breakers b).call c).1) <;> rfl
    rw [hcount]
    refine h.call hone ?_ ?_
    · rintro t rfl
      exact hup t _ (List.mem_append_right _ List.mem_cons_self)
    · simp only [List.countP_singleton] at hhold
      cases hout : isOutcome (c, ((p.shared.breakers b).call c).1) <;>
        cases hadm : isAdmission (c, ((p.shared.breakers b).call c).1) <;>
        simp [hout, hadm] at hhold ⊢ <;> omega

/-- **Recovery takes what it should.** In every run of the process, from any state in which the
breaker of `b` is `OPEN` and no session is in an attempt on `b`, through whatever all sessions do
and for as long as no failure is recorded on `b`: at most one request at a time is outstanding
until the breaker closes, and it is closed exactly when `success_threshold` successes have been
recorded. -/
theorem recovery_exact (backend_count num_vnodes : ℕ)
    (failure_threshold success_threshold cooldown_period : ℤ) (min_pool_size : ℕ → ℕ)
    (limiter : RateLimiter) (max_attempts : ℤ) (clock : Time) (ins ins' : List Input)
    (p p' : Proxy) (tr tr' : List (ℕ × Action)) (b : ℕ)
    (h : exec step (boot (.new backend_count num_vnodes failure_threshold success_threshold
      cooldown_period min_pool_size) limiter max_attempts clock) ins = some (p, tr))
    (hone : 1 ≤ success_threshold) (hopen : (p.shared.breakers b).state_ = .OPEN)
    (hnone : p.holding b = 0) (h' : exec step p ins' = some (p', tr'))
    (hup : NoFailure (callsOn b tr')) :
    ((p'.shared.breakers b).state_ = .CLOSED ↔ success_threshold ≤ successes b tr')
      ∧ ((p'.shared.breakers b).state_ ≠ .CLOSED → p'.holding b ≤ 1) := by
  have hthr : (p.shared.breakers b).success_threshold_ = success_threshold :=
    exec_invariant (I := fun cb _ => cb.success_threshold_ = success_threshold)
      (fun cb tr c cb' out hs he => by
        cases he
        exact (cb.call_success_threshold c).trans hs)
      rfl (run_breakers h b)
  have hslots := exec_invariant (I := fun p tr => Slots b p tr)
    (fun _ _ _ _ _ hs he => slots_step hs he) ⟨rfl, by intro hfl; cases hfl⟩ h
  have hinv := exec_invariant
    (I := fun q tr' => Slots b q (tr ++ tr') ∧ (NoFailure (callsOn b tr') →
      Recovering success_threshold (q.shared.breakers b) (q.holding b) (successes b tr')))
    (fun q tr' inp q' out hs hstep => ⟨by
        rw [← List.append_assoc]
        exact slots_step hs.1 hstep,
      fun hno => recovering_step hone hs.1 (hs.2 fun now answer hx => hno now answer (by
        rw [callsOn_append]
        exact List.mem_append_left _ hx)) hno hstep⟩)
    ⟨by rwa [List.append_nil], fun _ => ⟨hthr, fun _ => ⟨hnone, rfl⟩, by rw [hopen]; rintro ⟨⟩,
      by rw [hopen]; rintro ⟨⟩⟩⟩ h'
  have hrec := hinv.2 hup
  cases hst : (p'.shared.breakers b).state_ with
  | CLOSED => exact ⟨⟨fun _ => hrec.closed hst, fun _ => rfl⟩, fun hno => absurd rfl hno⟩
  | OPEN =>
      obtain ⟨hn, hk⟩ := hrec.opened hst
      refine ⟨⟨by rintro ⟨⟩, fun hle => ?_⟩, fun _ => by omega⟩
      rw [hk, Nat.cast_zero] at hle
      omega
  | HALF_OPEN =>
      obtain ⟨-, hlt, hn⟩ := hrec.trying hst
      refine ⟨⟨by rintro ⟨⟩, fun hle => absurd hle (by omega)⟩, fun _ => ?_⟩
      rw [hn]
      exact Bool.toNat_le _

/-- The first session after the cooldown is answered, which closes the breaker. -/
theorem recovery_exact_one_trial :
    ∃ p p' tr tr', exec step oneBackend
        [.accept [] 0, .accept [49] 0, .session 0 1 .resume, .session 0 2 .connect_failed]
          = some (p, tr)
      ∧ exec step p
        [.session 1 5000000002 .resume, .session 1 5000000003 .connected,
          .session 1 5000000004 (.relay .downstream (.read_some [72])),
          .session 1 5000000004 (.relay .downstream (.wrote_some 1)),
          .session 1 5000000005 (.relay .downstream (.error .eof)),
          .session 1 5000000005 (.relay .upstream (.error .operation_aborted)),
          .session 1 5000000006 .resume] = some (p', tr')
      ∧ (p.shared.breakers 0).state_ = .OPEN ∧ (p'.shared.breakers 0).state_ = .CLOSED := by
  have hrun : (exec step oneBackend
      [.accept [] 0, .accept [49] 0, .session 0 1 .resume, .session 0 2 .connect_failed]).any
      (fun x => (x.1.shared.breakers 0).state_ = .OPEN ∧ x.1.holding 0 = 0
      ∧ (exec step x.1
        [.session 1 5000000002 .resume, .session 1 5000000003 .connected,
          .session 1 5000000004 (.relay .downstream (.read_some [72])),
          .session 1 5000000004 (.relay .downstream (.wrote_some 1)),
          .session 1 5000000005 (.relay .downstream (.error .eof)),
          .session 1 5000000005 (.relay .upstream (.error .operation_aborted)),
          .session 1 5000000006 .resume]).any (fun y =>
        successes 0 y.2 = 1 ∧ (callsOn 0 y.2).all fun c => !isFailure c)) = true := by
    decide +kernel
  obtain ⟨⟨p, tr⟩, hexec, hfacts⟩ := (Option.any_eq_true _ _).mp hrun
  obtain ⟨hopen, hnone, hrest⟩ := of_decide_eq_true hfacts
  obtain ⟨⟨p', tr'⟩, hexec', hfacts'⟩ := (Option.any_eq_true _ _).mp hrest
  obtain ⟨hsucc, hno⟩ := of_decide_eq_true hfacts'
  obtain ⟨hiff, -⟩ := recovery_exact 1 1 1 1 5000 (fun _ => 0) (.new 10 20 1 (by decide)) 3 0 _ _
    p p' tr tr' 0 hexec (by decide) hopen hnone hexec' (by
      intro now answer hx
      have hall := List.all_eq_true.mp hno _ hx
      cases hall)
  exact ⟨p, p', tr, tr', hexec, hexec', hopen, hiff.mpr (by rw [hsucc]; decide)⟩

end Proxy

end AegisProxy
