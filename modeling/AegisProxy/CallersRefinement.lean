/-
The process refines the callers.

`BreakerCallers.lean` argues about callers of one breaker who ask for admission and, when
admitted, record one outcome. The sessions of the process are such callers: seen from the
breaker of one backend, every run of the process is a run of `Callers`, with the same
calls and answers, the same breaker at its end, and a request outstanding for exactly the
sessions in an attempt on that backend. So what holds of all runs of `Callers` holds of
the breakers of the process.
-/
import AegisProxy.BreakerCallers
import AegisProxy.ProxyBreakers

set_option autoImplicit false

namespace AegisProxy

open Runs

/-! ## Calls the callers accept -/

namespace Callers

/-- A caller may ask with nothing outstanding and record an outcome with something
outstanding. Afterwards it has a request outstanding if it was admitted, and the others
have what they had. -/
theorem step_call {s : Callers} {i : ℕ} {call : CircuitBreaker.Call}
    (hclock : s.clock ≤ call.time)
    (hreq : (s.request i).isSome = isOutcome (call, (s.breaker.call call).1)) :
    ∃ inp s', step s inp = some (s', [(call, (s.breaker.call call).1)])
      ∧ s'.breaker = (s.breaker.call call).2 ∧ s'.clock = call.time
      ∧ (s'.request i).isSome = isAdmission (call, (s.breaker.call call).1)
      ∧ ∀ j, j ≠ i → s'.request j = s.request j := by
  cases call with
  | allow_request now =>
      have hnone : s.request i = none := by simpa [isOutcome] using hreq
      have hnot : ¬ now < s.clock := not_lt.mpr hclock
      cases hans : (s.breaker.allow_request now).1 with
      | true =>
          refine ⟨.allow_request i now, s.grant i now (s.breaker.allow_request now).2, ?_, ?_, ?_,
            ?_, ?_⟩
          · simp [step, hnot, hnone, hans, CircuitBreaker.call]
          · rw [grant_breaker]
            rfl
          · unfold grant
            split <;> rfl
          · unfold grant
            split <;> simp [CircuitBreaker.call, hans, isAdmission]
          · intro j hj
            unfold grant
            split <;> simp [Function.update_of_ne hj]
      | false =>
          refine ⟨.allow_request i now,
            { s with breaker := (s.breaker.allow_request now).2, clock := now }, ?_, rfl, rfl, ?_,
            fun _ _ => rfl⟩
          · simp [step, hnot, hnone, hans, CircuitBreaker.call]
          · simp [hnone, CircuitBreaker.call, hans, isAdmission]
  | record_success now =>
      obtain ⟨r, hr⟩ := Option.isSome_iff_exists.mp hreq
      have hnot : ¬ now < s.clock := not_lt.mpr hclock
      refine ⟨.record_success i now, s.settle i now r true s.breaker.record_success, ?_, rfl, rfl,
        ?_, ?_⟩
      · simp only [step, hr, if_neg hnot, CircuitBreaker.call]
      · simp [settle, isAdmission]
      · intro j hj
        simp [settle, Function.update_of_ne hj]
  | record_failure now =>
      obtain ⟨r, hr⟩ := Option.isSome_iff_exists.mp hreq
      have hnot : ¬ now < s.clock := not_lt.mpr hclock
      refine ⟨.record_failure i now, s.settle i now r false (s.breaker.record_failure now), ?_,
        rfl, rfl, ?_, ?_⟩
      · simp only [step, hr, if_neg hnot, CircuitBreaker.call]
      · simp [settle, isAdmission]
      · intro j hj
        simp [settle, Function.update_of_ne hj]

end Callers

/-! ## The simulation -/

namespace Session

/-- A session asks a breaker only at the head of its loop, in no attempt. -/
theorem Move.asks {s s' : Session} {e : Event} {acts : List Action} (hm : Move s e s' acts)
    {a : Attempt} {now : Time} {answer : Option Bool}
    (h : .breaker a (.allow_request now) answer ∈ acts) (q : Attempt → Bool) :
    s.holds q = false := by
  cases hm with
  | skipped b now hp => simp [holds, hp, Point.attempt]
  | dialing b now hp => simp [holds, hp, Point.attempt]
  | pooled b now socket hp => simp [holds, hp, Point.attempt]
  | relayed_up a' socket race c p' acts chunk hp hr => exact absurd rfl (hr.no_calls _ h _ _ _)
  | relayed_down a' socket race c p' acts chunk hp hr => exact absurd rfl (hr.no_calls _ h _ _ _)
  | _ => simp at h

/-- A session that calls the breaker of `b` is in an attempt on `b` before it exactly if
the call is an outcome, and after it exactly if it is an admission. -/
theorem Move.holds_call {s s' : Session} {e : Event} {acts : List Action}
    (hm : Move s e s' acts) {b : ℕ} {call : CircuitBreaker.Call} {answer : Option Bool}
    (hcs : callsOn b acts = [(call, answer)]) :
    s.holds (·.backend_index = b) = isOutcome (call, answer)
      ∧ s'.holds (·.backend_index = b) = isAdmission (call, answer) := by
  obtain ⟨a, -, hx⟩ := mem_callsOn.mp (by rw [hcs]; exact List.mem_singleton_self _)
  have hmove := hm.slots (·.backend_index = b)
  rw [countP_isCall, countP_isCall, hcs, List.countP_singleton, List.countP_singleton] at hmove
  have hbound := (s'.holds (·.backend_index = b)).toNat_le
  have hbound₀ := (s.holds (·.backend_index = b)).toNat_le
  cases call with
  | allow_request now =>
      have hfree := hm.asks hx (·.backend_index = b)
      rw [hfree] at hmove
      refine ⟨hfree, ?_⟩
      cases hadm : isAdmission (.allow_request now, answer) with
      | true => simpa [hadm, isOutcome] using hmove.symm
      | false => simpa [hadm, isOutcome] using hmove.symm
  | record_success now =>
      simp only [isAdmission, isOutcome, Bool.false_eq_true, if_false, if_true] at hmove ⊢
      exact ⟨Bool.toNat_eq_one.mp (by omega), Bool.toNat_eq_zero.mp (by omega)⟩
  | record_failure now =>
      simp only [isAdmission, isOutcome, Bool.false_eq_true, if_false, if_true] at hmove ⊢
      exact ⟨Bool.toNat_eq_one.mp (by omega), Bool.toNat_eq_zero.mp (by omega)⟩

/-- A session that makes no call on the breaker of `b` is in an attempt on `b` if it
was. -/
theorem Move.holds_no_call {s s' : Session} {e : Event} {acts : List Action}
    (hm : Move s e s' acts) {b : ℕ} (hcs : callsOn b acts = []) :
    s'.holds (·.backend_index = b) = s.holds (·.backend_index = b) := by
  have hmove := hm.slots (·.backend_index = b)
  rw [countP_isCall, countP_isCall, hcs, List.countP_nil, List.countP_nil] at hmove
  cases hs : s.holds (·.backend_index = b) with
  | true =>
      rw [hs] at hmove
      exact Bool.toNat_eq_one.mp (by simpa using hmove.symm)
  | false =>
      rw [hs] at hmove
      exact Bool.toNat_eq_zero.mp (by simpa using hmove.symm)

end Session

namespace Proxy

/-- The callers of the breaker of `b` are the sessions of the process. -/
structure Simulates (b : ℕ) (p : Proxy) (c : Callers) : Prop where
  breaker : c.breaker = p.shared.breakers b
  clock : c.clock ≤ p.clock
  request : ∀ i, (c.request i).isSome = p.sessionHolds (·.backend_index = b) i

/-- **A step of the process is at most one call of the callers.** -/
theorem simulates_step {b : ℕ} {p p' : Proxy} {c : Callers} {inp : Input}
    {out : List (ℕ × Action)} (h : Simulates b p c) (hs : p.step inp = some (p', out)) :
    ∃ cins c', exec Callers.step c cins = some (c', callsOn b out) ∧ Simulates b p' c' := by
  rcases step_quiet_or_session hs with ⟨hq, rfl⟩ | ⟨j, e, s, s', acts, hj, hm, heff, hle, hset, rfl⟩
  · refine ⟨[], c, rfl, ?_, le_trans h.clock hq.clock, ?_⟩
    · rw [hq.breakers]
      exact h.breaker
    · intro i
      rw [hq.sessionHolds]
      exact h.request i
  · obtain ⟨hbefore, hafter, hother⟩ := sessionHolds_set hj hset (·.backend_index = b)
    -- the caller that moves is `j`
    have hrequest : ∀ c' : Callers, (c'.request j).isSome = s'.holds (·.backend_index = b) →
        (∀ i, i ≠ j → c'.request i = c.request i) →
        ∀ i, (c'.request i).isSome = p'.sessionHolds (·.backend_index = b) i := by
      intro c' hsame hrest i
      by_cases hij : i = j
      · rw [hij, hafter, hsame]
      · rw [hother i hij, hrest i hij]
        exact h.request i
    have hcalls := heff.calls b
    rw [callsOn_session]
    rcases hm.calls_cases b with hcs | ⟨call, answer, hcs⟩
    · rw [hcs] at hcalls ⊢
      have hsame : p.shared.breakers b = p'.shared.breakers b := by simpa [exec] using hcalls
      refine ⟨[], c, rfl, h.breaker.trans hsame, le_trans h.clock hle, hrequest c ?_ ?_⟩
      · rw [h.request j, hbefore, hm.holds_no_call hcs]
      · exact fun _ _ => rfl
    · obtain ⟨a, -, hx⟩ := mem_callsOn.mp (by rw [hcs]; exact List.mem_singleton_self _)
      have htime : call.time = p'.clock := heff.times a call answer hx
      obtain ⟨hheld, hheld'⟩ := hm.holds_call hcs
      rw [hcs, ← h.breaker] at hcalls
      rw [hcs]
      obtain ⟨hbr, rfl⟩ : (c.breaker.call call).2 = p'.shared.breakers b
          ∧ (c.breaker.call call).1 = answer := by
        simpa [exec, CircuitBreaker.callStep] using hcalls
      have hclock : c.clock ≤ call.time := by
        rw [htime]
        exact le_trans h.clock hle
      have hasks : (c.request j).isSome = isOutcome (call, (c.breaker.call call).1) := by
        rw [h.request j, hbefore, hheld]
      obtain ⟨cinp, c', hstep, hbr', hclock', hreq, hrest⟩ := Callers.step_call hclock hasks
      refine ⟨[cinp], c', exec_cons_iff.mpr ⟨c', _, [], hstep, rfl, by simp⟩, hbr'.trans hbr,
        le_of_eq (hclock'.trans htime), hrequest c' ?_ hrest⟩
      rw [hreq, hheld']

/-- **The process refines the callers.** Every run of the process is, on the breaker of
every backend `b`, a run of callers of it: with the calls and answers of the process, the
same breaker at the end, and a request outstanding for exactly the sessions in an attempt
on `b`. -/
theorem run_simulates {backend_count num_vnodes : ℕ}
    {failure_threshold success_threshold cooldown_period : ℤ} {min_pool_size : ℕ → ℕ}
    {limiter : RateLimiter} {max_attempts : ℤ} {clock : Time} {ins : List Input} {p : Proxy}
    {tr : List (ℕ × Action)}
    (h : exec step (boot (.new backend_count num_vnodes failure_threshold success_threshold
      cooldown_period min_pool_size) limiter max_attempts clock) ins = some (p, tr)) (b : ℕ) :
    ∃ cins c, exec Callers.step
        (Callers.start (.new failure_threshold success_threshold cooldown_period) clock) cins
        = some (c, callsOn b tr) ∧ Simulates b p c := by
  have hinv := exec_invariant
    (I := fun p tr => ∃ cins c, exec Callers.step
      (Callers.start (.new failure_threshold success_threshold cooldown_period) clock) cins
        = some (c, callsOn b tr) ∧ Simulates b p c)
    (fun p tr i p' out hs he => by
      obtain ⟨cins, c, hrun, hsim⟩ := hs
      obtain ⟨cins', c', hrun', hsim'⟩ := simulates_step hsim he
      refine ⟨cins ++ cins', c', exec_append_iff.mpr ⟨c, _, _, hrun, hrun', ?_⟩, hsim'⟩
      exact callsOn_append b tr out)
    ⟨[], _, rfl, ⟨rfl, le_refl _, fun _ => rfl⟩⟩ h
  exact hinv

/-- Two sessions on one backend: the first cannot connect and trips the breaker, the second is the
trial after the cooldown. As callers, the second has a request outstanding and the first has
none. -/
theorem run_simulates_trial :
    ∃ p tr cins c, exec step (boot (.new 1 1 1 1 5000 fun _ => 0) (.new 10 20 1 (by decide)) 3 0)
        [.accept [] 0, .accept [49] 0, .session 0 1 .resume, .session 0 2 .connect_failed,
          .session 1 5000000002 .resume] = some (p, tr)
      ∧ exec Callers.step (Callers.start (.new 1 1 5000) 0) cins = some (c, callsOn 0 tr)
      ∧ c.breaker.state_ = .HALF_OPEN
      ∧ (c.request 0).isSome = false ∧ (c.request 1).isSome = true := by
  have hrun : (exec step (boot (.new 1 1 1 1 5000 fun _ => 0) (.new 10 20 1 (by decide)) 3 0)
      [.accept [] 0, .accept [49] 0, .session 0 1 .resume, .session 0 2 .connect_failed,
        .session 1 5000000002 .resume]).any (fun x =>
      (x.1.shared.breakers 0).state_ = .HALF_OPEN
      ∧ x.1.sessionHolds (·.backend_index = 0) 0 = false
      ∧ x.1.sessionHolds (·.backend_index = 0) 1 = true) = true := by
    decide +kernel
  obtain ⟨⟨p, tr⟩, hexec, hfacts⟩ := (Option.any_eq_true _ _).mp hrun
  obtain ⟨hstate, hfirst, hsecond⟩ := of_decide_eq_true hfacts
  obtain ⟨cins, c, hcalls, hsim⟩ := run_simulates hexec 0
  refine ⟨p, tr, cins, c, hexec, hcalls, ?_, ?_, ?_⟩
  · rw [hsim.breaker]
    exact hstate
  · rw [hsim.request]
    exact hfirst
  · rw [hsim.request]
    exact hsecond

end Proxy

end AegisProxy
