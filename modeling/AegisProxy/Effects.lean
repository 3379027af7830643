/-
What a step of a session does to the objects it shares.

The actions a step emits say it all: the calls on each breaker are in them, in order
and with their answers, and so are the outcomes the counters count. `Effect` is that
statement, and `step_effect` proves it of every step, one lemma for each piece of
`handle_client` that touches a shared object. So a trace determines every breaker:
replaying on it the calls the trace has gives its state.
-/
import AegisProxy.Session

set_option autoImplicit false

namespace AegisProxy

open Runs

/-! ## The calls in a trace -/

/-- The call on the breaker of backend `b` that an action is, with its answer. -/
def Action.callOn (b : ℕ) : Action → Option (CircuitBreaker.Call × Option Bool)
  | .breaker a call answer => if a.backend_index = b then some (call, answer) else none
  | _ => none

/-- The calls of a trace on the breaker of backend `b`, each with its answer. -/
def callsOn (b : ℕ) (tr : List Action) : List (CircuitBreaker.Call × Option Bool) :=
  tr.filterMap (Action.callOn b)

@[simp] theorem callsOn_nil (b : ℕ) : callsOn b [] = [] := rfl

@[simp] theorem callsOn_append (b : ℕ) (tr tr' : List Action) :
    callsOn b (tr ++ tr') = callsOn b tr ++ callsOn b tr' := List.filterMap_append

/-- A call on the breaker of `b` was made for an attempt on `b`. -/
theorem mem_callsOn {b : ℕ} {tr : List Action} {call : CircuitBreaker.Call}
    {answer : Option Bool} :
    (call, answer) ∈ callsOn b tr ↔ ∃ a, a.backend_index = b ∧ .breaker a call answer ∈ tr := by
  unfold callsOn
  rw [List.mem_filterMap]
  constructor
  · rintro ⟨x, hx, hcall⟩
    cases x with
    | breaker a call' answer' =>
        simp only [Action.callOn] at hcall
        split at hcall
        · rename_i hb
          cases hcall
          exact ⟨a, hb, hx⟩
        · cases hcall
    | _ => cases hcall
  · rintro ⟨a, hb, hx⟩
    exact ⟨_, hx, by simp [Action.callOn, hb]⟩

/-- Whether an answered call is `record_failure`. -/
def isFailure : CircuitBreaker.Call × Option Bool → Bool
  | (.record_failure _, _) => true
  | _ => false

/-- A trace without breaker calls has none on `b`. -/
theorem callsOn_eq_nil {b : ℕ} {tr : List Action}
    (h : ∀ x ∈ tr, ∀ a call answer, x ≠ .breaker a call answer) : callsOn b tr = [] := by
  apply List.filterMap_eq_nil_iff.mpr
  intro x hx
  have hne := h x hx
  cases x with
  | breaker a call answer => exact absurd rfl (hne a call answer)
  | _ => rfl

theorem RelayMove.no_calls {src dst : Peer} {cancelled : Bool} {p p' : RelayPoint}
    {c : Completion} {acts : List Action} {chunk : Option Bytes}
    (h : RelayMove src dst cancelled p c p' acts chunk) :
    ∀ x ∈ acts, ∀ a call answer, x ≠ .breaker a call answer := by
  cases h <;> simp

/-! ## Effects -/

/-- The shared objects went from `sh` to `sh'` at time `now` while `acts` was emitted:
the ring and the number of backends are as before, each breaker has answered and taken
exactly the calls in `acts`, all of them at that time, and `backend_failure_` has moved
once for every `record_failure` among them. -/
structure Effect (sh : Shared) (now : Time) (acts : List Action) (sh' : Shared) : Prop where
  backend_count : sh'.backend_count = sh.backend_count
  ring : sh'.ring = sh.ring
  calls : ∀ b, exec CircuitBreaker.callStep (sh.breakers b) ((callsOn b acts).map Prod.fst)
    = some (sh'.breakers b, callsOn b acts)
  times : ∀ a call answer, .breaker a call answer ∈ acts → call.time = now
  failures : ∀ b, sh'.metrics.backend_failure_ b
    = MetricsRegistry.fetch_add^[(callsOn b acts).countP isFailure]
        (sh.metrics.backend_failure_ b)

namespace Effect

variable {now : Time}

/-- Effects compose. -/
theorem trans {sh sh' sh'' : Shared} {acts acts' : List Action} (h : Effect sh now acts sh')
    (h' : Effect sh' now acts' sh'') : Effect sh now (acts ++ acts') sh'' where
  backend_count := h'.backend_count.trans h.backend_count
  ring := h'.ring.trans h.ring
  calls := by
    intro b
    rw [callsOn_append, List.map_append, exec_append_iff]
    exact ⟨sh'.breakers b, callsOn b acts, callsOn b acts', h.calls b, h'.calls b, rfl⟩
  times := by
    intro a call answer hx
    rcases List.mem_append.mp hx with hx | hx
    · exact h.times a call answer hx
    · exact h'.times a call answer hx
  failures := by
    intro b
    rw [h'.failures b, h.failures b, callsOn_append, List.countP_append, Nat.add_comm,
      Function.iterate_add_apply]

/-- No calls, and breakers and counters as they were. -/
theorem of_no_calls {sh sh' : Shared} {acts : List Action}
    (hcount : sh'.backend_count = sh.backend_count) (hring : sh'.ring = sh.ring)
    (hbreakers : sh'.breakers = sh.breakers)
    (hfail : sh'.metrics.backend_failure_ = sh.metrics.backend_failure_)
    (h : ∀ x ∈ acts, ∀ a call answer, x ≠ .breaker a call answer) :
    Effect sh now acts sh' where
  backend_count := hcount
  ring := hring
  calls := by
    intro b
    rw [callsOn_eq_nil h, hbreakers]
    rfl
  times := fun a call answer hx => absurd rfl (h _ hx a call answer)
  failures := by
    intro b
    rw [callsOn_eq_nil h, hfail]
    rfl

/-- One call, with its answer, and whether it was counted as a failure. -/
theorem of_call {sh sh' : Shared} {a : Attempt} {c : CircuitBreaker.Call}
    (htime : c.time = now) (hcount : sh'.backend_count = sh.backend_count)
    (hring : sh'.ring = sh.ring)
    (hbreakers : sh'.breakers = Function.update sh.breakers a.backend_index
      ((sh.breakers a.backend_index).call c).2)
    (hfail : ∀ b, sh'.metrics.backend_failure_ b
      = MetricsRegistry.fetch_add^[if a.backend_index = b ∧ isFailure (c, none) = true
          then 1 else 0] (sh.metrics.backend_failure_ b)) :
    Effect sh now [.breaker a c ((sh.breakers a.backend_index).call c).1] sh' where
  backend_count := hcount
  ring := hring
  calls := by
    intro b
    rw [hbreakers]
    by_cases hb : a.backend_index = b
    · subst hb
      simp [callsOn, Action.callOn, exec, CircuitBreaker.callStep]
    · simp [callsOn, Action.callOn, hb, Function.update_of_ne (Ne.symm hb)]
  times := by
    intro a' call' answer' hx
    cases List.mem_singleton.mp hx
    exact htime
  failures := by
    intro b
    rw [hfail b]
    by_cases hb : a.backend_index = b
    · cases c <;> simp [callsOn, Action.callOn, hb, isFailure]
    · simp [callsOn, Action.callOn, hb]

end Effect

namespace Session

/-! ## One lemma for each piece of `handle_client` -/

theorem give_up_effect (sh : Shared) (now : Time) (s : Session) :
    Effect sh now (give_up sh s).2.2 (give_up sh s).1 :=
  Effect.of_no_calls rfl rfl rfl rfl (by simp [give_up])

theorem use_effect (sh : Shared) (now : Time) (s : Session) (a : Attempt) (socket : ℕ) :
    Effect sh now (use sh s a socket).2.2 (use sh s a socket).1 :=
  Effect.of_no_calls rfl rfl rfl rfl (by simp [use])

/-- A new pool is no call. -/
theorem pool_effect (sh : Shared) (now : Time) (pool : ConnectionPool) (acts : List Action)
    (h : ∀ x ∈ acts, ∀ a call answer, x ≠ .breaker a call answer) :
    Effect sh now acts { sh with pool := pool } := Effect.of_no_calls rfl rfl rfl rfl h

theorem record_failure_effect (sh : Shared) (now : Time) (a : Attempt) :
    Effect sh now (record_failure sh now a).2 (record_failure sh now a).1 := by
  apply Effect.of_call (c := .record_failure now)
  · rfl
  · rfl
  · rfl
  · rfl
  · intro b
    by_cases hb : a.backend_index = b
    · subst hb
      simp [record_failure, Shared.setBreaker, MetricsRegistry.record_backend_failure,
        MetricsRegistry.set_breaker_state, isFailure]
    · simp [record_failure, Shared.setBreaker, MetricsRegistry.record_backend_failure,
        MetricsRegistry.set_breaker_state, hb, Function.update_of_ne (Ne.symm hb)]

theorem record_success_effect (sh : Shared) (now : Time) (a : Attempt) :
    Effect sh now (record_success sh now a).2 (record_success sh now a).1 := by
  apply Effect.of_call (c := .record_success now)
  · rfl
  · rfl
  · rfl
  · rfl
  · intro b
    simp [record_success, Shared.setBreaker, MetricsRegistry.record_backend_success,
      MetricsRegistry.set_breaker_state, isFailure]

/-- The breaker check of a turn of the loop. -/
theorem allow_request_effect (sh : Shared) (now : Time) (a : Attempt) :
    Effect sh now
      [.breaker a (.allow_request now)
        (some ((sh.breakers a.backend_index).allow_request now).1)]
      { sh with
        breakers := Function.update sh.breakers a.backend_index
          ((sh.breakers a.backend_index).allow_request now).2
        metrics := sh.metrics.set_breaker_state a.backend_index
          (sh.breakers a.backend_index).state.toInt } := by
  apply Effect.of_call (c := .allow_request now)
  · rfl
  · rfl
  · rfl
  · rfl
  · intro b
    simp [MetricsRegistry.set_breaker_state, isFailure]

/-- One turn of the loop: at most the breaker check. -/
theorem iterate_effect (sh : Shared) (now : Time) (s : Session) :
    Effect sh now (iterate sh now s).2.2 (iterate sh now s).1 := by
  unfold iterate
  by_cases hatt : (s.attempts : ℤ) < s.max_attempts
  · rw [if_pos hatt]
    cases hring : sh.ring.get_backend_excluding s.client_key s.excluded with
    | none => exact give_up_effect sh now s
    | some b =>
        dsimp only
        by_cases hb : sh.backend_count ≤ b
        · rw [if_pos hb]
          exact Effect.of_no_calls rfl rfl rfl rfl (by simp)
        · rw [if_neg hb]
          have hasked := allow_request_effect sh now ⟨s.attempts, b⟩
          by_cases hans : ((sh.breakers b).allow_request now).1 = false
          · rw [if_pos hans]
            exact hasked
          · rw [if_neg hans]
            -- `acquire` works on the pool the breaker check left alone
            have hpool := hasked.trans
              (pool_effect _ now (sh.pool.acquire b).2 [.acquire ⟨s.attempts, b⟩] (by simp))
            cases hgot : (sh.pool.acquire b).1 with
            | none => exact hpool
            | some socket => exact hpool.trans (use_effect _ now s ⟨s.attempts, b⟩ socket)
  · rw [if_neg hatt]
    exact give_up_effect sh now s

theorem connected_effect (sh : Shared) (now : Time) (s : Session) (a : Attempt) :
    Effect sh now (connected sh s a).2.2 (connected sh s a).1 :=
  (pool_effect sh now (sh.pool.acquire_connected a.backend_index).2 [] (by simp)).trans
    (use_effect _ now s a _)

theorem connectFailed_effect (sh : Shared) (now : Time) (s : Session) (a : Attempt) :
    Effect sh now (connectFailed sh now s a).2.2 (connectFailed sh now s a).1 :=
  (pool_effect sh now sh.pool [.connect_failed a] (by simp)).trans
    (record_failure_effect sh now a)

theorem replayFailed_effect (sh : Shared) (now : Time) (s : Session) (a : Attempt) (socket : ℕ) :
    Effect sh now (replayFailed sh now s a socket).2.2 (replayFailed sh now s a socket).1 :=
  (record_failure_effect sh now a).trans
    (pool_effect _ now _ [.released a socket] (by simp))

/-- The end of a race: a release, then one outcome. -/
theorem raceOver_effect (sh : Shared) (now : Time) (s : Session) (a : Attempt) (socket : ℕ)
    (started : Bool) :
    Effect sh now (raceOver sh now s a socket started).2.2 (raceOver sh now s a socket started).1 := by
  have hreleased : Effect sh now [.released a socket]
      (({ sh with pool := sh.pool.release a.backend_index socket false true }).gaugePool
        a.backend_index) :=
    Effect.of_no_calls rfl rfl rfl rfl (by simp)
  unfold raceOver
  cases started with
  | true => exact hreleased.trans (record_success_effect _ now a)
  | false =>
      have hfailed := hreleased.trans (record_failure_effect _ now a)
      cases hcap : s.req_buf.capped with
      | true => exact hfailed.trans (give_up_effect _ now (s.retry a.backend_index))
      | false => exact hfailed

/-- Moving bytes is no call. -/
theorem resume_effect {sh : Shared} {now : Time} {a : Attempt} {race race' : Race} {buf buf' : RequestBuffer}
    {leg : Leg} {c : Completion} {acts : List Action}
    (h : race.resume a buf leg c = some (race', buf', acts)) : Effect sh now acts sh := by
  refine Effect.of_no_calls rfl rfl rfl rfl ?_
  cases leg with
  | upstream =>
      simp only [Race.resume] at h
      split at h
      · cases h
      · rename_i res hres
        cases h
        exact (relay_move hres).no_calls
  | downstream =>
      simp only [Race.resume] at h
      split at h
      · cases h
      · rename_i res hres
        cases h
        exact (relay_move hres).no_calls

/-- **The effect of a step is in its actions.** -/
theorem step_effect {sh sh' : Shared} {now : Time} {s s' : Session} {e : Event}
    {acts : List Action} (h : s.step sh now e = some (sh', s', acts)) :
    Effect sh now acts sh' := by
  unfold step at h
  split at h
  · have hturn := iterate_effect sh now s
    rw [Option.some.inj h] at hturn
    exact hturn
  · rename_i a hp
    have heff := connected_effect sh now s a
    rw [Option.some.inj h] at heff
    exact heff
  · rename_i a hp
    have heff := connectFailed_effect sh now s a
    rw [Option.some.inj h] at heff
    exact heff
  · rename_i a socket rest c hp
    split at h
    · cases h
    · cases h
      exact Effect.of_no_calls rfl rfl rfl rfl (by simp)
    · cases h
      exact Effect.of_no_calls rfl rfl rfl rfl (by simp)
    · rename_i out ec hw
      cases h
      exact (pool_effect sh now sh.pool _ (by simp)).trans (replayFailed_effect sh now s a socket)
  · split at h
    · cases h
    · rename_i race' buf' acts' hr
      cases h
      exact resume_effect hr
  · rename_i a socket race hp
    split at h
    · have hend := raceOver_effect sh now s a socket race.response_started
      rw [Option.some.inj h] at hend
      exact hend
    · cases h
  · split at h
    · cases h
    · cases h
      exact Effect.of_no_calls rfl rfl rfl rfl (by simp)
    · cases h
      exact Effect.of_no_calls rfl rfl rfl rfl (by simp)
    · cases h
      exact Effect.of_no_calls rfl rfl rfl rfl (by simp)
  · split at h
    · cases h
    · cases h
      exact Effect.of_no_calls rfl rfl rfl rfl (by simp)
    · cases h
      exact Effect.of_no_calls rfl rfl rfl rfl (by simp)
  · cases h

end Session

end AegisProxy
