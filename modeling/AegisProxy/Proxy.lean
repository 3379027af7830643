/-
`main.cpp`: the process. A listener behind the rate limiter, and any number of
sessions over one ring, one breaker per backend, one pool and one registry.

A step of the process is one connect of `warm_up`, one accepted connection, one sweep of
`reap_loop`, or one session resumed. Every step but the first kind reads the clock, and
the clock never goes back. The process is single-threaded, so a session runs alone from
one of its points to the next; which one runs next is open, and every order is a run.
That includes orders the event loop does not produce -- a session at the head of its
loop goes on without a break there -- so what is proved of every run holds of the
process.

Warm-up comes first: `run` awaits `pool.warm_up()` before it starts the loops. The
listener calls `handle_client` with its default `max_attempts`, which is left open here.
The metrics listener only reads and `send_429` works on a socket of its own; `Server.lean`
puts them around the process.
-/
import AegisProxy.Effects
import AegisProxy.RateLimiter

set_option autoImplicit false

namespace AegisProxy

open Runs

/-! ## The process -/

/-- The process. `warming` is the list of connects `warm_up` still has to make, by
backend. -/
structure Proxy where
  shared : Shared
  limiter : RateLimiter
  max_attempts : ℤ
  warming : List ℕ
  clock : Time
  sessions : List Session

namespace Proxy

/-- What happens next. -/
inductive Input
  | warm_up (connected : Bool)
  | accept (client_key : Bytes) (now : Time)
  | reap (now : Time)
  | session (i : ℕ) (now : Time) (e : Event)

/-- `run` entered: nothing warmed up, nothing accepted. -/
def boot (shared : Shared) (limiter : RateLimiter) (max_attempts : ℤ) (clock : Time) :
    Proxy where
  shared := shared
  limiter := limiter
  max_attempts := max_attempts
  warming := (List.range shared.backend_count).flatMap fun i =>
    List.replicate (shared.pool.min_pool_size i) i
  clock := clock
  sessions := []

/-- A clock reading in seconds, as the limiter computes with it. -/
def seconds (t : Time) : ℚ := (t : ℚ) / 1000000000

/-- One connect of `warm_up`. A failed one is skipped. -/
def warm_up (p : Proxy) (i : ℕ) (rest : List ℕ) (connected : Bool) : Proxy :=
  { p with
    warming := rest
    shared :=
      if connected then { p.shared with pool := p.shared.pool.warm_up_connected i }
      else p.shared }

/-- One connection in `listen`: the limiter decides between a new session, which counts
itself as received, and a 429. -/
def accept (p : Proxy) (client_key : Bytes) (now : Time) : Proxy :=
  let answer := p.limiter.allow client_key (seconds now)
  if answer.1 then
    { p with
      clock := now
      limiter := answer.2
      shared := { p.shared with metrics := p.shared.metrics.record_request_received }
      sessions := p.sessions ++ [Session.start client_key p.max_attempts] }
  else
    { p with
      clock := now
      limiter := answer.2
      shared := { p.shared with metrics := p.shared.metrics.record_rate_limited } }

/-- The two ways of an accepted connection. -/
theorem accept_cases (p : Proxy) (client_key : Bytes) (now : Time) :
    ((p.limiter.allow client_key (seconds now)).1 = true
      ∧ p.accept client_key now = { p with
          clock := now
          limiter := (p.limiter.allow client_key (seconds now)).2
          shared := { p.shared with metrics := p.shared.metrics.record_request_received }
          sessions := p.sessions ++ [Session.start client_key p.max_attempts] })
    ∨ ((p.limiter.allow client_key (seconds now)).1 = false
      ∧ p.accept client_key now = { p with
          clock := now
          limiter := (p.limiter.allow client_key (seconds now)).2
          shared := { p.shared with metrics := p.shared.metrics.record_rate_limited } }) := by
  by_cases hans : (p.limiter.allow client_key (seconds now)).1 = true
  · exact Or.inl ⟨hans, if_pos hans⟩
  · exact Or.inr ⟨Bool.eq_false_iff.mpr hans, if_neg hans⟩

/-- One sweep of `reap_loop`: five minutes. -/
def reap (p : Proxy) (now : Time) : Proxy :=
  { p with clock := now, limiter := (p.limiter.reap_idle 300 (seconds now)).2 }

/-- One step of the process, with what a session did in it. -/
def step (p : Proxy) : Input → Option (Proxy × List (ℕ × Action))
  | .warm_up connected =>
    match p.warming with
    | [] => none
    | i :: rest => some (p.warm_up i rest connected, [])
  | .accept client_key now =>
    if now < p.clock ∨ p.warming ≠ [] then none else some (p.accept client_key now, [])
  | .reap now => if now < p.clock ∨ p.warming ≠ [] then none else some (p.reap now, [])
  | .session i now e =>
    if now < p.clock then none
    else
      match p.sessions[i]? with
      | none => none
      | some s =>
        match s.step p.shared now e with
        | none => none
        | some (shared, s', acts) =>
          some ({ p with clock := now, shared := shared, sessions := p.sessions.set i s' },
            acts.map fun x => (i, x))

/-- What a step of the process can be. -/
theorem step_cases {p p' : Proxy} {inp : Input} {out : List (ℕ × Action)}
    (h : p.step inp = some (p', out)) :
    (∃ connected i rest, inp = .warm_up connected ∧ p.warming = i :: rest
        ∧ p' = p.warm_up i rest connected ∧ out = [])
    ∨ (∃ client_key now, inp = .accept client_key now ∧ p.clock ≤ now ∧ p.warming = []
        ∧ p' = p.accept client_key now ∧ out = [])
    ∨ (∃ now, inp = .reap now ∧ p.clock ≤ now ∧ p.warming = [] ∧ p' = p.reap now ∧ out = [])
    ∨ (∃ i now e s shared s' acts, inp = .session i now e ∧ p.clock ≤ now
        ∧ p.sessions[i]? = some s ∧ s.step p.shared now e = some (shared, s', acts)
        ∧ p' = { p with clock := now, shared := shared, sessions := p.sessions.set i s' }
        ∧ out = acts.map fun x => (i, x)) := by
  cases inp with
  | warm_up connected =>
      simp only [step] at h
      split at h
      · cases h
      · rename_i i rest hw
        cases h
        exact Or.inl ⟨connected, i, rest, rfl, hw, rfl, rfl⟩
  | accept client_key now =>
      simp only [step] at h
      split at h
      · cases h
      · rename_i hok
        push Not at hok
        cases h
        exact Or.inr (Or.inl ⟨client_key, now, rfl, hok.1, hok.2, rfl, rfl⟩)
  | reap now =>
      simp only [step] at h
      split at h
      · cases h
      · rename_i hok
        push Not at hok
        cases h
        exact Or.inr (Or.inr (Or.inl ⟨now, rfl, hok.1, hok.2, rfl, rfl⟩))
  | session i now e =>
      simp only [step] at h
      split at h
      · cases h
      · rename_i hclock
        split at h
        · cases h
        · rename_i s hs
          split at h
          · cases h
          · rename_i shared s' acts hstep
            cases h
            exact Or.inr (Or.inr (Or.inr
              ⟨i, now, e, s, shared, s', acts, rfl, not_lt.mp hclock, hs, hstep, rfl, rfl⟩))

/-! ## One breaker in the process -/

/-- The calls on the breaker of backend `b` that all sessions made, in order. -/
def callsOn (b : ℕ) (tr : List (ℕ × Action)) : List (CircuitBreaker.Call × Option Bool) :=
  AegisProxy.callsOn b (tr.map Prod.snd)

@[simp] theorem callsOn_append (b : ℕ) (tr tr' : List (ℕ × Action)) :
    callsOn b (tr ++ tr') = callsOn b tr ++ callsOn b tr' := by
  unfold callsOn
  rw [List.map_append, AegisProxy.callsOn_append]

@[simp] theorem callsOn_session (b i : ℕ) (acts : List Action) :
    callsOn b (acts.map fun x => (i, x)) = AegisProxy.callsOn b acts := by
  unfold callsOn
  rw [List.map_map]
  simp [Function.comp_def]

/-- A step is, on each breaker, a run of the calls it makes on it. Only a session makes
any. -/
theorem step_breakers {p p' : Proxy} {inp : Input} {out : List (ℕ × Action)}
    (h : p.step inp = some (p', out)) (b : ℕ) :
    exec CircuitBreaker.callStep (p.shared.breakers b) ((callsOn b out).map Prod.fst)
      = some (p'.shared.breakers b, callsOn b out) := by
  rcases step_cases h with ⟨connected, i, rest, -, -, rfl, rfl⟩ | ⟨key, now, -, -, -, rfl, rfl⟩
    | ⟨now, -, -, -, rfl, rfl⟩ | ⟨i, now, e, s, shared, s', acts, -, -, -, hs, rfl, rfl⟩
  · unfold warm_up
    cases connected <;> rfl
  · rcases p.accept_cases key now with ⟨-, he⟩ | ⟨-, he⟩
    · rw [he]
      rfl
    · rw [he]
      rfl
  · rfl
  · rw [callsOn_session]
    exact (Session.step_effect hs).calls b

/-- **A run of the process is, on each breaker, a run of its calls.** -/
theorem run_breakers {p p' : Proxy} {ins : List Input} {tr : List (ℕ × Action)}
    (h : exec step p ins = some (p', tr)) (b : ℕ) :
    exec CircuitBreaker.callStep (p.shared.breakers b) ((callsOn b tr).map Prod.fst)
      = some (p'.shared.breakers b, callsOn b tr) := by
  have hinv := exec_invariant
    (I := fun q tr => exec CircuitBreaker.callStep (p.shared.breakers b)
      ((callsOn b tr).map Prod.fst) = some (q.shared.breakers b, callsOn b tr))
    (fun q tr i q' out hs he => by
      rw [callsOn_append, List.map_append, exec_append_iff]
      exact ⟨_, _, _, hs, step_breakers he b, rfl⟩)
    rfl h
  exact hinv

end Proxy

end AegisProxy
