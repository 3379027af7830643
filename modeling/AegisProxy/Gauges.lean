/-
The gauges of the registry, against what they are copies of.

`breaker_state` and `pool_active` are copies: `handle_client` stores the state of a breaker
and the pool's count by hand, next to the calls that change them. A scrape reads the copies,
at any point where the sessions are suspended. So a copy is right as long as every change is
followed by a store before the session suspends, and both have one place where it is not:

* the loop stores the breaker's state *before* it asks `allow_request`, and the answer that
  opens a trial moves the breaker from `OPEN` to `HALF_OPEN` after that;
* a failed replay releases its connection and does not store the pool's count, as the end of
  the race does.

Every other piece leaves a right copy right, and each of the two makes a right copy wrong.
So the runs with right copies in all their states are exactly those without such a step.
-/
import AegisProxy.Pieces
import AegisProxy.ProxyBreakers

set_option autoImplicit false

namespace AegisProxy

open Runs

/-! ## Copies in the process -/

/-- The gauges and what they are copies of are as they were. -/
structure Shared.SameGauges (sh sh' : Shared) : Prop where
  breakers : sh'.breakers = sh.breakers
  active_counts : sh'.pool.active_counts_ = sh.pool.active_counts_
  breaker_state : sh'.metrics.breaker_state_ = sh.metrics.breaker_state_
  pool_active : sh'.metrics.pool_active_ = sh.metrics.pool_active_

namespace Proxy

/-- The step resumes a session that is about to do `bad`. -/
def resumesInto (bad : Shared → Time → Session → Event → Bool) (p : Proxy) : Input → Bool
  | .session i now e => p.sessions[i]?.any fun s => bad p.shared now s e
  | _ => false

/-- Warming up, accepting and reaping are on no gauge. If a step of a session keeps `I`
exactly if it does not do `bad`, then so does a step of the process. -/
theorem step_iff_of_session {I : Shared → Prop} {bad : Shared → Time → Session → Event → Bool}
    (hsame : ∀ {sh sh'}, Shared.SameGauges sh sh' → I sh → I sh')
    (hsession : ∀ {sh sh' now s s' e acts}, I sh →
      Session.step sh now s e = some (sh', s', acts) → (I sh' ↔ bad sh now s e = false))
    {p p' : Proxy} {inp : Input} {out : List (ℕ × Action)} (h : I p.shared)
    (hstep : p.step inp = some (p', out)) : I p'.shared ↔ p.resumesInto bad inp = false := by
  rcases step_cases hstep with ⟨connected, i, rest, rfl, -, rfl, -⟩ | ⟨key, now, rfl, -, -, rfl, -⟩
    | ⟨now, rfl, -, -, rfl, -⟩ | ⟨i, now, e, s, shared, s', acts, rfl, -, hi, hs, rfl, -⟩
  · refine ⟨fun _ => rfl, fun _ => hsame ?_ h⟩
    cases connected <;> exact ⟨rfl, rfl, rfl, rfl⟩
  · refine ⟨fun _ => rfl, fun _ => hsame ?_ h⟩
    rcases p.accept_cases key now with ⟨-, he⟩ | ⟨-, he⟩ <;> rw [he] <;> exact ⟨rfl, rfl, rfl, rfl⟩
  · exact ⟨fun _ => rfl, fun _ => h⟩
  · have hbad : p.resumesInto bad (.session i now e) = bad p.shared now s e := by
      rw [resumesInto, hi]
      rfl
    rw [hbad]
    exact hsession h hs

end Proxy

/-! ## The breaker gauge -/

/-- `breaker_state` is the breaker's state, for every backend. -/
def Shared.BreakersGauged (sh : Shared) : Prop :=
  ∀ b, sh.metrics.breaker_state_ b = (sh.breakers b).state.toInt

theorem BreakerState.toInt_injective : Function.Injective BreakerState.toInt := by
  intro st st' h
  cases st <;> cases st' <;> first | rfl | exact absurd h (by decide)

namespace CircuitBreaker

/-- The breaker is `OPEN` and its cooldown is over, so the next request is a trial. -/
def trialDue (cb : CircuitBreaker) (now : Time) : Bool :=
  cb.state_ = .OPEN ∧ cb.opened_at_ + cb.cooldown ≤ now

/-- `allow_request` changes the state only to let the first trial through. -/
theorem allow_request_state (cb : CircuitBreaker) (now : Time) :
    (cb.allow_request now).2.state = cb.state ↔ cb.trialDue now = false := by
  unfold state trialDue
  rcases cb.allow_request_cases now with ⟨hst, he⟩ | ⟨hst, hlt, he⟩ | ⟨hst, hle, he⟩
    | ⟨hst, -, he⟩ | ⟨hst, -, he⟩
  · simp [he, hst]
  · simp [he, hst, hlt]
  · simp [he, hst, hle]
  · simp [he, hst]
  · simp [he, hst]

end CircuitBreaker

namespace Shared

theorem BreakersGauged.of_same {sh sh' : Shared} (h : sh.BreakersGauged)
    (hsame : SameGauges sh sh') : sh'.BreakersGauged := by
  intro b
  rw [hsame.breaker_state, hsame.breakers]
  exact h b

/-- A store of the state a breaker is given keeps the copies right. -/
theorem BreakersGauged.setBreaker {sh : Shared} (h : sh.BreakersGauged) (b : ℕ)
    (cb : CircuitBreaker) : (sh.setBreaker b cb).BreakersGauged := by
  intro b'
  by_cases hb : b' = b
  · subst hb
    simp [Shared.setBreaker, MetricsRegistry.set_breaker_state]
  · simp only [Shared.setBreaker, MetricsRegistry.set_breaker_state, Function.update_of_ne hb]
    exact h b'

/-- The store that comes before `allow_request` keeps them right unless a trial is due. -/
theorem BreakersGauged.asked_iff {sh : Shared} (h : sh.BreakersGauged) (now : Time) (b : ℕ) :
    (sh.asked now b).BreakersGauged ↔ (sh.breakers b).trialDue now = false := by
  have hat : (sh.asked now b).metrics.breaker_state_ b = (sh.breakers b).state.toInt
      ∧ (sh.asked now b).breakers b = ((sh.breakers b).allow_request now).2 := by
    simp [Shared.asked, MetricsRegistry.set_breaker_state]
  rw [← CircuitBreaker.allow_request_state]
  constructor
  · intro hg
    have hb := hg b
    rw [hat.1, hat.2] at hb
    exact (BreakerState.toInt_injective hb).symm
  · intro hsame b'
    by_cases hb : b' = b
    · subst hb
      rw [hat.1, hat.2, hsame]
    · simp only [Shared.asked, MetricsRegistry.set_breaker_state, Function.update_of_ne hb]
      exact h b'

end Shared

namespace Session

/-- The backend whose breaker the next turn of the loop asks, if it comes to ask one. -/
def nextAsked (sh : Shared) (s : Session) : Option ℕ :=
  if s.point = .loop ∧ (s.attempts : ℤ) < s.max_attempts then
    (sh.ring.get_backend_excluding s.client_key s.excluded).filter (· < sh.backend_count)
  else none

/-- The session is about to ask a breaker for which a trial is due. -/
def opensTrial (sh : Shared) (now : Time) (s : Session) : Bool :=
  (s.nextAsked sh).any fun b => (sh.breakers b).trialDue now

variable {sh sh' : Shared} {now : Time} {s s' : Session} {acts : List Action}

theorem nextAsked_of_ne (hp : s.point ≠ .loop) : s.nextAsked sh = none := by
  rw [nextAsked, if_neg fun h => hp h.1]

theorem nextAsked_eq_some {b : ℕ} (hp : s.point = .loop) (hlt : (s.attempts : ℤ) < s.max_attempts)
    (hring : sh.ring.get_backend_excluding s.client_key s.excluded = some b)
    (hb : b < sh.backend_count) : s.nextAsked sh = some b := by
  rw [nextAsked, if_pos ⟨hp, hlt⟩, hring]
  simp [hb]

theorem opensTrial_of_none (h : s.nextAsked sh = none) : s.opensTrial sh now = false := by
  rw [opensTrial, h]
  rfl

theorem opensTrial_of_ne (hp : s.point ≠ .loop) : s.opensTrial sh now = false :=
  opensTrial_of_none (nextAsked_of_ne hp)

theorem opensTrial_of_some {b : ℕ} (h : s.nextAsked sh = some b) :
    s.opensTrial sh now = (sh.breakers b).trialDue now := by
  rw [opensTrial, h]
  rfl

theorem record_failure_breakersGauged (h : sh.BreakersGauged) (now : Time) (a : Attempt) :
    (record_failure sh now a).1.BreakersGauged := by
  have hcounted : Shared.BreakersGauged { sh with
      metrics := sh.metrics.record_backend_failure a.backend_index } := h
  exact hcounted.setBreaker _ _

theorem record_success_breakersGauged (h : sh.BreakersGauged) (now : Time) (a : Attempt) :
    (record_success sh now a).1.BreakersGauged := by
  have hcounted : Shared.BreakersGauged { sh with
      metrics := sh.metrics.record_backend_success a.backend_index } := h
  exact hcounted.setBreaker _ _

/-- **A piece keeps the breaker gauges right exactly if it opens no trial.** -/
theorem Piece.breakersGauged_iff (hpc : Piece sh now s sh' s' acts) (h : sh.BreakersGauged) :
    sh'.BreakersGauged ↔ s.opensTrial sh now = false := by
  -- the pieces that do not ask a breaker
  have hkept : s.opensTrial sh now = false → sh'.BreakersGauged →
      (sh'.BreakersGauged ↔ s.opensTrial sh now = false) :=
    fun hno hg => ⟨fun _ => hno, fun _ => hg⟩
  have hreleased : ∀ b socket, (sh.released b socket).BreakersGauged := fun _ _ => h
  cases hpc with
  | gave_up hp hend =>
      refine hkept (opensTrial_of_none ?_) h
      unfold nextAsked
      rcases hend with hatt | hring
      · rw [if_neg fun hc => absurd hc.2 (not_lt.mpr hatt)]
      · rw [hring]
        split <;> rfl
  | threw b hp hlt hring hb =>
      refine hkept (opensTrial_of_none ?_) h
      rw [nextAsked, if_pos ⟨hp, hlt⟩, hring]
      simp [hb]
  | skipped b hp hlt hring hb =>
      rw [opensTrial_of_some (nextAsked_eq_some hp hlt hring hb)]
      exact h.asked_iff now b
  | dialing b hp hlt hring hb =>
      rw [opensTrial_of_some (nextAsked_eq_some hp hlt hring hb)]
      exact h.asked_iff now b
  | pooled b socket pool hp hlt hring hb =>
      rw [opensTrial_of_some (nextAsked_eq_some hp hlt hring hb)]
      exact h.asked_iff now b
  | connected a hp => exact hkept (opensTrial_of_ne (by rw [hp]; simp)) h
  | connect_failed a hp =>
      exact hkept (opensTrial_of_ne (by rw [hp]; simp)) (record_failure_breakersGauged h now a)
  | replay_failed a socket rest out ec hp =>
      exact hkept (opensTrial_of_ne (by rw [hp]; simp)) (record_failure_breakersGauged h now a)
  | succeeded a socket race hp =>
      exact hkept (opensTrial_of_ne (by rw [hp]; simp))
        (record_success_breakersGauged (hreleased _ socket) now a)
  | failed a socket race hp =>
      exact hkept (opensTrial_of_ne (by rw [hp]; simp))
        (record_failure_breakersGauged (hreleased _ socket) now a)
  | failed_capped a socket race hp =>
      exact hkept (opensTrial_of_ne (by rw [hp]; simp))
        (record_failure_breakersGauged (hreleased _ socket) now a)
  | wire s' acts hw =>
      refine hkept (opensTrial_of_ne ?_) h
      intro hp
      rcases hw.somewhere with hsock | hset
      · rw [hp] at hsock
        exact hsock rfl
      · rw [hp] at hset
        cases hset

end Session

namespace Proxy

/-- The step has a session ask a breaker for which a trial is due. -/
def opensTrial : Proxy → Input → Bool := resumesInto fun sh now s _ => s.opensTrial sh now

/-- **A step keeps the breaker gauges right exactly if it opens no trial.** -/
theorem step_breakersGauged_iff {p p' : Proxy} {inp : Input} {out : List (ℕ × Action)}
    (h : p.shared.BreakersGauged) (hstep : p.step inp = some (p', out)) :
    p'.shared.BreakersGauged ↔ p.opensTrial inp = false :=
  step_iff_of_session (fun hsame hg => hg.of_same hsame)
    (fun hg hs => (Session.step_piece hs).breakersGauged_iff hg) h hstep

/-- **The breaker gauge.** In a run of the process, with any interleaving of its sessions, the
gauge of every backend is the state of its breaker in every state the run comes through --
so at every suspension -- exactly if no step asks an `OPEN` breaker whose cooldown is over. -/
theorem breaker_gauge_iff (backend_count num_vnodes : ℕ)
    (failure_threshold success_threshold cooldown_period : ℤ) (min_pool_size : ℕ → ℕ)
    (limiter : RateLimiter) (max_attempts : ℤ) (clock : Time) (ins : List Input) (p : Proxy)
    (tr : List (ℕ × Action))
    (h : exec step (boot (.new backend_count num_vnodes failure_threshold success_threshold
      cooldown_period min_pool_size) limiter max_attempts clock) ins = some (p, tr)) :
    Everywhere step (fun q => ∀ b, q.shared.metrics.breaker_state_ b
          = (q.shared.breakers b).state.toInt)
        (boot (.new backend_count num_vnodes failure_threshold success_threshold
          cooldown_period min_pool_size) limiter max_attempts clock) ins
      ↔ Along step (fun q inp => q.opensTrial inp = false)
        (boot (.new backend_count num_vnodes failure_threshold success_threshold
          cooldown_period min_pool_size) limiter max_attempts clock) ins := by
  refine everywhere_iff_along (I := fun q => q.shared.BreakersGauged) (fun _ hg => hg) ?_ ?_
    (fun _ => rfl) h
  · intro q inp q' out hg hno hstep
    exact (step_breakersGauged_iff hg hstep).mpr hno
  · intro q inp q' out hg hstep hg'
    exact (step_breakersGauged_iff hg hstep).mp hg'

/-- The breaker trips on the first failure, and another session is refused while it cools
down. -/
def coolingDown : List Input :=
  [.accept [] 0, .accept [49] 0, .session 0 1 .resume, .session 0 2 .connect_failed,
    .session 1 3 .resume]

/-- No gauge is ever behind. -/
theorem breaker_gauge_while_cooling_down :
    (exec step oneBackend coolingDown).isSome
    ∧ Everywhere step (fun q => ∀ b, q.shared.metrics.breaker_state_ b
        = (q.shared.breakers b).state.toInt) oneBackend coolingDown := by
  refine ⟨by decide +kernel, ?_⟩
  exact (breaker_gauge_iff 1 1 1 1 5000 (fun _ => 0) (.new 10 20 1 (by decide)) 3 0 coolingDown _ _
    rfl).mpr (by decide +kernel)

/-- The first session fails to connect, which trips the breaker, and is on its 503. After the
cooldown the second is let through as the trial. -/
def trialOpened : List Input :=
  [.accept [] 0, .accept [49] 0, .session 0 1 .resume, .session 0 2 .connect_failed,
    .session 0 3 .resume, .session 1 5000000002 .resume]

/-- While the second connects and both sessions are suspended, the breaker is `HALF_OPEN` and
its gauge still says `OPEN`. -/
theorem breaker_gauge_behind_trial :
    ∃ p tr, exec step oneBackend trialOpened = some (p, tr)
      ∧ (∀ s ∈ p.sessions, s.point ≠ .loop)
      ∧ (p.shared.breakers 0).state = .HALF_OPEN
      ∧ p.shared.metrics.breaker_state_ 0 = BreakerState.OPEN.toInt
      ∧ p.shared.metrics.breaker_state_ 0 ≠ (p.shared.breakers 0).state.toInt := by
  have hrun : (exec step oneBackend trialOpened).any (fun x =>
      (∀ s ∈ x.1.sessions, s.point ≠ .loop) ∧ (x.1.shared.breakers 0).state = .HALF_OPEN
      ∧ x.1.shared.metrics.breaker_state_ 0 = BreakerState.OPEN.toInt
      ∧ x.1.shared.metrics.breaker_state_ 0 ≠ (x.1.shared.breakers 0).state.toInt) = true := by
    decide +kernel
  obtain ⟨⟨p, tr⟩, hexec, hfacts⟩ := (Option.any_eq_true _ _).mp hrun
  exact ⟨p, tr, hexec, of_decide_eq_true hfacts⟩

end Proxy

/-! ## The pool gauge -/

/-- `pool_active` is the pool's count, for every backend. -/
def Shared.PoolGauged (sh : Shared) : Prop :=
  ∀ b, sh.metrics.pool_active_ b = sh.pool.active_count b

theorem Shared.PoolGauged.of_same {sh sh' : Shared} (h : sh.PoolGauged)
    (hsame : SameGauges sh sh') : sh'.PoolGauged := by
  intro b
  rw [hsame.pool_active, ConnectionPool.active_count, hsame.active_counts]
  exact h b

/-- A store of the counts of `b` keeps the copies right where the pool has changed for `b`
alone. -/
theorem Shared.PoolGauged.gaugePool {sh : Shared} (h : sh.PoolGauged) {pool : ConnectionPool}
    {b : ℕ} (hothers : ∀ b', b' ≠ b → pool.active_count b' = sh.pool.active_count b') :
    ({ sh with pool := pool }.gaugePool b).PoolGauged := by
  intro b'
  by_cases hb : b' = b
  · subst hb
    simp [Shared.gaugePool, MetricsRegistry.set_pool_active, MetricsRegistry.set_pool_idle]
  · simp only [Shared.gaugePool, MetricsRegistry.set_pool_active, MetricsRegistry.set_pool_idle,
      Function.update_of_ne hb]
    rw [hothers b' hb]
    exact h b'

/-- The other backends' counts are not touched by a release. -/
theorem ConnectionPool.release_active_count (p : ConnectionPool) (b socket : ℕ)
    (healthy is_open : Bool) (b' : ℕ) :
    (p.release b socket healthy is_open).active_count b'
      = if b' = b then p.active_count b - 1 else p.active_count b' := by
  unfold active_count
  rw [(p.release_counts b socket healthy is_open).1, Function.update_apply]

theorem Shared.PoolGauged.released {sh : Shared} (h : sh.PoolGauged) (b socket : ℕ) :
    (sh.released b socket).PoolGauged := by
  refine h.gaugePool ?_
  intro b' hb
  rw [ConnectionPool.release_active_count, if_neg hb]

/-- A release without a store leaves the copy one above the count. -/
theorem Shared.PoolGauged.not_released {sh sh' : Shared} (h : sh.PoolGauged) {b socket : ℕ}
    (hgauge : sh'.metrics.pool_active_ = sh.metrics.pool_active_)
    (hpool : sh'.pool = sh.pool.release b socket false true) : ¬ sh'.PoolGauged := by
  intro hg
  have hb := hg b
  rw [hgauge, hpool, ConnectionPool.release_active_count, if_pos rfl, h b] at hb
  omega

namespace Session

/-- The completion ends the replay the session is in with an error. -/
def replayFails (s : Session) (e : Event) : Bool :=
  match s.point, e with
  | .replaying _ _ rest, .io c =>
    match async_write false rest c with
    | some (_, .error _) => true
    | _ => false
  | _, _ => false

variable {sh sh' : Shared} {now : Time} {s s' : Session} {e : Event} {acts : List Action}

theorem replayFails_of_ne (hp : ∀ a socket rest, s.point ≠ .replaying a socket rest) :
    s.replayFails e = false := by
  unfold replayFails
  split
  · rename_i a socket rest c hpoint
    exact absurd hpoint (hp a socket rest)
  · rfl

/-- What a session in a replay does to the shared objects: nothing, or the outcome is recorded
and the connection released. -/
theorem step_replaying {a : Attempt} {socket : ℕ} {rest : Bytes}
    (hp : s.point = .replaying a socket rest) (hs : s.step sh now e = some (sh', s', acts)) :
    (s.replayFails e = true ∧ sh' = { (record_failure sh now a).1 with
        pool := sh.pool.release a.backend_index socket false true })
    ∨ (s.replayFails e = false ∧ sh' = sh) := by
  cases e with
  | io c =>
      simp only [step, hp] at hs
      simp only [replayFails, hp]
      split at hs
      · cases hs
      · rename_i out rest' hw
        cases hs
        exact Or.inr ⟨by rw [hw], rfl⟩
      · rename_i out hw
        cases hs
        exact Or.inr ⟨by rw [hw], rfl⟩
      · rename_i out ec hw
        cases hs
        exact Or.inl ⟨by rw [hw], rfl⟩
  | _ =>
      simp only [step, hp] at hs
      cases hs

/-- Outside the replay every piece keeps the pool gauges right. -/
theorem Piece.poolGauged (hpc : Piece sh now s sh' s' acts) (h : sh.PoolGauged)
    (hp : ∀ a socket rest, s.point ≠ .replaying a socket rest) : sh'.PoolGauged := by
  have hreleased : ∀ b socket, (sh.released b socket).PoolGauged := h.released
  cases hpc with
  | pooled b socket pool hp hlt hring hb hans hfree =>
      have hasked : (sh.asked now b).PoolGauged := h
      refine hasked.gaugePool ?_
      intro b' hb'
      show pool.active_counts_ b' = sh.pool.active_counts_ b'
      rw [(ConnectionPool.acquire_some hfree).2.2.1, Function.update_of_ne hb']
  | connected a hp =>
      refine h.gaugePool ?_
      intro b' hb'
      exact Function.update_of_ne hb' _ _
  | replay_failed a socket rest out ec hpoint => exact absurd hpoint (hp a socket rest)
  | succeeded a socket race hp => exact hreleased a.backend_index socket
  | failed a socket race hp => exact hreleased a.backend_index socket
  | failed_capped a socket race hp => exact hreleased a.backend_index socket
  | _ => exact h

/-- **A step of a session keeps the pool gauges right exactly if it is not a failed
replay.** -/
theorem step_poolGauged_iff (h : sh.PoolGauged) (hs : s.step sh now e = some (sh', s', acts)) :
    sh'.PoolGauged ↔ s.replayFails e = false := by
  by_cases hp : ∃ a socket rest, s.point = .replaying a socket rest
  · obtain ⟨a, socket, rest, hp⟩ := hp
    rcases step_replaying hp hs with ⟨hfails, he⟩ | ⟨hfails, he⟩
    · have hnot : ¬ sh'.PoolGauged := h.not_released (by rw [he]; rfl) (by rw [he])
      exact ⟨fun hg => absurd hg hnot, fun hno => by rw [hfails] at hno; cases hno⟩
    · rw [he]
      exact ⟨fun _ => hfails, fun _ => h⟩
  · push Not at hp
    exact ⟨fun _ => replayFails_of_ne hp, fun _ => (step_piece hs).poolGauged h hp⟩

end Session

namespace Proxy

/-- The step is a replay that ends with an error. -/
def replayFails : Proxy → Input → Bool := resumesInto fun _ _ s e => s.replayFails e

/-- **A step keeps the pool gauges right exactly if it is not a failed replay.** -/
theorem step_poolGauged_iff {p p' : Proxy} {inp : Input} {out : List (ℕ × Action)}
    (h : p.shared.PoolGauged) (hstep : p.step inp = some (p', out)) :
    p'.shared.PoolGauged ↔ p.replayFails inp = false :=
  step_iff_of_session (fun hsame hg => hg.of_same hsame)
    (fun hg hs => Session.step_poolGauged_iff hg hs) h hstep

/-- **The pool gauge.** In a run of the process, with any interleaving of its sessions, the
gauge of every backend is the number of its connections in use in every state the run comes
through -- so at every suspension -- exactly if no step is a replay that ends with an
error. -/
theorem pool_gauge_iff (backend_count num_vnodes : ℕ)
    (failure_threshold success_threshold cooldown_period : ℤ) (min_pool_size : ℕ → ℕ)
    (limiter : RateLimiter) (max_attempts : ℤ) (clock : Time) (ins : List Input) (p : Proxy)
    (tr : List (ℕ × Action))
    (h : exec step (boot (.new backend_count num_vnodes failure_threshold success_threshold
      cooldown_period min_pool_size) limiter max_attempts clock) ins = some (p, tr)) :
    Everywhere step (fun q => ∀ b, q.shared.metrics.pool_active_ b
          = q.shared.pool.active_count b)
        (boot (.new backend_count num_vnodes failure_threshold success_threshold
          cooldown_period min_pool_size) limiter max_attempts clock) ins
      ↔ Along step (fun q inp => q.replayFails inp = false)
        (boot (.new backend_count num_vnodes failure_threshold success_threshold
          cooldown_period min_pool_size) limiter max_attempts clock) ins := by
  refine everywhere_iff_along (I := fun q => q.shared.PoolGauged) (fun _ hg => hg) ?_ ?_
    (fun _ => rfl) h
  · intro q inp q' out hg hno hstep
    exact (step_poolGauged_iff hg hstep).mpr hno
  · intro q inp q' out hg hstep hg'
    exact (step_poolGauged_iff hg hstep).mp hg'

/-- A session that connects, is answered and ends. -/
def oneAnswer : List Input :=
  [.accept [] 0, .session 0 1 .resume, .session 0 2 .connected,
    .session 0 3 (.relay .downstream (.read_some [72])),
    .session 0 3 (.relay .downstream (.wrote_some 1)),
    .session 0 4 (.relay .downstream (.error .eof)),
    .session 0 4 (.relay .upstream (.error .operation_aborted)), .session 0 5 .resume]

/-- The gauge goes up and down with the count. -/
theorem pool_gauge_one_answer :
    (exec step oneBackend oneAnswer).isSome
    ∧ Everywhere step (fun q => ∀ b, q.shared.metrics.pool_active_ b
        = q.shared.pool.active_count b) oneBackend oneAnswer := by
  refine ⟨by decide +kernel, ?_⟩
  exact (pool_gauge_iff 1 1 1 1 5000 (fun _ => 0) (.new 10 20 1 (by decide)) 3 0 oneAnswer _ _
    rfl).mpr (by decide +kernel)

/-- Two backends. -/
def twoBackends : Proxy := boot (.new 2 1 5 2 5000 fun _ => 0) (.new 10 20 1 Nat.one_pos) 3 0

/-- The first backend takes a byte of the request and closes; the second accepts the connection
and resets it during the replay. Then the ring is exhausted and the 503 is on its way. -/
def replayRefused : List Input :=
  [.accept [] 0, .session 0 1 .resume, .session 0 2 .connected,
    .session 0 3 (.relay .upstream (.read_some [71])),
    .session 0 3 (.relay .upstream (.wrote_some 1)),
    .session 0 4 (.relay .downstream (.error .eof)),
    .session 0 4 (.relay .upstream (.error .operation_aborted)), .session 0 5 .resume,
    .session 0 6 .resume, .session 0 7 .connected, .session 0 8 (.io (.error .reset)),
    .session 0 9 .resume]

/-- With the only session suspended in the write of its 503, no connection of the second
backend is in use and its gauge says one is. -/
theorem pool_gauge_behind_replay :
    ∃ p tr, exec step twoBackends replayRefused = some (p, tr)
      ∧ (∀ s ∈ p.sessions, s.point = .responding unavailable)
      ∧ p.shared.pool.active_count 1 = 0 ∧ p.shared.metrics.pool_active_ 1 = 1 := by
  have hrun : (exec step twoBackends replayRefused).any (fun x =>
      (∀ s ∈ x.1.sessions, s.point = .responding unavailable)
      ∧ x.1.shared.pool.active_count 1 = 0 ∧ x.1.shared.metrics.pool_active_ 1 = 1) = true := by
    decide +kernel
  obtain ⟨⟨p, tr⟩, hexec, hfacts⟩ := (Option.any_eq_true _ _).mp hrun
  exact ⟨p, tr, hexec, of_decide_eq_true hfacts⟩

end Proxy

end AegisProxy
