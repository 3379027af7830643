/-
The third gauge: `pool_idle`.

It is stored with `pool_active`, in the same two places, but the pool's idle count changes in
others: `warm_up` fills the free lists and stores nothing, and a connection that is given back by
`handle_client` is never kept, so a release changes no free list. What follows is that the gauge
of a backend is zero, whatever is warm, until a session is handed the first connection to it; and
that from then on it is right in every state, also after the failed replay that leaves
`pool_active` behind.
-/
import AegisProxy.SessionRuns

set_option autoImplicit false

namespace AegisProxy

open Runs

/-- The idle gauges of the backends `H` holds of are the pool's counts, and the others are zero. -/
def Shared.IdleGauged (H : ℕ → Prop) (sh : Shared) : Prop :=
  ∀ b, (H b → sh.metrics.pool_idle_ b = sh.pool.idle_count b)
    ∧ (¬ H b → sh.metrics.pool_idle_ b = 0)

/-- A connection to `b` has been handed out. -/
def HandedOut (b : ℕ) (acts : List Action) : Prop :=
  ∃ a socket, a.backend_index = b ∧ .acquired a socket ∈ acts

namespace Shared.IdleGauged

variable {H H' : ℕ → Prop} {sh sh' : Shared}

/-- Neither gauges nor free lists have changed. -/
theorem of_same (h : sh.IdleGauged H) (hgauge : sh'.metrics.pool_idle_ = sh.metrics.pool_idle_)
    (hfree : sh'.pool.free_sockets_ = sh.pool.free_sockets_) (hH : ∀ b, H' b ↔ H b) :
    sh'.IdleGauged H' := by
  intro b
  rw [hH b, hgauge, ConnectionPool.idle_count, hfree]
  exact h b

/-- A store for `b`, where the free list has changed for `b` alone. -/
theorem gaugePool (h : sh.IdleGauged H) {pool : ConnectionPool} {b : ℕ} (hb : H' b)
    (hothers : ∀ b', b' ≠ b → (H' b' ↔ H b'))
    (hfree : ∀ b', b' ≠ b → pool.free_sockets_ b' = sh.pool.free_sockets_ b') :
    ({ sh with pool := pool }.gaugePool b).IdleGauged H' := by
  intro b'
  by_cases hbb : b' = b
  · subst hbb
    refine ⟨fun _ => ?_, fun hno => absurd hb hno⟩
    simp [Shared.gaugePool, MetricsRegistry.set_pool_active, MetricsRegistry.set_pool_idle]
  · rw [hothers b' hbb]
    simp only [Shared.gaugePool, MetricsRegistry.set_pool_active, MetricsRegistry.set_pool_idle,
      Function.update_of_ne hbb, ConnectionPool.idle_count, hfree b' hbb]
    exact h b'

end Shared.IdleGauged

namespace Session

variable {H : ℕ → Prop} {sh sh' : Shared} {now : Time} {s s' : Session} {acts : List Action}

/-- **A piece keeps the idle gauges**, of a session whose connection was handed out. -/
theorem Piece.idleGauged (hpc : Piece sh now s sh' s' acts)
    (hheld : ∀ a, s.point.attempt = some a → s.point.socket ≠ none → H a.backend_index)
    (h : sh.IdleGauged H) : sh'.IdleGauged fun b => H b ∨ HandedOut b acts := by
  -- nothing is handed out
  have hnone : (∀ a socket, .acquired a socket ∉ acts) → ∀ b, (H b ∨ HandedOut b acts) ↔ H b := by
    intro hno b
    refine ⟨?_, Or.inl⟩
    rintro (hb | ⟨a, socket, -, hx⟩)
    · exact hb
    · exact absurd hx (hno a socket)
  -- one connection is
  have hone : ∀ {a : Attempt}, (∀ a' socket', .acquired a' socket' ∈ acts → a' = a) →
      ∀ b, b ≠ a.backend_index → ((H b ∨ HandedOut b acts) ↔ H b) := by
    intro a honly b hb
    refine ⟨?_, Or.inl⟩
    rintro (hH | ⟨a', socket', rfl, hx⟩)
    · exact hH
    · exact absurd (congrArg Attempt.backend_index (honly a' socket' hx)) hb
  -- a release stores the counts
  have hreleased : ∀ {a : Attempt} {socket : ℕ}, s.point.attempt = some a → s.point.socket ≠ none →
      (∀ a socket, .acquired a socket ∉ acts) →
      (sh.released a.backend_index socket).IdleGauged fun b => H b ∨ HandedOut b acts := by
    intro a socket hat hsock hno
    refine h.gaugePool (Or.inl (hheld a hat hsock)) (fun b _ => hnone hno b) fun b _ => ?_
    rw [ConnectionPool.release_dropped _ _ _ (Or.inl rfl)]
  cases hpc with
  | pooled b socket pool hp hlt hring hb hans hfree =>
      have hasked : (sh.asked now b).IdleGauged H := h
      refine hasked.gaugePool (Or.inr ⟨⟨s.attempts, b⟩, socket, rfl, by simp⟩)
        (hone (a := ⟨s.attempts, b⟩) (by simp)) fun b' hb' => ?_
      rw [(ConnectionPool.acquire_some hfree).2.1, Function.update_of_ne hb']
      rfl
  | connected a hp =>
      exact h.gaugePool (Or.inr ⟨a, sh.pool.next_socket, rfl, by simp⟩)
        (hone (a := a) (by simp)) fun b' hb' => rfl
  | replay_failed a socket rest out ec hp =>
      exact h.of_same rfl (ConnectionPool.release_dropped _ _ _ (Or.inl rfl)) (hnone (by simp))
  | succeeded a socket race hp =>
      exact hreleased (by rw [hp]; rfl) (by rw [hp]; simp [Point.socket]) (by simp)
  | failed a socket race hp =>
      exact hreleased (by rw [hp]; rfl) (by rw [hp]; simp [Point.socket]) (by simp)
  | failed_capped a socket race hp =>
      exact hreleased (by rw [hp]; rfl) (by rw [hp]; simp [Point.socket]) (by simp)
  | wire s' acts hw =>
      refine h.of_same rfl rfl (hnone fun a socket hx => ?_)
      have hwire := hw.acts _ hx
      cases hwire
  | _ => exact h.of_same rfl rfl (hnone (by simp))

end Session

namespace Proxy

/-- The idle gauges, and that nothing happens before the pool is warm. -/
structure Idling (p : Proxy) (tr : List (ℕ × Action)) : Prop where
  gauged : p.shared.IdleGauged fun b => HandedOut b (tr.map Prod.snd)
  cold : p.warming ≠ [] → p.sessions = [] ∧ tr = []

/-- **A step keeps the idle gauges.** -/
theorem Idling.step {p p' : Proxy} {inp : Input} {tr out : List (ℕ × Action)} (h : Idling p tr)
    (howns : ∀ (i : ℕ) s, p.sessions[i]? = some s → Session.Owns s (actionsOf i tr))
    (hstep : p.step inp = some (p', out)) : Idling p' (tr ++ out) := by
  rcases step_cases hstep with ⟨connected, i, rest, -, hw, rfl, rfl⟩
    | ⟨key, now, -, -, hw, rfl, rfl⟩ | ⟨now, -, -, hw, rfl, rfl⟩
    | ⟨i, now, e, s, shared, s', acts, -, -, hi, hs, rfl, rfl⟩
  · obtain ⟨hsess, rfl⟩ := h.cold (by rw [hw]; simp)
    refine ⟨?_, fun _ => ⟨hsess, rfl⟩⟩
    -- nothing has been handed out, so all gauges are zero and stay so
    have hzero : ∀ b, ¬ HandedOut b (([] : List (ℕ × Action)).map Prod.snd) := by
      rintro b ⟨a, socket, -, hx⟩
      cases hx
    intro b
    refine ⟨fun hb => absurd hb (hzero b), fun _ => ?_⟩
    have hbefore := (h.gauged b).2 (hzero b)
    cases connected with
    | true => exact hbefore
    | false => exact hbefore
  · rw [List.append_nil]
    rcases p.accept_cases key now with ⟨-, he⟩ | ⟨-, he⟩
    · rw [he]
      exact ⟨h.gauged, fun hno => absurd hw hno⟩
    · rw [he]
      exact ⟨h.gauged, h.cold⟩
  · rw [List.append_nil]
    exact ⟨h.gauged, h.cold⟩
  · have hown := howns i s hi
    have hgauged := (Session.step_piece hs).idleGauged
      (H := fun b => HandedOut b (tr.map Prod.snd)) (fun a hat hsock => by
        obtain ⟨socket, hsome⟩ := Option.ne_none_iff_exists'.mp hsock
        have hmem := mem_actionsOf.mp (hown.socket a socket hat hsome)
        exact ⟨a, socket, rfl, List.mem_map.mpr ⟨_, hmem, rfl⟩⟩) h.gauged
    refine ⟨hgauged.of_same rfl rfl fun b => ?_, fun hno => ?_⟩
    · simp only [HandedOut, List.map_append, List.map_map, List.mem_append, Function.comp_def,
        List.map_id']
      constructor
      · rintro ⟨a, socket, hb, hx | hx⟩
        · exact Or.inl ⟨a, socket, hb, hx⟩
        · exact Or.inr ⟨a, socket, hb, hx⟩
      · rintro (⟨a, socket, hb, hx⟩ | ⟨a, socket, hb, hx⟩)
        · exact ⟨a, socket, hb, Or.inl hx⟩
        · exact ⟨a, socket, hb, Or.inr hx⟩
    · rw [(h.cold hno).1] at hi
      simp at hi

/-- **The idle gauge.** In every state a run of the process comes to, with any interleaving of its
sessions, the gauge of a backend is the number of its idle connections if a connection to it has
been handed out in the run, and zero if none has, however many of them are warm. -/
theorem idle_gauge (backend_count num_vnodes : ℕ)
    (failure_threshold success_threshold cooldown_period : ℤ) (min_pool_size : ℕ → ℕ)
    (limiter : RateLimiter) (max_attempts : ℤ) (clock : Time) (ins : List Input) (p : Proxy)
    (tr : List (ℕ × Action))
    (h : exec step (boot (.new backend_count num_vnodes failure_threshold success_threshold
      cooldown_period min_pool_size) limiter max_attempts clock) ins = some (p, tr)) (b : ℕ) :
    (HandedOut b (tr.map Prod.snd) →
        p.shared.metrics.pool_idle_ b = p.shared.pool.idle_count b)
      ∧ (¬ HandedOut b (tr.map Prod.snd) → p.shared.metrics.pool_idle_ b = 0) := by
  -- that a session's connection was handed out is known of its solo run, so both go together
  have hinv := exec_invariant
    (I := fun q tr => Separate (boot (.new backend_count num_vnodes failure_threshold
      success_threshold cooldown_period min_pool_size) limiter max_attempts clock) q tr
      ∧ Idling q tr)
    (fun q tr inp q' out hq hstep => by
      refine ⟨hq.1.step hstep, hq.2.step (fun i s hi => ?_) hstep⟩
      obtain ⟨client_key, is, hrun, -⟩ := hq.1.sessions i s hi
      exact Session.owns_run hrun)
    ⟨session_run rfl (exec_nil _), ⟨fun b => ⟨?_, fun _ => rfl⟩, fun _ => ⟨rfl, rfl⟩⟩⟩ h
  · exact hinv.2.gauged b
  · rintro ⟨a, socket, -, hx⟩
    cases hx

/-- A backend kept warm with two connections. -/
def warmBackend : Proxy := boot (.new 1 1 5 2 5000 fun _ => 2) (.new 10 20 1 Nat.one_pos) 3 0

/-- Both connects succeed, a session is accepted and takes one of the connections. -/
def warmTaken : List Input :=
  [.warm_up true, .warm_up true, .accept [] 0, .session 0 1 .resume]

/-- With the session accepted two connections are idle and the gauge says none is; with the first
of them taken, one is and the gauge says so. -/
theorem idle_gauge_warm :
    (∃ p tr, exec step warmBackend (warmTaken.take 3) = some (p, tr)
      ∧ p.shared.pool.idle_count 0 = 2 ∧ p.shared.metrics.pool_idle_ 0 = 0)
    ∧ ∃ p tr, exec step warmBackend warmTaken = some (p, tr)
      ∧ p.shared.pool.idle_count 0 = 1 ∧ p.shared.metrics.pool_idle_ 0 = 1 := by
  have hbefore : (exec step warmBackend (warmTaken.take 3)).any (fun x =>
      x.1.shared.pool.idle_count 0 = 2 ∧ x.2 = []) = true := by
    decide +kernel
  have hafter : (exec step warmBackend warmTaken).any (fun x =>
      x.1.shared.pool.idle_count 0 = 1 ∧ (0, .acquired ⟨0, 0⟩ 1) ∈ x.2) = true := by
    decide +kernel
  obtain ⟨⟨p, tr⟩, hexec, hfacts⟩ := (Option.any_eq_true _ _).mp hbefore
  obtain ⟨⟨p', tr'⟩, hexec', hfacts'⟩ := (Option.any_eq_true _ _).mp hafter
  obtain ⟨htwo, htr⟩ := of_decide_eq_true hfacts
  obtain ⟨hone, hmem⟩ := of_decide_eq_true hfacts'
  refine ⟨⟨p, tr, hexec, htwo, ?_⟩, p', tr', hexec', hone, ?_⟩
  · refine (idle_gauge 1 1 5 2 5000 (fun _ => 2) _ 3 0 _ p tr hexec 0).2 ?_
    rintro ⟨a, socket, -, hx⟩
    dsimp only at htr
    rw [htr] at hx
    cases hx
  · rw [(idle_gauge 1 1 5 2 5000 (fun _ => 2) _ 3 0 _ p' tr' hexec' 0).1 ?_]
    · exact hone
    · exact ⟨⟨0, 0⟩, 1, rfl, List.mem_map.mpr ⟨_, hmem, rfl⟩⟩

end Proxy

end AegisProxy
