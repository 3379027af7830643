/-
The counters of the registry, against what the sessions have done.

The counters are bumped at scattered places of `handle_client`, several failures can come
before one success or one 503, and the sessions interleave. What holds through all of it is
that the registry is a ledger of the trace: each counter has been added to once for every
call, session or 503 it counts (`Ledger`), and every session that has its outcome has it
once. So what was received is what succeeded, what fell back, and what is still open.

The counters wrap at `2^64`, and the bound that keeps them from it is that a session adds at
most one to any of them. For the failures of a backend that is the attempt loop: a session
does not come back to a backend it has given up.
-/
import AegisProxy.AttemptLoop
import AegisProxy.SessionRuns
import Mathlib.Algebra.BigOperators.Group.Finset.Piecewise
import Mathlib.Algebra.Order.BigOperators.Group.Finset

set_option autoImplicit false

namespace AegisProxy

open Runs

/-! ## The counters -/

/-- Counting from zero, `2^64` is zero again. -/
theorem MetricsRegistry.fetch_add_iterate (n : ℕ) : fetch_add^[n] 0 = n % 2 ^ 64 := by
  induction n with
  | zero => rfl
  | succ n ih =>
      rw [Function.iterate_succ_apply', ih, fetch_add]
      omega

/-- Whether an answered call is `record_success`. -/
def isSuccess : CircuitBreaker.Call × Option Bool → Bool
  | (.record_success _, _) => true
  | _ => false

theorem countP_isCall_wire (kind : CircuitBreaker.Call × Option Bool → Bool)
    (q : Attempt → Bool) {acts : List Action} (h : ∀ x ∈ acts, x.isWire = true) :
    acts.countP (Action.isCall kind q) = 0 := by
  rw [List.countP_eq_zero]
  intro x hx
  have hwire := h x hx
  cases x with
  | breaker a call answer => cases hwire
  | _ => simp [Action.isCall]

/-- If the successes are on the first `n` backends, they are the successes of those. -/
theorem sum_successes {n : ℕ} {acts : List Action}
    (h : ∀ a call answer, .breaker a call answer ∈ acts → a.backend_index < n) :
    ∑ b ∈ Finset.range n, (callsOn b acts).countP isSuccess = acts.countP Action.isSuccess := by
  simp only [← countP_isCall]
  induction acts with
  | nil => simp
  | cons x acts ih =>
      have hrest := ih fun a call answer hx => h a call answer (List.mem_cons_of_mem _ hx)
      simp only [List.countP_cons, Finset.sum_add_distrib, hrest]
      congr 1
      cases x with
      | breaker a call answer =>
          have hmem : a.backend_index ∈ Finset.range n :=
            Finset.mem_range.mpr (h a call answer List.mem_cons_self)
          cases call with
          | record_success now =>
              simp only [Action.isCall, isSuccess, Action.isSuccess, Bool.and_true,
                decide_eq_true_eq, Finset.sum_ite_eq, hmem, if_true]
          | _ => simp [Action.isCall, isSuccess, Action.isSuccess]
      | _ => simp [Action.isCall, Action.isSuccess]

/-! ## What a piece counts -/

/-- The registry went from that of `sh` to that of `sh'` while `acts` was emitted: the number
of requests is as before, and each success and each 503 was counted once. -/
structure Counted (sh : Shared) (acts : List Action) (sh' : Shared) : Prop where
  total : sh'.metrics.total_requests_ = sh.metrics.total_requests_
  success : ∀ b, sh'.metrics.backend_success_ b
    = MetricsRegistry.fetch_add^[(callsOn b acts).countP isSuccess]
        (sh.metrics.backend_success_ b)
  fallback : sh'.metrics.fallback_503_
    = MetricsRegistry.fetch_add^[acts.count .fallback_503] sh.metrics.fallback_503_

/-- The counters of requests, successes and 503s are as they were. -/
structure SameCounters (sh sh' : Shared) : Prop where
  total : sh'.metrics.total_requests_ = sh.metrics.total_requests_
  success : sh'.metrics.backend_success_ = sh.metrics.backend_success_
  fallback : sh'.metrics.fallback_503_ = sh.metrics.fallback_503_

namespace SameCounters

theorem refl (sh : Shared) : SameCounters sh sh := ⟨rfl, rfl, rfl⟩

theorem trans {sh sh' sh'' : Shared} (h : SameCounters sh sh') (h' : SameCounters sh' sh'') :
    SameCounters sh sh'' :=
  ⟨h'.total.trans h.total, h'.success.trans h.success, h'.fallback.trans h.fallback⟩

theorem asked (sh : Shared) (now : Time) (b : ℕ) : SameCounters sh (sh.asked now b) :=
  ⟨rfl, rfl, rfl⟩

/-- The pool is on no counter. -/
theorem pool (sh : Shared) (pool : ConnectionPool) : SameCounters sh { sh with pool := pool } :=
  ⟨rfl, rfl, rfl⟩

theorem gaugePool (sh : Shared) (b : ℕ) : SameCounters sh (sh.gaugePool b) := ⟨rfl, rfl, rfl⟩

theorem released (sh : Shared) (b socket : ℕ) : SameCounters sh (sh.released b socket) :=
  (pool sh _).trans (gaugePool _ b)

theorem record_failure (sh : Shared) (now : Time) (a : Attempt) :
    SameCounters sh (Session.record_failure sh now a).1 := ⟨rfl, rfl, rfl⟩

end SameCounters

/-- Neither a success nor a 503. -/
theorem Counted.of_quiet {sh sh' : Shared} {acts : List Action} (hsame : SameCounters sh sh')
    (hsuccess : ∀ b, acts.countP (Action.isCall isSuccess (·.backend_index = b)) = 0)
    (hfallback : .fallback_503 ∉ acts) : Counted sh acts sh' where
  total := hsame.total
  success := by
    intro b
    rw [← countP_isCall, hsuccess b, hsame.success]
    rfl
  fallback := by
    rw [List.count_eq_zero_of_not_mem hfallback, hsame.fallback]
    rfl

/-- A 503 comes last. -/
theorem Counted.give_up {sh sh' : Shared} {acts : List Action} (h : Counted sh acts sh') :
    Counted sh (acts ++ [.fallback_503])
      { sh' with metrics := sh'.metrics.record_fallback_503 } where
  total := h.total
  success := by
    intro b
    rw [callsOn_append, List.countP_append]
    exact h.success b
  fallback := by
    rw [List.count_append, Nat.add_comm, Function.iterate_add_apply, ← h.fallback]
    rfl

theorem Counted.succeeded (sh : Shared) (now : Time) (a : Attempt) :
    Counted sh (Session.record_success sh now a).2 (Session.record_success sh now a).1 where
  total := rfl
  success := by
    intro b
    rw [← countP_isCall]
    by_cases hb : a.backend_index = b
    · subst hb
      simp [Action.isCall, isSuccess, Session.record_success, Shared.setBreaker,
        MetricsRegistry.record_backend_success, MetricsRegistry.set_breaker_state]
    · simp [Action.isCall, isSuccess, Session.record_success, Shared.setBreaker, hb,
        MetricsRegistry.record_backend_success, MetricsRegistry.set_breaker_state,
        Function.update_of_ne (Ne.symm hb)]
  fallback := rfl

/-- What was counted after a part that counts nothing. -/
theorem Counted.after {sh sh' sh'' : Shared} {acts : List Action} (pre : List Action)
    (hsame : SameCounters sh sh') (hcalls : ∀ b, callsOn b pre = [])
    (hfallback : .fallback_503 ∉ pre) (h : Counted sh' acts sh'') :
    Counted sh (pre ++ acts) sh'' where
  total := h.total.trans hsame.total
  success := by
    intro b
    rw [callsOn_append, hcalls b, List.nil_append, ← hsame.success]
    exact h.success b
  fallback := by
    rw [List.count_append, List.count_eq_zero_of_not_mem hfallback, Nat.zero_add,
      ← hsame.fallback]
    exact h.fallback

namespace Session

variable {sh sh' : Shared} {now : Time} {s s' : Session} {acts : List Action}

/-- **A piece counts what it does.** -/
theorem Piece.counted (hpc : Piece sh now s sh' s' acts) : Counted sh acts sh' := by
  have hfailed : ∀ a socket,
      SameCounters sh (record_failure (sh.released a.backend_index socket) now a).1 :=
    fun a socket => (SameCounters.released sh a.backend_index socket).trans (.record_failure _ now a)
  cases hpc with
  | gave_up hp =>
      have hnone : Counted sh [] sh := .of_quiet (.refl sh) (fun b => rfl) (by simp)
      exact hnone.give_up
  | threw b hp => exact .of_quiet (.refl sh) (fun b => rfl) (by simp)
  | skipped b hp =>
      exact .of_quiet (.asked sh now b) (fun b => by simp [Action.isCall, isSuccess]) (by simp)
  | dialing b hp =>
      exact .of_quiet (.asked sh now b) (fun b => by simp [Action.isCall, isSuccess]) (by simp)
  | pooled b socket pool hp =>
      have hsame := ((SameCounters.asked sh now b).trans (.pool _ pool)).trans (.gaugePool _ b)
      exact .of_quiet hsame (fun b => by simp [Action.isCall, isSuccess]) (by simp)
  | connected a hp =>
      have hsame := (SameCounters.pool sh (sh.pool.acquire_connected a.backend_index).2).trans
        (.gaugePool _ a.backend_index)
      exact .of_quiet hsame (fun b => by simp [Action.isCall]) (by simp)
  | connect_failed a hp =>
      exact .of_quiet (.record_failure sh now a) (fun b => by simp [Action.isCall, isSuccess])
        (by simp)
  | replay_failed a socket rest out ec hp =>
      have hsame := (SameCounters.record_failure sh now a).trans
        (.pool _ (sh.pool.release a.backend_index socket false true))
      exact .of_quiet hsame (fun b => by simp [Action.isCall, isSuccess]) (by simp)
  | succeeded a socket race hp =>
      exact .after [.released a socket] (.released sh a.backend_index socket) (fun b => rfl)
        (by simp) (.succeeded _ now a)
  | failed a socket race hp =>
      exact .of_quiet (hfailed a socket) (fun b => by simp [Action.isCall, isSuccess]) (by simp)
  | failed_capped a socket race hp =>
      have hquiet : Counted sh [.released a socket, .breaker a (.record_failure now) none] _ :=
        .of_quiet (hfailed a socket) (fun b => by simp [Action.isCall, isSuccess]) (by simp)
      exact hquiet.give_up
  | wire s' acts hw =>
      refine .of_quiet (.refl sh) (fun b => countP_isCall_wire isSuccess _ hw.acts) ?_
      intro hx
      have hwire := hw.acts _ hx
      cases hwire

/-- A session comes to its outcome by one success or one 503. -/
theorem Piece.settles (hpc : Piece sh now s sh' s' acts) :
    (outcomes acts).1 + (outcomes acts).2 + s.point.settled.toNat = s'.point.settled.toNat := by
  cases hpc with
  | pooled b socket pool hp =>
      rw [usePoint_settled, hp]
      rfl
  | connected a hp =>
      rw [usePoint_settled, hp]
      rfl
  | wire s' acts hw =>
      rw [outcomes_wire hw.acts, hw.settled]
      omega
  | _ => simp_all [outcomes, Action.isSuccess, Point.settled]

/-- A breaker that is called is one of the backends'. -/
theorem Piece.calls_lt (hpc : Piece sh now s sh' s' acts)
    (hlt : ∀ a, s.point.attempt = some a → a.backend_index < sh.backend_count) :
    ∀ a call answer, .breaker a call answer ∈ acts → a.backend_index < sh.backend_count := by
  cases hpc with
  | wire s' acts hw =>
      intro a call answer hx
      have hwire := hw.acts _ hx
      cases hwire
  | _ => simp_all [Point.attempt]

/-- A failure of a backend excludes it, and it was not excluded before. -/
theorem Piece.fails_once (hpc : Piece sh now s sh' s' acts)
    (hnot : ∀ a, s.point.attempt = some a → a.backend_index ∉ s.excluded) (b : ℕ) :
    (callsOn b acts).countP isFailure + (decide (b ∈ s.excluded)).toNat
      ≤ (decide (b ∈ s'.excluded)).toNat := by
  rw [← countP_isCall]
  -- nothing failed, and what was excluded still is
  have hquiet : acts.countP (Action.isCall isFailure (·.backend_index = b)) = 0 →
      s.excluded ⊆ s'.excluded →
      acts.countP (Action.isCall isFailure (·.backend_index = b))
        + (decide (b ∈ s.excluded)).toNat ≤ (decide (b ∈ s'.excluded)).toNat := by
    intro hzero hsub
    rw [hzero, Nat.zero_add]
    refine Bool.toNat_le_toNat ?_
    intro hb
    exact decide_eq_true (hsub (of_decide_eq_true hb))
  -- the attempt has failed
  have hfailed : ∀ {a}, s.point.attempt = some a →
      acts.countP (Action.isCall isFailure (·.backend_index = b))
        = (if a.backend_index = b then 1 else 0) →
      s'.excluded = insert a.backend_index s.excluded →
      acts.countP (Action.isCall isFailure (·.backend_index = b))
        + (decide (b ∈ s.excluded)).toNat ≤ (decide (b ∈ s'.excluded)).toNat := by
    intro a hat hone hexcl
    rw [hone, hexcl]
    by_cases hb : a.backend_index = b
    · subst hb
      simp [hnot a hat]
    · simp [hb, Ne.symm hb]
  cases hpc with
  | skipped b' hp =>
      exact hquiet (by simp [Action.isCall, isFailure]) (Finset.subset_insert _ _)
  | connect_failed a hp =>
      exact hfailed (by rw [hp]; rfl) (by simp [List.countP_cons, Action.isCall, isFailure]) rfl
  | replay_failed a socket rest out ec hp =>
      exact hfailed (by rw [hp]; rfl) (by simp [List.countP_cons, Action.isCall, isFailure]) rfl
  | failed a socket race hp =>
      exact hfailed (by rw [hp]; rfl) (by simp [List.countP_cons, Action.isCall, isFailure]) rfl
  | failed_capped a socket race hp =>
      exact hfailed (by rw [hp]; rfl) (by simp [List.countP_cons, Action.isCall, isFailure]) rfl
  | wire s' acts hw =>
      exact hquiet (countP_isCall_wire isFailure _ hw.acts) (by rw [hw.excluded])
  | _ => exact hquiet (by simp [Action.isCall, isFailure]) (Finset.Subset.refl _)

/-- The attempt a session is in is on a backend of the ring that it has not given up. -/
theorem Walked.attempt {ring : HashRing} {tr : List Action} (h : Walked ring s tr) {a : Attempt}
    (hat : s.point.attempt = some a) :
    a.backend_index ∉ s.excluded ∧ ∃ p, ring.ring_.At p a.backend_index := by
  obtain ⟨hget, -⟩ := h.current a hat
  refine ⟨?_, HashRing.mem_order.mp (List.mem_of_getElem? hget)⟩
  rw [h.excluded, List.mem_toFinset]
  intro hmem
  obtain ⟨k, hk⟩ := List.mem_iff_getElem?.mp hmem
  rw [List.getElem?_take] at hk
  split at hk
  · rename_i hlt
    -- the order has every backend once
    have hklt := (List.getElem?_eq_some_iff.mp hk).1
    have heq := (List.getElem?_inj hklt (ring.nodup_order _)).mp (hk.trans hget.symm)
    omega
  · cases hk

end Session

/-! ## The ring of the process -/

theorem HashRing.active_foldl_add {bs : List ℕ} {r : HashRing} {b : ℕ}
    (h : b ∈ (bs.foldl add_backend r).active_backends_) : b ∈ r.active_backends_ ∨ b ∈ bs := by
  induction bs generalizing r with
  | nil => exact Or.inl h
  | cons c bs ih =>
      rw [List.mem_cons]
      rcases ih h with hr | hbs
      · unfold add_backend at hr
        split at hr
        · exact Or.inl hr
        · rcases Finset.mem_insert.mp hr with rfl | hr
          · exact Or.inr (Or.inl rfl)
          · exact Or.inl hr
      · exact Or.inr (Or.inr hbs)

/-- The points of the ring that `main` builds are those of its backends. -/
theorem Shared.new_ring_lt {backend_count num_vnodes : ℕ}
    {failure_threshold success_threshold cooldown_period : ℤ} {min_pool_size : ℕ → ℕ}
    {p : UInt64} {b : ℕ}
    (h : (Shared.new backend_count num_vnodes failure_threshold success_threshold cooldown_period
      min_pool_size).ring.ring_.At p b) : b < backend_count := by
  have hafter : (List.range backend_count).foldl HashRing.add_backend (.new num_vnodes)
      = HashRing.after num_vnodes ((List.range backend_count).map .add_backend) := by
    rw [HashRing.after, List.foldl_map]
    rfl
  change ((List.range backend_count).foldl HashRing.add_backend (.new num_vnodes)).ring_.At p b at h
  have hactive : b ∈ ((List.range backend_count).foldl HashRing.add_backend
      (.new num_vnodes)).active_backends_ := by
    rw [hafter] at h ⊢
    exact ((HashRing.owned_after _ _).owner p b h).1
  rcases HashRing.active_foldl_add hactive with hnew | hmem
  · cases hnew
  · exact List.mem_range.mp hmem

/-! ## The ledger of the process -/

namespace Proxy

/-- The calls of `record_success` on the breaker of `b`. -/
def successes (b : ℕ) (tr : List (ℕ × Action)) : ℕ := (callsOn b tr).countP isSuccess

/-- The calls of `record_failure` on the breaker of `b`. -/
def failures (b : ℕ) (tr : List (ℕ × Action)) : ℕ := (callsOn b tr).countP isFailure

/-- How often a session fell back to the 503. -/
def fallbacks (tr : List (ℕ × Action)) : ℕ := (tr.map Prod.snd).count .fallback_503

theorem successes_append (b i : ℕ) (tr : List (ℕ × Action)) (acts : List Action) :
    successes b (tr ++ acts.map fun x => (i, x))
      = successes b tr + (AegisProxy.callsOn b acts).countP isSuccess := by
  unfold successes
  rw [callsOn_append, List.countP_append, callsOn_session]

theorem failures_append (b i : ℕ) (tr : List (ℕ × Action)) (acts : List Action) :
    failures b (tr ++ acts.map fun x => (i, x))
      = failures b tr + (AegisProxy.callsOn b acts).countP isFailure := by
  unfold failures
  rw [callsOn_append, List.countP_append, callsOn_session]

theorem fallbacks_append (i : ℕ) (tr : List (ℕ × Action)) (acts : List Action) :
    fallbacks (tr ++ acts.map fun x => (i, x)) = fallbacks tr + acts.count .fallback_503 := by
  unfold fallbacks
  rw [List.map_append, List.count_append, List.map_map]
  simp [Function.comp_def]

/-- The registry is a ledger of the trace, and the trace of the sessions. -/
structure Ledger (p : Proxy) (tr : List (ℕ × Action)) : Prop where
  total : p.shared.metrics.total_requests_ = MetricsRegistry.fetch_add^[p.sessions.length] 0
  success : ∀ b, p.shared.metrics.backend_success_ b
    = MetricsRegistry.fetch_add^[successes b tr] 0
  failure : ∀ b, p.shared.metrics.backend_failure_ b
    = MetricsRegistry.fetch_add^[failures b tr] 0
  fallback : p.shared.metrics.fallback_503_ = MetricsRegistry.fetch_add^[fallbacks tr] 0
  balance : ∑ b ∈ Finset.range p.shared.backend_count, successes b tr + fallbacks tr
    = p.sessions.countP (·.point.settled)
  failed_once : ∀ b, failures b tr ≤ p.sessions.countP (b ∈ ·.excluded)

/-- A session of its own is settled nowhere and has excluded nothing, and it counts itself. -/
theorem Ledger.accepted {p : Proxy} {tr : List (ℕ × Action)} (h : Ledger p tr) (key : Bytes)
    (now : Time) : Ledger (p.accept key now) tr := by
  rcases p.accept_cases key now with ⟨-, he⟩ | ⟨-, he⟩
  · rw [he]
    refine ⟨?_, h.success, h.failure, h.fallback, ?_, ?_⟩
    · change MetricsRegistry.fetch_add _ = _
      rw [h.total, List.length_append, List.length_singleton, Function.iterate_succ_apply']
    · rw [List.countP_append]
      exact h.balance
    · intro b
      rw [List.countP_append]
      exact Nat.le_add_right_of_le (h.failed_once b)
  · rw [he]
    exact ⟨h.total, h.success, h.failure, h.fallback, h.balance, h.failed_once⟩

/-- **One step keeps the ledger**, of a session that is in no attempt on a backend it has
given up. -/
theorem Ledger.step {p p' : Proxy} {inp : Input} {tr out : List (ℕ × Action)}
    (h : Ledger p tr)
    (hplaced : ∀ s ∈ p.sessions, ∀ a, s.point.attempt = some a →
      a.backend_index ∉ s.excluded ∧ a.backend_index < p.shared.backend_count)
    (hstep : p.step inp = some (p', out)) : Ledger p' (tr ++ out) := by
  rcases step_cases hstep with ⟨connected, i, rest, -, -, rfl, rfl⟩
    | ⟨key, now, -, -, -, rfl, rfl⟩ | ⟨now, -, -, -, rfl, rfl⟩
    | ⟨i, now, e, s, shared, s', acts, -, -, hi, hs, rfl, rfl⟩
  · rw [List.append_nil]
    cases connected with
    | true => exact ⟨h.total, h.success, h.failure, h.fallback, h.balance, h.failed_once⟩
    | false => exact ⟨h.total, h.success, h.failure, h.fallback, h.balance, h.failed_once⟩
  · rw [List.append_nil]
    exact h.accepted key now
  · rw [List.append_nil]
    exact ⟨h.total, h.success, h.failure, h.fallback, h.balance, h.failed_once⟩
  · have hpc := Session.step_piece hs
    have heff := Session.step_effect hs
    have hsess := hplaced s (List.mem_of_getElem? hi)
    obtain ⟨htotal, hsuccess, hfallback⟩ := hpc.counted
    refine ⟨?_, ?_, ?_, ?_, ?_, ?_⟩
    · rw [List.length_set]
      exact htotal.trans h.total
    · intro b
      rw [successes_append, Nat.add_comm, Function.iterate_add_apply, ← h.success b]
      exact hsuccess b
    · intro b
      rw [failures_append, Nat.add_comm, Function.iterate_add_apply, ← h.failure b]
      exact heff.failures b
    · rw [fallbacks_append, Nat.add_comm, Function.iterate_add_apply, ← h.fallback]
      exact hfallback
    · have hbal := h.balance
      have hsum := sum_successes (hpc.calls_lt fun a hat => (hsess a hat).2)
      have hset := hpc.settles
      have hcount := countP_set_add s' (·.point.settled) hi
      simp only [successes_append, fallbacks_append, Finset.sum_add_distrib,
        heff.backend_count, hsum]
      unfold AegisProxy.outcomes at hset
      omega
    · intro b
      have hold := h.failed_once b
      have hnew := hpc.fails_once (fun a hat => (hsess a hat).1) b
      have hcount := countP_set_add s' (b ∈ ·.excluded) hi
      rw [failures_append]
      dsimp only
      omega

/-- A session of a process whose ring is that of its backends goes down the order of it. -/
theorem Separate.walked {p₀ p : Proxy} {tr : List (ℕ × Action)} (h : Separate p₀ p tr)
    (hring : ∀ k b, p₀.shared.ring.ring_.At k b → b < p₀.shared.backend_count) {i : ℕ}
    {s : Session} (hi : p.sessions[i]? = some s) :
    Session.Walked p₀.shared.ring s (actionsOf i tr) := by
  obtain ⟨client_key, ins, hrun, hins⟩ := h.sessions i s hi
  refine (Session.walked_run (fun inp hinp => ⟨(hins inp hinp).1, ?_⟩) hrun).1
  rw [(hins inp hinp).2]
  exact hring

/-- **The ledger of a run.** -/
theorem ledger_run {p₀ p : Proxy} (hnone : p₀.sessions = []) (hzero : p₀.shared.metrics = .new)
    (hring : ∀ k b, p₀.shared.ring.ring_.At k b → b < p₀.shared.backend_count)
    {ins : List Input} {tr : List (ℕ × Action)} (h : exec step p₀ ins = some (p, tr)) :
    Ledger p tr := by
  have hboth := exec_invariant (I := fun q tr => Separate p₀ q tr ∧ Ledger q tr) ?_
    ⟨session_run hnone (exec_nil p₀), ?_⟩ h
  · exact hboth.2
  · rintro q tr inp q' out ⟨hsep, hled⟩ hstep
    refine ⟨hsep.step hstep, hled.step ?_ hstep⟩
    intro s hs a hat
    obtain ⟨i, hi⟩ := List.mem_iff_getElem?.mp hs
    obtain ⟨hnot, k, hk⟩ := (hsep.walked hring hi).attempt hat
    rw [hsep.backend_count]
    exact ⟨hnot, hring k _ hk⟩
  · refine ⟨?_, ?_, ?_, ?_, ?_, ?_⟩
    · rw [hzero, hnone]
      rfl
    · intro b
      rw [hzero]
      rfl
    · intro b
      rw [hzero]
      rfl
    · rw [hzero]
      rfl
    · rw [hnone]
      simp [successes, fallbacks, callsOn]
    · intro b
      rw [hnone]
      exact Nat.le_refl _

/-- **Metrics conservation.** In every state of every run of the process, with any
interleaving of its sessions and fewer than `2^64` of them so far: what was received is what
succeeded, summed over the backends, what fell back to the 503, and the sessions that do not
have their outcome yet, none of which has been lost to an exception; and of every backend
`backend_success` and `backend_failure` are the numbers of calls of `record_success` and
`record_failure` on its breaker. -/
theorem metrics_conservation (backend_count num_vnodes : ℕ)
    (failure_threshold success_threshold cooldown_period : ℤ) (min_pool_size : ℕ → ℕ)
    (limiter : RateLimiter) (max_attempts : ℤ) (clock : Time) (ins : List Input) (p : Proxy)
    (tr : List (ℕ × Action))
    (h : exec step (boot (.new backend_count num_vnodes failure_threshold success_threshold
      cooldown_period min_pool_size) limiter max_attempts clock) ins = some (p, tr))
    (hfew : p.sessions.length < 2 ^ 64) :
    (p.shared.metrics.total_requests_
        = ∑ b ∈ Finset.range backend_count, p.shared.metrics.backend_success_ b
          + p.shared.metrics.fallback_503_ + p.sessions.countP (fun s => !s.point.settled)
      ∧ ∀ s ∈ p.sessions, s.point ≠ .threw)
    ∧ ∀ b < backend_count, p.shared.metrics.backend_success_ b = successes b tr
      ∧ p.shared.metrics.backend_failure_ b = failures b tr := by
  have hring : ∀ k b, (boot (.new backend_count num_vnodes failure_threshold success_threshold
      cooldown_period min_pool_size) limiter max_attempts clock).shared.ring.ring_.At k b →
      b < backend_count := fun k b hat => Shared.new_ring_lt hat
  have hsep := session_run rfl h
  have hled := ledger_run rfl rfl hring h
  have hbal := hled.balance
  rw [hsep.backend_count] at hbal
  change ∑ b ∈ Finset.range backend_count, successes b tr + fallbacks tr = _ at hbal
  have hopen := p.sessions.length_eq_countP_add_countP (·.point.settled)
  -- no counter has more to count than there are sessions
  have hcount : ∀ n, n ≤ p.sessions.length → MetricsRegistry.fetch_add^[n] 0 = n := by
    intro n hn
    rw [MetricsRegistry.fetch_add_iterate, Nat.mod_eq_of_lt (Nat.lt_of_le_of_lt hn hfew)]
  have hsuccess : ∀ b ∈ Finset.range backend_count,
      p.shared.metrics.backend_success_ b = successes b tr := by
    intro b hb
    have hle : successes b tr ≤ ∑ b ∈ Finset.range backend_count, successes b tr :=
      Finset.single_le_sum (f := fun b => successes b tr) (fun _ _ => Nat.zero_le _) hb
    rw [hled.success]
    exact hcount _ (by omega)
  refine ⟨⟨?_, ?_⟩, ?_⟩
  · rw [hled.total, hcount _ (Nat.le_refl _), hled.fallback, hcount _ (by omega),
      Finset.sum_congr rfl hsuccess, hbal]
    simpa using hopen
  · intro s hs
    obtain ⟨i, hi⟩ := List.mem_iff_getElem?.mp hs
    exact (hsep.walked hring hi).caught
  · intro b hb
    refine ⟨hsuccess b (Finset.mem_range.mpr hb), ?_⟩
    have hle := hled.failed_once b
    have hlen := List.countP_le_length (p := fun s : Session => b ∈ s.excluded) (l := p.sessions)
    rw [hled.failure]
    exact hcount _ (by omega)

/-- Two sessions on one backend: the first is answered, the second cannot connect and is sent
the 503. -/
def answeredAndRefused : List Input :=
  [.accept [] 0, .accept [49] 0, .session 0 1 .resume, .session 0 2 .connected,
    .session 0 3 (.relay .downstream (.read_some [72])),
    .session 0 3 (.relay .downstream (.wrote_some 1)),
    .session 0 4 (.relay .downstream (.error .eof)),
    .session 0 4 (.relay .upstream (.error .operation_aborted)),
    .session 0 5 .resume, .session 1 6 .resume, .session 1 7 .connect_failed,
    .session 1 8 .resume]

/-- Two requests are one success and, after one failure, one 503. -/
theorem metrics_conservation_two_sessions :
    ∃ p tr, exec step oneBackend answeredAndRefused = some (p, tr)
      ∧ p.shared.metrics.total_requests_
        = ∑ b ∈ Finset.range 1, p.shared.metrics.backend_success_ b
          + p.shared.metrics.fallback_503_ + p.sessions.countP (fun s => !s.point.settled)
      ∧ p.shared.metrics.total_requests_ = 2 ∧ p.shared.metrics.fallback_503_ = 1
      ∧ p.shared.metrics.backend_success_ 0 = 1 ∧ p.shared.metrics.backend_failure_ 0 = 1 := by
  have hrun : (exec step oneBackend answeredAndRefused).any (fun x =>
      x.1.sessions.length = 2 ∧ x.1.shared.metrics.total_requests_ = 2
      ∧ x.1.shared.metrics.fallback_503_ = 1 ∧ successes 0 x.2 = 1 ∧ failures 0 x.2 = 1) = true := by
    decide +kernel
  obtain ⟨⟨p, tr⟩, hexec, hfacts⟩ := (Option.any_eq_true _ _).mp hrun
  obtain ⟨hlen, htwo, hone, hsucc, hfail⟩ := of_decide_eq_true hfacts
  obtain ⟨⟨htotal, -⟩, hcalls⟩ := metrics_conservation 1 1 1 1 5000 (fun _ => 0)
    (.new 10 20 1 (by decide)) 3 0 answeredAndRefused p tr hexec (by rw [hlen]; decide)
  obtain ⟨hsuccess, hfailure⟩ := hcalls 0 Nat.one_pos
  exact ⟨p, tr, hexec, htotal, htwo, hone, hsuccess.trans hsucc, hfailure.trans hfail⟩

end Proxy

end AegisProxy
