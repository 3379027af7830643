/-
Failover across fleets.

A proxy that is started with more backends, or whose ring has lost some, sends its clients to
others. How far the change goes is a question about the whole order in which the attempt loop
goes through the backends, not only about the first of them: a client whose first backend is
down must still find its second where it was.

With distinct vnode hashes the orders of any two rings agree on the backends they share
(`order_filter`), whatever has been added to and removed from either. A session goes down the
order of its ring as far as it has to, so the sessions of one client on two fleets try the
shared backends in one order: what one of them has tried of those is the beginning of what the
other has (`failover_agreement`).
-/
import AegisProxy.Ledger

set_option autoImplicit false

namespace AegisProxy

open Runs

namespace HashRing

/-! ## Two rings -/

/-- **The orders of two rings agree on what the rings share.** -/
theorem Exact.order_filter {n : ℕ} {r r' : HashRing} (h : Exact n r) (h' : Exact n r')
    (key : Bytes) :
    (r.order key).filter (· ∈ r'.active_backends_)
      = (r'.order key).filter (· ∈ r.active_backends_) := by
  have hwalks : (r.ring_.around (hash_key key)).filter (fun e => e.2 ∈ r'.active_backends_)
      = (r'.ring_.around (hash_key key)).filter (fun e => e.2 ∈ r.active_backends_) := by
    refine SortedMap.around_filter_congr (fun k b => ?_) (hash_key key)
    rw [h.2, h'.2, decide_eq_true_eq, decide_eq_true_eq]
    constructor
    · rintro ⟨⟨hact, hv⟩, hact'⟩
      exact ⟨⟨hact', hv⟩, hact⟩
    · rintro ⟨⟨hact', hv⟩, hact⟩
      exact ⟨⟨hact, hv⟩, hact'⟩
  have howners := congrArg (fun l => (l.map Prod.snd).eraseDups) hwalks
  rw [order, order, ← List.eraseDups_filter, ← List.eraseDups_filter, List.filter_map,
    List.filter_map]
  exact howners

/-- **Failover order.** Take any two histories with distinct vnode hashes, and any key. The
backends are picked in the order of the ring, one after the other as those before are excluded;
and the orders of the two rings, each restricted to the backends that are active in both, are
one list. So what is added or removed between them goes into the order or out of it and moves
nothing else, and two lookups that exclude at least what is not shared answer the same. -/
theorem failover_order (n : ℕ) (history history' : List Op)
    (hd : DistinctVnodes n (history ++ history')) (key : Bytes) :
    (∀ k, (after n history).get_backend_excluding key
        (((after n history).order key).take k).toFinset = ((after n history).order key)[k]?)
    ∧ ((after n history).order key).filter (· ∈ (after n history').active_backends_)
      = ((after n history').order key).filter (· ∈ (after n history).active_backends_)
    ∧ ∀ excluded : Finset ℕ,
      (∀ b, b ∉ excluded →
        (b ∈ (after n history).active_backends_ ↔ b ∈ (after n history').active_backends_)) →
      (after n history).get_backend_excluding key excluded
        = (after n history').get_backend_excluding key excluded := by
  have hexact := exact_after (hd.mono fun op hop => List.mem_append_left _ hop)
  have hexact' := exact_after (hd.mono fun op hop => List.mem_append_right _ hop)
  refine ⟨get_backend_excluding_order _ key, hexact.order_filter hexact' key, ?_⟩
  intro excluded hshared
  rw [get_backend_excluding_eq, get_backend_excluding_eq, SortedMap.firstWhere,
    SortedMap.firstWhere, ← List.head?_filter, ← List.head?_filter]
  congr 2
  refine SortedMap.around_filter_congr (fun k b => ?_) _
  rw [hexact.2, hexact'.2, decide_eq_true_eq]
  constructor
  · rintro ⟨⟨hact, hv⟩, hnot⟩
    exact ⟨⟨(hshared b hnot).mp hact, hv⟩, hnot⟩
  · rintro ⟨⟨hact, hv⟩, hnot⟩
    exact ⟨⟨(hshared b hnot).mpr hact, hv⟩, hnot⟩

/-- Two backends with two vnodes each, and a third in one of the two fleets: where the key `"b"`
goes when backend `0` is down is backend `1` either way, unless it is the new one. -/
theorem failover_order_third :
    ((after 2 [.add_backend 0, .add_backend 1, .add_backend 2]).order [98]).filter
        (· ∈ (after 2 [.add_backend 0, .add_backend 1]).active_backends_) = [0, 1]
    ∧ (after 2 [.add_backend 0, .add_backend 1, .add_backend 2]).get_backend_excluding [98] {0, 2}
      = some 1 := by
  have hall := failover_order 2 [.add_backend 0, .add_backend 1, .add_backend 2]
    [.add_backend 0, .add_backend 1] (by decide +kernel) [98]
  refine ⟨?_, ?_⟩
  · rw [hall.2.1]
    decide +kernel
  · rw [hall.2.2 {0, 2} ?_]
    · decide +kernel
    · have hact : (after 2 [.add_backend 0, .add_backend 1]).active_backends_ = {0, 1}
          ∧ (after 2 [.add_backend 0, .add_backend 1, .add_backend 2]).active_backends_
            = {0, 1, 2} := by
        decide +kernel
      intro b hb
      simp only [Finset.mem_insert, Finset.mem_singleton, hact.1, hact.2] at hb ⊢
      omega

end HashRing

/-! ## Two fleets -/

theorem HashRing.active_foldl_range (n m : ℕ) :
    ((List.range m).foldl add_backend (new n)).active_backends_ = Finset.range m := by
  induction m with
  | zero => rfl
  | succ m ih =>
      rw [List.range_succ, List.foldl_append, List.foldl_cons, List.foldl_nil, add_backend, ih,
        if_neg Finset.notMem_range_self, Finset.range_add_one]

/-- The vnode hashes of the first `m` backends are distinct. -/
def HashRing.DistinctBackends (n m : ℕ) : Prop :=
  DistinctVnodes n ((List.range m).map .add_backend)

instance (n m : ℕ) : Decidable (HashRing.DistinctBackends n m) :=
  inferInstanceAs (Decidable (HashRing.DistinctVnodes n ((List.range m).map .add_backend)))

/-- The ring that `main` builds for `k` of the backends is exact. -/
theorem HashRing.DistinctBackends.exact {n m : ℕ} (hd : DistinctBackends n m) {k : ℕ}
    (hk : k ≤ m) : Exact n ((List.range k).foldl add_backend (new n)) := by
  have hafter : (List.range k).foldl add_backend (new n)
      = after n ((List.range k).map .add_backend) := by
    rw [after, List.foldl_map]
    rfl
  rw [hafter]
  refine exact_after (hd.mono fun op hop => ?_)
  obtain ⟨b, hb, rfl⟩ := List.mem_map.mp hop
  rw [List.mem_range] at hb
  exact List.mem_map.mpr ⟨b, List.mem_range.mpr (by omega), rfl⟩

namespace Proxy

/-- **Failover across fleets.** Take two processes with any numbers of backends, thresholds,
pools and limiters, the number of vnodes being the same and the vnode hashes of all backends
distinct, and any runs of the two. Of the backends that both have, the ones that a session of
one process has considered so far are, in order, the beginning of those that a session of the
same client in the other process has considered, or the other way round. -/
theorem failover_agreement (n m m' : ℕ) (hd : HashRing.DistinctBackends n (max m m'))
    (failure_threshold success_threshold cooldown_period failure_threshold' success_threshold'
      cooldown_period' : ℤ) (min_pool_size min_pool_size' : ℕ → ℕ)
    (limiter limiter' : RateLimiter) (max_attempts max_attempts' : ℤ) (clock clock' : Time)
    (ins ins' : List Input) (p p' : Proxy) (tr tr' : List (ℕ × Action))
    (h : exec step (boot (.new m n failure_threshold success_threshold cooldown_period
      min_pool_size) limiter max_attempts clock) ins = some (p, tr))
    (h' : exec step (boot (.new m' n failure_threshold' success_threshold' cooldown_period'
      min_pool_size') limiter' max_attempts' clock') ins' = some (p', tr'))
    (i j : ℕ) (s s' : Session) (hi : p.sessions[i]? = some s) (hj : p'.sessions[j]? = some s')
    (hkey : s.client_key = s'.client_key) :
    (considered (actionsOf i tr)).filter (· < m') <+: (considered (actionsOf j tr')).filter (· < m)
      ∨ (considered (actionsOf j tr')).filter (· < m)
        <+: (considered (actionsOf i tr)).filter (· < m') := by
  have hwalked := ((session_run rfl h).walked (fun _ _ hat => Shared.new_ring_lt hat) hi).isPrefix
  have hwalked' := ((session_run rfl h').walked (fun _ _ hat => Shared.new_ring_lt hat) hj).isPrefix
  have hagree := (hd.exact (le_max_left m m')).order_filter (hd.exact (le_max_right m m'))
    s.client_key
  simp only [HashRing.active_foldl_range, Finset.mem_range] at hagree
  -- both are prefixes of the order of the shared backends
  have hleft := hwalked.filter (· < m')
  have hright := hwalked'.filter (· < m)
  rw [← hkey] at hright
  exact List.prefix_or_prefix_of_prefix hleft (hagree ▸ hright)

/-- A session that finds no backend reachable, up to its third. -/
def unreachable : List Input :=
  [.accept [] 0, .session 0 1 .resume, .session 0 2 .connect_failed, .session 0 3 .resume,
    .session 0 4 .connect_failed, .session 0 5 .resume]

/-- A client of two backends that is at the first of them, and the same client with a third
backend in the fleet and none reachable: the new backend comes first there, and the other two
in the order they had. -/
theorem failover_agreement_third :
    ∃ p p' tr tr' s s',
      exec step (boot (.new 2 1 5 2 5000 fun _ => 0) (.new 10 20 1 Nat.one_pos) 3 0)
          (unreachable.take 2) = some (p, tr)
      ∧ exec step (boot (.new 3 1 5 2 5000 fun _ => 0) (.new 10 20 1 Nat.one_pos) 3 0) unreachable
        = some (p', tr')
      ∧ p.sessions[0]? = some s ∧ p'.sessions[0]? = some s'
      ∧ considered (actionsOf 0 tr) = [0] ∧ considered (actionsOf 0 tr') = [2, 0, 1]
      ∧ (considered (actionsOf 0 tr)).filter (· < 3)
        <+: (considered (actionsOf 0 tr')).filter (· < 2) := by
  refine ⟨_, _, _, _, _, _, rfl, rfl, rfl, rfl, by decide +kernel, by decide +kernel, ?_⟩
  have hagree := failover_agreement 1 2 3 (by decide +kernel) 5 2 5000 5 2 5000 (fun _ => 0)
    (fun _ => 0) (.new 10 20 1 Nat.one_pos) (.new 10 20 1 Nat.one_pos) 3 3 0 0
    (unreachable.take 2) unreachable _ _ _ _ rfl rfl 0 0 _ _ rfl rfl rfl
  rcases hagree with hle | hge
  · exact hle
  · exact absurd hge.length_le (by decide +kernel)

end Proxy

end AegisProxy
