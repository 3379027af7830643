/-
The shards of the limiter do not show.

`SingleBucket` is what a client is promised: a limiter with one bucket, which hears the
client's own calls and the reaps and nothing else. It names no shard and no hash.
`sharding_transparent` says that the sharded limiter is one of these for every client:
the decisions a client gets are those its own single bucket would have given, so they
depend on nothing but its own calls and the reaps.

The other half is about where the buckets are. Every operation keeps each client in the
one shard it hashes to (`Placed`), so no client is counted twice, and what `reap_idle`
returns is what `total_tracked_clients` goes down by.
-/
import AegisProxy.RateLimiterLaw

set_option autoImplicit false

namespace AegisProxy

open Runs

/-! ## One bucket -/

/-- A limiter with one bucket. -/
structure SingleBucket where
  refill_rate_per_sec : ℚ
  capacity : ℚ
  bucket : Option Bucket

namespace SingleBucket

/-- A call on it: the client asks, or a reap comes by. -/
inductive Op
  | allow (now : ℚ)
  | reap_idle (idle_threshold now : ℚ)
  deriving DecidableEq, Repr

/-- Nobody has called yet. -/
def new (refill_rate_per_sec capacity : ℚ) : SingleBucket where
  refill_rate_per_sec := refill_rate_per_sec
  capacity := capacity
  bucket := none

/-- The tokens a call at `now` finds. -/
def tokens (s : SingleBucket) (now : ℚ) : ℚ :=
  match s.bucket with
  | none => s.capacity
  | some b => min s.capacity (b.tokens + (now - b.last_refill) * s.refill_rate_per_sec)

/-- A call, with the decision it gets. A reap gets none. -/
def step (s : SingleBucket) : Op → Option (SingleBucket × List (ℚ × Bool))
  | .allow now =>
    if 1 ≤ s.tokens now then
      some ({ s with bucket := some ⟨s.tokens now - 1, now⟩ }, [(now, true)])
    else some ({ s with bucket := some ⟨s.tokens now, now⟩ }, [(now, false)])
  | .reap_idle idle_threshold now =>
    match s.bucket with
    | none => some (s, [])
    | some b =>
      if idle_threshold < now - b.last_refill then some ({ s with bucket := none }, [])
      else some (s, [])

end SingleBucket

namespace RateLimiter

/-- What client `x` hears of a call on the limiter. -/
def Op.heardBy (x : Bytes) : Op → Option SingleBucket.Op
  | .allow client_ip now => if client_ip = x then some (.allow now) else none
  | .reap_idle idle_threshold now => some (.reap_idle idle_threshold now)

/-- The limiter, seen by client `x`. -/
def seenBy (x : Bytes) (rl : RateLimiter) : SingleBucket where
  refill_rate_per_sec := rl.refill_rate_per_sec_
  capacity := rl.capacity_
  bucket := rl.bucket x

/-- The decisions given to client `x`, without its name. -/
def answers (x : Bytes) (tr : List Decision) : List (ℚ × Bool) :=
  (own x tr).map fun d => (d.now, d.allowed)

theorem answers_append (x : Bytes) (tr tr' : List Decision) :
    answers x (tr ++ tr') = answers x tr ++ answers x tr' := by
  unfold answers own
  rw [List.filter_append, List.map_append]

/-- A decision is the client's own answer. -/
theorem own_eq_answers (x : Bytes) (tr : List Decision) :
    own x tr = (answers x tr).map fun a => ⟨x, a.1, a.2⟩ := by
  unfold answers
  rw [List.map_map]
  refine ((List.map_congr_left ?_).trans (List.map_id _)).symm
  intro d hd
  have hx : d.client_ip = x := of_decide_eq_true (List.mem_filter.mp hd).2
  rw [← hx]
  rfl

theorem tokens_seenBy (x : Bytes) (rl : RateLimiter) (now : ℚ) :
    rl.refilled now (rl.bucket x) = ⟨(rl.seenBy x).tokens now, now⟩ := by
  unfold SingleBucket.tokens seenBy refilled
  cases rl.bucket x <;> rfl

theorem seenBy_new (x : Bytes) (r c : ℚ) (n : ℕ) (hn : 0 < n) :
    (new r c n hn).seenBy x = .new r c := by
  unfold seenBy SingleBucket.new
  rw [bucket_new]
  rfl

/-- `allow` answers what the caller's own tokens say. -/
theorem allow_answer (rl : RateLimiter) (y : Bytes) (now : ℚ) :
    (rl.allow y now).1 = (spend ⟨(rl.seenBy y).tokens now, now⟩).1 := by
  rw [← tokens_seenBy]
  rfl

theorem seenBy_allow_self (rl : RateLimiter) (y : Bytes) (now : ℚ) :
    (rl.allow y now).2.seenBy y
      = { rl.seenBy y with bucket := some (spend ⟨(rl.seenBy y).tokens now, now⟩).2 } := by
  have hbucket := bucket_allow rl y y now
  rw [if_pos rfl, tokens_seenBy] at hbucket
  rw [← hbucket]
  rfl

theorem seenBy_allow_ne (rl : RateLimiter) {x y : Bytes} (hxy : x ≠ y) (now : ℚ) :
    (rl.allow y now).2.seenBy x = rl.seenBy x := by
  have hbucket := bucket_allow rl y x now
  rw [if_neg hxy] at hbucket
  unfold seenBy
  rw [hbucket]
  rfl

theorem seenBy_reap_idle (rl : RateLimiter) (idle_threshold now : ℚ) (x : Bytes) :
    (rl.reap_idle idle_threshold now).2.seenBy x
      = { rl.seenBy x with bucket := reaped idle_threshold now (rl.seenBy x).bucket } := by
  unfold seenBy
  rw [bucket_reap_idle]
  rfl

/-- **A call on the limiter is, for each client, a call on its single bucket or
nothing.** -/
theorem step_seenBy (x : Bytes) (rl : RateLimiter) (op : Op) {rl' : RateLimiter}
    {out : List Decision} (h : step rl op = some (rl', out)) :
    exec SingleBucket.step (rl.seenBy x) (op.heardBy x).toList
      = some (rl'.seenBy x, answers x out) := by
  cases op with
  | allow y now =>
      simp only [step, Option.some.injEq, Prod.mk.injEq] at h
      obtain ⟨rfl, rfl⟩ := h
      by_cases hxy : y = x
      · subst hxy
        have hown : answers y [⟨y, now, (rl.allow y now).1⟩] = [(now, (rl.allow y now).1)] := by
          simp [answers, own]
        rw [hown, allow_answer, seenBy_allow_self]
        by_cases htok : 1 ≤ (rl.seenBy y).tokens now
        · simp only [Op.heardBy, if_true, Option.toList_some, exec, SingleBucket.step, htok, spend]
          rfl
        · simp only [Op.heardBy, if_true, Option.toList_some, exec, SingleBucket.step, htok, spend,
            if_false]
          rfl
      · have hown : answers x [⟨y, now, (rl.allow y now).1⟩] = [] := by
          simp [answers, own, hxy]
        rw [hown, seenBy_allow_ne rl (Ne.symm hxy)]
        simp only [Op.heardBy, hxy, if_false, Option.toList_none, exec]
  | reap_idle idle_threshold now =>
      simp only [step, Option.some.injEq, Prod.mk.injEq] at h
      obtain ⟨rfl, rfl⟩ := h
      rw [seenBy_reap_idle]
      simp only [Op.heardBy, Option.toList_some, exec, SingleBucket.step, reaped]
      cases hb : (rl.seenBy x).bucket with
      | none => simp [Option.filter, answers, own, ← hb]
      | some b =>
          by_cases hidle : idle_threshold < now - b.last_refill
          · simp [hidle, Option.filter, answers, own]
          · simp [hidle, Option.filter, answers, own, ← hb]

/-- **A run of the limiter is, for each client, a run of its single bucket.** -/
theorem run_seenBy (x : Bytes) {rl rl' : RateLimiter} {ops : List Op} {tr : List Decision}
    (h : exec step rl ops = some (rl', tr)) :
    exec SingleBucket.step (rl.seenBy x) (ops.filterMap (Op.heardBy x))
      = some (rl'.seenBy x, answers x tr) := by
  induction ops generalizing rl tr with
  | nil =>
      rw [exec_nil, Option.some.injEq, Prod.mk.injEq] at h
      obtain ⟨rfl, rfl⟩ := h
      rfl
  | cons op ops ih =>
      obtain ⟨u, out, outs, hu, hrest, rfl⟩ := exec_cons_iff.mp h
      have hlist : (op :: ops).filterMap (Op.heardBy x)
          = (op.heardBy x).toList ++ ops.filterMap (Op.heardBy x) := by
        rw [List.filterMap_cons]
        cases op.heardBy x <;> rfl
      rw [hlist, answers_append, exec_append_iff]
      exact ⟨u.seenBy x, _, _, step_seenBy x rl op hu, ih hrest, rfl⟩

/-! ## Where the buckets are -/

/-- Every client is only in the shard it hashes to. -/
def Placed (rl : RateLimiter) : Prop :=
  ∀ i shard, rl.shards_[i]? = some shard → ∀ x ∈ shard, i = rl.shard_index x

theorem placed_new (r c : ℚ) (n : ℕ) (h : 0 < n) : Placed (new r c n h) := by
  intro i shard hi x hx
  have hempty : shard = ∅ := by
    rw [new, List.getElem?_replicate] at hi
    split at hi
    · exact (Option.some.inj hi).symm
    · cases hi
  rw [hempty] at hx
  exact absurd hx (AList.notMem_empty x)

theorem placed_step {rl rl' : RateLimiter} {op : Op} {out : List Decision} (hp : Placed rl)
    (h : step rl op = some (rl', out)) : Placed rl' := by
  cases op with
  | allow y now =>
      simp only [step, Option.some.injEq, Prod.mk.injEq] at h
      obtain ⟨rfl, rfl⟩ := h
      have hidx : ∀ x, (rl.allow y now).2.shard_index x = rl.shard_index x := by
        intro x
        simp only [shard_index, allow, List.length_set]
      intro i shard hi x hx
      rw [hidx]
      simp only [allow, List.getElem?_set] at hi
      by_cases heq : rl.shard_index y = i
      · -- the caller's own shard: the caller is new in it, the others were there
        rw [if_pos heq, if_pos (heq ▸ rl.shard_index_lt y), Option.some.injEq] at hi
        rw [← hi, AList.mem_insert] at hx
        rcases hx with rfl | hx
        · exact heq.symm
        · exact hp i (rl.shard y) (heq ▸ shard_eq_getElem? rl y) x hx
      · rw [if_neg heq] at hi
        exact hp i shard hi x hx
  | reap_idle idle_threshold now =>
      simp only [step, Option.some.injEq, Prod.mk.injEq] at h
      obtain ⟨rfl, rfl⟩ := h
      have hidx : ∀ x, (rl.reap_idle idle_threshold now).2.shard_index x = rl.shard_index x := by
        intro x
        simp only [shard_index, reap_idle, List.length_map]
      intro i shard hi x hx
      rw [hidx]
      simp only [reap_idle, List.getElem?_map, Option.map_eq_some_iff] at hi
      obtain ⟨old, hold, rfl⟩ := hi
      -- a reap only drops
      have hmem : x ∈ old := by
        rw [← AList.lookup_isSome] at hx ⊢
        rw [lookup_keep, reaped] at hx
        cases hlook : old.lookup x with
        | none => rw [hlook] at hx; simp at hx
        | some b => rfl
      exact hp i old hold x hmem

theorem placed_run {r c : ℚ} {n : ℕ} {hn : 0 < n} {ops : List Op} {rl : RateLimiter}
    {tr : List Decision} (h : exec step (new r c n hn) ops = some (rl, tr)) : Placed rl :=
  exec_invariant (I := fun rl _ => Placed rl) (fun _ _ _ _ _ hp hs => placed_step hp hs)
    (placed_new r c n hn) h

/-- The clients that have a bucket, shard by shard. -/
def clients (rl : RateLimiter) : List Bytes := rl.shards_.flatMap AList.keys

theorem length_clients (rl : RateLimiter) : rl.clients.length = rl.total_tracked_clients := by
  unfold clients total_tracked_clients
  rw [List.length_flatMap]
  congr 1
  refine List.map_congr_left fun shard _ => ?_
  rw [AList.keys, List.keys, List.length_map]

/-- No client is listed twice. -/
theorem nodup_clients {rl : RateLimiter} (hp : Placed rl) : rl.clients.Nodup := by
  unfold clients
  rw [List.nodup_flatMap]
  refine ⟨fun shard _ => shard.keys_nodup, ?_⟩
  rw [List.pairwise_iff_getElem]
  intro i j hi hj hij x hx hy
  have hxi := hp i _ (List.getElem?_eq_getElem hi) x (AList.mem_keys.mpr hx)
  have hxj := hp j _ (List.getElem?_eq_getElem hj) x (AList.mem_keys.mpr hy)
  omega

/-- What a reap drops and what it leaves make up what was there. -/
theorem reap_idle_total (rl : RateLimiter) (idle_threshold now : ℚ) :
    (rl.reap_idle idle_threshold now).1
        + (rl.reap_idle idle_threshold now).2.total_tracked_clients
      = rl.total_tracked_clients := by
  unfold total_tracked_clients reap_idle
  simp only [List.map_map]
  induction rl.shards_ with
  | nil => rfl
  | cons shard shards ih =>
      have hshard : shard.entries.countP (fun e => now - e.2.last_refill > idle_threshold)
          + (keep idle_threshold now shard).entries.length = shard.entries.length := by
        rw [keep, ← List.countP_eq_length_filter,
          List.length_eq_countP_add_countP fun e => now - e.2.last_refill > idle_threshold]
        simp
      simp only [List.map_cons, List.sum_cons, Function.comp_apply] at ih ⊢
      omega

/-! ## Transparency -/

/-- **Sharding is transparent.** For every number of shards and every interleaving of
calls and reaps:

1. every client gets the decisions a single bucket gives that hears its calls and the
   reaps only, and its stored bucket is that one's;
2. so two limiters, with any numbers of shards and any traffic of others, decide alike
   for a client that calls and is reaped alike;
3. a client is stored in no shard but the one it hashes to;
4. `total_tracked_clients` is the number of clients that have a bucket;
5. `reap_idle` returns what that number goes down by. -/
theorem sharding_transparent (r c : ℚ) (n : ℕ) (hn : 0 < n) (ops : List Op) (rl : RateLimiter)
    (tr : List Decision) (h : exec step (new r c n hn) ops = some (rl, tr)) :
    (∀ x, ∃ s, exec SingleBucket.step (.new r c) (ops.filterMap (Op.heardBy x))
        = some (s, answers x tr) ∧ s.bucket = rl.bucket x)
    ∧ (∀ x n' hn' ops' rl' tr', exec step (new r c n' hn') ops' = some (rl', tr') →
      ops'.filterMap (Op.heardBy x) = ops.filterMap (Op.heardBy x) → own x tr' = own x tr)
    ∧ (∀ i shard, rl.shards_[i]? = some shard → ∀ x ∈ shard, i = rl.shard_index x)
    ∧ (∃ live : Finset Bytes, (∀ x, x ∈ live ↔ ∃ shard ∈ rl.shards_, x ∈ shard)
      ∧ rl.total_tracked_clients = live.card)
    ∧ ∀ idle_threshold now, ((rl.reap_idle idle_threshold now).1 : ℤ)
      = (rl.total_tracked_clients : ℤ)
        - (rl.reap_idle idle_threshold now).2.total_tracked_clients := by
  have hplaced := placed_run h
  refine ⟨?_, ?_, hplaced, ?_, ?_⟩
  · intro x
    have hrun := run_seenBy x h
    rw [seenBy_new] at hrun
    exact ⟨rl.seenBy x, hrun, rfl⟩
  · intro x n' hn' ops' rl' tr' h' hheard
    have hrun := run_seenBy x h
    have hrun' := run_seenBy x h'
    rw [seenBy_new] at hrun hrun'
    rw [hheard, hrun, Option.some.injEq, Prod.mk.injEq] at hrun'
    rw [own_eq_answers, own_eq_answers, hrun'.2]
  · refine ⟨rl.clients.toFinset, ?_, ?_⟩
    · intro x
      rw [List.mem_toFinset, clients, List.mem_flatMap]
      simp only [AList.mem_keys]
    · rw [List.toFinset_card_of_nodup (nodup_clients hplaced), length_clients]
  · intro idle_threshold now
    have htotal := reap_idle_total rl idle_threshold now
    omega

/-- Client `1` twice and client `2` once, with one shard: a reap drops client `2`, which
has been idle for longer than the threshold, and client `1`'s second call is refused as
if it were alone. -/
theorem sharding_transparent_one_shard :
    ∃ rl tr, exec step (new 0 1 1 (by decide))
        [.allow [2] 0, .allow [1] 8, .reap_idle 5 9, .allow [1] 10] = some (rl, tr)
      ∧ answers [1] tr = [(8, true), (10, false)] ∧ rl.total_tracked_clients = 1
      ∧ ∃ s, exec SingleBucket.step (.new 0 1)
          [.allow 8, .reap_idle 5 9, .allow 10] = some (s, answers [1] tr) := by
  refine ⟨_, _, rfl, by decide +kernel, by decide +kernel, ?_⟩
  obtain ⟨s, hrun, -⟩ := (sharding_transparent 0 1 1 (by decide)
    [.allow [2] 0, .allow [1] 8, .reap_idle 5 9, .allow [1] 10] _ _ rfl).1 [1]
  exact ⟨s, hrun⟩

end RateLimiter

end AegisProxy
