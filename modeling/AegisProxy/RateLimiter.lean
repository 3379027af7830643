/-
`rate_limiter.{hpp,cpp}`: the sharded token-bucket limiter, in exact arithmetic.

`double` is `ℚ` here. Times are rational seconds: a clock reading of `k`
nanosecond ticks is `k / 10⁹`, and `duration<double>(a - b).count()` is the
difference of two times. The shard mutexes are not modelled -- each shard is
locked for the whole of every access to it.

A shard's `unordered_map` is Mathlib's `AList`, which carries the proof that its
keys are distinct. `shards_` is never empty: `hash_key(..) % shards_.size()` has
no meaning otherwise, and the constructor takes the proof.

The second half says what one call does to one client's bucket. `bucket` reads a
client's bucket wherever its shard is, and `allow` is then one update at one
client: the shards have disappeared from every statement above this file.
-/
import AegisProxy.HashKey
import AegisProxy.Lib.Runs
import Mathlib.Data.List.AList
import Mathlib.Algebra.Order.Field.Rat

set_option autoImplicit false

namespace AegisProxy

/-- `RateLimiter::Bucket`. -/
structure Bucket where
  tokens : ℚ
  last_refill : ℚ
  deriving DecidableEq, Repr

/-- `RateLimiter::Shard`: the buckets of the clients that hash to it. -/
abbrev Shard := AList (fun _ : Bytes => Bucket)

/-- The fields of `RateLimiter`. -/
structure RateLimiter where
  refill_rate_per_sec_ : ℚ
  capacity_ : ℚ
  shards_ : List Shard
  shards_nonempty : 0 < shards_.length

namespace RateLimiter

/-- The constructor: `shard_count` empty shards. -/
def new (refill_rate_per_sec capacity : ℚ) (shard_count : ℕ) (h : 0 < shard_count) :
    RateLimiter where
  refill_rate_per_sec_ := refill_rate_per_sec
  capacity_ := capacity
  shards_ := List.replicate shard_count ∅
  shards_nonempty := by simpa using h

/-- `RateLimiter::hash_key`. -/
def hash_key (key : Bytes) : UInt64 := fnv1a_avalanche key

/-- `RateLimiter::shard_index`. -/
def shard_index (rl : RateLimiter) (client_ip : Bytes) : ℕ :=
  (hash_key client_ip).toNat % rl.shards_.length

theorem shard_index_lt (rl : RateLimiter) (client_ip : Bytes) :
    rl.shard_index client_ip < rl.shards_.length :=
  Nat.mod_lt _ rl.shards_nonempty

/-- `shards_[shard_index(client_ip)]`. -/
def shard (rl : RateLimiter) (client_ip : Bytes) : Shard :=
  rl.shards_.get ⟨rl.shard_index client_ip, rl.shard_index_lt client_ip⟩

/-- The bucket a call works on: a new one, full, or the stored one refilled and
clamped. A new bucket is not refilled. -/
def refilled (rl : RateLimiter) (now : ℚ) : Option Bucket → Bucket
  | none => ⟨rl.capacity_, now⟩
  | some b =>
    ⟨min rl.capacity_ (b.tokens + (now - b.last_refill) * rl.refill_rate_per_sec_), now⟩

/-- The decision on a bucket and what is left of it. -/
def spend (b : Bucket) : Bool × Bucket :=
  if 1 ≤ b.tokens then (true, { b with tokens := b.tokens - 1 }) else (false, b)

/-- `RateLimiter::allow`. -/
def allow (rl : RateLimiter) (client_ip : Bytes) (now : ℚ) : Bool × RateLimiter :=
  let result := spend (rl.refilled now ((rl.shard client_ip).lookup client_ip))
  (result.1,
    { rl with
      shards_ := rl.shards_.set (rl.shard_index client_ip)
        ((rl.shard client_ip).insert client_ip result.2)
      shards_nonempty := by simpa using rl.shards_nonempty })

/-- What one shard keeps in `reap_idle`: the buckets touched within the
threshold. The comparison is strict. -/
def keep (idle_threshold now : ℚ) (shard : Shard) : Shard where
  entries := shard.entries.filter fun e => ¬ now - e.2.last_refill > idle_threshold
  nodupKeys := List.NodupKeys.sublist List.filter_sublist shard.nodupKeys

/-- `RateLimiter::reap_idle`: the number of buckets dropped, and the limiter
without them. -/
def reap_idle (rl : RateLimiter) (idle_threshold now : ℚ) : ℕ × RateLimiter :=
  ((rl.shards_.map fun shard =>
      shard.entries.countP fun e => now - e.2.last_refill > idle_threshold).sum,
    { rl with
      shards_ := rl.shards_.map (keep idle_threshold now)
      shards_nonempty := by simpa using rl.shards_nonempty })

/-- `RateLimiter::total_tracked_clients`. -/
def total_tracked_clients (rl : RateLimiter) : ℕ :=
  (rl.shards_.map fun shard => shard.entries.length).sum

/-! ## Runs of the limiter -/

/-- One call on the limiter. -/
inductive Op
  | allow (client_ip : Bytes) (now : ℚ)
  | reap_idle (idle_threshold now : ℚ)
  deriving DecidableEq, Repr

/-- What `allow` answered, to whom and when. -/
structure Decision where
  client_ip : Bytes
  now : ℚ
  allowed : Bool
  deriving DecidableEq, Repr, Inhabited

/-- One call as a machine step; the trace is the decisions made. -/
def step (rl : RateLimiter) : Op → Option (RateLimiter × List Decision)
  | .allow client_ip now =>
    some ((rl.allow client_ip now).2, [⟨client_ip, now, (rl.allow client_ip now).1⟩])
  | .reap_idle idle_threshold now => some ((rl.reap_idle idle_threshold now).2, [])

/-! ## One client's bucket -/

/-- The bucket stored for a client, in the shard it hashes to. -/
def bucket (rl : RateLimiter) (client_ip : Bytes) : Option Bucket :=
  (rl.shard client_ip).lookup client_ip

theorem shard_eq_getElem? (rl : RateLimiter) (x : Bytes) :
    rl.shards_[rl.shard_index x]? = some (rl.shard x) := by
  rw [shard, List.get_eq_getElem, List.getElem?_eq_getElem (rl.shard_index_lt x)]

/-- A new limiter tracks nobody. -/
theorem bucket_new (r c : ℚ) (n : ℕ) (h : 0 < n) (x : Bytes) : (new r c n h).bucket x = none := by
  have hshard : (new r c n h).shard x = ∅ := by
    simp only [shard, new, List.get_eq_getElem, List.getElem_replicate]
  rw [bucket, hshard, AList.lookup_empty]

/-- **`allow`, seen by one client.** The caller's bucket is refilled and charged;
every other client's bucket is untouched, in whatever shard it lies. -/
theorem bucket_allow (rl : RateLimiter) (y x : Bytes) (now : ℚ) :
    (rl.allow y now).2.bucket x
      = if x = y then some (spend (rl.refilled now (rl.bucket y))).2 else rl.bucket x := by
  have hidx : ∀ z, (rl.allow y now).2.shard_index z = rl.shard_index z := by
    intro z
    simp only [shard_index, allow, List.length_set]
  have hshard : (rl.allow y now).2.shard x
      = if rl.shard_index y = rl.shard_index x
        then (rl.shard y).insert y (spend (rl.refilled now (rl.bucket y))).2 else rl.shard x := by
    have h := shard_eq_getElem? (rl.allow y now).2 x
    rw [hidx] at h
    simp only [allow, List.getElem?_set] at h
    by_cases heq : rl.shard_index y = rl.shard_index x
    · rw [if_pos heq, if_pos (rl.shard_index_lt y), Option.some.injEq] at h
      rw [if_pos heq]
      exact h.symm
    · rw [if_neg heq, shard_eq_getElem? rl x, Option.some.injEq] at h
      rw [if_neg heq]
      exact h.symm
  rw [bucket, hshard]
  by_cases hxy : x = y
  · rw [if_pos hxy, if_pos (by rw [hxy]), hxy, AList.lookup_insert]
  · rw [if_neg hxy]
    by_cases heq : rl.shard_index y = rl.shard_index x
    · -- another client of the same shard
      have hsame : rl.shard y = rl.shard x := by
        have hy := shard_eq_getElem? rl y
        rw [heq, shard_eq_getElem? rl x, Option.some.injEq] at hy
        exact hy.symm
      rw [if_pos heq, AList.lookup_insert_ne hxy, hsame, bucket]
    · rw [if_neg heq, bucket]

/-- What a reap leaves of a bucket. -/
def reaped (idle_threshold now : ℚ) (bucket : Option Bucket) : Option Bucket :=
  bucket.filter fun b => ¬ now - b.last_refill > idle_threshold

theorem lookup_keep (idle_threshold now : ℚ) (shard : Shard) (x : Bytes) :
    (keep idle_threshold now shard).lookup x = reaped idle_threshold now (shard.lookup x) := by
  ext b
  rw [← Option.mem_def, AList.mem_lookup_iff, keep, List.mem_filter, ← AList.mem_lookup_iff,
    reaped, Option.filter_eq_some_iff, Option.mem_def]

/-- **`reap_idle`, seen by one client.** -/
theorem bucket_reap_idle (rl : RateLimiter) (idle_threshold now : ℚ) (x : Bytes) :
    (rl.reap_idle idle_threshold now).2.bucket x = reaped idle_threshold now (rl.bucket x) := by
  have hidx : (rl.reap_idle idle_threshold now).2.shard_index x = rl.shard_index x := by
    simp only [shard_index, reap_idle, List.length_map]
  have hshard : (rl.reap_idle idle_threshold now).2.shard x
      = keep idle_threshold now (rl.shard x) := by
    have h := shard_eq_getElem? (rl.reap_idle idle_threshold now).2 x
    rw [hidx] at h
    simp only [reap_idle, List.getElem?_map, shard_eq_getElem? rl x, Option.map_some,
      Option.some.injEq] at h
    exact h.symm
  rw [bucket, hshard, lookup_keep, bucket]

end RateLimiter

end AegisProxy
