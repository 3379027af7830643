/-
The token-bucket law of `RateLimiter::allow`.

`Lib/TokenBucket.lean` has the law for the abstract bucket; this file says that
the limiter runs one such bucket per client. The invariant is `Follows`: after any
run of `allow` calls, whoever made them, the decisions given to a client are the
grants of the abstract bucket at that client's call times, and what is stored for
it is what the last grant left.

`token_bucket_law` then reads the abstract results at the client's own calls.
-/
import AegisProxy.RateLimiter
import AegisProxy.Lib.TokenBucket
import Mathlib.Data.List.GetD
import Mathlib.Tactic.NormNum

set_option autoImplicit false

namespace AegisProxy

namespace RateLimiter

open Runs TokenBucket

/-! ## A client's own calls -/

/-- The decisions given to client `x`, in order. -/
def own (x : Bytes) (tr : List Decision) : List Decision :=
  tr.filter fun d => d.client_ip = x

/-- The time of call `k` of a list of decisions. -/
def timeAt (l : List Decision) (k : ℕ) : ℚ := (l.getD k default).now

/-- Whether call `k` of a list of decisions was allowed. -/
def allowedAt (l : List Decision) (k : ℕ) : Bool := (l.getD k default).allowed

theorem own_append_ne {x : Bytes} {tr : List Decision} {d : Decision} (h : d.client_ip ≠ x) :
    own x (tr ++ [d]) = own x tr := by
  simp [own, List.filter_append, h]

theorem own_append_eq {x : Bytes} {tr : List Decision} {d : Decision} (h : d.client_ip = x) :
    own x (tr ++ [d]) = own x tr ++ [d] := by
  simp [own, List.filter_append, h]

/-- A decision appended to a list is read at the list's length. -/
theorem getD_append_new {l : List Decision} {d : Decision} :
    (l ++ [d]).getD l.length default = d := by
  rw [List.getD_append_right _ _ _ _ le_rfl, Nat.sub_self, List.getD_cons_zero]

/-! ## The limiter follows the abstract bucket -/

/-- After the decisions `tr`, the limiter is where the abstract bucket of client
`x` is: its decisions are the grants, and its bucket holds what the last of its
calls left. -/
structure Follows (r c : ℚ) (x : Bytes) (rl : RateLimiter) (tr : List Decision) : Prop where
  rate : rl.refill_rate_per_sec_ = r
  capacity : rl.capacity_ = c
  decided : ∀ k, k < (own x tr).length →
    (allowedAt (own x tr) k = true ↔ Granted r c (timeAt (own x tr)) k)
  untouched : own x tr = [] → rl.bucket x = none
  stored : ∀ n, (own x tr).length = n + 1 →
    rl.bucket x = some ⟨level r c (timeAt (own x tr)) n
      - charge (level r c (timeAt (own x tr)) n), timeAt (own x tr) n⟩

theorem follows_new (r c : ℚ) (n : ℕ) (h : 0 < n) (x : Bytes) : Follows r c x (new r c n h) [] where
  rate := rfl
  capacity := rfl
  decided := by intro k hk; simp [own] at hk
  untouched := by intro _; exact bucket_new r c n h x
  stored := by intro m hm; simp [own] at hm

/-- The bucket client `x` works on at its next call has the next level. -/
theorem refilled_level {r c : ℚ} {x : Bytes} {rl : RateLimiter} {tr : List Decision}
    (hf : Follows r c x rl tr) {d : Decision} :
    (rl.refilled d.now (rl.bucket x)).tokens
      = level r c (timeAt (own x tr ++ [d])) (own x tr).length := by
  cases hlen : (own x tr).length with
  | zero =>
      rw [hf.untouched (List.length_eq_zero_iff.mp hlen)]
      exact hf.capacity
  | succ n =>
      -- the abstract bucket reads the old times below `n + 1` and the new one at it
      have hold : ∀ k, k ≤ n → timeAt (own x tr ++ [d]) k = timeAt (own x tr) k := by
        intro k hk
        rw [timeAt, timeAt, List.getD_append _ _ _ _ (by omega)]
      have hnew : timeAt (own x tr ++ [d]) (n + 1) = d.now := by
        rw [timeAt, ← hlen, getD_append_new]
      rw [hf.stored n hlen, level, hnew, hold n le_rfl, level_congr r c hold]
      simp only [refilled, hf.rate, hf.capacity]

theorem spend_spec (b : Bucket) :
    ((spend b).1 = true ↔ 1 ≤ b.tokens)
      ∧ (spend b).2 = ⟨b.tokens - charge b.tokens, b.last_refill⟩ := by
  unfold spend charge
  by_cases h : 1 ≤ b.tokens
  · rw [if_pos h, if_pos h]
    simp [h]
  · rw [if_neg h, if_neg h]
    simp [h]

/-- One `allow` call, by whomever, keeps every client on its abstract bucket. -/
theorem follows_allow {r c : ℚ} {x : Bytes} {rl : RateLimiter} {tr : List Decision}
    (hf : Follows r c x rl tr) (y : Bytes) (now : ℚ) :
    Follows r c x (rl.allow y now).2 (tr ++ [⟨y, now, (rl.allow y now).1⟩]) := by
  by_cases hxy : x = y
  · subst hxy
    set d : Decision := ⟨x, now, (rl.allow x now).1⟩ with hd
    have hown : own x (tr ++ [d]) = own x tr ++ [d] := own_append_eq rfl
    have hlev := refilled_level hf (d := d)
    obtain ⟨hgrant, hleft⟩ := spend_spec (rl.refilled now (rl.bucket x))
    refine ⟨hf.rate, hf.capacity, ?_, ?_, ?_⟩
    · intro k hk
      rw [hown, List.length_append, List.length_singleton] at hk
      rw [hown]
      rcases Nat.lt_or_ge k (own x tr).length with hlt | hge
      · have hcongr : level r c (timeAt (own x tr ++ [d])) k = level r c (timeAt (own x tr)) k :=
          level_congr r c (fun i hi => by rw [timeAt, timeAt, List.getD_append _ _ _ _ (by omega)])
        rw [allowedAt, List.getD_append _ _ _ _ hlt, Granted, hcongr]
        exact hf.decided k hlt
      · obtain rfl : k = (own x tr).length := by omega
        rw [allowedAt, getD_append_new, Granted, ← hlev]
        exact hgrant
    · intro hnil
      rw [hown] at hnil
      simp at hnil
    · intro n hn
      rw [hown, List.length_append, List.length_singleton] at hn
      obtain rfl : n = (own x tr).length := by omega
      rw [bucket_allow, if_pos rfl, hleft, hown, ← hlev, timeAt, getD_append_new]
      have htime : (rl.refilled now (rl.bucket x)).last_refill = now := by
        cases rl.bucket x <;> rfl
      rw [htime]
  · have hown : own x (tr ++ [⟨y, now, (rl.allow y now).1⟩]) = own x tr :=
      own_append_ne (fun h => hxy h.symm)
    have hbucket : (rl.allow y now).2.bucket x = rl.bucket x := by
      rw [bucket_allow, if_neg hxy]
    refine ⟨hf.rate, hf.capacity, ?_, ?_, ?_⟩
    · rw [hown]; exact hf.decided
    · rw [hown, hbucket]; exact hf.untouched
    · rw [hown, hbucket]; exact hf.stored

/-- A run without `reap_idle` keeps every client on its abstract bucket. -/
theorem follows_run {r c : ℚ} {n : ℕ} {h : 0 < n} {ops : List Op} {rl : RateLimiter}
    {tr : List Decision} (hops : ∀ op ∈ ops, ∃ y now, op = .allow y now)
    (hrun : exec step (new r c n h) ops = some (rl, tr)) (x : Bytes) : Follows r c x rl tr := by
  refine exec_invariant_along (I := Follows r c x) ?_ (follows_new r c n h x)
    (along_of_mem (fun op hop _ => hops op hop) _) hrun
  rintro s tr' op s' out hf ⟨y, now, rfl⟩ hs
  simp only [step, Option.some.injEq, Prod.mk.injEq] at hs
  obtain ⟨rfl, rfl⟩ := hs
  exact follows_allow hf y now

/-! ## The law -/

/-- How many of the calls `i, …, j - 1` of a list of decisions were allowed. -/
def allowedBetween (l : List Decision) (i j : ℕ) : ℕ :=
  ((Finset.Ico i j).filter fun k => allowedAt l k = true).card

/-- The decisions of a list made in the window `[s, s + T]`. -/
def inWindow (l : List Decision) (s T : ℚ) : List Decision :=
  l.filter fun d => s ≤ d.now ∧ d.now ≤ s + T

/-- Filtering a list and filtering its indices count the same. -/
theorem length_filter_eq_card (l : List Decision) (p : Decision → Bool) :
    (l.filter p).length
      = ((Finset.range l.length).filter fun k => p (l.getD k default) = true).card := by
  induction l using List.reverseRecOn with
  | nil => simp
  | append_singleton l d ih =>
      rw [List.filter_append, List.length_append, ih, List.length_append, List.length_singleton,
        Finset.range_add_one, Finset.filter_insert, getD_append_new]
      have hsame : (Finset.range l.length).filter (fun k => p ((l ++ [d]).getD k default) = true)
          = (Finset.range l.length).filter (fun k => p (l.getD k default) = true) := by
        refine Finset.filter_congr (fun k hk => ?_)
        rw [List.getD_append _ _ _ _ (Finset.mem_range.mp hk)]
      rw [hsame]
      cases hp : p d
      · simp [hp]
      · rw [if_pos rfl, Finset.card_insert_of_notMem (by simp)]
        simp [hp]

/-- At most `c + r * T` calls of a client on its abstract bucket are allowed in a window of
length `T`. -/
theorem Follows.window_le {r c : ℚ} {x : Bytes} {rl : RateLimiter} {tr : List Decision}
    (hf : Follows r c x rl tr) (hr : 0 ≤ r) (hc : 0 ≤ c) {s T : ℚ} (hT : 0 ≤ T) :
    (((inWindow (own x tr) s T).filter (·.allowed)).length : ℚ) ≤ c + r * T := by
  have hdec := hf.decided
  set l := own x tr
  have hcard : ((inWindow l s T).filter (·.allowed)).length
      = ((window (timeAt l) l.length s T).filter (Granted r c (timeAt l))).card := by
    rw [inWindow, List.filter_filter, length_filter_eq_card]
    congr 1
    ext k
    simp only [window, Finset.mem_filter, Finset.mem_range, Bool.and_eq_true,
      decide_eq_true_eq]
    constructor
    · rintro ⟨hk, hall, hwin⟩
      exact ⟨⟨hk, hwin⟩, (hdec k hk).mp hall⟩
    · rintro ⟨⟨hk, hwin⟩, hgr⟩
      exact ⟨hk, (hdec k hk).mpr hgr, hwin⟩
  rw [hcard]
  exact card_granted_window_le r c (timeAt l) hr hc hT

/-- **The token-bucket law of `allow`.** For every rate and capacity, every number
of shards and every interleaving of clients without a reap, with client `x`'s
calls at non-decreasing times:

1. a call of `x` is allowed exactly when every window of `x`'s calls that ends with
   it has room for one more;
2. `x` is allowed at most `c + r * T` times in any window of length `T`;
3. if `x` never makes more than `c + r * T` calls in a window of length `T`, it is
   never refused. -/
theorem token_bucket_law (r c : ℚ) (hr : 0 ≤ r) (hc : 0 ≤ c) (n : ℕ) (hn : 0 < n)
    (ops : List Op) (hops : ∀ op ∈ ops, ∃ y now, op = .allow y now)
    (rl : RateLimiter) (tr : List Decision)
    (hrun : exec step (new r c n hn) ops = some (rl, tr)) (x : Bytes)
    (hmono : ∀ i j, i ≤ j → j < (own x tr).length → timeAt (own x tr) i ≤ timeAt (own x tr) j) :
    (∀ j, j < (own x tr).length →
      (allowedAt (own x tr) j = true ↔ ∀ i, i ≤ j →
        (allowedBetween (own x tr) i j : ℚ) + 1
          ≤ c + r * (timeAt (own x tr) j - timeAt (own x tr) i)))
    ∧ (∀ s T : ℚ, 0 ≤ T →
      (((inWindow (own x tr) s T).filter (·.allowed)).length : ℚ) ≤ c + r * T)
    ∧ ((∀ s T : ℚ, 0 ≤ T → ((inWindow (own x tr) s T).length : ℚ) ≤ c + r * T) →
      ∀ d ∈ own x tr, d.allowed = true) := by
  have hdec := (follows_run hops hrun x).decided
  set l := own x tr
  have hused : ∀ i j, j ≤ l.length → allowedBetween l i j = used r c (timeAt l) i j := by
    intro i j hj
    unfold allowedBetween used
    congr 1
    refine Finset.filter_congr (fun k hk => ?_)
    exact hdec k (by rw [Finset.mem_Ico] at hk; omega)
  have hwindow : ∀ s T : ℚ, (inWindow l s T).length = (window (timeAt l) l.length s T).card := by
    intro s T
    rw [inWindow, length_filter_eq_card]
    simp only [decide_eq_true_eq]
    rfl
  refine ⟨?_, ?_, ?_⟩
  · intro j hj
    rw [hdec j hj, granted_iff]
    constructor <;> intro h i hi
    · rw [hused i j (by omega)]; exact h i hi
    · rw [← hused i j (by omega)]; exact h i hi
  · intro s T hT
    exact (follows_run hops hrun x).window_le hr hc hT
  · intro hfit d hd
    obtain ⟨k, hk, rfl⟩ := List.getElem_of_mem hd
    have hgr : Granted r c (timeAt l) k := by
      refine granted_of_card_window_le r c (timeAt l) hmono ?_ hk
      intro s T hT
      rw [← hwindow]
      exact hfit s T hT
    have hall := (hdec k hk).mpr hgr
    rwa [allowedAt, List.getD_eq_getElem _ _ hk] at hall

/-- Clients `1` and `2` of a limiter with capacity `1` and rate `2`: two calls of
client `1` at time `0`, one of client `2` between them, and a third of client `1`
half a second later. -/
theorem token_bucket_law_two_clients :
    ∃ rl tr, exec step (new 2 1 64 (by decide))
        [.allow [1] 0, .allow [2] 0, .allow [1] 0, .allow [1] (1 / 2)] = some (rl, tr)
      ∧ (own [1] tr).length = 3
      ∧ (((inWindow (own [1] tr) 0 (1 / 2)).filter (·.allowed)).length : ℚ)
          ≤ 1 + 2 * (1 / 2) := by
  refine ⟨_, _, rfl, rfl, ?_⟩
  refine (token_bucket_law 2 1 (by norm_num) (by norm_num) 64 (by decide)
    [.allow [1] 0, .allow [2] 0, .allow [1] 0, .allow [1] (1 / 2)] ?_ _ _ rfl [1] ?_).2.1
    0 (1 / 2) (by norm_num)
  · intro op hop
    simp only [List.mem_cons, List.not_mem_nil, or_false] at hop
    rcases hop with rfl | rfl | rfl | rfl <;> exact ⟨_, _, rfl⟩
  · intro i j hij hj
    change j < 3 at hj
    -- the client's three call times are `0`, `0` and `1 / 2`
    have htimes : j = 0 ∨ j = 1 ∨ j = 2 := by omega
    rcases htimes with rfl | rfl | rfl
    · obtain rfl : i = 0 := by omega
      exact le_rfl
    · have hi : i = 0 ∨ i = 1 := by omega
      rcases hi with rfl | rfl <;> exact le_rfl
    · have hi : i = 0 ∨ i = 1 ∨ i = 2 := by omega
      rcases hi with rfl | rfl | rfl
      · change (0 : ℚ) ≤ 1 / 2
        norm_num
      · change (0 : ℚ) ≤ 1 / 2
        norm_num
      · exact le_rfl

end RateLimiter

end AegisProxy
