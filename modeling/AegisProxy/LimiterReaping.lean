/-
What the callers see of a reap.

`reap_idle` bounds the memory of the limiter. A client whose bucket it drops comes back to
a full one, so the reap shows unless the dropped bucket had time to fill up: a threshold
`d` with `c ≤ d * r` is long enough. Two limiters `Agree` from a time on if every client
finds the same tokens in both at every later time. A long reap leaves a limiter that
agrees with the one before it, and limiters that agree answer alike for ever.

`reap_loop` has a fixed threshold of five minutes, while the rate and the capacity come
from the environment. `windows_survive_reaping_iff` says which configurations keep the
limit `c + r * T` under it: those with `c ≤ 300 * r`.
-/
import AegisProxy.LimiterShards
import Mathlib.Data.Rat.Floor

set_option autoImplicit false

namespace AegisProxy

open Runs

namespace SingleBucket

/-- What is stored is no debt and not from the future. -/
def Sound (clock : ℚ) (s : SingleBucket) : Prop :=
  ∀ b, s.bucket = some b → 0 ≤ b.tokens ∧ b.last_refill ≤ clock

/-- From `clock` on, a call finds the same tokens in both. -/
structure Agree (clock : ℚ) (s s' : SingleBucket) : Prop where
  rate : s.refill_rate_per_sec = s'.refill_rate_per_sec
  capacity : s.capacity = s'.capacity
  tokens : ∀ t, clock ≤ t → s.tokens t = s'.tokens t

theorem Sound.mono {clock clock' : ℚ} {s : SingleBucket} (h : s.Sound clock)
    (hle : clock ≤ clock') : s.Sound clock' := by
  intro b hb
  obtain ⟨htok, hlast⟩ := h b hb
  exact ⟨htok, hlast.trans hle⟩

theorem Agree.mono {clock clock' : ℚ} {s s' : SingleBucket} (h : Agree clock s s')
    (hle : clock ≤ clock') : Agree clock' s s' :=
  ⟨h.rate, h.capacity, fun t ht => h.tokens t (hle.trans ht)⟩

theorem Agree.refl (clock : ℚ) (s : SingleBucket) : Agree clock s s :=
  ⟨rfl, rfl, fun _ _ => rfl⟩

theorem Agree.trans {clock : ℚ} {s s' s'' : SingleBucket} (h : Agree clock s s')
    (h' : Agree clock s' s'') : Agree clock s s'' :=
  ⟨h.rate.trans h'.rate, h.capacity.trans h'.capacity,
    fun t ht => (h.tokens t ht).trans (h'.tokens t ht)⟩

/-- A sound bucket never shows a debt. -/
theorem Sound.tokens_nonneg {clock t : ℚ} {s : SingleBucket} (h : s.Sound clock)
    (hr : 0 ≤ s.refill_rate_per_sec) (hc : 0 ≤ s.capacity) (ht : clock ≤ t) :
    0 ≤ s.tokens t := by
  unfold tokens
  cases hb : s.bucket with
  | none => exact hc
  | some b =>
      obtain ⟨htok, hlast⟩ := h b hb
      have hgain : 0 ≤ (t - b.last_refill) * s.refill_rate_per_sec :=
        mul_nonneg (by linarith) hr
      exact le_min hc (by linarith)

/-- Paying leaves a sound bucket: it only pays what is there. -/
theorem Sound.spend {clock now : ℚ} {s : SingleBucket} (h : s.Sound clock)
    (hr : 0 ≤ s.refill_rate_per_sec) (hc : 0 ≤ s.capacity) (hnow : clock ≤ now) :
    Sound now { s with bucket := some (RateLimiter.spend ⟨s.tokens now, now⟩).2 } := by
  intro b hb
  obtain rfl := Option.some.inj hb
  have htok := h.tokens_nonneg hr hc hnow
  unfold RateLimiter.spend
  by_cases hone : 1 ≤ s.tokens now
  · rw [if_pos hone]
    exact ⟨by linarith, le_rfl⟩
  · rw [if_neg hone]
    exact ⟨htok, le_rfl⟩

/-- Paying keeps two buckets in agreement: what is left depends on the tokens found. -/
theorem Agree.spend {clock now : ℚ} {s s' : SingleBucket} (h : Agree clock s s')
    (hnow : clock ≤ now) :
    Agree now { s with bucket := some (RateLimiter.spend ⟨s.tokens now, now⟩).2 }
      { s' with bucket := some (RateLimiter.spend ⟨s'.tokens now, now⟩).2 } := by
  rw [h.tokens now hnow]
  refine ⟨h.rate, h.capacity, fun t _ => ?_⟩
  simp only [SingleBucket.tokens]
  rw [h.rate, h.capacity]

theorem Sound.reaped {clock : ℚ} {s : SingleBucket} (h : s.Sound clock) (d now : ℚ) :
    Sound clock { s with bucket := RateLimiter.reaped d now s.bucket } := by
  intro b hb
  exact h b (Option.filter_eq_some_iff.mp hb).1

/-- **A reap with a long threshold does not show.** A dropped bucket would have been full
at every later time. -/
theorem agree_reaped {s : SingleBucket} {d now : ℚ} (h : s.Sound now)
    (hr : 0 ≤ s.refill_rate_per_sec) (hd : s.capacity ≤ d * s.refill_rate_per_sec) :
    Agree now { s with bucket := RateLimiter.reaped d now s.bucket } s := by
  refine ⟨rfl, rfl, fun t ht => ?_⟩
  unfold tokens RateLimiter.reaped
  cases hb : s.bucket with
  | none => rfl
  | some b =>
      by_cases hidle : now - b.last_refill > d
      · have hdrop : (some b).filter (fun b => decide ¬ now - b.last_refill > d) = none := by
          rw [Option.filter_some, if_neg (by rw [decide_eq_true_eq]; exact not_not.mpr hidle)]
        obtain ⟨htok, -⟩ := h b hb
        have hlong : d * s.refill_rate_per_sec
            ≤ (t - b.last_refill) * s.refill_rate_per_sec :=
          mul_le_mul_of_nonneg_right (by linarith) hr
        rw [hdrop]
        exact (min_eq_left (by linarith)).symm
      · have hkeep : (some b).filter (fun b => decide ¬ now - b.last_refill > d) = some b := by
          rw [Option.filter_some, if_pos (by rw [decide_eq_true_eq]; exact hidle)]
        rw [hkeep]

end SingleBucket

namespace RateLimiter

/-! ## Limiters that agree -/

/-- When a call is made. -/
def Op.now : Op → ℚ
  | .allow _ now => now
  | .reap_idle _ now => now

/-- The call is an `allow`. -/
def Op.isAllow : Op → Bool
  | .allow _ _ => true
  | .reap_idle _ _ => false

/-- Every client's bucket is sound. -/
structure Sound (r c clock : ℚ) (rl : RateLimiter) : Prop where
  rate : rl.refill_rate_per_sec_ = r
  capacity : rl.capacity_ = c
  buckets : ∀ x, (rl.seenBy x).Sound clock

/-- From `clock` on, every client finds the same tokens in both. -/
def Agree (clock : ℚ) (rl rl' : RateLimiter) : Prop :=
  ∀ x, SingleBucket.Agree clock (rl.seenBy x) (rl'.seenBy x)

section

variable {r c : ℚ}

theorem sound_new (n : ℕ) (hn : 0 < n) (clock : ℚ) : Sound r c clock (new r c n hn) := by
  refine ⟨rfl, rfl, fun x b hb => ?_⟩
  rw [seenBy, bucket_new] at hb
  cases hb

variable {clock : ℚ} {rl rl' : RateLimiter}

theorem Sound.allow (hs : Sound r c clock rl) (hr : 0 ≤ r) (hc : 0 ≤ c) (y : Bytes) {now : ℚ}
    (hnow : clock ≤ now) : Sound r c now (rl.allow y now).2 := by
  refine ⟨hs.rate, hs.capacity, fun x => ?_⟩
  by_cases hxy : x = y
  · subst hxy
    rw [seenBy_allow_self]
    exact (hs.buckets x).spend (hr.trans_eq hs.rate.symm) (hc.trans_eq hs.capacity.symm) hnow
  · rw [seenBy_allow_ne rl hxy]
    exact (hs.buckets x).mono hnow

theorem Sound.reap_idle (hs : Sound r c clock rl) (d : ℚ) {now : ℚ} (hnow : clock ≤ now) :
    Sound r c now (rl.reap_idle d now).2 := by
  refine ⟨hs.rate, hs.capacity, fun x => ?_⟩
  rw [seenBy_reap_idle]
  exact ((hs.buckets x).mono hnow).reaped d now

/-- Limiters that agree answer alike and go on agreeing. -/
theorem Agree.allow (ha : Agree clock rl rl') (y : Bytes) {now : ℚ} (hnow : clock ≤ now) :
    (rl.allow y now).1 = (rl'.allow y now).1 ∧ Agree now (rl.allow y now).2 (rl'.allow y now).2 := by
  constructor
  · rw [allow_answer, allow_answer, (ha y).tokens now hnow]
  · intro x
    by_cases hxy : x = y
    · subst hxy
      rw [seenBy_allow_self, seenBy_allow_self]
      exact (ha x).spend hnow
    · rw [seenBy_allow_ne rl hxy, seenBy_allow_ne rl' hxy]
      exact (ha x).mono hnow

theorem Sound.agree_reap_idle {now d : ℚ} (hs : Sound r c now rl) (hr : 0 ≤ r)
    (hd : c ≤ d * r) : Agree now (rl.reap_idle d now).2 rl := by
  intro x
  rw [seenBy_reap_idle]
  refine SingleBucket.agree_reaped (hs.buckets x) (hr.trans_eq hs.rate.symm) ?_
  change rl.capacity_ ≤ d * rl.refill_rate_per_sec_
  rw [hs.rate, hs.capacity]
  exact hd

/-- A run at non-decreasing times keeps the buckets sound. -/
theorem sound_run (hr : 0 ≤ r) (hc : 0 ≤ c) {ops : List Op} {tr : List Decision}
    (hs : Sound r c clock rl) (hmono : (clock :: ops.map Op.now).Pairwise (· ≤ ·)) {now : ℚ}
    (hclock : clock ≤ now) (hnow : ∀ op ∈ ops, op.now ≤ now)
    (h : exec step rl ops = some (rl', tr)) : Sound r c now rl' := by
  induction ops generalizing rl clock tr with
  | nil =>
      rw [exec_nil, Option.some.injEq, Prod.mk.injEq] at h
      rw [← h.1]
      exact ⟨hs.rate, hs.capacity, fun x => (hs.buckets x).mono hclock⟩
  | cons op ops ih =>
      obtain ⟨u, out, outs, hu, hrest, rfl⟩ := exec_cons_iff.mp h
      rw [List.map_cons, List.pairwise_cons] at hmono
      have hfirst : clock ≤ op.now := hmono.1 _ (List.mem_cons_self ..)
      have hsound : Sound r c op.now u := by
        cases op with
        | allow y t =>
            simp only [step, Option.some.injEq, Prod.mk.injEq] at hu
            rw [← hu.1]
            exact hs.allow hr hc y hfirst
        | reap_idle d t =>
            simp only [step, Option.some.injEq, Prod.mk.injEq] at hu
            rw [← hu.1]
            exact hs.reap_idle d hfirst
      exact ih hsound hmono.2 (hnow op (by simp)) (fun o ho => hnow o (by simp [ho])) hrest

/-- **Long reaps leave no trace.** A run whose reaps all have a long threshold makes the
decisions of the run without them. -/
theorem run_without_reaps (hr : 0 ≤ r) (hc : 0 ≤ c) {ops : List Op} {tr : List Decision}
    {rl₁ : RateLimiter} (hs : Sound r c clock rl) (ha : Agree clock rl rl')
    (hmono : (clock :: ops.map Op.now).Pairwise (· ≤ ·))
    (hlong : ∀ d t, Op.reap_idle d t ∈ ops → c ≤ d * r)
    (h : exec step rl ops = some (rl₁, tr)) :
    ∃ rl₂, exec step rl' (ops.filter Op.isAllow) = some (rl₂, tr) := by
  induction ops generalizing rl rl' clock tr with
  | nil =>
      rw [exec_nil, Option.some.injEq, Prod.mk.injEq] at h
      exact ⟨rl', by rw [← h.2]; rfl⟩
  | cons op ops ih =>
      obtain ⟨u, out, outs, hu, hrest, rfl⟩ := exec_cons_iff.mp h
      rw [List.map_cons, List.pairwise_cons] at hmono
      have hfirst : clock ≤ op.now := hmono.1 _ (List.mem_cons_self ..)
      have hlater : ∀ d t, Op.reap_idle d t ∈ ops → c ≤ d * r :=
        fun d t hd => hlong d t (by simp [hd])
      cases op with
      | allow y t =>
          simp only [step, Option.some.injEq, Prod.mk.injEq] at hu
          obtain ⟨rfl, rfl⟩ := hu
          obtain ⟨hsame, hagree⟩ := ha.allow y (show clock ≤ t from hfirst)
          obtain ⟨rl₂, hrun⟩ := ih (hs.allow hr hc y hfirst) hagree hmono.2 hlater hrest
          refine ⟨rl₂, exec_cons_iff.mpr ⟨_, _, outs, rfl, hrun, ?_⟩⟩
          rw [hsame]
      | reap_idle d t =>
          simp only [step, Option.some.injEq, Prod.mk.injEq] at hu
          obtain ⟨rfl, rfl⟩ := hu
          have hsound : Sound r c t rl := ⟨hs.rate, hs.capacity, fun x => (hs.buckets x).mono hfirst⟩
          have hagree : Agree t (rl.reap_idle d t).2 rl' := fun x =>
            (hsound.agree_reap_idle hr (hlong d t (by simp)) x).trans ((ha x).mono hfirst)
          exact ih (hs.reap_idle d hfirst) hagree hmono.2 hlater hrest

end

/-- `step` refuses no call. -/
theorem run_total (rl : RateLimiter) (ops : List Op) :
    ∃ rl' tr, exec step rl ops = some (rl', tr) := by
  induction ops generalizing rl with
  | nil => exact ⟨rl, [], rfl⟩
  | cons op ops ih =>
      have hstep : ∃ u out, step rl op = some (u, out) := by
        cases op <;> exact ⟨_, _, rfl⟩
      obtain ⟨u, out, hu⟩ := hstep
      obtain ⟨rl', tr, hrest⟩ := ih u
      exact ⟨rl', out ++ tr, exec_cons_iff.mpr ⟨u, out, tr, hu, hrest, rfl⟩⟩

/-- Times in order have a clock to start from. -/
theorem exists_clock {l : List ℚ} (h : l.Pairwise (· ≤ ·)) :
    ∃ clock, (clock :: l).Pairwise (· ≤ ·) := by
  cases l with
  | nil => exact ⟨0, List.pairwise_singleton _ _⟩
  | cons t l =>
      refine ⟨t, List.pairwise_cons.mpr ⟨?_, h⟩⟩
      intro t' ht'
      rcases List.mem_cons.mp ht' with rfl | hmem
      · exact le_rfl
      · exact (List.pairwise_cons.mp h).1 t' hmem

theorem filter_isAllow {ops : List Op} (h : ∀ op ∈ ops, ∃ y t, op = .allow y t) :
    ops.filter Op.isAllow = ops := by
  rw [List.filter_eq_self]
  intro op hop
  obtain ⟨y, t, rfl⟩ := h op hop
  rfl

/-- **A reap with a long threshold is unobservable.** In every state the limiter can reach
at non-decreasing times, whatever reaps were made on the way, reaping now with a threshold
`d` such that `c ≤ d * r` changes no decision on any later sequence of calls. -/
theorem reaping_unobservable (r c : ℚ) (hr : 0 ≤ r) (hc : 0 ≤ c) (n : ℕ) (hn : 0 < n)
    (ops : List Op) (rl : RateLimiter) (tr : List Decision)
    (hrun : exec step (new r c n hn) ops = some (rl, tr)) (d now : ℚ) (hd : c ≤ d * r)
    (later : List Op) (hlater : ∀ op ∈ later, ∃ y t, op = .allow y t)
    (hmono : ((ops ++ .reap_idle d now :: later).map Op.now).Pairwise (· ≤ ·)) :
    ∃ rl₁ rl₂ tr', exec step rl later = some (rl₁, tr')
      ∧ exec step (rl.reap_idle d now).2 later = some (rl₂, tr') := by
  obtain ⟨clock, hclock⟩ := exists_clock hmono
  rw [List.map_append, List.map_cons, ← List.cons_append, List.pairwise_append] at hclock
  obtain ⟨hbefore, hafter, hcross⟩ := hclock
  have hnow : ∀ t ∈ clock :: ops.map Op.now, t ≤ now := fun t ht =>
    hcross t ht now (List.mem_cons_self ..)
  have hsound : Sound r c now rl :=
    sound_run hr hc (sound_new n hn clock) hbefore (hnow clock (List.mem_cons_self ..))
      (fun op hop => hnow op.now (List.mem_cons_of_mem _ (List.mem_map_of_mem hop))) hrun
  obtain ⟨rl₂, tr', hreaped⟩ := run_total (rl.reap_idle d now).2 later
  have hshort : ∀ d' t, Op.reap_idle d' t ∈ later → c ≤ d' * r := by
    intro d' t hmem
    obtain ⟨y, t', hop⟩ := hlater _ hmem
    cases hop
  obtain ⟨rl₁, hplain⟩ := run_without_reaps hr hc (hsound.reap_idle d le_rfl)
    (hsound.agree_reap_idle hr hd) hafter hshort hreaped
  rw [filter_isAllow hlater] at hplain
  exact ⟨rl₁, rl₂, tr', hplain, hreaped⟩

/-- Capacity `2`, rate `1`: a client that has been idle for longer than the threshold is
dropped, and its next three calls go as if it had not been. -/
theorem reaping_unobservable_idle_client :
    ((new 1 2 64 (by decide)).allow [1] 0).2.total_tracked_clients = 1
      ∧ (((new 1 2 64 (by decide)).allow [1] 0).2.reap_idle 2 3).2.total_tracked_clients = 0
      ∧ ∃ rl₁ rl₂ tr',
        exec step ((new 1 2 64 (by decide)).allow [1] 0).2
          [.allow [1] 3, .allow [1] 3, .allow [1] 3] = some (rl₁, tr')
        ∧ exec step (((new 1 2 64 (by decide)).allow [1] 0).2.reap_idle 2 3).2
          [.allow [1] 3, .allow [1] 3, .allow [1] 3] = some (rl₂, tr') := by
  refine ⟨by decide +kernel, by decide +kernel, ?_⟩
  refine reaping_unobservable 1 2 (by norm_num) (by norm_num) 64 (by decide) [.allow [1] 0] _ _ rfl
    2 3 (by norm_num) [.allow [1] 3, .allow [1] 3, .allow [1] 3] ?_ ?_
  · intro op hop
    simp only [List.mem_cons, List.not_mem_nil, or_false, or_self] at hop
    exact ⟨_, _, hop⟩
  · decide +kernel

end RateLimiter

/-! ## Runs of a single bucket that admit too much -/

namespace SingleBucket

theorem tokens_le_capacity (s : SingleBucket) (t : ℚ) : s.tokens t ≤ s.capacity := by
  unfold tokens
  cases s.bucket with
  | none => exact le_rfl
  | some b => exact min_le_left _ _

/-- As many calls at once as there are whole tokens all go through. -/
theorem exec_burst {s : SingleBucket} {t : ℚ} {k : ℕ} (h : (k : ℚ) + 1 ≤ s.tokens t) :
    exec step s (List.replicate (k + 1) (.allow t))
      = some ({ s with bucket := some ⟨s.tokens t - (k + 1), t⟩ },
          List.replicate (k + 1) (t, true)) := by
  induction k generalizing s with
  | zero =>
      have hone : 1 ≤ s.tokens t := by simpa using h
      simp only [List.replicate, exec, step, hone, if_true, List.append_nil, Nat.cast_zero,
        zero_add]
  | succ k ih =>
      push_cast at h
      have hk : (0 : ℚ) ≤ k := Nat.cast_nonneg k
      have hone : 1 ≤ s.tokens t := by linarith
      have hcap := s.tokens_le_capacity t
      have hleft : tokens { s with bucket := some ⟨s.tokens t - 1, t⟩ } t = s.tokens t - 1 := by
        change min s.capacity (s.tokens t - 1 + (t - t) * s.refill_rate_per_sec) = _
        rw [sub_self, zero_mul, add_zero]
        exact min_eq_right (by linarith)
      have hrest := ih (s := { s with bucket := some ⟨s.tokens t - 1, t⟩ }) (by rw [hleft]; linarith)
      have hsum : s.tokens t - 1 - ((k : ℚ) + 1) = s.tokens t - ((k + 1 : ℕ) + 1) := by
        push_cast
        ring
      rw [hleft, hsum] at hrest
      refine exec_cons_iff.mpr ⟨{ s with bucket := some ⟨s.tokens t - 1, t⟩ }, [(t, true)], _, ?_,
        hrest, rfl⟩
      simp only [step, hone, if_true]

/-- A bucket idle for longer than the threshold is dropped, and the client starts anew. -/
theorem exec_reap_between {r c d t left e : ℚ} {first second : List Op} {s : SingleBucket}
    {ans ans' : List (ℚ × Bool)} (hidle : d < t - e)
    (hfirst : exec step (new r c) first = some ({ new r c with bucket := some ⟨left, e⟩ }, ans))
    (hsecond : exec step (new r c) second = some (s, ans')) :
    exec step (new r c) (first ++ .reap_idle d t :: second) = some (s, ans ++ ans') := by
  refine exec_append_iff.mpr ⟨_, ans, ans', hfirst, ?_, rfl⟩
  refine exec_cons_iff.mpr ⟨new r c, [], ans', ?_, hsecond, rfl⟩
  simp only [step, hidle, if_true]
  rfl

/-- A new bucket can grant `m` calls from `a` on, the last of them at `e`. -/
def Round (r c a e : ℚ) (m : ℕ) : Prop :=
  ∃ (times : List ℚ) (left : ℚ), times.length = m ∧ times.Pairwise (· ≤ ·)
    ∧ (∀ t ∈ times, a ≤ t ∧ t ≤ e)
    ∧ exec step (new r c) (times.map Op.allow)
      = some ({ new r c with bucket := some ⟨left, e⟩ }, times.map fun t => (t, true))

variable {r c : ℚ} {k : ℕ}

/-- The calls a new bucket has whole tokens for. -/
theorem round_burst (hk : (k : ℚ) + 1 ≤ c) (t : ℚ) : Round r c t t (k + 1) := by
  refine ⟨List.replicate (k + 1) t, c - (k + 1), List.length_replicate, ?_, ?_, ?_⟩
  · exact List.pairwise_replicate.mpr (Or.inr le_rfl)
  · intro t' ht'
    rw [List.eq_of_mem_replicate ht']
    exact ⟨le_rfl, le_rfl⟩
  · rw [List.map_replicate, List.map_replicate]
    exact exec_burst (s := new r c) hk

/-- The calls a new bucket has whole tokens for, and one more as soon as the rest has grown
to a whole token. -/
theorem round_burst_next (hk : (k : ℚ) + 1 ≤ c) (hk' : c < k + 2) (hr : 0 < r) (hc : 1 ≤ c)
    (t : ℚ) : Round r c t (t + (k + 2 - c) / r) (k + 2) := by
  have hwait : 0 ≤ (k + 2 - c) / r := div_nonneg (by linarith) hr.le
  have hone : tokens { new r c with bucket := some ⟨c - (k + 1), t⟩ } (t + (k + 2 - c) / r)
      = 1 := by
    change min c (c - (k + 1) + (t + (k + 2 - c) / r - t) * r) = 1
    rw [add_sub_cancel_left, div_mul_cancel₀ _ hr.ne',
      show c - ((k : ℚ) + 1) + (k + 2 - c) = 1 by ring]
    exact min_eq_right hc
  refine ⟨List.replicate (k + 1) t ++ [t + (k + 2 - c) / r], 0, by simp, ?_, ?_, ?_⟩
  · rw [List.pairwise_append]
    refine ⟨List.pairwise_replicate.mpr (Or.inr le_rfl), List.pairwise_singleton _ _, ?_⟩
    intro a ha b hb
    rw [List.eq_of_mem_replicate ha, List.mem_singleton.mp hb]
    linarith
  · intro t' ht'
    rcases List.mem_append.mp ht' with ht' | ht'
    · rw [List.eq_of_mem_replicate ht']
      exact ⟨le_rfl, by linarith⟩
    · rw [List.mem_singleton.mp ht']
      exact ⟨by linarith, le_rfl⟩
  · rw [List.map_append, List.map_append, List.map_replicate, List.map_replicate]
    refine exec_append_iff.mpr ⟨_, _, _, exec_burst (s := new r c) hk, ?_, rfl⟩
    refine exec_cons_iff.mpr ⟨_, [(t + (k + 2 - c) / r, true)], [], ?_, rfl, rfl⟩
    change step { new r c with bucket := some ⟨c - (k + 1), t⟩ } (.allow (t + (k + 2 - c) / r)) = _
    simp only [step, hone, le_refl, if_true, sub_self]

end SingleBucket

namespace RateLimiter

/-! ## The limit under the reap loop -/

/-- How often client `x` was let through in the window `[s, s + T]`. -/
def admitted (x : Bytes) (tr : List Decision) (s T : ℚ) : ℕ :=
  ((inWindow (own x tr) s T).filter (·.allowed)).length

/-- A call of the deployed process: the listener's `allow`, or `reap_loop`'s five minutes. -/
def Deployed (op : Op) : Prop :=
  (∃ client_ip now, op = .allow client_ip now) ∨ ∃ now, op = .reap_idle 300 now

/-- The rate limit: under every interleaving of the listener with the reap loop, no client
is let through more than `c + r * T` times in a window of length `T`. -/
def WindowsHold (r c : ℚ) (n : ℕ) (hn : 0 < n) : Prop :=
  ∀ (ops : List Op) (rl : RateLimiter) (tr : List Decision), (∀ op ∈ ops, Deployed op) →
    (ops.map Op.now).Pairwise (· ≤ ·) → exec step (new r c n hn) ops = some (rl, tr) →
    ∀ (x : Bytes) (s T : ℚ), 0 ≤ T → (admitted x tr s T : ℚ) ≤ c + r * T

/-- With a rate and a capacity that five minutes can refill, every client of the deployed process
is on its abstract bucket: the reaps leave no trace in the decisions. -/
theorem follows_deployed {r c : ℚ} (hr : 0 ≤ r) (hc : 0 ≤ c) (n : ℕ) (hn : 0 < n)
    (hlong : c ≤ 300 * r) {ops : List Op} {rl : RateLimiter} {tr : List Decision}
    (hops : ∀ op ∈ ops, Deployed op) (hmono : (ops.map Op.now).Pairwise (· ≤ ·))
    (hrun : exec step (new r c n hn) ops = some (rl, tr)) (x : Bytes) :
    ∃ rl', Follows r c x rl' tr := by
  obtain ⟨clock, hclock⟩ := exists_clock hmono
  have hreaps : ∀ d t, Op.reap_idle d t ∈ ops → c ≤ d * r := by
    intro d t hmem
    rcases hops _ hmem with ⟨y, t', hop⟩ | ⟨t', hop⟩
    · cases hop
    · cases hop
      exact hlong
  obtain ⟨rl', hplain⟩ := run_without_reaps hr hc (sound_new n hn clock)
    (fun _ => SingleBucket.Agree.refl clock _) hclock hreaps hrun
  have hallow : ∀ op ∈ ops.filter Op.isAllow, ∃ y t, op = .allow y t := by
    intro op hop
    obtain ⟨hmem, hkind⟩ := List.mem_filter.mp hop
    rcases hops op hmem with hal | ⟨t, rfl⟩
    · exact hal
    · cases hkind
  exact ⟨rl', follows_run hallow hplain x⟩

theorem windowsHold_of_le {r c : ℚ} (hr : 0 ≤ r) (hc : 0 ≤ c) (n : ℕ) (hn : 0 < n)
    (hlong : c ≤ 300 * r) : WindowsHold r c n hn := by
  intro ops rl tr hops hmono hrun x s T hT
  obtain ⟨rl', hf⟩ := follows_deployed hr hc n hn hlong hops hmono hrun x
  exact hf.window_le hr hc hT

/-- Two rounds of a client with a reap between them that finds it idle. The second starts
from a full bucket again, whatever the rate. -/
theorem not_windowsHold_of_rounds {r c e t e' : ℚ} {m m' n : ℕ} {hn : 0 < n}
    (hfirst : SingleBucket.Round r c 0 e m) (hsecond : SingleBucket.Round r c t e' m')
    (he : 0 ≤ e) (hidle : 300 < t - e) (he' : t ≤ e') (hmany : c + r * e' < m + m') :
    ¬ WindowsHold r c n hn := by
  obtain ⟨times, left, rfl, hsort, htimes, hrun⟩ := hfirst
  obtain ⟨times', left', rfl, hsort', htimes', hrun'⟩ := hsecond
  intro hhold
  set ops : List Op := times.map (Op.allow []) ++ .reap_idle 300 t :: times'.map (Op.allow [])
  obtain ⟨rl, tr, hrl⟩ := run_total (new r c n hn) ops
  have hdeployed : ∀ op ∈ ops, Deployed op := by
    intro op hop
    simp only [ops, List.mem_append, List.mem_cons, List.mem_map] at hop
    rcases hop with ⟨t', -, rfl⟩ | rfl | ⟨t', -, rfl⟩
    · exact Or.inl ⟨[], t', rfl⟩
    · exact Or.inr ⟨t, rfl⟩
    · exact Or.inl ⟨[], t', rfl⟩
  have hnow : ∀ l : List ℚ, (l.map (Op.allow [])).map Op.now = l := by
    intro l
    rw [List.map_map]
    exact List.map_id l
  have hmono : (ops.map Op.now).Pairwise (· ≤ ·) := by
    rw [List.map_append, List.map_cons, hnow, hnow, List.pairwise_append, List.pairwise_cons]
    refine ⟨hsort, ⟨fun a ha => (htimes' a ha).1, hsort'⟩, ?_⟩
    intro a ha b hb
    have hae := (htimes a ha).2
    rcases List.mem_cons.mp hb with hb | hb
    · rw [hb]
      change a ≤ t
      linarith
    · have htb := (htimes' b hb).1
      linarith
  have hheard : ops.filterMap (Op.heardBy [])
      = times.map SingleBucket.Op.allow ++ .reap_idle 300 t :: times'.map SingleBucket.Op.allow := by
    simp [ops, List.filterMap_map, Function.comp_def, Op.heardBy]
  have hseen := run_seenBy [] hrl
  have hboth := SingleBucket.exec_reap_between hidle hrun hrun'
  rw [← List.map_append] at hboth
  rw [hheard, seenBy_new, hboth, Option.some.injEq, Prod.mk.injEq] at hseen
  -- every call of the run was let through and lies in the window
  have hall : admitted [] tr 0 e' = times.length + times'.length := by
    have hlen : (own [] tr).length = times.length + times'.length := by
      have hcount := congrArg List.length hseen.2
      rw [List.length_map, List.length_append, answers, List.length_map] at hcount
      exact hcount.symm
    rw [admitted, inWindow, List.filter_filter, List.filter_eq_self.mpr, hlen]
    intro d hd
    have hmem : (d.now, d.allowed) ∈ answers [] tr := List.mem_map_of_mem hd
    rw [← hseen.2, List.mem_map] at hmem
    obtain ⟨t', ht', heq⟩ := hmem
    obtain ⟨hnow', hallowed⟩ := Prod.mk.inj heq
    simp only [Bool.and_eq_true, decide_eq_true_eq]
    rw [← hallowed, ← hnow', zero_add]
    rcases List.mem_append.mp ht' with ht' | ht'
    · obtain ⟨hlo, hhi⟩ := htimes t' ht'
      exact ⟨rfl, hlo, by linarith⟩
    · obtain ⟨hlo, hhi⟩ := htimes' t' ht'
      exact ⟨rfl, by linarith, hhi⟩
  have hle := hhold ops rl tr hdeployed hmono hrl [] 0 e' (by linarith)
  rw [hall] at hle
  push_cast at hle
  linarith

/-- **A bucket that cannot fill up in five minutes is filled by the reap.** The client
spends all it can, waits for the reap and does it again. If what is left after the whole
tokens cannot grow to another one in five minutes, one burst on each side of the reap is
enough; otherwise each is followed by one more call, as soon as that is granted. -/
theorem not_windowsHold_of_lt {r c : ℚ} (hr : 0 ≤ r) (hc : 1 ≤ c) (n : ℕ) (hn : 0 < n)
    (hshort : 300 * r < c) : ¬ WindowsHold r c n hn := by
  -- `c` has `k + 1` whole tokens
  obtain ⟨k, hk, hk'⟩ : ∃ k : ℕ, (k : ℚ) + 1 ≤ c ∧ c < k + 2 := by
    have hpos : 1 ≤ ⌊c⌋₊ := Nat.le_floor (by simpa using hc)
    have hlo := Nat.floor_le (show 0 ≤ c by linarith)
    have hhi := Nat.lt_floor_add_one c
    refine ⟨⌊c⌋₊ - 1, ?_, ?_⟩
    · rw [Nat.cast_sub hpos]
      push_cast
      linarith
    · rw [Nat.cast_sub hpos]
      push_cast
      linarith
  have hk₀ : (0 : ℚ) ≤ k := Nat.cast_nonneg k
  by_cases hslow : c + 300 * r < k + 2
  · obtain ⟨ε, hε, hsmall⟩ : ∃ ε : ℚ, 0 < ε ∧ r * ε + ε = k + 2 - c - 300 * r := by
      refine ⟨(k + 2 - c - 300 * r) / (r + 1), div_pos (by linarith) (by linarith), ?_⟩
      have hne : r + 1 ≠ 0 := by linarith
      field_simp
    refine not_windowsHold_of_rounds (SingleBucket.round_burst hk 0)
      (SingleBucket.round_burst hk (300 + ε)) le_rfl (by linarith) le_rfl ?_
    push_cast
    linarith
  · have hr' : 0 < r := by linarith
    obtain ⟨ε, hε, hsmall⟩ : ∃ ε : ℚ, 0 < ε ∧ r * ε = (c - 300 * r) / 2 := by
      refine ⟨(c - 300 * r) / 2 / r, div_pos (by linarith) hr', ?_⟩
      field_simp
    have hwait : r * ((k + 2 - c) / r) = k + 2 - c := mul_div_cancel₀ _ hr'.ne'
    have hpos : 0 < (k + 2 - c) / r := div_pos (by linarith) hr'
    set w := (k + 2 - c) / r
    refine not_windowsHold_of_rounds (SingleBucket.round_burst_next hk hk' hr' hc 0)
      (SingleBucket.round_burst_next hk hk' hr' hc (0 + w + 300 + ε)) (by linarith) (by linarith)
      (by linarith) ?_
    push_cast
    linarith

/-- **Which configurations keep their limit under the reap loop.** For every rate and every
capacity of at least one token: no client is ever let through more than `c + r * T` times in
a window of length `T` exactly when five minutes fill a bucket. -/
theorem windows_survive_reaping_iff (r c : ℚ) (hr : 0 ≤ r) (hc : 1 ≤ c) (n : ℕ) (hn : 0 < n) :
    WindowsHold r c n hn ↔ c ≤ 300 * r := by
  constructor
  · intro hhold
    by_contra hlt
    exact not_windowsHold_of_lt hr hc n hn (not_le.mp hlt) hhold
  · exact windowsHold_of_le hr (by linarith) n hn

/-- The defaults of `main`: ten tokens per second, twenty at most. -/
theorem windows_survive_reaping_defaults :
    (20 : ℚ) ≤ 300 * 10 ∧ WindowsHold 10 20 64 (by decide) := by
  refine ⟨by norm_num, ?_⟩
  exact (windows_survive_reaping_iff 10 20 (by norm_num) (by norm_num) 64 (by decide)).mpr
    (by norm_num)

/-- One request per thousand seconds and no burst: the sixth sweep of the reap loop drops a
client's spent bucket, and it is let through again after six minutes. -/
theorem windows_do_not_survive_reaping : ¬ WindowsHold (1 / 1000) 1 64 (by decide) := by
  intro hhold
  have hle := hhold
    [.allow [1] 0, .reap_idle 300 60, .reap_idle 300 120, .reap_idle 300 180,
      .reap_idle 300 240, .reap_idle 300 300, .reap_idle 300 360, .allow [1] 360] _ _ ?_
    (by decide +kernel) rfl [1] 0 360 (by norm_num)
  · -- two calls went through, and the window has room for `1 + 360 / 1000`
    revert hle
    decide +kernel
  · intro op hop
    simp only [List.mem_cons, List.not_mem_nil, or_false] at hop
    rcases hop with rfl | rfl | rfl | rfl | rfl | rfl | rfl | rfl
    · exact Or.inl ⟨_, _, rfl⟩
    · exact Or.inr ⟨_, rfl⟩
    · exact Or.inr ⟨_, rfl⟩
    · exact Or.inr ⟨_, rfl⟩
    · exact Or.inr ⟨_, rfl⟩
    · exact Or.inr ⟨_, rfl⟩
    · exact Or.inr ⟨_, rfl⟩
    · exact Or.inl ⟨_, _, rfl⟩

end RateLimiter

end AegisProxy
