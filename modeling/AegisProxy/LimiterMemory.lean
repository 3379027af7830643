/-
Whom the limiter remembers.

The map of buckets grows with every address that connects, and only `reap_loop` makes it smaller:
it drops the buckets that nobody has touched for five minutes. So there is a bucket for exactly the
peers no sweep has come by more than five minutes after they connected last (`Remembered`), in
every state of every run: what the limiter takes up is the number of peers that were there lately,
not of those that ever were (`tracked_clients`).
-/
import AegisProxy.Admission
import Mathlib.Data.Set.Card

set_option autoImplicit false

namespace AegisProxy

open Runs

/-! ## When a bucket was touched -/

namespace RateLimiter

/-- When the bucket of a client was touched last, if there is one. -/
def touched (rl : RateLimiter) (x : Bytes) : Option ℚ := (rl.bucket x).map Bucket.last_refill

/-- `allow` touches the bucket of its caller and no other. -/
theorem touched_allow (rl : RateLimiter) (y x : Bytes) (now : ℚ) :
    (rl.allow y now).2.touched x = if x = y then some now else rl.touched x := by
  unfold touched
  rw [bucket_allow]
  split
  · have hlast : (rl.refilled now (rl.bucket y)).last_refill = now := by
      cases rl.bucket y <;> rfl
    rw [(spend_spec _).2, Option.map_some, hlast]
  · rfl

/-- `reap_idle` drops what was touched too long ago. -/
theorem touched_reap_idle (rl : RateLimiter) (d now : ℚ) (x : Bytes) :
    (rl.reap_idle d now).2.touched x = (rl.touched x).filter fun t => ¬ now - t > d := by
  unfold touched
  rw [bucket_reap_idle, reaped]
  cases rl.bucket x with
  | none => rfl
  | some b =>
      rw [Option.filter_some, Option.map_some, Option.filter_some]
      split <;> rfl

/-- The clients that are listed are those with a bucket. -/
theorem mem_clients {rl : RateLimiter} (hp : Placed rl) {x : Bytes} :
    x ∈ rl.clients ↔ (rl.touched x).isSome = true := by
  rw [touched, Option.isSome_map, bucket, AList.lookup_isSome, clients, List.mem_flatMap]
  constructor
  · rintro ⟨shard, hshard, hx⟩
    obtain ⟨i, hi⟩ := List.mem_iff_getElem?.mp hshard
    -- it is in the shard it hashes to
    obtain rfl := hp i shard hi x (AList.mem_keys.mpr hx)
    rw [shard_eq_getElem?] at hi
    rw [Option.some.inj hi]
    exact AList.mem_keys.mpr hx
  · intro hx
    exact ⟨rl.shard x, List.mem_of_getElem? (shard_eq_getElem? rl x), AList.mem_keys.mp hx⟩

end RateLimiter

namespace Server

/-! ## Who was there lately -/

/-- A sweep that comes by more than five minutes after `t`. -/
def Input.forgets (t : ℚ) : Input → Prop
  | .reap now => 300 < Proxy.seconds now - t
  | _ => False

/-- The peer `x` connected at `t` and not again, and no sweep has come by more than five minutes
later. -/
def Remembered (x : Address) (ins : List Input) (t : ℚ) : Prop :=
  ∃ pre inp post, ins = pre ++ inp :: post ∧ inp.connects x = some t
    ∧ ∀ later ∈ post, later.connects x = none ∧ ¬ later.forgets t

theorem remembered_concat {x : Address} {ins : List Input} {inp : Input} {t : ℚ} :
    Remembered x (ins ++ [inp]) t
      ↔ inp.connects x = some t
        ∨ Remembered x ins t ∧ inp.connects x = none ∧ ¬ inp.forgets t := by
  constructor
  · rintro ⟨pre, a, post, heq, hconn, hpost⟩
    rcases List.eq_nil_or_concat post with rfl | ⟨post, last, rfl⟩
    · obtain ⟨-, hlast⟩ := List.append_inj' heq rfl
      rw [List.singleton_inj.mp hlast]
      exact Or.inl hconn
    · rw [List.concat_eq_append] at heq hpost
      rw [← List.cons_append, ← List.append_assoc] at heq
      obtain ⟨rfl, hlast⟩ := List.append_inj' heq rfl
      rw [List.singleton_inj.mp hlast]
      refine Or.inr ⟨⟨pre, a, post, rfl, hconn, ?_⟩, hpost last (by simp)⟩
      exact fun later hl => hpost later (List.mem_append_left _ hl)
  · rintro (hconn | ⟨⟨pre, a, post, rfl, hconn, hpost⟩, hlast⟩)
    · exact ⟨ins, inp, [], rfl, hconn, by simp⟩
    · refine ⟨pre, a, post ++ [inp], by simp, hconn, ?_⟩
      intro later hl
      rcases List.mem_append.mp hl with hl | hl
      · exact hpost later hl
      · rw [List.mem_singleton.mp hl]
        exact hlast

/-! ## The buckets of the process -/

/-- The buckets are those of the peers that were there lately. -/
structure Remembering (ins : List Input) (sv : Server) : Prop where
  times : ∀ x t, sv.proxy.limiter.touched (Address.to_string x) = some t ↔ Remembered x ins t
  known : ∀ y, (sv.proxy.limiter.touched y).isSome = true → ∃ x, y = Address.to_string x

/-- A step that is nothing to the limiter. -/
theorem Remembering.quiet {ins : List Input} {sv sv' : Server} {inp : Input}
    (h : Remembering ins sv) (hlim : sv'.proxy.limiter = sv.proxy.limiter)
    (hconn : ∀ x, inp.connects x = none) (hforget : ∀ t, ¬ inp.forgets t) :
    Remembering (ins ++ [inp]) sv' := by
  refine ⟨fun x t => ?_, fun y hy => h.known y (hlim ▸ hy)⟩
  rw [hlim, h.times, remembered_concat, hconn]
  simp [hforget]

/-- A peer connects: its bucket is touched, whatever is answered. -/
theorem Remembering.arrive {ins : List Input} {sv sv' : Server} {address : Address} {now : Time}
    {now_ms : ℤ} (h : Remembering ins sv)
    (hproxy : sv'.proxy = sv.proxy.accept address.to_string now) :
    Remembering (ins ++ [.accept (some address) now now_ms]) sv' := by
  have hlim : sv'.proxy.limiter
      = (sv.proxy.limiter.allow address.to_string (Proxy.seconds now)).2 := by
    rw [hproxy]
    rcases sv.proxy.accept_cases address.to_string now with ⟨-, he⟩ | ⟨-, he⟩ <;> rw [he]
  refine ⟨fun x t => ?_, fun y hy => ?_⟩
  · rw [hlim, RateLimiter.touched_allow, remembered_concat]
    by_cases hx : address = x
    · subst hx
      simp [Input.connects]
    · rw [if_neg fun heq => hx (Address.to_string_injective heq).symm, h.times]
      simp [Input.connects, Input.forgets, hx]
  · rw [hlim, RateLimiter.touched_allow] at hy
    split at hy
    · exact ⟨address, ‹_›⟩
    · exact h.known y hy

/-- **A step keeps the buckets to the peers that were there lately.** -/
theorem Step.remembering {ins : List Input} {sv sv' : Server} {inp : Input} {out : List Output}
    (hst : Step sv inp sv' out) (h : Remembering ins sv) : Remembering (ins ++ [inp]) sv' := by
  cases hst with
  | admitted address now now_ms hnow hw hans => exact h.arrive rfl
  | refused address now now_ms hnow hw hans => exact h.arrive rfl
  | reap now hnow hw =>
      have hlim : (sv.proxy.reap now).limiter
          = (sv.proxy.limiter.reap_idle 300 (Proxy.seconds now)).2 := rfl
      refine ⟨fun x t => ?_, fun y hy => ?_⟩
      · rw [hlim, RateLimiter.touched_reap_idle, remembered_concat, Option.filter_eq_some_iff,
          h.times]
        simp [Input.connects, Input.forgets]
      · rw [hlim, RateLimiter.touched_reap_idle] at hy
        refine h.known y ?_
        obtain ⟨t, ht⟩ := Option.isSome_iff_exists.mp hy
        rw [(Option.filter_eq_some_iff.mp ht).1]
        rfl
  | _ => exact h.quiet rfl (fun _ => rfl) (fun _ hno => hno)

variable {r c : ℚ} {backends : List BackendConfig} {num_vnodes : ℕ}
  {failure_threshold success_threshold cooldown_period : ℤ} {max_attempts : ℤ} {clock : Time}

/-- **Whom the limiter remembers.** In every state of every run of the process, for any rate and
capacity: there is a bucket for a peer exactly if it has connected and no sweep has come by more
than five minutes after the last time it did, the bucket was touched at that time, and
`total_tracked_clients` is the number of these peers. -/
theorem tracked_clients (n : ℕ) (hn : 0 < n) (ins : List Input) (sv : Server) (tr : List Output)
    (h : exec step (boot backends num_vnodes failure_threshold success_threshold cooldown_period
      (.new r c n hn) max_attempts clock) ins = some (sv, tr)) :
    (∀ x t, sv.proxy.limiter.touched (Address.to_string x) = some t ↔ Remembered x ins t)
    ∧ sv.proxy.limiter.total_tracked_clients = Set.ncard { x | ∃ t, Remembered x ins t } := by
  have hrem : Remembering ins sv := by
    refine exec_invariant_inputs (I := fun ins sv _ => Remembering ins sv) ?_ ?_ h
    · intro ins u tr inp u' out _ hu hstep
      exact (step_step hstep).remembering hu
    · have hnew : ∀ y, (RateLimiter.new r c n hn).touched y = none := by
        intro y
        rw [RateLimiter.touched, RateLimiter.bucket_new, Option.map_none]
      refine ⟨fun x t => ?_, fun y hy => ?_⟩
      · change (RateLimiter.new r c n hn).touched _ = _ ↔ _
        rw [hnew]
        simp [Remembered]
      · change ((RateLimiter.new r c n hn).touched y).isSome = true at hy
        rw [hnew] at hy
        cases hy
  obtain ⟨ops, ds, hg, -, -⟩ := metered_run h
  have hplaced : RateLimiter.Placed sv.proxy.limiter :=
    RateLimiter.placed_run (show exec RateLimiter.step (.new r c n hn) ops = _ from hg.run)
  refine ⟨hrem.times, ?_⟩
  -- the clients listed are the texts of these peers, each once
  have himage : ((sv.proxy.limiter.clients.toFinset : Finset Bytes) : Set Bytes)
      = Set.image Address.to_string { x | ∃ t, Remembered x ins t } := by
    ext y
    rw [Finset.mem_coe, List.mem_toFinset, RateLimiter.mem_clients hplaced]
    constructor
    · intro hy
      obtain ⟨x, rfl⟩ := hrem.known y hy
      obtain ⟨t, ht⟩ := Option.isSome_iff_exists.mp hy
      exact ⟨x, ⟨t, (hrem.times x t).mp ht⟩, rfl⟩
    · rintro ⟨x, ⟨t, ht⟩, rfl⟩
      rw [(hrem.times x t).mpr ht]
      rfl
  rw [← Set.ncard_image_of_injective _ Address.to_string_injective, ← himage,
    Set.ncard_coe_finset, List.toFinset_card_of_nodup (RateLimiter.nodup_clients hplaced),
    RateLimiter.length_clients]

/-- Two peers connect, one of them again five minutes later; then a sweep comes by. -/
def swept : List Input :=
  [.accept (some ⟨10, 0, 0, 1⟩) 0 0, .accept (some ⟨10, 0, 0, 2⟩) 0 0,
    .accept (some ⟨10, 0, 0, 2⟩) 300000000000 0, .reap 301000000000]

/-- The one that came back is remembered, with the time it did, and it is the only one. -/
theorem tracked_clients_swept :
    ∃ sv tr, exec step (boot [] 1 5 2 5000 (.new 10 20 64 (by decide)) 3 0) swept = some (sv, tr)
      ∧ Remembered ⟨10, 0, 0, 2⟩ swept 300
      ∧ Set.ncard { x | ∃ t, Remembered x swept t } = 1 := by
  have hrun : (exec step (boot [] 1 5 2 5000 (.new 10 20 64 (by decide)) 3 0) swept).any (fun x =>
      x.1.proxy.limiter.touched (Address.to_string ⟨10, 0, 0, 2⟩) = some 300
      ∧ x.1.proxy.limiter.total_tracked_clients = 1) = true := by
    decide +kernel
  obtain ⟨⟨sv, tr⟩, hexec, hfacts⟩ := (Option.any_eq_true _ _).mp hrun
  obtain ⟨htouched, hcount⟩ := of_decide_eq_true hfacts
  obtain ⟨htimes, htotal⟩ := tracked_clients 64 (by decide) swept sv tr hexec
  exact ⟨sv, tr, hexec, (htimes _ _).mp htouched, htotal.symm.trans hcount⟩

end Server

end AegisProxy
