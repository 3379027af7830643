/-
Who gets in: the rate limit at the edge of the process.

The results about `RateLimiter` are about its runs. The process is such a run (`Proxy.Gated`): its
listener calls `allow`, its reap loop calls `reap_idle` with five minutes, both with the clock of
the process, which never goes back. A client knows nothing of these calls: it connects, and is
given a session or a 429, while others connect, sessions run, `reap_loop` sweeps and the metrics
port is scraped. Here the limit is read off what can be seen of a run -- when the peer with an
address connected, and which of the two lines the log has for each of its connections. Like
everything about tokens it is read in exact arithmetic.

With a rate and a capacity that the five minutes of `reap_loop` can refill, the answers to a peer
are those of a token bucket of its own, fed with its own arrivals and with nothing else
(`verdicts_eq`): the window law holds at the edge of the process (`limit_law`), and who else is
there, which address and how many shards one has, what the backends do, all make no difference to
anyone (`limit_isolates`).
-/
import AegisProxy.Lib.Readers
import AegisProxy.LimiterReaping
import AegisProxy.ServerLog

set_option autoImplicit false

namespace AegisProxy

open Runs TokenBucket

/-! ## Peers -/

/-- An address is its text: the first three numbers end at a dot. -/
theorem Address.to_string_injective : Function.Injective Address.to_string := by
  have hdot : ascii "." = [46] := by decide
  have hnum : ∀ {u v : UInt8}, AegisProxy.to_string u.toNat = AegisProxy.to_string v.toNat →
      u = v := fun h => UInt8.toNat_inj.mp (AegisProxy.to_string_injective h)
  -- one number and what stands behind its dot
  have hfield : ∀ {u v : UInt8} {s t : Bytes},
      AegisProxy.to_string u.toNat ++ ([46] ++ s) = AegisProxy.to_string v.toNat ++ ([46] ++ t) →
      u = v ∧ s = t := by
    intro u v s t h
    have hread : ∀ (n : ℕ) (rest : Bytes), Readers.field 46 (AegisProxy.to_string n ++ [46] ++ rest)
        = some (AegisProxy.to_string n, rest) :=
      fun n => Readers.reads_field (AegisProxy.not_mem_to_string n (by decide))
    rw [← List.append_assoc, ← List.append_assoc] at h
    have hboth := congrArg (Readers.field 46) h
    rw [hread, hread, Option.some.injEq, Prod.mk.injEq] at hboth
    exact ⟨hnum hboth.1, hboth.2⟩
  rintro ⟨a, b, c, d⟩ ⟨a', b', c', d'⟩ h
  simp only [to_string, hdot, List.append_assoc] at h
  obtain ⟨ha, h⟩ := hfield h
  obtain ⟨hb, h⟩ := hfield h
  obtain ⟨hc, h⟩ := hfield h
  rw [ha, hb, hc, hnum h]

/-! ## The limiter of the process -/

namespace Proxy

theorem seconds_le {t t' : Time} (h : t ≤ t') : seconds t ≤ seconds t' := by
  unfold seconds
  have hcast : (t : ℚ) ≤ t' := by exact_mod_cast h
  linarith

/-- The limiter of the process has come from that of `p₀` by the calls `ops`, with the answers
`ds`. -/
structure Gated (p₀ p : Proxy) (ops : List RateLimiter.Op) (ds : List RateLimiter.Decision) :
    Prop where
  run : exec RateLimiter.step p₀.limiter ops = some (p.limiter, ds)
  deployed : ∀ op ∈ ops, RateLimiter.Deployed op
  ordered : (ops.map RateLimiter.Op.now).Pairwise (· ≤ ·)
  clock : ∀ op ∈ ops, op.now ≤ seconds p.clock

variable {p₀ p p' : Proxy} {ops : List RateLimiter.Op} {ds : List RateLimiter.Decision}

/-- A step that is nothing to the limiter. -/
theorem Gated.other (h : Gated p₀ p ops ds) (hlim : p'.limiter = p.limiter)
    (hclock : p.clock ≤ p'.clock) : Gated p₀ p' ops ds where
  run := hlim.symm ▸ h.run
  deployed := h.deployed
  ordered := h.ordered
  clock := fun op hop => le_trans (h.clock op hop) (seconds_le hclock)

/-- One call on the limiter, at the clock of the process. -/
theorem Gated.call (h : Gated p₀ p ops ds) {op : RateLimiter.Op}
    {out : List RateLimiter.Decision} (hop : RateLimiter.Deployed op)
    (hnow : op.now = seconds p'.clock) (hclock : p.clock ≤ p'.clock)
    (hstep : p.limiter.step op = some (p'.limiter, out)) :
    Gated p₀ p' (ops ++ [op]) (ds ++ out) where
  run := exec_append_iff.mpr ⟨_, _, _, h.run, exec_singleton hstep, rfl⟩
  deployed := by
    intro op' hop'
    rcases List.mem_append.mp hop' with hop' | hop'
    · exact h.deployed op' hop'
    · rw [List.mem_singleton.mp hop']
      exact hop
  ordered := by
    rw [List.map_append, List.pairwise_append]
    refine ⟨h.ordered, List.pairwise_singleton _ _, ?_⟩
    intro t ht t' ht'
    obtain ⟨op', hop', rfl⟩ := List.mem_map.mp ht
    rw [List.mem_singleton.mp ht', hnow]
    exact le_trans (h.clock op' hop') (seconds_le hclock)
  clock := by
    intro op' hop'
    rcases List.mem_append.mp hop' with hop' | hop'
    · exact le_trans (h.clock op' hop') (seconds_le hclock)
    · rw [List.mem_singleton.mp hop', hnow]

/-- A connection in `listen` is one `allow`. -/
theorem Gated.accept (h : Gated p₀ p ops ds) (key : Bytes) {now : Time} (hle : p.clock ≤ now) :
    Gated p₀ (p.accept key now) (ops ++ [.allow key (seconds now)])
      (ds ++ [⟨key, seconds now, (p.limiter.allow key (seconds now)).1⟩]) := by
  rcases p.accept_cases key now with ⟨-, he⟩ | ⟨-, he⟩
  · rw [he]
    exact h.call (Or.inl ⟨_, _, rfl⟩) rfl hle rfl
  · rw [he]
    exact h.call (Or.inl ⟨_, _, rfl⟩) rfl hle rfl

/-- A sweep of `reap_loop` is one `reap_idle`. -/
theorem Gated.reap (h : Gated p₀ p ops ds) {now : Time} (hle : p.clock ≤ now) :
    Gated p₀ (p.reap now) (ops ++ [.reap_idle 300 (seconds now)]) ds := by
  have hcall : Gated p₀ (p.reap now) (ops ++ [.reap_idle 300 (seconds now)]) (ds ++ []) :=
    h.call (Or.inr ⟨_, rfl⟩) rfl hle rfl
  rwa [List.append_nil] at hcall

end Proxy

namespace Server

/-! ## Arrivals and verdicts -/

/-- When a peer whose address is known connects, and who it is to the limiter. -/
def Input.arrival : Input → Option (Bytes × ℚ)
  | .accept (some address) now _ => some (address.to_string, Proxy.seconds now)
  | _ => none

/-- Which way a connection went, as the log has it. -/
def Output.verdict : Output → Option (Bytes × Bool)
  | .log (.trace _ (.request_received client)) => some (client, true)
  | .log (.rate_limited _ client) => some (client, false)
  | _ => none

/-- When the peer `x` connects, if it does. -/
def Input.connects (x : Address) : Input → Option ℚ
  | .accept (some address) now _ => if address = x then some (Proxy.seconds now) else none
  | _ => none

/-- The times at which the peer `x` connected. -/
def arrivals (x : Address) (ins : List Input) : List ℚ := ins.filterMap (Input.connects x)

/-- What became of them: a session, or a 429. -/
def verdicts (x : Address) (tr : List Output) : List Bool :=
  ((tr.filterMap Output.verdict).filter (·.1 = x.to_string)).map Prod.snd

theorem arrivals_eq (x : Address) (ins : List Input) :
    arrivals x ins = ((ins.filterMap Input.arrival).filter (·.1 = x.to_string)).map Prod.snd := by
  rw [← List.filterMap_eq_map, ← List.filterMap_eq_filter, List.filterMap_filterMap,
    List.filterMap_filterMap, arrivals]
  refine List.filterMap_congr fun inp _ => ?_
  cases inp with
  | accept remote now now_ms =>
      cases remote with
      | none => rfl
      | some address =>
          have hsame : address.to_string = x.to_string ↔ address = x :=
            Address.to_string_injective.eq_iff
          by_cases hx : address = x
          · simp [Input.connects, Input.arrival, Option.guard, hx]
          · simp [Input.connects, Input.arrival, Option.guard, hsame, hx]
  | _ => rfl

/-- The limiter has come where it is by the connections that are in the run, with the answers
that are in the log. -/
def Metered (sv₀ : Server) (ins : List Input) (sv : Server) (tr : List Output) : Prop :=
  ∃ ops ds, Proxy.Gated sv₀.proxy sv.proxy ops ds
    ∧ ds.map (fun d => (d.client_ip, d.now)) = ins.filterMap Input.arrival
    ∧ ds.map (fun d => (d.client_ip, d.allowed)) = tr.filterMap Output.verdict

/-- A step in which nobody arrives and nothing is said of an arrival. -/
theorem Metered.quiet {sv₀ sv sv' : Server} {ins : List Input} {inp : Input}
    {tr out : List Output} (h : Metered sv₀ ins sv tr)
    (hgate : ∀ {ops ds}, Proxy.Gated sv₀.proxy sv.proxy ops ds →
      ∃ ops', Proxy.Gated sv₀.proxy sv'.proxy ops' ds)
    (hinp : inp.arrival = none) (hout : ∀ o ∈ out, o.verdict = none) :
    Metered sv₀ (ins ++ [inp]) sv' (tr ++ out) := by
  obtain ⟨ops, ds, hg, hin, htr⟩ := h
  obtain ⟨ops', hg'⟩ := hgate hg
  refine ⟨ops', ds, hg', ?_, ?_⟩
  · rw [hin, List.filterMap_append, List.filterMap_cons, hinp, List.filterMap_nil,
      List.append_nil]
  · rw [htr, List.filterMap_append, List.filterMap_eq_nil_iff.mpr hout, List.append_nil]

/-- An arrival, and the line about it. -/
theorem Metered.arrive {sv₀ sv sv' : Server} {ins : List Input} {tr : List Output}
    (h : Metered sv₀ ins sv tr) {address : Address} {now : Time} {now_ms : ℤ} {line : LogLine}
    (hnow : sv.proxy.clock ≤ now) (hproxy : sv'.proxy = sv.proxy.accept address.to_string now)
    (hline : Output.verdict (.log line) = some (address.to_string,
      (sv.proxy.limiter.allow address.to_string (Proxy.seconds now)).1)) :
    Metered sv₀ (ins ++ [.accept (some address) now now_ms]) sv' (tr ++ [.log line]) := by
  obtain ⟨ops, ds, hg, hin, htr⟩ := h
  refine ⟨_, _, hproxy ▸ hg.accept address.to_string hnow, ?_, ?_⟩
  · rw [List.map_append, hin, List.filterMap_append]
    rfl
  · rw [List.map_append, htr, List.filterMap_append, List.filterMap_cons, hline]
    rfl

/-- **A step asks the limiter once for every arrival, and logs what it answers.** -/
theorem Step.metered {sv₀ sv sv' : Server} {ins : List Input} {inp : Input} {tr out : List Output}
    (hst : Step sv inp sv' out) (h : Metered sv₀ ins sv tr) :
    Metered sv₀ (ins ++ [inp]) sv' (tr ++ out) := by
  cases hst with
  | warm_up i rest error lines hw hlines =>
      refine h.quiet (fun hg => ⟨_, hg.other rfl (le_refl _)⟩) rfl ?_
      rintro o ho
      rcases hlines with rfl | ⟨cfg, what, -, -, rfl⟩
      · cases ho
      · rw [List.mem_singleton.mp ho]
        rfl
  | dropped now now_ms hnow hw =>
      refine h.quiet (fun hg => ⟨_, hg⟩) rfl ?_
      simp [Output.verdict]
  | admitted address now now_ms hnow hw hans => exact h.arrive hnow rfl (by rw [hans]; rfl)
  | refused address now now_ms hnow hw hans => exact h.arrive hnow rfl (by rw [hans]; rfl)
  | reap now hnow hw => exact h.quiet (fun hg => ⟨_, hg.reap hnow⟩) rfl (by simp)
  | session i now e what s s' shared acts hnow hi hs =>
      refine h.quiet (fun hg => ⟨_, hg.other rfl hnow⟩) rfl ?_
      intro o ho
      rcases List.mem_append.mp ho with ho | ho
      · obtain ⟨x, -, rfl⟩ := List.mem_map.mp ho
        rfl
      · -- a session does not say again that it was received
        obtain ⟨line, hline, rfl⟩ := List.mem_map.mp ho
        obtain ⟨ev, hev, rfl⟩ := List.mem_map.mp hline
        have hplain := s.logged_plain sv.proxy.shared now e what ev hev
        cases ev with
        | request_received client => cases hplain
        | _ => rfl
  | reject k c r r' acts hk hr => exact h.quiet (fun hg => ⟨_, hg⟩) rfl (by simp [Output.verdict])
  | metrics_accept hw => exact h.quiet (fun hg => ⟨_, hg⟩) rfl (by simp)
  | scrape k c r r' acts hk hr => exact h.quiet (fun hg => ⟨_, hg⟩) rfl (by simp [Output.verdict])

theorem metered_run {sv₀ sv : Server} {ins : List Input} {tr : List Output}
    (h : exec step sv₀ ins = some (sv, tr)) : Metered sv₀ ins sv tr := by
  refine exec_invariant_inputs (I := fun ins sv tr => Metered sv₀ ins sv tr) ?_ ?_ h
  · intro ins u tr inp u' out _ hu hstep
    exact (step_step hstep).metered hu
  · exact ⟨[], [], ⟨rfl, by simp, List.Pairwise.nil, by simp⟩, rfl, rfl⟩

/-! ## A bucket of one's own -/

variable {r c : ℚ} {backends : List BackendConfig} {num_vnodes : ℕ}
  {failure_threshold success_threshold cooldown_period : ℤ} {max_attempts : ℤ} {clock : Time}

/-- **The answers to a peer are those of a token bucket** that is fed with its arrivals, in the
exact arithmetic of the model. -/
theorem verdicts_eq (hr : 0 ≤ r) (hc : 0 ≤ c) (hlong : c ≤ 300 * r) (n : ℕ) (hn : 0 < n)
    {ins : List Input} {sv : Server} {tr : List Output}
    (h : exec step (boot backends num_vnodes failure_threshold success_threshold cooldown_period
      (.new r c n hn) max_attempts clock) ins = some (sv, tr)) (x : Address) :
    verdicts x tr = (List.range (arrivals x ins).length).map fun k =>
      decide (Granted r c (fun j => (arrivals x ins).getD j 0) k) := by
  obtain ⟨ops, ds, hg, hin, htr⟩ := metered_run h
  obtain ⟨rl, hf⟩ := RateLimiter.follows_deployed hr hc n hn hlong hg.deployed hg.ordered
    hg.run x.to_string
  -- what the bucket saw is what the run shows
  have htimes : arrivals x ins = (RateLimiter.own x.to_string ds).map (·.now) := by
    rw [arrivals_eq, ← hin, List.filter_map, List.map_map]
    rfl
  have hanswers : verdicts x tr = (RateLimiter.own x.to_string ds).map (·.allowed) := by
    rw [verdicts, ← htr, List.filter_map, List.map_map]
    rfl
  have hdec := hf.decided
  rw [hanswers, htimes]
  set own := RateLimiter.own x.to_string ds
  refine List.ext_getElem (by simp) ?_
  intro k hk hk'
  rw [List.length_map] at hk
  have hat : RateLimiter.allowedAt own k = own[k].allowed := by
    rw [RateLimiter.allowedAt, List.getD_eq_getElem _ _ hk]
  have hlevel : level r c (RateLimiter.timeAt own) k
      = level r c (fun j => (own.map (·.now)).getD j 0) k := by
    refine level_congr r c fun j hj => ?_
    have hj' : j < own.length := by omega
    rw [RateLimiter.timeAt, List.getD_eq_getElem _ _ hj', List.getD_eq_getElem _ _ (by simpa),
      List.getElem_map]
  rw [List.getElem_map, List.getElem_map, List.getElem_range, ← hat, Bool.eq_iff_iff,
    decide_eq_true_eq, hdec k hk, Granted, Granted, hlevel]

/-- **The limit at the edge, in exact arithmetic.** Tokens are rational numbers here and `double`s
in the source, which may round a token that is just there to one that is not. With a rate and a
capacity that five minutes can refill, in every run of the process and for every address: each
connection of the peer with that address is answered once, and it is given a session exactly if
every row of the peer's connections that ends with it has room for one more -- those of the row
that were given one, and this, are no more than the capacity and what the time of the row
refills. -/
theorem limit_law (hr : 0 ≤ r) (hc : 0 ≤ c) (hlong : c ≤ 300 * r) (n : ℕ) (hn : 0 < n)
    (ins : List Input) (sv : Server) (tr : List Output)
    (h : exec step (boot backends num_vnodes failure_threshold success_threshold cooldown_period
      (.new r c n hn) max_attempts clock) ins = some (sv, tr)) (x : Address) :
    (verdicts x tr).length = (arrivals x ins).length
    ∧ ∀ k, k < (arrivals x ins).length →
      ((verdicts x tr)[k]? = some true ↔ ∀ i, i ≤ k →
        (((Finset.Ico i k).filter fun j => (verdicts x tr)[j]? = some true).card : ℚ) + 1
          ≤ c + r * ((arrivals x ins).getD k 0 - (arrivals x ins).getD i 0)) := by
  have heq := verdicts_eq hr hc hlong n hn h x
  have hget : ∀ j, j < (arrivals x ins).length →
      ((verdicts x tr)[j]? = some true ↔ Granted r c (fun j => (arrivals x ins).getD j 0) j) := by
    intro j hj
    rw [heq, List.getElem?_map, List.getElem?_range hj, Option.map_some, Option.some.injEq,
      decide_eq_true_eq]
  refine ⟨by rw [heq, List.length_map, List.length_range], fun k hk => ?_⟩
  rw [hget k hk, granted_iff]
  have hused : ∀ i, used r c (fun j => (arrivals x ins).getD j 0) i k
      = ((Finset.Ico i k).filter fun j => (verdicts x tr)[j]? = some true).card := by
    intro i
    unfold used
    congr 1
    refine Finset.filter_congr fun j hj => ?_
    exact (hget j ((Finset.mem_Ico.mp hj).2.trans hk)).symm
  simp only [hused]

/-- Two peers at a limiter with capacity `1` and rate `2`: the first connects twice at once and
again half a second later, the second in between; `reap_loop` sweeps once. -/
def crowded : List Input :=
  [.accept (some ⟨10, 0, 0, 1⟩) 0 5, .accept (some ⟨10, 0, 0, 2⟩) 0 5,
    .accept (some ⟨10, 0, 0, 1⟩) 0 5, .reap 100000000,
    .accept (some ⟨10, 0, 0, 1⟩) 500000000 505]

/-- Its second connection is turned away and its third is not: by then there is room for one
more in the row of the three. -/
theorem limit_law_crowded :
    ∃ sv tr, exec step (boot [⟨ascii "b", ascii "80", 0⟩] 1 5 2 5000 (.new 2 1 64 (by decide)) 3 0)
        crowded = some (sv, tr)
      ∧ verdicts ⟨10, 0, 0, 1⟩ tr = [true, false, true]
      ∧ ((((Finset.Ico 0 2).filter fun j => (verdicts ⟨10, 0, 0, 1⟩ tr)[j]? = some true).card : ℚ)
          + 1 ≤ 1 + 2 * (1 / 2 - 0)) := by
  have hrun : (exec step (boot [⟨ascii "b", ascii "80", 0⟩] 1 5 2 5000 (.new 2 1 64 (by decide)) 3 0)
      crowded).any (fun x => verdicts ⟨10, 0, 0, 1⟩ x.2 = [true, false, true]) = true := by
    decide +kernel
  obtain ⟨⟨sv, tr⟩, hexec, hfacts⟩ := (Option.any_eq_true _ _).mp hrun
  have hall : verdicts ⟨10, 0, 0, 1⟩ tr = [true, false, true] := of_decide_eq_true hfacts
  have hlaw := ((limit_law (by norm_num) (by norm_num) (by norm_num) 64 (by decide) crowded sv tr
    hexec ⟨10, 0, 0, 1⟩).2 2 (by decide +kernel)).mp (by rw [hall]; rfl) 0 (by decide)
  have htimes : (arrivals ⟨10, 0, 0, 1⟩ crowded).getD 2 0 = 1 / 2
      ∧ (arrivals ⟨10, 0, 0, 1⟩ crowded).getD 0 0 = 0 := by
    decide +kernel
  rw [htimes.1, htimes.2] at hlaw
  exact ⟨sv, tr, hexec, hall, hlaw⟩

/-- **Nobody else matters**, again in exact arithmetic. Take two processes with one rate and one
capacity, that five minutes can refill, and nothing else in common: backends, thresholds, shards,
runs. If a peer of the one and a peer of the other connect at the same times, they are answered
the same, whatever their addresses are and whoever else connects. -/
theorem limit_isolates (hr : 0 ≤ r) (hc : 0 ≤ c) (hlong : c ≤ 300 * r) (n : ℕ) (hn : 0 < n)
    (ins : List Input) (sv : Server) (tr : List Output)
    (h : exec step (boot backends num_vnodes failure_threshold success_threshold cooldown_period
      (.new r c n hn) max_attempts clock) ins = some (sv, tr))
    (n' : ℕ) (hn' : 0 < n') (backends' : List BackendConfig) (num_vnodes' : ℕ)
    (failure_threshold' success_threshold' cooldown_period' max_attempts' : ℤ) (clock' : Time)
    (ins' : List Input) (sv' : Server) (tr' : List Output)
    (h' : exec step (boot backends' num_vnodes' failure_threshold' success_threshold'
      cooldown_period' (.new r c n' hn') max_attempts' clock') ins' = some (sv', tr'))
    (x x' : Address) (hsame : arrivals x ins = arrivals x' ins') :
    verdicts x tr = verdicts x' tr' := by
  rw [verdicts_eq hr hc hlong n hn h x, verdicts_eq hr hc hlong n' hn' h' x', hsame]

/-- A peer that is alone with one shard, and has the times of the first of the two. -/
def alone : List Input :=
  [.accept (some ⟨10, 0, 0, 9⟩) 0 0, .accept (some ⟨10, 0, 0, 9⟩) 0 0,
    .accept (some ⟨10, 0, 0, 9⟩) 500000000 0]

/-- The two are answered the same. -/
theorem limit_isolates_alone :
    ∃ sv sv' tr tr',
      exec step (boot [⟨ascii "b", ascii "80", 0⟩] 1 5 2 5000 (.new 2 1 64 (by decide)) 3 0) crowded
        = some (sv, tr)
      ∧ exec step (boot [] 1 1 1 1 (.new 2 1 1 (by decide)) 1 0) alone = some (sv', tr')
      ∧ verdicts ⟨10, 0, 0, 1⟩ tr = [true, false, true]
      ∧ verdicts ⟨10, 0, 0, 9⟩ tr' = [true, false, true] := by
  have hrun : (exec step (boot [⟨ascii "b", ascii "80", 0⟩] 1 5 2 5000 (.new 2 1 64 (by decide)) 3 0)
      crowded).any (fun x => verdicts ⟨10, 0, 0, 1⟩ x.2 = [true, false, true]) = true := by
    decide +kernel
  have hrun' : (exec step (boot [] 1 1 1 1 (.new 2 1 1 (by decide)) 1 0) alone).isSome = true := by
    decide +kernel
  obtain ⟨⟨sv, tr⟩, hexec, hfacts⟩ := (Option.any_eq_true _ _).mp hrun
  obtain ⟨⟨sv', tr'⟩, hexec'⟩ := Option.isSome_iff_exists.mp hrun'
  have hall : verdicts ⟨10, 0, 0, 1⟩ tr = [true, false, true] := of_decide_eq_true hfacts
  refine ⟨sv, sv', tr, tr', hexec, hexec', hall, ?_⟩
  rw [← hall]
  exact (limit_isolates (by norm_num) (by norm_num) (by norm_num) 64 (by decide) crowded sv tr
    hexec 1 (by decide) [] 1 1 1 1 1 0 alone sv' tr' hexec' ⟨10, 0, 0, 1⟩ ⟨10, 0, 0, 9⟩
    (by decide +kernel)).symm

end Server

end AegisProxy
