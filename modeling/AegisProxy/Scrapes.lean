/-
What the process tells of itself on its two ports: the 429s and the scrapes.

`send_429` and `serve_metrics` run beside the sessions and are resumed in any order with them.
A 429 is the same text for everybody. What a scrape answers is rendered once, when its first
read ends, and sent later in as many parts as the socket takes; the sessions go on counting
meanwhile. So a scrape is a snapshot: it is the registry of one state the run has been in, with
everything that is known of such a state (`scrape_snapshot`), and between two scrapes each
counter has gone up by what happened in between (`scrape_deltas`). On the way every accepted
connection is accounted for: it is a session, a 429, or was gone before it could be looked at
(`connections_accounted`).
-/
import AegisProxy.Ledger
import AegisProxy.Server

set_option autoImplicit false

namespace AegisProxy

open Readers Runs

/-! ## A responder and its client -/

namespace Responder

/-- What the client of a responder has: the response as far as it has gone out. It reads all of
it or nothing, and all of it is there past the write, unless that failed. -/
structure Delivered (r : Responder) (response : Bytes) (read : Response) (acts : List Action) :
    Prop where
  sent : sentTo .client acts <+: response
  reads : read_response (sentTo .client acts)
    = if sentTo .client acts = response then some (read, []) else none
  complete : r = .draining ∨ r = .finished → (∀ ec, .write_failed .client ec ∉ acts) →
    sentTo .client acts = response

theorem Answers.delivered {response : Bytes} {read : Response} {acts : List Action}
    {r : Responder} (h : Answers response acts r) (hreads : Reads read_response response read) :
    r.Delivered response read acts where
  sent := h.isPrefix
  reads := by
    split
    · rename_i hall
      rw [hall]
      exact hreads.self
    · rename_i hne
      exact hreads.prefix_eq_none steady_read_response h.isPrefix hne
  complete := by
    intro hpast hok
    have hend : sentTo .client acts = response ∨ ∃ ec, .write_failed .client ec ∈ acts := by
      rcases hpast with rfl | rfl
      · exact h.2
      · exact h.2
    rcases hend with hall | ⟨ec, hec⟩
    · exact hall
    · exact absurd hec (hok ec)

/-- A responder does not go back to its first read. -/
theorem step_ne_reading {response : Bytes} {c : Completion} {out : List Action} {r r' : Responder}
    (h : r.step response c = some (r', out)) : r' ≠ .reading := by
  cases r <;> simp only [step] at h <;> first | (split at h <;> cases h <;> simp) | cases h

/-! ## Any number of them -/

/-- Each responder of the list meets `P` with what was done under its number, and nothing was
done under any other. -/
structure Each (P : ℕ → Responder → List Action → Prop) (rs : List Responder)
    (acts : ℕ → List Action) : Prop where
  here : ∀ k r, rs[k]? = some r → P k r (acts k)
  beyond : ∀ k, rs[k]? = none → acts k = []

variable {P Q : ℕ → Responder → List Action → Prop} {rs : List Responder} {acts : ℕ → List Action}

theorem each_nil : Each P [] fun _ => [] := ⟨by simp, fun _ _ => rfl⟩

theorem Each.mono (h : Each P rs acts) (hPQ : ∀ k r xs, P k r xs → Q k r xs) : Each Q rs acts :=
  ⟨fun k r hk => hPQ k r _ (h.here k r hk), h.beyond⟩

/-- One more. -/
theorem Each.spawn (h : Each P rs acts) {r : Responder} (hr : P rs.length r []) :
    Each P (rs ++ [r]) acts where
  here := by
    intro k r' hk
    rw [List.getElem?_append] at hk
    split at hk
    · exact h.here k r' hk
    · rename_i hge
      obtain ⟨hlt, rfl⟩ := List.getElem?_eq_some_iff.mp hk
      rw [List.length_singleton] at hlt
      obtain rfl : k = rs.length := by omega
      rw [h.beyond _ (List.getElem?_eq_none (Nat.le_refl _))]
      simpa using hr
  beyond := by
    intro k hk
    rw [List.getElem?_eq_none_iff, List.length_append] at hk
    exact h.beyond k (List.getElem?_eq_none (by omega))

/-- One of them is resumed. -/
theorem Each.resume (h : Each P rs acts) {k : ℕ} {r r' : Responder} (out : List Action)
    (hk : rs[k]? = some r) (hr : P k r (acts k) → P k r' (acts k ++ out))
    {acts' : ℕ → List Action} (hself : acts' k = acts k ++ out)
    (hother : ∀ j, j ≠ k → acts' j = acts j) : Each P (rs.set k r') acts' where
  here := by
    intro j t hj
    by_cases hjk : j = k
    · subst hjk
      rw [List.getElem?_set_self (List.getElem?_eq_some_iff.mp hk).1] at hj
      cases hj
      rw [hself]
      exact hr (h.here j r hk)
    · rw [List.getElem?_set_ne (Ne.symm hjk)] at hj
      rw [hother j hjk]
      exact h.here j t hj
  beyond := by
    intro j hj
    rw [List.getElem?_eq_none_iff, List.length_set] at hj
    have hjk : j ≠ k := by
      rintro rfl
      have hlt := (List.getElem?_eq_some_iff.mp hk).1
      omega
    rw [hother j hjk]
    exact h.beyond j (List.getElem?_eq_none hj)

end Responder

/-! ## What a run did on either port -/

namespace Server

/-- What `send_429` number `k` did. -/
def rejectedOf (k : ℕ) (tr : List Output) : List Action :=
  tr.filterMap fun
    | .rejected j x => if j = k then some x else none
    | _ => none

/-- What `serve_metrics` number `k` did. -/
def scrapedOf (k : ℕ) (tr : List Output) : List Action :=
  tr.filterMap fun
    | .scraped j x => if j = k then some x else none
    | _ => none

theorem rejectedOf_append (k : ℕ) (tr tr' : List Output) :
    rejectedOf k (tr ++ tr') = rejectedOf k tr ++ rejectedOf k tr' := List.filterMap_append

theorem scrapedOf_append (k : ℕ) (tr tr' : List Output) :
    scrapedOf k (tr ++ tr') = scrapedOf k tr ++ scrapedOf k tr' := List.filterMap_append

theorem rejectedOf_rejected (k j : ℕ) (acts : List Action) :
    rejectedOf k (acts.map (.rejected j)) = if j = k then acts else [] := by
  unfold rejectedOf
  split <;> simp_all [List.filterMap_map]

theorem scrapedOf_scraped (k j : ℕ) (acts : List Action) :
    scrapedOf k (acts.map (.scraped j)) = if j = k then acts else [] := by
  unfold scrapedOf
  split <;> simp_all [List.filterMap_map]

/-! ## The 429s -/

/-- The 429, as a client reads it. -/
def rateLimitedRead : Response :=
  readAs 429 (ascii "Too Many Requests") (ascii "text/plain") (ascii "Rate limit exceeded\n")

theorem reads_rate_limited_response : Reads read_response rate_limited_response rateLimitedRead :=
  reads_http_response 429 (ascii "Rate limit exceeded\n") (by decide) (by decide)

/-- A `send_429` answers with the 429. -/
def Turned (_ : ℕ) (r : Responder) (acts : List Action) : Prop :=
  r ≠ .reading ∧ r.Answers rate_limited_response acts

/-- **A step goes on with the 429s.** -/
theorem Step.turned {sv sv' : Server} {inp : Input} {tr out : List Output}
    (h : Step sv inp sv' out) (hr : Responder.Each Turned sv.rejected (rejectedOf · tr)) :
    Responder.Each Turned sv'.rejected (rejectedOf · (tr ++ out)) := by
  have hsame : (∀ k, rejectedOf k out = []) →
      (fun k => rejectedOf k (tr ++ out)) = fun k => rejectedOf k tr := by
    intro hout
    funext k
    rw [rejectedOf_append, hout k, List.append_nil]
  cases h with
  | reject k c r r' acts hk hstep =>
      refine hr.resume acts hk ?_ ?_ ?_
      · rintro ⟨hne, hans⟩
        have hnext := hans.step hstep
        rw [if_neg hne] at hnext
        exact ⟨Responder.step_ne_reading hstep, hnext⟩
      · rw [rejectedOf_append, rejectedOf_rejected, if_pos rfl]
      · intro j hjk
        rw [rejectedOf_append, rejectedOf_rejected, if_neg (Ne.symm hjk), List.append_nil]
  | refused address now now_ms hnow hw hans =>
      rw [hsame fun k => rfl]
      exact hr.spawn ⟨by simp, rfl⟩
  | scrape k c r r' acts hk hstep =>
      rw [hsame fun j => by simp [rejectedOf, List.filterMap_map]]
      exact hr
  | session i now e what s s' shared acts hnow hi hs =>
      rw [hsame fun j => by simp [rejectedOf, List.filterMap_map, Function.comp_def]]
      exact hr
  | warm_up i rest error lines hw hlines =>
      rw [hsame fun j => by simp [rejectedOf, List.filterMap_map]]
      exact hr
  | _ =>
      rw [hsame fun k => rfl]
      exact hr

/-! ## The scrapes -/

/-- A `serve_metrics` is still at its first read, or it answers with what the process had to
show when that ended. -/
def Snapped (sv₀ : Server) (ins : List Input) (k : ℕ) (r : Responder) (acts : List Action) : Prop :=
  r = .reading ∧ sentTo .client acts = []
    ∨ r ≠ .reading ∧ ∃ pre c post sv tr, ins = pre ++ .scrape k c :: post
      ∧ exec step sv₀ pre = some (sv, tr) ∧ sv.scrapes[k]? = some .reading
      ∧ r.Answers sv.exposition acts

theorem Snapped.later {sv₀ : Server} {ins : List Input} {k : ℕ} {r : Responder}
    {acts : List Action} (h : Snapped sv₀ ins k r acts) (inp : Input) :
    Snapped sv₀ (ins ++ [inp]) k r acts := by
  rcases h with h | ⟨hne, pre, c, post, sv, tr, rfl, hrun, hk, hans⟩
  · exact Or.inl h
  · exact Or.inr ⟨hne, pre, c, post ++ [inp], sv, tr, by simp, hrun, hk, hans⟩

/-- **A step goes on with the scrapes.** -/
theorem Step.snapped {sv₀ sv sv' : Server} {ins : List Input} {inp : Input}
    {tr out : List Output} (hrun : exec step sv₀ ins = some (sv, tr)) (h : Step sv inp sv' out)
    (hs : Responder.Each (Snapped sv₀ ins) sv.scrapes (scrapedOf · tr)) :
    Responder.Each (Snapped sv₀ (ins ++ [inp])) sv'.scrapes (scrapedOf · (tr ++ out)) := by
  have hlater := hs.mono fun k r acts hsn => hsn.later inp
  have hsame : (∀ k, scrapedOf k out = []) →
      (fun k => scrapedOf k (tr ++ out)) = fun k => scrapedOf k tr := by
    intro hout
    funext k
    rw [scrapedOf_append, hout k, List.append_nil]
  cases h with
  | scrape k c r r' acts hk hstep =>
      refine hlater.resume acts hk ?_ ?_ ?_
      · -- the end of the first read chooses the answer, any other step goes on with it
        rintro (⟨rfl, hnone⟩ | ⟨hne, pre, c', post, svm, trm, heq, hpre, hat, hans⟩)
        · have hfirst : Responder.Answers [] (scrapedOf k tr) .reading := hnone
          exact Or.inr ⟨Responder.step_ne_reading hstep, ins, c, [], sv, tr, rfl, hrun, hk,
            hfirst.step hstep⟩
        · have hnext := hans.step hstep
          rw [if_neg hne] at hnext
          exact Or.inr ⟨Responder.step_ne_reading hstep, pre, c', post, svm, trm, heq, hpre, hat,
            hnext⟩
      · rw [scrapedOf_append, scrapedOf_scraped, if_pos rfl]
      · intro j hjk
        rw [scrapedOf_append, scrapedOf_scraped, if_neg (Ne.symm hjk), List.append_nil]
  | metrics_accept hw =>
      rw [hsame fun k => rfl]
      exact hlater.spawn (Or.inl ⟨rfl, rfl⟩)
  | reject k c r r' acts hk hstep =>
      rw [hsame fun j => by simp [scrapedOf, List.filterMap_map]]
      exact hlater
  | session i now e what s s' shared acts hnow hi hs =>
      rw [hsame fun j => by simp [scrapedOf, List.filterMap_map, Function.comp_def]]
      exact hlater
  | warm_up i rest error lines hw hlines =>
      rw [hsame fun j => by simp [scrapedOf, List.filterMap_map]]
      exact hlater
  | _ =>
      rw [hsame fun k => rfl]
      exact hlater

end Server

/-! ## Every connection -/

theorem Session.Piece.rate_limited {sh sh' : Shared} {now : Time} {s s' : Session}
    {acts : List Action} (hpc : Piece sh now s sh' s' acts) :
    sh'.metrics.rate_limited_ = sh.metrics.rate_limited_ := by
  cases hpc <;> rfl

namespace Server

/-- Every connection has become something, and each session has an id. -/
structure Accounted (ins : List Input) (sv : Server) : Prop where
  connections : ins.countP Input.isAccept
    = sv.proxy.sessions.length + sv.rejected.length + ins.countP Input.isDropped
  ids : sv.cids.length = sv.proxy.sessions.length
  limited : sv.proxy.shared.metrics.rate_limited_
    = MetricsRegistry.fetch_add^[sv.rejected.length] 0

/-- A step that accepts no connection changes none of this. -/
theorem Accounted.quiet {ins : List Input} {sv sv' : Server} {inp : Input} (h : Accounted ins sv)
    (hinp : inp.isAccept = false)
    (hsess : sv'.proxy.sessions.length = sv.proxy.sessions.length)
    (hrej : sv'.rejected.length = sv.rejected.length) (hids : sv'.cids = sv.cids)
    (hlim : sv'.proxy.shared.metrics.rate_limited_ = sv.proxy.shared.metrics.rate_limited_) :
    Accounted (ins ++ [inp]) sv' := by
  have hdropped : inp.isDropped = false := by
    cases inp with
    | accept remote now now_ms => cases hinp
    | _ => rfl
  refine ⟨?_, ?_, ?_⟩
  · rw [List.countP_append, List.countP_append, List.countP_singleton, List.countP_singleton, hinp,
      hdropped, hsess, hrej]
    exact h.connections
  · rw [hids, hsess]
    exact h.ids
  · rw [hlim, hrej]
    exact h.limited

/-- **A step accounts for its connection.** -/
theorem Step.accounted {sv sv' : Server} {ins : List Input} {inp : Input} {out : List Output}
    (h : Step sv inp sv' out) (ha : Accounted ins sv) : Accounted (ins ++ [inp]) sv' := by
  have hconn := ha.connections
  cases h with
  | warm_up i rest error lines =>
      cases error with
      | none => exact ha.quiet rfl rfl rfl rfl rfl
      | some what => exact ha.quiet rfl rfl rfl rfl rfl
  | dropped now now_ms =>
      refine ⟨?_, ha.ids, ha.limited⟩
      simp only [List.countP_append, List.countP_singleton, Input.isAccept, Input.isDropped]
      omega
  | admitted address now now_ms hnow hw hans =>
      rcases sv.proxy.accept_cases address.to_string now with ⟨-, he⟩ | ⟨hno, -⟩
      · refine ⟨?_, ?_, ?_⟩
        · simp only [List.countP_append, List.countP_singleton, Input.isAccept, Input.isDropped,
            he, List.length_append, List.length_singleton, if_true, Bool.false_eq_true, if_false]
          omega
        · simp [he, ha.ids]
        · rw [he]
          exact ha.limited
      · rw [hans] at hno
        cases hno
  | refused address now now_ms hnow hw hans =>
      rcases sv.proxy.accept_cases address.to_string now with ⟨hyes, -⟩ | ⟨-, he⟩
      · rw [hans] at hyes
        cases hyes
      · refine ⟨?_, ?_, ?_⟩
        · simp only [List.countP_append, List.countP_singleton, Input.isAccept, Input.isDropped,
            he, List.length_append, List.length_singleton, if_true, Bool.false_eq_true, if_false]
          omega
        · simp [he, ha.ids]
        · rw [he, List.length_append, List.length_singleton, Function.iterate_succ_apply',
            ← ha.limited]
          rfl
  | session i now e what s s' shared acts hnow hi hs =>
      exact ha.quiet rfl (List.length_set ..) rfl rfl (Session.step_piece hs).rate_limited
  | reject k c => exact ha.quiet rfl rfl (List.length_set ..) rfl rfl
  | _ => exact ha.quiet rfl rfl rfl rfl rfl

/-- Neither sessions nor 429s are forgotten. -/
theorem Step.grows {sv sv' : Server} {inp : Input} {out : List Output} (h : Step sv inp sv' out) :
    sv.proxy.sessions.length ≤ sv'.proxy.sessions.length
      ∧ sv.rejected.length ≤ sv'.rejected.length := by
  cases h with
  | warm_up i rest error lines => exact ⟨Nat.le_refl _, Nat.le_refl _⟩
  | admitted address now now_ms hnow hw hans =>
      rcases sv.proxy.accept_cases address.to_string now with ⟨-, he⟩ | ⟨-, he⟩
      · rw [he]
        simp
      · rw [he]
        simp
  | refused address now now_ms hnow hw hans =>
      rcases sv.proxy.accept_cases address.to_string now with ⟨-, he⟩ | ⟨-, he⟩
      · rw [he]
        simp
      · rw [he]
        simp
  | session i now e what s s' shared acts hnow hi hs => simp
  | reject k c => simp
  | _ => exact ⟨Nat.le_refl _, Nat.le_refl _⟩

theorem grows_run {sv sv' : Server} {ins : List Input} {tr : List Output}
    (h : exec step sv ins = some (sv', tr)) :
    sv.proxy.sessions.length ≤ sv'.proxy.sessions.length
      ∧ sv.rejected.length ≤ sv'.rejected.length :=
  exec_invariant
    (I := fun sv' _ => sv.proxy.sessions.length ≤ sv'.proxy.sessions.length
      ∧ sv.rejected.length ≤ sv'.rejected.length)
    (fun _ _ _ _ _ hs hstep =>
      ⟨hs.1.trans (step_step hstep).grows.1, hs.2.trans (step_step hstep).grows.2⟩)
    ⟨Nat.le_refl _, Nat.le_refl _⟩ h

end Server

namespace Proxy

/-- The counters, while none of them can have wrapped. -/
structure Counts (p : Proxy) (tr : List (ℕ × Action)) : Prop where
  total : p.shared.metrics.total_requests_ = p.sessions.length
  fallback : p.shared.metrics.fallback_503_ = fallbacks tr
  success : ∀ b < p.shared.backend_count, p.shared.metrics.backend_success_ b = successes b tr
  failure : ∀ b, p.shared.metrics.backend_failure_ b = failures b tr

/-- No counter has more to count than there are sessions. -/
theorem Ledger.counts {p : Proxy} {tr : List (ℕ × Action)} (h : Ledger p tr)
    (hfew : p.sessions.length < 2 ^ 64) : Counts p tr := by
  have hsettled := List.countP_le_length (p := fun s : Session => s.point.settled) (l := p.sessions)
  have hbal := h.balance
  have hcount : ∀ n, n ≤ p.sessions.length → MetricsRegistry.fetch_add^[n] 0 = n := by
    intro n hn
    rw [MetricsRegistry.fetch_add_iterate, Nat.mod_eq_of_lt (Nat.lt_of_le_of_lt hn hfew)]
  refine ⟨?_, ?_, ?_, ?_⟩
  · rw [h.total, hcount _ (Nat.le_refl _)]
  · rw [h.fallback, hcount _ (by omega)]
  · intro b hb
    have hle : successes b tr ≤ ∑ b ∈ Finset.range p.shared.backend_count, successes b tr :=
      Finset.single_le_sum (f := fun b => successes b tr) (fun _ _ => Nat.zero_le _)
        (Finset.mem_range.mpr hb)
    rw [h.success, hcount _ (by omega)]
  · intro b
    have hle := h.failed_once b
    have hlen := List.countP_le_length (p := fun s : Session => b ∈ s.excluded) (l := p.sessions)
    rw [h.failure, hcount _ (by omega)]

/-- What was received is what succeeded, what fell back, and what is open. -/
theorem Ledger.conserved {p : Proxy} {tr : List (ℕ × Action)} (h : Ledger p tr)
    (hfew : p.sessions.length < 2 ^ 64) :
    p.shared.metrics.total_requests_
      = ∑ b ∈ Finset.range p.shared.backend_count, p.shared.metrics.backend_success_ b
        + p.shared.metrics.fallback_503_ + p.sessions.countP (fun s => !s.point.settled) := by
  have hcounts := h.counts hfew
  have hbal := h.balance
  have hopen := p.sessions.length_eq_countP_add_countP (·.point.settled)
  have hsum : ∑ b ∈ Finset.range p.shared.backend_count, p.shared.metrics.backend_success_ b
      = ∑ b ∈ Finset.range p.shared.backend_count, successes b tr :=
    Finset.sum_congr rfl fun b hb => hcounts.success b (Finset.mem_range.mp hb)
  rw [hcounts.total, hcounts.fallback, hsum, hbal]
  simpa using hopen

end Proxy

namespace Server

/-! ## The results -/

section Runs

variable (backends : List BackendConfig) (num_vnodes : ℕ)
  (failure_threshold success_threshold cooldown_period : ℤ) (limiter : RateLimiter)
  (max_attempts : ℤ) (clock : Time)

theorem accounted_run {sv₀ sv : Server} {ins : List Input} {tr : List Output}
    (h₀ : Accounted [] sv₀) (h : exec step sv₀ ins = some (sv, tr)) : Accounted ins sv :=
  exec_invariant_inputs (I := fun ins sv _ => Accounted ins sv)
    (fun _ _ _ _ _ _ _ ha hstep => (step_step hstep).accounted ha) h₀ h

theorem accounted_boot : Accounted [] (boot backends num_vnodes failure_threshold
    success_threshold cooldown_period limiter max_attempts clock) := ⟨rfl, rfl, rfl⟩

/-- The ledger of a run, and the number of backends. -/
theorem ledger_boot {ins : List Input} {sv : Server} {tr : List Output}
    (h : exec step (boot backends num_vnodes failure_threshold success_threshold cooldown_period
      limiter max_attempts clock) ins = some (sv, tr)) :
    Proxy.Ledger sv.proxy (actions tr) ∧ sv.proxy.shared.backend_count = backends.length :=
  ⟨Proxy.ledger_run rfl rfl (fun _ _ hat => Shared.new_ring_lt hat) (run_proxy h),
    (Proxy.session_run rfl (run_proxy h)).backend_count⟩

/-- **Every connection is accounted for.** In every run of the process with fewer than `2^64`
connections so far: each accepted connection has become one session, with an id of its own, or
one 429, or had lost its peer; `aegis_requests_total` is the number of the sessions and
`aegis_rate_limited_total` that of the 429s; and whoever got a 429 has the text of it as far as
it has gone out, reads one 429 or nothing, and has all of it once the write is done without an
error. -/
theorem connections_accounted (ins : List Input) (sv : Server) (tr : List Output)
    (h : exec step (boot backends num_vnodes failure_threshold success_threshold cooldown_period
      limiter max_attempts clock) ins = some (sv, tr))
    (hfew : ins.countP Input.isAccept < 2 ^ 64) :
    ins.countP Input.isAccept
        = sv.proxy.sessions.length + sv.rejected.length + ins.countP Input.isDropped
      ∧ sv.cids.length = sv.proxy.sessions.length
      ∧ sv.proxy.shared.metrics.total_requests_ = sv.proxy.sessions.length
      ∧ sv.proxy.shared.metrics.rate_limited_ = sv.rejected.length
      ∧ ∀ (k : ℕ) (r : Responder), sv.rejected[k]? = some r →
        r.Delivered rate_limited_response rateLimitedRead (rejectedOf k tr) := by
  obtain ⟨hconn, hids, hlim⟩ := accounted_run (accounted_boot backends num_vnodes
    failure_threshold success_threshold cooldown_period limiter max_attempts clock) h
  obtain ⟨hled, -⟩ := ledger_boot backends num_vnodes failure_threshold success_threshold
    cooldown_period limiter max_attempts clock h
  have hturned := exec_invariant
    (I := fun sv tr => Responder.Each Turned sv.rejected (rejectedOf · tr))
    (fun _ _ _ _ _ hr hstep => (step_step hstep).turned hr) Responder.each_nil h
  refine ⟨hconn, hids, ?_, ?_, ?_⟩
  · rw [hled.total, MetricsRegistry.fetch_add_iterate, Nat.mod_eq_of_lt (by omega)]
  · rw [hlim, MetricsRegistry.fetch_add_iterate, Nat.mod_eq_of_lt (by omega)]
  · intro k r hk
    exact (hturned.here k r hk).2.delivered reads_rate_limited_response

/-- One backend, and a limiter that lets a client in once. -/
def small : Server :=
  boot [⟨ascii "127.0.0.1", ascii "9001", 0⟩] 1 1 1 5000 (.new 10 1 1 Nat.one_pos) 3 0

/-- A client comes twice, the second time over its limit, and another is gone at once. The first
session cannot connect; a scrape is taken then and sent in two parts while the session goes on
to the 503. -/
def visited : List Input :=
  [.accept (some ⟨10, 0, 0, 1⟩) 0 5, .accept (some ⟨10, 0, 0, 1⟩) 0 6, .accept none 0 7,
    .metrics_accept, .session 0 1 .resume [], .session 0 2 .connect_failed [],
    .scrape 0 (.read_some [71]), .session 0 3 .resume [], .reject 0 (.wrote_some 119),
    .scrape 0 (.wrote_some 5), .scrape 0 (.wrote_some 1276)]

/-- One session, one 429, which is read as one. -/
theorem connections_accounted_visited :
    ∃ sv tr, exec step small visited = some (sv, tr)
      ∧ sv.proxy.shared.metrics.total_requests_ = 1 ∧ sv.proxy.shared.metrics.rate_limited_ = 1
      ∧ read_response (sentTo .client (rejectedOf 0 tr)) = some (rateLimitedRead, []) := by
  have hrun : (exec step small visited).any (fun x =>
      x.1.proxy.sessions.length = 1 ∧ x.1.rejected = [.draining]
      ∧ ∀ y ∈ rejectedOf 0 x.2, y.bytesTo .client ≠ []) = true := by
    decide +kernel
  obtain ⟨⟨sv, tr⟩, hexec, hfacts⟩ := (Option.any_eq_true _ _).mp hrun
  obtain ⟨hone, hrej, hsent⟩ := of_decide_eq_true hfacts
  obtain ⟨-, -, htotal, hlim, hall⟩ := connections_accounted
    [⟨ascii "127.0.0.1", ascii "9001", 0⟩] 1 1 1 5000 (.new 10 1 1 (by decide)) 3 0 visited sv tr
    hexec (by decide)
  have hdel := hall 0 .draining (by rw [hrej]; rfl)
  have hread := hdel.reads
  rw [if_pos (hdel.complete (Or.inl rfl) ?_)] at hread
  · exact ⟨sv, tr, hexec, htotal.trans hone, by rw [hlim, hrej]; rfl, hread⟩
  · intro ec hec
    exact hsent _ hec rfl

/-- What a client reads in a scrape. -/
def scrapeRead (body : Bytes) : Response :=
  readAs 200 (ascii "OK") (ascii "text/plain; version=0.0.4") body

/-- **A scrape is a snapshot.** In every run of the process with fewer than `2^64` connections
so far, however its steps interleave: a scrape is still waiting for its first read and has been
sent nothing, or there is one state of the run, the one in which that read ended, whose registry
it is sent: the body is what `render_prometheus` makes of it. The client has the response as far
as it has gone out and reads all of it or nothing; a scraper gets every number of that registry
out of the body; and in these numbers what was received is what succeeded, what fell back to the
503 and the sessions that were open in that state. -/
theorem scrape_snapshot (ins : List Input) (sv : Server) (tr : List Output)
    (h : exec step (boot backends num_vnodes failure_threshold success_threshold cooldown_period
      limiter max_attempts clock) ins = some (sv, tr))
    (hfew : ins.countP Input.isAccept < 2 ^ 64) (k : ℕ) (r : Responder)
    (hk : sv.scrapes[k]? = some r) :
    r = .reading ∧ sentTo .client (scrapedOf k tr) = []
      ∨ ∃ pre c post svm trm body, ins = pre ++ .scrape k c :: post
        ∧ exec step (boot backends num_vnodes failure_threshold success_threshold cooldown_period
          limiter max_attempts clock) pre = some (svm, trm)
        ∧ svm.scrapes[k]? = some .reading
        ∧ body = svm.proxy.shared.metrics.render_prometheus backends.length
        ∧ r.Delivered (metrics_response body) (scrapeRead body) (scrapedOf k tr)
        ∧ read_exposition body = some (svm.proxy.shared.metrics.families backends.length)
        ∧ svm.proxy.shared.metrics.total_requests_
          = ∑ b ∈ Finset.range backends.length, svm.proxy.shared.metrics.backend_success_ b
            + svm.proxy.shared.metrics.fallback_503_
            + svm.proxy.sessions.countP (fun s => !s.point.settled) := by
  have hsnapped := exec_invariant_inputs
    (I := fun ins sv tr => Responder.Each (Snapped _ ins) sv.scrapes (scrapedOf · tr))
    (fun _ _ _ _ _ _ hrun hs hstep => (step_step hstep).snapped hrun hs) Responder.each_nil h
  rcases hsnapped.here k r hk with hwait | ⟨-, pre, c, post, svm, trm, rfl, hpre, hat, hans⟩
  · exact Or.inl hwait
  · obtain ⟨hled, hcount⟩ := ledger_boot backends num_vnodes failure_threshold success_threshold
      cooldown_period limiter max_attempts clock hpre
    have hacc := accounted_run (accounted_boot backends num_vnodes failure_threshold
      success_threshold cooldown_period limiter max_attempts clock) hpre
    have hconn := hacc.connections
    rw [List.countP_append] at hfew
    have hcons := hled.conserved (by omega)
    rw [hcount] at hcons
    rw [exposition, hcount] at hans
    exact Or.inr ⟨pre, c, post, svm, trm, _, rfl, hpre, hat, rfl,
      hans.delivered (reads_http_response 200 _ (by decide) (by decide)),
      MetricsRegistry.read_render_prometheus _ _, hcons⟩

/-- The scrape is read, as the registry of one state. -/
theorem scrape_snapshot_visited :
    ∃ sv tr m body, exec step small visited = some (sv, tr)
      ∧ body = MetricsRegistry.render_prometheus m 1
      ∧ read_response (sentTo .client (scrapedOf 0 tr)) = some (scrapeRead body, [])
      ∧ read_exposition body = some (MetricsRegistry.families m 1) := by
  have hrun : (exec step small visited).any (fun x =>
      x.1.scrapes = [.draining]
      ∧ (scrapedOf 0 x.2).all (fun y => !(y matches .write_failed _ _))) = true := by
    decide +kernel
  obtain ⟨⟨sv, tr⟩, hexec, hfacts⟩ := (Option.any_eq_true _ _).mp hrun
  obtain ⟨hscr, hsent⟩ := of_decide_eq_true hfacts
  rcases scrape_snapshot [⟨ascii "127.0.0.1", ascii "9001", 0⟩] 1 1 1 5000
    (.new 10 1 1 (by decide)) 3 0 visited sv tr hexec (by decide) 0 .draining
    (by rw [hscr]; rfl) with ⟨hread, -⟩ | ⟨_, _, _, svm, _, body, -, -, -, hbody, hdel, hexpo, -⟩
  · cases hread
  · have hread := hdel.reads
    rw [if_pos (hdel.complete (Or.inl rfl) ?_)] at hread
    · exact ⟨sv, tr, _, body, hexec, hbody, hread, hexpo⟩
    · intro ec hec
      have hno := List.all_eq_true.mp hsent _ hec
      cases hno

/-- **Between two scrapes.** In every run of the process with fewer than `2^64` connections,
from one of its states to a later one: no counter has gone down; requests and 429s together have
gone up by the connections that were accepted in between and still had their peer; the 503s by
the sessions that fell back in between; and the successes and failures of every backend by the
calls of `record_success` and `record_failure` that were made on its breaker in between. -/
theorem scrape_deltas (pre post : List Input) (sv sv' : Server) (tr tr' : List Output)
    (h : exec step (boot backends num_vnodes failure_threshold success_threshold cooldown_period
      limiter max_attempts clock) pre = some (sv, tr))
    (h' : exec step sv post = some (sv', tr'))
    (hfew : (pre ++ post).countP Input.isAccept < 2 ^ 64) :
    sv.proxy.shared.metrics.total_requests_ ≤ sv'.proxy.shared.metrics.total_requests_
      ∧ sv.proxy.shared.metrics.rate_limited_ ≤ sv'.proxy.shared.metrics.rate_limited_
      ∧ sv'.proxy.shared.metrics.total_requests_ + sv'.proxy.shared.metrics.rate_limited_
          + post.countP Input.isDropped
        = sv.proxy.shared.metrics.total_requests_ + sv.proxy.shared.metrics.rate_limited_
          + post.countP Input.isAccept
      ∧ sv'.proxy.shared.metrics.fallback_503_
        = sv.proxy.shared.metrics.fallback_503_ + Proxy.fallbacks (actions tr')
      ∧ ∀ b < backends.length,
        sv'.proxy.shared.metrics.backend_success_ b
            = sv.proxy.shared.metrics.backend_success_ b + Proxy.successes b (actions tr')
          ∧ sv'.proxy.shared.metrics.backend_failure_ b
            = sv.proxy.shared.metrics.backend_failure_ b + Proxy.failures b (actions tr') := by
  have hall := exec_append_iff.mpr ⟨sv, tr, tr', h, h', rfl⟩
  obtain ⟨hled, hcount⟩ := ledger_boot backends num_vnodes failure_threshold success_threshold
    cooldown_period limiter max_attempts clock h
  obtain ⟨hled', hcount'⟩ := ledger_boot backends num_vnodes failure_threshold success_threshold
    cooldown_period limiter max_attempts clock hall
  have hboot := accounted_boot backends num_vnodes failure_threshold success_threshold
    cooldown_period limiter max_attempts clock
  have hacc := accounted_run hboot h
  have hacc' := accounted_run hboot hall
  have hconn := hacc.connections
  have hconn' := hacc'.connections
  obtain ⟨hsess, hrej⟩ := grows_run h'
  have hlim := hacc.limited
  have hlim' := hacc'.limited
  rw [MetricsRegistry.fetch_add_iterate, Nat.mod_eq_of_lt (by omega)] at hlim'
  rw [MetricsRegistry.fetch_add_iterate, Nat.mod_eq_of_lt (by omega)] at hlim
  have hc := hled.counts (by omega)
  have hc' := hled'.counts (by omega)
  rw [List.countP_append, List.countP_append] at hconn'
  refine ⟨?_, ?_, ?_, ?_, ?_⟩
  · rw [hc.total, hc'.total]
    exact hsess
  · rw [hlim, hlim']
    exact hrej
  · rw [hc.total, hc'.total, hlim, hlim']
    omega
  · rw [hc.fallback, hc'.fallback, actions_append]
    simp only [Proxy.fallbacks, List.map_append, List.count_append]
  · intro b hb
    constructor
    · rw [hc.success b (by omega), hc'.success b (by omega), actions_append]
      simp only [Proxy.successes, Proxy.callsOn_append, List.countP_append]
    · rw [hc.failure, hc'.failure, actions_append]
      simp only [Proxy.failures, Proxy.callsOn_append, List.countP_append]

/-- The 503 comes after the scrape. -/
theorem scrape_deltas_visited :
    ∃ sv sv' tr tr', exec step small (visited.take 7) = some (sv, tr)
      ∧ exec step sv (visited.drop 7) = some (sv', tr')
      ∧ sv'.proxy.shared.metrics.fallback_503_ = sv.proxy.shared.metrics.fallback_503_ + 1 := by
  have hrun : (exec step small (visited.take 7)).any (fun x =>
      (exec step x.1 (visited.drop 7)).any
        (fun y => Proxy.fallbacks (actions y.2) = 1)) = true := by
    decide +kernel
  obtain ⟨⟨sv, tr⟩, hexec, hrest⟩ := (Option.any_eq_true _ _).mp hrun
  obtain ⟨⟨sv', tr'⟩, hexec', hone⟩ := (Option.any_eq_true _ _).mp hrest
  obtain ⟨-, -, -, hfall, -⟩ := scrape_deltas [⟨ascii "127.0.0.1", ascii "9001", 0⟩] 1 1 1 5000
    (.new 10 1 1 (by decide)) 3 0 (visited.take 7) (visited.drop 7) sv sv' tr tr' hexec hexec'
    (by decide)
  exact ⟨sv, sv', tr, tr', hexec, hexec', by rw [hfall, of_decide_eq_true hone]⟩

end Runs

end Server

end AegisProxy
