/-
The breakers of the running process, under any interleaving of its sessions.

* `no_leaked_trial`: admissions and outcomes balance. On every breaker, what has been
  admitted and not yet settled is exactly what is in an attempt on that backend, and a
  trial in flight is among them; so a backend no session works on is never locked out.
* `cooldown_isolation`: from the step in which a breaker opens to the end of its
  cooldown it refuses every request, no session begins to acquire a connection to its
  backend, and no late outcome moves the window.

They come from the same two facts: what one move of a session does to one breaker
(`Move.slots`, `Move.acquire`), and that the breaker itself is the run of the calls in
the trace (`Proxy.run_breakers`).
-/
import AegisProxy.Proxy
import AegisProxy.Streams

set_option autoImplicit false

namespace AegisProxy

open Runs

/-! ## Admissions and outcomes -/

/-- Whether an answered call is an admission. -/
def isAdmission : CircuitBreaker.Call × Option Bool → Bool
  | (.allow_request _, some true) => true
  | _ => false

/-- Whether an answered call is an outcome. -/
def isOutcome : CircuitBreaker.Call × Option Bool → Bool
  | (.record_success _, _) => true
  | (.record_failure _, _) => true
  | _ => false

/-- A breaker call of the given kind for an attempt that `q` holds of. -/
def Action.isCall (kind : CircuitBreaker.Call × Option Bool → Bool) (q : Attempt → Bool) :
    Action → Bool
  | .breaker a call answer => q a && kind (call, answer)
  | _ => false

/-- Counting the calls for attempts on `b` is counting the calls on its breaker. -/
theorem countP_isCall (kind : CircuitBreaker.Call × Option Bool → Bool) (b : ℕ)
    (acts : List Action) :
    acts.countP (Action.isCall kind (·.backend_index = b)) = (callsOn b acts).countP kind := by
  unfold callsOn
  rw [List.countP_filterMap]
  congr 1
  funext x
  cases x with
  | breaker a call answer =>
      by_cases hb : a.backend_index = b <;> simp [Action.isCall, Action.callOn, hb]
  | _ => rfl

/-- Whether a session is between the admission and the outcome of an attempt that `q`
holds of. -/
def Session.holds (q : Attempt → Bool) (s : Session) : Bool := s.point.attempt.any q

theorem RelayMove.isCall {src dst : Peer} {cancelled : Bool} {p p' : RelayPoint}
    {c : Completion} {acts : List Action} {chunk : Option Bytes}
    (h : RelayMove src dst cancelled p c p' acts chunk)
    (kind : CircuitBreaker.Call × Option Bool → Bool) (q : Attempt → Bool) :
    acts.countP (Action.isCall kind q) = 0 := by
  cases h <;> simp [Action.isCall]

namespace Session

/-- **A move keeps the balance**: it is admitted exactly when it enters an attempt, and
records exactly one outcome when it leaves one. -/
theorem Move.slots {s s' : Session} {e : Event} {acts : List Action} (hm : Move s e s' acts)
    (q : Attempt → Bool) :
    acts.countP (Action.isCall isAdmission q) + (s.holds q).toNat
      = acts.countP (Action.isCall isOutcome q) + (s'.holds q).toNat := by
  cases hm with
  | pooled b now socket hp =>
      unfold holds
      rw [usePoint_attempt, hp]
      cases hq : q ⟨s.attempts, b⟩ <;>
        simp [Action.isCall, isAdmission, isOutcome, Point.attempt, hq]
  | connected a socket hp =>
      unfold holds
      rw [usePoint_attempt, hp]
      simp [Action.isCall, Point.attempt]
  | dialing b now hp =>
      cases hq : q ⟨s.attempts, b⟩ <;>
        simp [holds, hp, Action.isCall, isAdmission, isOutcome, Point.attempt, hq]
  | connect_failed a now hp =>
      cases hq : q a <;>
        simp [holds, hp, Action.isCall, isAdmission, isOutcome, Point.attempt, hq]
  | replay_failed a socket rest out c ec now hp =>
      cases hq : q a <;>
        simp [holds, hp, Action.isCall, isAdmission, isOutcome, Point.attempt, hq]
  | succeeded a socket race now hp =>
      cases hq : q a <;>
        simp [holds, hp, Action.isCall, isAdmission, isOutcome, Point.attempt, hq]
  | failed a socket race now hp =>
      cases hq : q a <;>
        simp [holds, hp, Action.isCall, isAdmission, isOutcome, Point.attempt, hq]
  | failed_capped a socket race now hp =>
      cases hq : q a <;>
        simp [holds, hp, Action.isCall, isAdmission, isOutcome, Point.attempt, hq]
  | relayed_up a socket race c p' acts chunk hp hr =>
      rw [hr.isCall, hr.isCall]
      simp [holds, hp, Point.attempt]
  | relayed_down a socket race c p' acts chunk hp hr =>
      rw [hr.isCall, hr.isCall]
      simp [holds, hp, Point.attempt]
  | drained chunk c hp => simp [Action.isCall]
  | _ => simp_all [holds, Action.isCall, isAdmission, isOutcome, Point.attempt]

/-- A session begins to acquire a connection only right after it was admitted. -/
theorem Move.acquire {s s' : Session} {e : Event} {acts : List Action} (hm : Move s e s' acts)
    {a : Attempt} (h : .acquire a ∈ acts) :
    ∃ now, .breaker a (.allow_request now) (some true) ∈ acts := by
  cases hm with
  | dialing b now hp =>
      obtain rfl : a = ⟨s.attempts, b⟩ := by simpa using h
      exact ⟨now, by simp⟩
  | pooled b now socket hp =>
      obtain rfl : a = ⟨s.attempts, b⟩ := by simpa using h
      exact ⟨now, by simp⟩
  | relayed_up a' socket race c p' acts chunk hp hr =>
      generalize race.upstream = up at hr
      cases hr <;> simp at h
  | relayed_down a' socket race c p' acts chunk hp hr =>
      generalize race.downstream = down at hr
      cases hr <;> simp at h
  | _ => simp at h

/-- A move makes at most one call on a breaker. -/
theorem Move.calls_length {s s' : Session} {e : Event} {acts : List Action}
    (hm : Move s e s' acts) (b : ℕ) : (callsOn b acts).length ≤ 1 := by
  have hone : ∀ a call answer, (callsOn b [.breaker a call answer]).length ≤ 1 :=
    fun a call answer => List.length_filterMap_le _ _
  cases hm with
  | skipped b' now hp => exact hone _ _ _
  | dialing b' now hp => exact hone ⟨s.attempts, b'⟩ (.allow_request now) (some true)
  | pooled b' now socket hp => exact hone ⟨s.attempts, b'⟩ (.allow_request now) (some true)
  | connect_failed a now hp => exact hone a (.record_failure now) none
  | replay_failed a socket rest out c ec now hp =>
      exact hone a (.record_failure now) none
  | succeeded a socket race now hp => exact hone a (.record_success now) none
  | failed a socket race now hp => exact hone a (.record_failure now) none
  | failed_capped a socket race now hp =>
      exact hone a (.record_failure now) none
  | relayed_up a socket race c p' acts chunk hp hr =>
      rw [callsOn_eq_nil hr.no_calls]
      exact Nat.zero_le _
  | relayed_down a socket race c p' acts chunk hp hr =>
      rw [callsOn_eq_nil hr.no_calls]
      exact Nat.zero_le _
  | _ => exact Nat.zero_le _

/-- So a breaker has taken no call in a move, or one. -/
theorem Move.calls_cases {s s' : Session} {e : Event} {acts : List Action}
    (hm : Move s e s' acts) (b : ℕ) :
    callsOn b acts = [] ∨ ∃ call answer, callsOn b acts = [(call, answer)] := by
  have hone := hm.calls_length b
  match hcs : callsOn b acts with
  | [] => exact Or.inl rfl
  | [(call, answer)] => exact Or.inr ⟨call, answer, rfl⟩
  | x :: y :: rest =>
      rw [hcs] at hone
      simp at hone

end Session

/-! ## A trial in flight -/

/-- A breaker with `n` requests outstanding: a trial in flight is one of them, and the
breaker is then `HALF_OPEN`. -/
def TrialHeld (cb : CircuitBreaker) (n : ℕ) : Prop :=
  cb.half_open_trial_in_flight_ = true → cb.state_ = .HALF_OPEN ∧ 0 < n

/-- An admission: one request more, perhaps the trial. -/
theorem TrialHeld.admitted {cb : CircuitBreaker} {n : ℕ} (h : TrialHeld cb n) {now : Time}
    (hans : (cb.allow_request now).1 = true) : TrialHeld (cb.allow_request now).2 (n + 1) := by
  intro hfl
  refine ⟨?_, Nat.succ_pos n⟩
  rcases cb.allow_request_cases now with ⟨-, he⟩ | ⟨-, -, he⟩ | ⟨-, -, he⟩ | ⟨-, -, he⟩
    | ⟨hst, -, he⟩ <;> rw [he] at hans hfl ⊢
  · exact (h hfl).1
  · cases hans
  · cases hans
  · exact hst

/-- An outcome takes the flag down: in `HALF_OPEN` because it does, elsewhere because it
was not up. -/
theorem TrialHeld.settled {cb cb' : CircuitBreaker} {n m : ℕ} (h : TrialHeld cb n)
    (hflag : cb'.half_open_trial_in_flight_
      = if cb.state_ = .HALF_OPEN then false else cb.half_open_trial_in_flight_) :
    TrialHeld cb' m := by
  intro hfl
  rw [hflag] at hfl
  by_cases hst : cb.state_ = .HALF_OPEN
  · rw [if_pos hst] at hfl
    cases hfl
  · rw [if_neg hst] at hfl
    exact absurd (h hfl).1 hst

/-- One answered call: the balance of a breaker before and after it. -/
theorem TrialHeld.call {cb cb' : CircuitBreaker} {n n' : ℕ} (h : TrialHeld cb n)
    {call : CircuitBreaker.Call} {answer : Option Bool}
    (hrun : exec CircuitBreaker.callStep cb [call] = some (cb', [(call, answer)]))
    (hbal : n' + (isOutcome (call, answer)).toNat = n + (isAdmission (call, answer)).toNat) :
    TrialHeld cb' n' := by
  obtain ⟨rfl, rfl⟩ : (cb.call call).2 = cb' ∧ (cb.call call).1 = answer := by
    simpa [exec, CircuitBreaker.callStep] using hrun
  cases call with
  | allow_request now =>
      cases hans : (cb.allow_request now).1 with
      | true =>
          obtain rfl : n' = n + 1 := by
            simpa [CircuitBreaker.call, hans, isOutcome, isAdmission] using hbal
          exact h.admitted hans
      | false =>
          obtain rfl : n' = n := by
            simpa [CircuitBreaker.call, hans, isOutcome, isAdmission] using hbal
          rw [show (cb.call (.allow_request now)).2 = (cb.allow_request now).2 from rfl,
            CircuitBreaker.allow_request_refused hans]
          exact h
  | record_success now => exact h.settled cb.record_success_flag
  | record_failure now => exact h.settled (cb.record_failure_flag now)

namespace Proxy

/-! ## No leaked trial slot -/

/-- The calls of `allow_request` on the breaker of `b` that returned `true`. -/
def admissions (b : ℕ) (tr : List (ℕ × Action)) : ℕ := (callsOn b tr).countP isAdmission

/-- The calls of `record_success` and `record_failure` on the breaker of `b`. -/
def outcomes (b : ℕ) (tr : List (ℕ × Action)) : ℕ := (callsOn b tr).countP isOutcome

/-- The sessions between their admission by `b` and the recording of its outcome. -/
def holding (b : ℕ) (p : Proxy) : ℕ := p.sessions.countP (Session.holds (·.backend_index = b))

/-- What session `i` did. -/
def actionsOf (i : ℕ) (tr : List (ℕ × Action)) : List Action :=
  tr.filterMap fun x => if x.1 = i then some x.2 else none

/-- Replacing one session changes a count by that session. -/
theorem countP_set_add {sessions : List Session} {i : ℕ} {s : Session} (s' : Session)
    (q : Session → Bool) (h : sessions[i]? = some s) :
    (sessions.set i s').countP q + (q s).toNat = sessions.countP q + (q s').toNat := by
  obtain ⟨hi, rfl⟩ := List.getElem?_eq_some_iff.mp h
  have hle := List.boole_getElem_le_countP (p := q) hi
  rw [List.countP_set hi]
  simp only [Bool.toNat, Bool.cond_eq_ite]
  omega

/-- The steps that resume no session: they do nothing to the breakers, and a session
they begin is in no attempt. -/
structure Quiet (p p' : Proxy) : Prop where
  breakers : p'.shared.breakers = p.shared.breakers
  clock : p.clock ≤ p'.clock
  sessions : p'.sessions = p.sessions
    ∨ ∃ client_key max_attempts, p'.sessions = p.sessions ++ [Session.start client_key max_attempts]

/-- A step is quiet or a move of one session. -/
theorem step_quiet_or_session {p p' : Proxy} {inp : Input} {out : List (ℕ × Action)}
    (h : p.step inp = some (p', out)) :
    (Quiet p p' ∧ out = [])
    ∨ ∃ i e s s' acts, p.sessions[i]? = some s ∧ Session.Move s e s' acts
        ∧ Effect p.shared p'.clock acts p'.shared ∧ p.clock ≤ p'.clock
        ∧ p'.sessions = p.sessions.set i s' ∧ out = acts.map fun x => (i, x) := by
  rcases step_cases h with ⟨connected, i, rest, -, -, rfl, rfl⟩ | ⟨key, now, -, hle, -, rfl, rfl⟩
    | ⟨now, -, hle, -, rfl, rfl⟩ | ⟨i, now, e, s, shared, s', acts, -, hle, hs, hstep, rfl, rfl⟩
  · refine Or.inl ⟨⟨?_, le_refl _, Or.inl rfl⟩, rfl⟩
    cases connected <;> rfl
  · refine Or.inl ⟨?_, rfl⟩
    rcases p.accept_cases key now with ⟨-, he⟩ | ⟨-, he⟩
    · rw [he]
      exact ⟨rfl, hle, Or.inr ⟨key, p.max_attempts, rfl⟩⟩
    · rw [he]
      exact ⟨rfl, hle, Or.inl rfl⟩
  · exact Or.inl ⟨⟨rfl, hle, Or.inl rfl⟩, rfl⟩
  · exact Or.inr ⟨i, e, s, s', acts, hs, Session.step_move hstep, Session.step_effect hstep, hle,
      rfl, rfl⟩

/-- The number of sessions in an attempt on `b` after a quiet step. -/
theorem Quiet.holding {p p' : Proxy} (h : Quiet p p') (b : ℕ) : p'.holding b = p.holding b := by
  unfold Proxy.holding
  rcases h.sessions with hs | ⟨client_key, max_attempts, hs⟩
  · rw [hs]
  · rw [hs, List.countP_append]
    simp [Session.holds, Session.start, Point.attempt]

/-- The balance of one breaker, and its trial. -/
structure Slots (b : ℕ) (p : Proxy) (tr : List (ℕ × Action)) : Prop where
  balance : admissions b tr = outcomes b tr + p.holding b
  held : TrialHeld (p.shared.breakers b) (p.holding b)

/-- **One step keeps the balance of every breaker.** -/
theorem slots_step {b : ℕ} {p p' : Proxy} {inp : Input} {tr out : List (ℕ × Action)}
    (h : Slots b p tr) (hs : p.step inp = some (p', out)) : Slots b p' (tr ++ out) := by
  rcases step_quiet_or_session hs with ⟨hq, rfl⟩ | ⟨i, e, s, s', acts, hi, hm, heff, -, hset, rfl⟩
  · rw [List.append_nil]
    refine ⟨?_, ?_⟩
    · rw [hq.holding]
      exact h.balance
    · rw [hq.breakers, hq.holding]
      exact h.held
  · have hmove := hm.slots (·.backend_index = b)
    rw [countP_isCall, countP_isCall] at hmove
    have hcount : p'.holding b + (s.holds (·.backend_index = b)).toNat
        = p.holding b + (s'.holds (·.backend_index = b)).toNat := by
      unfold holding
      rw [hset]
      exact countP_set_add s' _ hi
    refine ⟨?_, ?_⟩
    · have hbal := h.balance
      unfold admissions outcomes at hbal ⊢
      rw [callsOn_append, List.countP_append, List.countP_append, callsOn_session]
      omega
    · have hcalls := heff.calls b
      rcases hm.calls_cases b with hcs | ⟨call, answer, hcs⟩
      · rw [hcs] at hcalls hmove
        have hsame : p.shared.breakers b = p'.shared.breakers b := by
          simpa [exec] using hcalls
        have hhold : p'.holding b = p.holding b := by
          rw [List.countP_nil, List.countP_nil] at hmove
          omega
        rw [← hsame, hhold]
        exact h.held
      · rw [hcs] at hcalls hmove
        refine h.held.call hcalls ?_
        rw [List.countP_singleton, List.countP_singleton] at hmove
        simp only [Bool.toNat, Bool.cond_eq_ite] at hmove hcount ⊢
        omega

@[simp] theorem actionsOf_append (i : ℕ) (tr tr' : List (ℕ × Action)) :
    actionsOf i (tr ++ tr') = actionsOf i tr ++ actionsOf i tr' := List.filterMap_append

theorem actionsOf_self (i : ℕ) (acts : List Action) :
    actionsOf i (acts.map fun x => (i, x)) = acts := by
  unfold actionsOf
  rw [List.filterMap_map]
  simp

theorem actionsOf_other {i j : ℕ} (hij : j ≠ i) (acts : List Action) :
    actionsOf i (acts.map fun x => (j, x)) = [] := by
  unfold actionsOf
  rw [List.filterMap_map]
  simp [hij]

/-- Whether session `i` is in an attempt that `q` holds of. -/
def sessionHolds (p : Proxy) (q : Attempt → Bool) (i : ℕ) : Bool :=
  p.sessions[i]?.any (Session.holds q)

/-- Session by session and attempt by attempt: what was admitted is settled, but for the
attempt the session is in. -/
def Settled (p : Proxy) (tr : List (ℕ × Action)) : Prop :=
  ∀ i a, (actionsOf i tr).countP (Action.isCall isAdmission (· = a))
    = (actionsOf i tr).countP (Action.isCall isOutcome (· = a)) + (p.sessionHolds (· = a) i).toNat

/-- A session that has just begun is in no attempt. -/
theorem Quiet.sessionHolds {p p' : Proxy} (h : Quiet p p') (q : Attempt → Bool) (i : ℕ) :
    p'.sessionHolds q i = p.sessionHolds q i := by
  unfold Proxy.sessionHolds
  rcases h.sessions with hs | ⟨client_key, max_attempts, hs⟩
  · rw [hs]
  · rw [hs]
    by_cases hi : i < p.sessions.length
    · rw [List.getElem?_append_left hi]
    · have hnone : p.sessions[i]? = none := List.getElem?_eq_none (by omega)
      rw [List.getElem?_append_right (by omega), hnone]
      cases hk : [Session.start client_key max_attempts][i - p.sessions.length]? with
      | none => rfl
      | some s =>
          obtain rfl := List.mem_singleton.mp (List.mem_of_getElem? hk)
          rfl

/-- A session that has moved is where it has moved to, and the others are where they
were. -/
theorem sessionHolds_set {p p' : Proxy} {j : ℕ} {s s' : Session} (hj : p.sessions[j]? = some s)
    (hset : p'.sessions = p.sessions.set j s') (q : Attempt → Bool) :
    p.sessionHolds q j = s.holds q ∧ p'.sessionHolds q j = s'.holds q
      ∧ ∀ i, i ≠ j → p'.sessionHolds q i = p.sessionHolds q i := by
  have hlt : j < p.sessions.length := (List.getElem?_eq_some_iff.mp hj).1
  unfold sessionHolds
  refine ⟨?_, ?_, ?_⟩
  · rw [hj]
    rfl
  · rw [hset, List.getElem?_set_self hlt]
    rfl
  · intro i hij
    rw [hset, List.getElem?_set_ne (Ne.symm hij)]

/-- **One step keeps every attempt settled.** -/
theorem settled_step {p p' : Proxy} {inp : Input} {tr out : List (ℕ × Action)}
    (h : Settled p tr) (hs : p.step inp = some (p', out)) : Settled p' (tr ++ out) := by
  intro i a
  have hold := h i a
  rcases step_quiet_or_session hs with ⟨hq, rfl⟩ | ⟨j, e, s, s', acts, hj, hm, -, -, hset, rfl⟩
  · rw [List.append_nil, hq.sessionHolds]
    exact hold
  · obtain ⟨hbefore, hafter, hother⟩ := sessionHolds_set hj hset (· = a)
    rw [actionsOf_append, List.countP_append, List.countP_append]
    by_cases hij : j = i
    · subst hij
      have hmove := hm.slots (· = a)
      rw [actionsOf_self, hafter]
      rw [hbefore] at hold
      omega
    · -- the other sessions have done nothing
      rw [actionsOf_other hij, hother i (Ne.symm hij), List.countP_nil, List.countP_nil]
      omega

/-- A breaker with nothing outstanding admits the next request, unless it is cooling
down. -/
theorem allow_request_of_none {cb : CircuitBreaker} (h : TrialHeld cb 0) (now : Time) :
    (cb.allow_request now).1 = true
      ∨ cb.state_ = .OPEN ∧ now < cb.opened_at_ + cb.cooldown := by
  rcases cb.allow_request_cases now with ⟨-, he⟩ | ⟨hst, hlt, -⟩ | ⟨-, -, he⟩ | ⟨-, hfl, -⟩
    | ⟨-, -, he⟩
  · exact Or.inl (by rw [he])
  · exact Or.inr ⟨hst, hlt⟩
  · exact Or.inl (by rw [he])
  · exact absurd (h hfl).2 (Nat.lt_irrefl 0)
  · exact Or.inl (by rw [he])

/-- **No leaked trial slot.** In every state of every run of the process, on the breaker
of every backend `b`: admissions less outcomes are the sessions in an attempt on `b`,
and so for every attempt of every session; a trial in flight means `HALF_OPEN` and a
session in an attempt on `b`; and if there is none, the next request is admitted unless
the breaker is cooling down. -/
theorem no_leaked_trial (backend_count num_vnodes : ℕ)
    (failure_threshold success_threshold cooldown_period : ℤ) (min_pool_size : ℕ → ℕ)
    (limiter : RateLimiter) (max_attempts : ℤ) (clock : Time) (ins : List Input) (p : Proxy)
    (tr : List (ℕ × Action))
    (h : exec step (boot (.new backend_count num_vnodes failure_threshold success_threshold
      cooldown_period min_pool_size) limiter max_attempts clock) ins = some (p, tr)) (b : ℕ) :
    (admissions b tr : ℤ) - outcomes b tr = p.holding b
    ∧ (∀ i a, (actionsOf i tr).countP (Action.isCall isAdmission (· = a))
        = (actionsOf i tr).countP (Action.isCall isOutcome (· = a)) + (p.sessionHolds (· = a) i).toNat)
    ∧ ((p.shared.breakers b).half_open_trial_in_flight_ = true →
        (p.shared.breakers b).state_ = .HALF_OPEN ∧ 0 < p.holding b)
    ∧ (p.holding b = 0 → ∀ now, ((p.shared.breakers b).allow_request now).1 = true
        ∨ (p.shared.breakers b).state_ = .OPEN
          ∧ now < (p.shared.breakers b).opened_at_ + (p.shared.breakers b).cooldown) := by
  obtain ⟨hslots, hsettled⟩ := exec_invariant
    (I := fun p tr => Slots b p tr ∧ Settled p tr)
    (fun p tr i p' out hs he => ⟨slots_step hs.1 he, settled_step hs.2 he⟩)
    ⟨⟨rfl, by intro hfl; cases hfl⟩, fun _ _ => rfl⟩ h
  refine ⟨?_, hsettled, hslots.held, ?_⟩
  · have hbal := hslots.balance
    omega
  · intro hnone now
    apply allow_request_of_none
    rw [← hnone]
    exact hslots.held

/-- One backend whose breaker opens on the first failure. -/
def oneBackend : Proxy := boot (.new 1 1 1 1 5000 fun _ => 0) (.new 10 20 1 (by decide)) 3 0

/-- The first session fails to connect; after the cooldown the second holds the trial. -/
theorem no_leaked_trial_second_session :
    ∃ p tr, exec step oneBackend
        [.accept [] 0, .accept [49] 0, .session 0 1 .resume, .session 0 2 .connect_failed,
          .session 1 5000000002 .resume] = some (p, tr)
      ∧ (p.shared.breakers 0).state_ = .HALF_OPEN ∧ 0 < p.holding 0
      ∧ (admissions 0 tr : ℤ) - outcomes 0 tr = p.holding 0 := by
  refine ⟨_, _, rfl, ?_⟩
  have hall := no_leaked_trial 1 1 1 1 5000 (fun _ => 0) (.new 10 20 1 (by decide)) 3 0
    [.accept [] 0, .accept [49] 0, .session 0 1 .resume, .session 0 2 .connect_failed,
      .session 1 5000000002 .resume] _ _ rfl 0
  have htrial := hall.2.2.1 rfl
  exact ⟨htrial.1, htrial.2, hall.1⟩

/-! ## The cooldown window -/

/-- A step that opens the breaker of `b` opens it at the time of the step. -/
theorem openSince_step {b : ℕ} {p p' : Proxy} {inp : Input} {out : List (ℕ × Action)}
    (h : p.step inp = some (p', out)) (hst : (p.shared.breakers b).state_ ≠ .OPEN)
    (hopen : (p'.shared.breakers b).state_ = .OPEN) :
    CircuitBreaker.OpenSince (p'.shared.breakers b) p'.clock (p.shared.breakers b).cooldown := by
  rcases step_quiet_or_session h with ⟨hq, rfl⟩ | ⟨i, e, s, s', acts, -, hm, heff, -, -, rfl⟩
  · rw [hq.breakers] at hopen
    exact absurd hopen hst
  · have hcalls := heff.calls b
    rcases hm.calls_cases b with hcs | ⟨call, answer, hcs⟩
    · rw [hcs] at hcalls
      have hsame : p.shared.breakers b = p'.shared.breakers b := by simpa [exec] using hcalls
      rw [hsame] at hst
      exact absurd hopen hst
    · -- the one call is what opened it, and it was made at the time of the step
      obtain ⟨a, -, hx⟩ := mem_callsOn.mp (by rw [hcs]; exact List.mem_singleton_self _)
      rw [hcs] at hcalls
      have hcall : ((p.shared.breakers b).call call).2 = p'.shared.breakers b := by
        have hboth := hcalls
        simp only [exec, CircuitBreaker.callStep, List.map_cons, List.map_nil,
          Option.some.injEq, Prod.mk.injEq] at hboth
        exact hboth.1
      rw [← hcall] at hopen ⊢
      rw [← heff.times a call answer hx]
      exact CircuitBreaker.openSince_enter hst hopen

/-- The calls of a run are made by the time it ends. -/
theorem call_time_le {p p' : Proxy} {ins : List Input} {tr : List (ℕ × Action)}
    (h : exec step p ins = some (p', tr)) :
    ∀ i a call answer, (i, .breaker a call answer) ∈ tr → call.time ≤ p'.clock := by
  have hinv := exec_invariant
    (I := fun (p : Proxy) tr =>
      ∀ i a call answer, (i, Action.breaker a call answer) ∈ tr → call.time ≤ p.clock)
    (fun p tr inp p' out hs he => by
      intro i a call answer hx
      rcases step_quiet_or_session he with ⟨hq, rfl⟩ | ⟨j, e, s, s', acts, -, -, heff, hle, -, rfl⟩
      · rw [List.append_nil] at hx
        exact le_trans (hs i a call answer hx) hq.clock
      · rcases List.mem_append.mp hx with hx | hx
        · exact le_trans (hs i a call answer hx) hle
        · obtain ⟨x, hx, hix⟩ := List.mem_map.mp hx
          cases hix
          exact le_of_eq (heff.times a call answer hx))
    (by intro i a call answer hx; cases hx) h
  exact hinv

/-- A session that begins to acquire a connection to `b` was admitted by its breaker. -/
theorem acquire_admitted {p p' : Proxy} {ins : List Input} {tr : List (ℕ × Action)}
    (h : exec step p ins = some (p', tr)) :
    ∀ i a, (i, .acquire a) ∈ tr →
      ∃ now, (i, .breaker a (.allow_request now) (some true)) ∈ tr := by
  have hinv := exec_invariant
    (I := fun (_ : Proxy) (tr : List (ℕ × Action)) => ∀ i a, (i, .acquire a) ∈ tr →
      ∃ now, (i, .breaker a (.allow_request now) (some true)) ∈ tr)
    (fun p tr inp p' out hs he => by
      intro i a hx
      rcases List.mem_append.mp hx with hx | hx
      · obtain ⟨now, hadm⟩ := hs i a hx
        exact ⟨now, List.mem_append_left _ hadm⟩
      · rcases step_quiet_or_session he with ⟨-, rfl⟩ | ⟨j, e, s, s', acts, -, hm, -, -, -, rfl⟩
        · cases hx
        · obtain ⟨x, hx, hix⟩ := List.mem_map.mp hx
          cases hix
          obtain ⟨now, hadm⟩ := hm.acquire hx
          exact ⟨now, List.mem_append_right _ (List.mem_map.mpr ⟨_, hadm, rfl⟩)⟩)
    (by intro i a hx; cases hx) h
  exact hinv

/-- A breaker keeps the cooldown it was built with. -/
theorem cooldown_period_run {p p' : Proxy} {ins : List Input} {tr : List (ℕ × Action)}
    (h : exec step p ins = some (p', tr)) (b : ℕ) :
    (p'.shared.breakers b).cooldown_period_ = (p.shared.breakers b).cooldown_period_ := by
  have hinv := exec_invariant
    (I := fun cb _ => cb.cooldown_period_ = (p.shared.breakers b).cooldown_period_)
    (fun cb tr c cb' out hs he => by
      cases he
      exact (cb.call_cooldown_period c).trans hs)
    rfl (run_breakers h b)
  exact hinv

/-- And so its cooldown is the period it was built with, if that fits. -/
theorem cooldown_run {p p' : Proxy} {ins : List Input} {tr : List (ℕ × Action)}
    (h : exec step p ins = some (p', tr)) {b : ℕ} {cooldown_period : ℤ}
    (hperiod : (p.shared.breakers b).cooldown_period_ = cooldown_period)
    (hfit : CircuitBreaker.TicksFit cooldown_period) :
    (p'.shared.breakers b).cooldown = cooldown_period * 1000000 := by
  have hkept := (cooldown_period_run h b).trans hperiod
  rw [CircuitBreaker.cooldown_eq (by rw [hkept]; exact hfit), hkept]

/-- No session asks the breaker of `b` for admission at `t` or later. -/
def AskedBefore (b : ℕ) (t : Time) (tr : List (ℕ × Action)) : Prop :=
  ∀ now answer, (.allow_request now, answer) ∈ callsOn b tr → now < t

/-- Up to the end of the window nobody has asked after it. -/
theorem askedBefore_of_clock {p p' : Proxy} {ins : List Input} {tr : List (ℕ × Action)}
    {b : ℕ} {t : Time} (h : exec step p ins = some (p', tr)) (ht : p'.clock < t) :
    AskedBefore b t tr := by
  intro now answer hmem
  obtain ⟨a, -, hx⟩ := mem_callsOn.mp hmem
  obtain ⟨⟨i, x⟩, hx, rfl⟩ := List.mem_map.mp hx
  exact lt_of_le_of_lt (call_time_le h i a _ answer hx) ht

/-- The window of one breaker, through a run of the process. -/
theorem openSince_run {p p' : Proxy} {ins : List Input} {tr : List (ℕ × Action)} {b : ℕ}
    {t₀ : Time} {d : ℤ} (h : exec step p ins = some (p', tr))
    (hopen : CircuitBreaker.OpenSince (p.shared.breakers b) t₀ d)
    (hask : AskedBefore b (t₀ + d) tr) :
    CircuitBreaker.OpenSince (p'.shared.breakers b) t₀ d
      ∧ (∀ now answer, (.allow_request now, answer) ∈ callsOn b tr → answer = some false) := by
  refine CircuitBreaker.openSince_calls hopen ?_ (run_breakers h b)
  intro c hc
  obtain ⟨⟨c', answer⟩, hmem, rfl⟩ := List.mem_map.mp hc
  cases c' with
  | allow_request now => exact hask now answer hmem
  | record_success now => trivial
  | record_failure now => trivial

/-- **Cooldown isolation.** Let a breaker enter `OPEN` at time `t₀`, by any call or in any
step of any run of the process. Then through whatever follows, as long as nobody asks
for admission at `t₀ + cooldown_period` or later -- and so in particular at every time
before that -- it is `OPEN`, `opened_at_` is `t₀`, every `allow_request` has returned
`false`, and no session has begun to acquire a connection to that backend. The next
`allow_request` is admitted if and only if it comes at `t₀ + cooldown_period` or later.
The nanoseconds of the period have to fit 64 bits, or the code compares with something
else. -/
theorem cooldown_isolation (backend_count num_vnodes : ℕ)
    (failure_threshold success_threshold cooldown_period : ℤ) (min_pool_size : ℕ → ℕ)
    (limiter : RateLimiter) (max_attempts : ℤ) (clock : Time)
    (hfit : CircuitBreaker.TicksFit cooldown_period) :
    (∀ (cb cb' : CircuitBreaker) (c : CircuitBreaker.Call) (cs : List CircuitBreaker.Call)
      (outs : List (CircuitBreaker.Call × Option Bool)),
      cb.cooldown_period_ = cooldown_period →
      cb.state_ ≠ .OPEN → (cb.call c).2.state_ = .OPEN →
      exec CircuitBreaker.callStep (cb.call c).2 cs = some (cb', outs) →
      (∀ c' ∈ cs, c'.asksBefore (c.time + cooldown_period * 1000000)) →
      cb'.state_ = .OPEN ∧ cb'.opened_at_ = c.time
        ∧ (∀ now answer, (.allow_request now, answer) ∈ outs → answer = some false)
        ∧ ∀ now, (cb'.allow_request now).1 = true
          ↔ c.time + cooldown_period * 1000000 ≤ now)
    ∧ (∀ (ins : List Input) (p : Proxy) (tr : List (ℕ × Action)) (inp : Input) (p₁ : Proxy)
      (out : List (ℕ × Action)) (ins' : List Input) (p₂ : Proxy) (tr' : List (ℕ × Action)) (b : ℕ),
      exec step (boot (.new backend_count num_vnodes failure_threshold success_threshold
        cooldown_period min_pool_size) limiter max_attempts clock) ins = some (p, tr) →
      p.step inp = some (p₁, out) →
      (p.shared.breakers b).state_ ≠ .OPEN → (p₁.shared.breakers b).state_ = .OPEN →
      exec step p₁ ins' = some (p₂, tr') →
      (p₂.clock < p₁.clock + cooldown_period * 1000000 →
        AskedBefore b (p₁.clock + cooldown_period * 1000000) tr')
      ∧ (AskedBefore b (p₁.clock + cooldown_period * 1000000) tr' →
        (p₂.shared.breakers b).state_ = .OPEN ∧ (p₂.shared.breakers b).opened_at_ = p₁.clock
        ∧ (∀ now answer, (.allow_request now, answer) ∈ callsOn b tr' → answer = some false)
        ∧ (∀ i a, (i, .acquire a) ∈ tr' → a.backend_index ≠ b)
        ∧ ∀ now, ((p₂.shared.breakers b).allow_request now).1 = true
          ↔ p₁.clock + cooldown_period * 1000000 ≤ now)) := by
  refine ⟨?_, ?_⟩
  · intro cb cb' c cs outs hperiod hst hopen hrun hcs
    have hsince := CircuitBreaker.openSince_enter hst hopen
    rw [CircuitBreaker.cooldown_eq (by rw [hperiod]; exact hfit), hperiod] at hsince
    obtain ⟨hsince', hrefused⟩ := CircuitBreaker.openSince_calls hsince hcs hrun
    exact ⟨hsince'.state, hsince'.opened_at, hrefused,
      CircuitBreaker.openSince_allow_request hsince'⟩
  · intro ins p tr inp p₁ out ins' p₂ tr' b hrun hstep hst hopen hrun'
    refine ⟨askedBefore_of_clock hrun', ?_⟩
    intro hask
    have hsince := openSince_step hstep hst hopen
    rw [cooldown_run hrun rfl hfit] at hsince
    obtain ⟨hsince', hrefused⟩ := openSince_run hrun' hsince hask
    refine ⟨hsince'.state, hsince'.opened_at, hrefused, ?_,
      CircuitBreaker.openSince_allow_request hsince'⟩
    -- a session that began to acquire would have been admitted
    intro i a hx hb
    obtain ⟨now, hadm⟩ := acquire_admitted hrun' i a hx
    have hcall : (.allow_request now, some true) ∈ callsOn b tr' :=
      mem_callsOn.mpr ⟨a, hb, List.mem_map.mpr ⟨_, hadm, rfl⟩⟩
    have hfalse := hrefused now (some true) hcall
    cases hfalse

/-- The breaker opens at time `2`; the second session asks at time `3` and is refused. -/
theorem cooldown_isolation_second_session :
    ∃ p tr, exec step oneBackend
        [.accept [] 0, .accept [49] 0, .session 0 1 .resume, .session 0 2 .connect_failed,
          .session 1 3 .resume] = some (p, tr)
      ∧ (p.shared.breakers 0).state_ = .OPEN ∧ (p.shared.breakers 0).opened_at_ = 2 := by
  refine ⟨_, _, rfl, ?_⟩
  have hall := (cooldown_isolation 1 1 1 1 5000 (fun _ => 0) (.new 10 20 1 (by decide)) 3 0
    (by decide)).2
    [.accept [] 0, .accept [49] 0, .session 0 1 .resume] _ _ (.session 0 2 .connect_failed) _ _
    [.session 1 3 .resume] _ _ 0 rfl rfl (by decide +kernel) rfl rfl
  have hopen := hall.2 (hall.1 (by decide +kernel))
  exact ⟨hopen.1, hopen.2.1⟩

end Proxy

end AegisProxy
