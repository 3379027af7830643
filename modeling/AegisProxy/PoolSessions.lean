/-
The sessions of the process use the pool by its contract.

`PoolUsers.lean` argues about callers of one pool. Here every run of the process is shown
to be a run of those: `warm_up`'s connects, then callers that join, acquire, wait, and give
back what they have. Each session is one caller (`Session.holder`), with the pool of the
process as the pool. So the books of the pool are in order in every state of the process,
and its `active_count` counts the sessions with a socket.

The sessions are callers of a special kind: `handle_client` releases every socket as
unhealthy. So no socket comes back to a free list, none is handed out twice, and no two
clients ever share a connection to a backend (`client_isolation`).
-/
import AegisProxy.PoolUsers
import AegisProxy.SessionRuns

set_option autoImplicit false

namespace AegisProxy

open Runs

/-! ## A session is a caller -/

/-- What a session is to the pool. -/
def Session.holder (s : Session) : Holder :=
  match s.point with
  | .acquiring a => .connecting a.backend_index
  | .replaying a socket _ => .holding a.backend_index socket
  | .relaying a socket _ => .holding a.backend_index socket
  | _ => .idle

/-- The socket an action says was acquired. -/
def Action.acquiredSocket : Action → Option ℕ
  | .acquired _ socket => some socket
  | _ => none

namespace Session

theorem holder_use (s : Session) (a : Attempt) (socket : ℕ) :
    ({ s with point := s.usePoint a socket } : Session).holder
      = .holding a.backend_index socket := by
  unfold holder usePoint
  by_cases hbuf : s.req_buf.data = []
  · rw [if_pos hbuf]
  · rw [if_neg hbuf]

/-- A session with a socket is the holder of it. -/
theorem holder_of_socket {s : Session} {socket : ℕ} (hsock : s.point.socket = some socket) :
    ∃ a, s.point.attempt = some a ∧ s.holder = .holding a.backend_index socket := by
  unfold holder
  cases hp : s.point with
  | replaying a k rest =>
      rw [hp] at hsock
      cases hsock
      exact ⟨a, rfl, rfl⟩
  | relaying a k race =>
      rw [hp] at hsock
      cases hsock
      exact ⟨a, rfl, rfl⟩
  | _ => simp [hp, Point.socket] at hsock

theorem holder_of_settled {s : Session} (hset : s.point.settled = true) : s.holder = .idle := by
  unfold holder
  cases hp : s.point with
  | responding rest => rfl
  | draining => rfl
  | finished => rfl
  | _ => simp [hp, Point.settled] at hset

/-- The session is between a successful `acquire(i)` and its release. -/
def uses (i : ℕ) (s : Session) : Bool :=
  s.point.socket.isSome && s.point.attempt.any (·.backend_index = i)

/-- `handle_client` has returned, or an exception has ended it. -/
def ended (s : Session) : Bool := s.point = .finished ∨ s.point = .threw

theorem uses_of_ended {i : ℕ} {s : Session} (h : s.ended = true) : s.uses i = false := by
  unfold uses
  rcases of_decide_eq_true h with hp | hp
  · rw [hp]
    rfl
  · rw [hp]
    rfl

/-- Moving bytes is nothing to the pool. -/
theorem Wire.holder {s s' : Session} {acts : List Action} (hw : Wire s s' acts) :
    s'.holder = s.holder := by
  rcases hw.somewhere with hsome | hset
  · obtain ⟨socket, hsock⟩ := Option.ne_none_iff_exists'.mp hsome
    obtain ⟨a, hat, hhold⟩ := holder_of_socket hsock
    obtain ⟨a', hat', hhold'⟩ := holder_of_socket (hw.socket.trans hsock)
    rw [hw.attempt, hat] at hat'
    cases hat'
    rw [hhold, hhold']
  · rw [holder_of_settled hset, holder_of_settled (hw.settled.trans hset)]

/-- From `u` to `u'` by calls that neither warm up nor recycle and that hand out what `acts`
says was acquired. -/
def Uses (u u' : PoolUsers) (acts : List Action) : Prop :=
  ∃ ops notes, exec PoolUsers.step u ops = some (u', notes)
    ∧ (∀ op ∈ ops, op.recycles = false ∧ op.warms = false)
    ∧ PoolUsers.handedSockets notes = acts.filterMap Action.acquiredSocket

theorem Uses.one {u u' : PoolUsers} {acts : List Action} (op : PoolUsers.Input)
    (notes : List PoolUsers.Note) (hstep : u.step op = some (u', notes))
    (hop : op.recycles = false ∧ op.warms = false)
    (hacts : PoolUsers.handedSockets notes = acts.filterMap Action.acquiredSocket) :
    Uses u u' acts := by
  refine ⟨[op], notes, exec_singleton hstep, ?_, hacts⟩
  intro op' hop'
  rw [List.mem_singleton.mp hop']
  exact hop

/-- **A piece of `handle_client` is at most one call on the pool**, and one that neither
warms up nor recycles. -/
theorem Piece.users {sh sh' : Shared} {now : Time} {s s' : Session} {acts : List Action}
    (hpc : Piece sh now s sh' s' acts) {hs : List Holder} {h : ℕ}
    (hh : hs[h]? = some s.holder) :
    Uses ⟨sh.pool, hs⟩ ⟨sh'.pool, hs.set h s'.holder⟩ acts := by
  have hquiet : sh'.pool = sh.pool → s'.holder = s.holder →
      acts.filterMap Action.acquiredSocket = [] →
      Uses ⟨sh.pool, hs⟩ ⟨sh'.pool, hs.set h s'.holder⟩ acts := by
    intro hpool hholder hacts
    refine ⟨[], [], ?_, by simp, hacts.symm⟩
    have hset : hs.set h s.holder = hs := by
      obtain ⟨hlt, hget⟩ := List.getElem?_eq_some_iff.mp hh
      rw [← hget]
      exact List.set_getElem_self hlt
    rw [hpool, hholder, hset]
    rfl
  -- every release of a session drops the socket
  have hdrop : ∀ a socket, s.holder = .holding a socket →
      sh'.pool = sh.pool.release a socket false true → s'.holder = .idle →
      acts.filterMap Action.acquiredSocket = [] →
      Uses ⟨sh.pool, hs⟩ ⟨sh'.pool, hs.set h s'.holder⟩ acts := by
    intro a socket hhold hpool hidle hacts
    rw [hhold] at hh
    refine Uses.one (.release h false true) [.closed socket] ?_ ⟨rfl, rfl⟩
      hacts.symm
    simp only [PoolUsers.step, hh, hpool, hidle]
    rfl
  cases hpc with
  | gave_up hp => exact hquiet rfl (by simp [holder, hp]) rfl
  | threw b hp => exact hquiet rfl (by simp [holder, hp]) rfl
  | skipped b hp => exact hquiet rfl (by simp [holder, hp]) rfl
  | dialing b hp hlt hring hb hans hfree =>
      rw [show s.holder = .idle by simp [holder, hp]] at hh
      refine Uses.one (.acquire h b) [] ?_ ⟨rfl, rfl⟩ rfl
      simp only [PoolUsers.step, hh, hfree]
      rfl
  | pooled b socket pool hp hlt hring hb hans hfree =>
      rw [show s.holder = .idle by simp [holder, hp]] at hh
      refine Uses.one (.acquire h b) [.handed h b socket] ?_ ⟨rfl, rfl⟩ rfl
      simp only [PoolUsers.step, hh, hfree, holder_use]
      rfl
  | connected a hp =>
      rw [show s.holder = .connecting a.backend_index by simp [holder, hp]] at hh
      refine Uses.one (.connected h) [.connected a.backend_index
        sh.pool.next_socket, .handed h a.backend_index sh.pool.next_socket] ?_ ⟨rfl, rfl⟩ rfl
      simp only [PoolUsers.step, hh, holder_use]
      rfl
  | connect_failed a hp =>
      rw [show s.holder = .connecting a.backend_index by simp [holder, hp]] at hh
      refine Uses.one (.connect_failed h) [] ?_ ⟨rfl, rfl⟩ rfl
      simp only [PoolUsers.step, hh]
      rfl
  | replay_failed a socket rest out ec hp =>
      exact hdrop a.backend_index socket (by simp [holder, hp]) rfl rfl rfl
  | succeeded a socket race hp =>
      exact hdrop a.backend_index socket (by simp [holder, hp]) rfl rfl rfl
  | failed a socket race hp =>
      exact hdrop a.backend_index socket (by simp [holder, hp]) rfl rfl rfl
  | failed_capped a socket race hp =>
      exact hdrop a.backend_index socket (by simp [holder, hp]) rfl rfl rfl
  | wire s' acts hw =>
      refine hquiet rfl hw.holder ?_
      rw [List.filterMap_eq_nil_iff]
      intro x hx
      have hwire := hw.acts x hx
      cases x with
      | acquired a socket => cases hwire
      | _ => rfl

end Session

/-! ## The process is callers of its pool -/

namespace Proxy

/-- The pool of the process and its sessions. -/
def users (p : Proxy) : PoolUsers where
  pool := p.shared.pool
  holders := p.sessions.map Session.holder

/-- The sockets the sessions acquired, in order. -/
def handed (tr : List (ℕ × Action)) : List ℕ := tr.filterMap fun x => x.2.acquiredSocket

theorem handed_append (tr tr' : List (ℕ × Action)) :
    handed (tr ++ tr') = handed tr ++ handed tr' := List.filterMap_append

theorem handed_session (i : ℕ) (acts : List Action) :
    handed (acts.map fun x => (i, x)) = acts.filterMap Action.acquiredSocket := by
  unfold handed
  rw [List.filterMap_map]
  rfl

/-- **A step of the process is a run of the callers.** It recycles nothing, and after
`warm_up` it only hands out and drops. -/
theorem step_users {p p' : Proxy} {inp : Input} {out : List (ℕ × Action)}
    (h : p.step inp = some (p', out)) :
    ∃ ops notes, exec PoolUsers.step p.users ops = some (p'.users, notes)
      ∧ (∀ op ∈ ops, op.recycles = false) ∧ (p.warming = [] → ∀ op ∈ ops, op.warms = false)
      ∧ PoolUsers.handedSockets notes = handed out := by
  rcases step_cases h with ⟨connected, i, rest, -, hwarm, rfl, rfl⟩ | ⟨key, now, -, -, -, rfl, rfl⟩
    | ⟨now, -, -, -, rfl, rfl⟩ | ⟨i, now, e, s, shared, s', acts, -, -, hs, hstep, rfl, rfl⟩
  · refine ⟨[.warm_up i connected], if connected then [.connected i p.shared.pool.next_socket]
      else [], exec_singleton ?_, by simp [PoolUsers.Input.recycles], ?_, ?_⟩
    · cases connected with
      | true => rfl
      | false => rfl
    · intro hnil
      rw [hwarm] at hnil
      cases hnil
    · cases connected with
      | true => rfl
      | false => rfl
  · rcases p.accept_cases key now with ⟨-, he⟩ | ⟨-, he⟩
    · refine ⟨[.join], [], exec_singleton ?_, by simp [PoolUsers.Input.recycles],
        by simp [PoolUsers.Input.warms], rfl⟩
      rw [he, users, users, List.map_append]
      rfl
    · rw [he]
      exact ⟨[], [], rfl, by simp, by simp, rfl⟩
  · exact ⟨[], [], rfl, by simp, by simp, rfl⟩
  · have hh : p.users.holders[i]? = some s.holder := by
      rw [users, List.getElem?_map, hs]
      rfl
    obtain ⟨ops, notes, hrun, hops, hnotes⟩ := (Session.step_piece hstep).users hh
    refine ⟨ops, notes, ?_, fun op hop => (hops op hop).1, fun _ op hop => (hops op hop).2, ?_⟩
    · rw [users, users, List.map_set]
      exact hrun
    · rw [handed_session]
      exact hnotes

/-- **A run of the process is a run of the callers that recycles nothing.** -/
theorem run_users {p q : Proxy} {ins : List Input} {tr : List (ℕ × Action)}
    (h : exec step p ins = some (q, tr)) :
    ∃ ops notes, exec PoolUsers.step p.users ops = some (q.users, notes)
      ∧ (∀ op ∈ ops, op.recycles = false) ∧ PoolUsers.handedSockets notes = handed tr := by
  refine exec_invariant (I := fun q tr => ∃ ops notes,
      exec PoolUsers.step p.users ops = some (q.users, notes)
      ∧ (∀ op ∈ ops, op.recycles = false) ∧ PoolUsers.handedSockets notes = handed tr)
    ?_ ⟨[], [], rfl, by simp, rfl⟩ h
  rintro q tr i q' out ⟨ops, notes, hrun, hops, hnotes⟩ hstep
  obtain ⟨ops', notes', hrun', hops', -, hnotes'⟩ := step_users hstep
  refine ⟨ops ++ ops', notes ++ notes', exec_append_iff.mpr ⟨_, _, _, hrun, hrun', rfl⟩, ?_, ?_⟩
  · intro op hop
    rcases List.mem_append.mp hop with hop | hop
    · exact hops op hop
    · exact hops' op hop
  · rw [PoolUsers.handedSockets_append, handed_append, hnotes, hnotes']

/-! ## No shared connections -/

theorem step_warming {p p' : Proxy} {inp : Input} {out : List (ℕ × Action)}
    (h : p.step inp = some (p', out)) (hwarm : p.warming = []) : p'.warming = [] := by
  rcases step_cases h with ⟨connected, i, rest, -, hrest, -, -⟩ | ⟨key, now, -, -, -, rfl, -⟩
    | ⟨now, -, -, -, rfl, -⟩ | ⟨i, now, e, s, shared, s', acts, -, -, -, -, rfl, -⟩
  · rw [hwarm] at hrest
    cases hrest
  · rcases p.accept_cases key now with ⟨-, he⟩ | ⟨-, he⟩
    · rw [he]
      exact hwarm
    · rw [he]
      exact hwarm
  · exact hwarm
  · exact hwarm

/-- Once `warm_up` is done, no free list grows. -/
theorem idle_count_run {p q : Proxy} {ins : List Input} {tr : List (ℕ × Action)}
    (hwarm : p.warming = []) (h : exec step p ins = some (q, tr)) (b : ℕ) :
    q.shared.pool.idle_count b ≤ p.shared.pool.idle_count b := by
  have hinv := exec_invariant
    (I := fun q _ => q.warming = [] ∧ q.shared.pool.idle_count b ≤ p.shared.pool.idle_count b)
    ?_ ⟨hwarm, Int.le_refl _⟩ h
  · exact hinv.2
  · rintro r tr inp r' out ⟨hnil, hle⟩ hstep
    obtain ⟨ops, notes, hrun, hrec, hno, -⟩ := step_users hstep
    have hidle := PoolUsers.idle_count_run (fun op hop => ⟨hrec op hop, hno hnil op hop⟩) hrun b
    exact ⟨step_warming hstep hnil, Int.le_trans hidle hle⟩

/-- Two entries with one socket, in a trace that has each socket once, are one entry. -/
theorem acquired_unique {tr : List (ℕ × Action)} (h : (handed tr).Nodup) {i j : ℕ} {a b : Attempt}
    {socket : ℕ} (hi : (i, .acquired a socket) ∈ tr) (hj : (j, .acquired b socket) ∈ tr) :
    i = j ∧ a = b := by
  unfold handed at h
  rw [List.nodup_iff_pairwise_ne, List.pairwise_filterMap, List.pairwise_iff_getElem] at h
  obtain ⟨m, hm, hgetm⟩ := List.getElem_of_mem hi
  obtain ⟨n, hn, hgetn⟩ := List.getElem_of_mem hj
  rcases Nat.lt_trichotomy m n with hlt | rfl | hlt
  · exact absurd rfl (h m n hm hn hlt socket (by rw [hgetm]; rfl) socket (by rw [hgetn]; rfl))
  · rw [hgetm] at hgetn
    cases hgetn
    exact ⟨rfl, rfl⟩
  · exact absurd rfl (h n m hn hm hlt socket (by rw [hgetn]; rfl) socket (by rw [hgetm]; rfl))

/-- A session reads and writes a backend on the one socket it acquired for it. -/
theorem backend_socket {p₀ p : Proxy} (hnone : p₀.sessions = []) {ins : List Input}
    {tr : List (ℕ × Action)} (h : exec step p₀ ins = some (p, tr)) {i : ℕ} {x : Action}
    {a : Attempt} (hx : (i, x) ∈ tr) (hwire : x.isWire = true) (ha : x.attempt = some a) :
    ∃ socket, (i, .acquired a socket) ∈ tr
      ∧ ∀ socket', (i, .acquired a socket') ∈ tr → socket' = socket := by
  have hsep := session_run hnone h
  have hmem := mem_actionsOf.mpr hx
  cases hi : p.sessions[i]? with
  | none =>
      rw [hsep.others i hi] at hmem
      cases hmem
  | some s =>
      obtain ⟨client_key, ins', hrun, -⟩ := hsep.sessions i s hi
      have howns := Session.owns_run hrun
      obtain ⟨socket, hacq⟩ := howns.wires x hmem hwire a ha
      refine ⟨socket, mem_actionsOf.mp hacq, ?_⟩
      intro socket' hacq'
      exact howns.once a socket' socket (mem_actionsOf.mpr hacq') hacq

/-- **Client isolation.** In every run of the process, with `warm_up` first and any
interleaving of any number of sessions after it:

1. `acquire` hands every socket out at most once, so to one session and in one attempt of
   it;
2. whatever a session reads from a backend or writes to one goes over the one socket it
   acquired in that attempt, and that socket was handed to nobody else;
3. once `warm_up` is done, no free list grows again. -/
theorem client_isolation (backend_count num_vnodes : ℕ)
    (failure_threshold success_threshold cooldown_period : ℤ) (min_pool_size : ℕ → ℕ)
    (limiter : RateLimiter) (max_attempts : ℤ) (clock : Time) (ins : List Input) (p : Proxy)
    (tr : List (ℕ × Action))
    (h : exec step (boot (.new backend_count num_vnodes failure_threshold success_threshold
      cooldown_period min_pool_size) limiter max_attempts clock) ins = some (p, tr)) :
    ((handed tr).Nodup
      ∧ ∀ i j a b socket, (i, .acquired a socket) ∈ tr → (j, .acquired b socket) ∈ tr →
        i = j ∧ a = b)
    ∧ (∀ i x a, (i, x) ∈ tr → x.isWire = true → x.attempt = some a →
      ∃ socket, (i, .acquired a socket) ∈ tr
        ∧ (∀ socket', (i, .acquired a socket') ∈ tr → socket' = socket)
        ∧ ∀ j b, (j, .acquired b socket) ∈ tr → j = i ∧ b = a)
    ∧ (p.warming = [] → ∀ more q tr', exec step p more = some (q, tr') →
      ∀ b, q.shared.pool.idle_count b ≤ p.shared.pool.idle_count b) := by
  obtain ⟨ops, notes, hrun, hrec, hnotes⟩ := run_users h
  change exec PoolUsers.step (.new min_pool_size) ops = _ at hrun
  have honce := (PoolUsers.handedOnce_run hrec hrun).once
  rw [hnotes] at honce
  refine ⟨⟨honce, fun i j a b socket hi hj => acquired_unique honce hi hj⟩, ?_, ?_⟩
  · intro i x a hx hwire ha
    obtain ⟨socket, hacq, hsame⟩ := backend_socket rfl h hx hwire ha
    exact ⟨socket, hacq, hsame, fun j b hj => acquired_unique honce hj hacq⟩
  · intro hwarm more q tr' hmore b
    exact idle_count_run hwarm hmore b

/-- One backend with one warm connection. -/
def oneWarm : Proxy := boot (.new 1 1 5 2 5000 fun _ => 1) (.new 10 20 1 Nat.one_pos) 3 0

/-- The first client gets the warm connection and the second a new one, on which it sends its
request. -/
theorem client_isolation_two_clients :
    ∃ p tr, exec step oneWarm
        [.warm_up true, .accept [] 0, .accept [49] 0, .session 0 1 .resume, .session 1 1 .resume,
          .session 1 2 .connected, .session 1 3 (.relay .upstream (.read_some [71])),
          .session 1 4 (.relay .upstream (.wrote_some 1))] = some (p, tr)
      ∧ handed tr = [0, 1] ∧ (handed tr).Nodup
      ∧ ∃ socket, (1, .acquired ⟨0, 0⟩ socket) ∈ tr
        ∧ ∀ j b, (j, .acquired b socket) ∈ tr → j = 1 ∧ b = ⟨0, 0⟩ := by
  refine ⟨_, _, rfl, by decide +kernel, ?_⟩
  obtain ⟨⟨hnodup, -⟩, hbytes, -⟩ := client_isolation 1 1 5 2 5000 (fun _ => 1)
    (.new 10 20 1 (by decide)) 3 0
    [.warm_up true, .accept [] 0, .accept [49] 0, .session 0 1 .resume, .session 1 1 .resume,
      .session 1 2 .connected, .session 1 3 (.relay .upstream (.read_some [71])),
      .session 1 4 (.relay .upstream (.wrote_some 1))] _ _ rfl
  obtain ⟨socket, hacq, -, honly⟩ := hbytes 1 (.sent (.backend ⟨0, 0⟩) [71]) ⟨0, 0⟩
    (by decide +kernel) rfl rfl
  exact ⟨hnodup, socket, hacq, honly⟩

/-! ## The books of the pool -/

theorem socketOf_holder (i : ℕ) (s : Session) : (s.holder.socketOf i).isSome = s.uses i := by
  unfold Session.holder Session.uses
  cases hp : s.point with
  | replaying a socket rest =>
      by_cases hb : a.backend_index = i <;>
        simp [Holder.socketOf, Point.socket, Point.attempt, hb]
  | relaying a socket race =>
      by_cases hb : a.backend_index = i <;>
        simp [Holder.socketOf, Point.socket, Point.attempt, hb]
  | _ => rfl

/-- The sockets of `i` that sessions have are as many as the sessions that have one. -/
theorem held_users (p : Proxy) (i : ℕ) :
    (p.users.held i).length = p.sessions.countP (Session.uses i) := by
  rw [PoolUsers.held, users, List.filterMap_map, List.length_filterMap_eq_countP]
  congr 1
  funext s
  exact socketOf_holder i s

/-- **Pool conservation.** For a pool with any number of callers and any interleaving of
their calls, of connects that succeed and fail, of releases of either kind, and of the
connects of `warm_up`, in every state:

1. a live socket is in one place, a position in a free list or a caller, and what is in a
   place is live;
2. a socket was connected for one backend, and is handed out for that one only;
3. `active_count` and `idle_count` are the numbers of sockets that callers have and that are
   free, and neither half of an `acquire` that fails changes the pool.

The sessions of the process are such callers, so in every state of every run of it
`active_count(i)` is the number of sessions between a successful `acquire(i)` and their
release, and zero when all sessions have ended. -/
theorem pool_conservation :
    (∀ (min_pool_size : ℕ → ℕ) (ops : List PoolUsers.Input) (u : PoolUsers)
      (notes : List PoolUsers.Note),
      exec PoolUsers.step (.new min_pool_size) ops = some (u, notes) →
      ((∀ i socket, PoolUsers.Live notes i socket → ∃! place, u.At socket place)
        ∧ ∀ socket place, u.At socket place → ∃ i, PoolUsers.Live notes i socket)
      ∧ (∀ i socket, .connected i socket ∈ notes →
        (∀ j, .connected j socket ∈ notes → j = i)
        ∧ ∀ h j, .handed h j socket ∈ notes → j = i)
      ∧ (∀ i, (∃ taken : Finset ℕ,
          (∀ socket, socket ∈ taken ↔ ∃ h : ℕ, u.holders[h]? = some (.holding i socket))
          ∧ u.pool.active_count i = taken.card)
        ∧ ∃ free : Finset ℕ, (∀ socket, socket ∈ free ↔ ∃ k, u.At socket (.free i k))
          ∧ u.pool.idle_count i = free.card)
      ∧ ∀ h i u' out, (u.step (.acquire h i) = some (u', []) → u'.pool = u.pool)
        ∧ (u.step (.connect_failed h) = some (u', out) → u'.pool = u.pool))
    ∧ (∀ (backend_count num_vnodes : ℕ) (failure_threshold success_threshold cooldown_period : ℤ)
      (min_pool_size : ℕ → ℕ) (limiter : RateLimiter) (max_attempts : ℤ) (clock : Time)
      (ins : List Input) (p : Proxy) (tr : List (ℕ × Action)),
      exec step (boot (.new backend_count num_vnodes failure_threshold success_threshold
        cooldown_period min_pool_size) limiter max_attempts clock) ins = some (p, tr) →
      (∃ ops notes, exec PoolUsers.step (.new min_pool_size) ops = some (p.users, notes))
      ∧ ∀ i, p.shared.pool.active_count i = p.sessions.countP (Session.uses i)
        ∧ ((∀ s ∈ p.sessions, s.ended = true) → p.shared.pool.active_count i = 0)) := by
  refine ⟨?_, ?_⟩
  · intro min_pool_size ops u notes h
    have hc := PoolUsers.conserved_run h
    refine ⟨⟨fun i socket hlive => hc.place hlive, fun socket place hat => hc.live hat⟩,
      ?_, ?_, fun _ _ _ _ => PoolUsers.pool_of_failed_acquire⟩
    · intro i socket hconn
      refine ⟨fun j hj => hc.origin j i socket hj hconn, fun h j hh => ?_⟩
      exact hc.origin j i socket (hc.handed h j socket hh) hconn
    · intro i
      refine ⟨⟨_, ?_, hc.active_card i⟩, ⟨_, ?_, hc.idle_card i⟩⟩
      · intro socket
        rw [List.mem_toFinset, PoolUsers.mem_held]
      · intro socket
        rw [List.mem_toFinset, List.mem_iff_getElem?]
        rfl
  · intro backend_count num_vnodes failure_threshold success_threshold cooldown_period
      min_pool_size limiter max_attempts clock ins p tr h
    obtain ⟨ops, notes, hrun, -, -⟩ := run_users h
    change exec PoolUsers.step (.new min_pool_size) ops = _ at hrun
    have hactive : ∀ i, p.shared.pool.active_count i = p.sessions.countP (Session.uses i) := by
      intro i
      rw [← held_users]
      exact (PoolUsers.conserved_run hrun).active i
    refine ⟨⟨ops, notes, hrun⟩, fun i => ⟨hactive i, ?_⟩⟩
    intro hended
    rw [hactive, Nat.cast_eq_zero, List.countP_eq_zero]
    intro s hs
    simp [Session.uses_of_ended (hended s hs)]

/-- Two callers, the first with the warm socket, which it gives back, the second with a new
one. -/
def takeAndGive : List PoolUsers.Input :=
  [.warm_up 0 true, .join, .join, .acquire 0 0, .acquire 1 0, .connected 1, .release 0 true true]

/-- The first socket is in one place, and it is live; and two sessions of a process that have
a socket each are two for `active_count`. -/
theorem pool_conservation_two_callers :
    (∃ u notes, exec PoolUsers.step (.new fun _ => 1) takeAndGive = some (u, notes)
      ∧ PoolUsers.Live notes 0 0 ∧ (∃! place, u.At 0 place) ∧ u.At 0 (.free 0 0)
      ∧ u.At 1 (.held 1))
    ∧ ∃ p tr, exec step oneWarm
        [.warm_up true, .accept [] 0, .accept [49] 0, .session 0 1 .resume, .session 1 1 .resume,
          .session 1 2 .connected] = some (p, tr)
      ∧ p.shared.pool.active_count 0 = p.sessions.countP (Session.uses 0)
      ∧ p.shared.pool.active_count 0 = 2 := by
  obtain ⟨hall, hproxy⟩ := pool_conservation
  refine ⟨⟨_, _, rfl, ?_⟩, ⟨_, _, rfl, ?_, by decide +kernel⟩⟩
  · obtain ⟨⟨hplace, -⟩, -⟩ := hall (fun _ => 1) takeAndGive _ _ rfl
    exact ⟨⟨by decide, by decide⟩, hplace 0 0 ⟨by decide, by decide⟩, rfl, 0, rfl⟩
  · exact ((hproxy 1 1 5 2 5000 (fun _ => 1) (.new 10 20 1 (by decide)) 3 0
      [.warm_up true, .accept [] 0, .accept [49] 0, .session 0 1 .resume, .session 1 1 .resume,
        .session 1 2 .connected] _ _ rfl).2 0).1

end Proxy

end AegisProxy
