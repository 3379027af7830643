/-
`session.cpp`: `handle_client`, one client connection from its first statement to
its last.

The coroutine runs without suspending from one `co_await` to the next, so a session
is the point where it is suspended (`Point`), its locals, and a step that resumes it.
One point is not a suspension: `loop`, the head of the attempt loop. A step from there
is one turn of the loop up to its first `co_await`. Turns are separate steps because
each reads the clock.

What a session shares with the others -- ring, breakers, pool, metrics -- is `Shared`,
passed in and out of every step. A step taken from any `Shared` at all is what a
session sees when everything else in the process is arbitrary; the results about one
session's bytes are stated over those runs (`Session.solo`), and the proxy in
`Proxy.lean` threads one `Shared` through all its sessions.

`breakers.at(i)` throws when `i` is out of range, and nothing in `handle_client`
catches it; the session is then over (`threw`). In `main` the ring, the breakers, the
pool and the metrics are built for the same backends. What a step logs is in
`SessionLog.lean`; no step depends on it.
-/
import AegisProxy.ConnectionPool
import AegisProxy.HashRing
import AegisProxy.Lib.Runs
import AegisProxy.Metrics
import AegisProxy.Relay

set_option autoImplicit false

namespace AegisProxy

/-! ## What sessions share -/

/-- The objects every session works on. `backend_count` is the size of `breakers`
and of the per-backend vectors. -/
structure Shared where
  backend_count : ℕ
  ring : HashRing
  breakers : ℕ → CircuitBreaker
  pool : ConnectionPool
  metrics : MetricsRegistry

namespace Shared

/-- What `main` builds for its backends: each of them in the ring, a breaker each, an
empty pool and zeroed metrics. -/
def new (backend_count num_vnodes_per_backend : ℕ)
    (failure_threshold success_threshold cooldown_period : ℤ) (min_pool_size : ℕ → ℕ) :
    Shared where
  backend_count := backend_count
  ring := (List.range backend_count).foldl HashRing.add_backend (.new num_vnodes_per_backend)
  breakers := fun _ => .new failure_threshold success_threshold cooldown_period
  pool := .new min_pool_size
  metrics := .new

/-- A breaker is replaced, and `set_breaker_state` told. -/
def setBreaker (sh : Shared) (b : ℕ) (cb : CircuitBreaker) : Shared :=
  { sh with
    breakers := Function.update sh.breakers b cb
    metrics := sh.metrics.set_breaker_state b cb.state.toInt }

/-- `metrics.set_pool_active(..); metrics.set_pool_idle(..);` with the pool's
counts. -/
def gaugePool (sh : Shared) (b : ℕ) : Shared :=
  { sh with
    metrics := (sh.metrics.set_pool_active b (sh.pool.active_count b)).set_pool_idle b
      (sh.pool.idle_count b) }

end Shared

/-! ## The session -/

/-- The response `send_status` builds. -/
def status_response (code : ℕ) (reason body : Bytes) : Bytes :=
  ascii "HTTP/1.1 " ++ to_string code ++ ascii " " ++ reason ++ ascii "\r\n"
    ++ ascii "Content-Type: text/plain\r\n"
    ++ ascii "Content-Length: " ++ to_string body.length ++ ascii "\r\n"
    ++ ascii "Connection: close\r\n" ++ ascii "\r\n" ++ body

/-- The 503 `handle_client` ends with. -/
def unavailable : Bytes :=
  status_response 503 (ascii "Service Unavailable") (ascii "All backends unavailable\n")

/-- Where a session is. `loop` is the head of the attempt loop; `acquiring` is the
`connect` inside `pool.acquire`; `replaying` is the write of `req_buf.data`;
`relaying` is the race; `responding` and `draining` are the two parts of
`send_status`. -/
inductive Point
  | loop
  | acquiring (a : Attempt)
  | replaying (a : Attempt) (socket : ℕ) (rest : Bytes)
  | relaying (a : Attempt) (socket : ℕ) (race : Race)
  | responding (rest : Bytes)
  | draining
  | finished
  | threw
  deriving DecidableEq, Repr

/-- The arguments and locals of `handle_client` that outlive a suspension. -/
structure Session where
  client_key : Bytes
  max_attempts : ℤ
  excluded : Finset ℕ
  req_buf : RequestBuffer
  attempts : ℕ
  point : Point

/-- What resumes a session. -/
inductive Event
  | resume
  | connected
  | connect_failed
  | io (c : Completion)
  | relay (leg : Leg) (c : Completion)
  deriving DecidableEq, Repr

namespace Session

/-- `handle_client` entered, at the head of its loop. -/
def start (client_key : Bytes) (max_attempts : ℤ) : Session where
  client_key := client_key
  max_attempts := max_attempts
  excluded := ∅
  req_buf := .new
  attempts := 0
  point := .loop

/-- `excluded.insert(..); ++attempts; continue;` -/
def retry (s : Session) (b : ℕ) : Session :=
  { s with
    excluded := insert b s.excluded
    attempts := s.attempts + 1
    point := .loop }

/-- Past the loop: `record_fallback_503`, then the 503 is written. -/
def give_up (sh : Shared) (s : Session) : Shared × Session × List Action :=
  ({ sh with metrics := sh.metrics.record_fallback_503 },
    { s with point := .responding unavailable },
    [.fallback_503])

/-- `breaker.record_failure(); metrics.record_backend_failure(..);
metrics.set_breaker_state(..);` -/
def record_failure (sh : Shared) (now : Time) (a : Attempt) : Shared × List Action :=
  let b := a.backend_index
  ({ sh with metrics := sh.metrics.record_backend_failure b }.setBreaker b
      ((sh.breakers b).record_failure now),
    [.breaker a (.record_failure now) none])

/-- `breaker.record_success(); metrics.record_backend_success(..);
metrics.set_breaker_state(..);` -/
def record_success (sh : Shared) (now : Time) (a : Attempt) : Shared × List Action :=
  let b := a.backend_index
  ({ sh with metrics := sh.metrics.record_backend_success b }.setBreaker b
      (sh.breakers b).record_success,
    [.breaker a (.record_success now) none])

/-- From a socket in hand to the next suspension: the pool gauges, then the replay of
what the client has already sent, or the race at once if that is nothing. -/
def use (sh : Shared) (s : Session) (a : Attempt) (socket : ℕ) : Shared × Session × List Action :=
  (sh.gaugePool a.backend_index,
    { s with
      point :=
        if s.req_buf.data = [] then .relaying a socket .start
        else .replaying a socket s.req_buf.data },
    [.acquired a socket])

/-- One turn of the attempt loop, up to its first suspension. The breaker gauge is
set before `allow_request`, from the state the breaker has then. -/
def iterate (sh : Shared) (now : Time) (s : Session) : Shared × Session × List Action :=
  if (s.attempts : ℤ) < s.max_attempts then
    match sh.ring.get_backend_excluding s.client_key s.excluded with
    | none => give_up sh s
    | some b =>
      -- `breakers.at(..)` out of range
      if sh.backend_count ≤ b then (sh, { s with point := .threw }, [])
      else
        let a : Attempt := ⟨s.attempts, b⟩
        let answer := (sh.breakers b).allow_request now
        let sh := { sh with
          breakers := Function.update sh.breakers b answer.2
          metrics := sh.metrics.set_breaker_state b (sh.breakers b).state.toInt }
        let called : Action := .breaker a (.allow_request now) (some answer.1)
        -- `breaker_skip`
        if answer.1 = false then (sh, s.retry b, [called])
        else
          -- a pooled socket is in hand at once; otherwise `connect` is awaited
          let got := sh.pool.acquire b
          match got.1 with
          | none => ({ sh with pool := got.2 }, { s with point := .acquiring a },
              [called, .acquire a])
          | some socket =>
            let used := use { sh with pool := got.2 } s a socket
            (used.1, used.2.1, [called, .acquire a] ++ used.2.2)
  else give_up sh s

/-- `pool.acquire` threw. -/
def connectFailed (sh : Shared) (now : Time) (s : Session) (a : Attempt) :
    Shared × Session × List Action :=
  let recorded := record_failure sh now a
  (recorded.1, s.retry a.backend_index, [.connect_failed a] ++ recorded.2)

/-- `connect` succeeded. -/
def connected (sh : Shared) (s : Session) (a : Attempt) : Shared × Session × List Action :=
  let got := sh.pool.acquire_connected a.backend_index
  use { sh with pool := got.2 } s a got.1

/-- The replay failed: the outcome is recorded, the socket released unhealthy. -/
def replayFailed (sh : Shared) (now : Time) (s : Session) (a : Attempt) (socket : ℕ) :
    Shared × Session × List Action :=
  let recorded := record_failure sh now a
  ({ recorded.1 with
      pool := recorded.1.pool.release a.backend_index socket false true },
    s.retry a.backend_index, recorded.2 ++ [.released a socket])

/-- From the end of the race to the next suspension: the socket is released, and the
flag decides between success, another turn of the loop, and giving up because the
request no longer fits the buffer. -/
def raceOver (sh : Shared) (now : Time) (s : Session) (a : Attempt) (socket : ℕ)
    (response_started : Bool) : Shared × Session × List Action :=
  let b := a.backend_index
  let sh := { sh with pool := sh.pool.release b socket false true }.gaugePool b
  if response_started then
    -- the client already has data: this connection is done, win or lose
    let recorded := record_success sh now a
    (recorded.1, { s with point := .finished }, [.released a socket] ++ recorded.2)
  else
    let recorded := record_failure sh now a
    -- `retry_abandoned_buffer_capped`: a replay would be a truncated request
    if s.req_buf.capped then
      let ended := give_up recorded.1 (s.retry b)
      (ended.1, ended.2.1, [.released a socket] ++ recorded.2 ++ ended.2.2)
    else (recorded.1, s.retry b, [.released a socket] ++ recorded.2)

/-- `handle_client`, resumed. An event that is not the completion of what the session
awaits is refused. -/
def step (sh : Shared) (now : Time) (s : Session) (e : Event) :
    Option (Shared × Session × List Action) :=
  match s.point, e with
  | .loop, .resume => some (iterate sh now s)
  -- `co_await pool.acquire(..)`, and its `catch`
  | .acquiring a, .connected => some (connected sh s a)
  | .acquiring a, .connect_failed => some (connectFailed sh now s a)
  -- the write of `req_buf.data`; nothing cancels it
  | .replaying a socket rest, .io c =>
    match async_write false rest c with
    | none => none
    | some (out, .pending rest') =>
      some (sh, { s with point := .replaying a socket rest' }, [.sent (.backend a) out])
    | some (out, .done) =>
      some (sh, { s with point := .relaying a socket .start }, [.sent (.backend a) out])
    | some (out, .error ec) =>
      let failed := replayFailed sh now s a socket
      some (failed.1, failed.2.1,
        [.sent (.backend a) out, .write_failed (.backend a) ec] ++ failed.2.2)
  -- the race, until both relays have returned
  | .relaying a socket race, .relay leg c =>
    match race.resume a s.req_buf leg c with
    | none => none
    | some (race', buf', acts) =>
      some (sh, { s with req_buf := buf', point := .relaying a socket race' }, acts)
  | .relaying a socket race, .resume =>
    if race.over then some (raceOver sh now s a socket race.response_started) else none
  -- `send_status`: an error of the write is not looked at
  | .responding rest, .io c =>
    match async_write false rest c with
    | none => none
    | some (out, .pending rest') =>
      some (sh, { s with point := .responding rest' }, [.sent .client out])
    | some (out, .done) => some (sh, { s with point := .draining }, [.sent .client out])
    | some (out, .error ec) =>
      some (sh, { s with point := .draining }, [.sent .client out, .write_failed .client ec])
  -- `send_status`: what the client still sends is discarded until it ends
  | .draining, .io c =>
    match async_read_some 512 false c with
    | none => none
    | some (.ok chunk) => some (sh, s, [.received .client chunk])
    | some (.error ec) => some (sh, { s with point := .finished }, [.read_failed .client ec])
  | _, _ => none

/-! ## One session among arbitrary others -/

/-- What one step of a session sees: the shared objects as the rest of the process has
left them, the clock, and the event. -/
structure Input where
  shared : Shared
  now : Time
  event : Event

/-- One session with everything around it arbitrary. -/
def solo (s : Session) (i : Input) : Option (Session × List Action) :=
  match s.step i.shared i.now i.event with
  | none => none
  | some (_, s', acts) => some (s', acts)

/-! ## What a step can do

One constructor for each way out of each point, with what the session becomes and
what it did. The shared objects only decide which of them is taken. -/

/-- Where a session with a socket in hand goes. -/
def usePoint (s : Session) (a : Attempt) (socket : ℕ) : Point :=
  if s.req_buf.data = [] then .relaying a socket .start
  else .replaying a socket s.req_buf.data

inductive Move (s : Session) : Event → Session → List Action → Prop
  -- a turn of the loop
  | gave_up (hp : s.point = .loop) :
      Move s .resume { s with point := .responding unavailable } [.fallback_503]
  | threw (hp : s.point = .loop) : Move s .resume { s with point := .threw } []
  | skipped (b : ℕ) (now : Time) (hp : s.point = .loop) :
      Move s .resume (s.retry b)
        [.breaker ⟨s.attempts, b⟩ (.allow_request now) (some false)]
  | dialing (b : ℕ) (now : Time) (hp : s.point = .loop) :
      Move s .resume { s with point := .acquiring ⟨s.attempts, b⟩ }
        [.breaker ⟨s.attempts, b⟩ (.allow_request now) (some true), .acquire ⟨s.attempts, b⟩]
  | pooled (b : ℕ) (now : Time) (socket : ℕ) (hp : s.point = .loop) :
      Move s .resume { s with point := s.usePoint ⟨s.attempts, b⟩ socket }
        [.breaker ⟨s.attempts, b⟩ (.allow_request now) (some true), .acquire ⟨s.attempts, b⟩,
          .acquired ⟨s.attempts, b⟩ socket]
  -- the connect
  | connected (a : Attempt) (socket : ℕ) (hp : s.point = .acquiring a) :
      Move s .connected { s with point := s.usePoint a socket } [.acquired a socket]
  | connect_failed (a : Attempt) (now : Time) (hp : s.point = .acquiring a) :
      Move s .connect_failed (s.retry a.backend_index)
        [.connect_failed a, .breaker a (.record_failure now) none]
  -- the replay
  | replayed (a : Attempt) (socket : ℕ) (rest out rest' : Bytes) (c : Completion)
      (hp : s.point = .replaying a socket rest) (hsplit : out ++ rest' = rest)
      (hrest : rest' ≠ []) :
      Move s (.io c) { s with point := .replaying a socket rest' } [.sent (.backend a) out]
  | replay_done (a : Attempt) (socket : ℕ) (rest : Bytes) (c : Completion)
      (hp : s.point = .replaying a socket rest) :
      Move s (.io c) { s with point := .relaying a socket .start } [.sent (.backend a) rest]
  | replay_failed (a : Attempt) (socket : ℕ) (rest out : Bytes) (c : Completion) (ec : ErrorCode)
      (now : Time) (hp : s.point = .replaying a socket rest) (hout : out <+: rest)
      (hec : ec ≠ .operation_aborted) :
      Move s (.io c) (s.retry a.backend_index)
        [.sent (.backend a) out, .write_failed (.backend a) ec,
          .breaker a (.record_failure now) none, .released a socket]
  -- the race: one of the relays moves
  | relayed_up (a : Attempt) (socket : ℕ) (race : Race) (c : Completion) (p' : RelayPoint)
      (acts : List Action) (chunk : Option Bytes) (hp : s.point = .relaying a socket race)
      (hr : RelayMove .client (.backend a) (race.downstream = .returned) race.upstream c p' acts
        chunk) :
      Move s (.relay .upstream c)
        { s with
          req_buf := s.req_buf.capture chunk
          point := .relaying a socket { race with upstream := p' } } acts
  | relayed_down (a : Attempt) (socket : ℕ) (race : Race) (c : Completion) (p' : RelayPoint)
      (acts : List Action) (chunk : Option Bytes) (hp : s.point = .relaying a socket race)
      (hr : RelayMove (.backend a) .client (race.upstream = .returned) race.downstream c p' acts
        chunk) :
      Move s (.relay .downstream c)
        { s with
          point := .relaying a socket { race with
            downstream := p'
            response_started := race.response_started || chunk.isSome } } acts
  -- the race is over
  | succeeded (a : Attempt) (socket : ℕ) (race : Race) (now : Time)
      (hp : s.point = .relaying a socket race) (hup : race.upstream = .returned)
      (hdown : race.downstream = .returned) (hstarted : race.response_started = true) :
      Move s .resume { s with point := .finished }
        [.released a socket, .breaker a (.record_success now) none]
  | failed (a : Attempt) (socket : ℕ) (race : Race) (now : Time)
      (hp : s.point = .relaying a socket race) (hup : race.upstream = .returned)
      (hdown : race.downstream = .returned) (hstarted : race.response_started = false)
      (hcap : s.req_buf.capped = false) :
      Move s .resume (s.retry a.backend_index)
        [.released a socket, .breaker a (.record_failure now) none]
  | failed_capped (a : Attempt) (socket : ℕ) (race : Race) (now : Time)
      (hp : s.point = .relaying a socket race) (hup : race.upstream = .returned)
      (hdown : race.downstream = .returned) (hstarted : race.response_started = false)
      (hcap : s.req_buf.capped = true) :
      Move s .resume { s.retry a.backend_index with point := .responding unavailable }
        [.released a socket, .breaker a (.record_failure now) none, .fallback_503]
  -- the 503, and the rest of the client's bytes
  | responded (rest out rest' : Bytes) (c : Completion) (hp : s.point = .responding rest)
      (hsplit : out ++ rest' = rest) :
      Move s (.io c) { s with point := .responding rest' } [.sent .client out]
  | respond_done (rest : Bytes) (c : Completion) (hp : s.point = .responding rest) :
      Move s (.io c) { s with point := .draining } [.sent .client rest]
  | respond_failed (rest out : Bytes) (c : Completion) (ec : ErrorCode)
      (hp : s.point = .responding rest) (hout : out <+: rest) :
      Move s (.io c) { s with point := .draining } [.sent .client out, .write_failed .client ec]
  | drained (chunk : Bytes) (c : Completion) (hp : s.point = .draining) :
      Move s (.io c) s [.received .client chunk]
  | closed (ec : ErrorCode) (c : Completion) (hp : s.point = .draining) :
      Move s (.io c) { s with point := .finished } [.read_failed .client ec]

/-- A turn of the loop is one of the first five moves. -/
theorem iterate_move (sh : Shared) (now : Time) (s : Session) (hp : s.point = .loop) :
    Move s .resume (iterate sh now s).2.1 (iterate sh now s).2.2 := by
  unfold iterate
  by_cases hatt : (s.attempts : ℤ) < s.max_attempts
  · rw [if_pos hatt]
    cases hring : sh.ring.get_backend_excluding s.client_key s.excluded with
    | none => exact .gave_up hp
    | some b =>
        dsimp only
        by_cases hb : sh.backend_count ≤ b
        · rw [if_pos hb]
          exact .threw hp
        · rw [if_neg hb]
          by_cases hans : ((sh.breakers b).allow_request now).1 = false
          · rw [if_pos hans, hans]
            exact .skipped b now hp
          · rw [if_neg hans]
            have htrue : ((sh.breakers b).allow_request now).1 = true := by simpa using hans
            rw [htrue]
            cases hgot : (sh.pool.acquire b).1 with
            | none => exact .dialing b now hp
            | some socket => exact .pooled b now socket hp
  · rw [if_neg hatt]
    exact .gave_up hp

/-- The end of a race is one of its three moves. -/
theorem raceOver_move (sh : Shared) (now : Time) (s : Session) (a : Attempt) (socket : ℕ)
    (race : Race) (hp : s.point = .relaying a socket race) (hover : race.over = true) :
    Move s .resume (raceOver sh now s a socket race.response_started).2.1
      (raceOver sh now s a socket race.response_started).2.2 := by
  obtain ⟨hup, hdown⟩ : race.upstream = .returned ∧ race.downstream = .returned := by
    simpa [Race.over] using hover
  unfold raceOver
  cases hst : race.response_started with
  | true => exact .succeeded a socket race now hp hup hdown hst
  | false =>
      cases hcap : s.req_buf.capped with
      | true => exact .failed_capped a socket race now hp hup hdown hst hcap
      | false => exact .failed a socket race now hp hup hdown hst hcap

/-- Resuming a relay of the race is one of its two moves. -/
theorem resume_move {s : Session} {a : Attempt} {socket : ℕ} {race race' : Race} {leg : Leg}
    {c : Completion} {buf' : RequestBuffer} {acts : List Action}
    (hp : s.point = .relaying a socket race)
    (h : race.resume a s.req_buf leg c = some (race', buf', acts)) :
    Move s (.relay leg c) { s with req_buf := buf', point := .relaying a socket race' } acts := by
  cases leg with
  | upstream =>
      simp only [Race.resume] at h
      split at h
      · cases h
      · rename_i res hres
        cases h
        exact .relayed_up a socket race c res.point res.actions res.chunk hp (relay_move hres)
  | downstream =>
      simp only [Race.resume] at h
      split at h
      · cases h
      · rename_i res hres
        cases h
        exact .relayed_down a socket race c res.point res.actions res.chunk hp (relay_move hres)

/-- **Every step is a move.** -/
theorem step_move {sh sh' : Shared} {now : Time} {s s' : Session} {e : Event}
    {acts : List Action} (h : s.step sh now e = some (sh', s', acts)) : Move s e s' acts := by
  -- one bullet for each line of `step`
  unfold step at h
  split at h
  · rename_i hp
    have hturn := iterate_move sh now s hp
    rw [Option.some.inj h] at hturn
    exact hturn
  · rename_i a hp
    cases h
    exact .connected a _ hp
  · rename_i a hp
    cases h
    exact .connect_failed a now hp
  · rename_i a socket rest c hp
    split at h
    · cases h
    · rename_i out rest' hw
      cases h
      rcases async_write_spec hw with ⟨r, hr, hsplit, hrest, -⟩ | ⟨hr, -⟩ | ⟨ec, hr, -⟩ <;> cases hr
      exact .replayed a socket rest out rest' c hp hsplit hrest
    · rename_i out hw
      cases h
      rcases async_write_spec hw with ⟨r, hr, -⟩ | ⟨-, rfl⟩ | ⟨ec, hr, -⟩
      · cases hr
      · exact .replay_done a socket out c hp
      · cases hr
    · rename_i out ec hw
      cases h
      rcases async_write_spec hw with ⟨r, hr, -⟩ | ⟨hr, -⟩ | ⟨ec', hr, hout, -, hec⟩ <;> cases hr
      -- nothing cancels the replay, so its error is the backend's
      refine .replay_failed a socket rest out c ec now hp hout ?_
      exact fun hab => absurd (hec hab) (by decide)
  · rename_i a socket race leg c hp
    split at h
    · cases h
    · rename_i race' buf' acts' hr
      cases h
      exact resume_move hp hr
  · rename_i a socket race hp
    split at h
    · rename_i hover
      have hend := raceOver_move sh now s a socket race hp hover
      rw [Option.some.inj h] at hend
      exact hend
    · cases h
  · rename_i rest c hp
    split at h
    · cases h
    · rename_i out rest' hw
      cases h
      rcases async_write_spec hw with ⟨r, hr, hsplit, -⟩ | ⟨hr, -⟩ | ⟨ec, hr, -⟩ <;> cases hr
      exact .responded rest out rest' c hp hsplit
    · rename_i out hw
      cases h
      rcases async_write_spec hw with ⟨r, hr, -⟩ | ⟨-, rfl⟩ | ⟨ec, hr, -⟩
      · cases hr
      · exact .respond_done out c hp
      · cases hr
    · rename_i out ec hw
      cases h
      rcases async_write_spec hw with ⟨r, hr, -⟩ | ⟨hr, -⟩ | ⟨ec', hr, hout, -⟩ <;> cases hr
      exact .respond_failed rest out c ec hp hout
  · rename_i c hp
    split at h
    · cases h
    · rename_i chunk hr
      cases h
      exact .drained chunk c hp
    · rename_i ec hr
      cases h
      exact .closed ec c hp
  · cases h

theorem solo_move {s s' : Session} {i : Input} {acts : List Action}
    (h : solo s i = some (s', acts)) : Move s i.event s' acts := by
  unfold solo at h
  split at h
  · cases h
  · rename_i sh' s'' acts' hs
    cases h
    exact step_move hs

end Session

end AegisProxy
