/-
The pieces `handle_client` is made of, from one suspension to the next.

`Move` says what a step makes of the session and `Effect` what it does to the breakers.
A `Piece` says both at once and why it was taken: the session and the shared objects
before and after, what was emitted, and the tests of the source that led there. The
results about the attempt loop, the pool and the counters are case analyses over it.

What only moves bytes is one piece, `wire`: it leaves the shared objects alone and the
session in the attempt it is in.
-/
import AegisProxy.RingLookup
import AegisProxy.Streams

set_option autoImplicit false

namespace AegisProxy

/-! ## Where a session stands -/

/-- The connection a session has in hand. -/
def Point.socket : Point → Option ℕ
  | .replaying _ socket _ => some socket
  | .relaying _ socket _ => some socket
  | _ => none

/-- The session has its outcome: a response was relayed or a 503 is on its way. -/
def Point.settled : Point → Bool
  | .responding _ => true
  | .draining => true
  | .finished => true
  | _ => false

/-- No byte of the client has been read in the attempt the session is in. -/
def Point.beforeRace : Point → Bool
  | .loop => true
  | .acquiring _ => true
  | .replaying _ _ _ => true
  | _ => false

/-- The action is a read or a write of a socket. -/
def Action.isWire : Action → Bool
  | .received _ _ => true
  | .read_failed _ _ => true
  | .sent _ _ => true
  | .write_failed _ _ => true
  | _ => false

namespace Shared

/-- The breaker of `b` was asked, after its gauge was set from the state it had. -/
def asked (sh : Shared) (now : Time) (b : ℕ) : Shared :=
  { sh with
    breakers := Function.update sh.breakers b ((sh.breakers b).allow_request now).2
    metrics := sh.metrics.set_breaker_state b (sh.breakers b).state.toInt }

/-- A used socket of `b` was released and the pool gauges set. -/
def released (sh : Shared) (b socket : ℕ) : Shared :=
  { sh with pool := sh.pool.release b socket false true }.gaugePool b

end Shared

namespace Session

theorem usePoint_socket (s : Session) (a : Attempt) (socket : ℕ) :
    (s.usePoint a socket).socket = some socket := by
  unfold usePoint
  split <;> rfl

theorem usePoint_settled (s : Session) (a : Attempt) (socket : ℕ) :
    (s.usePoint a socket).settled = false := by
  unfold usePoint
  split <;> rfl

/-- What moving bytes leaves of a session. -/
structure Wire (s s' : Session) (acts : List Action) : Prop where
  client_key : s'.client_key = s.client_key
  max_attempts : s'.max_attempts = s.max_attempts
  excluded : s'.excluded = s.excluded
  attempts : s'.attempts = s.attempts
  attempt : s'.point.attempt = s.point.attempt
  socket : s'.point.socket = s.point.socket
  settled : s'.point.settled = s.point.settled
  somewhere : s.point.socket ≠ none ∨ s.point.settled = true
  beforeRace : s'.point.beforeRace = true → s.point.beforeRace = true ∧ s'.req_buf = s.req_buf
  capped : s.req_buf.capped = true → s'.req_buf.capped = true
  acts : ∀ x ∈ acts, x.isWire = true

/-- One piece of `handle_client`. -/
inductive Piece (sh : Shared) (now : Time) (s : Session) :
    Shared → Session → List Action → Prop
  -- a turn of the loop
  | gave_up (hp : s.point = .loop)
      (hend : s.max_attempts ≤ s.attempts
        ∨ sh.ring.get_backend_excluding s.client_key s.excluded = none) :
      Piece sh now s { sh with metrics := sh.metrics.record_fallback_503 }
        { s with point := .responding unavailable } [.fallback_503]
  | threw (b : ℕ) (hp : s.point = .loop) (hlt : (s.attempts : ℤ) < s.max_attempts)
      (hring : sh.ring.get_backend_excluding s.client_key s.excluded = some b)
      (hb : sh.backend_count ≤ b) :
      Piece sh now s sh { s with point := .threw } []
  | skipped (b : ℕ) (hp : s.point = .loop) (hlt : (s.attempts : ℤ) < s.max_attempts)
      (hring : sh.ring.get_backend_excluding s.client_key s.excluded = some b)
      (hb : b < sh.backend_count) (hans : ((sh.breakers b).allow_request now).1 = false) :
      Piece sh now s (sh.asked now b) (s.retry b)
        [.breaker ⟨s.attempts, b⟩ (.allow_request now) (some false)]
  | dialing (b : ℕ) (hp : s.point = .loop) (hlt : (s.attempts : ℤ) < s.max_attempts)
      (hring : sh.ring.get_backend_excluding s.client_key s.excluded = some b)
      (hb : b < sh.backend_count) (hans : ((sh.breakers b).allow_request now).1 = true)
      (hfree : sh.pool.acquire b = (none, sh.pool)) :
      Piece sh now s (sh.asked now b) { s with point := .acquiring ⟨s.attempts, b⟩ }
        [.breaker ⟨s.attempts, b⟩ (.allow_request now) (some true), .acquire ⟨s.attempts, b⟩]
  | pooled (b socket : ℕ) (pool : ConnectionPool) (hp : s.point = .loop)
      (hlt : (s.attempts : ℤ) < s.max_attempts)
      (hring : sh.ring.get_backend_excluding s.client_key s.excluded = some b)
      (hb : b < sh.backend_count) (hans : ((sh.breakers b).allow_request now).1 = true)
      (hfree : sh.pool.acquire b = (some socket, pool)) :
      Piece sh now s ({ sh.asked now b with pool := pool }.gaugePool b)
        { s with point := s.usePoint ⟨s.attempts, b⟩ socket }
        [.breaker ⟨s.attempts, b⟩ (.allow_request now) (some true), .acquire ⟨s.attempts, b⟩,
          .acquired ⟨s.attempts, b⟩ socket]
  -- the connect
  | connected (a : Attempt) (hp : s.point = .acquiring a) :
      Piece sh now s
        ({ sh with pool := (sh.pool.acquire_connected a.backend_index).2 }.gaugePool
          a.backend_index)
        { s with point := s.usePoint a sh.pool.next_socket } [.acquired a sh.pool.next_socket]
  | connect_failed (a : Attempt) (hp : s.point = .acquiring a) :
      Piece sh now s (record_failure sh now a).1 (s.retry a.backend_index)
        [.connect_failed a, .breaker a (.record_failure now) none]
  -- the replay
  | replay_failed (a : Attempt) (socket : ℕ) (rest out : Bytes) (ec : ErrorCode)
      (hp : s.point = .replaying a socket rest) :
      Piece sh now s
        { (record_failure sh now a).1 with
          pool := sh.pool.release a.backend_index socket false true }
        (s.retry a.backend_index)
        [.sent (.backend a) out, .write_failed (.backend a) ec,
          .breaker a (.record_failure now) none, .released a socket]
  -- the race is over
  | succeeded (a : Attempt) (socket : ℕ) (race : Race) (hp : s.point = .relaying a socket race)
      (hstarted : race.response_started = true) :
      Piece sh now s (record_success (sh.released a.backend_index socket) now a).1
        { s with point := .finished }
        [.released a socket, .breaker a (.record_success now) none]
  | failed (a : Attempt) (socket : ℕ) (race : Race) (hp : s.point = .relaying a socket race)
      (hstarted : race.response_started = false) (hcap : s.req_buf.capped = false) :
      Piece sh now s (record_failure (sh.released a.backend_index socket) now a).1
        (s.retry a.backend_index) [.released a socket, .breaker a (.record_failure now) none]
  | failed_capped (a : Attempt) (socket : ℕ) (race : Race)
      (hp : s.point = .relaying a socket race) (hstarted : race.response_started = false)
      (hcap : s.req_buf.capped = true) :
      Piece sh now s
        { (record_failure (sh.released a.backend_index socket) now a).1 with
          metrics := (record_failure (sh.released a.backend_index socket) now a).1.metrics
            |>.record_fallback_503 }
        { s.retry a.backend_index with point := .responding unavailable }
        [.released a socket, .breaker a (.record_failure now) none, .fallback_503]
  -- bytes
  | wire (s' : Session) (acts : List Action) (hw : Wire s s' acts) : Piece sh now s sh s' acts

/-- A turn of the loop is one of the first five pieces. -/
theorem iterate_piece (sh : Shared) (now : Time) (s : Session) (hp : s.point = .loop) :
    Piece sh now s (iterate sh now s).1 (iterate sh now s).2.1 (iterate sh now s).2.2 := by
  unfold iterate
  by_cases hatt : (s.attempts : ℤ) < s.max_attempts
  · rw [if_pos hatt]
    cases hring : sh.ring.get_backend_excluding s.client_key s.excluded with
    | none => exact .gave_up hp (Or.inr hring)
    | some b =>
        dsimp only
        by_cases hb : sh.backend_count ≤ b
        · rw [if_pos hb]
          exact .threw b hp hatt hring hb
        · rw [if_neg hb]
          by_cases hans : ((sh.breakers b).allow_request now).1 = false
          · rw [if_pos hans, hans]
            exact .skipped b hp hatt hring (by omega) hans
          · rw [if_neg hans]
            have htrue : ((sh.breakers b).allow_request now).1 = true := by simpa using hans
            rw [htrue]
            rcases hfree : sh.pool.acquire b with ⟨got, pool⟩
            cases got with
            | none =>
                obtain rfl := ConnectionPool.acquire_none hfree
                exact .dialing b hp hatt hring (by omega) htrue hfree
            | some socket => exact .pooled b socket pool hp hatt hring (by omega) htrue hfree
  · rw [if_neg hatt]
    exact .gave_up hp (Or.inl (by omega))

theorem raceOver_piece (sh : Shared) (now : Time) (s : Session) (a : Attempt) (socket : ℕ)
    (race : Race) (hp : s.point = .relaying a socket race) :
    Piece sh now s (raceOver sh now s a socket race.response_started).1
      (raceOver sh now s a socket race.response_started).2.1
      (raceOver sh now s a socket race.response_started).2.2 := by
  unfold raceOver
  cases hst : race.response_started with
  | true => exact .succeeded a socket race hp hst
  | false =>
      cases hcap : s.req_buf.capped with
      | true => exact .failed_capped a socket race hp hst hcap
      | false => exact .failed a socket race hp hst hcap

/-- A full buffer stays full. -/
theorem capture_capped {buf : RequestBuffer} (chunk : Option Bytes) (h : buf.capped = true) :
    (buf.capture chunk).capped = true := by
  cases chunk with
  | none => exact h
  | some chunk =>
      rw [RequestBuffer.capture, RequestBuffer.append, if_pos h]
      exact h

theorem relayMove_isWire {src dst : Peer} {cancelled : Bool} {p p' : RelayPoint} {c : Completion}
    {acts : List Action} {chunk : Option Bytes}
    (h : RelayMove src dst cancelled p c p' acts chunk) : ∀ x ∈ acts, x.isWire = true := by
  cases h <;> simp [Action.isWire]

/-- Bytes were moved if the session has only gone on to a point with the same attempt and the
same socket, on the same side of its outcome. -/
theorem Wire.of_point {s : Session} {p q : Point} {acts : List Action} (hp : s.point = p)
    (hattempt : q.attempt = p.attempt) (hsocket : q.socket = p.socket)
    (hsettled : q.settled = p.settled) (hsome : p.socket ≠ none ∨ p.settled = true)
    (hrace : q.beforeRace = true → p.beforeRace = true) (hacts : ∀ x ∈ acts, x.isWire = true) :
    Wire s { s with point := q } acts := by
  subst hp
  exact ⟨rfl, rfl, rfl, rfl, hattempt, hsocket, hsettled, hsome, fun hq => ⟨hrace hq, rfl⟩, id,
    hacts⟩

/-- A move that only reads and writes sockets, and is not the end of a turn, moves bytes. -/
theorem Move.wire {s s' : Session} {e : Event} {acts : List Action} (hm : Move s e s' acts)
    (he : e ≠ .resume) (hacts : ∀ x ∈ acts, x.isWire = true) : Wire s s' acts := by
  have hsome : ∀ socket : ℕ, some socket ≠ none := fun socket => Option.some_ne_none socket
  cases hm with
  | replayed a socket rest out rest' c hp =>
      exact .of_point hp rfl rfl rfl (Or.inl (hsome socket)) (fun _ => rfl) hacts
  | replay_done a socket rest c hp =>
      exact .of_point hp rfl rfl rfl (Or.inl (hsome socket)) (fun _ => rfl) hacts
  | relayed_up a socket race c p' acts chunk hp hr =>
      -- the one move of bytes that touches the buffer
      have hpoint : s.point.attempt = some a ∧ s.point.socket = some socket
          ∧ s.point.settled = false := by
        rw [hp]
        exact ⟨rfl, rfl, rfl⟩
      refine ⟨rfl, rfl, rfl, rfl, hpoint.1.symm, hpoint.2.1.symm, hpoint.2.2.symm,
        Or.inl (hpoint.2.1 ▸ hsome socket), ?_, capture_capped chunk, hacts⟩
      intro hq
      cases hq
  | relayed_down a socket race c p' acts chunk hp hr =>
      exact .of_point hp rfl rfl rfl (Or.inl (hsome socket)) (fun hq => by cases hq) hacts
  | responded rest out rest' c hp =>
      exact .of_point hp rfl rfl rfl (Or.inr rfl) (fun hq => by cases hq) hacts
  | respond_done rest c hp =>
      exact .of_point hp rfl rfl rfl (Or.inr rfl) (fun hq => by cases hq) hacts
  | respond_failed rest out c ec hp =>
      exact .of_point hp rfl rfl rfl (Or.inr rfl) (fun hq => by cases hq) hacts
  | drained chunk c hp => exact .of_point rfl rfl rfl rfl (Or.inr (hp ▸ rfl)) id hacts
  | closed ec c hp =>
      exact .of_point hp rfl rfl rfl (Or.inr rfl) (fun hq => by cases hq) hacts
  | connected a socket hp => exact absurd (hacts (.acquired a socket) (by simp)) Bool.false_ne_true
  | connect_failed a now hp =>
      exact absurd (hacts (.connect_failed a) (by simp)) Bool.false_ne_true
  | replay_failed a socket rest out c ec now hp =>
      exact absurd (hacts (.released a socket) (by simp)) Bool.false_ne_true
  | _ => exact absurd rfl he

/-- **Every step is a piece.** -/
theorem step_piece {sh sh' : Shared} {now : Time} {s s' : Session} {e : Event}
    {acts : List Action} (h : s.step sh now e = some (sh', s', acts)) :
    Piece sh now s sh' s' acts := by
  have hm := step_move h
  unfold step at h
  split at h
  · rename_i hp
    have hturn := iterate_piece sh now s hp
    rw [Option.some.inj h] at hturn
    exact hturn
  · rename_i a hp
    cases h
    exact .connected a hp
  · rename_i a hp
    cases h
    exact .connect_failed a hp
  · rename_i a socket rest c hp
    split at h
    · cases h
    · cases h
      exact .wire _ _ (hm.wire (by simp) (by simp [Action.isWire]))
    · cases h
      exact .wire _ _ (hm.wire (by simp) (by simp [Action.isWire]))
    · rename_i out ec hw
      cases h
      exact .replay_failed a socket rest out ec hp
  · rename_i a socket race leg c hp
    split at h
    · cases h
    · rename_i race' buf' acts' hr
      cases h
      have hacts : ∀ x ∈ acts, x.isWire = true := by
        cases hm with
        | relayed_up _ _ _ _ _ _ _ _ hr => exact relayMove_isWire hr
        | relayed_down _ _ _ _ _ _ _ _ hr => exact relayMove_isWire hr
      exact .wire _ _ (hm.wire (by simp) hacts)
  · rename_i a socket race hp
    split at h
    · have hend := raceOver_piece sh now s a socket race hp
      rw [Option.some.inj h] at hend
      exact hend
    · cases h
  · split at h
    · cases h
    · cases h
      exact .wire _ _ (hm.wire (by simp) (by simp [Action.isWire]))
    · cases h
      exact .wire _ _ (hm.wire (by simp) (by simp [Action.isWire]))
    · cases h
      exact .wire _ _ (hm.wire (by simp) (by simp [Action.isWire]))
  · split at h
    · cases h
    · cases h
      exact .wire _ _ (hm.wire (by simp) (by simp [Action.isWire]))
    · cases h
      exact .wire _ _ (hm.wire (by simp) (by simp [Action.isWire]))
  · cases h

theorem Piece.max_attempts_eq {sh sh' : Shared} {now : Time} {s s' : Session} {acts : List Action}
    (hpc : Piece sh now s sh' s' acts) : s'.max_attempts = s.max_attempts := by
  cases hpc with
  | wire s' acts hw => exact hw.max_attempts
  | _ => rfl

theorem Piece.client_key_eq {sh sh' : Shared} {now : Time} {s s' : Session} {acts : List Action}
    (hpc : Piece sh now s sh' s' acts) : s'.client_key = s.client_key := by
  cases hpc with
  | wire s' acts hw => exact hw.client_key
  | _ => rfl

theorem solo_piece {s s' : Session} {i : Input} {acts : List Action}
    (h : solo s i = some (s', acts)) : ∃ sh', Piece i.shared i.now s sh' s' acts := by
  unfold solo at h
  split at h
  · cases h
  · rename_i sh' s'' acts' hs
    cases h
    exact ⟨sh', step_piece hs⟩

end Session

end AegisProxy
