/-
Where the bytes of a session go, in every run.

Two streams cross a session. What the client is sent comes from one backend
connection or is the 503 (`safe_retry`); what each backend is sent is the client's
own request from its first byte on (`faithful_replay`). Both are invariants of
`Session.solo`, so they hold whatever the ring, the breakers and the pool answer and
whatever the sockets do.

The part they share comes first. One relay keeps `Carried`: what has been written is
what has been read, less what is still in the buffer. And attempts are numbered: the
connection of an attempt that has not begun has done nothing (`Untouched`), so an
attempt starts on an empty stream.
-/
import AegisProxy.Session

set_option autoImplicit false

namespace AegisProxy

open Runs

/-! ## One relay -/

/-- What a relay has read and what it has written, at each of its points. -/
def RelayPoint.Carried : RelayPoint → Bytes → Bytes → Prop
  | .reading, r, w => w = r
  | .writing rest, r, w => w ++ rest = r
  | .returned, r, w => w <+: r

/-- In any case what was written is a prefix of what was read. -/
theorem RelayPoint.Carried.isPrefix {p : RelayPoint} {r w : Bytes} (h : p.Carried r w) :
    w <+: r := by
  cases p with
  | reading => rw [show w = r from h]
  | writing rest => exact ⟨rest, h⟩
  | returned => exact h

namespace RelayMove

variable {src dst : Peer} {cancelled : Bool} {p p' : RelayPoint} {c : Completion}
  {acts : List Action} {chunk : Option Bytes}

/-- **A relay loses and reorders nothing.** -/
theorem carried (h : RelayMove src dst cancelled p c p' acts chunk) {r w : Bytes}
    (hp : p.Carried r w) :
    p'.Carried (r ++ receivedFrom src acts) (w ++ sentTo dst acts) := by
  cases h with
  | read chunk _ _ _ =>
      have hw : w = r := hp
      simp [RelayPoint.Carried, Action.bytesFrom, Action.bytesTo, hw]
  | read_late chunk _ _ _ =>
      have hw : w = r := hp
      simp [RelayPoint.Carried, Action.bytesFrom, Action.bytesTo, hw]
  | read_failed ec _ =>
      have hw : w = r := hp
      simp [RelayPoint.Carried, Action.bytesFrom, Action.bytesTo, hw]
  | wrote rest out rest' _ hsplit _ _ =>
      have hw : w ++ rest = r := hp
      simp [RelayPoint.Carried, Action.bytesFrom, Action.bytesTo, hsplit, hw]
  | wrote_all rest _ _ =>
      have hw : w ++ rest = r := hp
      simp [RelayPoint.Carried, Action.bytesFrom, Action.bytesTo, hw]
  | wrote_late rest _ _ =>
      have hw : w ++ rest = r := hp
      simp [RelayPoint.Carried, Action.bytesFrom, Action.bytesTo, hw]
  | write_failed rest out _ ec hout _ _ =>
      have hw : w ++ rest = r := hp
      obtain ⟨rest', rfl⟩ := hout
      refine ⟨rest', ?_⟩
      simp [Action.bytesFrom, Action.bytesTo, ← hw]

/-- A relay reads from its source only. -/
theorem receivedFrom_other (h : RelayMove src dst cancelled p c p' acts chunk) {q : Peer}
    (hq : src ≠ q) : receivedFrom q acts = [] := by
  cases h <;> simp [Action.bytesFrom, hq]

/-- A relay writes to its destination only. -/
theorem sentTo_other (h : RelayMove src dst cancelled p c p' acts chunk) {q : Peer}
    (hq : dst ≠ q) : sentTo q acts = [] := by
  cases h <;> simp [Action.bytesTo, hq]

/-- Only a relay that has not returned is resumed. -/
theorem running (h : RelayMove src dst cancelled p c p' acts chunk) : p ≠ .returned := by
  rintro rfl
  cases h

/-- The chunk a relay reports is what it has read. -/
theorem chunk_eq (h : RelayMove src dst cancelled p c p' acts chunk) :
    chunk.getD [] = receivedFrom src acts := by
  cases h <;> simp [Action.bytesFrom]

end RelayMove

/-! ## Attempts are numbered -/

/-- The attempt whose connection a peer is. -/
def Peer.attempt : Peer → Option Attempt
  | .client => none
  | .backend a => some a

/-- The attempt whose connection an action is on, if it is on one. -/
def Action.attempt : Action → Option Attempt
  | .received p _ => p.attempt
  | .read_failed p _ => p.attempt
  | .sent p _ => p.attempt
  | .write_failed p _ => p.attempt
  | .acquired a _ => some a
  | .connect_failed a => some a
  | .released a _ => some a
  | .breaker _ _ _ => none
  | .acquire _ => none
  | .fallback_503 => none

/-- Nothing in the trace is on a connection of attempt `a`. -/
def Untouched (a : Attempt) (tr : List Action) : Prop := ∀ x ∈ tr, x.attempt ≠ some a

theorem Untouched.receivedFrom {a : Attempt} {tr : List Action} (h : Untouched a tr) :
    receivedFrom (.backend a) tr = [] := by
  apply List.flatMap_eq_nil_iff.mpr
  intro x hx
  have hne := h x hx
  cases x with
  | received p chunk =>
      refine if_neg ?_
      rintro rfl
      exact hne rfl
  | _ => rfl

theorem Untouched.sentTo {a : Attempt} {tr : List Action} (h : Untouched a tr) :
    sentTo (.backend a) tr = [] := by
  apply List.flatMap_eq_nil_iff.mpr
  intro x hx
  have hne := h x hx
  cases x with
  | sent p bytes =>
      refine if_neg ?_
      rintro rfl
      exact hne rfl
  | _ => rfl

theorem RelayMove.attempt {src dst : Peer} {cancelled : Bool} {p p' : RelayPoint}
    {c : Completion} {acts : List Action} {chunk : Option Bytes}
    (h : RelayMove src dst cancelled p c p' acts chunk) :
    ∀ x ∈ acts, x.attempt = src.attempt ∨ x.attempt = dst.attempt := by
  cases h <;> simp [Action.attempt]

/-- The attempt a session is in. -/
def Point.attempt : Point → Option Attempt
  | .acquiring a => some a
  | .replaying a _ _ => some a
  | .relaying a _ _ => some a
  | _ => none

/-- The number from which on no connection has been used. -/
def Session.unused (s : Session) : ℕ :=
  match s.point with
  | .loop => s.attempts
  | .acquiring _ => s.attempts
  | _ => s.attempts + 1

/-- The attempt a session is in has the number `attempts`, and connections of later
attempts are untouched. -/
structure Numbered (s : Session) (tr : List Action) : Prop where
  current : ∀ a, s.point.attempt = some a → a.number = s.attempts
  later : ∀ a : Attempt, s.unused ≤ a.number → Untouched a tr

/-- At the head of the loop the attempt to come is untouched, on whichever backend it will
be. -/
theorem Numbered.fresh_of_loop {s : Session} {tr : List Action} (hn : Numbered s tr)
    (hp : s.point = .loop) (b : ℕ) : Untouched ⟨s.attempts, b⟩ tr := by
  apply hn.later
  simp [Session.unused, hp]

/-- An attempt that waits for its connection is untouched. -/
theorem Numbered.fresh_of_acquiring {s : Session} {tr : List Action} {a : Attempt}
    (hn : Numbered s tr) (hp : s.point = .acquiring a) : Untouched a tr := by
  have hnum : a.number = s.attempts := hn.current a (by rw [hp]; rfl)
  apply hn.later
  simp [Session.unused, hp, hnum]

namespace Session

@[simp] theorem retry_point (s : Session) (b : ℕ) : (s.retry b).point = .loop := rfl

@[simp] theorem retry_attempts (s : Session) (b : ℕ) : (s.retry b).attempts = s.attempts + 1 := rfl

@[simp] theorem retry_req_buf (s : Session) (b : ℕ) : (s.retry b).req_buf = s.req_buf := rfl

/-- With a socket in hand a session is in that attempt, and its connection is in
use. -/
theorem usePoint_attempt (s : Session) (a : Attempt) (socket : ℕ) :
    (s.usePoint a socket).attempt = some a := by
  unfold usePoint
  split <;> rfl

theorem unused_usePoint (s : Session) (a : Attempt) (socket : ℕ) :
    ({ s with point := s.usePoint a socket } : Session).unused = s.attempts + 1 := by
  unfold usePoint
  split <;> rfl

namespace Move

variable {s s' : Session} {e : Event} {acts : List Action}

/-- A move keeps to the numbering: it stays in the attempt it is in or goes on to
one with the number `attempts`. -/
theorem current (hm : Move s e s' acts)
    (h : ∀ a, s.point.attempt = some a → a.number = s.attempts) :
    ∀ a, s'.point.attempt = some a → a.number = s'.attempts := by
  cases hm with
  | pooled b now socket hp =>
      intro a ha
      rw [usePoint_attempt] at ha
      cases ha
      rfl
  | connected a socket hp =>
      intro a' ha
      rw [usePoint_attempt] at ha
      cases ha
      exact h a (by rw [hp]; rfl)
  | drained => exact h
  | _ => simp_all [Point.attempt]

/-- Connections in use stay in use. -/
theorem unused_le (hm : Move s e s' acts) : s.unused ≤ s'.unused := by
  cases hm with
  | pooled b now socket hp =>
      rw [unused_usePoint]
      simp [unused, hp]
  | connected a socket hp =>
      rw [unused_usePoint]
      simp [unused, hp]
  | drained => exact Nat.le_refl _
  | _ => simp_all [unused]

/-- A move acts on the connection of the attempt it is in, and that one is in use
afterwards. -/
theorem touches (hm : Move s e s' acts)
    (h : ∀ a, s.point.attempt = some a → a.number = s.attempts) :
    ∀ x ∈ acts, ∀ a, x.attempt = some a → a.number < s'.unused := by
  cases hm with
  | pooled b now socket hp =>
      rw [unused_usePoint]
      simp [Action.attempt]
  | connected a socket hp =>
      rw [unused_usePoint]
      simp_all [Action.attempt, Point.attempt]
  | relayed_up a socket race c p' acts chunk hp hr =>
      intro x hx a' ha'
      have hnum : a.number = s.attempts := h a (by rw [hp]; rfl)
      rcases hr.attempt x hx with hx' | hx' <;> rw [ha'] at hx' <;> cases hx'
      simp [unused, hnum]
  | relayed_down a socket race c p' acts chunk hp hr =>
      intro x hx a' ha'
      have hnum : a.number = s.attempts := h a (by rw [hp]; rfl)
      rcases hr.attempt x hx with hx' | hx' <;> rw [ha'] at hx' <;> cases hx'
      simp [unused, hnum]
  | failed_capped a socket race now hp =>
      -- the attempt is counted before the 503 is written
      have hnum : a.number = s.attempts := h a (by rw [hp]; rfl)
      have hlt : a.number < s.attempts + 1 + 1 := by omega
      simpa [Action.attempt, unused] using hlt
  | _ => simp_all [Action.attempt, Peer.attempt, Point.attempt, unused]

/-- **Attempts stay numbered.** -/
theorem numbered (hm : Move s e s' acts) {tr : List Action} (h : Numbered s tr) :
    Numbered s' (tr ++ acts) := by
  refine ⟨hm.current h.current, ?_⟩
  intro a ha x hx hxa
  have hle := hm.unused_le
  rcases List.mem_append.mp hx with hx | hx
  · exact h.later a (by omega) x hx hxa
  · have hlt := hm.touches h.current x hx a hxa
    omega

end Move

theorem numbered_start (client_key : Bytes) (max_attempts : ℤ) :
    Numbered (start client_key max_attempts) [] := by
  refine ⟨?_, ?_⟩
  · intro a ha
    cases ha
  · intro a _ x hx
    cases hx

/-! ## What the client is sent -/

/-- The bytes the client was sent come from one backend connection, or are the
503's. -/
def OneSource (tr : List Action) : Prop :=
  (∃ a, sentTo .client tr <+: receivedFrom (.backend a) tr) ∨ sentTo .client tr <+: unavailable

/-- What the client has been sent, point by point. Before the race it is nothing. In
the race it is what the downstream relay has carried from this attempt's backend, and
as long as `response_started` is not set that is nothing. So when an attempt is given
up, the next one and the 503 again start from nothing. -/
def ClientBytes (s : Session) (tr : List Action) : Prop :=
  match s.point with
  | .replaying a _ _ => sentTo .client tr = [] ∧ receivedFrom (.backend a) tr = []
  | .relaying a _ race =>
    race.downstream.Carried (receivedFrom (.backend a) tr) (sentTo .client tr)
      ∧ (race.response_started = false → receivedFrom (.backend a) tr = [])
  | .responding rest => sentTo .client tr ++ rest = unavailable
  | .draining => sentTo .client tr <+: unavailable
  | .finished => OneSource tr
  | _ => sentTo .client tr = []

/-- With a socket in hand and nothing sent, the attempt starts clean. -/
theorem clientBytes_use {s : Session} {a : Attempt} {socket : ℕ} {tr : List Action}
    (hsent : sentTo .client tr = []) (hrecv : receivedFrom (.backend a) tr = []) :
    ClientBytes { s with point := s.usePoint a socket } tr := by
  unfold ClientBytes usePoint
  by_cases hbuf : s.req_buf.data = []
  · rw [if_pos hbuf]
    refine ⟨?_, fun _ => hrecv⟩
    rw [hsent, hrecv]
    rfl
  · rw [if_neg hbuf]
    exact ⟨hsent, hrecv⟩

/-- At the end of a race without a response, nothing has been sent. -/
theorem clientBytes_failed {s : Session} {a : Attempt} {socket : ℕ} {race : Race}
    {tr : List Action} (hp : s.point = .relaying a socket race)
    (hst : race.response_started = false) (h : ClientBytes s tr) : sentTo .client tr = [] := by
  unfold ClientBytes at h
  rw [hp] at h
  have hpre := h.1.isPrefix
  rw [h.2 hst] at hpre
  exact List.prefix_nil.mp hpre

/-- **One move keeps the client's stream clean.** -/
theorem Move.clientBytes {s s' : Session} {e : Event} {acts : List Action}
    (hm : Move s e s' acts) {tr : List Action} (hn : Numbered s tr) (h : ClientBytes s tr) :
    ClientBytes s' (tr ++ acts) := by
  cases hm with
  | pooled b now socket hp =>
      have hfresh := hn.fresh_of_loop hp b
      apply clientBytes_use
      · simpa [ClientBytes, hp, Action.bytesTo] using h
      · simp [Action.bytesFrom, hfresh.receivedFrom]
  | connected a socket hp =>
      have hfresh := hn.fresh_of_acquiring hp
      apply clientBytes_use
      · simpa [ClientBytes, hp, Action.bytesTo] using h
      · simp [Action.bytesFrom, hfresh.receivedFrom]
  | relayed_up a socket race c p' acts chunk hp hr =>
      -- the other direction: nothing is read from the backend or sent to the client
      have hrecv := hr.receivedFrom_other (q := .backend a) (by simp)
      have hsent := hr.sentTo_other (q := .client) (by simp)
      simpa [ClientBytes, hp, hrecv, hsent] using h
  | relayed_down a socket race c p' acts chunk hp hr =>
      unfold ClientBytes at h ⊢
      rw [hp] at h
      dsimp only at h ⊢
      rw [receivedFrom_append, sentTo_append]
      refine ⟨hr.carried h.1, ?_⟩
      intro hst
      -- the flag is still down, so this move has read no chunk either
      obtain ⟨hst₀, hnone⟩ := Bool.or_eq_false_iff.mp hst
      have hchunk := hr.chunk_eq
      rw [Option.isSome_eq_false_iff.mp hnone |> Option.isNone_iff_eq_none.mp] at hchunk
      rw [h.2 hst₀, ← hchunk]
      rfl
  | succeeded a socket race now hp =>
      -- the session ends here, with this attempt's backend as the one source
      unfold ClientBytes at h ⊢
      rw [hp] at h
      left
      refine ⟨a, ?_⟩
      simpa [Action.bytesFrom, Action.bytesTo] using h.1.isPrefix
  -- the two ways on from a race without a response: the client has been sent nothing
  | failed a socket race now hp _ _ hst =>
      simpa [ClientBytes, Action.bytesTo] using clientBytes_failed hp hst h
  | failed_capped a socket race now hp _ _ hst =>
      simpa [ClientBytes, Action.bytesTo] using clientBytes_failed hp hst h
  | respond_failed rest out c ec hp hout =>
      obtain ⟨rest', rfl⟩ := hout
      simp only [ClientBytes, hp] at h
      refine ⟨rest', ?_⟩
      simpa [Action.bytesTo] using h
  | replay_done a socket rest c hp =>
      simp only [ClientBytes, hp] at h
      simp [ClientBytes, Action.bytesTo, Action.bytesFrom, h, Race.start, RelayPoint.Carried]
  | closed ec c hp =>
      simp only [ClientBytes, hp] at h
      right
      simpa [Action.bytesTo] using h
  | _ => simp_all [ClientBytes, Action.bytesTo, Action.bytesFrom]

/-- At every point the bytes have one source. -/
theorem ClientBytes.oneSource {s : Session} {tr : List Action} (h : ClientBytes s tr) :
    OneSource tr := by
  unfold ClientBytes at h
  split at h
  · exact Or.inr (by rw [h.1]; exact List.nil_prefix)
  · exact Or.inl ⟨_, h.1.isPrefix⟩
  · exact Or.inr ⟨_, h⟩
  · exact Or.inr h
  · exact h
  · exact Or.inr (by rw [h]; exact List.nil_prefix)

/-- **Safe retry.** In every run of a session, whatever the ring, the breakers, the
pool and the sockets do, the bytes the client has been sent are a prefix of what one
backend connection delivered, or a prefix of the 503. -/
theorem safe_retry (client_key : Bytes) (max_attempts : ℤ) (ins : List Input) (s : Session)
    (tr : List Action) (h : exec solo (start client_key max_attempts) ins = some (s, tr)) :
    (∃ a, sentTo .client tr <+: receivedFrom (.backend a) tr)
      ∨ sentTo .client tr <+: unavailable := by
  have hinv := exec_invariant (I := fun s tr => Numbered s tr ∧ ClientBytes s tr)
    (fun s tr i s' out hs he =>
      ⟨(solo_move he).numbered hs.1, (solo_move he).clientBytes hs.1 hs.2⟩)
    ⟨numbered_start client_key max_attempts, rfl⟩ h
  exact hinv.2.oneSource

/-- A session whose first backend takes the request and closes, and whose second
answers. -/
def failover : List Input :=
  [.resume, .connected, .relay .upstream (.read_some [71]), .relay .upstream (.wrote_some 1),
    .relay .downstream (.error .eof), .relay .upstream (.error .operation_aborted), .resume,
    .resume, .connected, .io (.wrote_some 1), .relay .downstream (.read_some [50, 51]),
    .relay .downstream (.wrote_some 2), .relay .downstream (.error .eof),
    .relay .upstream (.error .operation_aborted),
    .resume].map (⟨.new 2 1 5 2 5000 (fun _ => 0), 0, ·⟩)

/-- The client is sent the second backend's bytes. -/
theorem safe_retry_failover :
    ∃ s tr, exec solo (start [] 3) failover = some (s, tr) ∧ sentTo .client tr = [50, 51]
      ∧ ((∃ a, sentTo .client tr <+: receivedFrom (.backend a) tr)
        ∨ sentTo .client tr <+: unavailable) := by
  refine ⟨_, _, rfl, by decide +kernel, ?_⟩
  exact safe_retry [] 3 failover _ _ rfl

/-! ## What a backend is sent -/

/-- What has been read from the client, what is buffered of it, and what this
attempt's backend has been sent, point by point. The buffer is the whole request until
the race may cap it, and a session with a capped buffer never comes back to the
loop. -/
def BackendBytes (s : Session) (tr : List Action) : Prop :=
  match s.point with
  | .loop => s.req_buf.capped = false ∧ s.req_buf.data = receivedFrom .client tr
  | .acquiring _ => s.req_buf.capped = false ∧ s.req_buf.data = receivedFrom .client tr
  | .replaying a _ rest =>
    s.req_buf.capped = false ∧ s.req_buf.data = receivedFrom .client tr
      ∧ sentTo (.backend a) tr ++ rest = receivedFrom .client tr
  | .relaying a _ race =>
    (s.req_buf.capped = false → s.req_buf.data = receivedFrom .client tr)
      ∧ race.upstream.Carried (receivedFrom .client tr) (sentTo (.backend a) tr)
  | _ => True

/-- Every backend has been sent a prefix of what was read from the client. -/
def Faithful (tr : List Action) : Prop :=
  ∀ a, sentTo (.backend a) tr <+: receivedFrom .client tr

/-- Reading more from the client, and sending nothing to a backend, keeps every
stream faithful. -/
theorem Faithful.append {tr acts : List Action} (h : Faithful tr)
    (hacts : ∀ a, sentTo (.backend a) acts = []) : Faithful (tr ++ acts) := by
  intro a
  rw [sentTo_append, receivedFrom_append, hacts a, List.append_nil]
  exact (h a).trans (List.prefix_append _ _)

/-- Sending to one backend only asks about that backend. -/
theorem Faithful.append_one {tr acts : List Action} {a : Attempt} (h : Faithful tr)
    (hother : ∀ a', a' ≠ a → sentTo (.backend a') acts = [])
    (hone : sentTo (.backend a) (tr ++ acts) <+: receivedFrom .client (tr ++ acts)) :
    Faithful (tr ++ acts) := by
  intro a'
  by_cases ha : a' = a
  · rw [ha]
    exact hone
  · rw [sentTo_append, receivedFrom_append, hother a' ha, List.append_nil]
    exact (h a').trans (List.prefix_append _ _)

/-- With a socket in hand, the attempt has the whole request still to send. -/
theorem backendBytes_use {s : Session} {a : Attempt} {socket : ℕ} {tr : List Action}
    (hcap : s.req_buf.capped = false) (hdata : s.req_buf.data = receivedFrom .client tr)
    (hsent : sentTo (.backend a) tr = []) :
    BackendBytes { s with point := s.usePoint a socket } tr := by
  unfold BackendBytes usePoint
  by_cases hbuf : s.req_buf.data = []
  · rw [if_pos hbuf]
    refine ⟨fun _ => hdata, ?_⟩
    rw [← hdata, hbuf, hsent]
    rfl
  · rw [if_neg hbuf]
    exact ⟨hcap, hdata, by rw [hsent, List.nil_append, hdata]⟩

/-- What the upstream relay has captured, the buffer holds, unless it is capped. -/
theorem capture_data {src dst : Peer} {cancelled : Bool} {p p' : RelayPoint} {c : Completion}
    {acts : List Action} {chunk : Option Bytes} {buf : RequestBuffer} {r : Bytes}
    (hr : RelayMove src dst cancelled p c p' acts chunk)
    (hbuf : buf.capped = false → buf.data = r) (hcap : (buf.capture chunk).capped = false) :
    (buf.capture chunk).data = r ++ receivedFrom src acts := by
  rw [← hr.chunk_eq]
  cases chunk with
  | none => simpa [RequestBuffer.capture] using hbuf hcap
  | some bytes =>
      obtain ⟨hcap₀, hdata⟩ := RequestBuffer.append_uncapped hcap
      exact hdata.trans (by rw [hbuf hcap₀]; rfl)

/-- **One move keeps buffer and request together.** -/
theorem Move.backendBytes {s s' : Session} {e : Event} {acts : List Action}
    (hm : Move s e s' acts) {tr : List Action} (hn : Numbered s tr) (h : BackendBytes s tr) :
    BackendBytes s' (tr ++ acts) := by
  cases hm with
  | pooled b now socket hp =>
      have hfresh := hn.fresh_of_loop hp b
      simp only [BackendBytes, hp] at h
      apply backendBytes_use
      · exact h.1
      · simpa [Action.bytesFrom] using h.2
      · simp [Action.bytesTo, hfresh.sentTo]
  | connected a socket hp =>
      have hfresh := hn.fresh_of_acquiring hp
      simp only [BackendBytes, hp] at h
      apply backendBytes_use
      · exact h.1
      · simpa [Action.bytesFrom] using h.2
      · simp [Action.bytesTo, hfresh.sentTo]
  | relayed_up a socket race c p' acts chunk hp hr =>
      simp only [BackendBytes, hp] at h ⊢
      rw [receivedFrom_append, sentTo_append]
      exact ⟨capture_data hr h.1, hr.carried h.2⟩
  | relayed_down a socket race c p' acts chunk hp hr =>
      -- the other direction: the request and what was sent of it are as they were
      have hrecv := hr.receivedFrom_other (q := .client) (by simp)
      have hsent := hr.sentTo_other (q := .backend a) (by simp)
      simpa [BackendBytes, hp, hrecv, hsent] using h
  | replay_done a socket rest c hp =>
      simp only [BackendBytes, hp] at h ⊢
      refine ⟨fun _ => by simpa [Action.bytesFrom] using h.2.1, ?_⟩
      simpa [Race.start, RelayPoint.Carried, Action.bytesTo, Action.bytesFrom] using h.2.2
  | drained chunk c hp => simp [BackendBytes, hp]
  | _ => simp_all [BackendBytes, Action.bytesTo, Action.bytesFrom]

/-- **One move keeps every backend's stream faithful.** -/
theorem Move.faithful {s s' : Session} {e : Event} {acts : List Action}
    (hm : Move s e s' acts) {tr : List Action} (h : BackendBytes s tr) (hf : Faithful tr) :
    Faithful (tr ++ acts) := by
  cases hm with
  -- the three ways a replay goes on: what is out so far and what is left make the request
  | replayed a socket rest out rest' c hp hsplit =>
      simp only [BackendBytes, hp] at h
      apply hf.append_one (a := a)
      · intro a' ha
        simp [Action.bytesTo, ha.symm]
      · refine ⟨rest', ?_⟩
        simpa [Action.bytesTo, Action.bytesFrom, hsplit] using h.2.2
  | replay_done a socket rest c hp =>
      simp only [BackendBytes, hp] at h
      apply hf.append_one (a := a)
      · intro a' ha
        simp [Action.bytesTo, ha.symm]
      · refine ⟨[], ?_⟩
        simpa [Action.bytesTo, Action.bytesFrom] using h.2.2
  | replay_failed a socket rest out c ec now hp hout =>
      obtain ⟨rest', rfl⟩ := hout
      simp only [BackendBytes, hp] at h
      apply hf.append_one (a := a)
      · intro a' ha
        simp [Action.bytesTo, ha.symm]
      · refine ⟨rest', ?_⟩
        simpa [Action.bytesTo, Action.bytesFrom] using h.2.2
  | relayed_up a socket race c p' acts chunk hp hr =>
      simp only [BackendBytes, hp] at h
      apply hf.append_one (a := a)
      · intro a' ha
        exact hr.sentTo_other (by simp [ha.symm])
      · rw [sentTo_append, receivedFrom_append]
        exact (hr.carried h.2).isPrefix
  | relayed_down a socket race c p' acts chunk hp hr =>
      exact hf.append fun a' => hr.sentTo_other (by simp)
  | _ => exact hf.append fun a' => by simp [Action.bytesTo]

/-- **Faithful replay.** In every run of a session every backend has been sent a prefix
of what was read from the client, replay and live bytes together; and whenever the
session is at the head of its loop the buffer is not capped and holds exactly what was
read from the client. -/
theorem faithful_replay (client_key : Bytes) (max_attempts : ℤ) (ins : List Input) (s : Session)
    (tr : List Action) (h : exec solo (start client_key max_attempts) ins = some (s, tr)) :
    (∀ a, sentTo (.backend a) tr <+: receivedFrom .client tr)
      ∧ (s.point = .loop →
        s.req_buf.capped = false ∧ s.req_buf.data = receivedFrom .client tr) := by
  have hinv := exec_invariant
    (I := fun s tr => Numbered s tr ∧ BackendBytes s tr ∧ Faithful tr)
    (fun s tr i s' out hs he =>
      ⟨(solo_move he).numbered hs.1, (solo_move he).backendBytes hs.1 hs.2.1,
        (solo_move he).faithful hs.2.1 hs.2.2⟩)
    ⟨numbered_start client_key max_attempts, ⟨rfl, rfl⟩, fun _ => List.nil_prefix⟩ h
  refine ⟨hinv.2.2, ?_⟩
  intro hp
  have hbytes := hinv.2.1
  unfold BackendBytes at hbytes
  rw [hp] at hbytes
  exact hbytes

/-- The failover, with a client that goes on sending after the replay. -/
def failoverLive : List Input :=
  failover.take 10 ++ [.relay .upstream (.read_some [69, 84]),
    .relay .upstream (.wrote_some 1)].map (⟨.new 2 1 5 2 5000 (fun _ => 0), 0, ·⟩)

/-- Seven steps into the failover the first backend is lost and the session is about
to begin its second attempt, with the request in its buffer. Five steps later the second
backend has been sent the replay and one live byte, in the order in which the client sent
them. -/
theorem faithful_replay_failover :
    (∃ s tr, exec solo (start [] 3) (failover.take 7) = some (s, tr) ∧ s.point = .loop
      ∧ s.req_buf.data = receivedFrom .client tr ∧ receivedFrom .client tr = [71])
    ∧ ∃ s tr, exec solo (start [] 3) failoverLive = some (s, tr)
      ∧ receivedFrom .client tr = [71, 69, 84] ∧ sentTo (.backend ⟨1, 1⟩) tr = [71, 69]
      ∧ sentTo (.backend ⟨1, 1⟩) tr <+: receivedFrom .client tr := by
  refine ⟨⟨_, _, rfl, rfl, ?_, by decide +kernel⟩,
    ⟨_, _, rfl, by decide +kernel, by decide +kernel, ?_⟩⟩
  · exact ((faithful_replay [] 3 (failover.take 7) _ _ rfl).2 rfl).2
  · exact (faithful_replay [] 3 failoverLive _ _ rfl).1 ⟨1, 1⟩

end Session

end AegisProxy
