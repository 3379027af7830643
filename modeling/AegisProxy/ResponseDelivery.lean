/-
Whether a backend's whole response reaches the client.

The setting (`Serves`): a backend that takes the connection and every byte written to
it, sends a response `R` and closes; and a client that keeps its receiving side open.
Its own end of sending -- the half-close after its request -- may come at any time.

The two directions are coupled by `operator||`: when the client's end of sending is
read, the upstream relay returns and the downstream relay is cancelled, with whatever
of `R` has not been written by then. `response_delivery` says exactly when that costs
nothing: the client's end is read after the last chunk of `R` has been read from the
backend, and the write of that chunk, if it is still under way, is not cut short
(`EndsInTime`). Then, and only then, the session ends in this attempt with the client
having been sent exactly `R`; and it can always be carried to that end.
-/
import AegisProxy.Streams

set_option autoImplicit false

namespace AegisProxy

open Runs

/-! ## The setting -/

/-- Attempt `a` has got its connection. -/
def Accepted (a : Attempt) (tr : List Action) : Prop := ∃ socket, .acquired a socket ∈ tr

theorem Accepted.append {a : Attempt} {tr acts : List Action} (h : Accepted a tr) :
    Accepted a (tr ++ acts) := by
  obtain ⟨socket, hx⟩ := h
  exact ⟨socket, List.mem_append_left _ hx⟩

theorem RelayMove.no_acquired {src dst : Peer} {cancelled : Bool} {p p' : RelayPoint}
    {c : Completion} {acts : List Action} {chunk : Option Bytes}
    (h : RelayMove src dst cancelled p c p' acts chunk) (a : Attempt) :
    ∀ socket, .acquired a socket ∉ acts := by
  cases h <;> simp

/-- The backend of attempt `a` sends `R` and then closes, no write to it fails, and no
write to the client fails. What ends with `operation_aborted` was cancelled by the
proxy and has not failed. -/
structure Serves (R : Bytes) (a : Attempt) (tr : List Action) : Prop where
  sends : receivedFrom (.backend a) tr <+: R
  closes : Justified (fun pre x => ∀ ec, x = .read_failed (.backend a) ec →
    ec ≠ .operation_aborted → ec = .eof ∧ receivedFrom (.backend a) pre = R) tr
  writes_succeed : ∀ ec, .write_failed (.backend a) ec ∈ tr → ec = .operation_aborted
  client_open : ∀ ec, .write_failed .client ec ∈ tr → ec = .operation_aborted

theorem Serves.left {R : Bytes} {a : Attempt} {tr acts : List Action}
    (h : Serves R a (tr ++ acts)) : Serves R a tr where
  sends := by
    have hsends := h.sends
    rw [receivedFrom_append] at hsends
    exact (List.prefix_append _ _).trans hsends
  closes := h.closes.left
  writes_succeed := fun ec hx => h.writes_succeed ec (List.mem_append_left _ hx)
  client_open := fun ec hx => h.client_open ec (List.mem_append_left _ hx)

/-- A read from the backend that has just failed was at the end of `R`, or was
cancelled. -/
theorem Serves.read_failed {R : Bytes} {a : Attempt} {tr : List Action} {ec : ErrorCode}
    (h : Serves R a (tr ++ [.read_failed (.backend a) ec])) (hec : ec ≠ .operation_aborted) :
    receivedFrom (.backend a) tr = R :=
  ((justified_concat_iff.mp h.closes).2 ec rfl hec).2

/-- One more action keeps to the setting: what is received is still of `R`, a read from
the backend that fails is at its end, and a write that fails was cancelled. -/
theorem Serves.concat {R : Bytes} {a : Attempt} {tr : List Action} {x : Action}
    (h : Serves R a tr) (hsends : receivedFrom (.backend a) (tr ++ [x]) <+: R)
    (hread : ∀ ec, x = .read_failed (.backend a) ec → ec ≠ .operation_aborted →
      ec = .eof ∧ receivedFrom (.backend a) tr = R)
    (hwrite : ∀ p ec, x = .write_failed p ec → ec = .operation_aborted) :
    Serves R a (tr ++ [x]) where
  sends := hsends
  closes := justified_concat_iff.mpr ⟨h.closes, hread⟩
  writes_succeed := by
    intro ec hx
    rcases List.mem_append.mp hx with hx | hx
    · exact h.writes_succeed ec hx
    · exact hwrite _ ec (List.mem_singleton.mp hx).symm
  client_open := by
    intro ec hx
    rcases List.mem_append.mp hx with hx | hx
    · exact h.client_open ec hx
    · exact hwrite _ ec (List.mem_singleton.mp hx).symm

/-- An action that receives nothing from the backend leaves what it has sent. -/
theorem Serves.sends_concat {R : Bytes} {a : Attempt} {tr : List Action} {x : Action}
    (h : Serves R a tr) (hx : x.bytesFrom (.backend a) = []) :
    receivedFrom (.backend a) (tr ++ [x]) <+: R := by
  rw [receivedFrom_append, receivedFrom_cons, hx, receivedFrom_nil, List.append_nil,
    List.append_nil]
  exact h.sends

/-! ## The client's end of sending -/

/-- What is asked of an action in attempt `a` for `R` to arrive: a read from the client
ends only with all of `R` read from the backend, and a write to the client is not cut
short by a cancellation. -/
def InTime (R : Bytes) (a : Attempt) (pre : List Action) : Action → Prop
  | .read_failed .client ec => ec ≠ .operation_aborted → receivedFrom (.backend a) pre = R
  | .write_failed .client ec => ec ≠ .operation_aborted
  | _ => True

/-- From the connection of attempt `a` on, everything is in time. -/
def EndsInTime (R : Bytes) (a : Attempt) (tr : List Action) : Prop :=
  Justified (fun pre x => Accepted a pre → InTime R a pre x) tr

/-- The failed operations on the client's socket. -/
def Action.clientFailed : Action → Bool
  | .read_failed .client _ => true
  | .write_failed .client _ => true
  | _ => false

theorem inTime_of_not_clientFailed {R : Bytes} {a : Attempt} {pre : List Action} {x : Action}
    (h : x.clientFailed = false) : InTime R a pre x := by
  unfold Action.clientFailed at h
  unfold InTime
  split <;> simp_all

/-- Actions other than those leave the question as it is. -/
theorem endsInTime_append_iff {R : Bytes} {a : Attempt} {tr acts : List Action}
    (h : ∀ x ∈ acts, x.clientFailed = false) :
    EndsInTime R a (tr ++ acts) ↔ EndsInTime R a tr := by
  constructor
  · exact Justified.left
  · intro htr
    exact Justified.append htr fun x hx _ _ => inTime_of_not_clientFailed (h x hx)

/-- One more action on the client's socket. -/
theorem endsInTime_concat_iff {R : Bytes} {a : Attempt} {tr : List Action} {x : Action}
    (hacc : Accepted a tr) :
    EndsInTime R a (tr ++ [x]) ↔ EndsInTime R a tr ∧ InTime R a tr x := by
  unfold EndsInTime
  rw [justified_concat_iff]
  constructor
  · intro h
    exact ⟨h.1, h.2 hacc⟩
  · intro h
    exact ⟨h.1, fun _ => h.2⟩

/-- Nothing is asked before the connection. -/
theorem endsInTime_of_not_accepted {R : Bytes} {a : Attempt} {tr : List Action}
    (h : ¬ Accepted a tr) : EndsInTime R a tr := by
  intro pre x post hs hacc
  apply absurd _ h
  rw [hs]
  exact hacc.append

/-! ## The race of the attempt -/

/-- What is known in the race of attempt `a`, by which of the relays has returned. -/
structure Raced (R : Bytes) (a : Attempt) (race : Race) (tr : List Action) : Prop where
  accepted : Accepted a tr
  both_run : race.upstream ≠ .returned → race.downstream ≠ .returned → EndsInTime R a tr
  down_first : race.upstream ≠ .returned → race.downstream = .returned →
    receivedFrom (.backend a) tr = R ∧ sentTo .client tr = R ∧ EndsInTime R a tr
  up_first : race.upstream = .returned → race.downstream ≠ .returned →
    (EndsInTime R a tr ↔ receivedFrom (.backend a) tr = R)
  both_returned : race.upstream = .returned → race.downstream = .returned →
    (sentTo .client tr = R ↔ EndsInTime R a tr)

theorem raced_start {R : Bytes} {a : Attempt} {tr : List Action} (hacc : Accepted a tr)
    (h : EndsInTime R a tr) : Raced R a .start tr where
  accepted := hacc
  both_run := fun _ _ => h
  down_first := by simp [Race.start]
  up_first := by simp [Race.start]
  both_returned := by simp [Race.start]

/-- The upstream relay moves. If it returns first, on the client's end, it is in time
exactly if all of `R` has been read. -/
theorem Raced.up {R : Bytes} {a : Attempt} {race : Race} {tr acts : List Action}
    {c : Completion} {p' : RelayPoint} {chunk : Option Bytes} (h : Raced R a race tr)
    (hserves : Serves R a (tr ++ acts))
    (hr : RelayMove .client (.backend a) (race.downstream = .returned) race.upstream c p' acts
      chunk) :
    Raced R a { race with upstream := p' } (tr ++ acts) := by
  obtain ⟨up, down, started⟩ := race
  dsimp only at hr ⊢
  have hrecv := hr.receivedFrom_other (q := .backend a) (by simp)
  have hsent := hr.sentTo_other (q := .client) (by simp)
  have hrun : up ≠ .returned := hr.running
  by_cases hdown : down = .returned
  · -- the response is through; whatever ends the upstream relay now is in time
    obtain ⟨hR, hS, hin⟩ := h.down_first hrun hdown
    have hin' : EndsInTime R a (tr ++ acts) := by
      cases hr with
      | read_failed ec _ => exact (endsInTime_concat_iff h.accepted).mpr ⟨hin, fun _ => hR⟩
      | _ => exact (endsInTime_append_iff (by simp [Action.clientFailed])).mpr hin
    have hR' : receivedFrom (.backend a) (tr ++ acts) = R := by
      rw [receivedFrom_append, hrecv, List.append_nil, hR]
    have hS' : sentTo .client (tr ++ acts) = R := by
      rw [sentTo_append, hsent, List.append_nil, hS]
    exact {
      accepted := h.accepted.append
      both_run := fun _ hne => absurd hdown hne
      down_first := fun _ _ => ⟨hR', hS', hin'⟩
      up_first := fun _ hne => absurd hdown hne
      both_returned := fun _ _ => ⟨fun _ => hin', fun _ => hS'⟩ }
  · have hin := h.both_run hrun hdown
    have hup : p' = .returned →
        (EndsInTime R a (tr ++ acts) ↔ receivedFrom (.backend a) tr = R) := by
      rintro rfl
      cases hr with
      | read_late _ _ _ hcan => simp [hdown] at hcan
      | wrote_late _ _ hcan => simp [hdown] at hcan
      | read_failed ec hec =>
          have hne : ec ≠ .operation_aborted := fun hab => by simpa [hdown] using hec hab
          rw [endsInTime_concat_iff h.accepted]
          exact ⟨fun hi => hi.2 hne, fun hR => ⟨hin, fun _ => hR⟩⟩
      | write_failed rest out c ec _ _ hec =>
          -- a write to the backend has failed, which it does not
          have hab := hserves.writes_succeed ec (by simp)
          simpa [hdown] using hec hab
    have hin' : p' ≠ .returned → EndsInTime R a (tr ++ acts) := by
      intro hp'
      cases hr <;> first
        | exact absurd rfl hp'
        | exact (endsInTime_append_iff (by simp [Action.clientFailed])).mpr hin
    exact {
      accepted := h.accepted.append
      both_run := fun hne _ => hin' hne
      down_first := fun _ hret => absurd hret hdown
      up_first := fun hret _ => by
        rw [hup hret, receivedFrom_append, hrecv, List.append_nil]
      both_returned := fun _ hret => absurd hret hdown }

/-- The downstream relay ends cancelled. Nothing it reads now is written, so all that
counts is what had been read before and whether the write under way completes. -/
theorem cancelled_down {R : Bytes} {a : Attempt} {down p' : RelayPoint} {tr acts : List Action}
    {c : Completion} {chunk : Option Bytes} (hacc : Accepted a tr)
    (hserves : Serves R a (tr ++ acts))
    (hcarried : down.Carried (receivedFrom (.backend a) tr) (sentTo .client tr))
    (hbusy : down ≠ .writing [])
    (hr : RelayMove (.backend a) .client true down c p' acts chunk)
    (hin : EndsInTime R a tr ↔ receivedFrom (.backend a) tr = R) :
    sentTo .client (tr ++ acts) = R ↔ EndsInTime R a (tr ++ acts) := by
  cases hr with
  | read _ _ _ hc => cases hc
  | wrote _ _ _ _ _ _ hc => cases hc
  | wrote_all _ _ hc => cases hc
  | read_late chunk _ _ _ =>
      have hsent : sentTo .client tr = receivedFrom (.backend a) tr := hcarried
      rw [endsInTime_append_iff (by simp [Action.clientFailed]), hin, ← hsent]
      simp [Action.bytesTo]
  | read_failed ec _ =>
      have hsent : sentTo .client tr = receivedFrom (.backend a) tr := hcarried
      rw [endsInTime_append_iff (by simp [Action.clientFailed]), hin, ← hsent]
      simp [Action.bytesTo]
  | wrote_late rest _ _ =>
      have hsent : sentTo .client tr ++ rest = receivedFrom (.backend a) tr := hcarried
      rw [endsInTime_append_iff (by simp [Action.clientFailed]), hin, ← hsent]
      simp [Action.bytesTo]
  | write_failed rest out c ec _ hshort _ =>
      -- cut short: not everything that was read is sent, and that was at most `R`
      have hsent : sentTo .client tr ++ rest = receivedFrom (.backend a) tr := hcarried
      have hout : out.length < rest.length := hshort (by rintro rfl; exact hbusy rfl)
      have hlen : (sentTo .client tr).length + rest.length ≤ R.length := by
        have hle := hserves.left.sends.length_le
        rw [← hsent, List.length_append] at hle
        exact hle
      have hab := hserves.client_open ec (by simp)
      refine iff_of_false ?_ ?_
      · intro hR
        have hcount := congrArg List.length hR
        simp [Action.bytesTo] at hcount
        omega
      · intro hend
        rw [List.append_cons, endsInTime_concat_iff hacc.append] at hend
        exact hend.2 hab

/-- The downstream relay moves. If it returns first, it has met the end of `R`. -/
theorem Raced.down {R : Bytes} {a : Attempt} {race : Race} {tr acts : List Action}
    {c : Completion} {p' : RelayPoint} {chunk : Option Bytes} (h : Raced R a race tr)
    (hserves : Serves R a (tr ++ acts))
    (hcarried : race.downstream.Carried (receivedFrom (.backend a) tr) (sentTo .client tr))
    (hbusy : race.downstream ≠ .writing [])
    (hr : RelayMove (.backend a) .client (race.upstream = .returned) race.downstream c p' acts
      chunk) (started : Bool) :
    Raced R a { race with downstream := p', response_started := started } (tr ++ acts) := by
  obtain ⟨up, down, st⟩ := race
  dsimp only at hr hcarried hbusy ⊢
  have hrun : down ≠ .returned := hr.running
  by_cases hup : up = .returned
  · have hin := h.up_first hup hrun
    have hp' : p' = .returned := by
      cases hr <;> first
        | rfl
        | simp_all
    have hover : sentTo .client (tr ++ acts) = R ↔ EndsInTime R a (tr ++ acts) := by
      simp only [hup, decide_true] at hr
      exact cancelled_down h.accepted hserves hcarried hbusy hr hin
    exact {
      accepted := h.accepted.append
      both_run := fun hne _ => absurd hup hne
      down_first := fun hne _ => absurd hup hne
      up_first := fun _ hne => absurd hp' hne
      both_returned := fun _ _ => hover }
  · have hin := h.both_run hup hrun
    simp only [hup, decide_false] at hr
    have hin' : EndsInTime R a (tr ++ acts) := by
      cases hr with
      | write_failed rest out c ec _ _ hec =>
          exact absurd (hec (hserves.client_open ec (by simp))) (by simp)
      | _ => exact (endsInTime_append_iff (by simp [Action.clientFailed])).mpr hin
    have hdone : p' = .returned → receivedFrom (.backend a) (tr ++ acts) = R
        ∧ sentTo .client (tr ++ acts) = R := by
      rintro rfl
      cases hr with
      | read_late _ _ _ hc => cases hc
      | wrote_late _ _ hc => cases hc
      | read_failed ec hec =>
          have hsent : sentTo .client tr = receivedFrom (.backend a) tr := hcarried
          have hR := hserves.read_failed fun hab => by simpa using hec hab
          simp [Action.bytesFrom, Action.bytesTo, hsent, hR]
      | write_failed rest out c ec _ _ hec =>
          exact absurd (hec (hserves.client_open ec (by simp))) (by simp)
    exact {
      accepted := h.accepted.append
      both_run := fun _ _ => hin'
      down_first := fun _ hret => ⟨(hdone hret).1, (hdone hret).2, hin'⟩
      up_first := fun hret _ => absurd hret hup
      both_returned := fun hret _ => absurd hret hup }

namespace Session

/-! ## The session around it -/

/-- A write under way has bytes left. -/
def Busy (s : Session) : Prop :=
  match s.point with
  | .replaying _ _ rest => rest ≠ []
  | .relaying _ _ race => race.downstream ≠ .writing []
  | _ => True

/-- The replay is only begun with something to replay. -/
theorem busy_use (s : Session) (a : Attempt) (socket : ℕ) :
    Busy { s with point := s.usePoint a socket } := by
  unfold Busy usePoint
  by_cases hbuf : s.req_buf.data = []
  · simp [hbuf, Race.start]
  · simp [hbuf]

theorem Move.busy {s s' : Session} {e : Event} {acts : List Action} (hm : Move s e s' acts)
    (h : Busy s) : Busy s' := by
  cases hm with
  | pooled b now socket hp => exact busy_use s _ socket
  | connected a socket hp => exact busy_use s a socket
  | replayed a socket rest out rest' c hp hsplit hrest => exact hrest
  | replay_done a socket rest c hp => simp [Busy, Race.start]
  | relayed_up a socket race c p' acts chunk hp hr =>
      simp only [Busy, hp] at h
      exact h
  | relayed_down a socket race c p' acts chunk hp hr =>
      generalize race.downstream = down at hr
      rintro (rfl : p' = .writing [])
      cases hr with
      | read _ hpos _ _ => simp at hpos
      | wrote _ _ _ _ _ hrest _ => exact hrest rfl
  | drained chunk c hp => simp [Busy, hp]
  | _ => simp [Busy]

/-- Where a session stands with attempt `a`: it has no connection yet; it replays; it
is in the race; it has ended there; or it has gone on to something else. -/
inductive Tracked (R : Bytes) (a : Attempt) (s : Session) (tr : List Action) : Prop
  | before (h : ¬ Accepted a tr)
  | replaying (socket : ℕ) (rest : Bytes) (hp : s.point = .replaying a socket rest)
      (hacc : Accepted a tr) (h : EndsInTime R a tr)
  | racing (socket : ℕ) (race : Race) (hp : s.point = .relaying a socket race)
      (h : Raced R a race tr)
  | ended (hp : s.point = .finished) (hlast : s.attempts = a.number)
      (h : sentTo .client tr = R ↔ EndsInTime R a tr)
  | lost (hlast : a.number < s.attempts) (h : ¬ EndsInTime R a tr)

/-- What is kept about attempt `a` while its backend serves `R`. -/
structure Kept (R : Bytes) (a : Attempt) (s : Session) (tr : List Action) : Prop where
  numbered : Numbered s tr
  client : ClientBytes s tr
  busy : Busy s
  tracked : Tracked R a s tr

/-- With the connection the tracking of the attempt begins. -/
theorem tracked_use {R : Bytes} {a a' : Attempt} {s : Session} {socket : ℕ}
    {tr acts : List Action} (h : ¬ Accepted a tr)
    (hacts : ∀ x ∈ acts, x.clientFailed = false)
    (hacc : ∀ socket', .acquired a socket' ∈ acts → a = a')
    (hacc' : Accepted a' (tr ++ acts)) :
    Tracked R a { s with point := s.usePoint a' socket } (tr ++ acts) := by
  by_cases ha : a = a'
  · subst ha
    have hin : EndsInTime R a (tr ++ acts) :=
      (endsInTime_append_iff hacts).mpr (endsInTime_of_not_accepted h)
    by_cases hbuf : s.req_buf.data = []
    · refine .racing socket .start ?_ (raced_start hacc' hin)
      simp [usePoint, hbuf]
    · refine .replaying socket s.req_buf.data ?_ hacc' hin
      simp [usePoint, hbuf]
  · refine .before ?_
    rintro ⟨socket', hx⟩
    rcases List.mem_append.mp hx with hx | hx
    · exact h ⟨socket', hx⟩
    · exact ha (hacc socket' hx)

/-- A move that gets no connection leaves an attempt without one. -/
theorem tracked_before {R : Bytes} {a : Attempt} {s' : Session} {tr acts : List Action}
    (h : ¬ Accepted a tr) (hacts : ∀ socket, .acquired a socket ∉ acts) :
    Tracked R a s' (tr ++ acts) := by
  refine .before ?_
  rintro ⟨socket, hx⟩
  rcases List.mem_append.mp hx with hx | hx
  · exact h ⟨socket, hx⟩
  · exact hacts socket hx

/-- Attempts are counted up. -/
theorem Move.attempts_le {s s' : Session} {e : Event} {acts : List Action}
    (hm : Move s e s' acts) : s.attempts ≤ s'.attempts := by
  cases hm <;> simp

/-- The race of the attempt ends without a response: the attempt is lost, and not in
time. -/
theorem tracked_lost {R : Bytes} {a : Attempt} {s s' : Session} {socket : ℕ} {race : Race}
    {tr acts : List Action} (hR : R ≠ []) (hp : s.point = .relaying a socket race)
    (hup : race.upstream = .returned) (hdown : race.downstream = .returned)
    (hst : race.response_started = false) (hb : ClientBytes s tr) (h : Raced R a race tr)
    (hlast : a.number < s'.attempts) : Tracked R a s' (tr ++ acts) := by
  refine .lost hlast ?_
  intro hin
  have hsent := (h.both_returned hup hdown).mpr (Justified.left hin)
  rw [clientBytes_failed hp hst hb] at hsent
  exact hR hsent.symm

/-- **One move keeps track of the attempt.** -/
theorem Move.tracked {R : Bytes} {a : Attempt} {s s' : Session} {e : Event}
    {acts : List Action} (hm : Move s e s' acts) {tr : List Action} (hR : R ≠ [])
    (hserves : Serves R a (tr ++ acts)) (h : Kept R a s tr) : Tracked R a s' (tr ++ acts) := by
  cases h.tracked with
  | before hno =>
      cases hm with
      | pooled b now socket hp =>
          apply tracked_use hno
          · simp [Action.clientFailed]
          · simp
          · exact ⟨socket, by simp⟩
      | connected a' socket hp =>
          apply tracked_use hno
          · simp [Action.clientFailed]
          · simp
          · exact ⟨socket, by simp⟩
      | relayed_up a' socket race c p' acts chunk hp hr =>
          exact tracked_before hno (hr.no_acquired a)
      | relayed_down a' socket race c p' acts chunk hp hr =>
          exact tracked_before hno (hr.no_acquired a)
      | _ => exact tracked_before hno (by simp)
  | replaying socket rest hp hacc hin =>
      have hin' : ∀ acts : List Action, (∀ x ∈ acts, x.clientFailed = false) →
          EndsInTime R a (tr ++ acts) := fun acts hx => (endsInTime_append_iff hx).mpr hin
      cases hm with
      | replayed a' socket' rest₀ out rest' c hp' hsplit hrest =>
          rw [hp] at hp'
          cases hp'
          exact .replaying socket rest' rfl hacc.append (hin' _ (by simp [Action.clientFailed]))
      | replay_done a' socket' rest₀ c hp' =>
          rw [hp] at hp'
          cases hp'
          exact .racing socket .start rfl
            (raced_start hacc.append (hin' _ (by simp [Action.clientFailed])))
      | replay_failed a' socket' rest₀ out c ec now hp' hout hec =>
          rw [hp] at hp'
          cases hp'
          exact absurd (hserves.writes_succeed ec (by simp)) hec
      | _ => simp_all
  | racing socket race hp hraced =>
      have hnum : a.number = s.attempts := h.numbered.current a (by rw [hp]; rfl)
      have hbytes := h.client
      have hbusy := h.busy
      cases hm with
      | relayed_up a' socket' race' c p' acts chunk hp' hr =>
          rw [hp] at hp'
          cases hp'
          exact .racing socket _ rfl (hraced.up hserves hr)
      | relayed_down a' socket' race' c p' acts chunk hp' hr =>
          rw [hp] at hp'
          cases hp'
          simp only [ClientBytes, hp] at hbytes
          simp only [Busy, hp] at hbusy
          exact .racing socket _ rfl (hraced.down hserves hbytes.1 hbusy hr _)
      | succeeded a' socket' race' now hp' hup hdown hst =>
          rw [hp] at hp'
          cases hp'
          refine .ended rfl hnum.symm ?_
          rw [endsInTime_append_iff (by simp [Action.clientFailed]),
            ← hraced.both_returned hup hdown]
          simp [Action.bytesTo]
      | failed a' socket' race' now hp' hup hdown hst hcap =>
          rw [hp] at hp'
          cases hp'
          exact tracked_lost hR hp hup hdown hst hbytes hraced (by simp [hnum])
      | failed_capped a' socket' race' now hp' hup hdown hst hcap =>
          rw [hp] at hp'
          cases hp'
          exact tracked_lost hR hp hup hdown hst hbytes hraced (by simp [hnum])
      | _ => simp_all
  | ended hp hlast hiff => cases hm <;> simp_all
  | lost hlast hnot =>
      refine .lost ?_ fun hin => hnot (Justified.left hin)
      have hle := hm.attempts_le
      omega

theorem Move.kept {R : Bytes} {a : Attempt} {s s' : Session} {e : Event} {acts : List Action}
    (hm : Move s e s' acts) {tr : List Action} (hR : R ≠ []) (hserves : Serves R a (tr ++ acts))
    (h : Kept R a s tr) : Kept R a s' (tr ++ acts) where
  numbered := hm.numbered h.numbered
  client := hm.clientBytes h.numbered h.client
  busy := hm.busy h.busy
  tracked := hm.tracked hR hserves h

/-- **A run keeps track of the attempt**, as long as its backend serves `R`. -/
theorem kept_run {R : Bytes} {a : Attempt} {client_key : Bytes} {max_attempts : ℤ}
    {ins : List Input} {s : Session} {tr : List Action}
    (h : exec solo (start client_key max_attempts) ins = some (s, tr)) (hR : R ≠ [])
    (hserves : Serves R a tr) : Kept R a s tr := by
  -- what is served at the end of the run was served all along it
  have hinv := exec_invariant (I := fun s tr => Serves R a tr → Kept R a s tr)
    (fun s tr i s' out hs he hsv => (solo_move he).kept hR hsv (hs hsv.left)) ?_ h
  · exact hinv hserves
  · intro _
    exact ⟨numbered_start client_key max_attempts, rfl, trivial,
      .before (by rintro ⟨socket, hx⟩; cases hx)⟩

/-! ## The session can be carried to its end -/

/-- The session has ended, attempt `a` was its last, and the client has been sent
exactly `R`. -/
structure Delivered (R : Bytes) (a : Attempt) (s : Session) (tr : List Action) : Prop where
  finished : s.point = .finished
  last : s.attempts = a.number
  sent : sentTo .client tr = R

/-- The run so far can go on, in time and with the backend serving `R`, to the delivery
of `R`. -/
def Completes (R : Bytes) (a : Attempt) (s : Session) (tr : List Action) : Prop :=
  ∃ js t tr', exec solo s js = some (t, tr') ∧ Serves R a (tr ++ tr')
    ∧ EndsInTime R a (tr ++ tr') ∧ Delivered R a t (tr ++ tr')

/-- The run so far is one the backend serves `R` in, and in time. -/
structure Going (R : Bytes) (a : Attempt) (s : Session) (tr : List Action) : Prop where
  kept : Kept R a s tr
  accepted : Accepted a tr
  serves : Serves R a tr
  in_time : EndsInTime R a tr

/-- In its race the attempt is tracked by `Raced`. -/
theorem Going.raced {R : Bytes} {a : Attempt} {s : Session} {socket : ℕ} {race : Race}
    {tr : List Action} (h : Going R a s tr) (hp : s.point = .relaying a socket race) :
    Raced R a race tr := by
  cases h.kept.tracked with
  | before hno => exact absurd h.accepted hno
  | replaying _ _ hp' => rw [hp] at hp'; cases hp'
  | racing _ _ hp' hraced =>
      rw [hp] at hp'
      cases hp'
      exact hraced
  | ended hp' => rw [hp] at hp'; cases hp'
  | lost hlast =>
      have hnum := h.kept.numbered.current a (by rw [hp]; rfl)
      omega

/-- A chunk the downstream relay is writing has bytes left. -/
theorem Busy.writing {s : Session} {a : Attempt} {socket : ℕ} {race : Race} {rest : Bytes}
    (h : Busy s) (hp : s.point = .relaying a socket race)
    (hdown : race.downstream = .writing rest) : 1 ≤ rest.length := by
  apply List.length_pos_of_ne_nil
  rintro rfl
  simp only [Busy, hp] at h
  exact h hdown

section Completing

variable {R : Bytes} {a : Attempt} {s s' : Session} {socket : ℕ} {race : Race}
  {tr : List Action} (sh : Shared)

/-- One step on the way. -/
theorem Going.step {i : Input} {out : List Action} (h : Going R a s tr) (hR : R ≠ [])
    (hs : solo s i = some (s', out)) (hserves : Serves R a (tr ++ out))
    (hin : EndsInTime R a (tr ++ out))
    (hgo : Going R a s' (tr ++ out) → Completes R a s' (tr ++ out)) : Completes R a s tr := by
  obtain ⟨js, t, tr', hrun, hrest⟩ := hgo
    ⟨(solo_move hs).kept hR hserves h.kept, h.accepted.append, hserves, hin⟩
  refine ⟨i :: js, t, out ++ tr', exec_cons_iff.mpr ⟨s', out, tr', hs, hrun, rfl⟩, ?_⟩
  rw [← List.append_assoc]
  exact hrest

include sh

/-- Both relays have returned: the session records its success and ends. -/
theorem completes_over (h : Going R a s tr) (hR : R ≠ [])
    (hp : s.point = .relaying a socket race) (hup : race.upstream = .returned)
    (hdown : race.downstream = .returned) : Completes R a s tr := by
  have hsent : sentTo .client tr = R := ((h.raced hp).both_returned hup hdown).mpr h.in_time
  have hst : race.response_started = true := by
    by_contra hst
    have hnil := clientBytes_failed hp (by simpa using hst) h.kept.client
    exact hR (hsent.symm.trans hnil)
  have hs : solo s ⟨sh, 0, .resume⟩ = some ({ s with point := .finished },
      [.released a socket, .breaker a (.record_success 0) none]) := by
    simp [solo, step, hp, Race.over, hup, hdown, raceOver, hst, record_success]
  refine ⟨[⟨sh, 0, .resume⟩], _, _, exec_cons_iff.mpr ⟨_, _, _, hs, rfl, rfl⟩, ?_, ?_, ?_⟩
  · have hreleased := h.serves.concat (x := .released a socket) (h.serves.sends_concat rfl)
      (by simp) (by simp)
    rw [List.append_nil, List.append_cons]
    exact hreleased.concat (hreleased.sends_concat rfl) (by simp) (by simp)
  · rw [List.append_nil]
    exact (endsInTime_append_iff (by simp [Action.clientFailed])).mpr h.in_time
  · refine ⟨rfl, (h.kept.numbered.current a (by rw [hp]; rfl)).symm, ?_⟩
    simpa [Action.bytesTo] using hsent

/-- The downstream relay has returned: the other one is cancelled. -/
theorem completes_down_returned (h : Going R a s tr) (hR : R ≠ [])
    (hp : s.point = .relaying a socket race) (hdown : race.downstream = .returned) :
    Completes R a s tr := by
  cases hup : race.upstream with
  | returned => exact completes_over sh h hR hp hup hdown
  | reading =>
      have hs : solo s ⟨sh, 0, .relay .upstream (.error .operation_aborted)⟩
          = some ({ s with point := .relaying a socket { race with upstream := .returned } },
            [.read_failed .client .operation_aborted]) := by
        simp [solo, Session.step, hp, Race.resume, relay, async_read_some, hup, hdown,
          RequestBuffer.capture]
      refine h.step hR hs (h.serves.concat (h.serves.sends_concat rfl) (by simp) (by simp)) ?_ ?_
      · exact (endsInTime_concat_iff h.accepted).mpr ⟨h.in_time, by simp [InTime]⟩
      · intro hgo
        exact completes_over sh hgo hR rfl rfl hdown
  | writing rest =>
      have hs : solo s ⟨sh, 0, .relay .upstream (.error .operation_aborted)⟩
          = some ({ s with point := .relaying a socket { race with upstream := .returned } },
            [.sent (.backend a) [], .write_failed (.backend a) .operation_aborted]) := by
        simp [solo, Session.step, hp, Race.resume, relay, async_write, hup, hdown,
          RequestBuffer.capture]
      refine h.step hR hs ?_ ?_ ?_
      · have hsent := h.serves.concat (x := .sent (.backend a) []) (h.serves.sends_concat rfl)
          (by simp) (by simp)
        rw [List.append_cons]
        exact hsent.concat (hsent.sends_concat rfl) (by simp) (by simp)
      · exact (endsInTime_append_iff (by simp [Action.clientFailed])).mpr h.in_time
      · intro hgo
        exact completes_over sh hgo hR rfl rfl hdown

/-- The upstream relay has returned, in time: the write under way completes. -/
theorem completes_up_returned (h : Going R a s tr) (hR : R ≠ [])
    (hp : s.point = .relaying a socket race) (hup : race.upstream = .returned) :
    Completes R a s tr := by
  cases hdown : race.downstream with
  | returned => exact completes_over sh h hR hp hup hdown
  | reading =>
      have hs : solo s ⟨sh, 0, .relay .downstream (.error .operation_aborted)⟩
          = some ({ s with point := .relaying a socket { race with downstream := .returned } },
            [.read_failed (.backend a) .operation_aborted]) := by
        simp [solo, Session.step, hp, Race.resume, relay, async_read_some, hup, hdown]
      refine h.step hR hs (h.serves.concat (h.serves.sends_concat rfl) (by simp) (by simp)) ?_ ?_
      · exact (endsInTime_append_iff (by simp [Action.clientFailed])).mpr h.in_time
      · intro hgo
        exact completes_over sh hgo hR rfl hup rfl
  | writing rest =>
      have hpos : 1 ≤ rest.length := h.kept.busy.writing hp hdown
      have hs : solo s ⟨sh, 0, .relay .downstream (.wrote_some rest.length)⟩
          = some ({ s with point := .relaying a socket { race with downstream := .returned } },
            [.sent .client rest]) := by
        simp [solo, Session.step, hp, Race.resume, relay, async_write, hup, hdown, hpos]
      refine h.step hR hs (h.serves.concat (h.serves.sends_concat rfl) (by simp) (by simp)) ?_ ?_
      · exact (endsInTime_append_iff (by simp [Action.clientFailed])).mpr h.in_time
      · intro hgo
        exact completes_over sh hgo hR rfl hup rfl

/-- The downstream relay has a chunk to write: it writes it. -/
theorem completes_writing {rest : Bytes} (h : Going R a s tr) (hR : R ≠ [])
    (hp : s.point = .relaying a socket race) (hup : race.upstream ≠ .returned)
    (hdown : race.downstream = .writing rest)
    (hread : ∀ s' : Session, s'.point = .relaying a socket { race with downstream := .reading } →
      Going R a s' (tr ++ [.sent .client rest]) → Completes R a s' (tr ++ [.sent .client rest])) :
    Completes R a s tr := by
  have hpos : 1 ≤ rest.length := h.kept.busy.writing hp hdown
  have hs : solo s ⟨sh, 0, .relay .downstream (.wrote_some rest.length)⟩
      = some ({ s with point := .relaying a socket { race with downstream := .reading } },
        [.sent .client rest]) := by
    simp [solo, Session.step, hp, Race.resume, relay, async_write, hup, hdown, hpos]
  refine h.step hR hs (h.serves.concat (h.serves.sends_concat rfl) (by simp) (by simp)) ?_
    (hread _ rfl)
  exact (endsInTime_append_iff (by simp [Action.clientFailed])).mpr h.in_time

/-- The downstream relay reads: the rest of `R` comes in and is written byte by byte,
then the backend closes. The induction is on how much of `R` is missing. -/
theorem completes_reading (n : ℕ) (h : Going R a s tr) (hR : R ≠ [])
    (hp : s.point = .relaying a socket race) (hup : race.upstream ≠ .returned)
    (hdown : race.downstream = .reading)
    (hn : R.length ≤ (receivedFrom (.backend a) tr).length + n) : Completes R a s tr := by
  induction n generalizing s race tr with
  | zero =>
      have hall : receivedFrom (.backend a) tr = R :=
        h.serves.sends.eq_of_length_le (by simpa using hn)
      have hs : solo s ⟨sh, 0, .relay .downstream (.error .eof)⟩
          = some ({ s with point := .relaying a socket { race with downstream := .returned } },
            [.read_failed (.backend a) .eof]) := by
        simp [solo, Session.step, hp, Race.resume, relay, async_read_some, hdown]
      refine h.step hR hs (h.serves.concat (h.serves.sends_concat rfl) ?_ (by simp)) ?_ ?_
      · rintro ec ⟨⟩ -
        exact ⟨rfl, hall⟩
      · exact (endsInTime_append_iff (by simp [Action.clientFailed])).mpr h.in_time
      · intro hgo
        exact completes_down_returned sh hgo hR rfl rfl
  | succ n ih =>
      obtain ⟨missing, hmissing⟩ := h.serves.sends
      by_cases hnil : missing = []
      · exact ih h hp hup hdown (by rw [← hmissing, hnil]; simp)
      · -- the next byte of `R`, read and written
        obtain ⟨byte, rest, rfl⟩ := List.exists_cons_of_ne_nil hnil
        have hs : solo s ⟨sh, 0, .relay .downstream (.read_some [byte])⟩
            = some ({ s with point := .relaying a socket { race with
                downstream := .writing [byte]
                response_started := true } },
              [.received (.backend a) [byte]]) := by
          simp [solo, Session.step, hp, Race.resume, relay, async_read_some, hup, hdown]
        refine h.step hR hs (h.serves.concat ?_ (by simp) (by simp)) ?_ ?_
        · refine ⟨rest, ?_⟩
          simpa [Action.bytesFrom] using hmissing
        · exact (endsInTime_append_iff (by simp [Action.clientFailed])).mpr h.in_time
        · intro hgo
          refine completes_writing sh hgo hR rfl hup rfl ?_
          intro s' hp' hgo'
          refine ih hgo' hp' hup rfl ?_
          simp [Action.bytesFrom]
          omega

/-- **A session in the attempt can be carried to the delivery of `R`**, as long as
everything has been in time. -/
theorem completes (h : Going R a s tr) (hR : R ≠ []) (hat : s.point.attempt = some a) :
    Completes R a s tr := by
  cases h.kept.tracked with
  | before hno => exact absurd h.accepted hno
  | ended hp => rw [hp] at hat; cases hat
  | lost hlast =>
      have hnum := h.kept.numbered.current a hat
      omega
  | replaying socket rest hp =>
      have hrest : rest ≠ [] := by
        have hbusy := h.kept.busy
        simp only [Busy, hp] at hbusy
        exact hbusy
      have hs : solo s ⟨sh, 0, .io (.wrote_some rest.length)⟩
          = some ({ s with point := .relaying a socket .start }, [.sent (.backend a) rest]) := by
        have hpos : 1 ≤ rest.length := List.length_pos_of_ne_nil hrest
        simp [solo, Session.step, hp, async_write, hpos]
      refine h.step hR hs (h.serves.concat (h.serves.sends_concat rfl) (by simp) (by simp)) ?_ ?_
      · exact (endsInTime_append_iff (by simp [Action.clientFailed])).mpr h.in_time
      · intro hgo
        exact completes_reading sh R.length hgo hR rfl (by simp [Race.start]) rfl (by omega)
  | racing socket race hp =>
      by_cases hup : race.upstream = .returned
      · exact completes_up_returned sh h hR hp hup
      · cases hdown : race.downstream with
        | returned => exact completes_down_returned sh h hR hp hdown
        | reading => exact completes_reading sh R.length h hR hp hup hdown (by omega)
        | writing rest =>
            refine completes_writing sh h hR hp hup hdown ?_
            intro s' hp' hgo
            exact completes_reading sh R.length hgo hR hp' hup rfl (by omega)

end Completing

/-! ## Delivery -/

/-- **No lost response, exactly when the client's end is in time.** Take any run of a
session, with a backend that was connected to in attempt `a`, takes all that is written
to it, sends `R` and closes, and with a client no write to which fails. Once the session
has left the attempt, it has ended there with the client having been sent exactly `R` if
and only if the client's end was in time. And as long as the session is in the attempt
and everything has been in time, it can be carried to that end. -/
theorem response_delivery (client_key : Bytes) (max_attempts : ℤ) (ins : List Input)
    (s : Session) (tr : List Action) (R : Bytes) (a : Attempt)
    (h : exec solo (start client_key max_attempts) ins = some (s, tr)) (hR : R ≠ [])
    (hacc : Accepted a tr) (hserves : Serves R a tr) :
    (s.point.attempt ≠ some a → (Delivered R a s tr ↔ EndsInTime R a tr))
    ∧ (s.point.attempt = some a → EndsInTime R a tr →
      ∃ js t tr', exec solo s js = some (t, tr') ∧ Serves R a (tr ++ tr')
        ∧ EndsInTime R a (tr ++ tr') ∧ Delivered R a t (tr ++ tr')) := by
  have hkept := kept_run h hR hserves
  constructor
  · intro hleft
    cases hkept.tracked with
    | before hno => exact absurd hacc hno
    | replaying socket rest hp => exact absurd (by rw [hp]; rfl) hleft
    | racing socket race hp => exact absurd (by rw [hp]; rfl) hleft
    | ended hp hlast hiff =>
        exact ⟨fun hd => hiff.mp hd.sent, fun hin => ⟨hp, hlast, hiff.mpr hin⟩⟩
    | lost hlast hnot =>
        refine iff_of_false ?_ hnot
        intro hd
        have hsame := hd.last
        omega
  · intro hat hin
    exact completes (.new 0 0 0 0 0 fun _ => 0) ⟨hkept, hacc, hserves, hin⟩ hR hat

/-- A client that half-closes once it has the whole response. -/
def halfCloseLast : List Input :=
  [.resume, .connected, .relay .upstream (.read_some [71]), .relay .upstream (.wrote_some 1),
    .relay .downstream (.read_some [50, 51]), .relay .downstream (.wrote_some 2),
    .relay .upstream (.error .eof), .relay .downstream (.error .operation_aborted),
    .resume].map (⟨.new 2 1 5 2 5000 (fun _ => 0), 0, ·⟩)

/-- Its end is in time, and the response has been delivered. -/
theorem response_delivery_half_close_last :
    ∃ s tr, exec solo (start [] 3) halfCloseLast = some (s, tr)
      ∧ Delivered [50, 51] ⟨0, 0⟩ s tr := by
  -- the trace, split at the client's end
  let before : List Action :=
    [.breaker ⟨0, 0⟩ (.allow_request 0) (some true), .acquire ⟨0, 0⟩, .acquired ⟨0, 0⟩ 0,
      .received .client [71], .sent (.backend ⟨0, 0⟩) [71],
      .received (.backend ⟨0, 0⟩) [50, 51], .sent .client [50, 51]]
  let after : List Action :=
    [.read_failed (.backend ⟨0, 0⟩) .operation_aborted, .released ⟨0, 0⟩ 0,
      .breaker ⟨0, 0⟩ (.record_success 0) none]
  refine ⟨_, before ++ [.read_failed .client .eof] ++ after, rfl, ?_⟩
  have hacc : Accepted ⟨0, 0⟩ before := ⟨0, by simp [before]⟩
  have hserves : Serves [50, 51] ⟨0, 0⟩ (before ++ [.read_failed .client .eof] ++ after) := by
    refine ⟨⟨[], by decide +kernel⟩, ?_, by simp [before, after], by simp [before, after]⟩
    refine justified_nil.append ?_
    simp [after]
  have hbefore : EndsInTime [50, 51] ⟨0, 0⟩ before := by
    refine justified_nil.append fun x hx pre _ => inTime_of_not_clientFailed ?_
    revert x
    simp [Action.clientFailed]
  have hend : EndsInTime [50, 51] ⟨0, 0⟩ (before ++ [.read_failed .client .eof]) :=
    (endsInTime_concat_iff hacc).mpr ⟨hbefore, fun _ => by decide +kernel⟩
  have hin : EndsInTime [50, 51] ⟨0, 0⟩ (before ++ [.read_failed .client .eof] ++ after) :=
    (endsInTime_append_iff (by simp [after, Action.clientFailed])).mpr hend
  exact ((response_delivery [] 3 halfCloseLast _ _ [50, 51] ⟨0, 0⟩ rfl (by simp)
    hacc.append.append hserves).1 (by simp [Point.attempt])).mpr hin

/-- A client that half-closes after its request, as soon as it is sent. -/
def halfCloseFirst : List Input :=
  [.resume, .connected, .relay .upstream (.read_some [71]), .relay .upstream (.wrote_some 1),
    .relay .upstream (.error .eof), .relay .downstream (.error .operation_aborted), .resume,
    .resume, .io (.wrote_some 126), .io (.error .eof)].map (⟨.new 2 1 5 2 5000 (fun _ => 0), 0, ·⟩)

/-- Its backend would answer `[50, 51]`; the client is sent the 503. -/
theorem response_delivery_half_close_first :
    ¬ ∀ (client_key : Bytes) (max_attempts : ℤ) (ins : List Input) (s : Session)
        (tr : List Action) (R : Bytes) (a : Attempt),
        exec solo (start client_key max_attempts) ins = some (s, tr) → R ≠ [] →
        Accepted a tr → Serves R a tr → s.point = .finished → sentTo .client tr = R := by
  intro h
  have hsent := h [] 1 halfCloseFirst _
    [.breaker ⟨0, 0⟩ (.allow_request 0) (some true), .acquire ⟨0, 0⟩, .acquired ⟨0, 0⟩ 0,
      .received .client [71], .sent (.backend ⟨0, 0⟩) [71], .read_failed .client .eof,
      .read_failed (.backend ⟨0, 0⟩) .operation_aborted, .released ⟨0, 0⟩ 0,
      .breaker ⟨0, 0⟩ (.record_failure 0) none, .fallback_503, .sent .client unavailable,
      .read_failed .client .eof]
    [50, 51] ⟨0, 0⟩ rfl (by simp) ⟨0, by simp⟩
    ⟨⟨[50, 51], by decide +kernel⟩, justified_nil.append (by simp), by simp, by simp⟩ rfl
  exact absurd hsent (by decide +kernel)

end Session

end AegisProxy
