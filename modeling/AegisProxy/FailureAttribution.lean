/-
Whose fault a recorded failure is.

After the race a session has one bit to judge by: `response_started`. If it is not set
the failure goes on the backend's account. That is right when the backend's side ended
the race -- a write to it failed, or it closed without a byte. It is wrong when the
client ended it: the upstream relay returns on the client's end of stream,
`operator||` cancels the read from the backend, the flag is not set, and
`record_failure` is called on a backend that did nothing.

`failure_attribution` says that this is the only way. In every run in which the client
never ends first (`ClientEndsFirst`) every recorded failure has a cause on the
backend's side before it in the trace; and in any run in which the client does, the
cancelled read ending with `operation_aborted` makes the session record a failure that
has none.
-/
import AegisProxy.Effects
import AegisProxy.Streams

set_option autoImplicit false

namespace AegisProxy

open Runs

/-! ## Faults of a backend -/

/-- Something failed on the backend's own side in attempt `a`: the connect, a write to
it, or -- with nothing received from it -- a read. An operation that ended with
`operation_aborted` was cancelled by the proxy and is nobody's failure. -/
inductive OwnFault (a : Attempt) (tr : List Action) : Prop
  | connect (h : .connect_failed a ∈ tr)
  | write (ec : ErrorCode) (h : .write_failed (.backend a) ec ∈ tr) (hec : ec ≠ .operation_aborted)
  | closed (ec : ErrorCode) (h : .read_failed (.backend a) ec ∈ tr) (hec : ec ≠ .operation_aborted)
      (hnone : receivedFrom (.backend a) tr = [])

/-- A fault stays a fault as long as nothing is received. -/
theorem OwnFault.append {a : Attempt} {tr acts : List Action} (h : OwnFault a tr)
    (hacts : receivedFrom (.backend a) acts = []) : OwnFault a (tr ++ acts) := by
  cases h with
  | connect h => exact .connect (List.mem_append_left _ h)
  | write ec h hec => exact .write ec (List.mem_append_left _ h) hec
  | closed ec h hec hnone =>
      refine .closed ec (List.mem_append_left _ h) hec ?_
      rw [receivedFrom_append, hnone, hacts, List.append_nil]

/-- Every recorded failure has its cause before it. -/
def Attributed (tr : List Action) : Prop :=
  Justified (fun pre x => ∀ a now, x = .breaker a (.record_failure now) none → OwnFault a pre) tr

/-- Actions that record no failure need no cause. -/
theorem Attributed.append {tr acts : List Action} (h : Attributed tr)
    (hacts : ∀ x ∈ acts, ∀ a now, x ≠ .breaker a (.record_failure now) none) :
    Attributed (tr ++ acts) :=
  Justified.append h fun x hx _ a now he => absurd he (hacts x hx a now)

namespace Session

/-- The client ends first: both relays of an attempt are running, the backend has sent
nothing yet, and the read from the client ends. -/
def ClientEndsFirst (s : Session) (i : Input) : Prop :=
  ∃ a socket race ec, s.point = .relaying a socket race ∧ race.upstream = .reading
    ∧ race.downstream ≠ .returned ∧ race.response_started = false
    ∧ i.event = .relay .upstream (.error ec)

/-! ## While both relays run

Up to the first return nothing has gone wrong in an attempt, whatever the run. -/

/-- No operation on the connection of attempt `a` has failed. -/
def NoFault (a : Attempt) (tr : List Action) : Prop :=
  .connect_failed a ∉ tr
    ∧ ∀ ec, .write_failed (.backend a) ec ∉ tr ∧ .read_failed (.backend a) ec ∉ tr

theorem NoFault.append {a : Attempt} {tr acts : List Action} (h : NoFault a tr)
    (hacts : NoFault a acts) : NoFault a (tr ++ acts) := by
  refine ⟨?_, fun ec => ⟨?_, ?_⟩⟩
  · simp [h.1, hacts.1]
  · simp [(h.2 ec).1, (hacts.2 ec).1]
  · simp [(h.2 ec).2, (hacts.2 ec).2]

theorem noFault_of_untouched {a : Attempt} {tr : List Action} (h : Untouched a tr) :
    NoFault a tr :=
  ⟨fun hx => h _ hx rfl, fun _ => ⟨fun hx => h _ hx rfl, fun hx => h _ hx rfl⟩⟩

/-- A relay that has not returned has had no failure. -/
theorem noFault_of_relayMove {src dst : Peer} {cancelled : Bool} {p p' : RelayPoint}
    {c : Completion} {acts : List Action} {chunk : Option Bytes} {a : Attempt}
    (hr : RelayMove src dst cancelled p c p' acts chunk) (hp' : p' ≠ .returned) :
    NoFault a acts := by
  cases hr <;> simp_all [NoFault]

/-- Before the race, and in it as long as both relays run, no operation of the attempt
has failed; and a downstream relay with something to write has set the flag. -/
def Unfaulted (s : Session) (tr : List Action) : Prop :=
  match s.point with
  | .replaying a _ _ => NoFault a tr
  | .relaying a _ race =>
    (race.response_started = false → ∀ rest, race.downstream ≠ .writing rest)
      ∧ (race.upstream ≠ .returned → race.downstream ≠ .returned → NoFault a tr)
  | _ => True

theorem unfaulted_use {s : Session} {a : Attempt} {socket : ℕ} {tr : List Action}
    (h : NoFault a tr) : Unfaulted { s with point := s.usePoint a socket } tr := by
  unfold Unfaulted usePoint
  by_cases hbuf : s.req_buf.data = []
  · rw [if_pos hbuf]
    exact ⟨by simp [Race.start], fun _ _ => h⟩
  · rw [if_neg hbuf]
    exact h

theorem Move.unfaulted {s s' : Session} {e : Event} {acts : List Action}
    (hm : Move s e s' acts) {tr : List Action} (hn : Numbered s tr) (h : Unfaulted s tr) :
    Unfaulted s' (tr ++ acts) := by
  cases hm with
  | pooled b now socket hp =>
      have hfresh := hn.fresh_of_loop hp b
      exact unfaulted_use ((noFault_of_untouched hfresh).append (by simp [NoFault]))
  | connected a socket hp =>
      have hfresh := hn.fresh_of_acquiring hp
      exact unfaulted_use ((noFault_of_untouched hfresh).append (by simp [NoFault]))
  | replayed a socket rest out rest' c hp hsplit =>
      simp only [Unfaulted, hp] at h ⊢
      exact h.append (by simp [NoFault])
  | replay_done a socket rest c hp =>
      simp only [Unfaulted, hp] at h ⊢
      exact ⟨by simp [Race.start], fun _ _ => h.append (by simp [NoFault])⟩
  | relayed_up a socket race c p' acts chunk hp hr =>
      simp only [Unfaulted, hp] at h ⊢
      refine ⟨h.1, fun hup hdown => ?_⟩
      exact (h.2 hr.running hdown).append (noFault_of_relayMove hr hup)
  | relayed_down a socket race c p' acts chunk hp hr =>
      simp only [Unfaulted, hp] at h ⊢
      refine ⟨?_, fun hup hdown => (h.2 hup hr.running).append (noFault_of_relayMove hr hdown)⟩
      intro hst rest hw
      obtain ⟨hst₀, hnone⟩ := Bool.or_eq_false_iff.mp hst
      -- the relay writes what it has just read, or what it was writing before
      generalize hdown : race.downstream = down at hr
      subst hw
      cases hr with
      | read _ _ _ _ => simp at hnone
      | wrote rest₀ _ _ _ _ _ _ => exact h.1 hst₀ rest₀ hdown
  | drained chunk c hp => simp [Unfaulted, hp]
  | _ => simp [Unfaulted]

/-! ## The client does not end first -/

/-- In a race without a response, once a relay has returned, the backend is at
fault. -/
def RaceAttributed (s : Session) (tr : List Action) : Prop :=
  ∀ a socket race, s.point = .relaying a socket race → race.response_started = false →
    race.upstream = .returned ∨ race.downstream = .returned → OwnFault a tr

theorem raceAttributed_start {s : Session} {tr : List Action} (a : Attempt) (socket : ℕ)
    (hp : s.point = .relaying a socket .start) : RaceAttributed s tr := by
  intro a' socket' race hp' _
  rw [hp] at hp'
  cases hp'
  simp [Race.start]

theorem raceAttributed_of_ne {s : Session} {tr : List Action}
    (hp : ∀ a socket race, s.point ≠ .relaying a socket race) : RaceAttributed s tr :=
  fun a socket race hp' => absurd hp' (hp a socket race)

theorem raceAttributed_use {s : Session} {a : Attempt} {socket : ℕ} {tr : List Action} :
    RaceAttributed { s with point := s.usePoint a socket } tr := by
  by_cases hbuf : s.req_buf.data = []
  · apply raceAttributed_start a socket
    simp [usePoint, hbuf]
  · apply raceAttributed_of_ne
    simp [usePoint, hbuf]

/-- **One move, when the client does not end first, keeps the race attributed.** -/
theorem Move.raceAttributed {s s' : Session} {i : Input} {acts : List Action}
    (hm : Move s i.event s' acts) {tr : List Action} (hb : ClientBytes s tr)
    (hu : Unfaulted s tr) (hc : ¬ ClientEndsFirst s i) (h : RaceAttributed s tr) :
    RaceAttributed s' (tr ++ acts) := by
  generalize he : i.event = e at hm
  cases hm with
  | pooled b now socket hp => exact raceAttributed_use
  | connected a socket hp => exact raceAttributed_use
  | replay_done a socket rest c hp => exact raceAttributed_start a socket rfl
  | drained chunk c hp => exact raceAttributed_of_ne (by simp [hp])
  | relayed_up a socket race c p' acts chunk hp hr =>
      rintro a' socket' race' hp' hst hsome
      cases hp'
      have hret := h a socket race hp hst
      have hrecv := hr.receivedFrom_other (q := .backend a) (by simp)
      by_cases hdown : race.downstream = .returned
      · exact (hret (Or.inr hdown)).append hrecv
      · -- the upstream relay is the first to return
        have hp'ret : p' = .returned := by simpa [hdown] using hsome
        subst hp'ret
        generalize hup : race.upstream = up at hr
        cases hr with
        | read_late _ _ _ hcan => exact absurd hcan (by simp [hdown])
        | wrote_late _ _ hcan => exact absurd hcan (by simp [hdown])
        | read_failed ec hec =>
            exact absurd ⟨a, socket, race, ec, hp, hup, hdown, hst, he⟩ hc
        | write_failed rest out c ec hout _ hec =>
            refine .write ec (by simp) ?_
            intro hab
            exact absurd (hec hab) (by simp [hdown])
  | relayed_down a socket race c p' acts chunk hp hr =>
      rintro a' socket' race' hp' hst -
      cases hp'
      obtain ⟨hst₀, hnone⟩ := Bool.or_eq_false_iff.mp hst
      have hret := h a socket race hp hst₀
      have hrecv₀ : receivedFrom (.backend a) tr = [] := by
        simp only [ClientBytes, hp] at hb
        exact hb.2 hst₀
      have hnw : ∀ rest, race.downstream ≠ .writing rest := by
        simp only [Unfaulted, hp] at hu
        exact hu.1 hst₀
      -- without a chunk the relay was reading, and its read has failed
      generalize hdown : race.downstream = down at hr
      cases hr with
      | read _ _ _ _ => simp at hnone
      | read_late _ _ _ _ => simp at hnone
      | wrote rest _ _ _ _ _ _ => exact absurd hdown (hnw rest)
      | wrote_all rest _ _ => exact absurd hdown (hnw rest)
      | wrote_late rest _ _ => exact absurd hdown (hnw rest)
      | write_failed rest _ _ _ _ _ _ => exact absurd hdown (hnw rest)
      | read_failed ec hec =>
          by_cases hup : race.upstream = .returned
          · exact (hret (Or.inl hup)).append (by simp [Action.bytesFrom])
          · refine .closed ec (by simp) ?_ (by simp [Action.bytesFrom, hrecv₀])
            intro hab
            exact absurd (hec hab) (by simp [hup])
  | _ => exact raceAttributed_of_ne (by simp)

/-- **One move records a failure only for a cause.** -/
theorem Move.attributed {s s' : Session} {e : Event} {acts : List Action}
    (hm : Move s e s' acts) {tr : List Action} (h : RaceAttributed s tr) (ha : Attributed tr) :
    Attributed (tr ++ acts) := by
  -- the end of a race without a response
  have hover : ∀ a socket race now, s.point = .relaying a socket race →
      race.upstream = .returned → race.response_started = false →
      Attributed (tr ++ [.released a socket, .breaker a (.record_failure now) none]) := by
    intro a socket race now hp hup hst
    have hfault := h a socket race hp hst (Or.inl hup)
    have hrel : Attributed (tr ++ [.released a socket]) := ha.append (by simp)
    rw [List.append_cons]
    refine justified_concat_iff.mpr ⟨hrel, ?_⟩
    rintro a' now' ⟨⟩
    exact hfault.append (by simp [Action.bytesFrom])
  cases hm with
  | connect_failed a now hp =>
      have hconn : Attributed (tr ++ [.connect_failed a]) := ha.append (by simp)
      rw [List.append_cons]
      refine justified_concat_iff.mpr ⟨hconn, ?_⟩
      rintro a' now' ⟨⟩
      exact .connect (by simp)
  | replay_failed a socket rest out c ec now hp hout hec =>
      have hwrite : Attributed (tr ++ [.sent (.backend a) out, .write_failed (.backend a) ec]) :=
        ha.append (by simp)
      have hfail : Attributed (tr ++ [.sent (.backend a) out, .write_failed (.backend a) ec]
          ++ [.breaker a (.record_failure now) none]) := by
        refine justified_concat_iff.mpr ⟨hwrite, ?_⟩
        rintro a' now' ⟨⟩
        exact .write ec (by simp) hec
      have hrel : Attributed (tr ++ [.sent (.backend a) out, .write_failed (.backend a) ec]
          ++ [.breaker a (.record_failure now) none] ++ [.released a socket]) :=
        hfail.append (by simp)
      simpa using hrel
  | failed a socket race now hp hup hdown hst hcap => exact hover a socket race now hp hup hst
  | failed_capped a socket race now hp hup hdown hst hcap =>
      have h503 : Attributed (tr ++ [.released a socket, .breaker a (.record_failure now) none]
          ++ [.fallback_503]) := (hover a socket race now hp hup hst).append (by simp)
      simpa using h503
  | relayed_up a socket race c p' acts chunk hp hr =>
      exact ha.append fun x hx a' now => hr.no_calls x hx a' _ _
  | relayed_down a socket race c p' acts chunk hp hr =>
      exact ha.append fun x hx a' now => hr.no_calls x hx a' _ _
  | _ => exact ha.append (by simp)

/-! ## The client ends first -/

/-- With no fault in the trace, cancelling the read from the backend is none. -/
theorem not_ownFault {a : Attempt} {tr : List Action} (h : NoFault a tr) (socket : ℕ)
    (ec : ErrorCode) :
    ¬ OwnFault a (tr ++ [.read_failed .client ec, .read_failed (.backend a) .operation_aborted,
      .released a socket]) := by
  intro hf
  cases hf with
  | connect hx => simp [h.1] at hx
  | write ec' hx _ => simp [(h.2 ec').1] at hx
  | closed ec' hx hec _ =>
      rcases List.mem_append.mp hx with hx | hx
      · exact (h.2 ec').2 hx
      · simp at hx
        exact hec hx

/-- A race without a response ends in `record_failure`. -/
theorem raceOver_records (sh : Shared) (now : Time) (s : Session) (a : Attempt) (socket : ℕ) :
    ∃ rest, (raceOver sh now s a socket false).2.2
      = .released a socket :: .breaker a (.record_failure now) none :: rest := by
  unfold raceOver
  cases hcap : s.req_buf.capped with
  | true => exact ⟨[.fallback_503], rfl⟩
  | false => exact ⟨[], rfl⟩

/-- **When the client ends first, the run can go on to a failure without a cause**: the
cancelled read ends with `operation_aborted`, and the race is over. -/
theorem client_end_unattributed {s : Session} {i : Input} {tr : List Action}
    (hu : Unfaulted s tr) (hc : ClientEndsFirst s i) (hacc : solo s i ≠ none) :
    ∃ js t tr', exec solo s (i :: js) = some (t, tr') ∧ ¬ Attributed (tr ++ tr') := by
  obtain ⟨a, socket, race, ec, hp, hup, hdown, hst, he⟩ := hc
  obtain ⟨sh, now, e⟩ := i
  obtain rfl : e = .relay .upstream (.error ec) := he
  simp only [Unfaulted, hp] at hu
  have hreading : race.downstream = .reading := by
    cases hd : race.downstream with
    | reading => rfl
    | writing rest => exact absurd hd (hu.1 hst rest)
    | returned => exact absurd hd hdown
  have hclean : NoFault a tr := hu.2 (by simp [hup]) hdown
  have hec : ec ≠ .operation_aborted := by
    rintro rfl
    apply hacc
    simp [solo, step, hp, Race.resume, relay, async_read_some, hup, hreading]
  -- the three steps: the client's end, the cancelled read, the end of the race
  let s₁ : Session :=
    { s with point := .relaying a socket { race with upstream := .returned } }
  let s₂ : Session :=
    { s with point := .relaying a socket ⟨.returned, .returned, false⟩ }
  have h₁ : solo s ⟨sh, now, .relay .upstream (.error ec)⟩
      = some (s₁, [.read_failed .client ec]) := by
    simp [solo, step, hp, Race.resume, relay, async_read_some, hup, hec, RequestBuffer.capture, s₁]
  have h₂ : solo s₁ ⟨sh, now, .relay .downstream (.error .operation_aborted)⟩
      = some (s₂, [.read_failed (.backend a) .operation_aborted]) := by
    simp [solo, step, Race.resume, relay, async_read_some, hreading, hst, s₁, s₂]
  have h₃ : solo s₂ ⟨sh, now, .resume⟩
      = some ((raceOver sh now s₂ a socket false).2.1,
        (raceOver sh now s₂ a socket false).2.2) := by
    simp [solo, step, Race.over, s₂]
  obtain ⟨rest, hrest⟩ := raceOver_records sh now s₂ a socket
  refine ⟨[⟨sh, now, .relay .downstream (.error .operation_aborted)⟩, ⟨sh, now, .resume⟩], _, _,
    exec_cons_iff.mpr ⟨s₁, _, _, h₁, exec_cons_iff.mpr ⟨s₂, _, _, h₂,
      exec_cons_iff.mpr ⟨_, _, _, h₃, rfl, rfl⟩, rfl⟩, rfl⟩, ?_⟩
  intro hatt
  refine not_ownFault hclean socket ec ?_
  refine hatt _ (.breaker a (.record_failure now) none) rest ?_ a now rfl
  simp [hrest]

/-- The failure counter of a backend moves only in a step that records a failure of an
attempt on it. -/
theorem backend_failure_moved {sh sh' : Shared} {now : Time} {s s' : Session} {e : Event}
    {acts : List Action} (h : s.step sh now e = some (sh', s', acts)) {b : ℕ}
    (hmoved : sh'.metrics.backend_failure_ b ≠ sh.metrics.backend_failure_ b) :
    ∃ a t answer, a.backend_index = b ∧ .breaker a (.record_failure t) answer ∈ acts := by
  have hcount := (step_effect h).failures b
  by_contra hnone
  push Not at hnone
  apply hmoved
  rw [hcount, List.countP_eq_zero.mpr, Function.iterate_zero, id_eq]
  rintro ⟨call, answer⟩ hmem hfail
  obtain ⟨a, hb, hx⟩ := mem_callsOn.mp hmem
  cases call with
  | record_failure t => exact hnone a t answer hb hx
  | allow_request t => simp [isFailure] at hfail
  | record_success t => simp [isFailure] at hfail

/-! ## Attribution -/

/-- What every run keeps, whether or not the client ends first. -/
theorem unfaulted_run {client_key : Bytes} {max_attempts : ℤ} {ins : List Input} {s : Session}
    {tr : List Action} (h : exec solo (start client_key max_attempts) ins = some (s, tr)) :
    Unfaulted s tr :=
  (exec_invariant (I := fun s tr => Numbered s tr ∧ Unfaulted s tr)
    (fun _ _ _ _ _ hs he => ⟨(solo_move he).numbered hs.1, (solo_move he).unfaulted hs.1 hs.2⟩)
    ⟨numbered_start client_key max_attempts, trivial⟩ h).2

/-- Every run in which the client never ends first is attributed. -/
theorem attributed_run {client_key : Bytes} {max_attempts : ℤ} {ins : List Input} {s : Session}
    {tr : List Action} (h : exec solo (start client_key max_attempts) ins = some (s, tr))
    (hc : Along solo (fun s i => ¬ ClientEndsFirst s i) (start client_key max_attempts) ins) :
    Attributed tr := by
  have hinv := exec_invariant_along
    (I := fun s tr => (Numbered s tr ∧ ClientBytes s tr ∧ Unfaulted s tr)
      ∧ RaceAttributed s tr ∧ Attributed tr)
    (fun s tr i s' out hs hne he => by
      have hm := solo_move he
      obtain ⟨⟨hn, hb, hu⟩, hrace, hatt⟩ := hs
      exact ⟨⟨hm.numbered hn, hm.clientBytes hn hb, hm.unfaulted hn hu⟩,
        hm.raceAttributed hb hu hne hrace, hm.attributed hrace hatt⟩)
    ⟨⟨numbered_start client_key max_attempts, rfl, trivial⟩,
      raceAttributed_of_ne (by simp [start]), justified_nil⟩ hc h
  exact hinv.2.2

/-- **Failure attribution.** Take any run of a session. If the client never ends first
in it, every recorded failure has its cause on the backend's side before it in the
trace. If the client ends first in the state it has reached, the run can go on to a
failure without a cause. And a backend's failure counter moves only in a step that
records a failure of an attempt on it. -/
theorem failure_attribution (client_key : Bytes) (max_attempts : ℤ) (ins : List Input)
    (s : Session) (tr : List Action)
    (h : exec solo (start client_key max_attempts) ins = some (s, tr)) :
    (Along solo (fun s i => ¬ ClientEndsFirst s i) (start client_key max_attempts) ins →
      Attributed tr)
    ∧ (∀ i, ClientEndsFirst s i → solo s i ≠ none →
      ∃ js t tr', exec solo (start client_key max_attempts) (ins ++ i :: js) = some (t, tr ++ tr')
        ∧ ¬ Attributed (tr ++ tr'))
    ∧ (∀ (i : Input) (sh' : Shared) (s' : Session) (acts : List Action) (b : ℕ),
      s.step i.shared i.now i.event = some (sh', s', acts) →
      sh'.metrics.backend_failure_ b ≠ i.shared.metrics.backend_failure_ b →
      ∃ a t answer, a.backend_index = b ∧ .breaker a (.record_failure t) answer ∈ acts) := by
  refine ⟨attributed_run h, ?_, ?_⟩
  · intro i hc hacc
    obtain ⟨js, t, tr', hrun, hnot⟩ := client_end_unattributed (unfaulted_run h) hc hacc
    exact ⟨js, t, tr', exec_append_iff.mpr ⟨s, tr, tr', h, hrun, rfl⟩, hnot⟩
  · intro i sh' s' acts b hs hmoved
    exact backend_failure_moved hs hmoved

/-- A backend that takes the request and closes while the client is still sending. -/
def backendCloses : List Input :=
  [.resume, .connected, .relay .upstream (.read_some [71]), .relay .upstream (.wrote_some 1),
    .relay .downstream (.error .eof), .relay .upstream (.read_some [69]),
    .resume].map (⟨.new 2 1 5 2 5000 (fun _ => 0), 0, ·⟩)

/-- The failure recorded against it is its own. -/
theorem failure_attribution_backend_closes :
    ∃ s tr, exec solo (start [] 3) backendCloses = some (s, tr)
      ∧ .breaker ⟨0, 0⟩ (.record_failure 0) none ∈ tr ∧ Attributed tr := by
  refine ⟨_, _, rfl, by decide +kernel, ?_⟩
  refine (failure_attribution [] 3 backendCloses _ _ rfl).1 (along_of_mem ?_ _)
  rintro i hi s ⟨a, socket, race, ec, -, -, -, -, he⟩
  obtain ⟨e, hmem, rfl⟩ := List.mem_map.mp hi
  obtain rfl : e = .relay .upstream (.error ec) := he
  simp at hmem

/-- A client that half-closes after its request, before its backend has answered. -/
def clientHalfCloses : List Input :=
  [.resume, .connected, .relay .upstream (.read_some [71]), .relay .upstream (.wrote_some 1),
    .relay .upstream (.error .eof), .relay .downstream (.error .operation_aborted),
    .resume].map (⟨.new 2 1 5 2 5000 (fun _ => 0), 0, ·⟩)

/-- `record_failure` is called on a backend that has not failed. -/
theorem failure_attribution_client_eof :
    ¬ ∀ (client_key : Bytes) (max_attempts : ℤ) (ins : List Input) (s : Session)
        (tr : List Action), exec solo (start client_key max_attempts) ins = some (s, tr) →
        Attributed tr := by
  intro h
  have hrun := h [] 3 clientHalfCloses _ _ rfl
  have hfault := hrun
    [.breaker ⟨0, 0⟩ (.allow_request 0) (some true), .acquire ⟨0, 0⟩, .acquired ⟨0, 0⟩ 0,
      .received .client [71], .sent (.backend ⟨0, 0⟩) [71], .read_failed .client .eof,
      .read_failed (.backend ⟨0, 0⟩) .operation_aborted, .released ⟨0, 0⟩ 0]
    (.breaker ⟨0, 0⟩ (.record_failure 0) none) [] rfl ⟨0, 0⟩ 0 rfl
  cases hfault with
  | connect hx => simp at hx
  | write ec hx _ => simp at hx
  | closed ec hx hec _ =>
      simp at hx
      exact hec hx

end Session

end AegisProxy
