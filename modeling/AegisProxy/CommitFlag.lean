/-
What `response_started` commits a session to.

The flag decides after the race: set, the session counts a success and ends, with neither
another attempt nor a 503. `relay` documents it as the record that the client has received at
least one byte. It is set between the read from the backend and the write to the client,
though, and when the other relay has returned that write does not happen: `operator||` has
cancelled this one, and what it awaits next ends with `operation_aborted`.

`Reached` is what the flag should stand for: the client has been sent a byte, or a write to it
has failed by itself. The one way in which the flag comes to stand for nothing is a completion
that is swallowed (`Session.swallowed`): with nothing sent so far and the upstream relay
returned, the downstream relay is handed its first chunk, or the write of the first chunk is
cancelled before a byte of it is out. The session then ends and the client gets nothing at all.
-/
import AegisProxy.Streams

set_option autoImplicit false

namespace AegisProxy

open Runs

/-! ## What the client has seen -/

/-- The client has been sent a byte, or a write to it has failed by itself. -/
def Reached (tr : List Action) : Prop :=
  sentTo .client tr ≠ [] ∨ ∃ ec, ec ≠ .operation_aborted ∧ .write_failed .client ec ∈ tr

/-- No write to the client has failed, except by being cancelled. -/
def ClientOpen (tr : List Action) : Prop :=
  ∀ ec, .write_failed .client ec ∈ tr → ec = .operation_aborted

variable {tr acts : List Action}

theorem Reached.append (h : Reached tr) : Reached (tr ++ acts) := by
  rcases h with hsent | ⟨ec, hec, hx⟩
  · left
    rw [sentTo_append]
    exact List.append_ne_nil_of_left_ne_nil hsent _
  · exact Or.inr ⟨ec, hec, List.mem_append_left _ hx⟩

theorem ClientOpen.append (h : ClientOpen tr) (hacts : ClientOpen acts) :
    ClientOpen (tr ++ acts) := by
  intro ec hx
  rcases List.mem_append.mp hx with hx | hx
  · exact h ec hx
  · exact hacts ec hx

/-- Nothing sent and no write failed is not having reached the client. -/
theorem ClientOpen.not_reached (h : ClientOpen tr) (hsent : sentTo .client tr = []) :
    ¬ Reached tr := by
  rintro (hne | ⟨ec, hec, hx⟩)
  · exact hne hsent
  · exact hec (h ec hx)

/-! ## The downstream relay -/

/-- A read that is resumed hands over a chunk, or ends with the error it is given. -/
theorem relay_reading {src dst : Peer} {cancelled : Bool} {c : Completion} {res : Resumed}
    (h : relay src dst cancelled .reading c = some res) :
    (∃ chunk, c = .read_some chunk ∧ res = ⟨if cancelled then .returned else .writing chunk,
      [.received src chunk], some chunk⟩)
    ∨ ∃ ec, c = .error ec ∧ res = ⟨.returned, [.read_failed src ec], none⟩ := by
  simp only [relay] at h
  cases hread : async_read_some 8192 cancelled c with
  | none =>
      rw [hread] at h
      cases h
  | some r =>
      rw [hread] at h
      rcases async_read_some_spec hread with ⟨chunk, rfl, rfl, -⟩ | ⟨ec, rfl, rfl, -⟩
      · cases h
        exact Or.inl ⟨chunk, rfl, rfl⟩
      · cases h
        exact Or.inr ⟨ec, rfl, rfl⟩

/-- A write that is resumed puts a byte on the socket, or ends with the error it is given. -/
theorem relay_writing {src dst : Peer} {cancelled : Bool} {rest : Bytes} {c : Completion}
    {res : Resumed} (h : relay src dst cancelled (.writing rest) c = some res) :
    ((∃ n, c = .wrote_some n) ∧ sentTo dst res.actions ≠ []
      ∧ ∀ ec, .write_failed dst ec ∈ res.actions → ec = .operation_aborted)
    ∨ ∃ ec, c = .error ec ∧ (ec = .operation_aborted → cancelled = true)
      ∧ res = ⟨.returned, [.sent dst [], .write_failed dst ec], none⟩ := by
  cases c with
  | read_some chunk => cases h
  | error ec =>
      right
      simp only [relay, async_write] at h
      by_cases hab : ec = .operation_aborted ∧ cancelled = false
      · rw [if_pos hab] at h
        cases h
      · rw [if_neg hab] at h
        cases h
        exact ⟨ec, rfl, by simpa using hab, rfl⟩
  | wrote_some n =>
      refine Or.inl ⟨⟨n, rfl⟩, ?_⟩
      simp only [relay, async_write] at h
      by_cases hn : 1 ≤ n ∧ n ≤ rest.length
      · have hout : rest.take n ≠ [] := by
          rw [← List.length_pos_iff, List.length_take]
          omega
        rw [if_pos hn] at h
        by_cases hall : n = rest.length
        · rw [if_pos hall] at h
          cases h
          simpa [Action.bytesTo] using hout
        · rw [if_neg hall] at h
          cases cancelled <;> cases h <;> simpa [Action.bytesTo] using hout
      · rw [if_neg hn] at h
        cases h

/-- The completion is the first of the downstream relay's that could have put a byte on the
client's socket, and with the upstream relay returned it does not: a chunk that is read too
late, or a write cancelled before a byte of it is out. `sent` is what the client has been sent
so far. -/
def Race.swallows (race : Race) (sent : Bytes) (c : Completion) : Bool :=
  race.upstream = .returned && sent = [] &&
    match race.downstream, c with
    | .reading, .read_some _ => true
    | .writing _, .error .operation_aborted => true
    | _, _ => false

theorem Race.swallows_iff {race : Race} {sent : Bytes} {c : Completion} :
    race.swallows sent c = true ↔ race.upstream = .returned ∧ sent = []
      ∧ ((race.downstream = .reading ∧ ∃ chunk, c = .read_some chunk)
        ∨ (∃ rest, race.downstream = .writing rest) ∧ c = .error .operation_aborted) := by
  obtain ⟨up, down, started⟩ := race
  unfold Race.swallows
  dsimp only
  cases down with
  | reading => cases c <;> simp
  | returned => simp
  | writing rest =>
      cases c with
      | error ec => cases ec <;> simp
      | _ => simp

/-- What the flag and the point of the downstream relay say about the client. -/
structure Flagged (race : Race) (tr : List Action) : Prop where
  reading : race.downstream = .reading → race.response_started = true → sentTo .client tr ≠ []
  writing : ∀ rest, race.downstream = .writing rest → race.response_started = true
  client_open : race.downstream ≠ .returned ∨ race.response_started = false → ClientOpen tr
  returned : race.downstream = .returned → race.response_started = true → Reached tr

theorem flagged_start (h : ClientOpen tr) : Flagged .start tr where
  reading := by simp [Race.start]
  writing := by simp [Race.start]
  client_open _ := h
  returned := by simp [Race.start]

/-- The upstream relay touches neither. -/
theorem Flagged.up {race : Race} {a : Attempt} {c : Completion} {p' : RelayPoint}
    {cancelled : Bool} {chunk : Option Bytes} (h : Flagged race tr)
    (hr : RelayMove .client (.backend a) cancelled race.upstream c p' acts chunk) :
    Flagged { race with upstream := p' } (tr ++ acts) := by
  have hsent : sentTo .client (tr ++ acts) = sentTo .client tr := by
    rw [sentTo_append, hr.sentTo_other (by simp), List.append_nil]
  have hopen : ClientOpen acts := by
    intro ec hx
    generalize race.upstream = p at hr
    cases hr <;> simp at hx
  exact {
    reading := fun hd hst => by rw [hsent]; exact h.reading hd hst
    writing := h.writing
    client_open := fun hcond => (h.client_open hcond).append hopen
    returned := fun hd hst => (h.returned hd hst).append }

section Down

variable {race : Race} {a : Attempt} {c : Completion} {res : Resumed}

/-- The race after the downstream relay was resumed. -/
def Race.downResumed (race : Race) (res : Resumed) : Race :=
  { race with
    downstream := res.point
    response_started := race.response_started || res.chunk.isSome }

/-- **The flag stays honest** through every completion that is not swallowed. -/
theorem Flagged.down (h : Flagged race tr)
    (hr : relay (.backend a) .client (race.upstream = .returned) race.downstream c = some res)
    (hno : race.swallows (sentTo .client tr) c = false) :
    Flagged (race.downResumed res) (tr ++ res.actions) := by
  rw [Bool.eq_false_iff, ne_eq, Race.swallows_iff] at hno
  obtain ⟨up, down, started⟩ := race
  unfold Race.downResumed
  dsimp only at hr hno ⊢
  cases down with
  | returned => cases hr
  | writing rest =>
      have hst : started = true := h.writing rest rfl
      have hopen := h.client_open (Or.inl (by simp))
      rcases relay_writing hr with ⟨-, hsent, habort⟩ | ⟨ec, rfl, hcan, rfl⟩
      · -- a byte is out
        have hsent' : sentTo .client (tr ++ res.actions) ≠ [] := by
          rw [sentTo_append]
          exact List.append_ne_nil_of_right_ne_nil _ hsent
        exact ⟨fun _ _ => hsent', fun _ _ => by simp [hst], fun _ => hopen.append habort,
          fun _ _ => Or.inl hsent'⟩
      · refine ⟨by simp, by simp, by simp [hst], fun _ _ => ?_⟩
        by_cases hec : ec = .operation_aborted
        · -- cancelled, but not before the first byte
          subst hec
          have hup : up = .returned := of_decide_eq_true (hcan rfl)
          have hsent : sentTo .client tr ≠ [] := fun hnil =>
            hno ⟨hup, hnil, Or.inr ⟨⟨rest, rfl⟩, rfl⟩⟩
          exact Reached.append (Or.inl hsent)
        · exact Or.inr ⟨ec, hec, by simp⟩
  | reading =>
      have hopen := h.client_open (Or.inl (by simp))
      have hsent := h.reading rfl
      rcases relay_reading hr with ⟨chunk, rfl, rfl⟩ | ⟨ec, rfl, rfl⟩
      · -- a chunk; too late to be written if the upstream relay has returned
        have hquiet : ClientOpen [.received (.backend a) chunk] := by simp [ClientOpen]
        by_cases hup : up = .returned
        · have hsent : sentTo .client tr ≠ [] := fun hnil =>
            hno ⟨hup, hnil, Or.inl ⟨rfl, chunk, rfl⟩⟩
          refine ⟨by simp [hup], by simp [hup], by simp [hup], fun _ _ => ?_⟩
          exact Reached.append (Or.inl hsent)
        · exact ⟨by simp [hup], by simp, fun _ => hopen.append hquiet, by simp [hup]⟩
      · have hquiet : ClientOpen [.read_failed (.backend a) ec] := by simp [ClientOpen]
        refine ⟨by simp, by simp, fun _ => hopen.append hquiet, fun _ hst => ?_⟩
        exact Reached.append (Or.inl (hsent (by simpa using hst)))

/-- **A swallowed completion ends the race with the flag set** and the client not reached. -/
theorem Flagged.swallowed (h : Flagged race tr)
    (hr : relay (.backend a) .client (race.upstream = .returned) race.downstream c = some res)
    (hsw : race.swallows (sentTo .client tr) c = true) :
    (race.downResumed res).over = true ∧ (race.downResumed res).response_started = true
      ∧ ¬ Reached (tr ++ res.actions) := by
  obtain ⟨hup, hnil, hkind⟩ := Race.swallows_iff.mp hsw
  obtain ⟨up, down, started⟩ := race
  unfold Race.downResumed Race.over
  dsimp only at hr hup hkind ⊢
  subst hup
  rcases hkind with ⟨rfl, chunk, rfl⟩ | ⟨⟨rest, rfl⟩, rfl⟩
  · have hopen := h.client_open (Or.inl (by simp))
    rcases relay_reading hr with ⟨chunk', hc, rfl⟩ | ⟨ec, hc, -⟩
    · refine ⟨by simp, by simp, ClientOpen.not_reached (hopen.append (by simp [ClientOpen])) ?_⟩
      simp [hnil, Action.bytesTo]
    · cases hc
  · have hopen := h.client_open (Or.inl (by simp))
    have hst : started = true := h.writing rest rfl
    rcases relay_writing hr with ⟨⟨n, hc⟩, -⟩ | ⟨ec, hc, -, rfl⟩
    · cases hc
    · cases hc
      refine ⟨by simp, by simp [hst],
        ClientOpen.not_reached (hopen.append (by simp [ClientOpen])) ?_⟩
      simp [hnil, Action.bytesTo]

end Down

namespace Session

/-! ## The session around the race -/

/-- The session is handed a completion that its race swallows. -/
def swallowed (s : Session) (tr : List Action) (i : Input) : Bool :=
  match s.point, i.event with
  | .relaying _ _ race, .relay .downstream c => race.swallows (sentTo .client tr) c
  | _, _ => false

/-- What is known of the client, point by point. -/
def Flags (s : Session) (tr : List Action) : Prop :=
  match s.point with
  | .relaying _ _ race => Flagged race tr
  | .responding _ => True
  | .draining => Reached tr
  | .finished => Reached tr
  | .threw => True
  | _ => ClientOpen tr

variable {s s' : Session} {i : Input}

/-- The downstream relay resumed, as the code computes it. -/
theorem solo_downstream {a : Attempt} {socket : ℕ} {race : Race} {c : Completion}
    (hp : s.point = .relaying a socket race) (he : i.event = .relay .downstream c)
    (h : solo s i = some (s', acts)) :
    ∃ res, relay (.backend a) .client (race.upstream = .returned) race.downstream c = some res
      ∧ s'.point = .relaying a socket (race.downResumed res) ∧ acts = res.actions := by
  simp only [solo, step, hp, he, Race.resume] at h
  cases hr : relay (.backend a) .client (race.upstream = .returned) race.downstream c with
  | none =>
      rw [hr] at h
      cases h
  | some res =>
      rw [hr] at h
      cases h
      exact ⟨res, rfl, rfl, rfl⟩

/-- Nothing cancels the write of the 503, so an error of it is the client's. -/
theorem solo_responding {rest : Bytes} {ec : ErrorCode} (hp : s.point = .responding rest)
    (h : solo s i = some (s', acts)) (hx : .write_failed .client ec ∈ acts) :
    ec ≠ .operation_aborted := by
  rintro rfl
  cases he : i.event with
  | io c =>
      simp only [solo, step, hp, he] at h
      cases hw : async_write false rest c with
      | none =>
          rw [hw] at h
          cases h
      | some r =>
          obtain ⟨out, res⟩ := r
          rw [hw] at h
          rcases async_write_spec hw with ⟨r, rfl, -⟩ | ⟨rfl, -⟩ | ⟨ec, rfl, -, -, hec⟩
          · cases h
            simp at hx
          · cases h
            simp at hx
          · cases h
            obtain rfl : .operation_aborted = ec := by simpa using hx
            exact absurd (hec rfl) (by decide)
  | _ =>
      simp only [solo, step, hp, he] at h
      cases h

theorem flags_use {a : Attempt} {socket : ℕ} (h : ClientOpen tr) :
    Flags { s with point := s.usePoint a socket } tr := by
  unfold Flags usePoint
  by_cases hbuf : s.req_buf.data = []
  · rw [if_pos hbuf]
    exact flagged_start h
  · rw [if_neg hbuf]
    exact h

theorem unavailable_ne_nil : unavailable ≠ [] := by decide +kernel

/-- **One step keeps what is known of the client**, if nothing is swallowed in it. -/
theorem flags_step (hc : ClientBytes s tr) (h : Flags s tr) (hno : s.swallowed tr i = false)
    (hstep : solo s i = some (s', acts)) : Flags s' (tr ++ acts) := by
  have hm := solo_move hstep
  generalize he : i.event = e at hm
  cases hm with
  | pooled b now socket hp =>
      simp only [Flags, hp] at h
      exact flags_use (h.append (by simp [ClientOpen]))
  | connected a socket hp =>
      simp only [Flags, hp] at h
      exact flags_use (h.append (by simp [ClientOpen]))
  | replay_done a socket rest c hp =>
      simp only [Flags, hp] at h
      exact flagged_start (h.append (by simp [ClientOpen]))
  | relayed_up a socket race c p' acts chunk hp hr =>
      simp only [Flags, hp] at h ⊢
      exact h.up hr
  | relayed_down a socket race c p' acts chunk hp hr =>
      obtain ⟨res, hres, hp', rfl⟩ := solo_downstream hp he hstep
      simp only [swallowed, hp, he] at hno
      simp only [Flags, hp] at h
      unfold Flags
      rw [hp']
      exact h.down hres hno
  | succeeded a socket race now hp hup hdown hst =>
      simp only [Flags, hp] at h
      exact (h.returned hdown hst).append
  | failed a socket race now hp hup hdown hst =>
      simp only [Flags, hp] at h
      exact (h.client_open (Or.inr hst)).append (by simp [ClientOpen])
  | failed_capped a socket race now hp hup hdown hst => trivial
  | gave_up hp => trivial
  | threw hp => trivial
  | responded rest out rest' c hp => trivial
  | respond_done rest c hp =>
      -- the whole 503 is out
      simp only [ClientBytes, hp] at hc
      left
      have hsent : sentTo .client (tr ++ [.sent .client rest]) = unavailable := by
        simpa [Action.bytesTo] using hc
      rw [hsent]
      exact unavailable_ne_nil
  | respond_failed rest out c ec hp =>
      exact Or.inr ⟨ec, solo_responding hp hstep (by simp), by simp⟩
  | drained chunk c hp =>
      simp only [Flags, hp] at h ⊢
      exact h.append
  | closed ec c hp =>
      simp only [Flags, hp] at h
      exact h.append
  | _ =>
      simp only [Flags, ‹s.point = _›] at h
      exact h.append (by simp [ClientOpen])

/-- The client has been reached whenever the session is done with it: at the end of a race with
the flag set, and at the end of the session. -/
structure Committed (s : Session) (tr : List Action) : Prop where
  race_over : ∀ a socket race, s.point = .relaying a socket race → race.over = true →
    race.response_started = true → Reached tr
  finished : s.point = .finished → Reached tr

theorem Flags.committed (h : Flags s tr) : Committed s tr where
  race_over := by
    intro a socket race hp hover hst
    simp only [Flags, hp] at h
    have hdown : race.upstream = .returned ∧ race.downstream = .returned := by
      simpa [Race.over] using hover
    exact h.returned hdown.2 hst
  finished := by
    intro hp
    simpa only [Flags, hp] using h

/-- A step in which a completion is swallowed is the last of the race, and the flag is set with
the client not reached. -/
theorem swallowed_step (h : Flags s tr) (hsw : s.swallowed tr i = true)
    (hstep : solo s i = some (s', acts)) :
    ∃ a socket race, s'.point = .relaying a socket race ∧ race.over = true
      ∧ race.response_started = true ∧ ¬ Reached (tr ++ acts) := by
  unfold swallowed at hsw
  split at hsw
  · rename_i a socket race c hp he
    simp only [Flags, hp] at h
    obtain ⟨res, hres, hp', rfl⟩ := solo_downstream hp he hstep
    exact ⟨a, socket, _, hp', h.swallowed hres hsw⟩
  · cases hsw

/-- It leaves the session committed to nothing. -/
theorem not_committed_of_swallowed (h : Flags s tr) (hsw : s.swallowed tr i = true)
    (hstep : solo s i = some (s', acts)) : ¬ Committed s' (tr ++ acts) := by
  intro hcom
  obtain ⟨a, socket, race, hp, hover, hst, hnot⟩ := swallowed_step h hsw hstep
  exact hnot (hcom.race_over a socket race hp hover hst)

/-- **The flag means delivery, exactly when nothing is swallowed.** Take any run of a session.
In every state it comes through, a race that is over with the flag set, and a session that has
ended, have reached the client, if and only if no completion of the run is swallowed: never,
with nothing sent to the client so far and the upstream relay returned, is the downstream relay
handed a chunk, or the write of its first chunk cancelled before a byte of it is out. -/
theorem commit_flag_iff (client_key : Bytes) (max_attempts : ℤ) (ins : List Input) (s : Session)
    (tr : List Action) (h : exec solo (start client_key max_attempts) ins = some (s, tr)) :
    Everywhere (traced solo) (fun q => Committed q.1 q.2) (start client_key max_attempts, []) ins
      ↔ Along (traced solo) (fun q i => q.1.swallowed q.2 i = false)
        (start client_key max_attempts, []) ins := by
  have hstart : Flags (start client_key max_attempts) [] := by simp [Flags, start, ClientOpen]
  refine everywhere_iff_along
    (I := fun q => (Numbered q.1 q.2 ∧ ClientBytes q.1 q.2) ∧ Flags q.1 q.2)
    (fun q hq => hq.2.committed) ?_ ?_ ?_ (exec_traced h [])
  · rintro q i q' out ⟨⟨hn, hc⟩, hf⟩ hno hq
    obtain ⟨hstep, htr⟩ := traced_eq_some hq
    have hm := solo_move hstep
    rw [htr]
    exact ⟨⟨hm.numbered hn, hm.clientBytes hn hc⟩, flags_step hc hf hno hstep⟩
  · rintro q i q' out ⟨-, hf⟩ hq hcom
    obtain ⟨hstep, htr⟩ := traced_eq_some hq
    rw [htr] at hcom
    by_contra hsw
    exact not_committed_of_swallowed hf (by simpa using hsw) hstep hcom
  · exact ⟨⟨numbered_start client_key max_attempts, rfl⟩, hstart⟩

/-- A backend that answers before the client half-closes. -/
def answeredInTime : List Input :=
  [.resume, .connected, .relay .upstream (.read_some [71]), .relay .upstream (.wrote_some 1),
    .relay .downstream (.read_some [50, 51]), .relay .upstream (.error .eof),
    .relay .downstream (.wrote_some 1), .resume].map (⟨.new 2 1 5 2 5000 (fun _ => 0), 0, ·⟩)

/-- Its write is cut short by the half-close, but not before the first byte. -/
theorem commit_flag_in_time :
    (exec solo (start [] 3) answeredInTime).isSome
    ∧ Everywhere (traced solo) (fun q => Committed q.1 q.2) (start [] 3, []) answeredInTime := by
  refine ⟨by decide +kernel, ?_⟩
  exact (commit_flag_iff [] 3 answeredInTime _ _ rfl).mpr (by decide +kernel)

/-- A backend whose answer has been read when the client's half-close is, and is handed to the
relay after it. -/
def answeredTooLate : List Input :=
  [.resume, .connected, .relay .upstream (.read_some [71]), .relay .upstream (.wrote_some 1),
    .relay .upstream (.error .eof), .relay .downstream (.read_some [50, 51]),
    .resume].map (⟨.new 2 1 5 2 5000 (fun _ => 0), 0, ·⟩)

/-- The session ends with a success recorded, and the client, to which no write has failed, is
sent neither a byte of the answer nor a 503. -/
theorem commit_flag_nothing_sent :
    ∃ s tr, exec solo (start [] 3) answeredTooLate = some (s, tr)
      ∧ s.point = .finished ∧ .breaker ⟨0, 0⟩ (.record_success 0) none ∈ tr
      ∧ sentTo .client tr = [] ∧ .fallback_503 ∉ tr
      ∧ (∀ ec, .write_failed .client ec ∉ tr) ∧ ¬ Committed s tr := by
  let trace : List Action :=
    [.breaker ⟨0, 0⟩ (.allow_request 0) (some true), .acquire ⟨0, 0⟩, .acquired ⟨0, 0⟩ 0,
      .received .client [71], .sent (.backend ⟨0, 0⟩) [71], .read_failed .client .eof,
      .received (.backend ⟨0, 0⟩) [50, 51], .released ⟨0, 0⟩ 0,
      .breaker ⟨0, 0⟩ (.record_success 0) none]
  have hsent : sentTo .client trace = [] := by decide +kernel
  have hopen : ∀ ec, .write_failed .client ec ∉ trace := by simp [trace]
  refine ⟨_, trace, rfl, rfl, by simp [trace], hsent, by simp [trace], hopen, ?_⟩
  intro hcom
  exact ClientOpen.not_reached (fun ec hx => absurd hx (hopen ec)) hsent (hcom.finished rfl)

end Session

end AegisProxy
