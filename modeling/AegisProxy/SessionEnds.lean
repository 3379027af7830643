/-
How a session ends.

A session has come to its outcome when it has recorded a success or fallen back to the 503,
and it does one of the two, once: `Outcome` says what it has done so far, point by point, and
that what the client was sent is then a part of one backend's response or of the 503. A 503
gets to the client unless the write of it fails (`Told`). A response of which a success was
recorded gets to it exactly if no completion of the race was swallowed on the way
(`ends_properly_iff`).

That a session does end is a matter of what its sockets do, and nothing in `handle_client`
forces them to. What can be said is that there is a way on from every point it can be at:
`can_end` brings it to its end by letting everything it waits for fail.
-/
import AegisProxy.CommitFlag
import AegisProxy.Pieces

set_option autoImplicit false

namespace AegisProxy

open Runs

/-! ## Successes and 503s -/

/-- The action is a `record_success`. -/
def Action.isSuccess : Action → Bool
  | .breaker _ (.record_success _) _ => true
  | _ => false

/-- How often a trace records a success, and how often it falls back to the 503. -/
def outcomes (tr : List Action) : ℕ × ℕ := (tr.countP Action.isSuccess, tr.count .fallback_503)

theorem outcomes_append (tr tr' : List Action) :
    outcomes (tr ++ tr') = outcomes tr + outcomes tr' := by
  unfold outcomes
  rw [List.countP_append, List.count_append]
  rfl

theorem outcomes_wire {acts : List Action} (h : ∀ x ∈ acts, x.isWire = true) :
    outcomes acts = (0, 0) := by
  unfold outcomes
  rw [Prod.mk.injEq, List.countP_eq_zero, List.count_eq_zero]
  constructor
  · intro x hx hsuccess
    have hwire := h x hx
    cases x with
    | breaker a call answer => cases hwire
    | _ => cases hsuccess
  · intro hmem
    cases h _ hmem

namespace Session

variable {s : Session} {tr : List Action}

/-! ## The end of a session -/

/-- A success was recorded on a backend whose response had begun, and the client was sent
nothing but a part of that response. -/
def Succeeded (tr : List Action) : Prop :=
  ∃ a now, .breaker a (.record_success now) none ∈ tr ∧ receivedFrom (.backend a) tr ≠ []
    ∧ sentTo .client tr <+: receivedFrom (.backend a) tr

/-- The response of one backend was relayed to the client: a byte of it at least, unless a
write to the client has failed by itself, and nothing else. -/
def Relayed (tr : List Action) : Prop := Succeeded tr ∧ Reached tr

/-- The client was sent the 503, all of it unless a write to it has failed, and nothing
else. -/
def FellBack (tr : List Action) : Prop :=
  sentTo .client tr <+: unavailable
    ∧ (sentTo .client tr = unavailable ∨ ∃ ec, .write_failed .client ec ∈ tr)

/-- What a session has come to, point by point. -/
def Outcome (s : Session) (tr : List Action) : Prop :=
  match s.point with
  | .relaying a _ race =>
    outcomes tr = (0, 0) ∧ (race.response_started = true → receivedFrom (.backend a) tr ≠ [])
  | .responding _ => outcomes tr = (0, 1)
  | .draining => outcomes tr = (0, 1)
  | .finished =>
    outcomes tr = (1, 0) ∧ Succeeded tr ∨ outcomes tr = (0, 1) ∧ sentTo .client tr <+: unavailable
  | _ => outcomes tr = (0, 0)

/-- A chunk that a relay reports is not empty. -/
theorem relayMove_chunk {src dst : Peer} {cancelled : Bool} {p p' : RelayPoint} {c : Completion}
    {acts : List Action} {chunk : Option Bytes}
    (h : RelayMove src dst cancelled p c p' acts chunk) (hsome : chunk.isSome = true) :
    receivedFrom src acts ≠ [] := by
  cases h with
  | read chunk hpos =>
      have hne : chunk ≠ [] := List.ne_nil_of_length_pos hpos
      simpa [Action.bytesFrom] using hne
  | read_late chunk hpos =>
      have hne : chunk ≠ [] := List.ne_nil_of_length_pos hpos
      simpa [Action.bytesFrom] using hne
  | _ => cases hsome

/-- With a socket in hand the race has not begun. -/
theorem outcome_use {a : Attempt} {socket : ℕ} (h : outcomes tr = (0, 0)) :
    Outcome { s with point := s.usePoint a socket } tr := by
  unfold Outcome usePoint
  by_cases hbuf : s.req_buf.data = []
  · rw [if_pos hbuf]
    exact ⟨h, fun hst => by cases hst⟩
  · rw [if_neg hbuf]
    exact h

/-- **A session comes to one end.** -/
theorem Move.outcome {s' : Session} {e : Event} {acts : List Action} (hm : Move s e s' acts)
    (hc : ClientBytes s tr) (h : Outcome s tr) : Outcome s' (tr ++ acts) := by
  cases hm with
  | pooled b now socket hp =>
      simp only [Outcome, hp] at h
      apply outcome_use
      rw [outcomes_append, h]
      rfl
  | connected a socket hp =>
      simp only [Outcome, hp] at h
      apply outcome_use
      rw [outcomes_append, h]
      rfl
  | relayed_up a socket race c p' acts chunk hp hr =>
      simp only [Outcome, hp] at h ⊢
      rw [outcomes_append, outcomes_wire (relayMove_isWire hr), h.1]
      refine ⟨rfl, fun hst => ?_⟩
      rw [receivedFrom_append]
      exact List.append_ne_nil_of_left_ne_nil (h.2 hst) _
  | relayed_down a socket race c p' acts chunk hp hr =>
      simp only [Outcome, hp] at h ⊢
      rw [outcomes_append, outcomes_wire (relayMove_isWire hr), h.1]
      refine ⟨rfl, fun hst => ?_⟩
      rw [receivedFrom_append]
      rcases Bool.or_eq_true_iff.mp hst with hst | hsome
      · exact List.append_ne_nil_of_left_ne_nil (h.2 hst) _
      · exact List.append_ne_nil_of_right_ne_nil _ (relayMove_chunk hr hsome)
  | succeeded a socket race now hp hup hdown hst =>
      simp only [Outcome, hp] at h
      simp only [ClientBytes, hp] at hc
      refine Or.inl ⟨by rw [outcomes_append, h.1]; rfl, a, now, by simp, ?_, ?_⟩
      · simpa [Action.bytesFrom] using h.2 hst
      · simpa [Action.bytesFrom, Action.bytesTo] using hc.1.isPrefix
  | closed ec c hp =>
      simp only [Outcome, hp] at h
      simp only [ClientBytes, hp] at hc
      refine Or.inr ⟨by rw [outcomes_append, h]; rfl, ?_⟩
      simpa [Action.bytesTo] using hc
  | replay_done a socket rest c hp =>
      simp only [Outcome, hp] at h
      refine ⟨by rw [outcomes_append, h]; rfl, fun hst => by cases hst⟩
  | failed a socket race now hp =>
      simp only [Outcome, hp] at h
      change outcomes _ = (0, 0)
      rw [outcomes_append, h.1]
      rfl
  | failed_capped a socket race now hp =>
      simp only [Outcome, hp] at h
      change outcomes _ = (0, 1)
      rw [outcomes_append, h.1]
      rfl
  | drained chunk c hp =>
      simp only [Outcome, hp] at h ⊢
      rw [outcomes_append, h]
      rfl
  | _ =>
      simp only [Outcome, ‹s.point = _›] at h
      simp only [Outcome, outcomes_append, retry, h]
      rfl

theorem Outcome.of_unsettled (h : Outcome s tr) (hopen : s.point.settled = false) :
    outcomes tr = (0, 0) := by
  unfold Outcome at h
  split at h
  · exact h.1
  · cases ‹s.point = _› ▸ hopen
  · cases ‹s.point = _› ▸ hopen
  · cases ‹s.point = _› ▸ hopen
  · exact h

/-! ## The 503 -/

/-- Past the write of the 503, all of it is out or the write has failed. -/
def Told (s : Session) (tr : List Action) : Prop :=
  match s.point with
  | .draining => sentTo .client tr = unavailable ∨ ∃ ec, .write_failed .client ec ∈ tr
  | .finished => .fallback_503 ∈ tr →
      sentTo .client tr = unavailable ∨ ∃ ec, .write_failed .client ec ∈ tr
  | _ => True

theorem fallback_not_mem {tr : List Action} {n : ℕ} (h : outcomes tr = (n, 0)) :
    .fallback_503 ∉ tr := by
  rw [outcomes, Prod.mk.injEq] at h
  exact List.count_eq_zero.mp h.2

theorem fallback_mem {tr : List Action} {n : ℕ} (h : outcomes tr = (n, 1)) :
    .fallback_503 ∈ tr := by
  rw [outcomes, Prod.mk.injEq] at h
  exact List.count_pos_iff.mp (by omega)

theorem told_use {s : Session} {a : Attempt} {socket : ℕ} (tr : List Action) :
    Told { s with point := s.usePoint a socket } tr := by
  unfold Told usePoint
  by_cases hbuf : s.req_buf.data = []
  · rw [if_pos hbuf]
    trivial
  · rw [if_neg hbuf]
    trivial

theorem Move.told {s s' : Session} {e : Event} {acts tr : List Action} (hm : Move s e s' acts)
    (hc : ClientBytes s tr) (ho : Outcome s tr) (h : Told s tr) : Told s' (tr ++ acts) := by
  cases hm with
  | pooled b now socket hp => exact told_use _
  | connected a socket hp => exact told_use _
  | succeeded a socket race now hp =>
      -- a session that has relayed a response has not fallen back
      simp only [Outcome, hp] at ho
      intro hmem
      have hnot := fallback_not_mem ho.1
      simp [hnot] at hmem
  | respond_done rest c hp =>
      simp only [ClientBytes, hp] at hc
      refine Or.inl ?_
      rw [sentTo_append, ← hc]
      simp [Action.bytesTo]
  | respond_failed rest out c ec hp => exact Or.inr ⟨ec, by simp⟩
  | drained chunk c hp =>
      simp only [Told, hp] at h ⊢
      simpa [Action.bytesTo] using h
  | closed ec c hp =>
      simp only [Told, hp] at h ⊢
      intro _
      simpa [Action.bytesTo] using h
  | _ => trivial

/-! ## Responses that get lost -/

/-- The session counts a response as delivered that the client has nothing of. -/
structure Lost (s : Session) (tr : List Action) : Prop where
  point : (∃ a socket race, s.point = .relaying a socket race ∧ race.over = true
    ∧ race.response_started = true) ∨ s.point = .finished
  not_reached : ¬ Reached tr
  no_fallback : .fallback_503 ∉ tr

/-- Nothing comes of it any more: what is left is to record the success. -/
theorem Lost.step {s' : Session} {i : Input} {acts : List Action} (h : Lost s tr)
    (hstep : solo s i = some (s', acts)) : Lost s' (tr ++ acts) := by
  have hm := solo_move hstep
  rcases h.point with ⟨a, socket, race, hp, hover, hst⟩ | hp
  · have hover' : race.upstream = .returned ∧ race.downstream = .returned := by
      simpa [Race.over] using hover
    generalize i.event = e at hm
    cases hm with
    | succeeded a' socket' race' now hp' =>
        refine ⟨Or.inr rfl, ?_, by simp [h.no_fallback]⟩
        rintro (hsent | ⟨ec, hec, hx⟩)
        · exact h.not_reached (Or.inl (by simpa [Action.bytesTo] using hsent))
        · exact h.not_reached (Or.inr ⟨ec, hec, by simpa using hx⟩)
    -- both relays have returned, so neither moves
    | relayed_up a' socket' race' c p' acts chunk hp' hr =>
        rw [hp] at hp'
        cases hp'
        rw [hover'.1] at hr
        cases hr
    | relayed_down a' socket' race' c p' acts chunk hp' hr =>
        rw [hp] at hp'
        cases hp'
        rw [hover'.2] at hr
        cases hr
    -- the flag is set, so it is no failure
    | failed a' socket' race' now hp' hup hdown hst' =>
        rw [hp] at hp'
        cases hp'
        rw [hst] at hst'
        cases hst'
    | failed_capped a' socket' race' now hp' hup hdown hst' =>
        rw [hp] at hp'
        cases hp'
        rw [hst] at hst'
        cases hst'
    | _ => simp_all
  · generalize i.event = e at hm
    cases hm <;> simp_all

/-- What a session keeps as long as nothing is swallowed. -/
structure Honest (s : Session) (tr : List Action) : Prop where
  numbered : Numbered s tr
  clientBytes : ClientBytes s tr
  outcome : Outcome s tr
  told : Told s tr
  flags : Flags s tr

theorem honest_start (client_key : Bytes) (max_attempts : ℤ) :
    Honest (start client_key max_attempts) [] where
  numbered := numbered_start client_key max_attempts
  clientBytes := rfl
  outcome := rfl
  told := trivial
  flags := by simp [Flags, start, ClientOpen]

section Step

variable {s' : Session} {i : Input} {acts : List Action}

theorem Honest.step (h : Honest s tr) (hno : s.swallowed tr i = false)
    (hstep : solo s i = some (s', acts)) : Honest s' (tr ++ acts) where
  numbered := (solo_move hstep).numbered h.numbered
  clientBytes := (solo_move hstep).clientBytes h.numbered h.clientBytes
  outcome := (solo_move hstep).outcome h.clientBytes h.outcome
  told := (solo_move hstep).told h.clientBytes h.outcome h.told
  flags := flags_step h.clientBytes h.flags hno hstep

/-- With the first completion that is swallowed the response is lost. -/
theorem Honest.lost (h : Honest s tr) (hsw : s.swallowed tr i = true)
    (hstep : solo s i = some (s', acts)) : Lost s' (tr ++ acts) := by
  obtain ⟨a, socket, race, hp, hover, hst, hnot⟩ := swallowed_step h.flags hsw hstep
  have hout := (solo_move hstep).outcome h.clientBytes h.outcome
  simp only [Outcome, hp] at hout
  exact ⟨Or.inl ⟨a, socket, race, hp, hover, hst⟩, hnot, fallback_not_mem hout.1⟩

end Step

/-- At its end an honest session has relayed a response or sent the 503. -/
theorem Honest.ends_properly (h : Honest s tr) (hend : s.point = .finished) :
    outcomes tr = (1, 0) ∧ Relayed tr ∨ outcomes tr = (0, 1) ∧ FellBack tr := by
  have hout := h.outcome
  have htold := h.told
  simp only [Outcome, hend] at hout
  simp only [Told, hend] at htold
  rcases hout with ⟨hone, hsucc⟩ | ⟨hone, hpre⟩
  · exact Or.inl ⟨hone, hsucc, h.flags.committed.finished hend⟩
  · exact Or.inr ⟨hone, hpre, htold (fallback_mem hone)⟩

/-- **A session that has ended has ended properly exactly if nothing was swallowed.** -/
theorem ends_properly_iff {client_key : Bytes} {max_attempts : ℤ} {ins : List Input}
    (h : exec solo (start client_key max_attempts) ins = some (s, tr))
    (hend : s.point = .finished) :
    (outcomes tr = (1, 0) ∧ Relayed tr ∨ outcomes tr = (0, 1) ∧ FellBack tr)
      ↔ Along (traced solo) (fun q i => q.1.swallowed q.2 i = false)
        (start client_key max_attempts, []) ins := by
  have hboth := exec_kept_or_broken
    (P := fun (q : Session × List Action) i => q.1.swallowed q.2 i = false)
    (I := fun q => Honest q.1 q.2) (J := fun q => Lost q.1 q.2) ?_ ?_ ?_
    (honest_start client_key max_attempts) (exec_traced h [])
  · rcases hboth with ⟨halong, hhonest⟩ | ⟨hnot, hlost⟩
    · exact iff_of_true (hhonest.ends_properly hend) halong
    · refine iff_of_false ?_ hnot
      rintro (⟨-, -, hreached⟩ | ⟨hone, -⟩)
      · exact hlost.not_reached hreached
      · exact hlost.no_fallback (fallback_mem hone)
  · rintro q i q' out hhonest hno hq
    obtain ⟨hstep, htr⟩ := traced_eq_some hq
    rw [htr]
    exact hhonest.step hno hstep
  · rintro q i q' out hhonest hno hq
    obtain ⟨hstep, htr⟩ := traced_eq_some hq
    rw [htr]
    exact hhonest.lost (by simpa using hno) hstep
  · rintro q i q' out hlost hq
    obtain ⟨hstep, htr⟩ := traced_eq_some hq
    rw [htr]
    exact hlost.step hstep

/-! ## Every session can end -/

/-- Bytes are not moved at the head of the loop. -/
theorem Wire.ne_loop {s' : Session} {acts : List Action} (hw : Wire s s' acts) :
    s.point ≠ .loop ∧ s'.point ≠ .loop := by
  have hsome : ∀ p : Point, p.socket ≠ none ∨ p.settled = true → p ≠ .loop := by
    rintro p hp rfl
    simp [Point.socket, Point.settled] at hp
  refine ⟨hsome _ hw.somewhere, hsome _ ?_⟩
  rw [hw.socket, hw.settled]
  exact hw.somewhere

section Ending

variable (sh : Shared) (now : Time)

/-- The session gets from `s` to `s'` with the shared objects at `sh`. -/
def Leads (s s' : Session) : Prop :=
  ∃ ins tr, (∀ i ∈ ins, i.shared = sh ∧ i.now = now) ∧ exec solo s ins = some (s', tr)

variable {sh now}

theorem Leads.step {s' s'' : Session} {e : Event} {acts : List Action}
    (h : solo s ⟨sh, now, e⟩ = some (s', acts)) (hrest : Leads sh now s' s'') :
    Leads sh now s s'' := by
  obtain ⟨ins, tr, hins, hrun⟩ := hrest
  refine ⟨⟨sh, now, e⟩ :: ins, acts ++ tr, ?_, exec_cons_iff.mpr ⟨s', acts, tr, h, hrun, rfl⟩⟩
  intro i hi
  rcases List.mem_cons.mp hi with rfl | hi
  · exact ⟨rfl, rfl⟩
  · exact hins i hi

theorem Leads.refl (s : Session) : Leads sh now s s := ⟨[], [], by simp, rfl⟩

/-- The session is past the attempt it is in. -/
def Past (s s' : Session) : Prop :=
  s'.point.settled = true
    ∨ s'.point = .loop ∧ s'.attempts = s.attempts + 1 ∧ s'.max_attempts = s.max_attempts

variable (sh now)

/-- Both relays have returned. -/
theorem leads_over {a : Attempt} {socket : ℕ} {race : Race}
    (hp : s.point = .relaying a socket race) (hup : race.upstream = .returned)
    (hdown : race.downstream = .returned) : ∃ s', Leads sh now s s' ∧ Past s s' := by
  have hs : solo s ⟨sh, now, .resume⟩
      = some ((raceOver sh now s a socket race.response_started).2.1,
        (raceOver sh now s a socket race.response_started).2.2) := by
    simp [solo, step, hp, Race.over, hup, hdown]
  refine ⟨_, Leads.step hs (Leads.refl _), ?_⟩
  unfold raceOver
  cases race.response_started with
  | true => exact Or.inl rfl
  | false =>
      cases s.req_buf.capped with
      | true => exact Or.inl rfl
      | false => exact Or.inr ⟨rfl, rfl, rfl⟩

/-- The downstream relay can fail. -/
theorem leads_down {a : Attempt} {socket : ℕ} {race : Race}
    (hp : s.point = .relaying a socket race) (hup : race.upstream = .returned) :
    ∃ s', Leads sh now s s' ∧ Past s s' := by
  by_cases hdown : race.downstream = .returned
  · exact leads_over sh now hp hup hdown
  · obtain ⟨acts, hs⟩ : ∃ acts, solo s ⟨sh, now, .relay .downstream (.error .eof)⟩
        = some ({ s with point := .relaying a socket { race with downstream := .returned } },
          acts) := by
      cases hd : race.downstream with
      | returned => exact absurd hd hdown
      | reading => simp [solo, step, hp, Race.resume, relay, async_read_some, hd]
      | writing rest => simp [solo, step, hp, Race.resume, relay, async_write, hd]
    obtain ⟨s', hleads, hpast⟩ := leads_over sh now
      (s := { s with point := .relaying a socket { race with downstream := .returned } })
      rfl hup rfl
    exact ⟨s', hleads.step hs, hpast⟩

/-- So can the upstream relay. -/
theorem leads_race {a : Attempt} {socket : ℕ} {race : Race}
    (hp : s.point = .relaying a socket race) : ∃ s', Leads sh now s s' ∧ Past s s' := by
  by_cases hup : race.upstream = .returned
  · exact leads_down sh now hp hup
  · obtain ⟨acts, hs⟩ : ∃ acts, solo s ⟨sh, now, .relay .upstream (.error .eof)⟩
        = some ({ s with point := .relaying a socket { race with upstream := .returned } },
          acts) := by
      cases hu : race.upstream with
      | returned => exact absurd hu hup
      | reading =>
          simp [solo, step, hp, Race.resume, relay, async_read_some, hu, RequestBuffer.capture]
      | writing rest =>
          simp [solo, step, hp, Race.resume, relay, async_write, hu, RequestBuffer.capture]
    obtain ⟨s', hleads, hpast⟩ := leads_down sh now
      (s := { s with point := .relaying a socket { race with upstream := .returned } }) rfl rfl
    exact ⟨s', hleads.step hs, hpast⟩

/-- An attempt can fail at any of its points. -/
theorem leads_attempt {a : Attempt} (hat : s.point.attempt = some a) :
    ∃ s', Leads sh now s s' ∧ Past s s' := by
  cases hp : s.point with
  | acquiring a' =>
      have hs : solo s ⟨sh, now, .connect_failed⟩
          = some (s.retry a'.backend_index, (connectFailed sh now s a').2.2) := by
        simp [solo, step, hp, connectFailed]
      exact ⟨_, Leads.step hs (Leads.refl _), Or.inr ⟨rfl, rfl, rfl⟩⟩
  | replaying a' socket rest =>
      have hs : ∃ acts, solo s ⟨sh, now, .io (.error .eof)⟩
          = some (s.retry a'.backend_index, acts) := by
        simp [solo, step, hp, async_write, replayFailed]
      obtain ⟨acts, hs⟩ := hs
      exact ⟨_, Leads.step hs (Leads.refl _), Or.inr ⟨rfl, rfl, rfl⟩⟩
  | relaying a' socket race => exact leads_race sh now hp
  | _ => simp [hp, Point.attempt] at hat

/-- A session that has its outcome can end. -/
theorem leads_settled (hset : s.point.settled = true) :
    ∃ s', Leads sh now s s' ∧ s'.point = .finished := by
  have hdrain : ∀ t : Session, t.point = .draining →
      ∃ s', Leads sh now t s' ∧ s'.point = .finished := by
    intro t hp
    have hs : solo t ⟨sh, now, .io (.error .eof)⟩
        = some ({ t with point := .finished }, [.read_failed .client .eof]) := by
      simp [solo, step, hp, async_read_some]
    exact ⟨_, Leads.step hs (Leads.refl _), rfl⟩
  cases hp : s.point with
  | responding rest =>
      have hs : solo s ⟨sh, now, .io (.error .eof)⟩
          = some ({ s with point := .draining },
            [.sent .client [], .write_failed .client .eof]) := by
        simp [solo, step, hp, async_write]
      obtain ⟨s', hleads, hend⟩ := hdrain { s with point := .draining } rfl
      exact ⟨s', hleads.step hs, hend⟩
  | draining => exact hdrain s hp
  | finished => exact ⟨s, Leads.refl s, hp⟩
  | _ => simp [hp, Point.settled] at hset

theorem Leads.trans {sh : Shared} {now : Time} {s s' s'' : Session} (h : Leads sh now s s')
    (h' : Leads sh now s' s'') : Leads sh now s s'' := by
  obtain ⟨ins, tr, hins, hrun⟩ := h
  obtain ⟨ins', tr', hins', hrun'⟩ := h'
  refine ⟨ins ++ ins', tr ++ tr', ?_, exec_append_iff.mpr ⟨s', tr, tr', hrun, hrun', rfl⟩⟩
  intro i hi
  rcases List.mem_append.mp hi with hi | hi
  · exact hins i hi
  · exact hins' i hi

/-- A turn of the loop can fail, if there is one left; otherwise the session gives up. -/
theorem leads_turn (hbreakers : ∀ key excluded b,
      sh.ring.get_backend_excluding key excluded = some b → b < sh.backend_count)
    (hp : s.point = .loop) :
    ∃ s', Leads sh now s s' ∧ Past s s'
      ∧ (s'.point = .loop → (s.attempts : ℤ) < s.max_attempts) := by
  have hs : solo s ⟨sh, now, .resume⟩
      = some ((iterate sh now s).2.1, (iterate sh now s).2.2) := by
    simp [solo, step, hp]
  have hpc := iterate_piece sh now s hp
  generalize (iterate sh now s).1 = sh' at hpc
  generalize (iterate sh now s).2.1 = t at hpc hs
  generalize (iterate sh now s).2.2 = acts at hpc hs
  cases hpc with
  | gave_up => exact ⟨_, Leads.step hs (Leads.refl _), Or.inl rfl, fun h => by cases h⟩
  | threw b hp hlt hpick hb => exact absurd (hbreakers _ _ b hpick) (by omega)
  | skipped b hp hlt =>
      exact ⟨_, Leads.step hs (Leads.refl _), Or.inr ⟨rfl, rfl, rfl⟩, fun _ => hlt⟩
  | dialing b hp hlt =>
      obtain ⟨s', hleads, hpast⟩ := leads_attempt sh now
        (s := { s with point := .acquiring ⟨s.attempts, b⟩ }) rfl
      exact ⟨s', hleads.step hs, hpast, fun _ => hlt⟩
  | pooled b socket pool hp hlt =>
      obtain ⟨s', hleads, hpast⟩ := leads_attempt sh now
        (s := { s with point := s.usePoint ⟨s.attempts, b⟩ socket }) (usePoint_attempt s _ socket)
      exact ⟨s', hleads.step hs, hpast, fun _ => hlt⟩
  | wire _ _ hw => exact absurd hp hw.ne_loop.1
  | connected a hp' => rw [hp] at hp'; cases hp'
  | connect_failed a hp' => rw [hp] at hp'; cases hp'
  | replay_failed a socket rest out ec hp' => rw [hp] at hp'; cases hp'
  | succeeded a socket race hp' => rw [hp] at hp'; cases hp'
  | failed a socket race hp' => rw [hp] at hp'; cases hp'
  | failed_capped a socket race hp' => rw [hp] at hp'; cases hp'

/-- **Every session can end.** From wherever it is and whatever the shared objects are, as
long as the ring names backends that have a breaker. -/
theorem can_end (hbreakers : ∀ key excluded b,
      sh.ring.get_backend_excluding key excluded = some b → b < sh.backend_count)
    (hcaught : s.point ≠ .threw) : ∃ s', Leads sh now s s' ∧ s'.point = .finished := by
  -- from the head of the loop, by induction on the attempts that are left
  have hloop : ∀ (k : ℕ) (t : Session), t.point = .loop → t.max_attempts ≤ t.attempts + k →
      ∃ s', Leads sh now t s' ∧ s'.point = .finished := by
    intro k
    induction k with
    | zero =>
        intro t hp hk
        obtain ⟨t', hleads, hset | ⟨hp', -⟩, hlt⟩ := leads_turn sh now hbreakers hp
        · obtain ⟨s', hrest, hend⟩ := leads_settled sh now hset
          exact ⟨s', hleads.trans hrest, hend⟩
        · exact absurd (hlt hp') (by omega)
    | succ k ih =>
        intro t hp hk
        obtain ⟨t', hleads, hset | ⟨hp', hatt, hmax⟩, hlt⟩ := leads_turn sh now hbreakers hp
        · obtain ⟨s', hrest, hend⟩ := leads_settled sh now hset
          exact ⟨s', hleads.trans hrest, hend⟩
        · obtain ⟨s', hrest, hend⟩ := ih t' hp' (by rw [hatt, hmax]; omega)
          exact ⟨s', hleads.trans hrest, hend⟩
  have hany : ∀ t : Session, t.point = .loop → ∃ s', Leads sh now t s' ∧ s'.point = .finished :=
    fun t hp => hloop t.max_attempts.toNat t hp (by omega)
  cases hat : s.point.attempt with
  | some a =>
      obtain ⟨t, hleads, hset | ⟨hp, -⟩⟩ := leads_attempt sh now hat
      · obtain ⟨s', hrest, hend⟩ := leads_settled sh now hset
        exact ⟨s', hleads.trans hrest, hend⟩
      · obtain ⟨s', hrest, hend⟩ := hany t hp
        exact ⟨s', hleads.trans hrest, hend⟩
  | none =>
      cases hp : s.point with
      | loop => exact hany s hp
      | threw => exact absurd hp hcaught
      | responding rest => exact leads_settled sh now (by rw [hp]; rfl)
      | draining => exact leads_settled sh now (by rw [hp]; rfl)
      | finished => exact leads_settled sh now (by rw [hp]; rfl)
      | _ => simp [hp, Point.attempt] at hat

end Ending

end Session

end AegisProxy
