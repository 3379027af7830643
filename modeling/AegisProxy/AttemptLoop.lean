/-
The attempt loop of `handle_client`, over every run of a session on a ring that stays
what it is.

The ring is asked again and again with a growing set of excluded backends, and what it
answers is fixed beforehand: `order` is the list of the backends as a walk around the ring
from the client's hash first meets them, and the `k`-th answer is its `k`-th entry
(`get_backend_excluding_order`). `Walked` is the invariant that ties it to the session: the
backends considered are the first entries of `order`, those given up are excluded and have
been turned down, and `attempts` counts them.

So the loop takes at most `max_attempts` turns and never comes back to a backend, and a
session that ends in a 503 has been through all of them (`attempt_loop`). It does not always
end in a relayed response or a 503: where the race swallows the first completion that could
have put a byte on the client's socket, it ends in neither (`attempt_loop_nothing_sent`).
-/
import AegisProxy.Effects
import AegisProxy.SessionEnds

set_option autoImplicit false

namespace AegisProxy

open Runs

namespace HashRing

/-! ## The order of the picks -/

/-- The backends in the order in which a walk around the ring from the key's hash meets
their first points. -/
def order (r : HashRing) (key : Bytes) : List ℕ :=
  ((r.ring_.around (hash_key key)).map Prod.snd).eraseDups

theorem nodup_order (r : HashRing) (key : Bytes) : (r.order key).Nodup :=
  List.nodup_eraseDups _

theorem mem_order {r : HashRing} {key : Bytes} {b : ℕ} :
    b ∈ r.order key ↔ ∃ p, r.ring_.At p b := by
  rw [order, List.mem_eraseDups, List.mem_map]
  constructor
  · rintro ⟨⟨p, o⟩, hmem, rfl⟩
    exact ⟨p, SortedMap.mem_around.mp hmem⟩
  · rintro ⟨p, hat⟩
    exact ⟨(p, b), SortedMap.mem_around.mpr hat, rfl⟩

/-- **The picks come in order.** With the first `k` backends of the order excluded, the
ring answers the next one. -/
theorem get_backend_excluding_order (r : HashRing) (key : Bytes) (k : ℕ) :
    r.get_backend_excluding key ((r.order key).take k).toFinset = (r.order key)[k]? := by
  rw [get_backend_excluding_eq, SortedMap.firstWhere, order, ← List.find?_not_mem_take,
    List.find?_map]
  simp only [List.mem_toFinset]
  rfl

/-- A backend comes before another in the order if its first point is nearer to the key's
hash than every point of the other. -/
theorem order_pairwise (r : HashRing) (key : Bytes) :
    (r.order key).Pairwise fun b b' => ∃ p, r.ring_.At p b
      ∧ ∀ p', r.ring_.At p' b' → distance (hash_key key) p < distance (hash_key key) p' := by
  have hpairs := List.eraseDups_map_pairwise Prod.snd _ (r.ring_.around_pairwise (hash_key key))
  have hboth := (List.nodup_iff_pairwise_ne.mp (r.nodup_order key)).and hpairs
  refine hboth.imp ?_
  rintro b b' ⟨hne, ⟨p, o⟩, hmem, rfl, hfirst⟩
  have hat : r.ring_.At p o := SortedMap.mem_around.mp hmem
  refine ⟨p, hat, ?_⟩
  intro p' hat'
  have hcw : SortedMap.Clockwise (hash_key key) p p' :=
    hfirst (p', b') (SortedMap.mem_around.mpr hat') rfl
  refine lt_of_le_of_ne ((clockwise_iff_distance _ _ _).mp hcw) ?_
  intro heq
  -- one distance, one point, one owner
  have hback : SortedMap.Clockwise (hash_key key) p' p :=
    (clockwise_iff_distance _ _ _).mpr heq.ge
  have hpoint := SortedMap.clockwise_antisymm hcw hback
  rw [hpoint] at hat
  exact hne (SortedMap.at_unique hat hat')

end HashRing

/-! ## The backends of a session -/

/-- The backend whose breaker an action asks. -/
def Action.asks : Action → Option ℕ
  | .breaker a (.allow_request _) _ => some a.backend_index
  | _ => none

/-- The backends a trace considers, in order. -/
def considered (tr : List Action) : List ℕ := tr.filterMap Action.asks

theorem considered_append (tr tr' : List Action) :
    considered (tr ++ tr') = considered tr ++ considered tr' := List.filterMap_append

/-- A read or a write of a socket considers nobody. -/
theorem considered_wire {acts : List Action} (h : ∀ x ∈ acts, x.isWire = true) :
    considered acts = [] := by
  rw [considered, List.filterMap_eq_nil_iff]
  intro x hx
  have hwire := h x hx
  cases x with
  | breaker a call answer => cases hwire
  | _ => rfl

/-- Backend `b` was refused by its breaker, or it was tried and failed. -/
def TurnedDown (b : ℕ) (tr : List Action) : Prop :=
  (∃ now, (.allow_request now, some false) ∈ callsOn b tr)
    ∨ ∃ now, (.record_failure now, none) ∈ callsOn b tr

theorem TurnedDown.append {b : ℕ} {tr : List Action} (h : TurnedDown b tr) (acts : List Action) :
    TurnedDown b (tr ++ acts) := by
  rcases h with ⟨now, hmem⟩ | ⟨now, hmem⟩
  · refine Or.inl ⟨now, ?_⟩
    rw [callsOn_append]
    exact List.mem_append_left _ hmem
  · refine Or.inr ⟨now, ?_⟩
    rw [callsOn_append]
    exact List.mem_append_left _ hmem

theorem turnedDown_of_refused (a : Attempt) (now : Time) {tr : List Action}
    (h : .breaker a (.allow_request now) (some false) ∈ tr) : TurnedDown a.backend_index tr :=
  Or.inl ⟨now, mem_callsOn.mpr ⟨a, rfl, h⟩⟩

theorem turnedDown_of_failed (a : Attempt) (now : Time) {tr : List Action}
    (h : .breaker a (.record_failure now) none ∈ tr) : TurnedDown a.backend_index tr :=
  Or.inr ⟨now, mem_callsOn.mpr ⟨a, rfl, h⟩⟩

namespace Session

/-! ## The walk of a session -/

/-- How many backends a session has considered before it has its outcome: those it has
given up, and the one it is at. -/
def turns (s : Session) : ℕ := if s.point.attempt = none then s.attempts else s.attempts + 1

/-- A session goes down the order of the ring. -/
structure Walked (ring : HashRing) (s : Session) (tr : List Action) : Prop where
  excluded : s.excluded = ((ring.order s.client_key).take s.attempts).toFinset
  attempts_le : s.attempts ≤ (ring.order s.client_key).length
  bound : s.attempts ≤ s.max_attempts.toNat
  current : ∀ a, s.point.attempt = some a →
    (ring.order s.client_key)[s.attempts]? = some a.backend_index
      ∧ (s.attempts : ℤ) < s.max_attempts
  considered : s.point.settled = false →
    considered tr = (ring.order s.client_key).take s.turns
  isPrefix : AegisProxy.considered tr <+: ring.order s.client_key
  turned : ∀ b ∈ s.excluded, TurnedDown b tr
  uncapped : s.point.beforeRace = true → s.req_buf.capped = false
  unsettled : s.point.settled = false → .fallback_503 ∉ tr
  exhausted : .fallback_503 ∈ tr → s.req_buf.capped = false →
    s.max_attempts ≤ s.attempts ∨ ∀ p b, ring.ring_.At p b → b ∈ s.excluded
  caught : s.point ≠ .threw

variable {ring : HashRing} {s : Session} {tr : List Action}

theorem walked_start (ring : HashRing) (client_key : Bytes) (max_attempts : ℤ) :
    Walked ring (start client_key max_attempts) [] where
  excluded := by simp [start]
  attempts_le := Nat.zero_le _
  bound := Nat.zero_le _
  current := by intro a ha; cases ha
  considered := by intro _; simp [start, turns, Point.attempt, AegisProxy.considered]
  isPrefix := List.nil_prefix
  turned := by intro b hb; simp [start] at hb
  uncapped := by intro _; rfl
  unsettled := by simp
  exhausted := by simp
  caught := by simp [start]

/-- The ring's answer at the head of the loop. -/
theorem Walked.pick (h : Walked ring s tr) :
    ring.get_backend_excluding s.client_key s.excluded
      = (ring.order s.client_key)[s.attempts]? := by
  rw [h.excluded, HashRing.get_backend_excluding_order]

/-- An action that asks nobody and is no 503 leaves nothing to say. -/
theorem considered_append_nil {acts : List Action} (h : considered acts = []) :
    considered (tr ++ acts) = considered tr := by
  rw [considered_append, h, List.append_nil]

/-- A backend is given up, and the session goes back to the head of the loop or, if the
request no longer fits the buffer, ends in a 503. -/
theorem Walked.retry (h : Walked ring s tr) {b : ℕ} {acts : List Action} {point : Point}
    (hpoint : point = .loop ∧ s.req_buf.capped = false ∧ .fallback_503 ∉ tr ++ acts
      ∨ point = .responding unavailable ∧ s.req_buf.capped = true)
    (hb : (ring.order s.client_key)[s.attempts]? = some b)
    (hlt : (s.attempts : ℤ) < s.max_attempts)
    (hconsidered : AegisProxy.considered (tr ++ acts)
      = (ring.order s.client_key).take (s.attempts + 1))
    (hturned : TurnedDown b (tr ++ acts)) :
    Walked ring { s.retry b with point := point } (tr ++ acts) where
  excluded := by
    change insert b s.excluded = ((ring.order s.client_key).take (s.attempts + 1)).toFinset
    rw [List.take_add_one, hb, h.excluded]
    ext b'
    simp
  attempts_le := (List.getElem?_eq_some_iff.mp hb).1
  bound := by
    change s.attempts + 1 ≤ s.max_attempts.toNat
    omega
  current := by
    intro a ha
    rcases hpoint with ⟨rfl, -⟩ | ⟨rfl, -⟩ <;> cases ha
  considered := by
    intro hopen
    rcases hpoint with ⟨rfl, -⟩ | ⟨rfl, -⟩
    · exact hconsidered
    · cases hopen
  isPrefix := by
    rw [hconsidered]
    exact List.take_prefix _ _
  turned := by
    intro b' hb'
    rcases Finset.mem_insert.mp hb' with rfl | hb'
    · exact hturned
    · exact (h.turned b' hb').append acts
  uncapped := by
    intro hrace
    rcases hpoint with ⟨-, hcap, -⟩ | ⟨rfl, -⟩
    · exact hcap
    · cases hrace
  unsettled := by
    intro hopen
    rcases hpoint with ⟨-, -, hno⟩ | ⟨rfl, -⟩
    · exact hno
    · cases hopen
  exhausted := by
    intro hmem hcap
    rcases hpoint with ⟨-, -, hno⟩ | ⟨-, hfull⟩
    · exact absurd hmem hno
    · change s.req_buf.capped = false at hcap
      rw [hfull] at hcap
      cases hcap
  caught := by
    rcases hpoint with ⟨rfl, -⟩ | ⟨rfl, -⟩ <;> simp

/-- A session is at a backend of the order, waiting for its connection or with it in
hand. -/
theorem Walked.enter (h : Walked ring s tr) {a : Attempt} {acts : List Action} {point : Point}
    (hat : point.attempt = some a)
    (hb : (ring.order s.client_key)[s.attempts]? = some a.backend_index)
    (hlt : (s.attempts : ℤ) < s.max_attempts)
    (hconsidered : AegisProxy.considered (tr ++ acts)
      = (ring.order s.client_key).take (s.attempts + 1))
    (hno : .fallback_503 ∉ tr ++ acts) (hcap : s.req_buf.capped = false) :
    Walked ring { s with point := point } (tr ++ acts) where
  excluded := h.excluded
  attempts_le := h.attempts_le
  bound := h.bound
  current := by
    intro a' ha'
    change point.attempt = some a' at ha'
    rw [hat] at ha'
    cases ha'
    exact ⟨hb, hlt⟩
  considered := by
    intro _
    rw [hconsidered, turns]
    simp [hat]
  isPrefix := by
    rw [hconsidered]
    exact List.take_prefix _ _
  turned := fun b hb => (h.turned b hb).append acts
  uncapped := fun _ => hcap
  unsettled := fun _ => hno
  exhausted := fun hmem => absurd hmem hno
  caught := by
    intro hthrew
    change point = .threw at hthrew
    rw [hthrew] at hat
    cases hat

/-- The session has its outcome and keeps it. -/
theorem Walked.settle (h : Walked ring s tr) {acts : List Action} {point : Point}
    (hset : point.settled = true) (hconsidered : AegisProxy.considered acts = [])
    (hend : .fallback_503 ∈ tr ++ acts → s.req_buf.capped = false →
      s.max_attempts ≤ s.attempts ∨ ∀ p b, ring.ring_.At p b → b ∈ s.excluded) :
    Walked ring { s with point := point } (tr ++ acts) where
  excluded := h.excluded
  attempts_le := h.attempts_le
  bound := h.bound
  current := by
    intro a ha
    cases point <;> simp_all [Point.attempt, Point.settled]
  considered := by
    intro hopen
    change point.settled = false at hopen
    rw [hset] at hopen
    cases hopen
  isPrefix := by
    rw [considered_append_nil hconsidered]
    exact h.isPrefix
  turned := fun b hb => (h.turned b hb).append acts
  uncapped := by
    intro hrace
    cases point <;> simp_all [Point.beforeRace, Point.settled]
  unsettled := by
    intro hopen
    change point.settled = false at hopen
    rw [hset] at hopen
    cases hopen
  exhausted := hend
  caught := by
    intro hthrew
    change point = .threw at hthrew
    rw [hthrew] at hset
    cases hset

/-- Moving bytes leaves the walk where it is. -/
theorem Walked.wire (h : Walked ring s tr) {s' : Session} {acts : List Action}
    (hw : Wire s s' acts) : Walked ring s' (tr ++ acts) := by
  have hconsidered : AegisProxy.considered (tr ++ acts) = AegisProxy.considered tr :=
    considered_append_nil (considered_wire hw.acts)
  have hturns : s'.turns = s.turns := by
    rw [turns, turns, hw.attempt, hw.attempts]
  have hfallback : .fallback_503 ∈ tr ++ acts ↔ .fallback_503 ∈ tr := by
    rw [List.mem_append, or_iff_left]
    intro hmem
    cases hw.acts _ hmem
  refine ⟨?_, ?_, ?_, ?_, ?_, ?_, ?_, ?_, ?_, ?_, ?_⟩
  · rw [hw.excluded, hw.client_key, hw.attempts]
    exact h.excluded
  · rw [hw.client_key, hw.attempts]
    exact h.attempts_le
  · rw [hw.attempts, hw.max_attempts]
    exact h.bound
  · intro a ha
    rw [hw.attempt] at ha
    rw [hw.client_key, hw.attempts, hw.max_attempts]
    exact h.current a ha
  · intro hopen
    rw [hw.settled] at hopen
    rw [hconsidered, hw.client_key, hturns]
    exact h.considered hopen
  · rw [hconsidered, hw.client_key]
    exact h.isPrefix
  · intro b hb
    rw [hw.excluded] at hb
    exact (h.turned b hb).append acts
  · intro hrace
    obtain ⟨hrace', hbuf⟩ := hw.beforeRace hrace
    rw [hbuf]
    exact h.uncapped hrace'
  · intro hopen
    rw [hw.settled] at hopen
    rw [hfallback]
    exact h.unsettled hopen
  · intro hmem hcap
    rw [hfallback] at hmem
    have hcap' : s.req_buf.capped = false := by
      by_contra hfull
      rw [hw.capped (by simpa using hfull)] at hcap
      cases hcap
    rw [hw.max_attempts, hw.attempts, hw.excluded]
    exact h.exhausted hmem hcap'
  · intro hthrew
    rcases hw.somewhere with hsome | hset
    · rw [← hw.socket, hthrew] at hsome
      exact hsome rfl
    · rw [← hw.settled, hthrew] at hset
      cases hset

/-- At the head of the loop the next backend of the order is asked. -/
theorem Walked.asks (h : Walked ring s tr) (hp : s.point = .loop) {b : ℕ}
    (hpick : ring.get_backend_excluding s.client_key s.excluded = some b) :
    (ring.order s.client_key)[s.attempts]? = some b
      ∧ (∀ acts, AegisProxy.considered acts = [b] →
        AegisProxy.considered (tr ++ acts) = (ring.order s.client_key).take (s.attempts + 1))
      ∧ .fallback_503 ∉ tr ∧ s.req_buf.capped = false := by
  rw [h.pick] at hpick
  have hopen : s.point.settled = false := by rw [hp]; rfl
  refine ⟨hpick, ?_, h.unsettled hopen, h.uncapped (by rw [hp]; rfl)⟩
  intro acts hone
  rw [considered_append, hone, h.considered hopen, turns, hp, List.take_add_one, hpick]
  rfl

/-- In an attempt its backend is the last that was asked. -/
theorem Walked.trying (h : Walked ring s tr) {a : Attempt} (hat : s.point.attempt = some a) :
    (ring.order s.client_key)[s.attempts]? = some a.backend_index
      ∧ (s.attempts : ℤ) < s.max_attempts
      ∧ (∀ acts, AegisProxy.considered acts = [] →
        AegisProxy.considered (tr ++ acts) = (ring.order s.client_key).take (s.attempts + 1))
      ∧ .fallback_503 ∉ tr := by
  obtain ⟨hb, hlt⟩ := h.current a hat
  have hopen : s.point.settled = false := by
    cases hp : s.point <;> simp_all [Point.attempt, Point.settled]
  refine ⟨hb, hlt, ?_, h.unsettled hopen⟩
  intro acts hnil
  rw [considered_append_nil hnil, h.considered hopen, turns, hat]
  simp

/-- The attempt has failed, and the session goes back for another. -/
theorem Walked.fails (h : Walked ring s tr) {a : Attempt} (hat : s.point.attempt = some a)
    (hcap : s.req_buf.capped = false) {acts : List Action} (now : Time)
    (hnil : AegisProxy.considered acts = []) (hno : .fallback_503 ∉ acts)
    (hfail : .breaker a (.record_failure now) none ∈ acts) :
    Walked ring (s.retry a.backend_index) (tr ++ acts) := by
  obtain ⟨hb, hlt, hconsidered, hnone⟩ := h.trying hat
  have hnowhere : .fallback_503 ∉ tr ++ acts := by
    rw [List.mem_append, not_or]
    exact ⟨hnone, hno⟩
  exact h.retry (Or.inl ⟨rfl, hcap, hnowhere⟩) hb hlt (hconsidered acts hnil)
    (turnedDown_of_failed a now (List.mem_append_right _ hfail))

/-- **A step goes on down the order.** -/
theorem Piece.walked {sh sh' : Shared} {now : Time} {s' : Session} {acts : List Action}
    (hpc : Piece sh now s sh' s' acts) (hring : sh.ring = ring)
    (hbreakers : ∀ p b, ring.ring_.At p b → b < sh.backend_count) (h : Walked ring s tr) :
    Walked ring s' (tr ++ acts) := by
  cases hpc with
  | gave_up hp hend =>
      refine h.settle rfl rfl ?_
      intro _ _
      rcases hend with hend | hend
      · exact Or.inl hend
      · rw [hring] at hend
        exact Or.inr (HashRing.get_backend_excluding_none_iff.mp hend)
  | threw b hp hlt hpick hb =>
      rw [hring] at hpick
      obtain ⟨-, p, hat⟩ := HashRing.get_backend_excluding_some hpick
      exact absurd (hbreakers p b hat) (by omega)
  | skipped b hp hlt hpick hb hans =>
      obtain ⟨hget, hconsidered, hno, hcap⟩ := h.asks hp (hring ▸ hpick)
      exact h.retry (Or.inl ⟨rfl, hcap, by simpa using hno⟩) hget hlt (hconsidered _ rfl)
        (turnedDown_of_refused ⟨s.attempts, b⟩ now (by simp))
  | dialing b hp hlt hpick hb hans hfree =>
      obtain ⟨hget, hconsidered, hno, hcap⟩ := h.asks hp (hring ▸ hpick)
      exact h.enter rfl hget hlt (hconsidered _ rfl) (by simpa using hno) hcap
  | pooled b socket pool hp hlt hpick hb hans hfree =>
      obtain ⟨hget, hconsidered, hno, hcap⟩ := h.asks hp (hring ▸ hpick)
      exact h.enter (usePoint_attempt s _ socket) hget hlt (hconsidered _ rfl)
        (by simpa using hno) hcap
  | connected a hp =>
      obtain ⟨hget, hlt, hconsidered, hno⟩ := h.trying (by rw [hp]; rfl)
      exact h.enter (usePoint_attempt s a _) hget hlt (hconsidered _ rfl) (by simpa using hno)
        (h.uncapped (by rw [hp]; rfl))
  | connect_failed a hp =>
      exact h.fails (by rw [hp]; rfl) (h.uncapped (by rw [hp]; rfl)) now rfl (by simp) (by simp)
  | replay_failed a socket rest out ec hp =>
      exact h.fails (by rw [hp]; rfl) (h.uncapped (by rw [hp]; rfl)) now rfl (by simp) (by simp)
  | succeeded a socket race hp hst =>
      have hno : .fallback_503 ∉ tr := h.unsettled (by rw [hp]; rfl)
      exact h.settle rfl rfl fun hmem => absurd hmem (by simpa using hno)
  | failed a socket race hp hst hcap =>
      exact h.fails (by rw [hp]; rfl) hcap now rfl (by simp) (by simp)
  | failed_capped a socket race hp hst hcap =>
      obtain ⟨hget, hlt, hconsidered, -⟩ := h.trying (by rw [hp]; rfl)
      exact h.retry (Or.inr ⟨rfl, hcap⟩) hget hlt (hconsidered _ rfl)
        (turnedDown_of_failed a now (by simp))
  | wire s' acts hw => exact h.wire hw

/-! ## The turns of the loop -/

/-- The step is a turn of the attempt loop. -/
def isTurn (s : Session) (_ : Input) : Bool := s.point = .loop ∧ (s.attempts : ℤ) < s.max_attempts

/-- How many turns a session has begun, if it has begun one at all. -/
def begun (s : Session) : ℕ := if s.point = .loop then s.attempts else s.attempts + 1

theorem begun_loop (hp : s.point = .loop) : s.begun = s.attempts := if_pos hp

theorem begun_of_ne (hp : s.point ≠ .loop) : s.begun = s.attempts + 1 := if_neg hp

theorem begun_of_attempt {a : Attempt} (hat : s.point.attempt = some a) :
    s.begun = s.attempts + 1 := by
  refine begun_of_ne ?_
  intro hp
  rw [hp] at hat
  cases hat

/-- A step from the head of the loop begins a turn or ends the loop; any other step begins
none. -/
theorem Piece.begun {sh sh' : Shared} {now : Time} {s' : Session} {acts : List Action}
    (hpc : Piece sh now s sh' s' acts) :
    s.begun ≤ s'.begun ∧ (s.point = .loop → s'.begun = s.attempts + 1) := by
  cases hpc with
  | gave_up hp => exact ⟨by rw [begun_loop hp]; exact Nat.le_succ _, fun _ => rfl⟩
  | threw b hp => exact ⟨by rw [begun_loop hp]; exact Nat.le_succ _, fun _ => rfl⟩
  | skipped b hp => exact ⟨by rw [begun_loop hp]; exact Nat.le_succ _, fun _ => rfl⟩
  | dialing b hp => exact ⟨by rw [begun_loop hp]; exact Nat.le_succ _, fun _ => rfl⟩
  | pooled b socket pool hp =>
      have huse := begun_of_attempt
        (s := { s with point := s.usePoint ⟨s.attempts, b⟩ socket })
        (usePoint_attempt s ⟨s.attempts, b⟩ socket)
      refine ⟨?_, fun _ => huse⟩
      rw [begun_loop hp, huse]
      exact Nat.le_succ _
  | connected a hp =>
      have huse := begun_of_attempt (s := { s with point := s.usePoint a sh.pool.next_socket })
        (usePoint_attempt s a sh.pool.next_socket)
      refine ⟨?_, by simp [hp]⟩
      rw [huse, begun_of_ne (by simp [hp])]
  | connect_failed a hp => exact ⟨by rw [begun_of_ne (by simp [hp])]; rfl, by simp [hp]⟩
  | replay_failed a socket rest out ec hp =>
      exact ⟨by rw [begun_of_ne (by simp [hp])]; rfl, by simp [hp]⟩
  | succeeded a socket race hp => exact ⟨by rw [begun_of_ne (by simp [hp])]; rfl, by simp [hp]⟩
  | failed a socket race hp => exact ⟨by rw [begun_of_ne (by simp [hp])]; rfl, by simp [hp]⟩
  | failed_capped a socket race hp =>
      exact ⟨by rw [begun_of_ne (by simp [hp])]; exact Nat.le_succ _, by simp [hp]⟩
  | wire s' acts hw =>
      obtain ⟨hs, hs'⟩ := hw.ne_loop
      exact ⟨by rw [begun_of_ne hs, begun_of_ne hs', hw.attempts], fun hp => absurd hp hs⟩

/-- **At most `max_attempts` turns.** -/
theorem turns_le {t : Session} {ins : List Input}
    (h : exec solo s ins = some (t, tr)) : countSteps solo isTurn s ins ≤ s.max_attempts.toNat := by
  -- the turns begun, cut off at `max_attempts`: the step that ends the loop begins none
  have hcount := countSteps_le (P := isTurn)
    (f := fun s => min s.begun s.max_attempts.toNat) ?_ h
  · have hmax : t.max_attempts = s.max_attempts :=
      exec_invariant (I := fun t _ => t.max_attempts = s.max_attempts)
        (fun u tr i u' out hu hstep => by
          obtain ⟨sh', hpc⟩ := solo_piece hstep
          exact hpc.max_attempts_eq.trans hu) rfl h
    simp only [hmax] at hcount
    omega
  · intro u i u' out hstep
    obtain ⟨sh', hpc⟩ := solo_piece hstep
    obtain ⟨hle, hnext⟩ := hpc.begun
    simp only [hpc.max_attempts_eq]
    by_cases hturn : isTurn u i = true
    · obtain ⟨hp, hlt⟩ := of_decide_eq_true hturn
      rw [hnext hp, begun_loop hp, if_pos hturn]
      omega
    · rw [if_neg hturn]
      omega

/-! ## The attempt loop -/

/-- Everything a run on one ring keeps. -/
theorem walked_run {client_key : Bytes} {max_attempts : ℤ} {ins : List Input}
    (hins : ∀ i ∈ ins, i.shared.ring = ring
      ∧ ∀ p b, ring.ring_.At p b → b < i.shared.backend_count)
    (h : exec solo (start client_key max_attempts) ins = some (s, tr)) :
    Walked ring s tr ∧ s.client_key = client_key ∧ s.max_attempts = max_attempts := by
  refine exec_invariant_along (P := fun _ i => i.shared.ring = ring
      ∧ ∀ p b, ring.ring_.At p b → b < i.shared.backend_count)
    (I := fun s tr => Walked ring s tr ∧ s.client_key = client_key
      ∧ s.max_attempts = max_attempts) ?_ ⟨walked_start ring client_key max_attempts, rfl, rfl⟩
    (along_of_mem (fun i hi _ => hins i hi) _) h
  rintro u tr i u' out ⟨hw, hkey, hmax⟩ ⟨hring, hbreakers⟩ hstep
  obtain ⟨sh', hpc⟩ := solo_piece hstep
  refine ⟨hpc.walked hring hbreakers hw, ?_, hpc.max_attempts_eq.trans hmax⟩
  exact hpc.client_key_eq.trans hkey

/-- If the order has been gone through as far as there are backends, all of them have been
turned down. -/
theorem Walked.turnedDown (h : Walked ring s tr)
    (hactive : ∀ p b, ring.ring_.At p b → b ∈ ring.active_backends_)
    (hpoints : ∀ b ∈ ring.active_backends_, ∃ p, ring.ring_.At p b)
    (hmax : (ring.backend_count : ℤ) ≤ s.max_attempts) (hmem : .fallback_503 ∈ tr)
    (hcap : s.req_buf.capped = false) {b : ℕ} (hb : b ∈ ring.active_backends_) :
    TurnedDown b tr := by
  apply h.turned
  obtain ⟨p, hat⟩ := hpoints b hb
  rcases h.exhausted hmem hcap with hend | hall
  · -- every backend of the order is active, and none comes twice
    have hsub : (ring.order s.client_key).toFinset ⊆ ring.active_backends_ := by
      intro b' hb'
      obtain ⟨p', hat'⟩ := HashRing.mem_order.mp (List.mem_toFinset.mp hb')
      exact hactive p' b' hat'
    have hcard := Finset.card_le_card hsub
    rw [List.toFinset_card_of_nodup (ring.nodup_order _)] at hcard
    have hlen : (ring.order s.client_key).length ≤ s.attempts := by
      unfold HashRing.backend_count at hmax
      omega
    rw [h.excluded, List.take_of_length_le hlen, List.mem_toFinset]
    exact HashRing.mem_order.mpr ⟨p, hat⟩
  · exact hall p b hat

/-- **The attempt loop.** For a ring after any history, every active backend of which owns a
point and has a breaker, and for every key, every `max_attempts` and every run of a session
on it, whatever the breakers, the pool and the sockets do:

1. the loop takes at most `max_attempts` turns;
2. the backends it considers are distinct, and they are the first ones, in the order in
   which their first points come clockwise from the key's hash;
3. a session that has ended has recorded one success or fallen back to the 503 once, and
   before that neither; it has then relayed one backend's response or sent the 503, one of
   them and once, if and only if no completion of the run was swallowed: never, with nothing
   sent to the client so far and the upstream relay returned, was the downstream relay handed
   a chunk, or the write of its first chunk cancelled before a byte of it was out. A session
   does not end by an exception, and from wherever it is it can be brought to its end;
4. if there are no more active backends than `max_attempts` and the session falls back to
   the 503 with its buffer not capped, every active backend was refused by its breaker or
   tried and failed. The buffer is never capped at the head of the loop, so a session with a
   capped buffer has come to its 503 by the break that looks at it. -/
theorem attempt_loop (n : ℕ) (history : List HashRing.Op) (ring : HashRing)
    (hafter : ring = HashRing.after n history)
    (hpoints : ∀ b ∈ ring.active_backends_, ∃ p, ring.ring_.At p b)
    (client_key : Bytes) (max_attempts : ℤ) (ins : List Input)
    (hins : ∀ i ∈ ins, i.shared.ring = ring
      ∧ ∀ b ∈ ring.active_backends_, b < i.shared.backend_count)
    (s : Session) (tr : List Action)
    (hrun : exec solo (start client_key max_attempts) ins = some (s, tr)) :
    countSteps solo isTurn (start client_key max_attempts) ins ≤ max_attempts.toNat
    ∧ ((AegisProxy.considered tr).Nodup
      ∧ AegisProxy.considered tr <+: ring.order client_key
      ∧ (AegisProxy.considered tr).Pairwise fun b b' => ∃ p, ring.ring_.At p b
        ∧ ∀ p', ring.ring_.At p' b' → HashRing.distance (HashRing.hash_key client_key) p
          < HashRing.distance (HashRing.hash_key client_key) p')
    ∧ ((s.point = .finished → outcomes tr = (1, 0) ∨ outcomes tr = (0, 1))
      ∧ (s.point = .finished →
        ((outcomes tr = (1, 0) ∧ Relayed tr ∨ outcomes tr = (0, 1) ∧ FellBack tr)
          ↔ Along (traced solo) (fun q i => q.1.swallowed q.2 i = false)
            (start client_key max_attempts, []) ins))
      ∧ (s.point.settled = false → outcomes tr = (0, 0))
      ∧ s.point ≠ .threw
      ∧ ∀ sh now, sh.ring = ring → (∀ b ∈ ring.active_backends_, b < sh.backend_count) →
        ∃ s', Leads sh now s s' ∧ s'.point = .finished)
    ∧ ((ring.backend_count : ℤ) ≤ max_attempts → .fallback_503 ∈ tr →
        s.req_buf.capped = false → ∀ b ∈ ring.active_backends_, TurnedDown b tr)
    ∧ (s.point = .loop → s.req_buf.capped = false) := by
  have hactive : ∀ p b, ring.ring_.At p b → b ∈ ring.active_backends_ := by
    intro p b hat
    rw [hafter] at hat ⊢
    exact ((HashRing.owned_after n history).owner p b hat).1
  obtain ⟨hw, hkey, hmax⟩ := walked_run
    (fun i hi => ⟨(hins i hi).1, fun p b hat => (hins i hi).2 b (hactive p b hat)⟩) hrun
  have hbytes := exec_invariant
    (I := fun s tr => Numbered s tr ∧ ClientBytes s tr ∧ Outcome s tr)
    (fun u tr i u' out hu hstep =>
      ⟨(solo_move hstep).numbered hu.1, (solo_move hstep).clientBytes hu.1 hu.2.1,
        (solo_move hstep).outcome hu.2.1 hu.2.2⟩)
    ⟨numbered_start client_key max_attempts, rfl, rfl⟩ hrun
  have hprefix := hw.isPrefix
  rw [hkey] at hprefix
  refine ⟨turns_le hrun, ⟨?_, hprefix, ?_⟩, ⟨?_, ends_properly_iff hrun, ?_, hw.caught, ?_⟩, ?_, ?_⟩
  · exact (ring.nodup_order client_key).sublist hprefix.sublist
  · exact (ring.order_pairwise client_key).sublist hprefix.sublist
  · intro hp
    have hout := hbytes.2.2
    simp only [Outcome, hp] at hout
    exact hout.imp And.left And.left
  · exact hbytes.2.2.of_unsettled
  · intro sh now hring hbreakers
    refine can_end sh now ?_ hw.caught
    intro key excluded b hpick
    rw [hring] at hpick
    obtain ⟨-, p, hat⟩ := HashRing.get_backend_excluding_some hpick
    exact hbreakers b (hactive p b hat)
  · intro hcard hmem hcap b hb
    exact hw.turnedDown hactive hpoints (hmax ▸ hcard) hmem hcap hb
  · intro hp
    exact hw.uncapped (by rw [hp]; rfl)

/-- The ring of two backends that `Shared.new 2 1` builds. -/
theorem twoBackends_points :
    ∀ b ∈ (HashRing.after 1 [.add_backend 0, .add_backend 1]).active_backends_,
      ∃ p, (HashRing.after 1 [.add_backend 0, .add_backend 1]).ring_.At p b := by
  have hpoints : ∀ b ∈ (HashRing.after 1 [.add_backend 0, .add_backend 1]).active_backends_,
      (HashRing.vnode_hash b 0, b)
        ∈ (HashRing.after 1 [.add_backend 0, .add_backend 1]).ring_.entries := by
    decide +kernel
  exact fun b hb => ⟨_, hpoints b hb⟩

/-- A run with what `Shared.new 2 1` builds is one on that ring. -/
theorem twoBackends_inputs {events : List Event} :
    ∀ i ∈ events.map (fun e => (⟨.new 2 1 5 2 5000 (fun _ => 0), 0, e⟩ : Input)),
      i.shared.ring = HashRing.after 1 [.add_backend 0, .add_backend 1]
      ∧ ∀ b ∈ (HashRing.after 1 [.add_backend 0, .add_backend 1]).active_backends_,
        b < i.shared.backend_count := by
  intro i hi
  obtain ⟨e, -, rfl⟩ := List.mem_map.mp hi
  refine ⟨rfl, ?_⟩
  change ∀ b ∈ (HashRing.after 1 [.add_backend 0, .add_backend 1]).active_backends_, b < 2
  decide +kernel

/-- A session both of whose backends refuse the connection. -/
def allDown : List Input :=
  [.resume, .connect_failed, .resume, .connect_failed, .resume, .io (.error .eof),
    .io (.error .eof)].map (⟨.new 2 1 5 2 5000 (fun _ => 0), 0, ·⟩)

/-- It takes three turns, the last of which finds the ring exhausted, and ends in the 503
with both backends turned down. -/
theorem attempt_loop_all_down :
    ∃ s tr, exec solo (start [] 3) allDown = some (s, tr) ∧ s.point = .finished
      ∧ countSteps solo isTurn (start [] 3) allDown = 3 ∧ outcomes tr = (0, 1) ∧ FellBack tr
      ∧ TurnedDown 0 tr ∧ TurnedDown 1 tr := by
  refine ⟨_, _, rfl, rfl, by decide +kernel, ?_⟩
  obtain ⟨-, -, ⟨-, hends, -⟩, hdown, -⟩ := attempt_loop 1 [.add_backend 0, .add_backend 1] _ rfl
    twoBackends_points [] 3 allDown twoBackends_inputs _ _ rfl
  have hall := hdown (by decide +kernel) (by decide +kernel) rfl
  rcases (hends rfl).mpr (by decide +kernel) with ⟨hone, -⟩ | ⟨hone, hfell⟩
  · exact absurd hone (by decide +kernel)
  · exact ⟨hone, hfell, hall 0 (by decide +kernel), hall 1 (by decide +kernel)⟩

/-- A backend whose response is handed to the relay after the client's half-close: the session
ends with neither a relayed response nor a 503, though no write to the client has failed. -/
theorem attempt_loop_nothing_sent :
    ¬ ∀ (n : ℕ) (history : List HashRing.Op) (ring : HashRing),
      ring = HashRing.after n history →
      (∀ b ∈ ring.active_backends_, ∃ p, ring.ring_.At p b) →
      ∀ (client_key : Bytes) (max_attempts : ℤ) (ins : List Input),
      (∀ i ∈ ins, i.shared.ring = ring
        ∧ ∀ b ∈ ring.active_backends_, b < i.shared.backend_count) →
      ∀ (s : Session) (tr : List Action),
      exec solo (start client_key max_attempts) ins = some (s, tr) → s.point = .finished →
      outcomes tr = (1, 0) ∧ Relayed tr ∨ outcomes tr = (0, 1) ∧ FellBack tr := by
  intro h
  let trace : List Action :=
    [.breaker ⟨0, 0⟩ (.allow_request 0) (some true), .acquire ⟨0, 0⟩, .acquired ⟨0, 0⟩ 0,
      .received .client [71], .sent (.backend ⟨0, 0⟩) [71], .read_failed .client .eof,
      .received (.backend ⟨0, 0⟩) [50, 51], .released ⟨0, 0⟩ 0,
      .breaker ⟨0, 0⟩ (.record_success 0) none]
  have hsent : sentTo .client trace = [] := by decide +kernel
  rcases h 1 [.add_backend 0, .add_backend 1] _ rfl twoBackends_points [] 3 answeredTooLate
    twoBackends_inputs _ trace rfl rfl with ⟨-, -, hreached⟩ | ⟨hone, -⟩
  · exact ClientOpen.not_reached (by simp [ClientOpen, trace]) hsent hreached
  · exact absurd hone (by decide +kernel)

end Session

end AegisProxy
