/-
Each session of the process, taken by itself.

What is known of one session is known of its solo runs: everything around it arbitrary, step
after step. A session of the process is such a run. What it did is what the trace has under
its number (`actionsOf`), and its surroundings are less arbitrary than a solo run allows:
the ring and the number of backends are those the process was built with (`session_run`).

The first use is about sockets. A session reads and writes a backend only on the connection
of the attempt it is in, and that is the one socket it acquired in that attempt (`Owns`).
-/
import AegisProxy.Pieces
import AegisProxy.ProxyBreakers

set_option autoImplicit false

namespace AegisProxy

open Runs

namespace Session

/-! ## A session keeps to its socket -/

/-- The session reads and writes a backend on a socket of its own. -/
structure Owns (s : Session) (tr : List Action) : Prop where
  numbered : Numbered s tr
  socket : ∀ a socket, s.point.attempt = some a → s.point.socket = some socket →
    .acquired a socket ∈ tr
  wires : ∀ x ∈ tr, x.isWire = true → ∀ a, x.attempt = some a → ∃ socket, .acquired a socket ∈ tr
  once : ∀ a socket socket', .acquired a socket ∈ tr → .acquired a socket' ∈ tr →
    socket = socket'

variable {s s' : Session} {tr acts : List Action}

theorem owns_start (client_key : Bytes) (max_attempts : ℤ) :
    Owns (start client_key max_attempts) [] where
  numbered := numbered_start client_key max_attempts
  socket := by intro a socket ha; cases ha
  wires := by simp
  once := by simp

/-- A read or write of a backend is on the connection of the attempt the session is in. -/
theorem Move.wires {e : Event} (hm : Move s e s' acts) :
    ∀ x ∈ acts, x.isWire = true → ∀ a, x.attempt = some a →
      s.point.attempt = some a ∧ s.point.socket ≠ none := by
  cases hm with
  | relayed_up a socket race c p' acts chunk hp hr =>
      intro x hx _ a' ha'
      rw [hp]
      rcases hr.attempt x hx with hx' | hx' <;> rw [ha'] at hx' <;> cases hx'
      exact ⟨rfl, by simp [Point.socket]⟩
  | relayed_down a socket race c p' acts chunk hp hr =>
      intro x hx _ a' ha'
      rw [hp]
      rcases hr.attempt x hx with hx' | hx' <;> rw [ha'] at hx' <;> cases hx'
      exact ⟨rfl, by simp [Point.socket]⟩
  | _ => simp_all [Action.isWire, Action.attempt, Peer.attempt, Point.attempt, Point.socket]

/-- A step that acquires does so in an attempt whose connection is untouched, and has the
socket afterwards. -/
theorem Piece.acquires {sh sh' : Shared} {now : Time} (hpc : Piece sh now s sh' s' acts)
    (hn : Numbered s tr) {a : Attempt} {socket : ℕ} (hx : .acquired a socket ∈ acts) :
    Untouched a tr ∧ s'.point.attempt = some a ∧ s'.point.socket = some socket := by
  cases hpc with
  | pooled b k pool hp =>
      simp only [List.mem_cons, List.not_mem_nil, reduceCtorEq, or_false, false_or,
        Action.acquired.injEq] at hx
      obtain ⟨rfl, rfl⟩ := hx
      exact ⟨hn.fresh_of_loop hp b, usePoint_attempt s _ _, usePoint_socket s _ _⟩
  | connected a' hp =>
      simp only [List.mem_singleton, Action.acquired.injEq] at hx
      obtain ⟨rfl, rfl⟩ := hx
      exact ⟨hn.fresh_of_acquiring hp, usePoint_attempt s _ _, usePoint_socket s _ _⟩
  | wire s' acts hw =>
      have hwire := hw.acts _ hx
      cases hwire
  | _ => simp at hx

/-- A step that leaves a session with a socket has acquired it or moved bytes on it. -/
theorem Piece.socket_of {sh sh' : Shared} {now : Time} (hpc : Piece sh now s sh' s' acts)
    {a : Attempt} {socket : ℕ} (hat : s'.point.attempt = some a)
    (hsock : s'.point.socket = some socket) :
    .acquired a socket ∈ acts ∨ s.point.attempt = some a ∧ s.point.socket = some socket := by
  cases hpc with
  | pooled b k pool hp =>
      rw [usePoint_attempt] at hat
      rw [usePoint_socket] at hsock
      cases hat
      cases hsock
      exact Or.inl (by simp)
  | connected a' hp =>
      rw [usePoint_attempt] at hat
      rw [usePoint_socket] at hsock
      cases hat
      cases hsock
      exact Or.inl (by simp)
  | wire s' acts hw => exact Or.inr ⟨hw.attempt ▸ hat, hw.socket ▸ hsock⟩
  | _ => cases hsock

/-- **A step keeps the session to its socket.** -/
theorem owns_step {i : Input} (h : Owns s tr) (hstep : solo s i = some (s', acts)) :
    Owns s' (tr ++ acts) := by
  have hm := solo_move hstep
  obtain ⟨sh', hpc⟩ := solo_piece hstep
  refine ⟨hm.numbered h.numbered, ?_, ?_, ?_⟩
  · intro a socket hat hsock
    rcases hpc.socket_of hat hsock with hx | ⟨hat, hsock⟩
    · exact List.mem_append_right _ hx
    · exact List.mem_append_left _ (h.socket a socket hat hsock)
  · intro x hx hwire a ha
    rcases List.mem_append.mp hx with hx | hx
    · obtain ⟨socket, hacq⟩ := h.wires x hx hwire a ha
      exact ⟨socket, List.mem_append_left _ hacq⟩
    · obtain ⟨hat, hsome⟩ := hm.wires x hx hwire a ha
      obtain ⟨socket, hsock⟩ := Option.ne_none_iff_exists'.mp hsome
      exact ⟨socket, List.mem_append_left _ (h.socket a socket hat hsock)⟩
  · intro a socket socket' hx hx'
    rcases List.mem_append.mp hx with hold | hnew <;>
      rcases List.mem_append.mp hx' with hold' | hnew'
    · exact h.once a socket socket' hold hold'
    · exact absurd rfl ((hpc.acquires h.numbered hnew').1 _ hold)
    · exact absurd rfl ((hpc.acquires h.numbered hnew).1 _ hold')
    · have hhas := (hpc.acquires h.numbered hnew).2.2
      rw [(hpc.acquires h.numbered hnew').2.2] at hhas
      exact (Option.some.inj hhas).symm

theorem owns_run {client_key : Bytes} {max_attempts : ℤ} {ins : List Input}
    (h : exec solo (start client_key max_attempts) ins = some (s, tr)) : Owns s tr :=
  exec_invariant (I := Owns) (fun _ _ _ _ _ ho hstep => owns_step ho hstep)
    (owns_start client_key max_attempts) h

end Session

/-! ## The sessions of the process -/

namespace Proxy

/-- The session is a solo run of `handle_client` with the given trace, among surroundings
with the given ring and number of backends. -/
def SoloRun (ring : HashRing) (backend_count : ℕ) (max_attempts : ℤ) (s : Session)
    (tr : List Action) : Prop :=
  ∃ client_key ins, exec Session.solo (.start client_key max_attempts) ins = some (s, tr)
    ∧ ∀ i ∈ ins, i.shared.ring = ring ∧ i.shared.backend_count = backend_count

/-- What was built at the start stays, the sessions are solo runs, and who is not yet there
has done nothing. -/
structure Separate (p₀ p : Proxy) (tr : List (ℕ × Action)) : Prop where
  ring : p.shared.ring = p₀.shared.ring
  backend_count : p.shared.backend_count = p₀.shared.backend_count
  max_attempts : p.max_attempts = p₀.max_attempts
  sessions : ∀ i s, p.sessions[i]? = some s →
    SoloRun p₀.shared.ring p₀.shared.backend_count p₀.max_attempts s (actionsOf i tr)
  others : ∀ i, p.sessions[i]? = none → actionsOf i tr = []

theorem SoloRun.step {ring : HashRing} {backend_count : ℕ} {max_attempts : ℤ} {s s' : Session}
    {tr acts : List Action} (h : SoloRun ring backend_count max_attempts s tr)
    {sh sh' : Shared} {now : Time} {e : Event} (hstep : s.step sh now e = some (sh', s', acts))
    (hring : sh.ring = ring) (hcount : sh.backend_count = backend_count) :
    SoloRun ring backend_count max_attempts s' (tr ++ acts) := by
  obtain ⟨client_key, ins, hrun, hins⟩ := h
  have hone : exec Session.solo s [⟨sh, now, e⟩] = some (s', acts) := by
    refine exec_singleton ?_
    simp only [Session.solo, hstep]
  refine ⟨client_key, ins ++ [⟨sh, now, e⟩],
    exec_append_iff.mpr ⟨_, _, _, hrun, hone, rfl⟩, ?_⟩
  intro i hi
  rcases List.mem_append.mp hi with hi | hi
  · exact hins i hi
  · rw [List.mem_singleton.mp hi]
    exact ⟨hring, hcount⟩

/-- The steps that resume no session keep the sessions apart. -/
theorem Separate.quiet {p₀ p p' : Proxy} {tr : List (ℕ × Action)} (h : Separate p₀ p tr)
    (hring : p'.shared.ring = p.shared.ring)
    (hcount : p'.shared.backend_count = p.shared.backend_count)
    (hmax : p'.max_attempts = p.max_attempts)
    (hsess : p'.sessions = p.sessions
      ∨ ∃ client_key, p'.sessions = p.sessions ++ [.start client_key p.max_attempts]) :
    Separate p₀ p' tr := by
  refine ⟨hring.trans h.ring, hcount.trans h.backend_count, hmax.trans h.max_attempts, ?_, ?_⟩
  · intro i s hi
    rcases hsess with hs | ⟨client_key, hs⟩
    · rw [hs] at hi
      exact h.sessions i s hi
    · rw [hs] at hi
      by_cases hlt : i < p.sessions.length
      · rw [List.getElem?_append_left hlt] at hi
        exact h.sessions i s hi
      · -- the new session has done nothing yet
        have hnone : p.sessions[i]? = none := List.getElem?_eq_none (by omega)
        rw [List.getElem?_append_right (by omega)] at hi
        obtain rfl := List.mem_singleton.mp (List.mem_of_getElem? hi)
        rw [h.others i hnone, h.max_attempts]
        exact ⟨client_key, [], rfl, by simp⟩
  · intro i hi
    refine h.others i ?_
    rcases hsess with hs | ⟨client_key, hs⟩
    · rw [hs] at hi
      exact hi
    · rw [hs, List.getElem?_eq_none_iff, List.length_append] at hi
      exact List.getElem?_eq_none (by omega)

/-- **One step keeps the sessions apart.** -/
theorem Separate.step {p₀ p p' : Proxy} {inp : Input} {tr out : List (ℕ × Action)}
    (h : Separate p₀ p tr) (hstep : p.step inp = some (p', out)) :
    Separate p₀ p' (tr ++ out) := by
  rcases step_cases hstep with ⟨connected, i, rest, -, -, rfl, rfl⟩
    | ⟨key, now, -, -, -, rfl, rfl⟩ | ⟨now, -, -, -, rfl, rfl⟩
    | ⟨j, now, e, s, shared, s', acts, -, -, hj, hs, rfl, rfl⟩
  · rw [List.append_nil]
    cases connected with
    | true => exact h.quiet rfl rfl rfl (Or.inl rfl)
    | false => exact h.quiet rfl rfl rfl (Or.inl rfl)
  · rw [List.append_nil]
    rcases p.accept_cases key now with ⟨-, he⟩ | ⟨-, he⟩
    · rw [he]
      exact h.quiet rfl rfl rfl (Or.inr ⟨key, rfl⟩)
    · rw [he]
      exact h.quiet rfl rfl rfl (Or.inl rfl)
  · rw [List.append_nil]
    exact h.quiet rfl rfl rfl (Or.inl rfl)
  · have heff := Session.step_effect hs
    have hlt : j < p.sessions.length := (List.getElem?_eq_some_iff.mp hj).1
    refine ⟨heff.ring.trans h.ring, heff.backend_count.trans h.backend_count, h.max_attempts,
      ?_, ?_⟩
    · intro i t hi
      rw [actionsOf_append]
      by_cases hij : i = j
      · subst hij
        rw [List.getElem?_set_self hlt] at hi
        cases hi
        rw [actionsOf_self]
        exact (h.sessions i s hj).step hs h.ring h.backend_count
      · rw [List.getElem?_set_ne (Ne.symm hij)] at hi
        rw [actionsOf_other (Ne.symm hij), List.append_nil]
        exact h.sessions i t hi
    · intro i hi
      rw [List.getElem?_eq_none_iff, List.length_set] at hi
      rw [actionsOf_append, actionsOf_other (by omega), List.append_nil]
      exact h.others i (List.getElem?_eq_none hi)

/-- **Every session of the process is a solo run**, with the trace's entries under its
number as its trace. -/
theorem session_run {p₀ p : Proxy} (hnone : p₀.sessions = []) {ins : List Input}
    {tr : List (ℕ × Action)} (h : exec step p₀ ins = some (p, tr)) : Separate p₀ p tr := by
  refine exec_invariant (I := Separate p₀) (fun _ _ _ _ _ hsep hs => hsep.step hs) ?_ h
  refine ⟨rfl, rfl, rfl, ?_, fun _ _ => rfl⟩
  intro i s hi
  rw [hnone] at hi
  simp at hi

theorem mem_actionsOf {i : ℕ} {tr : List (ℕ × Action)} {x : Action} :
    x ∈ actionsOf i tr ↔ (i, x) ∈ tr := by
  unfold actionsOf
  rw [List.mem_filterMap]
  constructor
  · rintro ⟨⟨j, y⟩, hy, hx⟩
    dsimp only at hx
    split at hx
    · rename_i hj
      cases hx
      exact hj ▸ hy
    · cases hx
  · intro hx
    exact ⟨(i, x), hx, if_pos rfl⟩

end Proxy

end AegisProxy
