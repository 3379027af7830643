/-
How long a session runs, and how much it holds.

A session is a loop over attempts around two loops that move bytes, and none of the three counts
its turns. Still it cannot spin. A turn of a relay reads at least one byte or writes at least one
byte of what it has read, a turn of the attempt loop uses up one attempt, and a replay writes a
buffer that has a cap. So every resumption takes one from a rank, but for what it reads
(`step_rank`), and a session is resumed no more often than twice the bytes that came in, plus a
number that depends on `max_attempts` alone (`steps_bounded`). When the peers stop sending, it
ends.

The same invariant bounds what it holds of its peers' bytes: the request buffer up to its cap,
and one chunk for each relay (`memory_bounded`). The buffer is the whole request as long as that
fits, and is capped from the chunk on with which it does not.
-/
import AegisProxy.Pieces
import AegisProxy.Streams
import Mathlib.Algebra.BigOperators.Ring.List

set_option autoImplicit false

namespace AegisProxy

open Runs

/-! ## The two operations make progress -/

theorem async_write_progress {cancelled : Bool} {rest out : Bytes} {c : Completion}
    {res : WriteResult} (h : async_write cancelled rest c = some (out, res)) :
    (∀ rest', res = .pending rest' → rest'.length < rest.length)
      ∧ (res = .done → 1 ≤ rest.length) := by
  cases c with
  | read_some chunk => cases h
  | wrote_some n =>
      simp only [async_write] at h
      split at h
      · rename_i hn
        simp only [Option.some.injEq, Prod.mk.injEq] at h
        obtain ⟨-, rfl⟩ := h
        refine ⟨?_, fun _ => hn.1.trans hn.2⟩
        intro rest' hrest
        split at hrest
        · cases hrest
        · split at hrest
          · cases hrest
          · cases hrest
            rw [List.length_drop]
            omega
      · cases h
  | error ec =>
      simp only [async_write] at h
      split at h
      · cases h
      · cases h
        exact ⟨by rintro _ ⟨⟩, by rintro ⟨⟩⟩

/-! ## Ranks -/

/-- The bytes an action brings in. -/
def Action.fed : Action → ℕ
  | .received _ chunk => chunk.length
  | _ => 0

/-- How often a relay can be resumed without another byte coming in. -/
def RelayPoint.rank : RelayPoint → ℕ
  | .reading => 1
  | .writing rest => rest.length + 1
  | .returned => 0

/-- **A relay, resumed.** A chunk of `n` bytes takes one turn to read and at most `n` to write. -/
theorem relay_rank {src dst : Peer} {cancelled : Bool} {p : RelayPoint} {c : Completion}
    {res : Resumed} (h : relay src dst cancelled p c = some res) :
    res.point.rank + 1 ≤ p.rank + 2 * (res.actions.map Action.fed).sum := by
  cases p with
  | returned => cases h
  | reading =>
      simp only [relay] at h
      split at h
      · cases h
      · cases h
        simp [RelayPoint.rank]
      · rename_i chunk hr
        cases h
        rcases async_read_some_spec hr with ⟨_, -, hok, hpos, -⟩ | ⟨ec, -, hok, -⟩ <;> cases hok
        simp only [List.map_cons, List.map_nil, List.sum_cons, List.sum_nil, Action.fed]
        cases cancelled with
        | true => simp only [RelayPoint.rank, if_true]; omega
        | false => simp only [RelayPoint.rank, Bool.false_eq_true, if_false]; omega
  | writing rest =>
      simp only [relay] at h
      split at h
      · cases h
      · rename_i out rest' hw
        cases h
        have hlt := (async_write_progress hw).1 rest' rfl
        simp only [RelayPoint.rank]
        omega
      · rename_i out hw
        cases h
        have hpos := (async_write_progress hw).2 rfl
        cases cancelled with
        | true => simp only [RelayPoint.rank, if_true]; omega
        | false => simp only [RelayPoint.rank, Bool.false_eq_true, if_false]; omega
      · cases h
        simp only [RelayPoint.rank]
        omega

/-- Both relays. -/
def Race.rank (r : Race) : ℕ := r.upstream.rank + r.downstream.rank

theorem Race.resume_rank {a : Attempt} {r r' : Race} {buf buf' : RequestBuffer} {leg : Leg}
    {c : Completion} {acts : List Action} (h : r.resume a buf leg c = some (r', buf', acts)) :
    r'.rank + 1 ≤ r.rank + 2 * (acts.map Action.fed).sum := by
  cases leg with
  | upstream =>
      simp only [resume] at h
      split at h
      · cases h
      · rename_i res hres
        cases h
        have hone := relay_rank hres
        simp only [rank]
        omega
  | downstream =>
      simp only [resume] at h
      split at h
      · cases h
      · rename_i res hres
        cases h
        have hone := relay_rank hres
        simp only [rank]
        omega

namespace Session

/-- How often a session that still has `n` attempts can be resumed from the head of its loop: per
attempt a turn of the loop, a connect, the replay, a race in which nothing moves, and its end; then
the 503, in as many parts as it has bytes, and the end of the client. -/
def loopRank (n : ℕ) : ℕ := n * (RequestBuffer.kCap + 5) + (unavailable.length + 3)

/-- How often a session can be resumed without another byte coming in. -/
def rank (s : Session) : ℕ :=
  let after := loopRank (s.max_attempts - (s.attempts + 1)).toNat
  match s.point with
  | .loop => loopRank (s.max_attempts - s.attempts).toNat
  | .acquiring _ => RequestBuffer.kCap + 4 + after
  | .replaying _ _ rest => rest.length + 3 + after
  | .relaying _ _ race => race.rank + 1 + after
  | .responding rest => rest.length + 2
  | .draining => 1
  | .finished => 0
  | .threw => 0

/-- The buffer is within its cap. -/
def Within (s : Session) : Prop := s.req_buf.data.length ≤ RequestBuffer.kCap

end Session

theorem RequestBuffer.capture_length {buf : RequestBuffer} (h : buf.data.length ≤ kCap)
    (chunk : Option Bytes) : (buf.capture chunk).data.length ≤ kCap := by
  cases chunk with
  | none => exact h
  | some chunk =>
      simp only [capture, append]
      split
      · exact h
      · split
        · exact h
        · rw [List.length_append]
          omega

/-- A relay keeps the buffer within its cap. -/
theorem Race.resume_length {a : Attempt} {r r' : Race} {buf buf' : RequestBuffer} {leg : Leg}
    {c : Completion} {acts : List Action} (hbuf : buf.data.length ≤ RequestBuffer.kCap)
    (h : r.resume a buf leg c = some (r', buf', acts)) :
    buf'.data.length ≤ RequestBuffer.kCap := by
  cases leg with
  | upstream =>
      simp only [resume] at h
      split at h
      · cases h
      · rename_i res hres
        cases h
        exact RequestBuffer.capture_length hbuf res.chunk
  | downstream =>
      simp only [resume] at h
      split at h
      · cases h
      · cases h
        exact hbuf

namespace Session

/-! ## A step takes one from the rank -/

theorem loopRank_succ (n : ℕ) : loopRank (n + 1) = loopRank n + (RequestBuffer.kCap + 5) := by
  unfold loopRank
  ring

/-- An attempt that is left costs one. -/
theorem loopRank_attempt {s : Session} (hlt : (s.attempts : ℤ) < s.max_attempts) :
    loopRank (s.max_attempts - s.attempts).toNat
      = loopRank (s.max_attempts - (s.attempts + 1)).toNat + (RequestBuffer.kCap + 5) := by
  rw [← loopRank_succ]
  congr 1
  omega

theorem rank_retry (s : Session) (b : ℕ) :
    (s.retry b).rank = loopRank (s.max_attempts - (s.attempts + 1)).toNat := by
  simp [retry, rank]

theorem le_loopRank (n : ℕ) : unavailable.length + 3 ≤ loopRank n := by
  unfold loopRank
  omega

/-- A session with a socket in hand. -/
theorem rank_use {s : Session} (h : Within s) (a : Attempt) (socket : ℕ) :
    rank { s with point := s.usePoint a socket }
      ≤ RequestBuffer.kCap + 3 + loopRank (s.max_attempts - (s.attempts + 1)).toNat := by
  unfold Within at h
  unfold usePoint
  by_cases hbuf : s.req_buf.data = []
  · rw [if_pos hbuf]
    simp only [rank, Race.rank, Race.start, RelayPoint.rank]
    omega
  · rw [if_neg hbuf]
    simp only [rank]
    omega

/-- What a session does, resumed: it keeps the buffer within its cap, and it takes one from the
rank but for what it reads. -/
structure Spends (s s' : Session) (acts : List Action) : Prop where
  within : Within s'
  rank : s'.rank + 1 ≤ s.rank + 2 * (acts.map Action.fed).sum

/-- A turn of the loop. -/
theorem iterate_spends (sh : Shared) (now : Time) {s : Session} (hp : s.point = .loop)
    (h : Within s) : Spends s (iterate sh now s).2.1 (iterate sh now s).2.2 := by
  have hrank : s.rank = loopRank (s.max_attempts - s.attempts).toNat := by simp only [rank, hp]
  have hgive : Spends s { s with point := .responding unavailable } [.fallback_503] := by
    refine ⟨h, ?_⟩
    have hle := le_loopRank (s.max_attempts - s.attempts).toNat
    simp only [rank, hp]
    omega
  unfold iterate
  by_cases hatt : (s.attempts : ℤ) < s.max_attempts
  · rw [loopRank_attempt hatt] at hrank
    rw [if_pos hatt]
    cases sh.ring.get_backend_excluding s.client_key s.excluded with
    | none => exact hgive
    | some b =>
        dsimp only
        by_cases hb : sh.backend_count ≤ b
        · rw [if_pos hb]
          exact ⟨h, by rw [hrank]; simp only [rank]; omega⟩
        · rw [if_neg hb]
          by_cases hans : ((sh.breakers b).allow_request now).1 = false
          · rw [if_pos hans]
            exact ⟨h, by rw [hrank, rank_retry]; omega⟩
          · rw [if_neg hans]
            cases (sh.pool.acquire b).1 with
            | none => exact ⟨h, by rw [hrank]; simp only [rank]; omega⟩
            | some socket =>
                refine ⟨h, ?_⟩
                have huse := rank_use h ⟨s.attempts, b⟩ socket
                rw [hrank]
                exact (Nat.add_le_add_right huse 1).trans (by omega)
  · rw [if_neg hatt]
    exact hgive

/-- The end of a race. -/
theorem raceOver_spends (sh : Shared) (now : Time) {s : Session} {a : Attempt} {socket : ℕ}
    {race : Race} (hp : s.point = .relaying a socket race) (h : Within s) :
    Spends s (raceOver sh now s a socket race.response_started).2.1
      (raceOver sh now s a socket race.response_started).2.2 := by
  have hle := le_loopRank (s.max_attempts - (s.attempts + 1)).toNat
  have hrank : s.rank = race.rank + 1 + loopRank (s.max_attempts - (s.attempts + 1)).toNat := by
    simp only [rank, hp]
  unfold raceOver
  cases race.response_started with
  | true => exact ⟨h, by rw [hrank]; simp only [if_true, rank]; omega⟩
  | false =>
      cases s.req_buf.capped with
      | true => exact ⟨h, by rw [hrank]; simp only [Bool.false_eq_true, if_false, if_true, give_up, rank]; omega⟩
      | false =>
          refine ⟨h, ?_⟩
          simp only [Bool.false_eq_true, if_false]
          rw [hrank, rank_retry]
          omega

/-- **A session, resumed, spends.** -/
theorem step_spends {sh sh' : Shared} {now : Time} {s s' : Session} {e : Event}
    {acts : List Action} (hw : Within s) (h : s.step sh now e = some (sh', s', acts)) :
    Spends s s' acts := by
  unfold step at h
  split at h
  · rename_i hp
    have hturn := iterate_spends sh now hp hw
    rw [Option.some.inj h] at hturn
    exact hturn
  · rename_i a hp
    cases h
    have huse := rank_use hw a (sh.pool.acquire_connected a.backend_index).1
    refine ⟨hw, ?_⟩
    have hrank : s.rank = RequestBuffer.kCap + 4
        + loopRank (s.max_attempts - (s.attempts + 1)).toNat := by simp only [rank, hp]
    rw [hrank]
    exact (Nat.add_le_add_right huse 1).trans (by omega)
  · rename_i a hp
    cases h
    refine ⟨hw, ?_⟩
    have hretry := rank_retry s a.backend_index
    change (s.retry a.backend_index).rank + 1 ≤ _
    rw [hretry]
    simp only [rank, hp]
    omega
  · rename_i a socket rest c hp
    split at h
    · cases h
    · rename_i out rest' hwr
      cases h
      have hlt := (async_write_progress hwr).1 rest' rfl
      refine ⟨hw, ?_⟩
      simp only [rank, hp]
      omega
    · rename_i out hwr
      cases h
      have hpos := (async_write_progress hwr).2 rfl
      refine ⟨hw, ?_⟩
      simp only [rank, hp, Race.rank, Race.start, RelayPoint.rank]
      omega
    · cases h
      refine ⟨hw, ?_⟩
      have hretry := rank_retry s a.backend_index
      change (s.retry a.backend_index).rank + 1 ≤ _
      rw [hretry]
      simp only [rank, hp]
      omega
  · rename_i a socket race leg c hp
    split at h
    · cases h
    · rename_i race' buf' acts' hr
      cases h
      have hone := Race.resume_rank hr
      refine ⟨Race.resume_length hw hr, ?_⟩
      simp only [rank, hp]
      omega
  · rename_i a socket race hp
    split at h
    · have hend := raceOver_spends sh now hp hw
      rw [Option.some.inj h] at hend
      exact hend
    · cases h
  · rename_i rest c hp
    split at h
    · cases h
    · rename_i out rest' hwr
      cases h
      have hlt := (async_write_progress hwr).1 rest' rfl
      refine ⟨hw, ?_⟩
      simp only [rank, hp]
      omega
    · cases h
      refine ⟨hw, ?_⟩
      simp only [rank, hp]
      omega
    · cases h
      refine ⟨hw, ?_⟩
      simp only [rank, hp]
      omega
  · rename_i c hp
    split at h
    · cases h
    · rename_i chunk hr
      cases h
      rcases async_read_some_spec hr with ⟨_, -, hok, hpos, -⟩ | ⟨ec, -, hok, -⟩ <;> cases hok
      refine ⟨hw, ?_⟩
      simp only [rank, hp, List.map_cons, List.map_nil, List.sum_cons, List.sum_nil, Action.fed]
      omega
    · cases h
      refine ⟨hw, ?_⟩
      simp only [rank, hp]
      omega
  · cases h

theorem within_start (client_key : Bytes) (max_attempts : ℤ) :
    Within (start client_key max_attempts) := Nat.zero_le _

theorem solo_spends {s s' : Session} {i : Input} {acts : List Action} (hw : Within s)
    (h : solo s i = some (s', acts)) : Spends s s' acts := by
  unfold solo at h
  split at h
  · cases h
  · rename_i sh' t acts' hs
    cases h
    exact step_spends hw hs

/-- Until it is over, a session can be resumed. -/
theorem step_isSome (sh : Shared) (now : Time) {s : Session} (hfin : s.point ≠ .finished)
    (hthrew : s.point ≠ .threw) : ∃ e, (s.step sh now e).isSome := by
  cases hp : s.point with
  | loop => exact ⟨.resume, by simp [step, hp]⟩
  | acquiring a => exact ⟨.connected, by simp [step, hp]⟩
  | replaying a socket rest => exact ⟨.io (.error .reset), by simp [step, hp, async_write]⟩
  | relaying a socket race =>
      -- the race is over, or one of the relays has not returned
      cases hup : race.upstream with
      | reading =>
          exact ⟨.relay .upstream (.error .reset),
            by simp [step, hp, Race.resume, hup, relay, async_read_some]⟩
      | writing rest =>
          exact ⟨.relay .upstream (.error .reset),
            by simp [step, hp, Race.resume, hup, relay, async_write]⟩
      | returned =>
          cases hdown : race.downstream with
          | reading =>
              exact ⟨.relay .downstream (.error .reset),
                by simp [step, hp, Race.resume, hdown, relay, async_read_some]⟩
          | writing rest =>
              exact ⟨.relay .downstream (.error .reset),
                by simp [step, hp, Race.resume, hdown, relay, async_write]⟩
          | returned => exact ⟨.resume, by simp [step, hp, Race.over, hup, hdown]⟩
  | responding rest => exact ⟨.io (.error .reset), by simp [step, hp, async_write]⟩
  | draining => exact ⟨.io (.error .eof), by simp [step, hp, async_read_some]⟩
  | finished => exact absurd hp hfin
  | threw => exact absurd hp hthrew

/-- **A session does not spin.** In every run of a session, whatever everything around it does, it
is resumed at most twice for every byte that came in from either side, and otherwise no more often
than a number that `max_attempts` alone determines; and until it is over there is something it can
be resumed with. -/
theorem steps_bounded (client_key : Bytes) (max_attempts : ℤ) (ins : List Input) (s : Session)
    (tr : List Action) (h : exec solo (start client_key max_attempts) ins = some (s, tr)) :
    ins.length ≤ 2 * (tr.map Action.fed).sum + max_attempts.toNat * (RequestBuffer.kCap + 5) + 129
      ∧ (s.point ≠ .finished → s.point ≠ .threw → ∀ sh now, ∃ e, (s.step sh now e).isSome) := by
  refine ⟨?_, fun hfin hthrew sh now => step_isSome sh now hfin hthrew⟩
  have hlen := exec_potential (I := Within) rank (fun x => 2 * x.fed)
    (fun s i s' out hw hstep => by
      have hsp := solo_spends hw hstep
      rw [List.sum_map_mul_left]
      exact ⟨hsp.within, hsp.rank⟩)
    (within_start client_key max_attempts) h
  have hstart : rank (start client_key max_attempts)
      = max_attempts.toNat * (RequestBuffer.kCap + 5) + 129 := by
    have hunav : unavailable.length = 126 := by decide
    simp [rank, start, loopRank, hunav]
  rw [List.sum_map_mul_left, hstart] at hlen
  omega

/-- The session with two attempts is resumed fifteen times. -/
theorem steps_bounded_failover :
    ∃ s tr, exec solo (start [] 3) failover = some (s, tr) ∧ failover.length = 15
      ∧ failover.length ≤ 2 * (tr.map Action.fed).sum + 3 * (RequestBuffer.kCap + 5) + 129 := by
  refine ⟨_, _, rfl, rfl, ?_⟩
  exact (steps_bounded [] 3 failover _ _ rfl).1

end Session

/-! ## The buffers -/

/-- What a relay still has to write is part of one chunk. -/
def RelayPoint.Chunk : RelayPoint → Prop
  | .writing rest => rest.length ≤ 8192
  | _ => True

theorem RelayMove.chunk {src dst : Peer} {cancelled : Bool} {p p' : RelayPoint} {c : Completion}
    {acts : List Action} {chunk : Option Bytes}
    (h : RelayMove src dst cancelled p c p' acts chunk) (hp : p.Chunk) : p'.Chunk := by
  cases h with
  | read chunk hpos hsize hc => exact hsize
  | wrote rest out rest' c hsplit hrest hc =>
      have hlen := congrArg List.length hsplit
      rw [List.length_append] at hlen
      simp only [RelayPoint.Chunk] at hp ⊢
      omega
  | _ => trivial

/-- A capture that does not fit is of more than the cap. -/
theorem RequestBuffer.capture_capped {buf : RequestBuffer} {chunk : Option Bytes}
    (hbefore : buf.capped = false) (h : (buf.capture chunk).capped = true) :
    kCap < buf.data.length + (chunk.getD []).length := by
  cases chunk with
  | none =>
      rw [capture, hbefore] at h
      cases h
  | some chunk =>
      simp only [capture, append, hbefore, Bool.false_eq_true, if_false] at h
      split at h
      · assumption
      · cases h

/-- What is captured is kept at the end, or not at all. -/
theorem RequestBuffer.capture_prefix {buf : RequestBuffer} {r : Bytes} (chunk : Option Bytes)
    (hbuf : buf.capped = false → buf.data = r) (h : buf.data <+: r) :
    (buf.capture chunk).data <+: r ++ chunk.getD [] := by
  have hkeep : buf.data <+: r ++ chunk.getD [] := h.trans (List.prefix_append _ _)
  cases chunk with
  | none => exact hkeep
  | some chunk =>
      simp only [capture, append]
      split
      · exact hkeep
      · rename_i hcap
        split
        · exact hkeep
        · rw [hbuf (by simpa using hcap)]
          exact List.prefix_rfl

namespace Session

/-- Until the session has its outcome, the buffer is a beginning of the request, all of it unless
it is capped, and capped only if the request is longer than the cap; and a relay holds no more than
one chunk. -/
structure Buffered (s : Session) (tr : List Action) : Prop where
  whole : s.point.settled = false → s.req_buf.capped = false →
    s.req_buf.data = receivedFrom .client tr
  beginning : s.point.settled = false → s.req_buf.data <+: receivedFrom .client tr
  capped : s.point.settled = false → s.req_buf.capped = true →
    RequestBuffer.kCap < (receivedFrom .client tr).length
  chunks : ∀ a socket race, s.point = .relaying a socket race →
    race.upstream.Chunk ∧ race.downstream.Chunk

theorem buffered_start (client_key : Bytes) (max_attempts : ℤ) :
    Buffered (start client_key max_attempts) [] where
  whole := fun _ _ => rfl
  beginning := fun _ => List.nil_prefix
  capped := by rintro _ ⟨⟩
  chunks := by rintro _ _ _ ⟨⟩

/-- A move that reads nothing from the client and does not touch the buffer. -/
theorem Buffered.quiet {s s' : Session} {tr acts : List Action} (h : Buffered s tr)
    (hbuf : s'.req_buf = s.req_buf) (hsettled : s'.point.settled = false → s.point.settled = false)
    (hacts : receivedFrom .client acts = [])
    (hchunks : ∀ a socket race, s'.point = .relaying a socket race →
      race.upstream.Chunk ∧ race.downstream.Chunk) : Buffered s' (tr ++ acts) := by
  refine ⟨?_, ?_, ?_, hchunks⟩ <;> rw [hbuf, receivedFrom_append, hacts, List.append_nil]
  · exact fun hs => h.whole (hsettled hs)
  · exact fun hs => h.beginning (hsettled hs)
  · exact fun hs => h.capped (hsettled hs)

theorem chunks_use {s : Session} {a : Attempt} {socket : ℕ} :
    ∀ a' socket' race, s.usePoint a socket = .relaying a' socket' race →
      race.upstream.Chunk ∧ race.downstream.Chunk := by
  intro a' socket' race hp
  unfold usePoint at hp
  split at hp <;> cases hp
  exact ⟨trivial, trivial⟩

/-- **One move keeps the buffers.** -/
theorem Move.buffered {s s' : Session} {e : Event} {acts tr : List Action}
    (hm : Move s e s' acts) (h : Buffered s tr) : Buffered s' (tr ++ acts) := by
  cases hm with
  | pooled b now socket hp =>
      exact h.quiet rfl (fun _ => by rw [hp]; rfl) (by simp [Action.bytesFrom]) chunks_use
  | connected a socket hp =>
      exact h.quiet rfl (fun _ => by rw [hp]; rfl) (by simp [Action.bytesFrom]) chunks_use
  | replay_done a socket rest c hp =>
      refine h.quiet rfl (fun _ => by rw [hp]; rfl) (by simp [Action.bytesFrom]) ?_
      rintro _ _ _ ⟨⟩
      exact ⟨trivial, trivial⟩
  | relayed_up a socket race c p' acts chunk hp hr =>
      obtain ⟨hup, hdown⟩ := h.chunks a socket race hp
      have hopen : s.point.settled = false := by rw [hp]; rfl
      have hrecv := hr.chunk_eq
      refine ⟨?_, ?_, ?_, ?_⟩
      · intro _ hcap
        rw [receivedFrom_append]
        exact capture_data hr (h.whole hopen) hcap
      · intro _
        rw [receivedFrom_append, ← hrecv]
        exact RequestBuffer.capture_prefix chunk (h.whole hopen) (h.beginning hopen)
      · intro _ hcap
        rw [receivedFrom_append, ← hrecv, List.length_append]
        cases hbefore : s.req_buf.capped with
        | true => exact Nat.lt_add_right _ (h.capped hopen hbefore)
        | false =>
            have hmore := RequestBuffer.capture_capped hbefore hcap
            rwa [h.whole hopen hbefore] at hmore
      · rintro _ _ _ ⟨⟩
        exact ⟨hr.chunk hup, hdown⟩
  | relayed_down a socket race c p' acts chunk hp hr =>
      obtain ⟨hup, hdown⟩ := h.chunks a socket race hp
      refine h.quiet rfl (fun _ => by rw [hp]; rfl) (hr.receivedFrom_other (by simp)) ?_
      rintro _ _ _ ⟨⟩
      exact ⟨hup, hr.chunk hdown⟩
  | drained chunk c hp =>
      have hsettled : s.point.settled = true := by rw [hp]; rfl
      exact ⟨fun hs => absurd hs (by simp [hsettled]), fun hs => absurd hs (by simp [hsettled]),
        fun hs => absurd hs (by simp [hsettled]), h.chunks⟩
  | _ =>
      refine h.quiet rfl (fun hs => ?_) (by simp [Action.bytesFrom]) (by rintro _ _ _ ⟨⟩)
      simp_all [Point.settled, retry]

/-- **What a session holds.** In every run of a session, whatever everything around it does: the
request buffer has at most its cap of bytes, and each relay at most one chunk still to write. And
until the session has its outcome: the buffer is capped exactly when more than the cap has been
read from the client; it holds everything that was read if it is not capped, and a beginning of it
in any case. -/
theorem memory_bounded (client_key : Bytes) (max_attempts : ℤ) (ins : List Input) (s : Session)
    (tr : List Action) (h : exec solo (start client_key max_attempts) ins = some (s, tr)) :
    s.req_buf.data.length ≤ RequestBuffer.kCap
      ∧ (∀ a socket race, s.point = .relaying a socket race →
        race.upstream.Chunk ∧ race.downstream.Chunk)
      ∧ (s.point.settled = false →
        (s.req_buf.capped = true ↔ RequestBuffer.kCap < (receivedFrom .client tr).length)
          ∧ (s.req_buf.capped = false → s.req_buf.data = receivedFrom .client tr)
          ∧ s.req_buf.data <+: receivedFrom .client tr) := by
  have hwithin := exec_invariant (I := fun s _ => Within s)
    (fun _ _ _ _ _ hw hstep => (solo_spends hw hstep).within)
    (within_start client_key max_attempts) h
  have hbuf := exec_invariant (I := Buffered)
    (fun _ _ _ _ _ hb hstep => (solo_move hstep).buffered hb)
    (buffered_start client_key max_attempts) h
  refine ⟨hwithin, hbuf.chunks, fun hopen => ⟨⟨hbuf.capped hopen, ?_⟩, hbuf.whole hopen,
    hbuf.beginning hopen⟩⟩
  intro hlong
  by_contra hcap
  unfold Within at hwithin
  rw [hbuf.whole hopen (by simpa using hcap)] at hwithin
  omega

/-- Before its second attempt the session holds the request. -/
theorem memory_bounded_failover :
    ∃ s tr, exec solo (start [] 3) (failover.take 7) = some (s, tr)
      ∧ s.req_buf.data = receivedFrom .client tr
      ∧ (s.req_buf.capped = true ↔ RequestBuffer.kCap < (receivedFrom .client tr).length) := by
  refine ⟨_, _, rfl, ?_⟩
  obtain ⟨-, -, hopen⟩ := memory_bounded [] 3 (failover.take 7) _ _ rfl
  obtain ⟨hcapped, hwhole, -⟩ := hopen rfl
  exact ⟨hwhole rfl, hcapped⟩

end Session

end AegisProxy
