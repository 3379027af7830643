/-
The byte-moving part of `session.cpp`: `RequestBuffer`, `relay`, and the race
`relay(..) || relay(..)`.

A coroutine is modelled by where it is suspended and resumed by the completion of
the operation it awaits. A relay is suspended in `async_read_some` or in
`async_write`, or it has returned. What a completion may be is what the library
documents:

* a read delivers between `1` and the buffer's size many bytes, or an error;
* a write moves some of the bytes it has left, in order, and completes when none is
  left; or it ends with an error;
* when one relay returns, `operator||` cancels the other. A cancelled operation ends
  with `operation_aborted`, unless its completion was already on its way: then that
  completion is delivered, the relay runs on with it, and its *next* `co_await` ends
  with `operation_aborted`. So after a cancellation exactly one completion is
  delivered, whatever it is, and the relay has returned.

`operation_aborted` only ever answers a cancelled operation.

Every resumption emits the actions it performed: what was read, what was put on a
socket, and how an operation failed. They are the trace the results about bytes are
stated over.
-/
import AegisProxy.CircuitBreaker
import AegisProxy.HashKey

set_option autoImplicit false

namespace AegisProxy

/-! ## The request buffer -/

/-- `RequestBuffer`. -/
structure RequestBuffer where
  data : Bytes
  capped : Bool
  deriving DecidableEq, Repr

namespace RequestBuffer

def kCap : ℕ := 16 * 1024

def new : RequestBuffer := ⟨[], false⟩

/-- `RequestBuffer::append`. A chunk that does not fit is dropped whole and caps the
buffer for good. -/
def append (buf : RequestBuffer) (chunk : Bytes) : RequestBuffer :=
  if buf.capped then buf
  else if buf.data.length + chunk.length > kCap then { buf with capped := true }
  else { buf with data := buf.data ++ chunk }

/-- `if (capture) capture->append(..)`, for the chunk a relay has read, if any. -/
def capture (buf : RequestBuffer) : Option Bytes → RequestBuffer
  | none => buf
  | some chunk => buf.append chunk

/-- A buffer that is not capped afterwards was not capped before and has taken the
chunk. -/
theorem append_uncapped {buf : RequestBuffer} {chunk : Bytes}
    (h : (buf.append chunk).capped = false) :
    buf.capped = false ∧ (buf.append chunk).data = buf.data ++ chunk := by
  unfold append at h ⊢
  by_cases hc : buf.capped = true
  · rw [if_pos hc] at h
    rw [hc] at h
    cases h
  · rw [if_neg hc] at h ⊢
    by_cases hfull : buf.data.length + chunk.length > kCap
    · rw [if_pos hfull] at h
      cases h
    · rw [if_neg hfull]
      exact ⟨by simpa using hc, rfl⟩

end RequestBuffer

/-! ## Peers, actions and traces -/

/-- One attempt of a session: its ordinal (`attempts` when it begins) and the
backend it is on. The ordinal tells two connections of one session apart. -/
structure Attempt where
  number : ℕ
  backend_index : ℕ
  deriving DecidableEq, Repr

/-- The two ends a session talks to. -/
inductive Peer
  | client
  | backend (attempt : Attempt)
  deriving DecidableEq, Repr

/-- The kinds of `asio::error_code` the code can see. `reset` stands for every error
other than end of stream and cancellation; the code does not tell them apart. -/
inductive ErrorCode
  | eof
  | reset
  | operation_aborted
  deriving DecidableEq, Repr

/-- What a session does that the outside, or another component, can see. -/
inductive Action
  | received (peer : Peer) (chunk : Bytes)
  | read_failed (peer : Peer) (ec : ErrorCode)
  | sent (peer : Peer) (bytes : Bytes)
  | write_failed (peer : Peer) (ec : ErrorCode)
  | breaker (attempt : Attempt) (call : CircuitBreaker.Call) (answer : Option Bool)
  | acquire (attempt : Attempt)
  | acquired (attempt : Attempt) (socket : ℕ)
  | connect_failed (attempt : Attempt)
  | released (attempt : Attempt) (socket : ℕ)
  | fallback_503
  deriving DecidableEq, Repr

/-- The bytes of one action read from a peer. -/
def Action.bytesFrom (peer : Peer) : Action → Bytes
  | .received q chunk => if q = peer then chunk else []
  | _ => []

/-- The bytes of one action put on a peer's socket. -/
def Action.bytesTo (peer : Peer) : Action → Bytes
  | .sent q bytes => if q = peer then bytes else []
  | _ => []

/-- All bytes a trace received from a peer, in order. -/
def receivedFrom (peer : Peer) (tr : List Action) : Bytes := tr.flatMap (Action.bytesFrom peer)

/-- All bytes a trace put on a peer's socket, in order. -/
def sentTo (peer : Peer) (tr : List Action) : Bytes := tr.flatMap (Action.bytesTo peer)

@[simp] theorem receivedFrom_nil (p : Peer) : receivedFrom p [] = [] := rfl

@[simp] theorem sentTo_nil (p : Peer) : sentTo p [] = [] := rfl

@[simp] theorem receivedFrom_append (p : Peer) (tr tr' : List Action) :
    receivedFrom p (tr ++ tr') = receivedFrom p tr ++ receivedFrom p tr' := List.flatMap_append

@[simp] theorem sentTo_append (p : Peer) (tr tr' : List Action) :
    sentTo p (tr ++ tr') = sentTo p tr ++ sentTo p tr' := List.flatMap_append

@[simp] theorem receivedFrom_cons (p : Peer) (x : Action) (tr : List Action) :
    receivedFrom p (x :: tr) = x.bytesFrom p ++ receivedFrom p tr := List.flatMap_cons

@[simp] theorem sentTo_cons (p : Peer) (x : Action) (tr : List Action) :
    sentTo p (x :: tr) = x.bytesTo p ++ sentTo p tr := List.flatMap_cons

/-! ## The two asynchronous operations -/

/-- The completion of an awaited operation. -/
inductive Completion
  | read_some (chunk : Bytes)
  | wrote_some (n : ℕ)
  | error (ec : ErrorCode)
  deriving DecidableEq, Repr

/-- `async_read_some` into a buffer of `size` bytes. -/
def async_read_some (size : ℕ) (cancelled : Bool) : Completion → Option (Except ErrorCode Bytes)
  | .read_some chunk => if 1 ≤ chunk.length ∧ chunk.length ≤ size then some (.ok chunk) else none
  | .error ec => if ec = .operation_aborted ∧ cancelled = false then none else some (.error ec)
  | .wrote_some _ => none

/-- What an `async_write` with bytes left over is after a completion. -/
inductive WriteResult
  | pending (rest : Bytes)
  | done
  | error (ec : ErrorCode)
  deriving DecidableEq, Repr

/-- `async_write` with `rest` left to write: the bytes that went out and what is
left. It is a composed operation, so a cancelled one that has moved some but not all
of its bytes ends with `operation_aborted`. -/
def async_write (cancelled : Bool) (rest : Bytes) : Completion → Option (Bytes × WriteResult)
  | .wrote_some n =>
    if 1 ≤ n ∧ n ≤ rest.length then
      some (rest.take n,
        -- cancelled or not, a write whose last byte is out has succeeded
        if n = rest.length then .done
        else if cancelled then .error .operation_aborted
        else .pending (rest.drop n))
    else none
  | .error ec =>
    if ec = .operation_aborted ∧ cancelled = false then none else some ([], .error ec)
  | .read_some _ => none

/-- **`async_write`**: the bytes that go out are the first of those left, what is
pending is the rest of them, and one that fails has not written all. -/
theorem async_write_spec {cancelled : Bool} {rest out : Bytes} {c : Completion} {res : WriteResult}
    (h : async_write cancelled rest c = some (out, res)) :
    (∃ rest', res = .pending rest' ∧ out ++ rest' = rest ∧ rest' ≠ [] ∧ cancelled = false)
    ∨ (res = .done ∧ out = rest)
    ∨ (∃ ec, res = .error ec ∧ out <+: rest ∧ (rest ≠ [] → out.length < rest.length)
        ∧ (ec = .operation_aborted → cancelled = true)) := by
  cases c with
  | read_some chunk => simp [async_write] at h
  | wrote_some n =>
      simp only [async_write] at h
      split at h
      · rename_i hn
        simp only [Option.some.injEq, Prod.mk.injEq] at h
        obtain ⟨rfl, rfl⟩ := h
        -- all of it went out, or it is cut short, or it goes on
        by_cases hall : n = rest.length
        · refine Or.inr (Or.inl ⟨by rw [if_pos hall], ?_⟩)
          rw [hall, List.take_length]
        · rw [if_neg hall]
          have hlt : n < rest.length := by omega
          cases cancelled with
          | true =>
              refine Or.inr (Or.inr ⟨_, rfl, List.take_prefix _ _, fun _ => ?_, fun _ => rfl⟩)
              rw [List.length_take]
              omega
          | false =>
              refine Or.inl ⟨_, rfl, List.take_append_drop _ _, ?_, rfl⟩
              rw [← List.length_pos_iff, List.length_drop]
              omega
      · cases h
  | error ec =>
      simp only [async_write] at h
      split at h
      · cases h
      · rename_i hok
        simp only [Option.some.injEq, Prod.mk.injEq] at h
        obtain ⟨rfl, rfl⟩ := h
        refine Or.inr (Or.inr ⟨ec, rfl, List.nil_prefix, List.length_pos_of_ne_nil, ?_⟩)
        intro hec
        cases hc : cancelled with
        | true => rfl
        | false => exact absurd ⟨hec, hc⟩ hok

/-- **`async_read_some`**: bytes, or an error that is `operation_aborted` only when
cancelled. -/
theorem async_read_some_spec {size : ℕ} {cancelled : Bool} {c : Completion}
    {res : Except ErrorCode Bytes} (h : async_read_some size cancelled c = some res) :
    (∃ chunk, c = .read_some chunk ∧ res = .ok chunk ∧ 1 ≤ chunk.length ∧ chunk.length ≤ size)
    ∨ (∃ ec, c = .error ec ∧ res = .error ec ∧ (ec = .operation_aborted → cancelled = true)) := by
  cases c with
  | wrote_some n => simp [async_read_some] at h
  | read_some chunk =>
      simp only [async_read_some] at h
      split at h
      · rename_i hlen
        cases h
        exact Or.inl ⟨chunk, rfl, rfl, hlen.1, hlen.2⟩
      · cases h
  | error ec =>
      simp only [async_read_some] at h
      split at h
      · cases h
      · rename_i hok
        cases h
        refine Or.inr ⟨ec, rfl, rfl, ?_⟩
        intro hec
        cases hc : cancelled with
        | true => rfl
        | false => exact absurd ⟨hec, hc⟩ hok

/-! ## One relay -/

/-- Where a relay is suspended: reading, writing with bytes of its chunk left, or
returned. -/
inductive RelayPoint
  | reading
  | writing (rest : Bytes)
  | returned
  deriving DecidableEq, Repr

/-- The outcome of resuming a relay: where it is suspended next, what it did, and
the chunk it read, which goes to `capture` and sets `response_started`. -/
structure Resumed where
  point : RelayPoint
  actions : List Action
  chunk : Option Bytes
  deriving DecidableEq, Repr

/-- `relay(from, to, ..)`, resumed by a completion. A chunk read is captured and
flagged before it is written; with the relay cancelled it is not written at all,
since the `co_await` of the write ends at once. -/
def relay (src dst : Peer) (cancelled : Bool) : RelayPoint → Completion → Option Resumed
  | .reading, c =>
    match async_read_some 8192 cancelled c with
    | none => none
    | some (.error ec) => some ⟨.returned, [.read_failed src ec], none⟩
    -- late bytes are captured and flagged too: the coroutine runs on to its next `co_await`
    | some (.ok chunk) =>
      some ⟨if cancelled then .returned else .writing chunk, [.received src chunk], some chunk⟩
  | .writing rest, c =>
    match async_write cancelled rest c with
    | none => none
    | some (out, .pending rest') => some ⟨.writing rest', [.sent dst out], none⟩
    | some (out, .done) => some ⟨if cancelled then .returned else .reading, [.sent dst out], none⟩
    | some (out, .error ec) => some ⟨.returned, [.sent dst out, .write_failed dst ec], none⟩
  | .returned, _ => none

/-- What resuming a relay can do. -/
inductive RelayMove (src dst : Peer) (cancelled : Bool) :
    RelayPoint → Completion → RelayPoint → List Action → Option Bytes → Prop
  | read (chunk : Bytes) (hpos : 1 ≤ chunk.length) (hsize : chunk.length ≤ 8192)
      (hc : cancelled = false) :
      RelayMove src dst cancelled .reading (.read_some chunk) (.writing chunk)
        [.received src chunk] (some chunk)
  | read_late (chunk : Bytes) (hpos : 1 ≤ chunk.length) (hsize : chunk.length ≤ 8192)
      (hc : cancelled = true) :
      RelayMove src dst cancelled .reading (.read_some chunk) .returned
        [.received src chunk] (some chunk)
  | read_failed (ec : ErrorCode) (hec : ec = .operation_aborted → cancelled = true) :
      RelayMove src dst cancelled .reading (.error ec) .returned [.read_failed src ec] none
  | wrote (rest out rest' : Bytes) (c : Completion) (hsplit : out ++ rest' = rest)
      (hrest : rest' ≠ []) (hc : cancelled = false) :
      RelayMove src dst cancelled (.writing rest) c (.writing rest') [.sent dst out] none
  | wrote_all (rest : Bytes) (c : Completion) (hc : cancelled = false) :
      RelayMove src dst cancelled (.writing rest) c .reading [.sent dst rest] none
  | wrote_late (rest : Bytes) (c : Completion) (hc : cancelled = true) :
      RelayMove src dst cancelled (.writing rest) c .returned [.sent dst rest] none
  | write_failed (rest out : Bytes) (c : Completion) (ec : ErrorCode) (hout : out <+: rest)
      (hshort : rest ≠ [] → out.length < rest.length)
      (hec : ec = .operation_aborted → cancelled = true) :
      RelayMove src dst cancelled (.writing rest) c .returned
        [.sent dst out, .write_failed dst ec] none

theorem relay_move {src dst : Peer} {cancelled : Bool} {p : RelayPoint} {c : Completion}
    {res : Resumed} (h : relay src dst cancelled p c = some res) :
    RelayMove src dst cancelled p c res.point res.actions res.chunk := by
  cases p with
  | returned => simp [relay] at h
  | reading =>
      simp only [relay] at h
      cases hr : async_read_some 8192 cancelled c with
      | none => rw [hr] at h; cases h
      | some r =>
          rw [hr] at h
          rcases async_read_some_spec hr with ⟨chunk, rfl, rfl, hpos, hsize⟩ | ⟨ec, rfl, rfl, hec⟩
          · cases hc : cancelled <;> rw [hc] at h <;> cases h
            · exact .read chunk hpos hsize rfl
            · exact .read_late chunk hpos hsize rfl
          · cases h
            exact .read_failed ec hec
  | writing rest =>
      simp only [relay] at h
      cases hw : async_write cancelled rest c with
      | none => rw [hw] at h; cases h
      | some r =>
          obtain ⟨out, res'⟩ := r
          rw [hw] at h
          rcases async_write_spec hw with ⟨rest', rfl, hsplit, hrest, hc⟩ | ⟨rfl, rfl⟩
            | ⟨ec, rfl, hout, hshort, hec⟩
          · cases h
            exact .wrote rest out rest' c hsplit hrest hc
          · cases hc : cancelled <;> rw [hc] at h <;> cases h
            · exact .wrote_all out c rfl
            · exact .wrote_late out c rfl
          · cases h
            exact .write_failed rest out c ec hout hshort hec

/-! ## The race -/

/-- The locals of `relay(client, backend, ..) || relay(backend, client, ..)`. -/
structure Race where
  upstream : RelayPoint
  downstream : RelayPoint
  response_started : Bool
  deriving DecidableEq, Repr

/-- Both relays suspended in their first read. -/
def Race.start : Race := ⟨.reading, .reading, false⟩

/-- Both relays have returned: `operator||` completes. -/
def Race.over (r : Race) : Bool := r.upstream = .returned ∧ r.downstream = .returned

/-- Which of the two relays a completion is for. -/
inductive Leg
  | upstream
  | downstream
  deriving DecidableEq, Repr

/-- A completion for one of the relays. The upstream relay captures what it reads,
the downstream relay flags it; each is cancelled once the other has returned. -/
def Race.resume (a : Attempt) (r : Race) (buf : RequestBuffer) :
    Leg → Completion → Option (Race × RequestBuffer × List Action)
  -- `relay(client_socket, *backend_socket, nullptr, &req_buf)`
  | .upstream, c =>
    match relay .client (.backend a) (r.downstream = .returned) r.upstream c with
    | none => none
    | some res =>
      some ({ r with upstream := res.point }, buf.capture res.chunk, res.actions)
  -- `relay(*backend_socket, client_socket, &response_started, nullptr)`
  | .downstream, c =>
    match relay (.backend a) .client (r.upstream = .returned) r.downstream c with
    | none => none
    | some res =>
      some ({ r with
          downstream := res.point
          response_started := r.response_started || res.chunk.isSome },
        buf, res.actions)

end AegisProxy
