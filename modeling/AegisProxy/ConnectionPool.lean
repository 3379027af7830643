/-
`connection_pool.{hpp,cpp}`: per-backend free lists of connected sockets and the
count of sockets handed out.

A socket is a serial number: `connect` either fails or yields a socket that did not
exist before, and `next_socket` supplies it. The per-backend vectors are functions
of the index; their size is the number of backends, which the proxy checks once,
when it looks the breaker up. Of a backend's configuration the pool needs
`min_pool_size` only: host and port go to the resolver, and to a log line in
`Server.lean`.

`acquire` is split where it suspends. `acquire` is the part up to the suspension: it
hands out the back of the free list, or finds it empty and goes on to `connect`.
`acquire_connected` is the part after a successful `connect`. A `connect` that
throws leaves the pool as it was.
-/
import Mathlib.Logic.Function.Basic
import Mathlib.Data.Int.Basic
import Mathlib.Data.List.Basic

set_option autoImplicit false

namespace AegisProxy

/-- The fields of `ConnectionPool`. -/
structure ConnectionPool where
  min_pool_size : ℕ → ℕ
  free_sockets_ : ℕ → List ℕ
  active_counts_ : ℕ → ℤ
  next_socket : ℕ

namespace ConnectionPool

/-- The constructor: no sockets, nothing handed out. -/
def new (min_pool_size : ℕ → ℕ) : ConnectionPool where
  min_pool_size := min_pool_size
  free_sockets_ := fun _ => []
  active_counts_ := fun _ => 0
  next_socket := 0

/-- `ConnectionPool::warm_up`, after a successful `connect(i)`: the new socket goes to
the back of the free list. -/
def warm_up_connected (p : ConnectionPool) (i : ℕ) : ConnectionPool :=
  { p with
    free_sockets_ := Function.update p.free_sockets_ i (p.free_sockets_ i ++ [p.next_socket])
    next_socket := p.next_socket + 1 }

/-- `ConnectionPool::acquire` up to its suspension: the socket at the back of the
free list, or none, and then `connect` is awaited. -/
def acquire (p : ConnectionPool) (backend_index : ℕ) : Option ℕ × ConnectionPool :=
  match (p.free_sockets_ backend_index).getLast? with
  | some socket =>
    (some socket,
      { p with
        free_sockets_ := Function.update p.free_sockets_ backend_index
          (p.free_sockets_ backend_index).dropLast
        active_counts_ := Function.update p.active_counts_ backend_index
          (p.active_counts_ backend_index + 1) })
  | none => (none, p)

/-- A socket that is handed out at once was at the back of the free list. -/
theorem acquire_some {p p' : ConnectionPool} {i socket : ℕ} (h : p.acquire i = (some socket, p')) :
    p.free_sockets_ i = (p.free_sockets_ i).dropLast ++ [socket]
      ∧ p'.free_sockets_ = Function.update p.free_sockets_ i (p.free_sockets_ i).dropLast
      ∧ p'.active_counts_ = Function.update p.active_counts_ i (p.active_counts_ i + 1)
      ∧ p'.next_socket = p.next_socket := by
  unfold acquire at h
  split at h
  · rename_i last hlast
    simp only [Prod.mk.injEq, Option.some.injEq] at h
    obtain ⟨rfl, rfl⟩ := h
    exact ⟨(List.dropLast_append_getLast? last hlast).symm, rfl, rfl, rfl⟩
  · cases h

/-- On its way to `connect`, `acquire` leaves the pool as it was. -/
theorem acquire_none {p p' : ConnectionPool} {i : ℕ} (h : p.acquire i = (none, p')) : p' = p := by
  unfold acquire at h
  split at h
  · cases h
  · simp only [Prod.mk.injEq] at h
    exact h.2.symm

/-- `ConnectionPool::acquire` after a successful `connect`. -/
def acquire_connected (p : ConnectionPool) (backend_index : ℕ) : ℕ × ConnectionPool :=
  (p.next_socket,
    { p with
      active_counts_ := Function.update p.active_counts_ backend_index
        (p.active_counts_ backend_index + 1)
      next_socket := p.next_socket + 1 })

/-- `ConnectionPool::release`. The socket is kept only if the caller calls it healthy
and it is open. -/
def release (p : ConnectionPool) (backend_index socket : ℕ) (healthy is_open : Bool) :
    ConnectionPool :=
  let p := { p with
    active_counts_ := Function.update p.active_counts_ backend_index
      (p.active_counts_ backend_index - 1) }
  if healthy = false ∨ is_open = false then p
  else
    { p with
      free_sockets_ := Function.update p.free_sockets_ backend_index
        (p.free_sockets_ backend_index ++ [socket]) }

/-- Whatever becomes of the socket, it is no longer counted. -/
theorem release_counts (p : ConnectionPool) (i socket : ℕ) (healthy is_open : Bool) :
    (p.release i socket healthy is_open).active_counts_
        = Function.update p.active_counts_ i (p.active_counts_ i - 1)
      ∧ (p.release i socket healthy is_open).next_socket = p.next_socket := by
  unfold release
  split <;> exact ⟨rfl, rfl⟩

/-- A socket that is not kept leaves the free lists as they are. -/
theorem release_dropped (p : ConnectionPool) (i socket : ℕ) {healthy is_open : Bool}
    (h : healthy = false ∨ is_open = false) :
    (p.release i socket healthy is_open).free_sockets_ = p.free_sockets_ := by
  unfold release
  rw [if_pos h]

/-- `ConnectionPool::active_count`. -/
def active_count (p : ConnectionPool) (backend_index : ℕ) : ℤ := p.active_counts_ backend_index

/-- `ConnectionPool::idle_count`. -/
def idle_count (p : ConnectionPool) (backend_index : ℕ) : ℤ :=
  ((p.free_sockets_ backend_index).length : ℤ)

end ConnectionPool

end AegisProxy
