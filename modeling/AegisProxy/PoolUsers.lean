/-
A connection pool and those who use it.

`ConnectionPool` is passive: the coroutines that call it keep the sockets it hands out and
are suspended in its `connect`. `PoolUsers` is the pool together with its callers, any
number of them, each with no socket, waiting in a `connect`, or holding a socket; a step is
one call, up to its suspension or on from it, or one connect of `warm_up`. The contract is
in `step`: a holder gives back the socket it has, once, under the index it has it for. What
it says of it, `healthy` or not, is open, and so is whether the socket is still open then.

The trace notes which socket was connected for which backend, which was handed to whom, and
which was closed. A socket is live from the first to the last. `Conserved` says that the
live sockets of a backend are what is in its free list and what its holders have, each of
them once.
-/
import AegisProxy.ConnectionPool
import AegisProxy.Lib.Runs
import Mathlib.Data.List.Perm.Basic
import Mathlib.Data.List.Nodup
import Mathlib.Data.Finset.Card

set_option autoImplicit false

namespace AegisProxy

open Runs

/-- A caller of the pool: without a socket, suspended in `connect`, or with a socket. -/
inductive Holder
  | idle
  | connecting (backend_index : ℕ)
  | holding (backend_index socket : ℕ)
  deriving DecidableEq, Repr

/-- The socket of backend `i` that a caller has. -/
def Holder.socketOf (i : ℕ) : Holder → Option ℕ
  | .holding backend_index socket => if backend_index = i then some socket else none
  | _ => none

/-- A pool and its callers. -/
structure PoolUsers where
  pool : ConnectionPool
  holders : List Holder

namespace PoolUsers

/-- One connect of `warm_up`, a new caller, or what a caller does next. -/
inductive Input
  | warm_up (backend_index : ℕ) (connected : Bool)
  | join
  | acquire (h backend_index : ℕ)
  | connected (h : ℕ)
  | connect_failed (h : ℕ)
  | release (h : ℕ) (healthy is_open : Bool)
  deriving DecidableEq, Repr

/-- What becomes of a socket. -/
inductive Note
  | connected (backend_index socket : ℕ)
  | handed (h backend_index socket : ℕ)
  | closed (socket : ℕ)
  deriving DecidableEq, Repr

/-- A new pool, and nobody yet. -/
def new (min_pool_size : ℕ → ℕ) : PoolUsers where
  pool := .new min_pool_size
  holders := []

/-- Caller `h` becomes `next`. -/
def put (u : PoolUsers) (h : ℕ) (next : Holder) (pool : ConnectionPool) : PoolUsers where
  pool := pool
  holders := u.holders.set h next

/-- One step. A call that does not fit what its caller has is refused. -/
def step (u : PoolUsers) : Input → Option (PoolUsers × List Note)
  | .warm_up i connected =>
    if connected then
      some ({ u with pool := u.pool.warm_up_connected i }, [.connected i u.pool.next_socket])
    else some (u, [])
  | .join => some ({ u with holders := u.holders ++ [.idle] }, [])
  | .acquire h i =>
    match u.holders[h]? with
    | some .idle =>
      match u.pool.acquire i with
      | (some socket, pool) => some (u.put h (.holding i socket) pool, [.handed h i socket])
      | (none, pool) => some (u.put h (.connecting i) pool, [])
    | _ => none
  | .connected h =>
    match u.holders[h]? with
    | some (.connecting i) =>
      let got := u.pool.acquire_connected i
      some (u.put h (.holding i got.1) got.2, [.connected i got.1, .handed h i got.1])
    | _ => none
  | .connect_failed h =>
    match u.holders[h]? with
    | some (.connecting _) => some (u.put h .idle u.pool, [])
    | _ => none
  | .release h healthy is_open =>
    match u.holders[h]? with
    | some (.holding i socket) =>
      some (u.put h .idle (u.pool.release i socket healthy is_open),
        if healthy = false ∨ is_open = false then [.closed socket] else [])
    | _ => none

/-- What a step can do. -/
inductive Change (u : PoolUsers) : Input → PoolUsers → List Note → Prop
  | warmed (i : ℕ) :
      Change u (.warm_up i true) { u with pool := u.pool.warm_up_connected i }
        [.connected i u.pool.next_socket]
  | not_warmed (i : ℕ) : Change u (.warm_up i false) u []
  | joined : Change u .join { u with holders := u.holders ++ [.idle] } []
  | pooled (h i socket : ℕ) (pool : ConnectionPool) (hh : u.holders[h]? = some .idle)
      (hgot : u.pool.acquire i = (some socket, pool)) :
      Change u (.acquire h i) (u.put h (.holding i socket) pool) [.handed h i socket]
  | dialing (h i : ℕ) (hh : u.holders[h]? = some .idle) :
      Change u (.acquire h i) (u.put h (.connecting i) u.pool) []
  | connected (h i : ℕ) (hh : u.holders[h]? = some (.connecting i)) :
      Change u (.connected h)
        (u.put h (.holding i u.pool.next_socket) (u.pool.acquire_connected i).2)
        [.connected i u.pool.next_socket, .handed h i u.pool.next_socket]
  | connect_failed (h i : ℕ) (hh : u.holders[h]? = some (.connecting i)) :
      Change u (.connect_failed h) (u.put h .idle u.pool) []
  | kept (h i socket : ℕ) (hh : u.holders[h]? = some (.holding i socket)) :
      Change u (.release h true true) (u.put h .idle (u.pool.release i socket true true)) []
  | dropped (h i socket : ℕ) (healthy is_open : Bool)
      (hh : u.holders[h]? = some (.holding i socket))
      (hdrop : healthy = false ∨ is_open = false) :
      Change u (.release h healthy is_open)
        (u.put h .idle (u.pool.release i socket healthy is_open)) [.closed socket]

theorem step_change {u u' : PoolUsers} {inp : Input} {out : List Note}
    (hs : u.step inp = some (u', out)) : Change u inp u' out := by
  cases inp with
  | warm_up i connected =>
      cases connected with
      | true =>
          cases hs
          exact .warmed i
      | false =>
          cases hs
          exact .not_warmed i
  | join =>
      cases hs
      exact .joined
  | acquire h i =>
      simp only [step] at hs
      split at hs
      · rename_i hh
        split at hs
        · rename_i socket pool hgot
          cases hs
          exact .pooled h i socket pool hh hgot
        · rename_i pool hgot
          cases hs
          rw [ConnectionPool.acquire_none hgot]
          exact .dialing h i hh
      · cases hs
  | connected h =>
      simp only [step] at hs
      split at hs
      · rename_i i hh
        cases hs
        exact .connected h i hh
      · cases hs
  | connect_failed h =>
      simp only [step] at hs
      split at hs
      · rename_i i hh
        cases hs
        exact .connect_failed h i hh
      · cases hs
  | release h healthy is_open =>
      simp only [step] at hs
      split at hs
      · rename_i i socket hh
        by_cases hdrop : healthy = false ∨ is_open = false
        · rw [if_pos hdrop] at hs
          cases hs
          exact .dropped h i socket healthy is_open hh hdrop
        · rw [if_neg hdrop] at hs
          cases hs
          simp only [not_or, Bool.not_eq_false] at hdrop
          obtain ⟨rfl, rfl⟩ := hdrop
          exact .kept h i socket hh
      · cases hs

/-! ## The stock of a backend -/

/-- The sockets of backend `i` that callers have. -/
def held (u : PoolUsers) (i : ℕ) : List ℕ := u.holders.filterMap (Holder.socketOf i)

/-- The sockets of backend `i`: the free ones and those that callers have. -/
def stock (u : PoolUsers) (i : ℕ) : List ℕ := u.pool.free_sockets_ i ++ u.held i

/-- A socket is live once it is connected and until it is closed. -/
def Live (notes : List Note) (i socket : ℕ) : Prop :=
  .connected i socket ∈ notes ∧ .closed socket ∉ notes

/-- The books are in order. -/
structure Conserved (u : PoolUsers) (notes : List Note) : Prop where
  nodup : ∀ i, (u.stock i).Nodup
  mem_stock : ∀ i socket, socket ∈ u.stock i ↔ Live notes i socket
  origin : ∀ i j socket, .connected i socket ∈ notes → .connected j socket ∈ notes → i = j
  fresh : ∀ i socket, .connected i socket ∈ notes → socket < u.pool.next_socket
  closed : ∀ socket, .closed socket ∈ notes → ∃ i, .connected i socket ∈ notes
  handed : ∀ h i socket, .handed h i socket ∈ notes → .connected i socket ∈ notes
  active : ∀ i, u.pool.active_count i = (u.held i).length

/-- Replacing an entry of a list exchanges what it contributes to a `filterMap`. -/
theorem filterMap_set_perm {α β : Type*} (f : α → Option β) {l : List α} {k : ℕ} {a : α} (b : α)
    (h : l[k]? = some a) :
    ((f b).toList ++ l.filterMap f).Perm ((f a).toList ++ (l.set k b).filterMap f) := by
  induction l generalizing k with
  | nil => simp at h
  | cons x l ih =>
      cases k with
      | zero =>
          obtain rfl : x = a := by simpa using h
          rw [List.set_cons_zero, List.filterMap_cons, List.filterMap_cons]
          cases f x with
          | none => cases f b <;> simp
          | some y =>
              cases f b with
              | none => simp
              | some z => exact List.Perm.swap _ _ _
      | succ k =>
          have hrest := ih (k := k) (by simpa using h)
          rw [List.set_cons_succ, List.filterMap_cons, List.filterMap_cons]
          cases f x with
          | none => exact hrest
          | some y =>
              refine (List.perm_middle).trans ?_
              refine List.Perm.trans ?_ (List.perm_middle).symm
              exact hrest.cons y

theorem held_put {u : PoolUsers} {h : ℕ} {a : Holder} (next : Holder) (pool : ConnectionPool)
    (hh : u.holders[h]? = some a) (i : ℕ) :
    ((next.socketOf i).toList ++ u.held i).Perm
      ((a.socketOf i).toList ++ (u.put h next pool).held i) :=
  filterMap_set_perm (Holder.socketOf i) next hh

/-- A caller that had no socket and has none has taken nothing. -/
theorem held_put_none {u : PoolUsers} {h : ℕ} {a next : Holder} (pool : ConnectionPool)
    (hh : u.holders[h]? = some a) (ha : ∀ i, a.socketOf i = none)
    (hnext : ∀ i, next.socketOf i = none) (i : ℕ) :
    ((u.put h next pool).held i).Perm (u.held i) := by
  have hperm := held_put next pool hh i
  rw [ha i, hnext i] at hperm
  exact hperm.symm

/-- A caller that had no socket and has one now. -/
theorem held_put_taken {u : PoolUsers} {h : ℕ} {a : Holder} {j w : ℕ} (pool : ConnectionPool)
    (hh : u.holders[h]? = some a) (ha : ∀ i, a.socketOf i = none) (i : ℕ) :
    ((u.put h (.holding j w) pool).held i).Perm ((if j = i then [w] else []) ++ u.held i) := by
  have hperm := held_put (.holding j w) pool hh i
  rw [ha i] at hperm
  by_cases hi : j = i
  · simpa [Holder.socketOf, hi] using hperm.symm
  · simpa [Holder.socketOf, hi] using hperm.symm

/-- A caller that had a socket and has none now. -/
theorem held_put_given {u : PoolUsers} {h : ℕ} {j socket : ℕ} (pool : ConnectionPool)
    (hh : u.holders[h]? = some (.holding j socket)) (i : ℕ) :
    (u.held i).Perm ((if j = i then [socket] else []) ++ (u.put h .idle pool).held i) := by
  have hperm := held_put .idle pool hh i
  by_cases hi : j = i
  · simpa [Holder.socketOf, hi] using hperm
  · simpa [Holder.socketOf, hi] using hperm

variable {u u' : PoolUsers} {notes : List Note}

theorem conserved_new (min_pool_size : ℕ → ℕ) : Conserved (new min_pool_size) [] where
  nodup := by intro i; exact List.nodup_nil
  mem_stock := by
    intro i socket
    simp [stock, held, new, ConnectionPool.new, Live]
  origin := by simp
  fresh := by simp
  closed := by simp
  handed := by simp
  active := by intro i; rfl

/-- The stock is moved about. -/
theorem Conserved.moved (hc : Conserved u notes) (hstock : ∀ i, (u'.stock i).Perm (u.stock i))
    (hnext : u'.pool.next_socket = u.pool.next_socket)
    (hactive : ∀ i, u'.pool.active_count i = (u'.held i).length) {out : List Note}
    (hout : ∀ x ∈ out, ∃ h i socket, x = .handed h i socket ∧ .connected i socket ∈ notes) :
    Conserved u' (notes ++ out) := by
  have hconn : ∀ i socket, Note.connected i socket ∈ notes ++ out ↔ .connected i socket ∈ notes := by
    intro i socket
    rw [List.mem_append, or_iff_left]
    intro hmem
    obtain ⟨h, j, s, hx, -⟩ := hout _ hmem
    cases hx
  have hclosed : ∀ socket, Note.closed socket ∈ notes ++ out ↔ .closed socket ∈ notes := by
    intro socket
    rw [List.mem_append, or_iff_left]
    intro hmem
    obtain ⟨h, j, s, hx, -⟩ := hout _ hmem
    cases hx
  refine ⟨?_, ?_, ?_, ?_, ?_, ?_, hactive⟩
  · intro i
    exact (hstock i).nodup_iff.mpr (hc.nodup i)
  · intro i socket
    rw [(hstock i).mem_iff, hc.mem_stock, Live, Live, hconn, hclosed]
  · intro i j socket hi hj
    rw [hconn] at hi hj
    exact hc.origin i j socket hi hj
  · intro i socket hi
    rw [hconn] at hi
    rw [hnext]
    exact hc.fresh i socket hi
  · intro socket hcl
    rw [hclosed] at hcl
    obtain ⟨i, hi⟩ := hc.closed socket hcl
    exact ⟨i, (hconn i socket).mpr hi⟩
  · intro h i socket hmem
    rw [hconn]
    rcases List.mem_append.mp hmem with hmem | hmem
    · exact hc.handed h i socket hmem
    · obtain ⟨h', j, s, hx, hj⟩ := hout _ hmem
      cases hx
      exact hj

/-- The socket to come has never been seen. -/
theorem Conserved.unseen (hc : Conserved u notes) :
    (∀ i, .connected i u.pool.next_socket ∉ notes) ∧ .closed u.pool.next_socket ∉ notes := by
  have hnew : ∀ i, .connected i u.pool.next_socket ∉ notes := by
    intro i hmem
    exact absurd (hc.fresh i _ hmem) (lt_irrefl _)
  refine ⟨hnew, ?_⟩
  intro hcl
  obtain ⟨i, hi⟩ := hc.closed _ hcl
  exact hnew i hi

/-- A socket is connected for backend `j`. -/
theorem Conserved.connects (hc : Conserved u notes) {j : ℕ} {more : List Note}
    (hstock : ∀ i, (u'.stock i).Perm
      ((if j = i then [u.pool.next_socket] else []) ++ u.stock i))
    (hnext : u'.pool.next_socket = u.pool.next_socket + 1)
    (hactive : ∀ i, u'.pool.active_count i = (u'.held i).length)
    (hmore : ∀ x ∈ more, ∃ h, x = .handed h j u.pool.next_socket) :
    Conserved u' (notes ++ .connected j u.pool.next_socket :: more) := by
  obtain ⟨hunseen, hunclosed⟩ := hc.unseen
  have hconn : ∀ i socket,
      Note.connected i socket ∈ notes ++ .connected j u.pool.next_socket :: more
        ↔ .connected i socket ∈ notes ∨ i = j ∧ socket = u.pool.next_socket := by
    intro i socket
    have hnot : Note.connected i socket ∉ more := by
      intro hmem
      obtain ⟨h, hx⟩ := hmore _ hmem
      cases hx
    rw [List.mem_append, List.mem_cons, Note.connected.injEq, or_iff_left hnot]
  have hclosed : ∀ socket,
      Note.closed socket ∈ notes ++ .connected j u.pool.next_socket :: more
        ↔ .closed socket ∈ notes := by
    intro socket
    rw [List.mem_append, or_iff_left]
    intro hmem
    rcases List.mem_cons.mp hmem with hx | hmem
    · cases hx
    · obtain ⟨h, hx⟩ := hmore _ hmem
      cases hx
  have hmem : ∀ i socket, socket ∈ u'.stock i
      ↔ socket ∈ u.stock i ∨ i = j ∧ socket = u.pool.next_socket := by
    intro i socket
    rw [(hstock i).mem_iff, List.mem_append, or_comm]
    by_cases hi : j = i
    · simp [hi]
    · simp [hi, Ne.symm hi]
  refine ⟨?_, ?_, ?_, ?_, ?_, ?_, hactive⟩
  · intro i
    rw [(hstock i).nodup_iff]
    by_cases hi : j = i
    · rw [if_pos hi, List.singleton_append, List.nodup_cons]
      refine ⟨?_, hc.nodup i⟩
      rw [hc.mem_stock]
      exact fun hlive => hunseen i hlive.1
    · rw [if_neg hi]
      exact hc.nodup i
  · intro i socket
    rw [hmem, hc.mem_stock, Live, Live, hconn, hclosed]
    constructor
    · rintro (⟨hi, hcl⟩ | ⟨rfl, rfl⟩)
      · exact ⟨Or.inl hi, hcl⟩
      · exact ⟨Or.inr ⟨rfl, rfl⟩, hunclosed⟩
    · rintro ⟨hi | hnew, hcl⟩
      · exact Or.inl ⟨hi, hcl⟩
      · exact Or.inr hnew
  · intro i i' socket hi hi'
    rw [hconn] at hi hi'
    rcases hi with hi | ⟨rfl, rfl⟩
    · rcases hi' with hi' | ⟨-, rfl⟩
      · exact hc.origin i i' socket hi hi'
      · exact absurd hi (hunseen i)
    · rcases hi' with hi' | ⟨rfl, -⟩
      · exact absurd hi' (hunseen i')
      · rfl
  · intro i socket hi
    rw [hconn] at hi
    rw [hnext]
    rcases hi with hi | ⟨-, rfl⟩
    · exact Nat.lt_succ_of_lt (hc.fresh i socket hi)
    · exact Nat.lt_succ_self _
  · intro socket hcl
    rw [hclosed] at hcl
    obtain ⟨i, hi⟩ := hc.closed socket hcl
    exact ⟨i, (hconn i socket).mpr (Or.inl hi)⟩
  · intro h i socket hin
    rw [hconn]
    rcases List.mem_append.mp hin with hin | hin
    · exact Or.inl (hc.handed h i socket hin)
    · rcases List.mem_cons.mp hin with hx | hin
      · cases hx
      · obtain ⟨h', hx⟩ := hmore _ hin
        cases hx
        exact Or.inr ⟨rfl, rfl⟩

/-- A socket of backend `j` is closed. -/
theorem Conserved.closes (hc : Conserved u notes) {j gone : ℕ}
    (hstock : ∀ i, (u.stock i).Perm ((if j = i then [gone] else []) ++ u'.stock i))
    (hnext : u'.pool.next_socket = u.pool.next_socket)
    (hactive : ∀ i, u'.pool.active_count i = (u'.held i).length) :
    Conserved u' (notes ++ [.closed gone]) := by
  have hlive : Live notes j gone := by
    rw [← hc.mem_stock, (hstock j).mem_iff, if_pos rfl]
    exact List.mem_cons_self ..
  have hconn : ∀ i socket, Note.connected i socket ∈ notes ++ [.closed gone]
      ↔ .connected i socket ∈ notes := by simp
  have hclosed : ∀ socket, Note.closed socket ∈ notes ++ [.closed gone]
      ↔ .closed socket ∈ notes ∨ socket = gone := by simp
  have hnodup : ∀ i, ((if j = i then [gone] else []) ++ u'.stock i).Nodup := fun i =>
    (hstock i).nodup_iff.mp (hc.nodup i)
  have hmem : ∀ i socket, socket ∈ u'.stock i ↔ socket ∈ u.stock i ∧ socket ≠ gone := by
    intro i socket
    rw [(hstock i).mem_iff]
    by_cases hi : j = i
    · have hnot := hnodup i
      rw [if_pos hi, List.singleton_append, List.nodup_cons] at hnot
      rw [if_pos hi, List.singleton_append, List.mem_cons]
      constructor
      · intro hin
        refine ⟨Or.inr hin, ?_⟩
        rintro rfl
        exact hnot.1 hin
      · rintro ⟨rfl | hin, hne⟩
        · exact absurd rfl hne
        · exact hin
    · rw [if_neg hi, List.nil_append]
      refine ⟨fun hin => ⟨hin, ?_⟩, fun hin => hin.1⟩
      -- the socket closed is another backend's
      rintro rfl
      have hstill : socket ∈ u.stock i := by
        rw [(hstock i).mem_iff, if_neg hi]
        exact hin
      exact hi (hc.origin j i socket hlive.1 ((hc.mem_stock i socket).mp hstill).1)
  refine ⟨?_, ?_, ?_, ?_, ?_, ?_, hactive⟩
  · intro i
    exact (hnodup i).of_append_right
  · intro i socket
    rw [hmem, hc.mem_stock, Live, Live, hconn, hclosed, not_or, and_assoc]
  · intro i i' socket hi hi'
    rw [hconn] at hi hi'
    exact hc.origin i i' socket hi hi'
  · intro i socket hi
    rw [hconn] at hi
    rw [hnext]
    exact hc.fresh i socket hi
  · intro socket hcl
    rw [hclosed] at hcl
    rcases hcl with hcl | rfl
    · obtain ⟨i, hi⟩ := hc.closed socket hcl
      exact ⟨i, (hconn i socket).mpr hi⟩
    · exact ⟨j, (hconn j socket).mpr hlive.1⟩
  · intro h i socket hin
    rw [hconn]
    rw [List.mem_append, List.mem_singleton, or_iff_left (by simp)] at hin
    exact hc.handed h i socket hin

/-- What `active_count` is after one count has moved by `d`. -/
theorem active_count_update (p : ConnectionPool) (j : ℕ) (d : ℤ) (i : ℕ) :
    Function.update p.active_counts_ j (p.active_counts_ j + d) i
      = p.active_count i + if j = i then d else 0 := by
  unfold ConnectionPool.active_count
  by_cases hi : j = i
  · subst hi
    rw [Function.update_self, if_pos rfl]
  · rw [Function.update_of_ne (Ne.symm hi), if_neg hi, Int.add_zero]

theorem length_if_singleton (j i socket : ℕ) :
    ((if j = i then [socket] else []).length : ℤ) = if j = i then 1 else 0 := by
  by_cases hi : j = i
  · rw [if_pos hi, if_pos hi]
    rfl
  · rw [if_neg hi, if_neg hi]
    rfl

/-- The count of a backend after one of its sockets was taken. -/
theorem Conserved.active_taken (hc : Conserved u notes) {j w : ℕ}
    (hheld : ∀ i, (u'.held i).Perm ((if j = i then [w] else []) ++ u.held i))
    (hcounts : u'.pool.active_counts_
      = Function.update u.pool.active_counts_ j (u.pool.active_counts_ j + 1)) (i : ℕ) :
    u'.pool.active_count i = (u'.held i).length := by
  rw [(hheld i).length_eq, List.length_append, Int.natCast_add, length_if_singleton,
    ← hc.active i, Int.add_comm, ← active_count_update, ← hcounts]
  rfl

/-- The count of a backend after one of its sockets was given back. -/
theorem Conserved.active_given (hc : Conserved u notes) {j w : ℕ}
    (hheld : ∀ i, (u.held i).Perm ((if j = i then [w] else []) ++ u'.held i))
    (hcounts : u'.pool.active_counts_
      = Function.update u.pool.active_counts_ j (u.pool.active_counts_ j - 1)) (i : ℕ) :
    u'.pool.active_count i = (u'.held i).length := by
  have hbefore := hc.active i
  rw [(hheld i).length_eq, List.length_append, Int.natCast_add, length_if_singleton] at hbefore
  have hafter := active_count_update u.pool j (-1) i
  rw [← Int.sub_eq_add_neg, ← hcounts, hbefore] at hafter
  change u'.pool.active_count i = _ at hafter
  rw [hafter]
  split <;> omega

/-- **Every step keeps the books in order.** -/
theorem Change.conserved {inp : Input} {out : List Note} (hch : Change u inp u' out)
    (hc : Conserved u notes) : Conserved u' (notes ++ out) := by
  have hidle : ∀ i, Holder.idle.socketOf i = none := fun _ => rfl
  have hwait : ∀ j i, (Holder.connecting j).socketOf i = none := fun _ _ => rfl
  cases hch with
  | warmed i =>
      refine hc.connects (j := i) ?_ ?_ ?_ ?_
      · intro k
        change (Function.update u.pool.free_sockets_ i
          (u.pool.free_sockets_ i ++ [u.pool.next_socket]) k ++ u.held k).Perm _
        by_cases hk : i = k
        · subst hk
          rw [Function.update_self, if_pos rfl, List.append_assoc]
          exact List.perm_middle
        · rw [Function.update_of_ne (Ne.symm hk), if_neg hk]
          exact List.Perm.refl _
      · rfl
      · exact hc.active
      · intro x hx
        cases hx
  | not_warmed i =>
      rw [List.append_nil]
      exact hc
  | joined =>
      have hheld : ∀ i, held { u with holders := u.holders ++ [.idle] } i = u.held i := by
        intro i
        simp [held, Holder.socketOf]
      refine hc.moved ?_ ?_ ?_ ?_
      · intro i
        rw [stock, hheld]
        exact List.Perm.refl _
      · rfl
      · intro i
        rw [hheld]
        exact hc.active i
      · intro x hx
        cases hx
  | pooled h i socket pool hh hgot =>
      obtain ⟨hlast, hfree, hcount, hnext⟩ := ConnectionPool.acquire_some hgot
      have hheld := held_put_taken (j := i) (w := socket) pool hh hidle
      refine hc.moved ?_ ?_ ?_ ?_
      · intro k
        refine ((hheld k).append_left _).trans ?_
        change (pool.free_sockets_ k ++ ((if i = k then [socket] else []) ++ u.held k)).Perm _
        rw [hfree]
        by_cases hk : i = k
        · subst hk
          rw [Function.update_self, if_pos rfl, stock, ← List.append_assoc, ← hlast]
        · rw [Function.update_of_ne (Ne.symm hk), if_neg hk]
          exact List.Perm.refl _
      · exact hnext
      · exact hc.active_taken hheld hcount
      · intro x hx
        rw [List.mem_singleton] at hx
        refine ⟨h, i, socket, hx, ?_⟩
        have hin : socket ∈ u.stock i := by
          rw [stock, hlast]
          simp
        exact ((hc.mem_stock i socket).mp hin).1
  | dialing h i hh =>
      have hheld := held_put_none u.pool hh hidle (hwait i)
      refine hc.moved ?_ ?_ ?_ ?_
      · intro k
        exact (hheld k).append_left _
      · rfl
      · intro k
        rw [(hheld k).length_eq]
        exact hc.active k
      · intro x hx
        cases hx
  | connected h i hh =>
      have hheld := held_put_taken (j := i) (w := u.pool.next_socket)
        (u.pool.acquire_connected i).2 hh (hwait i)
      refine hc.connects (j := i) ?_ ?_ ?_ ?_
      · intro k
        refine ((hheld k).append_left _).trans ?_
        change (u.pool.free_sockets_ k
          ++ ((if i = k then [u.pool.next_socket] else []) ++ u.held k)).Perm _
        rw [stock, ← List.append_assoc, ← List.append_assoc]
        exact List.perm_append_comm.append_right _
      · rfl
      · exact hc.active_taken hheld rfl
      · intro x hx
        exact ⟨h, List.mem_singleton.mp hx⟩
  | connect_failed h i hh =>
      have hheld := held_put_none u.pool hh (hwait i) hidle
      refine hc.moved ?_ ?_ ?_ ?_
      · intro k
        exact (hheld k).append_left _
      · rfl
      · intro k
        rw [(hheld k).length_eq]
        exact hc.active k
      · intro x hx
        cases hx
  | kept h i socket hh =>
      have hheld := held_put_given (u.pool.release i socket true true) hh
      refine hc.moved ?_ ?_ ?_ ?_
      · intro k
        change (Function.update u.pool.free_sockets_ i (u.pool.free_sockets_ i ++ [socket]) k
          ++ _).Perm _
        by_cases hk : i = k
        · subst hk
          have hall := hheld i
          rw [if_pos rfl] at hall
          rw [Function.update_self, List.append_assoc]
          exact (hall.append_left _).symm
        · have hall := hheld k
          rw [if_neg hk] at hall
          rw [Function.update_of_ne (Ne.symm hk)]
          exact (hall.append_left _).symm
      · rfl
      · exact hc.active_given hheld (u.pool.release_counts i socket true true).1
      · intro x hx
        cases hx
  | dropped h i socket healthy is_open hh hdrop =>
      have hheld := held_put_given (u.pool.release i socket healthy is_open) hh
      refine hc.closes (j := i) ?_ ?_ ?_
      · intro k
        have hfree : (u.put h .idle (u.pool.release i socket healthy is_open)).pool.free_sockets_ k
            = u.pool.free_sockets_ k := by
          rw [put, u.pool.release_dropped i socket hdrop]
        refine ((hheld k).append_left _).trans ?_
        rw [stock, hfree, ← List.append_assoc, ← List.append_assoc]
        exact List.perm_append_comm.append_right _
      · exact (u.pool.release_counts i socket healthy is_open).2
      · exact hc.active_given hheld (u.pool.release_counts i socket healthy is_open).1

theorem conserved_run {min_pool_size : ℕ → ℕ} {ins : List Input}
    (h : exec step (new min_pool_size) ins = some (u, notes)) : Conserved u notes :=
  exec_invariant (I := Conserved) (fun _ _ _ _ _ hc hs => (step_change hs).conserved hc)
    (conserved_new min_pool_size) h

/-! ## Where a socket is -/

/-- A place for a socket: a position in a free list, or a caller. -/
inductive Place
  | free (backend_index position : ℕ)
  | held (h : ℕ)
  deriving DecidableEq, Repr

/-- The socket is at the place. -/
def At (u : PoolUsers) (socket : ℕ) : Place → Prop
  | .free i k => (u.pool.free_sockets_ i)[k]? = some socket
  | .held h => ∃ i, u.holders[h]? = some (.holding i socket)

theorem mem_held {i socket : ℕ} :
    socket ∈ u.held i ↔ ∃ h : ℕ, u.holders[h]? = some (.holding i socket) := by
  unfold held
  rw [List.mem_filterMap]
  constructor
  · rintro ⟨x, hx, hsock⟩
    obtain ⟨h, hh⟩ := List.mem_iff_getElem?.mp hx
    cases x with
    | holding j s =>
        simp only [Holder.socketOf] at hsock
        split at hsock
        · rename_i hj
          cases hsock
          exact ⟨h, hj ▸ hh⟩
        · cases hsock
    | _ => cases hsock
  · rintro ⟨h, hh⟩
    exact ⟨_, List.mem_of_getElem? hh, by simp [Holder.socketOf]⟩

/-- A socket no two callers of a backend have is at one caller. -/
theorem holder_unique {i socket h h' : ℕ} (hnodup : (u.held i).Nodup)
    (hh : u.holders[h]? = some (.holding i socket))
    (hh' : u.holders[h']? = some (.holding i socket)) : h = h' := by
  unfold held at hnodup
  rw [List.nodup_iff_pairwise_ne, List.pairwise_filterMap, List.pairwise_iff_getElem] at hnodup
  obtain ⟨hlt, hget⟩ := List.getElem?_eq_some_iff.mp hh
  obtain ⟨hlt', hget'⟩ := List.getElem?_eq_some_iff.mp hh'
  have hsock : Holder.socketOf i (.holding i socket) = some socket := by simp [Holder.socketOf]
  rcases Nat.lt_trichotomy h h' with hless | heq | hless
  · exact absurd rfl (hnodup h h' hlt hlt' hless socket (hget ▸ hsock) socket (hget' ▸ hsock))
  · exact heq
  · exact absurd rfl (hnodup h' h hlt' hlt hless socket (hget' ▸ hsock) socket (hget ▸ hsock))

/-- **A live socket is in one place.** -/
theorem Conserved.place (hc : Conserved u notes) {i socket : ℕ} (hlive : Live notes i socket) :
    ∃! place, u.At socket place := by
  have hmem := (hc.mem_stock i socket).mpr hlive
  have hnodup := hc.nodup i
  -- whatever the place, it is the socket's own backend's
  have hown : ∀ j, socket ∈ u.stock j → j = i := fun j hj =>
    hc.origin j i socket ((hc.mem_stock j socket).mp hj).1 hlive.1
  rw [stock, List.nodup_append'] at hnodup
  obtain ⟨hfree, hheld, hdisj⟩ := hnodup
  rw [stock, List.mem_append] at hmem
  have hplaces : ∀ place, u.At socket place →
      (∃ k, place = .free i k ∧ (u.pool.free_sockets_ i)[k]? = some socket)
      ∨ ∃ h, place = .held h ∧ u.holders[h]? = some (.holding i socket) := by
    intro place hat
    cases place with
    | free j k =>
        have hj : socket ∈ u.stock j := List.mem_append_left _ (List.mem_of_getElem? hat)
        obtain rfl := hown j hj
        exact Or.inl ⟨k, rfl, hat⟩
    | held h =>
        obtain ⟨j, hh⟩ := hat
        have hj : socket ∈ u.stock j := List.mem_append_right _ (mem_held.mpr ⟨h, hh⟩)
        obtain rfl := hown j hj
        exact Or.inr ⟨h, rfl, hh⟩
  rcases hmem with hmem | hmem
  · obtain ⟨k, hk⟩ := List.mem_iff_getElem?.mp hmem
    refine ⟨.free i k, hk, ?_⟩
    intro place hat
    rcases hplaces place hat with ⟨k', rfl, hk'⟩ | ⟨h, rfl, hh⟩
    · have hlt := (List.getElem?_eq_some_iff.mp hk').1
      rw [(List.getElem?_inj hlt hfree).mp (hk'.trans hk.symm)]
    · exact absurd (mem_held.mpr ⟨h, hh⟩) (hdisj hmem)
  · obtain ⟨h, hh⟩ := mem_held.mp hmem
    refine ⟨.held h, ⟨i, hh⟩, ?_⟩
    intro place hat
    rcases hplaces place hat with ⟨k, rfl, hk⟩ | ⟨h', rfl, hh'⟩
    · exact absurd hmem (hdisj (List.mem_of_getElem? hk))
    · rw [holder_unique hheld hh' hh]

/-- A socket that is anywhere is live. -/
theorem Conserved.live (hc : Conserved u notes) {socket : ℕ} {place : Place}
    (hat : u.At socket place) : ∃ i, Live notes i socket := by
  cases place with
  | free i k =>
      exact ⟨i, (hc.mem_stock i socket).mp (List.mem_append_left _ (List.mem_of_getElem? hat))⟩
  | held h =>
      obtain ⟨i, hh⟩ := hat
      exact ⟨i, (hc.mem_stock i socket).mp (List.mem_append_right _ (mem_held.mpr ⟨h, hh⟩))⟩

/-- `active_count` is the number of sockets that callers have. -/
theorem Conserved.active_card (hc : Conserved u notes) (i : ℕ) :
    u.pool.active_count i = ((u.held i).toFinset.card : ℤ) := by
  have hnodup := hc.nodup i
  rw [stock, List.nodup_append'] at hnodup
  rw [hc.active, List.toFinset_card_of_nodup hnodup.2.1]

/-- `idle_count` is the number of free sockets. -/
theorem Conserved.idle_card (hc : Conserved u notes) (i : ℕ) :
    u.pool.idle_count i = ((u.pool.free_sockets_ i).toFinset.card : ℤ) := by
  have hnodup := hc.nodup i
  rw [stock, List.nodup_append'] at hnodup
  rw [ConnectionPool.idle_count, List.toFinset_card_of_nodup hnodup.1]

/-- Neither half of an `acquire` that fails does anything to the pool. -/
theorem pool_of_failed_acquire {h i : ℕ} {out : List Note} :
    (u.step (.acquire h i) = some (u', []) → u'.pool = u.pool)
    ∧ (u.step (.connect_failed h) = some (u', out) → u'.pool = u.pool) := by
  refine ⟨?_, ?_⟩
  · intro hs
    generalize hout : ([] : List Note) = nothing at hs
    cases step_change hs with
    | pooled h i socket pool hh hgot => cases hout
    | dialing h i hh => rfl
  · intro hs
    cases step_change hs with
    | connect_failed h i hh => rfl

/-! ## Callers that never recycle -/

/-- The call puts a used socket back into a free list. -/
def Input.recycles : Input → Bool
  | .release _ healthy is_open => healthy && is_open
  | _ => false

/-- The call is a connect of `warm_up`. -/
def Input.warms : Input → Bool
  | .warm_up _ _ => true
  | _ => false

/-- The socket a note says was handed out. -/
def Note.handedSocket : Note → Option ℕ
  | .handed _ _ socket => some socket
  | _ => none

/-- The sockets handed out, in order. -/
def handedSockets (notes : List Note) : List ℕ := notes.filterMap Note.handedSocket

theorem handedSockets_append (notes notes' : List Note) :
    handedSockets (notes ++ notes') = handedSockets notes ++ handedSockets notes' :=
  List.filterMap_append

theorem mem_handedSockets {socket : ℕ} :
    socket ∈ handedSockets notes ↔ ∃ h i, .handed h i socket ∈ notes := by
  unfold handedSockets
  rw [List.mem_filterMap]
  constructor
  · rintro ⟨x, hx, hsock⟩
    cases x with
    | handed h i s =>
        cases hsock
        exact ⟨h, i, hx⟩
    | _ => cases hsock
  · rintro ⟨h, i, hx⟩
    exact ⟨_, hx, rfl⟩

/-- No socket was handed out twice, and none that was is free. -/
structure HandedOnce (u : PoolUsers) (notes : List Note) : Prop where
  once : (handedSockets notes).Nodup
  free : ∀ i socket, socket ∈ u.pool.free_sockets_ i → socket ∉ handedSockets notes

/-- The socket to come has not been handed out. -/
theorem Conserved.unhanded (hc : Conserved u notes) :
    u.pool.next_socket ∉ handedSockets notes := by
  intro hmem
  obtain ⟨h, i, hx⟩ := mem_handedSockets.mp hmem
  exact hc.unseen.1 i (hc.handed h i _ hx)

/-- A step that recycles nothing hands out nothing twice. -/
theorem Change.handedOnce {inp : Input} {out : List Note} (hch : Change u inp u' out)
    (hrec : inp.recycles = false) (hc : Conserved u notes) (ho : HandedOnce u notes) :
    HandedOnce u' (notes ++ out) := by
  have hsame : handedSockets out = [] → (∀ i, u'.pool.free_sockets_ i = u.pool.free_sockets_ i) →
      HandedOnce u' (notes ++ out) := by
    intro hnil hfree
    refine ⟨?_, ?_⟩
    · rw [handedSockets_append, hnil, List.append_nil]
      exact ho.once
    · intro i socket hin
      rw [handedSockets_append, hnil, List.append_nil]
      rw [hfree] at hin
      exact ho.free i socket hin
  cases hch with
  | warmed i =>
      refine ⟨?_, ?_⟩
      · rw [handedSockets_append]
        exact (List.append_nil _).symm ▸ ho.once
      · intro j socket hin
        rw [handedSockets_append]
        change socket ∉ handedSockets notes ++ []
        rw [List.append_nil]
        change socket ∈ Function.update u.pool.free_sockets_ i
          (u.pool.free_sockets_ i ++ [u.pool.next_socket]) j at hin
        by_cases hj : j = i
        · subst hj
          rw [Function.update_self, List.mem_append, List.mem_singleton] at hin
          rcases hin with hin | rfl
          · exact ho.free j socket hin
          · exact hc.unhanded
        · rw [Function.update_of_ne hj] at hin
          exact ho.free j socket hin
  | not_warmed i => exact hsame rfl fun _ => rfl
  | joined => exact hsame rfl fun _ => rfl
  | pooled h i socket pool hh hgot =>
      obtain ⟨hlast, hfree, -, -⟩ := ConnectionPool.acquire_some hgot
      have hin : socket ∈ u.pool.free_sockets_ i := by
        rw [hlast]
        simp
      have hhanded : handedSockets (notes ++ [.handed h i socket])
          = handedSockets notes ++ [socket] := handedSockets_append _ _
      refine ⟨?_, ?_⟩
      · rw [hhanded, List.nodup_append_comm, List.singleton_append, List.nodup_cons]
        exact ⟨ho.free i socket hin, ho.once⟩
      · intro j s hs
        change s ∈ pool.free_sockets_ j at hs
        rw [hfree] at hs
        rw [hhanded, List.mem_append, List.mem_singleton, not_or]
        by_cases hj : j = i
        · subst hj
          rw [Function.update_self] at hs
          have hnodup := (hc.nodup j).of_append_left
          rw [hlast, List.nodup_append_comm, List.singleton_append, List.nodup_cons] at hnodup
          refine ⟨ho.free j s (List.dropLast_subset _ hs), ?_⟩
          rintro rfl
          exact hnodup.1 hs
        · rw [Function.update_of_ne hj] at hs
          refine ⟨ho.free j s hs, ?_⟩
          -- another backend's free list does not have it
          rintro rfl
          exact hj (hc.origin j i s ((hc.mem_stock j s).mp (List.mem_append_left _ hs)).1
            ((hc.mem_stock i s).mp (List.mem_append_left _ hin)).1)
  | dialing h i hh => exact hsame rfl fun _ => rfl
  | connected h i hh =>
      have hhanded : handedSockets (notes
            ++ [.connected i u.pool.next_socket, .handed h i u.pool.next_socket])
          = handedSockets notes ++ [u.pool.next_socket] := handedSockets_append _ _
      refine ⟨?_, ?_⟩
      · rw [hhanded, List.nodup_append_comm, List.singleton_append, List.nodup_cons]
        exact ⟨hc.unhanded, ho.once⟩
      · intro j s hs
        rw [hhanded, List.mem_append, List.mem_singleton, not_or]
        refine ⟨ho.free j s hs, ?_⟩
        rintro rfl
        exact hc.unseen.1 j ((hc.mem_stock j _).mp (List.mem_append_left _ hs)).1
  | connect_failed h i hh => exact hsame rfl fun _ => rfl
  | kept h i socket hh => cases hrec
  | dropped h i socket healthy is_open hh hdrop =>
      refine hsame rfl fun j => ?_
      rw [put, u.pool.release_dropped i socket hdrop]

/-- A step that neither warms up nor recycles adds to no free list. -/
theorem Change.idle_count_le {inp : Input} {out : List Note} (hch : Change u inp u' out)
    (hrec : inp.recycles = false) (hwarm : inp.warms = false) (i : ℕ) :
    u'.pool.idle_count i ≤ u.pool.idle_count i := by
  unfold ConnectionPool.idle_count
  have hsame : u'.pool.free_sockets_ i = u.pool.free_sockets_ i →
      ((u'.pool.free_sockets_ i).length : ℤ) ≤ (u.pool.free_sockets_ i).length := by
    intro hfree
    have hlen := congrArg List.length hfree
    omega
  cases hch with
  | warmed j => cases hwarm
  | not_warmed j => cases hwarm
  | pooled h j socket pool hh hgot =>
      obtain ⟨-, hfree, -, -⟩ := ConnectionPool.acquire_some hgot
      by_cases hj : i = j
      · subst hj
        rw [put, hfree, Function.update_self, List.length_dropLast]
        omega
      · refine hsame ?_
        rw [put, hfree, Function.update_of_ne hj]
  | kept h j socket hh => cases hrec
  | dropped h j socket healthy is_open hh hdrop =>
      refine hsame ?_
      rw [put, u.pool.release_dropped j socket hdrop]
  | _ => exact hsame rfl

theorem handedOnce_run {min_pool_size : ℕ → ℕ} {ins : List Input}
    (hins : ∀ inp ∈ ins, inp.recycles = false)
    (h : exec step (new min_pool_size) ins = some (u, notes)) : HandedOnce u notes := by
  have hboth := exec_invariant_along (P := fun _ inp => inp.recycles = false)
    (I := fun u notes => Conserved u notes ∧ HandedOnce u notes) ?_ ?_
    (along_of_mem (fun inp hinp _ => hins inp hinp) _) h
  · exact hboth.2
  · rintro u notes inp u' out ⟨hc, ho⟩ hrec hs
    have hch := step_change hs
    exact ⟨hch.conserved hc, hch.handedOnce hrec hc ho⟩
  · exact ⟨conserved_new min_pool_size, List.nodup_nil, fun _ _ hin => by cases hin⟩

theorem idle_count_run {ins : List Input}
    (hins : ∀ inp ∈ ins, inp.recycles = false ∧ inp.warms = false)
    (h : exec step u ins = some (u', notes)) (i : ℕ) :
    u'.pool.idle_count i ≤ u.pool.idle_count i := by
  refine exec_invariant_along (P := fun _ inp => inp.recycles = false ∧ inp.warms = false)
    (I := fun v _ => v.pool.idle_count i ≤ u.pool.idle_count i) ?_ (Int.le_refl _)
    (along_of_mem (fun inp hinp _ => hins inp hinp) _) h
  rintro v notes inp v' out hle ⟨hrec, hwarm⟩ hs
  exact Int.le_trans ((step_change hs).idle_count_le hrec hwarm i) hle

end PoolUsers

end AegisProxy
