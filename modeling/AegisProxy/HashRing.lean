/-
`hash_ring.{hpp,cpp}`: the consistent-hash ring.

`ring_` is a `std::map` from vnode hash to backend index, here a `SortedMap`, and
its iterators are positions in it. `active_backends_` and the exclusion sets are
`unordered_set`s read only through `count`, so they are `Finset`s. A backend index
is a `size_t` in the source and a natural number here; nothing but its decimal
text is ever used. The `shared_mutex` is not modelled: each operation holds it
throughout.

`add_backend` overwrites whatever point is already at one of its hashes, and
`remove_backend` erases by hash without looking at the owner. The two loop lemmas
`at_addVnodes` and `at_eraseVnodes` say exactly that, and everything after them is
about which points are there, not about how the loops put them there.
-/
import AegisProxy.HashKey
import AegisProxy.Lib.SortedMap
import AegisProxy.Text
import Mathlib.Data.Finset.Card
import Mathlib.Data.Finset.Erase

set_option autoImplicit false

namespace AegisProxy

/-- The fields of `HashRing`. -/
structure HashRing where
  num_vnodes_per_backend_ : ℕ
  ring_ : SortedMap UInt64 ℕ
  active_backends_ : Finset ℕ

namespace HashRing

/-- The constructor. -/
def new (num_vnodes_per_backend : ℕ) : HashRing where
  num_vnodes_per_backend_ := num_vnodes_per_backend
  ring_ := .empty
  active_backends_ := ∅

/-- `HashRing::hash_key`. -/
def hash_key (key : Bytes) : UInt64 := fnv1a_avalanche key

/-- `HashRing::vnode_key`: the two indices in decimal with a `#` between them. -/
def vnode_key (backend_index vnode_index : ℕ) : Bytes :=
  to_string backend_index ++ [35] ++ to_string vnode_index

/-- The ring point of a vnode. -/
def vnode_hash (backend_index vnode_index : ℕ) : UInt64 :=
  hash_key (vnode_key backend_index vnode_index)

/-- The insertion loop of `add_backend`, over the vnodes `vs`. -/
def addVnodes (b : ℕ) (m : SortedMap UInt64 ℕ) (vs : List ℕ) : SortedMap UInt64 ℕ :=
  vs.foldl (fun m v => m.insert (vnode_hash b v) b) m

/-- The erasure loop of `remove_backend`, over the vnodes `vs`. -/
def eraseVnodes (b : ℕ) (m : SortedMap UInt64 ℕ) (vs : List ℕ) : SortedMap UInt64 ℕ :=
  vs.foldl (fun m v => m.erase (vnode_hash b v)) m

/-- `HashRing::add_backend`. -/
def add_backend (r : HashRing) (backend_index : ℕ) : HashRing :=
  if backend_index ∈ r.active_backends_ then r
  else
    { r with
      ring_ := addVnodes backend_index r.ring_ (List.range r.num_vnodes_per_backend_)
      active_backends_ := insert backend_index r.active_backends_ }

/-- `HashRing::remove_backend`. -/
def remove_backend (r : HashRing) (backend_index : ℕ) : HashRing :=
  if backend_index ∉ r.active_backends_ then r
  else
    { r with
      ring_ := eraseVnodes backend_index r.ring_ (List.range r.num_vnodes_per_backend_)
      active_backends_ := r.active_backends_.erase backend_index }

/-- `HashRing::get_backend`: the owner of the point at the lower bound, wrapping
to the beginning. -/
def get_backend (r : HashRing) (key : Bytes) : Option ℕ :=
  if r.ring_.entries.isEmpty then none
  else (r.ring_.first (hash_key key)).map Prod.snd

/-- The `do`/`while` walk of `get_backend_excluding` from position `it`: the positions it visits
and the backend it returns, or `none` if the fuel is used up before the loop has ended. The fuel
is the number of points: the walk is back at `start` before it runs out. -/
def walkVisits (m : SortedMap UInt64 ℕ) (excluded : Finset ℕ) (start : ℕ) :
    ℕ → ℕ → Option (List ℕ × Option ℕ)
  | 0, _ => none
  | fuel + 1, it =>
    match m.entries[it]? with
    | none => none
    | some p =>
      if p.2 ∉ excluded then some ([it], some p.2)
      else
        let it' := if it + 1 = m.entries.length then 0 else it + 1
        if it' = start then some ([it], none)
        else (walkVisits m excluded start fuel it').map fun r => (it :: r.1, r.2)

/-- What the walk returns. -/
def walk (m : SortedMap UInt64 ℕ) (excluded : Finset ℕ) (start fuel it : ℕ) : Option ℕ :=
  (walkVisits m excluded start fuel it).bind Prod.snd

/-- `HashRing::get_backend_excluding`. -/
def get_backend_excluding (r : HashRing) (key : Bytes) (excluded : Finset ℕ) : Option ℕ :=
  if r.ring_.entries.isEmpty then none
  else
    let start := r.ring_.start (hash_key key)
    walk r.ring_ excluded start r.ring_.entries.length start

/-- `HashRing::backend_count`. -/
def backend_count (r : HashRing) : ℕ := r.active_backends_.card

/-- `HashRing::vnode_count`. -/
def vnode_count (r : HashRing) : ℕ := r.ring_.entries.length

/-! ## Histories -/

/-- One change of the ring's membership. -/
inductive Op
  | add_backend (backend_index : ℕ)
  | remove_backend (backend_index : ℕ)
  deriving DecidableEq, Repr

/-- The backend an operation names. -/
def Op.backend : Op → ℕ
  | .add_backend b => b
  | .remove_backend b => b

def apply (r : HashRing) : Op → HashRing
  | .add_backend b => r.add_backend b
  | .remove_backend b => r.remove_backend b

/-- The ring after a history of operations on a new one. -/
def after (num_vnodes_per_backend : ℕ) (history : List Op) : HashRing :=
  history.foldl apply (new num_vnodes_per_backend)

/-! ## What the operations do to the points -/

/-- After the insertion loop a point is `b`'s at one of the loop's hashes, or what
it was at any other. -/
theorem at_addVnodes {b : ℕ} {vs : List ℕ} {m : SortedMap UInt64 ℕ} {k : UInt64} {o : ℕ} :
    (addVnodes b m vs).At k o
      ↔ (o = b ∧ ∃ v ∈ vs, k = vnode_hash b v)
        ∨ ((∀ v ∈ vs, k ≠ vnode_hash b v) ∧ m.At k o) :=
  SortedMap.at_foldl_insert (vnode_hash b) b

/-- After the erasure loop the points at the loop's hashes are gone, whoever owned
them, and the others are as they were. -/
theorem at_eraseVnodes {b : ℕ} {vs : List ℕ} {m : SortedMap UInt64 ℕ} {k : UInt64} {o : ℕ} :
    (eraseVnodes b m vs).At k o ↔ (∀ v ∈ vs, k ≠ vnode_hash b v) ∧ m.At k o :=
  SortedMap.at_foldl_erase (vnode_hash b)

theorem get_backend_eq (r : HashRing) (key : Bytes) :
    r.get_backend key = (r.ring_.first (hash_key key)).map Prod.snd := by
  unfold get_backend
  by_cases hemp : r.ring_.entries = []
  · have hnone : r.ring_.first (hash_key key) = none := by simp [SortedMap.first, hemp]
    rw [if_pos (by simp [hemp]), hnone, Option.map_none]
  · rw [if_neg (by simpa using hemp)]

/-! ## What every reachable ring satisfies -/

/-- Every point is at one of its owner's hashes, and its owner is active. This
needs nothing of the hash. -/
structure Owned (n : ℕ) (r : HashRing) : Prop where
  vnodes : r.num_vnodes_per_backend_ = n
  owner : ∀ k o, r.ring_.At k o → o ∈ r.active_backends_ ∧ ∃ v, v < n ∧ k = vnode_hash o v

theorem owned_new (n : ℕ) : Owned n (new n) where
  vnodes := rfl
  owner := by intro k o h; exact absurd h (SortedMap.at_empty k o)

theorem owned_add {n : ℕ} {r : HashRing} (h : Owned n r) (b : ℕ) : Owned n (r.add_backend b) := by
  unfold add_backend
  by_cases hb : b ∈ r.active_backends_
  · rw [if_pos hb]; exact h
  · rw [if_neg hb]
    refine ⟨h.vnodes, ?_⟩
    intro k o hat
    rcases at_addVnodes.mp hat with ⟨rfl, v, hv, rfl⟩ | ⟨-, hold⟩
    · rw [List.mem_range, h.vnodes] at hv
      exact ⟨Finset.mem_insert_self _ _, v, hv, rfl⟩
    · obtain ⟨hact, hv⟩ := h.owner k o hold
      exact ⟨Finset.mem_insert_of_mem hact, hv⟩

theorem owned_remove {n : ℕ} {r : HashRing} (h : Owned n r) (b : ℕ) :
    Owned n (r.remove_backend b) := by
  unfold remove_backend
  by_cases hb : b ∉ r.active_backends_
  · rw [if_pos hb]; exact h
  · rw [if_neg hb]
    refine ⟨h.vnodes, ?_⟩
    intro k o hat
    obtain ⟨hne, hold⟩ := at_eraseVnodes.mp hat
    obtain ⟨hact, v, hv, rfl⟩ := h.owner k o hold
    refine ⟨Finset.mem_erase.mpr ⟨?_, hact⟩, v, hv, rfl⟩
    -- a point of `b` itself would have been erased
    rintro rfl
    exact hne v (by rw [List.mem_range, h.vnodes]; exact hv) rfl

theorem owned_after (n : ℕ) (history : List Op) : Owned n (after n history) := by
  induction history using List.reverseRecOn with
  | nil => exact owned_new n
  | append_singleton history op ih =>
      rw [after, List.foldl_append, List.foldl_cons, List.foldl_nil, ← after]
      cases op with
      | add_backend b => exact owned_add ih b
      | remove_backend b => exact owned_remove ih b

/-- The vnode hashes of the backends a history names are pairwise distinct. -/
def DistinctVnodes (n : ℕ) (history : List Op) : Prop :=
  ∀ p ∈ history, ∀ q ∈ history, ∀ v, v < n → ∀ w, w < n →
    vnode_hash p.backend v = vnode_hash q.backend w → p.backend = q.backend ∧ v = w

instance (n : ℕ) (history : List Op) : Decidable (DistinctVnodes n history) :=
  inferInstanceAs (Decidable (∀ p ∈ history, ∀ q ∈ history, ∀ v, v < n → ∀ w, w < n →
    vnode_hash p.backend v = vnode_hash q.backend w → p.backend = q.backend ∧ v = w))

/-- With distinct vnode hashes every active backend is named by the history and
owns all its points. -/
structure Complete (n : ℕ) (history : List Op) (r : HashRing) : Prop where
  named : ∀ b ∈ r.active_backends_, ∃ op ∈ history, op.backend = b
  points : ∀ b ∈ r.active_backends_, ∀ v, v < n → r.ring_.At (vnode_hash b v) b

theorem complete_after (n : ℕ) (history : List Op) (hd : DistinctVnodes n history) :
    Complete n history (after n history) := by
  induction history using List.reverseRecOn with
  | nil => exact ⟨by simp [after, new], by simp [after, new]⟩
  | append_singleton history op ih =>
      have hold := ih (fun p hp q hq => hd p (by simp [hp]) q (by simp [hq]))
      have hvn := (owned_after n history).vnodes
      have hnamed : ∀ b ∈ (after n history).active_backends_,
          ∃ p ∈ history ++ [op], p.backend = b := by
        intro b hb
        obtain ⟨p, hp, hpb⟩ := hold.named b hb
        exact ⟨p, by simp [hp], hpb⟩
      -- another active backend's points are at none of the operation's hashes
      have hapart : ∀ b ∈ (after n history).active_backends_, b ≠ op.backend →
          ∀ v, v < n → ∀ w ∈ List.range n, vnode_hash b v ≠ vnode_hash op.backend w := by
        intro b hb hne v hv w hw heq
        obtain ⟨p, hp, rfl⟩ := hnamed b hb
        exact hne (hd p hp op (by simp) v hv w (List.mem_range.mp hw) heq).1
      rw [after, List.foldl_append, List.foldl_cons, List.foldl_nil, ← after]
      cases op with
      | add_backend b =>
          simp only [apply, add_backend]
          by_cases hb : b ∈ (after n history).active_backends_
          · rw [if_pos hb]
            exact ⟨hnamed, hold.points⟩
          · rw [if_neg hb]
            refine ⟨?_, ?_⟩
            · intro b' hb'
              rcases Finset.mem_insert.mp hb' with rfl | hb'
              · exact ⟨.add_backend b', by simp, rfl⟩
              · exact hnamed b' hb'
            · intro b' hb' v hv
              rw [at_addVnodes, hvn]
              rcases Finset.mem_insert.mp hb' with rfl | hb'
              · exact Or.inl ⟨rfl, v, List.mem_range.mpr hv, rfl⟩
              · have hne : b' ≠ b := fun h => hb (h ▸ hb')
                exact Or.inr ⟨hapart b' hb' hne v hv, hold.points b' hb' v hv⟩
      | remove_backend b =>
          simp only [apply, remove_backend]
          by_cases hb : b ∉ (after n history).active_backends_
          · rw [if_pos hb]
            exact ⟨hnamed, hold.points⟩
          · rw [if_neg hb]
            refine ⟨fun b' hb' => hnamed b' (Finset.mem_of_mem_erase hb'), ?_⟩
            intro b' hb' v hv
            obtain ⟨hne, hb'⟩ := Finset.mem_erase.mp hb'
            rw [at_eraseVnodes, hvn]
            exact ⟨hapart b' hb' hne v hv, hold.points b' hb' v hv⟩

/-! ## Minimal disruption -/

/-- Adding a backend moves a key to it or not at all, whatever collides. -/
theorem get_backend_add (r : HashRing) (b : ℕ) (key : Bytes) :
    (r.add_backend b).get_backend key = r.get_backend key
      ∨ (r.add_backend b).get_backend key = some b := by
  unfold add_backend
  by_cases hb : b ∈ r.active_backends_
  · rw [if_pos hb]; exact Or.inl rfl
  · rw [if_neg hb, get_backend_eq, get_backend_eq]
    refine SortedMap.first_of_grown ?_ ?_ (hash_key key)
    · intro k o hat
      by_cases hhit : ∃ v ∈ List.range r.num_vnodes_per_backend_, k = vnode_hash b v
      · exact ⟨b, at_addVnodes.mpr (Or.inl ⟨rfl, hhit⟩)⟩
      · refine ⟨o, at_addVnodes.mpr (Or.inr ⟨?_, hat⟩)⟩
        exact fun v hv he => hhit ⟨v, hv, he⟩
    · intro k o hat
      rcases at_addVnodes.mp hat with ⟨rfl, -⟩ | ⟨-, hold⟩
      · exact Or.inl rfl
      · exact Or.inr hold

/-- After `remove_backend b` no key maps to `b`, in any reachable ring. -/
theorem get_backend_remove_ne {n : ℕ} {r : HashRing} (h : Owned n r) (b : ℕ) (key : Bytes) :
    (r.remove_backend b).get_backend key ≠ some b := by
  intro hget
  rw [get_backend_eq, Option.map_eq_some_iff] at hget
  obtain ⟨⟨k, o⟩, hf, rfl⟩ := hget
  have hact := ((owned_remove h o).owner k o (SortedMap.first_eq_some_iff.mp hf).1).1
  unfold remove_backend at hact
  by_cases ho : o ∉ r.active_backends_
  · rw [if_pos ho] at hact
    exact ho hact
  · rw [if_neg ho] at hact
    exact (Finset.mem_erase.mp hact).1 rfl

/-- **Minimal disruption.** In the ring after any history, with any number of
vnodes, for every key and backend `b`:

* if some backend is registered and `b` is not, adding `b` leaves the key where it
  was or moves it to `b`, with no assumption on the hash;
* if the vnode hashes of the history's backends are pairwise distinct, removing `b`
  leaves every key that was not on `b` where it was, and no key on `b`. -/
theorem minimal_disruption (n : ℕ) (history : List Op) (b : ℕ) (key : Bytes) :
    ((∃ b', b' ∈ (after n history).active_backends_) → b ∉ (after n history).active_backends_ →
      ((after n history).add_backend b).get_backend key = (after n history).get_backend key
        ∨ ((after n history).add_backend b).get_backend key = some b)
    ∧ (DistinctVnodes n history →
      ((after n history).get_backend key ≠ some b →
        ((after n history).remove_backend b).get_backend key = (after n history).get_backend key)
      ∧ ((after n history).remove_backend b).get_backend key ≠ some b) := by
  have howned := owned_after n history
  refine ⟨fun _ _ => get_backend_add _ b key, fun hd => ⟨?_, get_backend_remove_ne howned b key⟩⟩
  intro hne
  have hcomplete := complete_after n history hd
  unfold remove_backend
  by_cases hb : b ∉ (after n history).active_backends_
  · rw [if_pos hb]
  · rw [if_neg hb]
    rw [get_backend_eq] at hne ⊢
    rw [get_backend_eq]
    have hsub : ∀ k o, (eraseVnodes b (after n history).ring_
        (List.range (after n history).num_vnodes_per_backend_)).At k o →
          (after n history).ring_.At k o := fun k o hat => (at_eraseVnodes.mp hat).2
    cases hf : (after n history).ring_.first (hash_key key) with
    | none =>
        rw [SortedMap.first_eq_none_iff] at hf
        rw [SortedMap.first_eq_none_iff.mpr fun k o hat => hf k o (hsub k o hat)]
    | some p =>
        -- the point found is not `b`'s, and all of `b`'s hashes hold `b`'s points
        have hat := (SortedMap.first_eq_some_iff.mp hf).1
        rw [hf, Option.map_some, ne_eq, Option.some.injEq] at hne
        have hkept : (eraseVnodes b (after n history).ring_
            (List.range (after n history).num_vnodes_per_backend_)).At p.1 p.2 := by
          refine at_eraseVnodes.mpr ⟨?_, hat⟩
          intro v hv he
          rw [List.mem_range, howned.vnodes] at hv
          have hown := hcomplete.points b (not_not.mp hb) v hv
          rw [← he] at hown
          exact hne (SortedMap.at_unique hat hown)
        rw [SortedMap.first_of_kept hsub hf hkept]

/-- Two backends with two vnodes each, and the key `"b"`, which backend `0` owns:
adding backend `2` can only move it there, and removing backend `1` leaves it. -/
theorem minimal_disruption_two_backends :
    (((after 2 [.add_backend 0, .add_backend 1]).add_backend 2).get_backend [98] = some 0
      ∨ ((after 2 [.add_backend 0, .add_backend 1]).add_backend 2).get_backend [98] = some 2)
    ∧ ((after 2 [.add_backend 0, .add_backend 1]).remove_backend 1).get_backend [98] = some 0 := by
  have hget : (after 2 [.add_backend 0, .add_backend 1]).get_backend [98] = some 0 := by
    decide +kernel
  refine ⟨?_, ?_⟩
  · rw [← hget]
    exact (minimal_disruption 2 [.add_backend 0, .add_backend 1] 2 [98]).1
      ⟨0, by decide +kernel⟩ (by decide +kernel)
  · rw [← hget]
    exact ((minimal_disruption 2 [.add_backend 0, .add_backend 1] 1 [98]).2
      (by decide +kernel)).1 (by decide +kernel)

end HashRing

end AegisProxy
