/-
Colliding vnodes: which backends can share a point of the ring, and what removing one
of them does to the other.

Both `hash_key` functions inherit from `HashKey.lean` that a common suffix cancels.
For the ring this means that collisions between two backends do not depend on the
vnode: the vnode keys of `b` and `b'` for one vnode number differ in the two decimal
indices only, so they collide for one number exactly if they collide for all
(`vnode_hash_inj`), and the number of vnodes does not matter.

`remove_backend` erases by hash. The points another backend loses by it are those at
the removed backend's hashes, so nothing is lost exactly if none of these hashes holds
another backend's point. A collision breaks this: the backend added last holds all the
shared points, and removing the other one takes every one of them away while the last
is still registered (`remove_collider`).
-/
import AegisProxy.RingLookup
import AegisProxy.RateLimiter

set_option autoImplicit false

namespace AegisProxy

/-- What the finalizer and the byte steps of a hash of byte strings keep: the hash
collides only where FNV-1a does, common suffixes cancel, and a last byte shows. -/
structure KeepsFnv1a (hash_key : Bytes → UInt64) : Prop where
  collisions : ∀ a b, hash_key a = hash_key b ↔ fnv1a a = fnv1a b
  suffix : ∀ a b s, hash_key (a ++ s) = hash_key (b ++ s) ↔ hash_key a = hash_key b
  last : ∀ a x y, hash_key (a ++ [x]) = hash_key (a ++ [y]) → x = y

theorem keepsFnv1a_fnv1a_avalanche : KeepsFnv1a fnv1a_avalanche where
  collisions := fnv1a_avalanche_inj
  suffix := fnv1a_avalanche_append_inj
  last _ _ _ := fnv1a_avalanche_concat_inj

namespace HashRing

/-- Two backends collide on a vnode number exactly if their decimal indices do. -/
theorem vnode_hash_inj (b b' v : ℕ) :
    vnode_hash b v = vnode_hash b' v
      ↔ hash_key (to_string b) = hash_key (to_string b') := by
  unfold vnode_hash vnode_key
  rw [List.append_assoc, List.append_assoc]
  exact fnv1a_avalanche_append_inj _ _ _

/-- **The hash adds no collisions and is cancellative.** A byte step of FNV-1a and the
finalizer are bijections of the 64-bit state. Hence the ring's and the limiter's
`hash_key` collide exactly where FNV-1a does, common suffixes cancel, and keys that
differ in the last byte alone never collide; and two backends collide on one vnode
number exactly if they collide on all of them. -/
theorem hash_key_cancellative :
    (∀ c, Function.Bijective (fnv1a_step · c))
    ∧ Function.Bijective avalanche
    ∧ KeepsFnv1a hash_key
    ∧ KeepsFnv1a RateLimiter.hash_key
    ∧ ∀ b b', (∃ v, vnode_hash b v = vnode_hash b' v) ↔ ∀ v, vnode_hash b v = vnode_hash b' v := by
  refine ⟨fnv1a_step_bijective, avalanche_bijective, keepsFnv1a_fnv1a_avalanche,
    keepsFnv1a_fnv1a_avalanche, ?_⟩
  intro b b'
  constructor
  · rintro ⟨v, hv⟩ w
    exact (vnode_hash_inj b b' w).mpr ((vnode_hash_inj b b' v).mp hv)
  · intro h
    exact ⟨0, h 0⟩

/-! ## What removing a backend takes from the others -/

/-- One of the first `n` vnode hashes of `b` holds another backend's point. -/
def Overlaid (n : ℕ) (r : HashRing) (b : ℕ) : Prop :=
  ∃ v, v < n ∧ ∃ o, o ≠ b ∧ r.ring_.At (vnode_hash b v) o

/-- A point is there after `remove_backend b` if it was there before and, where `b` was
registered, is at none of `b`'s hashes. -/
theorem at_remove_backend {n : ℕ} {r : HashRing} (h : Owned n r) (b : ℕ) (k : UInt64) (o : ℕ) :
    (r.remove_backend b).ring_.At k o
      ↔ (b ∈ r.active_backends_ → ∀ v, v < n → k ≠ vnode_hash b v) ∧ r.ring_.At k o := by
  unfold remove_backend
  by_cases hb : b ∉ r.active_backends_
  · rw [if_pos hb]
    exact ⟨fun hat => ⟨fun hb' => absurd hb' hb, hat⟩, And.right⟩
  · rw [if_neg hb, at_eraseVnodes, h.vnodes]
    simp only [List.mem_range, not_not.mp hb, forall_const]

/-- **What removal keeps.** In the ring after any history and with any number of vnodes,
`remove_backend b` leaves every point of the other backends in place, with its owner,
exactly if `b` is not registered or none of its vnode hashes holds another backend's
point. -/
theorem remove_backend_frame_iff (n : ℕ) (history : List Op) (b : ℕ) :
    (∀ k o, o ≠ b → (after n history).ring_.At k o →
        ((after n history).remove_backend b).ring_.At k o)
      ↔ b ∉ (after n history).active_backends_ ∨ ¬ Overlaid n (after n history) b := by
  have howned := owned_after n history
  constructor
  · intro hkept
    by_cases hb : b ∈ (after n history).active_backends_
    · refine Or.inr ?_
      rintro ⟨v, hv, o, ho, hat⟩
      have hafter := hkept _ o ho hat
      exact ((at_remove_backend howned b _ o).mp hafter).1 hb v hv rfl
    · exact Or.inl hb
  · rintro hcond k o ho hat
    refine (at_remove_backend howned b k o).mpr ⟨?_, hat⟩
    rintro hb v hv rfl
    rcases hcond with hnot | hclear
    · exact hnot hb
    · exact hclear ⟨v, hv, o, ho, hat⟩

/-! ## Two colliding backends -/

section Colliders

variable {b b' : ℕ} (hne : b ≠ b') (hcoll : hash_key (to_string b) = hash_key (to_string b'))

include hne hcoll

/-- After `b` and then a collider `b'` are added, every vnode hash of `b` holds a point
of `b'`. -/
theorem at_collider {n v : ℕ} (hv : v < n) :
    (after n [.add_backend b, .add_backend b']).ring_.At (vnode_hash b v) b' := by
  have hnew : b' ∉ (after n [.add_backend b]).active_backends_ := by
    simp [after, apply, add_backend, new, hne.symm]
  have hvn := (owned_after n [.add_backend b]).vnodes
  have hadd : after n [.add_backend b, .add_backend b']
      = (after n [.add_backend b]).add_backend b' := rfl
  rw [hadd, add_backend, if_neg hnew, hvn]
  refine at_addVnodes.mpr (Or.inl ⟨rfl, v, List.mem_range.mpr hv, ?_⟩)
  exact (vnode_hash_inj b b' v).mpr hcoll

/-- Removing `b` again leaves `b'` registered and without a single point. -/
theorem remove_collider (n : ℕ) :
    b' ∈ ((after n [.add_backend b, .add_backend b']).remove_backend b).active_backends_
    ∧ ∀ k o, ¬ ((after n [.add_backend b, .add_backend b']).remove_backend b).ring_.At k o := by
  have howned := owned_after n [.add_backend b, .add_backend b']
  have hact : (after n [.add_backend b, .add_backend b']).active_backends_ = {b', b} := by
    simp [after, apply, add_backend, new, hne.symm]
  have hb : b ∈ (after n [.add_backend b, .add_backend b']).active_backends_ := by
    simp [hact]
  refine ⟨?_, ?_⟩
  · rw [remove_backend, if_neg (not_not.mpr hb), Finset.mem_erase, hact]
    exact ⟨hne.symm, by simp⟩
  · intro k o hat
    -- the point was `b`'s or `b'`'s, and the two have the same hashes
    obtain ⟨hclear, hold⟩ := (at_remove_backend howned b k o).mp hat
    obtain ⟨ho, v, hv, rfl⟩ := howned.owner k o hold
    rw [hact, Finset.mem_insert, Finset.mem_singleton] at ho
    rcases ho with rfl | rfl
    · exact hclear hb v hv ((vnode_hash_inj b o v).mpr hcoll).symm
    · exact hclear hb v hv rfl

end Colliders

/-- Two `size_t` indices whose decimal texts FNV-1a takes to the same state, the second
added after the first. With the default of 500 vnodes, removing the first takes the
second's points away, all of them, while the second is still registered. -/
theorem remove_backend_takes_collider :
    (after 500 [.add_backend 2175707393446160876, .add_backend 7675936069890029574]).ring_.At
      (vnode_hash 2175707393446160876 0) 7675936069890029574
    ∧ ¬ ((after 500 [.add_backend 2175707393446160876, .add_backend 7675936069890029574]
        ).remove_backend 2175707393446160876).ring_.At
      (vnode_hash 2175707393446160876 0) 7675936069890029574
    ∧ 7675936069890029574 ∈ ((after 500
        [.add_backend 2175707393446160876, .add_backend 7675936069890029574]
        ).remove_backend 2175707393446160876).active_backends_
    ∧ ∀ k o, ¬ ((after 500
        [.add_backend 2175707393446160876, .add_backend 7675936069890029574]
        ).remove_backend 2175707393446160876).ring_.At k o := by
  have hne : 2175707393446160876 ≠ 7675936069890029574 := by decide
  have hcoll : hash_key (to_string 2175707393446160876)
      = hash_key (to_string 7675936069890029574) := by decide +kernel
  obtain ⟨hact, hempty⟩ := remove_collider hne hcoll 500
  exact ⟨at_collider hne hcoll (by decide), hempty _ _, hact, hempty⟩

end HashRing

end AegisProxy
