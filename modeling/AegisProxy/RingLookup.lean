/-
What the ring answers, and how little of its history the answer depends on.

The walk of `get_backend_excluding` is the sorted map walked once around, from the
lower bound of the key's hash on, passing over the excluded backends (`walkVisits_spec`).
So the answer is the owner of the nearest point clockwise whose owner is not excluded
(`lookup_spec`), for every ring, whatever its hashes.

With distinct vnode hashes a ring is `Exact`: its points are those of its active
backends, all of them and no others. Exactness is kept by removal, so excluding a set of
backends is removing them (`excluding_eq_removing`); and it determines the ring by the
active set, so two histories that end with the same backends end with the same ring
(`history_independence`).
-/
import AegisProxy.HashRing
import AegisProxy.Lib.Around
import Mathlib.Data.Finset.Prod

set_option autoImplicit false

namespace AegisProxy

namespace HashRing

/-! ## The walk -/

/-- The source's iterator goes on to the next position around. -/
theorem next_position {n : ℕ} (hn : 0 < n) (i : ℕ) :
    (if i % n + 1 = n then 0 else i % n + 1) = (i + 1) % n := by
  have hlt : i % n < n := Nat.mod_lt i hn
  have hmod : (i + 1) % n = (i % n + 1) % n := (Nat.mod_add_mod i n 1).symm
  by_cases hend : i % n + 1 = n
  · rw [if_pos hend, hmod, hend, Nat.mod_self]
  · rw [if_neg hend, hmod, Nat.mod_eq_of_lt (show i % n + 1 < n by omega)]

/-- **The walk, from its `j`-th position on.** It ends, its answer is the first owner
that is not excluded among the points it has not met, and the positions it visits are
the next ones around. -/
theorem walkVisits_drop {m : SortedMap UInt64 ℕ} (excluded : Finset ℕ) {start : ℕ}
    (hstart : start < m.entries.length) (k j : ℕ) (hjk : j + k = m.entries.length) (hk : 0 < k) :
    ∃ visited, walkVisits m excluded start k ((start + j) % m.entries.length)
        = some (visited, (((m.entries.rotate start).drop j).find? fun p => p.2 ∉ excluded).map
            Prod.snd)
      ∧ visited <+: ((List.range m.entries.length).rotate start).drop j := by
  -- the induction is on the number of points not met yet
  induction k generalizing j with
  | zero => omega
  | succ k ih =>
      have hj : j < m.entries.length := by omega
      have hit : (start + j) % m.entries.length < m.entries.length := Nat.mod_lt _ (by omega)
      have hpoint : m.entries[(start + j) % m.entries.length]?
          = some (m.entries.get ⟨(start + j) % m.entries.length, hit⟩) := by
        rw [List.getElem?_eq_getElem hit, List.get_eq_getElem]
      have hpoints : (m.entries.rotate start).drop j
          = m.entries.get ⟨(start + j) % m.entries.length, hit⟩
            :: (m.entries.rotate start).drop (j + 1) := by
        rw [List.drop_eq_getElem_cons (by rw [List.length_rotate]; exact hj),
          List.getElem_rotate, List.get_eq_getElem]
        simp only [Nat.add_comm start j]
      have hpositions : ((List.range m.entries.length).rotate start).drop j
          = (start + j) % m.entries.length
            :: ((List.range m.entries.length).rotate start).drop (j + 1) := by
        rw [List.drop_eq_getElem_cons (by rw [List.length_rotate, List.length_range]; exact hj),
          List.getElem_rotate, List.getElem_range, List.length_range, Nat.add_comm start j]
      have hnext := next_position (show 0 < m.entries.length by omega) (start + j)
      rw [Nat.add_assoc] at hnext
      simp only [walkVisits, hpoint, hnext]
      rw [hpoints, hpositions]
      by_cases hex : (m.entries.get ⟨(start + j) % m.entries.length, hit⟩).2 ∈ excluded
      · simp only [hex, not_true_eq_false, if_false]
        rw [List.find?_cons_of_neg (by simpa using hex)]
        by_cases hlast : j + 1 = m.entries.length
        · -- the last point: the iterator is back where it started
          have hback : (start + (j + 1)) % m.entries.length = start := by
            rw [hlast, Nat.add_mod_right, Nat.mod_eq_of_lt hstart]
          have hnone : (m.entries.rotate start).drop (j + 1) = [] := by
            rw [List.drop_eq_nil_iff, List.length_rotate]
            omega
          rw [if_pos hback, hnone]
          exact ⟨_, rfl, by simp⟩
        · have hback : (start + (j + 1)) % m.entries.length ≠ start := by
            rcases Nat.lt_or_ge (start + (j + 1)) m.entries.length with hlt | hge
            · rw [Nat.mod_eq_of_lt hlt]
              omega
            · rw [Nat.mod_eq_sub_mod hge, Nat.mod_eq_of_lt (by omega)]
              omega
          obtain ⟨visited, hrest, hpre⟩ := ih (j + 1) (by omega) (by omega)
          rw [if_neg hback, hrest]
          exact ⟨_, rfl, List.cons_prefix_cons.mpr ⟨rfl, hpre⟩⟩
      · simp only [hex, not_false_eq_true, if_true]
        rw [List.find?_cons_of_pos (by simpa using hex)]
        exact ⟨_, rfl, by simp⟩

/-- **The walk.** From its start it ends, having visited no position twice, and it finds
the first owner around that is not excluded. -/
theorem walkVisits_spec (m : SortedMap UInt64 ℕ) (excluded : Finset ℕ) (h : UInt64)
    (hne : m.entries ≠ []) :
    ∃ visited, walkVisits m excluded (m.start h) m.entries.length (m.start h)
        = some (visited, (m.firstWhere h fun p => p.2 ∉ excluded).map Prod.snd)
      ∧ visited.Nodup := by
  have hstart := m.start_lt hne h
  obtain ⟨visited, hwalk, hpre⟩ := walkVisits_drop excluded hstart m.entries.length 0
    (by omega) (by omega)
  rw [Nat.add_zero, Nat.mod_eq_of_lt hstart, List.drop_zero] at hwalk
  refine ⟨visited, hwalk, ?_⟩
  have hnodup : ((List.range m.entries.length).rotate (m.start h)).Nodup :=
    List.nodup_rotate.mpr List.nodup_range
  exact hnodup.sublist hpre.sublist

/-- `get_backend_excluding` is the first owner around that is not excluded. -/
theorem get_backend_excluding_eq (r : HashRing) (key : Bytes) (excluded : Finset ℕ) :
    r.get_backend_excluding key excluded
      = (r.ring_.firstWhere (hash_key key) fun p => p.2 ∉ excluded).map Prod.snd := by
  unfold get_backend_excluding
  by_cases hemp : r.ring_.entries = []
  · have hnone : r.ring_.firstWhere (hash_key key) (fun p => p.2 ∉ excluded) = none := by
      rw [SortedMap.firstWhere, SortedMap.around, hemp, List.rotate_nil, List.find?_nil]
    rw [if_pos (by rw [hemp]; rfl), hnone, Option.map_none]
  · obtain ⟨visited, hwalk, -⟩ := walkVisits_spec r.ring_ excluded (hash_key key) hemp
    rw [if_neg (by simpa using hemp), walk, hwalk, Option.bind_some]

/-- What comes back is no excluded backend, and it owns a point. -/
theorem get_backend_excluding_some {r : HashRing} {key : Bytes} {excluded : Finset ℕ} {b : ℕ}
    (h : r.get_backend_excluding key excluded = some b) :
    b ∉ excluded ∧ ∃ p, r.ring_.At p b := by
  rw [get_backend_excluding_eq, Option.map_eq_some_iff] at h
  obtain ⟨⟨p, o⟩, hf, rfl⟩ := h
  obtain ⟨hat, hex, -⟩ := SortedMap.firstWhere_eq_some_iff.mp hf
  exact ⟨of_decide_eq_true hex, p, hat⟩

/-- Nothing comes back exactly if every owner of a point is excluded. -/
theorem get_backend_excluding_none_iff {r : HashRing} {key : Bytes} {excluded : Finset ℕ} :
    r.get_backend_excluding key excluded = none ↔ ∀ p b, r.ring_.At p b → b ∈ excluded := by
  rw [get_backend_excluding_eq, Option.map_eq_none_iff, SortedMap.firstWhere_eq_none_iff]
  simp only [decide_eq_false_iff_not, not_not]

/-- `get_backend` excludes nobody. -/
theorem get_backend_eq_excluding (r : HashRing) (key : Bytes) :
    r.get_backend key = r.get_backend_excluding key ∅ := by
  rw [get_backend_eq, get_backend_excluding_eq,
    SortedMap.first_eq_firstWhere (m := r.ring_) (p := fun p => p.2 ∉ (∅ : Finset ℕ)) (by simp)]

/-! ## The nearest point -/

/-- How far `p` is from `h` going up and around: `p - h` modulo `2^64`. -/
def distance (h p : UInt64) : ℤ := ((p.toNat : ℤ) - h.toNat) % 2 ^ 64

/-- Clockwise order is the order of the distances. -/
theorem clockwise_iff_distance (h a b : UInt64) :
    SortedMap.Clockwise h a b ↔ distance h a ≤ distance h b := by
  have hh := h.toNat_lt
  have ha := a.toNat_lt
  have hb := b.toNat_lt
  unfold SortedMap.Clockwise distance
  by_cases hle : h ≤ a
  · rw [if_pos hle]
    rw [UInt64.le_iff_toNat_le] at hle
    rw [UInt64.le_iff_toNat_le, UInt64.le_iff_toNat_le]
    omega
  · rw [if_neg hle]
    rw [UInt64.le_iff_toNat_le] at hle
    rw [UInt64.lt_iff_toNat_lt, UInt64.le_iff_toNat_le]
    omega

/-- **The lookup.** In the ring after any history, whatever its hashes collide on, for
every key and exclusion set:

1. the answer is the owner of the point nearest to the key's hash among the points whose
   owner is not excluded;
2. there is none exactly if every point's owner is excluded;
3. unless the ring is empty, the walk ends by itself and has visited no point twice;
4. `get_backend` is the lookup that excludes nobody;
5. the backend returned is active. -/
theorem lookup_spec (n : ℕ) (history : List Op) (key : Bytes) (excluded : Finset ℕ) :
    (∀ b, (after n history).get_backend_excluding key excluded = some b
      ↔ ∃ p, (after n history).ring_.At p b ∧ b ∉ excluded
          ∧ ∀ p' b', (after n history).ring_.At p' b' → b' ∉ excluded →
            distance (hash_key key) p ≤ distance (hash_key key) p')
    ∧ ((after n history).get_backend_excluding key excluded = none
      ↔ ∀ p b, (after n history).ring_.At p b → b ∈ excluded)
    ∧ ((after n history).ring_.entries = []
      ∨ ∃ visited, walkVisits (after n history).ring_ excluded
            ((after n history).ring_.start (hash_key key)) (after n history).ring_.entries.length
            ((after n history).ring_.start (hash_key key))
          = some (visited, (after n history).get_backend_excluding key excluded)
        ∧ visited.Nodup)
    ∧ (after n history).get_backend key = (after n history).get_backend_excluding key ∅
    ∧ ∀ b, (after n history).get_backend_excluding key excluded = some b →
      b ∈ (after n history).active_backends_ := by
  refine ⟨?_, get_backend_excluding_none_iff, ?_, get_backend_eq_excluding _ key, ?_⟩
  · intro b
    rw [get_backend_excluding_eq, Option.map_eq_some_iff]
    constructor
    · rintro ⟨⟨p, o⟩, hf, rfl⟩
      obtain ⟨hat, hex, hmin⟩ := SortedMap.firstWhere_eq_some_iff.mp hf
      refine ⟨p, hat, of_decide_eq_true hex, ?_⟩
      intro p' b' hat' hex'
      exact (clockwise_iff_distance _ _ _).mp (hmin p' b' hat' (decide_eq_true hex'))
    · rintro ⟨p, hat, hex, hmin⟩
      refine ⟨(p, b), SortedMap.firstWhere_eq_some_iff.mpr ⟨hat, decide_eq_true hex, ?_⟩, rfl⟩
      intro p' b' hat' hex'
      exact (clockwise_iff_distance _ _ _).mpr (hmin p' b' hat' (of_decide_eq_true hex'))
  · by_cases hemp : (after n history).ring_.entries = []
    · exact Or.inl hemp
    · refine Or.inr ?_
      rw [get_backend_excluding_eq]
      exact walkVisits_spec _ excluded _ hemp
  · intro b hb
    obtain ⟨-, p, hat⟩ := get_backend_excluding_some hb
    exact ((owned_after n history).owner p b hat).1

/-! ## Vnode keys are distinct -/

/-- The separator is no digit. -/
theorem separator_not_mem (n : ℕ) : (35 : UInt8) ∉ to_string n :=
  not_mem_to_string n (by decide)

theorem vnode_key_injective {b b' v v' : ℕ} (h : vnode_key b v = vnode_key b' v') :
    b = b' ∧ v = v' := by
  have hbefore : ∀ n w, (vnode_key n w).takeWhile (· ≠ 35) = to_string n := by
    intro n w
    unfold vnode_key
    rw [List.append_assoc, List.takeWhile_append_of_pos]
    · simp
    · intro u hu
      exact decide_eq_true fun heq => separator_not_mem n (heq ▸ hu)
  have hb : to_string b = to_string b' := by rw [← hbefore b v, h, hbefore]
  refine ⟨to_string_injective hb, to_string_injective ?_⟩
  unfold vnode_key at h
  rw [hb] at h
  exact List.append_cancel_left h

/-- The vnode keys of the backends a history names. -/
def vnodeKeys (n : ℕ) (history : List Op) : Set Bytes :=
  { k | ∃ op ∈ history, ∃ v, v < n ∧ k = vnode_key op.backend v }

/-- The hashes are distinct exactly if `hash_key` is injective on the keys. -/
theorem injOn_vnodeKeys_iff {n : ℕ} {history : List Op} :
    Set.InjOn hash_key (vnodeKeys n history) ↔ DistinctVnodes n history := by
  constructor
  · intro hinj p hp q hq v hv w hw heq
    exact vnode_key_injective (hinj ⟨p, hp, v, hv, rfl⟩ ⟨q, hq, w, hw, rfl⟩ heq)
  · rintro hd _ ⟨p, hp, v, hv, rfl⟩ _ ⟨q, hq, w, hw, rfl⟩ heq
    obtain ⟨hb, hvw⟩ := hd p hp q hq v hv w hw heq
    rw [hb, hvw]

/-! ## Exact rings -/

/-- The points are those of the active backends, all of them and no others. -/
def Exact (n : ℕ) (r : HashRing) : Prop :=
  r.num_vnodes_per_backend_ = n
    ∧ ∀ k o, r.ring_.At k o ↔ o ∈ r.active_backends_ ∧ ∃ v, v < n ∧ k = vnode_hash o v

theorem exact_after {n : ℕ} {history : List Op} (hd : DistinctVnodes n history) :
    Exact n (after n history) := by
  have howned := owned_after n history
  refine ⟨howned.vnodes, fun k o => ⟨howned.owner k o, ?_⟩⟩
  rintro ⟨hact, v, hv, rfl⟩
  exact (complete_after n history hd).points o hact v hv

/-- Removing a backend takes its points out of an exact ring and no others. -/
theorem Exact.at_remove {n : ℕ} {r : HashRing} (h : Exact n r) (b : ℕ) (k : UInt64) (o : ℕ) :
    (r.remove_backend b).ring_.At k o ↔ r.ring_.At k o ∧ o ≠ b := by
  unfold remove_backend
  by_cases hb : b ∉ r.active_backends_
  · -- a backend that is not active owns nothing
    rw [if_pos hb]
    refine ⟨fun hat => ⟨hat, ?_⟩, fun hat => hat.1⟩
    rintro rfl
    exact hb ((h.2 k o).mp hat).1
  · rw [if_neg hb, at_eraseVnodes, h.1]
    constructor
    · rintro ⟨hfree, hat⟩
      refine ⟨hat, ?_⟩
      rintro rfl
      obtain ⟨-, v, hv, hk⟩ := (h.2 k o).mp hat
      exact hfree v (List.mem_range.mpr hv) hk
    · rintro ⟨hat, hne⟩
      refine ⟨?_, hat⟩
      intro v hv hk
      have hown : r.ring_.At k b := (h.2 k b).mpr ⟨not_not.mp hb, v, List.mem_range.mp hv, hk⟩
      exact hne (SortedMap.at_unique hat hown)

theorem remove_backend_active (r : HashRing) (b : ℕ) :
    (r.remove_backend b).active_backends_ = r.active_backends_.erase b := by
  unfold remove_backend
  by_cases hb : b ∉ r.active_backends_
  · rw [if_pos hb, Finset.erase_eq_of_notMem hb]
  · rw [if_neg hb]

theorem remove_backend_vnodes (r : HashRing) (b : ℕ) :
    (r.remove_backend b).num_vnodes_per_backend_ = r.num_vnodes_per_backend_ := by
  unfold remove_backend
  split <;> rfl

/-- Removal keeps a ring exact, with nothing asked of the hash. -/
theorem Exact.remove {n : ℕ} {r : HashRing} (h : Exact n r) (b : ℕ) :
    Exact n (r.remove_backend b) := by
  refine ⟨(r.remove_backend_vnodes b).trans h.1, ?_⟩
  intro k o
  rw [h.at_remove, h.2, remove_backend_active, Finset.mem_erase]
  constructor
  · rintro ⟨⟨hact, hv⟩, hne⟩
    exact ⟨⟨hne, hact⟩, hv⟩
  · rintro ⟨⟨hne, hact⟩, hv⟩
    exact ⟨⟨hact, hv⟩, hne⟩

/-- Removing backends one by one takes out the points of all of them. -/
theorem Exact.at_removes {n : ℕ} {r : HashRing} (h : Exact n r) (bs : List ℕ) (k : UInt64)
    (o : ℕ) : (bs.foldl remove_backend r).ring_.At k o ↔ r.ring_.At k o ∧ o ∉ bs := by
  induction bs generalizing r with
  | nil => simp
  | cons b bs ih =>
      rw [List.foldl_cons, ih (h.remove b), h.at_remove, List.mem_cons, not_or, and_assoc]

/-- **Excluding is removing.** In the ring after any history with distinct vnode hashes,
for every key and every exclusion set, `get_backend_excluding` answers what `get_backend`
answers once `remove_backend` has been called on the excluded backends, in whatever
order. -/
theorem excluding_eq_removing (n : ℕ) (history : List Op) (hd : DistinctVnodes n history)
    (key : Bytes) (excluded : Finset ℕ) (bs : List ℕ) (hbs : ∀ b, b ∈ bs ↔ b ∈ excluded) :
    (after n history).get_backend_excluding key excluded
      = (bs.foldl remove_backend (after n history)).get_backend key := by
  rw [get_backend_excluding_eq, get_backend_eq]
  congr 1
  refine (SortedMap.first_eq_firstWhere ?_ _).symm
  intro k o
  rw [(exact_after hd).at_removes, hbs, decide_eq_true_eq]

/-- Two backends with two vnodes each, and the key `"b"`, which backend `0` owns: with
backend `0` excluded the answer is backend `1`, and with both of them there is none. -/
theorem excluding_eq_removing_two_backends :
    ([0].foldl remove_backend (after 2 [.add_backend 0, .add_backend 1])).get_backend [98]
        = some 1
      ∧ ([1, 0].foldl remove_backend (after 2 [.add_backend 0, .add_backend 1])).get_backend [98]
        = none := by
  refine ⟨?_, ?_⟩
  · rw [← excluding_eq_removing 2 [.add_backend 0, .add_backend 1] (by decide +kernel) [98] {0}
      [0] (by simp)]
    decide +kernel
  · rw [← excluding_eq_removing 2 [.add_backend 0, .add_backend 1] (by decide +kernel) [98]
      {0, 1} [1, 0] (by simp [or_comm])]
    decide +kernel

/-! ## The ring is its active set -/

/-- Exact rings with the same active backends are equal. -/
theorem Exact.eq {n : ℕ} {r r' : HashRing} (h : Exact n r) (h' : Exact n r')
    (hact : r.active_backends_ = r'.active_backends_) : r = r' := by
  have hring : r.ring_ = r'.ring_ := by
    apply SortedMap.ext_at
    intro k o
    rw [h.2, h'.2, hact]
  have hvnodes : r.num_vnodes_per_backend_ = r'.num_vnodes_per_backend_ := h.1.trans h'.1.symm
  cases r
  cases r'
  simp only [mk.injEq]
  exact ⟨hvnodes, hring, hact⟩

/-- With distinct vnode hashes there are `n` points for every active backend. -/
theorem vnode_count_after {n : ℕ} {history : List Op} (hd : DistinctVnodes n history) :
    (after n history).vnode_count = n * (after n history).backend_count := by
  have hexact := exact_after hd
  have hcomplete := complete_after n history hd
  -- the points are the images of the pairs of an active backend and a vnode number
  have hpoints : (after n history).ring_.entries.toFinset
      = ((after n history).active_backends_ ×ˢ Finset.range n).image
        fun x => (vnode_hash x.1 x.2, x.1) := by
    ext ⟨k, o⟩
    rw [List.mem_toFinset, Finset.mem_image]
    constructor
    · intro hat
      obtain ⟨hact, v, hv, rfl⟩ := (hexact.2 k o).mp hat
      exact ⟨(o, v), Finset.mem_product.mpr ⟨hact, Finset.mem_range.mpr hv⟩, rfl⟩
    · rintro ⟨⟨b, v⟩, hmem, heq⟩
      obtain ⟨hact, hv⟩ := Finset.mem_product.mp hmem
      rw [Prod.mk.injEq] at heq
      obtain ⟨rfl, rfl⟩ := heq
      exact (hexact.2 _ _).mpr ⟨hact, v, Finset.mem_range.mp hv, rfl⟩
  have hinj : ∀ x ∈ (after n history).active_backends_ ×ˢ Finset.range n,
      ∀ y ∈ (after n history).active_backends_ ×ˢ Finset.range n,
      (vnode_hash x.1 x.2, x.1) = (vnode_hash y.1 y.2, y.1) → x = y := by
    rintro ⟨b, v⟩ hx ⟨b', v'⟩ hy heq
    obtain ⟨hact, hv⟩ := Finset.mem_product.mp hx
    obtain ⟨-, hv'⟩ := Finset.mem_product.mp hy
    simp only [Prod.mk.injEq] at heq
    obtain ⟨hhash, rfl⟩ := heq
    obtain ⟨op, hop, rfl⟩ := hcomplete.named b hact
    rw [(hd op hop op hop v (Finset.mem_range.mp hv) v' (Finset.mem_range.mp hv') hhash).2]
  unfold vnode_count backend_count
  rw [← List.toFinset_card_of_nodup (after n history).ring_.nodup_entries, hpoints,
    Finset.card_image_of_injOn fun x hx y hy => hinj x hx y hy, Finset.card_product, Finset.card_range, Nat.mul_comm]

/-- A part of a history names a part of its backends. -/
theorem DistinctVnodes.mono {n : ℕ} {history history' : List Op}
    (hd : DistinctVnodes n history') (hsub : ∀ op ∈ history, op ∈ history') :
    DistinctVnodes n history :=
  fun p hp q hq => hd p (hsub p hp) q (hsub q hq)

/-- **The ring does not remember its history.** Take any two histories that end with the
same active backends, with `hash_key` injective on the vnode keys of the backends they
name. The ring holds exactly the points of its active backends; the two rings are equal;
there are `n` points for every backend; every lookup answers the same on both; and adding
an absent backend and removing it again gives the ring back. -/
theorem history_independence (n : ℕ) (history history' : List Op)
    (hinj : Set.InjOn hash_key (vnodeKeys n (history ++ history')))
    (hact : (after n history).active_backends_ = (after n history').active_backends_) :
    (∀ k o, (after n history).ring_.At k o
      ↔ o ∈ (after n history).active_backends_ ∧ ∃ v, v < n ∧ k = hash_key (vnode_key o v))
    ∧ after n history = after n history'
    ∧ (after n history).vnode_count = n * (after n history).backend_count
    ∧ (∀ key, (after n history).get_backend key = (after n history').get_backend key)
    ∧ (∀ key excluded, (after n history).get_backend_excluding key excluded
      = (after n history').get_backend_excluding key excluded)
    ∧ ∀ b, b ∉ (after n history).active_backends_ →
      Set.InjOn hash_key (vnodeKeys n (history ++ [.add_backend b])) →
      ((after n history).add_backend b).remove_backend b = after n history := by
  have hboth := injOn_vnodeKeys_iff.mp hinj
  have hd : DistinctVnodes n history := hboth.mono fun op hop => List.mem_append_left _ hop
  have hd' : DistinctVnodes n history' := hboth.mono fun op hop => List.mem_append_right _ hop
  have hsame : after n history = after n history' :=
    (exact_after hd).eq (exact_after hd') hact
  refine ⟨(exact_after hd).2, hsame, vnode_count_after hd, ?_, ?_, ?_⟩
  · intro key
    rw [hsame]
  · intro key excluded
    rw [hsame]
  · intro b hb hinj'
    have hadded : after n (history ++ [.add_backend b]) = (after n history).add_backend b := by
      rw [after, List.foldl_append, List.foldl_cons, List.foldl_nil, ← after]
      rfl
    have hexact : Exact n ((after n history).add_backend b) := by
      rw [← hadded]
      exact exact_after (injOn_vnodeKeys_iff.mp hinj')
    refine (hexact.remove b).eq (exact_after hd) ?_
    rw [remove_backend_active, add_backend, if_neg hb, Finset.erase_insert hb]

/-- Backend `2` comes and goes, and backend `1` flaps: with two vnodes each the ring is
the one with backends `0` and `1` added once. -/
theorem history_independence_flapping :
    after 2 [.add_backend 1, .add_backend 2, .remove_backend 1, .add_backend 0,
        .remove_backend 2, .add_backend 1, .add_backend 1]
      = after 2 [.add_backend 0, .add_backend 1]
    ∧ (after 2 [.add_backend 0, .add_backend 1]).vnode_count = 4 := by
  have hall := history_independence 2
    [.add_backend 1, .add_backend 2, .remove_backend 1, .add_backend 0, .remove_backend 2,
      .add_backend 1, .add_backend 1]
    [.add_backend 0, .add_backend 1] (injOn_vnodeKeys_iff.mpr (by decide +kernel))
    (by decide +kernel)
  refine ⟨hall.2.1, ?_⟩
  rw [← hall.2.1, hall.2.2.1]
  decide +kernel

end HashRing

end AegisProxy
