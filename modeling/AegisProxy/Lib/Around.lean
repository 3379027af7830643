/-
A sorted map walked once around, from a point on the circle.

`Lib/SortedMap.lean` has the circular lookup: the first pair clockwise from `h`. This
file has the whole walk. `around h` is the map's pairs in the order in which the walk
meets them, every pair once, and it is sorted by `Clockwise h` (`around_pairwise`). The
first pair of it that a test accepts is therefore the clockwise least of all pairs the
test accepts (`firstWhere_eq_some_iff`), so a walk that skips pairs and a lookup in a
map without these pairs find the same (`first_eq_firstWhere`), and walks of two maps meet
what the maps have in common in one order (`around_filter_congr`).

The last section is about picking from a list again and again, each time the first entry
that has not been picked before: the picks are the entries in the order of their first
occurrences (`find?_not_mem_take`, `eraseDups_map_pairwise`).
-/
import AegisProxy.Lib.SortedMap
import Mathlib.Data.List.Rotate
import Mathlib.Data.List.Nodup

set_option autoImplicit false

namespace SortedMap

variable {κ ν : Type*} [LinearOrder κ]

/-! ## A map is its pairs -/

theorem nodup_entries (m : SortedMap κ ν) : m.entries.Nodup :=
  m.sorted.imp fun hlt heq => absurd (congrArg Prod.fst heq) hlt.ne

/-- Maps with the same pairs are equal. -/
theorem ext_at {m m' : SortedMap κ ν} (h : ∀ k v, m.At k v ↔ m'.At k v) : m = m' := by
  have hperm : m.entries.Perm m'.entries :=
    (List.perm_ext_iff_of_nodup m.nodup_entries m'.nodup_entries).mpr fun e => h e.1 e.2
  have hentries : m.entries = m'.entries := by
    refine hperm.eq_of_pairwise ?_ m.sorted m'.sorted
    intro a b _ _ hab hba
    exact absurd hab (not_lt.mpr hba.le)
  cases m
  cases m'
  cases hentries
  rfl

/-! ## Once around -/

/-- The pairs in the order in which a walk around from `h` meets them. -/
def around (m : SortedMap κ ν) (h : κ) : List (κ × ν) := m.entries.rotate (m.start h)

theorem mem_around {m : SortedMap κ ν} {h k : κ} {v : ν} : (k, v) ∈ m.around h ↔ m.At k v :=
  List.mem_rotate

/-- Positions from the lower bound on hold keys at or above `h`. -/
theorem le_key_of_lowerBound_le {m : SortedMap κ ν} {h : κ} {i : ℕ} (hi : m.lowerBound h ≤ i)
    (hlt : i < m.entries.length) : h ≤ (m.entries.get ⟨i, hlt⟩).1 := by
  have hlb : m.lowerBound h < m.entries.length := by omega
  have hfound : h ≤ (m.entries.get ⟨m.lowerBound h, hlb⟩).1 :=
    of_decide_eq_true (List.findIdx_getElem (w := hlb))
  rcases Nat.lt_or_ge (m.lowerBound h) i with hlt' | hge
  · exact hfound.trans (key_lt hlt' hlt).le
  · obtain rfl : i = m.lowerBound h := by omega
    exact hfound

/-- **The walk goes clockwise.** -/
theorem around_pairwise (m : SortedMap κ ν) (h : κ) :
    (m.around h).Pairwise fun a b => Clockwise h a.1 b.1 := by
  have hle : m.lowerBound h ≤ m.entries.length := List.findIdx_le_length
  -- the keys below `h` are in order, and so are those at or above it
  have hlow : ∀ a ∈ m.entries.take (m.lowerBound h), a.1 < h := by
    intro a ha
    obtain ⟨i, hi, rfl⟩ := List.getElem_of_mem ha
    rw [List.length_take] at hi
    rw [List.getElem_take]
    exact key_lt_of_lt_lowerBound (by omega) (by omega)
  have hhigh : ∀ a ∈ m.entries.drop (m.lowerBound h), h ≤ a.1 := by
    intro a ha
    obtain ⟨i, hi, rfl⟩ := List.getElem_of_mem ha
    rw [List.length_drop] at hi
    rw [List.getElem_drop]
    exact le_key_of_lowerBound_le (by omega) (by omega)
  have hbelow : (m.entries.take (m.lowerBound h)).Pairwise fun a b => Clockwise h a.1 b.1 := by
    refine (m.sorted.sublist (List.take_sublist _ _)).imp_of_mem ?_
    intro a b ha hb hab
    rw [Clockwise, if_neg (not_le.mpr (hlow a ha))]
    exact ⟨hlow b hb, hab.le⟩
  have habove : (m.entries.drop (m.lowerBound h)).Pairwise fun a b => Clockwise h a.1 b.1 := by
    refine (m.sorted.sublist (List.drop_sublist _ _)).imp_of_mem ?_
    intro a b ha hb hab
    rw [Clockwise, if_pos (hhigh a ha)]
    exact fun _ => hab.le
  unfold around start
  by_cases hend : m.lowerBound h = m.entries.length
  · -- every key is below `h`
    rw [if_pos hend, List.rotate_zero]
    rw [hend, List.take_length] at hbelow
    exact hbelow
  · rw [if_neg hend, List.rotate_eq_drop_append_take hle, List.pairwise_append]
    refine ⟨habove, hbelow, ?_⟩
    intro a ha b hb
    rw [Clockwise, if_pos (hhigh a ha)]
    intro hhb
    exact absurd hhb (not_le.mpr (hlow b hb))

/-- The first pair around from `h` that `p` accepts. -/
def firstWhere (m : SortedMap κ ν) (h : κ) (p : κ × ν → Bool) : Option (κ × ν) :=
  (m.around h).find? p

theorem firstWhere_eq_none_iff {m : SortedMap κ ν} {h : κ} {p : κ × ν → Bool} :
    m.firstWhere h p = none ↔ ∀ k v, m.At k v → p (k, v) = false := by
  rw [firstWhere, List.find?_eq_none]
  constructor
  · intro hno k v hat
    simpa using hno (k, v) (mem_around.mpr hat)
  · intro hno e he
    simpa using hno e.1 e.2 (mem_around.mp he)

/-- **The skipping walk.** It finds the pair that comes first clockwise from `h` among
those that `p` accepts. -/
theorem firstWhere_eq_some_iff {m : SortedMap κ ν} {h k : κ} {v : ν} {p : κ × ν → Bool} :
    m.firstWhere h p = some (k, v)
      ↔ m.At k v ∧ p (k, v) = true
        ∧ ∀ k' v', m.At k' v' → p (k', v') = true → Clockwise h k k' := by
  have hleast : ∀ e, m.firstWhere h p = some e → m.At e.1 e.2 ∧ p e = true
      ∧ ∀ k' v', m.At k' v' → p (k', v') = true → Clockwise h e.1 k' := by
    intro e hf
    obtain ⟨hp, before, after, hsplit, hbefore⟩ := List.find?_eq_some_iff_append.mp hf
    refine ⟨mem_around.mp (List.mem_of_find?_eq_some hf), hp, ?_⟩
    intro k' v' hat hp'
    have hmem := mem_around (h := h).mpr hat
    have hsorted := m.around_pairwise h
    rw [hsplit] at hmem hsorted
    -- an accepted pair is not among those the walk has passed over
    rcases List.mem_append.mp hmem with hpassed | hlater
    · have hrejected := hbefore _ hpassed
      rw [hp'] at hrejected
      cases hrejected
    · rcases List.mem_cons.mp hlater with heq | hlater
      · rw [← heq]
        exact clockwise_refl h k'
      · exact List.rel_of_pairwise_cons (List.pairwise_append.mp hsorted).2.1 hlater
  constructor
  · exact hleast (k, v)
  · rintro ⟨hat, hp, hmin⟩
    cases hf : m.firstWhere h p with
    | none =>
        rw [firstWhere_eq_none_iff.mp hf k v hat] at hp
        cases hp
    | some e =>
        -- both come first, so they have one key, and so one value
        obtain ⟨hate, hpe, hmine⟩ := hleast e hf
        have hkey : e.1 = k := clockwise_antisymm (hmine k v hat hp) (hmin e.1 e.2 hate hpe)
        have hval : e.2 = v := by
          rw [hkey] at hate
          exact at_unique hate hat
        rw [← hkey, ← hval]

/-- Skipping pairs is looking up in a map without them. -/
theorem first_eq_firstWhere {m m' : SortedMap κ ν} {p : κ × ν → Bool}
    (hkeep : ∀ k v, m'.At k v ↔ m.At k v ∧ p (k, v) = true) (h : κ) :
    m'.first h = m.firstWhere h p := by
  cases hf : m.firstWhere h p with
  | none =>
      rw [firstWhere_eq_none_iff] at hf
      refine first_eq_none_iff.mpr ?_
      intro k v hat
      obtain ⟨hold, hp⟩ := (hkeep k v).mp hat
      rw [hf k v hold] at hp
      cases hp
  | some e =>
      obtain ⟨hat, hp, hmin⟩ := firstWhere_eq_some_iff.mp hf
      refine first_eq_some_iff.mpr ⟨(hkeep e.1 e.2).mpr ⟨hat, hp⟩, ?_⟩
      intro k' v' hat'
      obtain ⟨hold, hp'⟩ := (hkeep k' v').mp hat'
      exact hmin k' v' hold hp'

/-- Two walks from one point agree on what the maps have in common: they meet it in one
order. -/
theorem around_filter_congr {m m' : SortedMap κ ν} {p p' : κ × ν → Bool}
    (hsame : ∀ k v, m.At k v ∧ p (k, v) = true ↔ m'.At k v ∧ p' (k, v) = true) (h : κ) :
    (m.around h).filter p = (m'.around h).filter p' := by
  have hnodup : ∀ (m : SortedMap κ ν) (p : κ × ν → Bool), ((m.around h).filter p).Nodup :=
    fun m p => (List.nodup_rotate.mpr m.nodup_entries).filter p
  have hperm : ((m.around h).filter p).Perm ((m'.around h).filter p') := by
    refine (List.perm_ext_iff_of_nodup (hnodup m p) (hnodup m' p')).mpr ?_
    rintro ⟨k, v⟩
    rw [List.mem_filter, List.mem_filter, mem_around, mem_around]
    exact hsame k v
  refine hperm.eq_of_pairwise ?_ ((m.around_pairwise h).filter p) ((m'.around_pairwise h).filter p')
  rintro ⟨a, v⟩ ⟨b, w⟩ ha hb hab hba
  -- one key, and what is there is in the first map
  obtain rfl : a = b := clockwise_antisymm hab hba
  rw [← hperm.mem_iff] at hb
  rw [at_unique (mem_around.mp (List.mem_filter.mp ha).1) (mem_around.mp (List.mem_filter.mp hb).1)]

end SortedMap

/-! ## Picking what has not been picked -/

/-- The first occurrences among some entries are those of them that are first occurrences. -/
theorem List.eraseDups_filter {α : Type*} [DecidableEq α] (p : α → Bool) (l : List α) :
    (l.filter p).eraseDups = l.eraseDups.filter p := by
  induction hlen : l.length using Nat.strong_induction_on generalizing l with
  | _ n ih =>
      cases l with
      | nil => rfl
      | cons a l =>
          have hlt : (l.filter fun x => !x == a).length < n := by
            have hle := List.length_filter_le (fun x => !x == a) l
            rw [List.length_cons] at hlen
            omega
          have hrest := ih _ hlt (l.filter fun x => !x == a) rfl
          rw [List.eraseDups_cons, List.filter_cons, List.filter_cons]
          by_cases hp : p a = true
          · rw [if_pos hp, if_pos hp, List.eraseDups_cons, ← hrest, List.filter_filter,
              List.filter_filter]
            simp only [Bool.and_comm]
          · -- `a` is no entry of what is left
            rw [if_neg hp, if_neg hp, ← hrest, List.filter_filter]
            congr 1
            refine List.filter_congr fun x _ => ?_
            by_cases hx : x = a
            · rw [hx, Bool.eq_false_iff.mpr hp, Bool.false_and]
            · simp [hx]

/-- Passing over the first `k` distinct entries of a list, the next one found is the
distinct entry number `k`. -/
theorem List.find?_not_mem_take {α : Type*} [DecidableEq α] (l : List α) (k : ℕ) :
    l.find? (fun x => x ∉ l.eraseDups.take k) = l.eraseDups[k]? := by
  -- the induction is on the length, since `eraseDups` goes on with a filtered tail
  induction hlen : l.length using Nat.strong_induction_on generalizing l k with
  | _ n ih =>
      cases l with
      | nil => simp
      | cons a l =>
          rw [List.eraseDups_cons]
          cases k with
          | zero => simp
          | succ k =>
              have hlt : (l.filter fun x => !x == a).length < n := by
                have hle := List.length_filter_le (fun x => !x == a) l
                rw [List.length_cons] at hlen
                omega
              have hrest := ih _ hlt (l.filter fun x => !x == a) k rfl
              rw [List.getElem?_cons_succ, ← hrest, List.find?_filter]
              simp

theorem List.nodup_eraseDups {α : Type*} [DecidableEq α] (l : List α) : l.eraseDups.Nodup := by
  induction hlen : l.length using Nat.strong_induction_on generalizing l with
  | _ n ih =>
      cases l with
      | nil => simp
      | cons a l =>
          have hlt : (l.filter fun x => !x == a).length < n := by
            have hle := List.length_filter_le (fun x => !x == a) l
            rw [List.length_cons] at hlen
            omega
          rw [List.eraseDups_cons, List.nodup_cons, List.mem_eraseDups, List.mem_filter]
          refine ⟨by simp, ih _ hlt _ rfl⟩

/-- The distinct images of a sorted list come in the order of their first preimages. -/
theorem List.eraseDups_map_pairwise {α β : Type*} [DecidableEq β] {S : α → α → Prop} (f : α → β)
    (l : List α) (h : l.Pairwise S) :
    (l.map f).eraseDups.Pairwise fun b b' =>
      ∃ x ∈ l, f x = b ∧ ∀ y ∈ l, f y = b' → S x y := by
  induction hlen : l.length using Nat.strong_induction_on generalizing l with
  | _ n ih =>
      cases l with
      | nil => simp
      | cons a l =>
          have hfilter : (l.map f).filter (fun b => !b == f a)
              = (l.filter fun x => !f x == f a).map f := by
            rw [List.filter_map]
            rfl
          -- what comes after the first image is not it
          have hother : ∀ b ∈ ((l.filter fun x => !f x == f a).map f).eraseDups,
              b ≠ f a := by
            intro b hb
            rw [List.mem_eraseDups, List.mem_map] at hb
            obtain ⟨x, hx, rfl⟩ := hb
            simpa using (List.mem_filter.mp hx).2
          have hlt : (l.filter fun x => !f x == f a).length < n := by
            have hle := List.length_filter_le (fun x => !f x == f a) l
            rw [List.length_cons] at hlen
            omega
          have hrest := ih _ hlt (l.filter fun x => !f x == f a)
            ((List.pairwise_cons.mp h).2.sublist List.filter_sublist) rfl
          rw [List.map_cons, List.eraseDups_cons, hfilter, List.pairwise_cons]
          refine ⟨?_, hrest.imp_of_mem ?_⟩
          · intro b' hb'
            refine ⟨a, List.mem_cons_self .., rfl, ?_⟩
            intro y hy hfy
            rcases List.mem_cons.mp hy with rfl | hy
            · exact absurd hfy.symm (hother b' hb')
            · exact (List.pairwise_cons.mp h).1 y hy
          · rintro b b' - hb' ⟨x, hx, hfx, hleast⟩
            refine ⟨x, List.mem_cons_of_mem a (List.mem_filter.mp hx).1, hfx, ?_⟩
            intro y hy hfy
            have hne : f y ≠ f a := hfy ▸ hother b' hb'
            rcases List.mem_cons.mp hy with rfl | hy
            · exact absurd rfl hne
            · exact hleast y (List.mem_filter.mpr ⟨hy, by simpa using hne⟩) hfy
