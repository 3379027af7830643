/-
A sorted map read as a circle.

The map is a list of key/value pairs in strictly increasing key order -- what
iterating a balanced-tree map produces -- with the order as a field, so an
unsorted map cannot be built. Positions `0, …, length` are its iterators, the last
one being the end.

Reading it as a circle means: from a point `h`, the keys at or above `h` come
first, in order, and then the keys below `h`, in order. `Clockwise h a b` is that
order, and `first h` -- lower bound, or the beginning when there is none -- is its
least element (`first_eq_some_iff`). What a circular lookup answers is therefore a
statement about which pairs are in the map, and `first_of_grown` and
`first_of_kept` say how it moves when pairs are added or taken out.
-/
import Mathlib.Order.Defs.LinearOrder
import Mathlib.Order.Basic
import Mathlib.Order.Lattice
import Mathlib.Data.List.Pairwise

set_option autoImplicit false

/-- A map with its pairs in strictly increasing key order. -/
structure SortedMap (κ ν : Type*) [LinearOrder κ] where
  entries : List (κ × ν)
  sorted : entries.Pairwise fun a b => a.1 < b.1

namespace SortedMap

variable {κ ν : Type*} [LinearOrder κ]

/-! ## The map -/

def empty : SortedMap κ ν := ⟨[], List.Pairwise.nil⟩

/-- Put `v` at `k`, in place of what is there. -/
def insertEntry (k : κ) (v : ν) : List (κ × ν) → List (κ × ν)
  | [] => [(k, v)]
  | e :: es =>
    if k < e.1 then (k, v) :: e :: es
    else if k = e.1 then (k, v) :: es
    else e :: insertEntry k v es

theorem mem_insertEntry {k : κ} {v : ν} {es : List (κ × ν)}
    (hs : es.Pairwise fun a b => a.1 < b.1) (e : κ × ν) :
    e ∈ insertEntry k v es ↔ e = (k, v) ∨ (e.1 ≠ k ∧ e ∈ es) := by
  induction es with
  | nil => simp [insertEntry]
  | cons a es ih =>
      rw [List.pairwise_cons] at hs
      unfold insertEntry
      by_cases hlt : k < a.1
      · -- `k` is below every key that is there
        have hne : ∀ b ∈ a :: es, b.1 ≠ k := by
          intro b hb
          rcases List.mem_cons.mp hb with rfl | hb
          · exact hlt.ne'
          · exact (hlt.trans (hs.1 b hb)).ne'
        rw [if_pos hlt, List.mem_cons]
        constructor
        · rintro (h | h)
          · exact Or.inl h
          · exact Or.inr ⟨hne e h, h⟩
        · rintro (h | ⟨-, h⟩)
          · exact Or.inl h
          · exact Or.inr h
      · rw [if_neg hlt]
        by_cases heq : k = a.1
        · have hne : ∀ b ∈ es, b.1 ≠ k := by
            intro b hb
            rw [heq]
            exact (hs.1 b hb).ne'
          rw [if_pos heq, List.mem_cons, List.mem_cons]
          constructor
          · rintro (h | h)
            · exact Or.inl h
            · exact Or.inr ⟨hne e h, Or.inr h⟩
          · rintro (h | ⟨hk, rfl | h⟩)
            · exact Or.inl h
            · exact absurd heq.symm hk
            · exact Or.inr h
        · rw [if_neg heq, List.mem_cons, ih hs.2, List.mem_cons]
          constructor
          · rintro (rfl | h | ⟨hk, h⟩)
            · exact Or.inr ⟨fun h => heq h.symm, Or.inl rfl⟩
            · exact Or.inl h
            · exact Or.inr ⟨hk, Or.inr h⟩
          · rintro (h | ⟨hk, h | h⟩)
            · exact Or.inr (Or.inl h)
            · exact Or.inl h
            · exact Or.inr (Or.inr ⟨hk, h⟩)

theorem sorted_insertEntry (k : κ) (v : ν) {es : List (κ × ν)}
    (hs : es.Pairwise fun a b => a.1 < b.1) :
    (insertEntry k v es).Pairwise fun a b => a.1 < b.1 := by
  induction es with
  | nil => simp [insertEntry]
  | cons a es ih =>
      have hs' := List.pairwise_cons.mp hs
      unfold insertEntry
      by_cases hlt : k < a.1
      · rw [if_pos hlt, List.pairwise_cons]
        refine ⟨?_, hs⟩
        intro b hb
        rcases List.mem_cons.mp hb with rfl | hb
        · exact hlt
        · exact hlt.trans (hs'.1 b hb)
      · rw [if_neg hlt]
        by_cases heq : k = a.1
        · rw [if_pos heq, List.pairwise_cons]
          exact ⟨fun b hb => by rw [heq]; exact hs'.1 b hb, hs'.2⟩
        · rw [if_neg heq, List.pairwise_cons]
          refine ⟨?_, ih hs'.2⟩
          intro b hb
          rcases (mem_insertEntry hs'.2 b).mp hb with rfl | ⟨-, hb⟩
          · exact lt_of_le_of_ne (not_lt.mp hlt) (fun h => heq h.symm)
          · exact hs'.1 b hb

/-- `map[k] = v`. -/
def insert (m : SortedMap κ ν) (k : κ) (v : ν) : SortedMap κ ν :=
  ⟨insertEntry k v m.entries, sorted_insertEntry k v m.sorted⟩

/-- `map.erase(k)`. -/
def erase (m : SortedMap κ ν) (k : κ) : SortedMap κ ν :=
  ⟨m.entries.filter fun e => e.1 ≠ k, m.sorted.sublist List.filter_sublist⟩

/-- `m` has the value `v` at the key `k`. -/
def At (m : SortedMap κ ν) (k : κ) (v : ν) : Prop := (k, v) ∈ m.entries

@[simp] theorem at_empty (k : κ) (v : ν) : ¬ (empty : SortedMap κ ν).At k v := by
  simp [At, empty]

theorem at_insert {m : SortedMap κ ν} {k k' : κ} {v v' : ν} :
    (m.insert k v).At k' v' ↔ (k' = k ∧ v' = v) ∨ (k' ≠ k ∧ m.At k' v') := by
  rw [At, insert, mem_insertEntry m.sorted, Prod.mk.injEq, At]

theorem at_erase {m : SortedMap κ ν} {k k' : κ} {v' : ν} :
    (m.erase k).At k' v' ↔ k' ≠ k ∧ m.At k' v' := by
  simp only [At, erase, List.mem_filter, decide_eq_true_eq]
  exact and_comm

/-- A loop that puts `v` at `f i` for every `i` of a list leaves `v` at each of these
keys and the other keys as they were. -/
theorem at_foldl_insert {ι : Type*} (f : ι → κ) (v : ν) {is : List ι} {m : SortedMap κ ν} {k : κ}
    {v' : ν} :
    (is.foldl (fun m i => m.insert (f i) v) m).At k v'
      ↔ (v' = v ∧ ∃ i ∈ is, k = f i) ∨ ((∀ i ∈ is, k ≠ f i) ∧ m.At k v') := by
  induction is generalizing m with
  | nil => simp
  | cons i is ih =>
      rw [List.foldl_cons, ih, at_insert]
      simp only [List.mem_cons, exists_eq_or_imp, forall_eq_or_imp]
      constructor
      · rintro (⟨hv, hrest⟩ | ⟨hrest, ⟨hk, hv⟩ | ⟨hk, hat⟩⟩)
        · exact Or.inl ⟨hv, Or.inr hrest⟩
        · exact Or.inl ⟨hv, Or.inl hk⟩
        · exact Or.inr ⟨⟨hk, hrest⟩, hat⟩
      · rintro (⟨hv, hk | hrest⟩ | ⟨⟨hk, hrest⟩, hat⟩)
        · -- a later turn of the loop may hit `f i` again, with the same value
          by_cases hagain : ∃ j, j ∈ is ∧ k = f j
          · exact Or.inl ⟨hv, hagain⟩
          · exact Or.inr ⟨fun j hj he => hagain ⟨j, hj, he⟩, Or.inl ⟨hk, hv⟩⟩
        · exact Or.inl ⟨hv, hrest⟩
        · exact Or.inr ⟨hrest, Or.inr ⟨hk, hat⟩⟩

/-- A loop that erases `f i` for every `i` of a list leaves the pairs at the other
keys. -/
theorem at_foldl_erase {ι : Type*} (f : ι → κ) {is : List ι} {m : SortedMap κ ν} {k : κ}
    {v' : ν} :
    (is.foldl (fun m i => m.erase (f i)) m).At k v' ↔ (∀ i ∈ is, k ≠ f i) ∧ m.At k v' := by
  induction is generalizing m with
  | nil => simp
  | cons i is ih =>
      rw [List.foldl_cons, ih, at_erase]
      simp only [List.mem_cons, forall_eq_or_imp]
      constructor
      · rintro ⟨hrest, hk, hat⟩
        exact ⟨⟨hk, hrest⟩, hat⟩
      · rintro ⟨⟨hk, hrest⟩, hat⟩
        exact ⟨hrest, hk, hat⟩

/-- Positions are ordered as their keys are. -/
theorem key_lt {m : SortedMap κ ν} {i j : ℕ} (hij : i < j) (hj : j < m.entries.length) :
    (m.entries.get ⟨i, by omega⟩).1 < (m.entries.get ⟨j, hj⟩).1 :=
  List.pairwise_iff_getElem.mp m.sorted i j (by omega) hj hij

/-- A key has at most one value. -/
theorem at_unique {m : SortedMap κ ν} {k : κ} {v v' : ν} (h : m.At k v) (h' : m.At k v') :
    v = v' := by
  obtain ⟨i, hi, he⟩ := List.getElem_of_mem h
  obtain ⟨j, hj, he'⟩ := List.getElem_of_mem h'
  rcases Nat.lt_trichotomy i j with hlt | rfl | hlt
  · have := key_lt hlt hj
    simp only [List.get_eq_getElem, he, he'] at this
    exact absurd this (lt_irrefl k)
  · rw [he, Prod.mk.injEq] at he'
    exact he'.2
  · have := key_lt hlt hi
    simp only [List.get_eq_getElem, he, he'] at this
    exact absurd this (lt_irrefl k)

/-! ## The circle -/

/-- Going clockwise from `h`, key `a` is met no later than key `b`: the keys at or
above `h` come before those below it, and each part is in order. -/
def Clockwise (h a b : κ) : Prop := if h ≤ a then h ≤ b → a ≤ b else b < h ∧ a ≤ b

theorem clockwise_refl (h a : κ) : Clockwise h a a := by
  unfold Clockwise
  by_cases ha : h ≤ a
  · rw [if_pos ha]
    exact fun _ => le_rfl
  · rw [if_neg ha]
    exact ⟨not_le.mp ha, le_rfl⟩

theorem clockwise_antisymm {h a b : κ} (hab : Clockwise h a b) (hba : Clockwise h b a) :
    a = b := by
  unfold Clockwise at hab hba
  by_cases ha : h ≤ a <;> by_cases hb : h ≤ b
  · rw [if_pos ha] at hab
    rw [if_pos hb] at hba
    exact le_antisymm (hab hb) (hba ha)
  · rw [if_neg hb] at hba
    exact absurd hba.1 (not_lt.mpr ha)
  · rw [if_neg ha] at hab
    exact absurd hab.1 (not_lt.mpr hb)
  · rw [if_neg ha] at hab
    rw [if_neg hb] at hba
    exact le_antisymm hab.2 hba.2

/-- `map.lower_bound(h)` as a position: the first key at or above `h`, or the
end. -/
def lowerBound (m : SortedMap κ ν) (h : κ) : ℕ := m.entries.findIdx fun e => decide (h ≤ e.1)

/-- Where a circular walk from `h` starts: the lower bound, or the beginning when
that is the end. -/
def start (m : SortedMap κ ν) (h : κ) : ℕ :=
  if m.lowerBound h = m.entries.length then 0 else m.lowerBound h

/-- The pair a circular lookup from `h` finds. -/
def first (m : SortedMap κ ν) (h : κ) : Option (κ × ν) := m.entries[m.start h]?

theorem start_lt {m : SortedMap κ ν} (hne : m.entries ≠ []) (h : κ) :
    m.start h < m.entries.length := by
  have hpos := List.length_pos_iff.mpr hne
  have hle : m.lowerBound h ≤ m.entries.length := List.findIdx_le_length
  unfold start
  by_cases heq : m.lowerBound h = m.entries.length
  · rw [if_pos heq]; exact hpos
  · rw [if_neg heq]; omega

/-- Positions before the lower bound hold keys below `h`. -/
theorem key_lt_of_lt_lowerBound {m : SortedMap κ ν} {h : κ} {i : ℕ} (hi : i < m.lowerBound h)
    (hlt : i < m.entries.length) : (m.entries.get ⟨i, hlt⟩).1 < h := by
  have hidx : i < m.entries.findIdx (fun e => decide (h ≤ e.1)) := hi
  have hnot := List.not_of_lt_findIdx hidx
  simpa using hnot

/-- The pair at the start comes first clockwise. -/
theorem start_clockwise {m : SortedMap κ ν} {h : κ} (hlt : m.start h < m.entries.length)
    {q : κ × ν} (hq : q ∈ m.entries) :
    Clockwise h (m.entries.get ⟨m.start h, hlt⟩).1 q.1 := by
  obtain ⟨j, hj, rfl⟩ := List.getElem_of_mem hq
  unfold Clockwise
  by_cases hend : m.lowerBound h = m.entries.length
  · -- every key is below `h`, and the walk starts at the least of them
    have hall : ∀ i (hi : i < m.entries.length), (m.entries.get ⟨i, hi⟩).1 < h := by
      intro i hi
      exact key_lt_of_lt_lowerBound (by omega) hi
    have hstart : m.start h = 0 := by rw [start, if_pos hend]
    rw [if_neg (not_le.mpr (hall _ hlt))]
    refine ⟨hall j hj, ?_⟩
    rcases Nat.lt_or_ge (m.start h) j with hlt' | hge
    · exact (key_lt hlt' hj).le
    · obtain rfl : j = m.start h := by omega
      exact le_rfl
  · have hstart : m.start h = m.lowerBound h := by rw [start, if_neg hend]
    have hge : h ≤ (m.entries.get ⟨m.start h, hlt⟩).1 := by
      have hlb : m.lowerBound h < m.entries.length := by rw [← hstart]; exact hlt
      have hfound := of_decide_eq_true (List.findIdx_getElem (w := hlb))
      simp only [hstart]
      exact hfound
    rw [if_pos hge]
    intro hhj
    rcases Nat.lt_trichotomy (m.start h) j with hlt' | rfl | hgt
    · exact (key_lt hlt' hj).le
    · exact le_rfl
    · have hbelow : (m.entries.get ⟨j, hj⟩).1 < h := key_lt_of_lt_lowerBound (by omega) hj
      exact absurd hhj (not_le.mpr hbelow)

/-- **The circular lookup.** `first h` is the pair that comes first clockwise from
`h`. -/
theorem first_eq_some_iff {m : SortedMap κ ν} {h k : κ} {v : ν} :
    m.first h = some (k, v) ↔ m.At k v ∧ ∀ k' v', m.At k' v' → Clockwise h k k' := by
  constructor
  · intro hf
    obtain ⟨hlt, he⟩ := List.getElem?_eq_some_iff.mp hf
    refine ⟨?_, ?_⟩
    · rw [At, ← he]
      exact List.getElem_mem hlt
    · intro k' v' h'
      have hcw := start_clockwise hlt h'
      simpa [he] using hcw
  · rintro ⟨hat, hmin⟩
    have hlt := start_lt (m := m) (List.ne_nil_of_mem hat) h
    -- both pairs come first, so they have one key, and so one value
    have hmem : m.At (m.entries.get ⟨m.start h, hlt⟩).1 (m.entries.get ⟨m.start h, hlt⟩).2 :=
      List.getElem_mem hlt
    have hkey := clockwise_antisymm (hmin _ _ hmem) (start_clockwise hlt hat)
    rw [first, List.getElem?_eq_some_iff]
    refine ⟨hlt, Prod.ext hkey.symm ?_⟩
    rw [← hkey] at hmem
    exact at_unique hmem hat

theorem first_eq_none_iff {m : SortedMap κ ν} {h : κ} :
    m.first h = none ↔ ∀ k v, ¬ m.At k v := by
  constructor
  · intro hf k v hat
    have hlt := start_lt (m := m) (List.ne_nil_of_mem hat) h
    rw [first, List.getElem?_eq_none_iff] at hf
    omega
  · intro hno
    have hnil : m.entries = [] := List.eq_nil_iff_forall_not_mem.mpr (fun e => hno e.1 e.2)
    simp [first, hnil]

/-! ## Growing and shrinking -/

/-- If every key is kept and every pair that is new or changed has the value `b`,
a lookup finds what it found before, or `b`. -/
theorem first_of_grown {m m' : SortedMap κ ν} {b : ν}
    (hkeys : ∀ k v, m.At k v → ∃ v', m'.At k v')
    (hpairs : ∀ k v, m'.At k v → v = b ∨ m.At k v) (h : κ) :
    (m'.first h).map Prod.snd = (m.first h).map Prod.snd
      ∨ (m'.first h).map Prod.snd = some b := by
  cases hf : m'.first h with
  | none =>
      -- nothing now, so nothing before
      have hnone : m.first h = none := by
        rw [first_eq_none_iff] at hf ⊢
        intro k v hat
        obtain ⟨v', hat'⟩ := hkeys k v hat
        exact hf k v' hat'
      rw [hnone]
      exact Or.inl rfl
  | some p =>
      obtain ⟨hat, hmin⟩ := first_eq_some_iff.mp hf
      rcases hpairs p.1 p.2 hat with hb | hold
      · exact Or.inr (by rw [Option.map_some, hb])
      · refine Or.inl ?_
        have hfirst : m.first h = some (p.1, p.2) := by
          refine first_eq_some_iff.mpr ⟨hold, ?_⟩
          intro k' v' h'
          obtain ⟨v'', h''⟩ := hkeys k' v' h'
          exact hmin k' v'' h''
        rw [hfirst]

/-- If pairs are only taken out, a lookup whose pair stayed finds it again. -/
theorem first_of_kept {m m' : SortedMap κ ν} (hsub : ∀ k v, m'.At k v → m.At k v)
    {h k : κ} {v : ν} (hf : m.first h = some (k, v)) (hkept : m'.At k v) :
    m'.first h = some (k, v) := by
  obtain ⟨-, hmin⟩ := first_eq_some_iff.mp hf
  exact first_eq_some_iff.mpr ⟨hkept, fun k' v' h' => hmin k' v' (hsub k' v' h')⟩

end SortedMap
