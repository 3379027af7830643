/-
The token bucket, as mathematics: a level that refills at rate `r`, is clamped at
`c`, and pays one token for every call it grants, over any ordered field.

The incremental rule and the window rule are two descriptions of one thing.
`level` is the incremental rule -- what an implementation stores and updates.
`le_level_iff` is the window rule: the level before call `j` is the minimum, over
all `i ≤ j`, of what the window from call `i` to call `j` still allows. Nothing is
assumed of the rate, the capacity or the order of the times there; the two
corollaries about windows of a given length need the times in order.

Calls are numbered from `0` and `t j` is the time of call `j`.
-/
import Mathlib.Algebra.Order.Field.Basic
import Mathlib.Data.Finset.Card
import Mathlib.Data.Finset.Max
import Mathlib.Order.Interval.Finset.Nat
import Mathlib.Tactic.Linarith
import Mathlib.Tactic.Ring

set_option autoImplicit false

namespace TokenBucket

variable {K : Type*} [Field K] [LinearOrder K]
variable (r c : K) (t : ℕ → K)

/-! ## The incremental rule -/

/-- What a call at level `x` takes: one token if there is a whole one. -/
def charge (x : K) : ℕ := if 1 ≤ x then 1 else 0

/-- The level call `j` finds after its refill. -/
def level : ℕ → K
  | 0 => c
  | j + 1 => min c (level j - charge (level j) + (t (j + 1) - t j) * r)

/-- Call `j` is granted. -/
def Granted (j : ℕ) : Prop := 1 ≤ level r c t j

instance (j : ℕ) : Decidable (Granted r c t j) := inferInstanceAs (Decidable (1 ≤ _))

/-- How many of the calls `i, …, j - 1` are granted. -/
def used (i j : ℕ) : ℕ := ((Finset.Ico i j).filter (Granted r c t)).card

/-- The level before call `j` only reads the times up to `j`. -/
theorem level_congr {t t' : ℕ → K} {j : ℕ} (h : ∀ k, k ≤ j → t k = t' k) :
    level r c t j = level r c t' j := by
  induction j with
  | zero => rfl
  | succ j ih =>
      have hlevel := ih (fun k hk => h k (by omega))
      rw [level, level, hlevel, h (j + 1) (by omega), h j (by omega)]

/-! ## The window rule -/

theorem used_self (i : ℕ) : used r c t i i = 0 := by
  simp [used]

theorem used_succ {i j : ℕ} (hij : i ≤ j) :
    used r c t i (j + 1) = used r c t i j + charge (level r c t j) := by
  unfold used charge
  have hico : Finset.Ico i (j + 1) = insert j (Finset.Ico i j) := by
    ext k
    simp only [Finset.mem_Ico, Finset.mem_insert]
    omega
  rw [hico, Finset.filter_insert]
  by_cases hg : Granted r c t j
  · have hlev : 1 ≤ level r c t j := hg
    rw [if_pos hg, if_pos hlev, Finset.card_insert_of_notMem (by simp)]
  · have hlev : ¬ 1 ≤ level r c t j := hg
    rw [if_neg hg, if_neg hlev, add_zero]

variable [IsStrictOrderedRing K]

/-- **The closed form.** A level of `x` is available to call `j` exactly when
every window that ends at `j` has room for `x` more than it has already used. -/
theorem le_level_iff (x : K) (j : ℕ) :
    x ≤ level r c t j ↔ ∀ i, i ≤ j → x + used r c t i j ≤ c + r * (t j - t i) := by
  induction j generalizing x with
  | zero =>
      constructor
      · intro h i hi
        obtain rfl : i = 0 := by omega
        rw [used_self]
        simpa [level] using h
      · intro h
        simpa [used_self, level] using h 0 le_rfl
  | succ j ih =>
      rw [level, le_min_iff]
      have hshift : x ≤ level r c t j - charge (level r c t j) + (t (j + 1) - t j) * r
          ↔ x + charge (level r c t j) - (t (j + 1) - t j) * r ≤ level r c t j := by
        constructor <;> intro h <;> linarith
      rw [hshift, ih]
      constructor
      · rintro ⟨hcap, hwin⟩ i hi
        rcases Nat.lt_or_ge i (j + 1) with hlt | hge
        · have hw := hwin i (by omega)
          rw [used_succ r c t (by omega)]
          push_cast
          linarith
        · -- the empty window at `j + 1` itself is the clamp
          obtain rfl : i = j + 1 := by omega
          rw [used_self]
          simpa using hcap
      · intro h
        refine ⟨by simpa [used_self] using h (j + 1) le_rfl, ?_⟩
        intro i hi
        have hw := h i (by omega)
        rw [used_succ r c t (by omega)] at hw
        push_cast at hw
        linarith

/-- **The token-bucket law.** Call `j` is granted exactly when every window that
ends with it has room for one more. -/
theorem granted_iff (j : ℕ) :
    Granted r c t j ↔ ∀ i, i ≤ j → (used r c t i j : K) + 1 ≤ c + r * (t j - t i) := by
  unfold Granted
  rw [le_level_iff]
  constructor <;> intro h i hi <;> linarith [h i hi]

/-! ## Windows of a given length -/

/-- The calls among the first `n` that fall in `[s, s + T]`. -/
def window (n : ℕ) (s T : K) : Finset ℕ :=
  (Finset.range n).filter fun k => s ≤ t k ∧ t k ≤ s + T

/-- **No over-admission.** At most `c + r * T` calls are granted in a window of
length `T`. -/
theorem card_granted_window_le {n : ℕ} (hr : 0 ≤ r) (hc : 0 ≤ c) {s T : K} (hT : 0 ≤ T) :
    (((window t n s T).filter (Granted r c t)).card : K) ≤ c + r * T := by
  set S := (window t n s T).filter (Granted r c t) with hS
  have hmem : ∀ k ∈ S, (s ≤ t k ∧ t k ≤ s + T) ∧ Granted r c t k := by
    intro k hk
    simp only [hS, window, Finset.mem_filter] at hk
    exact ⟨hk.1.2, hk.2⟩
  rcases S.eq_empty_or_nonempty with hempty | hne
  · rw [hempty]
    simpa using add_nonneg hc (mul_nonneg hr hT)
  · -- everything granted in the window lies between its first and its last call
    have hsub : S ⊆ insert (S.max' hne)
        ((Finset.Ico (S.min' hne) (S.max' hne)).filter (Granted r c t)) := by
      intro k hk
      have hlo := S.min'_le k hk
      have hhi := S.le_max' k hk
      rw [Finset.mem_insert, Finset.mem_filter, Finset.mem_Ico]
      rcases Nat.lt_or_ge k (S.max' hne) with hlt | hge
      · exact Or.inr ⟨⟨hlo, hlt⟩, (hmem k hk).2⟩
      · exact Or.inl (by omega)
    have hcard : S.card ≤ used r c t (S.min' hne) (S.max' hne) + 1 :=
      (Finset.card_le_card hsub).trans (Finset.card_insert_le _ _)
    obtain ⟨⟨hlo, -⟩, -⟩ := hmem _ (S.min'_mem hne)
    obtain ⟨⟨-, hhi⟩, hlast⟩ := hmem _ (S.max'_mem hne)
    have hlaw := (granted_iff r c t _).mp hlast (S.min' hne) (S.min'_le_max' hne)
    have hspan : r * (t (S.max' hne) - t (S.min' hne)) ≤ r * T :=
      mul_le_mul_of_nonneg_left (by linarith) hr
    have hcast : (S.card : K) ≤ (used r c t (S.min' hne) (S.max' hne) : K) + 1 := by
      exact_mod_cast hcard
    linarith

/-- **No over-throttling.** If no window of the first `n` calls holds more than
`c + r * T` calls, all of them are granted. -/
theorem granted_of_card_window_le {n : ℕ} (hmono : ∀ i j, i ≤ j → j < n → t i ≤ t j)
    (hwin : ∀ s T : K, 0 ≤ T → ((window t n s T).card : K) ≤ c + r * T)
    {j : ℕ} (hj : j < n) : Granted r c t j := by
  rw [granted_iff]
  intro i hi
  have hfit := hwin (t i) (t j - t i) (by linarith [hmono i j hi hj])
  -- the window from `t i` to `t j` holds at least the calls `i, …, j`
  have hsub : Finset.Ico i (j + 1) ⊆ window t n (t i) (t j - t i) := by
    intro k hk
    rw [Finset.mem_Ico] at hk
    simp only [window, Finset.mem_filter, Finset.mem_range]
    refine ⟨by omega, hmono i k hk.1 (by omega), ?_⟩
    have := hmono k j (by omega) hj
    linarith
  have hcount : used r c t i j + 1 ≤ (window t n (t i) (t j - t i)).card := by
    have hused : used r c t i j ≤ j - i := by
      have h := Finset.card_filter_le (Finset.Ico i j) (Granted r c t)
      rwa [Nat.card_Ico] at h
    have hle := Finset.card_le_card hsub
    rw [Nat.card_Ico] at hle
    omega
  have hcast : (used r c t i j : K) + 1 ≤ ((window t n (t i) (t j - t i)).card : K) := by
    exact_mod_cast hcount
  linarith

end TokenBucket
