/-
Mixing steps on fixed-width words, and hashes that are folds of such steps.

A mixer is built from steps that lose nothing: xor with a constant, multiplication by
a word that has an inverse, and `x ^^^ (x >>> k)`. The last is its own inverse once
`2 * k` is at least the width, since the two shifted copies cancel and the third has
been shifted out (`xorShift_involutive`); smaller shifts are not needed here.

A hash that folds a step over its input and finishes with a mixer then inherits what
the steps have. If every step is injective in the state, a common suffix cancels
(`foldl_append_inj`), and the finisher neither adds nor hides a collision.
-/
import Mathlib.Logic.Function.Basic
import Mathlib.Data.BitVec

set_option autoImplicit false

namespace WordMix

/-! ## Steps on words -/

/-- `x ^^^ (x >>> k)`. -/
def xorShift {w : ℕ} (k : ℕ) (x : BitVec w) : BitVec w := x ^^^ (x >>> k)

/-- Two shifts by at least half the width leave nothing. -/
theorem ushiftRight_ushiftRight_eq_zero {w k : ℕ} (hk : w ≤ k + k) (x : BitVec w) :
    x >>> k >>> k = 0#w := by
  rw [← BitVec.shiftRight_add]
  exact BitVec.ushiftRight_eq_zero hk

/-- **An xor-shift by at least half the width undoes itself.** -/
theorem xorShift_involutive {w k : ℕ} (hk : w ≤ k + k) :
    Function.Involutive (xorShift (w := w) k) := by
  intro x
  unfold xorShift
  rw [BitVec.ushiftRight_xor_distrib, ushiftRight_ushiftRight_eq_zero hk, BitVec.xor_zero,
    BitVec.xor_assoc, BitVec.xor_self, BitVec.xor_zero]

/-- Xor with a fixed word undoes itself. -/
theorem xor_involutive {w : ℕ} (c : BitVec w) : Function.Involutive (· ^^^ c) := by
  intro x
  show x ^^^ c ^^^ c = x
  rw [BitVec.xor_assoc, BitVec.xor_self, BitVec.xor_zero]

/-- Multiplication by a word with an inverse is a bijection. -/
theorem mul_bijective {w : ℕ} {a b : BitVec w} (hab : a * b = 1#w) :
    Function.Bijective (· * a) := by
  refine Function.bijective_iff_has_inverse.mpr ⟨(· * b), ?_, ?_⟩
  · intro x
    show x * a * b = x
    rw [BitVec.mul_assoc, hab, BitVec.mul_one]
  · intro x
    show x * b * a = x
    rw [BitVec.mul_assoc, BitVec.mul_comm b a, hab, BitVec.mul_one]

/-- A function on `uint64_t` values is a bijection if what it does to their bits is. -/
theorem bijective_of_toBitVec {f : UInt64 → UInt64} {g : BitVec 64 → BitVec 64}
    (h : ∀ x, (f x).toBitVec = g x.toBitVec) (hg : Function.Bijective g) :
    Function.Bijective f := by
  constructor
  · intro x y hxy
    apply UInt64.toBitVec_inj.mp
    apply hg.1
    rw [← h, ← h, hxy]
  · intro y
    obtain ⟨x, hx⟩ := hg.2 y.toBitVec
    refine ⟨UInt64.ofBitVec x, ?_⟩
    apply UInt64.toBitVec_inj.mp
    rw [h]
    exact hx

/-! ## Folds of steps -/

variable {σ α β : Type*} {step : σ → α → σ}

/-- A fold of injective steps is injective in the state it starts from. -/
theorem foldl_injective (hstep : ∀ a, Function.Injective (step · a)) (l : List α) :
    Function.Injective (l.foldl step) := by
  induction l with
  | nil => exact Function.injective_id
  | cons a l ih =>
    intro s t h
    exact hstep a (ih h)

/-- **A common suffix cancels.** -/
theorem foldl_append_inj (hstep : ∀ a, Function.Injective (step · a)) (init : σ)
    (l l' suffix : List α) :
    (l ++ suffix).foldl step init = (l' ++ suffix).foldl step init
      ↔ l.foldl step init = l'.foldl step init := by
  rw [List.foldl_append, List.foldl_append]
  exact (foldl_injective hstep suffix).eq_iff

/-- Where the step tells two letters apart in every state, so does the fold for the
last letter. -/
theorem foldl_concat_inj (hletter : ∀ s, Function.Injective (step s)) (init : σ)
    (l : List α) {a a' : α}
    (h : (l ++ [a]).foldl step init = (l ++ [a']).foldl step init) : a = a' := by
  rw [List.foldl_append, List.foldl_append] at h
  exact hletter _ h

end WordMix
