/-
Byte strings and the 64-bit hash both `hash_ring.cpp` and `rate_limiter.cpp`
carry a copy of: FNV-1a followed by an xor-shift/multiply finalizer.

A `std::string` is a list of bytes, `uint64_t` is `UInt64`, whose operations wrap
as the source's do. `UInt64` has an order in the library but no `LinearOrder`
instance; the ring's `std::map` is sorted by it, so the instance is here.

Nothing in the hash loses information except the length of the key: a byte step and
the finalizer are bijections of the 64-bit state (`fnv1a_step_bijective`,
`avalanche_bijective`), because the three multipliers are odd. So the hash has exactly
FNV-1a's collisions, and equal suffixes cancel.
-/
import AegisProxy.Lib.WordMix
import Mathlib.Order.Defs.LinearOrder
import Mathlib.Data.Nat.Digits.Defs

set_option autoImplicit false

namespace AegisProxy

/-- A `std::string`. -/
abbrev Bytes := List UInt8

/-- `uint64_t` in its numeric order. -/
instance instLinearOrderUInt64 : LinearOrder UInt64 where
  le_refl a := UInt64.le_refl a
  le_trans _ _ _ := UInt64.le_trans
  le_antisymm _ _ := UInt64.le_antisymm
  le_total a b := UInt64.le_total a b
  lt_iff_le_not_ge a b := by
    rw [UInt64.lt_iff_toNat_lt, UInt64.le_iff_toNat_le, UInt64.le_iff_toNat_le]
    omega
  toDecidableLE := inferInstance

/-- The FNV-1a loop: xor a byte in, multiply by the prime. -/
def fnv1a_step (hash : UInt64) (c : UInt8) : UInt64 :=
  (hash ^^^ c.toUInt64) * 1099511628211

/-- The finalizer: three xor-shifts with two multiplications between them. -/
def avalanche (hash : UInt64) : UInt64 :=
  let hash := hash ^^^ (hash >>> 33)
  let hash := hash * 0xff51afd7ed558ccd
  let hash := hash ^^^ (hash >>> 33)
  let hash := hash * 0xc4ceb9fe1a85ec53
  hash ^^^ (hash >>> 33)

/-- The body the two `hash_key` functions share. -/
def fnv1a_avalanche (key : Bytes) : UInt64 :=
  avalanche (key.foldl fnv1a_step 14695981039346656037)

/-- The 64-bit state the FNV-1a loop leaves, before the finalizer. -/
def fnv1a (key : Bytes) : UInt64 := key.foldl fnv1a_step 14695981039346656037

/-! ## Both stages are bijections -/

/-- The FNV prime is odd, so multiplying by it loses nothing; the second factor is its
inverse. -/
theorem mul_prime_bijective : Function.Bijective (· * 1099511628211#64) := by
  have hinv : 1099511628211#64 * 0xce965057aff6957b#64 = 1#64 := by decide
  exact WordMix.mul_bijective hinv

/-- **A byte step is a bijection of the state.** -/
theorem fnv1a_step_bijective (c : UInt8) : Function.Bijective (fnv1a_step · c) := by
  refine WordMix.bijective_of_toBitVec
    (g := (· * 1099511628211#64) ∘ (· ^^^ c.toUInt64.toBitVec)) ?_ ?_
  · intro hash
    rfl
  · exact mul_prime_bijective.comp (WordMix.xor_involutive _).bijective

/-- From one state, different bytes lead to different states. -/
theorem fnv1a_step_injective (hash : UInt64) : Function.Injective (fnv1a_step hash) := by
  intro c c' h
  have hxor : hash.toBitVec ^^^ c.toUInt64.toBitVec = hash.toBitVec ^^^ c'.toUInt64.toBitVec :=
    mul_prime_bijective.1 (congrArg UInt64.toBitVec h)
  have hbyte : c.toUInt64.toBitVec = c'.toUInt64.toBitVec :=
    (BitVec.xor_right_inj hash.toBitVec).mp hxor
  exact UInt8.toUInt64_inj.mp (UInt64.toBitVec_inj.mp hbyte)

/-- **The finalizer is a bijection.** Each of its five steps is: the shift by 33 is past
half of the width, and the two multipliers have inverses. -/
theorem avalanche_bijective : Function.Bijective avalanche := by
  have hshift : Function.Bijective (WordMix.xorShift (w := 64) 33) :=
    (WordMix.xorShift_involutive (by decide)).bijective
  have hmul₁ : 0xff51afd7ed558ccd#64 * 0x4f74430c22a54005#64 = 1#64 := by decide
  have hmul₂ : 0xc4ceb9fe1a85ec53#64 * 0x9cb4b2f8129337db#64 = 1#64 := by decide
  refine WordMix.bijective_of_toBitVec
    (g := WordMix.xorShift 33 ∘ (· * 0xc4ceb9fe1a85ec53#64) ∘ WordMix.xorShift 33
      ∘ (· * 0xff51afd7ed558ccd#64) ∘ WordMix.xorShift 33) ?_ ?_
  · intro hash
    rfl
  · exact hshift.comp ((WordMix.mul_bijective hmul₂).comp
      (hshift.comp ((WordMix.mul_bijective hmul₁).comp hshift)))

/-! ## Collisions of the whole hash -/

/-- The finalizer neither adds nor hides a collision. -/
theorem fnv1a_avalanche_inj (a b : Bytes) :
    fnv1a_avalanche a = fnv1a_avalanche b ↔ fnv1a a = fnv1a b :=
  avalanche_bijective.1.eq_iff

/-- A common suffix cancels. -/
theorem fnv1a_avalanche_append_inj (a b s : Bytes) :
    fnv1a_avalanche (a ++ s) = fnv1a_avalanche (b ++ s)
      ↔ fnv1a_avalanche a = fnv1a_avalanche b := by
  rw [fnv1a_avalanche_inj, fnv1a_avalanche_inj]
  exact WordMix.foldl_append_inj (fun c => (fnv1a_step_bijective c).1) _ a b s

/-- Keys that differ in their last byte alone never collide. -/
theorem fnv1a_avalanche_concat_inj {a : Bytes} {x y : UInt8}
    (h : fnv1a_avalanche (a ++ [x]) = fnv1a_avalanche (a ++ [y])) : x = y :=
  WordMix.foldl_concat_inj fnv1a_step_injective _ a ((fnv1a_avalanche_inj _ _).mp h)

end AegisProxy
