/-
Text: literals, and decimal numerals written and read.

A `std::string` is a list of bytes, and so is a literal of the source (`ascii`). The keys of
the ring and what the process writes about itself -- status lines, metrics, log lines -- have
numbers in them: `std::to_string` of a size or an index, and `oss << n` of an unsigned counter
or a signed gauge. A peer reads them back digit by digit. Written and read they are the same
number (`read_nat_to_string`, `read_int_int_to_string`), and a numeral has no byte in it but
digits and the sign, which is what keeps it apart from what stands around it.
-/
import AegisProxy.HashKey

set_option autoImplicit false

namespace AegisProxy

/-- An ASCII literal of the source, as bytes. -/
def ascii (s : String) : Bytes := s.toUTF8.data.toList

/-- `std::to_string` of an unsigned number: its decimal digits in ASCII. -/
def to_string (n : ℕ) : Bytes := (Nat.toDigits 10 n).map fun c => UInt8.ofNat c.toNat

/-! ## Digits -/

/-- The digits `to_string` writes are those of the decimal system, in ASCII. -/
theorem digit_range {n : ℕ} {c : Char} (hc : c ∈ Nat.toDigits 10 n) :
    48 ≤ c.toNat ∧ c.toNat ≤ 57 := by
  have hdigit := Nat.isDigit_of_mem_toDigits (by omega) (by omega) hc
  simp only [Char.isDigit, Bool.and_eq_true, decide_eq_true_eq] at hdigit
  exact ⟨hdigit.1, hdigit.2⟩

theorem digit_toNat {n : ℕ} {c : Char} (hc : c ∈ Nat.toDigits 10 n) :
    (UInt8.ofNat c.toNat).toNat = c.toNat := by
  have hrange := digit_range hc
  rw [UInt8.toNat_ofNat', Nat.mod_eq_of_lt (by omega)]

theorem to_string_injective : Function.Injective to_string := by
  have hread : ∀ n, (to_string n).map (fun u => Char.ofNat u.toNat) = Nat.toDigits 10 n := by
    intro n
    unfold to_string
    rw [List.map_map]
    refine (List.map_congr_left ?_).trans (List.map_id _)
    intro c hc
    simp only [Function.comp_apply, id_eq]
    rw [digit_toNat hc, Char.ofNat_toNat]
  intro n m h
  have hdigits : Nat.toDigits 10 n = Nat.toDigits 10 m := by rw [← hread, ← hread, h]
  rw [← Nat.ofDigitChars_ten_toDigits (n := n), hdigits, Nat.ofDigitChars_ten_toDigits]

/-- An ASCII digit. -/
def isDigit (c : UInt8) : Bool := 48 ≤ c.toNat ∧ c.toNat ≤ 57

/-- The number a row of digits stands for. -/
def digitsValue (l : Bytes) : ℕ := l.foldl (fun n c => 10 * n + (c.toNat - 48)) 0

/-- Every byte `to_string` writes is a digit. -/
theorem isDigit_of_mem_to_string {n : ℕ} {c : UInt8} (h : c ∈ to_string n) : isDigit c = true := by
  obtain ⟨d, hd, rfl⟩ := List.mem_map.mp h
  have hrange := digit_range hd
  rw [isDigit, digit_toNat hd]
  exact decide_eq_true hrange

theorem to_string_ne_nil (n : ℕ) : to_string n ≠ [] := by
  unfold to_string
  rw [ne_eq, List.map_eq_nil_iff]
  exact Nat.toDigits_ne_nil

/-- A byte that is no digit is not in a numeral. -/
theorem not_mem_to_string {c : UInt8} (n : ℕ) (h : isDigit c = false) : c ∉ to_string n := by
  intro hmem
  rw [isDigit_of_mem_to_string hmem] at h
  cases h

/-- The digits `to_string` writes stand for the number. -/
theorem digitsValue_to_string (n : ℕ) : digitsValue (to_string n) = n := by
  have hfold : ∀ (l : List Char) (k : ℕ), (∀ c ∈ l, (UInt8.ofNat c.toNat).toNat = c.toNat) →
      (l.map fun c => UInt8.ofNat c.toNat).foldl (fun n c => 10 * n + (c.toNat - 48)) k
        = Nat.ofDigitChars 10 l k := by
    intro l
    induction l with
    | nil => simp [Nat.ofDigitChars]
    | cons c l ih =>
        intro k hl
        have hc := hl c List.mem_cons_self
        rw [List.map_cons, List.foldl_cons, hc, Nat.ofDigitChars_cons]
        exact ih _ fun c' hc' => hl c' (List.mem_cons_of_mem c hc')
  unfold digitsValue to_string
  rw [hfold _ 0 fun c hc => digit_toNat hc, Nat.ofDigitChars_ten_toDigits]

/-! ## Reading a numeral -/

/-- One digit at least, and nothing but digits. -/
def read_nat (l : Bytes) : Option ℕ :=
  if l ≠ [] ∧ l.all isDigit = true then some (digitsValue l) else none

/-- **An unsigned number reads back.** -/
theorem read_nat_to_string (n : ℕ) : read_nat (to_string n) = some n := by
  have hdigits : (to_string n).all isDigit = true :=
    List.all_eq_true.mpr fun c hc => isDigit_of_mem_to_string hc
  rw [read_nat, if_pos ⟨to_string_ne_nil n, hdigits⟩, digitsValue_to_string]

/-- `oss << n` of an `int`. -/
def int_to_string (n : ℤ) : Bytes :=
  if n < 0 then 45 :: to_string n.natAbs else to_string n.natAbs

/-- A numeral with or without a minus sign. -/
def read_int (l : Bytes) : Option ℤ :=
  if l.head? = some 45 then (read_nat l.tail).map fun n : ℕ => -(n : ℤ)
  else (read_nat l).map fun n : ℕ => (n : ℤ)

/-- **A signed number reads back.** -/
theorem read_int_int_to_string (n : ℤ) : read_int (int_to_string n) = some n := by
  unfold int_to_string
  by_cases hneg : n < 0
  · rw [if_pos hneg, read_int, List.head?_cons, if_pos rfl, List.tail_cons, read_nat_to_string,
      Option.map_some, Option.some.injEq]
    omega
  · -- the first byte is a digit, so it is not the sign
    have hhead : (to_string n.natAbs).head? ≠ some 45 := by
      intro hhead
      have hmem : (45 : UInt8) ∈ to_string n.natAbs := List.mem_of_head? hhead
      exact not_mem_to_string n.natAbs (by decide) hmem
    rw [if_neg hneg, read_int, if_neg hhead, read_nat_to_string, Option.map_some,
      Option.some.injEq]
    omega

theorem int_to_string_natCast (n : ℕ) : int_to_string n = to_string n := by
  rw [int_to_string, if_neg (by omega), Int.natAbs_natCast]

/-- A byte that is neither a digit nor the sign is not in a signed numeral. -/
theorem not_mem_int_to_string {c : UInt8} (n : ℤ) (h : isDigit c = false) (hsign : c ≠ 45) :
    c ∉ int_to_string n := by
  unfold int_to_string
  split
  · rw [List.mem_cons, not_or]
    exact ⟨hsign, not_mem_to_string _ h⟩
  · exact not_mem_to_string _ h

end AegisProxy
