import Mathlib

/-!
# Bounded counters

Unsigned machine words are modelled by natural numbers, and the operations that can leave the
range of the word say so.
-/

namespace Nixe

/-- One past the largest 64-bit word. -/
def wordBound : Nat := 2 ^ 64

/-- `u64::MAX`. -/
def wordMax : Nat := 2 ^ 64 - 1

/-- `u64::saturating_add`. -/
def saturatingAdd (a b : Nat) : Nat := min (a + b) wordMax

/-- `u64::checked_add`. -/
def checkedAdd (a b : Nat) : Option Nat := if a + b < wordBound then some (a + b) else none

/-- `u64::checked_sub`. -/
def checkedSub (a b : Nat) : Option Nat := if b ≤ a then some (a - b) else none

/-- `u64::checked_mul`. -/
def checkedMul (a b : Nat) : Option Nat := if a * b < wordBound then some (a * b) else none

/-- `u64::is_power_of_two`. -/
def isPowerOfTwo (a : Nat) : Bool := 2 ^ a.log2 == a

/-- `u64 as i64`. -/
def toI64 (w : UInt64) : Int := w.toInt64.toInt

/-- `u64 as u32`. -/
def toU32 (w : UInt64) : Nat := w.toUInt32.toNat

variable {a b : Nat}

@[simp] theorem checkedAdd_eq_some_iff {c : Nat} :
    checkedAdd a b = some c ↔ a + b < wordBound ∧ a + b = c := by
  simp [checkedAdd]

@[simp] theorem checkedAdd_eq_none_iff : checkedAdd a b = none ↔ wordBound ≤ a + b := by
  simp [checkedAdd]

@[simp] theorem checkedSub_eq_some_iff {c : Nat} : checkedSub a b = some c ↔ b ≤ a ∧ a - b = c := by
  simp [checkedSub]

@[simp] theorem checkedSub_eq_none_iff : checkedSub a b = none ↔ a < b := by
  simp [checkedSub]

@[simp] theorem checkedMul_eq_some_iff {c : Nat} :
    checkedMul a b = some c ↔ a * b < wordBound ∧ a * b = c := by
  simp [checkedMul]

theorem isPowerOfTwo_iff : isPowerOfTwo a = true ↔ ∃ k, a = 2 ^ k := by
  rw [isPowerOfTwo, beq_iff_eq]
  constructor
  · intro h
    exact ⟨a.log2, h.symm⟩
  · rintro ⟨k, rfl⟩
    rw [Nat.log2_two_pow]

theorem pos_of_isPowerOfTwo (h : isPowerOfTwo a = true) : 0 < a := by
  obtain ⟨k, rfl⟩ := isPowerOfTwo_iff.mp h
  exact Nat.two_pow_pos k

end Nixe
