import Nixe.Effect.Word

/-!
# Addresses and pages of a Maxwell GPU

The frontend knows a GPU by its profile, of which the address space uses the width of the virtual
addresses and the page sizes. An address is a 64-bit word; the functions below check it against the
width that they are given.
-/

namespace Nixe.Maxwell

inductive GpuVirtualAddressError where
  | invalidAddressWidth (bits : Nat)
  | addressOutOfRange (value bits : Nat)
  | arithmeticOverflow
deriving DecidableEq, Repr

def validAddressWidth (addressBits : Nat) : Bool := 0 < addressBits && addressBits ≤ 64

/-- Every word fits into 64 bits. -/
def fitsAddressWidth (value addressBits : Nat) : Bool :=
  addressBits == 64 || value < 2 ^ addressBits

namespace GpuVirtualAddress

def tryNew (value addressBits : Nat) : Except GpuVirtualAddressError Nat :=
  if validAddressWidth addressBits = false then .error (.invalidAddressWidth addressBits)
  else if fitsAddressWidth value addressBits = false then
    .error (.addressOutOfRange value addressBits)
  else .ok value

def checkedAdd (address byteOffset addressBits : Nat) : Except GpuVirtualAddressError Nat :=
  if validAddressWidth addressBits = false then .error (.invalidAddressWidth addressBits)
  else if fitsAddressWidth address addressBits = false then
    .error (.addressOutOfRange address addressBits)
  else
    match Nixe.checkedAdd address byteOffset with
    | none => .error .arithmeticOverflow
    | some value => tryNew value addressBits

end GpuVirtualAddress

/-- The part of a profile that the address space reads. The proofs are what `validate` checks, and
that the big pages which the profile offers consist of small ones. -/
structure MaxwellGpuProfile where
  addressBits : Nat
  smallPageSize : Nat
  bigPageSize : Nat
  availableBigPageSizes : Nat
  addressBits_pos : 0 < addressBits
  addressBits_le : addressBits ≤ 64
  smallPageSize_isPowerOfTwo : isPowerOfTwo smallPageSize = true
  smallPageSize_dvd : ∀ size, isPowerOfTwo size = true → availableBigPageSizes &&& size ≠ 0 →
    smallPageSize ∣ size

namespace MaxwellGpuProfile

/-- `SWITCH_1_GM20B_PROFILE`. -/
def switch1Gm20b : MaxwellGpuProfile where
  addressBits := 0x28
  smallPageSize := 0x1000
  bigPageSize := 0x20000
  availableBigPageSizes := 0x30000
  addressBits_pos := by decide
  addressBits_le := by decide
  smallPageSize_isPowerOfTwo := by decide
  smallPageSize_dvd size hsize havailable := by
    obtain ⟨k, rfl⟩ := isPowerOfTwo_iff.mp hsize
    have hbit : Nat.testBit 0x30000 k = true := by
      by_contra hbit
      rw [Nat.and_two_pow, Bool.eq_false_of_not_eq_true hbit] at havailable
      simp at havailable
    have hk : 12 ≤ k := by
      by_contra hk
      have : ∀ k < 12, Nat.testBit 0x30000 k = false := by decide
      rw [this k (by omega)] at hbit
      exact nomatch hbit
    exact pow_dvd_pow 2 hk

end MaxwellGpuProfile

variable {address bits offset value : Nat}

theorem fitsAddressWidth_iff (hword : value < wordBound) :
    fitsAddressWidth value bits = true ↔ value < 2 ^ bits := by
  simp only [fitsAddressWidth, Bool.or_eq_true, beq_iff_eq, decide_eq_true_eq]
  constructor
  · rintro (rfl | h)
    · exact hword
    · exact h
  · exact .inr

theorem GpuVirtualAddress.tryNew_eq_ok_iff (hpos : 0 < bits) (hle : bits ≤ 64)
    (hword : value < wordBound) :
    tryNew value bits = .ok address ↔ value < 2 ^ bits ∧ address = value := by
  have hwidth : validAddressWidth bits = true := by simp [validAddressWidth, hpos, hle]
  rw [tryNew, hwidth, if_neg (by simp)]
  cases hfits : fitsAddressWidth value bits with
  | true => simp [(fitsAddressWidth_iff hword).mp hfits, eq_comm]
  | false =>
    have hge : ¬value < 2 ^ bits := by
      rw [← fitsAddressWidth_iff hword, hfits]
      exact Bool.false_ne_true
    simp [hge]

end Nixe.Maxwell
