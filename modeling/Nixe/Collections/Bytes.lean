import Mathlib

/-!
# Byte contents

A region of memory is a function from offsets to bytes, together with a size that bounds the
offsets in use. Copying out of a region gives a list (`slice`), and copying a list into it gives
another region (`overwrite`). Numbers are stored in little-endian order.
-/

namespace Nixe

section

variable {α : Type}

/-- The `count` elements from `offset` on. -/
def slice (contents : Nat → α) (offset count : Nat) : List α :=
  (List.range count).map fun i ↦ contents (offset + i)

/-- The region after `elements` were copied to `offset`. -/
def overwrite (contents : Nat → α) (offset : Nat) (elements : List α) : Nat → α := fun i ↦
  if offset ≤ i then elements[i - offset]?.getD (contents i) else contents i

variable {contents : Nat → α} {offset : Nat} {elements : List α} {i : Nat}

@[simp] theorem length_slice (count : Nat) : (slice contents offset count).length = count := by
  simp [slice]

theorem overwrite_of_lt (h : i < offset) : overwrite contents offset elements i = contents i :=
  if_neg (Nat.not_le.mpr h)

theorem overwrite_of_le (h : offset + elements.length ≤ i) :
    overwrite contents offset elements i = contents i := by
  rw [overwrite, if_pos (by omega), List.getElem?_eq_none (by omega), Option.getD_none]

theorem overwrite_of_mem (h : offset ≤ i) (h' : i - offset < elements.length) :
    overwrite contents offset elements i = elements[i - offset] := by
  rw [overwrite, if_pos h, List.getElem?_eq_getElem h', Option.getD_some]

@[simp] theorem overwrite_nil : overwrite contents offset [] = contents := by
  funext i
  simp [overwrite]

/-- A copy over an earlier one at the same offset that is no longer. -/
theorem overwrite_overwrite_of_length_le {elements' : List α}
    (h : elements.length ≤ elements'.length) :
    overwrite (overwrite contents offset elements) offset elements' =
      overwrite contents offset elements' := by
  funext i
  by_cases hlt : i < offset
  · rw [overwrite_of_lt hlt, overwrite_of_lt hlt, overwrite_of_lt hlt]
  · by_cases hmem : i - offset < elements'.length
    · rw [overwrite_of_mem (by omega) hmem, overwrite_of_mem (by omega) hmem]
    · rw [overwrite_of_le (by omega), overwrite_of_le (by omega), overwrite_of_le (by omega)]

/-- A copy of the first `count` elements of a region to one that agrees with it from there on. -/
theorem overwrite_slice {contents' : Nat → α} {count : Nat}
    (h : ∀ i, count ≤ i → contents' i = contents i) :
    overwrite contents 0 (slice contents' 0 count) = contents' := by
  funext i
  by_cases hi : i < count
  · have hlt : i - 0 < (slice contents' 0 count).length := by simpa using hi
    rw [overwrite_of_mem (Nat.zero_le i) hlt]
    simp [slice]
  · rw [overwrite_of_le (by simpa using Nat.not_lt.mp hi), h i (Nat.not_lt.mp hi)]

end

/-! ## Little-endian numbers -/

/-- The number with the given little-endian bytes. -/
def fromLittleEndian : List UInt8 → Nat
  | [] => 0
  | byte :: bytes => byte.toNat + 256 * fromLittleEndian bytes

/-- The `size` low bytes of a number, in little-endian order. -/
def toLittleEndian : Nat → Nat → List UInt8
  | 0, _ => []
  | size + 1, value => UInt8.ofNat value :: toLittleEndian size (value / 256)

@[simp] theorem length_toLittleEndian (size value : Nat) :
    (toLittleEndian size value).length = size := by
  induction size generalizing value with
  | zero => rfl
  | succ size ih => rw [toLittleEndian, List.length_cons, ih]

/-- Storing the bytes of a number and reading them back truncates it. -/
theorem fromLittleEndian_toLittleEndian (size value : Nat) :
    fromLittleEndian (toLittleEndian size value) = value % 256 ^ size := by
  induction size generalizing value with
  | zero => simp [toLittleEndian, fromLittleEndian, Nat.mod_one]
  | succ size ih =>
    have hbyte : (UInt8.ofNat value).toNat = value % 256 := UInt8.toNat_ofNat'
    rw [toLittleEndian, fromLittleEndian, ih, hbyte, Nat.pow_succ', Nat.mod_mul]

end Nixe
