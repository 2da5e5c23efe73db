import Nixe.Effect.Fallible
import Nixe.Maxwell.AddressSpace

/-!
# The searches of the GPU address space

In an address space whose records end within a word, the searches over reservations and mappings
find what their names say. The first fit is the one that takes an argument: the candidate moves
behind whatever overlaps it, so a candidate that is returned is vacant, aligned and inside the
region.
-/

namespace Nixe.Maxwell

open Std Method Memory List

/-! ## Ends -/

theorem orError_eq_ok_iff {ε α : Type} {e : ε} {o : Option α} {a : α} :
    orError e o = .ok a ↔ o = some a := by
  cases o <;> simp [orError]

theorem endOfPages_eq {offset pages pageSize : Nat} (h : offset + pages * pageSize < wordBound) :
    endOfPages offset pages pageSize = .ok (offset + pages * pageSize) := by
  have hmul : checkedMul pages pageSize = some (pages * pageSize) :=
    checkedMul_eq_some_iff.mpr ⟨by omega, rfl⟩
  rw [endOfPages, hmul, Option.bind_some, orError_eq_ok_iff, checkedAdd_eq_some_iff]
  exact ⟨h, rfl⟩

variable {region : MaxwellVaRegion} {start stop : Nat}

theorem MaxwellVaRegion.checkedEnd_eq (h : region.stop < wordBound) :
    region.checkedEnd = .ok region.stop := endOfPages_eq h

theorem MaxwellVaReservation.checkedEnd_eq {reservation : MaxwellVaReservation}
    (h : reservation.stop < wordBound) : reservation.checkedEnd = .ok reservation.stop :=
  endOfPages_eq h

variable {mapping : MaxwellGpuMapping}

theorem MaxwellGpuMapping.checkedEnd_eq (h : mapping.stop < wordBound) :
    mapping.checkedEnd = .ok mapping.stop := by
  rw [checkedEnd, orError_eq_ok_iff, checkedAdd_eq_some_iff]
  exact ⟨h, rfl⟩

theorem MaxwellGpuMapping.meets_iff (h : mapping.stop < wordBound) :
    mapping.meets start stop = true ↔ start < mapping.stop ∧ mapping.offset < stop := by
  rw [meets, checkedEnd_eq h]
  simp

theorem MaxwellVaRegion.contains_eq (h : region.stop < wordBound) (start stop : Nat) :
    region.contains start stop = .ok (decide (region.offset ≤ start ∧ stop ≤ region.stop)) := by
  rw [contains, checkedEnd_eq h]
  by_cases hstart : region.offset ≤ start <;> simp [hstart, Except.map]

/-! ## Loops over records -/

section

variable {α : Type} {offset last : α → Nat} {checkedEnd : α → Except MaxwellAddressSpaceError Nat}
  {xs : List α}

theorem overlapsAny_eq (h : ∀ x ∈ xs, checkedEnd x = .ok (last x)) (start stop : Nat) :
    overlapsAny offset checkedEnd start stop xs =
      .ok (decide (∃ x ∈ xs, start < last x ∧ offset x < stop)) := by
  induction xs with
  | nil => simp [overlapsAny]
  | cons x xs ih =>
    obtain ⟨hx, hxs⟩ := forall_mem_cons.mp h
    rw [overlapsAny, hx, ok_bind, ih hxs]
    by_cases hover : start < last x ∧ offset x < stop
    · simp [hover]
    · rw [if_neg hover]
      simp [hover]

theorem rangesOf_eq (h : ∀ x ∈ xs, checkedEnd x = .ok (last x)) :
    rangesOf offset checkedEnd xs = .ok (xs.map fun x ↦ (offset x, last x)) := by
  induction xs with
  | nil => rfl
  | cons x xs ih =>
    obtain ⟨hx, hxs⟩ := forall_mem_cons.mp h
    rw [rangesOf, hx, ok_bind, ih hxs, ok_bind, map_cons]

end

theorem firstContaining_eq {xs : List MaxwellVaReservation} (h : ∀ x ∈ xs, x.stop < wordBound)
    (start stop : Nat) :
    MaxwellGpuAddressSpace.firstContaining start stop xs =
      .ok (xs.find? fun x ↦ decide (x.offset ≤ start ∧ stop ≤ x.stop)) := by
  induction xs with
  | nil => rfl
  | cons x xs ih =>
    obtain ⟨hx, hxs⟩ := forall_mem_cons.mp h
    rw [MaxwellGpuAddressSpace.firstContaining, ih hxs, MaxwellVaReservation.checkedEnd_eq hx,
      ok_bind]
    by_cases hstart : x.offset ≤ start
    · by_cases hstop : stop ≤ x.stop <;> simp [hstart, hstop]
    · simp [hstart]

/-! ## The first fit -/

theorem overlappingEnd_eq_none_iff {occupied : List (Nat × Nat)} :
    overlappingEnd start stop occupied = none ↔
      ∀ range ∈ occupied, ¬(start < range.2 ∧ range.1 < stop) := by
  -- Once a range was found the result is one.
  suffices h : ∀ found, occupied.foldl (fun found range ↦
      if start < range.2 ∧ range.1 < stop then some (found.elim range.2 fun last ↦ max last range.2)
      else found) found = none ↔
        found = none ∧ ∀ range ∈ occupied, ¬(start < range.2 ∧ range.1 < stop) by
    rw [overlappingEnd, h]
    simp
  induction occupied with
  | nil => simp
  | cons range occupied ih =>
    intro found
    rw [foldl_cons, ih, forall_mem_cons]
    by_cases hover : start < range.2 ∧ range.1 < stop
    · simp [hover]
    · rw [if_neg hover]
      simp only [hover, not_false_eq_true, true_and]

theorem alignUp_eq_error {value alignment : Nat} {e : MaxwellAddressSpaceError}
    (h : alignUp value alignment = .error e) :
    e = .arithmeticOverflow ∧ wordBound ≤ value + (alignment - 1) := by
  cases hadd : checkedAdd value (alignment - 1) with
  | none =>
    rw [alignUp, hadd] at h
    cases h
    exact ⟨rfl, checkedAdd_eq_none_iff.mp hadd⟩
  | some sum =>
    rw [alignUp, hadd] at h
    cases h

theorem alignUp_eq_ok {value alignment aligned : Nat} (hpow : isPowerOfTwo alignment = true)
    (h : alignUp value alignment = .ok aligned) :
    alignment ∣ aligned ∧ aligned < value + alignment := by
  obtain ⟨k, rfl⟩ := isPowerOfTwo_iff.mp hpow
  rw [alignUp, orError_eq_ok_iff, Option.map_eq_some_iff] at h
  obtain ⟨sum, hsum, rfl⟩ := h
  obtain ⟨-, rfl⟩ := checkedAdd_eq_some_iff.mp hsum
  rw [Nat.and_two_pow_sub_one_eq_mod]
  have := Nat.two_pow_pos k
  exact ⟨Nat.dvd_sub_mod _, by omega⟩

/-- Between a multiple of a power of two and the end of a word there is room for another. -/
theorem add_le_wordBound {alignment offset : Nat} (hpow : isPowerOfTwo alignment = true)
    (halignment : alignment < wordBound) (hdvd : alignment ∣ offset) (h : offset < wordBound) :
    offset + alignment ≤ wordBound := by
  obtain ⟨k, rfl⟩ := isPowerOfTwo_iff.mp hpow
  have hk : k ≤ 64 := ((Nat.pow_lt_pow_iff_right (by decide)).mp halignment).le
  exact Nat.le_of_lt_add_of_dvd (by omega) (Nat.dvd_add_self_right.mpr hdvd)
    (Nat.pow_dvd_pow 2 hk)

/-- The offset is a place for `size` bytes from the candidate on. -/
structure Fits (ranges : List (Nat × Nat)) (candidate regionEnd size alignment offset : Nat) :
    Prop where
  le : candidate ≤ offset
  stop_le : offset + size ≤ regionEnd
  dvd : alignment ∣ offset
  vacant : ∀ range ∈ ranges, ¬(offset < range.2 ∧ range.1 < offset + size)

theorem Fits.eq_of_le {ranges : List (Nat × Nat)}
    {candidate next regionEnd size alignment : Nat} (hle : candidate ≤ next)
    (h : ∀ offset, Fits ranges candidate regionEnd size alignment offset → next ≤ offset) :
    Fits ranges candidate regionEnd size alignment = Fits ranges next regionEnd size alignment :=
  funext fun offset ↦ propext
    ⟨fun hfits ↦ { hfits with le := h offset hfits }, fun hfits ↦
      { hfits with le := hle.trans hfits.le }⟩

/-- The lowest offset that fits, or that there is none. An error means that there is none, too, and
that the sums that were formed were large. -/
def Lowest (Fits : Nat → Prop) (alignment : Nat) (Large : Prop) :
    Except MaxwellAddressSpaceError (Option Nat) → Prop
  | .ok (some found) => Fits found ∧ ∀ offset, Fits offset → found ≤ offset
  | .ok none => ∀ offset, ¬Fits offset
  | .error e =>
    e = .arithmeticOverflow ∧ (alignment < wordBound → ∀ offset, ¬Fits offset) ∧ Large

theorem Lowest.imp {Fits : Nat → Prop} {alignment : Nat} {Large Large' : Prop}
    {answer : Except MaxwellAddressSpaceError (Option Nat)} (h : Lowest Fits alignment Large answer)
    (himp : Large → Large') : Lowest Fits alignment Large' answer := by
  match answer, h with
  | .ok (some _), h | .ok none, h => exact h
  | .error _, ⟨he, hnone, hlarge⟩ => exact ⟨he, hnone, himp hlarge⟩

/-- **The loop.** No place is left out when the candidate moves. -/
theorem firstFit_lowest {occupied : Except MaxwellAddressSpaceError (List (Nat × Nat))}
    {ranges : List (Nat × Nat)} {regionEnd size alignment candidate : Nat}
    (hoccupied : occupied = .ok ranges) (hpow : isPowerOfTwo alignment = true)
    (hend : regionEnd < wordBound) (hcandidate : alignment ∣ candidate) :
    Lowest (Fits ranges candidate regionEnd size alignment) alignment
      (∀ bound, candidate < bound + alignment → (∀ range ∈ ranges, range.2 ≤ bound) →
        wordBound < bound + alignment + size)
      (firstFit occupied regionEnd size alignment candidate) := by
  have hpos := pos_of_isPowerOfTwo hpow
  fun_induction firstFit occupied regionEnd size alignment candidate with
  | case1 occupied candidate hadd =>
    have hlarge := checkedAdd_eq_none_iff.mp hadd
    exact ⟨rfl, fun _ offset ⟨hle, hstop, _, _⟩ ↦ by omega, fun bound _ _ ↦ by omega⟩
  | case2 occupied candidate candidateEnd hadd hlt =>
    obtain ⟨-, rfl⟩ := checkedAdd_eq_some_iff.mp hadd
    rintro offset ⟨hle, hstop, -, -⟩
    omega
  | case3 => exact nomatch hoccupied
  | case4 candidate candidateEnd hadd hle ranges' hoverlap =>
    obtain ⟨-, rfl⟩ := checkedAdd_eq_some_iff.mp hadd
    cases hoccupied
    exact ⟨⟨le_rfl, Nat.not_lt.mp hle, hcandidate, overlappingEnd_eq_none_iff.mp hoverlap⟩,
      fun _ h ↦ h.le⟩
  | case5 candidate candidateEnd hadd hle ranges' last hoverlap e halign =>
    obtain ⟨-, rfl⟩ := checkedAdd_eq_some_iff.mp hadd
    cases hoccupied
    obtain ⟨range, hrange, hover, rfl⟩ := exists_of_overlappingEnd hoverlap
    obtain ⟨rfl, hlarge⟩ := alignUp_eq_error halign
    refine ⟨rfl, fun halignment offset ⟨hle, hstop, hdvd, hvacant⟩ ↦ ?_, fun bound _ h ↦ ?_⟩
    · have hmiss := hvacant range hrange
      have hnext := add_le_wordBound hpow halignment hdvd (by omega)
      omega
    · have hlast := h range hrange
      omega
  | case6 candidate candidateEnd hadd hle ranges' last hoverlap next halign ih =>
    obtain ⟨-, rfl⟩ := checkedAdd_eq_some_iff.mp hadd
    cases hoccupied
    obtain ⟨range, hrange, hover, rfl⟩ := exists_of_overlappingEnd hoverlap
    obtain ⟨hdvd, hnext⟩ := alignUp_eq_ok hpow halign
    have hle := le_of_alignUp halign
    have hskip : ∀ offset, Fits ranges candidate regionEnd size alignment offset →
        next ≤ offset := by
      rintro offset ⟨hle, -, hdvd', hvacant⟩
      have hmiss := hvacant range hrange
      exact Nat.le_of_lt_add_of_dvd (by omega) hdvd hdvd'
    rw [Fits.eq_of_le (by omega) hskip]
    refine (ih rfl hdvd).imp fun hlarge bound _ hranges ↦ hlarge bound ?_ hranges
    have hlast := hranges range hrange
    omega

end Nixe.Maxwell
