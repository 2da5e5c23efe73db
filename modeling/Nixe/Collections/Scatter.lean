import Nixe.Collections.Bytes

/-!
# Scattered memory

A memory that consists of several regions is a function of a region and an offset. A *cell* names
one element of it, and a list of cells, in which cells may be repeated, names a logical piece of
memory: it is read with `gather` and written with `scatter`, one cell after another, so that of two
writes to one cell the later one counts.
-/

namespace Nixe

open Function List

variable {ι α : Type}

/-- `count` cells of the region `i`, from `offset` on. -/
def consecutive (i : ι) (offset count : Nat) : List (ι × Nat) :=
  (List.range count).map fun j ↦ (i, offset + j)

/-- Read the cells. -/
def gather (m : ι → Nat → α) (cells : List (ι × Nat)) : List α := cells.map fun c ↦ m c.1 c.2

@[simp] theorem length_consecutive (i : ι) (offset count : Nat) :
    (consecutive i offset count).length = count := by
  rw [consecutive, length_map, length_range]

theorem consecutive_succ (i : ι) (offset count : Nat) :
    consecutive i offset (count + 1) = (i, offset) :: consecutive i (offset + 1) count := by
  rw [consecutive, range_succ_eq_map, map_cons, map_map, consecutive]
  refine congrArg _ (map_congr_left fun j _ ↦ ?_)
  rw [comp_apply, Nat.succ_eq_add_one, Nat.add_right_comm, Nat.add_assoc]

theorem getElem?_consecutive (i : ι) (offset count j : Nat) :
    (consecutive i offset count)[j]? = if j < count then some (i, offset + j) else none := by
  by_cases h : j < count <;> simp [consecutive, h]

/-- A part of consecutive cells is a part of the region. -/
theorem drop_take_consecutive (i : ι) (offset count first last : Nat) :
    ((consecutive i offset count).take last).drop first =
      consecutive i (offset + first) (min last count - first) := by
  refine ext_getElem? fun j ↦ ?_
  rw [List.getElem?_drop, List.getElem?_take, getElem?_consecutive, getElem?_consecutive,
    Nat.add_assoc]
  by_cases hj : first + j < last ∧ first + j < count
  · rw [if_pos hj.1, if_pos hj.2, if_pos (by omega)]
  · rw [if_neg (show ¬j < min last count - first by omega)]
    by_cases hlast : first + j < last
    · rw [if_pos hlast, if_neg fun h ↦ hj ⟨hlast, h⟩]
    · rw [if_neg hlast]

theorem mem_consecutive {i : ι} {offset count : Nat} {c : ι × Nat}
    (h : c ∈ consecutive i offset count) : c.1 = i ∧ offset ≤ c.2 ∧ c.2 < offset + count := by
  obtain ⟨j, hj, rfl⟩ := mem_map.mp h
  rw [mem_range] at hj
  exact ⟨rfl, Nat.le_add_right _ _, by omega⟩

theorem gather_append (m : ι → Nat → α) (cells cells' : List (ι × Nat)) :
    gather m (cells ++ cells') = gather m cells ++ gather m cells' := map_append

theorem gather_consecutive (m : ι → Nat → α) (i : ι) (offset count : Nat) :
    gather m (consecutive i offset count) = slice (m i) offset count := by
  rw [gather, consecutive, map_map, slice]
  rfl

section

variable [DecidableEq ι]

/-- Write one cell. -/
def put (m : ι → Nat → α) (c : ι × Nat) (a : α) : ι → Nat → α :=
  Function.update m c.1 (Function.update (m c.1) c.2 a)

/-- Write the cells, one after another. -/
def scatter (m : ι → Nat → α) : List (ι × Nat) → List α → ι → Nat → α
  | c :: cells, a :: as => scatter (put m c a) cells as
  | _, _ => m

variable {m m' : ι → Nat → α} {cells cells' : List (ι × Nat)} {as as' : List α} {i : ι}

@[simp] theorem scatter_nil_left : scatter m [] as = m := by rw [scatter]; simp

@[simp] theorem scatter_nil_right : scatter m cells [] = m := by
  cases cells <;> rw [scatter] <;> simp

theorem scatter_append (h : cells.length = as.length) :
    scatter m (cells ++ cells') (as ++ as') = scatter (scatter m cells as) cells' as' := by
  induction cells generalizing m as with
  | nil =>
    rw [length_eq_zero_iff.mp h.symm]
    simp
  | cons c cells ih =>
    cases as with
    | nil => exact nomatch h
    | cons a as =>
      rw [cons_append, cons_append, scatter, scatter]
      exact ih (Nat.succ.inj h)

theorem put_congr (h : m i = m' i) (c : ι × Nat) (a : α) : put m c a i = put m' c a i := by
  rw [put, put]
  by_cases hi : i = c.1
  · subst hi
    rw [update_self, update_self, h]
  · rw [update_of_ne hi, update_of_ne hi, h]

/-- What is written to a region depends on nothing but that region. -/
theorem scatter_congr (h : m i = m' i) : scatter m cells as i = scatter m' cells as i := by
  induction cells generalizing m m' as with
  | nil => rw [scatter_nil_left, scatter_nil_left, h]
  | cons c cells ih =>
    cases as with
    | nil => rw [scatter_nil_right, scatter_nil_right, h]
    | cons a as =>
      rw [scatter, scatter]
      exact ih (put_congr h c a)

theorem scatter_of_forall_ne (h : ∀ c ∈ cells, c.1 ≠ i) : scatter m cells as i = m i := by
  induction cells generalizing m as with
  | nil => rw [scatter_nil_left]
  | cons c cells ih =>
    cases as with
    | nil => rw [scatter_nil_right]
    | cons a as =>
      rw [scatter, ih fun c' hc' ↦ h c' (mem_cons_of_mem _ hc'), put]
      exact update_of_ne (h c mem_cons_self).symm _ _

theorem overwrite_cons (contents : Nat → α) (offset : Nat) (a : α) (as : List α) :
    overwrite contents offset (a :: as) =
      overwrite (Function.update contents offset a) (offset + 1) as := by
  funext j
  rcases Nat.lt_trichotomy j offset with hj | rfl | hj
  · rw [overwrite_of_lt hj, overwrite_of_lt (by omega), update_of_ne (by omega)]
  · rw [overwrite_of_lt (Nat.lt_succ_self j), update_self, overwrite_of_mem le_rfl (by simp)]
    simp
  · rw [overwrite, overwrite, if_pos (by omega), if_pos (by omega),
      update_of_ne (by omega)]
    obtain ⟨k, rfl⟩ : ∃ k, j = offset + 1 + k := ⟨j - (offset + 1), by omega⟩
    rw [show offset + 1 + k - offset = k + 1 by omega, Nat.add_sub_cancel_left,
      List.getElem?_cons_succ]

/-- Writing consecutive cells is copying to the region. -/
theorem scatter_consecutive (m : ι → Nat → α) (i : ι) (offset : Nat) (as : List α) :
    scatter m (consecutive i offset as.length) as =
      Function.update m i (overwrite (m i) offset as) := by
  induction as generalizing m offset with
  | nil => rw [scatter_nil_right, overwrite_nil, update_eq_self]
  | cons a as ih =>
    rw [length_cons, consecutive_succ, scatter, ih, put, update_self,
      update_idem, overwrite_cons]

end

end Nixe
