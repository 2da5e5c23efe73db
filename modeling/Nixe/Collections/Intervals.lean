import Mathlib

/-!
# Normal forms of interval lists

A list of half-open intervals denotes the set of the points in them. Its normal form denotes the
same set with intervals that are in order and apart from each other: sort by the lower ends, and
join an interval to its predecessor while they overlap or touch.
-/

namespace Nixe

open List

variable {α : Type} [LinearOrder α]

/-- The point is in one of the intervals. -/
def Covers (intervals : List (α × α)) (x : α) : Prop := ∃ i ∈ intervals, i.1 ≤ x ∧ x < i.2

/-- Join the intervals, sorted by their lower ends, that follow `previous` where they can be. -/
def joinIntervals (previous : α × α) : List (α × α) → List (α × α)
  | [] => [previous]
  | current :: rest =>
    if current.1 ≤ previous.2 then joinIntervals (previous.1, max previous.2 current.2) rest
    else previous :: joinIntervals current rest

/-- The normal form. How the sort orders intervals with the same lower end does not matter, since
they are joined. -/
def normalizeIntervals (intervals : List (α × α)) : List (α × α) :=
  match intervals.insertionSort fun i j ↦ i.1 ≤ j.1 with
  | [] => []
  | first :: rest => joinIntervals first rest

variable {previous : α × α} {intervals : List (α × α)} {x : α} {i : α × α}

theorem covers_cons : Covers (i :: intervals) x ↔ i.1 ≤ x ∧ x < i.2 ∨ Covers intervals x := by
  rw [Covers, exists_mem_cons_iff, Covers]

/-- Two intervals that overlap or touch have the points of their union. -/
theorem mem_join_iff {j : α × α} (hi : i.1 ≤ j.1) (hj : j.1 ≤ i.2) :
    i.1 ≤ x ∧ x < max i.2 j.2 ↔ (i.1 ≤ x ∧ x < i.2) ∨ j.1 ≤ x ∧ x < j.2 := by
  rw [lt_max_iff]
  constructor
  · rintro ⟨hx, h | h⟩
    · exact .inl ⟨hx, h⟩
    · rcases lt_or_ge x i.2 with hlt | hle
      · exact .inl ⟨hx, hlt⟩
      · exact .inr ⟨hj.trans hle, h⟩
  · rintro (⟨hx, h⟩ | ⟨hx, h⟩)
    · exact ⟨hx, .inl h⟩
    · exact ⟨hi.trans hx, .inr h⟩

/-- Joining the first two intervals leaves the lower ends in order. -/
theorem pairwise_join {current : α × α} {upper : α}
    (h : (previous :: current :: intervals).Pairwise fun i j ↦ i.1 ≤ j.1) :
    ((previous.1, upper) :: intervals).Pairwise fun i j ↦ i.1 ≤ j.1 := by
  obtain ⟨hprevious, hrest⟩ := pairwise_cons.mp h
  refine pairwise_cons.mpr ⟨fun j hj ↦ ?_, (pairwise_cons.mp hrest).2⟩
  exact hprevious j (mem_cons_of_mem _ hj)

theorem covers_joinIntervals_iff (h : ((previous :: intervals).Pairwise fun i j ↦ i.1 ≤ j.1)) :
    Covers (joinIntervals previous intervals) x ↔ Covers (previous :: intervals) x := by
  induction intervals generalizing previous with
  | nil => rw [joinIntervals]
  | cons current rest ih =>
    obtain ⟨hprevious, hrest⟩ := pairwise_cons.mp h
    have hcurrent := hprevious current mem_cons_self
    rw [joinIntervals]
    split
    · rename_i hjoin
      rw [ih (pairwise_join h), covers_cons, mem_join_iff hcurrent hjoin, covers_cons, covers_cons,
        or_assoc]
    · rw [covers_cons, ih hrest, covers_cons (i := previous)]

/-- Every interval of the result starts where one of the joined intervals does. -/
theorem le_of_mem_joinIntervals (h : (previous :: intervals).Pairwise fun i j ↦ i.1 ≤ j.1)
    (hi : i ∈ joinIntervals previous intervals) : previous.1 ≤ i.1 := by
  induction intervals generalizing previous with
  | nil =>
    rw [joinIntervals, mem_singleton] at hi
    rw [hi]
  | cons current rest ih =>
    obtain ⟨hprevious, hrest⟩ := pairwise_cons.mp h
    rw [joinIntervals] at hi
    split at hi
    · have hle := ih (pairwise_join h) hi
      exact hle
    · rcases mem_cons.mp hi with rfl | hi
      · exact le_rfl
      · exact (hprevious current mem_cons_self).trans (ih hrest hi)

theorem pairwise_joinIntervals (h : (previous :: intervals).Pairwise fun i j ↦ i.1 ≤ j.1) :
    (joinIntervals previous intervals).Pairwise fun i j ↦ i.2 < j.1 := by
  induction intervals generalizing previous with
  | nil => exact pairwise_singleton _ _
  | cons current rest ih =>
    obtain ⟨hprevious, hrest⟩ := pairwise_cons.mp h
    rw [joinIntervals]
    split
    · exact ih (pairwise_join h)
    · rename_i happart
      refine pairwise_cons.mpr ⟨fun j hj ↦ ?_, ih hrest⟩
      exact (lt_of_not_ge happart).trans_le (le_of_mem_joinIntervals hrest hj)

/-- What holds of all intervals and is kept when two are joined holds of the result. -/
theorem forall_mem_joinIntervals {P : α × α → Prop}
    (hjoin : ∀ i j : α × α, P i → P j → P (i.1, max i.2 j.2))
    (h : ∀ i ∈ previous :: intervals, P i) : ∀ i ∈ joinIntervals previous intervals, P i := by
  induction intervals generalizing previous with
  | nil => exact h
  | cons current rest ih =>
    obtain ⟨hprevious, hcurrent, hrest⟩ :=
      (forall_mem_cons.mp h).imp_right forall_mem_cons.mp
    rw [joinIntervals]
    split
    · exact ih (forall_mem_cons.mpr ⟨hjoin _ _ hprevious hcurrent, hrest⟩)
    · exact forall_mem_cons.mpr ⟨hprevious, ih (forall_mem_cons.mpr ⟨hcurrent, hrest⟩)⟩

section

variable (intervals)

theorem pairwise_insertionSort_fst :
    (intervals.insertionSort fun i j ↦ i.1 ≤ j.1).Pairwise fun i j ↦ i.1 ≤ j.1 := by
  have htotal : Std.Total fun i j : α × α ↦ i.1 ≤ j.1 := ⟨fun i j ↦ le_total i.1 j.1⟩
  have htrans : IsTrans (α × α) fun i j ↦ i.1 ≤ j.1 := ⟨fun _ _ _ ↦ le_trans⟩
  exact pairwise_insertionSort _ intervals

/-- The intervals of the normal form are in order and do not touch. -/
theorem pairwise_normalizeIntervals :
    (normalizeIntervals intervals).Pairwise fun i j ↦ i.2 < j.1 := by
  have hsorted := pairwise_insertionSort_fst intervals
  rw [normalizeIntervals]
  split
  · exact .nil
  · rename_i first rest h
    exact pairwise_joinIntervals (h ▸ hsorted)

/-- The normal form covers the same points. -/
theorem covers_normalizeIntervals_iff :
    Covers (normalizeIntervals intervals) x ↔ Covers intervals x := by
  have hsorted := pairwise_insertionSort_fst intervals
  have hperm : ∀ x, Covers (intervals.insertionSort fun i j ↦ i.1 ≤ j.1) x ↔
    Covers intervals x := by
    intro x
    simp only [Covers, mem_insertionSort]
  rw [normalizeIntervals, ← hperm x]
  split
  · rename_i h
    rw [h]
  · rename_i first rest h
    rw [covers_joinIntervals_iff (h ▸ hsorted), h]

theorem forall_mem_normalizeIntervals {P : α × α → Prop}
    (hjoin : ∀ i j : α × α, P i → P j → P (i.1, max i.2 j.2)) (h : ∀ i ∈ intervals, P i) :
    ∀ i ∈ normalizeIntervals intervals, P i := by
  have hperm : ∀ i ∈ intervals.insertionSort fun i j ↦ i.1 ≤ j.1, P i :=
    fun i hi ↦ h i ((mem_insertionSort _).mp hi)
  rw [normalizeIntervals]
  split
  · exact nofun
  · rename_i first rest hsort
    exact forall_mem_joinIntervals hjoin (hsort ▸ hperm)

end

end Nixe
