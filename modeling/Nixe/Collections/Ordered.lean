import Mathlib

/-!
# Ordered maps and sets

The ordered maps and sets of the source are modelled by `Std.ExtTreeMap` and `Std.ExtTreeSet`,
which are extensional and iterate in increasing order. The standard library states their lookup
lemmas with the comparison; here keys are equal when they compare equal, and the lemmas below are
the case distinctions that this allows.

The file also adds the one operation that the standard library does not name: the search for the
first element, in iteration order, that satisfies a predicate. Since iteration is increasing, the
first element is the least one.
-/

namespace Nixe

open Std ExtTreeMap List

section

variable {α β : Type} [Ord α] [TransOrd α] [LawfulEqOrd α] {m : ExtTreeMap α β}
  {s : ExtTreeSet α} {a k : α} {v w : β}

theorem getElem?_insert_eq_some_iff :
    (m.insert k v)[a]? = some w ↔ a = k ∧ w = v ∨ a ≠ k ∧ m[a]? = some w := by
  rw [ExtTreeMap.getElem?_insert]
  by_cases h : a = k
  · simp [h, eq_comm]
  · simp [h, Ne.symm h]

theorem getElem?_insert_of_ne (h : a ≠ k) : (m.insert k v)[a]? = m[a]? := by
  rw [ExtTreeMap.getElem?_insert, if_neg]
  exact fun hc ↦ h (Std.compare_eq_iff_eq.mp hc).symm

theorem getElem?_erase_of_ne (h : a ≠ k) : (m.erase k)[a]? = m[a]? := by
  rw [ExtTreeMap.getElem?_erase, if_neg]
  exact fun hc ↦ h (Std.compare_eq_iff_eq.mp hc).symm

theorem getElem?_erase_eq_some_iff :
    (m.erase k)[a]? = some w ↔ a ≠ k ∧ m[a]? = some w := by
  rw [ExtTreeMap.getElem?_erase]
  by_cases h : a = k
  · simp [h]
  · simp [h, Ne.symm h]

omit [LawfulEqOrd α] in
theorem mem_of_getElem?_eq_some (h : m[a]? = some v) : a ∈ m :=
  mem_iff_isSome_getElem?.mpr (by rw [h]; rfl)

theorem mem_map_insert_iff : a ∈ m.insert k v ↔ a = k ∨ a ∈ m := by
  rw [mem_insert, Std.compare_eq_iff_eq, eq_comm]

theorem mem_map_erase_iff : a ∈ m.erase k ↔ a ≠ k ∧ a ∈ m := by
  rw [mem_erase, ne_eq, Std.compare_eq_iff_eq, eq_comm]

theorem mem_insert_iff : a ∈ s.insert k ↔ a = k ∨ a ∈ s := by
  rw [ExtTreeSet.mem_insert, Std.compare_eq_iff_eq, eq_comm]

theorem mem_erase_iff : a ∈ s.erase k ↔ a ≠ k ∧ a ∈ s := by
  rw [ExtTreeSet.mem_erase, ne_eq, Std.compare_eq_iff_eq, eq_comm]

end

/-- Keys that are ordered by two of their components are equal when they compare equal, if the
two components determine the key. -/
theorem eq_of_compareLex {κ α β : Type} [Ord α] [LawfulEqOrd α] [Ord β] [LawfulEqOrd β]
    {f : κ → α} {g : κ → β} (hinj : ∀ a b, f a = f b → g a = g b → a = b) {a b : κ}
    (h : compareLex (compareOn f) (compareOn g) a b = .eq) : a = b := by
  simp only [compareLex, compareOn, Ordering.then_eq_eq, Std.compare_eq_iff_eq] at h
  exact hinj a b h.1 h.2

section

variable {α : Type} [Ord α] [TransOrd α] [LawfulEqOrd α]

/-- `set.iter().find(p)`. -/
def findFirst (s : ExtTreeSet α) (p : α → Bool) : Option α := s.toList.find? p

variable {s : ExtTreeSet α} {p : α → Bool}

theorem findFirst_eq_none_iff : findFirst s p = none ↔ ∀ a ∈ s, p a = false := by
  simp [findFirst, List.find?_eq_none]

omit [LawfulEqOrd α] in
/-- Searching an increasing list finds the least element that satisfies the predicate. -/
theorem find?_eq_some_iff_of_increasing {l : List α}
    (hl : l.Pairwise fun a b ↦ compare a b = .lt) {a : α} :
    l.find? p = some a ↔ (a ∈ l ∧ p a = true) ∧
      ∀ b ∈ l, p b = true → b = a ∨ compare a b = .lt := by
  induction l with
  | nil => simp
  | cons x l ih =>
    obtain ⟨hx, hl⟩ := pairwise_cons.mp hl
    cases hp : p x with
    | true =>
      rw [List.find?_cons_of_pos hp, Option.some_inj]
      constructor
      · rintro rfl
        exact ⟨⟨mem_cons_self, hp⟩, fun b hb _ ↦ (mem_cons.mp hb).imp_right (hx b)⟩
      · rintro ⟨⟨ha, -⟩, hleast⟩
        rcases mem_cons.mp ha with rfl | ha
        · rfl
        · rcases hleast x mem_cons_self hp with h | h
          · exact h
          · exact absurd ((OrientedCmp.gt_iff_lt).mpr h) (by simp [hx a ha])
    | false =>
      rw [List.find?_cons_of_neg (by simp [hp]), ih hl]
      constructor
      · rintro ⟨⟨ha, hpa⟩, hleast⟩
        refine ⟨⟨mem_cons_of_mem _ ha, hpa⟩, fun b hb hpb ↦ ?_⟩
        rcases mem_cons.mp hb with rfl | hb
        · simp [hp] at hpb
        · exact hleast b hb hpb
      · rintro ⟨⟨ha, hpa⟩, hleast⟩
        refine ⟨⟨(mem_cons.mp ha).resolve_left ?_, hpa⟩,
          fun b hb ↦ hleast b (mem_cons_of_mem _ hb)⟩
        rintro rfl
        simp [hp] at hpa

/-- The first element found is the least one that satisfies the predicate. -/
theorem findFirst_eq_some_iff {a : α} :
    findFirst s p = some a ↔
      (a ∈ s ∧ p a = true) ∧ ∀ b ∈ s, p b = true → b = a ∨ compare a b = .lt := by
  rw [findFirst, find?_eq_some_iff_of_increasing s.ordered_toList]
  simp only [ExtTreeSet.mem_toList]

end

end Nixe
