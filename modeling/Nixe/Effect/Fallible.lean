import Mathlib

/-!
# Fallible computations

A computation in `Except` returns a value or an error. `bind_eq_ok_iff` takes one that returned
apart, statement by statement.

Two computations that differ only in how much they can see are compared by definedness: `y`
extends `x` if it returns what `x` returns, whenever `x` returns. The relation goes through the
statements of a program, so it is enough to show it for the statements that look at the input.
-/

namespace Nixe

variable {ε α β : Type} {x y : Except ε α} {f g : α → Except ε β}

theorem bind_eq_ok_iff {b : β} : (x >>= f) = .ok b ↔ ∃ a, x = .ok a ∧ f a = .ok b := by
  cases x <;> simp [bind, Except.bind]

theorem ok_bind (a : α) (f : α → Except ε β) : (Except.ok a >>= f) = f a := rfl

/-- A check that was passed. -/
theorem ite_error_eq_ok_iff {c : Prop} [Decidable c] {e : ε} {a : α} :
    (if c then .error e else x) = .ok a ↔ ¬c ∧ x = .ok a := by
  split <;> simp [*]

/-- Where `x` returns a value, `y` returns it too. -/
def Extends (x y : Except ε α) : Prop := ∀ a, x = .ok a → y = .ok a

theorem Extends.refl (x : Except ε α) : Extends x x := fun _ h ↦ h

theorem Extends.bind (h : Extends x y) (hf : ∀ a, Extends (f a) (g a)) :
    Extends (x >>= f) (y >>= g) := by
  intro b hb
  obtain ⟨a, ha, hb⟩ := bind_eq_ok_iff.mp hb
  exact bind_eq_ok_iff.mpr ⟨a, h a ha, hf a b hb⟩

/-- A check that the second computation passes if the first one does. -/
theorem Extends.ite {c c' : Prop} [Decidable c] [Decidable c'] {e e' : ε} (hc : c' → c)
    (h : Extends x y) : Extends (if c then .error e else x) (if c' then .error e' else y) := by
  intro a ha
  obtain ⟨hnot, ha⟩ := ite_error_eq_ok_iff.mp ha
  exact ite_error_eq_ok_iff.mpr ⟨fun h' ↦ hnot (hc h'), h a ha⟩

end Nixe
