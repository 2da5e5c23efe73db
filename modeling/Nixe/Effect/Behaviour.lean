import Nixe.Effect.Threads

/-!
# Infinite behaviours and weak fairness

A behaviour is an infinite run. It is weakly fair if every thread that can go on from some moment
on does go on; which inputs count as going on is a parameter, since a thread need not be assumed to
make new calls or to wake up for no reason.

`Behaviour.leaves` is the rule for one stage of an argument: a thread that stands at a place from
which it can always go on is there until it takes a step itself.
-/

namespace Nixe

/-- An infinite run. -/
structure Machine.Behaviour {σ α β : Type} (m : Machine σ α β) (init : σ) where
  state : ℕ → σ
  input : ℕ → α
  output : ℕ → β
  start : state 0 = init
  next : ∀ n, m (state n) (input n) = some (output n, state (n + 1))

/-- A condition that can be checked at every step can be checked along a list of inputs. -/
instance Machine.decidableAlong {σ α β : Type} (m : Machine σ α β) (G : σ → α → Prop)
    [∀ s a, Decidable (G s a)] : (s : σ) → (as : List α) → Decidable (m.Along G s as)
  | _, [] => .isTrue trivial
  | s, a :: as =>
    have : Decidable (match m s a with | none => True | some (_, t) => m.Along G t as) :=
      match m s a with
      | none => .isTrue trivial
      | some (_, t) => decidableAlong m G t as
    inferInstanceAs (Decidable (_ ∧ _))

namespace Machine.Behaviour

section

variable {σ α β : Type} {m : Machine σ α β} {init : σ}

/-- The first `n` steps. -/
def events (ρ : m.Behaviour init) (n : ℕ) : List (α × β) :=
  (List.range n).map fun i ↦ (ρ.input i, ρ.output i)

theorem run (ρ : m.Behaviour init) (n : ℕ) : m.Run init (ρ.events n) (ρ.state n) := by
  induction n with
  | zero =>
    rw [ρ.start]
    exact .nil init
  | succ n ih =>
    rw [events, List.range_succ, List.map_append]
    exact Run.append_iff.mpr ⟨ρ.state n, ih, .cons (ρ.next n) (.nil _)⟩

/-- What holds at `n` and stays until `Q` holds, holds as long as `Q` does not. -/
theorem persists (ρ : m.Behaviour init) {P Q : σ → Prop} {n : ℕ} (hP : P (ρ.state n))
    (hstep : ∀ i, n ≤ i → P (ρ.state i) → P (ρ.state (i + 1)) ∨ Q (ρ.state (i + 1)))
    (hQ : ∀ i, n ≤ i → ¬Q (ρ.state i)) {i : ℕ} (hi : n ≤ i) : P (ρ.state i) := by
  induction hi with
  | refl => exact hP
  | @step i hi ih => exact (hstep i hi ih).resolve_right (hQ (i + 1) (Nat.le_succ_of_le hi))

/-- A run that ends in a state with a loop goes on for ever. Its states are those of the run, and
what holds along the run and in the loop holds at every moment. -/
theorem exists_of_run {s t : σ} {es : List (α × β)} {a : α} {b : β} (hrun : m.Run s es t)
    (hloop : m t a = some (b, t)) :
    ∃ ρ : m.Behaviour s,
      (∀ i, es.length ≤ i → ρ.state i = t) ∧
      (∀ es₁ es₂ u, es = es₁ ++ es₂ → m.Run s es₁ u → ρ.state es₁.length = u) ∧
      ∀ G, m.Along G s (es.map Prod.fst) → G t a → ∀ i, G (ρ.state i) (ρ.input i) := by
  induction hrun with
  | nil s =>
    refine ⟨⟨fun _ ↦ s, fun _ ↦ a, fun _ ↦ b, rfl, fun _ ↦ hloop⟩, fun _ _ ↦ rfl, ?_,
      fun _ _ hG _ ↦ hG⟩
    intro es₁ es₂ u hes hrun
    obtain ⟨rfl, -⟩ := List.append_eq_nil_iff.mp hes.symm
    cases hrun
    rfl
  | @cons s v t a₀ b₀ es hs _ ih =>
    obtain ⟨ρ, hend, hstates, hG⟩ := ih hloop
    refine ⟨⟨fun | 0 => s | i + 1 => ρ.state i, fun | 0 => a₀ | i + 1 => ρ.input i,
      fun | 0 => b₀ | i + 1 => ρ.output i, rfl, fun | 0 => ?_ | i + 1 => ρ.next i⟩, ?_, ?_, ?_⟩
    · change m s a₀ = some (b₀, ρ.state 0)
      rw [ρ.start, hs]
    · intro i hi
      cases i with
      | zero => exact absurd hi (Nat.not_succ_le_zero _)
      | succ i => exact hend i (Nat.le_of_succ_le_succ hi)
    · intro es₁ es₂ u hes hrun
      cases hrun with
      | nil => rfl
      | cons hs' hrun =>
        obtain ⟨heq, hes'⟩ := List.cons.inj hes
        cases heq
        cases hs.symm.trans hs'
        exact hstates _ es₂ u hes' hrun
    · intro G halong hGt i
      rw [List.map_cons, Along, hs] at halong
      cases i with
      | zero => exact halong.1
      | succ i => exact hG G halong.2 hGt i

end

section

variable {ι σ τ γ β : Type} [DecidableEq ι] {act : ThreadStep ι σ τ γ β} {init : Threads ι σ τ}

theorem next_act (ρ : act.machine.Behaviour init) (n : ℕ) :
    act (ρ.input n).1 (ρ.input n).2 ((ρ.state n).locals (ρ.input n).1) (ρ.state n).shared =
      some (ρ.output n, (ρ.state (n + 1)).locals (ρ.input n).1, (ρ.state (n + 1)).shared) := by
  obtain ⟨l, s, hact, hnext⟩ := ThreadStep.machine_eq_some_iff.mp (ρ.next n)
  simp only [hact, hnext, Function.update_self]

/-- A thread stays where it is while the others move. -/
theorem locals_next (ρ : act.machine.Behaviour init) {n : ℕ} {t : ι} (h : (ρ.input n).1 ≠ t) :
    (ρ.state (n + 1)).locals t = (ρ.state n).locals t := by
  obtain ⟨l, s, -, hnext⟩ := ThreadStep.machine_eq_some_iff.mp (ρ.next n)
  simp only [hnext, Function.update_of_ne (Ne.symm h)]

/-- A thread that from some moment on always has a step with an input in `progress` takes a
step. -/
def WeaklyFair (progress : γ → Prop) (ρ : act.machine.Behaviour init) : Prop :=
  ∀ t n,
    (∀ i, n ≤ i → ∃ a, progress a ∧
      act t a ((ρ.state i).locals t) (ρ.state i).shared ≠ none) →
    ∃ i, n ≤ i ∧ (ρ.input i).1 = t

/-- **Progress by fairness.** A thread that stands at a place at which it can always go on leaves
it by a step of its own. -/
theorem leaves {progress : γ → Prop} {ρ : act.machine.Behaviour init}
    (hfair : ρ.WeaklyFair progress) {P : τ → Prop} {t : ι} {n : ℕ}
    (hP : P ((ρ.state n).locals t))
    (henabled : ∀ l s, P l → ∃ a, progress a ∧ act t a l s ≠ none) :
    ∃ i, n ≤ i ∧ P ((ρ.state i).locals t) ∧ (ρ.input i).1 = t := by
  by_contra hnever
  have hmoves : ∀ i, n ≤ i → P ((ρ.state i).locals t) → (ρ.input i).1 ≠ t :=
    fun i hi hp ht ↦ hnever ⟨i, hi, hp, ht⟩
  have hstays : ∀ i, n ≤ i → P ((ρ.state i).locals t) := fun i hi ↦
    ρ.persists (P := fun c ↦ P (c.locals t)) (Q := fun _ ↦ False) hP
      (fun i hi hp ↦ .inl (by rwa [ρ.locals_next (hmoves i hi hp)])) (fun _ _ ↦ id) hi
  obtain ⟨i, hi, ht⟩ := hfair t n fun i hi ↦ henabled _ _ (hstays i hi)
  exact hmoves i hi (hstays i hi) ht

end

end Machine.Behaviour

end Nixe
