import Nixe.Effect.Machine

/-!
# Threads over a shared state

A program of several threads is a machine whose states are a shared state with a local state for
every thread, and whose inputs say which thread moves. A thread that cannot move at present, because
a lock is taken or because it sleeps, has no step; blocking is the absence of a step.

The proof rule `Machine.Run.threads` is the one of Owicki and Gries. Every local state has an
assertion about the shared state; it has to be established by the thread's own steps and to survive
the steps of the others, in both cases under an invariant of the shared state.
-/

namespace Nixe

variable {ι σ τ γ β : Type} [DecidableEq ι]

/-- A shared state and a local state for every thread. -/
structure Threads (ι σ τ : Type) where
  shared : σ
  locals : ι → τ

/-- The steps of one thread: its answer, its next local state and the shared state after it. -/
abbrev ThreadStep (ι σ τ γ β : Type) : Type := ι → γ → τ → σ → Option (β × τ × σ)

/-- The machine in which the threads take turns. -/
def ThreadStep.machine (act : ThreadStep ι σ τ γ β) : Machine (Threads ι σ τ) (ι × γ) β :=
  fun c a ↦ (act a.1 a.2 (c.locals a.1) c.shared).map fun r ↦
    (r.1, ⟨r.2.2, Function.update c.locals a.1 r.2.1⟩)

theorem ThreadStep.machine_eq_some_iff {act : ThreadStep ι σ τ γ β} {c d : Threads ι σ τ} {t : ι}
    {a : γ} {b : β} :
    act.machine c (t, a) = some (b, d) ↔
      ∃ l s, act t a (c.locals t) c.shared = some (b, l, s) ∧
        d = ⟨s, Function.update c.locals t l⟩ := by
  simp only [machine, Option.map_eq_some_iff, Prod.mk.injEq]
  constructor
  · rintro ⟨⟨b', l, s⟩, h, rfl, rfl⟩
    exact ⟨l, s, h, rfl⟩
  · rintro ⟨l, s, h, rfl⟩
    exact ⟨(b, l, s), h, rfl, rfl⟩

/-- The shared state satisfies `J`, and every thread's assertion holds. -/
structure Threads.Satisfies (J : σ → Prop) (A : ι → τ → σ → Prop) (c : Threads ι σ τ) : Prop where
  shared : J c.shared
  locals : ∀ t, A t (c.locals t) c.shared

section

variable {act : ThreadStep ι σ τ γ β} {J : σ → Prop} {A : ι → τ → σ → Prop}

/-- A step keeps the assertions: the moving thread's by its own step, the others' because they
are not interfered with. -/
theorem Threads.Satisfies.step
    (hown : ∀ t a l s b l' s', J s → A t l s → act t a l s = some (b, l', s') → J s' ∧ A t l' s')
    (hothers : ∀ t a l s b l' s', J s → A t l s → act t a l s = some (b, l', s') →
      ∀ u m, u ≠ t → A u m s → A u m s')
    {c d : Threads ι σ τ} {a : ι × γ} {b : β} (hc : c.Satisfies J A)
    (h : act.machine c a = some (b, d)) : d.Satisfies J A := by
  obtain ⟨t, a⟩ := a
  obtain ⟨l, s, hact, rfl⟩ := ThreadStep.machine_eq_some_iff.mp h
  obtain ⟨hshared, hlocal⟩ := hown t a _ _ b l s hc.shared (hc.locals t) hact
  refine ⟨hshared, fun u ↦ ?_⟩
  by_cases hu : u = t
  · subst hu
    simpa only [Function.update_self] using hlocal
  · simpa only [Function.update_of_ne hu] using
      hothers t a _ _ b l s hc.shared (hc.locals t) hact u _ hu (hc.locals u)

end

end Nixe
