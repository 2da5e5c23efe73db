import Nixe.Effect.Method

/-!
# Machines and their runs

A machine answers an input with an output and a new state, or it panics. Everything a component
promises over its whole life is a statement about the runs of a machine, and the statements come
in three shapes.

* **Invariants.** `Run.invariant`: what holds initially and is kept by every step holds in every
  state reached.
* **Histories.** `Run.forall_mem`: a condition on states that is kept by every step and that
  rules out an event rules that event out for the rest of the run. "At most once" and "never
  again" are instances, `Run.pairwise`: find the condition that the first event establishes.
* **Conditional safety.** `safe_iff_along`: a property holds throughout, without a panic,
  exactly in the runs all of whose steps meet a condition on the input and the state before it.
-/

namespace Nixe

open List Option

/-- A deterministic machine: `none` is a panic, after which there is no state to speak of. -/
abbrev Machine (σ α β : Type) : Type := σ → α → Option (β × σ)

/-- The answer and the state of a call that does not panic. -/
def Outcome.answer {ε σ α : Type} : Outcome ε σ α → Option (Except ε α × σ)
  | .ok a t => some (.ok a, t)
  | .err e t => some (.error e, t)
  | .panic _ => none

variable {ε σ α : Type}

/-- A specification of a method, read off the answer. -/
theorem Method.of_answer {m : Method ε σ α} {Q : Post ε σ α} {s t : σ} {r : Except ε α}
    (h : wp m Q s) (hm : (m s).answer = some (r, t)) :
    (∀ a, r = .ok a → Q.ok a t) ∧ ∀ e, r = .error e → Q.err e t := by
  rw [wp] at h
  cases hs : m s with
  | ok a u =>
    rw [hs] at h hm
    cases hm
    exact ⟨fun b hb ↦ Except.ok.inj hb ▸ h, by simp⟩
  | err e u =>
    rw [hs] at h hm
    cases hm
    exact ⟨by simp, fun e' he ↦ Except.error.inj he ▸ h⟩
  | panic msg => rw [hs] at hm; cases hm

/-- A call of a method of a part of the receiver. -/
theorem Method.answer_focus {τ : Type} {part : σ → τ} {put : σ → τ → σ} {m : Method ε τ α}
    {s t : σ} {r : Except ε α} (h : (focus part put m s).answer = some (r, t)) :
    ∃ u, (m (part s)).answer = some (r, u) ∧ t = put s u := by
  rw [focus] at h
  cases hs : m (part s) with
  | panic msg => rw [hs] at h; cases h
  | ok a u | err e u =>
    rw [hs] at h
    cases h
    exact ⟨u, rfl, rfl⟩

/-- The machine whose steps are the calls of a method. An error is an ordinary answer. -/
def Method.machine {ε σ α β : Type} (m : α → Method ε σ β) : Machine σ α (Except ε β) :=
  fun s a ↦ (m a s).answer

theorem Method.machine_eq_some_iff {β : Type} {m : α → Method ε σ β} {s t : σ} {a : α}
    {r : Except ε β} :
    Method.machine m s a = some (r, t) ↔
      (∃ b, r = .ok b ∧ m a s = .ok b t) ∨ ∃ e, r = .error e ∧ m a s = .err e t := by
  rw [Method.machine]
  cases m a s <;> simp [Outcome.answer, eq_comm]

theorem Method.machine_eq_none_iff {β : Type} {m : α → Method ε σ β} {s : σ} {a : α} :
    Method.machine m s a = none ↔ ∃ msg, m a s = .panic msg := by
  rw [Method.machine]
  cases m a s <;> simp [Outcome.answer]

namespace Machine

variable {σ α β : Type}

/-- `Run m s es t`: from `s` the inputs of `es` are answered by the outputs of `es`, without a
panic, and the run ends in `t`. -/
inductive Run (m : Machine σ α β) : σ → List (α × β) → σ → Prop where
  | nil (s : σ) : Run m s [] s
  | cons {s t u : σ} {a : α} {b : β} {es : List (α × β)} :
      m s a = some (b, t) → Run m t es u → Run m s ((a, b) :: es) u

/-- A state that some run reaches from `s`. -/
def Reachable (m : Machine σ α β) (s t : σ) : Prop := ∃ es, Run m s es t

/-- `P` holds in every state the run visits, both ends included. -/
def Throughout (m : Machine σ α β) (P : σ → Prop) (s : σ) (es : List (α × β)) : Prop :=
  ∀ es₁ es₂ t, es = es₁ ++ es₂ → Run m s es₁ t → P t

/-- Execute a list of inputs. -/
def exec (m : Machine σ α β) : σ → List α → Option (List (α × β) × σ)
  | s, [] => some ([], s)
  | s, a :: as =>
    match m s a with
    | none => none
    | some (b, t) => (exec m t as).map fun r ↦ ((a, b) :: r.1, r.2)

/-- No step of the run panics and `P` holds in every state it visits. -/
def Safe (m : Machine σ α β) (P : σ → Prop) : σ → List α → Prop
  | s, [] => P s
  | s, a :: as =>
    P s ∧
      match m s a with
      | none => False
      | some (_, t) => Safe m P t as

/-- Every step taken before a panic meets the condition `G` on the state before it. -/
def Along (m : Machine σ α β) (G : σ → α → Prop) : σ → List α → Prop
  | _, [] => True
  | s, a :: as =>
    G s a ∧
      match m s a with
      | none => True
      | some (_, t) => Along m G t as

variable {m : Machine σ α β}

/-! ## Runs -/

variable {as : List α}

theorem run_of_exec {s t : σ} {es : List (α × β)} (h : exec m s as = some (es, t)) :
    Run m s es t := by
  induction as generalizing s es with
  | nil =>
    obtain ⟨rfl, rfl⟩ := Prod.mk.inj (Option.some.inj h)
    exact .nil s
  | cons a as ih =>
    rw [exec] at h
    cases hs : m s a with
    | none => simp [hs] at h
    | some r =>
      obtain ⟨b, u⟩ := r
      simp only [hs, map_eq_some_iff, Prod.mk.injEq] at h
      obtain ⟨⟨es', t'⟩, h, rfl, rfl⟩ := h
      exact .cons hs (ih h)

theorem map_fst_of_exec {s t : σ} {es : List (α × β)} (h : exec m s as = some (es, t)) :
    es.map Prod.fst = as := by
  induction as generalizing s es with
  | nil =>
    cases h
    rfl
  | cons a as ih =>
    rw [exec] at h
    cases hs : m s a with
    | none => simp [hs] at h
    | some r =>
      obtain ⟨b, u⟩ := r
      simp only [hs, map_eq_some_iff, Prod.mk.injEq] at h
      obtain ⟨⟨es', t'⟩, h, rfl, rfl⟩ := h
      rw [map_cons, ih h]

/-- A run of which a property of the end is evaluated. -/
theorem exists_run_of_exec {P : List (α × β) × σ → Prop} {s : σ} (h : ∃ r ∈ exec m s as, P r) :
    ∃ es t, Run m s es t ∧ es.map Prod.fst = as ∧ P (es, t) := by
  obtain ⟨⟨es, t⟩, hexec, hP⟩ := h
  exact ⟨es, t, run_of_exec hexec, map_fst_of_exec hexec, hP⟩

namespace Run

variable {s : σ} {I : σ → Prop}

theorem append_iff {u : σ} {es₁ es₂ : List (α × β)} :
    Run m s (es₁ ++ es₂) u ↔ ∃ t, Run m s es₁ t ∧ Run m t es₂ u := by
  induction es₁ generalizing s with
  | nil =>
    constructor
    · intro h
      exact ⟨s, .nil s, h⟩
    · rintro ⟨t, h₁, h₂⟩
      cases h₁
      exact h₂
  | cons e es ih =>
    constructor
    · intro h
      cases h with
      | cons hs h =>
        obtain ⟨t, h₁, h₂⟩ := ih.mp h
        exact ⟨t, .cons hs h₁, h₂⟩
    · rintro ⟨t, h₁, h₂⟩
      cases h₁ with
      | cons hs h₁ => exact .cons hs (ih.mpr ⟨t, h₁, h₂⟩)

variable {es : List (α × β)}

theorem cons_iff {u : σ} {e : α × β} :
    Run m s (e :: es) u ↔ ∃ t, m s e.1 = some (e.2, t) ∧ Run m t es u := by
  constructor
  · intro h
    cases h with
    | cons hs h => exact ⟨_, hs, h⟩
  · rintro ⟨t, hs, h⟩
    exact .cons hs h

/-- **The invariant rule.** What every step keeps, every run keeps. -/
theorem invariant (hstep : ∀ s a b t, I s → m s a = some (b, t) → I t) {t : σ} (hI : I s)
    (h : Run m s es t) : I t := by
  induction h with
  | nil s => exact hI
  | cons hs _ ih => exact ih (hstep _ _ _ _ hI hs)

/-- **The history rule.** If every step keeps `I`, and a step out of a state with `I` is always
an event with `G`, then every event of a run out of such a state has `G`. -/
theorem forall_mem {G : α × β → Prop} (hstep : ∀ s a b t, I s → m s a = some (b, t) → I t)
    (hevent : ∀ s a b t, I s → m s a = some (b, t) → G (a, b)) {t : σ} (hI : I s)
    (h : Run m s es t) : ∀ e ∈ es, G e := by
  induction h with
  | nil s => exact nofun
  | cons hs _ ih =>
    intro e he
    rcases mem_cons.mp he with rfl | he
    · exact hevent _ _ _ _ hI hs
    · exact ih (hstep _ _ _ _ hI hs) e he

/-- **The never-again rule.** An event with `A` leads to a condition that every step keeps and
that rules out `B`, so no event with `B` follows one with `A`. -/
theorem pairwise {D : σ → Prop} {A B : α × β → Prop}
    (hI : ∀ s a b t, I s → m s a = some (b, t) → I t)
    (hkill : ∀ s a b t, I s → m s a = some (b, t) → A (a, b) → D t)
    (hD : ∀ s a b t, D s → m s a = some (b, t) → D t)
    (hdead : ∀ s a b t, D s → m s a = some (b, t) → ¬B (a, b)) {t : σ} (hs : I s)
    (h : Run m s es t) : es.Pairwise fun e f ↦ A e → ¬B f := by
  induction h with
  | nil s => exact .nil
  | cons hstep hrun ih =>
    refine .cons (fun f hf hA ↦ ?_) (ih (hI _ _ _ _ hs hstep))
    exact hrun.forall_mem (G := fun f ↦ ¬B f) hD hdead (hkill _ _ _ _ hs hstep hA) f hf

/-- What an event establishes and every step keeps holds at the end of a run with that event. -/
theorem of_mem {J : σ → Prop} {A : α × β → Prop} (hI : ∀ s a b t, I s → m s a = some (b, t) → I t)
    (hJ : ∀ s a b t, J s → m s a = some (b, t) → J t)
    (hstep : ∀ s a b t, I s → m s a = some (b, t) → A (a, b) → J t) {t : σ} (hs : I s)
    (h : Run m s es t) (hA : ∃ e ∈ es, A e) : J t := by
  induction h with
  | nil s => exact absurd hA (by simp)
  | cons hs' hrun ih =>
    obtain ⟨e, he, hA⟩ := hA
    rcases mem_cons.mp he with rfl | he
    · exact hrun.invariant hJ (hstep _ _ _ _ hs hs' hA)
    · exact ih (hI _ _ _ _ hs hs') ⟨e, he, hA⟩

end Run

section

variable {P : σ → Prop} {s t : σ} {a : α} {b : β} {es : List (α × β)}

theorem Throughout.head (h : Throughout m P s es) : P s := h [] es s rfl (.nil s)

theorem Throughout.tail (hs : m s a = some (b, t)) (h : Throughout m P s ((a, b) :: es)) :
    Throughout m P t es := by
  rintro es₁ es₂ u rfl hrun
  exact h ((a, b) :: es₁) es₂ u rfl (.cons hs hrun)

theorem Throughout.of_append {es' : List (α × β)} (hrun : Run m s es t)
    (h : Throughout m P s (es ++ es')) : Throughout m P t es' := by
  rintro es₁ es₂ u rfl hrun'
  exact h (es ++ es₁) es₂ u (append_assoc ..).symm (Run.append_iff.mpr ⟨t, hrun, hrun'⟩)

end

/-! ## Conditional safety -/

section

variable {I P : σ → Prop} {G : σ → α → Prop} {s : σ} {as : List α} {es : List (α × β)}

/-- A run all of whose steps meet `G` is safe, if `G` steps keep an invariant that implies `P`. -/
theorem safe_of_along (hIP : ∀ s, I s → P s)
    (hgood : ∀ s a, I s → G s a → ∃ b t, m s a = some (b, t) ∧ I t) (hI : I s)
    (h : Along m G s as) : Safe m P s as := by
  induction as generalizing s with
  | nil => exact hIP s hI
  | cons a as ih =>
    obtain ⟨hG, h⟩ := h
    obtain ⟨b, t, hs, hIt⟩ := hgood s a hI hG
    rw [hs] at h
    refine ⟨hIP s hI, ?_⟩
    rw [hs]
    exact ih hIt h

/-- Inputs that meet `G` in every state with an invariant that they keep. -/
theorem along_of_forall (hG : ∀ a ∈ as, ∀ s, I s → G s a)
    (hstep : ∀ a ∈ as, ∀ s b t, I s → m s a = some (b, t) → I t) (hI : I s) : Along m G s as := by
  induction as generalizing s with
  | nil => trivial
  | cons a as ih =>
    obtain ⟨ha, has⟩ := forall_mem_cons.mp hG
    obtain ⟨hstep, hsteps⟩ := forall_mem_cons.mp hstep
    refine ⟨ha s hI, ?_⟩
    split
    · trivial
    · rename_i t hs
      exact ih has hsteps (hstep s _ t hI hs)

/-- The invariant rule for runs all of whose steps meet `G`. -/
theorem Run.invariant_along (hgood : ∀ s a b t, I s → G s a → m s a = some (b, t) → I t) {t : σ}
    (hI : I s) (h : Run m s es t) (halong : Along m G s (es.map Prod.fst)) : I t := by
  induction h with
  | nil s => exact hI
  | cons hs _ ih =>
    rw [map_cons, Along, hs] at halong
    exact ih (hgood _ _ _ _ hI halong.1 hs) halong.2

/-- The history rule for runs all of whose steps meet `G`. -/
theorem Run.forall_mem_along {E : α × β → Prop}
    (hgood : ∀ s a b t, I s → G s a → m s a = some (b, t) → I t ∧ E (a, b)) {t : σ} (hI : I s)
    (h : Run m s es t) (halong : Along m G s (es.map Prod.fst)) : ∀ e ∈ es, E e := by
  induction h with
  | nil s => exact nofun
  | cons hs _ ih =>
    rw [map_cons, Along, hs] at halong
    obtain ⟨hI', hE⟩ := hgood _ _ _ _ hI halong.1 hs
    exact forall_mem_cons.mpr ⟨hE, ih hI' halong.2⟩

theorem Safe.head (h : Safe m P s as) : P s := by
  cases as with
  | nil => exact h
  | cons a as => exact h.1

/-- A safe run does not panic. -/
theorem Safe.exec_ne_none (h : Safe m P s as) : exec m s as ≠ none := by
  induction as generalizing s with
  | nil => exact some_ne_none _
  | cons a as ih =>
    obtain ⟨-, h⟩ := h
    rw [exec]
    cases hs : m s a with
    | none => rw [hs] at h; exact h.elim
    | some r =>
      rw [hs] at h
      simpa using ih h

/-- `P` holds where a safe run ends. -/
theorem Safe.of_exec {t : σ} (h : Safe m P s as) (hexec : exec m s as = some (es, t)) : P t := by
  induction as generalizing s es with
  | nil =>
    cases hexec
    exact h
  | cons a as ih =>
    obtain ⟨-, h⟩ := h
    rw [exec] at hexec
    cases hs : m s a with
    | none => rw [hs] at h; exact h.elim
    | some r =>
      simp only [hs, map_eq_some_iff, Prod.mk.injEq] at h hexec
      obtain ⟨⟨es', t'⟩, hexec, -, rfl⟩ := hexec
      exact ih h hexec

/-- **Conditional safety.** If the steps that meet `G` keep the invariant, and any other step out
of a state with the invariant breaks `P`, then the safe runs are exactly those that meet `G`. -/
theorem safe_iff_along (hIP : ∀ s, I s → P s)
    (hgood : ∀ s a, I s → G s a → ∃ b t, m s a = some (b, t) ∧ I t)
    (hbad : ∀ s a b t, I s → ¬G s a → m s a = some (b, t) → ¬P t) (hI : I s) :
    Safe m P s as ↔ Along m G s as := by
  refine ⟨fun h ↦ ?_, safe_of_along hIP hgood hI⟩
  induction as generalizing s with
  | nil => trivial
  | cons a as ih =>
    obtain ⟨-, h⟩ := h
    have hG : G s a := by
      by_contra hG
      cases hs : m s a with
      | none => rw [hs] at h; exact h
      | some r => rw [hs] at h; exact hbad s a r.1 r.2 hI hG hs h.head
    obtain ⟨b, t, hs, hIt⟩ := hgood s a hI hG
    rw [hs] at h
    refine ⟨hG, ?_⟩
    rw [hs]
    exact ih hIt h

/-- **Conditional invariance.** The same for runs, which do not panic: if the steps that meet `G`
keep the invariant, and any other step out of a state with the invariant breaks `P`, then `P` holds
throughout exactly those runs whose steps meet `G`. -/
theorem throughout_iff_along (hIP : ∀ s, I s → P s)
    (hgood : ∀ s a b t, I s → G s a → m s a = some (b, t) → I t)
    (hbad : ∀ s a b t, I s → ¬G s a → m s a = some (b, t) → ¬P t) {t : σ} (hI : I s)
    (h : Run m s es t) : Throughout m P s es ↔ Along m G s (es.map Prod.fst) := by
  induction h with
  | nil s =>
    refine ⟨fun _ ↦ trivial, fun _ es₁ es₂ u hsplit hrun ↦ ?_⟩
    obtain ⟨rfl, rfl⟩ := append_eq_nil_iff.mp hsplit.symm
    cases hrun
    exact hIP s hI
  | @cons s u t a b es hs hrun ih =>
    rw [map_cons, Along, hs]
    constructor
    · intro hP
      have hG : G s a := by
        by_contra hG
        exact hbad s a b u hI hG hs (hP.tail hs).head
      exact ⟨hG, (ih (hgood s a b u hI hG hs)).mp (hP.tail hs)⟩
    · rintro ⟨hG, halong⟩ es₁ es₂ v hsplit hrun'
      have hrest := (ih (hgood s a b u hI hG hs)).mpr halong
      cases hrun' with
      | nil => exact hIP s hI
      | cons hs' hrun' =>
        obtain ⟨he, htail⟩ := List.cons.inj hsplit
        cases he
        cases hs.symm.trans hs'
        exact hrest _ es₂ v htail hrun'

end

/-! ## History variables -/

section

variable {γ : Type}

/-- The machine with a history variable, which the steps update and do not look at. -/
def observed (m : Machine σ α β) (note : γ → σ → α → β → σ → γ) : Machine (σ × γ) α β :=
  fun s a ↦ (m s.1 a).map fun r ↦ (r.1, r.2, note s.2 s.1 a r.1 r.2)

variable {note : γ → σ → α → β → σ → γ}

theorem observed_eq_some_iff {s t : σ × γ} {a : α} {b : β} :
    observed m note s a = some (b, t) ↔
      m s.1 a = some (b, t.1) ∧ t.2 = note s.2 s.1 a b t.1 := by
  rw [observed, map_eq_some_iff]
  constructor
  · rintro ⟨⟨b', t'⟩, hs, h⟩
    cases h
    exact ⟨hs, rfl⟩
  · rintro ⟨hs, h⟩
    exact ⟨(b, t.1), hs, by rw [← h]⟩

/-- The invariant rule for a machine with a history variable. -/
theorem Run.observed_invariant {I : σ × γ → Prop}
    (hstep : ∀ s g a b t, I (s, g) → m s a = some (b, t) → I (t, note g s a b t))
    {s t : σ × γ} {es : List (α × β)} (hI : I s) (h : Run (observed m note) s es t) : I t := by
  refine h.invariant (fun s a b t hI h ↦ ?_) hI
  obtain ⟨hs, hnote⟩ := observed_eq_some_iff.mp h
  have hnext := hstep s.1 s.2 a b t.1 hI hs
  rwa [← hnote] at hnext

end

end Machine

end Nixe
