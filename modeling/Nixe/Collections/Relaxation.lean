import Mathlib

/-!
# Relaxation of the edges of a graph

Every vertex has a value; an edge lowers the value of its head to that of its tail. Repeated rounds
over all edges leave at every vertex the least initial value among the vertices from which it can
be reached.

A round settles at least one more vertex: take the least initial value that some vertex still has
to get. On the way from where it comes from to where it has to go there is an edge whose tail has
it and whose head does not, and the round carries it over that edge. So as many rounds as there are
vertices are enough, whatever the cycles.
-/

namespace Nixe.Relaxation

open Function

variable {V α : Type} [DecidableEq V] [LinearOrder α]

/-- Lower the value at the head of an edge to that at its tail. -/
def relaxEdge (p : V → α) (e : V × V) : V → α := Function.update p e.2 (min (p e.2) (p e.1))

def relaxRound (edges : List (V × V)) (p : V → α) : V → α := edges.foldl relaxEdge p

/-- There is a path from `u` to `v`. -/
def Reaches (edges : List (V × V)) : V → V → Prop :=
  Relation.ReflTransGen fun a b ↦ (a, b) ∈ edges

variable {edges : List (V × V)} {base p : V → α}

/-! ## Edges and rounds -/

theorem relaxEdge_le (p : V → α) (e : V × V) (v : V) : relaxEdge p e v ≤ p v := by
  rw [relaxEdge]
  by_cases h : v = e.2
  · subst h
    rw [update_self]
    exact min_le_left _ _
  · rw [update_of_ne h]

theorem relaxRound_le (edges : List (V × V)) (p : V → α) (v : V) :
    relaxRound edges p v ≤ p v := by
  induction edges generalizing p with
  | nil => exact le_rfl
  | cons e edges ih => exact (ih (relaxEdge p e)).trans (relaxEdge_le p e v)

/-- A round carries the values over its edges. -/
theorem relaxRound_head_le {e : V × V} (he : e ∈ edges) (p : V → α) :
    relaxRound edges p e.2 ≤ p e.1 := by
  induction edges generalizing p with
  | nil => exact nomatch he
  | cons e' edges ih =>
    rcases List.mem_cons.mp he with rfl | he
    · refine (relaxRound_le edges _ _).trans ?_
      rw [relaxEdge, update_self]
      exact min_le_right _ _
    · exact (ih he (relaxEdge p e')).trans (relaxEdge_le p e' e.1)

/-! ## Values between rounds -/

/-- The values that rounds out of `base` can have: at most the initial ones, and each of them the
initial value of a vertex from which there is a path. -/
structure Between (edges : List (V × V)) (base p : V → α) : Prop where
  le : ∀ v, p v ≤ base v
  attained : ∀ v, ∃ u, Reaches edges u v ∧ p v = base u

omit [DecidableEq V] in
theorem Between.refl (edges : List (V × V)) (base : V → α) : Between edges base base :=
  ⟨fun _ ↦ le_rfl, fun v ↦ ⟨v, .refl, rfl⟩⟩

theorem Between.relaxEdge (h : Between edges base p) {e : V × V} (he : e ∈ edges) :
    Between edges base (relaxEdge p e) where
  le v := (relaxEdge_le p e v).trans (h.le v)
  attained v := by
    rw [Relaxation.relaxEdge]
    by_cases hv : v = e.2
    · subst hv
      rw [update_self]
      rcases min_choice (p e.2) (p e.1) with hmin | hmin
      · rw [hmin]
        exact h.attained e.2
      · obtain ⟨u, hu, hvalue⟩ := h.attained e.1
        exact ⟨u, hu.tail he, hmin.trans hvalue⟩
    · rw [update_of_ne hv]
      exact h.attained v

theorem Between.foldl (h : Between edges base p) {es : List (V × V)} (hes : es ⊆ edges) :
    Between edges base (es.foldl Relaxation.relaxEdge p) := by
  induction es generalizing p with
  | nil => exact h
  | cons e es ih =>
    obtain ⟨he, hes⟩ := List.cons_subset.mp hes
    exact ih (h.relaxEdge he) hes

theorem Between.relaxRound (h : Between edges base p) :
    Between edges base (relaxRound edges p) := h.foldl fun _ he ↦ he

/-! ## Settled vertices -/

/-- The vertex has the least of the initial values that it has to get. -/
def Settled (edges : List (V × V)) (base p : V → α) (v : V) : Prop :=
  ∀ u, Reaches edges u v → p v ≤ base u

omit [DecidableEq V] in
theorem Settled.isLeast {v : V} (h : Settled edges base p v) (hp : Between edges base p) :
    IsLeast {a | ∃ u, Reaches edges u v ∧ base u = a} (p v) := by
  obtain ⟨u, hu, hvalue⟩ := hp.attained v
  refine ⟨⟨u, hu, hvalue.symm⟩, ?_⟩
  rintro _ ⟨w, hw, rfl⟩
  exact h w hw

theorem Settled.relaxRound {v : V} (h : Settled edges base p v) :
    Settled edges base (relaxRound edges p) v :=
  fun u hu ↦ (relaxRound_le edges p v).trans (h u hu)

omit [DecidableEq V] in
/-- On a path from a vertex with a value of at most `b` to one with a greater value there is an edge
that leads from the one kind to the other. -/
theorem exists_edge_of_reaches {u v : V} {b : α} (h : Reaches edges u v) (hu : p u ≤ b)
    (hv : b < p v) :
    ∃ e ∈ edges, Reaches edges u e.2 ∧ p e.1 ≤ b ∧ b < p e.2 := by
  induction h with
  | refl => exact absurd hu hv.not_ge
  | @tail w x hpath hedge ih =>
    rcases le_or_gt (p w) b with hw | hw
    · exact ⟨(w, x), hedge, hpath.tail hedge, hw, hv⟩
    · exact ih hw

variable {vertices : Finset V}

/-- A round settles one more vertex, as long as there is one to settle. -/
theorem exists_newly_settled (hvertices : ∀ e ∈ edges, e.1 ∈ vertices ∧ e.2 ∈ vertices)
    (hp : Between edges base p) (h : ∃ v, ¬Settled edges base p v) :
    ∃ x ∈ vertices, ¬Settled edges base p x ∧ Settled edges base (relaxRound edges p) x := by
  classical
  -- The initial values that some vertex still has to get, and the least of them.
  let sources := vertices.filter fun u ↦ ∃ v, Reaches edges u v ∧ base u < p v
  have hmem {u v : V} (hu : Reaches edges u v) (hlt : base u < p v) : u ∈ sources := by
    refine Finset.mem_filter.mpr ⟨?_, v, hu, hlt⟩
    rcases hu.cases_head with rfl | ⟨w, hedge, -⟩
    · exact absurd (hp.le u) hlt.not_ge
    · exact (hvertices _ hedge).1
  have hsources : sources.Nonempty := by
    obtain ⟨v, hv⟩ := h
    simp only [Settled, not_forall, not_le] at hv
    obtain ⟨u, hu, hlt⟩ := hv
    exact ⟨u, hmem hu hlt⟩
  obtain ⟨u, hu, hleast⟩ := sources.exists_min_image base hsources
  obtain ⟨v, hreach, hlt⟩ := (Finset.mem_filter.mp hu).2
  obtain ⟨e, he, hpath, htail, hhead⟩ := exists_edge_of_reaches hreach (hp.le u) hlt
  refine ⟨e.2, (hvertices e he).2, fun hsettled ↦ hhead.not_ge (hsettled u hpath), ?_⟩
  intro w hw
  have hround : relaxRound edges p e.2 ≤ base u := (relaxRound_head_le he p).trans htail
  by_contra hless
  have hless : base w < base u := (not_le.mp hless).trans_le hround
  exact (hleast w (hmem hw (hless.trans hhead))).not_gt hless

/-- **As many rounds as there are vertices settle all of them.** -/
theorem settled_of_rounds (hvertices : ∀ e ∈ edges, e.1 ∈ vertices ∧ e.2 ∈ vertices) {n : Nat}
    (hp : Between edges base p) {unsettled : Finset V}
    (hall : ∀ v, ¬Settled edges base p v → v ∈ unsettled) (hcard : unsettled.card ≤ n) (v : V) :
    Settled edges base ((relaxRound edges)^[n] p) v := by
  induction n generalizing p unsettled with
  | zero =>
    by_contra hv
    have hempty := Finset.card_eq_zero.mp (Nat.le_zero.mp hcard)
    exact absurd (hall v hv) (hempty ▸ Finset.notMem_empty v)
  | succ n ih =>
    rw [iterate_succ_apply]
    by_cases h : ∃ v, ¬Settled edges base p v
    · obtain ⟨x, -, hbefore, hafter⟩ := exists_newly_settled hvertices hp h
      have hx := hall x hbefore
      have hrest : ∀ v, ¬Settled edges base (relaxRound edges p) v → v ∈ unsettled.erase x := by
        intro v hv
        refine Finset.mem_erase.mpr ⟨?_, hall v fun hsettled ↦ hv hsettled.relaxRound⟩
        rintro rfl
        exact hv hafter
      refine ih hp.relaxRound hrest ?_
      rw [Finset.card_erase_of_mem hx]
      omega
    · have hsettled : ∀ v, Settled edges base p v := not_exists_not.mp h
      have hempty : ∀ v, ¬Settled edges base (relaxRound edges p) v → v ∈ (∅ : Finset V) :=
        fun v hv ↦ absurd (hsettled v).relaxRound hv
      exact ih hp.relaxRound hempty (Nat.zero_le n)

end Nixe.Relaxation
