import Nixe.Effect.Threads
import Nixe.Effect.Word

/-!
# The execution gate

`execution_gate.rs`: CPU slices hold shared guards, a transition of the mapping holds the exclusive
guard. Every lock section of the source is one step of the thread that takes it. A thread that
waits on the condition variable has no step until what it waits for holds; that it may go on at any
such moment, notified or not, only adds behaviours.

## The lock

The exclusive guard keeps the mutex of the gate for its whole life, so that the second phase of
`acquire_exclusive` takes it and only the drop of the guard gives it back. A panic in a lock section
ends its thread and frees the mutex, and the others go on with the state they find, since the
source ignores poisoning.

## The invariant

At most one thread is between the moment at which its request closes admission and the drop of its
guard. Admission stays closed that long, so the shared guards only become fewer, and there are none
once the request is granted.
-/

namespace Nixe.Memory

open Function List ThreadStep Bool

/-! ## The gate -/

structure ExecutionGateState where
  activeShared : Nat
  transitionPending : Bool
  epoch : Nat
  deriving DecidableEq, Repr

/-- The gate with the guards it has given out. -/
structure ExecutionGate where
  state : ExecutionGateState
  /-- An exclusive guard keeps the mutex. -/
  locked : Bool
  /-- The epochs of the shared guards that are held. -/
  guards : List Nat
  deriving DecidableEq, Repr

/-- `ExecutionGate::new` -/
def ExecutionGate.new : ExecutionGate := ⟨⟨0, false, 1⟩, false, []⟩

/-- Where a thread stands with respect to the gate. -/
inductive GatePlace where
  | idle
  /-- Between the two phases of `acquire_exclusive`. -/
  | draining
  | exclusive (committed : Bool)
  | panicked
  deriving DecidableEq, Repr

inductive GateCall where
  | acquireShared
  | closeAdmission
  | awaitDrain
  | commit
  | dropExclusive
  /-- The drop of the guard at this position, which any thread may own by now. -/
  | dropShared (position : Nat)
  deriving DecidableEq, Repr

inductive GateAnswer where
  | admitted (epoch : Nat)
  | closed (notify : Bool)
  | granted
  | committed
  | dropped (committed : Bool)
  | released
  | panicked (message : String)
  deriving DecidableEq, Repr

/-- `acquire_shared` once no transition is pending. -/
def acquireShared (g : ExecutionGate) : GateAnswer × GatePlace × ExecutionGate :=
  match checkedAdd g.state.activeShared 1 with
  | none => (.panicked "shared execution holders are bounded by host workers", .panicked, g)
  | some active =>
    (.admitted g.state.epoch, .idle,
      { g with
        state := { g.state with activeShared := active }
        guards := g.guards ++ [g.state.epoch] })

/-- The first phase of `acquire_exclusive`, once no other transition is pending. -/
def closeAdmission (g : ExecutionGate) : GateAnswer × GatePlace × ExecutionGate :=
  (.closed (g.state.activeShared ≠ 0), .draining,
    { g with state := { g.state with transitionPending := true } })

/-- `Drop for ExecutionTransitionGuard`: the guard and its hold of the mutex are gone even when the
epoch is exhausted, but admission then stays closed. -/
def dropExclusive (committed : Bool) (g : ExecutionGate) :
    GateAnswer × GatePlace × ExecutionGate :=
  match if committed then checkedAdd g.state.epoch 1 else some g.state.epoch with
  | none =>
    (.panicked "execution transition epoch cannot exhaust in one host run", .panicked,
      { g with locked := false })
  | some epoch =>
    (.dropped committed, .idle,
      { g with state := { g.state with transitionPending := false, epoch }, locked := false })

/-- `Drop for ExecutionSharedGuard` -/
def dropShared (place : GatePlace) (position : Nat) (g : ExecutionGate) :
    GateAnswer × GatePlace × ExecutionGate :=
  match checkedSub g.state.activeShared 1 with
  | none =>
    (.panicked "a shared execution guard is released exactly once", .panicked,
      { g with guards := g.guards.eraseIdx position })
  | some active =>
    (.released, place,
      { g with
        state := { g.state with activeShared := active }
        guards := g.guards.eraseIdx position })

variable {ι : Type}

/-- One lock section. Everything but `commit` needs the mutex, which the holder of the exclusive
guard already has. -/
def gateStep : ThreadStep ι ExecutionGate GatePlace GateCall GateAnswer := fun _ call place g ↦
  match call, place with
  | .acquireShared, .idle =>
    if !g.locked && !g.state.transitionPending then some (acquireShared g) else none
  | .closeAdmission, .idle =>
    if !g.locked && !g.state.transitionPending then some (closeAdmission g) else none
  | .awaitDrain, .draining =>
    if !g.locked && g.state.activeShared = 0 then
      some (.granted, .exclusive false, { g with locked := true })
    else none
  | .commit, .exclusive _ => some (.committed, .exclusive true, g)
  | .dropExclusive, .exclusive committed => some (dropExclusive committed g)
  | .dropShared position, .idle | .dropShared position, .draining =>
    if !g.locked && position < g.guards.length then some (dropShared place position g) else none
  | _, _ => none

abbrev GateThreads (ι : Type) := Threads ι ExecutionGate GatePlace

def initialGate : GateThreads ι := ⟨.new, fun _ ↦ .idle⟩

/-! ## Places and events -/

/-- The thread has closed admission and has not dropped the guard it asked for. -/
def GatePlace.InTransition : GatePlace → Prop
  | .draining | .exclusive _ => True
  | .idle | .panicked => False

def GatePlace.IsExclusive (place : GatePlace) : Prop := ∃ committed, place = .exclusive committed

variable {place : GatePlace} {g : ExecutionGate} {answer : GateAnswer} {t : ι} {call : GateCall}
  {c : GateThreads ι} {es : List ((ι × GateCall) × GateAnswer)}

theorem GatePlace.IsExclusive.inTransition (h : place.IsExclusive) : place.InTransition := by
  obtain ⟨committed, rfl⟩ := h
  trivial

/-- A committed exclusive guard was dropped. -/
def isCommittedDrop (e : (ι × GateCall) × GateAnswer) : Bool := e.2 = .dropped true

/-! ## What a step can do -/

/-- The effects of the lock sections, with what each of them finds. -/
inductive GateEffect (g : ExecutionGate) :
    GatePlace → GateCall → GateAnswer → GatePlace → ExecutionGate → Prop
  | admitted (hlock : g.locked = false) (hpending : g.state.transitionPending = false) :
      GateEffect g .idle .acquireShared (.admitted g.state.epoch) .idle
        { g with
          state := { g.state with activeShared := g.state.activeShared + 1 }
          guards := g.guards ++ [g.state.epoch] }
  | close (hlock : g.locked = false) (hpending : g.state.transitionPending = false) :
      GateEffect g .idle .closeAdmission (.closed (g.state.activeShared ≠ 0)) .draining
        { g with state := { g.state with transitionPending := true } }
  | grant (hlock : g.locked = false) (hdrained : g.state.activeShared = 0) :
      GateEffect g .draining .awaitDrain .granted (.exclusive false) { g with locked := true }
  | commit (before : Bool) :
      GateEffect g (.exclusive before) .commit .committed (.exclusive true) g
  | drop (committed : Bool) :
      GateEffect g (.exclusive committed) .dropExclusive (.dropped committed) .idle
        { g with
          state := { g.state with
            transitionPending := false, epoch := g.state.epoch + committed.toNat }
          locked := false }
  | release (place : GatePlace) (position : Nat) (hplace : place = .idle ∨ place = .draining)
      (hposition : position < g.guards.length) (hactive : 1 ≤ g.state.activeShared) :
      GateEffect g place (.dropShared position) .released place
        { g with
          state := { g.state with activeShared := g.state.activeShared - 1 }
          guards := g.guards.eraseIdx position }
  | acquirePanic (message : String) :
      GateEffect g .idle .acquireShared (.panicked message) .panicked g
  | dropPanic (message : String) :
      GateEffect g (.exclusive true) .dropExclusive (.panicked message) .panicked
        { g with locked := false }
  | releasePanic (place : GatePlace) (position : Nat) (message : String)
      (hposition : position < g.guards.length) (hactive : g.state.activeShared = 0) :
      GateEffect g place (.dropShared position) (.panicked message) .panicked
        { g with guards := g.guards.eraseIdx position }

variable {g' : ExecutionGate} {d : GateThreads ι}

theorem dropShared_effect {place' : GatePlace} {position : Nat}
    (hplace : place = .idle ∨ place = .draining) (hposition : position < g.guards.length)
    (h : dropShared place position g = (answer, place', g')) :
    GateEffect g place (.dropShared position) answer place' g' := by
  rw [dropShared] at h
  split at h
  · obtain ⟨rfl, rfl, rfl⟩ := h
    have hactive := checkedSub_eq_none_iff.mp ‹_›
    exact .releasePanic place position _ hposition (Nat.lt_one_iff.mp hactive)
  · obtain ⟨rfl, rfl, rfl⟩ := h
    obtain ⟨hactive, rfl⟩ := checkedSub_eq_some_iff.mp ‹_›
    exact .release place position hplace hposition hactive

/-- Every step of a thread is one of the effects. -/
theorem gateStep_effect {place' : GatePlace}
    (h : gateStep t call place g = some (answer, place', g')) :
    GateEffect g place call answer place' g' := by
  revert h
  fun_cases gateStep t call place g
  case case1 hfree =>
    intro h
    rw [and_eq_true, not_eq_true', not_eq_true'] at hfree
    rw [Option.some_inj, acquireShared] at h
    split at h
    · obtain ⟨rfl, rfl, rfl⟩ := h
      exact .acquirePanic _
    · obtain ⟨rfl, rfl, rfl⟩ := h
      obtain ⟨-, rfl⟩ := checkedAdd_eq_some_iff.mp ‹_›
      exact .admitted hfree.1 hfree.2
  case case3 hfree =>
    rintro ⟨⟩
    rw [and_eq_true, not_eq_true', not_eq_true'] at hfree
    exact .close hfree.1 hfree.2
  case case5 hfree =>
    rintro ⟨⟩
    rw [and_eq_true, not_eq_true', decide_eq_true_eq] at hfree
    exact .grant hfree.1 hfree.2
  case case7 before =>
    rintro ⟨⟩
    exact .commit before
  case case8 committed =>
    intro h
    rw [Option.some_inj, dropExclusive] at h
    cases committed with
    | false =>
      obtain ⟨rfl, rfl, rfl⟩ := h
      exact .drop false
    | true =>
      simp only [if_true] at h
      split at h
      · obtain ⟨rfl, rfl, rfl⟩ := h
        exact .dropPanic _
      · obtain ⟨rfl, rfl, rfl⟩ := h
        obtain ⟨-, rfl⟩ := checkedAdd_eq_some_iff.mp ‹_›
        exact .drop true
  case case9 position hfree =>
    intro h
    rw [and_eq_true, decide_eq_true_eq] at hfree
    exact dropShared_effect (.inl rfl) hfree.2 (Option.some_inj.mp h)
  case case11 position hfree =>
    intro h
    rw [and_eq_true, decide_eq_true_eq] at hfree
    exact dropShared_effect (.inr rfl) hfree.2 (Option.some_inj.mp h)
  all_goals exact nofun

/-! ## The invariant -/

variable [DecidableEq ι]

structure GateInvariant (c : GateThreads ι) : Prop where
  /-- The counter counts the shared guards that are held. -/
  active : c.shared.state.activeShared = c.shared.guards.length
  /-- Every shared guard was admitted in the present epoch. -/
  epochs : ∀ e ∈ c.shared.guards, e = c.shared.state.epoch
  /-- A transition keeps admission closed. -/
  pending : ∀ t, (c.locals t).InTransition → c.shared.state.transitionPending = true
  /-- Two threads are not in transition at once. -/
  unique : ∀ t u, (c.locals t).InTransition → (c.locals u).InTransition → t = u
  /-- An exclusive guard has the mutex, and no shared guard is left. -/
  exclusive : ∀ t, (c.locals t).IsExclusive → c.shared.locked = true ∧ c.shared.guards = []

omit [DecidableEq ι] in
theorem initialGate_invariant : GateInvariant (initialGate (ι := ι)) where
  active := rfl
  epochs := nofun
  pending := fun _ h ↦ h.elim
  unique := fun _ _ h ↦ h.elim
  exclusive := fun _ ⟨_, h⟩ ↦ nomatch h

/-- What the threads' places say about the gate, for a step that moves one thread to `place`. -/
theorem GateInvariant.move (hc : GateInvariant c)
    (hactive : g.state.activeShared = g.guards.length)
    (hepochs : ∀ e ∈ g.guards, e = g.state.epoch)
    (hpending : ∀ u, u ≠ t → (c.locals u).InTransition → g.state.transitionPending = true)
    (hplace : place.InTransition →
      g.state.transitionPending = true ∧ ∀ u, u ≠ t → ¬(c.locals u).InTransition)
    (hothers : ∀ u, u ≠ t → (c.locals u).IsExclusive → g.locked = true ∧ g.guards = [])
    (hexclusive : place.IsExclusive → g.locked = true ∧ g.guards = []) :
    GateInvariant ⟨g, Function.update c.locals t place⟩ where
  active := hactive
  epochs := hepochs
  pending u hu := by
    by_cases h : u = t
    · subst h
      simp only [update_self] at hu
      exact (hplace hu).1
    · simp only [update_of_ne h] at hu
      exact hpending u h hu
  unique u v hu hv := by
    by_cases hut : u = t <;> by_cases hvt : v = t
    · rw [hut, hvt]
    · subst hut
      simp only [update_self] at hu
      simp only [update_of_ne hvt] at hv
      exact absurd hv ((hplace hu).2 v hvt)
    · subst hvt
      simp only [update_of_ne hut] at hu
      simp only [update_self] at hv
      exact absurd hu ((hplace hv).2 u hut)
    · simp only [update_of_ne hut] at hu
      simp only [update_of_ne hvt] at hv
      exact hc.unique u v hu hv
  exclusive u hu := by
    by_cases h : u = t
    · subst h
      simp only [update_self] at hu
      exact hexclusive hu
    · simp only [update_of_ne h] at hu
      exact hothers u h hu

omit [DecidableEq ι] in
/-- While one thread is in transition, no other is. -/
theorem GateInvariant.alone (hc : GateInvariant c) (ht : (c.locals t).InTransition) {u : ι}
    (hu : u ≠ t) : ¬(c.locals u).InTransition :=
  fun h ↦ hu (hc.unique u t h ht)

omit [DecidableEq ι] in
/-- While admission is open, no thread is in transition. -/
theorem GateInvariant.none_of_open (hc : GateInvariant c)
    (h : c.shared.state.transitionPending = false) (u : ι) : ¬(c.locals u).InTransition :=
  fun hu ↦ false_ne_true (h.symm.trans (hc.pending u hu))

theorem GateInvariant.step (hc : GateInvariant c)
    (h : GateEffect c.shared (c.locals t) call answer place g) :
    GateInvariant ⟨g, Function.update c.locals t place⟩ := by
  generalize hplace : c.locals t = before at h
  cases h with
  | admitted hlock hpending =>
    -- Admission is open, so nobody is in a transition.
    have hnone := hc.none_of_open hpending
    refine hc.move ?_ ?_ (fun u _ hu ↦ absurd hu (hnone u)) (fun h ↦ h.elim)
      (fun u _ hu ↦ absurd hu.inTransition (hnone u)) (fun ⟨_, h⟩ ↦ nomatch h)
    · rw [length_append, length_singleton, ← hc.active]
    · intro e he
      rcases mem_append.mp he with he | he
      · exact hc.epochs e he
      · exact mem_singleton.mp he
  | close hlock hpending =>
    have hnone := hc.none_of_open hpending
    exact hc.move hc.active hc.epochs (fun _ _ _ ↦ rfl) (fun _ ↦ ⟨rfl, fun u _ ↦ hnone u⟩)
      (fun u _ hu ↦ absurd hu.inTransition (hnone u)) (fun ⟨_, h⟩ ↦ nomatch h)
  | grant hlock hdrained =>
    have ht : (c.locals t).InTransition := by rw [hplace]; trivial
    -- The transition waited until the last shared guard was dropped.
    have hempty : c.shared.guards = [] := eq_nil_of_length_eq_zero (hc.active ▸ hdrained)
    exact hc.move hc.active hc.epochs (fun u _ ↦ hc.pending u)
      (fun _ ↦ ⟨hc.pending t ht, fun u ↦ hc.alone ht⟩)
      (fun u hu h ↦ absurd h.inTransition (hc.alone ht hu)) (fun _ ↦ ⟨rfl, hempty⟩)
  | commit committed =>
    have ht : (c.locals t).IsExclusive := ⟨committed, hplace⟩
    exact hc.move hc.active hc.epochs (fun u _ ↦ hc.pending u)
      (fun _ ↦ ⟨hc.pending t ht.inTransition, fun u ↦ hc.alone ht.inTransition⟩)
      (fun u _ ↦ hc.exclusive u) (fun _ ↦ hc.exclusive t ht)
  | drop committed =>
    -- The epoch moves, and there is no shared guard that could see it move.
    have ht : (c.locals t).IsExclusive := ⟨committed, hplace⟩
    have hempty := (hc.exclusive t ht).2
    exact hc.move hc.active (fun e he ↦ absurd (hempty ▸ he) not_mem_nil)
      (fun u hu h ↦ absurd h (hc.alone ht.inTransition hu)) (fun h ↦ h.elim)
      (fun u hu h ↦ absurd h.inTransition (hc.alone ht.inTransition hu)) (fun ⟨_, h⟩ ↦ nomatch h)
  | release _ position hplaces hposition hactive =>
    have hnot : ¬place.IsExclusive := by
      rintro ⟨committed, rfl⟩
      exact hplaces.elim nofun nofun
    refine hc.move ?_ (fun e he ↦ hc.epochs e (mem_of_mem_eraseIdx he))
      (fun u _ ↦ hc.pending u) (fun h ↦ ?_) (fun u _ hu ↦ ?_) (fun h ↦ absurd h hnot)
    · rw [length_eraseIdx_of_lt hposition, ← hc.active]
    · have ht : (c.locals t).InTransition := by rwa [hplace]
      exact ⟨hc.pending t ht, fun u ↦ hc.alone ht⟩
    -- Next to an exclusive guard there is no shared one to release.
    · rw [(hc.exclusive u hu).2] at hposition
      exact absurd hposition (Nat.not_lt_zero _)
  | acquirePanic message =>
    exact hc.move hc.active hc.epochs (fun u _ ↦ hc.pending u) (fun h ↦ h.elim)
      (fun u _ ↦ hc.exclusive u) (fun ⟨_, h⟩ ↦ nomatch h)
  | dropPanic message =>
    have ht : (c.locals t).IsExclusive := ⟨true, hplace⟩
    exact hc.move hc.active hc.epochs (fun u _ ↦ hc.pending u) (fun h ↦ h.elim)
      (fun u hu h ↦ absurd h.inTransition (hc.alone ht.inTransition hu)) (fun ⟨_, h⟩ ↦ nomatch h)
  | releasePanic _ position message hposition hactive =>
    -- The count is the number of guards, so it is not zero here.
    rw [← hc.active, hactive] at hposition
    exact absurd hposition (Nat.not_lt_zero _)

/-! ## Closed admission -/

/-- Admission is closed, and only `t` could open it. -/
structure ClosedFor (t : ι) (c : GateThreads ι) : Prop where
  pending : c.shared.state.transitionPending = true
  only : ∀ u, (c.locals u).InTransition → u = t

/-- A step that is not the drop of the guard leaves admission closed and admits nobody. -/
theorem ClosedFor.step {u : ι} (hc : ClosedFor t c)
    (h : GateEffect c.shared (c.locals u) call answer place g) :
    (∃ committed, u = t ∧ call = .dropExclusive ∧ answer = .dropped committed) ∨
      ClosedFor t ⟨g, Function.update c.locals u place⟩ ∧ ∀ epoch, answer ≠ .admitted epoch := by
  have hupdate (hpending : g.state.transitionPending = true)
      (hplace : place.InTransition → (c.locals u).InTransition) :
      ClosedFor t ⟨g, Function.update c.locals u place⟩ := by
    refine ⟨hpending, fun v hv ↦ ?_⟩
    by_cases hvu : v = u
    · subst hvu
      simp only [update_self] at hv
      exact hc.only v (hplace hv)
    · simp only [update_of_ne hvu] at hv
      exact hc.only v hv
  generalize hbefore : c.locals u = before at h
  cases h with
  | admitted _ hopen | close _ hopen => exact absurd (hopen.symm.trans hc.pending) false_ne_true
  | drop committed =>
    have hu : (c.locals u).InTransition := by rw [hbefore]; trivial
    exact .inl ⟨committed, hc.only u hu, rfl, rfl⟩
  | grant | commit =>
    refine .inr ⟨hupdate hc.pending fun _ ↦ ?_, nofun⟩
    rw [hbefore]
    trivial
  | release =>
    refine .inr ⟨hupdate hc.pending fun h ↦ ?_, nofun⟩
    rwa [hbefore]
  | acquirePanic | dropPanic | releasePanic =>
    exact .inr ⟨hupdate hc.pending fun h ↦ h.elim, nofun⟩

/-- Between a state in which admission is closed for `t` and an admission, `t` drops its guard. -/
theorem dropped_of_admitted {u : ι} (hc : ClosedFor t c)
    {es' : List ((ι × GateCall) × GateAnswer)} {epoch : Nat}
    (h : (machine gateStep).Run c (es ++ ((u, call), .admitted epoch) :: es') d) :
    ∃ committed, ((t, .dropExclusive), .dropped committed) ∈ es := by
  induction es generalizing c with
  | nil =>
    obtain ⟨v, hstep, -⟩ := Machine.Run.cons_iff.mp h
    obtain ⟨place, g, hact, rfl⟩ := machine_eq_some_iff.mp hstep
    rcases hc.step (gateStep_effect hact) with ⟨_, -, -, hanswer⟩ | ⟨-, hanswer⟩
    · exact nomatch hanswer
    · exact absurd rfl (hanswer epoch)
  | cons e es ih =>
    obtain ⟨⟨v, call⟩, answer⟩ := e
    obtain ⟨w, hstep, hrun⟩ := Machine.Run.cons_iff.mp h
    obtain ⟨place, g, hact, rfl⟩ := machine_eq_some_iff.mp hstep
    rcases hc.step (gateStep_effect hact) with ⟨committed, rfl, rfl, rfl⟩ | ⟨hclosed, -⟩
    · exact ⟨committed, mem_cons_self⟩
    · obtain ⟨committed, hmem⟩ := ih hclosed hrun
      exact ⟨committed, mem_cons_of_mem _ hmem⟩

/-- A request that closes admission closes it for its thread. -/
theorem closedFor_of_closed (hc : GateInvariant c) {notify : Bool}
    (h : GateEffect c.shared (c.locals t) call (.closed notify) place g) :
    ClosedFor t ⟨g, Function.update c.locals t place⟩ := by
  generalize hbefore : c.locals t = before at h
  cases h with
  | close hlock hopen =>
    refine ⟨rfl, fun u hu ↦ ?_⟩
    by_contra hne
    simp only [update_of_ne hne] at hu
    exact hc.none_of_open hopen u hu

/-! ## The epoch -/

theorem epoch_of_run (h : (machine gateStep).Run c es d) :
    d.shared.state.epoch = c.shared.state.epoch + es.countP isCommittedDrop := by
  induction h with
  | nil => rfl
  | @cons c v d a answer es hstep _ ih =>
    obtain ⟨t, call⟩ := a
    obtain ⟨place, g, hact, rfl⟩ := machine_eq_some_iff.mp hstep
    -- Only the drop of a committed guard moves the epoch.
    have hepoch : g.state.epoch = c.shared.state.epoch +
        (isCommittedDrop ((t, call), answer)).toNat := by
      have heffect := gateStep_effect hact
      generalize c.locals t = before at heffect
      cases heffect with
      | drop committed => cases committed <;> rfl
      | _ => rfl
    rw [ih, hepoch, countP_cons]
    cases isCommittedDrop ((t, call), answer) with
    | false => simp
    | true => rw [if_pos rfl, toNat_true, Nat.add_assoc, Nat.add_comm 1]

/-! ## Exclusion -/

theorem run_gateInvariant (h : (machine gateStep).Run c es d) (hc : GateInvariant c) :
    GateInvariant d := by
  refine h.invariant (fun c a answer d hc hstep ↦ ?_) hc
  obtain ⟨t, call⟩ := a
  obtain ⟨place, g, hact, rfl⟩ := machine_eq_some_iff.mp hstep
  exact hc.step (gateStep_effect hact)

/-- **The gate excludes.** In every state that any number of threads reach, an exclusive guard is
the only guard, and a shared guard carries the epoch of the gate; the epoch counts the committed
guards that were dropped, and nobody is admitted from the moment an exclusive request closes
admission to the drop of its guard. -/
theorem gate_excludes {d : GateThreads ι} {es : List ((ι × GateCall) × GateAnswer)}
    (h : (ThreadStep.machine gateStep).Run initialGate es d) :
    (∀ t, (d.locals t).IsExclusive →
      d.shared.guards = [] ∧ ∀ u, (d.locals u).IsExclusive → u = t) ∧
    (∀ es₁ es₂ es₃ t notify u epoch,
      es = es₁ ++ ((t, .closeAdmission), .closed notify) ::
        (es₂ ++ ((u, .acquireShared), .admitted epoch) :: es₃) →
      ∃ committed, ((t, .dropExclusive), .dropped committed) ∈ es₂) ∧
    d.shared.state.epoch = 1 + es.countP isCommittedDrop ∧
    ∀ e ∈ d.shared.guards, e = d.shared.state.epoch := by
  have hd := run_gateInvariant h initialGate_invariant
  refine ⟨fun t ht ↦ ⟨(hd.exclusive t ht).2, fun u hu ↦ ?_⟩, ?_, epoch_of_run h, hd.epochs⟩
  · exact hd.unique u t hu.inTransition ht.inTransition
  · rintro es₁ es₂ es₃ t notify u epoch rfl
    obtain ⟨c, hbefore, hafter⟩ := Machine.Run.append_iff.mp h
    obtain ⟨v, hclose, hafter⟩ := Machine.Run.cons_iff.mp hafter
    obtain ⟨place, g, hact, rfl⟩ := machine_eq_some_iff.mp hclose
    have hc := run_gateInvariant hbefore initialGate_invariant
    exact dropped_of_admitted (closedFor_of_closed hc (gateStep_effect hact)) hafter

/-- A slice is running when a transition closes admission; it drains, the transition commits, and a
second slice is admitted in the next epoch. -/
def gateSteps : List (Fin 2 × GateCall) :=
  [(0, .acquireShared), (1, .closeAdmission), (0, .dropShared 0), (1, .awaitDrain), (1, .commit),
    (1, .dropExclusive), (0, .acquireShared)]

theorem gate_excludes_committed :
    ∃ es d, (ThreadStep.machine gateStep).Run (initialGate (ι := Fin 2)) es d ∧
      d.shared.guards = [2] ∧ d.shared.state.epoch = 1 + es.countP isCommittedDrop := by
  have hexec : ∃ r ∈ Machine.exec (machine gateStep) initialGate gateSteps,
      r.2.shared.guards = [2] := by decide
  obtain ⟨es, d, hrun, -, hguards⟩ := Machine.exists_run_of_exec hexec
  exact ⟨es, d, hrun, hguards, (gate_excludes hrun).2.2.1⟩

end Nixe.Memory
