import Mathlib

/-!
# Thread and process lifecycles

The transition tables that every change of a lifecycle goes through. A refused transition leaves
the lifecycle as it was, so a transition is modelled as a function that returns the new
lifecycle or an error.
-/

namespace Nixe.Scheduler

inductive ProcessLifecycle where
  | created
  | running
  | terminating
  | exited
  | faulted
deriving DecidableEq, Repr

inductive ThreadLifecycle where
  | created
  | ready
  | running
  | waiting
  | preempted
  | suspended
  | terminating
  | exited
  | faulted
deriving DecidableEq, Repr

inductive LifecycleTransitionError (S : Type) where
  | duplicate (state : S)
  | illegal (current target : S)
deriving DecidableEq, Repr

/-- The table of `transition_process`. -/
def ProcessLifecycle.allowed : ProcessLifecycle → ProcessLifecycle → Bool
  | .created, .running | .created, .terminating | .created, .faulted
  | .running, .terminating | .running, .faulted
  | .terminating, .exited => true
  | _, _ => false

def transitionProcess (state target : ProcessLifecycle) :
    Except (LifecycleTransitionError ProcessLifecycle) ProcessLifecycle :=
  if state = target then .error (.duplicate target)
  else if !state.allowed target then .error (.illegal state target)
  else .ok target

/-- The table of `transition_thread`. -/
def ThreadLifecycle.allowed : ThreadLifecycle → ThreadLifecycle → Bool
  | .created, .ready | .created, .terminating
  | .ready, .running | .ready, .terminating | .ready, .suspended
  | .running, .ready | .running, .waiting | .running, .preempted | .running, .terminating
  | .running, .faulted
  | .waiting, .ready | .waiting, .terminating | .waiting, .faulted
  | .preempted, .ready | .preempted, .running | .preempted, .terminating
  | .suspended, .ready | .suspended, .terminating
  | .terminating, .exited => true
  | _, _ => false

def transitionThread (state target : ThreadLifecycle) :
    Except (LifecycleTransitionError ThreadLifecycle) ThreadLifecycle :=
  if state = target then .error (.duplicate target)
  else if !state.allowed target then .error (.illegal state target)
  else .ok target

/-- No entry of the table is a self-loop, so the table alone decides a transition. -/
theorem transitionThread_eq_ok_iff {state target l : ThreadLifecycle} :
    transitionThread state target = .ok l ↔ state.allowed target = true ∧ l = target := by
  by_cases h : state = target
  · subst h
    cases state <;> simp [transitionThread, ThreadLifecycle.allowed]
  · by_cases ha : state.allowed target = true
    · simp [transitionThread, h, ha, eq_comm (a := l)]
    · simp [transitionThread, h, ha]

end Nixe.Scheduler
