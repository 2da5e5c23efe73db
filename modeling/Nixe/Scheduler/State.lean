import Nixe.Effect.Machine
import Nixe.Effect.Word
import Nixe.Scheduler.Lifecycle
import Nixe.Scheduler.Topology

/-!
# The scheduler

A model of the scheduler state and of the fourteen commands that change it. The state is three
tables that refer to one another — threads, the ready queue, and the virtual CPU slots — and
three counters that hand out queue positions, lease generations and wake generations.

Every handler is a `Method`, statement by statement as in the source: an error keeps whatever
the handler had written before it, and each `expect` and `debug_assert!` is a possible panic.
-/

namespace Nixe.Scheduler

open Std Method

/-! ## Data -/

structure ScheduledThreadConfig where
  process : ProcessId
  thread : GuestThreadId
  basePriority : Int
  effectivePriority : Int
  idealVcpu : Option VirtualCpuId
  affinity : CoreSet
deriving DecidableEq, Repr

/-- The right of a thread to run on a virtual CPU, until the lease is completed. -/
structure Lease where
  process : ProcessId
  thread : GuestThreadId
  vcpu : VirtualCpuId
  generation : Nat
deriving DecidableEq, Repr

/-- The name of one registered wait of a thread. -/
structure WakeToken where
  thread : GuestThreadId
  generation : Nat
deriving DecidableEq, Repr

inductive Readiness where
  | ready
  | pending
deriving DecidableEq, Repr

inductive Completion where
  | ready
  | preempted
  | waiting
  | exited
  | faulted
deriving DecidableEq, Repr

inductive MigrationEffect where
  | none
  | clearOldLocalExclusive (oldVcpu : VirtualCpuId)
deriving DecidableEq, Repr

inductive SchedulerCommand where
  | register (config : ScheduledThreadConfig)
  | unregister (thread : GuestThreadId)
  | makeReady (thread : GuestThreadId)
  | selectNext
  | select (vcpu : VirtualCpuId)
  | complete (lease : Lease) (outcome : Completion)
  | registerWait (thread : GuestThreadId) (readiness : Readiness)
  | wake (token : WakeToken)
  | cancelWait (token : WakeToken)
  | terminate (thread : GuestThreadId) (faulted : Bool)
  | migrate (thread : GuestThreadId) (idealVcpu : Option VirtualCpuId) (affinity : CoreSet)
  | setPriority (thread : GuestThreadId) (priority : Int)
  | setEffectivePriority (thread : GuestThreadId) (priority : Int)
  | setActivity (thread : GuestThreadId) (paused : Bool)
deriving DecidableEq, Repr

inductive SchedulerDecision where
  | registered (thread : GuestThreadId)
  | unregistered (thread : GuestThreadId)
  | enqueued (thread : GuestThreadId) (sequence : Nat)
  | selected (lease : Option Lease)
  | completed (thread : GuestThreadId)
  | waitRegistered (token : WakeToken)
  | readyImmediately (thread : GuestThreadId)
  | woken (thread : GuestThreadId)
  | waitCancelled (thread : GuestThreadId)
  | terminated (thread : GuestThreadId)
  | migrated (thread : GuestThreadId) (effect : MigrationEffect)
  | priorityChanged (thread : GuestThreadId)
  | activityChanged (thread : GuestThreadId)
deriving DecidableEq, Repr

inductive SchedulerError where
  | duplicateThread (thread : GuestThreadId)
  | unknownThread (thread : GuestThreadId)
  | unknownVirtualCpu (vcpu : VirtualCpuId)
  | invalidPriority (priority : Int)
  | idealOutsideAffinity (thread : GuestThreadId) (ideal : VirtualCpuId)
  | invalidThreadState (thread : GuestThreadId) (state : ThreadLifecycle)
  | threadLeased (thread : GuestThreadId)
  | virtualCpuBusy (vcpu : VirtualCpuId)
  | staleLease (lease : Lease)
  | duplicateWait (thread : GuestThreadId)
  | staleWake (token : WakeToken)
  | sequenceExhausted
  | leaseGenerationExhausted
  | wakeGenerationExhausted
deriving DecidableEq, Repr

/-- A place in the ready queue, ordered by priority, then age, then thread. -/
structure ReadyKey where
  priority : Int
  sequence : Nat
  thread : GuestThreadId
deriving DecidableEq, Repr

instance : Ord ReadyKey where
  compare := compareLex (compareOn ReadyKey.priority)
    (compareLex (compareOn ReadyKey.sequence) (compareOn ReadyKey.thread))

instance : TransOrd ReadyKey :=
  inferInstanceAs (TransCmp (compareLex (compareOn ReadyKey.priority)
    (compareLex (compareOn ReadyKey.sequence) (compareOn ReadyKey.thread))))

theorem ReadyKey.compare_eq_lt_iff {a b : ReadyKey} :
    compare a b = .lt ↔ a.priority < b.priority ∨ a.priority = b.priority ∧
      (a.sequence < b.sequence ∨ a.sequence = b.sequence ∧ a.thread < b.thread) := by
  change compareLex _ _ a b = .lt ↔ _
  simp [compareLex, compareOn, Ordering.then_eq_lt, compare_lt_iff_lt]

instance : LawfulEqOrd ReadyKey where
  eq_of_compare {a b} h := by
    change compareLex _ _ a b = .eq at h
    simp only [compareLex, compareOn, Ordering.then_eq_eq, Std.compare_eq_iff_eq] at h
    cases a
    cases b
    simp_all

structure ScheduledThread where
  config : ScheduledThreadConfig
  lifecycle : ThreadLifecycle
  readyKey : Option ReadyKey
  activeLease : Option Lease
  activeWait : Option WakeToken
  lastVcpu : Option VirtualCpuId
deriving DecidableEq, Repr

structure VirtualCpuSlot where
  lease : Option Lease
deriving DecidableEq, Repr

structure SchedulerState where
  profile : MachineSchedulerProfile
  threads : ExtTreeMap GuestThreadId ScheduledThread
  ready : ExtTreeSet ReadyKey
  vcpus : ExtTreeMap VirtualCpuId VirtualCpuSlot
  nextSequence : Nat
  nextLeaseGeneration : Nat
  nextWakeGeneration : Nat

/-- Handlers of the scheduler. -/
abbrev SchedulerM : Type → Type := Method SchedulerError SchedulerState

namespace SchedulerState

/-- `SchedulerState::new`: every virtual CPU of the profile is idle. -/
def new (profile : MachineSchedulerProfile) : SchedulerState where
  profile := profile
  threads := ∅
  ready := ∅
  vcpus := ExtTreeMap.ofList (profile.vcpus.map fun descriptor ↦
    (descriptor.id, VirtualCpuSlot.mk none))
  nextSequence := 1
  nextLeaseGeneration := 1
  nextWakeGeneration := 1

/-! ## Queries -/

/-- The virtual CPU exists and holds no lease. -/
def isIdle (s : SchedulerState) (vcpu : VirtualCpuId) : Bool :=
  s.vcpus[vcpu]?.any fun slot ↦ slot.lease.isNone

def leaseForVcpu (s : SchedulerState) (vcpu : VirtualCpuId) : Option Lease :=
  s.vcpus[vcpu]?.bind VirtualCpuSlot.lease

/-- The first key of the queue whose thread may run on `vcpu`. -/
def firstEligible (s : SchedulerState) (vcpu : VirtualCpuId) : Option ReadyKey :=
  findFirst s.ready fun key ↦
    s.threads[key.thread]?.any fun thread ↦ thread.config.affinity.contains vcpu

/-- The first key of the queue whose thread may run on some idle virtual CPU. -/
def firstRunnable (s : SchedulerState) : Option ReadyKey :=
  findFirst s.ready fun key ↦
    s.threads[key.thread]?.any fun thread ↦ thread.config.affinity.cores.any s.isIdle

/-- Where `select_next` puts a thread: its ideal virtual CPU, else the last one it ran on, else
the first of its affinity, each only if idle. -/
def placement (s : SchedulerState) (thread : ScheduledThread) : Option VirtualCpuId :=
  let ideal := thread.config.idealVcpu.filter s.isIdle
  let last := thread.lastVcpu.filter fun vcpu ↦
    thread.config.affinity.contains vcpu && s.isIdle vcpu
  (ideal.or last).or (thread.config.affinity.cores.find? s.isIdle)

def validatePolicy (s : SchedulerState) (config : ScheduledThreadConfig) :
    Except SchedulerError Unit :=
  match config.affinity.cores.find? fun vcpu ↦ !s.profile.contains vcpu with
  | some vcpu => .error (.unknownVirtualCpu vcpu)
  | none =>
    if !s.profile.priorities.contains config.basePriority then
      .error (.invalidPriority config.basePriority)
    else if !s.profile.priorities.contains config.effectivePriority then
      .error (.invalidPriority config.effectivePriority)
    else
      match config.idealVcpu with
      | some ideal =>
        if !config.affinity.contains ideal then
          .error (.idealOutsideAffinity config.thread ideal)
        else .ok ()
      | none => .ok ()

end SchedulerState

end Nixe.Scheduler
