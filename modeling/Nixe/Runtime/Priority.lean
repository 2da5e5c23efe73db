import Nixe.Scheduler.Links

/-!
# Thread priorities

`coordinator/thread.rs`: the base priorities that are set, the donations by which a waiter lends its
priority to the owner of what it waits for, and the effective priorities that follow from both. A
smaller number is a higher priority.

Of a process the coordinator reads the set of its threads and its thread policy. The fields of the
coordinator that these calls do not use are left out.
-/

namespace Nixe.Runtime

open Std Method Scheduler

/-! ## State -/

structure PriorityDonation where
  owner : GuestThreadId
  waiter : GuestThreadId
  key : Nat
deriving DecidableEq, Repr

instance : Ord PriorityDonation where
  compare := compareLex (compareOn fun d ↦ d.owner)
    (compareLex (compareOn fun d ↦ d.waiter) (compareOn fun d ↦ d.key))

instance : TransOrd PriorityDonation :=
  inferInstanceAs (TransCmp (compareLex (compareOn fun d : PriorityDonation ↦ d.owner)
    (compareLex (compareOn fun d ↦ d.waiter) (compareOn fun d ↦ d.key))))

instance : LawfulEqOrd PriorityDonation where
  eq_of_compare {a b} h := by
    change compareLex _ _ a b = .eq at h
    simp only [compareLex, compareOn, Ordering.then_eq_eq, Std.compare_eq_iff_eq] at h
    cases a
    cases b
    simp_all

structure ThreadPolicy where
  highestPriority : Int
  lowestPriority : Int
  minCore : Nat
  maxCore : Nat
deriving DecidableEq, Repr

structure RunnableProcess where
  threads : ExtTreeSet GuestThreadId
  threadPolicy : Option ThreadPolicy

structure RuntimeCoordinator where
  scheduler : SchedulerState
  processes : ExtTreeMap ProcessId RunnableProcess
  priorityDonations : ExtTreeSet PriorityDonation

inductive ThreadOperationError where
  | invalidHandle
  | invalidState
  | internal
deriving DecidableEq, Repr

/-- A call of the scheduler. -/
def schedule {α : Type} (m : SchedulerM α) : Method SchedulerError RuntimeCoordinator α :=
  focus RuntimeCoordinator.scheduler (fun c s ↦ { c with scheduler := s }) m

/-! ## Inheritance -/

/-- The priorities of the threads, while they are computed. -/
abbrev Priorities := ExtTreeMap GuestThreadId Int

/-- The threads of the processes, in the order of the loop over them. -/
def RuntimeCoordinator.threadList (c : RuntimeCoordinator) : List GuestThreadId :=
  c.processes.toList.flatMap fun process ↦ process.2.threads.toList

/-- The base priorities of the threads of the processes. -/
def basePriorities (s : SchedulerState) :
    List GuestThreadId → Priorities → Except SchedulerError Priorities
  | [], priorities => .ok priorities
  | thread :: threads, priorities =>
    match s.threads[thread]? with
    | none => .error (.unknownThread thread)
    | some view => basePriorities s threads (priorities.insert thread view.config.basePriority)

/-- One donation, and whether it has changed something. -/
def donate (state : Priorities × Bool) (donation : PriorityDonation) : Priorities × Bool :=
  match state.1[donation.waiter]? with
  | none => state
  | some waiter =>
    match state.1[donation.owner]? with
    | none => state
    | some owner => if waiter < owner then (state.1.insert donation.owner waiter, true) else state

def donationRound (donations : List PriorityDonation) (priorities : Priorities) :
    Priorities × Bool :=
  donations.foldl donate (priorities, false)

/-- At most `rounds` rounds, until one of them changes nothing. -/
def inheritPriorities (donations : List PriorityDonation) : Nat → Priorities → Priorities
  | 0, priorities => priorities
  | rounds + 1, priorities =>
    if (donationRound donations priorities).2 then
      inheritPriorities donations rounds (donationRound donations priorities).1
    else (donationRound donations priorities).1

/-- Give a thread its effective priority, if it has another one. -/
def assignPriority (entry : GuestThreadId × Int) :
    Method SchedulerError RuntimeCoordinator Unit := do
  let view ← read fun c ↦ c.scheduler.threads[entry.1]?
  let view ← okOr view (.unknownThread entry.1)
  if view.config.effectivePriority ≠ entry.2 then
    let _ ← schedule (apply (.setEffectivePriority entry.1 entry.2))

def recomputeEffectivePriorities : Method SchedulerError RuntimeCoordinator Unit := do
  let c ← read id
  let priorities ← lift (basePriorities c.scheduler c.threadList ∅)
  let priorities := inheritPriorities c.priorityDonations.toList priorities.size priorities
  forEach assignPriority priorities.toList

/-! ## Calls -/

abbrev CoordinatorM := Method ThreadOperationError RuntimeCoordinator

def threadSchedulingInfo (objectId : GuestThreadId) : CoordinatorM ScheduledThread := do
  let view ← read fun c ↦ c.scheduler.threads[objectId]?
  okOr view .invalidHandle

def RunnableProcess.allows (process : RunnableProcess) (priority : Int) (affinity : CoreSet) :
    Bool :=
  process.threadPolicy.all fun policy ↦
    !(priority < policy.highestPriority || priority > policy.lowestPriority ||
      affinity.cores.any fun vcpu ↦ vcpu < policy.minCore || vcpu > policy.maxCore)

/-- `set_thread_priority` up to the recomputation. -/
def changeBasePriority (objectId : GuestThreadId) (priority : Int) : CoordinatorM Unit := do
  let info ← threadSchedulingInfo objectId
  let profile ← read fun c ↦ c.scheduler.profile
  failIf (!profile.priorities.contains priority) .invalidState
  let process ← read fun c ↦ c.processes[info.config.process]?
  let process ← okOr process .internal
  failIf (!process.allows priority info.config.affinity) .invalidState
  let _ ← mapErr (fun _ ↦ .internal)
    (schedule (apply (.setPriority info.config.thread priority)))

/-- `inherit_thread_priority` up to the recomputation. -/
def addDonation (ownerObjectId waiterObjectId : GuestThreadId) (donationKey : Nat) :
    CoordinatorM Unit := do
  let owner ← threadSchedulingInfo ownerObjectId
  let waiter ← threadSchedulingInfo waiterObjectId
  update fun c ↦
    { c with
      priorityDonations := c.priorityDonations.insert
        ⟨owner.config.thread, waiter.config.thread, donationKey⟩ }

/-- `restore_thread_priority` up to the recomputation. -/
def removeDonations (objectId : GuestThreadId) (donationKey : Nat) : CoordinatorM Unit := do
  let info ← threadSchedulingInfo objectId
  update fun c ↦
    { c with
      priorityDonations := c.priorityDonations.filter fun donation ↦
        donation.owner ≠ info.config.thread || donation.key ≠ donationKey }

inductive PriorityCall where
  | setThreadPriority (objectId : GuestThreadId) (priority : Int)
  | inheritThreadPriority (ownerObjectId waiterObjectId : GuestThreadId) (donationKey : Nat)
  | restoreThreadPriority (objectId : GuestThreadId) (donationKey : Nat)
deriving DecidableEq, Repr

namespace PriorityCall

/-- What the call changes itself, before the priorities are recomputed. -/
def edit : PriorityCall → CoordinatorM Unit
  | setThreadPriority objectId priority => changeBasePriority objectId priority
  | inheritThreadPriority owner waiter key => addDonation owner waiter key
  | restoreThreadPriority objectId key => removeDonations objectId key

/-- The error by which the call reports a failed recomputation. -/
def recomputeError : PriorityCall → ThreadOperationError
  | setThreadPriority _ _ => .internal
  | inheritThreadPriority _ _ _ | restoreThreadPriority _ _ => .invalidState

/-- `set_thread_priority`, `inherit_thread_priority` and `restore_thread_priority` -/
def run (call : PriorityCall) : CoordinatorM Unit := do
  call.edit
  mapErr (fun _ ↦ call.recomputeError) recomputeEffectivePriorities

end PriorityCall

end Nixe.Runtime
