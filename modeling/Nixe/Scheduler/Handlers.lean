import Nixe.Scheduler.State

/-!
# Command handlers

The handlers behind `SchedulerState::apply`, in the order of the source. A handler that holds a
mutable reference to a thread and writes it in several steps is modelled by one write of the
final record: nothing reads the table in between, and a panic in between leaves no state.
-/

namespace Nixe.Scheduler

open Std Method

namespace SchedulerState

/-- Store `thread` under `id`. -/
def setThread (s : SchedulerState) (id : GuestThreadId) (thread : ScheduledThread) :
    SchedulerState :=
  { s with threads := s.threads.insert id thread }

section

variable (s : SchedulerState) (id : GuestThreadId) (thread : ScheduledThread)

@[simp] theorem setThread_threads :
    (s.setThread id thread).threads = s.threads.insert id thread := rfl

@[simp] theorem setThread_ready : (s.setThread id thread).ready = s.ready := rfl

@[simp] theorem setThread_vcpus : (s.setThread id thread).vcpus = s.vcpus := rfl

end

/-- Remove a key from the queue, if there is one to remove. -/
def eraseKey (ready : ExtTreeSet ReadyKey) (key : Option ReadyKey) : ExtTreeSet ReadyKey :=
  match key with
  | some key => ready.erase key
  | none => ready

end SchedulerState

open SchedulerState

/-! ## Shared steps -/

/-- `threads.get(&id).ok_or(UnknownThread(id))?` -/
def getThread (id : GuestThreadId) : SchedulerM ScheduledThread := do
  let threads ← read SchedulerState.threads
  okOr threads[id]? (.unknownThread id)

/-- `threads.get_mut(&id).expect(message)` -/
def expectThread (id : GuestThreadId) (message : String) : SchedulerM ScheduledThread := do
  let threads ← read SchedulerState.threads
  expect threads[id]? message

/-- A transition that the handler takes to be legal. -/
def moveTo (lifecycle target : ThreadLifecycle) (message : String) :
    SchedulerM ThreadLifecycle :=
  expect (transitionThread lifecycle target).toOption message

/-- A transition whose refusal is reported as `InvalidThreadState`. -/
def tryMoveTo (id : GuestThreadId) (lifecycle target : ThreadLifecycle) :
    SchedulerM ThreadLifecycle :=
  okOr (transitionThread lifecycle target).toOption (.invalidThreadState id lifecycle)

def allocateSequence : SchedulerM Nat := do
  let value ← read SchedulerState.nextSequence
  let next ← okOr (checkedAdd value 1) .sequenceExhausted
  update fun s ↦ { s with nextSequence := next }
  return value

def allocateLeaseGeneration : SchedulerM Nat := do
  let value ← read SchedulerState.nextLeaseGeneration
  let next ← okOr (checkedAdd value 1) .leaseGenerationExhausted
  update fun s ↦ { s with nextLeaseGeneration := next }
  return value

def allocateWakeGeneration : SchedulerM Nat := do
  let value ← read SchedulerState.nextWakeGeneration
  let next ← okOr (checkedAdd value 1) .wakeGenerationExhausted
  update fun s ↦ { s with nextWakeGeneration := next }
  return value

/-- `self.ready.insert(key)`, followed by the assertion that the key is new. -/
def insertReady (key : ReadyKey) : SchedulerM Unit := do
  let ready ← read SchedulerState.ready
  update fun s ↦ { s with ready := s.ready.insert key }
  assert (!ready.contains key) "assertion failed: inserted"

def enqueueExistingWithSequence (id : GuestThreadId) (sequence : Nat) : SchedulerM Unit := do
  let thread ← expectThread id "thread exists"
  let key : ReadyKey := ⟨thread.config.effectivePriority, sequence, id⟩
  update fun s ↦ s.setThread id { thread with readyKey := some key }
  insertReady key

/-! ## Handlers -/

def register (config : ScheduledThreadConfig) : SchedulerM SchedulerDecision := do
  let s ← read id
  failIf (s.threads.contains config.thread) (.duplicateThread config.thread)
  lift (s.validatePolicy config)
  update fun s ↦ s.setThread config.thread
    { config := config, lifecycle := .created, readyKey := none, activeLease := none,
      activeWait := none, lastVcpu := none }
  return .registered config.thread

def unregister (id : GuestThreadId) : SchedulerM SchedulerDecision := do
  let thread ← getThread id
  failIf (thread.activeLease.isSome) (.threadLeased id)
  update fun s ↦ { s with ready := eraseKey s.ready thread.readyKey }
  update fun s ↦ { s with threads := s.threads.erase id }
  return .unregistered id

def makeReady (id : GuestThreadId) : SchedulerM SchedulerDecision := do
  let thread ← getThread id
  let lifecycle ← tryMoveTo id thread.lifecycle .ready
  let sequence ← allocateSequence
  let thread ← expectThread id "thread was validated"
  let key : ReadyKey := ⟨thread.config.effectivePriority, sequence, id⟩
  update fun s ↦ s.setThread id { thread with lifecycle := lifecycle, readyKey := some key }
  insertReady key
  return .enqueued id sequence

/-- The part of `select` after a key has been found. -/
def grant (vcpu : VirtualCpuId) (key : ReadyKey) : SchedulerM SchedulerDecision := do
  let generation ← allocateLeaseGeneration
  let ready ← read SchedulerState.ready
  update fun s ↦ { s with ready := s.ready.erase key }
  assert (ready.contains key) "assertion failed: removed"
  let thread ← expectThread key.thread "ready key is live"
  let lifecycle ← moveTo thread.lifecycle .running "only ready threads are queued"
  let lease : Lease := ⟨thread.config.process, key.thread, vcpu, generation⟩
  update fun s ↦ s.setThread key.thread
    { thread with lifecycle := lifecycle, readyKey := none, activeLease := some lease }
  let vcpus ← read SchedulerState.vcpus
  let _ ← expect vcpus[vcpu]? "vCPU was validated"
  update fun s ↦ { s with vcpus := s.vcpus.insert vcpu ⟨some lease⟩ }
  return .selected (some lease)

def select (vcpu : VirtualCpuId) : SchedulerM SchedulerDecision := do
  let s ← read id
  let slot ← okOr s.vcpus[vcpu]? (.unknownVirtualCpu vcpu)
  failIf (slot.lease.isSome) (.virtualCpuBusy vcpu)
  match s.firstEligible vcpu with
  | none => return .selected none
  | some key => grant vcpu key

def selectNext : SchedulerM SchedulerDecision := do
  let s ← read id
  match s.firstRunnable with
  | none => return .selected none
  | some key =>
    let thread ← expect s.threads[key.thread]? "ready key is live"
    let target ← expect (s.placement thread)
      "a ready thread was proven to have an idle eligible vCPU"
    select target

/-- The lifecycle changes of `complete`. -/
def completeLifecycle (lifecycle : ThreadLifecycle) (outcome : Completion) :
    SchedulerM ThreadLifecycle :=
  match outcome with
  | .ready => moveTo lifecycle .ready "running thread can become ready"
  | .preempted => do
    let lifecycle ← moveTo lifecycle .preempted "running thread can be preempted"
    moveTo lifecycle .ready "preempted thread can become ready"
  | .waiting => moveTo lifecycle .waiting "running thread can wait"
  | .exited => do
    let lifecycle ← moveTo lifecycle .terminating "running thread can terminate"
    moveTo lifecycle .exited "terminating thread can exit"
  | .faulted => moveTo lifecycle .faulted "running thread can fault"

/-- Whether a completed thread goes back to the queue. -/
def Completion.requeues : Completion → Bool
  | .ready | .preempted => true
  | .waiting | .exited | .faulted => false

/-- The queue position that a completed thread is given. -/
def completeSequence (outcome : Completion) : SchedulerM (Option Nat) :=
  if outcome.requeues then do
    let sequence ← allocateSequence
    return some sequence
  else return none

def complete (lease : Lease) (outcome : Completion) : SchedulerM SchedulerDecision := do
  let thread ← getThread lease.thread
  failIf (thread.activeLease ≠ some lease) (.staleLease lease)
  let slotLease ← read fun s ↦ s.leaseForVcpu lease.vcpu
  failIf (slotLease ≠ some lease) (.staleLease lease)
  let readySequence ← completeSequence outcome
  let vcpus ← read SchedulerState.vcpus
  let _ ← expect vcpus[lease.vcpu]? "lease vCPU exists"
  update fun s ↦ { s with vcpus := s.vcpus.insert lease.vcpu ⟨none⟩ }
  let thread ← expectThread lease.thread "lease thread exists"
  let lifecycle ← completeLifecycle thread.lifecycle outcome
  update fun s ↦ s.setThread lease.thread
    { thread with lifecycle := lifecycle, activeLease := none, lastVcpu := some lease.vcpu }
  ifSome readySequence fun sequence ↦ enqueueExistingWithSequence lease.thread sequence
  return .completed lease.thread

/-- Registration when the awaited condition already holds. -/
def readyImmediately (id : GuestThreadId) : SchedulerM SchedulerDecision := do
  let sequence ← allocateSequence
  let thread ← expectThread id "thread exists"
  let lifecycle ← moveTo thread.lifecycle .ready "a waiting thread can become ready"
  update fun s ↦ s.setThread id { thread with lifecycle := lifecycle }
  enqueueExistingWithSequence id sequence
  return .readyImmediately id

/-- Registration of a wait that a later command finishes. -/
def openWait (id : GuestThreadId) : SchedulerM SchedulerDecision := do
  let generation ← allocateWakeGeneration
  let thread ← expectThread id "thread exists"
  update fun s ↦ s.setThread id { thread with activeWait := some ⟨id, generation⟩ }
  return .waitRegistered ⟨id, generation⟩

def registerWait (id : GuestThreadId) (readiness : Readiness) : SchedulerM SchedulerDecision := do
  let thread ← getThread id
  failIf (thread.lifecycle ≠ .waiting) (.invalidThreadState id thread.lifecycle)
  failIf (thread.activeWait.isSome) (.duplicateWait id)
  if readiness = .ready then readyImmediately id else openWait id

def finishWait (token : WakeToken) (cancelled : Bool) : SchedulerM SchedulerDecision := do
  let thread ← getThread token.thread
  failIf (thread.activeWait ≠ some token) (.staleWake token)
  let sequence ← allocateSequence
  let thread ← expectThread token.thread "wait token thread exists"
  let lifecycle ← moveTo thread.lifecycle .ready "a registered waiter is waiting"
  update fun s ↦ s.setThread token.thread
    { thread with lifecycle := lifecycle, activeWait := none }
  enqueueExistingWithSequence token.thread sequence
  return if cancelled then .waitCancelled token.thread else .woken token.thread

/-- Leaving the affinity of the virtual CPU a thread last ran on drops its exclusive monitor. -/
def migrationEffect (lastVcpu : Option VirtualCpuId) (affinity : CoreSet) : MigrationEffect :=
  match lastVcpu with
  | some oldVcpu =>
    if !affinity.contains oldVcpu then .clearOldLocalExclusive oldVcpu else .none
  | none => .none

def migrate (id : GuestThreadId) (idealVcpu : Option VirtualCpuId) (affinity : CoreSet) :
    SchedulerM SchedulerDecision := do
  ifSome idealVcpu fun ideal ↦
    failIf (!affinity.contains ideal) (.idealOutsideAffinity id ideal)
  let profile ← read SchedulerState.profile
  ifSome (affinity.cores.find? fun vcpu ↦ !profile.contains vcpu) fun vcpu ↦
    fail (.unknownVirtualCpu vcpu)
  let thread ← getThread id
  failIf (thread.activeLease.isSome) (.threadLeased id)
  update fun s ↦ s.setThread id
    { thread with
      config := { thread.config with idealVcpu := idealVcpu, affinity := affinity } }
  return .migrated id (migrationEffect thread.lastVcpu affinity)

/-- The common body of `set_priority` and `set_effective_priority`, which differ in the fields
they assign. A queued thread keeps its place among threads of its new priority. -/
def reprioritise (id : GuestThreadId) (priority : Int)
    (assign : ScheduledThreadConfig → ScheduledThreadConfig) : SchedulerM SchedulerDecision := do
  let profile ← read SchedulerState.profile
  failIf (!profile.priorities.contains priority) (.invalidPriority priority)
  let thread ← getThread id
  failIf (thread.activeLease.isSome) (.threadLeased id)
  let oldKey := thread.readyKey
  update fun s ↦ { s with ready := eraseKey s.ready oldKey }
  let thread ← expectThread id "thread was validated"
  let key := oldKey.map fun oldKey ↦ { oldKey with priority := priority }
  update fun s ↦ s.setThread id { thread with config := assign thread.config, readyKey := key }
  ifSome key insertReady
  return .priorityChanged id

def setPriority (id : GuestThreadId) (priority : Int) : SchedulerM SchedulerDecision :=
  reprioritise id priority fun config ↦
    { config with basePriority := priority, effectivePriority := priority }

def setEffectivePriority (id : GuestThreadId) (priority : Int) : SchedulerM SchedulerDecision :=
  reprioritise id priority fun config ↦ { config with effectivePriority := priority }

/-- Take a ready thread out of the queue. -/
def pause (id : GuestThreadId) (oldKey : Option ReadyKey) : SchedulerM SchedulerDecision := do
  update fun s ↦ { s with ready := eraseKey s.ready oldKey }
  let thread ← expectThread id "thread was validated"
  let lifecycle ← moveTo thread.lifecycle .suspended "a validated ready thread can be suspended"
  update fun s ↦ s.setThread id { thread with lifecycle := lifecycle, readyKey := none }
  return .activityChanged id

/-- Put a suspended thread back into the queue. -/
def resume (id : GuestThreadId) : SchedulerM SchedulerDecision := do
  let sequence ← allocateSequence
  let thread ← expectThread id "thread was validated"
  let lifecycle ← moveTo thread.lifecycle .ready "a validated suspended thread can become ready"
  update fun s ↦ s.setThread id { thread with lifecycle := lifecycle }
  enqueueExistingWithSequence id sequence
  return .activityChanged id

def setActivity (id : GuestThreadId) (paused : Bool) : SchedulerM SchedulerDecision := do
  let thread ← getThread id
  failIf (thread.activeLease.isSome ∨ (paused = true ∧ thread.lifecycle = .suspended) ∨
    (paused = false ∧ thread.lifecycle = .ready)) (.invalidThreadState id thread.lifecycle)
  failIf (paused = true ∧ thread.lifecycle ≠ .ready) (.invalidThreadState id thread.lifecycle)
  failIf (paused = false ∧ thread.lifecycle ≠ .suspended)
    (.invalidThreadState id thread.lifecycle)
  if paused then pause id thread.readyKey else resume id

/-- The lifecycle changes of `terminate`. -/
def terminalLifecycle (id : GuestThreadId) (lifecycle : ThreadLifecycle) (faulted : Bool) :
    SchedulerM ThreadLifecycle :=
  if faulted then tryMoveTo id lifecycle .faulted
  else do
    let leaving ← tryMoveTo id lifecycle .terminating
    moveTo leaving .exited "a terminating thread can exit"

def terminate (id : GuestThreadId) (faulted : Bool) : SchedulerM SchedulerDecision := do
  let thread ← getThread id
  failIf (thread.activeLease.isSome) (.threadLeased id)
  failIf (thread.lifecycle = .exited ∨ thread.lifecycle = .faulted)
    (.invalidThreadState id thread.lifecycle)
  let lifecycle ← terminalLifecycle id thread.lifecycle faulted
  let readyKey := thread.readyKey
  update fun s ↦ { s with ready := eraseKey s.ready readyKey }
  let thread ← expectThread id "thread was validated"
  update fun s ↦ s.setThread id
    { thread with lifecycle := lifecycle, readyKey := none, activeWait := none }
  return .terminated id

/-- `SchedulerState::apply`. -/
def apply : SchedulerCommand → SchedulerM SchedulerDecision
  | .register config => register config
  | .unregister thread => unregister thread
  | .makeReady thread => makeReady thread
  | .selectNext => selectNext
  | .select vcpu => select vcpu
  | .complete lease outcome => complete lease outcome
  | .registerWait thread readiness => registerWait thread readiness
  | .wake token => finishWait token false
  | .cancelWait token => finishWait token true
  | .terminate thread faulted => terminate thread faulted
  | .migrate thread idealVcpu affinity => migrate thread idealVcpu affinity
  | .setPriority thread priority => setPriority thread priority
  | .setEffectivePriority thread priority => setEffectivePriority thread priority
  | .setActivity thread paused => setActivity thread paused

/-- The scheduler as a machine driven by commands. -/
def scheduler : Machine SchedulerState SchedulerCommand (Except SchedulerError SchedulerDecision) :=
  Method.machine apply

end Nixe.Scheduler
