import Nixe.Scheduler.Handlers

/-!
# What a command can do

One specification of `apply` from which everything else about the scheduler is derived. It says,
for every state and every command:

* a command that succeeds has made one of the steps of the relation `Step`, whose constructors
  list the guards the handler checked and the state it left behind;
* a command that fails has left the state exactly as it was;
* a command panics only in a state that is not `Sound`, that is, only if the tables contradict
  one another in one of five ways.

## The elementary changes

Five handlers put a thread into the ready queue, each after changing something else about it.
`SchedulerState.enqueue` is that common ending.
-/

namespace Nixe.Scheduler

open Std Method SchedulerState Option ThreadLifecycle

/-! ## Elementary changes -/

namespace SchedulerState

/-- The key under which a thread of configuration `config` would be queued now. -/
def nextKey (s : SchedulerState) (id : GuestThreadId) (config : ScheduledThreadConfig) :
    ReadyKey :=
  ⟨config.effectivePriority, s.nextSequence, id⟩

/-- Store `thread` under `id` and queue it with the next sequence number. -/
def enqueue (s : SchedulerState) (id : GuestThreadId) (thread : ScheduledThread) :
    SchedulerState :=
  { s with
    threads := s.threads.insert id { thread with readyKey := some (s.nextKey id thread.config) }
    ready := s.ready.insert (s.nextKey id thread.config)
    nextSequence := s.nextSequence + 1 }

/-- The lease that granting `vcpu` to the thread queued under `key` creates. -/
def newLease (s : SchedulerState) (vcpu : VirtualCpuId) (key : ReadyKey)
    (thread : ScheduledThread) : Lease :=
  ⟨thread.config.process, key.thread, vcpu, s.nextLeaseGeneration⟩

/-- Grant `vcpu` to the thread queued under `key`. -/
def grantLease (s : SchedulerState) (vcpu : VirtualCpuId) (key : ReadyKey)
    (thread : ScheduledThread) : SchedulerState :=
  { s with
    threads := s.threads.insert key.thread
      { thread with
        lifecycle := .running
        readyKey := none
        activeLease := some (s.newLease vcpu key thread) }
    ready := s.ready.erase key
    vcpus := s.vcpus.insert vcpu ⟨some (s.newLease vcpu key thread)⟩
    nextLeaseGeneration := s.nextLeaseGeneration + 1 }

/-- Clear the slot of `vcpu`. -/
def freeVcpu (s : SchedulerState) (vcpu : VirtualCpuId) : SchedulerState :=
  { s with vcpus := s.vcpus.insert vcpu ⟨none⟩ }

/-- Store `thread` under `id` after taking `key` out of the queue. -/
def dequeue (s : SchedulerState) (key : Option ReadyKey) (id : GuestThreadId)
    (thread : ScheduledThread) : SchedulerState :=
  { s with threads := s.threads.insert id thread, ready := eraseKey s.ready key }

/-- Exchange the key of a thread for one of another priority, in place. -/
def requeue (s : SchedulerState) (id : GuestThreadId) (thread : ScheduledThread)
    (config : ScheduledThreadConfig) (priority : Int) : SchedulerState :=
  match thread.readyKey with
  | some key =>
    { s with
      threads := s.threads.insert id
        { thread with config := config, readyKey := some { key with priority := priority } }
      ready := (s.ready.erase key).insert { key with priority := priority } }
  | none => s.setThread id { thread with config := config }

theorem getElem?_requeue (s : SchedulerState) (id : GuestThreadId) (thread : ScheduledThread)
    (config : ScheduledThreadConfig) (priority : Int) (k : GuestThreadId) :
    (s.requeue id thread config priority).threads[k]? =
      if k = id then
        some { thread with
          config := config
          readyKey := thread.readyKey.map fun key ↦ { key with priority := priority } }
      else s.threads[k]? := by
  rw [requeue]
  by_cases h : k = id
  · subst h
    rw [if_pos rfl]
    cases hkey : thread.readyKey with
    | none =>
      rw [setThread, ExtTreeMap.getElem?_insert_self, map_none, ← hkey]
    | some key => rw [ExtTreeMap.getElem?_insert_self, map_some]
  · rw [if_neg h]
    cases thread.readyKey <;> exact getElem?_insert_of_ne h

@[simp] theorem setThread_setThread (s : SchedulerState) (id : GuestThreadId)
    (a b : ScheduledThread) : (s.setThread id a).setThread id b = s.setThread id b := by
  have h : (s.threads.insert id a).insert id b = s.threads.insert id b := by
    refine ExtTreeMap.ext_getElem? fun k ↦ ?_
    simp only [ExtTreeMap.getElem?_insert]
    split <;> rfl
  simp [setThread, h]

end SchedulerState

/-- The first transition that `complete` makes; the second one, if any, is always legal. -/
def Completion.via : Completion → ThreadLifecycle
  | .ready => .ready
  | .preempted => .preempted
  | .waiting => .waiting
  | .exited => .terminating
  | .faulted => .faulted

/-- The lifecycle in which `complete` leaves the thread. -/
def Completion.target : Completion → ThreadLifecycle
  | .ready | .preempted => .ready
  | .waiting => .waiting
  | .exited => .exited
  | .faulted => .faulted

/-- The first transition that `terminate` makes. -/
def terminalVia (faulted : Bool) : ThreadLifecycle := if faulted then .faulted else .terminating

/-- The lifecycle in which `terminate` leaves the thread. -/
def terminalTarget (faulted : Bool) : ThreadLifecycle := if faulted then .faulted else .exited

/-- The condition that `migrate` checks of a new placement. -/
def PlacementValid (profile : MachineSchedulerProfile) (ideal : Option VirtualCpuId)
    (affinity : CoreSet) : Prop :=
  (∀ v, ideal = some v → v ∈ affinity.cores) ∧ ∀ v ∈ affinity.cores, v ∈ profile.vcpuIds

/-! ## The step relation -/

/-- A successful `select` on `vcpu`. -/
inductive SelectStep (s : SchedulerState) (vcpu : VirtualCpuId) :
    SchedulerDecision → SchedulerState → Prop where
  | nothing (hidle : s.isIdle vcpu = true) (hkey : s.firstEligible vcpu = none) :
      SelectStep s vcpu (.selected none) s
  | grant {key : ReadyKey} {thread : ScheduledThread} (hidle : s.isIdle vcpu = true)
      (hkey : s.firstEligible vcpu = some key) (hthread : s.threads[key.thread]? = some thread)
      (hlegal : thread.lifecycle.allowed .running = true) :
      SelectStep s vcpu (.selected (some (s.newLease vcpu key thread)))
        (s.grantLease vcpu key thread)

/-- A successful `finish_wait` on `token`. -/
inductive FinishStep (s : SchedulerState) (token : WakeToken) : SchedulerState → Prop where
  | mk {thread : ScheduledThread} (hthread : s.threads[token.thread]? = some thread)
      (hwait : thread.activeWait = some token)
      (hlegal : thread.lifecycle.allowed .ready = true) :
      FinishStep s token
        (s.enqueue token.thread { thread with lifecycle := .ready, activeWait := none })

/-- The successful commands, with their decisions and the states they leave. -/
inductive Step (s : SchedulerState) :
    SchedulerCommand → SchedulerDecision → SchedulerState → Prop where
  | register {config : ScheduledThreadConfig} (hnew : s.threads[config.thread]? = none)
      (hbase : s.profile.priorities.contains config.basePriority = true)
      (heff : s.profile.priorities.contains config.effectivePriority = true)
      (hplace : PlacementValid s.profile config.idealVcpu config.affinity) :
      Step s (.register config) (.registered config.thread)
        (s.setThread config.thread
          { config := config, lifecycle := .created, readyKey := none, activeLease := none,
            activeWait := none, lastVcpu := none })
  | unregister {id : GuestThreadId} {thread : ScheduledThread}
      (hthread : s.threads[id]? = some thread) (hlease : thread.activeLease = none) :
      Step s (.unregister id) (.unregistered id)
        { s with threads := s.threads.erase id, ready := eraseKey s.ready thread.readyKey }
  | makeReady {id : GuestThreadId} {thread : ScheduledThread}
      (hthread : s.threads[id]? = some thread)
      (hlegal : thread.lifecycle.allowed .ready = true)
      (hseq : s.nextSequence + 1 < wordBound) :
      Step s (.makeReady id) (.enqueued id s.nextSequence)
        (s.enqueue id { thread with lifecycle := .ready })
  | select {vcpu : VirtualCpuId} {d : SchedulerDecision} {t : SchedulerState}
      (h : SelectStep s vcpu d t) : Step s (.select vcpu) d t
  | selectNextNone (hkey : s.firstRunnable = none) : Step s .selectNext (.selected none) s
  | selectNext {key : ReadyKey} {thread : ScheduledThread} {vcpu : VirtualCpuId}
      {d : SchedulerDecision} {t : SchedulerState} (hkey : s.firstRunnable = some key)
      (hthread : s.threads[key.thread]? = some thread) (hvcpu : s.placement thread = some vcpu)
      (h : SelectStep s vcpu d t) : Step s .selectNext d t
  | completeRequeue {lease : Lease} {outcome : Completion} {thread : ScheduledThread}
      (hthread : s.threads[lease.thread]? = some thread)
      (hlease : thread.activeLease = some lease) (hslot : s.leaseForVcpu lease.vcpu = some lease)
      (hreq : outcome.requeues = true) (hlegal : thread.lifecycle.allowed outcome.via = true) :
      Step s (.complete lease outcome) (.completed lease.thread)
        ((s.freeVcpu lease.vcpu).enqueue lease.thread
          { thread with
            lifecycle := outcome.target, activeLease := none, lastVcpu := some lease.vcpu })
  | completeStop {lease : Lease} {outcome : Completion} {thread : ScheduledThread}
      (hthread : s.threads[lease.thread]? = some thread)
      (hlease : thread.activeLease = some lease) (hslot : s.leaseForVcpu lease.vcpu = some lease)
      (hreq : outcome.requeues = false) (hlegal : thread.lifecycle.allowed outcome.via = true) :
      Step s (.complete lease outcome) (.completed lease.thread)
        ((s.freeVcpu lease.vcpu).setThread lease.thread
          { thread with
            lifecycle := outcome.target, activeLease := none, lastVcpu := some lease.vcpu })
  | waitReady {id : GuestThreadId} {thread : ScheduledThread}
      (hthread : s.threads[id]? = some thread) (hlife : thread.lifecycle = .waiting)
      (hwait : thread.activeWait = none) :
      Step s (.registerWait id .ready) (.readyImmediately id)
        (s.enqueue id { thread with lifecycle := .ready })
  | waitPending {id : GuestThreadId} {thread : ScheduledThread}
      (hthread : s.threads[id]? = some thread) (hlife : thread.lifecycle = .waiting)
      (hwait : thread.activeWait = none) :
      Step s (.registerWait id .pending) (.waitRegistered ⟨id, s.nextWakeGeneration⟩)
        { s.setThread id { thread with activeWait := some ⟨id, s.nextWakeGeneration⟩ } with
          nextWakeGeneration := s.nextWakeGeneration + 1 }
  | wake {token : WakeToken} {t : SchedulerState} (h : FinishStep s token t) :
      Step s (.wake token) (.woken token.thread) t
  | cancelWait {token : WakeToken} {t : SchedulerState} (h : FinishStep s token t) :
      Step s (.cancelWait token) (.waitCancelled token.thread) t
  | terminate {id : GuestThreadId} {faulted : Bool} {thread : ScheduledThread}
      (hthread : s.threads[id]? = some thread) (hlease : thread.activeLease = none)
      (hlegal : thread.lifecycle.allowed (terminalVia faulted) = true) :
      Step s (.terminate id faulted) (.terminated id)
        (s.dequeue thread.readyKey id
          { thread with
            lifecycle := terminalTarget faulted, readyKey := none, activeWait := none })
  | migrate {id : GuestThreadId} {ideal : Option VirtualCpuId} {affinity : CoreSet}
      {thread : ScheduledThread} (hplace : PlacementValid s.profile ideal affinity)
      (hthread : s.threads[id]? = some thread) (hlease : thread.activeLease = none) :
      Step s (.migrate id ideal affinity)
        (.migrated id (migrationEffect thread.lastVcpu affinity))
        (s.setThread id
          { thread with
            config := { thread.config with idealVcpu := ideal, affinity := affinity } })
  | setPriority {id : GuestThreadId} {priority : Int} {thread : ScheduledThread}
      (hprio : s.profile.priorities.contains priority = true)
      (hthread : s.threads[id]? = some thread) (hlease : thread.activeLease = none) :
      Step s (.setPriority id priority) (.priorityChanged id)
        (s.requeue id thread
          { thread.config with basePriority := priority, effectivePriority := priority } priority)
  | setEffectivePriority {id : GuestThreadId} {priority : Int} {thread : ScheduledThread}
      (hprio : s.profile.priorities.contains priority = true)
      (hthread : s.threads[id]? = some thread) (hlease : thread.activeLease = none) :
      Step s (.setEffectivePriority id priority) (.priorityChanged id)
        (s.requeue id thread { thread.config with effectivePriority := priority } priority)
  | pause {id : GuestThreadId} {thread : ScheduledThread}
      (hthread : s.threads[id]? = some thread) (hlease : thread.activeLease = none)
      (hlife : thread.lifecycle = .ready) :
      Step s (.setActivity id true) (.activityChanged id)
        (s.dequeue thread.readyKey id { thread with lifecycle := .suspended, readyKey := none })
  | resume {id : GuestThreadId} {thread : ScheduledThread}
      (hthread : s.threads[id]? = some thread) (hlease : thread.activeLease = none)
      (hlife : thread.lifecycle = .suspended) :
      Step s (.setActivity id false) (.activityChanged id)
        (s.enqueue id { thread with lifecycle := .ready })

/-- The agreements between the tables that the `expect`s and assertions rely on. -/
structure Sound (s : SchedulerState) : Prop where
  /-- Sequence numbers in the queue have been handed out. -/
  sequence_lt : ∀ key ∈ s.ready, key.sequence < s.nextSequence
  /-- A queued thread is ready, and knows its key. -/
  queued : ∀ key ∈ s.ready, ∀ thread, s.threads[key.thread]? = some thread →
    thread.lifecycle = .ready ∧ thread.readyKey = some key
  /-- A key names its owner. -/
  key_thread : ∀ (id : GuestThreadId) (thread : ScheduledThread) (key : ReadyKey),
    s.threads[id]? = some thread →
    thread.readyKey = some key → key.thread = id
  /-- A thread with a lease is running. -/
  leased : ∀ (id : GuestThreadId) (thread : ScheduledThread), s.threads[id]? = some thread →
    thread.activeLease.isSome → thread.lifecycle = .running
  /-- A thread with a registered wait is waiting. -/
  waiting : ∀ (id : GuestThreadId) (thread : ScheduledThread), s.threads[id]? = some thread →
    thread.activeWait.isSome → thread.lifecycle = .waiting

/-! ## Rules for the shared steps -/

section

variable {s : SchedulerState}

@[simp] theorem wp_getThread {Q : Post SchedulerError SchedulerState ScheduledThread}
    (id : GuestThreadId) :
    wp (getThread id) Q s ↔
      (∀ thread, s.threads[id]? = some thread → Q.ok thread s) ∧
        (s.threads[id]? = none → Q.err (.unknownThread id) s) := by
  simp [getThread]

@[simp] theorem wp_expectThread {Q : Post SchedulerError SchedulerState ScheduledThread}
    (id : GuestThreadId) (msg : String) :
    wp (expectThread id msg) Q s ↔
      (∀ thread, s.threads[id]? = some thread → Q.ok thread s) ∧
        (s.threads[id]? = none → Q.panic) := by
  simp [expectThread]

private theorem transition_toOption (l target : ThreadLifecycle) :
    (transitionThread l target).toOption = if l.allowed target then some target else none := by
  cases h : transitionThread l target with
  | ok l' =>
    obtain ⟨hl, rfl⟩ := transitionThread_eq_ok_iff.mp h
    simp [Except.toOption, hl]
  | error e =>
    have hl : ¬l.allowed target = true := fun hl ↦ by
      rw [transitionThread_eq_ok_iff.mpr ⟨hl, rfl⟩] at h
      cases h
    simp [Except.toOption, hl]

variable {Q : Post SchedulerError SchedulerState ThreadLifecycle}

@[simp] theorem wp_moveTo (l target : ThreadLifecycle) (msg : String) :
    wp (moveTo l target msg) Q s ↔
      (l.allowed target = true → Q.ok target s) ∧ (l.allowed target = false → Q.panic) := by
  cases h : l.allowed target <;> simp [moveTo, transition_toOption, h]

@[simp] theorem wp_tryMoveTo (id : GuestThreadId) (l target : ThreadLifecycle) :
    wp (tryMoveTo id l target) Q s ↔
      (l.allowed target = true → Q.ok target s) ∧
        (l.allowed target = false → Q.err (.invalidThreadState id l) s) := by
  cases h : l.allowed target <;> simp [tryMoveTo, transition_toOption, h]

@[simp] theorem wp_allocateSequence {Q : Post SchedulerError SchedulerState Nat} :
    wp allocateSequence Q s ↔
      (s.nextSequence + 1 < wordBound →
        Q.ok s.nextSequence { s with nextSequence := s.nextSequence + 1 }) ∧
      (wordBound ≤ s.nextSequence + 1 → Q.err .sequenceExhausted s) := by
  simp [allocateSequence]

@[simp] theorem wp_allocateLeaseGeneration {Q : Post SchedulerError SchedulerState Nat} :
    wp allocateLeaseGeneration Q s ↔
      (s.nextLeaseGeneration + 1 < wordBound → Q.ok s.nextLeaseGeneration
        { s with nextLeaseGeneration := s.nextLeaseGeneration + 1 }) ∧
      (wordBound ≤ s.nextLeaseGeneration + 1 → Q.err .leaseGenerationExhausted s) := by
  simp [allocateLeaseGeneration]

@[simp] theorem wp_allocateWakeGeneration {Q : Post SchedulerError SchedulerState Nat} :
    wp allocateWakeGeneration Q s ↔
      (s.nextWakeGeneration + 1 < wordBound → Q.ok s.nextWakeGeneration
        { s with nextWakeGeneration := s.nextWakeGeneration + 1 }) ∧
      (wordBound ≤ s.nextWakeGeneration + 1 → Q.err .wakeGenerationExhausted s) := by
  simp [allocateWakeGeneration]

@[simp] theorem wp_insertReady {Q : Post SchedulerError SchedulerState Unit} (key : ReadyKey) :
    wp (insertReady key) Q s ↔
      (key ∉ s.ready → Q.ok () { s with ready := s.ready.insert key }) ∧
        (key ∈ s.ready → Q.panic) := by
  simp only [insertReady, wp_rules, wp_assert, Bool.not_eq_true', Bool.not_eq_false']
  simp only [← Bool.not_eq_true, ExtTreeSet.contains_iff_mem]

@[simp] theorem wp_enqueueExistingWithSequence {Q : Post SchedulerError SchedulerState Unit}
    (id : GuestThreadId) (sequence : Nat) :
    wp (enqueueExistingWithSequence id sequence) Q s ↔
      (∀ thread : ScheduledThread, s.threads[id]? = some thread →
        let key : ReadyKey := ⟨thread.config.effectivePriority, sequence, id⟩
        (key ∉ s.ready →
          Q.ok () { s.setThread id { thread with readyKey := some key } with
            ready := s.ready.insert key }) ∧
        (key ∈ s.ready → Q.panic)) ∧
      (s.threads[id]? = none → Q.panic) := by
  simp [enqueueExistingWithSequence, setThread]

@[simp] theorem wp_completeLifecycle (l : ThreadLifecycle) (outcome : Completion) :
    wp (completeLifecycle l outcome) Q s ↔
      (l.allowed outcome.via = true → Q.ok outcome.target s) ∧
        (l.allowed outcome.via = false → Q.panic) := by
  cases outcome <;>
    simp [completeLifecycle, Completion.via, Completion.target, allowed]

@[simp] theorem wp_terminalLifecycle (id : GuestThreadId) (l : ThreadLifecycle) (faulted : Bool) :
    wp (terminalLifecycle id l faulted) Q s ↔
      (l.allowed (terminalVia faulted) = true → Q.ok (terminalTarget faulted) s) ∧
        (l.allowed (terminalVia faulted) = false → Q.err (.invalidThreadState id l) s) := by
  cases faulted <;>
    simp [terminalLifecycle, terminalVia, terminalTarget, allowed]

end

/-! ## Specifications of the handlers -/

/-- The postcondition of a command: a step, or no change, or unsound tables. -/
@[reducible] def stepPost (s : SchedulerState) (c : SchedulerCommand) :
    Post SchedulerError SchedulerState SchedulerDecision :=
  ⟨Step s c, fun _ t ↦ t = s, ¬Sound s⟩

section

variable {s : SchedulerState}

private theorem placementValid_of_find?_eq_none {profile : MachineSchedulerProfile}
    {ideal : Option VirtualCpuId} {affinity : CoreSet}
    (hfind : affinity.cores.find? (fun vcpu ↦ !profile.contains vcpu) = none)
    (hideal : ∀ v, ideal = some v → affinity.contains v = true) :
    PlacementValid profile ideal affinity := by
  refine ⟨fun v hv ↦ CoreSet.contains_iff.mp (hideal v hv), fun v hv ↦ ?_⟩
  simpa [MachineSchedulerProfile.contains] using List.find?_eq_none.mp hfind v hv

theorem validatePolicy_eq_ok {config : ScheduledThreadConfig}
    (h : s.validatePolicy config = .ok ()) :
    s.profile.priorities.contains config.basePriority = true ∧
      s.profile.priorities.contains config.effectivePriority = true ∧
      PlacementValid s.profile config.idealVcpu config.affinity := by
  unfold validatePolicy at h
  split at h
  · cases h
  rename_i hfind
  split at h
  · cases h
  rename_i hbase
  split at h
  · cases h
  rename_i heff
  refine ⟨by simpa using hbase, by simpa using heff,
    placementValid_of_find?_eq_none hfind fun v hv ↦ ?_⟩
  rw [hv] at h
  by_contra hc
  simp [hc] at h

theorem register_spec (config : ScheduledThreadConfig) :
    wp (register config) (stepPost s (.register config)) s := by
  simp only [register, stepPost, wp_rules, id_eq, implies_true, true_and, and_true]
  intro hnew _ hvalid
  obtain ⟨hbase, heff, hplace⟩ := validatePolicy_eq_ok hvalid
  exact .register (by simpa using hnew) hbase heff hplace

theorem unregister_spec (id : GuestThreadId) :
    wp (unregister id) (stepPost s (.unregister id)) s := by
  simp only [unregister, stepPost, wp_rules, wp_getThread, implies_true, and_true, true_and]
  intro thread hthread hlease
  exact .unregister hthread (by simpa using hlease)

variable {id : GuestThreadId} {thread : ScheduledThread}

/-- A key about to be queued is new, since its sequence number is. -/
theorem not_sound_of_nextKey_mem {config : ScheduledThreadConfig}
    (h : s.nextKey id config ∈ s.ready) : ¬Sound s :=
  fun hs ↦ lt_irrefl _ (hs.sequence_lt _ h)

theorem makeReady_spec (id : GuestThreadId) :
    wp (makeReady id) (stepPost s (.makeReady id)) s := by
  simp only [makeReady, stepPost, wp_rules, wp_getThread, wp_tryMoveTo, wp_allocateSequence,
    wp_expectThread, wp_insertReady, implies_true, and_true]
  intro thread hthread hlegal hseq
  simp only [hthread, forall_some, setThread_ready]
  exact ⟨fun _ ↦ .makeReady hthread hlegal hseq, not_sound_of_nextKey_mem⟩

/-- Storing a thread and queueing it, the ending that four handlers share once they have drawn a
sequence number. -/
private theorem wp_enqueue {Q : Post SchedulerError SchedulerState Unit} {id : GuestThreadId}
    {thread : ScheduledThread} (hok : Q.ok () (s.enqueue id thread))
    (hpanic : s.nextKey id thread.config ∈ s.ready → Q.panic) :
    wp (enqueueExistingWithSequence id s.nextSequence) Q
      (({ s with nextSequence := s.nextSequence + 1 }).setThread id thread) := by
  simp only [wp_enqueueExistingWithSequence, setThread_threads, ExtTreeMap.getElem?_insert_self,
    forall_some, setThread_ready, setThread_setThread]
  exact ⟨fun _ ↦ hok, hpanic⟩

theorem grant_spec {vcpu : VirtualCpuId} {key : ReadyKey} (hidle : s.isIdle vcpu = true)
    (hkey : s.firstEligible vcpu = some key) :
    wp (grant vcpu key) ⟨SelectStep s vcpu, fun _ t ↦ t = s, ¬Sound s⟩ s := by
  obtain ⟨⟨hmem, hlive⟩, -⟩ := findFirst_eq_some_iff.mp hkey
  obtain ⟨thread, hthread, -⟩ := (any_eq_true _ _).mp hlive
  obtain ⟨slot, hslot, -⟩ := (any_eq_true _ _).mp hidle
  simp only [grant, wp_rules, wp_allocateLeaseGeneration, wp_assert, wp_expectThread, wp_moveTo,
    wp_expect, setThread_vcpus, hthread, hslot, ExtTreeSet.contains_iff_mem.mpr hmem,
    Option.some.injEq, forall_eq', reduceCtorEq, false_implies, implies_true, and_true,
    forall_const]
  refine fun _ ↦ ⟨fun hlegal ↦ .grant hidle hkey hthread hlegal, fun hillegal hs ↦ ?_⟩
  rw [(hs.queued _ hmem _ hthread).1] at hillegal
  cases hillegal

theorem select_spec (vcpu : VirtualCpuId) :
    wp (select vcpu) ⟨SelectStep s vcpu, fun _ t ↦ t = s, ¬Sound s⟩ s := by
  simp only [select, wp_rules, id_eq, implies_true, and_true, true_and]
  intro slot hslot hlease
  have hidle : s.isIdle vcpu = true := by simpa [isIdle, hslot] using hlease
  cases hkey : s.firstEligible vcpu with
  | none => exact .nothing hidle hkey
  | some key => exact grant_spec hidle hkey

/-- A thread with an idle virtual CPU in its affinity is placed somewhere. -/
theorem placement_ne_none (hany : thread.config.affinity.cores.any s.isIdle = true) :
    s.placement thread ≠ none := by
  obtain ⟨v, hv, hidle⟩ := List.any_eq_true.mp hany
  intro hnone
  obtain ⟨-, hfind⟩ := or_eq_none_iff.mp hnone
  exact List.find?_eq_none.mp hfind v hv hidle

theorem selectNext_spec : wp selectNext (stepPost s .selectNext) s := by
  simp only [selectNext, wp_rules, id_eq]
  cases hkey : s.firstRunnable with
  | none => exact .selectNextNone hkey
  | some key =>
    obtain ⟨⟨-, hlive⟩, -⟩ := findFirst_eq_some_iff.mp hkey
    obtain ⟨thread, hthread, hany⟩ := (any_eq_true _ _).mp hlive
    simp only [wp_bind, wp_expect, hthread, forall_some]
    refine ⟨fun vcpu hvcpu ↦ ?_, fun hnone ↦ absurd hnone (placement_ne_none hany)⟩
    exact wp_of_wp (select_spec vcpu) (fun _ _ h ↦ .selectNext hkey hthread hvcpu h)
      (fun _ _ h ↦ h)

theorem complete_spec (lease : Lease) (outcome : Completion) :
    wp (complete lease outcome) (stepPost s (.complete lease outcome)) s := by
  simp only [complete, completeSequence, stepPost, wp_rules, wp_getThread, wp_ite,
    wp_allocateSequence, wp_expect, wp_expectThread, wp_completeLifecycle, implies_true, and_true,
    true_and, not_not, ne_eq]
  intro thread hthread hlease hslot
  obtain ⟨slot, hvcpu, -⟩ := bind_eq_some_iff.mp hslot
  simp only [hthread, hvcpu, forall_some]
  have hpanic : thread.lifecycle.allowed outcome.via = false → ¬Sound s := by
    intro hillegal hs
    rw [hs.leased _ _ hthread (by simp [hlease])] at hillegal
    cases outcome <;> cases hillegal
  refine ⟨fun hreq _ ↦ ⟨fun hlegal ↦ ?_, hpanic⟩, fun hreq ↦ ⟨fun hlegal ↦ ?_, hpanic⟩⟩
  · -- Freeing the slot touches neither the queue nor the counter, so the common ending applies.
    exact wp_enqueue (s := s.freeVcpu lease.vcpu)
      (.completeRequeue hthread hlease hslot hreq hlegal)
      (@not_sound_of_nextKey_mem s lease.thread thread.config)
  · exact .completeStop hthread hlease hslot (by simpa using hreq) hlegal

theorem readyImmediately_spec (hthread : s.threads[id]? = some thread)
    (hlife : thread.lifecycle = .waiting) (hwait : thread.activeWait = none) :
    wp (readyImmediately id) (stepPost s (.registerWait id .ready)) s := by
  simp only [readyImmediately, stepPost, wp_rules, wp_allocateSequence, wp_expectThread, wp_moveTo,
    implies_true, and_true, hthread, Option.some.injEq, forall_eq', reduceCtorEq, false_implies,
    hlife, allowed, forall_const]
  exact fun _ ↦ wp_enqueue (.waitReady hthread hlife hwait) not_sound_of_nextKey_mem

theorem openWait_spec (hthread : s.threads[id]? = some thread)
    (hlife : thread.lifecycle = .waiting) (hwait : thread.activeWait = none) :
    wp (openWait id) (stepPost s (.registerWait id .pending)) s := by
  simp only [openWait, stepPost, wp_rules, wp_allocateWakeGeneration, wp_expectThread, implies_true,
    and_true, hthread, forall_some]
  exact fun _ ↦ .waitPending hthread hlife hwait

theorem registerWait_spec (id : GuestThreadId) (readiness : Readiness) :
    wp (registerWait id readiness) (stepPost s (.registerWait id readiness)) s := by
  simp only [registerWait, stepPost, wp_rules, wp_getThread, not_not, ne_eq, implies_true, and_true,
    true_and]
  intro thread hthread hlife hwait
  have hwait : thread.activeWait = none := by simpa using hwait
  cases readiness with
  | ready => exact readyImmediately_spec hthread hlife hwait
  | pending => exact openWait_spec hthread hlife hwait

theorem finishWait_spec (token : WakeToken) (cancelled : Bool) :
    wp (finishWait token cancelled)
      ⟨fun d t ↦ d = (if cancelled then .waitCancelled token.thread else .woken token.thread) ∧
        FinishStep s token t, fun _ t ↦ t = s, ¬Sound s⟩ s := by
  simp only [finishWait, wp_rules, wp_getThread, wp_allocateSequence, wp_expectThread, wp_moveTo,
    implies_true, and_true, true_and, not_not, ne_eq]
  intro thread hthread hwait _
  simp only [hthread, forall_some]
  refine ⟨fun hlegal ↦ wp_enqueue (.mk hthread hwait hlegal) not_sound_of_nextKey_mem,
    fun hillegal hs ↦ ?_⟩
  rw [hs.waiting _ _ hthread (by simp [hwait])] at hillegal
  cases hillegal

theorem terminate_spec (id : GuestThreadId) (faulted : Bool) :
    wp (terminate id faulted) (stepPost s (.terminate id faulted)) s := by
  simp only [terminate, stepPost, wp_rules, wp_getThread, wp_terminalLifecycle, wp_expectThread,
    implies_true, and_true, true_and]
  intro thread hthread hlease _ hlegal
  simp only [hthread, forall_some]
  exact .terminate hthread (by simpa using hlease) hlegal

theorem migrate_spec (id : GuestThreadId) (ideal : Option VirtualCpuId) (affinity : CoreSet) :
    wp (migrate id ideal affinity) (stepPost s (.migrate id ideal affinity)) s := by
  simp only [migrate, stepPost, wp_rules, wp_ifSome, wp_getThread, implies_true, and_true, true_and]
  constructor
  · intro v hv hc hfind thread hthread hlease
    refine .migrate (placementValid_of_find?_eq_none hfind ?_) hthread (by simpa using hlease)
    rintro w rfl
    cases hv
    simpa using hc
  · intro hnone hfind thread hthread hlease
    refine .migrate (placementValid_of_find?_eq_none hfind ?_) hthread (by simpa using hlease)
    rintro w rfl
    cases hnone

/-- The new key of a re-prioritised thread is in the queue already. -/
def Collides (s : SchedulerState) (id : GuestThreadId) (priority : Int) : Prop :=
  ∃ (thread : ScheduledThread) (key : ReadyKey), s.threads[id]? = some thread ∧
    thread.readyKey = some key ∧ { key with priority := priority } ∈ s.ready.erase key

/-- Re-prioritising never collides with another key: a key of the same thread is its own. -/
theorem Sound.not_collides {priority : Int} (hs : Sound s) : ¬Collides s id priority := by
  rintro ⟨thread, key, hthread, hkey, hmem⟩
  obtain ⟨hne, hmem⟩ := ExtTreeSet.mem_erase.mp hmem
  have hid : key.thread = id := hs.key_thread _ _ _ hthread hkey
  have howner := (hs.queued _ hmem thread (by simpa [hid] using hthread)).2
  rw [hkey, Option.some.injEq] at howner
  exact hne (Std.compare_eq_iff_eq.mpr howner)

theorem reprioritise_spec (id : GuestThreadId) (priority : Int)
    (assign : ScheduledThreadConfig → ScheduledThreadConfig) :
    wp (reprioritise id priority assign)
      ⟨fun d t ↦ d = .priorityChanged id ∧ s.profile.priorities.contains priority = true ∧
        ∃ thread, s.threads[id]? = some thread ∧ thread.activeLease = none ∧
          t = s.requeue id thread (assign thread.config) priority,
        fun _ t ↦ t = s ∧ (s.profile.priorities.contains priority = false ∨
          ∀ thread, s.threads[id]? = some thread → thread.activeLease.isSome),
        Collides s id priority⟩ s := by
  simp only [reprioritise, wp_rules, wp_ifSome, wp_getThread, wp_expectThread, wp_insertReady,
    true_and]
  refine ⟨fun hprio ↦ .inl (by simpa using hprio), fun hprio ↦ ⟨fun thread hthread ↦
    ⟨fun hlease ↦ .inr ?_, fun hlease ↦ ?_⟩, fun hnone ↦ .inr ?_⟩⟩
  · rintro other hother
    rwa [← Option.some.inj (hthread.symm.trans hother)]
  · have hprio : s.profile.priorities.contains priority = true := by simpa using hprio
    have hlease : thread.activeLease = none := by simpa using hlease
    simp only [hthread, hprio, hlease, forall_some, true_and, setThread_ready]
    cases hkey : thread.readyKey with
    | none => simp [requeue, hkey, eraseKey, setThread, hlease]
    | some key =>
      simp only [eraseKey, map_some, forall_some]
      exact ⟨fun _ ↦ by simp [requeue, hkey, setThread, hlease],
        fun hmem ↦ ⟨thread, key, hthread, hkey, hmem⟩⟩
  · rintro other hother
    cases hnone.symm.trans hother

theorem setPriority_spec (id : GuestThreadId) (priority : Int) :
    wp (setPriority id priority) (stepPost s (.setPriority id priority)) s := by
  rw [setPriority]
  refine wp_mono (reprioritise_spec id priority _) ?_ (fun _ _ h ↦ h.1)
    fun h hs ↦ hs.not_collides h
  rintro _ _ ⟨rfl, hprio, thread, hthread, hlease, rfl⟩
  exact .setPriority hprio hthread hlease

theorem setEffectivePriority_spec (id : GuestThreadId) (priority : Int) :
    wp (setEffectivePriority id priority) (stepPost s (.setEffectivePriority id priority)) s := by
  rw [setEffectivePriority]
  refine wp_mono (reprioritise_spec id priority _) ?_ (fun _ _ h ↦ h.1)
    fun h hs ↦ hs.not_collides h
  rintro _ _ ⟨rfl, hprio, thread, hthread, hlease, rfl⟩
  exact .setEffectivePriority hprio hthread hlease

theorem pause_spec (hthread : s.threads[id]? = some thread) (hlease : thread.activeLease = none)
    (hlife : thread.lifecycle = .ready) :
    wp (pause id thread.readyKey) (stepPost s (.setActivity id true)) s := by
  simp only [pause, stepPost, wp_rules, wp_expectThread, wp_moveTo, hthread, hlife,
    allowed, Option.some.injEq, forall_eq', reduceCtorEq, false_implies, and_true,
    forall_const]
  exact .pause hthread hlease hlife

theorem resume_spec (hthread : s.threads[id]? = some thread) (hlease : thread.activeLease = none)
    (hlife : thread.lifecycle = .suspended) :
    wp (resume id) (stepPost s (.setActivity id false)) s := by
  simp only [resume, stepPost, wp_rules, wp_allocateSequence, wp_expectThread, wp_moveTo, hthread,
    hlife, allowed, Option.some.injEq, forall_eq', reduceCtorEq, false_implies,
    implies_true, and_true, forall_const]
  exact fun _ ↦ wp_enqueue (.resume hthread hlease hlife) not_sound_of_nextKey_mem

theorem setActivity_spec (id : GuestThreadId) (paused : Bool) :
    wp (setActivity id paused) (stepPost s (.setActivity id paused)) s := by
  simp only [setActivity, stepPost, wp_rules, wp_getThread, wp_ite, implies_true, and_true,
    true_and]
  intro thread hthread hlease hready hsuspended
  have hnone : thread.activeLease = none := by simpa using fun h ↦ hlease (.inl h)
  refine ⟨?_, ?_⟩
  · rintro rfl
    exact pause_spec hthread hnone (by simpa using hready)
  · intro hp
    obtain rfl : paused = false := by simpa using hp
    exact resume_spec hthread hnone (by simpa using hsuspended)

/-- **Specification of `apply`.** Success is a `Step`, failure changes nothing, and a panic needs
tables that contradict one another. -/
theorem apply_spec (s : SchedulerState) (c : SchedulerCommand) : wp (apply c) (stepPost s c) s := by
  cases c with
  | register config => exact register_spec config
  | unregister id => exact unregister_spec id
  | makeReady id => exact makeReady_spec id
  | selectNext => exact selectNext_spec
  | select vcpu =>
    exact wp_of_wp (select_spec vcpu) (fun _ _ h ↦ .select h) (fun _ _ h ↦ h)
  | complete lease outcome => exact complete_spec lease outcome
  | registerWait id readiness => exact registerWait_spec id readiness
  | wake token =>
    refine wp_of_ok (finishWait_spec token false) ?_
    rintro _ _ ⟨rfl, h⟩
    exact .wake h
  | cancelWait token =>
    refine wp_of_ok (finishWait_spec token true) ?_
    rintro _ _ ⟨rfl, h⟩
    exact .cancelWait h
  | terminate id faulted => exact terminate_spec id faulted
  | migrate id ideal affinity => exact migrate_spec id ideal affinity
  | setPriority id priority => exact setPriority_spec id priority
  | setEffectivePriority id priority => exact setEffectivePriority_spec id priority
  | setActivity id paused => exact setActivity_spec id paused

/-- A step of the machine is a `Step` or leaves the state alone. -/
theorem scheduler_step {c : SchedulerCommand} {r : Except SchedulerError SchedulerDecision}
    {t : SchedulerState} (h : scheduler s c = some (r, t)) :
    (∃ d, r = .ok d ∧ Step s c d t) ∨ ∃ e, r = .error e ∧ t = s := by
  rcases machine_eq_some_iff.mp h with ⟨d, hr, happly⟩ | ⟨e, hr, happly⟩
  · exact .inl ⟨d, hr, ok_of_wp (apply_spec s c) happly⟩
  · exact .inr ⟨e, hr, err_of_wp (apply_spec s c) happly⟩

/-- The guards of `make_ready` are all it takes for it to succeed. -/
theorem apply_makeReady (hs : Sound s) (hthread : s.threads[id]? = some thread)
    (hlegal : thread.lifecycle.allowed .ready = true) (hseq : s.nextSequence + 1 < wordBound) :
    apply (.makeReady id) s =
      .ok (.enqueued id s.nextSequence) (s.enqueue id { thread with lifecycle := .ready }) := by
  refine eq_ok_of_wp ?_
  simp only [apply, makeReady, wp_rules, wp_getThread, wp_tryMoveTo, wp_allocateSequence,
    wp_expectThread, wp_insertReady, hthread, hlegal, hseq, hseq.not_ge, Option.some.injEq,
    forall_eq', setThread_ready, reduceCtorEq, false_implies, and_true, forall_const]
  exact ⟨fun _ ↦ ⟨trivial, rfl⟩, fun hmem ↦ not_sound_of_nextKey_mem hmem hs⟩

/-- In a sound state no command panics. -/
theorem scheduler_ne_none (hs : Sound s) (c : SchedulerCommand) : scheduler s c ≠ none := by
  intro h
  obtain ⟨msg, happly⟩ := machine_eq_none_iff.mp h
  exact panic_of_wp (apply_spec s c) happly hs

end

/-! ## Failure atomicity -/

/-- **A refused command changes nothing**: neither a table nor a counter. -/
theorem eq_of_apply_eq_err {s t : SchedulerState} {c : SchedulerCommand} {e : SchedulerError}
    (h : apply c s = .err e t) : t = s :=
  err_of_wp (apply_spec s c) h

/-- A state with one thread, whose last sequence number has been handed out. -/
def exhausted : SchedulerState :=
  ({ SchedulerState.new uniprocessor with nextSequence := 2 ^ 64 - 1 }).setThread 7
    ⟨⟨1, 7, 10, 10, none, uniprocessor.allCores⟩, .created, none, none, none, none⟩

theorem apply_makeReady_exhausted :
    ∃ t, apply (.makeReady 7) exhausted = .err .sequenceExhausted t ∧ t = exhausted :=
  ⟨exhausted, rfl, eq_of_apply_eq_err (c := .makeReady 7) (e := .sequenceExhausted) rfl⟩

end Nixe.Scheduler
