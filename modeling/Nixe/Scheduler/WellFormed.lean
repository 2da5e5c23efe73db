import Nixe.Scheduler.Links

/-!
# Well-formed scheduler states

What one expects of the tables: a thread is queued exactly while it is ready, it holds a lease
exactly while it is running, leases and slots mirror each other, and a wait is registered only
while the thread waits.

These expectations are not met by every run. `make_ready` consults the transition table alone,
and the table lets a running and a waiting thread become ready. So a thread can be made ready
while its lease is still out, or while its wait is still registered: the lease or the wait stays
behind, and the `Complete` or `Wake` that should have ended it panics. The main result says that
this is the only hole. The scheduler keeps its tables well formed, without a panic, exactly along
the runs that never make a thread ready that still holds a lease or a registered wait.
-/

namespace Nixe.Scheduler

open Std SchedulerState Option

/-! ## The expectation -/

/-- Agreement of the three tables. -/
structure WellFormed (s : SchedulerState) : Prop where
  /-- A thread has a key exactly while it is ready. -/
  ready_iff : ∀ (id : GuestThreadId) (th : ScheduledThread), s.threads[id]? = some th →
    (th.readyKey.isSome ↔ th.lifecycle = .ready)
  /-- The key of a thread is the key of the queue that names it. -/
  key_iff : ∀ (id : GuestThreadId) (th : ScheduledThread) (k : ReadyKey),
    s.threads[id]? = some th → (th.readyKey = some k ↔ k ∈ s.ready ∧ k.thread = id)
  key_priority : ∀ (id : GuestThreadId) (th : ScheduledThread) (k : ReadyKey),
    s.threads[id]? = some th → th.readyKey = some k → k.priority = th.config.effectivePriority
  /-- The queue names threads that exist. -/
  key_thread : ∀ k ∈ s.ready, k.thread ∈ s.threads
  /-- A lease held by a thread sits in the slot it names, -/
  slot_of_lease : ∀ (id : GuestThreadId) (th : ScheduledThread) (l : Lease),
    s.threads[id]? = some th → th.activeLease = some l →
      l.thread = id ∧ s.leaseForVcpu l.vcpu = some l
  /-- and a lease in a slot is held by the thread it names. -/
  lease_of_slot : ∀ (v : VirtualCpuId) (l : Lease), s.leaseForVcpu v = some l →
    l.vcpu = v ∧ ∃ th, s.threads[l.thread]? = some th ∧ th.activeLease = some l
  running_iff : ∀ (id : GuestThreadId) (th : ScheduledThread), s.threads[id]? = some th →
    (th.lifecycle = .running ↔ th.activeLease.isSome)
  waiting_of_wait : ∀ (id : GuestThreadId) (th : ScheduledThread), s.threads[id]? = some th →
    th.activeWait.isSome → th.lifecycle = .waiting
  priorities : ∀ (id : GuestThreadId) (th : ScheduledThread), s.threads[id]? = some th →
    s.profile.priorities.contains th.config.basePriority = true ∧
      s.profile.priorities.contains th.config.effectivePriority = true
  ideal : ∀ (id : GuestThreadId) (th : ScheduledThread) (v : VirtualCpuId),
    s.threads[id]? = some th → th.config.idealVcpu = some v → v ∈ th.config.affinity.cores
  affinity : ∀ (id : GuestThreadId) (th : ScheduledThread), s.threads[id]? = some th →
    th.config.affinity.cores ≠ [] ∧ ∀ v ∈ th.config.affinity.cores, v ∈ s.profile.vcpuIds

/-- The command makes a thread ready that still holds a lease or a registered wait. Once the
sequence numbers are used up the command is refused, and harmless. -/
def ReadiesBusy (s : SchedulerState) : SchedulerCommand → Prop
  | .makeReady id =>
    (∃ th, s.threads[id]? = some th ∧ (th.activeLease.isSome ∨ th.activeWait.isSome)) ∧
      s.nextSequence + 1 < wordBound
  | _ => False

/-! ## The invariant

On top of the links, which hold unconditionally, the invariant says that each thread is in step
with itself and that leases mirror slots. -/

/-- The lifecycle of a thread agrees with what it holds. -/
structure InStep (th : ScheduledThread) : Prop where
  ready : th.readyKey.isSome → th.lifecycle = .ready
  running : th.lifecycle = .running ↔ th.activeLease.isSome
  waiting : th.activeWait.isSome → th.lifecycle = .waiting

/-- Leases mirror slots. -/
structure Mirrored (s : SchedulerState) : Prop where
  slot_of_lease : ∀ (id : GuestThreadId) (th : ScheduledThread) (l : Lease),
    s.threads[id]? = some th → th.activeLease = some l → s.leaseForVcpu l.vcpu = some l
  lease_of_slot : ∀ (v : VirtualCpuId) (l : Lease), s.leaseForVcpu v = some l →
    ∃ th, s.threads[l.thread]? = some th ∧ th.activeLease = some l

/-- The invariant of the runs that never make a busy thread ready. -/
structure Coherent (s : SchedulerState) : Prop where
  linked : Linked s
  inStep : ∀ (id : GuestThreadId) (th : ScheduledThread), s.threads[id]? = some th → InStep th
  mirrored : Mirrored s

variable {s : SchedulerState}

theorem Coherent.wellFormed (h : Coherent s) : WellFormed s where
  ready_iff id th hth :=
    ⟨(h.inStep id th hth).ready, (h.linked.thread id th hth).queued_of_ready⟩
  key_iff id th k hth := by
    constructor
    · intro hk
      obtain ⟨hid, -, -, hm⟩ := (h.linked.thread id th hth).key k hk
      exact ⟨hm, hid⟩
    · rintro ⟨hm, hid⟩
      exact h.linked.readyKey_of_mem hth k hm hid
  key_priority id th k hth hk := ((h.linked.thread id th hth).key k hk).2.1
  key_thread k hk := by
    obtain ⟨th, hth, -⟩ := h.linked.owner k hk
    exact mem_of_getElem?_eq_some hth
  slot_of_lease id th l hth hl :=
    ⟨((h.linked.thread id th hth).lease l hl).1, h.mirrored.slot_of_lease id th l hth hl⟩
  lease_of_slot v l hl := ⟨(h.linked.slot v l hl).1, h.mirrored.lease_of_slot v l hl⟩
  running_iff id th hth := (h.inStep id th hth).running
  waiting_of_wait id th hth := (h.inStep id th hth).waiting
  priorities id th hth :=
    ⟨(h.linked.thread id th hth).base_mem, (h.linked.thread id th hth).effective_mem⟩
  ideal id th v hth hv := (h.linked.thread id th hth).placement.1 v hv
  affinity id th hth :=
    ⟨th.config.affinity.cores_ne_nil, (h.linked.thread id th hth).placement.2⟩

theorem Coherent.sound (h : Coherent s) : Sound s where
  sequence_lt := h.linked.sequence_lt
  queued k hk th hth := by
    have hkey := h.linked.readyKey_of_mem hth k hk rfl
    exact ⟨(h.inStep _ th hth).ready (by rw [hkey]; rfl), hkey⟩
  key_thread id th k hth hk := ((h.linked.thread id th hth).key k hk).1
  leased id th hth := (h.inStep id th hth).running.mpr
  waiting id th hth := (h.inStep id th hth).waiting

/-! ## Preservation -/

section

variable {s s' : SchedulerState} {id : GuestThreadId} {th th' : ScheduledThread}

private theorem inStep_insert
    (h : ∀ (id : GuestThreadId) (th : ScheduledThread), s.threads[id]? = some th → InStep th)
    (hself : InStep th') (hthreads : s'.threads = s.threads.insert id th') :
    ∀ (id : GuestThreadId) (th : ScheduledThread), s'.threads[id]? = some th → InStep th := by
  intro id' th'' hth
  rw [hthreads] at hth
  rcases getElem?_insert_eq_some_iff.mp hth with ⟨-, rfl⟩ | ⟨-, hth⟩
  · exact hself
  · exact h id' th'' hth

/-- A change that leaves the slots and the lease of the thread alone. -/
theorem Mirrored.update (h : Mirrored s) (hth : s.threads[id]? = some th)
    (hthreads : s'.threads = s.threads.insert id th') (hvcpus : s'.vcpus = s.vcpus)
    (hlease : th'.activeLease = th.activeLease) : Mirrored s' where
  slot_of_lease id' th'' l hth' hl := by
    rw [leaseForVcpu, hvcpus]
    rw [hthreads] at hth'
    rcases getElem?_insert_eq_some_iff.mp hth' with ⟨-, rfl⟩ | ⟨-, hth'⟩
    · exact h.slot_of_lease id th l hth (hlease ▸ hl)
    · exact h.slot_of_lease id' th'' l hth' hl
  lease_of_slot v l hl := by
    rw [leaseForVcpu, hvcpus] at hl
    obtain ⟨th₀, hth₀, hl₀⟩ := h.lease_of_slot v l hl
    rw [hthreads]
    by_cases hid : l.thread = id
    · rw [hid, hth] at hth₀
      cases hth₀
      exact ⟨th', getElem?_insert_eq_some_iff.mpr (.inl ⟨hid, rfl⟩), hlease.trans hl₀⟩
    · exact ⟨th₀, getElem?_insert_eq_some_iff.mpr (.inr ⟨hid, hth₀⟩), hl₀⟩

/-- A new thread holds no lease. -/
theorem Mirrored.register (h : Mirrored s) (hnew : s.threads[id]? = none)
    (hlease : th'.activeLease = none) : Mirrored (s.setThread id th') where
  slot_of_lease id' th'' l hth' hl := by
    rcases getElem?_insert_eq_some_iff.mp hth' with ⟨-, rfl⟩ | ⟨-, hth'⟩
    · rw [hlease] at hl
      cases hl
    · exact h.slot_of_lease id' th'' l hth' hl
  lease_of_slot v l hl := by
    obtain ⟨th₀, hth₀, hl₀⟩ := h.lease_of_slot v l hl
    refine ⟨th₀, getElem?_insert_eq_some_iff.mpr (.inr ⟨?_, hth₀⟩), hl₀⟩
    rintro rfl
    rw [hnew] at hth₀
    cases hth₀

/-- A thread that is forgotten holds no lease. -/
theorem Mirrored.unregister (h : Mirrored s) (hth : s.threads[id]? = some th)
    (hlease : th.activeLease = none) {ready : ExtTreeSet ReadyKey} :
    Mirrored { s with threads := s.threads.erase id, ready := ready } where
  slot_of_lease id' th'' l hth' hl :=
    h.slot_of_lease id' th'' l (getElem?_erase_eq_some_iff.mp hth').2 hl
  lease_of_slot v l hl := by
    obtain ⟨th₀, hth₀, hl₀⟩ := h.lease_of_slot v l hl
    refine ⟨th₀, getElem?_erase_eq_some_iff.mpr ⟨?_, hth₀⟩, hl₀⟩
    rintro rfl
    rw [hth] at hth₀
    cases hth₀
    rw [hlease] at hl₀
    cases hl₀

theorem Mirrored.grantLease (h : Mirrored s) {vcpu : VirtualCpuId}
    {key : ReadyKey} (hidle : s.isIdle vcpu = true) (hth : s.threads[key.thread]? = some th)
    (hlease : th.activeLease = none) : Mirrored (s.grantLease vcpu key th) where
  slot_of_lease id' th'' l hth' hl := by
    rw [leaseForVcpu, SchedulerState.grantLease, bind_eq_some_iff]
    rcases getElem?_insert_eq_some_iff.mp hth' with ⟨-, rfl⟩ | ⟨-, hth'⟩
    · cases hl
      exact ⟨_, getElem?_insert_eq_some_iff.mpr (.inl ⟨rfl, rfl⟩), rfl⟩
    · have hslot := h.slot_of_lease id' th'' l hth' hl
      obtain ⟨slot, hget, hslotl⟩ := bind_eq_some_iff.mp hslot
      refine ⟨slot, getElem?_insert_eq_some_iff.mpr (.inr ⟨?_, hget⟩), hslotl⟩
      rintro rfl
      simp [isIdle, hget, hslotl] at hidle
  lease_of_slot v l hl := by
    obtain ⟨slot, hget, hslotl⟩ := bind_eq_some_iff.mp hl
    rcases getElem?_insert_eq_some_iff.mp hget with ⟨-, rfl⟩ | ⟨-, hget⟩
    · cases hslotl
      exact ⟨_, getElem?_insert_eq_some_iff.mpr (.inl ⟨rfl, rfl⟩), rfl⟩
    · obtain ⟨th₀, hth₀, hl₀⟩ :=
        h.lease_of_slot v l (bind_eq_some_iff.mpr ⟨slot, hget, hslotl⟩)
      refine ⟨th₀, getElem?_insert_eq_some_iff.mpr (.inr ⟨?_, hth₀⟩), hl₀⟩
      intro hid
      rw [hid, hth] at hth₀
      cases hth₀
      rw [hlease] at hl₀
      cases hl₀

/-- Completing a lease clears both of its ends. -/
theorem Mirrored.complete (h : Mirrored s) (hlinked : Linked s) {lease : Lease}
    (hth : s.threads[lease.thread]? = some th) (hl : th.activeLease = some lease)
    (hthreads : s'.threads = s.threads.insert lease.thread th')
    (hvcpus : s'.vcpus = s.vcpus.insert lease.vcpu ⟨none⟩) (hlease : th'.activeLease = none) :
    Mirrored s' where
  slot_of_lease id' th'' l hth' hl' := by
    rw [hthreads] at hth'
    rcases getElem?_insert_eq_some_iff.mp hth' with ⟨-, rfl⟩ | ⟨hne, hth'⟩
    · rw [hlease] at hl'
      cases hl'
    · obtain ⟨slot, hget, hslotl⟩ :=
        bind_eq_some_iff.mp (h.slot_of_lease id' th'' l hth' hl')
      rw [leaseForVcpu, hvcpus, bind_eq_some_iff]
      refine ⟨slot, getElem?_insert_eq_some_iff.mpr (.inr ⟨?_, hget⟩), hslotl⟩
      -- Two leases on one slot are one lease, and its thread is the one it names.
      intro hv
      have hslot := h.slot_of_lease _ th lease hth hl
      rw [← hv, h.slot_of_lease id' th'' l hth' hl'] at hslot
      cases hslot
      exact hne ((hlinked.thread id' th'' hth').lease _ hl').1.symm
  lease_of_slot v l hl' := by
    rw [leaseForVcpu, hvcpus, bind_eq_some_iff] at hl'
    obtain ⟨slot, hget, hslotl⟩ := hl'
    rcases getElem?_insert_eq_some_iff.mp hget with ⟨-, rfl⟩ | ⟨hne, hget⟩
    · cases hslotl
    · have hslot : s.leaseForVcpu v = some l :=
        bind_eq_some_iff.mpr ⟨slot, hget, hslotl⟩
      obtain ⟨th₀, hth₀, hl₀⟩ := h.lease_of_slot v l hslot
      rw [hthreads]
      refine ⟨th₀, getElem?_insert_eq_some_iff.mpr (.inr ⟨?_, hth₀⟩), hl₀⟩
      intro hid
      rw [hid, hth] at hth₀
      cases hth₀
      rw [hl] at hl₀
      cases hl₀
      exact hne (hlinked.slot v _ hslot).1.symm

variable {config : ScheduledThreadConfig} {t : SchedulerState} {d : SchedulerDecision}

/-- A thread that has just been queued is in step if it holds neither a lease nor a wait. -/
theorem InStep.queued {key : Option ReadyKey} {last : Option VirtualCpuId} :
    InStep ⟨config, .ready, key, none, none, last⟩ where
  ready _ := rfl
  running := by simp
  waiting h := nomatch h

theorem InStep.activeLease_eq_none (h : InStep th) (hl : th.lifecycle ≠ .running) :
    th.activeLease = none := by
  rw [← not_isSome_iff_eq_none]
  exact fun hs ↦ hl (h.running.mpr hs)

theorem InStep.activeWait_eq_none (h : InStep th) (hl : th.lifecycle ≠ .waiting) :
    th.activeWait = none := by
  rw [← not_isSome_iff_eq_none]
  exact fun hs ↦ hl (h.waiting hs)

/-- Queueing a thread that has been relieved of its lease and its wait. -/
theorem Coherent.enqueue (h : Coherent s) (hlinked : Linked (s.enqueue id th'))
    (hth : s.threads[id]? = some th) (hlife : th'.lifecycle = .ready)
    (hlease : th.activeLease = none) (hlease' : th'.activeLease = none)
    (hwait : th'.activeWait = none) : Coherent (s.enqueue id th') where
  linked := hlinked
  inStep := by
    refine inStep_insert h.inStep ?_ rfl
    rw [hlife, hlease', hwait]
    exact .queued
  mirrored := h.mirrored.update hth rfl rfl (hlease'.trans hlease.symm)

theorem Coherent.selectStep {vcpu : VirtualCpuId} (h : Coherent s) (hs : SelectStep s vcpu d t) :
    Coherent t := by
  have hlinked := h.linked.selectStep hs
  cases hs with
  | nothing => exact h
  | @grant key thread hidle hkey hthread =>
    have hmem := (findFirst_eq_some_iff.mp hkey).1.1
    have hinStep := h.inStep _ _ hthread
    have hlife := (h.sound.queued key hmem thread hthread).1
    have hlease := hinStep.activeLease_eq_none (by simp [hlife])
    have hwait := hinStep.activeWait_eq_none (by simp [hlife])
    refine ⟨hlinked, inStep_insert h.inStep ?_ rfl, h.mirrored.grantLease hidle hthread hlease⟩
    exact ⟨by simp, by simp, by simp [hwait]⟩

theorem Coherent.finishStep {token : WakeToken} (h : Coherent s) (hs : FinishStep s token t) :
    Coherent t := by
  have hlinked := h.linked.finishStep hs
  obtain ⟨hthread, hwait, -⟩ := hs
  have hinStep := h.inStep _ _ hthread
  have hlife := hinStep.waiting (by simp [hwait])
  have hlease := hinStep.activeLease_eq_none (by simp [hlife])
  exact h.enqueue hlinked hthread rfl hlease hlease rfl

/-- A thread that stops running goes where its outcome says, without its lease. -/
theorem InStep.completed {outcome : Completion} (h : InStep th) (hlife : th.lifecycle = .running)
    (key : Option ReadyKey) (hkey : key.isSome → outcome.target = .ready)
    (last : Option VirtualCpuId) :
    InStep { th with
      lifecycle := outcome.target, readyKey := key, activeLease := none, lastVcpu := last } where
  ready := hkey
  running := by cases outcome <;> simp [Completion.target]
  waiting hw := by
    have := h.waiting hw
    rw [hlife] at this
    cases this

/-- Re-prioritising changes neither the lifecycle of a thread nor what it holds. -/
theorem Coherent.requeue {priority : Int} (h : Coherent s)
    (hlinked : Linked (s.requeue id th config priority)) (hth : s.threads[id]? = some th) :
    Coherent (s.requeue id th config priority) := by
  have hinStep := h.inStep _ _ hth
  rw [SchedulerState.requeue] at hlinked ⊢
  cases hkey : th.readyKey with
  | none =>
    rw [hkey] at hlinked
    refine ⟨hlinked, inStep_insert h.inStep ?_ rfl, h.mirrored.update hth rfl rfl rfl⟩
    exact ⟨by simp, hinStep.running, hinStep.waiting⟩
  | some key =>
    rw [hkey] at hlinked
    refine ⟨hlinked, inStep_insert h.inStep ?_ rfl, h.mirrored.update hth rfl rfl rfl⟩
    exact ⟨fun _ ↦ hinStep.ready (by rw [hkey]; rfl), hinStep.running, hinStep.waiting⟩

/-- Every command but the readying of a busy thread keeps the invariant. -/
theorem Coherent.step {c : SchedulerCommand} (h : Coherent s) (hgood : ¬ReadiesBusy s c)
    (hs : Step s c d t) : Coherent t := by
  have hlinked := h.linked.step hs
  cases hs with
  | register hnew =>
    refine ⟨hlinked, inStep_insert h.inStep ?_ rfl, h.mirrored.register hnew rfl⟩
    exact ⟨by simp, by simp, by simp⟩
  | unregister hthread hlease =>
    refine ⟨hlinked, fun id' th' hth' ↦ ?_, h.mirrored.unregister hthread hlease⟩
    exact h.inStep id' th' (getElem?_erase_eq_some_iff.mp hth').2
  | @makeReady id thread hthread hlegal hseq =>
    -- What the handler does not check is what the condition on the run provides.
    have hlease : thread.activeLease = none := by
      rw [← not_isSome_iff_eq_none]
      exact fun hl ↦ hgood ⟨⟨thread, hthread, .inl hl⟩, hseq⟩
    have hwait : thread.activeWait = none := by
      rw [← not_isSome_iff_eq_none]
      exact fun hw ↦ hgood ⟨⟨thread, hthread, .inr hw⟩, hseq⟩
    exact h.enqueue hlinked hthread rfl hlease hlease hwait
  | select hsel | selectNext _ _ _ hsel => exact h.selectStep hsel
  | selectNextNone => exact h
  | @completeRequeue lease outcome thread hthread hlease hslot hreq hlegal =>
    have hinStep := h.inStep _ _ hthread
    have hlife := hinStep.running.mpr (by simp [hlease])
    refine ⟨hlinked, inStep_insert h.inStep (hinStep.completed hlife _ ?_ _) rfl,
      h.mirrored.complete h.linked hthread hlease rfl rfl rfl⟩
    intro _
    cases outcome <;> simp_all [Completion.target, Completion.requeues]
  | @completeStop lease outcome thread hthread hlease hslot hreq hlegal =>
    have hinStep := h.inStep _ _ hthread
    have hlife := hinStep.running.mpr (by simp [hlease])
    refine ⟨hlinked, inStep_insert h.inStep (hinStep.completed hlife _ ?_ _) rfl,
      h.mirrored.complete h.linked hthread hlease rfl rfl rfl⟩
    intro hk
    -- A thread with a key is ready, and this one was running.
    have := hinStep.ready hk
    rw [hlife] at this
    cases this
  | waitReady hthread hlife hwait =>
    -- A waiting thread has no lease.
    have hlease := (h.inStep _ _ hthread).activeLease_eq_none (by simp [hlife])
    exact h.enqueue hlinked hthread rfl hlease hlease hwait
  | waitPending hthread hlife hwait =>
    have hinStep := h.inStep _ _ hthread
    refine ⟨hlinked, inStep_insert h.inStep ?_ rfl, h.mirrored.update hthread rfl rfl rfl⟩
    exact ⟨hinStep.ready, hinStep.running, fun _ ↦ hlife⟩
  | wake hfin | cancelWait hfin => exact h.finishStep hfin
  | @terminate id faulted thread hthread hlease hlegal =>
    refine ⟨hlinked, inStep_insert h.inStep ?_ rfl, h.mirrored.update hthread rfl rfl rfl⟩
    refine ⟨by simp, ?_, by simp⟩
    cases faulted <;> simp [terminalTarget, hlease]
  | migrate hplace hthread hlease =>
    have hinStep := h.inStep _ _ hthread
    refine ⟨hlinked, inStep_insert h.inStep ?_ rfl, h.mirrored.update hthread rfl rfl rfl⟩
    exact ⟨hinStep.ready, hinStep.running, hinStep.waiting⟩
  | setPriority _ hthread | setEffectivePriority _ hthread => exact h.requeue hlinked hthread
  | pause hthread hlease hlife =>
    have hwait := (h.inStep _ _ hthread).activeWait_eq_none (by simp [hlife])
    refine ⟨hlinked, inStep_insert h.inStep ?_ rfl, h.mirrored.update hthread rfl rfl rfl⟩
    exact ⟨by simp, by simp [hlease], by simp [hwait]⟩
  | resume hthread hlease hlife =>
    have hwait := (h.inStep _ _ hthread).activeWait_eq_none (by simp [hlife])
    exact h.enqueue hlinked hthread rfl hlease hlease hwait

end

/-! ## The runs that stay well formed -/

/-- Readying a busy thread succeeds, and leaves it ready with its lease or its wait. -/
theorem not_wellFormed_of_readiesBusy {t : SchedulerState} {c : SchedulerCommand}
    {r : Except SchedulerError SchedulerDecision} (h : Coherent s) (hbusy : ReadiesBusy s c)
    (hs : scheduler s c = some (r, t)) : ¬WellFormed t := by
  cases c with
  | makeReady id =>
    obtain ⟨⟨th, hth, hheld⟩, hseq⟩ := hbusy
    have hinStep := h.inStep id th hth
    have hlegal : th.lifecycle.allowed .ready = true := by
      rcases hheld with hl | hw
      · rw [hinStep.running.mpr hl]
        rfl
      · rw [hinStep.waiting hw]
        rfl
    have happly := apply_makeReady h.sound hth hlegal hseq
    have hstep : scheduler s (.makeReady id) =
        some (.ok (.enqueued id s.nextSequence), s.enqueue id { th with lifecycle := .ready }) :=
      Method.machine_eq_some_iff.mpr (.inl ⟨_, rfl, happly⟩)
    cases hstep.symm.trans hs
    have hget : (s.enqueue id { th with lifecycle := .ready }).threads[id]? =
        some { th with
          lifecycle := .ready, readyKey := some (s.nextKey id th.config) } :=
      getElem?_insert_eq_some_iff.mpr (.inl ⟨rfl, rfl⟩)
    intro hwf
    rcases hheld with hl | hw
    · exact nomatch (hwf.running_iff _ _ hget).mpr hl
    · exact nomatch hwf.waiting_of_wait _ _ hget hw
  | _ => exact hbusy.elim

/-- **Well-formed runs.** No command panics and every state is well formed, exactly if no command
makes a thread ready that still holds a lease or a registered wait. -/
theorem wellFormed_run_iff (profile : MachineSchedulerProfile) (cs : List SchedulerCommand) :
    Machine.Safe scheduler WellFormed (SchedulerState.new profile) cs ↔
      Machine.Along scheduler (fun s c ↦ ¬ReadiesBusy s c) (SchedulerState.new profile) cs := by
  refine Machine.safe_iff_along (fun _ ↦ Coherent.wellFormed) ?_ ?_ ⟨linked_new profile,
    by simp [SchedulerState.new], by simp [SchedulerState.new], by simp [leaseForVcpu_new]⟩
  · intro s c h hgood
    cases hs : scheduler s c with
    | none => exact absurd hs (scheduler_ne_none h.sound c)
    | some r =>
      refine ⟨r.1, r.2, rfl, ?_⟩
      rcases scheduler_step hs with ⟨d, -, hd⟩ | ⟨e, -, he⟩
      · exact h.step hgood hd
      · exact he ▸ h
  · intro s c r t h hbad hs
    exact not_wellFormed_of_readiesBusy h (not_not.mp hbad) hs

/-- A thread waits, is made ready by hand, and is then woken by its token. -/
def lateWake : List SchedulerCommand :=
  [.register ⟨1, 7, 10, 10, none, uniprocessor.allCores⟩, .makeReady 7, .select 0,
    .complete ⟨1, 7, 0, 1⟩ .waiting, .registerWait 7 .pending, .makeReady 7, .wake ⟨7, 1⟩]

/-- The late wake panics. -/
theorem exists_unsafe_run :
    ¬∀ (profile : MachineSchedulerProfile) (cs : List SchedulerCommand),
      Machine.Safe scheduler WellFormed (SchedulerState.new profile) cs :=
  fun h ↦ (h uniprocessor lateWake).exec_ne_none (by rfl)

end Nixe.Scheduler
