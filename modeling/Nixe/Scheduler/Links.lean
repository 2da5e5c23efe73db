import Nixe.Scheduler.Step

/-!
# Links between the tables

`Linked` collects what holds of the tables in every state the scheduler can reach, whatever
commands it is given. It is deliberately weaker than what one would like to hold: a thread with a
lease may be ready rather than running, and a key may outlive the readiness of its owner, because
the scheduler accepts command sequences that lead there. What it does guarantee is that every
key in the queue belongs to the thread it names, that every ready thread is queued under its
effective priority, and that every token and lease in the tables was drawn from the counters.
-/

namespace Nixe.Scheduler

open Std SchedulerState SchedulerState List Completion

/-- What the other tables guarantee about the thread stored under `id`. -/
structure ThreadLinked (s : SchedulerState) (id : GuestThreadId) (thread : ScheduledThread) :
    Prop where
  thread_eq : thread.config.thread = id
  base_mem : s.profile.priorities.contains thread.config.basePriority = true
  effective_mem : s.profile.priorities.contains thread.config.effectivePriority = true
  placement : PlacementValid s.profile thread.config.idealVcpu thread.config.affinity
  key : ∀ k, thread.readyKey = some k → k.thread = id ∧
    k.priority = thread.config.effectivePriority ∧ k.sequence < s.nextSequence ∧ k ∈ s.ready
  queued_of_ready : thread.lifecycle = .ready → thread.readyKey.isSome
  ready_of_queued : thread.readyKey.isSome →
    thread.lifecycle = .ready ∨ thread.lifecycle = .exited
  lease : ∀ l, thread.activeLease = some l → l.thread = id ∧
    l.generation < s.nextLeaseGeneration ∧
    (thread.lifecycle = .running ∨ thread.lifecycle = .ready)
  wait : ∀ t, thread.activeWait = some t → t.thread = id ∧ t.generation < s.nextWakeGeneration

/-- The links that hold in every reachable state. -/
structure Linked (s : SchedulerState) : Prop where
  thread : ∀ id th, s.threads[id]? = some th → ThreadLinked s id th
  owner : ∀ k ∈ s.ready, ∃ th, s.threads[k.thread]? = some th ∧ th.readyKey = some k
  sequence_unique : ∀ k ∈ s.ready, ∀ k' ∈ s.ready, k.sequence = k'.sequence → k = k'
  vcpu_mem : ∀ v, v ∈ s.vcpus ↔ v ∈ s.profile.vcpuIds
  slot : ∀ v l, s.leaseForVcpu v = some l → l.vcpu = v ∧ l.generation < s.nextLeaseGeneration

variable {s t : SchedulerState} {id : GuestThreadId} {thread th : ScheduledThread}
  {d : SchedulerDecision}

theorem ThreadLinked.mono {s' : SchedulerState} (h : ThreadLinked s id thread)
    (hprofile : s'.profile = s.profile) (hseq : s.nextSequence ≤ s'.nextSequence)
    (hlease : s.nextLeaseGeneration ≤ s'.nextLeaseGeneration)
    (hwake : s.nextWakeGeneration ≤ s'.nextWakeGeneration)
    (hready : ∀ k ∈ s.ready, k.thread = id → k ∈ s'.ready) : ThreadLinked s' id thread where
  __ := h
  base_mem := hprofile ▸ h.base_mem
  effective_mem := hprofile ▸ h.effective_mem
  placement := hprofile ▸ h.placement
  key k hk := by
    obtain ⟨hid, hp, hs, hm⟩ := h.key k hk
    exact ⟨hid, hp, hs.trans_le hseq, hready k hm hid⟩
  lease l hl := by
    obtain ⟨hid, hg, hr⟩ := h.lease l hl
    exact ⟨hid, hg.trans_le hlease, hr⟩
  wait t ht := by
    obtain ⟨hid, hg⟩ := h.wait t ht
    exact ⟨hid, hg.trans_le hwake⟩

/-- A key of one thread and a key of another have different sequence numbers. -/
theorem Linked.sequence_ne (h : Linked s) {k : ReadyKey} (hk : k ∈ s.ready) (hid : k.thread = id) :
    ∀ k' ∈ s.ready, k'.thread ≠ id → k.sequence ≠ k'.sequence := by
  intro k' hk' hne heq
  rw [h.sequence_unique k hk k' hk' heq] at hid
  exact hne hid

/-- A change to the single thread `id` keeps the links, provided the thread is linked again
afterwards, the queue gains or loses no key of another thread, and no key of the thread repeats
the sequence number of another thread. -/
theorem Linked.update {s' : SchedulerState} (h : Linked s)
    (hthreads : s'.threads = s.threads.insert id thread) (hprofile : s'.profile = s.profile)
    (hseq : s.nextSequence ≤ s'.nextSequence)
    (hlease : s.nextLeaseGeneration ≤ s'.nextLeaseGeneration)
    (hwake : s.nextWakeGeneration ≤ s'.nextWakeGeneration)
    (hready : ∀ k, k.thread ≠ id → (k ∈ s'.ready ↔ k ∈ s.ready))
    (howner : ∀ k ∈ s'.ready, k.thread = id → thread.readyKey = some k)
    (hunique : ∀ k ∈ s'.ready, k.thread = id →
      ∀ k' ∈ s.ready, k'.thread ≠ id → k.sequence ≠ k'.sequence)
    (hself : ThreadLinked s' id thread) (hvcpus : ∀ v, v ∈ s'.vcpus ↔ v ∈ s.vcpus)
    (hslot : ∀ v l, s'.leaseForVcpu v = some l → l.vcpu = v ∧
      l.generation < s'.nextLeaseGeneration) :
    Linked s' where
  thread id' th hth := by
    rw [hthreads] at hth
    rcases getElem?_insert_eq_some_iff.mp hth with ⟨rfl, rfl⟩ | ⟨hne, hth⟩
    · exact hself
    · exact (h.thread id' th hth).mono hprofile hseq hlease hwake
        fun k hk hkid ↦ (hready k (hkid ▸ hne)).mpr hk
  owner k hk := by
    rw [hthreads]
    by_cases hid : k.thread = id
    · exact ⟨thread, getElem?_insert_eq_some_iff.mpr (.inl ⟨hid, rfl⟩), howner k hk hid⟩
    · obtain ⟨th, hth, hkey⟩ := h.owner k ((hready k hid).mp hk)
      exact ⟨th, getElem?_insert_eq_some_iff.mpr (.inr ⟨hid, hth⟩), hkey⟩
  sequence_unique k hk k' hk' heq := by
    by_cases hid : k.thread = id <;> by_cases hid' : k'.thread = id
    · have hkey := (howner k hk hid).symm.trans (howner k' hk' hid')
      exact Option.some.inj hkey
    · exact absurd heq (hunique k hk hid k' ((hready k' hid').mp hk') hid')
    · exact absurd heq.symm (hunique k' hk' hid' k ((hready k hid).mp hk) hid)
    · exact h.sequence_unique k ((hready k hid).mp hk) k' ((hready k' hid').mp hk') heq
  vcpu_mem v := by rw [hvcpus, hprofile, h.vcpu_mem]
  slot := hslot

/-- A thread owns every key of the queue that names it. -/
theorem Linked.readyKey_of_mem (h : Linked s) (hth : s.threads[id]? = some th) :
    ∀ k ∈ s.ready, k.thread = id → th.readyKey = some k := by
  rintro k hk rfl
  obtain ⟨th', hth', hkey⟩ := h.owner k hk
  rw [hth] at hth'
  cases hth'
  exact hkey

/-- The new key of a re-prioritised thread is not in the queue yet. -/
theorem Linked.not_collides (h : Linked s) {priority : Int} : ¬Collides s id priority := by
  rintro ⟨thread, key, hthread, hkey, hmem⟩
  obtain ⟨hne, hmem⟩ := mem_erase_iff.mp hmem
  have hid := ((h.thread id thread hthread).key key hkey).1
  have hown := h.readyKey_of_mem hthread _ hmem hid
  exact hne (Option.some.inj (hown.symm.trans hkey))

/-- Sequence numbers in the queue have been handed out. -/
theorem Linked.sequence_lt (h : Linked s) (k : ReadyKey) (hk : k ∈ s.ready) :
    k.sequence < s.nextSequence := by
  obtain ⟨th, hth, hkey⟩ := h.owner k hk
  exact ((h.thread _ th hth).key k hkey).2.2.1

theorem ThreadLinked.readyKey_eq_none (h : ThreadLinked s id th) (hr : th.lifecycle ≠ .ready)
    (he : th.lifecycle ≠ .exited) : th.readyKey = none := by
  by_contra hk
  rcases h.ready_of_queued (Option.isSome_iff_ne_none.mpr hk) with h | h
  · exact hr h
  · exact he h

section

variable {s : SchedulerState} {id : GuestThreadId} {th th' : ScheduledThread}

/-- Changing a thread without touching its key. -/
theorem Linked.setThread (h : Linked s)
    (hkeys : ∀ k ∈ s.ready, k.thread = id → th'.readyKey = some k) (hself : ThreadLinked s id th') :
    Linked (s.setThread id th') :=
  h.update rfl rfl le_rfl le_rfl le_rfl (fun _ _ ↦ Iff.rfl) hkeys (fun _ ↦ h.sequence_ne)
    (hself.mono rfl le_rfl le_rfl le_rfl fun _ hk _ ↦ hk) (fun _ ↦ Iff.rfl) h.slot

theorem Linked.freeVcpu (h : Linked s) {v : VirtualCpuId} (hv : v ∈ s.vcpus) :
    Linked (s.freeVcpu v) where
  __ := h
  thread id th hth := (h.thread id th hth).mono rfl le_rfl le_rfl le_rfl fun _ hk _ ↦ hk
  vcpu_mem w := by
    refine Iff.trans (mem_map_insert_iff.trans ?_) (h.vcpu_mem w)
    exact ⟨fun hw ↦ hw.elim (fun he ↦ he ▸ hv) fun hw ↦ hw, .inr⟩
  slot w l hl := by
    rw [leaseForVcpu, SchedulerState.freeVcpu, ExtTreeMap.getElem?_insert] at hl
    split at hl
    · cases hl
    · exact h.slot w l hl

/-- Queueing a thread that is not queued. -/
theorem Linked.enqueue (h : Linked s) (hth : s.threads[id]? = some th) (hkey : th.readyKey = none)
    (hconfig : th'.config = th.config) (hlife : th'.lifecycle = .ready)
    (hlease : ∀ l, th'.activeLease = some l → th.activeLease = some l)
    (hwait : ∀ t, th'.activeWait = some t → th.activeWait = some t) :
    Linked (s.enqueue id th') := by
  have hlinked := h.thread id th hth
  have hnone : ∀ k ∈ s.ready, k.thread ≠ id := by
    rintro k hk rfl
    have := h.readyKey_of_mem hth k hk rfl
    rw [hkey] at this
    cases this
  have hmem : ∀ k, k ∈ (s.enqueue id th').ready ↔ k = s.nextKey id th'.config ∨ k ∈ s.ready :=
    fun k ↦ mem_insert_iff
  refine h.update rfl rfl (Nat.le_succ _) le_rfl le_rfl ?_ ?_ ?_ ?_ (fun _ ↦ Iff.rfl) h.slot
  · intro k hk
    rw [hmem]
    refine ⟨fun hor ↦ hor.resolve_left ?_, .inr⟩
    rintro rfl
    exact hk rfl
  · intro k hk hid
    rcases (hmem k).mp hk with rfl | hk
    · rfl
    · exact absurd hid (hnone k hk)
  · intro k hk hid k' hk' _
    rcases (hmem k).mp hk with rfl | hk
    · exact (h.sequence_lt k' hk').ne'
    · exact absurd hid (hnone k hk)
  · refine
      { thread_eq := by rw [hconfig, hlinked.thread_eq]
        base_mem := hconfig ▸ hlinked.base_mem
        effective_mem := hconfig ▸ hlinked.effective_mem
        placement := hconfig ▸ hlinked.placement
        key := ?_
        queued_of_ready := fun _ ↦ rfl
        ready_of_queued := fun _ ↦ .inl hlife
        lease := fun l hl ↦ ?_
        wait := fun t ht ↦ hlinked.wait t (hwait t ht) }
    · rintro k ⟨⟩
      exact ⟨rfl, rfl, Nat.lt_succ_self _, (hmem _).mpr (.inl rfl)⟩
    · obtain ⟨hid, hg, -⟩ := hlinked.lease l (hlease l hl)
      exact ⟨hid, hg, .inr hlife⟩

private theorem mem_eraseKey_iff {ready : ExtTreeSet ReadyKey} {key : Option ReadyKey}
    {k : ReadyKey} : k ∈ eraseKey ready key ↔ key ≠ some k ∧ k ∈ ready := by
  cases key with
  | none => simp [eraseKey]
  | some key => rw [eraseKey, mem_erase_iff, ne_comm, ne_eq, ne_eq, Option.some.injEq]

/-- Taking a thread out of the queue. -/
theorem Linked.dequeue (h : Linked s) (hth : s.threads[id]? = some th)
    (hself : ThreadLinked { s with ready := eraseKey s.ready th.readyKey } id th') :
    Linked (s.dequeue th.readyKey id th') := by
  have hlinked := h.thread id th hth
  refine h.update rfl rfl le_rfl le_rfl le_rfl ?_ ?_
    (fun k hk ↦ h.sequence_ne (mem_eraseKey_iff.mp hk).2)
    (hself.mono rfl le_rfl le_rfl le_rfl fun _ hk _ ↦ hk) (fun _ ↦ Iff.rfl) h.slot
  · intro k hk
    refine mem_eraseKey_iff.trans ⟨And.right, fun hm ↦ ⟨fun hkey ↦ hk ?_, hm⟩⟩
    exact (hlinked.key k hkey).1
  · rintro k hk rfl
    obtain ⟨hne, hk⟩ := mem_eraseKey_iff.mp hk
    exact absurd (h.readyKey_of_mem hth k hk rfl) hne

/-- Exchanging the key of a thread for one of another priority. -/
theorem Linked.requeue (h : Linked s) (hth : s.threads[id]? = some th)
    {config : ScheduledThreadConfig} {priority : Int} (hthread : config.thread = th.config.thread)
    (hbase : s.profile.priorities.contains config.basePriority = true)
    (hprio : s.profile.priorities.contains priority = true)
    (heff : config.effectivePriority = priority) (hideal : config.idealVcpu = th.config.idealVcpu)
    (haffinity : config.affinity = th.config.affinity) :
    Linked (s.requeue id th config priority) := by
  have hlinked := h.thread id th hth
  have hpolicy : PlacementValid s.profile config.idealVcpu config.affinity := by
    rw [hideal, haffinity]
    exact hlinked.placement
  cases hkey : th.readyKey with
  | none =>
    rw [SchedulerState.requeue, hkey]
    refine h.setThread ?_
      { hlinked with
        thread_eq := hthread.trans hlinked.thread_eq
        base_mem := hbase
        effective_mem := heff ▸ hprio
        placement := hpolicy
        key := (by simp)
        queued_of_ready := hkey ▸ hlinked.queued_of_ready
        ready_of_queued := (by simp) }
    rintro k hk rfl
    exact hkey.symm.trans (h.readyKey_of_mem hth k hk rfl)
  | some key =>
    obtain ⟨hid, -, hseq, hmem⟩ := hlinked.key key hkey
    rw [SchedulerState.requeue, hkey]
    refine h.update rfl rfl le_rfl le_rfl le_rfl ?_ ?_ ?_ ?_ (fun _ ↦ Iff.rfl) h.slot
    · intro k hk
      rw [mem_insert_iff, mem_erase_iff]
      constructor
      · rintro (rfl | ⟨-, hm⟩)
        · exact absurd hid hk
        · exact hm
      · intro hm
        refine .inr ⟨?_, hm⟩
        rintro rfl
        exact hk hid
    · rintro k hk rfl
      rcases mem_insert_iff.mp hk with rfl | hk
      · rfl
      · obtain ⟨hne, hm⟩ := mem_erase_iff.mp hk
        have hown := h.readyKey_of_mem hth k hm rfl
        rw [hkey, Option.some.injEq] at hown
        exact absurd hown.symm hne
    · intro k hk hkid
      rcases mem_insert_iff.mp hk with rfl | hk
      · have hne := h.sequence_ne hmem hid
        exact hne
      · exact h.sequence_ne (mem_erase_iff.mp hk).2 hkid
    · exact
        { hlinked with
          thread_eq := hthread.trans hlinked.thread_eq
          base_mem := hbase
          effective_mem := heff ▸ hprio
          placement := hpolicy
          key := by
            rintro k ⟨⟩
            exact ⟨hid, heff.symm, hseq, by simp⟩
          queued_of_ready := fun _ ↦ rfl
          ready_of_queued := fun _ ↦ hlinked.ready_of_queued (by rw [hkey]; rfl) }

/-- Granting a virtual CPU to a queued thread. -/
theorem Linked.grantLease (h : Linked s) {vcpu : VirtualCpuId} {key : ReadyKey}
    (hidle : s.isIdle vcpu = true) (hmem : key ∈ s.ready)
    (hth : s.threads[key.thread]? = some th) : Linked (s.grantLease vcpu key th) := by
  have hlinked := h.thread key.thread th hth
  have hkey := h.readyKey_of_mem hth key hmem rfl
  obtain ⟨slot, hslot, -⟩ := (Option.any_eq_true _ _).mp hidle
  refine h.update rfl rfl le_rfl (Nat.le_succ _) le_rfl ?_ ?_
    (fun k hk ↦ h.sequence_ne (mem_erase_iff.mp hk).2) ?_ ?_ ?_
  · intro k hk
    refine mem_erase_iff.trans ⟨And.right, fun hm ↦ ⟨?_, hm⟩⟩
    rintro rfl
    exact hk rfl
  · intro k hk hid
    obtain ⟨hne, hm⟩ := mem_erase_iff.mp hk
    have hown := h.readyKey_of_mem hth k hm hid
    rw [hkey, Option.some.injEq] at hown
    exact absurd hown.symm hne
  · exact
      { hlinked with
        key := nofun
        queued_of_ready := nofun
        ready_of_queued := nofun
        lease := by
          rintro l ⟨⟩
          exact ⟨rfl, Nat.lt_succ_self _, .inl rfl⟩ }
  · intro v
    refine mem_map_insert_iff.trans ⟨fun hv ↦ hv.elim ?_ fun hv ↦ hv, .inr⟩
    rintro rfl
    exact mem_of_getElem?_eq_some hslot
  · intro v l hl
    rw [leaseForVcpu, SchedulerState.grantLease, ExtTreeMap.getElem?_insert] at hl
    split at hl
    · rename_i hv
      obtain rfl := Std.compare_eq_iff_eq.mp hv
      cases hl
      exact ⟨rfl, Nat.lt_succ_self _⟩
    · obtain ⟨hv, hg⟩ := h.slot v l hl
      exact ⟨hv, hg.trans (Nat.lt_succ_self _)⟩

/-- Forgetting a thread. -/
theorem Linked.unregister (h : Linked s) (hth : s.threads[id]? = some th) :
    Linked { s with threads := s.threads.erase id, ready := eraseKey s.ready th.readyKey } where
  __ := h
  thread id' th' hth' := by
    obtain ⟨hne, hth'⟩ := getElem?_erase_eq_some_iff.mp hth'
    refine (h.thread id' th' hth').mono rfl le_rfl le_rfl le_rfl fun k hk hkid ↦ ?_
    refine mem_eraseKey_iff.mpr ⟨fun hkey ↦ hne ?_, hk⟩
    rw [← hkid, ((h.thread id th hth).key k hkey).1]
  owner k hk := by
    obtain ⟨hne, hk⟩ := mem_eraseKey_iff.mp hk
    obtain ⟨th', hth', hkey⟩ := h.owner k hk
    refine ⟨th', getElem?_erase_eq_some_iff.mpr ⟨?_, hth'⟩, hkey⟩
    rintro rfl
    rw [hth] at hth'
    cases hth'
    exact hne hkey
  sequence_unique k hk k' hk' heq :=
    h.sequence_unique k (mem_eraseKey_iff.mp hk).2 k' (mem_eraseKey_iff.mp hk').2 heq

end

/-! ## Every step keeps the links -/

theorem ne_of_allowed_ready {l : ThreadLifecycle} (h : l.allowed .ready = true) :
    l ≠ .ready ∧ l ≠ .exited := by
  cases l <;> simp_all [ThreadLifecycle.allowed]

theorem mem_vcpus_of_leaseForVcpu {v : VirtualCpuId} {l : Lease} (h : s.leaseForVcpu v = some l) :
    v ∈ s.vcpus := by
  obtain ⟨slot, hslot, -⟩ := Option.bind_eq_some_iff.mp h
  exact mem_of_getElem?_eq_some hslot

theorem Linked.selectStep {vcpu : VirtualCpuId} (h : Linked s) (hs : SelectStep s vcpu d t) :
    Linked t := by
  cases hs with
  | nothing => exact h
  | grant hidle hkey hthread =>
    exact h.grantLease hidle (findFirst_eq_some_iff.mp hkey).1.1 hthread

theorem Linked.finishStep {token : WakeToken} (h : Linked s) (hs : FinishStep s token t) :
    Linked t := by
  obtain ⟨hthread, -, hlegal⟩ := hs
  obtain ⟨hr, he⟩ := ne_of_allowed_ready hlegal
  exact h.enqueue hthread ((h.thread _ _ hthread).readyKey_eq_none hr he) rfl rfl
    (fun _ hl ↦ hl) nofun

theorem Linked.step {c : SchedulerCommand} (h : Linked s) (hs : Step s c d t) : Linked t := by
  cases hs with
  | register hnew hbase heff hplace =>
    refine h.setThread ?_
      { thread_eq := rfl, base_mem := hbase, effective_mem := heff, placement := hplace
        key := (by simp)
        queued_of_ready := (by simp)
        ready_of_queued := (by simp)
        lease := (by simp)
        wait := (by simp) }
    -- The owner of a key is registered, so no key names the new thread.
    intro k hk hid
    obtain ⟨th, hth, -⟩ := h.owner k hk
    rw [hid, hnew] at hth
    cases hth
  | unregister hthread => exact h.unregister hthread
  | makeReady hthread hlegal =>
    obtain ⟨hr, he⟩ := ne_of_allowed_ready hlegal
    exact h.enqueue hthread ((h.thread _ _ hthread).readyKey_eq_none hr he) rfl rfl
      (fun _ hl ↦ hl) fun _ ht ↦ ht
  | select hsel | selectNext _ _ _ hsel => exact h.selectStep hsel
  | selectNextNone => exact h
  | @completeRequeue lease outcome thread hthread hlease hslot hreq hlegal =>
    have hfree := h.freeVcpu (mem_vcpus_of_leaseForVcpu hslot)
    have hlinked := h.thread _ _ hthread
    refine hfree.enqueue hthread ?_ rfl ?_ (by simp) fun _ ht ↦ ht
    -- A queued thread is ready or exited, and this completion is legal from neither.
    · refine hlinked.readyKey_eq_none ?_ ?_
      · intro hl
        rw [hl] at hlegal
        cases outcome <;> simp_all [via, requeues, ThreadLifecycle.allowed]
      · intro hl
        rw [hl] at hlegal
        cases outcome <;> simp_all [requeues, ThreadLifecycle.allowed]
    · cases outcome <;> simp_all [target, requeues]
  | @completeStop lease outcome thread hthread hlease hslot hreq hlegal =>
    have hfree := h.freeVcpu (mem_vcpus_of_leaseForVcpu hslot)
    have hlinked := hfree.thread _ _ hthread
    have hkeys := hfree.readyKey_of_mem hthread
    refine hfree.setThread hkeys
      { hlinked with
        queued_of_ready := ?_
        ready_of_queued := ?_
        lease := (by simp) }
    · intro hr
      cases outcome <;> simp_all [target, requeues]
    · intro hk
      rcases hlinked.ready_of_queued hk with hl | hl <;> rw [hl] at hlegal <;>
        cases outcome <;> simp_all [via, target, ThreadLifecycle.allowed]
  | waitReady hthread hlife | resume hthread _ hlife =>
    exact h.enqueue hthread
      ((h.thread _ _ hthread).readyKey_eq_none (by simp [hlife]) (by simp [hlife])) rfl rfl
      (fun _ hl ↦ hl) fun _ ht ↦ ht
  | waitPending hthread hlife hwait =>
    have hlinked := h.thread _ _ hthread
    have hkeys := h.readyKey_of_mem hthread
    refine h.update rfl rfl le_rfl le_rfl (Nat.le_succ _) (fun _ _ ↦ Iff.rfl) hkeys
      (fun _ ↦ h.sequence_ne)
      { hlinked with wait := ?_ } (fun _ ↦ Iff.rfl) h.slot
    rintro t ⟨⟩
    exact ⟨rfl, Nat.lt_succ_self _⟩
  | wake hfin | cancelWait hfin => exact h.finishStep hfin
  | @terminate id faulted thread hthread hlease hlegal =>
    have hlinked := h.thread _ _ hthread
    refine h.dequeue hthread
      { hlinked with
        key := (by simp)
        queued_of_ready := ?_
        ready_of_queued := (by simp)
        lease := fun l hl ↦ by cases hlease.symm.trans hl
        wait := (by simp) }
    intro hr
    cases faulted <;> cases hr
  | @migrate id ideal affinity thread hplace hthread hlease =>
    have hlinked := h.thread _ _ hthread
    have hkeys := h.readyKey_of_mem hthread
    exact h.setThread hkeys
      { hlinked with placement := hplace }
  | setPriority hprio hthread => exact h.requeue hthread rfl hprio hprio rfl rfl rfl
  | setEffectivePriority hprio hthread =>
    exact h.requeue hthread rfl (h.thread _ _ hthread).base_mem hprio rfl rfl rfl
  | @pause id thread hthread hlease hlife =>
    have hlinked := h.thread _ _ hthread
    exact h.dequeue hthread
      { hlinked with
        key := (by simp)
        queued_of_ready := (by simp)
        ready_of_queued := (by simp)
        lease := fun l hl ↦ by cases hlease.symm.trans hl }

/-! ## The reachable states -/

/-- Initially every virtual CPU is idle. -/
theorem leaseForVcpu_new (profile : MachineSchedulerProfile) (v : VirtualCpuId) :
    (SchedulerState.new profile).leaseForVcpu v = none := by
  rw [leaseForVcpu, Option.bind_eq_none_iff]
  intro slot hslot
  have hmem : v ∈ (new profile).vcpus :=
    mem_of_getElem?_eq_some hslot
  simp only [new, ExtTreeMap.mem_ofList, map_map, contains_eq_mem,
    decide_eq_true_eq, mem_map] at hmem
  obtain ⟨descriptor, hd, rfl⟩ := hmem
  have hdistinct : (profile.vcpus.map fun d ↦ (d.id, VirtualCpuSlot.mk none)).Pairwise
      fun a b ↦ ¬compare a.1 b.1 = .eq := by
    refine pairwise_map.mpr ((pairwise_map.mp profile.vcpus_increasing).imp ?_)
    intro a b hab he
    exact absurd (Std.compare_eq_iff_eq.mp he) hab.ne
  have hget : (new profile).vcpus[descriptor.id]? = some ⟨none⟩ :=
    ExtTreeMap.getElem?_ofList_of_mem (Std.compare_eq_iff_eq.mpr rfl) hdistinct
      (mem_map.mpr ⟨descriptor, hd, rfl⟩)
  cases hget.symm.trans hslot
  rfl

theorem linked_new (profile : MachineSchedulerProfile) : Linked (SchedulerState.new profile) where
  thread id th hth := by simp [new] at hth
  owner k hk := by simp [new] at hk
  sequence_unique k hk := by simp [new] at hk
  vcpu_mem v := by
    simp [new, ExtTreeMap.mem_ofList, MachineSchedulerProfile.vcpuIds]
  slot v l hl := by
    rw [leaseForVcpu_new] at hl
    cases hl

/-- Every state the scheduler can reach is linked. -/
theorem Linked.of_run {es : List (SchedulerCommand × Except SchedulerError SchedulerDecision)}
    (h : Linked s) (hrun : Machine.Run scheduler s es t) : Linked t := by
  refine hrun.invariant (fun s c r t hs hstep ↦ ?_) h
  rcases scheduler_step hstep with ⟨d, -, hd⟩ | ⟨e, -, rfl⟩
  · exact hs.step hd
  · exact hs

theorem linked_of_reachable {profile : MachineSchedulerProfile}
    (h : Machine.Reachable scheduler (SchedulerState.new profile) s) : Linked s := by
  obtain ⟨es, hrun⟩ := h
  exact (linked_new profile).of_run hrun

end Nixe.Scheduler
