import Nixe.Scheduler.Links

/-!
# Selection policy

The scheduler is a fixed-priority scheduler: among the threads that may run, the one with the
least priority number goes first, and among equals the one that has been queued longest.

`select` and `select_next` both search the queue, and `select_next` searches it twice, the second
time through `select` and with another predicate. The searches agree, because the virtual CPU on
which the second search is made is idle and belongs to the affinity of the thread that the first
one found.

## Fairness

A thread keeps its sequence number for as long as it stays ready, whatever happens to its
priority meanwhile. So of two threads that stay ready and end up with the same priority and
affinity, the one that was queued first is leased first.
-/

namespace Nixe.Scheduler

open Std SchedulerState Option CoreSet

/-! ## The order of the queue -/

/-- The thread stored under `id` is ready. -/
def IsReady (s : SchedulerState) (id : GuestThreadId) (th : ScheduledThread) : Prop :=
  s.threads[id]? = some th ∧ th.lifecycle = .ready

/-- The rank of a queued thread: its effective priority, then the sequence number it was queued
with. -/
def HasRank (th : ScheduledThread) (r : Int ×ₗ Nat) : Prop :=
  ∃ k, th.readyKey = some k ∧ r = toLex (th.config.effectivePriority, k.sequence)

theorem HasRank.unique {th : ScheduledThread} {r r' : Int ×ₗ Nat} (h : HasRank th r)
    (h' : HasRank th r') : r = r' := by
  obtain ⟨k, hk, rfl⟩ := h
  obtain ⟨k', hk', rfl⟩ := h'
  rw [hk] at hk'
  cases hk'
  rfl

/-- The thread `id` comes before every other ready thread that satisfies `p`. -/
def IsFirst (s : SchedulerState) (p : ScheduledThread → Prop) (id : GuestThreadId)
    (th : ScheduledThread) : Prop :=
  IsReady s id th ∧ p th ∧
    ∃ r, HasRank th r ∧
      ∀ id' th', IsReady s id' th' → p th' → id' ≠ id → ∃ r', HasRank th' r' ∧ r < r'

/-- The thread may run on `v`. -/
def MayRunOn (v : VirtualCpuId) (th : ScheduledThread) : Prop := v ∈ th.config.affinity.cores

/-- The thread may run on some idle virtual CPU. -/
def MayRun (s : SchedulerState) (th : ScheduledThread) : Prop :=
  ∃ v ∈ th.config.affinity.cores, s.isIdle v = true

/-- The ideal virtual CPU of the thread is idle, and is `v`. -/
def IdealIdle (s : SchedulerState) (th : ScheduledThread) (v : VirtualCpuId) : Prop :=
  th.config.idealVcpu = some v ∧ s.isIdle v = true

/-- The virtual CPU the thread last ran on is idle and still in its affinity, and is `v`. -/
def LastIdle (s : SchedulerState) (th : ScheduledThread) (v : VirtualCpuId) : Prop :=
  th.lastVcpu = some v ∧ v ∈ th.config.affinity.cores ∧ s.isIdle v = true

/-- The placement rule: the ideal virtual CPU, else the last one, else the lowest-numbered one of
the affinity, each if idle. -/
def PlacedOn (s : SchedulerState) (th : ScheduledThread) (v : VirtualCpuId) : Prop :=
  IdealIdle s th v ∨
    (¬∃ w, IdealIdle s th w) ∧
      (LastIdle s th v ∨
        (¬∃ w, LastIdle s th w) ∧ IsLeast {w | w ∈ th.config.affinity.cores ∧ s.isIdle w = true} v)

/-! ## Both searches find the first thread -/

section

variable {s t : SchedulerState} {v : VirtualCpuId} {id : GuestThreadId} {th : ScheduledThread}

section

variable (h : Linked s)

include h

/-- Sequence numbers are unique in the queue, so the thread number never decides. -/
theorem rank_lt_of_compare {k k' : ReadyKey} (hk : k ∈ s.ready) (hk' : k' ∈ s.ready)
    (hlt : compare k k' = .lt) :
    toLex (k.priority, k.sequence) < toLex (k'.priority, k'.sequence) := by
  rw [Prod.Lex.toLex_lt_toLex]
  rcases ReadyKey.compare_eq_lt_iff.mp hlt with hp | ⟨hp, hs | ⟨hs, -⟩⟩
  · exact .inl hp
  · exact .inr ⟨hp, hs⟩
  · rw [h.sequence_unique k hk k' hk' hs] at hlt
    simp at hlt

/-- A ready thread is queued, under its own rank. -/
theorem IsReady.exists_key (hr : IsReady s id th) :
    ∃ k ∈ s.ready, th.readyKey = some k ∧ k.thread = id ∧
      k.priority = th.config.effectivePriority := by
  have hlinked := h.thread id th hr.1
  obtain ⟨k, hk⟩ := isSome_iff_exists.mp (hlinked.queued_of_ready hr.2)
  obtain ⟨hid, hp, -, hm⟩ := hlinked.key k hk
  exact ⟨k, hm, hk, hid, hp⟩

variable {key : ReadyKey}

/-- A queued thread that may start running is ready. -/
theorem isReady_of_allowed_running (hmem : key ∈ s.ready) (hth : s.threads[key.thread]? = some th)
    (hlegal : th.lifecycle.allowed .running = true) : IsReady s key.thread th := by
  have hkey := h.readyKey_of_mem hth key hmem rfl
  rcases (h.thread _ th hth).ready_of_queued (by rw [hkey]; rfl) with hl | hl
  · exact ⟨hth, hl⟩
  · rw [hl] at hlegal
    cases hlegal

variable {p : ScheduledThread → Bool} {P : ScheduledThread → Prop}

/-- A search of the queue by a property of the owner finds the first such thread. -/
theorem isFirst_of_findFirst (hP : ∀ th, p th = true ↔ P th)
    (hkey : findFirst s.ready (fun k ↦ s.threads[k.thread]?.any p) = some key)
    (hr : IsReady s key.thread th) : IsFirst s P key.thread th := by
  obtain ⟨⟨hmem, hp⟩, hleast⟩ := findFirst_eq_some_iff.mp hkey
  rw [hr.1, any_some, hP] at hp
  have hown := h.readyKey_of_mem hr.1 key hmem rfl
  have hprio := ((h.thread _ th hr.1).key key hown).2.1
  refine ⟨hr, hp, _, ⟨key, hown, rfl⟩, fun id' th' hr' hp' hne ↦ ?_⟩
  obtain ⟨k', hm', hk', hid', hprio'⟩ := hr'.exists_key h
  refine ⟨_, ⟨k', hk', rfl⟩, ?_⟩
  rw [← hprio, ← hprio']
  refine rank_lt_of_compare h hmem hm' ((hleast k' hm' ?_).resolve_left ?_)
  · rw [hid', hr'.1, any_some, hP]
    exact hp'
  · rintro rfl
    exact hne hid'.symm

/-- A search that finds nothing leaves no ready thread with the property. -/
theorem not_of_findFirst_eq_none (hP : ∀ th, p th = true ↔ P th)
    (hnone : findFirst s.ready (fun k ↦ s.threads[k.thread]?.any p) = none) (hr : IsReady s id th) :
    ¬P th := by
  obtain ⟨k, hm, -, hid, -⟩ := hr.exists_key h
  have hk := findFirst_eq_none_iff.mp hnone k hm
  rw [hid, hr.1, any_some, Bool.eq_false_iff, ne_eq, hP] at hk
  exact hk

/-- The thread that `select` leases is the first of those that may run on the virtual CPU. -/
theorem SelectStep.isFirst {l : Lease} (hs : SelectStep s v (.selected (some l)) t) :
    l.vcpu = v ∧ ∃ th, IsFirst s (MayRunOn v) l.thread th := by
  cases hs with
  | @grant key thread hidle hkey hthread hlegal =>
    have hr := isReady_of_allowed_running h (findFirst_eq_some_iff.mp hkey).1.1 hthread hlegal
    exact ⟨rfl, thread, isFirst_of_findFirst h (fun _ ↦ contains_iff) hkey hr⟩

theorem SelectStep.none_iff {d : SchedulerDecision} (hs : SelectStep s v d t) :
    d = .selected none ↔ ∀ id th, IsReady s id th → ¬MayRunOn v th := by
  cases hs with
  | nothing hidle hkey =>
    exact ⟨fun _ _ _ hr ↦ not_of_findFirst_eq_none h (fun _ ↦ contains_iff) hkey hr,
      fun _ ↦ rfl⟩
  | @grant key thread hidle hkey hthread hlegal =>
    have hr := isReady_of_allowed_running h (findFirst_eq_some_iff.mp hkey).1.1 hthread hlegal
    have hfirst := isFirst_of_findFirst h (fun _ ↦ contains_iff) hkey hr
    constructor
    · intro hd
      cases hd
    · intro hnone
      exact absurd hfirst.2.1 (hnone _ _ hr)

end

/-! ## Placement -/

theorem placedOn_of_placement (h : s.placement th = some v) : PlacedOn s th v := by
  rw [placement] at h
  by_cases hideal : ∃ w, IdealIdle s th w
  · obtain ⟨w, hw, hidle⟩ := hideal
    simp only [hw, filter_some, hidle, if_true, some_or, Option.some.injEq] at h
    exact .inl (h ▸ ⟨hw, hidle⟩)
  · have hnone : th.config.idealVcpu.filter s.isIdle = none := by
      rw [filter_eq_none_iff]
      exact fun w hw hidle ↦ hideal ⟨w, hw, hidle⟩
    rw [hnone, none_or] at h
    refine .inr ⟨hideal, ?_⟩
    by_cases hlast : ∃ w, LastIdle s th w
    · obtain ⟨w, hw, hmem, hidle⟩ := hlast
      simp only [hw, filter_some, contains_iff.mpr hmem, hidle, Bool.and_self,
        if_true, some_or, Option.some.injEq] at h
      exact .inl (h ▸ ⟨hw, hmem, hidle⟩)
    · have hnone' : (th.lastVcpu.filter fun w ↦
          th.config.affinity.contains w && s.isIdle w) = none := by
        rw [filter_eq_none_iff]
        intro w hw hidle
        rw [Bool.and_eq_true, contains_iff] at hidle
        exact hlast ⟨w, hw, hidle⟩
      rw [hnone', none_or, find?_eq_some_iff] at h
      exact .inr ⟨hlast, h.1, fun w hw ↦ h.2 w hw.1 hw.2⟩

/-- A placed thread may run where it is placed, and that virtual CPU is idle. -/
theorem PlacedOn.mayRunOn (hvalid : PlacementValid s.profile th.config.idealVcpu th.config.affinity)
    (h : PlacedOn s th v) : MayRunOn v th ∧ s.isIdle v = true := by
  rcases h with ⟨hv, hidle⟩ | ⟨-, ⟨-, hmem, hidle⟩ | ⟨-, ⟨hmem, hidle⟩, -⟩⟩
  · exact ⟨hvalid.1 v hv, hidle⟩
  · exact ⟨hmem, hidle⟩
  · exact ⟨hmem, hidle⟩

/-- The second search of `select_next` finds the key of the first one. -/
theorem firstEligible_eq_of_firstRunnable (hkey : s.firstRunnable = some key)
    (hthread : s.threads[key.thread]? = some th) (hmay : MayRunOn v th)
    (hidle : s.isIdle v = true) : s.firstEligible v = some key := by
  obtain ⟨⟨hmem, -⟩, hleast⟩ := findFirst_eq_some_iff.mp hkey
  refine findFirst_eq_some_iff.mpr ⟨⟨hmem, ?_⟩, fun k hk hv ↦ hleast k hk ?_⟩
  · rw [hthread, any_some, contains_iff]
    exact hmay
  · obtain ⟨th', hth', hv⟩ := (any_eq_true _ _).mp hv
    rw [hth', any_some, List.any_eq_true]
    exact ⟨v, contains_iff.mp hv, hidle⟩

/-- The thread that `select_next` leases is the first of those that may run at all, and its lease
is where the placement rule says. -/
theorem isFirst_of_selectNext (h : Linked s) {l : Lease} (hkey : s.firstRunnable = some key)
    (hthread : s.threads[key.thread]? = some th) (hvcpu : s.placement th = some v)
    (hs : SelectStep s v (.selected (some l)) t) :
    IsFirst s (MayRun s) l.thread th ∧ PlacedOn s th l.vcpu := by
  have hplaced := placedOn_of_placement hvcpu
  obtain ⟨hmay, hidle⟩ := hplaced.mayRunOn (h.thread _ th hthread).placement
  have hsame := firstEligible_eq_of_firstRunnable hkey hthread hmay hidle
  cases hs with
  | @grant key' thread _ hkey' hthread' hlegal =>
    obtain rfl : key = key' := Option.some.inj (hsame.symm.trans hkey')
    obtain rfl : th = thread := Option.some.inj (hthread.symm.trans hthread')
    have hr := isReady_of_allowed_running h (findFirst_eq_some_iff.mp hkey).1.1 hthread hlegal
    exact ⟨isFirst_of_findFirst h (fun _ ↦ List.any_eq_true) hkey hr, hplaced⟩

/-- `select_next` comes back empty-handed only if no ready thread may run. -/
theorem not_mayRun_of_selectNext (h : Linked s) (hs : Step s .selectNext (.selected none) t)
    (hr : IsReady s id th) : ¬MayRun s th := by
  cases hs with
  | selectNextNone hkey => exact not_of_findFirst_eq_none h (fun _ ↦ List.any_eq_true) hkey hr
  | selectNext hkey hthread hvcpu hsel =>
    obtain ⟨hmay, hidle⟩ :=
      (placedOn_of_placement hvcpu).mayRunOn (h.thread _ _ hthread).placement
    have hsame := firstEligible_eq_of_firstRunnable hkey hthread hmay hidle
    cases hsel with
    | nothing _ hnone => exact nomatch hsame.symm.trans hnone

end

/-! ## Sequence numbers last as long as readiness -/

section

variable {s t : SchedulerState} {id : GuestThreadId}

/-- The thread `id` is ready, and was queued with the sequence number `n`. -/
def QueuedWith (s : SchedulerState) (id : GuestThreadId) (n : Nat) : Prop :=
  ∃ th k, IsReady s id th ∧ th.readyKey = some k ∧ k.sequence = n

/-- The thread `id` is ready. -/
def ReadyIn (s : SchedulerState) (id : GuestThreadId) : Prop := ∃ th, IsReady s id th

variable {th₀ : ScheduledThread} {n : Nat} {id₀ : GuestThreadId} {th' : ScheduledThread}
  {d : SchedulerDecision} {c : SchedulerCommand}

/-- Queueing one thread: that thread gets the next number, and the others keep theirs. -/
theorem queuedWith_enqueue (hth : s.threads[id₀]? = some th₀) (hlife : th₀.lifecycle ≠ .ready)
    (h : QueuedWith (s.enqueue id₀ th') id n) :
    QueuedWith s id n ∨ ¬ReadyIn s id ∧ n = s.nextSequence := by
  obtain ⟨th, k, ⟨hget, hready⟩, hkey, rfl⟩ := h
  rcases getElem?_insert_eq_some_iff.mp hget with ⟨rfl, rfl⟩ | ⟨-, hget⟩
  · refine .inr ⟨?_, ?_⟩
    · rintro ⟨th, hget', hready'⟩
      rw [hth] at hget'
      cases hget'
      exact hlife hready'
    · cases hkey
      rfl
  · exact .inl ⟨th, k, ⟨hget, hready⟩, hkey, rfl⟩

/-- Storing a thread that is not ready, or is ready with the number it had. -/
theorem queuedWith_insert (hth : s.threads[id₀]? = some th₀)
    (hthreads : t.threads = s.threads.insert id₀ th')
    (hkept : th'.lifecycle = .ready → th₀.lifecycle = .ready ∧
      th'.readyKey.map ReadyKey.sequence = th₀.readyKey.map ReadyKey.sequence)
    (h : QueuedWith t id n) : QueuedWith s id n := by
  obtain ⟨th, k, ⟨hget, hready⟩, hkey, rfl⟩ := h
  rw [hthreads] at hget
  rcases getElem?_insert_eq_some_iff.mp hget with ⟨rfl, rfl⟩ | ⟨-, hget⟩
  · obtain ⟨hready₀, hseq⟩ := hkept hready
    rw [hkey, map_some, eq_comm, map_eq_some_iff] at hseq
    obtain ⟨k₀, hk₀, hseq⟩ := hseq
    exact ⟨th₀, k₀, ⟨hth, hready₀⟩, hk₀, hseq⟩
  · exact ⟨th, k, ⟨hget, hready⟩, hkey, rfl⟩

theorem queuedWith_requeue {config : ScheduledThreadConfig} {priority : Int}
    (hth : s.threads[id₀]? = some th₀) (h : QueuedWith (s.requeue id₀ th₀ config priority) id n) :
    QueuedWith s id n := by
  rw [requeue] at h
  split at h
  · rename_i key hkey
    refine queuedWith_insert hth rfl ?_ h
    intro hr
    rw [hkey]
    exact ⟨hr, rfl⟩
  · refine queuedWith_insert hth rfl ?_ h
    exact fun hr ↦ ⟨hr, rfl⟩

theorem SelectStep.queuedWith {v : VirtualCpuId} (hs : SelectStep s v d t) (h : QueuedWith t id n) :
    QueuedWith s id n := by
  cases hs with
  | nothing => exact h
  | grant _ _ hthread =>
    refine queuedWith_insert hthread rfl ?_ h
    exact nofun

theorem FinishStep.queuedWith {token : WakeToken} (hs : FinishStep s token t)
    (h : QueuedWith t id n) : QueuedWith s id n ∨ ¬ReadyIn s id ∧ n = s.nextSequence := by
  obtain ⟨hthread, -, hlegal⟩ := hs
  exact queuedWith_enqueue hthread (ne_of_allowed_ready hlegal).1 h

/-- **Places in the queue.** After a step, a ready thread either kept its place or was queued by
the step. -/
theorem Step.queuedWith (hs : Step s c d t) (h : QueuedWith t id n) :
    QueuedWith s id n ∨ ¬ReadyIn s id ∧ n = s.nextSequence := by
  cases hs with
  | register hnew =>
    obtain ⟨th, k, ⟨hget, hready⟩, hkey, rfl⟩ := h
    rcases getElem?_insert_eq_some_iff.mp hget with ⟨rfl, rfl⟩ | ⟨-, hget⟩
    · cases hready
    · exact .inl ⟨th, k, ⟨hget, hready⟩, hkey, rfl⟩
  | unregister =>
    obtain ⟨th, k, ⟨hget, hready⟩, hkey, rfl⟩ := h
    exact .inl ⟨th, k, ⟨(getElem?_erase_eq_some_iff.mp hget).2, hready⟩, hkey, rfl⟩
  | makeReady hthread hlegal => exact queuedWith_enqueue hthread (ne_of_allowed_ready hlegal).1 h
  | select hsel | selectNext _ _ _ hsel => exact .inl (hsel.queuedWith h)
  | selectNextNone => exact .inl h
  | @completeRequeue lease outcome thread hthread hlease hslot hreq hlegal =>
    refine queuedWith_enqueue (s := s.freeVcpu lease.vcpu) hthread ?_ h
    intro hl
    rw [hl] at hlegal
    cases outcome <;> simp_all [Completion.via, Completion.requeues, ThreadLifecycle.allowed]
  | @completeStop lease outcome thread hthread hlease hslot hreq hlegal =>
    refine .inl (queuedWith_insert hthread rfl (fun hr ↦ ?_) h)
    cases outcome <;> simp_all [Completion.target, Completion.requeues]
  | waitReady hthread hlife | resume hthread _ hlife =>
    exact queuedWith_enqueue hthread (by simp [hlife]) h
  | waitPending hthread | migrate _ hthread =>
    refine .inl (queuedWith_insert hthread rfl ?_ h)
    exact fun hr ↦ ⟨hr, rfl⟩
  | wake hfin | cancelWait hfin => exact hfin.queuedWith h
  | @terminate id faulted thread hthread =>
    refine .inl (queuedWith_insert hthread rfl (fun hr ↦ ?_) h)
    cases faulted <;> cases hr
  | setPriority _ hthread | setEffectivePriority _ hthread =>
    exact .inl (queuedWith_requeue hthread h)
  | pause hthread =>
    refine .inl (queuedWith_insert hthread rfl ?_ h)
    simp

theorem QueuedWith.unique {m : Nat} (h : QueuedWith s id n) (h' : QueuedWith s id m) : n = m := by
  obtain ⟨th, k, ⟨hget, -⟩, hkey, rfl⟩ := h
  obtain ⟨th', k', ⟨hget', -⟩, hkey', rfl⟩ := h'
  rw [hget] at hget'
  cases hget'
  rw [hkey] at hkey'
  cases hkey'
  rfl

theorem ReadyIn.exists_queuedWith (h : Linked s) (hr : ReadyIn s id) :
    ∃ n < s.nextSequence, QueuedWith s id n := by
  obtain ⟨th, hr⟩ := hr
  obtain ⟨k, hm, hk, -, -⟩ := hr.exists_key h
  exact ⟨k.sequence, h.sequence_lt k hm, th, k, hr, hk, rfl⟩

/-- A step of the machine, as it appears to a ready thread. -/
theorem queuedWith_of_scheduler {r : Except SchedulerError SchedulerDecision}
    (hs : scheduler s c = some (r, t)) (h : QueuedWith t id n) :
    QueuedWith s id n ∨ ¬ReadyIn s id ∧ n = s.nextSequence := by
  rcases scheduler_step hs with ⟨d, -, hd⟩ | ⟨e, -, rfl⟩
  · exact hd.queuedWith h
  · exact .inl h

/-- A thread that stays ready keeps its sequence number. -/
theorem QueuedWith.of_run {es : List (SchedulerCommand × Except SchedulerError SchedulerDecision)}
    (hlinked : Linked s) (hrun : Machine.Run scheduler s es t)
    (hready : Machine.Throughout scheduler (ReadyIn · id) s es) (h : QueuedWith s id n) :
    QueuedWith t id n := by
  induction hrun with
  | nil => exact h
  | @cons s u t c r es hs hrun ih =>
    have hlinked' := hlinked.of_run (.cons hs (.nil u))
    have hready' := hready.tail hs
    refine ih hlinked' hready' ?_
    obtain ⟨m, -, hm⟩ := hready'.head.exists_queuedWith hlinked'
    rcases queuedWith_of_scheduler hs hm with hm' | ⟨hnot, -⟩
    · rwa [h.unique hm']
    · exact absurd hready.head hnot

/-- Starting from `s`, thread `a` is queued by a command, and later thread `b`; both then stay
ready up to the state `t`. -/
def QueuedInOrder (s : SchedulerState) (a b : GuestThreadId) (t : SchedulerState) : Prop :=
  ∃ c₁ r₁ s₁ es₁ s₂ c₂ r₂ s₃ es₂,
    (¬ReadyIn s a ∧ scheduler s c₁ = some (r₁, s₁)) ∧ Machine.Run scheduler s₁ es₁ s₂ ∧
    (¬ReadyIn s₂ b ∧ scheduler s₂ c₂ = some (r₂, s₃)) ∧ Machine.Run scheduler s₃ es₂ t ∧
    Machine.Throughout scheduler (ReadyIn · a) s₁ (es₁ ++ (c₂, r₂) :: es₂) ∧
    Machine.Throughout scheduler (ReadyIn · b) s₃ es₂

/-- Sequence numbers follow the order of queueing. -/
theorem QueuedInOrder.queuedWith {a b : GuestThreadId} (hlinked : Linked s)
    (h : QueuedInOrder s a b t) : ∃ n m, n < m ∧ QueuedWith t a n ∧ QueuedWith t b m := by
  obtain ⟨c₁, r₁, s₁, es₁, s₂, c₂, r₂, s₃, es₂, ⟨-, h₁⟩, hrun₁, ⟨hb, h₂⟩, hrun₂, ha', hb'⟩ := h
  have hlinked₁ := hlinked.of_run (.cons h₁ (.nil s₁))
  have hlinked₂ := hlinked₁.of_run hrun₁
  have hlinked₃ := hlinked₂.of_run (.cons h₂ (.nil s₃))
  have ha₂ := ha'.of_append hrun₁
  obtain ⟨n, hn, hqa⟩ := ha₂.head.exists_queuedWith hlinked₂
  have hqa' : QueuedWith t a n := hqa.of_run hlinked₂ (.cons h₂ hrun₂) ha₂
  obtain ⟨m, -, hqb⟩ := hb'.head.exists_queuedWith hlinked₃
  have hm : m = s₂.nextSequence := by
    rcases queuedWith_of_scheduler h₂ hqb with ⟨th, -, hr, -, -⟩ | ⟨-, hm⟩
    · exact absurd ⟨th, hr⟩ hb
    · exact hm
  exact ⟨n, m, hm ▸ hn, hqa', hqb.of_run hlinked₃ hrun₂ hb'⟩

end

/-! ## The policy -/

/-- The lease is recorded at both of its ends. -/
def Holds (t : SchedulerState) (l : Lease) : Prop :=
  t.threads[l.thread]?.bind ScheduledThread.activeLease = some l ∧
    t.leaseForVcpu l.vcpu = some l

/-- `select v` leases `v` to the first ready thread that may run there, if there is one. -/
def SelectsFirst (s : SchedulerState) (v : VirtualCpuId) (d : SchedulerDecision)
    (t : SchedulerState) : Prop :=
  ∃ o, d = .selected o ∧ (o = none ↔ ∀ id th, IsReady s id th → ¬MayRunOn v th) ∧
    ∀ l, o = some l → Holds t l ∧ l.vcpu = v ∧ ∃ th, IsFirst s (MayRunOn v) l.thread th

/-- `select_next` leases the first ready thread that may run anywhere, if there is one, and puts
it where the placement rule says. -/
def SelectsNextFirst (s : SchedulerState) (d : SchedulerDecision) (t : SchedulerState) : Prop :=
  ∃ o, d = .selected o ∧ (o = none ↔ ∀ id th, IsReady s id th → ¬MayRun s th) ∧
    ∀ l, o = some l → Holds t l ∧
      ∃ th, IsFirst s (MayRun s) l.thread th ∧ PlacedOn s th l.vcpu

/-- While `a` and `b` have the same effective priority and affinity, no command leases `b`. -/
def LeasedInOrder (t : SchedulerState) (a b : GuestThreadId) : Prop :=
  ∀ tha thb : ScheduledThread, t.threads[a]? = some tha → t.threads[b]? = some thb →
    tha.config.effectivePriority = thb.config.effectivePriority →
    tha.config.affinity = thb.config.affinity →
    ∀ c l u, scheduler t c = some (.ok (.selected (some l)), u) → l.thread ≠ b

section

variable {s t : SchedulerState}

theorem SelectStep.holds {v : VirtualCpuId} {l : Lease}
    (hs : SelectStep s v (.selected (some l)) t) : Holds t l := by
  cases hs with
  | grant => simp [Holds, grantLease, newLease, leaseForVcpu]

variable {d : SchedulerDecision}

theorem selectsFirst_of_step (h : Linked s) {v : VirtualCpuId} (hs : Step s (.select v) d t) :
    SelectsFirst s v d t := by
  cases hs with
  | select hsel =>
    have hnone := hsel.none_iff h
    cases hsel with
    | nothing hidle hkey =>
      exact ⟨none, rfl, ⟨fun _ ↦ hnone.mp rfl, fun _ ↦ rfl⟩, nofun⟩
    | grant hidle hkey hthread hlegal =>
      have hsel := SelectStep.grant hidle hkey hthread hlegal
      obtain ⟨hv, th, hfirst⟩ := hsel.isFirst h
      refine ⟨_, rfl, ⟨fun ho ↦ (nomatch ho), fun hno ↦ nomatch hnone.mpr hno⟩, ?_⟩
      rintro l ⟨⟩
      exact ⟨hsel.holds, hv, th, hfirst⟩

theorem selectsNextFirst_of_step (h : Linked s) (hs : Step s .selectNext d t) :
    SelectsNextFirst s d t := by
  have hnone : ∀ o, d = .selected o → o = none → ∀ id th, IsReady s id th → ¬MayRun s th := by
    rintro _ rfl rfl id th hr
    exact not_mayRun_of_selectNext h hs hr
  cases hs with
  | selectNextNone hkey =>
    exact ⟨none, rfl, ⟨fun _ ↦ hnone none rfl rfl, fun _ ↦ rfl⟩, nofun⟩
  | selectNext hkey hthread hvcpu hsel =>
    cases hsel with
    | nothing hidle hempty =>
      exact ⟨none, rfl, ⟨fun _ ↦ hnone none rfl rfl, fun _ ↦ rfl⟩, nofun⟩
    | grant hidle hkey' hthread' hlegal =>
      have hsel := SelectStep.grant hidle hkey' hthread' hlegal
      obtain ⟨hfirst, hplaced⟩ := isFirst_of_selectNext h hkey hthread hvcpu hsel
      refine ⟨_, rfl, ⟨fun ho ↦ (nomatch ho), fun hno ↦ absurd hfirst.2.1 (hno _ _ hfirst.1)⟩, ?_⟩
      rintro l ⟨⟩
      exact ⟨hsel.holds, _, hfirst, hplaced⟩

/-- A command that leases a thread leases the first one of a class of threads that depends on
affinities only. -/
theorem isFirst_of_selected (h : Linked s) {c : SchedulerCommand} {l : Lease}
    (hs : Step s c (.selected (some l)) t) :
    ∃ th p, IsFirst s p l.thread th ∧
      ∀ th' : ScheduledThread, th'.config.affinity = th.config.affinity → p th' := by
  cases hs with
  | select hsel =>
    obtain ⟨-, th, hfirst⟩ := hsel.isFirst h
    refine ⟨th, _, hfirst, fun th' haff ↦ ?_⟩
    rw [MayRunOn, haff]
    exact hfirst.2.1
  | selectNext hkey hthread hvcpu hsel =>
    obtain ⟨hfirst, -⟩ := isFirst_of_selectNext h hkey hthread hvcpu hsel
    refine ⟨_, _, hfirst, fun th' haff ↦ ?_⟩
    rw [MayRun, haff]
    exact hfirst.2.1

theorem leasedInOrder_of_queuedInOrder (h : Linked s) {a b : GuestThreadId}
    (hq : QueuedInOrder s a b t) (ht : Linked t) : LeasedInOrder t a b := by
  rintro tha thb hgeta hgetb heff haff c l u hs rfl
  obtain ⟨n, m, hnm, ⟨tha', ka, hra, hka, rfl⟩, ⟨thb', kb, hrb, hkb, rfl⟩⟩ := hq.queuedWith h
  obtain rfl : tha = tha' := Option.some.inj (hgeta.symm.trans hra.1)
  obtain rfl : thb = thb' := Option.some.inj (hgetb.symm.trans hrb.1)
  rcases scheduler_step hs with ⟨d, hd, hstep⟩ | ⟨e, he, -⟩
  · cases hd
    obtain ⟨th, p, ⟨hr, hp, r, hrank, hleast⟩, hclass⟩ := isFirst_of_selected ht hstep
    obtain rfl : thb = th := Option.some.inj (hgetb.symm.trans hr.1)
    have hne : a ≠ l.thread := by
      rintro rfl
      obtain rfl : tha = thb := Option.some.inj (hgeta.symm.trans hgetb)
      rw [hka] at hkb
      cases hkb
      exact lt_irrefl _ hnm
    obtain ⟨r', hrank', hlt⟩ := hleast a tha hra (hclass tha haff) hne
    obtain rfl := hrank.unique ⟨kb, hkb, rfl⟩
    obtain rfl := hrank'.unique ⟨ka, hka, rfl⟩
    rw [heff, Prod.Lex.toLex_lt_toLex] at hlt
    rcases hlt with hlt | ⟨-, hlt⟩
    · exact lt_irrefl _ hlt
    · exact absurd hlt hnm.not_gt
  · cases he

end

/-- **Selection policy.** In every reachable state, `select` and `select_next` lease the first
thread that is eligible, `select_next` places it by the placement rule, and threads that are
queued one after the other and end up alike are leased in that order. -/
theorem selection_policy {profile : MachineSchedulerProfile} {s : SchedulerState}
    (h : Machine.Reachable scheduler (SchedulerState.new profile) s) :
    (∀ v d t, apply (.select v) s = .ok d t → SelectsFirst s v d t) ∧
    (∀ d t, apply .selectNext s = .ok d t → SelectsNextFirst s d t) ∧
    ∀ a b t, QueuedInOrder s a b t → LeasedInOrder t a b := by
  have hlinked := linked_of_reachable h
  refine ⟨fun v d t ht ↦ selectsFirst_of_step hlinked (Method.ok_of_wp (apply_spec s _) ht),
    fun d t ht ↦ selectsNextFirst_of_step hlinked (Method.ok_of_wp (apply_spec s _) ht),
    fun a b t hq ↦ leasedInOrder_of_queuedInOrder hlinked hq ?_⟩
  obtain ⟨c₁, r₁, s₁, es₁, s₂, c₂, r₂, s₃, es₂, ⟨-, h₁⟩, hrun₁, ⟨-, h₂⟩, hrun₂, -, -⟩ := hq
  exact hlinked.of_run (.cons h₁ (Machine.Run.append_iff.mpr ⟨s₂, hrun₁, .cons h₂ hrun₂⟩))

/-- Two threads alike, queued one after the other. -/
def rivals : List SchedulerCommand :=
  [.register ⟨1, 7, 10, 10, none, uniprocessor.allCores⟩,
    .register ⟨1, 8, 10, 10, none, uniprocessor.allCores⟩, .makeReady 7, .makeReady 8]

/-- The rivals: the first to be queued is leased. -/
theorem selection_policy_rivals :
    ∃ s, Machine.Reachable scheduler (SchedulerState.new uniprocessor) s ∧
      ∃ t, apply (.select 0) s = .ok (.selected (some ⟨1, 7, 0, 1⟩)) t ∧
        SelectsFirst s 0 (.selected (some ⟨1, 7, 0, 1⟩)) t := by
  have hrun : Machine.Reachable scheduler (SchedulerState.new uniprocessor) _ :=
    ⟨_, Machine.run_of_exec (show Machine.exec scheduler _ rivals = _ from rfl)⟩
  exact ⟨_, hrun, _, rfl, (selection_policy hrun).1 0 _ _ rfl⟩

end Nixe.Scheduler
