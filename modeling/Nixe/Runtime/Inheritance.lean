import Nixe.Collections.Relaxation
import Nixe.Runtime.Priority

/-!
# Priority inheritance

The rounds over the donations are a relaxation of the graph with an edge from each waiter to the
owner to whom it donates, so the effective priority of a thread is the least base priority among the
threads from which donations lead to it. The priorities are then assigned one by one, and the first
thread that needs another priority while it is leased stops the call halfway.
-/

namespace Nixe.Runtime

open Std Method Scheduler Relaxation RuntimeCoordinator Function ExtTreeMap List Option Machine

/-! ## Rounds -/

/-- The priority of a thread in the table. -/
def Priorities.value (priorities : Priorities) (thread : GuestThreadId) : Int :=
  priorities[thread]?.getD 0

/-- The donations between threads of the table, from the waiter to the owner. -/
def Priorities.edges (priorities : Priorities) (donations : List PriorityDonation) :
    List (GuestThreadId × GuestThreadId) :=
  (donations.filter fun donation ↦
    priorities.contains donation.waiter && priorities.contains donation.owner).map
      fun donation ↦ (donation.waiter, donation.owner)

section

variable {priorities priorities' : Priorities} {donations : List PriorityDonation}

theorem mem_edges_iff {u v : GuestThreadId} :
    (u, v) ∈ priorities.edges donations ↔
      ∃ donation ∈ donations, donation.waiter = u ∧ donation.owner = v ∧ u ∈ priorities ∧
        v ∈ priorities := by
  simp only [Priorities.edges, List.mem_map, List.mem_filter, Bool.and_eq_true,
    ← ExtTreeMap.mem_iff_contains, Prod.mk.injEq]
  constructor
  · rintro ⟨donation, ⟨hmem, hwaiter, howner⟩, rfl, rfl⟩
    exact ⟨donation, hmem, rfl, rfl, hwaiter, howner⟩
  · rintro ⟨donation, hmem, rfl, rfl, hwaiter, howner⟩
    exact ⟨donation, ⟨hmem, hwaiter, howner⟩, rfl, rfl⟩

theorem edges_congr (h : ∀ thread, thread ∈ priorities' ↔ thread ∈ priorities) :
    priorities'.edges donations = priorities.edges donations := by
  have hcontains (thread : GuestThreadId) :
      priorities'.contains thread = priorities.contains thread := by
    rw [Bool.eq_iff_iff, ← mem_iff_contains, ← mem_iff_contains]
    exact h thread
  simp only [Priorities.edges, hcontains]

/-- A donation of a waiter or to an owner that is not in the table changes nothing. -/
theorem donate_of_not_mem {b : Bool} {donation : PriorityDonation}
    (h : ¬(donation.waiter ∈ priorities ∧ donation.owner ∈ priorities)) :
    donate (priorities, b) donation = (priorities, b) := by
  rw [donate]
  cases hwaiter : priorities[donation.waiter]? with
  | none => rfl
  | some waiter =>
    cases howner : priorities[donation.owner]? with
    | none => rfl
    | some owner =>
      exact absurd ⟨mem_of_getElem?_eq_some hwaiter, mem_of_getElem?_eq_some howner⟩ h

/-- A donation between threads of the table relaxes its edge. -/
theorem value_donate {b : Bool} {donation : PriorityDonation}
    (hwaiter : donation.waiter ∈ priorities) (howner : donation.owner ∈ priorities) :
    (donate (priorities, b) donation).1.value =
      relaxEdge priorities.value (donation.waiter, donation.owner) := by
  obtain ⟨waiter, hwaiter⟩ := isSome_iff_exists.mp
    (mem_iff_isSome_getElem?.mp hwaiter)
  obtain ⟨owner, howner⟩ := isSome_iff_exists.mp
    (mem_iff_isSome_getElem?.mp howner)
  have hw : priorities.value donation.waiter = waiter := by rw [Priorities.value, hwaiter]; rfl
  have ho : priorities.value donation.owner = owner := by rw [Priorities.value, howner]; rfl
  simp only [donate, hwaiter, howner, relaxEdge, hw, ho]
  funext thread
  by_cases h : thread = donation.owner
  · subst h
    rw [update_self]
    split
    · rename_i hlt
      rw [min_eq_right hlt.le, Priorities.value, ExtTreeMap.getElem?_insert_self]
      rfl
    · rename_i hle
      rw [min_eq_left (Int.not_lt.mp hle), ho]
  · rw [update_of_ne h]
    split
    · rw [Priorities.value, getElem?_insert_of_ne h, ← Priorities.value]
    · rfl

theorem mem_donate (b : Bool) (donation : PriorityDonation) (thread : GuestThreadId) :
    thread ∈ (donate (priorities, b) donation).1 ↔ thread ∈ priorities := by
  rw [donate]
  split
  · rfl
  · split
    · rfl
    · rename_i howner
      split
      · rw [mem_map_insert_iff]
        refine ⟨?_, .inr⟩
        rintro (rfl | h)
        · exact mem_of_getElem?_eq_some howner
        · exact h
      · rfl

/-- A donation that changes nothing does not set the flag, and does not reset it either. -/
theorem donate_flag (priorities : Priorities) (b : Bool) (donation : PriorityDonation) :
    donate (priorities, b) donation = (priorities, b) ∨
      (donate (priorities, b) donation).2 = true := by
  rw [donate]
  split
  · exact .inl rfl
  · split
    · exact .inl rfl
    · split
      · exact .inr rfl
      · exact .inl rfl

theorem foldl_donate_flag (b : Bool) :
    donations.foldl donate (priorities, b) = (priorities, b) ∨
      (donations.foldl donate (priorities, b)).2 = true := by
  induction donations generalizing priorities b with
  | nil => exact .inl rfl
  | cons donation donations ih =>
    rw [foldl_cons]
    rcases donate_flag priorities b donation with h | h
    · rw [h]
      exact ih b
    · obtain ⟨next, flag, hnext⟩ : ∃ next flag, donate (priorities, b) donation = (next, flag) :=
        ⟨_, _, rfl⟩
      rw [hnext] at h ⊢
      obtain rfl : flag = true := h
      rcases @ih next true with h | h
      · exact .inr (by rw [h])
      · exact .inr h

/-- A round relaxes the edges between the threads of the table. -/
theorem foldl_donate (b : Bool) :
    (∀ thread, thread ∈ (donations.foldl donate (priorities, b)).1 ↔ thread ∈ priorities) ∧
      (donations.foldl donate (priorities, b)).1.value =
        relaxRound (priorities.edges donations) priorities.value := by
  induction donations generalizing priorities b with
  | nil => exact ⟨fun _ ↦ Iff.rfl, rfl⟩
  | cons donation donations ih =>
    rw [foldl_cons]
    obtain ⟨next, flag, hnext⟩ : ∃ next flag, donate (priorities, b) donation = (next, flag) :=
      ⟨_, _, rfl⟩
    have hkeys (thread : GuestThreadId) : thread ∈ next ↔ thread ∈ priorities := by
      rw [← @mem_donate priorities b donation thread, hnext]
    rw [hnext]
    obtain ⟨hmem, hvalue⟩ := @ih next flag
    refine ⟨fun thread ↦ (hmem thread).trans (hkeys thread), ?_⟩
    rw [hvalue, edges_congr hkeys, Priorities.edges, Priorities.edges, filter_cons]
    by_cases h : donation.waiter ∈ priorities ∧ donation.owner ∈ priorities
    · have hvalue := value_donate (b := b) h.1 h.2
      rw [hnext] at hvalue
      rw [if_pos (by simpa [← mem_iff_contains] using h), map_cons, hvalue]
      rfl
    · have hsame := donate_of_not_mem (b := b) h
      rw [hnext] at hsame
      rw [if_neg (by simpa [← mem_iff_contains] using h), (Prod.mk.inj hsame).1]

end

section

variable {priorities : Priorities} {donations : List PriorityDonation}

theorem donationRound_eq :
    (∀ thread, thread ∈ (donationRound donations priorities).1 ↔ thread ∈ priorities) ∧
      (donationRound donations priorities).1.value =
        relaxRound (priorities.edges donations) priorities.value := foldl_donate false

theorem inheritPriorities_eq (rounds : Nat) :
    (∀ thread, thread ∈ inheritPriorities donations rounds priorities ↔ thread ∈ priorities) ∧
      (inheritPriorities donations rounds priorities).value =
        (relaxRound (priorities.edges donations))^[rounds] priorities.value := by
  induction rounds generalizing priorities with
  | zero => exact ⟨fun _ ↦ Iff.rfl, rfl⟩
  | succ rounds ih =>
    obtain ⟨hmem, hvalue⟩ := @donationRound_eq priorities donations
    rw [inheritPriorities]
    split
    · obtain ⟨hmem', hvalue'⟩ := @ih (donationRound donations priorities).1
      refine ⟨fun thread ↦ (hmem' thread).trans (hmem thread), ?_⟩
      rw [hvalue', edges_congr hmem, iterate_succ_apply, hvalue]
    · -- Without a change the rounds that are left out change nothing either.
      rename_i hflag
      have hsame : donationRound donations priorities = (priorities, false) :=
        (foldl_donate_flag false).resolve_right hflag
      have hfixed : relaxRound (priorities.edges donations) priorities.value =
        priorities.value := by
        rw [← hvalue, hsame]
      rw [hsame]
      exact ⟨fun _ ↦ Iff.rfl, (iterate_fixed hfixed (rounds + 1)).symm⟩

theorem reaches_mem {u v : GuestThreadId} (h : Reaches (priorities.edges donations) u v)
    (hv : v ∈ priorities) : u ∈ priorities := by
  rcases h.cases_head with rfl | ⟨w, hedge, -⟩
  · exact hv
  · obtain ⟨-, -, -, -, hu, -⟩ := mem_edges_iff.mp hedge
    exact hu

/-- **Inheritance is the transitive minimum.** -/
theorem inheritPriorities_isLeast (thread : GuestThreadId) :
    IsLeast {a | ∃ u, Reaches (priorities.edges donations) u thread ∧ priorities.value u = a}
      ((inheritPriorities donations priorities.size priorities).value thread) := by
  have hbetween := Between.refl (priorities.edges donations) priorities.value
  have hvertices : ∀ e ∈ priorities.edges donations,
      e.1 ∈ priorities.keys.toFinset ∧ e.2 ∈ priorities.keys.toFinset := by
    rintro ⟨u, v⟩ he
    obtain ⟨-, -, -, -, hu, hv⟩ := mem_edges_iff.mp he
    exact ⟨mem_toFinset.mpr (mem_keys.mpr hu),
      mem_toFinset.mpr (mem_keys.mpr hv)⟩
  have hopen : ∀ v, ¬Settled (priorities.edges donations) priorities.value priorities.value v →
      v ∈ priorities.keys.toFinset := by
    intro v hv
    by_contra hmem
    refine hv fun u hu ↦ ?_
    rcases hu.cases_tail with rfl | ⟨w, -, hedge⟩
    · exact le_rfl
    · exact absurd (hvertices _ hedge).2 hmem
  have hcard : priorities.keys.toFinset.card ≤ priorities.size :=
    (toFinset_card_le _).trans_eq length_keys
  have hiterate : Between (priorities.edges donations) priorities.value
      ((relaxRound (priorities.edges donations))^[priorities.size] priorities.value) := by
    generalize priorities.size = n
    induction n with
    | zero => exact hbetween
    | succ n ih =>
      rw [iterate_succ_apply']
      exact ih.relaxRound
  rw [(inheritPriorities_eq priorities.size).2]
  exact (settled_of_rounds hvertices hbetween hopen hcard thread).isLeast hiterate

end

/-! ## The state of the coordinator -/

namespace RuntimeCoordinator

variable (c : RuntimeCoordinator) (thread : GuestThreadId)

/-- The base and the effective priority of a thread. -/
def priorityView : Option (Int × Int) :=
  c.scheduler.threads[thread]?.map fun view ↦
    (view.config.basePriority, view.config.effectivePriority)

def basePriority : Option Int :=
  (c.priorityView thread).map Prod.fst

def effectivePriority : Option Int :=
  (c.priorityView thread).map Prod.snd

def isLeased : Bool :=
  c.scheduler.threads[thread]?.any fun view ↦ view.activeLease.isSome

/-- `u` donates its priority to `v`, and both are threads of a process. -/
def Donates (u v : GuestThreadId) : Prop :=
  ∃ donation ∈ c.priorityDonations, donation.waiter = u ∧ donation.owner = v ∧
    u ∈ c.threadList ∧ v ∈ c.threadList

/-- The base priorities of the threads from which donations lead to `thread`. -/
def inheritable : Set Int :=
  {a | ∃ u, Relation.ReflTransGen c.Donates u thread ∧ c.basePriority u = some a}

/-- The priorities that a recomputation assigns, in order. -/
def targets : List (GuestThreadId × Int) :=
  match basePriorities c.scheduler c.threadList ∅ with
  | .ok priorities =>
    (inheritPriorities c.priorityDonations.toList priorities.size priorities).toList
  | .error _ => []

/-- The thread has to get another effective priority, and is leased. -/
def blocks (entry : GuestThreadId × Int) : Bool :=
  c.effectivePriority entry.1 ≠ some entry.2 && c.isLeased entry.1

/-- The priorities that a recomputation assigns before the first leased thread that has to get
another one. -/
def assignedBefore : List (GuestThreadId × Int) :=
  c.targets.takeWhile fun entry ↦ !c.blocks entry

/-- What holds of a coordinator between its calls. -/
structure Valid (c : RuntimeCoordinator) : Prop where
  linked : Linked c.scheduler
  /-- The scheduler knows the threads of the processes. -/
  registered : ∀ thread ∈ c.threadList, thread ∈ c.scheduler.threads

end RuntimeCoordinator

/-! ## Targets -/

theorem basePriorities_eq_ok {s : SchedulerState} {threads : List GuestThreadId}
    (h : ∀ thread ∈ threads, thread ∈ s.threads) (priorities : Priorities) :
    ∃ result, basePriorities s threads priorities = .ok result ∧ ∀ thread : GuestThreadId,
      result[thread]? = if thread ∈ threads then
        s.threads[thread]?.map fun view ↦ view.config.basePriority else priorities[thread]? := by
  induction threads generalizing priorities with
  | nil => exact ⟨priorities, rfl, fun thread ↦ by rw [if_neg not_mem_nil]⟩
  | cons head threads ih =>
    obtain ⟨view, hview⟩ := isSome_iff_exists.mp
      (mem_iff_isSome_getElem?.mp (h head mem_cons_self))
    obtain ⟨result, hresult, hlookup⟩ := ih (fun thread ht ↦ h thread (mem_cons_of_mem _ ht))
      (priorities.insert head view.config.basePriority)
    refine ⟨result, ?_, fun thread ↦ ?_⟩
    · rw [basePriorities, hview]
      exact hresult
    · rw [hlookup thread]
      by_cases htail : thread ∈ threads
      · rw [if_pos htail, if_pos (mem_cons_of_mem _ htail)]
      · rw [if_neg htail]
        by_cases hhead : thread = head
        · subst hhead
          rw [if_pos mem_cons_self, ExtTreeMap.getElem?_insert_self, hview, map_some]
        · rw [if_neg (by simp [hhead, htail]), getElem?_insert_of_ne hhead]

section

variable {c : RuntimeCoordinator}

/-- The table that a recomputation starts from. -/
theorem exists_basePriorities (hc : c.Valid) :
    ∃ priorities, basePriorities c.scheduler c.threadList ∅ = .ok priorities ∧
      (∀ thread, thread ∈ priorities ↔ thread ∈ c.threadList) ∧
      ∀ thread ∈ c.threadList, priorities[thread]? = c.basePriority thread := by
  obtain ⟨priorities, hok, hlookup⟩ := basePriorities_eq_ok hc.registered ∅
  have hmem {thread : GuestThreadId} (h : thread ∈ c.threadList) :
      priorities[thread]? = c.basePriority thread := by
    rw [hlookup, if_pos h, basePriority, priorityView,
      Option.map_map]
    rfl
  refine ⟨priorities, hok, fun thread ↦ ⟨fun h ↦ ?_, fun h ↦ ?_⟩, fun thread ↦ hmem⟩
  · by_contra hnot
    rw [mem_iff_isSome_getElem?, hlookup, if_neg hnot] at h
    exact nomatch h
  · have hknown := mem_iff_isSome_getElem?.mp (hc.registered thread h)
    rw [mem_iff_isSome_getElem?, hlookup, if_pos h, isSome_map]
    exact hknown

theorem exists_basePriority (hc : c.Valid) {thread : GuestThreadId} (h : thread ∈ c.threadList) :
    ∃ priority, c.basePriority thread = some priority := by
  obtain ⟨view, hview⟩ := isSome_iff_exists.mp
    (mem_iff_isSome_getElem?.mp (hc.registered thread h))
  exact ⟨view.config.basePriority, by
    rw [basePriority, priorityView, hview]; rfl⟩

/-- **Targets are transitive minima.** Every thread of a process has one target. -/
theorem targets_spec (hc : c.Valid) :
    (c.targets.map Prod.fst).Nodup ∧
      (∀ entry ∈ c.targets, entry.1 ∈ c.threadList ∧ IsLeast (c.inheritable entry.1) entry.2) ∧
      ∀ thread ∈ c.threadList, ∃ priority, (thread, priority) ∈ c.targets := by
  obtain ⟨priorities, hok, hmem, hbase⟩ := exists_basePriorities hc
  have htargets : c.targets =
      (inheritPriorities c.priorityDonations.toList priorities.size priorities).toList := by
    rw [targets, hok]
  obtain ⟨hkeys, -⟩ := @inheritPriorities_eq priorities c.priorityDonations.toList priorities.size
  have hedges : (fun u v ↦ (u, v) ∈ priorities.edges c.priorityDonations.toList) = c.Donates := by
    funext u v
    simp only [mem_edges_iff, RuntimeCoordinator.Donates, ExtTreeSet.mem_toList, hmem]
  rw [htargets]
  refine ⟨?_, fun entry hentry ↦ ?_, fun thread hthread ↦ ?_⟩
  · rw [map_fst_toList_eq_keys]
    exact nodup_keys
  · have hlookup := mem_toList_iff_getElem?_eq_some.mp hentry
    have hthread := (hmem entry.1).mp ((hkeys entry.1).mp (mem_of_getElem?_eq_some hlookup))
    refine ⟨hthread, ?_⟩
    have hleast := @inheritPriorities_isLeast priorities c.priorityDonations.toList entry.1
    rw [Priorities.value, hlookup, getD_some] at hleast
    convert hleast using 1
    ext a
    rw [inheritable, Set.mem_ofPred_eq, Set.mem_ofPred_eq, ← hedges]
    refine exists_congr fun u ↦ and_congr_right fun hu ↦ ?_
    have hu := (hmem u).mp (reaches_mem hu ((hmem entry.1).mpr hthread))
    obtain ⟨priority, hpriority⟩ := exists_basePriority hc hu
    rw [Priorities.value, hbase u hu, hpriority, getD_some, Option.some.injEq]
  · obtain ⟨priority, hpriority⟩ := isSome_iff_exists.mp
      (mem_iff_isSome_getElem?.mp ((hkeys thread).mpr ((hmem thread).mpr hthread)))
    exact ⟨priority, mem_toList_iff_getElem?_eq_some.mpr hpriority⟩

/-- A target is a priority that the machine has. -/
theorem contains_of_mem_targets (hc : c.Valid) {entry : GuestThreadId × Int}
    (h : entry ∈ c.targets) : c.scheduler.profile.priorities.contains entry.2 = true := by
  obtain ⟨-, ⟨u, -, hbase⟩, -⟩ := (targets_spec hc).2.1 entry h
  rw [basePriority, priorityView, Option.map_map,
    Option.map_eq_some_iff] at hbase
  obtain ⟨view, hview, hpriority⟩ := hbase
  rw [← hpriority]
  exact (hc.linked.thread u view hview).base_mem

end

/-! ## Assignments -/

namespace RuntimeCoordinator

/-- The priorities of a thread after the assignments of a list. -/
def viewAfter (c : RuntimeCoordinator) (assigned : List (GuestThreadId × Int))
    (thread : GuestThreadId) : Option (Int × Int) :=
  (c.priorityView thread).map fun view ↦ (view.1, (assigned.lookup thread).getD view.2)

/-- `d` is `c` after the assignments of a list. -/
structure Assigned (c : RuntimeCoordinator) (assigned : List (GuestThreadId × Int))
    (d : RuntimeCoordinator) : Prop where
  linked : Linked d.scheduler
  profile : d.scheduler.profile = c.scheduler.profile
  processes : d.processes = c.processes
  donations : d.priorityDonations = c.priorityDonations
  view : ∀ thread, d.priorityView thread = c.viewAfter assigned thread
  leased : ∀ thread, d.isLeased thread = c.isLeased thread

variable {c : RuntimeCoordinator}

theorem Assigned.nil (hc : Linked c.scheduler) : Assigned c [] c where
  linked := hc
  profile := rfl
  processes := rfl
  donations := rfl
  view thread := by
    rw [viewAfter]
    cases c.priorityView thread <;> rfl
  leased _ := rfl

theorem viewAfter_of_lookup_eq_none {thread : GuestThreadId}
    {assigned : List (GuestThreadId × Int)} (h : assigned.lookup thread = none) :
    c.viewAfter assigned thread = c.priorityView thread := by
  rw [viewAfter, h]
  cases c.priorityView thread <;> rfl

theorem viewAfter_singleton_of_ne {thread id : GuestThreadId} {priority : Int} (h : thread ≠ id) :
    c.viewAfter [(id, priority)] thread = c.priorityView thread := by
  refine viewAfter_of_lookup_eq_none ?_
  rw [lookup_cons, beq_eq_false_iff_ne.mpr h, lookup_nil]

theorem Assigned.cons {d e : RuntimeCoordinator} {entry : GuestThreadId × Int}
    {assigned : List (GuestThreadId × Int)} (hd : Assigned c [entry] d)
    (he : Assigned d assigned e) (hfresh : entry.1 ∉ assigned.map Prod.fst) :
    Assigned c (entry :: assigned) e where
  linked := he.linked
  profile := he.profile.trans hd.profile
  processes := he.processes.trans hd.processes
  donations := he.donations.trans hd.donations
  view thread := by
    rw [he.view, viewAfter, hd.view, viewAfter, viewAfter, Option.map_map]
    refine congrArg (Option.map · _) (funext fun view ↦ ?_)
    rw [Function.comp_apply, List.lookup_cons, List.lookup_cons, List.lookup_nil]
    by_cases h : thread = entry.1
    · subst h
      have hnone : assigned.lookup entry.1 = none := by
        refine lookup_eq_none_iff.mpr fun other hother ↦ ?_
        rw [bne_iff_ne]
        rintro heq
        exact hfresh (mem_map.mpr ⟨other, hother, heq.symm⟩)
      rw [hnone, beq_self_eq_true]
      rfl
    · rw [beq_eq_false_iff_ne.mpr h]
      rfl
  leased thread := (he.leased thread).trans (hd.leased thread)

end RuntimeCoordinator

section

variable {c : RuntimeCoordinator}

open RuntimeCoordinator SchedulerState

/-- A thread whose priority is exchanged, in the coordinator. -/
theorem assigned_requeue (hc : Linked c.scheduler) {id : GuestThreadId} {thread : ScheduledThread}
    (hthread : c.scheduler.threads[id]? = some thread) {priority : Int}
    (hpriority : c.scheduler.profile.priorities.contains priority = true)
    (hlease : thread.activeLease = none) :
    Assigned c [(id, priority)]
      { c with
        scheduler := c.scheduler.requeue id thread
          ({ thread.config with effectivePriority := priority }) priority } where
  linked := hc.step (.setEffectivePriority hpriority hthread hlease)
  profile := by
    rw [requeue]
    cases thread.readyKey <;> rfl
  processes := rfl
  donations := rfl
  view k := by
    by_cases h : k = id
    · subst h
      simp [viewAfter, priorityView, getElem?_requeue, hthread]
    · rw [viewAfter_singleton_of_ne h, priorityView, getElem?_requeue, if_neg h, priorityView]
  leased k := by
    simp only [isLeased, getElem?_requeue]
    by_cases h : k = id
    · subst h
      simp [hthread]
    · simp [h]

theorem assignPriority_spec (hc : Linked c.scheduler) {entry : GuestThreadId × Int}
    (hknown : entry.1 ∈ c.scheduler.threads)
    (hpriority : c.scheduler.profile.priorities.contains entry.2 = true) :
    wp (assignPriority entry)
      ⟨fun _ d ↦ c.blocks entry = false ∧ Assigned c [entry] d,
        fun _ d ↦ d = c ∧ c.blocks entry = true, False⟩ c := by
  obtain ⟨id, priority⟩ := entry
  obtain ⟨thread, hthread⟩ := isSome_iff_exists.mp
    (mem_iff_isSome_getElem?.mp hknown)
  have heffective : c.effectivePriority id = some thread.config.effectivePriority := by
    rw [effectivePriority, priorityView, hthread]
    rfl
  have hleased : c.isLeased id = thread.activeLease.isSome := by
    rw [isLeased, hthread]
    rfl
  have hblocks : c.blocks (id, priority) =
      (decide (thread.config.effectivePriority ≠ priority) && thread.activeLease.isSome) := by
    simp [blocks, heffective, hleased]
  rw [hblocks]
  simp only [assignPriority, schedule, apply, setEffectivePriority, wp_rules, hthread, wp_ite,
    wp_focus, ne_eq, forall_some]
  refine ⟨fun hne ↦ ?_, fun heq ↦ ⟨?_, ?_⟩⟩
  · refine wp_mono (reprioritise_spec id priority _) ?_ ?_ hc.not_collides
    · rintro _ t ⟨-, -, thread', hthread', hlease, rfl⟩
      cases hthread.symm.trans hthread'
      refine ⟨?_, assigned_requeue hc hthread hpriority hlease⟩
      rw [hlease, isSome_none, Bool.and_false]
    · rintro e t ⟨rfl, hrefused⟩
      have hlease := hrefused.resolve_left (by rw [hpriority]; simp) thread hthread
      exact ⟨rfl, by rw [hlease, decide_eq_true hne]; rfl⟩
  · rw [decide_eq_false heq, Bool.false_and]
  · -- The priority is the right one already.
    refine ⟨hc, rfl, rfl, rfl, fun k ↦ ?_, fun _ ↦ rfl⟩
    by_cases h : k = id
    · subst h
      simp [viewAfter, priorityView, hthread, not_not.mp heq]
    · rw [viewAfter_singleton_of_ne h]

theorem takeWhile_congr_of_mem {α : Type} {p q : α → Bool} {l : List α}
    (h : ∀ a ∈ l, p a = q a) : l.takeWhile p = l.takeWhile q := by
  induction l with
  | nil => rfl
  | cons a l ih =>
    obtain ⟨ha, hl⟩ := forall_mem_cons.mp h
    rw [takeWhile_cons, takeWhile_cons, ha, ih hl]

/-- The assignments of a list, up to the first leased thread that needs another priority. -/
theorem assign_all_spec {targets : List (GuestThreadId × Int)} (hc : Linked c.scheduler)
    (hnodup : (targets.map Prod.fst).Nodup)
    (hknown : ∀ entry ∈ targets, entry.1 ∈ c.scheduler.threads)
    (hpriority : ∀ entry ∈ targets, c.scheduler.profile.priorities.contains entry.2 = true) :
    wp (forEach assignPriority targets)
      ⟨fun _ d ↦ (∀ entry ∈ targets, c.blocks entry = false) ∧ Assigned c targets d,
        fun _ d ↦ (∃ entry ∈ targets, c.blocks entry = true) ∧
          Assigned c (targets.takeWhile fun entry ↦ !c.blocks entry) d,
        False⟩ c := by
  induction targets generalizing c with
  | nil => exact ⟨by simp, .nil hc⟩
  | cons entry targets ih =>
    obtain ⟨hfresh, hnodup⟩ := nodup_cons.mp hnodup
    rw [forEach, wp_bind]
    refine wp_of_wp (assignPriority_spec hc (hknown entry mem_cons_self)
      (hpriority entry mem_cons_self)) ?_ ?_
    · rintro - d ⟨hfree, hd⟩
      -- The other threads are in `d` as they are in `c`.
      have hview : ∀ other ∈ targets, d.priorityView other.1 = c.priorityView other.1 := by
        intro other hother
        rw [hd.view]
        refine viewAfter_singleton_of_ne fun heq ↦ ?_
        exact hfresh (mem_map.mpr ⟨other, hother, heq⟩)
      have hblocks : ∀ other ∈ targets, d.blocks other = c.blocks other := by
        intro other hother
        rw [blocks, blocks, effectivePriority, effectivePriority, hview other hother, hd.leased]
      have hmem : ∀ other ∈ targets, other.1 ∈ d.scheduler.threads := by
        intro other hother
        have hbefore := mem_iff_isSome_getElem?.mp
          (hknown other (mem_cons_of_mem _ hother))
        have hsame := congrArg Option.isSome (hview other hother)
        rw [priorityView, priorityView, isSome_map, isSome_map] at hsame
        exact mem_iff_isSome_getElem?.mpr (hsame.trans hbefore)
      refine wp_of_wp (ih hd.linked hnodup hmem fun other hother ↦ ?_) ?_ ?_
      · rw [hd.profile]
        exact hpriority other (mem_cons_of_mem _ hother)
      · rintro - e ⟨hrest, he⟩
        refine ⟨forall_mem_cons.mpr ⟨hfree, fun other hother ↦ ?_⟩, hd.cons he hfresh⟩
        rw [← hblocks other hother]
        exact hrest other hother
      · rintro - e ⟨⟨blocked, hblocked, hblocks'⟩, he⟩
        have hwhile : (targets.takeWhile fun entry ↦ !d.blocks entry) =
            targets.takeWhile fun entry ↦ !c.blocks entry := by
          refine takeWhile_congr_of_mem fun other hother ↦ ?_
          rw [hblocks other hother]
        rw [hwhile] at he
        refine ⟨⟨blocked, mem_cons_of_mem _ hblocked, ?_⟩, ?_⟩
        · rw [← hblocks blocked hblocked]
          exact hblocks'
        · rw [takeWhile_cons_of_pos (by rw [hfree]; rfl)]
          refine hd.cons he fun h ↦ hfresh ?_
          exact (map_subset _ (takeWhile_subset _)) h
    · rintro - d ⟨rfl, hblocked⟩
      refine ⟨⟨entry, mem_cons_self, hblocked⟩, ?_⟩
      rw [takeWhile_cons_of_neg (by rw [hblocked]; simp)]
      exact .nil hc

end

/-! ## Recomputation -/

section

variable {c d : RuntimeCoordinator}

open RuntimeCoordinator

theorem recompute_spec (hc : c.Valid) :
    wp recomputeEffectivePriorities
      ⟨fun _ d ↦ (∀ entry ∈ c.targets, c.blocks entry = false) ∧ Assigned c c.targets d,
        fun _ d ↦ (∃ entry ∈ c.targets, c.blocks entry = true) ∧ Assigned c c.assignedBefore d,
        False⟩ c := by
  obtain ⟨priorities, hok, -⟩ := exists_basePriorities hc
  have htargets : c.targets =
      (inheritPriorities c.priorityDonations.toList priorities.size priorities).toList := by
    rw [targets, hok]
  obtain ⟨hnodup, hleast, -⟩ := targets_spec hc
  simp only [recomputeEffectivePriorities, wp_rules, id_eq, hok]
  refine ⟨?_, by simp⟩
  rintro _ ⟨⟩
  rw [← htargets]
  exact assign_all_spec hc.linked hnodup (fun entry h ↦ hc.registered _ (hleast entry h).1)
    fun entry ↦ contains_of_mem_targets hc

theorem lookup_of_mem {targets : List (GuestThreadId × Int)} {entry : GuestThreadId × Int}
    (hnodup : (targets.map Prod.fst).Nodup) (h : entry ∈ targets) :
    targets.lookup entry.1 = some entry.2 := by
  induction targets with
  | nil => exact nomatch h
  | cons head targets ih =>
    obtain ⟨hfresh, hnodup⟩ := nodup_cons.mp hnodup
    rw [lookup_cons]
    rcases mem_cons.mp h with rfl | h
    · rw [beq_self_eq_true]
    · have hne : entry.1 ≠ head.1 := by
        rintro heq
        exact hfresh (mem_map.mpr ⟨entry, h, heq⟩)
      rw [beq_eq_false_iff_ne.mpr hne]
      exact ih hnodup h

variable {assigned : List (GuestThreadId × Int)}

/-- Assignments change effective priorities only. -/
theorem RuntimeCoordinator.Assigned.basePriority (h : Assigned c assigned d)
    (thread : GuestThreadId) : d.basePriority thread = c.basePriority thread := by
  rw [RuntimeCoordinator.basePriority, h.view, viewAfter, Option.map_map]
  rfl

theorem RuntimeCoordinator.Assigned.threadList (h : Assigned c assigned d) :
    d.threadList = c.threadList := by
  rw [RuntimeCoordinator.threadList, h.processes, RuntimeCoordinator.threadList]

theorem RuntimeCoordinator.Assigned.valid (h : Assigned c assigned d) (hc : c.Valid) : d.Valid where
  linked := h.linked
  registered thread hthread := by
    rw [h.threadList] at hthread
    have hbefore := mem_iff_isSome_getElem?.mp (hc.registered thread hthread)
    have hsame := congrArg Option.isSome (h.view thread)
    rw [viewAfter, priorityView, priorityView, isSome_map, isSome_map,
      isSome_map] at hsame
    exact mem_iff_isSome_getElem?.mpr (hsame.trans hbefore)

/-- What a thread can inherit depends on the threads, the donations and the base priorities. -/
theorem inheritable_congr (hthreads : d.threadList = c.threadList)
    (hdonations : d.priorityDonations = c.priorityDonations)
    (hbase : ∀ thread, d.basePriority thread = c.basePriority thread) (thread : GuestThreadId) :
    d.inheritable thread = c.inheritable thread := by
  have hdonates : d.Donates = c.Donates := by
    funext u v
    rw [Donates, Donates, hthreads, hdonations]
  simp only [inheritable, hdonates, hbase]

/-- After a recomputation the effective priorities are the transitive minima. -/
theorem effectivePriority_of_assigned (hc : c.Valid) (h : Assigned c c.targets d)
    {thread : GuestThreadId} (hthread : thread ∈ c.threadList) :
    ∃ priority, d.effectivePriority thread = some priority ∧
      IsLeast (c.inheritable thread) priority := by
  obtain ⟨hnodup, hleast, htarget⟩ := targets_spec hc
  obtain ⟨priority, hmem⟩ := htarget thread hthread
  obtain ⟨base, hbase⟩ := exists_basePriority hc hthread
  rw [basePriority, map_eq_some_iff] at hbase
  obtain ⟨view, hview, -⟩ := hbase
  refine ⟨priority, ?_, (hleast _ hmem).2⟩
  rw [effectivePriority, h.view, viewAfter, hview, lookup_of_mem hnodup hmem]
  rfl

/-- A thread of no process keeps its priorities. -/
theorem priorityView_of_assigned (hc : c.Valid) (h : Assigned c c.targets d)
    {thread : GuestThreadId} (hthread : thread ∉ c.threadList) :
    d.priorityView thread = c.priorityView thread := by
  rw [h.view]
  refine viewAfter_of_lookup_eq_none (lookup_eq_none_iff.mpr fun entry hentry ↦ ?_)
  rw [bne_iff_ne]
  rintro rfl
  exact hthread ((targets_spec hc).2.1 entry hentry).1

/-- The outcome of a recomputation depends on the threads, the donations and the base priorities,
and not on the effective priorities that it finds. -/
theorem priorityView_eq_of_assigned {c' d' : RuntimeCoordinator} (hc : c.Valid) (hc' : c'.Valid)
    (h : Assigned c c.targets d) (h' : Assigned c' c'.targets d')
    (hthreads : c'.threadList = c.threadList)
    (hdonations : c'.priorityDonations = c.priorityDonations)
    (hbase : ∀ thread, c'.basePriority thread = c.basePriority thread)
    (hother : ∀ thread, thread ∉ c.threadList → c'.priorityView thread = c.priorityView thread)
    (thread : GuestThreadId) : d'.priorityView thread = d.priorityView thread := by
  by_cases hthread : thread ∈ c.threadList
  · obtain ⟨priority, heffective, hleast⟩ := effectivePriority_of_assigned hc h hthread
    obtain ⟨priority', heffective', hleast'⟩ :=
      effectivePriority_of_assigned hc' h' (hthreads ▸ hthread)
    rw [inheritable_congr hthreads hdonations hbase] at hleast'
    obtain rfl := hleast.unique hleast'
    have hsameBase : d'.basePriority thread = d.basePriority thread := by
      rw [h'.basePriority, h.basePriority, hbase]
    have hpair {e : RuntimeCoordinator} {base : Int} (hb : e.basePriority thread = some base)
        (he : e.effectivePriority thread = some priority) :
        e.priorityView thread = some (base, priority) := by
      rw [basePriority] at hb
      rw [effectivePriority] at he
      cases hview : e.priorityView thread with
      | none => exact nomatch hview ▸ hb
      | some view =>
        rw [hview, map_some, Option.some.injEq] at hb he
        rw [← hb, ← he]
    obtain ⟨base, hbased⟩ := exists_basePriority hc hthread
    have hd := (h.basePriority thread).trans hbased
    rw [hpair (hsameBase.trans hd) heffective', hpair hd heffective]
  · rw [priorityView_of_assigned hc h hthread,
      priorityView_of_assigned hc' h' (hthreads ▸ hthread), hother thread hthread]

theorem exists_recompute (hc : c.Valid)
    (hfree : ∀ thread ∈ c.threadList, c.isLeased thread = false) :
    ∃ d, recomputeEffectivePriorities c = .ok () d ∧ Assigned c c.targets d := by
  have hspec := recompute_spec hc
  cases hrun : recomputeEffectivePriorities c with
  | ok u d => exact ⟨d, rfl, (ok_of_wp hspec hrun).2⟩
  | err e d =>
    obtain ⟨⟨entry, hentry, hblocks⟩, -⟩ := err_of_wp hspec hrun
    have hleased := hfree entry.1 ((targets_spec hc).2.1 entry hentry).1
    rw [blocks, hleased, Bool.and_false] at hblocks
    cases hblocks
  | panic msg => exact (panic_of_wp hspec hrun).elim

end

/-! ## Main results -/

section

variable {c : RuntimeCoordinator}

open RuntimeCoordinator

/-- **Priority inheritance.** If no thread is leased a recomputation succeeds; afterwards the
effective priority of a thread is the least base priority among the threads from which donations
lead to it, itself included, so it is at most its own base priority; and a donation that is added,
recomputed with, and removed again leaves no trace after the next recomputation. -/
theorem inherits_transitive_minimum (hc : c.Valid)
    (hfree : ∀ thread ∈ c.threadList, c.isLeased thread = false) :
    ∃ d, recomputeEffectivePriorities c = .ok () d ∧
      d.priorityDonations = c.priorityDonations ∧
      (∀ thread, d.basePriority thread = c.basePriority thread) ∧
      (∀ thread ∈ c.threadList, ∃ priority base, d.effectivePriority thread = some priority ∧
        IsLeast (c.inheritable thread) priority ∧ c.basePriority thread = some base ∧
          priority ≤ base) ∧
      ∀ donation ∉ c.priorityDonations, ∃ c₁ c₂,
        recomputeEffectivePriorities
          { c with priorityDonations := c.priorityDonations.insert donation } = .ok () c₁ ∧
        recomputeEffectivePriorities
          { c₁ with priorityDonations := c₁.priorityDonations.erase donation } = .ok () c₂ ∧
        c₂.priorityDonations = d.priorityDonations ∧
        ∀ thread, c₂.priorityView thread = d.priorityView thread := by
  obtain ⟨d, hrun, hd⟩ := exists_recompute hc hfree
  refine ⟨d, hrun, hd.donations, hd.basePriority, fun thread hthread ↦ ?_, fun donation hnew ↦ ?_⟩
  · obtain ⟨priority, heffective, hleast⟩ := effectivePriority_of_assigned hc hd hthread
    obtain ⟨base, hbase⟩ := exists_basePriority hc hthread
    exact ⟨priority, base, heffective, hleast, hbase, hleast.2 ⟨thread, .refl, hbase⟩⟩
  · let added : RuntimeCoordinator :=
      { c with priorityDonations := c.priorityDonations.insert donation }
    have hadded : added.Valid := ⟨hc.linked, hc.registered⟩
    obtain ⟨c₁, hrun₁, hc₁⟩ := exists_recompute hadded hfree
    let removed : RuntimeCoordinator :=
      { c₁ with priorityDonations := c₁.priorityDonations.erase donation }
    have hvalid₁ := hc₁.valid hadded
    have hremoved : removed.Valid := ⟨hvalid₁.linked, hvalid₁.registered⟩
    have hthreads : removed.threadList = c.threadList := hc₁.threadList
    have hdonations : removed.priorityDonations = c.priorityDonations := by
      refine ExtTreeSet.ext_mem fun other ↦ ?_
      change other ∈ c₁.priorityDonations.erase donation ↔ _
      rw [hc₁.donations, mem_erase_iff, mem_insert_iff]
      refine ⟨fun h ↦ h.2.resolve_left h.1, fun h ↦ ⟨?_, .inr h⟩⟩
      rintro rfl
      exact hnew h
    obtain ⟨c₂, hrun₂, hc₂⟩ := exists_recompute hremoved fun thread hthread ↦ by
      rw [hthreads] at hthread
      exact (hc₁.leased thread).trans (hfree thread hthread)
    refine ⟨c₁, c₂, hrun₁, hrun₂, ?_, ?_⟩
    · rw [hc₂.donations, hdonations, hd.donations]
    · exact priorityView_eq_of_assigned hc hremoved hd hc₂ hthreads hdonations hc₁.basePriority
        fun thread hthread ↦ priorityView_of_assigned hadded hc₁ hthread

/-! ## Atomicity -/

/-- The donations and the priorities of all threads are the same. -/
def SamePriorities (c d : RuntimeCoordinator) : Prop :=
  d.priorityDonations = c.priorityDonations ∧
    ∀ thread, d.priorityView thread = c.priorityView thread

theorem threadSchedulingInfo_spec (id : GuestThreadId) :
    wp (threadSchedulingInfo id)
      ⟨fun thread d ↦ d = c ∧ c.scheduler.threads[id]? = some thread, fun _ d ↦ d = c,
        False⟩ c := by
  simp only [threadSchedulingInfo, wp_rules]
  exact ⟨fun thread hthread ↦ ⟨trivial, hthread⟩, fun _ ↦ trivial⟩

theorem changeBasePriority_spec (hc : c.Valid) (id : GuestThreadId) (priority : Int) :
    wp (changeBasePriority id priority)
      ⟨fun _ d ↦ d.Valid, fun _ d ↦ d = c, False⟩ c := by
  rw [changeBasePriority, wp_bind]
  refine wp_of_ok (threadSchedulingInfo_spec id) ?_
  rintro info _ ⟨rfl, hinfo⟩
  simp only [wp_rules, schedule, wp_focus, apply, setPriority]
  refine ⟨fun _ ↦ trivial, fun hpriority ↦ ⟨fun process _ ↦ ⟨fun _ ↦ trivial, fun _ ↦ ?_⟩,
    fun _ ↦ trivial⟩⟩
  refine wp_mono (reprioritise_spec info.config.thread priority _) ?_ ?_ hc.linked.not_collides
  · rintro _ t ⟨-, hpriority, thread, hthread, hlease, rfl⟩
    refine ⟨hc.linked.step (.setPriority hpriority hthread hlease), fun other hother ↦ ?_⟩
    have hbefore := mem_iff_isSome_getElem?.mp (hc.registered other hother)
    rw [mem_iff_isSome_getElem?, SchedulerState.getElem?_requeue]
    split
    · rfl
    · exact hbefore
  · rintro e t ⟨rfl, -⟩
    rfl

/-- The edit of a call succeeds with a valid coordinator, or changes nothing. -/
theorem edit_spec (hc : c.Valid) (call : PriorityCall) :
    wp call.edit ⟨fun _ d ↦ d.Valid, fun _ d ↦ d = c, False⟩ c := by
  cases call with
  | setThreadPriority id priority => exact changeBasePriority_spec hc id priority
  | inheritThreadPriority owner waiter key =>
    rw [PriorityCall.edit, addDonation, wp_bind]
    refine wp_of_ok (threadSchedulingInfo_spec owner) ?_
    rintro _ _ ⟨rfl, -⟩
    refine (wp_bind _ _).mpr (wp_of_ok (threadSchedulingInfo_spec waiter) ?_)
    rintro _ _ ⟨rfl, -⟩
    exact ⟨hc.linked, hc.registered⟩
  | restoreThreadPriority id key =>
    rw [PriorityCall.edit, removeDonations, wp_bind]
    refine wp_of_ok (threadSchedulingInfo_spec id) ?_
    rintro _ _ ⟨rfl, -⟩
    exact ⟨hc.linked, hc.registered⟩

/-- The recomputation after the edit is not blocked by a leased thread; or the edit, and the
assignments before the first leased thread that blocks it, leave everything as it was. -/
def AtomicCall (c : RuntimeCoordinator) (call : PriorityCall) : Prop :=
  ∀ u edited, call.edit c = .ok u edited →
    (∀ entry ∈ edited.targets, edited.blocks entry = false) ∨
      edited.priorityDonations = c.priorityDonations ∧
        ∀ thread, edited.viewAfter edited.assignedBefore thread = c.priorityView thread

end

/-! ## Two threads -/

/-- A coordinator with a process of two threads, 7 and 8. -/
def twoThreads (s : SchedulerState) (donations : List PriorityDonation) : RuntimeCoordinator :=
  ⟨s, ExtTreeMap.ofList [(1, RunnableProcess.mk (.ofList [7, 8]) none)], .ofList donations⟩

def registerTwo : List SchedulerCommand :=
  [.register ⟨1, 7, 20, 20, none, uniprocessor.allCores⟩,
    .register ⟨1, 8, 10, 10, none, uniprocessor.allCores⟩]

theorem valid_twoThreads {s : SchedulerState} {donations : List PriorityDonation}
    {es : List (SchedulerCommand × Except SchedulerError SchedulerDecision)}
    (hrun : Machine.Run scheduler (.new uniprocessor) es s)
    (hknown : ((twoThreads s donations).threadList.all fun thread ↦ s.threads.contains thread) =
      true) : (twoThreads s donations).Valid := by
  refine ⟨(linked_new uniprocessor).of_run hrun, fun thread hthread ↦ ?_⟩
  exact mem_iff_contains.mpr (all_eq_true.mp hknown thread hthread)

/-- Thread 8 donates its priority, 10, to thread 7, whose base priority is 20. -/
theorem inherits_transitive_minimum_donated :
    ∃ c d, c.Valid ∧ c.threadList = [7, 8] ∧
      (∀ thread ∈ c.threadList, c.isLeased thread = false) ∧
      recomputeEffectivePriorities c = .ok () d ∧
      ∃ priority, d.effectivePriority 7 = some priority ∧ IsLeast (c.inheritable 7) priority ∧
        priority ≤ 10 := by
  have hexec : ∃ r ∈ exec scheduler (.new uniprocessor) registerTwo,
      let c := twoThreads r.2 [⟨7, 8, 1⟩]
      c.threadList = [7, 8] ∧ (c.threadList.all fun thread ↦ r.2.threads.contains thread) = true ∧
        (∀ thread ∈ c.threadList, c.isLeased thread = false) ∧ c.basePriority 8 = some 10 := by
    decide +kernel
  obtain ⟨es, s, hrun, -, hthreads, hknown, hunleased, hbase⟩ := exists_run_of_exec hexec
  have hvalid := valid_twoThreads hrun hknown
  obtain ⟨d, hok, -, -, hleast, -⟩ := inherits_transitive_minimum hvalid hunleased
  have hseven : 7 ∈ (twoThreads s [⟨7, 8, 1⟩]).threadList := by
    rw [hthreads]
    decide
  have height : 8 ∈ (twoThreads s [⟨7, 8, 1⟩]).threadList := by
    rw [hthreads]
    decide
  obtain ⟨priority, -, heffective, hmin, -, -⟩ := hleast 7 hseven
  refine ⟨_, d, hvalid, hthreads, hunleased, hok, priority, heffective, hmin, hmin.2 ⟨8, ?_, hbase⟩⟩
  have hdonation : ⟨7, 8, 1⟩ ∈ (twoThreads s [⟨7, 8, 1⟩]).priorityDonations :=
    ExtTreeSet.mem_ofList.mpr rfl
  exact .single ⟨⟨7, 8, 1⟩, hdonation, rfl, rfl, height, hseven⟩

end Nixe.Runtime
