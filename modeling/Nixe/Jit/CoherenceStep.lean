import Nixe.Jit.Coherence

/-!
# Every step keeps the regions clean

Only the thread that holds the process lock changes the tables, and it does so at few places: where
records are read, where a region is taken out and where one is put in. All other steps keep the
tables (`SameTables`), and need only say what the thread carries on.
-/

namespace Nixe.Jit

open Std Memory MemoryInvalidationLog ExtTreeMap List Capture

variable {ι : Type} {addressSpace : Nat} {s s' : JitProcess ι}

/-! ## Steps that keep the tables -/

/-- The tables stay as they are, and records may be published. -/
structure SameTables (s s' : JitProcess ι) : Prop where
  regions : s'.regions = s.regions
  physicalDependencies : s'.physicalDependencies = s.physicalDependencies
  cursor : s'.invalidationCursor = s.invalidationCursor
  lost : s'.lost = s.lost
  log : s.log.records <+: s'.log.records

variable {log : MemoryInvalidationLog} {new : PublishedRegion} {job : Job}
  {memory : InstructionMemory} {c : Threads ι (JitProcess ι) Pc}

namespace SameTables

/-- The part of the state that the tables and the log are. -/
def tables (s : JitProcess ι) :=
  (s.regions, s.physicalDependencies, s.invalidationCursor, s.lost, s.log)

theorem of_eq (h : tables s' = tables s) : SameTables s s' := by
  simp only [tables, Prod.mk.injEq] at h
  exact ⟨h.1, h.2.1, h.2.2.1, h.2.2.2.1, h.2.2.2.2 ▸ prefix_refl _⟩

section

variable (h : SameTables s s')

include h

theorem clean {region : PublishedRegion} (hcursor : s.invalidationCursor ≤ s.log.latest)
    (hc : Clean addressSpace s region) : Clean addressSpace s' region := by
  intro f hf
  rw [h.cursor, Current, h.lost]
  refine ⟨fun i record hlow hhigh hi ↦ (hc f hf).1 i record hlow hhigh ?_, (hc f hf).2⟩
  -- the records up to the cursor are those that were there before
  have hlt : i < s.log.records.length := hhigh.trans_le hcursor
  obtain ⟨new, hnew⟩ := h.log
  rwa [← hnew, List.getElem?_append_left hlt] at hi

theorem cleanExcept {keys : List RegionKey} (hcursor : s.invalidationCursor ≤ s.log.latest)
    (hc : CleanExcept addressSpace s keys) : CleanExcept addressSpace s' keys := by
  intro k region hk
  rw [h.regions] at hk
  exact (hc k region hk).imp_right (h.clean hcursor)

theorem dated {c : Nat} (hc : Dated s c) : Dated s' c := by
  rw [Dated, h.cursor, h.lost]
  exact hc

theorem filed {k : RegionKey} {region : PublishedRegion} (hf : Filed s k region) :
    Filed s' k region :=
  ⟨hf.key, hf.captured, h.physicalDependencies ▸ hf.dependencies⟩

theorem carries {cargo : Cargo} (hcursor : s.invalidationCursor ≤ s.log.latest)
    (hc : Carries addressSpace s cargo) : Carries addressSpace s' cargo := by
  cases cargo with
  | nothing => trivial
  | cursor c => exact h.dated hc
  | reading => exact ⟨h.dated hc.1, hc.2⟩
  | compiled => exact ⟨h.dated hc.1, hc.2.1, fun hv ↦ h.clean hcursor (hc.2.2 hv)⟩
  | inserted =>
    refine ⟨h.regions ▸ hc.1, fun p hp ↦ ?_⟩
    exact ⟨h.filed (hc.2 p hp).1, h.clean hcursor (hc.2 p hp).2⟩

theorem fresh (hs : Fresh addressSpace s)
    (hqueue : ∀ r ∈ s'.hcq.pending, Dated s r.invalidationCursor)
    (hclean : s'.lock = none → CleanExcept addressSpace s []) : Fresh addressSpace s' where
  cursor := h.cursor ▸ hs.cursor.trans h.log.length_le
  filed k region hk := h.filed (hs.filed k region (h.regions ▸ hk))
  clean hfree := h.cleanExcept hs.cursor (hclean hfree)
  queue r hr := h.dated (hqueue r hr)
  lost loss hloss := by
    rw [h.lost] at hloss
    obtain ⟨hold, hcursor⟩ := hs.lost loss hloss
    have hlength := h.log.length_le
    refine ⟨hold.trans_le ?_, h.cursor ▸ hcursor⟩
    simp only [oldest, latest, memoryInvalidationCapacity]
    omega

end

end SameTables

/-- The places from the insertion of the only region of `key` to the end of its publication. -/
def Pc.publishes (key : RegionKey) : Pc → Prop
  | publishCheck job _ previous => job.key = key ∧ previous = none
  | publishEntry job _ _ => job.key = key
  | publishState job _ _ => job.key = key
  | _ => False

/-- A step of the thread `t` at `pc` that leads to `pc'`. A key without a region gets one only at
the beginning of a publication. -/
structure Refreshes (addressSpace : Nat) (pc : Pc) (s : JitProcess ι) (pc' : Pc)
    (s' : JitProcess ι) : Prop where
  fresh : Fresh addressSpace s'
  freshAt : FreshAt addressSpace pc' s'
  cursor : s.invalidationCursor ≤ s'.invalidationCursor
  lost : ∀ loss ∈ s'.lost, loss ∈ s.lost ∨ s.invalidationCursor ≤ loss.1
  tables : pc.critical = false → SameTables s s'
  unpublished : ∀ k, s.regions[k]? = none → s'.regions[k]? = none ∨ pc'.publishes k

namespace Refreshes

variable {pc pc' : Pc}

section

variable (hs : Fresh addressSpace s)

include hs

theorem of_sameTables (h : SameTables s s')
    (hqueue : ∀ r ∈ s'.hcq.pending, Dated s r.invalidationCursor)
    (hclean : CleanExcept addressSpace s [] ∨ s'.lock = s.lock ∧ pc'.critical = false)
    (hcarries : Carries addressSpace s pc'.cargo) : Refreshes addressSpace pc s pc' s' where
  fresh := h.fresh hs hqueue fun hfree ↦ hclean.elim id fun hsame ↦ hs.clean (hsame.1 ▸ hfree)
  freshAt := {
    carries := h.carries hs.cursor hcarries
    clean hcritical := by
      rcases hclean with hclean | ⟨-, hcritical'⟩
      · intro k region hk
        exact .inr ((h.cleanExcept hs.cursor hclean k region hk).resolve_left nofun)
      · exact absurd hcritical (by simp [hcritical']) }
  cursor := Nat.le_of_eq h.cursor.symm
  lost loss hloss := .inl (h.lost ▸ hloss)
  tables _ := h
  unpublished _ hnone := .inl (h.regions ▸ hnone)

/-- A step outside the lock. -/
theorem unlocked (h : SameTables s s') (hqueue : ∀ r ∈ s'.hcq.pending, Dated s r.invalidationCursor)
    (hlock : s'.lock = s.lock) (hcritical' : pc'.critical = false)
    (hcarries : Carries addressSpace s pc'.cargo) : Refreshes addressSpace pc s pc' s' :=
  of_sameTables hs h hqueue (.inr ⟨hlock, hcritical'⟩) hcarries

/-- A step that takes the lock. -/
theorem acquired (h : SameTables s s') (hhcq : s'.hcq = s.hcq) (hfree : s.lock = none)
    (hcarries : Carries addressSpace s pc'.cargo) : Refreshes addressSpace pc s pc' s' :=
  of_sameTables hs h (hhcq ▸ hs.queue) (.inl (hs.clean hfree)) hcarries

/-- A step under the lock at which nothing is left to be retired. -/
theorem locked (ha : FreshAt addressSpace pc s) (hcritical : pc.critical = true)
    (hretiring : pc.retiring = []) (h : SameTables s s') (hhcq : s'.hcq = s.hcq)
    (hcarries : Carries addressSpace s pc'.cargo) : Refreshes addressSpace pc s pc' s' :=
  of_sameTables hs h (hhcq ▸ hs.queue) (.inl (hretiring ▸ ha.clean hcritical)) hcarries

end

end Refreshes

/-! ## Interference -/

theorem Dated.mono {c : Nat} (h : Dated s c)
    (hcursor : s.invalidationCursor ≤ s'.invalidationCursor)
    (hlost : ∀ loss ∈ s'.lost, loss ∈ s.lost ∨ s.invalidationCursor ≤ loss.1) : Dated s' c := by
  refine ⟨h.1.trans hcursor, fun loss hloss ↦ ?_⟩
  rcases hlost loss hloss with hold | hnew
  · exact h.2 loss hold
  · exact .inl (h.1.trans hnew)

/-- Outside the lock a thread carries nothing that speaks of the tables. -/
theorem carries_of_not_critical {pc : Pc} (hcritical : pc.critical = false)
    (hcursor : s.invalidationCursor ≤ s'.invalidationCursor)
    (hlost : ∀ loss ∈ s'.lost, loss ∈ s.lost ∨ s.invalidationCursor ≤ loss.1)
    (h : Carries addressSpace s pc.cargo) : Carries addressSpace s' pc.cargo := by
  cases pc with
  | idle cursor =>
    cases cursor with
    | none => trivial
    | some c => exact Dated.mono h hcursor hlost
  | discover | queryPage | generate => exact ⟨Dated.mono h.1 hcursor hlost, h.2⟩
  | commitLock => exact ⟨Dated.mono h.1 hcursor hlost, h.2.1, nofun⟩
  | lookupLock resume =>
    cases resume with
    | commit => exact ⟨Dated.mono h.1 hcursor hlost, h.2.1, nofun⟩
    | _ => trivial
  | publishNotify | hcqGeneration | hcqState | hcqEntry | requestClosed | requestQueue
  | requestGeneration | requestPush | requestRestore | requestExchange =>
    exact Dated.mono h hcursor hlost
  | entryLock | waiting | staleNotify | abortLoad | abortExchange | abortNotify | pop
  | hcqErrorLock | closeQueue | closeLock | failLock | backgroundNotify | shutdownStore
  | shutdownQueue | shutdownLock | panicked => trivial
  | _ => exact nomatch hcritical

/-- What a thread knows survives a step of another thread. -/
theorem FreshAt.of_refreshes {t u : ι} {pc pc' m : Pc} (hs : Fresh addressSpace s)
    (hpc : s.lock = some t ↔ pc.critical = true) (hm : s.lock = some u ↔ m.critical = true)
    (hu : u ≠ t) (h : Refreshes addressSpace pc s pc' s') (ha : FreshAt addressSpace m s) :
    FreshAt addressSpace m s' := by
  by_cases hcritical : m.critical = true
  · have hother : pc.critical = false := by
      rw [← Bool.not_eq_true, ← hpc, hm.mpr hcritical]
      exact fun h ↦ hu (Option.some.inj h)
    have htables := h.tables hother
    exact ⟨htables.carries hs.cursor ha.carries,
      fun hc ↦ htables.cleanExcept hs.cursor (ha.clean hc)⟩
  · exact ⟨carries_of_not_critical (by simpa using hcritical) h.cursor h.lost ha.carries,
      fun hc ↦ absurd hc hcritical⟩

/-! ## Steps that change the table of regions -/

variable {region : PublishedRegion} {capture : Capture} {d : CodePageDependency}

theorem Clean.of_eq (h : Clean addressSpace s region)
    (hcursor : s'.invalidationCursor = s.invalidationCursor) (hlost : s'.lost = s.lost)
    (hlog : s'.log = s.log) : Clean addressSpace s' region := by
  intro f hf
  rw [hcursor, Current, hlog, hlost]
  exact h f hf

/-- Regions are taken out of the table or put into it under the lock. -/
theorem Refreshes.of_regions {pc pc' : Pc} (hs : Fresh addressSpace s)
    (hcritical : pc.critical = true) (hcursor : s'.invalidationCursor = s.invalidationCursor)
    (hlost : s'.lost = s.lost) (hlog : s'.log = s.log) (hhcq : s'.hcq = s.hcq)
    (hregions : ∀ k region, s'.regions[k]? = some region →
      Filed s' k region ∧ (k ∈ pc'.retiring ∨ Clean addressSpace s region))
    (hretiring : s'.lock = none → pc'.retiring = []) (hcarries : Carries addressSpace s' pc'.cargo)
    (hnone : ∀ k, s.regions[k]? = none → s'.regions[k]? = none ∨ pc'.publishes k) :
    Refreshes addressSpace pc s pc' s' := by
  have hclean : CleanExcept addressSpace s' pc'.retiring := fun k region hk ↦
    (hregions k region hk).2.imp_right fun h ↦ h.of_eq hcursor hlost hlog
  exact {
    fresh := {
      cursor := by
        rw [hcursor, hlog]
        exact hs.cursor
      filed k region hk := (hregions k region hk).1
      clean hfree := hretiring hfree ▸ hclean
      queue := by
        rw [hhcq]
        intro r hr
        rw [Dated, hcursor, hlost]
        exact hs.queue r hr
      lost := by
        rw [hlost, hlog, hcursor]
        exact hs.lost }
    freshAt := ⟨hcarries, fun _ ↦ hclean⟩
    cursor := Nat.le_of_eq hcursor.symm
    lost := fun loss hloss ↦ .inl (hlost ▸ hloss)
    tables := fun hne ↦ absurd hcritical (by simp [hne])
    unpublished := hnone }

/-- The table after a region was put in. -/
theorem Filed.insertRegion {k l : RegionKey} (h : Filed s l region) :
    Filed (s.insertRegion k new) l region :=
  ⟨h.key, h.captured, fun d hd ↦ mem_append_left _ (h.dependencies d hd)⟩

theorem Results.filed (h : Results job region) :
    Filed (s.insertRegion job.key region) job.key region where
  __ := h
  dependencies _ hd := mem_append_right _ (mem_map_of_mem hd)

/-- Every region of the table after an insertion is filed and clean. -/
theorem regions_insertRegion (hs : Fresh addressSpace s) (hclean : CleanExcept addressSpace s [])
    (hresults : Results job new) (hnew : Clean addressSpace s new) {k : RegionKey}
    (hk : (s.insertRegion job.key new).regions[k]? = some region) :
    Filed (s.insertRegion job.key new) k region ∧ Clean addressSpace s region := by
  simp only [JitProcess.insertRegion, ExtTreeMap.getElem?_insert] at hk
  split_ifs at hk with heq
  · obtain rfl := Std.LawfulEqCmp.eq_of_compare heq
    cases hk
    exact ⟨hresults.filed, hnew⟩
  · exact ⟨(hs.filed k region hk).insertRegion, (hclean k region hk).resolve_left nofun⟩

/-! ## What the threads carry on -/

section

variable {pc pc' : Pc} {e : DirectJitError}

@[simp] theorem cargo_fail (job : Job) : (job.fail e).cargo = .nothing := by
  cases job with
  | lcq => rfl
  | hcq =>
    rw [Job.fail]
    split_ifs <;> rfl

theorem critical_fail (job : Job) : (job.fail e).critical = false := by
  cases job with
  | lcq => rfl
  | hcq =>
    rw [Job.fail]
    split_ifs <;> rfl

theorem cargo_failDiscovery (job : Job) : (job.failDiscovery e).cargo = .nothing := by
  cases job <;> rfl

theorem critical_failDiscovery (job : Job) : (job.failDiscovery e).critical = false := by
  cases job <;> rfl

theorem cargo_failEntry (key : RegionKey) (outer : List Nat) :
    (failEntry key outer e).2.cargo = .nothing := by
  cases outer <;> rfl

end

/-- A word is fetched. -/
theorem Reads.fetch {reading : Reading} {pc : GuestAddress} {dependencies : CodeDependencies}
    {cursor : Nat} (h : Reads job reading none) (hcursor : job.cursor ≤ cursor) :
    Reads job
      { capture := reading.capture.addDependencies dependencies
        fetches := reading.fetches ++ [⟨pc, dependencies, cursor⟩] } (some pc) := by
  obtain ⟨hsubset, hmem, hspans, hlast⟩ :=
    reading.capture.addDependencies_spec dependencies.toList
  refine ⟨?_, ⟨fun f hf d hd ↦ ?_, fun f hf ↦ ?_⟩, fun f hf ↦ ?_⟩
  · rw [addDependencies, hlast, hspans]
    exact h.last
  · rcases mem_append.mp hf with hf | hf
    · exact hsubset (h.covers.dependencies f hf d hd)
    · obtain rfl := mem_singleton.mp hf
      exact hmem d hd
  · rcases mem_append.mp hf with hf | hf
    · rw [addDependencies, hspans]
      exact .inr ((h.covers.spans f hf).resolve_left nofun)
    · obtain rfl := mem_singleton.mp hf
      exact .inl rfl
  · rcases mem_append.mp hf with hf | hf
    · exact h.cursor f hf
    · obtain rfl := mem_singleton.mp hf
      exact hcursor

/-- The code page of the word that was fetched last is known. -/
theorem Reads.capturePage {reading : Reading} {pc : GuestAddress}
    (h : Reads job reading (some pc))
    (hpage : Jit.capturePage memory reading.capture pc = .ok capture) :
    Reads job { reading with capture } none := by
  obtain ⟨hdependencies, hsubset, hlast, hpc⟩ := capturePage_spec h.last hpage
  refine ⟨hlast, ⟨fun f hf d hd ↦ ?_, fun f hf ↦ .inr ?_⟩, h.cursor⟩
  · rw [hdependencies]
    exact h.covers.dependencies f hf d hd
  · rcases h.covers.spans f hf with heq | ⟨span, hspan, hcontains⟩
    · exact Option.some.inj heq ▸ hpc
    · exact ⟨span, hsubset hspan, hcontains⟩

/-! ## The steps -/

section

variable {t : ι} {pc pc' : Pc} {b : Answer} {choice : Choice} {cpu : ProcessCpuContext}

theorem callStep_refreshes {cursor : Option Nat} {call : Call} (hs : Fresh addressSpace s)
    (ha : FreshAt addressSpace (.idle cursor) s)
    (h : callStep cursor s call = some (b, pc', s')) :
    Refreshes addressSpace (.idle cursor) s pc' s' := by
  revert h
  fun_cases callStep cursor s call
  case case4 key =>
    intro h
    obtain ⟨c, rfl, ⟨⟩⟩ := Option.map_eq_some_iff.mp h
    exact .unlocked hs (.of_eq rfl) hs.queue rfl rfl ha.carries
  all_goals rintro ⟨⟩
  case case5 | case6 =>
    exact .unlocked hs (.of_eq rfl) hs.queue rfl rfl ha.carries
  case case9 memory records =>
    exact .unlocked hs ⟨rfl, rfl, rfl, rfl, prefix_append _ _⟩ hs.queue rfl rfl ha.carries
  all_goals exact .unlocked hs (.of_eq rfl) hs.queue rfl rfl trivial

theorem compileStep_refreshes (hs : Fresh addressSpace s) (ha : FreshAt addressSpace pc s)
    (h : compileStep cpu s pc choice = some (b, pc', s')) : Refreshes addressSpace pc s pc' s' := by
  have hsame : SameTables s s := .of_eq rfl
  have hfail : ∀ (job : Job) (e : DirectJitError),
      Refreshes addressSpace pc s (job.failDiscovery e) s := fun job e ↦
    .unlocked hs hsame hs.queue rfl (critical_failDiscovery job) (cargo_failDiscovery job ▸ trivial)
  revert h
  fun_cases compileStep cpu s pc choice
  case case11 => simp
  all_goals rintro ⟨⟩
  case case1 | case4 | case7 | case8 => exact hfail _ _
  case case2 job reading pc fetched _ =>
    have hcursor : job.cursor ≤ s.log.latest := ha.carries.1.1.trans hs.cursor
    exact .unlocked hs hsame hs.queue rfl rfl ⟨ha.carries.1, ha.carries.2.fetch hcursor⟩
  case case3 => exact .unlocked hs hsame hs.queue rfl rfl ha.carries
  case case5 hpage _ _ | case6 hpage _ _ =>
    exact .unlocked hs hsame hs.queue rfl rfl ⟨ha.carries.1, ha.carries.2.capturePage hpage⟩
  case case9 job _ _ _ =>
    exact .unlocked hs hsame hs.queue rfl (critical_fail job) (cargo_fail job ▸ trivial)
  case case10 =>
    obtain ⟨hdated, hreads⟩ := ha.carries
    exact .unlocked hs hsame hs.queue rfl rfl
      ⟨hdated, ⟨rfl, hreads.covers, hreads.cursor⟩, by simp⟩

theorem acquire_refreshes {pc₀ : Pc} (hs : Fresh addressSpace s)
    (hcarries : Carries addressSpace s pc₀.cargo) (h : acquire t s pc₀ = some (b, pc', s')) :
    Refreshes addressSpace pc s pc' s' := by
  rw [acquire] at h
  split_ifs at h with hfree
  obtain ⟨⟩ := h
  exact .acquired hs (.of_eq rfl) rfl hfree hcarries

variable {region : PublishedRegion} {resume : Resume} {keys : List RegionKey} {job : Job}
  {k : RegionKey}

theorem commitLockStep_refreshes {maxNativeCodeBytes nativeBytes : Nat}
    (hs : Fresh addressSpace s) (ha : FreshAt addressSpace (.commitLock job region nativeBytes) s)
    (h : commitLockStep maxNativeCodeBytes t s job region nativeBytes = some (b, pc', s')) :
    Refreshes addressSpace (.commitLock job region nativeBytes) s pc' s' := by
  revert h
  fun_cases commitLockStep maxNativeCodeBytes t s job region nativeBytes
  case case4 => simp
  all_goals rintro ⟨⟩
  case case1 | case2 =>
    exact .unlocked hs (.of_eq rfl) hs.queue rfl (critical_fail job)
      (cargo_fail job ▸ trivial)
  case case3 hfree _ _ _ =>
    exact .acquired hs (.of_eq rfl) rfl hfree ha.carries

theorem queueStep_refreshes (hs : Fresh addressSpace s) (ha : FreshAt addressSpace pc s)
    (h : queueStep t s pc choice = some (b, pc', s')) : Refreshes addressSpace pc s pc' s' := by
  have hsame : SameTables s s := .of_eq rfl
  revert h
  fun_cases queueStep t s pc choice
  case case17 | case28 => simp
  case case2 =>
    intro h
    obtain ⟨request, hlast, ⟨⟩⟩ := Option.map_eq_some_iff.mp h
    have hmem : ∀ r ∈ s.hcq.pending.dropLast, Dated s r.invalidationCursor :=
      fun r hr ↦ hs.queue r (dropLast_subset _ hr)
    exact .unlocked hs (.of_eq rfl) hmem rfl rfl
      (hs.queue request (mem_of_getLast? hlast))
  case case9 | case13 => exact acquire_refreshes hs trivial
  all_goals rintro ⟨⟩
  case case10 | case14 => exact .locked hs ha rfl rfl (.of_eq rfl) rfl trivial
  case case11 =>
    exact .locked hs ha rfl rfl (.of_eq rfl) rfl (cargo_fail _ ▸ trivial)
  case case12 => exact .unlocked hs (.of_eq rfl) (by simp) rfl rfl trivial
  case case15 =>
    rw [restoreLcq_eq]
    exact .locked hs ha rfl rfl (.of_eq rfl) rfl trivial
  case case8 request _ =>
    refine .unlocked hs hsame hs.queue rfl rfl ⟨ha.carries, ?_⟩
    exact ⟨by simp, ⟨by simp, by simp⟩, by simp⟩
  case case4 | case6 | case19 | case20 | case21 | case22 | case23 | case25 | case26 =>
    exact .unlocked hs (.of_eq rfl) hs.queue rfl rfl ha.carries
  case case18 => exact .unlocked hs hsame hs.queue rfl rfl ha.carries
  case case24 request _ =>
    refine .unlocked hs (.of_eq rfl) (fun r hr ↦ ?_) rfl rfl ha.carries
    rcases mem_append.mp hr with hr | hr
    · exact hs.queue r hr
    · obtain rfl := mem_singleton.mp hr
      exact ha.carries
  case case27 =>
    rw [exchange_eq]
    exact .unlocked hs (.of_eq rfl) hs.queue rfl rfl ha.carries
  all_goals exact .unlocked hs (.of_eq rfl) hs.queue rfl rfl trivial

theorem notifyStep_refreshes (hs : Fresh addressSpace s) (ha : FreshAt addressSpace pc s)
    (h : notifyStep t s pc choice = some (b, pc', s')) : Refreshes addressSpace pc s pc' s' := by
  revert h
  fun_cases notifyStep t s pc choice
  case case12 => simp
  case case11 => exact acquire_refreshes hs trivial
  all_goals rintro ⟨⟩
  case case1 => exact .unlocked hs (.of_eq rfl) hs.queue rfl rfl ha.carries
  case case6 =>
    split_ifs <;> exact .unlocked hs (.of_eq rfl) hs.queue rfl rfl trivial
  case case7 key outer e failed =>
    exact .unlocked hs (.of_eq rfl) hs.queue rfl (by cases outer <;> rfl)
      (cargo_failEntry key outer ▸ trivial)
  case case8 worker =>
    cases worker <;>
      exact .unlocked hs (.of_eq rfl) hs.queue rfl rfl trivial
  case case10 => exact .unlocked hs (.of_eq rfl) (by simp) rfl rfl trivial
  all_goals exact .unlocked hs (.of_eq rfl) hs.queue rfl rfl trivial

/-! ## Reconciliation -/

/-- The keys that are retired for a summary are those of all the regions that it affects. -/
theorem mem_affectedKeys {summary : InvalidationSummary} {record : MemoryInvalidationKind}
    {f : Fetch} (hk : s.regions[k]? = some region) (hfiled : Filed s k region)
    (hf : f ∈ region.fetches) (hnoted : Noted addressSpace summary record)
    (h : Affects addressSpace f record) : k ∈ s.affectedKeys summary := by
  rw [JitProcess.affectedKeys]
  split_ifs with hall
  · exact mem_keys.mpr (mem_iff_isSome_getElem?.mpr (by simp [hk]))
  · rcases affected_cases hfiled.captured hf hnoted h with hall' | hmapping | ⟨d, hd, hpage⟩
    · exact absurd hall' hall
    · refine mem_append_right _ (mem_map.mpr ⟨region, ?_, hfiled.key⟩)
      refine mem_filter.mpr ⟨mem_append_left _ ?_, hmapping⟩
      exact mem_map.mpr ⟨(k, region), mem_toList_iff_getElem?_eq_some.mpr hk, rfl⟩
    · refine mem_append_left _ (mem_map.mpr ⟨(d.page, k), ?_, rfl⟩)
      exact mem_filter.mpr ⟨hfiled.dependencies d hd, contains_iff_mem.mpr hpage⟩

/-- The records after the cursor of the process are read, and `keys` are to be retired for them. -/
theorem Refreshes.reconciled (hs : Fresh addressSpace s)
    (ha : FreshAt addressSpace (.reconcile resume) s)
    (hcursor : s.invalidationCursor ≤ s'.invalidationCursor)
    (hlatest : s'.invalidationCursor = s.log.latest) (hregions : s'.regions = s.regions)
    (hphysical : s'.physicalDependencies = s.physicalDependencies) (hlog : s'.log = s.log)
    (hhcq : s'.hcq = s.hcq) (hlock : s'.lock ≠ none) (hlost : ∀ loss ∈ s'.lost, loss ∈ s.lost ∨
      s.invalidationCursor ≤ loss.1 ∧ loss.1 + 1 < s.log.oldest ∧ loss.2 = s.log.latest)
    (hclean : CleanExcept addressSpace s' keys) :
    Refreshes addressSpace (.reconcile resume) s (.retire keys resume) s' := by
  have hlost' : ∀ loss ∈ s'.lost, loss ∈ s.lost ∨ s.invalidationCursor ≤ loss.1 :=
    fun loss hloss ↦ (hlost loss hloss).imp_right And.left
  exact {
    fresh := {
      cursor := by
        rw [hlatest, hlog]
      filed k region hk := by
        have hf := hs.filed k region (hregions ▸ hk)
        exact ⟨hf.key, hf.captured, hphysical ▸ hf.dependencies⟩
      clean hfree := absurd hfree hlock
      queue := by
        rw [hhcq]
        exact fun r hr ↦ (hs.queue r hr).mono hcursor hlost'
      lost loss hloss := by
        rw [hlog]
        rcases hlost loss hloss with hold | ⟨-, holdest, heq⟩
        · exact ⟨(hs.lost loss hold).1, (hs.lost loss hold).2.trans hcursor⟩
        · exact ⟨holdest, Nat.le_of_eq (heq.trans hlatest.symm)⟩ }
    freshAt := by
      refine ⟨?_, fun _ ↦ hclean⟩
      have hcarries := ha.carries
      cases resume with
      | commit => exact ⟨Dated.mono hcarries.1 hcursor hlost', hcarries.2.1, nofun⟩
      | _ => trivial
    cursor := hcursor
    lost := hlost'
    tables := nofun
    unpublished _ hnone := .inl (hregions ▸ hnone) }

theorem reconcileStep_refreshes (hlock : s.lock ≠ none) (hs : Fresh cpu.addressSpaceId s)
    (ha : FreshAt cpu.addressSpaceId (.reconcile resume) s)
    (h : reconcileStep cpu s resume = (b, pc', s')) :
    Refreshes cpu.addressSpaceId (.reconcile resume) s pc' s' := by
  have hall : CleanExcept cpu.addressSpaceId s [] := ha.clean rfl
  revert h
  fun_cases reconcileStep cpu s resume
  case case1 cursor records hread keys =>
    obtain ⟨hle, rfl, rfl⟩ := readSince_eq_ok hread
    rintro ⟨⟩
    refine .reconciled hs ha hle rfl rfl rfl rfl rfl hlock (fun loss hloss ↦ .inl hloss) ?_
    intro k region hk
    by_cases hkeys : k ∈ keys
    · exact .inl hkeys
    · refine .inr fun f hf ↦ ⟨fun i record hlow hhigh hi haffects ↦ ?_, fun loss hloss hle' ↦ ?_⟩
      · -- a record below the old cursor was found before, a later one was read now
        rcases Nat.lt_or_ge i s.invalidationCursor with hold | hnew
        · exact (((hall k region hk).resolve_left (by simp)) f hf).1 i record hlow hold hi haffects
        · have hrecord : record ∈ s.log.records.drop s.invalidationCursor := by
            refine mem_of_getElem? (i := i - s.invalidationCursor) ?_
            rw [List.getElem?_drop, Nat.add_sub_cancel' hnew]
            exact hi
          exact hkeys (mem_affectedKeys hk (hs.filed k region hk) hf (noted_summarize hrecord)
            haffects)
      · exact (((hall k region hk).resolve_left (by simp)) f hf).2 loss hloss (hs.lost loss hloss).2
  case case2 requested oldest latest hread =>
    rintro ⟨⟩
    obtain ⟨hold, rfl, rfl, rfl⟩ := readSince_eq_historyLost.mp hread
    refine .reconciled hs ha hs.cursor rfl rfl rfl rfl rfl hlock (fun loss hloss ↦ ?_) ?_
    · refine (mem_append.mp hloss).imp_right fun hnew ↦ ?_
      obtain rfl := mem_singleton.mp hnew
      exact ⟨Nat.le_refl _, hold, rfl⟩
    · intro k region hk
      exact .inl (mem_keys.mpr (mem_iff_isSome_getElem?.mpr (by simp [hk])))
  case case3 error hother hread _ =>
    exact absurd (readSince_eq_error hs.cursor hread) (hother _ _ _)

theorem getElem?_erase_eq_none {key : RegionKey} (h : s.regions[k]? = none) :
    (s.regions.erase key)[k]? = none := by
  rw [ExtTreeMap.getElem?_erase, h, ite_self]

/-- A region is taken out of the table. -/
theorem detach_refreshes {key : RegionKey} (hlock : s.lock ≠ none) (hs : Fresh addressSpace s)
    (ha : FreshAt addressSpace (.retire keys resume) s) :
    Refreshes addressSpace (.retire keys resume) s
      (.clearEntry region key (keys.erase key) resume)
      { s with regions := s.regions.erase key } := by
  refine .of_regions hs rfl rfl rfl rfl rfl (fun k other hk ↦ ?_) (fun hfree ↦ ?_) ?_
    fun _ hnone ↦ .inl (getElem?_erase_eq_none hnone)
  · obtain ⟨hne, hk⟩ := getElem?_erase_eq_some_iff.mp hk
    have hfiled := hs.filed k other hk
    exact ⟨⟨hfiled.key, hfiled.captured, hfiled.dependencies⟩,
      (ha.clean rfl k other hk).imp_left (mem_erase_of_ne hne).mpr⟩
  · exact absurd hfree hlock
  · have hcarries := ha.carries
    cases resume with
    | commit => exact ⟨hcarries.1, hcarries.2.1, nofun⟩
    | _ => trivial

/-- A step between two places of the loop that retires the regions. -/
theorem Refreshes.retiring (hlock : s.lock ≠ none) (hs : Fresh addressSpace s)
    (ha : FreshAt addressSpace pc s) (hcargo : pc.cargo = resume.cargo)
    (hcargo' : pc'.cargo = resume.cargo) (hkeys' : pc'.retiring = keys) (h : SameTables s s')
    (hlock' : s'.lock = s.lock) (hhcq : s'.hcq = s.hcq) (hclean : CleanExcept addressSpace s keys) :
    Refreshes addressSpace pc s pc' s' where
  fresh := h.fresh hs (hhcq ▸ hs.queue) fun hfree ↦ absurd (hlock' ▸ hfree) hlock
  freshAt := {
    carries := h.carries hs.cursor (by rw [hcargo', ← hcargo]; exact ha.carries)
    clean _ := hkeys' ▸ h.cleanExcept hs.cursor hclean }
  cursor := Nat.le_of_eq h.cursor.symm
  lost loss hloss := .inl (h.lost ▸ hloss)
  tables _ := h
  unpublished _ hnone := .inl (h.regions ▸ hnone)

theorem lookupStep_refreshes [DecidableEq ι] (hlock : s.lock = some t ↔ pc.critical = true)
    (hs : Fresh cpu.addressSpaceId s) (ha : FreshAt cpu.addressSpaceId pc s)
    (h : lookupStep cpu t s pc choice = some (b, pc', s')) :
    Refreshes cpu.addressSpaceId pc s pc' s' := by
  have hsame : SameTables s s := .of_eq rfl
  have hheld : pc.critical = true → s.lock ≠ none := fun hc ↦ by simp [hlock.mpr hc]
  have hdated : Dated s s.invalidationCursor :=
    ⟨Nat.le_refl _, fun loss hloss ↦ .inr (hs.lost loss hloss).2⟩
  revert h
  fun_cases lookupStep cpu t s pc choice
  case case1 => exact acquire_refreshes hs trivial
  case case2 => exact acquire_refreshes hs ha.carries
  case case3 =>
    exact fun h ↦ reconcileStep_refreshes (hheld rfl) hs ha (Option.some.inj h)
  case case4 resume =>
    cases resume with
    | commit =>
      rintro ⟨⟩
      exact .locked hs ha rfl rfl (.of_eq rfl) rfl ha.carries
    | _ =>
      rintro ⟨⟩
      exact .locked hs ha rfl rfl (.of_eq rfl) rfl trivial
  case case7 | case21 | case28 => simp
  all_goals rintro ⟨⟩
  case case5 key _ hregion =>
    refine .retiring (hheld rfl) hs ha rfl rfl rfl hsame rfl rfl fun k region hk ↦ ?_
    have hne : k ≠ key := fun heq ↦ by simp [heq, hregion] at hk
    exact (ha.clean rfl k region hk).imp_left (mem_erase_of_ne hne).mpr
  case case6 => exact detach_refreshes (hheld rfl) hs ha
  case case8 | case9 | case10 =>
    exact .retiring (hheld rfl) hs ha rfl rfl rfl (.of_eq rfl) rfl rfl
      (ha.clean rfl)
  case case11 key outer _ _ _ | case17 key outer _ _ _ =>
    exact .locked hs ha rfl rfl (.of_eq rfl) rfl
      (cargo_failEntry key outer ▸ trivial)
  case case13 | case26 =>
    exact .locked hs ha rfl rfl (.of_eq rfl) rfl hdated
  case case18 =>
    exact .locked hs ha rfl rfl (.of_eq rfl) rfl
      ⟨hdated, by simp, ⟨by simp, by simp⟩, by simp⟩
  case case22 | case23 =>
    exact .unlocked hs (.of_eq rfl) hs.queue rfl rfl trivial
  all_goals exact .locked hs ha rfl rfl (.of_eq rfl) rfl trivial

/-! ## Publication -/

/-- The verdict of a revalidation. -/
theorem clean_of_revalidation (hs : Fresh cpu.addressSpaceId s) (hdated : Dated s job.cursor)
    (hresults : Results job region) (h : revalidation cpu s job region = .ok false) :
    Clean cpu.addressSpaceId s region := by
  have hcursor : job.cursor ≤ s.log.latest := hdated.1.trans hs.cursor
  revert h
  fun_cases revalidation cpu s job region
  case case1 latest records hread =>
    obtain ⟨-, -, rfl⟩ := readSince_eq_ok hread
    intro h f hf
    refine ⟨fun i record hlow hhigh hi haffects ↦ ?_, fun loss hloss hle ↦ ?_⟩
    · have hfrom : job.cursor ≤ i := (hresults.cursor f hf).trans hlow
      have hrecord : record ∈ s.log.records.drop job.cursor := by
        refine mem_of_getElem? (i := i - job.cursor) ?_
        rw [List.getElem?_drop, Nat.add_sub_cancel' hfrom]
        exact hi
      have haffected := affectsPublished_of_affects hresults.captured hf (noted_summarize hrecord)
        haffects
      exact absurd (Except.ok.inj h) (by simp [haffected])
    · -- a job from before the loss would have been told that history is lost
      by_contra hbefore
      have hjob : job.cursor ≤ loss.1 := (hdated.2 loss hloss).resolve_right fun hafter ↦
        hbefore (hafter.trans (hresults.cursor f hf))
      have hold : job.cursor + 1 < s.log.oldest := by
        have := (hs.lost loss hloss).1
        omega
      rw [readSince_eq_historyLost.mpr ⟨hold, rfl, rfl, rfl⟩] at hread
      exact nomatch hread
  case case2 | case3 => exact nofun

/-- A result that was found clean enters the table. -/
theorem insert_refreshes (hs : Fresh addressSpace s)
    (ha : FreshAt addressSpace (.commitInsert job region) s)
    (htables : SameTables (s.insertRegion job.key region) s') (hhcq : s'.hcq = s.hcq)
    (hlog : s'.log = s.log) (hretiring : pc'.retiring = [])
    (hcarries : Carries addressSpace s' pc'.cargo)
    (hpublishes : s.regions[job.key]? = none → pc'.publishes job.key) :
    Refreshes addressSpace (.commitInsert job region) s pc' s' := by
  obtain ⟨-, hresults, hverified⟩ := ha.carries
  refine .of_regions hs rfl htables.cursor htables.lost hlog hhcq (fun k other hk ↦ ?_)
    (fun _ ↦ hretiring) hcarries fun k hnone ↦ ?_
  · rw [htables.regions] at hk
    obtain ⟨hfiled, hclean⟩ := regions_insertRegion hs (ha.clean rfl) hresults (hverified rfl) hk
    exact ⟨htables.filed hfiled, .inr hclean⟩
  · by_cases heq : k = job.key
    · exact .inr (heq ▸ hpublishes (heq ▸ hnone))
    · rw [htables.regions]
      exact .inl ((getElem?_insert_of_ne heq).trans hnone)

/-- An insertion is taken back, with the region that it replaced or without one. -/
theorem undo_refreshes {previous : Option PublishedRegion} (restored : Option PublishedRegion)
    (hs : Fresh addressSpace s) (ha : FreshAt addressSpace (.publishCheck job region previous) s)
    (hrestored : ∀ p, restored = some p → previous = some p) (hnothing : pc'.cargo = .nothing)
    (hretiring : pc'.retiring = []) :
    Refreshes addressSpace (.publishCheck job region previous) s pc'
      (s.restoreRegion job.key restored).unlock := by
  have hclean : ∀ k other, s.regions[k]? = some other →
      Filed s k other ∧ (k ∈ pc'.retiring ∨ Clean addressSpace s other) := fun k other hk ↦
    ⟨hs.filed k other hk, .inr ((ha.clean rfl k other hk).resolve_left nofun)⟩
  have hfiled : ∀ (k : RegionKey) (other : PublishedRegion) (regions), Filed s k other →
      Filed { s with regions, lock := none } k other :=
    fun k other _ h ↦ ⟨h.key, h.captured, h.dependencies⟩
  cases restored with
  | none =>
    refine .of_regions hs rfl rfl rfl rfl rfl (fun k other hk ↦ ?_) (fun _ ↦ hretiring)
      (hnothing ▸ trivial) fun _ hnone ↦ .inl (getElem?_erase_eq_none hnone)
    obtain ⟨-, hk⟩ := getElem?_erase_eq_some_iff.mp hk
    exact (hclean k other hk).imp_left (hfiled k other _)
  | some p =>
    refine .of_regions hs rfl rfl rfl rfl rfl (fun k other hk ↦ ?_) (fun _ ↦ hretiring)
      (hnothing ▸ trivial) fun k hnone ↦ .inl ((getElem?_insert_of_ne ?_).trans hnone)
    · rcases getElem?_insert_eq_some_iff.mp hk with ⟨rfl, rfl⟩ | ⟨-, hk⟩
      · obtain ⟨hp, hpclean⟩ := ha.carries.2 _ (hrestored _ rfl)
        exact ⟨hfiled _ _ _ hp, .inr hpclean⟩
      · exact (hclean k other hk).imp_left (hfiled k other _)
    · -- the region to be taken back stands in the table
      rintro rfl
      exact nomatch ha.carries.1.symm.trans hnone

theorem commitStep_refreshes (hs : Fresh cpu.addressSpaceId s)
    (ha : FreshAt cpu.addressSpaceId pc s)
    (h : commitStep cpu s pc choice = some (b, pc', s')) :
    Refreshes cpu.addressSpaceId pc s pc' s' := by
  have hsame : SameTables s s := .of_eq rfl
  have htables : SameTables s s.unlock := .of_eq rfl
  have hdated : Dated s s.invalidationCursor :=
    ⟨Nat.le_refl _, fun loss hloss ↦ .inr (hs.lost loss hloss).2⟩
  revert h
  fun_cases commitStep cpu s pc choice
  case case28 => simp
  all_goals rintro ⟨⟩
  case case1 | case3 | case13 =>
    exact .locked hs ha rfl rfl htables rfl (cargo_fail _ ▸ trivial)
  case case2 affected hrevalidation =>
    obtain ⟨hjob, hresults, -⟩ := ha.carries
    refine .locked hs ha rfl rfl hsame rfl ⟨hjob, hresults, fun hclean ↦ ?_⟩
    rw [Bool.not_eq_true'] at hclean
    exact clean_of_revalidation hs hjob hresults (hclean ▸ hrevalidation)
  case case4 | case6 | case9 => exact .locked hs ha rfl rfl htables rfl trivial
  case case5 | case12 => exact .locked hs ha rfl rfl hsame rfl ha.carries
  case case7 =>
    exact .locked hs ha rfl rfl htables rfl ⟨hdated, by simp, ⟨by simp, by simp⟩, by simp⟩
  case case8 haffected | case11 haffected =>
    obtain ⟨hjob, hresults, hverified⟩ := ha.carries
    exact .locked hs ha rfl rfl hsame rfl
      ⟨hjob, hresults, fun _ ↦ hverified (by simpa using haffected)⟩
  case case10 => exact .locked hs ha rfl rfl hsame rfl trivial
  case case14 hsome =>
    exact insert_refreshes hs ha (.of_eq rfl) rfl rfl rfl trivial
      fun hnone ↦ by cases hsome.symm.trans hnone
  case case15 =>
    exact insert_refreshes hs ha (.of_eq rfl) rfl rfl rfl
      ⟨ExtTreeMap.getElem?_insert_self, by simp⟩ fun _ ↦ ⟨rfl, rfl⟩
  case case16 request region =>
    refine insert_refreshes hs ha (.of_eq rfl) rfl rfl rfl
      ⟨ExtTreeMap.getElem?_insert_self, fun p hp ↦ ?_⟩ fun hnone ↦ ⟨rfl, hnone⟩
    exact ⟨(hs.filed _ p hp).insertRegion,
      ((ha.clean rfl _ p hp).resolve_left (by rintro ⟨⟩)).of_eq rfl rfl rfl⟩
  case case17 | case19 | case21 | case22 | case23 =>
    exact .locked hs ha rfl rfl (.of_eq rfl) rfl ⟨ha.carries.1, by simp⟩
  case case18 => exact undo_refreshes none hs ha (by simp) rfl rfl
  case case20 => exact undo_refreshes _ hs ha (fun _ hp ↦ hp) rfl rfl
  case case24 | case25 => exact .locked hs ha rfl rfl htables rfl hdated
  case case26 =>
    rw [restoreLcq_eq]
    exact .locked hs ha rfl rfl (.of_eq rfl) rfl trivial
  case case27 => exact .locked hs ha rfl rfl (.of_eq rfl) rfl trivial

end

/-! ## All steps -/

variable [DecidableEq ι] {cpu : ProcessCpuContext} {maxNativeCodeBytes : Nat} {t : ι} {pc pc' : Pc}
  {b : Answer} {choice : Choice}

/-- **Every step keeps the regions clean.** -/
theorem step_refreshes (hlock : s.lock = some t ↔ pc.critical = true)
    (hs : Fresh cpu.addressSpaceId s) (ha : FreshAt cpu.addressSpaceId pc s)
    (h : step cpu maxNativeCodeBytes t choice pc s = some (b, pc', s')) :
    Refreshes cpu.addressSpaceId pc s pc' s' := by
  rcases step_cases h with ⟨cursor, call, rfl, hc⟩ | ⟨job, region, nativeBytes, rfl, hc⟩ |
    h | h | h | h | h
  · exact callStep_refreshes hs ha hc
  · exact commitLockStep_refreshes hs ha hc
  · exact compileStep_refreshes hs ha h
  · exact commitStep_refreshes hs ha h
  · exact lookupStep_refreshes hlock hs ha h
  · exact notifyStep_refreshes hs ha h
  · exact queueStep_refreshes hs ha h

/-- The two invariants of the shared state, and what a thread knows for them. -/
abbrev Coherent (addressSpace : Nat) (c : Threads ι (JitProcess ι) Pc) : Prop :=
  c.Satisfies (fun s ↦ Sound s ∧ Fresh addressSpace s)
    fun t pc s ↦ Assertion t pc s ∧ FreshAt addressSpace pc s

omit [DecidableEq ι] in
theorem initialProcess_coherent (memory : InstructionMemory) (log : MemoryInvalidationLog) :
    Coherent addressSpace (initialProcess ι memory log) where
  shared := by
    refine ⟨(initialProcess_satisfies memory log).shared, Nat.zero_le _, ?_, ?_, by rintro _ ⟨⟩,
      by rintro _ ⟨⟩⟩
    · intro k region hk
      simp [initialProcess] at hk
    · intro _ k region hk
      simp [initialProcess] at hk
  locals t := ⟨(initialProcess_satisfies memory log).locals t, trivial, by rintro ⟨⟩⟩

theorem Coherent.step {d : Threads ι (JitProcess ι) Pc} {a : ι × Choice}
    (hc : Coherent cpu.addressSpaceId c)
    (h : processMachine cpu maxNativeCodeBytes c a = some (b, d)) :
    Coherent cpu.addressSpaceId d := by
  refine Threads.Satisfies.step ?_ ?_ hc h
  · intro t choice pc s b pc' s' hs ha h
    have hadvances := step_advances hs.1 ha.1 h
    have hrefreshes := step_refreshes ha.1.lock hs.2 ha.2 h
    exact ⟨⟨hadvances.sound, hrefreshes.fresh⟩, hadvances.assertion, hrefreshes.freshAt⟩
  · intro t choice pc s b pc' s' hs ha h u m hu hm
    exact ⟨hm.1.of_interference ((step_advances hs.1 ha.1 h).interference u hu),
      hm.2.of_refreshes hs.2 ha.1.lock hm.1.lock hu (step_refreshes ha.1.lock hs.2 ha.2 h)⟩

/-- Every state that is reached is coherent. -/
theorem run_coherent {es : List ((ι × Choice) × Answer)}
    (hrun : (processMachine cpu maxNativeCodeBytes).Run (initialProcess ι memory log) es c) :
    Coherent cpu.addressSpaceId c :=
  hrun.invariant (fun _ _ _ _ hc h ↦ hc.step h) (initialProcess_coherent memory log)

end Nixe.Jit
