import Nixe.Jit.CoherenceStep

/-!
# Publication and invalidation of native code

The results about whole runs of a compilation process, for any number of threads, any order of
their steps and any changes of guest memory. A node shows the code of its region, and nothing else,
whenever the process lock is free. An entry that is handed out with a cursor was compiled from words
that nothing up to the cursor is about, and after a region was taken out no entry for its key is
handed out before another one was published.
-/

namespace Nixe.Jit

open Std Memory List Option

variable {ι : Type} [DecidableEq ι] {cpu : ProcessCpuContext} {maxNativeCodeBytes : Nat}
  {memory : InstructionMemory} {log : MemoryInvalidationLog}

/-! ## Nodes and regions -/

section

variable {s : JitProcess ι} {k : RegionKey}

omit [DecidableEq ι] in
theorem Linked.mem_iff_entry (h : Linked s k) : (s.node k).entry ≠ 0 ↔ k ∈ s.regions := by
  rw [Linked] at h
  rw [ExtTreeMap.mem_iff_isSome_getElem?]
  cases hk : s.regions[k]? with
  | none =>
    rw [hk] at h
    simp [h.1]
  | some region =>
    rw [hk] at h
    simp [h.1, region.entry_ne_zero]

omit [DecidableEq ι] in
theorem Linked.mem_iff_state (h : Linked s k) :
    k ∈ s.regions ↔ (s.node k).state = .lcq ∨ (s.node k).state = .hcqQueued ∨
      (s.node k).state = .hcq := by
  have hpublished : (s.node k).state.published = true ↔ k ∈ s.regions := by
    rw [Linked] at h
    rw [ExtTreeMap.mem_iff_isSome_getElem?]
    cases hk : s.regions[k]? with
    | none =>
      rw [hk] at h
      simp [h.2]
    | some region =>
      rw [hk] at h
      simp [h.2]
  rw [← hpublished]
  cases (s.node k).state <;> simp [EntryState.published]

end

/-- Every word is the same, on one code page that fills the address space. -/
def uniformMemory : InstructionMemory where
  fetch32 _ := .ok ⟨0xd503201f, ⟨0, 0⟩, none⟩
  codePageSpan _ := .ok ⟨0, none⟩
  contains_of_codePageSpan address span h := by
    obtain rfl := Except.ok.inj h
    exact CodePageSpan.contains_iff.mpr ⟨Nat.zero_le _, address.isLt⟩
  codePageSpan_of_fetch32 _ _ _ := ⟨_, rfl⟩

def nopContext : ProcessCpuContext where
  addressSpaceId := 0
  decode _ := .decoded (.control .nop)
  systemInstructionSupported _ := true

/-- The steps of a first compilation up to the release of the lock. -/
def compileSteps : List (Bool × Choice) :=
  (true, .call (.entryFor 0)) :: List.replicate 7 (true, .go) ++
    (true, .fetch 0) :: List.replicate 2 (true, .go) ++
    (true, .compiled (.ok ⟨16, 4, by decide⟩)) :: List.replicate 6 (true, .go) ++
    (true, .registered none) :: List.replicate 4 (true, .go)

section

variable {s s' : JitProcess ι} {t : ι} {pc pc' : Pc} {b : Answer} {choice : Choice}
  {key : RegionKey} {entry cursor : Nat}

/-- The places at which an entry is handed out. -/
def Pc.handsOut (key : RegionKey) : Pc → Prop
  | entryLoad k _ => k = key
  | lookupLoad k => k = key
  | publishUnlock job _ => job.key = key
  | _ => False

theorem failEntry_ne_entry {k : RegionKey} {outer : List Nat} {e : DirectJitError} :
    (failEntry k outer e).1 ≠ .entry key entry cursor := by
  cases outer <;> exact nofun

theorem lookupStep_entry (ha : Assertion t pc s)
    (h : lookupStep cpu t s pc choice = some (.entry key entry cursor, pc', s')) :
    pc.handsOut key ∧ pc.critical = true ∧ cursor = s.invalidationCursor ∧
      ∃ region, s.regions[key]? = some region ∧ region.entry = entry := by
  revert h
  fun_cases lookupStep cpu t s pc choice
  case case13 hentry | case26 hentry =>
    rintro ⟨⟩
    have hlinked := ha.middle rfl key
    rw [Linked] at hlinked
    split at hlinked
    · exact ⟨rfl, rfl, rfl, _, ‹_›, hlinked.1.symm⟩
    · exact absurd hlinked.1 hentry
  case case1 | case2 =>
    rw [acquire]
    split_ifs <;> simp
  case case3 resume =>
    fun_cases reconcileStep cpu s resume
    case case1 | case2 => simp
    case case3 =>
      refine fun h ↦ absurd (congrArg Prod.fst (Option.some.inj h)) ?_
      cases resume with
      | entryFor => exact failEntry_ne_entry
      | _ => rintro ⟨⟩
  case case4 resume => cases resume <;> rintro ⟨⟩
  case case11 | case17 =>
    exact fun h ↦ absurd (congrArg Prod.fst (Option.some.inj h)) failEntry_ne_entry
  all_goals simp

/-- An entry is handed out under the lock, and it is that of the region. -/
theorem step_entry (ha : Assertion t pc s) (hf : FreshAt cpu.addressSpaceId pc s)
    (h : step cpu maxNativeCodeBytes t choice pc s = some (.entry key entry cursor, pc', s')) :
    pc.handsOut key ∧ pc.critical = true ∧ cursor = s.invalidationCursor ∧
      ∃ region, s.regions[key]? = some region ∧ region.entry = entry := by
  rcases step_cases h with ⟨c, call, rfl, hc⟩ | ⟨job, region, nativeBytes, rfl, hc⟩ |
    h | h | h | h | h
  · cases call with
    | requestHcq k =>
      obtain ⟨c, -, hc⟩ := map_eq_some_iff.mp hc
      cases hc
    | startHcqWorkers =>
      rw [callStep] at hc
      split_ifs at hc <;> cases hc
    | _ => cases hc
  · revert hc
    fun_cases commitLockStep maxNativeCodeBytes t s job region nativeBytes <;> simp
  · revert h
    fun_cases compileStep cpu s pc choice <;> simp
  · revert h
    fun_cases commitStep cpu s pc choice
    case case24 region =>
      rintro ⟨⟩
      exact ⟨rfl, rfl, rfl, region, hf.carries.1, rfl⟩
    all_goals simp
  · exact lookupStep_entry ha h
  · revert h
    fun_cases notifyStep t s pc choice
    case case7 => exact fun h ↦ absurd (congrArg Prod.fst (Option.some.inj h)) failEntry_ne_entry
    case case11 =>
      rw [acquire]
      split_ifs <;> simp
    all_goals simp
  · revert h
    fun_cases queueStep t s pc choice
    case case2 =>
      intro h
      obtain ⟨c, -, hc⟩ := map_eq_some_iff.mp h
      cases hc
    case case9 | case13 =>
      rw [acquire]
      split_ifs <;> simp
    all_goals simp

/-! ## Keys without a region -/

/-- A publication goes on, is taken back or ends. -/
theorem step_publishes (hpc : pc.publishes key)
    (h : step cpu maxNativeCodeBytes t choice pc s = some (b, pc', s')) :
    pc'.publishes key ∨ s'.regions[key]? = none ∨
      ∃ p, s'.publications = s.publications ++ [p] ∧ p.key = key := by
  cases choice with
  | go =>
    cases pc with
    | publishCheck job region previous =>
      obtain ⟨rfl, rfl⟩ := hpc
      cases job <;>
      · simp only [step, compileStep, commitStep, orElse_eq_orElse, orElse_eq_or, none_or] at h
        split_ifs at h <;> cases h
        · exact .inl rfl
        · exact .inr (.inl ExtTreeMap.getElem?_erase_self)
    | publishEntry job region previous =>
      cases h
      exact .inl hpc
    | publishState job region previous =>
      cases job <;> cases h <;> exact .inr (.inr ⟨_, rfl, hpc⟩)
    | _ => exact hpc.elim
  | _ =>
    cases pc with
    | publishCheck job | publishEntry job | publishState job => cases job <;> cases h
    | _ => exact hpc.elim

end

/-! ## Runs -/

/-- `key` was published since the first `n` publications, or it has no region, or the thread that
puts one in is still at work. -/
def Unreturned (key : RegionKey) (n : Nat) (c : Threads ι (JitProcess ι) Pc) : Prop :=
  (∃ p ∈ c.shared.publications.drop n, p.key = key) ∨
    c.shared.regions[key]? = none ∨
    ∃ t, (c.locals t).publishes key

theorem critical_of_publishes {pc : Pc} {key : RegionKey} (h : pc.publishes key) :
    pc.critical = true := by
  cases pc with
  | publishCheck | publishEntry | publishState => rfl
  | _ => exact h.elim

theorem not_publishes_of_handsOut {pc : Pc} {k key : RegionKey} (h : pc.handsOut k) :
    ¬pc.publishes key := by
  cases pc with
  | entryLoad | lookupLoad | publishUnlock => exact id
  | _ => exact h.elim

section

variable {c d : Threads ι (JitProcess ι) Pc} {a : ι × Choice} {b : Answer} {key : RegionKey}
  {n : Nat}

theorem Unreturned.step (hc : Coherent cpu.addressSpaceId c)
    (hn : n ≤ c.shared.publications.length) (hu : Unreturned key n c)
    (h : processMachine cpu maxNativeCodeBytes c a = some (b, d)) :
    n ≤ d.shared.publications.length ∧ Unreturned key n d := by
  obtain ⟨t, choice⟩ := a
  obtain ⟨pc', s', hstep, rfl⟩ := ThreadStep.machine_eq_some_iff.mp h
  have hlock := (hc.locals t).1.lock
  obtain ⟨new, hnew⟩ := (step_advances hc.shared.1 (hc.locals t).1 hstep).publications
  have hfirst : s'.publications.drop n = c.shared.publications.drop n ++ new := by
    rw [← hnew, drop_append_of_le_length hn]
  refine ⟨hn.trans (hnew ▸ by simp), ?_⟩
  have hmove : ∀ {k : RegionKey}, pc'.publishes k →
      ∃ u, (Function.update c.locals t pc' u).publishes k :=
    fun h ↦ ⟨t, by rwa [Function.update_self]⟩
  rcases hu with ⟨p, hp, hkey⟩ | hnone | ⟨u, hpublishes⟩
  · exact .inl ⟨p, hfirst ▸ mem_append_left _ hp, hkey⟩
  · rcases (step_refreshes hlock hc.shared.2 (hc.locals t).2 hstep).unpublished key hnone with
      hnone | hpublishes
    · exact .inr (.inl hnone)
    · exact .inr (.inr (hmove hpublishes))
  · by_cases heq : u = t
    · subst heq
      rcases step_publishes hpublishes hstep with hpublishes | hnone | ⟨p, hp, hkey⟩
      · exact .inr (.inr (hmove hpublishes))
      · exact .inr (.inl hnone)
      · refine .inl ⟨p, ?_, hkey⟩
        rw [hp, drop_append_of_le_length hn]
        exact mem_append_right _ (mem_singleton_self p)
    · refine .inr (.inr ⟨u, ?_⟩)
      simpa only [Function.update_of_ne heq] using hpublishes

/-- A step that hands out an entry comes after a publication. -/
theorem Unreturned.of_entry {entry cursor : Nat} (hc : Coherent cpu.addressSpaceId c)
    (hu : Unreturned key n c)
    (h : processMachine cpu maxNativeCodeBytes c a = some (.entry key entry cursor, d)) :
    ∃ p ∈ c.shared.publications.drop n, p.key = key := by
  obtain ⟨t, choice⟩ := a
  obtain ⟨pc', s', hstep, rfl⟩ := ThreadStep.machine_eq_some_iff.mp h
  obtain ⟨hhands, hcritical, -, region, hregion, -⟩ :=
    step_entry (hc.locals t).1 (hc.locals t).2 hstep
  rcases hu with hpublished | hnone | ⟨u, hpublishes⟩
  · exact hpublished
  · rw [hnone] at hregion
    exact nomatch hregion
  · -- both threads hold the lock
    have hu := (hc.locals u).1.lock.mpr (critical_of_publishes hpublishes)
    have ht := (hc.locals t).1.lock.mpr hcritical
    cases ht.symm.trans hu
    exact absurd hpublishes (not_publishes_of_handsOut hhands)

/-- **Coherence of the code cache.** An entry that is handed out with a cursor is that of a region
all of whose words are current at the cursor. Once the table holds no region for a key, no entry is
handed out for it before a region was published again. -/
theorem handout_coherent {es : List ((ι × Choice) × Answer)}
    (hrun : (processMachine cpu maxNativeCodeBytes).Run (initialProcess ι memory log) es c) :
    (∀ a key entry cursor d,
      processMachine cpu maxNativeCodeBytes c a = some (.entry key entry cursor, d) →
      ∃ region, c.shared.regions[key]? = some region ∧ region.key = key ∧
        region.entry = entry ∧
        ∀ f ∈ region.fetches, Current cpu.addressSpaceId c.shared cursor f) ∧
    ∀ key, c.shared.regions[key]? = none →
      ∀ es' d a entry cursor d', (processMachine cpu maxNativeCodeBytes).Run c es' d →
        processMachine cpu maxNativeCodeBytes d a = some (.entry key entry cursor, d') →
        ∃ p ∈ d.shared.publications.drop c.shared.publications.length, p.key = key := by
  have hc := run_coherent hrun
  refine ⟨fun a key entry cursor d h ↦ ?_, fun key hnone es' d a entry cursor d' hrun' h ↦ ?_⟩
  · obtain ⟨t, choice⟩ := a
    obtain ⟨pc', s', hstep, rfl⟩ := ThreadStep.machine_eq_some_iff.mp h
    obtain ⟨hhands, hcritical, rfl, region, hregion, hentry⟩ :=
      step_entry (hc.locals t).1 (hc.locals t).2 hstep
    refine ⟨region, hregion, (hc.shared.2.filed key region hregion).key, hentry, ?_⟩
    have hretiring : (c.locals t).retiring = [] := by
      cases hpc : c.locals t with
      | entryLoad | lookupLoad | publishUnlock => rfl
      | _ =>
        rw [hpc] at hhands
        exact hhands.elim
    have hclean := (hc.locals t).2.clean hcritical key region hregion
    rw [hretiring] at hclean
    exact hclean.resolve_left nofun
  · have hinvariant := hrun'.invariant
      (I := fun d ↦ Coherent cpu.addressSpaceId d ∧
        c.shared.publications.length ≤ d.shared.publications.length ∧
        Unreturned key c.shared.publications.length d)
      (fun _ _ _ _ hI h ↦ ⟨hI.1.step h, hI.2.2.step hI.1 hI.2.1 h⟩)
      ⟨hc, Nat.le_refl _, .inr (.inl hnone)⟩
    exact hinvariant.2.2.of_entry hinvariant.1 h

end

/-- The page of the region changes, and a lookup finds that out. -/
def invalidateSteps : List (Bool × Choice) :=
  [(true, .call (.changeMemory uniformMemory [.executableContent 0 none])),
    (true, .call (.publishedEntryFor 0)), (true, .go), (true, .go), (true, .retire 0)] ++
    List.replicate 6 (true, .go)

/-- The compiled region is handed out, invalidated, compiled again and handed out again. -/
theorem handout_coherent_recompiled :
    ∃ es c es' d d', (processMachine nopContext 64).Run
        (initialProcess Bool uniformMemory {}) es c ∧
      c.shared.regions[(0 : RegionKey)]? = none ∧
      (processMachine nopContext 64).Run c es' d ∧
      processMachine nopContext 64 d (true, .go) = some (.entry 0 16 1, d') ∧
      (∃ region, d.shared.regions[(0 : RegionKey)]? = some region ∧
        ∀ f ∈ region.fetches, Current 0 d.shared 1 f) ∧
      ∃ p ∈ d.shared.publications.drop c.shared.publications.length, p.key = 0 := by
  have hexec : ∃ r ∈ (processMachine nopContext 64).exec (initialProcess Bool uniformMemory {})
      (compileSteps ++ List.replicate 2 (true, .go) ++ invalidateSteps),
        r.2.shared.regions[(0 : RegionKey)]? = none ∧
          ∃ q ∈ (processMachine nopContext 64).exec r.2 compileSteps,
            ∃ p ∈ processMachine nopContext 64 q.2 (true, .go), p.1 = .entry 0 16 1 := by
    decide +kernel
  obtain ⟨es, c, hrun, -, hnone', hexec'⟩ := Machine.exists_run_of_exec hexec
  obtain ⟨es', d, hrun', -, ⟨_, d'⟩, hentry, rfl⟩ := Machine.exists_run_of_exec hexec'
  obtain ⟨region, hregion, -, -, hcurrent⟩ :=
    (handout_coherent (Machine.Run.append_iff.mpr ⟨c, hrun, hrun'⟩)).1 _ _ _ _ _ hentry
  exact ⟨es, c, es', d, d', hrun, hnone', hrun', hentry, ⟨region, hregion, hcurrent⟩,
    (handout_coherent hrun).2 0 hnone' _ _ _ _ _ _ hrun' hentry⟩

end Nixe.Jit
