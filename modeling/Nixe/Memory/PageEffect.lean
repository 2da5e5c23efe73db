import Nixe.Memory.BackingStep

/-!
# The effect of every page operation

For each operation on a page, how it ends and what state it leaves. A CPU write (`Wrote`) first
takes the page to a state in which the CPU has the authority and the write is counted, and only
then stores its bytes; arming (`Armed`) changes nothing but the protection of the aliases; a device
write (`Published`) moves the authority and no bytes; the rest yield. In every case the page
evolves, `PageOperation.evolves`.
-/

namespace Nixe.Memory

open Std Method CanonicalBackingPage

variable {host : HostAnswers} {lossy : Prop} {p q r : CanonicalBackingPage}

theorem yields_of_lost (h : SameBytes p q ∧ q.Lost) : Yields host lossy p q :=
  h.1.yields (.inr (.inl h.2))

/-! ## CPU accesses -/

section

/-- The state in which the CPU stores bytes: it has the authority and the write is counted. -/
structure Writable (p : CanonicalBackingPage) : Prop where
  visibility : p.visibility = .cpuNewer
  disarmed : p.cpuDirtyObserverArmed = false
  allocated : p.backing.isSome = true

/-- A CPU write: the page gets into a state in which it is writable, and `bytes` are stored. -/
def Wrote (host : HostAnswers) (lossy : Prop) (offset : Nat) (bytes : List UInt8)
    (p q : CanonicalBackingPage) : Prop :=
  ∃ r generation, Yields host lossy p r ∧ Writable r ∧ r.generation ≤ generation ∧
    q = { r.stored offset bytes with generation := generation }

theorem requireCpuAuthority_spec :
    wp (requireCpuAuthority host)
      ⟨fun _ q ↦ q = p ∧ p.visibility.CpuVisible, fun _ q ↦ SameBytes p q ∧ q.Lost, False⟩ p := by
  simp only [requireCpuAuthority, wp_rules]
  split
  · rename_i h
    exact ⟨rfl, h ▸ trivial⟩
  · rename_i h
    exact ⟨rfl, h ▸ trivial⟩
  · exact wp_of_ok (publishLost_spec (.inl rfl) _) (fun _ _ h ↦ h.elim)
  · exact wp_of_ok (publishLost_spec (.inl rfl) _) (fun _ _ h ↦ h.elim)
  · rename_i h
    exact ⟨.refl p, .inr h⟩

theorem prepareCpuAccess_spec :
    wp (prepareCpuAccess host)
      ⟨fun _ q ↦ Settles host p q ∧ q.visibility.CpuVisible ∧ (p.visibility.CpuVisible → q = p),
        fun _ q ↦ Settles host p q, False⟩ p := by
  rw [prepareCpuAccess, wp_mapErr]
  exact wp_of_ok ensureCpuVisible_spec (fun _ _ h ↦ h)

/-- The authority is taken of a page with its host memory allocated. -/
theorem takeCpuAuthority_spec (lossy : Prop) (hallocated : p.backing.isSome = true) :
    wp (takeCpuAuthority host)
      ⟨fun _ q ↦ Yields host lossy p q ∧ p.visibility.CpuVisible ∧ Writable q ∧
          q.generation = p.generation,
        fun _ q ↦ Yields host lossy p q, False⟩ p := by
  -- What is left to do once the page is in the state `cpuNewer`.
  have hcount : ∀ r, SameBytes p r → r.visibility = .cpuNewer → p.visibility.CpuVisible →
      wp (publishCpuDirty host) ⟨fun _ q ↦ Yields host lossy p q ∧ p.visibility.CpuVisible ∧
        Writable q ∧ q.generation = p.generation, fun _ q ↦ Yields host lossy p q, False⟩ r := by
    intro r hr hnewer hvisible
    have hpr : Yields host lossy p r := hr.yields (.inr (.inr ⟨hvisible, hnewer ▸ trivial⟩))
    refine wp_of_wp publishCpuDirty_counted ?_ ?_
    · intro _ q hq
      refine ⟨hpr.trans hq.yields, hvisible, ⟨hq.visibility.trans hnewer, hq.disarmed, ?_⟩,
        hq.generation.trans hr.generation⟩
      rw [hq.backing]
      exact hr.allocated hallocated
    · rintro _ q (hq | ⟨hq, hlost, -, -⟩)
      · exact hpr.trans hq.yields
      · exact hpr.trans (yields_of_lost ⟨hq, hlost⟩)
  simp only [takeCpuAuthority, wp_rules, wp_ite]
  refine wp_of_wp requireCpuAuthority_spec ?_ (fun _ _ ↦ yields_of_lost)
  rintro _ q ⟨rfl, hvisible⟩
  refine ⟨fun _ ↦ ?_, fun hclean ↦ hcount q (.refl q) ?_ hvisible⟩
  · refine wp_of_wp (publishVisibility_sameBytes .cpuNewer) ?_ (fun _ _ ↦ yields_of_lost)
    rintro _ r ⟨hr, hnewer⟩
    exact hcount r hr hnewer hvisible
  · cases hv : q.visibility <;> simp_all [PageVisibility.CpuVisible]

/-- The start of the operations that need the newest bytes in host memory. -/
theorem wp_prepared {α : Type} {m : PageM α} {Q : Post CanonicalPageError CanonicalBackingPage α}
    (hm : ∀ q : CanonicalBackingPage, q.visibility.CpuVisible →
      Yields host p.Exhausted p q.materialized → wp m Q q.materialized)
    (herr : ∀ e q, Yields host p.Exhausted p q → Q.err e q) :
    wp (do prepareCpuAccess host; ensureBacking host; m) Q p := by
  simp only [wp_bind]
  refine wp_of_wp prepareCpuAccess_spec ?_ (fun _ _ h ↦ herr _ _ h.toYields)
  rintro _ q ⟨hq, hvisible, -⟩
  refine wp_of_wp ensureBacking_spec ?_ (fun _ r h ↦ herr _ _ (h.1 ▸ hq.toYields))
  rintro _ r rfl
  exact hm q hvisible (hq.toYields.trans (sameBytes_materialized.yields (.inl rfl)))

theorem prepareWrite_spec :
    wp (prepareWrite host) (.leaves (Yields host p.Exhausted p)) p := by
  refine wp_prepared (fun q _ hq ↦ ?_) fun _ _ ↦ id
  rw [wp_mapErr]
  exact wp_of_wp requireCpuAuthority_spec (fun _ r h ↦ h.1 ▸ hq)
    (fun _ _ h ↦ hq.trans (yields_of_lost h))

theorem prepareCpuWrite_spec :
    wp (prepareCpuWrite host)
      ⟨fun _ q ↦ Yields host p.Exhausted p q ∧ Writable q, fun _ q ↦ Yields host p.Exhausted p q,
        False⟩ p := by
  refine wp_prepared (fun q _ hq ↦ ?_) fun _ _ ↦ id
  refine wp_of_wp (takeCpuAuthority_spec p.Exhausted rfl) ?_ (fun _ _ ↦ hq.trans)
  rintro _ r ⟨hr, -, hwritable, -⟩
  exact ⟨hq.trans hr, hwritable⟩

/-! ### Stores -/

variable {offset : Nat} {bytes : List UInt8}

/-- Bytes are stored in a page whose observer is not armed, so that no epoch is bypassed. -/
theorem Wrote.evolves (h : Wrote host lossy offset bytes p q) : Evolves lossy p q := by
  obtain ⟨r, generation, hr, hwritable, hgeneration, rfl⟩ := h
  refine hr.toEvolves.trans ⟨rfl, hgeneration, le_rfl, id, id, fun harmed _ ↦ ?_⟩
  exact absurd (hwritable.disarmed.symm.trans harmed) (by simp)

theorem Wrote.newest_eq (h : Wrote host lossy offset bytes p q) :
    ∃ c, p.newest host = some c ∧ q.newest host = some (overwrite c offset bytes) ∧
      q.visibility = .cpuNewer := by
  obtain ⟨r, generation, hr, hwritable, -, rfl⟩ := h
  have hvisible : r.visibility.CpuVisible := hwritable.visibility ▸ trivial
  exact ⟨r.contents, hr.newest _ (newest_of_visible hvisible), newest_of_visible hvisible,
    hwritable.visibility⟩

theorem writeCpuPrepared_spec (hwritable : Writable p) :
    wp (writeCpuPrepared offset bytes)
      ⟨fun _ q ↦ q = p.stored offset bytes, fun _ q ↦ q = p, False⟩ p := by
  simp only [writeCpuPrepared, checkedEnd, wp_rules]
  refine ⟨fun _ ↦ trivial, fun _ ↦ ⟨fun _ ↦ trivial, fun _ ↦ ?_⟩⟩
  exact wp_of_ok (copyBytes_spec hwritable.allocated) (fun _ _ h ↦ h)

theorem writePreflighted_spec {expected next : Nat} :
    wp (writePreflighted host offset bytes expected next)
      ⟨fun _ q ↦ Wrote host lossy offset bytes p q ∧ p.visibility.CpuVisible,
        fun _ q ↦ Yields host lossy p q, False⟩ p := by
  simp only [writePreflighted, checkedEnd, wp_rules]
  refine ⟨fun _ ↦ .refl p, fun _ ↦ wp_of_wp ensureBacking_spec ?_ (fun _ q h ↦ h.1 ▸ .refl q)⟩
  rintro _ q rfl
  have hfirst : Yields host lossy p p.materialized := sameBytes_materialized.yields (.inl rfl)
  refine ⟨fun _ ↦ hfirst, fun hnext ↦ ?_⟩
  refine wp_of_wp (takeCpuAuthority_spec lossy rfl) ?_ (fun _ r hr ↦ hfirst.trans hr)
  rintro _ r ⟨hr, hvisible, hwritable, -⟩
  refine ⟨fun _ ↦ hfirst.trans hr, fun hobserved ↦ ?_⟩
  refine wp_of_ok (copyBytes_spec hwritable.allocated) ?_
  rintro _ s rfl
  obtain ⟨-, rfl⟩ := checkedAdd_eq_some_iff.mp (Classical.not_not.mp hnext)
  refine ⟨⟨r, expected + 1, hfirst.trans hr, hwritable, ?_, rfl⟩, hvisible⟩
  rw [Classical.not_not.mp hobserved]
  exact Nat.le_succ expected

theorem writeFragmentPreflighted_spec {generation : Nat} :
    wp (writeFragmentPreflighted host offset bytes generation)
      ⟨fun _ q ↦ Wrote host lossy offset bytes p q ∧ p.visibility.CpuVisible,
        fun _ q ↦ Yields host lossy p q, False⟩ p := by
  simp only [writeFragmentPreflighted, checkedEnd, wp_rules]
  refine ⟨fun _ ↦ .refl p, fun _ ↦ wp_of_wp ensureBacking_spec ?_ (fun _ q h ↦ h.1 ▸ .refl q)⟩
  rintro _ q rfl
  have hfirst : Yields host lossy p p.materialized := sameBytes_materialized.yields (.inl rfl)
  refine wp_of_wp (takeCpuAuthority_spec lossy rfl) ?_ (fun _ r hr ↦ hfirst.trans hr)
  rintro _ r ⟨hr, hvisible, hwritable, -⟩
  refine ⟨fun _ ↦ hfirst.trans hr, fun hobserved ↦ ?_⟩
  refine wp_of_ok (copyBytes_spec hwritable.allocated) ?_
  rintro _ s rfl
  exact ⟨⟨r, r.generation, hfirst.trans hr, hwritable, le_rfl, rfl⟩, hvisible⟩

theorem atomicCompareExchange_spec {size expected replacement : Nat} :
    wp (atomicCompareExchange host offset size expected replacement)
      ⟨fun reply q ↦ Wrote host p.Exhausted offset
          (if reply.2 then toLittleEndian size replacement else []) p q ∧
          ∃ c, p.newest host = some c ∧ reply.1 = fromLittleEndian (slice c offset size),
        fun _ q ↦ Yields host p.Exhausted p q, False⟩ p := by
  simp only [atomicCompareExchange, checkedEnd, wp_rules, wp_ite]
  refine ⟨fun _ ↦ .refl p, fun _ ↦ wp_of_ok prepareCpuWrite_spec ?_⟩
  rintro _ r ⟨hr, hwritable⟩
  have hnewest := hr.newest _ (newest_of_visible (hwritable.visibility ▸ trivial))
  refine ⟨fun _ _ ↦ ⟨fun _ ↦ ?_, fun _ ↦ ?_⟩, fun _ _ ↦ hr⟩
  · refine wp_of_ok (copyBytes_spec hwritable.allocated) ?_
    rintro _ s rfl
    exact ⟨⟨r, r.generation, hr, hwritable, le_rfl, rfl⟩, r.contents, hnewest, rfl⟩
  · refine ⟨⟨r, r.generation, hr, hwritable, le_rfl, ?_⟩, r.contents, hnewest, rfl⟩
    exact (stored_nil hwritable.allocated).symm

theorem writeCpu_spec :
    wp (writeCpu host offset bytes)
      ⟨fun _ q ↦ Wrote host p.Exhausted offset bytes p q, fun _ q ↦ Yields host p.Exhausted p q,
        False⟩ p := by
  simp only [writeCpu, wp_bind]
  refine wp_of_ok prepareCpuWrite_spec ?_
  rintro _ r ⟨hr, hwritable⟩
  refine wp_of_wp (writeCpuPrepared_spec hwritable) ?_ ?_
  · rintro _ q rfl
    exact ⟨r, r.generation, hr, hwritable, le_rfl, rfl⟩
  · rintro _ q rfl
    exact hr

/-! ### Loads -/

variable {count : Nat}

theorem readBytes_spec :
    wp (readBytes host offset count)
      ⟨fun reply q ↦ Yields host p.Exhausted p q ∧
          ∃ c, q.newest host = some c ∧ reply = slice c offset count,
        fun _ q ↦ Yields host p.Exhausted p q, False⟩ p := by
  simp only [readBytes, checkedEnd, wp_rules]
  refine ⟨fun _ ↦ .refl p, fun _ ↦ wp_of_wp prepareCpuAccess_spec ?_ (fun _ _ h ↦ h.toYields)⟩
  rintro _ q ⟨hq, hvisible, -⟩
  exact ⟨hq.toYields, q.contents, newest_of_visible hvisible, rfl⟩

theorem atomicLoad_spec {size : Nat} :
    wp (atomicLoad host offset size)
      ⟨fun reply q ↦ Yields host p.Exhausted p q ∧
          ∃ c, q.newest host = some c ∧ reply = fromLittleEndian (slice c offset size),
        fun _ q ↦ Yields host p.Exhausted p q, False⟩ p := by
  rw [atomicLoad, checkedEnd, wp_bind, wp_bind, wp_read]
  refine wp_failIf .. |>.mpr ?_
  refine ⟨fun _ ↦ .refl p, fun _ ↦ wp_prepared (fun q hvisible hq ↦ ?_) fun _ _ ↦ id⟩
  simp only [wp_rules]
  exact ⟨fun _ _ ↦ ⟨hq, q.contents, newest_of_visible hvisible, rfl⟩, fun _ _ ↦ hq⟩

end

/-! ## Arming -/

/-- The page with its observer armed: what is compared with later states. -/
structure Armed (p q : CanonicalBackingPage) : Prop where
  identity : q.identity = p.identity
  size : q.size = p.size
  contents : q.contents = p.contents
  generation : q.generation = p.generation
  dirtyEpoch : q.cpuDirtyEpoch = p.cpuDirtyEpoch
  visibility : q.visibility = p.visibility
  visibilityEpoch : q.visibilityEpoch = p.visibilityEpoch
  armed : q.cpuDirtyObserverArmed = true
  observed : p.Observed → q.Observed

theorem Armed.evolves (h : Armed p q) : Evolves lossy p q where
  __ := h
  generation_le := h.generation.ge
  dirtyEpoch_le := h.dirtyEpoch.ge
  lost := (lost_congr h.visibility).mpr
  unchanged _ _ := ⟨h.armed, .inl h.contents⟩

theorem Armed.yields (h : Armed p q) : Yields host lossy p q where
  toEvolves := h.evolves
  identity := h.identity
  newest c hc := by
    rwa [CanonicalBackingPage.newest, h.visibility, h.contents, h.identity, h.size] at hc

theorem Armed.tracks (h : Armed p q) : Tracks lossy q.cpuDirtyEpoch q.contents q :=
  ⟨le_rfl, fun _ ↦ ⟨h.armed, .inl rfl⟩⟩

theorem armObserver_spec :
    wp (armObserver host)
      ⟨fun _ q ↦ Armed p q,
        fun _ q ↦ SameBytes p q ∧ q.visibility = p.visibility ∧ p.Refused host, False⟩ p := by
  simp only [armObserver, wp_rules, wp_ite, wp_onErr]
  refine ⟨fun harmed ↦ ⟨rfl, rfl, rfl, rfl, rfl, rfl, rfl, harmed, id⟩, fun hdisarmed ↦ ?_⟩
  refine wp_of_wp publishDirectAliasProtection_spec ?_ ?_
  · rintro _ q ⟨hrefused, rfl⟩
    refine ⟨rfl, rfl, rfl, rfl, rfl, rfl, rfl, rfl, fun _ _ key a ha ↦ ?_⟩
    -- Every alias was protected, and none of them for writing.
    rw [shownAs, getElem?_protectAliases, Option.map_eq_some_iff] at ha
    obtain ⟨a', ha', rfl⟩ := ha
    rw [if_pos (protects_of_not_refused hrefused ha'), Bool.not_true, Bool.and_false]
    exact aliasProtection_ne_readWrite _ a'
  · rintro _ q ⟨hrefused, rfl⟩
    refine ⟨⟨rfl, rfl, rfl, id, rfl, rfl, (Bool.eq_false_iff.mpr hdisarmed).symm, ?_⟩, rfl,
      hrefused⟩
    rintro _ ⟨⟩

/-- A page is armed unless the host refuses or the page is lost. -/
theorem armCpuDirtyObserverQuiescent_spec :
    wp (armCpuDirtyObserverQuiescent host)
      ⟨fun epoch q ↦ Armed p q ∧ epoch = q.cpuDirtyEpoch,
        fun _ q ↦ SameBytes p q ∧ q.visibility = p.visibility ∧ (host.Complies → p.Lost),
        False⟩ p := by
  simp only [armCpuDirtyObserverQuiescent, wp_rules]
  refine wp_of_wp ensureBacking_spec ?_ ?_
  · rintro _ q rfl
    dsimp only
    split
    · rename_i h
      exact ⟨sameBytes_materialized, rfl, fun _ ↦ .inl h⟩
    · rename_i h
      exact ⟨sameBytes_materialized, rfl, fun _ ↦ .inr h⟩
    · simp only [wp_rules, and_true]
      refine wp_of_wp armObserver_spec ?_ ?_
      · intro _ q hq
        exact ⟨hq.identity, hq.size, hq.contents, hq.generation, hq.dirtyEpoch, hq.visibility,
          hq.visibilityEpoch, hq.armed, hq.observed⟩
      · rintro _ q ⟨hq, hv, hrefused⟩
        exact ⟨sameBytes_materialized.trans hq, hv,
          fun hcomplies ↦ absurd hrefused (not_refused_of_protects hcomplies.2)⟩
  · rintro _ q ⟨rfl, halloc⟩
    exact ⟨.refl q, rfl, fun hcomplies ↦ absurd (halloc.symm.trans hcomplies.1) (by simp)⟩

theorem snapshotCpuWriteQuiescent_spec :
    wp (snapshotCpuWriteQuiescent host)
      ⟨fun snapshot q ↦ Armed p q ∧ q.visibility.CpuVisible ∧
          snapshot = ⟨q.contents, q.generation, q.visibilityEpoch, q.cpuDirtyEpoch⟩,
        fun _ q ↦ SameBytes p q ∧ q.visibility = p.visibility, False⟩ p := by
  simp only [snapshotCpuWriteQuiescent, wp_rules, and_true]
  refine ⟨fun _ ↦ .refl p, fun _ ↦ ?_⟩
  have harm : p.visibility.CpuVisible →
      wp (armObserver host) ⟨fun _ q ↦ Armed p q ∧ q.visibility.CpuVisible,
        fun _ q ↦ SameBytes p q ∧ q.visibility = p.visibility, False⟩ p := by
    intro hvisible
    refine wp_of_wp armObserver_spec ?_ (fun _ _ h ↦ ⟨h.1, h.2.1⟩)
    intro _ q hq
    exact ⟨hq, by rwa [hq.visibility]⟩
  simp only [requireCpuVisibleQuiescent, wp_rules]
  split
  · rename_i h
    exact harm (h ▸ trivial)
  · rename_i h
    exact harm (h ▸ trivial)
  all_goals exact ⟨.refl p, rfl⟩

/-! ## Aliases and devices -/

section

theorem registerDirectAlias_spec {key : AliasKey} {maximum : DirectProtection} :
    wp (registerDirectAlias host key maximum)
      (.leaves fun q ↦ SameBytes p q ∧ q.visibility = p.visibility) p := by
  simp only [registerDirectAlias, wp_rules]
  refine ⟨fun _ ↦ ⟨.refl p, trivial⟩, fun _ ↦ ?_⟩
  have hinsert : SameBytes p
      { p with directAliases := p.directAliases.insert key ⟨maximum, .none⟩ } := by
    refine ⟨rfl, rfl, rfl, id, rfl, rfl, rfl, fun hp harmed key' a ha ↦ ?_⟩
    rcases getElem?_insert_eq_some_iff.mp ha with ⟨-, rfl⟩ | ⟨-, ha⟩
    · simp
    · exact hp harmed key' a ha
  refine wp_of_wp publishDirectAliasProtection_spec ?_ ?_ <;>
  · rintro _ q ⟨-, rfl⟩
    exact ⟨hinsert.trans (sameBytes_shownAs _), rfl⟩

theorem unregisterDirectAlias_spec {key : AliasKey} :
    wp (unregisterDirectAlias key)
      ⟨fun _ q ↦ SameBytes p q ∧ q.visibility = p.visibility, fun _ _ ↦ False, False⟩ p := by
  refine ⟨⟨rfl, rfl, rfl, id, rfl, rfl, rfl, fun hp harmed key' a ha ↦ ?_⟩, rfl⟩
  exact hp harmed key' a (getElem?_erase_eq_some_iff.mp ha).2

theorem publishConflict_spec :
    wp (publishConflict host) ⟨fun _ _ ↦ False, fun _ q ↦ SameBytes p q ∧ q.Lost, False⟩ p :=
  publishLost_spec (.inl rfl) _

theorem publishConflict_yields :
    wp (publishConflict host) (.leaves (Yields host lossy p)) p :=
  wp_of_wp publishConflict_spec (fun _ _ h ↦ h.elim) (fun _ _ ↦ yields_of_lost)

/-- The bytes of the CPU are shown to a device. -/
theorem publishClean_spec (hpq : Yields host lossy p q) (hvisible : q.visibility.CpuVisible) :
    wp (publishVisibility host .clean) (.leaves (Yields host lossy p)) q := by
  refine wp_of_wp (publishVisibility_sameBytes .clean) ?_
    (fun _ _ h ↦ hpq.trans (yields_of_lost h))
  rintro _ r ⟨hr, hclean⟩
  exact hpq.trans (hr.yields (.inr (.inr ⟨hvisible, hclean ▸ trivial⟩)))

variable {declaration : DeviceAccessDeclaration}

theorem showDevice_spec (hvisible : p.visibility.CpuVisible) :
    wp (showDevice host declaration) (.leaves (Yields host lossy p)) p := by
  simp only [showDevice, wp_rules]
  refine wp_of_wp revokeDirectAccess_sameBytes ?_ (fun _ _ ↦ yields_of_lost)
  rintro _ q ⟨hq, hv⟩
  have hpq : Yields host lossy p q := hq.yields (.inl hv)
  refine ⟨fun _ ↦ hpq, fun _ ↦ ?_⟩
  split
  · exact wp_of_wp (publishLost_spec (.inr rfl) _) (fun _ _ h ↦ h.elim)
      (fun _ _ h ↦ hpq.trans (yields_of_lost h))
  · exact publishClean_spec hpq (hv ▸ hvisible)

theorem prepareDeviceAccess_spec :
    wp (prepareDeviceAccess host declaration) (.leaves (Yields host lossy p)) p := by
  simp only [prepareDeviceAccess, wp_rules]
  split
  · rw [wp_ite]
    exact ⟨fun _ ↦ .refl p, fun _ ↦ publishConflict_yields⟩
  · exact publishConflict_yields
  · exact Yields.refl p
  · rename_i h
    exact showDevice_spec (h ▸ trivial)
  · rename_i h
    exact showDevice_spec (h ▸ trivial)

theorem prepareResidentDeviceRead_spec :
    wp (prepareResidentDeviceRead host declaration) (.leaves (Yields host lossy p)) p := by
  simp only [prepareResidentDeviceRead, wp_rules]
  split
  · exact Yields.refl p
  · rename_i hnewer
    simp only [wp_bind]
    refine wp_of_wp revokeDirectAccess_sameBytes ?_ (fun _ _ ↦ yields_of_lost)
    rintro _ q ⟨hq, hv⟩
    have hpq : Yields host lossy p q := hq.yields (.inl hv)
    refine publishClean_spec hpq ?_
    rw [hv, hnewer]
    trivial
  · rw [wp_ite]
    exact ⟨fun _ ↦ .refl p, fun _ ↦ publishConflict_yields⟩
  · exact publishConflict_yields
  · exact Yields.refl p

/-- A device write that is published makes the bytes of the device the newest. -/
structure Published (declaration : DeviceAccessDeclaration) (p q : CanonicalBackingPage) :
    Prop where
  same : SameBytes p q
  notCpuNewer : p.visibility = .clean ∨ ∃ visibleAt,
    p.visibility = .gpuNewer declaration.device visibleAt
  gpuNewer : ∃ visibleAt, q.visibility = .gpuNewer declaration.device visibleAt

theorem Published.evolves (h : Published declaration p q) : Evolves lossy p q := by
  refine h.same.evolves fun hlost ↦ ?_
  rcases h.notCpuNewer with hv | ⟨visibleAt, hv⟩ <;> simp [Lost, hv] at hlost

theorem publishDeviceWrite_spec :
    wp (publishDeviceWrite host declaration)
      ⟨fun _ q ↦ Published declaration p q, fun _ q ↦ Yields host lossy p q, False⟩ p := by
  simp only [publishDeviceWrite, wp_rules]
  refine ⟨fun visibleAt _ ↦ ⟨fun _ ↦ .refl p, fun _ ↦ ?_⟩, fun _ ↦ .refl p⟩
  refine wp_of_wp revokeDirectAccess_sameBytes ?_ (fun _ _ ↦ yields_of_lost)
  rintro _ q ⟨hq, hv⟩
  have hpq : Yields host lossy p q := hq.yields (.inl hv)
  have hpublish : (p.visibility = .clean ∨
      ∃ visibleAt, p.visibility = .gpuNewer declaration.device visibleAt) →
      wp (publishVisibility host (.gpuNewer declaration.device visibleAt))
        ⟨fun _ q ↦ Published declaration p q, fun _ q ↦ Yields host lossy p q, False⟩ q := by
    intro hp
    refine wp_of_wp (publishVisibility_sameBytes _) ?_ (fun _ _ h ↦ hpq.trans (yields_of_lost h))
    rintro _ r ⟨hr, hnewer⟩
    exact ⟨hq.trans hr, hp, _, hnewer⟩
  have hconflict : wp (publishConflict host)
      ⟨fun _ q ↦ Published declaration p q, fun _ q ↦ Yields host lossy p q, False⟩ q :=
    wp_of_wp publishConflict_spec (fun _ _ h ↦ h.elim) (fun _ _ h ↦ hpq.trans (yields_of_lost h))
  dsimp only
  split
  · rename_i h
    exact hpublish (.inl (hv.symm.trans h))
  · rename_i device previous h
    rw [wp_ite]
    refine ⟨fun hsame ↦ hpublish (.inr ⟨previous, ?_⟩), fun _ ↦ hconflict⟩
    rw [← hv, h, hsame.1]
  · exact hconflict
  · exact hconflict
  · exact hpq

theorem invalidateVisibility_spec :
    wp (invalidateVisibility host) (.leaves (Yields host lossy p)) p := by
  simp only [invalidateVisibility, wp_bind]
  refine wp_of_wp revokeDirectAccess_sameBytes ?_ (fun _ _ ↦ yields_of_lost)
  rintro _ q ⟨hq, hv⟩
  exact wp_of_wp (publishVisibility_sameBytes .invalid)
    (fun _ _ h ↦ yields_of_lost ⟨hq.trans h.1, .inr h.2⟩)
    (fun _ _ h ↦ yields_of_lost ⟨hq.trans h.1, h.2⟩)

end

/-! ## Operations as a whole -/

namespace PageOperation

/-- The operation makes the canonical bytes the newest before it goes on. -/
def WritesBack : PageOperation → Prop
  | read .. | atomicLoad .. | prepareCpuAccess | prepareWrite | resolveDirectWriteFault
  | writeCpu .. | atomicCompareExchange .. => True
  | _ => False

theorem wp_of {Q : Post CanonicalPageError CanonicalBackingPage PageReply} {m : PageM Unit} :
    wp (PageReply.of m) Q p ↔ wp m ⟨fun _ q ↦ Q.ok .done q, Q.err, Q.panic⟩ p := by
  simp only [PageReply.of, wp_rules]

/-- The operation stores bytes, or hands the authority to a device. -/
def Writes : PageOperation → Prop
  | writeCpu .. | writePreflighted .. | writeFragmentPreflighted .. | atomicCompareExchange ..
  | publishDeviceWrite .. | nativeStore .. => True
  | _ => False

/-- All other operations, whatever the host answers, yield. -/
theorem yields (op : PageOperation) (hop : ¬op.Writes) :
    wp (op.run host)
      (.leaves (Yields host (op.WritesBack ∧ p.Exhausted) p)) p := by
  have hmono (hback : op.WritesBack) {q} (h : Yields host p.Exhausted p q) :
      Yields host (op.WritesBack ∧ p.Exhausted) p q := h.mono fun h ↦ ⟨hback, h⟩
  cases op with
  | read offset count =>
    simp only [run, wp_rules]
    exact wp_of_wp readBytes_spec (fun _ _ h ↦ hmono trivial h.1) (fun _ _ ↦ hmono trivial)
  | atomicLoad offset size =>
    simp only [run, wp_rules]
    exact wp_of_wp atomicLoad_spec (fun _ _ h ↦ hmono trivial h.1) (fun _ _ ↦ hmono trivial)
  | prepareCpuAccess =>
    rw [run, wp_of]
    exact wp_of_wp prepareCpuAccess_spec (fun _ _ h ↦ hmono trivial h.1.toYields)
      (fun _ _ h ↦ hmono trivial h.toYields)
  | prepareWrite =>
    rw [run, wp_of]
    exact wp_of_wp prepareWrite_spec (fun _ _ ↦ hmono trivial) (fun _ _ ↦ hmono trivial)
  | resolveDirectWriteFault =>
    rw [run, wp_of]
    exact wp_of_wp prepareCpuWrite_spec (fun _ _ h ↦ hmono trivial h.1) (fun _ _ ↦ hmono trivial)
  | armCpuDirtyObserver =>
    simp only [run, wp_rules]
    exact wp_of_wp armCpuDirtyObserverQuiescent_spec (fun _ _ h ↦ h.1.yields)
      (fun _ _ h ↦ h.1.yields (.inl h.2.1))
  | registerDirectAlias key maximum =>
    rw [run, wp_of, wp_mapErr]
    exact wp_of_wp registerDirectAlias_spec (fun _ _ h ↦ h.1.yields (.inl h.2))
      (fun _ _ h ↦ h.1.yields (.inl h.2))
  | unregisterDirectAlias key =>
    rw [run, wp_of, wp_mapErr]
    exact wp_of_wp unregisterDirectAlias_spec (fun _ _ h ↦ h.1.yields (.inl h.2))
      (fun _ _ h ↦ h.elim)
  | prepareDeviceAccess declaration =>
    rw [run, wp_of, wp_mapErr]
    exact prepareDeviceAccess_spec
  | prepareResidentDeviceRead declaration =>
    rw [run, wp_of, wp_mapErr]
    exact prepareResidentDeviceRead_spec
  | invalidateVisibility =>
    rw [run, wp_of, wp_mapErr]
    exact invalidateVisibility_spec
  | nativeLoad key offset count =>
    simp only [run, Memory.nativeLoad, checkedEnd, wp_rules]
    exact ⟨fun _ ↦ .refl p, fun _ ↦ ⟨fun _ ↦ .refl p, fun _ ↦ .refl p⟩⟩
  | _ => exact absurd trivial hop

/-- Every operation, whatever the host answers, evolves the page. -/
theorem evolves (op : PageOperation) (hp : p.Observed) :
    wp (op.run host)
      (.leaves (Evolves (op.WritesBack ∧ p.Exhausted) p)) p := by
  have hmono (hback : op.WritesBack) {q} (h : Evolves p.Exhausted p q) :
      Evolves (op.WritesBack ∧ p.Exhausted) p q := h.mono fun h ↦ ⟨hback, h⟩
  cases op with
  | writeCpu offset bytes =>
    rw [run, wp_of]
    exact wp_of_wp writeCpu_spec (fun _ _ h ↦ hmono trivial h.evolves)
      (fun _ _ h ↦ hmono trivial h.toEvolves)
  | writePreflighted offset bytes expected next =>
    rw [run, wp_of]
    exact wp_of_wp writePreflighted_spec (fun _ _ h ↦ h.1.evolves) (fun _ _ h ↦ h.toEvolves)
  | writeFragmentPreflighted offset bytes generation =>
    rw [run, wp_of]
    exact wp_of_wp writeFragmentPreflighted_spec (fun _ _ h ↦ h.1.evolves)
      (fun _ _ h ↦ h.toEvolves)
  | atomicCompareExchange offset size expected replacement =>
    simp only [run, wp_rules]
    exact wp_of_wp atomicCompareExchange_spec (fun _ _ h ↦ hmono trivial h.1.evolves)
      (fun _ _ h ↦ hmono trivial h.toEvolves)
  | publishDeviceWrite declaration memory =>
    rw [run, wp_of, wp_mapErr]
    exact wp_of_wp publishDeviceWrite_spec (fun _ _ h ↦ h.evolves) (fun _ _ h ↦ h.toEvolves)
  | nativeStore key offset bytes =>
    simp only [run, wp_of, Memory.nativeStore, checkedEnd, wp_rules]
    refine ⟨fun _ ↦ .refl p, fun _ ↦ ⟨fun _ ↦ .refl p, fun hprotection ↦ ?_⟩⟩
    refine ⟨rfl, le_rfl, le_rfl, id, id, fun harmed _ ↦ ?_⟩
    rw [Classical.not_not, directProtection] at hprotection
    split at hprotection
    · exact absurd hprotection (hp harmed key _ ‹_›)
    · cases hprotection
  | _ => exact wp_of_wp (yields _ id) (fun _ _ h ↦ h.toEvolves) (fun _ _ h ↦ h.toEvolves)

end PageOperation

end Nixe.Memory
