import Nixe.Memory.DependencyStep
import Nixe.Memory.WriteBatch

/-!
# The protection of direct aliases

The CPU reaches a page through its aliases without any call, so their protection has to follow the
authority over the page: an alias is writable only if the CPU has the newest bytes and no observer
waits for the next write, and it is inaccessible when the canonical bytes are not the newest. A page
of which that is true is *shown* as it should be.

Every transition publishes the new protection before it takes place, with one exception. When the
visibility epoch cannot be advanced, `publish_visibility` gives the page up and leaves the aliases
as they are. That is harmless where the aliases are hidden already. It is not where the CPU takes
the authority over a clean page, whose aliases are readable (`Stranded`).
-/

namespace Nixe.Memory

open Std Method CanonicalBackingPage

variable {host : HostAnswers} {p q : CanonicalBackingPage}

/-! ## Pages that are shown as they should be -/

/-- The aliases have no more access than the authority over the page allows. -/
def CanonicalBackingPage.Shown (p : CanonicalBackingPage) : Prop :=
  ∀ key, (p.directProtection key = .readWrite →
      p.visibility = .cpuNewer ∧ p.cpuDirtyObserverArmed = false) ∧
    (p.directProtection key ≠ .none → p.visibility.CpuVisible)

/-- No alias has any access. -/
def CanonicalBackingPage.Hidden (p : CanonicalBackingPage) : Prop :=
  ∀ key, p.directProtection key = .none

/-- A clean page in the last visibility epoch, with an alias that can be read. -/
def CanonicalBackingPage.Stranded (p : CanonicalBackingPage) : Prop :=
  p.visibility = .clean ∧ wordBound ≤ p.visibilityEpoch + 1 ∧ ¬p.Hidden

theorem CanonicalBackingPage.Hidden.shown (h : p.Hidden) : p.Shown :=
  fun key ↦ ⟨fun hkey ↦ absurd ((h key).symm.trans hkey) nofun, fun hkey ↦ absurd (h key) hkey⟩

theorem CanonicalBackingPage.Shown.hidden (h : p.Shown) (hv : ¬p.visibility.CpuVisible) :
    p.Hidden :=
  fun key ↦ Classical.not_not.mp fun hkey ↦ hv ((h key).2 hkey)

theorem directProtection_congr (h : q.directAliases = p.directAliases) (key : AliasKey) :
    q.directProtection key = p.directProtection key := by
  rw [directProtection, directProtection, h]

theorem CanonicalBackingPage.Hidden.congr (hp : p.Hidden) (h : q.directAliases = p.directAliases) :
    q.Hidden :=
  fun key ↦ (directProtection_congr h key).trans (hp key)

theorem CanonicalBackingPage.Shown.congr (hp : p.Shown) (h : q.directAliases = p.directAliases)
    (hv : q.visibility = p.visibility)
    (harmed : q.cpuDirtyObserverArmed = p.cpuDirtyObserverArmed) : q.Shown := by
  intro key
  rw [directProtection_congr h, hv, harmed]
  exact hp key

section

variable (hprotects : ∀ key, host.protects key = true)

include hprotects

theorem directProtection_protectAliases (protection : CanonicalDirectAlias → DirectProtection)
    (key : AliasKey) :
    (p.protectAliases host.protects protection).directProtection key =
      match p.directAliases[key]? with
      | some a => protection a
      | none => .none := by
  rw [directProtection, getElem?_protectAliases]
  cases p.directAliases[key]? with
  | none => rfl
  | some a => simp only [Option.map_some, hprotects key, if_true]

theorem hidden_revoked : (p.revoked host).Hidden := by
  intro key
  rw [revoked, directProtection_protectAliases hprotects]
  cases p.directAliases[key]? <;> rfl

/-- The protection that the visibility `v` asks for is the right one for a page in that state. -/
theorem shown_of_shownAs (v : PageVisibility)
    (haliases : q.directAliases = (p.shownAs host v).directAliases) (hv : q.visibility = v)
    (harmed : q.cpuDirtyObserverArmed = p.cpuDirtyObserverArmed) : q.Shown := by
  intro key
  rw [directProtection_congr haliases, shownAs, directProtection_protectAliases hprotects, hv,
    harmed]
  cases p.directAliases[key]? with
  | none => exact ⟨by simp, fun h ↦ absurd rfl h⟩
  | some a =>
    by_cases hvisible : v.CpuVisible
    · refine ⟨fun hwritable ↦ ?_, fun _ ↦ hvisible⟩
      by_contra hnot
      have hclosed : (decide v.CpuVisible && decide (v = .cpuNewer) &&
          !p.cpuDirtyObserverArmed) = false := by
        simpa [hvisible] using hnot
      rw [hclosed] at hwritable
      exact aliasProtection_ne_readWrite _ a hwritable
    · simp [hvisible, aliasProtection]

end

/-! ## Transitions -/

section

/-- A page that was shown as it should be still is. -/
abbrev Shows : CanonicalBackingPage → CanonicalBackingPage → Prop := Maintains Shown

theorem ensureBacking_shows : Keeps Shows (ensureBacking host) := by
  intro p
  refine wp_of_wp ensureBacking_spec ?_ ?_
  · rintro _ q rfl
    exact fun hp ↦ hp.congr rfl rfl rfl
  · rintro _ q ⟨rfl, -⟩
    exact id

theorem copyBytes_shows (offset : Nat) (bytes : List UInt8) :
    Keeps Shows (copyBytes offset bytes) := by
  intro p
  simp only [copyBytes, wp_rules, wp_expect]
  exact ⟨fun _ _ hp ↦ hp.congr rfl rfl rfl, fun _ ↦ trivial⟩

theorem checkedEnd_shows (offset size : Nat) : Keeps Shows (checkedEnd offset size) :=
  .bind (.read _) fun _ ↦ .failIf _ _

variable (hprotects : ∀ key, host.protects key = true)

include hprotects

/-- A transition that starts with the aliases hidden, or in an epoch that is not the last. -/
theorem publishVisibility_shown (v : PageVisibility)
    (h : p.Hidden ∨ p.visibilityEpoch + 1 < wordBound) :
    wp (publishVisibility host v)
      (.leaves Shown) p := by
  refine wp_of_wp (publishVisibility_spec v) ?_ ?_
  · rintro _ q ⟨-, -, rfl⟩
    exact shown_of_shownAs hprotects v rfl rfl rfl
  · rintro _ q (⟨hlast, rfl⟩ | ⟨hrefused, -⟩)
    · have hhidden := h.resolve_right (Nat.not_lt.mpr hlast)
      exact (hhidden.congr (q := p.invalidated) rfl).shown
    · exact absurd hrefused (not_refused_of_protects hprotects)

theorem publishLost_shown {v : PageVisibility} (error : VisibilityError) (h : p.Hidden) :
    wp (publishVisibility host v >>= fun _ ↦ fail error : VisibilityM Unit)
      (.leaves Shown) p := by
  simp only [wp_rules]
  exact wp_of_ok (publishVisibility_shown hprotects v (.inl h)) (fun _ _ h ↦ h)

theorem revokeDirectAccess_hidden :
    wp (revokeDirectAccess host)
      ⟨fun _ q ↦ q.Hidden ∧ q.visibility = p.visibility, fun _ q ↦ q.Hidden, False⟩ p := by
  refine wp_of_wp revokeDirectAccess_spec ?_ ?_
  · rintro _ q ⟨-, -, rfl⟩
    exact ⟨(hidden_revoked hprotects).congr rfl, rfl⟩
  · rintro _ q ⟨-, rfl⟩
    exact (hidden_revoked hprotects).congr rfl

theorem publishCpuDirty_shown (h : p.Shown) :
    wp (publishCpuDirty host)
      ⟨fun _ q ↦ q.Shown ∧ q.visibility = p.visibility, fun _ q ↦ q.Shown, False⟩ p := by
  refine wp_of_wp publishCpuDirty_spec ?_ ?_
  · rintro _ q (⟨-, rfl⟩ | ⟨-, -, rfl⟩)
    · exact ⟨h, rfl⟩
    · exact ⟨shown_of_shownAs hprotects p.visibility rfl rfl rfl, rfl⟩
  · rintro _ q ⟨-, ⟨hrefused, -⟩ | ⟨-, epoch, rfl⟩⟩
    · exact absurd hrefused (not_refused_of_protects hprotects)
    · refine CanonicalBackingPage.Hidden.shown ?_
      exact (hidden_revoked (p := p) hprotects).congr rfl

theorem requireCpuAuthority_shown (h : p.Shown) :
    wp (requireCpuAuthority host)
      ⟨fun _ q ↦ q = p ∧ p.visibility.CpuVisible, fun _ q ↦ q.Shown, False⟩ p := by
  have hconflict : ¬p.visibility.CpuVisible → wp
      (publishVisibility host .conflicting >>= fun _ ↦ fail .conflictingAccess : VisibilityM Unit)
      ⟨fun _ q ↦ q = p ∧ p.visibility.CpuVisible, fun _ q ↦ q.Shown, False⟩ p := by
    intro hv
    simp only [wp_rules]
    exact wp_of_ok (publishVisibility_shown hprotects _ (.inl (h.hidden hv))) (fun _ _ h ↦ h)
  simp only [requireCpuAuthority, wp_rules]
  split
  · rename_i hv
    exact ⟨rfl, hv ▸ trivial⟩
  · rename_i hv
    exact ⟨rfl, hv ▸ trivial⟩
  · rename_i hv
    exact hconflict (by rw [hv]; exact id)
  · rename_i hv
    exact hconflict (by rw [hv]; exact id)
  · exact h

/-- The end of a write-back: the aliases are hidden until the page is clean. -/
theorem storeWriteback_shown {bytes : List UInt8} {generation : Nat} (h : p.Shown)
    (hv : ¬p.visibility.CpuVisible) (hbacking : p.backing.isSome = true) :
    wp (storeWriteback host bytes generation)
      (.leaves Shown) p := by
  simp only [storeWriteback, wp_rules]
  refine wp_of_ok (copyBytes_spec hbacking) ?_
  rintro _ _ rfl
  refine wp_of_ok (publishCpuDirty_shown hprotects (h.congr rfl rfl rfl)) ?_
  rintro _ q ⟨hq, hsame⟩
  refine publishVisibility_shown hprotects _ (.inl (hq.hidden ?_))
  rw [hsame]
  exact hv

theorem writeBack_shown {device visibleAt : Nat} (h : p.Shown) (hv : ¬p.visibility.CpuVisible) :
    wp (writeBack host device visibleAt)
      (.leaves Shown) p := by
  simp only [writeBack, wp_rules]
  split
  · exact publishLost_shown hprotects _ (h.hidden hv)
  · simp only [wp_rules]
    refine wp_of_wp ensureBacking_spec ?_ (fun _ _ hq ↦ hq.1 ▸ h)
    rintro _ q rfl
    have hshown : p.materialized.Shown := h.congr rfl rfl rfl
    have hhidden : p.materialized.Hidden := (h.hidden hv).congr rfl
    dsimp only
    split
    · exact publishLost_shown hprotects _ hhidden
    · rw [wp_ite]
      exact ⟨fun _ ↦ storeWriteback_shown hprotects hshown hv rfl,
        fun _ ↦ publishLost_shown hprotects _ hhidden⟩

theorem prepareCpuAccess_shows : Keeps Shows (prepareCpuAccess host) := by
  refine .of_maintains fun p h ↦ ?_
  simp only [prepareCpuAccess, ensureCpuVisible, wp_rules]
  split
  · exact h
  · exact h
  · exact h
  · exact h
  · rename_i device visibleAt hv
    refine wp_of_ok (writeBack_shown hprotects h ?_) fun _ _ h ↦ h
    rw [hv]
    exact id

/-- The authority is taken of a page that is not stranded. -/
theorem takeCpuAuthority_shown (h : p.Shown) (hstranded : ¬p.Stranded) :
    wp (takeCpuAuthority host) (.leaves Shown) p := by
  have hcount : ∀ q, q.Shown →
      wp (publishCpuDirty host) (.leaves Shown) q :=
    fun q hq ↦ wp_of_ok (publishCpuDirty_shown hprotects hq) (fun _ _ h ↦ h.1)
  simp only [takeCpuAuthority, wp_rules, wp_ite]
  refine wp_of_ok (requireCpuAuthority_shown hprotects h) ?_
  rintro _ q ⟨rfl, -⟩
  refine ⟨fun hclean ↦ ?_, fun _ ↦ hcount q h⟩
  have hepoch : q.Hidden ∨ q.visibilityEpoch + 1 < wordBound := by
    by_contra hnot
    obtain ⟨hhidden, hlast⟩ := not_or.mp hnot
    exact hstranded ⟨hclean, Nat.not_lt.mp hlast, hhidden⟩
  exact wp_of_ok (publishVisibility_shown hprotects _ hepoch) (fun _ r hr ↦ hcount r hr)

theorem prepareWrite_shows : Keeps Shows (prepareWrite host) := by
  refine .bind (prepareCpuAccess_shows hprotects) fun _ ↦ .bind ensureBacking_shows fun _ ↦
    Keeps.mapErr (.of_maintains fun p h ↦ ?_) _
  exact wp_of_wp (requireCpuAuthority_shown hprotects h) (fun _ _ hq ↦ hq.1 ▸ h) (fun _ _ h ↦ h)

theorem armObserver_shows : Keeps Shows (armObserver host) := by
  refine .of_maintains fun p h ↦ ?_
  simp only [armObserver, wp_rules, wp_ite, wp_onErr]
  refine ⟨fun _ ↦ h, fun _ ↦ wp_of_wp publishDirectAliasProtection_spec ?_ ?_⟩
  · rintro _ q ⟨-, rfl⟩
    exact shown_of_shownAs hprotects p.visibility rfl rfl rfl
  · rintro _ q ⟨hrefused, -⟩
    exact absurd hrefused (not_refused_of_protects hprotects)

theorem armCpuDirtyObserverQuiescent_shows : Keeps Shows (armCpuDirtyObserverQuiescent host) := by
  refine .bind ensureBacking_shows fun _ ↦ .bind (.read _) fun v ↦ ?_
  have harm : Keeps Shows (do armObserver host; read (·.cpuDirtyEpoch) : PageM Nat) :=
    .bind (armObserver_shows hprotects) fun _ ↦ .read _
  cases v
  case conflicting => exact .fail _
  case invalid => exact .fail _
  all_goals exact harm

theorem snapshotCpuWriteQuiescent_shows : Keeps Shows (snapshotCpuWriteQuiescent host) := by
  refine .bind (.failIf _ _) fun _ ↦ .bind (.bind (.read _) fun v ↦ ?_)
    fun _ ↦ .bind (armObserver_shows hprotects) fun _ ↦ .read _
  cases v
  case clean => exact .pure _
  case cpuNewer => exact .pure _
  all_goals exact .fail _

end

/-! ## Aliases and devices -/

section

theorem unregisterDirectAlias_shows (key : AliasKey) : Keeps Shows (unregisterDirectAlias key) := by
  refine .update fun p hp key' ↦ ?_
  have hsub : ({ p with directAliases := p.directAliases.erase key } :
      CanonicalBackingPage).directProtection key' = p.directProtection key' ∨
      ({ p with directAliases := p.directAliases.erase key } :
      CanonicalBackingPage).directProtection key' = .none := by
    simp only [directProtection, ExtTreeMap.getElem?_erase]
    by_cases hkey : compare key key' = .eq
    · exact .inr (by rw [if_pos hkey])
    · exact .inl (by rw [if_neg hkey])
  rcases hsub with hsame | hnone
  · rw [hsame]
    exact hp key'
  · rw [hnone]
    exact ⟨by simp, fun h ↦ absurd rfl h⟩

variable (hprotects : ∀ key, host.protects key = true)

include hprotects

theorem registerDirectAlias_shows (key : AliasKey) (maximum : DirectProtection) :
    Keeps Shows (registerDirectAlias host key maximum) := by
  refine .bind (.failIf _ _) fun _ ↦ Keeps.of_maintains fun p h ↦ ?_
  simp only [wp_rules]
  refine wp_of_wp publishDirectAliasProtection_spec ?_ ?_
  · rintro _ q ⟨-, rfl⟩
    exact shown_of_shownAs hprotects p.visibility rfl rfl rfl
  · rintro _ q ⟨hrefused, -⟩
    exact absurd hrefused (not_refused_of_protects hprotects)

/-- A transition that revokes the access first, after which it can publish any visibility. -/
theorem revokeDirectAccess_then {α : Type} {f : Unit → VisibilityM α}
    (h : ∀ p : CanonicalBackingPage, p.Hidden →
      wp (f ()) (.leaves Shown) p) :
    Keeps Shows (revokeDirectAccess host >>= f) := by
  refine .of_maintains fun p _ ↦ ?_
  rw [wp_bind]
  refine wp_of_wp (revokeDirectAccess_hidden hprotects) ?_ (fun _ _ hq ↦ hq.shown)
  rintro _ q ⟨hq, -⟩
  exact wp_of_ok (h q hq) fun _ _ h ↦ h

theorem publishConflict_shown (h : p.Hidden) :
    wp (publishConflict host) (.leaves Shown) p :=
  publishLost_shown hprotects _ h

variable (declaration : DeviceAccessDeclaration)

theorem showDevice_shows : Keeps Shows (showDevice host declaration) := by
  refine revokeDirectAccess_then hprotects fun p h ↦ ?_
  simp only [wp_rules]
  refine ⟨fun _ ↦ h.shown, fun _ ↦ ?_⟩
  split
  · exact publishLost_shown hprotects _ h
  · exact publishVisibility_shown hprotects _ (.inl h)

theorem prepareDeviceAccess_shows : Keeps Shows (prepareDeviceAccess host declaration) := by
  refine .of_maintains fun p h ↦ ?_
  have hconflict : ¬p.visibility.CpuVisible →
      wp (publishConflict host) ⟨fun _ q ↦ q.Shown, fun _ q ↦ q.Shown, True⟩ p := fun hv ↦
    wp_of_ok (publishConflict_shown hprotects (h.hidden hv)) fun _ _ h ↦ h
  simp only [prepareDeviceAccess, wp_rules]
  split
  · rename_i hv
    rw [wp_ite]
    exact ⟨fun _ ↦ h, fun _ ↦ hconflict (by rw [hv]; exact id)⟩
  · rename_i hv
    exact hconflict (by rw [hv]; exact id)
  · exact h
  · exact (showDevice_shows hprotects declaration).wp h
  · exact (showDevice_shows hprotects declaration).wp h

theorem prepareResidentDeviceRead_shows :
    Keeps Shows (prepareResidentDeviceRead host declaration) := by
  refine .of_maintains fun p h ↦ ?_
  have hconflict : ¬p.visibility.CpuVisible →
      wp (publishConflict host) ⟨fun _ q ↦ q.Shown, fun _ q ↦ q.Shown, True⟩ p := fun hv ↦
    wp_of_ok (publishConflict_shown hprotects (h.hidden hv)) fun _ _ h ↦ h
  simp only [prepareResidentDeviceRead, wp_rules]
  split
  · exact h
  · exact (revokeDirectAccess_then hprotects fun q hq ↦
      publishVisibility_shown hprotects .clean (.inl hq)).wp h
  · rename_i hv
    rw [wp_ite]
    exact ⟨fun _ ↦ h, fun _ ↦ hconflict (by rw [hv]; exact id)⟩
  · rename_i hv
    exact hconflict (by rw [hv]; exact id)
  · exact h

theorem publishDeviceWrite_shows : Keeps Shows (publishDeviceWrite host declaration) := by
  refine .bind (.okOr _ _) fun visibleAt ↦ .bind (.failIf _ _) fun _ ↦
    revokeDirectAccess_then hprotects fun p h ↦ ?_
  simp only [wp_rules]
  split
  · exact publishVisibility_shown hprotects _ (.inl h)
  · rw [wp_ite]
    exact ⟨fun _ ↦ publishVisibility_shown hprotects _ (.inl h),
      fun _ ↦ publishConflict_shown hprotects h⟩
  · exact publishConflict_shown hprotects h
  · exact publishConflict_shown hprotects h
  · exact h.shown

theorem invalidateVisibility_shows : Keeps Shows (invalidateVisibility host) :=
  revokeDirectAccess_then hprotects fun _ h ↦ publishVisibility_shown hprotects _ (.inl h)

end

/-! ## Operations as a whole -/

/-- The operation takes the authority over a stranded page. The operations that write back first do
so when that is done. -/
def PageOperation.Strands (host : HostAnswers) (p : CanonicalBackingPage) : PageOperation → Prop
  | resolveDirectWriteFault | writeCpu .. | atomicCompareExchange .. =>
    ∃ q, Memory.prepareCpuAccess host p = .ok () q ∧ q.Stranded
  | writePreflighted .. | writeFragmentPreflighted .. => p.Stranded
  | _ => False

section

theorem CanonicalBackingPage.Stranded.of_materialized (h : p.materialized.Stranded) : p.Stranded :=
  ⟨h.1, h.2.1, fun hp ↦ h.2.2 (hp.congr rfl)⟩

variable (hprotects : ∀ key, host.protects key = true)

include hprotects

theorem prepareCpuWrite_shown (h : p.Shown)
    (hstranded : ¬∃ q, prepareCpuAccess host p = .ok () q ∧ q.Stranded) :
    wp (prepareCpuWrite host) ⟨fun _ q ↦ q.Shown, fun _ q ↦ q.Shown, True⟩ p := by
  have haccess := (prepareCpuAccess_shows hprotects).wp h
  rw [prepareCpuWrite, wp_bind, wp]
  rw [wp] at haccess
  cases hp : prepareCpuAccess host p with
  | ok a q =>
    rw [hp] at haccess
    have hq : q.Shown := haccess
    change wp (do ensureBacking host; takeCpuAuthority host) _ q
    rw [wp_bind]
    refine wp_of_wp ensureBacking_spec ?_ (fun _ _ h ↦ h.1 ▸ hq)
    rintro _ r rfl
    exact wp_of_ok (takeCpuAuthority_shown hprotects (hq.congr rfl rfl rfl) fun hr ↦
      hstranded ⟨q, hp, hr.of_materialized⟩) fun _ _ h ↦ h
  | err e q =>
    rw [hp] at haccess
    exact haccess
  | panic msg => trivial

/-- An operation that does not take the authority over a stranded page leaves the page shown as it
should be. -/
theorem PageOperation.shown (op : PageOperation) (h : p.Shown) (hstrands : ¬op.Strands host p) :
    wp (op.run host) ⟨fun _ q ↦ q.Shown, fun _ q ↦ q.Shown, True⟩ p := by
  cases op with
  | read offset count =>
    exact (Keeps.bind (.bind (checkedEnd_shows _ _) fun _ ↦ .bind
      (prepareCpuAccess_shows hprotects) fun _ ↦ .read _) fun _ ↦ .pure _).wp h
  | atomicLoad offset size =>
    exact (Keeps.bind (.bind (checkedEnd_shows _ _) fun _ ↦ .bind
      (prepareCpuAccess_shows hprotects) fun _ ↦ .bind ensureBacking_shows fun _ ↦
        .bind (.read _) fun _ ↦ .bind (.lift _) fun _ ↦ .read _)
          fun _ ↦ .pure _).wp h
  | prepareCpuAccess =>
    rw [run, wp_of]
    exact (prepareCpuAccess_shows hprotects).wp h
  | prepareWrite =>
    rw [run, wp_of]
    exact (prepareWrite_shows hprotects).wp h
  | resolveDirectWriteFault =>
    rw [run, wp_of]
    exact prepareCpuWrite_shown hprotects h hstrands
  | writeCpu offset bytes =>
    rw [run, wp_of, Memory.writeCpu, wp_bind]
    refine wp_of_ok (prepareCpuWrite_shown hprotects h hstrands) (fun _ q hq ↦ ?_)
    exact (Keeps.bind (checkedEnd_shows _ _) fun _ ↦ .bind (.read _) fun _ ↦
      .bind (.failIf _ _) fun _ ↦ copyBytes_shows _ _).wp hq
  | writePreflighted offset bytes expected next =>
    simp only [run, wp_of, Memory.writePreflighted, checkedEnd, wp_rules]
    refine ⟨fun _ ↦ h, fun _ ↦ wp_of_wp ensureBacking_spec ?_ (fun _ _ hq ↦ hq.1 ▸ h)⟩
    rintro _ q rfl
    have hq : p.materialized.Shown := h.congr rfl rfl rfl
    refine ⟨fun _ ↦ hq, fun _ ↦ wp_of_wp (takeCpuAuthority_shown hprotects hq fun hr ↦
      hstrands hr.of_materialized) (fun _ r hr ↦ ⟨fun _ ↦ hr, fun _ ↦ ?_⟩) (fun _ _ h ↦ h)⟩
    exact wp_of_ok ((copyBytes_shows offset bytes).wp hr) (fun _ _ h ↦ h.congr rfl rfl rfl)
  | writeFragmentPreflighted offset bytes generation =>
    simp only [run, wp_of, Memory.writeFragmentPreflighted, checkedEnd, wp_rules]
    refine ⟨fun _ ↦ h, fun _ ↦ wp_of_wp ensureBacking_spec ?_ (fun _ _ hq ↦ hq.1 ▸ h)⟩
    rintro _ q rfl
    have hq : p.materialized.Shown := h.congr rfl rfl rfl
    refine wp_of_wp (takeCpuAuthority_shown hprotects hq fun hr ↦ hstrands hr.of_materialized)
      (fun _ r hr ↦ ⟨fun _ ↦ hr, fun _ ↦ ?_⟩) (fun _ _ h ↦ h)
    exact (copyBytes_shows offset bytes).wp hr
  | atomicCompareExchange offset size expected replacement =>
    simp only [run, Memory.atomicCompareExchange, checkedEnd, wp_rules, wp_ite]
    refine ⟨fun _ ↦ h, fun _ ↦ wp_of_ok (prepareCpuWrite_shown hprotects h hstrands)
      (fun _ q hq ↦ ⟨fun _ _ ↦ ⟨fun _ ↦ ?_, fun _ ↦ hq⟩, fun _ _ ↦ hq⟩)⟩
    exact (copyBytes_shows offset _).wp hq
  | armCpuDirtyObserver =>
    exact (Keeps.bind (armCpuDirtyObserverQuiescent_shows hprotects) fun _ ↦ .pure _).wp h
  | registerDirectAlias key maximum =>
    rw [run, wp_of]
    exact ((registerDirectAlias_shows hprotects key maximum).mapErr _).wp h
  | unregisterDirectAlias key =>
    rw [run, wp_of]
    exact ((unregisterDirectAlias_shows key).mapErr _).wp h
  | prepareDeviceAccess declaration =>
    rw [run, wp_of]
    exact ((prepareDeviceAccess_shows hprotects declaration).mapErr _).wp h
  | prepareResidentDeviceRead declaration =>
    rw [run, wp_of]
    exact ((prepareResidentDeviceRead_shows hprotects declaration).mapErr _).wp h
  | publishDeviceWrite declaration memory =>
    rw [run, wp_of]
    exact ((publishDeviceWrite_shows hprotects declaration).mapErr _).wp h
  | invalidateVisibility =>
    rw [run, wp_of]
    exact ((invalidateVisibility_shows hprotects).mapErr _).wp h
  | nativeLoad key offset count =>
    simp only [run, Memory.nativeLoad, checkedEnd, wp_rules]
    exact ⟨fun _ ↦ h, fun _ ↦ ⟨fun _ ↦ h, fun _ ↦ h⟩⟩
  | nativeStore key offset bytes =>
    simp only [run, wp_of, Memory.nativeStore, checkedEnd, wp_rules]
    exact ⟨fun _ ↦ h, fun _ ↦ ⟨fun _ ↦ h, fun _ ↦ h.congr rfl rfl rfl⟩⟩

end

/-! ## Batches and dependencies -/

/-- All pages are shown as they should be. -/
def PageHeap.Shown (pages : PageHeap) : Prop := ∀ page, (pages page).Shown

section

theorem Keeps.onPage {α : Type} {m : PageM α} (h : Keeps Shows m) (page : Nat) :
    Keeps (Maintains PageHeap.Shown) (onPage page m) := by
  refine h.focus fun pages q hq hpages page' ↦ ?_
  by_cases hpage : page' = page
  · subst hpage
    rw [Function.update_self]
    exact hq (hpages page')
  · rw [Function.update_of_ne hpage]
    exact hpages page'

theorem Keeps.onStagedPage {α : Type} {m : PageM α} (h : Keeps Shows m) (page : Nat) :
    Keeps (Maintains fun s : Staging ↦ s.pages.Shown) (onStagedPage page m) := by
  refine Keeps.mapErr ?_ _
  refine (Keeps.onPage h page).focus ?_
  exact fun _ _ hpages ↦ hpages

theorem Keeps.onPages {ε α : Type} {m : Method ε PageHeap α}
    (h : Keeps (Maintains PageHeap.Shown) m) :
    Keeps (Maintains fun s : Observing ↦ s.pages.Shown) (onPages m) := by
  refine h.focus ?_
  exact fun _ _ hpages ↦ hpages

/-- A committed page belongs to the CPU, and its observer is disarmed. -/
theorem publishPending_shows {host : HostAnswers} (hprotects : ∀ key, host.protects key = true)
    (pending : PendingCanonicalPageWrite) : Keeps Shows (publishPending host pending) := by
  refine .bind (.update fun p hp key ↦ ?_) fun _ ↦ .bind ?_ fun _ ↦
    .bind (copyBytes_shows _ _) fun _ ↦ .update fun p hp ↦ hp.congr rfl rfl rfl
  · exact ⟨fun hkey ↦ ⟨rfl, ((hp key).1 hkey).2⟩, fun _ ↦ trivial⟩
  · refine .of_maintains fun p hp ↦ ?_
    rw [wp_expectOk]
    exact wp_of_wp (publishCpuDirty_shown hprotects hp) (fun _ _ h ↦ h.1) (fun _ _ _ ↦ trivial)

variable {hosts : Nat → HostAnswers} (hprotects : ∀ page key, (hosts page).protects key = true)

include hprotects

theorem prepareUnstagedCpuVisible_shows (pieces : List SegmentPiece) :
    Keeps (Maintains fun s : Staging ↦ s.pages.Shown) (prepareUnstagedCpuVisible hosts pieces) := by
  refine .forEach (fun page ↦ .bind (.read _) fun _ ↦ .ite (.pure _) ?_) _
  exact Keeps.onStagedPage (prepareCpuAccess_shows (hprotects page)) page

theorem pendingWrite_shows (page : Nat) :
    Keeps (Maintains fun s : Staging ↦ s.pages.Shown) (pendingWrite hosts page) := by
  refine .bind (.read _) fun entry ↦ ?_
  cases entry with
  | some pending => exact .pure _
  | none =>
    refine .bind (Keeps.onStagedPage (snapshotCpuWriteQuiescent_shows (hprotects page)) page)
      fun _ ↦ .bind (.read _) fun _ ↦ .bind (.update fun _ h ↦ h) fun _ ↦
        .pure _

theorem stagePieces_shows (pieces : List SegmentPiece) (rest : List UInt8) :
    Keeps (Maintains fun s : Staging ↦ s.pages.Shown) (stagePieces hosts pieces rest) := by
  induction pieces generalizing rest with
  | nil => exact .failIf _ _
  | cons piece pieces ih =>
    refine .bind (.bind (.failIf _ _) fun _ ↦ .bind
      (pendingWrite_shows hprotects piece.page) fun _ ↦ .bind (.assert _ _) fun _ ↦
        .update fun _ h ↦ h) fun _ ↦ ih _

theorem stage_shows (range : CheckedRange) (offset : Nat) (bytes : List UInt8) :
    Keeps (Maintains fun s : Staging ↦ s.pages.Shown) (stage hosts range offset bytes) :=
  .bind (.okOr _ _) fun _ ↦ .bind (.failIf _ _) fun _ ↦ .ite (.pure _)
    (.bind (prepareUnstagedCpuVisible_shows hprotects _) fun _ ↦
      stagePieces_shows hprotects _ _)

omit hprotects in
theorem readStagedPieces_shows (pieces : List SegmentPiece) :
    Keeps (Maintains fun s : Staging ↦ s.pages.Shown) (readStagedPieces pieces) := by
  induction pieces with
  | nil => exact .pure _
  | cons piece pieces ih =>
    refine .bind (.bind (.failIf _ _) fun _ ↦ .bind (.read _) fun entry ↦ ?_)
      fun _ ↦ .bind ih fun _ ↦ .pure _
    cases entry with
    | some pending => exact .bind (.assert _ _) fun _ ↦ .pure _
    | none => exact Keeps.onStagedPage (.of_same fun _ ↦ readQuiescent_spec) piece.page

theorem readStaged_shows (range : CheckedRange) (offset count : Nat) :
    Keeps (Maintains fun s : Staging ↦ s.pages.Shown) (readStaged hosts range offset count) :=
  .bind (.okOr _ _) fun _ ↦ .bind (.failIf _ _) fun _ ↦ .ite (.pure _)
    (.bind (prepareUnstagedCpuVisible_shows hprotects _) fun _ ↦ .bind
      (readStagedPieces_shows _) fun _ ↦ .bind (.failIf _ _) fun _ ↦ .pure _)

theorem commit_shows (reserves : Bool) (batch : CanonicalWriteBatch) :
    Keeps (Maintains PageHeap.Shown) (commit hosts reserves batch) := by
  refine .bind (.failIf _ _) fun _ ↦ .bind (.forEach (fun e ↦ ?_) _) fun _ ↦
    .bind (.forEach (fun e ↦ ?_) _) fun _ ↦ .bind (.forEach (fun e ↦ ?_) _)
      fun _ ↦ .forEach (fun e ↦ ?_) _
  · exact .bind (.failIf _ _) fun _ ↦ .failIf _ _
  · exact (Keeps.onPage ensureBacking_shows e.1).mapErr _
  · exact .bind (.read _) fun _ ↦ .bind (.failIf _ _) fun _ ↦ .failIf _ _
  · exact (Keeps.onPage (publishPending_shows (hprotects e.1) e.2) e.1).mapErr _

theorem armPages_shows (list : List Nat) :
    Keeps (Maintains PageHeap.Shown) (armPages hosts list) := by
  induction list with
  | nil => exact .pure _
  | cons page list ih =>
    exact .bind (Keeps.onPage (armCpuDirtyObserverQuiescent_shows (hprotects page)) page)
      fun _ ↦ .bind ih fun _ ↦ .pure _

theorem captureRanges_shows (ranges : List CheckedRange) :
    Keeps (Maintains PageHeap.Shown) (captureRanges hosts ranges) :=
  .bind (.failIf _ _) fun _ ↦ .bind ((armPages_shows hprotects _).mapErr _) fun _ ↦
    .pure _

theorem rearmQuiescent_shows (dirty : Bool) :
    Keeps (Maintains fun s : Observing ↦ s.pages.Shown) (rearmQuiescent hosts dirty) := by
  refine .bind (.read _) fun _ ↦ .bind (.update fun _ h ↦ h) fun _ ↦ .ite
    (.bind (.update fun _ h ↦ h) fun _ ↦ .pure _) (.bind (.read _) fun _ ↦
      .bind (.forEach (fun page ↦ Keeps.mapErr (.bind ?_ fun _ ↦
        .update fun _ h ↦ h) _) _) fun _ ↦ .pure _)
  exact Keeps.onPages (Keeps.onPage (armCpuDirtyObserverQuiescent_shows (hprotects page)) page)

theorem rearm_shows :
    Keeps (Maintains fun s : Observing ↦ s.pages.Shown) (rearm hosts) :=
  .bind (.read _) fun _ ↦ .ite (.pure _)
    ((rearmQuiescent_shows hprotects _).unwrapOr _)

theorem makeVisible_shows :
    Keeps (Maintains fun s : Observing ↦ s.pages.Shown) (makeVisible hosts) := by
  refine .bind (.read _) fun _ ↦ .bind
    ((Keeps.onPages (.of_same fun _ ↦ allVisible_spec)).mapErr _) fun _ ↦ .ite (.pure _)
      (Keeps.mapErr (Keeps.onPages (.forEach (fun page ↦ ?_) _)) _)
  exact Keeps.onPage (prepareCpuAccess_shows (hprotects page)) page

theorem snapshotBytes_shows (reserves : Bool) (range : CheckedRange)
    (selection : CpuWriteSnapshotSelection) (alignment : Nat) :
    Keeps (Maintains fun s : Observing ↦ s.pages.Shown)
      (snapshotBytes hosts reserves range selection alignment) := by
  have hcopy : Keeps (Maintains fun s : Observing ↦ s.pages.Shown)
      (copyDirty hosts reserves range selection alignment) :=
    .bind (.read _) fun _ ↦ .bind (.read _) fun _ ↦ .bind (.lift _)
      fun _ ↦ .bind (.failIf _ _) fun _ ↦ .bind
        (Keeps.onPages (.of_same fun _ ↦ readIntervals_spec)) fun _ ↦ .ite (.pure _)
          (.bind (rearmQuiescent_shows hprotects _) fun _ ↦ .pure _)
  exact .bind (.failIf _ _) fun _ ↦ .bind (.read _) fun _ ↦ .bind
    (.failIf _ _) fun _ ↦ .ite (.bind (.update fun _ h ↦ h) fun _ ↦
      .pure _) (.bind (makeVisible_shows hprotects) fun _ ↦ hcopy)

end

end Nixe.Memory
