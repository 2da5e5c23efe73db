import Nixe.Memory.Backing

/-!
# What an operation does to a page

Between its start and its end an operation takes a page through several states, some of which
only make sense together: bytes are stored before the dirty epoch counts them, the observer is
armed before the aliases lose their write access. What the clients of a page rely on is a relation
between the states at the two ends, `Yields`, which is transitive, so that it extends to
sequences of operations.

* `Evolves` is the part about change: as long as the dirty epoch of an armed page is the same, the
  page is still armed and its canonical bytes are the same, unless the page was lost.
* `newest` is the part about authority: whoever has the newest bytes of a page, an operation that
  does not write leaves them as they are or loses them.
-/

namespace Nixe.Memory

open Std Method

namespace CanonicalBackingPage

/-- Nobody is known to have the newest bytes. No operation recovers from that. -/
def Lost (p : CanonicalBackingPage) : Prop := p.visibility = .conflicting ∨ p.visibility = .invalid

/-- While the observer is armed no store reaches the page without a call. -/
def Observed (p : CanonicalBackingPage) : Prop :=
  p.cpuDirtyObserverArmed = true →
    ∀ (key : AliasKey) (a : CanonicalDirectAlias),
      p.directAliases[key]? = some a → a.protection ≠ .readWrite

/-- The newest bytes of the page, wherever they are. -/
def newest (host : HostAnswers) (p : CanonicalBackingPage) : Option (Nat → UInt8) :=
  match p.visibility with
  | .clean | .cpuNewer => some p.contents
  | .gpuNewer device visibleAt =>
    match host.makeCpuVisible ⟨p.identity, p.size, device, visibleAt⟩ with
    | .ok bytes => some (overwrite p.contents 0 bytes)
    | .error _ => none
  | .conflicting | .invalid => none

/-- A write-back would change the canonical bytes, and the dirty epoch could not count that. -/
def Exhausted (p : CanonicalBackingPage) : Prop :=
  (∃ device visibleAt, p.visibility = .gpuNewer device visibleAt) ∧
    p.cpuDirtyObserverArmed = true ∧ wordBound ≤ p.cpuDirtyEpoch + 1

end CanonicalBackingPage

open CanonicalBackingPage

variable {host : HostAnswers} {lossy : Prop} {p q r : CanonicalBackingPage}

/-! ## Relations between states of a page -/

/-- The two states differ at most in the authority over the bytes, and the aliases. -/
structure SameBytes (p q : CanonicalBackingPage) : Prop where
  identity : q.identity = p.identity
  size : q.size = p.size
  contents : q.contents = p.contents
  allocated : p.backing.isSome = true → q.backing.isSome = true
  generation : q.generation = p.generation
  dirtyEpoch : q.cpuDirtyEpoch = p.cpuDirtyEpoch
  armed : q.cpuDirtyObserverArmed = p.cpuDirtyObserverArmed
  observed : p.Observed → q.Observed

/-- How the state of a page changes over time. The bytes of an armed page can change unnoticed only
if that is `lossy`, and then the page is lost. -/
structure Evolves (lossy : Prop) (p q : CanonicalBackingPage) : Prop where
  size : q.size = p.size
  generation_le : p.generation ≤ q.generation
  dirtyEpoch_le : p.cpuDirtyEpoch ≤ q.cpuDirtyEpoch
  lost : p.Lost → q.Lost
  observed : p.Observed → q.Observed
  unchanged : p.cpuDirtyObserverArmed = true → q.cpuDirtyEpoch = p.cpuDirtyEpoch →
    q.cpuDirtyObserverArmed = true ∧ (q.contents = p.contents ∨ lossy ∧ q.Lost)

/-- The page was armed, with the bytes `c`, when its dirty epoch `observed` was recorded. -/
structure Tracks (lossy : Prop) (observed : Nat) (c : Nat → UInt8) (p : CanonicalBackingPage) :
    Prop where
  le : observed ≤ p.cpuDirtyEpoch
  unchanged : p.cpuDirtyEpoch = observed →
    p.cpuDirtyObserverArmed = true ∧ (p.contents = c ∨ lossy ∧ p.Lost)

/-- What an operation does that does not write: it may move the newest bytes, or lose them. -/
structure Yields (host : HostAnswers) (lossy : Prop) (p q : CanonicalBackingPage) : Prop
    extends Evolves lossy p q where
  identity : q.identity = p.identity
  newest : ∀ c, q.newest host = some c → p.newest host = some c

/-- What an operation does that may write back: the bytes can change unnoticed only if the page was
exhausted, and the operation does not make it so. -/
structure Settles (host : HostAnswers) (p q : CanonicalBackingPage) : Prop
    extends Yields host p.Exhausted p q where
  exhausted : q.Exhausted → p.Exhausted

theorem SameBytes.refl (p : CanonicalBackingPage) : SameBytes p p :=
  ⟨rfl, rfl, rfl, id, rfl, rfl, rfl, id⟩

theorem SameBytes.trans (h : SameBytes p q) (h' : SameBytes q r) : SameBytes p r where
  identity := h'.identity.trans h.identity
  size := h'.size.trans h.size
  contents := h'.contents.trans h.contents
  allocated := h'.allocated ∘ h.allocated
  generation := h'.generation.trans h.generation
  dirtyEpoch := h'.dirtyEpoch.trans h.dirtyEpoch
  armed := h'.armed.trans h.armed
  observed := h'.observed ∘ h.observed

theorem Evolves.refl (p : CanonicalBackingPage) : Evolves lossy p p :=
  ⟨rfl, le_rfl, le_rfl, id, id, fun h _ ↦ ⟨h, .inl rfl⟩⟩

theorem Evolves.trans (h : Evolves lossy p q) (h' : Evolves lossy q r) : Evolves lossy p r where
  size := h'.size.trans h.size
  generation_le := h.generation_le.trans h'.generation_le
  dirtyEpoch_le := h.dirtyEpoch_le.trans h'.dirtyEpoch_le
  lost := h'.lost ∘ h.lost
  observed := h'.observed ∘ h.observed
  unchanged harmed hdirty := by
    have hle := h.dirtyEpoch_le
    have hle' := h'.dirtyEpoch_le
    obtain ⟨harmed, hq⟩ := h.unchanged harmed (by omega)
    obtain ⟨harmed, hr⟩ := h'.unchanged harmed (by omega)
    refine ⟨harmed, ?_⟩
    rcases hr with hr | hr
    · rcases hq with hq | ⟨hlossy, hlost⟩
      · exact .inl (hr.trans hq)
      · exact .inr ⟨hlossy, h'.lost hlost⟩
    · exact .inr hr

/-- As long as the dirty epoch is the recorded one, the bytes are. -/
theorem Tracks.evolves {observed : Nat} {c : Nat → UInt8} (h : Tracks lossy observed c p)
    (hpq : Evolves lossy p q) : Tracks lossy observed c q where
  le := h.le.trans hpq.dirtyEpoch_le
  unchanged hq := by
    have hp : p.cpuDirtyEpoch = observed := Nat.le_antisymm (hpq.dirtyEpoch_le.trans hq.le) h.le
    obtain ⟨harmed, hc⟩ := h.unchanged hp
    obtain ⟨harmed', hc'⟩ := hpq.unchanged harmed (hq.trans hp.symm)
    refine ⟨harmed', ?_⟩
    rcases hc' with hc' | hc'
    · rcases hc with hc | ⟨hlossy, hlost⟩
      · exact .inl (hc'.trans hc)
      · exact .inr ⟨hlossy, hpq.lost hlost⟩
    · exact .inr hc'

variable {lossy' : Prop}

theorem Tracks.mono {observed : Nat} {c : Nat → UInt8} (himp : lossy → lossy')
    (h : Tracks lossy observed c p) : Tracks lossy' observed c p where
  le := h.le
  unchanged heq := (h.unchanged heq).imp_right fun h ↦ h.imp_right fun h ↦ h.imp_left himp

theorem Evolves.mono (himp : lossy → lossy') (h : Evolves lossy p q) : Evolves lossy' p q :=
  { h with
    unchanged := fun harmed hdirty ↦
      (h.unchanged harmed hdirty).imp_right fun h ↦ h.imp_right fun h ↦ h.imp_left himp }

theorem Yields.refl (p : CanonicalBackingPage) : Yields host lossy p p :=
  ⟨.refl p, rfl, fun _ h ↦ h⟩

theorem Yields.trans (h : Yields host lossy p q) (h' : Yields host lossy q r) :
    Yields host lossy p r :=
  ⟨h.toEvolves.trans h'.toEvolves, h'.identity.trans h.identity,
    fun c hc ↦ h.newest c (h'.newest c hc)⟩

theorem Yields.mono (himp : lossy → lossy') (h : Yields host lossy p q) : Yields host lossy' p q :=
  ⟨h.toEvolves.mono himp, h.identity, h.newest⟩

theorem Settles.refl (p : CanonicalBackingPage) : Settles host p p := ⟨.refl p, id⟩

theorem Settles.trans (h : Settles host p q) (h' : Settles host q r) : Settles host p r :=
  ⟨h.toYields.trans (h'.toYields.mono h.exhausted), h.exhausted ∘ h'.exhausted⟩

theorem lost_congr (h : q.visibility = p.visibility) : q.Lost ↔ p.Lost := by rw [Lost, h, Lost]

theorem SameBytes.evolves (h : SameBytes p q) (hlost : p.Lost → q.Lost) : Evolves lossy p q where
  __ := h
  generation_le := h.generation.ge
  dirtyEpoch_le := h.dirtyEpoch.ge
  lost := hlost
  unchanged harmed _ := ⟨h.armed.trans harmed, .inl h.contents⟩

/-! ## Where the newest bytes are -/

theorem not_visible_of_lost (h : p.Lost) : ¬p.visibility.CpuVisible := by
  rcases h with h | h <;> simp [h, PageVisibility.CpuVisible]

/-- The bytes of a page that is visible to the CPU were not lost. -/
theorem Tracks.of_visible {lossy' : Prop} {observed : Nat} {c : Nat → UInt8}
    (h : Tracks lossy observed c p) (hvisible : p.visibility.CpuVisible) :
    Tracks lossy' observed c p where
  le := h.le
  unchanged heq := (h.unchanged heq).imp_right fun hc ↦
    .inl (hc.resolve_right fun hlost ↦ not_visible_of_lost hlost.2 hvisible)

theorem newest_of_visible (h : p.visibility.CpuVisible) : p.newest host = some p.contents := by
  rw [newest]
  cases hv : p.visibility <;> simp_all [PageVisibility.CpuVisible]

theorem newest_of_gpuNewer {device visibleAt : Nat}
    (h : p.visibility = .gpuNewer device visibleAt) :
    p.newest host = match host.makeCpuVisible ⟨p.identity, p.size, device, visibleAt⟩ with
      | .ok bytes => some (overwrite p.contents 0 bytes)
      | .error _ => none := by
  rw [newest, h]

theorem newest_of_lost (h : p.Lost) : p.newest host = none := by
  rw [newest]
  rcases h with h | h <;> rw [h]

theorem not_lost_of_gpuNewer {device visibleAt : Nat}
    (h : p.visibility = .gpuNewer device visibleAt) : ¬p.Lost := by
  simp [Lost, h]

theorem not_exhausted_of_visible (h : p.visibility.CpuVisible) : ¬p.Exhausted := by
  rintro ⟨⟨device, visibleAt, hv⟩, -⟩
  rw [hv] at h
  exact h

theorem not_exhausted_of_lost (h : p.Lost) : ¬p.Exhausted := by
  rintro ⟨⟨device, visibleAt, hv⟩, -⟩
  exact not_lost_of_gpuNewer hv h

theorem not_exhausted_of_disarmed (h : p.cpuDirtyObserverArmed = false) : ¬p.Exhausted :=
  fun hp ↦ absurd (h.symm.trans hp.2.1) (by simp)

/-- A change of authority that does not touch the bytes leaves the newest bytes where they are,
or loses them, or moves between the two states in which the CPU has them. -/
theorem SameBytes.yields (h : SameBytes p q)
    (hv : q.visibility = p.visibility ∨ q.Lost ∨
      p.visibility.CpuVisible ∧ q.visibility.CpuVisible) : Yields host lossy p q where
  toEvolves := h.evolves fun hlost ↦ by
    rcases hv with hv | hv | hv
    · exact (lost_congr hv).mpr hlost
    · exact hv
    · exact absurd hv.1 (not_visible_of_lost hlost)
  identity := h.identity
  newest c hc := by
    rcases hv with hv | hv | ⟨hp, hq⟩
    · rwa [CanonicalBackingPage.newest, hv, h.contents, h.identity, h.size] at hc
    · rw [newest_of_lost hv] at hc
      exact nomatch hc
    · rw [newest_of_visible hq, h.contents] at hc
      rwa [newest_of_visible hp]

theorem SameBytes.settles (h : SameBytes p q) (hv : q.visibility = p.visibility) :
    Settles host p q := by
  refine ⟨h.yields (.inl hv), ?_⟩
  rw [Exhausted, Exhausted, hv, h.armed, h.dirtyEpoch]
  exact id

/-! ## Protections -/

/-- The host refuses to protect some alias. -/
def CanonicalBackingPage.Refused (host : HostAnswers) (p : CanonicalBackingPage) : Prop :=
  (p.directAliases.keys.any fun key ↦ !host.protects key) = true

/-- The aliases as `publish_direct_alias_protection_for` leaves them, for the visibility `v`. -/
def CanonicalBackingPage.shownAs (host : HostAnswers) (v : PageVisibility)
    (p : CanonicalBackingPage) : CanonicalBackingPage :=
  p.protectAliases host.protects
    (aliasProtection (decide v.CpuVisible)
      (decide v.CpuVisible && decide (v = .cpuNewer) && !p.cpuDirtyObserverArmed))

/-- The aliases as `revoke_direct_access` leaves them. -/
def CanonicalBackingPage.revoked (host : HostAnswers) (p : CanonicalBackingPage) :
    CanonicalBackingPage :=
  p.protectAliases host.protects fun _ ↦ .none

theorem getElem?_protectAliases (complies : AliasKey → Bool)
    (protection : CanonicalDirectAlias → DirectProtection) (key : AliasKey) :
    (p.protectAliases complies protection).directAliases[key]? =
      p.directAliases[key]?.map fun a ↦
        if complies key then { a with protection := protection a } else a := by
  rw [protectAliases, ExtTreeMap.getElem?_map]

theorem sameBytes_protectAliases {complies : AliasKey → Bool}
    {protection : CanonicalDirectAlias → DirectProtection}
    (h : p.cpuDirtyObserverArmed = true → ∀ a, protection a ≠ .readWrite) :
    SameBytes p (p.protectAliases complies protection) where
  identity := rfl
  size := rfl
  contents := rfl
  allocated := id
  generation := rfl
  dirtyEpoch := rfl
  armed := rfl
  observed hp harmed key a ha := by
    rw [getElem?_protectAliases, Option.map_eq_some_iff] at ha
    obtain ⟨a', ha', rfl⟩ := ha
    split
    · exact h harmed a'
    · exact hp harmed key a' ha'

theorem aliasProtection_ne_readWrite (visible : Bool) (a : CanonicalDirectAlias) :
    aliasProtection visible false a ≠ .readWrite := by
  cases visible <;> cases hm : a.maximumProtection <;> simp [aliasProtection, hm]

theorem sameBytes_shownAs (v : PageVisibility) : SameBytes p (p.shownAs host v) := by
  refine sameBytes_protectAliases fun harmed a ↦ ?_
  rw [harmed, Bool.not_true, Bool.and_false]
  exact aliasProtection_ne_readWrite _ a

theorem sameBytes_revoked : SameBytes p (p.revoked host) :=
  sameBytes_protectAliases fun _ _ ↦ nofun

theorem protects_of_not_refused (h : ¬p.Refused host) {key : AliasKey} {a : CanonicalDirectAlias}
    (ha : p.directAliases[key]? = some a) : host.protects key = true := by
  rw [Refused, List.any_eq_true] at h
  by_contra hkey
  refine h ⟨key, ExtTreeMap.mem_keys.mpr (mem_of_getElem?_eq_some ha), ?_⟩
  rw [Bool.not_eq_true] at hkey
  rw [hkey, Bool.not_false]

/-- The host does what arming a page asks of it. -/
def HostAnswers.Complies (host : HostAnswers) : Prop :=
  host.allocates = true ∧ ∀ key, host.protects key = true

theorem not_refused_of_protects (h : ∀ key, host.protects key = true) : ¬p.Refused host := by
  rw [Refused, List.any_eq_true]
  rintro ⟨key, -, hkey⟩
  rw [h key] at hkey
  exact nomatch hkey

/-- The authority can be changed without touching anything that `SameBytes` compares. -/
theorem SameBytes.withVisibility (h : SameBytes p q) (v : PageVisibility) (epoch : Nat) :
    SameBytes p { q with visibility := v, visibilityEpoch := epoch } :=
  { h with observed := h.observed }

/-! ## Transitions -/

theorem publishDirectAliases_spec (protection : CanonicalDirectAlias → DirectProtection) :
    wp (publishDirectAliases host protection)
      ⟨fun _ q ↦ ¬p.Refused host ∧ q = p.protectAliases host.protects protection,
        fun _ q ↦ p.Refused host ∧ q = p.protectAliases host.protects protection, False⟩ p := by
  simp only [publishDirectAliases, wp_rules, Refused]
  exact ⟨fun h ↦ ⟨h, trivial⟩, fun h ↦ ⟨h, trivial⟩⟩

theorem publishDirectAliasProtection_spec :
    wp (publishDirectAliasProtection host)
      ⟨fun _ q ↦ ¬p.Refused host ∧ q = p.shownAs host p.visibility,
        fun _ q ↦ p.Refused host ∧ q = p.shownAs host p.visibility, False⟩ p := by
  simp only [publishDirectAliasProtection, publishDirectAliasProtectionFor, wp_rules]
  exact publishDirectAliases_spec _

theorem publishVisibility_spec (v : PageVisibility) :
    wp (publishVisibility host v)
      ⟨fun _ q ↦ p.visibilityEpoch + 1 < wordBound ∧ ¬p.Refused host ∧
          q = { p.shownAs host v with visibility := v, visibilityEpoch := p.visibilityEpoch + 1 },
        fun _ q ↦ wordBound ≤ p.visibilityEpoch + 1 ∧ q = p.invalidated ∨
          p.Refused host ∧ q = (p.shownAs host v).invalidated, False⟩ p := by
  simp only [publishVisibility, wp_rules]
  split
  · rename_i h
    exact .inl ⟨checkedAdd_eq_none_iff.mp h, rfl⟩
  · rename_i next h
    obtain ⟨hlt, rfl⟩ := checkedAdd_eq_some_iff.mp h
    simp only [wp_rules, wp_onErr, publishDirectAliasProtectionFor]
    refine wp_of_wp (publishDirectAliases_spec _) ?_ ?_
    · rintro _ q ⟨hrefused, rfl⟩
      exact ⟨hlt, hrefused, rfl⟩
    · rintro _ q ⟨hrefused, rfl⟩
      exact .inr ⟨hrefused, rfl⟩

/-- A change of authority touches no bytes. If it fails the page is lost. -/
theorem publishVisibility_sameBytes (v : PageVisibility) :
    wp (publishVisibility host v)
      ⟨fun _ q ↦ SameBytes p q ∧ q.visibility = v, fun _ q ↦ SameBytes p q ∧ q.Lost, False⟩ p := by
  refine wp_of_wp (publishVisibility_spec v) ?_ ?_
  · rintro _ q ⟨-, -, rfl⟩
    exact ⟨(sameBytes_shownAs v).withVisibility _ _, rfl⟩
  · rintro _ q (⟨-, rfl⟩ | ⟨-, rfl⟩)
    · exact ⟨(SameBytes.refl p).withVisibility _ _, .inr rfl⟩
    · exact ⟨(sameBytes_shownAs v).withVisibility _ _, .inr rfl⟩

/-- Giving up a page: `publish_visibility` and an error. -/
theorem publishLost_spec {v : PageVisibility} (hv : v = .conflicting ∨ v = .invalid)
    (error : VisibilityError) :
    wp (publishVisibility host v >>= fun _ ↦ fail error : VisibilityM Unit)
      ⟨fun _ _ ↦ False, fun _ q ↦ SameBytes p q ∧ q.Lost, False⟩ p := by
  simp only [wp_rules]
  refine wp_of_ok (publishVisibility_sameBytes v) ?_
  rintro _ q ⟨hq, rfl⟩
  exact ⟨hq, hv⟩

theorem revokeDirectAccess_spec :
    wp (revokeDirectAccess host)
      ⟨fun _ q ↦ ¬p.Refused host ∧ p.visibilityEpoch + 1 < wordBound ∧
          q = { p.revoked host with visibilityEpoch := p.visibilityEpoch + 1 },
        fun _ q ↦ (p.Refused host ∨ wordBound ≤ p.visibilityEpoch + 1) ∧
          q = (p.revoked host).invalidated, False⟩ p := by
  simp only [revokeDirectAccess, wp_rules, wp_onErr]
  refine wp_of_wp (publishDirectAliases_spec _) ?_ ?_
  · rintro _ q ⟨hrefused, rfl⟩
    dsimp only
    split
    · rename_i h
      exact ⟨.inr (checkedAdd_eq_none_iff.mp h), rfl⟩
    · rename_i next h
      obtain ⟨hlt, rfl⟩ := checkedAdd_eq_some_iff.mp h
      exact ⟨hrefused, hlt, rfl⟩
  · rintro _ q ⟨hrefused, rfl⟩
    exact ⟨.inl hrefused, rfl⟩

theorem revokeDirectAccess_sameBytes :
    wp (revokeDirectAccess host)
      ⟨fun _ q ↦ SameBytes p q ∧ q.visibility = p.visibility,
        fun _ q ↦ SameBytes p q ∧ q.Lost, False⟩ p := by
  refine wp_of_wp revokeDirectAccess_spec ?_ ?_
  · rintro _ q ⟨-, -, rfl⟩
    exact ⟨sameBytes_revoked.withVisibility _ _, rfl⟩
  · rintro _ q ⟨-, rfl⟩
    exact ⟨sameBytes_revoked.withVisibility _ _, .inr rfl⟩

/-! ## Counting a write -/

/-- The page after a write was counted. -/
def CanonicalBackingPage.dirtied (host : HostAnswers) (p : CanonicalBackingPage) :
    CanonicalBackingPage :=
  CanonicalBackingPage.shownAs host p.visibility
    { p with cpuDirtyObserverArmed := false, cpuDirtyEpoch := p.cpuDirtyEpoch + 1 }

/-- The state in which a write is counted: the observer is disarmed, and if it was armed the dirty
epoch is a new one. -/
structure Counted (p q : CanonicalBackingPage) : Prop where
  identity : q.identity = p.identity
  size : q.size = p.size
  backing : q.backing = p.backing
  generation : q.generation = p.generation
  visibility : q.visibility = p.visibility
  disarmed : q.cpuDirtyObserverArmed = false
  dirtyEpoch_le : p.cpuDirtyEpoch ≤ q.cpuDirtyEpoch
  dirtyEpoch_lt : p.cpuDirtyObserverArmed = true → p.cpuDirtyEpoch < q.cpuDirtyEpoch

theorem counted_dirtied : Counted p (p.dirtied host) :=
  ⟨rfl, rfl, rfl, rfl, rfl, rfl, Nat.le_succ _, fun _ ↦ Nat.lt_succ_self _⟩

theorem Counted.contents (h : Counted p q) : q.contents = p.contents := by
  rw [CanonicalBackingPage.contents, h.backing, CanonicalBackingPage.contents]

theorem Counted.yields (h : Counted p q) : Yields host lossy p q where
  __ := h
  generation_le := h.generation.ge
  lost := (lost_congr h.visibility).mpr
  observed _ harmed := absurd (h.disarmed.symm.trans harmed) (by simp)
  unchanged harmed hdirty := absurd hdirty (h.dirtyEpoch_lt harmed).ne'
  newest c hc := by
    rwa [CanonicalBackingPage.newest, h.visibility, h.contents, h.identity, h.size] at hc

theorem publishCpuDirty_spec :
    wp (publishCpuDirty host)
      ⟨fun _ q ↦ p.cpuDirtyObserverArmed = false ∧ q = p ∨
          p.cpuDirtyObserverArmed = true ∧ ¬p.Refused host ∧ q = p.dirtied host,
        fun _ q ↦ p.cpuDirtyObserverArmed = true ∧ (p.Refused host ∧ q = p.dirtied host ∨
          wordBound ≤ p.cpuDirtyEpoch + 1 ∧
            ∃ epoch, q = { (p.revoked host).invalidated with visibilityEpoch := epoch }),
        False⟩ p := by
  simp only [publishCpuDirty, wp_rules, wp_ite]
  refine ⟨fun harmed ↦ ?_, fun harmed ↦ .inl ⟨Bool.eq_false_iff.mpr harmed, trivial⟩⟩
  split
  · rename_i h
    have hmax := checkedAdd_eq_none_iff.mp h
    simp only [wp_rules]
    refine wp_of_wp revokeDirectAccess_spec ?_ ?_
    · rintro _ q ⟨-, -, rfl⟩
      exact ⟨harmed, .inr ⟨hmax, _, rfl⟩⟩
    · rintro _ q ⟨-, rfl⟩
      exact ⟨harmed, .inr ⟨hmax, _, rfl⟩⟩
  · rename_i next h
    obtain ⟨-, rfl⟩ := checkedAdd_eq_some_iff.mp h
    simp only [wp_rules]
    refine wp_of_wp publishDirectAliasProtection_spec ?_ ?_
    · rintro _ q ⟨hrefused, rfl⟩
      exact .inr ⟨harmed, hrefused, rfl⟩
    · rintro _ q ⟨hrefused, rfl⟩
      exact ⟨harmed, .inl ⟨hrefused, rfl⟩⟩

/-- A write is counted, or the page is lost because it cannot be. -/
theorem publishCpuDirty_counted :
    wp (publishCpuDirty host)
      ⟨fun _ q ↦ Counted p q, fun _ q ↦ Counted p q ∨
        SameBytes p q ∧ q.Lost ∧ p.cpuDirtyObserverArmed = true ∧ wordBound ≤ p.cpuDirtyEpoch + 1,
        False⟩ p := by
  refine wp_of_wp publishCpuDirty_spec ?_ ?_
  · rintro _ q (⟨hdisarmed, rfl⟩ | ⟨-, -, rfl⟩)
    · exact ⟨rfl, rfl, rfl, rfl, rfl, hdisarmed, le_rfl, fun h ↦ by cases hdisarmed.symm.trans h⟩
    · exact counted_dirtied
  · rintro _ q ⟨harmed, ⟨-, rfl⟩ | ⟨hmax, epoch, rfl⟩⟩
    · exact .inl counted_dirtied
    · exact .inr ⟨sameBytes_revoked.withVisibility _ _, .inr rfl, harmed, hmax⟩

/-! ## Host memory -/

/-- The page with its host memory allocated. -/
def CanonicalBackingPage.materialized (p : CanonicalBackingPage) : CanonicalBackingPage :=
  { p with backing := some p.contents }

theorem materialized_of_eq_some {c : Nat → UInt8} (h : p.backing = some c) :
    p.materialized = p := by
  obtain ⟨⟩ := p
  cases h
  rfl

theorem sameBytes_materialized : SameBytes p p.materialized :=
  ⟨rfl, rfl, rfl, fun _ ↦ rfl, rfl, rfl, rfl, id⟩

theorem ensureBacking_spec :
    wp (ensureBacking host)
      ⟨fun _ q ↦ q = p.materialized, fun _ q ↦ q = p ∧ host.allocates = false, False⟩ p := by
  simp only [ensureBacking, wp_rules]
  split
  · rename_i c h
    exact (materialized_of_eq_some h).symm
  · rename_i h
    simp only [wp_rules]
    exact ⟨fun halloc ↦ ⟨trivial, halloc⟩, fun _ ↦ by rw [materialized, contents, h]; rfl⟩

@[simp] theorem contents_stored (offset : Nat) (bytes : List UInt8) :
    (p.stored offset bytes).contents = overwrite p.contents offset bytes := rfl

theorem stored_nil {offset : Nat} (h : p.backing.isSome = true) : p.stored offset [] = p := by
  obtain ⟨c, hc⟩ := Option.isSome_iff_exists.mp h
  rw [stored, overwrite_nil]
  exact materialized_of_eq_some hc

theorem copyBytes_spec {offset : Nat} {bytes : List UInt8} (h : p.backing.isSome = true) :
    wp (copyBytes offset bytes)
      ⟨fun _ q ↦ q = p.stored offset bytes, fun _ _ ↦ False, False⟩ p := by
  obtain ⟨c, hc⟩ := Option.isSome_iff_exists.mp h
  simp only [copyBytes, wp_rules, wp_expect]
  refine ⟨fun c' hc' ↦ ?_, fun hnone ↦ absurd (hc.symm.trans hnone) (by simp)⟩
  rw [stored, contents, hc', Option.getD_some]

/-! ## Write-backs -/

section

variable {device visibleAt : Nat} {bytes : List UInt8}

/-- The canonical bytes after the bytes of the device were stored are the newest bytes. -/
theorem Yields.of_stored (hv : p.visibility = .gpuNewer device visibleAt)
    (hanswer : host.makeCpuVisible ⟨p.identity, p.size, device, visibleAt⟩ = .ok bytes)
    (identity : q.identity = p.identity) (size : q.size = p.size)
    (hcontents : q.contents = overwrite p.contents 0 bytes)
    (generation_le : p.generation ≤ q.generation)
    (dirtyEpoch_le : p.cpuDirtyEpoch ≤ q.cpuDirtyEpoch)
    (observed : p.Observed → q.Observed)
    (unchanged : p.cpuDirtyObserverArmed = true → q.cpuDirtyEpoch = p.cpuDirtyEpoch →
      q.cpuDirtyObserverArmed = true ∧ lossy ∧ q.Lost)
    (hvisibility : q.visibility = p.visibility ∨ q.visibility.CpuVisible ∨ q.Lost) :
    Yields host lossy p q where
  size := size
  generation_le := generation_le
  dirtyEpoch_le := dirtyEpoch_le
  lost hlost := absurd hlost (not_lost_of_gpuNewer hv)
  observed := observed
  unchanged harmed hdirty := (unchanged harmed hdirty).imp_right .inr
  identity := identity
  newest c hc := by
    rw [newest_of_gpuNewer hv, hanswer]
    rcases hvisibility with hvis | hvis | hvis
    · rw [newest_of_gpuNewer (hvis.trans hv), identity, size, hanswer, hcontents] at hc
      simpa [overwrite_overwrite_of_length_le] using hc
    · rwa [newest_of_visible hvis, hcontents] at hc
    · rw [newest_of_lost hvis] at hc
      exact nomatch hc

theorem storeWriteback_spec {nextGeneration : Nat} (hbacking : p.backing.isSome = true)
    (hgeneration : p.generation ≤ nextGeneration) (hv : p.visibility = .gpuNewer device visibleAt)
    (hanswer : host.makeCpuVisible ⟨p.identity, p.size, device, visibleAt⟩ = .ok bytes) :
    wp (storeWriteback host bytes nextGeneration)
      ⟨fun _ q ↦ Settles host p q ∧ q.visibility = .clean, fun _ q ↦ Settles host p q,
        False⟩ p := by
  simp only [storeWriteback, wp_rules]
  refine wp_of_ok (copyBytes_spec hbacking) ?_
  rintro _ _ rfl
  refine wp_of_wp publishCpuDirty_counted ?_ ?_
  · rintro _ s hs
    have hmoved : ∀ q, SameBytes s q → q.visibility.CpuVisible ∨ q.Lost → Settles host p q := by
      intro q hq hvis
      have hdisarmed := hq.armed.trans hs.disarmed
      refine ⟨?_, fun h ↦ absurd h (not_exhausted_of_disarmed hdisarmed)⟩
      exact .of_stored hv hanswer (hq.identity.trans hs.identity) (hq.size.trans hs.size)
        (hq.contents.trans hs.contents) (hgeneration.trans (hq.generation.trans hs.generation).ge)
        (hs.dirtyEpoch_le.trans hq.dirtyEpoch.ge)
        (fun _ harmed ↦ absurd (hdisarmed.symm.trans harmed) (by simp))
        (fun harmed hdirty ↦ absurd (hq.dirtyEpoch.symm.trans hdirty) (hs.dirtyEpoch_lt harmed).ne')
        (.inr hvis)
    refine wp_of_wp (publishVisibility_sameBytes .clean) ?_ ?_
    · rintro _ q ⟨hq, hclean⟩
      exact ⟨hmoved q hq (.inl (hclean ▸ trivial)), hclean⟩
    · rintro _ q ⟨hq, hlost⟩
      exact hmoved q hq (.inr hlost)
  · rintro _ q (hq | ⟨hq, hlost, harmed, hmax⟩)
    · refine ⟨?_, fun h ↦ absurd h (not_exhausted_of_disarmed hq.disarmed)⟩
      exact .of_stored hv hanswer hq.identity hq.size hq.contents
        (hgeneration.trans hq.generation.ge) hq.dirtyEpoch_le
        (fun _ harmed ↦ absurd (hq.disarmed.symm.trans harmed) (by simp))
        (fun harmed hdirty ↦ absurd hdirty (hq.dirtyEpoch_lt harmed).ne') (.inl hq.visibility)
    · refine ⟨?_, fun h ↦ absurd h (not_exhausted_of_lost hlost)⟩
      exact .of_stored hv hanswer hq.identity hq.size hq.contents
        (hgeneration.trans hq.generation.ge) hq.dirtyEpoch.ge (fun hp ↦ hq.observed hp)
        (fun harmed _ ↦ ⟨hq.armed.trans harmed, ⟨⟨_, _, hv⟩, harmed, hmax⟩, hlost⟩)
        (.inr (.inr hlost))

theorem writeBack_spec (hv : p.visibility = .gpuNewer device visibleAt) :
    wp (writeBack host device visibleAt)
      ⟨fun _ q ↦ Settles host p q ∧ q.visibility = .clean, fun _ q ↦ Settles host p q,
        False⟩ p := by
  have hinvalid : ∀ q, SameBytes p q → ∀ error,
      wp (publishVisibility host .invalid >>= fun _ ↦ fail error : VisibilityM Unit)
        ⟨fun _ q ↦ Settles host p q ∧ q.visibility = .clean, fun _ q ↦ Settles host p q,
          False⟩ q := by
    intro q hq error
    refine wp_of_wp (publishLost_spec (.inr rfl) error) (fun _ _ h ↦ h.elim) ?_
    rintro _ r ⟨hr, hlost⟩
    exact ⟨(hq.trans hr).yields (.inr (.inl hlost)), fun h ↦ absurd h (not_exhausted_of_lost hlost)⟩
  simp only [writeBack, wp_rules]
  split
  · exact hinvalid p (.refl p) _
  · rename_i next h
    obtain ⟨-, rfl⟩ := checkedAdd_eq_some_iff.mp h
    simp only [wp_rules]
    refine wp_of_wp ensureBacking_spec ?_ ?_
    · rintro _ q rfl
      dsimp only
      split
      · exact hinvalid _ sameBytes_materialized _
      · rename_i bytes hanswer
        rw [wp_ite]
        refine ⟨fun _ ↦ ?_, fun _ ↦ hinvalid _ sameBytes_materialized _⟩
        have hfirst : Settles host p p.materialized :=
          ⟨sameBytes_materialized.yields (.inl rfl), id⟩
        refine wp_of_wp (storeWriteback_spec rfl (Nat.le_succ p.generation) hv hanswer) ?_ ?_
        · rintro _ q ⟨hq, hclean⟩
          exact ⟨hfirst.trans hq, hclean⟩
        · intro _ q hq
          exact hfirst.trans hq
    · rintro _ q ⟨rfl, -⟩
      exact .refl q

theorem ensureCpuVisible_spec :
    wp (ensureCpuVisible host)
      ⟨fun _ q ↦ Settles host p q ∧ q.visibility.CpuVisible ∧ (p.visibility.CpuVisible → q = p),
        fun _ q ↦ Settles host p q, False⟩ p := by
  simp only [ensureCpuVisible, wp_rules]
  split
  · rename_i h
    exact ⟨.refl p, h ▸ trivial, fun _ ↦ rfl⟩
  · rename_i h
    exact ⟨.refl p, h ▸ trivial, fun _ ↦ rfl⟩
  · exact Settles.refl p
  · exact Settles.refl p
  · rename_i device visibleAt h
    refine wp_of_ok (writeBack_spec h) ?_
    rintro _ q ⟨hq, hclean⟩
    exact ⟨hq, hclean ▸ trivial, fun hvisible ↦ by rw [h] at hvisible; exact hvisible.elim⟩

end

end Nixe.Memory
