import Nixe.Memory.Dependency

/-!
# What a dependency knows

For each of its pages a dependency has recorded a dirty epoch. It is *tracked* by bytes `c` if the
pages had these bytes when their epochs were recorded, so that a page with the recorded epoch has
them still. Arming changes no bytes, and a successful call leaves a dependency that is tracked by
the bytes as they are; a failed one may have recorded new epochs for some of the pages.
-/

namespace Nixe.Memory

open Std Method CanonicalBackingPage Function ExtTreeMap List

variable {host : HostAnswers} {hosts : Nat → HostAnswers} {pages pages' pages'' : PageHeap}
  {p q r : CanonicalBackingPage} {s t u : Observing}

/-! ## Arming pages -/

/-- Arming changes neither the bytes of a page nor who has the newest ones. -/
structure ArmsPage (host : HostAnswers) (p q : CanonicalBackingPage) : Prop
    extends Yields host False p q where
  contents : q.contents = p.contents
  dirtyEpoch : q.cpuDirtyEpoch = p.cpuDirtyEpoch
  visibility : q.visibility = p.visibility

theorem ArmsPage.refl (p : CanonicalBackingPage) : ArmsPage host p p := ⟨.refl p, rfl, rfl, rfl⟩

theorem ArmsPage.trans (h : ArmsPage host p q) (h' : ArmsPage host q r) : ArmsPage host p r :=
  ⟨h.toYields.trans h'.toYields, h'.contents.trans h.contents, h'.dirtyEpoch.trans h.dirtyEpoch,
    h'.visibility.trans h.visibility⟩

theorem Armed.armsPage (h : Armed p q) : ArmsPage host p q :=
  ⟨h.yields, h.contents, h.dirtyEpoch, h.visibility⟩

theorem SameBytes.armsPage (h : SameBytes p q) (hv : q.visibility = p.visibility) :
    ArmsPage host p q :=
  ⟨h.yields (.inl hv), h.contents, h.dirtyEpoch, hv⟩

def Arms (hosts : Nat → HostAnswers) (pages pages' : PageHeap) : Prop :=
  ∀ page, ArmsPage (hosts page) (pages page) (pages' page)

theorem Arms.refl (pages : PageHeap) : Arms hosts pages pages := fun _ ↦ .refl _

theorem Arms.trans (h : Arms hosts pages pages') (h' : Arms hosts pages' pages'') :
    Arms hosts pages pages'' := fun page ↦ (h page).trans (h' page)

theorem Arms.contents (h : Arms hosts pages pages') : pages'.contents = pages.contents :=
  funext fun page ↦ (h page).contents

theorem arms_update {page : Nat} (h : ArmsPage (hosts page) (pages page) q) :
    Arms hosts pages (Function.update pages page q) := by
  intro page'
  by_cases hpage : page' = page
  · subst hpage
    rwa [update_self]
  · rw [update_of_ne hpage]
    exact .refl _

/-- The page is armed in the epoch `observed`. -/
def ArmedIn (observed : Nat) (p : CanonicalBackingPage) : Prop :=
  p.cpuDirtyObserverArmed = true ∧ p.cpuDirtyEpoch = observed

theorem ArmedIn.armsPage {observed : Nat} (h : ArmedIn observed p) (hpq : ArmsPage host p q) :
    ArmedIn observed q :=
  ⟨(hpq.unchanged h.1 hpq.dirtyEpoch).1, hpq.dirtyEpoch.trans h.2⟩

theorem ArmedIn.tracks {observed : Nat} (h : ArmedIn observed p) :
    Tracks False observed p.contents p :=
  ⟨h.2.ge, fun _ ↦ ⟨h.1, .inl rfl⟩⟩

theorem armPages_spec (list : List Nat) :
    wp (armPages hosts list)
      ⟨fun observed pages' ↦ Arms hosts pages pages' ∧
          (∀ page epoch, observed[page]? = some epoch → ArmedIn epoch (pages' page)) ∧
          ∀ page ∈ list, page ∈ observed,
        fun _ pages' ↦ Arms hosts pages pages', False⟩ pages := by
  induction list generalizing pages with
  | nil =>
    refine ⟨.refl pages, fun page epoch h ↦ ?_, nofun⟩
    rw [ExtTreeMap.getElem?_empty] at h
    exact nomatch h
  | cons page list ih =>
    simp only [armPages, wp_rules, wp_onPage]
    refine wp_of_wp armCpuDirtyObserverQuiescent_spec ?_ ?_
    · rintro _ q ⟨harmed, rfl⟩
      have hfirst : Arms hosts pages (Function.update pages page q) := arms_update harmed.armsPage
      refine wp_of_wp ih ?_ (fun _ _ h ↦ hfirst.trans h)
      rintro rest pages' ⟨harms, hrest, hmem⟩
      refine ⟨hfirst.trans harms, fun page' epoch hepoch ↦ ?_, fun page' hpage' ↦ ?_⟩
      · rcases getElem?_insert_eq_some_iff.mp hepoch with ⟨rfl, rfl⟩ | ⟨-, hepoch⟩
        · have hpage := harms page'
          rw [update_self] at hpage
          exact ArmedIn.armsPage ⟨harmed.armed, rfl⟩ hpage
        · exact hrest page' epoch hepoch
      · exact mem_map_insert_iff.mpr ((mem_cons.mp hpage').imp_right (hmem page'))
    · rintro _ q ⟨hq, hv, -⟩
      exact arms_update (hq.armsPage hv)

/-! ## Arming again -/

/-- Some of the epochs may have been recorded again, of pages that are armed in them. -/
structure Rearms (hosts : Nat → HostAnswers) (s t : Observing) : Prop where
  arms : Arms hosts s.pages t.pages
  mem : ∀ page, page ∈ t.dependency.pages ↔ page ∈ s.dependency.pages
  observed : ∀ page epoch, t.dependency.pages[page]? = some epoch →
    s.dependency.pages[page]? = some epoch ∨ ArmedIn epoch (t.pages page)

theorem Rearms.refl (s : Observing) : Rearms hosts s s := ⟨.refl _, fun _ ↦ Iff.rfl, fun _ _ ↦ .inl⟩

theorem Rearms.trans (h : Rearms hosts s t) (h' : Rearms hosts t u) : Rearms hosts s u where
  arms := h.arms.trans h'.arms
  mem page := (h'.mem page).trans (h.mem page)
  observed page epoch hepoch := by
    rcases h'.observed page epoch hepoch with hepoch | harmed
    · rcases h.observed page epoch hepoch with hepoch | harmed
      · exact .inl hepoch
      · exact .inr (harmed.armsPage (h'.arms page))
    · exact .inr harmed

theorem rearmPage_spec {page : Nat} (hpage : page ∈ s.dependency.pages) :
    wp (rearmPage hosts page)
      ⟨fun _ t ↦ Rearms hosts s t ∧ t.dependency.volatile = s.dependency.volatile ∧
          ∀ epoch, t.dependency.pages[page]? = some epoch → ArmedIn epoch (t.pages page),
        fun _ t ↦ Rearms hosts s t ∧ t.dependency.volatile = s.dependency.volatile ∧
          ((hosts page).Complies → (s.pages page).Lost), False⟩ s := by
  simp only [rearmPage, onPages, wp_rules, wp_focus, wp_onPage]
  refine wp_of_wp armCpuDirtyObserverQuiescent_spec ?_ ?_
  · rintro _ q ⟨harmed, rfl⟩
    have hin : ∀ epoch, (s.dependency.pages.insert page q.cpuDirtyEpoch)[page]? = some epoch →
        ArmedIn epoch (Function.update s.pages page q page) := by
      intro epoch hepoch
      rw [ExtTreeMap.getElem?_insert_self] at hepoch
      rw [update_self]
      exact ⟨harmed.armed, Option.some.inj hepoch⟩
    refine ⟨⟨arms_update harmed.armsPage, fun page' ↦ ?_, fun page' epoch hepoch ↦ ?_⟩, trivial,
      hin⟩
    · rw [mem_map_insert_iff]
      exact ⟨fun h ↦ h.elim (fun h ↦ h ▸ hpage) id, .inr⟩
    · by_cases hne : page' = page
      · subst hne
        exact .inr (hin epoch hepoch)
      · rcases getElem?_insert_eq_some_iff.mp hepoch with ⟨heq, -⟩ | ⟨-, hepoch⟩
        · exact absurd heq hne
        · exact .inl hepoch
  · rintro _ q ⟨hq, hv, hcomplies⟩
    exact ⟨⟨arms_update (hq.armsPage hv), fun _ ↦ Iff.rfl, fun _ _ ↦ .inl⟩, trivial, hcomplies⟩

theorem forEach_rearmPage_spec {list : List Nat}
    (hlist : ∀ page ∈ list, page ∈ s.dependency.pages) :
    wp (forEach (fun page ↦ mapErr .backing (rearmPage hosts page)) list :
        Method CanonicalRangeAccessError Observing Unit)
      ⟨fun _ t ↦ Rearms hosts s t ∧ t.dependency.volatile = s.dependency.volatile ∧
          ∀ page ∈ list, ∀ epoch, t.dependency.pages[page]? = some epoch →
            ArmedIn epoch (t.pages page),
        fun _ t ↦ Rearms hosts s t ∧ t.dependency.volatile = s.dependency.volatile ∧
          ∃ page ∈ list, (hosts page).Complies → (s.pages page).Lost, False⟩ s := by
  induction list generalizing s with
  | nil => exact ⟨.refl s, rfl, nofun⟩
  | cons page list ih =>
    obtain ⟨hpage, hlist⟩ := forall_mem_cons.mp hlist
    simp only [forEach, wp_rules]
    refine wp_of_wp (rearmPage_spec hpage) ?_ ?_
    · rintro _ t ⟨hst, hvolatile, harmed⟩
      refine wp_of_wp (ih fun page' hpage' ↦ (hst.mem page').mpr (hlist page' hpage')) ?_ ?_
      · rintro _ u ⟨htu, hvolatile', hrest⟩
        refine ⟨hst.trans htu, hvolatile'.trans hvolatile, fun page' hpage' epoch hepoch ↦ ?_⟩
        rcases mem_cons.mp hpage' with rfl | hpage'
        · rcases htu.observed page' epoch hepoch with hepoch | harmed'
          · exact (harmed epoch hepoch).armsPage (htu.arms page')
          · exact harmed'
        · exact hrest page' hpage' epoch hepoch
      · rintro _ u ⟨htu, hvolatile', page', hpage', hlost⟩
        refine ⟨hst.trans htu, hvolatile'.trans hvolatile, page', mem_cons_of_mem _ hpage',
          fun hcomplies ↦ ?_⟩
        exact (lost_congr (hst.arms page').visibility).mp (hlost hcomplies)
    · rintro _ t ⟨hst, hvolatile, hlost⟩
      exact ⟨hst, hvolatile, page, mem_cons_self, hlost⟩

/-- All epochs are recorded of pages that are armed in them. -/
def Observing.Fresh (s : Observing) : Prop :=
  ∀ page epoch, s.dependency.pages[page]? = some epoch → ArmedIn epoch (s.pages page)

/-- Arming again ends with a fresh dependency or with a volatile one, unless a page is lost or the
host refuses. -/
theorem rearmQuiescent_spec {dirty : Bool} :
    wp (rearmQuiescent hosts dirty)
      ⟨fun _ t ↦ Rearms hosts s t ∧ (t.dependency.volatile = false → t.Fresh),
        fun _ t ↦ Rearms hosts s t ∧ t.dependency.volatile = s.dependency.volatile ∧
          ∃ page ∈ s.dependency.pages, (hosts page).Complies → (s.pages page).Lost, False⟩ s := by
  simp only [rearmQuiescent, wp_rules, wp_ite]
  have hcounted : ∀ n, Rearms hosts s
      { s with dependency := { s.dependency with consecutiveDirty := n } } :=
    fun _ ↦ ⟨.refl _, fun _ ↦ Iff.rfl, fun _ _ ↦ .inl⟩
  refine ⟨fun _ ↦ ⟨⟨.refl _, fun _ ↦ Iff.rfl, fun _ _ ↦ .inl⟩, by simp⟩, fun _ ↦ ?_⟩
  refine wp_of_wp (forEach_rearmPage_spec fun page hpage ↦ mem_keys.mp hpage) ?_ ?_
  · rintro _ t ⟨hst, -, harmed⟩
    refine ⟨(hcounted _).trans hst, fun _ page epoch hepoch ↦ harmed page ?_ epoch hepoch⟩
    rw [ExtTreeMap.mem_keys, ← hst.mem]
    exact mem_of_getElem?_eq_some hepoch
  · rintro _ t ⟨hst, hvolatile, page, hpage, hlost⟩
    exact ⟨(hcounted _).trans hst, hvolatile, page, mem_keys.mp hpage, hlost⟩

/-! ## Tracking -/

/-- The pages had the bytes `c` when their epochs were recorded. A volatile dependency has given
up on that. -/
def Observing.Tracked (s : Observing) (c : Nat → Nat → UInt8) : Prop :=
  s.dependency.volatile = false → ∀ page epoch, s.dependency.pages[page]? = some epoch →
    Tracks False epoch (c page) (s.pages page)

theorem Observing.tracked_of_fresh (h : s.dependency.volatile = false → s.Fresh) :
    s.Tracked s.pages.contents :=
  fun hvolatile page epoch hepoch ↦ (h hvolatile page epoch hepoch).tracks

theorem Observing.Tracked.evolves {c : Nat → Nat → UInt8} (h : s.Tracked c)
    (hdependency : t.dependency.pages = s.dependency.pages)
    (hvolatile : t.dependency.volatile = false → s.dependency.volatile = false)
    (hpages : ∀ page ∈ s.dependency.pages, Evolves False (s.pages page) (t.pages page)) :
    t.Tracked c := by
  intro hv page epoch hepoch
  rw [hdependency] at hepoch
  exact (h (hvolatile hv) page epoch hepoch).evolves (hpages page (mem_of_getElem?_eq_some hepoch))

theorem CanonicalCpuWriteDependency.mem_dirtyPages_iff {dependency : CanonicalCpuWriteDependency}
    {page : Nat} :
    page ∈ dependency.dirtyPages pages ↔
      ∃ epoch, dependency.pages[page]? = some epoch ∧ (pages page).cpuDirtyEpoch ≠ epoch := by
  simp [dirtyPages, mem_toList_iff_getElem?_eq_some]

/-- A page of a tracked dependency that is not dirty has its old bytes. -/
theorem Observing.Tracked.contents_eq {c : Nat → Nat → UInt8} (h : s.Tracked c)
    (hvolatile : s.dependency.volatile = false) {page : Nat} (hpage : page ∈ s.dependency.pages)
    (hclean : page ∉ s.dependency.dirtyPages s.pages) : (s.pages page).contents = c page := by
  rw [mem_iff_isSome_getElem?, Option.isSome_iff_exists] at hpage
  obtain ⟨epoch, hepoch⟩ := hpage
  have heq : (s.pages page).cpuDirtyEpoch = epoch := by
    by_contra hne
    exact hclean (CanonicalCpuWriteDependency.mem_dirtyPages_iff.mpr ⟨epoch, hepoch, hne⟩)
  rcases ((h hvolatile page epoch hepoch).unchanged heq).2 with hc | ⟨hfalse, -⟩
  · exact hc
  · exact hfalse.elim

/-! ## Capturing and arming again -/

theorem captureRanges_spec {ranges : List CheckedRange} :
    wp (captureRanges hosts ranges)
      ⟨fun dependency pages' ↦ Arms hosts pages pages' ∧
          (Observing.mk pages' dependency).Tracked pages'.contents ∧
          ∀ range ∈ ranges, ∀ page, range.Has page → page ∈ dependency.pages,
        fun _ pages' ↦ Arms hosts pages pages', False⟩ pages := by
  simp only [captureRanges, wp_rules]
  refine ⟨fun _ ↦ .refl pages, fun _ ↦ wp_of_ok (armPages_spec _) ?_⟩
  rintro observed pages' ⟨harms, hfresh, hmem⟩
  refine ⟨harms, Observing.tracked_of_fresh fun _ ↦ hfresh, ?_⟩
  rintro range hrange page ⟨segment, hsegment, rfl⟩
  refine hmem _ (ExtTreeSet.mem_toList.mpr (ExtTreeSet.mem_ofList.mpr (contains_iff_mem.mpr ?_)))
  exact mem_flatMap.mpr ⟨range, hrange, mem_map.mpr ⟨segment, hsegment, rfl⟩⟩

/-- A dependency that remains current is not volatile and has no dirty page. -/
theorem remainsCurrent_spec :
    wp remainsCurrent
      ⟨fun current t ↦ t.pages = s.pages ∧ t.dependency.pages = s.dependency.pages ∧
          t.dependency.volatile = s.dependency.volatile ∧
          (current = true → s.dependency.volatile = false ∧ s.dependency.dirtyPages s.pages = []),
        fun _ _ ↦ False, False⟩ s := by
  simp only [remainsCurrent, wp_rules, wp_ite, id]
  refine ⟨fun _ ↦ ⟨trivial, trivial, trivial, by simp⟩,
    fun hvolatile ↦ ⟨fun hclean ↦ ?_, fun _ ↦ ?_⟩⟩
  · exact ⟨trivial, trivial, trivial, fun _ ↦ ⟨Bool.eq_false_iff.mpr hvolatile, hclean⟩⟩
  · exact ⟨trivial, trivial, trivial, by simp⟩

/-- Whether or not all pages could be armed, the dependency is tracked by the bytes as they are. -/
theorem rearm_spec :
    wp (rearm hosts)
      ⟨fun _ t ↦ Rearms hosts s t ∧ ∀ c, s.Tracked c → t.Tracked t.pages.contents,
        fun _ _ ↦ False, False⟩ s := by
  simp only [rearm, wp_rules, wp_ite, wp_unwrapOr, id]
  refine ⟨fun hvolatile ↦ ⟨.refl _, fun c _ hv ↦ absurd (hv.symm.trans hvolatile) (by simp)⟩,
    fun _ ↦ ?_⟩
  refine wp_of_wp rearmQuiescent_spec ?_ ?_
  · rintro _ t ⟨hst, hfresh⟩
    exact ⟨hst, fun c _ ↦ Observing.tracked_of_fresh hfresh⟩
  · rintro _ t ⟨hst, hvolatile, -⟩
    refine ⟨hst, fun c hc hv page epoch hepoch ↦ ?_⟩
    rcases hst.observed page epoch hepoch with hepoch | harmed
    · have htracks := (hc (hvolatile ▸ hv) page epoch hepoch).evolves (hst.arms page).toEvolves
      exact ⟨htracks.le, fun heq ↦ ⟨(htracks.unchanged heq).1, .inl rfl⟩⟩
    · exact harmed.tracks

/-! ## Intervals -/

section

/-- The intervals are in order, apart from each other and within `size`. -/
structure WellSpaced (size : Nat) (intervals : List (Nat × Nat)) : Prop where
  apart : intervals.Pairwise fun i j ↦ i.2 < j.1
  inside : ∀ i ∈ intervals, i.1 < i.2 ∧ i.2 ≤ size

theorem le_roundUp {n alignment : Nat} (h : 0 < alignment) :
    n ≤ (n + (alignment - 1)) / alignment * alignment := by
  have hdiv := Nat.div_add_mod' (n + (alignment - 1)) alignment
  have hmod := Nat.mod_lt (n + (alignment - 1)) h
  omega

variable {intervals : List (Nat × Nat)}

/-- The intervals lie within the range and cover the bytes of the dirty pages. -/
theorem dirtyIntervals_spec {dirty : List Nat} {alignment size logicalStart : Nat}
    {segments : List CanonicalBackingSegment} (halignment : 0 < alignment)
    (hpos : ∀ segment ∈ segments, 0 < segment.size)
    (hsize : logicalStart + (segments.map fun segment ↦ segment.size).sum ≤ size)
    (h : dirtyIntervals dirty alignment size logicalStart segments = .ok intervals) :
    (∀ i ∈ intervals, i.1 < i.2 ∧ i.2 ≤ size) ∧
      ∀ n cell, (segments.flatMap CanonicalBackingSegment.cells)[n]? = some cell →
        cell.1 ∈ dirty → Covers intervals (logicalStart + n) := by
  induction segments generalizing logicalStart intervals with
  | nil =>
    obtain rfl := Except.ok.inj h
    exact ⟨by simp, fun n cell hn ↦ by simp at hn⟩
  | cons segment segments ih =>
    obtain ⟨hsegment, hpos⟩ := forall_mem_cons.mp hpos
    rw [map_cons, sum_cons, ← Nat.add_assoc] at hsize
    rw [dirtyIntervals] at h
    cases hrest : dirtyIntervals dirty alignment size (logicalStart + segment.size) segments with
    | error e => simp [hrest, bind, Except.bind] at h
    | ok rest =>
      simp only [hrest, bind, Except.bind] at h
      obtain ⟨hinside, hcovers⟩ := ih hpos hsize hrest
      -- A cell is one of the first segment, or a cell of the rest.
      have hcell : ∀ n cell, ((segment :: segments).flatMap CanonicalBackingSegment.cells)[n]? =
          some cell → cell.1 ∈ dirty →
          n < segment.size ∧ segment.backing ∈ dirty ∨ Covers rest (logicalStart + n) := by
        intro n cell hn hdirty
        rw [flatMap_cons, CanonicalBackingSegment.cells, List.getElem?_append] at hn
        rw [length_consecutive] at hn
        split at hn
        · rename_i hlt
          rw [getElem?_consecutive, if_pos hlt] at hn
          cases hn
          exact .inl ⟨hlt, hdirty⟩
        · rename_i hle
          have := hcovers _ cell hn hdirty
          rw [show logicalStart + segment.size + (n - segment.size) = logicalStart + n by omega]
            at this
          exact .inr this
      split at h
      · rename_i hdirty
        split at h
        · cases h
        · rename_i padded hpadded
          obtain ⟨-, rfl⟩ := checkedAdd_eq_some_iff.mp hpadded
          obtain rfl := Except.ok.inj h
          -- The interval is rounded outwards to the alignment, but not beyond the range.
          have hlow := Nat.div_mul_le_self logicalStart alignment
          have hhigh := @le_roundUp (logicalStart + segment.size) alignment halignment
          refine ⟨forall_mem_cons.mpr ⟨⟨?_, Nat.min_le_right _ _⟩, hinside⟩, ?_⟩
          · rw [lt_min_iff]
            omega
          · intro n cell hn hcelldirty
            rw [covers_cons]
            rcases hcell n cell hn hcelldirty with ⟨hlt, -⟩ | hrest
            · refine .inl ⟨by omega, ?_⟩
              rw [lt_min_iff]
              omega
            · exact .inr hrest
      · rename_i hclean
        obtain rfl := Except.ok.inj h
        refine ⟨hinside, fun n cell hn hdirty ↦ ?_⟩
        rcases hcell n cell hn hdirty with ⟨-, hdirty⟩ | hrest
        · exact absurd hdirty hclean
        · exact hrest

theorem CheckedRange.size_pos (range : CheckedRange) : 0 < range.size := by
  obtain ⟨segment, hsegment⟩ := exists_mem_of_ne_nil _ range.nonempty
  have hle := single_le_sum (l := range.segments.map fun segment ↦ segment.size)
    (fun _ _ ↦ Nat.zero_le _) _ (mem_map.mpr ⟨segment, hsegment, rfl⟩)
  rw [range.size_eq]
  exact (range.segments_pos segment hsegment).trans_le hle

theorem snapshotIntervals_spec {range : CheckedRange} {selection : CpuWriteSnapshotSelection}
    {alignment : Nat} {volatile : Bool} {dirty : List Nat} (halignment : 0 < alignment)
    (h : snapshotIntervals range selection alignment volatile dirty = .ok intervals) :
    WellSpaced range.size intervals ∧ ∀ n cell, range.cells[n]? = some cell →
      volatile = true ∨ cell.1 ∈ dirty → Covers intervals n := by
  rw [snapshotIntervals] at h
  split at h
  · obtain rfl := Except.ok.inj h
    refine ⟨⟨pairwise_singleton _ _, ?_⟩, fun n cell hn _ ↦ ?_⟩
    · rintro i hi
      rw [mem_singleton.mp hi]
      exact ⟨range.size_pos, le_rfl⟩
    · refine ⟨(0, range.size), mem_singleton_self _, Nat.zero_le n, ?_⟩
      rw [← range.length_cells]
      exact (List.getElem?_eq_some_iff.mp hn).1
  · rename_i hnot
    cases hraw : dirtyIntervals dirty alignment range.size 0 range.segments with
    | error e => simp [hraw, Except.map] at h
    | ok raw =>
      rw [hraw, Except.map] at h
      obtain rfl := Except.ok.inj h
      obtain ⟨hinside, hcovers⟩ := dirtyIntervals_spec halignment range.segments_pos
        (by rw [Nat.zero_add, range.size_eq]) hraw
      refine ⟨⟨pairwise_normalizeIntervals raw, ?_⟩, fun n cell hn hdirty ↦ ?_⟩
      · refine forall_mem_normalizeIntervals raw (fun i j hi hj ↦ ?_) hinside
        exact ⟨lt_max_of_lt_left hi.1, max_le hi.2 hj.2⟩
      · rw [covers_normalizeIntervals_iff, ← Nat.zero_add n]
        exact hcovers n cell hn (hdirty.resolve_left fun hvolatile ↦ hnot (.inr hvolatile))

theorem readIntervals_spec {range : CheckedRange} :
    wp (readIntervals range intervals)
      ⟨fun snapshots pages' ↦ pages' = pages ∧ snapshots = intervals.map fun i ↦
          (i.1, gather pages.contents (range.window i.1 (i.2 - i.1))),
        fun _ pages' ↦ pages' = pages, False⟩ pages := by
  induction intervals with
  | nil => exact ⟨rfl, rfl⟩
  | cons i intervals ih =>
    simp only [readIntervals, wp_rules]
    refine wp_of_ok (range.readQuiescent_spec _ _) ?_
    rintro bytes pages' ⟨rfl, rfl, -⟩
    refine wp_of_ok ih ?_
    rintro rest pages'' ⟨rfl, rfl⟩
    exact ⟨rfl, rfl⟩

end

/-! ## Visibility -/

theorem cpuVisibleQuiescent_spec :
    wp cpuVisibleQuiescent
      ⟨fun visible q ↦ q = p ∧ (visible = true → p.visibility.CpuVisible), fun _ q ↦ q = p,
        False⟩ p := by
  simp only [cpuVisibleQuiescent, wp_rules]
  split
  · rename_i h
    exact ⟨rfl, fun _ ↦ h ▸ trivial⟩
  · rename_i h
    exact ⟨rfl, fun _ ↦ h ▸ trivial⟩
  · exact ⟨rfl, by simp⟩
  all_goals exact rfl

theorem allVisible_spec {list : List Nat} :
    wp (allVisible list)
      ⟨fun visible pages' ↦ pages' = pages ∧
          (visible = true → ∀ page ∈ list, (pages page).visibility.CpuVisible),
        fun _ pages' ↦ pages' = pages, False⟩ pages := by
  induction list with
  | nil => exact ⟨rfl, by simp⟩
  | cons page list ih =>
    simp only [allVisible, wp_rules, wp_onPage, wp_ite]
    refine wp_of_wp cpuVisibleQuiescent_spec ?_ ?_
    · rintro visible q ⟨rfl, hvisible⟩
      dsimp only
      rw [update_eq_self]
      refine ⟨fun htrue ↦ wp_of_ok ih ?_, fun _ ↦ ⟨rfl, by simp⟩⟩
      rintro rest pages' ⟨rfl, hrest⟩
      exact ⟨rfl, fun h ↦ forall_mem_cons.mpr ⟨hvisible htrue, hrest h⟩⟩
    · rintro _ q rfl
      exact update_eq_self _ _

/-- Pages that are visible stay as they are, and in the end all are. -/
theorem writeBackPages_spec {S : Nat → Prop} {list : List Nat} (hS : ∀ page ∈ list, S page) :
    wp (writeBackPages hosts list)
      ⟨fun _ pages' ↦ Touches hosts S pages pages' ∧
          (∀ page, (pages page).visibility.CpuVisible → pages' page = pages page) ∧
          ∀ page ∈ list, (pages' page).visibility.CpuVisible,
        fun _ pages' ↦ Touches hosts S pages pages', False⟩ pages := by
  induction list generalizing pages with
  | nil => exact ⟨refl_of _ pages, fun _ _ ↦ rfl, nofun⟩
  | cons page list ih =>
    obtain ⟨hpage, hS⟩ := forall_mem_cons.mp hS
    rw [writeBackPages, forEach, wp_bind, wp_onPage]
    refine wp_of_wp prepareCpuAccess_spec ?_ (fun _ q h ↦ touches_update hpage h)
    rintro _ q ⟨hq, hvisible, hsame⟩
    have hfirst : Touches hosts S pages (Function.update pages page q) := touches_update hpage hq
    refine wp_of_wp (ih hS) ?_ (fun _ _ h ↦ trans_of _ hfirst h)
    rintro _ pages' ⟨hrest, hsame', hvisible'⟩
    refine ⟨trans_of _ hfirst hrest, fun page' hp ↦ ?_, fun page' hpage' ↦ ?_⟩
    · have heq : Function.update pages page q page' = pages page' := by
        by_cases h : page' = page
        · subst h
          rw [update_self, hsame hp]
        · rw [update_of_ne h]
      rw [hsame' page' (by rwa [heq]), heq]
    · rcases mem_cons.mp hpage' with rfl | hpage'
      · have hq' : (Function.update pages page' q page').visibility.CpuVisible := by
          rwa [update_self]
        rw [hsame' page' hq']
        exact hq'
      · exact hvisible' page' hpage'

theorem makeVisible_spec :
    wp (makeVisible hosts)
      ⟨fun _ t ↦ Touches hosts (· ∈ s.dependency.pages) s.pages t.pages ∧
          t.dependency = s.dependency ∧
          ∀ page ∈ s.dependency.pages, (t.pages page).visibility.CpuVisible,
        fun _ t ↦ Touches hosts (· ∈ s.dependency.pages) s.pages t.pages ∧
          t.dependency = s.dependency, False⟩ s := by
  simp only [makeVisible, onPages, wp_rules, wp_focus, wp_ite]
  refine wp_of_wp allVisible_spec ?_ ?_
  · rintro visible _ ⟨rfl, hvisible⟩
    refine ⟨fun htrue ↦ ⟨refl_of _ s.pages, trivial, fun page hpage ↦ ?_⟩, fun _ ↦ ?_⟩
    · exact hvisible htrue page (mem_keys.mpr hpage)
    · refine wp_of_wp (writeBackPages_spec fun page hpage ↦ mem_keys.mp hpage) ?_
        (fun _ _ h ↦ ⟨h, trivial⟩)
      rintro _ pages' ⟨htouches, -, hvisible⟩
      exact ⟨htouches, trivial, fun page hpage ↦ hvisible page (mem_keys.mpr hpage)⟩
  · rintro _ _ rfl
    exact ⟨refl_of _ s.pages, trivial⟩

/-! ## Snapshots -/

section

/-- The snapshots show the bytes `c'` and cover what differs from the bytes `c`. -/
structure Reports (range : CheckedRange) (c c' : Nat → Nat → UInt8)
    (snapshots : List (Nat × List UInt8)) : Prop where
  spaced : WellSpaced range.size (snapshots.map fun s ↦ (s.1, s.1 + s.2.length))
  bytes : ∀ s ∈ snapshots, s.2 = gather c' (range.window s.1 s.2.length)
  covers : ∀ n cell, range.cells[n]? = some cell → c cell.1 cell.2 ≠ c' cell.1 cell.2 →
    Covers (snapshots.map fun s ↦ (s.1, s.1 + s.2.length)) n

variable {range : CheckedRange}

/-- Reading the intervals of a snapshot reports all that is in them. -/
theorem Reports.of_intervals {c c' : Nat → Nat → UInt8} {intervals : List (Nat × Nat)}
    (hspaced : WellSpaced range.size intervals)
    (hcovers : ∀ n cell, range.cells[n]? = some cell → c cell.1 cell.2 ≠ c' cell.1 cell.2 →
      Covers intervals n) :
    Reports range c c'
      (intervals.map fun i ↦ (i.1, gather c' (range.window i.1 (i.2 - i.1)))) := by
  have hlength : ∀ i ∈ intervals,
      (gather c' (range.window i.1 (i.2 - i.1))).length = i.2 - i.1 := by
    intro i hi
    rw [gather, length_map]
    have := hspaced.inside i hi
    exact range.length_window (by omega)
  have hback : (intervals.map fun i ↦ (i.1, gather c' (range.window i.1 (i.2 - i.1)))).map
      (fun s ↦ (s.1, s.1 + s.2.length)) = intervals := by
    rw [List.map_map]
    refine (List.map_congr_left fun i hi ↦ ?_).trans intervals.map_id
    have := hspaced.inside i hi
    rw [comp_apply, hlength i hi, id, Nat.add_sub_cancel' (by omega)]
  refine ⟨by rwa [hback], fun s hs ↦ ?_, by rwa [hback]⟩
  obtain ⟨i, hi, rfl⟩ := mem_map.mp hs
  rw [hlength i hi]

/-- A page of the range, found by one of its cells. -/
theorem CheckedRange.backing_of_getElem?_cells {n : Nat} {cell : Nat × Nat}
    (h : range.cells[n]? = some cell) : range.Has cell.1 := by
  obtain ⟨segment, hsegment, hcell⟩ := mem_flatMap.mp (mem_of_getElem? h)
  exact ⟨segment, hsegment, (mem_consecutive hcell).1.symm⟩

/-- Arming after an access. -/
theorem YieldsPages.arms {S : Nat → Prop} (h : YieldsPages hosts S pages pages')
    (h' : Arms hosts pages' pages'') : YieldsPages hosts S pages pages'' :=
  fun page ↦ (h page).trans ((h' page).toYields.mono False.elim)

theorem copyDirty_spec {reserves : Bool} {selection : CpuWriteSnapshotSelection} {alignment : Nat}
    (halignment : 0 < alignment) (hpages : ∀ page, range.Has page → page ∈ s.dependency.pages)
    (hvisible : ∀ page ∈ s.dependency.pages, (s.pages page).visibility.CpuVisible) :
    wp (copyDirty hosts reserves range selection alignment)
      ⟨fun snapshots t ↦ Rearms hosts s t ∧ (t.dependency.volatile = false → t.Fresh) ∧
          ∀ c, s.Tracked c → Reports range c t.pages.contents snapshots,
        fun _ t ↦ Rearms hosts s t ∧ t.dependency.volatile = s.dependency.volatile ∧
          ((∀ page ∈ s.dependency.pages, (hosts page).Complies) → t = s), False⟩ s := by
  simp only [copyDirty, onPages, wp_rules, wp_focus, wp_ite]
  refine ⟨fun intervals hintervals ↦ ⟨fun _ ↦ ⟨.refl s, trivial, fun _ ↦ trivial⟩, fun _ ↦ ?_⟩,
    fun _ _ ↦ ⟨.refl s, trivial, fun _ ↦ trivial⟩⟩
  obtain ⟨hspaced, hcovers⟩ := snapshotIntervals_spec halignment hintervals
  have hreports : ∀ c, s.Tracked c → Reports range c s.pages.contents
      (intervals.map fun i ↦ (i.1, gather s.pages.contents (range.window i.1 (i.2 - i.1)))) := by
    refine fun c hc ↦ .of_intervals hspaced fun n cell hn hne ↦ hcovers n cell hn ?_
    cases hvolatile : s.dependency.volatile with
    | true => exact .inl rfl
    | false =>
      rw [if_neg (by simp)]
      by_contra hclean
      have hmem := hpages cell.1 (CheckedRange.backing_of_getElem?_cells hn)
      refine hne (congrFun (hc.contents_eq hvolatile hmem ?_).symm cell.2)
      exact (not_or.mp hclean).2
  refine wp_of_wp readIntervals_spec ?_ ?_
  · rintro snapshots _ ⟨rfl, rfl⟩
    refine ⟨fun hvolatile ↦ ⟨.refl s, fun h ↦ absurd (h.symm.trans hvolatile) (by simp), hreports⟩,
      fun _ ↦ ?_⟩
    refine wp_of_wp rearmQuiescent_spec ?_ ?_
    · rintro _ t ⟨hst, hfresh⟩
      refine ⟨hst, hfresh, ?_⟩
      rw [hst.arms.contents]
      exact hreports
    · rintro _ t ⟨hst, hvolatile, page, hpage, hlost⟩
      refine ⟨hst, hvolatile, fun hcomplies ↦ ?_⟩
      exact absurd (hvisible page hpage) (not_visible_of_lost (hlost (hcomplies page hpage)))
  · rintro _ _ rfl
    exact ⟨.refl s, trivial, fun _ ↦ rfl⟩

/-- A snapshot reports what differs from the bytes by which the dependency was tracked, and leaves
it tracked by the bytes as they are. If it fails, the dependency is the same, provided the host
complies. -/
theorem snapshotBytes_spec {reserves : Bool} {selection : CpuWriteSnapshotSelection}
    {alignment : Nat} :
    wp (snapshotBytes hosts reserves range selection alignment)
      ⟨fun snapshots t ↦ YieldsPages hosts (· ∈ s.dependency.pages) s.pages t.pages ∧
          (∀ page, page ∈ t.dependency.pages ↔ page ∈ s.dependency.pages) ∧
          ∀ c, s.Tracked c → t.Tracked t.pages.contents ∧
            Reports range c t.pages.contents snapshots,
        fun _ t ↦ YieldsPages hosts (· ∈ s.dependency.pages) s.pages t.pages ∧
          ((∀ page ∈ s.dependency.pages, (hosts page).Complies) → t.dependency = s.dependency),
        False⟩ s := by
  have hrefl : YieldsPages hosts (· ∈ s.dependency.pages) s.pages s.pages := fun _ ↦ .refl _
  simp only [snapshotBytes, wp_rules, wp_ite, id]
  refine ⟨fun _ ↦ ⟨hrefl, fun _ ↦ trivial⟩, fun halignment ↦
    ⟨fun _ ↦ ⟨hrefl, fun _ ↦ trivial⟩, fun hkeys ↦ ?_⟩⟩
  -- The pages of the range are those of the dependency, by the check before.
  have hpages : ∀ page, range.Has page → page ∈ s.dependency.pages := by
    rintro page ⟨segment, hsegment, rfl⟩
    rw [← ExtTreeMap.mem_keys, Classical.not_not.mp hkeys, ExtTreeSet.mem_toList,
      ExtTreeSet.mem_ofList]
    exact List.contains_iff_mem.mpr (List.mem_map.mpr ⟨segment, hsegment, rfl⟩)
  have hpos : 0 < alignment := Nat.pos_of_ne_zero fun h ↦ halignment (.inl h)
  refine ⟨fun hclean ↦ ⟨hrefl, fun _ ↦ trivial, fun c hc ↦ ?_⟩, fun _ ↦ ?_⟩
  · -- Nothing is dirty, so the bytes are those that tracked the dependency.
    obtain ⟨hvolatile, hnone, -⟩ := hclean
    have hsame : ∀ page ∈ s.dependency.pages, (s.pages page).contents = c page := by
      intro page hpage
      refine hc.contents_eq hvolatile hpage ?_
      rw [hnone]
      exact not_mem_nil
    refine ⟨fun hv page epoch hepoch ↦ ?_, ?_⟩
    · have htracks := hc hv page epoch hepoch
      refine ⟨htracks.le, fun heq ↦ ⟨(htracks.unchanged heq).1, .inl rfl⟩⟩
    · refine ⟨⟨.nil, by simp⟩,
        by simp, fun n cell hn hne ↦ absurd ?_ hne⟩
      have hmem := hpages cell.1 (CheckedRange.backing_of_getElem?_cells hn)
      exact (congrFun (hsame cell.1 hmem) cell.2).symm
  -- Write-backs come first, and leave the dependency as it is.
  · refine wp_of_wp makeVisible_spec ?_ ?_
    · rintro _ u ⟨htouches, hdependency, hvisible⟩
      rw [← hdependency] at hpages hvisible
      refine wp_of_wp (copyDirty_spec hpos hpages hvisible) ?_ ?_
      · rintro snapshots t ⟨hrearms, hfresh, hreports⟩
        refine ⟨htouches.yieldsPages.arms hrearms.arms, fun page ↦ ?_, fun c hc ↦
          ⟨Observing.tracked_of_fresh hfresh, hreports c fun hv page epoch hepoch ↦ ?_⟩⟩
        · rw [hrearms.mem, hdependency]
        · have hpage : page ∈ u.dependency.pages := mem_of_getElem?_eq_some hepoch
          rw [hdependency] at hv hepoch
          have htracks := ((hc hv page epoch hepoch).mono False.elim).evolves
            (htouches page).1.toEvolves
          exact htracks.of_visible (hvisible page hpage)
      · rintro _ t ⟨hrearms, hvolatile, hsame⟩
        refine ⟨htouches.yieldsPages.arms hrearms.arms, fun hcomplies ↦ ?_⟩
        rw [hsame fun page hpage ↦ hcomplies page (hdependency ▸ hpage), hdependency]
    · rintro _ u ⟨htouches, hdependency⟩
      exact ⟨htouches.yieldsPages, fun _ ↦ hdependency⟩

end

end Nixe.Memory
