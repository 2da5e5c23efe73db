import Nixe.Memory.DependencyStep

/-!
# Reading a canonical range

A read makes the pages of the part that is read visible to the CPU, which writes back what a device
has written, and copies the bytes. So the bytes it returns are the canonical bytes of the cells
after it, and it succeeds if the pages can be made visible.
-/

namespace Nixe.Memory

open Std Method Function List

variable {hosts : Nat → HostAnswers} {pages pages' : PageHeap} {page : Nat}

section

variable (hosts)

/-- Nothing happens between the write-back and the check that the pages are visible, so the loop of
the source ends in its first round. -/
def CheckedRange.read (range : CheckedRange) (offset count : Nat) :
    Method CanonicalRangeAccessError PageHeap (List UInt8) := do
  let stop ← okOr (checkedAdd offset count) .rangeOverflow
  failIf (range.size < stop) (.outOfBounds offset count range.size)
  if count = 0 then pure []
  else do
    mapErr .backing (writeBackPages hosts
      ((range.pieces offset stop).map SegmentPiece.page).eraseDups)
    range.readQuiescent offset count

/-- The page can be made visible to the CPU. -/
def Accessible (pages : PageHeap) (page : Nat) : Prop :=
  ∃ q, prepareCpuAccess (hosts page) (pages page) = .ok () q

end

/-- Pages that are visible stay as they are. -/
def KeepsVisible (pages pages' : PageHeap) : Prop :=
  ∀ page, (pages page).visibility.CpuVisible → pages' page = pages page

theorem KeepsVisible.trans {pages'' : PageHeap} (h : KeepsVisible pages pages')
    (h' : KeepsVisible pages' pages'') : KeepsVisible pages pages'' := by
  intro page hpage
  have hsame := h page hpage
  rw [h' page (by rwa [hsame]), hsame]

/-- Reads of cells whose pages are visible stay what they are. -/
theorem KeepsVisible.gather_eq (h : KeepsVisible pages pages') {cells : List (Nat × Nat)}
    (hvisible : ∀ cell ∈ cells, (pages cell.1).visibility.CpuVisible) :
    gather pages'.contents cells = gather pages.contents cells := by
  refine map_congr_left fun cell hcell ↦ ?_
  rw [PageHeap.contents, PageHeap.contents, h _ (hvisible cell hcell)]

theorem CheckedRange.read_spec (range : CheckedRange) (offset count : Nat) :
    wp (range.read hosts offset count)
      ⟨fun bytes pages' ↦ KeepsVisible pages pages' ∧
          (∀ cell ∈ range.window offset count, (pages' cell.1).visibility.CpuVisible) ∧
          bytes = gather pages'.contents (range.window offset count),
        fun _ _ ↦ True, False⟩ pages := by
  simp only [CheckedRange.read, wp_rules, wp_ite]
  refine ⟨fun stop hstop ↦ ⟨fun _ ↦ trivial, fun _ ↦ ⟨?_, fun _ ↦ ?_⟩⟩, fun _ ↦ trivial⟩
  · rintro rfl
    rw [range.window_zero]
    exact ⟨fun _ _ ↦ rfl, by simp, rfl⟩
  · obtain ⟨-, rfl⟩ := checkedAdd_eq_some_iff.mp hstop
    refine wp_of_wp (writeBackPages_spec (S := fun _ ↦ True) fun _ _ ↦ trivial) ?_
      (fun _ _ _ ↦ trivial)
    rintro _ pages' ⟨-, hkeeps, hvisible⟩
    refine wp_of_wp (range.readQuiescent_spec _ _) ?_ (fun _ _ _ ↦ trivial)
    rintro bytes _ ⟨rfl, rfl, -⟩
    refine ⟨hkeeps, fun cell hcell ↦ hvisible _ (mem_eraseDups.mpr ?_), rfl⟩
    obtain ⟨piece, hpiece, hpage⟩ := (range.exists_piece_iff offset count cell.1).mpr
      ⟨cell, hcell, rfl⟩
    exact mem_map.mpr ⟨piece, hpiece, hpage⟩

/-! ## Reads succeed -/

theorem accessible_of_visible (h : (pages page).visibility.CpuVisible) :
    Accessible hosts pages page := by
  refine ⟨pages page, eq_ok_of_wp ?_⟩
  simp only [prepareCpuAccess, ensureCpuVisible, wp_rules]
  split <;> simp_all [PageVisibility.CpuVisible]

/-- What a read keeps of the pages. -/
structure Preserves (hosts : Nat → HostAnswers) (pages pages' : PageHeap) : Prop where
  visible : KeepsVisible pages pages'
  accessible : ∀ page, Accessible hosts pages page → Accessible hosts pages' page
  size : ∀ page, (pages' page).size = (pages page).size

theorem Preserves.refl (hosts : Nat → HostAnswers) (pages : PageHeap) :
    Preserves hosts pages pages := ⟨fun _ _ ↦ rfl, fun _ ↦ id, fun _ ↦ rfl⟩

theorem Preserves.trans {pages'' : PageHeap} (h : Preserves hosts pages pages')
    (h' : Preserves hosts pages' pages'') : Preserves hosts pages pages'' :=
  ⟨h.visible.trans h'.visible, fun page ↦ h'.accessible page ∘ h.accessible page,
    fun page ↦ (h'.size page).trans (h.size page)⟩

theorem preserves_update {q : CanonicalBackingPage}
    (hq : prepareCpuAccess (hosts page) (pages page) = .ok () q) :
    Preserves hosts pages (Function.update pages page q) ∧ q.visibility.CpuVisible := by
  obtain ⟨hsettles, hvisible, hsame⟩ := ok_of_wp prepareCpuAccess_spec hq
  refine ⟨⟨fun page' hpage' ↦ ?_, fun page' hpage' ↦ ?_, fun page' ↦ ?_⟩, hvisible⟩
  all_goals by_cases heq : page' = page
  · subst heq
    rw [update_self, hsame hpage']
  · rw [update_of_ne heq]
  · subst heq
    exact accessible_of_visible (by rwa [update_self])
  · rwa [Accessible, update_of_ne heq]
  · subst heq
    rw [update_self, hsettles.size]
  · rw [update_of_ne heq]

theorem writeBackPages_ok {list : List Nat} (h : ∀ page ∈ list, Accessible hosts pages page) :
    wp (writeBackPages hosts list)
      ⟨fun _ pages' ↦ Preserves hosts pages pages' ∧
          ∀ page ∈ list, (pages' page).visibility.CpuVisible,
        fun _ _ ↦ False, False⟩ pages := by
  induction list generalizing pages with
  | nil => exact ⟨.refl hosts pages, nofun⟩
  | cons page list ih =>
    obtain ⟨⟨q, hq⟩, hlist⟩ := forall_mem_cons.mp h
    obtain ⟨hfirst, hvisible⟩ := preserves_update hq
    rw [writeBackPages, forEach, wp_bind, wp_onPage]
    refine wp_of_eq_ok hq (wp_of_ok (ih fun page' hpage' ↦ hfirst.accessible page'
      (hlist page' hpage')) ?_)
    rintro _ pages' ⟨hrest, hrestVisible⟩
    refine ⟨hfirst.trans hrest, forall_mem_cons.mpr ⟨?_, hrestVisible⟩⟩
    have hpage : (Function.update pages page q page).visibility.CpuVisible := by
      rwa [update_self]
    rwa [hrest.visible page hpage]

theorem readPieces_ok {pieces : List SegmentPiece}
    (h : ∀ piece ∈ pieces, (pages piece.page).visibility.CpuVisible ∧
      piece.pageOffset + piece.count ≤ (pages piece.page).size) :
    wp (readPieces pieces) ⟨fun _ pages' ↦ pages' = pages, fun _ _ ↦ False, False⟩ pages := by
  induction pieces with
  | nil => rfl
  | cons piece pieces ih =>
    obtain ⟨⟨hvisible, hsize⟩, hrest⟩ := forall_mem_cons.mp h
    simp only [readPieces, readQuiescent, checkedEnd, requireCpuVisibleQuiescent, wp_rules,
      wp_onPage]
    refine ⟨fun hlt ↦ absurd hlt (Nat.not_lt.mpr hsize), fun _ ↦ ?_⟩
    have hnext := ih hrest
    split <;> simp_all [PageVisibility.CpuVisible, update_eq_self]

/-- A read of cells that are in their pages succeeds if the pages can be made visible. -/
theorem CheckedRange.read_ok (range : CheckedRange) {offset count : Nat}
    (hle : offset + count ≤ range.size)
    (hcells : ∀ cell ∈ range.window offset count,
      Accessible hosts pages cell.1 ∧ cell.2 < (pages cell.1).size) :
    wp (range.read hosts offset count)
      ⟨fun _ pages' ↦ Preserves hosts pages pages', fun _ _ ↦ False, False⟩ pages := by
  have hword : checkedAdd offset count = some (offset + count) :=
    checkedAdd_eq_some_iff.mpr ⟨hle.trans_lt range.size_lt, rfl⟩
  have hpiece : ∀ piece ∈ range.pieces offset (offset + count), Accessible hosts pages piece.page ∧
      piece.pageOffset + piece.count ≤ (pages piece.page).size := by
    intro piece hpiece
    have hpos := (of_mem_piecesFrom hpiece).1
    have hmem : ∀ i < piece.count, (piece.page, piece.pageOffset + i) ∈
        range.window offset count := by
      intro i hi
      rw [← range.flatMap_cells_pieces]
      exact mem_flatMap.mpr ⟨piece, hpiece, mem_map.mpr ⟨i, mem_range.mpr hi, rfl⟩⟩
    have hlast := (hcells _ (hmem (piece.count - 1) (by omega))).2
    dsimp only at hlast
    exact ⟨(hcells _ (hmem 0 hpos)).1, by omega⟩
  simp only [CheckedRange.read, CheckedRange.readQuiescent, wp_rules, wp_ite, hword, forall_some]
  refine ⟨fun h ↦ absurd h (Nat.not_lt.mpr hle), fun _ ↦ ⟨fun _ ↦ .refl hosts pages, fun _ ↦ ?_⟩⟩
  refine wp_of_ok (writeBackPages_ok fun page hpage ↦ ?_) ?_
  · obtain ⟨piece, hp, rfl⟩ := mem_map.mp (mem_eraseDups.mp hpage)
    exact (hpiece piece hp).1
  · rintro _ pages' ⟨hpreserves, hvisible⟩
    refine ⟨fun h ↦ absurd h (Nat.not_lt.mpr hle), fun _ ↦ ?_⟩
    have hok : ∀ piece ∈ range.pieces offset (offset + count),
        (pages' piece.page).visibility.CpuVisible ∧
          piece.pageOffset + piece.count ≤ (pages' piece.page).size := by
      intro piece hp
      rw [hpreserves.size]
      exact ⟨hvisible _ (mem_eraseDups.mpr (mem_map.mpr ⟨piece, hp, rfl⟩)),
        (hpiece piece hp).2⟩
    refine wp_mono (wp_and (readPieces_ok hok) (readPieces_spec _)) ?_ (fun _ _ h ↦ h.1) And.left
    rintro bytes _ ⟨rfl, -, rfl⟩
    refine ⟨fun hlength ↦ hlength ?_, fun _ ↦ hpreserves⟩
    rw [range.flatMap_cells_pieces, gather, length_map, range.length_window hle]

end Nixe.Memory
