import Nixe.Collections.Scatter
import Nixe.Memory.Contracts
import Nixe.Memory.PageEffect

/-!
# Canonical ranges

A canonical range is a logical piece of memory: segments of canonical pages, one after another. A
page can occur in it any number of times. Its meaning is the list of its cells, of which the loops
over a part of the range visit those in the part, segment by segment (`pieces`).
-/

namespace Nixe.Memory

open Std Method Function List

/-- The canonical pages by their identity. -/
abbrev PageHeap : Type := Nat → CanonicalBackingPage

/-- The canonical bytes of all pages. -/
def PageHeap.contents (pages : PageHeap) : Nat → Nat → UInt8 := fun page ↦ (pages page).contents

/-! ## Ranges -/

inductive CanonicalRangeError where
  | empty
  | invalidSubrange
  | segmentOverflow
  | invalidSegmentBounds
  | rangeOverflow
deriving DecidableEq, Repr

/-- A range as `CanonicalBackingRange::new` returns it, of segments as
`CanonicalBackingSegment::new` returns them. -/
structure CheckedRange extends CanonicalBackingRange where
  nonempty : segments ≠ []
  segments_pos : ∀ segment ∈ segments, 0 < segment.size
  size_eq : size = (segments.map fun segment ↦ segment.size).sum
  size_lt : size < wordBound
deriving DecidableEq

def CheckedRange.new (segments : List CanonicalBackingSegment) :
    Except CanonicalRangeError CheckedRange :=
  if hnonempty : segments = [] then .error .empty
  else if hpos : ∀ segment ∈ segments, 0 < segment.size then
    if hlt : (segments.map fun segment ↦ segment.size).sum < wordBound then
      .ok ⟨⟨segments, (segments.map fun segment ↦ segment.size).sum⟩, hnonempty, hpos, rfl, hlt⟩
    else .error .rangeOverflow
  else .error .invalidSegmentBounds

/-- The bytes of a segment. -/
def CanonicalBackingSegment.cells (segment : CanonicalBackingSegment) : List (Nat × Nat) :=
  consecutive segment.backing segment.offset segment.size

/-- The part of a segment that a loop over a range visits. -/
structure SegmentPiece where
  segment : CanonicalBackingSegment
  pageOffset : Nat
  count : Nat
deriving DecidableEq, Repr

/-- The page that the piece is in. -/
def SegmentPiece.page (piece : SegmentPiece) : Nat := piece.segment.backing

def SegmentPiece.cells (piece : SegmentPiece) : List (Nat × Nat) :=
  consecutive piece.page piece.pageOffset piece.count

/-- The loop over the segments of a range, of which the next one starts at `logicalStart`. The sum
of the sizes fits into a word, so that no addition overflows. -/
def piecesFrom (offset stop : Nat) : Nat → List CanonicalBackingSegment → List SegmentPiece
  | _, [] => []
  | logicalStart, segment :: segments =>
    let logicalEnd := logicalStart + segment.size
    let first := max offset logicalStart
    let last := min stop logicalEnd
    let rest := if stop ≤ logicalEnd then [] else piecesFrom offset stop logicalEnd segments
    if first < last then
      ⟨segment, segment.offset + (first - logicalStart), last - first⟩ :: rest
    else rest

namespace CheckedRange

variable (range : CheckedRange)

def pieces (offset stop : Nat) : List SegmentPiece := piecesFrom offset stop 0 range.segments

def cells : List (Nat × Nat) := range.segments.flatMap CanonicalBackingSegment.cells

/-- The range has bytes of the page. -/
def Has (page : Nat) : Prop := ∃ segment ∈ range.segments, segment.backing = page

/-- The cells of a part of the range. -/
def window (offset count : Nat) : List (Nat × Nat) :=
  (range.cells.take (offset + count)).drop offset

end CheckedRange

theorem piecesFrom_eq_nil {offset stop logicalStart : Nat} (h : stop ≤ logicalStart)
    (segments : List CanonicalBackingSegment) :
    piecesFrom offset stop logicalStart segments = [] := by
  cases segments with
  | nil => rfl
  | cons segment segments =>
    rw [piecesFrom, if_neg (by omega), if_pos (by omega)]

/-- A segment contributes nothing, or one piece. -/
theorem piecesFrom_cons (offset stop logicalStart : Nat) (segment : CanonicalBackingSegment)
    (segments : List CanonicalBackingSegment) :
    piecesFrom offset stop logicalStart (segment :: segments) =
      (if max offset logicalStart < min stop (logicalStart + segment.size) then
        [⟨segment, segment.offset + (max offset logicalStart - logicalStart),
          min stop (logicalStart + segment.size) - max offset logicalStart⟩] else []) ++
      piecesFrom offset stop (logicalStart + segment.size) segments := by
  have hrest : (if stop ≤ logicalStart + segment.size then []
      else piecesFrom offset stop (logicalStart + segment.size) segments) =
      piecesFrom offset stop (logicalStart + segment.size) segments := by
    split
    · exact (piecesFrom_eq_nil ‹_› segments).symm
    · rfl
  simp only [piecesFrom, hrest]
  split <;> rfl

/-- The pieces have the cells of the part of the range, in order. -/
theorem flatMap_cells_piecesFrom (offset stop logicalStart : Nat)
    (segments : List CanonicalBackingSegment) :
    (piecesFrom offset stop logicalStart segments).flatMap SegmentPiece.cells =
      ((segments.flatMap CanonicalBackingSegment.cells).take (stop - logicalStart)).drop
        (offset - logicalStart) := by
  induction segments generalizing logicalStart with
  | nil => simp [piecesFrom]
  | cons segment segments ih =>
    have hrest : ((segments.flatMap CanonicalBackingSegment.cells).take
          (stop - (logicalStart + segment.size))).drop (offset - (logicalStart + segment.size)) =
        ((segments.flatMap CanonicalBackingSegment.cells).take
          (stop - logicalStart - segment.size)).drop
            (offset - logicalStart - min (stop - logicalStart) segment.size) := by
      obtain hle | hlt := Nat.le_total stop (logicalStart + segment.size)
      · simp [show stop - (logicalStart + segment.size) = 0 by omega,
          show stop - logicalStart - segment.size = 0 by omega]
      · rw [show offset - logicalStart - min (stop - logicalStart) segment.size =
          offset - (logicalStart + segment.size) by omega, Nat.sub_sub]
    rw [piecesFrom_cons, flatMap_append, ih, hrest, flatMap_cons, CanonicalBackingSegment.cells,
      take_append, drop_append, drop_take_consecutive, length_consecutive, length_take,
      length_consecutive]
    congr 1
    split
    · rw [flatMap_singleton, SegmentPiece.cells, SegmentPiece.page]
      congr 1 <;> dsimp only <;> omega
    · rw [show min (stop - logicalStart) segment.size - (offset - logicalStart) = 0 by omega]
      rfl

theorem CheckedRange.flatMap_cells_pieces (range : CheckedRange) (offset count : Nat) :
    (range.pieces offset (offset + count)).flatMap SegmentPiece.cells = range.window offset count :=
  flatMap_cells_piecesFrom offset (offset + count) 0 range.segments

variable {offset stop count : Nat} {segments : List CanonicalBackingSegment}
  {piece : SegmentPiece}

/-- A piece is a part of one of the segments. -/
theorem of_mem_piecesFrom {logicalStart : Nat}
    (h : piece ∈ piecesFrom offset stop logicalStart segments) :
    0 < piece.count ∧ piece.segment ∈ segments ∧
      piece.pageOffset + piece.count ≤ piece.segment.offset + piece.segment.size := by
  induction segments generalizing logicalStart with
  | nil => exact nomatch h
  | cons segment segments ih =>
    rw [piecesFrom_cons, mem_append] at h
    obtain h | h := h
    · split at h
      · cases mem_singleton.mp h
        exact ⟨by dsimp only; omega, mem_cons_self, by dsimp only; omega⟩
      · exact nomatch h
    · obtain ⟨hpos, hmem, hle⟩ := ih h
      exact ⟨hpos, mem_cons_of_mem _ hmem, hle⟩

/-- The pages of the pieces are those of the cells. -/
theorem CheckedRange.exists_piece_iff (range : CheckedRange) (offset count page : Nat) :
    (∃ piece ∈ range.pieces offset (offset + count), piece.page = page) ↔
      ∃ cell ∈ range.window offset count, cell.1 = page := by
  rw [← range.flatMap_cells_pieces]
  constructor
  · rintro ⟨piece, hpiece, rfl⟩
    have hpos := (of_mem_piecesFrom hpiece).1
    refine ⟨(piece.page, piece.pageOffset + 0), mem_flatMap.mpr ⟨piece, hpiece, ?_⟩, rfl⟩
    exact mem_map.mpr ⟨0, mem_range.mpr hpos, rfl⟩
  · rintro ⟨cell, hcell, rfl⟩
    obtain ⟨piece, hpiece, hcell⟩ := mem_flatMap.mp hcell
    exact ⟨piece, hpiece, (mem_consecutive hcell).1.symm⟩

theorem CheckedRange.has_of_mem_pieces {range : CheckedRange}
    (h : piece ∈ range.pieces offset stop) : range.Has piece.page :=
  ⟨piece.segment, (of_mem_piecesFrom h).2.1, rfl⟩

theorem CheckedRange.length_cells (range : CheckedRange) : range.cells.length = range.size := by
  rw [range.size_eq, cells, length_flatMap]
  refine congrArg _ (map_congr_left fun segment _ ↦ ?_)
  exact length_consecutive _ _ _

theorem CheckedRange.window_zero (range : CheckedRange) (offset : Nat) :
    range.window offset 0 = [] := by
  rw [window, Nat.add_zero, drop_eq_nil_iff, length_take]
  exact Nat.min_le_left _ _

/-- A part of the range that is within its size has a cell for each byte. -/
theorem CheckedRange.length_window (range : CheckedRange) (h : offset + count ≤ range.size) :
    (range.window offset count).length = count := by
  rw [window, length_drop, length_take, length_cells]
  omega

theorem CheckedRange.getElem?_window (range : CheckedRange) {i : Nat} (h : i < count) :
    (range.window offset count)[i]? = range.cells[offset + i]? := by
  rw [window, List.getElem?_drop, List.getElem?_take_of_lt (Nat.add_lt_add_left h offset)]

/-! ## Accesses to the pages of a range -/

/-- Call a method of one page. -/
def onPage {α : Type} (page : Nat) (m : PageM α) : Method CanonicalPageError PageHeap α :=
  focus (· page) (fun pages p ↦ Function.update pages page p) m

theorem wp_onPage {α : Type} {page : Nat} {m : PageM α}
    {Q : Post CanonicalPageError PageHeap α} {pages : PageHeap} :
    wp (onPage page m) Q pages ↔
      wp m ⟨fun a q ↦ Q.ok a (Function.update pages page q),
        fun e q ↦ Q.err e (Function.update pages page q), Q.panic⟩ (pages page) := by
  rw [onPage, wp_focus]

inductive CanonicalRangeAccessError where
  | rangeOverflow
  | invalidAlignment (alignment : Nat)
  | dependencyMismatch
  | resourceExhausted
  | outOfBounds (offset size rangeSize : Nat)
  | incompleteRange
  | backing (error : CanonicalPageError)
deriving DecidableEq, Repr

/-- Read the pieces of a range, whose pages have to be visible to the CPU. -/
def readPieces : List SegmentPiece → Method CanonicalPageError PageHeap (List UInt8)
  | [] => pure []
  | piece :: pieces => do
    let chunk ← onPage piece.page (readQuiescent piece.pageOffset piece.count)
    let rest ← readPieces pieces
    pure (chunk ++ rest)

def CheckedRange.readQuiescent (range : CheckedRange) (offset count : Nat) :
    Method CanonicalRangeAccessError PageHeap (List UInt8) := do
  let stop ← okOr (checkedAdd offset count) .rangeOverflow
  failIf (range.size < stop) (.outOfBounds offset count range.size)
  let bytes ← mapErr .backing (readPieces (range.pieces offset stop))
  failIf (bytes.length ≠ count) .incompleteRange
  pure bytes

variable {p : CanonicalBackingPage} {pages : PageHeap}

theorem readQuiescent_spec :
    wp (readQuiescent offset count)
      ⟨fun bytes q ↦ q = p ∧ bytes = slice p.contents offset count ∧ p.visibility.CpuVisible,
        fun _ q ↦ q = p, False⟩ p := by
  simp only [readQuiescent, checkedEnd, requireCpuVisibleQuiescent, wp_rules]
  refine ⟨fun _ ↦ trivial, fun _ ↦ ?_⟩
  split
  · rename_i h
    exact ⟨rfl, rfl, h ▸ trivial⟩
  · rename_i h
    exact ⟨rfl, rfl, h ▸ trivial⟩
  all_goals exact rfl

/-- Reading leaves the pages alone and returns the bytes of the cells. -/
theorem readPieces_spec (pieces : List SegmentPiece) :
    wp (readPieces pieces)
      ⟨fun bytes pages' ↦ pages' = pages ∧
          bytes = gather pages.contents (pieces.flatMap SegmentPiece.cells),
        fun _ pages' ↦ pages' = pages, False⟩ pages := by
  induction pieces with
  | nil => exact ⟨rfl, rfl⟩
  | cons piece pieces ih =>
    simp only [readPieces, wp_rules, wp_onPage]
    refine wp_of_wp readQuiescent_spec ?_ ?_
    · rintro chunk q ⟨rfl, rfl, -⟩
      dsimp only
      rw [update_eq_self]
      refine wp_of_ok ih ?_
      rintro rest pages' ⟨rfl, rfl⟩
      rw [flatMap_cons, gather_append, SegmentPiece.cells, gather_consecutive]
      exact ⟨rfl, rfl⟩
    · rintro _ q rfl
      exact update_eq_self _ _

theorem CheckedRange.readQuiescent_spec (range : CheckedRange) (offset count : Nat) :
    wp (range.readQuiescent offset count)
      ⟨fun bytes pages' ↦ pages' = pages ∧
          bytes = gather pages.contents (range.window offset count) ∧ offset + count ≤ range.size,
        fun _ pages' ↦ pages' = pages, False⟩ pages := by
  simp only [CheckedRange.readQuiescent, wp_rules]
  refine ⟨fun stop hstop ↦ ⟨fun _ ↦ trivial, fun hle ↦ ?_⟩, fun _ ↦ trivial⟩
  obtain ⟨-, rfl⟩ := checkedAdd_eq_some_iff.mp hstop
  refine wp_of_ok (readPieces_spec _) ?_
  rintro bytes pages' ⟨rfl, rfl⟩
  refine ⟨fun _ ↦ rfl, fun _ ↦ ⟨rfl, ?_, Nat.not_lt.mp hle⟩⟩
  rw [range.flatMap_cells_pieces]

/-! ## What an access does to the pages -/

section

variable {hosts : Nat → HostAnswers} {S : Nat → Prop} {pages pages' : PageHeap} {page : Nat}

/-- The pages of `S` settle and the others are left alone. -/
def Touches (hosts : Nat → HostAnswers) (S : Nat → Prop) (pages pages' : PageHeap) : Prop :=
  ∀ page, Settles (hosts page) (pages page) (pages' page) ∧ (¬S page → pages' page = pages page)

instance : Std.Refl (Touches hosts S) := ⟨fun _ _ ↦ ⟨.refl _, fun _ ↦ rfl⟩⟩

instance : IsTrans PageHeap (Touches hosts S) where
  trans _ _ _ h h' page :=
    ⟨(h page).1.trans (h' page).1, fun hS ↦ ((h' page).2 hS).trans ((h page).2 hS)⟩

/-- Nothing is written, and bytes can change unnoticed only in exhausted pages of `S`. -/
def YieldsPages (hosts : Nat → HostAnswers) (S : Nat → Prop) (pages pages' : PageHeap) : Prop :=
  ∀ page, Yields (hosts page) (S page ∧ (pages page).Exhausted) (pages page) (pages' page)

theorem Touches.yieldsPages (h : Touches hosts S pages pages') :
    YieldsPages hosts S pages pages' := by
  intro page
  by_cases hS : S page
  · exact (h page).1.toYields.mono fun hexhausted ↦ ⟨hS, hexhausted⟩
  · rw [(h page).2 hS]
    exact .refl _

theorem touches_update {q : CanonicalBackingPage} (hS : S page)
    (h : Settles (hosts page) (pages page) q) :
    Touches hosts S pages (Function.update pages page q) := by
  intro page'
  by_cases hpage : page' = page
  · subst hpage
    rw [update_self]
    exact ⟨h, fun hnot ↦ absurd hS hnot⟩
  · rw [update_of_ne hpage]
    exact ⟨.refl _, fun _ ↦ rfl⟩

end

end Nixe.Memory
