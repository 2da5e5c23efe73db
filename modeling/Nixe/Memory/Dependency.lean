import Nixe.Collections.Intervals
import Nixe.Memory.Range

/-!
# Dependencies on CPU writes

A consumer that keeps something derived from the bytes of a range, such as an upload to a device,
depends on them. The dependency arms the observers of the pages of the range and records their
dirty epochs: while these are the same, the bytes are. When they are not, the consumer takes a
snapshot of the dirty parts of the range, which arms the observers again.

A dependency that was dirty five times in a row stops arming, and counts as dirty from then on.
-/

namespace Nixe.Memory

open Std Method

structure CanonicalCpuWriteDependency where
  /-- The observed dirty epoch of each page. -/
  pages : ExtTreeMap Nat Nat
  consecutiveDirty : Nat
  volatile : Bool

/-- The pages whose dirty epoch is not the observed one. -/
def CanonicalCpuWriteDependency.dirtyPages (dependency : CanonicalCpuWriteDependency)
    (pages : PageHeap) : List Nat :=
  (dependency.pages.toList.filter fun e ↦ (pages e.1).cpuDirtyEpoch ≠ e.2).map Prod.fst

/-- The pages, and a dependency on some of them. -/
structure Observing where
  pages : PageHeap
  dependency : CanonicalCpuWriteDependency

/-- Call a method of the pages. -/
def onPages {ε α : Type} (m : Method ε PageHeap α) : Method ε Observing α :=
  focus (·.pages) (fun s pages ↦ { s with pages := pages }) m

section

variable (hosts : Nat → HostAnswers)

def armPages : List Nat → Method CanonicalPageError PageHeap (ExtTreeMap Nat Nat)
  | [] => pure ∅
  | page :: pages => do
    let epoch ← onPage page (armCpuDirtyObserverQuiescent (hosts page))
    let rest ← armPages pages
    pure (rest.insert page epoch)

/-- `capture_ranges`, which returns nothing if a page cannot be armed. -/
def captureRanges (ranges : List CheckedRange) :
    Method Unit PageHeap CanonicalCpuWriteDependency := do
  let pages := (ExtTreeSet.ofList
    (ranges.flatMap fun range ↦ range.segments.map fun segment ↦ segment.backing)).toList
  failIf (pages = []) ()
  let observed ← mapErr (fun _ ↦ ()) (armPages hosts pages)
  pure ⟨observed, 0, false⟩

def remainsCurrent : Method Empty Observing Bool := do
  let s ← read id
  if s.dependency.volatile then pure false
  else if s.dependency.dirtyPages s.pages = [] then do
    update fun s ↦ { s with dependency := { s.dependency with consecutiveDirty := 0 } }
    pure true
  else pure false

def rearmPage (page : Nat) : Method CanonicalPageError Observing Unit := do
  let epoch ← onPages (onPage page (armCpuDirtyObserverQuiescent (hosts page)))
  update fun s ↦ { s with
    dependency := { s.dependency with pages := s.dependency.pages.insert page epoch } }

def rearmQuiescent (dirty : Bool) : Method CanonicalRangeAccessError Observing Bool := do
  let consecutive ← read fun s ↦
    if dirty then min (s.dependency.consecutiveDirty + 1) 255 else 0
  update fun s ↦ { s with dependency := { s.dependency with consecutiveDirty := consecutive } }
  if 5 ≤ consecutive then do
    update fun s ↦ { s with dependency := { s.dependency with volatile := true } }
    pure false
  else do
    forEach (fun page ↦ mapErr .backing (rearmPage hosts page))
      (← read (·.dependency.pages.keys))
    pure true

def rearm : Method Empty Observing Bool := do
  let s ← read id
  if s.dependency.volatile then pure false
  else unwrapOr false (rearmQuiescent hosts (decide (s.dependency.dirtyPages s.pages ≠ [])))

end

/-! ## Snapshots -/

inductive CpuWriteSnapshotSelection where
  | dirtyPages
  | wholeIfDirty
  | all
deriving DecidableEq, Repr

/-- The segments of dirty pages, as intervals of the range that are expanded to `alignment`. -/
def dirtyIntervals (dirty : List Nat) (alignment size : Nat) :
    Nat → List CanonicalBackingSegment → Except CanonicalRangeAccessError (List (Nat × Nat))
  | _, [] => .ok []
  | logicalStart, segment :: segments => do
    let logicalEnd := logicalStart + segment.size
    let rest ← dirtyIntervals dirty alignment size logicalEnd segments
    if segment.backing ∈ dirty then
      match checkedAdd logicalEnd (alignment - 1) with
      | none => .error .rangeOverflow
      | some padded =>
        .ok ((logicalStart / alignment * alignment, min (padded / alignment * alignment) size) ::
          rest)
    else .ok rest

def snapshotIntervals (range : CheckedRange) (selection : CpuWriteSnapshotSelection)
    (alignment : Nat) (volatile : Bool) (dirty : List Nat) :
    Except CanonicalRangeAccessError (List (Nat × Nat)) :=
  if selection ≠ .dirtyPages ∨ volatile = true then .ok [(0, range.size)]
  else (dirtyIntervals dirty alignment range.size 0 range.segments).map normalizeIntervals

def readIntervals (range : CheckedRange) :
    List (Nat × Nat) → Method CanonicalRangeAccessError PageHeap (List (Nat × List UInt8))
  | [] => pure []
  | interval :: intervals => do
    let bytes ← range.readQuiescent interval.1 (interval.2 - interval.1)
    let rest ← readIntervals range intervals
    pure ((interval.1, bytes) :: rest)

section

variable (hosts : Nat → HostAnswers)

/-- The bytes of all pages are visible to the CPU. The first page of which they are not ends the
search. -/
def allVisible : List Nat → Method CanonicalPageError PageHeap Bool
  | [] => pure true
  | page :: pages => do
    if (← onPage page cpuVisibleQuiescent) then allVisible pages else pure false

/-- Write back the pages of which a device has the newest bytes. -/
def writeBackPages (pages : List Nat) : Method CanonicalPageError PageHeap Unit :=
  forEach (fun page ↦ onPage page (prepareCpuAccess (hosts page))) pages

/-- Make the pages of the dependency visible to the CPU. In the source the loop then starts again:
the pages that were dirty still are, and all of them are visible. -/
def makeVisible : Method CanonicalRangeAccessError Observing Unit := do
  let pages ← read (·.dependency.pages.keys)
  if (← mapErr .backing (onPages (allVisible pages))) then pure ()
  else mapErr .backing (onPages (writeBackPages hosts pages))

/-- The end of `snapshot_bytes`. `reserves` says whether the snapshots can be allocated. -/
def copyDirty (reserves : Bool) (range : CheckedRange) (selection : CpuWriteSnapshotSelection)
    (alignment : Nat) : Method CanonicalRangeAccessError Observing (List (Nat × List UInt8)) := do
  let dirty ← read fun s ↦
    if s.dependency.volatile then s.dependency.pages.keys else s.dependency.dirtyPages s.pages
  let volatile ← read (·.dependency.volatile)
  let intervals ← lift (snapshotIntervals range selection alignment volatile dirty)
  failIf (reserves = false) .resourceExhausted
  let snapshots ← onPages (readIntervals range intervals)
  if volatile then pure snapshots
  else do
    let _ ← rearmQuiescent hosts (decide (dirty ≠ []))
    pure snapshots

def snapshotBytes (reserves : Bool) (range : CheckedRange) (selection : CpuWriteSnapshotSelection)
    (alignment : Nat) : Method CanonicalRangeAccessError Observing (List (Nat × List UInt8)) := do
  failIf (alignment = 0 ∨ 2 ^ alignment.log2 ≠ alignment) (.invalidAlignment alignment)
  let s ← read id
  failIf (s.dependency.pages.keys ≠
    (ExtTreeSet.ofList (range.segments.map fun segment ↦ segment.backing)).toList)
    .dependencyMismatch
  if s.dependency.volatile = false ∧ s.dependency.dirtyPages s.pages = [] ∧ selection ≠ .all then do
    update fun s ↦ { s with dependency := { s.dependency with consecutiveDirty := 0 } }
    pure []
  else do
    makeVisible hosts
    copyDirty hosts reserves range selection alignment

end

end Nixe.Memory
