import Nixe.Collections.Extents
import Nixe.Effect.Machine
import Nixe.Maxwell.Address
import Nixe.Memory.Range

/-!
# The GPU address space of Maxwell

A Maxwell address space has two regions, one for small and one for big pages. The guest reserves
ranges of them, maps canonical memory into its reservations or next to them, and later replaces
parts of what it mapped: `remap_sparse` puts other memory, or none, into a part of a sparse
reservation, and `modify_mapping` changes the kind of a part of a mapping. Both cut the mapping
records that they meet.
-/

namespace Nixe.Maxwell

open Std Method Memory

/-! ## Errors -/

inductive MaxwellAddressSpaceError where
  | alreadyInitialized
  | notInitialized
  | invalidBigPageSize (pageSize : Nat)
  | invalidGeometry
  | invalidPageCount
  | invalidPageSize (pageSize : Nat)
  | invalidReservationFlags (flags : UInt32)
  | invalidAlignment (alignment : Nat)
  | misalignedAddress (address alignment : Nat)
  | outsideVaRegion
  | outsideReservation
  | overlappingReservation
  | overlappingMapping
  | overlappingRemapEntries
  | unknownReservation
  | reservationShapeMismatch
  | sparseSmallPagesUnsupported
  | nonSparseReservation
  | emptyRemap
  | emptyMapping
  | unknownMapping
  | partialMapping
  | invalidBackingRange
  | invalidMappingPermissions
  | invalidKind (kind : Nat)
  | misalignedBackingRange (offset size alignment : Nat)
  | insufficientAddressSpace
  | mappingIdentityExhausted
  | arithmeticOverflow
  | address (error : GpuVirtualAddressError)
  | generationExhausted
deriving DecidableEq, Repr

/-- `ok_or(e)?` of a pure computation. -/
def orError {ε α : Type} (e : ε) : Option α → Except ε α
  | some a => .ok a
  | none => .error e

/-! ## Regions, reservations and mappings -/

structure MaxwellAddressSpaceInitialization where
  bigPageSize : Nat
  vaRangeStart : UInt64
  vaRangeEnd : UInt64
  vaRangeSplit : UInt64
deriving DecidableEq, Repr

/-- The end of a number of pages. -/
def endOfPages (offset pages pageSize : Nat) : Except MaxwellAddressSpaceError Nat :=
  orError .arithmeticOverflow ((checkedMul pages pageSize).bind (checkedAdd offset))

structure MaxwellVaRegion where
  offset : Nat
  pageSize : Nat
  pages : Nat
deriving DecidableEq, Repr

namespace MaxwellVaRegion

variable (region : MaxwellVaRegion)

/-- One past the last byte. -/
def stop : Nat := region.offset + region.pages * region.pageSize

/-- The method `end` of the source. -/
def checkedEnd : Except MaxwellAddressSpaceError Nat :=
  endOfPages region.offset region.pages region.pageSize

def contains (start stop : Nat) : Except MaxwellAddressSpaceError Bool :=
  if region.offset ≤ start then region.checkedEnd.map fun last ↦ decide (stop ≤ last)
  else .ok false

end MaxwellVaRegion

structure MaxwellVaReservation where
  offset : Nat
  pages : Nat
  pageSize : Nat
  sparse : Bool
deriving DecidableEq, Repr

namespace MaxwellVaReservation

variable (reservation : MaxwellVaReservation)

/-- One past the last byte. -/
def stop : Nat := reservation.offset + reservation.pages * reservation.pageSize

/-- The method `end` of the source. -/
def checkedEnd : Except MaxwellAddressSpaceError Nat :=
  endOfPages reservation.offset reservation.pages reservation.pageSize

end MaxwellVaReservation

structure MaxwellMapRequest where
  allocation : Nat
  backing : CheckedRange
  backingOffset : Nat
  size : Nat
  allocationAlignment : Nat
  pageSize : Nat
  kind : Nat
  cacheable : Bool
  permissions : MemoryPermissions
  fixedOffset : Option Nat
deriving DecidableEq

structure MaxwellSparseMapping where
  allocation : Nat
  backing : CheckedRange
  backingOffset : Nat
  kind : Nat
  cacheable : Bool
  permissions : MemoryPermissions
deriving DecidableEq

structure MaxwellSparseRemapRequest where
  offset : Nat
  size : Nat
  mapping : Option MaxwellSparseMapping
deriving DecidableEq

structure MaxwellGpuMapping where
  id : Nat
  unmapOffset : Nat
  offset : Nat
  size : Nat
  allocation : Nat
  backing : CheckedRange
  backingOffset : Nat
  permissions : MemoryPermissions
  pageSize : Nat
  kind : Nat
  cacheable : Bool
  generation : Nat
  fixed : Bool
  sparse : Bool
deriving DecidableEq

namespace MaxwellGpuMapping

variable (mapping : MaxwellGpuMapping)

/-- One past the last byte. -/
def stop : Nat := mapping.offset + mapping.size

/-- The method `end` of the source. -/
def checkedEnd : Except MaxwellAddressSpaceError Nat :=
  orError .arithmeticOverflow (checkedAdd mapping.offset mapping.size)

/-- `mapping.end().ok().filter(|end| start < *end && mapping.offset < stop)`. -/
def meets (start stop : Nat) : Bool :=
  match mapping.checkedEnd with
  | .ok last => start < last && mapping.offset < stop
  | .error _ => false

/-- `mapping.offset >= start && mapping.end().is_ok_and(|end| end <= stop)`. -/
def inside (start stop : Nat) : Bool :=
  decide (start ≤ mapping.offset) &&
    match mapping.checkedEnd with
    | .ok last => last ≤ stop
    | .error _ => false

end MaxwellGpuMapping

abbrev MappingTable : Type := ExtTreeMap Nat MaxwellGpuMapping

structure MaxwellGpuAddressSpace where
  id : Nat
  profile : MaxwellGpuProfile
  regions : Option (MaxwellVaRegion × MaxwellVaRegion)
  reservations : ExtTreeMap Nat MaxwellVaReservation
  mappings : MappingTable
  nextMappingId : Nat
  mappingGeneration : Nat

abbrev AddressSpaceM (α : Type) : Type := Method MaxwellAddressSpaceError MaxwellGpuAddressSpace α

/-- The region with the page size. -/
def regionWith (regions : MaxwellVaRegion × MaxwellVaRegion) (pageSize : Nat) :
    Option MaxwellVaRegion :=
  [regions.1, regions.2].find? fun region ↦ region.pageSize == pageSize

/-! ## Searches -/

section

variable {α : Type} (offset : α → Nat) (checkedEnd : α → Except MaxwellAddressSpaceError Nat)

/-- The loop of `overlaps_reservation` and `overlaps_mapping`. -/
def overlapsAny (start stop : Nat) : List α → Except MaxwellAddressSpaceError Bool
  | [] => .ok false
  | x :: xs => do
    let last ← checkedEnd x
    if start < last ∧ offset x < stop then .ok true else overlapsAny start stop xs

/-- The loops of `occupied_ranges`. -/
def rangesOf : List α → Except MaxwellAddressSpaceError (List (Nat × Nat))
  | [] => .ok []
  | x :: xs => do
    let last ← checkedEnd x
    let rest ← rangesOf xs
    .ok ((offset x, last) :: rest)

end

def alignUp (value alignment : Nat) : Except MaxwellAddressSpaceError Nat :=
  orError .arithmeticOverflow ((checkedAdd value (alignment - 1)).map fun aligned ↦
    aligned - (aligned &&& (alignment - 1)))

/-- The end of the occupied ranges that overlap the candidate. -/
def overlappingEnd (start stop : Nat) (occupied : List (Nat × Nat)) : Option Nat :=
  occupied.foldl (fun found range ↦
    if start < range.2 ∧ range.1 < stop then some (found.elim range.2 fun last ↦ max last range.2)
    else found) none

theorem exists_of_overlappingEnd {start stop last : Nat} {occupied : List (Nat × Nat)}
    (h : overlappingEnd start stop occupied = some last) :
    ∃ range ∈ occupied, (start < range.2 ∧ range.1 < stop) ∧ range.2 = last := by
  rw [overlappingEnd] at h
  refine List.foldlRecOn occupied _ (motive := fun found ↦ ∀ last, found = some last →
    ∃ range ∈ occupied, (start < range.2 ∧ range.1 < stop) ∧ range.2 = last) (by simp) ?_ last h
  intro found hfound range hrange last h
  split at h
  · rename_i hover
    cases found with
    | none => exact ⟨range, hrange, hover, Option.some.inj h⟩
    | some found =>
      obtain rfl : max found range.2 = last := Option.some.inj h
      rcases max_choice found range.2 with hmax | hmax
      · rw [hmax]
        exact hfound found rfl
      · exact ⟨range, hrange, hover, hmax.symm⟩
  · exact hfound last h

theorem le_of_alignUp {value alignment aligned : Nat} (h : alignUp value alignment = .ok aligned) :
    value ≤ aligned := by
  rw [alignUp] at h
  cases hadd : checkedAdd value (alignment - 1) with
  | none => rw [hadd] at h; exact nomatch h
  | some sum =>
    rw [hadd] at h
    rw [← Except.ok.inj h]
    have hsum := (checkedAdd_eq_some_iff.mp hadd).2
    have hand := Nat.and_le_right (n := sum) (m := alignment - 1)
    dsimp only
    omega

/-- The loop of `find_first_fit`. The candidate moves behind the ranges that overlap it. -/
def firstFit (occupied : Except MaxwellAddressSpaceError (List (Nat × Nat)))
    (regionEnd size alignment candidate : Nat) : Except MaxwellAddressSpaceError (Option Nat) :=
  match _hadd : checkedAdd candidate size with
  | none => .error .arithmeticOverflow
  | some candidateEnd =>
    if _hend : regionEnd < candidateEnd then .ok none
    else
      match occupied with
      | .error e => .error e
      | .ok ranges =>
        match _hoverlap : overlappingEnd candidate candidateEnd ranges with
        | none => .ok (some candidate)
        | some last =>
          match _halign : alignUp last alignment with
          | .error e => .error e
          | .ok next => firstFit (.ok ranges) regionEnd size alignment next
termination_by (regionEnd + 1) - candidate
decreasing_by
  obtain ⟨_, -, hover, rfl⟩ := exists_of_overlappingEnd _hoverlap
  have hle := le_of_alignUp _halign
  have hsum := (checkedAdd_eq_some_iff.mp _hadd).2
  omega

namespace MaxwellGpuAddressSpace

def new (id : Nat) (profile : MaxwellGpuProfile) : MaxwellGpuAddressSpace where
  id := id
  profile := profile
  regions := none
  reservations := ∅
  mappings := ∅
  nextMappingId := 1
  mappingGeneration := 0

variable (s : MaxwellGpuAddressSpace)

/-- Addresses of the width of the profile. -/
def address (value : Nat) : Except GpuVirtualAddressError Nat :=
  GpuVirtualAddress.tryNew value s.profile.addressBits

def checkedAdd (address byteOffset : Nat) : Except GpuVirtualAddressError Nat :=
  GpuVirtualAddress.checkedAdd address byteOffset s.profile.addressBits

def overlapsReservation (start stop : Nat) : Except MaxwellAddressSpaceError Bool :=
  overlapsAny MaxwellVaReservation.offset MaxwellVaReservation.checkedEnd start stop
    (records s.reservations)

def overlapsMapping (start stop : Nat) : Except MaxwellAddressSpaceError Bool :=
  overlapsAny MaxwellGpuMapping.offset MaxwellGpuMapping.checkedEnd start stop (records s.mappings)

def overlapsOccupied (start stop : Nat) : Except MaxwellAddressSpaceError Bool := do
  if ← s.overlapsReservation start stop then .ok true else s.overlapsMapping start stop

/-- The loop of `reservation_containing`. -/
def firstContaining (start stop : Nat) :
    List MaxwellVaReservation → Except MaxwellAddressSpaceError (Option MaxwellVaReservation)
  | [] => .ok none
  | reservation :: reservations =>
    if reservation.offset ≤ start then do
      let last ← reservation.checkedEnd
      if stop ≤ last then .ok (some reservation) else firstContaining start stop reservations
    else firstContaining start stop reservations

def reservationContaining (start stop : Nat) :
    Except MaxwellAddressSpaceError (Option MaxwellVaReservation) :=
  firstContaining start stop (records s.reservations)

def occupiedRanges : Except MaxwellAddressSpaceError (List (Nat × Nat)) := do
  let reserved ← rangesOf MaxwellVaReservation.offset MaxwellVaReservation.checkedEnd
    (records s.reservations)
  let mapped ← rangesOf MaxwellGpuMapping.offset MaxwellGpuMapping.checkedEnd (records s.mappings)
  .ok (reserved ++ mapped)

def findFirstFit (region : MaxwellVaRegion) (size alignment : Nat) :
    Except MaxwellAddressSpaceError (Option Nat) := do
  let regionEnd ← region.checkedEnd
  let candidate ← alignUp region.offset alignment
  firstFit s.occupiedRanges regionEnd size alignment candidate

def nextMappingGeneration : Except MaxwellAddressSpaceError Nat :=
  orError .generationExhausted (Nixe.checkedAdd s.mappingGeneration 1)

/-- The identity of the next mapping, and the one after it. -/
def nextMappingIdentity : Except MaxwellAddressSpaceError (Nat × Nat) :=
  orError .mappingIdentityExhausted
    ((Nixe.checkedAdd s.nextMappingId 1).map fun next ↦ (s.nextMappingId, next))

def retainedMappingIsCurrent (retained : MaxwellGpuMapping) : Bool :=
  s.mappings[retained.offset]?.any fun mapping ↦
    mapping.id == retained.id && mapping.generation == retained.generation &&
      mapping.offset == retained.offset && mapping.size == retained.size

end MaxwellGpuAddressSpace

/-! ## Checks -/

/-- `1_u64.checked_shl(bits)` is `None` for 64 bits. -/
def validateGeometry (profile : MaxwellGpuProfile)
    (start split stop smallPageSize bigPageSize : Nat) : Except MaxwellAddressSpaceError Unit :=
  if split ≤ start ∨ stop ≤ split ∨ ¬smallPageSize ∣ start ∨ ¬smallPageSize ∣ split ∨
      ¬bigPageSize ∣ split ∨ ¬bigPageSize ∣ stop then
    .error .invalidGeometry
  else if profile.addressBits < 64 ∧ 2 ^ profile.addressBits < stop then .error .invalidGeometry
  else .ok ()

def validateBacking (backing : CheckedRange) (offset size : Nat) (permissions : MemoryPermissions) :
    Except MaxwellAddressSpaceError Unit :=
  if size = 0 then .error .emptyMapping
  else do
    let stop ← orError .arithmeticOverflow (checkedAdd offset size)
    if backing.size < stop then .error .invalidBackingRange
    else if permissions = .empty ∨
        ∃ segment ∈ backing.segments, segment.permissions.contains permissions = false then
      .error .invalidMappingPermissions
    else .ok ()

/-- `INVALID_PTE_KIND`. -/
def invalidPteKind : Nat := 0xff

def validateKind (kind : Nat) : Except MaxwellAddressSpaceError Unit :=
  if kind = invalidPteKind then .error (.invalidKind kind) else .ok ()

def validateSparseRemapRequest (s : MaxwellGpuAddressSpace) (request : MaxwellSparseRemapRequest)
    (pageSize : Nat) : Except MaxwellAddressSpaceError Nat :=
  if request.size = 0 then .error .emptyMapping
  else if ¬pageSize ∣ request.offset ∨ ¬pageSize ∣ request.size then
    .error (.misalignedAddress request.offset pageSize)
  else do
    let stop ← orError .arithmeticOverflow (checkedAdd request.offset request.size)
    let reservation ← orError .outsideReservation (← s.reservationContaining request.offset stop)
    if reservation.sparse = false then .error .nonSparseReservation
    else
      match request.mapping with
      | none => .ok stop
      | some mapping => do
        validateKind mapping.kind
        validateBacking mapping.backing mapping.backingOffset request.size mapping.permissions
        if pageSize ∣ mapping.backingOffset then .ok stop
        else .error (.misalignedBackingRange mapping.backingOffset request.size pageSize)

/-- The first loop of `remap_sparse`. -/
def validateRemapRequests (s : MaxwellGpuAddressSpace) (pageSize : Nat) :
    List (Nat × Nat) → List MaxwellSparseRemapRequest → Except MaxwellAddressSpaceError Unit
  | _, [] => .ok ()
  | spans, request :: requests => do
    let stop ← validateSparseRemapRequest s request pageSize
    if ∃ span ∈ spans, request.offset < span.2 ∧ span.1 < stop then .error .overlappingRemapEntries
    else validateRemapRequests s pageSize (spans ++ [(request.offset, stop)]) requests

/-! ## Cutting mapping records -/

section

variable (generation addressBits : Nat)

/-- The part of a mapping before `stop`. -/
def MaxwellGpuMapping.before (mapping : MaxwellGpuMapping) (stop : Nat) : MaxwellGpuMapping :=
  { mapping with size := stop - mapping.offset, generation := generation }

/-- The part of a mapping from `start` on, up to `stop`. -/
def MaxwellGpuMapping.part (mapping : MaxwellGpuMapping) (start stop : Nat) :
    Except MaxwellAddressSpaceError MaxwellGpuMapping := do
  let offset ← (GpuVirtualAddress.tryNew start addressBits).mapError .address
  let backingOffset ← orError .arithmeticOverflow
    (checkedAdd mapping.backingOffset (start - mapping.offset))
  .ok { mapping with
    offset := offset
    backingOffset := backingOffset
    size := stop - start
    generation := generation }

/-- The loop body of `replace_mapping_range`. -/
def cutMapping (start stop : Nat) (mappings : MappingTable) (offset : Nat) :
    Except MaxwellAddressSpaceError MappingTable := do
  let mapping ← orError .arithmeticOverflow mappings[offset]?
  let mappings := mappings.erase offset
  let mappingEnd ← mapping.checkedEnd
  let mappings :=
    if mapping.offset < start then
      mappings.insert mapping.offset (mapping.before generation start)
    else mappings
  if stop < mappingEnd then do
    let right ← mapping.part generation addressBits stop mappingEnd
    .ok (mappings.insert right.offset right)
  else .ok mappings

def replaceMappingRange (mappings : MappingTable) (start stop : Nat) :
    Except MaxwellAddressSpaceError MappingTable :=
  (keysWhere mappings fun mapping ↦ mapping.meets start stop).foldlM
    (cutMapping generation addressBits start stop) mappings

/-- The mapping that a request installs. -/
def MaxwellSparseRemapRequest.install (request : MaxwellSparseRemapRequest)
    (source : MaxwellSparseMapping) (mappingId pageSize generation : Nat) : MaxwellGpuMapping :=
  { id := mappingId, unmapOffset := request.offset, offset := request.offset,
    size := request.size, allocation := source.allocation, backing := source.backing,
    backingOffset := source.backingOffset, permissions := source.permissions,
    pageSize := pageSize, kind := source.kind, cacheable := source.cacheable,
    generation := generation, fixed := true, sparse := true }

/-- The second loop of `remap_sparse`. -/
def remapEntries (pageSize : Nat) :
    Nat → MappingTable → List MaxwellSparseRemapRequest →
      Except MaxwellAddressSpaceError MappingTable
  | _, mappings, [] => .ok mappings
  | mappingId, mappings, request :: requests => do
    let stop ← orError .arithmeticOverflow (checkedAdd request.offset request.size)
    let mappings ← replaceMappingRange generation addressBits mappings request.offset stop
    match request.mapping with
    | none => remapEntries pageSize mappingId mappings requests
    | some source => do
      let next ← orError .mappingIdentityExhausted (checkedAdd mappingId 1)
      let mapping := request.install source mappingId pageSize generation
      remapEntries pageSize next (mappings.insert request.offset mapping) requests

/-- The check of `modify_mapping` that the records of a mapping have every byte of a range. -/
def coverage (stop : Nat) : Nat → List MaxwellGpuMapping → Except MaxwellAddressSpaceError Nat
  | covered, [] => .ok covered
  | covered, mapping :: group => do
    let mappingEnd ← mapping.checkedEnd
    if mappingEnd ≤ covered ∨ stop ≤ mapping.offset then coverage stop covered group
    else if covered < mapping.offset then .error .partialMapping
    else if min mappingEnd stop = stop then .ok stop
    else coverage stop (min mappingEnd stop) group

/-- The loop body of `modify_mapping`. -/
def modifyRecord (start stop kind : Nat) (cacheable : Bool) (mappings : MappingTable)
    (offset : Nat) : Except MaxwellAddressSpaceError MappingTable := do
  let mapping ← orError .unknownMapping mappings[offset]?
  let mappings := mappings.erase offset
  let mappingEnd ← mapping.checkedEnd
  let changedStart := max mapping.offset start
  let changedEnd := min mappingEnd stop
  let mappings :=
    if mapping.offset < changedStart then
      mappings.insert mapping.offset (mapping.before generation changedStart)
    else mappings
  let changed ← mapping.part generation addressBits changedStart changedEnd
  let mappings :=
    mappings.insert changed.offset { changed with kind := kind, cacheable := cacheable }
  if changedEnd < mappingEnd then do
    let right ← mapping.part generation addressBits changedEnd mappingEnd
    .ok (mappings.insert right.offset right)
  else .ok mappings

end

/-! ## Operations -/

/-- `DEFAULT_VA_SPLIT`. -/
def defaultVaSplit : Nat := 2 ^ 34

/-- `DEFAULT_VA_END`. -/
def defaultVaEnd : Nat := 2 ^ 37

/-- `ALLOC_SPACE_FIXED`. -/
def allocSpaceFixed : UInt32 := 1

/-- `ALLOC_SPACE_SPARSE`. -/
def allocSpaceSparse : UInt32 := 2

def allocSpaceKnownFlags : UInt32 := allocSpaceFixed ||| allocSpaceSparse

/-- The start, the split and the end that an initialization asks for. -/
def MaxwellAddressSpaceInitialization.geometry (request : MaxwellAddressSpaceInitialization)
    (bigPageSize : Nat) : Nat × Nat × Nat :=
  if request.vaRangeStart ≠ 0 ∨ request.vaRangeEnd ≠ 0 ∨ request.vaRangeSplit ≠ 0 then
    (request.vaRangeStart.toNat, request.vaRangeSplit.toNat, request.vaRangeEnd.toNat)
  else (bigPageSize <<< 10, defaultVaSplit, defaultVaEnd)

/-- The method `initialize` of the source. -/
def initializeSpace (request : MaxwellAddressSpaceInitialization) : AddressSpaceM Unit := do
  let s ← read id
  failIf (s.regions.isSome = true) .alreadyInitialized
  let bigPageSize := if request.bigPageSize = 0 then s.profile.bigPageSize else request.bigPageSize
  failIf (isPowerOfTwo bigPageSize = false ∨ s.profile.availableBigPageSizes &&& bigPageSize = 0)
    (.invalidBigPageSize bigPageSize)
  let (start, split, stop) := request.geometry bigPageSize
  let smallPageSize := s.profile.smallPageSize
  lift (validateGeometry s.profile start split stop smallPageSize bigPageSize)
  let smallOffset ← lift ((s.address start).mapError .address)
  let bigOffset ← lift ((s.address split).mapError .address)
  update fun s ↦ { s with
    regions := some (⟨smallOffset, smallPageSize, (split - start) / smallPageSize⟩,
      ⟨bigOffset, bigPageSize, (stop - split) / bigPageSize⟩) }

def requireRegions : AddressSpaceM (MaxwellVaRegion × MaxwellVaRegion) := do
  okOr (← read (·.regions)) .notInitialized

/-- The place of a new reservation. -/
def reserveOffset (region : MaxwellVaRegion) (size pageSize alignOrOffset : Nat) (fixed : Bool) :
    AddressSpaceM Nat := do
  let s ← read id
  if fixed then do
    failIf (alignOrOffset &&& (pageSize - 1) ≠ 0) (.misalignedAddress alignOrOffset pageSize)
    let stop ← okOr (checkedAdd alignOrOffset size) .arithmeticOverflow
    let inside ← lift (region.contains alignOrOffset stop)
    failIf (inside = false) .outsideVaRegion
    let overlaps ← lift (s.overlapsOccupied alignOrOffset stop)
    failIf (overlaps = true) .overlappingReservation
    pure alignOrOffset
  else do
    let alignment := max alignOrOffset pageSize
    failIf (isPowerOfTwo alignment = false ∨ ¬pageSize ∣ alignment) (.invalidAlignment alignment)
    let found ← lift (s.findFirstFit region size alignment)
    okOr found .insufficientAddressSpace

def reserve (pages pageSize : Nat) (flags : UInt32) (alignOrOffset : Nat) :
    AddressSpaceM MaxwellVaReservation := do
  let regions ← requireRegions
  failIf (pages = 0) .invalidPageCount
  failIf (flags &&& ~~~allocSpaceKnownFlags ≠ 0) (.invalidReservationFlags flags)
  let region ← okOr (regionWith regions pageSize) (.invalidPageSize pageSize)
  let sparse := decide (flags &&& allocSpaceSparse ≠ 0)
  failIf (sparse = true ∧ pageSize ≠ regions.2.pageSize) .sparseSmallPagesUnsupported
  let size ← okOr (checkedMul pages pageSize) .arithmeticOverflow
  let found ← reserveOffset region size pageSize alignOrOffset
    (decide (flags &&& allocSpaceFixed ≠ 0))
  let offset ← lift (((← read id).address found).mapError .address)
  let reservation : MaxwellVaReservation := ⟨offset, pages, pageSize, sparse⟩
  update fun s ↦ { s with reservations := s.reservations.insert offset reservation }
  pure reservation

def advanceMappingGeneration : AddressSpaceM Unit := do
  let generation ← lift (← read id).nextMappingGeneration
  update fun s ↦ { s with mappingGeneration := generation }

/-- `mappings.remove` of each of the keys. -/
def removeMappings (keys : List Nat) : AddressSpaceM Unit :=
  update fun s ↦ { s with mappings := keys.foldl ExtTreeMap.erase s.mappings }

def free (offset pages pageSize : Nat) : AddressSpaceM MaxwellVaReservation := do
  let _ ← requireRegions
  let s ← read id
  let reservation ← okOr s.reservations[offset]? .unknownReservation
  failIf (reservation.pages ≠ pages ∨ reservation.pageSize ≠ pageSize) .reservationShapeMismatch
  let reservationEnd ← lift reservation.checkedEnd
  let contained := keysWhere s.mappings fun mapping ↦ mapping.inside offset reservationEnd
  if contained ≠ [] then do
    advanceMappingGeneration
    removeMappings contained
  else pure ()
  update fun s ↦ { s with reservations := s.reservations.erase offset }
  pure reservation

/-- The page size of a mapping, which the request can leave to the frontend. -/
def MaxwellMapRequest.selectPageSize (request : MaxwellMapRequest)
    (regions : MaxwellVaRegion × MaxwellVaRegion) : Nat :=
  if request.pageSize = 0 then
    let bigPageSize := regions.2.pageSize
    if bigPageSize ≤ request.allocationAlignment ∧ bigPageSize ∣ request.backingOffset ∧
        bigPageSize ∣ request.size then
      bigPageSize
    else regions.1.pageSize
  else request.pageSize

/-- The place of a new mapping. -/
def mapOffset (region : MaxwellVaRegion) (size pageSize : Nat) :
    Option Nat → AddressSpaceM Nat
  | some offset => do
    failIf (¬pageSize ∣ offset) (.misalignedAddress offset pageSize)
    let stop ← okOr (checkedAdd offset size) .arithmeticOverflow
    let s ← read id
    let containing ← lift (s.reservationContaining offset stop)
    let reservation ← okOr containing .outsideReservation
    let overlaps ← lift (s.overlapsMapping offset stop)
    failIf (overlaps = true) .overlappingMapping
    assert (decide (reservation.offset ≤ offset))
      "reservation.offset.get() <= offset.get()"
    pure offset
  | none => do
    let s ← read id
    let found ← lift (s.findFirstFit region size pageSize)
    let offset ← okOr found .insufficientAddressSpace
    lift ((s.address offset).mapError .address)

def map (request : MaxwellMapRequest) : AddressSpaceM MaxwellGpuMapping := do
  let regions ← requireRegions
  lift (validateBacking request.backing request.backingOffset request.size request.permissions)
  lift (validateKind request.kind)
  failIf (request.allocationAlignment = 0 ∨ isPowerOfTwo request.allocationAlignment = false)
    (.invalidAlignment request.allocationAlignment)
  let pageSize := request.selectPageSize regions
  let region ← okOr (regionWith regions pageSize) (.invalidPageSize pageSize)
  failIf (¬pageSize ∣ request.backingOffset ∨ ¬pageSize ∣ request.size)
    (.misalignedBackingRange request.backingOffset request.size pageSize)
  let offset ← mapOffset region request.size pageSize request.fixedOffset
  let s ← read id
  let generation ← lift s.nextMappingGeneration
  let identity ← lift s.nextMappingIdentity
  let stop ← okOr (checkedAdd offset request.size) .arithmeticOverflow
  let containing ← lift (s.reservationContaining offset stop)
  let mapping : MaxwellGpuMapping :=
    { id := identity.1, unmapOffset := offset, offset := offset, size := request.size,
      allocation := request.allocation, backing := request.backing,
      backingOffset := request.backingOffset, permissions := request.permissions,
      pageSize := pageSize, kind := request.kind, cacheable := request.cacheable,
      generation := generation, fixed := request.fixedOffset.isSome,
      sparse := containing.any MaxwellVaReservation.sparse }
  update fun s ↦ { s with
    mappings := s.mappings.insert offset mapping
    nextMappingId := identity.2
    mappingGeneration := generation }
  pure mapping

/-- The identity of the first mapping record with the offset. -/
def MaxwellGpuAddressSpace.mappingIdAt (s : MaxwellGpuAddressSpace) (unmapOffset : Nat) :
    Option Nat :=
  ((records s.mappings).find? fun mapping ↦ mapping.unmapOffset == unmapOffset).map
    MaxwellGpuMapping.id

def unmap (offset : Nat) : AddressSpaceM (List MaxwellGpuMapping) := do
  let _ ← requireRegions
  let s ← read id
  match s.mappingIdAt offset with
  | none => pure []
  | some mappingId => do
    let removed := keysWhere s.mappings fun mapping ↦ mapping.id == mappingId
    advanceMappingGeneration
    removeMappings removed
    pure ((records s.mappings).filter fun mapping ↦ mapping.id == mappingId)

def remapSparse (requests : List MaxwellSparseRemapRequest) : AddressSpaceM Unit := do
  let regions ← requireRegions
  let pageSize := regions.2.pageSize
  failIf (requests = []) .emptyRemap
  let s ← read id
  lift (validateRemapRequests s pageSize [] requests)
  let generation ← lift s.nextMappingGeneration
  let newMappingCount := (requests.filter fun request ↦ request.mapping.isSome).length
  let nextMappingId ← okOr (checkedAdd s.nextMappingId newMappingCount) .mappingIdentityExhausted
  let mappings ← lift (remapEntries generation s.profile.addressBits pageSize s.nextMappingId
    s.mappings requests)
  update fun s ↦ { s with
    mappings := mappings
    nextMappingId := nextMappingId
    mappingGeneration := generation }

def modifyMapping (unmapOffset withinMapping size kind : Nat) (cacheable : Bool) :
    AddressSpaceM Unit := do
  let _ ← requireRegions
  lift (validateKind kind)
  failIf (size = 0) .emptyMapping
  let s ← read id
  let mappingId ← okOr (s.mappingIdAt unmapOffset) .unknownMapping
  let start ← okOr (checkedAdd unmapOffset withinMapping) .arithmeticOverflow
  let stop ← okOr (checkedAdd start size) .arithmeticOverflow
  let group := (records s.mappings).filter fun mapping ↦ mapping.id == mappingId
  let pageSize ← okOr (group.head?.map MaxwellGpuMapping.pageSize) .unknownMapping
  failIf (¬pageSize ∣ start ∨ ¬pageSize ∣ size) (.misalignedAddress start pageSize)
  let covered ← lift (coverage stop start group)
  failIf (covered ≠ stop) .partialMapping
  let generation ← lift s.nextMappingGeneration
  let affected := keysWhere s.mappings fun mapping ↦
    mapping.id == mappingId && mapping.meets start stop
  let mappings ← lift (affected.foldlM
    (modifyRecord generation s.profile.addressBits start stop kind cacheable) s.mappings)
  update fun s ↦ { s with mappings := mappings, mappingGeneration := generation }

/-! ## The machine -/

inductive AddressSpaceCall where
  | initializeSpace (request : MaxwellAddressSpaceInitialization)
  | reserve (pages pageSize : Nat) (flags : UInt32) (alignOrOffset : Nat)
  | free (offset pages pageSize : Nat)
  | map (request : MaxwellMapRequest)
  | unmap (offset : Nat)
  | remapSparse (requests : List MaxwellSparseRemapRequest)
  | modifyMapping (unmapOffset withinMapping size kind : Nat) (cacheable : Bool)
deriving DecidableEq

inductive AddressSpaceReply where
  | done
  | reservation (reservation : MaxwellVaReservation)
  | mapping (mapping : MaxwellGpuMapping)
  | mappings (mappings : List MaxwellGpuMapping)
deriving DecidableEq

def AddressSpaceCall.run : AddressSpaceCall → AddressSpaceM AddressSpaceReply
  | .initializeSpace request => do
    Maxwell.initializeSpace request
    pure .done
  | .reserve pages pageSize flags alignOrOffset => do
    pure (.reservation (← Maxwell.reserve pages pageSize flags alignOrOffset))
  | .free offset pages pageSize => do pure (.reservation (← Maxwell.free offset pages pageSize))
  | .map request => do pure (.mapping (← Maxwell.map request))
  | .unmap offset => do pure (.mappings (← Maxwell.unmap offset))
  | .remapSparse requests => do
    Maxwell.remapSparse requests
    pure .done
  | .modifyMapping unmapOffset withinMapping size kind cacheable => do
    Maxwell.modifyMapping unmapOffset withinMapping size kind cacheable
    pure .done

/-- An address space and the calls of its users. -/
def addressSpaceMachine :
    Machine MaxwellGpuAddressSpace AddressSpaceCall
      (Except MaxwellAddressSpaceError AddressSpaceReply) :=
  Method.machine AddressSpaceCall.run

end Nixe.Maxwell
