import Nixe.Maxwell.Runs
import Nixe.Memory.RangeRead

/-!
# Resolution of GPU ranges

The frontend resolves a range of GPU addresses to segments of mappings before it reads the bytes.
The walk visits one mapping record after another, so the range resolves exactly if each of its
addresses has a record with the permissions, and the segments follow one another without a gap.
-/

namespace Nixe.Maxwell

open Std Method Machine Memory MaxwellGpuAddressSpace List GpuVirtualAddress MaxwellGpuMapping

inductive MaxwellGpuAccessError where
  | notInitialized
  | emptyRange
  | invalidPermissions
  | arithmeticOverflow
  | wrongAddressSpace (expected actual : Nat)
  | address (error : GpuVirtualAddressError)
  | unmappedAddress (address : Nat)
  | permissionDenied (address : Nat) (required available : MemoryPermissions)
  | outputSizeMismatch (expected actual : Nat)
  | staleMapping (mapping generation : Nat)
  | backing (error : CanonicalRangeAccessError)
deriving DecidableEq, Repr

structure MaxwellResolvedMapping where
  gpuOffset : Nat
  size : Nat
  backingOffset : Nat
  mapping : MaxwellGpuMapping
deriving DecidableEq

structure MaxwellResolvedRange where
  addressSpace : Nat
  offset : Nat
  size : Nat
  permissions : MemoryPermissions
  segments : List MaxwellResolvedMapping
deriving DecidableEq

/-- `mapping.end().is_ok_and(|end| a < end)`. -/
def MaxwellGpuMapping.endsAfter (mapping : MaxwellGpuMapping) (a : Nat) : Bool :=
  match mapping.checkedEnd with
  | .ok last => a < last
  | .error _ => false

namespace MaxwellGpuAddressSpace

variable (s : MaxwellGpuAddressSpace)

def validateResolutionRequest (offset : Nat) (permissions : MemoryPermissions) :
    Except MaxwellGpuAccessError Unit :=
  if s.regions.isNone = true then .error .notInitialized
  else do
    let _ ← (s.address offset).mapError .address
    if permissions = .empty then .error .invalidPermissions else .ok ()

def resolveMaximal (offset : Nat) (permissions : MemoryPermissions) :
    Except MaxwellGpuAccessError MaxwellResolvedMapping := do
  s.validateResolutionRequest offset permissions
  let mapping ← orError (.unmappedAddress offset)
    ((lastUpTo s.mappings offset).filter fun mapping ↦ mapping.endsAfter offset)
  if mapping.permissions.contains permissions = false then
    .error (.permissionDenied offset permissions mapping.permissions)
  else do
    let withinMapping ← orError .arithmeticOverflow (checkedSub offset mapping.offset)
    let size ← orError .arithmeticOverflow (checkedSub mapping.size withinMapping)
    let backingOffset ← orError .arithmeticOverflow
      (Nixe.checkedAdd mapping.backingOffset withinMapping)
    .ok ⟨offset, size, backingOffset, mapping⟩

variable {permissions : MemoryPermissions} {segment : MaxwellResolvedMapping}

theorem resolveMaximal_eq_ok_iff {offset : Nat} :
    s.resolveMaximal offset permissions = .ok segment ↔
      s.validateResolutionRequest offset permissions = .ok () ∧
      ∃ mapping, (lastUpTo s.mappings offset).filter (fun mapping ↦ mapping.endsAfter offset) =
          some mapping ∧
        mapping.permissions.contains permissions = true ∧ mapping.offset ≤ offset ∧
        offset - mapping.offset ≤ mapping.size ∧
        mapping.backingOffset + (offset - mapping.offset) < wordBound ∧
        segment = ⟨offset, mapping.size - (offset - mapping.offset),
          mapping.backingOffset + (offset - mapping.offset), mapping⟩ := by
  simp only [resolveMaximal, bind_eq_ok_iff, orError_eq_ok_iff, Unique.exists_iff,
    PUnit.default_eq_unit]
  refine and_congr_right fun _ ↦ exists_congr fun mapping ↦ and_congr_right fun _ ↦ ?_
  cases mapping.permissions.contains permissions with
  | false => simp
  | true =>
    simp only [Bool.true_eq_false, if_false, bind_eq_ok_iff, orError_eq_ok_iff,
      checkedSub_eq_some_iff, checkedAdd_eq_some_iff, Except.ok.injEq, true_and]
    constructor
    · rintro ⟨_, ⟨h₁, rfl⟩, _, ⟨h₂, rfl⟩, _, ⟨h₃, rfl⟩, rfl⟩
      exact ⟨h₁, h₂, h₃, rfl⟩
    · rintro ⟨h₁, h₂, h₃, rfl⟩
      exact ⟨_, ⟨h₁, rfl⟩, _, ⟨h₂, rfl⟩, _, ⟨h₃, rfl⟩, rfl⟩

/-- The walk makes progress. -/
theorem size_pos_of_resolveMaximal {offset : Nat}
    (h : s.resolveMaximal offset permissions = .ok segment) : 0 < segment.size := by
  obtain ⟨-, mapping, hfound, -, hle, -, -, rfl⟩ := (s.resolveMaximal_eq_ok_iff).mp h
  have hends := (Option.filter_eq_some_iff.mp hfound).2
  rw [endsAfter] at hends
  split at hends
  · rename_i last hlast
    rw [MaxwellGpuMapping.checkedEnd, orError_eq_ok_iff, checkedAdd_eq_some_iff] at hlast
    obtain ⟨-, rfl⟩ := hlast
    have hlt := of_decide_eq_true hends
    dsimp only
    omega
  · cases hends

/-- The loop of `resolve_range`. -/
def resolveSegments (permissions : MemoryPermissions) (cursor remaining : Nat) :
    Except MaxwellGpuAccessError (List MaxwellResolvedMapping) :=
  if remaining = 0 then .ok []
  else
    match _hsegment : s.resolveMaximal cursor permissions with
    | .error e => .error e
    | .ok segment =>
      let size := min segment.size remaining
      if remaining - size = 0 then .ok [{ segment with size := size }]
      else
        match (s.checkedAdd cursor size).mapError .address with
        | .error e => .error e
        | .ok next => do
          let segments ← resolveSegments permissions next (remaining - size)
          .ok ({ segment with size := size } :: segments)
termination_by remaining
decreasing_by
  have hpos := s.size_pos_of_resolveMaximal _hsegment
  omega

def resolveRange (offset size : Nat) (permissions : MemoryPermissions) :
    Except MaxwellGpuAccessError MaxwellResolvedRange := do
  s.validateResolutionRequest offset permissions
  if size = 0 then .error .emptyRange
  else do
    let _ ← (s.checkedAdd offset (size - 1)).mapError .address
    let segments ← s.resolveSegments permissions offset size
    .ok ⟨s.id, offset, size, permissions, segments⟩

/-- The first loop of `read_resolved`. -/
def checkCurrent : List MaxwellResolvedMapping → Except MaxwellGpuAccessError Unit
  | [] => .ok ()
  | segment :: segments =>
    if s.retainedMappingIsCurrent segment.mapping = false then
      .error (.staleMapping segment.mapping.id segment.mapping.generation)
    else checkCurrent segments

end MaxwellGpuAddressSpace

section

variable (hosts : Nat → HostAnswers)

/-- The second loop of `read_resolved`. -/
def readSegments : List MaxwellResolvedMapping → Method MaxwellGpuAccessError PageHeap (List UInt8)
  | [] => pure []
  | segment :: segments => do
    let bytes ← mapErr .backing
      (segment.mapping.backing.read hosts segment.backingOffset segment.size)
    let rest ← readSegments segments
    pure (bytes ++ rest)

/-- The call with an output of `outputSize` bytes, which returns what it writes to the output. -/
def readResolved (s : MaxwellGpuAddressSpace) (resolved : MaxwellResolvedRange) (outputSize : Nat) :
    Method MaxwellGpuAccessError PageHeap (List UInt8) := do
  failIf (resolved.addressSpace ≠ s.id) (.wrongAddressSpace resolved.addressSpace s.id)
  failIf (resolved.permissions.contains .readOnly = false)
    (.permissionDenied resolved.offset .readOnly resolved.permissions)
  failIf (outputSize ≠ resolved.size) (.outputSizeMismatch resolved.size outputSize)
  lift (s.checkCurrent resolved.segments)
  readSegments hosts resolved.segments

end

/-! ## Single addresses -/

section

variable {a d bits r : Nat}

theorem GpuVirtualAddress.checkedAdd_eq_ok_iff (hpos : 0 < bits) (hle : bits ≤ 64) :
    checkedAdd a d bits = .ok r ↔ a + d < 2 ^ bits ∧ r = a + d := by
  have hwidth : validAddressWidth bits = true := by simp [validAddressWidth, hpos, hle]
  have hword : 2 ^ bits ≤ wordBound := Nat.pow_le_pow_right (by decide) hle
  rw [checkedAdd, hwidth, if_neg (by simp)]
  constructor
  · intro h
    split at h
    · cases h
    · split at h
      · cases h
      · rename_i value hvalue
        obtain ⟨hlt, rfl⟩ := checkedAdd_eq_some_iff.mp hvalue
        exact (tryNew_eq_ok_iff hpos hle hlt).mp h
  · rintro ⟨hlt, rfl⟩
    have hfits : fitsAddressWidth a bits = true :=
      (fitsAddressWidth_iff (by omega)).mpr (by omega)
    have hadd : Nixe.checkedAdd a d = some (a + d) :=
      checkedAdd_eq_some_iff.mpr ⟨by omega, rfl⟩
    rw [hfits, if_neg (by simp), hadd]
    exact (tryNew_eq_ok_iff hpos hle (by omega)).mpr ⟨hlt, rfl⟩

theorem mapError_eq_ok_iff {ε δ α : Type} {x : Except ε α} {f : ε → δ} {b : α} :
    x.mapError f = .ok b ↔ x = .ok b := by
  cases x <;> simp [Except.mapError]

end

variable {s : MaxwellGpuAddressSpace} {a n : Nat} {p : MemoryPermissions}

theorem validateResolutionRequest_of_fits {regions : MaxwellVaRegion × MaxwellVaRegion}
    (hregions : s.regions = some regions) (hp : p ≠ .empty) (ha : a < 2 ^ s.profile.addressBits) :
    s.validateResolutionRequest a p = .ok () := by
  have hword : 2 ^ s.profile.addressBits ≤ wordBound :=
    Nat.pow_le_pow_right (by decide) s.profile.addressBits_le
  have haddress : s.address a = .ok a :=
    (tryNew_eq_ok_iff s.profile.addressBits_pos s.profile.addressBits_le
      (ha.trans_le hword)).mpr ⟨ha, rfl⟩
  rw [validateResolutionRequest, hregions, if_neg (by simp), haddress]
  exact if_neg hp

theorem ne_empty_of_validateResolutionRequest (h : s.validateResolutionRequest a p = .ok ()) :
    p ≠ .empty := by
  rw [validateResolutionRequest] at h
  split at h
  · exact nomatch h
  · obtain ⟨-, -, h⟩ := bind_eq_ok_iff.mp h
    split at h
    · exact nomatch h
    · assumption

/-- The walk finds the record that has the address. -/
theorem MaxwellGpuAddressSpace.Valid.resolveMaximal_iff (hs : s.Valid)
    {segment : MaxwellResolvedMapping} :
    s.resolveMaximal a p = .ok segment ↔ p ≠ .empty ∧ ∃ m ∈ records s.mappings, m.Has a ∧
      m.permissions.contains p = true ∧
      segment = ⟨a, m.stop - a, m.backingOffset + (a - m.offset), m⟩ := by
  have hfilter : (lastUpTo s.mappings a).filter (fun m ↦ m.endsAfter a) =
      (lastUpTo s.mappings a).filter fun m ↦ decide (a < m.stop) := by
    cases hlast : lastUpTo s.mappings a with
    | none => rfl
    | some m =>
      have hm : m ∈ records s.mappings := mem_records_of_lastUpTo hlast
      rw [Option.filter_some, Option.filter_some, endsAfter,
        checkedEnd_eq (hs.mapping_lt hm)]
  rw [s.resolveMaximal_eq_ok_iff, hfilter]
  simp only [hs.table.ordered.lastUpTo_filter_eq_some_iff]
  constructor
  · rintro ⟨hvalid, m, ⟨hm, ha⟩, hcontains, hle, -, -, rfl⟩
    refine ⟨ne_empty_of_validateResolutionRequest hvalid, m, hm, ha, hcontains, ?_⟩
    rw [stop, show m.offset + m.size - a = m.size - (a - m.offset) by omega]
  · rintro ⟨hp, m, hm, ha, hcontains, rfl⟩
    obtain ⟨regions, hregions, -⟩ := hs.table.placed m hm
    have hsound := hs.table.sound m hm
    obtain ⟨h₁, h₂⟩ := ha
    have hstop : m.stop = m.offset + m.size := rfl
    have hsize := m.backing.size_lt
    have hwindow := hsound.window
    refine ⟨validateResolutionRequest_of_fits hregions hp (h₂.trans_le hsound.stop_le), m,
      ⟨hm, h₁, h₂⟩, hcontains, h₁, by omega, by omega, ?_⟩
    rw [hstop, show m.offset + m.size - a = m.size - (a - m.offset) by omega]

/-! ## Ranges -/

/-- The segments cover the addresses from `start` to `stop`, one after another. -/
def Tiles : Nat → Nat → List MaxwellResolvedMapping → Prop
  | start, stop, [] => start = stop
  | start, stop, segment :: segments =>
    segment.gpuOffset = start ∧ 0 < segment.size ∧ Tiles (start + segment.size) stop segments

/-- The segment is a part of an active mapping that has the permissions. -/
structure Resolved (s : MaxwellGpuAddressSpace) (p : MemoryPermissions)
    (segment : MaxwellResolvedMapping) : Prop where
  mem : segment.mapping ∈ records s.mappings
  permissions : segment.mapping.permissions.contains p = true
  offset_le : segment.mapping.offset ≤ segment.gpuOffset
  stop_le : segment.gpuOffset + segment.size ≤ segment.mapping.stop
  backingOffset : segment.backingOffset =
    segment.mapping.backingOffset + (segment.gpuOffset - segment.mapping.offset)

/-- Every address of the range has a record with the permissions. -/
def Mapped (s : MaxwellGpuAddressSpace) (p : MemoryPermissions) (a n : Nat) : Prop :=
  ∀ i < n, ∃ m ∈ records s.mappings, m.Has (a + i) ∧ m.permissions.contains p = true

theorem MaxwellGpuAddressSpace.Valid.resolveSegments_spec (hs : s.Valid) (hp : p ≠ .empty)
    (hfits : n = 0 ∨ a + n - 1 < 2 ^ s.profile.addressBits) :
    (Mapped s p a n → ∃ segments, s.resolveSegments p a n = .ok segments) ∧
    ∀ segments, s.resolveSegments p a n = .ok segments →
      Mapped s p a n ∧ Tiles a (a + n) segments ∧ ∀ segment ∈ segments, Resolved s p segment := by
  induction n using Nat.strong_induction_on generalizing a with
  | h n ih =>
    rw [resolveSegments]
    by_cases hn : n = 0
    · subst hn
      rw [if_pos rfl]
      refine ⟨fun _ ↦ ⟨[], rfl⟩, fun segments h ↦ ?_⟩
      obtain rfl := Except.ok.inj h
      exact ⟨by simp [Mapped], rfl, by simp⟩
    rw [if_neg hn]
    have hfits := hfits.resolve_left hn
    cases hmaximal : s.resolveMaximal a p with
    | error e =>
      refine ⟨fun hmapped ↦ ?_, nofun⟩
      obtain ⟨m, hm, ha, hcontains⟩ := hmapped 0 (Nat.pos_of_ne_zero hn)
      rw [Nat.add_zero] at ha
      rw [hs.resolveMaximal_iff.mpr ⟨hp, m, hm, ha, hcontains, rfl⟩] at hmaximal
      exact nomatch hmaximal
    | ok segment =>
      obtain ⟨-, m, hm, ha, hcontains, rfl⟩ := hs.resolveMaximal_iff.mp hmaximal
      have hlt := ha.2
      have hfirst : Resolved s p ⟨a, min (m.stop - a) n, m.backingOffset + (a - m.offset), m⟩ :=
        ⟨hm, hcontains, ha.1, by dsimp only; omega, rfl⟩
      -- The record has the addresses of the first segment.
      have hhas : ∀ i < min (m.stop - a) n, m.Has (a + i) := fun i hi ↦
        ⟨ha.1.trans (Nat.le_add_right _ _), by omega⟩
      dsimp only
      by_cases hrest : n - min (m.stop - a) n = 0
      · rw [if_pos hrest]
        refine ⟨fun _ ↦ ⟨_, rfl⟩, fun segments h ↦ ?_⟩
        obtain rfl := Except.ok.inj h
        have hmin : min (m.stop - a) n = n := by omega
        refine ⟨fun i hi ↦ ⟨m, hm, hhas i (by omega), hcontains⟩, ⟨rfl, by dsimp only; omega, ?_⟩,
          forall_mem_singleton.mpr hfirst⟩
        dsimp only
        rw [hmin]
        rfl
      · rw [if_neg hrest]
        have hnext : s.checkedAdd a (min (m.stop - a) n) = .ok (a + min (m.stop - a) n) :=
          (checkedAdd_eq_ok_iff s.profile.addressBits_pos
            s.profile.addressBits_le).mpr ⟨by omega, rfl⟩
        rw [hnext]
        obtain ⟨hok, hspec⟩ := ih (n - min (m.stop - a) n) (by omega)
          (a := a + min (m.stop - a) n) (.inr (by omega))
        constructor
        · intro hmapped
          obtain ⟨segments, hsegments⟩ := hok fun i hi ↦ by
            have := hmapped (min (m.stop - a) n + i) (by omega)
            rwa [← Nat.add_assoc] at this
          exact ⟨_, bind_eq_ok_iff.mpr ⟨segments, hsegments, rfl⟩⟩
        · intro segments h
          obtain ⟨tail, htail, h⟩ := bind_eq_ok_iff.mp h
          obtain rfl := Except.ok.inj h
          obtain ⟨hmapped, htiles, hresolved⟩ := hspec tail htail
          refine ⟨fun i hi ↦ ?_, ⟨rfl, by dsimp only; omega, ?_⟩,
            forall_mem_cons.mpr ⟨hfirst, hresolved⟩⟩
          · by_cases hin : i < min (m.stop - a) n
            · exact ⟨m, hm, hhas i hin, hcontains⟩
            · have := hmapped (i - min (m.stop - a) n) (by omega)
              rwa [show a + min (m.stop - a) n + (i - min (m.stop - a) n) = a + i by omega] at this
          · dsimp only
            rwa [show a + min (m.stop - a) n + (n - min (m.stop - a) n) = a + n by omega] at htiles

/-! ## Cells -/

/-- The backing bytes of a resolved range, in order. -/
def resolvedCells (segments : List MaxwellResolvedMapping) : List (Nat × Nat) :=
  segments.flatMap fun segment ↦ segment.mapping.backing.window segment.backingOffset segment.size

namespace Resolved

variable {segment : MaxwellResolvedMapping} (h : Resolved s p segment)
include h

theorem window_le (hs : s.Valid) :
    segment.backingOffset + segment.size ≤ segment.mapping.backing.size := by
  have hwindow := (hs.table.sound _ h.mem).window
  have hstop : segment.mapping.stop = segment.mapping.offset + segment.mapping.size := rfl
  have h₁ := h.offset_le
  have h₂ := h.stop_le
  rw [h.backingOffset]
  omega

/-- A byte of the segment is the byte of the mapping that has its address. -/
theorem translate_eq (hs : s.Valid) {i : Nat} (hi : i < segment.size) :
    ∃ cell, segment.mapping.backing.cells[segment.backingOffset + i]? = some cell ∧
      s.translate (segment.gpuOffset + i) =
        some (cell, segment.mapping.kind, segment.mapping.cacheable) := by
  have h₁ := h.offset_le
  have h₂ := h.stop_le
  have hlt : segment.backingOffset + i < segment.mapping.backing.cells.length := by
    have hwindow := h.window_le hs
    rw [CheckedRange.length_cells]
    omega
  refine ⟨_, List.getElem?_eq_getElem hlt, ?_⟩
  rw [MaxwellGpuAddressSpace.translate, MappingTable.translate_of_mem hs.table.ordered h.mem
    ⟨by omega, by omega⟩, MaxwellGpuMapping.translate]
  rw [show segment.mapping.backingOffset + (segment.gpuOffset + i - segment.mapping.offset) =
    segment.backingOffset + i by rw [h.backingOffset]; omega, List.getElem?_eq_getElem hlt]
  rfl

end Resolved

/-- The cells of segments that follow one another are the backing bytes of the range. -/
theorem resolvedCells_spec (hs : s.Valid) {segments : List MaxwellResolvedMapping} {stop : Nat}
    (htiles : Tiles a stop segments) (hresolved : ∀ segment ∈ segments, Resolved s p segment) :
    a + (resolvedCells segments).length = stop ∧
      ∀ i < (resolvedCells segments).length,
        (resolvedCells segments)[i]? = (s.translate (a + i)).map Prod.fst := by
  induction segments generalizing a with
  | nil => exact ⟨htiles, by simp [resolvedCells]⟩
  | cons segment segments ih =>
    obtain ⟨rfl, -, htiles⟩ := htiles
    obtain ⟨hsegment, hsegments⟩ := forall_mem_cons.mp hresolved
    obtain ⟨hlength, hcells⟩ := ih htiles hsegments
    have hfirst := segment.mapping.backing.length_window (hsegment.window_le hs)
    rw [resolvedCells, flatMap_cons, ← resolvedCells, length_append, hfirst]
    refine ⟨by omega, fun i hi ↦ ?_⟩
    by_cases hin : i < segment.size
    · obtain ⟨cell, hcell, htranslate⟩ := hsegment.translate_eq hs hin
      rw [List.getElem?_append_left (by omega), CheckedRange.getElem?_window _ hin, hcell,
        htranslate]
      rfl
    · rw [List.getElem?_append_right (by omega), hfirst, hcells (i - segment.size) (by omega),
        show segment.gpuOffset + segment.size + (i - segment.size) = segment.gpuOffset + i by omega]

/-! ## Reads -/

section

variable {hosts : Nat → HostAnswers} {pages : PageHeap} {segments : List MaxwellResolvedMapping}

theorem checkCurrent_eq_ok (hs : s.Valid) (hresolved : ∀ segment ∈ segments, Resolved s p segment) :
    s.checkCurrent segments = .ok () := by
  induction segments with
  | nil => rfl
  | cons segment segments ih =>
    obtain ⟨hsegment, hsegments⟩ := forall_mem_cons.mp hresolved
    have hcurrent : s.retainedMappingIsCurrent segment.mapping = true := by
      rw [retainedMappingIsCurrent,
        hs.table.ordered.getElem?_eq_some_iff.mpr ⟨hsegment.mem, rfl⟩]
      simp
    rw [checkCurrent, hcurrent, if_neg (by simp), ih hsegments]

/-- The bytes that are read are those of the cells, in order. -/
theorem readSegments_spec (segments : List MaxwellResolvedMapping) :
    wp (readSegments hosts segments)
      ⟨fun bytes pages' ↦ KeepsVisible pages pages' ∧
          (∀ cell ∈ resolvedCells segments, (pages' cell.1).visibility.CpuVisible) ∧
          bytes = gather pages'.contents (resolvedCells segments),
        fun _ _ ↦ True, False⟩ pages := by
  induction segments generalizing pages with
  | nil => exact ⟨fun _ _ ↦ rfl, nofun, rfl⟩
  | cons segment segments ih =>
    simp only [readSegments, wp_rules]
    refine wp_of_wp (segment.mapping.backing.read_spec _ _) ?_ (fun _ _ _ ↦ trivial)
    rintro bytes pages' ⟨hkeeps, hvisible, rfl⟩
    refine wp_of_wp ih ?_ (fun _ _ _ ↦ trivial)
    rintro rest pages'' ⟨hkeeps', hvisible', rfl⟩
    rw [resolvedCells, flatMap_cons, ← resolvedCells]
    refine ⟨hkeeps.trans hkeeps', forall_mem_append.mpr ⟨fun cell hcell ↦ ?_, hvisible'⟩, ?_⟩
    · rw [hkeeps' _ (hvisible cell hcell)]
      exact hvisible cell hcell
    · rw [gather_append, hkeeps'.gather_eq hvisible]

/-- The read succeeds if the pages can be made visible. -/
theorem readSegments_ok (hs : s.Valid) (hresolved : ∀ segment ∈ segments, Resolved s p segment)
    (hcells : ∀ cell ∈ resolvedCells segments,
      Accessible hosts pages cell.1 ∧ cell.2 < (pages cell.1).size) :
    wp (readSegments hosts segments) ⟨fun _ _ ↦ True, fun _ _ ↦ False, False⟩ pages := by
  induction segments generalizing pages with
  | nil => trivial
  | cons segment segments ih =>
    obtain ⟨hsegment, hsegments⟩ := forall_mem_cons.mp hresolved
    rw [resolvedCells, flatMap_cons, ← resolvedCells, forall_mem_append] at hcells
    simp only [readSegments, wp_rules]
    refine wp_of_ok (segment.mapping.backing.read_ok (hsegment.window_le hs) hcells.1) ?_
    rintro _ pages' hpreserves
    refine ih hsegments fun cell hcell ↦ ?_
    rw [hpreserves.size]
    exact ⟨hpreserves.accessible _ (hcells.2 cell hcell).1, (hcells.2 cell hcell).2⟩

theorem readResolved_spec (range : MaxwellResolvedRange) :
    wp (readResolved hosts s range n)
      ⟨fun bytes pages' ↦ bytes = gather pages'.contents (resolvedCells range.segments),
        fun _ _ ↦ True, False⟩ pages := by
  simp only [readResolved, wp_rules]
  refine ⟨fun _ ↦ trivial, fun _ ↦ ⟨fun _ ↦ trivial, fun _ ↦ ⟨fun _ ↦ trivial, fun _ ↦
    ⟨fun _ _ ↦ ?_, fun _ _ ↦ trivial⟩⟩⟩⟩
  exact wp_of_ok (readSegments_spec range.segments) (fun _ _ h ↦ h.2.2)

theorem readResolved_ok (hs : s.Valid) (hread : p.read = true)
    (hresolved : ∀ segment ∈ segments, Resolved s p segment)
    (hcells : ∀ cell ∈ resolvedCells segments,
      Accessible hosts pages cell.1 ∧ cell.2 < (pages cell.1).size) :
    ∃ bytes pages', readResolved hosts s ⟨s.id, a, n, p, segments⟩ n pages = .ok bytes pages' := by
  have hcontains : p.contains .readOnly = true := by
    simp [MemoryPermissions.contains, MemoryPermissions.readOnly, hread]
  have hspec : wp (readResolved hosts s ⟨s.id, a, n, p, segments⟩ n)
      ⟨fun _ _ ↦ True, fun _ _ ↦ False, False⟩ pages := by
    simp only [readResolved, wp_rules, checkCurrent_eq_ok hs hresolved, hcontains]
    refine ⟨fun h ↦ h rfl, fun _ ↦ ⟨by simp, fun _ ↦ ⟨fun h ↦ h rfl, fun _ ↦
      ⟨fun _ _ ↦ ?_, by simp⟩⟩⟩⟩
    exact readSegments_ok hs hresolved hcells
  rw [wp] at hspec
  cases hend : readResolved hosts s ⟨s.id, a, n, p, segments⟩ n pages with
  | ok bytes pages' => exact ⟨bytes, pages', rfl⟩
  | err | panic => rw [hend] at hspec; exact hspec.elim

end

/-! ## Main result -/

theorem MaxwellGpuAddressSpace.resolveRange_eq_ok_iff (hn : 0 < n) {range : MaxwellResolvedRange} :
    s.resolveRange a n p = .ok range ↔
      s.validateResolutionRequest a p = .ok () ∧ a + n - 1 < 2 ^ s.profile.addressBits ∧
        ∃ segments, s.resolveSegments p a n = .ok segments ∧ range = ⟨s.id, a, n, p, segments⟩ := by
  have hadd : ∀ r, s.checkedAdd a (n - 1) = .ok r ↔ a + n - 1 < 2 ^ s.profile.addressBits ∧
      r = a + n - 1 := by
    intro r
    rw [checkedAdd, checkedAdd_eq_ok_iff
      s.profile.addressBits_pos s.profile.addressBits_le, show a + (n - 1) = a + n - 1 by omega]
  rw [resolveRange, if_neg hn.ne']
  simp only [bind_eq_ok_iff, Unique.exists_iff, PUnit.default_eq_unit, mapError_eq_ok_iff, hadd,
    Except.ok.injEq]
  constructor
  · rintro ⟨h₁, _, ⟨h₂, -⟩, segments, hsegments, rfl⟩
    exact ⟨h₁, h₂, segments, hsegments, rfl⟩
  · rintro ⟨h₁, h₂, segments, hsegments, rfl⟩
    exact ⟨h₁, _, ⟨h₂, rfl⟩, segments, hsegments, rfl⟩

/-- **Range resolution is exact.** A range resolves if and only if each of its bytes is mapped with
the permissions and the last one fits the address width. The segments then cover the range in order,
each byte of a segment is the byte of the record with its address, and reading the range returns the
backing bytes in order; it succeeds if the range was resolved for reading and the canonical pages
can be accessed. -/
theorem resolveRange_exact {id : Nat} {profile : MaxwellGpuProfile}
    {es : List (AddressSpaceCall × Except MaxwellAddressSpaceError AddressSpaceReply)}
    (h : Run addressSpaceMachine (.new id profile) es s) (a : Nat) {n : Nat} (hn : 0 < n)
    (p : MemoryPermissions) :
    ((∃ range, s.resolveRange a n p = .ok range) ↔ p ≠ .empty ∧
      (∀ i < n, ∃ m ∈ records s.mappings, (m.offset ≤ a + i ∧ a + i < m.offset + m.size) ∧
        m.permissions.contains p = true) ∧
      a + n - 1 < 2 ^ s.profile.addressBits) ∧
    ∀ range, s.resolveRange a n p = .ok range →
      Tiles a (a + n) range.segments ∧
      (∀ segment ∈ range.segments, segment.mapping ∈ records s.mappings ∧ ∀ i < segment.size,
        ∃ cell, segment.mapping.backing.cells[segment.backingOffset + i]? = some cell ∧
          s.translate (segment.gpuOffset + i) =
            some (cell, segment.mapping.kind, segment.mapping.cacheable)) ∧
      ∃ cells : List (Nat × Nat), cells.length = n ∧
        (∀ i < n, (s.translate (a + i)).map Prod.fst = cells[i]?) ∧
        ∀ hosts pages,
          (∀ bytes pages', readResolved hosts s range n pages = .ok bytes pages' →
            bytes = gather pages'.contents cells) ∧
          (p.read = true →
            (∀ cell ∈ cells, Accessible hosts pages cell.1 ∧ cell.2 < (pages cell.1).size) →
            ∃ bytes pages', readResolved hosts s range n pages = .ok bytes pages') := by
  have hs := MaxwellGpuAddressSpace.Valid.of_run (.new id profile) h
  constructor
  · constructor
    · rintro ⟨range, hrange⟩
      obtain ⟨hvalid, hfits, segments, hsegments, -⟩ :=
        (resolveRange_eq_ok_iff hn).mp hrange
      have hp := ne_empty_of_validateResolutionRequest hvalid
      exact ⟨hp, ((hs.resolveSegments_spec hp (.inr hfits)).2 segments hsegments).1, hfits⟩
    · rintro ⟨hp, hmapped, hfits⟩
      obtain ⟨segments, hsegments⟩ := (hs.resolveSegments_spec hp (.inr hfits)).1 hmapped
      obtain ⟨m, hm, -⟩ := hmapped 0 hn
      obtain ⟨regions, hregions, -⟩ := hs.table.placed m hm
      exact ⟨_, (resolveRange_eq_ok_iff hn).mpr ⟨validateResolutionRequest_of_fits hregions hp
        (by omega), hfits, segments, hsegments, rfl⟩⟩
  · intro range hrange
    obtain ⟨hvalid, hfits, segments, hsegments, rfl⟩ :=
      (resolveRange_eq_ok_iff hn).mp hrange
    have hp := ne_empty_of_validateResolutionRequest hvalid
    obtain ⟨-, htiles, hresolved⟩ :=
      (hs.resolveSegments_spec hp (.inr hfits)).2 segments hsegments
    obtain ⟨hlength, hcells⟩ := resolvedCells_spec hs htiles hresolved
    have hlength : (resolvedCells segments).length = n := by omega
    refine ⟨htiles, fun segment hsegment ↦ ⟨(hresolved segment hsegment).mem, fun i hi ↦
      (hresolved segment hsegment).translate_eq hs hi⟩, resolvedCells segments, hlength,
      fun i hi ↦ (hcells i (by omega)).symm, fun hosts pages ↦ ⟨?_, ?_⟩⟩
    · exact fun bytes pages' hread ↦ ok_of_wp (readResolved_spec ⟨s.id, a, n, p, segments⟩) hread
    · intro hpread haccessible
      exact readResolved_ok hs hpread hresolved haccessible

/-- A read of all that a mapping of two pages has. -/
theorem resolveRange_exact_example : ∃ es s range,
    Run addressSpaceMachine (.new 1 .switch1Gm20b) es s ∧
      s.resolveRange (2 ^ 34) 0x40000 .readOnly = .ok range ∧
      Tiles (2 ^ 34) (2 ^ 34 + 0x40000) range.segments := by
  have hexec : ∃ r ∈ exec addressSpaceMachine (.new 1 .switch1Gm20b) exampleMap,
      r.2.profile.addressBits = 40 ∧ ∃ m ∈ r.2.mappings[2 ^ 34]?,
        m.offset = 2 ^ 34 ∧ m.size = 0x40000 ∧ m.permissions = .readWrite := by
    decide +kernel
  obtain ⟨es, s, hrun, -, hbits, m, hm, hoffset, hsize, hpermissions⟩ := exists_run_of_exec hexec
  obtain ⟨hiff, hresult⟩ := resolveRange_exact hrun (2 ^ 34) (n := 0x40000) (by decide) .readOnly
  obtain ⟨range, hrange⟩ := hiff.mpr ⟨by decide, fun i hi ↦ ⟨m, mem_records hm,
    ⟨by rw [hoffset]; exact Nat.le_add_right _ _, by rw [hoffset, hsize]; omega⟩,
    by rw [hpermissions]; decide⟩, by rw [hbits]; decide⟩
  exact ⟨es, s, range, hrun, hrange, (hresult range hrange).1⟩

end Nixe.Maxwell
