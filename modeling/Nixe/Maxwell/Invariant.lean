import Nixe.Maxwell.Cut

/-!
# The invariant of the GPU address space

An address space is valid if its mappings and its reservations are where they may be: disjoint,
inside the regions, aligned to pages, and so that a mapping is in one reservation or in none. The
mapping table is edited record by record, so what it has to satisfy (`TableValid`) is stated apart
from the rest of the state, with the identity and the generation that no record has reached yet. The
edits of the operations keep it.
-/

namespace Nixe.Maxwell

open Std Method Memory

/-- The range is inside one of the two regions. -/
def Within (regions : MaxwellVaRegion × MaxwellVaRegion) (start stop : Nat) : Prop :=
  regions.1.offset ≤ start ∧ stop ≤ regions.1.stop ∨
    regions.2.offset ≤ start ∧ stop ≤ regions.2.stop

structure RegionsValid (profile : MaxwellGpuProfile) (regions : MaxwellVaRegion × MaxwellVaRegion) :
    Prop where
  small : regions.1.pageSize = profile.smallPageSize
  big : isPowerOfTwo regions.2.pageSize = true
  dvd : regions.1.pageSize ∣ regions.2.pageSize
  stop_le : regions.1.stop ≤ 2 ^ profile.addressBits ∧ regions.2.stop ≤ 2 ^ profile.addressBits
  stop_lt : regions.1.stop < wordBound ∧ regions.2.stop < wordBound

/-- The mapping is inside a region and consists of pages of one of the two sizes. -/
structure Placed (regions : MaxwellVaRegion × MaxwellVaRegion) (mapping : MaxwellGpuMapping) :
    Prop where
  within : Within regions mapping.offset mapping.stop
  page : mapping.pageSize = regions.1.pageSize ∨ mapping.pageSize = regions.2.pageSize
  offset_dvd : mapping.pageSize ∣ mapping.offset
  size_dvd : mapping.pageSize ∣ mapping.size

/-- The mapping is contained in a reservation, or it is apart from all of them. -/
def Separate (reservations : ExtTreeMap Nat MaxwellVaReservation) (mapping : MaxwellGpuMapping) :
    Prop :=
  (∃ reservation ∈ records reservations,
    reservation.offset ≤ mapping.offset ∧ mapping.stop ≤ reservation.stop) ∨
  ∀ reservation ∈ records reservations,
    reservation.stop ≤ mapping.offset ∨ mapping.stop ≤ reservation.offset

/-- A table of mappings that fits to the regions and reservations of `s`. Its records have smaller
identities than `nextId`, and no generation beyond `generation`. -/
structure TableValid (s : MaxwellGpuAddressSpace) (nextId generation : Nat) (t : MappingTable) :
    Prop where
  ordered : t.Ordered
  sound : ∀ mapping ∈ records t, mapping.Sound s.profile.addressBits
  placed : ∀ mapping ∈ records t, ∃ regions, s.regions = some regions ∧ Placed regions mapping
  separate : ∀ mapping ∈ records t, Separate s.reservations mapping
  id_lt : ∀ mapping ∈ records t, mapping.id < nextId
  generation_le : ∀ mapping ∈ records t, mapping.generation ≤ generation
  pageSize_eq : ∀ mapping ∈ records t, ∀ mapping' ∈ records t, mapping.id = mapping'.id →
    mapping.pageSize = mapping'.pageSize

/-- The invariant of an address space. -/
structure MaxwellGpuAddressSpace.Valid (s : MaxwellGpuAddressSpace) : Prop where
  regions : ∀ regions, s.regions = some regions → RegionsValid s.profile regions
  reservations : ExtentTable MaxwellVaReservation.offset MaxwellVaReservation.stop s.reservations
  within : ∀ reservation ∈ records s.reservations, ∃ regions, s.regions = some regions ∧
    Within regions reservation.offset reservation.stop
  table : TableValid s s.nextMappingId s.mappingGeneration s.mappings

variable {s : MaxwellGpuAddressSpace} {nextId generation start stop : Nat} {t : MappingTable}
  {regions : MaxwellVaRegion × MaxwellVaRegion} {mapping piece : MaxwellGpuMapping}

namespace RegionsValid

variable (h : RegionsValid s.profile regions)
include h

theorem small_isPowerOfTwo : isPowerOfTwo regions.1.pageSize = true := by
  rw [h.small]
  exact s.profile.smallPageSize_isPowerOfTwo

theorem within_le (hwithin : Within regions start stop) : stop ≤ 2 ^ s.profile.addressBits := by
  rcases hwithin with ⟨-, hle⟩ | ⟨-, hle⟩
  · exact hle.trans h.stop_le.1
  · exact hle.trans h.stop_le.2

theorem within_lt (hwithin : Within regions start stop) : stop < wordBound := by
  rcases hwithin with ⟨-, hle⟩ | ⟨-, hle⟩
  · exact hle.trans_lt h.stop_lt.1
  · exact hle.trans_lt h.stop_lt.2

end RegionsValid

theorem MaxwellGpuAddressSpace.Valid.new (id : Nat) (profile : MaxwellGpuProfile) :
    (MaxwellGpuAddressSpace.new id profile).Valid where
  regions _ h := nomatch h
  reservations := .empty
  within r h := by simp [MaxwellGpuAddressSpace.new] at h
  table := by
    constructor <;> simp only [MaxwellGpuAddressSpace.new, records_empty, List.not_mem_nil,
      false_implies, implies_true]
    exact .empty

/-! ## Edits of the table -/

namespace TableValid

theorem mono (h : TableValid s nextId generation t) {nextId' generation' : Nat}
    (hid : nextId ≤ nextId') (hgeneration : generation ≤ generation') :
    TableValid s nextId' generation' t :=
  { h with
    id_lt := fun m hm ↦ (h.id_lt m hm).trans_le hid
    generation_le := fun m hm ↦ (h.generation_le m hm).trans hgeneration }

theorem of_subset {u : MappingTable} (h : TableValid s nextId generation t) (hu : u.Ordered)
    (hsub : ∀ m ∈ records u, m ∈ records t) : TableValid s nextId generation u where
  ordered := hu
  sound m hm := h.sound m (hsub m hm)
  placed m hm := h.placed m (hsub m hm)
  separate m hm := h.separate m (hsub m hm)
  id_lt m hm := h.id_lt m (hsub m hm)
  generation_le m hm := h.generation_le m (hsub m hm)
  pageSize_eq m hm m' hm' := h.pageSize_eq m (hsub m hm) m' (hsub m' hm')

theorem separate_of_isPart (h : Separate s.reservations mapping) (hpart : IsPart mapping piece) :
    Separate s.reservations piece := by
  have h₁ := hpart.offset_le
  have h₂ := hpart.stop_le
  rcases h with ⟨r, hr, h₃, h₄⟩ | h
  · exact .inl ⟨r, hr, h₃.trans h₁, h₂.trans h₄⟩
  · refine .inr fun r hr ↦ ?_
    rcases h r hr with h₃ | h₃
    · exact .inl (h₃.trans h₁)
    · exact .inr (h₂.trans h₃)

/-- A valid table in its address space. -/
theorem valid (ht : TableValid s nextId generation t) (hs : s.Valid) :
    ({ s with mappings := t, nextMappingId := nextId, mappingGeneration := generation } :
      MaxwellGpuAddressSpace).Valid :=
  ⟨hs.regions, hs.reservations, hs.within, ht.ordered, ht.sound, ht.placed, ht.separate, ht.id_lt,
    ht.generation_le, ht.pageSize_eq⟩

/-- Records are replaced by aligned parts of them. -/
theorem of_parts {u : MappingTable} (h : TableValid s nextId generation t) (hu : u.Ordered)
    (hparts : ∀ m ∈ records u, m ∈ records t ∨ m.generation = generation ∧
      ∃ m' ∈ records t, IsPart m' m ∧ m'.pageSize ∣ m.offset ∧ m'.pageSize ∣ m.size) :
    TableValid s nextId generation u := by
  -- Every record comes from one with the same identity and the same page size.
  have hfrom : ∀ m ∈ records u, ∃ m' ∈ records t, m.id = m'.id ∧ m.pageSize = m'.pageSize := by
    intro m hm
    rcases hparts m hm with hm | ⟨-, m', hm', hpart, -⟩
    · exact ⟨m, hm, rfl, rfl⟩
    · exact ⟨m', hm', hpart.id, hpart.pageSize⟩
  constructor
  case ordered => exact hu
  case sound =>
    intro m hm
    rcases hparts m hm with hm | ⟨-, m', hm', hpart, -⟩
    · exact h.sound m hm
    · exact (h.sound m' hm').of_isPart hpart
  case placed =>
    intro m hm
    rcases hparts m hm with hm | ⟨-, m', hm', hpart, hoffset, hsize⟩
    · exact h.placed m hm
    · obtain ⟨regions, hregions, hplaced⟩ := h.placed m' hm'
      refine ⟨regions, hregions, ?_, ?_, ?_, ?_⟩
      · have h₁ := hpart.offset_le
        have h₂ := hpart.stop_le
        rcases hplaced.within with ⟨h₃, h₄⟩ | ⟨h₃, h₄⟩
        · exact .inl ⟨h₃.trans h₁, h₂.trans h₄⟩
        · exact .inr ⟨h₃.trans h₁, h₂.trans h₄⟩
      all_goals rw [hpart.pageSize]
      · exact hplaced.page
      · exact hoffset
      · exact hsize
  case separate =>
    intro m hm
    rcases hparts m hm with hm | ⟨-, m', hm', hpart, -⟩
    · exact h.separate m hm
    · exact separate_of_isPart (h.separate m' hm') hpart
  case id_lt =>
    intro m hm
    obtain ⟨m', hm', hid, -⟩ := hfrom m hm
    rw [hid]
    exact h.id_lt m' hm'
  case generation_le =>
    intro m hm
    rcases hparts m hm with hm | ⟨hgeneration, -⟩
    · exact h.generation_le m hm
    · exact hgeneration.le
  case pageSize_eq =>
    intro m₁ hm₁ m₂ hm₂ hid
    obtain ⟨m₁', hm₁', hid₁, hsize₁⟩ := hfrom m₁ hm₁
    obtain ⟨m₂', hm₂', hid₂, hsize₂⟩ := hfrom m₂ hm₂
    rw [hsize₁, hsize₂]
    exact h.pageSize_eq m₁' hm₁' m₂' hm₂' (by rw [← hid₁, ← hid₂, hid])

/-- A mapping with the next identity is added. -/
theorem insert (h : TableValid s nextId generation t) (mapping : MaxwellGpuMapping)
    (hid : mapping.id = nextId) (hgeneration : mapping.generation ≤ generation)
    (hpos : mapping.offset < mapping.stop)
    (hapart : ∀ m ∈ records t, mapping.stop ≤ m.offset ∨ m.stop ≤ mapping.offset)
    (hsound : mapping.Sound s.profile.addressBits)
    (hplaced : ∃ regions, s.regions = some regions ∧ Placed regions mapping)
    (hseparate : Separate s.reservations mapping) :
    TableValid s (nextId + 1) generation (t.insert mapping.offset mapping) := by
  have hmem : ∀ m ∈ records (t.insert mapping.offset mapping), m = mapping ∨ m ∈ records t :=
    fun m hm ↦ (h.ordered.mem_records_insert_iff hpos hapart).mp hm
  constructor
  case ordered => exact h.ordered.insert hpos hapart
  case pageSize_eq =>
    intro m hm m' hm' heq
    rcases hmem m hm with rfl | hold <;> rcases hmem m' hm' with rfl | hold'
    · rfl
    · exact absurd (h.id_lt m' hold') (by omega)
    · exact absurd (h.id_lt m hold) (by omega)
    · exact h.pageSize_eq m hold m' hold' heq
  all_goals
    intro m hm
    rcases hmem m hm with rfl | hm
  · exact hsound
  · exact h.sound m hm
  · exact hplaced
  · exact h.placed m hm
  · exact hseparate
  · exact h.separate m hm
  · omega
  · exact (h.id_lt m hm).trans (Nat.lt_succ_self _)
  · exact hgeneration
  · exact h.generation_le m hm

end TableValid

/-! ## Parts are aligned -/

section

variable {d kind : Nat} {cacheable : Bool} (hstart : d ∣ start) (hstop : d ∣ stop)
  (hoffset : d ∣ mapping.offset) (hsize : d ∣ mapping.size)
include hstart hstop hoffset hsize

theorem aligned_of_mem_cutPieces (h : piece ∈ cutPieces generation start stop mapping) :
    d ∣ piece.offset ∧ d ∣ piece.size := by
  have hend : d ∣ mapping.stop := dvd_add hoffset hsize
  rcases mem_cutPieces_iff.mp h with ⟨-, rfl⟩ | ⟨-, rfl⟩
  · exact ⟨hoffset, Nat.dvd_sub hstart hoffset⟩
  · exact ⟨hstop, Nat.dvd_sub hend hstop⟩

theorem aligned_of_mem_modifyPieces
    (h : piece ∈ modifyPieces generation start stop kind cacheable mapping) :
    d ∣ piece.offset ∧ d ∣ piece.size := by
  have hend : d ∣ mapping.stop := dvd_add hoffset hsize
  have hmax : d ∣ max mapping.offset start := by
    rcases max_choice mapping.offset start with h | h <;> rwa [h]
  have hmin : d ∣ min mapping.stop stop := by
    rcases min_choice mapping.stop stop with h | h <;> rwa [h]
  rcases mem_modifyPieces_iff.mp h with h | rfl
  · exact aligned_of_mem_cutPieces hstart hstop hoffset hsize h
  · exact ⟨hmax, Nat.dvd_sub hmin hmax⟩

end

end Nixe.Maxwell
