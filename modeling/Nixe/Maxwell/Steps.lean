import Nixe.Maxwell.Invariant

/-!
# The operations of the GPU address space

One specification for each operation on a valid address space: it does not panic, a call that fails
leaves the address space as it was, and what a call that succeeds leaves behind. The calls that
replace a range and those that modify one have a precise description of the table that they leave
(`Remapped` and `Modified`), from which both the invariant and the meaning of the call are read off.
-/

namespace Nixe.Maxwell

open Std Method Memory List

variable {s t : MaxwellGpuAddressSpace} {regions : MaxwellVaRegion × MaxwellVaRegion}
  {start stop : Nat}

/-- No reservation and no mapping has an address of the range. -/
structure Vacant (s : MaxwellGpuAddressSpace) (start stop : Nat) : Prop where
  reservations : ∀ r ∈ records s.reservations, stop ≤ r.offset ∨ r.stop ≤ start
  mappings : ∀ m ∈ records s.mappings, stop ≤ m.offset ∨ m.stop ≤ start

/-- The ranges that are reserved or mapped. -/
def MaxwellGpuAddressSpace.occupied (s : MaxwellGpuAddressSpace) : List (Nat × Nat) :=
  (records s.reservations).map (fun r ↦ (r.offset, r.stop)) ++
    (records s.mappings).map fun m ↦ (m.offset, m.stop)

/-- Records are only added with a generation that there has not been before. -/
structure Fresh (s t : MaxwellGpuAddressSpace) : Prop where
  generation_le : s.mappingGeneration ≤ t.mappingGeneration
  fresh : ∀ m ∈ records t.mappings, m ∈ records s.mappings ∨ s.mappingGeneration < m.generation

theorem Fresh.refl (s : MaxwellGpuAddressSpace) : Fresh s s := ⟨le_rfl, fun _ hm ↦ .inl hm⟩

namespace MaxwellGpuAddressSpace.Valid

variable (hs : s.Valid)
include hs

variable {r : MaxwellVaReservation}

theorem reservation_lt (hr : r ∈ records s.reservations) : r.stop < wordBound := by
  obtain ⟨regions, hregions, hwithin⟩ := hs.within r hr
  exact (hs.regions regions hregions).within_lt hwithin

theorem mapping_lt {m : MaxwellGpuMapping} (hm : m ∈ records s.mappings) : m.stop < wordBound :=
  (hs.table.sound m hm).stop_lt

/-! ## Searches -/

theorem overlapsMapping_eq (start stop : Nat) :
    s.overlapsMapping start stop =
      .ok (decide (∃ m ∈ records s.mappings, start < m.stop ∧ m.offset < stop)) :=
  overlapsAny_eq (fun _ hm ↦ MaxwellGpuMapping.checkedEnd_eq (hs.mapping_lt hm)) start stop

theorem overlapsReservation_eq (start stop : Nat) :
    s.overlapsReservation start stop =
      .ok (decide (∃ r ∈ records s.reservations, start < r.stop ∧ r.offset < stop)) :=
  overlapsAny_eq (fun _ hr ↦ MaxwellVaReservation.checkedEnd_eq (hs.reservation_lt hr)) start stop

theorem vacant_of_overlapsOccupied (h : s.overlapsOccupied start stop = .ok false) :
    Vacant s start stop := by
  rw [overlapsOccupied, hs.overlapsReservation_eq, hs.overlapsMapping_eq, ok_bind] at h
  by_cases hr : ∃ r ∈ records s.reservations, start < r.stop ∧ r.offset < stop
  · simp [hr] at h
  · simp only [hr, decide_false, Bool.false_eq_true, if_false, Except.ok.injEq,
      decide_eq_false_iff_not] at h
    push Not at hr h
    constructor
    · intro r hrm
      by_cases hlt : start < r.stop
      · exact .inl (hr r hrm hlt)
      · exact .inr (Nat.not_lt.mp hlt)
    · intro m hm
      by_cases hlt : start < m.stop
      · exact .inl (h m hm hlt)
      · exact .inr (Nat.not_lt.mp hlt)

theorem contained_of_reservationContaining (h : s.reservationContaining start stop = .ok (some r)) :
    r ∈ records s.reservations ∧ r.offset ≤ start ∧ stop ≤ r.stop := by
  have hfind := Except.ok.inj
    ((firstContaining_eq (fun _ hr ↦ hs.reservation_lt hr) start stop).symm.trans h)
  exact ⟨mem_of_find?_eq_some hfind, by simpa using List.find?_some hfind⟩

theorem occupiedRanges_eq : s.occupiedRanges = .ok s.occupied := by
  rw [occupiedRanges,
    rangesOf_eq fun _ hr ↦ MaxwellVaReservation.checkedEnd_eq (hs.reservation_lt hr), ok_bind,
    rangesOf_eq fun _ hm ↦ MaxwellGpuMapping.checkedEnd_eq (hs.mapping_lt hm), ok_bind, occupied]

variable {region : MaxwellVaRegion} {size alignment : Nat}

theorem findFirstFit_lowest (hregion : region.stop < wordBound)
    (hpow : isPowerOfTwo alignment = true) :
    Lowest (Fits s.occupied region.offset region.stop size alignment) alignment
      (∀ bound, region.stop ≤ bound → (∀ range ∈ s.occupied, range.2 ≤ bound) →
        wordBound < bound + alignment + size)
      (s.findFirstFit region size alignment) := by
  have hpos := pos_of_isPowerOfTwo hpow
  have hoffset : region.offset ≤ region.stop := Nat.le_add_right ..
  rw [findFirstFit, MaxwellVaRegion.checkedEnd_eq hregion, ok_bind]
  cases halign : alignUp region.offset alignment with
  | error e =>
    obtain ⟨rfl, hlarge⟩ := alignUp_eq_error halign
    refine ⟨rfl, fun halignment offset ⟨hle, hstop, hdvd, _⟩ ↦ ?_, fun bound hbound _ ↦ by omega⟩
    have := add_le_wordBound hpow halignment hdvd (by omega)
    omega
  | ok candidate =>
    obtain ⟨hdvd, hlt⟩ := alignUp_eq_ok hpow halign
    rw [ok_bind, Fits.eq_of_le (le_of_alignUp halign) fun offset h ↦
      Nat.le_of_lt_add_of_dvd (by have := h.le; omega) hdvd h.dvd]
    exact (firstFit_lowest hs.occupiedRanges_eq hpow hregion hdvd).imp
      fun hlarge bound hbound ↦ hlarge bound (by omega)

theorem findFirstFit_spec {found : Nat} (hregion : region.stop < wordBound)
    (hpow : isPowerOfTwo alignment = true)
    (h : s.findFirstFit region size alignment = .ok (some found)) :
    region.offset ≤ found ∧ found + size ≤ region.stop ∧ alignment ∣ found ∧
      Vacant s found (found + size) := by
  have hlowest : Lowest _ _ _ (s.findFirstFit region size alignment) :=
    hs.findFirstFit_lowest hregion hpow
  rw [h] at hlowest
  obtain ⟨⟨h₁, h₂, h₃, h₄⟩, -⟩ := hlowest
  refine ⟨h₁, h₂, h₃, fun r hr ↦ ?_, fun m hm ↦ ?_⟩
  · have := h₄ (r.offset, r.stop) (mem_append_left _ (mem_map.mpr ⟨r, hr, rfl⟩))
    omega
  · have := h₄ (m.offset, m.stop) (mem_append_right _ (mem_map.mpr ⟨m, hm, rfl⟩))
    omega

end MaxwellGpuAddressSpace.Valid

theorem requireRegions_spec :
    wp requireRegions ⟨fun regions t ↦ t = s ∧ s.regions = some regions, fun _ t ↦ t = s, False⟩
      s := by
  simp [requireRegions]

variable {region : MaxwellVaRegion} {P : MaxwellGpuMapping → Prop}

theorem mem_of_regionWith {pageSize : Nat} (h : regionWith regions pageSize = some region) :
    region.pageSize = pageSize ∧ (region = regions.1 ∨ region = regions.2) := by
  have hmem := mem_of_find?_eq_some h
  have heq := List.find?_some h
  exact ⟨by simpa using heq, by simpa using hmem⟩

/-! ## Initialization -/

theorem regionsValid_of_geometry {profile : MaxwellGpuProfile}
    {start split stop bigPageSize : Nat} (hpow : isPowerOfTwo bigPageSize = true)
    (havailable : profile.availableBigPageSizes &&& bigPageSize ≠ 0) (hword : stop < wordBound)
    (h : validateGeometry profile start split stop profile.smallPageSize bigPageSize = .ok ()) :
    RegionsValid profile (⟨start, profile.smallPageSize, (split - start) / profile.smallPageSize⟩,
      ⟨split, bigPageSize, (stop - split) / bigPageSize⟩) := by
  rw [validateGeometry] at h
  split at h
  · exact nomatch h
  rename_i hshape
  push Not at hshape
  obtain ⟨hlt₁, hlt₂, h₁, h₂, h₃, h₄⟩ := hshape
  have hstop : stop ≤ 2 ^ profile.addressBits := by
    split at h
    · exact nomatch h
    rename_i hlimit
    by_cases hbits : profile.addressBits < 64
    · exact Nat.not_lt.mp fun hlt ↦ hlimit ⟨hbits, hlt⟩
    · have hle := profile.addressBits_le
      rw [show profile.addressBits = 64 by omega]
      exact hword.le
  have hsmall : (⟨start, profile.smallPageSize, (split - start) / profile.smallPageSize⟩ :
      MaxwellVaRegion).stop = split := by
    rw [MaxwellVaRegion.stop, Nat.div_mul_cancel (Nat.dvd_sub h₂ h₁)]
    exact Nat.add_sub_of_le hlt₁.le
  have hbig : (⟨split, bigPageSize, (stop - split) / bigPageSize⟩ : MaxwellVaRegion).stop =
      stop := by
    rw [MaxwellVaRegion.stop, Nat.div_mul_cancel (Nat.dvd_sub h₄ h₃)]
    exact Nat.add_sub_of_le hlt₂.le
  refine ⟨rfl, hpow, profile.smallPageSize_dvd _ hpow havailable, ?_, ?_⟩
  all_goals rw [hsmall, hbig]; constructor <;> omega

theorem geometry_lt (request : MaxwellAddressSpaceInitialization) (bigPageSize : Nat) :
    (request.geometry bigPageSize).2.2 < wordBound := by
  rw [MaxwellAddressSpaceInitialization.geometry]
  split
  · exact request.vaRangeEnd.toNat_lt
  · exact Nat.pow_lt_pow_right (by decide) (by decide)

theorem address_eq_ok {value offset : Nat}
    (h : (s.address value).mapError MaxwellAddressSpaceError.address = .ok offset) :
    offset = value := by
  rw [MaxwellGpuAddressSpace.address, GpuVirtualAddress.tryNew] at h
  split at h
  · cases h
  · split at h
    · cases h
    · exact (Except.ok.inj h).symm

/-- `initialize` sets the regions, once. -/
theorem initializeSpace_spec (request : MaxwellAddressSpaceInitialization) :
    wp (initializeSpace request)
      ⟨fun _ t ↦ s.regions = none ∧
          ∃ regions, RegionsValid s.profile regions ∧ t = { s with regions := some regions },
        fun _ t ↦ t = s, False⟩ s := by
  simp only [initializeSpace, wp_rules, implies_true, and_true, true_and]
  intro hnone hbig _ hgeometry smallOffset hsmall bigOffset hbigOffset
  obtain rfl := address_eq_ok hsmall
  obtain rfl := address_eq_ok hbigOffset
  push Not at hbig
  refine ⟨Option.not_isSome_iff_eq_none.mp hnone, _, ?_, rfl⟩
  exact regionsValid_of_geometry (by simpa using hbig.1) hbig.2
    (geometry_lt request _) hgeometry

/-- An address space that was not initialized has no records. -/
theorem MaxwellGpuAddressSpace.Valid.records_eq_nil (hs : s.Valid) (h : s.regions = none) :
    records s.reservations = [] ∧ records s.mappings = [] := by
  constructor <;> refine eq_nil_iff_forall_not_mem.mpr fun x hx ↦ ?_
  · obtain ⟨regions, hregions, -⟩ := hs.within x hx
    rw [h] at hregions
    exact nomatch hregions
  · obtain ⟨regions, hregions, -⟩ := hs.table.placed x hx
    rw [h] at hregions
    exact nomatch hregions

theorem MaxwellGpuAddressSpace.Valid.setRegions (hs : s.Valid) (h : s.regions = none)
    (hregions : RegionsValid s.profile regions) :
    ({ s with regions := some regions } : MaxwellGpuAddressSpace).Valid := by
  obtain ⟨hreservations, hmappings⟩ := hs.records_eq_nil h
  refine ⟨?_, hs.reservations, ?_, hs.table.ordered, hs.table.sound, ?_, hs.table.separate,
    hs.table.id_lt, hs.table.generation_le, hs.table.pageSize_eq⟩
  · rintro regions' h
    cases h
    exact hregions
  · intro r hr
    rw [hreservations] at hr
    exact nomatch hr
  · intro m hm
    rw [hmappings] at hm
    exact nomatch hm

/-! ## Reservations -/

theorem reserveOffset_spec (hs : s.Valid) (hregion : region.stop < wordBound)
    (size pageSize alignOrOffset : Nat) (fixed : Bool) :
    wp (reserveOffset region size pageSize alignOrOffset fixed)
      ⟨fun offset t ↦ t = s ∧ region.offset ≤ offset ∧ offset + size ≤ region.stop ∧
          Vacant s offset (offset + size),
        fun _ t ↦ t = s, False⟩ s := by
  cases fixed with
  | true =>
    simp only [reserveOffset, wp_rules, if_true, implies_true, and_true, true_and]
    intro _ stop hstop inside hinside htrue overlaps hoverlaps hfalse
    obtain ⟨-, rfl⟩ := checkedAdd_eq_some_iff.mp hstop
    rw [Bool.not_eq_true] at hfalse
    rw [Bool.not_eq_false] at htrue
    subst hfalse htrue
    rw [MaxwellVaRegion.contains_eq hregion] at hinside
    obtain ⟨h₁, h₂⟩ := of_decide_eq_true (Except.ok.inj hinside)
    exact ⟨h₁, h₂, hs.vacant_of_overlapsOccupied hoverlaps⟩
  | false =>
    simp only [reserveOffset, wp_rules, Bool.false_eq_true, if_false, implies_true, and_true,
      true_and]
    intro halign found hfound offset hoffset
    subst hoffset
    rw [not_or, Bool.not_eq_false] at halign
    obtain ⟨h₁, h₂, -, h₃⟩ := hs.findFirstFit_spec hregion halign.1 hfound
    exact ⟨h₁, h₂, h₃⟩

/-- A new reservation is in a vacant range of a region. -/
theorem reserve_spec (hs : s.Valid) (pages pageSize : Nat) (flags : UInt32) (alignOrOffset : Nat) :
    wp (reserve pages pageSize flags alignOrOffset)
      ⟨fun r t ↦ (∃ regions, s.regions = some regions ∧ Within regions r.offset r.stop) ∧
          r.offset < r.stop ∧ Vacant s r.offset r.stop ∧
          t = { s with reservations := s.reservations.insert r.offset r },
        fun _ t ↦ t = s, False⟩ s := by
  rw [reserve, wp_bind]
  refine wp_of_ok requireRegions_spec ?_
  rintro regions _ ⟨rfl, hregions⟩
  rename_i s
  have hvalid := hs.regions regions hregions
  simp only [wp_rules, implies_true, and_true, true_and]
  intro hpages _ region hregion _ size hsize
  obtain ⟨-, rfl⟩ := checkedMul_eq_some_iff.mp hsize
  obtain ⟨rfl, hmem⟩ := mem_of_regionWith hregion
  have hstop : region.stop < wordBound := by
    rcases hmem with rfl | rfl
    exacts [hvalid.stop_lt.1, hvalid.stop_lt.2]
  refine wp_of_ok (reserveOffset_spec hs hstop _ _ _ _) ?_
  rintro found _ ⟨rfl, h₁, h₂, hvacant⟩
  simp only [implies_true, and_true]
  intro offset hoffset
  obtain rfl := address_eq_ok hoffset
  have hsize : 0 < pages * region.pageSize := by
    refine Nat.mul_pos (Nat.pos_of_ne_zero hpages) ?_
    rcases hmem with rfl | rfl
    exacts [pos_of_isPowerOfTwo hvalid.small_isPowerOfTwo, pos_of_isPowerOfTwo hvalid.big]
  refine ⟨⟨regions, hregions, ?_⟩, Nat.lt_add_of_pos_right hsize, hvacant⟩
  rcases hmem with rfl | rfl
  exacts [.inl ⟨h₁, h₂⟩, .inr ⟨h₁, h₂⟩]

variable {r : MaxwellVaReservation} {generation : Nat} {mappings : MappingTable}

theorem MaxwellGpuAddressSpace.Valid.insertReservation (hs : s.Valid)
    (hwithin : ∃ regions, s.regions = some regions ∧ Within regions r.offset r.stop)
    (hpos : r.offset < r.stop) (hvacant : Vacant s r.offset r.stop) :
    ({ s with reservations := s.reservations.insert r.offset r } :
      MaxwellGpuAddressSpace).Valid := by
  have hmem : ∀ x, x ∈ records (s.reservations.insert r.offset r) ↔
      x = r ∨ x ∈ records s.reservations := fun x ↦
    hs.reservations.mem_records_insert_iff hpos hvacant.reservations
  refine ⟨hs.regions, hs.reservations.insert hpos hvacant.reservations, ?_, hs.table.ordered,
    hs.table.sound, hs.table.placed, ?_, hs.table.id_lt, hs.table.generation_le,
    hs.table.pageSize_eq⟩
  · intro x hx
    rcases (hmem x).mp hx with rfl | hx
    · exact hwithin
    · exact hs.within x hx
  · intro m hm
    rcases hs.table.separate m hm with ⟨x, hx, hle⟩ | h
    · exact .inl ⟨x, (hmem x).mpr (.inr hx), hle⟩
    · refine .inr fun x hx ↦ ?_
      rcases (hmem x).mp hx with rfl | hx
      · exact hvacant.mappings m hm
      · exact h x hx

theorem advanceMappingGeneration_spec :
    wp advanceMappingGeneration
      ⟨fun _ t ↦ t = { s with mappingGeneration := s.mappingGeneration + 1 }, fun _ t ↦ t = s,
        False⟩ s := by
  simp only [advanceMappingGeneration, wp_rules, MaxwellGpuAddressSpace.nextMappingGeneration,
    orError_eq_ok_iff, checkedAdd_eq_some_iff, id_eq]
  exact ⟨fun _ h ↦ by rw [h.2], fun _ _ ↦ trivial⟩

/-- What remains of the mappings when a reservation is freed, or a mapping removed. -/
structure Removed (s t : MaxwellGpuAddressSpace) (P : MaxwellGpuMapping → Prop) : Prop where
  generation_le : s.mappingGeneration ≤ t.mappingGeneration
  ordered : t.mappings.Ordered
  mem_iff : ∀ m, m ∈ records t.mappings ↔ m ∈ records s.mappings ∧ ¬P m

theorem Removed.fresh (h : Removed s t P) : Fresh s t :=
  ⟨h.generation_le, fun m hm ↦ .inl ((h.mem_iff m).mp hm).1⟩

/-- The part of a call that removes the mappings with a property. -/
theorem removed_foldl_erase (hs : s.Valid) {p : MaxwellGpuMapping → Bool}
    (hP : ∀ m ∈ records s.mappings, (p m = true ↔ P m))
    (hgeneration : s.mappingGeneration ≤ generation)
    (reservations : ExtTreeMap Nat MaxwellVaReservation) :
    Removed s { s with
      mappings := (keysWhere s.mappings p).foldl ExtTreeMap.erase s.mappings
      mappingGeneration := generation
      reservations := reservations } P := by
  obtain ⟨hordered, hmem⟩ := hs.table.ordered.mem_records_foldl_erase_iff (keysWhere s.mappings p)
  refine ⟨hgeneration, hordered, fun m ↦ (hmem m).trans (and_congr_right fun hm ↦ not_congr ?_)⟩
  rw [hs.table.ordered.lo_mem_keysWhere_iff hm, hP m hm]

/-- The mappings inside the reservation are freed with it. -/
theorem free_spec (hs : s.Valid) (offset pages pageSize : Nat) :
    wp (free offset pages pageSize)
      ⟨fun r t ↦ r ∈ records s.reservations ∧
          (∃ mappings generation, t = { s with
            mappings := mappings
            mappingGeneration := generation
            reservations := s.reservations.erase r.offset }) ∧
          Removed s t fun m ↦ r.offset ≤ m.offset ∧ m.stop ≤ r.stop,
        fun _ t ↦ t = s, False⟩ s := by
  rw [free, wp_bind]
  refine wp_of_ok requireRegions_spec ?_
  rintro regions _ ⟨rfl, hregions⟩
  rename_i s
  simp only [wp_rules, id_eq, implies_true, and_true, true_and]
  intro r hr _ last hlast
  have hmem := mem_records hr
  have hkey := hs.reservations.keyed _ r hr
  rw [MaxwellVaReservation.checkedEnd_eq (hs.reservation_lt hmem)] at hlast
  obtain rfl := Except.ok.inj hlast
  subst hkey
  have hP : ∀ m ∈ records s.mappings,
      (m.inside r.offset r.stop = true ↔ r.offset ≤ m.offset ∧ m.stop ≤ r.stop) := fun m hm ↦ by
    simp [MaxwellGpuMapping.inside, MaxwellGpuMapping.checkedEnd_eq (hs.mapping_lt hm)]
  rw [wp_ite]
  constructor
  · intro _
    rw [wp_bind]
    refine wp_of_ok advanceMappingGeneration_spec ?_
    rintro _ _ rfl
    exact ⟨hmem, ⟨_, _, rfl⟩, removed_foldl_erase hs hP (Nat.le_succ _) _⟩
  · intro hnone
    rw [not_not] at hnone
    refine ⟨hmem, ⟨_, _, rfl⟩, ?_⟩
    have := removed_foldl_erase hs hP le_rfl (s.reservations.erase r.offset)
    rwa [hnone] at this

theorem MaxwellGpuAddressSpace.Valid.freed (hs : s.Valid) (hr : r ∈ records s.reservations)
    (ht : t = { s with
      mappings := mappings
      mappingGeneration := generation
      reservations := s.reservations.erase r.offset })
    (h : Removed s t fun m ↦ r.offset ≤ m.offset ∧ m.stop ≤ r.stop) : t.Valid := by
  subst ht
  obtain ⟨hgeneration, hordered, hiff⟩ := h
  have hmem := fun x ↦ hs.reservations.mem_records_erase_iff (x := x) (k := r.offset)
  have htable := (hs.table.mono le_rfl hgeneration).of_subset hordered fun m hm ↦ ((hiff m).mp hm).1
  refine ⟨hs.regions, hs.reservations.erase _, fun x hx ↦ hs.within x ((hmem x).mp hx).1,
    htable.ordered, htable.sound, htable.placed, ?_, htable.id_lt, htable.generation_le,
    htable.pageSize_eq⟩
  intro m hm
  rcases hs.table.separate m ((hiff m).mp hm).1 with ⟨x, hx, hle⟩ | hapart
  · -- The reservation that the mapping is in is not the one that is freed.
    refine .inl ⟨x, (hmem x).mpr ⟨hx, fun hoffset ↦ ?_⟩, hle⟩
    obtain rfl := hs.reservations.eq_of_lo_eq hx hr hoffset
    exact ((hiff m).mp hm).2 hle
  · exact .inr fun x hx ↦ hapart x ((hmem x).mp hx).1

/-! ## Mappings -/

theorem window_of_validateBacking {backing : CheckedRange} {offset size : Nat}
    {permissions : MemoryPermissions}
    (h : validateBacking backing offset size permissions = .ok ()) :
    0 < size ∧ offset + size ≤ backing.size := by
  rw [validateBacking] at h
  split at h
  · exact nomatch h
  rename_i hsize
  obtain ⟨last, hlast, h⟩ := bind_eq_ok_iff.mp h
  obtain ⟨-, rfl⟩ := checkedAdd_eq_some_iff.mp (orError_eq_ok_iff.mp hlast)
  split at h
  · exact nomatch h
  · exact ⟨Nat.pos_of_ne_zero hsize, Nat.not_lt.mp ‹_›⟩

/-- A place for a mapping: in a region, apart from the mappings, and in one reservation or none. -/
structure Place (s : MaxwellGpuAddressSpace) (regions : MaxwellVaRegion × MaxwellVaRegion)
    (start stop : Nat) : Prop where
  within : Within regions start stop
  apart : ∀ m ∈ records s.mappings, stop ≤ m.offset ∨ m.stop ≤ start
  separate : (∃ r ∈ records s.reservations, r.offset ≤ start ∧ stop ≤ r.stop) ∨
    ∀ r ∈ records s.reservations, r.stop ≤ start ∨ stop ≤ r.offset

theorem mapOffset_spec (hs : s.Valid) (hregions : s.regions = some regions)
    (hregion : region = regions.1 ∨ region = regions.2) (size : Nat) (fixedOffset : Option Nat) :
    wp (mapOffset region size region.pageSize fixedOffset)
      ⟨fun offset t ↦ t = s ∧ region.pageSize ∣ offset ∧ Place s regions offset (offset + size),
        fun _ t ↦ t = s, False⟩ s := by
  have hvalid := hs.regions regions hregions
  cases fixedOffset with
  | some offset =>
    simp only [mapOffset, wp_rules, wp_assert, id_eq, decide_eq_true_eq, decide_eq_false_iff_not,
      implies_true, and_true, true_and]
    intro hdvd stop hstop containing hcontaining r hr overlaps hoverlaps hfalse
    obtain ⟨-, rfl⟩ := checkedAdd_eq_some_iff.mp hstop
    subst hr
    obtain ⟨hr, hle⟩ := hs.contained_of_reservationContaining hcontaining
    refine ⟨fun _ ↦ ⟨not_not.mp hdvd, ?_, ?_, .inl ⟨r, hr, hle⟩⟩, absurd hle.1⟩
    · obtain ⟨regions', hregions', hwithin⟩ := hs.within r hr
      cases hregions'.symm.trans hregions
      rcases hwithin with ⟨h₁, h₂⟩ | ⟨h₁, h₂⟩
      · exact .inl ⟨h₁.trans hle.1, hle.2.trans h₂⟩
      · exact .inr ⟨h₁.trans hle.1, hle.2.trans h₂⟩
    · rw [Bool.not_eq_true] at hfalse
      subst hfalse
      rw [hs.overlapsMapping_eq, Except.ok.injEq, decide_eq_false_iff_not] at hoverlaps
      push Not at hoverlaps
      intro m hm
      by_cases hlt : offset < m.stop
      · exact .inl (hoverlaps m hm hlt)
      · exact .inr (Nat.not_lt.mp hlt)
  | none =>
    simp only [mapOffset, wp_rules, id_eq, implies_true, and_true, true_and]
    intro found hfound offset hoffset address haddress
    subst hoffset
    obtain rfl := address_eq_ok haddress
    have hpow : isPowerOfTwo region.pageSize = true := by
      rcases hregion with rfl | rfl
      exacts [hvalid.small_isPowerOfTwo, hvalid.big]
    have hstop : region.stop < wordBound := by
      rcases hregion with rfl | rfl
      exacts [hvalid.stop_lt.1, hvalid.stop_lt.2]
    obtain ⟨h₁, h₂, hdvd, hvacant⟩ := hs.findFirstFit_spec hstop hpow hfound
    refine ⟨hdvd, ?_, hvacant.mappings, .inr fun r hr ↦ (hvacant.reservations r hr).symm⟩
    rcases hregion with rfl | rfl
    exacts [.inl ⟨h₁, h₂⟩, .inr ⟨h₁, h₂⟩]

/-- A new mapping has the next identity and generation, and a place of its own. -/
theorem map_spec (hs : s.Valid) (request : MaxwellMapRequest) :
    wp (map request)
      ⟨fun m t ↦ m.id = s.nextMappingId ∧ m.generation = s.mappingGeneration + 1 ∧
          m.offset < m.stop ∧ m.Sound s.profile.addressBits ∧
          (∃ regions, s.regions = some regions ∧ Placed regions m ∧
            Place s regions m.offset m.stop) ∧
          t = { s with
            mappings := s.mappings.insert m.offset m
            nextMappingId := s.nextMappingId + 1
            mappingGeneration := s.mappingGeneration + 1 },
        fun _ t ↦ t = s, False⟩ s := by
  rw [map, wp_bind]
  refine wp_of_ok requireRegions_spec ?_
  rintro regions _ ⟨rfl, hregions⟩
  rename_i s
  simp only [wp_rules, implies_true, and_true, true_and]
  intro _ hbacking _ _ _ region hregion halign
  obtain ⟨hpage, hmem⟩ := mem_of_regionWith hregion
  rw [← hpage] at halign ⊢
  refine wp_of_ok (mapOffset_spec hs hregions hmem _ _) ?_
  rintro offset _ ⟨rfl, hdvd, hplace⟩
  rename_i s
  simp only [id_eq, MaxwellGpuAddressSpace.nextMappingGeneration,
    MaxwellGpuAddressSpace.nextMappingIdentity, orError_eq_ok_iff, checkedAdd_eq_some_iff,
    Option.map_eq_some_iff, implies_true, and_true]
  intro generation hgeneration identity hidentity stop _ containing _
  obtain ⟨-, rfl⟩ := hgeneration
  obtain ⟨_, ⟨-, rfl⟩, rfl⟩ := hidentity
  rw [not_or, not_not, not_not] at halign
  obtain ⟨hpos, hwindow⟩ := window_of_validateBacking hbacking
  have hvalid := hs.regions regions hregions
  refine ⟨rfl, rfl, Nat.lt_add_of_pos_right hpos,
    ⟨hvalid.within_le hplace.within, hvalid.within_lt hplace.within, hwindow⟩,
    ⟨regions, hregions, ⟨hplace.within, ?_, hdvd, halign.2⟩, hplace⟩, rfl⟩
  rcases hmem with rfl | rfl
  exacts [.inl rfl, .inr rfl]

theorem MaxwellGpuAddressSpace.Valid.insertMapping (hs : s.Valid) {m : MaxwellGpuMapping}
    (hid : m.id = s.nextMappingId) (hgeneration : m.generation = s.mappingGeneration + 1)
    (hpos : m.offset < m.stop) (hsound : m.Sound s.profile.addressBits)
    (hregions : s.regions = some regions) (hplaced : Placed regions m)
    (hplace : Place s regions m.offset m.stop) (ht : t = { s with
      mappings := s.mappings.insert m.offset m
      nextMappingId := s.nextMappingId + 1
      mappingGeneration := s.mappingGeneration + 1 }) : t.Valid ∧ Fresh s t := by
  subst ht
  have htable := (hs.table.mono le_rfl (Nat.le_succ _)).insert m hid hgeneration.le hpos
    hplace.apart
    hsound ⟨regions, hregions, hplaced⟩ hplace.separate
  refine ⟨htable.valid hs, Nat.le_succ _, fun m' hm' ↦ ?_⟩
  rcases (hs.table.ordered.mem_records_insert_iff hpos hplace.apart).mp hm' with rfl | hm'
  · exact .inr (by omega)
  · exact .inl hm'

theorem unmap_spec (hs : s.Valid) (offset : Nat) :
    wp (unmap offset)
      ⟨fun _ t ↦ (∃ mappings generation,
          t = { s with mappings := mappings, mappingGeneration := generation }) ∧
          ∃ P : MaxwellGpuMapping → Prop, Removed s t P,
        fun _ t ↦ t = s, False⟩ s := by
  rw [unmap, wp_bind]
  refine wp_of_ok requireRegions_spec ?_
  rintro regions _ ⟨rfl, -⟩
  rename_i s
  simp only [wp_rules, id_eq]
  cases s.mappingIdAt offset with
  | none => exact ⟨⟨_, _, rfl⟩, fun _ ↦ False, le_rfl, hs.table.ordered, fun m ↦ by simp⟩
  | some mappingId =>
    simp only [wp_bind]
    refine wp_of_ok advanceMappingGeneration_spec ?_
    rintro _ _ rfl
    exact ⟨⟨_, _, rfl⟩, _, removed_foldl_erase hs (fun m _ ↦ Iff.rfl) (Nat.le_succ _) _⟩

theorem MaxwellGpuAddressSpace.Valid.removed (hs : s.Valid)
    (ht : t = { s with mappings := mappings, mappingGeneration := generation })
    (h : Removed s t P) : t.Valid := by
  subst ht
  exact ((hs.table.mono le_rfl h.generation_le).of_subset h.ordered
    fun m hm ↦ ((h.mem_iff m).mp hm).1).valid hs

end Nixe.Maxwell
