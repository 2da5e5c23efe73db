import Nixe.Maxwell.Search

/-!
# Cutting mappings

The loops of `remap_sparse` and `modify_mapping` take out the mapping records that meet a range and
put back parts of them. A part (`MaxwellGpuMapping.sub`) is where the record was and has the bytes
that the record had there. The two loops are loops of splices, and the main results say what they
leave: `replaceMappingRange_spec` and `modifyRecords_spec`.
-/

namespace Nixe.Maxwell

open Std Memory MaxwellGpuMapping List

/-- The mapping tables that are in order. -/
abbrev MappingTable.Ordered (mappings : MappingTable) : Prop :=
  ExtentTable MaxwellGpuMapping.offset MaxwellGpuMapping.stop mappings

/-- The part of a mapping between two addresses. -/
def MaxwellGpuMapping.sub (mapping : MaxwellGpuMapping) (generation start stop : Nat) :
    MaxwellGpuMapping :=
  { mapping with
    offset := start
    size := stop - start
    backingOffset := mapping.backingOffset + (start - mapping.offset)
    generation := generation }

/-- The record and the range have an address in common. -/
def MaxwellGpuMapping.Meets (mapping : MaxwellGpuMapping) (start stop : Nat) : Prop :=
  start < mapping.stop ∧ mapping.offset < stop

/-- No arithmetic on the record overflows. -/
structure MaxwellGpuMapping.Sound (mapping : MaxwellGpuMapping) (addressBits : Nat) : Prop where
  stop_le : mapping.stop ≤ 2 ^ addressBits
  stop_lt : mapping.stop < wordBound
  window : mapping.backingOffset + mapping.size ≤ mapping.backing.size

/-- What `replace_mapping_range` leaves of a mapping. -/
def cutPieces (generation start stop : Nat) (mapping : MaxwellGpuMapping) :
    List MaxwellGpuMapping :=
  (if mapping.offset < start then [mapping.sub generation mapping.offset start] else []) ++
    if stop < mapping.stop then [mapping.sub generation stop mapping.stop] else []

/-- The part of a record in the range, with a new kind. -/
def MaxwellGpuMapping.changed (mapping : MaxwellGpuMapping) (generation start stop kind : Nat)
    (cacheable : Bool) : MaxwellGpuMapping :=
  { mapping.sub generation (max mapping.offset start) (min mapping.stop stop) with
    kind := kind
    cacheable := cacheable }

/-- What `modify_mapping` makes of a record of the mapping. -/
def modifyPieces (generation start stop kind : Nat) (cacheable : Bool)
    (mapping : MaxwellGpuMapping) : List MaxwellGpuMapping :=
  (if mapping.offset < start then [mapping.sub generation mapping.offset start] else []) ++
    mapping.changed generation start stop kind cacheable ::
    if stop < mapping.stop then [mapping.sub generation stop mapping.stop] else []

variable {generation addressBits start stop kind : Nat} {cacheable : Bool}
  {mapping piece : MaxwellGpuMapping} {mappings : MappingTable}

@[simp] theorem MaxwellGpuMapping.sub_offset :
    (mapping.sub generation start stop).offset = start := rfl

theorem MaxwellGpuMapping.sub_stop (mapping : MaxwellGpuMapping) (generation : Nat)
    (h : start ≤ stop) : (mapping.sub generation start stop).stop = stop := by
  change start + (stop - start) = stop
  omega

theorem MaxwellGpuMapping.before_eq :
    mapping.before generation stop = mapping.sub generation mapping.offset stop := by
  simp [before, sub]

theorem MaxwellGpuMapping.part_eq (h : mapping.Sound addressBits) (generation stop : Nat)
    (hpos : 0 < addressBits) (hle : addressBits ≤ 64) (hstart : mapping.offset ≤ start)
    (hlt : start < mapping.stop) :
    mapping.part generation addressBits start stop = .ok (mapping.sub generation start stop) := by
  have hword : start < wordBound := hlt.trans h.stop_lt
  have haddress : GpuVirtualAddress.tryNew start addressBits = .ok start :=
    (GpuVirtualAddress.tryNew_eq_ok_iff hpos hle hword).mpr ⟨hlt.trans_le h.stop_le, rfl⟩
  have hbacking : checkedAdd mapping.backingOffset (start - mapping.offset) =
      some (mapping.backingOffset + (start - mapping.offset)) := by
    refine checkedAdd_eq_some_iff.mpr ⟨?_, rfl⟩
    have h₁ := h.window
    have h₂ := mapping.backing.size_lt
    rw [MaxwellGpuMapping.stop] at hlt
    omega
  rw [part, haddress, hbacking]
  rfl

/-! ## What is put back -/

/-- The pieces are parts of the record: they have its identity and, where they are, its bytes. -/
structure IsPart (mapping piece : MaxwellGpuMapping) : Prop where
  offset_le : mapping.offset ≤ piece.offset
  nonempty : piece.offset < piece.stop
  stop_le : piece.stop ≤ mapping.stop
  backing : piece.backing = mapping.backing
  backingOffset : piece.backingOffset = mapping.backingOffset + (piece.offset - mapping.offset)
  id : piece.id = mapping.id
  pageSize : piece.pageSize = mapping.pageSize
  permissions : piece.permissions = mapping.permissions

theorem isPart_sub (hstart : mapping.offset ≤ start) (hlt : start < stop)
    (hstop : stop ≤ mapping.stop) : IsPart mapping (mapping.sub generation start stop) := by
  have hend := mapping.sub_stop generation hlt.le
  exact ⟨hstart, by rwa [hend], by rwa [hend], rfl, rfl, rfl, rfl, rfl⟩

theorem MaxwellGpuMapping.Sound.of_isPart (h : mapping.Sound addressBits)
    (hpart : IsPart mapping piece) : piece.Sound addressBits := by
  refine ⟨hpart.stop_le.trans h.stop_le, hpart.stop_le.trans_lt h.stop_lt, ?_⟩
  have h₁ := h.window
  have h₂ := hpart.offset_le
  have h₃ := hpart.stop_le
  have h₄ := hpart.nonempty
  rw [hpart.backing, hpart.backingOffset]
  simp only [stop] at h₃ h₄
  omega

theorem mem_cutPieces_iff :
    piece ∈ cutPieces generation start stop mapping ↔
      mapping.offset < start ∧ piece = mapping.sub generation mapping.offset start ∨
        stop < mapping.stop ∧ piece = mapping.sub generation stop mapping.stop := by
  simp only [cutPieces, mem_append, mem_ite_nil_right, mem_singleton]

theorem mem_modifyPieces_iff :
    piece ∈ modifyPieces generation start stop kind cacheable mapping ↔
      piece ∈ cutPieces generation start stop mapping ∨
        piece = mapping.changed generation start stop kind cacheable := by
  simp only [modifyPieces, cutPieces, mem_append, mem_cons, mem_ite_nil_right]
  tauto

section

variable (hmeets : mapping.Meets start stop)
include hmeets

theorem isPart_of_mem_cutPieces (h : piece ∈ cutPieces generation start stop mapping) :
    IsPart mapping piece := by
  rcases mem_cutPieces_iff.mp h with ⟨hlt, rfl⟩ | ⟨hlt, rfl⟩
  · exact isPart_sub le_rfl hlt hmeets.1.le
  · exact isPart_sub hmeets.2.le hlt le_rfl

section

variable (hlt : start < stop)

include hlt

theorem changed_stop (hpos : mapping.offset < mapping.stop) (generation kind : Nat)
    (cacheable : Bool) :
    (mapping.changed generation start stop kind cacheable).stop = min mapping.stop stop := by
  obtain ⟨h₁, h₂⟩ := hmeets
  exact mapping.sub_stop generation (show max mapping.offset start ≤ min mapping.stop stop by omega)

theorem isPart_changed (hpos : mapping.offset < mapping.stop) :
    IsPart mapping (mapping.changed generation start stop kind cacheable) := by
  obtain ⟨h₁, h₂⟩ := hmeets
  have hpart : IsPart mapping
      (mapping.sub generation (max mapping.offset start) (min mapping.stop stop)) :=
    isPart_sub (by omega) (by omega) (by omega)
  exact ⟨hpart.offset_le, hpart.nonempty, hpart.stop_le, rfl, rfl, rfl, rfl, rfl⟩

theorem isPart_of_mem_modifyPieces (hpos : mapping.offset < mapping.stop)
    (h : piece ∈ modifyPieces generation start stop kind cacheable mapping) :
    IsPart mapping piece := by
  rcases mem_modifyPieces_iff.mp h with h | rfl
  · exact isPart_of_mem_cutPieces hmeets h
  · exact isPart_changed hmeets hlt hpos

theorem pieces_cutPieces :
    Pieces MaxwellGpuMapping.offset MaxwellGpuMapping.stop mapping
      (cutPieces generation start stop mapping) where
  within piece h := by
    have hpart := isPart_of_mem_cutPieces hmeets h
    exact ⟨hpart.offset_le, hpart.nonempty, hpart.stop_le⟩
  apart := by
    rw [cutPieces]
    split <;> split <;> simp only [cons_append, nil_append, append_nil,
      pairwise_cons, not_mem_nil, false_implies, implies_true, List.Pairwise.nil,
      mem_singleton, forall_eq, and_true]
    rename_i hleft hright
    refine .inl ?_
    rw [mapping.sub_stop generation hleft.le]
    exact hlt.le

theorem pieces_modifyPieces (hpos : mapping.offset < mapping.stop) :
    Pieces MaxwellGpuMapping.offset MaxwellGpuMapping.stop mapping
      (modifyPieces generation start stop kind cacheable mapping) where
  within piece h := by
    have hpart := isPart_of_mem_modifyPieces hmeets hlt hpos h
    exact ⟨hpart.offset_le, hpart.nonempty, hpart.stop_le⟩
  apart := by
    have hchanged := changed_stop hmeets hlt hpos generation kind cacheable
    rw [modifyPieces, pairwise_append]
    refine ⟨by split <;> simp, ?_, ?_⟩
    · refine pairwise_cons.mpr ⟨fun right hright ↦ .inl ?_, by split <;> simp⟩
      rw [mem_ite_nil_right, mem_singleton] at hright
      rw [hchanged, hright.2]
      exact min_le_right _ _
    · intro left hleft right hright
      rw [mem_ite_nil_right, mem_singleton] at hleft
      obtain ⟨hleft, rfl⟩ := hleft
      refine .inl ?_
      rw [mapping.sub_stop generation hleft.le]
      rcases mem_cons.mp hright with rfl | hright
      · exact le_max_right mapping.offset start
      · rw [mem_ite_nil_right, mem_singleton] at hright
        rw [hright.2]
        exact hlt.le

end

/-! ## The loop bodies -/

theorem cutMapping_eq (hpos : 0 < addressBits) (hle : addressBits ≤ 64)
    (h : mapping.Sound addressBits) (hm : mappings[mapping.offset]? = some mapping) :
    cutMapping generation addressBits start stop mappings mapping.offset =
      .ok (splice MaxwellGpuMapping.offset mappings mapping
        (cutPieces generation start stop mapping)) := by
  have hget : orError MaxwellAddressSpaceError.arithmeticOverflow mappings[mapping.offset]? =
      .ok mapping :=
    orError_eq_ok_iff.mpr hm
  rw [cutMapping, hget, ok_bind, checkedEnd_eq h.stop_lt, ok_bind,
    before_eq, splice, cutPieces, insertAll, foldl_append]
  by_cases hright : stop < mapping.stop
  · rw [if_pos hright, if_pos hright, part_eq h _ _ hpos hle hmeets.2.le hright]
    by_cases hleft : mapping.offset < start <;> simp [hleft, ok_bind]
  · rw [if_neg hright, if_neg hright]
    by_cases hleft : mapping.offset < start <;> simp [hleft]

theorem modifyRecord_eq (hpos : 0 < addressBits) (hle : addressBits ≤ 64)
    (h : mapping.Sound addressBits) (hlt : mapping.offset < mapping.stop)
    (hm : mappings[mapping.offset]? = some mapping) :
    modifyRecord generation addressBits start stop kind cacheable mappings mapping.offset =
      .ok (splice MaxwellGpuMapping.offset mappings mapping
        (modifyPieces generation start stop kind cacheable mapping)) := by
  have hget : orError MaxwellAddressSpaceError.unknownMapping mappings[mapping.offset]? =
      .ok mapping :=
    orError_eq_ok_iff.mpr hm
  have hchanged := part_eq h generation (min mapping.stop stop) hpos hle
    (le_max_left mapping.offset start) (max_lt hlt hmeets.1)
  have hiff : mapping.offset < max mapping.offset start ↔ mapping.offset < start := by omega
  have hiff' : min mapping.stop stop < mapping.stop ↔ stop < mapping.stop := by omega
  rw [modifyRecord, hget, ok_bind, checkedEnd_eq h.stop_lt, ok_bind, splice,
    modifyPieces, insertAll, foldl_append]
  simp only [before_eq, hiff, hiff', hchanged, ok_bind, foldl_cons]
  by_cases hright : stop < mapping.stop
  · rw [if_pos hright, if_pos hright, min_eq_right hright.le,
      part_eq h _ _ hpos hle hmeets.2.le hright]
    by_cases hleft : mapping.offset < start
    · simp [hleft, hleft.le, hright.le, ok_bind, changed]
    · simp [hleft, hright.le, ok_bind, changed]
  · rw [if_neg hright, if_neg hright]
    by_cases hleft : mapping.offset < start
    · simp [hleft, hleft.le, changed]
    · simp [hleft, changed]

end

/-! ## The loops -/

section

variable (hpos : 0 < addressBits) (hle : addressBits ≤ 64) (ht : mappings.Ordered)
  (hsound : ∀ mapping ∈ records mappings, mapping.Sound addressBits) (hlt : start < stop)
include hpos hle ht hsound hlt

/-- **Replacing a range.** The mappings that meet the range are cut and the others stay. -/
theorem replaceMappingRange_spec (generation : Nat) :
    ∃ u, replaceMappingRange generation addressBits mappings start stop = .ok u ∧
      MappingTable.Ordered u ∧ ∀ piece, piece ∈ records u ↔
        piece ∈ records mappings ∧ ¬piece.Meets start stop ∨
          ∃ mapping ∈ records mappings, mapping.Meets start stop ∧
            piece ∈ cutPieces generation start stop mapping := by
  have hmeets : ∀ mapping ∈ records mappings,
      (mapping.meets start stop = true ↔ mapping.Meets start stop) := fun mapping hm ↦
    meets_iff (hsound mapping hm).stop_lt
  obtain ⟨u, hu, hut, hrec⟩ := ht.foldlM_splice (cutMapping generation addressBits start stop)
    (cutPieces generation start stop)
    (P := fun mapping ↦ mapping.Sound addressBits ∧ mapping.Meets start stop)
    (fun t mapping hm hP ↦ cutMapping_eq hP.2 hpos hle hP.1 hm)
    (fun mapping hP ↦ pieces_cutPieces hP.2 hlt) (nodup_keysWhere mappings _) (by
      intro k hk
      obtain ⟨mapping, hm, rfl, hp⟩ := ht.mem_keysWhere_iff.mp hk
      exact ⟨mapping, hm, rfl, hsound mapping hm, (hmeets mapping hm).mp hp⟩)
  refine ⟨u, hu, hut, fun piece ↦ (hrec piece).trans (or_congr ?_ ?_)⟩
  · refine and_congr_right fun hm ↦ not_congr ?_
    rw [ht.lo_mem_keysWhere_iff hm, hmeets piece hm]
  · refine exists_congr fun mapping ↦ and_congr_right fun hm ↦ and_congr_left fun _ ↦ ?_
    rw [ht.lo_mem_keysWhere_iff hm, hmeets mapping hm]

/-- **Modifying a range.** The records of the mapping that meet the range are modified. -/
theorem modifyRecords_spec (generation mappingId kind : Nat) (cacheable : Bool) :
    ∃ u, (keysWhere mappings fun mapping ↦
          mapping.id == mappingId && mapping.meets start stop).foldlM
        (modifyRecord generation addressBits start stop kind cacheable) mappings = .ok u ∧
      MappingTable.Ordered u ∧ ∀ piece, piece ∈ records u ↔
        piece ∈ records mappings ∧ ¬(piece.id = mappingId ∧ piece.Meets start stop) ∨
          ∃ mapping ∈ records mappings, (mapping.id = mappingId ∧ mapping.Meets start stop) ∧
            piece ∈ modifyPieces generation start stop kind cacheable mapping := by
  have hmeets : ∀ mapping ∈ records mappings,
      ((mapping.id == mappingId && mapping.meets start stop) = true ↔
        mapping.id = mappingId ∧ mapping.Meets start stop) := fun mapping hm ↦ by
    rw [Bool.and_eq_true, beq_iff_eq, meets_iff (hsound mapping hm).stop_lt]
    rfl
  obtain ⟨u, hu, hut, hrec⟩ := ht.foldlM_splice
    (modifyRecord generation addressBits start stop kind cacheable)
    (modifyPieces generation start stop kind cacheable)
    (P := fun mapping ↦ mapping.Sound addressBits ∧ mapping.offset < mapping.stop ∧
      mapping.Meets start stop)
    (fun t mapping hm hP ↦ modifyRecord_eq hP.2.2 hpos hle hP.1 hP.2.1 hm)
    (fun mapping hP ↦ pieces_modifyPieces hP.2.2 hlt hP.2.1) (nodup_keysWhere mappings _) (by
      intro k hk
      obtain ⟨mapping, hm, rfl, hp⟩ := ht.mem_keysWhere_iff.mp hk
      exact ⟨mapping, hm, rfl, hsound mapping hm, ht.nonempty mapping hm,
        ((hmeets mapping hm).mp hp).2⟩)
  refine ⟨u, hu, hut, fun piece ↦ (hrec piece).trans (or_congr ?_ ?_)⟩
  · refine and_congr_right fun hm ↦ not_congr ?_
    rw [ht.lo_mem_keysWhere_iff hm, hmeets piece hm]
  · refine exists_congr fun mapping ↦ and_congr_right fun hm ↦ and_congr_left fun _ ↦ ?_
    rw [ht.lo_mem_keysWhere_iff hm, hmeets mapping hm]

end

end Nixe.Maxwell
