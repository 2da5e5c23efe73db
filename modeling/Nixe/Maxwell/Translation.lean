import Nixe.Maxwell.Steps

/-!
# The translation of GPU addresses

What an address space means to the GPU is a partial function from addresses to backing bytes, each
with its kind and cacheability (`MaxwellGpuAddressSpace.translate`). The records are only one way to
write it down: cutting a record changes the table and not the function. The two calls that cut
records change the function in the range that they are given and nowhere else.
-/

namespace Nixe.Maxwell

open Std Method Memory List MappingTable MaxwellGpuMapping

/-- A backing byte, its kind and its cacheability. -/
abbrev Translated : Type := (Nat × Nat) × Nat × Bool

/-- The byte of the record at the address. -/
def MaxwellGpuMapping.translate (mapping : MaxwellGpuMapping) (a : Nat) : Option Translated :=
  mapping.backing.cells[mapping.backingOffset + (a - mapping.offset)]?.map fun cell ↦
    (cell, mapping.kind, mapping.cacheable)

/-- The record has the address. -/
abbrev MaxwellGpuMapping.Has (mapping : MaxwellGpuMapping) (a : Nat) : Prop :=
  Occupies offset stop a mapping

def MappingTable.translate (t : MappingTable) (a : Nat) : Option Translated :=
  (recordAt offset stop t a).bind fun mapping ↦
    mapping.translate a

def MaxwellGpuAddressSpace.translate (s : MaxwellGpuAddressSpace) (a : Nat) : Option Translated :=
  s.mappings.translate a

variable {s : MaxwellGpuAddressSpace} {regions : MaxwellVaRegion × MaxwellVaRegion}
  {t u : MappingTable} {mapping piece : MaxwellGpuMapping}
  {a generation start stop kind nextId : Nat} {cacheable : Bool}

namespace MappingTable

theorem translate_of_mem (ht : t.Ordered) (hm : mapping ∈ records t) (ha : mapping.Has a) :
    t.translate a = mapping.translate a := by
  rw [translate, ht.recordAt_eq_some_iff.mpr ⟨hm, ha⟩, Option.bind_some]

theorem translate_eq_none (h : ∀ mapping ∈ records t, ¬mapping.Has a) : t.translate a = none := by
  rw [translate, ExtentTable.recordAt_eq_none_iff.mpr h, Option.bind_none]

/-- Two tables with records for the same addresses, which translate them in the same way. -/
theorem translate_congr (ht : t.Ordered) (hu : u.Ordered)
    (hto : ∀ m ∈ records t, m.Has a →
      ∃ m' ∈ records u, m'.Has a ∧ m'.translate a = m.translate a)
    (hfrom : ∀ m' ∈ records u, m'.Has a → ∃ m ∈ records t, m.Has a) :
    u.translate a = t.translate a := by
  by_cases h : ∃ m ∈ records t, m.Has a
  · obtain ⟨m, hm, ha⟩ := h
    obtain ⟨m', hm', ha', heq⟩ := hto m hm ha
    rw [translate_of_mem ht hm ha, translate_of_mem hu hm' ha', heq]
  · rw [translate_eq_none fun m hm ha ↦ h ⟨m, hm, ha⟩,
      translate_eq_none fun m' hm' ha' ↦ h (hfrom m' hm' ha')]

end MappingTable

/-! ## Parts translate as the record does -/

theorem IsPart.has (hpart : IsPart mapping piece) (ha : piece.Has a) : mapping.Has a :=
  ⟨hpart.offset_le.trans ha.1, ha.2.trans_le hpart.stop_le⟩

theorem IsPart.cell_eq (hpart : IsPart mapping piece) (ha : piece.Has a) :
    piece.backing.cells[piece.backingOffset + (a - piece.offset)]? =
      mapping.backing.cells[mapping.backingOffset + (a - mapping.offset)]? := by
  have h₁ := hpart.offset_le
  have h₂ := ha.1
  rw [hpart.backing, hpart.backingOffset, show
    mapping.backingOffset + (piece.offset - mapping.offset) + (a - piece.offset) =
      mapping.backingOffset + (a - mapping.offset) by omega]

theorem translate_of_mem_cutPieces (hmeets : mapping.Meets start stop)
    (h : piece ∈ cutPieces generation start stop mapping) (ha : piece.Has a) :
    piece.translate a = mapping.translate a := by
  rw [MaxwellGpuMapping.translate, (isPart_of_mem_cutPieces hmeets h).cell_eq ha,
    MaxwellGpuMapping.translate]
  rcases mem_cutPieces_iff.mp h with ⟨-, rfl⟩ | ⟨-, rfl⟩ <;> rfl

/-- An address of the record outside the range is in one of the pieces. -/
theorem exists_cutPieces_has (generation : Nat) (ha : mapping.Has a)
    (hout : ¬(start ≤ a ∧ a < stop)) :
    ∃ piece ∈ cutPieces generation start stop mapping, piece.Has a := by
  obtain ⟨h₁, h₂⟩ := ha
  by_cases hlt : a < start
  · refine ⟨_, mem_cutPieces_iff.mpr (.inl ⟨h₁.trans_lt hlt, rfl⟩), h₁, ?_⟩
    rwa [mapping.sub_stop generation (h₁.trans hlt.le)]
  · have hle : stop ≤ a := Nat.not_lt.mp fun h ↦ hout ⟨Nat.not_lt.mp hlt, h⟩
    refine ⟨_, mem_cutPieces_iff.mpr (.inr ⟨hle.trans_lt h₂, rfl⟩), hle, ?_⟩
    rwa [mapping.sub_stop generation (hle.trans h₂.le)]

/-- Where records are replaced by pieces of them, and the pieces outside the range are all there,
the addresses outside the range are translated as before. -/
theorem translate_of_pieces {P : MaxwellGpuMapping → Prop}
    {pieces : MaxwellGpuMapping → List MaxwellGpuMapping} (ht : t.Ordered) (hu : u.Ordered)
    (hiff : ∀ piece, piece ∈ records u ↔ piece ∈ records t ∧ ¬P piece ∨
      ∃ m ∈ records t, P m ∧ piece ∈ pieces m) (hmeets : ∀ m, P m → m.Meets start stop)
    (hcut : ∀ m, ∀ piece ∈ cutPieces generation start stop m, piece ∈ pieces m)
    (hpart : ∀ m ∈ records t, P m → ∀ piece ∈ pieces m, IsPart m piece)
    (hout : ¬(start ≤ a ∧ a < stop)) : u.translate a = t.translate a := by
  refine translate_congr ht hu ?_ ?_
  · intro m hm ha
    by_cases hP : P m
    · obtain ⟨piece, hpiece, hpa⟩ := exists_cutPieces_has generation ha hout
      exact ⟨piece, (hiff piece).mpr (.inr ⟨m, hm, hP, hcut m piece hpiece⟩), hpa,
        translate_of_mem_cutPieces (hmeets m hP) hpiece hpa⟩
    · exact ⟨m, (hiff m).mpr (.inl ⟨hm, hP⟩), ha, rfl⟩
  · intro m hm ha
    rcases (hiff m).mp hm with ⟨hm, -⟩ | ⟨m', hm', hP, hpiece⟩
    · exact ⟨m, hm, ha⟩
    · exact ⟨m', hm', (hpart m' hm' hP m hpiece).has ha⟩

/-! ## Replacing a range -/

section

variable (ht : TableValid s nextId generation t) (hlt : start < stop)
  (hregions : s.regions = some regions) (hvalid : RegionsValid s.profile regions)
  (hstart : regions.2.pageSize ∣ start) (hstop : regions.2.pageSize ∣ stop)
include ht hlt hregions hvalid hstart hstop

/-- Replacing a range unmaps it and leaves the other addresses alone. -/
theorem TableValid.replaceMappingRange :
    ∃ u, replaceMappingRange generation s.profile.addressBits t start stop = .ok u ∧
      TableValid s nextId generation u ∧
      (∀ m ∈ records u, m.stop ≤ start ∨ stop ≤ m.offset) ∧
      (∀ m ∈ records u, m ∈ records t ∨ m.generation = generation) ∧
      ∀ a, u.translate a = if start ≤ a ∧ a < stop then none else t.translate a := by
  obtain ⟨u, hu, hordered, hiff⟩ := replaceMappingRange_spec s.profile.addressBits_pos
    s.profile.addressBits_le ht.ordered ht.sound hlt generation
  -- Pages of the mappings that are cut divide the big pages of the range.
  have hdvd : ∀ m ∈ records t, m.pageSize ∣ start ∧ m.pageSize ∣ stop := by
    intro m hm
    obtain ⟨regions', hregions', hplaced⟩ := ht.placed m hm
    obtain rfl := Option.some.inj (hregions'.symm.trans hregions)
    have hbig : m.pageSize ∣ regions'.2.pageSize := by
      rcases hplaced.page with h | h <;> rw [h]
      exact hvalid.dvd
    exact ⟨hbig.trans hstart, hbig.trans hstop⟩
  have hparts : ∀ m ∈ records u, m ∈ records t ∨ m.generation = generation ∧
      ∃ m' ∈ records t, IsPart m' m ∧ m'.pageSize ∣ m.offset ∧ m'.pageSize ∣ m.size := by
    intro m hm
    rcases (hiff m).mp hm with ⟨hm, -⟩ | ⟨m', hm', hmeets, hpiece⟩
    · exact .inl hm
    · obtain ⟨regions', -, hplaced⟩ := ht.placed m' hm'
      refine .inr ⟨?_, m', hm', isPart_of_mem_cutPieces hmeets hpiece,
        aligned_of_mem_cutPieces (hdvd m' hm').1 (hdvd m' hm').2 hplaced.offset_dvd
          hplaced.size_dvd hpiece⟩
      rcases mem_cutPieces_iff.mp hpiece with ⟨-, rfl⟩ | ⟨-, rfl⟩ <;> rfl
  have hout : ∀ m ∈ records u, m.stop ≤ start ∨ stop ≤ m.offset := by
    intro m hm
    rcases (hiff m).mp hm with ⟨-, hnot⟩ | ⟨m', -, -, hpiece⟩
    · rw [MaxwellGpuMapping.Meets] at hnot
      omega
    · rcases mem_cutPieces_iff.mp hpiece with ⟨h, rfl⟩ | ⟨h, rfl⟩
      · exact .inl (m'.sub_stop generation h.le).le
      · exact .inr le_rfl
  refine ⟨u, hu, ht.of_parts hordered hparts, hout, fun m hm ↦ (hparts m hm).imp_right And.left,
    fun a ↦ ?_⟩
  split
  · rename_i hin
    refine translate_eq_none fun m hm ha ↦ ?_
    obtain ⟨h₁, h₂⟩ := ha
    rcases hout m hm with h | h <;> omega
  · exact translate_of_pieces ht.ordered hordered hiff (fun _ ↦ id) (fun _ _ ↦ id)
      (fun _ _ hmeets _ ↦ isPart_of_mem_cutPieces hmeets) ‹_›

end

/-! ## Sparse remapping -/

/-- The address is in the range of the request. -/
def MaxwellSparseRemapRequest.Has (request : MaxwellSparseRemapRequest) (a : Nat) : Prop :=
  request.offset ≤ a ∧ a < request.offset + request.size

instance (request : MaxwellSparseRemapRequest) (a : Nat) : Decidable (request.Has a) :=
  inferInstanceAs (Decidable (_ ∧ _))

/-- What a request asks for at an address of its range: a byte of the window of the backing range,
or nothing. -/
def MaxwellSparseRemapRequest.translate (request : MaxwellSparseRemapRequest) (a : Nat) :
    Option Translated :=
  request.mapping.bind fun source ↦
    source.backing.cells[source.backingOffset + (a - request.offset)]?.map fun cell ↦
      (cell, source.kind, source.cacheable)

/-- A request that was checked. -/
structure RemapValid (s : MaxwellGpuAddressSpace) (pageSize : Nat)
    (request : MaxwellSparseRemapRequest) : Prop where
  size_pos : 0 < request.size
  offset_dvd : pageSize ∣ request.offset
  size_dvd : pageSize ∣ request.size
  stop_lt : request.offset + request.size < wordBound
  reserved : ∃ r ∈ records s.reservations,
    r.offset ≤ request.offset ∧ request.offset + request.size ≤ r.stop
  window : ∀ source, request.mapping = some source →
    source.backingOffset + request.size ≤ source.backing.size

theorem remapValid_of_validate (hs : s.Valid) {pageSize last : Nat}
    {request : MaxwellSparseRemapRequest}
    (h : validateSparseRemapRequest s request pageSize = .ok last) :
    RemapValid s pageSize request ∧ last = request.offset + request.size := by
  rw [validateSparseRemapRequest] at h
  split at h
  · exact nomatch h
  rename_i hsize
  split at h
  · exact nomatch h
  rename_i halign
  rw [not_or, not_not, not_not] at halign
  simp only [bind_eq_ok_iff, orError_eq_ok_iff] at h
  obtain ⟨stop, hstop, containing, hcontaining, r, rfl, h⟩ := h
  obtain ⟨hword, rfl⟩ := checkedAdd_eq_some_iff.mp hstop
  obtain ⟨hr, hle⟩ := hs.contained_of_reservationContaining hcontaining
  split at h
  · exact nomatch h
  have hvalid : (∀ source, request.mapping = some source →
      source.backingOffset + request.size ≤ source.backing.size) →
      RemapValid s pageSize request := fun hwindow ↦
    ⟨Nat.pos_of_ne_zero hsize, halign.1, halign.2, hword, ⟨r, hr, hle⟩, hwindow⟩
  cases hmapping : request.mapping with
  | none =>
    rw [hmapping] at h hvalid
    exact ⟨hvalid nofun, (Except.ok.inj h).symm⟩
  | some source =>
    rw [hmapping] at h hvalid
    obtain ⟨-, -, h⟩ := bind_eq_ok_iff.mp h
    obtain ⟨_, hbacking, h⟩ := bind_eq_ok_iff.mp h
    split at h
    · refine ⟨hvalid fun source' h' ↦ ?_, (Except.ok.inj h).symm⟩
      cases h'
      exact (window_of_validateBacking hbacking).2
    · exact nomatch h

/-- The requests do not overlap. -/
def RequestsApart (x y : MaxwellSparseRemapRequest) : Prop :=
  x.offset + x.size ≤ y.offset ∨ y.offset + y.size ≤ x.offset

theorem remapValid_of_validateRequests (hs : s.Valid) {pageSize : Nat}
    {requests : List MaxwellSparseRemapRequest} {spans : List (Nat × Nat)}
    (h : validateRemapRequests s pageSize spans requests = .ok ()) :
    (∀ request ∈ requests, RemapValid s pageSize request ∧
      ∀ span ∈ spans, span.2 ≤ request.offset ∨ request.offset + request.size ≤ span.1) ∧
    requests.Pairwise RequestsApart := by
  induction requests generalizing spans with
  | nil => exact ⟨by simp, .nil⟩
  | cons request requests ih =>
    rw [validateRemapRequests] at h
    obtain ⟨last, hlast, h⟩ := bind_eq_ok_iff.mp h
    obtain ⟨hvalid, rfl⟩ := remapValid_of_validate hs hlast
    split at h
    · exact nomatch h
    rename_i hspans
    push Not at hspans
    obtain ⟨hrest, hpairwise⟩ := ih h
    refine ⟨forall_mem_cons.mpr ⟨⟨hvalid, fun span hspan ↦ ?_⟩, fun y hy ↦ ?_⟩, .cons ?_ hpairwise⟩
    · by_cases hlt : request.offset < span.2
      · exact .inr (hspans span hspan hlt)
      · exact .inl (Nat.not_lt.mp hlt)
    · obtain ⟨hy, hyspans⟩ := hrest y hy
      exact ⟨hy, fun span hspan ↦ hyspans span (mem_append_left _ hspan)⟩
    · intro y hy
      exact (hrest y hy).2 _ (mem_append_right _ mem_cons_self)

theorem MappingTable.translate_insert (ht : t.Ordered) (mapping : MaxwellGpuMapping)
    (hpos : mapping.offset < mapping.stop)
    (hapart : ∀ m ∈ records t, mapping.stop ≤ m.offset ∨ m.stop ≤ mapping.offset) (a : Nat) :
    translate (t.insert mapping.offset mapping) a =
      if mapping.Has a then mapping.translate a else t.translate a := by
  have hmem := fun m ↦ ht.mem_records_insert_iff (y := m) hpos hapart
  have hordered := ht.insert hpos hapart
  split
  · rename_i ha
    exact translate_of_mem hordered ((hmem mapping).mpr (.inl rfl)) ha
  · rename_i ha
    refine translate_congr ht hordered ?_ ?_
    · intro m hm hma
      exact ⟨m, (hmem m).mpr (.inr hm), hma, rfl⟩
    · intro m hm hma
      rcases (hmem m).mp hm with rfl | hm
      · exact absurd hma ha
      · exact ⟨m, hm, hma⟩

section

variable (hs : s.Valid) (hregions : s.regions = some regions)
include hs hregions

variable {request : MaxwellSparseRemapRequest}

theorem RemapValid.within (h : RemapValid s regions.2.pageSize request) :
    Within regions request.offset (request.offset + request.size) := by
  obtain ⟨r, hr, h₁, h₂⟩ := h.reserved
  obtain ⟨regions', hregions', hwithin⟩ := hs.within r hr
  cases hregions'.symm.trans hregions
  rcases hwithin with ⟨h₃, h₄⟩ | ⟨h₃, h₄⟩
  · exact .inl ⟨h₃.trans h₁, h₂.trans h₄⟩
  · exact .inr ⟨h₃.trans h₁, h₂.trans h₄⟩

/-- The mapping of a request fits into the range that was cleared for it. -/
theorem TableValid.install {source : MaxwellSparseMapping} (ht : TableValid s nextId generation t)
    (h : RemapValid s regions.2.pageSize request) (hsource : request.mapping = some source)
    (hout : ∀ m ∈ records t, m.stop ≤ request.offset ∨ request.offset + request.size ≤ m.offset) :
    TableValid s (nextId + 1) generation (t.insert request.offset
        (request.install source nextId regions.2.pageSize generation)) ∧
      ∀ a, translate (t.insert request.offset
          (request.install source nextId regions.2.pageSize generation)) a =
        if request.Has a then request.translate a else t.translate a := by
  have hvalid := hs.regions regions hregions
  have hwithin := h.within hs hregions
  have hpos : request.offset < request.offset + request.size := Nat.lt_add_of_pos_right h.size_pos
  have hapart := fun m hm ↦ (hout m hm).symm
  refine ⟨ht.insert (request.install source nextId regions.2.pageSize generation) rfl le_rfl hpos
    hapart ⟨hvalid.within_le hwithin, hvalid.within_lt hwithin, h.window source hsource⟩
    ⟨regions, hregions, hwithin, .inr rfl, h.offset_dvd, h.size_dvd⟩ (.inl h.reserved), fun a ↦ ?_⟩
  refine (translate_insert ht.ordered
    (request.install source nextId regions.2.pageSize generation) hpos hapart a).trans ?_
  rw [MaxwellSparseRemapRequest.translate, hsource]
  rfl

/-- What the requests make of a table. -/
structure Remaps (generation : Nat) (requests : List MaxwellSparseRemapRequest)
    (t u : MappingTable) : Prop where
  fresh : ∀ m ∈ records u, m ∈ records t ∨ m.generation = generation
  inside : ∀ request ∈ requests, ∀ a, request.Has a → u.translate a = request.translate a
  outside : ∀ a, (∀ request ∈ requests, ¬request.Has a) → u.translate a = t.translate a

omit hs hregions in
/-- The rest of the requests, in a table in which the first one was met. -/
theorem Remaps.cons {requests : List MaxwellSparseRemapRequest} {v : MappingTable}
    (h : Remaps generation requests v u) (hfresh : ∀ m ∈ records v, m ∈ records t ∨
      m.generation = generation) (happ : ∀ other ∈ requests, RequestsApart request other)
    (hv : ∀ a, v.translate a = if request.Has a then request.translate a else t.translate a) :
    Remaps generation (request :: requests) t u := by
  refine ⟨fun m hm ↦ (h.fresh m hm).elim (hfresh m) .inr,
    forall_mem_cons.mpr ⟨fun a ha ↦ ?_, h.inside⟩, fun a ha ↦ ?_⟩
  -- The requests are apart, so the later ones do not touch the first one's range.
  · rw [h.outside a, hv, if_pos ha]
    intro other hother ha'
    obtain ⟨h₁, h₂⟩ := ha
    obtain ⟨h₃, h₄⟩ := ha'
    rcases happ other hother with h | h <;> omega
  · obtain ⟨ha, harest⟩ := forall_mem_cons.mp ha
    rw [h.outside a harest, hv, if_neg ha]

/-- **Sparse remapping.** Every request gets the range that it names, and every other address is
left alone. -/
theorem remapEntries_spec {requests : List MaxwellSparseRemapRequest}
    (hrequests : ∀ request ∈ requests, RemapValid s regions.2.pageSize request)
    (hapart : requests.Pairwise RequestsApart) (ht : TableValid s nextId generation t)
    (hid : nextId + (requests.filter fun request ↦ request.mapping.isSome).length < wordBound) :
    ∃ u, remapEntries generation s.profile.addressBits regions.2.pageSize nextId t requests =
      .ok u ∧
      TableValid s (nextId + (requests.filter fun request ↦ request.mapping.isSome).length)
        generation u ∧ Remaps generation requests t u := by
  induction requests generalizing nextId t with
  | nil => exact ⟨t, rfl, ht, fun _ hm ↦ .inl hm, by simp, fun _ _ ↦ rfl⟩
  | cons request requests ih =>
    obtain ⟨hrequest, hrequests⟩ := forall_mem_cons.mp hrequests
    obtain ⟨happ, hapart⟩ := pairwise_cons.mp hapart
    have hstop : orError MaxwellAddressSpaceError.arithmeticOverflow
        (checkedAdd request.offset request.size) =
        .ok (request.offset + request.size) := by
      rw [orError_eq_ok_iff, checkedAdd_eq_some_iff]
      exact ⟨hrequest.stop_lt, rfl⟩
    obtain ⟨u, hu, hut, hout, hugen, hutr⟩ := ht.replaceMappingRange
      (Nat.lt_add_of_pos_right hrequest.size_pos) hregions (hs.regions regions hregions)
      hrequest.offset_dvd (dvd_add hrequest.offset_dvd hrequest.size_dvd)
    rw [remapEntries, hstop, ok_bind, hu, ok_bind]
    cases hmapping : request.mapping with
    | none =>
      rw [filter_cons_of_neg (by simp [hmapping])] at hid ⊢
      obtain ⟨w, hw, hwt, hremaps⟩ := ih hrequests hapart hut hid
      refine ⟨w, hw, hwt, hremaps.cons hugen happ fun a ↦ ?_⟩
      rw [hutr, MaxwellSparseRemapRequest.translate, hmapping]
      rfl
    | some source =>
      rw [filter_cons_of_pos (by simp [hmapping]), length_cons, Nat.add_comm (length _),
        ← Nat.add_assoc] at hid ⊢
      have hnext : orError MaxwellAddressSpaceError.mappingIdentityExhausted (checkedAdd nextId 1) =
          .ok (nextId + 1) := by
        rw [orError_eq_ok_iff, checkedAdd_eq_some_iff]
        exact ⟨by omega, rfl⟩
      obtain ⟨hv, hvtr⟩ := hut.install hs hregions hrequest hmapping hout
      dsimp only
      rw [hnext, ok_bind]
      obtain ⟨w, hw, hwt, hremaps⟩ := ih hrequests hapart hv hid
      refine ⟨w, hw, hwt, hremaps.cons (fun m hm ↦ ?_) happ fun a ↦ ?_⟩
      · rcases (hut.ordered.mem_records_insert_iff
          (x := request.install source nextId regions.2.pageSize generation)
          (Nat.lt_add_of_pos_right hrequest.size_pos) fun m hm ↦ (hout m hm).symm).mp hm with
          rfl | hm
        · exact .inr rfl
        · exact hugen m hm
      · rw [hvtr, hutr]
        by_cases ha : request.Has a
        · rw [if_pos ha, if_pos ha]
        · rw [if_neg ha, if_neg ha]
          exact if_neg ha

end

/-- What `remap_sparse` leaves behind. -/
structure Remapped (s t : MaxwellGpuAddressSpace) (requests : List MaxwellSparseRemapRequest) :
    Prop where
  valid : t.Valid
  fresh : Fresh s t
  window : ∀ request ∈ requests, ∀ source, request.mapping = some source →
    source.backingOffset + request.size ≤ source.backing.size
  inside : ∀ request ∈ requests, ∀ a, request.Has a → t.translate a = request.translate a
  outside : ∀ a, (∀ request ∈ requests, ¬request.Has a) → t.translate a = s.translate a

theorem remapSparse_spec (hs : s.Valid) (requests : List MaxwellSparseRemapRequest) :
    wp (remapSparse requests)
      ⟨fun _ t ↦ Remapped s t requests, fun _ t ↦ t = s, False⟩ s := by
  rw [remapSparse, wp_bind]
  refine wp_of_ok requireRegions_spec ?_
  rintro regions _ ⟨rfl, hregions⟩
  rename_i s
  simp only [wp_rules, id_eq, MaxwellGpuAddressSpace.nextMappingGeneration, orError_eq_ok_iff,
    checkedAdd_eq_some_iff, implies_true, and_true, true_and]
  intro _ _ hvalidate generation hgeneration nextId hnextId u hu
  obtain ⟨-, rfl⟩ := hgeneration
  obtain ⟨hlt, rfl⟩ := hnextId
  obtain ⟨hrequests, hapart⟩ := remapValid_of_validateRequests hs hvalidate
  obtain ⟨v, hv, htable, hremaps⟩ := remapEntries_spec hs hregions
    (fun request hrequest ↦ (hrequests request hrequest).1) hapart
    (hs.table.mono le_rfl (Nat.le_succ _)) hlt
  obtain rfl := Except.ok.inj (hv.symm.trans hu)
  exact ⟨htable.valid hs, ⟨Nat.le_succ _, fun m hm ↦ (hremaps.fresh m hm).imp_right Eq.ge⟩,
    fun request hrequest ↦ (hrequests request hrequest).1.window, hremaps.inside, hremaps.outside⟩

/-! ## Modifying a mapping -/

/-- A range that passes the check is covered by the records of the group. -/
theorem exists_has_of_coverage {group : List MaxwellGpuMapping} {covered : Nat}
    (hword : ∀ m ∈ group, m.stop < wordBound) (h : coverage stop covered group = .ok stop)
    (hcovered : covered ≤ a) (ha : a < stop) : ∃ m ∈ group, m.Has a := by
  induction group generalizing covered with
  | nil =>
    obtain rfl := Except.ok.inj h
    exact absurd ha (Nat.not_lt.mpr hcovered)
  | cons m group ih =>
    obtain ⟨hm, hgroup⟩ := forall_mem_cons.mp hword
    rw [coverage, checkedEnd_eq hm, ok_bind] at h
    have hrest : ∀ {covered : Nat}, coverage stop covered group = .ok stop → covered ≤ a →
        ∃ m' ∈ m :: group, m'.Has a := by
      intro covered h hcovered
      obtain ⟨m', hm', ha'⟩ := ih hgroup h hcovered
      exact ⟨m', mem_cons_of_mem _ hm', ha'⟩
    split at h
    · exact hrest h hcovered
    · split at h
      · exact nomatch h
      · rename_i hstart
        -- The record has the addresses from `covered` to its end.
        by_cases hin : a < m.stop
        · exact ⟨m, mem_cons_self, (Nat.not_lt.mp hstart).trans hcovered, hin⟩
        · split at h
          · omega
          · exact hrest h (by omega)

/-- What `modify_mapping` leaves behind. -/
structure Modified (s t : MaxwellGpuAddressSpace) (start stop kind : Nat) (cacheable : Bool) :
    Prop where
  valid : t.Valid
  fresh : Fresh s t
  inside : ∀ a, start ≤ a → a < stop → ∃ cell kind' cacheable',
    s.translate a = some (cell, kind', cacheable') ∧ t.translate a = some (cell, kind, cacheable)
  outside : ∀ a, ¬(start ≤ a ∧ a < stop) → t.translate a = s.translate a

/-- A valid record has a backing byte for each of its addresses. -/
theorem TableValid.exists_cell (ht : TableValid s nextId generation t) (hm : mapping ∈ records t)
    (ha : mapping.Has a) :
    ∃ cell, mapping.backing.cells[mapping.backingOffset + (a - mapping.offset)]? = some cell := by
  have hlt : mapping.backingOffset + (a - mapping.offset) < mapping.backing.cells.length := by
    have h₁ := (ht.sound mapping hm).window
    obtain ⟨h₂, h₃⟩ := ha
    rw [stop] at h₃
    rw [CheckedRange.length_cells]
    omega
  exact ⟨_, List.getElem?_eq_getElem hlt⟩

/-- The table after `modify_mapping` translates as the claim about it says. -/
theorem modifyRecords_translate {mappingId : Nat} (ht : TableValid s nextId generation t)
    (hu : u.Ordered) (hlt : start < stop)
    (hiff : ∀ piece, piece ∈ records u ↔
      piece ∈ records t ∧ ¬(piece.id = mappingId ∧ piece.Meets start stop) ∨
        ∃ mapping ∈ records t, (mapping.id = mappingId ∧ mapping.Meets start stop) ∧
          piece ∈ modifyPieces generation start stop kind cacheable mapping)
    (hcovered : ∀ a, start ≤ a → a < stop → ∃ m ∈ records t, m.id = mappingId ∧ m.Has a) :
    (∀ a, start ≤ a → a < stop → ∃ cell kind' cacheable',
      t.translate a = some (cell, kind', cacheable') ∧
        u.translate a = some (cell, kind, cacheable)) ∧
    ∀ a, ¬(start ≤ a ∧ a < stop) → u.translate a = t.translate a := by
  have hpart : ∀ m ∈ records t, m.Meets start stop →
      ∀ piece ∈ modifyPieces generation start stop kind cacheable m, IsPart m piece :=
    fun m hm hmeets piece hpiece ↦
      isPart_of_mem_modifyPieces hmeets hlt (ht.ordered.nonempty m hm) hpiece
  constructor
  · intro a hstart hstop
    obtain ⟨m, hm, hid, ha⟩ := hcovered a hstart hstop
    have hmeets : m.Meets start stop := ⟨hstart.trans_lt ha.2, ha.1.trans_lt hstop⟩
    have hchanged : m.changed generation start stop kind cacheable ∈
        modifyPieces generation start stop kind cacheable m := mem_modifyPieces_iff.mpr (.inr rfl)
    have hpiece := (hiff _).mpr (.inr ⟨m, hm, ⟨hid, hmeets⟩, hchanged⟩)
    have hpieceHas : (m.changed generation start stop kind cacheable).Has a := by
      refine ⟨max_le ha.1 hstart, ?_⟩
      rw [changed_stop hmeets hlt (ht.ordered.nonempty m hm)]
      exact lt_min ha.2 hstop
    obtain ⟨cell, hcell⟩ := ht.exists_cell hm ha
    refine ⟨cell, m.kind, m.cacheable, ?_, ?_⟩
    · rw [MappingTable.translate_of_mem ht.ordered hm ha, MaxwellGpuMapping.translate, hcell]
      rfl
    · rw [MappingTable.translate_of_mem hu hpiece hpieceHas, MaxwellGpuMapping.translate,
        (hpart m hm hmeets _ hchanged).cell_eq hpieceHas, hcell]
      rfl
  · exact fun a ↦ translate_of_pieces ht.ordered hu hiff (fun _ ↦ And.right)
      (fun _ _ hpiece ↦ mem_modifyPieces_iff.mpr (.inl hpiece)) fun m hm hP ↦ hpart m hm hP.2

theorem modifyMapping_spec (hs : s.Valid) (unmapOffset withinMapping size kind : Nat)
    (cacheable : Bool) :
    wp (modifyMapping unmapOffset withinMapping size kind cacheable)
      ⟨fun _ t ↦ Modified s t (unmapOffset + withinMapping)
        (unmapOffset + withinMapping + size) kind
          cacheable,
        fun _ t ↦ t = s, False⟩ s := by
  rw [modifyMapping, wp_bind]
  refine wp_of_ok requireRegions_spec ?_
  rintro regions _ ⟨rfl, hregions⟩
  rename_i s
  simp only [wp_rules, id_eq, MaxwellGpuAddressSpace.nextMappingGeneration, orError_eq_ok_iff,
    checkedAdd_eq_some_iff, implies_true, and_true, true_and]
  intro _ _ hsize mappingId _ start hstart stop hstop pageSize hpageSize halign covered hcovered
    hfull generation hgeneration u hu
  obtain ⟨-, rfl⟩ := hstart
  obtain ⟨-, rfl⟩ := hstop
  obtain ⟨-, rfl⟩ := hgeneration
  rw [ne_eq, not_not] at hfull
  subst hfull
  rw [not_or, not_not, not_not] at halign
  have htable := hs.table.mono (Nat.le_refl s.nextMappingId)
    (Nat.le_succ s.mappingGeneration)
  have hlt : unmapOffset + withinMapping < unmapOffset + withinMapping + size :=
    Nat.lt_add_of_pos_right (Nat.pos_of_ne_zero hsize)
  obtain ⟨v, hv, hordered, hiff⟩ := modifyRecords_spec s.profile.addressBits_pos
    s.profile.addressBits_le hs.table.ordered hs.table.sound hlt (s.mappingGeneration + 1) mappingId
    kind cacheable
  obtain rfl := Except.ok.inj (hv.symm.trans hu)
  -- All records of the mapping have pages of one size.
  obtain ⟨first, hfirst, rfl⟩ := Option.map_eq_some_iff.mp hpageSize
  obtain ⟨hfirst, hfirstId⟩ := mem_filter.mp (mem_of_mem_head? hfirst)
  have hpage : ∀ m ∈ records s.mappings, m.id = mappingId → m.pageSize = first.pageSize :=
    fun m hm hid ↦ hs.table.pageSize_eq m hm first hfirst (hid.trans (beq_iff_eq.mp hfirstId).symm)
  -- The check of the coverage: the records of the mapping fill the range without a gap.
  have hgroup : ∀ a, unmapOffset + withinMapping ≤ a → a < unmapOffset + withinMapping + size →
      ∃ m ∈ records s.mappings, m.id = mappingId ∧ m.Has a := by
    intro a h₁ h₂
    obtain ⟨m, hm, ha⟩ := exists_has_of_coverage
      (fun m hm ↦ hs.mapping_lt (mem_filter.mp hm).1) hcovered h₁ h₂
    obtain ⟨hm, hid⟩ := mem_filter.mp hm
    exact ⟨m, hm, beq_iff_eq.mp hid, ha⟩
  -- A record is an old one, or a piece of an old one with the new generation.
  have hparts : ∀ m ∈ records v, m ∈ records s.mappings ∨
      m.generation = s.mappingGeneration + 1 ∧ ∃ m' ∈ records s.mappings,
        IsPart m' m ∧ m'.pageSize ∣ m.offset ∧ m'.pageSize ∣ m.size := by
    intro m hm
    rcases (hiff m).mp hm with ⟨hm, -⟩ | ⟨m', hm', ⟨hid, hmeets⟩, hpiece⟩
    · exact .inl hm
    · obtain ⟨regions', -, hplaced⟩ := hs.table.placed m' hm'
      have hdvd := hpage m' hm' hid
      refine .inr ⟨?_, m', hm', isPart_of_mem_modifyPieces hmeets hlt
        (hs.table.ordered.nonempty m' hm') hpiece, aligned_of_mem_modifyPieces (hdvd ▸ halign.1)
          (hdvd ▸ dvd_add halign.1 halign.2) hplaced.offset_dvd hplaced.size_dvd hpiece⟩
      rcases mem_modifyPieces_iff.mp hpiece with hpiece | rfl
      · rcases mem_cutPieces_iff.mp hpiece with ⟨-, rfl⟩ | ⟨-, rfl⟩ <;> rfl
      · rfl
  have htable' := htable.of_parts hordered hparts
  obtain ⟨hinside, houtside⟩ := modifyRecords_translate htable hordered hlt hiff hgroup
  exact ⟨htable'.valid hs, ⟨Nat.le_succ _, fun m hm ↦ (hparts m hm).imp_right fun h ↦ h.1.ge⟩,
    hinside, houtside⟩

end Nixe.Maxwell
