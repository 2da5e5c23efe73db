import Nixe.Maxwell.Translation

/-!
# Runs of the GPU address space

The operations keep the invariant and do not panic, and a call that fails leaves the address space
as it was. So the invariant holds in every run, the calls that remap and modify change the
translation of their range only, and a mapping that still has its generation never left the table.
-/

namespace Nixe.Maxwell

open Std Method Machine Memory Option MaxwellGpuAddressSpace.Valid

variable {s t : MaxwellGpuAddressSpace}

/-- **One call.** -/
theorem AddressSpaceCall.run_spec (hs : s.Valid) (call : AddressSpaceCall) :
    wp call.run ⟨fun _ t ↦ t.Valid ∧ Fresh s t, fun _ t ↦ t = s, False⟩ s := by
  cases call <;> simp only [AddressSpaceCall.run, wp_rules]
  case initializeSpace request =>
    refine wp_of_ok (initializeSpace_spec request) ?_
    rintro _ _ ⟨hnone, regions, hregions, rfl⟩
    exact ⟨hs.setRegions hnone hregions, le_rfl, fun _ hm ↦ .inl hm⟩
  case reserve pages pageSize flags alignOrOffset =>
    refine wp_of_ok (reserve_spec hs pages pageSize flags alignOrOffset) ?_
    rintro r _ ⟨hwithin, hpos, hvacant, rfl⟩
    exact ⟨hs.insertReservation hwithin hpos hvacant, le_rfl, fun _ hm ↦ .inl hm⟩
  case free offset pages pageSize =>
    refine wp_of_ok (free_spec hs offset pages pageSize) ?_
    rintro r t ⟨hr, ⟨mappings, generation, ht⟩, hremoved⟩
    exact ⟨hs.freed hr ht hremoved, hremoved.fresh⟩
  case map request =>
    refine wp_of_ok (map_spec hs request) ?_
    rintro m t ⟨hid, hgeneration, hpos, hsound, ⟨regions, hregions, hplaced, hplace⟩, ht⟩
    exact hs.insertMapping hid hgeneration hpos hsound hregions hplaced hplace ht
  case unmap offset =>
    refine wp_of_ok (unmap_spec hs offset) ?_
    rintro _ t ⟨⟨mappings, generation, ht⟩, P, hremoved⟩
    exact ⟨hs.removed ht hremoved, hremoved.fresh⟩
  case remapSparse requests =>
    refine wp_of_ok (remapSparse_spec hs requests) ?_
    rintro _ t h
    exact ⟨h.valid, h.fresh⟩
  case modifyMapping unmapOffset withinMapping size kind cacheable =>
    refine wp_of_ok (modifyMapping_spec hs unmapOffset withinMapping size kind cacheable) ?_
    rintro _ t h
    exact ⟨h.valid, h.fresh⟩

theorem addressSpaceMachine_step (hs : s.Valid) {call : AddressSpaceCall}
    {r : Except MaxwellAddressSpaceError AddressSpaceReply}
    (h : addressSpaceMachine s call = some (r, t)) :
    t.Valid ∧ Fresh s t ∧ ∀ e, r = .error e → t = s := by
  have hspec := of_answer (AddressSpaceCall.run_spec hs call) h
  cases r with
  | ok reply => exact ⟨(hspec.1 reply rfl).1, (hspec.1 reply rfl).2, nofun⟩
  | error e =>
    obtain rfl := hspec.2 e rfl
    exact ⟨hs, .refl t, fun _ _ ↦ rfl⟩

theorem addressSpaceMachine_ne_none (hs : s.Valid) (call : AddressSpaceCall) :
    addressSpaceMachine s call ≠ none := by
  intro h
  obtain ⟨message, hpanic⟩ := Method.machine_eq_none_iff.mp h
  exact panic_of_wp (AddressSpaceCall.run_spec hs call) hpanic

variable {es : List (AddressSpaceCall × Except MaxwellAddressSpaceError AddressSpaceReply)}

theorem MaxwellGpuAddressSpace.Valid.of_run (hs : s.Valid) (h : Run addressSpaceMachine s es t) :
    t.Valid :=
  h.invariant (fun _ _ _ _ hs hstep ↦ (addressSpaceMachine_step hs hstep).1) hs

/-- A record that is older than the start of a run and is there at its end was there all along. -/
theorem mem_of_generation_le (hs : s.Valid) (h : Run addressSpaceMachine s es t) :
    s.mappingGeneration ≤ t.mappingGeneration ∧
      ∀ m ∈ records t.mappings, m.generation ≤ s.mappingGeneration → m ∈ records s.mappings := by
  induction h with
  | nil s => exact ⟨le_rfl, fun m hm _ ↦ hm⟩
  | cons hstep _ ih =>
    obtain ⟨hu, hfresh, -⟩ := addressSpaceMachine_step hs hstep
    obtain ⟨hle, hold⟩ := ih hu
    refine ⟨hfresh.generation_le.trans hle, fun m hm hgeneration ↦ ?_⟩
    rcases hfresh.fresh m (hold m hm (hgeneration.trans hfresh.generation_le)) with hm | hlt
    · exact hm
    · exact absurd hgeneration (Nat.not_le.mpr hlt)

/-! ## Bytes -/

/-- What a call and its answer make of the byte at an address. -/
def byteAfter (a : Nat) (byte : Option Translated) :
    AddressSpaceCall × Except MaxwellAddressSpaceError AddressSpaceReply → Option Translated
  | (_, .error _) => byte
  | (.map _, .ok (.mapping m)) => if m.Has a then m.translate a else byte
  | (.unmap _, .ok (.mappings removed)) => if ∃ m ∈ removed, m.Has a then none else byte
  | (.free .., .ok (.reservation r)) => if r.offset ≤ a ∧ a < r.stop then none else byte
  | (.remapSparse requests, .ok _) => (requests.find? (·.Has a)).elim byte (·.translate a)
  | (.modifyMapping unmapOffset withinMapping size kind cacheable, .ok _) =>
    let start := unmapOffset + withinMapping
    if start ≤ a ∧ a < start + size then byte.map fun b ↦ (b.1, kind, cacheable) else byte
  | _ => byte

theorem Removed.translate_eq (hs : s.Valid) {P : MaxwellGpuMapping → Prop} (h : Removed s t P)
    {a : Nat} {c : Prop} [Decidable c] (hc : ∀ m ∈ records s.mappings, m.Has a → (P m ↔ c)) :
    t.translate a = if c then none else s.translate a := by
  have hiff : ∀ m, m.Has a → (m ∈ records t.mappings ↔ m ∈ records s.mappings ∧ ¬c) :=
    fun m ha ↦ (h.mem_iff m).trans (and_congr_right fun hm ↦ not_congr (hc m hm ha))
  split
  · exact MappingTable.translate_eq_none fun m hm ha ↦ ((hiff m ha).mp hm).2 ‹c›
  · exact MappingTable.translate_congr hs.table.ordered h.ordered
      (fun m hm ha ↦ ⟨m, (hiff m ha).mpr ⟨hm, ‹¬c›⟩, ha, rfl⟩)
      fun m hm ha ↦ ⟨m, ((hiff m ha).mp hm).1, ha⟩

/-- **One call**, at one address. -/
theorem translate_run (hs : s.Valid) (call : AddressSpaceCall) (a : Nat) :
    wp call.run ⟨fun reply t ↦ t.translate a = byteAfter a (s.translate a) (call, .ok reply),
      fun _ t ↦ t = s, False⟩ s := by
  cases call <;> simp only [AddressSpaceCall.run, wp_rules]
  case initializeSpace request =>
    refine wp_of_ok (initializeSpace_spec request) ?_
    rintro _ _ ⟨-, _, -, rfl⟩
    rfl
  case reserve pages pageSize flags alignOrOffset =>
    refine wp_of_ok (reserve_spec hs pages pageSize flags alignOrOffset) ?_
    rintro r _ ⟨-, -, -, rfl⟩
    rfl
  case free offset pages pageSize =>
    refine wp_of_ok (free_spec hs offset pages pageSize) ?_
    rintro r t ⟨hr, -, h⟩
    refine h.translate_eq hs fun m hm ha ↦
      ⟨fun hP ↦ ⟨hP.1.trans ha.1, ha.2.trans_le hP.2⟩, fun har ↦ ?_⟩
    -- A mapping that reaches into a reservation is inside it.
    rcases hs.table.separate m hm with ⟨x, hx, hle⟩ | hapart
    · rwa [← hs.reservations.eq_of_occupies hx hr ⟨hle.1.trans ha.1, ha.2.trans_le hle.2⟩ har]
    · obtain ⟨h₁, h₂⟩ := ha
      have := hapart r hr
      omega
  case map request =>
    refine wp_of_ok (map_spec hs request) ?_
    rintro m t ⟨-, -, hpos, -, ⟨_, -, -, hplace⟩, rfl⟩
    exact MappingTable.translate_insert hs.table.ordered m hpos hplace.apart a
  case unmap offset =>
    simp only [unmap, requireRegions, wp_rules, id_eq, and_true, implies_true]
    intro _ _
    cases s.mappingIdAt offset with
    | none => simp [byteAfter]
    | some mappingId =>
      rw [wp_bind]
      refine wp_of_ok advanceMappingGeneration_spec ?_
      rintro _ _ rfl
      refine (removed_foldl_erase hs (fun m _ ↦ Iff.rfl) (Nat.le_succ _) _).translate_eq hs
        fun m hm ha ↦ ⟨fun hP ↦ ⟨m, List.mem_filter.mpr ⟨hm, hP⟩, ha⟩, ?_⟩
      rintro ⟨m', hm', ha'⟩
      obtain ⟨hm', hP⟩ := List.mem_filter.mp hm'
      rwa [hs.table.ordered.eq_of_occupies hm hm' ha ha']
  case remapSparse requests =>
    refine wp_of_ok (remapSparse_spec hs requests) ?_
    rintro _ t h
    rw [byteAfter]
    cases hfind : requests.find? (·.Has a) with
    | none => exact h.outside a (by simpa using hfind)
    | some request =>
      have ha := List.find?_some hfind
      exact h.inside request (List.mem_of_find?_eq_some hfind) a (of_decide_eq_true ha)
  case modifyMapping unmapOffset withinMapping size kind cacheable =>
    refine wp_of_ok (modifyMapping_spec hs unmapOffset withinMapping size kind cacheable) ?_
    rintro _ t h
    rw [byteAfter]
    split
    · obtain ⟨_, _, _, hs, ht⟩ := h.inside a (And.left ‹_›) (And.right ‹_›)
      rwa [hs]
    · exact h.outside a ‹_›

theorem translate_of_run (hs : s.Valid) (h : Run addressSpaceMachine s es t) (a : Nat) :
    t.translate a = es.foldl (byteAfter a) (s.translate a) := by
  induction h with
  | nil s => rfl
  | @cons s u t call r es hstep _ ih =>
    rw [ih (addressSpaceMachine_step hs hstep).1, List.foldl_cons]
    have hspec := of_answer (translate_run hs call a) hstep
    cases r with
    | ok reply => rw [hspec.1 reply rfl]
    | error e => rw [hspec.2 e rfl, byteAfter]

/-! ## A run -/

/-- 64 pages of canonical memory. -/
def exampleBacking : CheckedRange where
  segments := (List.range 64).map fun page ↦ ⟨page, 0, 0x1000, .readWrite, 0⟩
  size := 0x40000
  nonempty := by decide
  segments_pos := by decide
  size_eq := by decide
  size_lt := by decide

/-- Reserve four big pages and map two of them. -/
def exampleMap : List AddressSpaceCall :=
  [.initializeSpace ⟨0, 0, 0, 0⟩, .reserve 4 0x20000 3 (2 ^ 34),
    .map ⟨7, exampleBacking, 0, 0x40000, 0x20000, 0x20000, 0, true, .readWrite, some (2 ^ 34)⟩]

/-- Unmap the second page that was mapped. -/
def exampleRemap : List MaxwellSparseRemapRequest := [⟨2 ^ 34 + 0x20000, 0x20000, none⟩]

/-! ## Main results -/

section

variable {id : Nat} {profile : MaxwellGpuProfile}
  {es : List (AddressSpaceCall × Except MaxwellAddressSpaceError AddressSpaceReply)}

/-- **The invariant.** After every sequence of calls the mappings and the reservations are in order,
and the next call does not panic, and if it fails it changes nothing. -/
theorem addressSpace_valid (h : Run addressSpaceMachine (.new id profile) es s) :
    s.Valid ∧ ∀ call, ∃ r t, addressSpaceMachine s call = some (r, t) ∧
      ∀ e, r = .error e → t = s := by
  have hs := of_run (.new id profile) h
  refine ⟨hs, fun call ↦ ?_⟩
  obtain ⟨⟨r, t⟩, hstep⟩ := ne_none_iff_exists'.mp (addressSpaceMachine_ne_none hs call)
  exact ⟨r, t, hstep, (addressSpaceMachine_step hs hstep).2.2⟩

/-- A run in which a mapping is cut, and what is left of it modified. -/
theorem addressSpace_valid_example : ∃ es s,
    Run addressSpaceMachine (.new 1 .switch1Gm20b) es s ∧ es.map Prod.fst = exampleMap ++
      [.remapSparse exampleRemap, .modifyMapping (2 ^ 34) 0 0x20000 1 false] ∧
    s.mappingGeneration = 3 ∧ s.Valid ∧ ∀ call, ∃ r t, addressSpaceMachine s call = some (r, t) ∧
      ∀ e, r = .error e → t = s := by
  have hexec : ∃ r ∈ exec addressSpaceMachine (.new 1 .switch1Gm20b) (exampleMap ++
      [.remapSparse exampleRemap, .modifyMapping (2 ^ 34) 0 0x20000 1 false]),
        r.2.mappingGeneration = 3 := by
    decide +kernel
  obtain ⟨es, s, hrun, hcalls, hgeneration⟩ := exists_run_of_exec hexec
  exact ⟨es, s, hrun, hcalls, hgeneration, addressSpace_valid hrun⟩

/-- **Remapping and modifying.** A call that remaps gives every byte of its requests the byte of the
window that was asked for, or none, and a call that modifies keeps the backing bytes of its range
and gives them the new kind. All other addresses translate as before. -/
theorem remap_modify_translate (h : Run addressSpaceMachine (.new id profile) es s) :
    (∀ requests t, remapSparse requests s = .ok () t →
      (∀ request ∈ requests, ∀ i < request.size,
        (request.mapping = none → t.translate (request.offset + i) = none) ∧
        ∀ source, request.mapping = some source →
          ∃ cell, source.backing.cells[source.backingOffset + i]? = some cell ∧
            t.translate (request.offset + i) = some (cell, source.kind, source.cacheable)) ∧
      ∀ a, (∀ request ∈ requests, ¬request.Has a) → t.translate a = s.translate a) ∧
    ∀ unmapOffset withinMapping size kind cacheable t,
      modifyMapping unmapOffset withinMapping size kind cacheable s = .ok () t →
      (∀ i < size, ∃ cell kind' cacheable',
        s.translate (unmapOffset + withinMapping + i) = some (cell, kind', cacheable') ∧
          t.translate (unmapOffset + withinMapping + i) = some (cell, kind, cacheable)) ∧
      ∀ a, ¬(unmapOffset + withinMapping ≤ a ∧ a < unmapOffset + withinMapping + size) →
        t.translate a = s.translate a := by
  have hs := of_run (.new id profile) h
  constructor
  · intro requests t ht
    have hremapped : Remapped s t requests := ok_of_wp (remapSparse_spec hs requests) ht
    refine ⟨fun request hrequest i hi ↦ ?_, hremapped.outside⟩
    have htranslate := hremapped.inside request hrequest (request.offset + i)
      ⟨Nat.le_add_right _ _, Nat.add_lt_add_left hi _⟩
    rw [htranslate, MaxwellSparseRemapRequest.translate, Nat.add_sub_cancel_left]
    constructor
    · intro hnone
      rw [hnone, bind_none]
    · intro source hsource
      have hwindow := hremapped.window request hrequest source hsource
      have hlt : source.backingOffset + i < source.backing.cells.length := by
        rw [CheckedRange.length_cells]
        omega
      refine ⟨_, List.getElem?_eq_getElem hlt, ?_⟩
      rw [hsource, bind_some, List.getElem?_eq_getElem hlt, map_some]
  · intro unmapOffset withinMapping size kind cacheable t ht
    have hmodified : Modified s t _ _ kind cacheable :=
      ok_of_wp (modifyMapping_spec hs unmapOffset withinMapping size kind cacheable) ht
    refine ⟨fun i hi ↦ ?_, hmodified.outside⟩
    exact hmodified.inside _ (Nat.le_add_right _ _) (Nat.add_lt_add_left hi _)

/-- Unmapping a page of a mapping of two. -/
theorem remap_modify_translate_example : ∃ es s t,
    Run addressSpaceMachine (.new 1 .switch1Gm20b) es s ∧ es.map Prod.fst = exampleMap ∧
    remapSparse exampleRemap s = .ok () t ∧ t.translate (2 ^ 34 + 0x20000) = none ∧
    t.translate (2 ^ 34) = s.translate (2 ^ 34) := by
  have hexec : ∃ r ∈ exec addressSpaceMachine (.new 1 .switch1Gm20b) exampleMap,
      ∃ answer ∈ (remapSparse exampleRemap r.2).answer, answer.1.isOk = true := by
    decide +kernel
  obtain ⟨es, s, hrun, hcalls, ⟨r, t⟩, hanswer, hok⟩ := exists_run_of_exec hexec
  cases ht : remapSparse exampleRemap s with
  | panic message => simp [ht, Outcome.answer] at hanswer
  | err e u =>
    rw [ht] at hanswer
    cases hanswer
    cases hok
  | ok value u =>
    obtain ⟨hinside, houtside⟩ := (remap_modify_translate hrun).1 exampleRemap u ht
    refine ⟨es, s, u, hrun, hcalls, ht, ?_, houtside (2 ^ 34) (by decide)⟩
    exact (hinside _ List.mem_cons_self 0 (by decide)).1 rfl

/-- **Retained mappings.** If a mapping that was retained is current at a later point, then it was
in the table, and its addresses were translated by it, at every point in between. -/
theorem retained_current {p mid q : MaxwellGpuAddressSpace}
    {es₁ es₂ : List (AddressSpaceCall × Except MaxwellAddressSpaceError AddressSpaceReply)}
    (hp : Run addressSpaceMachine (.new id profile) es p) (hpm : Run addressSpaceMachine p es₁ mid)
    (hmq : Run addressSpaceMachine mid es₂ q) {retained : MaxwellGpuMapping}
    (hretained : p.mappings[retained.offset]? = some retained)
    (hcurrent : q.retainedMappingIsCurrent retained = true) :
    mid.mappings[retained.offset]? = some retained ∧
      ∀ a, retained.offset ≤ a → a < retained.offset + retained.size →
        mid.translate a = retained.translate a := by
  have hpv := of_run (.new id profile) hp
  have hmv := hpv.of_run hpm
  -- The record that is current has the generation of the retained one, so it is that old.
  obtain ⟨current, hget, hsame⟩ := (any_eq_true ..).mp hcurrent
  simp only [Bool.and_eq_true, beq_iff_eq] at hsame
  obtain ⟨⟨⟨-, hgeneration⟩, hoffset⟩, -⟩ := hsame
  have hretained' := mem_records hretained
  have hold : current.generation ≤ p.mappingGeneration :=
    hgeneration ▸ hpv.table.generation_le retained hretained'
  have hmid : current ∈ records mid.mappings :=
    (mem_of_generation_le hmv hmq).2 current (mem_records hget)
      (hold.trans (mem_of_generation_le hpv hpm).1)
  have heq : current = retained := hpv.table.ordered.eq_of_lo_eq
    ((mem_of_generation_le hpv hpm).2 current hmid hold) hretained' hoffset
  subst heq
  exact ⟨hmv.table.ordered.getElem?_eq_some_iff.mpr ⟨hmid, rfl⟩, fun a h₁ h₂ ↦
    MappingTable.translate_of_mem hmv.table.ordered hmid ⟨h₁, h₂⟩⟩

/-- A mapping stays current while other ranges are reserved and unmapped. -/
theorem retained_current_example : ∃ es es₁ es₂ p mid q retained,
    Run addressSpaceMachine (.new 1 .switch1Gm20b) es p ∧ Run addressSpaceMachine p es₁ mid ∧
    Run addressSpaceMachine mid es₂ q ∧ es₁ ≠ [] ∧ es₂ ≠ [] ∧
    q.retainedMappingIsCurrent retained = true ∧
    mid.mappings[retained.offset]? = some retained ∧
      ∀ a, retained.offset ≤ a → a < retained.offset + retained.size →
        mid.translate a = retained.translate a := by
  have hexec : ∃ r ∈ exec addressSpaceMachine (.new 1 .switch1Gm20b) exampleMap,
      ∃ r₁ ∈ exec addressSpaceMachine r.2 [.reserve 1 0x20000 1 (2 ^ 35)],
        ∃ r₂ ∈ exec addressSpaceMachine r₁.2 [.unmap (2 ^ 35)],
          ∃ retained ∈ r.2.mappings[2 ^ 34]?, retained.offset = 2 ^ 34 ∧
            r₂.2.retainedMappingIsCurrent retained = true := by
    decide +kernel
  obtain ⟨es, p, hp, -, hexec⟩ := exists_run_of_exec hexec
  obtain ⟨es₁, mid, hpm, hes₁, hexec⟩ := exists_run_of_exec hexec
  obtain ⟨es₂, q, hmq, hes₂, retained, hretained, hoffset, hcurrent⟩ := exists_run_of_exec hexec
  refine ⟨es, es₁, es₂, p, mid, q, retained, hp, hpm, hmq, ?_, ?_, hcurrent,
    retained_current hp hpm hmq (by rwa [hoffset]) hcurrent⟩
  · rintro rfl
    exact nomatch hes₁
  · rintro rfl
    exact nomatch hes₂

/-- **The bytes.** After every sequence of calls, the byte at an address is the one that the calls
and their answers make of it. -/
theorem translate_eq_foldl (h : Run addressSpaceMachine (.new id profile) es s) (a : Nat) :
    s.translate a = es.foldl (byteAfter a) none :=
  translate_of_run (.new id profile) h a

theorem translate_eq_foldl_example : ∃ es s, Run addressSpaceMachine (.new 1 .switch1Gm20b) es s ∧
    es.map Prod.fst = exampleMap ∧ ∀ a, s.translate a = es.foldl (byteAfter a) none := by
  have hexec : ∃ r ∈ exec addressSpaceMachine (.new 1 .switch1Gm20b) exampleMap, True := by
    decide +kernel
  obtain ⟨es, s, hrun, hcalls, -⟩ := exists_run_of_exec hexec
  exact ⟨es, s, hrun, hcalls, translate_eq_foldl hrun⟩

end

end Nixe.Maxwell
