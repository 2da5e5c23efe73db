import Nixe.Nvdrv.NvMap
import Nixe.Collections.Ordered

/-!
# References to nvmap objects

The three maps of `NvMapObjects` describe one relation between owners, handles, objects and exported
ids. This file proves that they agree in every state that is reached: the reference count of an
object is the number of handles that name it, and an exported id and its object name each other.

## Identity

Handles, objects and exported ids are numbered by counters that never go back, and every number in
use is below its counter. So a number that is free again is not given out a second time.
-/

namespace Nixe.Nvdrv

open Std Method Option

/-! ## What a call can do -/

namespace NvMapObjects

/-- The number of handles, of any owner, that name the object. -/
def handleCount (s : NvMapObjects) (id : NvMapObjectId) : Nat :=
  tally s.handles fun record ↦ record.objectId = id

/-- The state after `create`. -/
def created (s : NvMapObjects) (owner : NvMapOwner) (size : Nat) : NvMapObjects :=
  { s with
    objects := s.objects.insert s.nextObjectId
      ⟨⟨s.nextObjectId, size, none⟩, owner, 1, none⟩
    handles := s.handles.insert s.nextHandle ⟨s.nextObjectId, owner⟩
    nextObjectId := s.nextObjectId + 1
    nextHandle := s.nextHandle + 1 }

/-- The state after `import`. -/
def imported (s : NvMapObjects) (owner : NvMapOwner) (id : NvMapObjectId)
    (record : NvMapObjectRecord) : NvMapObjects :=
  { s with
    objects := s.objects.insert id { record with handleReferences := record.handleReferences + 1 }
    handles := s.handles.insert s.nextHandle ⟨id, owner⟩
    nextHandle := s.nextHandle + 1 }

/-- The state after `allocate`. -/
def allocated (s : NvMapObjects) (id : NvMapObjectId) (record : NvMapObjectRecord)
    (storage : NvMapCanonicalStorage) : NvMapObjects :=
  s.putObject id { record with object := { record.object with storage := some storage } }

/-- The handle is one of the owner, and names the object with this record. -/
structure Resolves (s : NvMapObjects) (owner : NvMapOwner) (handle : NvMapHandle)
    (id : NvMapObjectId) (record : NvMapObjectRecord) : Prop where
  handle : s.handles[handle]? = some ⟨id, owner⟩
  object : s.objects[id]? = some record

end NvMapObjects

open NvMapObjects

/-- The effects of the calls of an owner, with what each of them finds. -/
inductive NvMapEffect (owner : NvMapOwner) (s : NvMapObjects) : NvMapObjects → Prop
  | same : NvMapEffect owner s s
  | create (size : Nat) : NvMapEffect owner s (s.created owner size)
  | imports {exportedId id : Nat} {record : NvMapObjectRecord}
      (hexported : s.exportedIds[exportedId]? = some ⟨id, owner⟩)
      (hobject : s.objects[id]? = some record) (howner : record.owner = owner) :
      NvMapEffect owner s (s.imported owner id record)
  | allocate {handle id : Nat} {record : NvMapObjectRecord} (storage : NvMapCanonicalStorage)
      (hresolves : s.Resolves owner handle id record) :
      NvMapEffect owner s (s.allocated id record storage)
  | release {handle id : Nat} {record : NvMapObjectRecord}
      (hresolves : s.Resolves owner handle id record) (hmany : 1 < record.handleReferences) :
      NvMapEffect owner s (s.releaseHandle handle id record)
  | destroy {handle id : Nat} {record : NvMapObjectRecord}
      (hresolves : s.Resolves owner handle id record) (hlast : record.handleReferences = 1) :
      NvMapEffect owner s (s.releaseObject handle id record)
  | exports {handle id : Nat} {record : NvMapObjectRecord}
      (hresolves : s.Resolves owner handle id record) (hnew : record.exportedId = none) :
      NvMapEffect owner s (s.exportObject s.nextExportedId (s.nextExportedId + 1) owner id record)

/-- What the call names belongs to the owner. -/
def NvMapCall.Permitted (s : NvMapObjects) (owner : NvMapOwner) : NvMapCall → Prop
  | .create _ => True
  | .import id => ∃ record, s.exportedIds[id]? = some record ∧ record.owner = owner
  | .allocationSize h | .allocate h _ _ _ | .free h | .parameter h _ | .exportedId h =>
    ∃ record, s.handles[h]? = some record ∧ record.owner = owner

section

variable {owner : NvMapOwner} {handle : NvMapHandle} {s : NvMapObjects}

theorem checkedSucc32_eq_some {a b : Nat} (h : checkedSucc32 a = some b) : b = a + 1 := by
  rw [checkedSucc32] at h
  split at h
  · exact (Option.some.inj h).symm
  · cases h

theorem ownedHandle_spec :
    wp (ownedHandle owner handle) ⟨fun record t ↦ t = s ∧ s.handles[handle]? = some record ∧
      record.owner = owner, fun _ t ↦ t = s, False⟩ s := by
  simp only [ownedHandle, wp_rules]
  refine ⟨fun record hrecord ↦ ⟨fun _ ↦ trivial, fun howner ↦ ?_⟩, fun _ ↦ trivial⟩
  exact ⟨trivial, hrecord, not_not.mp howner⟩

theorem objectByOwnedHandle_spec :
    wp (objectByOwnedHandle owner handle) ⟨fun _ t ↦ t = s ∧
      ∃ record, s.handles[handle]? = some record ∧ record.owner = owner, fun _ t ↦ t = s, False⟩
      s := by
  rw [objectByOwnedHandle, wp_bind]
  refine wp_of_ok ownedHandle_spec ?_
  rintro record _ ⟨rfl, hrecord, howner⟩
  simp only [wp_rules]
  exact ⟨fun _ _ ↦ ⟨fun _ ↦ trivial, fun _ ↦ ⟨trivial, record, hrecord, howner⟩⟩, fun _ ↦ trivial⟩

/-- The specification of a call: it fails without a trace, or what it names is permitted and its
effect is one of those above. -/
abbrev NvMapSpec (call : NvMapCall) (owner : NvMapOwner) (s : NvMapObjects) {α : Type} :
    Post NvMapStateError NvMapObjects α :=
  ⟨fun _ t ↦ NvMapEffect owner s t ∧ call.Permitted s owner, fun _ t ↦ t = s, False⟩

theorem create_spec (size : Nat) : wp (create owner size) (NvMapSpec (.create size) owner s) s := by
  simp only [create, wp_rules]
  refine ⟨fun _ ↦ trivial, fun _ ↦ ⟨fun next hnext ↦ ⟨fun nextHandle hhandle ↦ ⟨?_, trivial⟩,
    fun _ ↦ trivial⟩, fun _ ↦ trivial⟩⟩
  obtain ⟨-, rfl⟩ := checkedAdd_eq_some_iff.mp hnext
  rw [checkedSucc32_eq_some hhandle]
  exact .create size

theorem import_spec (id : NvMapExportedId) :
    wp (NvMapObjects.import owner id) (NvMapSpec (.import id) owner s) s := by
  simp only [NvMapObjects.import, wp_rules]
  refine ⟨fun exported hexported ↦ ⟨fun _ ↦ trivial, fun howner ↦ ⟨fun nextHandle hhandle ↦
    ⟨fun record hrecord ↦ ⟨fun _ ↦ trivial, fun hobject ↦ ⟨fun references hreferences ↦ ?_,
      fun _ ↦ trivial⟩⟩, fun _ ↦ trivial⟩, fun _ ↦ trivial⟩⟩, fun _ ↦ trivial⟩
  obtain ⟨objectId, _⟩ := exported
  obtain rfl := not_not.mp howner
  rw [checkedSucc32_eq_some hhandle, checkedSucc32_eq_some hreferences]
  exact ⟨.imports hexported hrecord (not_not.mp hobject), _, hexported, rfl⟩

theorem allocationSize_spec :
    wp (allocationSize owner handle) (NvMapSpec (.allocationSize handle) owner s) s := by
  rw [allocationSize, wp_bind]
  refine wp_of_ok objectByOwnedHandle_spec ?_
  rintro object _ ⟨rfl, hpermitted⟩
  simp only [wp_rules]
  exact ⟨fun _ ↦ trivial, fun _ ↦ ⟨.same, hpermitted⟩⟩

theorem validateBacking_spec (allocation : NvMapAllocationMetadata)
    (backing : Memory.CanonicalBackingRange) :
    wp (validateBacking owner handle allocation backing) (.leaves fun t ↦ t = s)
      s := by
  simp only [validateBacking, wp_rules]
  refine ⟨fun _ ↦ trivial, fun _ ↦ wp_of_ok objectByOwnedHandle_spec ?_⟩
  rintro object _ ⟨rfl, -⟩
  exact ⟨fun _ ↦ rfl, fun _ ↦ rfl⟩

theorem allocate_spec (allocation : NvMapAllocationMetadata) (cpuMapping : NvMapCpuMapping)
    (backing : Memory.CanonicalBackingRange) :
    wp (allocate owner handle allocation cpuMapping backing)
      (NvMapSpec (.allocate handle allocation cpuMapping backing) owner s) s := by
  simp only [allocate, wp_rules]
  refine ⟨fun _ _ ↦ wp_of_ok (validateBacking_spec allocation backing) ?_,
    fun _ _ ↦ trivial⟩
  rintro _ _ rfl
  refine wp_of_ok ownedHandle_spec ?_
  rintro ⟨id, _⟩ _ ⟨rfl, hhandle, rfl⟩
  simp only
  refine ⟨fun record hrecord ↦ ⟨fun _ ↦ trivial, fun _ ↦ ?_⟩, fun _ ↦ trivial⟩
  exact ⟨.allocate _ ⟨hhandle, hrecord⟩, _, hhandle, rfl⟩

theorem free_spec : wp (free owner handle) (NvMapSpec (.free handle) owner s) s := by
  rw [free, wp_bind]
  refine wp_of_ok ownedHandle_spec ?_
  rintro ⟨id, _⟩ _ ⟨rfl, hhandle, rfl⟩
  simp only [wp_rules, wp_ite]
  refine ⟨fun record hrecord ↦ ⟨fun _ ↦ trivial, fun _ ↦ ⟨fun hmany ↦ ?_, fun _ ↦
    ⟨fun _ ↦ trivial, fun hlast ↦ ?_⟩⟩⟩, fun _ ↦ trivial⟩
  · exact ⟨.release ⟨hhandle, hrecord⟩ hmany, _, hhandle, rfl⟩
  · exact ⟨.destroy ⟨hhandle, hrecord⟩ (not_not.mp hlast), _, hhandle, rfl⟩

theorem parameter_spec (p : Nat) :
    wp (parameter owner handle p) (NvMapSpec (.parameter handle p) owner s) s := by
  rw [parameter, wp_bind]
  refine wp_of_ok objectByOwnedHandle_spec ?_
  rintro object _ ⟨rfl, hpermitted⟩
  split
  · exact ⟨.same, hpermitted⟩
  · exact ⟨.same, hpermitted⟩
  · exact ⟨.same, hpermitted⟩
  · exact ⟨.same, hpermitted⟩
  · exact ⟨.same, hpermitted⟩
  · rfl

theorem exportedId_spec :
    wp (exportedId owner handle) (NvMapSpec (.exportedId handle) owner s) s := by
  rw [exportedId, wp_bind]
  refine wp_of_ok ownedHandle_spec ?_
  rintro ⟨id, _⟩ _ ⟨rfl, hhandle, rfl⟩
  simp only [wp_rules]
  refine ⟨fun record hrecord ↦ ?_, fun _ ↦ trivial⟩
  split
  · exact ⟨.same, _, hhandle, rfl⟩
  · rename_i hnew
    simp only [wp_rules]
    refine ⟨fun next hnext ↦ ?_, fun _ ↦ trivial⟩
    rw [checkedSucc32_eq_some hnext]
    exact ⟨.exports ⟨hhandle, hrecord⟩ hnew, _, hhandle, rfl⟩

/-- Every call of an owner. -/
theorem NvMapCall.run_spec (call : NvMapCall) : wp (call.run owner) (NvMapSpec call owner s) s := by
  cases call with
  | create size => exact (wp_bind _ _).mpr (create_spec size)
  | «import» id => exact (wp_bind _ _).mpr (import_spec id)
  | allocationSize h => exact (wp_bind _ _).mpr allocationSize_spec
  | allocate h allocation cpuMapping backing =>
    exact (wp_bind _ _).mpr (allocate_spec allocation cpuMapping backing)
  | free h => exact (wp_bind _ _).mpr free_spec
  | parameter h p => exact (wp_bind _ _).mpr (parameter_spec p)
  | exportedId h => exact (wp_bind _ _).mpr exportedId_spec

end

/-! ## The invariant -/

/-- The three maps agree. -/
structure NvMapInvariant (s : NvMapObjects) : Prop where
  handle : ∀ {h : Nat} {r : NvMapHandleRecord}, s.handles[h]? = some r →
    h < s.nextHandle ∧
      ∃ record, s.objects[r.objectId]? = some record ∧ record.owner = r.owner
  object : ∀ {id : Nat} {record : NvMapObjectRecord}, s.objects[id]? = some record →
    id < s.nextObjectId ∧ record.handleReferences = s.handleCount id ∧
      0 < record.handleReferences
  exported : ∀ {e : Nat} {x : NvMapExportedIdRecord}, s.exportedIds[e]? = some x →
    e < s.nextExportedId ∧
      ∃ record, s.objects[x.objectId]? = some record ∧ record.exportedId = some e
  exporter : ∀ {id e : Nat} {record : NvMapObjectRecord}, s.objects[id]? = some record →
    record.exportedId = some e → ∃ x, s.exportedIds[e]? = some x ∧ x.objectId = id

namespace NvMapInvariant

variable {s t : NvMapObjects} {owner handle id : Nat} {record : NvMapObjectRecord}

section

variable (hs : NvMapInvariant s)

include hs

theorem handles_nextHandle : s.handles[s.nextHandle]? = none := by
  by_contra hne
  obtain ⟨r, hr⟩ := ne_none_iff_exists'.mp hne
  exact Nat.lt_irrefl _ (hs.handle hr).1

theorem objects_nextObjectId : s.objects[s.nextObjectId]? = none := by
  by_contra hne
  obtain ⟨r, hr⟩ := ne_none_iff_exists'.mp hne
  exact Nat.lt_irrefl _ (hs.object hr).1

/-- No handle names an object that does not exist. -/
theorem handleCount_eq_zero (hid : s.objects[id]? = none) : s.handleCount id = 0 := by
  by_contra hne
  obtain ⟨h, r, hr, hname⟩ := tally_pos_iff.mp (Nat.pos_of_ne_zero hne)
  obtain ⟨-, record, hrecord, -⟩ := hs.handle hr
  rw [of_decide_eq_true hname, hid] at hrecord
  cases hrecord

theorem created (owner size : Nat) : NvMapInvariant (s.created owner size) := by
  have hcount (id : Nat) : (s.created owner size).handleCount id =
      s.handleCount id + (decide (s.nextObjectId = id)).toNat :=
    tally_insert hs.handles_nextHandle
  refine ⟨fun {h r} hr ↦ ?_, fun {id record} hrecord ↦ ?_, fun {e x} hx ↦ ?_,
    fun {id e record} hrecord he ↦ ?_⟩
  · obtain ⟨rfl, rfl⟩ | ⟨-, hr⟩ := getElem?_insert_eq_some_iff.mp hr
    · exact ⟨Nat.lt_succ_self _, _, ExtTreeMap.getElem?_insert_self, rfl⟩
    · obtain ⟨hlt, record, hrecord, howner⟩ := hs.handle hr
      have hne := Nat.ne_of_lt (hs.object hrecord).1
      exact ⟨Nat.lt_succ_of_lt hlt, record, (getElem?_insert_of_ne hne).trans hrecord, howner⟩
  · obtain ⟨rfl, rfl⟩ | ⟨hne, hrecord⟩ := getElem?_insert_eq_some_iff.mp hrecord
    · refine ⟨Nat.lt_succ_self _, ?_, Nat.one_pos⟩
      rw [hcount, hs.handleCount_eq_zero hs.objects_nextObjectId, decide_eq_true rfl]
      rfl
    · obtain ⟨hlt, hrefs, hpos⟩ := hs.object hrecord
      refine ⟨Nat.lt_succ_of_lt hlt, ?_, hpos⟩
      rw [hcount, decide_eq_false (Ne.symm hne), hrefs]
      rfl
  · obtain ⟨hlt, record, hrecord, he⟩ := hs.exported hx
    have hne := Nat.ne_of_lt (hs.object hrecord).1
    exact ⟨hlt, record, (getElem?_insert_of_ne hne).trans hrecord, he⟩
  · obtain ⟨rfl, rfl⟩ | ⟨-, hrecord⟩ := getElem?_insert_eq_some_iff.mp hrecord
    · cases he
    · exact hs.exporter hrecord he

section

variable (hobject : s.objects[id]? = some record)

include hobject

/-- An object gets a new record of the same owner and exported id, and the handles change with the
count of the record. -/
theorem revised {record' : NvMapObjectRecord} (hobjects : t.objects = s.objects.insert id record')
    (howner : record'.owner = record.owner) (hexportedId : record'.exportedId = record.exportedId)
    (hids : t.exportedIds = s.exportedIds) (hnextObject : t.nextObjectId = s.nextObjectId)
    (hnextExported : t.nextExportedId = s.nextExportedId)
    (hhandles : ∀ {h : Nat} {r : NvMapHandleRecord}, t.handles[h]? = some r →
      h < t.nextHandle ∧ (s.handles[h]? = some r ∨ r = ⟨id, record.owner⟩))
    (hother : ∀ o, o ≠ id → t.handleCount o = s.handleCount o)
    (hcount : record'.handleReferences = t.handleCount id) (hpos : 0 < record'.handleReferences) :
    NvMapInvariant t := by
  have hlookup {o : Nat} {r : NvMapObjectRecord} (hr : s.objects[o]? = some r) :
      ∃ r' : NvMapObjectRecord, t.objects[o]? = some r' ∧ r'.owner = r.owner ∧
        r'.exportedId = r.exportedId := by
    rw [hobjects]
    by_cases ho : o = id
    · subst o
      cases hobject.symm.trans hr
      exact ⟨record', ExtTreeMap.getElem?_insert_self, howner, hexportedId⟩
    · exact ⟨r, (getElem?_insert_of_ne ho).trans hr, rfl, rfl⟩
  refine ⟨fun {h r} hr ↦ ?_, fun {o r} hr ↦ ?_, fun {e x} hx ↦ ?_, fun {o e r} hr he ↦ ?_⟩
  · obtain ⟨hlt, hold | rfl⟩ := hhandles hr
    · obtain ⟨-, r', hr', howner'⟩ := hs.handle hold
      obtain ⟨r'', hr'', howner'', -⟩ := hlookup hr'
      exact ⟨hlt, r'', hr'', howner''.trans howner'⟩
    · rw [hobjects]
      exact ⟨hlt, record', ExtTreeMap.getElem?_insert_self, howner⟩
  · rw [hobjects] at hr
    rw [hnextObject]
    obtain ⟨rfl, rfl⟩ | ⟨hne, hr⟩ := getElem?_insert_eq_some_iff.mp hr
    · exact ⟨(hs.object hobject).1, hcount, hpos⟩
    · rw [hother o hne]
      exact hs.object hr
  · rw [hids] at hx
    rw [hnextExported]
    obtain ⟨hlt, r, hr, he⟩ := hs.exported hx
    obtain ⟨r', hr', -, he'⟩ := hlookup hr
    exact ⟨hlt, r', hr', he'.trans he⟩
  · rw [hobjects] at hr
    rw [hids]
    obtain ⟨rfl, rfl⟩ | ⟨-, hr⟩ := getElem?_insert_eq_some_iff.mp hr
    · exact hs.exporter hobject (hexportedId.symm.trans he)
    · exact hs.exporter hr he

theorem imported (howner : record.owner = owner) : NvMapInvariant (s.imported owner id record) := by
  have hcount (o : Nat) : (s.imported owner id record).handleCount o =
      s.handleCount o + (decide (id = o)).toNat := tally_insert hs.handles_nextHandle
  refine hs.revised hobject rfl rfl rfl rfl rfl rfl (fun {h r} hr ↦ ?_) (fun o ho ↦ ?_) ?_
    (Nat.succ_pos _)
  · obtain ⟨rfl, rfl⟩ | ⟨-, hr⟩ := getElem?_insert_eq_some_iff.mp hr
    · exact ⟨Nat.lt_succ_self _, .inr (by rw [howner])⟩
    · exact ⟨Nat.lt_succ_of_lt (hs.handle hr).1, .inl hr⟩
  · rw [hcount, decide_eq_false (Ne.symm ho)]
    rfl
  · rw [hcount, decide_eq_true rfl, ← (hs.object hobject).2.1]
    rfl

theorem allocated (storage : NvMapCanonicalStorage) :
    NvMapInvariant (s.allocated id record storage) :=
  hs.revised hobject rfl rfl rfl rfl rfl rfl (fun hr ↦ ⟨(hs.handle hr).1, .inl hr⟩)
    (fun _ _ ↦ rfl) (hs.object hobject).2.1 (hs.object hobject).2.2

end

end

/-- The handles that are left without one that names `id`. -/
theorem tally_erase_handle {record : NvMapHandleRecord} (h : s.handles[handle]? = some record)
    (o : Nat) :
    tally (s.handles.erase handle) (fun r ↦ r.objectId = o) +
      (decide (record.objectId = o)).toNat = s.handleCount o := tally_erase h

theorem releaseHandle (hs : NvMapInvariant s) (hresolves : s.Resolves owner handle id record)
    (hmany : 1 < record.handleReferences) :
    NvMapInvariant (s.releaseHandle handle id record) := by
  have hcount := tally_erase_handle hresolves.handle
  refine hs.revised hresolves.object rfl rfl rfl rfl rfl rfl (fun {h r} hr ↦ ?_) (fun o ho ↦ ?_)
    ?_ (Nat.sub_pos_of_lt hmany)
  · have hr := (getElem?_erase_eq_some_iff.mp hr).2
    exact ⟨(hs.handle hr).1, .inl hr⟩
  · have := hcount o
    rw [decide_eq_false (Ne.symm ho)] at this
    exact this
  · have := hcount id
    rw [decide_eq_true rfl, ← (hs.object hresolves.object).2.1] at this
    exact Nat.sub_eq_of_eq_add this.symm

theorem getElem?_releaseObject {e : Nat} {x : NvMapExportedIdRecord} :
    (s.releaseObject handle id record).exportedIds[e]? = some x ↔
      s.exportedIds[e]? = some x ∧ record.exportedId ≠ some e := by
  rw [NvMapObjects.releaseObject]
  cases record.exportedId with
  | none => simp
  | some e' =>
    rw [getElem?_erase_eq_some_iff, and_comm, Ne, Ne, some_inj, @eq_comm _ e' e]

theorem releaseObject (hs : NvMapInvariant s) (hresolves : s.Resolves owner handle id record)
    (hlast : record.handleReferences = 1) : NvMapInvariant (s.releaseObject handle id record) := by
  have hcount := tally_erase_handle hresolves.handle
  have hunnamed {h : Nat} {r : NvMapHandleRecord} (hr : (s.handles.erase handle)[h]? = some r) :
      r.objectId ≠ id := by
    intro hname
    have hpos : 0 < tally (s.handles.erase handle) fun r ↦ r.objectId = id :=
      tally_pos_iff.mpr ⟨h, r, hr, decide_eq_true hname⟩
    have := hcount id
    rw [decide_eq_true rfl, ← (hs.object hresolves.object).2.1, hlast] at this
    exact Nat.ne_of_gt hpos (Nat.succ.inj this)
  refine ⟨fun {h r} hr ↦ ?_, fun {o r} hr ↦ ?_, fun {e x} hx ↦ ?_, fun {o e r} hr he ↦ ?_⟩
  · obtain ⟨hlt, r', hr', howner⟩ := hs.handle (getElem?_erase_eq_some_iff.mp hr).2
    exact ⟨hlt, r', (getElem?_erase_of_ne (hunnamed hr)).trans hr', howner⟩
  · obtain ⟨hne, hr⟩ := getElem?_erase_eq_some_iff.mp hr
    obtain ⟨hlt, hrefs, hpos⟩ := hs.object hr
    have := hcount o
    rw [decide_eq_false (Ne.symm hne), ← hrefs] at this
    exact ⟨hlt, this.symm, hpos⟩
  · obtain ⟨hx, hother⟩ := getElem?_releaseObject.mp hx
    obtain ⟨hlt, r, hr, he⟩ := hs.exported hx
    have hne : x.objectId ≠ id := by
      rintro rfl
      cases hresolves.object.symm.trans hr
      exact hother he
    exact ⟨hlt, r, (getElem?_erase_of_ne hne).trans hr, he⟩
  · obtain ⟨hne, hr⟩ := getElem?_erase_eq_some_iff.mp hr
    obtain ⟨x, hx, hname⟩ := hs.exporter hr he
    refine ⟨x, getElem?_releaseObject.mpr ⟨hx, fun hsame ↦ ?_⟩, hname⟩
    -- the exported id of the removed object leads to that object
    obtain ⟨x', hx', hname'⟩ := hs.exporter hresolves.object hsame
    cases hx.symm.trans hx'
    exact hne (hname.symm.trans hname')

theorem exportObject (hs : NvMapInvariant s) (hobject : s.objects[id]? = some record)
    (hnew : record.exportedId = none) :
    NvMapInvariant
      (s.exportObject s.nextExportedId (s.nextExportedId + 1) owner id record) := by
  refine ⟨fun {h r} hr ↦ ?_, fun {o r} hr ↦ ?_, fun {e x} hx ↦ ?_, fun {o e r} hr he ↦ ?_⟩
  · obtain ⟨hlt, r', hr', howner⟩ := hs.handle hr
    refine ⟨hlt, ?_⟩
    by_cases ho : r.objectId = id
    · subst id
      cases hobject.symm.trans hr'
      exact ⟨_, ExtTreeMap.getElem?_insert_self, howner⟩
    · exact ⟨r', (getElem?_insert_of_ne ho).trans hr', howner⟩
  · obtain ⟨rfl, rfl⟩ | ⟨-, hr⟩ := getElem?_insert_eq_some_iff.mp hr
    · obtain ⟨hlt, hrefs, hpos⟩ := hs.object hobject
      exact ⟨hlt, hrefs, hpos⟩
    · exact hs.object hr
  · obtain ⟨rfl, rfl⟩ | ⟨-, hx⟩ := getElem?_insert_eq_some_iff.mp hx
    · exact ⟨Nat.lt_succ_self _, _, ExtTreeMap.getElem?_insert_self, rfl⟩
    · obtain ⟨hlt, r, hr, he⟩ := hs.exported hx
      have hne : x.objectId ≠ id := by
        rintro rfl
        cases hobject.symm.trans hr
        cases hnew.symm.trans he
      exact ⟨Nat.lt_succ_of_lt hlt, r, (getElem?_insert_of_ne hne).trans hr, he⟩
  · obtain ⟨rfl, rfl⟩ | ⟨-, hr⟩ := getElem?_insert_eq_some_iff.mp hr
    · cases he
      exact ⟨_, ExtTreeMap.getElem?_insert_self, rfl⟩
    · obtain ⟨x, hx, hname⟩ := hs.exporter hr he
      exact ⟨x, (getElem?_insert_of_ne (Nat.ne_of_lt (hs.exported hx).1)).trans hx, hname⟩

theorem effect (hs : NvMapInvariant s) (h : NvMapEffect owner s t) : NvMapInvariant t := by
  cases h with
  | same => exact hs
  | create size => exact hs.created owner size
  | imports hexported hobject howner => exact hs.imported hobject howner
  | allocate storage hresolves => exact hs.allocated hresolves.object storage
  | release hresolves hmany => exact hs.releaseHandle hresolves hmany
  | destroy hresolves hlast => exact hs.releaseObject hresolves hlast
  | exports hresolves hnew => exact hs.exportObject hresolves.object hnew

end NvMapInvariant

/-! ## Identity and isolation -/

/-- Whatever is in the maps of `t` was there in `s` or has a number that `s` had not given out. -/
structure Succeeds (s t : NvMapObjects) : Prop where
  nextHandle : s.nextHandle ≤ t.nextHandle
  nextExportedId : s.nextExportedId ≤ t.nextExportedId
  handles : ∀ {h : Nat} {r : NvMapHandleRecord}, t.handles[h]? = some r →
    s.handles[h]? = some r ∨ s.nextHandle ≤ h
  exportedIds : ∀ {e : Nat} {x : NvMapExportedIdRecord}, t.exportedIds[e]? = some x →
    s.exportedIds[e]? = some x ∨ s.nextExportedId ≤ e

theorem Succeeds.refl (s : NvMapObjects) : Succeeds s s :=
  ⟨Nat.le_refl _, Nat.le_refl _, .inl, .inl⟩

theorem Succeeds.trans {s t u : NvMapObjects} (hst : Succeeds s t) (htu : Succeeds t u) :
    Succeeds s u := by
  refine ⟨hst.nextHandle.trans htu.nextHandle, hst.nextExportedId.trans htu.nextExportedId,
    fun hr ↦ ?_, fun hx ↦ ?_⟩
  · obtain hr | hle := htu.handles hr
    · exact hst.handles hr
    · exact .inr (hst.nextHandle.trans hle)
  · obtain hx | hle := htu.exportedIds hx
    · exact hst.exportedIds hx
    · exact .inr (hst.nextExportedId.trans hle)

variable {owner : NvMapOwner} {answer : Except NvMapStateError NvMapAnswer}
  {es : List (NvMapInput × Except NvMapStateError NvMapAnswer)}

theorem NvMapEffect.succeeds {s t : NvMapObjects} (h : NvMapEffect owner s t) : Succeeds s t := by
  cases h with
  | same => exact .refl s
  | create | imports =>
    refine ⟨Nat.le_succ _, Nat.le_refl _, fun hr ↦ ?_, .inl⟩
    obtain ⟨rfl, -⟩ | ⟨-, hr⟩ := getElem?_insert_eq_some_iff.mp hr
    · exact .inr (Nat.le_refl _)
    · exact .inl hr
  | allocate storage hresolves => exact ⟨Nat.le_refl _, Nat.le_refl _, .inl, .inl⟩
  | release hresolves hmany =>
    exact ⟨Nat.le_refl _, Nat.le_refl _, fun hr ↦ .inl (getElem?_erase_eq_some_iff.mp hr).2, .inl⟩
  | destroy hresolves hlast =>
    exact ⟨Nat.le_refl _, Nat.le_refl _, fun hr ↦ .inl (getElem?_erase_eq_some_iff.mp hr).2,
      fun hx ↦ .inl (NvMapInvariant.getElem?_releaseObject.mp hx).1⟩
  | exports hresolves hnew =>
    refine ⟨Nat.le_refl _, Nat.le_succ _, .inl, fun hx ↦ ?_⟩
    obtain ⟨rfl, -⟩ | ⟨-, hx⟩ := getElem?_insert_eq_some_iff.mp hx
    · exact .inr (Nat.le_refl _)
    · exact .inl hx

/-- A handle of another owner stays as it is, and so does its object. -/
theorem NvMapInvariant.foreign {s t : NvMapObjects} (hs : NvMapInvariant s)
    (h : NvMapEffect owner s t) {handle : Nat} {r : NvMapHandleRecord}
    (hr : s.handles[handle]? = some r) (howner : r.owner ≠ owner) :
    t.handles[handle]? = some r ∧ t.objects[r.objectId]? = s.objects[r.objectId]? := by
  obtain ⟨hlt, record, hrecord, hsame⟩ := hs.handle hr
  have hobject {id : Nat} {record' : NvMapObjectRecord} (hid : s.objects[id]? = some record')
      (howner' : record'.owner = owner) : r.objectId ≠ id := by
    rintro rfl
    cases hrecord.symm.trans hid
    exact howner (hsame.symm.trans howner')
  have hresolved {handle' id : Nat} {record' : NvMapObjectRecord}
      (hresolves : s.Resolves owner handle' id record') : handle ≠ handle' ∧ r.objectId ≠ id := by
    obtain ⟨-, record'', hrecord'', howner'⟩ := hs.handle hresolves.handle
    refine ⟨?_, hobject hrecord'' howner'⟩
    rintro rfl
    cases hr.symm.trans hresolves.handle
    exact howner rfl
  cases h with
  | same => exact ⟨hr, rfl⟩
  | create size =>
    exact ⟨(getElem?_insert_of_ne (Nat.ne_of_lt hlt)).trans hr,
      getElem?_insert_of_ne (Nat.ne_of_lt (hs.object hrecord).1)⟩
  | imports _ hid howner' =>
    exact ⟨(getElem?_insert_of_ne (Nat.ne_of_lt hlt)).trans hr,
      getElem?_insert_of_ne (hobject hid howner')⟩
  | allocate _ hresolves | exports hresolves =>
    exact ⟨hr, getElem?_insert_of_ne (hresolved hresolves).2⟩
  | release hresolves hmany =>
    exact ⟨(getElem?_erase_of_ne (hresolved hresolves).1).trans hr,
      getElem?_insert_of_ne (hresolved hresolves).2⟩
  | destroy hresolves hlast =>
    exact ⟨(getElem?_erase_of_ne (hresolved hresolves).1).trans hr,
      getElem?_erase_of_ne (hresolved hresolves).2⟩

/-! ## Runs -/

abbrev nvMapMachine : Machine NvMapObjects NvMapInput (Except NvMapStateError NvMapAnswer) :=
  Method.machine NvMapInput.run

variable {s t : NvMapObjects}

/-- With nothing in the maps the counters may be anything. -/
theorem NvMapInvariant.empty (nextObjectId nextHandle nextExportedId : Nat) :
    NvMapInvariant { nextObjectId, nextHandle, nextExportedId } := by
  refine ⟨fun {h r} hr ↦ ?_, fun {o r} hr ↦ ?_, fun {e x} hx ↦ ?_, fun {o e r} hr ↦ ?_⟩
  · cases (ExtTreeMap.getElem?_empty (α := Nat)).symm.trans hr
  · cases (ExtTreeMap.getElem?_empty (α := Nat)).symm.trans hr
  · cases (ExtTreeMap.getElem?_empty (α := Nat)).symm.trans hx
  · cases (ExtTreeMap.getElem?_empty (α := Nat)).symm.trans hr

/-- A call either is permitted and has its effect, or it fails and changes nothing. -/
theorem nvMapMachine_call {call : NvMapCall}
    (h : nvMapMachine s (.call owner call) = some (answer, t)) :
    NvMapEffect owner s t ∧ (call.Permitted s owner ∨ t = s ∧ ∃ e, answer = .error e) := by
  obtain ⟨b, -, hrun⟩ | ⟨e, rfl, hrun⟩ := Method.machine_eq_some_iff.mp h
  · obtain ⟨heffect, hpermitted⟩ := ok_of_wp call.run_spec hrun
    exact ⟨heffect, .inl hpermitted⟩
  · obtain rfl := err_of_wp call.run_spec hrun
    exact ⟨.same, .inr ⟨rfl, e, rfl⟩⟩

theorem nvMapMachine_step {input : NvMapInput} (hs : NvMapInvariant s)
    (h : nvMapMachine s input = some (answer, t)) : NvMapInvariant t ∧ Succeeds s t := by
  cases input with
  | call owner call =>
    have heffect := (nvMapMachine_call h).1
    exact ⟨hs.effect heffect, heffect.succeeds⟩
  | clear =>
    cases h
    refine ⟨.empty _ _ _, Nat.le_refl _, Nat.le_refl _, fun {h r} hr ↦ ?_, fun {e x} hx ↦ ?_⟩
    · cases (ExtTreeMap.getElem?_empty (α := Nat)).symm.trans hr
    · cases (ExtTreeMap.getElem?_empty (α := Nat)).symm.trans hx

theorem NvMapInvariant.run (hs : NvMapInvariant s) (hrun : nvMapMachine.Run s es t) :
    NvMapInvariant t :=
  hrun.invariant (fun _ _ _ _ hs h ↦ (nvMapMachine_step hs h).1) hs

theorem NvMapInvariant.succeeds (hs : NvMapInvariant s) (hrun : nvMapMachine.Run s es t) :
    Succeeds s t := by
  induction hrun with
  | nil s => exact .refl s
  | cons h _ ih =>
    obtain ⟨ht, hsucceeds⟩ := nvMapMachine_step hs h
    exact hsucceeds.trans (ih ht)

/-- The exported id leads to the object. -/
def NvMapObjects.Exports (s : NvMapObjects) (e : NvMapExportedId) (id : NvMapObjectId) : Prop :=
  ∃ x : NvMapExportedIdRecord, s.exportedIds[e]? = some x ∧ x.objectId = id

/-- The exported id is the one in the record of the object. -/
def NvMapObjects.ExportedAs (s : NvMapObjects) (id : NvMapObjectId) (e : NvMapExportedId) : Prop :=
  ∃ record : NvMapObjectRecord, s.objects[id]? = some record ∧ record.exportedId = some e

theorem NvMapInvariant.exports_iff (hs : NvMapInvariant s) {e id : Nat} :
    s.Exports e id ↔ s.ExportedAs id e := by
  constructor
  · rintro ⟨x, hx, rfl⟩
    exact (hs.exported hx).2
  · rintro ⟨record, hrecord, he⟩
    exact hs.exporter hrecord he

theorem NvMapInvariant.live_iff (hs : NvMapInvariant s) {id : Nat} :
    id ∈ s.objects ↔ 1 ≤ s.handleCount id := by
  rw [ExtTreeMap.mem_iff_isSome_getElem?, isSome_iff_exists]
  constructor
  · rintro ⟨record, hrecord⟩
    obtain ⟨-, hrefs, hpos⟩ := hs.object hrecord
    exact hrefs ▸ hpos
  · intro hcount
    by_contra hnone
    have := hs.handleCount_eq_zero (eq_none_iff_forall_ne_some.mpr (not_exists.mp hnone))
    omega

/-- **References and identity.** In every state that is reached by calls of any owners, the
reference count of an object is the number of handles that name it, an object is there as long as
there is such a handle, and exported ids and exported objects correspond one to one. Later, no
handle and no exported id in use leads to another object, and no call of one owner changes, or is
answered for, a handle of another. -/
theorem nvmap_references {es : List (NvMapInput × Except NvMapStateError NvMapAnswer)}
    (hrun : nvMapMachine.Run {} es s) :
    (∀ (id : Nat) record, s.objects[id]? = some record →
      record.handleReferences = s.handleCount id) ∧
    (∀ id, id ∈ s.objects ↔ 1 ≤ s.handleCount id) ∧
    (∀ e id, s.Exports e id ↔ s.ExportedAs id e) ∧
    (∀ e e' id, s.Exports e id → s.Exports e' id → e' = e) ∧
    (∀ es' t, nvMapMachine.Run s es' t →
      (∀ (h : Nat) r r', s.handles[h]? = some r → t.handles[h]? = some r' → r' = r) ∧
      ∀ e id id', s.Exports e id → t.Exports e id' → id' = id) ∧
    ∀ owner call answer t, nvMapMachine s (.call owner call) = some (answer, t) →
      (∀ (h : Nat) r, s.handles[h]? = some r → r.owner ≠ owner →
        t.handles[h]? = some r ∧ t.objects[r.objectId]? = s.objects[r.objectId]?) ∧
      (¬call.Permitted s owner → t = s ∧ ∃ e, answer = .error e) := by
  have hs : NvMapInvariant s := (NvMapInvariant.empty 1 1 1).run hrun
  refine ⟨fun id record hrecord ↦ (hs.object hrecord).2.1, fun id ↦ hs.live_iff,
    fun e id ↦ hs.exports_iff, fun e e' id he he' ↦ ?_, fun es' t hlater ↦ ?_,
    fun owner call answer t hstep ↦ ?_⟩
  · obtain ⟨record, hrecord, he⟩ := hs.exports_iff.mp he
    obtain ⟨record', hrecord', he'⟩ := hs.exports_iff.mp he'
    cases hrecord.symm.trans hrecord'
    exact Option.some.inj (he'.symm.trans he)
  · have hsucceeds := hs.succeeds hlater
    refine ⟨fun h r r' hr hr' ↦ ?_, ?_⟩
    · obtain hold | hnew := hsucceeds.handles hr'
      · exact Option.some.inj (hold.symm.trans hr)
      · exact absurd (hs.handle hr).1 (Nat.not_lt.mpr hnew)
    · rintro e id id' ⟨x, hx, rfl⟩ ⟨x', hx', rfl⟩
      obtain hold | hnew := hsucceeds.exportedIds hx'
      · rw [Option.some.inj (hold.symm.trans hx)]
      · exact absurd (hs.exported hx).1 (Nat.not_lt.mpr hnew)
  · obtain ⟨heffect, hanswer⟩ := nvMapMachine_call hstep
    exact ⟨fun h r hr howner ↦ hs.foreign heffect hr howner, hanswer.resolve_left⟩

/-- Two owners: a shared object of the first, and a call of the second on it. -/
theorem nvmap_references_shared :
    ∃ es s, nvMapMachine.Run {} es s ∧ s.handleCount 1 = 2 ∧
      (∀ (id : Nat) record, s.objects[id]? = some record →
        record.handleReferences = s.handleCount id) ∧
      ∀ answer t, nvMapMachine s (.call 8 (.free 1)) = some (answer, t) → t = s := by
  have hexec : ∃ r ∈ nvMapMachine.exec {} [.call 7 (.create 4096), .call 7 (.exportedId 1),
      .call 7 (.import 1)], r.2.handleCount 1 = 2 ∧ r.2.handles[1]? = some ⟨1, 7⟩ := by
    decide +kernel
  obtain ⟨es, s, hrun, -, hcount, hhandle⟩ := Machine.exists_run_of_exec hexec
  obtain ⟨hrefs, -, -, -, -, hcalls⟩ := nvmap_references hrun
  refine ⟨es, s, hrun, hcount, hrefs, fun answer t hstep ↦ ((hcalls _ _ _ _ hstep).2 ?_).1⟩
  rintro ⟨record, hrecord, howner⟩
  cases hhandle.symm.trans hrecord
  cases howner

end Nixe.Nvdrv
