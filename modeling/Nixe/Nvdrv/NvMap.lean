import Nixe.Effect.Machine
import Nixe.Effect.Word
import Nixe.Memory.Contracts
import Nixe.Collections.Tally

/-!
# nvmap objects

`NvMapObjects` of `nvmap.rs`: objects with the handles that name them and the ids under which they
are exported, each in a map of its own. Processes own their handles and objects, and every call
names the owner that makes it.

Image views are left out: they interpret the bytes of an object and do not take part in its life.
-/

namespace Nixe.Nvdrv

open Std Method Memory

abbrev NvMapOwner := Nat

abbrev NvMapHandle := Nat

abbrev NvMapObjectId := Nat

abbrev NvMapExportedId := Nat

inductive NvMapStateError where
  | badParameter
  | invalidState
  | alreadyAllocated
  | invalidBacking
  | invalidOwner
  deriving DecidableEq, Repr

/-! ## Allocations -/

def nvmapMinimumAlignment : Nat := 0x1000

def nvmapSystemHeapMask : BitVec 32 := 0x40000000

def nvmapReadWriteFlag : BitVec 32 := 1

def nvmapUncachedFlag : BitVec 32 := 1 <<< 1

def nvmapValidFlags : BitVec 32 := nvmapReadWriteFlag ||| nvmapUncachedFlag

def nvmapInvalidKind : Nat := 0xff

structure NvMapCpuMapping where
  addressSpace : Nat
  address : Nat
  deriving DecidableEq, Repr

structure NvMapAllocationMetadata where
  heapMask : BitVec 32
  flags : BitVec 32
  alignment : Nat
  kind : Nat
  deriving DecidableEq, Repr

namespace NvMapAllocationMetadata

/-- A request for no heap selects the system heap. -/
def new (heapMask flags : BitVec 32) (alignment kind : Nat) : NvMapAllocationMetadata :=
  ⟨if heapMask = 0 then nvmapSystemHeapMask else heapMask, flags, alignment, kind⟩

def cpuMappingPermissions (a : NvMapAllocationMetadata) : MemoryPermissions :=
  if a.flags &&& nvmapReadWriteFlag ≠ 0 then .readWrite else .readOnly

def validate (a : NvMapAllocationMetadata) : Except NvMapStateError Unit :=
  if a.heapMask ≠ nvmapSystemHeapMask ∨ a.flags &&& ~~~nvmapValidFlags ≠ 0 ∨
      a.alignment < nvmapMinimumAlignment ∨ isPowerOfTwo a.alignment = false ∨
      a.kind = nvmapInvalidKind then
    .error .badParameter
  else .ok ()

end NvMapAllocationMetadata

structure NvMapCanonicalStorage where
  allocation : NvMapAllocationMetadata
  cpuMapping : NvMapCpuMapping
  backing : CanonicalBackingRange
  deriving DecidableEq, Repr

structure NvMapObject where
  id : NvMapObjectId
  size : Nat
  storage : Option NvMapCanonicalStorage
  deriving DecidableEq, Repr

/-! ## The three maps -/

structure NvMapObjectRecord where
  object : NvMapObject
  owner : NvMapOwner
  handleReferences : Nat
  exportedId : Option NvMapExportedId
  deriving DecidableEq, Repr

structure NvMapHandleRecord where
  objectId : NvMapObjectId
  owner : NvMapOwner
  deriving DecidableEq, Repr

structure NvMapExportedIdRecord where
  objectId : NvMapObjectId
  owner : NvMapOwner
  deriving DecidableEq, Repr

structure NvMapObjects where
  nextObjectId : Nat := 1
  nextHandle : Nat := 1
  nextExportedId : Nat := 1
  objects : ExtTreeMap NvMapObjectId NvMapObjectRecord := ∅
  handles : ExtTreeMap NvMapHandle NvMapHandleRecord := ∅
  exportedIds : ExtTreeMap NvMapExportedId NvMapExportedIdRecord := ∅

structure NvMapFreeResult where
  address : Nat
  size : Nat
  flags : Nat
  deriving DecidableEq, Repr

abbrev NvMapMethod := Method NvMapStateError NvMapObjects

/-- `u32::checked_add(1)` -/
def checkedSucc32 (a : Nat) : Option Nat := if a + 1 < 2 ^ 32 then some (a + 1) else none

namespace NvMapObjects

def putObject (id : NvMapObjectId) (record : NvMapObjectRecord) (s : NvMapObjects) :
    NvMapObjects :=
  { s with objects := s.objects.insert id record }

def putHandle (handle : NvMapHandle) (record : NvMapHandleRecord) (next : Nat)
    (s : NvMapObjects) : NvMapObjects :=
  { s with handles := s.handles.insert handle record, nextHandle := next }

variable (owner : NvMapOwner) (handle : NvMapHandle)

/-- The check of the handle that every call on one begins with. -/
def ownedHandle : NvMapMethod NvMapHandleRecord := do
  let record ← okOr (← read fun s ↦ s.handles[handle]?) .badParameter
  failIf (record.owner ≠ owner) .invalidOwner
  return record

/-- `object_by_owned_handle` -/
def objectByOwnedHandle : NvMapMethod NvMapObject := do
  let handleRecord ← ownedHandle owner handle
  let record ← okOr (← read fun s ↦ s.objects[handleRecord.objectId]?) .invalidState
  failIf (record.owner ≠ owner) .invalidOwner
  return record.object

def create (size : Nat) : NvMapMethod NvMapHandle := do
  failIf (size = 0) .badParameter
  let objectId ← read nextObjectId
  let next ← okOr (checkedAdd objectId 1) .invalidState
  let handle ← read nextHandle
  let nextHandle ← okOr (checkedSucc32 handle) .invalidState
  update (putObject objectId ⟨⟨objectId, size, none⟩, owner, 1, none⟩)
  update (putHandle handle ⟨objectId, owner⟩ nextHandle)
  update fun s ↦ { s with nextObjectId := next }
  return handle

def «import» (exportedId : NvMapExportedId) : NvMapMethod NvMapHandle := do
  let exported ← okOr (← read fun s ↦ s.exportedIds[exportedId]?) .badParameter
  failIf (exported.owner ≠ owner) .invalidOwner
  let handle ← read nextHandle
  let nextHandle ← okOr (checkedSucc32 handle) .invalidState
  let record ← okOr (← read fun s ↦ s.objects[exported.objectId]?) .invalidState
  failIf (record.owner ≠ owner) .invalidOwner
  let references ← okOr (checkedSucc32 record.handleReferences) .invalidState
  update (putObject exported.objectId { record with handleReferences := references })
  update (putHandle handle ⟨exported.objectId, owner⟩ nextHandle)
  return handle

def allocationSize : NvMapMethod Nat := do
  let object ← objectByOwnedHandle owner handle
  failIf (object.storage.isSome = true) .alreadyAllocated
  return object.size

/-- The handle is not looked at when the backing is empty. -/
def validateBacking (allocation : NvMapAllocationMetadata) (backing : CanonicalBackingRange) :
    NvMapMethod Unit := do
  failIf (backing.size = 0) .invalidBacking
  let object ← objectByOwnedHandle owner handle
  failIf (backing.size ≠ object.size ∨ backing.segments.any (fun segment ↦
    !segment.permissions.contains allocation.cpuMappingPermissions) = true) .invalidBacking

def allocate (allocation : NvMapAllocationMetadata) (cpuMapping : NvMapCpuMapping)
    (backing : CanonicalBackingRange) : NvMapMethod Unit := do
  lift allocation.validate
  validateBacking owner handle allocation backing
  let handleRecord ← ownedHandle owner handle
  let record ← okOr (← read fun s ↦ s.objects[handleRecord.objectId]?) .invalidState
  failIf (record.object.storage.isSome = true) .alreadyAllocated
  let storage : NvMapCanonicalStorage := ⟨allocation, cpuMapping, backing⟩
  update (putObject handleRecord.objectId
    { record with object := { record.object with storage := some storage } })

/-- The state after one of several handles is freed. -/
def releaseHandle (handle : NvMapHandle) (objectId : NvMapObjectId) (record : NvMapObjectRecord)
    (s : NvMapObjects) : NvMapObjects :=
  { s with
    objects := s.objects.insert objectId
      { record with handleReferences := record.handleReferences - 1 }
    handles := s.handles.erase handle }

/-- The state after the last handle is freed. -/
def releaseObject (handle : NvMapHandle) (objectId : NvMapObjectId) (record : NvMapObjectRecord)
    (s : NvMapObjects) : NvMapObjects :=
  { s with
    handles := s.handles.erase handle
    objects := s.objects.erase objectId
    exportedIds :=
      match record.exportedId with
      | some id => s.exportedIds.erase id
      | none => s.exportedIds }

def free : NvMapMethod NvMapFreeResult := do
  let handleRecord ← ownedHandle owner handle
  let objectId := handleRecord.objectId
  let record ← okOr (← read fun s ↦ s.objects[objectId]?) .invalidState
  failIf (record.owner ≠ owner) .invalidOwner
  let size := record.object.size
  if record.handleReferences > 1 then
    update (releaseHandle handle objectId record)
    return ⟨0, size, 0⟩
  else
    failIf (record.handleReferences ≠ 1) .invalidState
    let address := (record.object.storage.map (·.cpuMapping.address)).getD 0
    let flags := (record.object.storage.map fun storage ↦
      (decide (storage.allocation.flags &&& nvmapUncachedFlag ≠ 0)).toNat).getD 0
    update (releaseObject handle objectId record)
    return ⟨address, size, flags⟩

def parameter (parameter : Nat) : NvMapMethod Nat := do
  let object ← objectByOwnedHandle owner handle
  let allocation := object.storage.map (·.allocation)
  match parameter with
  | 1 => return object.size
  | 2 => return (allocation.map (·.alignment)).getD 0
  | 4 => return nvmapSystemHeapMask.toNat
  | 5 => return (allocation.map (·.kind)).getD 0
  | 6 => return 0
  | _ => fail .badParameter

/-- The state after an object gets its exported id. -/
def exportObject (exportedId next : Nat) (owner : NvMapOwner) (objectId : NvMapObjectId)
    (record : NvMapObjectRecord) (s : NvMapObjects) : NvMapObjects :=
  { s with
    exportedIds := s.exportedIds.insert exportedId ⟨objectId, owner⟩
    objects := s.objects.insert objectId { record with exportedId := some exportedId }
    nextExportedId := next }

def exportedId : NvMapMethod NvMapExportedId := do
  let handleRecord ← ownedHandle owner handle
  let objectId := handleRecord.objectId
  let record ← okOr (← read fun s ↦ s.objects[objectId]?) .invalidState
  match record.exportedId with
  | some exportedId => return exportedId
  | none =>
    let exportedId ← read nextExportedId
    let next ← okOr (checkedSucc32 exportedId) .invalidState
    update (exportObject exportedId next owner objectId record)
    return exportedId

/-- `object_by_handle` -/
def objectByHandle (s : NvMapObjects) (handle : NvMapHandle) : Option NvMapObject :=
  (s.handles[handle]?).bind fun record ↦ (s.objects[record.objectId]?).map (·.object)

/-- `object_by_exported_id` -/
def objectByExportedId (s : NvMapObjects) (exportedId : NvMapExportedId) : Option NvMapObject :=
  (s.exportedIds[exportedId]?).bind fun record ↦ (s.objects[record.objectId]?).map (·.object)

/-- The counters are not reset. -/
def clear : NvMapMethod Nat := do
  let released ← read (·.objects.size)
  update fun s ↦ { s with handles := ∅, exportedIds := ∅, objects := ∅ }
  return released

end NvMapObjects

/-! ## Calls -/

inductive NvMapCall where
  | create (size : Nat)
  | «import» (exportedId : NvMapExportedId)
  | allocationSize (handle : NvMapHandle)
  | allocate (handle : NvMapHandle) (allocation : NvMapAllocationMetadata)
      (cpuMapping : NvMapCpuMapping) (backing : CanonicalBackingRange)
  | free (handle : NvMapHandle)
  | parameter (handle : NvMapHandle) (parameter : Nat)
  | exportedId (handle : NvMapHandle)
  deriving DecidableEq, Repr

inductive NvMapAnswer where
  | handle (handle : NvMapHandle)
  | value (value : Nat)
  | freed (result : NvMapFreeResult)
  | exported (id : NvMapExportedId)
  | done
  deriving DecidableEq, Repr

def NvMapCall.run (owner : NvMapOwner) : NvMapCall → NvMapMethod NvMapAnswer
  | .create size => return .handle (← NvMapObjects.create owner size)
  | .import id => return .handle (← NvMapObjects.import owner id)
  | .allocationSize h => return .value (← NvMapObjects.allocationSize owner h)
  | .allocate h allocation cpuMapping backing => do
    NvMapObjects.allocate owner h allocation cpuMapping backing
    return .done
  | .free h => return .freed (← NvMapObjects.free owner h)
  | .parameter h p => return .value (← NvMapObjects.parameter owner h p)
  | .exportedId h => return .exported (← NvMapObjects.exportedId owner h)

/-- What happens to the objects: a call of an owner, or the end of the client. -/
inductive NvMapInput where
  | call (owner : NvMapOwner) (call : NvMapCall)
  | clear
  deriving DecidableEq, Repr

def NvMapInput.run : NvMapInput → NvMapMethod NvMapAnswer
  | .call owner request => request.run owner
  | .clear => return .value (← NvMapObjects.clear)

end Nixe.Nvdrv
