import Nixe.Collections.Bytes
import Nixe.Collections.Ordered
import Nixe.Effect.Method
import Nixe.Effect.Word

/-!
# Canonical pages

A page of guest RAM has one piece of host memory behind it, its canonical bytes, whatever number
of virtual mappings show it. Its *visibility* says who has the newest bytes: in `clean` and
`cpuNewer` these are the canonical bytes, in `gpuNewer` a device has them and the canonical bytes
are out of date until they are written back.

Three counters tell how a page has changed. The content generation counts the cold revisions,
the visibility epoch the transitions of authority, and the dirty epoch the first CPU writes after
an observer has armed the page: further writes do not count until it is armed again.

The CPU can also write a page without any call, through a *direct alias*: a host mapping of the
canonical bytes in the arena of an address space. The page sets the protection of its aliases.

Every operation is one step: while it waits for a coordinator nobody else operates on the page, so
that the epoch it compares afterwards is the one it read before.
-/

namespace Nixe.Memory

open Std Method

/-! ## Pages -/

inductive DirectProtection where
  | none
  | read
  | readWrite
deriving DecidableEq, Repr

/-- The key of `direct_aliases`: an arena and a guest address in it. -/
structure AliasKey where
  arena : Nat
  guestAddress : Nat
deriving DecidableEq, Repr

instance : Ord AliasKey where
  compare := compareLex (compareOn AliasKey.arena) (compareOn AliasKey.guestAddress)

instance : TransOrd AliasKey :=
  inferInstanceAs (TransCmp (compareLex (compareOn AliasKey.arena)
    (compareOn AliasKey.guestAddress)))

instance : LawfulEqOrd AliasKey where
  eq_of_compare h := eq_of_compareLex (fun ⟨_, _⟩ ⟨_, _⟩ ha hg ↦ by simp_all) h

structure CanonicalDirectAlias where
  maximumProtection : DirectProtection
  /-- The protection that the arena has for the alias. -/
  protection : DirectProtection
deriving DecidableEq, Repr

/-- `gpuNewer` is the state of any device, of which the GPU is one. -/
inductive PageVisibility where
  | clean
  | cpuNewer
  | gpuNewer (device visibleAt : Nat)
  | conflicting
  | invalid
deriving DecidableEq, Repr

/-- The canonical bytes are the newest. -/
def PageVisibility.CpuVisible : PageVisibility → Prop
  | clean | cpuNewer => True
  | _ => False

instance : DecidablePred PageVisibility.CpuVisible := fun v ↦ by
  cases v <;> unfold PageVisibility.CpuVisible <;> infer_instance

structure CanonicalBackingPage where
  identity : Nat
  size : Nat
  /-- Host memory is allocated when it is first needed; until then the page reads as zero. -/
  backing : Option (Nat → UInt8)
  generation : Nat
  cpuDirtyEpoch : Nat
  visibility : PageVisibility
  visibilityEpoch : Nat
  cpuDirtyObserverArmed : Bool
  directAliases : ExtTreeMap AliasKey CanonicalDirectAlias

namespace CanonicalBackingPage

def zeroed (identity size generation : Nat) : CanonicalBackingPage where
  identity := identity
  size := size
  backing := none
  generation := generation
  cpuDirtyEpoch := 0
  visibility := .clean
  visibilityEpoch := 0
  cpuDirtyObserverArmed := false
  directAliases := ∅

def initialized (identity : Nat) (bytes : List UInt8) (generation : Nat) : CanonicalBackingPage :=
  { zeroed identity bytes.length generation with backing := some (overwrite (fun _ ↦ 0) 0 bytes) }

def contents (p : CanonicalBackingPage) : Nat → UInt8 := p.backing.getD fun _ ↦ 0

/-- The page with `bytes` stored at `offset`. -/
def stored (offset : Nat) (bytes : List UInt8) (p : CanonicalBackingPage) : CanonicalBackingPage :=
  { p with backing := some (overwrite p.contents offset bytes) }

/-- The protection that the alias at `key`, if there is one, has. -/
def directProtection (p : CanonicalBackingPage) (key : AliasKey) : DirectProtection :=
  match p.directAliases[key]? with
  | some a => a.protection
  | none => .none

/-- The page whose aliases have been given new protections, where the host complies. -/
def protectAliases (p : CanonicalBackingPage) (complies : AliasKey → Bool)
    (protection : CanonicalDirectAlias → DirectProtection) : CanonicalBackingPage :=
  { p with
    directAliases := p.directAliases.map fun key a ↦
      if complies key then { a with protection := protection a } else a }

/-- The protection of an alias in `publish_direct_alias_protection_for`. -/
def aliasProtection (cpuVisible writeEnabled : Bool) (a : CanonicalDirectAlias) :
    DirectProtection :=
  match cpuVisible, a.maximumProtection with
  | false, _ => .none
  | true, .readWrite => if writeEnabled then .readWrite else .read
  | true, protection => protection

def invalidated (p : CanonicalBackingPage) : CanonicalBackingPage :=
  { p with visibility := .invalid }

end CanonicalBackingPage

/-! ## Errors and requests -/

inductive VisibilityError where
  | declarationDoesNotWrite
  | conflictingAccess
  | invalidState
  | coordinator (message : String)
  | resourceExhausted
  | incorrectWritebackSize (expected observed : Nat)
  | generationExhausted
  | hostMemory (detail : String)
  | visibilityEpochExhausted
  | cpuDirtyEpochExhausted
  | concurrentTransition
deriving DecidableEq, Repr

inductive CanonicalPageError where
  | invalidSize
  | invalidRange
  | resourceExhausted
  | staleGeneration (expected observed : Nat)
  | invalidGenerationTransition
  | cpuDirtyEpochExhausted
  | visibility (error : VisibilityError)
deriving DecidableEq, Repr

structure DeviceVisibilityRequest where
  page : Nat
  size : Nat
  device : Nat
  visibleAt : Nat
deriving DecidableEq, Repr

structure CpuVisibilityRequest where
  page : Nat
  size : Nat
  device : Nat
  visibleAt : Nat
deriving DecidableEq, Repr

inductive DeviceAccessKind where
  | read
  | write
  | readWrite
deriving DecidableEq, Repr

def DeviceAccessKind.writes : DeviceAccessKind → Bool
  | read => false
  | write | readWrite => true

/-- A device access with the points at which it must see the page and be seen. -/
structure DeviceAccessDeclaration where
  device : Nat
  kind : DeviceAccessKind
  deviceVisibleAt : Nat
  cpuVisibleAt : Option Nat
  writes_eq_isSome : kind.writes = cpuVisibleAt.isSome
  ordered : ∀ point ∈ cpuVisibleAt, deviceVisibleAt ≤ point

/-- What the host and the coordinators answer during one operation. -/
structure HostAnswers where
  /-- Memory can be allocated. -/
  allocates : Bool
  /-- The protection of an alias is changed as requested. The requests are made one after another
  up to the first that fails, so that some aliases have their new protection when a call fails. -/
  protects : AliasKey → Bool
  /-- The host has 128-bit atomic instructions. -/
  atomic128 : Bool
  /-- The log that records writes to executable content, if one observes the page, takes another
  record. -/
  reserves : Bool
  makeDeviceVisible : DeviceVisibilityRequest → List UInt8 → Except String Unit
  makeCpuVisible : CpuVisibilityRequest → Except String (List UInt8)

abbrev PageM : Type → Type := Method CanonicalPageError CanonicalBackingPage

abbrev VisibilityM : Type → Type := Method VisibilityError CanonicalBackingPage

/-! ## Transitions -/

section

variable (host : HostAnswers)

def publishDirectAliases (protection : CanonicalDirectAlias → DirectProtection) :
    VisibilityM Unit := do
  let refused ← read fun p ↦ p.directAliases.keys.any fun key ↦ !host.protects key
  update (·.protectAliases host.protects protection)
  failIf (refused = true) (.hostMemory "direct protection failed")

def publishDirectAliasProtectionFor (cpuVisible cpuWritable : Bool) : VisibilityM Unit := do
  let armed ← read (·.cpuDirtyObserverArmed)
  publishDirectAliases host
    (CanonicalBackingPage.aliasProtection cpuVisible (cpuVisible && cpuWritable && !armed))

def publishDirectAliasProtection : VisibilityM Unit := do
  let visibility ← read (·.visibility)
  publishDirectAliasProtectionFor host (decide visibility.CpuVisible)
    (decide (visibility = .cpuNewer))

def publishVisibility (visibility : PageVisibility) : VisibilityM Unit := do
  match checkedAdd (← read (·.visibilityEpoch)) 1 with
  | none => do
    update (·.invalidated)
    fail .visibilityEpochExhausted
  | some nextEpoch => do
    onErr (·.invalidated)
      (publishDirectAliasProtectionFor host (decide visibility.CpuVisible)
        (decide (visibility = .cpuNewer)))
    update fun p ↦ { p with visibility := visibility, visibilityEpoch := nextEpoch }

def revokeDirectAccess : VisibilityM Unit := do
  onErr (·.invalidated) (publishDirectAliases host fun _ ↦ .none)
  match checkedAdd (← read (·.visibilityEpoch)) 1 with
  | none => do
    update (·.invalidated)
    fail .visibilityEpochExhausted
  | some nextEpoch => update fun p ↦ { p with visibilityEpoch := nextEpoch }

/-- The first write after the page was armed is counted, and disarms it. -/
def publishCpuDirty : PageM Unit := do
  if (← read (·.cpuDirtyObserverArmed)) then do
    match checkedAdd (← read (·.cpuDirtyEpoch)) 1 with
    | none => do
      mapErr .visibility (revokeDirectAccess host)
      update (·.invalidated)
      fail .cpuDirtyEpochExhausted
    | some next => do
      update fun p ↦ { p with cpuDirtyObserverArmed := false, cpuDirtyEpoch := next }
      mapErr .visibility (publishDirectAliasProtection host)
  else pure ()

def requireCpuAuthority : VisibilityM Unit := do
  match (← read (·.visibility)) with
  | .clean | .cpuNewer => pure ()
  | .gpuNewer .. | .conflicting => do
    publishVisibility host .conflicting
    fail .conflictingAccess
  | .invalid => fail .invalidState

def ensureBacking : PageM Unit := do
  match (← read (·.backing)) with
  | some _ => pure ()
  | none => do
    failIf (host.allocates = false) .resourceExhausted
    update fun p ↦ { p with backing := some fun _ ↦ 0 }

def copyBytes (offset : Nat) (bytes : List UInt8) : PageM Unit := do
  let contents ← expect (← read (·.backing))
    "canonical writes materialize host backing during preflight"
  update fun p ↦ { p with backing := some (overwrite contents offset bytes) }

/-- The conversion of the errors of `publish_cpu_dirty` in `ensure_cpu_visible`. -/
def dirtyFailure : CanonicalPageError → VisibilityError
  | .visibility error => error
  | _ => .cpuDirtyEpochExhausted

/-- The end of `ensure_cpu_visible`, with the bytes of the device. -/
def storeWriteback (bytes : List UInt8) (nextGeneration : Nat) : VisibilityM Unit := do
  mapErr dirtyFailure (copyBytes 0 bytes)
  update fun p ↦ { p with generation := nextGeneration }
  mapErr dirtyFailure (publishCpuDirty host)
  publishVisibility host .clean

/-- `ensure_cpu_visible` for a page whose newest bytes a device has. -/
def writeBack (device visibleAt : Nat) : VisibilityM Unit := do
  match checkedAdd (← read (·.generation)) 1 with
  | none => do
    publishVisibility host .invalid
    fail .generationExhausted
  | some nextGeneration => do
    mapErr (fun _ ↦ .resourceExhausted) (ensureBacking host)
    let size ← read (·.size)
    match host.makeCpuVisible ⟨← read (·.identity), size, device, visibleAt⟩ with
    | .error message => do
      publishVisibility host .invalid
      fail (.coordinator message)
    | .ok bytes =>
      if bytes.length = size then storeWriteback host bytes nextGeneration
      else do
        publishVisibility host .invalid
        fail (.incorrectWritebackSize size bytes.length)

def ensureCpuVisible : VisibilityM Unit := do
  match (← read (·.visibility)) with
  | .clean | .cpuNewer => pure ()
  | .conflicting => fail .conflictingAccess
  | .invalid => fail .invalidState
  | .gpuNewer device visibleAt => writeBack host device visibleAt

/-! ## CPU accesses -/

def checkedEnd (offset size : Nat) : PageM Unit := do
  let limit ← read (·.size)
  failIf (limit < offset + size) .invalidRange

def prepareCpuAccess : PageM Unit := mapErr .visibility (ensureCpuVisible host)

/-- Take the authority for a CPU write, and count the write. -/
def takeCpuAuthority : PageM Unit := do
  mapErr .visibility (requireCpuAuthority host)
  if (← read (·.visibility)) = .clean then
    mapErr .visibility (publishVisibility host .cpuNewer)
    publishCpuDirty host
  else publishCpuDirty host

def prepareWrite : PageM Unit := do
  prepareCpuAccess host
  ensureBacking host
  mapErr .visibility (requireCpuAuthority host)

def prepareCpuWrite : PageM Unit := do
  prepareCpuAccess host
  ensureBacking host
  takeCpuAuthority host

def writeCpuPrepared (offset : Nat) (bytes : List UInt8) : PageM Unit := do
  checkedEnd offset bytes.length
  failIf ((← read (·.backing)).isNone = true) .resourceExhausted
  copyBytes offset bytes

/-- `prepare_cpu_write` and `write_cpu_prepared` as one step. -/
def writeCpu (offset : Nat) (bytes : List UInt8) : PageM Unit := do
  prepareCpuWrite host
  writeCpuPrepared offset bytes

def writePreflighted (offset : Nat) (bytes : List UInt8) (expected next : Nat) : PageM Unit := do
  checkedEnd offset bytes.length
  ensureBacking host
  failIf (checkedAdd expected 1 ≠ some next) .invalidGenerationTransition
  takeCpuAuthority host
  let observed ← read (·.generation)
  failIf (observed ≠ expected) (.staleGeneration expected observed)
  copyBytes offset bytes
  update fun p ↦ { p with generation := next }

def writeFragmentPreflighted (offset : Nat) (bytes : List UInt8) (generation : Nat) :
    PageM Unit := do
  checkedEnd offset bytes.length
  ensureBacking host
  takeCpuAuthority host
  let observed ← read (·.generation)
  failIf (observed ≠ generation) (.staleGeneration generation observed)
  copyBytes offset bytes

/-- `read`. The loop of the source ends after one write-back. -/
def readBytes (offset count : Nat) : PageM (List UInt8) := do
  checkedEnd offset count
  prepareCpuAccess host
  read fun p ↦ slice p.contents offset count

/-- `atomic_pointer`. Host memory is allocated in whole pages, so that an address is aligned when
its offset is. -/
def atomicPointer (offset size limit : Nat) : Except CanonicalPageError Unit :=
  let refuse := fun detail ↦ .error (.visibility (.hostMemory detail))
  if size ∉ [1, 2, 4, 8, 16] then refuse "unsupported host atomic width"
  else if size = 16 ∧ host.atomic128 = false then
    refuse "128-bit host atomics require CMPXCHG16B on x86-64"
  else if limit < offset + size then refuse "host atomic range is out of bounds"
  else if offset % size ≠ 0 then refuse "host atomic address is not naturally aligned"
  else .ok ()

def atomicLoad (offset size : Nat) : PageM Nat := do
  checkedEnd offset size
  prepareCpuAccess host
  ensureBacking host
  lift (atomicPointer host offset size (← read (·.size)))
  read fun p ↦ fromLittleEndian (slice p.contents offset size)

/-- Returns the value observed and whether it was replaced. -/
def atomicCompareExchange (offset size expected replacement : Nat) : PageM (Nat × Bool) := do
  checkedEnd offset size
  prepareCpuWrite host
  lift (atomicPointer host offset size (← read (·.size)))
  let observed ← read fun p ↦ fromLittleEndian (slice p.contents offset size)
  if observed = expected % 256 ^ size then do
    copyBytes offset (toLittleEndian size replacement)
    pure (observed, true)
  else pure (observed, false)

end

/-! ## Accesses while the CPU is quiescent -/

section

variable (host : HostAnswers)

def cpuVisibleQuiescent : PageM Bool := do
  match (← read (·.visibility)) with
  | .clean | .cpuNewer => pure true
  | .gpuNewer .. => pure false
  | .conflicting => fail (.visibility .conflictingAccess)
  | .invalid => fail (.visibility .invalidState)

/-- The canonical bytes have to be the newest. -/
def requireCpuVisibleQuiescent : PageM Unit := do
  match (← read (·.visibility)) with
  | .clean | .cpuNewer => pure ()
  | .gpuNewer .. => fail (.visibility .concurrentTransition)
  | .conflicting => fail (.visibility .conflictingAccess)
  | .invalid => fail (.visibility .invalidState)

def readQuiescent (offset count : Nat) : PageM (List UInt8) := do
  checkedEnd offset count
  requireCpuVisibleQuiescent
  read fun p ↦ slice p.contents offset count

/-- Arm the observer, which takes write access from the aliases. -/
def armObserver : PageM Unit := do
  if (← read (·.cpuDirtyObserverArmed)) then pure ()
  else do
    update fun p ↦ { p with cpuDirtyObserverArmed := true }
    onErr (fun p ↦ { p with cpuDirtyObserverArmed := false })
      (mapErr .visibility (publishDirectAliasProtection host))

def armCpuDirtyObserverQuiescent : PageM Nat := do
  ensureBacking host
  match (← read (·.visibility)) with
  | .conflicting => fail (.visibility .conflictingAccess)
  | .invalid => fail (.visibility .invalidState)
  | _ => do
    armObserver host
    read (·.cpuDirtyEpoch)

structure CanonicalWriteSnapshot where
  bytes : Nat → UInt8
  generation : Nat
  visibilityEpoch : Nat
  dirtyEpoch : Nat

def snapshotCpuWriteQuiescent : PageM CanonicalWriteSnapshot := do
  failIf (host.allocates = false) .resourceExhausted
  requireCpuVisibleQuiescent
  armObserver host
  read fun p ↦ ⟨p.contents, p.generation, p.visibilityEpoch, p.cpuDirtyEpoch⟩

/-! ## Aliases and devices -/

def directPageSize : Nat := 4096

def registerDirectAlias (key : AliasKey) (maximum : DirectProtection) : VisibilityM Unit := do
  failIf (key.guestAddress % directPageSize ≠ 0)
    (.hostMemory "direct alias guest address is not page aligned")
  update fun p ↦ { p with directAliases := p.directAliases.insert key ⟨maximum, .none⟩ }
  publishDirectAliasProtection host

def unregisterDirectAlias (key : AliasKey) : VisibilityM Unit :=
  update fun p ↦ { p with directAliases := p.directAliases.erase key }

/-- The end of `prepare_device_access`, for a page with the newest bytes. -/
def showDevice (declaration : DeviceAccessDeclaration) : VisibilityM Unit := do
  revokeDirectAccess host
  failIf (host.allocates = false) .resourceExhausted
  let p ← read id
  match host.makeDeviceVisible
      ⟨p.identity, p.size, declaration.device, declaration.deviceVisibleAt⟩
      (slice p.contents 0 p.size) with
  | .error message => do
    publishVisibility host .invalid
    fail (.coordinator message)
  | .ok () => publishVisibility host .clean

/-- `_ => { publish(Conflicting)?; return Err(ConflictingAccess) }`. -/
def publishConflict : VisibilityM Unit := do
  publishVisibility host .conflicting
  fail .conflictingAccess

def prepareDeviceAccess (declaration : DeviceAccessDeclaration) : VisibilityM Unit := do
  match (← read (·.visibility)) with
  | .gpuNewer device visibleAt =>
    if device = declaration.device ∧ visibleAt ≤ declaration.deviceVisibleAt then pure ()
    else publishConflict host
  | .conflicting => publishConflict host
  | .invalid => fail .invalidState
  | .clean | .cpuNewer => showDevice host declaration

def prepareResidentDeviceRead (declaration : DeviceAccessDeclaration) : VisibilityM Unit := do
  match (← read (·.visibility)) with
  | .clean => pure ()
  | .cpuNewer => do
    revokeDirectAccess host
    publishVisibility host .clean
  | .gpuNewer device visibleAt =>
    if device = declaration.device ∧ visibleAt ≤ declaration.deviceVisibleAt then pure ()
    else publishConflict host
  | .conflicting => publishConflict host
  | .invalid => fail .invalidState

def publishDeviceWrite (declaration : DeviceAccessDeclaration) : VisibilityM Unit := do
  let visibleAt ← okOr declaration.cpuVisibleAt .declarationDoesNotWrite
  failIf (host.reserves = false) .resourceExhausted
  revokeDirectAccess host
  match (← read (·.visibility)) with
  | .clean => publishVisibility host (.gpuNewer declaration.device visibleAt)
  | .gpuNewer device previous =>
    if device = declaration.device ∧ previous ≤ visibleAt then
      publishVisibility host (.gpuNewer declaration.device visibleAt)
    else publishConflict host
  | .cpuNewer | .conflicting => publishConflict host
  | .invalid => fail .invalidState

def invalidateVisibility : VisibilityM Unit := do
  revokeDirectAccess host
  publishVisibility host .invalid

end

/-! ## Operations as a whole -/

/-- The CPU loads through an alias. No code of the page runs: the host admits the access. -/
def nativeLoad (key : AliasKey) (offset count : Nat) : PageM (List UInt8) := do
  checkedEnd offset count
  failIf ((← read (·.directProtection key)) = .none) (.visibility (.hostMemory "access fault"))
  read fun p ↦ slice p.contents offset count

/-- The CPU stores through an alias. -/
def nativeStore (key : AliasKey) (offset : Nat) (bytes : List UInt8) : PageM Unit := do
  checkedEnd offset bytes.length
  failIf ((← read (·.directProtection key)) ≠ .readWrite) (.visibility (.hostMemory "access fault"))
  update (·.stored offset bytes)

/-- What can be done to one page. -/
inductive PageOperation where
  | read (offset count : Nat)
  | atomicLoad (offset size : Nat)
  | prepareCpuAccess
  | prepareWrite
  | resolveDirectWriteFault
  | writeCpu (offset : Nat) (bytes : List UInt8)
  | writePreflighted (offset : Nat) (bytes : List UInt8) (expected next : Nat)
  | writeFragmentPreflighted (offset : Nat) (bytes : List UInt8) (generation : Nat)
  | atomicCompareExchange (offset size expected replacement : Nat)
  | armCpuDirtyObserver
  | registerDirectAlias (key : AliasKey) (maximum : DirectProtection)
  | unregisterDirectAlias (key : AliasKey)
  | prepareDeviceAccess (declaration : DeviceAccessDeclaration)
  | prepareResidentDeviceRead (declaration : DeviceAccessDeclaration)
  /-- The device has the bytes `memory` for the page. -/
  | publishDeviceWrite (declaration : DeviceAccessDeclaration) (memory : Nat → UInt8)
  | invalidateVisibility
  | nativeLoad (key : AliasKey) (offset count : Nat)
  | nativeStore (key : AliasKey) (offset : Nat) (bytes : List UInt8)

inductive PageReply where
  | done
  | bytes (bytes : List UInt8)
  | value (value : Nat)
  | exchanged (observed : Nat) (replaced : Bool)
deriving DecidableEq, Repr

/-- Call a method that returns nothing. -/
def PageReply.of (m : PageM Unit) : PageM PageReply := do
  m
  pure .done

namespace PageOperation

open PageReply (of)

def run (host : HostAnswers) : PageOperation → PageM PageReply
  | read offset count => do
    let reply ← readBytes host offset count
    pure (.bytes reply)
  | atomicLoad offset size => do
    let reply ← Memory.atomicLoad host offset size
    pure (.value reply)
  | prepareCpuAccess => of (Memory.prepareCpuAccess host)
  | prepareWrite => of (Memory.prepareWrite host)
  | resolveDirectWriteFault => of (prepareCpuWrite host)
  | writeCpu offset bytes => of (Memory.writeCpu host offset bytes)
  | writePreflighted offset bytes expected next =>
    of (Memory.writePreflighted host offset bytes expected next)
  | writeFragmentPreflighted offset bytes generation =>
    of (Memory.writeFragmentPreflighted host offset bytes generation)
  | atomicCompareExchange offset size expected replacement => do
    let reply ← Memory.atomicCompareExchange host offset size expected replacement
    pure (.exchanged reply.1 reply.2)
  | armCpuDirtyObserver => do
    let epoch ← armCpuDirtyObserverQuiescent host
    pure (.value epoch)
  | registerDirectAlias key maximum =>
    of (mapErr .visibility (Memory.registerDirectAlias host key maximum))
  | unregisterDirectAlias key => of (mapErr .visibility (Memory.unregisterDirectAlias key))
  | prepareDeviceAccess declaration =>
    of (mapErr .visibility (Memory.prepareDeviceAccess host declaration))
  | prepareResidentDeviceRead declaration =>
    of (mapErr .visibility (Memory.prepareResidentDeviceRead host declaration))
  | publishDeviceWrite declaration _ =>
    of (mapErr .visibility (Memory.publishDeviceWrite host declaration))
  | invalidateVisibility => of (mapErr .visibility (Memory.invalidateVisibility host))
  | nativeLoad key offset count => do
    let reply ← Memory.nativeLoad key offset count
    pure (.bytes reply)
  | nativeStore key offset bytes => of (Memory.nativeStore key offset bytes)

end PageOperation

end Nixe.Memory
