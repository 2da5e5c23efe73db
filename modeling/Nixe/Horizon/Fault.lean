import Nixe.Memory.Contracts

/-!
# Results and faults of supervisor calls

A supervisor call ends with a result that the guest sees in a register, or with a fault that stops
the host. `HorizonSvcFault.guestResult` draws the line: a fault with a guest result may be handed
to `reject`, which panics on any other.
-/

namespace Nixe.Horizon

open Memory

inductive HorizonKernelResult where
  | success
  | notImplemented
  | outOfSessions
  | threadTerminating
  | invalidHandle
  | invalidPointer
  | invalidAddress
  | invalidSize
  | invalidCurrentMemory
  | invalidMemoryRegion
  | outOfResource
  | timedOut
  | cancelled
  | outOfRange
  | invalidState
  | resourceLimit
  | notSupported
  | notFound
  | sessionClosed
  | portClosed
  | outOfHandles
  | invalidCombination
deriving DecidableEq, Repr

/-- The number the guest sees. -/
def HorizonKernelResult.raw : HorizonKernelResult → Nat
  | success => 0
  | notImplemented => 0x4201
  | outOfSessions => 0x0e01
  | threadTerminating => 0x7601
  | invalidHandle => 0xe401
  | invalidPointer => 0xe601
  | invalidAddress => 0xcc01
  | invalidSize => 0xca01
  | invalidCurrentMemory => 0xd401
  | invalidMemoryRegion => 0xdc01
  | outOfResource => 0xce01
  | timedOut => 0xea01
  | cancelled => 0xec01
  | outOfRange => 0xee01
  | invalidState => 0xfa01
  | resourceLimit => 0x10801
  | notSupported => 0xfe01
  | notFound => 0xf201
  | sessionClosed => 0xf601
  | portClosed => 0x10601
  | outOfHandles => 0xd201
  | invalidCombination => 0xe801

/-- The faults that the modelled handlers raise. -/
inductive HorizonSvcFault where
  | guestMemory (immediate : Nat) (fault : DataAccessFault)
  | invalidMemoryPermission (raw : Nat)
  | invalidMemoryState (immediate address : Nat) (purpose : MemoryMappingPurpose)
  | memoryProtection (fault : MemoryProtectionError)
  | memoryMapping (fault : MemoryMappingError)
  | memoryAlias (fault : MemoryAliasError)
  | canonicalMemory (immediate : Nat) (fault : CanonicalRangeTranslationError)
  | internalRuntime (operation : String)
deriving DecidableEq, Repr

namespace HorizonSvcFault

/-- The result exposed to the guest, if the failure is recoverable. -/
def guestResult : HorizonSvcFault → Option HorizonKernelResult
  | guestMemory _ fault =>
    match fault.reason with
    | .contentGenerationExhausted | .hostBacking _ => none
    | _ => some .invalidPointer
  | invalidMemoryPermission _ | invalidMemoryState .. => some .invalidState
  | memoryProtection fault =>
    match fault.reason with
    | .invalidRange | .unmapped => some .invalidAddress
    | .writableExecutable | .unsupportedPermissions | .permissionLocked => some .invalidState
    | .generationExhausted => none
  | memoryMapping fault =>
    match fault.reason with
    | .invalidRange | .alreadyMapped | .mappingStateMismatch => some .invalidAddress
    | .writableExecutable => some .invalidState
    | .resourceExhausted => some .resourceLimit
    | .generationExhausted => none
  | memoryAlias fault =>
    match fault.reason with
    | .invalidRange | .sourceStateMismatch | .destinationStateMismatch =>
      some .invalidCurrentMemory
    | .physicalIdentityMismatch => some .invalidMemoryRegion
    | .resourceExhausted => some .outOfResource
    | .generationExhausted => none
  | canonicalMemory .. | internalRuntime _ => none

end HorizonSvcFault

end Nixe.Horizon
