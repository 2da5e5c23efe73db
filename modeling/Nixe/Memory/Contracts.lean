import Mathlib

/-!
# Contracts of guest memory

The value types that the memory backend and its clients share: permissions, attributes and
purposes of mappings, the results of queries, and the reasons for which an operation is refused.
A process has one address space, so its identity is left out.
-/

namespace Nixe.Memory

/-- `SYNTHETIC_PAGE_SIZE`. -/
def pageSize : Nat := 4096

structure MemoryPermissions where
  read : Bool
  write : Bool
  execute : Bool
deriving DecidableEq, Repr

namespace MemoryPermissions

/-- `NONE`. -/
def empty : MemoryPermissions := ⟨false, false, false⟩

def readOnly : MemoryPermissions := ⟨true, false, false⟩

def readWrite : MemoryPermissions := ⟨true, true, false⟩

def readExecute : MemoryPermissions := ⟨true, false, true⟩

def contains (p q : MemoryPermissions) : Bool :=
  (p.read || !q.read) && (p.write || !q.write) && (p.execute || !q.execute)

end MemoryPermissions

inductive MemoryMappingPurpose where
  | normal
  | codeStatic
  | codeMutable
  | moduleCodeStatic
  | moduleCodeMutable
  | threadLocal
  | stack
  | heap
  | sharedMemory
deriving DecidableEq, Repr

namespace MemoryMappingPurpose

def isCode : MemoryMappingPurpose → Bool
  | codeStatic | codeMutable | moduleCodeStatic | moduleCodeMutable => true
  | _ => false

def allowsReprotect : MemoryMappingPurpose → Bool
  | codeMutable | moduleCodeMutable | heap => true
  | _ => false

end MemoryMappingPurpose

/-- A part of one physical page, retained with the metadata of the mapping it was found by. -/
structure CanonicalBackingSegment where
  backing : Nat
  offset : Nat
  size : Nat
  permissions : MemoryPermissions
  mappingGeneration : Nat
deriving DecidableEq, Repr

structure CanonicalBackingRange where
  segments : List CanonicalBackingSegment
  size : Nat
deriving DecidableEq, Repr

/-! ## Refusals -/

inductive DataAccessKind where
  | read
  | write
deriving DecidableEq, Repr

inductive DataAccessFaultReason where
  | unmapped
  | readPermissionDenied
  | writePermissionDenied
  | misaligned (requiredAlignment : Nat)
  | addressOverflow
  | valueSizeMismatch
  | invalidAtomicAccess
  | atomicRegionUnsupported
  | mixedRegions
  | contentGenerationExhausted
  | hostBacking (detail : String)
  | device (detail : String)
  | injected (detail : String)
deriving DecidableEq, Repr

structure DataAccessFault where
  address : Nat
  kind : DataAccessKind
  reason : DataAccessFaultReason
deriving DecidableEq, Repr

inductive MemoryAliasErrorReason where
  | invalidRange
  | sourceStateMismatch
  | destinationStateMismatch
  | physicalIdentityMismatch
  | resourceExhausted
  | generationExhausted
deriving DecidableEq, Repr

structure MemoryAliasError where
  address : Nat
  reason : MemoryAliasErrorReason
deriving DecidableEq, Repr

inductive MemoryMappingErrorReason where
  | invalidRange
  | alreadyMapped
  | mappingStateMismatch
  | writableExecutable
  | resourceExhausted
  | generationExhausted
deriving DecidableEq, Repr

structure MemoryMappingError where
  address : Nat
  reason : MemoryMappingErrorReason
deriving DecidableEq, Repr

inductive MemoryProtectionErrorReason where
  | invalidRange
  | unmapped
  | writableExecutable
  | unsupportedPermissions
  | permissionLocked
  | generationExhausted
deriving DecidableEq, Repr

structure MemoryProtectionError where
  address : Nat
  reason : MemoryProtectionErrorReason
deriving DecidableEq, Repr

inductive CanonicalRangeTranslationErrorReason where
  | empty
  | addressOverflow
  | unmapped
  | permissionDenied
  | deviceMemory
  | inconsistentBacking
  | resourceExhausted
deriving DecidableEq, Repr

structure CanonicalRangeTranslationError where
  address : Nat
  reason : CanonicalRangeTranslationErrorReason
deriving DecidableEq, Repr

end Nixe.Memory
