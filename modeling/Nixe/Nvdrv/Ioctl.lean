import Nixe.Collections.Bytes

/-!
# Calls of the NVIDIA driver

Descriptors, errors and the little-endian words of an ioctl's input and output.
-/

namespace Nixe.Nvdrv

abbrev NvDrvFileDescriptor := Nat

structure NvDrvDescriptorOwner where
  session : Nat
  processId : Nat
  deriving DecidableEq, Repr

inductive NvDrvDeviceKind where
  | nvMap
  | hostControl
  | hostControlGpu
  | hostAddressSpaceGpu
  | hostGpu
  deriving DecidableEq, Repr

/-- The permission profile and the lifecycle have one value each and are left out. -/
structure NvDrvDeviceDescriptor where
  fd : NvDrvFileDescriptor
  kind : NvDrvDeviceKind
  owner : NvDrvDescriptorOwner
  deriving DecidableEq, Repr

/-! ## Errors -/

def nvBadParameter : Nat := 4
def nvTimeout : Nat := 5
def nvInsufficientMemory : Nat := 6
def nvInvalidState : Nat := 8

/-- The reasons that the modelled calls give. -/
inductive NvDrvValidationReason where
  | unsupportedOperation
  | deviceStateUnavailable
  | timelineIdentityExhausted
  | timelineOrderingUnavailable
  deriving DecidableEq, Repr

structure NvDrvErrorContext where
  device : NvDrvDeviceKind
  request : BitVec 32
  fd : NvDrvFileDescriptor
  reason : NvDrvValidationReason
  deriving DecidableEq, Repr

inductive NvDrvCallError where
  | guestResult (code : Nat)
  | unsupported (context : NvDrvErrorContext)
  deriving DecidableEq, Repr

/-! ## Words -/

/-- `require_input_size` -/
def requireInputSize (input : List UInt8) (expected : Nat) : Except NvDrvCallError Unit :=
  if input.length = expected then .ok () else .error (.guestResult nvBadParameter)

/-- `input_u32` -/
def inputU32 (input : List UInt8) (offset : Nat) : Except NvDrvCallError (BitVec 32) :=
  if offset + 4 ≤ input.length then
    .ok (BitVec.ofNat 32 (fromLittleEndian ((input.drop offset).take 4)))
  else .error (.guestResult nvBadParameter)

/-- `sized_output` -/
def sizedOutput (input : List UInt8) (size : Nat) : List UInt8 :=
  input.take size ++ List.replicate (size - input.length) 0

/-- `write_u32` -/
def writeU32 (output : List UInt8) (offset : Nat) (value : BitVec 32) :
    Except NvDrvCallError (List UInt8) :=
  if offset + 4 ≤ output.length then
    .ok (output.take offset ++ toLittleEndian 4 value.toNat ++ output.drop (offset + 4))
  else .error (.guestResult nvBadParameter)

end Nixe.Nvdrv
