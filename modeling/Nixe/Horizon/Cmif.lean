import Nixe.Effect.Method
import Nixe.Horizon.Hipc

/-!
# The CMIF framing layer

The data words of a HIPC message carry a CMIF message, from the first multiple of sixteen bytes
on: a request starts with an input header, and in a domain session with a domain header that
names the object it is for and the objects it passes. A response has a header of its own, with
the result of the command, followed by the payload and the ids of the objects it returns.

The encoder of responses fixes every offset before it writes: it allocates a zeroed buffer of the
final size and puts each part into its place. Writing outside the buffer is an error, and for the
payload a panic.
-/

namespace Nixe.Horizon

open Method

/-! ## Command types -/

def cmifInMagic : Nat := 0x49434653
def cmifOutMagic : Nat := 0x4f434653
def cmifCommandLegacyRequest : Nat := 1
def cmifCommandClose : Nat := 2
def cmifCommandLegacyControl : Nat := 3
def cmifCommandRequest : Nat := 4
def cmifCommandControl : Nat := 5
def cmifCommandRequestWithContext : Nat := 6
def cmifCommandControlWithContext : Nat := 7
def cmifDomainSendMessage : Nat := 1
def cmifDomainClose : Nat := 2
def maxDescriptorCount : Nat := 15
def maxHandleCount : Nat := 15

/-! ## Sizes -/

/-- `checked_mul` of the codec. -/
def mulOffset (left right : Nat) : Except MessageError Nat :=
  match checkedMul left right with
  | some product => .ok product
  | none => .error "HIPC size calculation overflows"

/-- Round up to a multiple of `alignment`, a power of two. -/
def alignUp (value alignment : Nat) : Except MessageError Nat :=
  match checkedAdd value (alignment - 1) with
  | some sum => .ok (sum / alignment * alignment)
  | none => .error "HIPC alignment overflows"

def boundedCount (count maximum : Nat) (reason : MessageError) : Except MessageError Unit :=
  if count ≤ maximum then .ok () else .error reason

def getU16 (bytes : List UInt8) (offset : Nat) : Except MessageError Nat :=
  getLittleEndian bytes offset 2 "truncated HIPC halfword"

/-! ## Requests -/

/-- The data words of the message in `raw`, from the first aligned byte on. -/
def HipcRequest.alignedData (raw : List UInt8) (request : HipcRequest) :
    Except MessageError (List UInt8) := do
  let start ← alignUp request.dataOffset 16
  if start ≤ request.dataEnd ∧ request.dataEnd ≤ raw.length then
    .ok ((raw.take request.dataEnd).drop start)
  else .error "aligned CMIF data exceeds HIPC data words"

def HipcRequest.dataWordBytes (request : HipcRequest) : Nat := request.dataEnd - request.dataOffset

inductive DomainRequest where
  | sendMessage (objectId : Nat) (inputObjects : List Nat)
  | close (objectId : Nat)
deriving DecidableEq, Repr

structure CmifRequest where
  commandType : Nat
  commandId : Nat
  token : Nat
  context : Option Nat
  data : List UInt8
  domain : Option DomainRequest
deriving DecidableEq, Repr

structure CmifInHeader where
  version : Nat
  commandId : Nat
  token : Nat

def decodeInHeader (bytes : List UInt8) (offset : Nat) : Except MessageError CmifInHeader := do
  let magic ← getU32 bytes offset
  if magic ≠ cmifInMagic then .error "invalid CMIF input-header magic"
  else do
    let version ← getU32 bytes (← addOffset offset 4)
    let commandId ← getU32 bytes (← addOffset offset 8)
    let token ← getU32 bytes (← addOffset offset 12)
    .ok { version := version, commandId := commandId, token := token }

def validateVersion (version : Nat) (hasContext : Bool) : Except MessageError Unit :=
  if version = hasContext.toNat then .ok ()
  else .error "CMIF input-header version does not match command type"

def CmifRequest.decodePlain (commandType : Nat) (bytes : List UInt8) :
    Except MessageError CmifRequest := do
  let header ← decodeInHeader bytes 0
  let hasContext := commandType == cmifCommandRequestWithContext ||
    commandType == cmifCommandControlWithContext
  validateVersion header.version hasContext
  if bytes.length < 16 then .error "truncated CMIF input header"
  else
    .ok { commandType := commandType
          commandId := header.commandId
          token := header.token
          context := if hasContext then some header.token else none
          data := bytes.drop 16
          domain := none }

/-- The byte at `offset`. -/
def getByte (bytes : List UInt8) (offset : Nat) (truncated : MessageError) :
    Except MessageError Nat :=
  match bytes[offset]? with
  | some byte => .ok byte.toNat
  | none => .error truncated

def CmifRequest.decodeSendMessage (commandType : Nat) (bytes : List UInt8)
    (inputObjectCount dataSize objectId domainToken : Nat) : Except MessageError CmifRequest :=
  if dataSize < 16 then .error "CMIF domain payload omits its input header"
  else do
    let payloadEnd ← addOffset 16 dataSize
    if bytes.length < payloadEnd then .error "CMIF domain payload exceeds HIPC data words"
    else do
      let header ← decodeInHeader bytes 16
      let hasContext := commandType == cmifCommandRequestWithContext
      validateVersion header.version hasContext
      if header.token ≠ 0 then .error "domain CMIF input-header token is nonzero"
      else do
        let (inputObjects, objectsEnd) ← decodeWords bytes payloadEnd inputObjectCount
        if bytes.length < objectsEnd then .error "CMIF domain object list exceeds data words"
        else
          .ok { commandType := commandType
                commandId := header.commandId
                token := domainToken
                context := if hasContext then some domainToken else none
                data := (bytes.take payloadEnd).drop 32
                domain := some (.sendMessage objectId inputObjects) }

def CmifRequest.decodeDomain (commandType : Nat) (bytes : List UInt8) :
    Except MessageError CmifRequest := do
  let domainType ← getByte bytes 0 "truncated CMIF domain header"
  let inputObjectCount ← getByte bytes 1 "truncated CMIF domain input-object count"
  let dataSize ← getU16 bytes 2
  let objectId ← getU32 bytes 4
  let padding ← getU32 bytes 8
  if padding ≠ 0 then .error "CMIF domain-header padding is nonzero"
  else do
    let domainToken ← getU32 bytes 12
    if domainType = cmifDomainClose then
      if inputObjectCount ≠ 0 ∨ dataSize ≠ 0 then
        .error "CMIF domain close contains payload or objects"
      else
        .ok { commandType := commandType
              commandId := 0
              token := 0
              context := none
              data := []
              domain := some (.close objectId) }
    else if domainType = cmifDomainSendMessage then
      decodeSendMessage commandType bytes inputObjectCount dataSize objectId domainToken
    else .error "invalid CMIF domain request type"

/-- `CmifRequest::decode` of the message in `raw`, which the HIPC layer decoded to `hipc`. -/
def CmifRequest.decode (raw : List UInt8) (hipc : HipcRequest) (isDomain : Bool) :
    Except MessageError CmifRequest :=
  let commandType := hipc.commandType
  if commandType = cmifCommandClose then
    -- a domain session too is closed by the plain message; an object of it by a domain header
    if hipc.dataWordBytes ≠ 0 then .error "CMIF session close contains data words"
    else
      .ok { commandType := commandType
            commandId := 0
            token := 0
            context := none
            data := []
            domain := none }
  else if commandType ∉ [cmifCommandLegacyRequest, cmifCommandLegacyControl, cmifCommandRequest,
      cmifCommandControl, cmifCommandRequestWithContext, cmifCommandControlWithContext] then
    .error "unsupported HIPC command type for CMIF"
  else do
    let dataWords ← hipc.alignedData raw
    if isDomain = true ∧
        commandType ∈ [cmifCommandRequest, cmifCommandRequestWithContext] then
      decodeDomain commandType dataWords
    else decodePlain commandType dataWords

/-! ## Responses -/

/-- The descriptor holds a `u64`, a `u16` and a `u8`. -/
structure SendStaticDescriptor.Fits (descriptor : SendStaticDescriptor) : Prop where
  address : descriptor.address < 2 ^ 64
  size : descriptor.size < 2 ^ 16
  index : descriptor.index < 2 ^ 8

structure CmifResponse where
  token : UInt32 := 0
  result : UInt32 := 0
  data : List UInt8 := []
  pid : Option UInt64 := none
  copyHandles : List UInt32 := []
  moveHandles : List UInt32 := []
  sendStatics : List SendStaticDescriptor := []
  isDomain : Bool := false
  domainObjects : List UInt32 := []
  sendStatics_fit : ∀ descriptor ∈ sendStatics, descriptor.Fits := by simp

/-- The sizes and offsets that `encode` computes before it writes. -/
structure ResponseLayout where
  hasSpecial : Bool
  dataOffset : Nat
  dataStart : Nat
  dataWords : Nat
  total : Nat

def CmifResponse.hasSpecial (response : CmifResponse) : Bool :=
  response.pid.isSome || !response.copyHandles.isEmpty || !response.moveHandles.isEmpty

def CmifResponse.specialSize (response : CmifResponse) : Except MessageError Nat := do
  if response.hasSpecial then
    let handles ← mulOffset (response.copyHandles.length + response.moveHandles.length) 4
    .ok (4 + response.pid.isSome.toNat * 8 + handles)
  else .ok 0

def CmifResponse.layout (response : CmifResponse) : Except MessageError ResponseLayout := do
  if !response.isDomain && !response.domainObjects.isEmpty then
    .error "non-domain CMIF response contains domain objects"
  else do
    boundedCount response.copyHandles.length maxHandleCount "too many copied handles"
    boundedCount response.moveHandles.length maxHandleCount "too many moved handles"
    boundedCount response.sendStatics.length maxDescriptorCount "too many send statics"
    let specialSize ← response.specialSize
    let descriptorSize ← mulOffset response.sendStatics.length 8
    let dataOffset ← addOffset 8 (← addOffset specialSize descriptorSize)
    let dataStart ← alignUp dataOffset 16
    let domainHeaderSize := response.isDomain.toNat * 16
    let headers ← addOffset domainHeaderSize 16
    let bodySize ← addOffset headers
      (← addOffset response.data.length (← mulOffset response.domainObjects.length 4))
    let dataWordBytes ← alignUp (← addOffset 16 bodySize) 4
    if 0x3ff < dataWordBytes / 4 then .error "CMIF response exceeds HIPC data-word limit"
    else do
      let total ← addOffset dataOffset dataWordBytes
      if commandBufferSize < total then .error "CMIF response exceeds the TLS command buffer"
      else
        .ok { hasSpecial := response.hasSpecial
              dataOffset := dataOffset
              dataStart := dataStart
              dataWords := dataWordBytes / 4
              total := total }

/-! ### Writing -/

/-- The output buffer is the receiver of what writes to it. -/
abbrev Writer : Type → Type := Method MessageError (List UInt8)

/-- `copy_from_slice` at `offset`. -/
def copyInto (values : List UInt8) (offset : Nat) (bytes : List UInt8) : List UInt8 :=
  bytes.take offset ++ values ++ bytes.drop (offset + values.length)

def putBytes (reason : MessageError) (offset : Nat) (values : List UInt8) : Writer Unit := do
  let last ← lift (addOffset offset values.length)
  failIf (last > (← read List.length)) reason
  update (copyInto values offset)

def putU32 (offset value : Nat) : Writer Unit :=
  putBytes "HIPC output word is out of bounds" offset (toLittleEndian 4 value)

def putU64 (offset value : Nat) : Writer Unit :=
  putBytes "HIPC output doubleword is out of bounds" offset (toLittleEndian 8 value)

/-- Write the entries of a table, each of `size` bytes; returns the end of the table. -/
def putEntries {α : Type} (put : Nat → α → Writer Unit) (size : Nat) :
    Nat → List α → Writer Nat
  | offset, [] => pure offset
  | offset, entry :: entries => do
    put offset entry
    putEntries put size (offset + size) entries

def putWord (offset : Nat) (word : UInt32) : Writer Unit := putU32 offset word.toNat

/-- The first word of the descriptor. -/
def SendStaticDescriptor.first (descriptor : SendStaticDescriptor) : Nat :=
  descriptor.index ||| ((descriptor.address >>> 36) % 0x40) <<< 6 |||
    ((descriptor.address >>> 32) % 0x10) <<< 12 ||| descriptor.size <<< 16

def encodeSendStatic (offset : Nat) (descriptor : SendStaticDescriptor) : Writer Unit := do
  failIf (descriptor.address >>> 42 ≠ 0 ∨ descriptor.index > 0x3f)
    "send-static descriptor field is out of range"
  putU32 offset descriptor.first
  putU32 (offset + 4) (descriptor.address % 2 ^ 32)

/-- The process id, if it is sent; returns its end. -/
def putPid (offset : Nat) : Option UInt64 → Writer Nat
  | some pid => do
    putU64 offset pid.toNat
    pure (offset + 8)
  | none => pure offset

/-- The special header and the handles after it; returns their end. -/
def CmifResponse.putSpecial (response : CmifResponse) (offset : Nat) : Writer Nat :=
  if response.hasSpecial then do
    putU32 offset (response.pid.isSome.toNat ||| response.copyHandles.length <<< 1 |||
      response.moveHandles.length <<< 5)
    let offset ← putPid (offset + 4) response.pid
    putEntries putWord 4 offset (response.copyHandles ++ response.moveHandles)
  else pure offset

/-- The domain header; returns the offset of the output header. -/
def CmifResponse.putDomainHeader (response : CmifResponse) (offset : Nat) : Writer Nat :=
  if response.isDomain then do
    failIf (2 ^ 32 ≤ response.domainObjects.length) "domain object count overflows"
    putU32 offset response.domainObjects.length
    pure (offset + 16)
  else pure offset

/-- `output[offset..last].copy_from_slice(data)`. -/
def copyPayload (offset last : Nat) (data : List UInt8) : Writer Unit := do
  assert (decide (last ≤ (← read List.length))) "range end index out of range for slice"
  update (copyInto data offset)

/-- The CMIF message, behind the domain header. -/
def CmifResponse.putMessage (response : CmifResponse) (offset : Nat) : Writer Unit := do
  putU32 offset cmifOutMagic
  putU32 (offset + 4) 0
  putU32 (offset + 8) response.result.toNat
  putU32 (offset + 12) response.token.toNat
  let payloadEnd ← lift (addOffset (offset + 16) response.data.length)
  copyPayload (offset + 16) payloadEnd response.data
  let _ ← putEntries putWord 4 payloadEnd response.domainObjects

/-- The part of `encode` that writes. -/
def CmifResponse.write (response : CmifResponse) (layout : ResponseLayout) : Writer Unit := do
  putU32 0 (response.sendStatics.length <<< 16)
  putU32 4 (layout.dataWords ||| layout.hasSpecial.toNat <<< 31)
  let offset ← response.putSpecial 8
  let offset ← putEntries encodeSendStatic 8 offset response.sendStatics
  assert (offset == layout.dataOffset) "the descriptors end at the data offset"
  let cmifOffset ← response.putDomainHeader layout.dataStart
  response.putMessage cmifOffset

/-- `CmifResponse::encode`; the receiver is the buffer that it returns. -/
def CmifResponse.encode (response : CmifResponse) : Writer Unit := do
  let layout ← lift response.layout
  update fun _ ↦ List.replicate layout.total 0
  response.write layout

end Nixe.Horizon
