import Nixe.Maxwell.Resolution

/-!
# GPFIFO submissions

A channel is fed with GPFIFO entries of two words, each of which names a pushbuffer by its address
and its number of words. The decoder checks that the pushbuffer is inside the address width, but it
adds the whole size to the address and wants the sum to be an address too. So it refuses a
pushbuffer that ends at the top of the address space, which `resolve_range` resolves.
-/

namespace Nixe.Maxwell

open Std Method Machine Memory GpuVirtualAddress

/-! ## Descriptors -/

/-- A descriptor of a pushbuffer. -/
structure EntryWords where
  word0 : UInt32
  word1 : UInt32
deriving DecidableEq, Repr

/-- `u32::from_le_bytes`. -/
def fromLeBytes (b₀ b₁ b₂ b₃ : UInt8) : UInt32 :=
  b₀.toUInt32 ||| b₁.toUInt32 <<< 8 ||| b₂.toUInt32 <<< 16 ||| b₃.toUInt32 <<< 24

/-- `descriptor_bytes.chunks_exact(8)`, each chunk as two words. -/
def entryWords : List UInt8 → List EntryWords
  | b₀ :: b₁ :: b₂ :: b₃ :: b₄ :: b₅ :: b₆ :: b₇ :: bytes =>
    ⟨fromLeBytes b₀ b₁ b₂ b₃, fromLeBytes b₄ b₅ b₆ b₇⟩ :: entryWords bytes
  | _ => []

namespace EntryWords

variable (words : EntryWords)

/-- `ENTRY0_RESERVED`. -/
def reserved : UInt32 := words.word0 &&& 2

/-- `ENTRY0_FETCH_CONDITIONAL`. -/
def fetchConditional : UInt32 := words.word0 &&& 1

def wordCount : UInt32 := (words.word1 >>> 10) &&& 0x1fffff

def addressHigh : UInt32 := words.word1 &&& 0xff

def addressValue : Nat := (words.word0 &&& ~~~0b11).toNat ||| words.addressHigh.toNat <<< 32

end EntryWords

structure MaxwellGpfifoSubmitRequest where
  entryCount : UInt32
  flags : UInt32
  fenceId : UInt32
  fenceValue : UInt32
deriving DecidableEq, Repr

inductive MaxwellGpfifoLevel where
  | main
  | subroutine
deriving DecidableEq, Repr

inductive MaxwellGpfifoSyncMode where
  | proceed
  | wait
deriving DecidableEq, Repr

/-- The fetch of a decoded entry is unconditional. -/
structure MaxwellGpfifoEntry where
  address : Nat
  wordCount : UInt32
  allowFlush : Bool
  level : MaxwellGpfifoLevel
  sync : MaxwellGpfifoSyncMode
deriving DecidableEq, Repr

structure MaxwellGpfifoSubmissionMode where
  fenceWait : Bool
  fenceGet : Bool
  suppressWfi : Bool
  skipBufferRefcounting : Bool
  fenceIncrementValue : Bool
deriving DecidableEq, Repr

structure MaxwellDecodedGpfifoSubmission where
  mode : MaxwellGpfifoSubmissionMode
  fenceId : UInt32
  fenceValue : UInt32
  entries : List MaxwellGpfifoEntry
deriving DecidableEq, Repr

inductive MaxwellInvalidGpfifoSubmission where
  | entryCountExceedsAllocation (requested allocated : UInt32)
  | entryByteCountOverflow (entries : UInt32)
  | entryByteCountMismatch (expected actual : Nat)
  | reservedEntryBit (entry word : Nat) (mask : UInt32)
  | addressOutOfRange (entry address bits : Nat)
  | pushbufferRangeOutOfRange (entry address : Nat) (words : UInt32) (bits : Nat)
deriving DecidableEq, Repr

inductive MaxwellUnsupportedGpfifoSubmission where
  | unknownSubmitFlags (flags : UInt32)
  | nonHardwareDescriptorFormat
  | syncFenceFileDescriptor
  | conflictingFenceCompletionModes
  | zeroFenceIncrementValue
  | conditionalFetch (entry : Nat)
  | controlEntry (entry : Nat) (opcode : UInt32)
deriving DecidableEq, Repr

inductive MaxwellGpfifoDecodeError where
  | invalid (error : MaxwellInvalidGpfifoSubmission)
  | unsupported (error : MaxwellUnsupportedGpfifoSubmission)
deriving DecidableEq, Repr

/-! ## Decoding -/

/-- The submit flags, from `SUBMIT_FENCE_WAIT` to `SUBMIT_FENCE_INCREMENT_VALUE`. -/
def submitFenceWait : UInt32 := 1

def submitFenceGet : UInt32 := 2

def submitHardwareFormat : UInt32 := 4

def submitSyncFence : UInt32 := 8

def submitSuppressWfi : UInt32 := 16

def submitSkipBufferRefcounting : UInt32 := 32

def submitFenceIncrementValue : UInt32 := 256

def knownSubmitFlags : UInt32 :=
  submitFenceWait ||| submitFenceGet ||| submitHardwareFormat ||| submitSyncFence |||
    submitSuppressWfi ||| submitSkipBufferRefcounting ||| submitFenceIncrementValue

/-- The checks before the loop over the entries. -/
def checkSubmitRequest (allocatedEntries : UInt32) (request : MaxwellGpfifoSubmitRequest)
    (descriptorBytes : List UInt8) : Except MaxwellGpfifoDecodeError Unit :=
  if allocatedEntries < request.entryCount then
    .error (.invalid (.entryCountExceedsAllocation request.entryCount allocatedEntries))
  else
    match checkedMul request.entryCount.toNat 8 with
    | none => .error (.invalid (.entryByteCountOverflow request.entryCount))
    | some expectedBytes =>
      if descriptorBytes.length ≠ expectedBytes then
        .error (.invalid (.entryByteCountMismatch expectedBytes descriptorBytes.length))
      else if request.flags &&& ~~~knownSubmitFlags ≠ 0 then
        .error (.unsupported (.unknownSubmitFlags (request.flags &&& ~~~knownSubmitFlags)))
      else if request.flags &&& submitHardwareFormat = 0 then
        .error (.unsupported .nonHardwareDescriptorFormat)
      else if request.flags &&& submitSyncFence ≠ 0 then
        .error (.unsupported .syncFenceFileDescriptor)
      else if request.flags &&& submitFenceIncrementValue ≠ 0 ∧
          request.flags &&& submitFenceGet ≠ 0 then
        .error (.unsupported .conflictingFenceCompletionModes)
      else if request.flags &&& submitFenceIncrementValue ≠ 0 ∧ request.fenceValue = 0 then
        .error (.unsupported .zeroFenceIncrementValue)
      else .ok ()

/-- The loop body of `decode_gpfifo_submission`. -/
def decodeEntry (addressBits entry : Nat) (words : EntryWords) :
    Except MaxwellGpfifoDecodeError MaxwellGpfifoEntry :=
  if words.reserved ≠ 0 then .error (.invalid (.reservedEntryBit entry 0 words.reserved))
  else if words.fetchConditional ≠ 0 then .error (.unsupported (.conditionalFetch entry))
  else if words.wordCount = 0 then
    .error (.unsupported (.controlEntry entry words.addressHigh))
  else
    match tryNew words.addressValue addressBits with
    | .error _ => .error (.invalid (.addressOutOfRange entry words.addressValue addressBits))
    | .ok address =>
      match GpuVirtualAddress.checkedAdd address (words.wordCount.toNat * 4) addressBits with
      | .error _ =>
        .error (.invalid (.pushbufferRangeOutOfRange entry words.addressValue words.wordCount
          addressBits))
      | .ok _ => .ok
        { address := address
          wordCount := words.wordCount
          allowFlush := words.word1 &&& 0x100 ≠ 0
          level := if words.word1 &&& 0x200 ≠ 0 then .subroutine else .main
          sync := if words.word1 &&& 0x80000000 ≠ 0 then .wait else .proceed }

/-- The loop over the entries, of which the next one has the number `entry`. -/
def decodeEntries (addressBits : Nat) :
    Nat → List EntryWords → Except MaxwellGpfifoDecodeError (List MaxwellGpfifoEntry)
  | _, [] => .ok []
  | entry, words :: rest => do
    let first ← decodeEntry addressBits entry words
    let entries ← decodeEntries addressBits (entry + 1) rest
    .ok (first :: entries)

def decodeGpfifoSubmission (profile : MaxwellGpuProfile) (allocatedEntries : UInt32)
    (request : MaxwellGpfifoSubmitRequest) (descriptorBytes : List UInt8) :
    Except MaxwellGpfifoDecodeError MaxwellDecodedGpfifoSubmission := do
  checkSubmitRequest allocatedEntries request descriptorBytes
  let entries ← decodeEntries profile.addressBits 0 (entryWords descriptorBytes)
  .ok
    { mode :=
        { fenceWait := request.flags &&& submitFenceWait ≠ 0
          fenceGet := request.flags &&& submitFenceGet ≠ 0
          suppressWfi := request.flags &&& submitSuppressWfi ≠ 0
          skipBufferRefcounting := request.flags &&& submitSkipBufferRefcounting ≠ 0
          fenceIncrementValue := request.flags &&& submitFenceIncrementValue ≠ 0 }
      fenceId := request.fenceId
      fenceValue := request.fenceValue
      entries := entries }

/-! ## Acceptance -/

namespace EntryWords

/-- The entry names a pushbuffer: it is fetched unconditionally and has words. -/
structure Named (words : EntryWords) : Prop where
  reserved : words.reserved = 0
  unconditional : words.fetchConditional = 0
  wordCount : words.wordCount ≠ 0

/-- One past the last byte of the pushbuffer. -/
def stop (words : EntryWords) : Nat := words.addressValue + 4 * words.wordCount.toNat

variable {words : EntryWords}

theorem addressValue_lt (words : EntryWords) : words.addressValue < 2 ^ 40 := by
  have hlow : (words.word0 &&& ~~~0b11).toNat < 2 ^ 40 :=
    (UInt32.toNat_lt _).trans (by decide)
  have hhigh : words.addressHigh.toNat ≤ 0xff := by
    rw [addressHigh, UInt32.toNat_and]
    exact Nat.and_le_right
  refine Nat.or_lt_two_pow hlow ?_
  rw [Nat.shiftLeft_eq]
  omega

theorem Named.wordCount_pos (h : words.Named) : 0 < words.wordCount.toNat :=
  Nat.pos_of_ne_zero fun hzero ↦ h.wordCount (UInt32.toNat_inj.mp hzero)

end EntryWords

variable {bits entry : Nat} {words : EntryWords}

/-- The decoder accepts a pushbuffer whose end is an address too. -/
theorem decodeEntry_ok_iff (hpos : 0 < bits) (hle : bits ≤ 64) (h : words.Named) :
    (∃ decoded, decodeEntry bits entry words = .ok decoded) ↔ words.stop < 2 ^ bits := by
  have hword : words.addressValue < wordBound := words.addressValue_lt.trans (by decide)
  rw [decodeEntry, if_neg (not_not.mpr h.reserved), if_neg (not_not.mpr h.unconditional),
    if_neg h.wordCount, EntryWords.stop, Nat.mul_comm 4]
  cases haddress : tryNew words.addressValue bits with
  | error e =>
    refine ⟨fun ⟨_, hok⟩ ↦ (nomatch hok), fun hlt ↦ ?_⟩
    rw [(tryNew_eq_ok_iff hpos hle hword).mpr ⟨by omega, rfl⟩] at haddress
    exact nomatch haddress
  | ok address =>
    obtain ⟨-, rfl⟩ := (tryNew_eq_ok_iff hpos hle hword).mp haddress
    dsimp only
    cases hadd : GpuVirtualAddress.checkedAdd words.addressValue
      (words.wordCount.toNat * 4) bits with
    | error e =>
      refine ⟨fun ⟨_, hok⟩ ↦ (nomatch hok), fun hlt ↦ ?_⟩
      rw [(checkedAdd_eq_ok_iff hpos hle).mpr ⟨hlt, rfl⟩] at hadd
      exact nomatch hadd
    | ok value =>
      exact ⟨fun _ ↦ ((checkedAdd_eq_ok_iff hpos hle).mp hadd).1,
        fun _ ↦ ⟨_, rfl⟩⟩

theorem decodeEntries_ok_iff {list : List EntryWords} :
    (∃ entries, decodeEntries bits entry list = .ok entries) ↔
      ∀ i (hi : i < list.length), ∃ decoded,
        decodeEntry bits (entry + i) list[i] = .ok decoded := by
  induction list generalizing entry with
  | nil => exact ⟨fun _ i hi ↦ absurd hi (Nat.not_lt_zero i), fun _ ↦ ⟨[], rfl⟩⟩
  | cons words list ih =>
    rw [decodeEntries]
    constructor
    · rintro ⟨entries, h⟩ i hi
      obtain ⟨first, hfirst, h⟩ := bind_eq_ok_iff.mp h
      obtain ⟨rest, hrest, -⟩ := bind_eq_ok_iff.mp h
      cases i with
      | zero => exact ⟨first, hfirst⟩
      | succ i =>
        obtain ⟨decoded, hdecoded⟩ := ih.mp ⟨rest, hrest⟩ i (Nat.lt_of_succ_lt_succ hi)
        exact ⟨decoded, by rwa [Nat.add_right_comm] at hdecoded⟩
    · intro h
      obtain ⟨first, hfirst⟩ := h 0 (Nat.zero_lt_succ _)
      obtain ⟨rest, hrest⟩ := ih.mpr fun i hi ↦ by
        have := h (i + 1) (Nat.succ_lt_succ hi)
        rwa [← Nat.add_assoc, Nat.add_right_comm] at this
      exact ⟨_, bind_eq_ok_iff.mpr ⟨first, hfirst, bind_eq_ok_iff.mpr ⟨rest, hrest, rfl⟩⟩⟩

/-- The submission passes the checks of the request, and its entries name pushbuffers. -/
structure NamesPushbuffers (allocatedEntries : UInt32) (request : MaxwellGpfifoSubmitRequest)
    (descriptorBytes : List UInt8) : Prop where
  request : checkSubmitRequest allocatedEntries request descriptorBytes = .ok ()
  named : ∀ words ∈ entryWords descriptorBytes, words.Named

theorem decodeGpfifoSubmission_ok_iff {profile : MaxwellGpuProfile} {allocatedEntries : UInt32}
    {request : MaxwellGpfifoSubmitRequest} {descriptorBytes : List UInt8}
    (h : NamesPushbuffers allocatedEntries request descriptorBytes) :
    (∃ decoded, decodeGpfifoSubmission profile allocatedEntries request descriptorBytes =
        .ok decoded) ↔
      ∀ words ∈ entryWords descriptorBytes, words.stop < 2 ^ profile.addressBits := by
  have hentries : (∃ decoded, decodeGpfifoSubmission profile allocatedEntries request
      descriptorBytes = .ok decoded) ↔
      ∃ entries,
        decodeEntries profile.addressBits 0 (entryWords descriptorBytes) = .ok entries := by
    rw [decodeGpfifoSubmission, h.request, ok_bind]
    constructor
    · rintro ⟨decoded, hdecoded⟩
      obtain ⟨entries, hentries, -⟩ := bind_eq_ok_iff.mp hdecoded
      exact ⟨entries, hentries⟩
    · rintro ⟨entries, hentries⟩
      exact ⟨_, bind_eq_ok_iff.mpr ⟨entries, hentries, rfl⟩⟩
  rw [hentries, decodeEntries_ok_iff, List.forall_mem_iff_forall_getElem]
  refine forall₂_congr fun i hi ↦ decodeEntry_ok_iff profile.addressBits_pos profile.addressBits_le
    (h.named _ (List.getElem_mem hi))

/-- **Acceptance.** The decoder accepts exactly the submissions whose pushbuffers have their last
byte inside the address width, unless a pushbuffer ends at the top of the address space. -/
theorem decodeGpfifoSubmission_accepts_iff (profile : MaxwellGpuProfile) (allocatedEntries : UInt32)
    (request : MaxwellGpfifoSubmitRequest) (descriptorBytes : List UInt8)
    (h : NamesPushbuffers allocatedEntries request descriptorBytes) :
    ((∃ decoded, decodeGpfifoSubmission profile allocatedEntries request descriptorBytes =
        .ok decoded) ↔
      ∀ words ∈ entryWords descriptorBytes,
        words.addressValue + 4 * words.wordCount.toNat - 1 < 2 ^ profile.addressBits) ↔
    ((∀ words ∈ entryWords descriptorBytes,
        words.addressValue + 4 * words.wordCount.toNat - 1 < 2 ^ profile.addressBits) →
      ∀ words ∈ entryWords descriptorBytes,
        words.addressValue + 4 * words.wordCount.toNat ≠ 2 ^ profile.addressBits) := by
  rw [decodeGpfifoSubmission_ok_iff h]
  constructor
  · intro hiff hfits words hwords
    exact (hiff.mpr hfits words hwords).ne
  · intro htop
    constructor
    · intro hstop words hwords
      have := hstop words hwords
      rw [EntryWords.stop] at this
      omega
    · intro hfits words hwords
      have hlast := hfits words hwords
      have hne := htop hfits words hwords
      have hpos := (h.named words hwords).wordCount_pos
      rw [EntryWords.stop]
      omega

/-- One entry for the 32768 words before the address `2 ^ 40`. -/
def topDescriptor : List UInt8 := [0x00, 0x00, 0xfe, 0xff, 0xff, 0x00, 0x00, 0x02]

/-- The same number of words, one big page below. -/
def lowDescriptor : List UInt8 := [0x00, 0x00, 0xfc, 0xff, 0xff, 0x00, 0x00, 0x02]

def exampleRequest : MaxwellGpfifoSubmitRequest := ⟨1, submitHardwareFormat, 0, 0⟩

/-- A pushbuffer below the top of the address space is accepted. -/
theorem decodeGpfifoSubmission_accepts_low :
    ∃ decoded, decodeGpfifoSubmission .switch1Gm20b 1 exampleRequest lowDescriptor =
      .ok decoded := by
  have hnames : NamesPushbuffers 1 exampleRequest lowDescriptor :=
    ⟨by decide, fun words hwords ↦ by
      obtain rfl := List.mem_singleton.mp hwords
      exact ⟨by decide, by decide, by decide⟩⟩
  refine ((decodeGpfifoSubmission_accepts_iff .switch1Gm20b 1 exampleRequest lowDescriptor
    hnames).mpr fun _ ↦ ?_).mpr ?_ <;> decide

/-- Map the big page at the top of the address space. -/
def exampleTop : List AddressSpaceCall :=
  [.initializeSpace ⟨0, 0x20000, 2 ^ 40, 2 ^ 34⟩, .reserve 1 0x20000 1 (2 ^ 40 - 0x20000),
    .map ⟨7, exampleBacking, 0, 0x20000, 0x20000, 0x20000, 0, true, .readWrite,
      some (2 ^ 40 - 0x20000)⟩]

/-- The pushbuffer at the top of the address space is mapped and resolves, and the decoder refuses
it. -/
theorem decodeGpfifoSubmission_refuses_top : ∃ es s range,
    Run addressSpaceMachine (.new 1 .switch1Gm20b) es s ∧ s.profile.addressBits = 40 ∧
      (entryWords topDescriptor).map
        (fun words ↦ (words.addressValue, words.wordCount.toNat)) = [(2 ^ 40 - 0x20000, 0x8000)] ∧
      s.resolveRange (2 ^ 40 - 0x20000) (4 * 0x8000) .readOnly = .ok range ∧
      decodeGpfifoSubmission .switch1Gm20b 1 exampleRequest topDescriptor =
        .error (.invalid (.pushbufferRangeOutOfRange 0 (2 ^ 40 - 0x20000) 0x8000 40)) := by
  have hexec : ∃ r ∈ exec addressSpaceMachine (.new 1 .switch1Gm20b) exampleTop,
      r.2.profile.addressBits = 40 ∧ r.2.regions.isSome ∧ ∃ m ∈ r.2.mappings[2 ^ 40 - 0x20000]?,
        m.offset = 2 ^ 40 - 0x20000 ∧ m.size = 0x20000 ∧ m.permissions = .readWrite := by
    decide +kernel
  obtain ⟨es, s, hrun, -, hbits, hregions, m, hm, hoffset, hsize, hpermissions⟩ :=
    exists_run_of_exec hexec
  obtain ⟨regions, hregions⟩ := Option.isSome_iff_exists.mp hregions
  have hs := MaxwellGpuAddressSpace.Valid.of_run (.new 1 .switch1Gm20b) hrun
  have hp : MemoryPermissions.readOnly ≠ .empty := by decide
  have hfits : 2 ^ 40 - 0x20000 + 4 * 0x8000 - 1 < 2 ^ s.profile.addressBits := by
    rw [hbits]
    decide
  have hmapped : Mapped s .readOnly (2 ^ 40 - 0x20000) (4 * 0x8000) := by
    intro i hi
    refine ⟨m, mem_records hm, ⟨by omega, ?_⟩, by rw [hpermissions]; decide⟩
    rw [MaxwellGpuMapping.stop]
    omega
  obtain ⟨segments, hsegments⟩ := (hs.resolveSegments_spec hp (.inr hfits)).1 hmapped
  refine ⟨es, s, _, hrun, hbits, by decide, (MaxwellGpuAddressSpace.resolveRange_eq_ok_iff
    (by decide)).mpr ⟨validateResolutionRequest_of_fits hregions hp ?_, hfits, segments, hsegments,
      rfl⟩, by decide⟩
  omega

end Nixe.Maxwell
