import Nixe.Collections.Bytes
import Nixe.Effect.Fallible
import Nixe.Effect.Machine
import Nixe.Effect.Word

/-!
# Integrity of content sections

A section names its integrity layers in its header: a table of hashes over the blocks of the data,
or up to six levels, each of which holds the hashes of the blocks of the next. The hashes of the
first layer are in the header. `validate` hashes every layer and compares.

What a layer authenticates is said by `Authentic`, for one storage. If two storages are compared
with the same hashes, their blocks are the same, since the hash function `sha256` is taken to be
injective; so equality passes from the header to the first layer and on to the data.

A read is recorded with its range. The host may fail at any of them.
-/

namespace Nixe.Loader

open Method List

/-! ## Storage -/

inductive LoadError where
  | outOfBounds
  | io
  | invalidFormat (format reason : String)
deriving DecidableEq

def invalid (reason : String) : LoadError := .invalidFormat "NCA" reason

structure SectionStorage where
  size : Nat
  bytes : Nat → UInt8
  faults : Nat → Nat → Bool

/-- The state is the list of the ranges that were read. -/
abbrev ReadM := Method LoadError (List (Nat × Nat))

def SectionStorage.readAt (s : SectionStorage) (offset count : Nat) : ReadM (List UInt8) := do
  update ((offset, count) :: ·)
  failIf (s.size < offset + count) .outOfBounds
  failIf (s.faults offset count = true) .io
  pure (slice s.bytes offset count)

/-! ## Layouts -/

structure Sha256Layout where
  masterHash : List UInt8
  hashTableOffset : Nat
  hashTableSize : Nat
  dataOffset : Nat
  dataSize : Nat
  blockSize : Nat

structure IvfcLevel where
  offset : Nat
  size : Nat
  blockSize : Nat

structure IvfcLayout where
  masterHashes : List (List UInt8)
  levels : List IvfcLevel

inductive IntegrityLayout where
  | none
  | hierarchicalSha256 (layout : Sha256Layout)
  | ivfc (layout : IvfcLayout)
  | bktr (layout : IvfcLayout)

/-- The offset and the size of the data that the layers protect. -/
def IntegrityLayout.dataLevel : IntegrityLayout → Option (Nat × Nat)
  | hierarchicalSha256 layout => some (layout.dataOffset, layout.dataSize)
  | ivfc layout => layout.levels.getLast?.map fun level ↦ (level.offset, level.size)
  | none | bktr _ => .none

section

variable (header : Nat → UInt8) (sectionSize : Nat)

def readU32 (offset : Nat) : Nat := fromLittleEndian (slice header offset 4)

def readU64 (offset : Nat) : Nat := fromLittleEndian (slice header offset 8)

def maxIntegrityBlockSize : Nat := 64 * 1024 * 1024

def validateBlockSize (blockSize : Nat) : Except LoadError Unit :=
  if blockSize < 0x20 ∨ maxIntegrityBlockSize < blockSize ∨ isPowerOfTwo blockSize = false then
    .error (invalid ("invalid integrity block size 0x" ++
      String.ofList (Nat.toDigits 16 blockSize)))
  else .ok ()

def validateSubrange (offset size containerSize : Nat) (name : String) : Except LoadError Unit :=
  match checkedAdd offset size with
  | none => .error (invalid (name ++ " range overflows"))
  | some stop =>
    if containerSize < stop then .error (invalid (name ++ " range points outside its section"))
    else .ok ()

/-- `div_ceil` -/
def divCeil (n size : Nat) : Nat := (n + size - 1) / size

/-- `text` is the message for a table size that overflows, `truncated` for one that is too small. -/
def requireHashes (size blockSize tableSize : Nat) (text truncated : String) :
    Except LoadError Unit :=
  match checkedMul (divCeil size blockSize) 0x20 with
  | none => .error (invalid text)
  | some required => if tableSize < required then .error (invalid truncated) else .ok ()

def parseSha256Layout : Except LoadError Sha256Layout := do
  let layout : Sha256Layout :=
    ⟨slice header 0x08 0x20, readU64 header 0x30, readU64 header 0x38, readU64 header 0x40,
      readU64 header 0x48, readU32 header 0x28⟩
  validateBlockSize layout.blockSize
  validateSubrange layout.hashTableOffset layout.hashTableSize sectionSize "hash table"
  validateSubrange layout.dataOffset layout.dataSize sectionSize "PFS0 data"
  requireHashes layout.dataSize layout.blockSize layout.hashTableSize
    "PFS0 hash table size overflows" "PFS0 hash table is too small for its data"
  pure layout

def parseIvfcLevels : Nat → Nat → Except LoadError (List IvfcLevel)
  | 0, _ => .ok []
  | count + 1, index => do
    let start := 0x18 + index * 0x18
    let exponent := readU32 header (start + 0x10)
    let level : IvfcLevel := ⟨readU64 header start, readU64 header (start + 8), 2 ^ exponent⟩
    if 64 ≤ exponent then .error (invalid "IVFC block size exponent is invalid")
    else do
      validateBlockSize level.blockSize
      validateSubrange level.offset level.size sectionSize "IVFC level"
      let levels ← parseIvfcLevels count (index + 1)
      pure (level :: levels)

/-- Each level has room for the hashes of the next; `index` is that of the first. -/
def checkIvfcLevels : Nat → List IvfcLevel → Except LoadError Unit
  | index, level :: next :: levels => do
    requireHashes next.size next.blockSize level.size "IVFC hash count overflows"
      ("IVFC level " ++ toString index ++ " hash table is truncated")
    checkIvfcLevels (index + 1) (next :: levels)
  | _, _ => .ok ()

def parseIvfcLayout : Except LoadError IvfcLayout := do
  let masterHashSize := readU32 header 0x10
  let levelCount := readU32 header 0x14
  if slice header 0x08 4 ≠ [0x49, 0x56, 0x46, 0x43] then
    .error (invalid "RomFS IVFC magic is invalid")
  else if levelCount < 2 ∨ 7 < levelCount then
    .error (invalid ("unsupported IVFC level count " ++ toString levelCount))
  else if masterHashSize = 0 ∨ 0x20 < masterHashSize ∨ masterHashSize % 0x20 ≠ 0 then
    .error (invalid "IVFC master hash table has an invalid size")
  else do
    let levels ← parseIvfcLevels header sectionSize (levelCount - 1) 0
    if masterHashSize / 0x20 < levels.head?.elim 0 (fun l ↦ divCeil l.size l.blockSize) then
      .error (invalid "IVFC master hash table is too small for level zero")
    else do
      checkIvfcLevels 0 levels
      pure ⟨(List.range (masterHashSize / 0x20)).map fun i ↦ slice header (0xc8 + i * 0x20) 0x20,
        levels⟩

inductive NcaSectionType where
  | pfs0
  | romFs
  | bktr
  | unknown (partitionType fileSystemType : UInt8)

def parseIntegrityLayout : NcaSectionType → Except LoadError IntegrityLayout
  | .pfs0 => do return .hierarchicalSha256 (← parseSha256Layout header sectionSize)
  | .romFs => do return .ivfc (← parseIvfcLayout header sectionSize)
  | .bktr => do return .bktr (← parseIvfcLayout header wordMax)
  | .unknown .. => .ok .none

end

/-! ## Validation -/

inductive IntegrityCheckKind where
  | fsHeader
  | hierarchicalSha256Master
  | hierarchicalSha256Data
  | ivfcLevel (index : Nat)
  | bktrVirtualImage

inductive IntegrityStatus where
  | valid
  | invalid
  | unchecked
deriving DecidableEq

structure IntegrityCheck where
  kind : IntegrityCheckKind
  status : IntegrityStatus

structure IntegrityReport where
  sectionIndex : Nat
  checks : List IntegrityCheck

def IntegrityReport.isValid (report : IntegrityReport) : Bool :=
  !report.checks.isEmpty && report.checks.all (·.status = .valid)

def status (valid : Bool) : IntegrityStatus := if valid then .valid else .invalid

inductive ExpectedHashes where
  | inline (hashes : List (List UInt8))
  | storage (offset : Nat)

def hashBufferSize : Nat := 1024 * 1024

section

variable (sha256 : List UInt8 → List UInt8) (s : SectionStorage)

/-- The bytes that the loop of `hash_padded_range` reads, with its fuel. -/
def readChunks (offset size : Nat) : Nat → Nat → ReadM (List UInt8)
  | 0, _ => pure []
  | fuel + 1, consumed =>
    if consumed < size then do
      let chunkSize := min (size - consumed) hashBufferSize
      let start ← okOr (checkedAdd offset consumed) (invalid "hash read offset overflows")
      let chunk ← s.readAt start chunkSize
      let rest ← readChunks offset size fuel (consumed + chunkSize)
      pure (chunk ++ rest)
    else pure []

def hashPaddedRange (offset size : Nat) (paddedSize : Option Nat) : ReadM (List UInt8) := do
  let bytes ← readChunks s offset size (size / hashBufferSize + 1) 0
  match paddedSize with
  | none => pure (sha256 bytes)
  | some paddedSize => do
    failIf (paddedSize < size) (invalid "integrity padded size is smaller than its data")
    pure (sha256 (bytes ++ List.replicate (paddedSize - size) 0))

def expectedHash (blockIndex : Nat) : ExpectedHashes → ReadM (List UInt8)
  | .inline hashes => okOr hashes[blockIndex]? (invalid "master hash table is truncated")
  | .storage offset => do
    let relative ← okOr (checkedMul blockIndex 0x20) (invalid "hash offset overflows")
    let hashOffset ← okOr (checkedAdd offset relative) (invalid "hash offset overflows")
    s.readAt hashOffset 0x20

/-- The loop of `validate_hash_layer`, for the `count` blocks from `blockIndex` on. -/
def validateBlocks (dataOffset dataSize blockSize : Nat) (padLastBlock : Bool)
    (expected : ExpectedHashes) : Nat → Nat → ReadM Bool
  | 0, _ => pure true
  | count + 1, blockIndex => do
    let relative ← okOr (checkedMul blockIndex blockSize)
      (invalid "integrity block offset overflows")
    let offset ← okOr (checkedAdd dataOffset relative) (invalid "integrity data offset overflows")
    let actual ← hashPaddedRange sha256 s offset (min (dataSize - relative) blockSize)
      (if padLastBlock then some blockSize else none)
    let hash ← expectedHash s blockIndex expected
    if actual ≠ hash then pure false
    else validateBlocks dataOffset dataSize blockSize padLastBlock expected count (blockIndex + 1)

def validateHashLayer (dataOffset dataSize blockSize : Nat) (padLastBlock : Bool)
    (expected : ExpectedHashes) : ReadM Bool :=
  validateBlocks sha256 s dataOffset dataSize blockSize padLastBlock expected
    (divCeil dataSize blockSize) 0

def validateLevels : Nat → ExpectedHashes → List IvfcLevel → ReadM (List IntegrityCheck)
  | _, _, [] => pure []
  | index, expected, level :: levels => do
    let valid ← validateHashLayer sha256 s level.offset level.size level.blockSize true expected
    let checks ← validateLevels (index + 1) (.storage level.offset) levels
    pure (⟨.ivfcLevel index, status valid⟩ :: checks)

def validateLayout : IntegrityLayout → ReadM (List IntegrityCheck)
  | .none => pure []
  | .bktr _ => pure [⟨.bktrVirtualImage, .unchecked⟩]
  | .hierarchicalSha256 layout => do
    let master ← hashPaddedRange sha256 s layout.hashTableOffset layout.hashTableSize none
    let valid ← validateHashLayer sha256 s layout.dataOffset layout.dataSize layout.blockSize false
      (.storage layout.hashTableOffset)
    pure [⟨.hierarchicalSha256Master, status (master = layout.masterHash)⟩,
      ⟨.hierarchicalSha256Data, status valid⟩]
  | .ivfc layout => validateLevels sha256 s 0 (.inline layout.masterHashes) layout.levels

def validate (sectionIndex : Nat) (headerHashValid : Bool) (layout : IntegrityLayout) :
    ReadM IntegrityReport := do
  let checks ← validateLayout sha256 s layout
  pure ⟨sectionIndex, ⟨.fsHeader, status headerHashValid⟩ :: checks⟩

end

/-! ## What is read -/

/-- All ranges that were read lie inside the section. -/
def Inside (s : SectionStorage) (reads : List (Nat × Nat)) : Prop :=
  ∀ r ∈ reads, r.1 + r.2 ≤ s.size

/-- The computation reads inside the section, and only the host makes it fail. -/
@[reducible] def Reads {α : Type} (s : SectionStorage) (Q : α → Prop) :
    Post LoadError (List (Nat × Nat)) α :=
  ⟨fun a reads ↦ Q a ∧ Inside s reads,
    fun _ reads ↦ Inside s reads ∧ ∃ offset count, s.faults offset count = true, False⟩

theorem slice_congr {contents contents' : Nat → UInt8} {offset count : Nat} :
    slice contents offset count = slice contents' offset count ↔
      ∀ i < count, contents (offset + i) = contents' (offset + i) := by
  simp [slice, map_inj_left]

theorem lt_divCeil_iff {i n size : Nat} (hsize : 0 < size) : i < divCeil n size ↔ i * size < n := by
  rw [divCeil, ← Nat.succ_le_iff, Nat.le_div_iff_mul_le hsize, Nat.succ_mul]
  omega

section

variable {sha256 : List UInt8 → List UInt8} {s : SectionStorage} {reads : List (Nat × Nat)}
  {offset size : Nat}

theorem readAt_spec (h : Inside s reads) (hin : offset + size ≤ s.size) :
    wp (s.readAt offset size) (Reads s (· = slice s.bytes offset size)) reads := by
  have hcons : Inside s ((offset, size) :: reads) := forall_mem_cons.mpr ⟨hin, h⟩
  simp only [SectionStorage.readAt, wp_rules]
  refine ⟨fun hout ↦ absurd hin hout.not_ge, fun _ ↦ ⟨fun hfault ↦ ?_, fun _ ↦ ⟨trivial, hcons⟩⟩⟩
  exact ⟨hcons, offset, size, hfault⟩

variable (hword : s.size < wordBound)

include hword

theorem readChunks_spec (hin : offset + size ≤ s.size) (fuel consumed : Nat)
    (hle : consumed ≤ size) (hfuel : size - consumed ≤ fuel * hashBufferSize)
    (h : Inside s reads) :
    wp (readChunks s offset size fuel consumed)
      (Reads s (· = slice s.bytes (offset + consumed) (size - consumed))) reads := by
  induction fuel generalizing consumed reads with
  | zero =>
    rw [show size - consumed = 0 by omega]
    exact ⟨rfl, h⟩
  | succ fuel ih =>
    rw [readChunks]
    split
    · rename_i hlt
      obtain ⟨chunk, hchunk⟩ : ∃ chunk, min (size - consumed) hashBufferSize = chunk := ⟨_, rfl⟩
      have hstart : checkedAdd offset consumed = some (offset + consumed) :=
        checkedAdd_eq_some_iff.mpr ⟨by omega, rfl⟩
      have hle' : chunk ≤ size - consumed := by omega
      rw [Nat.add_one_mul] at hfuel
      simp only [hchunk, hstart, wp_rules, forall_some]
      refine wp_of_ok (readAt_spec h (by omega)) ?_
      rintro _ _ ⟨rfl, h⟩
      refine wp_of_ok (ih (consumed + chunk) (by omega) (by omega) h) ?_
      rintro _ _ ⟨rfl, h⟩
      refine ⟨?_, h⟩
      rw [show size - consumed = chunk + (size - (consumed + chunk)) by omega]
      simp [slice, range_add, Function.comp_def, Nat.add_assoc]
    · rw [show size - consumed = 0 by omega]
      exact ⟨rfl, h⟩

/-- The bytes of a range, with zeros up to the padded size. -/
def paddedBytes (s : SectionStorage) (offset size : Nat) (paddedSize : Option Nat) : List UInt8 :=
  slice s.bytes offset size ++ List.replicate (paddedSize.getD size - size) 0

theorem hashPaddedRange_spec {paddedSize : Option Nat} (hin : offset + size ≤ s.size)
    (hpad : ∀ p ∈ paddedSize, size ≤ p) (h : Inside s reads) :
    wp (hashPaddedRange sha256 s offset size paddedSize)
      (Reads s (· = sha256 (paddedBytes s offset size paddedSize))) reads := by
  rw [hashPaddedRange, wp_bind]
  refine wp_of_ok (readChunks_spec hword hin _ 0 (Nat.zero_le _) ?_ h) ?_
  · simp only [hashBufferSize]
    omega
  rintro _ reads ⟨rfl, h⟩
  cases paddedSize with
  | none => exact ⟨by simp [paddedBytes], h⟩
  | some p =>
    simp only [wp_rules]
    exact ⟨fun hlt ↦ absurd (hpad p rfl) hlt.not_ge, fun _ ↦ ⟨rfl, h⟩⟩

/-- The hash that block `i` is compared with. -/
def ExpectedHashes.hash (s : SectionStorage) (i : Nat) : ExpectedHashes → List UInt8
  | inline hashes => hashes[i]?.getD []
  | storage offset => slice s.bytes (offset + i * 0x20) 0x20

/-- There are hashes for `count` blocks. -/
def ExpectedHashes.Covers (s : SectionStorage) (count : Nat) : ExpectedHashes → Prop
  | inline hashes => count ≤ hashes.length
  | storage offset => offset + count * 0x20 ≤ s.size

theorem expectedHash_spec {expected : ExpectedHashes} {count i : Nat}
    (hcovers : expected.Covers s count) (hi : i < count) (h : Inside s reads) :
    wp (expectedHash s i expected) (Reads s (· = expected.hash s i)) reads := by
  cases expected with
  | inline hashes =>
    have hsome := List.getElem?_eq_getElem (Nat.lt_of_lt_of_le hi hcovers)
    simp only [expectedHash, wp_okOr, hsome]
    exact ⟨fun _ ha ↦ ⟨by simpa [ExpectedHashes.hash, hsome] using ha.symm, h⟩, by simp⟩
  | storage offset =>
    have hend : offset + (i * 0x20 + 0x20) ≤ s.size :=
      (Nat.add_le_add_left (by omega) _).trans hcovers
    have hmul : checkedMul i 0x20 = some (i * 0x20) :=
      checkedMul_eq_some_iff.mpr ⟨by omega, rfl⟩
    have hadd : checkedAdd offset (i * 0x20) = some (offset + i * 0x20) :=
      checkedAdd_eq_some_iff.mpr ⟨by omega, rfl⟩
    simp only [expectedHash, wp_rules, hmul, hadd, forall_some]
    exact readAt_spec h (by omega)

/-- The bytes of block `i` of a layer that are hashed. -/
def blockBytes (s : SectionStorage) (dataOffset dataSize blockSize : Nat) (padLastBlock : Bool)
    (i : Nat) : List UInt8 :=
  paddedBytes s (dataOffset + i * blockSize) (min (dataSize - i * blockSize) blockSize)
    (if padLastBlock then some blockSize else none)

/-- The blocks of a layer have the hashes that are expected. -/
def Authentic (sha256 : List UInt8 → List UInt8) (s : SectionStorage)
    (dataOffset dataSize blockSize : Nat) (padLastBlock : Bool) (expected : ExpectedHashes) :
    Prop :=
  ∀ i < divCeil dataSize blockSize,
    sha256 (blockBytes s dataOffset dataSize blockSize padLastBlock i) = expected.hash s i

variable {blockSize : Nat} {pad : Bool} {expected : ExpectedHashes}

theorem validateBlocks_spec (hpos : 0 < blockSize) (hin : offset + size ≤ s.size)
    (hcovers : expected.Covers s (divCeil size blockSize)) (count index : Nat)
    (hcount : index + count = divCeil size blockSize) (h : Inside s reads) :
    wp (validateBlocks sha256 s offset size blockSize pad expected count index)
      (Reads s fun valid ↦ valid = true → ∀ i, index ≤ i → i < divCeil size blockSize →
        sha256 (blockBytes s offset size blockSize pad i) = expected.hash s i) reads := by
  induction count generalizing index reads with
  | zero => exact ⟨fun _ i hle hlt ↦ absurd hlt (by omega), h⟩
  | succ count ih =>
    have hlt : index * blockSize < size := (lt_divCeil_iff hpos).mp (by omega)
    have hmul : checkedMul index blockSize = some (index * blockSize) :=
      checkedMul_eq_some_iff.mpr ⟨by omega, rfl⟩
    have hadd : checkedAdd offset (index * blockSize) = some (offset + index * blockSize) :=
      checkedAdd_eq_some_iff.mpr ⟨by omega, rfl⟩
    simp only [validateBlocks, wp_rules, hmul, hadd, forall_some]
    refine wp_of_ok (hashPaddedRange_spec hword (by omega) ?_ h) ?_
    · cases pad <;> simp
    rintro _ reads ⟨rfl, h⟩
    refine wp_of_ok (expectedHash_spec hword hcovers (i := index) (by omega) h) ?_
    rintro _ reads ⟨rfl, h⟩
    refine (wp_ite _ _).mpr ⟨fun _ ↦ ⟨by simp, h⟩, fun heq ↦
      wp_of_ok (ih (index + 1) (by omega) h) ?_⟩
    rintro valid reads ⟨hvalid, h⟩
    refine ⟨fun htrue i hle hlt ↦ ?_, h⟩
    obtain rfl | hne := eq_or_ne i index
    · exact not_ne_iff.mp heq
    · exact hvalid htrue i (by omega) hlt

theorem validateHashLayer_spec (hpos : 0 < blockSize) (hin : offset + size ≤ s.size)
    (hcovers : expected.Covers s (divCeil size blockSize)) (h : Inside s reads) :
    wp (validateHashLayer sha256 s offset size blockSize pad expected)
      (Reads s (· = true → Authentic sha256 s offset size blockSize pad expected)) reads :=
  wp_of_ok (validateBlocks_spec hword hpos hin hcovers _ 0 (Nat.zero_add _) h)
    fun _ _ ⟨hvalid, h⟩ ↦ ⟨fun htrue i ↦ hvalid htrue i (Nat.zero_le i), h⟩

end

/-! ## Layers in the order of their authentication -/

section

variable {sha256 : List UInt8 → List UInt8} {s s' : SectionStorage} {offset size blockSize : Nat}
  {pad : Bool} {expected : ExpectedHashes}

/-- The two storages agree on a range. -/
def Agree (s s' : SectionStorage) (offset size : Nat) : Prop :=
  ∀ i < size, s.bytes (offset + i) = s'.bytes (offset + i)

theorem Agree.of_paddedBytes {paddedSize : Option Nat}
    (h : paddedBytes s offset size paddedSize = paddedBytes s' offset size paddedSize) :
    Agree s s' offset size :=
  slice_congr.mp (append_inj_left h (by simp))

theorem Authentic.agree (hinj : Function.Injective sha256) (hpos : 0 < blockSize)
    (h : Authentic sha256 s offset size blockSize pad expected)
    (h' : Authentic sha256 s' offset size blockSize pad expected)
    (hexpected : ∀ i < divCeil size blockSize, expected.hash s i = expected.hash s' i) :
    Agree s s' offset size := by
  intro k hk
  have hdiv := Nat.div_add_mod' k blockSize
  have hmod := Nat.mod_lt k hpos
  have hi : k / blockSize < divCeil size blockSize := (lt_divCeil_iff hpos).mpr (by omega)
  have hblock := hinj ((h _ hi).trans ((hexpected _ hi).trans (h' _ hi).symm))
  have hbyte := Agree.of_paddedBytes hblock (k % blockSize) (by omega)
  rwa [Nat.add_assoc, hdiv] at hbyte

/-- Storages that agree on a table have the same hashes in it. -/
theorem Agree.hash (h : Agree s s' offset size) {count : Nat} (hsize : count * 0x20 ≤ size)
    (i : Nat) (hi : i < count) :
    (ExpectedHashes.storage offset).hash s i = (ExpectedHashes.storage offset).hash s' i := by
  refine slice_congr.mpr fun j hj ↦ ?_
  rw [Nat.add_assoc]
  exact h _ (by omega)

/-- Every level lies in the section, and its hashes fit into the `room` before it. -/
def Fits (sectionSize : Nat) : Nat → List IvfcLevel → Prop
  | _, [] => True
  | room, level :: levels =>
    (0 < level.blockSize ∧ level.offset + level.size ≤ sectionSize) ∧
      divCeil level.size level.blockSize * 0x20 ≤ room ∧ Fits sectionSize level.size levels

/-- Every level is authenticated by the one before it. -/
def Layers (sha256 : List UInt8 → List UInt8) (s : SectionStorage) :
    ExpectedHashes → List IvfcLevel → Prop
  | _, [] => True
  | expected, level :: levels =>
    Authentic sha256 s level.offset level.size level.blockSize true expected ∧
      Layers sha256 s (.storage level.offset) levels

theorem agree_of_levels (hinj : Function.Injective sha256) {room : Nat} {levels : List IvfcLevel}
    (hfits : Fits s.size room levels) (h : Layers sha256 s expected levels)
    (h' : Layers sha256 s' expected levels)
    (hexpected : ∀ count, count * 0x20 ≤ room → ∀ i < count, expected.hash s i = expected.hash s' i)
    {level : IvfcLevel} (hlast : levels.getLast? = some level) :
    Agree s s' level.offset level.size := by
  induction levels generalizing room expected with
  | nil => cases hlast
  | cons first levels ih =>
    obtain ⟨⟨hpos, -⟩, hroom, hfits⟩ := hfits
    have hagree := h.1.agree hinj hpos h'.1 (hexpected _ hroom)
    cases levels with
    | nil =>
      cases hlast
      exact hagree
    | cons next levels =>
      rw [List.getLast?_cons_cons] at hlast
      exact ih hfits h.2 h'.2 (fun count hcount ↦ hagree.hash hcount) hlast

theorem status_eq_valid_iff {valid : Bool} : status valid = .valid ↔ valid = true := by
  cases valid <;> simp [status]

theorem validateLevels_spec (hword : s.size < wordBound) {reads : List (Nat × Nat)} {room : Nat}
    {levels : List IvfcLevel} (hfits : Fits s.size room levels)
    (hcovers : ∀ count, count * 0x20 ≤ room → expected.Covers s count) (index : Nat)
    (h : Inside s reads) :
    wp (validateLevels sha256 s index expected levels)
      (Reads s fun checks ↦ checks.all (·.status = .valid) = true → Layers sha256 s expected levels)
      reads := by
  induction levels generalizing room expected index reads with
  | nil => exact ⟨fun _ ↦ trivial, h⟩
  | cons level levels ih =>
    obtain ⟨⟨hpos, hin⟩, hroom, hfits⟩ := hfits
    rw [validateLevels, wp_bind]
    refine wp_of_ok (validateHashLayer_spec hword hpos hin (hcovers _ hroom) h) ?_
    rintro valid reads ⟨hvalid, h⟩
    refine (wp_bind _ _).mpr (wp_of_ok (ih hfits (fun count hcount ↦ ?_) (index + 1) h) ?_)
    · exact (Nat.add_le_add_left hcount _).trans hin
    rintro checks reads ⟨hchecks, h⟩
    refine ⟨fun hall ↦ ?_, h⟩
    rw [all_cons, Bool.and_eq_true, decide_eq_true_iff, status_eq_valid_iff] at hall
    exact ⟨hvalid hall.1, hchecks hall.2⟩

end

/-! ## What the parser checks -/

section

variable {header : Nat → UInt8} {sectionSize offset size blockSize : Nat} {text truncated : String}

theorem pos_of_validateBlockSize (h : validateBlockSize blockSize = .ok ()) : 0 < blockSize := by
  rw [validateBlockSize, ite_error_eq_ok_iff] at h
  omega

theorem le_of_validateSubrange {name : String}
    (h : validateSubrange offset size sectionSize name = .ok ()) : offset + size ≤ sectionSize := by
  rw [validateSubrange] at h
  split at h
  · cases h
  · rename_i hadd
    obtain ⟨-, rfl⟩ := checkedAdd_eq_some_iff.mp hadd
    exact Nat.not_lt.mp (ite_error_eq_ok_iff.mp h).1

theorem le_of_requireHashes {room : Nat}
    (h : requireHashes size blockSize room text truncated = .ok ()) :
    divCeil size blockSize * 0x20 ≤ room := by
  rw [requireHashes] at h
  split at h
  · cases h
  · rename_i hmul
    obtain ⟨-, rfl⟩ := checkedMul_eq_some_iff.mp hmul
    exact Nat.not_lt.mp (ite_error_eq_ok_iff.mp h).1

theorem parseIvfcLevels_eq_ok {count index : Nat} {levels : List IvfcLevel}
    (h : parseIvfcLevels header sectionSize count index = .ok levels) :
    ∀ level ∈ levels, 0 < level.blockSize ∧ level.offset + level.size ≤ sectionSize := by
  induction count generalizing index levels with
  | zero =>
    cases h
    exact nofun
  | succ count ih =>
    obtain ⟨-, h⟩ := ite_error_eq_ok_iff.mp h
    obtain ⟨_, hblock, h⟩ := bind_eq_ok_iff.mp h
    obtain ⟨_, hrange, h⟩ := bind_eq_ok_iff.mp h
    obtain ⟨levels', hlevels, h⟩ := bind_eq_ok_iff.mp h
    cases h
    exact forall_mem_cons.mpr
      ⟨⟨pos_of_validateBlockSize hblock, le_of_validateSubrange hrange⟩, ih hlevels⟩

theorem fits_of_checkIvfcLevels {index room : Nat} {levels : List IvfcLevel}
    (hin : ∀ level ∈ levels, 0 < level.blockSize ∧ level.offset + level.size ≤ sectionSize)
    (h : checkIvfcLevels index levels = .ok ())
    (hroom : ∀ level ∈ levels.head?, divCeil level.size level.blockSize * 0x20 ≤ room) :
    Fits sectionSize room levels := by
  induction levels generalizing index room with
  | nil => trivial
  | cons level levels ih =>
    obtain ⟨hlevel, hin⟩ := forall_mem_cons.mp hin
    refine ⟨hlevel, hroom level rfl, ?_⟩
    cases levels with
    | nil => trivial
    | cons next levels =>
      obtain ⟨_, hnext, h⟩ := bind_eq_ok_iff.mp h
      refine ih hin h fun level hlevel ↦ ?_
      cases hlevel
      exact le_of_requireHashes hnext

theorem parseIvfcLayout_eq_ok {layout : IvfcLayout}
    (h : parseIvfcLayout header sectionSize = .ok layout) :
    Fits sectionSize (layout.masterHashes.length * 0x20) layout.levels := by
  obtain ⟨-, h⟩ := ite_error_eq_ok_iff.mp h
  obtain ⟨-, h⟩ := ite_error_eq_ok_iff.mp h
  obtain ⟨-, h⟩ := ite_error_eq_ok_iff.mp h
  obtain ⟨levels, hlevels, h⟩ := bind_eq_ok_iff.mp h
  obtain ⟨hroom, h⟩ := ite_error_eq_ok_iff.mp h
  obtain ⟨_, hcheck, h⟩ := bind_eq_ok_iff.mp h
  cases h
  refine fits_of_checkIvfcLevels (parseIvfcLevels_eq_ok hlevels) hcheck fun level hlevel ↦ ?_
  rw [hlevel, Option.elim_some, Nat.not_lt] at hroom
  simpa using Nat.mul_le_mul_right 0x20 hroom

/-- The layers lie in the section, and there is room for their hashes. -/
def IntegrityLayout.Sound (sectionSize : Nat) : IntegrityLayout → Prop
  | hierarchicalSha256 l =>
    0 < l.blockSize ∧ l.hashTableOffset + l.hashTableSize ≤ sectionSize ∧
      l.dataOffset + l.dataSize ≤ sectionSize ∧
        divCeil l.dataSize l.blockSize * 0x20 ≤ l.hashTableSize
  | ivfc l => Fits sectionSize (l.masterHashes.length * 0x20) l.levels
  | none | bktr _ => True

theorem parseIntegrityLayout_sound {kind : NcaSectionType} {layout : IntegrityLayout}
    (h : parseIntegrityLayout header sectionSize kind = .ok layout) : layout.Sound sectionSize := by
  cases kind with
  | pfs0 =>
    obtain ⟨l, hl, ⟨⟩⟩ := bind_eq_ok_iff.mp h
    obtain ⟨_, hblock, h⟩ := bind_eq_ok_iff.mp hl
    obtain ⟨_, htable, h⟩ := bind_eq_ok_iff.mp h
    obtain ⟨_, hdata, h⟩ := bind_eq_ok_iff.mp h
    obtain ⟨_, hroom, h⟩ := bind_eq_ok_iff.mp h
    cases h
    exact ⟨pos_of_validateBlockSize hblock, le_of_validateSubrange htable,
      le_of_validateSubrange hdata, le_of_requireHashes hroom⟩
  | romFs =>
    obtain ⟨l, hl, ⟨⟩⟩ := bind_eq_ok_iff.mp h
    exact parseIvfcLayout_eq_ok hl
  | bktr =>
    obtain ⟨l, -, ⟨⟩⟩ := bind_eq_ok_iff.mp h
    trivial
  | unknown =>
    cases h
    trivial

end

/-! ## Binding -/

section

variable {sha256 : List UInt8 → List UInt8} {s s' : SectionStorage} {layout : IntegrityLayout}

/-- The header authenticates the layers down to the data. -/
def IntegrityLayout.Authenticated (sha256 : List UInt8 → List UInt8) (s : SectionStorage) :
    IntegrityLayout → Prop
  | hierarchicalSha256 l =>
    sha256 (paddedBytes s l.hashTableOffset l.hashTableSize .none) = l.masterHash ∧
      Authentic sha256 s l.dataOffset l.dataSize l.blockSize false (.storage l.hashTableOffset)
  | ivfc l => Layers sha256 s (.inline l.masterHashes) l.levels
  | none | bktr _ => True

theorem validateLayout_spec (hword : s.size < wordBound) (hlayout : layout.Sound s.size) :
    wp (validateLayout sha256 s layout)
      (Reads s fun checks ↦ checks.all (·.status = .valid) = true → layout.Authenticated sha256 s)
      [] := by
  have hnil : Inside s [] := nofun
  cases layout with
  | none | bktr => exact ⟨fun _ ↦ trivial, hnil⟩
  | hierarchicalSha256 l =>
    obtain ⟨hpos, htable, hdata, hroom⟩ := hlayout
    rw [validateLayout, wp_bind]
    refine wp_of_ok (hashPaddedRange_spec hword htable nofun hnil) ?_
    rintro _ reads ⟨rfl, h⟩
    refine (wp_bind _ _).mpr (wp_of_ok (validateHashLayer_spec hword hpos hdata
      ((Nat.add_le_add_left hroom _).trans htable) h) ?_)
    rintro valid reads ⟨hvalid, h⟩
    refine ⟨fun hall ↦ ?_, h⟩
    simp only [all_cons, all_nil, Bool.and_true, Bool.and_eq_true, decide_eq_true_iff,
      status_eq_valid_iff] at hall
    exact ⟨hall.1, hvalid hall.2⟩
  | ivfc l =>
    refine validateLevels_spec hword hlayout (fun count hcount ↦ ?_) 0 hnil
    exact Nat.le_of_mul_le_mul_right hcount (by decide)

theorem IntegrityLayout.Authenticated.agree (hinj : Function.Injective sha256)
    (hlayout : layout.Sound s.size) (h : layout.Authenticated sha256 s)
    (h' : layout.Authenticated sha256 s') {level : Nat × Nat}
    (hlevel : layout.dataLevel = some level) : Agree s s' level.1 level.2 := by
  cases layout with
  | none | bktr => cases hlevel
  | hierarchicalSha256 l =>
    cases hlevel
    have htable := Agree.of_paddedBytes (hinj (h.1.trans h'.1.symm))
    exact h.2.agree hinj hlayout.1 h'.2 (htable.hash hlayout.2.2.2)
  | ivfc l =>
    obtain ⟨last, hlast, rfl⟩ := Option.map_eq_some_iff.mp hlevel
    exact agree_of_levels hinj hlayout h h' (fun _ _ _ _ ↦ rfl) hlast

end

/-- **Integrity validation binds content.** Two storages of a section that are valid under the same
header agree on the data; and a validation reads inside the section only, so that nothing but the
host makes it fail. -/
theorem validate_binds {sha256 : List UInt8 → List UInt8} (hinj : Function.Injective sha256)
    {header : Nat → UInt8} {sectionSize : Nat} {kind : NcaSectionType} {layout : IntegrityLayout}
    (hword : sectionSize < wordBound)
    (hparse : parseIntegrityLayout header sectionSize kind = .ok layout) (index : Nat)
    (headerHashValid : Bool) :
    (∀ (s s' : SectionStorage) (report report' : IntegrityReport) (reads reads' : List (Nat × Nat)),
      s.size = sectionSize → s'.size = sectionSize →
      validate sha256 s index headerHashValid layout [] = .ok report reads →
      validate sha256 s' index headerHashValid layout [] = .ok report' reads' →
      report.isValid = true → report'.isValid = true →
      ∀ level ∈ layout.dataLevel, Agree s s' level.1 level.2) ∧
    ∀ s : SectionStorage, s.size = sectionSize →
      wp (validate sha256 s index headerHashValid layout)
        ⟨fun _ reads ↦ Inside s reads,
          fun _ reads ↦ Inside s reads ∧ ∃ offset count, s.faults offset count = true, False⟩
        [] := by
  have hlayout := parseIntegrityLayout_sound hparse
  have hspec (s : SectionStorage) (hs : s.size = sectionSize) :
      wp (validate sha256 s index headerHashValid layout)
        (Reads s fun report ↦ report.isValid = true → layout.Authenticated sha256 s) [] := by
    subst hs
    refine (wp_bind _ _).mpr (wp_of_ok (validateLayout_spec hword hlayout) ?_)
    rintro checks reads ⟨hchecks, h⟩
    refine ⟨fun hvalid ↦ hchecks ?_, h⟩
    rw [IntegrityReport.isValid, all_cons, Bool.and_eq_true, Bool.and_eq_true] at hvalid
    exact hvalid.2.2
  refine ⟨fun s s' report report' reads reads' hs hs' hok hok' hvalid hvalid' level hlevel ↦ ?_,
    fun s hs ↦ wp_of_ok (hspec s hs) fun _ _ h ↦ h.2⟩
  subst hs
  exact ((ok_of_wp (hspec s rfl) hok).1 hvalid).agree hinj hlayout
    ((ok_of_wp (hspec s' hs') hok').1 hvalid') hlevel

/-- A section of one block, whose master hash, table and data are zeros; the last byte is free. -/
def zeroSection (last : UInt8) : SectionStorage where
  size := 0x41
  bytes i := if i = 0x40 then last else 0
  faults _ _ := false

def zeroHeader (i : Nat) : UInt8 := if i = 0x28 ∨ i = 0x38 ∨ i = 0x40 ∨ i = 0x48 then 0x20 else 0

theorem validate_binds_zeroSection :
    ∃ layout report report' reads reads',
      parseIntegrityLayout zeroHeader 0x41 .pfs0 = .ok layout ∧
      validate id (zeroSection 1) 0 true layout [] = .ok report reads ∧
      validate id (zeroSection 2) 0 true layout [] = .ok report' reads' ∧
      ∀ level ∈ layout.dataLevel, Agree (zeroSection 1) (zeroSection 2) level.1 level.2 := by
  have hparse : parseIntegrityLayout zeroHeader 0x41 .pfs0 = .ok (.hierarchicalSha256
      ⟨List.replicate 0x20 0, 0, 0x20, 0x20, 0x20, 0x20⟩) := rfl
  refine ⟨_, _, _, _, _, hparse, rfl, rfl, ?_⟩
  exact (validate_binds Function.injective_id (by decide) hparse 0 true).1 _ _ _ _ _ _ rfl rfl rfl
    rfl (by decide) (by decide)

end Nixe.Loader
