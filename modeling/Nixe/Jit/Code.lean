import Nixe.Memory.InvalidationLog

/-!
# Guest code as the compiler sees it

Instruction memory, the decoder and the errors of the direct compiler. A process compiles for one
address space and one platform, so the reads of instruction memory and the decoder are those of
the process; what the decoder makes of a word is a parameter of the development.
-/

namespace Nixe.Jit

open Memory

abbrev GuestAddress : Type := BitVec 64

instance : Std.TransOrd GuestAddress := inferInstance

/-! ## Instruction memory -/

inductive InstructionFetchFaultReason where
  | unmapped
  | executePermissionDenied
  | misaligned
  | incompleteCrossPageFetch
  | addressOverflow
  | memory (reason : String)
  deriving DecidableEq, Repr

structure InstructionFetchFault where
  address : GuestAddress
  reason : InstructionFetchFaultReason
  deriving DecidableEq, Repr

structure CodePageDependency where
  page : Nat
  mappingGeneration : Nat
  deriving DecidableEq, Repr

structure CodeDependencies where
  first : CodePageDependency
  second : Option CodePageDependency
  deriving DecidableEq, Repr

/-- `CodeDependencies::iter`. -/
def CodeDependencies.toList (d : CodeDependencies) : List CodePageDependency :=
  d.first :: d.second.toList

structure FetchedCode where
  bits : BitVec 32
  dependencies : CodeDependencies
  deriving DecidableEq, Repr

/-- The virtual extent of one code page; a page that ends at `2 ^ 64` has no end. -/
structure CodePageSpan where
  start : GuestAddress
  endExclusive : Option GuestAddress
  deriving DecidableEq, Repr

namespace CodePageSpan

def stop (span : CodePageSpan) : Nat :=
  match span.endExclusive with
  | some stop => stop.toNat
  | none => 2 ^ 64

def contains (span : CodePageSpan) (address : GuestAddress) : Bool :=
  span.start.toNat ≤ address.toNat &&
    match span.endExclusive with
    | some stop => address.toNat < stop.toNat
    | none => true

theorem contains_iff {span : CodePageSpan} {address : GuestAddress} :
    span.contains address = true ↔
      span.start.toNat ≤ address.toNat ∧ address.toNat < span.stop := by
  rcases h : span.endExclusive with _ | stop
  · have hlt : address.toNat < 18446744073709551616 := address.isLt
    simp [contains, CodePageSpan.stop, h, hlt]
  · simp [contains, CodePageSpan.stop, h]

end CodePageSpan

/-- The instruction view of the address space at one moment: `fetch32` and `code_page_span`. A span
that is returned contains the address it was asked for (`CodePageSpan::containing`), and a word
that can be fetched lies on a code page: both reads ask for an executable mapping. -/
structure InstructionMemory where
  fetch32 : GuestAddress → Except InstructionFetchFault FetchedCode
  codePageSpan : GuestAddress → Except InstructionFetchFault CodePageSpan
  contains_of_codePageSpan : ∀ address span,
    codePageSpan address = .ok span → span.contains address = true
  codePageSpan_of_fetch32 : ∀ address fetched,
    fetch32 address = .ok fetched → ∃ span, codePageSpan address = .ok span

/-! ## Decoded instructions -/

inductive ControlInstruction where
  | nop
  | branchImmediate (immediate26 : BitVec 26)
  | branchLinkImmediate (immediate26 : BitVec 26)
  | branchRegister
  | conditionalBranch (immediate19 : BitVec 19)
  | compareBranch (immediate19 : BitVec 19)
  | testBranch (immediate14 : BitVec 14)
  | supervisorCall (immediate16 : BitVec 16)
  | breakpoint (immediate16 : BitVec 16)
  deriving DecidableEq, Repr

inductive SystemInstruction where
  | hint (hint : Nat)
  | readRegister (systemKey : BitVec 32)
  | writeRegister (systemKey : BitVec 32)
  | barrier (barrierOpcode barrierOption : Nat)
  | clearExclusive
  | system (systemKey : BitVec 32)
  deriving DecidableEq, Repr

/-- The families of `decode::a64::normalize`. The operands of the integer, memory and SIMD families
are left out: the search for a region only tells the families apart. -/
inductive A64Instruction where
  | control (instruction : ControlInstruction)
  | system (instruction : SystemInstruction)
  | integer
  | memory
  | fpSimd
  | recognizedUnsupported
  deriving DecidableEq, Repr

inductive DecodeResult where
  | decoded (instruction : A64Instruction)
  | unallocated (reason : String)
  | reserved (name reason : String)
  | recognizedUnimplemented (instruction : A64Instruction)
  deriving DecidableEq, Repr

structure DecodedInstruction where
  location : GuestAddress
  encoding : BitVec 32
  instruction : A64Instruction
  deriving DecidableEq, Repr

/-- The immutable context of the process: its address space and the decoder of its platform. -/
structure ProcessCpuContext where
  addressSpaceId : Nat
  decode : BitVec 32 → DecodeResult
  systemInstructionSupported : SystemInstruction → Bool

/-! ## Errors -/

inductive DirectJitErrorKind where
  | invalidGuestCode
  | unsupported
  | capacity
  | shutdown
  | internal
  deriving DecidableEq, Repr

/-- `DirectJitError`, one constructor for each message. The last one stands for the errors of the
code generator and of the fault registry, which carry their own text. -/
inductive DirectJitError where
  | zeroInstructionLimit
  | fetchFailed (fault : InstructionFetchFault)
  | codePageQueryFailed (fault : InstructionFetchFault)
  | unallocated (location : GuestAddress) (encoding : BitVec 32) (reason : String)
  | reserved (location : GuestAddress) (encoding : BitVec 32) (name reason : String)
  | shutdown
  | codeSizeOverflows
  | codeArenaExhausted (used limit : Nat)
  | cannotConsumeInvalidations (error : MemoryInvalidationError)
  | cannotRevalidate (error : MemoryInvalidationError)
  | nullCanonicalCell
  | lostCanonicalEntry
  | generator (kind : DirectJitErrorKind) (detail : String)
  deriving DecidableEq, Repr

def DirectJitError.kind : DirectJitError → DirectJitErrorKind
  | .zeroInstructionLimit => .internal
  | .fetchFailed _ => .invalidGuestCode
  | .codePageQueryFailed _ => .invalidGuestCode
  | .unallocated _ _ _ => .invalidGuestCode
  | .reserved _ _ _ _ => .invalidGuestCode
  | .shutdown => .shutdown
  | .codeSizeOverflows => .capacity
  | .codeArenaExhausted _ _ => .capacity
  | .cannotConsumeInvalidations _ => .internal
  | .cannotRevalidate _ => .internal
  | .nullCanonicalCell => .internal
  | .lostCanonicalEntry => .internal
  | .generator kind _ => kind

end Nixe.Jit
