import Nixe.Jit.Code

/-!
# Discovery of a region

`discover_region` walks the code from a start address breadth first, block by block, up to a
limit on the number of instructions. Every word it comes to is fetched and decoded, whether or not
the guest will ever execute it.

The inner loop recurses on the number of instructions that are left, and the outer loop on a bound
for the number of blocks. The instruction limit is such a bound, since every block holds an
instruction.
-/

namespace Nixe.Jit

open List

def lcqMaxRegionInstructions : Nat := 512

def hcqMaxRegionInstructions : Nat := 2560

/-! ## Regions -/

inductive ExceptionKind where
  | supervisorCall
  | breakpoint
  deriving DecidableEq, Repr

inductive BlockTerminator where
  | direct (target : GuestAddress)
  | conditional (taken notTaken : GuestAddress)
  | call (target returnAddress : GuestAddress)
  | indirect
  | architectural (kind : ExceptionKind) (syndrome : Option (BitVec 16))
  | unsupported
  | fpModeChange (continuation : GuestAddress)
  | limit (continuation : GuestAddress)
  deriving DecidableEq, Repr

structure BasicBlockRecord where
  start : GuestAddress
  instructions : List DecodedInstruction
  terminator : BlockTerminator
  deriving DecidableEq, Repr

inductive ExternalExitKind where
  | direct
  | conditionalTaken
  | conditionalNotTaken
  | call
  | indirect
  | architectural
  | unsupported
  | fpModeChange
  | regionLimit
  deriving DecidableEq, Repr

structure ExternalExitRecord where
  source : GuestAddress
  target : Option GuestAddress
  kind : ExternalExitKind
  deriving DecidableEq, Repr

/-- What a compilation depends on: the physical pages its words were fetched from and the code
pages they lie on, in the order they were met and without repetition. -/
structure Capture where
  dependencies : List CodePageDependency := []
  mappingDependencies : List CodePageSpan := []
  lastMappingDependency : Option CodePageSpan := none
  deriving DecidableEq, Repr

namespace Capture

def addDependency (capture : Capture) (dependency : CodePageDependency) : Capture :=
  if dependency ∈ capture.dependencies then capture
  else { capture with dependencies := capture.dependencies ++ [dependency] }

def addDependencies (capture : Capture) (dependencies : CodeDependencies) : Capture :=
  dependencies.toList.foldl addDependency capture

/-- Whether the last code page that was asked for holds the address. -/
def atSpan (capture : Capture) (pc : GuestAddress) : Bool :=
  capture.lastMappingDependency.any fun span ↦ span.contains pc

def addSpan (capture : Capture) (span : CodePageSpan) : Capture :=
  { capture with
    mappingDependencies :=
      if span ∈ capture.mappingDependencies then capture.mappingDependencies
      else capture.mappingDependencies ++ [span]
    lastMappingDependency := some span }

variable {capture : Capture} {d : CodePageDependency}

theorem mem_addDependency : d ∈ (capture.addDependency d).dependencies := by
  rw [addDependency]
  split_ifs with h
  · exact h
  · exact mem_append_right _ (mem_singleton_self d)

theorem subset_addDependency :
    capture.dependencies ⊆ (capture.addDependency d).dependencies := by
  rw [addDependency]
  split_ifs
  · exact List.Subset.refl _
  · exact subset_append_left _ _

theorem spans_addDependency :
    (capture.addDependency d).mappingDependencies = capture.mappingDependencies ∧
      (capture.addDependency d).lastMappingDependency = capture.lastMappingDependency := by
  rw [addDependency]
  split_ifs <;> exact ⟨rfl, rfl⟩

/-- The dependencies of a word are added, and nothing else changes. -/
theorem addDependencies_spec (capture : Capture) (ds : List CodePageDependency) :
    capture.dependencies ⊆ (ds.foldl addDependency capture).dependencies ∧
      (∀ d ∈ ds, d ∈ (ds.foldl addDependency capture).dependencies) ∧
      (ds.foldl addDependency capture).mappingDependencies =
        capture.mappingDependencies ∧
      (ds.foldl addDependency capture).lastMappingDependency =
        capture.lastMappingDependency := by
  induction ds generalizing capture with
  | nil => exact ⟨List.Subset.refl _, nofun, rfl, rfl⟩
  | cons d ds ih =>
    obtain ⟨hsubset, hmem, hspans, hlast⟩ := ih (capture.addDependency d)
    refine ⟨fun x hx ↦ hsubset (subset_addDependency hx), ?_,
      hspans.trans spans_addDependency.1, hlast.trans spans_addDependency.2⟩
    intro x hx
    rcases mem_cons.mp hx with rfl | hx
    · exact hsubset mem_addDependency
    · exact hmem x hx

theorem addSpan_spec (span : CodePageSpan) :
    capture.mappingDependencies ⊆ (capture.addSpan span).mappingDependencies ∧
      span ∈ (capture.addSpan span).mappingDependencies := by
  rw [addSpan]
  split_ifs with hold
  · exact ⟨List.Subset.refl _, hold⟩
  · exact ⟨subset_append_left _ _, mem_append_right _ (mem_singleton_self span)⟩

/-- The code page that was asked for last is recorded. -/
def LastKnown (capture : Capture) : Prop :=
  ∀ span, capture.lastMappingDependency = some span → span ∈ capture.mappingDependencies

end Capture

structure NativeRegion where
  key : GuestAddress
  blocks : List BasicBlockRecord
  dependencies : List CodePageDependency
  mappingDependencies : List CodePageSpan
  externalExits : List ExternalExitRecord
  deriving DecidableEq, Repr

/-! ## One instruction -/

def branchTarget {n : Nat} (pc : GuestAddress) (immediate : BitVec n) : GuestAddress :=
  pc + immediate.signExtend 64 <<< 2

/-- What follows an instruction: the next one in its block, or the end of the block with the
addresses that become starts of blocks. -/
inductive Flow where
  | next
  | stop (terminator : BlockTerminator) (targets : List GuestAddress)
  deriving DecidableEq, Repr

/-- The `match` of `discover_region` on the normalized instruction. -/
def flow (cpu : ProcessCpuContext) (pc : GuestAddress) : A64Instruction → Flow
  | .system instruction =>
    if !cpu.systemInstructionSupported instruction then .stop .unsupported []
    else if instruction = .writeRegister 0xd51b4400 then .stop (.fpModeChange (pc + 4)) []
    else .next
  | .control .nop => .next
  | .integer => .next
  | .memory => .next
  | .fpSimd => .next
  | .control (.branchImmediate immediate) =>
    .stop (.direct (branchTarget pc immediate)) [branchTarget pc immediate]
  | .control (.conditionalBranch immediate) =>
    .stop (.conditional (branchTarget pc immediate) (pc + 4)) [branchTarget pc immediate, pc + 4]
  | .control (.compareBranch immediate) =>
    .stop (.conditional (branchTarget pc immediate) (pc + 4)) [branchTarget pc immediate, pc + 4]
  | .control (.testBranch immediate) =>
    .stop (.conditional (branchTarget pc immediate) (pc + 4)) [branchTarget pc immediate, pc + 4]
  | .control (.branchLinkImmediate immediate) =>
    .stop (.call (branchTarget pc immediate) (pc + 4)) []
  | .control .branchRegister => .stop .indirect []
  | .control (.supervisorCall immediate) =>
    .stop (.architectural .supervisorCall (some immediate)) []
  | .control (.breakpoint immediate) => .stop (.architectural .breakpoint (some immediate)) []
  | .recognizedUnsupported => .stop .unsupported []

/-! ## The search -/

/-- The block starts that wait to be walked and those that were ever put there. -/
structure Frontier where
  pending : List GuestAddress
  scheduled : List GuestAddress
  deriving DecidableEq, Repr

namespace Frontier

variable (published : GuestAddress → Bool)

def schedule (f : Frontier) (target : GuestAddress) : Frontier :=
  if !published target && !f.scheduled.contains target then
    ⟨f.pending ++ [target], f.scheduled ++ [target]⟩
  else f

def scheduleAll (f : Frontier) (targets : List GuestAddress) : Frontier :=
  targets.foldl (schedule published) f

end Frontier

/-- The variables of `discover_region` between two words. -/
structure Discovery where
  frontier : Frontier
  blocks : List BasicBlockRecord := []
  capture : Capture := {}
  instructionCount : Nat := 0
  deriving DecidableEq, Repr

section

variable (cpu : ProcessCpuContext) (memory : InstructionMemory) (published : GuestAddress → Bool)

/-- The query for the code page of `pc`, made unless the last answer already covers it. -/
def capturePage (capture : Capture) (pc : GuestAddress) : Except DirectJitError Capture :=
  if capture.atSpan pc then .ok capture
  else
    match memory.codePageSpan pc with
    | .ok span => .ok (capture.addSpan span)
    | .error fault => .error (.codePageQueryFailed fault)

/-- Fetches and decodes the word at `pc`: the instruction with what follows it. -/
def readWord (capture : Capture) (pc : GuestAddress) :
    Except DirectJitError (Capture × DecodedInstruction × Flow) :=
  match memory.fetch32 pc with
  | .error fault => .error (.fetchFailed fault)
  | .ok fetched => do
    let capture ← capturePage memory (capture.addDependencies fetched.dependencies) pc
    match cpu.decode fetched.bits with
    | .decoded instruction =>
      .ok (capture, ⟨pc, fetched.bits, instruction⟩, flow cpu pc instruction)
    | .recognizedUnimplemented instruction =>
      .ok (capture, ⟨pc, fetched.bits, instruction⟩, .stop .unsupported [])
    | .unallocated reason => .error (.unallocated pc fetched.bits reason)
    | .reserved name reason => .error (.reserved pc fetched.bits name reason)

/-- The inner loop: `left` is what remains of the instruction limit. -/
def walkBlock (start : GuestAddress) :
    Nat → Discovery → GuestAddress → List DecodedInstruction →
      Except DirectJitError (Discovery × List DecodedInstruction × BlockTerminator)
  | 0, d, pc, instructions => .ok (d, instructions, .limit pc)
  | left + 1, d, pc, instructions =>
    -- the two checks before the fetch, which end the block in the same way
    if pc ≠ start && (published pc || d.frontier.scheduled.contains pc) then
      .ok (d, instructions, .direct pc)
    else
      match readWord cpu memory d.capture pc with
      | .error error => .error error
      | .ok (capture, decoded, followed) =>
        let d := { d with capture, instructionCount := d.instructionCount + 1 }
        match followed with
        | .next => walkBlock start left d (pc + 4) (instructions ++ [decoded])
        | .stop terminator targets =>
          .ok ({ d with frontier := d.frontier.scheduleAll published targets },
            instructions ++ [decoded], terminator)

/-- The outer loop over the pending block starts. -/
def discoverBlocks (maxInstructions : Nat) : Nat → Discovery → Except DirectJitError Discovery
  | 0, d => .ok d
  | bound + 1, d =>
    match d.frontier.pending with
    | [] => .ok d
    | start :: pending =>
      if d.instructionCount = maxInstructions then .ok d
      else
        match walkBlock cpu memory published start (maxInstructions - d.instructionCount)
            { d with frontier := ⟨pending, d.frontier.scheduled⟩ } start [] with
        | .error error => .error error
        | .ok (d, instructions, terminator) =>
          discoverBlocks maxInstructions bound
            { d with blocks := d.blocks ++ [⟨start, instructions, terminator⟩] }

end

/-- The code page of `pc` is recorded. -/
theorem capturePage_spec {memory : InstructionMemory} {capture capture' : Capture}
    {pc : GuestAddress} (hlast : capture.LastKnown)
    (h : capturePage memory capture pc = .ok capture') :
    capture'.dependencies = capture.dependencies ∧
      capture.mappingDependencies ⊆ capture'.mappingDependencies ∧ capture'.LastKnown ∧
      ∃ span ∈ capture'.mappingDependencies, span.contains pc = true := by
  rw [capturePage] at h
  split_ifs at h with hat
  · obtain rfl := Except.ok.inj h
    obtain ⟨span, hspan, hcontains⟩ := (Option.any_eq_true ..).mp hat
    exact ⟨rfl, List.Subset.refl _, hlast, span, hlast span hspan, hcontains⟩
  · rcases hspan : memory.codePageSpan pc with fault | span
    · simp [hspan] at h
    rw [hspan] at h
    obtain rfl := Except.ok.inj h
    obtain ⟨hsubset, hmem⟩ := capture.addSpan_spec span
    refine ⟨rfl, hsubset, fun last hlast ↦ Option.some.inj hlast ▸ hmem, span, hmem, ?_⟩
    exact memory.contains_of_codePageSpan pc span hspan

/-! ## External exits -/

/-- The exits of one block that leave the region whose blocks start at `starts`. -/
def BasicBlockRecord.externalExits (starts : List GuestAddress) (block : BasicBlockRecord) :
    List ExternalExitRecord :=
  let source := (block.instructions.getLast?.map DecodedInstruction.location).getD block.start
  match block.terminator with
  | .direct target => if starts.contains target then [] else [⟨source, some target, .direct⟩]
  | .conditional taken notTaken =>
    (if starts.contains taken then [] else [⟨source, some taken, .conditionalTaken⟩]) ++
      if starts.contains notTaken then [] else [⟨source, some notTaken, .conditionalNotTaken⟩]
  | .call target _ => [⟨source, some target, .call⟩]
  | .indirect => [⟨source, none, .indirect⟩]
  | .architectural _ _ => [⟨source, none, .architectural⟩]
  | .unsupported => [⟨source, none, .unsupported⟩]
  | .fpModeChange _ => [⟨source, none, .fpModeChange⟩]
  | .limit continuation => [⟨source, some continuation, .regionLimit⟩]

def discoverRegion (cpu : ProcessCpuContext) (memory : InstructionMemory) (start : GuestAddress)
    (maxInstructions : Nat) (published : GuestAddress → Bool) :
    Except DirectJitError NativeRegion :=
  if maxInstructions = 0 then .error .zeroInstructionLimit
  else
    match discoverBlocks cpu memory published maxInstructions maxInstructions
        { frontier := ⟨[start], [start]⟩ } with
    | .error error => .error error
    | .ok d =>
      .ok {
        key := start
        blocks := d.blocks
        dependencies := d.capture.dependencies
        mappingDependencies := d.capture.mappingDependencies
        externalExits :=
          d.blocks.flatMap (BasicBlockRecord.externalExits (d.blocks.map BasicBlockRecord.start)) }

end Nixe.Jit
