import Nixe.Jit.Region

/-!
# When a region is discovered

A search that meets a word it cannot fetch or decode fails as a whole, whatever led it there.
`swept` lists the addresses such a search would look at if an unusable word only ended its block;
`discoverRegion_isOk_iff` says that a region is discovered exactly when every one of them holds a
usable word.
-/

namespace Nixe.Jit

open List

/-! ## Words -/

section

variable (cpu : ProcessCpuContext) (memory : InstructionMemory)

/-- What follows the word at `pc`, if it can be fetched and decoded. -/
def wordFlow (pc : GuestAddress) : Option Flow :=
  match memory.fetch32 pc with
  | .error _ => none
  | .ok fetched =>
    match cpu.decode fetched.bits with
    | .decoded instruction => some (flow cpu pc instruction)
    | .recognizedUnimplemented _ => some (.stop .unsupported [])
    | .unallocated _ => none
    | .reserved _ _ => none

/-- The word at `pc` can be fetched and decoded. -/
def ValidWord (pc : GuestAddress) : Prop := (wordFlow cpu memory pc).isSome = true

instance (pc : GuestAddress) : Decidable (ValidWord cpu memory pc) :=
  inferInstanceAs (Decidable (_ = true))

variable {cpu memory} {pc : GuestAddress}

theorem exists_capturePage {fetched : FetchedCode} (capture : Capture)
    (h : memory.fetch32 pc = .ok fetched) :
    ∃ capture', capturePage memory capture pc = .ok capture' := by
  obtain ⟨span, hspan⟩ := memory.codePageSpan_of_fetch32 pc fetched h
  by_cases hat : capture.atSpan pc
  · exact ⟨capture, by simp [capturePage, hat]⟩
  · exact ⟨capture.addSpan span, by simp [capturePage, hat, hspan]⟩

theorem readWord_eq_ok {f : Flow} (capture : Capture) (h : wordFlow cpu memory pc = some f) :
    ∃ capture' decoded, readWord cpu memory capture pc = .ok (capture', decoded, f) := by
  rw [wordFlow] at h
  rcases hfetch : memory.fetch32 pc with fault | fetched
  · simp [hfetch] at h
  obtain ⟨capture', hcapture⟩ :=
    exists_capturePage (capture.addDependencies fetched.dependencies) hfetch
  rcases hdecode : cpu.decode fetched.bits with instruction | reason | ⟨name, reason⟩ | instruction
    <;> simp [hfetch, hdecode] at h <;> subst h
  all_goals
    exact ⟨capture', ⟨pc, fetched.bits, instruction⟩, by
      simp [readWord, hfetch, hcapture, hdecode, bind, Except.bind]⟩

theorem readWord_eq_error (capture : Capture) (h : wordFlow cpu memory pc = none) :
    ∃ error, readWord cpu memory capture pc = .error error ∧ error.kind = .invalidGuestCode := by
  rw [wordFlow] at h
  rcases hfetch : memory.fetch32 pc with fault | fetched
  · exact ⟨.fetchFailed fault, by simp [readWord, hfetch], rfl⟩
  obtain ⟨capture', hcapture⟩ :=
    exists_capturePage (capture.addDependencies fetched.dependencies) hfetch
  rcases hdecode : cpu.decode fetched.bits with instruction | reason | ⟨name, reason⟩ | instruction
    <;> simp [hfetch, hdecode] at h
  · exact ⟨.unallocated pc fetched.bits reason, by
      simp [readWord, hfetch, hcapture, hdecode, bind, Except.bind], rfl⟩
  · exact ⟨.reserved pc fetched.bits name reason, by
      simp [readWord, hfetch, hcapture, hdecode, bind, Except.bind], rfl⟩

end

/-! ## The addresses a search looks at -/

section

variable (flows : GuestAddress → Option Flow) (published : GuestAddress → Bool)

/-- The addresses of one block, with the block starts it leads to. -/
def sweepBlock (scheduled : List GuestAddress) (start : GuestAddress) :
    Nat → GuestAddress → List GuestAddress × List GuestAddress
  | 0, _ => ([], [])
  | left + 1, pc =>
    if pc ≠ start && (published pc || scheduled.contains pc) then ([], [])
    else
      match flows pc with
      | none => ([pc], [])
      | some .next =>
        let rest := sweepBlock scheduled start left (pc + 4)
        (pc :: rest.1, rest.2)
      | some (.stop _ targets) => ([pc], targets)

/-- The addresses of all blocks, breadth first, as long as instructions are left. -/
def sweep : Nat → Nat → Frontier → List GuestAddress
  | 0, _, _ => []
  | bound + 1, left, f =>
    match f.pending with
    | [] => []
    | start :: pending =>
      if left = 0 then []
      else
        let block := sweepBlock flows published f.scheduled start left start
        block.1 ++ sweep bound (left - block.1.length)
          ((⟨pending, f.scheduled⟩ : Frontier).scheduleAll published block.2)

end

theorem length_sweepBlock_le (flows : GuestAddress → Option Flow)
    (published : GuestAddress → Bool) (scheduled : List GuestAddress) (start : GuestAddress)
    (left : Nat) (pc : GuestAddress) :
    (sweepBlock flows published scheduled start left pc).1.length ≤ left := by
  induction left generalizing pc with
  | zero => simp [sweepBlock]
  | succ left ih =>
    rw [sweepBlock]
    split_ifs
    · simp
    rcases flows pc with _ | _ | ⟨terminator, targets⟩
    · simp
    · simpa using ih (pc + 4)
    · simp

/-- The addresses the search for a region looks at when a word that cannot be fetched or decoded
ends its block. -/
def swept (cpu : ProcessCpuContext) (memory : InstructionMemory) (start : GuestAddress)
    (maxInstructions : Nat) (published : GuestAddress → Bool) : List GuestAddress :=
  sweep (wordFlow cpu memory) published maxInstructions maxInstructions ⟨[start], [start]⟩

section

variable {cpu : ProcessCpuContext} {memory : InstructionMemory} {published : GuestAddress → Bool}
  {start : GuestAddress} {maxInstructions : Nat}

/-- A block whose words are all usable is walked to its end. -/
theorem walkBlock_eq_ok {left : Nat} (d : Discovery) {pc : GuestAddress}
    (instructions : List DecodedInstruction) {block : List GuestAddress × List GuestAddress}
    (hblock : sweepBlock (wordFlow cpu memory) published d.frontier.scheduled start left pc = block)
    (h : ∀ a ∈ block.1, ValidWord cpu memory a) :
    ∃ d' instructions' terminator,
      walkBlock cpu memory published start left d pc instructions =
        .ok (d', instructions', terminator) ∧
      d'.frontier = d.frontier.scheduleAll published block.2 ∧
      d'.instructionCount = d.instructionCount + block.1.length := by
  induction left generalizing d pc instructions block with
  | zero =>
    subst hblock
    exact ⟨d, instructions, .limit pc, rfl, rfl, rfl⟩
  | succ left ih =>
    rw [sweepBlock] at hblock
    rw [walkBlock]
    split_ifs at hblock ⊢
    · subst hblock
      exact ⟨d, instructions, .direct pc, rfl, rfl, rfl⟩
    rcases hflow : wordFlow cpu memory pc with _ | _ | ⟨terminator, targets⟩
    · rw [hflow] at hblock
      subst hblock
      have hvalid := h pc (mem_singleton.mpr rfl)
      simp [ValidWord, hflow] at hvalid
    · obtain ⟨capture, decoded, hread⟩ := readWord_eq_ok d.capture hflow
      rw [hflow] at hblock
      subst hblock
      obtain ⟨d', instructions', terminator, hwalk, hfrontier, hcount⟩ :=
        ih { d with capture, instructionCount := d.instructionCount + 1 }
          (instructions ++ [decoded]) rfl fun a ha ↦ h a (mem_cons_of_mem _ ha)
      refine ⟨d', instructions', terminator, ?_, hfrontier, ?_⟩
      · rw [hread]
        exact hwalk
      · simp only [hcount, length_cons]
        omega
    · obtain ⟨capture, decoded, hread⟩ := readWord_eq_ok d.capture hflow
      rw [hflow] at hblock
      subst hblock
      rw [hread]
      exact ⟨_, _, _, rfl, rfl, rfl⟩

/-- A block with an unusable word fails. -/
theorem walkBlock_eq_error {left : Nat} (d : Discovery) {pc : GuestAddress}
    (instructions : List DecodedInstruction) {a : GuestAddress}
    (ha : a ∈ (sweepBlock (wordFlow cpu memory) published d.frontier.scheduled start left pc).1)
    (h : ¬ ValidWord cpu memory a) :
    ∃ error, walkBlock cpu memory published start left d pc instructions = .error error ∧
      error.kind = .invalidGuestCode := by
  induction left generalizing d pc instructions with
  | zero => simp [sweepBlock] at ha
  | succ left ih =>
    rw [sweepBlock] at ha
    rw [walkBlock]
    split_ifs at ha ⊢
    · simp at ha
    rcases hflow : wordFlow cpu memory pc with _ | _ | ⟨terminator, targets⟩
    · obtain ⟨error, hread, hkind⟩ := readWord_eq_error d.capture hflow
      exact ⟨error, by rw [hread], hkind⟩
    · obtain ⟨capture, decoded, hread⟩ := readWord_eq_ok d.capture hflow
      have hne : a ≠ pc := by
        rintro rfl
        exact h (by simp [ValidWord, hflow])
      rw [hflow] at ha
      rw [hread]
      exact ih { d with capture, instructionCount := d.instructionCount + 1 } _
        ((mem_cons.mp ha).resolve_left hne)
    · rw [hflow] at ha
      rw [mem_singleton.mp ha] at h
      simp [ValidWord, hflow] at h

/-- The outer loop succeeds exactly when every word it comes to is usable. -/
theorem discoverBlocks_isOk_iff {bound : Nat} {d : Discovery}
    (hcount : d.instructionCount ≤ maxInstructions) :
    (∃ d', discoverBlocks cpu memory published maxInstructions bound d = .ok d') ↔
      ∀ a ∈ sweep (wordFlow cpu memory) published bound (maxInstructions - d.instructionCount)
        d.frontier, ValidWord cpu memory a := by
  induction bound generalizing d with
  | zero => simp [discoverBlocks, sweep]
  | succ bound ih =>
    rw [discoverBlocks, sweep]
    rcases hpending : d.frontier.pending with _ | ⟨start, pending⟩
    · simp
    by_cases hfull : d.instructionCount = maxInstructions
    · simp [hfull]
    have hleft : maxInstructions - d.instructionCount ≠ 0 := by omega
    simp only [hfull, hleft, if_false]
    generalize hblock : sweepBlock (wordFlow cpu memory) published d.frontier.scheduled start
      (maxInstructions - d.instructionCount) start = block
    by_cases hvalid : ∀ a ∈ block.1, ValidWord cpu memory a
    · obtain ⟨d', instructions, terminator, hwalk, hfrontier, hcount'⟩ :=
        walkBlock_eq_ok { d with frontier := ⟨pending, d.frontier.scheduled⟩ } [] hblock hvalid
      have hlength := length_sweepBlock_le (wordFlow cpu memory) published d.frontier.scheduled
        start (maxInstructions - d.instructionCount) start
      rw [hblock] at hlength
      rw [hwalk]
      simp only
      rw [ih (by simp only [hcount']; omega), hfrontier, hcount', forall_mem_append,
        Nat.sub_sub]
      exact ⟨fun h ↦ ⟨hvalid, h⟩, And.right⟩
    · simp only [not_forall] at hvalid
      obtain ⟨a, ha, hinvalid⟩ := hvalid
      obtain ⟨error, hwalk, -⟩ :=
        walkBlock_eq_error { d with frontier := ⟨pending, d.frontier.scheduled⟩ } []
          (hblock ▸ ha) hinvalid
      rw [hwalk]
      simp only [reduceCtorEq, exists_false, false_iff]
      exact fun h ↦ hinvalid (h a (mem_append_left _ ha))

/-- **The search succeeds exactly when every word it comes to can be fetched and decoded.** -/
theorem discoverRegion_isOk_iff (hmax : maxInstructions ≠ 0) :
    (∃ region, discoverRegion cpu memory start maxInstructions published = .ok region) ↔
      ∀ a ∈ swept cpu memory start maxInstructions published, ValidWord cpu memory a := by
  rw [discoverRegion, if_neg hmax, swept]
  have hblocks :
      (∃ d, discoverBlocks cpu memory published maxInstructions maxInstructions
        { frontier := ⟨[start], [start]⟩ } = .ok d) ↔ _ :=
    discoverBlocks_isOk_iff (Nat.zero_le maxInstructions)
  rw [Nat.sub_zero] at hblocks
  rw [← hblocks]
  rcases discoverBlocks cpu memory published maxInstructions maxInstructions
    { frontier := ⟨[start], [start]⟩ } with error | d <;> simp

end

end Nixe.Jit
