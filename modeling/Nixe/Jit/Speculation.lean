import Nixe.Effect.Behaviour
import Nixe.Jit.Discovery
import Nixe.Jit.Publication

/-!
# Errors about code that is never executed

The search for a region reads words to which a branch may lead, and an unusable one fails the whole
compilation. The error of a first compilation is the answer to the lookup; that of a background
compilation is stored in the process, and every later lookup answers with it. The results below say
how far such errors can come: exactly as far as a search comes to an unusable word.
-/

namespace Nixe.Jit

open Std Memory

/-- The errors of the search for a region about what it reads. -/
def DirectJitError.aboutCode : DirectJitError → Bool
  | fetchFailed _ => true
  | codePageQueryFailed _ => true
  | unallocated _ _ _ => true
  | reserved _ _ _ _ => true
  | _ => false

/-- The word can be decoded. -/
def decodes (cpu : ProcessCpuContext) (bits : BitVec 32) : Bool :=
  match cpu.decode bits with
  | .decoded _ => true
  | .recognizedUnimplemented _ => true
  | .unallocated _ => false
  | .reserved _ _ => false

/-- A step from `pc` does not read an unusable word. -/
def readsUsable (cpu : ProcessCpuContext) (memory : InstructionMemory) : Pc → Choice → Bool
  | .discover _ _, .fetch pc => ValidWord cpu memory pc
  | .queryPage _ reading pc bits, .go =>
    decodes cpu bits && (capturePage memory reading.capture pc).isOk
  | _, _ => true

variable {ι : Type}

def ReadsUsable (cpu : ProcessCpuContext) (c : Threads ι (JitProcess ι) Pc) (a : ι × Choice) :
    Prop := readsUsable cpu c.shared.memory (c.locals a.1) a.2 = true

instance (cpu : ProcessCpuContext) (c : Threads ι (JitProcess ι) Pc) (a : ι × Choice) :
    Decidable (ReadsUsable cpu c a) := inferInstanceAs (Decidable (_ = true))

/-! ## Steps -/

/-- Neither the process nor the thread at `pc` reports an error about code. -/
structure Unblamed (pc : Pc) (s : JitProcess ι) : Prop where
  error : ∀ e, pc.error = some e → e.aboutCode = false
  failure : ∀ e, s.failure = some e → e.aboutCode = false

/-- The answer is not an error about code. -/
def Answer.unblamed : Answer → Prop
  | .error e => e.aboutCode = false
  | _ => True

section

variable {s s' : JitProcess ι} {t : ι} {pc pc' : Pc} {b : Answer} {choice : Choice}
  {cpu : ProcessCpuContext} {maxNativeCodeBytes : Nat}

theorem Unblamed.quiet (h : Unblamed pc s) (hfailure : s'.failure = s.failure)
    (herror : pc'.error = none ∨ pc'.error = pc.error) : Unblamed pc' s' where
  error e he := by
    rcases herror with hnone | hsame
    · rw [hnone] at he
      exact nomatch he
    · exact h.error e (hsame ▸ he)
  failure e he := h.failure e (hfailure ▸ he)

variable {e : DirectJitError} {region : PublishedRegion}

theorem Unblamed.report (h : Unblamed pc s) (he : e.aboutCode = false)
    (hfailure : s'.failure = s.failure) (herror : pc'.error = none ∨ pc'.error = some e) :
    Unblamed pc' s' where
  error e' he' := by
    rcases herror with hnone | hsome
    · rw [hnone] at he'
      exact nomatch he'
    · exact Option.some.inj (hsome.symm.trans he') ▸ he
  failure e he := h.failure e (hfailure ▸ he)

theorem error_fail (job : Job) (e : DirectJitError) :
    (job.fail e).error = none ∨ (job.fail e).error = some e := by
  cases job with
  | lcq => exact .inr rfl
  | hcq =>
    rw [Job.fail]
    split_ifs
    · exact .inl rfl
    · exact .inr rfl

theorem error_failEntry {k : RegionKey} {outer : List Nat} (e : DirectJitError) :
    ((failEntry k outer e).2.error = none ∨ (failEntry k outer e).2.error = some e) ∧
      (e.aboutCode = false → (failEntry k outer e).1.unblamed) := by
  cases outer with
  | nil => exact ⟨.inl rfl, id⟩
  | cons => exact ⟨.inr rfl, fun _ ↦ trivial⟩

theorem error_resume_fail {resume : Resume} (e : DirectJitError) :
    ((resume.fail e).2.error = none ∨ (resume.fail e).2.error = some e) ∧
      (e.aboutCode = false → (resume.fail e).1.unblamed) := by
  cases resume with
  | entryFor => exact error_failEntry e
  | commit job => exact ⟨error_fail job e, fun _ ↦ trivial⟩
  | hcqFailed request _ => exact ⟨error_fail (.hcq request) e, fun _ ↦ trivial⟩
  | _ => exact ⟨.inl rfl, id⟩

theorem callStep_unblamed {cursor : Option Nat} {call : Call} (h : Unblamed (.idle cursor) s)
    (hstep : callStep cursor s call = some (b, pc', s')) : Unblamed pc' s' ∧ b.unblamed := by
  revert hstep
  fun_cases callStep cursor s call
  case case4 =>
    intro hstep
    obtain ⟨c, -, ⟨⟩⟩ := Option.map_eq_some_iff.mp hstep
    exact ⟨h.quiet rfl (.inl rfl), trivial⟩
  all_goals
    rintro ⟨⟩
    exact ⟨h.quiet rfl (.inl rfl), trivial⟩

/-- The only steps that find an error in the code are those that read it. -/
theorem compileStep_unblamed (h : Unblamed pc s)
    (hreads : readsUsable cpu s.memory pc choice = true)
    (hstep : compileStep cpu s pc choice = some (b, pc', s')) :
    Unblamed pc' s' ∧ b.unblamed := by
  revert hstep
  fun_cases compileStep cpu s pc choice
  case case11 => simp
  all_goals rintro ⟨⟩
  case case1 hfault => simp [readsUsable, ValidWord, wordFlow, hfault] at hreads
  case case4 he => simp [readsUsable, he, Except.isOk, Except.toBool] at hreads
  case case7 hdecode | case8 hdecode => simp [readsUsable, decodes, hdecode] at hreads
  case case9 job _ kind detail => exact ⟨h.report rfl rfl (error_fail job _), trivial⟩
  all_goals exact ⟨h.quiet rfl (.inl rfl), trivial⟩

theorem acquire_unblamed {pc₀ : Pc} (h : Unblamed pc s)
    (herror : pc₀.error = none ∨ pc₀.error = pc.error)
    (hstep : acquire t s pc₀ = some (b, pc', s')) : Unblamed pc' s' ∧ b.unblamed := by
  rw [acquire] at hstep
  split_ifs at hstep
  obtain ⟨⟩ := hstep
  exact ⟨h.quiet rfl herror, trivial⟩

theorem aboutCode_of_revalidation {job : Job} (h : revalidation cpu s job region = .error e) :
    e.aboutCode = false := by
  revert h
  fun_cases revalidation cpu s job region
  case case1 | case2 => simp
  case case3 =>
    rintro ⟨⟩
    rfl

theorem commitStep_unblamed (h : Unblamed pc s)
    (hstep : commitStep cpu s pc choice = some (b, pc', s')) :
    Unblamed pc' s' ∧ b.unblamed := by
  revert hstep
  fun_cases commitStep cpu s pc choice
  case case28 => simp
  all_goals rintro ⟨⟩
  case case1 he => exact ⟨h.report (aboutCode_of_revalidation he) rfl (error_fail _ _), trivial⟩
  case case3 | case13 | case18 => exact ⟨h.report rfl rfl (error_fail _ _), trivial⟩
  case case20 previous _ => cases previous <;> exact ⟨h.quiet rfl (.inl rfl), trivial⟩
  case case26 =>
    rw [restoreLcq_eq]
    exact ⟨h.quiet rfl (.inl rfl), trivial⟩
  all_goals exact ⟨h.quiet rfl (.inl rfl), trivial⟩

theorem aboutCode_of_lookupFailure (h : Unblamed pc s) (he : lookupFailure s = some e) :
    e.aboutCode = false := by
  rw [lookupFailure] at he
  cases hfailure : s.failure with
  | some error =>
    rw [hfailure] at he
    exact h.failure e (hfailure.trans he)
  | none =>
    rw [hfailure] at he
    simp only at he
    split_ifs at he
    cases he
    rfl

theorem lookupStep_unblamed [DecidableEq ι] (h : Unblamed pc s)
    (hstep : lookupStep cpu t s pc choice = some (b, pc', s')) :
    Unblamed pc' s' ∧ b.unblamed := by
  revert hstep
  fun_cases lookupStep cpu t s pc choice
  case case1 => exact acquire_unblamed h (.inl rfl)
  case case2 => exact acquire_unblamed h (.inr rfl)
  case case3 resume =>
    fun_cases reconcileStep cpu s resume
    case case1 | case2 =>
      rintro ⟨⟩
      exact ⟨h.quiet rfl (.inr rfl), trivial⟩
    case case3 =>
      rintro ⟨⟩
      exact ⟨h.report rfl rfl (error_resume_fail _).1, (error_resume_fail _).2 rfl⟩
  case case4 resume =>
    cases resume with
    | hcqFailed =>
      rintro ⟨⟩
      exact ⟨h.quiet rfl (.inr rfl), trivial⟩
    | _ =>
      rintro ⟨⟩
      exact ⟨h.quiet rfl (.inl rfl), trivial⟩
  case case7 | case21 | case28 => simp
  all_goals rintro ⟨⟩
  case case5 | case6 | case8 | case9 | case10 => exact ⟨h.quiet rfl (.inr rfl), trivial⟩
  case case11 he _ =>
    have hcode := aboutCode_of_lookupFailure h he
    exact ⟨h.report hcode rfl (error_failEntry _).1, (error_failEntry _).2 hcode⟩
  case case17 =>
    exact ⟨h.report rfl rfl (error_failEntry _).1, (error_failEntry _).2 rfl⟩
  case case24 he => exact ⟨h.quiet rfl (.inl rfl), aboutCode_of_lookupFailure h he⟩
  all_goals exact ⟨h.quiet rfl (.inl rfl), trivial⟩

theorem notifyStep_unblamed (h : Unblamed pc s)
    (hstep : notifyStep t s pc choice = some (b, pc', s')) : Unblamed pc' s' ∧ b.unblamed := by
  revert hstep
  fun_cases notifyStep t s pc choice
  case case12 => simp
  case case11 => exact acquire_unblamed h (.inl rfl)
  all_goals rintro ⟨⟩
  case case4 | case5 => exact ⟨h.quiet rfl (.inr rfl), trivial⟩
  case case6 => split_ifs <;> exact ⟨h.quiet rfl (.inr rfl), trivial⟩
  case case7 e _ =>
    have hcode := h.error e rfl
    exact ⟨h.report hcode rfl (error_failEntry _).1, (error_failEntry _).2 hcode⟩
  case case8 worker => cases worker <;> exact ⟨h.quiet rfl (.inl rfl), trivial⟩
  all_goals exact ⟨h.quiet rfl (.inl rfl), trivial⟩

theorem queueStep_unblamed (h : Unblamed pc s)
    (hstep : queueStep t s pc choice = some (b, pc', s')) : Unblamed pc' s' ∧ b.unblamed := by
  revert hstep
  fun_cases queueStep t s pc choice
  case case2 =>
    intro hstep
    obtain ⟨r, -, ⟨⟩⟩ := Option.map_eq_some_iff.mp hstep
    exact ⟨h.quiet rfl (.inl rfl), trivial⟩
  case case9 => exact acquire_unblamed h (.inr rfl)
  case case13 => exact acquire_unblamed h (.inl rfl)
  case case17 | case28 => simp
  all_goals rintro ⟨⟩
  case case11 e _ => exact ⟨h.report (h.error e rfl) rfl (error_fail _ _), trivial⟩
  case case15 =>
    rw [restoreLcq_eq]
    exact ⟨h.quiet rfl (.inl rfl), trivial⟩
  case case16 e _ =>
    refine ⟨⟨by rintro _ ⟨⟩, fun e' he' ↦ ?_⟩, trivial⟩
    cases hfailure : s.failure with
    | some failure =>
      simp only [hfailure] at he'
      exact h.failure e' (hfailure.trans he')
    | none =>
      simp only [hfailure] at he'
      exact h.error e' he'
  case case27 =>
    rw [exchange_eq]
    exact ⟨h.quiet rfl (.inl rfl), trivial⟩
  all_goals exact ⟨h.quiet rfl (.inl rfl), trivial⟩

end

section

variable [DecidableEq ι] {cpu : ProcessCpuContext} {maxNativeCodeBytes : Nat}
  {memory : InstructionMemory} {log : MemoryInvalidationLog}

/-- A step that reads no unusable word brings no error about code into the process. -/
theorem unblamed_step {c d : Threads ι (JitProcess ι) Pc} {a : ι × Choice} {b : Answer}
    (hc : c.Satisfies (fun s ↦ ∀ e, s.failure = some e → e.aboutCode = false)
      fun _ pc s ↦ Unblamed pc s)
    (hreads : ReadsUsable cpu c a)
    (h : processMachine cpu maxNativeCodeBytes c a = some (b, d)) :
    d.Satisfies (fun s ↦ ∀ e, s.failure = some e → e.aboutCode = false)
      (fun _ pc s ↦ Unblamed pc s) ∧ b.unblamed := by
  obtain ⟨t, choice⟩ := a
  obtain ⟨pc', s', hstep, rfl⟩ := ThreadStep.machine_eq_some_iff.mp h
  have hown : Unblamed pc' s' ∧ b.unblamed := by
    have ht := hc.locals t
    generalize hpc : c.locals t = pc at *
    rcases step_cases hstep with ⟨cursor, call, rfl, hcall⟩ |
      ⟨job, region, nativeBytes, rfl, hcommit⟩ | hstep | hstep | hstep | hstep | hstep
    · exact callStep_unblamed ht hcall
    · revert hcommit
      fun_cases commitLockStep maxNativeCodeBytes t c.shared job region nativeBytes
      case case4 => simp
      all_goals rintro ⟨⟩
      case case3 => exact ⟨ht.quiet rfl (.inl rfl), trivial⟩
      all_goals exact ⟨ht.report rfl rfl (error_fail job _), trivial⟩
    · exact compileStep_unblamed ht (hpc ▸ hreads) hstep
    · exact commitStep_unblamed ht hstep
    · exact lookupStep_unblamed ht hstep
    · exact notifyStep_unblamed ht hstep
    · exact queueStep_unblamed ht hstep
  refine ⟨⟨hown.1.failure, fun u ↦ ?_⟩, hown.2⟩
  by_cases hu : u = t
  · simp only [hu, Function.update_self]
    exact hown.1
  · simp only [Function.update_of_ne hu]
    exact ⟨(hc.locals u).error, hown.1.failure⟩

end

/-- **Speculative compilation.** The search from a word that can be read succeeds exactly if its
limit is not zero and every word it comes to can be read. In a run whose searches read usable words
only, no lookup answers with an error about code, and no background compilation stops the process
with one. -/
theorem discovery_succeeds_iff [DecidableEq ι] (cpu : ProcessCpuContext) :
    (∀ memory start maxInstructions published,
      (ValidWord cpu memory start →
        ∃ region, discoverRegion cpu memory start maxInstructions published = .ok region) ↔
      (ValidWord cpu memory start → maxInstructions ≠ 0 ∧
        ∀ a ∈ swept cpu memory start maxInstructions published, ValidWord cpu memory a)) ∧
    ∀ maxNativeCodeBytes memory log es c,
      (processMachine cpu maxNativeCodeBytes).Run (initialProcess ι memory log) es c →
      (processMachine cpu maxNativeCodeBytes).Along (ReadsUsable cpu)
        (initialProcess ι memory log) (es.map Prod.fst) →
      (∀ event ∈ es, event.2.unblamed) ∧ ∀ e, c.shared.failure = some e → e.aboutCode = false := by
  refine ⟨fun memory start maxInstructions published ↦ ?_,
    fun maxNativeCodeBytes memory log es c hrun halong ↦ ?_⟩
  · refine forall_congr' fun _ ↦ ?_
    by_cases hmax : maxInstructions = 0
    · simp [hmax, discoverRegion]
    · rw [discoverRegion_isOk_iff hmax]
      exact ⟨fun h ↦ ⟨hmax, h⟩, And.right⟩
  · have hinit : (initialProcess ι memory log).Satisfies
        (fun s ↦ ∀ e, s.failure = some e → e.aboutCode = false) fun _ pc s ↦ Unblamed pc s :=
      ⟨by rintro _ ⟨⟩, fun _ ↦ ⟨by rintro _ ⟨⟩, by rintro _ ⟨⟩⟩⟩
    constructor
    · refine Machine.Run.forall_mem_along ?_ hinit hrun halong
      exact fun _ _ _ _ hc hreads h ↦ unblamed_step hc hreads h
    · refine (Machine.Run.invariant_along ?_ hinit hrun halong).shared
      exact fun _ _ _ _ hc hreads h ↦ (unblamed_step hc hreads h).1

/-! ## A branch that is never taken -/

/-- The patterns `compare-branch` and `svc` of the decoder's table. -/
def branchContext : ProcessCpuContext where
  addressSpaceId := 0
  decode bits :=
    if bits &&& 0x7e000000 = 0x34000000 then
      .decoded (.control (.compareBranch (bits.extractLsb' 5 19)))
    else if bits &&& 0xffe0001f = 0xd4000001 then
      .decoded (.control (.supervisorCall (bits.extractLsb' 5 16)))
    else .unallocated "no allocated instruction pattern matched"
  systemInstructionSupported _ := true

/-- `cbz x0, 4096` and `svc #0` on one page, and `svc #0` on a second page that may be mapped. -/
def branchMemory (second : Bool) : InstructionMemory where
  fetch32 address :=
    if address = 0 then .ok ⟨0xb4008000, ⟨0, 0⟩, none⟩
    else if address.toNat < 4096 then .ok ⟨0xd4000001, ⟨0, 0⟩, none⟩
    else if second then .ok ⟨0xd4000001, ⟨1, 0⟩, none⟩
    else .error ⟨address, .unmapped⟩
  codePageSpan address :=
    if address.toNat < 4096 then .ok ⟨0, some 4096⟩
    else if second then .ok ⟨4096, none⟩
    else .error ⟨address, .unmapped⟩
  contains_of_codePageSpan := by
    intro address span h
    rw [CodePageSpan.contains_iff]
    split_ifs at h with hfirst
    · obtain rfl := Except.ok.inj h
      exact ⟨Nat.zero_le _, hfirst⟩
    · obtain rfl := Except.ok.inj h
      exact ⟨Nat.not_lt.mp hfirst, address.isLt⟩
  codePageSpan_of_fetch32 := by
    intro address fetched h
    by_cases hzero : address = 0
    · simp [hzero]
    · simp only [hzero, if_false] at h
      split_ifs at h ⊢ <;> exact ⟨_, rfl⟩

/-- A first compilation of `key` that reads the words at `fetches`, up to the notification. -/
def compileStepsOf (key : RegionKey) (fetches : List GuestAddress) : List (Bool × Choice) :=
  (true, .call (.entryFor key)) :: List.replicate 7 (true, .go) ++
    (fetches.flatMap fun pc ↦ [(true, .fetch pc), (true, .go)]) ++
    [(true, .go), (true, .compiled (.ok ⟨16, 4, Nat.succ_ne_zero 15⟩))] ++
    List.replicate 6 (true, .go) ++ (true, .registered none) :: List.replicate 6 (true, .go)

/-- The second page is compiled, and then the first one, whose search stops at the entry of the
second. The second page is unmapped and the first one is promoted. -/
def promoteSteps : List (Bool × Choice) :=
  compileStepsOf 4096 [4096] ++ compileStepsOf 0 [0, 4] ++
    [(true, .call (.changeMemory (branchMemory false) [.mapping 0 4096 4096])),
      (true, .call (.startHcqWorkers 1)), (true, .call (.requestHcq 0))] ++
    List.replicate 4 (true, .go) ++
    (false, .call .serveQueue) :: List.replicate 4 (false, .go) ++
    [(false, .fetch 0), (false, .go), (false, .fetch 4096)] ++ List.replicate 2 (false, .go) ++
    (false, .retire 4096) :: List.replicate 7 (false, .go) ++
    (true, .call (.entryFor 4)) :: List.replicate 4 (true, .go)

/-- The words at 0 and 4 can be read, and nothing else is ever executed. The search fails all the
same, and the failed promotion stops the process: the lookup of the second word answers with an
error about the second page. -/
theorem discovery_fails_speculatively :
    (ValidWord branchContext (branchMemory false) 0 ∧
      ValidWord branchContext (branchMemory false) 4) ∧
    discoverRegion branchContext (branchMemory false) 0 lcqMaxRegionInstructions (fun _ ↦ false) =
      .error (.fetchFailed ⟨4096, .unmapped⟩) ∧
    discoverRegion branchContext (branchMemory false) 0 hcqMaxRegionInstructions (fun _ ↦ false) =
      .error (.fetchFailed ⟨4096, .unmapped⟩) ∧
    ∃ es c, (processMachine branchContext 64).Run (initialProcess Bool (branchMemory true) {})
        es c ∧
      es.getLast?.map Prod.snd = some (.error (.fetchFailed ⟨4096, .unmapped⟩)) ∧
      c.shared.failure = some (.fetchFailed ⟨4096, .unmapped⟩) := by
  refine ⟨by decide +kernel, rfl, rfl, ?_⟩
  have hexec : ∃ r ∈ (processMachine branchContext 64).exec
      (initialProcess Bool (branchMemory true) {}) promoteSteps,
      r.1.getLast?.map Prod.snd = some (.error (.fetchFailed ⟨4096, .unmapped⟩)) ∧
        r.2.shared.failure = some (.fetchFailed ⟨4096, .unmapped⟩) := by
    decide +kernel
  obtain ⟨es, c, hrun, -, hanswer, hfailure⟩ := Machine.exists_run_of_exec hexec
  exact ⟨es, c, hrun, hanswer, hfailure⟩

/-- With both pages mapped the search succeeds, and a compilation ends without such an error. -/
theorem discovery_succeeds_iff_mapped :
    (∃ region, discoverRegion branchContext (branchMemory true) 0 lcqMaxRegionInstructions
      (fun _ ↦ false) = .ok region) ∧
    ∃ es c, (processMachine branchContext 64).Run (initialProcess Bool (branchMemory true) {})
        es c ∧ es.length = 27 ∧ ∀ event ∈ es, event.2.unblamed := by
  have hvalid : ∀ a, ValidWord branchContext (branchMemory true) a := by
    intro a
    have hcbz : (branchContext.decode 0xb4008000) = .decoded (.control (.compareBranch 1024)) := by
      decide +kernel
    have hsvc : (branchContext.decode 0xd4000001) = .decoded (.control (.supervisorCall 0)) := by
      decide +kernel
    simp only [ValidWord, wordFlow, branchMemory]
    split_ifs <;> simp only [hcbz, hsvc, Option.isSome_some]
  refine ⟨((discovery_succeeds_iff (ι := Bool) branchContext).1 _ _ _ _).mpr
    (fun _ ↦ ⟨by decide, fun a _ ↦ hvalid a⟩) (hvalid 0), ?_⟩
  have hexec : ∃ r ∈ (processMachine branchContext 64).exec
      (initialProcess Bool (branchMemory true) {}) (compileStepsOf 0 [0, 4]), r.1.length = 27 := by
    decide +kernel
  have halong : (processMachine branchContext 64).Along (ReadsUsable branchContext)
      (initialProcess Bool (branchMemory true) {}) (compileStepsOf 0 [0, 4]) := by
    decide +kernel
  obtain ⟨es, c, hrun, hinputs, hlength⟩ := Machine.exists_run_of_exec hexec
  exact ⟨es, c, hrun, hlength,
    ((discovery_succeeds_iff branchContext).2 64 _ _ es c hrun (hinputs ▸ halong)).1⟩

end Nixe.Jit
