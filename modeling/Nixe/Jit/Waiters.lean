import Nixe.Effect.Behaviour
import Nixe.Jit.Publication

/-!
# Threads that sleep until a compilation ends

A lookup that finds its node in `compilingLcq` sleeps on `published`, which it does with one atomic
step under the process lock. A sleeping thread is attended as long as some thread still has to
notify for its key: the one that compiles it, or one between the end of that compilation and the
notification.

The error path of `entry_for` resets the node and notifies without the lock. Both can happen between
the moment at which a lookup reads the state of the node and the moment at which it goes to sleep.
`Unmissed` is the condition on the notification that rules this out.
-/

namespace Nixe.Jit

open Std Memory Function List Machine.Behaviour Pc Choice

/-! ## Who sleeps and who notifies -/

/-- The places between the end of a first compilation of `k` and its notification. -/
def Pc.finishes (k : RegionKey) : Pc → Prop
  | publishUnlock (.lcq key _ _ _) _ => key = k
  | publishNotify (.lcq key _ _ _) _ => key = k
  | abortNotify key _ _ => key = k
  | _ => False

/-- The places from which the next step is the notification for `k`. -/
def Pc.notifies (k : RegionKey) : Pc → Prop
  | publishNotify (.lcq key _ _ _) _ => key = k
  | abortNotify key _ _ => key = k
  | _ => False

/-- The thread is going to notify for `k`. -/
def Pc.serves (k : RegionKey) (pc : Pc) : Prop := (∃ g, pc.owned = some (k, g)) ∨ pc.finishes k

variable {ι : Type}

/-- The thread `t` sleeps because of `k`, or holds the lock and will do so with its next step. -/
def Pc.dozes (t : ι) (k : RegionKey) (s : JitProcess ι) : Pc → Prop
  | beforeWait key _ => key = k
  | waiting key _ => key = k ∧ t ∈ s.waiters
  | _ => False

/-- Every such thread has one that is going to notify. -/
def Attended (c : Threads ι (JitProcess ι) Pc) : Prop :=
  ∀ t k, (c.locals t).dozes t k c.shared → ∃ u, (c.locals u).serves k

/-- A thread does not notify for `k` while another one is about to sleep because of `k`, unless a
third one is going to notify for `k` as well. -/
def Unmissed (c : Threads ι (JitProcess ι) Pc) (a : ι × Choice) : Prop :=
  ∀ k w outer, (c.locals a.1).notifies k → c.locals w = .beforeWait k outer →
    ∃ u, u ≠ a.1 ∧ (c.locals u).serves k

variable {k : RegionKey}

theorem Pc.finishes_of_notifies {pc : Pc} (h : pc.notifies k) : pc.finishes k := by
  cases pc with
  | publishNotify job => cases job <;> exact h
  | abortNotify => exact h
  | _ => exact h.elim

theorem Pc.not_serves_of_dozes {t : ι} {l : RegionKey} {s : JitProcess ι} {pc : Pc}
    (h : pc.dozes t k s) : ¬pc.serves l := by
  cases pc with
  | beforeWait | waiting => exact fun hserves ↦ hserves.elim nofun id
  | _ => exact h.elim

theorem Pc.not_serves_entryState {l : RegionKey} {outer : List Nat} :
    ¬(entryState k outer).serves l := fun h ↦ h.elim nofun id

theorem Pc.not_serves_idle {cursor : Option Nat} : ¬(idle cursor).serves k :=
  fun h ↦ h.elim nofun id

/-! ## Steps -/

section

variable {s s' : JitProcess ι} {t : ι} {pc pc' : Pc} {b : Answer}
  {choice : Choice} {cpu : ProcessCpuContext} {maxNativeCodeBytes : Nat} {k : RegionKey}

/-- A notification wakes everyone. -/
theorem step_notifies [DecidableEq ι] (houter : pc.outer = []) (hpc : pc.notifies k)
    (h : step cpu maxNativeCodeBytes t choice pc s = some (b, pc', s')) :
    s'.waiters = [] ∧ ∃ cursor, pc' = .idle cursor := by
  cases pc with
  | publishNotify job cursor =>
    cases job with
    | hcq => exact hpc.elim
    | lcq =>
      cases choice with
      | go =>
        obtain ⟨⟩ := h
        exact ⟨rfl, _, rfl⟩
      | _ => exact nomatch h
  | abortNotify key outer error =>
    cases choice with
    | go =>
      obtain rfl : outer = [] := houter
      obtain ⟨⟩ := h
      exact ⟨rfl, _, rfl⟩
    | _ => exact nomatch h
  | _ => exact hpc.elim

/-- The end of a compilation is followed by the notification. -/
theorem step_finishes [DecidableEq ι] (hpc : pc.finishes k) (hnot : ¬pc.notifies k)
    (h : step cpu maxNativeCodeBytes t choice pc s = some (b, pc', s')) : pc'.notifies k := by
  cases pc with
  | publishUnlock job region =>
    cases job with
    | hcq => exact hpc.elim
    | lcq =>
      cases choice with
      | go =>
        obtain ⟨⟩ := h
        exact hpc
      | _ => exact nomatch h
  | publishNotify job => cases job <;> exact absurd hpc hnot
  | abortNotify => exact absurd hpc hnot
  | _ => exact hpc.elim

/-- What a step of `t` may do to those who sleep and to those who notify. -/
structure Settles (t : ι) (pc : Pc) (s : JitProcess ι) (pc' : Pc) (s' : JitProcess ι) :
    Prop where
  compiler : ∀ k, s.compiler k = some t → s'.compiler k = some t ∨ pc'.finishes k
  waiters : ∀ w, w ≠ t → w ∈ s'.waiters → w ∈ s.waiters
  dozes : ∀ k, pc'.dozes t k s' → (∃ outer, pc = .beforeWait k outer) ∨
    (∃ outer, pc = .entryState k outer) ∧ (s.node k).state = .compilingLcq

/-- The places at which a thread sleeps or is about to. -/
def Pc.drowsy : Pc → Bool
  | beforeWait _ _ => true
  | waiting _ _ => true
  | _ => false

theorem Settles.quiet (hcompiler : s'.compiler = s.compiler)
    (hwaiters : s'.waiters = s.waiters ∨ s'.waiters = []) (hpc' : pc'.drowsy = false) :
    Settles t pc s pc' s' where
  compiler k hk := .inl (hcompiler ▸ hk)
  waiters w _ hw := by
    rcases hwaiters with h | h
    · exact h ▸ hw
    · rw [h] at hw
      exact nomatch hw
  dozes k hk := by
    cases pc' with
    | beforeWait | waiting => exact nomatch hpc'
    | _ => exact hk.elim

variable {e : DirectJitError}

theorem drowsy_fail (job : Job) : (job.fail e).drowsy = false := by
  cases job with
  | lcq => rfl
  | hcq =>
    rw [Job.fail]
    split_ifs <;> rfl

theorem drowsy_failDiscovery (job : Job) : (job.failDiscovery e).drowsy = false := by
  cases job <;> rfl

theorem drowsy_failEntry {outer : List Nat} : (failEntry k outer e).2.drowsy = false := by
  cases outer <;> rfl

theorem drowsy_resume_fail {resume : Resume} : (resume.fail e).2.drowsy = false := by
  cases resume with
  | entryFor => exact drowsy_failEntry
  | commit job => exact drowsy_fail job
  | hcqFailed request _ => exact drowsy_fail (.hcq request)
  | _ => rfl

theorem acquire_settles {pc₀ : Pc} (hpc : pc₀.drowsy = false)
    (h : acquire t s pc₀ = some (b, pc', s')) : Settles t pc s pc' s' := by
  rw [acquire] at h
  split_ifs at h
  obtain ⟨⟩ := h
  exact .quiet rfl (.inl rfl) hpc

theorem callStep_settles {cursor : Option Nat} {call : Call}
    (h : callStep cursor s call = some (b, pc', s')) : Settles t pc s pc' s' := by
  revert h
  fun_cases callStep cursor s call
  case case4 =>
    intro h
    obtain ⟨c, -, ⟨⟩⟩ := Option.map_eq_some_iff.mp h
    exact .quiet rfl (.inl rfl) rfl
  all_goals
    rintro ⟨⟩
    exact .quiet rfl (.inl rfl) rfl

theorem compileStep_settles (h : compileStep cpu s pc choice = some (b, pc', s')) :
    Settles t pc s pc' s' := by
  revert h
  fun_cases compileStep cpu s pc choice
  case case11 => simp
  all_goals rintro ⟨⟩
  case case1 | case4 | case7 | case8 => exact .quiet rfl (.inl rfl) (drowsy_failDiscovery _)
  case case9 => exact .quiet rfl (.inl rfl) (drowsy_fail _)
  all_goals exact .quiet rfl (.inl rfl) rfl

theorem commitStep_settles (h : commitStep cpu s pc choice = some (b, pc', s')) :
    Settles t pc s pc' s' := by
  revert h
  fun_cases commitStep cpu s pc choice
  case case28 => simp
  all_goals rintro ⟨⟩
  case case1 | case3 | case13 | case18 => exact .quiet rfl (.inl rfl) (drowsy_fail _)
  case case20 previous _ => cases previous <;> exact .quiet rfl (.inl rfl) rfl
  case case22 key _ _ _ _ _ =>
    refine ⟨fun k hk ↦ ?_, fun _ _ hw ↦ hw, fun _ ↦ False.elim⟩
    by_cases heq : k = key
    · exact .inr heq.symm
    · exact .inl ((update_of_ne heq _ _).trans hk)
  case case26 =>
    rw [restoreLcq_eq]
    exact .quiet rfl (.inl rfl) rfl
  case case27 => exact .quiet rfl (.inr rfl) rfl
  all_goals exact .quiet rfl (.inl rfl) rfl

theorem lookupStep_settles [DecidableEq ι] (h : lookupStep cpu t s pc choice = some (b, pc', s')) :
    Settles t pc s pc' s' := by
  revert h
  fun_cases lookupStep cpu t s pc choice
  case case1 | case2 => exact acquire_settles rfl
  case case3 resume =>
    fun_cases reconcileStep cpu s resume
    case case1 | case2 =>
      rintro ⟨⟩
      exact .quiet rfl (.inl rfl) rfl
    case case3 =>
      rintro ⟨⟩
      exact .quiet rfl (.inl rfl) drowsy_resume_fail
  case case4 resume =>
    cases resume with
    | shutdown =>
      rintro ⟨⟩
      exact .quiet rfl (.inr rfl) rfl
    | _ =>
      rintro ⟨⟩
      exact .quiet rfl (.inl rfl) rfl
  case case7 | case21 | case28 => simp
  all_goals rintro ⟨⟩
  case case11 | case17 => exact .quiet rfl (.inl rfl) drowsy_failEntry
  case case16 key outer hcompiling =>
    refine ⟨fun _ hk ↦ .inl hk, fun _ _ hw ↦ hw, ?_⟩
    rintro k rfl
    exact .inr ⟨⟨outer, rfl⟩, hcompiling⟩
  case case18 key outer _ =>
    refine ⟨fun k hk ↦ ?_, fun _ _ hw ↦ hw, fun _ ↦ False.elim⟩
    by_cases heq : k = key
    · exact .inl (heq ▸ update_self ..)
    · exact .inl ((update_of_ne heq _ _).trans hk)
  case case20 key outer =>
    refine ⟨fun _ hk ↦ .inl hk, fun w hne hw ↦ ?_, ?_⟩
    · exact (mem_append.mp hw).resolve_right fun h ↦ hne (mem_singleton.mp h)
    · rintro k ⟨rfl, -⟩
      exact .inl ⟨outer, rfl⟩
  case case23 =>
    exact ⟨fun _ hk ↦ .inl hk, fun w _ hw ↦ mem_of_mem_erase hw, fun _ ↦ False.elim⟩
  all_goals exact .quiet rfl (.inl rfl) rfl

theorem notifyStep_settles (h : notifyStep t s pc choice = some (b, pc', s')) :
    Settles t pc s pc' s' := by
  revert h
  fun_cases notifyStep t s pc choice
  case case12 => simp
  case case11 => exact acquire_settles rfl
  all_goals rintro ⟨⟩
  case case1 | case2 | case3 => exact .quiet rfl (.inr rfl) rfl
  case case6 key _ outer e =>
    refine ⟨fun k hk ↦ ?_, fun w _ hw ↦ ?_, fun _ ↦ False.elim⟩
    · split_ifs
      · by_cases heq : k = key
        · exact .inr heq.symm
        · exact .inl ((update_of_ne heq _ _).trans hk)
      · exact .inl hk
    · split_ifs at hw <;> exact hw
  case case7 => exact .quiet rfl (.inr rfl) drowsy_failEntry
  case case8 worker => cases worker <;> exact .quiet rfl (.inr rfl) rfl
  all_goals exact .quiet rfl (.inl rfl) rfl

theorem queueStep_settles (h : queueStep t s pc choice = some (b, pc', s')) :
    Settles t pc s pc' s' := by
  revert h
  fun_cases queueStep t s pc choice
  case case2 =>
    intro h
    obtain ⟨r, -, ⟨⟩⟩ := Option.map_eq_some_iff.mp h
    exact .quiet rfl (.inl rfl) rfl
  case case9 | case13 => exact acquire_settles rfl
  case case17 | case28 => simp
  all_goals rintro ⟨⟩
  case case11 => exact .quiet rfl (.inl rfl) (drowsy_fail _)
  case case15 =>
    rw [restoreLcq_eq]
    exact .quiet rfl (.inl rfl) rfl
  case case27 =>
    rw [exchange_eq]
    exact .quiet rfl (.inl rfl) rfl
  all_goals exact .quiet rfl (.inl rfl) rfl

theorem step_settles [DecidableEq ι]
    (h : step cpu maxNativeCodeBytes t choice pc s = some (b, pc', s')) :
    Settles t pc s pc' s' := by
  rcases step_cases h with ⟨cursor, call, rfl, hc⟩ | ⟨job, region, nativeBytes, rfl, hc⟩ |
    h | h | h | h | h
  · exact callStep_settles hc
  · revert hc
    fun_cases commitLockStep maxNativeCodeBytes t s job region nativeBytes
    case case4 => simp
    all_goals rintro ⟨⟩
    case case3 => exact .quiet rfl (.inl rfl) rfl
    all_goals exact .quiet rfl (.inl rfl) (drowsy_fail job)
  · exact compileStep_settles h
  · exact commitStep_settles h
  · exact lookupStep_settles h
  · exact notifyStep_settles h
  · exact queueStep_settles h

/-- A thread that is going to notify does so or goes on. -/
theorem step_serves [DecidableEq ι] (hs : Sound s) (ha : Assertion t pc s) (hpc : pc.serves k)
    (hnot : ¬pc.notifies k) (h : step cpu maxNativeCodeBytes t choice pc s = some (b, pc', s')) :
    pc'.serves k := by
  rcases hpc with howned | hfinishes
  · rcases (step_settles h).compiler k ((ha.compiler k).mpr howned) with hk | hfinishes
    · exact .inl (((step_advances hs ha h).assertion.compiler k).mp hk)
    · exact .inr hfinishes
  · exact .inr (finishes_of_notifies (step_finishes hfinishes hnot h))

end

/-! ## Runs -/

section

variable [DecidableEq ι] {cpu : ProcessCpuContext} {maxNativeCodeBytes : Nat}
  {memory : InstructionMemory} {log : MemoryInvalidationLog}
  {c d : Threads ι (JitProcess ι) Pc} {a : ι × Choice} {b : Answer}

/-- A step that misses nobody keeps every sleeping thread attended. -/
theorem Attended.step (hc : Coherent cpu.addressSpaceId c) (hattended : Attended c)
    (hunmissed : Unmissed c a) (h : processMachine cpu maxNativeCodeBytes c a = some (b, d)) :
    Attended d := by
  obtain ⟨t, choice⟩ := a
  obtain ⟨pc', s', hstep, rfl⟩ := ThreadStep.machine_eq_some_iff.mp h
  have hsettles := step_settles hstep
  -- a thread other than `t` that is going to notify still is
  have hother : ∀ {k u}, u ≠ t → (c.locals u).serves k →
      ∃ u, (Function.update c.locals t pc' u).serves k :=
    fun {k u} hu hserves ↦ ⟨u, by rwa [update_of_ne hu]⟩
  intro w k hdozes
  by_cases hw : w = t
  · subst hw
    simp only [update_self] at hdozes
    rcases hsettles.dozes k hdozes with ⟨outer, hpc⟩ | ⟨⟨outer, hpc⟩, hcompiling⟩
    · have hdozes' : (c.locals w).dozes w k c.shared := hpc ▸ rfl
      obtain ⟨u, hserves⟩ := hattended w k hdozes'
      exact hother (fun hu ↦ not_serves_of_dozes hdozes' (hu ▸ hserves)) hserves
    · obtain ⟨u, hu⟩ := Option.isSome_iff_exists.mp ((hc.shared.1.compiling k).mp hcompiling)
      have hserves : (c.locals u).serves k := .inl (((hc.locals u).1.compiler k).mp hu)
      refine hother (fun hu ↦ ?_) hserves
      rw [hu, hpc] at hserves
      exact not_serves_entryState hserves
  · simp only [update_of_ne hw] at hdozes
    have hdozes' : (c.locals w).dozes w k c.shared := by
      cases hpc : c.locals w with
      | beforeWait =>
        rw [hpc] at hdozes
        exact hdozes
      | waiting key outer =>
        rw [hpc] at hdozes
        exact ⟨hdozes.1, hsettles.waiters w hw hdozes.2⟩
      | _ =>
        rw [hpc] at hdozes
        exact hdozes.elim
    obtain ⟨u, hserves⟩ := hattended w k hdozes'
    by_cases hu : u = t
    · subst hu
      by_cases hnotifies : (c.locals u).notifies k
      · -- the sleepers are awake now, so `w` is about to sleep and somebody else will notify
        have hempty := (step_notifies (hc.locals u).1.outer hnotifies hstep).1
        cases hpc : c.locals w with
        | beforeWait key outer =>
          rw [hpc] at hdozes
          obtain rfl : key = k := hdozes
          obtain ⟨v, hv, hserves⟩ := hunmissed key w outer hnotifies hpc
          exact hother hv hserves
        | waiting =>
          rw [hpc] at hdozes
          exact absurd hdozes.2 (by simp [hempty])
        | _ =>
          rw [hpc] at hdozes
          exact hdozes.elim
      · refine ⟨u, ?_⟩
        simp only [update_self]
        exact step_serves hc.shared.1 (hc.locals u).1 hserves hnotifies hstep
    · exact hother hu hserves

/-- A step that misses a thread leaves it unattended. -/
theorem not_attended_of_missed (hc : Coherent cpu.addressSpaceId c) (hmissed : ¬Unmissed c a)
    (h : processMachine cpu maxNativeCodeBytes c a = some (b, d)) : ¬Attended d := by
  obtain ⟨t, choice⟩ := a
  obtain ⟨pc', s', hstep, rfl⟩ := ThreadStep.machine_eq_some_iff.mp h
  simp only [Unmissed, not_forall] at hmissed
  obtain ⟨k, w, outer, hnotifies, hpc, hnobody⟩ := hmissed
  obtain ⟨-, cursor, rfl⟩ := step_notifies (hc.locals t).1.outer hnotifies hstep
  have hw : w ≠ t := by
    rintro rfl
    rw [hpc] at hnotifies
    exact hnotifies
  intro hattended
  obtain ⟨u, hserves⟩ := hattended w k (by
    simp only [update_of_ne hw, hpc]
    exact rfl)
  by_cases hu : u = t
  · simp only [hu, update_self] at hserves
    exact not_serves_idle hserves
  · simp only [update_of_ne hu] at hserves
    exact hnobody ⟨u, hu, hserves⟩

omit [DecidableEq ι] in
theorem attended_initialProcess : Attended (initialProcess ι memory log) := fun _ _ h ↦ h.elim

theorem attended_iff_unmissed {es : List ((ι × Choice) × Answer)}
    (hrun : (processMachine cpu maxNativeCodeBytes).Run (initialProcess ι memory log) es c) :
    (processMachine cpu maxNativeCodeBytes).Throughout Attended (initialProcess ι memory log) es ↔
      (processMachine cpu maxNativeCodeBytes).Along Unmissed (initialProcess ι memory log)
        (es.map Prod.fst) :=
  Machine.throughout_iff_along (I := fun c ↦ Coherent cpu.addressSpaceId c ∧ Attended c)
    (fun _ h ↦ h.2) (fun _ _ _ _ hI hG h ↦ ⟨hI.1.step h, hI.2.step hI.1 hG h⟩)
    (fun _ _ _ _ hI hG h ↦ not_attended_of_missed hI.1 hG h)
    ⟨initialProcess_coherent memory log, attended_initialProcess⟩ hrun

end

/-! ## Behaviours -/

/-- The choices by which a thread goes on with its program. -/
def Choice.progress : Choice → Prop
  | .call _ => False
  | .wake => False
  | _ => True

/-- The places of the error path of `entry_for` before its notification. -/
def Pc.aborts (k : RegionKey) : Pc → Prop
  | abortLoad key _ _ _ => key = k
  | abortExchange key _ _ _ => key = k
  | _ => False

/-- The thread is at a first compilation of `k`. -/
def Pc.compiles (k : RegionKey) (pc : Pc) : Prop := (∃ g, pc.owned = some (k, g)) ∧ ¬pc.aborts k

section

variable [DecidableEq ι] {cpu : ProcessCpuContext} {maxNativeCodeBytes : Nat}
  {memory : InstructionMemory} {log : MemoryInvalidationLog}

/-- Every first compilation ends, with success, with an error or with a stale result. -/
def CompilationsEnd
    (ρ : (step cpu maxNativeCodeBytes).machine.Behaviour (initialProcess ι memory log)) : Prop :=
  ∀ t k n, ((ρ.state n).locals t).compiles k → ∃ i, n ≤ i ∧ ¬((ρ.state i).locals t).compiles k

theorem enabled_of_finishes {pc : Pc} {k : RegionKey} (t : ι) (s : JitProcess ι)
    (h : pc.finishes k) : ∃ a, a.progress ∧ step cpu maxNativeCodeBytes t a pc s ≠ none := by
  cases pc with
  | publishUnlock job | publishNotify job =>
    cases job with
    | lcq => exact ⟨.go, trivial, nofun⟩
    | hcq => exact h.elim
  | abortNotify => exact ⟨.go, trivial, nofun⟩
  | _ => exact h.elim

theorem enabled_of_aborts {pc : Pc} {k : RegionKey} (t : ι) (s : JitProcess ι)
    (h : pc.aborts k) : ∃ a, a.progress ∧ step cpu maxNativeCodeBytes t a pc s ≠ none := by
  refine ⟨.go, trivial, ?_⟩
  cases pc with
  | abortLoad key generation outer e =>
    rw [step, notifyStep]
    · split_ifs <;> simp
    all_goals simp
  | abortExchange => rintro ⟨⟩
  | _ => exact h.elim

/-- The error path: from the load to the exchange or past it, and from the exchange to the
notification. -/
theorem step_aborts {s s' : JitProcess ι} {t : ι} {pc pc' : Pc} {b : Answer} {choice : Choice}
    {k : RegionKey} (hpc : pc.aborts k)
    (h : step cpu maxNativeCodeBytes t choice pc s = some (b, pc', s')) :
    (∃ g outer e, pc = .abortLoad k g outer e ∧ pc' = .abortExchange k g outer e) ∨
      pc'.notifies k := by
  rcases step_cases h with ⟨c, call, rfl, -⟩ | ⟨job, region, nativeBytes, rfl, -⟩ |
    h | h | h | h | h
  · exact hpc.elim
  · exact hpc.elim
  · revert h
    fun_cases compileStep cpu s pc choice
    case case11 => simp
    all_goals exact hpc.elim
  · revert h
    fun_cases commitStep cpu s pc choice
    case case28 => simp
    all_goals exact hpc.elim
  · revert h
    fun_cases lookupStep cpu t s pc choice
    case case28 => simp
    all_goals exact hpc.elim
  · revert h
    fun_cases notifyStep t s pc choice
    case case12 => simp
    case case4 =>
      rintro ⟨⟩
      obtain rfl := hpc
      exact .inl ⟨_, _, _, rfl, rfl⟩
    case case5 | case6 =>
      rintro ⟨⟩
      exact .inr hpc
    all_goals exact hpc.elim
  · revert h
    fun_cases queueStep t s pc choice
    case case28 => simp
    all_goals exact hpc.elim

variable {ρ : (step cpu maxNativeCodeBytes).machine.Behaviour (initialProcess ι memory log)}
  {u : ι} {k : RegionKey} {n : ℕ}

theorem coherent_state
    (ρ : (step cpu maxNativeCodeBytes).machine.Behaviour (initialProcess ι memory log)) (n : ℕ) :
    Coherent cpu.addressSpaceId (ρ.state n) := run_coherent (ρ.run n)

section

variable (hfair : ρ.WeaklyFair progress)

include hfair

theorem notified_of_notifies (h : ((ρ.state n).locals u).notifies k) :
    ∃ i, n ≤ i ∧ (ρ.state i).shared.waiters = [] := by
  obtain ⟨i, hi, hnotifies, rfl⟩ := leaves (P := notifies k) hfair h
    fun _ s hp ↦ enabled_of_finishes u s (finishes_of_notifies hp)
  exact ⟨i + 1, Nat.le_succ_of_le hi,
    (step_notifies ((coherent_state ρ i).locals _).1.outer hnotifies (ρ.next_act i)).1⟩

theorem notified_of_finishes (h : ((ρ.state n).locals u).finishes k) :
    ∃ i, n ≤ i ∧ (ρ.state i).shared.waiters = [] := by
  obtain ⟨i, hi, hfinishes, rfl⟩ := leaves (P := finishes k) hfair h
    fun _ s hp ↦ enabled_of_finishes u s hp
  by_cases hnotifies : ((ρ.state i).locals (ρ.input i).1).notifies k
  · obtain ⟨j, hj, hempty⟩ := notified_of_notifies hfair hnotifies
    exact ⟨j, hi.trans hj, hempty⟩
  · obtain ⟨j, hj, hempty⟩ :=
      notified_of_notifies hfair (step_finishes hfinishes hnotifies (ρ.next_act i))
    exact ⟨j, (Nat.le_succ_of_le hi).trans hj, hempty⟩

theorem notified_of_aborts (h : ((ρ.state n).locals u).aborts k) :
    ∃ i, n ≤ i ∧ (ρ.state i).shared.waiters = [] := by
  obtain ⟨i, hi, haborts, rfl⟩ := leaves (P := aborts k) hfair h
    fun _ s hp ↦ enabled_of_aborts u s hp
  rcases step_aborts haborts (ρ.next_act i) with ⟨g, outer, e, -, hexchange⟩ | hnotifies
  · -- the exchange is one step further
    obtain ⟨j, hj, hpc, hmoves⟩ := leaves
      (P := fun pc ↦ pc = .abortExchange k g outer e) hfair hexchange
      fun l s hp ↦ enabled_of_aborts (k := k) _ s (hp ▸ rfl)
    have haborts' : ((ρ.state j).locals (ρ.input j).1).aborts k := hmoves ▸ hpc ▸ rfl
    rcases step_aborts haborts' (ρ.next_act j) with ⟨g', outer', e', hload, -⟩ | hnotifies
    · rw [hmoves, hpc] at hload
      exact nomatch hload
    · obtain ⟨l, hl, hempty⟩ := notified_of_notifies hfair hnotifies
      exact ⟨l, by omega, hempty⟩
  · obtain ⟨j, hj, hempty⟩ := notified_of_notifies hfair hnotifies
    exact ⟨j, (Nat.le_succ_of_le hi).trans hj, hempty⟩

/-- A compilation that ends goes on with the error path or with the notification. -/
theorem notified_of_serves (hends : CompilationsEnd ρ) (h : ((ρ.state n).locals u).serves k) :
    ∃ i, n ≤ i ∧ (ρ.state i).shared.waiters = [] := by
  -- from now on the thread compiles, until it still serves `k` and does not compile
  have hnext : ∀ i, ((ρ.state i).locals u).compiles k → ((ρ.state (i + 1)).locals u).compiles k ∨
      ((ρ.state (i + 1)).locals u).serves k ∧ ¬((ρ.state (i + 1)).locals u).compiles k := by
    intro i hcompiles
    by_cases hu : (ρ.input i).1 = u
    · subst hu
      have hnot : ¬((ρ.state i).locals (ρ.input i).1).notifies k := by
        obtain ⟨⟨g, howned⟩, -⟩ := hcompiles
        intro hnotifies
        cases hpc : (ρ.state i).locals (ρ.input i).1 with
        | publishNotify | abortNotify =>
          rw [hpc] at howned
          exact nomatch howned
        | _ =>
          rw [hpc] at hnotifies
          exact hnotifies
      have hc := coherent_state ρ i
      have hserves := step_serves hc.shared.1 (hc.locals _).1 (.inl hcompiles.1) hnot (ρ.next_act i)
      by_cases hstill : ((ρ.state (i + 1)).locals (ρ.input i).1).compiles k
      · exact .inl hstill
      · exact .inr ⟨hserves, hstill⟩
    · rw [ρ.locals_next hu]
      exact .inl hcompiles
  -- what remains is covered by fairness
  have hlate : ∀ i, n ≤ i → ((ρ.state i).locals u).serves k → ¬((ρ.state i).locals u).compiles k →
      ∃ i, n ≤ i ∧ (ρ.state i).shared.waiters = [] := by
    intro i hi hserves hnot
    have hnotified : ∃ j, i ≤ j ∧ (ρ.state j).shared.waiters = [] := by
      rcases hserves with howned | hfinishes
      · exact notified_of_aborts hfair (not_not.mp fun h ↦ hnot ⟨howned, h⟩)
      · exact notified_of_finishes hfair hfinishes
    obtain ⟨j, hj, hempty⟩ := hnotified
    exact ⟨j, hi.trans hj, hempty⟩
  by_cases hcompiles : ((ρ.state n).locals u).compiles k
  · by_contra hnever
    obtain ⟨i, hi, hended⟩ := hends u k n hcompiles
    refine hended (ρ.persists (P := fun c ↦ (c.locals u).compiles k)
      (Q := fun c ↦ (c.locals u).serves k ∧ ¬(c.locals u).compiles k) hcompiles
      (fun i _ ↦ hnext i) (fun i hi hq ↦ hnever (hlate i hi hq.1 hq.2)) hi)
  · exact hlate n (Nat.le_refl n) h hcompiles

end

theorem attended_state (hunmissed : ∀ n, Unmissed (ρ.state n) (ρ.input n)) (n : ℕ) :
    Attended (ρ.state n) := by
  induction n with
  | zero =>
    rw [ρ.start]
    exact attended_initialProcess
  | succ n ih => exact ih.step (coherent_state ρ n) (hunmissed n) (ρ.next n)

end

/-- **No stranded waiter.** In a run, every thread that sleeps because of a first compilation, or
is about to, has one that will still notify for it, exactly if no notification is made at the wrong
moment. In a weakly fair behaviour of this kind whose compilations end, every such thread is
woken. -/
theorem waiters_attended_iff [DecidableEq ι] (cpu : ProcessCpuContext) (maxNativeCodeBytes : Nat)
    (memory : InstructionMemory) (log : MemoryInvalidationLog) :
    (∀ es c, (processMachine cpu maxNativeCodeBytes).Run (initialProcess ι memory log) es c →
      ((processMachine cpu maxNativeCodeBytes).Throughout Attended
        (initialProcess ι memory log) es ↔
        (processMachine cpu maxNativeCodeBytes).Along Unmissed (initialProcess ι memory log)
          (es.map Prod.fst))) ∧
    ∀ ρ : (step cpu maxNativeCodeBytes).machine.Behaviour (initialProcess ι memory log),
      (∀ n, Unmissed (ρ.state n) (ρ.input n)) → ρ.WeaklyFair Choice.progress →
      CompilationsEnd ρ →
      ∀ n t k outer, (ρ.state n).locals t = .waiting k outer → t ∈ (ρ.state n).shared.waiters →
        ∃ i, n ≤ i ∧ t ∉ (ρ.state i).shared.waiters := by
  refine ⟨fun es c hrun ↦ attended_iff_unmissed hrun, ?_⟩
  intro ρ hunmissed hfair hends n t k outer hpc hasleep
  have hdozes : ((ρ.state n).locals t).dozes t k (ρ.state n).shared := hpc ▸ ⟨rfl, hasleep⟩
  obtain ⟨u, hserves⟩ := attended_state hunmissed n t k hdozes
  obtain ⟨i, hi, hempty⟩ := notified_of_serves hfair hends hserves
  exact ⟨i, hi, by simp [hempty]⟩

/-! ## Two schedules

One thread compiles from memory that is not mapped, and another one looks up the same key. -/

def unmappedMemory : InstructionMemory where
  fetch32 address := .error ⟨address, .unmapped⟩
  codePageSpan address := .error ⟨address, .unmapped⟩
  contains_of_codePageSpan _ _ h := nomatch h
  codePageSpan_of_fetch32 _ _ h := nomatch h

/-- The second thread reads the state of the node, the first one resets it and notifies, and then
the second one goes to sleep. -/
def missedSteps : List (Bool × Choice) :=
  (true, .call (.entryFor 0)) :: List.replicate 7 (true, .go) ++
    (false, .call (.entryFor 0)) :: List.replicate 6 (false, .go) ++
    (true, .fetch 0) :: List.replicate 3 (true, .go) ++ [(false, .go)]

/-- Nobody is left who would wake the second thread. -/
theorem waiter_stranded :
    ∃ es c, (processMachine nopContext 64).Run (initialProcess Bool unmappedMemory {}) es c ∧
      c.locals false = .waiting 0 [] ∧ false ∈ c.shared.waiters ∧
      c.locals true = .idle none ∧ (c.shared.node 0).state = .empty ∧ ¬Attended c := by
  have hexec : ∃ r ∈ (processMachine nopContext 64).exec (initialProcess Bool unmappedMemory {})
      missedSteps, r.2.locals false = .waiting 0 [] ∧ false ∈ r.2.shared.waiters ∧
        r.2.locals true = .idle none ∧ (r.2.shared.node 0).state = .empty := by
    decide +kernel
  obtain ⟨es, c, hrun, -, hfalse, hasleep, htrue, hstate⟩ := Machine.exists_run_of_exec hexec
  refine ⟨es, c, hrun, hfalse, hasleep, htrue, hstate, fun hattended ↦ ?_⟩
  have hdozes : (c.locals false).dozes false 0 c.shared := hfalse ▸ ⟨rfl, hasleep⟩
  obtain ⟨u, hserves⟩ := hattended false 0 hdozes
  cases u with
  | false => exact not_serves_of_dozes hdozes hserves
  | true => exact not_serves_idle (htrue ▸ hserves)

/-- The second thread goes to sleep first. -/
def asleepSteps : List (Bool × Choice) :=
  (true, .call (.entryFor 0)) :: List.replicate 7 (true, .go) ++
    (false, .call (.entryFor 0)) :: List.replicate 7 (false, .go)

/-- It is woken and compiles itself, also without success. -/
def awakeSteps : List (Bool × Choice) :=
  (true, .fetch 0) :: List.replicate 3 (true, .go) ++ List.replicate 8 (false, .go) ++
    (false, .fetch 0) :: List.replicate 3 (false, .go) ++ [(true, .call (.startHcqWorkers 1))]

/-- A notification while no thread is about to sleep. -/
def Timely (c : Threads Bool (JitProcess Bool) Pc) (a : Bool × Choice) : Prop :=
  (match c.locals a.1 with
    | .publishNotify _ _ => false
    | .abortNotify _ _ _ => false
    | _ => true) = true ∨
  ∀ w, (match c.locals w with | .beforeWait _ _ => false | _ => true) = true

instance : ∀ c a, Decidable (Timely c a) := fun _ _ ↦ inferInstanceAs (Decidable (_ ∨ _))

theorem Timely.unmissed {c : Threads Bool (JitProcess Bool) Pc} {a : Bool × Choice}
    (h : Timely c a) : Unmissed c a := by
  intro k w outer hnotifies hpc
  rcases h with h | h
  · cases hpc' : c.locals a.1 with
    | publishNotify | abortNotify =>
      rw [hpc'] at h
      exact nomatch h
    | _ =>
      rw [hpc'] at hnotifies
      exact hnotifies.elim
  · have hw := h w
    rw [hpc] at hw
    exact nomatch hw

/-- In a fair behaviour that goes on like this for ever the second thread is woken. -/
theorem waiters_attended_iff_woken :
    ∃ ρ : (step nopContext 64).machine.Behaviour (initialProcess Bool unmappedMemory {}),
      (∀ n, Unmissed (ρ.state n) (ρ.input n)) ∧ ρ.WeaklyFair Choice.progress ∧
      CompilationsEnd ρ ∧ (ρ.state 16).locals false = .waiting 0 [] ∧
      false ∈ (ρ.state 16).shared.waiters ∧ ∃ i, 16 ≤ i ∧ false ∉ (ρ.state i).shared.waiters := by
  have hexec : ∃ r ∈ (processMachine nopContext 64).exec (initialProcess Bool unmappedMemory {})
      asleepSteps, r.2.locals false = waiting 0 [] ∧ false ∈ r.2.shared.waiters ∧
        ∃ q ∈ (processMachine nopContext 64).exec r.2 awakeSteps, q.2.locals false = idle none ∧
          q.2.locals true = idle none ∧ q.2.shared.hcqStarted = true := by
    decide +kernel
  have htimely : (processMachine nopContext 64).Along Timely
      (initialProcess Bool unmappedMemory {}) (asleepSteps ++ awakeSteps) := by
    decide +kernel
  obtain ⟨es₁, c₁, hrun₁, hinputs₁, hfalse, hwaiters, hexec'⟩ := Machine.exists_run_of_exec hexec
  obtain ⟨es₂, c₂, hrun₂, hinputs₂, hidle, hidle', hstarted⟩ := Machine.exists_run_of_exec hexec'
  have hloop : processMachine nopContext 64 c₂ (true, .call (.startHcqWorkers 1)) =
      some (.quiet, c₂) := by
    refine ThreadStep.machine_eq_some_iff.mpr ⟨c₂.locals true, c₂.shared, ?_, ?_⟩
    · rw [hidle']
      simp [step, callStep, show c₂.shared.hcqStarted = true from hstarted]
    · rw [update_eq_self]
  obtain ⟨ρ, hlate, hstates, hG⟩ :=
    exists_of_run (Machine.Run.append_iff.mpr ⟨c₁, hrun₁, hrun₂⟩) hloop
  have hidles : ∀ t n, ∃ i, n ≤ i ∧ (ρ.state i).locals t = .idle none := by
    intro t n
    refine ⟨max n (es₁ ++ es₂).length, Nat.le_max_left _ _, ?_⟩
    rw [hlate _ (Nat.le_max_right _ _)]
    cases t
    · exact hidle
    · exact hidle'
  have hunmissed : ∀ n, Unmissed (ρ.state n) (ρ.input n) := fun n ↦ by
    refine (hG Timely ?_ ?_ n).unmissed
    · rw [map_append, hinputs₁, hinputs₂]
      exact htimely
    · exact .inl (by rw [hidle'])
  have hfair : ρ.WeaklyFair progress := fun t n henabled ↦ by
    obtain ⟨i, hi, hpc⟩ := hidles t n
    obtain ⟨a, hprogress, hstep⟩ := henabled i hi
    rw [hpc] at hstep
    cases a with
    | call | wake => exact hprogress.elim
    | _ => exact absurd rfl hstep
  have hends : CompilationsEnd ρ := fun t k n _ ↦ by
    obtain ⟨i, hi, hpc⟩ := hidles t n
    refine ⟨i, hi, ?_⟩
    rintro ⟨⟨g, howned⟩, -⟩
    rw [hpc] at howned
    cases howned
  have hstate : ρ.state 16 = c₁ := by
    have hlength : es₁.length = 16 := by
      rw [← length_map Prod.fst, hinputs₁]
      rfl
    exact hlength ▸ hstates es₁ es₂ c₁ rfl hrun₁
  have hpc : (ρ.state 16).locals false = .waiting 0 [] := hstate ▸ hfalse
  have hasleep : false ∈ (ρ.state 16).shared.waiters := hstate ▸ hwaiters
  exact ⟨ρ, hunmissed, hfair, hends, hpc, hasleep,
    (waiters_attended_iff nopContext 64 unmappedMemory {}).2 ρ hunmissed hfair hends 16 false 0 []
      hpc hasleep⟩

end Nixe.Jit
