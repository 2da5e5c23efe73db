import Nixe.Jit.Consistency

/-!
# Every step keeps nodes and regions consistent

`Advances` collects what a step of a thread has to do: keep the invariant of the shared state,
establish the assertion of the place it leads to, interfere with the others in no unexpected way
and not report a failed check. Most steps leave the nodes alone, and one lemma covers them; the
others are the transitions of a node, taken one by one.
-/

namespace Nixe.Jit

open Std Memory JitProcess Function List Option

variable {ι : Type}

/-- A step of `t` from `s` that answers `b` and leads to the place `pc` and the state `s'`. -/
structure Advances (t : ι) (s : JitProcess ι) (b : Answer) (pc : Pc) (s' : JitProcess ι) :
    Prop where
  sound : Sound s'
  assertion : Assertion t pc s'
  interference : ∀ u, u ≠ t → Interference u s s'
  answer : b.Ordinary
  publications : s.publications <+: s'.publications

/-! ## Steps that leave the nodes alone -/

/-- The nodes drift at most, those that are being compiled stay as they are, and nothing is
published. -/
structure Drifts (s s' : JitProcess ι) : Prop where
  drift : ∀ k, Drift (s.node k) (s'.node k)
  compiling : ∀ k, (s.node k).state = .compilingLcq → s'.node k = s.node k
  compiling' : ∀ k, (s'.node k).state = .compilingLcq → s'.node k = s.node k
  hcq : ∀ k, (s.node k).state = .hcq → (s'.node k).state = .hcq
  compiler : s'.compiler = s.compiler
  publications : s'.publications = s.publications
  queue : s'.hcq.pending.length ≤ s'.hcq.capacity
  unstarted : s'.hcqStarted = false → s'.hcq.capacity = 0
  failure : ∀ e, s'.failure = some e → e.Ordinary

namespace Drifts

variable {s s' : JitProcess ι}

/-- The nodes stay as they are. -/
theorem of_node_eq
    (hsame : (s'.node, s'.compiler, s'.publications) = (s.node, s.compiler, s.publications))
    (hqueue : s'.hcq.pending.length ≤ s'.hcq.capacity)
    (hunstarted : s'.hcqStarted = false → s'.hcq.capacity = 0)
    (hfailure : ∀ e, s'.failure = some e → e.Ordinary) : Drifts s s' := by
  obtain ⟨hnode, hcompiler, hpublications⟩ : _ ∧ _ ∧ _ := by simpa only [Prod.mk.injEq] using hsame
  refine ⟨fun k ↦ ?_, fun k _ ↦ by rw [hnode], fun k _ ↦ by rw [hnode], fun k h ↦ ?_, hcompiler,
    hpublications, hqueue, hunstarted, hfailure⟩
  · rw [hnode]
    exact .refl _
  · rw [hnode]
    exact h

/-- Only tables of the process lock change. -/
theorem of_tables (hs : Sound s)
    (hsame : (s'.node, s'.compiler, s'.publications) = (s.node, s.compiler, s.publications))
    (hqueue : (s'.hcq, s'.hcqStarted, s'.failure) = (s.hcq, s.hcqStarted, s.failure)) :
    Drifts s s' := by
  obtain ⟨hhcq, hstarted, hfailure⟩ : _ ∧ _ ∧ _ := by simpa only [Prod.mk.injEq] using hqueue
  refine of_node_eq hsame (hhcq ▸ hs.queue) ?_ ?_
  · rw [hstarted, hhcq]
    exact hs.unstarted
  · rw [hfailure]
    exact hs.failure

theorem sound (h : Drifts s s') (hs : Sound s) (hlinked : s'.lock = none → ∀ k, Linked s' k) :
    Sound s' where
  __ := h
  linked := hlinked
  compiling k := by
    rw [h.compiler, ← hs.compiling]
    exact ⟨fun hk ↦ h.compiling' k hk ▸ hk, fun hk ↦ h.compiling k hk ▸ hk⟩
  recorded p hp := by
    have hd := h.drift p.key
    have hr := hs.recorded p (h.publications ▸ hp)
    rw [Recorded, hd.generation, hd.published]
    refine hr.imp_right fun ⟨hg, ht⟩ ↦ ⟨hg, ?_⟩
    cases htier : p.tier with
    | lcq => simpa only [htier] using ht
    | hcq =>
      rw [htier] at ht
      exact h.hcq p.key ht
  nodup := h.publications ▸ hs.nodup

theorem prefix_publications (h : Drifts s s') : s.publications <+: s'.publications :=
  h.publications ▸ prefix_refl _

theorem assertion (h : Drifts s s') {t : ι} {pc pc' : Pc} (ha : Assertion t pc s)
    (howned : pc'.owned = pc.owned) (houter : pc'.outer = [])
    (herror : ∀ e, pc'.error = some e → e.Ordinary)
    (hlock : s'.lock = some t ↔ pc'.critical = true)
    (hmiddle : pc'.critical = true → Middle s' pc') : Assertion t pc' s' where
  lock := hlock
  compiler := by
    rw [h.compiler, howned]
    exact ha.compiler
  compiling k g hk := by
    have hc := ha.compiling k g (howned ▸ hk)
    rw [h.compiling k hc.1]
    exact hc
  outer := houter
  error := herror
  middle := hmiddle

theorem interference (h : Drifts s s') (hs : Sound s) {t u : ι} (hu : u ≠ t)
    (hlock : s'.lock = s.lock ∨ s.lock = none ∧ s'.lock = some t ∨ s.lock = some t ∧ s'.lock = none)
    (hregions : s.lock ≠ some t → s'.regions = s.regions) : Interference u s s' where
  lock := by
    rcases hlock with hlock | ⟨hs, hs'⟩ | ⟨hs, hs'⟩
    · rw [hlock]
    · simp [hs, hs', Ne.symm hu]
    · simp [hs, hs', Ne.symm hu]
  compiler k := by rw [h.compiler]
  owned k hk := h.compiling k ((hs.compiling k).mpr (by rw [hk]; rfl))
  regions hlock := hregions fun ht ↦ hu (Option.some.inj (hlock.symm.trans ht))
  publications _ := h.publications
  drift _ := h.drift

end Drifts

section

/-- The step from `pc` to `pc'` is inside the lock before and after as said, and the compilations
that the thread owns stay the same. -/
def Pc.Moves (critical critical' : Bool) (pc pc' : Pc) : Prop :=
  (pc.critical, pc'.critical, pc'.owned) = (critical, critical', pc.owned)

theorem Pc.Moves.eqs {critical critical' : Bool} {pc pc' : Pc}
    (h : pc.Moves critical critical' pc') :
    pc.critical = critical ∧ pc'.critical = critical' ∧ pc'.owned = pc.owned := by
  simpa only [Pc.Moves, Prod.mk.injEq] using h

variable {t : ι} {s s' : JitProcess ι} {pc pc' : Pc} {b : Answer}

/-- A step outside the lock that leaves nodes and regions alone. -/
theorem Advances.unlocked (hs : Sound s) (ha : Assertion t pc s) (h : Drifts s s')
    (hshared : (s'.lock, s'.regions) = (s.lock, s.regions)) (hpc : pc.Moves false false pc')
    (houter : pc'.outer = []) (herror : ∀ e, pc'.error = some e → e.Ordinary)
    (hanswer : b.Ordinary) : Advances t s b pc' s' := by
  obtain ⟨hcritical, hcritical', howned⟩ := hpc.eqs
  obtain ⟨hlock, hregions⟩ := Prod.mk.inj hshared
  exact {
    sound := h.sound hs fun hfree k ↦
      (hs.linked (hlock ▸ hfree) k).drift hregions (h.drift k)
    assertion := h.assertion ha howned houter herror
      (by rw [hlock, ha.lock, hcritical, hcritical']) (by simp [hcritical'])
    interference := fun _ hu ↦ h.interference hs hu (.inl hlock) fun _ ↦ hregions
    answer := hanswer
    publications := h.prefix_publications }

/-- A step that takes the lock. -/
theorem Advances.acquire (hs : Sound s) (ha : Assertion t pc s) (h : Drifts s s')
    (hfree : s.lock = none) (hlock : s'.lock = some t) (hregions : s'.regions = s.regions)
    (hcritical' : pc'.critical = true) (howned : pc'.owned = pc.owned) (houter : pc'.outer = [])
    (herror : ∀ e, pc'.error = some e → e.Ordinary)
    (hmiddle : (∀ k, Linked s' k) → Middle s' pc') (hanswer : b.Ordinary) :
    Advances t s b pc' s' where
  sound := h.sound hs (by simp [hlock])
  assertion := h.assertion ha howned houter herror (by simp [hlock, hcritical']) fun _ ↦
    hmiddle fun k ↦ (hs.linked hfree k).drift hregions (h.drift k)
  interference _ hu := h.interference hs hu (.inr (.inl ⟨hfree, hlock⟩)) fun _ ↦ hregions
  answer := hanswer
  publications := h.prefix_publications

/-- A step under the lock that keeps it. -/
theorem Advances.locked (hs : Sound s) (ha : Assertion t pc s) (h : Drifts s s')
    (hlock : s'.lock = s.lock) (hpc : pc.Moves true true pc') (houter : pc'.outer = [])
    (herror : ∀ e, pc'.error = some e → e.Ordinary) (hmiddle : Middle s' pc')
    (hanswer : b.Ordinary) : Advances t s b pc' s' := by
  obtain ⟨hcritical, hcritical', howned⟩ := hpc.eqs
  have ht := ha.lock.mpr hcritical
  exact {
    sound := h.sound hs (by simp [hlock, ht])
    assertion := h.assertion ha howned houter herror (by simp [hlock, ht, hcritical'])
      fun _ ↦ hmiddle
    interference := fun _ hu ↦ h.interference hs hu (.inl hlock) fun hne ↦ absurd ht hne
    answer := hanswer
    publications := h.prefix_publications }

/-- A step under the lock that releases it. -/
theorem Advances.release (hs : Sound s) (ha : Assertion t pc s) (h : Drifts s s')
    (hfree : s'.lock = none) (hlinked : ∀ k, Linked s' k) (hpc : pc.Moves true false pc')
    (houter : pc'.outer = []) (herror : ∀ e, pc'.error = some e → e.Ordinary)
    (hanswer : b.Ordinary) : Advances t s b pc' s' := by
  obtain ⟨hcritical, hcritical', howned⟩ := hpc.eqs
  have ht := ha.lock.mpr hcritical
  exact {
    sound := h.sound hs fun _ ↦ hlinked
    assertion := h.assertion ha howned houter herror (by simp [hfree, hcritical'])
      (by simp [hcritical'])
    interference := fun _ hu ↦ h.interference hs hu
      (.inr (.inr ⟨ht, hfree⟩)) fun hne ↦ absurd ht hne
    answer := hanswer
    publications := h.prefix_publications }

end

/-! ## Calls and compilation -/

/-- A place outside the lock that goes on with the job, or with the report of its error. -/
structure Continues (job : Job) (pc : Pc) : Prop where
  critical : pc.critical = false
  owned : pc.owned = job.owned
  outer : pc.outer = job.outer
  error : ∀ e, pc.error = some e → e.Ordinary

variable {e : DirectJitError}

theorem Job.continues_fail (job : Job) (he : e.Ordinary) : Continues job (job.fail e) := by
  have hsome : ∀ e', some e = some e' → e'.Ordinary := fun _ h ↦ Option.some.inj h ▸ he
  cases job with
  | lcq => exact ⟨rfl, rfl, rfl, hsome⟩
  | hcq r =>
    rw [Job.fail]
    split_ifs
    · exact ⟨rfl, rfl, rfl, nofun⟩
    · exact ⟨rfl, rfl, rfl, hsome⟩

theorem Job.continues_failDiscovery (job : Job) (he : e.Ordinary) :
    Continues job (job.failDiscovery e) := by
  have hsome : ∀ e', some e = some e' → e'.Ordinary := fun _ h ↦ Option.some.inj h ▸ he
  cases job <;> exact ⟨rfl, rfl, rfl, hsome⟩

theorem ordinary_of_capturePage {memory : InstructionMemory} {capture : Capture}
    {pc : GuestAddress} (h : capturePage memory capture pc = .error e) : e.Ordinary := by
  rw [capturePage] at h
  split_ifs at h
  split at h
  · cases h
  · exact Except.error.inj h ▸ ⟨by simp, by simp⟩

section

variable {t : ι} {s s' : JitProcess ι} {pc pc' : Pc} {b : Answer} {choice : Choice}
  {cpu : ProcessCpuContext} {job : Job} {e : DirectJitError} {n : Node} {generation cursor : Nat}

theorem Advances.continue (hs : Sound s) (ha : Assertion t pc s) (hd : Drifts s s')
    (hshared : (s'.lock, s'.regions) = (s.lock, s.regions)) (hpc : Continues job pc)
    (hpc' : Continues job pc') : Advances t s .quiet pc' s' :=
  .unlocked hs ha hd hshared (by rw [Pc.Moves, hpc.critical, hpc'.critical, hpc'.owned, hpc.owned])
    (hpc'.outer.trans (hpc.outer.symm.trans ha.outer)) hpc'.error trivial

/-- A step under the lock that gives the job up. -/
theorem Advances.fail (job : Job) (hs : Sound s) (ha : Assertion t pc s) (h : Drifts s s')
    (hfree : s'.lock = none) (hlinked : ∀ l, Linked s' l) (hcritical : pc.critical = true)
    (howned : pc.owned = job.owned) (houter : pc.outer = job.outer) (he : e.Ordinary) :
    Advances t s .quiet (job.fail e) s' :=
  have hjob := job.continues_fail he
  .release hs ha h hfree hlinked (by rw [Pc.Moves, hcritical, hjob.critical, hjob.owned, howned])
    (hjob.outer.trans (houter.symm.trans ha.outer)) hjob.error trivial

theorem compileStep_advances (hs : Sound s) (ha : Assertion t pc s)
    (h : compileStep cpu s pc choice = some (b, pc', s')) : Advances t s b pc' s' := by
  have hsame : Drifts s s := .of_tables hs rfl rfl
  revert h
  fun_cases compileStep cpu s pc choice
  case case11 => exact nofun
  all_goals rintro ⟨⟩
  case case2 | case3 | case5 | case6 | case10 =>
    exact .continue hs ha hsame rfl ⟨rfl, rfl, rfl, nofun⟩ ⟨rfl, rfl, rfl, nofun⟩
  case case4 job _ _ _ _ hpage =>
    exact .continue hs ha hsame rfl ⟨rfl, rfl, rfl, nofun⟩
      (job.continues_failDiscovery (ordinary_of_capturePage hpage))
  case case1 job _ _ _ _ | case7 job _ _ _ _ _ _ _ | case8 job _ _ _ _ _ _ _ _ =>
    exact .continue hs ha hsame rfl ⟨rfl, rfl, rfl, nofun⟩
      (job.continues_failDiscovery ⟨nofun, nofun⟩)
  case case9 job _ _ _ =>
    exact .continue hs ha hsame rfl ⟨rfl, rfl, rfl, nofun⟩
      (job.continues_fail ⟨nofun, nofun⟩)

theorem callStep_advances {cursor : Option Nat} {call : Call} (hs : Sound s)
    (ha : Assertion t (.idle cursor) s) (h : callStep cursor s call = some (b, pc', s')) :
    Advances t s b pc' s' := by
  revert h
  fun_cases callStep cursor s call
  case case4 key =>
    intro h
    obtain ⟨c, -, ⟨⟩⟩ := map_eq_some_iff.mp h
    exact .unlocked hs ha (.of_tables hs rfl rfl) rfl rfl rfl nofun trivial
  all_goals rintro ⟨⟩
  case case6 workers hstarted =>
    have hempty : s.hcq.pending.length = 0 := by
      have hqueue := hs.queue
      rw [hs.unstarted (by simpa using hstarted)] at hqueue
      omega
    exact .unlocked hs ha
      (.of_node_eq rfl (by simp only [hempty]; exact Nat.zero_le _) nofun hs.failure) rfl rfl rfl
      nofun trivial
  all_goals
    exact .unlocked hs ha (.of_tables hs rfl rfl) rfl rfl rfl nofun trivial

/-- A place at which the lock was just taken. -/
theorem Advances.of_acquire {pc₀ : Pc} (hs : Sound s) (ha : Assertion t pc s)
    (hcritical : pc₀.critical = true) (howned : pc₀.owned = pc.owned) (houter : pc₀.outer = [])
    (herror : ∀ e, pc₀.error = some e → e.Ordinary)
    (hmiddle : ∀ s' : JitProcess ι, (∀ k, Linked s' k) → Middle s' pc₀)
    (h : Jit.acquire t s pc₀ = some (b, pc', s')) : Advances t s b pc' s' := by
  rw [Jit.acquire] at h
  split_ifs at h with hfree
  obtain ⟨⟩ := h
  exact .acquire hs ha (.of_tables hs rfl rfl) hfree rfl rfl hcritical howned
    houter herror (hmiddle _) trivial

variable {region : PublishedRegion} {k key : RegionKey} {r : HcqRequest} {p : Publication}
  {outer : List Nat} {keys : List RegionKey} {resume : Resume} {previous : Option PublishedRegion}

theorem commitLockStep_advances {maxNativeCodeBytes nativeBytes : Nat} (hs : Sound s)
    (ha : Assertion t (.commitLock job region nativeBytes) s)
    (h : commitLockStep maxNativeCodeBytes t s job region nativeBytes = some (b, pc', s')) :
    Advances t s b pc' s' := by
  revert h
  fun_cases commitLockStep maxNativeCodeBytes t s job region nativeBytes
  case case4 => exact nofun
  all_goals rintro ⟨⟩
  case case1 | case2 =>
    exact .continue hs ha (.of_tables hs rfl rfl) rfl
      ⟨rfl, rfl, rfl, nofun⟩ (job.continues_fail ⟨nofun, nofun⟩)
  case case3 hfree used hadd hmax =>
    exact .acquire hs ha (.of_tables hs rfl rfl) hfree rfl rfl rfl rfl ha.outer
      nofun (fun h ↦ h) trivial

/-! ## The background queue -/

/-- A state of the two that a node passes between without the lock is replaced by the other. -/
theorem drifts_setState {new : EntryState} (hs : Sound s)
    (hold : (s.node k).state = .lcq ∨ (s.node k).state = .hcqQueued)
    (hnew : new = .lcq ∨ new = .hcqQueued) : Drifts s (s.setState k new) := by
  have hk : Drift (s.node k) { s.node k with state := new } ∧
      (s.node k).state ≠ .compilingLcq ∧ new ≠ .compilingLcq ∧ (s.node k).state ≠ .hcq := by
    rcases hold with hold | hold <;> rcases hnew with rfl | rfl <;>
      exact ⟨⟨rfl, rfl, by simp [hold, EntryState.published]⟩, by simp [hold], nofun,
        by simp [hold]⟩
  have hnode : ∀ l, (s.setState k new).node l = s.node l ∨
      l = k ∧ (s.setState k new).node l = { s.node k with state := new } := by
    intro l
    by_cases hl : l = k
    · exact .inr ⟨hl, by rw [hl]; exact s.node_setNode_self k _⟩
    · exact .inl (s.node_setNode_of_ne hl _)
  refine ⟨fun l ↦ ?_, fun l h ↦ ?_, fun l h ↦ ?_, fun l h ↦ ?_, rfl, rfl, hs.queue,
    hs.unstarted, hs.failure⟩
  · rcases hnode l with hl | ⟨rfl, hl⟩
    · rw [hl]
      exact .refl _
    · rw [hl]
      exact hk.1
  · rcases hnode l with hl | ⟨rfl, -⟩
    · exact hl
    · exact absurd h hk.2.1
  · rcases hnode l with hl | ⟨rfl, hl⟩
    · exact hl
    · rw [hl] at h
      exact absurd h hk.2.2.1
  · rcases hnode l with hl | ⟨rfl, -⟩
    · rw [hl]
      exact h
    · exact absurd h hk.2.2.2

/-- A promotion that is taken back. -/
theorem drifts_exchange (hs : Sound s) : Drifts s (exchange s k .hcqQueued .lcq) := by
  rw [exchange]
  split_ifs with hstate
  · exact drifts_setState hs (.inr hstate) (.inl rfl)
  · exact .of_tables hs rfl rfl

/-- Only the nodes change. -/
theorem exchange_eq (old new : EntryState) :
    exchange s k old new = { s with node := (exchange s k old new).node } := by
  rw [exchange]
  split_ifs <;> rfl

theorem drifts_restoreLcq (hs : Sound s) : Drifts s (restoreLcq s r) := by
  rw [restoreLcq]
  split_ifs
  · exact drifts_exchange hs
  · exact .of_tables hs rfl rfl

theorem restoreLcq_eq : restoreLcq s r = { s with node := (restoreLcq s r).node } := by
  rw [restoreLcq]
  split_ifs
  · exact exchange_eq ..
  · rfl

/-- A step under the lock that takes a promotion back. -/
theorem Advances.restoreLcq (hs : Sound s) (ha : Assertion t pc s) (hpc : pc.Moves true true pc')
    (houter : pc'.outer = []) (herror : ∀ e, pc'.error = some e → e.Ordinary)
    (hmiddle : (∀ k, Linked (restoreLcq s r) k) → Middle (restoreLcq s r) pc')
    (hlinked : ∀ k, Linked s k) : Advances t s .quiet pc' (restoreLcq s r) := by
  have hd := drifts_restoreLcq (r := r) hs
  rw [restoreLcq_eq] at hmiddle hd ⊢
  exact .locked hs ha hd rfl hpc houter herror
    (hmiddle fun k ↦ Linked.drift (s := s) rfl (hd.drift k) (hlinked k)) trivial

theorem queueStep_advances (hs : Sound s) (ha : Assertion t pc s)
    (h : queueStep t s pc choice = some (b, pc', s')) : Advances t s b pc' s' := by
  have hsame : Drifts s s := .of_tables hs rfl rfl
  revert h
  fun_cases queueStep t s pc choice
  case case17 | case28 => exact nofun
  case case2 =>
    intro h
    obtain ⟨r, -, ⟨⟩⟩ := map_eq_some_iff.mp h
    refine .unlocked hs ha (.of_node_eq rfl ?_ hs.unstarted hs.failure) rfl rfl rfl nofun trivial
    exact Nat.le_trans (by simp) hs.queue
  case case9 => exact .of_acquire hs ha rfl rfl rfl ha.error fun _ h ↦ h
  case case13 => exact .of_acquire hs ha rfl rfl rfl nofun fun _ h ↦ h
  all_goals rintro ⟨⟩
  case case10 | case14 =>
    exact .release hs ha (.of_tables hs rfl rfl) rfl (ha.middle rfl) rfl rfl nofun trivial
  case case11 r e _ =>
    exact .fail (.hcq r) hs ha (.of_tables hs rfl rfl) rfl (ha.middle rfl) rfl rfl rfl
      (ha.error e rfl)
  case case12 =>
    exact .unlocked hs ha (.of_node_eq rfl (Nat.zero_le _) hs.unstarted hs.failure) rfl rfl rfl
      nofun trivial
  case case15 requests r =>
    exact .restoreLcq hs ha rfl rfl nofun id (ha.middle rfl)
  case case16 e hfree =>
    refine .unlocked hs ha (.of_node_eq rfl hs.queue hs.unstarted ?_) rfl rfl rfl nofun trivial
    intro e' he'
    rcases hfailure : s.failure with _ | f
    · simp only [hfailure] at he'
      exact Option.some.inj he' ▸ ha.error e rfl
    · simp only [hfailure] at he'
      exact hs.failure e' (hfailure.trans he')
  case case20 hlcq =>
    exact .unlocked hs ha (drifts_setState hs (.inl hlcq) (.inr rfl)) rfl rfl rfl nofun trivial
  case case24 hfull =>
    refine .unlocked hs ha (.of_node_eq rfl ?_ hs.unstarted hs.failure) rfl rfl rfl nofun trivial
    have hqueue := hs.queue
    simp only [Bool.or_eq_true, decide_eq_true_eq, not_or] at hfull
    simp only [length_append, length_singleton]
    omega
  case case27 r =>
    have hd := drifts_exchange (k := r.key) hs
    rw [exchange_eq] at hd ⊢
    exact .unlocked hs ha hd rfl rfl rfl nofun trivial
  all_goals
    exact .unlocked hs ha hsame rfl rfl rfl nofun trivial

/-! ## The error path -/

/-- A node that is being compiled has no publication of its generation. -/
theorem Recorded.lt_of_compiling (h : Recorded n p) (hn : n.state = .compilingLcq) :
    p.generation < n.generation := by
  refine h.resolve_right ?_
  rintro ⟨-, hstate⟩
  rw [hn] at hstate
  cases htier : p.tier <;> simp [htier, EntryState.published] at hstate

/-- The owner of a compilation gives it up. -/
theorem abort_advances (hs : Sound s) (ha : Assertion t (.abortExchange key generation outer e) s) :
    Advances t s .quiet (.abortNotify key outer e)
      { s.setState key .empty with compiler := Function.update s.compiler key none } := by
  have hkey := ha.compiling key generation rfl
  have howner := (ha.compiler key).mpr ⟨generation, rfl⟩
  have hdrift : ∀ k, Drift (s.node k) ((s.setState key .empty).node k) := by
    intro k
    by_cases hk : k = key
    · subst hk
      refine ⟨?_, ?_, ?_⟩ <;> simp [setState, hkey.1, EntryState.published]
    · rw [setState, s.node_setNode_of_ne hk]
      exact .refl _
  have hother : ∀ k, k ≠ key → (s.setState key .empty).node k = s.node k :=
    fun k hk ↦ s.node_setNode_of_ne hk _
  refine ⟨⟨?_, ?_, ?_, hs.nodup, hs.queue, hs.unstarted, hs.failure⟩,
    ⟨ha.lock, ?_, nofun, ha.outer, ha.error, nofun⟩, fun u hu ↦ ⟨.rfl, ?_, ?_, fun _ ↦ rfl,
    fun _ ↦ rfl, fun _ ↦ hdrift⟩, trivial, prefix_refl _⟩
  · exact fun hfree k ↦ Linked.drift (s := s) rfl (hdrift k) (hs.linked hfree k)
  · intro k
    by_cases hk : k = key
    · subst hk
      simp [setState]
    · simp only [hother k hk, update_of_ne hk]
      exact hs.compiling k
  · intro p hp
    have hp' := hs.recorded p hp
    by_cases hk : p.key = key
    · left
      rw [hk] at hp'
      have hlt := hp'.lt_of_compiling hkey.1
      simpa [hk, setState] using hlt
    · simpa only [hother p.key hk] using hp'
  · intro k
    by_cases hk : k = key
    · simp [hk, Pc.owned]
    · simp only [update_of_ne hk]
      rw [ha.compiler k]
      simp [Pc.owned, Ne.symm hk]
  · intro k
    by_cases hk : k = key
    · simp [hk, howner, Ne.symm hu]
    · simp only [update_of_ne hk]
  · intro k hk
    refine hother k ?_
    rintro rfl
    exact hu (Option.some.inj (hk.symm.trans howner))

theorem notifyStep_advances (hs : Sound s) (ha : Assertion t pc s)
    (h : notifyStep t s pc choice = some (b, pc', s')) : Advances t s b pc' s' := by
  have hsame : Drifts s s := .of_tables hs rfl rfl
  revert h
  fun_cases notifyStep t s pc choice
  case case12 => simp
  case case11 => exact .of_acquire hs ha rfl rfl rfl (by rintro _ ⟨⟩) fun _ h ↦ h
  all_goals rintro ⟨⟩
  case case3 =>
    exact .unlocked hs ha (.of_tables hs rfl rfl) rfl rfl ha.outer (by rintro _ ⟨⟩) trivial
  case case4 => exact .unlocked hs ha hsame rfl rfl ha.outer ha.error trivial
  case case5 key generation outer e hne =>
    exact absurd (ha.compiling key generation rfl).2 hne
  case case6 key generation outer e =>
    rw [if_pos (ha.compiling key generation rfl).1]
    exact abort_advances hs ha
  case case7 key outer e failed =>
    obtain rfl : outer = [] := ha.outer
    exact .unlocked hs ha (.of_tables hs rfl rfl) rfl rfl rfl (by rintro _ ⟨⟩) (ha.error e rfl)
  case case8 worker =>
    cases worker <;>
      exact .unlocked hs ha (.of_tables hs rfl rfl) rfl rfl rfl (by rintro _ ⟨⟩) trivial
  case case10 =>
    exact .unlocked hs ha (.of_node_eq rfl (Nat.zero_le _) hs.unstarted hs.failure) rfl rfl rfl
      (by rintro _ ⟨⟩) trivial
  all_goals
    exact .unlocked hs ha (.of_tables hs rfl rfl) rfl rfl rfl (by rintro _ ⟨⟩) trivial

/-! ## Transitions of one node under the lock -/

theorem ne_compiling_of_published {state : EntryState} (h : state.published = true) :
    state ≠ .compilingLcq := by
  rintro rfl
  exact nomatch h

/-- Nobody compiles a node in another state. -/
theorem Sound.compiler_eq_none (hs : Sound s) (h : (s.node k).state ≠ .compilingLcq) :
    s.compiler k = none := by
  rcases hc : s.compiler k with _ | u
  · rfl
  · exact absurd ((hs.compiling k).mpr (by rw [hc]; rfl)) h

/-- A step under the lock that changes the node of one key. -/
theorem Advances.at_key (hs : Sound s) (ha : Assertion t pc s) (hcritical : pc.critical = true)
    (hnode : s'.node = Function.update s.node k n)
    (hcompiler : ∀ l, l ≠ k → s'.compiler l = s.compiler l)
    (hbefore : s.compiler k = none ∨ s.compiler k = some t)
    (hafter : s'.compiler k = none ∨ s'.compiler k = some t)
    (hstate : n.state = .compilingLcq ↔ (s'.compiler k).isSome = true)
    (hrecorded : ∀ p ∈ s'.publications,
      (p.key = k → Recorded n p) ∧ (p.key ≠ k → p ∈ s.publications))
    (hnodup : s'.publications.Nodup) (hfirst : s.publications <+: s'.publications)
    (hqueue : (s'.hcq, s'.hcqStarted, s'.failure) = (s.hcq, s.hcqStarted, s.failure))
    (howned : ∀ l g, l ≠ k → (pc'.owned = some (l, g) ↔ pc.owned = some (l, g)))
    (hk : ∀ g, pc'.owned = some (k, g) → n.state = .compilingLcq ∧ n.generation = g)
    (howner : s'.compiler k = some t ↔ ∃ g, pc'.owned = some (k, g))
    (hlock : s'.node k = n → (∀ l, l ≠ k → s'.node l = s.node l) →
      s'.lock = some t ∧ pc'.critical = true ∧ Middle s' pc' ∨
      s'.lock = none ∧ pc'.critical = false ∧ ∀ l, Linked s' l) (houter : pc'.outer = [])
    (herror : ∀ e, pc'.error = some e → e.Ordinary) (hanswer : b.Ordinary) :
    Advances t s b pc' s' := by
  have ht := ha.lock.mpr hcritical
  have hother : ∀ u, u ≠ t → s.lock ≠ some u :=
    fun u hu h ↦ hu (Option.some.inj (h.symm.trans ht))
  have hself : s'.node k = n := by rw [hnode, update_self]
  have hne : ∀ l, l ≠ k → s'.node l = s.node l := fun l hl ↦ by
    rw [hnode, update_of_ne hl]
  obtain ⟨hhcq, hstarted, hfailure⟩ : _ ∧ _ ∧ _ := by simpa only [Prod.mk.injEq] using hqueue
  refine ⟨⟨?_, ?_, ?_, hnodup, hhcq ▸ hs.queue, ?_, ?_⟩, ⟨?_, ?_, ?_, houter, herror, ?_⟩,
    fun u hu ↦ ⟨?_, ?_, ?_, fun h ↦ absurd h (hother u hu), fun h ↦ absurd h (hother u hu),
      fun h ↦ absurd h (hother u hu)⟩, hanswer, hfirst⟩
  · intro hfree
    rcases hlock hself hne with ⟨hlock, -⟩ | ⟨-, -, hlinked⟩
    · rw [hlock] at hfree
      exact nomatch hfree
    · exact hlinked
  · intro l
    by_cases hl : l = k
    · rw [hl, hself]
      exact hstate
    · rw [hne l hl, hcompiler l hl]
      exact hs.compiling l
  · intro p hp
    by_cases hpk : p.key = k
    · rw [hpk, hself]
      exact (hrecorded p hp).1 hpk
    · rw [hne p.key hpk]
      exact hs.recorded p ((hrecorded p hp).2 hpk)
  · rw [hstarted, hhcq]
    exact hs.unstarted
  · rw [hfailure]
    exact hs.failure
  · rcases hlock hself hne with ⟨hlock, hpc, -⟩ | ⟨hlock, hpc, -⟩ <;> simp [hlock, hpc]
  · intro l
    by_cases hl : l = k
    · rw [hl]
      exact howner
    · rw [hcompiler l hl, ha.compiler l]
      exact exists_congr fun g ↦ (howned l g hl).symm
  · intro l g hg
    by_cases hl : l = k
    · subst hl
      rw [hself]
      exact hk g hg
    · rw [hne l hl]
      exact ha.compiling l g ((howned l g hl).mp hg)
  · intro hpc
    rcases hlock hself hne with ⟨-, -, hmiddle⟩ | ⟨-, hpc', -⟩
    · exact hmiddle
    · rw [hpc] at hpc'
      exact nomatch hpc'
  · rcases hlock hself hne with ⟨hlock, -⟩ | ⟨hlock, -⟩ <;> simp [hlock, ht, Ne.symm hu]
  · intro l
    by_cases hl : l = k
    · rw [hl]
      rcases hbefore with h | h <;> rcases hafter with h' | h' <;> simp [h, h', Ne.symm hu]
    · rw [hcompiler l hl]
  · intro l hl
    refine hne l ?_
    rintro rfl
    rcases hbefore with h | h
    · exact nomatch hl.symm.trans h
    · exact hu (Option.some.inj (hl.symm.trans h))

/-- A step under the lock that changes a published node without publishing. -/
theorem Advances.at_published (hs : Sound s) (ha : Assertion t pc s)
    (hcritical : pc.critical = true) (hnode : s'.node = Function.update s.node k n)
    (hsame : (s'.compiler, s'.publications, s'.lock) = (s.compiler, s.publications, s.lock))
    (hpublished : (s.node k).state.published = true) (hstate : n.state ≠ .compilingLcq)
    (hrecorded : ∀ p ∈ s.publications, p.key = k → Recorded n p)
    (hqueue : (s'.hcq, s'.hcqStarted, s'.failure) = (s.hcq, s.hcqStarted, s.failure))
    (hcritical' : pc'.critical = true) (howned : pc'.owned = pc.owned) (houter : pc'.outer = [])
    (herror : ∀ e, pc'.error = some e → e.Ordinary)
    (hmiddle : s'.node k = n → (∀ l, l ≠ k → s'.node l = s.node l) → Middle s' pc')
    (hanswer : b.Ordinary) : Advances t s b pc' s' := by
  obtain ⟨hcompiler, hpublications, hlock⟩ : _ ∧ _ ∧ _ := by
    simpa only [Prod.mk.injEq] using hsame
  have hne := ne_compiling_of_published hpublished
  have hnone := hs.compiler_eq_none hne
  have hunowned : ∀ g, pc.owned ≠ some (k, g) := by
    intro g hg
    exact hne (ha.compiling k g hg).1
  refine .at_key hs ha hcritical hnode (fun l _ ↦ by rw [hcompiler]) (.inl hnone)
    (.inl (hcompiler ▸ hnone)) ?_ (fun p hp ↦ ?_) (hpublications ▸ hs.nodup)
    (hpublications ▸ prefix_refl _) hqueue (fun l g _ ↦ by rw [howned]) ?_ ?_
    (fun hk hl ↦ .inl ⟨hlock.trans (ha.lock.mpr hcritical), hcritical', hmiddle hk hl⟩) houter
    herror hanswer
  · rw [hcompiler, hnone]
    simp [hstate]
  · rw [hpublications] at hp
    exact ⟨hrecorded p hp, fun _ ↦ hp⟩
  · intro g hg
    exact absurd (howned ▸ hg) (hunowned g)
  · rw [hcompiler, hnone, howned]
    simp [hunowned]

/-! ## Retirement -/

theorem Linked.published_of_region (h : Linked s k) (hk : s.regions[k]? = some region) :
    (s.node k).entry = region.entry ∧ (s.node k).state.published = true := by
  rw [Linked, hk] at h
  exact h

theorem Linked.of_no_region (h : Linked s k) (hk : s.regions[k]? = none) :
    (s.node k).entry = 0 ∧ (s.node k).state.published = false := by
  rw [Linked, hk] at h
  exact h

/-- A node with a null entry has no region. -/
theorem Linked.no_region_of_entry (h : Linked s k) (hk : (s.node k).entry = 0) :
    s.regions[k]? = none := by
  rcases hregion : s.regions[k]? with _ | region
  · rfl
  · exact absurd ((h.published_of_region hregion).1.symm.trans hk) region.entry_ne_zero

theorem Linked.of_region (hk : s.regions[k]? = some region)
    (hentry : (s.node k).entry = region.entry)
    (hpublished : (s.node k).state.published = true) : Linked s k := by
  rw [Linked, hk]
  exact ⟨hentry, hpublished⟩

theorem Linked.of_none (hk : s.regions[k]? = none) (hentry : (s.node k).entry = 0)
    (hpublished : (s.node k).state.published = false) : Linked s k := by
  rw [Linked, hk]
  exact ⟨hentry, hpublished⟩

/-- Linked nodes stay linked while another key's region and node change. -/
theorem LinkedExcept.of_ne (h : LinkedExcept s k)
    (hregions : ∀ l, l ≠ k → s'.regions[l]? = s.regions[l]?)
    (hnode : ∀ l, l ≠ k → s'.node l = s.node l) : LinkedExcept s' k := by
  intro l hl
  rw [Linked, hregions l hl, hnode l hl]
  exact h l hl

/-- A key that is linked completes the others. -/
theorem LinkedExcept.linked (h : LinkedExcept s k) (hk : Linked s k) (l : RegionKey) :
    Linked s l := by
  by_cases hl : l = k
  · rw [hl]
    exact hk
  · exact h l hl

theorem detach_advances (hs : Sound s) (ha : Assertion t (.retire keys resume) s)
    (hregion : s.regions[key]? = some region) :
    Advances t s .quiet (.clearEntry region key (keys.erase key) resume)
      { s with regions := s.regions.erase key } := by
  have hlinked : ∀ l, Linked s l := ha.middle rfl
  have hexcept : LinkedExcept s key := fun l _ ↦ hlinked l
  exact .locked hs ha (.of_tables hs rfl rfl) rfl rfl ha.outer ha.error
    ⟨hexcept.of_ne (fun l hl ↦ getElem?_erase_of_ne hl) (fun _ _ ↦ rfl),
      ExtTreeMap.getElem?_erase_self, ((hlinked key).published_of_region hregion).2⟩ trivial

theorem clearEntry_advances (hs : Sound s)
    (ha : Assertion t (.clearEntry region key keys resume) s) :
    Advances t s .quiet (.bumpGeneration region key keys resume) (s.setEntry key 0) := by
  obtain ⟨hexcept, hnone, hpublished⟩ := ha.middle rfl
  refine .at_published hs ha rfl rfl rfl hpublished
    (ne_compiling_of_published hpublished) ?_ rfl rfl
    rfl ha.outer ha.error (fun hk hl ↦ ⟨hexcept.of_ne (fun _ _ ↦ rfl) hl, hnone, ?_, ?_⟩) trivial
  · rintro p hp rfl
    exact hs.recorded p hp
  · rw [hk]
    exact hpublished
  · rw [hk]

theorem bumpGeneration_advances (hs : Sound s)
    (ha : Assertion t (.bumpGeneration region key keys resume) s) :
    Advances t s .quiet (.storeEmpty region key keys resume)
      (s.setNode key { s.node key with generation := (s.node key).generation + 1 }) := by
  obtain ⟨hexcept, hnone, hpublished, hentry⟩ := ha.middle rfl
  have hlt : ∀ p ∈ s.publications, p.key = key → p.generation < (s.node key).generation + 1 := by
    rintro p hp rfl
    rcases hs.recorded p hp with h | ⟨h, -⟩ <;> omega
  refine .at_published hs ha rfl rfl rfl hpublished (ne_compiling_of_published hpublished)
    (fun p hp hpk ↦ .inl (hlt p hp hpk)) rfl rfl rfl ha.outer ha.error
    (fun hk hl ↦ ⟨hexcept.of_ne (fun _ _ ↦ rfl) hl, hnone, ?_⟩) trivial
  rw [hk]
  exact ⟨hpublished, hentry, hlt⟩

theorem storeEmpty_advances (hs : Sound s)
    (ha : Assertion t (.storeEmpty region key keys resume) s) :
    Advances t s .quiet (.retire keys resume)
      { s.setState key .empty with retired := s.retired ++ [region] } := by
  obtain ⟨hexcept, hnone, hpublished, hentry, hlt⟩ := ha.middle rfl
  refine .at_published hs ha rfl rfl rfl hpublished nofun (fun p hp hpk ↦ .inl (hlt p hp hpk)) rfl
    rfl rfl ha.outer ha.error (fun hk hl ↦ ?_) trivial
  exact LinkedExcept.linked (hexcept.of_ne (fun _ _ ↦ rfl) hl)
    (.of_none hnone (hk.symm ▸ hentry) (hk.symm ▸ rfl))

/-! ## Lookups -/

/-- An unpublished node has no publication of its generation. -/
theorem Recorded.lt_of_unpublished (h : Recorded n p) (hn : n.state.published = false) :
    p.generation < n.generation := by
  refine h.resolve_right ?_
  rintro ⟨-, hstate⟩
  cases htier : p.tier with
  | lcq =>
    simp only [htier, hn] at hstate
    cases hstate
  | hcq =>
    simp only [htier] at hstate
    rw [hstate] at hn
    cases hn

theorem beginLcq_advances (hs : Sound s) (ha : Assertion t (.beginLcq key outer) s)
    (hempty : (s.node key).state = .empty) :
    Advances t s .quiet (.discover (.lcq key (s.node key).generation cursor outer) {})
      { s.setState key .compilingLcq with
        compiler := Function.update s.compiler key (some t) }.unlock := by
  obtain ⟨hlinked, hentry⟩ := ha.middle rfl
  have hnone : s.compiler key = none := hs.compiler_eq_none (by simp [hempty])
  have hunpublished : (s.node key).state.published = false := by rw [hempty]; rfl
  refine .at_key hs ha rfl rfl (fun l hl ↦ update_of_ne hl ..) (.inl hnone)
    (.inr (update_self ..)) ?_ (fun p hp ↦ ⟨?_, fun _ ↦ hp⟩) hs.nodup (prefix_refl _) rfl ?_ ?_ ?_
    (fun hk hl ↦ .inr ⟨rfl, rfl, ?_⟩) ha.outer nofun trivial
  · simp [unlock]
  · rintro rfl
    exact .inl ((hs.recorded p hp).lt_of_unpublished hunpublished)
  · intro l g hl
    simp [Pc.owned, Job.owned, Ne.symm hl]
  · intro g hg
    simp only [Pc.owned, Job.owned, Option.some.injEq, Prod.mk.injEq, true_and] at hg
    exact ⟨rfl, hg⟩
  · simp [unlock, Pc.owned, Job.owned]
  · have hexcept : LinkedExcept s key := fun l _ ↦ hlinked l
    exact LinkedExcept.linked (hexcept.of_ne (fun _ _ ↦ rfl) hl)
      (.of_none ((hlinked key).no_region_of_entry hentry) (hk.symm ▸ hentry) (hk.symm ▸ rfl))

theorem lookupFailure_ordinary (hs : Sound s) (h : lookupFailure s = some e) : e.Ordinary := by
  rw [lookupFailure] at h
  split at h
  · exact Option.some.inj h ▸ hs.failure _ ‹_›
  · split_ifs at h
    exact Option.some.inj h ▸ ⟨nofun, nofun⟩

theorem reconcileStep_advances (hs : Sound s) (ha : Assertion t (.reconcile resume) s)
    (h : reconcileStep cpu s resume = (b, pc', s')) : Advances t s b pc' s' := by
  have hlinked : ∀ l, Linked s l := ha.middle rfl
  revert h
  fun_cases reconcileStep cpu s resume
  case case1 | case2 =>
    rintro ⟨⟩
    exact .locked hs ha (.of_tables hs rfl rfl) rfl rfl ha.outer ha.error hlinked trivial
  case case3 error _ _ failed =>
    rintro ⟨⟩
    have he : (DirectJitError.cannotConsumeInvalidations error).Ordinary := ⟨nofun, nofun⟩
    have htables : Drifts s s.unlock := .of_tables hs rfl rfl
    cases resume with
    | entryFor key outer =>
      obtain rfl : outer = [] := ha.outer
      exact .release hs ha htables rfl hlinked rfl rfl nofun he
    | commit job region => exact .fail job hs ha htables rfl hlinked rfl rfl rfl he
    | hcqFailed r e => exact .fail (.hcq r) hs ha htables rfl hlinked rfl rfl rfl he
    | publishedEntryFor | reconcile | shutdown =>
      exact .release hs ha htables rfl hlinked rfl rfl nofun he

theorem resumeStep_advances (hs : Sound s) (ha : Assertion t (.retire [] resume) s)
    (h : resumeStep s resume = (b, pc', s')) : Advances t s b pc' s' := by
  have hlinked : ∀ l, Linked s l := ha.middle rfl
  have hsame : Drifts s s := .of_tables hs rfl rfl
  cases resume <;> obtain ⟨⟩ := h
  case hcqFailed => exact .locked hs ha hsame rfl rfl ha.outer ha.error hlinked trivial
  case entryFor | commit | publishedEntryFor =>
    exact .locked hs ha hsame rfl rfl ha.outer nofun hlinked trivial
  all_goals
    exact .release hs ha (.of_tables hs rfl rfl) rfl hlinked rfl rfl nofun trivial

theorem lookupStep_advances [DecidableEq ι] (hs : Sound s) (ha : Assertion t pc s)
    (h : lookupStep cpu t s pc choice = some (b, pc', s')) : Advances t s b pc' s' := by
  have hsame : Drifts s s := .of_tables hs rfl rfl
  have htables : Drifts s s.unlock := .of_tables hs rfl rfl
  revert h
  fun_cases lookupStep cpu t s pc choice
  case case1 => exact .of_acquire hs ha rfl rfl ha.outer nofun fun _ h ↦ h
  case case2 => exact .of_acquire hs ha rfl rfl ha.outer ha.error fun _ h ↦ h
  case case3 => exact fun h ↦ reconcileStep_advances hs ha (Option.some.inj h)
  case case4 => exact fun h ↦ resumeStep_advances hs ha (Option.some.inj h)
  case case7 | case21 | case28 => exact nofun
  all_goals rintro ⟨⟩
  case case5 => exact .locked hs ha hsame rfl rfl ha.outer ha.error (ha.middle rfl) trivial
  case case6 hregion => exact detach_advances hs ha hregion
  case case8 => exact clearEntry_advances hs ha
  case case9 => exact bumpGeneration_advances hs ha
  case case10 => exact storeEmpty_advances hs ha
  case case11 key outer e he failed =>
    obtain rfl : outer = [] := ha.outer
    exact .release hs ha htables rfl (ha.middle rfl) rfl rfl nofun (lookupFailure_ordinary hs he)
  case case12 | case15 => exact .locked hs ha hsame rfl rfl ha.outer nofun (ha.middle rfl) trivial
  case case13 | case26 | case27 =>
    exact .release hs ha htables rfl (ha.middle rfl) rfl rfl nofun trivial
  case case14 hentry =>
    exact .locked hs ha hsame rfl rfl ha.outer nofun ⟨ha.middle rfl, by simpa using hentry⟩ trivial
  case case16 =>
    exact .locked hs ha hsame rfl rfl ha.outer nofun (ha.middle rfl).1 trivial
  case case17 key outer failed hempty hcompiling =>
    -- a node with a null entry is not published
    obtain ⟨hlinked, hentry⟩ := ha.middle rfl
    have hnone := (hlinked key).no_region_of_entry hentry
    have hstate := ((hlinked key).of_no_region hnone).2
    cases hs : (s.node key).state with
    | empty => exact absurd hs hempty
    | compilingLcq => exact absurd hs hcompiling
    | lcq | hcqQueued | hcq => simp [hs, EntryState.published] at hstate
  case case18 hempty => exact beginLcq_advances hs ha hempty
  case case19 =>
    exact .release hs ha htables rfl (ha.middle rfl).1 rfl ha.outer nofun trivial
  case case20 =>
    exact .release hs ha (.of_tables hs rfl rfl) rfl (ha.middle rfl) rfl ha.outer nofun trivial
  case case22 => exact .unlocked hs ha hsame rfl rfl ha.outer nofun trivial
  case case23 =>
    exact .unlocked hs ha (.of_tables hs rfl rfl) rfl rfl ha.outer nofun trivial
  case case24 he =>
    exact .release hs ha htables rfl (ha.middle rfl) rfl rfl nofun (lookupFailure_ordinary hs he)
  case case25 => exact .locked hs ha hsame rfl rfl rfl nofun (ha.middle rfl) trivial

/-! ## Publication -/

theorem ordinary_of_revalidation (h : revalidation cpu s job region = .error e) : e.Ordinary := by
  rw [revalidation] at h
  split at h
  · exact nomatch h
  · exact nomatch h
  · exact Except.error.inj h ▸ ⟨nofun, nofun⟩

section

variable (hs : Sound s)

include hs

/-- The region of a first publication enters the table. -/
theorem insertLcq_advances
    (ha : Assertion t (.commitInsert (.lcq key generation cursor outer) region) s) :
    s.regions[key]? = none ∧
      Advances t s .quiet (.publishCheck (.lcq key generation cursor outer) region none)
        (s.insertRegion key region) := by
  have hlinked : ∀ l, Linked s l := ha.middle rfl
  have hcompiling := (ha.compiling key generation rfl).1
  have hnone : s.regions[key]? = none := by
    rcases hregion : s.regions[key]? with _ | region'
    · rfl
    · have hpublished := ((hlinked key).published_of_region hregion).2
      rw [hcompiling] at hpublished
      exact nomatch hpublished
  refine ⟨hnone, .locked hs ha (.of_tables hs rfl rfl) rfl rfl ha.outer nofun
    ⟨?_, ExtTreeMap.getElem?_insert_self, ((hlinked key).of_no_region hnone).1⟩ trivial⟩
  exact LinkedExcept.of_ne (fun l _ ↦ hlinked l) (fun l hl ↦ getElem?_insert_of_ne hl)
    fun _ _ ↦ rfl

/-- The region of a replacement enters the table. -/
theorem insertHcq_advances (ha : Assertion t (.commitInsert (.hcq r) region) s) :
    Advances t s .quiet (.publishCheck (.hcq r) region s.regions[r.key]?)
      (s.insertRegion r.key region) := by
  obtain ⟨hlinked, hgeneration, hentry⟩ := ha.middle rfl
  rcases hregion : s.regions[r.key]? with _ | previous
  · exact absurd ((hlinked r.key).of_no_region hregion).1 hentry
  obtain ⟨hprevious, hpublished⟩ := (hlinked r.key).published_of_region hregion
  refine .locked hs ha (.of_tables hs rfl rfl) rfl rfl ha.outer nofun
    ⟨?_, ExtTreeMap.getElem?_insert_self, hgeneration, hpublished, previous, rfl, hprevious⟩ trivial
  exact LinkedExcept.of_ne (fun l _ ↦ hlinked l) (fun l hl ↦ getElem?_insert_of_ne hl)
    fun _ _ ↦ rfl

/-- A replacement that lost its node puts the previous region back. -/
theorem undoHcq_advances (ha : Assertion t (.publishCheck (.hcq r) region previous) s) :
    Advances t s .quiet .pop (s.restoreRegion r.key previous).unlock := by
  obtain ⟨hexcept, -, -, hpublished, p, rfl, hentry⟩ := ha.middle rfl
  refine .release hs ha (.of_tables hs rfl rfl) rfl ?_ rfl rfl nofun trivial
  refine LinkedExcept.linked (k := r.key) ?_ ?_
  · exact hexcept.of_ne (fun l hl ↦ getElem?_insert_of_ne hl) fun _ _ ↦ rfl
  · rw [Linked]
    simp only [unlock, restoreRegion, ExtTreeMap.getElem?_insert_self]
    exact ⟨hentry, hpublished⟩

theorem publishEntry_advances (ha : Assertion t (.publishEntry job region previous) s) :
    Advances t s .quiet (.publishState job region previous) (s.setEntry job.key region.entry) := by
  have hrecorded : ∀ p ∈ s.publications, p.key = job.key →
      Recorded { s.node job.key with entry := region.entry } p :=
    fun p hp hpk ↦ hpk ▸ hs.recorded p hp
  cases job with
  | lcq key generation cursor outer =>
    obtain ⟨hexcept, hregion, -⟩ := ha.middle rfl
    have howner := (ha.compiler key).mpr ⟨generation, rfl⟩
    exact .at_key hs ha rfl rfl (fun _ _ ↦ rfl) (.inr howner) (.inr howner) (hs.compiling key)
      (fun p hp ↦ ⟨hrecorded p hp, fun _ ↦ hp⟩) hs.nodup (prefix_refl _) rfl (fun _ _ _ ↦ .rfl)
      (ha.compiling key) (ha.compiler key) (fun hk hl ↦ .inl ⟨ha.lock.mpr rfl, rfl,
        hexcept.of_ne (fun _ _ ↦ rfl) hl, hregion, hk.symm ▸ rfl⟩) ha.outer nofun trivial
  | hcq r =>
    obtain ⟨hexcept, hregion, hgeneration, hpublished, -, hfirst⟩ := ha.middle rfl
    refine .at_published (k := r.key) hs ha rfl rfl rfl hpublished
      (ne_compiling_of_published hpublished) hrecorded rfl rfl rfl rfl nofun
      (fun hk hl ↦ ⟨hexcept.of_ne (fun _ _ ↦ rfl) hl, hregion, ?_⟩) trivial
    rw [hk]
    exact ⟨hgeneration, hpublished, rfl, hfirst⟩

/-- A publication that is new for its key is recorded and was not in the list. -/
theorem Sound.publish (hself : Recorded n p)
    (hrest : ∀ q ∈ s.publications, q.key = p.key → Recorded n q) (hnew : p ∉ s.publications) :
    (∀ q ∈ s.publications ++ [p], (q.key = p.key → Recorded n q) ∧
      (q.key ≠ p.key → q ∈ s.publications)) ∧ (s.publications ++ [p]).Nodup := by
  refine ⟨fun q hq ↦ ?_, nodup_append.mpr ⟨hs.nodup, nodup_singleton _, ?_⟩⟩
  · rcases mem_append.mp hq with hq | hq
    · exact ⟨hrest q hq, fun _ ↦ hq⟩
    · obtain rfl := mem_singleton.mp hq
      exact ⟨fun _ ↦ hself, absurd rfl⟩
  · rintro q hq _ hp rfl
    obtain rfl := mem_singleton.mp hp
    exact hnew hq

theorem publishLcq_advances
    (ha : Assertion t (.publishState (.lcq key generation cursor outer) region previous) s) :
    Advances t s .quiet (.publishUnlock (.lcq key generation cursor outer) region)
      { s.setState key .lcq with
        compiler := Function.update s.compiler key none
        publications := s.publications ++ [⟨.lcq, key, generation⟩] } := by
  obtain ⟨hexcept, hregion, hentry⟩ := ha.middle rfl
  obtain ⟨hstate, hgeneration⟩ := ha.compiling key generation rfl
  have howner := (ha.compiler key).mpr ⟨generation, rfl⟩
  have hlt : ∀ p ∈ s.publications, p.key = key → p.generation < (s.node key).generation := by
    rintro p hp rfl
    exact (hs.recorded p hp).lt_of_compiling hstate
  have hpublish := hs.publish (n := { s.node key with state := .lcq })
    (p := ⟨.lcq, key, generation⟩) (.inr ⟨hgeneration.symm, rfl⟩)
    (fun p hp hpk ↦ .inl (hlt p hp hpk)) fun hp ↦ (hlt _ hp rfl).ne hgeneration.symm
  refine .at_key hs ha rfl rfl (fun l hl ↦ update_of_ne hl ..) (.inr howner)
    (.inl (update_self ..)) ?_ hpublish.1 hpublish.2 (prefix_append ..) rfl ?_ nofun ?_
    (fun hk hl ↦ .inl ⟨ha.lock.mpr rfl, rfl, ?_⟩) ha.outer nofun trivial
  · simp
  · intro l g hl
    simp [Pc.owned, Job.owned, Ne.symm hl]
  · simp [Pc.owned]
  · exact LinkedExcept.linked (hexcept.of_ne (fun _ _ ↦ rfl) hl)
      (.of_region hregion (hk.symm ▸ hentry) (hk.symm ▸ rfl))

theorem publishHcq_advances (ha : Assertion t (.publishState (.hcq r) region previous) s) :
    Advances t s .quiet (.publishUnlock (.hcq r) region)
      { s.setState r.key .hcq with
        retired := s.retired ++ previous.toList
        publications := s.publications ++ [⟨.hcq, r.key, r.generation⟩] } := by
  obtain ⟨hexcept, hregion, hgeneration, hpublished, hentry, hlt⟩ := ha.middle rfl
  have hnone := hs.compiler_eq_none (ne_compiling_of_published hpublished)
  have hpublish := hs.publish (n := { s.node r.key with state := .hcq })
    (p := ⟨.hcq, r.key, r.generation⟩) (.inr ⟨hgeneration.symm, rfl⟩) (fun p hp hpk ↦ ?_)
    fun hp ↦ (hlt _ hp rfl rfl).ne rfl
  · refine .at_key hs ha rfl rfl (fun _ _ ↦ rfl) (.inl hnone) (.inl hnone) ?_ hpublish.1
      hpublish.2 (prefix_append ..) rfl (fun _ _ _ ↦ .rfl) nofun ?_
      (fun hk hl ↦ .inl ⟨ha.lock.mpr rfl, rfl, ?_⟩) ha.outer nofun trivial
    · simp [setState, setNode, hnone]
    · simp [Pc.owned, setState, setNode, hnone]
    · exact LinkedExcept.linked (hexcept.of_ne (fun _ _ ↦ rfl) hl)
        (.of_region hregion (hk.symm ▸ hentry) (hk.symm ▸ rfl))
  · have hp' := hpk ▸ hs.recorded p hp
    rcases htier : p.tier with _ | _
    · refine hp'.imp_right fun h ↦ ⟨h.1, ?_⟩
      simp [htier, EntryState.published]
    · left
      simp only [hgeneration]
      exact hlt p hp htier hpk

end

/-- A node that waits for its replacement has none of its generation. -/
theorem Recorded.lt_of_queued (h : Recorded n p) (hp : p.tier = .hcq) (hn : n.state = .hcqQueued) :
    p.generation < n.generation := by
  refine h.resolve_right ?_
  rintro ⟨-, hstate⟩
  rw [hp, hn] at hstate
  exact nomatch hstate

theorem commitStep_advances (hs : Sound s) (ha : Assertion t pc s)
    (h : commitStep cpu s pc choice = some (b, pc', s')) : Advances t s b pc' s' := by
  have hsame : Drifts s s := .of_tables hs rfl rfl
  have htables : Drifts s s.unlock := .of_tables hs rfl rfl
  revert h
  fun_cases commitStep cpu s pc choice
  case case28 => exact nofun
  all_goals rintro ⟨⟩
  case case1 he =>
    exact .fail _ hs ha htables rfl (ha.middle rfl) rfl rfl rfl (ordinary_of_revalidation he)
  case case2 | case5 | case8 | case17 =>
    exact .locked hs ha hsame rfl rfl ha.outer nofun (ha.middle rfl) trivial
  case case3 =>
    exact .fail (.lcq ..) hs ha htables rfl (ha.middle rfl) rfl rfl rfl ⟨nofun, nofun⟩
  case case4 | case9 | case25 =>
    exact .release hs ha htables rfl (ha.middle rfl) rfl rfl nofun trivial
  case case6 key generation cursor outer region affected hstale =>
    -- the owner of a compilation finds its node as it left it
    obtain ⟨hstate, hgeneration⟩ := ha.compiling key generation rfl
    simp [hstate, hgeneration] at hstale
  case case7 | case24 => exact .release hs ha htables rfl (ha.middle rfl) rfl ha.outer nofun trivial
  case case10 => exact .locked hs ha hsame rfl rfl rfl nofun (ha.middle rfl) trivial
  case case11 r region affected hovertaken _ =>
    obtain ⟨hgeneration, -, hentry⟩ : _ ∧ _ ∧ _ := by simpa [hcqOvertaken] using hovertaken
    exact .locked hs ha hsame rfl rfl rfl nofun ⟨ha.middle rfl, hgeneration, hentry⟩ trivial
  case case12 job region =>
    refine .locked hs ha hsame rfl rfl ha.outer nofun ?_ trivial
    cases job <;> exact ha.middle rfl
  case case13 job region detail =>
    refine .fail _ hs ha htables rfl ?_ rfl rfl rfl ⟨nofun, nofun⟩
    cases job with
    | lcq => exact ha.middle rfl
    | hcq => exact (ha.middle rfl).1
  case case14 hprevious =>
    exact nomatch (insertLcq_advances hs ha).1.symm.trans hprevious
  case case15 => exact (insertLcq_advances hs ha).2
  case case16 => exact insertHcq_advances hs ha
  case case18 key generation cursor outer region previous hlost =>
    obtain ⟨hstate, hgeneration⟩ := ha.compiling key generation rfl
    simp [hstate, hgeneration] at hlost
  case case19 r region previous hkept =>
    obtain ⟨hexcept, hregion, hgeneration, hpublished, hprevious⟩ := ha.middle rfl
    refine .locked hs ha hsame rfl rfl rfl nofun
      ⟨hexcept, hregion, hgeneration, hpublished, hprevious, ?_⟩ trivial
    simp only [Bool.and_eq_true, decide_eq_true_eq] at hkept
    intro p hp htier hpk
    have hlt := (hpk ▸ hs.recorded p hp).lt_of_queued htier hkept.2
    exact hkept.1 ▸ hlt
  case case20 => exact undoHcq_advances hs ha
  case case21 => exact publishEntry_advances hs ha
  case case22 => exact publishLcq_advances hs ha
  case case23 => exact publishHcq_advances hs ha
  case case26 =>
    exact .restoreLcq hs ha rfl rfl nofun id (ha.middle rfl)
  case case27 =>
    exact .release hs ha (.of_tables hs rfl rfl) rfl (ha.middle rfl) rfl rfl nofun trivial

end

/-! ## All steps -/

variable [DecidableEq ι] {cpu : ProcessCpuContext} {maxNativeCodeBytes : Nat} {t : ι}
  {s s' : JitProcess ι} {pc pc' : Pc} {b : Answer} {choice : Choice}

/-- A step is a call, an addition of code size or a step of one of the five programs. -/
theorem step_cases (h : step cpu maxNativeCodeBytes t choice pc s = some (b, pc', s')) :
    (∃ cursor call, pc = .idle cursor ∧ callStep cursor s call = some (b, pc', s')) ∨
    (∃ job region nativeBytes, pc = .commitLock job region nativeBytes ∧
      commitLockStep maxNativeCodeBytes t s job region nativeBytes = some (b, pc', s')) ∨
    compileStep cpu s pc choice = some (b, pc', s') ∨
    commitStep cpu s pc choice = some (b, pc', s') ∨
    lookupStep cpu t s pc choice = some (b, pc', s') ∨
    notifyStep t s pc choice = some (b, pc', s') ∨
    queueStep t s pc choice = some (b, pc', s') := by
  simp only [step, orElse_eq_orElse, orElse_eq_or, or_eq_some_iff] at h
  rcases h with h | ⟨-, h | ⟨-, h | ⟨-, h | ⟨-, h | ⟨-, h⟩⟩⟩⟩⟩
  · split at h
    · exact .inl ⟨_, _, rfl, h⟩
    · exact .inr (.inl ⟨_, _, _, rfl, h⟩)
    · exact nomatch h
  · exact .inr (.inr (.inl h))
  · exact .inr (.inr (.inr (.inl h)))
  · exact .inr (.inr (.inr (.inr (.inl h))))
  · exact .inr (.inr (.inr (.inr (.inr (.inl h)))))
  · exact .inr (.inr (.inr (.inr (.inr (.inr h)))))

/-- **Every step keeps nodes and regions consistent.** -/
theorem step_advances (hs : Sound s) (ha : Assertion t pc s)
    (h : step cpu maxNativeCodeBytes t choice pc s = some (b, pc', s')) :
    Advances t s b pc' s' := by
  rcases step_cases h with ⟨cursor, call, rfl, hc⟩ | ⟨job, region, nativeBytes, rfl, hc⟩ |
    h | h | h | h | h
  · exact callStep_advances hs ha hc
  · exact commitLockStep_advances hs ha hc
  · exact compileStep_advances hs ha h
  · exact commitStep_advances hs ha h
  · exact lookupStep_advances hs ha h
  · exact notifyStep_advances hs ha h
  · exact queueStep_advances hs ha h

omit [DecidableEq ι] in
/-- The process before its first call. -/
theorem initialProcess_satisfies (memory : InstructionMemory) (log : MemoryInvalidationLog) :
    (initialProcess ι memory log).Satisfies Sound Assertion where
  shared := by
    refine ⟨fun _ k ↦ ?_, fun k ↦ ?_, by rintro _ ⟨⟩, nodup_nil, Nat.le_refl _, fun _ ↦ rfl,
      by rintro _ ⟨⟩⟩
    · simp [Linked, initialProcess, EntryState.published]
    · simp [initialProcess]
  locals t := by
    refine ⟨?_, fun k ↦ ?_, by rintro _ _ ⟨⟩, rfl, by rintro _ ⟨⟩, by rintro ⟨⟩⟩
    · simp [initialProcess, Pc.critical]
    · simp [initialProcess, Pc.owned]

end Nixe.Jit
