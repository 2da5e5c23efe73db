import Nixe.Scheduler.Links

/-!
# Tokens and leases are used once

A wake token names one registered wait and a lease names one grant. Both carry a generation drawn
from a counter that only grows, so neither is ever issued twice, even if the thread they name is
unregistered and another one registered under its identity.

The argument is the same for both. A token is *dead* once its generation has been drawn and no
thread has it as its active wait, or the thread that has it is gone for good; every step keeps it
dead, and a dead token is not accepted. Accepting a token kills it, and so does the end of the
thread it names.

The result needs no assumption on the commands: it covers the runs in which a thread is made
ready while it holds a lease or a wait. A token left behind by such a thread can still be accepted
once, and a lease left behind is never accepted after the next one.
-/

namespace Nixe.Scheduler

open Std SchedulerState

/-- A command together with the answer it got. -/
abbrev SchedulerEvent : Type := SchedulerCommand × Except SchedulerError SchedulerDecision

/-- The command succeeded. -/
def SchedulerEvent.Succeeds (e : SchedulerEvent) : Prop := ∃ d, e.2 = .ok d

/-- The event hands out the token. -/
def SchedulerEvent.ReturnsToken (w : WakeToken) (e : SchedulerEvent) : Prop :=
  e.2 = .ok (.waitRegistered w)

/-- The event accepts the token. -/
def SchedulerEvent.AcceptsToken (w : WakeToken) (e : SchedulerEvent) : Prop :=
  (e.1 = .wake w ∨ e.1 = .cancelWait w) ∧ e.Succeeds

/-- The event hands out the lease. -/
def SchedulerEvent.ReturnsLease (l : Lease) (e : SchedulerEvent) : Prop :=
  e.2 = .ok (.selected (some l))

/-- The event accepts the lease. -/
def SchedulerEvent.AcceptsLease (l : Lease) (e : SchedulerEvent) : Prop :=
  (∃ outcome, e.1 = .complete l outcome) ∧ e.Succeeds

/-- The event ends the thread: it is terminated, completes for the last time, or is
unregistered. -/
def SchedulerEvent.EndsThread (id : GuestThreadId) (e : SchedulerEvent) : Prop :=
  ((∃ faulted, e.1 = .terminate id faulted) ∨ e.1 = .unregister id ∨
    ∃ l outcome, e.1 = .complete l outcome ∧ l.thread = id ∧
      (outcome = .exited ∨ outcome = .faulted)) ∧ e.Succeeds

/-- A thread in this lifecycle never runs again. -/
def ThreadLifecycle.Terminal (l : ThreadLifecycle) : Prop := l = .exited ∨ l = .faulted

theorem ThreadLifecycle.Terminal.not_allowed {l target : ThreadLifecycle} (h : l.Terminal) :
    l.allowed target = false := by
  rcases h with rfl | rfl <;> cases target <;> rfl

/-! ## Where waits and leases come from -/

/-- What a step may do to the thread stored under one identity, as far as its wait and its lease
are concerned: nothing new appears except with a generation just drawn, and a thread that is gone
for good stays so. -/
structure Inherits (s : SchedulerState) (th th' : ScheduledThread) : Prop where
  wait : ∀ w, th'.activeWait = some w →
    w.generation = s.nextWakeGeneration ∨ th.activeWait = some w
  lease : ∀ l, th'.activeLease = some l →
    l.generation = s.nextLeaseGeneration ∨ th.activeLease = some l
  terminal : th.lifecycle.Terminal → th'.lifecycle.Terminal

/-- The thread stored under `id` after a step is inherited from before the step, or new and
without a wait or a lease. -/
def Descends (s t : SchedulerState) : Prop :=
  ∀ (id : GuestThreadId) (th' : ScheduledThread), t.threads[id]? = some th' →
    (∃ th, s.threads[id]? = some th ∧ Inherits s th th') ∨
      th'.activeWait = none ∧ th'.activeLease = none

section

variable {s t : SchedulerState} {id : GuestThreadId} {th th' : ScheduledThread}

theorem Inherits.refl (s : SchedulerState) (th : ScheduledThread) : Inherits s th th :=
  ⟨fun _ hw ↦ .inr hw, fun _ hl ↦ .inr hl, fun h ↦ h⟩

theorem Descends.of_insert (hth : s.threads[id]? = some th)
    (hthreads : t.threads = s.threads.insert id th') (h : Inherits s th th') : Descends s t := by
  intro id' th'' hget
  rw [hthreads] at hget
  rcases getElem?_insert_eq_some_iff.mp hget with ⟨rfl, rfl⟩ | ⟨-, hget⟩
  · exact .inl ⟨th, hth, h⟩
  · exact .inl ⟨th'', hget, .refl s th''⟩

/-- A thread that a legal transition moves was not gone for good. -/
theorem Inherits.of_allowed {target : ThreadLifecycle}
    (hlegal : th.lifecycle.allowed target = true)
    (hwait : ∀ w, th'.activeWait = some w → th.activeWait = some w)
    (hlease : ∀ l, th'.activeLease = some l →
      l.generation = s.nextLeaseGeneration ∨ th.activeLease = some l) : Inherits s th th' where
  wait w hw := .inr (hwait w hw)
  lease := hlease
  terminal h := by
    rw [h.not_allowed] at hlegal
    cases hlegal

theorem Descends.requeue {config : ScheduledThreadConfig} {priority : Int}
    (hth : s.threads[id]? = some th) : Descends s (s.requeue id th config priority) := by
  rw [SchedulerState.requeue]
  split
  · refine .of_insert hth rfl ?_
    exact ⟨fun _ hw ↦ .inr hw, fun _ hl ↦ .inr hl, fun h ↦ h⟩
  · refine .of_insert hth rfl ?_
    exact ⟨fun _ hw ↦ .inr hw, fun _ hl ↦ .inr hl, fun h ↦ h⟩

variable {d : SchedulerDecision}

theorem SelectStep.descends {v : VirtualCpuId} (hs : SelectStep s v d t) : Descends s t := by
  cases hs with
  | nothing => exact fun id th hget ↦ .inl ⟨th, hget, .refl s th⟩
  | grant _ _ hthread hlegal =>
    refine .of_insert hthread rfl (.of_allowed hlegal (fun _ hw ↦ hw) ?_)
    rintro l ⟨⟩
    exact .inl rfl

theorem FinishStep.descends {token : WakeToken} (hs : FinishStep s token t) : Descends s t := by
  obtain ⟨hthread, -, hlegal⟩ := hs
  refine .of_insert hthread rfl (.of_allowed hlegal ?_ fun _ hl ↦ .inr hl)
  exact nofun

variable {c : SchedulerCommand}

theorem Step.descends (hs : Step s c d t) : Descends s t := by
  cases hs with
  | register hnew =>
    intro id' th'' hget
    rcases getElem?_insert_eq_some_iff.mp hget with ⟨rfl, rfl⟩ | ⟨-, hget⟩
    · exact .inr ⟨rfl, rfl⟩
    · exact .inl ⟨th'', hget, .refl s th''⟩
  | unregister =>
    intro id' th'' hget
    exact .inl ⟨th'', (getElem?_erase_eq_some_iff.mp hget).2, .refl s th''⟩
  | makeReady hthread hlegal =>
    refine .of_insert hthread rfl (.of_allowed hlegal ?_ ?_)
    · exact fun _ hw ↦ hw
    · exact fun _ hl ↦ .inr hl
  | select hsel | selectNext _ _ _ hsel => exact hsel.descends
  | selectNextNone => exact fun id th hget ↦ .inl ⟨th, hget, .refl s th⟩
  | completeRequeue hthread _ _ _ hlegal | completeStop hthread _ _ _ hlegal =>
    refine .of_insert hthread rfl (.of_allowed hlegal ?_ ?_)
    · exact fun _ hw ↦ hw
    · exact nofun
  | @waitReady _ thread hthread hlife | @resume _ thread hthread _ hlife =>
    have hlegal : thread.lifecycle.allowed .ready = true := by rw [hlife]; rfl
    refine .of_insert hthread rfl (.of_allowed hlegal ?_ ?_)
    · exact fun _ hw ↦ hw
    · exact fun _ hl ↦ .inr hl
  | waitPending hthread hlife =>
    refine .of_insert hthread rfl ⟨?_, ?_, ?_⟩
    · rintro w ⟨⟩
      exact .inl rfl
    · exact fun _ hl ↦ .inr hl
    · exact fun h ↦ h
  | wake hfin | cancelWait hfin => exact hfin.descends
  | terminate hthread _ hlegal =>
    refine .of_insert hthread rfl (.of_allowed hlegal ?_ ?_)
    · exact nofun
    · exact fun _ hl ↦ .inr hl
  | migrate _ hthread =>
    refine .of_insert hthread rfl ⟨?_, ?_, ?_⟩
    · exact fun _ hw ↦ .inr hw
    · exact fun _ hl ↦ .inr hl
    · exact fun h ↦ h
  | setPriority _ hthread | setEffectivePriority _ hthread => exact .requeue hthread
  | @pause _ thread hthread _ hlife =>
    have hlegal : thread.lifecycle.allowed .suspended = true := by rw [hlife]; rfl
    refine .of_insert hthread rfl (.of_allowed hlegal ?_ ?_)
    · exact fun _ hw ↦ hw
    · exact fun _ hl ↦ .inr hl

/-- The counters never go back. -/
theorem Step.generations_le (hs : Step s c d t) :
    s.nextWakeGeneration ≤ t.nextWakeGeneration ∧
      s.nextLeaseGeneration ≤ t.nextLeaseGeneration := by
  cases hs with
  | setPriority | setEffectivePriority =>
    rw [SchedulerState.requeue]
    split <;> exact ⟨le_rfl, le_rfl⟩
  | select h | selectNext _ _ _ h =>
    cases h with
    | nothing => exact ⟨le_rfl, le_rfl⟩
    | grant => exact ⟨le_rfl, Nat.le_succ _⟩
  | wake h | cancelWait h => cases h; exact ⟨le_rfl, le_rfl⟩
  | waitPending => exact ⟨Nat.le_succ _, le_rfl⟩
  | _ => exact ⟨le_rfl, le_rfl⟩

end

/-! ## Dead tokens and leases -/

/-- The token has been drawn, and nobody can be woken by it. -/
structure TokenDead (w : WakeToken) (s : SchedulerState) : Prop where
  drawn : w.generation < s.nextWakeGeneration
  unusable : ∀ th, s.threads[w.thread]? = some th → th.activeWait = some w →
    th.lifecycle.Terminal

/-- The lease has been drawn, and nobody holds it. -/
structure LeaseDead (l : Lease) (s : SchedulerState) : Prop where
  drawn : l.generation < s.nextLeaseGeneration
  unheld : ∀ th, s.threads[l.thread]? = some th → th.activeLease ≠ some l

section

variable {s t : SchedulerState} {c : SchedulerCommand} {d : SchedulerDecision} {w : WakeToken}
  {l : Lease}

theorem TokenDead.step (h : TokenDead w s) (hs : Step s c d t) : TokenDead w t where
  drawn := h.drawn.trans_le hs.generations_le.1
  unusable th' hget hwait := by
    rcases hs.descends _ th' hget with ⟨th, hth, hinh⟩ | ⟨hnone, -⟩
    · rcases hinh.wait w hwait with hgen | hw
      · exact absurd hgen h.drawn.ne
      · exact hinh.terminal (h.unusable th hth hw)
    · rw [hnone] at hwait
      cases hwait

theorem LeaseDead.step (h : LeaseDead l s) (hs : Step s c d t) : LeaseDead l t where
  drawn := h.drawn.trans_le hs.generations_le.2
  unheld th' hget hlease := by
    rcases hs.descends _ th' hget with ⟨th, hth, hinh⟩ | ⟨-, hnone⟩
    · rcases hinh.lease l hlease with hgen | hl
      · exact absurd hgen h.drawn.ne
      · exact h.unheld th hth hl
    · rw [hnone] at hlease
      cases hlease

/-- Finishing a wait kills its token. -/
theorem FinishStep.tokenDead (hlinked : Linked s) (hs : FinishStep s w t) : TokenDead w t := by
  obtain ⟨hthread, hwait, -⟩ := hs
  refine ⟨((hlinked.thread _ _ hthread).wait w hwait).2, fun th hget hw ↦ ?_⟩
  rcases getElem?_insert_eq_some_iff.mp hget with ⟨-, rfl⟩ | ⟨hne, -⟩
  · cases hw
  · exact absurd rfl hne

theorem FinishStep.not_tokenDead (hs : FinishStep s w t) : ¬TokenDead w s := by
  obtain ⟨hthread, hwait, hlegal⟩ := hs
  intro h
  rw [(h.unusable _ hthread hwait).not_allowed] at hlegal
  cases hlegal

theorem Step.tokenDead_of_accepts (hlinked : Linked s) (hs : Step s c d t)
    (hc : c = .wake w ∨ c = .cancelWait w) : TokenDead w t := by
  rcases hc with rfl | rfl
  · cases hs with
    | wake h => exact h.tokenDead hlinked
  · cases hs with
    | cancelWait h => exact h.tokenDead hlinked

theorem Step.not_accepts_of_tokenDead (h : TokenDead w s) (hs : Step s c d t) :
    ¬(c = .wake w ∨ c = .cancelWait w) := by
  rintro (rfl | rfl)
  · cases hs with
    | wake hfin => exact hfin.not_tokenDead h
  · cases hs with
    | cancelWait hfin => exact hfin.not_tokenDead h

variable {outcome : Completion}

theorem Step.leaseDead_of_accepts (hlinked : Linked s) (hs : Step s (.complete l outcome) d t) :
    LeaseDead l t := by
  cases hs with
  | completeRequeue hthread hlease | completeStop hthread hlease =>
    refine ⟨((hlinked.thread _ _ hthread).lease l hlease).2.1, fun th hget ↦ ?_⟩
    rcases getElem?_insert_eq_some_iff.mp hget with ⟨-, rfl⟩ | ⟨hne, -⟩
    · exact nofun
    · exact absurd rfl hne

theorem Step.not_leaseDead_of_accepts (hs : Step s (.complete l outcome) d t) : ¬LeaseDead l s := by
  intro h
  cases hs with
  | completeRequeue hthread hlease | completeStop hthread hlease => exact h.unheld _ hthread hlease

/-- The end of a thread leaves it without a lease, and without a wait that could be finished. -/
theorem Step.of_endsThread {id : GuestThreadId} (hs : Step s c d t)
    (hc : (∃ faulted, c = .terminate id faulted) ∨ c = .unregister id ∨
      ∃ l outcome, c = .complete l outcome ∧ l.thread = id ∧
        (outcome = .exited ∨ outcome = .faulted)) :
    ∀ th, t.threads[id]? = some th → th.lifecycle.Terminal ∧ th.activeLease = none := by
  intro th hget
  rcases hc with ⟨faulted, rfl⟩ | rfl | ⟨l, outcome, rfl, rfl, houtcome⟩
  · cases hs with
    | terminate hthread hlease =>
      rcases getElem?_insert_eq_some_iff.mp hget with ⟨-, rfl⟩ | ⟨hne, -⟩
      · refine ⟨?_, hlease⟩
        cases faulted
        · exact .inl rfl
        · exact .inr rfl
      · exact absurd rfl hne
  · cases hs with
    | unregister => exact absurd rfl (getElem?_erase_eq_some_iff.mp hget).1
  · cases hs with
    | completeRequeue _ _ _ hreq => rcases houtcome with rfl | rfl <;> cases hreq
    | completeStop =>
      rcases getElem?_insert_eq_some_iff.mp hget with ⟨-, rfl⟩ | ⟨hne, -⟩
      · rcases houtcome with rfl | rfl
        · exact ⟨.inl rfl, rfl⟩
        · exact ⟨.inr rfl, rfl⟩
      · exact absurd rfl hne

theorem Step.drawn_of_returnsToken (hs : Step s c (.waitRegistered w) t) :
    w.generation < t.nextWakeGeneration := by
  cases hs with
  | select h | selectNext _ _ _ h => cases h
  | waitPending => exact Nat.lt_succ_self _

theorem SelectStep.drawn {v : VirtualCpuId} (hs : SelectStep s v (.selected (some l)) t) :
    l.generation < t.nextLeaseGeneration := by
  cases hs with
  | grant => exact Nat.lt_succ_self _

theorem Step.drawn_of_returnsLease (hs : Step s c (.selected (some l)) t) :
    l.generation < t.nextLeaseGeneration := by
  cases hs with
  | select h | selectNext _ _ _ h => exact h.drawn

end

/-! ## Whole runs -/

/-- What may be said of a token or a lease, over the whole of a run: it is accepted at most once,
and not at all after the end of the thread it names. -/
structure SingleUse (returns accepts ends : SchedulerEvent → Prop) (es : List SchedulerEvent) :
    Prop where
  at_most_once : es.Pairwise fun e f ↦ accepts e → ¬accepts f
  not_after_end : ∀ es₁ e es₂, es = es₁ ++ e :: es₂ → (∃ r ∈ es₁, returns r) → ends e →
    ∀ f ∈ es₂, ¬accepts f

/-- The rule behind single use: acceptance kills, death is for good, and what has been issued dies
with its thread. -/
theorem singleUse_of_dead {returns accepts ends : SchedulerEvent → Prop}
    (issued dead : SchedulerState → Prop) {s t : SchedulerState} {es : List SchedulerEvent}
    (hissued : ∀ s c d t, issued s → Step s c d t → issued t)
    (hreturns : ∀ s c d t, Step s c d t → returns (c, .ok d) → issued t)
    (hdead : ∀ s c d t, dead s → Step s c d t → dead t)
    (hkill : ∀ s c d t, Linked s → Step s c d t → accepts (c, .ok d) → dead t)
    (hends : ∀ s c d t, issued s → Step s c d t → ends (c, .ok d) → dead t)
    (hrefuse : ∀ s c d t, dead s → Step s c d t → ¬accepts (c, .ok d))
    (hok : ∀ c e, ¬returns (c, .error e) ∧ ¬accepts (c, .error e) ∧ ¬ends (c, .error e))
    (hlinked : Linked s) (hrun : Machine.Run scheduler s es t) :
    SingleUse returns accepts ends es := by
  have hI : ∀ s c r t, Linked s → scheduler s c = some (r, t) → Linked t :=
    fun s c r t h hs ↦ h.of_run (.cons hs (.nil t))
  have hD : ∀ s c r t, dead s → scheduler s c = some (r, t) → dead t := by
    intro s c r t h hs
    rcases scheduler_step hs with ⟨d, -, hd⟩ | ⟨e, -, rfl⟩
    · exact hdead s c d t h hd
    · exact h
  have hJ : ∀ s c r t, issued s → scheduler s c = some (r, t) → issued t := by
    intro s c r t h hs
    rcases scheduler_step hs with ⟨d, -, hd⟩ | ⟨e, -, rfl⟩
    · exact hissued s c d t h hd
    · exact h
  have hrefuse' : ∀ s c r t, dead s → scheduler s c = some (r, t) → ¬accepts (c, r) := by
    intro s c r t h hs
    rcases scheduler_step hs with ⟨d, rfl, hd⟩ | ⟨e, rfl, -⟩
    · exact hrefuse s c d t h hd
    · exact (hok c e).2.1
  refine ⟨hrun.pairwise hI (fun s c r t h hs ha ↦ ?_) hD hrefuse' hlinked, ?_⟩
  · rcases scheduler_step hs with ⟨d, rfl, hd⟩ | ⟨e, rfl, -⟩
    · exact hkill s c d t h hd ha
    · exact absurd ha (hok c e).2.1
  · rintro es₁ ⟨c, r⟩ es₂ rfl hret hend
    obtain ⟨u, hrun₁, hrun₂⟩ := Machine.Run.append_iff.mp hrun
    obtain ⟨v, hs, hrun₂⟩ := Machine.Run.cons_iff.mp hrun₂
    have hiss : issued u := by
      refine hrun₁.of_mem hI hJ (fun s c r t h hs hr ↦ ?_) hlinked hret
      rcases scheduler_step hs with ⟨d, rfl, hd⟩ | ⟨e, rfl, -⟩
      · exact hreturns s c d t hd hr
      · exact absurd hr (hok c e).1
    have hv : dead v := by
      rcases scheduler_step hs with ⟨d, rfl, hd⟩ | ⟨e, rfl, -⟩
      · exact hends u c d v hiss hd hend
      · exact absurd hend (hok c e).2.2
    exact hrun₂.forall_mem (G := fun f ↦ ¬accepts f) hD hrefuse' hv

/-- **Single use.** In every run without a panic, every wake token and every lease is accepted at
most once, and not after the thread it names has ended, even if the identity of the thread is
registered again. -/
theorem single_use {profile : MachineSchedulerProfile} {s : SchedulerState}
    {es : List SchedulerEvent}
    (h : Machine.Run scheduler (SchedulerState.new profile) es s) :
    (∀ w : WakeToken, SingleUse (·.ReturnsToken w) (·.AcceptsToken w)
      (·.EndsThread w.thread) es) ∧
    ∀ l : Lease, SingleUse (·.ReturnsLease l) (·.AcceptsLease l) (·.EndsThread l.thread) es := by
  constructor
  · intro w
    refine singleUse_of_dead (fun s ↦ w.generation < s.nextWakeGeneration) (TokenDead w)
      ?_ ?_ ?_ ?_ ?_ ?_ ?_ (linked_new profile) h
    · exact fun s c d t hlt hs ↦ hlt.trans_le hs.generations_le.1
    · rintro s c d t hs ⟨⟩
      exact hs.drawn_of_returnsToken
    · exact fun s c d t hd hs ↦ hd.step hs
    · exact fun s c d t hlinked hs ha ↦ hs.tokenDead_of_accepts hlinked ha.1
    · intro s c d t hlt hs hend
      refine ⟨hlt.trans_le hs.generations_le.1, fun th hget _ ↦ ?_⟩
      exact (hs.of_endsThread hend.1 th hget).1
    · exact fun s c d t hd hs ha ↦ hs.not_accepts_of_tokenDead hd ha.1
    · rintro c e
      refine ⟨nofun, ?_, ?_⟩ <;> rintro ⟨-, d, ⟨⟩⟩
  · intro l
    refine singleUse_of_dead (fun s ↦ l.generation < s.nextLeaseGeneration) (LeaseDead l)
      ?_ ?_ ?_ ?_ ?_ ?_ ?_ (linked_new profile) h
    · exact fun s c d t hlt hs ↦ hlt.trans_le hs.generations_le.2
    · rintro s c d t hs ⟨⟩
      exact hs.drawn_of_returnsLease
    · exact fun s c d t hd hs ↦ hd.step hs
    · rintro s c d t hlinked hs ⟨⟨outcome, rfl⟩, -⟩
      exact hs.leaseDead_of_accepts hlinked
    · intro s c d t hlt hs hend
      refine ⟨hlt.trans_le hs.generations_le.2, fun th hget hl ↦ ?_⟩
      rw [(hs.of_endsThread hend.1 th hget).2] at hl
      cases hl
    · rintro s c d t hd hs ⟨⟨outcome, rfl⟩, -⟩
      exact hs.not_leaseDead_of_accepts hd
    · rintro c e
      refine ⟨nofun, ?_, ?_⟩ <;> rintro ⟨-, d, ⟨⟩⟩

/-- A thread waits and is woken, ends, and comes back under its identity to wait again. -/
def secondLife : List SchedulerCommand :=
  [.register ⟨1, 7, 10, 10, none, uniprocessor.allCores⟩, .makeReady 7, .select 0,
    .complete ⟨1, 7, 0, 1⟩ .waiting, .registerWait 7 .pending, .wake ⟨7, 1⟩, .terminate 7 false,
    .unregister 7, .register ⟨1, 7, 10, 10, none, uniprocessor.allCores⟩, .makeReady 7,
    .select 0, .complete ⟨1, 7, 0, 2⟩ .waiting, .registerWait 7 .pending, .wake ⟨7, 1⟩]

/-- The second life: the token of the first wait is used once. -/
theorem single_use_secondLife :
    ∃ es s, Machine.Run scheduler (SchedulerState.new uniprocessor) es s ∧
      (∃ e ∈ es, SchedulerEvent.AcceptsToken ⟨7, 1⟩ e) ∧
      SingleUse (·.ReturnsToken ⟨7, 1⟩) (·.AcceptsToken ⟨7, 1⟩) (·.EndsThread 7) es := by
  have hrun : Machine.Run scheduler (SchedulerState.new uniprocessor) _ _ :=
    Machine.run_of_exec (show Machine.exec scheduler _ secondLife = _ from rfl)
  refine ⟨_, _, hrun, ⟨(.wake ⟨7, 1⟩, .ok (.woken 7)), ?_, .inl rfl, _, rfl⟩,
    (single_use hrun).1 ⟨7, 1⟩⟩
  iterate 5 apply List.mem_cons_of_mem
  exact List.mem_cons_self

end Nixe.Scheduler
