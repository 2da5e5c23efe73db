import Nixe.Horizon.LockStep
import Nixe.Horizon.WaitStep

/-!
# What the tables of the dispatcher keep

Between the attempts of a call that waits, the dispatcher keeps the deadline of the wait and, for
ReplyAndReceive, that the reply was sent. Here the steps of all the calls that wait, or that wake
threads waiting for mutexes and keys, are read for what they do to these tables: nothing to the
entries of other threads, and one of four things to those of the calling thread.
-/

namespace Nixe.Horizon

open Std Method Memory Nixe.Runtime Scheduler HorizonSvcDispatcher SvcState AddressWaitRegistry

/-! ## The tables of the dispatcher -/

namespace HorizonSvcDispatcher

variable (d : HorizonSvcDispatcher) (thread : GuestThreadId) (immediate : Nat) (timeout : Int)
  (key : WaitKey)

theorem getElem?_finishWait :
    (d.finishWait thread immediate).waitDeadlines[key]? =
      if key = ⟨thread, immediate⟩ then none else d.waitDeadlines[key]? := by
  rw [finishWait, ExtTreeMap.getElem?_erase]
  by_cases h : key = ⟨thread, immediate⟩
  · simp [h]
  · simp [h, Ne.symm h]

theorem getElem?_waitExpired :
    (d.waitExpired thread immediate timeout).2.waitDeadlines[key]? =
      if key = ⟨thread, immediate⟩ ∧ 0 < timeout then some (d.deadline thread immediate timeout)
      else d.waitDeadlines[key]? := by
  rw [waitExpired]
  rcases Int.lt_trichotomy timeout 0 with h | h | h
  · rw [if_neg h.ne, if_pos h, if_neg (fun hc ↦ (h.trans hc.2).false)]
  · rw [if_pos h, if_neg (fun hc ↦ hc.2.ne' h)]
  · rw [if_neg h.ne', if_neg h.not_gt, ExtTreeMap.getElem?_insert]
    by_cases hk : key = ⟨thread, immediate⟩
    · simp [hk, h]
    · simp [hk, Ne.symm hk]

/-- It does not matter that the deadline was recorded just before the wait ended. -/
theorem getElem?_finishWait_waitExpired :
    ((d.waitExpired thread immediate timeout).2.finishWait thread immediate).waitDeadlines[key]? =
      if key = ⟨thread, immediate⟩ then none else d.waitDeadlines[key]? := by
  rw [getElem?_finishWait, getElem?_waitExpired]
  by_cases h : key = ⟨thread, immediate⟩
  · rw [if_pos h, if_pos h]
  · rw [if_neg h, if_neg h, if_neg fun hc ↦ h hc.1]

end HorizonSvcDispatcher

/-! ## Calls -/

/-- The calls that wait, and those that wake the threads waiting for mutexes and keys. -/
inductive WaitSvc where
  | lock (svc : LockSvc)
  | waitSynchronization
  | replyAndReceive (userBuffer : Bool)
deriving DecidableEq, Repr

namespace WaitSvc

def handle {μ : Type} [MessageMemory μ] : WaitSvc → SvcM μ ExceptionDispatchOutcome
  | lock svc => svc.handle
  | waitSynchronization => Horizon.waitSynchronization
  | replyAndReceive userBuffer => Horizon.replyAndReceive userBuffer

def immediate : WaitSvc → Nat
  | lock .arbitrateLock => 0x1a
  | lock .arbitrateUnlock => 0x1b
  | lock .waitProcessWideKeyAtomic => waitKeyImmediate
  | lock .signalProcessWideKey => 0x1d
  | waitSynchronization => waitSynchronizationImmediate
  | replyAndReceive userBuffer => if userBuffer then 0x44 else 0x43

/-- The timeout among the arguments of a call, if it has one. -/
def timeout (svc : WaitSvc) (registers : Registers) : Option Int :=
  match svc with
  | lock .waitProcessWideKeyAtomic => some (toI64 (registers 3))
  | lock _ => none
  | waitSynchronization => some (toI64 (registers 3))
  | replyAndReceive userBuffer => some (toI64 (registers (if userBuffer then 6 else 4)))

/-- The reply target among the arguments of a call; zero is none. -/
def replyTarget (svc : WaitSvc) (registers : Registers) : Nat :=
  match svc with
  | replyAndReceive userBuffer => toU32 (registers (if userBuffer then 5 else 3))
  | _ => 0

end WaitSvc

section

variable {μ : Type} [MessageMemory μ] {s t : SvcState μ} {outcome : ExceptionDispatchOutcome}

/-- The attempt ends before it looks at the tables. -/
def WaitSvc.EndsEarly (svc : WaitSvc) (s : SvcState μ) : Prop :=
  match svc with
  | lock .waitProcessWideKeyAtomic =>
    ¬4 ∣ s.register 0 ∨ s.addressWaits.contains (keyAddress (s.registers 1)) s.thread = false
  | lock _ => True
  | waitSynchronization => s.WaitSyncEarly
  | replyAndReceive userBuffer =>
    s.ReplyEarly userBuffer ∨ ReplyRefused (s.replyArguments userBuffer) s

/-- An attempt keeps what the tables say of other threads. -/
structure KeepsOthers (s t : SvcState μ) : Prop where
  deadlines : ∀ key : WaitKey, key.thread ≠ s.thread →
    t.dispatcher.waitDeadlines[key]? = s.dispatcher.waitDeadlines[key]?
  replySent : ∀ thread, thread ≠ s.thread →
    (thread ∈ t.dispatcher.replySent ↔ thread ∈ s.dispatcher.replySent)
  queued : ∀ address thread, thread ≠ s.thread →
    t.addressWaits.contains address thread = s.addressWaits.contains address thread

/-- What an attempt of `svc` does to the entries of its own thread. -/
inductive OwnStep (svc : WaitSvc) (s : SvcState μ) :
    ExceptionDispatchOutcome → SvcState μ → Prop where
  | untouched {outcome : ExceptionDispatchOutcome} {t : SvcState μ} (hearly : svc.EndsEarly s)
      (hfinal : outcome ≠ .suspend .retry)
      (hdeadlines : t.dispatcher.waitDeadlines = s.dispatcher.waitDeadlines)
      (hsent : t.dispatcher.replySent = s.dispatcher.replySent)
      (hreplies : t.replies = s.replies) : OwnStep svc s outcome t
  | ended {outcome : ExceptionDispatchOutcome} {t : SvcState μ} (hlate : ¬svc.EndsEarly s)
      (hfinal : outcome ≠ .suspend .retry)
      (hdeadlines : ∀ immediate, t.dispatcher.waitDeadlines[WaitKey.mk s.thread immediate]? =
        if immediate = svc.immediate then none
        else s.dispatcher.waitDeadlines[WaitKey.mk s.thread immediate]?)
      (hsent : s.thread ∈ t.dispatcher.replySent →
        s.thread ∈ s.dispatcher.replySent ∧ ∀ userBuffer, svc ≠ .replyAndReceive userBuffer)
      (hreplies : t.replies.length = s.replies.length +
        if svc.replyTarget s.registers ≠ 0 ∧ s.thread ∉ s.dispatcher.replySent then 1 else 0) :
      OwnStep svc s outcome t
  | waits {t : SvcState μ} {timeout : Int} (htimeout : svc.timeout s.registers = some timeout)
      (hlate : svc.EndsEarly s → svc = .lock .waitProcessWideKeyAtomic)
      (hdeadlines : ∀ immediate, t.dispatcher.waitDeadlines[WaitKey.mk s.thread immediate]? =
        if immediate = svc.immediate ∧ 0 < timeout then
          some (s.dispatcher.deadline s.thread svc.immediate timeout)
        else s.dispatcher.waitDeadlines[WaitKey.mk s.thread immediate]?)
      (hsent : s.thread ∈ t.dispatcher.replySent ↔
        svc.replyTarget s.registers ≠ 0 ∨
          s.thread ∈ s.dispatcher.replySent ∧ ∀ userBuffer, svc ≠ .replyAndReceive userBuffer)
      (hreplies : t.replies.length = s.replies.length +
        if svc.replyTarget s.registers ≠ 0 ∧ s.thread ∉ s.dispatcher.replySent then 1 else 0)
      (hqueued : svc = .lock .waitProcessWideKeyAtomic →
        4 ∣ s.register 0 ∧ t.addressWaits.contains (keyAddress (s.registers 1)) s.thread = true) :
      OwnStep svc s (.suspend .retry) t
  | queues {t : SvcState μ} (htimeout : svc.timeout s.registers = none)
      (hdeadlines : t.dispatcher.waitDeadlines = s.dispatcher.waitDeadlines)
      (hsent : t.dispatcher.replySent = s.dispatcher.replySent)
      (hreplies : t.replies = s.replies) : OwnStep svc s (.suspend .retry) t

/-! ## Calls on mutexes and keys -/

/-- Taking a mutex does not concern the tables. -/
theorem TakeStep.tables {address tag : Nat} (h : TakeStep s address tag t) :
    t.dispatcher = s.dispatcher ∧ t.replies = s.replies ∧
      ∀ a thread, t.addressWaits.contains a thread = s.addressWaits.contains a thread := by
  cases h <;> exact ⟨rfl, rfl, fun _ _ ↦ rfl⟩

omit [MessageMemory μ] in
/-- An attempt that changes at most the deadlines of its own thread. -/
theorem KeepsOthers.of_entries {c : WaitKey → Prop} [DecidablePred c] {entry : Option Nat}
    (hc : ∀ key, c key → key.thread = s.thread)
    (hdeadlines : ∀ key, t.dispatcher.waitDeadlines[key]? =
      if c key then entry else s.dispatcher.waitDeadlines[key]?)
    (hsent : ∀ thread, thread ≠ s.thread →
      (thread ∈ t.dispatcher.replySent ↔ thread ∈ s.dispatcher.replySent))
    (hqueued : ∀ address thread, thread ≠ s.thread →
      t.addressWaits.contains address thread = s.addressWaits.contains address thread) :
    KeepsOthers s t :=
  ⟨fun key hne ↦ by rw [hdeadlines, if_neg fun h ↦ hne (hc key h)], hsent, hqueued⟩

omit [MessageMemory μ] in
/-- The tables after an attempt that concerns at most the queues of its own thread. -/
theorem KeepsOthers.of_tables (hdeadlines : t.dispatcher.waitDeadlines = s.dispatcher.waitDeadlines)
    (hsent : t.dispatcher.replySent = s.dispatcher.replySent)
    (hqueued : ∀ address thread, thread ≠ s.thread →
      t.addressWaits.contains address thread = s.addressWaits.contains address thread) :
    KeepsOthers s t where
  deadlines key _ := by rw [hdeadlines]
  replySent thread _ := by rw [hsent]
  queued := hqueued

variable {svc : WaitSvc} {userBuffer : Bool}

theorem effect_of_untouched (hearly : svc.EndsEarly s) (hfinal : outcome ≠ .suspend .retry)
    (hdeadlines : t.dispatcher.waitDeadlines = s.dispatcher.waitDeadlines)
    (hsent : t.dispatcher.replySent = s.dispatcher.replySent) (hreplies : t.replies = s.replies)
    (hqueued : ∀ address thread, thread ≠ s.thread →
      t.addressWaits.contains address thread = s.addressWaits.contains address thread) :
    KeepsOthers s t ∧ OwnStep svc s outcome t :=
  ⟨.of_tables hdeadlines hsent hqueued, .untouched hearly hfinal hdeadlines hsent hreplies⟩

theorem effect_of_quiet (hearly : svc.EndsEarly s) (hfinal : outcome ≠ .suspend .retry)
    (h : Quiet s t) : KeepsOthers s t ∧ OwnStep svc s outcome t :=
  effect_of_untouched hearly hfinal (by rw [h.tables]) (by rw [h.tables]) h.replies
    fun _ _ _ ↦ by rw [h.addressWaits]

theorem ArbitrateLockStep.effect (h : ArbitrateLockStep s outcome t) :
    KeepsOthers s t ∧ OwnStep (.lock .arbitrateLock) s outcome t := by
  cases h with
  | misaligned => exact effect_of_untouched trivial nofun rfl rfl rfl fun _ _ _ ↦ rfl
  | signalled _ _ htake =>
    obtain ⟨htables, hreplies, hqueued⟩ := htake.tables
    refine effect_of_untouched trivial nofun (by rw [htables]; rfl) (by rw [htables]; rfl) hreplies
      fun a thread hne ↦ ?_
    rw [hqueued]
    exact contains_remove_of_ne _ _ _ _ _ hne
  | unsignalled _ _ htry =>
    cases htry with
    | unreadable | noOwner | blocked =>
      exact effect_of_untouched trivial nofun rfl rfl rfl fun _ _ _ ↦ rfl
    | free _ htake =>
      obtain ⟨htables, hreplies, hqueued⟩ := htake.tables
      exact effect_of_untouched trivial nofun (by rw [htables]) (by rw [htables]) hreplies
        fun a thread _ ↦ hqueued a thread
    | waiting => exact ⟨.of_tables rfl rfl fun _ _ _ ↦ rfl, .queues rfl rfl rfl rfl⟩
    | queued =>
      refine ⟨.of_tables rfl rfl fun a thread hne ↦ ?_, .queues rfl rfl rfl rfl⟩
      refine (contains_enqueue ..).trans ?_
      have hne' : (s.thread == thread) = false := beq_eq_false_iff_ne.mpr hne.symm
      simp only [staged, mapDispatcher, hne', Bool.and_false, Bool.or_false]

theorem ArbitrateUnlockStep.effect (h : ArbitrateUnlockStep s outcome t) :
    KeepsOthers s t ∧ OwnStep (.lock .arbitrateUnlock) s outcome t := by
  cases h with
  | misaligned | refused =>
    exact effect_of_untouched trivial nofun rfl rfl rfl fun _ _ _ ↦ rfl
  | blocked =>
    exact effect_of_untouched trivial nofun (by simp) (by simp) (by simp) (by simp)
  | @released memory _ =>
    refine effect_of_untouched trivial nofun
      (waitDeadlines_ownerReleased { s with memory := memory } (s.register 0))
      (replySent_ownerReleased ..) (replies_ownerReleased ..) fun a thread _ ↦ ?_
    exact (contains_signalOne ..).trans (contains_ownerReleased ..)

theorem SignalKeyStep.effect (h : SignalKeyStep s outcome t) :
    KeepsOthers s t ∧ OwnStep (.lock .signalProcessWideKey) s outcome t := by
  cases h with
  | refused hfinal =>
    exact effect_of_untouched trivial hfinal rfl rfl rfl fun a thread _ ↦ contains_signal ..
  | cleared =>
    exact effect_of_untouched trivial nofun rfl rfl rfl fun a thread _ ↦ contains_signal ..

omit [MessageMemory μ] in
theorem SvcState.contains_keyQueued (s : SvcState μ) (key tag : Nat) (timeout : Int) (a : Nat)
    (thread : GuestThreadId) :
    (s.keyQueued key tag timeout).addressWaits.contains a thread =
      (s.addressWaits.contains a thread || (decide (a = key) && s.thread == thread)) :=
  contains_enqueue ..

theorem BeginKeyWaitStep.effect (halign : 4 ∣ s.register 0)
    (hcontains : s.addressWaits.contains (keyAddress (s.registers 1)) s.thread = false)
    (h : BeginKeyWaitStep s (s.register 0) (keyAddress (s.registers 1)) (s.register32 2)
      (s.registerSigned 3) outcome t) :
    KeepsOthers s t ∧ OwnStep (.lock .waitProcessWideKeyAtomic) s outcome t := by
  cases h with
  | unreadable | restored =>
    exact effect_of_untouched (.inr hcontains) nofun rfl rfl rfl fun _ _ _ ↦ rfl
  | blocked =>
    exact effect_of_untouched (.inr hcontains) nofun (by simp) (by simp) (by simp) (by simp)
  | @timedOut memory =>
    refine effect_of_untouched (.inr hcontains) nofun
      (waitDeadlines_ownerReleased { s with memory := memory } (s.register 0))
      (replySent_ownerReleased ..) (replies_ownerReleased ..) fun a thread _ ↦ ?_
    exact (contains_signalOne ..).trans (contains_ownerReleased ..)
  | @queued memory =>
    -- the state in which the mutex has been released
    generalize hr : ({ s with memory := memory }.ownerReleased (s.register 0)).mapWaits
      (·.signalOne (s.register 0)) = r
    have hthread : r.thread = s.thread := by subst hr; exact thread_ownerReleased ..
    have hdeadlines : r.dispatcher.waitDeadlines = s.dispatcher.waitDeadlines := by
      subst hr; exact waitDeadlines_ownerReleased ..
    have htime : r.dispatcher.virtualTime = s.dispatcher.virtualTime := by
      subst hr; exact virtualTime_ownerReleased ..
    have hsent : r.dispatcher.replySent = s.dispatcher.replySent := by
      subst hr; exact replySent_ownerReleased ..
    have hreplies : r.replies = s.replies := by subst hr; exact replies_ownerReleased ..
    have hqueued (a : Nat) (thread : GuestThreadId) :
        r.addressWaits.contains a thread = s.addressWaits.contains a thread := by
      subst hr
      exact (contains_signalOne ..).trans (contains_ownerReleased ..)
    have hsent' : (r.keyQueued (keyAddress (s.registers 1)) (s.register32 2)
        (s.registerSigned 3)).dispatcher.replySent = s.dispatcher.replySent :=
      (replySent_waitExpired ..).trans hsent
    have hentry (k : WaitKey) : (r.keyQueued (keyAddress (s.registers 1)) (s.register32 2)
        (s.registerSigned 3)).dispatcher.waitDeadlines[k]? = _ := getElem?_waitExpired ..
    simp only [hthread, hdeadlines, htime, deadline] at hentry
    refine ⟨.of_entries (fun key h ↦ by rw [h.1]) hentry (by simp [hsent']) ?_,
      .waits rfl (fun _ ↦ rfl) (fun i ↦ ?_) ?_ (congrArg List.length hreplies) ?_⟩
    · intro a thread hne
      have hne' : (s.thread == thread) = false := beq_eq_false_iff_ne.mpr hne.symm
      rw [contains_keyQueued, hqueued, hthread, hne', Bool.and_false, Bool.or_false]
    · simp only [hentry, WaitKey.mk.injEq, true_and]
      rfl
    · rw [hsent']
      simp [WaitSvc.replyTarget]
    · intro _
      refine ⟨halign, ?_⟩
      rw [contains_keyQueued, hthread]
      simp

/-- The endings of WaitProcessWideKeyAtomic that end its wait. -/
theorem waitKey_ended (halign : 4 ∣ s.register 0)
    (hcontains : s.addressWaits.contains (keyAddress (s.registers 1)) s.thread = true)
    (hfinal : outcome ≠ .suspend .retry)
    (hdeadlines : ∀ key : WaitKey, t.dispatcher.waitDeadlines[key]? =
      if key = ⟨s.thread, waitKeyImmediate⟩ then none else s.dispatcher.waitDeadlines[key]?)
    (hsent : t.dispatcher.replySent = s.dispatcher.replySent)
    (hqueued : ∀ address thread, t.addressWaits.contains address thread =
      (s.addressWaits.remove (keyAddress (s.registers 1)) s.thread).contains address thread)
    (hreplies : t.replies = s.replies) :
    KeepsOthers s t ∧ OwnStep (.lock .waitProcessWideKeyAtomic) s outcome t := by
  refine ⟨.of_entries (fun key h ↦ by rw [h]) hdeadlines (by simp [hsent]) ?_,
    .ended ?_ hfinal (fun i ↦ ?_) (fun hmem ↦ ⟨hsent ▸ hmem, nofun⟩)
      (congrArg List.length hreplies)⟩
  · intro a thread hne
    rw [hqueued]
    exact contains_remove_of_ne _ _ _ _ _ hne
  · simp [WaitSvc.EndsEarly, halign, hcontains]
  · simp only [hdeadlines, WaitKey.mk.injEq, true_and]
    rfl

theorem WaitKeyStep.effect (h : WaitKeyStep s outcome t) :
    KeepsOthers s t ∧ OwnStep (.lock .waitProcessWideKeyAtomic) s outcome t := by
  cases h with
  | misaligned halign =>
    exact effect_of_untouched (.inl halign) nofun rfl rfl rfl fun _ _ _ ↦ rfl
  | signalled halign hsignalled htake =>
    obtain ⟨htables, hreplies, hqueued⟩ := htake.tables
    refine waitKey_ended halign (contains_of_isSignalled hsignalled) nofun
      (fun key ↦ ?_) ?_ hqueued hreplies
    · rw [htables]
      exact getElem?_finishWait ..
    · rw [htables]
      rfl
  | expired halign _ hcontains =>
    exact waitKey_ended halign hcontains nofun
      (fun key ↦ getElem?_finishWait_waitExpired ..)
      (replySent_waitExpired ..) (fun _ _ ↦ rfl) rfl
  | waiting halign _ hcontains =>
    have hsent : (s.mapDispatcher fun d ↦
        (d.waitExpired s.thread waitKeyImmediate (s.registerSigned 3)).2).dispatcher.replySent =
        s.dispatcher.replySent := replySent_waitExpired ..
    have hentry := s.dispatcher.getElem?_waitExpired s.thread waitKeyImmediate (s.registerSigned 3)
    refine ⟨.of_entries (fun key h ↦ by rw [h.1]) hentry (fun _ _ ↦ by rw [hsent])
        fun _ _ _ ↦ rfl,
      .waits rfl (fun _ ↦ rfl) (fun i ↦ (hentry _).trans ?_) ?_ rfl fun _ ↦ ⟨halign, hcontains⟩⟩
    · simp only [WaitKey.mk.injEq, true_and]
      rfl
    · rw [hsent]
      simp [WaitSvc.replyTarget]
  | first halign _ hcontains hbegin => exact hbegin.effect halign hcontains

/-! ## WaitSynchronization -/

theorem WaitSyncStep.effect (h : WaitSyncStep s outcome t) :
    KeepsOthers s t ∧ OwnStep .waitSynchronization s outcome t := by
  have hended (hlate : ¬s.WaitSyncEarly) (hframe : Frame s t)
      (hdeadlines : ∀ key : WaitKey, t.dispatcher.waitDeadlines[key]? =
        if key = ⟨s.thread, waitSynchronizationImmediate⟩ then none
        else s.dispatcher.waitDeadlines[key]?)
      (hsent : t.dispatcher.replySent = s.dispatcher.replySent) :
      KeepsOthers s t ∧ OwnStep .waitSynchronization s (.resume .next) t := by
    refine ⟨.of_entries (fun key h ↦ by rw [h]) hdeadlines (fun _ _ ↦ by rw [hsent])
        fun _ _ _ ↦ by rw [hframe.addressWaits],
      .ended hlate nofun (fun i ↦ ?_) (fun hmem ↦ ⟨hsent ▸ hmem, nofun⟩)
        (congrArg List.length hframe.replies)⟩
    simp only [hdeadlines, WaitKey.mk.injEq, true_and]
    rfl
  cases h with
  | early hearly hquiet =>
    exact effect_of_quiet hearly nofun hquiet
  | signalled hlate hframe htables =>
    refine hended hlate hframe (fun key ↦ ?_) (by rw [htables]; rfl)
    rw [htables, getElem?_finishWait]
  | expired hlate hframe htables =>
    refine hended hlate hframe (fun key ↦ ?_) ?_
    · rw [htables, getElem?_finishWait_waitExpired]
    · rw [htables]
      exact replySent_waitExpired ..
  | waiting hlate hframe htables =>
    have hsent : t.dispatcher.replySent = s.dispatcher.replySent := by
      rw [htables]
      exact replySent_waitExpired ..
    have hentry (key : WaitKey) := (congrArg (·.waitDeadlines[key]?) htables).trans
      (getElem?_waitExpired ..)
    refine ⟨.of_entries (fun key h ↦ by rw [h.1]) hentry (fun _ _ ↦ by rw [hsent])
        fun _ _ _ ↦ by rw [hframe.addressWaits],
      .waits rfl (fun h ↦ absurd h hlate) (fun i ↦ (hentry _).trans ?_) ?_
        (congrArg List.length hframe.replies) nofun⟩
    · simp only [WaitKey.mk.injEq, true_and]
      rfl
    · rw [hsent]
      simp [WaitSvc.replyTarget]

/-! ## ReplyAndReceive -/

/-- What the reply of a call leaves to its wait. -/
structure ReplyPhaseEffect (svc : WaitSvc) (s r : SvcState μ) : Prop where
  thread : r.thread = s.thread
  addressWaits : r.addressWaits = s.addressWaits
  deadlines : r.dispatcher.waitDeadlines = s.dispatcher.waitDeadlines
  virtualTime : r.dispatcher.virtualTime = s.dispatcher.virtualTime
  others : ∀ thread, thread ≠ s.thread →
    (thread ∈ r.dispatcher.replySent ↔ thread ∈ s.dispatcher.replySent)
  sent : s.thread ∈ r.dispatcher.replySent ↔ svc.replyTarget s.registers ≠ 0
  replies : r.replies.length = s.replies.length +
    if svc.replyTarget s.registers ≠ 0 ∧ s.thread ∉ s.dispatcher.replySent then 1 else 0

omit [MessageMemory μ] in
@[simp] theorem SvcState.replyTarget_replyArguments (s : SvcState μ) (userBuffer : Bool) :
    (s.replyArguments userBuffer).replyTarget =
      WaitSvc.replyTarget (.replyAndReceive userBuffer) s.registers := by
  cases userBuffer <;> rfl

omit [MessageMemory μ] in
@[simp] theorem SvcState.immediate_replyArguments (s : SvcState μ) (userBuffer : Bool) :
    (s.replyArguments userBuffer).immediate =
      WaitSvc.immediate (.replyAndReceive userBuffer) := by
  cases userBuffer <;> rfl

theorem ReplyPhase.effect {r : SvcState μ} (h : ReplyPhase (s.replyArguments userBuffer) s r) :
    ReplyPhaseEffect (.replyAndReceive userBuffer) s r := by
  rcases h with htarget | ⟨htarget, hsent⟩ | ⟨htarget, hsent, -, hdelivered⟩
  · rw [replyTarget_replyArguments] at htarget
    refine ⟨rfl, rfl, rfl, rfl, fun thread hne ↦ ?_, ?_, by simp [htarget, mapDispatcher]⟩
    · exact mem_erase_iff.trans (and_iff_right hne)
    · exact mem_erase_iff.trans (by simp [htarget])
  · rw [replyTarget_replyArguments] at htarget
    exact ⟨rfl, rfl, rfl, rfl, fun _ _ ↦ Iff.rfl, by simp [htarget, hsent], by simp [hsent]⟩
  · rw [replyTarget_replyArguments] at htarget
    obtain ⟨hthread, hqueues, ⟨id, hreplies⟩, htables⟩ := hdelivered
    refine ⟨hthread, hqueues, by rw [htables], by rw [htables], fun thread hne ↦ ?_, ?_, ?_⟩
    · rw [htables]
      exact mem_insert_iff.trans (by simp [hne])
    · rw [htables]
      exact mem_insert_iff.trans (by simp [htarget])
    · simp [hreplies, htarget, hsent]

/-- An attempt that finishes its wait after the reply. -/
theorem ReplyFinished.effect {r₀ r : SvcState μ}
    (h : ReplyFinished (s.replyArguments userBuffer) r outcome t)
    (hlate : ¬WaitSvc.EndsEarly (.replyAndReceive userBuffer) s)
    (hreply : ReplyPhaseEffect (.replyAndReceive userBuffer) s r₀) (hframe : Frame r₀ r)
    (hdeadlines : ∀ key : WaitKey,
      key ≠ ⟨s.thread, WaitSvc.immediate (.replyAndReceive userBuffer)⟩ →
        r.dispatcher.waitDeadlines[key]? = r₀.dispatcher.waitDeadlines[key]?)
    (hsent : r.dispatcher.replySent = r₀.dispatcher.replySent) :
    KeepsOthers s t ∧ OwnStep (.replyAndReceive userBuffer) s outcome t := by
  obtain ⟨hfinal, hframe', htables⟩ := h
  have hthread : r.thread = s.thread := hframe.thread.trans hreply.thread
  have hmem (thread : GuestThreadId) : thread ∈ t.dispatcher.replySent ↔
      thread ≠ s.thread ∧ thread ∈ r₀.dispatcher.replySent := by
    rw [htables, ← hthread, ← hsent]
    exact mem_erase_iff
  have hentry (key : WaitKey) : t.dispatcher.waitDeadlines[key]? =
      if key = ⟨s.thread, WaitSvc.immediate (.replyAndReceive userBuffer)⟩ then none
      else s.dispatcher.waitDeadlines[key]? := by
    rw [htables, hthread, immediate_replyArguments]
    refine (getElem?_finishWait ..).trans (ite_congr rfl (fun _ ↦ rfl) fun hkey ↦ ?_)
    exact (hdeadlines key hkey).trans (by rw [hreply.deadlines])
  refine ⟨.of_entries (fun key h ↦ by rw [h]) hentry (fun thread hne ↦ ?_) fun _ _ _ ↦ ?_,
    .ended hlate hfinal (fun i ↦ ?_) (fun hmem' ↦ absurd rfl ((hmem _).mp hmem').1) ?_⟩
  · rw [hmem, hreply.others thread hne]
    exact and_iff_right hne
  · rw [hframe'.addressWaits, hframe.addressWaits, hreply.addressWaits]
  · simp only [hentry, WaitKey.mk.injEq, true_and]
  · rw [hframe'.replies, hframe.replies, hreply.replies]

theorem ReplyStep.effect (h : ReplyStep s userBuffer outcome t) :
    KeepsOthers s t ∧ OwnStep (.replyAndReceive userBuffer) s outcome t := by
  -- a reply that was sent or need not be sent was not refused
  have hlate {r : SvcState μ} (hearly : ¬s.ReplyEarly userBuffer)
      (hreply : ReplyPhase (s.replyArguments userBuffer) s r) :
      ¬WaitSvc.EndsEarly (.replyAndReceive userBuffer) s := by
    rintro (h | h)
    · exact hearly h
    · rcases hreply with htarget | ⟨-, hsent⟩ | ⟨-, -, hdeliverable, -⟩
      · exact h.target htarget
      · exact h.unsent hsent
      · exact h.undeliverable hdeliverable
  cases h with
  | early hearly hfinal hquiet => exact effect_of_quiet (.inl hearly) hfinal hquiet
  | refused _ hrefused hfinal hquiet => exact effect_of_quiet (.inr hrefused) hfinal hquiet
  | served hearly hreply hfinished =>
    exact hfinished.effect (hlate hearly hreply) hreply.effect ⟨rfl, rfl, rfl⟩ (fun _ _ ↦ rfl) rfl
  | @expired _ r _ hearly hreply hfinished =>
    refine hfinished.effect (hlate hearly hreply) hreply.effect ⟨rfl, rfl, rfl⟩ (fun key hne ↦ ?_)
      (replySent_waitExpired ..)
    rw [hreply.effect.thread]
    refine (getElem?_waitExpired ..).trans (if_neg fun h ↦ hne ?_)
    rw [h.1, immediate_replyArguments]
  | waiting hearly hreply hwaiting =>
    have heffect := hreply.effect
    have hentry (key : WaitKey) := (congrArg (·[key]?) hwaiting.waitDeadlines).trans
      (getElem?_waitExpired ..)
    simp only [heffect.thread, immediate_replyArguments, deadline, heffect.deadlines,
      heffect.virtualTime] at hentry
    refine ⟨.of_entries (fun key h ↦ by rw [h.1]) hentry (fun thread hne ↦ ?_) fun _ _ _ ↦ ?_,
      .waits (show _ = some (s.replyArguments userBuffer).timeout by cases userBuffer <;> rfl)
        (fun h ↦ absurd h (hlate hearly hreply)) (fun i ↦ ?_) ?_ ?_ nofun⟩
    · rw [hwaiting.replySent, heffect.others thread hne]
    · rw [hwaiting.addressWaits, heffect.addressWaits]
    · simp only [hentry, WaitKey.mk.injEq, true_and, deadline]
    · rw [hwaiting.replySent, heffect.sent]
      simp
    · rw [hwaiting.replies, heffect.replies]

/-! ## Any call -/

/-- What an attempt of any of the calls does to the tables. -/
theorem WaitSvc.handle_spec (svc : WaitSvc) (s : SvcState μ) :
    wp svc.handle ⟨fun outcome t ↦ KeepsOthers s t ∧ OwnStep svc s outcome t,
      fun outcome t ↦ KeepsOthers s t ∧ OwnStep svc s outcome t, True⟩ s := by
  cases svc with
  | lock svc =>
    have heffect {outcome : ExceptionDispatchOutcome} {t : SvcState μ}
        (h : svc.Step s outcome t) : KeepsOthers s t ∧ OwnStep (.lock svc) s outcome t := by
      cases svc with
      | arbitrateLock => exact ArbitrateLockStep.effect h
      | arbitrateUnlock => exact ArbitrateUnlockStep.effect h
      | waitProcessWideKeyAtomic => exact WaitKeyStep.effect h
      | signalProcessWideKey => exact SignalKeyStep.effect h
    exact wp_of_wp (svc.handle_spec s) (fun _ _ ↦ heffect) (fun _ _ ↦ heffect)
  | waitSynchronization =>
    exact wp_of_wp (waitSynchronization_spec s) (fun _ _ ↦ WaitSyncStep.effect)
      (fun _ _ ↦ WaitSyncStep.effect)
  | replyAndReceive userBuffer =>
    exact wp_of_wp (replyAndReceive_spec s userBuffer) (fun _ _ ↦ ReplyStep.effect)
      (fun _ _ ↦ ReplyStep.effect)

/-- Routing the outcome does not concern the tables. -/
theorem OwnStep.routed (h : OwnStep svc s outcome t) :
    OwnStep svc s outcome (t.mapDispatcher (·.routed t.thread outcome)) := by
  cases h with
  | untouched hearly hfinal hdeadlines hsent hreplies =>
    exact .untouched hearly hfinal hdeadlines hsent hreplies
  | ended hlate hfinal hdeadlines hsent hreplies =>
    exact .ended hlate hfinal hdeadlines hsent hreplies
  | waits htimeout hlate hdeadlines hsent hreplies hqueued =>
    exact .waits htimeout hlate hdeadlines hsent hreplies hqueued
  | queues htimeout hdeadlines hsent hreplies => exact .queues htimeout hdeadlines hsent hreplies

end

end Nixe.Horizon
