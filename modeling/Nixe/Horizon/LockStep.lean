import Nixe.Horizon.Lock

/-!
# What one attempt of a lock call does

For each of the four calls the ways in which one attempt can end, with the guards that lead there
and the state that it leaves. Everything said later about mutexes and about the retry of calls is
proved from these lists.
-/

namespace Nixe.Horizon

open Std Method Memory Nixe.Runtime Scheduler GuestMemory SvcState

variable {μ : Type} [GuestMemory μ]

/-- The conditions under which a handler ends with an outcome that `Q` allows. -/
abbrev Ends (m : SvcM μ ExceptionDispatchOutcome)
    (Q : ExceptionDispatchOutcome → SvcState μ → Prop) (s : SvcState μ) : Prop :=
  wp m ⟨Q, Q, False⟩ s

/-! ## Shared statements -/

/-- The two endings of `takeMutex`. -/
inductive TakeStep (s : SvcState μ) (mutexAddress tag : Nat) : SvcState μ → Prop where
  | taken {memory : μ}
      (hwrite : writeWord s.memory .tag mutexAddress tag = .ok memory) :
      TakeStep s mutexAddress tag
        (({ s with memory := memory }.mapWaits (·.setOwner mutexAddress s.thread)).withResult
          .success)
  | refused {fault : DataAccessFault}
      (hwrite : writeWord s.memory .tag mutexAddress tag = .error fault) :
      TakeStep s mutexAddress tag (s.withResult .invalidCurrentMemory)

theorem takeMutex_spec (s : SvcState μ) (mutexAddress tag : Nat) :
    Ends (takeMutex mutexAddress tag)
      (fun outcome t ↦ outcome = .resume .next ∧ TakeStep s mutexAddress tag t) s := by
  simp only [takeMutex, wp_rules, wp_writeProcessWideKeyWord, wp_finish]
  exact ⟨fun memory h ↦ ⟨trivial, .taken h⟩, fun fault h ↦ ⟨trivial, .refused h⟩⟩

/-- The owner of the mutex at `address` is forgotten, and its priority is to be restored. -/
def SvcState.ownerReleased (s : SvcState μ) (address : Nat) : SvcState μ :=
  match s.addressWaits.owners[address]? with
  | none => s.mapWaits (·.removeOwner address)
  | some owner => (s.mapWaits (·.removeOwner address)).staged (.restorePriority owner address)

section

variable {μ : Type} (s : SvcState μ) (address : Nat)

@[simp] theorem SvcState.memory_ownerReleased : (s.ownerReleased address).memory = s.memory := by
  rw [ownerReleased]
  split <;> rfl

@[simp] theorem SvcState.waitDeadlines_ownerReleased :
    (s.ownerReleased address).dispatcher.waitDeadlines = s.dispatcher.waitDeadlines := by
  rw [ownerReleased]
  split <;> rfl

@[simp] theorem SvcState.virtualTime_ownerReleased :
    (s.ownerReleased address).dispatcher.virtualTime = s.dispatcher.virtualTime := by
  rw [ownerReleased]
  split <;> rfl

@[simp] theorem SvcState.replySent_ownerReleased :
    (s.ownerReleased address).dispatcher.replySent = s.dispatcher.replySent := by
  rw [ownerReleased]
  split <;> rfl

@[simp] theorem SvcState.replies_ownerReleased :
    (s.ownerReleased address).replies = s.replies := by
  rw [ownerReleased]
  split <;> rfl

@[simp] theorem SvcState.thread_ownerReleased : (s.ownerReleased address).thread = s.thread := by
  rw [ownerReleased]
  split <;> rfl

@[simp] theorem SvcState.contains_ownerReleased (a : Nat) (thread : GuestThreadId) :
    (s.ownerReleased address).addressWaits.contains a thread =
      s.addressWaits.contains a thread := by
  rw [ownerReleased]
  split <;> rfl

end

/-- There is an owner to release and another request of the thread is staged already. -/
def SvcState.ReleaseBlocked (s : SvcState μ) (address : Nat) : Prop :=
  address ∈ s.addressWaits.owners ∧ s.thread ∈ s.dispatcher.pendingRuntimeRequests

omit [GuestMemory μ] in
theorem wp_releaseOwner {Q : Post ExceptionDispatchOutcome (SvcState μ) Unit} {s : SvcState μ}
    (address : Nat) (operation : String) :
    wp (releaseOwner address operation) Q s ↔
      (s.ReleaseBlocked address →
        Q.err (.fault (.internalRuntime operation)) (s.ownerReleased address)) ∧
      (¬s.ReleaseBlocked address →
        Q.ok () ((s.ownerReleased address).mapWaits (·.signalOne address))) := by
  simp only [releaseOwner, wp_rules, wp_ifSome, wp_queueRuntimeRequest]
  rw [ownerReleased]
  cases h : s.addressWaits.owners[address]? with
  | none =>
    have hmem : address ∉ s.addressWaits.owners := by
      simp [← ExtTreeMap.isSome_getElem?_iff_mem, h]
    simp [SvcState.ReleaseBlocked, hmem]
  | some owner =>
    have hmem : address ∈ s.addressWaits.owners := by
      simp [← ExtTreeMap.isSome_getElem?_iff_mem, h]
    simp [SvcState.ReleaseBlocked, hmem, mapWaits]

/-! ## ArbitrateLock -/

/-- The waiter of the calling thread at `address` leaves its queue. -/
def SvcState.unqueued (s : SvcState μ) (address : Nat) : SvcState μ :=
  s.mapWaits (·.remove address s.thread)

/-- The calling thread queues up at `address` and asks to be woken there. -/
def SvcState.queued (s : SvcState μ) (address tag : Nat) (deadline : Option Nat) : SvcState μ :=
  (s.mapWaits (·.enqueue address s.thread tag)).mapDispatcher
    (·.wakeOn s.thread [.addressWaiter address s.thread] deadline)

/-- An attempt by a thread that is not signalled. -/
inductive TryLockStep (s : SvcState μ) (mutexAddress tag : Nat) :
    ExceptionDispatchOutcome → SvcState μ → Prop where
  | unreadable {fault : DataAccessFault}
      (hread : readWord s.memory mutexAddress = .error fault) :
      TryLockStep s mutexAddress tag (.resume .next) (s.withResult .invalidCurrentMemory)
  | free {t : SvcState μ} (hread : readWord s.memory mutexAddress = .ok 0)
      (htake : TakeStep s mutexAddress tag t) :
      TryLockStep s mutexAddress tag (.resume .next) t
  | waiting (hcontains : s.addressWaits.contains mutexAddress s.thread = true) :
      TryLockStep s mutexAddress tag (.suspend .retry) s
  | noOwner : TryLockStep s mutexAddress tag (.resume .next) (s.withResult .invalidHandle)
  | blocked {owner : Nat} (hpending : s.thread ∈ s.dispatcher.pendingRuntimeRequests) :
      TryLockStep s mutexAddress tag (.fault (.internalRuntime "ArbitrateLock"))
        (s.staged (.inheritPriority owner s.thread mutexAddress))
  | queued {owner : Nat} :
      TryLockStep s mutexAddress tag (.suspend .retry)
        ((s.staged (.inheritPriority owner s.thread mutexAddress)).queued mutexAddress tag none)

inductive ArbitrateLockStep (s : SvcState μ) : ExceptionDispatchOutcome → SvcState μ → Prop where
  | misaligned (halign : ¬4 ∣ s.register 1) :
      ArbitrateLockStep s (.resume .next) (s.withResult .invalidAddress)
  | signalled {t : SvcState μ} (halign : 4 ∣ s.register 1)
      (hsignalled : s.addressWaits.isSignalled (s.register 1) s.thread = true)
      (htake : TakeStep ((s.unqueued (s.register 1)).mapDispatcher fun d ↦
          { d with pendingWakes := d.pendingWakes.erase s.thread })
        (s.register 1) ((s.addressWaits.value (s.register 1) s.thread).getD (s.register32 2)) t) :
      ArbitrateLockStep s (.resume .next) t
  | unsignalled {outcome : ExceptionDispatchOutcome} {t : SvcState μ}
      (halign : 4 ∣ s.register 1)
      (hsignalled : s.addressWaits.isSignalled (s.register 1) s.thread = false)
      (htry : TryLockStep s (s.register 1) (s.register32 2) outcome t) :
      ArbitrateLockStep s outcome t

theorem arbitrateLock_spec (s : SvcState μ) : Ends arbitrateLock (ArbitrateLockStep s) s := by
  simp only [arbitrateLock, wp_rules, wp_finishIf, wp_ite, wp_readProcessWideKeyWord,
    Classical.not_not, Bool.not_eq_true]
  refine ⟨.misaligned, fun halign ↦ ⟨fun hsignalled ↦ ?_, fun hsignalled ↦ ?_⟩⟩
  · refine wp_of_wp (takeMutex_spec _ _ _) ?_ ?_ <;>
    · rintro outcome t ⟨rfl, htake⟩
      exact .signalled halign hsignalled htake
  · cases hread : readWord s.memory (s.register 1) with
    | error fault => exact .unsignalled halign hsignalled (.unreadable hread)
    | ok word =>
      simp only [wp_ite, wp_pure]
      refine ⟨?_, fun _ ↦ ⟨fun hcontains ↦ .unsignalled halign hsignalled (.waiting hcontains),
        fun _ ↦ ?_⟩⟩
      · rintro rfl
        refine wp_of_wp (takeMutex_spec _ _ _) ?_ ?_ <;>
        · rintro outcome t ⟨rfl, htake⟩
          exact .unsignalled halign hsignalled (.free hread htake)
      · simp only [lockContended, wp_rules]
        cases s.handles.getAs HandleObject.asThread (s.register32 0) with
        | none => exact .unsignalled halign hsignalled .noOwner
        | some owner =>
          simp only [wp_rules, wp_queueRuntimeRequest]
          exact ⟨fun hpending ↦ .unsignalled halign hsignalled (.blocked hpending),
            fun _ ↦ .unsignalled halign hsignalled .queued⟩

/-! ## ArbitrateUnlock -/

inductive ArbitrateUnlockStep (s : SvcState μ) :
    ExceptionDispatchOutcome → SvcState μ → Prop where
  | misaligned : ArbitrateUnlockStep s (.resume .next) (s.withResult .invalidAddress)
  | refused : ArbitrateUnlockStep s (.resume .next) (s.withResult .invalidCurrentMemory)
  | blocked {memory : μ}
      (hwrite : writeWord s.memory .release (s.register 0) 0 = .ok memory)
      (hblocked : s.ReleaseBlocked (s.register 0)) :
      ArbitrateUnlockStep s (.fault (.internalRuntime "ArbitrateUnlock"))
        ({ s with memory := memory }.ownerReleased (s.register 0))
  | released {memory : μ}
      (hwrite : writeWord s.memory .release (s.register 0) 0 = .ok memory) :
      ArbitrateUnlockStep s (.resume .next)
        ((({ s with memory := memory }.ownerReleased (s.register 0)).mapWaits
          (·.signalOne (s.register 0))).withResult .success)

theorem arbitrateUnlock_spec (s : SvcState μ) : Ends arbitrateUnlock (ArbitrateUnlockStep s) s := by
  simp only [arbitrateUnlock, wp_rules, wp_finishIf, wp_writeProcessWideKeyWord, wp_finish,
    wp_releaseOwner]
  exact ⟨fun _ ↦ .misaligned, fun _ ↦ ⟨fun memory hwrite ↦ ⟨.blocked hwrite, fun _ ↦
    .released hwrite⟩, fun _ _ ↦ .refused⟩⟩

/-! ## WaitProcessWideKeyAtomic -/

/-- Write if the write is possible. -/
def writeIfPossible (memory : μ) (use : WordUse) (address value : Nat) : μ :=
  match writeWord memory use address value with
  | .ok memory' => memory'
  | .error _ => memory

/-- `publishAndRelease` fails and leaves the memory `after`. -/
inductive PublishFails (memory : μ) (key mutexAddress : Nat) : μ → Prop where
  | key {fault : DataAccessFault} (hkey : writeWord memory .key key 1 = .error fault) :
      PublishFails memory key mutexAddress memory
  | mutex {after : μ} {fault : DataAccessFault}
      (hkey : writeWord memory .key key 1 = .ok after)
      (hmutex : writeWord after .release mutexAddress 0 = .error fault) :
      PublishFails memory key mutexAddress after

/-- `publishAndRelease` succeeds and leaves the memory `after`. -/
def Published (memory : μ) (key mutexAddress : Nat) (after : μ) : Prop :=
  ∃ flagged, writeWord memory .key key 1 = .ok flagged ∧
    writeWord flagged .release mutexAddress 0 = .ok after

theorem publishAndRelease_spec (s : SvcState μ) (key mutexAddress : Nat) :
    wp (publishAndRelease key mutexAddress)
      ⟨fun failed t ↦ ∃ memory, t = { s with memory := memory } ∧
        if failed then PublishFails s.memory key mutexAddress memory
        else Published s.memory key mutexAddress memory, fun _ _ ↦ False, False⟩ s := by
  simp only [publishAndRelease, wp_rules, wp_writeProcessWideKeyWord]
  refine ⟨fun flagged hkey ↦ ⟨fun memory hmutex ↦ ?_, fun fault hmutex ↦ ?_⟩, fun fault hkey ↦ ?_⟩
  · exact ⟨memory, rfl, flagged, hkey, hmutex⟩
  · exact ⟨flagged, rfl, .mutex hkey hmutex⟩
  · exact ⟨s.memory, rfl, .key hkey⟩

/-- The calling thread is queued at the key, and has the deadline of its wait on record. -/
def SvcState.keyQueued (s : SvcState μ) (key tag : Nat) (timeout : Int) : SvcState μ :=
  let waiting := s.mapDispatcher fun d ↦ (d.waitExpired s.thread waitKeyImmediate timeout).2
  waiting.queued key tag waiting.dispatcher.waitDeadlines[WaitKey.mk s.thread waitKeyImmediate]?

/-- The first attempt of a wait. -/
inductive BeginKeyWaitStep (s : SvcState μ) (mutexAddress key tag : Nat) (timeout : Int) :
    ExceptionDispatchOutcome → SvcState μ → Prop where
  | unreadable {fault : DataAccessFault}
      (hread : readWord s.memory key = .error fault ∨
        readWord s.memory mutexAddress = .error fault) :
      BeginKeyWaitStep s mutexAddress key tag timeout (.resume .next)
        (s.withResult .invalidCurrentMemory)
  | restored {oldKey oldMutex : Nat} {memory : μ}
      (hkey : readWord s.memory key = .ok oldKey)
      (hmutex : readWord s.memory mutexAddress = .ok oldMutex)
      (hfail : PublishFails s.memory key mutexAddress memory) :
      BeginKeyWaitStep s mutexAddress key tag timeout (.resume .next)
        ({ s with
          memory := writeIfPossible (writeIfPossible memory .restoreKey key oldKey) .restoreMutex
            mutexAddress oldMutex }.withResult .invalidCurrentMemory)
  | blocked {memory : μ} (hpublished : Published s.memory key mutexAddress memory)
      (hblocked : s.ReleaseBlocked mutexAddress) :
      BeginKeyWaitStep s mutexAddress key tag timeout
        (.fault (.internalRuntime "WaitProcessWideKeyAtomic mutex release"))
        ({ s with memory := memory }.ownerReleased mutexAddress)
  | timedOut {memory : μ} (hpublished : Published s.memory key mutexAddress memory)
      (htimeout : timeout = 0) :
      BeginKeyWaitStep s mutexAddress key tag timeout (.resume .next)
        ((({ s with memory := memory }.ownerReleased mutexAddress).mapWaits
          (·.signalOne mutexAddress)).withResult .timedOut)
  | queued {memory : μ} (hpublished : Published s.memory key mutexAddress memory)
      (htimeout : timeout ≠ 0) :
      BeginKeyWaitStep s mutexAddress key tag timeout (.suspend .retry)
        ((({ s with memory := memory }.ownerReleased mutexAddress).mapWaits
          (·.signalOne mutexAddress)).keyQueued key tag timeout)

inductive WaitKeyStep (s : SvcState μ) : ExceptionDispatchOutcome → SvcState μ → Prop where
  | misaligned (halign : ¬4 ∣ s.register 0) :
      WaitKeyStep s (.resume .next) (s.withResult .invalidAddress)
  | signalled {t : SvcState μ} (halign : 4 ∣ s.register 0)
      (hsignalled : s.addressWaits.isSignalled (keyAddress (s.registers 1)) s.thread = true)
      (htake : TakeStep ((s.unqueued (keyAddress (s.registers 1))).mapDispatcher
          (·.finishWait s.thread waitKeyImmediate))
        (s.register 0)
        ((s.addressWaits.value (keyAddress (s.registers 1)) s.thread).getD (s.register32 2)) t) :
      WaitKeyStep s (.resume .next) t
  | expired (halign : 4 ∣ s.register 0)
      (hsignalled : s.addressWaits.isSignalled (keyAddress (s.registers 1)) s.thread = false)
      (hcontains : s.addressWaits.contains (keyAddress (s.registers 1)) s.thread = true) :
      WaitKeyStep s (.resume .next)
        (((s.mapDispatcher fun d ↦
          (d.waitExpired s.thread waitKeyImmediate (s.registerSigned 3)).2.finishWait s.thread
            waitKeyImmediate).unqueued (keyAddress (s.registers 1))).withResult .timedOut)
  | waiting (halign : 4 ∣ s.register 0)
      (hsignalled : s.addressWaits.isSignalled (keyAddress (s.registers 1)) s.thread = false)
      (hcontains : s.addressWaits.contains (keyAddress (s.registers 1)) s.thread = true)
      (hexpired :
        (s.dispatcher.waitExpired s.thread waitKeyImmediate (s.registerSigned 3)).1 = false) :
      WaitKeyStep s (.suspend .retry)
        (s.mapDispatcher fun d ↦
          (d.waitExpired s.thread waitKeyImmediate (s.registerSigned 3)).2)
  | first {outcome : ExceptionDispatchOutcome} {t : SvcState μ} (halign : 4 ∣ s.register 0)
      (hsignalled : s.addressWaits.isSignalled (keyAddress (s.registers 1)) s.thread = false)
      (hcontains : s.addressWaits.contains (keyAddress (s.registers 1)) s.thread = false)
      (hbegin : BeginKeyWaitStep s (s.register 0) (keyAddress (s.registers 1)) (s.register32 2)
        (s.registerSigned 3) outcome t) :
      WaitKeyStep s outcome t

theorem wp_writeIfPossible
    {Q : Post ExceptionDispatchOutcome (SvcState μ) (Except DataAccessFault Unit)}
    {s : SvcState μ} {use : WordUse} {address value : Nat}
    (h : ∀ r, Q.ok r { s with memory := writeIfPossible s.memory use address value }) :
    wp (writeProcessWideKeyWord use address value) Q s := by
  rw [wp_writeProcessWideKeyWord]
  constructor <;> intro x hx <;> simpa [writeIfPossible, hx] using h _

theorem beginKeyWait_spec (s : SvcState μ) (mutexAddress key tag : Nat) (timeout : Int) :
    Ends (beginKeyWait mutexAddress key tag timeout)
      (BeginKeyWaitStep s mutexAddress key tag timeout) s := by
  simp only [beginKeyWait, wp_bind, wp_readProcessWideKeyWord]
  cases hkey : readWord s.memory key with
  | error fault => exact .unreadable (.inl hkey)
  | ok oldKey =>
    simp only [wp_bind, wp_readProcessWideKeyWord]
    cases hmutex : readWord s.memory mutexAddress with
    | error fault => exact .unreadable (.inr hmutex)
    | ok oldMutex =>
      rw [wp_bind]
      refine wp_of_ok (publishAndRelease_spec s key mutexAddress) ?_
      rintro failed t ⟨memory, rfl, hpublish⟩
      cases failed with
      | true =>
        simp only [wp_bind, if_true]
        refine wp_writeIfPossible fun _ ↦ wp_writeIfPossible fun _ ↦ ?_
        exact .restored hkey hmutex hpublish
      | false =>
        simp only [wp_rules, wp_releaseOwner, wp_finishIf, Bool.false_eq_true, if_false]
        exact ⟨.blocked hpublish, fun _ ↦ ⟨.timedOut hpublish, .queued hpublish⟩⟩

theorem waitProcessWideKeyAtomic_spec (s : SvcState μ) :
    Ends waitProcessWideKeyAtomic (WaitKeyStep s) s := by
  simp only [waitProcessWideKeyAtomic, wp_rules, wp_finishIf, wp_ite, Classical.not_not,
    Bool.not_eq_true]
  refine ⟨.misaligned, fun halign ↦ ⟨fun hsignalled ↦ ?_, fun hsignalled ↦ ⟨fun hcontains ↦ ?_,
    fun hcontains ↦ ?_⟩⟩⟩
  · refine wp_of_wp (takeMutex_spec _ _ _) ?_ ?_ <;>
    · rintro outcome t ⟨rfl, htake⟩
      exact .signalled halign hsignalled htake
  · simp only [continueKeyWait, wp_rules, wp_ite, wp_finish, Bool.not_eq_true]
    exact ⟨fun _ ↦ .expired halign hsignalled hcontains, .waiting halign hsignalled hcontains⟩
  · exact wp_of_wp (beginKeyWait_spec _ _ _ _ _)
      (fun _ _ h ↦ .first halign hsignalled hcontains h)
      (fun _ _ h ↦ .first halign hsignalled hcontains h)

/-! ## SignalProcessWideKey -/

inductive SignalKeyStep (s : SvcState μ) : ExceptionDispatchOutcome → SvcState μ → Prop where
  | refused {outcome : ExceptionDispatchOutcome} (hfinal : outcome ≠ .suspend .retry) :
      SignalKeyStep s outcome
        (s.mapWaits (·.signal (keyAddress (s.registers 0)) (signalLimit (s.register32 1))))
  | cleared {memory : μ}
      (hwrite : writeWord s.memory .key (keyAddress (s.registers 0)) 0 = .ok memory) :
      SignalKeyStep s (.resume .next)
        ({ s with memory := memory }.mapWaits
          (·.signal (keyAddress (s.registers 0)) (signalLimit (s.register32 1))))

theorem signalProcessWideKey_spec (s : SvcState μ) :
    Ends signalProcessWideKey (SignalKeyStep s) s := by
  simp only [signalProcessWideKey, wp_rules, wp_writeProcessWideKeyWord, wp_ite]
  exact ⟨fun _ hwrite ↦ .cleared hwrite,
    fun _ _ ↦ ⟨fun _ ↦ .refused (by simp), fun _ ↦ .refused (by simp)⟩⟩

/-! ## Calls -/

/-- The endings of an attempt of `svc`. -/
def LockSvc.Step (svc : LockSvc) (s : SvcState μ) :
    ExceptionDispatchOutcome → SvcState μ → Prop :=
  match svc with
  | arbitrateLock => ArbitrateLockStep s
  | arbitrateUnlock => ArbitrateUnlockStep s
  | waitProcessWideKeyAtomic => WaitKeyStep s
  | signalProcessWideKey => SignalKeyStep s

theorem LockSvc.handle_spec (svc : LockSvc) (s : SvcState μ) : Ends svc.handle (svc.Step s) s := by
  cases svc with
  | arbitrateLock => exact arbitrateLock_spec s
  | arbitrateUnlock => exact arbitrateUnlock_spec s
  | waitProcessWideKeyAtomic => exact waitProcessWideKeyAtomic_spec s
  | signalProcessWideKey => exact signalProcessWideKey_spec s

end Nixe.Horizon
