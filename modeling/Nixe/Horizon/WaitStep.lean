import Nixe.Horizon.Wait

/-!
# What one attempt of a wait does

The endings of WaitSynchronization and ReplyAndReceive, told by what they leave in the tables of
the dispatcher. What they do to memory, handles and objects is left out: everything may have
changed there by the next attempt anyway.

Both calls can end before they have looked at their tables at all, in the *early* endings.
-/

namespace Nixe.Horizon

open Std Method Memory Nixe.Runtime Scheduler

variable {μ : Type}

/-- The attempt that led from `s` to `t` was made by the same thread, delivered no reply and left
the address waits alone. -/
structure Frame (s t : SvcState μ) : Prop where
  thread : t.thread = s.thread
  addressWaits : t.addressWaits = s.addressWaits
  replies : t.replies = s.replies

/-- The statements that led from `s` to `t` also left the tables alone. -/
structure Quiet (s t : SvcState μ) : Prop extends Frame s t where
  tables : t.dispatcher = s.dispatcher

theorem Quiet.trans {s t u : SvcState μ} (h : Quiet s t) (h' : Quiet t u) : Quiet s u where
  thread := h'.thread.trans h.thread
  addressWaits := h'.addressWaits.trans h.addressWaits
  replies := h'.replies.trans h.replies
  tables := h'.tables.trans h.tables

/-! ## WaitSynchronization -/

section

variable [GuestMemory μ]

/-- The handles of the wait cannot be read, or one before the first that is signalled is
invalid. -/
def SvcState.WaitSyncEarly (s : SvcState μ) : Prop :=
  maxWaitHandles < s.register32 2 ∨
    match readHandleArray s.memory (s.register 1) (List.range (s.register32 2)) with
    | .error _ => True
    | .ok handles => scanHandles s 0 handles = .invalid

inductive WaitSyncStep (s : SvcState μ) : ExceptionDispatchOutcome → SvcState μ → Prop where
  | early {t : SvcState μ} (hearly : s.WaitSyncEarly) (hquiet : Quiet s t) :
      WaitSyncStep s (.resume .next) t
  | signalled {t : SvcState μ} (hearly : ¬s.WaitSyncEarly) (hframe : Frame s t)
      (htables : t.dispatcher =
        s.dispatcher.finishWait s.thread waitSynchronizationImmediate) :
      WaitSyncStep s (.resume .next) t
  | expired {t : SvcState μ} (hearly : ¬s.WaitSyncEarly) (hframe : Frame s t)
      (htables : t.dispatcher =
        (s.dispatcher.waitExpired s.thread waitSynchronizationImmediate
          (s.registerSigned 3)).2.finishWait s.thread waitSynchronizationImmediate) :
      WaitSyncStep s (.resume .next) t
  | waiting {t : SvcState μ} {events : List WakeEvent} {deadline : Option Nat}
      (hearly : ¬s.WaitSyncEarly) (hframe : Frame s t)
      (htables : t.dispatcher =
        (s.dispatcher.waitExpired s.thread waitSynchronizationImmediate
          (s.registerSigned 3)).2.wakeOn s.thread events deadline) :
      WaitSyncStep s (.suspend .retry) t

theorem waitSynchronization_spec (s : SvcState μ) :
    wp waitSynchronization ⟨WaitSyncStep s, WaitSyncStep s, False⟩ s := by
  simp only [waitSynchronization, wp_rules, wp_finishIf, Nat.not_lt]
  refine ⟨fun hcount ↦ .early (.inl hcount) ⟨⟨rfl, rfl, rfl⟩, rfl⟩, fun hcount ↦ ?_⟩
  cases hread : readHandleArray s.memory (s.register 1) (List.range (s.register32 2)) with
  | error _ => exact .early (.inr (by rw [hread]; trivial)) ⟨⟨rfl, rfl, rfl⟩, rfl⟩
  | ok handles =>
    have hearly : s.WaitSyncEarly ↔ scanHandles s 0 handles = .invalid := by
      simp [SvcState.WaitSyncEarly, hread, Nat.not_lt.mpr hcount]
    simp only [wp_rules]
    cases hscan : scanHandles s 0 handles with
    | invalid => exact .early (hearly.mpr hscan) ⟨⟨rfl, rfl, rfl⟩, rfl⟩
    | signalled index => exact .signalled (by simp [hearly, hscan]) ⟨rfl, rfl, rfl⟩ rfl
    | pending events =>
      simp only [wp_rules, wp_ite, wp_finish]
      exact ⟨fun _ ↦ .expired (by simp [hearly, hscan]) ⟨rfl, rfl, rfl⟩ rfl,
        fun _ ↦ .waiting (by simp [hearly, hscan]) ⟨rfl, rfl, rfl⟩ rfl⟩

end

/-! ## ReplyAndReceive -/

section

variable {s s₀ : SvcState μ}

/-- A call on a session changes nothing but the session. -/
theorem wp_onSession {α : Type} {Q : Post ExceptionDispatchOutcome (SvcState μ) _} (id : Nat)
    (call : SessionM HandleObject α) :
    wp (onSession id call) Q s ↔
      wp call ⟨fun a session ↦ Q.ok (.ok a) (s.setSession id session),
        fun error session ↦ Q.ok (.error error) (s.setSession id session), Q.panic⟩
        (s.sessions id) := by
  rw [wp, wp, onSession]
  cases call (s.sessions id) <;> rfl

/-- The endings of the wait: nothing but the wait's own entries leaves the tables. -/
def ReplyFinished (a : ReplyArguments) (s : SvcState μ) (outcome : ExceptionDispatchOutcome)
    (t : SvcState μ) : Prop :=
  outcome ≠ .suspend .retry ∧ Frame s t ∧
    t.dispatcher = s.dispatcher.finishReplyWait s.thread a.immediate

theorem ReplyFinished.of_quiet {a : ReplyArguments} {t : SvcState μ}
    {outcome : ExceptionDispatchOutcome} (hquiet : Quiet s₀ s) (h : ReplyFinished a s outcome t) :
    ReplyFinished a s₀ outcome t := by
  obtain ⟨hfinal, hframe, htables⟩ := h
  refine ⟨hfinal, ⟨hframe.thread.trans hquiet.thread,
    hframe.addressWaits.trans hquiet.addressWaits, hframe.replies.trans hquiet.replies⟩, ?_⟩
  rw [htables, hquiet.tables, hquiet.thread]

section

variable {α : Type} (a : ReplyArguments) (code : HorizonKernelResult) {s₀ s : SvcState μ}
  {ok : α → SvcState μ → Prop} {p : Prop}

theorem wp_finishReply (hquiet : Quiet s₀ s) :
    wp (finishReply a code) ⟨ok, ReplyFinished a s₀, p⟩ s :=
  ReplyFinished.of_quiet hquiet ⟨nofun, ⟨rfl, rfl, rfl⟩, rfl⟩

theorem wp_finishReplyAt (index : Nat) (hquiet : Quiet s₀ s) :
    wp (finishReplyAt a code index) ⟨ok, ReplyFinished a s₀, p⟩ s :=
  ReplyFinished.of_quiet hquiet ⟨nofun, ⟨rfl, rfl, rfl⟩, rfl⟩

end

variable [MessageMemory μ]

theorem deliverRequest_spec (a : ReplyArguments) (index : Nat)
    (message : SessionMessage HandleObject) (hquiet : Quiet s₀ s) {ok : Unit → SvcState μ → Prop} :
    wp (deliverRequest a index message) ⟨ok, ReplyFinished a s₀, True⟩ s := by
  rw [deliverRequest, wp_ite]
  refine ⟨fun _ ↦ wp_finishReply a _ hquiet, fun _ ↦ ?_⟩
  simp only [wp_rules]
  cases (materializeMessageHandles s.handles message).1 with
  | error code =>
    refine wp_finishReply a _ ?_
    exact hquiet.trans ⟨⟨rfl, rfl, rfl⟩, rfl⟩
  | ok request =>
    cases request with
    | none => trivial
    | some request =>
      simp only [wp_ite, wp_rules]
      refine ⟨fun _ ↦ wp_finishReply a _ ?_, fun _ ↦ ?_⟩
      · exact hquiet.trans ⟨⟨rfl, rfl, rfl⟩, rfl⟩
      · cases MessageMemory.writeBytes s.memory a.address request with
        | error fault =>
          simp only [wp_rules, wp_reject]
          refine ⟨fun code _ ↦ ReplyFinished.of_quiet hquiet ?_, fun _ ↦ trivial⟩
          exact ⟨by simp, ⟨rfl, rfl, rfl⟩, rfl⟩
        | ok memory =>
          simp only [wp_rules]
          refine wp_finishReplyAt a _ _ ?_
          exact hquiet.trans ⟨⟨rfl, rfl, rfl⟩, rfl⟩

/-- By induction on the targets that are left to look at. -/
theorem serveTargets_spec (a : ReplyArguments) (targets : List ReplyWaitTarget) (index : Nat)
    (hquiet : Quiet s₀ s) :
    wp (serveTargets a index targets) ⟨fun _ t ↦ Quiet s₀ t, ReplyFinished a s₀, True⟩ s := by
  induction targets generalizing index s with
  | nil => exact hquiet
  | cons target targets ih =>
    rw [serveTargets.eq_def]
    simp only [wp_rules, wp_ite]
    refine ⟨fun _ ↦ ih _ hquiet, fun _ ↦ ?_⟩
    cases target with
    | port id => exact wp_finishReplyAt a _ _ hquiet
    | session id =>
      have hset (session : Session HandleObject) : Quiet s₀ (s.setSession id session) :=
        hquiet.trans ⟨⟨rfl, rfl, rfl⟩, rfl⟩
      simp only [wp_bind, wp_onSession]
      -- nothing is used of what `receive` does to the session
      refine wp_of_wp (wp_true _ _) ?_ ?_
      · intro message session _
        exact deliverRequest_spec a index message (hset session)
      · intro error session _
        cases error <;> dsimp only
        case noRequest => exact ih _ (hset session)
        case peerClosed => exact wp_finishReplyAt a _ _ (hset session)
        all_goals exact wp_finishReply a _ (hset session)

/-- The reply can be delivered: its target is the server end of a session with a current request,
and the message can be read and its handles taken. -/
def SvcState.ReplyDeliverable (s : SvcState μ) (a : ReplyArguments) : Prop :=
  ∃ id bytes message,
    s.handles.getAs HandleObject.asSession a.replyTarget = some (.server, id) ∧
    (s.sessions id).isLight = false ∧ s.reserves a.size = true ∧
    MessageMemory.readBytes s.memory a.address a.size = .ok bytes ∧
    (captureMessageHandles s bytes true).1 = .ok message ∧
    (s.sessions id).clientOpen = true ∧ (s.sessions id).current.isSome = true

/-- A reply that is delivered is recorded. -/
structure ReplyDelivered (s t : SvcState μ) : Prop where
  thread : t.thread = s.thread
  addressWaits : t.addressWaits = s.addressWaits
  replies : ∃ id, t.replies = id :: s.replies
  tables : t.dispatcher =
    { s.dispatcher with replySent := s.dispatcher.replySent.insert s.thread }

omit [MessageMemory μ] in
theorem reply_spec (session : Session HandleObject) {message : SessionMessage HandleObject}
    (hlight : session.isLight = message.isLight) :
    wp (Session.reply .server message)
      ⟨fun _ _ ↦ session.clientOpen = true ∧ session.current.isSome = true,
        fun _ _ ↦ ¬(session.clientOpen = true ∧ session.current.isSome = true), True⟩ session := by
  simp only [Session.reply, wp_rules, wp_assert]
  refine ⟨fun h ↦ absurd rfl h, fun _ ↦ ⟨fun h ↦ absurd hlight h, fun _ ↦ ⟨fun h ↦ ?_, fun h ↦ ?_⟩⟩⟩
  · simp [h]
  · have hopen : session.clientOpen = true := by simpa using h
    refine ⟨fun request hcurrent ↦ ⟨fun _ ↦ ?_, fun _ ↦ trivial⟩, fun hcurrent ↦ ?_⟩
    · exact ⟨hopen, by rw [hcurrent]; rfl⟩
    · simp [hcurrent]

theorem sendReply_spec (a : ReplyArguments) (s : SvcState μ) :
    wp (sendReply a)
      ⟨fun _ t ↦ s.ReplyDeliverable a ∧ ReplyDelivered s t,
        fun outcome t ↦ ¬s.ReplyDeliverable a ∧ outcome ≠ .suspend .retry ∧ Quiet s t, True⟩
      s := by
  simp only [sendReply, wp_rules]
  cases htarget : s.handles.getAs HandleObject.asSession a.replyTarget with
  | none => exact ⟨by simp [SvcState.ReplyDeliverable, htarget], by simp, ⟨rfl, rfl, rfl⟩, rfl⟩
  | some target =>
    obtain ⟨endpoint, id⟩ := target
    simp only [wp_rules, wp_finishIf, not_or, Bool.not_eq_true, Classical.not_not]
    refine ⟨fun hrefused ↦ ⟨?_, by simp, ⟨rfl, rfl, rfl⟩, rfl⟩, ?_⟩
    · rintro ⟨id', bytes, message, htarget', hlight, -⟩
      rw [htarget] at htarget'
      cases htarget'
      simp [hlight] at hrefused
    rintro ⟨rfl, hlight⟩
    -- What is left to check once the target is the server of a session that is not light.
    have hdeliverable : s.ReplyDeliverable a ↔ ∃ bytes message, s.reserves a.size = true ∧
        MessageMemory.readBytes s.memory a.address a.size = .ok bytes ∧
        (captureMessageHandles s bytes true).1 = .ok message ∧
        (s.sessions id).clientOpen = true ∧ (s.sessions id).current.isSome = true := by
      simp [SvcState.ReplyDeliverable, htarget, hlight]
    simp only [readReply, wp_rules, wp_ite]
    refine ⟨fun hreserved ↦ ⟨?_, by simp, ⟨rfl, rfl, rfl⟩, rfl⟩, fun hreserved ↦ ?_⟩
    · have hreserved : s.reserves a.size = false := by simpa using hreserved
      simp [hdeliverable, hreserved]
    have hreserved : s.reserves a.size = true := by simpa using hreserved
    cases hbytes : MessageMemory.readBytes s.memory a.address a.size with
    | error fault =>
      simp only [wp_rules, setNoIndex, wp_reject]
      refine ⟨fun _ _ ↦ ⟨?_, by simp, ⟨rfl, rfl, rfl⟩, rfl⟩, fun _ ↦ trivial⟩
      simp [hdeliverable, hbytes]
    | ok bytes =>
      simp only [wp_rules]
      cases hcaptured : (captureMessageHandles s bytes true).1 with
      | error code =>
        refine ⟨?_, by simp, ⟨rfl, rfl, rfl⟩, rfl⟩
        simp [hdeliverable, hbytes, hcaptured]
      | ok message =>
        simp only [wp_bind, wp_onSession]
        have hkind : (s.sessions id).isLight = message.isLight := by
          rw [hlight, isLight_of_capture hcaptured]
        refine wp_of_wp (reply_spec (s.sessions id) hkind) ?_ ?_
        · rintro _ session ⟨hopen, hcurrent⟩
          refine ⟨hdeliverable.mpr ⟨bytes, message, hreserved, hbytes, hcaptured, hopen, hcurrent⟩,
            rfl, rfl, ⟨id, rfl⟩, rfl⟩
        · rintro error session hrefused
          refine ⟨?_, by simp, ⟨rfl, rfl, rfl⟩, rfl⟩
          rw [hdeliverable]
          rintro ⟨bytes', message', -, -, -, h⟩
          exact hrefused h

/-- The reply of a call, up to the wait. -/
inductive ReplyPhase (a : ReplyArguments) (s : SvcState μ) : SvcState μ → Prop where
  | untargeted (htarget : a.replyTarget = 0) :
      ReplyPhase a s (s.mapDispatcher fun d ↦ { d with replySent := d.replySent.erase s.thread })
  | sentBefore (htarget : a.replyTarget ≠ 0) (hsent : s.thread ∈ s.dispatcher.replySent) :
      ReplyPhase a s s
  | delivered {t : SvcState μ} (htarget : a.replyTarget ≠ 0)
      (hsent : s.thread ∉ s.dispatcher.replySent) (hdeliverable : s.ReplyDeliverable a)
      (hdelivered : ReplyDelivered s t) : ReplyPhase a s t

/-- The reply of a call cannot be delivered. -/
structure ReplyRefused (a : ReplyArguments) (s : SvcState μ) : Prop where
  target : a.replyTarget ≠ 0
  unsent : s.thread ∉ s.dispatcher.replySent
  undeliverable : ¬s.ReplyDeliverable a

theorem replyOnce_spec (a : ReplyArguments) (s : SvcState μ) :
    wp (replyOnce a)
      ⟨fun _ t ↦ ReplyPhase a s t,
        fun outcome t ↦ ReplyRefused a s ∧ outcome ≠ .suspend .retry ∧ Quiet s t, True⟩ s := by
  simp only [replyOnce, wp_rules, wp_ite]
  refine ⟨fun htarget ↦ .untargeted htarget, fun htarget ↦ ⟨fun hsent ↦ ?_, fun hsent ↦ ?_⟩⟩
  · exact .sentBefore htarget (ExtTreeSet.mem_iff_contains.mpr hsent)
  · have hsent : s.thread ∉ s.dispatcher.replySent := by
      rwa [ExtTreeSet.mem_iff_contains]
    refine wp_of_wp (sendReply_spec a s) ?_ ?_
    · rintro _ t ⟨hdeliverable, hdelivered⟩
      exact .delivered htarget hsent hdeliverable hdelivered
    · rintro outcome t ⟨hundeliverable, hfinal, hquiet⟩
      exact ⟨⟨htarget, hsent, hundeliverable⟩, hfinal, hquiet⟩

/-- A wait that goes on has its deadline on record. -/
structure ReplyWaiting (a : ReplyArguments) (s t : SvcState μ) : Prop extends Frame s t where
  waitDeadlines : t.dispatcher.waitDeadlines =
    (s.dispatcher.waitExpired s.thread a.immediate a.timeout).2.waitDeadlines
  replySent : t.dispatcher.replySent = s.dispatcher.replySent

omit [MessageMemory μ] in
theorem quiet_handlesSeen (s : SvcState μ) : Quiet s s.handlesSeen := ⟨⟨rfl, rfl, rfl⟩, rfl⟩

omit [MessageMemory μ] in
/-- Clearing the wake events of targets changes nothing but the targets. -/
theorem quiet_foldl_targetSeen (targets : List ReplyWaitTarget) (s : SvcState μ) :
    Quiet s (targets.foldl SvcState.targetSeen s) := by
  induction targets generalizing s with
  | nil => exact ⟨⟨rfl, rfl, rfl⟩, rfl⟩
  | cons target targets ih =>
    have hseen : Quiet s (s.targetSeen target) := by
      cases target <;> exact ⟨⟨rfl, rfl, rfl⟩, rfl⟩
    exact hseen.trans (ih _)

@[simp] theorem HorizonSvcDispatcher.replySent_waitExpired (d : HorizonSvcDispatcher)
    (thread : GuestThreadId) (immediate : Nat) (timeout : Int) :
    (d.waitExpired thread immediate timeout).2.replySent = d.replySent := by
  rw [waitExpired]
  split
  · rfl
  · split <;> rfl

omit [MessageMemory μ] in
theorem awaitTargets_spec (a : ReplyArguments) (targets : List ReplyWaitTarget)
    (hquiet : Quiet s₀ s) :
    wp (awaitTargets a targets)
      ⟨fun outcome t ↦ outcome = .suspend .retry ∧ ReplyWaiting a s₀ t,
        ReplyFinished a (s₀.mapDispatcher fun d ↦
          (d.waitExpired s₀.thread a.immediate a.timeout).2), True⟩ s := by
  simp only [awaitTargets, wp_rules, wp_ite]
  have hexpired : Quiet
      (s₀.mapDispatcher fun d ↦ (d.waitExpired s₀.thread a.immediate a.timeout).2)
      (s.mapDispatcher fun d ↦ (d.waitExpired s.thread a.immediate a.timeout).2) := by
    refine ⟨⟨hquiet.thread, hquiet.addressWaits, hquiet.replies⟩, ?_⟩
    simp only [SvcState.mapDispatcher, hquiet.tables, hquiet.thread]
  refine ⟨fun _ ↦ wp_finishReply a _ hexpired, fun _ ↦ ⟨trivial, ?_⟩⟩
  have hseen := (hexpired.trans (quiet_handlesSeen _)).trans (quiet_foldl_targetSeen targets _)
  have hwaiting : ReplyWaiting a s₀ (targets.foldl SvcState.targetSeen
      (s.mapDispatcher fun d ↦
        (d.waitExpired s.thread a.immediate a.timeout).2).handlesSeen) := by
    refine ⟨⟨hseen.thread, hseen.addressWaits, hseen.replies⟩, ?_, ?_⟩
    · rw [hseen.tables]
      rfl
    · rw [hseen.tables]
      exact HorizonSvcDispatcher.replySent_waitExpired ..
  split
  · exact hwaiting
  · exact ⟨⟨hwaiting.thread, hwaiting.addressWaits, hwaiting.replies⟩, hwaiting.waitDeadlines,
      hwaiting.replySent⟩

/-- The arguments are refused, or the handles of the targets cannot be read or are invalid. -/
def SvcState.ReplyEarly (s : SvcState μ) (userBuffer : Bool) : Prop :=
  ((s.replyArguments userBuffer).refusal userBuffer).isSome = true ∨
    match readHandleArray s.memory (s.replyArguments userBuffer).handlesAddress
      (List.range (s.replyArguments userBuffer).count) with
    | .error _ => True
    | .ok handles => replyWaitTargets s handles = none

inductive ReplyStep (s : SvcState μ) (userBuffer : Bool) :
    ExceptionDispatchOutcome → SvcState μ → Prop where
  | early {outcome : ExceptionDispatchOutcome} {t : SvcState μ}
      (hearly : s.ReplyEarly userBuffer) (hfinal : outcome ≠ .suspend .retry)
      (hquiet : Quiet s t) : ReplyStep s userBuffer outcome t
  | refused {outcome : ExceptionDispatchOutcome} {t : SvcState μ}
      (hearly : ¬s.ReplyEarly userBuffer)
      (hrefused : ReplyRefused (s.replyArguments userBuffer) s)
      (hfinal : outcome ≠ .suspend .retry) (hquiet : Quiet s t) :
      ReplyStep s userBuffer outcome t
  | served {outcome : ExceptionDispatchOutcome} {r t : SvcState μ}
      (hearly : ¬s.ReplyEarly userBuffer)
      (hreply : ReplyPhase (s.replyArguments userBuffer) s r)
      (hfinished : ReplyFinished (s.replyArguments userBuffer) r outcome t) :
      ReplyStep s userBuffer outcome t
  | expired {outcome : ExceptionDispatchOutcome} {r t : SvcState μ}
      (hearly : ¬s.ReplyEarly userBuffer)
      (hreply : ReplyPhase (s.replyArguments userBuffer) s r)
      (hfinished : ReplyFinished (s.replyArguments userBuffer)
        (r.mapDispatcher fun d ↦ (d.waitExpired r.thread (s.replyArguments userBuffer).immediate
          (s.replyArguments userBuffer).timeout).2) outcome t) :
      ReplyStep s userBuffer outcome t
  | waiting {r t : SvcState μ} (hearly : ¬s.ReplyEarly userBuffer)
      (hreply : ReplyPhase (s.replyArguments userBuffer) s r)
      (hwaiting : ReplyWaiting (s.replyArguments userBuffer) r t) :
      ReplyStep s userBuffer (.suspend .retry) t

theorem replyAndReceive_spec (s : SvcState μ) (userBuffer : Bool) :
    wp (replyAndReceive userBuffer)
      ⟨ReplyStep s userBuffer, ReplyStep s userBuffer, True⟩ s := by
  simp only [replyAndReceive, wp_rules]
  cases hrefusal : (s.replyArguments userBuffer).refusal userBuffer with
  | some code =>
    exact .early (.inl (by rw [hrefusal]; rfl)) (by simp) ⟨⟨rfl, rfl, rfl⟩, rfl⟩
  | none =>
    simp only [wp_rules]
    cases hread : readHandleArray s.memory (s.replyArguments userBuffer).handlesAddress
      (List.range (s.replyArguments userBuffer).count) with
    | error error =>
      have hearly : s.ReplyEarly userBuffer := .inr (by rw [hread]; trivial)
      cases error with
      | overflow => exact .early hearly (by simp) ⟨⟨rfl, rfl, rfl⟩, rfl⟩
      | fault fault =>
        simp only [wp_reject]
        exact ⟨fun _ _ ↦ .early hearly (by simp) ⟨⟨rfl, rfl, rfl⟩, rfl⟩, fun _ ↦ trivial⟩
    | ok handles =>
      have hearly : s.ReplyEarly userBuffer ↔ replyWaitTargets s handles = none := by
        simp [SvcState.ReplyEarly, hrefusal, hread]
      simp only [wp_rules]
      cases htargets : replyWaitTargets s handles with
      | none => exact .early (hearly.mpr htargets) (by simp) ⟨⟨rfl, rfl, rfl⟩, rfl⟩
      | some targets =>
        have hlate : ¬s.ReplyEarly userBuffer := by simp [hearly, htargets]
        simp only [wp_bind]
        refine wp_of_wp (replyOnce_spec _ s) ?_ ?_
        · intro _ r hreply
          have hself : Quiet r r := ⟨⟨rfl, rfl, rfl⟩, rfl⟩
          refine wp_of_wp (serveTargets_spec _ targets 0 hself) ?_ ?_
          · intro _ r' hquiet
            refine wp_of_wp (awaitTargets_spec _ targets hquiet) ?_ ?_
            · rintro outcome t ⟨rfl, hwaiting⟩
              exact .waiting hlate hreply hwaiting
            · intro outcome t hfinished
              exact .expired hlate hreply hfinished
          · intro outcome t hfinished
            exact .served hlate hreply hfinished
        · rintro outcome t ⟨hrefused, hfinal, hquiet⟩
          exact .refused hlate hrefused hfinal hquiet

end

end Nixe.Horizon
