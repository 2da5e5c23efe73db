import Nixe.Horizon.WaitEffect

/-!
# Calls that are attempted again

A call that waits is a sequence of attempts, all but the last of which suspend the thread. When the
call ends, whatever its result, what the dispatcher kept for it must be forgotten: a later call of
the thread would take it for its own.

An attempt that ends early does not forget it. That is harmless at the first attempt, but between
attempts the guest can unmap the memory that its handles are read from, or close a handle.
-/

namespace Nixe.Horizon

open Std Method Memory Nixe.Runtime Scheduler Option Machine

/-! ## Invocations -/

/-- A call from its first attempt to its final outcome. -/
structure Invocation where
  svc : WaitSvc
  registers : Registers
  /-- The virtual time of the first attempt. -/
  started : Nat
  /-- The replies that its attempts have delivered so far. -/
  delivered : Nat

namespace Invocation

/-- The deadline that a timed wait should go by. -/
def deadline (i : Invocation) : Option Nat :=
  (i.svc.timeout i.registers).bind fun timeout ↦
    if 0 < timeout then some (saturatingAdd i.started timeout.toNat) else none

/-- The deadline that an attempt with the tables `d` goes by. -/
def usedDeadline (i : Invocation) (d : HorizonSvcDispatcher) (thread : GuestThreadId) :
    Option Nat :=
  (i.svc.timeout i.registers).bind fun timeout ↦
    if 0 < timeout then some (d.deadline thread i.svc.immediate timeout) else none

/-- The call has a reply to send. -/
def Sends (i : Invocation) : Prop := i.svc.replyTarget i.registers ≠ 0

instance (i : Invocation) : Decidable i.Sends := inferInstanceAs (Decidable (_ ≠ _))

/-- The invocation after an attempt that delivered `replies` replies. -/
def continued (i : Invocation) (replies : Nat) : Invocation :=
  { i with delivered := i.delivered + replies }

@[simp] theorem svc_continued (i : Invocation) (replies : Nat) :
    (i.continued replies).svc = i.svc := rfl

@[simp] theorem delivered_continued (i : Invocation) (replies : Nat) :
    (i.continued replies).delivered = i.delivered + replies := rfl

@[simp] theorem deadline_continued (i : Invocation) (replies : Nat) :
    (i.continued replies).deadline = i.deadline := rfl

@[simp] theorem sends_continued (i : Invocation) (replies : Nat) :
    (i.continued replies).Sends ↔ i.Sends := Iff.rfl

end Invocation

/-- An attempt that was made. -/
structure Attempted where
  thread : GuestThreadId
  invocation : Invocation
  deadline : Option Nat
  final : Bool

/-- The tables, the invocations that are suspended and the attempt that was made last. -/
structure RetryWorld where
  dispatcher : HorizonSvcDispatcher
  addressWaits : AddressWaitRegistry
  waiting : GuestThreadId → Option Invocation
  last : Option Attempted

/-- A thread enters a call at the time `now`. Memory, handles and objects are what other threads
and the services have made of them by then: `environment`. -/
structure RetryInput (μ : Type) where
  thread : GuestThreadId
  now : Nat
  svc : WaitSvc
  registers : Registers
  environment : SvcState μ

namespace RetryWorld

def new : RetryWorld where
  dispatcher := .new
  addressWaits := .empty
  waiting _ := none
  last := none

variable {μ : Type}

/-- The invocation that an attempt belongs to: a suspended thread can only attempt its call
again. -/
def invocation (w : RetryWorld) (input : RetryInput μ) : Invocation :=
  (w.waiting input.thread).getD ⟨input.svc, input.registers, input.now, 0⟩

def entered (w : RetryWorld) (input : RetryInput μ) : SvcState μ :=
  { input.environment with
    dispatcher := { w.dispatcher with virtualTime := input.now }
    addressWaits := w.addressWaits
    thread := input.thread
    registers := (w.invocation input).registers
    replies := [] }

/-- The world after an attempt. -/
def attempted (w : RetryWorld) (input : RetryInput μ) (outcome : ExceptionDispatchOutcome)
    (t : SvcState μ) : RetryWorld where
  __ := t
  waiting other :=
    if other = input.thread then
      if outcome = .suspend .retry then some ((w.invocation input).continued t.replies.length)
      else none
    else w.waiting other
  last := some
    { thread := input.thread
      invocation := (w.invocation input).continued t.replies.length
      deadline := (w.invocation input).usedDeadline (w.entered input).dispatcher input.thread
      final := outcome ≠ .suspend .retry }

end RetryWorld

/-- Any number of threads, in any interleaving, each attempt one step. -/
def retryWorld {μ : Type} [MessageMemory μ] :
    Machine RetryWorld (RetryInput μ) ExceptionDispatchOutcome := fun w input ↦
  (attempt (w.invocation input).svc.handle (w.entered input)).map fun (outcome, t) ↦
    (outcome, w.attempted input outcome t)

/-- The last attempt went by the deadline of its own invocation and, if it was final, left nothing
in the tables, having delivered the reply exactly once if there was one to deliver. -/
def RetryWorld.Settled (w : RetryWorld) : Prop :=
  ∀ a, w.last = some a → a.deadline = a.invocation.deadline ∧
    (a.final = true →
      w.dispatcher.waitDeadlines[WaitKey.mk a.thread a.invocation.svc.immediate]? = none ∧
      a.thread ∉ w.dispatcher.replySent ∧
      (a.invocation.Sends → a.invocation.delivered = 1))

/-- The attempt ends early although its invocation has something on record or a reply to send. -/
def RetryWorld.Leaks {μ : Type} [MessageMemory μ] (w : RetryWorld) (input : RetryInput μ) : Prop :=
  (w.invocation input).svc.EndsEarly (w.entered input) ∧
    ((w.invocation input).Sends ∨
      (w.waiting input.thread).isSome = true ∧ (w.invocation input).deadline ≠ none)

/-! ## What is on record -/

/-- What the tables hold for a thread that is in the invocation `i`, of which an attempt was made
before if `resumed`. -/
structure Records (d : HorizonSvcDispatcher) (waits : AddressWaitRegistry)
    (thread : GuestThreadId) (resumed : Prop) [Decidable resumed] (i : Invocation) : Prop where
  deadlines : ∀ immediate, d.waitDeadlines[WaitKey.mk thread immediate]? =
    if resumed ∧ immediate = i.svc.immediate then i.deadline else none
  sent : thread ∈ d.replySent ↔ resumed ∧ i.Sends
  delivered : i.delivered = if resumed ∧ i.Sends then 1 else 0
  queued : resumed → i.svc = .lock .waitProcessWideKeyAtomic →
    4 ∣ (i.registers 0).toNat ∧ waits.contains (keyAddress (i.registers 1)) thread = true

/-- The tables hold nothing for a thread. -/
def Cleared (d : HorizonSvcDispatcher) (thread : GuestThreadId) : Prop :=
  (∀ immediate, d.waitDeadlines[WaitKey.mk thread immediate]? = none) ∧ thread ∉ d.replySent

section

variable {d : HorizonSvcDispatcher} {waits : AddressWaitRegistry} {thread : GuestThreadId}
  {resumed : Prop} [Decidable resumed] {i : Invocation}

/-- A record is that of the first attempt, or there is none and the first attempt is now. -/
theorem Records.usedDeadline (h : Records d waits thread resumed i)
    (hstart : ¬resumed → i.started = d.virtualTime) : i.usedDeadline d thread = i.deadline := by
  have hown := h.deadlines i.svc.immediate
  rw [Invocation.deadline] at hown ⊢
  rw [Invocation.usedDeadline]
  cases htimeout : i.svc.timeout i.registers with
  | none => rfl
  | some timeout =>
    simp only [htimeout, bind_some, and_true] at hown ⊢
    by_cases hpos : 0 < timeout
    · rw [if_pos hpos] at hown
      rw [if_pos hpos, if_pos hpos, HorizonSvcDispatcher.deadline, hown]
      by_cases hresumed : resumed
      · rw [if_pos hresumed]
        rfl
      · rw [if_neg hresumed, hstart hresumed]
        rfl
    · rw [if_neg hpos, if_neg hpos]

variable {μ : Type} [MessageMemory μ] {s t : SvcState μ} {outcome : ExceptionDispatchOutcome}

omit [MessageMemory μ] in
/-- The replies delivered so far, if an attempt sends the reply unless it was sent before. -/
theorem Records.delivered_add (h : Records s.dispatcher s.addressWaits s.thread resumed i)
    (hregisters : s.registers = i.registers) (hfresh : s.replies = [])
    (hreplies : t.replies.length = s.replies.length +
      if i.svc.replyTarget s.registers ≠ 0 ∧ s.thread ∉ s.dispatcher.replySent then 1 else 0) :
    i.delivered + t.replies.length = if i.Sends then 1 else 0 := by
  have hsent := h.sent
  rw [hreplies, h.delivered, hfresh, hregisters]
  simp only [Invocation.Sends] at hsent ⊢
  by_cases hsends : i.svc.replyTarget i.registers = 0
  · simp [hsends]
  · by_cases hresumed : resumed <;> simp [hsends, hresumed, hsent]

/-- Only calls on mutexes have no timeout, and these have no reply target. -/
theorem Invocation.not_sends_of_timeout (h : i.svc.timeout i.registers = none) : ¬i.Sends := by
  rw [Invocation.Sends]
  cases hsvc : i.svc <;> simp [hsvc, WaitSvc.timeout, WaitSvc.replyTarget] at h ⊢

section

variable (hbefore : Records s.dispatcher s.addressWaits s.thread resumed i)
  (hregisters : s.registers = i.registers)

include hbefore hregisters

/-- After an attempt that suspends, the tables hold the record of the invocation. -/
theorem OwnStep.records (h : OwnStep i.svc s outcome t) (hfresh : s.replies = [])
    (hstart : ¬resumed → i.started = s.dispatcher.virtualTime)
    (houtcome : outcome = .suspend .retry) :
    Records t.dispatcher t.addressWaits s.thread True (i.continued t.replies.length) := by
  have hused := hbefore.usedDeadline hstart
  cases h with
  | untouched _ hfinal | ended _ hfinal => exact absurd houtcome hfinal
  | @waits _ timeout htimeout _ hdeadlines hsent hreplies hqueued =>
    rw [hregisters] at htimeout
    rw [Invocation.usedDeadline, htimeout, bind_some] at hused
    constructor
    · intro immediate
      rw [hdeadlines, hbefore.deadlines]
      by_cases himmediate : immediate = i.svc.immediate
      · by_cases hpos : 0 < timeout
        · rw [if_pos hpos] at hused
          simpa [himmediate, hpos] using hused
        · rw [if_neg hpos] at hused
          simp [himmediate, hpos, ← hused]
      · simp [himmediate]
    · rw [hsent, hregisters, hbefore.sent]
      simp only [true_and, Invocation.Sends]
      refine or_iff_left_of_imp ?_
      rintro ⟨⟨-, hsends⟩, -⟩
      exact hsends
    · simpa using hbefore.delivered_add hregisters hfresh hreplies
    · intro _ hsvc
      have hqueued := hqueued hsvc
      rwa [SvcState.register, hregisters] at hqueued
  | queues htimeout hdeadlines hsent hreplies =>
    rw [hregisters] at htimeout
    have hsends := Invocation.not_sends_of_timeout htimeout
    have hdeadline : i.deadline = none := by rw [Invocation.deadline, htimeout]; rfl
    constructor
    · intro immediate
      simp [hdeadlines, hbefore.deadlines, hdeadline]
    · simp [hsent, hbefore.sent, hsends]
    · simp [hbefore.delivered, hreplies, hfresh, hsends]
    · intro _ hsvc
      rw [Invocation.svc_continued] at hsvc
      simp [hsvc, WaitSvc.timeout] at htimeout

/-- After a final attempt that does not leak, the tables hold nothing for the thread, and the
reply was delivered. -/
theorem OwnStep.cleared (h : OwnStep i.svc s outcome t) (hfresh : s.replies = [])
    (hgood : i.svc.EndsEarly s → ¬i.Sends ∧ (resumed → i.deadline = none))
    (hfinal : outcome ≠ .suspend .retry) :
    Cleared t.dispatcher s.thread ∧ (i.Sends → (i.continued t.replies.length).delivered = 1) := by
  cases h with
  | untouched hearly _ hdeadlines hsent hreplies =>
    obtain ⟨hsends, hdeadline⟩ := hgood hearly
    refine ⟨⟨fun immediate ↦ ?_, ?_⟩, fun h ↦ absurd h hsends⟩
    · rw [hdeadlines, hbefore.deadlines]
      split
      · rename_i h
        exact hdeadline h.1
      · rfl
    · rw [hsent, hbefore.sent]
      exact fun h ↦ hsends h.2
  | ended _ _ hdeadlines hsent hreplies =>
    refine ⟨⟨fun immediate ↦ ?_, fun hmem ↦ ?_⟩, fun hsends ↦ ?_⟩
    · rw [hdeadlines, hbefore.deadlines]
      by_cases himmediate : immediate = i.svc.immediate <;> simp [himmediate]
    · obtain ⟨hmem, hsvc⟩ := hsent hmem
      have hsends := (hbefore.sent.mp hmem).2
      rw [Invocation.Sends] at hsends
      cases h : i.svc with
      | replyAndReceive userBuffer => exact hsvc userBuffer h
      | lock | waitSynchronization => simp [h, WaitSvc.replyTarget] at hsends
    · rw [Invocation.continued, hbefore.delivered_add hregisters hfresh hreplies, if_pos hsends]
  | waits | queues => exact absurd rfl hfinal

/-- A final attempt that leaks leaves something in the tables, or has delivered nothing. -/
theorem OwnStep.not_cleared (h : OwnStep i.svc s outcome t) (hfresh : s.replies = [])
    (hearly : i.svc.EndsEarly s) (hleaks : i.Sends ∨ resumed ∧ i.deadline ≠ none) :
    outcome ≠ .suspend .retry ∧
      ¬(t.dispatcher.waitDeadlines[WaitKey.mk s.thread i.svc.immediate]? = none ∧
        s.thread ∉ t.dispatcher.replySent ∧
        (i.Sends → (i.continued t.replies.length).delivered = 1)) := by
  cases h with
  | untouched _ hfinal hdeadlines hsent hreplies =>
    refine ⟨hfinal, ?_⟩
    rw [hdeadlines, hbefore.deadlines, hsent, hbefore.sent]
    rintro ⟨hdeadline, hmark, hdelivered⟩
    rcases hleaks with hsends | ⟨hresumed, hne⟩
    · -- the mark of an earlier attempt is still there, or there was none and no reply was sent
      have hresumed : ¬resumed := fun h ↦ hmark ⟨h, hsends⟩
      simpa [hbefore.delivered, hreplies, hfresh, hresumed] using hdelivered hsends
    · rw [if_pos ⟨hresumed, rfl⟩] at hdeadline
      exact absurd hdeadline hne
  | ended hlate => exact absurd hearly hlate
  | waits _ hlate =>
    -- a thread that waits at a key is queued there
    have hsvc := hlate hearly
    have hresumed : resumed := by
      rcases hleaks with hsends | ⟨hresumed, -⟩
      · simp [Invocation.Sends, hsvc, WaitSvc.replyTarget] at hsends
      · exact hresumed
    obtain ⟨haligned, hqueued⟩ := hbefore.queued hresumed hsvc
    rw [hsvc, WaitSvc.EndsEarly, SvcState.register, hregisters, hqueued] at hearly
    rcases hearly with hmisaligned | hmissing
    · exact absurd haligned hmisaligned
    · cases hmissing
  | queues htimeout =>
    rw [hregisters] at htimeout
    rcases hleaks with hsends | ⟨-, hne⟩
    · exact absurd hsends (Invocation.not_sends_of_timeout htimeout)
    · rw [Invocation.deadline, htimeout] at hne
      exact absurd rfl hne

end

end

/-! ## Runs -/

/-- The tables hold nothing but the records of the suspended invocations. -/
structure RetryWorld.Recorded (w : RetryWorld) : Prop where
  idle : ∀ thread, w.waiting thread = none → Cleared w.dispatcher thread
  suspended : ∀ thread i, w.waiting thread = some i →
    Records w.dispatcher w.addressWaits thread True i

section

variable {μ : Type} [MessageMemory μ] {w w' : RetryWorld} {input : RetryInput μ}
  {outcome : ExceptionDispatchOutcome}

theorem exists_step_of_retryWorld (h : retryWorld w input = some (outcome, w')) :
    ∃ t, KeepsOthers (w.entered input) t ∧
      OwnStep (w.invocation input).svc (w.entered input) outcome t ∧
      w' = w.attempted input outcome t := by
  rw [retryWorld, map_eq_some_iff] at h
  obtain ⟨⟨outcome', t'⟩, hattempt, hanswer⟩ := h
  obtain ⟨rfl, rfl⟩ := Prod.mk.inj hanswer
  rcases attempt_of_wp ((w.invocation input).svc.handle_spec (w.entered input)) with
    ⟨outcome, t, ⟨hothers, hown⟩, hattempt'⟩ | ⟨-, hpanic⟩
  · cases hattempt.symm.trans hattempt'
    refine ⟨t.mapDispatcher (·.routed t.thread outcome'), ?_, hown.routed, rfl⟩
    exact ⟨hothers.deadlines, hothers.replySent, hothers.queued⟩
  · rw [hpanic] at hattempt
    cases hattempt

variable {thread : GuestThreadId}

omit [MessageMemory μ] in
/-- The time is no part of a record. -/
theorem Records.entered {resumed : Prop} [Decidable resumed] {i : Invocation}
    (h : Records w.dispatcher w.addressWaits thread resumed i) (input : RetryInput μ) :
    Records (w.entered input).dispatcher (w.entered input).addressWaits thread resumed i :=
  ⟨h.deadlines, h.sent, h.delivered, h.queued⟩

omit [MessageMemory μ] in
/-- The record of the invocation that an attempt belongs to. -/
theorem RetryWorld.Recorded.records (h : w.Recorded) (input : RetryInput μ) :
    Records w.dispatcher w.addressWaits input.thread ((w.waiting input.thread).isSome = true)
      (w.invocation input) := by
  cases hwaiting : w.waiting input.thread with
  | none =>
    obtain ⟨hdeadlines, hsent⟩ := h.idle _ hwaiting
    have hinvocation : w.invocation input = ⟨input.svc, input.registers, input.now, 0⟩ := by
      rw [invocation, hwaiting]
      rfl
    exact ⟨fun immediate ↦ by simpa using hdeadlines immediate, by simpa using hsent,
      by simp [hinvocation], by simp⟩
  | some i =>
    have hrecord := h.suspended _ i hwaiting
    have hinvocation : w.invocation input = i := by
      rw [invocation, hwaiting]
      rfl
    rw [hinvocation]
    exact ⟨by simpa using hrecord.deadlines, by simpa using hrecord.sent,
      by simpa using hrecord.delivered, by simpa using hrecord.queued⟩

omit [MessageMemory μ] in
theorem RetryWorld.started_invocation
    (h : ¬(w.waiting input.thread).isSome = true) :
    (w.invocation input).started = (w.entered input).dispatcher.virtualTime := by
  rw [Bool.not_eq_true, isSome_eq_false_iff, isNone_iff_eq_none] at h
  rw [invocation, h]
  rfl

omit [MessageMemory μ] in
/-- An attempt concerns the record of no other thread. -/
theorem KeepsOthers.records {s t : SvcState μ} {i : Invocation} (h : KeepsOthers s t)
    (hne : thread ≠ s.thread) (hbefore : Records s.dispatcher s.addressWaits thread True i) :
    Records t.dispatcher t.addressWaits thread True i where
  deadlines immediate := (h.deadlines ⟨thread, immediate⟩ hne).trans (hbefore.deadlines immediate)
  sent := (h.replySent thread hne).trans hbefore.sent
  delivered := hbefore.delivered
  queued hresumed hsvc := by
    rw [h.queued _ _ hne]
    exact hbefore.queued hresumed hsvc

theorem RetryWorld.Recorded.step (hw : w.Recorded) (hgood : ¬w.Leaks input)
    (h : retryWorld w input = some (outcome, w')) : w'.Recorded ∧ w'.Settled := by
  obtain ⟨t, hothers, hown, rfl⟩ := exists_step_of_retryWorld h
  have hbefore := (hw.records input).entered input
  have hcleared := hown.cleared hbefore rfl rfl fun hearly ↦ by
    simpa [Leaks, hearly] using hgood
  have hwaiting (thread : GuestThreadId) (hne : thread ≠ input.thread) :
      (w.attempted input outcome t).waiting thread = w.waiting thread := if_neg hne
  have hself : (w.attempted input outcome t).waiting input.thread =
      if outcome = .suspend .retry then some ((w.invocation input).continued t.replies.length)
      else none := if_pos rfl
  refine ⟨⟨fun thread hidle ↦ ?_, fun thread i hsuspended ↦ ?_⟩, ?_⟩
  · by_cases hthread : thread = input.thread
    · subst hthread
      rw [hself] at hidle
      split at hidle
      · cases hidle
      · rename_i hfinal
        exact (hcleared hfinal).1
    · rw [hwaiting thread hthread] at hidle
      obtain ⟨hdeadlines, hsent⟩ := hw.idle thread hidle
      exact ⟨fun immediate ↦
        (hothers.deadlines ⟨thread, immediate⟩ hthread).trans (hdeadlines immediate),
        fun hmem ↦ hsent ((hothers.replySent thread hthread).mp hmem)⟩
  · by_cases hthread : thread = input.thread
    · subst hthread
      rw [hself] at hsuspended
      split at hsuspended
      · rename_i houtcome
        cases hsuspended
        exact hown.records hbefore rfl rfl started_invocation houtcome
      · cases hsuspended
    · rw [hwaiting thread hthread] at hsuspended
      exact hothers.records hthread ((hw.suspended thread i hsuspended).entered input)
  · rintro a ha
    cases ha
    refine ⟨hbefore.usedDeadline started_invocation, fun hfinal ↦ ?_⟩
    obtain ⟨⟨hdeadlines, hsent⟩, hdelivered⟩ := hcleared (by simpa using hfinal)
    exact ⟨hdeadlines _, hsent, hdelivered⟩

theorem RetryWorld.Recorded.not_settled (hw : w.Recorded) (hbad : w.Leaks input)
    (h : retryWorld w input = some (outcome, w')) : ¬w'.Settled := by
  obtain ⟨t, -, hown, rfl⟩ := exists_step_of_retryWorld h
  obtain ⟨hearly, hleaks⟩ := hbad
  obtain ⟨hfinal, hnot⟩ := hown.not_cleared ((hw.records input).entered input) rfl rfl hearly hleaks
  intro hsettled
  exact hnot ((hsettled _ rfl).2 (by simpa using hfinal))

/-- **Records end with their calls.** In a run of any number of threads, every attempt goes by the
deadline of its own invocation, every final attempt leaves nothing in the tables and has the reply
delivered exactly once, in exactly those runs in which no attempt ends early that has something on
record or a reply to send. -/
theorem settled_run_iff {es : List (RetryInput μ × ExceptionDispatchOutcome)}
    (h : Machine.Run retryWorld .new es w') :
    Machine.Throughout retryWorld RetryWorld.Settled .new es ↔
      Machine.Along retryWorld (fun w input ↦ ¬w.Leaks input) .new (es.map Prod.fst) := by
  refine throughout_iff_along (I := fun w ↦ w.Recorded ∧ w.Settled) (fun w hw ↦ hw.2)
    (fun w input outcome w' hw hgood h ↦ hw.1.step hgood h)
    (fun w input outcome w' hw hbad h ↦ hw.1.not_settled (Classical.not_not.mp hbad) h) ?_ h
  refine ⟨⟨fun thread _ ↦ ⟨fun _ ↦ ?_, ?_⟩, nofun⟩, nofun⟩
  · exact ExtTreeMap.getElem?_empty
  · exact ExtTreeSet.not_mem_empty

end

/-- Memory that holds one word everywhere. -/
structure UniformMemory where
  word : Nat

instance : MessageMemory UniformMemory where
  readWord memory _ := .ok memory.word
  writeWord memory _ _ _ := .ok memory
  readBytes _ _ length := .ok (List.replicate length 0)
  writeBytes memory _ _ := .ok memory

/-- The environment of a process with the handles `handles`, in which no event is signalled. -/
def quietEnvironment (handles : HandleTable) : SvcState UniformMemory where
  dispatcher := .new
  thread := 7
  registers _ := 0
  tls := 0
  processId := 1
  memory := ⟨firstHandle⟩
  addressWaits := .empty
  handles := handles
  events _ := false
  completions _ := false
  ports _ := .createPair 0 false
  sessions _ := .createPairWithKind false
  reserves _ := true
  replies := []

/-- WaitSynchronization on one handle, with a timeout of 100 ns. -/
def timedWait (now : Nat) (handles : HandleTable) : RetryInput UniformMemory where
  thread := 7
  now := now
  svc := .waitSynchronization
  registers index := if index = 2 then 1 else if index = 3 then 100 else 0
  environment := quietEnvironment handles

/-- The handle is closed while the thread waits on it. -/
def closedHandle : List (RetryInput UniformMemory) :=
  [timedWait 10 (HandleTable.new.stored firstHandle (.readableEvent 3)),
    timedWait 20 HandleTable.new]

theorem settled_run_closedHandle :
    ∃ es w', Machine.exec retryWorld .new closedHandle = some (es, w') ∧
      (Machine.Throughout retryWorld RetryWorld.Settled .new es ↔
        Machine.Along retryWorld (fun w input ↦ ¬w.Leaks input) .new (es.map Prod.fst)) := by
  have hexec : (exec retryWorld .new closedHandle).isSome = true := by rfl
  obtain ⟨⟨es, w'⟩, hexec⟩ := isSome_iff_exists.mp hexec
  exact ⟨es, w', hexec, settled_run_iff (run_of_exec hexec)⟩

/-- The deadline of the wait is left behind. -/
theorem exists_stale_deadline :
    ¬∀ (es : List (RetryInput UniformMemory × ExceptionDispatchOutcome)) (w' : RetryWorld),
      Machine.Run retryWorld .new es w' →
        Machine.Throughout retryWorld RetryWorld.Settled .new es := by
  intro h
  have hlast : (exec retryWorld .new closedHandle).map
      (fun r ↦ (r.2.last.map fun a ↦ (a.thread, a.invocation.svc, a.final),
        r.2.dispatcher.waitDeadlines[WaitKey.mk 7 waitSynchronizationImmediate]?)) =
      some (some (7, .waitSynchronization, true), some 110) := by rfl
  obtain ⟨⟨es, w'⟩, hexec, hlast⟩ := map_eq_some_iff.mp hlast
  obtain ⟨hlast, hdeadline⟩ := Prod.mk.inj hlast
  obtain ⟨a, ha, hshape⟩ := map_eq_some_iff.mp hlast
  simp only [Prod.mk.injEq] at hshape
  obtain ⟨hthread, hsvc, hfinal⟩ := hshape
  have hrun := run_of_exec hexec
  have hsettled : w'.Settled := h es w' hrun es [] w' (List.append_nil es).symm hrun
  have hnone := ((hsettled a ha).2 hfinal).1
  rw [hthread, hsvc] at hnone
  exact absurd (hnone.symm.trans hdeadline) nofun

end Nixe.Horizon
