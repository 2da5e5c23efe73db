import Nixe.Horizon.Fault
import Nixe.Runtime.AddressWait
import Nixe.Runtime.Handle

/-!
# The context of a supervisor call

A supervisor call is handled by a method of the dispatcher that is given the calling thread, the
process it belongs to and the kernel objects that the process can reach. Handlers that have to
wait do not block: they end with the request to suspend the thread and to run the call again, with
the registers as they were, when the thread is woken. What such a call must remember from one
*attempt* to the next is in the tables of the dispatcher.

A handler is a `Method` whose errors are early returns, so both of its ordinary endings are an
`ExceptionDispatchOutcome`. Guest memory is abstract: a handler only reads and writes through it.
-/

namespace Nixe.Horizon

open Std Method Memory Nixe.Runtime Scheduler

/-! ## Outcomes -/

inductive ExceptionResume where
  | next
  | retry
deriving DecidableEq, Repr

/-- How the handling of a call ends; termination requests are not made by the modelled calls. -/
inductive ExceptionDispatchOutcome where
  | resume (resume : ExceptionResume)
  | suspend (resume : ExceptionResume)
  | reject (diagnostic : HorizonSvcFault)
  | fault (fault : HorizonSvcFault)
deriving DecidableEq, Repr

/-! ## Guest memory -/

/-- What a word is stored for. Stores take effect alike whatever they are for; a memory may
remember it. -/
inductive WordUse where
  /-- The tag of the thread that takes a mutex. -/
  | tag
  /-- The release of a mutex. -/
  | release
  /-- The flag that a key has waiters. -/
  | key
  /-- The old value of a key, after a failed release. -/
  | restoreKey
  /-- The old value of a mutex, after a failed release. -/
  | restoreMutex
deriving DecidableEq, Repr

/-- Accesses to words. -/
class GuestMemory (μ : Type) where
  readWord : μ → Nat → Except DataAccessFault Nat
  writeWord : μ → WordUse → Nat → Nat → Except DataAccessFault μ

/-- Accesses to words and to ranges of bytes. -/
class MessageMemory (μ : Type) extends GuestMemory μ where
  readBytes : μ → Nat → Nat → Except DataAccessFault (List UInt8)
  writeBytes : μ → Nat → List UInt8 → Except DataAccessFault μ

/-! ## The dispatcher -/

/-- The key of `wait_deadlines`: a thread and the immediate of a supervisor call. -/
structure WaitKey where
  thread : GuestThreadId
  immediate : Nat
deriving DecidableEq, Repr

instance : Ord WaitKey where
  compare := compareLex (compareOn WaitKey.thread) (compareOn WaitKey.immediate)

instance : TransOrd WaitKey :=
  inferInstanceAs (TransCmp (compareLex (compareOn WaitKey.thread) (compareOn WaitKey.immediate)))

instance : LawfulEqOrd WaitKey where
  eq_of_compare h := eq_of_compareLex (fun ⟨_, _⟩ ⟨_, _⟩ ht hi ↦ by simp_all) h

/-- An event that a suspended thread is woken by. -/
inductive WakeEvent where
  | event (event : Nat)
  | completion (thread : Nat)
  | port (port : Nat)
  | session (session : Nat)
  | handlesChanged
  | addressWaiter (address : Nat) (thread : GuestThreadId)
deriving DecidableEq, Repr

structure PendingThreadWake where
  events : List WakeEvent
  deadline : Option Nat
deriving DecidableEq, Repr

/-- The scheduler operations that the modelled calls stage. -/
inductive PendingRuntimeRequest where
  | inheritPriority (ownerObjectId waiterObjectId donationKey : Nat)
  | restorePriority (objectId donationKey : Nat)
deriving DecidableEq, Repr

structure HorizonSvcDispatcher where
  replySent : ExtTreeSet GuestThreadId
  waitDeadlines : ExtTreeMap WaitKey Nat
  virtualTime : Nat
  pendingWakes : ExtTreeMap GuestThreadId PendingThreadWake
  pendingRuntimeRequests : ExtTreeMap GuestThreadId PendingRuntimeRequest

namespace HorizonSvcDispatcher

def new : HorizonSvcDispatcher where
  replySent := ∅
  waitDeadlines := ∅
  virtualTime := 0
  pendingWakes := ∅
  pendingRuntimeRequests := ∅

variable (d : HorizonSvcDispatcher) (thread : GuestThreadId)

/-- The deadline of a wait: the one on record, or `timeout` from now. -/
def deadline (immediate : Nat) (timeout : Int) : Nat :=
  d.waitDeadlines[WaitKey.mk thread immediate]?.getD (saturatingAdd d.virtualTime timeout.toNat)

/-- `wait_expired`. A wait with a positive timeout leaves its deadline on record. -/
def waitExpired (immediate : Nat) (timeout : Int) : Bool × HorizonSvcDispatcher :=
  if timeout = 0 then (true, d)
  else if timeout < 0 then (false, d)
  else
    let deadline := d.deadline thread immediate timeout
    (decide (deadline ≤ d.virtualTime),
      { d with waitDeadlines := d.waitDeadlines.insert ⟨thread, immediate⟩ deadline })

def finishWait (immediate : Nat) : HorizonSvcDispatcher :=
  { d with
    waitDeadlines := d.waitDeadlines.erase ⟨thread, immediate⟩
    pendingWakes := d.pendingWakes.erase thread }

def finishReplyWait (immediate : Nat) : HorizonSvcDispatcher :=
  { d with replySent := d.replySent.erase thread }.finishWait thread immediate

/-- The thread is to be woken by `events`, or at the deadline on record. -/
def wakeOn (events : List WakeEvent) (deadline : Option Nat) : HorizonSvcDispatcher :=
  { d with pendingWakes := d.pendingWakes.insert thread ⟨events, deadline⟩ }

/-- `route_scheduled_supervisor_call` after the call: the staged scheduler operation is applied
and, if the thread was suspended, the staged wake is handed to the coordinator. -/
def routed (outcome : ExceptionDispatchOutcome) : HorizonSvcDispatcher :=
  { d with
    pendingRuntimeRequests := d.pendingRuntimeRequests.erase thread
    pendingWakes :=
      match outcome with
      | .suspend _ => d.pendingWakes.erase thread
      | _ => d.pendingWakes }

end HorizonSvcDispatcher

/-! ## The context -/

/-- The general registers. -/
abbrev Registers : Type := Nat → UInt64

/-- The dispatcher together with the context it is given. The kernel objects behind handles are
total functions of their identities, since an object lives as long as a handle to it. -/
structure SvcState (μ : Type) where
  dispatcher : HorizonSvcDispatcher
  thread : GuestThreadId
  registers : Registers
  /-- `TPIDRRO_EL0`, the address of the thread's message buffer. -/
  tls : Nat
  processId : Nat
  memory : μ
  addressWaits : AddressWaitRegistry
  handles : HandleTable
  events : Nat → Bool
  completions : Nat → Bool
  ports : Nat → Port
  sessions : Nat → Session HandleObject
  /-- Whether the host can allocate a buffer of a size. -/
  reserves : Nat → Bool
  /-- The sessions that this attempt has replied to. No handler reads it. -/
  replies : List Nat

/-- Handlers of supervisor calls. An error is an early return. -/
abbrev SvcM (μ : Type) : Type → Type := Method ExceptionDispatchOutcome (SvcState μ)

namespace SvcState

variable {μ : Type}

/-- `read_register`. -/
def register (s : SvcState μ) (index : Nat) : Nat := (s.registers index).toNat

/-- `read_register as u32`. -/
def register32 (s : SvcState μ) (index : Nat) : Nat := toU32 (s.registers index)

/-- `read_register as i64`. -/
def registerSigned (s : SvcState μ) (index : Nat) : Int := toI64 (s.registers index)

def writeRegister (s : SvcState μ) (index : Nat) (value : UInt64) : SvcState μ :=
  { s with registers := fun i ↦ if i = index then value else s.registers i }

/-- `result`. -/
def withResult (s : SvcState μ) (code : HorizonKernelResult) : SvcState μ :=
  s.writeRegister 0 (UInt64.ofNat code.raw)

/-- The attempt is handled by the dispatcher with the updated tables. -/
def mapDispatcher (s : SvcState μ) (f : HorizonSvcDispatcher → HorizonSvcDispatcher) :
    SvcState μ :=
  { s with dispatcher := f s.dispatcher }

def mapWaits (s : SvcState μ) (f : AddressWaitRegistry → AddressWaitRegistry) : SvcState μ :=
  { s with addressWaits := f s.addressWaits }

end SvcState

section

variable {μ α : Type}

def setResult (code : HorizonKernelResult) : SvcM μ Unit := update (·.withResult code)

/-- `result(context, code); return resume();`. -/
def finish (code : HorizonKernelResult) : SvcM μ α := do
  setResult code
  fail (.resume .next)

/-- `if c { result(context, code); return resume(); }`. -/
def finishIf (c : Prop) [Decidable c] (code : HorizonKernelResult) : SvcM μ Unit :=
  if c then finish code else pure ()

/-- `reject`: only recoverable failures may be rejected. -/
def reject (diagnostic : HorizonSvcFault) : SvcM μ α := do
  let guestResult ← expect diagnostic.guestResult
    "only recoverable Horizon failures may reject a guest operation"
  setResult guestResult
  fail (.reject diagnostic)

/-- `queue_runtime_request`, whose failure every caller returns. -/
def queueRuntimeRequest (request : PendingRuntimeRequest) (operation : String) : SvcM μ Unit := do
  let previous ← read fun s ↦ s.dispatcher.pendingRuntimeRequests[s.thread]?
  update fun s ↦ s.mapDispatcher fun d ↦
    { d with pendingRuntimeRequests := d.pendingRuntimeRequests.insert s.thread request }
  failIf (previous.isSome = true) (.fault (.internalRuntime operation))

variable [GuestMemory μ]

def readProcessWideKeyWord (address : Nat) : SvcM μ (Except DataAccessFault Nat) :=
  read fun s ↦ GuestMemory.readWord s.memory address

def writeProcessWideKeyWord (use : WordUse) (address value : Nat) :
    SvcM μ (Except DataAccessFault Unit) := fun s ↦
  match GuestMemory.writeWord s.memory use address value with
  | .ok memory => .ok (.ok ()) { s with memory := memory }
  | .error fault => .ok (.error fault) s

end

/-! ## Attempts -/

section

variable {μ : Type}

/-- The state in which `thread` makes a call at the time `now`. -/
def SvcState.entered (s : SvcState μ) (thread : GuestThreadId) (registers : Registers)
    (now : Nat) : SvcState μ :=
  { s with
    thread := thread
    registers := registers
    dispatcher := { s.dispatcher with virtualTime := now } }

/-- One attempt of a call, and the routing of its outcome. -/
def attempt (handler : SvcM μ ExceptionDispatchOutcome) (s : SvcState μ) :
    Option (ExceptionDispatchOutcome × SvcState μ) :=
  match handler s with
  | .ok outcome t | .err outcome t =>
    some (outcome, t.mapDispatcher (·.routed t.thread outcome))
  | .panic _ => none

/-- What a handler ensures of its endings is true of an attempt. -/
theorem attempt_of_wp {handler : SvcM μ ExceptionDispatchOutcome} {s : SvcState μ}
    {Q : ExceptionDispatchOutcome → SvcState μ → Prop} {p : Prop} (h : wp handler ⟨Q, Q, p⟩ s) :
    (∃ outcome t, Q outcome t ∧
      attempt handler s = some (outcome, t.mapDispatcher (·.routed t.thread outcome))) ∨
    p ∧ attempt handler s = none := by
  rw [wp] at h
  rw [attempt]
  cases hs : handler s with
  | ok outcome t | err outcome t => rw [hs] at h; exact .inl ⟨outcome, t, h, rfl⟩
  | panic message => rw [hs] at h; exact .inr ⟨h, rfl⟩

end

/-! ## Rules for the statements -/

section

variable {μ α : Type} {s : SvcState μ} {Q : Post ExceptionDispatchOutcome (SvcState μ) Unit}

@[simp] theorem wp_setResult (code : HorizonKernelResult) :
    wp (setResult code) Q s ↔ Q.ok () (s.withResult code) := Iff.rfl

@[simp] theorem wp_finish {Q : Post ExceptionDispatchOutcome (SvcState μ) α}
    (code : HorizonKernelResult) :
    wp (finish code) Q s ↔ Q.err (.resume .next) (s.withResult code) := Iff.rfl

@[simp] theorem wp_finishIf (c : Prop) [Decidable c] (code : HorizonKernelResult) :
    wp (finishIf c code) Q s ↔
      (c → Q.err (.resume .next) (s.withResult code)) ∧ (¬c → Q.ok () s) := by
  simp [finishIf]

@[simp] theorem wp_reject {Q : Post ExceptionDispatchOutcome (SvcState μ) α}
    (diagnostic : HorizonSvcFault) :
    wp (reject diagnostic) Q s ↔
      (∀ code, diagnostic.guestResult = some code →
        Q.err (.reject diagnostic) (s.withResult code)) ∧
      (diagnostic.guestResult = none → Q.panic) := by
  simp [reject]

/-- The calling thread has staged `request`. -/
def SvcState.staged (s : SvcState μ) (request : PendingRuntimeRequest) : SvcState μ :=
  s.mapDispatcher fun d ↦
    { d with pendingRuntimeRequests := d.pendingRuntimeRequests.insert s.thread request }

@[simp] theorem wp_queueRuntimeRequest (request : PendingRuntimeRequest) (operation : String) :
    wp (queueRuntimeRequest request operation) Q s ↔
      (s.thread ∈ s.dispatcher.pendingRuntimeRequests →
        Q.err (.fault (.internalRuntime operation)) (s.staged request)) ∧
      (s.thread ∉ s.dispatcher.pendingRuntimeRequests → Q.ok () (s.staged request)) := by
  simp [queueRuntimeRequest, SvcState.staged]

variable [GuestMemory μ]

@[simp] theorem wp_readProcessWideKeyWord
    {Q : Post ExceptionDispatchOutcome (SvcState μ) (Except DataAccessFault Nat)}
    (address : Nat) :
    wp (readProcessWideKeyWord address) Q s ↔
      Q.ok (GuestMemory.readWord s.memory address) s := Iff.rfl

@[simp] theorem wp_writeProcessWideKeyWord
    {Q : Post ExceptionDispatchOutcome (SvcState μ) (Except DataAccessFault Unit)}
    (use : WordUse) (address value : Nat) :
    wp (writeProcessWideKeyWord use address value) Q s ↔
      (∀ memory, GuestMemory.writeWord s.memory use address value = .ok memory →
        Q.ok (.ok ()) { s with memory := memory }) ∧
      (∀ fault, GuestMemory.writeWord s.memory use address value = .error fault →
        Q.ok (.error fault) s) := by
  rw [wp, writeProcessWideKeyWord]
  cases GuestMemory.writeWord s.memory use address value <;> simp [Outcome.Meets]

end

end Nixe.Horizon
