import Nixe.Effect.Threads
import Nixe.Scheduler.State

/-!
# External events

`external_event.rs` and `handle/event.rs`: waits of guest threads are registered as observers of
event objects, and the first event of a wait that is signalled publishes one wake message into a
bounded inbox.

Every access to an atomic flag and every lock section of the source is one step of the thread that
runs it. The places of a thread are the points between them, so that any other thread may come in
there. The numbers of waiters on the condition variable of an event are left out; they are for
`wait_until`, which does not take part in the delivery.

## Callbacks

The closure that `watch_readable_event` registers is the record of what it captures, a `Watcher`.
Who runs it goes on in one of two ways: `signal` with the other watchers it has taken, `watch` with
the registration it returns.
-/

namespace Nixe.Runtime

open Std Scheduler

/-! ## The inbox -/

inductive ExternalEventSource where
  | timer
  | device
  | gpuCompletion
  | display
  | input
  | ipc
  | worker
  deriving DecidableEq, Repr

inductive ExternalEvent where
  | hostStop
  | wake (source : ExternalEventSource) (token : WakeToken)
  | cancelWait (token : WakeToken)
  deriving DecidableEq, Repr

structure SequencedExternalEvent where
  sequence : Nat
  event : ExternalEvent
  deriving DecidableEq, Repr

inductive ExternalEventSendError where
  | zeroCapacity
  | full
  | closed
  | hostDeadlineUnsupported
  | sequenceExhausted
  deriving DecidableEq, Repr

/-- A bounded channel, as `sync_channel` makes it. -/
structure SyncChannel (α : Type) where
  capacity : Nat
  queue : List α

/-- `SyncSender::try_send`, with the receiver alive. -/
def SyncChannel.trySend {α : Type} (c : SyncChannel α) (a : α) : Option (SyncChannel α) :=
  if c.queue.length < c.capacity then some { c with queue := c.queue ++ [a] } else none

structure EventPublication where
  sender : SyncChannel SequencedExternalEvent
  nextSequence : Nat

/-- `EventPublication::publish`, with the message that was sent. -/
def EventPublication.publish (p : EventPublication) (event : ExternalEvent) :
    Except ExternalEventSendError (SequencedExternalEvent × EventPublication) :=
  let sequence := p.nextSequence
  match checkedAdd sequence 1 with
  | none => .error .sequenceExhausted
  | some next =>
    match p.sender.trySend ⟨sequence, event⟩ with
    | none => .error .full
    | some sender => .ok (⟨sequence, event⟩, ⟨sender, next⟩)

/-! ## Events and wait groups -/

abbrev EventId := Nat

/-- Which of the wait groups ever allocated. -/
abbrev GroupId := Nat

/-- What the callback of `watch_readable_event` captures. -/
structure Watcher where
  group : GroupId
  source : ExternalEventSource
  token : WakeToken
  deriving DecidableEq, Repr

def Watcher.message (w : Watcher) : ExternalEvent := .wake w.source w.token

/-- `EventWatchRegistration` -/
structure EventWatchRegistration where
  event : EventId
  id : Nat
  deriving DecidableEq, Repr

structure EventState where
  signalled : Bool
  source : Option ExternalEventSource
  nextWatcherId : Nat
  watchers : ExtTreeMap Nat Watcher

/-- `EventObject::with_source` -/
def EventState.withSource (source : Option ExternalEventSource) : EventState :=
  ⟨false, source, 1, ∅⟩

/-- `next_watcher_id.wrapping_add(1).max(1)` -/
def EventState.nextId (event : EventState) : EventState :=
  { event with nextWatcherId := max ((event.nextWatcherId + 1) % wordBound) 1 }

def EventState.insertWatcher (event : EventState) (w : Watcher) : EventState :=
  { event.nextId with watchers := event.watchers.insert event.nextWatcherId w }

structure ExternalWaitGroup where
  won : Bool
  registrations : List EventWatchRegistration
  deriving DecidableEq, Repr

/-- `ExternalWaitGroup::new` -/
def ExternalWaitGroup.new : ExternalWaitGroup := ⟨false, []⟩

/-- What has happened so far, which no step of the program reads. -/
structure DeliveryHistory where
  /-- The messages sent, with the wait group whose callback sent them. -/
  published : List (SequencedExternalEvent × Option GroupId)
  received : List SequencedExternalEvent
  /-- The groups that have been registered at an event. -/
  registered : EventId → List GroupId
  /-- The groups for which one of their events has been signalled. -/
  signalled : List GroupId

structure EventDelivery where
  publication : EventPublication
  overflowed : Bool
  waitGroups : WakeToken → Option GroupId
  groups : GroupId → ExternalWaitGroup
  nextGroup : GroupId
  events : EventId → EventState
  history : DeliveryHistory

/-- `ExternalEventInbox::bounded`, over events with the given sources. -/
def EventDelivery.bounded (capacity : Nat) (source : EventId → Option ExternalEventSource) :
    EventDelivery :=
  ⟨⟨⟨capacity, []⟩, 1⟩, false, fun _ ↦ none, fun _ ↦ .new, 0, fun e ↦ .withSource (source e),
    ⟨[], [], fun _ ↦ [], []⟩⟩

namespace EventDelivery

variable (s : EventDelivery)

/-- The changes that the lock sections make to one event, one group and the table of groups. -/
def setEvent (e : EventId) (event : EventState) : EventDelivery :=
  { s with events := Function.update s.events e event }

def setGroup (g : GroupId) (group : ExternalWaitGroup) : EventDelivery :=
  { s with groups := Function.update s.groups g group }

def setWon (g : GroupId) : EventDelivery :=
  s.setGroup g { s.groups g with won := true }

def setWaitGroup (token : WakeToken) (g : Option GroupId) : EventDelivery :=
  { s with waitGroups := Function.update s.waitGroups token g }

/-- An event of these groups has been signalled. -/
def noteSignalled (groups : List GroupId) : EventDelivery :=
  { s with history := { s.history with signalled := s.history.signalled ++ groups } }

def noteRegistered (e : EventId) (g : GroupId) : EventDelivery :=
  { s with
    history := { s.history with
      registered := Function.update s.history.registered e (g :: s.history.registered e) } }

/-- The state after a message was sent for `origin`. -/
def sent (message : SequencedExternalEvent) (origin : Option GroupId)
    (publication : EventPublication) : EventDelivery :=
  { s with
    publication
    history := { s.history with published := s.history.published ++ [(message, origin)] } }

/-- The state after the receiver has taken the first message and left the rest. -/
def taken (message : SequencedExternalEvent) (queue : List SequencedExternalEvent) :
    EventDelivery :=
  { s with
    publication := { s.publication with sender := { s.publication.sender with queue } }
    history := { s.history with received := s.history.received ++ [message] } }

/-- `Receiver::try_recv` -/
def receive : Option SequencedExternalEvent × EventDelivery :=
  match s.publication.sender.queue with
  | [] => (none, s)
  | message :: queue => (some message, s.taken message queue)

def newGroup (token : WakeToken) : EventDelivery :=
  { (s.setWaitGroup token (some s.nextGroup)).setGroup s.nextGroup .new with
    nextGroup := s.nextGroup + 1 }

/-- `wait_groups.entry(token).or_insert_with(ExternalWaitGroup::new)` -/
def waitGroup (token : WakeToken) : GroupId × EventDelivery :=
  match s.waitGroups token with
  | some g => (g, s)
  | none => (s.nextGroup, s.newGroup token)

end EventDelivery

/-! ## The steps -/

/-- How a thread goes on after a callback. -/
inductive Callback where
  /-- `signal` runs the other watchers. -/
  | signal (rest : List Watcher)
  /-- `watch` returns the registration, which is then added to the group. -/
  | watch (group : GroupId) (registration : EventWatchRegistration)
  deriving DecidableEq, Repr

inductive DeliveryPlace where
  | idle
  /-- `signal` after the store of the flag. -/
  | signalling (e : EventId)
  /-- A callback before it swaps `won`. -/
  | notifying (watcher : Watcher) (next : Callback)
  /-- A callback that has won, before it publishes. -/
  | publishing (watcher : Watcher) (next : Callback)
  /-- A callback that could not publish. -/
  | overflowing (next : Callback)
  /-- `watch_readable_event` after it has got the group. -/
  | watching (e : EventId) (watcher : Watcher)
  /-- `ExternalWaitGroup::add` -/
  | adding (group : GroupId) (registration : EventWatchRegistration)
  /-- `ExternalWaitGroup::cancel`, before the store of `won` and after it. -/
  | cancelling (group : GroupId)
  | clearing (group : GroupId)
  /-- The registrations of a group that are being dropped. -/
  | dropping (group : GroupId) (registrations : List EventWatchRegistration)
  /-- `try_recv_sequenced` after it has found no overflow. -/
  | receiving
  deriving DecidableEq, Repr

/-- `for watcher in watchers.into_values()` -/
def runWatchers : List Watcher → DeliveryPlace
  | [] => .idle
  | w :: rest => .notifying w (.signal rest)

def Callback.resume : Callback → DeliveryPlace
  | .signal rest => runWatchers rest
  | .watch g r => .adding g r

inductive DeliveryCall where
  | signal (e : EventId)
  | clear (e : EventId)
  | watchReadableEvent (e : EventId) (deadline : Bool) (token : WakeToken)
      (source : ExternalEventSource)
  | cancelWatchers (token : WakeToken)
  | submit (event : ExternalEvent)
  | tryRecvSequenced
  | recvSequencedTimeout
  /-- The next step of the call that is running. -/
  | resume
  deriving DecidableEq, Repr

inductive DeliveryAnswer where
  | done
  | rejected (error : ExternalEventSendError)
  | received (message : Option SequencedExternalEvent)
  deriving DecidableEq, Repr

/-- `ExternalEventSender::submit` -/
def submit (s : EventDelivery) (event : ExternalEvent) : DeliveryAnswer × EventDelivery :=
  match s.publication.publish event with
  | .error error => (.rejected error, s)
  | .ok (message, publication) => (.done, s.sent message none publication)

/-- The start of a call. -/
def startCall (s : EventDelivery) :
    DeliveryCall → Option (DeliveryAnswer × DeliveryPlace × EventDelivery)
  | .signal e =>
    some (.done, .signalling e,
      (s.setEvent e { s.events e with signalled := true }).noteSignalled
        (s.history.registered e))
  | .clear e => some (.done, .idle, s.setEvent e { s.events e with signalled := false })
  | .watchReadableEvent e deadline token source =>
    if deadline then some (.rejected .hostDeadlineUnsupported, .idle, s)
    else
      let source := (s.events e).source.getD source
      let (g, s) := s.waitGroup token
      some (.done, .watching e ⟨g, source, token⟩, s)
  | .cancelWatchers token =>
    match s.waitGroups token with
    | none => some (.done, .idle, s)
    | some g => some (.done, .cancelling g, s.setWaitGroup token none)
  | .submit event =>
    let (answer, s) := submit s event
    some (answer, .idle, s)
  | .tryRecvSequenced =>
    if s.overflowed then some (.rejected .full, .idle, { s with overflowed := false })
    else some (.done, .receiving, s)
  | .recvSequencedTimeout =>
    let (message, s) := s.receive
    some (.received message, .idle, s)
  | .resume => none

/-- The lock section of `EventObject::signal`: all watchers are taken, in the order of their ids. -/
def takeWatchers (s : EventDelivery) (e : EventId) : DeliveryPlace × EventDelivery :=
  (runWatchers ((s.events e).watchers.toList.map Prod.snd),
    (s.setEvent e { s.events e with watchers := ∅ }).noteSignalled (s.history.registered e))

/-- The lock section of `EventObject::watch`. -/
def watch (s : EventDelivery) (e : EventId) (w : Watcher) : DeliveryPlace × EventDelivery :=
  let event := s.events e
  let id := event.nextWatcherId
  let s := s.noteRegistered e w.group
  if event.signalled then
    (.notifying w (.watch w.group ⟨e, id⟩), (s.setEvent e event.nextId).noteSignalled [w.group])
  else (.adding w.group ⟨e, id⟩, s.setEvent e (event.insertWatcher w))

/-- `Drop for EventWatchRegistration` -/
def dropRegistration (s : EventDelivery) (r : EventWatchRegistration) : EventDelivery :=
  s.setEvent r.event
    { s.events r.event with watchers := (s.events r.event).watchers.erase r.id }

/-- The next step of a call. -/
def resumeCall (s : EventDelivery) :
    DeliveryPlace → Option (DeliveryAnswer × DeliveryPlace × EventDelivery)
  | .idle => none
  | .signalling e => some (.done, takeWatchers s e)
  | .notifying w next =>
    if (s.groups w.group).won then some (.done, next.resume, s)
    else some (.done, .publishing w next, s.setWon w.group)
  | .publishing w next =>
    match s.publication.publish w.message with
    | .ok (message, publication) =>
      some (.done, next.resume, s.sent message (some w.group) publication)
    | .error _ => some (.done, .overflowing next, s)
  | .overflowing next => some (.done, next.resume, { s with overflowed := true })
  | .watching e w => some (.done, watch s e w)
  | .adding g r =>
    if (s.groups g).won then some (.done, .dropping g [r], s)
    else
      some (.done, .idle,
        s.setGroup g { s.groups g with registrations := (s.groups g).registrations ++ [r] })
  | .cancelling g => some (.done, .clearing g, s.setWon g)
  | .clearing g =>
    some (.done, .dropping g (s.groups g).registrations,
      s.setGroup g { s.groups g with registrations := [] })
  | .dropping _ [] => some (.done, .idle, s)
  | .dropping g (r :: rest) => some (.done, .dropping g rest, dropRegistration s r)
  | .receiving =>
    let (message, s) := s.receive
    some (.received message, .idle, s)

variable {ι : Type}

def deliveryStep : ThreadStep ι EventDelivery DeliveryPlace DeliveryCall DeliveryAnswer :=
  fun _ call place s ↦
    match place, call with
    | .idle, call => startCall s call
    | place, .resume => resumeCall s place
    | _, _ => none

abbrev DeliveryThreads (ι : Type) := Threads ι EventDelivery DeliveryPlace

def initialDelivery (capacity : Nat) (source : EventId → Option ExternalEventSource) :
    DeliveryThreads ι :=
  ⟨.bounded capacity source, fun _ ↦ .idle⟩

/-! ## What a step can do -/

/-- Nothing changes that has to do with the wait groups and the messages. -/
structure EventDelivery.SameDelivery (s s' : EventDelivery) : Prop where
  publication : s'.publication = s.publication
  groups : s'.groups = s.groups
  waitGroups : s'.waitGroups = s.waitGroups
  nextGroup : s'.nextGroup = s.nextGroup
  watchers : ∀ e, (s'.events e).watchers = (s.events e).watchers
  history : s'.history = s.history

/-- The effects of the steps, with what each of them finds. -/
inductive DeliveryEffect (s : EventDelivery) :
    DeliveryPlace → DeliveryPlace → EventDelivery → Prop
  | quiet {place place' : DeliveryPlace} {s' : EventDelivery} (hsame : s.SameDelivery s')
      (hplace : place = .idle ∨ place = .receiving)
      (hplace' : place' = .idle ∨ place' = .receiving) : DeliveryEffect s place place' s'
  | submit {event : ExternalEvent} {message : SequencedExternalEvent}
      {publication : EventPublication}
      (hpublish : s.publication.publish event = .ok (message, publication)) :
      DeliveryEffect s .idle .idle (s.sent message none publication)
  | receive {place : DeliveryPlace} {message : SequencedExternalEvent}
      {queue : List SequencedExternalEvent} (hplace : place = .idle ∨ place = .receiving)
      (hqueue : s.publication.sender.queue = message :: queue) :
      DeliveryEffect s place .idle (s.taken message queue)
  | signal (e : EventId) :
      DeliveryEffect s .idle (.signalling e)
        ((s.setEvent e { s.events e with signalled := true }).noteSignalled
          (s.history.registered e))
  | take (e : EventId) : DeliveryEffect s (.signalling e) (takeWatchers s e).1 (takeWatchers s e).2
  | lose (w : Watcher) (next : Callback) (hwon : (s.groups w.group).won = true) :
      DeliveryEffect s (.notifying w next) next.resume s
  | win (w : Watcher) (next : Callback) (hwon : (s.groups w.group).won = false) :
      DeliveryEffect s (.notifying w next) (.publishing w next) (s.setWon w.group)
  | publish {message : SequencedExternalEvent} {publication : EventPublication} (w : Watcher)
      (next : Callback)
      (hpublish : s.publication.publish w.message = .ok (message, publication)) :
      DeliveryEffect s (.publishing w next) next.resume
        (s.sent message (some w.group) publication)
  | fail {error : ExternalEventSendError} (w : Watcher) (next : Callback)
      (hpublish : s.publication.publish w.message = .error error) :
      DeliveryEffect s (.publishing w next) (.overflowing next) s
  | overflow (next : Callback) :
      DeliveryEffect s (.overflowing next) next.resume { s with overflowed := true }
  | join (e : EventId) (w : Watcher) (htoken : s.waitGroups w.token = some w.group) :
      DeliveryEffect s .idle (.watching e w) s
  | create (e : EventId) (w : Watcher) (htoken : s.waitGroups w.token = none)
      (hgroup : w.group = s.nextGroup) :
      DeliveryEffect s .idle (.watching e w) (s.newGroup w.token)
  | ready (e : EventId) (w : Watcher) :
      DeliveryEffect s (.watching e w)
        (.notifying w (.watch w.group ⟨e, (s.events e).nextWatcherId⟩))
        (((s.noteRegistered e w.group).setEvent e (s.events e).nextId).noteSignalled [w.group])
  | register (e : EventId) (w : Watcher) :
      DeliveryEffect s (.watching e w) (.adding w.group ⟨e, (s.events e).nextWatcherId⟩)
        ((s.noteRegistered e w.group).setEvent e ((s.events e).insertWatcher w))
  | reject (g : GroupId) (r : EventWatchRegistration) (hwon : (s.groups g).won = true) :
      DeliveryEffect s (.adding g r) (.dropping g [r]) s
  | add (g : GroupId) (r : EventWatchRegistration) (hwon : (s.groups g).won = false) :
      DeliveryEffect s (.adding g r) .idle
        (s.setGroup g { s.groups g with registrations := (s.groups g).registrations ++ [r] })
  | remove (token : WakeToken) (g : GroupId) (htoken : s.waitGroups token = some g) :
      DeliveryEffect s .idle (.cancelling g) (s.setWaitGroup token none)
  | cancel (g : GroupId) : DeliveryEffect s (.cancelling g) (.clearing g) (s.setWon g)
  | clear (g : GroupId) :
      DeliveryEffect s (.clearing g) (.dropping g (s.groups g).registrations)
        (s.setGroup g { s.groups g with registrations := [] })
  | dropped (g : GroupId) : DeliveryEffect s (.dropping g []) .idle s
  | drop (g : GroupId) (r : EventWatchRegistration) (rest : List EventWatchRegistration) :
      DeliveryEffect s (.dropping g (r :: rest)) (.dropping g rest)
        (dropRegistration s r)

theorem EventDelivery.SameDelivery.refl (s : EventDelivery) : s.SameDelivery s :=
  ⟨rfl, rfl, rfl, rfl, fun _ ↦ rfl, rfl⟩

variable {s : EventDelivery} {place place' : DeliveryPlace} {answer : DeliveryAnswer}

theorem receive_effect (hplace : place = .idle ∨ place = .receiving) :
    DeliveryEffect s place .idle s.receive.2 := by
  rw [EventDelivery.receive]
  split
  · exact .quiet (.refl s) hplace (.inl rfl)
  · exact .receive hplace ‹_›

variable {s' : EventDelivery}

theorem startCall_effect {call : DeliveryCall} (h : startCall s call = some (answer, place', s')) :
    DeliveryEffect s .idle place' s' := by
  cases call with
  | signal e =>
    cases h
    exact .signal e
  | clear e =>
    cases h
    -- The flag of an event is not part of what is delivered.
    refine .quiet ⟨rfl, rfl, rfl, rfl, fun e' ↦ ?_, rfl⟩ (.inl rfl) (.inl rfl)
    simp only [EventDelivery.setEvent, Function.update_apply]
    split
    · subst e'
      rfl
    · rfl
  | watchReadableEvent e deadline token source =>
    rw [startCall] at h
    split at h
    · cases h
      exact .quiet (.refl s) (.inl rfl) (.inl rfl)
    · simp only [EventDelivery.waitGroup] at h
      split at h
      · cases h
        exact .join e _ ‹_›
      · cases h
        exact .create e _ ‹_› rfl
  | cancelWatchers token =>
    rw [startCall] at h
    split at h
    · cases h
      exact .quiet (.refl s) (.inl rfl) (.inl rfl)
    · cases h
      exact .remove token _ ‹_›
  | submit event =>
    simp only [startCall, submit] at h
    split at h
    · cases h
      exact .quiet (.refl s) (.inl rfl) (.inl rfl)
    · cases h
      exact .submit ‹_›
  | tryRecvSequenced =>
    rw [startCall] at h
    split at h
    · cases h
      exact .quiet ⟨rfl, rfl, rfl, rfl, fun _ ↦ rfl, rfl⟩ (.inl rfl) (.inl rfl)
    · cases h
      exact .quiet (.refl s) (.inl rfl) (.inr rfl)
  | recvSequencedTimeout =>
    cases h
    exact receive_effect (.inl rfl)
  | resume => cases h

theorem resumeCall_effect (h : resumeCall s place = some (answer, place', s')) :
    DeliveryEffect s place place' s' := by
  revert h
  fun_cases resumeCall s place
  case case1 => exact nofun
  case case2 e =>
    rintro ⟨⟩
    exact .take e
  case case3 w next hwon =>
    rintro ⟨⟩
    exact .lose w next hwon
  case case4 w next hwon =>
    rintro ⟨⟩
    exact .win w next (Bool.not_eq_true _ ▸ hwon)
  case case5 w next message publication hpublish =>
    rintro ⟨⟩
    exact .publish w next hpublish
  case case6 w next error hpublish =>
    rintro ⟨⟩
    exact .fail w next hpublish
  case case7 next =>
    rintro ⟨⟩
    exact .overflow next
  case case8 e w =>
    intro h
    rw [watch] at h
    split at h
    · cases h
      exact .ready e w
    · cases h
      exact .register e w
  case case9 g r hwon =>
    rintro ⟨⟩
    exact .reject g r hwon
  case case10 g r hwon =>
    rintro ⟨⟩
    exact .add g r (Bool.not_eq_true _ ▸ hwon)
  case case11 g =>
    rintro ⟨⟩
    exact .cancel g
  case case12 g =>
    rintro ⟨⟩
    exact .clear g
  case case13 g =>
    rintro ⟨⟩
    exact .dropped g
  case case14 g r rest =>
    rintro ⟨⟩
    exact .drop g r rest
  case case15 message s₁ hreceive =>
    rintro ⟨⟩
    have heffect := receive_effect (s := s) (.inr rfl)
    rwa [hreceive] at heffect

end Nixe.Runtime
