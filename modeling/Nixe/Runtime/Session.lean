import Nixe.Collections.Ordered
import Nixe.Effect.Machine
import Nixe.Effect.Word

/-!
# Sessions

A session is a bounded, synchronous request channel between any number of client threads, the
*owners* of requests, and one server. A request is submitted, waits in a queue, is received and
becomes the current one, and is replied to; its owner then collects the reply by polling.

The state is four containers under one lock. Dropping the last object of either endpoint runs the
lease's destructor, which clears all four. The objects that travel behind the handles of a message
are opaque here, as they are in the source, and are a type parameter.
-/

namespace Nixe.Runtime

open Std Method

/-! ## Data -/

inductive SessionEndpoint where
  | server
  | client
deriving DecidableEq, Repr

inductive SessionMessage (ο : Type) where
  | buffer (bytes : List UInt8)
  | transportedBuffer (bytes : List UInt8) (copyHandles moveHandles : List (Option ο))
  | light (words : Vector UInt32 7)
deriving DecidableEq

def SessionMessage.isLight {ο : Type} : SessionMessage ο → Bool
  | light _ => true
  | _ => false

/-- The process and the thread that issued a request. -/
structure SessionRequestOwner where
  processId : Nat
  threadId : Nat
deriving DecidableEq, Repr

instance : Ord SessionRequestOwner where
  compare := compareLex (compareOn SessionRequestOwner.processId)
    (compareOn SessionRequestOwner.threadId)

instance : TransOrd SessionRequestOwner :=
  inferInstanceAs (TransCmp (compareLex (compareOn SessionRequestOwner.processId)
    (compareOn SessionRequestOwner.threadId)))

instance : LawfulEqOrd SessionRequestOwner where
  eq_of_compare h := eq_of_compareLex (fun ⟨_, _⟩ ⟨_, _⟩ hp ht ↦ by simp_all) h

structure SessionRequest (ο : Type) where
  id : Nat
  owner : SessionRequestOwner
  message : SessionMessage ο
deriving DecidableEq

inductive SessionRequestResult (ο : Type) where
  | submitted
  | waiting
  | response (message : SessionMessage ο)
deriving DecidableEq

inductive SessionError where
  | wrongEndpoint
  | peerClosed
  | queueFull
  | noRequest
  | replyPending
  | messageKindMismatch
deriving DecidableEq, Repr

/-- Requests retained by one session before back-pressure. -/
def maxSessionRequests : Nat := 0x40

/-- A session with both its leases: the state under the lock, the wake generation, and whether the
wake event is signalled. -/
structure Session (ο : Type) where
  isLight : Bool
  serverOpen : Bool
  clientOpen : Bool
  nextRequestId : Nat
  queued : List (SessionRequest ο)
  current : Option (SessionRequest ο)
  pendingByOwner : ExtTreeMap SessionRequestOwner Nat
  responses : ExtTreeMap Nat (SessionMessage ο)
  wakeGeneration : Nat
  wakeEvent : Bool

abbrev SessionM (ο : Type) : Type → Type := Method SessionError (Session ο)

namespace Session

variable {ο : Type}

/-- `SessionObject::create_pair_with_kind`. -/
def createPairWithKind (isLight : Bool) : Session ο where
  isLight := isLight
  serverOpen := true
  clientOpen := true
  nextRequestId := 1
  queued := []
  current := none
  pendingByOwner := ∅
  responses := ∅
  wakeGeneration := 0
  wakeEvent := false

variable (s : Session ο)

def isOpen : SessionEndpoint → Bool
  | .server => s.serverOpen
  | .client => s.clientOpen

def isSignalled : SessionEndpoint → Bool
  | .server => !s.queued.isEmpty || !s.clientOpen
  | .client => !s.responses.isEmpty || !s.serverOpen

/-! ## Operations -/

/-- Advance the wake generation and signal the wake event. -/
def woken : Session ο :=
  { s with wakeGeneration := (s.wakeGeneration + 1) % wordBound, wakeEvent := true }

/-- The reply to the request `id` is handed to its owner. -/
def collected (owner : SessionRequestOwner) (id : Nat) : Session ο :=
  { s with responses := s.responses.erase id, pendingByOwner := s.pendingByOwner.erase owner }

/-- The request of `owner` is given up. -/
def abandoned (owner : SessionRequestOwner) : Session ο :=
  { s with pendingByOwner := s.pendingByOwner.erase owner }

/-- A request is queued under the next identity; the counter saturates. -/
def submitted (owner : SessionRequestOwner) (message : SessionMessage ο) : Session ο :=
  { s with
    nextRequestId := saturatingAdd s.nextRequestId 1
    pendingByOwner := s.pendingByOwner.insert owner s.nextRequestId
    queued := s.queued ++ [⟨s.nextRequestId, owner, message⟩] }

/-- The request `request` leaves the queue `request :: rest` and becomes the current one. -/
def received (request : SessionRequest ο) (rest : List (SessionRequest ο)) : Session ο :=
  { s with queued := rest, current := some request }

/-- The current request `request` is replied to. -/
def replied (request : SessionRequest ο) (message : SessionMessage ο) : Session ο :=
  { s with current := none, responses := s.responses.insert request.id message }

/-- `SessionEndpointLease::drop`. -/
def dropped (endpoint : SessionEndpoint) : Session ο :=
  woken
    { s with
      serverOpen := if endpoint = .server then false else s.serverOpen
      clientOpen := if endpoint = .client then false else s.clientOpen
      queued := []
      current := none
      responses := ∅
      pendingByOwner := ∅ }

/-- The part of `poll_request` that follows the lookup of the request. -/
def pollPending (owner : SessionRequestOwner) (id : Nat) :
    SessionM ο (Option (SessionRequestResult ο)) := do
  match ← read (·.responses[id]?) with
  | some response => do
    update (·.collected owner id)
    update woken
    pure (some (.response response))
  | none => do
    let serverOpen ← read (·.serverOpen)
    if !serverOpen then do
      update (·.abandoned owner)
      update woken
      fail .peerClosed
    else pure (some .waiting)

def pollRequest (endpoint : SessionEndpoint) (owner : SessionRequestOwner) :
    SessionM ο (Option (SessionRequestResult ο)) := do
  failIf (endpoint ≠ .client) .wrongEndpoint
  match ← read (·.pendingByOwner[owner]?) with
  | none => pure none
  | some id => pollPending owner id

/-- The part of `request` that follows the poll. -/
def submit (owner : SessionRequestOwner) (message : SessionMessage ο) :
    SessionM ο (SessionRequestResult ο) := do
  let serverOpen ← read (·.serverOpen)
  failIf (serverOpen = false) .peerClosed
  let pending ← read (·.pendingByOwner.size)
  failIf (maxSessionRequests ≤ pending) .queueFull
  update (·.submitted owner message)
  update woken
  pure .submitted

def request (endpoint : SessionEndpoint) (owner : SessionRequestOwner)
    (message : SessionMessage ο) : SessionM ο (SessionRequestResult ο) := do
  failIf (endpoint ≠ .client) .wrongEndpoint
  let isLight ← read (·.isLight)
  failIf (isLight ≠ message.isLight) .messageKindMismatch
  match ← pollRequest endpoint owner with
  | some result => pure result
  | none => submit owner message

def receive (endpoint : SessionEndpoint) : SessionM ο (SessionMessage ο) := do
  failIf (endpoint ≠ .server) .wrongEndpoint
  let current ← read (·.current)
  failIf (current.isSome = true) .replyPending
  match ← read (·.queued) with
  | [] => do
    let clientOpen ← read (·.clientOpen)
    fail (if clientOpen then .noRequest else .peerClosed)
  | request :: rest => do
    update (·.received request rest)
    update woken
    pure request.message

def reply (endpoint : SessionEndpoint) (message : SessionMessage ο) : SessionM ο Unit := do
  failIf (endpoint ≠ .server) .wrongEndpoint
  let isLight ← read (·.isLight)
  failIf (isLight ≠ message.isLight) .messageKindMismatch
  let clientOpen ← read (·.clientOpen)
  failIf (clientOpen = false) .peerClosed
  let current ← read (·.current)
  let request ← okOr current .noRequest
  let owned ← read (·.pendingByOwner[request.owner]?)
  assert (owned == some request.id) "the current request is pending"
  update (·.replied request message)
  update woken

end Session

/-! ## Calls -/

/-- A call on one of the endpoints of a session, or the end of the last object of an endpoint. -/
inductive SessionCall (ο : Type) where
  | request (endpoint : SessionEndpoint) (owner : SessionRequestOwner) (message : SessionMessage ο)
  | poll (endpoint : SessionEndpoint) (owner : SessionRequestOwner)
  | receive (endpoint : SessionEndpoint)
  | reply (endpoint : SessionEndpoint) (message : SessionMessage ο)
  | drop (endpoint : SessionEndpoint)
deriving DecidableEq

inductive SessionAnswer (ο : Type) where
  /-- There is no object of the endpoint left to make the call on. -/
  | absent
  | requested (result : SessionRequestResult ο)
  | polled (result : Option (SessionRequestResult ο))
  | received (message : SessionMessage ο)
  | replied
  | dropped
deriving DecidableEq

variable {ο : Type}

/-- The endpoint the call is made on. -/
def SessionCall.endpoint : SessionCall ο → SessionEndpoint
  | request endpoint _ _ => endpoint
  | poll endpoint _ => endpoint
  | receive endpoint => endpoint
  | reply endpoint _ => endpoint
  | drop endpoint => endpoint

/-- The call is made on the endpoint it is meant for. -/
def SessionCall.fits : SessionCall ο → Bool
  | request endpoint _ _ => endpoint == .client
  | poll endpoint _ => endpoint == .client
  | receive endpoint => endpoint == .server
  | reply endpoint _ => endpoint == .server
  | drop _ => true

namespace Session

def perform : SessionCall ο → SessionM ο (SessionAnswer ο)
  | .request endpoint owner message => do
    let result ← Session.request endpoint owner message
    pure (.requested result)
  | .poll endpoint owner => do
    let result ← pollRequest endpoint owner
    pure (.polled result)
  | .receive endpoint => do
    let message ← Session.receive endpoint
    pure (.received message)
  | .reply endpoint message => do
    Session.reply endpoint message
    pure .replied
  | .drop endpoint => do
    update (·.dropped endpoint)
    pure .dropped

/-- A call is made on an endpoint that still has an object. -/
def apply (c : SessionCall ο) : SessionM ο (SessionAnswer ο) := do
  let held ← read (·.isOpen c.endpoint)
  if held then perform c else pure .absent

end Session

/-- The session as a machine. -/
def session : Machine (Session ο) (SessionCall ο) (Except SessionError (SessionAnswer ο)) :=
  Method.machine Session.apply

/-! ## What a call does -/

/-- The outcomes of a poll. -/
inductive PollStep (s : Session ο) (owner : SessionRequestOwner) :
    Except SessionError (Option (SessionRequestResult ο)) → Session ο → Prop where
  | idle : s.pendingByOwner[owner]? = none → PollStep s owner (.ok none) s
  | collect {id : Nat} {message : SessionMessage ο} :
      s.pendingByOwner[owner]? = some id → s.responses[id]? = some message →
      PollStep s owner (.ok (some (.response message))) (s.collected owner id).woken
  | waiting {id : Nat} :
      s.pendingByOwner[owner]? = some id → s.responses[id]? = none → s.serverOpen = true →
      PollStep s owner (.ok (some .waiting)) s
  | closed {id : Nat} :
      s.pendingByOwner[owner]? = some id → s.responses[id]? = none → s.serverOpen = false →
      PollStep s owner (.error .peerClosed) (s.abandoned owner).woken

/-- The outcomes of a call, each with the guards that lead to it. -/
inductive SessionStep (s : Session ο) :
    SessionCall ο → Except SessionError (SessionAnswer ο) → Session ο → Prop where
  | absent {c : SessionCall ο} :
      s.isOpen c.endpoint = false → SessionStep s c (.ok .absent) s
  | wrongEndpoint {c : SessionCall ο} :
      s.isOpen c.endpoint = true → c.fits = false → SessionStep s c (.error .wrongEndpoint) s
  | requestKind {o : SessionRequestOwner} {m : SessionMessage ο} :
      s.clientOpen = true → s.isLight ≠ m.isLight →
      SessionStep s (.request .client o m) (.error .messageKindMismatch) s
  | requestPolled {o : SessionRequestOwner} {m : SessionMessage ο} {t : Session ο}
      {r : SessionRequestResult ο} :
      s.clientOpen = true → s.isLight = m.isLight → PollStep s o (.ok (some r)) t →
      SessionStep s (.request .client o m) (.ok (.requested r)) t
  | requestClosed {o : SessionRequestOwner} {m : SessionMessage ο} {t : Session ο}
      {e : SessionError} :
      s.clientOpen = true → s.isLight = m.isLight → PollStep s o (.error e) t →
      SessionStep s (.request .client o m) (.error e) t
  | requestRefused {o : SessionRequestOwner} {m : SessionMessage ο} :
      s.clientOpen = true → s.isLight = m.isLight → s.pendingByOwner[o]? = none →
      s.serverOpen = false → SessionStep s (.request .client o m) (.error .peerClosed) s
  | requestFull {o : SessionRequestOwner} {m : SessionMessage ο} :
      s.clientOpen = true → s.isLight = m.isLight → s.pendingByOwner[o]? = none →
      s.serverOpen = true → maxSessionRequests ≤ s.pendingByOwner.size →
      SessionStep s (.request .client o m) (.error .queueFull) s
  | submit {o : SessionRequestOwner} {m : SessionMessage ο} :
      s.clientOpen = true → s.isLight = m.isLight → s.pendingByOwner[o]? = none →
      s.serverOpen = true → s.pendingByOwner.size < maxSessionRequests →
      SessionStep s (.request .client o m) (.ok (.requested .submitted)) (s.submitted o m).woken
  | polled {o : SessionRequestOwner} {t : Session ο} {r : Option (SessionRequestResult ο)} :
      s.clientOpen = true → PollStep s o (.ok r) t →
      SessionStep s (.poll .client o) (.ok (.polled r)) t
  | pollClosed {o : SessionRequestOwner} {t : Session ο} {e : SessionError} :
      s.clientOpen = true → PollStep s o (.error e) t →
      SessionStep s (.poll .client o) (.error e) t
  | receivePending {r : SessionRequest ο} :
      s.serverOpen = true → s.current = some r →
      SessionStep s (.receive .server) (.error .replyPending) s
  | receiveEmpty :
      s.serverOpen = true → s.current = none → s.queued = [] →
      SessionStep s (.receive .server)
        (.error (if s.clientOpen then .noRequest else .peerClosed)) s
  | receive {r : SessionRequest ο} {rest : List (SessionRequest ο)} :
      s.serverOpen = true → s.current = none → s.queued = r :: rest →
      SessionStep s (.receive .server) (.ok (.received r.message)) (s.received r rest).woken
  | replyKind {m : SessionMessage ο} :
      s.serverOpen = true → s.isLight ≠ m.isLight →
      SessionStep s (.reply .server m) (.error .messageKindMismatch) s
  | replyClosed {m : SessionMessage ο} :
      s.serverOpen = true → s.isLight = m.isLight → s.clientOpen = false →
      SessionStep s (.reply .server m) (.error .peerClosed) s
  | replyNone {m : SessionMessage ο} :
      s.serverOpen = true → s.isLight = m.isLight → s.clientOpen = true → s.current = none →
      SessionStep s (.reply .server m) (.error .noRequest) s
  | reply {m : SessionMessage ο} {r : SessionRequest ο} :
      s.serverOpen = true → s.isLight = m.isLight → s.clientOpen = true → s.current = some r →
      s.pendingByOwner[r.owner]? = some r.id →
      SessionStep s (.reply .server m) (.ok .replied) (s.replied r m).woken
  | drop {endpoint : SessionEndpoint} :
      s.isOpen endpoint = true → SessionStep s (.drop endpoint) (.ok .dropped) (s.dropped endpoint)

namespace Session

/-- The current request is pending. -/
def Sound (s : Session ο) : Prop :=
  ∀ r, s.current = some r → s.pendingByOwner[r.owner]? = some r.id

end Session

section

variable {s : Session ο}

open Session

theorem pollRequest_spec (owner : SessionRequestOwner) :
    wp (pollRequest .client owner)
      ⟨fun r t ↦ PollStep s owner (.ok r) t, fun e t ↦ PollStep s owner (.error e) t, False⟩ s := by
  rw [pollRequest]
  simp only [wp_rules]
  refine ⟨fun h ↦ absurd rfl h, fun _ ↦ ?_⟩
  cases hid : s.pendingByOwner[owner]? with
  | none => exact .idle hid
  | some id =>
    simp only [pollPending, wp_rules]
    cases hm : s.responses[id]? with
    | some m => exact .collect hid hm
    | none =>
      simp only [wp_rules]
      cases hopen : s.serverOpen with
      | false => exact .closed hid hm hopen
      | true => exact .waiting hid hm hopen

/-- The postcondition of a call: it takes a step, and only a reply panics, in an unsound state. -/
def callPost (s : Session ο) (c : SessionCall ο) :
    Post SessionError (Session ο) (SessionAnswer ο) :=
  ⟨fun a t ↦ SessionStep s c (.ok a) t, fun e t ↦ SessionStep s c (.error e) t,
    (∃ m, c = .reply .server m) ∧ ¬s.Sound⟩

theorem request_spec (o : SessionRequestOwner) (m : SessionMessage ο)
    (hopen : s.clientOpen = true) :
    wp (perform (.request .client o m)) (callPost s (.request .client o m)) s := by
  rw [perform, Session.request]
  simp only [wp_rules]
  refine ⟨fun h ↦ absurd rfl h, fun _ ↦ ⟨fun hkind ↦ .requestKind hopen hkind, fun hkind ↦ ?_⟩⟩
  have hkind := not_not.mp hkind
  refine wp_of_wp (pollRequest_spec o) (fun r t hpoll ↦ ?_)
    (fun e t hpoll ↦ .requestClosed hopen hkind hpoll)
  cases r with
  | some r => exact .requestPolled hopen hkind hpoll
  | none =>
    cases hpoll with
    | idle hnone =>
      rw [submit]
      simp only [wp_rules, Bool.not_eq_false, Nat.not_le]
      exact ⟨.requestRefused hopen hkind hnone, fun hserver ↦
        ⟨.requestFull hopen hkind hnone hserver, .submit hopen hkind hnone hserver⟩⟩

theorem receive_spec (hopen : s.serverOpen = true) :
    wp (perform (.receive .server)) (callPost s (.receive .server)) s := by
  rw [perform, Session.receive]
  simp only [wp_rules]
  refine ⟨fun h ↦ absurd rfl h, fun _ ↦ ⟨fun hsome ↦ ?_, fun hnone ↦ ?_⟩⟩
  · obtain ⟨r, hr⟩ := Option.isSome_iff_exists.mp hsome
    exact .receivePending hopen hr
  · have hnone := Option.not_isSome_iff_eq_none.mp hnone
    cases hq : s.queued with
    | nil => exact .receiveEmpty hopen hnone hq
    | cons r rest => exact .receive hopen hnone hq

theorem reply_spec (m : SessionMessage ο) (hopen : s.serverOpen = true) :
    wp (perform (.reply .server m)) (callPost s (.reply .server m)) s := by
  rw [perform, Session.reply]
  simp only [wp_rules, wp_assert]
  refine ⟨fun h ↦ absurd rfl h, fun _ ↦ ⟨.replyKind hopen, fun hkind ↦ ?_⟩⟩
  have hkind := not_not.mp hkind
  refine ⟨.replyClosed hopen hkind, fun hclient ↦ ?_⟩
  have hclient := (Bool.not_eq_false _).mp hclient
  refine ⟨fun r hr ↦ ⟨fun howned ↦ ?_, fun howned ↦ ⟨⟨m, rfl⟩, fun hs ↦ ?_⟩⟩,
    .replyNone hopen hkind hclient⟩
  · exact .reply hopen hkind hclient hr (by simpa using howned)
  · simp [hs r hr] at howned

variable {c : SessionCall ο}

theorem perform_wrongEndpoint (h : c.fits = false) : perform c s = .err .wrongEndpoint s := by
  cases c with
  | drop endpoint => cases h
  | request endpoint o m | poll endpoint o | receive endpoint | reply endpoint m =>
    cases endpoint
    · first | rfl | cases h
    · first | rfl | cases h

/-- **Specification of a call.** -/
theorem apply_spec (s : Session ο) (c : SessionCall ο) : wp (apply c) (callPost s c) s := by
  rw [apply]
  simp only [wp_rules]
  cases hopen : s.isOpen c.endpoint with
  | false => exact .absent hopen
  | true =>
    cases hfits : c.fits with
    | false =>
      change (perform c s).Meets _
      rw [perform_wrongEndpoint hfits]
      exact .wrongEndpoint hopen hfits
    | true =>
      cases c with
      | request endpoint o m =>
        obtain rfl : endpoint = .client := by simpa [SessionCall.fits] using hfits
        exact request_spec o m hopen
      | poll endpoint o =>
        obtain rfl : endpoint = .client := by simpa [SessionCall.fits] using hfits
        change wp (pollRequest .client o >>= fun r ↦ pure (SessionAnswer.polled r)) _ s
        rw [wp_bind]
        exact wp_of_wp (pollRequest_spec o) (fun r t h ↦ .polled hopen h)
          (fun e t h ↦ .pollClosed hopen h)
      | receive endpoint =>
        obtain rfl : endpoint = .server := by simpa [SessionCall.fits] using hfits
        exact receive_spec hopen
      | reply endpoint m =>
        obtain rfl : endpoint = .server := by simpa [SessionCall.fits] using hfits
        exact reply_spec m hopen
      | drop endpoint => exact .drop hopen

/-- A step of the machine is a `SessionStep`. -/
theorem session_step {r : Except SessionError (SessionAnswer ο)} {t : Session ο}
    (h : session s c = some (r, t)) : SessionStep s c r t := by
  rcases machine_eq_some_iff.mp h with ⟨a, rfl, happly⟩ | ⟨e, rfl, happly⟩
  · exact ok_of_wp (apply_spec s c) happly
  · exact err_of_wp (apply_spec s c) happly

theorem session_ne_none (hs : ∀ m, c = .reply .server m → s.Sound) : session s c ≠ none := by
  intro h
  obtain ⟨msg, happly⟩ := machine_eq_none_iff.mp h
  obtain ⟨⟨m, hm⟩, hunsound⟩ := panic_of_wp (apply_spec s c) happly
  exact hunsound (hs m hm)

end

end Nixe.Runtime
