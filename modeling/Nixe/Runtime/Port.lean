import Nixe.Runtime.Session

/-!
# Ports

A port hands out sessions. A client connects through it and gets the client object of a new
session, whose server object waits in the port's queue until the server accepts it. A port limits
the number of its sessions that are alive.

## Who is alive

Nothing here is freed explicitly. An endpoint ends with its last object, a session with the last
object of its two endpoints, and the port with the last object of its own. The model counts the
objects in use outside the port; the server object of a session that has not been accepted is
owned by the queue. The table of sessions holds those that are alive: an identity that loses its
last object leaves the table, which is when its destructor gives its place in the port back.

The destructor of a port endpoint marks the endpoint closed and leaves the queue alone. The
sessions in it stay open until the port itself is freed.
-/

namespace Nixe.Runtime

open Std

/-! ## Data -/

inductive PortEndpoint where
  | server
  | client
deriving DecidableEq, Repr

inductive PortError where
  | wrongEndpoint
  | peerClosed
  | sessionLimit
  | noPendingSession
deriving DecidableEq, Repr

/-- The state of a port, with the wake generation and whether the wake event is signalled. -/
structure Port where
  serverOpen : Bool
  clientOpen : Bool
  maxSessions : Nat
  activeSessions : Nat
  isLight : Bool
  /-- The sessions whose server object has not been accepted. -/
  pending : List Nat
  wakeGeneration : Nat
  wakeEvent : Bool
deriving DecidableEq, Repr

namespace Port

/-- `PortObject::create_pair`. -/
def createPair (maxSessions : Nat) (isLight : Bool) : Port where
  serverOpen := true
  clientOpen := true
  maxSessions := maxSessions
  activeSessions := 0
  isLight := isLight
  pending := []
  wakeGeneration := 0
  wakeEvent := false

def woken (p : Port) : Port :=
  { p with wakeGeneration := (p.wakeGeneration + 1) % wordBound, wakeEvent := true }

def isSignalled (p : Port) (endpoint : PortEndpoint) : Bool :=
  decide (endpoint = .server) && (!p.pending.isEmpty || !p.clientOpen)

/-- `connect`; the new session is called `id`. -/
def connect (p : Port) (endpoint : PortEndpoint) (id : Nat) : Except PortError Port :=
  if endpoint ≠ .client then .error .wrongEndpoint
  else if p.serverOpen = false then .error .peerClosed
  else if p.maxSessions ≤ p.activeSessions then .error .sessionLimit
  else .ok (woken { p with activeSessions := p.activeSessions + 1, pending := p.pending ++ [id] })

def accept (p : Port) (endpoint : PortEndpoint) : Except PortError (Nat × Port) :=
  if endpoint ≠ .server then .error .wrongEndpoint
  else
    match p.pending with
    | [] => .error (if p.clientOpen then .noPendingSession else .peerClosed)
    | id :: rest => .ok (id, woken { p with pending := rest })

variable {endpoint : PortEndpoint}

theorem connect_eq_ok {p q : Port} {id : Nat} (h : p.connect endpoint id = .ok q) :
    p.activeSessions < p.maxSessions ∧ q.activeSessions = p.activeSessions + 1 ∧
      q.maxSessions = p.maxSessions ∧ q.pending = p.pending ++ [id] := by
  rw [connect] at h
  split at h
  · cases h
  split at h
  · cases h
  split at h
  · cases h
  · rename_i hlimit
    obtain rfl := Except.ok.inj h
    exact ⟨Nat.lt_of_not_le hlimit, rfl, rfl, rfl⟩

theorem accept_eq_ok {p q : Port} {id : Nat} (h : p.accept endpoint = .ok (id, q)) :
    p.pending = id :: q.pending ∧ q.activeSessions = p.activeSessions ∧
      q.maxSessions = p.maxSessions := by
  rw [accept] at h
  split at h
  · cases h
  split at h
  · cases h
  · rename_i hpending
    cases h
    exact ⟨hpending, rfl, rfl⟩

/-- `PortEndpointLease::drop`. -/
def dropped (p : Port) (endpoint : PortEndpoint) : Port :=
  woken
    { p with
      serverOpen := if endpoint = .server then false else p.serverOpen
      clientOpen := if endpoint = .client then false else p.clientOpen }

/-- `SessionIdentity::drop`, as far as the port is concerned. -/
def sessionFreed (p : Port) : Port := { p with activeSessions := p.activeSessions - 1 }

end Port

/-- A session that is alive, with the number of its objects in use. -/
structure PortSession (ο : Type) where
  session : Session ο
  serverObjects : Nat
  clientObjects : Nat
  /-- The server object has left the queue of the port. -/
  accepted : Bool

/-- A port, its objects, and the sessions it made. -/
structure PortWorld (ο : Type) where
  /-- The port, until it is freed. -/
  port : Option Port
  serverObjects : Nat
  clientObjects : Nat
  sessions : ExtTreeMap Nat (PortSession ο)
  nextSession : Nat

inductive PortAction (ο : Type) where
  | clonePort (endpoint : PortEndpoint)
  | dropPort (endpoint : PortEndpoint)
  | connect (endpoint : PortEndpoint)
  | accept (endpoint : PortEndpoint)
  | cloneSession (id : Nat) (endpoint : SessionEndpoint)
  | dropSession (id : Nat) (endpoint : SessionEndpoint)
  | call (id : Nat) (c : SessionCall ο)

inductive PortAnswer (ο : Type) where
  /-- There is no object to act on. -/
  | absent
  | done
  | connected (id : Nat)
  | accepted (id : Nat)
  | refused (error : PortError)
  | answered (answer : Except SessionError (SessionAnswer ο))

variable {ο : Type}

namespace PortSession

def objects (ps : PortSession ο) : SessionEndpoint → Nat
  | .server => ps.serverObjects
  | .client => ps.clientObjects

def withObjects (ps : PortSession ο) (n : Nat) : SessionEndpoint → PortSession ο
  | .server => { ps with serverObjects := n }
  | .client => { ps with clientObjects := n }

end PortSession

namespace PortWorld

/-- `PortObject::create_pair`: one object of each endpoint. -/
def new (maxSessions : Nat) (isLight : Bool) : PortWorld ο where
  port := some (.createPair maxSessions isLight)
  serverObjects := 1
  clientObjects := 1
  sessions := ∅
  nextSession := 0

variable (w : PortWorld ο)

def objects : PortEndpoint → Nat
  | .server => w.serverObjects
  | .client => w.clientObjects

def withObjects (n : Nat) : PortEndpoint → PortWorld ο
  | .server => { w with serverObjects := n }
  | .client => { w with clientObjects := n }

/-- The server object of the session is in the queue of the port. -/
def queued (id : Nat) : Bool := w.port.any fun p ↦ decide (id ∈ p.pending)

def put (id : Nat) (ps : PortSession ο) : PortWorld ο :=
  { w with sessions := w.sessions.insert id ps }

/-- The session `id` loses its last object. -/
def freeSession (id : Nat) : PortWorld ο :=
  { w with port := w.port.map Port.sessionFreed, sessions := w.sessions.erase id }

/-- The port is freed, and with it the server objects in its queue. A session that has no client
object either goes with them; its destructor finds no port to report to. -/
def freePort : PortWorld ο :=
  { w with
    port := none
    sessions := w.sessions.filterMap fun id ps ↦
      if w.queued id then
        if ps.clientObjects = 0 then none
        else some { ps with session := ps.session.dropped .server }
      else some ps }

/-- One object of a port endpoint is dropped. -/
def dropPort (endpoint : PortEndpoint) : PortWorld ο :=
  if 1 < w.objects endpoint then w.withObjects (w.objects endpoint - 1) endpoint
  else
    let w := { w.withObjects 0 endpoint with port := w.port.map (·.dropped endpoint) }
    if w.serverObjects = 0 ∧ w.clientObjects = 0 then w.freePort else w

/-- One object of a session endpoint is dropped. -/
def dropSession (id : Nat) (ps : PortSession ο) (endpoint : SessionEndpoint) : PortWorld ο :=
  if 1 < ps.objects endpoint then w.put id (ps.withObjects (ps.objects endpoint - 1) endpoint)
  else
    let ps := { ps.withObjects 0 endpoint with session := ps.session.dropped endpoint }
    if ps.serverObjects = 0 ∧ ps.clientObjects = 0 ∧ w.queued id = false then w.freeSession id
    else w.put id ps

def connected (p : Port) : PortWorld ο :=
  { w with
    port := some p
    sessions := w.sessions.insert w.nextSession ⟨.createPairWithKind p.isLight, 0, 1, false⟩
    nextSession := w.nextSession + 1 }

def accepted (id : Nat) (ps : PortSession ο) (p : Port) : PortWorld ο :=
  { w with
    port := some p
    sessions := w.sessions.insert id { ps with serverObjects := 1, accepted := true } }

def connect (endpoint : PortEndpoint) (p : Port) : PortAnswer ο × PortWorld ο :=
  match p.connect endpoint w.nextSession with
  | .error e => (.refused e, w)
  | .ok p => (.connected w.nextSession, w.connected p)

def accept (endpoint : PortEndpoint) (p : Port) : PortAnswer ο × PortWorld ο :=
  match p.accept endpoint with
  | .error e => (.refused e, w)
  | .ok (id, p) =>
    match w.sessions[id]? with
    | some ps => (.accepted id, w.accepted id ps p)
    | none => (.absent, w)

/-- A call on an object of the session, other than dropping it. -/
def call (id : Nat) (ps : PortSession ο) : SessionCall ο → Option (PortAnswer ο × PortWorld ο)
  | .drop _ => some (.absent, w)
  | c => (session ps.session c).map fun r ↦ (.answered r.1, w.put id { ps with session := r.2 })

/-- What an action on a session does, if there is such an object. -/
def onSession (id : Nat) (endpoint : SessionEndpoint)
    (f : PortSession ο → Option (PortAnswer ο × PortWorld ο)) :
    Option (PortAnswer ο × PortWorld ο) :=
  match w.sessions[id]? with
  | none => some (.absent, w)
  | some ps => if ps.objects endpoint = 0 then some (.absent, w) else f ps

/-- What an action on the port does, if there is such an object. -/
def onPort (endpoint : PortEndpoint) (f : Port → PortAnswer ο × PortWorld ο) :
    Option (PortAnswer ο × PortWorld ο) :=
  match w.port with
  | none => some (.absent, w)
  | some p => if w.objects endpoint = 0 then some (.absent, w) else some (f p)

end PortWorld

/-- The port and its sessions as a machine; only a call on a session can panic. -/
def portWorld : Machine (PortWorld ο) (PortAction ο) (PortAnswer ο)
  | w, .clonePort endpoint =>
    w.onPort endpoint fun _ ↦ (.done, w.withObjects (w.objects endpoint + 1) endpoint)
  | w, .dropPort endpoint => w.onPort endpoint fun _ ↦ (.done, w.dropPort endpoint)
  | w, .connect endpoint => w.onPort endpoint (w.connect endpoint)
  | w, .accept endpoint => w.onPort endpoint (w.accept endpoint)
  | w, .cloneSession id endpoint =>
    w.onSession id endpoint fun ps ↦
      some (.done, w.put id (ps.withObjects (ps.objects endpoint + 1) endpoint))
  | w, .dropSession id endpoint =>
    w.onSession id endpoint fun ps ↦ some (.done, w.dropSession id ps endpoint)
  | w, .call id c => w.onSession id c.endpoint fun ps ↦ w.call id ps c

end Nixe.Runtime
