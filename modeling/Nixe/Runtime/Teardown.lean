import Nixe.Runtime.Port

/-!
# The end of a port

Two facts about a port and the sessions it made, over every order in which their objects come and
go.

* The number of active sessions is the number of sessions alive, and stays within the limit.
* Once the last server object of the port is gone, a session that was never accepted is told so
  exactly if the last client object of the port is gone too, and then by a request, never by a
  poll. While a client object of the port is left, the queue keeps the server object of the
  session alive, and requests are taken that nobody can receive.
-/

namespace Nixe.Runtime

open Std PortWorld ExtTreeMap List Option

variable {ο : Type}

/-! ## Invariants -/

/-- A session whose endpoints are not both open has no pending request. -/
def Session.Idle (s : Session ο) : Prop :=
  s.serverOpen = false ∨ s.clientOpen = false →
    ∀ o : SessionRequestOwner, s.pendingByOwner[o]? = none

/-- What is known of a session in the table. -/
structure SessionValid (w : PortWorld ο) (id : Nat) (ps : PortSession ο) : Prop where
  lt : id < w.nextSession
  alive : 0 < ps.serverObjects ∨ 0 < ps.clientObjects ∨ w.queued id = true
  clientOpen : ps.session.clientOpen = true ↔ 0 < ps.clientObjects
  serverOpen : ps.session.serverOpen = true ↔ 0 < ps.serverObjects ∨ w.queued id = true
  unaccepted : ps.accepted = false → ps.serverObjects = 0
  queued : ps.accepted = false → w.port.isSome = true → w.queued id = true
  accepted : w.queued id = true → ps.accepted = false
  idle : ps.session.Idle

/-- **The invariant of a port.** -/
structure PortValid (maxSessions : Nat) (w : PortWorld ο) : Prop where
  port_iff : w.port.isSome = true ↔ 0 < w.serverObjects ∨ 0 < w.clientObjects
  active : ∀ p, w.port = some p →
    p.activeSessions = w.sessions.size ∧ p.activeSessions ≤ p.maxSessions ∧
      p.maxSessions = maxSessions
  pending : ∀ p, w.port = some p → p.pending.Nodup ∧ ∀ id ∈ p.pending, id ∈ w.sessions
  session : ∀ (id : Nat) (ps : PortSession ο), w.sessions[id]? = some ps → SessionValid w id ps

section

variable {s t : Session ο} {r : Except SessionError (SessionAnswer ο)}

theorem Session.Idle.step (h : s.Idle) {c : SessionCall ο} (hs : SessionStep s c r t) : t.Idle := by
  have hpoll : ∀ {o : SessionRequestOwner} {r}, PollStep s o r t → t.Idle := by
    intro o r hpoll
    cases hpoll with
    | idle | waiting => exact h
    | collect | closed =>
      intro hclosed o'
      rw [eq_none_iff_forall_ne_some]
      intro id hid
      have hid := (getElem?_erase_eq_some_iff.mp hid).2
      rw [h hclosed o'] at hid
      cases hid
  cases hs with
  | requestPolled _ _ hp | requestClosed _ _ hp | polled _ hp | pollClosed _ hp => exact hpoll hp
  | submit hclient _ _ hserver =>
    rintro (hclosed | hclosed)
    · exact absurd (hserver.symm.trans hclosed) Bool.false_ne_true.symm
    · exact absurd (hclient.symm.trans hclosed) Bool.false_ne_true.symm
  | drop => exact fun _ o ↦ by simp [Session.dropped, Session.woken]
  | _ => exact h

/-- Only dropping an endpoint closes it. -/
theorem SessionStep.open_eq {c : SessionCall ο} (hs : SessionStep s c r t)
    (hc : ∀ endpoint, c ≠ .drop endpoint) :
    t.serverOpen = s.serverOpen ∧ t.clientOpen = s.clientOpen := by
  have hpoll : ∀ {o : SessionRequestOwner} {r}, PollStep s o r t →
      t.serverOpen = s.serverOpen ∧ t.clientOpen = s.clientOpen := by
    intro o r hpoll
    cases hpoll <;> exact ⟨rfl, rfl⟩
  cases hs with
  | requestPolled _ _ hp | requestClosed _ _ hp | polled _ hp | pollClosed _ hp => exact hpoll hp
  | drop => exact absurd rfl (hc _)
  | _ => exact ⟨rfl, rfl⟩

end

section

variable {w w' : PortWorld ο} {maxSessions id : Nat} {ps : PortSession ο}

/-- A session is valid in any later world with the same queue. -/
theorem SessionValid.mono (h : SessionValid w id ps) (hnext : w.nextSession ≤ w'.nextSession)
    (hport : w'.port.isSome = w.port.isSome) (hqueued : w'.queued id = w.queued id) :
    SessionValid w' id ps where
  __ := h
  lt := h.lt.trans_le hnext
  alive := hqueued ▸ h.alive
  serverOpen := hqueued ▸ h.serverOpen
  queued ha hp := hqueued ▸ h.queued ha (hport ▸ hp)
  accepted hq := h.accepted (hqueued ▸ hq)

/-- Replacing the entry of a session by another valid one. -/
theorem PortValid.put (h : PortValid maxSessions w) (hmem : id ∈ w.sessions)
    (hps : SessionValid w id ps) : PortValid maxSessions (w.put id ps) where
  port_iff := h.port_iff
  active p hp := by
    change _ = (w.sessions.insert id ps).size ∧ _
    rw [size_insert, if_pos (contains_iff_mem.mpr hmem)]
    exact h.active p hp
  pending p hp := ⟨(h.pending p hp).1, fun id' hid' ↦
    mem_map_insert_iff.mpr (.inr ((h.pending p hp).2 id' hid'))⟩
  session id' ps' hget := by
    rcases getElem?_insert_eq_some_iff.mp hget with ⟨rfl, rfl⟩ | ⟨-, hget⟩
    · exact hps.mono le_rfl rfl rfl
    · exact (h.session id' ps' hget).mono le_rfl rfl rfl

theorem mem_of_getElem? (hget : w.sessions[id]? = some ps) : id ∈ w.sessions := by
  rw [← isSome_getElem?_iff_mem, hget]
  rfl

variable {endpoint : PortEndpoint}

section

variable (h : PortValid maxSessions w)

include h

theorem PortValid.withObjects {n : Nat} (hn : 0 < n) (hold : 0 < w.objects endpoint) :
    PortValid maxSessions (w.withObjects n endpoint) := by
  have hsome : w.port.isSome = true := by
    rw [h.port_iff]
    cases endpoint
    · exact .inl hold
    · exact .inr hold
  cases endpoint with
  | server =>
    exact ⟨⟨fun _ ↦ .inl hn, fun _ ↦ hsome⟩, h.active, h.pending,
      fun id ps hget ↦ (h.session id ps hget).mono le_rfl rfl rfl⟩
  | client =>
    exact ⟨⟨fun _ ↦ .inr hn, fun _ ↦ hsome⟩, h.active, h.pending,
      fun id ps hget ↦ (h.session id ps hget).mono le_rfl rfl rfl⟩

/-- An endpoint of the port is closed while the other one has an object. -/
theorem PortValid.closed (hold : 0 < w.objects endpoint)
    (hleft : 0 < (w.withObjects 0 endpoint).serverObjects ∨
      0 < (w.withObjects 0 endpoint).clientObjects) :
    PortValid maxSessions
      { w.withObjects 0 endpoint with port := w.port.map (·.dropped endpoint) } := by
  have hport : (w.withObjects 0 endpoint).port = w.port := by cases endpoint <;> rfl
  have hsessions : (w.withObjects 0 endpoint).sessions = w.sessions := by cases endpoint <;> rfl
  have hnext : (w.withObjects 0 endpoint).nextSession = w.nextSession := by
    cases endpoint <;> rfl
  have hsome : w.port.isSome = true := by
    rw [h.port_iff]
    cases endpoint
    · exact .inl hold
    · exact .inr hold
  refine ⟨⟨fun _ ↦ hleft, fun _ ↦ by simpa using hsome⟩, ?_, ?_, ?_⟩
  · intro p hp
    obtain ⟨p', hp', rfl⟩ := map_eq_some_iff.mp hp
    rw [hsessions]
    exact h.active p' hp'
  · intro p hp
    obtain ⟨p', hp', rfl⟩ := map_eq_some_iff.mp hp
    rw [hsessions]
    exact h.pending p' hp'
  · intro id ps hget
    refine (h.session id ps (hsessions ▸ hget)).mono hnext.ge (by simp) ?_
    simp only [queued]
    cases w.port <;> rfl

/-- The port is freed. -/
theorem PortValid.freePort {w₀ : PortWorld ο} (hsessions : w₀.sessions = w.sessions)
    (hqueued : ∀ id, w₀.queued id = w.queued id) (hnext : w₀.nextSession = w.nextSession)
    (hnone : w₀.serverObjects = 0 ∧ w₀.clientObjects = 0) : PortValid maxSessions w₀.freePort where
  port_iff := by
    change (none : Option Port).isSome = true ↔ 0 < w₀.serverObjects ∨ 0 < w₀.clientObjects
    simp [hnone]
  active p hp := nomatch hp
  pending p hp := nomatch hp
  session id ps' hget := by
    have hget : (w₀.sessions.filterMap _)[id]? = some ps' := hget
    rw [ExtTreeMap.getElem?_filterMap', hsessions, bind_eq_some_iff] at hget
    obtain ⟨ps, hget, hps⟩ := hget
    have hv := h.session id ps hget
    have hlt : id < w₀.freePort.nextSession := hnext ▸ hv.lt
    rw [hqueued] at hps
    by_cases hq : w.queued id = true
    · -- the queue owned the server object, and nobody else did
      rw [if_pos hq] at hps
      split at hps
      · cases hps
      · rename_i hclient
        cases hps
        have hserver := hv.unaccepted (hv.accepted hq)
        refine ⟨hlt, .inr (.inl (Nat.pos_of_ne_zero hclient)), hv.clientOpen, ?_, hv.unaccepted,
          fun _ h ↦ (nomatch h), fun h ↦ (nomatch h), fun _ o ↦ ?_⟩
        · simp [Session.dropped, Session.woken, hserver, PortWorld.freePort, PortWorld.queued]
        · simp [Session.dropped, Session.woken]
    · rw [if_neg hq] at hps
      cases hps
      have hqueued' : w₀.freePort.queued id = w.queued id := by
        rw [(Bool.not_eq_true _).mp hq]
        rfl
      exact ⟨hlt, hqueued' ▸ hv.alive, hv.clientOpen, hqueued' ▸ hv.serverOpen, hv.unaccepted,
        fun _ h ↦ (nomatch h), fun h ↦ (nomatch h), hv.idle⟩

theorem PortValid.dropPort (hold : 0 < w.objects endpoint) :
    PortValid maxSessions (w.dropPort endpoint) := by
  rw [PortWorld.dropPort]
  split
  · rename_i hlt
    exact h.withObjects (by omega) hold
  · dsimp only
    split
    · rename_i hnone
      refine h.freePort ?_ (fun id ↦ ?_) ?_ hnone
      · cases endpoint <;> rfl
      · simp only [queued]
        cases w.port <;> rfl
      · cases endpoint <;> rfl
    · rename_i hleft
      refine h.closed hold ?_
      change ¬((w.withObjects 0 endpoint).serverObjects = 0 ∧
        (w.withObjects 0 endpoint).clientObjects = 0) at hleft
      omega

/-- A session without objects leaves the table and gives its place back. -/
theorem PortValid.freeSession (hget : w.sessions[id]? = some ps) (hq : w.queued id = false) :
    PortValid maxSessions (w.freeSession id) where
  port_iff := by
    change (w.port.map Port.sessionFreed).isSome = true ↔ _
    rw [isSome_map]
    exact h.port_iff
  active p hp := by
    obtain ⟨p', hp', rfl⟩ := map_eq_some_iff.mp hp
    obtain ⟨hsize, hle, hmax⟩ := h.active p' hp'
    change p'.activeSessions - 1 = (w.sessions.erase id).size ∧
      p'.activeSessions - 1 ≤ p'.maxSessions ∧ _
    rw [size_erase, if_pos (contains_iff_mem.mpr (mem_of_getElem? hget))]
    exact ⟨by omega, by omega, hmax⟩
  pending p hp := by
    obtain ⟨p', hp', rfl⟩ := map_eq_some_iff.mp hp
    refine ⟨(h.pending p' hp').1, fun id' hid' ↦ mem_map_erase_iff.mpr
      ⟨?_, (h.pending p' hp').2 id' hid'⟩⟩
    rintro rfl
    have hmem : id' ∈ p'.pending := hid'
    simp [queued, hp', hmem] at hq
  session id' ps' hget' := by
    obtain ⟨-, hget'⟩ := getElem?_erase_eq_some_iff.mp hget'
    refine (h.session id' ps' hget').mono le_rfl (isSome_map ..) ?_
    simp only [PortWorld.queued, PortWorld.freeSession]
    cases w.port <;> rfl

theorem PortValid.dropSession (hget : w.sessions[id]? = some ps) {endpoint : SessionEndpoint}
    (hold : 0 < ps.objects endpoint) : PortValid maxSessions (w.dropSession id ps endpoint) := by
  have hv := h.session id ps hget
  have hmem := mem_of_getElem? hget
  rw [PortWorld.dropSession]
  split
  · -- another object of the endpoint is left
    rename_i hlt
    refine h.put hmem ?_
    cases endpoint with
    | server =>
      have hold : 0 < ps.serverObjects := hold
      have hlt : 1 < ps.serverObjects := hlt
      refine ⟨hv.lt, .inl ?_, hv.clientOpen, ?_, fun ha ↦ ?_, hv.queued, hv.accepted, hv.idle⟩
      · change 0 < ps.serverObjects - 1
        omega
      · change ps.session.serverOpen = true ↔ 0 < ps.serverObjects - 1 ∨ _
        rw [hv.serverOpen]
        refine or_congr_left ?_
        omega
      · have := hv.unaccepted ha
        omega
    | client =>
      have hold : 0 < ps.clientObjects := hold
      have hlt : 1 < ps.clientObjects := hlt
      refine ⟨hv.lt, .inr (.inl ?_), ?_, hv.serverOpen, hv.unaccepted, hv.queued, hv.accepted,
        hv.idle⟩
      · change 0 < ps.clientObjects - 1
        omega
      · change ps.session.clientOpen = true ↔ 0 < ps.clientObjects - 1
        rw [hv.clientOpen]
        omega
  · dsimp only
    split
    · rename_i hdead
      exact h.freeSession hget hdead.2.2
    · rename_i halive
      refine h.put hmem ?_
      cases endpoint with
      | server =>
        -- a server object in use means that the session has been accepted
        have hq : w.queued id = false := by
          by_contra hq
          have := hv.unaccepted (hv.accepted ((Bool.not_eq_false _).mp hq))
          exact absurd this (Nat.pos_iff_ne_zero.mp hold)
        refine ⟨hv.lt, ?_, hv.clientOpen, ?_, fun _ ↦ rfl, hv.queued, hv.accepted, fun _ o ↦ ?_⟩
        · simp only [PortSession.withObjects, hq, and_true, true_and] at halive
          exact .inr (.inl (Nat.pos_of_ne_zero halive))
        · simp [PortSession.withObjects, Session.dropped, Session.woken, hq]
        · simp [Session.dropped, Session.woken]
      | client =>
        refine ⟨hv.lt, ?_, ?_, hv.serverOpen, hv.unaccepted, hv.queued, hv.accepted, fun _ o ↦ ?_⟩
        · simp only [PortSession.withObjects, true_and, not_and, Bool.not_eq_false] at halive
          rcases Nat.eq_zero_or_pos ps.serverObjects with hzero | hpos
          · exact .inr (.inr (halive hzero))
          · exact .inl hpos
        · simp [PortSession.withObjects, Session.dropped, Session.woken]
        · simp [Session.dropped, Session.woken]

theorem PortValid.connect {p q : Port} (hp : w.port = some p)
    (hconnect : p.connect endpoint w.nextSession = .ok q) :
    PortValid maxSessions (w.connected q) := by
  obtain ⟨hlimit, hactive, hqmax, hqpending⟩ := Port.connect_eq_ok hconnect
  obtain ⟨hsize, -, hmax⟩ := h.active p hp
  obtain ⟨hnodup, hmem⟩ := h.pending p hp
  have hfresh : w.nextSession ∉ w.sessions := by
    rw [← isSome_getElem?_iff_mem, isSome_iff_exists]
    rintro ⟨ps, hget⟩
    exact lt_irrefl _ (h.session _ ps hget).lt
  have hqueued : ∀ id, (w.connected q).queued id =
      (w.queued id || decide (id = w.nextSession)) := by
    intro id
    simp only [queued, connected, hp, any_some, hqpending,
      mem_append, mem_singleton, Bool.decide_or]
  refine ⟨?_, fun q' hq' ↦ ?_, fun q' hq' ↦ ?_, fun id ps hget ↦ ?_⟩
  · exact ⟨fun _ ↦ h.port_iff.mp (isSome_of_eq_some hp), fun _ ↦ rfl⟩
  · cases hq'
    change _ = (w.sessions.insert _ _).size ∧ _
    rw [ExtTreeMap.size_insert, if_neg (mt ExtTreeMap.contains_iff_mem.mp hfresh), hactive, hqmax]
    exact ⟨by rw [hsize], hlimit, hmax⟩
  · cases hq'
    rw [hqpending]
    refine ⟨?_, fun id hid ↦ ?_⟩
    · refine nodup_append.mpr ⟨hnodup, nodup_singleton _, fun id hid id' hid' ↦ ?_⟩
      obtain rfl := mem_singleton.mp hid'
      rintro rfl
      exact hfresh (hmem _ hid)
    · rw [connected, mem_map_insert_iff]
      rcases mem_append.mp hid with hid | hid
      · exact .inr (hmem id hid)
      · exact .inl (mem_singleton.mp hid)
  · rcases getElem?_insert_eq_some_iff.mp hget with ⟨rfl, rfl⟩ | ⟨hne, hget⟩
    · refine ⟨Nat.lt_succ_self _, .inr (.inl Nat.one_pos), ?_, ?_, fun _ ↦ rfl, fun _ _ ↦ ?_,
        fun _ ↦ rfl, fun _ o ↦ ?_⟩
      · simp [Session.createPairWithKind]
      · simp [Session.createPairWithKind, hqueued]
      · simp [hqueued]
      · simp [Session.createPairWithKind]
    · refine (h.session id ps hget).mono (Nat.le_succ _) ?_ ?_
      · rw [hp]
        rfl
      · simp [hqueued, hne]

theorem PortValid.accept {p q : Port} (hp : w.port = some p) (hget : w.sessions[id]? = some ps)
    (haccept : p.accept endpoint = .ok (id, q)) : PortValid maxSessions (w.accepted id ps q) := by
  obtain ⟨hpending, hactive, hqmax⟩ := Port.accept_eq_ok haccept
  obtain ⟨hsize, hle, hmax⟩ := h.active p hp
  obtain ⟨hnodup, hmem⟩ := h.pending p hp
  rw [hpending, nodup_cons] at hnodup
  have hqueued : ∀ id', (w.accepted id ps q).queued id' = decide (id' ∈ q.pending) := fun _ ↦ rfl
  have hold : ∀ id', w.queued id' = decide (id' ∈ id :: q.pending) := by
    intro id'
    simp only [queued, hp, any_some, hpending]
  refine ⟨?_, fun q' hq' ↦ ?_, fun q' hq' ↦ ?_, fun id' ps' hget' ↦ ?_⟩
  · exact ⟨fun _ ↦ h.port_iff.mp (isSome_of_eq_some hp), fun _ ↦ rfl⟩
  · cases hq'
    change _ = (w.sessions.insert _ _).size ∧ _
    rw [size_insert, if_pos (contains_iff_mem.mpr (mem_of_getElem? hget)),
      hactive, hqmax]
    exact ⟨hsize, hle, hmax⟩
  · cases hq'
    refine ⟨hnodup.2, fun id' hid' ↦ mem_map_insert_iff.mpr (.inr (hmem id' ?_))⟩
    rw [hpending]
    exact mem_cons_of_mem _ hid'
  · rcases getElem?_insert_eq_some_iff.mp hget' with ⟨rfl, rfl⟩ | ⟨hne, hget'⟩
    · have hv := h.session _ ps hget
      have hopen : ps.session.serverOpen = true := by
        rw [hv.serverOpen, hold]
        simp
      refine ⟨hv.lt, .inl Nat.one_pos, hv.clientOpen, ?_, fun ha ↦ (nomatch ha),
        fun ha ↦ (nomatch ha), fun hq ↦ ?_, hv.idle⟩
      · simp [hopen]
      · rw [hqueued] at hq
        exact absurd (of_decide_eq_true hq) hnodup.1
    · refine (h.session id' ps' hget').mono le_rfl ?_ ?_
      · rw [hp]
        rfl
      · rw [hqueued, hold]
        simp [hne]

theorem PortValid.call (hget : w.sessions[id]? = some ps) {c : SessionCall ο}
    (hc : ∀ endpoint, c ≠ .drop endpoint) {t : Session ο}
    {r : Except SessionError (SessionAnswer ο)} (hs : SessionStep ps.session c r t) :
    PortValid maxSessions (w.put id { ps with session := t }) := by
  have hv := h.session id ps hget
  obtain ⟨hserver, hclient⟩ := hs.open_eq hc
  exact h.put (mem_of_getElem? hget) ⟨hv.lt, hv.alive, hclient ▸ hv.clientOpen,
    hserver ▸ hv.serverOpen, hv.unaccepted, hv.queued, hv.accepted, hv.idle.step hs⟩

end

end

/-! ## Runs -/

section

variable {w w' : PortWorld ο} {maxSessions : Nat} {r : PortAnswer ο}

theorem eq_absent_or_of_onPort {endpoint : PortEndpoint} {f : Port → PortAnswer ο × PortWorld ο}
    (h : w.onPort endpoint f = some (r, w')) :
    w' = w ∨ ∃ p, w.port = some p ∧ 0 < w.objects endpoint ∧ f p = (r, w') := by
  rw [onPort] at h
  split at h
  · exact .inl (Prod.mk.inj (Option.some.inj h)).2.symm
  · rename_i p hp
    split at h
    · exact .inl (Prod.mk.inj (Option.some.inj h)).2.symm
    · rename_i hobjects
      exact .inr ⟨p, hp, Nat.pos_of_ne_zero hobjects, Option.some.inj h⟩

variable {id : Nat} {endpoint : SessionEndpoint} {ps : PortSession ο} {o : SessionRequestOwner}

theorem eq_absent_or_of_onSession {f : PortSession ο → Option (PortAnswer ο × PortWorld ο)}
    (h : w.onSession id endpoint f = some (r, w')) :
    w' = w ∨ ∃ ps, w.sessions[id]? = some ps ∧ 0 < ps.objects endpoint ∧ f ps = some (r, w') := by
  rw [onSession] at h
  split at h
  · exact .inl (Prod.mk.inj (Option.some.inj h)).2.symm
  · rename_i ps hget
    split at h
    · exact .inl (Prod.mk.inj (Option.some.inj h)).2.symm
    · rename_i hobjects
      exact .inr ⟨ps, hget, Nat.pos_of_ne_zero hobjects, h⟩

theorem PortValid.cloneSession (h : PortValid maxSessions w) (hget : w.sessions[id]? = some ps)
    (hold : 0 < ps.objects endpoint) :
    PortValid maxSessions (w.put id (ps.withObjects (ps.objects endpoint + 1) endpoint)) := by
  have hv := h.session id ps hget
  refine h.put (mem_of_getElem? hget) ?_
  cases endpoint with
  | server =>
    have hold : 0 < ps.serverObjects := hold
    refine ⟨hv.lt, .inl (Nat.succ_pos _), hv.clientOpen, ?_, fun ha ↦ ?_, hv.queued, hv.accepted,
      hv.idle⟩
    · change ps.session.serverOpen = true ↔ 0 < ps.serverObjects + 1 ∨ _
      rw [hv.serverOpen]
      exact or_congr_left ⟨fun _ ↦ Nat.succ_pos _, fun _ ↦ hold⟩
    · have := hv.unaccepted ha
      omega
  | client =>
    have hold : 0 < ps.clientObjects := hold
    refine ⟨hv.lt, .inr (.inl (Nat.succ_pos _)), ?_, hv.serverOpen, hv.unaccepted, hv.queued,
      hv.accepted, hv.idle⟩
    change ps.session.clientOpen = true ↔ 0 < ps.clientObjects + 1
    rw [hv.clientOpen]
    exact ⟨fun _ ↦ Nat.succ_pos _, fun _ ↦ hold⟩

theorem PortValid.step (h : PortValid maxSessions w) {a : PortAction ο}
    (hs : portWorld w a = some (r, w')) : PortValid maxSessions w' := by
  cases a with
  | clonePort endpoint =>
    rcases eq_absent_or_of_onPort hs with rfl | ⟨p, hp, hold, hf⟩
    · exact h
    · cases hf
      exact h.withObjects (Nat.succ_pos _) hold
  | dropPort endpoint =>
    rcases eq_absent_or_of_onPort hs with rfl | ⟨p, hp, hold, hf⟩
    · exact h
    · cases hf
      exact h.dropPort hold
  | connect endpoint =>
    rcases eq_absent_or_of_onPort hs with rfl | ⟨p, hp, -, hf⟩
    · exact h
    · rw [PortWorld.connect] at hf
      split at hf
      · cases hf
        exact h
      · rename_i q hconnect
        cases hf
        exact h.connect hp hconnect
  | accept endpoint =>
    rcases eq_absent_or_of_onPort hs with rfl | ⟨p, hp, -, hf⟩
    · exact h
    · rw [PortWorld.accept] at hf
      split at hf
      · cases hf
        exact h
      · rename_i id q haccept
        split at hf
        · rename_i ps hget
          cases hf
          exact h.accept hp hget haccept
        · cases hf
          exact h
  | cloneSession id endpoint =>
    rcases eq_absent_or_of_onSession hs with rfl | ⟨ps, hget, hold, hf⟩
    · exact h
    · cases hf
      exact h.cloneSession hget hold
  | dropSession id endpoint =>
    rcases eq_absent_or_of_onSession hs with rfl | ⟨ps, hget, hold, hf⟩
    · exact h
    · cases hf
      exact h.dropSession hget hold
  | call id c =>
    rcases eq_absent_or_of_onSession hs with rfl | ⟨ps, hget, -, hf⟩
    · exact h
    · cases c with
      | drop => exact (Prod.mk.inj (Option.some.inj hf)).2 ▸ h
      | _ =>
        obtain ⟨_, hsession, ⟨⟩⟩ := map_eq_some_iff.mp hf
        exact h.call hget (by rintro _ ⟨⟩) (session_step hsession)

/-- The call is answered with the news that the other side is gone. -/
def ObservesClosed (w : PortWorld ο) (id : Nat) (c : SessionCall ο) : Prop :=
  ∃ w', portWorld w (.call id c) = some (.answered (.error .peerClosed), w')

theorem observesClosed_iff {c : SessionCall ο} (hget : w.sessions[id]? = some ps)
    (hobjects : 0 < ps.objects c.endpoint) (hc : ∀ endpoint, c ≠ .drop endpoint) :
    ObservesClosed w id c ↔ ∃ t, session ps.session c = some (.error .peerClosed, t) := by
  have hstep : portWorld w (.call id c) = w.call id ps c := by
    simp only [portWorld, onSession, hget, if_neg hobjects.ne']
  rw [ObservesClosed, hstep]
  constructor
  · rintro ⟨w', h⟩
    cases c with
    | drop endpoint => exact absurd rfl (hc endpoint)
    | _ =>
      obtain ⟨⟨answer, t⟩, hs, hr⟩ := map_eq_some_iff.mp h
      obtain ⟨ha, -⟩ := Prod.mk.inj hr
      cases ha
      exact ⟨t, hs⟩
  · rintro ⟨t, h⟩
    refine ⟨w.put id { ps with session := t }, ?_⟩
    cases c with
    | drop endpoint => exact absurd rfl (hc endpoint)
    | _ => simp only [call, h, map_some]

/-- A request of the right kind reports a closed server endpoint, and nothing else does. -/
theorem request_peerClosed_iff {s : Session ο} (hidle : s.Idle) (hclient : s.clientOpen = true)
    {m : SessionMessage ο} (hkind : s.isLight = m.isLight) :
    (∃ t, session s (.request .client o m) = some (.error .peerClosed, t)) ↔
      s.serverOpen = false := by
  constructor
  · rintro ⟨t, hs⟩
    by_contra hopen
    cases session_step hs with
    | requestClosed _ _ hpoll =>
      cases hpoll with
      | closed _ _ hclosed => exact hopen hclosed
    | requestRefused _ _ _ hclosed => exact hopen hclosed
  · intro hclosed
    have hnone := hidle (.inl hclosed) o
    cases hs : session s (.request .client o m) with
    | none => exact absurd hs (session_ne_none nofun)
    | some r =>
      obtain ⟨r, t⟩ := r
      refine ⟨t, ?_⟩
      have hr : r = .error .peerClosed := by
        cases session_step hs with
        | absent habsent => exact absurd (hclient.symm.trans habsent) Bool.false_ne_true.symm
        | wrongEndpoint _ hfits => cases hfits
        | requestKind _ hne => exact absurd hkind hne
        | requestPolled _ _ hpoll =>
          cases hpoll with
          | collect hid | waiting hid => rw [hnone] at hid; cases hid
        | requestClosed _ _ hpoll =>
          cases hpoll with
          | closed => rfl
        | requestRefused => rfl
        | requestFull _ _ _ hopen | submit _ _ _ hopen =>
          exact absurd (hopen.symm.trans hclosed) Bool.false_ne_true.symm
      rw [hr]

/-- A poll never reports a closed server endpoint: the drop has taken the request away. -/
theorem poll_ne_peerClosed {s t : Session ο} (hidle : s.Idle) :
    session s (.poll .client o) ≠ some (.error .peerClosed, t) := by
  intro hs
  cases session_step hs with
  | pollClosed _ hpoll =>
    cases hpoll with
    | closed hid _ hclosed =>
      rw [hidle (.inl hclosed) o] at hid
      cases hid

end

/-- **The end of a port.** The port counts its sessions that are alive, within its limit. Once its
last server object is gone, a session that was never accepted learns of it by its next request
exactly if the last client object of the port is gone as well, and never by a poll. -/
theorem port_teardown {maxSessions : Nat} {isLight : Bool} {w : PortWorld ο}
    (h : Machine.Reachable portWorld (PortWorld.new maxSessions isLight) w) :
    (∀ p, w.port = some p → p.activeSessions = w.sessions.size ∧ p.activeSessions ≤ maxSessions) ∧
    (w.serverObjects = 0 → ∀ (id : Nat) (ps : PortSession ο), w.sessions[id]? = some ps →
      ps.accepted = false → 0 < ps.clientObjects → ∀ o : SessionRequestOwner,
        (∀ m : SessionMessage ο, ps.session.isLight = m.isLight →
          (ObservesClosed w id (.request .client o m) ↔ w.clientObjects = 0)) ∧
        ¬ObservesClosed w id (.poll .client o)) := by
  obtain ⟨es, hrun⟩ := h
  have hv : PortValid maxSessions w := by
    refine hrun.invariant (fun _ _ _ _ hv hs ↦ hv.step hs) ⟨by simp [new], ?_, ?_, by simp [new]⟩
    · rintro p ⟨⟩
      simp [new, Port.createPair]
    · rintro p ⟨⟩
      exact ⟨nodup_nil, nofun⟩
  refine ⟨fun p hp ↦ ?_, fun hserver id ps hget ha hclient o ↦ ⟨fun m hkind ↦ ?_, ?_⟩⟩
  · obtain ⟨hsize, hle, hmax⟩ := hv.active p hp
    exact ⟨hsize, hmax ▸ hle⟩
  · have hps := hv.session id ps hget
    rw [observesClosed_iff (c := .request .client o m) hget hclient (fun _ ↦ nofun),
      request_peerClosed_iff hps.idle (hps.clientOpen.mpr hclient) hkind, ← Bool.not_eq_true,
      hps.serverOpen, hps.unaccepted ha]
    constructor
    · intro hclosed
      by_contra hne
      have hsome := hv.port_iff.mpr (.inr (Nat.pos_of_ne_zero hne))
      exact hclosed (.inr (hps.queued ha hsome))
    · intro hzero
      have hnone : w.port = none := by
        by_contra hne
        have := hv.port_iff.mp (isSome_iff_ne_none.mpr hne)
        omega
      simp [queued, hnone]
  · have hps := hv.session id ps hget
    rw [observesClosed_iff (c := .poll .client o) hget hclient (fun _ ↦ nofun)]
    rintro ⟨t, hs⟩
    exact poll_ne_peerClosed hps.idle hs

/-- A client connects, and the server object of the port is dropped. -/
def deadPort : List (PortAction Unit) := [.connect .client, .dropPort .server]

/-- The dead port, at which the theorem can be applied. -/
theorem port_teardown_deadPort :
    ∃ w, Machine.Reachable portWorld (PortWorld.new 1 false : PortWorld Unit) w ∧
      w.serverObjects = 0 ∧ ¬ObservesClosed w 0 (.request .client ⟨1, 7⟩ (.buffer [])) := by
  have hrun : Machine.Reachable portWorld (new 1 false) _ :=
    ⟨_, Machine.run_of_exec (show Machine.exec portWorld _ deadPort = _ from rfl)⟩
  refine ⟨_, hrun, rfl, fun hclosed ↦ ?_⟩
  have := ((((port_teardown hrun).2 rfl 0 _ rfl rfl Nat.one_pos ⟨1, 7⟩).1 (.buffer []) rfl).mp
    hclosed)
  exact Nat.one_ne_zero this

/-- Behind the dead port a request is taken that nobody will receive. -/
theorem exists_unobserved_teardown :
    ¬∀ (maxSessions : Nat) (isLight : Bool) (w : PortWorld Unit),
      Machine.Reachable portWorld (PortWorld.new maxSessions isLight) w → w.serverObjects = 0 →
      ∀ (id : Nat) (ps : PortSession Unit), w.sessions[id]? = some ps → ps.accepted = false →
      0 < ps.clientObjects → ∀ (o : SessionRequestOwner) (m : SessionMessage Unit),
        ps.session.isLight = m.isLight → ObservesClosed w id (.request .client o m) := by
  intro h
  obtain ⟨w', hw'⟩ := h 1 false _
    ⟨_, Machine.run_of_exec (show Machine.exec portWorld _ deadPort = _ from rfl)⟩ rfl 0 _ rfl rfl
    Nat.one_pos ⟨1, 7⟩ (.buffer []) rfl
  have hsubmitted := (Prod.mk.inj (Option.some.inj hw')).1
  cases hsubmitted

end Nixe.Runtime
