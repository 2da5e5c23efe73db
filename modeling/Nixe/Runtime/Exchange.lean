import Nixe.Runtime.Session

/-!
# The request and reply protocol of a session

What a session promises to its owners can be said without request identities. A *ledger* follows
the exchange from outside: it sees the calls and the answers, and knows of every owner whether
its request waits, is being served, has been answered, or was orphaned when the server endpoint
went away. `Ledger.permits` says which answers the protocol permits.

The state of the session is well formed when every pending request is in exactly one place and
has exactly one owner (`Session.WellFormed`). Both promises are kept, and kept together, in the
runs that avoid two calls:

* a poll by an orphaned owner. Dropping the server endpoint clears the table of pending requests,
  so the poll finds nothing and reports nothing, where the protocol demands `peerClosed`;
* a submission that reuses the last request identity while it is pending. The counter saturates.
-/

namespace Nixe.Runtime

open Std Method ExtTreeMap List Option Session

variable {ο : Type}

/-! ## The ledger -/

/-- What an observer of the calls and the answers knows. -/
structure Ledger (ο : Type) where
  isLight : Bool
  serverOpen : Bool
  clientOpen : Bool
  /-- Submitted and not yet received, in the order of submission. -/
  waiting : List (SessionRequestOwner × SessionMessage ο)
  /-- The owner of the request received last, until it is replied to. -/
  serving : Option SessionRequestOwner
  /-- Replied to and not yet collected. -/
  answered : ExtTreeMap SessionRequestOwner (SessionMessage ο)
  /-- Had a request outstanding when the server endpoint went away, and has not been told. -/
  orphaned : List SessionRequestOwner

namespace Ledger

def opened (isLight : Bool) : Ledger ο where
  isLight := isLight
  serverOpen := true
  clientOpen := true
  waiting := []
  serving := none
  answered := ∅
  orphaned := []

def isOpen (l : Ledger ο) : SessionEndpoint → Bool
  | .server => l.serverOpen
  | .client => l.clientOpen

/-- The owners that wait for a reply, or for their reply to be collected. -/
def outstanding (l : Ledger ο) : List SessionRequestOwner :=
  l.waiting.map Prod.fst ++ l.serving.toList ++ l.answered.keys

/-- What a poll by `owner` has to answer. -/
def duePoll (l : Ledger ο) (owner : SessionRequestOwner) :
    Except SessionError (Option (SessionRequestResult ο)) :=
  match l.answered[owner]? with
  | some message => .ok (some (.response message))
  | none =>
    if owner ∈ l.orphaned then .error .peerClosed
    else if owner ∈ l.waiting.map Prod.fst ∨ l.serving = some owner then .ok (some .waiting)
    else .ok none

/-- What the server has to receive: requests come in the order of submission, one at a time. -/
def dueReceive (l : Ledger ο) : Except SessionError (SessionMessage ο) :=
  if l.serving.isSome then .error .replyPending
  else
    match l.waiting with
    | [] => .error (if l.clientOpen then .noRequest else .peerClosed)
    | request :: _ => .ok request.2

def dueReply (l : Ledger ο) (message : SessionMessage ο) : Except SessionError Unit :=
  if l.isLight ≠ message.isLight then .error .messageKindMismatch
  else if l.clientOpen = false then .error .peerClosed
  else if l.serving.isNone then .error .noRequest
  else .ok ()

section

variable [DecidableEq ο]

/-- A request polls first, and is submitted only if the owner has nothing outstanding. When the
session is full is its own affair. -/
def permitsRequest (l : Ledger ο) (owner : SessionRequestOwner) (message : SessionMessage ο) :
    Except SessionError (SessionAnswer ο) → Bool
  | .ok (.requested .submitted) => l.serverOpen && decide (l.duePoll owner = .ok none)
  | .ok (.requested result) => decide (l.duePoll owner = .ok (some result))
  | .error .peerClosed => !l.serverOpen
  | .error .messageKindMismatch => decide (l.isLight ≠ message.isLight)
  | .error .queueFull => decide (l.duePoll owner = .ok none)
  | _ => false

/-- **The protocol.** The answers it permits to a call. -/
def permits (l : Ledger ο) (c : SessionCall ο) (r : Except SessionError (SessionAnswer ο)) : Bool :=
  if l.isOpen c.endpoint = false then decide (r = .ok .absent)
  else if c.fits = false then decide (r = .error .wrongEndpoint)
  else
    match c with
    | .request _ owner message => l.permitsRequest owner message r
    | .poll _ owner => decide (r = (l.duePoll owner).map .polled)
    | .receive _ => decide (r = l.dueReceive.map .received)
    | .reply _ message => decide (r = (l.dueReply message).map fun _ ↦ .replied)
    | .drop _ => decide (r = .ok .dropped)

end

/-- The owner has been handed its reply, or told that there will be none. -/
def settled (l : Ledger ο) (owner : SessionRequestOwner) : Ledger ο :=
  { l with
    answered := l.answered.erase owner
    orphaned := l.orphaned.filter fun o ↦ decide (o ≠ owner) }

def closed (l : Ledger ο) : SessionEndpoint → Ledger ο
  | .server =>
    { l with
      serverOpen := false, waiting := [], serving := none, answered := ∅
      orphaned := l.outstanding }
  | .client =>
    { l with
      clientOpen := false, waiting := [], serving := none, answered := ∅, orphaned := [] }

/-- The ledger after an answer. -/
def record (l : Ledger ο) : SessionCall ο → Except SessionError (SessionAnswer ο) → Ledger ο
  | .request _ owner message, .ok (.requested .submitted) =>
    { l with waiting := l.waiting ++ [(owner, message)] }
  | .request _ owner _, .ok (.requested (.response _)) => l.settled owner
  | .request _ owner _, .error .peerClosed => l.settled owner
  | .poll _ owner, .ok (.polled (some (.response _))) => l.settled owner
  | .poll _ owner, .error .peerClosed => l.settled owner
  | .receive _, .ok (.received _) =>
    { l with waiting := l.waiting.tail, serving := l.waiting.head?.map Prod.fst }
  | .reply _ message, .ok .replied =>
    match l.serving with
    | some owner => { l with serving := none, answered := l.answered.insert owner message }
    | none => l
  | .drop endpoint, .ok .dropped => l.closed endpoint
  | _, _ => l

/-- Follow one answer; `none` if the protocol does not permit it. -/
def audit [DecidableEq ο] (l : Ledger ο) (c : SessionCall ο)
    (r : Except SessionError (SessionAnswer ο)) : Option (Ledger ο) :=
  if l.permits c r then some (l.record c r) else none

end Ledger

/-- The session under the eyes of an auditor, who gives up at the first answer that the protocol
does not permit. -/
def audited [DecidableEq ο] : Machine (Session ο × Option (Ledger ο)) (SessionCall ο)
    (Except SessionError (SessionAnswer ο)) :=
  fun s c ↦ (session s.1 c).map fun r ↦ (r.1, r.2, s.2.bind (·.audit c r.1))

/-! ## Well-formed sessions -/

namespace Session

/-- How often the request `id` occurs in the three containers. -/
def placesIn (queued : List (SessionRequest ο)) (current : Option (SessionRequest ο))
    (responses : ExtTreeMap Nat (SessionMessage ο)) (id : Nat) : Nat :=
  queued.countP (fun r ↦ decide (r.id = id)) +
    (if current.any fun r ↦ decide (r.id = id) then 1 else 0) +
    (if id ∈ responses then 1 else 0)

/-- In how many places the request `id` is. -/
def places (s : Session ο) (id : Nat) : Nat := placesIn s.queued s.current s.responses id

/-- Every pending request is in exactly one place and has exactly one owner, and there are not too
many of them. -/
structure WellFormed (s : Session ο) : Prop where
  located : ∀ (o : SessionRequestOwner) (id : Nat),
    s.pendingByOwner[o]? = some id → s.places id = 1
  owned : ∀ id, s.places id ≠ 0 → ∃ o : SessionRequestOwner, s.pendingByOwner[o]? = some id
  unique : ∀ (o o' : SessionRequestOwner) (id : Nat),
    s.pendingByOwner[o]? = some id → s.pendingByOwner[o']? = some id → o = o'
  requester : ∀ r : SessionRequest ο,
    r ∈ s.queued ∨ s.current = some r → s.pendingByOwner[r.owner]? = some r.id
  bounded : s.pendingByOwner.size ≤ maxSessionRequests

variable {s : Session ο}

theorem WellFormed.woken (h : s.WellFormed) : s.woken.WellFormed :=
  ⟨h.located, h.owned, h.unique, h.requester, h.bounded⟩

theorem places_submitted (o : SessionRequestOwner) (m : SessionMessage ο) (id : Nat) :
    (s.submitted o m).places id = s.places id + if s.nextRequestId = id then 1 else 0 := by
  change placesIn (s.queued ++ [_]) s.current s.responses id = placesIn _ _ _ _ + _
  simp only [placesIn, countP_append, countP_singleton, decide_eq_true_eq]
  omega

variable {o : SessionRequestOwner} {m : SessionMessage ο} {r : SessionRequest ο}

section

variable (h : s.WellFormed)

include h

/-- A submission under an identity that is not pending. -/
theorem WellFormed.submitted (hnone : s.pendingByOwner[o]? = none)
    (hsize : s.pendingByOwner.size < maxSessionRequests)
    (hfresh : ∀ o' : SessionRequestOwner, s.pendingByOwner[o']? ≠ some s.nextRequestId) :
    (s.submitted o m).WellFormed := by
  have hzero : s.places s.nextRequestId = 0 := by
    by_contra hne
    obtain ⟨o', ho'⟩ := h.owned _ hne
    exact hfresh o' ho'
  have hne : ∀ {o' : SessionRequestOwner} {id : Nat},
      s.pendingByOwner[o']? = some id → o' ≠ o := by
    rintro o' id ho' rfl
    cases hnone.symm.trans ho'
  refine ⟨fun o' id ho' ↦ ?_, fun id hid ↦ ?_, fun o₁ o₂ id h₁ h₂ ↦ ?_, fun r hr ↦ ?_, ?_⟩
  · rw [places_submitted]
    rcases getElem?_insert_eq_some_iff.mp ho' with ⟨-, rfl⟩ | ⟨-, ho'⟩
    · rw [hzero, if_pos rfl]
    · rw [h.located o' id ho', if_neg]
      rintro rfl
      exact hfresh o' ho'
  · rw [places_submitted] at hid
    by_cases hn : s.nextRequestId = id
    · exact ⟨o, getElem?_insert_eq_some_iff.mpr (.inl ⟨rfl, hn.symm⟩)⟩
    · rw [if_neg hn, add_zero] at hid
      obtain ⟨o', ho'⟩ := h.owned id hid
      exact ⟨o', getElem?_insert_eq_some_iff.mpr (.inr ⟨hne ho', ho'⟩)⟩
  · rcases getElem?_insert_eq_some_iff.mp h₁ with ⟨rfl, hid⟩ | ⟨-, h₁⟩
    · rcases getElem?_insert_eq_some_iff.mp h₂ with ⟨h₂, -⟩ | ⟨-, h₂⟩
      · exact h₂.symm
      · exact absurd (hid ▸ h₂) (hfresh o₂)
    · rcases getElem?_insert_eq_some_iff.mp h₂ with ⟨-, hid⟩ | ⟨-, h₂⟩
      · exact absurd (hid ▸ h₁) (hfresh o₁)
      · exact h.unique o₁ o₂ id h₁ h₂
  · refine getElem?_insert_eq_some_iff.mpr ?_
    rcases hr with hr | hr
    · rcases mem_append.mp hr with hr | hr
      · have hr := h.requester r (.inl hr)
        exact .inr ⟨hne hr, hr⟩
      · obtain rfl := mem_singleton.mp hr
        exact .inl ⟨rfl, rfl⟩
    · have hr := h.requester r (.inr hr)
      exact .inr ⟨hne hr, hr⟩
  · change (s.pendingByOwner.insert o s.nextRequestId).size ≤ _
    rw [size_insert]
    split <;> omega

/-- A step that moves requests from place to place. -/
theorem WellFormed.of_places {t : Session ο} (hpending : t.pendingByOwner = s.pendingByOwner)
    (hplaces : ∀ id, t.places id = s.places id)
    (hrequester : ∀ r : SessionRequest ο, r ∈ t.queued ∨ t.current = some r →
      r ∈ s.queued ∨ s.current = some r) :
    t.WellFormed := by
  constructor
  · simpa only [hpending, hplaces] using h.located
  · simpa only [hpending, hplaces] using h.owned
  · simpa only [hpending] using h.unique
  · simpa only [hpending] using fun r hr ↦ h.requester r (hrequester r hr)
  · simpa only [hpending] using h.bounded

theorem WellFormed.received {rest : List (SessionRequest ο)} (hcurrent : s.current = none)
    (hq : s.queued = r :: rest) : (s.received r rest).WellFormed := by
  have hplaces : ∀ id, (s.received r rest).places id = s.places id := by
    intro id
    change placesIn rest (some r) s.responses id = placesIn _ _ _ _
    rw [hcurrent, hq]
    simp only [placesIn, countP_cons, any_some, any_none, decide_eq_true_eq,
      Bool.false_eq_true, if_false]
    omega
  refine h.of_places rfl hplaces fun r' hr' ↦ .inl ?_
  rw [hq]
  rcases hr' with hr' | hr'
  · exact mem_cons_of_mem _ hr'
  · cases hr'
    exact mem_cons_self

/-- The current request has no response yet. -/
theorem WellFormed.not_mem_responses (hr : s.current = some r) : r.id ∉ s.responses := by
  intro hmem
  have hone := h.located _ _ (h.requester r (.inr hr))
  simp [places, placesIn, hr, hmem] at hone

theorem WellFormed.replied (hr : s.current = some r) : (s.replied r m).WellFormed := by
  have hplaces : ∀ id, (s.replied r m).places id = s.places id := by
    intro id
    have hfree := h.not_mem_responses hr
    change placesIn s.queued none (s.responses.insert r.id m) id = placesIn _ _ _ _
    rw [hr]
    simp only [placesIn, any_some, any_none, mem_map_insert_iff]
    by_cases hid : id = r.id
    · simp [hid, hfree]
    · simp [hid, Ne.symm hid]
  exact h.of_places rfl hplaces fun r' hr' ↦ .inl (hr'.resolve_right nofun)

/-- A request that has a response is in no other place. -/
theorem WellFormed.places_collected {id : Nat} (ho : s.pendingByOwner[o]? = some id)
    (hid : id ∈ s.responses) (id' : Nat) :
    (s.collected o id).places id' = if id' = id then 0 else s.places id' := by
  have hone := h.located o id ho
  change placesIn s.queued s.current (s.responses.erase id) id' = if _ then 0 else placesIn _ _ _ _
  simp only [places, placesIn, if_pos hid] at hone
  simp only [placesIn, mem_map_erase_iff]
  by_cases heq : id' = id
  · subst heq
    simp only [ne_eq, not_true_eq_false, false_and, if_false, if_true]
    omega
  · simp [heq]

theorem WellFormed.collected {id : Nat} (ho : s.pendingByOwner[o]? = some id)
    (hid : id ∈ s.responses) : (s.collected o id).WellFormed := by
  have hplaces := h.places_collected ho hid
  have hne : ∀ {o' : SessionRequestOwner} {id' : Nat},
      (s.collected o id).pendingByOwner[o']? = some id' →
        o' ≠ o ∧ s.pendingByOwner[o']? = some id' := getElem?_erase_eq_some_iff.mp
  refine ⟨fun o' id' ho' ↦ ?_, fun id' hid' ↦ ?_, fun o₁ o₂ id' h₁ h₂ ↦ ?_, fun r hr ↦ ?_, ?_⟩
  · obtain ⟨hne, ho'⟩ := hne ho'
    rw [hplaces, if_neg]
    · exact h.located o' id' ho'
    · intro heq
      exact hne (h.unique o' o id (heq ▸ ho') ho)
  · rw [hplaces] at hid'
    split at hid'
    · exact absurd rfl hid'
    · rename_i hne'
      obtain ⟨o', ho'⟩ := h.owned id' hid'
      refine ⟨o', getElem?_erase_eq_some_iff.mpr ⟨?_, ho'⟩⟩
      rintro rfl
      exact hne' (Option.some.inj (ho'.symm.trans ho))
  · exact h.unique o₁ o₂ id' (hne h₁).2 (hne h₂).2
  · have hr' := h.requester r hr
    refine getElem?_erase_eq_some_iff.mpr ⟨?_, hr'⟩
    -- the request of `o` has a response, so it is neither queued nor current
    intro hown
    have hrid : r.id = id := by
      rw [hown, ho] at hr'
      exact (Option.some.inj hr').symm
    have hzero := hplaces id
    rw [if_pos rfl] at hzero
    rcases hr with hr | hr
    · have : 0 < s.queued.countP (fun r ↦ decide (r.id = id)) :=
        countP_pos_iff.mpr ⟨r, hr, by simpa using hrid⟩
      change placesIn s.queued _ _ _ = 0 at hzero
      rw [placesIn] at hzero
      omega
    · change placesIn _ s.current _ _ = 0 at hzero
      rw [show s.current = some r from hr] at hzero
      simp [placesIn, hrid] at hzero
  · change (s.pendingByOwner.erase o).size ≤ _
    exact (size_erase_le).trans h.bounded

end

/-- A session without requests. -/
theorem WellFormed.of_idle (hpending : s.pendingByOwner = ∅) (hqueued : s.queued = [])
    (hcurrent : s.current = none) (hresponses : s.responses = ∅) : s.WellFormed := by
  constructor <;> simp [places, placesIn, hpending, hqueued, hcurrent, hresponses]

end Session

/-! ## The session and its ledger -/

/-- The ledger says of the session what can be seen of it. -/
structure Agrees (s : Session ο) (l : Ledger ο) : Prop where
  wellFormed : s.WellFormed
  issued : ∀ (o : SessionRequestOwner) (id : Nat), s.pendingByOwner[o]? = some id →
    id < s.nextRequestId ∨ s.nextRequestId = wordMax
  isLight : l.isLight = s.isLight
  serverOpen : l.serverOpen = s.serverOpen
  clientOpen : l.clientOpen = s.clientOpen
  waiting : l.waiting = s.queued.map fun r ↦ (r.owner, r.message)
  serving : l.serving = s.current.map SessionRequest.owner
  answered : ∀ (o : SessionRequestOwner) (m : SessionMessage ο), l.answered[o]? = some m ↔
    ∃ id : Nat, s.pendingByOwner[o]? = some id ∧ s.responses[id]? = some m
  orphaned : ∀ o ∈ l.orphaned, s.serverOpen = false
  idle : s.serverOpen = false ∨ s.clientOpen = false →
    ∀ o : SessionRequestOwner, s.pendingByOwner[o]? = none

namespace Agrees

variable {s t : Session ο} {l : Ledger ο} {o : SessionRequestOwner} {m : SessionMessage ο}

theorem woken (h : Agrees s l) : Agrees s.woken l :=
  ⟨h.wellFormed.woken, h.issued, h.isLight, h.serverOpen, h.clientOpen, h.waiting, h.serving,
    h.answered, h.orphaned, h.idle⟩

theorem sound (h : Agrees s l) : s.Sound := fun r hr ↦ h.wellFormed.requester r (.inr hr)

theorem isOpen (h : Agrees s l) (endpoint : SessionEndpoint) :
    l.isOpen endpoint = s.isOpen endpoint := by
  cases endpoint
  · exact h.serverOpen
  · exact h.clientOpen

/-- The owners that wait are those whose request is pending and has no response. -/
theorem waiting_iff (h : Agrees s l) :
    (o ∈ l.waiting.map Prod.fst ∨ l.serving = some o) ↔
      ∃ id : Nat, s.pendingByOwner[o]? = some id ∧ s.responses[id]? = none := by
  have hmem : (o ∈ l.waiting.map Prod.fst ∨ l.serving = some o) ↔
      ∃ r : SessionRequest ο, (r ∈ s.queued ∨ s.current = some r) ∧ r.owner = o := by
    rw [h.waiting, h.serving]
    simp only [List.map_map, List.mem_map, Function.comp_apply, Option.map_eq_some_iff,
      or_and_right,
      exists_or]
  rw [hmem]
  constructor
  · rintro ⟨r, hr, rfl⟩
    refine ⟨r.id, h.wellFormed.requester r hr, ?_⟩
    by_contra hsome
    -- a response would be a second place for the request
    have hresp : r.id ∈ s.responses := by
      rw [← isSome_getElem?_iff_mem]
      exact isSome_iff_ne_none.mpr hsome
    have hone := h.wellFormed.located _ _ (h.wellFormed.requester r hr)
    rw [places, placesIn, if_pos hresp] at hone
    rcases hr with hr | hr
    · have : 0 < s.queued.countP (fun r' ↦ decide (r'.id = r.id)) :=
        countP_pos_iff.mpr ⟨r, hr, by simp⟩
      omega
    · simp [hr] at hone
  · rintro ⟨id, hid, hnone⟩
    have hone := h.wellFormed.located o id hid
    have hresp : id ∉ s.responses := by
      rw [← isSome_getElem?_iff_mem, hnone]
      exact Bool.false_ne_true
    rw [places, placesIn, if_neg hresp] at hone
    have hplace : ∃ r : SessionRequest ο, (r ∈ s.queued ∨ s.current = some r) ∧ r.id = id := by
      by_cases hq : s.queued.countP (fun r ↦ decide (r.id = id)) = 0
      · rw [hq] at hone
        have hany : (s.current.any fun r ↦ decide (r.id = id)) = true := by
          by_contra hany
          rw [if_neg hany] at hone
          omega
        obtain ⟨r, hr, hrid⟩ := (any_eq_true _ _).mp hany
        exact ⟨r, .inr hr, of_decide_eq_true hrid⟩
      · obtain ⟨r, hr, hrid⟩ := countP_pos_iff.mp (Nat.pos_of_ne_zero hq)
        exact ⟨r, .inl hr, of_decide_eq_true hrid⟩
    obtain ⟨r, hr, hrid⟩ := hplace
    have hown := h.wellFormed.requester r hr
    rw [hrid] at hown
    exact ⟨r, hr, h.wellFormed.unique _ _ id hown hid⟩

theorem serverOpen_of_pending (h : Agrees s l) {id : Nat} (hid : s.pendingByOwner[o]? = some id) :
    s.serverOpen = true := by
  by_contra hclosed
  rw [h.idle (.inl ((Bool.not_eq_true _).mp hclosed)) o] at hid
  cases hid

theorem not_mem_orphaned (h : Agrees s l) (hopen : s.serverOpen = true) : o ∉ l.orphaned := by
  intro ho
  rw [h.orphaned o ho] at hopen
  cases hopen

theorem answered_eq_none (h : Agrees s l) (hnone : s.pendingByOwner[o]? = none) :
    l.answered[o]? = none := by
  rw [eq_none_iff_forall_ne_some]
  intro m hm
  obtain ⟨id, hid, -⟩ := (h.answered o m).mp hm
  cases hnone.symm.trans hid

/-- A poll answers what is due, unless the owner is an orphan. -/
theorem duePoll_of_pollStep (h : Agrees s l) (ho : o ∉ l.orphaned)
    {r : Except SessionError (Option (SessionRequestResult ο))} (hp : PollStep s o r t) :
    l.duePoll o = r := by
  have hanswered : ∀ {id : Nat}, s.pendingByOwner[o]? = some id → s.responses[id]? = none →
      l.answered[o]? = none := by
    intro id hid hnone
    rw [eq_none_iff_forall_ne_some]
    intro m hm
    obtain ⟨id', hid', hm'⟩ := (h.answered o m).mp hm
    cases hid.symm.trans hid'
    rw [hnone] at hm'
    cases hm'
  rw [Ledger.duePoll]
  cases hp with
  | idle hnone =>
    have hwait : ¬(o ∈ l.waiting.map Prod.fst ∨ l.serving = some o) := by
      rw [h.waiting_iff]
      rintro ⟨id, hid, -⟩
      cases hnone.symm.trans hid
    simp only [h.answered_eq_none hnone, if_neg ho, if_neg hwait]
  | collect hid hm => simp only [(h.answered o _).mpr ⟨_, hid, hm⟩]
  | waiting hid hnone _ =>
    simp only [hanswered hid hnone, if_neg ho, if_pos (h.waiting_iff.mpr ⟨_, hid, hnone⟩)]
  | closed hid _ hclosed =>
    rw [h.serverOpen_of_pending hid] at hclosed
    cases hclosed

/-! ### What the steps do to the ledger -/

theorem collected (h : Agrees s l) {id : Nat} (hid : s.pendingByOwner[o]? = some id)
    (hm : s.responses[id]? = some m) : Agrees (s.collected o id) (l.settled o) where
  __ := h
  wellFormed := by
    refine h.wellFormed.collected hid ?_
    rw [← isSome_getElem?_iff_mem, hm]
    rfl
  issued o' id' hid' := h.issued o' id' (getElem?_erase_eq_some_iff.mp hid').2
  answered o' m' := by
    change (l.answered.erase o)[o']? = some m' ↔ _
    rw [getElem?_erase_eq_some_iff, h.answered]
    constructor
    · rintro ⟨hne, id', hid', hm'⟩
      refine ⟨id', getElem?_erase_eq_some_iff.mpr ⟨hne, hid'⟩,
        getElem?_erase_eq_some_iff.mpr ⟨?_, hm'⟩⟩
      rintro rfl
      exact hne (h.wellFormed.unique o' o _ hid' hid)
    · rintro ⟨id', hid', hm'⟩
      obtain ⟨hne, hid'⟩ := getElem?_erase_eq_some_iff.mp hid'
      exact ⟨hne, id', hid', (getElem?_erase_eq_some_iff.mp hm').2⟩
  orphaned o' ho' := h.orphaned o' (mem_filter.mp ho').1
  idle hclosed o' := by
    rw [eq_none_iff_forall_ne_some]
    intro id' hid'
    have hid' := (getElem?_erase_eq_some_iff.mp hid').2
    rw [h.idle hclosed o'] at hid'
    cases hid'

/-- An owner without a pending request has nothing to settle. -/
theorem settled (h : Agrees s l) (hnone : s.pendingByOwner[o]? = none) :
    Agrees s (l.settled o) where
  __ := h
  answered o' m' := by
    change (l.answered.erase o)[o']? = some m' ↔ _
    rw [getElem?_erase_eq_some_iff, h.answered]
    refine ⟨fun h ↦ h.2, fun hans ↦ ⟨?_, hans⟩⟩
    rintro rfl
    obtain ⟨id, hid, -⟩ := hans
    cases hnone.symm.trans hid
  orphaned o' ho' := h.orphaned o' (mem_filter.mp ho').1

theorem submitted (h : Agrees s l) (hnone : s.pendingByOwner[o]? = none)
    (hserver : s.serverOpen = true) (hclient : s.clientOpen = true)
    (hsize : s.pendingByOwner.size < maxSessionRequests)
    (hfresh : ∀ o' : SessionRequestOwner, s.pendingByOwner[o']? ≠ some s.nextRequestId) :
    Agrees (s.submitted o m) { l with waiting := l.waiting ++ [(o, m)] } where
  __ := h
  wellFormed := h.wellFormed.submitted hnone hsize hfresh
  issued o' id' hid' := by
    change id' < min (s.nextRequestId + 1) wordMax ∨ min (s.nextRequestId + 1) wordMax = wordMax
    rcases getElem?_insert_eq_some_iff.mp hid' with ⟨-, rfl⟩ | ⟨-, hid'⟩
    · omega
    · have := h.issued o' id' hid'
      omega
  waiting := by simp [h.waiting, Session.submitted]
  answered o' m' := by
    rw [h.answered]
    have hne : s.nextRequestId ∉ s.responses := by
      intro hmem
      -- a response is a place, and the identity is not pending
      obtain ⟨o'', ho''⟩ := h.wellFormed.owned s.nextRequestId (by
        rw [places, placesIn, if_pos hmem]
        omega)
      exact hfresh o'' ho''
    constructor
    · rintro ⟨id, hid, hm⟩
      refine ⟨id, getElem?_insert_eq_some_iff.mpr (.inr ⟨?_, hid⟩), hm⟩
      rintro rfl
      cases hnone.symm.trans hid
    · rintro ⟨id, hid, hm⟩
      rcases getElem?_insert_eq_some_iff.mp hid with ⟨-, rfl⟩ | ⟨-, hid⟩
      · rw [← isSome_getElem?_iff_mem] at hne
        exact absurd (isSome_of_eq_some hm) hne
      · exact ⟨id, hid, hm⟩
  idle hclosed := by
    rcases hclosed with hclosed | hclosed
    · exact absurd (hserver.symm.trans hclosed) Bool.false_ne_true.symm
    · exact absurd (hclient.symm.trans hclosed) Bool.false_ne_true.symm

variable {r : SessionRequest ο}

theorem received (h : Agrees s l) {rest : List (SessionRequest ο)} (hcurrent : s.current = none)
    (hq : s.queued = r :: rest) :
    Agrees (s.received r rest)
      { l with waiting := l.waiting.tail, serving := l.waiting.head?.map Prod.fst } where
  __ := h
  wellFormed := h.wellFormed.received hcurrent hq
  waiting := by
    rw [h.waiting, hq]
    rfl
  serving := by
    rw [h.waiting, hq]
    rfl

theorem replied (h : Agrees s l) (hr : s.current = some r) :
    Agrees (s.replied r m)
      { l with serving := none, answered := l.answered.insert r.owner m } where
  __ := h
  wellFormed := h.wellFormed.replied hr
  serving := rfl
  answered o' m' := by
    have hown := h.wellFormed.requester r (.inr hr)
    rw [getElem?_insert_eq_some_iff, h.answered]
    constructor
    · rintro (⟨rfl, rfl⟩ | ⟨hne, id, hid, hm⟩)
      · exact ⟨r.id, hown, getElem?_insert_eq_some_iff.mpr (.inl ⟨rfl, rfl⟩)⟩
      · refine ⟨id, hid, getElem?_insert_eq_some_iff.mpr (.inr ⟨?_, hm⟩)⟩
        rintro rfl
        exact hne (h.wellFormed.unique _ _ _ hid hown)
    · rintro ⟨id, hid, hm⟩
      rcases getElem?_insert_eq_some_iff.mp hm with ⟨rfl, rfl⟩ | ⟨hne, hm⟩
      · exact .inl ⟨h.wellFormed.unique _ _ _ hid hown, rfl⟩
      · refine .inr ⟨?_, id, hid, hm⟩
        rintro rfl
        exact hne (Option.some.inj (hid.symm.trans hown))

theorem dropped (h : Agrees s l) (endpoint : SessionEndpoint) :
    Agrees (s.dropped endpoint) (l.closed endpoint) where
  wellFormed := .of_idle rfl rfl rfl rfl
  issued o id hid := by simp [Session.dropped, Session.woken] at hid
  isLight := by cases endpoint <;> exact h.isLight
  serverOpen := by
    cases endpoint
    · rfl
    · exact h.serverOpen
  clientOpen := by
    cases endpoint
    · exact h.clientOpen
    · rfl
  waiting := by cases endpoint <;> rfl
  serving := by cases endpoint <;> rfl
  answered o m := by cases endpoint <;> simp [Session.dropped, Session.woken, Ledger.closed]
  orphaned o ho := by
    cases endpoint with
    | server => rfl
    | client => cases ho
  idle _ o := by simp [Session.dropped, Session.woken]

end Agrees

section

variable [DecidableEq ο] {s : Session ο} {l : Ledger ο} {r : Except SessionError (SessionAnswer ο)}

theorem Agrees.permits_client (h : Agrees s l) (hopen : s.clientOpen = true) :
    (∀ o m, l.permits (.request .client o m) r = l.permitsRequest o m r) ∧
      ∀ o, l.permits (.poll .client o) r = decide (r = (l.duePoll o).map .polled) := by
  simp [Ledger.permits, h.isOpen, Session.isOpen, hopen, SessionCall.endpoint, SessionCall.fits]

theorem Agrees.permits_server (h : Agrees s l) (hopen : s.serverOpen = true) :
    l.permits (.receive .server) r = decide (r = l.dueReceive.map .received) ∧
      ∀ m, l.permits (.reply .server m) r = decide (r = (l.dueReply m).map fun _ ↦ .replied) := by
  simp [Ledger.permits, h.isOpen, Session.isOpen, hopen, SessionCall.endpoint, SessionCall.fits]

end

/-! ## Runs that keep the protocol -/

/-- A request by `o` would be submitted. -/
def Session.Submits (s : Session ο) (o : SessionRequestOwner) (m : SessionMessage ο) : Prop :=
  s.clientOpen = true ∧ s.isLight = m.isLight ∧ s.pendingByOwner[o]? = none ∧
    s.serverOpen = true ∧ s.pendingByOwner.size < maxSessionRequests

/-- The calls that break a promise: a poll by an orphaned owner, and a submission under the last
request identity while that identity is pending. -/
def Strays (s : Session ο) (l : Ledger ο) : SessionCall ο → Prop
  | .poll .client o => s.clientOpen = true ∧ o ∈ l.orphaned
  | .request .client o m => s.Submits o m ∧ s.nextRequestId = wordMax ∧
      ∃ o' : SessionRequestOwner, s.pendingByOwner[o']? = some wordMax
  | _ => False

section

variable [DecidableEq ο] {s t : Session ο} {l : Ledger ο} {c : SessionCall ο}
  {r : Except SessionError (SessionAnswer ο)}

theorem Agrees.step (h : Agrees s l) (hgood : ¬Strays s l c) (hs : SessionStep s c r t) :
    l.permits c r = true ∧ Agrees t (l.record c r) := by
  cases hs with
  | absent hclosed =>
    have hrecord : l.record c (.ok .absent) = l := by cases c <;> rfl
    rw [hrecord]
    exact ⟨by simp [Ledger.permits, h.isOpen, hclosed], h⟩
  | wrongEndpoint hopen hfits =>
    have hrecord : l.record c (.error .wrongEndpoint) = l := by cases c <;> rfl
    rw [hrecord]
    exact ⟨by simp [Ledger.permits, h.isOpen, hopen, hfits], h⟩
  | requestKind hopen hkind =>
    refine ⟨?_, h⟩
    simpa [h.permits_client hopen, Ledger.permitsRequest, h.isLight] using hkind
  | @requestPolled o m _ r hopen hkind hpoll =>
    -- A request is pending, so the server is still there and the owner is no orphan.
    have hpending : s.serverOpen = true := by
      cases hpoll with
      | collect hid | waiting hid => exact h.serverOpen_of_pending hid
    have hdue := h.duePoll_of_pollStep (h.not_mem_orphaned hpending) hpoll
    cases hpoll with
    | collect hid hm =>
      refine ⟨?_, (h.collected hid hm).woken⟩
      simp [h.permits_client hopen, Ledger.permitsRequest, hdue]
    | waiting hid hnone hserver =>
      refine ⟨?_, h⟩
      simp [h.permits_client hopen, Ledger.permitsRequest, hdue]
  | requestClosed _ _ hpoll | pollClosed _ hpoll =>
    cases hpoll with
    -- No request is pending at a closed server.
    | closed hid _ hclosed =>
      rw [h.serverOpen_of_pending hid] at hclosed
      cases hclosed
  | requestRefused hopen hkind hnone hclosed =>
    refine ⟨?_, h.settled hnone⟩
    simp [h.permits_client hopen, Ledger.permitsRequest, h.serverOpen, hclosed]
  | requestFull hopen hkind hnone hserver hfull =>
    have hdue := h.duePoll_of_pollStep (h.not_mem_orphaned hserver) (.idle hnone)
    refine ⟨?_, h⟩
    simp [h.permits_client hopen, Ledger.permitsRequest, hdue]
  | @submit o m hopen hkind hnone hserver hsize =>
    have hdue := h.duePoll_of_pollStep (h.not_mem_orphaned hserver) (.idle hnone)
    refine ⟨?_, (h.submitted hnone hserver hopen hsize fun o' ho' ↦ ?_).woken⟩
    · simp [h.permits_client hopen, Ledger.permitsRequest, hdue, h.serverOpen, hserver]
    · -- only a saturated counter can hand out a pending identity
      have hmax : s.nextRequestId = wordMax :=
        (h.issued o' _ ho').resolve_left (lt_irrefl _)
      exact hgood ⟨⟨hopen, hkind, hnone, hserver, hsize⟩, hmax, o', hmax ▸ ho'⟩
  | @polled o _ r hopen hpoll =>
    -- Polling for an orphaned request is what the hypothesis excludes.
    have hdue := h.duePoll_of_pollStep (fun ho ↦ hgood ⟨hopen, ho⟩) hpoll
    have hpermits : l.permits (.poll .client o) (.ok (.polled r)) = true := by
      simp [h.permits_client hopen, hdue, Except.map]
    refine ⟨hpermits, ?_⟩
    cases hpoll with
    | idle | waiting => exact h
    | collect hid hm => exact (h.collected hid hm).woken
  | receivePending hopen hr =>
    refine ⟨?_, h⟩
    simp [h.permits_server hopen, Ledger.dueReceive, h.serving, hr, Except.map]
  | receiveEmpty hopen hnone hq =>
    refine ⟨?_, ?_⟩
    · simp [h.permits_server hopen, Ledger.dueReceive, h.serving, hnone, h.waiting, hq,
        h.clientOpen, Except.map]
    · exact h
  | receive hopen hnone hq =>
    refine ⟨?_, (h.received hnone hq).woken⟩
    simp [h.permits_server hopen, Ledger.dueReceive, h.serving, hnone, h.waiting, hq, Except.map]
  | replyKind hopen hkind =>
    refine ⟨?_, h⟩
    simp [h.permits_server hopen, Ledger.dueReply, h.isLight, hkind, Except.map]
  | replyClosed hopen hkind hclient =>
    refine ⟨?_, h⟩
    simp [h.permits_server hopen, Ledger.dueReply, h.isLight, hkind, h.clientOpen, hclient,
      Except.map]
  | replyNone hopen hkind hclient hnone =>
    refine ⟨?_, h⟩
    simp [h.permits_server hopen, Ledger.dueReply, h.isLight, hkind, h.clientOpen, hclient,
      h.serving, hnone, Except.map]
  | @reply m r hopen hkind hclient hr =>
    have hserving : l.serving = some r.owner := by rw [h.serving, hr]; rfl
    have hrecord : l.record (.reply .server m) (.ok .replied) =
        { l with serving := none, answered := l.answered.insert r.owner m } := by
      simp only [Ledger.record, hserving]
    rw [hrecord]
    refine ⟨?_, (h.replied hr).woken⟩
    simp [h.permits_server hopen, Ledger.dueReply, h.isLight, hkind, h.clientOpen, hclient,
      hserving, Except.map]
  | drop hopen =>
    exact ⟨by simp [Ledger.permits, h.isOpen, SessionCall.endpoint, hopen, SessionCall.fits],
      h.dropped _⟩

/-- A stray call that is answered is answered wrongly, or leaves the session malformed. -/
theorem Agrees.not_of_strays (h : Agrees s l) (hbad : Strays s l c)
    (hs : SessionStep s c r t) : ¬(t.WellFormed ∧ l.permits c r = true) := by
  rintro ⟨hwf, hpermits⟩
  match c, hbad with
  | .poll .client o, ⟨hopen, ho⟩ =>
    have hnone := h.idle (.inl (h.orphaned o ho)) o
    have hdue : l.duePoll o = .error .peerClosed := by
      simp only [Ledger.duePoll, h.answered_eq_none hnone, if_pos ho]
    have hr : r = .ok (.polled none) := by
      cases hs with
      | absent hclosed => exact absurd (hopen.symm.trans hclosed) Bool.false_ne_true.symm
      | wrongEndpoint _ hfits => cases hfits
      | polled _ hpoll =>
        cases hpoll with
        | idle => rfl
        | collect hid | waiting hid => cases hnone.symm.trans hid
      | pollClosed _ hpoll =>
        cases hpoll with
        | closed hid => cases hnone.symm.trans hid
    subst hr
    simp [h.permits_client hopen, hdue, Except.map] at hpermits
  | .request .client o m, ⟨⟨hopen, hkind, hnone, hserver, hsize⟩, hmax, o', ho'⟩ =>
    have ht : t = (s.submitted o m).woken := by
      cases hs with
      | absent hclosed => exact absurd (hopen.symm.trans hclosed) Bool.false_ne_true.symm
      | wrongEndpoint _ hfits => cases hfits
      | requestKind _ hne => exact absurd hkind hne
      | requestPolled _ _ hpoll =>
        cases hpoll with
        | collect hid | waiting hid => cases hnone.symm.trans hid
      | requestClosed _ _ hpoll =>
        cases hpoll with
        | closed hid => cases hnone.symm.trans hid
      | requestRefused _ _ _ hclosed =>
        exact absurd (hserver.symm.trans hclosed) Bool.false_ne_true.symm
      | requestFull _ _ _ _ hfull => exact absurd hsize hfull.not_gt
      | submit => rfl
    subst ht
    -- the last identity now belongs to two owners
    have hne : o' ≠ o := by
      rintro rfl
      cases hnone.symm.trans ho'
    refine hne (hwf.unique o' o wordMax (getElem?_insert_eq_some_iff.mpr (.inr ⟨hne, ho'⟩)) ?_)
    exact getElem?_insert_eq_some_iff.mpr (.inl ⟨rfl, hmax.symm⟩)

end

/-- The session is well formed, and every answer so far is one that the protocol permits. -/
def Kept (s : Session ο × Option (Ledger ο)) : Prop := s.1.WellFormed ∧ s.2.isSome = true

/-- **The protocol of a session.** No call panics, the session stays well formed and all its
answers are permitted, exactly if no owner polls after the server endpoint took its request away,
and no request reuses the last identity while it is pending. -/
theorem kept_run_iff [DecidableEq ο] (isLight : Bool) (cs : List (SessionCall ο)) :
    Machine.Safe audited Kept (Session.createPairWithKind isLight, some (.opened isLight)) cs ↔
      Machine.Along audited (fun s c ↦ ∀ l, s.2 = some l → ¬Strays s.1 l c)
        (Session.createPairWithKind isLight, some (.opened isLight)) cs := by
  refine Machine.safe_iff_along (I := fun s ↦ ∃ l, s.2 = some l ∧ Agrees s.1 l) ?_ ?_ ?_
    ⟨_, rfl, .of_idle rfl rfl rfl rfl, by simp [createPairWithKind], rfl, rfl, rfl, rfl, rfl,
      by simp [createPairWithKind, Ledger.opened], nofun, by simp [createPairWithKind]⟩
  · rintro ⟨s, _⟩ ⟨l, rfl, h⟩
    exact ⟨h.wellFormed, rfl⟩
  · rintro ⟨s, _⟩ c ⟨l, rfl, h⟩ hgood
    cases hs : session s c with
    | none => exact absurd hs (session_ne_none fun _ _ ↦ h.sound)
    | some r =>
      obtain ⟨r, t⟩ := r
      obtain ⟨hpermits, ht⟩ := h.step (hgood l rfl) (session_step hs)
      refine ⟨r, (t, some (l.record c r)), ?_, _, rfl, ht⟩
      simp [audited, hs, Ledger.audit, hpermits]
  · rintro ⟨s, _⟩ c r ⟨t, l'⟩ ⟨l, rfl, h⟩ hbad hs ⟨hwf, hsome⟩
    push Not at hbad
    obtain ⟨_, hl, hbad⟩ := hbad
    cases hl
    simp only [audited, map_eq_some_iff, Prod.mk.injEq, bind_some] at hs
    obtain ⟨⟨r', t'⟩, hs, rfl, rfl, rfl⟩ := hs
    refine h.not_of_strays hbad (session_step hs) ⟨hwf, ?_⟩
    by_contra hpermits
    simp [Ledger.audit, hpermits] at hsome

/-- An owner submits a request, the server endpoint goes away, and the owner polls. -/
def orphanedPoll : List (SessionCall Unit) :=
  [.request .client ⟨1, 7⟩ (.buffer []), .drop .server, .poll .client ⟨1, 7⟩]

/-- The orphaned owner is told nothing. -/
theorem exists_unkept_run :
    ¬∀ (isLight : Bool) (cs : List (SessionCall Unit)),
      Machine.Safe audited Kept
        (Session.createPairWithKind isLight, some (.opened isLight)) cs := by
  intro h
  obtain ⟨-, -, -, -, hsome⟩ := h false orphanedPoll
  exact Bool.false_ne_true hsome

end Nixe.Runtime
