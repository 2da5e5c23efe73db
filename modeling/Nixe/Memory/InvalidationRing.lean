import Nixe.Effect.Fallible
import Nixe.Effect.Word
import Nixe.Memory.InvalidationLog

/-!
# The ring of the invalidation log

The records that are retained stand in a ring, the one with the cursor `c` in slot `c - 1` modulo
the capacity. A commit of any length overwrites the oldest ones, so that the ring has the last
records of the stream; a reader finds a record in every slot it looks at, and the ring reads like
the unbounded `MemoryInvalidationLog`. The host memory for what is read is taken to be there.
-/

namespace Nixe.Memory

open List

inductive MemoryInvalidationOrigin where
  | mapping
  | deviceWrite
  | hostWrite
  | cacheMaintenance
  | unknown
  deriving DecidableEq, Repr

def defaultOrigin : MemoryInvalidationKind → MemoryInvalidationOrigin
  | .mapping .. => .mapping
  | .instructionCache _ => .cacheMaintenance
  | .executableContent .. => .unknown

structure MemoryInvalidation where
  cursor : Nat
  kind : MemoryInvalidationKind
  origin : MemoryInvalidationOrigin
  deriving DecidableEq, Repr

/-- The slot of a cursor. Cursors start at one. -/
def slot (cursor : Nat) : Fin memoryInvalidationCapacity :=
  ⟨(cursor - 1) % memoryInvalidationCapacity, Nat.mod_lt _ (by decide)⟩

structure InvalidationRing where
  records : Fin memoryInvalidationCapacity → Option MemoryInvalidation := fun _ ↦ none
  count : Nat := 0

def InvalidationRing.store (ring : InvalidationRing) (record : MemoryInvalidation) :
    InvalidationRing where
  records := Function.update ring.records (slot record.cursor) (some record)
  count := min (ring.count + 1) memoryInvalidationCapacity

/-- The cursor of the last record, and the ring behind its lock. -/
structure RingLog where
  latest : Nat := 0
  ring : InvalidationRing := {}

/-- A reservation of one record, or of a batch, whose records have the default origin of their kind
unless one is given. -/
inductive Reservation where
  | single (kind : MemoryInvalidationKind) (origin : MemoryInvalidationOrigin)
  | batch (kinds : List MemoryInvalidationKind) (origin : Option MemoryInvalidationOrigin)

namespace RingLog

/-- The first cursor that is reserved. -/
def reserve (log : RingLog) : Reservation → Option Nat
  | .single .. => checkedAdd log.latest 1
  | .batch kinds _ => do
    let first ← checkedAdd log.latest 1
    let _ ← checkedAdd first (kinds.length - 1)
    return first

/-- The loop over a batch, whose next record has the cursor `value`. -/
def storeAll (origin : Option MemoryInvalidationOrigin) :
    InvalidationRing → Nat → List MemoryInvalidationKind → InvalidationRing
  | ring, _, [] => ring
  | ring, value, kind :: kinds =>
    storeAll origin (ring.store ⟨value, kind, origin.getD (defaultOrigin kind)⟩) (value + 1) kinds

def commit (log : RingLog) (first : Nat) : Reservation → RingLog
  | .single kind origin => ⟨first, log.ring.store ⟨first, kind, origin⟩⟩
  | .batch kinds origin =>
    if kinds = [] then log
    else ⟨first + kinds.length - 1, storeAll origin log.ring first kinds⟩

/-- Reserve and commit. -/
def publish (log : RingLog) (reservation : Reservation) : Except MemoryInvalidationError RingLog :=
  match log.reserve reservation with
  | none => .error .cursorExhausted
  | some first => .ok (log.commit first reservation)

/-- The loop of a read over the next `count` cursors; `none` is a failed `expect` or
`debug_assert_eq!`. -/
def readRecords (ring : InvalidationRing) :
    Nat → Nat → List MemoryInvalidation → Option (List MemoryInvalidation)
  | 0, _, output => some output
  | count + 1, value, output =>
    match ring.records (slot value) with
    | none => none
    | some record =>
      if record.cursor = value then readRecords ring count (value + 1) (output ++ [record])
      else none

/-- The latest cursor and the output with the records after `after`; `none` is a panic. -/
def readSince (log : RingLog) (after : Nat) (output : List MemoryInvalidation) :
    Option (Except MemoryInvalidationError (Nat × List MemoryInvalidation)) :=
  if log.latest < after then some (.error (.cursorAhead after log.latest))
  else if after = log.latest then some (.ok (log.latest, output))
  else
    match checkedSub log.latest (log.ring.count - 1) with
    | none => none
    | some oldest =>
      if saturatingAdd after 1 < oldest then
        some (.error (.historyLost after oldest log.latest))
      else
        (readRecords log.ring (log.latest - after) (after + 1) output).map fun output ↦
          .ok (log.latest, output)

end RingLog

/-! ## The records that are retained -/

/-- A record without its cursor. -/
abbrev InvalidationEntry : Type := MemoryInvalidationKind × MemoryInvalidationOrigin

/-- What a reservation adds to the stream. -/
def Reservation.entries : Reservation → List InvalidationEntry
  | .single kind origin => [(kind, origin)]
  | .batch kinds origin => kinds.map fun kind ↦ (kind, origin.getD (defaultOrigin kind))

/-- The records of a stream, with their cursors. -/
def numbered (history : List InvalidationEntry) : List MemoryInvalidation :=
  history.mapIdx fun i entry ↦ ⟨i + 1, entry.1, entry.2⟩

/-- The ring has the last records of the stream. -/
structure InvalidationRing.Retains (ring : InvalidationRing) (history : List InvalidationEntry) :
    Prop where
  count : ring.count = min history.length memoryInvalidationCapacity
  records : ∀ i record, (numbered history)[i]? = some record →
    history.length ≤ i + memoryInvalidationCapacity → ring.records (slot (i + 1)) = some record

/-- The log after the records of the stream were committed. -/
structure RingLog.Follows (log : RingLog) (history : List InvalidationEntry) : Prop where
  latest : log.latest = history.length
  lt : log.latest < wordBound
  retains : log.ring.Retains history

variable {ring : InvalidationRing} {log log' : RingLog} {reservation : Reservation} {after : Nat}
  {history : List InvalidationEntry} {output : List MemoryInvalidation}

namespace InvalidationRing.Retains

theorem store (h : ring.Retains history) (entry : InvalidationEntry) :
    (ring.store ⟨history.length + 1, entry.1, entry.2⟩).Retains (history ++ [entry]) where
  count := by
    simp only [InvalidationRing.store, h.count, length_append, length_singleton]
    omega
  records i record hrecord hi := by
    rw [length_append, length_singleton] at hi
    rw [numbered, mapIdx_append] at hrecord
    by_cases hlt : i < history.length
    · rw [getElem?_append_left (by simpa using hlt)] at hrecord
      refine (Function.update_of_ne ?_ ..).trans (h.records i record hrecord (by omega))
      simp only [slot, memoryInvalidationCapacity, ne_eq, Fin.mk.injEq] at hi ⊢
      omega
    · rw [getElem?_append_right (by simpa using hlt), length_mapIdx] at hrecord
      obtain ⟨rfl, rfl⟩ : i = history.length ∧ _ = record := by
        rcases hsub : i - history.length with _ | k <;> rw [hsub] at hrecord
        · exact ⟨by omega, Option.some.inj hrecord⟩
        · exact nomatch hrecord
      simp [InvalidationRing.store]

theorem storeAll {origin : Option MemoryInvalidationOrigin} {kinds : List MemoryInvalidationKind}
    (h : ring.Retains history) :
    (RingLog.storeAll origin ring (history.length + 1) kinds).Retains
      (history ++ (Reservation.batch kinds origin).entries) := by
  induction kinds generalizing ring history with
  | nil => simpa [Reservation.entries, RingLog.storeAll] using h
  | cons kind kinds ih =>
    simpa [Reservation.entries, RingLog.storeAll] using
      ih (h.store (kind, origin.getD (defaultOrigin kind)))

/-- A read of cursors that are retained finds all of them. -/
theorem readRecords (h : ring.Retains history) {count : Nat}
    (hcount : after + count = history.length) (hle : count ≤ memoryInvalidationCapacity) :
    RingLog.readRecords ring count (after + 1) output =
      some (output ++ (numbered history).drop after) := by
  induction count generalizing after output with
  | zero => simp [RingLog.readRecords, numbered, ← hcount]
  | succ count ih =>
    have hlt : after < (numbered history).length := by
      rw [numbered, length_mapIdx]
      omega
    have hrecord := h.records after _ (getElem?_eq_getElem hlt) (by omega)
    have hrest : RingLog.readRecords ring count (after + 1 + 1)
        (output ++ [(numbered history)[after]]) = _ := ih (by omega) (by omega)
    rw [RingLog.readRecords, hrecord, drop_eq_getElem_cons hlt]
    simpa [numbered] using hrest

end InvalidationRing.Retains

namespace RingLog.Follows

theorem publish (h : log.Follows history) (hpublish : log.publish reservation = .ok log') :
    log'.Follows (history ++ reservation.entries) := by
  rw [RingLog.publish] at hpublish
  split at hpublish <;> [exact nomatch hpublish; skip]
  rename_i first hreserve
  obtain rfl := Except.ok.inj hpublish
  cases reservation with
  | single kind origin =>
    obtain ⟨hlt, rfl⟩ := checkedAdd_eq_some_iff.mp hreserve
    rw [h.latest] at hlt ⊢
    exact ⟨by simp [commit, Reservation.entries], hlt, h.retains.store (kind, origin)⟩
  | batch kinds origin =>
    simp only [reserve, Option.bind_eq_bind, Option.bind_eq_some_iff, checkedAdd_eq_some_iff]
      at hreserve
    obtain ⟨_, ⟨-, rfl⟩, _, ⟨hlt, -⟩, ⟨⟩⟩ := hreserve
    rw [h.latest] at hlt ⊢
    rw [commit]
    split_ifs with hempty
    · simpa [hempty, Reservation.entries] using h
    · exact ⟨by simp [Reservation.entries], by simp only; omega, h.retains.storeAll⟩

/-- The log after reservations that were committed one after another. -/
theorem publishAll {reservations : List Reservation} (h : log.Follows history)
    (hpublish : reservations.foldlM RingLog.publish log = .ok log') :
    log'.Follows (history ++ reservations.flatMap Reservation.entries) := by
  induction reservations generalizing log history with
  | nil =>
    cases hpublish
    simpa using h
  | cons reservation reservations ih =>
    obtain ⟨log₁, hfirst, hrest⟩ := bind_eq_ok_iff.mp hpublish
    simpa using ih (h.publish hfirst) hrest

/-- The ring reads like the log of all records. -/
theorem readSince (h : log.Follows history) (after : Nat) (output : List MemoryInvalidation) :
    log.readSince after output =
      some ((MemoryInvalidationLog.readSince ⟨history.map Prod.fst⟩ after).map fun r ↦
        (r.1, output ++ (numbered history).drop after)) := by
  obtain ⟨hlatest, hlt, hretains⟩ := h
  have hcapacity : 0 < memoryInvalidationCapacity := by decide
  have hcount := hretains.count
  rw [← hlatest] at hcount
  simp only [RingLog.readSince, MemoryInvalidationLog.readSince, MemoryInvalidationLog.oldest,
    MemoryInvalidationLog.latest, length_map, ← hlatest, checkedSub, hcount]
  by_cases hahead : log.latest < after
  · rw [if_pos hahead, if_pos hahead]
    rfl
  rw [if_neg hahead, if_neg hahead]
  by_cases heq : after = log.latest
  · simp [heq, numbered, hlatest, Except.map]
  have hnext : saturatingAdd after 1 = after + 1 := by
    simp only [saturatingAdd, wordMax, wordBound] at hlt ⊢
    omega
  simp only [if_neg heq, hnext, show min log.latest memoryInvalidationCapacity - 1 ≤ log.latest by
    omega, if_true]
  split_ifs with hlost
  · rfl
  · rw [hretains.readRecords (by omega) (by omega)]
    rfl

end RingLog.Follows

/-- **The invalidation log.** After any committed reservations, a read from a cursor the log has
reached returns the records after it, as they were committed, if all of them are retained, and says
that history was lost otherwise. -/
theorem readSince_exact (reservations : List Reservation) (log : RingLog)
    (h : reservations.foldlM RingLog.publish {} = .ok log) (after : Nat)
    (hafter : after ≤ log.latest) (output : List MemoryInvalidation) :
    log.latest = (reservations.flatMap Reservation.entries).length ∧
      log.readSince after output =
        if log.latest - after ≤ min memoryInvalidationCapacity log.latest then
          some (.ok (log.latest,
            output ++ (numbered (reservations.flatMap Reservation.entries)).drop after))
        else
          some (.error (.historyLost after
            (log.latest + 1 - min memoryInvalidationCapacity log.latest) log.latest)) := by
  have hempty : RingLog.Follows {} [] := ⟨rfl, by decide, rfl, nofun⟩
  have hfollows := hempty.publishAll h
  rw [nil_append] at hfollows
  refine ⟨hfollows.latest, ?_⟩
  have hcapacity : 0 < memoryInvalidationCapacity := by decide
  rw [hfollows.readSince]
  simp only [MemoryInvalidationLog.readSince, MemoryInvalidationLog.oldest,
    MemoryInvalidationLog.latest, length_map, ← hfollows.latest, if_neg (Nat.not_lt.mpr hafter)]
  by_cases hkept : log.latest - after ≤ min memoryInvalidationCapacity log.latest
  · rw [if_pos hkept, if_neg (show ¬after + 1 < _ by omega)]
    split_ifs <;> rfl
  · rw [if_neg hkept, if_neg (by omega), if_pos (by omega)]
    simp only [Except.map, Option.some.injEq, Except.error.injEq,
      MemoryInvalidationError.historyLost.injEq, true_and, and_true]
    omega

/-- A batch of which a reader has seen the first record. -/
theorem readSince_exact_batch :
    ∃ log, [.batch [.instructionCache 1, .mapping 1 0 4096] none].foldlM RingLog.publish {} =
        .ok log ∧
      log.readSince 1 [] = some (.ok (2, [⟨2, .mapping 1 0 4096, .mapping⟩])) :=
  ⟨_, rfl, (readSince_exact [.batch [.instructionCache 1, .mapping 1 0 4096] none] _ rfl 1
    (by decide) []).2⟩

end Nixe.Memory
