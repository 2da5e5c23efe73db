import Mathlib

/-!
# The invalidation log

The bounded stream of memory invalidations that the engines read. A cursor is a position in the
stream; the log is modelled by all the records ever published, of which the last
`memoryInvalidationCapacity` are retained in the ring.
-/

namespace Nixe.Memory

def memoryInvalidationCapacity : Nat := 1024

inductive MemoryInvalidationKind where
  | mapping (addressSpace start size : Nat)
  | executableContent (first : Nat) (second : Option Nat)
  | instructionCache (addressSpace : Nat)
  deriving DecidableEq, Repr

inductive MemoryInvalidationError where
  | cursorAhead (requested latest : Nat)
  | historyLost (requested oldest latest : Nat)
  | cursorExhausted
  | resourceExhausted
  deriving DecidableEq, Repr

/-- The records in the order of publication: the record at index `i` has the cursor `i + 1`. -/
structure MemoryInvalidationLog where
  records : List MemoryInvalidationKind := []
  deriving DecidableEq, Repr

namespace MemoryInvalidationLog

/-- The cursor of the last record. -/
def latest (log : MemoryInvalidationLog) : Nat := log.records.length

/-- The cursor of the oldest record that is still in the ring. -/
def oldest (log : MemoryInvalidationLog) : Nat :=
  log.latest - (min log.latest memoryInvalidationCapacity - 1)

def publish (log : MemoryInvalidationLog) (kinds : List MemoryInvalidationKind) :
    MemoryInvalidationLog := ⟨log.records ++ kinds⟩

/-- The latest cursor and the records after `cursor`, unless some of those are no longer there. -/
def readSince (log : MemoryInvalidationLog) (cursor : Nat) :
    Except MemoryInvalidationError (Nat × List MemoryInvalidationKind) :=
  if log.latest < cursor then .error (.cursorAhead cursor log.latest)
  else if cursor = log.latest then .ok (log.latest, [])
  else if cursor + 1 < log.oldest then .error (.historyLost cursor log.oldest log.latest)
  else .ok (log.latest, log.records.drop cursor)

variable {log : MemoryInvalidationLog} {cursor : Nat}

/-- What a read returns is everything after the cursor. -/
theorem readSince_eq_ok {latest : Nat} {records : List MemoryInvalidationKind}
    (h : log.readSince cursor = .ok (latest, records)) :
    cursor ≤ latest ∧ latest = log.latest ∧ records = log.records.drop cursor := by
  rw [readSince] at h
  split_ifs at h with hahead heq hlost
  · cases h
    exact ⟨Nat.le_of_eq heq, rfl, by rw [heq, MemoryInvalidationLog.latest, List.drop_length]⟩
  · cases h
    exact ⟨by omega, rfl, rfl⟩

/-- A read from a cursor that the log has reached fails only because history was lost. -/
theorem readSince_eq_error {error : MemoryInvalidationError} (hcursor : cursor ≤ log.latest)
    (h : log.readSince cursor = .error error) :
    error = .historyLost cursor log.oldest log.latest := by
  rw [readSince] at h
  split_ifs at h with hahead heq hlost
  · omega
  · exact (Except.error.inj h).symm

theorem oldest_le_latest_add_one : log.oldest ≤ log.latest + 1 := by
  rw [oldest]
  omega

/-- History is lost exactly before the oldest record that is retained. -/
theorem readSince_eq_historyLost {requested oldest latest : Nat} :
    log.readSince cursor = .error (.historyLost requested oldest latest) ↔
      cursor + 1 < log.oldest ∧
        requested = cursor ∧ oldest = log.oldest ∧ latest = log.latest := by
  have hle : log.oldest ≤ log.latest + 1 := oldest_le_latest_add_one
  rw [readSince]
  split_ifs with hahead heq hlost
  · exact ⟨nofun, fun h ↦ by omega⟩
  · exact ⟨nofun, fun h ↦ by omega⟩
  · simp only [Except.error.injEq, MemoryInvalidationError.historyLost.injEq, hlost, true_and]
    exact ⟨fun h ↦ ⟨h.1.symm, h.2.1.symm, h.2.2.symm⟩, fun h ↦ ⟨h.1.symm, h.2.1.symm, h.2.2.symm⟩⟩
  · exact ⟨nofun, fun h ↦ absurd h.1 hlost⟩

end MemoryInvalidationLog

end Nixe.Memory
