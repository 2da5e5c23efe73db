import Nixe.Scheduler.Topology

/-!
# Address-keyed wait queues

Threads that wait at an address of their process queue up in the order of arrival. A waiter keeps
the value it was queued with and an event of its own; signalling an address sets the events of the
first waiters and leaves them in the queue, for the waiters to remove themselves when they run
again. The registry also remembers who owns the mutex at an address.

Nothing but a waiter's own call removes it, which is what `contains_remove_of_ne` and its
companions say.
-/

namespace Nixe.Runtime

open Std Scheduler List

/-- A queued thread; `signalled` is the state of its event. -/
structure AddressWaiter where
  thread : GuestThreadId
  value : Nat
  signalled : Bool
deriving DecidableEq, Repr

structure AddressWaitRegistry where
  waiters : ExtTreeMap Nat (List AddressWaiter)
  owners : ExtTreeMap Nat GuestThreadId

namespace AddressWaitRegistry

def empty : AddressWaitRegistry := ⟨∅, ∅⟩

variable (r : AddressWaitRegistry) (address : Nat)

/-- The queue at `address`, empty if there is none. -/
def queue : List AddressWaiter :=
  r.waiters[address]?.getD []

/-- The first waiter of `thread` at `address`. -/
def find (thread : GuestThreadId) : Option AddressWaiter :=
  (r.queue address).find? (·.thread == thread)

def contains (thread : GuestThreadId) : Bool :=
  (r.queue address).any (·.thread == thread)

def isSignalled (thread : GuestThreadId) : Bool :=
  (r.find address thread).any (·.signalled)

def value (thread : GuestThreadId) : Option Nat :=
  (r.find address thread).map (·.value)

def enqueue (thread : GuestThreadId) (value : Nat) : AddressWaitRegistry :=
  { r with waiters := r.waiters.insert address (r.queue address ++ [⟨thread, value, false⟩]) }

def remove (thread : GuestThreadId) : AddressWaitRegistry :=
  let rest := (r.queue address).eraseP (·.thread == thread)
  -- an address without waiters has no queue
  { r with
    waiters := if rest.isEmpty then r.waiters.erase address else r.waiters.insert address rest }

/-- Signal the first `count` waiters at `address`. -/
def signal (address count : Nat) : AddressWaitRegistry :=
  match r.waiters[address]? with
  | none => r
  | some waiters =>
    { r with
      waiters := r.waiters.insert address
        ((waiters.take count).map ({ · with signalled := true }) ++ waiters.drop count) }

def signalOne : AddressWaitRegistry :=
  r.signal address 1

def setOwner (thread : GuestThreadId) : AddressWaitRegistry :=
  { r with owners := r.owners.insert address thread }

/-- `remove_owner`, without the owner it returns. -/
def removeOwner : AddressWaitRegistry :=
  { r with owners := r.owners.erase address }

/-! ## Who is queued -/

section

variable (r : AddressWaitRegistry) (a b : Nat) (t u : GuestThreadId)

theorem queue_enqueue (v : Nat) :
    (r.enqueue b u v).queue a = if a = b then r.queue a ++ [⟨u, v, false⟩] else r.queue a := by
  rw [queue, enqueue, ExtTreeMap.getElem?_insert]
  by_cases h : a = b
  · simp [h]
  · simp [h, Ne.symm h, queue]

theorem contains_enqueue (v : Nat) :
    (r.enqueue b u v).contains a t = (r.contains a t || (decide (a = b) && u == t)) := by
  rw [contains, queue_enqueue]
  by_cases h : a = b
  · simp [h, contains]
  · simp [h, contains]

theorem queue_remove :
    (r.remove b u).queue a =
      if a = b then (r.queue a).eraseP (·.thread == u) else r.queue a := by
  by_cases h : a = b
  · subst h
    rw [if_pos rfl, queue, remove]
    split
    · rename_i hempty
      simp [isEmpty_iff.mp hempty]
    · simp
  · rw [if_neg h, queue, remove]
    split
    · simp [Ne.symm h, queue, ExtTreeMap.getElem?_erase]
    · simp [Ne.symm h, queue, ExtTreeMap.getElem?_insert]

/-- Removing a thread from a queue keeps the others. -/
theorem contains_remove_of_ne (h : t ≠ u) : (r.remove b u).contains a t = r.contains a t := by
  rw [contains, queue_remove]
  split
  · rw [contains, Bool.eq_iff_iff, any_eq_true, any_eq_true]
    constructor
    · rintro ⟨w, hw, ht⟩
      exact ⟨w, mem_of_mem_eraseP hw, ht⟩
    · rintro ⟨w, hw, ht⟩
      refine ⟨w, (mem_eraseP_of_neg ?_).mpr hw, ht⟩
      simp_all
  · rfl

/-- Signalling keeps every waiter in its queue. -/
@[simp] theorem contains_signal (count : Nat) :
    (r.signal b count).contains a t = r.contains a t := by
  rw [signal]
  split
  · rfl
  · rename_i waiters hw
    rw [contains, queue, ExtTreeMap.getElem?_insert]
    by_cases h : a = b
    · subst h
      have hany : ((waiters.take count).map ({ · with signalled := true })).any (·.thread == t) =
          (waiters.take count).any (·.thread == t) := by
        rw [any_map]
        rfl
      rw [contains, queue, hw]
      simp only [Std.compare_self, if_true, Option.getD_some, any_append, hany]
      rw [← any_append, take_append_drop]
    · simp [Ne.symm h, contains, queue]

@[simp] theorem contains_signalOne : (r.signalOne b).contains a t = r.contains a t :=
  r.contains_signal a b t 1

/-- A signalled thread is queued with a value. -/
theorem exists_value_of_isSignalled {r : AddressWaitRegistry} {a : Nat} {t : GuestThreadId}
    (h : r.isSignalled a t = true) : ∃ v, r.value a t = some v := by
  rw [isSignalled, Option.any_eq_true] at h
  obtain ⟨w, hw, -⟩ := h
  exact ⟨w.value, by rw [value, hw, Option.map_some]⟩

theorem contains_of_isSignalled {r : AddressWaitRegistry} {a : Nat} {t : GuestThreadId}
    (h : r.isSignalled a t = true) : r.contains a t = true := by
  rw [isSignalled, Option.any_eq_true] at h
  obtain ⟨w, hw, -⟩ := h
  rw [find, List.find?_eq_some_iff_append] at hw
  obtain ⟨ht, before, after, hqueue, -⟩ := hw
  simp [contains, hqueue, ht]

end

end AddressWaitRegistry

end Nixe.Runtime
