import Nixe.Collections.Ordered

/-!
# Machine topology

The static description of a machine that the scheduler is built for: its virtual CPUs, the range
of thread priorities, and the sets of cores a thread may be bound to. Each of these types has a
checking constructor in the source and no other way in, so the condition the constructor
establishes is carried by the type.
-/

namespace Nixe.Scheduler

open List

/-- Identity of a guest process. -/
abbrev ProcessId : Type := Nat

/-- Identity of a guest thread. -/
abbrev GuestThreadId : Type := Nat

/-- Identity of a virtual CPU. -/
abbrev VirtualCpuId : Type := Nat

/-- Ways in which a machine description is rejected. -/
inductive MachineSchedulerProfileError where
  | emptyTopology
  | duplicateVirtualCpu (id : VirtualCpuId)
  | invalidPriorityRange (highest lowest : Int)
  | zeroTimeslice
deriving DecidableEq, Repr

/-- An inclusive range of priorities. Numerically smaller priorities are more urgent. -/
structure PriorityRange where
  /-- The most urgent priority. -/
  highest : Int
  /-- The least urgent priority. -/
  lowest : Int
  highest_le_lowest : highest ≤ lowest
deriving DecidableEq, Repr

namespace PriorityRange

def new (highest lowest : Int) : Except MachineSchedulerProfileError PriorityRange :=
  if h : highest > lowest then .error (.invalidPriorityRange highest lowest)
  else .ok ⟨highest, lowest, by omega⟩

def contains (r : PriorityRange) (priority : Int) : Bool :=
  decide (priority ≥ r.highest) && decide (priority ≤ r.lowest)

end PriorityRange

structure VirtualCpuDescriptor where
  id : VirtualCpuId
  cluster : Nat
deriving DecidableEq, Repr

/-- The machine a scheduler runs on. The virtual CPUs are listed in increasing order of
identity. -/
structure MachineSchedulerProfile where
  vcpus : List VirtualCpuDescriptor
  priorities : PriorityRange
  defaultTimesliceInstructions : Nat
  vcpus_ne_nil : vcpus ≠ []
  vcpus_increasing : (vcpus.map VirtualCpuDescriptor.id).Pairwise (· < ·)
  timeslice_ne_zero : defaultTimesliceInstructions ≠ 0
deriving Repr

namespace MachineSchedulerProfile

/-- The first identity shared by two neighbours, as `windows(2).find(..)` reports it. -/
def firstDuplicate : List VirtualCpuDescriptor → Option VirtualCpuId
  | a :: b :: rest => if a.id = b.id then some a.id else firstDuplicate (b :: rest)
  | _ => none

theorem increasing_of_firstDuplicate_eq_none {l : List VirtualCpuDescriptor}
    (hl : l.Pairwise fun a b ↦ a.id ≤ b.id) (hd : firstDuplicate l = none) :
    (l.map VirtualCpuDescriptor.id).Pairwise (· < ·) := by
  induction l with
  | nil => exact .nil
  | cons a l ih =>
    obtain ⟨ha, hl⟩ := pairwise_cons.mp hl
    cases l with
    | nil => simp
    | cons b l =>
      rw [firstDuplicate] at hd
      split at hd
      · cases hd
      · rename_i hab
        have hlt : a.id < b.id := lt_of_le_of_ne (ha b mem_cons_self) hab
        have htail := ih hl hd
        refine pairwise_cons.mpr ⟨fun v hv ↦ ?_, htail⟩
        rcases mem_cons.mp hv with rfl | hv
        · exact hlt
        · exact hlt.trans ((pairwise_cons.mp htail).1 v hv)

/-- The descriptors in the order in which the profile keeps them. -/
def sortById (vcpus : List VirtualCpuDescriptor) : List VirtualCpuDescriptor :=
  vcpus.insertionSort fun a b ↦ a.id ≤ b.id

theorem sortById_sorted (vcpus : List VirtualCpuDescriptor) :
    (sortById vcpus).Pairwise fun a b ↦ a.id ≤ b.id := by
  have : IsTrans VirtualCpuDescriptor fun a b ↦ a.id ≤ b.id := ⟨fun _ _ _ ↦ le_trans⟩
  have : Std.Total fun a b : VirtualCpuDescriptor ↦ a.id ≤ b.id := ⟨fun a b ↦ le_total a.id b.id⟩
  exact pairwise_insertionSort _ vcpus

theorem sortById_ne_nil {vcpus : List VirtualCpuDescriptor} (h : vcpus ≠ []) :
    sortById vcpus ≠ [] :=
  fun hs ↦ h ((hs ▸ perm_insertionSort _ vcpus : [].Perm vcpus).nil_eq).symm

def new (vcpus : List VirtualCpuDescriptor) (priorities : PriorityRange)
    (defaultTimesliceInstructions : Nat) :
    Except MachineSchedulerProfileError MachineSchedulerProfile :=
  if hv : vcpus = [] then .error .emptyTopology
  else if ht : defaultTimesliceInstructions = 0 then .error .zeroTimeslice
  else
    match hd : firstDuplicate (sortById vcpus) with
    | some duplicate => .error (.duplicateVirtualCpu duplicate)
    | none =>
      .ok
        { vcpus := sortById vcpus
          priorities := priorities
          defaultTimesliceInstructions := defaultTimesliceInstructions
          vcpus_ne_nil := sortById_ne_nil hv
          vcpus_increasing := increasing_of_firstDuplicate_eq_none (sortById_sorted vcpus) hd
          timeslice_ne_zero := ht }

/-- The identities of the virtual CPUs, in increasing order. -/
def vcpuIds (p : MachineSchedulerProfile) : List VirtualCpuId :=
  p.vcpus.map VirtualCpuDescriptor.id

/-- Membership; the source searches the sorted list by bisection. -/
def contains (p : MachineSchedulerProfile) (id : VirtualCpuId) : Bool := decide (id ∈ p.vcpuIds)

end MachineSchedulerProfile

inductive CoreSetError where
  | empty
  | unknownVirtualCpu (id : VirtualCpuId)
deriving DecidableEq, Repr

/-- A non-empty set of virtual CPUs, listed in increasing order. -/
structure CoreSet where
  cores : List VirtualCpuId
  cores_ne_nil : cores ≠ []
  cores_increasing : cores.Pairwise (· < ·)
deriving DecidableEq, Repr

namespace CoreSet

theorem sorted_dedup_increasing (cores : List VirtualCpuId) :
    (cores.insertionSort (· ≤ ·)).dedup.Pairwise (· < ·) := by
  have hle : (cores.insertionSort (· ≤ ·)).dedup.Pairwise (· ≤ ·) :=
    (pairwise_insertionSort _ cores).sublist (dedup_sublist _)
  exact (hle.and (nodup_dedup _)).imp fun h ↦ lt_of_le_of_ne h.1 h.2

def new (profile : MachineSchedulerProfile) (cores : List VirtualCpuId) :
    Except CoreSetError CoreSet :=
  let sorted := (cores.insertionSort (· ≤ ·)).dedup
  if he : sorted = [] then .error .empty
  else
    match sorted.find? fun core ↦ !profile.contains core with
    | some core => .error (.unknownVirtualCpu core)
    | none => .ok ⟨sorted, he, sorted_dedup_increasing cores⟩

/-- Membership; the source searches the sorted list by bisection. -/
def contains (c : CoreSet) (id : VirtualCpuId) : Bool := decide (id ∈ c.cores)

@[simp] theorem contains_iff {c : CoreSet} {id : VirtualCpuId} :
    c.contains id = true ↔ id ∈ c.cores := by
  simp [contains]

/-- The first core of the set that satisfies `p` is the lowest-numbered one. -/
theorem find?_eq_some_iff {c : CoreSet} {p : VirtualCpuId → Bool} {v : VirtualCpuId} :
    c.cores.find? p = some v ↔
      (v ∈ c.cores ∧ p v = true) ∧ ∀ w ∈ c.cores, p w = true → v ≤ w := by
  have hinc : c.cores.Pairwise fun a b ↦ compare a b = .lt :=
    c.cores_increasing.imp fun h ↦ Nat.compare_eq_lt.mpr h
  rw [find?_eq_some_iff_of_increasing hinc]
  simp only [Nat.compare_eq_lt, le_iff_eq_or_lt, @eq_comm _ v]

end CoreSet

/-- `MachineSchedulerProfile::all_cores`. -/
def MachineSchedulerProfile.allCores (p : MachineSchedulerProfile) : CoreSet where
  cores := p.vcpuIds
  cores_ne_nil := by simpa [vcpuIds] using p.vcpus_ne_nil
  cores_increasing := p.vcpus_increasing

/-- A machine with one virtual CPU. -/
def uniprocessor : MachineSchedulerProfile where
  vcpus := [⟨0, 0⟩]
  priorities := ⟨0, 63, by decide⟩
  defaultTimesliceInstructions := 100
  vcpus_ne_nil := by decide
  vcpus_increasing := by decide
  timeslice_ne_zero := by decide

end Nixe.Scheduler
