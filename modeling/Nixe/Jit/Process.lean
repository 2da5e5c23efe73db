import Nixe.Effect.Threads
import Nixe.Effect.Word
import Nixe.Collections.Ordered
import Nixe.Jit.Region

/-!
# The compilation process

The state that all guest threads of a process share with the background compilers: the lookup
nodes, whose fields are read and written without a lock, the tables behind the process lock, the
queue of background requests and the instruction memory with its invalidation log.

Three components are auxiliary: no step reads them. `compiler` names the thread that took a node to
`compilingLcq`, `publications` lists the bodies that were published, and `lost` lists the parts of
the log, from one cursor to another, that a reconciliation found to be overwritten. A published
region also keeps the words it was compiled from.
-/

namespace Nixe.Jit

open Std Memory

/-! ## Lookup nodes -/

/-- A process compiles for one address space and one platform; its keys differ in the start. -/
abbrev RegionKey : Type := GuestAddress

inductive EntryState where
  | empty
  | compilingLcq
  | lcq
  | hcqQueued
  | hcq
  deriving DecidableEq, Repr

/-- The states of a node whose entry is the code of a region. -/
def EntryState.published : EntryState → Bool
  | .empty => false
  | .compilingLcq => false
  | .lcq => true
  | .hcqQueued => true
  | .hcq => true

/-- `NativeLookupNode`. A node that no lookup has created yet is in its initial state. The countdown
to a promotion is left out: promotions are requested at any time. -/
structure Node where
  entry : Nat := 0
  generation : Nat := 0
  state : EntryState := .empty
  deriving DecidableEq, Repr

/-! ## Regions and what invalidates them -/

/-- A word fetched for a compilation, and the position of the log at that moment. -/
structure Fetch where
  pc : GuestAddress
  dependencies : CodeDependencies
  cursor : Nat
  deriving DecidableEq, Repr

structure PublishedRegion where
  key : RegionKey
  entry : Nat
  dependencies : List CodePageDependency
  mappingDependencies : List CodePageSpan
  fetches : List Fetch
  entry_ne_zero : entry ≠ 0
  deriving DecidableEq

structure InvalidationSummary where
  all : Bool := false
  physicalPages : List Nat := []
  mappingRanges : List (Nat × Nat) := []
  deriving DecidableEq, Repr

def mappingRangeOverlaps (span : CodePageSpan) (start size : Nat) : Bool :=
  size ≠ 0 && (start < span.stop && span.start.toNat < min (start + size) (2 ^ 64))

namespace InvalidationSummary

def add (addressSpace : Nat) (summary : InvalidationSummary) :
    MemoryInvalidationKind → InvalidationSummary
  | .mapping changed start size =>
    if changed = addressSpace then
      { summary with mappingRanges := summary.mappingRanges ++ [(start, size)] }
    else summary
  | .instructionCache changed =>
    if changed = addressSpace then { summary with all := true } else summary
  | .executableContent first second =>
    { summary with physicalPages := summary.physicalPages ++ first :: second.toList }

/-- `summarize_invalidations`. -/
def summarize (addressSpace : Nat) (records : List MemoryInvalidationKind) :
    InvalidationSummary := records.foldl (add addressSpace) {}

/-- A mapping that changed overlaps a code page of the region. -/
def affectsMapping (summary : InvalidationSummary) (region : PublishedRegion) : Bool :=
  summary.mappingRanges.any fun range ↦
    region.mappingDependencies.any fun span ↦ mappingRangeOverlaps span range.1 range.2

def affectsPublished (summary : InvalidationSummary) (region : PublishedRegion) : Bool :=
  summary.all || summary.affectsMapping region ||
    region.dependencies.any fun dependency ↦ summary.physicalPages.contains dependency.page

end InvalidationSummary

/-! ## The shared state -/

structure HcqRequest where
  key : RegionKey
  generation : Nat
  invalidationCursor : Nat
  deriving DecidableEq, Repr

/-- `HcqStackState` with the `closed` flag. -/
structure HcqScheduler where
  pending : List HcqRequest := []
  capacity : Nat := 0
  shutdown : Bool := false
  closed : Bool := false
  deriving DecidableEq, Repr

def hcqPendingPerWorker : Nat := 64

inductive Tier where
  | lcq
  | hcq
  deriving DecidableEq, Repr

structure Publication where
  tier : Tier
  key : RegionKey
  generation : Nat
  deriving DecidableEq, Repr

structure JitProcess (ι : Type) where
  memory : InstructionMemory
  log : MemoryInvalidationLog := {}
  node : RegionKey → Node := fun _ ↦ {}
  /-- The holder of the process lock. -/
  lock : Option ι := none
  regions : ExtTreeMap RegionKey PublishedRegion := ∅
  /-- The pairs of a page and a key of `physical_dependencies`. -/
  physicalDependencies : List (Nat × RegionKey) := []
  retired : List PublishedRegion := []
  invalidationCursor : Nat := 0
  nativeBytes : Nat := 0
  failure : Option DirectJitError := none
  /-- The flag that stops the process. -/
  pending : Bool := false
  /-- The threads that sleep on `published`. -/
  waiters : List ι := []
  hcq : HcqScheduler := {}
  hcqStarted : Bool := false
  compiler : RegionKey → Option ι := fun _ ↦ none
  publications : List Publication := []
  lost : List (Nat × Nat) := []

namespace JitProcess

variable {ι : Type} (s : JitProcess ι)

def setNode (k : RegionKey) (n : Node) : JitProcess ι :=
  { s with node := Function.update s.node k n }

def setEntry (k : RegionKey) (entry : Nat) : JitProcess ι := s.setNode k { s.node k with entry }

def setState (k : RegionKey) (state : EntryState) : JitProcess ι :=
  s.setNode k { s.node k with state }

@[simp] theorem node_setNode_self (k : RegionKey) (n : Node) : (s.setNode k n).node k = n :=
  Function.update_self ..

theorem node_setNode_of_ne {k l : RegionKey} (h : l ≠ k) (n : Node) :
    (s.setNode k n).node l = s.node l := Function.update_of_ne h ..

def unlock : JitProcess ι := { s with lock := none }

/-- `published.notify_all()`. -/
def notifyAll : JitProcess ι := { s with waiters := [] }

/-- The region enters the tables, with the pages it depends on. -/
def insertRegion (k : RegionKey) (region : PublishedRegion) : JitProcess ι :=
  { s with
    physicalDependencies := s.physicalDependencies ++ region.dependencies.map fun d ↦ (d.page, k)
    regions := s.regions.insert k region }

/-- A replacement is taken back. -/
def restoreRegion (k : RegionKey) : Option PublishedRegion → JitProcess ι
  | some previous => { s with regions := s.regions.insert k previous }
  | none => { s with regions := s.regions.erase k }

/-- The keys that `reconcile_invalidations` retires for a summary. -/
def affectedKeys (summary : InvalidationSummary) : List RegionKey :=
  if summary.all then s.regions.keys
  else
    (s.physicalDependencies.filter fun d ↦ summary.physicalPages.contains d.1).map Prod.snd ++
      ((s.regions.toList.map Prod.snd ++ s.retired).filter summary.affectsMapping).map
        PublishedRegion.key

end JitProcess

end Nixe.Jit
