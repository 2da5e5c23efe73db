import Nixe.Jit.Process

/-!
# The threads of a compilation process

The program of a thread, one constructor of `Pc` for each place between two accesses to the shared
state. A step is one such access: a load, a store or a compare-exchange of a node field, the
acquisition of a lock, a wait, a notification, a read of instruction memory or of its log. Data
behind the process lock is used together with the access next to it, and a lock is released with
the last access made under it; no other thread can tell the difference.

A thread is idle between calls. It may then call any of the entry points of the process, serve the
background queue, ask for a promotion while it runs native code, or change guest memory. Where the
source leaves a choice to its environment, the choice is an argument of the step: the order in which
the search for a region visits addresses, the outcome of code generation, the iteration order of a
hash set, a spurious wake-up.
-/

namespace Nixe.Jit

open Std Memory

/-- The compilation a thread is at. `outer` holds the generations of the calls of `entry_for` that
wait for the result of a nested one. -/
inductive Job where
  | lcq (key : RegionKey) (generation cursor : Nat) (outer : List Nat)
  | hcq (request : HcqRequest)
  deriving DecidableEq, Repr

namespace Job

def key : Job → RegionKey
  | lcq key _ _ _ => key
  | hcq request => request.key

def generation : Job → Nat
  | lcq _ generation _ _ => generation
  | hcq request => request.generation

/-- The log position from which the result is revalidated. -/
def cursor : Job → Nat
  | lcq _ _ cursor _ => cursor
  | hcq request => request.invalidationCursor

end Job

/-- What a compilation has read so far. -/
structure Reading where
  capture : Capture := {}
  fetches : List Fetch := []
  deriving DecidableEq, Repr

/-- Where `reconcile_invalidations` was called from. -/
inductive Resume where
  | entryFor (key : RegionKey) (outer : List Nat)
  | commit (job : Job) (region : PublishedRegion)
  | hcqFailed (request : HcqRequest) (error : DirectJitError)
  | publishedEntryFor (key : RegionKey)
  | reconcile
  | shutdown
  deriving DecidableEq

inductive Pc where
  /-- Between calls, with the cursor of the entry that was last handed out. -/
  | idle (cursor : Option Nat)
  -- `reconcile_invalidations`, under the lock
  | reconcile (resume : Resume)
  | retire (keys : List RegionKey) (resume : Resume)
  | clearEntry (region : PublishedRegion) (key : RegionKey) (keys : List RegionKey)
      (resume : Resume)
  | bumpGeneration (region : PublishedRegion) (key : RegionKey) (keys : List RegionKey)
      (resume : Resume)
  | storeEmpty (region : PublishedRegion) (key : RegionKey) (keys : List RegionKey)
      (resume : Resume)
  -- `entry_for`
  | entryLock (key : RegionKey) (outer : List Nat)
  | entryCheck (key : RegionKey) (outer : List Nat)
  | entryLoad (key : RegionKey) (outer : List Nat)
  | entryState (key : RegionKey) (outer : List Nat)
  | beginLcq (key : RegionKey) (outer : List Nat)
  | beforeWait (key : RegionKey) (outer : List Nat)
  | waiting (key : RegionKey) (outer : List Nat)
  -- `compile_lcq` and `compile_hcq`
  | discover (job : Job) (reading : Reading)
  | queryPage (job : Job) (reading : Reading) (pc : GuestAddress) (bits : BitVec 32)
  | generate (job : Job) (reading : Reading)
  | commitLock (job : Job) (region : PublishedRegion) (nativeBytes : Nat)
  | revalidate (job : Job) (region : PublishedRegion)
  | commitPending (job : Job) (region : PublishedRegion) (affected : Bool)
  | commitOwner (job : Job) (region : PublishedRegion) (affected : Bool)
  | commitFaults (job : Job) (region : PublishedRegion)
  | commitInsert (job : Job) (region : PublishedRegion)
  | publishCheck (job : Job) (region : PublishedRegion) (previous : Option PublishedRegion)
  | publishEntry (job : Job) (region : PublishedRegion) (previous : Option PublishedRegion)
  | publishState (job : Job) (region : PublishedRegion) (previous : Option PublishedRegion)
  | publishUnlock (job : Job) (region : PublishedRegion)
  | publishNotify (job : Job) (cursor : Nat)
  | staleNotify (key : RegionKey) (outer : List Nat)
  | commitRestore (request : HcqRequest)
  | commitRestored
  -- the error path of `entry_for`
  | abortLoad (key : RegionKey) (generation : Nat) (outer : List Nat) (error : DirectJitError)
  | abortExchange (key : RegionKey) (generation : Nat) (outer : List Nat)
      (error : DirectJitError)
  | abortNotify (key : RegionKey) (outer : List Nat) (error : DirectJitError)
  -- the background worker
  | pop
  | hcqGeneration (request : HcqRequest)
  | hcqState (request : HcqRequest)
  | hcqEntry (request : HcqRequest)
  | hcqErrorLock (request : HcqRequest) (error : DirectJitError)
  | hcqRecheck (request : HcqRequest) (error : DirectJitError)
  | closeQueue (request : HcqRequest)
  | closeLock (requests : List HcqRequest)
  | closeRestore (requests : List HcqRequest)
  | failLock (error : DirectJitError)
  | backgroundNotify (worker : Bool)
  -- `request_hcq`
  | requestClosed (key : RegionKey) (cursor : Nat)
  | requestQueue (key : RegionKey) (cursor : Nat)
  | requestGeneration (key : RegionKey) (cursor : Nat)
  | requestPush (request : HcqRequest)
  | requestRestore (request : HcqRequest)
  | requestExchange (request : HcqRequest)
  -- `published_entry_for`, `reconcile` and `shutdown`
  | lookupLock (resume : Resume)
  | lookupCheck (key : RegionKey)
  | lookupLoad (key : RegionKey)
  | shutdownStore
  | shutdownQueue
  | shutdownLock
  -- `assert!(previous.is_none())` failed
  | panicked
  deriving DecidableEq

/-- The calls an idle thread can make. -/
inductive Call where
  | entryFor (key : RegionKey)
  | publishedEntryFor (key : RegionKey)
  | reconcile
  | requestHcq (key : RegionKey)
  | startHcqWorkers (workers : Nat)
  | serveQueue
  | shutdown
  | changeMemory (memory : InstructionMemory) (records : List MemoryInvalidationKind)

/-- The code generator's result. -/
structure CompiledRegion where
  entry : Nat
  nativeBytes : Nat
  entry_ne_zero : entry ≠ 0

/-- What the environment decides in a step. -/
inductive Choice where
  | go
  | call (call : Call)
  | fetch (pc : GuestAddress)
  | compiled (result : Except (DirectJitErrorKind × String) CompiledRegion)
  | registered (failure : Option String)
  | retire (key : RegionKey)
  | wake

inductive Answer where
  | quiet
  | entry (key : RegionKey) (entry cursor : Nat)
  | noEntry
  | error (error : DirectJitError)
  | panic
  deriving DecidableEq, Repr

/-! ## Where a thread goes on -/

/-- After an error of a compilation. -/
def Job.fail : Job → DirectJitError → Pc
  | .lcq key generation _ outer, error => .abortLoad key generation outer error
  | .hcq request, error =>
    if error.kind = .capacity then .closeQueue request else .failLock error

/-- After an error of the search for a region. -/
def Job.failDiscovery : Job → DirectJitError → Pc
  | .lcq key generation _ outer, error => .abortLoad key generation outer error
  | .hcq request, error => .hcqErrorLock request error

/-- After an error that `entry_for` returns: to the caller, or to the call it is nested in. -/
def failEntry (key : RegionKey) (outer : List Nat) (error : DirectJitError) : Answer × Pc :=
  match outer with
  | [] => (.error error, .idle none)
  | generation :: outer => (.quiet, .abortLoad key generation outer error)

/-- After an error of `reconcile_invalidations`. -/
def Resume.fail (error : DirectJitError) : Resume → Answer × Pc
  | entryFor key outer => failEntry key outer error
  | commit job _ => (.quiet, job.fail error)
  | hcqFailed request _ => (.quiet, (Job.hcq request).fail error)
  | publishedEntryFor _ => (.error error, .idle none)
  | reconcile => (.error error, .idle none)
  | shutdown => (.error error, .idle none)

section

variable {ι : Type} [DecidableEq ι] (cpu : ProcessCpuContext) (maxNativeCodeBytes : Nat)

/-- An idle thread makes a call. -/
def callStep (cursor : Option Nat) (s : JitProcess ι) :
    Call → Option (Answer × Pc × JitProcess ι)
  | .entryFor key => some (.quiet, .entryLock key [], s)
  | .publishedEntryFor key => some (.quiet, .lookupLock (.publishedEntryFor key), s)
  | .reconcile => some (.quiet, .lookupLock .reconcile, s)
  | .requestHcq key => cursor.map fun c ↦ (.quiet, .requestClosed key c, s)
  | .startHcqWorkers workers =>
    -- the exchange of `hcq_started` lets one caller configure the queue
    if s.hcqStarted then some (.quiet, .idle cursor, s)
    else
      some (.quiet, .idle cursor,
        { s with
          hcqStarted := true
          hcq := { s.hcq with capacity := hcqPendingPerWorker * workers } })
  | .serveQueue => some (.quiet, .pop, s)
  | .shutdown => some (.quiet, .shutdownStore, s)
  | .changeMemory memory records =>
    some (.quiet, .idle cursor, { s with memory, log := s.log.publish records })

/-- A step that takes the process lock. -/
def acquire (t : ι) (s : JitProcess ι) (pc : Pc) : Option (Answer × Pc × JitProcess ι) :=
  if s.lock = none then some (.quiet, pc, { s with lock := some t }) else none

/-- A step of `reconcile_invalidations` once the keys are known, and what comes after it. -/
def resumeStep (s : JitProcess ι) : Resume → Answer × Pc × JitProcess ι
  | .entryFor key outer => (.quiet, .entryCheck key outer, s)
  | .commit job region => (.quiet, .revalidate job region, s)
  | .hcqFailed request error => (.quiet, .hcqRecheck request error, s)
  | .publishedEntryFor key => (.quiet, .lookupCheck key, s)
  | .reconcile => (.quiet, .idle none, s.unlock)
  | .shutdown => (.quiet, .idle none, s.notifyAll.unlock)

/-- The checks of `failure` and `pending` that precede a lookup. -/
def lookupFailure (s : JitProcess ι) : Option DirectJitError :=
  match s.failure with
  | some error => some error
  | none => if s.pending then some .shutdown else none

/-- The node is no longer in the state in which `compile_hcq` found it. -/
def hcqOvertaken (s : JitProcess ι) (request : HcqRequest) : Bool :=
  (s.node request.key).generation ≠ request.generation ||
    ((s.node request.key).state ≠ .hcqQueued || (s.node request.key).entry = 0)

/-- The compare-exchange of a node state. -/
def exchange (s : JitProcess ι) (key : RegionKey) (old new : EntryState) : JitProcess ι :=
  if (s.node key).state = old then s.setState key new else s

/-- `restore_lcq` and `restore_lcq_without_promotion`, under the process lock. -/
def restoreLcq (s : JitProcess ι) (request : HcqRequest) : JitProcess ι :=
  if (s.node request.key).generation = request.generation then
    exchange s request.key .hcqQueued .lcq
  else s

/-- Whether the records after the cursor of the job affect the region: `invalidations_since`. -/
def revalidation (s : JitProcess ι) (job : Job) (region : PublishedRegion) :
    Except DirectJitError Bool :=
  match s.log.readSince job.cursor with
  | .ok (_, records) =>
    .ok ((InvalidationSummary.summarize cpu.addressSpaceId records).affectsPublished region)
  | .error (.historyLost _ _ _) => .ok true
  | .error error => .error (.cannotRevalidate error)

/-- `reconcile_invalidations` up to the keys it retires. -/
def reconcileStep (s : JitProcess ι) (resume : Resume) : Answer × Pc × JitProcess ι :=
  match s.log.readSince s.invalidationCursor with
  | .ok (cursor, records) =>
    let keys := s.affectedKeys (InvalidationSummary.summarize cpu.addressSpaceId records)
    (.quiet, .retire keys resume, { s with invalidationCursor := cursor })
  | .error (.historyLost _ _ latest) =>
    (.quiet, .retire s.regions.keys resume,
      { s with
        invalidationCursor := latest
        lost := s.lost ++ [(s.invalidationCursor, latest)] })
  | .error error =>
    let failed := resume.fail (.cannotConsumeInvalidations error)
    (failed.1, failed.2, s.unlock)

/-! ## The step function -/

/-- The steps of a search for a region and of code generation, which hold no lock. -/
def compileStep (s : JitProcess ι) : Pc → Choice → Option (Answer × Pc × JitProcess ι)
  | .discover job reading, .fetch pc =>
    match s.memory.fetch32 pc with
    | .error fault => some (.quiet, job.failDiscovery (.fetchFailed fault), s)
    | .ok fetched =>
      some (.quiet,
        .queryPage job
          { capture := reading.capture.addDependencies fetched.dependencies
            fetches := reading.fetches ++ [⟨pc, fetched.dependencies, s.log.latest⟩] }
          pc fetched.bits, s)
  | .discover job reading, .go => some (.quiet, .generate job reading, s)
  | .queryPage job reading pc bits, .go =>
    match capturePage s.memory reading.capture pc with
    | .error error => some (.quiet, job.failDiscovery error, s)
    | .ok capture =>
      match cpu.decode bits with
      | .decoded _ => some (.quiet, .discover job { reading with capture }, s)
      | .recognizedUnimplemented _ => some (.quiet, .discover job { reading with capture }, s)
      | .unallocated reason =>
        some (.quiet, job.failDiscovery (.unallocated pc bits reason), s)
      | .reserved name reason =>
        some (.quiet, job.failDiscovery (.reserved pc bits name reason), s)
  | .generate job _, .compiled (.error (kind, detail)) =>
    some (.quiet, job.fail (.generator kind detail), s)
  | .generate job reading, .compiled (.ok compiled) =>
    some (.quiet,
      .commitLock job
        { key := job.key
          entry := compiled.entry
          dependencies := reading.capture.dependencies
          mappingDependencies := reading.capture.mappingDependencies
          fetches := reading.fetches
          entry_ne_zero := compiled.entry_ne_zero }
        compiled.nativeBytes, s)
  | _, _ => none

/-- The steps of a publication, under the process lock. -/
def commitStep (s : JitProcess ι) : Pc → Choice → Option (Answer × Pc × JitProcess ι)
  | .revalidate job region, .go =>
    match revalidation cpu s job region with
    | .error error => some (.quiet, job.fail error, s.unlock)
    | .ok affected => some (.quiet, .commitPending job region affected, s)
  | .commitPending job region affected, .go =>
    if s.pending then
      match job with
      | .lcq _ _ _ _ => some (.quiet, job.fail .shutdown, s.unlock)
      | .hcq _ => some (.quiet, .pop, s.unlock)
    else some (.quiet, .commitOwner job region affected, s)
  | .commitOwner (.lcq key generation cursor outer) region affected, .go =>
    if (s.node key).generation ≠ generation || (s.node key).state ≠ .compilingLcq then
      some (.quiet, .staleNotify key (generation :: outer), s.unlock)
    else if affected then
      some (.quiet, .discover (.lcq key generation s.invalidationCursor outer) {}, s.unlock)
    else some (.quiet, .commitFaults (.lcq key generation cursor outer) region, s)
  | .commitOwner (.hcq request) region affected, .go =>
    if hcqOvertaken s request then some (.quiet, .pop, s.unlock)
    else if affected then some (.quiet, .commitRestore request, s)
    else some (.quiet, .commitFaults (.hcq request) region, s)
  | .commitFaults job region, .registered none => some (.quiet, .commitInsert job region, s)
  | .commitFaults job _, .registered (some detail) =>
    some (.quiet, job.fail (.generator .internal detail), s.unlock)
  | .commitInsert (.lcq key generation cursor outer) region, .go =>
    match s.regions[key]? with
    | some _ => some (.panic, .panicked, (s.insertRegion key region).unlock)
    | none =>
      some (.quiet, .publishCheck (.lcq key generation cursor outer) region none,
        s.insertRegion key region)
  | .commitInsert (.hcq request) region, .go =>
    some (.quiet, .publishCheck (.hcq request) region s.regions[request.key]?,
      s.insertRegion request.key region)
  | .publishCheck (.lcq key generation cursor outer) region previous, .go =>
    if (s.node key).generation = generation && (s.node key).state = .compilingLcq then
      some (.quiet, .publishEntry (.lcq key generation cursor outer) region previous, s)
    else
      some (.quiet, (Job.lcq key generation cursor outer).fail .lostCanonicalEntry,
        { s with regions := s.regions.erase key }.unlock)
  | .publishCheck (.hcq request) region previous, .go =>
    if (s.node request.key).generation = request.generation &&
        (s.node request.key).state = .hcqQueued then
      some (.quiet, .publishEntry (.hcq request) region previous, s)
    else some (.quiet, .pop, (s.restoreRegion request.key previous).unlock)
  | .publishEntry job region previous, .go =>
    some (.quiet, .publishState job region previous, s.setEntry job.key region.entry)
  | .publishState (.lcq key generation cursor outer) region _, .go =>
    some (.quiet, .publishUnlock (.lcq key generation cursor outer) region,
      { s.setState key .lcq with
        compiler := Function.update s.compiler key none
        publications := s.publications ++ [⟨.lcq, key, generation⟩] })
  | .publishState (.hcq request) region previous, .go =>
    some (.quiet, .publishUnlock (.hcq request) region,
      { s.setState request.key .hcq with
        retired := s.retired ++ previous.toList
        publications := s.publications ++ [⟨.hcq, request.key, request.generation⟩] })
  | .publishUnlock (.lcq key generation cursor outer) region, .go =>
    some (.entry key region.entry s.invalidationCursor,
      .publishNotify (.lcq key generation cursor outer) s.invalidationCursor, s.unlock)
  | .publishUnlock (.hcq request) _, .go =>
    some (.quiet, .publishNotify (.hcq request) s.invalidationCursor, s.unlock)
  | .commitRestore request, .go =>
    some (.quiet, .commitRestored, restoreLcq s request)
  | .commitRestored, .go => some (.quiet, .pop, s.notifyAll.unlock)
  | _, _ => none

/-- The steps of `entry_for`, `published_entry_for` and `reconcile_invalidations`. -/
def lookupStep (t : ι) (s : JitProcess ι) : Pc → Choice → Option (Answer × Pc × JitProcess ι)
  | .entryLock key outer, .go => acquire t s (.reconcile (.entryFor key outer))
  | .lookupLock resume, .go => acquire t s (.reconcile resume)
  | .reconcile resume, .go => some (reconcileStep cpu s resume)
  | .retire [] resume, .go => some (resumeStep s resume)
  | .retire keys resume, .retire key =>
    if key ∈ keys then
      match s.regions[key]? with
      | none => some (.quiet, .retire (keys.erase key) resume, s)
      | some region =>
        some (.quiet, .clearEntry region key (keys.erase key) resume,
          { s with regions := s.regions.erase key })
    else none
  | .clearEntry region key keys resume, .go =>
    some (.quiet, .bumpGeneration region key keys resume, s.setEntry key 0)
  | .bumpGeneration region key keys resume, .go =>
    some (.quiet, .storeEmpty region key keys resume,
      s.setNode key { s.node key with generation := (s.node key).generation + 1 })
  | .storeEmpty region key keys resume, .go =>
    some (.quiet, .retire keys resume,
      { s.setState key .empty with retired := s.retired ++ [region] })
  | .entryCheck key outer, .go =>
    match lookupFailure s with
    | some error =>
      let failed := failEntry key outer error
      some (failed.1, failed.2, s.unlock)
    | none => some (.quiet, .entryLoad key outer, s)
  | .entryLoad key outer, .go =>
    if (s.node key).entry ≠ 0 then
      some (.entry key (s.node key).entry s.invalidationCursor,
        .idle (some s.invalidationCursor), s.unlock)
    else some (.quiet, .entryState key outer, s)
  | .entryState key outer, .go =>
    match (s.node key).state with
    | .empty => some (.quiet, .beginLcq key outer, s)
    | .compilingLcq => some (.quiet, .beforeWait key outer, s)
    | _ =>
      let failed := failEntry key outer .nullCanonicalCell
      some (failed.1, failed.2, s.unlock)
  | .beginLcq key outer, .go =>
    if (s.node key).state = .empty then
      some (.quiet,
        .discover (.lcq key (s.node key).generation s.invalidationCursor outer) {},
        { s.setState key .compilingLcq with
          compiler := Function.update s.compiler key (some t) }.unlock)
    else some (.quiet, .entryLock key outer, s.unlock)
  | .beforeWait key outer, .go =>
    some (.quiet, .waiting key outer, { s with waiters := s.waiters ++ [t] }.unlock)
  | .waiting key outer, .go =>
    if t ∈ s.waiters then none else some (.quiet, .entryLock key outer, s)
  | .waiting key outer, .wake =>
    some (.quiet, .entryLock key outer, { s with waiters := s.waiters.erase t })
  | .lookupCheck key, .go =>
    match lookupFailure s with
    | some error => some (.error error, .idle none, s.unlock)
    | none => some (.quiet, .lookupLoad key, s)
  | .lookupLoad key, .go =>
    if (s.node key).entry ≠ 0 then
      some (.entry key (s.node key).entry s.invalidationCursor,
        .idle (some s.invalidationCursor), s.unlock)
    else some (.noEntry, .idle none, s.unlock)
  | _, _ => none

/-- The notifications and the error path of `entry_for`, which hold no lock. -/
def notifyStep (t : ι) (s : JitProcess ι) : Pc → Choice → Option (Answer × Pc × JitProcess ι)
  | .publishNotify (.lcq _ _ _ _) cursor, .go =>
    some (.quiet, .idle (some cursor), s.notifyAll)
  | .publishNotify (.hcq _) _, .go => some (.quiet, .pop, s.notifyAll)
  | .staleNotify key outer, .go => some (.quiet, .entryLock key outer, s.notifyAll)
  | .abortLoad key generation outer error, .go =>
    if (s.node key).generation = generation then
      some (.quiet, .abortExchange key generation outer error, s)
    else some (.quiet, .abortNotify key outer error, s)
  | .abortExchange key _ outer error, .go =>
    some (.quiet, .abortNotify key outer error,
      if (s.node key).state = .compilingLcq then
        { s.setState key .empty with compiler := Function.update s.compiler key none }
      else s)
  | .abortNotify key outer error, .go =>
    let failed := failEntry key outer error
    some (failed.1, failed.2, s.notifyAll)
  | .backgroundNotify worker, .go =>
    some (.quiet, if worker then .pop else .idle none, s.notifyAll)
  | .shutdownStore, .go => some (.quiet, .shutdownQueue, { s with pending := true })
  | .shutdownQueue, .go =>
    some (.quiet, .shutdownLock, { s with hcq := { s.hcq with shutdown := true, pending := [] } })
  | .shutdownLock, .go => acquire t s (.retire s.regions.keys .shutdown)
  | _, _ => none

/-- The steps of the background worker and of `request_hcq`. -/
def queueStep (t : ι) (s : JitProcess ι) : Pc → Choice → Option (Answer × Pc × JitProcess ι)
  | .pop, .go =>
    if s.hcq.shutdown || s.hcq.closed then some (.quiet, .idle none, s)
    else
      s.hcq.pending.getLast?.map fun request ↦
        (.quiet, .hcqGeneration request,
          { s with hcq := { s.hcq with pending := s.hcq.pending.dropLast } })
  | .hcqGeneration request, .go =>
    if (s.node request.key).generation ≠ request.generation then some (.quiet, .pop, s)
    else some (.quiet, .hcqState request, s)
  | .hcqState request, .go =>
    if (s.node request.key).state ≠ .hcqQueued then some (.quiet, .pop, s)
    else some (.quiet, .hcqEntry request, s)
  | .hcqEntry request, .go =>
    if (s.node request.key).entry = 0 then some (.quiet, .pop, s)
    else some (.quiet, .discover (.hcq request) {}, s)
  | .hcqErrorLock request error, .go => acquire t s (.reconcile (.hcqFailed request error))
  | .hcqRecheck request error, .go =>
    if hcqOvertaken s request then some (.quiet, .pop, s.unlock)
    else some (.quiet, (Job.hcq request).fail error, s.unlock)
  | .closeQueue request, .go =>
    some (.quiet, .closeLock (request :: s.hcq.pending),
      { s with hcq := { s.hcq with closed := true, pending := [] } })
  | .closeLock requests, .go => acquire t s (.closeRestore requests)
  | .closeRestore [], .go => some (.quiet, .backgroundNotify true, s.unlock)
  | .closeRestore (request :: requests), .go =>
    some (.quiet, .closeRestore requests, restoreLcq s request)
  | .failLock error, .go =>
    if s.lock = none then
      some (.quiet, .backgroundNotify false,
        { s with
          failure := match s.failure with | some failure => some failure | none => some error
          pending := true })
    else none
  | .requestClosed key cursor, .go =>
    if s.hcq.closed then some (.quiet, .idle (some cursor), s)
    else some (.quiet, .requestQueue key cursor, s)
  | .requestQueue key cursor, .go =>
    if (s.node key).state = .lcq then
      some (.quiet, .requestGeneration key cursor, s.setState key .hcqQueued)
    else some (.quiet, .idle (some cursor), s)
  | .requestGeneration key cursor, .go =>
    some (.quiet, .requestPush ⟨key, (s.node key).generation, cursor⟩, s)
  | .requestPush request, .go =>
    if s.hcq.closed || (s.hcq.shutdown || s.hcq.pending.length = s.hcq.capacity) then
      some (.quiet, .requestRestore request, s)
    else
      some (.quiet, .idle (some request.invalidationCursor),
        { s with hcq := { s.hcq with pending := s.hcq.pending ++ [request] } })
  | .requestRestore request, .go =>
    if (s.node request.key).generation = request.generation then
      some (.quiet, .requestExchange request, s)
    else some (.quiet, .idle (some request.invalidationCursor), s)
  | .requestExchange request, .go =>
    some (.quiet, .idle (some request.invalidationCursor),
      exchange s request.key .hcqQueued .lcq)
  | _, _ => none

/-- The addition of the code size, under the lock that the publication needs. -/
def commitLockStep (t : ι) (s : JitProcess ι) (job : Job) (region : PublishedRegion)
    (nativeBytes : Nat) : Option (Answer × Pc × JitProcess ι) :=
  if s.lock = none then
    match checkedAdd s.nativeBytes nativeBytes with
    | none => some (.quiet, job.fail .codeSizeOverflows, s)
    | some used =>
      if maxNativeCodeBytes < used then
        some (.quiet, job.fail (.codeArenaExhausted used maxNativeCodeBytes),
          { s with nativeBytes := used })
      else
        some (.quiet, .reconcile (.commit job region),
          { s with nativeBytes := used, lock := some t })
  else none

/-- One step of a thread. The functions above are about different places, so at most one of them
has a step. -/
def step : ThreadStep ι (JitProcess ι) Pc Choice Answer := fun t choice pc s ↦
  (match pc, choice with
    | .idle cursor, .call call => callStep cursor s call
    | .commitLock job region nativeBytes, .go =>
      commitLockStep maxNativeCodeBytes t s job region nativeBytes
    | _, _ => none) <|>
  compileStep cpu s pc choice <|>
  commitStep cpu s pc choice <|>
  lookupStep cpu t s pc choice <|>
  notifyStep t s pc choice <|>
  queueStep t s pc choice

/-- The process with its threads. -/
def processMachine : Machine (Threads ι (JitProcess ι) Pc) (ι × Choice) Answer :=
  (step cpu maxNativeCodeBytes).machine

end

/-- A process before its first call: `JitProcess::new` with every thread idle. -/
def initialProcess (ι : Type) (memory : InstructionMemory) (log : MemoryInvalidationLog) :
    Threads ι (JitProcess ι) Pc :=
  ⟨{ memory, log }, fun _ ↦ .idle none⟩

end Nixe.Jit
