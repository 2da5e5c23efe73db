import Nixe.Jit.Thread

/-!
# What the lookup nodes say about the regions

A node whose entry is not null belongs to a region of the table, and conversely; this is `Linked`.
It holds whenever the process lock is free. The thread that holds the lock passes through moments
at which it fails for the one key that is being retired or published, and `Middle` says what holds
for that key then.

Other threads change nodes without the lock, but only by a drift: the entry and the generation stay,
and a published state stays published. `Assertion` is what a thread knows about the shared state,
and `Interference` is what it has to expect from the steps of the others.
-/

namespace Nixe.Jit

open Std Memory

/-! ## Places -/

/-- The compilation that owns a node in `compilingLcq`. -/
def Job.owned : Job → Option (RegionKey × Nat)
  | lcq key generation _ _ => some (key, generation)
  | hcq _ => none

def Resume.owned : Resume → Option (RegionKey × Nat)
  | commit job _ => job.owned
  | _ => none

namespace Pc

/-- The key and the generation a thread is compiling for the first time. -/
def owned : Pc → Option (RegionKey × Nat)
  | reconcile resume => resume.owned
  | retire _ resume => resume.owned
  | clearEntry _ _ _ resume => resume.owned
  | bumpGeneration _ _ _ resume => resume.owned
  | storeEmpty _ _ _ resume => resume.owned
  | discover job _ => job.owned
  | queryPage job _ _ _ => job.owned
  | generate job _ => job.owned
  | commitLock job _ _ => job.owned
  | revalidate job _ => job.owned
  | commitPending job _ _ => job.owned
  | commitOwner job _ _ => job.owned
  | commitFaults job _ => job.owned
  | commitInsert job _ => job.owned
  | publishCheck job _ _ => job.owned
  | publishEntry job _ _ => job.owned
  | publishState job _ _ => job.owned
  | abortLoad key generation _ _ => some (key, generation)
  | abortExchange key generation _ _ => some (key, generation)
  | lookupLock resume => resume.owned
  | _ => none

/-- The places at which a thread holds the process lock. -/
def critical : Pc → Bool
  | reconcile _ => true
  | retire _ _ => true
  | clearEntry _ _ _ _ => true
  | bumpGeneration _ _ _ _ => true
  | storeEmpty _ _ _ _ => true
  | entryCheck _ _ => true
  | entryLoad _ _ => true
  | entryState _ _ => true
  | beginLcq _ _ => true
  | beforeWait _ _ => true
  | revalidate _ _ => true
  | commitPending _ _ _ => true
  | commitOwner _ _ _ => true
  | commitFaults _ _ => true
  | commitInsert _ _ => true
  | publishCheck _ _ _ => true
  | publishEntry _ _ _ => true
  | publishState _ _ _ => true
  | publishUnlock _ _ => true
  | commitRestore _ => true
  | commitRestored => true
  | hcqRecheck _ _ => true
  | closeRestore _ => true
  | lookupCheck _ => true
  | lookupLoad _ => true
  | _ => false

end Pc

/-- The calls of `entry_for` that wait for a nested one. -/
def Job.outer : Job → List Nat
  | lcq _ _ _ outer => outer
  | hcq _ => []

def Resume.outer : Resume → List Nat
  | entryFor _ outer => outer
  | commit job _ => job.outer
  | _ => []

def Pc.outer : Pc → List Nat
  | reconcile resume => resume.outer
  | retire _ resume => resume.outer
  | clearEntry _ _ _ resume => resume.outer
  | bumpGeneration _ _ _ resume => resume.outer
  | storeEmpty _ _ _ resume => resume.outer
  | entryLock _ outer => outer
  | entryCheck _ outer => outer
  | entryLoad _ outer => outer
  | entryState _ outer => outer
  | beginLcq _ outer => outer
  | beforeWait _ outer => outer
  | waiting _ outer => outer
  | discover job _ => job.outer
  | queryPage job _ _ _ => job.outer
  | generate job _ => job.outer
  | commitLock job _ _ => job.outer
  | revalidate job _ => job.outer
  | commitPending job _ _ => job.outer
  | commitOwner job _ _ => job.outer
  | commitFaults job _ => job.outer
  | commitInsert job _ => job.outer
  | publishCheck job _ _ => job.outer
  | publishEntry job _ _ => job.outer
  | publishState job _ _ => job.outer
  | publishUnlock job _ => job.outer
  | publishNotify job _ => job.outer
  | staleNotify _ outer => outer
  | abortLoad _ _ outer _ => outer
  | abortExchange _ _ outer _ => outer
  | abortNotify _ outer _ => outer
  | lookupLock resume => resume.outer
  | _ => []

/-- An error that is not a failed check of the publication protocol. -/
def DirectJitError.Ordinary (e : DirectJitError) : Prop :=
  e ≠ .nullCanonicalCell ∧ e ≠ .lostCanonicalEntry

def Answer.Ordinary : Answer → Prop
  | .panic => False
  | .error e => e.Ordinary
  | _ => True

def Resume.error : Resume → Option DirectJitError
  | hcqFailed _ error => some error
  | _ => none

/-- The error that a thread is going to report. -/
def Pc.error : Pc → Option DirectJitError
  | reconcile resume => resume.error
  | retire _ resume => resume.error
  | clearEntry _ _ _ resume => resume.error
  | bumpGeneration _ _ _ resume => resume.error
  | storeEmpty _ _ _ resume => resume.error
  | abortLoad _ _ _ error => some error
  | abortExchange _ _ _ error => some error
  | abortNotify _ _ error => some error
  | hcqErrorLock _ error => some error
  | hcqRecheck _ error => some error
  | failLock error => some error
  | lookupLock resume => resume.error
  | _ => none

/-! ## Nodes and regions -/

variable {ι : Type}

/-- The node of `k` is published with the code of the region of `k`, or there is no such region. -/
def Linked (s : JitProcess ι) (k : RegionKey) : Prop :=
  match s.regions[k]? with
  | some region => (s.node k).entry = region.entry ∧ (s.node k).state.published = true
  | none => (s.node k).entry = 0 ∧ (s.node k).state.published = false

/-- All nodes but that of `k` are linked. -/
def LinkedExcept (s : JitProcess ι) (k : RegionKey) : Prop := ∀ l, l ≠ k → Linked s l

/-- What holds at the places under the process lock. -/
def Middle (s : JitProcess ι) : Pc → Prop
  | .clearEntry _ k _ _ =>
    LinkedExcept s k ∧ s.regions[k]? = none ∧ (s.node k).state.published = true
  | .bumpGeneration _ k _ _ =>
    LinkedExcept s k ∧ s.regions[k]? = none ∧ (s.node k).state.published = true ∧
      (s.node k).entry = 0
  | .storeEmpty _ k _ _ =>
    LinkedExcept s k ∧ s.regions[k]? = none ∧ (s.node k).state.published = true ∧
      (s.node k).entry = 0 ∧
      ∀ p ∈ s.publications, p.key = k → p.generation < (s.node k).generation
  | .entryState k _ => (∀ l, Linked s l) ∧ (s.node k).entry = 0
  | .beginLcq k _ => (∀ l, Linked s l) ∧ (s.node k).entry = 0
  | .commitFaults (.hcq r) _ =>
    (∀ l, Linked s l) ∧ (s.node r.key).generation = r.generation ∧ (s.node r.key).entry ≠ 0
  | .commitInsert (.hcq r) _ =>
    (∀ l, Linked s l) ∧ (s.node r.key).generation = r.generation ∧ (s.node r.key).entry ≠ 0
  | .publishCheck (.lcq k _ _ _) region _ =>
    LinkedExcept s k ∧ s.regions[k]? = some region ∧ (s.node k).entry = 0
  | .publishEntry (.lcq k _ _ _) region _ =>
    LinkedExcept s k ∧ s.regions[k]? = some region ∧ (s.node k).entry = 0
  | .publishState (.lcq k _ _ _) region _ =>
    LinkedExcept s k ∧ s.regions[k]? = some region ∧ (s.node k).entry = region.entry
  | .publishCheck (.hcq r) region previous =>
    LinkedExcept s r.key ∧ s.regions[r.key]? = some region ∧
      (s.node r.key).generation = r.generation ∧ (s.node r.key).state.published = true ∧
      ∃ p, previous = some p ∧ (s.node r.key).entry = p.entry
  | .publishEntry (.hcq r) region previous =>
    LinkedExcept s r.key ∧ s.regions[r.key]? = some region ∧
      (s.node r.key).generation = r.generation ∧ (s.node r.key).state.published = true ∧
      (∃ p, previous = some p ∧ (s.node r.key).entry = p.entry) ∧
      ∀ p ∈ s.publications, p.tier = .hcq → p.key = r.key → p.generation < r.generation
  | .publishState (.hcq r) region _ =>
    LinkedExcept s r.key ∧ s.regions[r.key]? = some region ∧
      (s.node r.key).generation = r.generation ∧ (s.node r.key).state.published = true ∧
      (s.node r.key).entry = region.entry ∧
      ∀ p ∈ s.publications, p.tier = .hcq → p.key = r.key → p.generation < r.generation
  | _ => ∀ l, Linked s l

/-- A publication is of an earlier generation, or the node still shows it. -/
def Recorded (n : Node) (p : Publication) : Prop :=
  p.generation < n.generation ∨
    p.generation = n.generation ∧
      match p.tier with
      | .lcq => n.state.published = true
      | .hcq => n.state = .hcq

/-- The invariant of the shared state. -/
structure Sound (s : JitProcess ι) : Prop where
  linked : s.lock = none → ∀ k, Linked s k
  compiling : ∀ k, (s.node k).state = .compilingLcq ↔ (s.compiler k).isSome = true
  recorded : ∀ p ∈ s.publications, Recorded (s.node p.key) p
  nodup : s.publications.Nodup
  queue : s.hcq.pending.length ≤ s.hcq.capacity
  unstarted : s.hcqStarted = false → s.hcq.capacity = 0
  failure : ∀ e, s.failure = some e → e.Ordinary

/-- What the thread `t` at the place `pc` knows about the shared state. -/
structure Assertion (t : ι) (pc : Pc) (s : JitProcess ι) : Prop where
  lock : s.lock = some t ↔ pc.critical = true
  compiler : ∀ k, s.compiler k = some t ↔ ∃ g, pc.owned = some (k, g)
  compiling : ∀ k g, pc.owned = some (k, g) →
    (s.node k).state = .compilingLcq ∧ (s.node k).generation = g
  outer : pc.outer = []
  error : ∀ e, pc.error = some e → e.Ordinary
  middle : pc.critical = true → Middle s pc

/-! ## Interference -/

/-- How a node changes without the process lock. -/
structure Drift (n n' : Node) : Prop where
  entry : n'.entry = n.entry
  generation : n'.generation = n.generation
  published : n'.state.published = n.state.published

theorem Drift.refl (n : Node) : Drift n n := ⟨rfl, rfl, rfl⟩

/-- What a step of another thread does, as far as the thread `t` can tell. -/
structure Interference (t : ι) (s s' : JitProcess ι) : Prop where
  lock : s'.lock = some t ↔ s.lock = some t
  compiler : ∀ k, s'.compiler k = some t ↔ s.compiler k = some t
  owned : ∀ k, s.compiler k = some t → s'.node k = s.node k
  regions : s.lock = some t → s'.regions = s.regions
  publications : s.lock = some t → s'.publications = s.publications
  drift : s.lock = some t → ∀ k, Drift (s.node k) (s'.node k)

section

variable {s s' : JitProcess ι}

theorem Linked.drift {k : RegionKey} (hregions : s'.regions = s.regions)
    (hdrift : Drift (s.node k) (s'.node k)) (h : Linked s k) : Linked s' k := by
  rw [Linked, hregions, hdrift.entry, hdrift.published]
  exact h

theorem Middle.drift {pc : Pc} (hregions : s'.regions = s.regions)
    (hpublications : s'.publications = s.publications)
    (hdrift : ∀ k, Drift (s.node k) (s'.node k)) (h : Middle s pc) : Middle s' pc := by
  have hall : (∀ l, Linked s l) → ∀ l, Linked s' l := fun h l ↦ (h l).drift hregions (hdrift l)
  have hexcept : ∀ k, LinkedExcept s k → LinkedExcept s' k :=
    fun k h l hl ↦ (h l hl).drift hregions (hdrift l)
  have hentry : ∀ k, (s'.node k).entry = (s.node k).entry := fun k ↦ (hdrift k).entry
  have hgeneration : ∀ k, (s'.node k).generation = (s.node k).generation :=
    fun k ↦ (hdrift k).generation
  have hpublished : ∀ k, (s'.node k).state.published = (s.node k).state.published :=
    fun k ↦ (hdrift k).published
  cases pc with
  | clearEntry _ k _ _ => simpa [Middle, hregions, hpublished] using h.imp_left (hexcept k)
  | bumpGeneration _ k _ _ =>
    simpa [Middle, hregions, hpublished, hentry] using h.imp_left (hexcept k)
  | storeEmpty _ k _ _ =>
    simpa [Middle, hregions, hpublished, hentry, hgeneration, hpublications] using
      h.imp_left (hexcept k)
  | entryState k _ | beginLcq k _ => simpa [Middle, hentry] using h.imp_left hall
  | commitFaults job _ | commitInsert job _ =>
    cases job with
    | lcq => exact hall h
    | hcq r => simpa [Middle, hentry, hgeneration] using h.imp_left hall
  | publishCheck job _ _ | publishEntry job _ _ | publishState job _ _ =>
    cases job with
    | lcq k _ _ _ => simpa [Middle, hregions, hentry] using h.imp_left (hexcept k)
    | hcq r =>
      simpa [Middle, hregions, hpublished, hentry, hgeneration, hpublications] using
        h.imp_left (hexcept r.key)
  | _ => exact hall h

/-- An assertion survives the interference of the other threads. -/
theorem Assertion.of_interference {t : ι} {pc : Pc} (h : Assertion t pc s)
    (hi : Interference t s s') : Assertion t pc s' where
  __ := h
  lock := hi.lock.trans h.lock
  compiler k := (hi.compiler k).trans (h.compiler k)
  compiling k g hk := by
    rw [hi.owned k ((h.compiler k).mpr ⟨g, hk⟩)]
    exact h.compiling k g hk
  middle hcritical := by
    have hlock := h.lock.mpr hcritical
    exact (h.middle hcritical).drift (hi.regions hlock) (hi.publications hlock) (hi.drift hlock)

end

end Nixe.Jit
