import Nixe.Jit.ConsistencyStep

/-!
# What the regions were compiled from

The words of a region were fetched one by one, each at some position of the invalidation log. A
region is clean up to a cursor if no record between its fetches and the cursor is about one of its
words, and no reconciliation up to the cursor found records after a fetch to be overwritten. All
regions in the table are clean up to the cursor of the process whenever the process lock is free.

Two facts carry this. A region names all the pages its words lie on, so the summary of the records
that are read finds every region that one of them is about; and the cursor from which a result is
revalidated is one the process was at, so it is not after any of the fetches and not inside a part
of the log that was lost.
-/

namespace Nixe.Jit

open Std Memory InvalidationSummary List

/-! ## Records and words -/

/-- The record is about the word: about the mapping of its address, the contents of a page it was
read from, or the whole address space. -/
def Affects (addressSpace : Nat) (f : Fetch) : MemoryInvalidationKind → Prop
  | .mapping changed start size =>
    changed = addressSpace ∧ start ≤ f.pc.toNat ∧ f.pc.toNat < start + size
  | .executableContent first second =>
    ∃ d ∈ f.dependencies.toList, d.page ∈ first :: second.toList
  | .instructionCache changed => changed = addressSpace

/-- The pages of the words are among the dependencies. One address may still be `pending`: its word
was fetched and its code page not yet asked for. -/
structure Covers (dependencies : List CodePageDependency) (spans : List CodePageSpan)
    (pending : Option GuestAddress) (fetches : List Fetch) : Prop where
  dependencies : ∀ f ∈ fetches, ∀ d ∈ f.dependencies.toList, d ∈ dependencies
  spans : ∀ f ∈ fetches, some f.pc = pending ∨ ∃ span ∈ spans, span.contains f.pc = true

/-- The region names all the pages it was compiled from. -/
def PublishedRegion.Captured (region : PublishedRegion) : Prop :=
  Covers region.dependencies region.mappingDependencies none region.fetches

section

variable {addressSpace : Nat} {records : List MemoryInvalidationKind}
  {summary : InvalidationSummary} {record : MemoryInvalidationKind}

/-- The summary takes note of the record. -/
def Noted (addressSpace : Nat) (summary : InvalidationSummary) : MemoryInvalidationKind → Prop
  | .mapping changed start size =>
    changed = addressSpace → (start, size) ∈ summary.mappingRanges
  | .executableContent first second =>
    ∀ page ∈ first :: second.toList, page ∈ summary.physicalPages
  | .instructionCache changed => changed = addressSpace → summary.all = true

theorem noted_add (record : MemoryInvalidationKind) :
    Noted addressSpace (summary.add addressSpace record) record := by
  cases record with
  | mapping | instructionCache =>
    intro h
    simp [add, h]
  | executableContent first second =>
    intro page hpage
    exact mem_append_right _ hpage

theorem Noted.add (h : Noted addressSpace summary record) (next : MemoryInvalidationKind) :
    Noted addressSpace (summary.add addressSpace next) record := by
  cases next with
  | mapping changed start size =>
    rw [InvalidationSummary.add]
    split_ifs
    · cases record with
      | mapping => exact fun ha ↦ mem_append_left _ (h ha)
      | executableContent | instructionCache => exact h
    · exact h
  | executableContent first second =>
    cases record with
    | mapping | instructionCache => exact h
    | executableContent => exact fun page hpage ↦ mem_append_left _ (h page hpage)
  | instructionCache changed =>
    rw [InvalidationSummary.add]
    split_ifs
    · cases record with
      | mapping | executableContent => exact h
      | instructionCache => exact fun _ ↦ rfl
    · exact h

theorem Noted.foldl (h : Noted addressSpace summary record) :
    Noted addressSpace (records.foldl (InvalidationSummary.add addressSpace) summary) record := by
  induction records generalizing summary with
  | nil => exact h
  | cons next records ih => exact ih (h.add next)

/-- The summary takes note of every record that was read. -/
theorem noted_summarize (h : record ∈ records) :
    Noted addressSpace (InvalidationSummary.summarize addressSpace records) record := by
  rw [summarize]
  obtain ⟨before, after, rfl⟩ := append_of_mem h
  rw [foldl_append, foldl_cons]
  exact (noted_add record).foldl

/-- A changed range that holds an address overlaps the code page of the address. -/
theorem mappingRangeOverlaps_of_contains {span : CodePageSpan} {address : GuestAddress}
    {start size : Nat} (hspan : span.contains address = true) (hstart : start ≤ address.toNat)
    (hstop : address.toNat < start + size) : mappingRangeOverlaps span start size = true := by
  obtain ⟨hlow, hhigh⟩ := CodePageSpan.contains_iff.mp hspan
  have haddress : address.toNat < 2 ^ 64 := address.isLt
  rw [mappingRangeOverlaps, Bool.and_eq_true, Bool.and_eq_true, decide_eq_true_iff,
    decide_eq_true_iff, decide_eq_true_iff]
  omega

variable {region : PublishedRegion} {f : Fetch}

/-- A record about a word of the region shows in the summary in one of three ways. -/
theorem affected_cases (hregion : region.Captured) (hf : f ∈ region.fetches)
    (hnoted : Noted addressSpace summary record) (h : Affects addressSpace f record) :
    summary.all = true ∨ summary.affectsMapping region = true ∨
      ∃ d ∈ region.dependencies, d.page ∈ summary.physicalPages := by
  cases record with
  | mapping changed start size =>
    obtain ⟨hspace, hstart, hstop⟩ := h
    rcases hregion.spans f hf with hpending | ⟨span, hspan, hcontains⟩
    · exact nomatch hpending
    · refine .inr (.inl ?_)
      rw [affectsMapping, any_eq_true]
      refine ⟨(start, size), hnoted hspace, any_eq_true.mpr ⟨span, hspan, ?_⟩⟩
      exact mappingRangeOverlaps_of_contains hcontains hstart hstop
  | executableContent first second =>
    obtain ⟨d, hd, hpage⟩ := h
    exact .inr (.inr ⟨d, hregion.dependencies f hf d hd, hnoted d.page hpage⟩)
  | instructionCache changed => exact .inl (hnoted h)

theorem affectsPublished_of_affects (hregion : region.Captured) (hf : f ∈ region.fetches)
    (hnoted : Noted addressSpace summary record) (h : Affects addressSpace f record) :
    summary.affectsPublished region = true := by
  rw [affectsPublished, Bool.or_eq_true, Bool.or_eq_true, any_eq_true]
  rcases affected_cases hregion hf hnoted h with h | h | ⟨d, hd, hpage⟩
  · exact .inl (.inl h)
  · exact .inl (.inr h)
  · exact .inr ⟨d, hd, contains_iff_mem.mpr hpage⟩

end

/-! ## Clean regions -/

variable {ι : Type}

/-- Nothing up to the cursor `c` is about the word since it was fetched. -/
def Current (addressSpace : Nat) (s : JitProcess ι) (c : Nat) (f : Fetch) : Prop :=
  (∀ i record, f.cursor ≤ i → i < c → s.log.records[i]? = some record →
    ¬ Affects addressSpace f record) ∧
  ∀ loss ∈ s.lost, loss.2 ≤ c → loss.2 ≤ f.cursor

def Clean (addressSpace : Nat) (s : JitProcess ι) (region : PublishedRegion) : Prop :=
  ∀ f ∈ region.fetches, Current addressSpace s s.invalidationCursor f

/-- The region stands in the tables under `k`. -/
structure Filed (s : JitProcess ι) (k : RegionKey) (region : PublishedRegion) : Prop where
  key : region.key = k
  captured : region.Captured
  dependencies : ∀ d ∈ region.dependencies, (d.page, k) ∈ s.physicalDependencies

/-- The process was at the cursor, and no reconciliation found records on both sides of it
overwritten. -/
def Dated (s : JitProcess ι) (c : Nat) : Prop :=
  c ≤ s.invalidationCursor ∧ ∀ loss ∈ s.lost, c ≤ loss.1 ∨ loss.2 ≤ c

/-! ## What a thread carries -/

inductive Cargo where
  | nothing
  | cursor (c : Nat)
  | reading (job : Job) (reading : Reading) (pending : Option GuestAddress)
  | compiled (job : Job) (region : PublishedRegion) (verified : Bool)
  | inserted (key : RegionKey) (region : PublishedRegion) (previous : Option PublishedRegion)

def Resume.cargo : Resume → Cargo
  | commit job region => .compiled job region false
  | _ => .nothing

def Pc.cargo : Pc → Cargo
  | idle none => .nothing
  | idle (some cursor) => .cursor cursor
  | reconcile resume => resume.cargo
  | retire _ resume => resume.cargo
  | clearEntry _ _ _ resume => resume.cargo
  | bumpGeneration _ _ _ resume => resume.cargo
  | storeEmpty _ _ _ resume => resume.cargo
  | discover job reading => .reading job reading none
  | queryPage job reading pc _ => .reading job reading (some pc)
  | generate job reading => .reading job reading none
  | commitLock job region _ => .compiled job region false
  | revalidate job region => .compiled job region false
  | commitPending job region affected => .compiled job region !affected
  | commitOwner job region affected => .compiled job region !affected
  | commitFaults job region => .compiled job region true
  | commitInsert job region => .compiled job region true
  | publishCheck job region previous => .inserted job.key region previous
  | publishEntry job region _ => .inserted job.key region none
  | publishState job region _ => .inserted job.key region none
  | publishUnlock job region => .inserted job.key region none
  | publishNotify _ cursor => .cursor cursor
  | hcqGeneration request => .cursor request.invalidationCursor
  | hcqState request => .cursor request.invalidationCursor
  | hcqEntry request => .cursor request.invalidationCursor
  | requestClosed _ cursor => .cursor cursor
  | requestQueue _ cursor => .cursor cursor
  | requestGeneration _ cursor => .cursor cursor
  | requestPush request => .cursor request.invalidationCursor
  | requestRestore request => .cursor request.invalidationCursor
  | requestExchange request => .cursor request.invalidationCursor
  | lookupLock resume => resume.cargo
  | _ => .nothing

/-- The keys that are still to be retired. -/
def Pc.retiring : Pc → List RegionKey
  | retire keys _ => keys
  | clearEntry _ _ keys _ => keys
  | bumpGeneration _ _ keys _ => keys
  | storeEmpty _ _ keys _ => keys
  | _ => []

/-- What a compilation has read covers its words, and its cursor is before all of them. -/
structure Reads (job : Job) (reading : Reading) (pending : Option GuestAddress) : Prop where
  last : ∀ span, reading.capture.lastMappingDependency = some span →
    span ∈ reading.capture.mappingDependencies
  covers : Covers reading.capture.dependencies reading.capture.mappingDependencies pending
    reading.fetches
  cursor : ∀ f ∈ reading.fetches, job.cursor ≤ f.cursor

/-- The region is a result of the job. -/
structure Results (job : Job) (region : PublishedRegion) : Prop where
  key : region.key = job.key
  captured : region.Captured
  cursor : ∀ f ∈ region.fetches, job.cursor ≤ f.cursor

def Carries (addressSpace : Nat) (s : JitProcess ι) : Cargo → Prop
  | .nothing => True
  | .cursor c => Dated s c
  | .reading job reading pending => Dated s job.cursor ∧ Reads job reading pending
  | .compiled job region verified =>
    Dated s job.cursor ∧ Results job region ∧ (verified = true → Clean addressSpace s region)
  | .inserted key region previous =>
    s.regions[key]? = some region ∧
      ∀ p, previous = some p → Filed s key p ∧ Clean addressSpace s p

/-! ## The invariant -/

/-- All regions but those under `keys` are clean. -/
def CleanExcept (addressSpace : Nat) (s : JitProcess ι) (keys : List RegionKey) : Prop :=
  ∀ k region, s.regions[k]? = some region → k ∈ keys ∨ Clean addressSpace s region

structure Fresh (addressSpace : Nat) (s : JitProcess ι) : Prop where
  cursor : s.invalidationCursor ≤ s.log.latest
  filed : ∀ k region, s.regions[k]? = some region → Filed s k region
  clean : s.lock = none → CleanExcept addressSpace s []
  queue : ∀ r ∈ s.hcq.pending, Dated s r.invalidationCursor
  lost : ∀ loss ∈ s.lost, loss.1 + 1 < s.log.oldest ∧ loss.2 ≤ s.invalidationCursor

structure FreshAt (addressSpace : Nat) (pc : Pc) (s : JitProcess ι) : Prop where
  carries : Carries addressSpace s pc.cargo
  clean : pc.critical = true → CleanExcept addressSpace s pc.retiring

end Nixe.Jit
