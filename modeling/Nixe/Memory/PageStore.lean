import Nixe.Effect.Machine
import Nixe.Memory.DependencyStep
import Nixe.Memory.WriteBatch

/-!
# The pages and their clients

All canonical pages, the write batches that are being built and the dependencies that are being
held, as one machine. Its steps are the operations on single pages and the calls of the clients,
in any order: batches and dependencies on the same pages come and go between each other's steps.

The clients do not know of each other. What they rely on is that whatever happens to a page is an
evolution, `PageStore.step_evolves`.
-/

namespace Nixe.Memory

open Std Method CanonicalBackingPage Option

structure PageStore where
  pages : PageHeap
  batches : Nat → CanonicalWriteBatch
  dependencies : Nat → Option CanonicalCpuWriteDependency

inductive StoreInput where
  | page (page : Nat) (host : HostAnswers) (op : PageOperation)
  | stage (batch : Nat) (hosts : Nat → HostAnswers) (range : CheckedRange) (offset : Nat)
      (bytes : List UInt8)
  | readStaged (batch : Nat) (hosts : Nat → HostAnswers) (range : CheckedRange)
      (offset count : Nat)
  /-- The batch is consumed. -/
  | commit (batch : Nat) (hosts : Nat → HostAnswers) (reserves : Bool)
  | captureRanges (dependency : Nat) (hosts : Nat → HostAnswers) (ranges : List CheckedRange)
  | remainsCurrent (dependency : Nat)
  | rearm (dependency : Nat) (hosts : Nat → HostAnswers)
  | snapshotBytes (dependency : Nat) (hosts : Nat → HostAnswers) (reserves : Bool)
      (range : CheckedRange) (selection : CpuWriteSnapshotSelection) (alignment : Nat)

inductive StoreReply where
  | page (reply : Except CanonicalPageError PageReply)
  | stage (reply : Except CanonicalWriteBatchError Unit)
  | readStaged (reply : Except CanonicalWriteBatchError (List UInt8))
  | commit (reply : Except CanonicalWriteBatchError Unit)
  | captureRanges (success : Bool)
  | remainsCurrent (reply : Except Empty Bool)
  | rearm (reply : Except Empty Bool)
  | snapshotBytes (reply : Except CanonicalRangeAccessError (List (Nat × List UInt8)))
  /-- There is no dependency to call. -/
  | absent
deriving DecidableEq

namespace PageStore

/-- The store after a call of a method of a batch. -/
def withStaging (s : PageStore) (batch : Nat) (t : Staging) : PageStore :=
  { s with pages := t.pages, batches := Function.update s.batches batch t.batch }

/-- The store after a call of a method of a dependency. -/
def withObserving (s : PageStore) (dependency : Nat) (t : Observing) : PageStore :=
  { s with
    pages := t.pages
    dependencies := Function.update s.dependencies dependency (some t.dependency) }

/-- Call a method of a dependency, if there is one. -/
def callDependency {ε α : Type} (s : PageStore) (dependency : Nat)
    (reply : Except ε α → StoreReply) (m : Method ε Observing α) :
    Option (StoreReply × PageStore) :=
  match s.dependencies dependency with
  | none => some (.absent, s)
  | some d =>
    (m ⟨s.pages, d⟩).answer.map fun r ↦ (reply r.1, s.withObserving dependency r.2)

def captured (s : PageStore) (dependency : Nat) :
    Except Unit CanonicalCpuWriteDependency × PageHeap → StoreReply × PageStore
  | (.ok d, pages) => (.captureRanges true, s.withObserving dependency ⟨pages, d⟩)
  | (.error _, pages) => (.captureRanges false, { s with pages := pages })

end PageStore

open PageStore in
def storeMachine : Machine PageStore StoreInput StoreReply := fun s input ↦
  match input with
  | .page page host op =>
    (onPage page (op.run host) s.pages).answer.map fun r ↦ (.page r.1, { s with pages := r.2 })
  | .stage batch hosts range offset bytes =>
    (stage hosts range offset bytes ⟨s.pages, s.batches batch⟩).answer.map fun r ↦
      (.stage r.1, s.withStaging batch r.2)
  | .readStaged batch hosts range offset count =>
    (readStaged hosts range offset count ⟨s.pages, s.batches batch⟩).answer.map fun r ↦
      (.readStaged r.1, s.withStaging batch r.2)
  | .commit batch hosts reserves =>
    (commit hosts reserves (s.batches batch) s.pages).answer.map fun r ↦
      (.commit r.1, s.withStaging batch ⟨r.2, ∅⟩)
  | .captureRanges dependency hosts ranges =>
    (captureRanges hosts ranges s.pages).answer.map (s.captured dependency)
  | .remainsCurrent dependency => s.callDependency dependency .remainsCurrent remainsCurrent
  | .rearm dependency hosts => s.callDependency dependency .rearm (rearm hosts)
  | .snapshotBytes dependency hosts reserves range selection alignment =>
    s.callDependency dependency .snapshotBytes
      (snapshotBytes hosts reserves range selection alignment)

/-- A page as `zeroed` or `initialized` returns it. -/
def CanonicalBackingPage.New (p : CanonicalBackingPage) : Prop :=
  ∃ identity generation,
    (∃ size, p = zeroed identity size generation) ∨
      ∃ bytes, p = initialized identity bytes generation

/-- New pages, of which nobody knows yet. -/
def PageStore.initial (pages : PageHeap) : PageStore := ⟨pages, fun _ ↦ ∅, fun _ ↦ none⟩

/-- Pages of four bytes. -/
def smallPages : PageHeap := fun page ↦ .zeroed page 4 0

theorem smallPages_new (page : Nat) : (smallPages page).New := ⟨page, 0, .inl ⟨4, rfl⟩⟩

/-- All bytes of a small page. -/
def smallRange (page : Nat) : CheckedRange where
  segments := [⟨page, 0, 4, ⟨true, true, false⟩, 0⟩]
  size := 4
  nonempty := nofun
  segments_pos := by simp
  size_eq := rfl
  size_lt := by decide

/-- A host that does what it is asked for, with devices whose memory is zero. -/
def HostAnswers.obliging : HostAnswers where
  allocates := true
  protects _ := true
  atomic128 := true
  reserves := true
  makeDeviceVisible _ _ := .ok ()
  makeCpuVisible request := .ok (List.replicate request.size 0)

/-! ## What a step does to the pages -/

/-- The step may write back bytes of a device to the page before it goes on. -/
def StoreInput.WritesBack (s : PageStore) (page : Nat) : StoreInput → Prop
  | .page page' _ op => page' = page ∧ op.WritesBack
  | .stage _ _ range _ _ | .readStaged _ _ range _ _ => range.Has page
  | .snapshotBytes dependency .. => ∃ d ∈ s.dependencies dependency, page ∈ d.pages
  | _ => False

section

variable {s t : PageStore} {input : StoreInput} {reply : StoreReply} {hosts : Nat → HostAnswers}
  {pages pages' : PageHeap}

/-- How the step of a method is specified when it does not matter whether it fails. -/
theorem of_answer_any {ε σ α : Type} {m : Method ε σ α} {R : σ → Prop} {u v : σ} {r : Except ε α}
    (h : wp m ⟨fun _ v ↦ R v, fun _ v ↦ R v, True⟩ u) (hm : (m u).answer = some (r, v)) : R v := by
  obtain ⟨hok, herr⟩ := of_answer h hm
  cases r with
  | ok a => exact hok a rfl
  | error e => exact herr e rfl

theorem PageStore.callDependency_eq_some {ε α : Type} {dependency : Nat}
    {wrap : Except ε α → StoreReply} {m : Method ε Observing α}
    (h : s.callDependency dependency wrap m = some (reply, t)) :
    s.dependencies dependency = none ∧ reply = .absent ∧ t = s ∨
      ∃ d r u, s.dependencies dependency = some d ∧ (m ⟨s.pages, d⟩).answer = some (r, u) ∧
        reply = wrap r ∧ t = s.withObserving dependency u := by
  rw [callDependency] at h
  split at h
  · rename_i hnone
    cases h
    exact .inl ⟨hnone, rfl, rfl⟩
  · rename_i d hd
    obtain ⟨⟨r, u⟩, hr, ⟨⟩⟩ := map_eq_some_iff.mp h
    exact .inr ⟨d, r, u, hd, hr, rfl, rfl⟩

/-- What a call does to the pages, if there is something to call. -/
theorem PageStore.of_callDependency {ε α : Type} {dependency : Nat}
    {wrap : Except ε α → StoreReply} {m : Method ε Observing α} {R : PageHeap → Prop}
    (hs : R s.pages) (hm : ∀ d ∈ s.dependencies dependency,
      wp m ⟨fun _ u ↦ R u.pages, fun _ u ↦ R u.pages, True⟩ ⟨s.pages, d⟩)
    (h : s.callDependency dependency wrap m = some (reply, t)) : R t.pages := by
  rcases callDependency_eq_some h with ⟨-, -, rfl⟩ | ⟨d, r, u, hd, hr, -, rfl⟩
  · exact hs
  · exact of_answer_any (R := fun u ↦ R u.pages) (hm d hd) hr

theorem Arms.yieldsPages {S : Nat → Prop} (h : Arms hosts pages pages') :
    YieldsPages hosts S pages pages' := fun page ↦ (h page).toYields.mono False.elim

variable {lossy : Prop}

theorem Materializes.evolves {S : Nat → Prop} (h : Materializes S pages pages') (page : Nat) :
    Evolves lossy (pages page) (pages' page) := by
  rcases h page with h | ⟨-, h⟩
  · rw [h]
    exact .refl _
  · rw [h]
    exact sameBytes_materialized.evolves id

/-- The client asks these hosts, and writes nothing. -/
def StoreInput.Calls (hosts : Nat → HostAnswers) : StoreInput → Prop
  | .stage _ hosts' .. | .readStaged _ hosts' .. | .captureRanges _ hosts' _ | .rearm _ hosts'
  | .snapshotBytes _ hosts' .. => hosts' = hosts
  | _ => False

theorem PageStore.pages_remainsCurrent {dependency : Nat}
    (h : storeMachine s (.remainsCurrent dependency) = some (reply, t)) : t.pages = s.pages :=
  of_callDependency (R := (· = s.pages)) rfl (fun _ _ ↦ wp_of_wp remainsCurrent_spec
    (fun _ _ h ↦ h.1) (fun _ _ h ↦ h.elim)) h

theorem PageStore.step_yields (h : storeMachine s input = some (reply, t))
    (hcalls : input.Calls hosts) :
    YieldsPages hosts (input.WritesBack s ·) s.pages t.pages := by
  have hrefl {S : Nat → Prop} : YieldsPages hosts S s.pages s.pages := fun _ ↦ .refl _
  cases input with
  | page | commit | remainsCurrent => exact hcalls.elim
  | stage batch _ range =>
    obtain rfl := hcalls
    obtain ⟨⟨r, u⟩, hr, ⟨⟩⟩ := map_eq_some_iff.mp h
    exact Touches.yieldsPages (of_answer_any
      (R := StagingTouches _ range.Has ⟨s.pages, s.batches batch⟩)
      (wp_of_ok stage_spec (fun _ _ h ↦ h.1)) hr)
  | readStaged batch _ range =>
    obtain rfl := hcalls
    obtain ⟨⟨r, u⟩, hr, ⟨⟩⟩ := map_eq_some_iff.mp h
    exact Touches.yieldsPages (of_answer_any
      (R := StagingTouches _ range.Has ⟨s.pages, s.batches batch⟩)
      (wp_of_wp readStaged_spec (fun _ _ h ↦ h.1) (fun _ _ h ↦ h.1)) hr)
  | captureRanges dependency =>
    obtain rfl := hcalls
    obtain ⟨⟨r, pages⟩, hr, heq⟩ := map_eq_some_iff.mp h
    -- Whether or not the capture succeeds, the pages it came to are armed.
    have harms := of_answer_any (R := Arms _ s.pages)
      (wp_of_ok captureRanges_spec (fun _ _ h ↦ h.1)) hr
    cases r with
    | ok | error =>
      cases heq
      exact harms.yieldsPages
  | rearm =>
    obtain rfl := hcalls
    refine of_callDependency hrefl (fun d _ ↦ ?_) h
    exact wp_of_ok rearm_spec (fun _ _ h ↦ h.1.arms.yieldsPages)
  | snapshotBytes =>
    obtain rfl := hcalls
    refine of_callDependency hrefl (fun d hd ↦ ?_) h
    refine wp_of_wp snapshotBytes_spec (fun _ _ h page ↦ ?_) (fun _ _ h page ↦ ?_)
    all_goals exact (h.1 page).mono fun hlossy ↦ ⟨⟨d, hd, hlossy.1⟩, hlossy.2⟩

/-- An operation on one page evolves all pages. -/
theorem onPage_evolves {page' : Nat} {host : HostAnswers} (op : PageOperation)
    (hobserved : (pages page').Observed) :
    wp (onPage page' (op.run host))
      ⟨fun _ pages' ↦ ∀ page, Evolves ((page' = page ∧ op.WritesBack) ∧ (pages page).Exhausted)
          (pages page) (pages' page),
        fun _ pages' ↦ ∀ page, Evolves ((page' = page ∧ op.WritesBack) ∧ (pages page).Exhausted)
          (pages page) (pages' page), True⟩ pages := by
  have hop : ∀ q, Evolves (op.WritesBack ∧ (pages page').Exhausted) (pages page') q →
      ∀ page, Evolves ((page' = page ∧ op.WritesBack) ∧ (pages page).Exhausted) (pages page)
        (Function.update pages page' q page) := by
    intro q hq page
    by_cases hpage : page = page'
    · subst hpage
      rw [Function.update_self]
      exact hq.mono fun hlossy ↦ ⟨⟨rfl, hlossy.1⟩, hlossy.2⟩
    · rw [Function.update_of_ne hpage]
      exact .refl _
  rw [wp_onPage]
  exact wp_of_wp (op.evolves hobserved) (fun _ q hq ↦ hop q hq)
    (fun _ q hq ↦ hop q hq)

/-- A commit evolves all pages, since it stores bytes only in pages that are as their snapshots
say. -/
theorem commit_evolves {reserves : Bool} {batch : CanonicalWriteBatch} (page : Nat) :
    wp (commit hosts reserves batch)
      ⟨fun _ pages' ↦ Evolves lossy (pages page) (pages' page),
        fun _ pages' ↦ Evolves lossy (pages page) (pages' page), True⟩ pages := by
  refine wp_of_wp commit_spec (fun _ pages' hpages ↦ ?_) (fun _ _ hpages ↦ hpages.evolves page)
  dsimp only at hpages ⊢
  by_cases hpage : page ∈ batch
  · rw [ExtTreeMap.mem_iff_isSome_getElem?, isSome_iff_exists] at hpage
    obtain ⟨pending, hpending⟩ := hpage
    obtain ⟨hcurrent, hpublished⟩ := (hpages page).1 pending hpending
    exact hpublished.evolves hcurrent
  · rw [(hpages page).2 hpage]
    exact .refl _

/-- **Every step evolves every page.** Bytes of an armed page can change unnoticed only where the
step writes back to an exhausted page. -/
theorem PageStore.step_evolves (hobserved : ∀ page, (s.pages page).Observed)
    (h : storeMachine s input = some (reply, t)) (page : Nat) :
    Evolves (input.WritesBack s page ∧ (s.pages page).Exhausted) (s.pages page) (t.pages page) := by
  cases input with
  | page page' host op =>
    obtain ⟨⟨r, pages⟩, hr, ⟨⟩⟩ := map_eq_some_iff.mp h
    exact of_answer_any (onPage_evolves op (hobserved page')) hr page
  | commit batch hosts reserves =>
    obtain ⟨⟨r, pages⟩, hr, ⟨⟩⟩ := map_eq_some_iff.mp h
    exact of_answer_any (R := fun pages ↦ Evolves _ (s.pages page) (pages page))
      (commit_evolves page)
      hr
  | remainsCurrent =>
    rw [pages_remainsCurrent h]
    exact .refl _
  | stage | readStaged | captureRanges | rearm | snapshotBytes =>
    exact (step_yields h rfl page).toEvolves

/-- No step lets the CPU store unseen into an armed page. -/
theorem PageStore.step_observed (h : storeMachine s input = some (reply, t))
    (hobserved : ∀ page, (s.pages page).Observed) (page : Nat) : (t.pages page).Observed :=
  (step_evolves hobserved h page).observed (hobserved page)

variable {p : CanonicalBackingPage}

theorem CanonicalBackingPage.New.visible (h : p.New) : p.visibility.CpuVisible := by
  obtain ⟨identity, generation, ⟨size, rfl⟩ | ⟨bytes, rfl⟩⟩ := h <;> trivial

theorem CanonicalBackingPage.New.directAliases (h : p.New) : p.directAliases = ∅ := by
  obtain ⟨identity, generation, ⟨size, rfl⟩ | ⟨bytes, rfl⟩⟩ := h <;> rfl

theorem CanonicalBackingPage.New.observed (h : p.New) : p.Observed := by
  obtain ⟨identity, generation, ⟨size, rfl⟩ | ⟨bytes, rfl⟩⟩ := h <;> exact nofun

end

end Nixe.Memory
