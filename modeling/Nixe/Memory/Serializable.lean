import Nixe.Memory.PageStore

/-!
# Write batches are serializable

The meaning of a batch is the list of the writes that were staged in it: it is remembered by a
history variable of the store, and applied to a memory with `applied`. The entries of the batch
hold something else, the bytes that the pages had at the time of their snapshots with the writes
over them. The invariant `Staging.Holds` relates the two, and a commit makes them meet: a page
whose three counters are those of the snapshot still has the bytes of the snapshot, so what the
commit stores is what the writes make of the present bytes.

A staged read has no such check. It shows the snapshots, not the present bytes.
-/

namespace Nixe.Memory

open Std Method Machine CanonicalBackingPage Function ExtTreeMap List Option PageStore

/-! ## The meaning of a batch -/

structure StagedWrite where
  range : CheckedRange
  offset : Nat
  bytes : List UInt8
deriving DecidableEq

/-- The cells that the write covers. -/
def StagedWrite.cells (w : StagedWrite) : List (Nat × Nat) := w.range.window w.offset w.bytes.length

/-- The memory with the writes carried out, in order. -/
def applied (writes : List StagedWrite) (m : Nat → Nat → UInt8) : Nat → Nat → UInt8 :=
  writes.foldl (fun m w ↦ scatter m w.cells w.bytes) m

/-- Some write covers bytes of the page. -/
def Covered (writes : List StagedWrite) (page : Nat) : Prop :=
  ∃ w ∈ writes, ∃ cell ∈ w.cells, cell.1 = page

instance (writes : List StagedWrite) (page : Nat) : Decidable (Covered writes page) :=
  inferInstanceAs (Decidable (∃ w ∈ writes, ∃ cell ∈ w.cells, cell.1 = page))

/-- What is remembered of a batch. -/
structure BatchHistory where
  /-- The writes in the order in which they were staged, unless one of them failed. -/
  writes : Option (List StagedWrite)
  /-- The bytes of each page when a write first covered it. -/
  base : Nat → Nat → UInt8

def BatchHistory.empty : BatchHistory := ⟨some [], fun _ _ ↦ 0⟩

/-- A write is staged, after which the pages have the bytes `c`. -/
def BatchHistory.add (h : BatchHistory) (w : StagedWrite) (c : Nat → Nat → UInt8) :
    BatchHistory where
  writes := h.writes.map (· ++ [w])
  base page := if Covered (h.writes.getD []) page then h.base page else c page

/-- How a step changes what is remembered. -/
def noteStaged (g : Nat → BatchHistory) (_ : PageStore) (input : StoreInput) (reply : StoreReply)
    (t : PageStore) : Nat → BatchHistory :=
  match input, reply with
  | .stage batch _ range offset bytes, .stage (.ok ()) =>
    Function.update g batch ((g batch).add ⟨range, offset, bytes⟩ t.pages.contents)
  | .stage batch .., _ => Function.update g batch { g batch with writes := none }
  | .commit batch .., _ => Function.update g batch .empty
  | _, _ => g

/-- The store, with what is remembered of the batches. -/
def stagedMachine : Machine (PageStore × (Nat → BatchHistory)) StoreInput StoreReply :=
  storeMachine.observed noteStaged

/-! ## The writes of a batch -/

section

variable {writes : List StagedWrite} {w : StagedWrite} {m m' : Nat → Nat → UInt8} {page : Nat}

theorem applied_append :
    applied (writes ++ [w]) m = scatter (applied writes m) w.cells w.bytes := by
  rw [applied, foldl_append, foldl_cons, foldl_nil, applied]

/-- What the writes make of a page depends on that page only. -/
theorem applied_congr (h : m page = m' page) : applied writes m page = applied writes m' page := by
  induction writes generalizing m m' with
  | nil => exact h
  | cons w writes ih => exact ih (scatter_congr h)

theorem covered_append :
    Covered (writes ++ [w]) page ↔ (∃ cell ∈ w.cells, cell.1 = page) ∨ Covered writes page := by
  simp only [Covered, mem_append, mem_singleton, or_and_right, exists_or, exists_eq_left]
  exact or_comm

theorem applied_of_not_covered (h : ¬Covered writes page) : applied writes m page = m page := by
  induction writes generalizing m with
  | nil => rfl
  | cons w writes ih =>
    have hrest : ¬Covered writes page := fun ⟨w', hw', hcell⟩ ↦
      h ⟨w', mem_cons_of_mem _ hw', hcell⟩
    refine (ih hrest).trans (scatter_of_forall_ne fun cell hcell hpage ↦ h ?_)
    exact ⟨w, mem_cons_self, cell, hcell, hpage⟩

end

/-! ## The invariant -/

/-- Every batch whose writes all succeeded holds them. -/
structure StagingInvariant (s : PageStore × (Nat → BatchHistory)) : Prop where
  observed : ∀ page, (s.1.pages page).Observed
  holds : ∀ batch writes, (s.2 batch).writes = some writes →
    Staging.Holds ⟨s.1.pages, s.1.batches batch⟩ (applied writes) (Covered writes) (s.2 batch).base

section

variable {pages : PageHeap} {s t : PageStore} {g g' : Nat → BatchHistory} {input : StoreInput}
  {reply : StoreReply}

theorem holds_empty (pages : PageHeap) (base : Nat → Nat → UInt8) :
    Staging.Holds ⟨pages, ∅⟩ (applied []) (Covered []) base where
  staged page := by simp [Covered]
  taken page pending hp := by simp at hp
  bytes page pending hp := by simp at hp
  elsewhere _ _ _ := rfl

variable {batch : Nat}

section

variable (hI : StagingInvariant (s, g))

include hI

/-- A batch that a step leaves alone holds the same writes. -/
theorem StagingInvariant.holds_of_eq (h : storeMachine s input = some (reply, t))
    (hbatch : t.batches batch = s.batches batch) {writes : List StagedWrite}
    (hwrites : (g batch).writes = some writes) :
    Staging.Holds ⟨t.pages, t.batches batch⟩ (applied writes) (Covered writes) (g batch).base := by
  refine (hI.holds batch writes hwrites).evolves hbatch fun page ↦ ?_
  exact (step_evolves hI.observed h page).mono fun _ ↦ trivial

/-- The part of the invariant that the step of one batch leaves to prove. -/
theorem StagingInvariant.withStaging {u : Staging}
    (h : storeMachine s input = some (reply, s.withStaging batch u)) {history : BatchHistory}
    (hholds : ∀ writes, history.writes = some writes →
      u.Holds (applied writes) (Covered writes) history.base) :
    StagingInvariant (s.withStaging batch u, Function.update g batch history) where
  observed := step_observed h hI.observed
  holds batch' writes hwrites := by
    by_cases hne : batch' = batch
    · subst hne
      simp only [update_self, withStaging] at hwrites ⊢
      exact hholds writes hwrites
    · have hbatch : (s.withStaging batch u).batches batch' = s.batches batch' :=
        update_of_ne hne _ _
      simp only [update_of_ne hne] at hwrites ⊢
      exact hI.holds_of_eq h hbatch hwrites

theorem StagingInvariant.of_eq (h : storeMachine s input = some (reply, t))
    (hbatches : t.batches = s.batches) : StagingInvariant (t, g) where
  observed := step_observed h hI.observed
  holds batch _ hwrites := hI.holds_of_eq h (congrFun hbatches batch) hwrites

/-- A successful stage adds its write to those that the batch holds. -/
theorem StagingInvariant.stage {hosts : Nat → HostAnswers} {range : CheckedRange} {offset : Nat}
    {bytes : List UInt8} {u : Staging}
    (hr : (stage hosts range offset bytes ⟨s.pages, s.batches batch⟩).answer = some (.ok (), u)) :
    ∀ writes, ((g batch).add ⟨range, offset, bytes⟩ u.pages.contents).writes = some writes →
      u.Holds (applied writes) (Covered writes)
        ((g batch).add ⟨range, offset, bytes⟩ u.pages.contents).base := by
  intro writes hwrites
  obtain ⟨writes, hold, rfl⟩ := map_eq_some_iff.mp hwrites
  have hholds := hI.holds batch writes hold
  have hadded := ((of_answer stage_spec hr).1 () rfl).2 _ _ _ hholds
  have happlied : applied (writes ++ [⟨range, offset, bytes⟩]) = fun m ↦
      scatter (applied writes m) (range.window offset bytes.length) bytes :=
    funext fun _ ↦ applied_append
  rw [happlied]
  refine hadded.congr (fun page ↦ (covered_append (w := ⟨range, offset, bytes⟩)).symm)
    fun page _ ↦ ?_
  rw [BatchHistory.add, hold, getD_some, Staging.rebased]
  simp only [hholds.staged]
  rfl

theorem StagingInvariant.step (h : storeMachine s input = some (reply, t)) :
    StagingInvariant (t, noteStaged g s input reply t) := by
  cases input with
  | page page host op =>
    obtain ⟨r, -, ⟨⟩⟩ := map_eq_some_iff.mp h
    exact hI.of_eq h rfl
  | stage batch hosts range offset bytes =>
    obtain ⟨⟨r, u⟩, hr, ⟨⟩⟩ := map_eq_some_iff.mp h
    cases r with
    | ok a => exact hI.withStaging h (hI.stage hr)
    | error e => exact hI.withStaging h nofun
  | readStaged batch hosts range offset count =>
    obtain ⟨⟨r, u⟩, hr, ⟨⟩⟩ := map_eq_some_iff.mp h
    have hbatch : u.batch = s.batches batch :=
      of_answer_any (R := fun u ↦ u.batch = s.batches batch)
      (wp_of_wp readStaged_spec (fun _ _ h ↦ h.2.1) (fun _ _ h ↦ h.2)) hr
    refine hI.of_eq h ?_
    rw [PageStore.withStaging, hbatch, update_eq_self]
  | commit batch hosts reserves =>
    obtain ⟨⟨r, pages⟩, hr, ⟨⟩⟩ := map_eq_some_iff.mp h
    refine hI.withStaging h fun writes hwrites ↦ ?_
    cases hwrites
    exact holds_empty pages _
  | captureRanges dependency hosts ranges =>
    obtain ⟨⟨r, pages⟩, -, heq⟩ := map_eq_some_iff.mp h
    cases r <;> cases heq <;> exact hI.of_eq h rfl
  | remainsCurrent | rearm | snapshotBytes =>
    rcases callDependency_eq_some h with ⟨-, -, rfl⟩ | ⟨d, r, u, -, -, -, rfl⟩
    · exact hI
    · exact hI.of_eq h rfl

end

theorem stagingInvariant_run (hnew : ∀ page, (pages page).New) {es : List (StoreInput × StoreReply)}
    (hrun : Run stagedMachine (.initial pages, fun _ ↦ .empty) es (s, g)) :
    StagingInvariant (s, g) := by
  refine hrun.observed_invariant (fun _ _ _ _ _ hI h ↦ hI.step h)
    ⟨fun page ↦ (hnew page).observed, fun batch writes hwrites ↦ ?_⟩
  cases hwrites
  exact holds_empty pages _

end

/-! ## Commits and staged reads -/

section

variable {pages : PageHeap} {s t : PageStore} {g : Nat → BatchHistory} {batch : Nat}
  {writes : List StagedWrite} {u : Staging} {base : Nat → Nat → UInt8}
  {pending : PendingCanonicalPageWrite}

section

variable (h : u.Holds (applied writes) (Covered writes) base)

include h

/-- A page whose counters are those of the snapshot has the bytes of the snapshot. -/
theorem Staging.Holds.base_eq {page : Nat} (hpending : u.batch[page]? = some pending)
    (hcurrent : pending.Current (u.pages page)) : base page = (u.pages page).contents := by
  obtain ⟨-, -, hdirty, hvisible⟩ := hcurrent
  rcases ((h.taken page pending hpending).2.unchanged hdirty).2 with hsame | ⟨-, hlost⟩
  · exact hsame.symm
  · exact absurd hvisible (not_visible_of_lost hlost)

/-- What a commit stores in a page is what the writes make of its present bytes. -/
theorem Staging.Holds.published {page : Nat} (hpending : u.batch[page]? = some pending)
    (hcurrent : pending.Current (u.pages page)) {q : CanonicalBackingPage}
    (hq : PublishedPending pending (u.pages page) q) :
    q.contents = applied writes u.pages.contents page ∧
      q.generation = (u.pages page).generation + 1 := by
  obtain ⟨hbytes, hbeyond⟩ := h.bytes page pending hpending
  rw [h.base_eq hpending hcurrent] at hbytes hbeyond
  refine ⟨?_, by rw [hq.generation, hcurrent.1]⟩
  rw [hq.contents, overwrite_slice hbeyond, hbytes]
  exact applied_congr rfl

theorem Staging.Holds.commit_ok {hosts : Nat → HostAnswers} {reserves : Bool} {pages' : PageHeap}
    (hr : (commit hosts reserves u.batch u.pages).answer = some (.ok (), pages')) :
    pages'.contents = applied writes u.pages.contents ∧
      ∀ page, (Covered writes page → (pages' page).generation = (u.pages page).generation + 1) ∧
        (¬Covered writes page → pages' page = u.pages page) := by
  have hcommit := (of_answer commit_spec hr).1 () rfl
  have hcovered : ∀ page, Covered writes page →
      (pages' page).contents = applied writes u.pages.contents page ∧
        (pages' page).generation = (u.pages page).generation + 1 := by
    intro page hpage
    rw [← h.staged, mem_iff_isSome_getElem?, isSome_iff_exists] at hpage
    obtain ⟨pending, hpending⟩ := hpage
    obtain ⟨hcurrent, hpublished⟩ := (hcommit page).1 pending hpending
    exact h.published hpending hcurrent hpublished
  have hother : ∀ page, ¬Covered writes page → pages' page = u.pages page := fun page hpage ↦
    (hcommit page).2 ((h.staged page).not.mpr hpage)
  refine ⟨funext fun page ↦ ?_, fun page ↦ ⟨fun hpage ↦ (hcovered page hpage).2, hother page⟩⟩
  by_cases hpage : Covered writes page
  · exact (hcovered page hpage).1
  · rw [applied_of_not_covered hpage, PageHeap.contents, hother page hpage, PageHeap.contents]

/-- What a batch shows: the bases of its pages, and the present bytes elsewhere, with the writes
over them. -/
theorem Staging.Holds.shows_eq :
    u.shows = applied writes fun page ↦
      if Covered writes page then base page else (u.pages page).contents := by
  funext page
  by_cases hpage : Covered writes page
  · have hmem := hpage
    rw [← h.staged, mem_iff_isSome_getElem?, isSome_iff_exists] at hmem
    obtain ⟨pending, hpending⟩ := hmem
    simp only [Staging.shows, hpending, (h.bytes page pending hpending).1]
    exact applied_congr (if_pos hpage).symm
  · have hnone : u.batch[page]? = none := by
      rw [← not_isSome_iff_eq_none, ← mem_iff_isSome_getElem?, h.staged]
      exact hpage
    rw [applied_of_not_covered hpage, if_neg hpage, Staging.shows, hnone]

end

/-- **Write batches are serializable.** Take any run of the store and a batch all of whose writes
were staged successfully. A commit that succeeds changes the present bytes by exactly these writes,
in order, advances the generation of their pages by one and leaves the other pages alone; one that
fails changes no byte and no generation. A staged read shows the writes over the bytes that their
pages had when they were first written, which are the present ones while the snapshots are
current, and over the present bytes of the other pages. -/
theorem batches_serializable (hnew : ∀ page, (pages page).New)
    {es : List (StoreInput × StoreReply)}
    (hrun : Run stagedMachine (.initial pages, fun _ ↦ .empty) es (s, g))
    (hwrites : (g batch).writes = some writes) :
    (∀ hosts reserves t,
      storeMachine s (.commit batch hosts reserves) = some (.commit (.ok ()), t) →
        t.pages.contents = applied writes s.pages.contents ∧
        ∀ page, (Covered writes page → (t.pages page).generation = (s.pages page).generation + 1) ∧
          (¬Covered writes page → t.pages page = s.pages page)) ∧
    (∀ hosts reserves e t,
      storeMachine s (.commit batch hosts reserves) = some (.commit (.error e), t) →
        ∀ page, (t.pages page).contents = (s.pages page).contents ∧
          (t.pages page).generation = (s.pages page).generation) ∧
    (∀ hosts range offset count bytes t,
      storeMachine s (.readStaged batch hosts range offset count) =
          some (.readStaged (.ok bytes), t) →
        bytes = gather (applied writes fun page ↦
          if Covered writes page then (g batch).base page else (t.pages page).contents)
          (range.window offset count)) ∧
    ∀ page pending, (s.batches batch)[page]? = some pending → pending.Current (s.pages page) →
      (g batch).base page = (s.pages page).contents := by
  have hI := stagingInvariant_run hnew hrun
  have hholds := hI.holds batch writes hwrites
  refine ⟨fun hosts reserves t h ↦ ?_, fun hosts reserves e t h ↦ ?_,
    fun hosts range offset count bytes t h ↦ ?_, fun page pending ↦ hholds.base_eq⟩
  · obtain ⟨⟨r, pages'⟩, hr, ⟨⟩⟩ := map_eq_some_iff.mp h
    exact hholds.commit_ok hr
  · obtain ⟨⟨r, pages'⟩, hr, ⟨⟩⟩ := map_eq_some_iff.mp h
    intro page
    rcases (of_answer commit_spec hr).2 e rfl page with hpage | ⟨-, hpage⟩
    · simp only [withStaging, hpage, and_self]
    · simp only [withStaging, hpage]
      exact ⟨sameBytes_materialized.contents, rfl⟩
  · obtain ⟨⟨r, u⟩, hr, ⟨⟩⟩ := map_eq_some_iff.mp h
    obtain ⟨htouches, hbatch, hbytes⟩ := (of_answer readStaged_spec hr).1 bytes rfl
    have hafter := hholds.evolves hbatch fun page ↦
      (htouches.yieldsPages page).toEvolves.mono fun _ ↦ trivial
    rw [hbytes, hafter.shows_eq]
    rfl

/-- Two writes to the same page, of which the second covers a byte of the first. -/
def overlapping : List StagedWrite := [⟨smallRange 0, 1, [5, 6]⟩, ⟨smallRange 0, 2, [7]⟩]

/-- The commit of two overlapping writes. -/
theorem batches_serializable_overlapping :
    ∃ es s g t, Run stagedMachine (.initial smallPages, fun _ ↦ .empty) es (s, g) ∧
      storeMachine s (.commit 0 (fun _ ↦ .obliging) true) = some (.commit (.ok ()), t) ∧
      t.pages.contents = applied overlapping s.pages.contents ∧
      slice (t.pages.contents 0) 0 4 = [0, 5, 7, 0] := by
  have hexec : ∃ r ∈ exec stagedMachine (.initial smallPages, fun _ ↦ .empty) (overlapping.map
      fun w ↦ .stage 0 (fun _ ↦ .obliging) w.range w.offset w.bytes),
        (r.2.2 0).writes = some overlapping ∧
          ∃ q ∈ storeMachine r.2.1 (.commit 0 (fun _ ↦ .obliging) true),
            q.1 = .commit (.ok ()) ∧ slice (q.2.pages.contents 0) 0 4 = [0, 5, 7, 0] := by
    decide +kernel
  obtain ⟨es, ⟨s, g⟩, hrun, -, hwrites, ⟨reply, t⟩, ht, rfl, hbytes⟩ := exists_run_of_exec hexec
  have hserial := (batches_serializable smallPages_new hrun hwrites).1 _ _ _ ht
  exact ⟨es, s, g, t, hrun, ht, hserial.1, hbytes⟩

/-- A write is staged, then the CPU writes another byte of the page. -/
def writtenMeanwhile : List StoreInput :=
  [.stage 0 (fun _ ↦ .obliging) (smallRange 0) 0 [1],
    .page 0 .obliging (.writeCpu 1 [7])]

/-- A staged read does not show the present bytes with the staged writes over them. -/
theorem exists_stale_staged_read :
    ∃ es s g t bytes, Run stagedMachine (.initial smallPages, fun _ ↦ .empty) es (s, g) ∧
      (g 0).writes = some [⟨smallRange 0, 0, [1]⟩] ∧
      storeMachine s (.readStaged 0 (fun _ ↦ .obliging) (smallRange 0) 1 1) =
        some (.readStaged (.ok bytes), t) ∧
      bytes ≠ gather (applied [⟨smallRange 0, 0, [1]⟩] s.pages.contents)
        ((smallRange 0).window 1 1) := by
  have hexec : ∃ r ∈ exec stagedMachine (.initial smallPages, fun _ ↦ .empty) writtenMeanwhile,
      (r.2.2 0).writes = some [⟨smallRange 0, 0, [1]⟩] ∧
        (∃ q ∈ storeMachine r.2.1 (.readStaged 0 (fun _ ↦ .obliging) (smallRange 0) 1 1),
          q.1 = .readStaged (.ok [0])) ∧
        [0] ≠ gather (applied [⟨smallRange 0, 0, [1]⟩] r.2.1.pages.contents)
          ((smallRange 0).window 1 1) := by decide +kernel
  obtain ⟨es, ⟨s, g⟩, hrun, -, hwrites, ⟨⟨reply, t⟩, ht, rfl⟩, hpresent⟩ := exists_run_of_exec hexec
  exact ⟨es, s, g, t, [0], hrun, hwrites, ht, hpresent⟩

end

end Nixe.Memory
