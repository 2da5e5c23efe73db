import Nixe.Memory.Range

/-!
# Write batches

A batch collects writes to any number of pages and publishes them at once. When it first meets a
page it takes a snapshot of it, which arms its observer, and the staged writes go to the bytes of
the snapshot. A commit first checks all of its pages against their snapshots, and only if none has
changed it stores their bytes.
-/

namespace Nixe.Memory

open Std Method CanonicalBackingPage Function ExtTreeMap List SegmentPiece

structure PendingCanonicalPageWrite where
  expectedGeneration : Nat
  expectedVisibilityEpoch : Nat
  expectedDirtyEpoch : Nat
  bytes : Nat → UInt8
  /-- The number of the bytes. -/
  size : Nat

/-- The pages that a batch writes, by their identity. -/
abbrev CanonicalWriteBatch : Type := ExtTreeMap Nat PendingCanonicalPageWrite

inductive CanonicalWriteBatchError where
  | rangeOverflow
  | outOfBounds (offset size rangeSize : Nat)
  | permissionDenied (page : Nat) (available : MemoryPermissions)
  | incompleteRange
  | page (error : CanonicalPageError)
  | generationExhausted
  | visibilityEpochExhausted
  | concurrentMutation
  | resourceExhausted
deriving DecidableEq, Repr

/-- The pages, and a batch that is being built. -/
structure Staging where
  pages : PageHeap
  batch : CanonicalWriteBatch

abbrev StagingM : Type → Type := Method CanonicalWriteBatchError Staging

/-- Call a method of one page. -/
def onStagedPage {α : Type} (page : Nat) (m : PageM α) : StagingM α :=
  mapErr .page (focus (·.pages) (fun s pages ↦ { s with pages := pages }) (onPage page m))

section

variable (hosts : Nat → HostAnswers)

def prepareUnstaged (page : Nat) : StagingM Unit := do
  if page ∈ (← read (·.batch)) then pure ()
  else onStagedPage page (prepareCpuAccess (hosts page))

/-- `prepare_unstaged_cpu_visible`. Each page is visited once. Nothing comes between this and the
accesses that follow, so that the loop around the two ends after one round. -/
def prepareUnstagedCpuVisible (pieces : List SegmentPiece) : StagingM Unit :=
  forEach (prepareUnstaged hosts) (pieces.map page).eraseDups

/-- The entry of a page in the batch, which is made from a snapshot if there is none. -/
def pendingWrite (page : Nat) : StagingM PendingCanonicalPageWrite := do
  match (← read (·.batch[page]?)) with
  | some pending => pure pending
  | none => do
    let snapshot ← onStagedPage page (snapshotCpuWriteQuiescent (hosts page))
    let size ← read fun s ↦ (s.pages page).size
    let pending : PendingCanonicalPageWrite :=
      ⟨snapshot.generation, snapshot.visibilityEpoch, snapshot.dirtyEpoch, snapshot.bytes, size⟩
    update fun s ↦ { s with batch := s.batch.insert page pending }
    pure pending

def stagePiece (piece : SegmentPiece) (chunk : List UInt8) : StagingM Unit := do
  failIf (piece.segment.permissions.write = false)
    (.permissionDenied piece.page piece.segment.permissions)
  let pending ← pendingWrite hosts piece.page
  assert (decide (piece.pageOffset + piece.count ≤ pending.size)) "range end index out of range"
  update fun s ↦ { s with
    batch := s.batch.insert piece.page
      { pending with bytes := overwrite pending.bytes piece.pageOffset chunk } }

/-- The loop of `stage`, with the bytes that are not copied yet. -/
def stagePieces : List SegmentPiece → List UInt8 → StagingM Unit
  | [], rest => failIf (rest ≠ []) .incompleteRange
  | piece :: pieces, rest => do
    stagePiece hosts piece (rest.take piece.count)
    stagePieces pieces (rest.drop piece.count)

def stage (range : CheckedRange) (offset : Nat) (bytes : List UInt8) : StagingM Unit := do
  let stop ← okOr (checkedAdd offset bytes.length) .rangeOverflow
  failIf (range.size < stop) (.outOfBounds offset bytes.length range.size)
  if bytes = [] then pure ()
  else do
    prepareUnstagedCpuVisible hosts (range.pieces offset stop)
    stagePieces hosts (range.pieces offset stop) bytes

/-- The bytes of a piece, with the staged writes over them. -/
def readStagedPiece (piece : SegmentPiece) : StagingM (List UInt8) := do
  failIf (piece.segment.permissions.read = false)
    (.permissionDenied piece.page piece.segment.permissions)
  match (← read (·.batch[piece.page]?)) with
  | some pending => do
    assert (decide (piece.pageOffset + piece.count ≤ pending.size)) "range end index out of range"
    pure (slice pending.bytes piece.pageOffset piece.count)
  | none => onStagedPage piece.page (readQuiescent piece.pageOffset piece.count)

def readStagedPieces : List SegmentPiece → StagingM (List UInt8)
  | [] => pure []
  | piece :: pieces => do
    let chunk ← readStagedPiece piece
    let rest ← readStagedPieces pieces
    pure (chunk ++ rest)

def readStaged (range : CheckedRange) (offset count : Nat) : StagingM (List UInt8) := do
  let stop ← okOr (checkedAdd offset count) .rangeOverflow
  failIf (range.size < stop) (.outOfBounds offset count range.size)
  if count = 0 then pure []
  else do
    prepareUnstagedCpuVisible hosts (range.pieces offset stop)
    let bytes ← readStagedPieces (range.pieces offset stop)
    failIf (bytes.length ≠ count) .incompleteRange
    pure bytes

end

/-! ## Commits -/

/-- What a commit computes from the snapshot before it looks at the page. -/
def checkCounters (pending : PendingCanonicalPageWrite) :
    Method CanonicalWriteBatchError PageHeap Unit := do
  failIf (checkedAdd pending.expectedGeneration 1 = none) .generationExhausted
  failIf (checkedAdd pending.expectedVisibilityEpoch 1 = none) .visibilityEpochExhausted

/-- The page is as it was when the snapshot was taken, by its counters. -/
def PendingCanonicalPageWrite.Current (pending : PendingCanonicalPageWrite)
    (p : CanonicalBackingPage) : Prop :=
  p.generation = pending.expectedGeneration ∧ p.visibilityEpoch = pending.expectedVisibilityEpoch ∧
    p.cpuDirtyEpoch = pending.expectedDirtyEpoch ∧ p.visibility.CpuVisible

instance (pending : PendingCanonicalPageWrite) (p : CanonicalBackingPage) :
    Decidable (pending.Current p) := inferInstanceAs (Decidable (_ ∧ _ ∧ _ ∧ _))

def validate (page : Nat) (pending : PendingCanonicalPageWrite) :
    Method CanonicalWriteBatchError PageHeap Unit := do
  let p ← read (· page)
  failIf (¬pending.Current p) .concurrentMutation
  failIf (p.cpuDirtyObserverArmed = true ∧ p.cpuDirtyEpoch = wordMax)
    (.page .cpuDirtyEpochExhausted)

/-- The last loop of `commit`, for one page. -/
def publishPending (host : HostAnswers) (pending : PendingCanonicalPageWrite) : PageM Unit := do
  update fun p ↦ { p with visibility := .cpuNewer }
  expectOk "CPU dirty epochs were preflighted while page states are locked" (publishCpuDirty host)
  copyBytes 0 (slice pending.bytes 0 pending.size)
  update fun p ↦ { p with
    generation := pending.expectedGeneration + 1
    visibilityEpoch := pending.expectedVisibilityEpoch + 1 }

/-- `commit`. `reserves` says whether the vectors for the pages can be allocated. -/
def commit (hosts : Nat → HostAnswers) (reserves : Bool) (batch : CanonicalWriteBatch) :
    Method CanonicalWriteBatchError PageHeap Unit := do
  failIf (reserves = false) .resourceExhausted
  forEach (fun e ↦ checkCounters e.2) batch.toList
  forEach (fun e ↦ mapErr .page (onPage e.1 (ensureBacking (hosts e.1)))) batch.toList
  forEach (fun e ↦ validate e.1 e.2) batch.toList
  forEach (fun e ↦ mapErr .page (onPage e.1 (publishPending (hosts e.1) e.2))) batch.toList

/-! ## What staging does to the pages -/

section

variable {hosts : Nat → HostAnswers} {S : Nat → Prop} {page : Nat}

/-- The pages of `S` settle, while a batch is built. -/
def StagingTouches (hosts : Nat → HostAnswers) (S : Nat → Prop) (s t : Staging) : Prop :=
  Touches hosts S s.pages t.pages

instance : Std.Refl (StagingTouches hosts S) := ⟨fun s ↦ refl_of (Touches hosts S) s.pages⟩

instance : IsTrans Staging (StagingTouches hosts S) where
  trans _ _ _ h h' := trans_of (Touches hosts S) h h'

/-- A method of one page, as a method of the batch that is being built. -/
theorem wp_onStagedPage {α : Type} {m : PageM α} {Q : Post CanonicalWriteBatchError Staging α}
    {s : Staging} :
    wp (onStagedPage page m) Q s ↔
      wp m ⟨fun a q ↦ Q.ok a { s with pages := Function.update s.pages page q },
        fun e q ↦ Q.err (.page e) { s with pages := Function.update s.pages page q },
        Q.panic⟩ (s.pages page) := by
  simp only [onStagedPage, wp_mapErr, wp_focus, wp_onPage]

end

/-! ## What a batch holds -/

section

/-- The snapshot was taken of the page when it had the bytes `c`. -/
def PendingCanonicalPageWrite.TakenFrom (pending : PendingCanonicalPageWrite) (c : Nat → UInt8)
    (p : CanonicalBackingPage) : Prop :=
  p.size = pending.size ∧ Tracks True pending.expectedDirtyEpoch c p

variable {pending : PendingCanonicalPageWrite} {hosts : Nat → HostAnswers}

theorem PendingCanonicalPageWrite.TakenFrom.evolves {c : Nat → UInt8} {p q : CanonicalBackingPage}
    (h : pending.TakenFrom c p) (hpq : Evolves True p q) : pending.TakenFrom c q :=
  ⟨hpq.size.trans h.1, h.2.evolves hpq⟩

/-- The batch holds the writes `f` to the pages `T`: what they make of the bytes `base` that the
pages had when their snapshots were taken. -/
structure Staging.Holds (s : Staging) (f : (Nat → Nat → UInt8) → Nat → Nat → UInt8)
    (T : Nat → Prop) (base : Nat → Nat → UInt8) : Prop where
  staged : ∀ page, page ∈ s.batch ↔ T page
  taken : ∀ page (pending : PendingCanonicalPageWrite), s.batch[page]? = some pending →
    pending.TakenFrom (base page) (s.pages page)
  bytes : ∀ page (pending : PendingCanonicalPageWrite), s.batch[page]? = some pending →
    pending.bytes = f (fun _ ↦ base page) page ∧ ∀ i,
      pending.size ≤ i → pending.bytes i = base page i
  elsewhere : ∀ page, ¬T page → ∀ m, f m page = m page

variable {s t : Staging} {f : (Nat → Nat → UInt8) → Nat → Nat → UInt8} {T : Nat → Prop}
  {base : Nat → Nat → UInt8}

theorem Staging.Holds.evolves (h : s.Holds f T base) (hbatch : t.batch = s.batch)
    (hpages : ∀ page, Evolves True (s.pages page) (t.pages page)) : t.Holds f T base where
  staged page := by
    rw [hbatch]
    exact h.staged page
  taken page pending hp := by
    rw [hbatch] at hp
    exact (h.taken page pending hp).evolves (hpages page)
  bytes := by
    rw [hbatch]
    exact h.bytes
  elsewhere := h.elsewhere

/-- Only the pages of the batch have a base. -/
theorem Staging.Holds.congr {T' : Nat → Prop} {base' : Nat → Nat → UInt8} (h : s.Holds f T base)
    (hT : ∀ page, T page ↔ T' page) (hbase : ∀ page ∈ s.batch, base' page = base page) :
    s.Holds f T' base' where
  staged page := (h.staged page).trans (hT page)
  taken page pending hp := by
    rw [hbase page (mem_of_getElem?_eq_some hp)]
    exact h.taken page pending hp
  bytes page pending hp := by
    rw [hbase page (mem_of_getElem?_eq_some hp)]
    exact h.bytes page pending hp
  elsewhere page hpage := h.elsewhere page ((hT page).not.mpr hpage)

/-- The bases after a call: a page that the call has added to the batch was as it is now. -/
def Staging.rebased (s t : Staging) (base : Nat → Nat → UInt8) : Nat → Nat → UInt8 := fun page ↦
  if page ∈ s.batch then base page else (t.pages page).contents

/-- A new entry holds nothing yet. -/
theorem Staging.Holds.insert (h : s.Holds f T base) {page : Nat} (hpage : page ∉ s.batch)
    (hbatch : t.batch = s.batch.insert page pending)
    (hpages : ∀ page, Evolves True (s.pages page) (t.pages page))
    (hbytes : pending.bytes = (t.pages page).contents)
    (htaken : pending.TakenFrom pending.bytes (t.pages page)) :
    t.Holds f (fun page' ↦ page' = page ∨ T page') (s.rebased t base) where
  staged page' := by
    rw [hbatch, mem_map_insert_iff, h.staged]
  taken page' pending' hp := by
    rw [hbatch] at hp
    rcases getElem?_insert_eq_some_iff.mp hp with ⟨rfl, rfl⟩ | ⟨-, hp⟩
    · rw [rebased, if_neg hpage, ← hbytes]
      exact htaken
    · rw [rebased, if_pos (mem_of_getElem?_eq_some hp)]
      exact (h.taken page' pending' hp).evolves (hpages page')
  bytes page' pending' hp := by
    rw [hbatch] at hp
    rcases getElem?_insert_eq_some_iff.mp hp with ⟨rfl, rfl⟩ | ⟨-, hp⟩
    · rw [h.elsewhere page' ((h.staged page').not.mp hpage), rebased, if_neg hpage, ← hbytes]
      exact ⟨rfl, fun _ _ ↦ rfl⟩
    · rw [rebased, if_pos (mem_of_getElem?_eq_some hp)]
      exact h.bytes page' pending' hp
  elsewhere page' hpage' := h.elsewhere page' (not_or.mp hpage').2

/-- A write to one page that the batch has an entry for. -/
theorem Staging.Holds.overwrite (h : s.Holds f T base) {page offset : Nat} {chunk : List UInt8}
    (hpending : s.batch[page]? = some pending) (hbound : offset + chunk.length ≤ pending.size)
    (hpages : t.pages = s.pages) (hbatch : t.batch = s.batch.insert page
      { pending with bytes := Nixe.overwrite pending.bytes offset chunk }) :
    t.Holds (fun m ↦ scatter (f m) (consecutive page offset chunk.length) chunk) T base where
  staged page' := by
    rw [hbatch, mem_map_insert_iff, ← h.staged]
    constructor
    · rintro (rfl | hmem)
      · exact mem_of_getElem?_eq_some hpending
      · exact hmem
    · exact .inr
  taken page' pending' hp := by
    rw [hbatch] at hp
    rw [hpages]
    rcases getElem?_insert_eq_some_iff.mp hp with ⟨rfl, rfl⟩ | ⟨-, hp⟩
    · exact h.taken page' pending hpending
    · exact h.taken page' pending' hp
  bytes page' pending' hp := by
    rw [hbatch] at hp
    rcases getElem?_insert_eq_some_iff.mp hp with ⟨rfl, rfl⟩ | ⟨hne, hp⟩
    · obtain ⟨hbytes, hbeyond⟩ := h.bytes page' pending hpending
      refine ⟨?_, fun i hi ↦ (overwrite_of_le (hbound.trans hi)).trans (hbeyond i hi)⟩
      rw [scatter_consecutive, update_self, ← hbytes]
    · rw [scatter_consecutive, update_of_ne hne]
      exact h.bytes page' pending' hp
  elsewhere page' hpage' m := by
    have hpage : page' ≠ page := by
      rintro rfl
      exact hpage' ((h.staged page').mp (mem_of_getElem?_eq_some hpending))
    rw [scatter_consecutive, update_of_ne hpage]
    exact h.elsewhere page' hpage' m

/-- What adding to a batch does: it arms pages, and keeps the bytes and the entries there are. -/
structure Stages (hosts : Nat → HostAnswers) (S : Nat → Prop) (s t : Staging) : Prop where
  touches : StagingTouches hosts S s t
  contents : t.pages.contents = s.pages.contents
  mem : ∀ page ∈ s.batch, page ∈ t.batch

variable {S : Nat → Prop}

theorem Stages.refl (s : Staging) : Stages hosts S s s :=
  ⟨refl_of _ s, rfl, fun _ h ↦ h⟩

theorem Stages.trans {u : Staging} (h : Stages hosts S s t) (h' : Stages hosts S t u) :
    Stages hosts S s u :=
  ⟨trans_of _ h.touches h'.touches, h'.contents.trans h.contents,
    fun page hpage ↦ h'.mem page (h.mem page hpage)⟩

/-- The bases do not depend on where a call is cut into two. -/
theorem Stages.rebased {u : Staging} (h : Stages hosts S s t) (h' : Stages hosts S t u) :
    t.rebased u (s.rebased t base) = s.rebased u base := by
  funext page
  have hcontents : (u.pages page).contents = (t.pages page).contents := congrFun h'.contents page
  rw [Staging.rebased, Staging.rebased, Staging.rebased, hcontents]
  by_cases hpage : page ∈ s.batch
  · rw [if_pos (h.mem page hpage)]
  · rw [if_neg hpage, ite_self]

end

/-! ## Staging -/

section

variable {hosts : Nat → HostAnswers} {S : Nat → Prop} {s : Staging}

theorem prepareUnstaged_spec {page : Nat} (hS : S page) :
    wp (prepareUnstaged hosts page)
      (.leaves fun t ↦ StagingTouches hosts S s t ∧ t.batch = s.batch) s := by
  simp only [prepareUnstaged, wp_rules, wp_ite, wp_onStagedPage, and_true]
  refine ⟨fun _ ↦ refl_of _ s, fun _ ↦ ?_⟩
  exact wp_of_wp prepareCpuAccess_spec (fun _ _ h ↦ touches_update hS h.1)
    (fun _ _ h ↦ touches_update hS h)

variable {pieces : List SegmentPiece}

/-- The relation that the accesses to unstaged pages keep. -/
theorem prepareUnstagedCpuVisible_spec (hS : ∀ piece ∈ pieces, S piece.page) :
    wp (prepareUnstagedCpuVisible hosts pieces)
      (.leaves fun t ↦ StagingTouches hosts S s t ∧ t.batch = s.batch) s := by
  have hall : ∀ pages : List Nat, (∀ page ∈ pages, S page) → ∀ s : Staging,
      wp (forEach (prepareUnstaged hosts) pages)
        (.leaves fun t ↦ StagingTouches hosts S s t ∧ t.batch = s.batch) s := by
    intro pages hpages
    induction pages with
    | nil => exact fun s ↦ ⟨refl_of _ s, rfl⟩
    | cons page pages ih =>
      intro s
      obtain ⟨hpage, hpages⟩ := forall_mem_cons.mp hpages
      rw [forEach, wp_bind]
      refine wp_of_ok (prepareUnstaged_spec hpage) ?_
      rintro _ t ⟨hst, hbatch⟩
      refine wp_of_wp (ih hpages t) ?_ ?_
      · rintro _ u ⟨htu, hbatch'⟩
        exact ⟨trans_of _ hst htu, hbatch'.trans hbatch⟩
      · rintro _ u ⟨htu, hbatch'⟩
        exact ⟨trans_of _ hst htu, hbatch'.trans hbatch⟩
  refine hall _ (fun page hpage ↦ ?_) s
  obtain ⟨piece, hpiece, rfl⟩ := mem_map.mp (mem_eraseDups.mp hpage)
  exact hS piece hpiece

theorem pendingWrite_spec {page : Nat} (hS : S page) :
    wp (pendingWrite hosts page)
      ⟨fun pending t ↦ Stages hosts S s t ∧ t.batch[page]? = some pending ∧
          ∀ f T base, s.Holds f T base →
            t.Holds f (fun page' ↦ page' = page ∨ T page') (s.rebased t base),
        fun _ t ↦ StagingTouches hosts S s t, False⟩ s := by
  simp only [pendingWrite, wp_rules]
  split
  · rename_i pending h
    refine ⟨.refl s, h, fun f T base hs ↦ hs.congr (fun page' ↦ ⟨.inr, ?_⟩) fun page' hpage' ↦ ?_⟩
    · rintro (rfl | hT)
      · exact (hs.staged page').mp (mem_of_getElem?_eq_some h)
      · exact hT
    · rw [Staging.rebased, if_pos hpage']
  · rename_i h
    have hpage : page ∉ s.batch := by
      rw [mem_iff_isSome_getElem?, h]
      simp
    simp only [wp_rules, wp_onStagedPage]
    refine wp_of_wp snapshotCpuWriteQuiescent_spec ?_ ?_
    · rintro snapshot q ⟨harmed, hvisible, rfl⟩
      have hsettles : Settles (hosts page) (s.pages page) q :=
        ⟨harmed.yields, fun h ↦ absurd h (not_exhausted_of_visible hvisible)⟩
      have htouches : Touches hosts S s.pages (Function.update s.pages page q) :=
        touches_update hS hsettles
      refine ⟨⟨htouches, ?_, fun page' hpage' ↦ mem_map_insert_iff.mpr (.inr hpage')⟩,
        ExtTreeMap.getElem?_insert_self, fun f T base hs ↦ ?_⟩
      · funext page'
        by_cases hpage' : page' = page
        · simp only [PageHeap.contents, hpage', update_self, harmed.contents]
        · simp only [PageHeap.contents, update_of_ne hpage']
      · refine hs.insert hpage rfl
          (fun page' ↦ (htouches page').1.toEvolves.mono fun _ ↦ trivial) ?_ ?_
        · simp only [update_self]
        · simp only [update_self]
          exact ⟨rfl, harmed.tracks⟩
    · rintro _ q ⟨hq, hv⟩
      exact touches_update hS (hq.settles hv)

variable {piece : SegmentPiece} {range : CheckedRange}

theorem stagePiece_spec {chunk : List UInt8} (hS : S piece.page)
    (hchunk : chunk.length = piece.count) :
    wp (stagePiece hosts piece chunk)
      ⟨fun _ t ↦ Stages hosts S s t ∧
          ∀ f T base, s.Holds f T base → t.Holds (fun m ↦ scatter (f m) piece.cells chunk)
            (fun page ↦ page = piece.page ∨ T page) (s.rebased t base),
        fun _ t ↦ StagingTouches hosts S s t, True⟩ s := by
  simp only [stagePiece, wp_rules, wp_assert, decide_eq_true_eq]
  refine ⟨fun _ ↦ refl_of _ s, fun _ ↦ ?_⟩
  refine wp_mono (pendingWrite_spec hS) ?_ (fun _ _ h ↦ h) fun h ↦ h.elim
  rintro pending t ⟨hst, hpending, hholds⟩
  refine ⟨fun hbound ↦ ⟨⟨hst.touches, hst.contents, fun page hpage ↦ ?_⟩, fun f T base hs ↦ ?_⟩,
    fun _ ↦ trivial⟩
  · exact mem_map_insert_iff.mpr (.inr (hst.mem page hpage))
  · rw [cells, ← hchunk]
    exact (hholds f T base hs).overwrite hpending (hchunk ▸ hbound) rfl rfl

/-- The loop of `stage` writes the bytes to the cells of the pieces, one after another. -/
theorem stagePieces_spec {rest : List UInt8} (hS : ∀ piece ∈ pieces, S piece.page)
    (hlength : (pieces.flatMap cells).length = rest.length) :
    wp (stagePieces hosts pieces rest)
      ⟨fun _ t ↦ Stages hosts S s t ∧ ∀ f T base, s.Holds f T base →
          t.Holds (fun m ↦ scatter (f m) (pieces.flatMap cells) rest)
            (fun page ↦ (∃ piece ∈ pieces, piece.page = page) ∨ T page) (s.rebased t base),
        fun _ t ↦ StagingTouches hosts S s t, True⟩ s := by
  induction pieces generalizing s rest with
  | nil =>
    simp only [stagePieces, wp_failIf]
    refine ⟨fun _ ↦ refl_of _ s, fun _ ↦ ⟨.refl s, fun f T base hs ↦ ?_⟩⟩
    refine hs.congr (fun page ↦ by simp) fun page hpage ↦ ?_
    rw [Staging.rebased, if_pos hpage]
  | cons piece pieces ih =>
    obtain ⟨hpiece, hS⟩ := forall_mem_cons.mp hS
    rw [flatMap_cons, length_append, cells, length_consecutive] at hlength
    have hchunk : (rest.take piece.count).length = piece.count := by
      rw [length_take]
      omega
    rw [stagePieces, wp_bind]
    refine wp_of_ok (stagePiece_spec hpiece hchunk) ?_
    rintro _ t ⟨hst, hholds⟩
    have hrest : (pieces.flatMap cells).length = (rest.drop piece.count).length := by
      rw [length_drop]
      omega
    refine wp_of_wp (ih hS hrest) ?_ (fun _ u hu ↦ trans_of _ hst.touches hu)
    rintro _ u ⟨htu, hholds'⟩
    refine ⟨hst.trans htu, fun f T base hs ↦ ?_⟩
    have hcells : piece.cells.length = (rest.take piece.count).length :=
      (length_consecutive _ _ _).trans hchunk.symm
    have hsplit : ∀ m, scatter m ((piece :: pieces).flatMap cells) rest =
        scatter (scatter m piece.cells (rest.take piece.count))
          (pieces.flatMap cells) (rest.drop piece.count) := by
      intro m
      rw [← scatter_append hcells, take_append_drop, flatMap_cons]
    simp only [hsplit]
    rw [← hst.rebased htu]
    refine (hholds' _ _ _ (hholds f T base hs)).congr (fun page ↦ ?_) fun _ _ ↦ rfl
    rw [exists_mem_cons_iff, or_left_comm, or_assoc, eq_comm]

/-- Staging settles the pages of the range, and adds the write to those that the batch holds. -/
theorem stage_spec {offset : Nat} {bytes : List UInt8} :
    wp (stage hosts range offset bytes)
      ⟨fun _ t ↦ StagingTouches hosts range.Has s t ∧ ∀ f T base, s.Holds f T base →
          t.Holds (fun m ↦ scatter (f m) (range.window offset bytes.length) bytes)
            (fun page ↦ (∃ cell ∈ range.window offset bytes.length, cell.1 = page) ∨ T page)
            (s.rebased t base),
        fun _ t ↦ StagingTouches hosts range.Has s t, True⟩ s := by
  simp only [stage, wp_rules, wp_ite]
  refine ⟨fun stop hstop ↦ ⟨fun _ ↦ refl_of _ s, fun hle ↦ ⟨fun hnil ↦ ?_, fun _ ↦ ?_⟩⟩,
    fun _ ↦ refl_of _ s⟩
  · subst hnil
    refine ⟨refl_of _ s, fun f T base hs ↦ ?_⟩
    rw [length_nil, range.window_zero]
    refine hs.congr (fun page ↦ by simp) fun page hpage ↦ ?_
    rw [Staging.rebased, if_pos hpage]
  · obtain ⟨-, rfl⟩ := checkedAdd_eq_some_iff.mp hstop
    have hS : ∀ piece ∈ range.pieces offset (offset + bytes.length), range.Has piece.page :=
      fun piece hpiece ↦ CheckedRange.has_of_mem_pieces hpiece
    have hlength := range.length_window (Nat.not_lt.mp hle)
    simp only [← range.exists_piece_iff]
    rw [← range.flatMap_cells_pieces] at hlength ⊢
    refine wp_mono (prepareUnstagedCpuVisible_spec hS) ?_ (fun _ _ h ↦ h.1) fun h ↦ h.elim
    rintro _ t ⟨hst, hbatch⟩
    refine wp_of_wp (stagePieces_spec hS hlength) ?_ (fun _ u hu ↦ trans_of _ hst hu)
    rintro _ u ⟨htu, hholds⟩
    have hbase : ∀ base, s.rebased u base = t.rebased u base := by
      intro base
      funext page
      rw [Staging.rebased, Staging.rebased, hbatch]
    refine ⟨trans_of _ hst htu.touches, fun f T base hs ↦ ?_⟩
    rw [hbase]
    refine hholds f T base (hs.evolves hbatch fun page ↦ ?_)
    exact (hst page).1.toEvolves.mono fun _ ↦ trivial

/-- What the batch shows: the bytes of its entries, and the canonical bytes elsewhere. -/
def Staging.shows (s : Staging) : Nat → Nat → UInt8 := fun page ↦
  match s.batch[page]? with
  | some pending => pending.bytes
  | none => (s.pages page).contents

theorem readStagedPiece_spec :
    wp (readStagedPiece piece)
      ⟨fun bytes t ↦ t = s ∧ bytes = gather s.shows piece.cells, fun _ t ↦ t = s, True⟩ s := by
  simp only [readStagedPiece, wp_rules]
  refine ⟨fun _ ↦ trivial, fun _ ↦ ?_⟩
  rw [cells, gather_consecutive, Staging.shows]
  split
  · rename_i pending h
    simp only [wp_rules, wp_assert, and_self, implies_true]
  · rename_i h
    rw [wp_onStagedPage]
    refine wp_mono readQuiescent_spec ?_ ?_ fun h ↦ h.elim
    · rintro bytes q ⟨rfl, rfl, -⟩
      dsimp only
      rw [update_eq_self]
      exact ⟨rfl, rfl⟩
    · rintro _ q rfl
      dsimp only
      rw [update_eq_self]

theorem readStagedPieces_spec :
    wp (readStagedPieces pieces)
      ⟨fun bytes t ↦ t = s ∧ bytes = gather s.shows (pieces.flatMap cells),
        fun _ t ↦ t = s, True⟩ s := by
  induction pieces with
  | nil => exact ⟨rfl, rfl⟩
  | cons piece pieces ih =>
    simp only [readStagedPieces, wp_rules]
    refine wp_of_ok readStagedPiece_spec ?_
    rintro chunk t ⟨rfl, rfl⟩
    refine wp_of_ok ih ?_
    rintro rest u ⟨rfl, rfl⟩
    rw [flatMap_cons, gather_append]
    exact ⟨rfl, rfl⟩

/-- A staged read settles the pages of the range and returns what the batch then shows. -/
theorem readStaged_spec {offset count : Nat} :
    wp (readStaged hosts range offset count)
      ⟨fun bytes t ↦ StagingTouches hosts range.Has s t ∧ t.batch = s.batch ∧
          bytes = gather t.shows (range.window offset count),
        fun _ t ↦ StagingTouches hosts range.Has s t ∧ t.batch = s.batch, True⟩ s := by
  simp only [readStaged, wp_rules, wp_ite]
  refine ⟨fun stop hstop ↦ ⟨fun _ ↦ ⟨refl_of _ s, trivial⟩, fun _ ↦ ⟨fun hzero ↦ ?_, fun _ ↦ ?_⟩⟩,
    fun _ ↦ ⟨refl_of _ s, trivial⟩⟩
  · subst hzero
    refine ⟨refl_of _ s, trivial, ?_⟩
    rw [range.window_zero, gather, map_nil]
  · obtain ⟨-, rfl⟩ := checkedAdd_eq_some_iff.mp hstop
    refine wp_mono (prepareUnstagedCpuVisible_spec fun piece hpiece ↦
      CheckedRange.has_of_mem_pieces hpiece) ?_ (fun _ _ h ↦ h) fun h ↦ h.elim
    rintro _ t ⟨hst, hbatch⟩
    refine wp_of_wp readStagedPieces_spec ?_ ?_
    · rintro bytes u ⟨rfl, rfl⟩
      rw [range.flatMap_cells_pieces]
      exact ⟨fun _ ↦ ⟨hst, hbatch⟩, fun _ ↦ ⟨hst, hbatch, rfl⟩⟩
    · rintro _ u rfl
      exact ⟨hst, hbatch⟩

end

/-! ## Committing -/

section

variable {host : HostAnswers} {hosts : Nat → HostAnswers} {pages pages' : PageHeap}
  {p q : CanonicalBackingPage} {pending : PendingCanonicalPageWrite}

/-- The page with the bytes of a batch. -/
structure PublishedPending (pending : PendingCanonicalPageWrite) (p q : CanonicalBackingPage) :
    Prop where
  identity : q.identity = p.identity
  size : q.size = p.size
  contents : q.contents = overwrite p.contents 0 (slice pending.bytes 0 pending.size)
  generation : q.generation = pending.expectedGeneration + 1
  visibility : q.visibility = .cpuNewer
  disarmed : q.cpuDirtyObserverArmed = false
  dirtyEpoch_le : p.cpuDirtyEpoch ≤ q.cpuDirtyEpoch
  dirtyEpoch_lt : p.cpuDirtyObserverArmed = true → p.cpuDirtyEpoch < q.cpuDirtyEpoch

theorem publishPending_spec :
    wp (publishPending host pending)
      ⟨fun _ q ↦ PublishedPending pending p q, fun _ _ ↦ False, True⟩ p := by
  simp only [publishPending, copyBytes, wp_rules, wp_expectOk, wp_expect]
  refine wp_of_wp publishCpuDirty_counted ?_ (fun _ _ _ ↦ trivial)
  intro _ r hr
  refine ⟨fun c hc ↦ ?_, fun _ ↦ trivial⟩
  refine ⟨hr.identity, hr.size, ?_, rfl, hr.visibility, hr.disarmed, hr.dirtyEpoch_le,
    hr.dirtyEpoch_lt⟩
  have hcontents : r.contents = p.contents := hr.contents
  rw [← hcontents]
  change overwrite c 0 _ = _
  rw [contents, hc, Option.getD_some]

/-- A committed page evolves if its generation is the one of the snapshot and it is not lost. -/
theorem PublishedPending.evolves {lossy : Prop} (h : PublishedPending pending p q)
    (hcurrent : pending.Current p) : Evolves lossy p q where
  __ := h
  generation_le := by
    rw [h.generation, ← hcurrent.1]
    exact Nat.le_succ _
  lost hlost := absurd hcurrent.2.2.2 (not_visible_of_lost hlost)
  observed _ harmed := absurd (h.disarmed.symm.trans harmed) (by simp)
  unchanged harmed hdirty := absurd hdirty (h.dirtyEpoch_lt harmed).ne'

/-- A page that only had its host memory allocated in between is committed all the same. -/
theorem PublishedPending.of_materialized (h : PublishedPending pending p.materialized q) :
    PublishedPending pending p q :=
  ⟨h.identity, h.size, h.contents, h.generation, h.visibility, h.disarmed, h.dirtyEpoch_le,
    h.dirtyEpoch_lt⟩

/-- The pages as far as a commit has prepared them: the pages of `S` may have got host memory. -/
def Materializes (S : Nat → Prop) (pages pages' : PageHeap) : Prop :=
  ∀ page, pages' page = pages page ∨ S page ∧ pages' page = (pages page).materialized

variable {S : Nat → Prop}

theorem Materializes.refl (pages : PageHeap) : Materializes S pages pages := fun _ ↦ .inl rfl

theorem Materializes.trans {pages'' : PageHeap} (h : Materializes S pages pages')
    (h' : Materializes S pages' pages'') : Materializes S pages pages'' := by
  intro page
  rcases h' page with h' | ⟨hS, h'⟩
  · rw [h']
    exact h page
  · refine .inr ⟨hS, ?_⟩
    rcases h page with h | ⟨-, h⟩ <;> rw [h', h]
    rfl

theorem Materializes.update {page : Nat} (hS : S page) (hq : q = pages page ∨
    q = (pages page).materialized) : Materializes S pages (Function.update pages page q) := by
  intro page'
  by_cases hpage : page' = page
  · subst hpage
    rw [update_self]
    exact hq.imp_right fun h ↦ ⟨hS, h⟩
  · rw [update_of_ne hpage]
    exact .inl rfl

variable {entries : List (Nat × PendingCanonicalPageWrite)}

theorem forEach_ensureBacking_spec (hS : ∀ e ∈ entries, S e.1) :
    wp (forEach (fun e ↦ mapErr .page (onPage e.1 (ensureBacking (hosts e.1)))) entries :
        Method CanonicalWriteBatchError PageHeap Unit)
      (.leaves (Materializes S pages)) pages := by
  induction entries generalizing pages with
  | nil => exact .refl pages
  | cons e entries ih =>
    obtain ⟨he, hS⟩ := forall_mem_cons.mp hS
    simp only [forEach, wp_rules, wp_onPage]
    refine wp_of_wp ensureBacking_spec ?_ (fun _ q h ↦ .update he (.inl h.1))
    rintro _ q rfl
    have hfirst : Materializes S pages
        (Function.update pages e.1 (pages e.1).materialized) := .update he (.inr rfl)
    exact wp_of_wp (ih hS) (fun _ _ h ↦ hfirst.trans h) (fun _ _ h ↦ hfirst.trans h)

theorem validate_spec {page : Nat} :
    wp (validate page pending)
      ⟨fun _ pages' ↦ pages' = pages ∧ pending.Current (pages page),
        fun _ pages' ↦ pages' = pages, False⟩ pages := by
  simp only [validate, wp_rules]
  exact ⟨fun _ ↦ trivial, fun hcurrent ↦ ⟨fun _ ↦ trivial, fun _ ↦
    ⟨trivial, Classical.not_not.mp hcurrent⟩⟩⟩

/-- The last loop stores the bytes of every entry in its page, once. -/
theorem forEach_publishPending_spec (hdistinct : entries.Pairwise fun e e' ↦ e.1 ≠ e'.1) :
    wp (forEach (fun e ↦ mapErr .page (onPage e.1 (publishPending (hosts e.1) e.2))) entries :
        Method CanonicalWriteBatchError PageHeap Unit)
      ⟨fun _ pages' ↦ (∀ e ∈ entries, PublishedPending e.2 (pages e.1) (pages' e.1)) ∧
          ∀ page, (∀ e ∈ entries, e.1 ≠ page) → pages' page = pages page,
        fun _ _ ↦ False, True⟩ pages := by
  induction entries generalizing pages with
  | nil => exact ⟨nofun, fun _ _ ↦ rfl⟩
  | cons e entries ih =>
    obtain ⟨hne, hdistinct⟩ := pairwise_cons.mp hdistinct
    simp only [forEach, wp_rules, wp_onPage]
    refine wp_of_ok publishPending_spec ?_
    intro _ q hq
    refine wp_of_ok (ih hdistinct) ?_
    rintro _ pages' ⟨hpublished, hframe⟩
    have hfirst : pages' e.1 = q := by
      rw [hframe e.1 fun e' he' h ↦ hne e' he' h.symm, update_self]
    refine ⟨fun e' he' ↦ ?_, fun page hpage ↦ ?_⟩
    · rcases mem_cons.mp he' with rfl | he'
      · rwa [hfirst]
      · have := hpublished e' he'
        rwa [update_of_ne (hne e' he').symm] at this
    · obtain ⟨hpage', hpage⟩ := forall_mem_cons.mp hpage
      rw [hframe page hpage, update_of_ne (Ne.symm hpage')]

/-- How a commit ends. If it succeeds every page of the batch was as its snapshot says, and has the
bytes of the batch; otherwise at most host memory was allocated. -/
theorem commit_spec {reserves : Bool} {batch : CanonicalWriteBatch} :
    wp (commit hosts reserves batch)
      ⟨fun _ pages' ↦ ∀ page,
          (∀ pending, batch[page]? = some pending → pending.Current (pages page) ∧
            PublishedPending pending (pages page) (pages' page)) ∧
          (page ∉ batch → pages' page = pages page),
        fun _ pages' ↦ Materializes (· ∈ batch) pages pages', True⟩ pages := by
  have hmem : ∀ e ∈ batch.toList, e.1 ∈ batch := by
    intro e he
    exact mem_of_getElem?_eq_some (mem_toList_iff_getElem?_eq_some.mp he)
  simp only [commit, wp_rules]
  refine ⟨fun _ ↦ .refl pages, fun _ ↦ ?_⟩
  refine wp_of_wp (wp_forEach_of_checks (P := fun _ _ ↦ True) (fun _ _ ↦ ?_) _ _) ?_
    fun _ _ h ↦ h ▸ .refl _
  · simp only [checkCounters, wp_rules, and_self, implies_true]
  rintro _ _ ⟨rfl, -⟩
  refine wp_mono (forEach_ensureBacking_spec hmem) ?_ (fun _ _ h ↦ h) fun h ↦ h.elim
  intro _ pages₁ hpages₁
  refine wp_mono (wp_forEach_of_checks (fun _ _ ↦ validate_spec) _ _) ?_
    (fun _ _ h ↦ h ▸ hpages₁) fun h ↦ h.elim
  rintro _ _ ⟨rfl, hcurrent⟩
  refine wp_of_ok (forEach_publishPending_spec (distinct_keys_toList.imp ?_)) ?_
  · exact fun hne h ↦ hne (Std.compare_eq_iff_eq.mpr h)
  · rintro _ pages' ⟨hpublished, hframe⟩ page
    refine ⟨fun pending hpending ↦ ?_, fun hpage ↦ ?_⟩
    · have he := mem_toList_iff_getElem?_eq_some.mpr hpending
      have hcurrent := hcurrent _ he
      have hpage := hpublished _ he
      -- The counters of a page do not depend on its host memory.
      rcases hpages₁ page with h | ⟨-, h⟩
      · rw [h] at hcurrent hpage
        exact ⟨hcurrent, hpage⟩
      · rw [h] at hcurrent hpage
        exact ⟨hcurrent, hpage.of_materialized⟩
    · rw [hframe page fun e he h ↦ hpage (h ▸ hmem e he)]
      rcases hpages₁ page with h | ⟨h, -⟩
      · exact h
      · exact absurd h hpage

end

end Nixe.Memory
