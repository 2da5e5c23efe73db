import Nixe.Memory.AliasProtection
import Nixe.Memory.PageStore

/-!
# One authority over each page

A page has at any time one sequence of newest bytes, in the canonical memory or in that of a device,
and every read finds them. History variables remember for each page the bytes that the writes have
made, of the CPU and of devices alike, and what each device has; the devices are assumed to hand
over what they have, and the host to protect aliases as it is asked to.

The canonical bytes, or those that a write-back would make of them, are the remembered ones as long
as anybody is known to have the newest bytes (`Authority`). Loads and stores through an alias bypass
the page, so this also needs that the aliases are shown as they should be.
-/

namespace Nixe.Memory

open Std Method Machine CanonicalBackingPage Function List Option PageStore PageOperation

/-! ## What is remembered of a page -/

structure PageRecord where
  /-- The bytes that the writes have made. -/
  latest : Nat → UInt8
  /-- The bytes that each device has for the page. -/
  memory : Nat → Nat → UInt8

/-- The bytes that the CPU stores, if the operation succeeds. -/
def PageOperation.stores : PageOperation → PageReply → Option (Nat × List UInt8)
  | writeCpu offset bytes, _ | writePreflighted offset bytes _ _, _
  | writeFragmentPreflighted offset bytes _, _ | nativeStore _ offset bytes, _ =>
    some (offset, bytes)
  | atomicCompareExchange offset size _ replacement, .exchanged _ true =>
    some (offset, toLittleEndian size replacement)
  | _, _ => none

/-- What a load returns is what is in `bytes`. -/
def PageOperation.Returns (bytes : Nat → UInt8) : PageOperation → PageReply → Prop
  | read offset count, .bytes reply | nativeLoad _ offset count, .bytes reply =>
    reply = slice bytes offset count
  | atomicLoad offset size, .value value => value = fromLittleEndian (slice bytes offset size)
  | atomicCompareExchange offset size _ _, .exchanged observed _ =>
    observed = fromLittleEndian (slice bytes offset size)
  | _, _ => True

namespace PageRecord

/-- The CPU stores bytes. -/
def store (record : PageRecord) (offset : Nat) (bytes : List UInt8) : PageRecord :=
  { record with latest := overwrite record.latest offset bytes }

/-- A device that has `memory` for a page of `size` bytes publishes that. -/
def publish (record : PageRecord) (device size : Nat) (memory : Nat → UInt8) : PageRecord where
  latest := overwrite record.latest 0 (slice memory 0 size)
  memory := Function.update record.memory device memory

/-- What is remembered of a page of `size` bytes after a successful operation. -/
def after (record : PageRecord) (size : Nat) (op : PageOperation) (reply : PageReply) :
    PageRecord :=
  match op.stores reply, op with
  | some (offset, bytes), _ => record.store offset bytes
  | none, .publishDeviceWrite declaration memory => record.publish declaration.device size memory
  | none, _ => record

end PageRecord

/-- How a step changes what is remembered of a page. -/
def noteWritten (g : Nat → PageRecord) (s : PageStore) (input : StoreInput) (reply : StoreReply)
    (_ : PageStore) : Nat → PageRecord :=
  match input, reply with
  | .page page _ op, .page (.ok reply) =>
    Function.update g page ((g page).after (s.pages page).size op reply)
  | .commit batch _ _, .commit (.ok ()) => fun page ↦
    match (s.batches batch)[page]? with
    | some pending => (g page).store 0 (slice pending.bytes 0 pending.size)
    | none => g page
  | _, _ => g

/-- The store, with what is remembered of the pages. -/
def authorityMachine : Machine (PageStore × (Nat → PageRecord)) StoreInput StoreReply :=
  storeMachine.observed noteWritten

/-- New pages have the bytes they were made of, and no device has any. -/
def newRecords (pages : PageHeap) : Nat → PageRecord :=
  fun page ↦ ⟨(pages page).contents, fun _ _ ↦ 0⟩

/-! ## Assumptions and conditions -/

/-- The host protects aliases as it is asked to, and hands over what the devices have. -/
def HostAnswers.Honest (record : PageRecord) (p : CanonicalBackingPage) (host : HostAnswers) :
    Prop :=
  (∀ key, host.protects key = true) ∧ ∀ device visibleAt,
    host.makeCpuVisible ⟨p.identity, p.size, device, visibleAt⟩ =
      .ok (slice (record.memory device) 0 p.size)

/-- The answers for the page that the step goes by. -/
def StoreInput.Asks (page : Nat) (host : HostAnswers) : StoreInput → Prop
  | .page page' host' _ => page' = page ∧ host' = host
  | .stage _ hosts _ _ _ | .readStaged _ hosts _ _ _ | .commit _ hosts _ | .captureRanges _ hosts _
  | .rearm _ hosts | .snapshotBytes _ hosts _ _ _ _ => hosts page = host
  | .remainsCurrent _ => False

/-- All answers are honest. -/
def StoreInput.Honest (s : PageStore × (Nat → PageRecord)) (input : StoreInput) : Prop :=
  ∀ page host, input.Asks page host → host.Honest (s.2 page) (s.1.pages page)

/-- The step takes the authority over a stranded page. -/
def StoreInput.Strands (s : PageStore) : StoreInput → Prop
  | .page page' host op => op.Strands host (s.pages page')
  | _ => False

/-! ## Authority -/

section

variable {host : HostAnswers} {lossy : Prop} {p q : CanonicalBackingPage} {record : PageRecord}

/-- The newest bytes of the page, where the devices have `memory`. -/
def CanonicalBackingPage.newestIn (memory : Nat → Nat → UInt8) (p : CanonicalBackingPage) :
    Option (Nat → UInt8) :=
  match p.visibility with
  | .clean | .cpuNewer => some p.contents
  | .gpuNewer device _ => some (overwrite p.contents 0 (slice (memory device) 0 p.size))
  | .conflicting | .invalid => none

/-- Wherever the newest bytes of the page are, they are what the writes have made. -/
def Authority (record : PageRecord) (p : CanonicalBackingPage) : Prop :=
  ∀ c, p.newestIn record.memory = some c → c = record.latest

theorem newest_eq_newestIn (h : host.Honest record p) (hidentity : q.identity = p.identity)
    (hsize : q.size = p.size) : q.newest host = q.newestIn record.memory := by
  rw [newest, newestIn]
  cases q.visibility with
  | gpuNewer device visibleAt =>
    dsimp only
    rw [hidentity, hsize, h.2 device visibleAt]
  | _ => rfl

theorem newestIn_of_visible (h : p.visibility.CpuVisible) :
    p.newestIn record.memory = some p.contents := by
  rw [newestIn]
  cases hv : p.visibility <;> simp_all [PageVisibility.CpuVisible]

theorem Authority.contents_eq (h : Authority record p) (hv : p.visibility.CpuVisible) :
    p.contents = record.latest :=
  h _ (newestIn_of_visible hv)

theorem Authority.of_visible (hv : p.visibility.CpuVisible) (h : p.contents = record.latest) :
    Authority record p := by
  intro c hc
  rw [newestIn_of_visible hv] at hc
  exact (Option.some.inj hc).symm.trans h

/-- An operation that does not write. -/
theorem Authority.yields (h : Authority record p) (hhonest : host.Honest record p)
    (hpq : Yields host lossy p q) : Authority record q := by
  intro c hc
  rw [← newest_eq_newestIn hhonest hpq.identity hpq.size] at hc
  refine h c ?_
  rw [← newest_eq_newestIn hhonest rfl rfl]
  exact hpq.newest c hc

/-- A CPU write: the bytes are stored over the newest ones. -/
theorem Authority.wrote {offset : Nat} {bytes : List UInt8} (h : Authority record p)
    (hhonest : host.Honest record p) (hpq : Wrote host lossy offset bytes p q) :
    Authority (record.store offset bytes) q ∧ q.visibility = .cpuNewer ∧
      q.contents = overwrite record.latest offset bytes := by
  obtain ⟨c, hp, hq, hv⟩ := hpq.newest_eq
  rw [newest_eq_newestIn hhonest rfl rfl] at hp
  have hvisible : q.visibility.CpuVisible := hv ▸ trivial
  rw [newest_of_visible hvisible] at hq
  have hcontents : q.contents = overwrite record.latest offset bytes := by
    rw [← h c hp]
    exact Option.some.inj hq
  exact ⟨.of_visible hvisible hcontents, hv, hcontents⟩

/-- A device write: the bytes of the device are the newest, over whatever was. -/
theorem Authority.published {declaration : DeviceAccessDeclaration} {memory : Nat → UInt8}
    (h : Authority record p) (hpq : Published declaration p q) :
    Authority (record.publish declaration.device p.size memory) q := by
  obtain ⟨visibleAt, hq⟩ := hpq.gpuNewer
  intro c hc
  rw [newestIn, hq] at hc
  simp only [PageRecord.publish, update_self, Option.some.injEq] at hc
  rw [← hc, PageRecord.publish, hpq.same.contents, hpq.same.size]
  rcases hpq.notCpuNewer with hp | ⟨visibleAt', hp⟩
  · rw [h.contents_eq (hp ▸ trivial)]
  · have hlatest := h (overwrite p.contents 0 (slice (record.memory declaration.device) 0 p.size))
      (by rw [newestIn, hp])
    rw [← hlatest, overwrite_overwrite_of_length_le (by simp)]

/-! ### Operations on one page -/

/-- What a successful operation has done: a load has returned the newest bytes, and a store was made
over them. Only an operation that writes back first succeeds while a device has the newest bytes. -/
structure Faithful (record : PageRecord) (p : CanonicalBackingPage) (op : PageOperation)
    (reply : PageReply) (q : CanonicalBackingPage) : Prop where
  returns : op.Returns record.latest reply
  stores : ∀ offset bytes, op.stores reply = some (offset, bytes) →
    (p.visibility.CpuVisible ∨ op.WritesBack) ∧ q.visibility = .cpuNewer ∧
      q.contents = overwrite record.latest offset bytes

/-- An operation that neither loads nor stores. -/
theorem Faithful.of_none {op : PageOperation} {reply : PageReply}
    (hreturns : op.Returns record.latest reply) (hstores : op.stores reply = none) :
    Faithful record p op reply q :=
  ⟨hreturns, fun _ _ h ↦ nomatch hstores.symm.trans h⟩

theorem PageOperation.authority (op : PageOperation) (hhonest : host.Honest record p)
    (h : Authority record p) (hshown : p.Shown) :
    wp (op.run host)
      ⟨fun reply q ↦ Authority (record.after p.size op reply) q ∧ Faithful record p op reply q,
        fun _ q ↦ Authority record q, False⟩ p := by
  -- What is left to prove of an operation that only yields.
  have hyields : ∀ lossy q, Yields host lossy p q → Authority record q :=
    fun lossy q ↦ h.yields hhonest
  have hnewest : ∀ lossy q c, Yields host lossy p q → q.newest host = some c →
    c = record.latest := by
    intro lossy q c hpq hc
    rw [newest_eq_newestIn hhonest hpq.identity hpq.size] at hc
    exact hyields lossy q hpq c hc
  cases op with
  | read offset count =>
    simp only [run, wp_rules]
    refine wp_of_wp readBytes_spec ?_ (fun _ q hq ↦ hyields _ q hq)
    rintro reply q ⟨hq, c, hc, rfl⟩
    exact ⟨hyields _ q hq, .of_none (by rw [hnewest _ q c hq hc]; rfl) rfl⟩
  | atomicLoad offset size =>
    simp only [run, wp_rules]
    refine wp_of_wp atomicLoad_spec ?_ (fun _ q hq ↦ hyields _ q hq)
    rintro reply q ⟨hq, c, hc, rfl⟩
    exact ⟨hyields _ q hq, .of_none (by rw [hnewest _ q c hq hc]; rfl) rfl⟩
  | writeCpu offset bytes =>
    rw [run, wp_of]
    refine wp_of_wp writeCpu_spec (fun _ q hq ↦ ?_) (fun _ q hq ↦ hyields _ q hq)
    obtain ⟨hauthority, hv, hcontents⟩ := h.wrote hhonest hq
    refine ⟨hauthority, trivial, ?_⟩
    rintro _ _ ⟨⟩
    exact ⟨.inr trivial, hv, hcontents⟩
  | writePreflighted offset bytes expected next =>
    rw [run, wp_of]
    refine wp_of_wp writePreflighted_spec (fun _ q hq ↦ ?_) (fun _ q hq ↦ hyields False q hq)
    obtain ⟨hauthority, hv, hcontents⟩ := h.wrote hhonest hq.1
    refine ⟨hauthority, trivial, ?_⟩
    rintro _ _ ⟨⟩
    exact ⟨.inl hq.2, hv, hcontents⟩
  | writeFragmentPreflighted offset bytes generation =>
    rw [run, wp_of]
    refine wp_of_wp writeFragmentPreflighted_spec (fun _ q hq ↦ ?_)
      (fun _ q hq ↦ hyields False q hq)
    obtain ⟨hauthority, hv, hcontents⟩ := h.wrote hhonest hq.1
    refine ⟨hauthority, trivial, ?_⟩
    rintro _ _ ⟨⟩
    exact ⟨.inl hq.2, hv, hcontents⟩
  | atomicCompareExchange offset size expected replacement =>
    simp only [run, wp_rules]
    refine wp_of_wp atomicCompareExchange_spec ?_ (fun _ q hq ↦ hyields _ q hq)
    rintro ⟨observed, replaced⟩ q ⟨hq, c, hc, hobserved⟩
    have hreturns : observed = fromLittleEndian (slice record.latest offset size) := by
      rw [← hnewest False p c (.refl p) hc]
      exact hobserved
    obtain ⟨hauthority, hv, hcontents⟩ := h.wrote hhonest hq
    cases replaced with
    | true =>
      refine ⟨hauthority, hreturns, ?_⟩
      rintro _ _ ⟨⟩
      exact ⟨.inr trivial, hv, hcontents⟩
    | false =>
      refine ⟨?_, hreturns, by rintro _ _ ⟨⟩⟩
      rw [if_neg (by simp), PageRecord.store, overwrite_nil] at hauthority
      exact hauthority
  | publishDeviceWrite declaration memory =>
    rw [run, wp_of, wp_mapErr]
    exact wp_of_wp publishDeviceWrite_spec (fun _ q hq ↦ ⟨h.published hq,
      .of_none trivial rfl⟩) (fun _ q hq ↦ hyields False q hq)
  | nativeLoad key offset count =>
    simp only [run, Memory.nativeLoad, checkedEnd, wp_rules]
    refine ⟨fun _ ↦ h, fun _ ↦ ⟨fun _ ↦ h, fun haccess ↦ ⟨h, .of_none ?_ rfl⟩⟩⟩
    rw [h.contents_eq ((hshown key).2 haccess)]
    rfl
  | nativeStore key offset bytes =>
    simp only [run, wp_of, Memory.nativeStore, checkedEnd, wp_rules]
    refine ⟨fun _ ↦ h, fun _ ↦ ⟨fun _ ↦ h, fun haccess ↦ ?_⟩⟩
    obtain ⟨hv, -⟩ := (hshown key).1 (Classical.not_not.mp haccess)
    have hvisible : p.visibility.CpuVisible := hv ▸ trivial
    have hcontents : (p.stored offset bytes).contents = overwrite record.latest offset bytes := by
      rw [contents_stored, h.contents_eq hvisible]
    refine ⟨.of_visible hvisible hcontents, trivial, ?_⟩
    rintro _ _ ⟨⟩
    exact ⟨.inl hvisible, hv, hcontents⟩
  | _ =>
    exact wp_of_wp (yields _ id) (fun _ q hq ↦ ⟨hyields _ q hq, .of_none trivial rfl⟩)
      (fun _ q hq ↦ hyields _ q hq)

end

/-! ## The invariant -/

/-- Every page is under one authority, and its aliases are shown as they should be. -/
structure AuthorityInvariant (s : PageStore × (Nat → PageRecord)) : Prop where
  authority : ∀ page, Authority (s.2 page) (s.1.pages page)
  shown : s.1.pages.Shown

section

variable {pages pages' : PageHeap} {s t : PageStore} {g : Nat → PageRecord} {input : StoreInput}
  {reply : StoreReply} {hosts : Nat → HostAnswers} {S : Nat → Prop}

theorem authorityInvariant_initial (hnew : ∀ page, (pages page).New) :
    AuthorityInvariant (.initial pages, newRecords pages) where
  authority page := .of_visible (hnew page).visible rfl
  shown page := by
    refine CanonicalBackingPage.Hidden.shown fun key ↦ ?_
    have hempty : (pages page).directAliases = ∅ := (hnew page).directAliases
    change (pages page).directProtection key = .none
    rw [directProtection, hempty, ExtTreeMap.getElem?_empty]

section

variable (hI : AuthorityInvariant (s, g))

include hI

theorem AuthorityInvariant.page {page : Nat} {host : HostAnswers} {op : PageOperation}
    (hhonest : host.Honest (g page) (s.pages page))
    (h : storeMachine s (.page page host op) = some (reply, t)) (page' : Nat) :
    Authority (noteWritten g s (.page page host op) reply t page') (t.pages page') := by
  obtain ⟨⟨r, pages⟩, hr, ⟨⟩⟩ := map_eq_some_iff.mp h
  obtain ⟨q, hq, rfl⟩ := answer_focus hr
  have hspec := of_answer (op.authority hhonest (hI.authority page) (hI.shown page)) hq
  by_cases hne : page' = page
  · subst hne
    cases r with
    | ok a =>
      simp only [noteWritten, update_self]
      exact (hspec.1 a rfl).1
    | error e =>
      simp only [noteWritten, update_self]
      exact hspec.2 e rfl
  · cases r with
    | ok | error =>
      simp only [noteWritten, update_of_ne hne]
      exact hI.authority page'

theorem AuthorityInvariant.commit {batch : Nat} {reserves : Bool}
    (hhonest : ∀ page, (hosts page).Honest (g page) (s.pages page))
    (h : storeMachine s (.commit batch hosts reserves) = some (reply, t)) (page : Nat) :
    Authority (noteWritten g s (.commit batch hosts reserves) reply t page) (t.pages page) := by
  obtain ⟨⟨r, pages⟩, hr, ⟨⟩⟩ := map_eq_some_iff.mp h
  have hspec := of_answer commit_spec hr
  cases r with
  | error e =>
    refine (hI.authority page).yields (hhonest page) (show Yields _ False _ _ from ?_)
    rcases hspec.2 e rfl page with hpage | ⟨-, hpage⟩
    · simp only [withStaging, hpage]
      exact .refl _
    · simp only [withStaging, hpage]
      exact sameBytes_materialized.yields (.inl rfl)
  | ok a =>
    obtain ⟨hpublished, hother⟩ := hspec.1 a rfl page
    simp only [noteWritten, withStaging]
    cases hpending : (s.batches batch)[page]? with
    | some pending =>
      obtain ⟨hcurrent, hpage⟩ := hpublished pending hpending
      refine .of_visible (hpage.visibility ▸ trivial) ?_
      rw [hpage.contents, (hI.authority page).contents_eq hcurrent.2.2.2]
      rfl
    | none =>
      rw [hother (by rw [ExtTreeMap.mem_iff_isSome_getElem?, hpending]; exact nofun)]
      exact hI.authority page

end

theorem PageStore.step_shown (hprotects : ∀ page host, input.Asks page host →
      ∀ key, host.protects key = true) (hs : s.pages.Shown) (hstrands : ¬input.Strands s)
    (h : storeMachine s input = some (reply, t)) : t.pages.Shown := by
  cases input with
  | page page host op =>
    obtain ⟨⟨r, pages⟩, hr, ⟨⟩⟩ := map_eq_some_iff.mp h
    obtain ⟨q, hq, rfl⟩ := answer_focus hr
    have hshown := of_answer_any (op.shown (hprotects page host ⟨rfl, rfl⟩) (hs page) hstrands) hq
    intro page'
    by_cases hne : page' = page
    · subst hne
      simp only [update_self]
      exact hshown
    · simp only [update_of_ne hne]
      exact hs page'
  | stage =>
    obtain ⟨⟨r, u⟩, hr, ⟨⟩⟩ := map_eq_some_iff.mp h
    exact of_answer_any (R := fun u ↦ u.pages.Shown)
      ((stage_shows (fun page ↦ hprotects page _ rfl) _ _ _).wp hs) hr
  | readStaged =>
    obtain ⟨⟨r, u⟩, hr, ⟨⟩⟩ := map_eq_some_iff.mp h
    exact of_answer_any (R := fun u ↦ u.pages.Shown)
      ((readStaged_shows (fun page ↦ hprotects page _ rfl) _ _ _).wp hs) hr
  | commit =>
    obtain ⟨⟨r, pages⟩, hr, ⟨⟩⟩ := map_eq_some_iff.mp h
    exact of_answer_any ((commit_shows (fun page ↦ hprotects page _ rfl) _ _).wp hs) hr
  | captureRanges =>
    obtain ⟨⟨r, pages⟩, hr, heq⟩ := map_eq_some_iff.mp h
    have hpages := of_answer_any
      ((captureRanges_shows (fun page ↦ hprotects page _ rfl) _).wp hs) hr
    cases r with
    | ok | error =>
      cases heq
      exact hpages
  | remainsCurrent => rwa [pages_remainsCurrent h]
  | rearm =>
    exact of_callDependency hs (fun _ _ ↦ (rearm_shows fun page ↦ hprotects page _ rfl).wp hs) h
  | snapshotBytes =>
    exact of_callDependency hs (fun _ _ ↦
      (snapshotBytes_shows (fun page ↦ hprotects page _ rfl) _ _ _ _).wp hs) h

theorem AuthorityInvariant.step (hI : AuthorityInvariant (s, g)) (hhonest : input.Honest (s, g))
    (hstrands : ¬input.Strands s) (h : storeMachine s input = some (reply, t)) :
    AuthorityInvariant (t, noteWritten g s input reply t) := by
  have hshown := step_shown (fun page host h ↦ (hhonest page host h).1) hI.shown hstrands h
  cases input with
  | page page host op => exact ⟨hI.page (hhonest page host ⟨rfl, rfl⟩) h, hshown⟩
  | commit batch hosts reserves =>
    exact ⟨hI.commit (fun page ↦ hhonest page (hosts page) rfl) h, hshown⟩
  | remainsCurrent =>
    refine ⟨fun page ↦ ?_, hshown⟩
    rw [pages_remainsCurrent h]
    exact hI.authority page
  | stage _ hosts | readStaged _ hosts | captureRanges _ hosts | rearm _ hosts
  | snapshotBytes _ hosts =>
    exact ⟨fun page ↦ (hI.authority page).yields (hhonest page (hosts page) rfl)
      (step_yields h rfl page), hshown⟩

end

/-! ## The main result -/

section

variable {pages : PageHeap} {s : PageStore} {g : Nat → PageRecord}
  {es : List (StoreInput × StoreReply)}

/-- **One authority over each page.** Take any run in which the answers are honest and no step
takes the authority over a stranded page. Then every alias is shown as it should be, every load
that succeeds returns the bytes of the most recent writes, and every store that succeeds, also that
of a commit, is made over them, in a page of which no device has newer bytes or to which they have
been written back. -/
theorem single_authority (hnew : ∀ page, (pages page).New)
    (hrun : Run authorityMachine (.initial pages, newRecords pages) es (s, g))
    (halong : Along authorityMachine (fun s input ↦ input.Honest s ∧ ¬input.Strands s.1)
      (.initial pages, newRecords pages) (es.map Prod.fst)) :
    (∀ page, (s.pages page).Shown) ∧
    (∀ page host op reply t, host.Honest (g page) (s.pages page) →
      storeMachine s (.page page host op) = some (.page (.ok reply), t) →
        Faithful (g page) (s.pages page) op reply (t.pages page)) ∧
    ∀ batch hosts reserves t,
      storeMachine s (.commit batch hosts reserves) = some (.commit (.ok ()), t) →
        ∀ page pending, (s.batches batch)[page]? = some pending →
          (s.pages page).visibility.CpuVisible ∧ (t.pages page).contents =
            overwrite (g page).latest 0 (slice pending.bytes 0 pending.size) := by
  have hI : AuthorityInvariant (s, g) := by
    refine hrun.invariant_along (fun s input reply t hI hG h ↦ ?_)
      (authorityInvariant_initial hnew) halong
    obtain ⟨hstep, hnote⟩ := observed_eq_some_iff.mp h
    have hnext := AuthorityInvariant.step hI hG.1 hG.2 hstep
    rwa [← hnote] at hnext
  refine ⟨hI.shown, fun page host op reply t hhonest h ↦ ?_, fun batch hosts reserves t h ↦ ?_⟩
  · obtain ⟨⟨r, pages⟩, hr, ⟨⟩⟩ := map_eq_some_iff.mp h
    obtain ⟨q, hq, rfl⟩ := answer_focus hr
    simp only [update_self]
    exact ((of_answer (op.authority hhonest (hI.authority page) (hI.shown page)) hq).1 reply rfl).2
  · obtain ⟨⟨r, pages⟩, hr, ⟨⟩⟩ := map_eq_some_iff.mp h
    intro page pending hpending
    obtain ⟨hcurrent, hpublished⟩ := ((of_answer commit_spec hr).1 () rfl page).1 pending hpending
    refine ⟨hcurrent.2.2.2, ?_⟩
    rw [← (hI.authority page).contents_eq hcurrent.2.2.2]
    exact hpublished.contents

/-- The CPU reads what a device has published. -/
def publishedPage : StoreInput :=
  .page 0 .obliging (.publishDeviceWrite ⟨1, .write, 0, some 0, rfl, by simp⟩ fun _ ↦ 9)

/-- A host whose devices have `memory` for a page. -/
def HostAnswers.handing (memory : Nat → Nat → UInt8) : HostAnswers :=
  { HostAnswers.obliging with
    makeCpuVisible := fun request ↦ .ok (slice (memory request.device) 0 request.size) }

theorem single_authority_publishedPage :
    ∃ es s g t, Run authorityMachine (.initial smallPages, newRecords smallPages) es (s, g) ∧
      Along authorityMachine (fun s input ↦ input.Honest s ∧ ¬input.Strands s.1)
        (.initial smallPages, newRecords smallPages) (es.map Prod.fst) ∧
      storeMachine s (.page 0 (.handing (g 0).memory) (.read 0 4)) =
        some (.page (.ok (.bytes [9, 9, 9, 9])), t) ∧
      Faithful (g 0) (s.pages 0) (.read 0 4) (.bytes [9, 9, 9, 9]) (t.pages 0) := by
  have hexec : ∃ r ∈ exec authorityMachine (.initial smallPages, newRecords smallPages)
      [publishedPage], ∃ q ∈ storeMachine r.2.1 (.page 0 (.handing (r.2.2 0).memory) (.read 0 4)),
        q.1 = .page (.ok (.bytes [9, 9, 9, 9])) := by decide +kernel
  obtain ⟨es, ⟨s, g⟩, hrun, hinputs, ⟨reply, t⟩, ht, rfl⟩ := exists_run_of_exec hexec
  have halong : Along authorityMachine (fun s input ↦ input.Honest s ∧ ¬input.Strands s.1)
      (.initial smallPages, newRecords smallPages) (es.map Prod.fst) := by
    rw [hinputs]
    refine ⟨⟨?_, id⟩, by split <;> trivial⟩
    rintro page host ⟨rfl, rfl⟩
    exact ⟨fun _ ↦ rfl, fun _ _ ↦ rfl⟩
  refine ⟨es, s, g, t, hrun, halong, ht, ?_⟩
  exact (single_authority smallPages_new hrun halong).2.1 0 (.handing (g 0).memory) _ _ _
    ⟨fun _ ↦ rfl, fun _ _ ↦ rfl⟩ ht

end

/-! ## A stranded page

A device looks at a page again and again, until its visibility epoch is the last one; then the CPU
takes the authority. -/

section

def probe : AliasKey := ⟨0, 4096⟩

def readByDevice : DeviceAccessDeclaration := ⟨1, .read, 0, none, rfl, nofun⟩

/-- A clean page in the visibility epoch `epoch`, with one alias. -/
def probedPage (protection : DirectProtection) (epoch : Nat) : CanonicalBackingPage :=
  { zeroed 0 4 0 with
    backing := some fun _ ↦ 0
    visibilityEpoch := epoch
    directAliases :=
      (∅ : ExtTreeMap AliasKey CanonicalDirectAlias).insert probe ⟨.readWrite, protection⟩ }

/-- The store of which the first page is `p`. -/
def probedStore (p : CanonicalBackingPage) : PageStore :=
  .initial (Function.update smallPages 0 p)

/-- A device access takes two epochs. -/
theorem prepareDeviceAccess_probedPage {epoch : Nat} (h : epoch + 2 < wordBound) :
    (PageOperation.prepareDeviceAccess readByDevice).run .obliging (probedPage .read epoch) =
      .ok .done (probedPage .read (epoch + 2)) := by
  have hprotects : ∀ q : CanonicalBackingPage, ¬q.Refused .obliging :=
    fun _ ↦ not_refused_of_protects fun _ ↦ rfl
  refine eq_ok_of_wp ?_
  simp only [run, wp_of, wp_mapErr]
  change wp (showDevice .obliging readByDevice) _ _
  simp only [showDevice, wp_rules]
  refine wp_of_wp revokeDirectAccess_spec ?_ ?_
  · rintro _ q ⟨-, -, rfl⟩
    refine ⟨by rintro ⟨⟩, fun _ ↦ ?_⟩
    refine wp_of_wp (publishVisibility_spec .clean) ?_ ?_
    · rintro _ q ⟨-, -, rfl⟩
      exact ⟨trivial, rfl⟩
    · rintro _ q (⟨hlast, -⟩ | ⟨hrefused, -⟩)
      · exact absurd hlast (Nat.not_le.mpr h)
      · exact absurd hrefused (hprotects _)
  · rintro _ q ⟨hrefused | hlast, -⟩
    · exact absurd hrefused (hprotects _)
    · exact absurd hlast (Nat.not_le.mpr (Nat.lt_of_succ_lt h))

variable {p q : CanonicalBackingPage} {op : PageOperation}

/-- A step on the first page that writes nothing. -/
theorem authorityMachine_probedStore {reply : Except CanonicalPageError PageReply}
    (h : (op.run .obliging p).answer = some (reply, q))
    (hrecord : ∀ size reply, (newRecords smallPages 0).after size op reply =
      newRecords smallPages 0) :
    authorityMachine (probedStore p, newRecords smallPages) (.page 0 .obliging op) =
      some (.page reply, probedStore q, newRecords smallPages) := by
  have hnote : noteWritten (newRecords smallPages) (probedStore p) (.page 0 .obliging op)
      (.page reply) (probedStore q) = newRecords smallPages := by
    cases reply with
    | error e => rfl
    | ok reply => rw [noteWritten, hrecord, update_eq_self]
  refine observed_eq_some_iff.mpr ⟨?_, hnote.symm⟩
  have hfirst : (probedStore p).pages 0 = p := by simp [probedStore, initial]
  have hfocus : (onPage 0 (op.run .obliging) (probedStore p).pages).answer =
      some (reply, Function.update (probedStore p).pages 0 q) := by
    rw [onPage, focus, hfirst]
    cases hp : op.run .obliging p with
    | panic msg => rw [hp] at h; cases h
    | ok a r | err e r =>
      rw [hp] at h
      cases h
      rfl
  rw [storeMachine, hfocus, probedStore, initial, update_idem]
  rfl

/-- Any number of device accesses, while there are epochs for them. -/
theorem run_prepareDeviceAccess {epoch : Nat} (count : Nat) (h : epoch + 2 * count < wordBound) :
    Run authorityMachine (probedStore (probedPage .read epoch), newRecords smallPages)
      (List.replicate count
        (.page 0 .obliging (.prepareDeviceAccess readByDevice), .page (.ok .done)))
      (probedStore (probedPage .read (epoch + 2 * count)), newRecords smallPages) := by
  induction count generalizing epoch with
  | zero => exact .nil _
  | succ count ih =>
    have hnext := prepareDeviceAccess_probedPage (show epoch + 2 < wordBound by omega)
    rw [replicate_succ, show epoch + 2 * (count + 1) = epoch + 2 + 2 * count by omega]
    exact .cons (authorityMachine_probedStore (by rw [hnext]; rfl) fun _ _ ↦ rfl) (ih (by omega))

/-- The steps up to the first device access, which leave the page in an odd epoch. -/
theorem exists_run_probedPage :
    ∃ es, Run authorityMachine (.initial smallPages, newRecords smallPages) es
        (probedStore (probedPage .read 3), newRecords smallPages) ∧
      es.map Prod.fst = [.page 0 .obliging (.registerDirectAlias probe .readWrite),
        .page 0 .obliging .resolveDirectWriteFault,
        .page 0 .obliging (.prepareDeviceAccess readByDevice)] := by
  have hinitial : initial smallPages = probedStore (smallPages 0) := by
    rw [probedStore, update_eq_self]
  rw [hinitial]
  obtain ⟨p, hp, q, hq, hlast⟩ : ∃ p,
      (PageOperation.registerDirectAlias probe .readWrite).run .obliging (smallPages 0) =
        .ok .done p ∧ ∃ q, PageOperation.resolveDirectWriteFault.run .obliging p = .ok .done q ∧
      (PageOperation.prepareDeviceAccess readByDevice).run .obliging q =
        .ok .done (probedPage .read 3) := ⟨_, rfl, _, rfl, rfl⟩
  exact ⟨_, .cons (authorityMachine_probedStore (by rw [hp]; rfl) fun _ _ ↦ rfl)
    (.cons (authorityMachine_probedStore (by rw [hq]; rfl) fun _ _ ↦ rfl)
      (.cons (authorityMachine_probedStore (by rw [hlast]; rfl) fun _ _ ↦ rfl) (.nil _))), rfl⟩

/-- The operation leaves what is remembered of its page as it is. -/
def PageOperation.Quiet (op : PageOperation) : Prop :=
  ∀ record size reply, PageRecord.after record size op reply = record

/-- The obliging host is honest as long as no device has written. -/
theorem honest_of_quiet {inputs : List StoreInput}
    (h : ∀ input ∈ inputs, ∃ op, op.Quiet ∧ input = .page 0 .obliging op) :
    Along authorityMachine (fun s input ↦ input.Honest s)
      (.initial smallPages, newRecords smallPages) inputs := by
  refine along_of_forall (I := fun s ↦ ∀ page, (s.2 page).memory = fun _ _ ↦ 0)
    (fun input hinput s hI ↦ ?_) (fun input hinput s reply t hI hs ↦ ?_) fun _ ↦ rfl
  · obtain ⟨op, -, rfl⟩ := h input hinput
    rintro page host ⟨rfl, rfl⟩
    refine ⟨fun _ ↦ rfl, fun device visibleAt ↦ ?_⟩
    rw [hI 0]
    simp [HostAnswers.obliging, slice]
  · obtain ⟨op, hquiet, rfl⟩ := h input hinput
    obtain ⟨hstep, hnote⟩ := observed_eq_some_iff.mp hs
    have hsame : t.2 = s.2 := by
      obtain ⟨⟨r, pages⟩, -, heq⟩ := map_eq_some_iff.mp hstep
      obtain ⟨rfl, -⟩ := Prod.mk.inj heq
      rw [hnote]
      cases r with
      | error e => rfl
      | ok r => rw [noteWritten, hquiet, update_eq_self]
    rw [hsame]
    exact hI

/-- No alias may be accessible when its page is invalid, but one is. -/
theorem exists_stranded_alias :
    ∃ es s g, Run authorityMachine (.initial smallPages, newRecords smallPages) es (s, g) ∧
      Along authorityMachine (fun s input ↦ input.Honest s)
        (.initial smallPages, newRecords smallPages) (es.map Prod.fst) ∧
      (s.pages 0).visibility = .invalid ∧ (s.pages 0).directProtection probe = .read := by
  obtain ⟨es, hrun, hinputs⟩ := exists_run_probedPage
  have hlast : (resolveDirectWriteFault.run .obliging
      (probedPage .read (3 + 2 * (2 ^ 63 - 2)))).answer =
        some (.error (.visibility .visibilityEpochExhausted),
          (probedPage .read (3 + 2 * (2 ^ 63 - 2))).invalidated) := rfl
  have hall := Run.append_iff.mpr ⟨_, Run.append_iff.mpr ⟨_, hrun,
    run_prepareDeviceAccess (2 ^ 63 - 2) (by decide)⟩,
      .cons (authorityMachine_probedStore hlast fun _ _ ↦ rfl) (.nil _)⟩
  refine ⟨_, _, _, hall, honest_of_quiet fun input hinput ↦ ?_, rfl, rfl⟩
  rw [map_append, map_append, hinputs, map_replicate] at hinput
  simp only [mem_append, mem_cons, mem_replicate, map_cons, map_nil,
    not_mem_nil, or_false] at hinput
  rcases hinput with ((rfl | rfl | rfl) | ⟨-, rfl⟩) | rfl
  all_goals exact ⟨_, fun _ _ _ ↦ rfl, rfl⟩

end

end Nixe.Memory
