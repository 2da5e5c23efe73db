import Nixe.Horizon.LockStep

/-!
# Mutual exclusion

A mutex excludes if it is only ever taken when it is free. The threads of a process take it by an
exchange in user mode, from zero to their tag, and by the two supervisor calls that store a tag.
The exchange and a call that is not signalled look at the word first. A call that finds itself
signalled does not: between the release that signalled it and its next attempt another thread may
have taken the mutex, and its tag is overwritten.

The memory of this file remembers every store. Addresses lead to words through a translation, so
two addresses may name one word.
-/

namespace Nixe.Horizon

open Std Method Memory Nixe.Runtime Scheduler List

/-! ## A memory with a history -/

inductive StoreUse where
  /-- A store by a supervisor call. -/
  | svc (use : WordUse)
  /-- An exchange from zero by a thread in user mode. -/
  | exchange
deriving DecidableEq, Repr

/-- A store into the word `location`, which held `old`. -/
structure Store where
  location : Nat
  old : Nat
  new : Nat
  use : StoreUse
deriving DecidableEq, Repr

/-- A non-zero tag is stored into a mutex: by a call that takes it or that undoes its release, or
by a thread itself. -/
def Store.StoresTag (st : Store) : Prop :=
  st.new ≠ 0 ∧ (st.use = .svc .tag ∨ st.use = .svc .restoreMutex ∨ st.use = .exchange)

structure TracedMemory where
  /-- The word that an aligned address leads to. -/
  location : Nat → Nat
  readFault : Nat → Option DataAccessFaultReason
  writeFault : Nat → Option DataAccessFaultReason
  words : Nat → Nat
  /-- The stores so far, the newest first. -/
  history : List Store

namespace TracedMemory

def readable (m : TracedMemory) (address : Nat) : Bool :=
  decide (4 ∣ address) && (m.readFault address).isNone

def writable (m : TracedMemory) (address : Nat) : Bool :=
  decide (4 ∣ address) && (m.writeFault address).isNone

/-- The word at an address. -/
def word (m : TracedMemory) (address : Nat) : Nat := m.words (m.location address)

def stored (m : TracedMemory) (use : StoreUse) (address value : Nat) : TracedMemory :=
  { m with
    words := fun l ↦ if l = m.location address then value else m.words l
    history := ⟨m.location address, m.word address, value, use⟩ :: m.history }

/-- Word accesses are naturally aligned. -/
def faultReason (fault : Option DataAccessFaultReason) (address : Nat) : DataAccessFaultReason :=
  if 4 ∣ address then fault.getD .unmapped else .misaligned 4

instance : GuestMemory TracedMemory where
  readWord m address :=
    if m.readable address then .ok (m.word address)
    else .error ⟨address, .read, faultReason (m.readFault address) address⟩
  writeWord m use address value :=
    if m.writable address then .ok (m.stored (.svc use) address value)
    else .error ⟨address, .write, faultReason (m.writeFault address) address⟩

variable {m : TracedMemory} {address value : Nat}

theorem readWord_eq_ok_iff :
    GuestMemory.readWord m address = .ok value ↔
      m.readable address = true ∧ m.word address = value := by
  change (if _ then _ else _) = _ ↔ _
  split <;> simp [*]

variable {fault : DataAccessFault}

theorem readWord_eq_error (h : GuestMemory.readWord m address = .error fault) :
    m.readable address = false := by
  change (if _ then _ else _) = _ at h
  split at h
  · cases h
  · rename_i hfault
    exact Bool.eq_false_iff.mpr hfault

theorem writeWord_eq_ok_iff {m' : TracedMemory} {use : WordUse} :
    GuestMemory.writeWord m use address value = .ok m' ↔
      m.writable address = true ∧ m.stored (.svc use) address value = m' := by
  change (if _ then _ else _) = _ ↔ _
  split <;> simp [*]

theorem writeWord_eq_error {use : WordUse}
    (h : GuestMemory.writeWord m use address value = .error fault) :
    m.writable address = false := by
  change (if _ then _ else _) = _ at h
  split at h
  · cases h
  · rename_i hfault
    exact Bool.eq_false_iff.mpr hfault

theorem writeIfPossible_eq (m : TracedMemory) (use : WordUse) (address value : Nat) :
    writeIfPossible m use address value =
      if m.writable address then m.stored (.svc use) address value else m := by
  rw [writeIfPossible]
  split <;> rename_i h
  · obtain ⟨hw, rfl⟩ := writeWord_eq_ok_iff.mp h
    rw [if_pos hw]
  · rw [if_neg (by simp [writeWord_eq_error h])]

/-! ## Exclusive histories -/

/-- Every tag is stored into a word that holds zero, and between two tags stored into one word
there is a store of zero into it. -/
structure Exclusive (m : TracedMemory) : Prop where
  fromZero : ∀ st ∈ m.history, st.StoresTag → st.old = 0
  released : ∀ newer st between st' older,
    m.history = newer ++ st :: (between ++ st' :: older) → st.StoresTag → st'.StoresTag →
    st.location = st'.location → ∃ z ∈ between, z.location = st.location ∧ z.new = 0

/-- An exclusive history, with the reason why the next tag will not break it: a word with a tag
that was not released is not zero. -/
structure Guarded (m : TracedMemory) : Prop extends Exclusive m where
  held : ∀ newer st older, m.history = newer ++ st :: older → st.StoresTag →
    (∃ z ∈ newer, z.location = st.location ∧ z.new = 0) ∨ m.words st.location ≠ 0

/-- **The step of the argument.** A store keeps a history guarded, unless it stores a tag over
another. -/
theorem Guarded.stored (h : m.Guarded) {use : StoreUse}
    (hzero : (Store.mk (m.location address) (m.word address) value use).StoresTag →
      m.word address = 0) :
    (m.stored use address value).Guarded where
  fromZero st hst htag := by
    rcases mem_cons.mp hst with rfl | hst
    · exact hzero htag
    · exact h.fromZero st hst htag
  released newer st between st' older hsplit htag htag' hloc := by
    cases newer with
    | nil =>
      -- the new store is the later of the two, so the word it is made into is zero
      obtain ⟨rfl, htail⟩ := List.cons.inj hsplit
      rcases h.held between st' older htail htag' with hz | hz
      · rwa [← hloc] at hz
      · rw [← hloc] at hz
        exact absurd (hzero htag) hz
    | cons _ newer =>
      exact h.released newer st between st' older (List.cons.inj hsplit).2 htag htag' hloc
  held newer st older hsplit htag := by
    cases newer with
    | nil =>
      obtain ⟨rfl, -⟩ := List.cons.inj hsplit
      exact .inr (by simpa [TracedMemory.stored] using htag.1)
    | cons z newer =>
      obtain ⟨rfl, htail⟩ := List.cons.inj hsplit
      rcases h.held newer st older htail htag with ⟨z, hz, hzl⟩ | hw
      · exact .inl ⟨z, mem_cons_of_mem _ hz, hzl⟩
      by_cases hl : st.location = m.location address
      · by_cases hv : value = 0
        · exact .inl ⟨_, mem_cons_self, hl.symm, hv⟩
        · exact .inr (by simpa [TracedMemory.stored, hl] using hv)
      · exact .inr (by simpa [TracedMemory.stored, hl] using hw)

/-- Stores that are not of a tag keep a history guarded. -/
theorem Guarded.stored_of_ne (h : m.Guarded) (use : WordUse) (htag : use ≠ .tag)
    (hrestore : use ≠ .restoreMutex) (address value : Nat) :
    (m.stored (.svc use) address value).Guarded :=
  h.stored fun hst ↦ by simp_all [Store.StoresTag]

theorem not_exclusive_stored {use : StoreUse}
    (htag : (Store.mk (m.location address) (m.word address) value use).StoresTag)
    (hword : m.word address ≠ 0) : ¬(m.stored use address value).Exclusive := fun h ↦
  hword (h.fromZero _ mem_cons_self htag)

end TracedMemory

/-! ## The threads of a process -/

/-- The state that calls are made in, and for every suspended thread the call it will attempt
again. -/
structure LockWorld where
  state : SvcState TracedMemory
  retrying : GuestThreadId → Option (LockSvc × Registers)

/-- What a thread does that is not suspended. -/
inductive LockAction where
  | call (svc : LockSvc) (registers : Registers)
  /-- An atomic exchange of a word, from zero to `tag`. -/
  | exchange (address tag : Nat)

structure LockInput where
  thread : GuestThreadId
  now : Nat
  action : LockAction

inductive LockAnswer where
  | dispatched (outcome : ExceptionDispatchOutcome)
  | exchanged (success : Bool)
deriving DecidableEq, Repr

/-- The call that the thread of `input` attempts, if it does: a suspended thread can only attempt
its call again. -/
def LockWorld.attempted (w : LockWorld) (input : LockInput) : Option (LockSvc × Registers) :=
  match w.retrying input.thread, input.action with
  | some call, _ => some call
  | none, .call svc registers => some (svc, registers)
  | none, .exchange .. => none

/-- The state in which the thread of `input` makes a call. -/
def LockWorld.entered (w : LockWorld) (input : LockInput) (registers : Registers) :
    SvcState TracedMemory :=
  w.state.entered input.thread registers input.now

/-- The exchange that the thread of `input` makes, if it does. -/
def LockWorld.exchange (w : LockWorld) (input : LockInput) : LockAnswer × LockWorld :=
  match input.action with
  | .call .. => (.exchanged false, w)
  | .exchange address tag =>
    if w.state.memory.readable address && w.state.memory.writable address &&
        w.state.memory.word address == 0 then
      (.exchanged true,
        { w with
          state := { w.state with memory := w.state.memory.stored .exchange address tag } })
    else (.exchanged false, w)

/-- The call of `thread` ended with `outcome` and left `state`. -/
def LockWorld.dispatched (w : LockWorld) (thread : GuestThreadId) (call : LockSvc × Registers)
    (outcome : ExceptionDispatchOutcome) (state : SvcState TracedMemory) : LockWorld where
  state := state
  retrying := fun other ↦
    if other = thread then if outcome = .suspend .retry then some call else none
    else w.retrying other

/-- Any number of threads, in any interleaving, each call one step. -/
def lockWorld : Machine LockWorld LockInput LockAnswer := fun w input ↦
  match w.attempted input with
  | none => some (w.exchange input)
  | some (svc, registers) =>
    (attempt svc.handle (w.entered input registers)).map fun (outcome, state) ↦
      (.dispatched outcome, w.dispatched input.thread (svc, registers) outcome state)

/-! ## The calls that overwrite a tag -/

/-- The calling thread was signalled at `address`, with a tag that the attempt will store into the
mutex, and the mutex is taken. -/
def StoresOverTag (s : SvcState TracedMemory) (address mutexAddress : Nat) : Prop :=
  s.addressWaits.isSignalled address s.thread = true ∧
  s.addressWaits.value address s.thread ≠ some 0 ∧
  s.memory.writable mutexAddress = true ∧ s.memory.word mutexAddress ≠ 0

/-- The release of a taken mutex will be undone because its key is read-only. -/
def RestoresTag (s : SvcState TracedMemory) (key mutexAddress : Nat) : Prop :=
  s.addressWaits.contains key s.thread = false ∧
  s.memory.readable key = true ∧ s.memory.writable key = false ∧
  s.memory.readable mutexAddress = true ∧ s.memory.writable mutexAddress = true ∧
  s.memory.word mutexAddress ≠ 0

/-- The attempt of `svc` stores a tag over another. -/
def OverwritesTag (s : SvcState TracedMemory) : LockSvc → Prop
  | .arbitrateLock => StoresOverTag s (s.register 1) (s.register 1)
  | .waitProcessWideKeyAtomic =>
    StoresOverTag s (keyAddress (s.registers 1)) (s.register 0) ∨
      RestoresTag s (keyAddress (s.registers 1)) (s.register 0)
  | .arbitrateUnlock | .signalProcessWideKey => False

/-! ## One attempt -/

section

open TracedMemory

variable {s t : SvcState TracedMemory} {outcome : ExceptionDispatchOutcome} {address tag key : Nat}

theorem TakeStep.guarded (h : TakeStep s address tag t) (hs : s.memory.Guarded)
    (hzero : tag ≠ 0 → s.memory.writable address = true → s.memory.word address = 0) :
    t.memory.Guarded := by
  cases h with
  | taken hwrite =>
    obtain ⟨hw, rfl⟩ := writeWord_eq_ok_iff.mp hwrite
    exact hs.stored fun htag ↦ hzero htag.1 hw
  | refused => exact hs

theorem TakeStep.not_exclusive (h : TakeStep s address tag t) (htag : tag ≠ 0)
    (hw : s.memory.writable address = true) (hword : s.memory.word address ≠ 0) :
    ¬t.memory.Exclusive := by
  cases h with
  | taken hwrite =>
    obtain ⟨-, rfl⟩ := writeWord_eq_ok_iff.mp hwrite
    exact not_exclusive_stored ⟨htag, .inl rfl⟩ hword
  | refused hwrite =>
    rw [writeWord_eq_error hwrite] at hw
    cases hw

variable {mutexAddress : Nat}

/-- The tag that a signalled thread stores is the one it was queued with. -/
theorem storesOverTag_iff (h : s.addressWaits.isSignalled address s.thread = true) :
    StoresOverTag s address mutexAddress ↔
      (s.addressWaits.value address s.thread).getD tag ≠ 0 ∧
        s.memory.writable mutexAddress = true ∧ s.memory.word mutexAddress ≠ 0 := by
  obtain ⟨v, hv⟩ := AddressWaitRegistry.exists_value_of_isSignalled h
  simp [StoresOverTag, h, hv]

theorem Published.guarded {m m' : TracedMemory} (h : Published m key mutexAddress m')
    (hm : m.Guarded) : m'.Guarded := by
  obtain ⟨flagged, hkey, hmutex⟩ := h
  obtain ⟨-, rfl⟩ := writeWord_eq_ok_iff.mp hkey
  obtain ⟨-, rfl⟩ := writeWord_eq_ok_iff.mp hmutex
  exact (hm.stored_of_ne .key nofun nofun _ _).stored_of_ne .release nofun nofun _ _

/-- The memory after the release has been undone: a store is repeated where its undoing is
possible. -/
theorem PublishFails.restored {m m' : TracedMemory} {oldKey : Nat}
    (h : PublishFails m key mutexAddress m') :
    m.writable key = false ∧
        writeIfPossible (writeIfPossible m' .restoreKey key oldKey) .restoreMutex mutexAddress
          (m.word mutexAddress) =
        (if m.writable mutexAddress then
          m.stored (.svc .restoreMutex) mutexAddress (m.word mutexAddress) else m) ∨
      m.writable mutexAddress = false ∧
        writeIfPossible (writeIfPossible m' .restoreKey key oldKey) .restoreMutex mutexAddress
          (m.word mutexAddress) =
        (m.stored (.svc .key) key 1).stored (.svc .restoreKey) key oldKey := by
  simp only [writeIfPossible_eq]
  cases h with
  | key hkey =>
    have hkey := writeWord_eq_error hkey
    simp [hkey]
  | mutex hkey hmutex =>
    obtain ⟨hw, rfl⟩ := writeWord_eq_ok_iff.mp hkey
    have hmutex := writeWord_eq_error hmutex
    refine .inr ⟨hmutex, ?_⟩
    have hkey : (m.stored (.svc .key) key 1).writable key = true := hw
    have hmutex' : ((m.stored (.svc .key) key 1).stored (.svc .restoreKey) key oldKey).writable
      mutexAddress = false := hmutex
    rw [if_pos hkey, if_neg (by rw [hmutex']; exact Bool.false_ne_true)]

theorem BeginKeyWaitStep.guarded {timeout : Int}
    (h : BeginKeyWaitStep s mutexAddress key tag timeout outcome t)
    (hcontains : s.addressWaits.contains key s.thread = false) (hs : s.memory.Guarded)
    (hgood : ¬RestoresTag s key mutexAddress) : t.memory.Guarded := by
  cases h with
  | unreadable => exact hs
  | restored hkey hmutex hfail =>
    obtain ⟨hkeyRead, -⟩ := readWord_eq_ok_iff.mp hkey
    obtain ⟨hmutexRead, rfl⟩ := readWord_eq_ok_iff.mp hmutex
    rcases hfail.restored with ⟨hkeyWrite, hmem⟩ | ⟨-, hmem⟩
    · change Guarded (writeIfPossible _ _ _ _)
      rw [hmem]
      split
      · rename_i hmutexWrite
        refine hs.stored fun _ ↦ ?_
        by_contra hword
        exact hgood ⟨hcontains, hkeyRead, hkeyWrite, hmutexRead, hmutexWrite, hword⟩
      · exact hs
    · change Guarded (writeIfPossible _ _ _ _)
      rw [hmem]
      exact (hs.stored_of_ne .key nofun nofun _ _).stored_of_ne .restoreKey nofun nofun _ _
  | blocked hpublished => simpa using hpublished.guarded hs
  | timedOut hpublished | queued hpublished =>
    change Guarded (SvcState.memory (SvcState.ownerReleased _ _))
    simpa using hpublished.guarded hs

theorem BeginKeyWaitStep.not_exclusive {timeout : Int}
    (h : BeginKeyWaitStep s mutexAddress key tag timeout outcome t)
    (hbad : RestoresTag s key mutexAddress) : ¬t.memory.Exclusive := by
  obtain ⟨-, hkeyRead, hkeyWrite, hmutexRead, hmutexWrite, hword⟩ := hbad
  have hpublished {m : TracedMemory} (h : Published s.memory key mutexAddress m) : False := by
    obtain ⟨flagged, hkey, -⟩ := h
    rw [(writeWord_eq_ok_iff.mp hkey).1] at hkeyWrite
    cases hkeyWrite
  cases h with
  | unreadable hread =>
    rcases hread with hread | hread
    · rw [readWord_eq_error hread] at hkeyRead
      cases hkeyRead
    · rw [readWord_eq_error hread] at hmutexRead
      cases hmutexRead
  | restored hkey hmutex hfail =>
    obtain ⟨-, rfl⟩ := readWord_eq_ok_iff.mp hmutex
    rcases hfail.restored with ⟨-, hmem⟩ | ⟨hmutexWrite', -⟩
    · rw [hmem, if_pos hmutexWrite]
      exact not_exclusive_stored ⟨hword, .inr (.inl rfl)⟩ hword
    · rw [hmutexWrite] at hmutexWrite'
      cases hmutexWrite'
  | blocked h | timedOut h | queued h => exact (hpublished h).elim

/-- An attempt that does not store a tag over another keeps the history guarded. -/
theorem LockSvc.Step.guarded {svc : LockSvc} (h : svc.Step s outcome t) (hs : s.memory.Guarded)
    (hgood : ¬OverwritesTag s svc) : t.memory.Guarded := by
  cases svc with
  | arbitrateLock =>
    rcases h with _ | ⟨_, hsignalled, htake⟩ | ⟨_, _, htry⟩
    · exact hs
    · refine htake.guarded hs fun htag hw ↦ ?_
      by_contra hword
      exact hgood ((storesOverTag_iff hsignalled).mpr ⟨htag, hw, hword⟩)
    · cases htry with
      | free hread htake =>
        exact htake.guarded hs fun _ _ ↦ (readWord_eq_ok_iff.mp hread).2
      | _ => exact hs
  | arbitrateUnlock =>
    cases h with
    | misaligned | refused => exact hs
    | blocked hwrite =>
      obtain ⟨-, rfl⟩ := writeWord_eq_ok_iff.mp hwrite
      rw [SvcState.memory_ownerReleased]
      exact hs.stored_of_ne .release nofun nofun _ _
    | released hwrite =>
      obtain ⟨-, rfl⟩ := writeWord_eq_ok_iff.mp hwrite
      change Guarded (SvcState.memory (SvcState.ownerReleased _ _))
      rw [SvcState.memory_ownerReleased]
      exact hs.stored_of_ne .release nofun nofun _ _
  | waitProcessWideKeyAtomic =>
    cases h with
    | misaligned | expired | waiting => exact hs
    | signalled _ hsignalled htake =>
      refine htake.guarded hs fun htag hw ↦ ?_
      by_contra hword
      exact hgood (.inl ((storesOverTag_iff hsignalled).mpr ⟨htag, hw, hword⟩))
    | first _ _ hcontains hbegin =>
      exact hbegin.guarded hcontains hs fun hbad ↦ hgood (.inr hbad)
  | signalProcessWideKey =>
    cases h with
    | refused => exact hs
    | cleared hwrite =>
      obtain ⟨-, rfl⟩ := writeWord_eq_ok_iff.mp hwrite
      exact hs.stored_of_ne .key nofun nofun _ _

/-- An attempt that stores a tag over another is seen in the history. -/
theorem LockSvc.Step.not_exclusive {svc : LockSvc} (h : svc.Step s outcome t)
    (hbad : OverwritesTag s svc) : ¬t.memory.Exclusive := by
  have halign {address : Nat} (h : s.memory.writable address = true) : 4 ∣ address := by
    simp only [writable, Bool.and_eq_true, decide_eq_true_eq] at h
    exact h.1
  cases svc with
  | arbitrateLock =>
    obtain ⟨hsignalled, -, hw, hword⟩ := id hbad
    rcases h with hmis | ⟨_, _, htake⟩ | ⟨_, hunsignalled, _⟩
    · exact absurd (halign hw) hmis
    · exact htake.not_exclusive ((storesOverTag_iff hsignalled).mp hbad).1 hw hword
    · rw [hsignalled] at hunsignalled
      cases hunsignalled
  | arbitrateUnlock | signalProcessWideKey => exact hbad.elim
  | waitProcessWideKeyAtomic =>
    rcases hbad with hbad | hbad
    · obtain ⟨hsignalled, -, hw, hword⟩ := id hbad
      rcases h with hmis | ⟨_, _, htake⟩ | ⟨_, hunsignalled, _⟩ | ⟨_, hunsignalled, _, _⟩ |
        ⟨_, hunsignalled, _, _⟩
      · exact absurd (halign hw) hmis
      · exact htake.not_exclusive ((storesOverTag_iff hsignalled).mp hbad).1 hw hword
      all_goals
        rw [hsignalled] at hunsignalled
        cases hunsignalled
    · obtain ⟨hcontains, -, -, -, hw, -⟩ := id hbad
      rcases h with hmis | ⟨_, hsignalled, _⟩ | ⟨_, _, hcontains'⟩ | ⟨_, _, hcontains', _⟩ |
        ⟨_, _, _, hbegin⟩
      · exact absurd (halign hw) hmis
      · rw [AddressWaitRegistry.contains_of_isSignalled hsignalled] at hcontains
        cases hcontains
      · rw [hcontains] at hcontains'
        cases hcontains'
      · rw [hcontains] at hcontains'
        cases hcontains'
      · exact hbegin.not_exclusive hbad

end

/-! ## Runs -/

/-- The step of `input` makes a call that stores a tag over another. -/
def LockWorld.Overwrites (w : LockWorld) (input : LockInput) : Prop :=
  ∃ svc registers, w.attempted input = some (svc, registers) ∧
    OverwritesTag (w.entered input registers) svc

/-- Every tag in the memory of `w` was stored into a free mutex, and no mutex was taken twice
without a release in between. -/
def LockWorld.Excludes (w : LockWorld) : Prop := w.state.memory.Exclusive

theorem lockWorld_guarded {w : LockWorld} {input : LockInput} (hw : w.state.memory.Guarded)
    (hgood : ¬w.Overwrites input) :
    ∃ answer w', lockWorld w input = some (answer, w') ∧ w'.state.memory.Guarded := by
  cases hcall : w.attempted input with
  | none =>
    refine ⟨_, _, by rw [lockWorld, hcall], ?_⟩
    rw [LockWorld.exchange]
    split
    · exact hw
    · split
      · rename_i hzero
        simp only [Bool.and_eq_true, beq_iff_eq] at hzero
        exact hw.stored fun _ ↦ hzero.2
      · exact hw
  | some call =>
    obtain ⟨svc, registers⟩ := call
    rcases attempt_of_wp (svc.handle_spec (w.entered input registers)) with
      ⟨outcome, t, hstep, hattempt⟩ | ⟨hpanic, -⟩
    · refine ⟨_, _, by rw [lockWorld, hcall]; dsimp only; rw [hattempt]; rfl, ?_⟩
      exact hstep.guarded hw fun hbad ↦ hgood ⟨svc, registers, hcall, hbad⟩
    · exact hpanic.elim

theorem lockWorld_not_excludes {w w' : LockWorld} {input : LockInput} {answer : LockAnswer}
    (hbad : w.Overwrites input) (h : lockWorld w input = some (answer, w')) : ¬w'.Excludes := by
  obtain ⟨svc, registers, hcall, hbad⟩ := hbad
  rcases attempt_of_wp (svc.handle_spec (w.entered input registers)) with
    ⟨outcome, t, hstep, hattempt⟩ | ⟨hpanic, -⟩
  · rw [lockWorld, hcall] at h
    simp only [hattempt, Option.map_some, Option.some.injEq, Prod.mk.injEq] at h
    obtain ⟨-, rfl⟩ := h
    exact hstep.not_exclusive hbad
  · exact hpanic.elim

/-- A process whose threads have made no call yet. -/
def LockWorld.start (memory : TracedMemory) (handles : HandleTable) : LockWorld where
  state :=
    { dispatcher := .new
      thread := 0
      registers := fun _ ↦ 0
      tls := 0
      processId := 1
      memory := memory
      addressWaits := .empty
      handles := handles
      events := fun _ ↦ false
      completions := fun _ ↦ false
      ports := fun _ ↦ .createPair 0 false
      sessions := fun _ ↦ .createPairWithKind false
      reserves := fun _ ↦ true
      replies := [] }
  retrying := fun _ ↦ none

/-- Plain memory, all zero. -/
def zeroedMemory : TracedMemory where
  location := id
  readFault := fun _ ↦ none
  writeFault := fun _ ↦ none
  words := fun _ ↦ 0
  history := []

/-- A handle table with a handle of thread 1. -/
def ownerHandles : HandleTable := HandleTable.new.stored 5 (.thread 1)

/-- The registers with the given first three arguments. -/
def arguments (x₀ x₁ x₂ : UInt64) : Registers := fun i ↦
  if i = 0 then x₀ else if i = 1 then x₁ else if i = 2 then x₂ else 0

/-- Thread 1 takes a mutex, thread 2 queues up for it, thread 1 releases it, thread 3 takes it,
and thread 2 attempts its call again. -/
def barging : List LockInput :=
  [⟨1, 0, .exchange 0x1000 0x11⟩,
    ⟨2, 0, .call .arbitrateLock (arguments 5 0x1000 0x22)⟩,
    ⟨1, 0, .call .arbitrateUnlock (arguments 0x1000 0 0)⟩,
    ⟨3, 0, .exchange 0x1000 0x33⟩,
    ⟨2, 0, .exchange 0x1000 0x22⟩]

end Nixe.Horizon
