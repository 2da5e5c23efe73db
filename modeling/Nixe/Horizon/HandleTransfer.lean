import Nixe.Horizon.Transfer
import Nixe.Runtime.HandleAllocation

/-!
# Transfer of handles

A message that is sent and received takes its handles from the table of the sender to the table of
the receiver. This file proves what the two tables have in common before and after.

A handle that is given out was free, so closing the handles that one call has been given leaves
every other entry as it was; this is what makes the rollback exact.
-/

namespace Nixe.Horizon

open Std List Nixe.Runtime

/-! ## Capture -/

section

variable {μ : Type} {s : SvcState μ} {error : Option HorizonKernelResult} {handles : List Nat}
  {objects : List (Option HandleObject)} {table table' : HandleTable}

/-- After an error the whole copy has failed. -/
theorem copyObjects_error (e : HorizonKernelResult) (handles : List Nat) :
    (copyObjects s (some e) handles).1 ≠ none := by
  induction handles with
  | nil => exact nofun
  | cons handle handles ih => exact ih

theorem copyObjects_eq (h : (copyObjects s none handles).1 = none) :
    List.Forall₂ (fun handle object ↦ copyIpcObject s handle = .ok object) handles
      (copyObjects s none handles).2 := by
  induction handles with
  | nil => exact .nil
  | cons handle handles ih =>
    cases hcopy : copyIpcObject s handle with
    | ok object =>
      simp only [copyObjects, hcopy] at h ⊢
      exact .cons hcopy (ih h)
    | error e =>
      simp only [copyObjects, hcopy] at h
      exact absurd h (copyObjects_error e handles)

/-- The object that a handle of the message stands for, if it is moved. -/
inductive MovedFrom (table : HandleTable) : Nat → Option HandleObject → Prop
  | zero : MovedFrom table 0 none
  | object {handle : Nat} {object : HandleObject} (hne : handle ≠ 0)
      (hget : table.get handle = some object) : MovedFrom table handle (some object)

theorem moveObjects_error (table : HandleTable) (e : HorizonKernelResult) (handles : List Nat) :
    (moveObjects table (some e) handles).1 ≠ none := by
  induction handles generalizing table e with
  | nil => exact nofun
  | cons handle handles ih =>
    rw [moveObjects]
    split
    · exact ih table e
    · split
      · exact ih table _
      · split
        · exact ih _ e
        · exact ih table _

/-- A move without error takes every handle that is not zero out of the table, each once. -/
structure Moves (table : HandleTable) (handles : List Nat) (objects : List (Option HandleObject))
    (table' : HandleTable) : Prop where
  moved : List.Forall₂ (MovedFrom table) handles objects
  nodup : (handles.filter (· ≠ 0)).Nodup
  get : ∀ h, table'.get h = if h ∈ handles.filter (· ≠ 0) then none else table.get h

theorem exists_get_of_moved (hobjects : List.Forall₂ (MovedFrom table) handles objects)
    {handle : Nat} (hmem : handle ∈ handles.filter (· ≠ 0)) :
    ∃ object, table.get handle = some object := by
  obtain ⟨hmem, hne⟩ := mem_filter.mp hmem
  induction hobjects with
  | nil => cases hmem
  | cons hmoved _ ih =>
    obtain rfl | hmem := mem_cons.mp hmem
    · cases hmoved with
      | zero => simp at hne
      | object _ hget => exact ⟨_, hget⟩
    · exact ih (mem_filter.mpr ⟨hmem, hne⟩) hmem

/-- One more handle in front, which is closed before the others. -/
theorem Moves.cons {table₁ : HandleTable} {handle : Nat} {object : HandleObject}
    (h : Moves table₁ handles objects table') (hne : handle ≠ 0)
    (hclose : table.close handle = .ok (object, table₁)) :
    Moves table (handle :: handles) (some object :: objects) table' := by
  obtain ⟨hobject, -, -, hclosed⟩ := HandleTable.close_eq_ok hclose
  have hgone : handle ∉ handles.filter (· ≠ 0) := fun hmem ↦ by
    obtain ⟨o, ho⟩ := exists_get_of_moved h.moved hmem
    rw [hclosed, if_pos rfl] at ho
    cases ho
  have hfilter : (handle :: handles).filter (· ≠ 0) = handle :: handles.filter (· ≠ 0) :=
    filter_cons_of_pos (by simpa using hne)
  refine ⟨.cons (.object hne hobject) (h.moved.imp fun h o ho ↦ ?_), ?_, fun h' ↦ ?_⟩
  · cases ho with
    | zero => exact .zero
    | object hne hget =>
      rw [hclosed] at hget
      split at hget
      · cases hget
      · exact .object hne hget
  · rw [hfilter]
    exact nodup_cons.mpr ⟨hgone, h.nodup⟩
  · rw [h.get, hclosed, hfilter]
    by_cases hh : h' = handle
    · simp only [hh, mem_cons_self, if_true, ite_self]
    · simp only [mem_cons, hh, false_or, if_false]

theorem moveObjects_eq (h : (moveObjects table none handles).1 = none) :
    Moves table handles (moveObjects table none handles).2.1
      (moveObjects table none handles).2.2 := by
  induction handles generalizing table with
  | nil => exact ⟨.nil, nodup_nil, fun h ↦ (if_neg not_mem_nil).symm⟩
  | cons handle handles ih =>
    rw [moveObjects] at h ⊢
    split at h
    · rename_i hzero
      obtain ⟨hobjects, hnodup, hget⟩ := ih h
      rw [if_pos hzero, hzero]
      refine ⟨.cons .zero hobjects, ?_, ?_⟩
      · rwa [filter_cons_of_neg (by simp)]
      · rwa [filter_cons_of_neg (by simp)]
    · rename_i hne
      split at h
      · exact absurd h (moveObjects_error table _ handles)
      · rename_i hhandle
        split at h
        · rename_i hclose
          rw [if_neg hne, if_neg hhandle]
          exact (ih h).cons hne hclose
        · exact absurd h (moveObjects_error table _ handles)

end

/-! ## Materialization -/

section

variable {table table' : HandleTable} {handles : List Nat} {objects : List (Option HandleObject)}

/-- The handle of the receiver for an object of the message. -/
inductive GivenIn (table table' : HandleTable) : Option HandleObject → Nat → Prop
  | zero : GivenIn table table' none 0
  | object {handle : Nat} {object : HandleObject} (hne : handle ≠ 0)
      (hfree : table.get handle = none) (hget : table'.get handle = some object) :
      GivenIn table table' (some object) handle

/-- Every object gets a handle of its own that was free, and nothing else changes. -/
structure Materializes (table : HandleTable) (objects : List (Option HandleObject))
    (handles : List Nat) (table' : HandleTable) : Prop where
  given : List.Forall₂ (GivenIn table table') objects handles
  nodup : (handles.filter (· ≠ 0)).Nodup
  get : ∀ h, h ∉ handles.filter (· ≠ 0) → table'.get h = table.get h

/-- The rollback removes the handles that are named, whether they are there or not. -/
theorem get_closeAll (table : HandleTable) (handles : List Nat) (h : Nat) :
    (handles.foldl (fun table handle ↦
      match table.close handle with
      | .ok (_, table) => table
      | .error _ => table) table).get h = if h ∈ handles then none else table.get h := by
  induction handles generalizing table with
  | nil => rfl
  | cons handle handles ih =>
    rw [foldl_cons, ih]
    have hget : (match table.close handle with
        | .ok (_, table) => table
        | .error _ => table).get h = if h = handle then none else table.get h := by
      split
      · rename_i hclose
        exact (HandleTable.close_eq_ok hclose).2.2.2 h
      · rename_i hclose
        split
        · subst h
          exact (HandleTable.close_eq_error hclose).2
        · rfl
    rw [hget]
    by_cases hh : h = handle
    · simp only [hh, mem_cons_self, if_true, ite_self]
    · simp only [mem_cons, hh, false_or, if_false]

theorem free_of_given (hgiven : List.Forall₂ (GivenIn table table') objects handles) {handle : Nat}
    (hmem : handle ∈ handles.filter (· ≠ 0)) : table.get handle = none := by
  obtain ⟨hmem, hne⟩ := mem_filter.mp hmem
  induction hgiven with
  | nil => cases hmem
  | cons hhead _ ih =>
    obtain rfl | hmem := mem_cons.mp hmem
    · cases hhead with
      | zero => simp at hne
      | object _ hfree _ => exact hfree
    · exact ih (mem_filter.mpr ⟨hmem, hne⟩) hmem

theorem Materializes.cons {table₁ : HandleTable} {handle : Nat} {object : HandleObject}
    (h : Materializes table₁ objects handles table')
    (hinserts : table.Inserts object handle table₁) :
    Materializes table (some object :: objects) (handle :: handles) table' := by
  have hnew : table₁.get handle = some object := by rw [hinserts.get, if_pos rfl]
  have hother : handle ∉ handles.filter (· ≠ 0) := fun hmem ↦ by
    cases (free_of_given h.given hmem).symm.trans hnew
  have hfilter : (handle :: handles).filter (· ≠ 0) = handle :: handles.filter (· ≠ 0) :=
    filter_cons_of_pos (by simpa using hinserts.ne_zero)
  have hfree {h' : Nat} (hh : table₁.get h' = none) : table.get h' = none := by
    rw [hinserts.get] at hh
    split at hh
    · cases hh
    · exact hh
  refine ⟨.cons (.object hinserts.ne_zero hinserts.free ((h.get _ hother).trans hnew))
    (h.given.imp fun o h' hgiven ↦ ?_), ?_, fun h' hh ↦ ?_⟩
  · cases hgiven with
    | zero => exact .zero
    | object hne hnone hget => exact .object hne (hfree hnone) hget
  · rw [hfilter]
    exact nodup_cons.mpr ⟨hother, h.nodup⟩
  · rw [hfilter, mem_cons, not_or] at hh
    rw [h.get h' hh.2, hinserts.get, if_neg hh.1]

variable {allocated : List Nat}

theorem allocateHandles_eq_some (ht : table.Valid)
    (h : (allocateHandles table allocated objects).1 = some handles) :
    Materializes table objects handles (allocateHandles table allocated objects).2 := by
  induction objects generalizing table allocated handles with
  | nil =>
    cases h
    exact ⟨.nil, nodup_nil, fun _ _ ↦ rfl⟩
  | cons object objects ih =>
    cases object with
    | none =>
      obtain ⟨rest, hrest, rfl⟩ := Option.map_eq_some_iff.mp h
      obtain ⟨hgiven, hnodup, hget⟩ := ih ht hrest
      refine ⟨.cons .zero hgiven, ?_, ?_⟩
      · rwa [filter_cons_of_neg (by simp)]
      · rwa [filter_cons_of_neg (by simp)]
    | some object =>
      rw [allocateHandles] at h ⊢
      split at h
      · rename_i hinsert
        obtain ⟨rest, hrest, rfl⟩ := Option.map_eq_some_iff.mp h
        have hinserts := ht.insertObject hinsert
        exact (ih hinserts.valid hrest).cons hinserts
      · cases h

/-- **Rollback.** If the table is full, every entry is again what it was before the first handle was
given. -/
theorem allocateHandles_eq_none {table₀ : HandleTable} (ht : table.Valid)
    (hallocated : ∀ h ∈ allocated, table₀.get h = none)
    (hothers : ∀ h, h ∉ allocated → table.get h = table₀.get h)
    (h : (allocateHandles table allocated objects).1 = none) (handle : Nat) :
    (allocateHandles table allocated objects).2.get handle = table₀.get handle := by
  induction objects generalizing table allocated with
  | nil => cases h
  | cons object objects ih =>
    cases object with
    | none => exact ih ht hallocated hothers (Option.map_eq_none_iff.mp h)
    | some object =>
      rw [allocateHandles] at h ⊢
      split at h
      · rename_i hinsert
        have hinserts := ht.insertObject hinsert
        refine ih hinserts.valid (fun h hh ↦ ?_) (fun h hh ↦ ?_) (Option.map_eq_none_iff.mp h)
        · by_cases hold : h ∈ allocated
          · exact hallocated h hold
          · have hgiven := mem_singleton.mp ((mem_append.mp hh).resolve_left hold)
            exact (hothers h hold).symm.trans (hgiven ▸ hinserts.free)
        · rw [mem_append, mem_singleton, not_or] at hh
          rw [hinserts.get, if_neg hh.2]
          exact hothers h hh.1
      · refine (get_closeAll table allocated handle).trans ?_
        split
        · exact (hallocated handle ‹_›).symm
        · exact hothers handle ‹_›

end

/-! ## The transfer -/

section

variable {μ : Type}

/-- A message is sent by the thread of `s` and received into `receiver`: the result, the table of
the sender and the table of the receiver. -/
def transferMessageHandles (s : SvcState μ) (bytes : List UInt8) (allowMoveHandles : Bool)
    (receiver : HandleTable) :
    Except HorizonKernelResult (Option (List UInt8)) × HandleTable × HandleTable :=
  match captureMessageHandles s bytes allowMoveHandles with
  | (.error error, sender) => (.error error, sender, receiver)
  | (.ok message, sender) =>
    let (result, receiver) := materializeMessageHandles receiver message
    (result, sender, receiver)

/-- The message carries its handles over. -/
structure Transfers (s : SvcState μ) (header : HipcRequest) (receiver : HandleTable)
    (copied moved : List (Option HandleObject)) (handles : List Nat)
    (sender' receiver' : HandleTable) : Prop where
  copies : List.Forall₂ (fun handle object ↦ copyIpcObject s handle = .ok object)
    header.copyHandles copied
  moves : Moves s.handles header.moveHandles moved sender'
  materializes : Materializes receiver (copied ++ moved) handles receiver'

variable {bytes : List UInt8} {allowMoveHandles : Bool} {message : SessionMessage HandleObject}
  {receiver : HandleTable}

theorem captureMessageHandles_eq {s : SvcState μ} {sender : HandleTable}
    (h : captureMessageHandles s bytes allowMoveHandles = (.ok message, sender)) :
    decodeTransportHeader bytes = .ok none ∧ message = .buffer bytes ∧ sender = s.handles ∨
    ∃ header copied moved, decodeTransportHeader bytes = .ok (some header) ∧
      message = .transportedBuffer bytes copied moved ∧
      List.Forall₂ (fun handle object ↦ copyIpcObject s handle = .ok object)
        header.copyHandles copied ∧
      Moves s.handles header.moveHandles moved sender := by
  rw [captureMessageHandles] at h
  split at h
  · cases h
  · cases h
    exact .inl ⟨‹_›, rfl, rfl⟩
  · rename_i header hheader
    split at h
    · cases h
    · dsimp only at h
      split at h
      · cases h
      · rename_i hnone
        cases h
        cases hcopy : (copyObjects s none header.copyHandles).1 with
        | some e =>
          rw [hcopy] at hnone
          exact absurd hnone (moveObjects_error _ e _)
        | none =>
          rw [hcopy] at hnone
          exact .inr ⟨header, _, _, hheader, rfl, copyObjects_eq hcopy, moveObjects_eq hnone⟩

/-- Materialization fails without a trace, or every object has got its handle. -/
theorem materializeMessageHandles_eq {receiver' : HandleTable} (hr : receiver.Valid)
    {copied moved : List (Option HandleObject)} {header : HipcRequest}
    (hheader : decodeTransportHeader bytes = .ok (some header))
    {result : Except HorizonKernelResult (Option (List UInt8))}
    (h : materializeMessageHandles receiver (.transportedBuffer bytes copied moved) =
      (result, receiver')) :
    match result with
    | .error _ => ∀ h, receiver'.get h = receiver.get h
    | .ok out => ∃ handles, Materializes receiver (copied ++ moved) handles receiver' ∧
      out = some (encodeHandles bytes header.handleOffset handles) := by
  simp only [materializeMessageHandles, hheader] at h
  split at h
  · cases h
    exact fun _ ↦ rfl
  · split at h
    · rename_i handles _ hallocate
      cases h
      have hmaterializes := allocateHandles_eq_some hr (congrArg Prod.fst hallocate)
      rw [hallocate] at hmaterializes
      exact ⟨handles, hmaterializes, rfl⟩
    · rename_i hallocate
      cases h
      have hsame := allocateHandles_eq_none hr (fun _ hh ↦ absurd hh not_mem_nil) (fun _ _ ↦ rfl)
        (congrArg Prod.fst hallocate)
      rw [hallocate] at hsame
      exact hsame

/-- **Conservation of handles.** For every message and every table of a receiver, the transfer
either carries the handles over: the objects are those of the sender's handles, the moved handles
leave the sender's table, and the receiver gets one new handle for each of them, in the order of the
message; or it fails, and every handle of the receiver stands for the object it stood for. -/
theorem handle_transfer_conserves (s : SvcState μ) (bytes : List UInt8) (allowMoveHandles : Bool)
    {receiver sender' receiver' : HandleTable} (hr : receiver.Reachable)
    {result : Except HorizonKernelResult (Option (List UInt8))}
    (h : transferMessageHandles s bytes allowMoveHandles receiver =
      (result, sender', receiver')) :
    match result with
    | .error _ => ∀ h, receiver'.get h = receiver.get h
    | .ok out =>
      decodeTransportHeader bytes = .ok none ∧ out = some bytes ∧ sender' = s.handles ∧
        receiver' = receiver ∨
      ∃ header copied moved handles, decodeTransportHeader bytes = .ok (some header) ∧
        Transfers s header receiver copied moved handles sender' receiver' ∧
        out = some (encodeHandles bytes header.handleOffset handles) := by
  rw [transferMessageHandles] at h
  split at h
  · cases h
    exact fun _ ↦ rfl
  · rename_i message sender hcapture
    obtain ⟨hresult, h⟩ := Prod.mk.inj h
    obtain ⟨rfl, hreceiver⟩ := Prod.mk.inj h
    obtain ⟨hheader, rfl, rfl⟩ | ⟨header, copied, moved, hheader, rfl, hcopies, hmoves⟩ :=
      captureMessageHandles_eq hcapture
    · cases hresult
      cases hreceiver
      exact .inl ⟨hheader, rfl, rfl, rfl⟩
    · have hmaterialize := materializeMessageHandles_eq hr.valid hheader
        (Prod.ext hresult hreceiver)
      cases result with
      | error e => exact hmaterialize
      | ok out =>
        obtain ⟨handles, hmaterializes, hout⟩ := hmaterialize
        exact .inr ⟨header, copied, moved, handles, hheader, ⟨hcopies, hmoves, hmaterializes⟩, hout⟩

/-- A thread of a process with one event, under its first handle. -/
def sendingThread : SvcState Unit where
  dispatcher := .new
  thread := 7
  registers _ := 0
  tls := 0
  processId := 1
  memory := ()
  addressWaits := .empty
  handles := HandleTable.new.stored firstHandle (.readableEvent 3)
  events _ := false
  completions _ := false
  ports _ := .createPair 0 false
  sessions _ := .createPairWithKind false
  reserves _ := true
  replies := []

/-- A message that copies the first handle and then moves it. -/
def copyAndMove : List UInt8 :=
  [4, 0, 0, 0, 0, 0, 0, 0x80, 0x22, 0, 0, 0, 1, 0, 0, 0, 1, 0, 0, 0]

/-- A message that moves the first handle. -/
def moveFirst : List UInt8 := [4, 0, 0, 0, 0, 0, 0, 0x80, 0x20, 0, 0, 0, 1, 0, 0, 0]

/-- A table with room for one handle, and with that handle. -/
def oneHandle (object : HandleObject) : HandleTable :=
  { HandleTable.withCapacityLimit 1 with nextHandle := 2 }.stored 1 object

theorem insertObject_first (object : HandleObject) :
    (HandleTable.withCapacityLimit 1).insertObject object = .ok (1, oneHandle object) := by
  have hempty : (HandleTable.withCapacityLimit 1).recycled.min? = none := ExtTreeSet.min?_empty
  simp only [HandleTable.insertObject, hempty]
  rw [if_neg (by decide), if_neg (by decide)]
  rfl

theorem insertObject_second (object object' : HandleObject) :
    (oneHandle object).insertObject object' = .error .exhausted := by
  rw [HandleTable.insertObject, if_pos]
  change 1 ≤ ((∅ : ExtTreeMap Nat HandleObject).insert 1 object).size
  rw [ExtTreeMap.size_insert, if_neg (by simp)]
  exact Nat.le_add_left 1 _

theorem fst_transferMessageHandles {s : SvcState μ}
    (h : (captureMessageHandles s bytes allowMoveHandles).1 = .ok message) :
    (transferMessageHandles s bytes allowMoveHandles receiver).1 =
      (materializeMessageHandles receiver message).1 := by
  rw [transferMessageHandles]
  split
  · rename_i hcapture
    rw [hcapture] at h
    cases h
  · rename_i hcapture
    rw [hcapture] at h
    cases h
    rfl

/-- A receiver with room for one handle gets a single handle, but not the first of two. -/
theorem handle_transfer_conserves_first :
    (∃ sender' receiver',
      transferMessageHandles sendingThread copyAndMove true (.withCapacityLimit 1) =
        (.error .outOfHandles, sender', receiver') ∧
      ∀ h, receiver'.get h = (HandleTable.withCapacityLimit 1).get h) ∧
    ∃ out sender' receiver' header copied moved handles,
      transferMessageHandles sendingThread moveFirst true (.withCapacityLimit 1) =
        (.ok out, sender', receiver') ∧
      Transfers sendingThread header (.withCapacityLimit 1) copied moved handles sender'
        receiver' := by
  have hfails : (transferMessageHandles sendingThread copyAndMove true (.withCapacityLimit 1)).1 =
      .error .outOfHandles := by
    have hcapture : (captureMessageHandles sendingThread copyAndMove true).1 =
      .ok (.transportedBuffer copyAndMove [some (.readableEvent 3)] [some (.readableEvent 3)]) := by
      decide +kernel
    have hheader : decodeTransportHeader copyAndMove =
        .ok (some ⟨4, none, [1], [1], [], [], [], [], .absent, 12, 20, 20⟩) := by
      decide +kernel
    rw [fst_transferMessageHandles hcapture]
    simp [materializeMessageHandles, hheader, allocateHandles, insertObject_first,
      insertObject_second]
  have hworks : (transferMessageHandles sendingThread moveFirst true (.withCapacityLimit 1)).1 =
      .ok (some moveFirst) := by
    have hcapture : (captureMessageHandles sendingThread moveFirst true).1 =
        .ok (.transportedBuffer moveFirst [] [some (.readableEvent 3)]) := by
      decide +kernel
    have hheader : decodeTransportHeader moveFirst =
        .ok (some ⟨4, none, [], [1], [], [], [], [], .absent, 12, 16, 16⟩) := by
      decide +kernel
    rw [fst_transferMessageHandles hcapture]
    simp only [materializeMessageHandles, hheader, nil_append, allocateHandles,
      insertObject_first]
    rfl
  refine ⟨⟨_, _, Prod.ext hfails rfl, ?_⟩, ?_⟩
  · exact handle_transfer_conserves sendingThread copyAndMove true (.withCapacityLimit 1)
      (Prod.ext hfails rfl)
  · have htransfer := handle_transfer_conserves sendingThread moveFirst true
      (.withCapacityLimit 1) (Prod.ext hworks rfl)
    obtain ⟨hplain, -⟩ | ⟨header, copied, moved, handles, -, htransfers, -⟩ := htransfer
    · have hheader : (decodeTransportHeader moveFirst).toOption.join.isSome = true := by
        decide +kernel
      rw [hplain] at hheader
      cases hheader
    · exact ⟨_, _, _, header, copied, moved, handles, Prod.ext hworks rfl, htransfers⟩

end

end Nixe.Horizon
