import Nixe.Runtime.Handle

/-!
# Allocation of handles

A table gives out a recycled number or one that was never used, and zero never. So a handle that is
given out was free, and as every free number below the counter is recycled, it is the least of the
free numbers.
-/

namespace Nixe.Runtime.HandleTable

open Std List Function Machine

/-- `with_capacity_limit` -/
def withCapacityLimit (capacityLimit : Nat) : HandleTable :=
  { new with capacityLimit }

/-- The tables that the methods of a table make; the event of the table may be cleared at any
time. -/
inductive Reachable : HandleTable → Prop
  | withCapacityLimit (limit : Nat) : Reachable (.withCapacityLimit limit)
  | insertObject {t t' : HandleTable} {object : HandleObject} {handle : Nat} (ht : Reachable t)
      (h : t.insertObject object = .ok (handle, t')) : Reachable t'
  | close {t t' : HandleTable} {object : HandleObject} {handle : Nat} (ht : Reachable t)
      (h : t.close handle = .ok (object, t')) : Reachable t'
  | event {t : HandleTable} (ht : Reachable t) (changed : Bool) : Reachable { t with changed }

/-- Numbers that can be given out are not in use. -/
structure Valid (t : HandleTable) : Prop where
  zero : t.get 0 = none
  recycled : ∀ h ∈ t.recycled, h ≠ 0 ∧ h < t.nextHandle ∧ t.get h = none
  next_ne_zero : t.nextHandle ≠ 0
  fresh : ∀ h, t.nextHandle ≤ h → t.get h = none

variable {t t' : HandleTable} {object : HandleObject} {handle : Nat}

theorem get_stored (h : Nat) :
    (t.stored handle object).get h = if h = handle then some object else t.get h := by
  rw [stored, get]
  split
  · subst h
    exact ExtTreeMap.getElem?_insert_self
  · exact getElem?_insert_of_ne ‹_›

/-- A handle that is given out was free. -/
structure Inserts (t : HandleTable) (object : HandleObject) (handle : Nat) (t' : HandleTable) :
    Prop where
  ne_zero : handle ≠ 0
  free : t.get handle = none
  get : ∀ h, t'.get h = if h = handle then some object else t.get h
  valid : t'.Valid

theorem insertObject_eq_ok (h : t.insertObject object = .ok (handle, t')) :
    ¬t.capacityLimit ≤ t.objects.size ∧
      (t.recycled.min? = some handle ∧
          t' = { t with recycled := t.recycled.erase handle }.stored handle object ∨
        t.recycled = ∅ ∧ handle = t.nextHandle ∧ handle ≤ lastHandle ∧
          t' = { t with nextHandle := handle + 1 }.stored handle object) := by
  rw [HandleTable.insertObject] at h
  split at h
  · cases h
  · refine ⟨‹_›, ?_⟩
    split at h
    · cases h
      exact .inl ⟨‹_›, rfl⟩
    · split at h
      · cases h
      · cases h
        have hnext : min (t.nextHandle + 1) (2 ^ 32 - 1) = t.nextHandle + 1 := by
          rw [lastHandle] at *
          omega
        exact .inr ⟨ExtTreeSet.min?_eq_none_iff.mp ‹_›, rfl, Nat.le_of_not_lt ‹_›, by rw [hnext]⟩

theorem Valid.insertObject (ht : t.Valid) (h : t.insertObject object = .ok (handle, t')) :
    t.Inserts object handle t' := by
  obtain ⟨-, ⟨hmin, rfl⟩ | ⟨-, rfl, -, rfl⟩⟩ := insertObject_eq_ok h
  · obtain ⟨hne, hlt, hfree⟩ := ht.recycled handle (ExtTreeSet.min?_mem hmin)
    refine ⟨hne, hfree, get_stored, ?_, fun h hh ↦ ?_, ht.next_ne_zero, fun h hle ↦ ?_⟩
    · rw [get_stored, if_neg hne.symm]
      exact ht.zero
    · obtain ⟨hother, hmem⟩ := mem_erase_iff.mp hh
      rw [get_stored, if_neg hother]
      exact ht.recycled h hmem
    · rw [get_stored, if_neg (Nat.ne_of_gt (Nat.lt_of_lt_of_le hlt hle))]
      exact ht.fresh h hle
  · refine ⟨ht.next_ne_zero, ht.fresh _ (Nat.le_refl _), get_stored, ?_, fun h hh ↦ ?_,
      Nat.succ_ne_zero _, fun h hle ↦ ?_⟩
    · rw [get_stored, if_neg ht.next_ne_zero.symm]
      exact ht.zero
    · obtain ⟨hne, hlt, hfree⟩ := ht.recycled h hh
      rw [get_stored, if_neg (Nat.ne_of_lt hlt)]
      exact ⟨hne, Nat.lt_succ_of_lt hlt, hfree⟩
    · rw [get_stored, if_neg (Nat.ne_of_gt hle)]
      exact ht.fresh h (Nat.le_of_succ_le hle)

theorem close_eq_ok (h : t.close handle = .ok (object, t')) :
    t.get handle = some object ∧ t'.recycled = t.recycled.insert handle ∧
      t'.nextHandle = t.nextHandle ∧ ∀ h, t'.get h = if h = handle then none else t.get h := by
  rw [HandleTable.close] at h
  split at h
  · cases h
  · rename_i hget
    cases h
    refine ⟨hget, rfl, rfl, fun h ↦ ?_⟩
    rw [get, get]
    split
    · subst h
      exact ExtTreeMap.getElem?_erase_self
    · exact getElem?_erase_of_ne ‹_›

theorem close_eq_error {e : HandleError} (h : t.close handle = .error e) :
    e = .invalidHandle handle ∧ t.get handle = none := by
  rw [HandleTable.close] at h
  split at h
  · cases h
    exact ⟨rfl, ‹_›⟩
  · cases h

theorem Valid.close (ht : t.Valid) (h : t.close handle = .ok (object, t')) : t'.Valid := by
  obtain ⟨hget, hrecycled, hnext, hget'⟩ := close_eq_ok h
  have hfree {h : Nat} (hh : t.get h = none) : t'.get h = none := by
    rw [hget', hh, ite_self]
  refine ⟨hfree ht.zero, fun h hh ↦ ?_, hnext ▸ ht.next_ne_zero,
    fun h hle ↦ hfree (ht.fresh h (hnext ▸ hle))⟩
  rw [hrecycled, mem_insert_iff] at hh
  rw [hnext]
  obtain rfl | hh := hh
  · refine ⟨?_, Nat.lt_of_not_le fun hle ↦ ?_, by rw [hget', if_pos rfl]⟩
    · rintro rfl
      cases ht.zero.symm.trans hget
    · cases (ht.fresh _ hle).symm.trans hget
  · obtain ⟨hne, hlt, hnone⟩ := ht.recycled h hh
    exact ⟨hne, hlt, hfree hnone⟩

theorem Reachable.valid (ht : Reachable t) : t.Valid := by
  induction ht with
  | withCapacityLimit limit =>
    have hnone (h : Nat) : (HandleTable.withCapacityLimit limit).get h = none :=
      ExtTreeMap.getElem?_empty
    exact ⟨hnone 0, fun h hh ↦ absurd hh ExtTreeSet.not_mem_empty, Nat.one_ne_zero,
      fun h _ ↦ hnone h⟩
  | insertObject _ h ih => exact (ih.insertObject h).valid
  | close _ h ih => exact ih.close h
  | event _ _ ih => exact ⟨ih.zero, ih.recycled, ih.next_ne_zero, ih.fresh⟩

/-! ## Allocation

What a family of tables does is said without counters and recycled numbers: by the objects that are
`live` in it. -/

/-- No further object can be inserted. -/
def Exhausted (t : HandleTable) : Prop :=
  t.capacityLimit ≤ t.objects.size ∨ lastHandle < t.nextHandle ∧ t.recycled.isEmpty

instance (t : HandleTable) : Decidable t.Exhausted := inferInstanceAs (Decidable (_ ∨ _))

/-- `transfer_to`, with both tables; there is no answer where the source panics. -/
def transferTo (source destination : HandleTable) (handle : Nat) :
    Option (Except HandleError Nat × HandleTable × HandleTable) :=
  if source.get handle = none then some (.error (.invalidHandle handle), source, destination)
  else if destination.Exhausted then some (.error .exhausted, source, destination)
  else
    match source.close handle with
    | .error e => some (.error e, source, destination)
    | .ok (object, source) =>
      match destination.insertObject object with
      | .ok (inserted, destination) => some (.ok inserted, source, destination)
      | .error _ => none

/-- The numbers that the table may give out. -/
def free (t : HandleTable) : Set Nat := {h | firstHandle ≤ h ∧ h ≤ lastHandle ∧ t.get h = none}

/-- The table has all the objects that it may have, or no number is left. -/
def AtCapacity (t : HandleTable) : Prop := t.capacityLimit ≤ t.objects.size ∨ t.free = ∅

theorem mem_free_stored {h : Nat} (hfree : h ∈ (t.stored handle object).free) :
    h ≠ handle ∧ h ∈ t.free := by
  obtain ⟨hfirst, hlast, hget⟩ := hfree
  rw [get_stored] at hget
  split at hget
  · cases hget
  · exact ⟨‹_›, hfirst, hlast, hget⟩

/-- The free numbers below the counter are recycled. -/
theorem Reachable.mem_recycled (ht : Reachable t) : t.nextHandle ≤ lastHandle + 1 ∧
    ∀ h ∈ t.free, h < t.nextHandle → h ∈ t.recycled := by
  induction ht with
  | withCapacityLimit limit =>
    exact ⟨Nat.succ_le_succ (Nat.zero_le _), fun h hfree hlt ↦ absurd hlt hfree.1.not_gt⟩
  | insertObject _ h ih =>
    obtain ⟨-, ⟨-, rfl⟩ | ⟨-, rfl, hlast, rfl⟩⟩ := insertObject_eq_ok h
    · refine ⟨ih.1, fun h hfree hlt ↦ ?_⟩
      obtain ⟨hne, hfree⟩ := mem_free_stored hfree
      exact mem_erase_iff.mpr ⟨hne, ih.2 h hfree hlt⟩
    · refine ⟨Nat.succ_le_succ hlast, fun h hfree hlt ↦ ?_⟩
      obtain ⟨hne, hfree⟩ := mem_free_stored hfree
      exact ih.2 h hfree (Nat.lt_of_le_of_ne (Nat.le_of_lt_succ hlt) hne)
  | close _ h ih =>
    obtain ⟨-, hrecycled, hnext, hget'⟩ := close_eq_ok h
    rw [hrecycled, hnext]
    refine ⟨ih.1, fun h ⟨hfirst, hlast, hget⟩ hlt ↦ mem_insert_iff.mpr ?_⟩
    rw [hget'] at hget
    split at hget
    · exact .inl ‹_›
    · exact .inr (ih.2 h ⟨hfirst, hlast, hget⟩ hlt)
  | event _ _ ih => exact ih

/-- The least number that is free is given out. -/
theorem Reachable.isLeast_free (ht : Reachable t)
    (h : t.insertObject object = .ok (handle, t')) :
    ¬t.AtCapacity ∧ IsLeast t.free handle := by
  obtain ⟨hle, hrecycled⟩ := ht.mem_recycled
  obtain ⟨hcap, hcases⟩ := insertObject_eq_ok h
  have hleast : IsLeast t.free handle := by
    obtain ⟨hmin, -⟩ | ⟨hmin, rfl, hlast, -⟩ := hcases
    · obtain ⟨hmem, hmin⟩ := ExtTreeSet.min?_eq_some_iff_mem_and_forall.mp hmin
      obtain ⟨hne, hlt, hnone⟩ := ht.valid.recycled handle hmem
      refine ⟨⟨Nat.pos_of_ne_zero hne, by omega, hnone⟩, fun h hh ↦ ?_⟩
      obtain hlt' | hge := Nat.lt_or_ge h t.nextHandle
      · exact Nat.isLE_compare.mp (hmin h (hrecycled h hh hlt'))
      · omega
    · refine ⟨⟨Nat.pos_of_ne_zero ht.valid.next_ne_zero, hlast, ht.valid.fresh _ le_rfl⟩,
        fun h hh ↦ Nat.le_of_not_lt fun hlt ↦ ?_⟩
      exact ExtTreeSet.not_mem_empty (hmin ▸ hrecycled h hh hlt)
  exact ⟨fun hfull ↦ hfull.elim hcap fun hempty ↦ hempty.le hleast.1, hleast⟩

theorem Reachable.atCapacity (ht : Reachable t) (h : t.Exhausted) : t.AtCapacity := by
  refine h.imp_right fun ⟨hlast, hempty⟩ ↦ Set.eq_empty_of_forall_notMem fun h hh ↦ ?_
  have hmem := ht.mem_recycled.2 h hh (hh.2.1.trans_lt hlast)
  exact ExtTreeSet.not_mem_empty (ExtTreeSet.isEmpty_iff.mp hempty ▸ hmem)

theorem insertObject_eq_error {e : HandleError} (h : t.insertObject object = .error e) :
    e = .exhausted ∧ t.Exhausted := by
  rw [HandleTable.insertObject] at h
  split at h
  · cases h
    exact ⟨rfl, .inl ‹_›⟩
  · split at h
    · cases h
    · split at h
      · cases h
        exact ⟨rfl, .inr ⟨‹_›, ExtTreeSet.isEmpty_iff.mpr (ExtTreeSet.min?_eq_none_iff.mp ‹_›)⟩⟩
      · cases h

/-! ### Runs of several tables -/

/-- The calls of the tables `ι`. -/
inductive Call (ι : Type)
  | insert (i : ι) (object : HandleObject)
  | close (i : ι) (handle : Nat)
  | transferTo (i j : ι) (hne : i ≠ j) (handle : Nat)

variable {ι : Type} [DecidableEq ι]

/-- The answer is an object or a handle. -/
def tables : Machine (ι → HandleTable) (Call ι) (Except HandleError (HandleObject ⊕ Nat))
  | s, .insert i object =>
    match (s i).insertObject object with
    | .ok (handle, t) => some (.ok (.inr handle), update s i t)
    | .error e => some (.error e, s)
  | s, .close i handle =>
    match (s i).close handle with
    | .ok (object, t) => some (.ok (.inl object), update s i t)
    | .error e => some (.error e, s)
  | s, .transferTo i j _ handle =>
    ((s i).transferTo (s j) handle).map fun (answer, source, destination) ↦
      (answer.map .inr, update (update s i source) j destination)

/-- The objects that the handles of the tables stand for. -/
def live (s : ι → HandleTable) (name : ι × Nat) : Option HandleObject := (s name.1).get name.2

/-- What a call does, in terms of the objects that are live. -/
inductive Effect (s : ι → HandleTable) :
    Call ι → Except HandleError (HandleObject ⊕ Nat) → (ι → HandleTable) → Prop
  | insert {i object handle s'} (hroom : ¬(s i).AtCapacity) (hleast : IsLeast (s i).free handle)
      (hlive : live s' = update (live s) (i, handle) (some object)) :
      Effect s (.insert i object) (.ok (.inr handle)) s'
  | full {i object} (hfull : (s i).AtCapacity) : Effect s (.insert i object) (.error .exhausted) s
  | close {i handle object s'} (hobject : live s (i, handle) = some object)
      (hlive : live s' = update (live s) (i, handle) none) :
      Effect s (.close i handle) (.ok (.inl object)) s'
  | notLive {i handle} (hnone : live s (i, handle) = none) :
      Effect s (.close i handle) (.error (.invalidHandle handle)) s
  | transferTo {i j hne handle object inserted s'} (hobject : live s (i, handle) = some object)
      (hroom : ¬(s j).AtCapacity) (hleast : IsLeast (s j).free inserted)
      (hlive : live s' =
        update (update (live s) (i, handle) none) (j, inserted) (some object)) :
      Effect s (.transferTo i j hne handle) (.ok (.inr inserted)) s'
  | transferNotLive {i j hne handle} (hnone : live s (i, handle) = none) :
      Effect s (.transferTo i j hne handle) (.error (.invalidHandle handle)) s
  | transferFull {i j hne handle} (hfull : (s j).AtCapacity) :
      Effect s (.transferTo i j hne handle) (.error .exhausted) s

/-- The call takes the object with the name away. -/
def Call.Removes (name : ι × Nat) : Call ι → Prop
  | .insert .. => False
  | .close i handle | .transferTo i _ _ handle => (i, handle) = name

variable {s s' : ι → HandleTable} {call : Call ι}
  {answer : Except HandleError (HandleObject ⊕ Nat)} {name : ι × Nat}

theorem live_update {i : ι} {v : Option HandleObject}
    (h : ∀ h, t.get h = if h = handle then v else (s i).get h) :
    live (update s i t) = update (live s) (i, handle) v := by
  funext ⟨i', h'⟩
  obtain rfl | hne := eq_or_ne i' i
  · simp only [live, update_self, h, update_apply, Prod.mk.injEq, true_and]
  · rw [live, update_of_ne hne, update_of_ne (by simp [hne]), live]

theorem step_effect (hs : ∀ i, Reachable (s i)) (call : Call ι) : ∃ answer s',
    tables s call = some (answer, s') ∧ Effect s call answer s' ∧ ∀ i, Reachable (s' i) := by
  have hput {s : ι → HandleTable} {t : HandleTable} {i : ι} (hs : ∀ i, Reachable (s i))
      (ht : Reachable t) : ∀ i', Reachable (update s i t i') :=
    (forall_update_iff s fun _ ↦ Reachable).mpr ⟨ht, fun i' _ ↦ hs i'⟩
  cases call with
  | insert i object =>
    rw [tables]
    cases h : (s i).insertObject object with
    | ok r =>
      obtain ⟨hroom, hleast⟩ := (hs i).isLeast_free h
      exact ⟨_, _, rfl, .insert hroom hleast (live_update ((hs i).valid.insertObject h).get),
        hput hs (.insertObject (hs i) h)⟩
    | error e =>
      obtain ⟨rfl, hfull⟩ := insertObject_eq_error h
      exact ⟨_, _, rfl, .full ((hs i).atCapacity hfull), hs⟩
  | close i handle =>
    rw [tables]
    cases h : (s i).close handle with
    | ok r =>
      obtain ⟨hobject, -, -, hget⟩ := close_eq_ok h
      exact ⟨_, _, rfl, .close hobject (live_update hget), hput hs (.close (hs i) h)⟩
    | error e =>
      obtain ⟨rfl, hnone⟩ := close_eq_error h
      exact ⟨_, _, rfl, .notLive hnone, hs⟩
  | transferTo i j hne handle =>
    have hself : update (update s i (s i)) j (s j) = s := by
      rw [update_eq_self, update_eq_self]
    rw [tables, HandleTable.transferTo]
    split
    · exact ⟨_, s, by simp only [Option.map_some, hself]; rfl, .transferNotLive ‹_›, hs⟩
    · split
      · exact ⟨_, s, by simp only [Option.map_some, hself]; rfl,
          .transferFull ((hs j).atCapacity ‹_›), hs⟩
      · cases h : (s i).close handle with
        | error e => exact absurd (close_eq_error h).2 ‹_›
        | ok r =>
          cases h' : (s j).insertObject r.1 with
          | error e => exact absurd (insertObject_eq_error h').2 ‹_›
          | ok r' =>
            obtain ⟨hobject, -, -, hget⟩ := close_eq_ok h
            obtain ⟨hroom, hleast⟩ := (hs j).isLeast_free h'
            refine ⟨_, _, by simp only [h', Option.map_some]; rfl,
              .transferTo hobject hroom hleast ?_,
              hput (hput hs (.close (hs i) h)) (.insertObject (hs j) h')⟩
            rw [live_update, live_update hget]
            rw [update_of_ne hne.symm]
            exact ((hs j).valid.insertObject h').get

theorem Effect.live_eq (h : Effect s call answer s') (hlive : live s name = some object)
    (hkeep : ¬call.Removes name) : live s' name = some object := by
  have hfree {i handle} (hfree : handle ∈ (s i).free) : name ≠ (i, handle) := by
    rintro rfl
    cases hlive.symm.trans hfree.2.2
  cases h with
  | full | notLive | transferNotLive | transferFull => exact hlive
  | insert _ hleast h => rw [h, update_of_ne (hfree hleast.1), hlive]
  | close _ h => rw [h, update_of_ne (Ne.symm hkeep), hlive]
  | transferTo _ _ hleast h =>
    rw [h, update_of_ne (hfree hleast.1), update_of_ne (Ne.symm hkeep), hlive]

end Nixe.Runtime.HandleTable
