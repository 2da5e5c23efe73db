import Nixe.Collections.Ordered

/-!
# Tables of intervals

An address space is kept as an ordered map of records, each of which occupies an interval and is
stored under the start of it. The table stands for the set of its records (`records`), and the
intervals of a table that is in order (`ExtentTable`) are nonempty and disjoint, so that an address
is in at most one of them (`recordAt`).

Such tables are edited by *splicing*: a record is taken out and pieces of it are put back. What a
loop of splices does to the set of records is the main result, `ExtentTable.foldlM_splice`: every
record that the loop visits is replaced by its pieces and the others stay.
-/

namespace Nixe

open Std ExtTreeMap List

variable {α : Type}

/-- The records of a table, in the order of their keys. -/
def records (t : ExtTreeMap Nat α) : List α := t.toList.map Prod.snd

theorem mem_records_iff {t : ExtTreeMap Nat α} {x : α} :
    x ∈ records t ↔ ∃ k : Nat, t[k]? = some x := by
  simp [records]

theorem mem_records {t : ExtTreeMap Nat α} {k : Nat} {x : α} (h : t[k]? = some x) :
    x ∈ records t := mem_records_iff.mpr ⟨k, h⟩

@[simp] theorem records_empty : records (∅ : ExtTreeMap Nat α) = [] := by
  rw [records, toList_eq_nil_iff.mpr rfl, map_nil]

variable {lo hi : α → Nat} {t : ExtTreeMap Nat α} {x y : α} {k a : Nat}

/-- The intervals of the two records have no address in common. -/
def Apart (lo hi : α → Nat) (x y : α) : Prop := hi x ≤ lo y ∨ hi y ≤ lo x

theorem Apart.symm (h : Apart lo hi x y) : Apart lo hi y x := Or.symm h

/-- The address `a` is in the interval of the record. -/
def Occupies (lo hi : α → Nat) (a : Nat) (x : α) : Prop := lo x ≤ a ∧ a < hi x

instance (a : Nat) (x : α) : Decidable (Occupies lo hi a x) := inferInstanceAs (Decidable (_ ∧ _))

/-- Every record is stored under its start, and the intervals are nonempty and disjoint. -/
structure ExtentTable (lo hi : α → Nat) (t : ExtTreeMap Nat α) : Prop where
  keyed : ∀ (k : Nat) (x : α), t[k]? = some x → lo x = k
  nonempty : ∀ x ∈ records t, lo x < hi x
  apart : ∀ x ∈ records t, ∀ y ∈ records t, x ≠ y → Apart lo hi x y

/-- The record whose interval the address is in. -/
def recordAt (lo hi : α → Nat) (t : ExtTreeMap Nat α) (a : Nat) : Option α :=
  (records t).find? fun x ↦ Occupies lo hi a x

namespace ExtentTable

theorem empty : ExtentTable lo hi (∅ : ExtTreeMap Nat α) where
  keyed k x h := by simp at h
  nonempty x h := by simp at h
  apart x h := by simp at h

section

variable (h : ExtentTable lo hi t)

include h

theorem getElem?_eq_some_iff : t[k]? = some x ↔ x ∈ records t ∧ lo x = k := by
  constructor
  · intro hx
    exact ⟨mem_records hx, h.keyed k x hx⟩
  · rintro ⟨hx, rfl⟩
    obtain ⟨k, hk⟩ := mem_records_iff.mp hx
    rwa [h.keyed k x hk]

/-- An address is in the interval of at most one record. -/
theorem eq_of_occupies (hx : x ∈ records t) (hy : y ∈ records t) (hxa : Occupies lo hi a x)
    (hya : Occupies lo hi a y) : x = y := by
  by_contra hne
  obtain ⟨h₁, h₂⟩ := hxa
  obtain ⟨h₃, h₄⟩ := hya
  rcases h.apart x hx y hy hne with hap | hap <;> omega

theorem occupies_self (hx : x ∈ records t) : Occupies lo hi (lo x) x :=
  ⟨le_rfl, h.nonempty x hx⟩

theorem eq_of_lo_eq (hx : x ∈ records t) (hy : y ∈ records t) (hlo : lo x = lo y) : x = y :=
  h.eq_of_occupies hx hy (h.occupies_self hx) (hlo ▸ h.occupies_self hy)

/-- A table that only loses records stays in order. -/
theorem of_subset {u : ExtTreeMap Nat α}
    (hsub : ∀ (k : Nat) (x : α), u[k]? = some x → t[k]? = some x) : ExtentTable lo hi u := by
  have hmem : ∀ x ∈ records u, x ∈ records t := by
    intro x hx
    obtain ⟨k, hk⟩ := mem_records_iff.mp hx
    exact mem_records (hsub k x hk)
  exact ⟨fun k x hk ↦ h.keyed k x (hsub k x hk), fun x hx ↦ h.nonempty x (hmem x hx),
    fun x hx y hy ↦ h.apart x (hmem x hx) y (hmem y hy)⟩

/-! ## Lookup -/

theorem recordAt_eq_some_iff :
    recordAt lo hi t a = some x ↔ x ∈ records t ∧ Occupies lo hi a x := by
  constructor
  · intro hx
    exact ⟨mem_of_find?_eq_some hx, by simpa using List.find?_some hx⟩
  · rintro ⟨hx, hxa⟩
    cases hfind : recordAt lo hi t a with
    | none => exact absurd hxa (by simpa using List.find?_eq_none.mp hfind x hx)
    | some y =>
      have hya : Occupies lo hi a y := by simpa using List.find?_some hfind
      rw [h.eq_of_occupies (mem_of_find?_eq_some hfind) hx hya hxa]

end

theorem recordAt_eq_none_iff :
    recordAt lo hi t a = none ↔ ∀ x ∈ records t, ¬Occupies lo hi a x := by
  simp [recordAt]

/-! ## Erasing and inserting -/

section

variable (h : ExtentTable lo hi t)

include h

theorem mem_records_erase_iff : x ∈ records (t.erase k) ↔ x ∈ records t ∧ lo x ≠ k := by
  simp only [mem_records_iff, getElem?_erase_eq_some_iff]
  constructor
  · rintro ⟨j, hne, hj⟩
    exact ⟨⟨j, hj⟩, by rwa [h.keyed j x hj]⟩
  · rintro ⟨⟨j, hj⟩, hne⟩
    exact ⟨j, by rwa [h.keyed j x hj] at hne, hj⟩

theorem erase (k : Nat) : ExtentTable lo hi (t.erase k) :=
  h.of_subset fun _ _ hx ↦ (getElem?_erase_eq_some_iff.mp hx).2

/-- Erase the records with the given keys. -/
theorem mem_records_foldl_erase_iff (ks : List Nat) :
    ExtentTable lo hi (ks.foldl ExtTreeMap.erase t) ∧
      ∀ x, x ∈ records (ks.foldl ExtTreeMap.erase t) ↔ x ∈ records t ∧ lo x ∉ ks := by
  induction ks generalizing t with
  | nil => exact ⟨h, fun x ↦ by simp⟩
  | cons k ks ih =>
    obtain ⟨hks, hmem⟩ := ih (h.erase k)
    refine ⟨hks, fun x ↦ ?_⟩
    rw [foldl_cons, hmem, h.mem_records_erase_iff, mem_cons, not_or, and_assoc]

/-- A record that is apart from the others has a key of its own. -/
theorem getElem?_eq_none (hx : lo x < hi x) (hap : ∀ y ∈ records t, Apart lo hi x y) :
    t[lo x]? = none := by
  cases hy : t[lo x]? with
  | none => rfl
  | some y =>
    have hlo := h.keyed _ y hy
    have hlt := h.nonempty y (mem_records hy)
    rcases hap y (mem_records hy) with h | h <;> omega

theorem mem_records_insert_iff (hx : lo x < hi x) (hap : ∀ y ∈ records t, Apart lo hi x y) :
    y ∈ records (t.insert (lo x) x) ↔ y = x ∨ y ∈ records t := by
  simp only [mem_records_iff, getElem?_insert_eq_some_iff]
  constructor
  · rintro ⟨k, ⟨-, hy⟩ | ⟨-, hy⟩⟩
    · exact .inl hy
    · exact .inr ⟨k, hy⟩
  · rintro (rfl | ⟨k, hy⟩)
    · exact ⟨lo y, .inl ⟨rfl, rfl⟩⟩
    · refine ⟨k, .inr ⟨?_, hy⟩⟩
      rintro rfl
      rw [h.getElem?_eq_none hx hap] at hy
      exact nomatch hy

theorem insert (hx : lo x < hi x) (hap : ∀ y ∈ records t, Apart lo hi x y) :
    ExtentTable lo hi (t.insert (lo x) x) where
  keyed k y hy := by
    rcases getElem?_insert_eq_some_iff.mp hy with ⟨rfl, rfl⟩ | ⟨-, hy⟩
    · rfl
    · exact h.keyed k y hy
  nonempty y hy := by
    rcases (h.mem_records_insert_iff hx hap).mp hy with rfl | hy
    · exact hx
    · exact h.nonempty y hy
  apart y hy z hz hne := by
    rcases (h.mem_records_insert_iff hx hap).mp hy with rfl | hy
    · exact hap z (((h.mem_records_insert_iff hx hap).mp hz).resolve_left hne.symm)
    · rcases (h.mem_records_insert_iff hx hap).mp hz with rfl | hz
      · exact (hap y ‹_›).symm
      · exact h.apart y ‹_› z hz hne

end

end ExtentTable

/-! ## Splicing -/

/-- Insert the records, one after another. -/
def insertAll (lo : α → Nat) (t : ExtTreeMap Nat α) (xs : List α) : ExtTreeMap Nat α :=
  xs.foldl (fun t x ↦ t.insert (lo x) x) t

/-- Take out the record `x` and put back the pieces. -/
def splice (lo : α → Nat) (t : ExtTreeMap Nat α) (x : α) (pieces : List α) : ExtTreeMap Nat α :=
  insertAll lo (t.erase (lo x)) pieces

/-- The pieces are disjoint parts of the interval of `x`. -/
structure Pieces (lo hi : α → Nat) (x : α) (pieces : List α) : Prop where
  within : ∀ p ∈ pieces, lo x ≤ lo p ∧ lo p < hi p ∧ hi p ≤ hi x
  apart : pieces.Pairwise (Apart lo hi)

namespace ExtentTable

theorem insertAll {xs : List α} (h : ExtentTable lo hi t) (hpos : ∀ x ∈ xs, lo x < hi x)
    (hxs : xs.Pairwise (Apart lo hi)) (hap : ∀ x ∈ xs, ∀ y ∈ records t, Apart lo hi x y) :
    ExtentTable lo hi (insertAll lo t xs) ∧
      ∀ y, y ∈ records (Nixe.insertAll lo t xs) ↔ y ∈ xs ∨ y ∈ records t := by
  induction xs generalizing t with
  | nil => exact ⟨h, fun y ↦ by simp [Nixe.insertAll]⟩
  | cons x xs ih =>
    obtain ⟨hx, hpos⟩ := forall_mem_cons.mp hpos
    obtain ⟨hxap, hap⟩ := forall_mem_cons.mp hap
    obtain ⟨hxxs, hxs⟩ := pairwise_cons.mp hxs
    have hmem := fun y ↦ h.mem_records_insert_iff (y := y) hx hxap
    obtain ⟨hin, hrec⟩ := ih (h.insert hx hxap) hpos hxs (by
      intro z hz y hy
      rcases (hmem y).mp hy with rfl | hy
      · exact (hxxs z hz).symm
      · exact hap z hz y hy)
    refine ⟨hin, fun y ↦ ?_⟩
    rw [Nixe.insertAll, foldl_cons, ← Nixe.insertAll, hrec, hmem, mem_cons]
    tauto

theorem splice {pieces : List α} (h : ExtentTable lo hi t) (hx : x ∈ records t)
    (hp : Pieces lo hi x pieces) :
    ExtentTable lo hi (splice lo t x pieces) ∧
      ∀ y, y ∈ records (Nixe.splice lo t x pieces) ↔ y ∈ pieces ∨ y ∈ records t ∧ y ≠ x := by
  have hmem : ∀ y, y ∈ records (t.erase (lo x)) ↔ y ∈ records t ∧ y ≠ x := by
    intro y
    rw [h.mem_records_erase_iff]
    refine and_congr_right fun hy ↦ not_congr ⟨fun hlo ↦ h.eq_of_lo_eq hy hx hlo, fun he ↦ he ▸ rfl⟩
  obtain ⟨hin, hrec⟩ := (h.erase (lo x)).insertAll (fun p hpm ↦ (hp.within p hpm).2.1) hp.apart (by
    intro p hpm y hy
    obtain ⟨hy, hne⟩ := (hmem y).mp hy
    obtain ⟨h₁, h₂, h₃⟩ := hp.within p hpm
    rcases h.apart x hx y hy hne.symm with hap | hap
    · exact .inl (h₃.trans hap)
    · exact .inr (hap.trans h₁))
  refine ⟨hin, fun y ↦ ?_⟩
  rw [Nixe.splice, hrec, hmem]

/-- **A loop of splices.** Every record that the loop visits is replaced by its pieces. -/
theorem foldlM_splice {ε : Type} (step : ExtTreeMap Nat α → Nat → Except ε (ExtTreeMap Nat α))
    (pieces : α → List α) {P : α → Prop}
    (hstep : ∀ (t : ExtTreeMap Nat α) (x : α), t[lo x]? = some x → P x →
      step t (lo x) = .ok (Nixe.splice lo t x (pieces x)))
    (hpieces : ∀ x, P x → Pieces lo hi x (pieces x)) {ks : List Nat} (hks : ks.Nodup)
    (h : ExtentTable lo hi t) (hvisit : ∀ k ∈ ks, ∃ x ∈ records t, lo x = k ∧ P x) :
    ∃ u, ks.foldlM step t = Except.ok u ∧ ExtentTable lo hi u ∧
      ∀ y, y ∈ records u ↔
        (y ∈ records t ∧ lo y ∉ ks) ∨ ∃ x ∈ records t, lo x ∈ ks ∧ y ∈ pieces x := by
  induction ks generalizing t with
  | nil => exact ⟨t, rfl, h, fun y ↦ by simp⟩
  | cons k ks ih =>
    obtain ⟨hk, hrest⟩ := nodup_cons.mp hks
    obtain ⟨x, hx, rfl, hP⟩ := hvisit k mem_cons_self
    obtain ⟨hin, hmem⟩ := h.splice hx (hpieces x hP)
    -- The records that are still to be visited are untouched.
    obtain ⟨u, hu, hut, hrec⟩ := ih hrest hin (by
      intro k' hk'
      obtain ⟨y, hy, rfl, hPy⟩ := hvisit k' (mem_cons_of_mem _ hk')
      refine ⟨y, (hmem y).mpr (.inr ⟨hy, ?_⟩), rfl, hPy⟩
      rintro rfl
      exact hk hk')
    refine ⟨u, ?_, hut, fun y ↦ ?_⟩
    · rw [foldlM_cons, hstep t x (h.getElem?_eq_some_iff.mpr ⟨hx, rfl⟩) hP]
      exact hu
    -- A piece of `x` has a key of its own: the records of the other keys are elsewhere.
    have hfresh : ∀ p ∈ pieces x, lo p ∉ ks := by
      intro p hp hpk
      obtain ⟨z, hz, hlo, -⟩ := hvisit _ (mem_cons_of_mem _ hpk)
      obtain ⟨h₁, h₂, h₃⟩ := (hpieces x hP).within p hp
      have hzx : z = x := h.eq_of_occupies hz hx (h.occupies_self hz) ⟨by omega, by omega⟩
      rw [hzx] at hlo
      exact hk (hlo ▸ hpk)
    rw [hrec]
    constructor
    · rintro (⟨hy, hyk⟩ | ⟨z, hz, hzk, hy⟩)
      · rcases (hmem y).mp hy with hy | ⟨hy, hne⟩
        · exact .inr ⟨x, hx, mem_cons_self, hy⟩
        · refine .inl ⟨hy, fun hyk' ↦ ?_⟩
          rcases mem_cons.mp hyk' with hlo | hyk'
          · exact hne (h.eq_of_lo_eq hy hx hlo)
          · exact hyk hyk'
      · rcases (hmem z).mp hz with hzp | ⟨hz, -⟩
        · exact absurd hzk (hfresh z hzp)
        · exact .inr ⟨z, hz, mem_cons_of_mem _ hzk, hy⟩
    · rintro (⟨hy, hyk⟩ | ⟨z, hz, hzk, hy⟩)
      · rw [mem_cons, not_or] at hyk
        refine .inl ⟨(hmem y).mpr (.inr ⟨hy, ?_⟩), hyk.2⟩
        rintro rfl
        exact hyk.1 rfl
      · rcases mem_cons.mp hzk with hlo | hzk'
        · have hzx := h.eq_of_lo_eq hz hx hlo
          rw [hzx] at hy
          exact .inl ⟨(hmem y).mpr (.inl hy), hfresh y hy⟩
        · refine .inr ⟨z, (hmem z).mpr (.inr ⟨hz, ?_⟩), hzk', hy⟩
          rintro rfl
          exact hk hzk'

end ExtentTable

/-! ## The keys that a loop visits -/

/-- The keys of the records that satisfy `p`, in order. -/
def keysWhere (t : ExtTreeMap Nat α) (p : α → Bool) : List Nat :=
  (t.toList.filter fun e ↦ p e.2).map Prod.fst

theorem nodup_keysWhere (t : ExtTreeMap Nat α) (p : α → Bool) : (keysWhere t p).Nodup := by
  rw [keysWhere, List.Nodup, pairwise_map]
  refine (t.distinct_keys_toList.filter _).imp fun hne heq ↦ ?_
  exact hne (Std.compare_eq_iff_eq.mpr heq)

variable {p : α → Bool}

theorem mem_keysWhere_iff : k ∈ keysWhere t p ↔ ∃ x, t[k]? = some x ∧ p x = true := by
  simp [keysWhere]

theorem ExtentTable.mem_keysWhere_iff (h : ExtentTable lo hi t) :
    k ∈ keysWhere t p ↔ ∃ x ∈ records t, lo x = k ∧ p x = true := by
  simp only [Nixe.mem_keysWhere_iff, h.getElem?_eq_some_iff, and_assoc]

theorem ExtentTable.lo_mem_keysWhere_iff (h : ExtentTable lo hi t) (hx : x ∈ records t) :
    lo x ∈ keysWhere t p ↔ p x = true := by
  rw [h.mem_keysWhere_iff]
  constructor
  · rintro ⟨y, hy, hlo, hp⟩
    rwa [← h.eq_of_lo_eq hy hx hlo]
  · intro hp
    exact ⟨x, hx, rfl, hp⟩

/-! ## The last record that starts at or before an address -/

/-- `t.range(..=a).next_back()`. -/
def lastUpTo (t : ExtTreeMap Nat α) (a : Nat) : Option α :=
  (t.toList.filter fun e ↦ decide (e.1 ≤ a)).getLast?.map Prod.snd

/-- The last element of an increasing list is its greatest. -/
theorem le_of_getLast?_eq_some {l : List (Nat × α)}
    (hl : l.Pairwise fun a b ↦ compare a.1 b.1 = .lt) {e : Nat × α} (h : l.getLast? = some e) :
    e ∈ l ∧ ∀ f ∈ l, f.1 ≤ e.1 := by
  obtain ⟨l', rfl⟩ := List.getLast?_eq_some_iff.mp h
  refine ⟨mem_append_right _ mem_cons_self, fun f hf ↦ ?_⟩
  rcases mem_append.mp hf with hf | hf
  · have hlt := (pairwise_append.mp hl).2.2 f hf e mem_cons_self
    exact (Nat.compare_eq_lt.mp hlt).le
  · rw [mem_singleton.mp hf]

theorem mem_records_of_lastUpTo (h : lastUpTo t a = some x) : x ∈ records t := by
  obtain ⟨e, he, rfl⟩ := Option.map_eq_some_iff.mp h
  exact mem_map_of_mem (mem_of_mem_filter (mem_of_getLast? he))

/-- It is the only record that can have the address. -/
theorem ExtentTable.lastUpTo_filter_eq_some_iff (h : ExtentTable lo hi t) :
    (lastUpTo t a).filter (fun x ↦ decide (a < hi x)) = some x ↔
      x ∈ records t ∧ Occupies lo hi a x := by
  have hsorted := t.ordered_keys_toList.filter fun e ↦ decide (e.1 ≤ a)
  rw [Option.filter_eq_some_iff, lastUpTo, Option.map_eq_some_iff]
  constructor
  · rintro ⟨⟨⟨k, y⟩, hlast, rfl⟩, hy⟩
    have hmem := (le_of_getLast?_eq_some hsorted hlast).1
    rw [mem_filter, mem_toList_iff_getElem?_eq_some] at hmem
    refine ⟨mem_records hmem.1, ?_, of_decide_eq_true hy⟩
    rw [h.keyed k y hmem.1]
    exact of_decide_eq_true hmem.2
  · rintro ⟨hx, hlo, hhi⟩
    refine ⟨?_, decide_eq_true hhi⟩
    have hxmem : (lo x, x) ∈ t.toList.filter fun e ↦ decide (e.1 ≤ a) := by
      rw [mem_filter, mem_toList_iff_getElem?_eq_some]
      exact ⟨h.getElem?_eq_some_iff.mpr ⟨hx, rfl⟩, decide_eq_true hlo⟩
    cases hlast : (t.toList.filter fun e ↦ decide (e.1 ≤ a)).getLast? with
    | none =>
      rw [List.getLast?_eq_none_iff.mp hlast] at hxmem
      exact nomatch hxmem
    | some e =>
      obtain ⟨he, hmax⟩ := le_of_getLast?_eq_some hsorted hlast
      rw [mem_filter, mem_toList_iff_getElem?_eq_some] at he
      have hkey := h.keyed e.1 e.2 he.1
      have hle : lo x ≤ e.1 := hmax _ hxmem
      have hea : e.1 ≤ a := of_decide_eq_true he.2
      -- The interval of `x` reaches from its start beyond the start of the last record.
      have hex : e.2 = x := h.eq_of_occupies (mem_records he.1) hx
        (h.occupies_self (mem_records he.1)) ⟨hkey ▸ hle, by omega⟩
      exact ⟨e, rfl, hex⟩

end Nixe
