import Std.Data.ExtTreeMap
import Mathlib

/-!
# Counting the entries of a map

`tally t p` is the number of entries of `t` whose value satisfies `p`. A counter that is kept beside
the map agrees with it if it follows the three equations here: nothing is counted in the empty map,
a new key counts by its value, and so does a key that is removed.
-/

namespace Nixe

open Std ExtTreeMap Option

variable {α β : Type} {cmp : α → α → Ordering} [TransCmp cmp]
  {t : ExtTreeMap α β cmp} {p : β → Bool} {k : α} {v : β}

/-- The number of entries of the map whose value satisfies `p`. -/
def tally (t : ExtTreeMap α β cmp) (p : β → Bool) : Nat := (t.filter fun _ v ↦ p v).size

theorem getElem?_filter_value (k : α) : (t.filter fun _ v ↦ p v)[k]? = t[k]?.filter p := by
  rw [ExtTreeMap.getElem?_filter, pfilter_eq_filter]

theorem tally_pos_iff : 0 < tally t p ↔ ∃ (k : α) (v : β), t[k]? = some v ∧ p v = true := by
  rw [tally, Nat.pos_iff_ne_zero, Ne, ← eq_empty_iff_size_eq_zero,
    eq_empty_iff_forall_not_mem, not_forall]
  refine exists_congr fun k ↦ ?_
  rw [not_not, mem_iff_isSome_getElem?, getElem?_filter_value, isSome_iff_exists]
  refine exists_congr fun v ↦ ?_
  rw [filter_eq_some_iff]

variable [LawfulEqCmp cmp]

theorem tally_insert (h : t[k]? = none) : tally (t.insert k v) p = tally t p + (p v).toNat := by
  cases hp : p v with
  | true =>
    have hfilter : (t.insert k v).filter (fun _ v ↦ p v) = (t.filter fun _ v ↦ p v).insert k v := by
      refine ext_getElem? fun a ↦ ?_
      rw [getElem?_filter_value, ExtTreeMap.getElem?_insert, ExtTreeMap.getElem?_insert,
        getElem?_filter_value]
      split
      · rw [filter_some, if_pos hp]
      · rfl
    rw [tally, hfilter, size_insert, contains_eq_isSome_getElem?,
      getElem?_filter_value, h]
    rfl
  | false =>
    have hfilter : (t.insert k v).filter (fun _ v ↦ p v) = t.filter fun _ v ↦ p v := by
      refine ext_getElem? fun a ↦ ?_
      rw [getElem?_filter_value, ExtTreeMap.getElem?_insert, getElem?_filter_value]
      split
      · rename_i hk
        rw [filter_some, if_neg (by rw [hp]; exact Bool.false_ne_true),
          ← LawfulEqCmp.eq_of_compare hk, h, filter_none]
      · rfl
    rw [tally, hfilter]
    rfl

theorem tally_erase (h : t[k]? = some v) : tally (t.erase k) p + (p v).toNat = tally t p := by
  -- the removed key is a new one for the rest of the map
  have hinsert : (t.erase k).insert k v = t := by
    refine ext_getElem? fun a ↦ ?_
    rw [ExtTreeMap.getElem?_insert, ExtTreeMap.getElem?_erase]
    split
    · rename_i hk
      rw [← LawfulEqCmp.eq_of_compare hk, h]
    · rfl
  conv_rhs => rw [← hinsert]
  exact (tally_insert ExtTreeMap.getElem?_erase_self).symm

end Nixe
