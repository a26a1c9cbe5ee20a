import Mathlib.Data.List.Basic
import Mathlib.Logic.Function.Basic

/-!
# Partial maps from a range of slots

`PartialMap lo hi α` is a partial map whose domain lies in the slots `lo` to `hi - 1`, the
abstract form of a fixed array of slots with a free mark. `leastFree` is the slot a
first-fit search finds; `put`, `erase` and `modify` change one slot.
-/

structure PartialMap (lo hi : Nat) (α : Type) where
  get : Nat → Option α
  bounded : ∀ i, get i ≠ none → lo ≤ i ∧ i < hi

namespace PartialMap

variable {lo hi : Nat} {α : Type}

def empty : PartialMap lo hi α where
  get _ := none
  bounded _ h := absurd rfl h

/-- The least slot of the range outside the domain. -/
def leastFree (t : PartialMap lo hi α) : Option Nat :=
  (List.range' lo (hi - lo)).find? fun i => (t.get i).isNone

/-- Map a slot of the range; a slot outside the range is left alone. -/
def put (t : PartialMap lo hi α) (i : Nat) (a : α) : PartialMap lo hi α where
  get := if lo ≤ i ∧ i < hi then Function.update t.get i (some a) else t.get
  bounded j h := by
    split at h
    next hi =>
      by_cases hj : j = i
      · exact hj ▸ hi
      · rw [Function.update_of_ne hj] at h
        exact t.bounded j h
    next => exact t.bounded j h

def erase (t : PartialMap lo hi α) (i : Nat) : PartialMap lo hi α where
  get := Function.update t.get i none
  bounded j h := by
    by_cases hj : j = i
    · subst hj
      simp at h
    · rw [Function.update_of_ne hj] at h
      exact t.bounded j h

/-- Change the value of a slot of the domain. -/
def modify (t : PartialMap lo hi α) (i : Nat) (f : α → α) : PartialMap lo hi α where
  get := Function.update t.get i ((t.get i).map f)
  bounded j h := by
    by_cases hj : j = i
    · subst hj
      simp only [Function.update_self, ne_eq, Option.map_eq_none_iff] at h
      exact t.bounded j h
    · rw [Function.update_of_ne hj] at h
      exact t.bounded j h

theorem get_put {t : PartialMap lo hi α} {i : Nat} (h0 : lo ≤ i) (h1 : i < hi) (a : α) (j : Nat) :
    (t.put i a).get j = if j = i then some a else t.get j := by
  simp only [put, if_pos (And.intro h0 h1), Function.update_apply]

theorem get_erase (t : PartialMap lo hi α) (i j : Nat) :
    (t.erase i).get j = if j = i then none else t.get j := by
  simp only [erase, Function.update_apply]

theorem get_modify (t : PartialMap lo hi α) (i : Nat) (f : α → α) (j : Nat) :
    (t.modify i f).get j = if j = i then (t.get i).map f else t.get j := by
  simp only [modify, Function.update_apply]

theorem leastFree_bounds {t : PartialMap lo hi α} {i : Nat} (h : t.leastFree = some i) :
    lo ≤ i ∧ i < hi := by
  have hmem := List.mem_of_find?_eq_some h
  rw [List.mem_range'_1] at hmem
  omega

/-- A first-fit search over marks that say which slots are free finds `leastFree`. -/
theorem find_eq_leastFree {t : PartialMap lo hi α} {free : Nat → Bool}
    (h : ∀ i, lo ≤ i → i < hi → (free i = true ↔ t.get i = none)) :
    (List.range' lo (hi - lo)).find? free = t.leastFree := by
  unfold leastFree
  rw [← List.head?_filter, ← List.head?_filter]
  congr 1
  apply List.filter_congr
  intro i hmem
  rw [List.mem_range'_1] at hmem
  rw [Bool.eq_iff_iff, h i (by omega) (by omega), Option.isNone_iff_eq_none]

end PartialMap
