import Mathlib.Tactic.Common
import Std.Data.ExtTreeMap
import Std.Data.ExtTreeSet

/-!
# Heaps and ordered maps

A heap is the finite map from the addresses in use to the objects living there. `fresh` is the
address a new object gets: the one asked for, unless an object already lives there.

`transCmp_of_key` is what an ordered map asks of a comparator that orders its arguments by a key.
-/

open Std

/-- The objects alive, by address. -/
abbrev Heap (α : Type*) := ExtTreeMap Nat α

namespace Heap

variable {α : Type*}

/-- The address of a new object: `hint`, unless an object lives there. -/
def fresh (h : Heap α) (hint : Nat) : Nat :=
  if hint ∈ h then (h.keys.max?.getD 0) + 1 else hint

/-- The object at `p`; a dangling `p` reads as the default object. -/
def deref [Inhabited α] (h : Heap α) (p : Nat) : α := h.getD p default

theorem fresh_not_mem (h : Heap α) (hint : Nat) : h.fresh hint ∉ h := by
  unfold fresh
  split_ifs with hm
  · intro hk
    have hle : (h.keys.max?.getD 0) + 1 ≤ h.keys.max?.getD 0 :=
      List.le_max?_getD_of_mem (ExtTreeMap.mem_keys.2 hk)
    omega
  · exact hm

variable [Inhabited α]

@[simp]
theorem deref_insert (h : Heap α) (k : Nat) (v : α) (p : Nat) :
    deref (h.insert k v) p = if k = p then v else h.deref p := by
  simp [deref, ExtTreeMap.getD_insert]

@[simp]
theorem deref_erase (h : Heap α) (k p : Nat) :
    deref (h.erase k) p = if k = p then default else h.deref p := by
  simp [deref, ExtTreeMap.getD_erase]

@[simp]
theorem deref_modify (h : Heap α) (k : Nat) (f : α → α) (p : Nat) :
    deref (h.modify k f) p = if k = p ∧ p ∈ h then f (h.deref p) else h.deref p := by
  simp only [deref, ExtTreeMap.getD_eq_getD_getElem?, ExtTreeMap.getElem?_modify,
    Nat.compare_eq_eq]
  by_cases hm : p ∈ h
  · rw [ExtTreeMap.getElem?_eq_some_getElem hm]
    by_cases hk : k = p
    · simp [hk, hm]
    · simp [hk]
  · by_cases hk : k = p
    · subst hk
      simp [hm]
    · simp [hm, hk]

omit [Inhabited α] in
@[simp]
theorem mem_modify (h : Heap α) (k : Nat) (f : α → α) (p : Nat) : p ∈ h.modify k f ↔ p ∈ h :=
  ExtTreeMap.mem_modify

omit [Inhabited α] in
/-- An object that was just put there and then updated. -/
theorem modify_insert (h : Heap α) (k : Nat) (v : α) (f : α → α) :
    (h.insert k v).modify k f = h.insert k (f v) := by
  refine ExtTreeMap.ext_getElem? fun p => ?_
  simp only [ExtTreeMap.getElem?_modify, ExtTreeMap.getElem?_insert, Nat.compare_eq_eq]
  split_ifs <;> rfl

/-- An update is what it does to the object. -/
theorem modify_congr {h : Heap α} {k : Nat} {f g : α → α} (hfg : f (h.deref k) = g (h.deref k)) :
    h.modify k f = h.modify k g := by
  refine ExtTreeMap.ext_getElem? fun p => ?_
  simp only [ExtTreeMap.getElem?_modify, Nat.compare_eq_eq]
  split_ifs with hkp
  · subst hkp
    rcases hv : h[k]? with _ | v
    · rfl
    · rw [deref, ExtTreeMap.getD_eq_getD_getElem?, hv] at hfg
      exact congrArg some hfg
  · rfl

theorem mem_of_getElem? {h : Heap α} {p : Nat} {v : α} (hp : h[p]? = some v) :
    p ∈ h ∧ h.deref p = v := by
  refine ⟨?_, ?_⟩
  · rw [ExtTreeMap.mem_iff_isSome_getElem?, hp]
    rfl
  · rw [deref, ExtTreeMap.getD_eq_getD_getElem?, hp]
    rfl

end Heap

namespace OrderedMap

variable {α β κ : Type*}

/-- A comparator that compares its arguments by a key is transitive if the keys' order is. -/
theorem transCmp_of_key [Ord κ] [TransOrd κ] {cmp : α → α → Ordering} (key : α → κ)
    (h : ∀ a b, cmp a b = compare (key a) (key b)) : TransCmp cmp where
  eq_swap := by
    intro a b
    rw [h, h]
    exact OrientedCmp.eq_swap
  isLE_trans := by
    intro a b c
    rw [h, h, h]
    exact TransCmp.isLE_trans

variable {cmp : α → α → Ordering} [TransCmp cmp]

/-- The entries of a map, seen through its lookups. -/
theorem mem_toList_iff {t : ExtTreeMap α β cmp} {k : α} {v : β} :
    (k, v) ∈ t.toList ↔ t.getKey? k = some k ∧ t[k]? = some v :=
  ExtTreeMap.mem_toList_iff_getKey?_eq_some_and_getElem?_eq_some

end OrderedMap
