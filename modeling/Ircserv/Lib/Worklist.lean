import Mathlib.Algebra.Ring.GeomSum
import Mathlib.Algebra.Order.BigOperators.Group.Finset
import Mathlib.Algebra.Group.Action.Defs
import Mathlib.Algebra.Order.Group.Nat
import Mathlib.Data.List.Perm.Basic

/-!
# Worklists whose tasks make smaller ones

A task is done by taking it off a list, from anywhere, and putting on the list what comes of it: at
most `n` tasks of a smaller rank. The tasks together cost less then (`total_replace`), so only so
many can be done.
-/

namespace Worklist

/-- How many tasks come of one of a rank at most, with itself. -/
def cost (n rank : Nat) : Nat := ∑ i ∈ Finset.range (rank + 1), n ^ i

theorem cost_succ (n rank : Nat) : cost n (rank + 1) = n * cost n rank + 1 :=
  geom_sum_succ

theorem one_le_cost (n rank : Nat) : 1 ≤ cost n rank := by
  cases rank with
  | zero => simp [cost]
  | succ rank =>
    rw [cost_succ]
    omega

theorem cost_mono (n : Nat) : Monotone (cost n) := by
  intro a b hab
  refine Finset.sum_le_sum_of_subset fun i hi => ?_
  rw [Finset.mem_range] at hi ⊢
  omega

variable {α : Type*} (n : Nat) (rank : α → Nat)

/-- What the tasks of a list cost together. -/
def total (l : List α) : Nat := (l.map fun a => cost n (rank a)).sum

theorem total_append (l l' : List α) : total n rank (l ++ l') = total n rank l + total n rank l' := by
  simp [total]

variable {n rank} {a : α} {l new : List α}

theorem total_le {r : Nat} (hrank : ∀ a ∈ l, rank a ≤ r) :
    total n rank l ≤ l.length * cost n r := by
  rw [total, ← smul_eq_mul]
  refine (List.sum_le_card_nsmul _ _ fun c hc => ?_).trans_eq (by rw [List.length_map])
  obtain ⟨a, ha, rfl⟩ := List.mem_map.1 hc
  exact cost_mono n (hrank a ha)

/-- What comes of a task costs less than the task. -/
theorem total_lt (hlen : new.length ≤ n) (hrank : ∀ b ∈ new, rank b < rank a) :
    total n rank new + 1 ≤ cost n (rank a) := by
  rcases hr : rank a with _ | r
  · have hnil : new = [] := List.eq_nil_iff_forall_not_mem.2 fun b hb => by
      have hlt := hrank b hb
      omega
    rw [hnil]
    exact one_le_cost n 0
  · have hsum : total n rank new ≤ new.length * cost n r := total_le fun b hb => by
      have hlt := hrank b hb
      omega
    have hfan : new.length * cost n r ≤ n * cost n r := Nat.mul_le_mul_right _ hlen
    rw [cost_succ]
    omega

/-- Doing a task costs something. -/
theorem total_replace {k : Nat} (ha : l[k]? = some a) (hlen : new.length ≤ n)
    (hrank : ∀ b ∈ new, rank b < rank a) :
    total n rank (l.eraseIdx k ++ new) + 1 ≤ total n rank l := by
  obtain ⟨hk, rfl⟩ := List.getElem?_eq_some_iff.1 ha
  have hperm : total n rank l = cost n (rank l[k]) + total n rank (l.eraseIdx k) := by
    have hsum := ((List.getElem_cons_eraseIdx_perm hk).map fun a => cost n (rank a)).sum_eq
    rw [List.map_cons, List.sum_cons] at hsum
    exact hsum.symm
  have hnew := total_lt hlen hrank
  rw [total_append, hperm]
  omega

end Worklist
