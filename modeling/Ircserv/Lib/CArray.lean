import Mathlib.Tactic.Common
import Mathlib.Data.List.TakeDrop
import Mathlib.Data.List.TakeWhile

/-!
# Fixed arrays and the strings in them

An array is a list whose length no operation changes. `store` writes elements one after the other,
as the copy of another array does, and `copyUp` and `copyDown` move a part of an array within it,
from either end. A string is what stands before the first zero (`cstr`), and `Holds` says which
string an array holds.
-/

namespace CArray

variable {α : Type*}

/-- Writes `xs` from the index `i` on. -/
def store (a : List α) (i : Nat) : List α → List α
  | [] => a
  | x :: xs => store (a.set i x) (i + 1) xs

/-- Copies `n` elements from `src` to `dst`, the first one first. -/
def copyUp (a : List α) (dst src : Nat) : Nat → List α
  | 0 => a
  | n + 1 =>
    match a[src]? with
    | some x => copyUp (a.set dst x) (dst + 1) (src + 1) n
    | none => a

/-- Copies `n` elements from `src` to `dst`, the last one first. -/
def copyDown (a : List α) (dst src : Nat) : Nat → List α
  | 0 => a
  | n + 1 =>
    match a[src + n]? with
    | some x => copyDown (a.set (dst + n) x) dst src n
    | none => a

@[simp]
theorem length_store (xs : List α) : ∀ (a : List α) (i : Nat), (store a i xs).length = a.length := by
  induction xs with
  | nil => exact fun _ _ => rfl
  | cons x xs ih =>
    intro a i
    rw [store, ih, List.length_set]

@[simp]
theorem length_copyUp : ∀ (n : Nat) (a : List α) (dst src : Nat),
    (copyUp a dst src n).length = a.length
  | 0, _, _, _ => rfl
  | n + 1, a, dst, src => by
    rw [copyUp]
    split
    · rw [length_copyUp n, List.length_set]
    · rfl

@[simp]
theorem length_copyDown : ∀ (n : Nat) (a : List α) (dst src : Nat),
    (copyDown a dst src n).length = a.length
  | 0, _, _, _ => rfl
  | n + 1, a, dst, src => by
    rw [copyDown]
    split
    · rw [length_copyDown n, List.length_set]
    · rfl

theorem store_store (xs ys : List α) : ∀ {a : List α} {i : Nat},
    store (store a i xs) (i + xs.length) ys = store a i (xs ++ ys) := by
  induction xs with
  | nil => exact fun {_ _} => rfl
  | cons x xs ih =>
    intro a i
    rw [store, List.cons_append, store, ← ih, List.length_cons, Nat.add_assoc, Nat.add_comm 1]

theorem store_append (xs : List α) : ∀ {s t : List α}, xs.length ≤ t.length →
    store (s ++ t) s.length xs = s ++ xs ++ t.drop xs.length := by
  induction xs with
  | nil => simp [store]
  | cons x xs ih =>
    intro s t h
    rcases t with _ | ⟨y, t⟩
    · simp at h
    · have hset : (s ++ y :: t).set s.length x = (s ++ [x]) ++ t := by
        rw [List.set_append_right _ _ (Nat.le_refl _), Nat.sub_self]
        simp
      have hlen : s.length + 1 = (s ++ [x]).length := by simp
      rw [store, hset, hlen, ih (by simpa using h)]
      simp

/-- A copy to the left is that of what the part held before, though the two parts may overlap. -/
theorem copyUp_append (m : List α) : ∀ {s t r : List α},
    copyUp (s ++ t ++ m ++ r) s.length (s.length + t.length) m.length =
      s ++ m ++ (t ++ m ++ r).drop m.length := by
  induction m with
  | nil => simp [copyUp]
  | cons x m ih =>
    intro s t r
    have hget : (s ++ t ++ x :: m ++ r)[s.length + t.length]? = some x := by
      rw [List.append_assoc, ← List.length_append, List.getElem?_append_right (Nat.le_refl _)]
      simp
    -- what lies between the two parts after one step
    obtain ⟨t', hlen, hset, hdrop⟩ : ∃ t' : List α, t'.length = t.length ∧
        (s ++ t ++ x :: m ++ r).set s.length x = (s ++ [x]) ++ t' ++ m ++ r ∧
        (t' ++ m ++ r).drop m.length = (t ++ x :: m ++ r).drop (m.length + 1) := by
      rw [List.append_assoc, List.append_assoc, List.set_append_right _ _ (Nat.le_refl _),
        Nat.sub_self]
      rcases t with _ | ⟨y, t⟩
      · exact ⟨[], rfl, by simp, by simp⟩
      · exact ⟨t ++ [x], by simp, by simp, by simp⟩
    have hsrc : s.length + t.length + 1 = (s ++ [x]).length + t'.length := by
      rw [hlen, List.length_append, List.length_singleton]
      omega
    have hdst : s.length + 1 = (s ++ [x]).length := by simp
    rw [show (x :: m).length = m.length + 1 from rfl, copyUp, hget]
    dsimp only
    rw [hset, hsrc, hdst, ih, hdrop]
    simp

theorem prefix_store {a s xs : List α} (hs : s <+: a) (hlen : s.length + xs.length ≤ a.length) :
    s ++ xs <+: store a s.length xs := by
  obtain ⟨t, rfl⟩ := hs
  rw [List.length_append] at hlen
  rw [store_append xs (by omega)]
  exact List.prefix_append _ _

theorem prefix_copyUp {a s m : List α} (h : s ++ m <+: a) : m <+: copyUp a 0 s.length m.length := by
  obtain ⟨r, rfl⟩ := h
  have hcopy := copyUp_append m (s := []) (t := s) (r := r)
  simp only [List.nil_append, List.length_nil, Nat.zero_add] at hcopy
  rw [hcopy]
  exact List.prefix_append _ _

section Strings

variable (z : α)

/-- The array starts with the string and its end. -/
def Holds (a s : List α) : Prop := z ∉ s ∧ s ++ [z] <+: a

variable {z} {a s t : List α}

namespace Holds

/-- Another string is put after the one that the array holds. -/
theorem append (h : Holds z a s) (ht : z ∉ t) (hlen : s.length + t.length < a.length) :
    Holds z (store a s.length (t ++ [z])) (s ++ t) := by
  refine ⟨fun hmem => (List.mem_append.1 hmem).elim h.1 ht, ?_⟩
  rw [List.append_assoc]
  refine prefix_store ((List.prefix_append s [z]).trans h.2) ?_
  rw [List.length_append, List.length_singleton]
  omega

/-- The start of the string is dropped. -/
theorem shift (h : Holds z a (s ++ t)) : Holds z (copyUp a 0 s.length (t.length + 1)) t := by
  refine ⟨fun hmem => h.1 (List.mem_append_right s hmem), ?_⟩
  rw [show t.length + 1 = (t ++ [z]).length by simp]
  refine prefix_copyUp ?_
  rw [← List.append_assoc]
  exact h.2

end Holds

/-- An array that starts with the end of a string holds the empty one. -/
theorem holds_nil_iff : Holds z a [] ↔ a.head? = some z := by
  rcases a with _ | ⟨x, a⟩
  · simp [Holds]
  · simp [Holds, List.cons_prefix_cons, eq_comm]

variable [DecidableEq α]

variable (z) in
/-- The string at the start of an array. -/
def cstr (a : List α) : List α := a.takeWhile (· ≠ z)

theorem not_mem_cstr (a : List α) : z ∉ cstr z a := by
  intro h
  simpa using List.mem_takeWhile_imp h

theorem cstr_of_not_mem (h : z ∉ s) : cstr z s = s := by
  rw [cstr, List.takeWhile_eq_self_iff]
  intro x hx
  rw [decide_eq_true_eq]
  exact ne_of_mem_of_not_mem hx h

/-- What comes after the end of a string does not matter. -/
theorem cstr_append (s t : List α) : cstr z (s ++ z :: t) = cstr z s := by
  induction s with
  | nil => simp [cstr]
  | cons x s ih =>
    rw [cstr, cstr] at ih
    rw [cstr, cstr, List.cons_append, List.takeWhile_cons, List.takeWhile_cons, ih]

theorem cstr_eq_self_iff : cstr z s = s ↔ z ∉ s :=
  ⟨fun h => h ▸ not_mem_cstr s, cstr_of_not_mem⟩

theorem Holds.cstr_eq (h : Holds z a s) : cstr z a = s := by
  obtain ⟨hz, t, rfl⟩ := h
  rw [List.append_assoc, List.singleton_append, cstr_append, cstr_of_not_mem hz]

end Strings

end CArray
