import Mathlib.Tactic.Common
import Mathlib.Data.List.TakeDrop

/-!
# Sweeping a list that changes

An index goes over a list, and the elements it comes to that are to be handled are handled. This
erases the element, and then the index stays where it is, or it keeps the list and may add an
element at its end that is not to be handled. So each element that was to be handled is handled,
once and in order (`Steps.due`), the index stays within the list, and the sweep ends (`Steps.size`).
-/

namespace Sweep

variable {α : Type*}

structure Position (α : Type*) where
  list : List α
  index : Nat

namespace Position

/-- What the index has not come to yet. -/
def ahead (p : Position α) : List α := p.list.drop p.index

variable (todo : α → Bool)

/-- What is still to be handled. -/
def due (p : Position α) : List α := p.ahead.filter todo

/-- How many steps are left at most. -/
def size (p : Position α) : Nat := p.ahead.length + (p.due todo).length

end Position

open Position

variable (todo : α → Bool)

/-- One step, with the element that it handles. -/
inductive Step : Position α → Option α → Position α → Prop
  | skip {l : List α} {i : Nat} {a : α} (ha : l[i]? = some a) (h : todo a = false) :
      Step ⟨l, i⟩ none ⟨l, i + 1⟩
  | keep {l : List α} {i : Nat} {a : α} (ha : l[i]? = some a) (h : todo a = true) :
      Step ⟨l, i⟩ (some a) ⟨l, i + 1⟩
  | add {l : List α} {i : Nat} {a b : α} (ha : l[i]? = some a) (h : todo a = true)
      (hb : todo b = false) : Step ⟨l, i⟩ (some a) ⟨l ++ [b], i + 1⟩
  | erase {l : List α} {i : Nat} {a : α} (ha : l[i]? = some a) (h : todo a = true) :
      Step ⟨l, i⟩ (some a) ⟨l.eraseIdx i, i⟩

/-- A number of steps, with the elements that they handle. -/
inductive Steps : Nat → Position α → List α → Position α → Prop
  | refl {p : Position α} : Steps 0 p [] p
  | step {n : Nat} {p q r : Position α} {a : Option α} {handled : List α} (h : Step todo p a q)
      (hs : Steps n q handled r) : Steps (n + 1) p (a.toList ++ handled) r

variable {todo} {p q : Position α} {a : Option α} {handled : List α} {n : Nat}

theorem drop_eq_cons {l : List α} {i : Nat} {a : α} (ha : l[i]? = some a) :
    i < l.length ∧ l.drop i = a :: l.drop (i + 1) := by
  obtain ⟨hi, rfl⟩ := List.getElem?_eq_some_iff.1 ha
  exact ⟨hi, List.drop_eq_getElem_cons hi⟩

theorem drop_eraseIdx {l : List α} {i : Nat} (h : i < l.length) :
    (l.eraseIdx i).drop i = l.drop (i + 1) := by
  rw [List.eraseIdx_eq_take_drop_succ]
  exact List.drop_left' (List.length_take_of_le (Nat.le_of_lt h))

namespace Step

/-- The element at the index is passed, and one that is not to be handled may follow the others. -/
theorem ahead (h : Step todo p a q) : ∃ b new, p.list[p.index]? = some b ∧
    p.ahead = b :: (p.list.drop (p.index + 1)) ∧ q.ahead = p.list.drop (p.index + 1) ++ new ∧
    a.toList = [b].filter todo ∧ new.filter todo = [] ∧ new.length ≤ a.toList.length ∧
    q.list.length ≤ p.list.length + new.length ∧ q.index ≤ q.list.length := by
  cases h with
  | skip ha h =>
    obtain ⟨hi, hdrop⟩ := drop_eq_cons ha
    refine ⟨_, [], ha, hdrop, (List.append_nil _).symm, ?_, rfl, by simp, by simp, hi⟩
    simp [h]
  | keep ha h =>
    obtain ⟨hi, hdrop⟩ := drop_eq_cons ha
    refine ⟨_, [], ha, hdrop, (List.append_nil _).symm, ?_, rfl, by simp, by simp, hi⟩
    simp [h]
  | @add l i a b ha h hb =>
    obtain ⟨hi, hdrop⟩ := drop_eq_cons ha
    refine ⟨a, [b], ha, hdrop, List.drop_append_of_le_length hi, ?_, ?_, by simp, by simp, ?_⟩
    · simp [h]
    · simp [hb]
    · rw [List.length_append]
      exact Nat.le_add_right_of_le hi
  | @erase l i a ha h =>
    obtain ⟨hi, hdrop⟩ := drop_eq_cons ha
    have hlen : (l.eraseIdx i).length = l.length - 1 := List.length_eraseIdx_of_lt hi
    refine ⟨a, [], ha, hdrop, ?_, ?_, rfl, by simp, ?_, ?_⟩
    · rw [List.append_nil]
      exact drop_eraseIdx hi
    · simp [h]
    · dsimp only
      omega
    · dsimp only
      omega

/-- A step handles the next of the elements that are due. -/
theorem due (h : Step todo p a q) : p.due todo = a.toList ++ q.due todo := by
  obtain ⟨b, new, -, hp, hq, ha, hnew, -⟩ := h.ahead
  rw [Position.due, hp, Position.due, hq, ha, List.filter_append, hnew, List.append_nil,
    ← List.filter_append, List.singleton_append]

theorem size (h : Step todo p a q) : q.size todo < p.size todo := by
  obtain ⟨b, new, -, hp, hq, -, -, hnew, -⟩ := h.ahead
  have hdue := congrArg List.length h.due
  rw [List.length_append] at hdue
  rw [Position.size, Position.size, hp, hq, List.length_cons, List.length_append]
  omega

/-- The list gets no longer than the elements that are due allow. -/
theorem length (h : Step todo p a q) :
    q.list.length + (q.due todo).length ≤ p.list.length + (p.due todo).length := by
  obtain ⟨b, new, -, -, -, -, -, hnew, hlen, -⟩ := h.ahead
  have hdue := congrArg List.length h.due
  rw [List.length_append] at hdue
  omega

end Step

namespace Steps

/-- What was due is what was handled, in order, and what is still due. -/
theorem due (h : Steps todo n p handled q) : p.due todo = handled ++ q.due todo := by
  induction h with
  | refl => rfl
  | step h _ ih => rw [h.due, ih, List.append_assoc]

theorem size (h : Steps todo n p handled q) : n + q.size todo ≤ p.size todo := by
  induction h with
  | refl => omega
  | step h _ ih =>
    have hlt := h.size
    omega

theorem length (h : Steps todo n p handled q) :
    q.list.length + (q.due todo).length ≤ p.list.length + (p.due todo).length := by
  induction h with
  | refl => exact Nat.le_refl _
  | step h _ ih => exact Nat.le_trans ih h.length

theorem index_le (h : Steps todo n p handled q) (hp : p.index ≤ p.list.length) :
    q.index ≤ q.list.length := by
  induction h with
  | refl => exact hp
  | step h _ ih =>
    obtain ⟨-, -, -, -, -, -, -, -, -, hle⟩ := h.ahead
    exact ih hle

end Steps

end Sweep
