import Mathlib.Tactic.Common
import Mathlib.Data.List.Infix

/-!
# Streams cut at a mark of two elements

`lines a b s` are the pieces of `s` that end at `a, b`, without the mark, and `rest a b s` is what
follows the last one, so that `s` is made of them (`flatMap_lines`). A piece of the stream is `Free`
if the mark is nowhere in it. As with one separator, a stream can be cut while it arrives.
-/

namespace Delimited

variable {α : Type*} (a b : α)

/-- The mark is not in it. -/
def Free (s : List α) : Prop := ¬ [a, b] <:+: s

variable [DecidableEq α]

/-- The pieces that end at a mark. -/
def lines : List α → List (List α)
  | x :: y :: s =>
    if x = a ∧ y = b then [] :: lines s
    else match lines (y :: s) with
      | [] => []
      | l :: ls => (x :: l) :: ls
  | _ => []

/-- What follows the last mark. -/
def rest : List α → List α
  | x :: y :: s =>
    if x = a ∧ y = b then rest s
    else if lines a b (y :: s) = [] then x :: y :: s else rest (y :: s)
  | s => s

variable {a b} {l s t : List α}

theorem lines_cons_cons {x y : α} (h : ¬ (x = a ∧ y = b)) (s : List α) :
    lines a b (x :: y :: s) =
      match lines a b (y :: s) with
      | [] => []
      | l :: ls => (x :: l) :: ls := by
  rw [lines, if_neg h]

omit [DecidableEq α] in
theorem Free.of_infix (h : Free a b t) (hs : s <:+: t) : Free a b s := fun hmark => h (hmark.trans hs)

omit [DecidableEq α] in
theorem Free.tail {x : α} (h : Free a b (x :: s)) : Free a b s :=
  h.of_infix (List.suffix_cons x s).isInfix

omit [DecidableEq α] in
theorem Free.head {x y : α} (h : Free a b (x :: y :: s)) : ¬ (x = a ∧ y = b) := by
  rintro ⟨rfl, rfl⟩
  exact h (List.prefix_append [x, y] s).isInfix

theorem lines_of_free (h : Free a b s) : lines a b s = [] := by
  induction s with
  | nil => rfl
  | cons x s ih =>
    rcases s with _ | ⟨y, s⟩
    · rfl
    · rw [lines_cons_cons h.head, ih h.tail]

theorem rest_of_free (h : Free a b s) : rest a b s = s := by
  rcases s with _ | ⟨x, _ | ⟨y, s⟩⟩
  · rfl
  · rfl
  · rw [rest, if_neg h.head, if_pos (lines_of_free h.tail)]

/-- A line comes first, if there is no mark before its end. -/
theorem lines_line (h : Free a b (l ++ [a])) (s : List α) :
    lines a b (l ++ a :: b :: s) = l :: lines a b s := by
  induction l with
  | nil => rw [List.nil_append, lines, if_pos ⟨rfl, rfl⟩]
  | cons x l ih =>
    have htail := ih h.tail
    rcases l with _ | ⟨y, l⟩
    · have hhead : ¬ (x = a ∧ a = b) := h.head
      rw [List.nil_append] at htail
      rw [List.cons_append, List.nil_append, lines_cons_cons hhead, htail]
    · have hhead : ¬ (x = a ∧ y = b) := h.head
      rw [List.cons_append] at htail
      rw [List.cons_append, List.cons_append, lines_cons_cons hhead, htail]

theorem rest_line (h : Free a b (l ++ [a])) (s : List α) :
    rest a b (l ++ a :: b :: s) = rest a b s := by
  induction l with
  | nil => rw [List.nil_append, rest, if_pos ⟨rfl, rfl⟩]
  | cons x l ih =>
    have htail := ih h.tail
    have hlines := lines_line h.tail s
    rcases l with _ | ⟨y, l⟩
    · have hhead : ¬ (x = a ∧ a = b) := h.head
      rw [List.nil_append] at htail hlines
      rw [List.cons_append, List.nil_append, rest, if_neg hhead, hlines, if_neg (by simp), htail]
    · have hhead : ¬ (x = a ∧ y = b) := h.head
      rw [List.cons_append] at htail hlines
      rw [List.cons_append, List.cons_append, rest, if_neg hhead, hlines, if_neg (by simp), htail]

omit [DecidableEq α] in
theorem free_singleton (x : α) : Free a b [x] := fun h => by
  have hlen := h.length_le
  simp at hlen

omit [DecidableEq α] in
/-- What has a mark has a first one. -/
theorem exists_line (h : ¬ Free a b s) : ∃ l t, Free a b (l ++ [a]) ∧ s = l ++ a :: b :: t := by
  induction s with
  | nil => exact absurd (by simp [Free]) h
  | cons x s ih =>
    by_cases hstart : [a, b] <+: x :: s
    · obtain ⟨t, ht⟩ := hstart
      exact ⟨[], t, free_singleton a, ht.symm⟩
    · have hs : ¬ Free a b s := fun hs => h fun hmark =>
        (List.infix_cons_iff.1 hmark).elim hstart hs
      obtain ⟨l, t, hfree, rfl⟩ := ih hs
      refine ⟨x :: l, t, fun hmark => ?_, rfl⟩
      rcases List.infix_cons_iff.1 hmark with hpre | hin
      · refine hstart (hpre.trans ?_)
        rw [List.prefix_cons_inj]
        exact ⟨b :: t, by simp⟩
      · exact hfree hin

omit [DecidableEq α] in
/-- A stream is without a mark, or it is a line and a stream. -/
theorem stream_induction (a b : α) {motive : List α → Prop}
    (last : ∀ s, Free a b s → motive s)
    (line : ∀ l s, Free a b (l ++ [a]) → motive s → motive (l ++ a :: b :: s)) (s : List α) :
    motive s := by
  induction hn : s.length using Nat.strongRecOn generalizing s with
  | ind n ih =>
    by_cases h : Free a b s
    · exact last s h
    · obtain ⟨l, t, hl, rfl⟩ := exists_line h
      refine line l t hl (ih t.length ?_ t rfl)
      rw [← hn, List.length_append, List.length_cons, List.length_cons]
      omega

theorem free_rest (s : List α) : Free a b (rest a b s) := by
  induction s using stream_induction a b with
  | last s h => rwa [rest_of_free h]
  | line l s hl ih => rwa [rest_line hl]

/-- The stream is its lines, each with its mark, and the rest. -/
theorem flatMap_lines (s : List α) : (lines a b s).flatMap (· ++ [a, b]) ++ rest a b s = s := by
  induction s using stream_induction a b with
  | last s h => rw [lines_of_free h, rest_of_free h, List.flatMap_nil, List.nil_append]
  | line l s hl ih =>
    rw [lines_line hl, rest_line hl, List.flatMap_cons, List.append_assoc, ih]
    simp

theorem lines_append (s t : List α) :
    lines a b (s ++ t) = lines a b s ++ lines a b (rest a b s ++ t) := by
  induction s using stream_induction a b with
  | last s h => rw [lines_of_free h, rest_of_free h, List.nil_append]
  | line l s hl ih =>
    rw [List.append_assoc, List.cons_append, List.cons_append, lines_line hl, lines_line hl,
      rest_line hl, ih]
    rfl

theorem rest_append (s t : List α) : rest a b (s ++ t) = rest a b (rest a b s ++ t) := by
  induction s using stream_induction a b with
  | last s h => rw [rest_of_free h]
  | line l s hl ih =>
    rw [List.append_assoc, List.cons_append, List.cons_append, rest_line hl, rest_line hl, ih]

theorem length_of_mem_lines (h : l ∈ lines a b s) : l.length + 2 ≤ s.length := by
  have hs := flatMap_lines (a := a) (b := b) s
  obtain ⟨ls, ls', hls⟩ := List.append_of_mem h
  rw [hls] at hs
  rw [← hs]
  simp
  omega

/-- A piece without a mark is shorter than the line that comes of it, with its mark. -/
theorem length_lt_of_lines_eq_cons {ls : List (List α)} (h : Free a b s)
    (hl : lines a b (s ++ t) = l :: ls) : s.length < l.length + 2 := by
  have hst := flatMap_lines (a := a) (b := b) (s ++ t)
  rw [hl, List.flatMap_cons, List.append_assoc] at hst
  by_contra hlen
  have hpre : l ++ [a, b] <+: s :=
    List.prefix_of_prefix_length_le ⟨_, hst⟩ (List.prefix_append s t) (by simp; omega)
  exact h ((List.suffix_append l [a, b]).isInfix.trans hpre.isInfix)

end Delimited
