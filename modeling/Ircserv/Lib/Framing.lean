import Mathlib.Tactic.Common

/-!
# Streams cut at a separator

`lines sep s` are the pieces of `s` that end at a separator, each with its separator, and
`rest sep s` is what follows the last one. A stream can be cut while it arrives: what was left over
is put before what comes next (`lines_append`, `rest_append`).
-/

namespace Framing

variable {α : Type*}

section Lines

variable [DecidableEq α] (sep : α)

/-- The pieces that end at a separator. -/
def lines : List α → List (List α)
  | [] => []
  | a :: s =>
    if a = sep then [a] :: lines s
    else match lines s with
      | [] => []
      | l :: ls => (a :: l) :: ls

/-- What follows the last separator. -/
def rest : List α → List α
  | [] => []
  | a :: s => if a = sep ∨ sep ∈ s then rest s else a :: s

variable {sep} {s t l : List α}

theorem lines_of_not_mem (h : sep ∉ s) : lines sep s = [] := by
  induction s with
  | nil => rfl
  | cons a s ih =>
    rw [List.mem_cons, not_or] at h
    rw [lines, if_neg (Ne.symm h.1), ih h.2]

theorem rest_of_not_mem (h : sep ∉ s) : rest sep s = s := by
  cases s with
  | nil => rfl
  | cons a s =>
    rw [List.mem_cons, not_or] at h
    rw [rest, if_neg (not_or.2 ⟨Ne.symm h.1, h.2⟩)]

theorem lines_line (h : sep ∉ l) (s : List α) :
    lines sep (l ++ sep :: s) = (l ++ [sep]) :: lines sep s := by
  induction l with
  | nil => simp [lines]
  | cons a l ih =>
    rw [List.mem_cons, not_or] at h
    rw [List.cons_append, lines, if_neg (Ne.symm h.1), ih h.2]
    rfl

theorem rest_line (l s : List α) : rest sep (l ++ sep :: s) = rest sep s := by
  induction l with
  | nil => simp [rest]
  | cons a l ih =>
    rw [List.cons_append, rest, if_pos (.inr (by simp)), ih]

/-- A stream is without a separator, or it is a line and a stream. -/
theorem stream_induction (sep : α) {motive : List α → Prop} (last : ∀ s, sep ∉ s → motive s)
    (line : ∀ l s, sep ∉ l → motive s → motive (l ++ sep :: s)) (s : List α) : motive s := by
  induction hn : s.length using Nat.strongRecOn generalizing s with
  | ind n ih =>
    by_cases h : sep ∈ s
    · obtain ⟨l, t, rfl, hl⟩ := List.eq_append_cons_of_mem h
      refine line l t hl (ih t.length ?_ t rfl)
      rw [← hn, List.length_append, List.length_cons]
      omega
    · exact last s h

theorem not_mem_rest (s : List α) : sep ∉ rest sep s := by
  induction s using stream_induction sep with
  | last s h => rwa [rest_of_not_mem h]
  | line l s hl ih => rwa [rest_line]

theorem lines_append (s t : List α) :
    lines sep (s ++ t) = lines sep s ++ lines sep (rest sep s ++ t) := by
  induction s using stream_induction sep with
  | last s h => rw [lines_of_not_mem h, rest_of_not_mem h, List.nil_append]
  | line l s hl ih =>
    rw [List.append_assoc, List.cons_append, lines_line hl, lines_line hl, rest_line, ih]
    rfl

theorem rest_append (s t : List α) : rest sep (s ++ t) = rest sep (rest sep s ++ t) := by
  induction s using stream_induction sep with
  | last s h => rw [rest_of_not_mem h]
  | line l s hl ih => rw [List.append_assoc, List.cons_append, rest_line, rest_line, ih]

/-- A stream is its lines and the rest. -/
theorem flatten_lines_append_rest (s : List α) : (lines sep s).flatten ++ rest sep s = s := by
  induction s using stream_induction sep with
  | last s h =>
    rw [lines_of_not_mem h, rest_of_not_mem h]
    rfl
  | line l s hl ih =>
    rw [lines_line hl, rest_line, List.flatten_cons, List.append_assoc, ih, List.append_assoc]
    rfl

theorem subset_of_mem_lines (h : l ∈ lines sep s) : l ⊆ s := fun a ha => by
  have hmem := List.mem_append_left (rest sep s) (List.mem_flatten_of_mem h ha)
  rwa [flatten_lines_append_rest] at hmem

theorem rest_subset (s : List α) : rest sep s ⊆ s := fun a ha => by
  have hmem := List.mem_append_right (lines sep s).flatten ha
  rwa [flatten_lines_append_rest] at hmem

omit [DecidableEq α] in
/-- What comes before the end of a line has no separator. -/
theorem not_mem_front {a b l : List α} (h : a ++ b = l ++ [sep]) (hb : b ≠ []) (hl : sep ∉ l) :
    sep ∉ a := by
  have hdrop := congrArg List.dropLast h
  rw [List.dropLast_append_of_ne_nil hb, List.dropLast_concat] at hdrop
  rw [← hdrop] at hl
  exact fun ha => hl (List.mem_append_left _ ha)

theorem lines_eq_nil_iff : lines sep s = [] ↔ sep ∉ s := by
  refine ⟨fun h hs => ?_, lines_of_not_mem⟩
  obtain ⟨l, t, rfl, hl⟩ := List.eq_append_cons_of_mem hs
  rw [lines_line hl] at h
  cases h

/-- A stream of lines is cut into them. -/
theorem lines_flatten {ls : List (List α)} (h : ∀ l ∈ ls, ∃ b, sep ∉ b ∧ l = b ++ [sep]) :
    lines sep ls.flatten = ls ∧ rest sep ls.flatten = [] := by
  induction ls with
  | nil => exact ⟨rfl, rfl⟩
  | cons l ls ih =>
    obtain ⟨b, hb, rfl⟩ := h l List.mem_cons_self
    obtain ⟨hlines, hrest⟩ := ih fun l hl => h l (List.mem_cons_of_mem _ hl)
    have hstream : ((b ++ [sep]) :: ls).flatten = b ++ sep :: ls.flatten := by simp
    rw [hstream, lines_line hb, rest_line, hlines]
    exact ⟨rfl, hrest⟩

/-- The first line of a stream, without its separator. -/
theorem eq_append_of_lines_eq_cons {ls : List (List α)} (h : lines sep s = l :: ls) :
    ∃ b t, sep ∉ b ∧ l = b ++ [sep] ∧ s = b ++ sep :: t ∧ lines sep t = ls := by
  have hs : sep ∈ s := by
    by_contra hs
    rw [lines_of_not_mem hs] at h
    cases h
  obtain ⟨b, t, rfl, hb⟩ := List.eq_append_cons_of_mem hs
  rw [lines_line hb, List.cons.injEq] at h
  exact ⟨b, t, hb, h.1.symm, rfl, h.2⟩

/-- What was left over is a part of the first line that comes of it, or of what is left over
then. -/
theorem length_le_headD (h : sep ∉ s) (t : List α) :
    s.length ≤ ((lines sep (s ++ t)).headD (s ++ t)).length := by
  rcases hl : lines sep (s ++ t) with _ | ⟨l, ls⟩
  · simp
  · obtain ⟨b, u, hb, rfl, hst, -⟩ := eq_append_of_lines_eq_cons hl
    rw [List.headD_cons, List.length_append]
    rcases List.append_eq_append_iff.1 hst with ⟨v, rfl, -⟩ | ⟨v, rfl, hv⟩
    · simp
      omega
    · rcases v with _ | ⟨a, v⟩
      · simp
      · rw [List.cons_append, List.cons.injEq] at hv
        exact absurd (by simp [hv.1]) h

end Lines

section Through

/-- The elements up to the first that `p` holds of, with it. -/
def through (p : α → Bool) : List α → List α
  | [] => []
  | a :: s => if p a then [a] else a :: through p s

variable {p : α → Bool} {s : List α}

theorem prefix_through (s : List α) : through p s <+: s := by
  induction s with
  | nil => exact List.prefix_rfl
  | cons a s ih =>
    rw [through]
    split_ifs
    · exact List.prefix_cons_inj a |>.2 (List.nil_prefix)
    · exact List.prefix_cons_inj a |>.2 ih

theorem through_of_forall (h : ∀ a ∈ s, p a = false) : through p s = s := by
  induction s with
  | nil => rfl
  | cons a s ih =>
    rw [through, h a List.mem_cons_self, ih fun b hb => h b (List.mem_cons_of_mem a hb)]
    rfl

/-- What stands before the first element that `p` holds of is not affected. -/
theorem through_append (h : ∀ a ∈ s, p a = false) (t : List α) :
    through p (s ++ t) = s ++ through p t := by
  induction s with
  | nil => rfl
  | cons a s ih =>
    rw [List.cons_append, through, h a List.mem_cons_self,
      ih fun b hb => h b (List.mem_cons_of_mem a hb)]
    rfl

/-- Only the last of the elements satisfies `p`. -/
theorem forall_of_through_eq {a : α} {l₁ l₂ : List α} : ∀ {s : List α},
    through p s = l₁ ++ a :: l₂ → ∀ x ∈ l₁, p x = false := by
  intro s
  induction s generalizing l₁ with
  | nil => simp [through]
  | cons b s ih =>
    intro h x hx
    rw [through] at h
    rcases l₁ with _ | ⟨c, l₁⟩
    · cases hx
    · split_ifs at h with hb
      · simp at h
      · rw [List.cons_append, List.cons.injEq] at h
        obtain ⟨rfl, h⟩ := h
        rcases List.mem_cons.1 hx with rfl | hx
        · simpa using hb
        · exact ih h x hx

end Through

end Framing
