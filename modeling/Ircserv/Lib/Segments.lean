import Mathlib.Tactic.Common

/-!
# Histories made of segments

A history is a list of events, latest first. `Segmented Plain Block` says that it is made of single
plain events and of whole blocks, so an event that only stands at one end of a block comes with the
rest of its block.
-/

variable {α : Type*}

/-- A list made of plain elements and of whole blocks. -/
inductive Segmented (Plain : α → Prop) (Block : List α → Prop) : List α → Prop
  | nil : Segmented Plain Block []
  | plain {x : α} {l : List α} (hx : Plain x) (hl : Segmented Plain Block l) :
      Segmented Plain Block (x :: l)
  | block {b l : List α} (hb : Block b) (hl : Segmented Plain Block l) :
      Segmented Plain Block (b ++ l)

namespace Segmented

variable {Plain : α → Prop} {Block : List α → Prop}

theorem append_plain {l : List α} (hl : Segmented Plain Block l) :
    ∀ xs : List α, (∀ x ∈ xs, Plain x) → Segmented Plain Block (xs ++ l)
  | [], _ => hl
  | x :: xs, hx => .plain (hx x List.mem_cons_self)
      (append_plain hl xs fun y hy => hx y (List.mem_cons_of_mem x hy))

/-- An element that a list does not have stands after it. -/
theorem split_of_not_mem {x : α} {r t : List α} : ∀ {b l : List α}, x ∉ b → l ++ x :: r = b ++ t →
    ∃ l', l = b ++ l' ∧ t = l' ++ x :: r
  | [], l, _, h => ⟨l, rfl, h.symm⟩
  | y :: b, [], hx, h => by
    rw [List.nil_append, List.cons_append, List.cons.injEq] at h
    exact absurd h.1 fun he => hx (he ▸ List.mem_cons_self)
  | y :: b, z :: l, hx, h => by
    rw [List.cons_append, List.cons_append, List.cons.injEq] at h
    obtain ⟨l', rfl, ht⟩ := split_of_not_mem (fun hb => hx (List.mem_cons_of_mem y hb)) h.2
    exact ⟨l', by rw [h.1]; rfl, ht⟩

/-- An element that is not plain stands in a block. -/
theorem block_of_not_plain {x : α} (hplain : ¬ Plain x) {l : List α}
    (hl : Segmented Plain Block l) : ∀ {l₁ l₂ : List α}, l = l₁ ++ x :: l₂ →
      ∃ r b₁ b₂ r', l₁ = r ++ b₁ ∧ l₂ = b₂ ++ r' ∧ Block (b₁ ++ x :: b₂) := by
  induction hl with
  | nil => simp
  | @plain y l hy _ ih =>
    intro l₁ l₂ h
    rcases l₁ with _ | ⟨z, l₁⟩
    · rw [List.nil_append, List.cons.injEq] at h
      exact absurd (h.1 ▸ hy) hplain
    · rw [List.cons_append, List.cons.injEq] at h
      obtain ⟨r, b₁, b₂, r', rfl, rfl, hb⟩ := ih h.2
      exact ⟨z :: r, b₁, b₂, r', rfl, rfl, hb⟩
  | @block b l hb _ ih =>
    intro l₁ l₂ h
    rcases List.append_eq_append_iff.1 h with ⟨b', rfl, hl⟩ | ⟨b', rfl, hl⟩
    · obtain ⟨r, b₁, b₂, r', rfl, rfl, hb'⟩ := ih hl
      exact ⟨b ++ r, b₁, b₂, r', by simp, rfl, hb'⟩
    · rcases b' with _ | ⟨z, b'⟩
      · obtain ⟨r, b₁, b₂, r', hr, rfl, hb'⟩ := ih (show l = [] ++ x :: l₂ from hl.symm)
        exact ⟨l₁ ++ r, b₁, b₂, r', by simp [hr], rfl, hb'⟩
      · rw [List.cons_append, List.cons.injEq] at hl
        obtain ⟨rfl, rfl⟩ := hl
        exact ⟨[], l₁, b', l, rfl, rfl, hb⟩

/-- An element that only starts blocks starts a whole block. -/
theorem block_of_head {x : α} (hplain : ¬ Plain x)
    (hblock : ∀ b, Block b → ∃ y bs, b = y :: bs ∧ x ∉ bs) {l l₁ l₂ : List α}
    (hl : Segmented Plain Block l) (h : l = l₁ ++ x :: l₂) :
    ∃ b r, x :: l₂ = b ++ r ∧ Block b := by
  obtain ⟨r, b₁, b₂, r', rfl, rfl, hb⟩ := hl.block_of_not_plain hplain h
  obtain ⟨y, bs, hbs, hnot⟩ := hblock _ hb
  rcases b₁ with _ | ⟨z, b₁⟩
  · exact ⟨x :: b₂, r', rfl, hb⟩
  · rw [List.cons_append, List.cons.injEq] at hbs
    exact absurd (by simp [← hbs.2]) hnot

/-- An element that only ends blocks ends a whole block. -/
theorem block_of_last {x : α} (hplain : ¬ Plain x)
    (hblock : ∀ b, Block b → ∃ bs y, b = bs ++ [y] ∧ x ∉ bs) {l l₁ l₂ : List α}
    (hl : Segmented Plain Block l) (h : l = l₁ ++ x :: l₂) :
    ∃ r b, l₁ ++ [x] = r ++ b ∧ Block b := by
  obtain ⟨r, b₁, b₂, r', rfl, rfl, hb⟩ := hl.block_of_not_plain hplain h
  obtain ⟨bs, y, hbs, hnot⟩ := hblock _ hb
  rcases b₂.eq_nil_or_concat with rfl | ⟨b₂, z, rfl⟩
  · exact ⟨r, b₁ ++ [x], List.append_assoc _ _ _, hb⟩
  · have hsplit : b₁ ++ x :: b₂ ++ [z] = bs ++ [y] := by simpa using hbs
    exact absurd (by simp [← (List.append_inj' hsplit rfl).1]) hnot

end Segmented
