import Mathlib.Tactic.Common
import Mathlib.Data.List.Induction

/-!
# What began, and has been kept since

Over the runs of a step function, `Since` says that some step of the run began a period, and every
later step kept it. A property that a step makes true by beginning it, and leaves true by keeping
it, holds at the end of a run exactly when this is so (`iff_since`).
-/

namespace Runs

variable {σ α : Type*} (step : σ → α → σ) (begins keeps : σ → α → Prop) (s : σ)

/-- Some step of the run began the period, and each later one kept it. -/
def Since (run : List α) : Prop :=
  ∃ before a after, run = before ++ a :: after ∧ begins (before.foldl step s) a ∧
    ∀ kept b rest, after = kept ++ b :: rest → keeps ((before ++ a :: kept).foldl step s) b

variable {step begins keeps s}

theorem not_since_nil : ¬ Since step begins keeps s [] := by
  rintro ⟨before, a, after, h, -⟩
  simp at h

/-- The last step began the period, or kept the one there was. -/
theorem since_concat {run : List α} {b : α} : Since step begins keeps s (run ++ [b]) ↔
    begins (run.foldl step s) b ∨ Since step begins keeps s run ∧ keeps (run.foldl step s) b := by
  constructor
  · rintro ⟨before, a, after, h, hbegin, hkeep⟩
    rcases List.eq_nil_or_concat after with rfl | ⟨after, c, rfl⟩
    · obtain ⟨rfl, ha⟩ := List.append_inj' h rfl
      cases ha
      exact .inl hbegin
    · rw [List.concat_eq_append, ← List.cons_append, ← List.append_assoc] at h
      obtain ⟨rfl, hc⟩ := List.append_inj' h rfl
      cases hc
      refine .inr ⟨⟨before, a, after, rfl, hbegin, fun kept d rest hd => ?_⟩, ?_⟩
      · exact hkeep kept d (rest ++ [b]) (by simp [hd])
      · exact hkeep after b [] (by simp)
  · rintro (hbegin | ⟨⟨before, a, after, rfl, hbegin, hkeep⟩, hlast⟩)
    · refine ⟨run, b, [], rfl, hbegin, fun kept d rest hd => ?_⟩
      simp at hd
    · refine ⟨before, a, after ++ [b], by simp, hbegin, fun kept d rest hd => ?_⟩
      rcases List.eq_nil_or_concat rest with rfl | ⟨rest, e, rfl⟩
      · obtain ⟨rfl, hb⟩ := List.append_inj' hd rfl
        cases hb
        exact hlast
      · rw [List.concat_eq_append, ← List.cons_append, ← List.append_assoc] at hd
        obtain ⟨hd, -⟩ := List.append_inj' hd rfl
        exact hkeep kept d rest hd

/-- The rule for a property that steps begin and keep. -/
theorem iff_since (holds : σ → Prop) (start : ¬ holds s) (run : List α)
    (h : ∀ before b after, run = before ++ b :: after → (holds (step (before.foldl step s) b) ↔
      begins (before.foldl step s) b ∨ holds (before.foldl step s) ∧ keeps (before.foldl step s) b)) :
    holds (run.foldl step s) ↔ Since step begins keeps s run := by
  induction run using List.reverseRecOn with
  | nil => exact iff_of_false start not_since_nil
  | append_singleton run b ih =>
    rw [since_concat, ← ih fun before c after hc => h before c (after ++ [b]) (by simp [hc]),
      List.foldl_append]
    exact h run b [] rfl

end Runs
