import Mathlib.Tactic.Common

/-!
# Programs that may end

A step gives the next state, or ends the program with the state it is in then (`error`). `final` is
the state either way, and what every step leaves true is true of it.

`Refines` compares two programs step by step, the first of which may get to where nothing is said
about it.

A history is a list of events, latest first. `since` reads what its events tell since the last one
that starts a period.
-/

namespace Halting

variable {σ α : Type*}

/-- The state after a step, also when the program has ended. -/
def final : Except σ σ → σ
  | .ok s => s
  | .error s => s

@[simp]
theorem final_ok (s : σ) : final (.ok s) = s := rfl

variable {P : σ → Prop}

/-- The rule for two steps. -/
theorem final_bind {x : Except σ σ} {f : σ → Except σ σ} (hx : P (final x))
    (hf : ∀ s, x = .ok s → P s → P (final (f s))) : P (final (x >>= f)) := by
  rcases x with s | s
  · exact hx
  · exact hf s rfl hx

/-- The rule for a loop over a list. -/
theorem final_foldlM {f : σ → α → Except σ σ} : ∀ {l : List α} {s : σ},
    (∀ a ∈ l, ∀ s, P s → P (final (f s a))) → P s → P (final (l.foldlM f s))
  | [], _, _, hs => hs
  | a :: l, s, h, hs => by
    rw [List.foldlM_cons]
    exact final_bind (h a List.mem_cons_self s hs) fun s' _ hs' =>
      final_foldlM (fun b hb => h b (List.mem_cons_of_mem a hb)) hs'

universe u

/-- A step after another one goes well if both do. -/
theorem bind_eq_ok {ε : Type*} {α β : Type u} {x : Except ε α} {f : α → Except ε β} {b : β} :
    x >>= f = .ok b ↔ ∃ a, x = .ok a ∧ f a = .ok b := by
  rcases x with err | a
  · exact ⟨nofun, fun ⟨_, h, _⟩ => by cases h⟩
  · exact ⟨fun h => ⟨a, rfl, h⟩, fun ⟨_, h, hf⟩ => by cases h; exact hf⟩

/-- If the program ends, then in such a state. -/
def Ends (P : σ → Prop) : Except σ α → Prop
  | .ok _ => True
  | .error s => P s

theorem Ends.bind {β γ : Type u} {x : Except σ γ} {f : γ → Except σ β} (hx : Ends P x)
    (hf : ∀ a, x = .ok a → Ends P (f a)) : Ends P (x >>= f) := by
  rcases x with s | a
  · exact hx
  · exact hf a rfl

theorem Ends.final_bind {σ γ : Type u} {P : σ → Prop} {x : Except σ γ} {f : γ → Except σ σ}
    (hx : Ends P x) (hf : ∀ a, x = .ok a → P (final (f a))) : P (final (x >>= f)) := by
  rcases x with s | a
  · exact hx
  · exact hf a rfl

section Refinement

variable {ε : Type*} {β γ δ ζ : Type u} (lost : ε → Prop) (ends : ε → σ → Prop)

/-- The first program does what the second one does, or is lost. -/
def Refines (R : β → γ → Prop) : Except ε β → Except σ γ → Prop
  | .ok b, .ok c => R b c
  | .ok _, .error _ => False
  | .error e, .ok _ => lost e
  | .error e, .error s => lost e ∨ ends e s

variable {lost ends} {R : β → γ → Prop} {S : δ → ζ → Prop} {x : Except ε β} {y : Except σ γ}

namespace Refines

theorem of_lost {e : ε} (h : lost e) (y : Except σ γ) : Refines lost ends R (.error e) y := by
  rcases y with s | c
  · exact .inl h
  · exact h

theorem mono {R' : β → γ → Prop} (h : Refines lost ends R x y)
    (hR : ∀ b c, x = .ok b → y = .ok c → R b c → R' b c) : Refines lost ends R' x y := by
  rcases x with e | b <;> rcases y with s | c
  · exact h
  · exact h
  · exact h
  · exact hR b c rfl rfl h

theorem bind {f : β → Except ε δ} {g : γ → Except σ ζ} (h : Refines lost ends R x y)
    (hf : ∀ b c, x = .ok b → y = .ok c → R b c → Refines lost ends S (f b) (g c)) :
    Refines lost ends S (x >>= f) (y >>= g) := by
  rcases x with e | b <;> rcases y with s | c
  · exact h
  · exact of_lost (show lost e from h) (g c)
  · exact h.elim
  · exact hf b c rfl rfl h

/-- The first program does something more at its end. -/
theorem andThen {S : δ → γ → Prop} {f : β → Except ε δ} (h : Refines lost ends R x y)
    (hf : ∀ b c, R b c → ∃ d, f b = .ok d ∧ S d c) : Refines lost ends S (x >>= f) y := by
  rcases x with e | b <;> rcases y with s | c
  · exact h
  · exact h
  · exact h.elim
  · obtain ⟨d, hd, hS⟩ := hf b c h
    change Refines lost ends S (f b) (.ok c)
    rw [hd]
    exact hS

end Refines

end Refinement

end Halting

namespace History

variable {ε β : Type*} (starts : ε → Bool) (tells : ε → List β)

/-- What the events since the last start tell, in the order they happened. -/
def since : List ε → List β
  | [] => []
  | e :: earlier => if starts e then [] else since earlier ++ tells e

variable {starts tells} {e : ε}

theorem since_cons_start (h : starts e = true) (earlier : List ε) :
    since starts tells (e :: earlier) = [] := by
  rw [since, if_pos h]

theorem since_cons (h : starts e = false) (earlier : List ε) :
    since starts tells (e :: earlier) = since starts tells earlier ++ tells e := by
  rw [since, if_neg (by rw [h]; exact Bool.false_ne_true)]

theorem since_cons_silent (h : starts e = false) (htells : tells e = []) (earlier : List ε) :
    since starts tells (e :: earlier) = since starts tells earlier := by
  rw [since_cons h, htells, List.append_nil]

theorem since_append {new : List ε} (h : ∀ e ∈ new, starts e = false) (earlier : List ε) :
    since starts tells (new ++ earlier) =
      since starts tells earlier ++ new.reverse.flatMap tells := by
  induction new with
  | nil => exact (List.append_nil _).symm
  | cons e new ih =>
    rw [List.cons_append, since_cons (h e List.mem_cons_self),
      ih fun e' he' => h e' (List.mem_cons_of_mem e he')]
    simp

theorem since_append_silent {new : List ε} (h : ∀ e ∈ new, starts e = false)
    (htells : ∀ e ∈ new, tells e = []) (earlier : List ε) :
    since starts tells (new ++ earlier) = since starts tells earlier := by
  rw [since_append h, List.flatMap_eq_nil_iff.2, List.append_nil]
  exact fun e he => htells e (List.mem_reverse.1 he)

end History
