import Ircserv.Utils
import Mathlib.Data.List.Forall2
import Mathlib.Data.List.Nodup

/-!
# The comparator of the maps

`ircStringCompare` orders strings as their folded characters are ordered, so it is a strict weak
order, and a map that is searched with it finds the key that is the same up to letter case.
-/

open Std

namespace Ircserv

/-- Neither string comes first. -/
def Incomparable (a b : Str) : Prop := ircStringCompare a b = false ∧ ircStringCompare b a = false

theorem ircCmp_eq_lt_iff (a b : Str) : ircCmp a b = .lt ↔ ircStringCompare a b = true := by
  rw [ircCmp_eq_compare, ircStringCompare_iff]

theorem incomparable_iff (a b : Str) : Incomparable a b ↔ caseFold a = caseFold b := by
  rw [← ircCmp_eq_iff, Incomparable, ← Bool.not_eq_true, ← Bool.not_eq_true, ← ircCmp_eq_lt_iff,
    ← ircCmp_eq_lt_iff]
  have hswap : ircCmp b a = (ircCmp a b).swap := OrientedCmp.eq_swap
  rw [hswap]
  cases ircCmp a b <;> simp

/-- The characters that are folded, each with what it is folded to. -/
def foldings : List (UInt8 × UInt8) :=
  (lit "ABCDEFGHIJKLMNOPQRSTUVWXYZ[]\\~").zip (lit "abcdefghijklmnopqrstuvwxyz\x7b\x7d|^")

theorem ircTolower_eq (c : UInt8) : ircTolower c = (foldings.lookup c).getD c :=
  forall_byte (p := fun c => ircTolower c = (foldings.lookup c).getD c) (by decide +kernel) c

/-- Two characters are folded to one if they are the same, or one of them is folded to the other. -/
theorem ircTolower_eq_iff (c d : UInt8) : ircTolower c = ircTolower d ↔
    c = d ∨ (c, d) ∈ foldings ∨ (d, c) ∈ foldings := by
  have hfolded : ∀ c, ircTolower c = c ∨ (c, ircTolower c) ∈ foldings := by
    intro c
    rw [ircTolower_eq]
    rcases h : foldings.lookup c with _ | d
    · exact .inl rfl
    · obtain ⟨_, _, heq, -⟩ := List.lookup_eq_some_iff.1 h
      exact .inr (by rw [heq]; simp)
  have hpair : ∀ p ∈ foldings, ircTolower p.1 = p.2 ∧ ircTolower p.2 = p.2 :=
    List.forall_iff_forall_mem.1 (by decide +kernel)
  have hnodup : (foldings.map Prod.snd).Nodup := by decide +kernel
  constructor
  · intro h
    rcases hfolded c with hc | hc <;> rcases hfolded d with hd | hd
    · exact .inl (hc.symm.trans (h.trans hd))
    · rw [← h, hc] at hd
      exact .inr (.inr hd)
    · rw [h, hd] at hc
      exact .inr (.inl hc)
    · exact .inl (congrArg Prod.fst (List.inj_on_of_nodup_map hnodup hc hd h))
  · rintro (rfl | hp | hp)
    · rfl
    · exact (hpair _ hp).1.trans (hpair _ hp).2.symm
    · exact (hpair _ hp).2.trans (hpair _ hp).1.symm

/-- Folded strings are equal if they are equal character by character. -/
theorem caseFold_eq_iff (a b : Str) : caseFold a = caseFold b ↔ a.length = b.length ∧
    ∀ i (ha : i < a.length) (hb : i < b.length), ircTolower a[i] = ircTolower b[i] := by
  rw [caseFold, caseFold, List.ext_getElem_iff]
  simp

/-- What strings that are the same up to folding look like. -/
theorem caseFold_eq_iff_forall₂ (a b : Str) : caseFold a = caseFold b ↔
    List.Forall₂ (fun c d => c = d ∨ (c, d) ∈ foldings ∨ (d, c) ∈ foldings) a b := by
  rw [caseFold, caseFold, ← List.forall₂_eq_eq_eq, List.forall₂_map_left_iff,
    List.forall₂_map_right_iff]
  simp only [ircTolower_eq_iff]

/-- The first folded character that differs decides, and of a string and its prefix the prefix comes
first. -/
theorem ircStringCompare_iff_lex (a b : Str) :
    ircStringCompare a b = true ↔ List.Lex (· < ·) (signedFold a) (signedFold b) := by
  fun_induction ircStringCompare a b with
  | case1 a as b bs x y h =>
    exact iff_of_true rfl (.rel h)
  | case2 a as b bs x y h h' =>
    refine iff_of_false Bool.false_ne_true fun hlex => ?_
    rcases List.cons_lex_cons_iff.1 hlex with hlt | ⟨heq, -⟩
    · exact h hlt
    · rw [show x = y from heq] at h'
      exact Int8.lt_irrefl h'
  | case3 a as b bs x y h h' ih =>
    have heq : x = y := Int8.le_antisymm (Int8.not_lt.1 h') (Int8.not_lt.1 h)
    rw [ih]
    refine ⟨fun hlex => List.cons_lex_cons_iff.2 (.inr ⟨heq, hlex⟩), fun hlex => ?_⟩
    rcases List.cons_lex_cons_iff.1 hlex with hlt | ⟨-, hlex⟩
    · exact absurd hlt h
    · exact hlex
  | case4 b bs => exact iff_of_true rfl .nil
  | case5 a =>
    exact iff_of_false Bool.false_ne_true List.not_lex_nil

/-- A lookup finds the entry of the key that is the same up to letter case. -/
theorem getElem?_eq_some_iff {β : Type*} {m : IrcMap β} {k : Str} {v : β} :
    m[k]? = some v ↔ ∃ k', (k', v) ∈ m.toList ∧ caseFold k' = caseFold k := by
  constructor
  · intro h
    have hmem : k ∈ m := ExtTreeMap.mem_iff_isSome_getElem?.2 (by rw [h]; rfl)
    obtain ⟨k', hk'⟩ := Option.isSome_iff_exists.1 (ExtTreeMap.mem_iff_isSome_getKey?.1 hmem)
    have hall := ExtTreeMap.compare_getKey?_self (t := m) (k := k)
    rw [hk', Option.all_some, decide_eq_true_eq] at hall
    refine ⟨k', OrderedMap.mem_toList_iff.2 ⟨?_, ?_⟩, (ircCmp_eq_iff _ _).1 hall⟩
    · rw [ExtTreeMap.getKey?_congr hall, hk']
    · rw [ExtTreeMap.getElem?_congr hall, h]
  · rintro ⟨k', hk', hfold⟩
    rw [← ExtTreeMap.getElem?_congr ((ircCmp_eq_iff _ _).2 hfold)]
    exact (OrderedMap.mem_toList_iff.1 hk').2

/-- `IrcStringCompare` is a strict weak order, the lexicographic one of the folded strings. Two
strings are incomparable exactly when they have one length and the same folded characters, and then
a map takes them for one key. -/
theorem ircStringCompare_order {β : Type*} :
    (∀ a, ircStringCompare a a = false) ∧
      (∀ a b c, ircStringCompare a b = true → ircStringCompare b c = true →
        ircStringCompare a c = true) ∧
      (∀ a b c, Incomparable a b → Incomparable b c → Incomparable a c) ∧
      (∀ a b, Incomparable a b ↔ a.length = b.length ∧
        ∀ i (ha : i < a.length) (hb : i < b.length), ircTolower a[i] = ircTolower b[i]) ∧
      (∀ a b, ircStringCompare a b = true ↔ List.Lex (· < ·) (signedFold a) (signedFold b)) ∧
      ∀ (m : IrcMap β) k v,
        m[k]? = some v ↔ ∃ k', (k', v) ∈ m.toList ∧ caseFold k' = caseFold k := by
  refine ⟨fun a => ((incomparable_iff a a).2 rfl).1, fun a b c hab hbc => ?_,
    fun a b c hab hbc => ?_, fun a b => ?_, ircStringCompare_iff_lex, fun m k v =>
      getElem?_eq_some_iff⟩
  · rw [← ircCmp_eq_lt_iff] at hab hbc ⊢
    exact TransCmp.lt_trans hab hbc
  · rw [incomparable_iff] at hab hbc ⊢
    exact hab.trans hbc
  · rw [incomparable_iff, caseFold_eq_iff]

end Ircserv
