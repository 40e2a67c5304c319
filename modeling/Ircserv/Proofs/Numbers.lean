import Ircserv.Dispatch
import Mathlib.Data.List.TakeDrop
import Mathlib.Data.List.TakeWhile

/-!
# Limits, as they are read and printed

`parsePositiveLimit` looks at what follows the white space of its argument, up to a NUL
(`parsePositiveLimit_congr`), and accepts it exactly when it denotes a limit
(`parsePositiveLimit_iff`). A limit is printed as digits, and read again as itself.
-/

namespace Ircserv

namespace ChannelCommandHandler

variable {value : Str} {n : Int}

/-- What `strtol` reads a number from. -/
def subject (value : Str) : Str := (cStr value).dropWhile isspace

/-- The digits of the subject, after its sign. -/
def digitsOf (subject : Str) : Bool × Str :=
  match subject with
  | c :: rest => if c = chr '-' then (true, rest) else if c = chr '+' then (false, rest)
      else (false, c :: rest)
  | [] => (false, [])

/-- The value of the digits. -/
def signed (negative : Bool) (digits : Str) : Int :=
  if negative then -(decimal digits : Int) else decimal digits

/-- The limit that the subject denotes. -/
def limitOf (subject : Str) : Option Int :=
  let (negative, body) := digitsOf subject
  let n := signed negative (body.takeWhile isDigit)
  if body.takeWhile isDigit ≠ [] ∧ body.dropWhile isDigit = [] ∧ 1 ≤ n ∧ n ≤ INT_MAX then some n
  else none

theorem strtol_eq (nptr : Str) : strtol nptr =
    let (negative, body) := digitsOf (nptr.dropWhile isspace)
    let n := signed negative (body.takeWhile isDigit)
    if body.takeWhile isDigit = [] then (0, false, nptr)
    else if LONG_MAX < n then (LONG_MAX, true, body.dropWhile isDigit)
    else if n < LONG_MIN then (LONG_MIN, true, body.dropWhile isDigit)
    else (n, false, body.dropWhile isDigit) := by
  unfold strtol
  simp only [List.span_eq_takeWhile_dropWhile]
  rfl

theorem parsePositiveLimit_eq (value : Str) : parsePositiveLimit value = limitOf (subject value) := by
  have hbounds : (1 : Int) ≤ INT_MAX ∧ INT_MAX < LONG_MAX ∧ LONG_MIN < 1 := by decide
  by_cases hnil : value = []
  · subst hnil
    rfl
  rcases hb : digitsOf (subject value) with ⟨negative, body⟩
  have hstrtol := strtol_eq (cStr value)
  rw [← subject, hb] at hstrtol
  rw [parsePositiveLimit, if_neg hnil, hstrtol, limitOf, hb]
  dsimp only
  generalize signed negative (body.takeWhile isDigit) = n
  split_ifs <;> simp_all <;> omega

/-- All of the argument is white space, a plus that may be left out, and digits, and the number is
one that a limit can have. -/
def DenotesLimit (value : Str) (n : Int) : Prop :=
  ∃ spaces plus digits, value = spaces ++ plus ++ digits ∧ (∀ c ∈ spaces, isspace c = true) ∧
    (plus = [] ∨ plus = lit "+") ∧ digits ≠ [] ∧ (∀ c ∈ digits, isDigit c = true) ∧
    n = decimal digits ∧ 1 ≤ n ∧ n ≤ INT_MAX

theorem not_isspace_of_isDigit : ∀ c, isDigit c = true →
    isspace c = false ∧ c ≠ 0 ∧ c ≠ chr '-' ∧ c ≠ chr '+' :=
  forall_byte (by decide +kernel)

theorem digitsOf_digits {digits : Str} (h : ∀ c ∈ digits, isDigit c = true) :
    digitsOf digits = (false, digits) := by
  cases digits with
  | nil => rfl
  | cons c digits =>
    have hc := (not_isspace_of_isDigit c (h c List.mem_cons_self)).2.2
    simp [digitsOf, hc]

theorem limitOf_digits {subject digits : Str} (hdigits : digitsOf subject = (false, digits))
    (hne : digits ≠ []) (hall : ∀ c ∈ digits, isDigit c = true) (hrange : 1 ≤ n ∧ n ≤ INT_MAX)
    (hn : n = decimal digits) : limitOf subject = some n := by
  have htake : digits.takeWhile isDigit = digits := List.takeWhile_eq_self_iff.2 hall
  have hdrop : digits.dropWhile isDigit = [] := List.dropWhile_eq_nil_iff.2 hall
  have hval : signed false digits = n := hn.symm
  rw [limitOf, hdigits]
  dsimp only
  rw [htake, hdrop, hval, if_pos ⟨hne, rfl, hrange⟩]

/-- What is left of a limit without the white space. -/
theorem subject_eq {value spaces plus digits : Str} (hv : cStr value = spaces ++ plus ++ digits)
    (hspaces : ∀ c ∈ spaces, isspace c = true) (hplus : plus = [] ∨ plus = lit "+")
    (hne : digits ≠ []) (hdigits : ∀ c ∈ digits, isDigit c = true) :
    subject value = plus ++ digits := by
  obtain ⟨c, cs, rfl⟩ := List.exists_cons_of_ne_nil hne
  have hc := (not_isspace_of_isDigit c (hdigits c List.mem_cons_self)).1
  rw [subject, hv, List.append_assoc, List.dropWhile_append_of_pos hspaces]
  rcases hplus with rfl | rfl
  · rw [List.nil_append, List.dropWhile_cons_of_neg (by simp [hc])]
  · exact List.dropWhile_cons_of_neg (by decide)

/-- A limit is accepted when what precedes the first NUL denotes it. -/
theorem parsePositiveLimit_iff (value : Str) (n : Int) :
    parsePositiveLimit value = some n ↔ DenotesLimit (cStr value) n := by
  rw [parsePositiveLimit_eq]
  constructor
  · intro h
    have hsplit := List.takeWhile_append_dropWhile (p := isspace) (l := cStr value)
    have hspaces : ∀ c ∈ (cStr value).takeWhile isspace, isspace c = true :=
      fun c hc => List.mem_takeWhile_imp hc
    rw [limitOf] at h
    rcases hb : digitsOf (subject value) with ⟨negative, body⟩
    rw [hb] at h
    dsimp only at h
    split_ifs at h with hc
    obtain ⟨hne, hall, hpos, hmax⟩ := hc
    cases h
    have htake : body.takeWhile isDigit = body :=
      List.takeWhile_eq_self_iff.2 (List.dropWhile_eq_nil_iff.1 hall)
    rw [htake] at hne hpos hmax ⊢
    have hdigits : ∀ c ∈ body, isDigit c = true := List.dropWhile_eq_nil_iff.1 hall
    have hnegative : negative = false := by
      by_contra hneg
      rw [Bool.not_eq_false] at hneg
      rw [hneg, signed, if_pos rfl] at hpos
      omega
    subst hnegative
    unfold digitsOf at hb
    split at hb
    · rename_i c rest hsubject
      rw [subject] at hsubject
      rw [hsubject] at hsplit
      split_ifs at hb with hminus hplus <;> cases hb
      · exact ⟨_, lit "+", _, hsplit.symm.trans (by simp [hplus, lit]), hspaces, .inr rfl, hne,
          hdigits, rfl, hpos, hmax⟩
      · exact ⟨_, [], _, hsplit.symm.trans (by simp), hspaces, .inl rfl, hne, hdigits, rfl, hpos,
          hmax⟩
    · cases hb
      exact absurd rfl hne
  · rintro ⟨spaces, plus, digits, hv, hspaces, hplus, hne, hdigits, hn, hrange⟩
    have hsubject := subject_eq hv hspaces hplus hne hdigits
    rcases hplus with rfl | rfl
    · refine limitOf_digits ?_ hne hdigits hrange hn
      rw [hsubject]
      exact digitsOf_digits hdigits
    · refine limitOf_digits ?_ hne hdigits hrange hn
      rw [hsubject]
      rfl

/-- No argument that has a NUL denotes a limit. -/
theorem DenotesLimit.cStr_eq {value : Str} (h : DenotesLimit value n) :
    (0 : UInt8) ∉ value ∧ cStr value = value := by
  have hnul : (0 : UInt8) ∉ value := by
    obtain ⟨spaces, plus, digits, rfl, hspaces, hplus, -, hdigits, -⟩ := h
    simp only [List.mem_append, not_or]
    refine ⟨⟨fun hmem => absurd (hspaces 0 hmem) (by decide), ?_⟩,
      fun hmem => absurd (hdigits 0 hmem) (by decide)⟩
    rcases hplus with rfl | rfl <;> decide
  refine ⟨hnul, List.takeWhile_eq_self_iff.2 fun c hc => ?_⟩
  rw [bne_iff_ne]
  rintro rfl
  exact hnul hc

/-- Two arguments that differ in the white space at their fronts, or after a NUL, denote the
same. -/
theorem parsePositiveLimit_congr {v w : Str} (h : subject v = subject w) :
    parsePositiveLimit v = parsePositiveLimit w := by
  rw [parsePositiveLimit_eq, parsePositiveLimit_eq, h]

/-- The subject of a limit is a sign and digits. -/
theorem limit_subject (h : parsePositiveLimit value = some n) :
    subject value ≠ [] ∧ ∀ c ∈ subject value, c = chr '-' ∨ c = chr '+' ∨ isDigit c = true := by
  obtain ⟨spaces, plus, digits, hv, hspaces, hplus, hne, hdigits, -⟩ :=
    (parsePositiveLimit_iff value n).1 h
  rw [subject_eq hv hspaces hplus hne hdigits]
  refine ⟨List.append_ne_nil_of_right_ne_nil _ hne, fun c hc => ?_⟩
  rcases List.mem_append.1 hc with hsign | hdigit
  · rcases hplus with rfl | rfl
    · cases hsign
    · exact .inr (.inl (List.mem_singleton.1 hsign))
  · exact .inr (.inr (hdigits c hdigit))

theorem limit_range (h : parsePositiveLimit value = some n) : 1 ≤ n ∧ n ≤ INT_MAX := by
  obtain ⟨_, _, _, -, -, -, -, -, -, hrange⟩ := (parsePositiveLimit_iff value n).1 h
  exact hrange

section Print

theorem decimal_append (digits : Str) (d : UInt8) :
    decimal (digits ++ [d]) = 10 * decimal digits + (d.toNat - 48) := by
  rw [decimal, List.foldl_append]
  rfl

/-- The digits of a number denote it. -/
theorem decimal_toDigits (n : Nat) : ((Nat.toDigits 10 n).map chr).all isDigit = true ∧
    decimal ((Nat.toDigits 10 n).map chr) = n := by
  have hdigit : ∀ d < 10, isDigit (chr d.digitChar) = true ∧ (chr d.digitChar).toNat - 48 = d := by
    decide
  induction n using Nat.strongRecOn with
  | ind n ih =>
    rw [Nat.toDigits_eq_if (by omega)]
    split_ifs with hn
    · obtain ⟨hd, hval⟩ := hdigit n hn
      simp [hd, decimal, hval]
    · obtain ⟨hall, hdec⟩ := ih (n / 10) (by omega)
      obtain ⟨hd, hval⟩ := hdigit (n % 10) (by omega)
      rw [List.map_append, List.map_singleton, List.all_append, hall, decimal_append, hdec, hval]
      refine ⟨by simp [hd], by omega⟩

theorem intToString_natCast (n : Nat) : intToString n = (Nat.toDigits 10 n).map chr := by
  rw [intToString, lit, show toString (n : Int) = n.repr from rfl, Nat.toList_repr]

theorem intToString_spec (h : 0 ≤ n) : intToString n ≠ [] ∧
    (∀ c ∈ intToString n, isDigit c = true) ∧ (decimal (intToString n) : Int) = n := by
  obtain ⟨k, rfl⟩ := Int.eq_ofNat_of_zero_le h
  obtain ⟨hall, hdec⟩ := decimal_toDigits k
  rw [intToString_natCast]
  exact ⟨by simp, List.all_eq_true.1 hall, by rw [hdec]⟩

theorem intToString_negSucc (k : Nat) :
    intToString (Int.negSucc k) = chr '-' :: intToString ((k + 1 : Nat) : Int) := by
  rw [intToString_natCast, intToString, lit,
    show toString (Int.negSucc k) = "-" ++ (k + 1).repr from rfl, String.toList_append,
    List.map_append, Nat.toList_repr]
  rfl

/-- The digits of a number end where a dash stands. -/
theorem takeWhile_intToString (k : Nat) (rest : Str) :
    (intToString (k : Int) ++ chr '-' :: rest).takeWhile isDigit = intToString (k : Int) := by
  obtain ⟨-, hall, -⟩ := intToString_spec (n := (k : Int)) (by omega)
  rw [List.takeWhile_append_of_pos hall, List.takeWhile_cons_of_neg (by decide), List.append_nil]

/-- A printed number that a dash follows is told apart from every other. -/
theorem intToString_dash_inj {a b : Int} {x y : Str}
    (h : intToString a ++ chr '-' :: x = intToString b ++ chr '-' :: y) : a = b ∧ x = y := by
  have hnat : ∀ {k l : Nat}, intToString (k : Int) ++ chr '-' :: x =
      intToString (l : Int) ++ chr '-' :: y → k = l ∧ x = y := by
    intro k l hkl
    have hdigits := congrArg (List.takeWhile isDigit) hkl
    rw [takeWhile_intToString, takeWhile_intToString] at hdigits
    have hk := (intToString_spec (n := (k : Int)) (by omega)).2.2
    have hl := (intToString_spec (n := (l : Int)) (by omega)).2.2
    rw [hdigits] at hk hkl
    refine ⟨by omega, ?_⟩
    exact (List.cons.inj (List.append_cancel_left hkl)).2
  -- the sign of one is no digit of the other
  have hsign : ∀ (k : Nat) (z w : Str), intToString (k : Int) ++ z ≠ chr '-' :: w := by
    intro k z w hz
    obtain ⟨hne, hall, -⟩ := intToString_spec (n := (k : Int)) (by omega)
    obtain ⟨d, ds, hd⟩ := List.exists_cons_of_ne_nil hne
    rw [hd] at hz hall
    have hdash : isDigit (chr '-') = true := (List.cons.inj hz).1 ▸ hall d List.mem_cons_self
    exact absurd hdash (by decide)
  cases a with
  | ofNat k =>
    cases b with
    | ofNat l =>
      obtain ⟨rfl, rfl⟩ := hnat h
      exact ⟨rfl, rfl⟩
    | negSucc l =>
      rw [intToString_negSucc] at h
      exact absurd h (hsign k _ _)
  | negSucc k =>
    rw [intToString_negSucc] at h
    cases b with
    | ofNat l => exact absurd h.symm (hsign l _ _)
    | negSucc l =>
      rw [intToString_negSucc] at h
      obtain ⟨hkl, rfl⟩ := hnat (List.cons.inj h).2
      obtain rfl : k = l := by omega
      exact ⟨rfl, rfl⟩

/-- A limit is read as it was printed. -/
theorem parsePositiveLimit_intToString (h : 1 ≤ n) (hn : n ≤ INT_MAX) :
    parsePositiveLimit (intToString n) = some n := by
  obtain ⟨hne, hall, hdec⟩ := intToString_spec (n := n) (by omega)
  have hdenotes : DenotesLimit (intToString n) n :=
    ⟨[], [], _, rfl, by simp, .inl rfl, hne, hall, hdec.symm, h, hn⟩
  rwa [parsePositiveLimit_iff, hdenotes.cStr_eq.2]

end Print

end ChannelCommandHandler

end Ircserv
