import Ircserv.Utils
import Ircserv.Lib.CArray

/-!
# The string functions of libft

They work on `char` arrays, whose size is in the type. A pointer into an array is the array and an
index, and a `const char *` that is only read is what lies from there on.
-/

namespace Ircserv

/-- A `char` array. -/
abbrev CharArray (n : Nat) := { bytes : Str // bytes.length = n }

namespace CharArray

variable {n : Nat}

instance : Inhabited (CharArray n) := ⟨⟨List.replicate n 0, List.length_replicate⟩⟩

/-- `ft_memcpy` of another array's bytes. -/
def ftMemcpy (a : CharArray n) (dst : Nat) (src : Str) : CharArray n :=
  ⟨CArray.store a.1 dst src, by rw [CArray.length_store, a.2]⟩

/-- `a[i] = c`. -/
def setChar (a : CharArray n) (i : Nat) (c : UInt8) : CharArray n := a.ftMemcpy i [c]

/-- `ft_memmove` from one index of the array to another. -/
def ftMemmove (a : CharArray n) (dst src len : Nat) : CharArray n :=
  if dst < src then ⟨CArray.copyUp a.1 dst src len, by rw [CArray.length_copyUp, a.2]⟩
  else if src < dst then ⟨CArray.copyDown a.1 dst src len, by rw [CArray.length_copyDown, a.2]⟩
  else a

end CharArray

/-- A string as a function reads it that gets a pointer to its first character. -/
def cString (s : Str) : Str := CArray.cstr 0 s

def ftStrlen (s : Str) : Nat := (cString s).length

namespace CharArray

variable {n : Nat}

/-- `ft_strlcpy` to the index `dst`. -/
def ftStrlcpy (a : CharArray n) (dst : Nat) (src : Str) (dstsize : Nat) : CharArray n :=
  if dstsize = 0 then a
  else a.ftMemcpy dst ((cString src).take (dstsize - 1) ++ [0])

def ftStrlcat (a : CharArray n) (src : Str) (dstsize : Nat) : CharArray n :=
  -- the loop over `dst` ends at a NUL, or at `dstsize`
  let i := ftStrlen (a.1.take dstsize)
  a.ftStrlcpy i src (dstsize - i)

section

open CArray

variable {a : CharArray n} {s t src : Str} {dstsize : Nat}

/-- What follows the start of an array is moved to the start. -/
theorem prefix_ftMemmove (h : s ++ t <+: a.1) (hroom : s.length + t.length < n) :
    t <+: (a.ftMemmove 0 s.length (t.length + 1)).1 := by
  obtain ⟨r, hr⟩ := h
  have hlen := congrArg List.length hr
  rw [List.length_append, List.length_append, a.2] at hlen
  rcases r with _ | ⟨x, r⟩
  · rw [List.length_nil] at hlen
    omega
  rcases s with _ | ⟨y, s⟩
  · exact ⟨x :: r, hr⟩
  · have hpre : y :: s ++ (t ++ [x]) <+: a.1 := ⟨r, by rw [← hr]; simp⟩
    have hcopy := prefix_copyUp hpre
    rw [List.length_append, List.length_singleton] at hcopy
    rw [ftMemmove, if_pos (by simp)]
    exact (List.prefix_append t [x]).trans hcopy

/-- The start of a string is dropped. -/
theorem holds_ftMemmove (h : Holds 0 a.1 (s ++ t)) :
    Holds 0 (a.ftMemmove 0 s.length (t.length + 1)).1 t := by
  rcases s with _ | ⟨y, s⟩
  · exact h
  · rw [ftMemmove, if_pos (by simp)]
    exact h.shift

theorem holds_ftStrlcpy (h : Holds 0 a.1 s) (hroom : (cString src).length < dstsize)
    (hsize : s.length + dstsize ≤ n) :
    Holds 0 (a.ftStrlcpy s.length src dstsize).1 (s ++ cString src) := by
  rw [ftStrlcpy, if_neg (by omega), List.take_of_length_le (by omega)]
  exact h.append (not_mem_cstr src) (by rw [a.2]; omega)

/-- A string is put after the one that the array holds, if there is room. -/
theorem holds_ftStrlcat (h : Holds 0 a.1 s) (hroom : s.length + (cString src).length < dstsize)
    (hsize : dstsize ≤ n) : Holds 0 (a.ftStrlcat src dstsize).1 (s ++ cString src) := by
  have hlen : ftStrlen (a.1.take dstsize) = s.length := by
    have htake : Holds 0 (a.1.take dstsize) s := by
      refine ⟨h.1, List.prefix_take_iff.2 ⟨h.2, ?_⟩⟩
      rw [List.length_append, List.length_singleton]
      omega
    rw [ftStrlen, cString, htake.cstr_eq]
  rw [ftStrlcat, hlen]
  exact holds_ftStrlcpy h (by omega) (by omega)

end

end CharArray

end Ircserv
