import Ircserv.Lib.Heap
import Mathlib.Data.Ordering.Basic

/-!
# Strings, case folding and name syntax

`std::string` is a sequence of bytes, and `char` is signed. `ircStringCompare` is the comparator
of the nickname map and of the channel map; two names are the same key when `caseFold` sends them
to the same string (`ircCmp_eq_iff`).
-/

open Std

namespace Ircserv

/-- A `std::string`. -/
abbrev Str := List UInt8

/-- A file descriptor. -/
abbrev Fd := Int

/-- Where an object lives. -/
abbrev Addr := Nat

/-- A character constant. -/
def chr (c : Char) : UInt8 := c.toNat.toUInt8

/-- A string literal. -/
def lit (s : String) : Str := s.toList.map chr

/-- What holds of each of the 256 bytes. -/
theorem forall_byte {p : UInt8 → Prop} (h : ∀ n : Fin 256, p (UInt8.ofFin n)) (c : UInt8) : p c :=
  h c.toFin

def cr : UInt8 := 13

def lf : UInt8 := 10

/-- An integer as `std::ostringstream` prints it. -/
def intToString (value : Int) : Str := lit (toString value)

/-- `irc_tolower`. -/
def ircTolower (c : UInt8) : UInt8 :=
  if chr 'A' ≤ c ∧ c ≤ chr 'Z' then c + (chr 'a' - chr 'A')
  else if c = chr '[' then chr '{'
  else if c = chr ']' then chr '}'
  else if c = chr '\\' then chr '|'
  else if c = chr '~' then chr '^'
  else c

def isLetter (c : UInt8) : Bool :=
  (chr 'A' ≤ c && c ≤ chr 'Z') || (chr 'a' ≤ c && c ≤ chr 'z')

def isDigit (c : UInt8) : Bool := chr '0' ≤ c && c ≤ chr '9'

/-- The first range ends at the grave accent. -/
def isSpecial (c : UInt8) : Bool :=
  (chr '[' ≤ c && c ≤ 96) || (chr '{' ≤ c && c ≤ chr '}')

def isNicknameChar (c : UInt8) : Bool := isLetter c || isDigit c || isSpecial c || c == chr '-'

def isChannelStringChar (c : UInt8) : Bool :=
  if c == 0 || c == 7 || c == cr || c == lf then false
  else c != chr ' ' && c != chr ',' && c != chr ':'

/-- `IrcStringCompare::operator()`: whether `a` comes before `b`. -/
def ircStringCompare : Str → Str → Bool
  | a :: as, b :: bs =>
    let lowerA := (ircTolower a).toInt8
    let lowerB := (ircTolower b).toInt8
    if lowerA < lowerB then true
    else if lowerB < lowerA then false
    else ircStringCompare as bs
  | [], _ :: _ => true
  | _, [] => false

def isValidNickname (name : Str) : Bool :=
  match name with
  | [] => false
  | c :: cs =>
    if 9 < name.length then false
    else if !isLetter c && !isSpecial c then false
    else cs.all isNicknameChar

def isValidChannelName (name : Str) : Bool :=
  match name with
  | c :: cs => if name.length < 2 || c != chr '#' then false else cs.all isChannelStringChar
  | [] => false

/-- What `std::map` makes of the comparator: `.eq` when neither string comes first. -/
def ircCmp : Str → Str → Ordering := cmpUsing fun a b => ircStringCompare a b

/-- A name up to letter case. -/
def caseFold (s : Str) : Str := s.map ircTolower

/-- The characters the comparator looks at. -/
def signedFold (s : Str) : List Int8 := (caseFold s).map UInt8.toInt8

/-- The comparator is the lexicographic order of the folded strings. -/
theorem ircStringCompare_iff (a b : Str) :
    ircStringCompare a b = true ↔ compare (signedFold a) (signedFold b) = .lt := by
  fun_induction ircStringCompare a b with
  | case1 a as b bs x y h =>
    simp [signedFold, caseFold, Std.compare_eq_lt.2 h, x, y]
  | case2 a as b bs x y h h' =>
    simp [signedFold, caseFold, Std.compare_eq_gt.2 h', x, y]
  | case3 a as b bs x y h h' ih =>
    have he : x = y := Int8.le_antisymm (Int8.not_lt.1 h') (Int8.not_lt.1 h)
    have hc : compare x y = .eq := Std.compare_eq_iff_eq.2 he
    rw [ih]
    simp only [signedFold, caseFold, List.map_cons, List.compare_cons_cons]
    rw [show compare (ircTolower a).toInt8 (ircTolower b).toInt8 = .eq from hc]
    rfl
  | case4 b bs => simp [signedFold, caseFold]
  | case5 a => cases a <;> simp [signedFold, caseFold]

theorem ircCmp_eq_compare (a b : Str) : ircCmp a b = compare (signedFold a) (signedFold b) := by
  unfold ircCmp cmpUsing
  simp only [ircStringCompare_iff]
  have hs : compare (signedFold a) (signedFold b) = .gt ↔
      compare (signedFold b) (signedFold a) = .lt := OrientedCmp.gt_iff_lt
  cases h : compare (signedFold a) (signedFold b) <;> simp [h] at hs ⊢ <;> simp [hs]

instance : TransCmp ircCmp := OrderedMap.transCmp_of_key signedFold ircCmp_eq_compare

/-- Two names are the same key when they are equal up to letter case. -/
@[simp]
theorem ircCmp_eq_iff (a b : Str) : ircCmp a b = .eq ↔ caseFold a = caseFold b := by
  rw [ircCmp_eq_compare, Std.compare_eq_iff_eq, signedFold, signedFold]
  exact List.map_inj_right fun _ _ h => Int8.ofUInt8.inj h

/-- A map keyed by names up to letter case. -/
abbrev IrcMap (β : Type*) := ExtTreeMap Str β ircCmp

end Ircserv
