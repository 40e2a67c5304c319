import Ircserv.Lib.CArray
import Mathlib.Data.List.ReduceOption
import Mathlib.Logic.Function.Basic

/-!
# Memory as C has it

Blocks of bytes, and pointers into them. An operation is `none` where C does not say what it does:
out of the bounds of its block, in a block that is no longer there, on bytes that were never
written, or a `free` of something else than the start of a block of the heap.

`Owns` says who is to free what: every block that is there is either in the frame, or it is that of
one of the pointers of a family, which is the only one to it and holds a string.
-/

namespace CMemory

/-- A pointer: a block, and how far into it. -/
structure Ptr where
  block : Nat
  off : Nat := 0
  deriving DecidableEq

def Ptr.add (p : Ptr) (n : Nat) : Ptr := ⟨p.block, p.off + n⟩

inductive Storage
  | heap
  | stack
  deriving DecidableEq

/-- A byte that was never written is `none`. -/
structure Block (β : Type*) where
  bytes : List (Option β)
  storage : Storage

/-- All blocks that there have been, in their order, with `none` for one that is no longer there. -/
structure Mem (β : Type*) where
  blocks : List (Option (Block β)) := []

variable {β : Type*}

namespace Mem

variable (m : Mem β)

def block (b : Nat) : Option (Block β) := m.blocks[b]?.join

def put (b : Nat) (x : Option (Block β)) : Mem β := ⟨m.blocks.set b x⟩

/-- A new block, and the pointer to its start. -/
def alloc (storage : Storage) (bytes : List (Option β)) : Ptr × Mem β :=
  (⟨m.blocks.length, 0⟩, ⟨m.blocks ++ [some ⟨bytes, storage⟩]⟩)

/-- The block is no longer there. -/
def release (storage : Storage) (p : Ptr) : Option (Mem β) := do
  let blk ← m.block p.block
  if p.off = 0 ∧ blk.storage = storage then some (m.put p.block none) else none

/-- How many bytes there are from the pointer on. -/
def size (p : Ptr) : Option Nat := (m.block p.block).map fun blk => blk.bytes.length - p.off

def load (p : Ptr) : Option β := do (← m.block p.block).bytes[p.off]?.join

/-- The first `n` bytes at the pointer. -/
def bytes (p : Ptr) (n : Nat) : Option (List β) := do
  let xs := (((← m.block p.block).bytes.drop p.off).take n).reduceOption
  if xs.length = n then some xs else none

def write (p : Ptr) (xs : List β) : Option (Mem β) := do
  let blk ← m.block p.block
  if p.off + xs.length ≤ blk.bytes.length then
    some (m.put p.block (some { blk with bytes := CArray.store blk.bytes p.off (xs.map some) }))
  else none

end Mem

section Strings

variable [Zero β] [DecidableEq β]

/-- Reads up to the first zero. -/
def readString : List (Option β) → Option (List β)
  | some c :: bytes => if c = 0 then some [] else (readString bytes).map (c :: ·)
  | _ => none

namespace Mem

variable (m : Mem β)

/-- The string at the pointer. -/
def string (p : Ptr) : Option (List β) := do readString ((← m.block p.block).bytes.drop p.off)

/-- The two must not overlap; here they are never in one block. -/
def strcpy (dst src : Ptr) : Option (Mem β) := do
  let s ← m.string src
  if src.block = dst.block then none else m.write dst (s ++ [0])

def strcat (dst src : Ptr) : Option (Mem β) := do
  m.strcpy (dst.add (← m.string dst).length) src

end Mem

end Strings

open CArray Function

/-- What blocks there are. -/
abbrev Blocks (β : Type*) := Nat → Option (Block β)

section Blocks

variable {m m' : Mem β} {b : Nat} {blk : Block β}

theorem Mem.block_length (m : Mem β) : m.block m.blocks.length = none := by
  rw [block, List.getElem?_eq_none (Nat.le_refl _), Option.join_none]

theorem Mem.block_alloc (m : Mem β) (storage : Storage) (bytes : List (Option β)) :
    (m.alloc storage bytes).2.block = update m.block m.blocks.length (some ⟨bytes, storage⟩) := by
  funext b
  rw [alloc, block, update_apply]
  rcases lt_trichotomy b m.blocks.length with hlt | rfl | hgt
  · rw [if_neg hlt.ne, List.getElem?_append_left hlt, block]
  · rw [if_pos rfl, List.getElem?_concat_length, Option.join_some]
  · have hlen : (m.blocks ++ [some (⟨bytes, storage⟩ : Block β)]).length ≤ b := by
      rw [List.length_append]
      exact hgt
    rw [if_neg hgt.ne', List.getElem?_eq_none hlen, block, List.getElem?_eq_none hgt.le]

theorem Mem.block_put (h : m.block b = some blk) (x : Option (Block β)) :
    (m.put b x).block = update m.block b x := by
  have hb : b < m.blocks.length := by
    by_contra hge
    rw [block, List.getElem?_eq_none (Nat.le_of_not_lt hge)] at h
    simp at h
  funext b'
  rw [put, block, update_apply]
  by_cases heq : b' = b
  · subst heq
    rw [if_pos rfl, List.getElem?_set_self hb, Option.join_some]
  · rw [if_neg heq, List.getElem?_set_ne (Ne.symm heq), block]

theorem Mem.release_eq (h : m.block b = some blk) :
    ∃ m', m.release blk.storage ⟨b, 0⟩ = some m' ∧ m'.block = update m.block b none :=
  ⟨m.put b none, by simp [release, h], block_put h none⟩

theorem Mem.size_eq (h : m.block b = some blk) : m.size ⟨b, 0⟩ = some blk.bytes.length := by
  rw [size, h, Option.map_some, Nat.sub_zero]

theorem Mem.write_eq {p : Ptr} {xs : List β} (h : m.block p.block = some blk)
    (hroom : p.off + xs.length ≤ blk.bytes.length) :
    ∃ m', m.write p xs = some m' ∧ m'.block =
      update m.block p.block (some ⟨store blk.bytes p.off (xs.map some), blk.storage⟩) := by
  refine ⟨_, ?_, block_put h _⟩
  rw [write, h]
  exact if_pos hroom

end Blocks

section Strings

variable [Zero β]

/-- The bytes start with the string and its end. -/
def Spells (bytes : List (Option β)) (s : List β) : Prop := Holds (some 0) bytes (s.map some)

/-- The pointer points to the string. -/
def PointsTo (h : Blocks β) (p : Ptr) (s : List β) : Prop :=
  ∃ blk, h p.block = some blk ∧ Spells (blk.bytes.drop p.off) s

/-- The memory after a block of `n` bytes was made to hold a string. -/
def Spelled (h : Blocks β) (b n : Nat) (storage : Storage) (s : List β) (h' : Blocks β) : Prop :=
  ∃ bytes, h' = update h b (some ⟨bytes, storage⟩) ∧ bytes.length = n ∧ Spells bytes s

variable {bytes : List (Option β)} {s t : List β} {h : Blocks β} {p : Ptr} {b i : Nat} {blk : Block β}

namespace Spells

theorem zero_notMem (h : Spells bytes s) : (0 : β) ∉ s := fun hmem =>
  h.1 (List.mem_map_of_mem hmem)

theorem length_lt (h : Spells bytes s) : s.length < bytes.length := by
  have hlen := h.2.length_le
  rwa [List.length_append, List.length_singleton, List.length_map] at hlen

/-- What is there after the start of a string. -/
theorem drop (h : Spells bytes (s ++ t)) : Spells (bytes.drop s.length) t := by
  obtain ⟨hzero, r, hr⟩ := h
  rw [List.map_append] at hzero hr
  refine ⟨fun hmem => hzero (List.mem_append_right _ hmem), r, ?_⟩
  rw [← hr, List.append_assoc, List.append_assoc, ← List.length_map (f := some)]
  simp

/-- A string is put after the one that is there. -/
theorem append (h : Spells bytes s) (ht : (0 : β) ∉ t)
    (hroom : s.length + t.length < bytes.length) :
    Spells (store bytes s.length ((t ++ [0]).map some)) (s ++ t) := by
  have happend := Holds.append h (t := t.map some) (by simpa using ht) (by simpa using hroom)
  rw [List.length_map] at happend
  rw [Spells, List.map_append, List.map_append]
  exact happend

/-- The string is cut off. -/
theorem cut (h : Spells bytes (s ++ t)) : Spells (CArray.store bytes s.length [some 0]) s := by
  have hlen := h.length_lt
  rw [List.length_append] at hlen
  refine ⟨fun hmem => h.1 ?_, ?_⟩
  · rw [List.map_append]
    exact List.mem_append_left _ hmem
  · have hpre : s.map some <+: bytes := by
      refine List.IsPrefix.trans ?_ h.2
      rw [List.map_append, List.append_assoc]
      exact List.prefix_append _ _
    have hroom : (s.map some).length + [some (0 : β)].length ≤ bytes.length := by
      simp only [List.length_map, List.length_singleton]
      omega
    have hstore := prefix_store hpre hroom
    rwa [List.length_map] at hstore

end Spells

theorem PointsTo.zero_notMem (h' : PointsTo h p s) : (0 : β) ∉ s := by
  obtain ⟨blk, -, hs⟩ := h'
  exact hs.zero_notMem

theorem PointsTo.add (h' : PointsTo h p (s ++ t)) : PointsTo h (p.add s.length) t := by
  obtain ⟨blk, hblk, hs⟩ := h'
  refine ⟨blk, hblk, ?_⟩
  rw [Ptr.add, ← List.drop_drop]
  exact hs.drop

theorem PointsTo.drop (h' : PointsTo h p s) (hi : i ≤ s.length) :
    PointsTo h (p.add i) (s.drop i) := by
  rw [← List.take_append_drop i s] at h'
  have hadd := h'.add
  rwa [List.length_take, Nat.min_eq_left hi] at hadd

/-- Only the pointer's own block matters. -/
theorem PointsTo.congr (h' : PointsTo h p s) {k : Blocks β} (heq : k p.block = h p.block) :
    PointsTo k p s := by
  obtain ⟨blk, hblk, hs⟩ := h'
  exact ⟨blk, heq.trans hblk, hs⟩

theorem PointsTo.update (h' : PointsTo h p s) (hb : p.block ≠ b) (x : Option (Block β)) :
    PointsTo (update h b x) p s := h'.congr (update_of_ne hb _ _)

variable {m : Mem β} {src : Ptr}

theorem PointsTo.bytes_eq (h : PointsTo m.block p s) : m.bytes p s.length = some s := by
  obtain ⟨blk, hblk, -, r, hr⟩ := h
  have htake : ((blk.bytes.drop p.off).take s.length).reduceOption = s := by
    rw [← hr, List.append_assoc, List.take_left' (List.length_map _), List.reduceOption,
      List.filterMap_map, Function.id_comp, List.filterMap_some]
  simp [Mem.bytes, hblk, htake]

/-- What is read in a string or at its end. -/
theorem PointsTo.load_eq (h : PointsTo m.block p s) (hi : i ≤ s.length) :
    m.load (p.add i) = some ((s ++ [0]).getD i 0) := by
  obtain ⟨blk, hblk, -, r, hr⟩ := h
  have hget : blk.bytes[p.off + i]? = (((s ++ [0]).map some) ++ r)[i]? := by
    rw [← List.getElem?_drop, ← hr, List.map_append]
    rfl
  have hlt : i < (s ++ [0]).length := by simpa using Nat.lt_succ_of_le hi
  rw [Mem.load, Ptr.add, hblk]
  rw [List.getElem?_append_left (by rwa [List.length_map]), List.getElem?_map,
    List.getElem?_eq_getElem hlt] at hget
  simp [hget, List.getD_eq_getElem?_getD, List.getElem?_eq_getElem hlt]

variable [DecidableEq β]

/-- A text is put at the start, whatever was there, and read up to its first zero. -/
theorem Spells.store (hroom : t.length < bytes.length) :
    Spells (CArray.store bytes 0 ((t ++ [0]).map some)) (cstr 0 t) := by
  have hlen : ([] : List (Option β)).length + ((t ++ [0]).map some).length ≤ bytes.length := by
    simpa using Nat.succ_le_of_lt hroom
  have hstore : (t ++ [0]).map some <+: CArray.store bytes 0 ((t ++ [0]).map some) := by
    simpa using prefix_store List.nil_prefix hlen
  have hcut : cstr 0 t ++ [0] <+: t ++ [0] := by
    rcases hrest : t.dropWhile (· ≠ 0) with _ | ⟨c, r⟩
    · have hall := List.takeWhile_append_dropWhile (p := fun x => decide (x ≠ 0)) (l := t)
      rw [hrest, List.append_nil] at hall
      exact ⟨[], by rw [cstr, hall, List.append_nil]⟩
    · have hhead := List.head?_dropWhile_not (fun x => decide (x ≠ 0)) t
      have hall := List.takeWhile_append_dropWhile (p := fun x => decide (x ≠ 0)) (l := t)
      rw [hrest] at hall hhead
      obtain rfl : c = 0 := by simpa using hhead
      refine ⟨r ++ [0], ?_⟩
      rw [cstr]
      conv_rhs => rw [← hall]
      simp
  refine ⟨by simpa using not_mem_cstr t, List.IsPrefix.trans ?_ hstore⟩
  simpa using hcut.map some

theorem readString_eq (h : Spells bytes s) : readString bytes = some s := by
  obtain ⟨r, hr⟩ := h.2
  have hzero := h.zero_notMem
  clear h
  induction s generalizing bytes with
  | nil =>
    rw [← hr]
    exact if_pos rfl
  | cons c s ih =>
    have hc : c ≠ 0 := fun hc => hzero (by rw [hc]; exact List.mem_cons_self)
    have hread := ih rfl fun hmem => hzero (List.mem_cons_of_mem c hmem)
    rw [← hr, List.map_cons, List.cons_append, List.cons_append, readString, if_neg hc, hread,
      Option.map_some]

theorem PointsTo.string_eq (h : PointsTo m.block p s) : m.string p = some s := by
  obtain ⟨blk, hblk, hs⟩ := h
  rw [Mem.string, hblk]
  exact readString_eq hs

theorem Mem.write_spelled (hblk : m.block b = some blk) (hroom : t.length < blk.bytes.length) :
    ∃ m', m.write ⟨b, 0⟩ (t ++ [0]) = some m' ∧
      Spelled m.block b blk.bytes.length blk.storage (cstr 0 t) m'.block := by
  have hlen : (⟨b, 0⟩ : Ptr).off + (t ++ [0]).length ≤ blk.bytes.length := by
    simpa using Nat.succ_le_of_lt hroom
  obtain ⟨m', hm', hblocks⟩ := m.write_eq hblk hlen
  exact ⟨m', hm', _, hblocks, length_store _ _ _, .store hroom⟩

theorem Mem.strcpy_eq (hblk : m.block b = some blk) (hsrc : PointsTo m.block src t)
    (hne : src.block ≠ b) (hroom : t.length < blk.bytes.length) :
    ∃ m', m.strcpy ⟨b, 0⟩ src = some m' ∧
      Spelled m.block b blk.bytes.length blk.storage t m'.block := by
  obtain ⟨m', hm', hs⟩ := m.write_spelled hblk hroom
  rw [cstr_of_not_mem hsrc.zero_notMem] at hs
  refine ⟨m', ?_, hs⟩
  rw [strcpy, hsrc.string_eq]
  exact (if_neg hne).trans hm'

theorem Mem.strcat_eq (hblk : m.block b = some blk) (hdst : Spells blk.bytes s)
    (hsrc : PointsTo m.block src t) (hne : src.block ≠ b)
    (hroom : s.length + t.length < blk.bytes.length) : ∃ m', m.strcat ⟨b, 0⟩ src = some m' ∧
      Spelled m.block b blk.bytes.length blk.storage (s ++ t) m'.block := by
  have hlen : (⟨b, s.length⟩ : Ptr).off + (t ++ [0]).length ≤ blk.bytes.length := by
    simpa [Nat.add_assoc] using Nat.succ_le_of_lt hroom
  obtain ⟨m', hm', hblocks⟩ := m.write_eq hblk hlen
  refine ⟨m', ?_, _, hblocks, length_store _ _ _, hdst.append hsrc.zero_notMem hroom⟩
  have hstring : m.string ⟨b, 0⟩ = some s := PointsTo.string_eq ⟨blk, hblk, hdst⟩
  rw [strcat, hstring, Option.bind_eq_bind, Option.bind_some, Ptr.add, Nat.zero_add, strcpy,
    hsrc.string_eq]
  exact (if_neg hne).trans hm'

end Strings

section Owning

variable [Zero β] {ι : Type*}

/-- A null pointer, or one to the start of a block of the heap that holds the string. -/
inductive Buffer (h : Blocks β) : Option Ptr → Option (List β) → Prop
  | null : Buffer h none none
  | held {b : Nat} {bytes : List (Option β)} {s : List β} (hblk : h b = some ⟨bytes, .heap⟩)
      (hs : Spells bytes s) : Buffer h (some ⟨b, 0⟩) (some s)

/-- The blocks that are there are those of the pointers, each with one pointer to it, and those of
the frame. -/
structure Owns (h : Blocks β) (ptr : ι → Option Ptr) (str : ι → Option (List β))
    (frame : Blocks β) : Prop where
  buffer : ∀ i, Buffer h (ptr i) (str i)
  inj : ∀ i j p, ptr i = some p → ptr j = some p → i = j
  apart : ∀ i b, ptr i = some ⟨b, 0⟩ → frame b = none
  rest : ∀ b, (∀ i, ptr i ≠ some ⟨b, 0⟩) → h b = frame b

variable {h frame : Blocks β} {ptr : ι → Option Ptr} {str : ι → Option (List β)} {b : Nat} {i : ι}
  {bytes : List (Option β)} {s : List β}

theorem Buffer.update {p : Option Ptr} {s : Option (List β)} (hp : Buffer h p s)
    (hb : p ≠ some ⟨b, 0⟩) (x : Option (Block β)) : Buffer (update h b x) p s := by
  rcases hp with _ | @⟨b', bytes, s, hblk, hs⟩
  · exact .null
  · refine .held ?_ hs
    rwa [update_of_ne fun heq => hb (by rw [heq])]

theorem Buffer.isSome_eq {p : Option Ptr} {t : Option (List β)} (h' : Buffer h p t) :
    p.isSome = t.isSome := by
  cases h' <;> rfl

theorem Buffer.eq_none {p : Option Ptr} {t : Option (List β)} (h' : Buffer h p t) (ht : t = none) :
    p = none := by
  rcases h' with _ | _
  · rfl
  · simp at ht

theorem Buffer.of_none {p : Option Ptr} {t : Option (List β)} (h' : Buffer h p t) (hp : p = none) :
    t = none := by
  rcases h' with _ | _
  · rfl
  · simp at hp

theorem Buffer.of_some {p : Option Ptr} {t : Option (List β)} (h' : Buffer h p t) {q : Ptr}
    (hq : p = some q) : ∃ b bytes s, q = ⟨b, 0⟩ ∧ t = some s ∧ h b = some ⟨bytes, .heap⟩ ∧
      Spells bytes s := by
  rcases h' with _ | ⟨hblk, hs⟩
  · simp at hq
  · exact ⟨_, _, _, (Option.some.inj hq).symm, rfl, hblk, hs⟩

namespace Owns

theorem not_owned (hO : Owns h ptr str frame) (hb : frame b ≠ none) (i : ι) : ptr i ≠ some ⟨b, 0⟩ :=
  fun hi => hb (hO.apart i b hi)

theorem not_owned_of_none (hO : Owns h ptr str frame) (hb : h b = none) (i : ι) :
    ptr i ≠ some ⟨b, 0⟩ := by
  intro hi
  obtain ⟨b', bytes, s, heq, -, hblk, -⟩ := (hO.buffer i).of_some hi
  cases heq
  rw [hb] at hblk
  simp at hblk

/-- The string of a pointer is there. -/
theorem pointsTo_buffer (hO : Owns h ptr str frame) {p : Ptr} (hp : ptr i = some p)
    (hs : str i = some s) : PointsTo h p s := by
  obtain ⟨b, bytes, t, rfl, ht, hblk, hspells⟩ := (hO.buffer i).of_some hp
  rw [hs] at ht
  cases ht
  exact ⟨_, hblk, hspells⟩

theorem ne_of_frame {blk : Block β} {n : Nat} (hO : Owns h ptr str (update frame n (some blk)))
    (hp : ptr i = some ⟨b, 0⟩) : b ≠ n := by
  rintro rfl
  have hnone := hO.apart i b hp
  rw [update_self] at hnone
  exact Option.some_ne_none _ hnone

theorem frame_eq (hO : Owns h ptr str frame) (hb : frame b ≠ none) : h b = frame b :=
  hO.rest b (hO.not_owned hb)

/-- A string of the frame is there. -/
theorem pointsTo (hO : Owns h ptr str frame) {p : Ptr} (hp : PointsTo frame p s) :
    PointsTo h p s := by
  refine hp.congr (hO.frame_eq ?_)
  obtain ⟨blk, hblk, -⟩ := hp
  simp [hblk]

/-- A block that is none of the pointers' is made, changed or released. -/
theorem put (hO : Owns h ptr str frame) (hb : ∀ i, ptr i ≠ some ⟨b, 0⟩) (x : Option (Block β)) :
    Owns (update h b x) ptr str (update frame b x) where
  buffer i := (hO.buffer i).update (hb i) x
  inj := hO.inj
  apart i b' hi := by
    rw [update_of_ne fun heq => hb i (by rw [hi, heq])]
    exact hO.apart i b' hi
  rest b' hb' := by
    by_cases heq : b' = b
    · rw [heq, update_self, update_self]
    · rw [update_of_ne heq, update_of_ne heq]
      exact hO.rest b' hb'

theorem frame_none (hO : Owns h ptr str frame) (hb : h b = none) : frame b = none := by
  rw [← hO.rest b (hO.not_owned_of_none hb), hb]

/-- A block that is new is in the frame. -/
theorem alloc {m : Mem β} (hO : Owns m.block ptr str frame) (storage : Storage)
    (bytes : List (Option β)) : Owns (m.alloc storage bytes).2.block ptr str
      (update frame m.blocks.length (some ⟨bytes, storage⟩)) := by
  rw [m.block_alloc]
  exact hO.put (hO.not_owned_of_none m.block_length) _

/-- A block of the frame is made to hold a string. -/
theorem spelled {blk : Block β} {h' : Blocks β} (hO : Owns h ptr str (update frame b (some blk)))
    (hs : Spelled h b blk.bytes.length blk.storage s h') : ∃ bytes,
      Owns h' ptr str (update frame b (some ⟨bytes, blk.storage⟩)) ∧
        bytes.length = blk.bytes.length ∧ Spells bytes s := by
  obtain ⟨bytes, rfl, hlen, hs⟩ := hs
  refine ⟨bytes, ?_, hlen, hs⟩
  have hput := hO.put (b := b) (hO.not_owned (by simp)) (some ⟨bytes, blk.storage⟩)
  rwa [update_idem] at hput

/-- The block of the frame. -/
theorem block_eq {blk : Block β} (hO : Owns h ptr str (update frame b (some blk))) :
    h b = some blk := by
  rw [hO.frame_eq (by simp), update_self]

/-- A block of the frame is there no longer. -/
theorem discard {blk : Block β} (hO : Owns h ptr str (update frame b (some blk)))
    (hframe : frame b = none) : Owns (update h b none) ptr str frame := by
  have hput := hO.put (b := b) (hO.not_owned (by simp)) none
  have hsame : update frame b none = frame := update_eq_self_iff.2 hframe.symm
  rwa [update_idem, hsame] at hput

section Operations

variable [DecidableEq β] {m : Mem β} {blk : Block β} {src : Ptr} {t : List β}

theorem write (hO : Owns m.block ptr str (update frame b (some blk)))
    (hroom : t.length < blk.bytes.length) :
    ∃ m' bytes, m.write ⟨b, 0⟩ (t ++ [0]) = some m' ∧
      Owns m'.block ptr str (update frame b (some ⟨bytes, blk.storage⟩)) ∧
      bytes.length = blk.bytes.length ∧ Spells bytes (cstr 0 t) := by
  obtain ⟨m', hm', hs⟩ := Mem.write_spelled hO.block_eq hroom
  obtain ⟨bytes, hspelled⟩ := hO.spelled hs
  exact ⟨m', bytes, hm', hspelled⟩

/-- A text is put at the start, and then a zero behind it. -/
theorem write_end (hO : Owns m.block ptr str (update frame b (some blk)))
    (hroom : t.length < blk.bytes.length) :
    ∃ m' m'' bytes, m.write ⟨b, 0⟩ t = some m' ∧ m'.write ⟨b, t.length⟩ [0] = some m'' ∧
      Owns m''.block ptr str (update frame b (some ⟨bytes, blk.storage⟩)) ∧
      Spells bytes (cstr 0 t) := by
  have hroom₁ : 0 + t.length ≤ blk.bytes.length := by omega
  have hroom₂ : t.length + [(0 : β)].length ≤ (CArray.store blk.bytes 0 (t.map some)).length := by
    rw [length_store]
    exact hroom
  obtain ⟨m', hm', hblocks'⟩ := Mem.write_eq (p := ⟨b, 0⟩) hO.block_eq hroom₁
  have hblk' : m'.block b = some ⟨CArray.store blk.bytes 0 (t.map some), blk.storage⟩ := by
    rw [hblocks', update_self]
  obtain ⟨m'', hm'', hblocks''⟩ := Mem.write_eq (p := ⟨b, t.length⟩) hblk' hroom₂
  have hstore : CArray.store (CArray.store blk.bytes 0 (t.map some)) t.length [some 0] =
      CArray.store blk.bytes 0 ((t ++ [0]).map some) := by
    have hmap := store_store (t.map some) [some 0] (a := blk.bytes) (i := 0)
    rw [List.length_map, Nat.zero_add] at hmap
    rw [hmap, List.map_append, List.map_singleton]
  have hspelled : Spelled m.block b blk.bytes.length blk.storage (cstr 0 t) m''.block := by
    refine ⟨_, ?_, length_store _ _ _, .store hroom⟩
    rw [hblocks'', hblocks', update_idem, List.map_singleton, hstore]
  obtain ⟨bytes, hO', -, hs⟩ := hO.spelled hspelled
  exact ⟨m', m'', bytes, hm', hm'', hO', hs⟩

theorem strcpy (hO : Owns m.block ptr str (update frame b (some blk)))
    (hsrc : PointsTo m.block src t) (hne : src.block ≠ b) (hroom : t.length < blk.bytes.length) :
    ∃ m' bytes, m.strcpy ⟨b, 0⟩ src = some m' ∧
      Owns m'.block ptr str (update frame b (some ⟨bytes, blk.storage⟩)) ∧
      bytes.length = blk.bytes.length ∧ Spells bytes t := by
  obtain ⟨m', hm', hs⟩ := Mem.strcpy_eq hO.block_eq hsrc hne hroom
  obtain ⟨bytes, hspelled⟩ := hO.spelled hs
  exact ⟨m', bytes, hm', hspelled⟩

theorem strcat (hO : Owns m.block ptr str (update frame b (some blk))) (hdst : Spells blk.bytes s)
    (hsrc : PointsTo m.block src t) (hne : src.block ≠ b)
    (hroom : s.length + t.length < blk.bytes.length) : ∃ m' bytes, m.strcat ⟨b, 0⟩ src = some m' ∧
      Owns m'.block ptr str (update frame b (some ⟨bytes, blk.storage⟩)) ∧
      bytes.length = blk.bytes.length ∧ Spells bytes (s ++ t) := by
  obtain ⟨m', hm', hs⟩ := Mem.strcat_eq hO.block_eq hdst hsrc hne hroom
  obtain ⟨bytes, hspelled⟩ := hO.spelled hs
  exact ⟨m', bytes, hm', hspelled⟩

end Operations

variable [DecidableEq ι]

/-- A null pointer gets a block of the frame. -/
theorem adopt (hO : Owns h ptr str (update frame b (some ⟨bytes, .heap⟩))) (hi : ptr i = none)
    (hframe : frame b = none) (hs : Spells bytes s) :
    Owns h (update ptr i (some ⟨b, 0⟩)) (update str i (some s)) frame := by
  have hown : ∀ j, ptr j ≠ some ⟨b, 0⟩ := hO.not_owned (by simp)
  have hblk : h b = some ⟨bytes, .heap⟩ := by
    rw [hO.rest b hown, update_self]
  refine ⟨fun j => ?_, fun j k p hj hk => ?_, fun j b' hj => ?_, fun b' hb' => ?_⟩
  · by_cases hji : j = i
    · subst hji
      rw [update_self, update_self]
      exact .held hblk hs
    · rw [update_of_ne hji, update_of_ne hji]
      exact hO.buffer j
  · rw [update_apply] at hj hk
    split_ifs at hj hk with hji hki hki
    · rw [hji, hki]
    · cases hj
      exact absurd hk (hown k)
    · cases hk
      exact absurd hj (hown j)
    · exact hO.inj j k p hj hk
  · rw [update_apply] at hj
    split_ifs at hj
    · cases hj
      exact hframe
    · have hnone := hO.apart j b' hj
      rw [update_of_ne fun heq => hown j (by rw [hj, heq])] at hnone
      exact hnone
  · have hne : b' ≠ b := fun heq => hb' i (by rw [update_self, heq])
    have hrest := hO.rest b' fun j hj => ?_
    · rwa [update_of_ne hne] at hrest
    · by_cases hji : j = i
      · rw [hji, hi] at hj
        simp at hj
      · exact hb' j (by rw [update_of_ne hji, hj])

/-- A pointer gives its block to the frame. -/
theorem yield (hO : Owns h ptr str frame) (hi : ptr i = some ⟨b, 0⟩) :
    Owns h (update ptr i none) (update str i none) (update frame b (h b)) := by
  have hown : ∀ j, j ≠ i → ptr j ≠ some ⟨b, 0⟩ := fun j hji hj => hji (hO.inj j i _ hj hi)
  refine ⟨fun j => ?_, fun j k p hj hk => ?_, fun j b' hj => ?_, fun b' hb' => ?_⟩
  · by_cases hji : j = i
    · rw [hji, update_self, update_self]
      exact .null
    · rw [update_of_ne hji, update_of_ne hji]
      exact hO.buffer j
  · rw [update_apply] at hj hk
    split_ifs at hj hk
    exact hO.inj j k p hj hk
  · rw [update_apply] at hj
    split_ifs at hj with hji
    rw [update_of_ne fun heq => hown j hji (by rw [hj, heq])]
    exact hO.apart j b' hj
  · by_cases heq : b' = b
    · rw [heq, update_self]
    · rw [update_of_ne heq]
      refine hO.rest b' fun j hj => ?_
      by_cases hji : j = i
      · rw [hji, hi] at hj
        cases hj
        exact heq rfl
      · exact hb' j (by rw [update_of_ne hji, hj])

/-- The block of a pointer is freed. -/
theorem release (hO : Owns h ptr str frame) (hi : ptr i = some ⟨b, 0⟩) :
    Owns (update h b none) (update ptr i none) (update str i none) frame := by
  obtain ⟨b', bytes, s, heq, -, hblk, -⟩ := (hO.buffer i).of_some hi
  cases heq
  have hyield := hO.yield hi
  rw [hblk] at hyield
  exact hyield.discard (hO.apart i b hi)

/-- The string of a pointer is cut, and the pointer gives its block to the frame. -/
theorem cut {m : Mem β} {t : List β} (hO : Owns m.block ptr str frame) (hi : ptr i = some ⟨b, 0⟩)
    (hstr : str i = some (s ++ t)) : ∃ m' bytes, m.write ⟨b, s.length⟩ [0] = some m' ∧
      Spells bytes s ∧
      Owns m'.block (update ptr i none) (update str i none)
        (update frame b (some ⟨bytes, .heap⟩)) := by
  obtain ⟨b', bytes, s', heq, hstr', hblk, hs⟩ := (hO.buffer i).of_some hi
  cases heq
  rw [hstr] at hstr'
  cases hstr'
  have hlen := hs.length_lt
  rw [List.length_append] at hlen
  have hroom : s.length + [(0 : β)].length ≤ bytes.length := by
    rw [List.length_singleton]
    omega
  obtain ⟨m', hm', hblocks⟩ := Mem.write_eq (p := ⟨b, s.length⟩) hblk hroom
  refine ⟨m', _, hm', hs.cut, ?_⟩
  have hyield := hO.yield hi
  rw [hblk] at hyield
  have hput := hyield.put (b := b) (hyield.not_owned (by simp))
    (some ⟨CArray.store bytes s.length [some 0], .heap⟩)
  rw [update_idem] at hput
  rw [hblocks]
  exact hput

variable [DecidableEq β] in
/-- The end of a pointer's string is copied to a new block, which the pointer then has, and the old
block is cut there. -/
theorem split {m : Mem β} {n : Nat} {t : List β}
    (hO : Owns m.block ptr str (update frame n (some ⟨bytes, .heap⟩))) (hframe : frame n = none)
    (hi : ptr i = some ⟨b, 0⟩) (hstr : str i = some (s ++ t)) (hroom : t.length < bytes.length) :
    ∃ m' m'' bytes', m.strcpy ⟨n, 0⟩ ⟨b, s.length⟩ = some m' ∧
      m'.write ⟨b, s.length⟩ [0] = some m'' ∧
      Spells bytes' s ∧ Owns m''.block (update ptr i (some ⟨n, 0⟩)) (update str i (some t))
        (update frame b (some ⟨bytes', .heap⟩)) := by
  have hne : b ≠ n := hO.ne_of_frame hi
  have hsrc : PointsTo m.block ⟨b, s.length⟩ t := by
    have hadd := (hO.pointsTo_buffer hi hstr).add
    rwa [Ptr.add, Nat.zero_add] at hadd
  obtain ⟨m', bytes₁, hcopy, hO₁, -, ht⟩ := hO.strcpy hsrc hne hroom
  obtain ⟨m'', bytes', hwrite, hs, hO₂⟩ := hO₁.cut hi hstr
  rw [update_comm hne.symm] at hO₂
  have hnone : update frame b (some ⟨bytes', .heap⟩) n = none := by
    rw [update_of_ne hne.symm, hframe]
  have hO₃ := hO₂.adopt (update_self _ _ _) hnone ht
  rw [update_idem, update_idem] at hO₃
  exact ⟨m', m'', bytes', hcopy, hwrite, hs, hO₃⟩

end Owns

end Owning

end CMemory
