import Ircserv.Bircd

/-!
# The poll set

`init_fd` lists the slots in use, and ends if the list has room for all of them. For one more it
never ends: the branch that reports a slot that is not monitored goes on without going to the next
slot.
-/

namespace Ircserv

namespace Bircd

namespace Env

variable (e : Env)

/-- The slots in use from the index `i` on. -/
def inUseFrom (i : Nat) : List Nat :=
  (List.range' i (e.maxfd - i)).filter fun j => (e.fds j).type ≠ .free

/-- The slots in use, in order. -/
def inUse : List Nat := e.inUseFrom 0

/-- What `init_fd` makes of a slot in use. -/
def entryOf (i : Nat) : PollFd where
  fd := i
  events := if ftStrlen (e.fds i).bufWrite.1 > 0 then POLLIN ||| POLLOUT else POLLIN
  revents := 0

variable {e} {i fuel : Nat} {pollfds : List PollFd}

theorem inUseFrom_of_le (h : e.maxfd ≤ i) : e.inUseFrom i = [] := by
  rw [inUseFrom, Nat.sub_eq_zero_of_le h]
  rfl

theorem inUseFrom_of_lt (h : i < e.maxfd) : e.inUseFrom i =
    if (e.fds i).type ≠ .free then i :: e.inUseFrom (i + 1) else e.inUseFrom (i + 1) := by
  have hlen : e.maxfd - i = e.maxfd - (i + 1) + 1 := by omega
  rw [inUseFrom, hlen, List.range'_succ, List.filter_cons]
  simp [inUseFrom]

/-- The loop lists the slots in use if there is room for them. -/
theorem initFdFrom_eq_some (hroom : pollfds.length + (e.inUseFrom i).length ≤ MAX_CLIENTS + 1)
    (hfuel : e.maxfd - i < fuel) :
    e.initFdFrom fuel i pollfds = some (pollfds ++ (e.inUseFrom i).map e.entryOf) := by
  induction fuel generalizing i pollfds with
  | zero => omega
  | succ fuel ih =>
    rw [initFdFrom]
    by_cases hi : i < e.maxfd
    · rw [if_pos hi]
      rw [inUseFrom_of_lt hi] at hroom ⊢
      by_cases htype : (e.fds i).type ≠ .free
      · rw [if_pos htype] at hroom ⊢
        rw [List.length_cons] at hroom
        rw [if_pos htype, if_neg (by omega), ih (by simp; omega) (by omega), List.append_assoc]
        rfl
      · rw [if_neg htype] at hroom ⊢
        rw [if_neg htype]
        exact ih hroom (by omega)
    · rw [if_neg hi, inUseFrom_of_le (Nat.le_of_not_lt hi)]
      simp

/-- The loop does not end if there is no room: at the first slot too many it stays for ever. -/
theorem initFdFrom_eq_none (hlen : pollfds.length ≤ MAX_CLIENTS + 1)
    (hroom : MAX_CLIENTS + 1 < pollfds.length + (e.inUseFrom i).length) :
    e.initFdFrom fuel i pollfds = none := by
  induction fuel generalizing i pollfds with
  | zero => rfl
  | succ fuel ih =>
    rw [initFdFrom]
    by_cases hi : i < e.maxfd
    · rw [if_pos hi]
      have hroom' := hroom
      rw [inUseFrom_of_lt hi] at hroom'
      by_cases htype : (e.fds i).type ≠ .free
      · rw [if_pos htype, List.length_cons] at hroom'
        rw [if_pos htype]
        by_cases hfull : pollfds.length ≥ MAX_CLIENTS + 1
        · rw [if_pos hfull]
          exact ih hlen hroom
        · rw [if_neg hfull]
          exact ih (by simp; omega) (by simp; omega)
      · rw [if_neg htype] at hroom'
        rw [if_neg htype]
        exact ih hlen hroom'
    · rw [inUseFrom_of_le (Nat.le_of_not_lt hi)] at hroom
      simp at hroom
      omega

/-- If the loop ends, it has listed the slots in use. -/
theorem eq_of_initFdFrom {listed : List PollFd} (h : e.initFdFrom fuel i pollfds = some listed) :
    listed = pollfds ++ (e.inUseFrom i).map e.entryOf := by
  induction fuel generalizing i pollfds with
  | zero => cases h
  | succ fuel ih =>
    rw [initFdFrom] at h
    by_cases hi : i < e.maxfd
    · rw [if_pos hi] at h
      by_cases htype : (e.fds i).type ≠ .free
      · rw [if_pos htype] at h
        by_cases hfull : pollfds.length ≥ MAX_CLIENTS + 1
        · rw [if_pos hfull] at h
          exact ih h
        · rw [if_neg hfull] at h
          rw [inUseFrom_of_lt hi, if_pos htype, ih h, List.append_assoc]
          rfl
      · rw [if_neg htype] at h
        rw [inUseFrom_of_lt hi, if_neg htype]
        exact ih h
    · rw [if_neg hi] at h
      rw [inUseFrom_of_le (Nat.le_of_not_lt hi), List.map_nil, List.append_nil]
      exact (Option.some.inj h).symm

theorem eq_of_initFd {e' : Env} (h : e.initFd fuel = some e') :
    e' = { e with pollfds := e.inUse.map e.entryOf } := by
  obtain ⟨listed, hlisted, rfl⟩ := Option.map_eq_some_iff.1 h
  rw [eq_of_initFdFrom hlisted]
  rfl

theorem initFd_eq_some (h : e.inUse.length ≤ MAX_CLIENTS + 1) (hfuel : e.maxfd < fuel) :
    e.initFd fuel = some { e with pollfds := e.inUse.map e.entryOf } := by
  rw [initFd, initFdFrom_eq_some (by simpa [inUse] using h) (by omega)]
  rfl

theorem initFd_eq_none (h : MAX_CLIENTS + 1 < e.inUse.length) (fuel : Nat) :
    e.initFd fuel = none := by
  rw [initFd, initFdFrom_eq_none (Nat.zero_le _) (by simpa [inUse] using h)]
  rfl

theorem ftStrlen_pos_iff (s : Str) : ftStrlen s > 0 ↔ cString s ≠ [] := by
  rw [ftStrlen, gt_iff_lt, List.length_pos_iff]

/-- An entry watches for input, and for output when there is some. -/
theorem events_entryOf (i : Nat) : (e.entryOf i).events.has POLLIN = true ∧
    ((e.entryOf i).events.has POLLOUT = true ↔ cString (e.fds i).bufWrite.1 ≠ []) := by
  rw [← ftStrlen_pos_iff, entryOf]
  dsimp only
  split_ifs with h
  · exact ⟨by decide, iff_of_true (by decide) h⟩
  · exact ⟨by decide, iff_of_false (by decide) h⟩

/-- `init_fd` ends with the entries of the first slots in use, in order, as many as there is room
for; each watches for input, and for output exactly when its write buffer is not empty: when the
string in `buf_write` is not, whatever `buf_write_len` says. -/
def MakesPollSet (e : Env) : Prop :=
  ∃ fuel e', e.initFd fuel = some e' ∧ e'.nfds ≤ MAX_CLIENTS + 1 ∧
    e'.pollfds.map (·.fd) = (e.inUse.take (MAX_CLIENTS + 1)).map Nat.cast ∧
    ∀ p ∈ e'.pollfds, p.events.has POLLIN = true ∧
      (p.events.has POLLOUT = true ↔ cString (e.fds p.fd).bufWrite.1 ≠ [])

/-- A table of slots has its poll set made exactly when at most `MAX_CLIENTS + 1` of them are in
use. -/
theorem initFd_iff (e : Env) : e.MakesPollSet ↔ e.inUse.length ≤ MAX_CLIENTS + 1 := by
  constructor
  · rintro ⟨fuel, e', h, -⟩
    by_contra hroom
    rw [initFd_eq_none (by omega)] at h
    cases h
  · intro hroom
    refine ⟨e.maxfd + 1, _, initFd_eq_some hroom (Nat.lt_succ_self _), ?_, ?_, fun p hp => ?_⟩
    · rw [nfds, List.length_map]
      exact hroom
    · rw [List.take_of_length_le hroom, List.map_map]
      rfl
    · obtain ⟨i, -, rfl⟩ := List.mem_map.1 hp
      exact events_entryOf i

/-- A listener and 43 clients: the loop does not end. -/
theorem initFd_clients : ¬ MakesPollSet
    { maxfd := 256
      fds := fun fd =>
        if fd = 3 then { type := .serv, fctRead := some .srvAccept }
        else if 4 ≤ fd ∧ fd < 47 then
          { type := .client, fctRead := some .clientRead, fctWrite := some .clientWrite }
        else {} } := by
  rintro ⟨fuel, e', h, -⟩
  rw [initFd_eq_none (by decide +kernel)] at h
  cases h

end Env

end Bircd

end Ircserv
