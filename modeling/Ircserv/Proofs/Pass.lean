import Mathlib.Data.List.Nodup
import Ircserv.Proofs.PollSet
import Ircserv.Proofs.Slots

/-!
# One pass over the ready descriptors

`check_fd` calls the read function of an entry and then its write function, though the first may
have closed the descriptor and cleared both. So it calls a null pointer when both events of a client
are up and the read closes it, or when the event for output of a listening socket is up, and
otherwise it does not. A descriptor that was closed is not used again in the pass.
-/

namespace Ircserv

namespace Bircd

open Halting

namespace Event

/-- A system call on a descriptor. -/
def Uses (fd : Fd) : Event → Prop
  | recv g _ => g = fd
  | send g _ => g = fd
  | close g => g = fd
  | _ => False

/-- Part of a broadcast. -/
def IsCast : Event → Prop
  | message _ _ => True
  | queue _ _ => True
  | drop _ _ => True
  | _ => False

end Event

/-- No descriptor is used after it was closed; the latest event comes first. -/
def NoReuse : List Event → Prop
  | [] => True
  | event :: earlier => (∀ fd, event.Uses fd → Event.close fd ∉ earlier) ∧ NoReuse earlier

/-- No call goes to a null pointer. -/
def NoNullCall (pass : List Event) : Prop :=
  ∀ fd callback, Event.call fd callback ∈ pass → callback ≠ none

/-- A read of the client gives bytes, and there is room for them. -/
def Receives (slot : Slot) (k : Calls) : Prop :=
  slot.bufReadLen < BUF_SIZE ∧ ∃ data, k.recv = some data ∧ data ≠ []

instance (slot : Slot) (k : Calls) : Decidable (Receives slot k) :=
  inferInstanceAs (Decidable (slot.bufReadLen < BUF_SIZE ∧ ∃ data ∈ k.recv, data ≠ []))

/-- The process ends at the entry, because `accept` fails. -/
def Exits (e : Env) (k : Calls) (p : PollFd) : Prop :=
  (e.fds p.fd).type = .serv ∧ p.revents.has POLLIN = true ∧ k.accept = none

instance (e : Env) (k : Calls) (p : PollFd) : Decidable (Exits e k p) :=
  inferInstanceAs (Decidable (_ ∧ _))

/-- If the entry is ready for output, it is a client's, and one that is not closed by the read
before that. -/
def WritesClient (e : Env) (k : Calls) (p : PollFd) : Prop :=
  p.revents.has POLLOUT = true → (e.fds p.fd).type = .client ∧
    (p.revents.has POLLIN = true → Receives (e.fds p.fd) k)

instance (e : Env) (k : Calls) (p : PollFd) : Decidable (WritesClient e k p) :=
  inferInstanceAs (Decidable (_ → _ ∧ (_ → _)))

/-- Each entry that the pass comes to writes to a client if it writes. -/
def WritesClients (e : Env) (calls : Nat → Calls) : Nat → List PollFd → Prop
  | _, [] => True
  | i, p :: ps =>
    ¬ Exits e (calls i) p → WritesClient e (calls i) p ∧ WritesClients e calls (i + 1) ps

instance decidableWritesClients (e : Env) (calls : Nat → Calls) :
    (i : Nat) → (ps : List PollFd) → Decidable (WritesClients e calls i ps)
  | _, [] => isTrue trivial
  | i, p :: ps =>
    have := decidableWritesClients e calls (i + 1) ps
    inferInstanceAs (Decidable (¬ Exits e (calls i) p → WritesClient e (calls i) p ∧ _))

theorem noReuse_append {new pass : List Event} (hnew : NoReuse new) (hpass : NoReuse pass)
    (hfresh : ∀ event ∈ new, ∀ fd, event.Uses fd → Event.close fd ∉ pass) :
    NoReuse (new ++ pass) := by
  induction new with
  | nil => exact hpass
  | cons event new ih =>
    refine ⟨fun fd huses hmem => ?_, ih hnew.2 fun ev hev => hfresh ev (List.mem_cons_of_mem _ hev)⟩
    rcases List.mem_append.1 hmem with hclose | hclose
    · exact hnew.1 fd huses hclose
    · exact hfresh event List.mem_cons_self fd huses hclose

theorem noNullCall_append {new pass : List Event} :
    NoNullCall (new ++ pass) ↔ NoNullCall new ∧ NoNullCall pass := by
  simp only [NoNullCall, List.mem_append]
  constructor
  · exact fun h => ⟨fun fd c hc => h fd c (.inl hc), fun fd c hc => h fd c (.inr hc)⟩
  · rintro ⟨h, h'⟩ fd c (hc | hc)
    · exact h fd c hc
    · exact h' fd c hc

theorem Event.IsCast.not_uses {event : Event} {fd : Fd} (h : event.IsCast) : ¬ event.Uses fd := by
  cases event <;> simp [Event.Uses, Event.IsCast] at h ⊢

theorem noReuse_casts {cast : List Event} (h : ∀ event ∈ cast, event.IsCast) : NoReuse cast := by
  induction cast with
  | nil => trivial
  | cons event cast ih =>
    refine ⟨fun fd huses => ?_, ih fun ev hev => h ev (List.mem_cons_of_mem _ hev)⟩
    exact absurd huses (h event List.mem_cons_self).not_uses

/-- From `e` on only parts of broadcasts happened. -/
def Casts (e e' : Env) : Prop :=
  ∃ cast, e'.trace = cast ++ e.trace ∧ ∀ event ∈ cast, event.IsCast

namespace Casts

variable {e e' e'' : Env}

theorem of_trace (h : e'.trace = e.trace) : Casts e e' := ⟨[], h, nofun⟩

theorem of_event {event : Event} (h : e'.trace = event :: e.trace) (hcast : event.IsCast) :
    Casts e e' :=
  ⟨[event], h, fun ev hev => by rwa [List.mem_singleton.1 hev]⟩

theorem trans (h : Casts e e') (h' : Casts e' e'') : Casts e e'' := by
  obtain ⟨cast, htrace, hcast⟩ := h
  obtain ⟨cast', htrace', hcast'⟩ := h'
  refine ⟨cast' ++ cast, by rw [htrace', htrace, List.append_assoc], fun event hevent => ?_⟩
  rcases List.mem_append.1 hevent with hev | hev
  · exact hcast' event hev
  · exact hcast event hev

theorem broadcastTo (senderFd : Fd) (msg : Str) (e : Env) (i : Nat) :
    Casts e (e.broadcastTo senderFd msg i) := by
  unfold Env.broadcastTo
  dsimp only
  split_ifs
  · exact of_event rfl trivial
  · exact of_event rfl trivial
  · exact of_trace rfl

theorem broadcastMessage (senderFd : Fd) (msg : Str) (e : Env) :
    Casts e (e.broadcastMessage senderFd msg) := by
  unfold Env.broadcastMessage
  refine List.foldlRecOn (motive := Casts e) _ _ (of_event rfl trivial) fun e' h i _ => ?_
  exact h.trans (broadcastTo senderFd msg e' i)

theorem extractAndConsume (e : Env) (cs : Fd) (crlfEnd : Nat) :
    Casts e (e.extractAndConsume cs crlfEnd) := by
  unfold Env.extractAndConsume
  dsimp only
  refine trans ?_ (of_trace rfl)
  refine trans ?_ (broadcastMessage cs _ _)
  exact of_trace rfl

theorem extractAll (cs : Fd) (fuel : Nat) (e : Env) : Casts e (Env.extractAll cs fuel e) :=
  extractAll_rule (fun _ => of_trace rfl) trans (fun e => extractAndConsume e cs _) fuel e

end Casts

section Callbacks

variable {k : Calls} {e : Env} {cs : Fd}

/-- There was no room, or a `recv`. -/
theorem readAndStore_trace (k : Calls) (e : Env) (cs : Fd) :
    ∃ event, (e.readAndStore k cs).2.trace = event :: e.trace ∧
      (event = .full cs ∨ ∃ data, event = .recv cs data) := by
  unfold Env.readAndStore
  dsimp only
  split_ifs
  · exact ⟨_, rfl, .inl rfl⟩
  · split
    · exact ⟨_, rfl, .inr ⟨_, rfl⟩⟩
    · split_ifs
      · exact ⟨_, rfl, .inr ⟨_, rfl⟩⟩
      · exact ⟨_, rfl, .inr ⟨_, rfl⟩⟩

theorem readAndStore_pos_iff (k : Calls) (e : Env) (cs : Fd) :
    0 < (e.readAndStore k cs).1 ↔ Receives (e.fds cs) k := by
  unfold Env.readAndStore Receives
  dsimp only
  split_ifs with hfull
  · exact iff_of_false (by simp) fun h => absurd h.1 (by omega)
  · split
    · rename_i hrecv
      exact iff_of_false (by simp) fun h => by simp [hrecv] at h
    · rename_i data hrecv
      have hlen : (data.take (BUF_SIZE - (e.fds cs).bufReadLen).toNat).length = 0 ↔
          ¬ ((e.fds cs).bufReadLen < BUF_SIZE ∧ data ≠ []) := by
        rw [List.length_take, Nat.min_eq_zero_iff, List.length_eq_zero_iff]
        grind
      split_ifs with hnil
      · refine iff_of_false (Int.lt_irrefl 0) ?_
        rintro ⟨hroom, data', hdata, hne⟩
        obtain rfl : data' = data := Option.some.inj (hdata.symm.trans hrecv)
        exact hlen.1 hnil ⟨hroom, hne⟩
      · have hpos : 0 < (data.take (BUF_SIZE - (e.fds cs).bufReadLen).toNat).length :=
          Nat.pos_of_ne_zero hnil
        have hreceives := not_not.1 (mt hlen.2 hnil)
        exact iff_of_true (by dsimp only; omega) ⟨hreceives.1, data, hrecv, hreceives.2⟩

/-- A read that gives bytes is followed by broadcasts, and leaves the slots what they are; another
one closes the descriptor. -/
theorem clientRead_cases (k : Calls) (e : Env) (cs : Fd) :
    ∃ event, (event = .full cs ∨ ∃ data, event = .recv cs data) ∧
      ((Receives (e.fds cs) k ∧ ∃ cast, (∀ ev ∈ cast, ev.IsCast) ∧
          (e.clientRead k cs).trace = cast ++ event :: e.trace ∧
          ((e.clientRead k cs).fds cs).type = (e.fds cs).type) ∨
        ¬ Receives (e.fds cs) k ∧ (e.clientRead k cs).trace = .close cs :: event :: e.trace ∧
          ((e.clientRead k cs).fds cs).type = .free) := by
  obtain ⟨event, htrace, hevent⟩ := readAndStore_trace k e cs
  have hpos := readAndStore_pos_iff k e cs
  refine ⟨event, hevent, ?_⟩
  unfold Env.clientRead
  dsimp only
  split_ifs with hr
  · refine .inr ⟨fun h => absurd (hpos.2 h) (by omega), by rw [← htrace]; rfl, ?_⟩
    rw [Env.closeFd, Env.fds_setSlot, if_pos rfl]
    rfl
  · obtain ⟨cast, hcast, hall⟩ := Casts.extractAll cs _ (e.readAndStore k cs).2
    refine .inl ⟨hpos.1 (by omega), cast, hall, by rw [hcast, htrace], ?_⟩
    exact congrArg Prod.fst ((kind_extractAll cs _ _).trans (kind_readAndStore k e cs))

/-- A write sends, if there is something to send, and may close the descriptor after that. -/
theorem clientWrite_trace (k : Calls) (e : Env) (cs : Fd) :
    ∃ new, (e.clientWrite k cs).trace = new ++ e.trace ∧
      (new = [] ∨ ∃ bytes, new = [.send cs bytes] ∨ new = [.close cs, .send cs bytes]) := by
  unfold Env.clientWrite
  dsimp only
  split_ifs
  · exact ⟨[], rfl, .inl rfl⟩
  · exact ⟨_, rfl, .inr ⟨_, .inr rfl⟩⟩
  · exact ⟨_, rfl, .inr ⟨_, .inl rfl⟩⟩

end Callbacks

/-- What a callback of `fd` may do in a pass. -/
structure Part (fd : Fd) (e : Env) (new : List Event) (e' : Env) : Prop where
  trace : e'.trace = new ++ e.trace
  noReuse : NoReuse new
  uses : ∀ event ∈ new, ∀ g, event.Uses g → g = fd
  shaped : ∀ g, (e'.fds g).Shaped
  /-- The other slots in use are read as before. -/
  others : ∀ g, g ≠ fd → (e.fds g).type ≠ .free → (e'.fds g).input = (e.fds g).input

namespace Part

variable {fd : Fd} {e e' e'' : Env} {new new' : List Event} {k : Calls}

theorem refl (hshaped : ∀ g, (e.fds g).Shaped) : Part fd e [] e :=
  ⟨rfl, trivial, nofun, hshaped, fun _ _ _ => rfl⟩

theorem trans (h : Part fd e new e') (h' : Part fd e' new' e'')
    (hopen : (∀ event ∈ new', ∀ g, ¬ event.Uses g) ∨ Event.close fd ∉ new) :
    Part fd e (new' ++ new) e'' where
  trace := by rw [h'.trace, h.trace, List.append_assoc]
  noReuse := noReuse_append h'.noReuse h.noReuse fun event hevent g huses => by
    rcases hopen with hopen | hopen
    · exact absurd huses (hopen event hevent g)
    · rwa [h'.uses event hevent g huses]
  uses := fun event hevent => by
    rcases List.mem_append.1 hevent with hev | hev
    · exact h'.uses event hev
    · exact h.uses event hev
  shaped := h'.shaped
  others := fun g hg htype => by
    have hinput := h.others g hg htype
    have htype' : (e'.fds g).type ≠ .free := by rwa [(Slot.eq_of_input hinput).1]
    exact (h'.others g hg htype').trans hinput

end Part

/-- Calling a null pointer ends the process. -/
theorem noNullCall_null {fd : Fd} {new : List Event} : ¬ NoNullCall (.call fd none :: new) :=
  fun h => h fd none List.mem_cons_self rfl

section Parts

variable {fd : Fd} {e : Env} {k : Calls}

/-- A listening socket accepts a client into a slot that was free, or the process ends. -/
theorem part_srvAccept (hshaped : ∀ g, (e.fds g).Shaped) (htype : (e.fds fd).type = .serv)
    (hread : (e.fds fd).fctRead = some .srvAccept) (hfresh : (Op.read fd k).Fresh e) :
    ∃ new, Part fd e new (final (e.invoke k fd (some .srvAccept))) ∧ NoNullCall new ∧
      (k.accept = none ∧ (∃ s, e.invoke k fd (some .srvAccept) = .error s) ∨
        k.accept ≠ none ∧ ∃ s, e.invoke k fd (some .srvAccept) = .ok s ∧
          (s.fds fd).type = .serv) := by
  rw [Env.invoke, Env.srvAccept]
  rcases hcs : k.accept with _ | cs
  · refine ⟨[.exit, .call fd (some .srvAccept)], ⟨rfl, ?_, ?_, hshaped, fun _ _ _ => rfl⟩, ?_,
      .inl ⟨rfl, _, rfl⟩⟩
    · simp [NoReuse, Event.Uses]
    · simp [Event.Uses]
    · simp [NoNullCall]
  · have hfree : (e.fds cs).type = .free := hfresh cs ((if_pos hread).trans hcs)
    have hinuse : ∀ g, (e.fds g).type ≠ .free → g ≠ cs := fun g hg h => hg (h ▸ hfree)
    refine ⟨[.accept cs, .call fd (some .srvAccept)], ⟨rfl, ?_, ?_,
      (Change.accept htype hread hcs).shaped hfresh hshaped, fun g _ hg => ?_⟩, ?_,
      .inr ⟨Option.some_ne_none cs, _, rfl, ?_⟩⟩
    · simp [NoReuse, Event.Uses]
    · simp [Event.Uses]
    · rw [final_ok, Env.fds_setSlot, if_neg (hinuse g hg)]
      rfl
    · simp [NoNullCall]
    · rw [Env.fds_setSlot, if_neg (hinuse fd (by rw [htype]; decide))]
      exact htype

/-- A client's read closes the descriptor exactly when it gives nothing. -/
theorem part_clientRead (hshaped : ∀ g, (e.fds g).Shaped) (htype : (e.fds fd).type = .client)
    (hread : (e.fds fd).fctRead = some .clientRead) (hfresh : (Op.read fd k).Fresh e) :
    ∃ new, Part fd e new ((e.log (.call fd (some .clientRead))).clientRead k fd) ∧
      NoNullCall new ∧
      ((((e.log (.call fd (some .clientRead))).clientRead k fd).fds fd).type = .client ↔
        Receives (e.fds fd) k) ∧
      ((((e.log (.call fd (some .clientRead))).clientRead k fd).fds fd).type = .client →
        Event.close fd ∉ new) := by
  have hshaped' := (Change.read k htype hread).shaped hfresh hshaped
  have hothers : ∀ g, g ≠ fd → (e.fds g).type ≠ .free →
      (((e.log (.call fd (some .clientRead))).clientRead k fd).fds g).input = (e.fds g).input :=
    fun g hg _ => (SameInput.clientRead hg k _).slot
  obtain ⟨event, hevent, ⟨hreceives, cast, hcast, htrace, htype'⟩ | ⟨hclosed, htrace, htype'⟩⟩ :=
    clientRead_cases k (e.log (.call fd (some .clientRead))) fd
  · -- what follows the `recv` uses no descriptor
    have hpair : ∀ ev ∈ [event, .call fd (some .clientRead)], ∀ g, ev.Uses g → g = fd := by
      rcases hevent with rfl | ⟨data, rfl⟩ <;> simp [Event.Uses]
    refine ⟨cast ++ [event, .call fd (some .clientRead)],
      ⟨htrace.trans (by rw [List.append_assoc]; rfl), ?_, ?_, hshaped', hothers⟩, ?_,
      iff_of_true (htype'.trans htype) hreceives, fun _ hclose => ?_⟩
    · refine noReuse_append (noReuse_casts hcast) ?_ fun ev hev g hg => ?_
      · simp [NoReuse]
      · exact absurd hg (hcast ev hev).not_uses
    · intro ev hev g huses
      rcases List.mem_append.1 hev with hev | hev
      · exact absurd huses (hcast ev hev).not_uses
      · exact hpair ev hev g huses
    · refine noNullCall_append.2 ⟨fun g c hc => ?_, ?_⟩
      · cases hcast _ hc
      · rcases hevent with rfl | ⟨data, rfl⟩ <;> simp [NoNullCall]
    · rcases List.mem_append.1 hclose with hc | hc
      · cases hcast _ hc
      · rcases hevent with rfl | ⟨data, rfl⟩ <;> simp at hc
  · have hfree : (((e.log (.call fd (some .clientRead))).clientRead k fd).fds fd).type ≠ .client := by
      rw [htype']
      decide
    refine ⟨[.close fd, event, .call fd (some .clientRead)],
      ⟨htrace, ?_, ?_, hshaped', hothers⟩, ?_, iff_of_false hfree hclosed, fun h => absurd h hfree⟩
    · rcases hevent with rfl | ⟨data, rfl⟩ <;> simp [NoReuse]
    · rcases hevent with rfl | ⟨data, rfl⟩ <;> simp [Event.Uses]
    · rcases hevent with rfl | ⟨data, rfl⟩ <;> simp [NoNullCall]

/-- The call for input of a slot in use. -/
theorem part_read (hshaped : ∀ g, (e.fds g).Shaped) (hinuse : (e.fds fd).type ≠ .free)
    (hfresh : (Op.read fd k).Fresh e) :
    ∃ new, Part fd e new (final (e.invoke k fd (e.fds fd).fctRead)) ∧ NoNullCall new ∧
      (((e.fds fd).type = .serv ∧ k.accept = none) ∧
          (∃ s, e.invoke k fd (e.fds fd).fctRead = .error s) ∨
        ¬ ((e.fds fd).type = .serv ∧ k.accept = none) ∧
          ∃ s, e.invoke k fd (e.fds fd).fctRead = .ok s ∧
            ((s.fds fd).type = .client ↔ (e.fds fd).type = .client ∧ Receives (e.fds fd) k) ∧
            ((s.fds fd).type = .client → Event.close fd ∉ new)) := by
  rcases (hshaped fd).fctRead_cases with ⟨htype, -⟩ | ⟨htype, hread⟩ | ⟨htype, hread⟩
  · exact absurd htype hinuse
  · rw [hread, htype]
    obtain ⟨new, hpart, hnull, ⟨haccept, hs⟩ | ⟨haccept, s, hs, hserv⟩⟩ :=
      part_srvAccept hshaped htype hread hfresh
    · exact ⟨new, hpart, hnull, .inl ⟨⟨rfl, haccept⟩, hs⟩⟩
    · have hclient : (s.fds fd).type ≠ .client := by
        rw [hserv]
        decide
      exact ⟨new, hpart, hnull, .inr ⟨fun h => haccept h.2, s, hs,
        iff_of_false hclient fun h => absurd h.1 (by decide), fun h => absurd h hclient⟩⟩
  · rw [hread, htype]
    obtain ⟨new, hpart, hnull, hclient, hopen⟩ := part_clientRead hshaped htype hread hfresh
    exact ⟨new, hpart, hnull, .inr ⟨fun h => absurd h.1 (by decide), _, rfl,
      hclient.trans (and_iff_right rfl).symm, hopen⟩⟩

/-- The call for output. -/
theorem part_write (fd : Fd) (k : Calls) (hshaped : ∀ g, (e.fds g).Shaped) :
    ∃ new, Part fd e new (final (e.invoke k fd (e.fds fd).fctWrite)) ∧
      ((e.fds fd).type = .client ∧ NoNullCall new ∧
          (∃ s, e.invoke k fd (e.fds fd).fctWrite = .ok s) ∨
        (e.fds fd).type ≠ .client ∧ new = [.call fd none] ∧
          ∃ s, e.invoke k fd (e.fds fd).fctWrite = .error s) := by
  rcases (hshaped fd).fctWrite_cases with ⟨htype, hwrite⟩ | ⟨htype, hwrite⟩
  · rw [hwrite]
    refine ⟨[.call fd none], ⟨rfl, ?_, ?_, hshaped, fun _ _ _ => rfl⟩,
      .inr ⟨htype, rfl, _, rfl⟩⟩
    · simp [NoReuse]
    · simp [Event.Uses]
  · rw [hwrite]
    have hshaped' := (Change.write k htype).shaped (fun _ h => by cases h) hshaped
    have hothers : ∀ g, g ≠ fd → (e.fds g).type ≠ .free →
        (((e.log (.call fd (some .clientWrite))).clientWrite k fd).fds g).input =
          (e.fds g).input := by
      intro g hg _
      rcases SameInput.clientWrite g fd k (e.log (.call fd (some .clientWrite)))
        with hsame | ⟨bytes, hclose⟩
      · exact hsame.slot
      · rw [hclose]
        exact (SameInput.closeFd hg _).slot
    obtain ⟨new, htrace, hnew⟩ :=
      clientWrite_trace k (e.log (.call fd (some .clientWrite))) fd
    refine ⟨new ++ [.call fd (some .clientWrite)],
      ⟨htrace.trans (by rw [List.append_assoc]; rfl), ?_, ?_, hshaped', hothers⟩,
      .inl ⟨htype, ?_, _, rfl⟩⟩
    · rcases hnew with rfl | ⟨bytes, rfl | rfl⟩ <;> simp [NoReuse]
    · rcases hnew with rfl | ⟨bytes, rfl | rfl⟩ <;> simp [Event.Uses]
    · rcases hnew with rfl | ⟨bytes, rfl | rfl⟩ <;> simp [NoNullCall]

variable {p : PollFd}

theorem part_checkIn (hshaped : ∀ g, (e.fds g).Shaped) (hinuse : (e.fds p.fd).type ≠ .free)
    (hfresh : p.revents.has POLLIN = true → (Op.read p.fd k).Fresh e) :
    ∃ new, Part p.fd e new (final (e.checkIn k p)) ∧ NoNullCall new ∧
      (Exits e k p ∧ (∃ s, e.checkIn k p = .error s) ∨
        ¬ Exits e k p ∧ ∃ s, e.checkIn k p = .ok s ∧
          ((s.fds p.fd).type = .client ↔ (e.fds p.fd).type = .client ∧
            (p.revents.has POLLIN = true → Receives (e.fds p.fd) k)) ∧
          ((s.fds p.fd).type = .client → Event.close p.fd ∉ new)) := by
  rw [Env.checkIn]
  by_cases hin : p.revents.has POLLIN = true
  · rw [if_pos hin]
    obtain ⟨new, hpart, hnull, h | h⟩ := part_read hshaped hinuse (hfresh hin)
    · exact ⟨new, hpart, hnull, .inl ⟨⟨h.1.1, hin, h.1.2⟩, h.2⟩⟩
    · exact ⟨new, hpart, hnull, .inr ⟨fun hx => h.1 ⟨hx.1, hx.2.2⟩, by simpa [hin] using h.2⟩⟩
  · rw [if_neg hin]
    exact ⟨[], .refl hshaped, nofun, .inr ⟨fun hx => hin hx.2.1, e, rfl, by simp [hin], nofun⟩⟩

theorem checkEntry_of_ok {s : Env} (h : e.checkIn k p = .ok s) :
    e.checkEntry k p = s.checkOut k p := by
  rw [Env.checkEntry, h]
  rfl

theorem checkEntry_of_error {s : Env} (h : e.checkIn k p = .error s) :
    e.checkEntry k p = .error s := by
  rw [Env.checkEntry, h]
  rfl

/-- What `check_fd` does for an entry. -/
theorem part_checkEntry (hshaped : ∀ g, (e.fds g).Shaped) (hinuse : (e.fds p.fd).type ≠ .free)
    (hfresh : p.revents.has POLLIN = true → (Op.read p.fd k).Fresh e) :
    ∃ new, Part p.fd e new (final (e.checkEntry k p)) ∧
      (Exits e k p ∧ NoNullCall new ∧ (∃ s, e.checkEntry k p = .error s) ∨
        ¬ Exits e k p ∧ WritesClient e k p ∧ NoNullCall new ∧ (∃ s, e.checkEntry k p = .ok s) ∨
        ¬ Exits e k p ∧ ¬ WritesClient e k p ∧ ¬ NoNullCall new ∧
          ∃ s, e.checkEntry k p = .error s) := by
  obtain ⟨new, hpart, hnull, ⟨hx, s, hs⟩ | ⟨hx, s, hs, htype, hopen⟩⟩ :=
    part_checkIn hshaped hinuse hfresh
  · rw [checkEntry_of_error hs]
    rw [hs] at hpart
    exact ⟨new, hpart, .inl ⟨hx, hnull, s, rfl⟩⟩
  rw [checkEntry_of_ok hs, Env.checkOut]
  rw [hs] at hpart
  by_cases hout : p.revents.has POLLOUT = true
  · rw [if_pos hout]
    obtain ⟨new', hpart', ⟨hc, hnull', hok⟩ | ⟨hc, rfl, herror⟩⟩ :=
      part_write p.fd k hpart.shaped
    · exact ⟨new' ++ new, hpart.trans hpart' (.inr (hopen hc)), .inr (.inl ⟨hx, fun _ => htype.1 hc,
        noNullCall_append.2 ⟨hnull', hnull⟩, hok⟩)⟩
    · -- the pointer is null, and the descriptor may be closed, but the call does not use it
      exact ⟨_, hpart.trans hpart' (.inl (by simp [Event.Uses])), .inr (.inr ⟨hx,
        fun hw => hc (htype.2 (hw hout)), noNullCall_null, herror⟩)⟩
  · rw [if_neg hout]
    exact ⟨new, hpart, .inr (.inl ⟨hx, fun h => absurd h hout, hnull, s, rfl⟩)⟩

/-- The entries that are left are the same to the condition when their slots are read as before. -/
theorem writesClients_congr {e e' : Env} {calls : Nat → Calls} : ∀ {ps : List PollFd} {i : Nat},
    (∀ p ∈ ps, (e'.fds p.fd).input = (e.fds p.fd).input) →
      (WritesClients e' calls i ps ↔ WritesClients e calls i ps)
  | [], _, _ => Iff.rfl
  | p :: ps, i, h => by
    obtain ⟨htype, -, -, hlen, -⟩ := Slot.eq_of_input (h p List.mem_cons_self)
    simp only [WritesClients, WritesClient, Exits, Receives, htype, hlen,
      writesClients_congr fun q hq => h q (List.mem_cons_of_mem p hq)]

section Fresh

variable {calls : Nat → Calls} {i : Nat} {ps : List PollFd}

theorem FreshRun.read (h : FreshRun e (opsFrom calls i (p :: ps)))
    (hin : p.revents.has POLLIN = true) : (Op.read p.fd (calls i)).Fresh e := by
  rw [opsFrom, if_pos hin] at h
  exact h.1

theorem FreshRun.tail {s : Env} (h : FreshRun e (opsFrom calls i (p :: ps)))
    (hs : e.checkEntry (calls i) p = .ok s) : FreshRun s (opsFrom calls (i + 1) ps) := by
  rw [opsFrom, List.append_assoc] at h
  rcases hin : e.checkIn (calls i) p with s₁ | s₁
  · rw [checkEntry_of_error hin] at hs
    cases hs
  rw [checkEntry_of_ok hin] at hs
  have hout : FreshRun s₁ ((if p.revents.has POLLOUT then [.write p.fd (calls i)] else []) ++
      opsFrom calls (i + 1) ps) := by
    rw [Env.checkIn] at hin
    by_cases hp : p.revents.has POLLIN = true
    · rw [if_pos hp] at hin h
      exact h.2 s₁ hin
    · rw [if_neg hp] at hin h
      cases hin
      exact h
  rw [Env.checkOut] at hs
  split_ifs at hs hout
  · exact hout.2 s hs
  · cases hs
    exact hout

end Fresh

/-- What `check_fd` does for the entries that are left. -/
theorem checkFrom_pass (calls : Nat → Calls) : ∀ {ps : List PollFd} {i : Nat} {e : Env},
    (∀ g, (e.fds g).Shaped) → (∀ p ∈ ps, (e.fds p.fd).type ≠ .free) → (ps.map (·.fd)).Nodup →
    FreshRun e (opsFrom calls i ps) →
    ∃ pass, (final (Env.checkFrom calls i ps e)).trace = pass ++ e.trace ∧ NoReuse pass ∧
      (∀ event ∈ pass, ∀ g, event.Uses g → g ∈ ps.map (·.fd)) ∧
      (NoNullCall pass ↔ WritesClients e calls i ps)
  | [], _, e, _, _, _, _ => ⟨[], rfl, trivial, nofun, iff_of_true nofun trivial⟩
  | p :: ps, i, e, hshaped, hinuse, hnodup, hfresh => by
    obtain ⟨new, hpart, h⟩ := part_checkEntry (k := calls i) (p := p) hshaped
      (hinuse p List.mem_cons_self) hfresh.read
    have huses : ∀ event ∈ new, ∀ g, event.Uses g → g ∈ (p :: ps).map (·.fd) :=
      fun event hevent g hg =>
        List.mem_map.2 ⟨p, List.mem_cons_self, (hpart.uses event hevent g hg).symm⟩
    rw [Env.checkFrom]
    rcases h with ⟨hx, hnull, s, hs⟩ | ⟨hx, hw, hnull, s, hs⟩ | ⟨hx, hw, hnull, s, hs⟩
    · rw [hs] at hpart ⊢
      exact ⟨new, hpart.trace, hpart.noReuse, huses, iff_of_true hnull fun h => absurd hx h⟩
    · rw [hs] at hpart ⊢
      rw [List.map_cons, List.nodup_cons] at hnodup
      have hinput : ∀ q ∈ ps, (s.fds q.fd).input = (e.fds q.fd).input := fun q hq =>
        hpart.others q.fd (fun h => hnodup.1 (List.mem_map.2 ⟨q, hq, h⟩))
          (hinuse q (List.mem_cons_of_mem p hq))
      obtain ⟨pass, htrace, hreuse, hpass, hiff⟩ := checkFrom_pass calls (i := i + 1)
        hpart.shaped (fun q hq => by
          rw [final_ok, (Slot.eq_of_input (hinput q hq)).1]
          exact hinuse q (List.mem_cons_of_mem p hq)) hnodup.2 (hfresh.tail hs)
      refine ⟨pass ++ new, ?_, noReuse_append hreuse hpart.noReuse fun event hevent g hg hclose => ?_,
        fun event hevent => ?_, ?_⟩
      · exact htrace.trans (by rw [hpart.trace, List.append_assoc])
      · have hfd : g = p.fd := hpart.uses _ hclose g rfl
        exact hnodup.1 (hfd ▸ hpass event hevent g hg)
      · rcases List.mem_append.1 hevent with hev | hev
        · exact fun g hg => List.mem_cons_of_mem _ (hpass event hev g hg)
        · exact huses event hev
      · rw [noNullCall_append, hiff, final_ok, writesClients_congr hinput]
        exact ⟨fun h _ => ⟨hw, h.1⟩, fun h => ⟨(h hx).2, hnull⟩⟩
    · rw [hs] at hpart ⊢
      exact ⟨new, hpart.trace, hpart.noReuse, huses, iff_of_false hnull fun h => hw (h hx).1⟩

end Parts

section Passes

variable {memory : Fd → Slot} {maxfd fuel : Nat} {ok : Env → Op → Prop} {e e₁ : Env}

/-- The entries are of slots in use, each of one of its own. -/
theorem poll_entries (hinit : e.initFd fuel = some e₁) (revents : Nat → PollMask) :
    (∀ p ∈ (e₁.poll revents).pollfds, (e.fds p.fd).type ≠ .free) ∧
      ((e₁.poll revents).pollfds.map (·.fd)).Nodup := by
  have hfds : (e₁.poll revents).pollfds.map (·.fd) = e.inUse.map Nat.cast := by
    rw [Env.eq_of_initFd hinit, Env.poll]
    refine List.ext_getElem (by simp) fun n _ _ => ?_
    simp [Env.entryOf]
  constructor
  · intro p hp
    have hmem := List.mem_map_of_mem (f := (·.fd)) hp
    rw [hfds] at hmem
    obtain ⟨i, hi, hfd⟩ := List.mem_map.1 hmem
    rw [← hfd]
    simpa [Env.inUse, Env.inUseFrom] using (List.mem_filter.1 hi).2
  · rw [hfds]
    exact List.Nodup.map (fun _ _ => Int.ofNat.inj) ((List.nodup_range' 1).filter _)

/-- In a pass over the entries of a table that a run made, no descriptor is used after it was
closed, and no call goes to a null pointer exactly when each entry that the pass comes to writes to
a client, and to one that was not closed by the read before, if it writes. -/
theorem checkFd_calls (h : Reachable memory maxfd ok e) (hinit : e.initFd fuel = some e₁)
    (revents : Nat → PollMask) (calls : Nat → Calls)
    (hfresh : FreshRun (e₁.poll revents) (opsFrom calls 0 (e₁.poll revents).pollfds)) :
    ∃ pass, (final ((e₁.poll revents).checkFd calls)).trace = pass ++ e.trace ∧ NoReuse pass ∧
      (NoNullCall pass ↔ WritesClients (e₁.poll revents) calls 0 (e₁.poll revents).pollfds) := by
  obtain ⟨hinuse, hnodup⟩ := poll_entries hinit revents
  have he₁ := Env.eq_of_initFd hinit
  have hfds : (e₁.poll revents).fds = e.fds := by rw [he₁]; rfl
  have htrace : (e₁.poll revents).trace = e.trace := by rw [he₁]; rfl
  obtain ⟨pass, hpass, hreuse, -, hiff⟩ := checkFrom_pass calls
    (by rw [hfds]; exact h.shaped) (by rw [hfds]; exact hinuse) hnodup hfresh
  exact ⟨pass, htrace ▸ hpass, hreuse, hiff⟩

/-- A message waits for the client on descriptor 4, which can take it. -/
theorem checkFd_calls_waiting : ∃ e e₁ pass, Reachable (fun _ => default) 8 (fun _ _ => True) e ∧
    e.initFd 9 = some e₁ ∧
    (final ((e₁.poll fun i => if i = 1 then POLLOUT else 0).checkFd fun _ => { send := 100 })).trace =
      pass ++ e.trace ∧ NoReuse pass ∧ NoNullCall pass := by
  have h₁ : Reachable (fun _ => default) 8 (fun _ _ => True) _ :=
    .step (.create 3) .start (by decide) trivial rfl
  have h₂ := h₁.step (.read 3 { accept := some 4 }) (by decide) trivial rfl
  have h₃ := h₂.step (.read 3 { accept := some 5 }) (by decide) trivial rfl
  have h₄ := h₃.step (.read 5 { recv := some (lit "hi" ++ [cr, lf]) }) (by decide) trivial rfl
  obtain ⟨pass, htrace, hreuse, hiff⟩ := checkFd_calls h₄ (show Env.initFd 9 _ = some _ from rfl)
    (fun i => if i = 1 then POLLOUT else 0) (fun _ => { send := 100 })
    ⟨fun _ h => (by cases h), fun _ _ => trivial⟩
  exact ⟨_, _, pass, h₄, rfl, htrace, hreuse, hiff.2 (by decide)⟩

/-- A message waits for the client on descriptor 4, which has left. -/
theorem checkFd_null : ∃ e e₁ revents calls pass,
    Reachable (fun _ => default) 8 (fun _ _ => True) e ∧ e.initFd 9 = some e₁ ∧
    (∀ p ∈ (e₁.poll revents).pollfds, p.revents &&& p.events = p.revents) ∧
    FreshRun (e₁.poll revents) (opsFrom calls 0 (e₁.poll revents).pollfds) ∧
    (final ((e₁.poll revents).checkFd calls)).trace = pass ++ e.trace ∧
    pass = [.call 4 none, .close 4, .recv 4 [], .call 4 (some .clientRead)] ∧ ¬ NoNullCall pass := by
  have h₁ : Reachable (fun _ => default) 8 (fun _ _ => True) _ :=
    .step (.create 3) .start (by decide) trivial rfl
  have h₂ := h₁.step (.read 3 { accept := some 4 }) (by decide) trivial rfl
  have h₃ := h₂.step (.read 3 { accept := some 5 }) (by decide) trivial rfl
  have h₄ := h₃.step (.read 5 { recv := some (lit "hi" ++ [cr, lf]) }) (by decide) trivial rfl
  refine ⟨_, _, fun i => if i = 1 then POLLIN ||| POLLOUT else 0, fun _ => { recv := some [] }, _, h₄,
    rfl, by decide, ⟨?_, fun _ _ => ⟨?_, fun _ _ => trivial⟩⟩, ?_, rfl, noNullCall_null⟩
  · exact fun _ h => (by cases h)
  · exact fun _ h => (by cases h)
  · decide

end Passes

end Bircd

end Ircserv
