import Ircserv.Proofs.Offers

/-!
# What a client is sent

The write buffer of a client holds what was queued for it since it was accepted and has not been
sent (`Pending`), as long as no client is accepted whose slot still holds a string: `clean_fd` sets
the length back, but not the buffer.
-/

namespace Ircserv

namespace Bircd

open History CArray

/-- The write buffer of the slot holds the string `s`, and its length. -/
structure Pending (e : Env) (fd : Fd) (s : Str) : Prop where
  holds : Holds 0 (e.fds fd).bufWrite.1 s
  len : (e.fds fd).bufWriteLen = s.length
  room : s.length ≤ BUF_SIZE
  /-- What was queued for the client is what it has been sent, and what it has not. -/
  stream : queued fd e.trace = sent fd e.trace ++ s

/-- Only what was queued for the client is sent to it. -/
theorem Pending.sent_prefix {e : Env} {fd : Fd} {s : Str} (h : Pending e fd s) :
    sent fd e.trace <+: queued fd e.trace := ⟨s, h.stream.symm⟩

/-- If the slot is a client's, its write buffer is right. -/
def Outgoing (e : Env) (fd : Fd) : Prop := (e.fds fd).type = .client → ∃ s, Pending e fd s

/-- The slot with its write buffer alone. -/
def Slot.output (slot : Slot) : FdType × Int × CharArray (BUF_SIZE + 1) :=
  (slot.type, slot.bufWriteLen, slot.bufWrite)

/-- The slot `g` has the same write buffer, and what its client is sent is the same. -/
structure SameOutput (g : Fd) (e e' : Env) : Prop where
  slot : (e'.fds g).output = (e.fds g).output
  queued : queued g e'.trace = queued g e.trace
  sent : sent g e'.trace = sent g e.trace

namespace SameOutput

variable {g fd : Fd} {e e' e'' : Env} {slot : Slot} {a : Event}

theorem refl (g : Fd) (e : Env) : SameOutput g e e := ⟨rfl, rfl, rfl⟩

theorem trans (h : SameOutput g e e') (h' : SameOutput g e' e'') : SameOutput g e e'' :=
  ⟨h'.slot.trans h.slot, h'.queued.trans h.queued, h'.sent.trans h.sent⟩

/-- Nothing happened that has to do with what the client is sent. -/
theorem log (haccept : a.isAccept g = false) (hqueue : a.queueOf g = [])
    (hsend : a.sendOf g = []) : SameOutput g e (e.log a) where
  slot := rfl
  queued := since_cons_silent haccept hqueue e.trace
  sent := since_cons_silent haccept hsend e.trace

theorem setSlot (h : g = fd → slot.output = (e.fds g).output) :
    SameOutput g e (e.setSlot fd slot) where
  slot := by
    rw [Env.fds_setSlot]
    split_ifs with hg
    · exact h hg
    · rfl
  queued := rfl
  sent := rfl

theorem setSlot_input (h : slot.output = (e.fds fd).output) : SameOutput g e (e.setSlot fd slot) :=
  setSlot fun hg => by rw [hg, h]

theorem closeFd (hg : g ≠ fd) (e : Env) : SameOutput g e (e.closeFd fd) :=
  (log rfl rfl rfl).trans (setSlot fun h => absurd h hg)

theorem readAndStore (k : Calls) (e : Env) : SameOutput g e (e.readAndStore k fd).2 := by
  unfold Env.readAndStore
  dsimp only
  split_ifs
  · exact log rfl rfl rfl
  · split
    · exact log rfl rfl rfl
    · split_ifs
      · exact log rfl rfl rfl
      · refine (log (a := .recv fd _) rfl rfl rfl).trans (setSlot_input ?_)
        rfl

end SameOutput

theorem Pending.of_same {g : Fd} {e e' : Env} {s : Str} (h : Pending e g s)
    (hs : SameOutput g e e') : Pending e' g s := by
  have hslot := hs.slot
  simp only [Slot.output, Prod.mk.injEq] at hslot
  obtain ⟨-, hlen, hbuf⟩ := hslot
  exact ⟨by rw [hbuf]; exact h.holds, hlen.trans h.len, h.room, by rw [hs.queued, hs.sent, h.stream]⟩

/-- A message is put behind what is there. -/
theorem Pending.queue {fd : Fd} {e : Env} {s msg : Str} (h : Pending e fd s)
    (hroom : s.length + (cString msg).length ≤ BUF_SIZE) :
    Pending ((e.log (.queue fd (cString msg))).setSlot fd { e.fds fd with
      bufWrite := (e.fds fd).bufWrite.ftStrlcat msg (BUF_SIZE + 1)
      bufWriteLen := (e.fds fd).bufWriteLen + ftStrlen msg }) fd (s ++ cString msg) where
  holds := by
    rw [Env.fds_setSlot, if_pos rfl]
    exact CharArray.holds_ftStrlcat h.holds (by omega) (Nat.le_refl _)
  len := by
    rw [Env.fds_setSlot, if_pos rfl, List.length_append, h.len, ftStrlen]
    dsimp only
    omega
  room := by rwa [List.length_append]
  stream := by
    have hqueue : queued fd (e.log (.queue fd (cString msg))).trace =
        queued fd e.trace ++ cString msg := by
      refine (since_cons rfl _).trans ?_
      rw [Event.queueOf, if_pos rfl]
      rfl
    have hsent : sent fd (e.log (.queue fd (cString msg))).trace = sent fd e.trace :=
      since_cons_silent rfl rfl _
    rw [Env.trace_setSlot, hqueue, hsent, h.stream, List.append_assoc]

/-- The first bytes of what is there are sent. -/
theorem Pending.send {fd : Fd} {e : Env} {s t : Str} (h : Pending e fd (s ++ t)) :
    Pending ((e.log (.send fd ((e.fds fd).bufWrite.1.take s.length))).setSlot fd { e.fds fd with
      bufWrite := (e.fds fd).bufWrite.ftMemmove 0 s.length
        ((e.fds fd).bufWriteLen - s.length + 1).toNat
      bufWriteLen := (e.fds fd).bufWriteLen - s.length }) fd t where
  holds := by
    have hlen : ((e.fds fd).bufWriteLen - s.length + 1).toNat = t.length + 1 := by
      rw [h.len, List.length_append]
      omega
    rw [Env.fds_setSlot, if_pos rfl, hlen]
    exact CharArray.holds_ftMemmove h.holds
  len := by
    rw [Env.fds_setSlot, if_pos rfl, h.len, List.length_append]
    dsimp only
    omega
  room := by
    have hroom := h.room
    rw [List.length_append] at hroom
    omega
  stream := by
    have htake : (e.fds fd).bufWrite.1.take s.length = s := by
      have hpre : s <+: (e.fds fd).bufWrite.1 :=
        (List.prefix_append s (t ++ [0])).trans (by rw [← List.append_assoc]; exact h.holds.2)
      exact (List.prefix_iff_eq_take.1 hpre).symm
    have hqueue : queued fd (e.log (.send fd s)).trace = queued fd e.trace :=
      since_cons_silent rfl rfl _
    have hsent : sent fd (e.log (.send fd s)).trace = sent fd e.trace ++ s := by
      refine (since_cons rfl _).trans ?_
      rw [Event.sendOf, if_pos rfl]
      rfl
    rw [htake, Env.trace_setSlot, hqueue, hsent, h.stream, List.append_assoc]

namespace Outgoing

variable {g fd : Fd} {e e' : Env} {k : Calls}

theorem of_same (h : Outgoing e g) (hs : SameOutput g e e') : Outgoing e' g := fun hc => by
  have htype : (e'.fds g).type = (e.fds g).type := congrArg Prod.fst hs.slot
  obtain ⟨s, hp⟩ := h (htype ▸ hc)
  exact ⟨s, hp.of_same hs⟩

theorem closeFd (h : Outgoing e g) (fd : Fd) : Outgoing (e.closeFd fd) g := by
  by_cases hg : g = fd
  · intro hc
    rw [Env.closeFd, hg, Env.fds_setSlot, if_pos rfl] at hc
    cases hc
  · exact h.of_same (SameOutput.closeFd hg e)

/-- A message is put behind what is there, if there is room for it. -/
theorem broadcastTo (h : Outgoing e g) (senderFd : Fd) (msg : Str) (i : Nat) :
    Outgoing (e.broadcastTo senderFd msg i) g := by
  unfold Env.broadcastTo
  dsimp only
  by_cases hto : (e.fds i).type = .client ∧ (i : Fd) ≠ senderFd
  · rw [if_pos hto]
    by_cases hroom : (e.fds i).bufWriteLen + ftStrlen (Env.fullMsg msg).1 > BUF_SIZE
    · rw [if_pos hroom]
      exact h.of_same (SameOutput.log rfl rfl rfl)
    · rw [if_neg hroom]
      by_cases hg : g = i
      · subst hg
        obtain ⟨s, hp⟩ := h hto.1
        rw [hp.len] at hroom
        exact fun _ => ⟨_, hp.queue (by rw [ftStrlen] at hroom; omega)⟩
      · exact h.of_same ((SameOutput.log (a := .queue i _) rfl (if_neg (Ne.symm hg)) rfl).trans
          (SameOutput.setSlot fun hi => absurd hi hg))
  · rw [if_neg hto]
    exact h

theorem broadcastMessage (h : Outgoing e g) (senderFd : Fd) (msg : Str) :
    Outgoing (e.broadcastMessage senderFd msg) g := by
  unfold Env.broadcastMessage
  exact List.foldlRecOn (motive := fun e => Outgoing e g) _ _ (h.of_same (SameOutput.log rfl rfl rfl))
    fun e' h i _ => h.broadcastTo senderFd msg i

theorem extractAndConsume (h : Outgoing e g) (cs : Fd) (crlfEnd : Nat) :
    Outgoing (e.extractAndConsume cs crlfEnd) g := by
  unfold Env.extractAndConsume
  dsimp only
  have hset : Outgoing (e.setSlot cs
      { e.fds cs with bufRead := (e.fds cs).bufRead.setChar (crlfEnd - 2) 0 }) g :=
    h.of_same (SameOutput.setSlot_input rfl)
  refine (hset.broadcastMessage cs _).of_same (SameOutput.setSlot_input ?_)
  rfl

theorem clientRead (h : Outgoing e g) (k : Calls) (cs : Fd) : Outgoing (e.clientRead k cs) g :=
  clientRead_rule (R := fun e e' => Outgoing e g → Outgoing e' g) (fun _ => id)
    (fun h h' => h' ∘ h) (fun e h => h.of_same (SameOutput.readAndStore k e))
    (fun _ h => h.closeFd cs) (fun _ h => h.extractAndConsume cs _) e h

/-- What is sent is taken off the front. -/
theorem clientWrite (h : Outgoing e g) (k : Calls) (cs : Fd) : Outgoing (e.clientWrite k cs) g := by
  unfold Env.clientWrite
  dsimp only
  by_cases hzero : (e.fds cs).bufWriteLen = 0
  · rw [if_pos hzero]
    exact h
  rw [if_neg hzero]
  set n := min k.send (e.fds cs).bufWriteLen.toNat with hn
  by_cases hg : g = cs
  · subst hg
    by_cases hfail : n = 0
    · rw [if_pos hfail]
      intro hc
      rw [Env.closeFd, Env.fds_setSlot, if_pos rfl] at hc
      cases hc
    · rw [if_neg hfail]
      intro hc
      rw [Env.fds_setSlot, if_pos rfl] at hc
      obtain ⟨s, hp⟩ := h hc
      have hle : n ≤ s.length := by
        rw [hn, hp.len]
        exact min_le_right _ _
      rw [← List.take_append_drop n s] at hp
      have hsend := hp.send
      rw [List.length_take_of_le hle] at hsend
      exact ⟨_, hsend⟩
  · have hlog : SameOutput g e (e.log (.send cs ((e.fds cs).bufWrite.1.take n))) :=
      SameOutput.log rfl rfl (if_neg (Ne.symm hg))
    split_ifs
    · exact (h.of_same hlog).closeFd cs
    · exact h.of_same (hlog.trans (SameOutput.setSlot fun hs => absurd hs hg))

end Outgoing

/-- The slot of a client that is accepted holds no string. -/
def Clean (e : Env) (op : Op) : Prop :=
  ∀ cs, op.accepts e = some cs → (e.fds cs).bufWrite.1.head? = some 0

instance (e : Env) (op : Op) : Decidable (Clean e op) :=
  decidable_of_iff (∀ cs ∈ op.accepts e, (e.fds cs).bufWrite.1.head? = some 0) Iff.rfl

section Runs

variable {memory : Fd → Slot} {maxfd : Nat} {ok : Env → Op → Prop} {e e' : Env} {op : Op} {fd : Fd}

theorem Outgoing.change (hc : Change e op e') (hclean : Clean e op) (h : ∀ fd, Outgoing e fd)
    (g : Fd) : Outgoing e' g := by
  cases hc with
  | create s =>
    by_cases hg : g = s
    · intro hc
      rw [Env.srvCreate, hg, Env.fds_setSlot, if_pos rfl] at hc
      cases hc
    · exact (h g).of_same (SameOutput.setSlot fun hs => absurd hs hg)
  | @accept fd cs k _ hread hcs =>
    by_cases hg : g = cs
    · subst hg
      have hstart : (Event.accept g).isAccept g = true := beq_self_eq_true g
      have hhead := hclean g ((if_pos hread).trans hcs)
      refine fun _ => ⟨[], ?_, ?_, Nat.zero_le _, ?_⟩
      · rw [Env.fds_setSlot, if_pos rfl]
        exact holds_nil_iff.2 hhead
      · rw [Env.fds_setSlot, if_pos rfl]
        rfl
      · rw [queued, sent, Env.trace_setSlot, Env.trace_log, since_cons_start hstart,
          since_cons_start hstart]
        rfl
    · have hne : (Event.accept cs).isAccept g = false := beq_false_of_ne (Ne.symm hg)
      exact (h g).of_same (((SameOutput.log rfl rfl rfl).trans (SameOutput.log hne rfl rfl)).trans
        (SameOutput.setSlot fun hs => absurd hs hg))
  | read k _ _ => exact ((h g).of_same (SameOutput.log rfl rfl rfl)).clientRead k _
  | write k _ => exact ((h g).of_same (SameOutput.log rfl rfl rfl)).clientWrite k _

theorem Reachable.outgoing (h : Reachable memory maxfd Clean e) : ∀ fd, Outgoing e fd := by
  refine h.induction (P := fun e => ∀ fd, Outgoing e fd) (fun fd hc => ?_)
    fun e op e' _ _ hclean hc ih => .change hc hclean ih
  cases hc

/-- The write buffer of a client is NUL-terminated, is as long as its length says, and holds what
was queued for this client and has not been sent: in every run in which each client that is accepted
gets a slot whose write buffer is the empty string. A client that gets another slot has a write
buffer that is not so. What is queued for a client, or dropped for want of room, are the messages of
the others. -/
theorem run_writeBuffers :
    (∀ e, Reachable memory maxfd Clean e → ∀ fd, (e.fds fd).type = .client → ∃ s, Pending e fd s) ∧
      (∀ e op e', Reachable memory maxfd ok e → op.Fresh e → e.step op = .ok e' → ¬ Clean e op →
        ∃ fd, op.accepts e = some fd ∧ (e'.fds fd).type = .client ∧ ¬ ∃ s, Pending e' fd s) ∧
      ∀ e, Reachable memory maxfd ok e → ∀ fd : Nat, fd < maxfd → (e.fds fd).type = .client →
        offered fd e.trace = broadcasts fd e.trace := by
  refine ⟨fun e h fd hc => h.outgoing fd hc, fun e op e' h _ hstep hclean => ?_,
    fun e h fd hlt hc => h.offered_eq hlt hc⟩
  rw [Clean] at hclean
  push Not at hclean
  obtain ⟨cs, hcs, hhead⟩ := hclean
  cases Change.of_step h.shaped hstep with
  | @accept fd cs' k hserv hread hcs' =>
    obtain rfl : cs' = cs := Option.some.inj (hcs'.symm.trans ((if_pos hread).symm.trans hcs))
    refine ⟨cs', hcs, by rw [Env.fds_setSlot, if_pos rfl], ?_⟩
    rintro ⟨s, hp⟩
    have hlen := hp.len
    have hholds := hp.holds
    rw [Env.fds_setSlot, if_pos rfl] at hlen hholds
    have hnil : s = [] := List.length_eq_zero_iff.1 (Int.natCast_eq_zero.1 hlen.symm)
    rw [hnil] at hholds
    exact hhead (holds_nil_iff.1 hholds)
  | @read fd k _ hread =>
    rw [Op.accepts, hread, if_neg (by decide)] at hcs
    cases hcs
  | create s => cases hcs
  | write k _ => cases hcs

/-- A message that waits for a client that was just accepted. -/
theorem run_writeBuffers_queued : ∃ e, Reachable (fun _ => default) 8 Clean e ∧
    queued 4 e.trace = lit "hi" ++ [cr, lf] ∧ ∃ s, Pending e 4 s := by
  have h₁ : Reachable (fun _ => default) 8 Clean _ :=
    .step (.create 3) .start (by decide) (by decide) rfl
  have h₂ := h₁.step (.read 3 { accept := some 4 }) (by decide) (by decide) rfl
  have h₃ := h₂.step (.read 3 { accept := some 5 }) (by decide) (by decide) rfl
  have h₄ := h₃.step (.read 5 { recv := some (lit "hi" ++ [cr, lf]) }) (by decide) (by decide)
    rfl
  exact ⟨_, h₄, by decide,
    (@run_writeBuffers _ 8 Clean).1 _ h₄ 4 (by decide)⟩

/-- The client that was on descriptor 4 leaves while a message waits for it. The next one there is
sent this message, and not the one that it was told. -/
theorem writeBuffers_stale : ∃ e, Reachable (fun _ => default) 8 (fun _ _ => True) e ∧
    (e.fds 4).type = .client ∧ queued 4 e.trace = lit "yo" ++ [cr, lf] ∧
    sent 4 e.trace = lit "hi" ++ [cr, lf] ∧ ¬ ∃ s, Pending e 4 s := by
  have h₁ : Reachable (fun _ => default) 8 (fun _ _ => True) _ :=
    .step (.create 3) .start (by decide) trivial rfl
  have h₂ := h₁.step (.read 3 { accept := some 4 }) (by decide) trivial rfl
  have h₃ := h₂.step (.read 3 { accept := some 5 }) (by decide) trivial rfl
  have h₄ := h₃.step (.read 5 { recv := some (lit "hi" ++ [cr, lf]) }) (by decide) trivial rfl
  have h₅ := h₄.step (.read 4 { recv := some [] }) (by decide) trivial rfl
  have h₆ := h₅.step (.read 3 { accept := some 4 }) (by decide) trivial rfl
  have h₇ := h₆.step (.read 5 { recv := some (lit "yo" ++ [cr, lf]) }) (by decide) trivial rfl
  have h₈ := h₇.step (.write 4 { send := 100 }) (by decide) trivial rfl
  refine ⟨_, h₈, by decide, by decide, by decide, ?_⟩
  rintro ⟨s, hp⟩
  exact absurd hp.sent_prefix (by decide)

end Runs

end Bircd

end Ircserv
