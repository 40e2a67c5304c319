import Ircserv.Slots

/-!
# What the callbacks do to the slots

A callback works on the slot of its descriptor. Of the others a broadcast only changes the write
buffers (`SameInput`), and `accept` sets up one that was not in use.
-/

namespace Ircserv

namespace Bircd

open History

namespace Env

variable (e : Env) (fd g : Fd) (slot : Slot) (event : Event)

@[simp]
theorem fds_setSlot : (e.setSlot fd slot).fds g = if g = fd then slot else e.fds g :=
  Function.update_apply _ _ _ _

@[simp]
theorem trace_setSlot : (e.setSlot fd slot).trace = e.trace := rfl

@[simp]
theorem fds_log : (e.log event).fds = e.fds := rfl

@[simp]
theorem trace_log : (e.log event).trace = event :: e.trace := rfl

end Env

section Rules

variable {R : Env → Env → Prop} {cs : Fd}

/-- The rule for the loop of `client_read`: what each round keeps, the loop keeps. -/
theorem extractAll_rule (refl : ∀ e, R e e) (trans : ∀ {e e' e''}, R e e' → R e' e'' → R e e'')
    (round : ∀ e, R e (e.extractAndConsume cs
      (getCrlfPos (e.fds cs).bufRead.1 (e.fds cs).bufReadLen))) :
    ∀ (fuel : Nat) (e : Env), R e (Env.extractAll cs fuel e)
  | 0, e => refl e
  | fuel + 1, e => by
    rw [Env.extractAll]
    split_ifs
    · exact refl e
    · exact trans (round e) (extractAll_rule refl trans round fuel _)

/-- The rule for `client_read`. -/
theorem clientRead_rule {k : Calls} (refl : ∀ e, R e e)
    (trans : ∀ {e e' e''}, R e e' → R e' e'' → R e e'')
    (read : ∀ e, R e (e.readAndStore k cs).2) (close : ∀ e, R e (e.closeFd cs))
    (round : ∀ e, R e (e.extractAndConsume cs
      (getCrlfPos (e.fds cs).bufRead.1 (e.fds cs).bufReadLen))) (e : Env) :
    R e (e.clientRead k cs) := by
  unfold Env.clientRead
  dsimp only
  split_ifs
  · exact trans (read e) (close _)
  · exact trans (read e) (extractAll_rule refl trans round _ _)

end Rules

/-- The slot without its write buffer. -/
def Slot.input (slot : Slot) : Slot := { slot with bufWrite := default, bufWriteLen := 0 }

theorem Slot.eq_of_input {slot slot' : Slot} (h : slot'.input = slot.input) :
    slot'.type = slot.type ∧ slot'.fctRead = slot.fctRead ∧ slot'.fctWrite = slot.fctWrite ∧
      slot'.bufReadLen = slot.bufReadLen ∧ slot'.bufRead = slot.bufRead := by
  simpa [Slot.input] using h

theorem overran_log {g : Fd} {a : Event} (haccept : a.isAccept g = false) (hfull : a.fullOf g = [])
    (e : Env) : Overran g (e.log a).trace ↔ Overran g e.trace := by
  rw [Overran, Overran, Env.trace_log, since_cons_silent haccept hfull]

/-- The slot `g` is the same up to its write buffer, and what its client sent and what was made of
it is the same. -/
structure SameInput (g : Fd) (e e' : Env) : Prop where
  slot : (e'.fds g).input = (e.fds g).input
  received : received g e'.trace = received g e.trace
  messages : messages g e'.trace = messages g e.trace
  overran : Overran g e'.trace ↔ Overran g e.trace

namespace SameInput

variable {g fd : Fd} {e e' e'' : Env} {slot : Slot} {a : Event}

theorem refl (g : Fd) (e : Env) : SameInput g e e := ⟨rfl, rfl, rfl, Iff.rfl⟩

theorem trans (h : SameInput g e e') (h' : SameInput g e' e'') : SameInput g e e'' :=
  ⟨h'.slot.trans h.slot, h'.received.trans h.received, h'.messages.trans h.messages,
    h'.overran.trans h.overran⟩

/-- Nothing happened that has to do with what the client sends. -/
theorem log (haccept : a.isAccept g = false) (hrecv : a.recvOf g = [])
    (hmessage : a.messageOf g = []) (hfull : a.fullOf g = []) : SameInput g e (e.log a) where
  slot := rfl
  received := since_cons_silent haccept hrecv e.trace
  messages := since_cons_silent haccept hmessage e.trace
  overran := overran_log haccept hfull e

theorem setSlot (h : g = fd → slot.input = (e.fds g).input) : SameInput g e (e.setSlot fd slot) where
  slot := by
    rw [Env.fds_setSlot]
    split_ifs with hg
    · exact h hg
    · rfl
  received := rfl
  messages := rfl
  overran := Iff.rfl

theorem broadcastTo (senderFd : Fd) (msg : Str) (e : Env) (i : Nat) :
    SameInput g e (e.broadcastTo senderFd msg i) := by
  unfold Env.broadcastTo
  dsimp only
  split_ifs
  · exact log rfl rfl rfl rfl
  · exact (log rfl rfl rfl rfl).trans (setSlot fun hg => by rw [hg]; rfl)
  · exact refl g e

/-- A broadcast does not touch what the clients send, but for the message itself. -/
theorem broadcastMessage (senderFd : Fd) (msg : Str) (e : Env) :
    SameInput g (e.log (.message senderFd (cString msg))) (e.broadcastMessage senderFd msg) := by
  unfold Env.broadcastMessage
  refine List.foldlRecOn (motive := SameInput g _) _ _ (refl g _) fun e' h i _ => ?_
  exact h.trans (broadcastTo senderFd msg e' i)

theorem closeFd (hg : g ≠ fd) (e : Env) : SameInput g e (e.closeFd fd) :=
  (log rfl rfl rfl rfl).trans (setSlot fun h => absurd h hg)

theorem readAndStore (hg : g ≠ fd) (k : Calls) (e : Env) : SameInput g e (e.readAndStore k fd).2 := by
  have hne : fd ≠ g := hg.symm
  unfold Env.readAndStore
  dsimp only
  split_ifs
  · exact log rfl rfl rfl (if_neg hne)
  · split
    · exact log rfl (if_neg hne) rfl rfl
    · split_ifs
      · exact log rfl (if_neg hne) rfl rfl
      · exact (log (a := .recv fd _) rfl (if_neg hne) rfl rfl).trans (setSlot fun h => absurd h hg)

theorem extractAndConsume (hg : g ≠ fd) (e : Env) (crlfEnd : Nat) :
    SameInput g e (e.extractAndConsume fd crlfEnd) := by
  have hne : fd ≠ g := hg.symm
  unfold Env.extractAndConsume
  dsimp only
  refine trans ?_ (setSlot fun h => absurd h hg)
  refine trans ?_ (broadcastMessage _ _ _)
  exact (setSlot fun h => absurd h hg).trans (log (a := .message fd _) rfl rfl (if_neg hne) rfl)

theorem clientRead (hg : g ≠ fd) (k : Calls) (e : Env) : SameInput g e (e.clientRead k fd) :=
  clientRead_rule (refl g) trans (readAndStore hg k) (closeFd hg)
    (fun e => extractAndConsume hg e _) e

/-- A write leaves what was read, unless it fails. -/
theorem clientWrite (g fd : Fd) (k : Calls) (e : Env) :
    SameInput g e (e.clientWrite k fd) ∨
      ∃ bytes, e.clientWrite k fd = (e.log (.send fd bytes)).closeFd fd := by
  unfold Env.clientWrite
  dsimp only
  split_ifs
  · exact .inl (refl g e)
  · exact .inr ⟨_, rfl⟩
  · refine .inl ((log rfl rfl rfl rfl).trans (setSlot fun h => ?_))
    rw [h]
    rfl

end SameInput

/-- What a slot is, without its buffers. -/
def Slot.kind (slot : Slot) : FdType × Option Callback × Option Callback :=
  (slot.type, slot.fctRead, slot.fctWrite)

theorem SameInput.kind {g : Fd} {e e' : Env} (h : SameInput g e e') :
    (e'.fds g).kind = (e.fds g).kind := by
  obtain ⟨htype, hread, hwrite, -⟩ := Slot.eq_of_input h.slot
  rw [Slot.kind, Slot.kind, htype, hread, hwrite]

section Kind

variable {cs : Fd}

theorem kind_setSlot {e : Env} {slot : Slot} (h : slot.kind = (e.fds cs).kind) (g : Fd) :
    ((e.setSlot cs slot).fds g).kind = (e.fds g).kind := by
  rw [Env.fds_setSlot]
  split_ifs with hg
  · rw [hg, h]
  · rfl

theorem kind_readAndStore (k : Calls) (e : Env) (g : Fd) :
    ((e.readAndStore k cs).2.fds g).kind = (e.fds g).kind := by
  unfold Env.readAndStore
  dsimp only
  split_ifs
  · rfl
  · split
    · rfl
    · split_ifs
      · rfl
      · refine (kind_setSlot ?_ g).trans ?_ <;> rfl

theorem kind_extractAndConsume (e : Env) (crlfEnd : Nat) (g : Fd) :
    ((e.extractAndConsume cs crlfEnd).fds g).kind = (e.fds g).kind := by
  unfold Env.extractAndConsume
  dsimp only
  refine (kind_setSlot ?_ g).trans ((SameInput.broadcastMessage _ _ _).kind.trans ?_)
  · rfl
  · refine (kind_setSlot ?_ g)
    rfl

theorem kind_extractAll (g : Fd) (fuel : Nat) (e : Env) :
    ((Env.extractAll cs fuel e).fds g).kind = (e.fds g).kind :=
  extractAll_rule (R := fun e e' => (e'.fds g).kind = (e.fds g).kind) (fun _ => rfl)
    (fun h h' => h'.trans h) (fun e => kind_extractAndConsume e _ g) fuel e

end Kind

/-- The pointers of a slot are those of what it is. -/
def Slot.Shaped (slot : Slot) : Prop :=
  slot.kind = (.free, none, none) ∨ slot.kind = (.serv, some .srvAccept, none) ∨
    slot.kind = (.client, some .clientRead, some .clientWrite)

namespace Slot.Shaped

variable {slot slot' : Slot}

theorem of_kind (h : slot.Shaped) (hk : slot'.kind = slot.kind) : slot'.Shaped := by
  rw [Shaped, hk]
  exact h

theorem cleanFd (slot : Slot) : (cleanFd slot).Shaped := .inl rfl

theorem kind_of_free (h : slot.Shaped) (htype : slot.type = .free) :
    slot.kind = (.free, none, none) := by
  rcases h with h | h | h
  · exact h
  · exact absurd (htype.symm.trans (congrArg Prod.fst h)) (by decide)
  · exact absurd (htype.symm.trans (congrArg Prod.fst h)) (by decide)

/-- Only a socket that listens or a client is read. -/
theorem fctRead_cases (h : slot.Shaped) : slot.type = .free ∧ slot.fctRead = none ∨
    slot.type = .serv ∧ slot.fctRead = some .srvAccept ∨
    slot.type = .client ∧ slot.fctRead = some .clientRead := by
  simp only [Shaped, kind, Prod.mk.injEq] at h
  tauto

/-- Only a client is written to. -/
theorem fctWrite_cases (h : slot.Shaped) : slot.type ≠ .client ∧ slot.fctWrite = none ∨
    slot.type = .client ∧ slot.fctWrite = some .clientWrite := by
  simp only [Shaped, kind, Prod.mk.injEq] at h
  rcases h with ⟨h, -, hw⟩ | ⟨h, -, hw⟩ | ⟨h, -, hw⟩
  · exact .inl ⟨by rw [h]; decide, hw⟩
  · exact .inl ⟨by rw [h]; decide, hw⟩
  · exact .inr ⟨h, hw⟩

end Slot.Shaped

/-- What a step can do to a table whose slots have the right pointers. -/
inductive Change (e : Env) : Op → Env → Prop
  | create (s : Fd) : Change e (.create s) (e.srvCreate s)
  | accept {fd cs : Fd} {k : Calls} (hserv : (e.fds fd).type = .serv)
      (hread : (e.fds fd).fctRead = some .srvAccept) (hcs : k.accept = some cs) :
      Change e (.read fd k) ((((e.log (.call fd (some .srvAccept))).log (.accept cs))).setSlot cs
        { cleanFd (e.fds cs) with
          type := .client, fctRead := some .clientRead, fctWrite := some .clientWrite })
  | read {fd : Fd} (k : Calls) (hclient : (e.fds fd).type = .client)
      (hread : (e.fds fd).fctRead = some .clientRead) :
      Change e (.read fd k) ((e.log (.call fd (some .clientRead))).clientRead k fd)
  | write {fd : Fd} (k : Calls) (hclient : (e.fds fd).type = .client) :
      Change e (.write fd k) ((e.log (.call fd (some .clientWrite))).clientWrite k fd)

theorem Change.of_step {e e' : Env} {op : Op} (hshaped : ∀ fd, (e.fds fd).Shaped)
    (h : e.step op = .ok e') : Change e op e' := by
  rcases op with s | ⟨fd, k⟩ | ⟨fd, k⟩
  · cases h
    exact .create s
  · rcases (hshaped fd).fctRead_cases with ⟨-, hread⟩ | ⟨htype, hread⟩ | ⟨htype, hread⟩
    · rw [Env.step, hread] at h
      cases h
    · rw [Env.step, hread, Env.invoke, Env.srvAccept] at h
      split at h
      · cases h
      · rename_i cs hcs
        cases h
        exact .accept htype hread hcs
    · rw [Env.step, hread] at h
      cases h
      exact .read k htype hread
  · rcases (hshaped fd).fctWrite_cases with ⟨-, hwrite⟩ | ⟨htype, hwrite⟩
    · rw [Env.step, hwrite] at h
      cases h
    · rw [Env.step, hwrite] at h
      cases h
      exact .write k htype

/-- A callback leaves a slot what it is, or closes its own. -/
theorem kind_clientRead (k : Calls) (e : Env) (cs g : Fd) :
    ((e.clientRead k cs).fds g).kind = (e.fds g).kind ∨
      ((e.clientRead k cs).fds g).kind = (.free, none, none) := by
  unfold Env.clientRead
  dsimp only
  split_ifs
  · rw [Env.closeFd, Env.fds_setSlot]
    split_ifs
    · exact .inr rfl
    · exact .inl (kind_readAndStore k e g)
  · exact .inl ((kind_extractAll g _ _).trans (kind_readAndStore k e g))

theorem kind_clientWrite (k : Calls) (e : Env) (cs g : Fd) :
    ((e.clientWrite k cs).fds g).kind = (e.fds g).kind ∨
      ((e.clientWrite k cs).fds g).kind = (.free, none, none) := by
  rcases SameInput.clientWrite g cs k e with h | ⟨bytes, h⟩
  · exact .inl h.kind
  · rw [h, Env.closeFd, Env.fds_setSlot]
    split_ifs
    · exact .inr rfl
    · exact .inl rfl

variable {e e' : Env} {op : Op}

theorem Change.shaped (h : Change e op e') (hfresh : op.Fresh e)
    (hshaped : ∀ fd, (e.fds fd).Shaped) (g : Fd) : (e'.fds g).Shaped := by
  cases h with
  | create s =>
    rw [Env.srvCreate, Env.fds_setSlot]
    split_ifs
    · have hkind := (hshaped s).kind_of_free (hfresh s rfl)
      refine .inr (.inl ?_)
      rw [Slot.kind, show (e.fds s).fctWrite = none from congrArg (·.2.2) hkind]
    · exact hshaped g
  | accept =>
    rw [Env.fds_setSlot]
    split_ifs
    · exact .inr (.inr rfl)
    · exact hshaped g
  | read k _ _ =>
    rcases kind_clientRead k (e.log (.call _ (some .clientRead))) _ g with h | h
    · exact (hshaped g).of_kind h
    · exact .inl h
  | write k _ =>
    rcases kind_clientWrite k (e.log (.call _ (some .clientWrite))) _ g with h | h
    · exact (hshaped g).of_kind h
    · exact .inl h

variable {memory : Fd → Slot} {maxfd : Nat} {ok : Env → Op → Prop}

theorem Reachable.shaped (h : Reachable memory maxfd ok e) : ∀ fd, (e.fds fd).Shaped := by
  induction h with
  | start => exact fun fd => .cleanFd (memory fd)
  | step op _ hfresh _ hstep ih => exact (Change.of_step ih hstep).shaped hfresh ih

/-- The rule for what holds of every run: it holds at the start, and every step keeps it. -/
theorem Reachable.induction {P : Env → Prop} (start : P (initEnv memory maxfd))
    (step : ∀ e op e', (∀ fd, (e.fds fd).Shaped) → op.Fresh e → ok e op → Change e op e' → P e → P e')
    (h : Reachable memory maxfd ok e) : P e := by
  induction h with
  | start => exact start
  | step op h hfresh hok hstep ih =>
    exact step _ op _ h.shaped hfresh hok (.of_step h.shaped hstep) ih

end Bircd

end Ircserv
