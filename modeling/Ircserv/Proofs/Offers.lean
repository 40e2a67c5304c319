import Ircserv.Proofs.Slots

/-!
# What the clients are told

A broadcast is for every client but the one that sent the message: the message with its CRLF is put
into the write buffer of each, or dropped if there is no room in it.
-/

namespace Ircserv

namespace Bircd

open History CArray

/-- A message from the read buffer gets its CRLF, and is not cut. -/
theorem cString_fullMsg {msg : Str} (h : (cString msg).length < BUF_SIZE) :
    cString (Env.fullMsg msg).1 = cString msg ++ [cr, lf] := by
  have hcopy : Holds 0 (CharArray.ftStrlcpy (default : CharArray (BUF_SIZE + 3)) 0 msg BUF_SIZE).1
      (cString msg) :=
    CharArray.holds_ftStrlcpy (s := []) (holds_nil_iff.2 rfl) h (by decide)
  have hcrlf : (cString [cr, lf]).length = 2 := rfl
  exact (CharArray.holds_ftStrlcat hcopy (by omega) (Nat.le_refl _)).cstr_eq

theorem length_cString_setChar {a : CharArray (BUF_SIZE + 1)} {i : Nat} (h : i < BUF_SIZE) :
    (cString (a.setChar i 0).1).length < BUF_SIZE := by
  have hset : (a.setChar i 0).1 = a.1.take i ++ 0 :: a.1.drop (i + 1) := by
    have hi : i < a.1.length := by
      rw [a.2]
      exact Nat.lt_succ_of_lt h
    exact List.set_eq_take_append_cons_drop.trans (if_pos hi)
  have hle : (cstr 0 (a.1.take i)).length ≤ i :=
    (List.takeWhile_prefix _).length_le.trans (List.length_take_le _ _)
  rw [hset, cString, cstr_append]
  omega

theorem crlfPosFrom_le (i : Nat) (s : Str) : crlfPosFrom i s ≤ i + s.length := by
  induction i, s using crlfPosFrom.induct with
  | case1 i a b s h =>
    rw [crlfPosFrom, if_pos h, List.length_cons, List.length_cons]
    omega
  | case2 i a b s h ih =>
    rw [crlfPosFrom, if_neg h, List.length_cons]
    omega
  | case3 i s h =>
    rw [crlfPosFrom]
    · exact Nat.zero_le _
    · exact h

/-- The first message of a read buffer is not too long to be put into a write buffer. -/
theorem getCrlfPos_lt (a : CharArray (BUF_SIZE + 1)) (len : Int) :
    getCrlfPos a.1 len - 2 < BUF_SIZE := by
  have hle := crlfPosFrom_le 0 (a.1.take len.toNat)
  have hlen := List.length_take_le' len.toNat a.1
  rw [a.2] at hlen
  rw [getCrlfPos]
  change _ - 2 < 100
  change _ ≤ 101 at hlen
  omega

/-- The table is for as many descriptors as before; and if `g` is one of them and a client, then it
was one before, and what it was offered is what was broadcast by others. -/
structure Tells (g : Nat) (e e' : Env) : Prop where
  maxfd : e'.maxfd = e.maxfd
  type : (e'.fds g).type = .client → (e.fds g).type = .client
  told : g < e.maxfd → (e'.fds g).type = .client → ∃ new,
    offered g e'.trace = offered g e.trace ++ new ∧
      broadcasts g e'.trace = broadcasts g e.trace ++ new

namespace Tells

variable {g : Nat} {fd : Fd} {e e' e'' : Env} {slot : Slot} {a : Event}

theorem trans (h : Tells g e e') (h' : Tells g e' e'') : Tells g e e'' where
  maxfd := h'.maxfd.trans h.maxfd
  type := fun hc => h.type (h'.type hc)
  told := fun hmax hc => by
    obtain ⟨new, hoffered, hbroadcasts⟩ := h.told hmax (h'.type hc)
    obtain ⟨new', hoffered', hbroadcasts'⟩ := h'.told (h.maxfd ▸ hmax) hc
    exact ⟨new ++ new', by rw [hoffered', hoffered, List.append_assoc],
      by rw [hbroadcasts', hbroadcasts, List.append_assoc]⟩

/-- Nothing was broadcast. -/
theorem of_silent (hmax : e'.maxfd = e.maxfd)
    (htype : (e'.fds g).type = .client → (e.fds g).type = .client)
    (hoffered : offered g e'.trace = offered g e.trace)
    (hbroadcasts : broadcasts g e'.trace = broadcasts g e.trace) : Tells g e e' :=
  ⟨hmax, htype, fun _ _ => ⟨[], by rw [hoffered, List.append_nil],
    by rw [hbroadcasts, List.append_nil]⟩⟩

theorem refl (g : Nat) (e : Env) : Tells g e e := of_silent rfl id rfl rfl

theorem log (haccept : a.isAccept g = false) (hoffer : a.offerOf g = [])
    (hcast : a.castOf g = []) : Tells g e (e.log a) :=
  of_silent rfl id (since_cons_silent haccept hoffer _) (since_cons_silent haccept hcast _)

theorem setSlot (h : (g : Fd) = fd → slot.type = .client → (e.fds fd).type = .client) :
    Tells g e (e.setSlot fd slot) := by
  refine of_silent rfl (fun hc => ?_) rfl rfl
  rw [Env.fds_setSlot] at hc
  split_ifs at hc with hg
  · rw [hg]
    exact h hg hc
  · exact hc

end Tells

section Broadcast

variable (g : Nat) (sender : Fd) (msg : Str)

/-- A round of a broadcast queues or drops the message, or does nothing. -/
theorem broadcastTo_cases (e : Env) (i : Nat) :
    let e' := e.broadcastTo sender msg i
    e'.maxfd = e.maxfd ∧
      (((e.fds i).type = .client ∧ (i : Fd) ≠ sender) ∧ (∃ event : Event,
          (event = .queue i (cString (Env.fullMsg msg).1) ∨
            event = .drop i (cString (Env.fullMsg msg).1)) ∧ e'.trace = event :: e.trace) ∨
        ¬ ((e.fds i).type = .client ∧ (i : Fd) ≠ sender) ∧ e'.trace = e.trace) := by
  unfold Env.broadcastTo
  dsimp only
  split_ifs with hto hroom
  · exact ⟨rfl, .inl ⟨hto, _, .inr rfl, rfl⟩⟩
  · exact ⟨rfl, .inl ⟨hto, _, .inl rfl, rfl⟩⟩
  · exact ⟨rfl, .inr ⟨hto, rfl⟩⟩

/-- It offers the message to the client of its descriptor. -/
theorem broadcastTo_offers (e : Env) (i : Nat) :
    broadcasts g (e.broadcastTo sender msg i).trace = broadcasts g e.trace ∧
      offered g (e.broadcastTo sender msg i).trace = offered g e.trace ++
        if g = i ∧ (e.fds g).type = .client ∧ (g : Fd) ≠ sender then [cString (Env.fullMsg msg).1]
        else [] := by
  obtain ⟨-, ⟨hto, event, hevent, htrace⟩ | ⟨hto, htrace⟩⟩ := broadcastTo_cases sender msg e i
  · have haccept : event.isAccept g = false := by rcases hevent with rfl | rfl <;> rfl
    have hcast : event.castOf g = [] := by rcases hevent with rfl | rfl <;> rfl
    have hoffer : event.offerOf g =
        if (i : Fd) = g then [cString (Env.fullMsg msg).1] else [] := by
      rcases hevent with rfl | rfl <;> rfl
    rw [htrace]
    refine ⟨since_cons_silent haccept hcast _, (since_cons haccept _).trans ?_⟩
    rw [hoffer]
    by_cases hg : g = i
    · rw [hg, if_pos rfl, if_pos ⟨rfl, hto⟩]
      rfl
    · have hne : (i : Fd) ≠ g := fun h => hg (Int.ofNat.inj h).symm
      rw [if_neg hne, if_neg fun h => hg h.1]
      rfl
  · rw [htrace, if_neg, List.append_nil]
    · exact ⟨rfl, rfl⟩
    · rintro ⟨hg, h⟩
      exact hto (hg ▸ h)

/-- The loop offers it to a client among the first descriptors, once. -/
theorem foldl_offers (e : Env) (n : Nat) :
    let e' := (List.range n).foldl (Env.broadcastTo sender msg) e
    e'.maxfd = e.maxfd ∧ (e'.fds g).type = (e.fds g).type ∧
      broadcasts g e'.trace = broadcasts g e.trace ∧
      offered g e'.trace = offered g e.trace ++
        if g < n ∧ (e.fds g).type = .client ∧ (g : Fd) ≠ sender then
          [cString (Env.fullMsg msg).1] else [] := by
  induction n with
  | zero =>
    rw [if_neg fun h => Nat.not_lt_zero _ h.1]
    exact ⟨rfl, rfl, rfl, (List.append_nil _).symm⟩
  | succ n ih =>
    obtain ⟨hmax, htype, hbroadcasts, hoffered⟩ := ih
    rw [List.range_succ, List.foldl_append, List.foldl_cons, List.foldl_nil]
    set e₁ := (List.range n).foldl (Env.broadcastTo sender msg) e
    obtain ⟨hbroadcasts', hoffered'⟩ := broadcastTo_offers g sender msg e₁ n
    have hkind : ((e₁.broadcastTo sender msg n).fds g).type = (e₁.fds g).type :=
      (Slot.eq_of_input (SameInput.broadcastTo (g := g) sender msg e₁ n).slot).1
    refine ⟨(broadcastTo_cases sender msg e₁ n).1.trans hmax, hkind.trans htype,
      hbroadcasts'.trans hbroadcasts, ?_⟩
    rw [hoffered', hoffered, htype, List.append_assoc]
    congr 1
    by_cases hto : (e.fds g).type = .client ∧ (g : Fd) ≠ sender
    · simp only [hto, and_true, ne_eq, not_false_eq_true]
      rcases Nat.lt_trichotomy g n with hg | rfl | hg
      · rw [if_pos hg, if_neg hg.ne, if_pos (Nat.lt_succ_of_lt hg)]
        rfl
      · rw [if_neg (Nat.lt_irrefl g), if_pos rfl, if_pos (Nat.lt_succ_self g)]
        rfl
      · rw [if_neg hg.asymm, if_neg hg.ne', if_neg (by omega)]
        rfl
    · simp only [hto, and_false, if_false, List.append_nil]

end Broadcast

namespace Tells

variable {g : Nat} {fd : Fd} {e : Env} {k : Calls}

/-- A message from a read buffer is offered, with its CRLF, to every client but the one that sent
it. -/
theorem broadcastMessage {sender : Fd} {msg : Str} (h : (cString msg).length < BUF_SIZE) (e : Env) :
    Tells g e (e.broadcastMessage sender msg) := by
  obtain ⟨hmax, htype, hbroadcasts, hoffered⟩ :=
    foldl_offers g sender msg (e.log (.message sender (cString msg))) e.maxfd
  rw [cString_fullMsg h] at hoffered
  have hcast : broadcasts g (e.log (.message sender (cString msg))).trace =
      broadcasts g e.trace ++ if sender = g then [] else [cString msg ++ [cr, lf]] :=
    since_cons rfl _
  have hoffer : offered g (e.log (.message sender (cString msg))).trace = offered g e.trace :=
    since_cons_silent rfl rfl _
  refine ⟨hmax, fun hc => htype ▸ hc, fun hlt hc => ⟨_, hoffered.trans ?_, hbroadcasts.trans hcast⟩⟩
  rw [hoffer]
  congr 1
  by_cases hsender : sender = g
  · rw [if_pos hsender, if_neg fun h => h.2.2 hsender.symm]
  · rw [if_neg hsender, if_pos ⟨hlt, htype ▸ hc, Ne.symm hsender⟩]

theorem closeFd (e : Env) : Tells g e (e.closeFd fd) :=
  (log rfl rfl rfl).trans (setSlot fun _ h => by cases h)

theorem readAndStore (k : Calls) (e : Env) : Tells g e (e.readAndStore k fd).2 := by
  unfold Env.readAndStore
  dsimp only
  split_ifs
  · exact log rfl rfl rfl
  · split
    · exact log rfl rfl rfl
    · split_ifs
      · exact log rfl rfl rfl
      · refine (log (a := .recv fd _) rfl rfl rfl).trans (setSlot fun _ h => ?_)
        exact h

theorem extractAndConsume {crlfEnd : Nat} (h : crlfEnd - 2 < BUF_SIZE) (e : Env) :
    Tells g e (e.extractAndConsume fd crlfEnd) := by
  unfold Env.extractAndConsume
  dsimp only
  refine trans ?_ (setSlot fun _ h => h)
  refine trans ?_ (broadcastMessage ?_ _)
  · exact setSlot fun _ h => h
  · rw [Env.fds_setSlot, if_pos rfl]
    exact length_cString_setChar h

theorem clientRead (k : Calls) (e : Env) (cs : Fd) : Tells g e (e.clientRead k cs) :=
  clientRead_rule (refl g) trans (readAndStore k) closeFd
    (fun e => extractAndConsume (getCrlfPos_lt _ _) e) e

theorem clientWrite (k : Calls) (e : Env) (cs : Fd) : Tells g e (e.clientWrite k cs) := by
  unfold Env.clientWrite
  dsimp only
  split_ifs
  · exact refl g e
  · exact (log rfl rfl rfl).trans (closeFd _)
  · exact (log (a := .send cs _) rfl rfl rfl).trans (setSlot fun _ h => h)

end Tells

variable {memory : Fd → Slot} {maxfd : Nat} {ok : Env → Op → Prop} {e e' : Env} {op : Op}

theorem Change.told (hc : Change e op e') {g : Nat} (hmax : e.maxfd = maxfd ∧ (g < maxfd →
      (e.fds g).type = .client → offered g e.trace = broadcasts g e.trace)) :
    e'.maxfd = maxfd ∧
      (g < maxfd → (e'.fds g).type = .client → offered g e'.trace = broadcasts g e'.trace) := by
  have of_tells : Tells g e e' → e'.maxfd = maxfd ∧
      (g < maxfd → (e'.fds g).type = .client → offered g e'.trace = broadcasts g e'.trace) := by
    rintro ⟨hmaxfd, htype, htold⟩
    refine ⟨hmaxfd.trans hmax.1, fun hlt hclient => ?_⟩
    obtain ⟨new, hoffered, hbroadcasts⟩ := htold (hmax.1 ▸ hlt) hclient
    rw [hoffered, hbroadcasts, hmax.2 hlt (htype hclient)]
  cases hc with
  | create s => exact of_tells (.setSlot fun _ h => by cases h)
  | @accept fd cs k _ _ _ =>
    by_cases hg : (g : Fd) = cs
    · have hstart : (Event.accept cs).isAccept g = true := beq_iff_eq.2 hg.symm
      refine ⟨hmax.1, fun _ _ => ?_⟩
      rw [offered, broadcasts, Env.trace_setSlot, Env.trace_log, since_cons_start hstart,
        since_cons_start hstart]
    · have hne : (Event.accept cs).isAccept g = false := beq_false_of_ne (Ne.symm hg)
      exact of_tells (((Tells.log rfl rfl rfl).trans (.log hne rfl rfl)).trans
        (.setSlot fun hs => absurd hs hg))
  | read k _ _ => exact of_tells ((Tells.log rfl rfl rfl).trans (.clientRead k _ _))
  | write k _ => exact of_tells ((Tells.log rfl rfl rfl).trans (.clientWrite k _ _))

/-- Along every run a client is offered the messages of the other clients since it was accepted,
each once, in order and with its CRLF. -/
theorem Reachable.offered_eq (h : Reachable memory maxfd ok e) {g : Nat} (hlt : g < maxfd)
    (hclient : (e.fds g).type = .client) : offered g e.trace = broadcasts g e.trace := by
  refine (h.induction (P := fun e => e.maxfd = maxfd ∧ (g < maxfd → (e.fds g).type = .client →
    offered g e.trace = broadcasts g e.trace)) ⟨rfl, fun _ hc => ?_⟩
    fun _ _ _ _ _ _ hc => hc.told).2 hlt hclient
  cases hc

end Bircd

end Ircserv
