import Ircserv.Proofs.Slots

/-!
# What a client sends

The read buffer of a client has what follows the last CRLF of the bytes that came, and the messages
are the lines before it (`Incoming`), however the bytes came. A line that does not fit into the
buffer with its CRLF fills it, and then the connection is closed.
-/

namespace Ircserv

namespace Bircd

open History Delimited

section Position

variable {i : Nat} {l s : Str}

theorem crlfPosFrom_of_free (h : Free cr lf s) : crlfPosFrom i s = 0 := by
  induction s generalizing i with
  | nil => rfl
  | cons x s ih =>
    rcases s with _ | ⟨y, s⟩
    · rfl
    · rw [crlfPosFrom, if_neg h.head]
      exact ih h.tail

theorem crlfPosFrom_line (h : Free cr lf (l ++ [cr])) :
    crlfPosFrom i (l ++ cr :: lf :: s) = i + l.length + 2 := by
  induction l generalizing i with
  | nil => rw [List.nil_append, crlfPosFrom, if_pos ⟨rfl, rfl⟩, List.length_nil, Nat.add_zero]
  | cons x l ih =>
    have htail := ih (i := i + 1) h.tail
    have hlen : i + 1 + l.length + 2 = i + (x :: l).length + 2 := by
      rw [List.length_cons]
      omega
    rw [hlen] at htail
    rcases l with _ | ⟨y, l⟩
    · have hhead : ¬ (x = cr ∧ cr = lf) := h.head
      rw [List.nil_append] at htail
      rw [List.cons_append, List.nil_append, crlfPosFrom, if_neg hhead, htail]
    · have hhead : ¬ (x = cr ∧ y = lf) := h.head
      rw [List.cons_append] at htail
      rw [List.cons_append, List.cons_append, crlfPosFrom, if_neg hhead, htail]

end Position

/-- The read buffer has these bytes. -/
structure Stores (slot : Slot) (bytes : Str) : Prop where
  len : slot.bufReadLen = bytes.length
  room : bytes.length ≤ BUF_SIZE
  start : bytes <+: slot.bufRead.1

theorem Stores.of_input {slot slot' : Slot} {bytes : Str} (h : Stores slot bytes)
    (hinput : slot'.input = slot.input) : Stores slot' bytes := by
  obtain ⟨-, -, -, hlen, hbuf⟩ := Slot.eq_of_input hinput
  exact ⟨hlen.trans h.len, h.room, by rw [hbuf]; exact h.start⟩

variable {e : Env} {cs : Fd} {k : Calls} {l t c : Str}

theorem Stores.getCrlfPos (h : Stores (e.fds cs) c) :
    Bircd.getCrlfPos (e.fds cs).bufRead.1 (e.fds cs).bufReadLen = crlfPosFrom 0 c := by
  rw [Bircd.getCrlfPos, h.len, Int.toNat_natCast, ← List.prefix_iff_eq_take.1 h.start]

/-- A NUL is written over one of the bytes. -/
theorem Stores.setChar {slot : Slot} {x : UInt8} (h : Stores slot (l ++ x :: t)) :
    Stores { slot with bufRead := slot.bufRead.setChar l.length 0 } (l ++ 0 :: t) := by
  refine ⟨h.len.trans (by simp), le_trans (by simp) h.room, ?_⟩
  obtain ⟨r, hr⟩ := h.start
  have hset : (slot.bufRead.setChar l.length 0).1 = slot.bufRead.1.set l.length 0 := rfl
  rw [hset, ← hr, List.append_assoc, List.set_append_right _ _ le_rfl, Nat.sub_self]
  exact ⟨r, by simp⟩

/-- What is read as a string ends at the first NUL. -/
theorem Stores.cString_eq {slot : Slot} (h : Stores slot (l ++ 0 :: t)) :
    cString slot.bufRead.1 = cString l := by
  obtain ⟨r, hr⟩ := h.start
  rw [← hr, cString, List.append_assoc, List.cons_append, CArray.cstr_append]
  rfl

/-- The first bytes are taken off. -/
theorem Stores.ftMemmove {slot : Slot} (h : Stores slot (l ++ t)) :
    Stores { slot with
      bufRead := slot.bufRead.ftMemmove 0 l.length (slot.bufReadLen - l.length + 1).toNat
      bufReadLen := slot.bufReadLen - l.length } t := by
  have hroom := h.room
  rw [List.length_append] at hroom
  have hlen : slot.bufReadLen - l.length = t.length := by
    rw [h.len, List.length_append]
    omega
  rw [hlen]
  exact ⟨rfl, by omega, CharArray.prefix_ftMemmove h.start (by omega)⟩

/-- The first line is taken off the buffer, and it is a message as far as its first NUL. -/
theorem extractAndConsume_line (h : Stores (e.fds cs) (l ++ cr :: lf :: t)) :
    let e' := e.extractAndConsume cs (l.length + 2)
    Stores (e'.fds cs) t ∧ (e'.fds cs).type = (e.fds cs).type ∧
      received cs e'.trace = received cs e.trace ∧
      messages cs e'.trace = messages cs e.trace ++ [cString l] ∧
      (Overran cs e'.trace ↔ Overran cs e.trace) := by
  have hcut := h.setChar
  unfold Env.extractAndConsume
  dsimp only
  rw [Nat.add_sub_cancel]
  -- the message ends where its CRLF began
  set slot₁ : Slot := { e.fds cs with bufRead := (e.fds cs).bufRead.setChar l.length 0 }
    with hslot₁
  set e₁ := e.setSlot cs slot₁ with he₁
  have hfds₁ : e₁.fds cs = slot₁ := by rw [he₁, Env.fds_setSlot, if_pos rfl]
  rw [hfds₁]
  -- the broadcast leaves it in its place
  have hsame := SameInput.broadcastMessage (g := cs) cs slot₁.bufRead.1 e₁
  set e₂ := e₁.broadcastMessage cs slot₁.bufRead.1
  have htype := (Slot.eq_of_input hsame.slot).1
  have hstores : Stores (e₂.fds cs) (l ++ [0, lf] ++ t) := by
    refine Stores.of_input ?_ hsame.slot
    rw [Env.fds_log, hfds₁, List.append_assoc]
    exact hcut
  have hmove := hstores.ftMemmove
  rw [show (l ++ [0, lf]).length = l.length + 2 by simp] at hmove
  rw [Env.fds_log, hfds₁] at htype
  rw [Env.fds_setSlot, if_pos rfl, Env.trace_setSlot]
  refine ⟨hmove, htype, ?_, ?_, ?_⟩
  · rw [hsame.received]
    exact since_cons_silent rfl rfl _
  · rw [hsame.messages, hcut.cString_eq]
    refine (since_cons rfl _).trans ?_
    rw [Event.messageOf, if_pos rfl]
    rfl
  · exact hsame.overran.trans (overran_log rfl rfl e₁)

/-- All lines are taken off the buffer. -/
theorem extractAll_stores : ∀ {fuel : Nat} {e : Env} {c : Str}, c.length < fuel →
    Stores (e.fds cs) c →
      let e' := Env.extractAll cs fuel e
      Stores (e'.fds cs) (rest cr lf c) ∧ (e'.fds cs).type = (e.fds cs).type ∧
        received cs e'.trace = received cs e.trace ∧
        messages cs e'.trace = messages cs e.trace ++ (lines cr lf c).map cString ∧
        (Overran cs e'.trace ↔ Overran cs e.trace)
  | 0, _, _, hfuel, _ => absurd hfuel (Nat.not_lt_zero _)
  | fuel + 1, e, c, hfuel, h => by
    rw [Env.extractAll, h.getCrlfPos]
    by_cases hfree : Free cr lf c
    · rw [crlfPosFrom_of_free hfree, rest_of_free hfree, lines_of_free hfree]
      exact ⟨h, rfl, rfl, (List.append_nil _).symm, Iff.rfl⟩
    · obtain ⟨l, t, hl, rfl⟩ := exists_line hfree
      rw [crlfPosFrom_line hl, if_neg (by omega), Nat.zero_add, rest_line hl, lines_line hl]
      obtain ⟨hstores, htype, hreceived, hmessages, hoverran⟩ := extractAndConsume_line h
      rw [List.length_append, List.length_cons, List.length_cons] at hfuel
      obtain ⟨hstores', htype', hreceived', hmessages', hoverran'⟩ :=
        extractAll_stores (show t.length < fuel by omega) hstores
      refine ⟨hstores', htype'.trans htype, hreceived'.trans hreceived, ?_,
        hoverran'.trans hoverran⟩
      rw [hmessages', hmessages, List.append_assoc]
      rfl

/-- Bytes are put behind those that are there, and a NUL behind them. -/
theorem Stores.ftMemcpy {slot : Slot} {data : Str} (h : Stores slot c)
    (hroom : c.length + data.length ≤ BUF_SIZE) :
    Stores { slot with
      bufRead := (slot.bufRead.ftMemcpy slot.bufReadLen.toNat data).setChar
        (slot.bufReadLen + data.length).toNat 0
      bufReadLen := slot.bufReadLen + data.length } (c ++ data) := by
  have hlen : slot.bufReadLen + data.length = ((c ++ data).length : Nat) := by
    rw [h.len, List.length_append]
    omega
  rw [hlen, h.len, Int.toNat_natCast, Int.toNat_natCast]
  rw [← List.length_append] at hroom
  refine ⟨rfl, hroom, ?_⟩
  have hsize := slot.bufRead.2
  have hcopy : c ++ data <+: CArray.store slot.bufRead.1 c.length data :=
    CArray.prefix_store h.start (by rw [← List.length_append]; omega)
  have hlen₁ : (c ++ data).length + [(0 : UInt8)].length ≤
      (CArray.store slot.bufRead.1 c.length data).length := by
    rw [CArray.length_store, hsize, List.length_singleton]
    omega
  have hend := CArray.prefix_store hcopy hlen₁
  exact (List.prefix_append _ _).trans hend

/-- A read puts what `recv` gives behind what is there, if there is room; else, or if there is
nothing more to come, it does not. -/
theorem readAndStore_stores (k : Calls) (h : Stores (e.fds cs) c) :
    let (r, e') := e.readAndStore k cs
    messages cs e'.trace = messages cs e.trace ∧
      (r ≤ 0 ∧ received cs e'.trace = received cs e.trace ∧
          (Overran cs e'.trace → Overran cs e.trace ∨ c.length = BUF_SIZE) ∨
        0 < r ∧ ∃ data, Stores (e'.fds cs) (c ++ data) ∧ (e'.fds cs).type = (e.fds cs).type ∧
          received cs e'.trace = received cs e.trace ++ data ∧
          (Overran cs e'.trace ↔ Overran cs e.trace)) := by
  have hroom := h.room
  have hfree : BUF_SIZE - (e.fds cs).bufReadLen = (BUF_SIZE - c.length : Nat) := by
    rw [h.len]
    omega
  have hrecv : ∀ data : Str, received cs (e.log (.recv cs data)).trace =
      received cs e.trace ++ data := by
    intro data
    refine (since_cons rfl _).trans ?_
    rw [Event.recvOf, if_pos rfl]
    rfl
  have hoverran : ∀ data : Str, Overran cs (e.log (.recv cs data)).trace ↔ Overran cs e.trace :=
    fun _ => overran_log rfl rfl e
  unfold Env.readAndStore
  dsimp only
  rw [hfree, Int.toNat_natCast]
  by_cases hfull : ((BUF_SIZE - c.length : Nat) : Int) = 0
  · rw [if_pos hfull]
    refine ⟨since_cons_silent rfl rfl _, .inl ⟨by simp, since_cons_silent rfl rfl _, fun _ =>
      .inr ?_⟩⟩
    omega
  rw [if_neg hfull]
  rcases k.recv with _ | data
  · exact ⟨since_cons_silent rfl rfl _, .inl ⟨by simp, by rw [hrecv, List.append_nil],
      fun ho => .inl ((hoverran []).1 ho)⟩⟩
  dsimp only
  set tmp := data.take (BUF_SIZE - c.length) with htmp
  have hlen : tmp.length ≤ BUF_SIZE - c.length := List.length_take_le _ _
  by_cases hnil : tmp.length = 0
  · rw [if_pos hnil]
    have htmp₀ : tmp = [] := List.length_eq_zero_iff.1 hnil
    rw [htmp₀]
    exact ⟨since_cons_silent rfl rfl _, .inl ⟨by simp, by rw [hrecv, List.append_nil],
      fun ho => .inl ((hoverran []).1 ho)⟩⟩
  · rw [if_neg hnil]
    refine ⟨since_cons_silent rfl rfl _, .inr ⟨by dsimp only; omega, tmp, ?_, ?_, hrecv tmp,
      hoverran tmp⟩⟩
    · rw [Env.fds_setSlot, if_pos rfl]
      exact h.ftMemcpy (by omega)
    · rw [Env.fds_setSlot, if_pos rfl]

/-- The messages of a client are the lines that it has sent, each as far as its first NUL. They all
fit into the buffer, and what follows them is in it; a buffer that was found full is full of
that. -/
structure Incoming (e : Env) (fd : Fd) : Prop where
  messages : messages fd e.trace = (lines cr lf (received fd e.trace)).map cString
  fits : ∀ l ∈ lines cr lf (received fd e.trace), l.length + 2 ≤ BUF_SIZE
  overran : Overran fd e.trace → (rest cr lf (received fd e.trace)).length = BUF_SIZE
  stores : (e.fds fd).type = .client →
    Stores (e.fds fd) (rest cr lf (received fd e.trace)) ∧ ¬ Overran fd e.trace

namespace Incoming

variable {g fd : Fd} {e' : Env}

theorem of_same (h : Incoming e g) (hs : SameInput g e e') : Incoming e' g where
  messages := by rw [hs.messages, hs.received, h.messages]
  fits := by
    rw [hs.received]
    exact h.fits
  overran := by
    rw [hs.overran, hs.received]
    exact h.overran
  stores := by
    obtain ⟨htype, -⟩ := Slot.eq_of_input hs.slot
    rw [htype, hs.overran, hs.received]
    exact fun hc => ⟨(h.stores hc).1.of_input hs.slot, (h.stores hc).2⟩

/-- A slot that is no client's has nothing to store. -/
theorem of_type (h : Incoming e g) (hmessages : Bircd.messages g e'.trace = Bircd.messages g e.trace)
    (hreceived : received g e'.trace = received g e.trace)
    (hoverran : Overran g e'.trace → (rest cr lf (received g e.trace)).length = BUF_SIZE)
    (htype : (e'.fds g).type ≠ .client) : Incoming e' g where
  messages := by rw [hmessages, hreceived, h.messages]
  fits := by
    rw [hreceived]
    exact h.fits
  overran := by
    rw [hreceived]
    exact hoverran
  stores hc := absurd hc htype

theorem type_closeFd (e : Env) (fd : Fd) : ((e.closeFd fd).fds fd).type ≠ .client := by
  rw [Env.closeFd, Env.fds_setSlot, if_pos rfl]
  exact fun hc => by cases hc

theorem closeFd (h : Incoming e g) : Incoming (e.closeFd g) g := by
  refine h.of_type (since_cons_silent rfl rfl _) (since_cons_silent rfl rfl _) (fun ho => ?_)
    (type_closeFd e g)
  exact h.overran ((overran_log rfl rfl e).1 ho)

theorem clientRead (h : Incoming e cs) (hc : (e.fds cs).type = .client) (k : Calls) :
    Incoming (e.clientRead k cs) cs := by
  obtain ⟨hstores, hnot⟩ := h.stores hc
  have hread := readAndStore_stores k hstores
  unfold Env.clientRead
  rcases hr : e.readAndStore k cs with ⟨r, e₁⟩
  rw [hr] at hread
  dsimp only
  obtain ⟨hmessages, ⟨hneg, hreceived, hoverran⟩ |
    ⟨hpos, data, hstores₁, htype₁, hreceived, hoverran⟩⟩ := hread
  · rw [if_pos hneg]
    refine h.of_type ((since_cons_silent rfl rfl _).trans hmessages)
      ((since_cons_silent rfl rfl _).trans hreceived) (fun ho => ?_) (type_closeFd e₁ cs)
    exact (hoverran ((overran_log rfl rfl e₁).1 ho)).elim h.overran id
  · rw [if_neg (by omega)]
    have hfuel := Nat.lt_succ_self (e₁.fds cs).bufReadLen.toNat
    nth_rewrite 1 [hstores₁.len, Int.toNat_natCast] at hfuel
    obtain ⟨hstores₂, htype₂, hreceived₂, hmessages₂, hoverran₂⟩ :=
      extractAll_stores hfuel hstores₁
    rw [hreceived] at hreceived₂
    have hno : ¬ Overran cs (Env.extractAll cs ((e₁.fds cs).bufReadLen.toNat + 1) e₁).trace := by
      rw [hoverran₂, hoverran]
      exact hnot
    refine ⟨?_, ?_, fun ho => absurd ho hno, fun _ => ⟨?_, hno⟩⟩
    · rw [hmessages₂, hreceived₂, hmessages, h.messages, lines_append (received cs e.trace) data,
        List.map_append]
    · rw [hreceived₂, lines_append]
      intro l hl
      rcases List.mem_append.1 hl with hold | hnew
      · exact h.fits l hold
      · exact (length_of_mem_lines hnew).trans hstores₁.room
    · rw [hreceived₂, rest_append]
      exact hstores₂

/-- A slot that was just set up has nothing yet. -/
theorem accepted (e : Env) (cs : Fd) (slot : Slot) (hlen : slot.bufReadLen = 0) :
    Incoming ((e.log (.accept cs)).setSlot cs slot) cs := by
  have hstart : (Event.accept cs).isAccept cs = true := beq_self_eq_true cs
  have hreceived : received cs ((e.log (.accept cs)).setSlot cs slot).trace = [] :=
    since_cons_start hstart _
  have hno : ¬ Overran cs ((e.log (.accept cs)).setSlot cs slot).trace :=
    not_not_intro (since_cons_start hstart _)
  refine ⟨?_, ?_, fun ho => absurd ho hno, fun _ => ⟨?_, hno⟩⟩
  · rw [hreceived]
    exact since_cons_start hstart _
  · rw [hreceived]
    exact fun l hl => absurd hl List.not_mem_nil
  · rw [hreceived, Env.fds_setSlot, if_pos rfl]
    exact ⟨hlen, Nat.zero_le _, List.nil_prefix⟩

theorem change {op : Op} (hc : Change e op e') (h : ∀ fd, Incoming e fd) (g : Fd) :
    Incoming e' g := by
  cases hc with
  | create s =>
    by_cases hg : g = s
    · subst hg
      refine (h g).of_type rfl rfl (h g).overran ?_
      rw [Env.srvCreate, Env.fds_setSlot, if_pos rfl]
      exact fun hc => by cases hc
    · exact (h g).of_same (SameInput.setSlot fun hs => absurd hs hg)
  | @accept fd cs k _ _ hcs =>
    by_cases hg : g = cs
    · subst hg
      exact accepted _ g _ rfl
    · have hne : (Event.accept cs).isAccept g = false := beq_false_of_ne (Ne.symm hg)
      have hlog : SameInput g e ((e.log (.call fd (some .srvAccept))).log (.accept cs)) :=
        (SameInput.log rfl rfl rfl rfl).trans (SameInput.log hne rfl rfl rfl)
      exact (h g).of_same (hlog.trans (SameInput.setSlot fun hs => absurd hs hg))
  | @read fd k hclient _ =>
    have hlog : SameInput g e (e.log (.call fd (some .clientRead))) := SameInput.log rfl rfl rfl rfl
    by_cases hg : g = fd
    · subst hg
      exact ((h g).of_same hlog).clientRead hclient k
    · exact ((h g).of_same hlog).of_same (SameInput.clientRead hg k _)
  | @write fd k hclient =>
    have hlog : SameInput g e (e.log (.call fd (some .clientWrite))) := SameInput.log rfl rfl rfl rfl
    rcases SameInput.clientWrite g fd k (e.log (.call fd (some .clientWrite))) with
      hs | ⟨bytes, hs⟩
    · exact (h g).of_same (hlog.trans hs)
    · rw [hs]
      have hsend := (h g).of_same (hlog.trans (SameInput.log (a := .send fd bytes) rfl rfl rfl rfl))
      by_cases hg : g = fd
      · subst hg
        exact hsend.closeFd
      · exact hsend.of_same (SameInput.closeFd hg _)

end Incoming

section Runs

variable {memory : Fd → Slot} {maxfd : Nat} {ok : Env → Op → Prop}

theorem Reachable.incoming (h : Reachable memory maxfd ok e) : ∀ fd, Incoming e fd := by
  refine h.induction (P := fun e => ∀ fd, Incoming e fd) (fun fd => ?_)
    fun e op e' _ _ _ hc ih => .change hc ih
  exact ⟨rfl, fun l hl => absurd hl List.not_mem_nil, fun ho => absurd rfl ho,
    fun hc => by cases hc⟩

/-- The lines of a stream up to the first that does not fit into the read buffer with its CRLF. -/
def fittingLines (stream : Str) : List Str :=
  (lines cr lf stream).takeWhile fun l => l.length + 2 ≤ BUF_SIZE

theorem takeWhile_append_cons {p : Str → Bool} {ls ls' : List Str} (h : ∀ x ∈ ls, p x = true)
    (hl : p l = false) : (ls ++ l :: ls').takeWhile p = ls := by
  rw [List.takeWhile_append_of_pos h]
  simp [hl]

/-- The lines that have come are those of the whole stream that fit, when it has come to its end, or
to a line that does not fit. -/
theorem Incoming.fittingLines_eq {fd : Fd} (h : Incoming e fd) {stream : Str}
    (hpre : received fd e.trace <+: stream)
    (hend : received fd e.trace = stream ∨ Overran fd e.trace) :
    fittingLines stream = lines cr lf (received fd e.trace) := by
  have hfits : ∀ l ∈ lines cr lf (received fd e.trace), decide (l.length + 2 ≤ BUF_SIZE) = true :=
    fun l hl => decide_eq_true (h.fits l hl)
  rcases hend with rfl | hoverran
  · exact List.takeWhile_eq_self_iff.2 hfits
  · obtain ⟨t, rfl⟩ := hpre
    have hfull := h.overran hoverran
    rw [fittingLines, lines_append]
    rcases hl : lines cr lf (rest cr lf (received fd e.trace) ++ t) with _ | ⟨l, ls⟩
    · rw [List.append_nil]
      exact List.takeWhile_eq_self_iff.2 hfits
    · have hlong := length_lt_of_lines_eq_cons (free_rest _) hl
      exact takeWhile_append_cons hfits (decide_eq_false (by omega))

/-- However the bytes of a stream come, the messages extracted from them are the lines that fit, up
to the first that does not, exactly when none of these has a NUL. After each call the buffer has
what follows the last CRLF, and no CRLF. -/
theorem run_framing (h : Reachable memory maxfd ok e) (fd : Fd) (stream : Str)
    (hpre : received fd e.trace <+: stream)
    (hend : received fd e.trace = stream ∨ Overran fd e.trace) :
    (messages fd e.trace = fittingLines stream ↔ ∀ l ∈ fittingLines stream, 0 ∉ l) ∧
      messages fd e.trace = (fittingLines stream).map cString ∧
      ((e.fds fd).type = .client →
        0 ≤ (e.fds fd).bufReadLen ∧ (e.fds fd).bufReadLen ≤ BUF_SIZE ∧
          (e.fds fd).bufRead.1.take (e.fds fd).bufReadLen.toNat = rest cr lf (received fd e.trace) ∧
          Free cr lf (rest cr lf (received fd e.trace))) := by
  have hin := h.incoming fd
  rw [hin.fittingLines_eq hpre hend, hin.messages]
  refine ⟨?_, rfl, fun hc => ?_⟩
  · have hmap := List.map_eq_map_iff (f := cString) (g := id)
      (l := lines cr lf (received fd e.trace))
    rw [List.map_id] at hmap
    exact hmap.trans (forall₂_congr fun l _ => CArray.cstr_eq_self_iff)
  · obtain ⟨⟨hlen, hroom, hstart⟩, -⟩ := hin.stores hc
    rw [hlen, Int.toNat_natCast]
    exact ⟨by omega, by omega, (List.prefix_iff_eq_take.1 hstart).symm, free_rest _⟩

/-- A line that comes in two pieces, and the start of another. -/
theorem run_framing_split : ∃ e, Reachable (fun _ => default) 8 (fun _ _ => True) e ∧
    received 4 e.trace = lit "hi" ++ [cr, lf] ++ lit "yo" ∧
    messages 4 e.trace = [lit "hi"] := by
  have h₁ : Reachable (fun _ => default) 8 (fun _ _ => True) _ :=
    .step (.create 3) .start (by decide) trivial rfl
  have h₂ := h₁.step (.read 3 { accept := some 4 }) (by decide) trivial rfl
  have h₃ := h₂.step (.read 4 { recv := some (lit "hi" ++ [cr]) }) (by decide) trivial rfl
  have h₄ := h₃.step (.read 4 { recv := some ([lf] ++ lit "yo") }) (by decide) trivial rfl
  refine ⟨_, h₄, by decide, ?_⟩
  have hframed := run_framing h₄ 4 (lit "hi" ++ [cr, lf] ++ lit "yo") (by decide) (.inl (by decide))
  exact hframed.1.2 (by decide)

/-- A line with a NUL is a message only as far as the NUL. -/
theorem framing_nul : ∃ e, Reachable (fun _ => default) 8 (fun _ _ => True) e ∧
    received 4 e.trace = lit "a" ++ 0 :: lit "b" ++ [cr, lf] ∧
    fittingLines (received 4 e.trace) = [lit "a" ++ 0 :: lit "b"] ∧
    messages 4 e.trace = [lit "a"] := by
  have h₁ : Reachable (fun _ => default) 8 (fun _ _ => True) _ :=
    .step (.create 3) .start (by decide) trivial rfl
  have h₂ := h₁.step (.read 3 { accept := some 4 }) (by decide) trivial rfl
  have h₃ := h₂.step (.read 4 { recv := some (lit "a" ++ 0 :: lit "b" ++ [cr, lf]) })
    (by decide) trivial rfl
  exact ⟨_, h₃, by decide, by decide, by decide⟩

end Runs

end Bircd

end Ircserv
