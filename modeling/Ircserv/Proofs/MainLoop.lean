import Ircserv.Slots
import Ircserv.Proofs.Offers
import Ircserv.Proofs.Pass
import Mathlib.Algebra.GroupWithZero.Nat

/-!
# How many clients bircd serves

Each pass takes at most one new client, and has to have room in the poll set for the listener and
all that are connected. So the loop goes on as long as there are at most `MAX_CLIENTS`, and is stuck
from the next one on.
-/

namespace Ircserv

namespace Bircd

open Halting

section Steps

variable {s : Nat} {e e' : Env} {op : Op}

/-- The listener is the only one, and the slots in use are in the table. -/
structure Serves (s : Nat) (e : Env) : Prop where
  shaped : ∀ g, (e.fds g).Shaped
  listener : ∀ g, (e.fds g).type = .serv ↔ g = s
  bounded : ∀ g, (e.fds g).type ≠ .free → ∃ n : Nat, n < e.maxfd ∧ g = n

theorem Env.mem_clients {n : Nat} : n ∈ e.clients ↔ n < e.maxfd ∧ (e.fds n).type = .client := by
  simp [clients]

/-- A slot keeps its type, or a client is closed. -/
def Narrows (e e' : Env) : Prop :=
  e'.maxfd = e.maxfd ∧ ∀ g, (e'.fds g).type = (e.fds g).type ∨
    (e'.fds g).type = .free ∧ (e.fds g).type = .client

theorem type_of_kind {slot slot' : Slot} (h : slot'.kind = slot.kind) : slot'.type = slot.type :=
  congrArg Prod.fst h

theorem narrows_read {fd : Fd} (hclient : (e.fds fd).type = .client) (a : Event) (k : Calls) :
    Narrows e ((e.log a).clientRead k fd) := by
  refine ⟨(Tells.clientRead (g := 0) k (e.log a) fd).maxfd, fun g => ?_⟩
  by_cases hg : g = fd
  · subst hg
    rcases kind_clientRead k (e.log a) g g with h | h
    · exact .inl (type_of_kind h)
    · exact .inr ⟨congrArg Prod.fst h, hclient⟩
  · exact .inl (type_of_kind (SameInput.clientRead hg k (e.log a)).kind)

theorem narrows_write {fd : Fd} (hclient : (e.fds fd).type = .client) (a : Event) (k : Calls) :
    Narrows e ((e.log a).clientWrite k fd) := by
  refine ⟨(Tells.clientWrite (g := 0) k (e.log a) fd).maxfd, fun g => ?_⟩
  rcases SameInput.clientWrite g fd k (e.log a) with h | ⟨bytes, h⟩
  · exact .inl (type_of_kind h.kind)
  · rw [h, Env.closeFd, Env.fds_setSlot]
    split_ifs with hg
    · exact .inr ⟨rfl, hg ▸ hclient⟩
    · exact .inl rfl

theorem Narrows.serves (h : Narrows e e') (hshaped : ∀ g, (e'.fds g).Shaped) (hs : Serves s e) :
    Serves s e' ∧ e'.clients ⊆ e.clients := by
  obtain ⟨hmaxfd, htype⟩ := h
  refine ⟨⟨hshaped, fun g => ?_, fun g hg => ?_⟩, fun n hn => ?_⟩
  · rw [← hs.listener]
    rcases htype g with h | ⟨h, h'⟩
    · rw [h]
    · simp [h, h']
  · rw [hmaxfd]
    refine hs.bounded g ?_
    rcases htype g with h | ⟨h, -⟩
    · rwa [← h]
    · exact absurd h hg
  · rw [Env.mem_clients, hmaxfd] at hn
    rw [Env.mem_clients]
    rcases htype n with h | ⟨h, -⟩
    · rwa [← h]
    · simp [h] at hn

/-- A client is accepted at most where the listener is read. -/
def Op.listens (s : Nat) : Op → Nat
  | .read fd _ => if fd = s then 1 else 0
  | _ => 0

theorem accept_of_accepts {fd cs : Fd} {k : Calls} (hop : op = .read fd k ∨ op = .write fd k)
    (h : op.accepts e = some cs) : k.accept = some cs := by
  rcases hop with rfl | rfl
  · rw [Op.accepts] at h
    split_ifs at h
    exact h
  · cases h

/-- What a call of `check_fd` does to the number of clients. -/
theorem Serves.step (hs : Serves s e) (hfresh : op.Fresh e) (hcreate : ∀ g, op ≠ .create g)
    (htable : ∀ cs, op.accepts e = some cs → ∃ n : Nat, n < e.maxfd ∧ cs = n)
    (h : e.step op = .ok e') :
    Serves s e' ∧ e'.maxfd = e.maxfd ∧ e'.clients.card ≤ e.clients.card + op.listens s := by
  have hchange := Change.of_step hs.shaped h
  have hshaped := hchange.shaped hfresh hs.shaped
  cases hchange with
  | create g => exact absurd rfl (hcreate g)
  | @accept fd cs k hserv hread hcs =>
    have hfd : fd = s := (hs.listener fd).1 hserv
    have haccepts : (Op.read fd k).accepts e = some cs := by rw [Op.accepts, if_pos hread, hcs]
    have hfree : (e.fds cs).type = .free := hfresh cs haccepts
    obtain ⟨n, hn, rfl⟩ := htable cs haccepts
    have hne : (n : Fd) ≠ s := fun heq => by
      have hserv' := (hs.listener n).2 heq
      simp [hfree] at hserv'
    refine ⟨⟨hshaped, fun g => ?_, fun g hg => ?_⟩, rfl, ?_⟩
    · rw [Env.fds_setSlot]
      split_ifs with hg
      · subst hg
        simp [hne]
      · exact hs.listener g
    · rw [Env.fds_setSlot] at hg
      split_ifs at hg with heq
      · exact ⟨n, hn, heq⟩
      · exact hs.bounded g hg
    · rw [Op.listens, if_pos hfd]
      refine (Finset.card_le_card fun m hm => ?_).trans (Finset.card_insert_le n e.clients)
      rw [Env.mem_clients, Env.fds_setSlot] at hm
      rw [Finset.mem_insert, Env.mem_clients]
      split_ifs at hm with hmn
      · exact .inl (Int.ofNat.inj hmn)
      · exact .inr hm
  | @read fd k hclient hread =>
    have hnarrows := narrows_read hclient (.call fd (some .clientRead)) k
    obtain ⟨hs', hsub⟩ := hnarrows.serves hshaped hs
    exact ⟨hs', hnarrows.1, (Finset.card_le_card hsub).trans (Nat.le_add_right _ _)⟩
  | @write fd k hclient =>
    have hnarrows := narrows_write hclient (.call fd (some .clientWrite)) k
    obtain ⟨hs', hsub⟩ := hnarrows.serves hshaped hs
    exact ⟨hs', hnarrows.1, (Finset.card_le_card hsub).trans (Nat.le_add_right _ _)⟩

/-- The calls of a pass, one after the other. -/
theorem checkFrom_eq_foldlM (calls : Nat → Calls) : ∀ (ps : List PollFd) (i : Nat) (e : Env),
    Env.checkFrom calls i ps e = (opsFrom calls i ps).foldlM Env.step e
  | [], _, _ => rfl
  | p :: ps, i, e => by
    have hentry : e.checkEntry (calls i) p =
        ((if p.revents.has POLLIN then [Op.read p.fd (calls i)] else []) ++
          if p.revents.has POLLOUT then [Op.write p.fd (calls i)] else []).foldlM Env.step e := by
      have hin : e.checkIn (calls i) p =
          (if p.revents.has POLLIN then [Op.read p.fd (calls i)] else []).foldlM Env.step e := by
        rw [Env.checkIn]
        split_ifs
        · simp [Env.step]
        · rfl
      rw [List.foldlM_append, Env.checkEntry, hin]
      congr 1
      funext e₁
      rw [Env.checkOut]
      split_ifs
      · simp [Env.step]
      · rfl
    rw [Env.checkFrom, opsFrom, List.foldlM_append, hentry]
    congr 1
    funext e₁
    exact checkFrom_eq_foldlM calls ps (i + 1) e₁

theorem Serves.run : ∀ {ops : List Op} {e : Env}, Serves s e → FreshRun e ops →
    (∀ op ∈ ops, (∀ g, op ≠ .create g) ∧
      ∀ e' cs, op.accepts e' = some cs → ∃ n : Nat, n < e.maxfd ∧ cs = n) →
    ops.foldlM Env.step e = .ok e' →
    Serves s e' ∧ e'.maxfd = e.maxfd ∧ e'.clients.card ≤ e.clients.card +
      (ops.map (Op.listens s)).sum
  | [], _, hs, _, _, h => by
    cases h
    exact ⟨hs, rfl, Nat.le_refl _⟩
  | op :: ops, e, hs, hfresh, hops, h => by
    rw [List.foldlM_cons] at h
    obtain ⟨e₁, hstep, hnext⟩ := bind_eq_ok.1 h
    obtain ⟨hcreate, htable⟩ := hops op List.mem_cons_self
    obtain ⟨hs₁, hmaxfd₁, hcard₁⟩ := hs.step hfresh.1 hcreate (htable e) hstep
    obtain ⟨hs', hmaxfd', hcard'⟩ := run hs₁ (hfresh.2 e₁ hstep)
      (fun op hop => by rw [hmaxfd₁]; exact hops op (List.mem_cons_of_mem _ hop)) hnext
    refine ⟨hs', hmaxfd'.trans hmaxfd₁, ?_⟩
    rw [List.map_cons, List.sum_cons]
    omega

/-- The calls of a pass read from and write to the entries; the listener is read once for each of
its own. -/
theorem opsFrom_spec (calls : Nat → Calls) (s : Nat) : ∀ (ps : List PollFd) (i : Nat),
    (∀ op ∈ opsFrom calls i ps, ∃ fd j, op = .read fd (calls j) ∨ op = .write fd (calls j)) ∧
      ((opsFrom calls i ps).map (Op.listens s)).sum ≤ (ps.map (·.fd)).count (s : Fd)
  | [], _ => ⟨by simp [opsFrom], Nat.le_refl _⟩
  | p :: ps, i => by
    obtain ⟨hops, hsum⟩ := opsFrom_spec calls s ps (i + 1)
    rw [opsFrom, List.map_cons, List.count_cons]
    constructor
    · intro op hop
      rcases List.mem_append.1 hop with hop | hop
      · refine ⟨p.fd, i, ?_⟩
        rcases List.mem_append.1 hop with hop | hop <;> split_ifs at hop <;> simp_all
      · exact hops op hop
    · simp only [List.map_append, List.sum_append, beq_iff_eq]
      split_ifs <;> simp_all [Op.listens] <;> omega

/-- The poll set needs room for the listener and the clients. -/
theorem Serves.inUse (hs : Serves s e) (hlt : s < e.maxfd) :
    e.inUse.Nodup ∧ (∀ n, n ∈ e.inUse ↔ n = s ∨ n ∈ e.clients) ∧
    e.inUse.length = e.clients.card + 1 := by
  have hnodup : e.inUse.Nodup := (List.nodup_range' 1).filter _
  have hmem : ∀ n, n ∈ e.inUse ↔ n = s ∨ n ∈ e.clients := by
    intro n
    have hserv : (e.fds n).type = .serv ↔ n = s := (hs.listener n).trans Int.ofNat_inj
    rw [Env.mem_clients, Env.inUse, Env.inUseFrom, List.mem_filter, List.mem_range'_1]
    rcases htype : (e.fds n).type
    · have hne : n ≠ s := by simpa [htype] using hserv
      simp [hne]
    · obtain rfl : n = s := hserv.1 htype
      simp [hlt]
    · have hne : n ≠ s := by simpa [htype] using hserv
      simp [hne]
  refine ⟨hnodup, hmem, ?_⟩
  have hnot : s ∉ e.clients := by
    rw [Env.mem_clients, (hs.listener s).2 rfl]
    simp
  rw [← List.toFinset_card_of_nodup hnodup, ← Finset.card_insert_of_notMem hnot]
  congr 1
  ext n
  rw [List.mem_toFinset, Finset.mem_insert]
  exact hmem n

theorem Serves.room {fuel : Nat} {e₁ : Env} (hs : Serves s e) (hlt : s < e.maxfd)
    (hinit : e.initFd fuel = some e₁) : e.clients.card ≤ MAX_CLIENTS := by
  have hlen := (hs.inUse hlt).2.2
  by_contra hroom
  rw [Env.initFd_eq_none (by omega)] at hinit
  cases hinit

end Steps

section Forget

/-- The poll set is not part of what the callbacks work on. -/
def Env.forget (e : Env) : Env := { e with pollfds := [] }

variable {k : Calls} {cs : Fd} {e e' : Env} {op : Op}

theorem forget_broadcastTo (sender : Fd) (msg : Str) (e : Env) (i : Nat) :
    e.forget.broadcastTo sender msg i = (e.broadcastTo sender msg i).forget := by
  unfold Env.broadcastTo Env.forget
  dsimp only
  split_ifs <;> rfl

theorem forget_broadcastMessage (sender : Fd) (msg : Str) (e : Env) :
    e.forget.broadcastMessage sender msg = (e.broadcastMessage sender msg).forget := by
  have hfold : ∀ (l : List Nat) (e : Env), l.foldl (Env.broadcastTo sender msg) e.forget =
      (l.foldl (Env.broadcastTo sender msg) e).forget := by
    intro l
    induction l with
    | nil => exact fun _ => rfl
    | cons i l ih =>
      intro e
      rw [List.foldl_cons, List.foldl_cons, forget_broadcastTo, ih]
  exact hfold (List.range e.maxfd) (e.log (.message sender (cString msg)))

theorem forget_extractAndConsume (e : Env) (crlfEnd : Nat) :
    e.forget.extractAndConsume cs crlfEnd = (e.extractAndConsume cs crlfEnd).forget := by
  unfold Env.extractAndConsume
  dsimp only
  have hset : ∀ (e : Env) slot, e.forget.setSlot cs slot = (e.setSlot cs slot).forget :=
    fun _ _ => rfl
  rw [hset, forget_broadcastMessage]
  rfl

theorem forget_extractAll : ∀ (fuel : Nat) (e : Env),
    Env.extractAll cs fuel e.forget = (Env.extractAll cs fuel e).forget
  | 0, _ => rfl
  | fuel + 1, e => by
    rw [Env.extractAll, Env.extractAll]
    change (if getCrlfPos (e.fds cs).bufRead.1 (e.fds cs).bufReadLen = 0 then _ else _) =
      (if getCrlfPos (e.fds cs).bufRead.1 (e.fds cs).bufReadLen = 0 then _ else _ : Env).forget
    split_ifs
    · rfl
    · rw [forget_extractAndConsume, forget_extractAll]
      rfl

theorem forget_readAndStore (e : Env) : e.forget.readAndStore k cs =
    ((e.readAndStore k cs).1, (e.readAndStore k cs).2.forget) := by
  unfold Env.readAndStore Env.forget
  dsimp only
  split_ifs
  · rfl
  · split
    · rfl
    · split_ifs <;> rfl

theorem forget_clientRead (e : Env) : e.forget.clientRead k cs = (e.clientRead k cs).forget := by
  unfold Env.clientRead
  rw [forget_readAndStore]
  dsimp only
  split_ifs
  · rfl
  · exact forget_extractAll _ _

theorem forget_clientWrite (e : Env) : e.forget.clientWrite k cs = (e.clientWrite k cs).forget := by
  unfold Env.clientWrite Env.forget
  dsimp only
  split_ifs <;> rfl

theorem forget_step (hshaped : ∀ g, (e.fds g).Shaped) (h : e.step op = .ok e') :
    e.forget.step op = .ok e'.forget := by
  cases Change.of_step hshaped h with
  | create s => rfl
  | @accept fd cs k hserv hread hcs =>
    change e.forget.invoke k fd (e.fds fd).fctRead = _
    rw [hread, Env.invoke, Env.srvAccept, hcs]
    rfl
  | @read fd k hclient hread =>
    change e.forget.invoke k fd (e.fds fd).fctRead = _
    rw [hread]
    exact congrArg Except.ok (forget_clientRead (e.log (.call fd (some .clientRead))))
  | @write fd k hclient =>
    have hwrite : (e.fds fd).fctWrite = some .clientWrite := by
      rcases (hshaped fd).fctWrite_cases with ⟨hne, -⟩ | ⟨-, hwrite⟩
      · exact absurd hclient hne
      · exact hwrite
    change e.forget.invoke k fd (e.fds fd).fctWrite = _
    rw [hwrite]
    exact congrArg Except.ok (forget_clientWrite (e.log (.call fd (some .clientWrite))))

variable {memory : Fd → Slot} {maxfd : Nat}

theorem reachable_run : ∀ {ops : List Op} {e : Env}, Reachable memory maxfd
    (fun _ _ => True) e.forget →
    FreshRun e ops → ops.foldlM Env.step e = .ok e' →
    Reachable memory maxfd (fun _ _ => True) e'.forget
  | [], _, h, _, hrun => by
    cases hrun
    exact h
  | op :: ops, e, h, hfresh, hrun => by
    rw [List.foldlM_cons] at hrun
    obtain ⟨e₁, hstep, hnext⟩ := bind_eq_ok.1 hrun
    have hshaped : ∀ g, (e.fds g).Shaped := h.shaped
    have hstep' := forget_step hshaped hstep
    exact reachable_run (h.step op hfresh.1 trivial hstep') (hfresh.2 e₁ hstep) hnext

end Forget

section Runs

variable {memory : Fd → Slot} {maxfd s : Nat} {e : Env}

theorem serves_start (memory : Fd → Slot) (hlt : s < maxfd) :
    Serves s ((initEnv memory maxfd).srvCreate s) where
  shaped g := by
    rw [Env.srvCreate, Env.fds_setSlot]
    split_ifs
    · exact .inr (.inl rfl)
    · exact .cleanFd (memory g)
  listener g := by
    rw [Env.srvCreate, Env.fds_setSlot]
    split_ifs with hg
    · exact iff_of_true rfl hg
    · exact iff_of_false (by simp [initEnv, cleanFd]) hg
  bounded g hg := by
    rw [Env.srvCreate, Env.fds_setSlot] at hg
    split_ifs at hg with heq
    · exact ⟨s, hlt, heq⟩
    · exact absurd rfl hg

theorem Serving.serves (hlt : s < maxfd) (h : Serving memory maxfd s e) :
    Serves s e ∧ e.maxfd = maxfd ∧ e.clients.card ≤ MAX_CLIENTS + 1 := by
  induction h with
  | start =>
    refine ⟨serves_start memory hlt, rfl, ?_⟩
    have hnone : ((initEnv memory maxfd).srvCreate s).clients = ∅ := by
      refine Finset.eq_empty_of_forall_notMem fun n hn => ?_
      rw [Env.mem_clients, Env.srvCreate, Env.fds_setSlot] at hn
      split_ifs at hn <;> simp [initEnv, cleanFd] at hn
    simp [hnone]
  | @pass e e₁ e' fuel revents calls h hinit hfresh htable hpass ih =>
    obtain ⟨hs, hmaxfd, -⟩ := ih
    have hroom := hs.room (hmaxfd.symm ▸ hlt) hinit
    have he₁ := Env.eq_of_initFd hinit
    have hs₁ : Serves s (e₁.poll revents) := by
      rw [he₁]
      exact ⟨hs.shaped, hs.listener, hs.bounded⟩
    have hmaxfd₁ : (e₁.poll revents).maxfd = maxfd := by
      rw [he₁]
      exact hmaxfd
    have hclients₁ : (e₁.poll revents).clients = e.clients := by
      rw [he₁]
      rfl
    have hcheck : (e₁.poll revents).checkFd calls = .ok e' := by
      rw [Env.pass, hinit] at hpass
      exact Option.some.inj hpass
    rw [Env.checkFd, checkFrom_eq_foldlM] at hcheck
    obtain ⟨hops, hsum⟩ := opsFrom_spec calls s (e₁.poll revents).pollfds 0
    have hcalls : ∀ op ∈ opsFrom calls 0 (e₁.poll revents).pollfds, (∀ g, op ≠ .create g) ∧
        ∀ e' cs, op.accepts e' = some cs → ∃ n : Nat, n < (e₁.poll revents).maxfd ∧ cs = n := by
      intro op hop
      obtain ⟨fd, j, hop⟩ := hops op hop
      rw [hmaxfd₁]
      refine ⟨fun g => ?_, fun e' cs hcs => htable j cs (accept_of_accepts hop hcs)⟩
      rcases hop with rfl | rfl <;> simp
    obtain ⟨hs', hmaxfd', hcard⟩ := hs₁.run hfresh hcalls hcheck
    have hcount := List.nodup_iff_count_le_one.1 (poll_entries hinit revents).2 s
    rw [hclients₁] at hcard
    exact ⟨hs', hmaxfd'.trans hmaxfd₁, by omega⟩

/-- The calls that the passes make are a run, as far as the callbacks can tell. -/
theorem Serving.reachable (h : Serving memory maxfd s e) :
    Reachable memory maxfd (fun _ _ => True) e.forget := by
  induction h with
  | start =>
    have hfresh : (Op.create s).Fresh (initEnv memory maxfd) := fun _ _ => rfl
    exact .step (.create s) .start hfresh trivial rfl
  | @pass e e₁ e' fuel revents calls h hinit hfresh htable hpass ih =>
    have hforget : (e₁.poll revents).forget = e.forget := by rw [Env.eq_of_initFd hinit]; rfl
    rw [Env.pass, hinit] at hpass
    have hcheck : (e₁.poll revents).checkFd calls = .ok e' := Option.some.inj hpass
    rw [Env.checkFd, checkFrom_eq_foldlM] at hcheck
    exact reachable_run (hforget ▸ ih) hfresh hcheck

/-- Whatever `poll`, `accept`, `recv` and `send` give, between two passes of a run at most one
client more is connected than `MAX_CLIENTS`. As long as there are no more than these, `init_fd`
ends, and then the listener and every client are polled, each once; with one more it never ends. -/
theorem run_mainLoop (hlt : s < maxfd) (h : Serving memory maxfd s e) :
    Reachable memory maxfd (fun _ _ => True) e.forget ∧ (∀ g, (e.fds g).type = .serv ↔ g = s) ∧
      e.clients.card ≤ MAX_CLIENTS + 1 ∧
      ((∃ fuel e₁, e.initFd fuel = some e₁) ↔ e.clients.card ≤ MAX_CLIENTS) ∧
      ∀ fuel e₁, e.initFd fuel = some e₁ → (e₁.pollfds.map (·.fd)).Nodup ∧
        ∀ g : Fd, g ∈ e₁.pollfds.map (·.fd) ↔ g = s ∨ ∃ n ∈ e.clients, g = n := by
  obtain ⟨hs, hmaxfd, hcard⟩ := h.serves hlt
  have hlt' : s < e.maxfd := hmaxfd.symm ▸ hlt
  obtain ⟨hnodup, hmem, hlen⟩ := hs.inUse hlt'
  refine ⟨h.reachable, hs.listener, hcard, ⟨fun hends => ?_, fun hroom => ?_⟩,
    fun fuel e₁ hinit => ?_⟩
  · obtain ⟨fuel, e₁, hinit⟩ := hends
    exact hs.room hlt' hinit
  · exact ⟨_, _, Env.initFd_eq_some (by omega) (Nat.lt_succ_self _)⟩
  · have hfds : e₁.pollfds.map (·.fd) = e.inUse.map Nat.cast := by
      rw [Env.eq_of_initFd hinit, List.map_map]
      rfl
    rw [hfds]
    refine ⟨hnodup.map fun _ _ => Int.ofNat.inj, fun g => ?_⟩
    rw [List.mem_map]
    constructor
    · rintro ⟨n, hn, rfl⟩
      exact ((hmem n).1 hn).imp (congrArg _) fun hc => ⟨n, hc, rfl⟩
    · rintro (rfl | ⟨n, hn, rfl⟩)
      · exact ⟨s, (hmem s).2 (.inl rfl), rfl⟩
      · exact ⟨n, (hmem n).2 (.inr hn), rfl⟩

/-- Descriptor 4 is accepted in the first pass. -/
theorem run_mainLoop_accept : ∃ e, Serving (fun _ => default) 8 3 e ∧ e.clients = {4} ∧
    ∃ fuel e₁, e.initFd fuel = some e₁ ∧ ∀ g : Fd, g ∈ e₁.pollfds.map (·.fd) ↔ g = 3 ∨ g = 4 := by
  obtain ⟨e, hpass, hclients⟩ : ∃ e, Serving (fun _ => default) 8 3 e ∧ e.clients = {4} :=
    ⟨_, @Serving.pass (fun _ => default) 8 3 _ _ _ 9 (fun _ => POLLIN)
      (fun _ => { accept := some 4 })
      .start rfl ⟨by decide, fun _ _ => trivial⟩
      (fun _ _ hcs => ⟨4, by decide, (Option.some.inj hcs).symm⟩) rfl, by decide⟩
  obtain ⟨-, -, -, hends, hpolled⟩ := run_mainLoop (by decide) hpass
  obtain ⟨fuel, e₁, hinit⟩ := hends.2 (by simp [hclients, MAX_CLIENTS])
  refine ⟨e, hpass, hclients, fuel, e₁, hinit, fun g => ?_⟩
  rw [(hpolled fuel e₁ hinit).2 g, hclients]
  simp

end Runs

end Bircd

end Ircserv
