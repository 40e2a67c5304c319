import Ircserv.Proofs.Lines
import Ircserv.Proofs.Runs

/-!
# The registration of a client

`OwnChange` lists what a command does to the record of its sender. A client is registered as soon
as it can be (`Enrolled`), and the command that registers it is the one whose reply is the welcome
(`Outcome.numericOf_reply`).
-/

open Std

namespace Ircserv

open CommandResult ReplyBuilder ServerState

/-- A client as `maybeRegister` leaves it. -/
def Client.enroll (c : Client) : Client :=
  if !c.registered && c.canRegister then c.markRegistered else c

/-- What a command of the client can do to its record, the channels apart. -/
inductive OwnChange (msg : Message) (password : Str) (c : Client) : Client → Prop
  | kept : OwnChange msg password c c
  | pass (h : msg.command = lit "PASS") (hparam : msg.hasParam 0 = true)
      (hreg : c.registered = false) (hpw : msg.getSingleParam 0 = password) :
      OwnChange msg password c (c.setPassOk true)
  | nick (h : msg.command = lit "NICK") (hpass : c.passOk = true)
      (hvalid : isValidNickname (msg.getSingleParam 0) = true) :
      OwnChange msg password c (c.setNick (msg.getSingleParam 0)).enroll
  | user (h : msg.command = lit "USER") (hpass : c.passOk = true) (hreg : c.registered = false)
      (hn : 4 ≤ msg.getParamCount) : OwnChange msg password c
        ((c.setUsername (msg.getSingleParam 0)).setRealname (msg.getSingleParam 3)).enroll

/-- What the registration data of a client say about each other. -/
structure Client.Enrolled (c : Client) : Prop where
  registered : c.registered = c.canRegister
  passed : c.nickname ≠ [] ∨ c.username ≠ [] ∨ c.realname ≠ [] → c.passOk = true
  nick : c.nickname ≠ [] → isValidNickname c.nickname = true

namespace Client

variable {c : Client} {channels : ExtTreeSet Addr}

theorem canRegister_iff : c.canRegister = true ↔
    c.passOk = true ∧ c.nickname ≠ [] ∧ c.username ≠ [] ∧ c.realname ≠ [] := by
  simp [canRegister, and_assoc]

theorem enroll_data (c : Client) : c.enroll = { c with registered := c.enroll.registered } := by
  unfold enroll
  split_ifs <;> rfl

theorem registered_enroll (h : c.registered = true → c.canRegister = true) :
    c.enroll.registered = c.canRegister := by
  unfold enroll
  rcases hr : c.registered <;> rcases hc : c.canRegister <;> simp_all [markRegistered]

theorem registered_enroll_of (h : c.registered = true) : c.enroll.registered = true := by
  unfold enroll
  split_ifs
  · rfl
  · exact h

theorem Enrolled.valid (h : c.Enrolled) (hreg : c.registered = true) :
    isValidNickname c.nickname = true := by
  rw [h.registered, canRegister_iff] at hreg
  exact h.nick hreg.2.1

theorem Enrolled.default : (default : Client).Enrolled where
  registered := rfl
  passed := by rintro (h | h | h) <;> exact absurd rfl h
  nick h := absurd rfl h

theorem Enrolled.new (host : Str) (fd : Fd) : Enrolled { host := host, fd := fd } where
  registered := rfl
  passed := by rintro (h | h | h) <;> exact absurd rfl h
  nick h := absurd rfl h

/-- A client that can register does. -/
theorem Enrolled.enroll (h : c.registered = true → c.canRegister = true)
    (hpassed : c.nickname ≠ [] ∨ c.username ≠ [] ∨ c.realname ≠ [] → c.passOk = true)
    (hnick : c.nickname ≠ [] → isValidNickname c.nickname = true) : c.enroll.Enrolled := by
  have hreg := registered_enroll h
  rw [enroll_data]
  exact ⟨hreg, hpassed, hnick⟩

theorem Enrolled.of_eq (h : c.Enrolled) : Enrolled { c with channels := channels } :=
  ⟨h.registered, h.passed, h.nick⟩

/-- A command of the client keeps its registration in order. -/
theorem Enrolled.ownChange {msg : Message} {password : Str} {c' : Client} (h : c.Enrolled)
    (hc : OwnChange msg password c c') : c'.Enrolled := by
  cases hc with
  | kept => exact h
  | pass _ _ hreg =>
    refine ⟨?_, fun _ => rfl, h.nick⟩
    have hcan := h.registered
    rw [hreg] at hcan
    show c.registered = (c.setPassOk true).canRegister
    rw [hreg, eq_comm, ← Bool.not_eq_true, canRegister_iff]
    rintro ⟨-, hne⟩
    -- a client that has given its names has given the password before
    have hcan' := canRegister_iff.2 ⟨h.passed (.inl hne.1), hne⟩
    rw [← hcan] at hcan'
    cases hcan'
  | nick _ hpass hvalid =>
    refine .enroll (fun hreg => ?_) (fun _ => hpass) fun _ => hvalid
    have hreg' : c.registered = true := hreg
    rw [h.registered, canRegister_iff] at hreg'
    exact canRegister_iff.2 ⟨hpass, isValidNickname_ne_nil hvalid, hreg'.2.2⟩
  | user _ hpass hreg =>
    refine .enroll (fun hreg' => ?_) (fun _ => hpass) h.nick
    have hreg'' : c.registered = true := hreg'
    rw [hreg] at hreg''
    cases hreg''

end Client

/-- A client stays registered. -/
theorem OwnChange.registered {msg : Message} {password : Str} {c c' : Client}
    (hc : OwnChange msg password c c') (h : c.registered = true) : c'.registered = true := by
  cases hc with
  | kept | pass => exact h
  | nick | user => exact Client.registered_enroll_of h

/-- Every client is registered if and only if it can be, and only registered clients are in
channels. -/
structure Registration (s : ServerState) : Prop where
  clients : ∀ p, (s.clientAt p).Enrolled
  members : ∀ p n, s.InRoom p n → (s.clientAt p).registered = true

variable {addr : Addr} {fd : Fd} {msg : Message} {s s' : ServerState} {p q : Addr}
  {r : CommandResult}

theorem clientAt_maybeRegister (hp : p ∈ s.client.objects) (r : CommandResult) :
    (CommandDispatcher.maybeRegister p r s).2.clientAt p = (s.clientAt p).enroll := by
  unfold CommandDispatcher.maybeRegister Client.enroll
  dsimp only
  split_ifs
  · simp [hp]
  · rfl

theorem clientAt_updateNick (hp : p ∈ s.client.objects) {n : Str} {s₁ : ServerState}
    (hs : s.updateNick p n = (true, s₁)) :
    p ∈ s₁.client.objects ∧ s₁.clientAt p = (s.clientAt p).setNick n := by
  rcases s.updateNick_cases p n with ⟨hn, hs'⟩ | ⟨q, -, -, hs'⟩ | ⟨-, -, hs'⟩
  all_goals
    rw [hs'] at hs
    cases hs
  · exact ⟨hp, by rw [← hn]; rfl⟩
  · exact ⟨by simpa using hp, by simp [hp]⟩

namespace Outcome

/-- What a command does to the record of its sender. -/
theorem own (hp : p ∈ s.client.objects) (ho : Outcome addr fd msg s p r s') :
    ∃ c channels, OwnChange msg s.password (s.clientAt p) c ∧
      s'.clientAt p = { c with channels := channels } := by
  have same : SameClients s s' → ∃ c channels, OwnChange msg s.password (s.clientAt p) c ∧
      s'.clientAt p = { c with channels := channels } := by
    intro h
    obtain ⟨channels, hch⟩ := h.data p
    exact ⟨_, channels, .kept, hch⟩
  cases ho with
  | silent | refused | answered | quit | textChannel | textNick => exact same (.refl s)
  | pass h hparam hreg hpw =>
    exact ⟨_, (s.clientAt p).channels, .pass h hparam hreg hpw, by simp [hp, Client.setPassOk]⟩
  | nick h hpass hvalid hs' =>
    obtain ⟨hp₁, hat⟩ := clientAt_updateNick hp hs'
    refine ⟨_, (s.clientAt p).channels, .nick h hpass hvalid, ?_⟩
    rw [clientAt_maybeRegister hp₁, hat, Client.enroll_data]
    rfl
  | user h hpass hreg hn hs' =>
    subst hs'
    have hat : ((s.modifyClient p (·.setUsername (msg.getSingleParam 0))).modifyClient p
        (·.setRealname (msg.getSingleParam 3))).clientAt p =
        ((s.clientAt p).setUsername (msg.getSingleParam 0)).setRealname (msg.getSingleParam 3) := by
      simp [hp]
    refine ⟨_, (s.clientAt p).channels, .user h hpass hreg hn, ?_⟩
    rw [clientAt_maybeRegister (by simpa using hp), hat, Client.enroll_data]
    rfl
  | join _ _ _ _ hs' =>
    have h := SameClients.addClientToChannel s addr p (msg.getSingleParam 0)
    rw [hs'] at h
    exact same h
  | part | kick => exact same (.removeClientFromChannel s _ _)
  | invite => exact same (.modifyChannel s _ _)
  | topic _ _ _ _ _ _ hs' | mode _ _ _ _ _ _ _ hs' | oper _ _ _ _ _ _ _ _ hs' =>
    subst hs'
    exact same (.modifyChannel s _ _)

/-- A command adds nobody to a channel but its sender, which is registered then. -/
theorem inRoom (h : WellFormed s) (ho : Outcome addr fd msg s p r s') {n : Str}
    (hq : s'.InRoom q n) : s.InRoom q n ∨ q = p ∧ (s.clientAt p).registered = true := by
  obtain ⟨ch, hch, hq⟩ := hq
  rcases ho.rooms h with hsame | ⟨name, new, hc, hroom⟩
  · rw [hsame] at hch
    exact .inl ⟨ch, hch, hq⟩
  · rw [hroom] at hch
    split_ifs at hch with hf
    · subst hch
      rw [InRoom, ← room_congr s hf]
      exact hc.mem hq
    · exact .inl ⟨ch, hch, hq⟩

end Outcome

namespace Registration

theorem start (password : Str) : Registration { password := password } where
  clients p := by
    rw [clientAt_of_not_mem (by simp)]
    exact .default
  members p n := by
    rintro ⟨ch, hch, -⟩
    simp [room] at hch

theorem outcome (h : Registration s) (hw : WellFormed s) (hp : p ∈ s.client.objects)
    (ho : Outcome addr fd msg s p r s') : Registration s' := by
  have hown := ho.own hp
  have hmono : ∀ q, (s.clientAt q).registered = true → (s'.clientAt q).registered = true := by
    intro q hq
    by_cases hqp : q = p
    · subst hqp
      obtain ⟨c, cs, hc, hs'⟩ := hown
      rw [hs']
      exact hc.registered hq
    · obtain ⟨cs, hcs⟩ := ho.ownData.others q hqp
      rw [hcs]
      exact hq
  refine ⟨fun q => ?_, fun q n hq => ?_⟩
  · by_cases hqp : q = p
    · subst hqp
      obtain ⟨c, cs, hc, hs'⟩ := hown
      rw [hs']
      exact ((h.clients q).ownChange hc).of_eq
    · obtain ⟨cs, hcs⟩ := ho.ownData.others q hqp
      rw [hcs]
      exact (h.clients q).of_eq
  · rcases ho.inRoom hw hq with hold | ⟨rfl, hreg⟩
    · exact hmono q (h.members q n hold)
    · exact hmono q hreg

theorem addClient (h : Registration s) (hw : WellFormed s) (addr : Addr) {fd : Fd} (host : Str)
    (hp : s.client.fdToClient[fd]? = none) : Registration (s.addClient addr fd host) := by
  refine ⟨fun q => ?_, fun q n hq => ?_⟩
  · rw [clientAt_addClient addr host hp]
    split_ifs
    · exact .new host fd
    · exact h.clients q
  · have hq' : s.InRoom q n := hq
    rw [clientAt_addClient addr host hp, if_neg]
    · exact h.members q n hq'
    · rintro rfl
      obtain ⟨ch, hch, hm⟩ := hq'
      obtain ⟨a, -, rfl⟩ := room_eq_some_iff.1 hch
      exact Heap.fresh_not_mem _ _ (hw.links.memberLive hm)

theorem removeClient (h : Registration s) (hw : WellFormed s)
    (hp : s.client.fdToClient[fd]? = some p) : Registration (s.removeClient fd) := by
  obtain ⟨-, hself, hdata, -⟩ := hw.removeClient_client hp
  refine ⟨fun q => ?_, fun q n hq => ?_⟩
  · by_cases hqp : q = p
    · rw [hqp, hself]
      exact .default
    · obtain ⟨cs, hcs⟩ := hdata q hqp
      rw [hcs]
      exact (h.clients q).of_eq
  · obtain ⟨ch, hch, hm⟩ := hq
    rw [room_removeClient hw hp] at hch
    obtain ⟨old, hold, hforget⟩ := Option.bind_eq_some_iff.1 hch
    obtain ⟨hm', hqp⟩ := (Channel.mem_forget_iff hforget).1 hm
    obtain ⟨cs, hcs⟩ := hdata q hqp
    rw [hcs]
    exact h.members q n ⟨old, hold, hm'⟩

theorem act (h : Registration s) (hw : WellFormed s) (action : Action) :
    Registration (s.act action) := by
  rcases s.act_cases action with ⟨hs, -⟩ | ⟨addr, fd, host, rfl, hp⟩ | ⟨fd, p, rfl, hp⟩ |
    ⟨addr, now, fd, msg, monitor, p, rfl, hp, ho⟩
  · rwa [hs]
  · exact h.addClient hw addr host hp
  · exact h.removeClient hw hp
  · exact h.outcome hw (hw.links.fdOwner fd p hp).1 ho

end Registration

theorem Registration.run (password : Str) (actions : List Action) :
    Registration (ServerState.run password actions) :=
  WellFormed.run_induction password actions (.start password) fun _ hw h action => h.act hw action

end Ircserv
