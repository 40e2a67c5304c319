import Ircserv.Lib.Since
import Ircserv.Proofs.Numerics

/-!
# The life of an invite

A client holds an invite to a channel exactly when an INVITE of it succeeded, and since then it
stayed connected, the channel stayed and it did not join (`run_invites`): what `Invites` begins,
each step that `KeepsInvite` keeps.
-/

open Std

namespace Ircserv

open CommandResult ReplyBuilder ServerState

/-- An INVITE of `p` to the channel `n` that succeeds: the sender is told so. -/
def Invites (p : Addr) (n : Str) (s : ServerState) : Action → Prop
  | .dispatch addr now fd msg healthMonitor => msg.command = lit "INVITE" ∧
      s.getClientByNick (msg.getSingleParam 0) = some p ∧
      caseFold (msg.getSingleParam 1) = caseFold n ∧
      ∃ m ∈ (CommandDispatcher.dispatchWith addr now fd msg s healthMonitor).1.replies,
        m.fd = fd ∧ numericOf m.message = some 341
  | _ => False

/-- A JOIN of `p` to the channel `n` that succeeds. -/
def Joins (p : Addr) (n : Str) (s : ServerState) : Action → Prop
  | .dispatch addr now fd msg healthMonitor => s.getClientByFd fd = some p ∧
      msg.command = lit "JOIN" ∧ caseFold (msg.getSingleParam 0) = caseFold n ∧
      (s.act (.dispatch addr now fd msg healthMonitor)).InRoom p n
  | _ => False

/-- The client and the channel live on, and the client does not join. -/
def KeepsInvite (p : Addr) (n : Str) (s : ServerState) (action : Action) : Prop :=
  (s.act action).OwnsClient p ∧ (s.act action).room n ≠ none ∧ ¬ Joins p n s action

variable {addr : Addr} {fd : Fd} {msg : Message} {s s' : ServerState} {p q : Addr} {n : Str}
  {r : CommandResult} {ch left : Channel}

theorem Channel.mem_invited_forget (h : ch.forget q = some left) :
    p ∈ left.invitedClients ↔ p ∈ ch.invitedClients ∧ p ≠ q := by
  unfold forget at h
  split_ifs at h
  · obtain ⟨-, rfl⟩ := leave_eq_some_iff.1 h
    rw [mem_invited_removeClientState, and_comm, ne_comm]
  · cases h
    rw [mem_invited_removeInvite, and_comm, ne_comm]

theorem Channel.mem_invited_founded (name : Str) (p q : Addr) :
    p ∉ (founded name q).invitedClients := by
  simp [founded, setOperator, addMember, removeInvite]

/-- An invite goes when its channel goes or when its holder becomes a member. -/
theorem RoomChange.invited_iff {name : Str} (hs : SoundRooms s) (hcmd : msg.command ≠ lit "INVITE")
    (hc : RoomChange msg s q name (some ch)) :
    p ∈ ch.invitedClients ↔ s.Invited p name ∧ p ∉ ch.members := by
  have hroom : ∀ {old}, s.room name = some old →
      (s.Invited p name ↔ p ∈ old.invitedClients) ∧ (p ∈ old.invitedClients → p ∉ old.members) := by
    intro old hold
    refine ⟨?_, fun hinv hm => (hs name old hold).uninvited p hm hinv⟩
    simp [Invited, hold]
  generalize hnew : some ch = new at hc
  cases hc with
  | join =>
    cases hnew
    rcases hold : s.room name with _ | old
    · simp [Channel.joined, Channel.mem_invited_founded, Invited, hold]
    · obtain ⟨hinv, hout⟩ := hroom hold
      rw [hinv]
      show p ∈ (old.addMember q).invitedClients ↔ _ ∧ p ∉ (old.addMember q).members
      rw [Channel.mem_invited_addMember, Channel.mem_addMember]
      tauto
  | @leave old r _ hold hr =>
    obtain ⟨-, rfl⟩ := Channel.leave_eq_some_iff.1 hnew.symm
    obtain ⟨hinv, hout⟩ := hroom hold
    rw [hinv, Channel.mem_invited_removeClientState, Channel.mem_removeClientState]
    have hne : p ∈ old.invitedClients → r ≠ p := by
      rintro hp rfl
      exact hout hp hr
    tauto
  | invite hinvite _ _ => exact absurd hinvite hcmd
  | topic hold | mode hold =>
    cases hnew
    obtain ⟨hinv, hout⟩ := hroom hold
    rw [hinv]
    exact ⟨fun hp => ⟨hp, hout hp⟩, And.left⟩
  | oper hold =>
    cases hnew
    obtain ⟨hinv, hout⟩ := hroom hold
    rw [hinv, Channel.mem_setOperator]
    exact ⟨fun hp => ⟨hp, hout hp⟩, And.left⟩

namespace Outcome

/-- An INVITE is refused, or it is told to the sender and the target is invited. -/
theorem invite_cases (ho : Outcome addr fd msg s p r s') (h : msg.command = lit "INVITE") :
    (s' = s ∧ ∀ m ∈ r.replies, numericOf m.message ≠ some 341) ∨
      ∃ a q, s.channels[msg.getSingleParam 1]? = some a ∧
        s.client.nicknameToClient[msg.getSingleParam 0]? = some q ∧
        s' = s.inviteClientToChannel q a ∧
        ∃ m ∈ r.replies, m.fd = fd ∧ numericOf m.message = some 341 := by
  cases ho with
  | silent => exact .inl ⟨rfl, by simp⟩
  | refused he =>
    refine .inl ⟨rfl, fun m hm hn => ?_⟩
    cases List.mem_singleton.1 hm
    obtain ⟨code, hcode, hrange⟩ := he.error.code
    rw [hcode] at hn
    cases hn
    omega
  | invite _ _ hq ha =>
    exact .inr ⟨_, _, ha, hq, rfl, _, List.mem_append_left _ List.mem_cons_self, rfl,
      numericOf_inviting _ _ _⟩
  | answered ha => cases ha <;> simp_all +decide
  | textChannel hcmd hor | textNick hcmd hor =>
    rcases hor with rfl | rfl <;> simp_all +decide
  | quit hcmd | pass hcmd | nick hcmd | user hcmd | join hcmd | part hcmd | kick hcmd | topic hcmd
  | mode hcmd | oper hcmd =>
    rw [h] at hcmd
    exact absurd hcmd (by decide)

end Outcome

namespace Outcome

/-- Who is in a channel after a command and was not before has joined it by the command. -/
theorem joined_of_inRoom (hw : WellFormed s) (ho : Outcome addr fd msg s q r s')
    (hout : ¬ s.InRoom p n) (hin : s'.InRoom p n) :
    p = q ∧ msg.command = lit "JOIN" ∧ caseFold (msg.getSingleParam 0) = caseFold n := by
  obtain ⟨ch, hch, hm⟩ := hin
  rcases ho.rooms hw with hsame | ⟨name, new, hc, hroom⟩
  · rw [hsame] at hch
    exact absurd ⟨ch, hch, hm⟩ hout
  · rw [hroom] at hch
    split_ifs at hch with hf
    · subst hch
      have hout' : ¬ s.InRoom p name := by rwa [InRoom, room_congr s hf]
      rcases hc.mem hm with hin | ⟨rfl, -⟩
      · exact absurd hin hout'
      refine ⟨rfl, ?_⟩
      generalize hnew : some ch = new at hc
      cases hc with
      | join h hname => exact ⟨h, hname ▸ hf⟩
      | leave _ hold =>
        obtain ⟨-, rfl⟩ := Channel.leave_eq_some_iff.1 hnew.symm
        exact absurd ⟨_, hold, ((Channel.mem_removeClientState _ _ _).1 hm).2⟩ hout'
      | invite _ hold | topic hold | mode hold =>
        cases hnew
        exact absurd ⟨_, hold, hm⟩ hout'
      | oper hold =>
        cases hnew
        exact absurd ⟨_, hold, (Channel.mem_setOperator _ _ _ _).1 hm⟩ hout'
    · exact absurd ⟨ch, hch, hm⟩ hout

/-- A command other than INVITE gives no invite, and takes one by its holder's joining or by the
channel's going. -/
theorem invited_iff (hw : WellFormed s) (hs : SoundRooms s) (ho : Outcome addr fd msg s q r s')
    (hcmd : msg.command ≠ lit "INVITE") :
    s'.Invited p n ↔ s.Invited p n ∧ s'.room n ≠ none ∧ ¬ s'.InRoom p n := by
  have hsound : ∀ {ch}, s.room n = some ch → p ∈ ch.invitedClients → p ∉ ch.members :=
    fun hch hinv hm => (hs n _ hch).uninvited p hm hinv
  rcases ho.rooms hw with hsame | ⟨name, new, hc, hroom⟩
  · rcases hch : s.room n with _ | ch
    · simp [Invited, hsame, hch]
    · simpa [Invited, InRoom, hsame, hch] using hsound hch
  · by_cases hf : caseFold name = caseFold n
    · have hnew : s'.room n = new := by rw [hroom, if_pos hf]
      cases new with
      | none => simp [Invited, hnew]
      | some ch =>
        have hold : s.Invited p n ↔ s.Invited p name := by rw [Invited, ← room_congr s hf, Invited]
        have hinv' : s'.Invited p n ↔ p ∈ ch.invitedClients := by simp [Invited, hnew]
        have hin' : s'.InRoom p n ↔ p ∈ ch.members := by simp [InRoom, hnew]
        rw [hinv', hin', hc.invited_iff hs hcmd, hold]
        simp [hnew]
    · have hsame : s'.room n = s.room n := by rw [hroom, if_neg hf]
      rcases hch : s.room n with _ | ch
      · simp [Invited, hsame, hch]
      · simpa [Invited, InRoom, hsame, hch] using hsound hch

end Outcome

theorem invited_inviteClientToChannel {a : Addr} {name : Str} (hw : WellFormed s)
    (ha : s.channels[name]? = some a) : (s.inviteClientToChannel q a).Invited p n ↔
      caseFold name = caseFold n ∧ q = p ∨ s.Invited p n := by
  have hroom := room_modifyChannel hw.links ha (·.addInvite q) n
  rw [Invited, inviteClientToChannel, hroom]
  by_cases hf : caseFold name = caseFold n
  · rw [if_pos hf, Invited, ← room_congr s hf, room_eq ha]
    simp [hf]
  · simp [hf, Invited]

section Invited

variable {action : Action}

theorem invited_live (hw : WellFormed s) (h : s.Invited p n) : p ∈ s.client.objects := by
  obtain ⟨ch, hch, hinv⟩ := h
  obtain ⟨a, -, rfl⟩ := room_eq_some_iff.1 hch
  exact hw.links.invitedLive a p hinv

theorem invited_room (h : s.Invited p n) : s.room n ≠ none := by
  obtain ⟨ch, hch, -⟩ := h
  simp [hch]

/-- A client is never both a member and invited. -/
theorem SoundRooms.not_inRoom (hs : SoundRooms s) (h : s.Invited p n) : ¬ s.InRoom p n := by
  obtain ⟨ch, hch, hinv⟩ := h
  rintro ⟨ch', hch', hm⟩
  cases hch.symm.trans hch'
  exact (hs n ch hch).uninvited p hm hinv

theorem invited_ownsClient (hw : WellFormed s) (h : s.Invited p n) :
    (s.act action).OwnsClient p ↔ action ≠ .removeClient (s.clientAt p).fd := by
  rw [(hw.act action).ownsClient_iff]
  exact hw.act_live action (invited_live hw h)

/-- An action that does nothing keeps the invites. -/
theorem invited_of_act_eq (hw : WellFormed s) (hs : SoundRooms s) (ha : s.act action = s)
    (hinvites : ¬ Invites p n s action) :
    (s.act action).Invited p n ↔ Invites p n s action ∨ s.Invited p n ∧ KeepsInvite p n s action := by
  rw [KeepsInvite, ha]
  simp only [hinvites, false_or]
  refine ⟨fun h => ⟨h, hw.ownsClient_iff.2 (invited_live hw h), invited_room h, fun hj => ?_⟩,
    And.left⟩
  cases action with
  | addClient | removeClient => exact hj
  | dispatch => exact hs.not_inRoom h (ha ▸ hj.2.2.2)

theorem invited_removeClient (hw : WellFormed s) (hq : s.client.fdToClient[fd]? = some q) :
    (s.act (.removeClient fd)).Invited p n ↔
      s.Invited p n ∧ KeepsInvite p n s (.removeClient fd) := by
  have hroom : (s.act (.removeClient fd)).room n = (s.room n).bind (·.forget q) :=
    room_removeClient hw hq n
  constructor
  · rintro ⟨left, hleft, hinv⟩
    have hleft' := hleft
    rw [hroom] at hleft
    obtain ⟨ch, hch, hforget⟩ := Option.bind_eq_some_iff.1 hleft
    obtain ⟨hinv', hpq⟩ := (Channel.mem_invited_forget hforget).1 hinv
    have hold : s.Invited p n := ⟨ch, hch, hinv'⟩
    refine ⟨hold, (invited_ownsClient hw hold).2 ?_, by simp [hleft'], id⟩
    rintro he
    cases he
    rw [hw.links.clientOwned p (invited_live hw hold)] at hq
    exact hpq (Option.some.inj hq)
  · rintro ⟨h, hlives, hroom₁, -⟩
    rcases hleft : (s.act (.removeClient fd)).room n with _ | left
    · exact absurd hleft hroom₁
    refine ⟨left, hleft, ?_⟩
    rw [hroom] at hleft
    obtain ⟨ch, hch, hforget⟩ := Option.bind_eq_some_iff.1 hleft
    have hh := h
    obtain ⟨ch', hch', hinv⟩ := h
    cases hch.symm.trans hch'
    refine (Channel.mem_invited_forget hforget).2 ⟨hinv, ?_⟩
    rintro rfl
    refine (invited_ownsClient hw hh).1 hlives ?_
    rw [(hw.links.fdOwner fd p hq).2]

theorem invited_invite (hw : WellFormed s) {addr : Addr} {now : Time} {a : Addr}
    {monitor : Option ConnectionHealthMonitor} (hcmd : msg.command = lit "INVITE")
    (ha : s.channels[msg.getSingleParam 1]? = some a)
    (hq : s.client.nicknameToClient[msg.getSingleParam 0]? = some q)
    (hs' : s.act (.dispatch addr now fd msg monitor) = s.inviteClientToChannel q a)
    (hyes : ∃ m ∈ (CommandDispatcher.dispatchWith addr now fd msg s monitor).1.replies,
      m.fd = fd ∧ numericOf m.message = some 341) :
    (s.act (.dispatch addr now fd msg monitor)).Invited p n ↔
      Invites p n s (.dispatch addr now fd msg monitor) ∨
        s.Invited p n ∧ KeepsInvite p n s (.dispatch addr now fd msg monitor) := by
  have hinvites : Invites p n s (.dispatch addr now fd msg monitor) ↔
      caseFold (msg.getSingleParam 1) = caseFold n ∧ q = p := by
    constructor
    · rintro ⟨-, hq', hname, -⟩
      exact ⟨hname, Option.some.inj (hq.symm.trans hq')⟩
    · rintro ⟨hname, rfl⟩
      exact ⟨hcmd, hq, hname, hyes⟩
  have hkeeps : s.Invited p n → KeepsInvite p n s (.dispatch addr now fd msg monitor) := by
    intro h
    refine ⟨(invited_ownsClient hw h).2 (by simp), ?_, ?_⟩
    · rw [hs']
      exact invited_room ((invited_inviteClientToChannel hw ha).2 (.inr h))
    · rintro ⟨-, hjoin, -⟩
      rw [hcmd] at hjoin
      exact absurd hjoin (by decide)
  rw [hs', invited_inviteClientToChannel hw ha, hinvites]
  exact or_congr_right ⟨fun h => ⟨h, hkeeps h⟩, And.left⟩

/-- What an action does to an invite. -/
theorem invited_act (hw : WellFormed s) (hs : SoundRooms s) (action : Action) :
    (s.act action).Invited p n ↔ Invites p n s action ∨ s.Invited p n ∧ KeepsInvite p n s action := by
  rcases s.act_cases action with ⟨ha, hunknown⟩ | ⟨addr, fd, host, rfl, -⟩ | ⟨fd, q, rfl, hq⟩ |
    ⟨addr, now, fd, msg, monitor, q, rfl, hq, ho⟩
  · refine invited_of_act_eq hw hs ha fun h => ?_
    cases action with
    | addClient | removeClient => exact h
    | dispatch addr now fd msg monitor =>
      obtain ⟨-, -, -, m, hm, -⟩ := h
      rw [CommandDispatcher.dispatchWith_unknown addr now msg monitor
        (hunknown _ _ _ _ _ rfl)] at hm
      cases hm
  · refine ⟨fun h => .inr ⟨h, ?_, invited_room h, id⟩, fun h => h.elim False.elim And.left⟩
    exact (invited_ownsClient hw h).2 (by simp)
  · rw [invited_removeClient hw hq]
    exact ⟨.inr, fun h => h.elim False.elim id⟩
  · by_cases hcmd : msg.command = lit "INVITE"
    · rcases ho.invite_cases hcmd with ⟨hs', hnone⟩ | ⟨a, t, ha, ht, hs', hyes⟩
      · refine invited_of_act_eq hw hs hs' ?_
        rintro ⟨-, -, -, m, hm, -, hcode⟩
        exact hnone m hm hcode
      · exact invited_invite hw hcmd ha ht hs' hyes
    · have hjoins : s.Invited p n → (Joins p n s (.dispatch addr now fd msg monitor) ↔
          (s.act (.dispatch addr now fd msg monitor)).InRoom p n) := by
        refine fun h => ⟨fun hj => hj.2.2.2, fun hin => ?_⟩
        obtain ⟨rfl, hjoin, hname⟩ := ho.joined_of_inRoom hw (hs.not_inRoom h) hin
        exact ⟨hq, hjoin, hname, hin⟩
      rw [ho.invited_iff hw hs hcmd]
      simp only [show ¬ Invites p n s (.dispatch addr now fd msg monitor) from fun h => hcmd h.1,
        false_or]
      refine and_congr_right fun h => ?_
      rw [KeepsInvite, hjoins h, invited_ownsClient hw h]
      simp

end Invited

/-- A command that does not take members out of channels lets every channel be. -/
theorem Outcome.room_ne_none (hw : WellFormed s) (ho : Outcome addr fd msg s q r s')
    (hcmd : msg.command ∉ [lit "PART", lit "KICK"]) (hn : s.room n ≠ none) : s'.room n ≠ none := by
  rcases ho.rooms hw with hsame | ⟨name, new, hc, hroom⟩
  · rwa [hsame]
  · rw [hroom]
    split_ifs
    · cases hc with
      | leave h => simp_all
      | join | invite | topic | mode | oper => simp
    · exact hn

/-- The life of an invite: in every state of a run, a client holds an invite to a channel if and
only if an INVITE of it succeeded, and since then both were there all the time and the client did
not join. An action that is none of the ends of an invite leaves it as it is, commands other than
INVITE, JOIN, PART and KICK are among these, and no client is both a member and invited. -/
theorem run_invites (password : Str) (actions : List Action) :
    let s := ServerState.run password actions
    (∀ p n, s.Invited p n ↔ Runs.Since ServerState.act (Invites p n) (KeepsInvite p n)
        { password := password } actions) ∧
      (∀ action p n, ¬ Invites p n s action → KeepsInvite p n s action →
        ((s.act action).Invited p n ↔ s.Invited p n)) ∧
      (∀ addr now fd msg healthMonitor p n,
        msg.command ∉ [lit "INVITE", lit "JOIN", lit "PART", lit "KICK"] →
        ((s.act (.dispatch addr now fd msg healthMonitor)).Invited p n ↔ s.Invited p n)) ∧
      ∀ n ch, s.room n = some ch → ∀ p ∈ ch.members, p ∉ ch.invitedClients := by
  intro s
  have hw : WellFormed s := .run password actions
  have hs : SoundRooms s := .run password actions
  refine ⟨fun p n => ?_, fun action p n hno hkeep => ?_, fun addr now fd msg monitor p n hcmd => ?_,
    fun n ch hch => (hs n ch hch).uninvited⟩
  · refine Runs.iff_since (fun s : ServerState => s.Invited p n) ?_ actions fun before b _ _ => ?_
    · rintro ⟨ch, hch, -⟩
      simp [room] at hch
    · exact invited_act (.run password before) (.run password before) b
  · rw [invited_act hw hs]
    exact ⟨fun h => h.elim (absurd · hno) And.left, fun h => .inr ⟨h, hkeep⟩⟩
  · simp only [List.mem_cons, List.not_mem_nil, or_false, not_or] at hcmd
    obtain ⟨hinvite, hjoin, hpart, hkick⟩ := hcmd
    have hno : ¬ Invites p n s (.dispatch addr now fd msg monitor) := fun h => hinvite h.1
    rw [invited_act hw hs, or_iff_right hno]
    refine ⟨And.left, fun h => ⟨h, (invited_ownsClient hw h).2 (by simp), ?_, fun hj => hjoin hj.2.1⟩⟩
    rcases hq : s.client.fdToClient[fd]? with _ | q
    · rw [act, CommandDispatcher.dispatchWith_unknown addr now msg monitor hq]
      exact invited_room h
    · exact (CommandDispatcher.dispatchWith_outcome addr now msg monitor hq).room_ne_none hw
        (by simp [hpart, hkick]) (invited_room h)

end Ircserv
