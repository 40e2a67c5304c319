import Ircserv.Proofs.Broadcasts
import Ircserv.Proofs.Invites
import Ircserv.Proofs.Told

/-!
# The life of an operator

A client is an operator of a channel exactly when it founded the channel or an operator marked it,
and since then it stayed there and nobody unmarked it (`run_operators`): what `MakesOperator`
begins, each step that `KeepsOperator` keeps. So a channel that has lost its operators gets none
while it lasts.
-/

open Std

namespace Ircserv

open CommandResult ReplyBuilder ServerState ChannelCommandHandler

/-- The mode token that marks an operator, or takes the mark. -/
def operatorToken (isOperator : Bool) : Str := if isOperator then lit "+o" else lit "-o"

/-- A MODE by an operator of the channel that marks the member `p`, or unmarks it. -/
def Marks (isOperator : Bool) (p : Addr) (n : Str) (s : ServerState) : Action → Prop
  | .dispatch _ _ fd msg _ =>
    msg.command = lit "MODE" ∧ caseFold (msg.getSingleParam 0) = caseFold n ∧
      msg.getSingleParam 1 = operatorToken isOperator ∧
      isValidNickname (msg.getSingleParam 2) = true ∧
      s.getClientByNick (msg.getSingleParam 2) = some p ∧ s.InRoom p n ∧
      ∃ q, s.getClientByFd fd = some q ∧ s.Ranks q n true
  | _ => False

/-- A JOIN of `p` that founds the channel, or a MODE that marks it. -/
def MakesOperator (p : Addr) (n : Str) (s : ServerState) (action : Action) : Prop :=
  Joins p n s action ∧ s.room n = none ∨ Marks true p n s action

/-- The client stays in the channel, and is not unmarked. -/
def KeepsOperator (p : Addr) (n : Str) (s : ServerState) (action : Action) : Prop :=
  (s.act action).InRoom p n ∧ ¬ Marks false p n s action

variable {addr : Addr} {fd : Fd} {msg : Message} {s s' : ServerState} {p q t a : Addr} {n m : Str}
  {r : CommandResult} {ch : Channel} {isOperator : Bool}

/-- The MODE of the client at `q` marks the member `t` of the channel at `a`, or unmarks it. -/
structure MarksAt (msg : Message) (s : ServerState) (q a t : Addr) (isOperator : Bool) : Prop where
  token : msg.getSingleParam 1 = operatorToken isOperator
  found : s.channels[msg.getSingleParam 0]? = some a
  member : q ∈ (s.channelAt a).members
  operator : (s.channelAt a).isOperator q = true
  valid : isValidNickname (msg.getSingleParam 2) = true
  target : s.client.nicknameToClient[msg.getSingleParam 2]? = some t
  targetMember : t ∈ (s.channelAt a).members

theorem operatorToken_flag (isOperator : Bool) :
    isSupportedSingleModeToken (operatorToken isOperator) = true ∧
      (operatorToken isOperator).getD 1 0 = chr 'o' ∧
      ((operatorToken isOperator).head? == some (chr '+')) = isOperator := by
  cases isOperator <;> decide

theorem eq_operatorToken {token : Str} (htoken : isSupportedSingleModeToken token = true)
    (hflag : token.getD 1 0 = chr 'o') : token = operatorToken (token.head? == some (chr '+')) := by
  unfold isSupportedSingleModeToken at htoken
  split at htoken
  · rename_i sign mode
    have hmode : mode = chr 'o' := hflag
    subst hmode
    split_ifs at htoken with hsign
    by_cases hplus : sign = chr '+'
    · subst hplus
      decide
    · have hminus : sign = chr '-' := by simpa [hplus] using hsign
      subst hminus
      decide
  · cases htoken

/-- A MODE that marks a member does so. -/
theorem handleMode_marks (hr : Registration s) (hs : SoundRooms s) (hw : WellFormed s) (fd : Fd)
    (h : MarksAt msg s q a t isOperator) :
    (handleMode fd msg s q).2 = s.modifyChannel a (·.setOperator t isOperator) := by
  have hreg : (s.clientAt q).registered = true := hr.members q _ ((inRoom_iff h.found).2 h.member)
  have hcount : 3 ≤ msg.getParamCount := by
    by_contra hshort
    have hnone : msg.getSingleParam 2 = [] := by
      rw [Message.getParamCount] at hshort
      rw [Message.getSingleParam, List.getD_eq_getElem?_getD, List.getElem?_eq_none (by omega)]
      rfl
    have hvalid := h.valid
    rw [hnone] at hvalid
    cases hvalid
  have hparam : msg.hasParam 2 = true := by
    rw [Message.hasParam, decide_eq_true_eq]
    exact hcount
  have hvalid : isValidChannelName (msg.getSingleParam 0) = true := hs.valid hw h.found
  have hchannel : s.getChannel (msg.getSingleParam 0) = some a := h.found
  have hnick : s.getClientByNick (msg.getSingleParam 2) = some t := h.target
  obtain ⟨hsupported, hflag, hsign⟩ := operatorToken_flag isOperator
  unfold handleMode applyOperatorMode
  dsimp only
  rw [h.token]
  simp only [hreg, hvalid, hchannel, hnick, hparam, h.valid, h.operator, hsupported, hflag, hsign,
    (Channel.hasMember_iff _ _).2 h.member, (Channel.hasMember_iff _ _).2 h.targetMember]
  simp [show ¬ msg.getParamCount < 1 by omega, show msg.getParamCount ≠ 1 by omega]

/-- A MODE about an operator that names nobody does nothing. -/
theorem handleMode_invalid (fd : Fd) (htoken : msg.getSingleParam 1 = operatorToken isOperator)
    (hvalid : isValidNickname (msg.getSingleParam 2) = false) : (handleMode fd msg s q).2 = s := by
  obtain ⟨-, hflag, -⟩ := operatorToken_flag isOperator
  unfold handleMode applyOperatorMode
  dsimp only
  rw [htoken]
  simp only [hflag, if_true, hvalid, Bool.not_false]
  rcases s.getChannel (msg.getSingleParam 0) with _ | a
  · split_ifs <;> rfl
  · dsimp only
    split_ifs <;> rfl

/-- When the ranks change for everybody alike, an operator that stays is one. -/
theorem operator_of_ranks {C : Prop} (h : ∀ b, s'.Ranks p n b ↔ s.Ranks p n b ∧ C) :
    s'.Ranks p n true ↔ s.Ranks p n true ∧ s'.InRoom p n := by
  rw [h true, inRoom_iff_ranks]
  constructor
  · rintro ⟨hold, hc⟩
    exact ⟨hold, true, (h true).2 ⟨hold, hc⟩⟩
  · rintro ⟨hold, b, hb⟩
    exact ⟨hold, ((h b).1 hb).2⟩

theorem ranks_founded (hroom : s.room n = some (Channel.founded m q)) (r : Addr) (b : Bool) :
    s.Ranks r n b ↔ r = q ∧ b = true := by
  constructor
  · rintro ⟨ch, hch, hm, hop⟩
    cases hroom.symm.trans hch
    cases RoomChange.mem_founded.1 hm
    exact ⟨rfl, hop.symm.trans (isOperator_founded m _)⟩
  · rintro ⟨rfl, rfl⟩
    exact ⟨_, hroom, RoomChange.mem_founded.2 rfl, isOperator_founded m r⟩

/-- A JOIN makes an operator of who founds the channel. -/
theorem operator_join {addr : Addr} (hw : WellFormed s)
    (hs' : s.addClientToChannel addr q m = (some a, s')) :
    s'.Ranks p n true ↔ p = q ∧ caseFold m = caseFold n ∧ s.room n = none ∧ s'.InRoom p n ∨
      s.Ranks p n true ∧ s'.InRoom p n := by
  have hkept : (∀ b, s'.Ranks p n b ↔ s.Ranks p n b) → (caseFold m = caseFold n → s.room n ≠ none) →
      (s'.Ranks p n true ↔ p = q ∧ caseFold m = caseFold n ∧ s.room n = none ∧ s'.InRoom p n ∨
        s.Ranks p n true ∧ s'.InRoom p n) := by
    intro hranks hroom
    have hold : s'.Ranks p n true ↔ s.Ranks p n true ∧ s'.InRoom p n :=
      operator_of_ranks (C := True) fun b => by rw [hranks b, and_true]
    rw [hold, or_iff_right]
    rintro ⟨-, hfold, hnone, -⟩
    exact hroom hfold hnone
  by_cases hqin : s.InRoom q m
  · obtain ⟨-, rfl⟩ := addClientToChannel_of_inRoom hw hqin hs'
    refine hkept (fun _ => Iff.rfl) fun hfold hnone => ?_
    obtain ⟨ch, hch, -⟩ := hqin
    rw [room_congr _ hfold, hnone] at hch
    cases hch
  have hnew := room_addClientToChannel hw hs' hqin n
  split_ifs at hnew with hfold
  · rw [room_congr s hfold] at hnew
    rw [InRoom, room_congr s hfold] at hqin
    rcases hroom : s.room n with _ | ch
    · rw [hroom] at hnew
      have hranks := ranks_founded hnew p
      have hnobody : ∀ b, ¬ s.Ranks p n b := by
        rintro b ⟨ch, hch, -⟩
        rw [hroom] at hch
        cases hch
      rw [hranks true]
      constructor
      · rintro ⟨rfl, -⟩
        exact .inl ⟨rfl, hfold, rfl, ((hranks true).2 ⟨rfl, rfl⟩).inRoom⟩
      · rintro (⟨rfl, -⟩ | ⟨hold, -⟩)
        · exact ⟨rfl, rfl⟩
        · exact absurd hold (hnobody true)
    · rw [hroom] at hnew
      have hranks := ranks_addMember hroom hnew hqin p true
      rw [hranks]
      constructor
      · rintro (hold | ⟨-, hmember, -⟩)
        · exact .inr ⟨hold, (hranks.2 (.inl hold)).inRoom⟩
        · cases hmember
      · rintro (⟨-, -, hnone, -⟩ | ⟨hold, -⟩)
        · cases hnone
        · exact .inl hold
  · exact hkept (ranks_of_room hnew p) fun h => absurd h hfold

/-- A MODE about an operator does what it says, or nothing. -/
theorem handleMode_operator (hr : Registration s) (hs : SoundRooms s) (hw : WellFormed s) (fd : Fd)
    (htoken : msg.getSingleParam 1 = operatorToken isOperator) :
    (∃ a t, MarksAt msg s q a t isOperator ∧
      (handleMode fd msg s q).2 = s.modifyChannel a (·.setOperator t isOperator)) ∨
    (∀ a t, ¬ MarksAt msg s q a t isOperator) ∧ (handleMode fd msg s q).2 = s := by
  by_cases hmarks : ∃ a t, MarksAt msg s q a t isOperator
  · obtain ⟨a, t, h⟩ := hmarks
    exact .inl ⟨a, t, h, handleMode_marks hr hs hw fd h⟩
  have hnone : ∀ a t, ¬ MarksAt msg s q a t isOperator := fun a t h => hmarks ⟨a, t, h⟩
  refine .inr ⟨hnone, ?_⟩
  cases hvalid : isValidNickname (msg.getSingleParam 2) with
  | false => exact handleMode_invalid fd htoken hvalid
  | true =>
    rcases hx : handleMode fd msg s q with ⟨r, s'⟩
    cases hx ▸ handleMode_cases fd msg s q with
    | refused h =>
      obtain ⟨m, -, heq⟩ := h
      exact congrArg Prod.snd heq
    | query => rfl
    | change _ _ _ _ _ _ hflag =>
      rw [htoken] at hflag
      exact absurd (operatorToken_flag isOperator).2.1 hflag
    | oper _ _ ha hm hop _ _ _ ht htm =>
      exact absurd ⟨htoken, ha, hm, hop, hvalid, ht, htm⟩ (hnone _ _)

namespace Outcome

/-- A command that marks nobody in the channel makes an operator of who founds it, and leaves the
operators that stay. -/
theorem operator_iff (hw : WellFormed s) (ho : Outcome addr fd msg s q r s')
    (hno : msg.command = lit "MODE" → caseFold (msg.getSingleParam 0) = caseFold n →
      ∀ isOperator, msg.getSingleParam 1 ≠ operatorToken isOperator) :
    s'.Ranks p n true ↔
      (p = q ∧ msg.command = lit "JOIN" ∧ caseFold (msg.getSingleParam 0) = caseFold n ∧
      s.room n = none ∧ s'.InRoom p n) ∨ s.Ranks p n true ∧ s'.InRoom p n := by
  set founds : Prop := p = q ∧ msg.command = lit "JOIN" ∧
    caseFold (msg.getSingleParam 0) = caseFold n ∧
    s.room n = none ∧ s'.InRoom p n with hfounds
  have stays : ∀ {C : Prop}, (s.room n = none → ¬ s'.InRoom p n) →
      (∀ b, s'.Ranks p n b ↔ s.Ranks p n b ∧ C) →
      (s'.Ranks p n true ↔ founds ∨ s.Ranks p n true ∧ s'.InRoom p n) := by
    intro C hroom hranks
    rw [operator_of_ranks hranks, or_iff_right]
    rintro ⟨-, -, -, hnone, hin⟩
    exact hroom hnone hin
  have same : s'.room n = s.room n →
      (s'.Ranks p n true ↔ founds ∨ s.Ranks p n true ∧ s'.InRoom p n) := by
    intro hroom
    refine stays (C := True) (fun hnone => ?_) fun b => by rw [ranks_of_room hroom, and_true]
    rintro ⟨ch, hch, -⟩
    rw [hroom, hnone] at hch
    cases hch
  have update : ∀ {a : Addr} {name : Str} {f : Channel → Channel}, s.channels[name]? = some a →
      (f (s.channelAt a)).members = (s.channelAt a).members → s' = s.modifyChannel a f →
      (s'.Ranks p n true ↔ founds ∨ s.Ranks p n true ∧ s'.InRoom p n) := by
    intro a name f ha hmem hs'
    have hnew := room_modifyChannel hw.links ha f n
    rw [← hs'] at hnew
    split_ifs at hnew with hfold
    · have hold := room_of_spelling ha hfold
      refine stays (C := True)
        (fun hnone => ?_) fun b => by rw [ranks_update hold hnew hmem, and_true]
      rw [hold] at hnone
      cases hnone
    · exact same hnew
  have leave : ∀ {a t : Addr}, s.channels[msg.getSingleParam 0]? = some a →
      t ∈ (s.channelAt a).members →
      s' = s.removeClientFromChannel t (msg.getSingleParam 0) →
      (s'.Ranks p n true ↔ founds ∨ s.Ranks p n true ∧ s'.InRoom p n) := by
    intro a t ha ht hs'
    have hnew := room_removeClientFromChannel hw.links ha ht n
    rw [← hs'] at hnew
    split_ifs at hnew with hfold
    · have hold := room_of_spelling ha hfold
      refine stays (fun hnone => ?_) (ranks_leave hold hnew p)
      rw [hold] at hnone
      cases hnone
    · exact same hnew
  cases ho with
  | silent | refused | answered | quit | textChannel | textNick => exact same rfl
  | pass => exact same rfl
  | @nick s₁ _ _ _ hs' =>
    have hch := updateNick_channels s q (msg.getSingleParam 0)
    rw [hs'] at hch
    refine same ?_
    rw [room_of_eq (maybeRegister_channels q {} s₁), room_of_eq hch]
  | @user s₁ _ _ _ _ hs' =>
    refine same ?_
    rw [room_of_eq (maybeRegister_channels q {} s₁), hs']
    rfl
  | join hcmd _ _ _ hs' =>
    have hjoin := operator_join (p := p) (n := n) hw hs'
    rw [hjoin, hfounds]
    simp only [hcmd, true_and]
  | part _ _ ha hm => exact leave ha hm rfl
  | kick _ _ ha _ _ _ hqm => exact leave ha hqm rfl
  | invite _ _ _ ha => exact update ha rfl rfl
  | topic _ _ _ ha _ _ hs' => exact update ha rfl hs'
  | mode _ _ ha _ _ _ _ hs' => exact update ha rfl hs'
  | @oper a t s₁ hcmd _ ha _ _ htoken _ htm hs' hflag =>
    have hnew := room_modifyChannel hw.links ha
      (·.setOperator t ((msg.getSingleParam 1).head? == some (chr '+'))) n
    rw [← hs'] at hnew
    split_ifs at hnew with hfold
    · exact absurd (eq_operatorToken htoken hflag) (hno hcmd hfold _)
    · exact same hnew

end Outcome

section Operators

variable {action : Action}

theorem Marks.inRoom (h : Marks isOperator p n s action) : s.InRoom p n ∧
    ∃ q, s.Ranks q n true := by
  cases action with
  | addClient | removeClient => exact h.elim
  | dispatch =>
    obtain ⟨-, -, -, -, -, hin, q, -, hrank⟩ := h
    exact ⟨hin, q, hrank⟩

theorem operatorToken_inj {v w : Bool} (h : operatorToken v = operatorToken w) : v = w := by
  revert v w
  decide

/-- Who marks whom is read off the message and the state. -/
theorem marks_iff {v : Bool} {now : Time} {monitor : Option ConnectionHealthMonitor}
    (hq : s.getClientByFd fd = some q) (hcmd : msg.command = lit "MODE")
    (hfold : caseFold (msg.getSingleParam 0) = caseFold n) :
    Marks v p n s (.dispatch addr now fd msg monitor) ↔ ∃ a, MarksAt msg s q a p v := by
  constructor
  · rintro ⟨-, -, htoken, hvalid, hp, ⟨ch, hch, hm⟩, q', hq', ch', hch', hm', hop⟩
    cases hq.symm.trans hq'
    cases hch.symm.trans hch'
    rw [← room_congr s hfold] at hch
    obtain ⟨a, ha, rfl⟩ := room_eq_some_iff.1 hch
    exact ⟨a, htoken, ha, hm', hop, hvalid, hp, hm⟩
  · rintro ⟨a, h⟩
    have hroom := room_of_spelling h.found hfold
    exact ⟨hcmd, hfold, h.token, h.valid, h.target, ⟨_, hroom, h.targetMember⟩, q, hq, _,
      hroom, h.member,
      h.operator⟩

/-- A MODE about an operator of the channel. -/
theorem operator_marked (hr : Registration s) (hs : SoundRooms s) (hw : WellFormed s) {now : Time}
    {monitor : Option ConnectionHealthMonitor} (hq : s.getClientByFd fd = some q)
    (hcmd : msg.command = lit "MODE") (hfold : caseFold (msg.getSingleParam 0) = caseFold n)
    (htoken : msg.getSingleParam 1 = operatorToken isOperator) :
    (s.act (.dispatch addr now fd msg monitor)).Ranks p n true ↔
      Marks true p n s (.dispatch addr now fd msg monitor) ∨ s.Ranks p n true ∧
        KeepsOperator p n s (.dispatch addr now fd msg monitor) := by
  have hact : s.act (.dispatch addr now fd msg monitor) = (handleMode fd msg s q).2 := by
    rw [act, CommandDispatcher.dispatchWith_handleCommand addr now monitor hq
      (by rw [hcmd]; decide), CommandDispatcher.handleCommand_mode hcmd]
  have hmarks : ∀ v, Marks v p n s (.dispatch addr now fd msg monitor) ↔
      ∃ a, MarksAt msg s q a p v :=
    fun v => marks_iff hq hcmd hfold
  rw [KeepsOperator, hmarks, hmarks, hact]
  rcases handleMode_operator (q := q) hr hs hw fd htoken with ⟨a, t, h, heff⟩ | ⟨hnone, heff⟩
  · have hold := room_of_spelling h.found hfold
    have hnew := room_modifyChannel hw.links h.found (·.setOperator t isOperator) n
    rw [if_pos hfold] at hnew
    have hranks := ranks_setOperator hold hnew h.targetMember p
    have hwho : ∀ v, (∃ b, MarksAt msg s q b p v) ↔ p = t ∧ v = isOperator := by
      intro v
      constructor
      · rintro ⟨b, hb⟩
        exact ⟨Option.some.inj (hb.target.symm.trans h.target), operatorToken_inj
          (hb.token.symm.trans h.token)⟩
      · rintro ⟨rfl, rfl⟩
        exact ⟨a, h⟩
    rw [heff, hranks true, hwho, hwho]
    by_cases hpt : p = t
    · subst hpt
      cases isOperator <;> simp
    · rw [if_neg hpt]
      simp only [hpt, false_and, false_or, not_false_eq_true, and_true]
      refine ⟨fun hrank => ⟨hrank, ?_⟩, And.left⟩
      exact ((hranks true).2 (by rwa [if_neg hpt])).inRoom
  · have hwho : ∀ v, ¬ ∃ b, MarksAt msg s q b p v := by
      rintro v ⟨b, hb⟩
      cases operatorToken_inj (hb.token.symm.trans htoken)
      exact hnone b p hb
    rw [heff]
    simp only [hwho, false_or, not_false_eq_true, and_true]
    exact ⟨fun hrank => ⟨hrank, hrank.inRoom⟩, And.left⟩

/-- What an action does to an operator. -/
theorem operator_act (hr : Registration s) (hs : SoundRooms s) (hw : WellFormed s)
    (action : Action) : (s.act action).Ranks p n true ↔
      MakesOperator p n s action ∨ s.Ranks p n true ∧ KeepsOperator p n s action := by
  -- an action that marks nobody, and by which nobody joins
  have quiet : ∀ {C : Prop}, (∀ v, ¬ Marks v p n s action) → ¬ Joins p n s action →
      (∀ b, (s.act action).Ranks p n b ↔ s.Ranks p n b ∧ C) →
      ((s.act action).Ranks p n true ↔
        MakesOperator p n s action ∨ s.Ranks p n true ∧ KeepsOperator p n s action) := by
    intro C hmarks hjoins hranks
    rw [operator_of_ranks hranks, MakesOperator, KeepsOperator]
    simp only [hmarks, hjoins, false_and, false_or, not_false_eq_true, and_true]
  rcases s.act_cases action with ⟨ha, hunknown⟩ | ⟨addr, fd, host, rfl, -⟩ | ⟨fd, q, rfl, hq⟩ |
    ⟨addr, now, fd, msg, monitor, q, rfl, hq, ho⟩
  · -- the descriptor of a command is unknown
    have hclient : ∀ addr now fd msg monitor, action = .dispatch addr now fd msg monitor →
        ∀ q, s.getClientByFd fd ≠ some q := by
      intro addr now fd msg monitor heq q hq
      cases (hunknown addr now fd msg monitor heq).symm.trans hq
    refine quiet (C := True) (fun v h => ?_) (fun h => ?_) fun b => by rw [ha, and_true]
    · cases action with
      | addClient | removeClient => exact h
      | dispatch =>
        obtain ⟨-, -, -, -, -, -, q, hq, -⟩ := h
        exact hclient _ _ _ _ _ rfl q hq
    · cases action with
      | addClient | removeClient => exact h
      | dispatch => exact hclient _ _ _ _ _ rfl p h.1
  · exact quiet (C := True) (fun _ => id) id fun b => by rw [and_true]; rfl
  · exact quiet (fun _ => id) id (ranks_forget (room_removeClient hw hq n) p)
  · by_cases hmode : msg.command = lit "MODE" ∧ caseFold (msg.getSingleParam 0) = caseFold n ∧
        ∃ v, msg.getSingleParam 1 = operatorToken v
    · obtain ⟨hcmd, hfold, v, htoken⟩ := hmode
      rw [operator_marked hr hs hw hq hcmd hfold htoken, MakesOperator, or_iff_right (a := _ ∧ _)]
      rintro ⟨⟨-, hjoin, -⟩, -⟩
      rw [hcmd] at hjoin
      exact absurd hjoin (by decide)
    · have hmarks : ∀ v, ¬ Marks v p n s (.dispatch addr now fd msg monitor) :=
        fun v h => hmode ⟨h.1, h.2.1, v, h.2.2.1⟩
      rw [ho.operator_iff hw fun hcmd hfold v htoken => hmode ⟨hcmd, hfold, v, htoken⟩,
        MakesOperator,
        KeepsOperator]
      simp only [hmarks, or_false, not_false_eq_true, and_true]
      refine or_congr_left ?_
      constructor
      · rintro ⟨rfl, hcmd, hfold, hnone, hin⟩
        exact ⟨⟨hq, hcmd, hfold, hin⟩, hnone⟩
      · rintro ⟨⟨hq', hcmd, hfold, hin⟩, hnone⟩
        exact ⟨Option.some.inj (hq'.symm.trans hq), hcmd, hfold, hnone, hin⟩

end Operators

/-- The life of an operator: in every state of a run, a client is an operator of a channel if and
only if it founded the channel or an operator marked it, and since then it stayed in the channel and
no operator unmarked it. A channel without operators gets none as long as it is there. -/
theorem run_operators (password : Str) (actions : List Action) :
    let s := ServerState.run password actions
    (∀ p n, s.Ranks p n true ↔ Runs.Since ServerState.act (MakesOperator p n) (KeepsOperator p n)
        { password := password } actions) ∧
      ∀ (n : Str) (later : List Action), (∀ p, ¬ s.Ranks p n true) →
        (∀ past rest : List Action, later = past ++ rest →
          (past.foldl ServerState.act s).room n ≠ none) →
        ∀ p, ¬ (later.foldl ServerState.act s).Ranks p n true := by
  intro s
  have hact : ∀ (before : List Action) (b : Action) (p : Addr) (n : Str),
      (((ServerState.run password before).act b).Ranks p n true ↔
        MakesOperator p n (ServerState.run password before) b ∨
        (ServerState.run password before).Ranks p n true ∧
          KeepsOperator p n (ServerState.run password before) b) :=
    fun before b p n => operator_act (.run password before) (.run password before)
      (.run password before) b
  refine ⟨fun p n => ?_, fun n later hnobody hthere => ?_⟩
  · refine Runs.iff_since (fun s : ServerState => s.Ranks p n true) ?_ actions fun before b _ _ =>
      hact before b p n
    rintro ⟨ch, hch, -⟩
    simp [room] at hch
  · have hrun : ∀ past : List Action,
        past.foldl ServerState.act s = ServerState.run password (actions ++ past) :=
      fun past => (List.foldl_append).symm
    induction later using List.reverseRecOn with
    | nil => exact hnobody
    | append_singleton later b ih =>
      have hnone := ih fun past rest h => hthere past (rest ++ [b]) (by rw [h, List.append_assoc])
      have hroom := hthere later [b] rfl
      intro p hrank
      rw [List.foldl_append, List.foldl_cons, List.foldl_nil] at hrank
      rw [hrun] at hnone hroom hrank
      rcases (hact _ b p n).1 hrank with (⟨-, hfounded⟩ | hmarks) | ⟨hold, -⟩
      · exact hroom hfounded
      · obtain ⟨-, q, hq⟩ := hmarks.inRoom
        exact hnone q hq
      · exact hnone p hold

end Ircserv
