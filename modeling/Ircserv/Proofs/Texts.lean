import Ircserv.Proofs.Broadcasts
import Ircserv.Proofs.Stall

/-!
# Where texts go

`PRIVMSG` and `NOTICE` take the same way through one routine: to a channel, to a client, or to an
error that only `PRIVMSG` reports (`handleTextMessage_cases`). The sender and the parameters alone
decide which.
-/

open Std

namespace Ircserv

open CommandResult ReplyBuilder ServerState CommandDispatcher DisconnectNotifier

variable {s : ServerState} {p q a : Addr} {fd : Fd} {msg : Message} {name : Str}

/-- The client holds the nick, up to letter case. -/
def ServerState.Holds (s : ServerState) (q : Addr) (nick : Str) : Prop :=
  s.OwnsClient q ∧ caseFold (s.clientAt q).nickname = caseFold nick

/-- The client's text reaches the other members of a channel it is in, or the holder of a nick. -/
def Deliverable (s : ServerState) (p : Addr) (params : List Str) : Prop :=
  (s.clientAt p).registered = true ∧ 2 ≤ params.length ∧
    (s.InRoom p (params.getD 0 []) ∨
      isValidNickname (params.getD 0 []) = true ∧ ∃ q, s.Holds q (params.getD 0 []))

theorem head?_of_channelName (h : isValidChannelName name = true) :
    name.head? = some (chr '#') := by
  unfold isValidChannelName at h
  split at h
  · simp only [Bool.or_eq_true, decide_eq_true_eq, bne_iff_ne, ne_eq] at h
    split_ifs at h with hc
    push Not at hc
    rw [hc.2]
    rfl
  · cases h

theorem head?_of_nickname (h : isValidNickname name = true) : name.head? ≠ some (chr '#') :=
  fun hhead => absurd (isNicknameChar_of_mem h (List.mem_of_mem_head? hhead)) (by decide)

/-- The channel a text goes to is the one the sender is in. -/
theorem textToChannel_iff (hw : WellFormed s) (hs : SoundRooms s) :
    TextToChannel msg s p a ↔ (s.clientAt p).registered = true ∧ 2 ≤ msg.getParamCount ∧
      s.channels[msg.getSingleParam 0]? = some a ∧ s.InRoom p (msg.getSingleParam 0) := by
  constructor
  · intro h
    exact ⟨h.registered, h.enough, h.found, (inRoom_iff h.found).2 h.member⟩
  · rintro ⟨hreg, hn, ha, hin⟩
    have hvalid := hs.valid hw ha
    exact ⟨hreg, hn, head?_of_channelName hvalid, hvalid, ha, (inRoom_iff ha).1 hin⟩

/-- The client a text goes to is the holder of the nick. -/
theorem textToNick_iff (hw : WellFormed s) :
    TextToNick msg s p q ↔ (s.clientAt p).registered = true ∧ 2 ≤ msg.getParamCount ∧
      isValidNickname (msg.getSingleParam 0) = true ∧ s.Holds q (msg.getSingleParam 0) := by
  have hfound : isValidNickname (msg.getSingleParam 0) = true →
      (s.client.nicknameToClient[msg.getSingleParam 0]? = some q ↔
        s.Holds q (msg.getSingleParam 0)) := by
    intro hvalid
    rw [Holds, hw.ownsClient_iff]
    exact hw.getClientByNick_iff (isValidNickname_ne_nil hvalid)
  constructor
  · intro h
    exact ⟨h.registered, h.enough, h.valid, (hfound h.valid).1 h.found⟩
  · rintro ⟨hreg, hn, hvalid, hq⟩
    exact ⟨hreg, hn, head?_of_nickname hvalid, hvalid, (hfound hvalid).2 hq⟩

/-- The other members of the room a text goes to. -/
theorem mem_others_iff (hw : WellFormed s) (hp : s.client.fdToClient[fd]? = some p)
    (ha : s.channels[name]? = some a) (g : Fd) :
    g ∈ (s.memberFds a).filter (· ≠ fd) ↔ ∃ q, q ≠ p ∧ s.InRoom q name ∧ (s.clientAt q).fd = g := by
  rw [List.mem_filter, mem_memberFds_of_room ha, decide_eq_true_eq]
  have hfd : ∀ q, s.InRoom q name → ((s.clientAt q).fd = fd ↔ q = p) := fun q hq =>
    fd_eq_iff hw.links hp (hw.links.memberLive ((inRoom_iff ha).1 hq))
  constructor
  · rintro ⟨⟨q, hq, rfl⟩, hne⟩
    exact ⟨q, fun hqp => hne ((hfd q hq).2 hqp), hq, rfl⟩
  · rintro ⟨q, hqp, hq, rfl⟩
    exact ⟨⟨q, hq, rfl⟩, fun hqfd => hqp ((hfd q hq).1 hqfd)⟩

/-- The two commands of a text differ in the command word and in the report of an error. -/
theorem handleTextMessage_spec (hw : WellFormed s) (fd : Fd) (msg : Message) (p : Addr)
    (command : Str) (replyOnError : Bool) :
    let line := relayed (s.clientAt p).getFullPrefix command (msg.getSingleParam 0)
      (msg.getSingleParam 1)
    (handleTextMessage fd msg s p command replyOnError).2 = s ∧
      (∀ a, TextToChannel msg s p a → (handleTextMessage fd msg s p command replyOnError).1 =
        broadcast line ((s.memberFds a).filter (· ≠ fd))) ∧
      (∀ q, TextToNick msg s p q → (handleTextMessage fd msg s p command replyOnError).1 =
        broadcast line [(s.clientAt q).fd]) ∧
      (¬ Deliverable s p msg.params → ∃ m, ErrorReply (s.clientAt p) m ∧
        (handleTextMessage fd msg s p command replyOnError).1 = replyIf replyOnError fd m) := by
  intro line
  have hexclude : ∀ a q, TextToChannel msg s p a → TextToNick msg s p q → False :=
    fun a q ha hq => hq.noHash ha.hash
  rcases handleTextMessage_cases fd msg s p command replyOnError with ⟨a, ha, hr⟩ | ⟨q, hq, hr⟩ |
    ⟨hnoch, hnonick, m, hm, hr⟩
  · refine ⟨by rw [hr], fun b hb => ?_, fun q hq => (hexclude a q ha hq).elim, fun hno => ?_⟩
    · cases ha.found.symm.trans hb.found
      rw [hr, broadcast_members]
    · exact (hno ⟨ha.registered, ha.enough, .inl ((inRoom_iff ha.found).2 ha.member)⟩).elim
  · refine ⟨by rw [hr], fun a ha => (hexclude a q ha hq).elim, fun r hr' => ?_, fun hno => ?_⟩
    · cases hq.found.symm.trans hr'.found
      rw [hr, reply_eq_broadcast]
    · exact (hno ⟨hq.registered, hq.enough,
        .inr ⟨hq.valid, q, ((textToNick_iff hw).1 hq).2.2.2⟩⟩).elim
  · exact ⟨by rw [hr], fun a ha => (hnoch a ha).elim, fun q hq => (hnonick q hq).elim,
      fun _ => ⟨m, hm.error, by rw [hr]⟩⟩

/-- Texts are delivered exactly. A text to a channel its sender is in goes once to every other
member and to nobody else, a text to a nick that is held goes once to its holder and to nobody else,
and otherwise nothing is delivered. A `NOTICE` goes where a `PRIVMSG` with the same parameters goes,
and differs in the command word alone; only the `PRIVMSG` is answered, with one numeric, where
nothing is delivered. Neither changes the state. -/
theorem run_texts (password : Str) (actions : List Action) (fd : Fd) (p : Addr)
    (hp : (run password actions).getClientByFd fd = some p) (params : List Str) :
    let s := run password actions
    let target := params.getD 0 []
    let line command := relayed (s.clientAt p).getFullPrefix command target (params.getD 1 [])
    ∀ addr now monitor sender addr' now' monitor' sender',
      let privmsg := dispatchWith addr now fd ⟨sender, lit "PRIVMSG", params⟩ s monitor
      let notice := dispatchWith addr' now' fd ⟨sender', lit "NOTICE", params⟩ s monitor'
      privmsg.2 = (s, monitor) ∧ notice.2 = (s, monitor') ∧
        ((s.clientAt p).registered = true → 2 ≤ params.length → s.InRoom p target →
          ∃ fds : List Fd, fds.Nodup ∧
            (∀ g, g ∈ fds ↔ ∃ q, q ≠ p ∧ s.InRoom q target ∧ (s.clientAt q).fd = g) ∧
            privmsg.1 = broadcast (line (lit "PRIVMSG")) fds ∧
            notice.1 = broadcast (line (lit "NOTICE")) fds) ∧
        ((s.clientAt p).registered = true → 2 ≤ params.length → isValidNickname target = true →
          ∀ q, s.Holds q target →
            privmsg.1 = broadcast (line (lit "PRIVMSG")) [(s.clientAt q).fd] ∧
            notice.1 = broadcast (line (lit "NOTICE")) [(s.clientAt q).fd]) ∧
        (¬ Deliverable s p params → notice.1 = {} ∧
          ∃ m, isErrorNumeric m = true ∧ privmsg.1 = reply fd m) := by
  intro s target line addr now monitor sender addr' now' monitor' sender' privmsg notice
  have hw : WellFormed s := .run password actions
  have hs : SoundRooms s := .run password actions
  obtain ⟨hstate, hchannel, hnick, herror⟩ :=
    handleTextMessage_spec hw fd ⟨sender, lit "PRIVMSG", params⟩ p (lit "PRIVMSG") true
  obtain ⟨hstate', hchannel', hnick', herror'⟩ :=
    handleTextMessage_spec hw fd ⟨sender', lit "NOTICE", params⟩ p (lit "NOTICE") false
  have hword : lit "PRIVMSG" ≠ lit "PONG" := by decide
  have hword' : lit "NOTICE" ≠ lit "PONG" := by decide
  have hpriv : privmsg = _ := dispatchWith_handleCommand addr now monitor hp hword
  have hnote : notice = _ := dispatchWith_handleCommand addr' now' monitor' hp hword'
  rw [handleCommand_privmsg rfl] at hpriv
  rw [handleCommand_notice rfl] at hnote
  rw [hpriv, hnote]
  refine ⟨by rw [hstate], by rw [hstate'], fun hreg hn hin => ?_, fun hreg hn hvalid q hq => ?_,
    fun hno => ⟨?_, ?_⟩⟩
  · obtain ⟨ch, hch, hm⟩ := hin
    obtain ⟨a, ha, rfl⟩ := room_eq_some_iff.1 hch
    exact ⟨_, (memberFds_nodup hw.links a).filter _, mem_others_iff hw hp ha,
      hchannel a ((textToChannel_iff hw hs).2 ⟨hreg, hn, ha, _, hch, hm⟩),
      hchannel' a ((textToChannel_iff hw hs).2 ⟨hreg, hn, ha, _, hch, hm⟩)⟩
  · exact ⟨hnick q ((textToNick_iff hw).2 ⟨hreg, hn, hvalid, hq⟩),
      hnick' q ((textToNick_iff hw).2 ⟨hreg, hn, hvalid, hq⟩)⟩
  · obtain ⟨m, -, hm⟩ := herror' hno
    exact hm
  · obtain ⟨m, he, hm⟩ := herror hno
    exact ⟨m, he.isErrorNumeric, hm⟩

/-- The case of a text to a channel of two. -/
theorem run_texts_pair :
    let s := run [] [.addClient 3 5 (lit "h"), .addClient 4 6 (lit "k"),
      .dispatch 0 0 5 (Parser.parse (lit "PASS :")) none,
      .dispatch 0 0 5 (Parser.parse (lit "NICK a")) none,
      .dispatch 0 0 5 (Parser.parse (lit "USER a 0 * a")) none,
      .dispatch 0 0 6 (Parser.parse (lit "PASS :")) none,
      .dispatch 0 0 6 (Parser.parse (lit "NICK b")) none,
      .dispatch 0 0 6 (Parser.parse (lit "USER b 0 * b")) none,
      .dispatch 7 0 5 (Parser.parse (lit "JOIN #x")) none,
      .dispatch 0 0 6 (Parser.parse (lit "JOIN #x")) none]
    let privmsg := dispatchWith 0 0 5 ⟨[], lit "PRIVMSG", [lit "#X", lit "hi"]⟩ s none
    privmsg.1 = broadcast (lit ":a!a@h PRIVMSG #X :hi" ++ crlf) [6] ∧ privmsg.2.1 = s ∧
      ∃ fds : List Fd, fds.Nodup ∧ privmsg.1 = broadcast (lit ":a!a@h PRIVMSG #X :hi" ++ crlf) fds := by
  intro s privmsg
  obtain ⟨hstate, -, hchannel, -⟩ := run_texts [] _ 5 3 (by decide +kernel : s.getClientByFd 5 = some 3)
    [lit "#X", lit "hi"] 0 0 none [] 0 0 none []
  obtain ⟨fds, hnd, -, hpriv, -⟩ := hchannel (by decide +kernel) (by decide) (by decide +kernel)
  exact ⟨by decide +kernel, congrArg Prod.fst hstate, fds, hnd,
    hpriv.trans (congrArg (broadcast · fds) (by decide +kernel))⟩

end Ircserv
