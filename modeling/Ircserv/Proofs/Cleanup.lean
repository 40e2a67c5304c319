import Ircserv.Proofs.Runs
import Ircserv.Proofs.Rooms

/-!
# What is left after the removal of a client

`removeClient` walks the client's channels and erases some of them on the way, then walks the
channels that are left. Neither walk touches another client (`clientAt_removeClient`), and no name
comes to lead to another channel (`channels_removeClient`), so what the walks leave of the channels
can be read off their rooms.
-/

open Std

namespace Ircserv

/-- `left` is the channel without the client, and nothing else was changed. -/
structure Channel.Without (client : Addr) (ch left : Channel) : Prop where
  name : left.name = ch.name
  topic : left.topic = ch.topic
  modes : left.modes = ch.modes
  members : ∀ q, left.members[q]? = if q = client then none else ch.members[q]?
  invites : ∀ q, q ∈ left.invitedClients ↔ q ∈ ch.invitedClients ∧ q ≠ client

namespace Channel

variable {ch left : Channel} {p : Addr}

theorem without_removeClientState (ch : Channel) (p : Addr) :
    ch.Without p (ch.removeClientState p) where
  name := rfl
  topic := rfl
  modes := rfl
  members q := by
    show (ch.members.erase p)[q]? = _
    rw [ExtTreeMap.getElem?_erase]
    simp only [Nat.compare_eq_eq, @eq_comm _ q p]
  invites q := by
    rw [mem_invited_removeClientState, and_comm, ne_comm]

/-- The channel that forgets a client is gone with its last member, and is without the client
otherwise. -/
theorem forget_cases (ch : Channel) (p : Addr) (hpop : ∃ q, q ∈ ch.members) :
    (∀ q, q ∈ ch.members ↔ q = p) ∧ ch.forget p = none ∨
      (∃ q ∈ ch.members, q ≠ p) ∧ ∃ left, ch.forget p = some left ∧ ch.Without p left := by
  by_cases hm : p ∈ ch.members
  · have hf : ch.forget p = ch.leave p := if_pos ((hasMember_iff _ _).2 hm)
    rw [hf]
    by_cases hone : ∀ q ∈ ch.members, q = p
    · refine .inl ⟨fun q => ⟨hone q, ?_⟩, leave_eq_none_iff.2 hone⟩
      rintro rfl
      exact hm
    · push Not at hone
      exact .inr ⟨hone, _, leave_eq_some_iff.2 ⟨hone, rfl⟩, ch.without_removeClientState p⟩
  · have hf : ch.forget p = some (ch.removeInvite p) :=
      if_neg fun h => hm ((hasMember_iff _ _).1 h)
    obtain ⟨q, hq⟩ := hpop
    refine .inr ⟨⟨q, hq, fun h => hm (h ▸ hq)⟩, _, hf, rfl, rfl, rfl, fun q => ?_, fun q => ?_⟩
    · show ch.members[q]? = _
      split_ifs with hq
      · rw [hq, ExtTreeMap.getElem?_eq_none hm]
      · rfl
    · rw [mem_invited_removeInvite, and_comm, ne_comm]

end Channel

namespace ServerState

variable {s : ServerState} {p q : Addr} {fd : Fd}

theorem clientAt_removeFromChannel (s : ServerState) (a : Addr) (hq : q ≠ p) :
    (s.removeFromChannel p a).clientAt q = s.clientAt q := by
  rw [removeFromChannel_eq, clientAt, removeChannelIfEmpty_client]
  show ((s.modifyChannel a (·.removeClientState p)).modifyClient p (·.leaveChannel a)).clientAt q = _
  rw [clientAt_modifyClient, if_neg fun h => hq h.1.symm, clientAt_modifyChannel]

theorem channels_removeChannelIfEmpty {name n : Str} {b : Addr}
    (hb : (s.removeChannelIfEmpty name).channels[n]? = some b) : s.channels[n]? = some b := by
  unfold removeChannelIfEmpty at hb
  split at hb
  · exact hb
  · split_ifs at hb
    · rw [ExtTreeMap.getElem?_erase] at hb
      split_ifs at hb
      exact hb
    · exact hb

/-- The loop over the client's channels leaves the other clients alone, and erases names only. -/
theorem foldl_removeFromChannel_frame : ∀ (rest : List Addr) (s : ServerState),
    (∀ q, q ≠ p → (rest.foldl (removeFromChannel p) s).clientAt q = s.clientAt q) ∧
      (rest.foldl (removeFromChannel p) s).password = s.password ∧
      ∀ (n : Str) (b : Addr), (rest.foldl (removeFromChannel p) s).channels[n]? = some b →
        s.channels[n]? = some b
  | [], s => ⟨fun _ _ => rfl, rfl, fun _ _ h => h⟩
  | a :: rest, s => by
    obtain ⟨hclients, hpass, hnames⟩ := foldl_removeFromChannel_frame rest (s.removeFromChannel p a)
    have hpass' : (s.removeFromChannel p a).password = s.password := by
      rw [removeFromChannel_eq]
      unfold removeChannelIfEmpty
      split
      · rfl
      · split_ifs <;> rfl
    refine ⟨fun q hq => ?_, hpass.trans hpass', fun n b hb => ?_⟩
    · rw [List.foldl_cons, hclients q hq, clientAt_removeFromChannel s a hq]
    · have hb := channels_removeChannelIfEmpty (hnames n b hb)
      exact hb

theorem removeClientFromAllInvites_frame (s : ServerState) (p : Addr) :
    (s.removeClientFromAllInvites p).client = s.client ∧
      (s.removeClientFromAllInvites p).password = s.password ∧
      (s.removeClientFromAllInvites p).channels = s.channels := by
  unfold removeClientFromAllInvites
  exact List.foldlRecOn (motive := fun s' : ServerState =>
    s'.client = s.client ∧ s'.password = s.password ∧ s'.channels = s.channels) _ _
    ⟨rfl, rfl, rfl⟩ fun _ h _ _ => h

theorem detached_frame (s : ServerState) (p : Addr) :
    (∀ q, q ≠ p → (s.detached p).clientAt q = s.clientAt q) ∧
      (s.detached p).password = s.password ∧
      ∀ (n : Str) (b : Addr), (s.detached p).channels[n]? = some b → s.channels[n]? = some b := by
  obtain ⟨hclients, hpass, hnames⟩ := foldl_removeFromChannel_frame (s.clientAt p).getChannels s
  obtain ⟨hclient, hpass', hchannels⟩ := removeClientFromAllInvites_frame
    ((s.clientAt p).getChannels.foldl (removeFromChannel p) s) p
  refine ⟨fun q hq => ?_, hpass'.trans hpass, fun n b hb => hnames n b ?_⟩
  · rw [← hclients q hq, clientAt, detached, hclient]
    rfl
  · rwa [detached, hchannels] at hb

theorem clientAt_removeClient (h : WellFormed s) (hp : s.client.fdToClient[fd]? = some p)
    (hq : q ≠ p) : (s.removeClient fd).clientAt q = s.clientAt q := by
  obtain ⟨-, -, hsame, -, -⟩ := detached_spec h.links h.populated p
  have hp' : (s.detached p).client.fdToClient[fd]? = some p := by rw [hsame.fds, hp]
  rw [removeClient_eq hp, clientAt_erase hp', if_neg hq.symm]
  exact (s.detached_frame p).1 q hq

theorem channels_removeClient (hp : s.client.fdToClient[fd]? = some p) {n : Str} {b : Addr}
    (hb : (s.removeClient fd).channels[n]? = some b) : s.channels[n]? = some b := by
  rw [removeClient_eq hp] at hb
  exact (s.detached_frame p).2.2 n b hb

/-- A channel after the removal of a client: gone if the client was its only member, and where it
was without the client otherwise. -/
theorem getChannel_removeClient (h : WellFormed s) (hp : s.client.fdToClient[fd]? = some p)
    {n : Str} {a : Addr} (ha : s.getChannel n = some a) :
    (∀ q, q ∈ (s.channelAt a).members ↔ q = p) ∧ (s.removeClient fd).getChannel n = none ∨
      (∃ q ∈ (s.channelAt a).members, q ≠ p) ∧ (s.removeClient fd).getChannel n = some a ∧
        (s.channelAt a).Without p ((s.removeClient fd).channelAt a) := by
  have hroom := room_removeClient h hp n
  rw [room_eq ha, Option.bind_some] at hroom
  rcases (s.channelAt a).forget_cases p (h.populated a (h.links.nameOwner n a ha).1) with
    ⟨honly, hnone⟩ | ⟨hother, left, hleft, hwithout⟩
  · rw [hnone, room_eq_none_iff] at hroom
    exact .inl ⟨honly, hroom⟩
  · rw [hleft, room_eq_some_iff] at hroom
    obtain ⟨b, hb, hat⟩ := hroom
    -- the name led to this address before, so it is the channel's own
    have hba : b = a := Option.some.inj ((channels_removeClient hp hb).symm.trans ha)
    rw [hba] at hb hat
    rw [hat]
    exact .inr ⟨hother, hb, hwithout⟩

end ServerState

open ServerState

/-- `removeClient` frees the descriptor and the nick, takes the client out of every channel and
every invite list, takes the channels it was alone in away, and changes nothing else. -/
theorem run_cleanup (password : Str) (actions : List Action) (fd : Fd) (p : Addr)
    (hp : (run password actions).getClientByFd fd = some p) :
    let s := run password actions
    let s' := s.removeClient fd
    (s'.getClientByFd fd = none ∧ s'.getClientByNick (s.clientAt p).nickname = none ∧
        p ∉ s'.client.objects ∧
        ∀ a, p ∉ (s'.channelAt a).members ∧ (s'.channelAt a).isOperator p = false ∧
          p ∉ (s'.channelAt a).invitedClients) ∧
      (∀ n a, s.getChannel n = some a →
        (s'.getChannel n = none ↔ ∀ q, q ∈ (s.channelAt a).members ↔ q = p) ∧
        (s'.getChannel n ≠ none →
          s'.getChannel n = some a ∧ (s.channelAt a).Without p (s'.channelAt a))) ∧
      (∀ n, s.getChannel n = none → s'.getChannel n = none) ∧
      (∀ q, q ≠ p → (q ∈ s'.client.objects ↔ q ∈ s.client.objects) ∧
        s'.clientAt q = s.clientAt q) ∧
      (∀ g, g ≠ fd → s'.getClientByFd g = s.getClientByFd g) ∧
      (∀ n, caseFold n ≠ caseFold (s.clientAt p).nickname →
        s'.getClientByNick n = s.getClientByNick n) ∧
      s'.password = s.password := by
  intro s s'
  have h : WellFormed s := .run password actions
  have h' : WellFormed s' := h.act (.removeClient fd)
  obtain ⟨hlive, hgone, -, hfds, hnicks⟩ := h.removeClient_client hp
  have hout : ∀ a, p ∉ (s'.channelAt a).members := by
    intro a hm
    rw [h'.links.linked, hgone] at hm
    exact ExtTreeSet.not_mem_empty hm
  have hdead : p ∉ s'.client.objects := fun hm => ((hlive p).1 hm).2 rfl
  refine ⟨⟨?_, ?_, hdead, fun a => ⟨hout a, ?_, ?_⟩⟩, fun n a ha => ?_, fun n hn => ?_,
    fun q hq => ⟨?_, clientAt_removeClient h hp hq⟩, fun g hg => ?_, fun n hn => ?_, ?_⟩
  · show s'.client.fdToClient[fd]? = none
    rw [hfds, ExtTreeMap.getElem?_erase_self]
  · show s'.client.nicknameToClient[(s.clientAt p).nickname]? = none
    rw [hnicks, ExtTreeMap.getElem?_erase_self]
  · rw [Channel.isOperator, ExtTreeMap.getElem?_eq_none (hout a)]
  · exact fun hm => hdead (h'.links.invitedLive a p hm)
  · rcases getChannel_removeClient h hp ha with ⟨honly, hnone⟩ | ⟨⟨q, hq, hqp⟩, hsome, hwithout⟩
    · exact ⟨iff_of_true hnone honly, fun hne => absurd hnone hne⟩
    · refine ⟨iff_of_false ?_ fun honly => hqp ((honly q).1 hq), fun _ => ⟨hsome, hwithout⟩⟩
      rw [hsome]
      exact Option.some_ne_none a
  · by_contra hne
    obtain ⟨b, hb⟩ := Option.ne_none_iff_exists'.1 hne
    have hb := channels_removeClient hp hb
    exact Option.some_ne_none b (hb.symm.trans hn)
  · rw [hlive]
    exact and_iff_left hq
  · show s'.client.fdToClient[g]? = s.client.fdToClient[g]?
    rw [hfds, ExtTreeMap.getElem?_erase]
    simp [hg.symm]
  · show s'.client.nicknameToClient[n]? = s.client.nicknameToClient[n]?
    rw [hnicks, ExtTreeMap.getElem?_erase]
    simp [hn.symm]
  · show (s.removeClient fd).password = s.password
    rw [removeClient_eq hp]
    exact (s.detached_frame p).2.1

/-- The case of a founder who shares one channel and is alone in another. -/
theorem run_cleanup_founder :
    let s := run [] [.addClient 3 5 (lit "h"), .addClient 4 6 (lit "k"),
      .dispatch 0 0 5 (Parser.parse (lit "PASS :")) none,
      .dispatch 0 0 5 (Parser.parse (lit "NICK a")) none,
      .dispatch 0 0 5 (Parser.parse (lit "USER a 0 * a")) none,
      .dispatch 0 0 6 (Parser.parse (lit "PASS :")) none,
      .dispatch 0 0 6 (Parser.parse (lit "NICK b")) none,
      .dispatch 0 0 6 (Parser.parse (lit "USER b 0 * b")) none,
      .dispatch 7 0 5 (Parser.parse (lit "JOIN #x")) none,
      .dispatch 8 0 5 (Parser.parse (lit "JOIN #y")) none,
      .dispatch 0 0 6 (Parser.parse (lit "JOIN #x")) none]
    s.getChannel (lit "#y") = some 8 ∧ (s.removeClient 5).getChannel (lit "#y") = none ∧
      (s.removeClient 5).getChannel (lit "#x") = some 7 ∧
      (s.channelAt 7).Without 3 ((s.removeClient 5).channelAt 7) ∧
      (s.removeClient 5).clientAt 4 = s.clientAt 4 := by
  intro s
  obtain ⟨-, hchannels, -, hclients, -⟩ := run_cleanup [] _ 5 3
    (by decide +kernel : s.getClientByFd 5 = some 3)
  obtain ⟨hx, hwithout⟩ := (hchannels (lit "#x") 7 (by decide +kernel)).2 (by decide +kernel)
  exact ⟨by decide +kernel, by decide +kernel, hx, hwithout, (hclients 4 (by decide)).2⟩

end Ircserv
