import Ircserv.Proofs.Lifetime
import Ircserv.Proofs.Told

/-!
# The names that a JOIN is answered with

The 353 reply to an accepted JOIN lists each member once (`names_nodup`), and each name leads back
to its member (`mem_names_iff`), so the members and the operators can be read off it (`run_names`).
-/

open Std

namespace Ircserv

open ServerState CommandResult Ircserv.Parser ReplyBuilder
open CommandDispatcher (joinReplies handleJoin_cases)

variable {s : ServerState} {ch : Channel} {n : Str} {p q : Addr} {fd : Fd}

theorem listedNick_listed (hnick : isValidNickname (s.clientAt q).nickname = true) :
    listedNick (listed s ch q) = (s.clientAt q).nickname ∧
      ((listed s ch q).head? = some (chr '@') ↔ ch.isOperator q = true) := by
  obtain ⟨c, nick, hn⟩ := List.exists_cons_of_ne_nil (isToken_of_nick hnick).ne_nil
  have hc : c ≠ chr '@' := by
    rintro rfl
    exact absurd (isNicknameChar_of_mem hnick (hn ▸ List.mem_cons_self)) (by decide)
  unfold listed
  rw [hn]
  split_ifs with hop
  · simp [listedNick, lit, hop]
  · simp [listedNick, hop, hc]

/-- One reply to a JOIN is a 353, to the client that joined. -/
theorem joinReplies_names (hnick : isValidNickname (s.clientAt p).nickname = true) (fd : Fd) (a : Addr)
    (name : Str) :
    (joinReplies fd s p a name).replies.filter (fun m => numericOf m.message == some 353) =
      [⟨fd, nameReply s (s.clientAt p) (s.channelAt a)⟩] := by
  have hjoin : (addRepliesToMembers {} s (s.channelAt a).getMembers
      (join (s.clientAt p).getFullPrefix (lit "JOIN") name) (-1)).replies.filter
        (fun m => numericOf m.message == some 353) = [] := by
    refine List.filter_eq_nil_iff.2 fun m hm => ?_
    rw [mem_addRepliesToMembers hm, numericOf_of_sentBy hnick (SentBy.join _ _ _)]
    simp
  have hcode : ∀ target params text : Str,
      numericOf (numericReply (lit "331") target params text) = some 331 ∧
      numericOf (numericReply (lit "332") target params text) = some 332 ∧
      numericOf (numericReply (lit "353") target params text) = some 353 ∧
      numericOf (numericReply (lit "366") target params text) = some 366 := fun target params text =>
    ⟨numericOf_numericReply (by decide) (by decide) _ _ _,
      numericOf_numericReply (by decide) (by decide) _ _ _,
      numericOf_numericReply (by decide) (by decide) _ _ _,
      numericOf_numericReply (by decide) (by decide) _ _ _⟩
  simp only [joinReplies, addReply]
  split_ifs
  · simp [hjoin, noTopic, nameReply, endOfNames, hcode]
  · simp [hjoin, topicReply, nameReply, endOfNames, hcode]

section Members

variable (hr : Registration s) (hw : WellFormed s) (hch : s.room n = some ch)

include hch in
theorem inRoom_of_mem_getMembers (hq : q ∈ ch.getMembers) : s.InRoom q n :=
  ⟨ch, hch, ExtTreeMap.mem_keys.1 hq⟩

include hr hch in
theorem isValidNickname_of_mem_getMembers :
    ∀ q ∈ ch.getMembers, isValidNickname (s.clientAt q).nickname = true :=
  fun _ hq => hr.isValidNickname (inRoom_of_mem_getMembers hch hq)

include hr hw hch

/-- No two names have one nick. -/
theorem names_nodup :
    ((ch.getMembers.map (listed s ch)).map fun name => caseFold (listedNick name)).Nodup := by
  rw [List.map_map]
  refine List.Nodup.map_on (fun q hq r hr' h => ?_) ExtTreeMap.nodup_keys
  have hnick := isValidNickname_of_mem_getMembers hr hch
  simp only [Function.comp_apply, (listedNick_listed (hnick q hq)).1,
    (listedNick_listed (hnick r hr')).1] at h
  exact hr.eq_of_nick hw (inRoom_of_mem_getMembers hch hq) (inRoom_of_mem_getMembers hch hr') h

/-- The members are found by the names, and the operators by those that are marked. -/
theorem mem_names_iff (q : Addr) :
    (s.InRoom q n ↔ ∃ name ∈ ch.getMembers.map (listed s ch),
      s.getClientByNick (listedNick name) = some q) ∧
    (ch.isOperator q = true ↔ ∃ name ∈ ch.getMembers.map (listed s ch),
      name.head? = some (chr '@') ∧ s.getClientByNick (listedNick name) = some q) := by
  have hfound : ∀ r ∈ ch.getMembers, s.getClientByNick (listedNick (listed s ch r)) = some r := by
    intro r hr'
    rw [(listedNick_listed (isValidNickname_of_mem_getMembers hr hch r hr')).1]
    exact hr.getClientByNick hw (inRoom_of_mem_getMembers hch hr')
  have hmark : ∀ r ∈ ch.getMembers, ((listed s ch r).head? = some (chr '@') ↔
      ch.isOperator r = true) := fun r hr' =>
    (listedNick_listed (isValidNickname_of_mem_getMembers hr hch r hr')).2
  simp only [List.mem_map, exists_exists_and_eq_and]
  refine ⟨⟨fun hin => ?_, ?_⟩, ⟨fun hop => ?_, ?_⟩⟩
  · obtain ⟨ch', hch', hm⟩ := hin
    obtain rfl := Option.some.inj (hch.symm.trans hch')
    have hq : q ∈ ch.getMembers := ExtTreeMap.mem_keys.2 hm
    exact ⟨q, hq, hfound q hq⟩
  · rintro ⟨r, hr', hq⟩
    obtain rfl := Option.some.inj ((hfound r hr').symm.trans hq)
    exact inRoom_of_mem_getMembers hch hr'
  · have hq : q ∈ ch.getMembers := ExtTreeMap.mem_keys.2 (Channel.mem_of_isOperator hop)
    exact ⟨q, hq, (hmark q hq).2 hop, hfound q hq⟩
  · rintro ⟨r, hr', hop, hq⟩
    obtain rfl := Option.some.inj ((hfound r hr').symm.trans hq)
    exact (hmark r hr').1 hop

end Members

/-- The names list is exact. An accepted JOIN is answered with one 353, to the client that joined.
It is read as the client's nick, an equals sign, the name of the channel and the names, which lie
between single spaces: one for each member, its nick, with a mark in front if it is an operator.
None is empty and no two have one nick, so the members and the operators can be read off them. -/
theorem run_names (password : Str) (actions : List Action) :
    let s := run password actions
    ∀ addr now fd msg monitor p, s.getClientByFd fd = some p → msg.command = lit "JOIN" →
      let after := CommandDispatcher.dispatchWith addr now fd msg s monitor
      let s' := after.2.1
      (∀ m ∈ after.1.replies, isErrorNumeric m.message = false) →
      ∃ line ch names, s'.room (msg.getSingleParam 0) = some ch ∧
        after.1.replies.filter (fun m => numericOf m.message == some 353) = [⟨fd, line⟩] ∧
        parse line =
          { sender := serverName
            command := lit "353"
            params := [(s'.clientAt p).nickname, lit "=", ch.name, names] } ∧
        let entries := names.splitOn (chr ' ')
        entries = ch.getMembers.map (fun q =>
          (if ch.isOperator q then lit "@" else []) ++ (s'.clientAt q).nickname) ∧
        [] ∉ entries ∧ (entries.map fun entry => caseFold (listedNick entry)).Nodup ∧
        ∀ q, (s'.InRoom q (msg.getSingleParam 0) ↔
            ∃ entry ∈ entries, s'.getClientByNick (listedNick entry) = some q) ∧
          (ch.isOperator q = true ↔ ∃ entry ∈ entries, entry.head? = some (chr '@') ∧
            s'.getClientByNick (listedNick entry) = some q) := by
  intro s addr now fd msg monitor p hp hcmd after s' hok
  have hw : WellFormed s := .run password actions
  have hafter : after = _ := CommandDispatcher.dispatchWith_handleCommand addr now monitor hp
    (by rw [hcmd]; decide)
  rw [CommandDispatcher.handleCommand_join hcmd] at hafter
  have hw' : WellFormed s' := hw.act (.dispatch addr now fd msg monitor)
  have hr' : Registration s' :=
    (Registration.run password actions).act hw (.dispatch addr now fd msg monitor)
  have hs' : SoundRooms s' :=
    (SoundRooms.run password actions).act hw (.dispatch addr now fd msg monitor)
  obtain ⟨m, hm, hrefused⟩ | ⟨-, -, -, a, s₁, hadd, hjoined⟩ := handleJoin_cases addr fd msg s p
  · have hbad := hok ⟨fd, m⟩ (by rw [hafter, hrefused]; exact List.mem_singleton.2 rfl)
    rw [hm.error.isErrorNumeric] at hbad
    cases hbad
  rw [hjoined] at hafter
  have hs₁ : s' = s₁ := congrArg (·.2.1) hafter
  rw [← hs₁] at hadd
  have ha : s'.channels[msg.getSingleParam 0]? = some a := getElem?_addClientToChannel hw hadd
  have hch := room_eq ha
  have hin : s'.InRoom p (msg.getSingleParam 0) := inRoom_addClientToChannel hw hadd
  have hmem : p ∈ (s'.channelAt a).getMembers := ExtTreeMap.mem_keys.2 ((inRoom_iff ha).1 hin)
  have hnick := isValidNickname_of_mem_getMembers hr' hch
  have hsplit : ((s'.channelAt a).getMembers.foldl (appendName s' (s'.channelAt a)) []).splitOn
      (chr ' ') = (s'.channelAt a).getMembers.map (listed s' (s'.channelAt a)) :=
    splitOn_names (List.ne_nil_of_mem hmem) hnick
  refine ⟨nameReply s' (s'.clientAt p) (s'.channelAt a), s'.channelAt a, _, hch, ?_,
    parse_nameReply (hr'.isValidNickname hin) ?_, ?_⟩
  · rw [hafter, ← hs₁]
    exact joinReplies_names (hr'.isValidNickname hin) fd a (msg.getSingleParam 0)
  · exact isToken_of_channelName (hs' _ _ hch).named
  · dsimp only
    rw [hsplit]
    refine ⟨rfl, fun hnil => ?_, names_nodup hr' hw' hch, mem_names_iff hr' hw' hch⟩
    obtain ⟨q, hq, hnone⟩ := List.mem_map.1 hnil
    exact (isToken_of_nick (hnick q hq)).ne_nil (List.append_eq_nil_iff.1 hnone).2

/-- The case of a channel with its operator and the client that joins. -/
theorem run_names_second :
    let s := run [] [.addClient 3 5 (lit "h"), .addClient 4 6 (lit "k"),
      .dispatch 0 0 5 (Parser.parse (lit "PASS :")) none,
      .dispatch 0 0 5 (Parser.parse (lit "NICK a")) none,
      .dispatch 0 0 5 (Parser.parse (lit "USER a 0 * a")) none,
      .dispatch 0 0 6 (Parser.parse (lit "PASS :")) none,
      .dispatch 0 0 6 (Parser.parse (lit "NICK b")) none,
      .dispatch 0 0 6 (Parser.parse (lit "USER b 0 * b")) none,
      .dispatch 7 0 5 (Parser.parse (lit "JOIN #x")) none]
    let after := CommandDispatcher.dispatchWith 8 0 6 (Parser.parse (lit "JOIN #X")) s none
    ∃ line ch names, after.2.1.room (lit "#X") = some ch ∧
      after.1.replies.filter (fun m => numericOf m.message == some 353) = [⟨6, line⟩] ∧
      (parse line).params = [(after.2.1.clientAt 4).nickname, lit "=", ch.name, names] ∧
      ch.name = lit "#x" ∧ names.splitOn (chr ' ') = [lit "@a", lit "b"] := by
  intro s after
  obtain ⟨line, ch, names, hch, hline, hparse, hentries, -⟩ := run_names [] _ 8 0 6
    (Parser.parse (lit "JOIN #X")) none 4 (by decide +kernel : s.getClientByFd 6 = some 4) (by decide)
    (by decide +kernel)
  have hch' : after.2.1.room (lit "#X") = some ch := hch
  have hroom : (after.2.1.room (lit "#X")).map (fun ch => (ch.name, ch.getMembers.map fun q =>
      (if ch.isOperator q then lit "@" else []) ++ (after.2.1.clientAt q).nickname)) =
      some (lit "#x", [lit "@a", lit "b"]) := by decide +kernel
  rw [hch', Option.map_some, Option.some.injEq, Prod.mk.injEq] at hroom
  exact ⟨line, ch, names, hch, hline, congrArg Message.params hparse, hroom.1, hentries.trans hroom.2⟩

end Ircserv
