import Ircserv.Bot
import Ircserv.Proofs.Channels
import Ircserv.Proofs.LineBuffer
import Ircserv.Proofs.Numbers
import Ircserv.Proofs.Parsing

/-!
# What the bot answers

A command to the bot gets its reply where it came from: in the channel, or to the client in the
prefix (`handleMessage_command`). However the line is received in chunks, it is handled once
(`reads_line`).
-/

namespace Ircserv

open ReplyBuilder Ircserv.Parser ChannelCommandHandler

variable {target text line : Str}

theorem parse_privmsg (htarget : IsToken target) (text : Str) :
    parse (IrcFormatter.privmsg target text) =
      { sender := [], command := lit "PRIVMSG", params := [target, text] } := by
  have hshape : IrcFormatter.privmsg target text =
      lit "PRIVMSG" ++ spaced [target] ++ lit " :" ++ text ++ crlf := by
    rw [IrcFormatter.privmsg, IrcFormatter.commandWithTrailing, show lit " " = [chr ' '] from rfl]
    simp [spaced]
  rw [hshape]
  exact parse_command (by decide) (by simpa using htarget) (removeIrcLineTerminator_crlf _)

namespace Bot

variable {bot bot' : Bot} {timeInfo timeInfo' : Option Tm} {message : Message}

/-- The nick of a prefix, which has no exclamation mark. -/
theorem senderNick_of_not_mem {nick : Str} (h : chr '!' ∉ nick) (rest : Str) :
    senderNick (nick ++ lit "!" ++ rest) = nick := by
  have hnone : nick.findIdx? (· == chr '!') = none := by
    rw [List.findIdx?_eq_none_iff]
    intro c hc
    rw [beq_eq_false_iff_ne]
    rintro rfl
    exact h hc
  have hfind : (nick ++ lit "!" ++ rest).findIdx? (· == chr '!') = some nick.length := by
    have hmark : (chr '!' :: rest).findIdx? (· == chr '!') = some 0 := rfl
    rw [List.append_assoc, List.findIdx?_append, hnone,
      show lit "!" ++ rest = chr '!' :: rest from rfl, hmark]
    simp
  rw [senderNick, hfind]
  simp

theorem replyTarget_channel (h : (message.getSingleParam 0).head? = some (chr '#')) :
    replyTarget message = message.getSingleParam 0 :=
  if_pos (.inl h)

theorem replyTarget_nick (h : isValidNickname (message.getSingleParam 0) = true) :
    replyTarget message = senderNick message.sender := by
  have hno : ∀ c ∈ (message.getSingleParam 0).head?, c ≠ chr '#' ∧ c ≠ chr '&' := by
    intro c hc
    have hchar := isNicknameChar_of_mem h (List.mem_of_mem_head? hc)
    constructor
    · rintro rfl
      exact absurd hchar (by decide)
    · rintro rfl
      exact absurd hchar (by decide)
  refine if_neg ?_
  rintro (hc | hc)
  · exact (hno _ hc).1 rfl
  · exact (hno _ hc).2 rfl

/-- Only the command to quit does something to the bot. -/
theorem buildCommandReply_of_ne (h : text ≠ lit "!quit") :
    (buildCommandReply timeInfo bot text).2 = bot := by
  unfold buildCommandReply
  split_ifs <;> rfl

/-- Only the command for the time looks at the clock, and none at the bot. -/
theorem buildCommandReply_congr (h : text ≠ lit "!time") :
    (buildCommandReply timeInfo bot text).1 = (buildCommandReply timeInfo' bot' text).1 := by
  unfold buildCommandReply
  split_ifs <;> rfl

/-- The replies that are the same for every command that has them. -/
def fixedReplies : List Str :=
  [lit "commands: !help !ping !echo <text> !time !quit", lit "pong", lit "bye",
    lit "unknown command; try !help"]

theorem buildCommandReply_cases (timeInfo : Option Tm) (bot : Bot) (text : Str) :
    (buildCommandReply timeInfo bot text).1 ∈ fixedReplies ∨
      lit "!echo " <+: text ∧ (buildCommandReply timeInfo bot text).1 = text.drop 6 ∨
      text = lit "!time" ∧ (buildCommandReply timeInfo bot text).1 = currentTimeText timeInfo := by
  unfold buildCommandReply
  split_ifs with _ _ hecho htime
  · exact .inl (by simp [fixedReplies])
  · exact .inl (by simp [fixedReplies])
  · exact .inr (.inl ⟨List.isPrefixOf_iff_prefix.1 hecho, rfl⟩)
  · exact .inr (.inr ⟨htime, rfl⟩)
  · exact .inl (by simp [fixedReplies])
  · exact .inl (by simp [fixedReplies])

theorem head?_intToString (n : Int) (rest : Str) :
    (intToString n ++ rest).head? ≠ some (chr '!') := by
  rcases n with k | k
  · obtain ⟨hne, hall, -⟩ := intToString_spec (n := (k : Int)) (by omega)
    obtain ⟨d, digits, hdigits⟩ := List.exists_cons_of_ne_nil hne
    have hd := hall d (by rw [hdigits]; exact List.mem_cons_self)
    rw [Int.ofNat_eq_natCast, hdigits, List.cons_append, List.head?_cons, Ne, Option.some.injEq]
    rintro rfl
    exact absurd hd (by decide)
  · rw [intToString_negSucc]
    exact (by decide : some (chr '-') ≠ some (chr '!'))

/-- The time is no command. -/
theorem head?_currentTimeText (timeInfo : Option Tm) :
    (currentTimeText timeInfo).head? ≠ some (chr '!') := by
  unfold currentTimeText
  split
  · decide
  · split_ifs
    · decide
    · simp only [Tm.text, List.append_assoc]
      exact head?_intToString _ _

theorem lf_not_mem_buildCommandReply (h : text ≠ lit "!time") (hlf : lf ∉ text) :
    lf ∉ (buildCommandReply timeInfo bot text).1 := by
  rcases buildCommandReply_cases timeInfo bot text with hfixed | ⟨-, hecho⟩ | ⟨htime, -⟩
  · have hall : ∀ reply ∈ fixedReplies, lf ∉ reply := by decide
    exact hall _ hfixed
  · rw [hecho]
    exact fun hmem => hlf (List.mem_of_mem_drop hmem)
  · exact absurd htime h

/-- How much is left to be done about a text: a command is worth its length. -/
def rank (text : Str) : Nat := if text.head? = some (chr '!') then text.length else 0

theorem rank_le (text : Str) : rank text ≤ text.length := by
  unfold rank
  split_ifs <;> omega

/-- A reply to a command is worth less than the command. -/
theorem rank_buildCommandReply (timeInfo : Option Tm) (bot : Bot)
    (htext : text.head? = some (chr '!')) :
    rank (buildCommandReply timeInfo bot text).1 < rank text := by
  have hpos : 0 < rank text := by
    rw [rank, if_pos htext]
    exact List.length_pos_iff.2 fun hnil => by
      rw [hnil] at htext
      cases htext
  have hnone : ∀ {reply : Str}, reply.head? ≠ some (chr '!') → rank reply < rank text := by
    intro reply hreply
    rwa [rank, if_neg hreply]
  rcases buildCommandReply_cases timeInfo bot text with hfixed | ⟨⟨rest, rfl⟩, hecho⟩ | ⟨-, htime⟩
  · have hall : ∀ reply ∈ fixedReplies, reply.head? ≠ some (chr '!') := by decide
    exact hnone (hall _ hfixed)
  · -- the text of an echo may be a command, but the word before it is gone
    rw [hecho, rank.eq_1 (_ ++ _), if_pos htext]
    refine (rank_le _).trans_lt ?_
    rw [List.length_drop]
    have hlen : (lit "!echo " ++ rest).length = 6 + rest.length := by rw [List.length_append]; rfl
    omega
  · rw [htime]
    exact hnone (head?_currentTimeText timeInfo)

/-- What the bot does with a command. -/
theorem handleMessage_command (hcmd : message.command = lit "PRIVMSG")
    (htext : (message.getSingleParam 1).head? = some (chr '!')) :
    bot.handleMessage timeInfo message =
      (buildCommandReply timeInfo bot (message.getSingleParam 1)).2.sendReply message
        (buildCommandReply timeInfo bot (message.getSingleParam 1)).1 := by
  have hparam : message.hasParam 1 = true := by
    refine Message.hasParam_of_ne_nil fun hnil => ?_
    rw [hnil] at htext
    cases htext
  have hother : ¬ (lit "PRIVMSG" = lit "PING") ∧ ¬ (lit "PRIVMSG" = lit "001") := by decide
  simp only [handleMessage, hcmd, hother, false_and, if_false, if_true, handlePrivmsg, hparam, htext,
    Bool.not_true, Bool.false_eq_true, ne_eq, not_true_eq_false]

theorem handleMessage_text (hcmd : message.command = lit "PRIVMSG")
    (htext : (message.getSingleParam 1).head? ≠ some (chr '!')) :
    bot.handleMessage timeInfo message = bot := by
  have hother : ¬ (lit "PRIVMSG" = lit "PING") ∧ ¬ (lit "PRIVMSG" = lit "001") := by decide
  simp only [handleMessage, hcmd, hother, false_and, if_false, if_true, handlePrivmsg, ne_eq, htext,
    not_false_eq_true, ite_self]

/-- A chunk with no end of a line is kept. -/
theorem readFromServer_part {chunk : Str} (hne : chunk ≠ []) (hlines : bot.lineBuffer.lines = [])
    (hlf : lf ∉ bot.lineBuffer.buffer ++ chunk) (localtime : Nat → Option Tm) :
    bot.readFromServer ⟨some chunk, localtime⟩ =
      some { bot with lineBuffer := { buffer := bot.lineBuffer.buffer ++ chunk } } := by
  obtain ⟨c, cs, rfl⟩ := List.exists_cons_of_ne_nil hne
  have happend : bot.lineBuffer.append (c :: cs) =
      { buffer := bot.lineBuffer.buffer ++ c :: cs } := by
    rw [LineBuffer.append_spec, Framing.rest_of_not_mem hlf, Framing.lines_of_not_mem hlf, hlines]
    rfl
  simp only [readFromServer, happend]
  rfl

/-- A chunk that ends the line has it handled. -/
theorem readFromServer_end {chunk : Str} (hne : chunk ≠ []) (hlines : bot.lineBuffer.lines = [])
    (hlf : lf ∉ line) (hline : bot.lineBuffer.buffer ++ chunk = line ++ crlf)
    (localtime : Nat → Option Tm) :
    bot.readFromServer ⟨some chunk, localtime⟩ =
      some ({ bot with lineBuffer := {} }.handleMessage (localtime 0) (parse line)) := by
  obtain ⟨c, cs, rfl⟩ := List.exists_cons_of_ne_nil hne
  obtain ⟨hcut, hrest⟩ := LineBuffer.lines_crlf hlf
  have happend : bot.lineBuffer.append (c :: cs) = { lines := [line] } := by
    rw [LineBuffer.append_spec, hline, hlines, hcut, hrest, List.map_singleton,
      LineBuffer.stripLine_crlf]
    rfl
  simp only [readFromServer, happend]
  rfl

/-- However a line is received in chunks, it is handled once. -/
theorem reads_line (hlf : lf ∉ line) : ∀ (chunks : List Str) {received : List Received} {bot : Bot},
    bot.lineBuffer.lines = [] → received.map (·.recv) = chunks.map some →
    (∀ chunk ∈ chunks, chunk ≠ []) →
    bot.lineBuffer.buffer ++ chunks.flatten = line ++ crlf →
    bot.lineBuffer.buffer.length < (line ++ crlf).length →
    ∃ timeInfo, bot.reads received =
      some ({ bot with lineBuffer := {} }.handleMessage timeInfo (parse line))
  | [], _, bot, _, _, _, hline, hlen => by
    simp [← hline] at hlen
  | chunk :: chunks, received, bot, hlines, hreceived, hne, hline, hlen => by
    rw [List.map_cons, List.map_eq_cons_iff] at hreceived
    obtain ⟨⟨recv, localtime⟩, received, rfl, hrecv, hreceived⟩ := hreceived
    cases hrecv
    have hne' := hne chunk List.mem_cons_self
    rw [List.flatten_cons, ← List.append_assoc] at hline
    rw [reads, List.foldlM_cons]
    rcases chunks with _ | ⟨chunk', chunks⟩
    · cases List.map_eq_nil_iff.1 hreceived
      rw [List.flatten_nil, List.append_nil] at hline
      rw [readFromServer_end hne' hlines hlf hline]
      exact ⟨localtime 0, rfl⟩
    · -- the line ends in a later chunk
      have hlater : (chunk' :: chunks).flatten ≠ [] := by
        have hchunk' := hne chunk' (by simp)
        simp [hchunk']
      have hpart : lf ∉ bot.lineBuffer.buffer ++ chunk :=
        Framing.not_mem_front (hline.trans (LineBuffer.append_crlf line)) hlater
          (LineBuffer.not_mem_append_cr hlf)
      rw [readFromServer_part hne' hlines hpart]
      have hlen' : (bot.lineBuffer.buffer ++ chunk).length < (line ++ crlf).length := by
        have hpos := List.length_pos_iff.2 hlater
        have hall : (bot.lineBuffer.buffer ++ chunk).length + (chunk' :: chunks).flatten.length =
            (line ++ crlf).length := by
          rw [← List.length_append, hline]
        omega
      exact reads_line hlf (chunk' :: chunks) rfl hreceived
        (fun c hc => hne c (List.mem_cons_of_mem _ hc)) hline hlen'

end Bot

end Ircserv
