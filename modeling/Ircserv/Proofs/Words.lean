import Ircserv.Registers
import Ircserv.Proofs.Numerics
import Ircserv.Proofs.Told

/-!
# The command word of a reply

A receiver tells the replies apart by their command words, and the texts in a reply do not change
the word it is read with. A reply that says something about the topic of a channel is one of three,
and a reply that says something about its modes is one of two.
-/

namespace Ircserv

open ReplyBuilder Ircserv.Parser

variable {c : Client} {name target text sender command rest code : Str}

/-- The command word that a line is read with. -/
def wordOf (line : Str) : Str := (parse line).command

theorem wordOf_line (hsender : chr ' ' ∉ sender) (hcommand : IsToken command)
    (hrest : EndsToken rest) :
    wordOf (lit ":" ++ sender ++ lit " " ++ command ++ rest ++ crlf) = upperCommand command := by
  rw [wordOf, parse_line hsender hcommand hrest]

theorem wordOf_numericReply (hcode : IsToken code) (params : Str) :
    wordOf (numericReply code target params text) = upperCommand code := by
  have hshape : numericReply code target params text =
      lit ":" ++ serverName ++ lit " " ++ code ++ chr ' ' ::
        (target ++ ((if params = [] then [] else lit " " ++ params) ++
          (lit " :" ++ text))) ++ crlf := by
    unfold numericReply
    rw [show lit " " = [chr ' '] from rfl]
    split_ifs <;> simp
  rw [hshape, wordOf_line (by decide) hcode (endsToken_space _)]

/-- A reply to a command of its own has the word of an error, or of an answer. -/
theorem wordOf_error {m : Str} (h : ErrorReply c m) : wordOf m ∈ errorCodes.map lit := by
  have hcodes : ∀ code ∈ errorCodes, IsToken (lit code) ∧ upperCommand (lit code) = lit code := by
    decide +kernel
  have hword : ∀ code ∈ errorCodes, ∀ target params text,
      wordOf (numericReply (lit code) target params text) ∈ errorCodes.map lit := by
    intro code hcode target params text
    obtain ⟨htoken, hupper⟩ := hcodes code hcode
    rw [wordOf_numericReply htoken, hupper]
    exact List.mem_map_of_mem hcode
  cases h with
  | named code _ _ h => exact hword code h _ _ _
  | starred code _ _ h =>
    have hmem : ∀ code ∈ ["433", "464"], code ∈ errorCodes := by decide
    exact hword code (hmem code h) _ _ _

theorem wordOf_pong (token : Str) : wordOf (pong token) = lit "PONG" := by
  have hshape : pong token = lit ":" ++ serverName ++ lit " " ++ lit "PONG" ++
      chr ' ' :: (serverName ++ lit " :" ++ token) ++ crlf := by
    rw [pong, show lit " PONG " = lit " " ++ (lit "PONG" ++ [chr ' ']) from rfl]
    simp
  rw [hshape, wordOf_line (by decide) (by decide) (endsToken_space _)]
  decide

theorem wordOf_channelModeIs (modes args : Str) : wordOf (channelModeIs c name modes args) =
    lit "324" := by
  have hshape : channelModeIs c name modes args =
      lit ":" ++ serverName ++ lit " " ++ lit "324" ++ chr ' ' :: (replyTarget c ++ lit " " ++
        name ++ lit " " ++ modes ++ if args = [] then [] else lit " " ++ args) ++ crlf := by
    unfold channelModeIs
    rw [show lit " " = [chr ' '] from rfl]
    split_ifs <;> simp
  rw [hshape, wordOf_line (by decide) (by decide) (endsToken_space _)]
  decide

theorem wordOf_inviting : wordOf (inviting c target name) = lit "341" := by
  have hshape : inviting c target name = lit ":" ++ serverName ++ lit " " ++ lit "341" ++
      chr ' ' :: (replyTarget c ++ lit " " ++ target ++ lit " " ++ name) ++ crlf := by
    rw [inviting, show lit " " = [chr ' '] from rfl]
    simp
  rw [hshape, wordOf_line (by decide) (by decide) (endsToken_space _)]
  decide

theorem wordOf_relayed (h : c.Plain) (hcommand : IsToken command) (htarget : IsToken target) :
    wordOf (relayed c.getFullPrefix command target text) = upperCommand command := by
  rw [wordOf, parse_relayed h.space hcommand htarget]

theorem wordOf_invite (h : c.Plain) (htarget : IsToken target) :
    wordOf (invite c.getFullPrefix target name) = lit "INVITE" := by
  rw [wordOf, parse_invite h.space htarget]

theorem wordOf_join (h : c.Plain) (hname : IsToken name) :
    wordOf (join c.getFullPrefix (lit "JOIN") name) = lit "JOIN" := by
  rw [wordOf, parse_join h.space (by decide) hname]
  exact show upperCommand (lit "JOIN") = lit "JOIN" by decide

theorem wordOf_part (h : c.Plain) (hname : IsToken name) :
    wordOf (part c.getFullPrefix (lit "PART") name) = lit "PART" := by
  rw [wordOf, parse_part h.space (by decide) hname]
  exact show upperCommand (lit "PART") = lit "PART" by decide

theorem wordOf_kick (h : c.Plain) (hname : IsToken name) (htarget : IsToken target) :
    wordOf (kick c.getFullPrefix name target text) = lit "KICK" := by
  rw [wordOf, parse_kick h.space hname htarget]

theorem wordOf_quit (h : c.Plain) : wordOf (quit c.getFullPrefix text) = lit "QUIT" := by
  rw [wordOf, parse_quit h.space]

theorem wordOf_mode (h : c.Plain) (hname : IsToken name) {modeToken : Str}
    (htoken : IsToken modeToken)
    (modeArg : Str) : wordOf (mode c.getFullPrefix name modeToken modeArg) = lit "MODE" := by
  obtain ⟨fuel, -, hparse⟩ := parse_mode h.space hname htoken modeArg
  rw [wordOf, hparse]

/-- The words of the replies to each command, errors aside. -/
def wordTable : List (String × List String) :=
  [("PING", ["PONG"]), ("NICK", ["001"]), ("USER", ["001"]),
    ("JOIN", ["JOIN", "331", "332", "353", "366"]),
    ("PART", ["PART"]), ("PRIVMSG", ["PRIVMSG"]), ("NOTICE", ["NOTICE"]), ("KICK", ["KICK"]),
    ("INVITE", ["341", "INVITE"]), ("TOPIC", ["331", "332", "TOPIC"]), ("MODE", ["324", "MODE"])]

/-- The words of the replies to the command, errors aside. -/
def answerWords (command : Str) : List Str :=
  (wordTable.filter fun row => lit row.1 = command).flatMap fun row => row.2.map lit

section Outcome

open ServerState CommandResult

variable {s s' : ServerState} {p q a : Addr} {g : Fd} {msg : Message} {addr : Addr}
  {r : CommandResult}

theorem wordOf_numericReply_mem {words : List Str} (params : Str) (hcode : IsToken code)
    (hmem : upperCommand code ∈ words) : wordOf (numericReply code target params text) ∈ words := by
  rwa [wordOf_numericReply hcode]

/-- A client that joins is one that could be printed before. -/
theorem plain_addClientToChannel {addr : Addr} (hplain : (s.clientAt q).Plain)
    (hs' : s.addClientToChannel addr p name = (some a, s')) : (s'.clientAt q).Plain := by
  have hsame := SameClients.addClientToChannel s addr p name
  rw [hs'] at hsame
  obtain ⟨cs, hcs⟩ := hsame.data q
  rw [hcs]
  exact ⟨hplain.nick, hplain.username, hplain.host⟩

/-- A reply to a command has the word of an error, or one of those of the command. -/
theorem Outcome.word (h : Orderly s) (ho : Outcome addr g msg s q r s') {m : OutgoingMessage}
    (hm : m ∈ r.replies) : wordOf m.message ∈ errorCodes.map lit ++ answerWords msg.command := by
  rw [List.mem_append]
  have welcomed : ∀ s₁ : ServerState, m ∈ (CommandDispatcher.maybeRegister q {} s₁).1.replies →
      wordOf m.message = lit "001" := by
    intro s₁ hm
    rcases maybeRegister_cases q {} s₁ with hs | hs
    · rw [hs] at hm
      cases hm
    · rw [hs] at hm
      cases List.mem_singleton.1 hm
      exact (wordOf_numericReply (by decide) []).trans (by decide)
  cases ho with
  | silent | pass | quit => cases hm
  | refused he =>
    cases List.mem_singleton.1 hm
    exact .inl (wordOf_error he.error)
  | answered ha =>
    cases List.mem_singleton.1 hm
    refine .inr ?_
    cases ha with
    | pong hcmd =>
      rw [hcmd, wordOf_pong]
      decide
    | modes hcmd =>
      rw [hcmd, wordOf_channelModeIs]
      decide
    | noTopic hcmd | topic hcmd =>
      rw [hcmd]
      exact wordOf_numericReply_mem _ (by decide) (by decide)
  | nick hcmd =>
    rw [welcomed _ hm, hcmd]
    exact .inr (by decide)
  | user hcmd =>
    rw [welcomed _ hm, hcmd]
    exact .inr (by decide)
  | join hcmd hreg hvalid _ hs' =>
    refine .inr ?_
    have hcodes : ∀ code ∈ ["331", "332", "353", "366"], IsToken (lit code) ∧
        upperCommand (lit code) ∈ answerWords (lit "JOIN") := by decide +kernel
    rw [hcmd]
    rcases mem_joinReplies hm with hm | ⟨code, hcode, target, params, text, hm⟩
    · rw [hm, wordOf_join (plain_addClientToChannel (h.plain hreg) hs')
        (isToken_of_channelName hvalid)]
      decide
    · rw [hm]
      exact wordOf_numericReply_mem _ (hcodes code hcode).1 (hcodes code hcode).2
  | part hcmd hreg ha =>
    rw [mem_addRepliesToMembers hm, wordOf_part (h.plain hreg) (h.token ha), hcmd]
    exact .inr (by decide)
  | textChannel hcmd hor hreg ha =>
    refine .inr ?_
    rw [mem_addRepliesToMembers hm, hcmd]
    rcases hor with rfl | rfl
    · rw [wordOf_relayed (h.plain hreg) (by decide) (h.token ha)]
      decide
    · rw [wordOf_relayed (h.plain hreg) (by decide) (h.token ha)]
      decide
  | textNick hcmd hor hreg ht =>
    cases List.mem_singleton.1 hm
    refine .inr ?_
    rw [hcmd]
    rcases hor with rfl | rfl
    · rw [wordOf_relayed (h.plain hreg) (by decide) (h.nick_token ht)]
      decide
    · rw [wordOf_relayed (h.plain hreg) (by decide) (h.nick_token ht)]
      decide
  | kick hcmd hreg ha _ _ ht =>
    rw [mem_addRepliesToMembers hm, wordOf_kick (h.plain hreg) (h.token ha) (h.nick_token ht), hcmd]
    exact .inr (by decide)
  | invite hcmd hreg ht =>
    refine .inr ?_
    rw [hcmd]
    rcases List.mem_append.1 hm with hm | hm
    · cases List.mem_singleton.1 hm
      rw [wordOf_inviting]
      decide
    · cases List.mem_singleton.1 hm
      rw [wordOf_invite (h.plain hreg) (h.nick_token ht)]
      decide
  | topic hcmd hreg _ ha =>
    rw [mem_addRepliesToMembers hm, ReplyBuilder.topic,
      wordOf_relayed (h.plain hreg) (by decide) (h.token ha), hcmd]
    exact .inr (by decide)
  | mode hcmd hreg ha _ _ htoken | oper hcmd hreg ha _ _ htoken =>
    rw [mem_addRepliesToMembers hm,
      wordOf_mode (h.plain hreg) (h.token ha) (isToken_of_modeToken htoken), hcmd]
    exact .inr (by decide)

/-- A reply with one of these words is to one of these commands. -/
theorem Outcome.command_of_word (words commands : List Str)
    (hwords : ∀ row ∈ wordTable, ∀ w ∈ row.2, lit w ∈ words → lit row.1 ∈ commands)
    (herrors : ∀ w ∈ errorCodes, lit w ∉ words) (h : Orderly s) (ho : Outcome addr g msg s q r s')
    {m : OutgoingMessage} (hm : m ∈ r.replies) (hword : wordOf m.message ∈ words) :
    msg.command ∈ commands := by
  rcases List.mem_append.1 (ho.word h hm) with herror | hanswer
  · obtain ⟨w, hw, hlit⟩ := List.mem_map.1 herror
    rw [← hlit] at hword
    exact absurd hword (herrors w hw)
  · simp only [answerWords, List.mem_flatMap, List.mem_filter, decide_eq_true_eq,
      List.mem_map] at hanswer
    obtain ⟨row, ⟨hrow, hcommand⟩, w, hw, hlit⟩ := hanswer
    rw [← hlit] at hword
    exact hcommand ▸ hwords row hrow w hw hword

end Outcome

end Ircserv
