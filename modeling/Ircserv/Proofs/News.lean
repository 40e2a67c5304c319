import Ircserv.Views
import Ircserv.Proofs.Channels
import Ircserv.Proofs.Parsing

/-!
# What the replies say about a channel

Each line that is sent to the members of a channel says what the command did (`heard_join` and the
following), and no line with another command says anything, whatever its text is (`heard_line`).
-/

namespace Ircserv

open Ircserv.Parser ReplyBuilder

/-- The prefix of the client is read as one word, and its nick from it. -/
structure Client.Plain (c : Client) : Prop where
  nick : isValidNickname c.nickname = true
  username : chr ' ' ∉ c.username
  host : chr ' ' ∉ c.host

variable {c : Client} {channel name target text sender command rest : Str}

theorem Client.Plain.space (h : c.Plain) : chr ' ' ∉ c.getFullPrefix := by
  have hnick := (isToken_of_nick h.nick).space
  simp only [getFullPrefix, List.mem_append, not_or]
  exact ⟨⟨⟨⟨hnick, by decide⟩, h.username⟩, by decide⟩, h.host⟩

/-- The nick ends at the mark that follows it. -/
theorem Client.Plain.senderNick (h : c.Plain) (command : Str) (params : List Str) :
    Message.senderNick { sender := c.getFullPrefix, command := command, params := params } =
      c.nickname := by
  have hall : ∀ x ∈ c.nickname, (x != chr '!') = true := by
    rintro x hx
    rw [bne_iff_ne]
    rintro rfl
    exact absurd (isNicknameChar_of_mem h.nick hx) (by decide)
  have hshape : c.getFullPrefix = c.nickname ++ chr '!' :: (c.username ++ lit "@" ++ c.host) := by
    rw [getFullPrefix, show lit "!" = [chr '!'] from rfl]
    simp
  show c.getFullPrefix.takeWhile (· != chr '!') = c.nickname
  rw [hshape, List.takeWhile_append_of_pos hall]
  simp

section Tokens

theorem ircTolower_eq_space : ∀ c : UInt8, ircTolower c = chr ' ' ↔ c = chr ' ' :=
  forall_byte (by decide +kernel)

theorem ircTolower_eq_colon : ∀ c : UInt8, ircTolower c = chr ':' ↔ c = chr ':' :=
  forall_byte (by decide +kernel)

theorem isToken_caseFold (n : Str) : IsToken (caseFold n) ↔ IsToken n := by
  have hspace : chr ' ' ∈ caseFold n ↔ chr ' ' ∈ n := by
    simp only [caseFold, List.mem_map, ircTolower_eq_space, exists_eq_right]
  have hcolon : (caseFold n).head? = some (chr ':') ↔ n.head? = some (chr ':') := by
    cases n with
    | nil => rfl
    | cons c cs => simp [caseFold, ircTolower_eq_colon]
  constructor
  · rintro ⟨hne, hs, hc⟩
    exact ⟨mt caseFold_eq_nil.2 hne, mt hspace.2 hs, mt hcolon.2 hc⟩
  · rintro ⟨hne, hs, hc⟩
    exact ⟨mt caseFold_eq_nil.1 hne, mt hspace.1 hs, mt hcolon.1 hc⟩

/-- A name is a token in every spelling or in none. -/
theorem isToken_congr {n m : Str} (h : caseFold n = caseFold m) : IsToken n ↔ IsToken m := by
  rw [← isToken_caseFold n, h, isToken_caseFold]

theorem isToken_of_modeToken {token : Str}
    (h : ChannelCommandHandler.isSupportedSingleModeToken token = true) : IsToken token := by
  unfold ChannelCommandHandler.isSupportedSingleModeToken at h
  split at h
  · rename_i sign mode
    split_ifs at h with hsign
    simp only [Bool.and_eq_true, bne_iff_ne, ne_eq, not_and_or, not_not] at hsign
    simp only [Bool.or_eq_true, beq_iff_eq] at h
    refine ⟨by simp, ?_, ?_⟩
    · rcases hsign with rfl | rfl <;> rcases h with (((rfl | rfl) | rfl) | rfl) | rfl <;> decide
    · rcases hsign with rfl | rfl <;> simp +decide
  · cases h

end Tokens

/-- The commands that say something about the members of a channel. -/
def newsCommands : List Str :=
  [lit "353", lit "JOIN", lit "PART", lit "KICK", lit "QUIT", lit "NICK", lit "MODE"]

theorem news_eq_none {msg : Message} (h : msg.command ∉ newsCommands) : msg.news channel = none := by
  simp only [newsCommands, List.mem_cons, List.not_mem_nil, or_false, not_or] at h
  obtain ⟨h₁, h₂, h₃, h₄, h₅, h₆, h₇⟩ := h
  simp only [Message.news, h₁, h₂, h₃, h₄, h₅, h₆, h₇, if_false]

/-- A word that is read as a command which says nothing. -/
structure IsQuiet (command : Str) : Prop where
  token : IsToken command
  quiet : upperCommand command ∉ newsCommands

instance (command : Str) : Decidable (IsQuiet command) :=
  decidable_of_iff (IsToken command ∧ upperCommand command ∉ newsCommands)
    ⟨fun ⟨htoken, hquiet⟩ => ⟨htoken, hquiet⟩, fun h => ⟨h.token, h.quiet⟩⟩

theorem heard_line (hsender : chr ' ' ∉ sender) (hcommand : IsQuiet command)
    (hrest : EndsToken rest) :
    heard channel (lit ":" ++ sender ++ lit " " ++ command ++ rest ++ crlf) = none := by
  rw [heard, parse_line hsender hcommand.token hrest]
  exact news_eq_none hcommand.quiet

theorem heard_numericReply {code params : Str} (hcode : IsQuiet code) :
    heard channel (numericReply code target params text) = none := by
  have hshape : numericReply code target params text =
      lit ":" ++ serverName ++ lit " " ++ code ++ chr ' ' ::
        (target ++ ((if params = [] then [] else lit " " ++ params) ++ (lit " :" ++ text))) ++ crlf := by
    unfold numericReply
    rw [show lit " " = [chr ' '] from rfl]
    split_ifs <;> simp
  rw [hshape]
  exact heard_line (by decide) hcode (endsToken_space _)

theorem heard_error {m : Str} (h : ErrorReply c m) : heard channel m = none := by
  have hcodes : ∀ code ∈ errorCodes, IsQuiet (lit code) := by decide +kernel
  have hcode : ∀ code ∈ errorCodes, ∀ target params text,
      heard channel (numericReply (lit code) target params text) = none := by
    intro code hmem _ _ _
    exact heard_numericReply (hcodes code hmem)
  cases h with
  | named code _ _ h => exact hcode code h _ _ _
  | starred code _ _ h =>
    have hmem : ∀ code ∈ ["433", "464"], code ∈ errorCodes := by decide
    exact hcode code (hmem code h) _ _ _

theorem heard_answer {msg : Message} {s : ServerState} {p : Addr} {m : Str} (h : Answer msg s p m) :
    heard channel m = none := by
  cases h with
  | pong =>
    have hshape : ∀ token, pong token = lit ":" ++ serverName ++ lit " " ++ lit "PONG" ++
        chr ' ' :: (serverName ++ lit " :" ++ token) ++ crlf := by
      intro token
      rw [pong, show lit " PONG " = lit " " ++ (lit "PONG" ++ [chr ' ']) from rfl]
      simp
    rw [hshape]
    exact heard_line (by decide) (by decide) (endsToken_space _)
  | modes =>
    have hshape : ∀ c name modes args, channelModeIs c name modes args =
        lit ":" ++ serverName ++ lit " " ++ lit "324" ++ chr ' ' :: (replyTarget c ++ lit " " ++
          name ++ lit " " ++ modes ++ if args = [] then [] else lit " " ++ args) ++ crlf := by
      intro c name modes args
      unfold channelModeIs
      rw [show lit " " = [chr ' '] from rfl]
      split_ifs <;> simp
    rw [hshape]
    exact heard_line (by decide) (by decide) (endsToken_space _)
  | noTopic | topic => exact heard_numericReply (by decide)

theorem heard_endOfNames : heard channel (endOfNames c name) = none :=
  heard_numericReply (by decide)

theorem heard_inviting : heard channel (inviting c target name) = none := by
  have hshape : inviting c target name = lit ":" ++ serverName ++ lit " " ++ lit "341" ++
      chr ' ' :: (replyTarget c ++ lit " " ++ target ++ lit " " ++ name) ++ crlf := by
    rw [inviting, show lit " " = [chr ' '] from rfl]
    simp
  rw [hshape]
  exact heard_line (by decide) (by decide) (endsToken_space _)

theorem heard_relayed (h : c.Plain) (hcommand : IsQuiet command) (htarget : IsToken target) :
    heard channel (relayed c.getFullPrefix command target text) = none := by
  rw [heard, parse_relayed h.space hcommand.token htarget]
  exact news_eq_none hcommand.quiet

theorem heard_invite (h : c.Plain) (htarget : IsToken target) :
    heard channel (invite c.getFullPrefix target name) = none := by
  rw [heard, parse_invite h.space htarget]
  exact news_eq_none (show lit "INVITE" ∉ newsCommands by decide)

theorem heard_join (h : c.Plain) (hname : IsToken name) :
    heard channel (join c.getFullPrefix (lit "JOIN") name) =
      if caseFold name = caseFold channel then some (.comes c.nickname) else none := by
  rw [heard, parse_join h.space (by decide) hname, show upperCommand (lit "JOIN") = lit "JOIN" by decide]
  simp +decide [Message.news, Message.isAbout, Message.getSingleParam, h.senderNick]

theorem heard_part (h : c.Plain) (hname : IsToken name) :
    heard channel (part c.getFullPrefix (lit "PART") name) =
      if caseFold name = caseFold channel then some (.goes c.nickname) else none := by
  rw [heard, parse_part h.space (by decide) hname, show upperCommand (lit "PART") = lit "PART" by decide]
  simp +decide [Message.news, Message.isAbout, Message.getSingleParam, h.senderNick]

theorem heard_kick (h : c.Plain) (hname : IsToken name) (htarget : IsToken target) :
    heard channel (kick c.getFullPrefix name target text) =
      if caseFold name = caseFold channel then some (.goes target) else none := by
  rw [heard, parse_kick h.space hname htarget]
  simp +decide [Message.news, Message.isAbout, Message.getSingleParam]

theorem heard_quit (h : c.Plain) :
    heard channel (quit c.getFullPrefix text) = some (.goes c.nickname) := by
  rw [heard, parse_quit h.space]
  simp +decide [Message.news, h.senderNick]

/-- The prefix, the channel and the flag of a MODE line are read as they are; its argument may have
spaces. -/
theorem heard_mode (channel : Str) (h : c.Plain) (hname : IsToken name) {modeToken : Str}
    (htoken : IsToken modeToken) (modeArg : Str) : ∃ params, params.take 2 = [name, modeToken] ∧
      (IsToken modeArg → params = [name, modeToken, modeArg]) ∧
      heard channel (mode c.getFullPrefix name modeToken modeArg) =
        Message.news { sender := c.getFullPrefix, command := lit "MODE", params := params } channel := by
  obtain ⟨fuel, hfuel, hparse⟩ := parse_mode h.space hname htoken modeArg
  rw [heard, hparse]
  refine ⟨_, rfl, fun harg => ?_, rfl⟩
  rw [readParams_argument harg hfuel]

theorem heard_mode_operator (channel : Str) (h : c.Plain) (hname : IsToken name)
    (htarget : IsToken target) (adding : Bool) :
    heard channel (mode c.getFullPrefix name (if adding then lit "+o" else lit "-o") target) =
      if caseFold name = caseFold channel then some (.marked target adding) else none := by
  have htoken : IsToken (if adding then lit "+o" else lit "-o") := by
    cases adding <;> decide
  obtain ⟨params, -, hparams, hheard⟩ := heard_mode channel h hname htoken target
  rw [hheard, hparams htarget]
  cases adding <;> simp +decide [Message.news, Message.isAbout, Message.getSingleParam]

theorem heard_mode_other (h : c.Plain) (hname : IsToken name) {modeToken : Str}
    (htoken : IsToken modeToken) (hplus : modeToken ≠ lit "+o") (hminus : modeToken ≠ lit "-o")
    (modeArg : Str) : heard channel (mode c.getFullPrefix name modeToken modeArg) = none := by
  obtain ⟨params, hparams, -, hheard⟩ := heard_mode channel h hname htoken modeArg
  have hget : params[1]? = some modeToken := by
    rw [← List.getElem?_take_of_lt (show 1 < 2 by omega), hparams]
    rfl
  rw [hheard]
  simp +decide [Message.news, Message.getSingleParam, hget, hplus, hminus]

/-- A 353 reply is read as the channel, and all that follows it. -/
theorem parse_nameReply {s : ServerState} {ch : Channel} (hnick : isValidNickname c.nickname = true)
    (hname : IsToken ch.name) : parse (nameReply s c ch) =
      { sender := serverName, command := lit "353"
        params := [c.nickname, lit "=", ch.name, ch.getMembers.foldl (appendName s ch) []] } := by
  have hne : c.nickname ≠ [] := (isToken_of_nick hnick).ne_nil
  have hshape : nameReply s c ch = lit ":" ++ serverName ++ lit " " ++ lit "353" ++
      spaced [c.nickname, lit "=", ch.name] ++ lit " :" ++
      ch.getMembers.foldl (appendName s ch) [] ++ crlf := by
    rw [nameReply, numericReply, replyTarget, if_neg hne, if_neg (by simp [lit]),
      show lit "= " = lit "=" ++ [chr ' '] from rfl, show lit " " = [chr ' '] from rfl]
    simp [spaced]
  have htokens : ∀ token ∈ [c.nickname, lit "=", ch.name], IsToken token := by
    simp only [List.mem_cons, List.not_mem_nil, or_false]
    rintro token (rfl | rfl | rfl)
    · exact isToken_of_nick hnick
    · decide
    · exact hname
  rw [hshape, parse_text (by decide) (by decide) htokens,
    show upperCommand (lit "353") = lit "353" by decide]
  rfl

theorem heard_nameReply (channel : Str) {s : ServerState} {ch : Channel}
    (hnick : isValidNickname c.nickname = true) (hname : IsToken ch.name) :
    heard channel (nameReply s c ch) = if caseFold ch.name = caseFold channel then
      some (.names (ch.getMembers.foldl (appendName s ch) [])) else none := by
  rw [heard, parse_nameReply hnick hname]
  simp [Message.news, Message.isAbout, Message.getSingleParam]

end Ircserv
