import Ircserv.Dispatch
import Ircserv.Proofs.Numbers
import Ircserv.Proofs.Replies
import Ircserv.Proofs.Nicks

/-!
# The bytes of a reply

The server's own bytes in a reply are printable: literals, numbers, nicknames and hosts. Of any
other byte a reply has before its CR LF no more than the strings it is built from have together
(`Ends`), and what the parser makes of a line has no more of it than the line (`parse_within`).
-/

open Std

namespace Ircserv

open ReplyBuilder

/-- The characters from space to tilde. -/
def isPrintable (c : UInt8) : Bool := chr ' ' ≤ c && c ≤ chr '~'

/-- The string has no more of any byte than the source, the printable ones aside. -/
def Within (src s : Str) : Prop := ∀ b, isPrintable b = false → s.count b ≤ src.count b

/-- A message is CR LF after a string within the source. -/
def Ends (src m : Str) : Prop := ∃ body, m = body ++ crlf ∧ Within src body

variable {s t src src' : Str} {b : UInt8}

theorem count_printable (h : s.all isPrintable = true) (hb : isPrintable b = false) :
    s.count b = 0 := by
  refine List.count_eq_zero.2 fun hmem => ?_
  rw [List.all_eq_true.1 h b hmem] at hb
  cases hb

/-- A literal of the source. -/
theorem printable_literal {cs : List Char} (h : cs.all (fun c => isPrintable (chr c)) = true) :
    (lit (String.ofList cs)).all isPrintable = true := by
  rw [lit, String.toList_ofList, List.all_map]
  exact h

theorem count_literal {cs : List Char} (h : cs.all (fun c => isPrintable (chr c)) = true)
    (hb : isPrintable b = false) : (lit (String.ofList cs)).count b = 0 :=
  count_printable (printable_literal h) hb

@[simp] theorem count_colon (hb : isPrintable b = false) : (lit ":").count b = 0 :=
  count_literal (by decide) hb

@[simp] theorem count_space (hb : isPrintable b = false) : (lit " ").count b = 0 :=
  count_literal (by decide) hb

@[simp] theorem count_trailing (hb : isPrintable b = false) : (lit " :").count b = 0 :=
  count_literal (by decide) hb

@[simp] theorem count_serverName (hb : isPrintable b = false) : serverName.count b = 0 :=
  count_literal (by decide) hb

namespace Within

theorem refl (s : Str) : Within s s := fun _ _ => Nat.le_refl _

theorem trans (h : Within src s) (ht : Within s t) : Within src t := fun b hb =>
  (ht b hb).trans (h b hb)

theorem of_printable (h : s.all isPrintable = true) : Within src s := fun b hb => by
  rw [count_printable h hb]
  exact Nat.zero_le _

theorem nil : Within src [] := of_printable rfl

theorem of_sublist (h : s.Sublist src) : Within src s := fun b _ => h.count_le b

theorem append (hs : Within src s) (ht : Within src' t) : Within (src ++ src') (s ++ t) :=
  fun b hb => by
    rw [List.count_append, List.count_append]
    exact Nat.add_le_add (hs b hb) (ht b hb)

/-- What the source lacks the string lacks too. -/
theorem not_mem (h : Within src s) (hb : isPrintable b = false) (hsrc : b ∉ src) : b ∉ s := by
  have hcount := h b hb
  rw [List.count_eq_zero.2 hsrc] at hcount
  exact List.count_eq_zero.1 (Nat.le_zero.1 hcount)

end Within

theorem Ends.mono {m : Str} (h : Ends src m) (hsrc : Within src' src) : Ends src' m := by
  obtain ⟨body, hm, hbody⟩ := h
  exact ⟨body, hm, hsrc.trans hbody⟩

theorem isPrintable_of_isDigit : ∀ b : UInt8, isDigit b = true → isPrintable b = true :=
  forall_byte (by decide +kernel)

theorem isPrintable_of_isNicknameChar :
    ∀ b : UInt8, isNicknameChar b = true → isPrintable b = true := forall_byte (by decide +kernel)

/-- An upper case letter is printable, and no other byte is made. -/
theorem toupper_cases :
    ∀ b : UInt8, isPrintable (Parser.toupper b) = true ∨ Parser.toupper b = b :=
  forall_byte (by decide +kernel)

theorem printable_of_isValidNickname (h : isValidNickname s = true) : s.all isPrintable = true := by
  cases s with
  | nil => rfl
  | cons c cs =>
    rw [isValidNickname] at h
    split_ifs at h with hlen hfirst
    have hc : isNicknameChar c = true := by
      rw [isNicknameChar]
      revert hfirst
      cases isLetter c <;> cases isSpecial c <;> simp
    rw [List.all_cons, isPrintable_of_isNicknameChar c hc, Bool.true_and, List.all_eq_true]
    exact fun b hb => isPrintable_of_isNicknameChar b (List.all_eq_true.1 h b hb)

theorem printable_intToString {n : Int} (h : 0 ≤ n) : (intToString n).all isPrintable = true := by
  rw [List.all_eq_true]
  intro b hb
  exact isPrintable_of_isDigit b ((ChannelCommandHandler.intToString_spec h).2.1 b hb)

/-! ### What the parser makes of a line -/

/-- The parts of a message that a reply can have. -/
def Message.fields (msg : Message) : Str := msg.command ++ msg.params.flatten

namespace Message

variable (msg : Message)

theorem getSingleParam_sublist (index : Nat) :
    (msg.getSingleParam index).Sublist msg.params.flatten := by
  rw [getSingleParam, List.getD_eq_getElem?_getD]
  rcases hp : msg.params[index]? with _ | param
  · exact List.nil_sublist _
  · exact List.sublist_flatten_of_mem (List.mem_of_getElem? hp)

theorem within_command : Within msg.fields msg.command :=
  .of_sublist (List.sublist_append_left _ _)

theorem within_param (index : Nat) : Within msg.fields (msg.getSingleParam index) :=
  .of_sublist ((msg.getSingleParam_sublist index).trans (List.sublist_append_right _ _))

/-- The first parameters are different parts of the message. -/
theorem count_params_le (b : UInt8) :
    (msg.getSingleParam 0).count b + (msg.getSingleParam 1).count b + (msg.getSingleParam 2).count b ≤
      msg.fields.count b := by
  simp only [fields, getSingleParam, List.count_append]
  rcases msg.params with _ | ⟨p, _ | ⟨q, _ | ⟨r, rest⟩⟩⟩
  all_goals
    simp only [List.getD_nil, List.getD_cons_zero, List.getD_cons_succ, List.flatten_cons,
      List.flatten_nil, List.count_append, List.count_nil]
    omega

end Message

namespace Parser

/-- The token and what follows it are the input. -/
theorem readToken_fst_append (input : Str) :
    (readToken input).1 ++ (readToken input).2 = input := by
  rw [readToken, List.span_eq_takeWhile_dropWhile]
  exact List.takeWhile_append_dropWhile

theorem readToken_sublist (input : Str) :
    (readToken input).1.Sublist input ∧ (readToken input).2.Sublist input := by
  rw [readToken, List.span_eq_takeWhile_dropWhile]
  exact ⟨List.takeWhile_sublist _, List.dropWhile_sublist _⟩

theorem skipSeparators_sublist (input : Str) : (skipSeparators input).Sublist input :=
  List.dropWhile_sublist _

theorem readPrefix_sublist {input sender rest : Str} (h : readPrefix input = some (sender, rest)) :
    rest.Sublist input := by
  have hskip := skipSeparators_sublist input
  unfold readPrefix at h
  split at h
  · cases h
    exact List.nil_sublist _
  · rename_i c tail heq
    rw [heq] at hskip
    split_ifs at h with hcolon
    · cases h
      exact hskip
    · have htail : (readToken tail).2.Sublist input :=
        (readToken_sublist tail).2.trans ((List.sublist_cons_self c tail).trans hskip)
      generalize readToken tail = r at h htail
      obtain ⟨token, after⟩ := r
      dsimp only at h
      split_ifs at h
      cases h
      exact (skipSeparators_sublist _).trans htail

theorem readParams_sublist : ∀ (fuel : Nat) (input : Str),
    (readParams fuel input).flatten.Sublist input
  | 0, input => List.nil_sublist _
  | fuel + 1, input => by
    have hskip := skipSeparators_sublist input
    unfold readParams
    split
    · exact List.nil_sublist _
    · rename_i c rest heq
      rw [heq] at hskip
      split_ifs
      · rw [List.flatten_singleton]
        exact (List.sublist_cons_self _ _).trans hskip
      · refine List.Sublist.trans ?_ hskip
        rw [List.flatten_cons]
        conv_rhs => rw [← readToken_fst_append (c :: rest)]
        exact (List.Sublist.refl _).append (readParams_sublist fuel _)

theorem upperCommand_within (command : Str) : Within command (upperCommand command) := by
  intro b hb
  induction command with
  | nil => exact Nat.le_refl _
  | cons c command ih =>
    rw [upperCommand, List.map_cons, List.count_cons, List.count_cons]
    refine Nat.add_le_add ih ?_
    rcases toupper_cases c with hprint | hsame
    · have hne : toupper c ≠ b := by
        rintro rfl
        rw [hprint] at hb
        cases hb
      simp [hne]
    · rw [hsame]

/-- The parts of a message are different parts of the line. -/
theorem parse_within (line : Str) : Within line (parse line).fields := by
  have hline : (removeIrcLineTerminator line).Sublist line := by
    rw [removeIrcLineTerminator]
    split_ifs
    · exact List.take_sublist _ _
    · exact List.Sublist.refl _
  unfold parse
  dsimp only
  split
  · exact .nil
  · rename_i sender input heq
    have hinput := (readPrefix_sublist heq).trans hline
    split_ifs
    · exact .nil
    · refine (Within.of_sublist hinput).trans ?_
      conv => arg 1; rw [← readToken_fst_append input]
      exact (upperCommand_within _).append (.of_sublist (readParams_sublist _ _))

end Parser

/-! ### What the replies are built from -/

theorem sound_of_isValidChannelName (h : isValidChannelName s = true) :
    cr ∉ s ∧ lf ∉ s ∧ (0 : UInt8) ∉ s := by
  cases s with
  | nil => cases h
  | cons c cs =>
    rw [isValidChannelName] at h
    split_ifs at h with hfirst
    have hc : c = chr '#' := by
      by_contra hne
      exact hfirst (by simp [hne])
    have hnot : ∀ b, isChannelStringChar b = false → b ≠ chr '#' → b ∉ c :: cs := by
      intro b hb hhash hmem
      rcases List.mem_cons.1 hmem with rfl | hmem
      · exact hhash hc
      · have := List.all_eq_true.1 h b hmem
        rw [hb] at this
        cases this
    exact ⟨hnot _ (by decide) (by decide), hnot _ (by decide) (by decide),
      hnot _ (by decide) (by decide)⟩

theorem Client.within_getFullPrefix {c : Client} (hnick : c.nickname.all isPrintable = true)
    (hhost : c.host.all isPrintable = true) : Within c.username c.getFullPrefix := by
  intro b hb
  have hbang : (lit "!").count b = 0 := count_literal (by decide) hb
  have hat : (lit "@").count b = 0 := count_literal (by decide) hb
  simp [Client.getFullPrefix, hbang, hat, count_printable hnick hb, count_printable hhost hb]

namespace ReplyBuilder

variable {c : Client} {code target params text nick name client command : Str}

theorem printable_replyTarget (hc : c.nickname.all isPrintable = true) :
    (replyTarget c).all isPrintable = true := by
  unfold replyTarget
  split_ifs
  · exact printable_literal (by decide)
  · exact hc

theorem ends_numericReply (hcode : code.all isPrintable = true)
    (htarget : target.all isPrintable = true) :
    Ends (params ++ text) (numericReply code target params text) := by
  refine ⟨_, rfl, fun b hb => ?_⟩
  split_ifs with hparams <;>
    simp [hb, hparams, count_printable hcode hb, count_printable htarget hb]

/-- A numeric with a text of the server's own. -/
theorem ends_numeric {code text : List Char} (hc : c.nickname.all isPrintable = true)
    (hcode : code.all (fun c => isPrintable (chr c)) = true)
    (htext : text.all (fun c => isPrintable (chr c)) = true) :
    Ends params (numericReply (lit (String.ofList code)) (replyTarget c) params
      (lit (String.ofList text))) := by
  refine (ends_numericReply (printable_literal hcode) (printable_replyTarget hc)).mono ?_
  intro b hb
  simp [count_literal htext hb]

section Errors

variable (hc : c.nickname.all isPrintable = true)
include hc

theorem ends_needMoreParams : Ends command (needMoreParams c command) :=
  ends_numeric hc (by decide) (by decide)

theorem ends_alreadyRegistered : Ends [] (alreadyRegistered c) :=
  ends_numeric hc (by decide) (by decide)

theorem ends_erroneousNickname : Ends nick (erroneousNickname c nick) :=
  ends_numeric hc (by decide) (by decide)

theorem ends_noSuchNick : Ends nick (noSuchNick c nick) := ends_numeric hc (by decide) (by decide)

theorem ends_noSuchChannel : Ends name (noSuchChannel c name) :=
  ends_numeric hc (by decide) (by decide)

theorem ends_noTopic : Ends name (noTopic c name) := ends_numeric hc (by decide) (by decide)

theorem ends_endOfNames : Ends name (endOfNames c name) := ends_numeric hc (by decide) (by decide)

theorem ends_cannotSendToChan : Ends name (cannotSendToChan c name) :=
  ends_numeric hc (by decide) (by decide)

theorem ends_userNotInChannel : Ends name (userNotInChannel c name) :=
  ends_numeric hc (by decide) (by decide)

theorem ends_notOnChannel : Ends name (notOnChannel c name) :=
  ends_numeric hc (by decide) (by decide)

theorem ends_userOnChannel : Ends (nick ++ name) (userOnChannel c nick name) :=
  (ends_numeric hc (by decide) (by decide)).mono fun b hb => by simp [hb]

theorem ends_chanOpPrivsNeeded : Ends name (chanOpPrivsNeeded c name) :=
  ends_numeric hc (by decide) (by decide)

theorem ends_channelIsFull : Ends name (channelIsFull c name) :=
  ends_numeric hc (by decide) (by decide)

theorem ends_inviteOnlyChan : Ends name (inviteOnlyChan c name) :=
  ends_numeric hc (by decide) (by decide)

theorem ends_badChannelKey : Ends name (badChannelKey c name) :=
  ends_numeric hc (by decide) (by decide)

theorem ends_noRegistered : Ends [] (noRegistered c) := ends_numeric hc (by decide) (by decide)

theorem ends_unknownCommand : Ends command (unknownCommand c command) :=
  ends_numeric hc (by decide) (by decide)

theorem ends_unknownMode : Ends text (unknownMode c text) := ends_numeric hc (by decide) (by decide)

theorem ends_invalidModeParam {modeToken modeArg : Str} :
    Ends (name ++ modeToken ++ modeArg) (invalidModeParam c name modeToken modeArg) :=
  (ends_numeric hc (by decide) (by decide)).mono fun b hb => by simp [hb]

theorem ends_topicReply : Ends (name ++ text) (topicReply c name text) :=
  ends_numericReply (printable_literal (by decide)) (printable_replyTarget hc)

theorem ends_channelModeIs {modes modeArgs : Str} :
    Ends (name ++ modes ++ modeArgs) (channelModeIs c name modes modeArgs) := by
  refine ⟨_, rfl, fun b hb => ?_⟩
  have hcode : (lit "324").count b = 0 := count_literal (by decide) hb
  have htarget := count_printable (printable_replyTarget hc) hb
  split_ifs with hargs <;> simp [hb, hcode, htarget, hargs]

theorem ends_inviting : Ends (nick ++ name) (inviting c nick name) := by
  refine ⟨_, rfl, fun b hb => ?_⟩
  have hcode : (lit "341").count b = 0 := count_literal (by decide) hb
  simp [hb, hcode, count_printable (printable_replyTarget hc) hb]

/-- The nick of the client may be printed twice, but not its username. -/
theorem ends_welcome (hhost : c.host.all isPrintable = true) : Ends c.username (welcome c) := by
  refine (ends_numericReply (printable_literal (by decide)) hc).mono fun b hb => ?_
  have htext : (lit "Welcome to the IRC Network ").count b = 0 := count_literal (by decide) hb
  simpa [htext] using Client.within_getFullPrefix hc hhost b hb

end Errors

theorem ends_passwordMismatch : Ends [] passwordMismatch :=
  (ends_numericReply (printable_literal (by decide)) (printable_literal (by decide))).mono
    fun b hb => (count_literal (by decide) hb).le

theorem ends_nickInUse : Ends nick (nickInUse nick) :=
  (ends_numericReply (printable_literal (by decide)) (printable_literal (by decide))).mono
    fun b hb => by
      have htext : (lit "Nickname is already in use").count b = 0 := count_literal (by decide) hb
      simp [htext]

theorem ends_pong : Ends text (pong text) := by
  refine ⟨_, rfl, fun b hb => ?_⟩
  have hcommand : (lit " PONG ").count b = 0 := count_literal (by decide) hb
  simp [hb, hcommand]

theorem ends_join : Ends (client ++ command ++ name) (join client command name) :=
  ⟨_, rfl, fun b hb => by simp [hb]⟩

theorem ends_relayed : Ends (client ++ command ++ target ++ text)
    (relayed client command target text) := ⟨_, rfl, fun b hb => by simp [hb]⟩

theorem ends_invite : Ends (client ++ target ++ name) (invite client target name) := by
  refine ⟨_, rfl, fun b hb => ?_⟩
  have hcommand : (lit " INVITE ").count b = 0 := count_literal (by decide) hb
  simp [hb, hcommand]

theorem ends_quit : Ends (client ++ text) (quit client text) := by
  refine ⟨_, rfl, fun b hb => ?_⟩
  have hcommand : (lit " QUIT :").count b = 0 := count_literal (by decide) hb
  simp [hb, hcommand]

theorem ends_kick : Ends (client ++ name ++ target ++ text) (kick client name target text) := by
  refine ⟨_, rfl, fun b hb => ?_⟩
  have hcommand : (lit " KICK ").count b = 0 := count_literal (by decide) hb
  simp [hb, hcommand]

theorem ends_mode {modeToken modeArg : Str} :
    Ends (client ++ name ++ modeToken ++ modeArg) (mode client name modeToken modeArg) := by
  refine ⟨_, rfl, fun b hb => ?_⟩
  have hcommand : (lit " MODE ").count b = 0 := count_literal (by decide) hb
  split_ifs with harg <;> simp [hb, hcommand, harg]

end ReplyBuilder

/-! ### Alphabets -/

/-- A set of bytes with the printable ones. -/
structure Alphabet where
  Mem : UInt8 → Prop
  printable : ∀ b, isPrintable b = true → Mem b

/-- The bytes of the string are in the alphabet. -/
def Over (A : Alphabet) (s : Str) : Prop := ∀ b ∈ s, A.Mem b

/-- A message is a string over the alphabet and CR LF. -/
def Framed (A : Alphabet) (m : Str) : Prop := ∃ body, m = body ++ crlf ∧ Over A body

variable {A B : Alphabet}

namespace Over

theorem nil : Over A [] := fun _ h => nomatch h

theorem append (hs : Over A s) (ht : Over A t) : Over A (s ++ t) := fun b hb =>
  (List.mem_append.1 hb).elim (hs b) (ht b)

theorem subset (h : Over A s) (hts : t ⊆ s) : Over A t := fun b hb => h b (hts hb)

/-- A string within a source over the alphabet. -/
theorem within (h : Over A src) (hs : Within src s) : Over A s := by
  intro b hb
  by_cases hprint : isPrintable b = true
  · exact A.printable b hprint
  · by_contra hnot
    exact hs.not_mem (Bool.eq_false_iff.2 hprint) (fun hmem => hnot (h b hmem)) hb

theorem param {msg : Message} (h : Over A msg.fields) (index : Nat) :
    Over A (msg.getSingleParam index) := h.within (msg.within_param index)

end Over

theorem Ends.framed {m : Str} (h : Ends src m) (hsrc : Over A src) : Framed A m := by
  obtain ⟨body, hm, hbody⟩ := h
  exact ⟨body, hm, hsrc.within hbody⟩

end Ircserv
