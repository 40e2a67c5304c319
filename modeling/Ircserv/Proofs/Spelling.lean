import Ircserv.Spelling
import Ircserv.Proofs.Told
import Ircserv.Proofs.Targets
import Ircserv.Proofs.Texts

/-!
# Names are found in every spelling

The handlers look names up without their letter case, and what they check of a name does not depend
on it, but for the tilde, which no nick has. So a command does the same with another spelling of a
name, and only the spelling that is printed differs (`handleCommand_alike`).
-/

open Std

namespace Ircserv

open ServerState CommandResult Ircserv.Parser ReplyBuilder

variable {s : ServerState} {c : Client} {p : Addr} {fd : Fd} {msg msg' : Message} {old new : Str}
  {n n' x x' line line' : Str}

namespace Respelt

theorem caseFold (h : Respelt old new x x') (ho : caseFold new = caseFold old) :
    caseFold x' = caseFold x := by
  induction h with
  | same => rfl
  | echo => exact ho
  | append _ _ hx hy =>
    unfold Ircserv.caseFold at hx hy ⊢
    rw [List.map_append, List.map_append, hx, hy]

theorem eq_nil_iff (h : Respelt old new x x') (ho : Ircserv.caseFold new = Ircserv.caseFold old) :
    x' = [] ↔ x = [] := by
  rw [← caseFold_eq_nil, h.caseFold ho, caseFold_eq_nil]

theorem ite {c : Prop} [Decidable c] {y y' : Str} (hx : Respelt old new x x')
    (hy : Respelt old new y y') : Respelt old new (if c then x else y) (if c then x' else y') := by
  split_ifs
  · exact hx
  · exact hy

end Respelt

/-- A channel is found, and its name is valid, in every spelling. -/
theorem getChannel_congr (h : caseFold n' = caseFold n) : s.getChannel n' = s.getChannel n :=
  ExtTreeMap.getElem?_congr ((ircCmp_eq_iff _ _).2 h)

theorem getClientByNick_congr (h : caseFold n' = caseFold n) :
    s.getClientByNick n' = s.getClientByNick n :=
  ExtTreeMap.getElem?_congr ((ircCmp_eq_iff _ _).2 h)

theorem erase_congr {α : Type} (m : IrcMap α) (h : caseFold n' = caseFold n) :
    m.erase n' = m.erase n := by
  refine ExtTreeMap.ext_getKey_getElem? (fun k _ _ => ?_) fun k => ?_
  · rw [ExtTreeMap.getKey_erase, ExtTreeMap.getKey_erase]
  · simp only [ExtTreeMap.getElem?_erase, ircCmp_eq_iff, h]

theorem head?_hash_congr (h : caseFold n' = caseFold n) :
    n'.head? = some (chr '#') ↔ n.head? = some (chr '#') := by
  have hhash : ∀ n : Str, n.head? = some (chr '#') ↔ (caseFold n).head? = some (chr '#') := by
    intro n
    rw [caseFold, List.head?_map]
    cases n with
    | nil => simp
    | cons c cs => simp [ircTolower_eq_hash]
  rw [hhash, h, ← hhash]

/-- A client joins a channel that there is by any spelling. -/
theorem addClientToChannel_congr {a : Addr} (ha : s.getChannel n = some a)
    (h : caseFold n' = caseFold n) (addr q : Addr) :
    s.addClientToChannel addr q n' = s.addClientToChannel addr q n := by
  have ha' : s.getChannel n' = some a := (getChannel_congr h).trans ha
  unfold addClientToChannel getOrCreateChannel
  rw [ha, ha']

theorem removeClientFromChannel_congr (q : Addr) (h : caseFold n' = caseFold n) :
    s.removeClientFromChannel q n' = s.removeClientFromChannel q n := by
  unfold removeClientFromChannel
  rw [getChannel_congr h]
  split
  · rfl
  · have hfound : ∀ t : ServerState, t.removeChannelIfEmpty n' = t.removeChannelIfEmpty n := by
      intro t
      have hget : t.channels[n']? = t.channels[n]? := getChannel_congr h
      unfold removeChannelIfEmpty
      rw [hget]
      split
      · rfl
      · rw [erase_congr _ h]
    simp only [hfound]

theorem isNicknameChar_ircTolower : ∀ c : UInt8, c ≠ chr '~' →
    isNicknameChar (ircTolower c) = isNicknameChar c ∧
      (isLetter (ircTolower c) || isSpecial (ircTolower c)) = (isLetter c || isSpecial c) :=
  forall_byte (by decide +kernel)

/-- Only the tilde is no character of a nick while its other case, the caret, is one. -/
theorem isValidNickname_caseFold (h : chr '~' ∉ n) :
    isValidNickname (caseFold n) = isValidNickname n := by
  cases n with
  | nil => rfl
  | cons c cs =>
    have hc : c ≠ chr '~' := fun hc => h (hc ▸ List.mem_cons_self)
    have hall : (caseFold cs).all isNicknameChar = cs.all isNicknameChar := by
      rw [caseFold, List.all_map, Bool.eq_iff_iff, List.all_eq_true, List.all_eq_true]
      refine forall₂_congr fun d hd => ?_
      have htilde : d ≠ chr '~' := fun htilde => h (htilde ▸ List.mem_cons_of_mem c hd)
      rw [Function.comp_apply, (isNicknameChar_ircTolower d htilde).1]
    have hlen : (caseFold (c :: cs)).length = (c :: cs).length := List.length_map _
    show (if 9 < (caseFold (c :: cs)).length then false
      else if !isLetter (ircTolower c) && !isSpecial (ircTolower c) then false
      else (caseFold cs).all isNicknameChar) = _
    rw [hlen, hall, ← Bool.not_or, (isNicknameChar_ircTolower c hc).2, Bool.not_or]
    rfl

theorem isValidNickname_congr (h : caseFold n' = caseFold n) (hn : chr '~' ∉ n)
    (hn' : chr '~' ∉ n') : isValidNickname n' = isValidNickname n := by
  rw [← isValidNickname_caseFold hn', h, isValidNickname_caseFold hn]

/-- Lines with one sender and one command that are the same but for the spelling. -/
inductive Echo (old new : Str) : Str → Str → Prop
  | mk {sender command rest rest' : Str} (hsender : chr ' ' ∉ sender) (hcommand : IsToken command)
      (h : Respelt old new rest rest') :
      Echo old new (lit ":" ++ sender ++ lit " " ++ command ++ lit " " ++ rest ++ crlf)
        (lit ":" ++ sender ++ lit " " ++ command ++ lit " " ++ rest' ++ crlf)

theorem Echo.respelt (h : Echo old new line line') : Respelt old new line line' := by
  cases h with
  | mk _ _ h => exact .append (.append (.same _) h) (.same _)

/-- They are read as the same command. -/
theorem Echo.command (h : Echo old new line line') :
    (parse line').command = (parse line).command := by
  cases h with
  | @mk sender command rest rest' hsender hcommand h =>
    have hread : ∀ rest : Str, (parse (lit ":" ++ sender ++ lit " " ++ command ++ lit " " ++ rest ++
        crlf)).command = upperCommand command := by
      intro rest
      have hshape : lit ":" ++ sender ++ lit " " ++ command ++ lit " " ++ rest ++ crlf =
          lit ":" ++ sender ++ lit " " ++ command ++ chr ' ' :: rest ++ crlf := by
        rw [show lit " " = [chr ' '] from rfl]
        simp only [List.append_assoc, List.singleton_append]
      rw [hshape, parse_line hsender hcommand (endsToken_space rest)]
    rw [hread, hread]

section Lines

variable (ho : caseFold new = caseFold old) {code params params' text text' target command : Str}

include ho in
theorem echo_numericReply (hcode : IsToken code) (hparams : Respelt old new params params')
    (htext : Respelt old new text text') :
    Echo old new (numericReply code target params text) (numericReply code target params' text') := by
  have hshape : ∀ params text, numericReply code target params text =
      lit ":" ++ serverName ++ lit " " ++ code ++ lit " " ++
        (target ++ (if params = [] then [] else lit " " ++ params) ++ (lit " :" ++ text)) ++
          crlf := by
    intro params text
    unfold numericReply
    split_ifs <;> simp only [List.append_assoc, List.append_nil]
  rw [hshape, hshape]
  simp only [hparams.eq_nil_iff ho]
  exact .mk (by decide) hcode (.append
    (.append (.same _) (.ite (.same _) (.append (.same _) hparams))) (.append (.same _) htext))

theorem echo_join (hc : c.Plain) (hcommand : IsToken command) (h : Respelt old new n n') :
    Echo old new (join c.getFullPrefix command n) (join c.getFullPrefix command n') := by
  have hshape : ∀ n, join c.getFullPrefix command n =
      lit ":" ++ c.getFullPrefix ++ lit " " ++ command ++ lit " " ++ n ++ crlf := fun n => by
    simp only [join, List.append_assoc]
  rw [hshape, hshape]
  exact .mk hc.space hcommand h

theorem echo_relayed (hc : c.Plain) (hcommand : IsToken command) (h : Respelt old new n n')
    (text : Str) : Echo old new (relayed c.getFullPrefix command n text)
      (relayed c.getFullPrefix command n' text) := by
  have hshape : ∀ n, relayed c.getFullPrefix command n text =
      lit ":" ++ c.getFullPrefix ++ lit " " ++ command ++ lit " " ++ (n ++ (lit " :" ++ text)) ++
        crlf := fun n => by
    simp only [relayed, List.append_assoc]
  rw [hshape, hshape]
  exact .mk hc.space hcommand (.append h (.same _))

theorem echo_kick (hc : c.Plain) (h : Respelt old new n n') (hx : Respelt old new x x')
    (reason : Str) :
    Echo old new (kick c.getFullPrefix n x reason) (kick c.getFullPrefix n' x' reason) := by
  have hshape : ∀ n x, kick c.getFullPrefix n x reason =
      lit ":" ++ c.getFullPrefix ++ lit " " ++ lit "KICK" ++ lit " " ++
        (n ++ lit " " ++ x ++ (lit " :" ++ reason)) ++ crlf := by
    intro n x
    rw [kick, show lit " KICK " = lit " " ++ (lit "KICK" ++ lit " ") from rfl]
    simp only [List.append_assoc]
  rw [hshape, hshape]
  exact .mk hc.space (by decide) (.append (.append (.append h (.same _)) hx) (.same _))

theorem echo_invite (hc : c.Plain) (h : Respelt old new n n') (hx : Respelt old new x x') :
    Echo old new (invite c.getFullPrefix x n) (invite c.getFullPrefix x' n') := by
  have hshape : ∀ n x, invite c.getFullPrefix x n =
      lit ":" ++ c.getFullPrefix ++ lit " " ++ lit "INVITE" ++ lit " " ++ (x ++ (lit " :" ++ n)) ++
        crlf := by
    intro n x
    rw [invite, show lit " INVITE " = lit " " ++ (lit "INVITE" ++ lit " ") from rfl]
    simp only [List.append_assoc]
  rw [hshape, hshape]
  exact .mk hc.space (by decide) (.append hx (.append (.same _) h))

theorem echo_inviting (h : Respelt old new n n') (hx : Respelt old new x x') :
    Echo old new (inviting c x n) (inviting c x' n') := by
  have hshape : ∀ n x, inviting c x n = lit ":" ++ serverName ++ lit " " ++ lit "341" ++ lit " " ++
      (replyTarget c ++ lit " " ++ (x ++ (lit " " ++ n))) ++ crlf := fun n x => by
    simp only [inviting, List.append_assoc]
  rw [hshape, hshape]
  exact .mk (by decide) (by decide) (.append (.same _) (.append hx (.append (.same _) h)))

theorem echo_mode (ho : caseFold new = caseFold old) (hc : c.Plain) (h : Respelt old new n n')
    (token : Str) (hx : Respelt old new x x') :
    Echo old new (mode c.getFullPrefix n token x) (mode c.getFullPrefix n' token x') := by
  have hshape : ∀ n x, mode c.getFullPrefix n token x =
      lit ":" ++ c.getFullPrefix ++ lit " " ++ lit "MODE" ++ lit " " ++
        (n ++ (lit " " ++ token) ++ if x = [] then [] else lit " " ++ x) ++ crlf := by
    intro n x
    rw [mode, show lit " MODE " = lit " " ++ (lit "MODE" ++ lit " ") from rfl]
    split_ifs <;> simp only [List.append_assoc, List.append_nil]
  rw [hshape, hshape]
  simp only [hx.eq_nil_iff ho]
  exact .mk hc.space (by decide)
    (.append (.append h (.same _)) (.ite (.same _) (.append (.same _) hx)))

theorem echo_channelModeIs (h : Respelt old new n n') (modes args : Str) :
    Echo old new (channelModeIs c n modes args) (channelModeIs c n' modes args) := by
  have hshape : ∀ n, channelModeIs c n modes args =
      lit ":" ++ serverName ++ lit " " ++ lit "324" ++ lit " " ++ (replyTarget c ++ lit " " ++
        (n ++ (lit " " ++ modes ++ if args = [] then [] else lit " " ++ args))) ++ crlf := by
    intro n
    unfold channelModeIs
    split_ifs <;> simp only [List.append_assoc, List.append_nil]
  rw [hshape, hshape]
  exact .mk (by decide) (by decide) (.append (.same _) (.append h (.same _)))

end Lines

/-- The replies go to the same clients, and are the same but for the spelling. -/
structure Echoes (old new : Str) (r r' : CommandResult) : Prop where
  disconnects : r'.shouldDisconnect = r.shouldDisconnect
  replies : List.Forall₂ (fun m m' => m'.fd = m.fd ∧ Echo old new m.message m'.message)
    r.replies r'.replies

namespace Echoes

variable {r r' : CommandResult}

theorem nil : Echoes old new {} {} := ⟨rfl, .nil⟩

theorem addReply (h : Echoes old new r r') (fd : Fd) (hline : Echo old new line line') :
    Echoes old new (r.addReply fd line) (r'.addReply fd line') :=
  ⟨h.disconnects, List.rel_append h.replies (.cons ⟨rfl, hline⟩ .nil)⟩

theorem reply (fd : Fd) (hline : Echo old new line line') :
    Echoes old new (CommandResult.reply fd line) (CommandResult.reply fd line') :=
  nil.addReply fd hline

theorem members (hline : Echo old new line line') (s : ServerState) (ps : List Addr)
    (exceptFd : Fd) : Echoes old new (addRepliesToMembers {} s ps line exceptFd)
      (addRepliesToMembers {} s ps line' exceptFd) := by
  rw [addRepliesToMembers_eq, addRepliesToMembers_eq]
  refine ⟨rfl, ?_⟩
  rw [List.nil_append, List.nil_append, List.forall₂_map_left_iff, List.forall₂_map_right_iff]
  exact List.forall₂_same.2 fun _ _ => ⟨rfl, hline⟩

end Echoes

/-- The handlers did the same but for the spelling. -/
structure Alike (old new : Str) (x x' : Handled) : Prop where
  state : x'.2 = x.2
  echoes : Echoes old new x.1 x'.1

namespace Alike

variable {y y' : Handled}

theorem ite {c c' : Prop} [Decidable c] [Decidable c'] {x x' : Handled} (hc : c' ↔ c)
    (hx : c → Alike old new x x') (hy : ¬ c → Alike old new y y') :
    Alike old new (if c then x else y) (if c' then x' else y') := by
  by_cases h : c
  · rw [if_pos h, if_pos (hc.2 h)]
    exact hx h
  · rw [if_neg h, if_neg (mt hc.1 h)]
    exact hy h

variable (ho : caseFold new = caseFold old) {code target params params' text : Str}

include ho

theorem refuse (hcode : IsToken code) (hparams : Respelt old new params params') (fd : Fd)
    (s : ServerState) : Alike old new (reply fd (numericReply code target params text), s)
      (reply fd (numericReply code target params' text), s) :=
  ⟨rfl, .reply fd (echo_numericReply ho hcode hparams (.same _))⟩

/-- A check that both make, and that gives an error where it fails. -/
theorem check {c : Prop} [Decidable c] (hcode : IsToken code)
    (hparams : Respelt old new params params') (hy : ¬ c → Alike old new y y') :
    Alike old new (if c then (reply fd (numericReply code target params text), s) else y)
      (if c then (reply fd (numericReply code target params' text), s) else y') :=
  ite Iff.rfl (fun _ => refuse ho hcode hparams fd s) hy

end Alike

/-- The messages are the same but for the spelling. -/
structure Message.Alike (old new : Str) (msg msg' : Message) : Prop where
  command : msg'.command = msg.command
  count : msg'.getParamCount = msg.getParamCount
  param : ∀ i, Respelt old new (msg.getSingleParam i) (msg'.getSingleParam i)

namespace Message.Alike

variable (h : Message.Alike old new msg msg') (ho : caseFold new = caseFold old)

include h

theorem hasParam (i : Nat) : msg'.hasParam i = msg.hasParam i := by
  have hcount := h.count
  rw [getParamCount, getParamCount] at hcount
  rw [Message.hasParam, Message.hasParam, hcount]

include ho

theorem isValidChannelName (i : Nat) : Ircserv.isValidChannelName (msg'.getSingleParam i) =
    Ircserv.isValidChannelName (msg.getSingleParam i) :=
  isValidChannelName_congr ((h.param i).caseFold ho)

theorem getChannel (s : ServerState) (i : Nat) :
    s.getChannel (msg'.getSingleParam i) = s.getChannel (msg.getSingleParam i) :=
  getChannel_congr ((h.param i).caseFold ho)

theorem getClientByNick (s : ServerState) (i : Nat) :
    s.getClientByNick (msg'.getSingleParam i) = s.getClientByNick (msg.getSingleParam i) :=
  getClientByNick_congr ((h.param i).caseFold ho)

end Message.Alike

section Handlers

variable (ho : caseFold new = caseFold old) (h : Message.Alike old new msg msg')
  (hplain : (s.clientAt p).registered = true → (s.clientAt p).Plain)

include ho h hplain

namespace ChannelCommandHandler

theorem handleKick_alike
    (hnick : isValidNickname (msg'.getSingleParam 1) = isValidNickname (msg.getSingleParam 1))
    (hreason : msg'.getSingleParam 2 = msg.getSingleParam 2) :
    Alike old new (handleKick fd msg s p) (handleKick fd msg' s p) := by
  unfold handleKick
  dsimp only
  rw [h.count, h.isValidChannelName ho, h.getChannel ho, hnick, h.getClientByNick ho, h.hasParam,
    hreason]
  refine .check ho (by decide) (.same _) fun hreg => ?_
  rw [Bool.not_eq_true', Bool.not_eq_false] at hreg
  refine .check ho (by decide) (.same _) fun _ => ?_
  refine .check ho (by decide) (h.param 0) fun _ => ?_
  rcases s.getChannel (msg.getSingleParam 0) with _ | a
  · exact .refuse ho (by decide) (h.param 0) fd s
  refine .check ho (by decide) (h.param 0) fun _ => ?_
  refine .check ho (by decide) (h.param 0) fun _ => ?_
  refine .check ho (by decide) (h.param 1) fun _ => ?_
  rcases s.getClientByNick (msg.getSingleParam 1) with _ | q
  · exact .refuse ho (by decide) (h.param 1) fd s
  refine .check ho (by decide) (h.param 0) fun _ => ?_
  exact ⟨removeClientFromChannel_congr q ((h.param 0).caseFold ho),
    .members (echo_kick (hplain hreg) (h.param 0) (h.param 1) _) s _ _⟩

theorem handleInvite_alike
    (hnick : isValidNickname (msg'.getSingleParam 0) = isValidNickname (msg.getSingleParam 0)) :
    Alike old new (handleInvite fd msg s p) (handleInvite fd msg' s p) := by
  unfold handleInvite
  dsimp only
  rw [h.count, h.isValidChannelName ho, h.getChannel ho, hnick, h.getClientByNick ho]
  refine .check ho (by decide) (.same _) fun hreg => ?_
  rw [Bool.not_eq_true', Bool.not_eq_false] at hreg
  refine .check ho (by decide) (.same _) fun _ => ?_
  refine .check ho (by decide) (h.param 0) fun _ => ?_
  refine .check ho (by decide) (h.param 1) fun _ => ?_
  rcases s.getClientByNick (msg.getSingleParam 0) with _ | q
  · exact .refuse ho (by decide) (h.param 0) fd s
  rcases s.getChannel (msg.getSingleParam 1) with _ | a
  · exact .refuse ho (by decide) (h.param 1) fd s
  refine .check ho (by decide) (h.param 1) fun _ => ?_
  refine .check ho (by decide) (.append (.append (h.param 0) (.same _)) (h.param 1)) fun _ => ?_
  refine .check ho (by decide) (h.param 1) fun _ => ?_
  exact ⟨rfl, .addReply (.reply fd (echo_inviting (h.param 1) (h.param 0))) _
    (echo_invite (hplain hreg) (h.param 1) (h.param 0))⟩

theorem handleTopic_alike (htopic : msg'.getSingleParam 1 = msg.getSingleParam 1) :
    Alike old new (handleTopic fd msg s p) (handleTopic fd msg' s p) := by
  unfold handleTopic
  dsimp only
  rw [h.hasParam 0, h.hasParam 1, h.isValidChannelName ho, h.getChannel ho, htopic]
  refine .check ho (by decide) (.same _) fun hreg => ?_
  rw [Bool.not_eq_true', Bool.not_eq_false] at hreg
  refine .check ho (by decide) (.same _) fun _ => ?_
  refine .check ho (by decide) (h.param 0) fun _ => ?_
  rcases s.getChannel (msg.getSingleParam 0) with _ | a
  · exact .refuse ho (by decide) (h.param 0) fd s
  refine .check ho (by decide) (h.param 0) fun _ => ?_
  refine .ite Iff.rfl (fun _ => ?_) fun _ => ?_
  · refine .check ho (by decide) (h.param 0) fun _ => ?_
    exact .refuse ho (by decide) (h.param 0) fd s
  refine .check ho (by decide) (h.param 0) fun _ => ?_
  exact ⟨rfl, .members (echo_relayed (hplain hreg) (by decide) (h.param 0) _) _ _ _⟩

theorem applyOperatorMode_alike {a : Addr} (hreg : (s.clientAt p).registered = true)
    (hnick : isValidNickname (msg'.getSingleParam 2) = isValidNickname (msg.getSingleParam 2))
    (hname : Respelt old new n n') (token : Str) :
    Alike old new (applyOperatorMode fd msg s p a n token)
      (applyOperatorMode fd msg' s p a n' token) := by
  unfold applyOperatorMode
  dsimp only
  rw [h.hasParam, hnick, h.getClientByNick ho]
  refine .check ho (by decide) (.same _) fun _ => ?_
  refine .check ho (by decide) (h.param 2) fun _ => ?_
  rcases s.getClientByNick (msg.getSingleParam 2) with _ | q
  · exact .refuse ho (by decide) (h.param 2) fd s
  refine .check ho (by decide) hname fun _ => ?_
  exact ⟨rfl, .members (echo_mode ho (hplain hreg) hname token (h.param 2)) _ _ _⟩

omit hplain in
/-- The modes are changed to the same, or an error is given that may print the name. -/
theorem changeModes_alike (harg : msg'.getSingleParam 2 = msg.getSingleParam 2)
    (hname : Respelt old new n n') (token : Str) (modes : ChannelModes) :
    (∃ line line', changeModes msg c n token modes = .error line ∧
      changeModes msg' c n' token modes = .error line' ∧ Echo old new line line') ∨
    ∃ changed, changeModes msg c n token modes = .ok changed ∧
      changeModes msg' c n' token modes = .ok changed := by
  unfold changeModes
  dsimp only
  rw [h.hasParam, harg]
  split_ifs
  · exact .inr ⟨_, rfl, rfl⟩
  · exact .inr ⟨_, rfl, rfl⟩
  · exact .inl ⟨_, _, rfl, rfl, echo_numericReply ho (by decide) (.same _) (.same _)⟩
  · exact .inr ⟨_, rfl, rfl⟩
  · exact .inr ⟨_, rfl, rfl⟩
  · exact .inl ⟨_, _, rfl, rfl, echo_numericReply ho (by decide) (.same _) (.same _)⟩
  · rcases parsePositiveLimit (msg.getSingleParam 2) with _ | limit
    · refine .inl ⟨_, _, rfl, rfl, ?_⟩
      exact echo_numericReply ho (by decide) (.append (.append (.append (.append hname (.same _))
        (.same _)) (.same _)) (.same _)) (.same _)
    · exact .inr ⟨_, rfl, rfl⟩
  · exact .inr ⟨_, rfl, rfl⟩
  · exact .inr ⟨_, rfl, rfl⟩

theorem handleMode_alike (htoken : msg'.getSingleParam 1 = msg.getSingleParam 1)
    (hnick : isValidNickname (msg'.getSingleParam 2) = isValidNickname (msg.getSingleParam 2))
    (harg : (msg.getSingleParam 1).getD 1 0 ≠ chr 'o' →
      msg'.getSingleParam 2 = msg.getSingleParam 2) :
    Alike old new (handleMode fd msg s p) (handleMode fd msg' s p) := by
  unfold handleMode
  dsimp only
  rw [h.count, h.isValidChannelName ho, h.getChannel ho, htoken]
  refine .check ho (by decide) (.same _) fun hreg => ?_
  rw [Bool.not_eq_true', Bool.not_eq_false] at hreg
  refine .check ho (by decide) (.same _) fun _ => ?_
  refine .check ho (by decide) (h.param 0) fun _ => ?_
  rcases s.getChannel (msg.getSingleParam 0) with _ | a
  · exact .refuse ho (by decide) (h.param 0) fd s
  refine .check ho (by decide) (h.param 0) fun _ => ?_
  refine .ite Iff.rfl (fun _ => ⟨rfl, .reply fd (echo_channelModeIs (h.param 0) _ _)⟩) fun _ => ?_
  refine .check ho (by decide) (h.param 0) fun _ => ?_
  refine .check ho (by decide) (.same _) fun _ => ?_
  refine .ite Iff.rfl (fun _ => ?_) fun hflag => ?_
  · exact applyOperatorMode_alike ho h hplain hreg hnick (h.param 0) _
  rcases changeModes_alike (c := s.clientAt p) ho h (harg hflag) (h.param 0) (msg.getSingleParam 1)
    (s.channelAt a).modes with ⟨line, line', hl, hl', hline⟩ | ⟨⟨modes, modeArg⟩, hm, hm'⟩
  · rw [hl, hl']
    exact ⟨rfl, .reply fd hline⟩
  · rw [hm, hm']
    exact ⟨rfl, .members (echo_mode ho (hplain hreg) (h.param 0) _ (.same _)) _ _ _⟩

end ChannelCommandHandler

namespace CommandDispatcher

theorem handlePart_alike : Alike old new (handlePart fd msg s p) (handlePart fd msg' s p) := by
  unfold handlePart
  dsimp only
  rw [h.hasParam, h.isValidChannelName ho, h.getChannel ho]
  refine .check ho (by decide) (.same _) fun hreg => ?_
  rw [Bool.not_eq_true', Bool.not_eq_false] at hreg
  refine .check ho (by decide) (.same _) fun _ => ?_
  refine .check ho (by decide) (h.param 0) fun _ => ?_
  rcases s.getChannel (msg.getSingleParam 0) with _ | a
  · exact .refuse ho (by decide) (h.param 0) fd s
  refine .check ho (by decide) (h.param 0) fun _ => ?_
  exact ⟨removeClientFromChannel_congr p ((h.param 0).caseFold ho),
    .members (echo_join (hplain hreg) (by decide) (h.param 0)) s _ _⟩

omit h hplain in
theorem replyIf_alike {code target params params' text : Str} (replyOnError : Bool)
    (hcode : IsToken code) (hparams : Respelt old new params params') (fd : Fd) (s : ServerState) :
    Alike old new (replyIf replyOnError fd (numericReply code target params text), s)
      (replyIf replyOnError fd (numericReply code target params' text), s) := by
  cases replyOnError
  · exact ⟨rfl, .nil⟩
  · exact .refuse ho hcode hparams fd s

theorem handleTextMessage_alike {command : Str} (hcommand : IsToken command)
    (hnick : isValidNickname (msg'.getSingleParam 0) = isValidNickname (msg.getSingleParam 0))
    (htext : msg'.getSingleParam 1 = msg.getSingleParam 1) (replyOnError : Bool) :
    Alike old new (handleTextMessage fd msg s p command replyOnError)
      (handleTextMessage fd msg' s p command replyOnError) := by
  have hhash : (msg'.getSingleParam 0).head? = some (chr '#') ↔
      (msg.getSingleParam 0).head? = some (chr '#') := head?_hash_congr ((h.param 0).caseFold ho)
  unfold handleTextMessage
  dsimp only
  rw [h.count, h.isValidChannelName ho, h.getChannel ho, hnick, h.getClientByNick ho, htext]
  refine .ite Iff.rfl (fun _ => replyIf_alike ho _ (by decide) (.same _) fd s) fun hreg => ?_
  rw [Bool.not_eq_true', Bool.not_eq_false] at hreg
  refine .ite Iff.rfl (fun _ => replyIf_alike ho _ (by decide) (.same _) fd s) fun _ => ?_
  refine .ite (and_congr_left' hhash) (fun _ => replyIf_alike ho _ (by decide) (h.param 0) fd s)
    fun _ => ?_
  refine .ite (and_congr_left' (not_congr hhash))
    (fun _ => replyIf_alike ho _ (by decide) (h.param 0) fd s) fun _ => ?_
  have hline : Echo old new
      (if command = lit "NOTICE" then
        notice (s.clientAt p).getFullPrefix command (msg.getSingleParam 0) (msg.getSingleParam 1)
      else privmsg (s.clientAt p).getFullPrefix command (msg.getSingleParam 0) (msg.getSingleParam 1))
      (if command = lit "NOTICE" then
        notice (s.clientAt p).getFullPrefix command (msg'.getSingleParam 0) (msg.getSingleParam 1)
      else privmsg (s.clientAt p).getFullPrefix command (msg'.getSingleParam 0)
        (msg.getSingleParam 1)) := by
    split_ifs
    · exact echo_relayed (hplain hreg) hcommand (h.param 0) _
    · exact echo_relayed (hplain hreg) hcommand (h.param 0) _
  refine .ite hhash (fun _ => ?_) fun _ => ?_
  · rcases s.getChannel (msg.getSingleParam 0) with _ | a
    · exact replyIf_alike ho _ (by decide) (h.param 0) fd s
    refine .ite Iff.rfl (fun _ => replyIf_alike ho _ (by decide) (h.param 0) fd s) fun _ => ?_
    exact ⟨rfl, .members hline s _ _⟩
  · rcases s.getClientByNick (msg.getSingleParam 0) with _ | q
    · exact replyIf_alike ho _ (by decide) (h.param 0) fd s
    exact ⟨rfl, .reply _ hline⟩

omit hplain in
theorem refuseJoin_alike (hkey : msg'.getSingleParam 1 = msg.getSingleParam 1)
    (hname : Respelt old new n n') (q : Addr) (ch : Channel) :
    (refuseJoin msg c q ch n = none ∧ refuseJoin msg' c q ch n' = none) ∨
      ∃ line line', refuseJoin msg c q ch n = some line ∧ refuseJoin msg' c q ch n' = some line' ∧
        Echo old new line line' := by
  unfold refuseJoin
  rw [h.hasParam, hkey]
  split_ifs
  · exact .inr ⟨_, _, rfl, rfl, echo_numericReply ho (by decide) hname (.same _)⟩
  · exact .inr ⟨_, _, rfl, rfl, echo_numericReply ho (by decide) hname (.same _)⟩
  · exact .inr ⟨_, _, rfl, rfl, echo_numericReply ho (by decide) hname (.same _)⟩
  · exact .inl ⟨rfl, rfl⟩

omit h hplain in
theorem joinReplies_alike (hc : (s.clientAt p).Plain) (hname : Respelt old new n n') (a : Addr) :
    Echoes old new (joinReplies fd s p a n) (joinReplies fd s p a n') := by
  have hjoin : Echoes old new
      (addRepliesToMembers {} s (s.channelAt a).getMembers
        (join (s.clientAt p).getFullPrefix (lit "JOIN") n) (-1))
      (addRepliesToMembers {} s (s.channelAt a).getMembers
        (join (s.clientAt p).getFullPrefix (lit "JOIN") n') (-1)) :=
    .members (echo_join hc (by decide) hname) s _ _
  unfold joinReplies
  dsimp only
  split_ifs
  · exact ((hjoin.addReply fd (echo_numericReply ho (by decide) hname (.same _))).addReply fd
      (echo_numericReply ho (by decide) (.same _) (.same _))).addReply fd
      (echo_numericReply ho (by decide) hname (.same _))
  · exact ((hjoin.addReply fd (echo_numericReply ho (by decide) hname (.same _))).addReply fd
      (echo_numericReply ho (by decide) (.same _) (.same _))).addReply fd
      (echo_numericReply ho (by decide) hname (.same _))

theorem handleJoin_alike {a : Addr} (ha : s.getChannel (msg.getSingleParam 0) = some a)
    (hkey : msg'.getSingleParam 1 = msg.getSingleParam 1) (addr : Addr) :
    Alike old new (handleJoin addr fd msg s p) (handleJoin addr fd msg' s p) := by
  have ha' := h.getChannel ho s 0
  rw [ha] at ha'
  obtain ⟨b, t, hadd⟩ := addClientToChannel_some s addr p (msg.getSingleParam 0)
  have hadd' := addClientToChannel_congr ha ((h.param 0).caseFold ho) addr p
  have hsame := SameClients.addClientToChannel s addr p (msg.getSingleParam 0)
  rw [hadd] at hadd' hsame
  unfold handleJoin
  dsimp only
  rw [h.hasParam, h.isValidChannelName ho, ha, ha', hadd, hadd']
  refine .check ho (by decide) (.same _) fun hreg => ?_
  rw [Bool.not_eq_true', Bool.not_eq_false] at hreg
  refine .check ho (by decide) (.same _) fun _ => ?_
  refine .check ho (by decide) (h.param 0) fun _ => ?_
  have hjoined : Alike old new (joinReplies fd t p b (msg.getSingleParam 0), t)
      (joinReplies fd t p b (msg'.getSingleParam 0), t) := by
    obtain ⟨cs, hcs⟩ := hsame.data p
    have hc : (t.clientAt p).Plain := by
      rw [hcs]
      exact ⟨(hplain hreg).nick, (hplain hreg).username, (hplain hreg).host⟩
    exact ⟨rfl, joinReplies_alike ho hc (h.param 0) b⟩
  by_cases hm : (!(s.channelAt a).hasMember p) = true
  · dsimp only
    rw [if_pos hm, if_pos hm]
    rcases refuseJoin_alike (c := s.clientAt p) ho h hkey (h.param 0) p (s.channelAt a) with
      ⟨hr, hr'⟩ | ⟨line, line', hr, hr', hline⟩
    · rw [hr, hr']
      exact hjoined
    · rw [hr, hr']
      exact ⟨rfl, .reply fd hline⟩
  · dsimp only
    rw [if_neg hm, if_neg hm]
    exact hjoined

end CommandDispatcher

end Handlers

namespace Message

variable {i : Nat}

theorem getSingleParam_respell (j : Nat) : (msg.respell i new).getSingleParam j =
    if j = i ∧ i < msg.params.length then new else msg.getSingleParam j := by
  simp only [getSingleParam, respell, List.getD_eq_getElem?_getD, List.getElem?_set]
  split_ifs <;> simp_all

/-- One parameter is respelt. -/
theorem alike_respell (msg : Message) (i : Nat) (new : Str) :
    Alike (msg.getSingleParam i) new msg (msg.respell i new) where
  command := rfl
  count := List.length_set
  param j := by
    rw [getSingleParam_respell]
    split_ifs with hj
    · rw [hj.1]
      exact .echo
    · exact .same _

theorem respell_of_ne {j : Nat} (h : j ≠ i) :
    (msg.respell i new).getSingleParam j = msg.getSingleParam j := by
  rw [getSingleParam_respell, if_neg fun hj => h hj.1]

theorem isValidNickname_respell {j : Nat} (h : j = i →
    isValidNickname new = isValidNickname (msg.getSingleParam i)) :
    isValidNickname ((msg.respell i new).getSingleParam j) =
      isValidNickname (msg.getSingleParam j) := by
  rw [getSingleParam_respell]
  split_ifs with hj
  · rw [h hj.1, hj.1]
  · rfl

/-- But for MODE the command word says where the names are. -/
theorem indices_of {command : Str} {channel nick : Option Nat} (h : msg.command = command)
    (hmode : command ≠ lit "MODE")
    (hindices : ({ command := command } : Message).channelIndex = channel ∧
      ({ command := command } : Message).nickIndex = nick) :
    msg.channelIndex = channel ∧ msg.nickIndex = nick := by
  rw [← hindices.1, ← hindices.2]
  unfold channelIndex nickIndex
  simp only [h, hmode, false_and, if_false, and_self]

/-- The commands that name a channel or a target. -/
theorem command_of_index (h : some i = msg.channelIndex ∨ some i = msg.nickIndex) :
    msg.command ∈ [lit "JOIN", lit "PART", lit "KICK", lit "INVITE", lit "TOPIC", lit "MODE",
      lit "PRIVMSG", lit "NOTICE"] := by
  by_contra hno
  simp only [List.mem_cons, List.not_mem_nil, or_false, not_or] at hno
  simp [channelIndex, nickIndex, hno] at h

end Message

/-- A text may name its channel or its target by another spelling. -/
theorem Respellable.text {i : Nat} (h : Respellable s msg i new) (hw : WellFormed s)
    (hs : SoundRooms s) (ho : caseFold new = caseFold (msg.getSingleParam i))
    (hcmd : msg.command = lit "PRIVMSG" ∨ msg.command = lit "NOTICE") :
    i = 0 ∧ isValidNickname new = isValidNickname (msg.getSingleParam i) := by
  have hindex : msg.channelIndex = some 0 ∧ msg.nickIndex = some 0 := by
    rcases hcmd with hcmd | hcmd
    · exact Message.indices_of hcmd (by decide) (by decide)
    · exact Message.indices_of hcmd (by decide) (by decide)
  obtain ⟨hi, hroom⟩ | ⟨hi, hnick⟩ := h
  · rw [hindex.1] at hi
    obtain ⟨ch, hch⟩ := Option.ne_none_iff_exists'.1 hroom
    obtain ⟨a, ha, -⟩ := room_eq_some_iff.1 hch
    -- the name of a channel is no nick in any spelling
    have hhash := head?_of_channelName (hs.valid hw ha)
    have hold : isValidNickname (msg.getSingleParam i) = false :=
      Bool.eq_false_iff.2 fun hv => head?_of_nickname hv hhash
    have hnew : isValidNickname new = false :=
      Bool.eq_false_iff.2 fun hv => head?_of_nickname hv ((head?_hash_congr ho).2 hhash)
    exact ⟨Option.some.inj hi, by rw [hold, hnew]⟩
  · rw [hindex.2] at hi
    exact ⟨Option.some.inj hi, hnick⟩

/-- A MODE may name its channel by another spelling, and the nick for whom it sets or takes off
`o`. -/
theorem Respellable.mode {i : Nat} (h : Respellable s msg i new) (hcmd : msg.command = lit "MODE") :
    i = 0 ∨ i = 2 ∧ isValidNickname new = isValidNickname (msg.getSingleParam i) ∧
      (msg.getSingleParam 1).getD 1 0 = chr 'o' := by
  have hchan : msg.channelIndex = some 0 := by rw [Message.channelIndex, hcmd]; decide
  obtain ⟨hi, -⟩ | ⟨hi, hnick⟩ := h
  · rw [hchan] at hi
    exact .inl (Option.some.inj hi)
  have hkick : ¬ msg.command = lit "KICK" := by rw [hcmd]; decide
  have hother : [lit "PRIVMSG", lit "NOTICE", lit "INVITE"].contains msg.command = false := by
    rw [hcmd]; decide
  rw [Message.nickIndex, hother, if_neg Bool.false_ne_true, if_neg hkick] at hi
  split_ifs at hi with hflag
  have htoken : msg.getSingleParam 1 = lit "+o" ∨ msg.getSingleParam 1 = lit "-o" := by
    simpa using hflag.2
  refine .inr ⟨Option.some.inj hi, hnick, ?_⟩
  rcases htoken with htoken | htoken
  · rw [htoken]
    rfl
  · rw [htoken]
    rfl

theorem handleCommand_alike {i : Nat} (hw : WellFormed s) (hs : SoundRooms s)
    (hplain : (s.clientAt p).registered = true → (s.clientAt p).Plain)
    (ho : caseFold new = caseFold (msg.getSingleParam i)) (hi : Respellable s msg i new)
    (addr : Addr) :
    Alike (msg.getSingleParam i) new (CommandDispatcher.handleCommand addr fd msg s p)
      (CommandDispatcher.handleCommand addr fd (msg.respell i new) s p) := by
  have h := msg.alike_respell i new
  have hindex := Message.command_of_index (hi.imp And.left And.left)
  simp only [List.mem_cons, List.not_mem_nil, or_false] at hindex
  rcases hindex with hcmd | hcmd | hcmd | hcmd | hcmd | hcmd | hcmd | hcmd
  · obtain ⟨hchan, hnick⟩ : msg.channelIndex = some 0 ∧ msg.nickIndex = none :=
      Message.indices_of hcmd (by decide) (by decide)
    rw [Respellable, hchan, hnick] at hi
    rw [CommandDispatcher.handleCommand_join hcmd,
      CommandDispatcher.handleCommand_join (show (msg.respell i new).command = _ from hcmd)]
    obtain ⟨hi, hroom⟩ | ⟨hi, -⟩ := hi
    · cases hi
      obtain ⟨ch, hch⟩ := Option.ne_none_iff_exists'.1 hroom
      obtain ⟨a, ha, -⟩ := room_eq_some_iff.1 hch
      exact CommandDispatcher.handleJoin_alike ho h hplain ha (Message.respell_of_ne (by decide)) addr
    · cases hi
  · rw [CommandDispatcher.handleCommand_part hcmd,
      CommandDispatcher.handleCommand_part (show (msg.respell i new).command = _ from hcmd)]
    exact CommandDispatcher.handlePart_alike ho h hplain
  · obtain ⟨hchan, hnick⟩ : msg.channelIndex = some 0 ∧ msg.nickIndex = some 1 :=
      Message.indices_of hcmd (by decide) (by decide)
    rw [Respellable, hchan, hnick] at hi
    rw [CommandDispatcher.handleCommand_kick hcmd,
      CommandDispatcher.handleCommand_kick (show (msg.respell i new).command = _ from hcmd)]
    refine ChannelCommandHandler.handleKick_alike ho h hplain
      (Message.isValidNickname_respell fun h1 => ?_) (Message.respell_of_ne ?_)
    · subst h1
      simpa using hi
    · rintro rfl
      simp at hi
  · obtain ⟨hchan, hnick⟩ : msg.channelIndex = some 1 ∧ msg.nickIndex = some 0 :=
      Message.indices_of hcmd (by decide) (by decide)
    rw [Respellable, hchan, hnick] at hi
    rw [CommandDispatcher.handleCommand_invite hcmd,
      CommandDispatcher.handleCommand_invite (show (msg.respell i new).command = _ from hcmd)]
    refine ChannelCommandHandler.handleInvite_alike ho h hplain
      (Message.isValidNickname_respell fun h0 => ?_)
    subst h0
    simpa using hi
  · obtain ⟨hchan, hnick⟩ : msg.channelIndex = some 0 ∧ msg.nickIndex = none :=
      Message.indices_of hcmd (by decide) (by decide)
    rw [Respellable, hchan, hnick] at hi
    rw [CommandDispatcher.handleCommand_topic hcmd,
      CommandDispatcher.handleCommand_topic (show (msg.respell i new).command = _ from hcmd)]
    refine ChannelCommandHandler.handleTopic_alike ho h hplain (Message.respell_of_ne ?_)
    rintro rfl
    simp at hi
  · rw [CommandDispatcher.handleCommand_mode hcmd,
      CommandDispatcher.handleCommand_mode (show (msg.respell i new).command = _ from hcmd)]
    obtain rfl | ⟨rfl, hvalid, hflag⟩ := hi.mode hcmd
    · exact ChannelCommandHandler.handleMode_alike ho h hplain (Message.respell_of_ne (by decide))
        (Message.isValidNickname_respell fun hi => by cases hi)
        fun _ => Message.respell_of_ne (by decide)
    · exact ChannelCommandHandler.handleMode_alike ho h hplain (Message.respell_of_ne (by decide))
        (Message.isValidNickname_respell fun _ => hvalid) fun hno => absurd hflag hno
  · rw [CommandDispatcher.handleCommand_privmsg hcmd,
      CommandDispatcher.handleCommand_privmsg (show (msg.respell i new).command = _ from hcmd)]
    obtain ⟨rfl, hnick⟩ := hi.text hw hs ho (.inl hcmd)
    exact CommandDispatcher.handleTextMessage_alike ho h hplain (by decide)
      (Message.isValidNickname_respell fun _ => hnick) (Message.respell_of_ne (by decide)) true
  · rw [CommandDispatcher.handleCommand_notice hcmd,
      CommandDispatcher.handleCommand_notice (show (msg.respell i new).command = _ from hcmd)]
    obtain ⟨rfl, hnick⟩ := hi.text hw hs ho (.inr hcmd)
    exact CommandDispatcher.handleTextMessage_alike ho h hplain (by decide)
      (Message.isValidNickname_respell fun _ => hnick) (Message.respell_of_ne (by decide)) false

/-- A channel that there is and a target may be named in every spelling that compares equal, as long
as a target stays a valid nick or no valid one, as it does without a tilde: the command has the same
effect and the same replies but for the spelling they print. -/
theorem run_spelling (password : Str) (turns : List Turn) (hreal : ∀ t ∈ turns, t.Real) :
    let s := play { password := password } turns
    (∀ n n', ircCmp n' n = .eq → chr '~' ∉ n → chr '~' ∉ n' →
      isValidNickname n' = isValidNickname n) ∧
    ∀ addr now fd msg monitor i new, ircCmp new (msg.getSingleParam i) = .eq →
      Respellable s msg i new →
      let old := CommandDispatcher.dispatchWith addr now fd msg s monitor
      let after := CommandDispatcher.dispatchWith addr now fd (msg.respell i new) s monitor
      after.2 = old.2 ∧ after.1.shouldDisconnect = old.1.shouldDisconnect ∧
        List.Forall₂ (fun m m' => m'.fd = m.fd ∧
          (parse m'.message).command = (parse m.message).command ∧
          Respelt (msg.getSingleParam i) new m.message m'.message) old.1.replies after.1.replies := by
  intro s
  have ho : Orderly s := Orderly.play turns (.start password) hreal
  refine ⟨fun n n' h hn hn' => isValidNickname_congr ((ircCmp_eq_iff _ _).1 h) hn hn', ?_⟩
  intro addr now fd msg monitor i new heq hi old after
  have hcmd : msg.command ≠ lit "PONG" := by
    intro hpong
    have hindex := Message.command_of_index (hi.imp And.left And.left)
    rw [hpong] at hindex
    exact absurd hindex (by decide)
  cases hp : s.client.fdToClient[fd]? with
  | none =>
    have hnone : s.getClientByFd fd = none := hp
    have hold : old = ({}, s, monitor) := by
      simp only [old, CommandDispatcher.dispatchWith, hnone]
    have hafter : after = ({}, s, monitor) := by
      simp only [after, CommandDispatcher.dispatchWith, hnone]
    rw [hold, hafter]
    exact ⟨rfl, rfl, .nil⟩
  | some p =>
    have halike : Alike (msg.getSingleParam i) new (CommandDispatcher.handleCommand addr fd msg s p)
        (CommandDispatcher.handleCommand addr fd (msg.respell i new) s p) :=
      handleCommand_alike ho.wf ho.rooms ho.plain ((ircCmp_eq_iff _ _).1 heq) hi addr
    have hold : old = _ := CommandDispatcher.dispatchWith_handleCommand addr now monitor hp hcmd
    have hafter : after = _ := CommandDispatcher.dispatchWith_handleCommand addr now monitor hp
      (show (msg.respell i new).command ≠ lit "PONG" from hcmd)
    rw [hold, hafter]
    refine ⟨by rw [halike.state], halike.echoes.disconnects, ?_⟩
    exact halike.echoes.replies.imp fun m m' h => ⟨h.1, h.2.command, h.2.respelt⟩

/-- The case of a nick with a bracket, that another case has as a brace. -/
theorem run_spelling_bracket :
    let turns : List Turn := [.arrive 3 5 (lit "h"), .arrive 4 6 (lit "k"),
      .command 0 0 5 (parse (lit "PASS :")) none, .command 0 0 5 (parse (lit "NICK a")) none,
      .command 0 0 5 (parse (lit "USER a 0 * a")) none, .command 0 0 6 (parse (lit "PASS :")) none,
      .command 0 0 6 (parse (lit "NICK b[")) none, .command 0 0 6 (parse (lit "USER b 0 * b")) none]
    let s := play { password := [] } turns
    let msg := parse (lit "PRIVMSG b[ :hi")
    let old := CommandDispatcher.dispatchWith 0 0 5 msg s none
    let after := CommandDispatcher.dispatchWith 0 0 5 (msg.respell 0 (lit "B\x7b")) s none
    after.2 = old.2 ∧ old.1 = reply 6 (lit ":a!a@h PRIVMSG b[ :hi" ++ crlf) ∧
      after.1 = reply 6 (lit ":a!a@h PRIVMSG B\x7b :hi" ++ crlf) := by
  intro turns s msg old after
  have hreal : ∀ t ∈ turns, t.Real := by
    simp only [turns, List.forall_mem_cons, Turn.Real]
    exact ⟨by decide, by decide, ⟨_, rfl⟩, ⟨_, rfl⟩, ⟨_, rfl⟩, ⟨_, rfl⟩, ⟨_, rfl⟩, ⟨_, rfl⟩, by simp⟩
  obtain ⟨hstate, -⟩ := (run_spelling [] turns hreal).2 0 0 5 msg none 0 (lit "B\x7b") (by decide)
    (.inr ⟨by decide, by decide⟩)
  exact ⟨hstate, by decide +kernel, by decide +kernel⟩

/-- A nick with a caret is not found by the spelling with a tilde, that compares equal. -/
theorem nick_tilde :
    let turns : List Turn := [.arrive 3 5 (lit "h"), .arrive 4 6 (lit "k"),
      .command 0 0 5 (parse (lit "PASS :")) none, .command 0 0 5 (parse (lit "NICK a")) none,
      .command 0 0 5 (parse (lit "USER a 0 * a")) none, .command 0 0 6 (parse (lit "PASS :")) none,
      .command 0 0 6 (parse (lit "NICK b^")) none, .command 0 0 6 (parse (lit "USER b 0 * b")) none]
    let s := play { password := [] } turns
    let msg := parse (lit "PRIVMSG b^ :hi")
    (∀ t ∈ turns, t.Real) ∧ ircCmp (lit "b~") (lit "b^") = .eq ∧ msg.nickIndex = some 0 ∧
      msg.respell 0 (lit "b~") = parse (lit "PRIVMSG b~ :hi") ∧
      (CommandDispatcher.dispatchWith 0 0 5 msg s none).1 =
        reply 6 (lit ":a!a@h PRIVMSG b^ :hi" ++ crlf) ∧
      (CommandDispatcher.dispatchWith 0 0 5 (msg.respell 0 (lit "b~")) s none).1 =
        reply 5 (lit ":irc.local 401 a b~ :No such nick/channel" ++ crlf) := by
  intro turns s msg
  refine ⟨?_, by decide, by decide, by decide, by decide +kernel, by decide +kernel⟩
  simp only [turns, List.forall_mem_cons, Turn.Real]
  exact ⟨by decide, by decide, ⟨_, rfl⟩, ⟨_, rfl⟩, ⟨_, rfl⟩, ⟨_, rfl⟩, ⟨_, rfl⟩, ⟨_, rfl⟩, by simp⟩

end Ircserv
