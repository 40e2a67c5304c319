import Ircserv.Proofs.Lines
import Mathlib.Data.List.TakeDrop
import Mathlib.Data.List.TakeWhile

/-!
# What the parser makes of a line

A line with a prefix, a command and parameters is parsed into these, as long as every parameter but
the last is a token (`parse_line`, `readParams_spaced`).
-/

namespace Ircserv

namespace Parser

open ReplyBuilder

/-- A word that is read as one parameter. -/
structure IsToken (token : Str) : Prop where
  ne_nil : token ≠ []
  space : chr ' ' ∉ token
  colon : token.head? ≠ some (chr ':')

theorem isToken_iff (token : Str) : IsToken token ↔
    token ≠ [] ∧ chr ' ' ∉ token ∧ token.head? ≠ some (chr ':') :=
  ⟨fun h => ⟨h.ne_nil, h.space, h.colon⟩, fun ⟨hne, hspace, hcolon⟩ => ⟨hne, hspace, hcolon⟩⟩

instance (token : Str) : Decidable (IsToken token) :=
  decidable_of_iff' _ (isToken_iff token)

/-- The tokens, each after a space. -/
def spaced (tokens : List Str) : Str := tokens.flatMap (chr ' ' :: ·)

/-- What follows a token: nothing, or a space. -/
def EndsToken (rest : Str) : Prop := ∀ c ∈ rest.head?, c = chr ' '

variable {token sender command rest text : Str} {tokens : List Str}

theorem endsToken_spaced (tokens : List Str) {rest : Str} (h : EndsToken rest) :
    EndsToken (spaced tokens ++ rest) := by
  cases tokens with
  | nil => exact h
  | cons token tokens =>
    intro c hc
    simpa [spaced, eq_comm] using hc

theorem removeIrcLineTerminator_crlf (line : Str) : removeIrcLineTerminator (line ++ crlf) = line := by
  have hlen : (line ++ crlf).length = line.length + 2 := by simp [crlf]
  unfold removeIrcLineTerminator
  rw [hlen, if_pos]
  · simp
  · refine ⟨by omega, ?_, ?_⟩
    · rw [List.getElem?_append_right (by omega)]
      simp [crlf]
    · rw [List.getElem?_append_right (by omega)]
      simp [crlf]

theorem skipSeparators_replicate (n : Nat) (rest : Str) :
    skipSeparators (List.replicate n (chr ' ') ++ rest) = skipSeparators rest := by
  refine List.dropWhile_append_of_pos fun c hc => ?_
  rw [List.eq_of_mem_replicate hc]
  rfl

theorem skipSeparators_word (hne : token ≠ []) (h : chr ' ' ∉ token) (rest : Str) :
    skipSeparators (token ++ rest) = token ++ rest := by
  cases token with
  | nil => exact absurd rfl hne
  | cons c token =>
    have hc : c ≠ chr ' ' := fun hc => h (hc ▸ List.mem_cons_self)
    simp [skipSeparators, isMessageSeparator, hc]

@[simp] theorem skipSeparators_colon (rest : Str) : skipSeparators (chr ':' :: rest) = chr ':' :: rest :=
  List.dropWhile_cons_of_neg (by decide)

theorem readToken_append (h : chr ' ' ∉ token) (hrest : EndsToken rest) :
    readToken (token ++ rest) = (token, rest) := by
  have hall : ∀ c ∈ token, (!isMessageSeparator c) = true := by
    intro c hc
    simp only [isMessageSeparator, Bool.not_eq_true', beq_eq_false_iff_ne]
    rintro rfl
    exact h hc
  have hstop : rest.takeWhile (fun c => !isMessageSeparator c) = [] ∧
      rest.dropWhile (fun c => !isMessageSeparator c) = rest := by
    cases rest with
    | nil => exact ⟨rfl, rfl⟩
    | cons c rest => simp [isMessageSeparator, hrest c rfl]
  rw [readToken, List.span_eq_takeWhile_dropWhile, List.takeWhile_append_of_pos hall,
    List.dropWhile_append_of_pos hall, hstop.1, hstop.2, List.append_nil]

@[simp] theorem readParams_nil (fuel : Nat) : readParams fuel [] = [] := by
  cases fuel <;> rfl

/-- A token is read after any number of spaces. -/
theorem readParams_token {fuel : Nat} (h : IsToken token) (hrest : EndsToken rest) (hfuel : 0 < fuel)
    (n : Nat) : readParams fuel (List.replicate n (chr ' ') ++ (token ++ rest)) =
      token :: readParams (fuel - 1) rest := by
  obtain ⟨fuel, rfl⟩ := Nat.exists_eq_succ_of_ne_zero (Nat.ne_of_gt hfuel)
  rw [readParams, skipSeparators_replicate, skipSeparators_word h.ne_nil h.space]
  have hread := readToken_append h.space hrest
  have hcolon := h.colon
  cases token with
  | nil => exact absurd rfl h.ne_nil
  | cons c token =>
    have hc : c ≠ chr ':' := by simpa using hcolon
    simp only [List.cons_append, hc, if_false] at hread ⊢
    rw [hread]
    rfl

/-- The tokens are read one by one, each with a round of the loop. -/
theorem readParams_spaced : ∀ (tokens : List Str) (fuel : Nat) (rest : Str),
    (∀ token ∈ tokens, IsToken token) → EndsToken rest → tokens.length ≤ fuel →
    readParams fuel (spaced tokens ++ rest) = tokens ++ readParams (fuel - tokens.length) rest
  | [], fuel, rest, _, _, _ => by simp [spaced]
  | token :: tokens, fuel, rest, h, hrest, hfuel => by
    have hlen : tokens.length + 1 ≤ fuel := hfuel
    have ih := readParams_spaced tokens (fuel - 1) rest
      (fun t ht => h t (List.mem_cons_of_mem token ht)) hrest (by omega)
    have hcons : spaced (token :: tokens) ++ rest =
        List.replicate 1 (chr ' ') ++ (token ++ (spaced tokens ++ rest)) := by simp [spaced]
    rw [hcons, readParams_token (h token List.mem_cons_self) (endsToken_spaced tokens hrest)
      (by omega), ih, List.cons_append, List.length_cons, Nat.sub_sub, Nat.add_comm 1]

theorem readParams_trailing {fuel : Nat} (hfuel : 0 < fuel) (n : Nat) (text : Str) :
    readParams fuel (List.replicate n (chr ' ') ++ chr ':' :: text) = [text] := by
  obtain ⟨fuel, rfl⟩ := Nat.exists_eq_succ_of_ne_zero (Nat.ne_of_gt hfuel)
  simp only [readParams, skipSeparators_replicate, skipSeparators_colon, if_true]

theorem length_le_spaced (tokens : List Str) : tokens.length ≤ (spaced tokens).length := by
  induction tokens with
  | nil => exact Nat.le_refl 0
  | cons token tokens ih =>
    simp only [spaced, List.flatMap_cons, List.cons_append, List.length_cons, List.length_append] at ih ⊢
    omega

/-- A prefix is read with the spaces around it. -/
theorem readPrefix_sender (hsender : chr ' ' ∉ sender) (leading extra : Nat) (rest : Str) :
    readPrefix (List.replicate leading (chr ' ') ++
      chr ':' :: (sender ++ (List.replicate (extra + 1) (chr ' ') ++ rest))) =
        some (sender, skipSeparators rest) := by
  set spaces := List.replicate (extra + 1) (chr ' ') ++ rest with hspaces
  have hcons : spaces = chr ' ' :: (List.replicate extra (chr ' ') ++ rest) := rfl
  have hend : EndsToken spaces := by
    intro c hc
    simpa [hcons, eq_comm] using hc
  unfold readPrefix
  rw [skipSeparators_replicate, skipSeparators_colon]
  simp only [ne_eq, not_true_eq_false, if_false, readToken_append hsender hend]
  rw [if_neg (by simp [hcons]), hspaces, skipSeparators_replicate]

/-- A word that is no prefix is left to be read. -/
theorem readPrefix_word (hne : command ≠ []) (hspace : chr ' ' ∉ command)
    (hcolon : command.head? ≠ some (chr ':')) (leading : Nat) (rest : Str) :
    readPrefix (List.replicate leading (chr ' ') ++ (command ++ rest)) =
      some ([], command ++ rest) := by
  unfold readPrefix
  rw [skipSeparators_replicate, skipSeparators_word hne hspace]
  cases command with
  | nil => exact absurd rfl hne
  | cons c command =>
    have hc : c ≠ chr ':' := by simpa using hcolon
    simp [hc]

/-- What a line is parsed to, once its prefix is read. -/
theorem parse_eq {line input : Str} (hline : removeIrcLineTerminator line = input)
    (hread : readPrefix input = some (sender, command ++ rest)) (hne : command ≠ [])
    (hspace : chr ' ' ∉ command) (hrest : EndsToken rest) : parse line =
      { sender := sender, command := upperCommand command, params := readParams rest.length rest } := by
  have hinput : command ++ rest ≠ [] := by simp [hne]
  rw [parse, hline, hread]
  simp only [hinput, if_false, readToken_append hspace hrest]

/-- A line with a prefix. -/
theorem parse_line (hsender : chr ' ' ∉ sender) (hcommand : IsToken command)
    (hrest : EndsToken rest) :
    parse (lit ":" ++ sender ++ lit " " ++ command ++ rest ++ crlf) =
      { sender := sender, command := upperCommand command, params := readParams rest.length rest } := by
  have hshape : lit ":" ++ sender ++ lit " " ++ command ++ rest = List.replicate 0 (chr ' ') ++
      chr ':' :: (sender ++ (List.replicate (0 + 1) (chr ' ') ++ (command ++ rest))) := by
    rw [show lit ":" = [chr ':'] from rfl, show lit " " = [chr ' '] from rfl]
    simp
  refine parse_eq (removeIrcLineTerminator_crlf _) ?_ hcommand.ne_nil hcommand.space hrest
  rw [hshape, readPrefix_sender hsender, skipSeparators_word hcommand.ne_nil hcommand.space]

/-- A line whose first parameters are tokens. The rounds that are left suffice for the others. -/
theorem parse_spaced (command : Str) (tokens : List Str) (rest : Str) (hsender : chr ' ' ∉ sender)
    (hcommand : IsToken command) (htokens : ∀ token ∈ tokens, IsToken token) (hrest : EndsToken rest) :
    ∃ fuel, rest.length ≤ fuel ∧
      parse (lit ":" ++ sender ++ lit " " ++ command ++ spaced tokens ++ rest ++ crlf) =
        { sender := sender
          command := upperCommand command
          params := tokens ++ readParams fuel rest } := by
  have hlen := length_le_spaced tokens
  refine ⟨(spaced tokens ++ rest).length - tokens.length, by simp; omega, ?_⟩
  have hshape : lit ":" ++ sender ++ lit " " ++ command ++ spaced tokens ++ rest =
      lit ":" ++ sender ++ lit " " ++ command ++ (spaced tokens ++ rest) := by simp
  rw [hshape, parse_line hsender hcommand (endsToken_spaced tokens hrest),
    readParams_spaced tokens _ _ htokens hrest (by simp; omega)]

/-- A line whose parameters are tokens. -/
theorem parse_tokens (hsender : chr ' ' ∉ sender) (hcommand : IsToken command)
    (htokens : ∀ token ∈ tokens, IsToken token) :
    parse (lit ":" ++ sender ++ lit " " ++ command ++ spaced tokens ++ crlf) =
      { sender := sender, command := upperCommand command, params := tokens } := by
  obtain ⟨fuel, -, hparse⟩ := parse_spaced command tokens [] hsender hcommand htokens
    (by simp [EndsToken])
  rwa [List.append_nil, readParams_nil, List.append_nil] at hparse

theorem endsToken_space (rest : Str) : EndsToken (chr ' ' :: rest) := by
  intro c hc
  simpa [eq_comm] using hc

/-- A line whose last parameter is a text. -/
theorem parse_text (hsender : chr ' ' ∉ sender) (hcommand : IsToken command)
    (htokens : ∀ token ∈ tokens, IsToken token) (text : Str) :
    parse (lit ":" ++ sender ++ lit " " ++ command ++ spaced tokens ++ lit " :" ++ text ++ crlf) =
      { sender := sender, command := upperCommand command, params := tokens ++ [text] } := by
  obtain ⟨fuel, hfuel, hparse⟩ := parse_spaced command tokens (chr ' ' :: chr ':' :: text) hsender
    hcommand htokens (endsToken_space _)
  have hshape : lit ":" ++ sender ++ lit " " ++ command ++ spaced tokens ++ lit " :" ++ text =
      lit ":" ++ sender ++ lit " " ++ command ++ spaced tokens ++ chr ' ' :: chr ':' :: text := by
    rw [show lit " :" = [chr ' ', chr ':'] from rfl]
    simp
  have htrailing : readParams fuel (chr ' ' :: chr ':' :: text) = [text] :=
    readParams_trailing (Nat.lt_of_lt_of_le (by simp) hfuel) 1 text
  rw [hshape, hparse, htrailing]

theorem removeIrcLineTerminator_of_getLast {line : Str} (h : line.getLast? ≠ some lf) :
    removeIrcLineTerminator line = line := by
  rw [List.getLast?_eq_getElem?] at h
  exact if_neg fun hc => h hc.2.2

/-- A command without a prefix. -/
theorem parse_command {line : Str} (hcommand : IsToken command)
    (htokens : ∀ token ∈ tokens, IsToken token)
    (hline : removeIrcLineTerminator line = command ++ spaced tokens ++ lit " :" ++ text) :
    parse line = { sender := [], command := upperCommand command, params := tokens ++ [text] } := by
  have hend : EndsToken (chr ' ' :: chr ':' :: text) := endsToken_space _
  have hshape : command ++ spaced tokens ++ lit " :" ++ text =
      command ++ (spaced tokens ++ chr ' ' :: chr ':' :: text) := by
    rw [show lit " :" = [chr ' ', chr ':'] from rfl]
    simp
  have hread : readPrefix (command ++ (spaced tokens ++ chr ' ' :: chr ':' :: text)) =
      some ([], command ++ (spaced tokens ++ chr ' ' :: chr ':' :: text)) :=
    readPrefix_word hcommand.ne_nil hcommand.space hcommand.colon 0 _
  have hlen := length_le_spaced tokens
  have htrailing : ∀ {fuel : Nat}, 0 < fuel → readParams fuel (chr ' ' :: chr ':' :: text) = [text] :=
    fun hfuel => readParams_trailing hfuel 1 text
  rw [hshape] at hline
  rw [parse_eq hline hread hcommand.ne_nil hcommand.space (endsToken_spaced tokens hend),
    readParams_spaced tokens _ _ htokens hend (by simp; omega), htrailing (by simp; omega)]

/-- A command as a client writes it, without the end of the line. -/
theorem parse_written (hcommand : IsToken command) (htokens : ∀ token ∈ tokens, IsToken token)
    (htext : lf ∉ text) : parse (command ++ spaced tokens ++ lit " :" ++ text) =
      { sender := [], command := upperCommand command, params := tokens ++ [text] } := by
  refine parse_command hcommand htokens (removeIrcLineTerminator_of_getLast fun h => ?_)
  have hmem : lf ∈ chr ':' :: text := by
    refine List.mem_of_getLast? ?_
    simpa [List.getLast?_append, show lit " :" = [chr ' ', chr ':'] from rfl] using h
  rcases List.mem_cons.1 hmem with hcolon | hmem
  · exact absurd hcolon (by decide)
  · exact htext hmem

section Replies

variable {name target : Str}

theorem parse_join (hsender : chr ' ' ∉ sender) (hcommand : IsToken command) (hname : IsToken name) :
    parse (join sender command name) =
      { sender := sender, command := upperCommand command, params := [name] } := by
  have hshape : join sender command name =
      lit ":" ++ sender ++ lit " " ++ command ++ spaced [name] ++ crlf := by
    rw [join, show lit " " = [chr ' '] from rfl]
    simp [spaced]
  rw [hshape, parse_tokens hsender hcommand (by simpa using hname)]

theorem parse_part (hsender : chr ' ' ∉ sender) (hcommand : IsToken command) (hname : IsToken name) :
    parse (part sender command name) =
      { sender := sender, command := upperCommand command, params := [name] } :=
  parse_join hsender hcommand hname

theorem parse_relayed (hsender : chr ' ' ∉ sender) (hcommand : IsToken command)
    (htarget : IsToken target) (text : Str) :
    parse (relayed sender command target text) =
      { sender := sender, command := upperCommand command, params := [target, text] } := by
  have hshape : relayed sender command target text =
      lit ":" ++ sender ++ lit " " ++ command ++ spaced [target] ++ lit " :" ++ text ++ crlf := by
    rw [relayed, show lit " " = [chr ' '] from rfl]
    simp [spaced]
  rw [hshape, parse_text hsender hcommand (by simpa using htarget)]
  rfl

theorem parse_invite (hsender : chr ' ' ∉ sender) (htarget : IsToken target) (name : Str) :
    parse (invite sender target name) =
      { sender := sender, command := lit "INVITE", params := [target, name] } := by
  have hshape : invite sender target name =
      lit ":" ++ sender ++ lit " " ++ lit "INVITE" ++ spaced [target] ++ lit " :" ++ name ++ crlf := by
    rw [invite, show lit " INVITE " = lit " " ++ (lit "INVITE" ++ [chr ' ']) from rfl]
    simp [spaced]
  rw [hshape, parse_text hsender (by decide) (by simpa using htarget),
    show upperCommand (lit "INVITE") = lit "INVITE" by decide]
  rfl

theorem parse_kick (hsender : chr ' ' ∉ sender) (hname : IsToken name) (htarget : IsToken target)
    (reason : Str) : parse (kick sender name target reason) =
      { sender := sender, command := lit "KICK", params := [name, target, reason] } := by
  have hshape : kick sender name target reason = lit ":" ++ sender ++ lit " " ++ lit "KICK" ++
      spaced [name, target] ++ lit " :" ++ reason ++ crlf := by
    rw [kick, show lit " KICK " = lit " " ++ (lit "KICK" ++ [chr ' ']) from rfl,
      show lit " " = [chr ' '] from rfl]
    simp [spaced]
  rw [hshape, parse_text hsender (by decide) (by simp [hname, htarget]),
    show upperCommand (lit "KICK") = lit "KICK" by decide]
  rfl

theorem parse_quit (hsender : chr ' ' ∉ sender) (reason : Str) :
    parse (quit sender reason) =
      { sender := sender, command := lit "QUIT", params := [reason] } := by
  have hshape : quit sender reason =
      lit ":" ++ sender ++ lit " " ++ lit "QUIT" ++ spaced [] ++ lit " :" ++ reason ++ crlf := by
    rw [quit, show lit " QUIT :" = lit " " ++ (lit "QUIT" ++ lit " :") from rfl]
    simp [spaced]
  rw [hshape, parse_text hsender (by decide) (by simp),
    show upperCommand (lit "QUIT") = lit "QUIT" by decide]
  rfl

/-- What stands for an argument that may be empty. -/
def argument (arg : Str) : Str := if arg = [] then [] else chr ' ' :: arg

theorem endsToken_argument (arg : Str) : EndsToken (argument arg) := by
  unfold argument
  split_ifs
  · simp [EndsToken]
  · exact endsToken_space _

/-- An argument that is a token is read as it is. -/
theorem readParams_argument {fuel : Nat} (h : IsToken text) (hfuel : (argument text).length ≤ fuel) :
    readParams fuel (argument text) = [text] := by
  have hshape : argument text = spaced [text] ++ [] := by simp [argument, h.ne_nil, spaced]
  have hlen : 0 < (argument text).length := by simp [argument, h.ne_nil]
  rw [hshape, readParams_spaced [text] fuel [] (by simpa using h) (by simp [EndsToken])
    (Nat.lt_of_lt_of_le hlen hfuel), readParams_nil, List.append_nil]

theorem parse_mode (hsender : chr ' ' ∉ sender) (hname : IsToken name) {modeToken : Str}
    (htoken : IsToken modeToken) (modeArg : Str) : ∃ fuel, (argument modeArg).length ≤ fuel ∧
      parse (mode sender name modeToken modeArg) =
        { sender := sender
          command := lit "MODE"
          params := name :: modeToken :: readParams fuel (argument modeArg) } := by
  obtain ⟨fuel, hfuel, hparse⟩ := parse_spaced (lit "MODE") [name, modeToken] (argument modeArg)
    hsender (by decide) (by simp [hname, htoken]) (endsToken_argument modeArg)
  have hshape : mode sender name modeToken modeArg = lit ":" ++ sender ++ lit " " ++ lit "MODE" ++
      spaced [name, modeToken] ++ argument modeArg ++ crlf := by
    rw [mode, argument, show lit " MODE " = lit " " ++ (lit "MODE" ++ [chr ' ']) from rfl,
      show lit " " = [chr ' '] from rfl]
    split_ifs <;> simp [spaced]
  rw [hshape, hparse]
  exact ⟨fuel, hfuel, rfl⟩

theorem parse_channelModeIs {c : Client} (htarget : IsToken (replyTarget c)) (hname : IsToken name)
    {modes : Str} (hmodes : IsToken modes) (args : Str) : ∃ fuel, (argument args).length ≤ fuel ∧
      parse (channelModeIs c name modes args) =
        { sender := serverName
          command := lit "324"
          params := replyTarget c :: name :: modes :: readParams fuel (argument args) } := by
  obtain ⟨fuel, hfuel, hparse⟩ := parse_spaced (lit "324") [replyTarget c, name, modes]
    (argument args) (show chr ' ' ∉ serverName by decide) (by decide)
    (by simp [htarget, hname, hmodes]) (endsToken_argument args)
  have hshape : channelModeIs c name modes args = lit ":" ++ serverName ++ lit " " ++ lit "324" ++
      spaced [replyTarget c, name, modes] ++ argument args ++ crlf := by
    rw [channelModeIs, argument, show lit " " = [chr ' '] from rfl]
    split_ifs <;> simp [spaced]
  rw [hshape, hparse]
  exact ⟨fuel, hfuel, rfl⟩

end Replies

section First

theorem skipSeparators_eq_cons {input : Str} {c : UInt8} (h : skipSeparators input = c :: rest) :
    c ≠ chr ' ' ∧ (c :: rest).count (chr ':') = input.count (chr ':') := by
  have hhead := List.head?_dropWhile_not isMessageSeparator input
  have hsplit := List.takeWhile_append_dropWhile (p := isMessageSeparator) (l := input)
  have hspaces : (input.takeWhile isMessageSeparator).count (chr ':') = 0 := by
    rw [List.count_eq_zero]
    intro hmem
    exact absurd (List.mem_takeWhile_imp hmem) (by decide)
  rw [← skipSeparators, h] at hhead hsplit
  refine ⟨by simpa [isMessageSeparator] using hhead, ?_⟩
  rw [← hsplit, List.count_append, hspaces, Nat.zero_add]

/-- The first parameter. -/
theorem head?_readParams {fuel : Nat} (hfuel : 0 < fuel) (input : Str) :
    (readParams fuel input).head? =
      match skipSeparators input with
      | [] => none
      | c :: rest => if c = chr ':' then some rest
          else some ((c :: rest).takeWhile fun c => !isMessageSeparator c) := by
  obtain ⟨fuel, rfl⟩ := Nat.exists_eq_succ_of_ne_zero (Nat.ne_of_gt hfuel)
  rw [readParams]
  rcases skipSeparators input with _ | ⟨c, tail⟩
  · rfl
  · dsimp only
    split_ifs
    · rfl
    · rw [readToken, List.span_eq_takeWhile_dropWhile]
      rfl

/-- A word that is read as itself is a token. -/
theorem isToken_of_head?_readParams {fuel : Nat} (hrest : chr ':' ∉ rest)
    (h : (readParams fuel (chr ' ' :: (token ++ rest))).head? = some token) : IsToken token := by
  have hfuel : 0 < fuel := by
    cases fuel with
    | zero => cases h
    | succ => omega
  rw [head?_readParams hfuel] at h
  split at h
  · cases h
  rename_i c tail hskip
  obtain ⟨hc, hcount⟩ := skipSeparators_eq_cons hskip
  split_ifs at h with hcolon
  · -- a text after a colon has one colon less
    cases h
    have hnone : rest.count (chr ':') = 0 := List.count_eq_zero.2 hrest
    have hsep : chr ' ' ≠ chr ':' := by decide
    simp [hcolon, hnone, hsep] at hcount
  · have htoken : token = c :: tail.takeWhile fun c => !isMessageSeparator c := by
      have hread := (Option.some.inj h).symm
      rwa [List.takeWhile_cons, if_pos (by simpa [isMessageSeparator] using hc)] at hread
    refine ⟨by simp [htoken], fun hmem => ?_, by simpa [htoken] using hcolon⟩
    rw [htoken] at hmem
    rcases List.mem_cons.1 hmem with hspace | hmem
    · exact hc hspace.symm
    · exact absurd (List.mem_takeWhile_imp hmem) (by decide)

end First

/-- The parameters before the last one are tokens. -/
theorem isToken_of_mem_readParams : ∀ (fuel : Nat) (input : Str),
    ∀ param ∈ (readParams fuel input).dropLast, IsToken param
  | 0, _, _, h => by simp [readParams] at h
  | fuel + 1, input, param, h => by
    rw [readParams] at h
    split at h
    · simp at h
    · rename_i c rest hskip
      have hc := (skipSeparators_eq_cons hskip).1
      split_ifs at h with hcolon
      · simp at h
      · rw [readToken, List.span_eq_takeWhile_dropWhile] at h
        dsimp only at h
        rcases hrest : readParams fuel ((c :: rest).dropWhile fun c => !isMessageSeparator c) with
          _ | ⟨next, params⟩
        · rw [hrest] at h
          simp at h
        · rw [hrest, List.dropLast_cons_cons, ← hrest] at h
          rcases List.mem_cons.1 h with rfl | h
          · refine ⟨by simp [isMessageSeparator, hc], fun hmem => ?_, ?_⟩
            · exact absurd (List.mem_takeWhile_imp hmem) (by decide)
            · simp [isMessageSeparator, hc, hcolon]
          · exact isToken_of_mem_readParams fuel _ param h

theorem isToken_of_mem_params (line : Str) : ∀ param ∈ (parse line).params.dropLast, IsToken param := by
  unfold parse
  dsimp only
  split
  · simp
  · split_ifs
    · simp
    · exact isToken_of_mem_readParams _ _

theorem space_not_mem_param (line : Str) {i : Nat} (hi : i + 1 < (parse line).getParamCount) :
    chr ' ' ∉ (parse line).getSingleParam i := by
  unfold Message.getParamCount at hi
  have hlt : i < (parse line).params.dropLast.length := by
    rw [List.length_dropLast]
    omega
  have hget : (parse line).getSingleParam i = (parse line).params.dropLast[i] := by
    rw [List.getElem_dropLast, Message.getSingleParam, List.getD_eq_getElem?_getD,
      List.getElem?_eq_getElem (by omega), Option.getD_some]
  rw [hget]
  exact (isToken_of_mem_params line _ (List.getElem_mem hlt)).space

theorem isToken_of_nick {nick : Str} (h : isValidNickname nick = true) : IsToken nick where
  ne_nil := by
    rintro rfl
    cases h
  space hmem := absurd (isNicknameChar_of_mem h hmem) (by decide)
  colon hhead := absurd (isNicknameChar_of_mem h (List.mem_of_mem_head? hhead)) (by decide)

theorem isToken_of_channelName {name : Str} (h : isValidChannelName name = true) : IsToken name := by
  unfold isValidChannelName at h
  split at h
  · rename_i c cs
    simp only [Bool.or_eq_true, decide_eq_true_eq, bne_iff_ne, ne_eq] at h
    split_ifs at h with hc
    push Not at hc
    obtain ⟨-, rfl⟩ := hc
    refine ⟨by simp, fun hmem => ?_, by simp +decide⟩
    rcases List.mem_cons.1 hmem with hbad | hmem
    · exact absurd hbad (by decide)
    · exact absurd (List.all_eq_true.1 h _ hmem) (by decide)
  · cases h

end Parser

end Ircserv
