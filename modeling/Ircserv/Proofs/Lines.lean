import Ircserv.Lines
import Ircserv.Proofs.Rooms

/-!
# Numerics and relayed lines

A relayed line begins with the nick of a client, which has no dot, so it is never taken for a
numeric of the server (`numericOf_of_sentBy`).
-/

namespace Ircserv

open ReplyBuilder

/-- What begins a text up to a mark it does not contain begins the part before the mark. -/
theorem isPrefix_of_not_mem {α : Type*} {x : α} {b : List α} : ∀ {l a : List α},
    l <+: a ++ x :: b → x ∉ l → l <+: a
  | [], _, _, _ => List.nil_prefix
  | y :: l, [], h, hx => by
    obtain ⟨rfl, -⟩ := List.cons_prefix_cons.1 h
    exact absurd List.mem_cons_self hx
  | y :: l, z :: a, h, hx => by
    obtain ⟨hyz, hl⟩ := List.cons_prefix_cons.1 h
    exact List.cons_prefix_cons.2
      ⟨hyz, isPrefix_of_not_mem hl fun hm => hx (List.mem_cons_of_mem y hm)⟩

theorem numericOf_eq_some {code rest : Str} (hlen : code.length = 3)
    (hdigits : code.all isDigit = true) :
    numericOf (serverPrefix ++ (code ++ chr ' ' :: rest)) =
      some (ChannelCommandHandler.decimal code) := by
  have htake : (code ++ chr ' ' :: rest).take 3 = code := by
    rw [← hlen, List.take_left]
  have hdrop : (serverPrefix ++ (code ++ chr ' ' :: rest)).drop (serverPrefix.length + 3) =
      chr ' ' :: rest := by
    rw [← List.append_assoc, ← hlen, ← List.length_append, List.drop_left]
  have hpre : serverPrefix.isPrefixOf (serverPrefix ++ (code ++ chr ' ' :: rest)) = true :=
    List.isPrefixOf_iff_prefix.2 (List.prefix_append _ _)
  simp only [numericOf, List.drop_left, htake, hdrop, hpre, hlen, hdigits, List.head?_cons, and_self,
    if_true]

theorem numericReply_eq (code target params text : Str) :
    ∃ rest, numericReply code target params text = serverPrefix ++ (code ++ chr ' ' :: rest) := by
  refine ⟨target ++ ((if params = [] then [] else lit " " ++ params) ++ (lit " :" ++ text ++ crlf)), ?_⟩
  unfold numericReply serverPrefix
  rw [show lit " " = [chr ' '] from rfl]
  split_ifs <;> simp

theorem numericOf_numericReply {code : Str} (hlen : code.length = 3)
    (hdigits : code.all isDigit = true) (target params text : Str) :
    numericOf (numericReply code target params text) =
      some (ChannelCommandHandler.decimal code) := by
  obtain ⟨rest, hrest⟩ := numericReply_eq code target params text
  rw [hrest, numericOf_eq_some hlen hdigits]

theorem numericOf_eq_none {line : Str} (h : ¬ serverPrefix <+: line) : numericOf line = none :=
  if_neg fun hc => h (List.isPrefixOf_iff_prefix.1 hc.1)

theorem isNicknameChar_of_mem {nick : Str} (h : isValidNickname nick = true) {c : UInt8}
    (hc : c ∈ nick) : isNicknameChar c = true := by
  cases nick with
  | nil => cases hc
  | cons d cs =>
    unfold isValidNickname at h
    dsimp only at h
    split_ifs at h with hlen hfirst
    rcases List.mem_cons.1 hc with rfl | hc
    · rw [Bool.and_eq_true, not_and, Bool.not_eq_true', Bool.not_eq_true', Bool.not_eq_false] at hfirst
      unfold isNicknameChar
      by_cases hl : isLetter c = true
      · simp [hl]
      · simp [hfirst (Bool.not_eq_true _ ▸ hl)]
    · exact List.all_eq_true.1 h c hc

namespace SentBy

variable (c : Client)

theorem join (command name : Str) : SentBy c (join c.getFullPrefix command name) :=
  ⟨lit " " ++ (command ++ (lit " " ++ (name ++ crlf))), by simp [ReplyBuilder.join]⟩

theorem part (command name : Str) : SentBy c (part c.getFullPrefix command name) :=
  ⟨lit " " ++ (command ++ (lit " " ++ (name ++ crlf))), by simp [ReplyBuilder.part]⟩

theorem relayed (command target text : Str) :
    SentBy c (relayed c.getFullPrefix command target text) :=
  ⟨lit " " ++ (command ++ (lit " " ++ (target ++ (lit " :" ++ (text ++ crlf))))), by
    simp [ReplyBuilder.relayed]⟩

theorem invite (target name : Str) : SentBy c (invite c.getFullPrefix target name) :=
  ⟨lit " INVITE " ++ (target ++ (lit " :" ++ (name ++ crlf))), by simp [ReplyBuilder.invite]⟩

theorem kick (name target reason : Str) : SentBy c (kick c.getFullPrefix name target reason) :=
  ⟨lit " KICK " ++ (name ++ (lit " " ++ (target ++ (lit " :" ++ (reason ++ crlf))))), by
    simp [ReplyBuilder.kick]⟩

theorem mode (name token arg : Str) : SentBy c (mode c.getFullPrefix name token arg) :=
  ⟨lit " MODE " ++
      (name ++ (lit " " ++ (token ++ ((if arg = [] then [] else lit " " ++ arg) ++ crlf)))), by
    unfold ReplyBuilder.mode
    split_ifs <;> simp⟩

theorem quit (reason : Str) : SentBy c (quit c.getFullPrefix reason) :=
  ⟨lit " QUIT :" ++ (reason ++ crlf), by simp [ReplyBuilder.quit]⟩

end SentBy

/-- A line that begins with the nick of a client is no line of the server. -/
theorem numericOf_of_sentBy {c : Client} (h : isValidNickname c.nickname = true) {line : Str}
    (hs : SentBy c line) : numericOf line = none := by
  refine numericOf_eq_none fun hpre => ?_
  obtain ⟨rest, rfl⟩ := hs
  have hline : lit ":" ++ c.getFullPrefix ++ rest =
      chr ':' :: (c.nickname ++ chr '!' :: (c.username ++ lit "@" ++ c.host ++ rest)) := by
    unfold Client.getFullPrefix
    rw [show lit ":" = [chr ':'] from rfl, show lit "!" = [chr '!'] from rfl]
    simp
  rw [hline, show serverPrefix = chr ':' :: lit "irc.local " from rfl, List.cons_prefix_cons] at hpre
  have hnick := isPrefix_of_not_mem hpre.2 (by decide)
  have hdot := isNicknameChar_of_mem h (hnick.subset (show chr '.' ∈ lit "irc.local " by decide))
  exact absurd hdot (by decide)

end Ircserv
