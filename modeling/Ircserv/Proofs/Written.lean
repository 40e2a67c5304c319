import Ircserv.Written
import Ircserv.Proofs.Parsing

/-!
# Printing and parsing

What is written is parsed as it was meant (`parse_print`). What the parser makes of any line can be
written so, but for a command with a colon in front that follows an empty prefix
(`parse_canonical`).
-/

namespace Ircserv

open ReplyBuilder Ircserv.Parser

namespace Parser

variable {sender rest input : Str}

theorem endsToken_gap (extra : Nat) (rest : Str) : EndsToken (gap extra ++ rest) :=
  endsToken_space _

theorem gaps_cons (w : Nat × Str) (words : List (Nat × Str)) (rest : Str) :
    gaps (w :: words) ++ rest = gap w.1 ++ (w.2 ++ (gaps words ++ rest)) := by
  simp [gaps]

/-- Tokens are read whatever the gaps before them are. -/
theorem readParams_gaps : ∀ (words : List (Nat × Str)) (fuel : Nat) (rest : Str),
    (∀ w ∈ words, IsToken w.2) → EndsToken rest → words.length ≤ fuel →
      EndsToken (gaps words ++ rest) ∧ readParams fuel (gaps words ++ rest) =
        words.map (·.2) ++ readParams (fuel - words.length) rest
  | [], fuel, rest, _, hrest, _ => ⟨hrest, rfl⟩
  | w :: words, fuel, rest, h, hrest, hfuel => by
    have hlen : words.length + 1 ≤ fuel := hfuel
    obtain ⟨hend, ih⟩ := readParams_gaps words (fuel - 1) rest
      (fun v hv => h v (List.mem_cons_of_mem w hv)) hrest (by omega)
    rw [gaps_cons]
    refine ⟨endsToken_gap _ _, ?_⟩
    rw [gap, readParams_token (h w List.mem_cons_self) hend (by omega), ih, List.map_cons,
      List.cons_append, List.length_cons, Nat.sub_sub, Nat.add_comm 1]

theorem length_le_gaps (words : List (Nat × Str)) : words.length ≤ (gaps words).length := by
  induction words with
  | nil => exact Nat.le_refl 0
  | cons w words ih =>
    have hcons := congrArg List.length (gaps_cons w words [])
    simp only [gap, List.append_nil, List.length_append, List.length_replicate] at hcons
    rw [hcons, List.length_cons]
    omega

end Parser

namespace Written

variable (w : Written)

/-- What follows the command. -/
def tail : Str := gaps w.middles ++ w.trailing.elim [] fun t => gap t.1 ++ chr ':' :: t.2

theorem tail_spec : EndsToken w.tail ∧ readParams w.tail.length w.tail = w.message.params := by
  have htokens : ∀ m ∈ w.middles, IsToken m.2 := fun m hm => (isToken_iff _).2 (w.middle_word m hm)
  have hlen := length_le_gaps w.middles
  rcases ht : w.trailing with _ | ⟨n, text⟩
  · have htail : w.tail = gaps w.middles ++ [] := by simp [tail, ht]
    obtain ⟨hend, hread⟩ := readParams_gaps w.middles w.tail.length [] htokens (by simp [EndsToken])
      (by simp [htail, hlen])
    rw [← htail] at hend hread
    exact ⟨hend, by simp [hread, message, ht]⟩
  · have htail : w.tail = gaps w.middles ++ (gap n ++ chr ':' :: text) := by simp [tail, ht]
    have hlt : w.middles.length < w.tail.length := by
      rw [htail, List.length_append, gap, List.length_append, List.length_replicate]
      omega
    obtain ⟨hend, hread⟩ := readParams_gaps w.middles w.tail.length (gap n ++ chr ':' :: text) htokens
      (endsToken_gap _ _) (Nat.le_of_lt hlt)
    rw [← htail, gap, readParams_trailing (by omega)] at hread
    rw [← htail] at hend
    exact ⟨hend, by simp [hread, message, ht]⟩

theorem readPrefix_text : readPrefix w.text = some (w.message.sender, w.command ++ w.tail) := by
  obtain ⟨hne, hspace⟩ := w.command_word
  rcases hs : w.sender with _ | ⟨sender, n⟩
  · have htext : w.text = List.replicate w.leading (chr ' ') ++ (w.command ++ w.tail) := by
      simp [text, tail, hs]
    rw [htext, readPrefix_word hne hspace (w.command_first hs), message, hs]
    rfl
  · have htext : w.text = List.replicate w.leading (chr ' ') ++
        chr ':' :: (sender ++ (List.replicate (n + 1) (chr ' ') ++ (w.command ++ w.tail))) := by
      simp [text, tail, hs, gap]
    have hsender : chr ' ' ∉ sender := w.sender_word (sender, n) (by simp [hs])
    rw [htext, readPrefix_sender hsender, skipSeparators_word hne hspace, message, hs]
    rfl

/-- A line is parsed to what it says once its terminator is taken off. -/
theorem parse_of_text {line : Str} (hline : removeIrcLineTerminator line = w.text) :
    parse line = w.message := by
  obtain ⟨hend, hparams⟩ := w.tail_spec
  obtain ⟨hne, hspace⟩ := w.command_word
  rw [parse_eq hline w.readPrefix_text hne hspace hend, hparams]
  rfl

end Written

namespace Parser

theorem removeIrcLineTerminator_of_not_suffix {line : Str} (h : ¬ crlf <:+ line) :
    removeIrcLineTerminator line = line := by
  refine if_neg fun ⟨hlen, hcr, hlf⟩ => h ⟨line.take (line.length - 2), ?_⟩
  have hdrop : line.drop (line.length - 2) = crlf := by
    refine List.ext_getElem? fun i => ?_
    rw [List.getElem?_drop]
    rcases i with _ | _ | i
    · exact hcr
    · rw [show line.length - 2 + (0 + 1) = line.length - 1 by omega]
      exact hlf
    · rw [List.getElem?_eq_none (by omega)]
      rfl
  rw [← hdrop, List.take_append_drop]

/-- Parsing undoes printing. A message that is written with any gaps, with its terminator or, where
it does not end in one by itself, without it, is parsed to its prefix, its command in upper case and
its parameters, the last of them byte for byte. -/
theorem parse_print (w : Written) :
    parse (w.text ++ crlf) = w.message ∧ (¬ crlf <:+ w.text → parse w.text = w.message) :=
  ⟨w.parse_of_text (removeIrcLineTerminator_crlf _), fun h =>
    w.parse_of_text (removeIrcLineTerminator_of_not_suffix h)⟩

/-- The case of two gaps of more than one space, and of a text that ends in a terminator. -/
theorem parse_print_gaps :
    let w : Written := ⟨1, some (lit "a", 0), lit "privmsg", [(2, lit "#c")], some (0, lit " x" ++ crlf),
      by decide, by decide, by simp, by decide⟩
    parse (w.text ++ crlf) = ⟨lit "a", lit "PRIVMSG", [lit "#c", lit " x" ++ crlf]⟩ := by
  intro w
  exact (parse_print w).1

end Parser

section Canonical

variable {sender rest input : Str}

namespace Parser

theorem toupper_eq_space : ∀ c : UInt8, toupper c = chr ' ' ↔ c = chr ' ' :=
  forall_byte (by decide +kernel)

theorem toupper_toupper : ∀ c : UInt8, toupper (toupper c) = toupper c :=
  forall_byte (by decide +kernel)

theorem space_mem_upperCommand (command : Str) : chr ' ' ∈ upperCommand command ↔ chr ' ' ∈ command := by
  simp only [upperCommand, List.mem_map, toupper_eq_space, exists_eq_right]

theorem upperCommand_upperCommand (command : Str) :
    upperCommand (upperCommand command) = upperCommand command := by
  simp only [upperCommand, List.map_map, List.map_inj_left, Function.comp_apply, toupper_toupper,
    implies_true]

theorem readToken_fst (input : Str) : chr ' ' ∉ (readToken input).1 := by
  rw [readToken, List.span_eq_takeWhile_dropWhile]
  exact fun hmem => absurd (List.mem_takeWhile_imp hmem) (by decide)

theorem space_not_mem_sender (h : readPrefix input = some (sender, rest)) : chr ' ' ∉ sender := by
  unfold readPrefix at h
  split at h
  · cases h
    simp
  · split_ifs at h
    · cases h
      simp
    · dsimp only at h
      split_ifs at h
      cases h
      exact readToken_fst _

/-- The words of a message that is not empty. -/
theorem parse_words {line : Str} (h : (parse line).command ≠ []) :
    chr ' ' ∉ (parse line).sender ∧ chr ' ' ∉ (parse line).command ∧
      upperCommand (parse line).command = (parse line).command := by
  unfold parse at h ⊢
  dsimp only at h ⊢
  split at h
  · exact absurd rfl h
  · rename_i sender input hread
    split_ifs at h with hinput
    · exact absurd rfl h
    · rw [if_neg hinput]
      exact ⟨space_not_mem_sender hread, (space_mem_upperCommand _).not.2 (readToken_fst _),
        upperCommand_upperCommand _⟩

end Parser

namespace Message

variable {m : Message}

theorem dropLast_getLast? (params : List Str) : params.dropLast ++ params.getLast?.toList = params := by
  rcases List.eq_nil_or_concat params with rfl | ⟨params, last, rfl⟩
  · rfl
  · simp

/-- The canonical way to write the message, where it can be written. -/
def written (m : Message) (hsender : chr ' ' ∉ m.sender) (hcommand : m.command ≠ [] ∧ chr ' ' ∉ m.command)
    (hfirst : m.sender ≠ [] ∨ m.command.head? ≠ some (chr ':'))
    (hparams : ∀ param ∈ m.params.dropLast, IsToken param) : Written where
  sender := if m.sender = [] then none else some (m.sender, 0)
  command := m.command
  middles := m.params.dropLast.map (0, ·)
  trailing := m.params.getLast?.map (0, ·)
  sender_word := by
    split_ifs <;> simp [hsender]
  command_word := hcommand
  command_first := by
    intro hnone
    refine hfirst.resolve_left fun hne => ?_
    rw [if_neg hne] at hnone
    cases hnone
  middle_word := by
    simp only [List.mem_map, forall_exists_index, and_imp, forall_apply_eq_imp_iff₂]
    exact fun param hparam => (isToken_iff _).1 (hparams param hparam)

theorem canonical_eq (hsender : chr ' ' ∉ m.sender) (hcommand : m.command ≠ [] ∧ chr ' ' ∉ m.command)
    (hfirst : m.sender ≠ [] ∨ m.command.head? ≠ some (chr ':'))
    (hparams : ∀ param ∈ m.params.dropLast, IsToken param) :
    m.canonical = (m.written hsender hcommand hfirst hparams).text ++ crlf := by
  have hgaps : gaps (m.params.dropLast.map (0, ·)) = m.params.dropLast.flatMap (lit " " ++ ·) := by
    rw [gaps, List.flatMap_map]
    rfl
  have htrailing : ((m.params.getLast?.map ((0 : Nat), ·)).elim [] fun t => gap t.1 ++ chr ':' :: t.2) =
      m.params.getLast?.elim [] (lit " :" ++ ·) := by
    cases m.params.getLast? <;> rfl
  rw [canonical, Written.text, written]
  dsimp only
  rw [hgaps, htrailing]
  split_ifs <;> rfl

theorem message_written {hsender : chr ' ' ∉ m.sender} {hcommand : m.command ≠ [] ∧ chr ' ' ∉ m.command}
    {hfirst : m.sender ≠ [] ∨ m.command.head? ≠ some (chr ':')}
    {hparams : ∀ param ∈ m.params.dropLast, IsToken param} (hupper : upperCommand m.command = m.command) :
    (m.written hsender hcommand hfirst hparams).message = m := by
  have hsender' : ((if m.sender = [] then none else some (m.sender, 0)) : Option (Str × Nat)).elim []
      (·.1) = m.sender := by
    split_ifs with h
    · exact h.symm
    · rfl
  have hparams' : (m.params.dropLast.map ((0 : Nat), ·)).map (·.2) ++
      ((m.params.getLast?.map ((0 : Nat), ·)).map (·.2)).toList = m.params := by
    rw [List.map_map, Option.map_map]
    exact (congrArg₂ (· ++ Option.toList ·) (List.map_id _) Option.map_id').trans
      (dropLast_getLast? m.params)
  rw [Written.message, written]
  dsimp only
  rw [hsender', hupper, hparams']

end Message

namespace Parser

theorem toupper_eq_colon : ∀ c : UInt8, toupper c = chr ':' ↔ c = chr ':' :=
  forall_byte (by decide +kernel)

theorem upperCommand_eq_colon {command : Str} (h : upperCommand command = [chr ':']) :
    command = [chr ':'] := by
  rcases command with _ | ⟨c, _ | ⟨d, command⟩⟩
  · cases h
  · rw [upperCommand, List.map_singleton, List.cons.injEq, toupper_eq_colon] at h
    rw [h.1]
  · simp [upperCommand] at h

/-- A text that is empty or begins with a space is not read as one parameter. -/
theorem readParams_ne_text {text : Str} (h : text.takeWhile (fun c => !isMessageSeparator c) = []) :
    readParams text.length text ≠ [text] := by
  intro hread
  cases text with
  | nil => cases hread
  | cons c rest =>
    have hc : isMessageSeparator c = true := by
      by_contra hc
      rw [List.takeWhile_cons, if_pos (by simpa using hc)] at h
      cases h
    have hhead := congrArg List.head? hread
    have hskip : skipSeparators (c :: rest) = skipSeparators rest :=
      List.dropWhile_cons_of_pos hc
    rw [head?_readParams (by simp), hskip, List.head?_cons] at hhead
    have hlen : (skipSeparators rest).length ≤ rest.length := List.length_dropWhile_le _ _
    split at hhead
    · cases hhead
    · rename_i d tail hrest
      rw [hrest, List.length_cons] at hlen
      split_ifs at hhead with hcolon
      · have := congrArg List.length (Option.some.inj hhead)
        rw [List.length_cons] at this
        omega
      · have hmem : c ∈ (d :: tail).takeWhile fun c => !isMessageSeparator c := by
          rw [Option.some.inj hhead]
          exact List.mem_cons_self
        have := List.mem_takeWhile_imp hmem
        rw [hc] at this
        cases this

theorem readPrefix_only (h : chr ' ' ∉ sender) : readPrefix (chr ':' :: sender) = none := by
  have hread := readToken_append h (show EndsToken [] by simp [EndsToken])
  rw [List.append_nil] at hread
  unfold readPrefix
  rw [skipSeparators_colon]
  simp [hread]

/-- A command with a colon in front is taken for a prefix when there is none. -/
theorem parse_canonical_ne {m : Message} (hsender : m.sender = []) (hspace : chr ' ' ∉ m.command)
    (hcolon : m.command.head? = some (chr ':')) (hparams : ∀ param ∈ m.params.dropLast, IsToken param) :
    parse m.canonical ≠ m := by
  obtain ⟨word, hword⟩ : ∃ word, m.command = chr ':' :: word := by
    cases hc : m.command with
    | nil => simp [hc] at hcolon
    | cons c word =>
      rw [hc, List.head?_cons, Option.some.injEq] at hcolon
      exact ⟨word, by rw [hcolon]⟩
  have hempty : ({} : Message) ≠ m := by
    rintro rfl
    cases hword
  have hspace' : chr ' ' ∉ word := fun hmem => hspace (hword ▸ List.mem_cons_of_mem _ hmem)
  set rest := m.params.dropLast.flatMap (lit " " ++ ·) ++ m.params.getLast?.elim [] (lit " :" ++ ·)
    with hrest
  have hcanonical : m.canonical = (chr ':' :: (word ++ rest)) ++ crlf := by
    simp [Message.canonical, hsender, hword, hrest]
  intro h
  rw [hcanonical, parse, removeIrcLineTerminator_crlf] at h
  rcases List.eq_nil_or_concat m.params with hnil | ⟨params, last, hlast⟩
  · have hnone : rest = [] := by simp [hrest, hnil]
    rw [hnone, List.append_nil, readPrefix_only hspace'] at h
    exact hempty h
  · rw [List.concat_eq_append] at hlast
    rw [hlast, List.dropLast_concat] at hparams
    have htrailing : rest = spaced params ++ chr ' ' :: chr ':' :: last := by
      simp only [hrest, hlast, List.dropLast_concat, List.getLast?_concat]
      rfl
    -- the word after the colon is the prefix, so there is none
    have hread : ∀ next, rest = chr ' ' :: next → skipSeparators next = next → next ≠ [] →
        upperCommand (readToken next).1 = [chr ':'] ∧
          readParams (readToken next).2.length (readToken next).2 = params ++ [last] := by
      intro next hnext hskip hne
      have hread₀ := readPrefix_sender hspace' 0 0 next
      rw [hnext] at h
      simp only [List.replicate_zero, List.replicate_succ, List.nil_append, List.cons_append,
        hskip] at hread₀
      rw [hread₀] at h
      simp only [hne, if_false] at h
      have hw : word = [] := (congrArg Message.sender h).trans hsender
      exact ⟨(congrArg Message.command h).trans (hw ▸ hword), (congrArg Message.params h).trans hlast⟩
    cases params with
    | nil =>
      obtain ⟨hcommand, hlast'⟩ :=
        hread (chr ':' :: last) htrailing (skipSeparators_colon last) (by simp)
      have hcut : readToken (chr ':' :: last) =
          (chr ':' :: last.takeWhile (fun c => !isMessageSeparator c),
            last.dropWhile fun c => !isMessageSeparator c) := by
        rw [readToken, List.span_eq_takeWhile_dropWhile]
        rfl
      rw [hcut] at hcommand hlast'
      have htake := (List.cons.inj (upperCommand_eq_colon hcommand)).2
      have hdrop : last.dropWhile (fun c => !isMessageSeparator c) = last := by
        have hsplit := List.takeWhile_append_dropWhile (p := fun c => !isMessageSeparator c) (l := last)
        rwa [htake, List.nil_append] at hsplit
      rw [hdrop] at hlast'
      exact readParams_ne_text htake hlast'
    | cons param params =>
      have hparam := hparams param List.mem_cons_self
      have hshape : rest = chr ' ' :: (param ++ (spaced params ++ chr ' ' :: chr ':' :: last)) := by
        simp [htrailing, spaced]
      obtain ⟨hcommand, -⟩ := hread _ hshape (skipSeparators_word hparam.ne_nil hparam.space _)
        (by simp [hparam.ne_nil])
      rw [readToken_append hparam.space (endsToken_spaced _ (endsToken_space _))] at hcommand
      refine hparam.colon ?_
      rw [show param = [chr ':'] from upperCommand_eq_colon hcommand]
      rfl

/-- What the parser makes of a line is canonical. Its parameters but the last are tokens, and
printed in the canonical way it is parsed to itself, but for a command with a colon in front that
follows an empty prefix. -/
theorem parse_canonical (line : Str) :
    let m := parse line
    m.command ≠ [] →
      (parse m.canonical = m ↔ m.sender ≠ [] ∨ m.command.head? ≠ some (chr ':')) ∧
        ∀ param ∈ m.params.dropLast, param ≠ [] ∧ chr ' ' ∉ param ∧ param.head? ≠ some (chr ':') := by
  intro m hne
  obtain ⟨hsender, hspace, hupper⟩ := parse_words hne
  have htokens : ∀ param ∈ m.params.dropLast, IsToken param := isToken_of_mem_params line
  refine ⟨⟨fun h => ?_, fun hfirst => ?_⟩, fun param hparam => (isToken_iff _).1 (htokens param hparam)⟩
  · by_contra hno
    push Not at hno
    exact parse_canonical_ne hno.1 hspace hno.2 htokens h
  · rw [Message.canonical_eq hsender ⟨hne, hspace⟩ hfirst htokens,
      Written.parse_of_text _ (removeIrcLineTerminator_crlf _), Message.message_written hupper]

/-- The case of a line with three parameters and gaps of more than one space. -/
theorem parse_canonical_gaps :
    let m := parse (lit "  kick  #c   a :b c")
    m.canonical = lit "KICK #c a :b c" ++ crlf ∧ parse m.canonical = m := by
  intro m
  exact ⟨by decide, ((parse_canonical (lit "  kick  #c   a :b c")) (by decide)).1.2 (.inr (by decide))⟩

/-- An empty prefix is lost, and the colon of the command after it is then taken for its own. -/
theorem canonical_colon :
    let m := parse (lit ": :cmd x")
    m = ⟨[], lit ":CMD", [lit "x"]⟩ ∧ parse m.canonical = ⟨lit "CMD", lit ":X", []⟩ := by
  decide

end Parser

end Canonical

end Ircserv
