import Ircserv.Modes
import Ircserv.Proofs.Events
import Ircserv.Proofs.Numbers

/-!
# Mode lines, as their receivers read them

A key is printed where a token is expected. A key that is a token is read as itself, and no other
key is (`isToken_of_head?_readParams`). A limit is printed from its number in the answer to a query,
and as the client wrote it in the line that announces it.
-/

namespace Ircserv

open CommandResult ReplyBuilder ServerState CommandDispatcher DisconnectNotifier Ircserv.Parser
open ChannelCommandHandler ModeChange

variable {s s' : ServerState} {p a : Addr} {fd : Fd} {msg : Message} {name token arg : Str}
  {modes modes' : ChannelModes} {args : List Str} {n : Int}

/-- Modes that no key is left in without its flag, and whose limit is a positive `int`. -/
structure ChannelModes.Tidy (modes : ChannelModes) : Prop where
  key : modes.hasKey = false → modes.key = []
  limit : modes.limit = -1 ∨ 1 ≤ modes.limit ∧ modes.limit ≤ INT_MAX

section Words

/-- Digits denote the same to the server and to a receiver. -/
theorem decimal_eq_ofDigits (digits : Str) :
    decimal digits = Nat.ofDigits 10 (digits.reverse.map fun d => d.toNat - 48) := by
  induction digits using List.reverseRecOn with
  | nil => rfl
  | append_singleton digits d ih =>
    rw [decimal_append, ih, List.reverse_append, List.reverse_singleton, List.singleton_append,
      List.map_cons, Nat.ofDigits_cons, Nat.add_comm]

theorem readNumber_eq (value : Str) : readNumber value =
    let digits := if (subject value).head? = some (chr '+') then (subject value).tail
      else subject value
    if digits ≠ [] ∧ digits.all isDigit then some (decimal digits : Int) else none := by
  simp only [decimal_eq_ofDigits]
  rfl

/-- The limits that the server takes are the numbers in range, as a receiver reads them. -/
theorem parsePositiveLimit_iff_readNumber (value : Str) (n : Int) :
    parsePositiveLimit value = some n ↔ readNumber value = some n ∧ 1 ≤ n ∧ n ≤ INT_MAX := by
  rw [parsePositiveLimit_iff, readNumber_eq]
  dsimp only
  constructor
  · rintro ⟨spaces, plus, digits, hv, hspaces, hplus, hne, hdigits, rfl, hrange⟩
    refine ⟨?_, hrange⟩
    rw [subject_eq hv hspaces hplus hne hdigits]
    rcases hplus with rfl | rfl
    · have hhead : digits.head? ≠ some (chr '+') := fun hhead =>
        (not_isspace_of_isDigit _ (hdigits _ (List.mem_of_mem_head? hhead))).2.2.2 rfl
      rw [List.nil_append, if_neg hhead, if_pos ⟨hne, List.all_eq_true.2 hdigits⟩]
    · exact if_pos ⟨hne, List.all_eq_true.2 hdigits⟩
  · rintro ⟨hread, hrange⟩
    have hsplit := List.takeWhile_append_dropWhile (p := isspace) (l := cStr value)
    have hspaces : ∀ c ∈ (cStr value).takeWhile isspace, isspace c = true :=
      fun c hc => List.mem_takeWhile_imp hc
    have hdenotes : ∀ plus digits, subject value = plus ++ digits → (plus = [] ∨ plus = lit "+") →
        (if digits ≠ [] ∧ digits.all isDigit then some (decimal digits : Int) else none) = some n →
        DenotesLimit (cStr value) n := by
      intro plus digits heq hplus hn
      split_ifs at hn with hdigits
      refine ⟨_, plus, digits, ?_, hspaces, hplus, hdigits.1, List.all_eq_true.1 hdigits.2,
        (Option.some.inj hn).symm, hrange⟩
      rw [List.append_assoc, ← heq]
      exact hsplit.symm
    by_cases hhead : (subject value).head? = some (chr '+')
    · rw [if_pos hhead] at hread
      refine hdenotes (lit "+") _ ?_ (.inr rfl) hread
      obtain ⟨digits, heq⟩ := List.head?_eq_some_iff.1 hhead
      rw [heq]
      rfl
    · rw [if_neg hhead] at hread
      exact hdenotes [] _ rfl (.inl rfl) hread

/-- What the server takes as a limit is read as it. -/
theorem readNumber_of_limit {value : Str} (h : parsePositiveLimit value = some n) :
    readNumber value = some n := ((parsePositiveLimit_iff_readNumber value n).1 h).1

theorem readWord_key (args : List Str) :
    readWord (lit "+k") args = args.head?.map fun arg => [key (some arg)] := by
  cases args <;> rfl

theorem readWord_limit (args : List Str) : readWord (lit "+l") args =
    (args.head?.bind readNumber).map fun n => [limit (some n)] := by
  cases args with
  | nil => rfl
  | cons arg args =>
    rcases hlimit : readNumber arg with _ | n <;>
      simp +decide [readWord, readFlags, readFlag, lit, hlimit]

theorem readWord_operator (adding : Bool) (nick : Str) (args : List Str) :
    readWord (if adding then lit "+o" else lit "-o") (nick :: args) =
      some [operator nick adding] := by
  cases adding <;> rfl

/-- A change that takes no argument. -/
def Bare : ModeChange → Prop
  | .inviteOnly _ | .topicRestricted _ | .key none | .limit none => True
  | .key (some _) | .limit (some _) | .operator _ _ => False

/-- What a flag word with its parameter asks for, and the argument it is announced with. -/
inductive ModeRead (param : Str) : Str → ModeChange → Str → Prop
  | flag {token : Str} {change : ModeChange} (h : ∀ args, readWord token args = some [change])
      (hkey : token ≠ lit "+k") (hlimit : token ≠ lit "+l") (hbare : Bare change) :
      ModeRead param token change []
  | key : ModeRead param (lit "+k") (.key (some param)) param
  | limit {n : Int} (h : parsePositiveLimit param = some n) :
      ModeRead param (lit "+l") (.limit (some n)) param

/-- The argument of a flag word is read as the change. -/
theorem ModeRead.command {param : Str} {change : ModeChange} (h : ModeRead param token change arg)
    (args : List Str) : readWord token (param :: args) = some [change] := by
  cases h with
  | flag h => exact h _
  | key => rw [readWord_key]; rfl
  | limit h => rw [readWord_limit, List.head?_cons, Option.bind_some, readNumber_of_limit h]; rfl

theorem ModeRead.changed {param : Str} {change : ModeChange} (h : ModeRead param token change arg)
    (s : ServerState) (ch : Channel) :
    s.changed change ch = ch.setModes (change.onModes ch.modes) := by
  cases h with
  | @flag _ change _ _ _ hbare =>
    cases change with
    | operator => exact hbare.elim
    | _ => rfl
  | key | limit => rfl

theorem ModeRead.tidy {param : Str} {change : ModeChange} (h : ModeRead param token change arg)
    (hmodes : modes.Tidy) : (change.onModes modes).Tidy := by
  obtain ⟨hkey, hlimit⟩ := hmodes
  cases h with
  | @flag _ change _ _ _ hbare =>
    rcases change with _ | _ | ⟨_ | _⟩ | ⟨_ | _⟩ | _
    · exact ⟨hkey, hlimit⟩
    · exact ⟨hkey, hlimit⟩
    · exact ⟨fun _ => rfl, hlimit⟩
    · exact hbare.elim
    · exact ⟨hkey, .inl rfl⟩
    · exact hbare.elim
    · exact hbare.elim
  | key => exact ⟨nofun, hlimit⟩
  | limit h => exact ⟨hkey, .inr (limit_range h)⟩

/-- A key that is set was set before, or is the one that the change gives. -/
theorem ModeRead.hasKey {param : Str} {change : ModeChange} (h : ModeRead param token change arg)
    (hk : (change.onModes modes).hasKey = true) :
    modes.hasKey = true ∧ (change.onModes modes).key = modes.key ∨
      token = lit "+k" ∧ (change.onModes modes).key = param := by
  cases h with
  | @flag _ change _ _ _ hbare =>
    rcases change with _ | _ | ⟨_ | _⟩ | ⟨_ | _⟩ | _
    · exact .inl ⟨hk, rfl⟩
    · exact .inl ⟨hk, rfl⟩
    · cases hk
    · exact hbare.elim
    · exact .inl ⟨hk, rfl⟩
    · exact hbare.elim
    · exact hbare.elim
  | key => exact .inr ⟨rfl, rfl⟩
  | limit h => exact .inl ⟨hk, rfl⟩

theorem drop_params {i : Nat} (h : msg.hasParam i = true) :
    msg.params.drop i = msg.getSingleParam i :: msg.params.drop (i + 1) := by
  have hi : i < msg.params.length := by simpa [Message.hasParam] using h
  rw [List.drop_eq_getElem_cons hi]
  simp [Message.getSingleParam, hi]

/-- What `MODE` does to the modes is what its flag word asks for. -/
theorem changeModes_read {c : Client} (htoken : isSupportedSingleModeToken token = true)
    (hflag : token.getD 1 0 ≠ chr 'o') (h : changeModes msg c name token modes = .ok (modes', arg)) :
    ∃ change, ModeRead (msg.getSingleParam 2) token change arg ∧
      readWord token (msg.params.drop 2) = some [change] ∧ modes' = change.onModes modes := by
  unfold isSupportedSingleModeToken at htoken
  split at htoken
  swap
  · cases htoken
  rename_i sign flag
  split_ifs at htoken with hsign
  have hflags : flag = chr 'i' ∨ flag = chr 't' ∨ flag = chr 'k' ∨ flag = chr 'l' := by
    simp only [Bool.or_eq_true, beq_iff_eq] at htoken
    have hno : flag ≠ chr 'o' := hflag
    tauto
  have hsigns : sign = chr '+' ∨ sign = chr '-' := by
    simp only [Bool.and_eq_true, bne_iff_ne, ne_eq, not_and_or, not_not] at hsign
    exact hsign
  rcases hsigns with rfl | rfl <;> rcases hflags with rfl | rfl | rfl | rfl
  case inl.inr.inr.inl =>
    -- +k
    have hk : (if !msg.hasParam 2 then .error (needMoreParams c (lit "MODE"))
        else .ok (modes.setKey (msg.getSingleParam 2), msg.getSingleParam 2)) =
          Except.ok (ε := Str) (modes', arg) := h
    split_ifs at hk with hparam
    cases hk
    rw [drop_params (by simpa using hparam)]
    exact ⟨_, .key, ModeRead.key.command _, rfl⟩
  case inl.inr.inr.inr =>
    -- +l
    unfold changeModes at h
    rcases hlimit : parsePositiveLimit (msg.getSingleParam 2) with _ | n
    · rw [hlimit] at h
      have hl : (if !msg.hasParam 2 then .error (needMoreParams c (lit "MODE"))
          else .error (invalidModeParam c name (lit "+l") (msg.getSingleParam 2))) =
            Except.ok (ε := Str) (modes', arg) := h
      split_ifs at hl
    · rw [hlimit] at h
      have hl : (if !msg.hasParam 2 then .error (needMoreParams c (lit "MODE"))
          else .ok (modes.setLimit n, msg.getSingleParam 2)) =
            Except.ok (ε := Str) (modes', arg) := h
      split_ifs at hl with hparam
      cases hl
      rw [drop_params (by simpa using hparam)]
      exact ⟨_, .limit hlimit, (ModeRead.limit hlimit).command _,
        if_pos (.inl (limit_range hlimit).1)⟩
  all_goals
    cases h
    exact ⟨_, .flag (fun _ => rfl) (by decide) (by decide) trivial, rfl, rfl⟩

theorem subject_skipSeparators (arg : Str) : subject (skipSeparators arg) = subject arg := by
  induction arg with
  | nil => rfl
  | cons c arg ih =>
    by_cases hc : c = chr ' '
    · subst hc
      rw [skipSeparators, List.dropWhile_cons_of_pos (by decide), ← skipSeparators, ih]
      rfl
    · rw [skipSeparators, List.dropWhile_cons_of_neg (by simpa [isMessageSeparator] using hc)]

/-- The first parameter of a limit's argument goes to its first space. -/
theorem head?_limit {fuel : Nat} (hfuel : (argument arg).length ≤ fuel)
    (h : parsePositiveLimit arg = some n) : (readParams fuel (argument arg)).head? =
      some ((skipSeparators arg).takeWhile fun c => !isMessageSeparator c) := by
  obtain ⟨hne, hchars⟩ := limit_subject h
  have harg : arg ≠ [] := by
    rintro rfl
    exact hne rfl
  rw [argument, if_neg harg] at hfuel ⊢
  have hskip : skipSeparators (chr ' ' :: arg) = skipSeparators arg := rfl
  rw [head?_readParams (Nat.lt_of_lt_of_le (by simp) hfuel), hskip]
  rw [← subject_skipSeparators] at hne hchars
  cases hb : skipSeparators arg with
  | nil =>
    rw [hb] at hne
    exact absurd rfl hne
  | cons c tail =>
    have hcolon : c ≠ chr ':' := by
      rintro rfl
      have hmem : chr ':' ∈ subject (skipSeparators arg) := by
        rw [hb]
        exact List.mem_cons_self
      exact absurd (hchars _ hmem) (by decide)
    exact if_neg hcolon

/-- The argument of a limit is read again as the limit, unless there is a space in the white space
before it. -/
theorem limit_reread {fuel : Nat} (hfuel : (argument arg).length ≤ fuel)
    (h : parsePositiveLimit arg = some n) :
    (readParams fuel (argument arg)).head?.bind readNumber = some n ↔
      chr ' ' ∉ (skipSeparators arg).takeWhile isspace := by
  obtain ⟨-, hchars⟩ := limit_subject h
  have hlimit : ∀ word, readNumber word = some n ↔ parsePositiveLimit word = some n := fun word => by
    rw [parsePositiveLimit_iff_readNumber, and_iff_left (limit_range h)]
  rw [head?_limit hfuel h, Option.bind_some, hlimit]
  rw [← subject_skipSeparators] at hchars
  have hread : parsePositiveLimit (skipSeparators arg) = some n := by
    rw [← h]
    exact parsePositiveLimit_congr (subject_skipSeparators arg)
  generalize skipSeparators arg = b at hread hchars
  have hcstr : cStr (b.takeWhile fun c => !isMessageSeparator c) =
      (cStr b).takeWhile fun c => !isMessageSeparator c := by
    simp only [cStr, List.takeWhile_takeWhile, and_comm]
  have hwhite : b.takeWhile isspace = (cStr b).takeWhile isspace := by
    have hzero : (fun c => decide (isspace c = true ∧ (c != 0) = true)) = isspace := by
      funext c
      by_cases hc : c = 0
      · subst hc
        rfl
      · simp [hc]
    rw [cStr, List.takeWhile_takeWhile, hzero]
  have hsplit := List.takeWhile_append_dropWhile (p := isspace) (l := cStr b)
  rw [hwhite]
  constructor
  · intro ht hspace
    obtain ⟨v, x, hv, hvspace⟩ := List.eq_append_cons_of_mem hspace
    have hstop : (cStr b).takeWhile (fun c => !isMessageSeparator c) = v := by
      have hvall : ∀ c ∈ v, (!isMessageSeparator c) = true := by
        intro c hc
        have hne : c ≠ chr ' ' := fun he => hvspace (he ▸ hc)
        simpa [isMessageSeparator] using hne
      rw [← hsplit, hv, List.append_assoc, List.takeWhile_append_of_pos hvall]
      simp [isMessageSeparator]
    have hwhite : ∀ c ∈ v, isspace c = true := by
      intro c hc
      have hmem : c ∈ (cStr b).takeWhile isspace := by
        rw [hv]
        exact List.mem_append_left _ hc
      exact List.mem_takeWhile_imp hmem
    refine (limit_subject ht).1 ?_
    rw [subject, hcstr, hstop]
    exact List.dropWhile_eq_nil_iff.2 hwhite
  · intro hspace
    have hall : (cStr b).takeWhile (fun c => !isMessageSeparator c) = cStr b := by
      refine List.takeWhile_eq_self_iff.2 fun c hc => ?_
      have hne : c ≠ chr ' ' := by
        rw [← hsplit] at hc
        rcases List.mem_append.1 hc with hc | hc
        · rintro rfl
          exact hspace hc
        · rintro rfl
          exact absurd (hchars _ hc) (by decide)
      simpa [isMessageSeparator] using hne
    rw [← hread]
    refine parsePositiveLimit_congr ?_
    rw [subject, hcstr, hall, subject]

/-- A key is read again as itself when it is a token. -/
theorem key_reread {fuel : Nat} (hfuel : (argument arg).length ≤ fuel) :
    (readParams fuel (argument arg)).head? = some arg ↔ IsToken arg := by
  refine ⟨fun h => ?_, fun h => by rw [readParams_argument h hfuel]; rfl⟩
  by_cases harg : arg = []
  · subst harg
    simp [argument] at h
  · rw [argument, if_neg harg, ← List.append_nil arg] at h
    exact isToken_of_head?_readParams (by simp) (h.trans (by rw [List.append_nil]))

end Words

section Query

/-- The flags that take an argument. -/
def argumentFlags (hasKey hasLimit : Bool) : Str :=
  (if hasKey then lit "k" else []) ++ if hasLimit then lit "l" else []

theorem buildChannelModeQuery_flags (ch : Channel) : (buildChannelModeQuery ch).1 =
    lit "+" ++ (if ch.modes.inviteOnly then lit "i" else []) ++
      (if ch.modes.topicRestricted then lit "t" else []) ++
      argumentFlags ch.modes.hasKey (decide (ch.modes.limit ≥ 0)) := by
  unfold buildChannelModeQuery argumentFlags
  simp only [decide_eq_true_eq]
  split_ifs <;> simp

theorem readWord_flags (i t : Bool) (flags : Str) (args : List Str) :
    readWord (lit "+" ++ (if i then lit "i" else []) ++ (if t then lit "t" else []) ++ flags) args =
      (readFlags true flags args).map ((if i then [inviteOnly true] else []) ++
        (if t then [topicRestricted true] else []) ++ ·) := by
  rcases h : readFlags true flags args with _ | changes <;> cases i <;> cases t <;>
    simp +decide [readWord, readFlags, readFlag, lit, h]

/-- The key and the limit take the arguments in this order. -/
theorem readFlags_arguments (hasKey hasLimit : Bool) (args : List Str) :
    readFlags true (argumentFlags hasKey hasLimit) args =
      match hasKey, hasLimit with
      | false, false => some []
      | false, true => (args.head?.bind readNumber).map fun n => [limit (some n)]
      | true, false => args.head?.map fun arg => [key (some arg)]
      | true, true => args.head?.bind fun arg =>
          (args.tail.head?.bind readNumber).map fun n => [key (some arg), limit (some n)] := by
  have hlimit : ∀ args : List Str, readFlags true (lit "l") args =
      (args.head?.bind readNumber).map fun n => [limit (some n)] := by
    intro args
    rw [← readWord_limit]
    rfl
  cases hasKey <;> cases hasLimit
  · rfl
  · exact hlimit args
  · rw [← readWord_key]
    rfl
  · cases args with
    | nil => rfl
    | cons arg args =>
      have hcons : readFlags true (argumentFlags true true) (arg :: args) =
          (readFlags true (lit "l") args).map (key (some arg) :: ·) := rfl
      rw [hcons, hlimit, Option.map_map]
      rfl

theorem ofChanges_flags (i t : Bool) (changes : List ModeChange) :
    ChannelModes.ofChanges ((if i then [inviteOnly true] else []) ++
        (if t then [topicRestricted true] else []) ++ changes) =
      changes.foldl onModes { inviteOnly := i, topicRestricted := t } := by
  cases i <;> cases t <;> rfl

/-- The answer to a query is read as the modes when the key and the limit are. -/
theorem readWord_query {ch : Channel} (h : ch.modes.Tidy) (args : List Str) :
    (readWord (buildChannelModeQuery ch).1 args).map ChannelModes.ofChanges = some ch.modes ↔
      (ch.modes.hasKey = true → args.head? = some ch.modes.key) ∧
      (0 ≤ ch.modes.limit →
        (if ch.modes.hasKey then args.tail else args).head?.bind readNumber =
          some ch.modes.limit) := by
  obtain ⟨hkey, hlimit⟩ := h
  rw [buildChannelModeQuery_flags, readWord_flags, readFlags_arguments, Option.map_map]
  have hofChanges : (ChannelModes.ofChanges ∘ ((if ch.modes.inviteOnly then [inviteOnly true] else []) ++
      (if ch.modes.topicRestricted then [topicRestricted true] else []) ++ ·)) = fun changes =>
      changes.foldl onModes { inviteOnly := ch.modes.inviteOnly
                              topicRestricted := ch.modes.topicRestricted } :=
    funext fun changes => ofChanges_flags _ _ changes
  rw [hofChanges]
  generalize ch.modes = m at hkey hlimit
  obtain ⟨i, t, k, word, limit⟩ := m
  dsimp only at hkey hlimit ⊢
  by_cases hl : 0 ≤ limit
  · cases k with
    | false =>
      cases hkey rfl
      rcases hn : args.head?.bind readNumber with _ | n
      · simp [hl, hn]
      · simp [hl, hn, onModes]
    | true =>
      rcases args with _ | ⟨arg, args⟩
      · simp [hl]
      · rcases hn : args.head?.bind readNumber with _ | n
        · simp [hl, hn]
        · simp [hl, hn, onModes]
  · obtain rfl : limit = -1 := by omega
    cases k with
    | false =>
      cases hkey rfl
      simp
    | true =>
      rcases args with _ | ⟨arg, args⟩
      · simp
      · simp [onModes]

theorem isToken_intToString (h : 0 ≤ n) : IsToken (intToString n) ∧ chr ':' ∉ intToString n := by
  obtain ⟨hne, hall, -⟩ := intToString_spec h
  have hcolon : chr ':' ∉ intToString n := fun hmem => absurd (hall _ hmem) (by decide)
  exact ⟨⟨hne, fun hmem => absurd (hall _ hmem) (by decide),
    fun hhead => hcolon (List.mem_of_mem_head? hhead)⟩, hcolon⟩

theorem buildChannelModeQuery_args (ch : Channel) : (buildChannelModeQuery ch).2 =
    if 0 ≤ ch.modes.limit then
      appendModeArg (if ch.modes.hasKey then ch.modes.key else []) (intToString ch.modes.limit)
    else if ch.modes.hasKey then ch.modes.key else [] := by
  unfold buildChannelModeQuery appendModeArg
  dsimp only
  split_ifs <;> simp_all

/-- The parameters of an answer are the key and the limit when the key is a token. -/
theorem readParams_query {ch : Channel} {fuel : Nat}
    (hfuel : (argument (buildChannelModeQuery ch).2).length ≤ fuel)
    (hkey : ch.modes.hasKey = true → IsToken ch.modes.key) :
    readParams fuel (argument (buildChannelModeQuery ch).2) =
      (if ch.modes.hasKey then [ch.modes.key] else []) ++
        if 0 ≤ ch.modes.limit then [intToString ch.modes.limit] else [] := by
  rw [buildChannelModeQuery_args] at hfuel ⊢
  by_cases hl : 0 ≤ ch.modes.limit
  · obtain ⟨hnum, -⟩ := isToken_intToString hl
    by_cases hk : ch.modes.hasKey = true
    · have hword := hkey hk
      have hshape : argument (appendModeArg ch.modes.key (intToString ch.modes.limit)) =
          spaced [ch.modes.key, intToString ch.modes.limit] ++ [] := by
        simp [argument, appendModeArg, hword.ne_nil, spaced, show lit " " = [chr ' '] from rfl]
      simp only [hl, hk, if_true] at hfuel ⊢
      rw [hshape] at hfuel ⊢
      have hlen := length_le_spaced [ch.modes.key, intToString ch.modes.limit]
      rw [readParams_spaced _ fuel [] (by simp [hword, hnum]) (by simp [EndsToken])
        (by rw [List.append_nil] at hfuel; omega), readParams_nil]
      rfl
    · simp only [hl, hk, if_true, Bool.false_eq_true, if_false] at hfuel ⊢
      exact readParams_argument hnum hfuel
  · by_cases hk : ch.modes.hasKey = true
    · simp only [hl, hk, if_true, if_false] at hfuel ⊢
      exact readParams_argument (hkey hk) hfuel
    · simp [hl, hk, argument]

/-- An answer with a key that is no token has another first argument. -/
theorem isToken_of_query {ch : Channel} {fuel : Nat}
    (hfuel : (argument (buildChannelModeQuery ch).2).length ≤ fuel) (hk : ch.modes.hasKey = true)
    (h : (readParams fuel (argument (buildChannelModeQuery ch).2)).head? = some ch.modes.key) :
    IsToken ch.modes.key := by
  rw [buildChannelModeQuery_args] at hfuel h
  by_cases hl : 0 ≤ ch.modes.limit
  · obtain ⟨hnum, hcolon⟩ := isToken_intToString hl
    simp only [hl, hk, if_true] at h
    by_cases hnil : ch.modes.key = []
    · rw [hnil, appendModeArg, if_pos rfl, List.nil_append, argument, if_neg hnum.ne_nil] at h
      rw [hnil]
      have hfirst : (readParams fuel (chr ' ' :: ([] ++ intToString ch.modes.limit))).head? = some [] := h
      exact isToken_of_head?_readParams hcolon hfirst
    · have hshape : argument (appendModeArg ch.modes.key (intToString ch.modes.limit)) =
          chr ' ' :: (ch.modes.key ++ chr ' ' :: intToString ch.modes.limit) := by
        simp [argument, appendModeArg, hnil, show lit " " = [chr ' '] from rfl]
      rw [hshape] at h
      refine isToken_of_head?_readParams ?_ h
      rw [List.mem_cons, not_or]
      exact ⟨by decide, hcolon⟩
  · simp only [hl, hk, if_true, if_false] at hfuel h
    exact (key_reread hfuel).1 h

/-- The answer to a query says the modes of the channel exactly if the key is a token. -/
theorem modeChanges_query {c : Client} {ch : Channel} (h : ch.modes.Tidy)
    (htarget : IsToken (replyTarget c)) (hname : IsToken name) :
    ((parse (channelModeIs c name (buildChannelModeQuery ch).1 (buildChannelModeQuery ch).2)).modeChanges
        2).map ChannelModes.ofChanges = some ch.modes ↔
      (ch.modes.hasKey = true → IsToken ch.modes.key) := by
  have hflags : IsToken (buildChannelModeQuery ch).1 := by
    rw [buildChannelModeQuery_flags, argumentFlags]
    split_ifs <;> decide
  obtain ⟨fuel, hfuel, hparse⟩ := parse_channelModeIs htarget hname hflags (buildChannelModeQuery ch).2
  have hchanges : (parse (channelModeIs c name (buildChannelModeQuery ch).1
      (buildChannelModeQuery ch).2)).modeChanges 2 = readWord (buildChannelModeQuery ch).1
        (readParams fuel (argument (buildChannelModeQuery ch).2)) := by
    rw [hparse]
    rfl
  rw [hchanges, readWord_query h]
  constructor
  · rintro ⟨hhead, -⟩ hk
    exact isToken_of_query hfuel hk (hhead hk)
  · intro hkey
    rw [readParams_query hfuel hkey]
    have hlimit : 0 ≤ ch.modes.limit →
        readNumber (intToString ch.modes.limit) = some ch.modes.limit := by
      intro hl
      obtain hnone | ⟨hpos, hmax⟩ := h.limit
      · omega
      · exact readNumber_of_limit (parsePositiveLimit_intToString hpos hmax)
    by_cases hk : ch.modes.hasKey = true
    · exact ⟨by simp [hk], fun hl => by simp [hk, hl, hlimit hl]⟩
    · exact ⟨fun hk' => absurd hk' hk, fun hl => by simp [hk, hl, hlimit hl]⟩

end Query

section Line

/-- The line of a change is read as the change exactly if its argument is plain. -/
theorem modeChanges_line {c : Client} (hplain : c.Plain) (hname : IsToken name)
    (htoken : isSupportedSingleModeToken token = true) {param : Str} {change : ModeChange}
    (h : ModeRead param token change arg) :
    (parse (mode c.getFullPrefix name token arg)).modeChanges 1 = some [change] ↔
      (token = lit "+k" → IsToken param) ∧
        (token = lit "+l" → chr ' ' ∉ (skipSeparators param).takeWhile isspace) := by
  obtain ⟨fuel, hfuel, hparse⟩ := parse_mode hplain.space hname (isToken_of_modeToken htoken) arg
  have hchanges : (parse (mode c.getFullPrefix name token arg)).modeChanges 1 =
      readWord token (readParams fuel (argument arg)) := by
    rw [hparse]
    rfl
  rw [hchanges]
  cases h with
  | flag h hkey hlimit _ => simp [h, hkey, hlimit]
  | key =>
    rw [readWord_key, Option.map_eq_some_iff]
    simp only [List.cons.injEq, key.injEq, Option.some.injEq, and_true, exists_eq_right,
      key_reread hfuel]
    simp +decide
  | limit h =>
    rw [readWord_limit, Option.map_eq_some_iff]
    simp only [List.cons.injEq, limit.injEq, Option.some.injEq, and_true, exists_eq_right,
      limit_reread hfuel h]
    simp +decide

theorem modeChanges_operator {c : Client} (hplain : c.Plain) (hname : IsToken name) {nick : Str}
    (hnick : IsToken nick) (adding : Bool) :
    (parse (mode c.getFullPrefix name (if adding then lit "+o" else lit "-o") nick)).modeChanges 1 =
      some [operator nick adding] := by
  have htoken : IsToken (if adding then lit "+o" else lit "-o") := by
    cases adding <;> decide
  obtain ⟨fuel, hfuel, hparse⟩ := parse_mode hplain.space hname htoken nick
  rw [hparse, readParams_argument hnick hfuel]
  exact readWord_operator adding nick []

/-- An accepted MODE makes one change, and each line it sends says which, exactly if its argument is
plain. -/
structure ModeTold (s : ServerState) (p : Addr) (msg : Message) (handled : Handled) (a : Addr)
    (change : ModeChange) : Prop where
  found : s.channels[msg.getSingleParam 0]? = some a
  member : p ∈ (s.channelAt a).members
  asked : msg.modeChanges 1 = some [change]
  done : handled.2 = s.modifyChannel a (s.changed change)
  told : ∀ m ∈ handled.1.replies, (parse m.message).command = lit "MODE" ∧
    (parse m.message).getSingleParam 0 = msg.getSingleParam 0 ∧
    ((parse m.message).modeChanges 1 = some [change] ↔ msg.PlainArgument)

theorem parse_mode_name {c : Client} (hplain : c.Plain) (hname : IsToken name)
    (htoken : IsToken token) (arg : Str) :
    (parse (mode c.getFullPrefix name token arg)).command = lit "MODE" ∧
      (parse (mode c.getFullPrefix name token arg)).getSingleParam 0 = name := by
  obtain ⟨fuel, -, hparse⟩ := parse_mode hplain.space hname htoken arg
  rw [hparse]
  exact ⟨rfl, rfl⟩

theorem handleMode_told (ho : Orderly s) (fd : Fd) (p : Addr) (hn : msg.hasParam 1 = true) :
    Refused fd s p (handleMode fd msg s p) ∨
      ∃ a change, ModeTold s p msg (handleMode fd msg s p) a change := by
  rcases hx : handleMode fd msg s p with ⟨r, s'⟩
  cases hx ▸ ChannelCommandHandler.handleMode_cases fd msg s p with
  | refused hr => exact .inl hr
  | query hone =>
    simp only [Message.hasParam, decide_eq_true_eq] at hn
    rw [Message.getParamCount] at hone
    omega
  | @change a modes modeArg _ hreg _ ha hm _ htoken hflag hmodes hs' =>
    obtain ⟨change, hread, hasked, rfl⟩ := changeModes_read htoken hflag hmodes
    refine .inr ⟨a, change, ha, hm, hasked, ?_, fun m hm => ?_⟩
    · rw [hs']
      exact modifyChannel_congr s a (hread.changed s _).symm
    · rw [mem_addRepliesToMembers hm]
      have hname := parse_mode_name (ho.plain hreg) (ho.token ha) (isToken_of_modeToken htoken) modeArg
      refine ⟨hname.1, hname.2, ?_⟩
      rw [modeChanges_line (ho.plain hreg) (ho.token ha) htoken hread, Message.PlainArgument, isToken_iff]
  | @oper a q _ hreg _ ha hm _ htoken hflag hparam hq _ hs' =>
    have hword := modeToken_eq htoken hflag
    set adding := (msg.getSingleParam 1).head? == some (chr '+') with hadding
    have hasked : msg.modeChanges 1 = some [operator (msg.getSingleParam 2) adding] := by
      rw [Message.modeChanges, drop_params hparam, hword]
      exact readWord_operator adding _ _
    refine .inr ⟨a, _, ha, hm, hasked, ?_, fun m hm => ?_⟩
    · rw [hs']
      refine modifyChannel_congr s a ?_
      have hq' : s.getClientByNick (msg.getSingleParam 2) = some q := hq
      simp only [ServerState.changed, hq']
      rfl
    · rw [mem_addRepliesToMembers hm]
      have hname := parse_mode_name (ho.plain hreg) (ho.token ha) (isToken_of_modeToken htoken)
        (msg.getSingleParam 2)
      refine ⟨hname.1, hname.2, ?_⟩
      have hplain : msg.PlainArgument := by
        have hother : (if adding then lit "+o" else lit "-o") ≠ lit "+k" ∧
            (if adding then lit "+o" else lit "-o") ≠ lit "+l" := by
          cases adding <;> decide
        rw [Message.PlainArgument, hword]
        exact ⟨fun he => absurd he hother.1, fun he => absurd he hother.2⟩
      rw [hword, modeChanges_operator (ho.plain hreg) (ho.token ha) (ho.nick_token hq)]
      exact iff_of_true rfl hplain

end Line

section Invariant

theorem ChannelModes.Tidy.start : ({} : ChannelModes).Tidy := ⟨fun _ => rfl, .inl rfl⟩

/-- What a command leaves in the channel `n`: no modes yet, the modes it had, or those that an
accepted MODE made of them. -/
theorem Outcome.room_modes {addr : Addr} {r : CommandResult} {n : Str} {ch : Channel} (h : Orderly s)
    (ho : Outcome addr fd msg s p r s') (hch : s'.room n = some ch) :
    ch.modes = {} ∨ (∃ old, s.room n = some old ∧ ch.modes = old.modes) ∨
      msg.command = lit "MODE" ∧ ∃ old change arg, s.room n = some old ∧
        ModeRead (msg.getSingleParam 2) (msg.getSingleParam 1) change arg ∧
        ch.modes = change.onModes old.modes ∧
        ∀ m ∈ r.replies, isErrorNumeric m.message = false := by
  have hold : ∀ {m a}, s.channels[m]? = some a → caseFold m = caseFold n →
      s.room n = some (s.channelAt a) := by
    intro m a ha hf
    rw [← room_congr s hf, room_eq ha]
  cases ho with
  | silent | refused | answered | quit | textChannel | textNick | pass =>
    exact .inr (.inl ⟨ch, hch, rfl⟩)
  | @nick s₁ _ _ _ hs' =>
    have hsame := updateNick_channels s p (msg.getSingleParam 0)
    rw [hs'] at hsame
    rw [room_of_eq (maybeRegister_channels p {} s₁), room_of_eq hsame] at hch
    exact .inr (.inl ⟨ch, hch, rfl⟩)
  | user _ _ _ _ hs' =>
    rw [hs', room_of_eq (maybeRegister_channels p {} _)] at hch
    exact .inr (.inl ⟨ch, hch, rfl⟩)
  | join _ _ _ _ hs' =>
    by_cases hin : s.InRoom p (msg.getSingleParam 0)
    · obtain ⟨-, rfl⟩ := addClientToChannel_of_inRoom h.wf hin hs'
      exact .inr (.inl ⟨ch, hch, rfl⟩)
    · rw [room_addClientToChannel h.wf hs' hin] at hch
      split_ifs at hch with hf
      · cases hch
        rw [room_congr s hf]
        rcases hroom : s.room n with _ | old
        · exact .inl rfl
        · exact .inr (.inl ⟨old, rfl, rfl⟩)
      · exact .inr (.inl ⟨ch, hch, rfl⟩)
  | part _ _ ha hm | kick _ _ ha _ _ _ hm =>
    rw [room_removeClientFromChannel h.wf.links ha hm] at hch
    split_ifs at hch with hf
    · obtain ⟨-, rfl⟩ := Channel.leave_eq_some_iff.1 hch
      exact .inr (.inl ⟨_, hold ha hf, rfl⟩)
    · exact .inr (.inl ⟨ch, hch, rfl⟩)
  | invite _ _ _ ha =>
    rw [inviteClientToChannel, room_modifyChannel h.wf.links ha] at hch
    split_ifs at hch with hf
    · cases hch
      exact .inr (.inl ⟨_, hold ha hf, rfl⟩)
    · exact .inr (.inl ⟨ch, hch, rfl⟩)
  | topic _ _ _ ha _ _ hs' | oper _ _ ha _ _ _ _ _ hs' =>
    rw [hs', room_modifyChannel h.wf.links ha] at hch
    split_ifs at hch with hf
    · cases hch
      exact .inr (.inl ⟨_, hold ha hf, rfl⟩)
    · exact .inr (.inl ⟨ch, hch, rfl⟩)
  | mode hcmd hreg ha _ _ htoken hmodes hs' hflag =>
    rw [hs', room_modifyChannel h.wf.links ha] at hch
    split_ifs at hch with hf
    · cases hch
      obtain ⟨change, hread, -, rfl⟩ := changeModes_read htoken hflag hmodes
      refine .inr (.inr ⟨hcmd, _, change, _, hold ha hf, hread, rfl, fun m hm => ?_⟩)
      rw [mem_addRepliesToMembers hm, isErrorNumeric,
        numericOf_of_sentBy (h.plain hreg).nick (SentBy.mode _ _ _ _)]
      rfl
    · exact .inr (.inl ⟨ch, hch, rfl⟩)

/-- The modes of all channels over a run: `P` holds of them if it does at the start and an accepted
MODE keeps it. -/
theorem modes_play {P : ChannelModes → Prop} (hstart : P {}) (password : Str) :
    ∀ turns : List Turn, (∀ t ∈ turns, t.Real) →
    (∀ past t later, turns = past ++ t :: later → ∀ change arg modes addr now fd msg monitor,
      t = .command addr now fd msg monitor →
      t.isAccepted fd (lit "MODE") (play { password := password } past) = true →
      ModeRead (msg.getSingleParam 2) (msg.getSingleParam 1) change arg → P modes →
      P (change.onModes modes)) →
    ∀ n ch, (play { password := password } turns).room n = some ch → P ch.modes := by
  intro turns
  induction turns using List.reverseRecOn with
  | nil =>
    intro _ _ n ch hch
    simp [play, room] at hch
  | append_singleton turns t ih =>
    intro hreal hstep n ch hch
    have ho : Orderly (play { password := password } turns) :=
      Orderly.play turns (.start password) fun u hu => hreal u (List.mem_append_left _ hu)
    have hih := ih (fun u hu => hreal u (List.mem_append_left _ hu))
      fun past u later hturns => hstep past u (later ++ [t]) (by simp [hturns])
    rw [play_append] at hch
    rcases turn_cases (play { password := password } turns) t with ⟨hs, -⟩ |
      ⟨addr, g, host, rfl, hg⟩ | ⟨addr, now, g, msg, monitor, q, rfl, hg, hout⟩ | ⟨g, reason, q, rfl, hg⟩
    · refine hih n ch ?_
      rwa [← hs]
    · exact hih n ch hch
    · rcases hout.room_modes ho hch with hnew | ⟨old, hold, hsame⟩ |
        ⟨hcmd, old, change, arg, hold, hread, hmodes, hok⟩
      · rw [hnew]
        exact hstart
      · rw [hsame]
        exact hih n old hold
      · rw [hmodes]
        refine hstep turns _ [] (by simp) change arg old.modes addr now g msg monitor rfl ?_ hread
          (hih n old hold)
        have hall : ((Turn.command addr now g msg monitor).result
            (play { password := password } turns)).replies.all
              (fun m => m.fd != g || !isErrorNumeric m.message) = true := by
          refine List.all_eq_true.2 fun m hm => ?_
          simp [hok m hm]
        rw [Turn.result] at hall
        simp [Turn.isAccepted, hcmd, hall]
    · have hforget : (play { password := password } turns).room n >>= (·.forget q) = some ch := by
        rw [← hch]
        exact (room_removeClient ho.wf hg n).symm
      obtain ⟨old, hold, hleft⟩ := Option.bind_eq_some_iff.1 hforget
      have hsame : ch.modes = old.modes := by
        unfold Channel.forget at hleft
        split_ifs at hleft
        · obtain ⟨-, rfl⟩ := Channel.leave_eq_some_iff.1 hleft
          rfl
        · cases hleft
          rfl
      rw [hsame]
      exact hih n old hold

/-- The modes of a channel of a run. -/
theorem tidy_play (password : Str) (turns : List Turn) (hreal : ∀ t ∈ turns, t.Real) {n : Str}
    {ch : Channel} (hch : (play { password := password } turns).room n = some ch) : ch.modes.Tidy := by
  refine modes_play .start password turns hreal ?_ n ch hch
  intro _ _ _ _ _ _ _ _ _ _ _ _ _ _ hread hmodes
  exact hread.tidy hmodes

/-- A key of a channel of a run is a token if all that MODE gave are. -/
theorem key_play (password : Str) (turns : List Turn) (hreal : ∀ t ∈ turns, t.Real)
    (hkeys : ∀ past t later word, turns = past ++ t :: later →
      t.keyGiven (play { password := password } past) = some word → IsToken word) {n : Str}
    {ch : Channel} (hch : (play { password := password } turns).room n = some ch)
    (hk : ch.modes.hasKey = true) : IsToken ch.modes.key := by
  refine modes_play (P := fun modes => modes.hasKey = true → IsToken modes.key) nofun password turns hreal
    ?_ n ch hch hk
  intro past t later hturns change arg modes addr now fd msg monitor ht haccepted hread hold hk
  rcases hread.hasKey hk with ⟨hwas, hsame⟩ | ⟨hword, hgiven⟩
  · rw [hsame]
    exact hold hwas
  · rw [hgiven]
    refine hkeys past t later _ hturns ?_
    subst ht
    exact if_pos ⟨hword, haccepted⟩

end Invariant

/-- A member that asks for the modes is told. -/
theorem handleMode_query (ho : Orderly s) {ch : Channel} (hn : msg.getParamCount = 1)
    (hch : s.room (msg.getSingleParam 0) = some ch) (hm : p ∈ ch.members) :
    (handleMode fd msg s p).1 = reply fd (channelModeIs (s.clientAt p) (msg.getSingleParam 0)
      (buildChannelModeQuery ch).1 (buildChannelModeQuery ch).2) := by
  obtain ⟨a, ha, rfl⟩ := room_eq_some_iff.1 hch
  have hreg := ho.registration.members p _ ⟨_, hch, hm⟩
  have hvalid := ho.rooms.valid ho.wf ha
  have hm' := (Channel.hasMember_iff _ _).2 hm
  unfold handleMode
  simp only [hreg, hvalid, getChannel, ha, hm', hn, Bool.not_true, Bool.false_eq_true, if_false, if_true,
    Nat.lt_irrefl]

/-- Mode lines are read as the modes and as the changes, where the arguments are. The answer to a
member's query says the modes of the channel exactly if the key, when there is one, is a token. The
line of an accepted MODE says the change that was made exactly if its argument is plain. In a run in
which MODE gave only tokens as keys, all keys are tokens. -/
theorem run_modes (password : Str) (turns : List Turn) (hreal : ∀ t ∈ turns, t.Real) :
    let s := play { password := password } turns
    (∀ addr now fd msg monitor p ch, s.getClientByFd fd = some p → msg.command = lit "MODE" →
      msg.getParamCount = 1 → s.room (msg.getSingleParam 0) = some ch → p ∈ ch.members →
      ∃ line, (dispatchWith addr now fd msg s monitor).1 = reply fd line ∧
        (((parse line).modeChanges 2).map ChannelModes.ofChanges = some ch.modes ↔
          (ch.modes.hasKey = true → IsToken ch.modes.key))) ∧
    (∀ addr now fd msg monitor p, s.getClientByFd fd = some p → msg.command = lit "MODE" →
      msg.hasParam 1 = true → (∀ m ∈ (dispatchWith addr now fd msg s monitor).1.replies,
        isErrorNumeric m.message = false) →
      ∃ a change, ModeTold s p msg ((dispatchWith addr now fd msg s monitor).1,
        (dispatchWith addr now fd msg s monitor).2.1) a change) ∧
    ((∀ past t later word, turns = past ++ t :: later →
        t.keyGiven (play { password := password } past) = some word → IsToken word) →
      ∀ n ch, s.room n = some ch → ch.modes.hasKey = true → IsToken ch.modes.key) := by
  intro s
  have ho : Orderly s := Orderly.play turns (.start password) hreal
  have hdispatch : ∀ addr now fd msg monitor p, s.getClientByFd fd = some p →
      msg.command = lit "MODE" → dispatchWith addr now fd msg s monitor =
        ((handleMode fd msg s p).1, (handleMode fd msg s p).2, monitor) := by
    intro addr now fd msg monitor p hp hcmd
    rw [dispatchWith_handleCommand addr now monitor hp (by rw [hcmd]; decide), handleCommand_mode hcmd]
  refine ⟨fun addr now fd msg monitor p ch hp hcmd hn hch hm => ?_,
    fun addr now fd msg monitor p hp hcmd hn hok => ?_, fun hkeys n ch hch hk => ?_⟩
  · have hreg := ho.registration.members p _ ⟨ch, hch, hm⟩
    have hnick := isToken_of_nick (ho.plain hreg).nick
    obtain ⟨a, ha, -⟩ := room_eq_some_iff.1 hch
    rw [hdispatch addr now fd msg monitor p hp hcmd]
    refine ⟨_, handleMode_query ho hn hch hm, ?_⟩
    refine modeChanges_query (tidy_play password turns hreal hch) ?_ (ho.token ha)
    rwa [replyTarget, if_neg hnick.ne_nil]
  · rw [hdispatch addr now fd msg monitor p hp hcmd] at hok ⊢
    rcases handleMode_told ho fd p hn with ⟨m, hm, hr⟩ | htold
    · have hbad := hok ⟨fd, m⟩ (by rw [hr]; exact List.mem_singleton.2 rfl)
      rw [hm.error.isErrorNumeric] at hbad
      cases hbad
    · exact htold
  · exact key_play password turns hreal hkeys hch hk

/-- The case of a channel with a key and a limit, and of a limit that is changed. -/
theorem run_modes_key :
    let turns : List Turn := [.arrive 3 5 (lit "h"),
      .command 0 0 5 (Parser.parse (lit "PASS :")) none,
      .command 0 0 5 (Parser.parse (lit "NICK a")) none,
      .command 0 0 5 (Parser.parse (lit "USER a 0 * a")) none,
      .command 7 0 5 (Parser.parse (lit "JOIN #x")) none,
      .command 0 0 5 (Parser.parse (lit "MODE #x +k b")) none,
      .command 0 0 5 (Parser.parse (lit "MODE #x +l 12")) none]
    let s := play { password := [] } turns
    let line := lit ":irc.local 324 a #X +kl b 12" ++ crlf
    (dispatchWith 0 0 5 (parse (lit "MODE #X")) s none).1 = reply 5 line ∧
      ((parse line).modeChanges 2).map ChannelModes.ofChanges =
        some { hasKey := true, key := lit "b", limit := 12 } ∧
      ∃ a, (dispatchWith 0 0 5 (parse (lit "MODE #x +l :+7")) s none).2.1 =
        s.modifyChannel a (s.changed (.limit (some 7))) := by
  intro turns s line
  have hreal : ∀ t ∈ turns, t.Real := by
    simp only [turns, List.forall_mem_cons, Turn.Real]
    exact ⟨by decide, ⟨_, rfl⟩, ⟨_, rfl⟩, ⟨_, rfl⟩, ⟨_, rfl⟩, ⟨_, rfl⟩, ⟨_, rfl⟩, by simp⟩
  obtain ⟨hquery, hchange, -⟩ := run_modes [] turns hreal
  have hroom : ∃ ch, s.room (lit "#X") = some ch ∧ 3 ∈ ch.members ∧
      ch.modes = { hasKey := true, key := lit "b", limit := 12 } := by
    have hmodes : (s.room (lit "#X")).map (·.modes) =
        some { hasKey := true, key := lit "b", limit := 12 } := by decide +kernel
    obtain ⟨ch, hch, hm⟩ : s.InRoom 3 (lit "#X") := by decide +kernel
    refine ⟨ch, hch, hm, ?_⟩
    rw [hch] at hmodes
    exact Option.some.inj hmodes
  obtain ⟨ch, hch, hm, hmodes⟩ := hroom
  have hreply : (dispatchWith 0 0 5 (parse (lit "MODE #X")) s none).1 = reply 5 line := by
    decide +kernel
  obtain ⟨line', hline', hdecodes⟩ := hquery 0 0 5 (parse (lit "MODE #X")) none 3 ch
    (by decide +kernel) (by decide +kernel) (by decide +kernel) hch hm
  obtain rfl : line = line' := by
    rw [hreply] at hline'
    simpa [reply, CommandResult.addReply] using hline'
  rw [hmodes] at hdecodes
  obtain ⟨a, change, htold⟩ := hchange 0 0 5 (parse (lit "MODE #x +l :+7")) none 3 (by decide +kernel)
    (by decide +kernel) (by decide +kernel) (by decide +kernel)
  obtain rfl : change = .limit (some 7) := by
    have hasked := htold.asked
    rw [show (parse (lit "MODE #x +l :+7")).modeChanges 1 = some [.limit (some 7)] by decide +kernel]
      at hasked
    simpa using hasked.symm
  exact ⟨hreply, hdecodes.2 fun _ => by decide, a, htold.done⟩

/-- A key with a space: the answer to a query says another key, and so did the line that announced
it. -/
theorem key_split :
    let turns : List Turn := [.arrive 3 5 (lit "h"),
      .command 0 0 5 (Parser.parse (lit "PASS :")) none,
      .command 0 0 5 (Parser.parse (lit "NICK a")) none,
      .command 0 0 5 (Parser.parse (lit "USER a 0 * a")) none,
      .command 7 0 5 (Parser.parse (lit "JOIN #x")) none]
    let s := play { password := [] } turns
    let change := dispatchWith 0 0 5 (parse (lit "MODE #x +k :b c")) s none
    let query := dispatchWith 0 0 5 (parse (lit "MODE #x")) change.2.1 none
    (∀ t ∈ turns, t.Real) ∧ s.getClientByFd 5 = some 3 ∧ change.2.1.InRoom 3 (lit "#x") ∧
      (change.2.1.room (lit "#x")).map (·.modes) = some { hasKey := true, key := lit "b c" } ∧
      change.1 = reply 5 (lit ":a!a@h MODE #x +k b c" ++ crlf) ∧
      (parse (lit ":a!a@h MODE #x +k b c" ++ crlf)).modeChanges 1 = some [.key (some (lit "b"))] ∧
      query.1 = reply 5 (lit ":irc.local 324 a #x +k b c" ++ crlf) ∧
      ((parse (lit ":irc.local 324 a #x +k b c" ++ crlf)).modeChanges 2).map ChannelModes.ofChanges =
        some { hasKey := true, key := lit "b" } := by
  intro turns s change query
  refine ⟨?_, by decide +kernel, by decide +kernel, by decide +kernel, by decide +kernel,
    by decide +kernel, by decide +kernel, by decide +kernel⟩
  simp only [turns, List.forall_mem_cons, Turn.Real]
  exact ⟨by decide, ⟨_, rfl⟩, ⟨_, rfl⟩, ⟨_, rfl⟩, ⟨_, rfl⟩, by simp⟩

end Ircserv
