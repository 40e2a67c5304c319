import Ircserv.Proofs.Numbers
import Ircserv.Proofs.Stall
import Ircserv.Proofs.Broadcasts

/-!
# Which arguments are accepted as limits

`strtol` sees its argument up to the first NUL, and so does the test for what follows the number. An
argument whose first bytes denote a limit is accepted whatever comes after a NUL (`limit_nul`);
every other argument is accepted exactly when all of it denotes a limit.
-/

open Std

namespace Ircserv

open CommandResult ReplyBuilder ServerState CommandDispatcher ChannelCommandHandler

namespace ChannelCommandHandler

/-- What stands before a NUL of the argument is no limit by itself. -/
def NulSafe (value : Str) : Prop := 0 ∈ value → ∀ n, ¬ DenotesLimit (cStr value) n

theorem denotesLimit_exact (value : Str) :
    (∀ n, parsePositiveLimit value = some n ↔ DenotesLimit value n) ↔ NulSafe value := by
  constructor
  · intro h hnul n hn
    exact ((h n).1 ((parsePositiveLimit_iff value n).2 hn)).cStr_eq.1 hnul
  · intro h n
    rw [parsePositiveLimit_iff]
    by_cases hnul : (0 : UInt8) ∈ value
    · exact iff_of_false (h hnul n) fun hn => hn.cStr_eq.1 hnul
    · have hcstr : cStr value = value := by
        refine List.takeWhile_eq_self_iff.2 fun c hc => ?_
        rw [bne_iff_ne]
        rintro rfl
        exact hnul hc
      rw [hcstr]

theorem changeModes_setLimit {msg : Message} {c : Client} {name arg : Str} {modes modes' : ChannelModes}
    (h : changeModes msg c name (lit "+l") modes = .ok (modes', arg)) :
    ∃ n, parsePositiveLimit (msg.getSingleParam 2) = some n ∧ modes' = modes.setLimit n ∧
      arg = msg.getSingleParam 2 := by
  unfold changeModes at h
  rcases hlimit : parsePositiveLimit (msg.getSingleParam 2) with _ | n
  · rw [hlimit] at h
    have hl : (if !msg.hasParam 2 then .error (needMoreParams c (lit "MODE"))
        else .error (invalidModeParam c name (lit "+l") (msg.getSingleParam 2))) =
          Except.ok (ε := Str) (modes', arg) := h
    split_ifs at hl
  · rw [hlimit] at h
    have hl : (if !msg.hasParam 2 then .error (needMoreParams c (lit "MODE"))
        else .ok (modes.setLimit n, msg.getSingleParam 2)) = Except.ok (ε := Str) (modes', arg) := h
    split_ifs at hl
    cases hl
    exact ⟨n, rfl, rfl, rfl⟩

end ChannelCommandHandler

variable {s : ServerState} {fd : Fd} {msg : Message} {p : Addr}

/-- A MODE that sets a limit and is not refused. -/
theorem handleMode_limit (hw : WellFormed s) (hlimit : msg.getSingleParam 1 = lit "+l")
    (hok : ∀ m ∈ (handleMode fd msg s p).1.replies, isErrorNumeric m.message = false) :
    ∃ ch n, (handleMode fd msg s p).2.room (msg.getSingleParam 0) = some ch ∧
      parsePositiveLimit (msg.getSingleParam 2) = some n ∧ ch.modes.limit = n ∧
      ∀ m ∈ (handleMode fd msg s p).1.replies, m.message =
        mode (s.clientAt p).getFullPrefix (msg.getSingleParam 0) (lit "+l") (msg.getSingleParam 2) := by
  rcases hx : handleMode fd msg s p with ⟨r, s'⟩
  rw [hx] at hok
  cases hx ▸ handleMode_cases fd msg s p with
  | refused hr =>
    obtain ⟨m, hm, hr⟩ := hr
    cases hr
    have hbad := hok ⟨fd, m⟩ (List.mem_singleton.2 rfl)
    rw [hm.error.isErrorNumeric] at hbad
    cases hbad
  | query hn =>
    have hnil : msg.getSingleParam 1 = [] := by
      rw [Message.getParamCount] at hn
      simp [Message.getSingleParam, hn]
    rw [hnil] at hlimit
    cases hlimit
  | oper _ _ _ _ _ _ hflag =>
    rw [hlimit] at hflag
    exact absurd hflag (by decide)
  | @change a modes modeArg _ _ _ ha _ _ _ _ hmodes hs' =>
    rw [hlimit] at hmodes ⊢
    obtain ⟨n, hn, rfl, rfl⟩ := changeModes_setLimit hmodes
    refine ⟨(s.channelAt a).setModes ((s.channelAt a).modes.setLimit n), n, ?_, hn, ?_, fun m hm => ?_⟩
    · rw [hs', room_modifyChannel hw.links ha, if_pos rfl]
    · exact congrArg ChannelModes.limit (if_pos (.inl (limit_range hn).1))
    · exact mem_addRepliesToMembers hm

/-- Limits are parsed exactly, but for arguments that go on after a NUL. An argument is accepted
exactly when all of it is white space, an optional plus and digits of a number in the range, and
then as that number, if and only if what stands before its first NUL is no limit by itself, where it
has one. So the limit that an accepted MODE stores is what the argument denotes that it broadcasts
if and only if this is so. -/
theorem run_limits (password : Str) (actions : List Action) :
    (∀ value, (∀ n, parsePositiveLimit value = some n ↔ DenotesLimit value n) ↔ NulSafe value) ∧
    let s := run password actions
    ∀ addr now fd msg monitor p, s.getClientByFd fd = some p → msg.command = lit "MODE" →
      msg.getSingleParam 1 = lit "+l" →
      let after := dispatchWith addr now fd msg s monitor
      let arg := msg.getSingleParam 2
      (∀ m ∈ after.1.replies, isErrorNumeric m.message = false) →
      ∃ ch, after.2.1.room (msg.getSingleParam 0) = some ch ∧
        (∀ m ∈ after.1.replies, m.message =
          mode (s.clientAt p).getFullPrefix (msg.getSingleParam 0) (lit "+l") arg) ∧
        (DenotesLimit arg ch.modes.limit ↔ NulSafe arg) := by
  refine ⟨denotesLimit_exact, ?_⟩
  intro s addr now fd msg monitor p hp hcmd hlimit after arg hok
  have hw : WellFormed s := .run password actions
  have hafter : after = _ := dispatchWith_handleCommand addr now monitor hp (by rw [hcmd]; decide)
  rw [handleCommand_mode hcmd] at hafter
  rw [hafter] at hok ⊢
  obtain ⟨ch, n, hch, hn, hstored, hline⟩ := handleMode_limit hw hlimit hok
  refine ⟨ch, hch, hline, ?_⟩
  rw [hstored]
  constructor
  · intro hdenotes hnul
    exact absurd hnul hdenotes.cStr_eq.1
  · intro hsafe
    exact ((denotesLimit_exact _).2 hsafe n).1 hn

/-- The case of a limit with white space, a plus and a zero in front. -/
theorem run_limits_plus :
    let s := run [] [.addClient 3 5 (lit "h"),
      .dispatch 0 0 5 (Parser.parse (lit "PASS :")) none,
      .dispatch 0 0 5 (Parser.parse (lit "NICK a")) none,
      .dispatch 0 0 5 (Parser.parse (lit "USER a 0 * a")) none,
      .dispatch 7 0 5 (Parser.parse (lit "JOIN #x")) none]
    let after := dispatchWith 0 0 5 (Parser.parse (lit "MODE #x +l :\t+012")) s none
    ∃ ch, after.2.1.room (lit "#x") = some ch ∧ ch.modes.limit = 12 ∧
      DenotesLimit (lit "\t+012") ch.modes.limit := by
  intro s after
  obtain ⟨ch, hch, -, hiff⟩ := (run_limits [] _).2 0 0 5 (Parser.parse (lit "MODE #x +l :\t+012")) none 3
    (by decide +kernel : s.getClientByFd 5 = some 3) (by decide) (by decide) (by decide +kernel)
  have hlimit : (after.2.1.room (lit "#x")).map (·.modes.limit) = some 12 := by decide +kernel
  have hch' : after.2.1.room (lit "#x") = some ch := hch
  rw [hch'] at hlimit
  exact ⟨ch, hch, Option.some.inj hlimit, hiff.2 fun hnul => absurd hnul (by decide)⟩

/-- What follows a NUL is not looked at. -/
theorem limit_nul :
    let s := run [] [.addClient 3 5 (lit "h"),
      .dispatch 0 0 5 (Parser.parse (lit "PASS :")) none,
      .dispatch 0 0 5 (Parser.parse (lit "NICK a")) none,
      .dispatch 0 0 5 (Parser.parse (lit "USER a 0 * a")) none,
      .dispatch 7 0 5 (Parser.parse (lit "JOIN #x")) none]
    let arg := lit "5" ++ 0 :: lit "x"
    let after := dispatchWith 0 0 5 (Parser.parse (lit "MODE #x +l " ++ arg)) s none
    parsePositiveLimit arg = some 5 ∧ (∀ n, ¬ DenotesLimit arg n) ∧
      after.1 = reply 5 (lit ":a!a@h MODE #x +l " ++ arg ++ crlf) ∧
      (after.2.1.room (lit "#x")).map (·.modes.limit) = some 5 := by
  intro s arg after
  refine ⟨by decide +kernel, fun n hn => ?_, by decide +kernel, by decide +kernel⟩
  exact hn.cStr_eq.1 (by decide)

end Ircserv
