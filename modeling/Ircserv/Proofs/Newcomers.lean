import Ircserv.Proofs.Guests

/-!
# What reaches a client before its welcome

A client that is not registered is in no channel, so no broadcast and no notice of a disconnection
reaches it. But it may hold a nick already, and a text or an invite to the nick goes to its holder
without asking whether it is registered.
-/

open Std

namespace Ircserv

open ServerState CommandResult

/-- Before its welcome, a connection gets the replies to its own commands, and the texts and invites
that registered clients send to the nick it holds, and nothing else. -/
theorem run_newcomers (password : Str) (before : List Turn) (addr : Addr) (fd : Fd) (host : Str)
    (during : List Turn)
    (hlife : Lifetime (ServerState.play { password := password } before) fd during) :
    let s₀ := (ServerState.play { password := password } before).act (.addClient addr fd host)
    ∀ past t later, during = past ++ t :: later → ServerState.welcomes fd (s₀.traffic past) = 0 →
      let s := s₀.play past
      ∀ m ∈ (t.result s).replies, m.fd = fd → t.isCommandOf fd = true ∨
        ∃ addr now g msg monitor p q, t = .command addr now g msg monitor ∧
          s.getClientByFd g = some p ∧ s.getClientByFd fd = some q ∧
          NamedBy s p msg q m.message := by
  intro s₀ past t later hsplit hwelcomes s m hm hmfd
  obtain ⟨hw₀, hr₀, -, q, hq₀, hnew⟩ := hlife.arrived addr host
  have hstay : ∀ t ∈ past, t.isDepartureOf fd = false := fun t ht =>
    hlife.stays t (by rw [hsplit]; exact List.mem_append_left _ ht)
  have hq : s.getClientByFd fd = some q := getClientByFd_play hstay hw₀ hq₀
  obtain ⟨hcount, -⟩ := welcomes_play hstay hw₀ hr₀ hq₀
  rw [hnew, hwelcomes] at hcount
  have hreg : (s.clientAt q).registered = false := by
    rw [← Bool.toNat_eq_zero]
    exact hcount.symm
  rcases hcommand : t.isCommandOf fd
  · obtain ⟨addr, now, g, msg, monitor, p, ht, hp, hnamed⟩ :=
      named_of_mem_result (hw₀.play past) (hr₀.play hw₀ past) hq hreg hcommand hm hmfd
    exact .inr ⟨addr, now, g, msg, monitor, p, q, ht, hp, hq, hnamed⟩
  · exact .inl rfl

/-- The text to the nick of a client that has not sent USER. -/
theorem run_newcomers_text :
    let turns : List Turn := [.arrive 3 5 (lit "h"),
      .command 0 0 5 (Parser.parse (lit "PASS :")) none,
      .command 0 0 5 (Parser.parse (lit "NICK b")) none,
      .command 0 0 5 (Parser.parse (lit "USER b 0 * b")) none]
    let s₀ := (ServerState.play { password := [] } turns).act (.addClient 4 6 (lit "k"))
    let past : List Turn := [.command 0 0 6 (Parser.parse (lit "PASS :")) none,
      .command 0 0 6 (Parser.parse (lit "NICK a")) none]
    let text := Parser.parse (lit "PRIVMSG A :hi")
    let m : OutgoingMessage := ⟨6, lit ":b!b@h PRIVMSG A :hi" ++ ReplyBuilder.crlf⟩
    m ∈ ((Turn.command 0 0 5 text none).result (s₀.play past)).replies ∧
      ∃ p q, (s₀.play past).getClientByFd 5 = some p ∧ NamedBy (s₀.play past) p text q m.message := by
  intro turns s₀ past text m
  have hm : m ∈ ((Turn.command 0 0 5 text none).result (s₀.play past)).replies := by decide +kernel
  have hlife : Lifetime (ServerState.play { password := [] } turns) 6
      (past ++ [.command 0 0 5 text none]) := ⟨by decide +kernel, by decide⟩
  have hwelcomes : ServerState.welcomes 6 (s₀.traffic past) = 0 := by decide +kernel
  have hor := run_newcomers [] turns 4 6 (lit "k") _ hlife past _ [] rfl hwelcomes m hm rfl
  rcases hor with hown | hnamed
  · cases hown
  · obtain ⟨_, _, _, _, _, p, q, ht, hp, -, hnamed⟩ := hnamed
    cases ht
    exact ⟨hm, p, q, hp, hnamed⟩

/-- A client that was not welcomed gets a text of another client. -/
theorem newcomer_texted :
    let turns : List Turn := [.arrive 3 5 (lit "h"),
      .command 0 0 5 (Parser.parse (lit "PASS :")) none,
      .command 0 0 5 (Parser.parse (lit "NICK b")) none,
      .command 0 0 5 (Parser.parse (lit "USER b 0 * b")) none]
    let s₀ := (ServerState.play { password := [] } turns).act (.addClient 4 6 (lit "k"))
    let past : List Turn := [.command 0 0 6 (Parser.parse (lit "PASS :")) none,
      .command 0 0 6 (Parser.parse (lit "NICK a")) none]
    let t : Turn := .command 0 0 5 (Parser.parse (lit "PRIVMSG a :hi")) none
    Lifetime (ServerState.play { password := [] } turns) 6 (past ++ [t]) ∧
      ServerState.welcomes 6 (s₀.traffic past) = 0 ∧
      ¬ ∀ m ∈ (t.result (s₀.play past)).replies, m.fd = 6 → t.isCommandOf 6 = true := by
  intro turns s₀ past t
  refine ⟨⟨by decide +kernel, by decide⟩, by decide +kernel, fun hall => ?_⟩
  have hm : ⟨6, lit ":b!b@h PRIVMSG a :hi" ++ ReplyBuilder.crlf⟩ ∈
      (t.result (s₀.play past)).replies := by decide +kernel
  cases hall _ hm rfl

end Ircserv
