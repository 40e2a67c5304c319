import Mathlib.Data.Set.Function
import Ircserv.State
import Ircserv.Message

/-!
# Channels by name

The channels seen from outside: `room` finds a channel by its name, up to letter case, and says
nothing about where the object lives. A room is gone when its last member leaves.
-/

open Std

namespace Ircserv

/-- What is left of a channel when a member leaves it. -/
def Channel.leave (ch : Channel) (client : Addr) : Option Channel :=
  if (ch.removeClientState client).isEmpty then none else some (ch.removeClientState client)

/-- What is left of a channel when a client disconnects. -/
def Channel.forget (ch : Channel) (client : Addr) : Option Channel :=
  if ch.hasMember client then ch.leave client else some (ch.removeInvite client)

/-- A channel as its first member finds it. -/
def Channel.founded (name : Str) (client : Addr) : Channel :=
  (({ name := name } : Channel).addMember client).setOperator client true

/-- The channel of the name once the client has joined it. -/
def Channel.joined (ch : Option Channel) (name : Str) (client : Addr) : Channel :=
  match ch with
  | some ch => ch.addMember client
  | none => Channel.founded name client

/-- What a channel asks of a client that joins it: an invite, its key and a free place. -/
def Channel.Admits (ch : Channel) (client : Addr) (key : Option Str) : Prop :=
  (ch.modes.inviteOnly = true → client ∈ ch.invitedClients) ∧
    (ch.modes.hasKey = true → key = some ch.modes.key) ∧
    (ch.modes.limit = -1 ∨ (ch.memberCount : Int) < ch.modes.limit)

namespace ServerState

/-- The state with a new channel at `channel`. -/
def withChannel (s : ServerState) (channel : Addr) (name : Str) (ch : Channel) : ServerState :=
  { s with
    objects := s.objects.insert channel ch
    channels := s.channels.insertIfNew name channel }

/-- The channel with the name. -/
def room (s : ServerState) (name : Str) : Option Channel := s.channels[name]?.map s.channelAt

/-- The client is in the channel with the name. -/
def InRoom (s : ServerState) (client : Addr) (name : Str) : Prop :=
  ∃ ch, s.room name = some ch ∧ client ∈ ch.members

/-- The client holds an invite to the channel with the name. -/
def Invited (s : ServerState) (client : Addr) (name : Str) : Prop :=
  ∃ ch, s.room name = some ch ∧ client ∈ ch.invitedClients

instance (s : ServerState) (client : Addr) (name : Str) : Decidable (s.InRoom client name) :=
  decidable_of_iff ((s.room name).any (·.hasMember client) = true) <| by
    simp [InRoom, Channel.hasMember, Option.any_eq_true]

/-- How many clients are in the channel with the name. -/
def headcount (s : ServerState) (name : Str) : Nat := (s.room name).elim 0 Channel.memberCount

end ServerState

/-- The channel a command names. -/
def Message.channelName (msg : Message) : Str :=
  if msg.command = lit "INVITE" then msg.getSingleParam 1 else msg.getSingleParam 0

/-- The commands on a channel; a text is one when it is sent to a channel. -/
def Message.isChannelCommand (msg : Message) : Bool :=
  [lit "JOIN", lit "PART", lit "KICK", lit "INVITE", lit "TOPIC", lit "MODE"].contains msg.command ||
    [lit "PRIVMSG", lit "NOTICE"].contains msg.command &&
      (msg.getSingleParam 0).head? == some (chr '#')

/-- The states are the same but for where the channels live: `move` takes the address of a channel
in the one to its address in the other. -/
structure Relocated (move : Addr → Addr) (s s' : ServerState) : Prop where
  password : s'.password = s.password
  moves : Set.BijOn move {a | a ∈ s.objects} {a | a ∈ s'.objects}
  channelAt : ∀ a ∈ s.objects, s'.channelAt (move a) = s.channelAt a
  channels : ∀ n : Str, s'.channels[n]? = s.channels[n]?.map move
  keys : ∀ n : Str, s'.channels.getKey? n = s.channels.getKey? n
  fds : s'.client.fdToClient = s.client.fdToClient
  nicks : s'.client.nicknameToClient = s.client.nicknameToClient
  live : ∀ p, p ∈ s'.client.objects ↔ p ∈ s.client.objects
  clientAt : ∀ p, ∃ channels, s'.clientAt p = { s.clientAt p with channels := channels } ∧
    ∀ b, b ∈ channels ↔ ∃ a ∈ (s.clientAt p).channels, move a = b

/-- The client joined the channel at `a`: its invite is used up, and it is an operator if it founded
the channel. Nothing else happened: of a channel that was there, only the members and the invites
have changed, and of the client's record only its channels. -/
structure Joined (s s' : ServerState) (client a : Addr) (name : Str) : Prop where
  found : s'.getChannel name = some a
  member : client ∈ (s'.channelAt a).members
  consumed : client ∉ (s'.channelAt a).invitedClients
  operator : (s'.channelAt a).isOperator client = true ↔ s.getChannel name = none
  nothingElse : s.getChannel name = some a ∧
      s' = { s with
        objects := s.objects.modify a fun ch =>
          { ch with
            members := ch.members.insert client {}
            invitedClients := ch.invitedClients.erase client }
        client.objects := s.client.objects.modify client fun c =>
          { c with channels := c.channels.insert a } } ∨
    s.getChannel name = none ∧ a ∉ s.objects ∧
      s' = { s with
        channels := s.channels.insertIfNew name a
        objects := s.objects.insert a
          { name := name
            members := (∅ : ExtTreeMap Addr MemberInfo).insert client { isOperator := true } }
        client.objects := s.client.objects.modify client fun c =>
          { c with channels := c.channels.insert a } }

end Ircserv
