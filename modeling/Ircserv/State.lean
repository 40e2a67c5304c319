import Ircserv.Utils

/-!
# Clients, channels and the server's state

Objects live on heaps and refer to each other by address: a channel's `_members` and
`_invitedClients` hold addresses of clients, a client's `_channels` holds addresses of channels,
and `std::map<Client*, _>` and `std::set<Channel*>` are ordered by address. `ClientRegistry` owns
the clients through `_fdToClient`, `ServerState` owns the channels through `_channels`.

An operation that may call `new` takes the address `addr` it asks for.
-/

open Std

namespace Ircserv

structure ChannelModes where
  inviteOnly : Bool := false
  topicRestricted : Bool := false
  hasKey : Bool := false
  key : Str := []
  /-- `-1` is no limit. -/
  limit : Int := -1
  deriving DecidableEq, Inhabited

namespace ChannelModes

def setInviteOnly (m : ChannelModes) (inviteOnly : Bool) : ChannelModes :=
  { m with inviteOnly := inviteOnly }

def setTopicRestricted (m : ChannelModes) (topicRestricted : Bool) : ChannelModes :=
  { m with topicRestricted := topicRestricted }

def setKey (m : ChannelModes) (key : Str) : ChannelModes := { m with hasKey := true, key := key }

def unSetKey (m : ChannelModes) : ChannelModes := { m with hasKey := false, key := [] }

def setLimit (m : ChannelModes) (limit : Int) : ChannelModes :=
  if limit ≥ 1 ∨ limit = -1 then { m with limit := limit } else m

def unSetLimit (m : ChannelModes) : ChannelModes := { m with limit := -1 }

end ChannelModes

structure MemberInfo where
  isOperator : Bool := false
  deriving DecidableEq, Inhabited

structure Channel where
  name : Str
  topic : Str := []
  members : ExtTreeMap Addr MemberInfo := ∅
  invitedClients : ExtTreeSet Addr := ∅
  modes : ChannelModes := {}
  deriving Inhabited

namespace Channel

def setTopic (ch : Channel) (topic : Str) : Channel := { ch with topic := topic }

def hasMember (ch : Channel) (client : Addr) : Bool := ch.members.contains client

def addInvite (ch : Channel) (client : Addr) : Channel :=
  { ch with invitedClients := ch.invitedClients.insert client }

def isInvited (ch : Channel) (client : Addr) : Bool := ch.invitedClients.contains client

def removeInvite (ch : Channel) (client : Addr) : Channel :=
  { ch with invitedClients := ch.invitedClients.erase client }

/-- `_unsafe_addMember`. -/
def addMember (ch : Channel) (client : Addr) : Channel :=
  { ch with members := ch.members.insert client {} }.removeInvite client

/-- `_unsafe_removeMember`. -/
def removeMember (ch : Channel) (client : Addr) : Channel :=
  { ch with members := ch.members.erase client }

/-- `_unsafe_removeClientState`. -/
def removeClientState (ch : Channel) (client : Addr) : Channel :=
  (ch.removeMember client).removeInvite client

def getMembers (ch : Channel) : List Addr := ch.members.keys

def memberCount (ch : Channel) : Nat := ch.members.size

def isOperator (ch : Channel) (client : Addr) : Bool :=
  match ch.members[client]? with
  | some info => info.isOperator
  | none => false

def setOperator (ch : Channel) (client : Addr) (isOperator : Bool) : Channel :=
  { ch with members := ch.members.modify client fun info => { info with isOperator := isOperator } }

def setModes (ch : Channel) (modes : ChannelModes) : Channel := { ch with modes := modes }

def isEmpty (ch : Channel) : Bool := ch.members.isEmpty

end Channel

structure Client where
  nickname : Str := []
  username : Str := []
  realname : Str := []
  host : Str
  fd : Fd
  passOk : Bool := false
  registered : Bool := false
  channels : ExtTreeSet Addr := ∅
  deriving Inhabited

namespace Client

def getChannels (c : Client) : List Addr := c.channels.toList

def getFullPrefix (c : Client) : Str :=
  c.nickname ++ lit "!" ++ c.username ++ lit "@" ++ c.host

def setUsername (c : Client) (username : Str) : Client := { c with username := username }

def setRealname (c : Client) (realname : Str) : Client := { c with realname := realname }

/-- `_unsafe_setNick`. -/
def setNick (c : Client) (nick : Str) : Client := { c with nickname := nick }

/-- `_unsafe_joinChannel`. -/
def joinChannel (c : Client) (channel : Addr) : Client :=
  { c with channels := c.channels.insert channel }

/-- `_unsafe_leaveChannel`. -/
def leaveChannel (c : Client) (channel : Addr) : Client :=
  { c with channels := c.channels.erase channel }

def setPassOk (c : Client) (passOk : Bool) : Client := { c with passOk := passOk }

def canRegister (c : Client) : Bool :=
  c.passOk && !c.nickname.isEmpty && !c.username.isEmpty && !c.realname.isEmpty

def markRegistered (c : Client) : Client := { c with registered := true }

end Client

structure ClientRegistry where
  nicknameToClient : IrcMap Addr := ∅
  fdToClient : ExtTreeMap Fd Addr := ∅
  /-- The `Client` objects alive. -/
  objects : Heap Client := ∅
  deriving Inhabited

namespace ClientRegistry

def deref (r : ClientRegistry) (client : Addr) : Client := Heap.deref r.objects client

def modify (r : ClientRegistry) (client : Addr) (f : Client → Client) : ClientRegistry :=
  { r with objects := r.objects.modify client f }

def getClientByFd (r : ClientRegistry) (fd : Fd) : Option Addr := r.fdToClient[fd]?

def getClientByNick (r : ClientRegistry) (nick : Str) : Option Addr := r.nicknameToClient[nick]?

def addClient (r : ClientRegistry) (addr : Addr) (fd : Fd) (host : Str) : ClientRegistry :=
  match r.getClientByFd fd with
  | some _ => r
  | none =>
    let client := Heap.fresh r.objects addr
    { r with
      objects := r.objects.insert client { host := host, fd := fd }
      fdToClient := r.fdToClient.insertIfNew fd client }

def removeClient (r : ClientRegistry) (fd : Fd) : ClientRegistry :=
  match r.getClientByFd fd with
  | none => r
  | some client =>
    { nicknameToClient := r.nicknameToClient.erase (r.deref client).nickname
      fdToClient := r.fdToClient.erase fd
      objects := r.objects.erase client }

def updateNick (r : ClientRegistry) (client : Addr) (newNick : Str) : Bool × ClientRegistry :=
  let oldNick := (r.deref client).nickname
  if oldNick = newNick then (true, r)
  else if (match r.nicknameToClient[newNick]? with
      | some owner => owner != client
      | none => false) then (false, r)
  else
    let erased := if oldNick = [] then r.nicknameToClient else r.nicknameToClient.erase oldNick
    (true, { r with
      nicknameToClient := erased.insertIfNew newNick client
      objects := r.objects.modify client (·.setNick newNick) })

end ClientRegistry

structure ServerState where
  password : Str
  channels : IrcMap Addr := ∅
  /-- `_client`, the registry of the clients. -/
  client : ClientRegistry := {}
  /-- The `Channel` objects alive. -/
  objects : Heap Channel := ∅
  deriving Inhabited

namespace ServerState

/-- The client `client` points to. -/
def clientAt (s : ServerState) (client : Addr) : Client := s.client.deref client

/-- The channel `channel` points to. -/
def channelAt (s : ServerState) (channel : Addr) : Channel := Heap.deref s.objects channel

def modifyClient (s : ServerState) (client : Addr) (f : Client → Client) : ServerState :=
  { s with client := s.client.modify client f }

def modifyChannel (s : ServerState) (channel : Addr) (f : Channel → Channel) : ServerState :=
  { s with objects := s.objects.modify channel f }

def addClient (s : ServerState) (addr : Addr) (fd : Fd) (host : Str) : ServerState :=
  { s with client := s.client.addClient addr fd host }

def getClientByFd (s : ServerState) (fd : Fd) : Option Addr := s.client.getClientByFd fd

def getClientByNick (s : ServerState) (nick : Str) : Option Addr := s.client.getClientByNick nick

def updateNick (s : ServerState) (client : Addr) (newNick : Str) : Bool × ServerState :=
  let (ok, registry) := s.client.updateNick client newNick
  (ok, { s with client := registry })

def getChannel (s : ServerState) (name : Str) : Option Addr := s.channels[name]?

def getOrCreateChannel (s : ServerState) (addr : Addr) (name : Str) : Addr × ServerState :=
  match s.getChannel name with
  | some channel => (channel, s)
  | none =>
    let channel := Heap.fresh s.objects addr
    (channel, { s with
      objects := s.objects.insert channel { name := name }
      channels := s.channels.insertIfNew name channel })

def removeChannelIfEmpty (s : ServerState) (name : Str) : ServerState :=
  match s.channels[name]? with
  | none => s
  | some channel =>
    if (s.channelAt channel).isEmpty then
      { s with objects := s.objects.erase channel, channels := s.channels.erase name }
    else s

def addClientToChannel (s : ServerState) (addr : Addr) (client : Addr) (channelName : Str) :
    Option Addr × ServerState :=
  let (channel, s) := s.getOrCreateChannel addr channelName
  if (s.channelAt channel).hasMember client then (some channel, s)
  else
    let s := s.modifyChannel channel (·.addMember client)
    let s := s.modifyClient client (·.joinChannel channel)
    if (s.channelAt channel).memberCount = 1 then
      (some channel, s.modifyChannel channel (·.setOperator client true))
    else (some channel, s)

def removeClientFromChannel (s : ServerState) (client : Addr) (channelName : Str) : ServerState :=
  match s.getChannel channelName with
  | none => s
  | some channel =>
    if !(s.channelAt channel).hasMember client then s
    else
      let s := s.modifyChannel channel (·.removeClientState client)
      let s := s.modifyClient client (·.leaveChannel channel)
      s.removeChannelIfEmpty channelName

def inviteClientToChannel (s : ServerState) (client channel : Addr) : ServerState :=
  s.modifyChannel channel (·.addInvite client)

def removeClientFromAllInvites (s : ServerState) (client : Addr) : ServerState :=
  s.channels.toList.foldl (fun s entry => s.modifyChannel entry.2 (·.removeInvite client)) s

/-- What `removeClient` does to each channel the client is in. -/
def removeFromChannel (client : Addr) (s : ServerState) (channel : Addr) : ServerState :=
  let channelName := (s.channelAt channel).name
  let s := s.modifyChannel channel (·.removeClientState client)
  let s := s.modifyClient client (·.leaveChannel channel)
  s.removeChannelIfEmpty channelName

def removeClient (s : ServerState) (fd : Fd) : ServerState :=
  match s.getClientByFd fd with
  | none => s
  | some client =>
    let channels := (s.clientAt client).getChannels
    let s := channels.foldl (removeFromChannel client) s
    let s := s.removeClientFromAllInvites client
    { s with client := s.client.removeClient fd }

end ServerState

end Ircserv
