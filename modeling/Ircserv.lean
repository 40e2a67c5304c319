import Ircserv.Lib.Heap
import Ircserv.Lib.Segments
import Ircserv.Lib.Framing
import Ircserv.Utils
import Ircserv.State
import Ircserv.Message
import Ircserv.Reply
import Ircserv.Health
import Ircserv.Dispatch
import Ircserv.Connection
import Ircserv.Reading
import Ircserv.Server
import Ircserv.Session
import Ircserv.Proofs.Reading
import Ircserv.Proofs.State
import Ircserv.Proofs.Links
import Ircserv.Proofs.Removal
import Ircserv.Proofs.Nicks
import Ircserv.Proofs.Outcome
import Ircserv.Proofs.Handlers
import Ircserv.Proofs.Actions
import Ircserv.Proofs.Replies
import Ircserv.Proofs.Runs
import Ircserv.Proofs.Notice
import Ircserv.Proofs.Server
import Ircserv.Proofs.Moves
import Ircserv.Proofs.Agreement
import Ircserv.Proofs.Wakeups
import Ircserv.Proofs.Reads
import Ircserv.Proofs.Limit
import Ircserv.Proofs.HangUp
import Ircserv.Proofs.Delivery
import Ircserv.Proofs.Quits
import Ircserv.Proofs.Privilege
import Ircserv.Rooms
import Ircserv.Lines
import Ircserv.Proofs.Rooms
import Ircserv.Proofs.Lines
import Ircserv.Proofs.Registration
import Ircserv.Proofs.Channels
import Ircserv.Proofs.Lifetime
import Ircserv.Proofs.Numerics
import Ircserv.Lib.Since
import Ircserv.Turns
import Ircserv.Proofs.Invites
import Ircserv.Proofs.Turns
import Ircserv.Proofs.Welcome
import Ircserv.Proofs.Stall
import Ircserv.Proofs.Guests
import Ircserv.Proofs.Isolation
import Ircserv.Proofs.Reuse
import Ircserv.Proofs.Cleanup
import Ircserv.Proofs.Broadcasts
import Ircserv.Proofs.Texts
import Ircserv.Proofs.Events
import Ircserv.Proofs.Rejoin
import Ircserv.Proofs.Newcomers
import Ircserv.Proofs.Relays
import Ircserv.Modes
import Ircserv.Proofs.Numbers
import Ircserv.Proofs.Modes
import Ircserv.Views
import Ircserv.Proofs.Parsing
import Ircserv.Proofs.News
import Ircserv.Proofs.Changes
import Ircserv.Proofs.Told
import Ircserv.Proofs.Views
import Ircserv.Lib.Sweep
import Ircserv.Scan
import Ircserv.Proofs.Scan
import Ircserv.LineBuffer
import Ircserv.Proofs.LineBuffer
import Ircserv.Proofs.Bytes
import Ircserv.Proofs.Framed
import Ircserv.Proofs.Streams
import Ircserv.Serial
import Ircserv.Proofs.Serial
import Ircserv.Registers
import Ircserv.Proofs.Words
import Ircserv.Proofs.Topics
import Ircserv.Proofs.ModeViews
import Ircserv.Proofs.Written
import Ircserv.Proofs.LimitModes
import Ircserv.Proofs.Pings
import Ircserv.Proofs.Names
import Ircserv.Proofs.Targets
import Ircserv.Spelling
import Ircserv.Proofs.Spelling
import Ircserv.Bot
import Ircserv.Proofs.Bot
import Ircserv.Proofs.Answers
import Ircserv.Lib.Worklist
import Ircserv.Exchange
import Ircserv.Proofs.Exchange
import Ircserv.Proofs.Compare
import Ircserv.Lib.CArray
import Ircserv.Lib.Delimited
import Ircserv.Lib.Halting
import Ircserv.Libft
import Ircserv.Bircd
import Ircserv.Slots
import Ircserv.Proofs.PollSet
import Ircserv.Proofs.Slots
import Ircserv.Proofs.Incoming
import Ircserv.Proofs.Offers
import Ircserv.Proofs.Outgoing
import Ircserv.Proofs.Pass
import Ircserv.MiniServ
import Ircserv.Chat
import Ircserv.Proofs.SendAll
import Ircserv.Proofs.Visits
import Ircserv.Proofs.Buffers
import Ircserv.Proofs.Flushes
import Ircserv.Proofs.Chat
import Ircserv.Shutdown
import Ircserv.Proofs.Shutdown
import Ircserv.BotLoop
import Ircserv.Proofs.BotLoop
import Ircserv.Proofs.Linked
import Ircserv.Conversation
import Ircserv.Proofs.Conversation
import Ircserv.Proofs.Operators
import Ircserv.Lib.CMemory
import Ircserv.Pointers
import Ircserv.Proofs.Pointers
import Ircserv.Proofs.MainLoop
