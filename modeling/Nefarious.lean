import Nefarious.Lib.Dll
import Nefarious.Strings
import Nefarious.Numnicks
import Nefarious.Network.Exit
import Nefarious.Network.Server
import Nefarious.Network.Linked
import Nefarious.Network.Tree
import Nefarious.Network.Run
import Nefarious.Channel.Modes
import Nefarious.Channel.ModeBuf
import Nefarious.Channel.Bounce
import Nefarious.Channel.Topic
import Nefarious.Iauthd.Answers
import Nefarious.Iauthd.Logins
import Nefarious.Lib.Flood
import Nefarious.User.Accounts
import Nefarious.User.Authority
import Nefarious.Lib.Since
import Nefarious.User.Registration
import Nefarious.User.Backends
import Nefarious.Channel.Destruct
import Nefarious.Input.Dbuf
import Nefarious.Glines
import Nefarious.Channel.Command
import Nefarious.Channel.Membership
import Nefarious.Channel.BanCache
import Nefarious.Iauthd.Cached
import Nefarious.Iauthd.Ldap
import Nefarious.Iauthd.Passwords
import Nefarious.Iauthd.Handlers
import Nefarious.Iauthd.Verdicts
import Nefarious.Iauthd.Wire
import Nefarious.Address.Base64
import Nefarious.Network.Registry
import Nefarious.Output.Link
import Nefarious.Channel.Names
import Nefarious.IPcheck.Mask
import Nefarious.IPcheck.Table
import Nefarious.IPcheck.Throttle
import Nefarious.Hash
import Nefarious.Whowas.Lists
import Nefarious.Watch
import Nefarious.Channel.Invite
import Nefarious.Classes
import Nefarious.Output.Sentalong
import Nefarious.Resolver
import Nefarious.Resolver.Lookups
import Nefarious.Resolver.Timeout
import Nefarious.Timers
import Nefarious.Timers.Discipline
import Nefarious.Crule
import Nefarious.Colors
import Nefarious.Utf8
import Nefarious.Canonize
import Nefarious.Jupes
import Nefarious.Crule.Arguments
import Nefarious.Crule.Grammar
import Nefarious.Lib.Glob
import Nefarious.Match
import Nefarious.Match.Patterns
import Nefarious.Channel.BanMask
import Nefarious.Channel.BanList
import Nefarious.Channel.BanList.Process
import Nefarious.Channel.BanList.Bookkeeping
import Nefarious.Lib.Leading
import Nefarious.Channel.BanExtent
import Nefarious.Channel.BanMask.Canonical
import Nefarious.Channel.BanMask.Extban
import Nefarious.Channel.BanMask.Rewritten
import Nefarious.Channel.ActivityBan
import Nefarious.Channel.ModeText
import Nefarious.Channel.ModeWalk
import Nefarious.Channel.NetRide
import Nefarious.Channel.ModePrinted
import Nefarious.Channel.JoinLine
import Nefarious.Glines.Enforce
import Nefarious.Glines.Breadth
import Nefarious.Glines.Codec
import Nefarious.Silence
import Nefarious.Silence.Limits
import Nefarious.Silence.Atomic
import Nefarious.Lib.Bsearch
import Nefarious.Capab
import Nefarious.Capab.Request
import Nefarious.Channel.ChannelLine
import Nefarious.Channel.Clearmode
import Nefarious.User.Username
import Nefarious.User.AccountWords
import Nefarious.Output.Flush
import Nefarious.User.LoginOnConnect
import Nefarious.Parse
import Nefarious.Parse.Command
import Nefarious.Parse.Dispatch
import Nefarious.Resolver.Answers
import Nefarious.Resolver.Names
import Nefarious.Resolver.Bounds
import Nefarious.Listing
import Nefarious.Snprintf
import Nefarious.Match.Collapse
import Nefarious.Match.Compiled
import Nefarious.Match.Escapes
import Nefarious.Parse.Tree
import Nefarious.User.Targets
