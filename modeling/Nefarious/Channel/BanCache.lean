import Nefarious.Strings

/-!
# The ban cache of a channel

Whether a member is banned is looked up in the ban list once and then kept in the bits `banflags` of the
membership; the same goes for the exceptions.

Names: `channel.c`.
-/

set_option linter.unusedSectionVars false

namespace Nefarious.BanCache

open Option (map_map map_some some.inj)
open List (map_cons mem_cons_of_mem mem_cons_self mem_map)
open Function (update update_of_ne update_self)

/-! ### Users, bans and memberships -/

/-- Longest host name. `ircd_defs.h`. -/
def hostLen : ℕ := 75

/-- Longest user name. `ircd_defs.h`. -/
def userLen : ℕ := 10

/-- An address, by its eight groups. `res.h` `struct irc_in_addr`. -/
abbrev Addr := List ℕ

/-- The features, and the functions of other modules that the lookup and the hosts of a user depend on.
`ircd_features.c`, `match.c`, `ircd_cloaking.c`. -/
structure Env where
  /-- A mask matches a text, `!match(mask, name)`. -/
  isMatch : Str → Str → Bool
  ipmaskCheck : Addr → Addr → ℕ → Bool
  /-- `hidehost_ipv4` and `hidehost_ipv6`. -/
  hidehostIp : Addr → Str
  hidehostNormalhost : Str → ℕ → Str
  hostHidingStyle : ℤ
  operhostHiding : Bool
  hiddenOperhost : Str
  hiddenHost : Str
  jMaxdepth : ℕ

/-- Hosts are made of accounts. `find_ban`. -/
def Env.accountHosts (env : Env) : Bool := env.hostHidingStyle = 1 ∨ env.hostHidingStyle = 3

/-- Hosts are cloaked. `user_setcloaked`. -/
def Env.cloakedHosts (env : Env) : Bool := env.hostHidingStyle = 2 ∨ env.hostHidingStyle = 3

/-- A user. A text that counts only with a flag is `none` without the flag. `client.h` `struct Client`,
`struct.h` `struct User`. -/
structure User where
  name : Str
  username : Str
  /-- `host`, the host that is shown. -/
  host : Str
  realhost : Str
  sockIp : Str
  ip : Addr
  /-- `IsCloakIP` with. -/
  cloakip : Option Str
  /-- `IsCloakHost` with. -/
  cloakhost : Option Str
  /-- `IsSetHost` with. -/
  sethost : Option Str
  /-- `IsFakeHost` with. -/
  fakehost : Option Str
  /-- `IsAccount` with. -/
  account : Option Str
  hiddenHost : Bool
  anOper : Bool
  hideOper : Bool
  /-- `cli_info`, the real name. -/
  info : Str
  marks : List Str
  components : ℕ
  myUser : Bool
deriving DecidableEq

/-- What an extended ban matches; a ban has at most one type of mask. `EBAN_MASKTYPE`, `struct ExtBan`. -/
inductive What where
  | account (mask : Str)
  | realname (mask : Str)
  | mark (mask : Str)
  | markua (mask : Str)
  | channel (mask : Str)
  | join (mask : Str)
  /-- None of these, with a mask that is cut at `nu_len`. -/
  | mask (nu hostmask : Str)
  /-- None of these, and `nu_len` is zero. -/
  | bare
deriving DecidableEq

/-- What the answer is for. `EBAN_NONE`, `EBAN_QUIET`, `EBAN_NICK`. -/
inductive Kind where
  | none
  | quiet
  | nick
deriving DecidableEq

/-- An extended ban. `struct ExtBan`. -/
structure ExtBan where
  quiet : Bool
  nick : Bool
  negatemask : Bool
  /-- The type of the mask and the mask. -/
  what : What
deriving DecidableEq

/-- A ban; `banstr` is cut at `nu_len`. `struct Ban`. -/
structure Ban where
  exception : Bool
  /-- `BAN_IPMASK` with `address` and `addrbits`. -/
  ipmask : Option (Addr × ℕ)
  /-- `BAN_EXTENDED` with. -/
  extban : Option ExtBan
  /-- `banstr` before `nu_len`. -/
  nu : Str
  /-- `banstr` after `nu_len`. -/
  hostmask : Str
deriving DecidableEq

/-- A channel. `struct Channel`. -/
structure Chan where
  chname : Str
  banlist : List Ban
  exceptlist : List Ban
deriving DecidableEq

/-- One of the lists. `find_ban` (`isexcepts`). -/
def Chan.list (ch : Chan) (except : Bool) : List Ban := if except then ch.exceptlist else ch.banlist

/-- One answer that is kept. `MBFL_BANVALID`, `MBFL_EXCEPTVALID`. -/
structure Slot where
  /-- The answer is about the exceptions. -/
  except : Bool
  kind : Kind
deriving DecidableEq

/-- A membership. `struct Membership`. -/
structure Member (κ : Type) where
  user : κ
  /-- `channel`, by its folded name. -/
  channel : Str
  chname : Str
  chanOp : Bool
  halfOp : Bool
  voice : Bool
  zombie : Bool
  /-- `banflags`: the answer whose bit is valid. -/
  banflags : Slot → Option Bool

/-- A server. -/
structure State (κ : Type) where
  users : κ → User
  members : List (Member κ)
  /-- The channels by their folded names. -/
  chans : Str → Option Chan

/-- Fold a name. `hash.c` `hSeekChannel`. -/
def key (name : Str) : Str := name.map toLower

/-- `hash.h` `FindChannel`, `hash.c` `hSeekChannel`. -/
def findChannel (chans : Str → Option Chan) (name : Str) : Option Chan :=
  if name = [] then none else chans (key name)

/-! ### The lookup -/

/-- The texts that masks of nicks, users and hosts are compared with. `find_ban`. -/
structure Hosts where
  nu : Str
  host : Str
  realhost : Str
  cloakip : Option Str
  cloakhost : Option Str
  sr : Option Str
  ip : Addr
deriving DecidableEq

/-- A channel that a user is on. `find_ban`. -/
structure On where
  chname : Str
  chanOp : Bool
  halfOp : Bool
  voice : Bool
deriving DecidableEq

/-- What a lookup reads of a user. `find_ban`. -/
structure View where
  hosts : Hosts
  /-- `IsAccount` with `cli_account`. -/
  account : Option Str
  info : Str
  marks : List Str
  /-- `cli_user->channel`. -/
  channels : List On
deriving DecidableEq

/-- Build nick!user and the alternate host names. `find_ban`. -/
def hosts (env : Env) (u : User) : Hosts where
  nu := u.name ++ '!' :: u.username
  host := u.host
  realhost := u.realhost
  cloakip := u.cloakip
  cloakhost := u.cloakhost
  sr := if env.accountHosts then
      u.account.map fun account => (account ++ '.' ::
        (if env.operhostHiding && u.anOper then env.hiddenOperhost else env.hiddenHost)).take (hostLen - 1)
    else none
  ip := u.ip

/-- `s_conf.c` `find_mark_match`. -/
def findMarkMatch (env : Env) (marks : List Str) (mask : Str) : Bool := marks.any (env.isMatch mask)

/-- `IsChannelName`. -/
def isChannelName (name : Str) : Bool := name.head? = some '#' ∨ name.head? = some '&'

/-- A mask of channels matches one of them: by its name, or with the status before the name. `find_ban`. -/
def channelMatches (env : Env) (mask : Str) (lp : On) : Bool :=
  if isChannelName mask && env.isMatch mask lp.chname then true
  else if env.isMatch (mask.drop 1) lp.chname then
    (mask.head? = some '@' && lp.chanOp) || (mask.head? = some '%' && lp.halfOp)
      || (mask.head? = some '+' && lp.voice)
  else false

/-- The address of a user is in that of a ban. `find_ban`. -/
def ipMatches (env : Env) (h : Hosts) (b : Ban) : Bool :=
  b.ipmask.any fun m => env.ipmaskCheck h.ip m.1 m.2

/-- `ismatch` for an extended ban; a `~j` ban has none. The hosts of a plain mask have to match all at once.
`find_ban`. -/
def extMatches (env : Env) (v : View) (b : Ban) : What → Bool
  | .account mask => v.account.any (env.isMatch mask)
  | .realname mask => env.isMatch mask v.info
  | .mark mask => findMarkMatch env v.marks mask
  | .markua mask => v.account.isNone && findMarkMatch env v.marks mask
  | .channel mask => v.channels.any (channelMatches env mask)
  | .join _ => false
  | .mask nu hostmask =>
    env.isMatch nu v.hosts.nu || (ipMatches env v.hosts b && env.isMatch hostmask v.hosts.host
        && env.isMatch hostmask v.hosts.realhost && v.hosts.cloakip.any (env.isMatch hostmask)
        && v.hosts.cloakhost.any (env.isMatch hostmask) && v.hosts.sr.any (env.isMatch hostmask))
  | .bare => false

/-- An extended ban is about this kind of answer. `find_ban`. -/
def ExtBan.applies (x : ExtBan) : Kind → Bool
  | .none => !x.quiet && !x.nick
  | .quiet => x.quiet || (!x.quiet && !x.nick)
  | .nick => x.nick || (!x.quiet && !x.nick)

/-- An ordinary ban matches. `find_ban`. -/
def banMatches (env : Env) (h : Hosts) (b : Ban) : Bool :=
  env.isMatch b.nu h.nu &&
    (ipMatches env h b || env.isMatch b.hostmask h.host || env.isMatch b.hostmask h.realhost
      || h.cloakip.any (env.isMatch b.hostmask) || h.cloakhost.any (env.isMatch b.hostmask)
      || h.sr.any (env.isMatch b.hostmask))

/-- One entry of a list, after `found`: `none` ends the search without a ban. `sub` looks up another channel,
when the level allows it. `find_ban`. -/
def entry (env : Env) (sub : Option (Str → Option (Option Ban))) (v : View) (t : Kind) (found : Option Ban)
    (b : Ban) : Option (Option Ban) :=
  if found.isSome && !b.exception then some found
  else match b.extban with
    | some x =>
      match x.what with
      | .join mask =>
        match sub with
        | none => some found
        | some f => some (if x.applies t && x.negatemask then some b else (f mask).getD found)
      | w => some (if x.applies t && (x.negatemask != extMatches env v b w) then some b else found)
    | none =>
      if !banMatches env v.hosts b then some found
      else if b.exception then none
      else some (some b)

/-- Walk through a ban list. `find_ban`. -/
def scan (env : Env) (sub : Option (Str → Option (Option Ban))) (v : View) (t : Kind) :
    Option Ban → List Ban → Option Ban
  | found, [] => found
  | found, b :: bans =>
    match entry env sub v t found b with
    | none => none
    | some found => scan env sub v t found bans

/-- Search for a ban that matches a user; the number is how many levels of `~j` bans are left. -/
def findBan (env : Env) (chans : Str → Option Chan) (v : View) (except : Bool) (t : Kind) :
    ℕ → List Ban → Option Ban
  | 0, bans => scan env none v t none bans
  | n + 1, bans =>
    scan env (some fun mask => (findChannel chans mask).map fun ch =>
      findBan env chans v except t n (ch.list except)) v t none bans

variable {κ : Type} [DecidableEq κ]

/-- The channel of a membership, with the status there. `find_ban`. -/
def Member.on (m : Member κ) : On := ⟨m.chname, m.chanOp, m.halfOp, m.voice⟩

/-- The channels of a user. `find_ban`. -/
def channelsOf (members : List (Member κ)) (u : κ) : List On :=
  (members.filter fun m => m.user = u).map Member.on

/-- What a lookup reads of a user. `find_ban`. -/
def view (env : Env) (s : State κ) (u : κ) : View where
  hosts := hosts env (s.users u)
  account := (s.users u).account
  info := (s.users u).info
  marks := (s.users u).marks
  channels := channelsOf s.members u

/-- The list of a membership's channel. `is_banned`, `is_excepted`. -/
def listOf (s : State κ) (m : Member κ) (except : Bool) : List Ban :=
  ((s.chans m.channel).map fun ch => ch.list except).getD []

/-- The answer that is computed afresh. `is_banned`, `is_excepted`. -/
def fresh (env : Env) (s : State κ) (m : Member κ) (slot : Slot) : Bool :=
  (findBan env s.chans (view env s m.user) slot.except slot.kind env.jMaxdepth (listOf s m slot.except)).isSome

/-- The answer for a member, and the membership with the answer kept. `is_banned`, `is_excepted`. -/
def isBanned (env : Env) (s : State κ) (m : Member κ) (slot : Slot) : Bool × Member κ :=
  match m.banflags slot with
  | some b => (b, m)
  | none =>
    (fresh env s m slot,
      { m with banflags := update m.banflags slot (some (fresh env s m slot)) })

/-! ### The hosts of a user -/

/-- `user_setcloaked`. -/
def userSetcloaked (env : Env) (u : User) : User :=
  if !env.cloakedHosts then u
  else
    let u := if u.cloakip.isSome then u
      else { u with cloakip := some ((env.hidehostIp u.ip).take hostLen) }
    if u.cloakhost.isSome then u
    else if key (u.sockIp.take (hostLen + 1)) = key (u.host.take (hostLen + 1)) then
      { u with cloakhost := some ((u.cloakip.getD []).take hostLen) }
    else { u with cloakhost := some ((env.hidehostNormalhost u.realhost u.components).take hostLen) }

/-- The host to change to, and the user name when there is one. `hide_hostmask`. -/
def newHost (env : Env) (u : User) : Str × Str :=
  match u.sethost with
  | some sethost =>
    if '@' ∈ sethost then
      (((sethost.dropWhile (· ≠ '@')).drop 1).take hostLen, (sethost.take userLen).takeWhile (· ≠ '@'))
    else (sethost.take hostLen, [])
  | none =>
    match u.fakehost with
    | some fakehost => (fakehost.take hostLen, [])
    | none =>
      if env.hostHidingStyle = 1 ∨ (env.hostHidingStyle = 3 ∧ u.account.isSome) then
        ((u.account.getD [] ++ '.' :: (if u.anOper && !u.hideOper && env.operhostHiding then env.hiddenOperhost
            else env.hiddenHost)).take (hostLen - 1), [])
      else if env.cloakedHosts && u.cloakhost.isSome then ((u.cloakhost.getD []).take hostLen, [])
      else (u.realhost.take hostLen, [])

/-- Two hosts are the same. `s_user.c` (`ircd_strncmp`). -/
def sameHost (a b : Str) : Bool := key (a.take hostLen) = key (b.take hostLen)

/-- Change to the new host; the answer says whether it is another one, which is when the bits of the user are
cleared. `hide_hostmask`. -/
def toNewHost (env : Env) (u : User) : User × Bool :=
  if sameHost u.host (newHost env u).1 then (u, false)
  else
    ({ u with
      host := (newHost env u).1
      username := if (newHost env u).2 = [] then u.username else (newHost env u).2 }, true)

def hideHostmask (env : Env) (u : User) : User × Bool :=
  if !u.hiddenHost then (u, false)
  else if u.fakehost.isNone && u.sethost.isNone && (env.hostHidingStyle < 0 || 3 < env.hostHidingStyle
        || (env.hostHidingStyle = 1 && u.account.isNone)) then (u, false)
  else toNewHost env (if u.cloakhost.isNone && env.cloakedHosts then userSetcloaked env u else u)

def unhideHostmask (u : User) : User × Bool :=
  if u.hiddenHost then (u, false)
  else if sameHost u.host u.realhost then (u, false)
  else ({ u with host := u.realhost.take hostLen }, true)

/-- One thing that a command changes about a user before it looks at the host. -/
inductive Edit where
  /-- `SVSIDENT`. `m_svsident.c` -/
  | username (ident : Str)
  /-- `ACCOUNT` and user mode `+r`. `m_account.c`, `set_user_mode` -/
  | account (account : Option Str)
  /-- `OPER` and the user modes `o` and `O`. `m_oper.c` `do_oper`, `set_user_mode` -/
  | oper (anOper : Bool)
  /-- User mode `H`. `set_user_mode` -/
  | hideOper (hideOper : Bool)
  /-- `MARK`. `m_mark.c`, `s_conf.c` `add_mark` -/
  | mark (mark : Str)
  /-- User mode `h` and `SETHOST`. `m_sethost.c`, `set_user_mode` -/
  | sethost (sethost : Option Str)
  /-- User mode `f` and `FAKE`. `m_fake.c`, `set_user_mode` -/
  | fakehost (fakehost : Option Str)
  /-- User mode `x`. `set_user_mode` -/
  | hiddenHost (hiddenHost : Bool)
  /-- User mode `c`. `set_user_mode` -/
  | cloakip (cloakip : Str)
  /-- User mode `C`. `set_user_mode` -/
  | cloakhost (cloakhost : Str)
deriving DecidableEq

/-- What a change does to a user. see `Edit`. -/
def Edit.apply (u : User) : Edit → User
  | .username ident => { u with username := ident.take userLen }
  | .account a => { u with account := a }
  | .oper o => { u with anOper := o }
  | .hideOper o => { u with hideOper := o }
  | .mark text => if u.marks.any (strEq text) then u else { u with marks := text :: u.marks }
  | .sethost h => { u with sethost := h }
  | .fakehost h => { u with fakehost := h }
  | .hiddenHost x => { u with hiddenHost := x }
  | .cloakip h => { u with cloakip := some (h.take hostLen) }
  | .cloakhost h => { u with cloakhost := some (h.take hostLen) }

/-- Which of the host functions a command calls at its end. -/
inductive Hosting where
  | keep
  | hide
  | unhide
deriving DecidableEq

/-- The host functions. `hide_hostmask`, `unhide_hostmask`. -/
def Hosting.apply (env : Env) (u : User) : Hosting → User × Bool
  | .keep => (u, false)
  | .hide => hideHostmask env u
  | .unhide => unhideHostmask u

/-- What `CLEARMODE` takes away. `m_clearmode.c` `do_clearmode`. -/
structure Control where
  /-- `b`. -/
  ban : Bool
  /-- `e`. -/
  except : Bool
  /-- `o`. -/
  chanOp : Bool
  /-- `h`. -/
  halfOp : Bool
  /-- `v`. -/
  voice : Bool
deriving DecidableEq

/-- A step of a server. `channel.c`, `s_user.c`. -/
inductive Op (κ : Type) where
  /-- Somebody speaks or changes the nick, and `is_banned` or `is_excepted` is asked. -/
  | ask (u : κ) (chan : Str) (slot : Slot)
  | nick (u : κ) (nick : Str)
  | user (u : κ) (edits : List Edit) (hosting : Hosting)
  /-- A user joins a channel, which may be new. -/
  | join (u : κ) (chan : Str) (chanOp halfOp voice : Bool)
  | leave (u : κ) (chan : Str)
  /-- A member is kicked and stays as a zombie. -/
  | zombie (u : κ) (chan : Str)
  | status (u : κ) (chan : Str) (chanOp halfOp voice : Bool)
  /-- A list is changed by `MODE` or `BURST`. -/
  | bans (chan : Str) (except : Bool) (list : List Ban)
  | clearmode (chan : Str) (del : Control)
  /-- A channel without members is deleted. -/
  | destruct (chan : Str)
  | introduce (u : κ) (data : User)

/-- The membership of a user on a channel. `find_member_link`. -/
def Member.is (m : Member κ) (u : κ) (chan : Str) : Bool := m.user = u && m.channel = key chan

/-- Clear some of the bits. `ClearBanValid`. -/
def Member.clear (m : Member κ) (p : Slot → Bool) : Member κ :=
  { m with banflags := fun slot => if p slot then none else m.banflags slot }

def State.mapMembers (s : State κ) (f : Member κ → Member κ) : State κ :=
  { s with members := s.members.map f }

def State.setUser (s : State κ) (u : κ) (data : User) : State κ :=
  { s with users := update s.users u data }

def State.setChan (s : State κ) (chan : Str) (ch : Option Chan) : State κ :=
  { s with chans := update s.chans (key chan) ch }

def Chan.setList (ch : Chan) (except : Bool) (list : List Ban) : Chan :=
  if except then { ch with exceptlist := list } else { ch with banlist := list }

/-- The nick of a user changes. A user of this server has the bits for everything but speaking cleared. -/
def setNickName (s : State κ) (u : κ) (nick : Str) : State κ :=
  let s := if (s.users u).myUser then
      s.mapMembers fun m => if m.user = u then m.clear fun slot => slot.kind ≠ .quiet else m
    else s
  s.setUser u { s.users u with name := nick }

/-- Change the data of a user, then the host; when the host changes, all bits of the user are cleared. `hide_hostmask`, `unhide_hostmask`. -/
def editUser (env : Env) (s : State κ) (u : κ) (edits : List Edit) (hosting : Hosting) : State κ :=
  let after := hosting.apply env (edits.foldl Edit.apply (s.users u))
  let s := s.setUser u after.1
  if after.2 then s.mapMembers fun m => if m.user = u then m.clear fun _ => true else m else s

/-- A user joins a channel, with no valid bits. -/
def addUserToChannel (s : State κ) (u : κ) (chan : Str) (chanOp halfOp voice : Bool) : State κ :=
  if s.members.any fun m => m.is u chan then s
  else
    let ch := (s.chans (key chan)).getD ⟨chan, [], []⟩
    { s.setChan chan (some ch) with
      members := ⟨u, key chan, ch.chname, chanOp, halfOp, voice, false, fun _ => none⟩ :: s.members }

/-- A new list, and the bits of all members that are about it. `mode_process_bans`, `mode_process_excepts`,
`mode_ban_invalidate`, `mode_except_invalidate`, `m_burst.c`. -/
def modeProcessBans (s : State κ) (chan : Str) (except : Bool) (list : List Ban) : State κ :=
  (s.setChan chan ((s.chans (key chan)).map fun ch => ch.setList except list)).mapMembers fun m =>
    if m.channel = key chan then m.clear fun slot => slot.except = except else m

/-- A member loses bits and status. `m_clearmode.c` `do_clearmode`. -/
def Control.member (del : Control) (m : Member κ) : Member κ :=
  { m.clear fun slot => if slot.except then del.except else del.ban with
    chanOp := m.chanOp && !del.chanOp
    halfOp := m.halfOp && !del.halfOp
    voice := m.voice && !del.voice }

/-- Take lists and status away, zombies apart. `m_clearmode.c`. -/
def doClearmode (s : State κ) (chan : Str) (del : Control) : State κ :=
  (s.setChan chan ((s.chans (key chan)).map fun ch =>
    { ch with
      banlist := if del.ban then [] else ch.banlist
      exceptlist := if del.except then [] else ch.exceptlist })).mapMembers fun m =>
    if m.channel = key chan ∧ m.zombie = false then del.member m else m

/-- One step. `channel.c`, `s_user.c`. -/
def step (env : Env) (s : State κ) : Op κ → State κ
  | .ask u chan slot => s.mapMembers fun m => if m.is u chan then (isBanned env s m slot).2 else m
  | .nick u nick => setNickName s u nick
  | .user u edits hosting => editUser env s u edits hosting
  | .join u chan chanOp halfOp voice => addUserToChannel s u chan chanOp halfOp voice
  | .leave u chan => { s with members := s.members.filter fun m => !m.is u chan }
  | .zombie u chan => s.mapMembers fun m => if m.is u chan then { m with zombie := true } else m
  | .status u chan chanOp halfOp voice => s.mapMembers fun m =>
    if m.is u chan then { m with chanOp := chanOp, halfOp := halfOp, voice := voice } else m
  | .bans chan except list => modeProcessBans s chan except list
  | .clearmode chan del => doClearmode s chan del
  | .destruct chan => if s.members.any fun m => m.channel = key chan then s else s.setChan chan none
  | .introduce u data => if s.members.any fun m => m.user = u then s else s.setUser u data

def run (env : Env) (s : State κ) (ops : List (Op κ)) : State κ := ops.foldl (step env) s

def State.start (users : κ → User) : State κ := ⟨users, [], fun _ => none⟩

/-! ### What a list looks at -/

/-- A thing that the entries of a list may look at. `find_ban`. -/
inductive Aspect where
  /-- Nick, user name, hosts and address. -/
  | mask
  | account
  | realname
  | marks
  /-- The channels of the user, and the status there. -/
  | channels
  | list (except : Bool) (chan : Str)
deriving DecidableEq

/-- What an extended ban looks at. `find_ban`. -/
def What.reads : What → Aspect → Bool
  | .account _, .account => true
  | .realname _, .realname => true
  | .mark _, .marks => true
  | .markua _, .marks => true
  | .markua _, .account => true
  | .channel _, .channels => true
  | .mask _ _, .mask => true
  | _, _ => false

/-- What a ban looks at; an extended ban for something else looks at nothing. `find_ban`. -/
def Ban.reads (b : Ban) (t : Kind) (a : Aspect) : Bool :=
  match b.extban with
  | some x => x.applies t && x.what.reads a
  | none => a = .mask

/-- The mask of a `~j` ban. `find_ban`. -/
def Ban.joinMask (b : Ban) : Option Str :=
  match b.extban with
  | some ⟨_, _, _, .join mask⟩ => some mask
  | _ => none

/-- What a list looks at, with the lists that `~j` bans lead to. `find_ban`. -/
def readsIn (chans : Str → Option Chan) (except : Bool) (t : Kind) : ℕ → List Ban → Aspect → Prop
  | 0, bans, a => ∃ b ∈ bans, b.reads t a
  | n + 1, bans, a => ∃ b ∈ bans, b.reads t a ∨ ∃ mask, b.joinMask = some mask ∧
      (a = .list except (key mask) ∨
        ∃ ch, findChannel chans mask = some ch ∧ readsIn chans except t n (ch.list except) a)

/-- What the answer for a membership depends on. `is_banned`. -/
def Reads (env : Env) (s : State κ) (m : Member κ) (slot : Slot) (a : Aspect) : Prop :=
  a = .list slot.except m.channel ∨
    readsIn s.chans slot.except slot.kind env.jMaxdepth (listOf s m slot.except) a

/-- Two views of a user and two networks of channels that do not differ in one thing. -/
def Same (chans chans' : Str → Option Chan) (v v' : View) : Aspect → Prop
  | .mask => v.hosts = v'.hosts
  | .account => v.account = v'.account
  | .realname => v.info = v'.info
  | .marks => v.marks = v'.marks
  | .channels => v.channels = v'.channels
  | .list except chan =>
    (chans chan).map (fun ch => ch.list except) = (chans' chan).map (fun ch => ch.list except)

section Congr

variable (env : Env) {chans chans' : Str → Option Chan} {v v' : View} {t : Kind}

lemma extMatches_congr {w : What} (b : Ban) (h : ∀ a, w.reads a → Same chans chans' v v' a) :
    extMatches env v b w = extMatches env v' b w := by
  cases w with
  | account mask =>
    have hacc : v.account = v'.account := h .account rfl
    simp only [extMatches, hacc]
  | realname mask =>
    have hinfo : v.info = v'.info := h .realname rfl
    simp only [extMatches, hinfo]
  | mark mask =>
    have hmarks : v.marks = v'.marks := h .marks rfl
    simp only [extMatches, hmarks]
  | markua mask =>
    have hmarks : v.marks = v'.marks := h .marks rfl
    have hacc : v.account = v'.account := h .account rfl
    simp only [extMatches, hmarks, hacc]
  | channel mask =>
    have hon : v.channels = v'.channels := h .channels rfl
    simp only [extMatches, hon]
  | join mask => rfl
  | mask nu hostmask =>
    have hhosts : v.hosts = v'.hosts := h .mask rfl
    simp only [extMatches, hhosts]
  | bare => rfl

lemma entry_congr {sub sub' : Option (Str → Option (Option Ban))} {b : Ban} (found : Option Ban)
    (hr : ∀ a, b.reads t a → Same chans chans' v v' a) (hsome : sub.isSome = sub'.isSome)
    (hsub : ∀ mask, b.joinMask = some mask → ∀ f f', sub = some f → sub' = some f' → f mask = f' mask) :
    entry env sub v t found b = entry env sub' v' t found b := by
  obtain ⟨exception, ipmask, extban, nu, hostmask⟩ := b
  rcases extban with _ | ⟨quiet, nick, negate, w⟩
  · have hhosts : v.hosts = v'.hosts := hr .mask rfl
    simp only [entry, hhosts]
  · by_cases hap : ExtBan.applies ⟨quiet, nick, negate, w⟩ t = true
    · have hw : ∀ a, w.reads a → Same chans chans' v v' a := by
        intro a ha
        apply hr
        simp only [Ban.reads, hap, ha, Bool.and_self]
      have hm := extMatches_congr env ⟨exception, ipmask, some ⟨quiet, nick, negate, w⟩, nu, hostmask⟩ hw
      cases w with
      | join mask =>
        cases sub <;> cases sub' <;> simp only [Option.isSome, reduceCtorEq] at hsome
        · rfl
        · simp only [entry, hsub mask rfl _ _ rfl rfl]
      | _ => simp only [entry, hm]
    · rw [Bool.not_eq_true] at hap
      cases w with
      | join mask =>
        cases sub <;> cases sub' <;> simp only [Option.isSome, reduceCtorEq] at hsome
        · rfl
        · simp only [entry, hsub mask rfl _ _ rfl rfl]
      | _ => simp only [entry, hap, Bool.false_and, Bool.false_eq_true, if_false]

lemma scan_congr {sub sub' : Option (Str → Option (Option Ban))} (hsome : sub.isSome = sub'.isSome) :
    (bans : List Ban) → ∀ found, (∀ b ∈ bans, ∀ a, b.reads t a → Same chans chans' v v' a) →
      (∀ b ∈ bans, ∀ mask, b.joinMask = some mask → ∀ f f', sub = some f → sub' = some f' → f mask = f' mask) →
      scan env sub v t found bans = scan env sub' v' t found bans
  | [], _, _, _ => rfl
  | b :: bans, found, hr, hsub => by
    have he := entry_congr env found (hr b mem_cons_self) hsome (hsub b mem_cons_self)
    rw [scan, scan, he]
    cases entry env sub' v' t found b with
    | none => rfl
    | some found' =>
      exact scan_congr hsome bans found' (fun b' hb' => hr b' (mem_cons_of_mem b hb'))
        (fun b' hb' => hsub b' (mem_cons_of_mem b hb'))

lemma findChannel_congr {except : Bool} {mask : Str} (h : Same chans chans' v v' (.list except (key mask))) :
    (findChannel chans mask).map (fun ch => ch.list except)
      = (findChannel chans' mask).map (fun ch => ch.list except) := by
  unfold findChannel
  split
  · rfl
  · exact h

lemma map_list_congr {except : Bool} {f f' : List Ban → Option Ban} {o o' : Option Chan}
    (h : o.map (fun ch => ch.list except) = o'.map (fun ch => ch.list except))
    (hf : ∀ ch, o = some ch → f (ch.list except) = f' (ch.list except)) :
    o.map (fun ch => f (ch.list except)) = o'.map (fun ch => f' (ch.list except)) := by
  rcases o with _ | ch <;> rcases o' with _ | ch'
  · rfl
  · cases h
  · cases h
  · have hlist : ch.list except = ch'.list except := some.inj h
    rw [map_some, map_some, hf ch rfl, hlist]

lemma findBan_congr {except : Bool} :
    (n : ℕ) → ∀ bans, (∀ a, readsIn chans except t n bans a → Same chans chans' v v' a) →
      findBan env chans v except t n bans = findBan env chans' v' except t n bans
  | 0, bans, h => by
    apply scan_congr env rfl bans none
    · intro b hb a ha
      exact h a ⟨b, hb, ha⟩
    · intro b hb mask hmask f f' hf
      cases hf
  | n + 1, bans, h => by
    rw [findBan, findBan]
    apply scan_congr env (by rfl) bans none
    · intro b hb a ha
      exact h a ⟨b, hb, Or.inl ha⟩
    · intro b hb mask hmask f f' hf hf'
      cases hf
      cases hf'
      apply map_list_congr (findChannel_congr (h _ ⟨b, hb, Or.inr ⟨mask, hmask, Or.inl rfl⟩⟩))
      intro ch hch
      exact findBan_congr n (ch.list except)
        (fun a ha => h a ⟨b, hb, Or.inr ⟨mask, hmask, Or.inr ⟨ch, hch, ha⟩⟩⟩)

end Congr

lemma fresh_congr {env : Env} {s s' : State κ} {m m' : Member κ} {slot : Slot} (hu : m'.user = m.user)
    (hc : m'.channel = m.channel)
    (h : ∀ a, Reads env s m slot a → Same s.chans s'.chans (view env s m.user) (view env s' m.user) a) :
    fresh env s' m' slot = fresh env s m slot := by
  have hlist : listOf s m slot.except = listOf s' m slot.except := by
    have hown : Same s.chans s'.chans _ _ (.list slot.except m.channel) := h _ (Or.inl rfl)
    simp only [listOf]
    rw [hown]
  have hfind := findBan_congr env env.jMaxdepth (listOf s m slot.except) (fun a ha => h a (Or.inr ha))
  have heq : listOf s' m' slot.except = listOf s' m slot.except := by simp only [listOf, hc]
  simp only [fresh, hu, heq, ← hlist, hfind]

/-! ### What a step changes and what it clears -/

/-- What a change of a user changes for a lookup. see `Edit`. -/
def Edit.touches (env : Env) : Edit → Aspect → Bool
  | .username _, .mask => true
  | .account _, .account => true
  | .account _, .mask => env.accountHosts
  | .oper _, .mask => env.accountHosts && env.operhostHiding
  | .mark _, .marks => true
  | .cloakip _, .mask => true
  | .cloakhost _, .mask => true
  | _, _ => false

/-- What a step changes for the lookups about a user. `channel.c`, `s_user.c`. -/
def Op.touches (env : Env) (s : State κ) : Op κ → κ → Aspect → Prop
  | .ask .., _, _ => False
  | .nick u _, w, a => w = u ∧ a = .mask
  | .user u edits hosting, w, a => w = u ∧
      ((∃ e ∈ edits, e.touches env a) ∨ (a = .mask ∧
        (hosting.apply env (edits.foldl Edit.apply (s.users u))).1 ≠ edits.foldl Edit.apply (s.users u)))
  | .join u chan .., w, a => (w = u ∧ a = .channels) ∨
      (s.chans (key chan) = none ∧ ∃ except, a = .list except (key chan))
  | .leave u _, w, a => w = u ∧ a = .channels
  | .zombie .., _, _ => False
  | .status u .., w, a => w = u ∧ a = .channels
  | .bans chan except _, _, a => a = .list except (key chan)
  | .clearmode chan del, w, a =>
    (del.ban ∧ a = .list false (key chan)) ∨ (del.except ∧ a = .list true (key chan)) ∨
      (a = .channels ∧ ∃ m ∈ s.members, m.is w chan ∧ m.zombie = false ∧
        ((del.chanOp ∧ m.chanOp) ∨ (del.halfOp ∧ m.halfOp) ∨ (del.voice ∧ m.voice)))
  | .destruct chan, _, a => ∃ except, a = .list except (key chan)
  | .introduce .., _, _ => False

/-- The bits that a step clears. `mode_ban_invalidate`, `mode_except_invalidate`, `set_nick_name`,
`hide_hostmask`, `unhide_hostmask`, `m_clearmode.c` `do_clearmode`. -/
def Op.clears (env : Env) (s : State κ) (m : Member κ) (slot : Slot) : Op κ → Bool
  | .nick u _ => m.user = u && (s.users u).myUser && slot.kind ≠ .quiet
  | .user u edits hosting =>
    m.user = u && (hosting.apply env (edits.foldl Edit.apply (s.users u))).2
  | .bans chan except _ => m.channel = key chan && slot.except = except
  | .clearmode chan del => m.channel = key chan && (if slot.except then del.except else del.ban)
  | _ => false

/-- A step clears enough: each valid bit of a member is cleared, or the lists that it comes from do not
look at anything that the step changes. -/
def Meets (env : Env) (s : State κ) (op : Op κ) : Prop :=
  ∀ m ∈ s.members, m.zombie = false → ∀ slot, (m.banflags slot).isSome →
    op.clears env s m slot ∨ ∀ a, op.touches env s m.user a → ¬ Reads env s m slot a

/-- Every step of a run clears enough. -/
def MeetsAll (env : Env) : State κ → List (Op κ) → Prop
  | _, [] => True
  | s, op :: ops => Meets env s op ∧ MeetsAll env (step env s op) ops

/-! ### What is left alone -/

lemma channelsOf_map {f : Member κ → Member κ} {u : κ} (hu : ∀ m, (f m).user = m.user) :
    (members : List (Member κ)) → (∀ m ∈ members, m.user = u → (f m).on = m.on) →
      channelsOf (members.map f) u = channelsOf members u
  | [], _ => rfl
  | m :: members, h => by
    have ih := channelsOf_map hu members fun m' hm' => h m' (mem_cons_of_mem m hm')
    simp only [channelsOf, map_cons, List.filter_cons, hu m] at ih ⊢
    by_cases hm : m.user = u
    · simp only [hm, decide_true, if_true, map_cons, ih, h m mem_cons_self hm]
    · simp only [hm, decide_false, Bool.false_eq_true, if_false, ih]

lemma channelsOf_filter {p : Member κ → Bool} {u : κ} {members : List (Member κ)}
    (h : ∀ m, m.user = u → p m = true) : channelsOf (members.filter p) u = channelsOf members u := by
  have hfilter : (members.filter p).filter (fun m => m.user = u) = members.filter fun m => m.user = u := by
    rw [List.filter_filter]
    apply List.filter_congr
    intro m _
    by_cases hm : m.user = u
    · rw [h m hm, Bool.and_true]
    · simp only [hm, decide_false, Bool.false_and]
  rw [channelsOf, hfilter]
  rfl

/-- Two users that do not differ in one thing. -/
def SameUser (env : Env) (u u' : User) : Aspect → Prop
  | .mask => hosts env u = hosts env u'
  | .account => u.account = u'.account
  | .realname => u.info = u'.info
  | .marks => u.marks = u'.marks
  | _ => True

lemma SameUser.refl (env : Env) (u : User) (a : Aspect) : SameUser env u u a := by
  cases a <;> trivial

variable {u : User} {a : Aspect}

lemma SameUser.trans {env : Env} {u' u'' : User} (h : SameUser env u u' a)
    (h' : SameUser env u' u'' a) : SameUser env u u'' a := by
  cases a with
  | channels => trivial
  | list except chan => trivial
  | _ => exact Eq.trans h h'

lemma SameUser.ite {env : Env} {v w : User} {c : Prop} [Decidable c]
    (hv : SameUser env u v a) (hw : SameUser env u w a) : SameUser env u (if c then v else w) a := by
  split
  · exact hv
  · exact hw

lemma sameUser_edit {env : Env} {e : Edit} (h : e.touches env a = false) : SameUser env u (e.apply u) a := by
  cases a with
  | mask =>
    cases e with
    | account a => simp only [Edit.touches] at h; simp [SameUser, hosts, Edit.apply, h]
    | oper o =>
      simp only [Edit.touches, Bool.and_eq_false_iff] at h
      rcases h with h | h <;> simp [SameUser, hosts, Edit.apply, h]
    | mark m =>
      simp only [SameUser, Edit.apply]
      split <;> rfl
    | username => cases h
    | cloakip => cases h
    | cloakhost => cases h
    | _ => rfl
  | channels => trivial
  | list except chan => trivial
  | marks =>
    cases e with
    | mark m => cases h
    | _ => rfl
  | account =>
    cases e with
    | account a => cases h
    | mark m =>
      simp only [SameUser, Edit.apply]
      split <;> rfl
    | _ => rfl
  | realname =>
    cases e with
    | mark m =>
      simp only [SameUser, Edit.apply]
      split <;> rfl
    | _ => rfl

lemma sameUser_edits {env : Env} {a : Aspect} : (edits : List Edit) → ∀ u : User,
    (∀ e ∈ edits, e.touches env a = false) → SameUser env u (edits.foldl Edit.apply u) a
  | [], u, _ => SameUser.refl env u a
  | e :: edits, u, h => by
    have hone : SameUser env u (e.apply u) a := sameUser_edit (h e mem_cons_self)
    have hrest := sameUser_edits edits (e.apply u) fun e' he' => h e' (mem_cons_of_mem e he')
    exact hone.trans hrest

lemma sameUser_userSetcloaked {env : Env} (h : a ≠ .mask) : SameUser env u (userSetcloaked env u) a := by
  have hip : ∀ v x, SameUser env v { v with cloakip := x } a := by
    intro v x
    cases a with
    | mask => exact absurd rfl h
    | _ => trivial
  have hhost : ∀ v x, SameUser env v { v with cloakhost := x } a := by
    intro v x
    cases a with
    | mask => exact absurd rfl h
    | _ => trivial
  have hcloakip := SameUser.ite (c := u.cloakip.isSome = true) (.refl env u a)
    (hip u (some ((env.hidehostIp u.ip).take hostLen)))
  unfold userSetcloaked
  refine .ite (.refl env u a) (hcloakip.trans ?_)
  exact .ite (.refl env _ a) (.ite (hhost _ _) (hhost _ _))

lemma sameUser_toNewHost {env : Env} (h : a ≠ .mask) : SameUser env u (toNewHost env u).1 a := by
  unfold toNewHost
  cases a with
  | mask => exact absurd rfl h
  | _ => split <;> trivial

lemma sameUser_hosting {env : Env} (hosting : Hosting) (h : a ≠ .mask) :
    SameUser env u (hosting.apply env u).1 a := by
  cases hosting with
  | keep => exact SameUser.refl env u a
  | unhide =>
    simp only [Hosting.apply, unhideHostmask]
    cases a with
    | mask => exact absurd rfl h
    | _ => split_ifs <;> trivial
  | hide =>
    have hcloak : SameUser env u
        (if u.cloakhost.isNone && env.cloakedHosts then userSetcloaked env u else u) a := by
      split
      · exact sameUser_userSetcloaked h
      · exact SameUser.refl env u a
    simp only [Hosting.apply, hideHostmask]
    split
    · exact SameUser.refl env u a
    split
    · exact SameUser.refl env u a
    exact hcloak.trans (sameUser_toNewHost h)

lemma same_of {env : Env} {s s' : State κ} {w : κ} (hu : SameUser env (s.users w) (s'.users w) a)
    (ho : a = .channels → channelsOf s'.members w = channelsOf s.members w)
    (hl : ∀ except chan, a = .list except chan →
      (s'.chans chan).map (fun ch => ch.list except) = (s.chans chan).map (fun ch => ch.list except)) :
    Same s.chans s'.chans (view env s w) (view env s' w) a := by
  cases a with
  | channels => exact (ho rfl).symm
  | list except chan => exact (hl except chan rfl).symm
  | _ => exact hu

lemma same_members {env : Env} {s s' : State κ} {w : κ} (hu : s'.users = s.users)
    (hc : s'.chans = s.chans) (ho : a = .channels → channelsOf s'.members w = channelsOf s.members w) :
    Same s.chans s'.chans (view env s w) (view env s' w) a := by
  apply same_of
  · rw [hu]
    exact SameUser.refl env _ a
  · exact ho
  · intro except chan _
    rw [hc]

lemma channelsOf_clear {q : Member κ → Prop} [DecidablePred q] {p : Slot → Bool} {u : κ}
    (members : List (Member κ)) :
    channelsOf (members.map fun m => if q m then m.clear p else m) u = channelsOf members u := by
  apply channelsOf_map
  · intro m
    split <;> rfl
  · intro m _ _
    split <;> rfl

lemma isBanned_member (env : Env) (s : State κ) (m : Member κ) (slot : Slot) :
    (isBanned env s m slot).2.user = m.user ∧ (isBanned env s m slot).2.channel = m.channel
      ∧ (isBanned env s m slot).2.zombie = m.zombie ∧ (isBanned env s m slot).2.on = m.on := by
  unfold isBanned
  split <;> exact ⟨rfl, rfl, rfl, rfl⟩

lemma setList_list {ch : Chan} {except e : Bool} {list : List Ban} (h : e ≠ except) :
    (ch.setList except list).list e = ch.list e := by
  cases except <;> cases e <;> first | rfl | exact absurd rfl h

section Frames

variable {env : Env} {s : State κ} {w : κ} {a : Aspect}

lemma same_nick {u : κ} {nick : Str} (h : ¬ (w = u ∧ a = .mask)) :
    Same s.chans (setNickName s u nick).chans (view env s w) (view env (setNickName s u nick) w) a := by
  unfold setNickName
  apply same_of
  · by_cases hw : w = u
    · subst hw
      have ha : a ≠ .mask := fun e => h ⟨rfl, e⟩
      simp only [State.setUser, State.mapMembers, update_self]
      cases a with
      | mask => exact absurd rfl ha
      | _ => split <;> trivial
    · have hkeep : ((if (s.users u).myUser then
            s.mapMembers fun m => if m.user = u then m.clear fun slot => slot.kind ≠ .quiet else m
          else s).users) = s.users := by split <;> rfl
      simp only [State.setUser, update_of_ne hw, hkeep]
      exact SameUser.refl env _ a
  · intro _
    simp only [State.setUser]
    split
    · exact channelsOf_clear s.members
    · rfl
  · intro except chan _
    simp only [State.setUser]
    split <;> rfl

lemma same_user {u : κ} {edits : List Edit} {hosting : Hosting}
    (h : ¬ Op.touches env s (.user u edits hosting) w a) :
    Same s.chans (editUser env s u edits hosting).chans (view env s w)
      (view env (editUser env s u edits hosting) w) a := by
  have husers : (editUser env s u edits hosting).users = update s.users u
      (hosting.apply env (edits.foldl Edit.apply (s.users u))).1 := by
    unfold editUser
    dsimp only
    split <;> rfl
  apply same_of
  · rw [husers]
    by_cases hw : w = u
    · subst hw
      have huntouched : ¬ ((∃ e ∈ edits, e.touches env a) ∨ (a = .mask ∧
          (hosting.apply env (edits.foldl Edit.apply (s.users w))).1
            ≠ edits.foldl Edit.apply (s.users w))) := fun hor => h ⟨rfl, hor⟩
      have hedits : SameUser env (s.users w) (edits.foldl Edit.apply (s.users w)) a := by
        apply sameUser_edits
        intro e he
        rw [← Bool.not_eq_true]
        exact fun ht => huntouched (Or.inl ⟨e, he, ht⟩)
      rw [update_self]
      apply hedits.trans
      by_cases ha : a = .mask
      · have hkeep : (hosting.apply env (edits.foldl Edit.apply (s.users w))).1
            = edits.foldl Edit.apply (s.users w) :=
          not_not.mp fun hne => huntouched (Or.inr ⟨ha, hne⟩)
        rw [hkeep]
        exact SameUser.refl env _ a
      · exact sameUser_hosting hosting ha
    · rw [update_of_ne hw]
      exact SameUser.refl env _ a
  · intro _
    unfold editUser
    dsimp only
    split
    · exact channelsOf_clear s.members
    · rfl
  · intro except chan _
    unfold editUser
    dsimp only
    split <;> rfl

lemma same_join {u : κ} {chan : Str} {chanOp halfOp voice : Bool}
    (h : ¬ Op.touches env s (.join u chan chanOp halfOp voice) w a) :
    Same s.chans (addUserToChannel s u chan chanOp halfOp voice).chans (view env s w)
      (view env (addUserToChannel s u chan chanOp halfOp voice) w) a := by
  unfold addUserToChannel
  split
  · exact same_members rfl rfl fun _ => rfl
  · apply same_of
    · exact SameUser.refl env _ a
    · intro ha
      have hw : u ≠ w := fun e => h (Or.inl ⟨e.symm, ha⟩)
      simp only [channelsOf, List.filter_cons, hw, decide_false, Bool.false_eq_true, if_false]
    · intro except chan' ha
      simp only [State.setChan]
      by_cases hc : chan' = key chan
      · subst hc
        cases hch : s.chans (key chan) with
        | none => exact absurd (Or.inr ⟨hch, except, ha⟩) h
        | some ch => rw [update_self]; rfl
      · rw [update_of_ne hc]

lemma same_bans {chan : Str} {except : Bool} {list : List Ban} (h : a ≠ .list except (key chan)) :
    Same s.chans (modeProcessBans s chan except list).chans (view env s w)
      (view env (modeProcessBans s chan except list) w) a := by
  apply same_of
  · exact SameUser.refl env _ a
  · intro _
    exact channelsOf_clear s.members
  · intro e chan' ha
    simp only [modeProcessBans, State.mapMembers, State.setChan]
    by_cases hc : chan' = key chan
    · subst hc
      have he : e ≠ except := fun eq => h (by rw [ha, eq])
      rw [update_self, map_map]
      congr 1
      funext ch
      exact setList_list he
    · rw [update_of_ne hc]

lemma same_clearmode {chan : Str} {del : Control} (h : ¬ Op.touches env s (.clearmode chan del) w a) :
    Same s.chans (doClearmode s chan del).chans (view env s w) (view env (doClearmode s chan del) w) a := by
  apply same_of
  · exact SameUser.refl env _ a
  · intro ha
    apply channelsOf_map
    · intro m
      split <;> rfl
    · intro m hm hw
      split
      case isFalse => rfl
      case isTrue hon =>
        have hnone : ¬ ((del.chanOp ∧ m.chanOp) ∨ (del.halfOp ∧ m.halfOp) ∨ (del.voice ∧ m.voice)) := by
          intro hany
          apply h
          refine .inr (Or.inr ⟨ha, m, hm, ?_, hon.2, hany⟩)
          simp only [Member.is, hw, hon.1, decide_true, Bool.and_self]
        simp only [not_or, not_and, Bool.not_eq_true] at hnone
        obtain ⟨hop, hhalf, hvoice⟩ := hnone
        simp only [Control.member, Member.clear, Member.on, On.mk.injEq, true_and]
        refine ⟨?_, ?_, ?_⟩
        · cases hd : del.chanOp <;> simp [hop, hd]
        · cases hd : del.halfOp <;> simp [hhalf, hd]
        · cases hd : del.voice <;> simp [hvoice, hd]
  · intro e chan' ha
    simp only [doClearmode, State.mapMembers, State.setChan]
    by_cases hc : chan' = key chan
    · subst hc
      rw [update_self, map_map]
      congr 1
      funext ch
      cases e with
      | false =>
        have hban : ¬ del.ban = true := fun hd => h (Or.inl ⟨hd, ha⟩)
        simp only [Function.comp, Chan.list, hban, Bool.false_eq_true, if_false]
      | true =>
        have hexc : ¬ del.except = true := fun hd => h (Or.inr (Or.inl ⟨hd, ha⟩))
        simp only [Function.comp, Chan.list, hexc, Bool.false_eq_true, if_false, if_true]
    · rw [update_of_ne hc]

end Frames

lemma same_step {env : Env} {s : State κ} {op : Op κ} {m : Member κ} {a : Aspect}
    (hm : m ∈ (step env s op).members) (h : ¬ op.touches env s m.user a) :
    Same s.chans (step env s op).chans (view env s m.user) (view env (step env s op) m.user) a := by
  cases op with
  | ask u chan slot =>
    refine same_members rfl rfl fun _ => channelsOf_map ?_ s.members ?_
    · intro m
      split
      · exact (isBanned_member env s m slot).1
      · rfl
    · intro m _ _
      split
      · exact (isBanned_member env s m slot).2.2.2
      · rfl
  | nick u nick => exact same_nick h
  | user u edits hosting => exact same_user h
  | join u chan chanOp halfOp voice => exact same_join h
  | leave u chan =>
    refine same_members rfl rfl fun ha => channelsOf_filter ?_
    intro m' hm'
    have hne : m'.user ≠ u := fun e => h ⟨hm'.symm.trans e, ha⟩
    simp only [Member.is, hne, decide_false, Bool.false_and, Bool.not_false]
  | zombie u chan =>
    refine same_members rfl rfl fun _ => channelsOf_map ?_ s.members ?_
    · intro m
      split <;> rfl
    · intro m _ _
      split <;> rfl
  | status u chan chanOp halfOp voice =>
    refine same_members rfl rfl fun ha => channelsOf_map ?_ s.members ?_
    · intro m
      split <;> rfl
    · intro m' _ hm'
      have hne : m'.user ≠ u := fun e => h ⟨hm'.symm.trans e, ha⟩
      simp only [Member.is, hne, decide_false, Bool.false_and, Bool.false_eq_true, if_false]
  | bans chan except list => exact same_bans h
  | clearmode chan del => exact same_clearmode h
  | destruct chan =>
    simp only [step]
    split
    · exact same_members rfl rfl fun _ => rfl
    · apply same_of
      · exact SameUser.refl env _ a
      · exact fun _ => rfl
      · intro except chan' ha
        have hne : chan' ≠ key chan := fun e => h ⟨except, by rw [ha, e]⟩
        simp only [State.setChan, update_of_ne hne]
  | introduce u data =>
    by_cases hany : (s.members.any fun m => m.user = u) = true
    · have hstep : step env s (.introduce u data) = s := if_pos hany
      rw [hstep]
      exact same_members rfl rfl fun _ => rfl
    · have hstep : step env s (.introduce u data) = s.setUser u data := if_neg hany
      rw [hstep] at hm ⊢
      -- a user that arrives is nobody's member yet
      have hne : m.user ≠ u := by
        intro e
        apply hany
        rw [List.any_eq_true]
        exact ⟨m, hm, decide_eq_true e⟩
      apply same_of
      · simp only [State.setUser, update_of_ne hne]
        exact SameUser.refl env _ a
      · exact fun _ => rfl
      · exact fun _ _ _ => rfl

/-! ### The bits that stay -/

/-- A membership after a step comes from one before it, with this answer kept or computed in that step. -/
def Kept (env : Env) (s : State κ) (op : Op κ) (m' : Member κ) (slot : Slot) (b : Bool) : Prop :=
  ∃ m ∈ s.members, m'.user = m.user ∧ m'.channel = m.channel ∧ m.zombie = false ∧
    ((m.banflags slot = some b ∧ op.clears env s m slot = false) ∨
      ((∀ w a, ¬ op.touches env s w a) ∧ b = fresh env s m slot))

variable {slot : Slot} {b : Bool}

lemma kept_map {env : Env} {s : State κ} {op : Op κ} {f : Member κ → Member κ} {m' : Member κ}
    (hm : m' ∈ s.members.map f) (hz : m'.zombie = false) (hb : m'.banflags slot = some b)
    (hf : ∀ m, (f m).user = m.user ∧ (f m).channel = m.channel ∧ ((f m).zombie = false → m.zombie = false))
    (hflags : ∀ m, (f m).banflags slot = some b → m.banflags slot = some b ∧ op.clears env s m slot = false) :
    Kept env s op m' slot b := by
  obtain ⟨m, hmem, rfl⟩ := mem_map.mp hm
  obtain ⟨hu, hc, hzom⟩ := hf m
  exact ⟨m, hmem, hu, hc, hzom hz, Or.inl (hflags m hb)⟩

lemma kept_self {env : Env} {s : State κ} {op : Op κ} {m' : Member κ}
    (hm : m' ∈ s.members) (hz : m'.zombie = false) (hb : m'.banflags slot = some b)
    (hclears : op.clears env s m' slot = false) : Kept env s op m' slot b :=
  ⟨m', hm, rfl, rfl, hz, Or.inl ⟨hb, hclears⟩⟩

lemma clear_banflags {m : Member κ} {p : Slot → Bool}
    (h : (m.clear p).banflags slot = some b) : m.banflags slot = some b ∧ p slot = false := by
  cases hp : p slot with
  | false => exact ⟨by simpa only [Member.clear, hp, Bool.false_eq_true, if_false] using h, rfl⟩
  | true => simp only [Member.clear, hp, if_true, reduceCtorEq] at h

lemma kept_clear {env : Env} {s : State κ} {op : Op κ} {q : Member κ → Prop} [DecidablePred q]
    {p : Slot → Bool} {m' : Member κ}
    (hm : m' ∈ s.members.map fun m => if q m then m.clear p else m) (hz : m'.zombie = false)
    (hb : m'.banflags slot = some b)
    (hclears : ∀ m, ¬ (q m ∧ p slot = true) → op.clears env s m slot = false) :
    Kept env s op m' slot b := by
  refine kept_map hm hz hb ?_ ?_
  · intro m
    split <;> exact ⟨rfl, rfl, id⟩
  · intro m hflags
    split at hflags
    case isTrue =>
      obtain ⟨hvalid, hp⟩ := clear_banflags hflags
      exact ⟨hvalid, hclears m fun hand => by rw [hp] at hand; exact Bool.false_ne_true hand.2⟩
    case isFalse hq => exact ⟨hflags, hclears m fun hand => hq hand.1⟩

lemma isBanned_banflags {env : Env} {s : State κ} {m : Member κ} {slot' : Slot}
    (h : (isBanned env s m slot).2.banflags slot' = some b) :
    m.banflags slot' = some b ∨ b = fresh env s m slot' := by
  unfold isBanned at h
  split at h
  case h_1 => exact .inl h
  case h_2 =>
    by_cases hs : slot' = slot
    · subst hs
      dsimp only at h
      rw [update_self] at h
      exact .inr (some.inj h).symm
    · dsimp only at h
      rw [update_of_ne hs] at h
      exact .inl h

lemma kept_step {env : Env} {s : State κ} {op : Op κ} {m' : Member κ} (hm : m' ∈ (step env s op).members)
    (hz : m'.zombie = false) (hb : m'.banflags slot = some b) : Kept env s op m' slot b := by
  cases op with
  | ask u chan asked =>
    obtain ⟨m, hmem, rfl⟩ := mem_map.mp hm
    by_cases his : m.is u chan = true
    · rw [if_pos his] at hz hb ⊢
      obtain ⟨hu, hc, hzom, -⟩ := isBanned_member env s m asked
      refine ⟨m, hmem, hu, hc, hzom ▸ hz, ?_⟩
      rcases isBanned_banflags hb with hvalid | hfresh
      · exact .inl ⟨hvalid, rfl⟩
      · exact .inr ⟨fun _ _ h => h, hfresh⟩
    · rw [if_neg his] at hz hb ⊢
      exact kept_self hmem hz hb rfl
  | nick u nick =>
    by_cases hmy : (s.users u).myUser = true
    · have hstep : (step env s (.nick u nick)).members = s.members.map fun m =>
          if m.user = u then m.clear fun slot => slot.kind ≠ .quiet else m := by
        simp only [step, setNickName, if_pos hmy]
        rfl
      rw [hstep] at hm
      refine kept_clear hm hz hb fun m hnot => ?_
      simp only [Op.clears, hmy, Bool.and_true]
      simpa only [decide_eq_true_eq, ← Bool.not_eq_true, Bool.and_eq_true] using hnot
    · have hstep : (step env s (.nick u nick)).members = s.members := by
        simp only [step, setNickName, if_neg hmy]
        rfl
      rw [hstep] at hm
      refine kept_self hm hz hb ?_
      rw [Bool.not_eq_true] at hmy
      simp only [Op.clears, hmy, Bool.and_false, Bool.false_and]
  | user u edits hosting =>
    by_cases hnew : (hosting.apply env (edits.foldl Edit.apply (s.users u))).2 = true
    · have hstep : (step env s (.user u edits hosting)).members = s.members.map fun m =>
          if m.user = u then m.clear fun _ => true else m := by
        simp only [step, editUser, if_pos hnew]
        rfl
      rw [hstep] at hm
      refine kept_clear hm hz hb fun m hnot => ?_
      simp only [Op.clears, hnew, Bool.and_true]
      simpa only [and_true, decide_eq_false_iff_not] using hnot
    · have hstep : (step env s (.user u edits hosting)).members = s.members := by
        simp only [step, editUser, if_neg hnew]
        rfl
      rw [hstep] at hm
      refine kept_self hm hz hb ?_
      rw [Bool.not_eq_true] at hnew
      simp only [Op.clears, hnew, Bool.and_false]
  | join u chan chanOp halfOp voice =>
    simp only [step, addUserToChannel] at hm
    split at hm
    case isTrue => exact kept_self hm hz hb rfl
    case isFalse =>
      rcases List.mem_cons.mp hm with rfl | hold
      · cases hb
      · exact kept_self hold hz hb rfl
  | leave u chan => exact kept_self (List.mem_filter.mp hm).1 hz hb rfl
  | zombie u chan =>
    refine kept_map hm hz hb ?_ ?_
    · intro m
      split
      · exact ⟨rfl, rfl, fun h => by cases h⟩
      · exact ⟨rfl, rfl, id⟩
    · intro m hflags
      split at hflags <;> exact ⟨hflags, rfl⟩
  | status u chan chanOp halfOp voice =>
    refine kept_map hm hz hb ?_ ?_
    · intro m
      split <;> exact ⟨rfl, rfl, id⟩
    · intro m hflags
      split at hflags <;> exact ⟨hflags, rfl⟩
  | bans chan except list =>
    refine kept_clear hm hz hb fun m hnot => ?_
    simpa only [Op.clears, decide_eq_true_eq, ← Bool.not_eq_true, Bool.and_eq_true] using hnot
  | clearmode chan del =>
    obtain ⟨m, hmem, rfl⟩ := mem_map.mp hm
    by_cases hon : m.channel = key chan ∧ m.zombie = false
    · rw [if_pos hon] at hz hb ⊢
      have hcleared : (m.clear fun slot => if slot.except then del.except else del.ban).banflags slot
          = some b := hb
      obtain ⟨hvalid, hkept⟩ := clear_banflags hcleared
      refine ⟨m, hmem, rfl, rfl, hon.2, Or.inl ⟨hvalid, ?_⟩⟩
      simp only [Op.clears, hkept, Bool.and_false]
    · rw [if_neg hon] at hz hb ⊢
      -- the membership is on another channel: zombies are not looked at
      have hc : m.channel ≠ key chan := fun e => hon ⟨e, hz⟩
      refine kept_self hmem hz hb ?_
      simp only [Op.clears, hc, decide_false, Bool.false_and]
  | destruct chan =>
    have hstep : (step env s (.destruct chan)).members = s.members := by
      simp only [step]
      split <;> rfl
    rw [hstep] at hm
    exact kept_self hm hz hb rfl
  | introduce u data =>
    have hstep : (step env s (.introduce u data)).members = s.members := by
      simp only [step]
      split <;> rfl
    rw [hstep] at hm
    exact kept_self hm hz hb rfl

/-! ### Coherence -/

/-- Every answer that is kept for a member is the one that would be computed now. `is_banned`. -/
def Coherent (env : Env) (s : State κ) : Prop :=
  ∀ m ∈ s.members, m.zombie = false → ∀ slot b, m.banflags slot = some b → b = fresh env s m slot

lemma Coherent.step {env : Env} {s : State κ} {op : Op κ} (h : Coherent env s) (hmeets : Meets env s op) :
    Coherent env (step env s op) := by
  intro m' hm' hz slot b hb
  obtain ⟨m, hm, hu, hc, hzom, hor⟩ := kept_step hm' hz hb
  have hsame : ∀ a, ¬ op.touches env s m'.user a →
      Same s.chans (BanCache.step env s op).chans (view env s m.user) (view env (BanCache.step env s op) m.user) a := by
    intro a ha
    rw [← hu]
    exact same_step hm' ha
  rcases hor with ⟨hvalid, hclears⟩ | ⟨huntouched, hfresh⟩
  · rcases hmeets m hm hzom slot (by rw [hvalid]; rfl) with hcleared | hreads
    · rw [hclears] at hcleared
      cases hcleared
    · have heq : fresh env (BanCache.step env s op) m' slot = fresh env s m slot := by
        apply fresh_congr hu hc
        intro a ha
        exact hsame a fun ht => hreads a (hu ▸ ht) ha
      rw [heq]
      exact h m hm hzom slot b hvalid
  · have heq : fresh env (BanCache.step env s op) m' slot = fresh env s m slot := by
      apply fresh_congr hu hc
      intro a _
      exact hsame a (huntouched _ a)
    rw [heq]
    exact hfresh

lemma Coherent.run {env : Env} : (ops : List (Op κ)) → ∀ {s : State κ}, Coherent env s →
    MeetsAll env s ops → Coherent env (run env s ops)
  | [], _, h, _ => h
  | _ :: ops, _, h, ⟨hop, hops⟩ => Coherent.run ops (h.step hop) hops

lemma Coherent.isBanned {env : Env} {s : State κ} (h : Coherent env s) {m : Member κ} (hm : m ∈ s.members)
    (hz : m.zombie = false) (slot : Slot) : (isBanned env s m slot).1 = fresh env s m slot := by
  unfold BanCache.isBanned
  cases hb : m.banflags slot with
  | none => rfl
  | some b => exact h m hm hz slot b hb

def slots : List Slot :=
  [⟨false, .none⟩, ⟨false, .quiet⟩, ⟨false, .nick⟩, ⟨true, .none⟩, ⟨true, .quiet⟩, ⟨true, .nick⟩]

lemma mem_slots : (slot : Slot) → slot ∈ slots
  | ⟨false, .none⟩ => by decide
  | ⟨false, .quiet⟩ => by decide
  | ⟨false, .nick⟩ => by decide
  | ⟨true, .none⟩ => by decide
  | ⟨true, .quiet⟩ => by decide
  | ⟨true, .nick⟩ => by decide

lemma meets_of_clears {env : Env} {s : State κ} {op : Op κ} (h : (s.members.all fun m => slots.all fun slot =>
      (m.banflags slot).isNone || op.clears env s m slot) = true) : Meets env s op := by
  intro m hm _ slot hvalid
  left
  have hslot := List.all_eq_true.mp (List.all_eq_true.mp h m hm) slot (mem_slots slot)
  rw [Bool.or_eq_true] at hslot
  rcases hslot with hnone | hclears
  · rw [Option.isNone_iff_eq_none.mp hnone] at hvalid
    cases hvalid
  · exact hclears

lemma meets_ask {env : Env} {s : State κ} {u : κ} {chan : Str} :
    Meets env s (.ask u chan slot) := fun _ _ _ _ _ => Or.inr fun _ ht _ => ht

def sampleEnv : Env where
  isMatch mask name := key mask = key name
  ipmaskCheck addr mask _ := addr = mask
  hidehostIp _ := "cloaked".toList
  hidehostNormalhost host _ := host
  hostHidingStyle := 0
  operhostHiding := false
  hiddenOperhost := "opers.example.net".toList
  hiddenHost := "users.example.net".toList
  jMaxdepth := 1

def alice : User :=
  ⟨"alice".toList, "a".toList, "h".toList, "h".toList, "192.0.2.1".toList, [], none, none, none, none, none,
    false, false, false, "Alice".toList, [], 0, true⟩

/-- A ban of the nick `bob`. -/
def bobBan : Ban := ⟨false, none, none, "bob!a".toList, "h".toList⟩

/-- Alice joins a channel with a ban of `bob`, asks whether she may do something, and is then called
`bob`. -/
def sampleRun (t : Kind) : List (Op ℕ) :=
  [.join 0 "#a".toList false false false, .bans "#a".toList false [bobBan],
    .ask 0 "#a".toList ⟨false, t⟩, .nick 0 "bob".toList]

end Nefarious.BanCache
