import Mathlib.Data.List.Basic
import Nefarious.Strings

/-!
# User modes

`setUserMode` is the one function behind MODE for a user, the modes of a NICK that introduces a user, and the
modes that a configuration gives. What is sent to the user and to other servers is not modelled here, and
neither are the lists of clients that read server notices.

Names: `s_user.c`.
-/

namespace Nefarious.User

/-! ## Flags, privileges, clients -/

/-- The user flags that user modes set or read, in the order of the source. `enum Flag` -/
inductive Flag
  | locop | servnotice | oper | invisible | wallop | deaf | chserv | debug | account | hiddenhost
  | whoisNotice | hideOper | nochan | noidle | accountonly | privdeaf | commonchansonly | bot | admin
  | xtraop | nolink | cloakip | cloakhost | fakehost | sethost | ssl | operedLocal | operedRemote
deriving DecidableEq

/-- Privileges of operators. `enum Priv`. -/
inductive Priv
  | chanLimit | modeLchan | walkLchan | deopLchan | showInvis | showAllInvis | unlimitQuery | kill
  | localKill | rehash | restart | die | gline | localGline | jupe | localJupe | opmode | localOpmode
  | set | whox | badchan | localBadchan | seeChan | propagate | display | seeOpers | wideGline
  | listChan | forceOpmode | forceLocalOpmode | apassOpmode | check | whoisNotice | hideOper
  | hideChannels | hideIdle | admin | xtraop | service | remote | shun | localShun | wideShun
  | freeform | remoterehash | remove | localZline | zline | wideZline | tempshun
deriving DecidableEq

/-- A set of flags. `struct Flags`. -/
abbrev Flags := Flag → Bool

/-- A set of privileges. `struct Privs`. -/
abbrev Privs := Priv → Bool

/-- Set a flag. `FlagSet`. -/
def setFlag (f : Flag) (fl : Flags) : Flags := fun g => fl g || decide (g = f)

/-- Clear a flag. `FlagClr`. -/
def clrFlag (f : Flag) (fl : Flags) : Flags := fun g => fl g && !decide (g = f)

def setIf (b : Bool) (f : Flag) (fl : Flags) : Flags := if b then setFlag f fl else fl

def clrIf (b : Bool) (f : Flag) (fl : Flags) : Flags := if b then clrFlag f fl else fl

def putFlag (what : Bool) (f : Flag) (fl : Flags) : Flags :=
  if what then setFlag f fl else clrFlag f fl

/-- The handler of a connection's messages. `ircd_handler.h`. -/
inductive Handler
  | unregistered | client | oper
deriving DecidableEq

/-- What user modes read and write of a client. `struct Client`, `struct Connection`; `struct.h` `struct
User`. -/
structure Cli where
  /-- `MyConnect`. -/
  mine : Bool
  /-- `IsRegistered`, for a user. -/
  registered : Bool
  flags : Flags
  privs : Privs
  handler : Handler
  snomask : BitVec 32
  account : Str
  accCreate : ℤ
  username : Str
  host : Str
  realhost : Str
  sockIp : Str
  cloakip : Str
  cloakhost : Str
  fakehost : Str
  sethost : Str

/-- The features that user modes read. `ircd_features.h`. -/
structure UserFeat where
  allowRmx : Bool
  hostHiding : Bool
  hostHidingStyle : ℤ
  wallopsOperOnly : Bool
  hisSnoticesOperOnly : Bool
  hisDebugOperOnly : Bool
  operWhoisParanoia : Bool
  operHide : Bool
  derestrictHidechans : Bool
  operXtraop : Bool
  operhostHiding : Bool
  hiddenHost : Str
  hiddenOperhost : Str
  snomaskDefault : BitVec 32
  snomaskOperdefault : BitVec 32
  /-- The cloak of an address, from its text: `hidehost_ipv4`, `hidehost_ipv6`. -/
  hidehostIp : Str → Str
  /-- `hidehost_normalhost`, with the number of components that the client's class gives. -/
  hidehostNormalhost : Str → Str

/-- `IsAnOper`: a global operator, a local one, or an administrator. `IsAnOper`, `IsLocOp` -/
def isAnOper (mine : Bool) (fl : Flags) : Bool := fl .oper || (mine && fl .locop) || fl .admin

/-! ## Privileges -/

/-- The privileges of a global operator by default. `client.c`. -/
def privsGlobal : Privs := fun p => p ∉ [.walkLchan, .unlimitQuery, .set, .badchan, .localBadchan,
  .apassOpmode, .whoisNotice, .hideOper, .hideChannels, .hideIdle, .admin, .xtraop, .service, .remote,
  .freeform, .remove]

/-- The privileges of a local operator by default. `client.c`. -/
def privsLocal : Privs := fun p => p ∈ [.chanLimit, .modeLchan, .showInvis, .showAllInvis, .localKill,
  .rehash, .localGline, .localJupe, .localOpmode, .whox, .display, .forceLocalOpmode, .localShun,
  .localZline]

/-- What a block of the configuration says about privileges: those that it names, and their values.
`s_conf.h` `struct ConfItem`; `class.h` `struct ConnectionClass` -/
structure PrivConf where
  dirty : Privs
  privs : Privs

/-- An operator block and its class. `s_conf.h` `struct ConfItem`. -/
structure OperConf where
  own : PrivConf
  cls : PrivConf
  /-- `ConfUmode`: the modes of its class. -/
  umode : Option Str
  /-- The notices of the block and its class. -/
  snomask : BitVec 32

/-- The privileges an operator block gives, before the corrections. It gives none when neither the block nor its
class says whether the operator is a global one. `client.c` `client_set_privs` -/
def confPrivs (oper : OperConf) : Privs :=
  let defaults : Option Privs :=
    if oper.own.dirty .propagate then
      some (if oper.own.privs .propagate then privsGlobal else privsLocal)
    else if oper.cls.dirty .propagate then
      some (if oper.cls.privs .propagate then privsGlobal else privsLocal)
    else none
  match defaults with
  | none => fun _ => false
  | some defaults => fun p =>
    if oper.own.dirty p then oper.own.privs p
    else if oper.cls.dirty p then oper.cls.privs p
    else defaults p

/-- The corrections: who propagates is displayed, and who does not has no global powers. `client.c`
`client_set_privs` -/
def correctPrivs (myUser : Bool) (privs : Privs) : Privs := fun p =>
  let q := if privs .propagate then privs p || decide (p = .display)
    else privs p && decide (p ∉ [.kill, .gline, .jupe, .shun, .zline, .opmode, .badchan])
  q && !(myUser && decide (p = .remote))

/-- Set the privileges of a client: none without an operator block, or when the client is no operator.
`client.c`. -/
def clientSetPrivs (c : Cli) (oper : Option OperConf) : Cli :=
  match oper with
  | none => { c with privs := fun _ => false }
  | some oper =>
    if isAnOper c.mine c.flags then
      { c with privs := correctPrivs (c.mine && c.registered) (confPrivs oper) }
    else { c with privs := fun _ => false }

/-- Clear all privileges. `client.c`. -/
def clearPrivs (c : Cli) : Cli := { c with privs := fun _ => false }

/-! ## Reading the letters -/

/-- A letter of a mode string. `set_user_mode` (`switch (*m)`). -/
inductive Umode
  | plus | minus | flag (f : Flag) | snomask | oper | locop | hiddenhost
  | account | cloakhost | cloakip | fakehost | sethost | unknown
deriving DecidableEq

/-- The case of the switch that a letter selects. The letters whose two branches set and clear one flag and do
nothing else are one case. `set_user_mode`. -/
def umodeOf : Char → Umode
  | '+' => .plus
  | '-' => .minus
  | 's' => .snomask
  | 'w' => .flag .wallop
  | 'o' => .oper
  | 'O' => .locop
  | 'i' => .flag .invisible
  | 'd' => .flag .deaf
  | 'k' => .flag .chserv
  | 'g' => .flag .debug
  | 'W' => .flag .whoisNotice
  | 'H' => .flag .hideOper
  | 'I' => .flag .noidle
  | 'p' => .flag .nochan
  | 'q' => .flag .commonchansonly
  | 'R' => .flag .accountonly
  | 'B' => .flag .bot
  | 'D' => .flag .privdeaf
  | 'a' => .flag .admin
  | 'X' => .flag .xtraop
  | 'L' => .flag .nolink
  | 'x' => .hiddenhost
  | 'z' => .flag .ssl
  | 'r' => .account
  | 'C' => .cloakhost
  | 'c' => .cloakip
  | 'f' => .fakehost
  | 'h' => .sethost
  | _ => .unknown

/-- The letters of the character table. `table_gen.c` `NTL_ALPHA`. -/
def isAlpha (c : Char) : Bool := ('a' ≤ c ∧ c ≤ '~') ∨ ('A' ≤ c ∧ c ≤ '^')

/-- Whether a digit comes before any letter. `is_snomask`. -/
def snomaskLoop : Str → Bool
  | [] => false
  | c :: w => if isDigit c then true else if isAlpha c then false else snomaskLoop w

/-- Whether a word looks like a mask of server notices. -/
def isSnomask (word : Str) : Bool := strEq word "all".toList || snomaskLoop word

/-- All server notices. `SNO_ALL` (not `DEBUGMODE`). -/
def snoAll : BitVec 32 := 0xeffff

def snoOper : BitVec 32 := 0x4000 ||| 0x2000 ||| 0x40000

/-- The notices that everyone may have. -/
def snoUser : BitVec 32 := snoAll &&& ~~~ snoOper

def umodeMakeSnomask (oldmask : BitVec 32) (arg : Str) (what : Bool) : BitVec 32 :=
  if what ∧ strEq arg "all".toList then snoAll
  else
    let add (s : Str) := BitVec.ofInt 32 (atoi s) ||| oldmask
    let del (s : Str) := oldmask &&& ~~~ BitVec.ofInt 32 (atoi s)
    match arg with
    | '+' :: s => if what then add s else del s
    | '-' :: s => if what then del s else add s
    | s => if what then BitVec.ofInt 32 (atoi s) else del s

/-- Set the mask of server notices. `set_snomask` (`SNO_SET`). -/
def setSnomask (c : Cli) (newmask : BitVec 32) : Cli :=
  { c with snomask := newmask &&& (if isAnOper c.mine c.flags then snoAll else snoUser) }

/-- The word that a letter takes, if any: a mask behind `s`, and any word behind the added letters that have a
text. `set_user_mode` (`*(p + 1)`). -/
def umodeArg (what : Bool) (u : Umode) (next : Option Str) : Option Str :=
  match u with
  | .snomask => next.filter isSnomask
  | .account | .cloakhost | .cloakip | .fakehost | .sethost => if what then next else none
  | _ => none

/-- Run over the words and their letters. A word that a letter takes is skipped afterwards; `what` is the
direction that the last sign has given. `set_user_mode` (the inner loop). -/
def walkLetters {σ : Type*} (step : Bool → Umode → Option Str → σ → σ) (rest : List Str) :
    Str → ℕ → Bool → σ → ℕ × Bool × σ
  | [], k, what, s => (k, what, s)
  | m :: ms, k, what, s =>
    let u := umodeOf m
    let arg := umodeArg what u rest[k]?
    let what' := if u = .plus then true else if u = .minus then false else what
    walkLetters step rest ms (if arg.isSome then k + 1 else k) what' (step what u arg s)

/-- The outer loop; the first argument is the number of words that letters have taken. `set_user_mode` -/
def walkWords {σ : Type*} (step : Bool → Umode → Option Str → σ → σ) : ℕ → List Str → Bool → σ → σ
  | _, [], _, s => s
  | k + 1, _ :: ws, what, s => walkWords step k ws what s
  | 0, w :: ws, what, s =>
    match walkLetters step ws w 0 what s with
    | (k, what, s) => walkWords step k ws what s

/-- What the loop over the letters changes. `set_user_mode` (the local variables). -/
structure UmodeScan where
  c : Cli
  tmpmask : BitVec 32
  /-- The word behind `+r`. -/
  account : Option Str := none
  /-- The word behind `+c`. -/
  cloakip : Option Str := none
  /-- The word behind `+C`. -/
  cloakhost : Option Str := none
  /-- The word behind `+f`. -/
  fakehost : Option Str := none
  /-- The word behind `+h`. -/
  sethost : Option Str := none

/-- Change the flags of the client. -/
def UmodeScan.mapFlags (s : UmodeScan) (g : Flags → Flags) : UmodeScan :=
  { s with c := { s.c with flags := g s.c.flags } }

/-- The end of an operator: the mask without the operators' notices, and the handler. `set_user_mode` (`case
'o'`, `case 'O'`) -/
def UmodeScan.deoper (s : UmodeScan) : UmodeScan :=
  if s.c.mine then
    { s with
      tmpmask := s.c.snomask &&& ~~~ snoOper
      c := if s.c.registered then { s.c with handler := .client } else s.c }
  else s

/-- What one letter does. `set_user_mode`. -/
def umodeStep (feat : UserFeat) (what : Bool) (u : Umode) (arg : Option Str) (s : UmodeScan) :
    UmodeScan :=
  match u with
  | .plus | .minus | .unknown => s
  | .flag f => s.mapFlags (putFlag what f)
  | .snomask =>
    let oper := isAnOper s.c.mine s.c.flags
    let tmpmask := match arg with
      | some arg => umodeMakeSnomask s.tmpmask arg what &&& (if oper then snoAll else snoUser)
      | none =>
        if what then (if oper then feat.snomaskOperdefault else feat.snomaskDefault) else 0
    { s with tmpmask := tmpmask }.mapFlags (putFlag (tmpmask ≠ 0) .servnotice)
  | .oper =>
    if what then s.mapFlags (setFlag .oper)
    else (s.mapFlags fun fl => clrFlag .operedRemote (clrFlag .operedLocal (clrFlag .admin
      (clrFlag .locop (clrFlag .oper fl))))).deoper
  | .locop =>
    if what then s.mapFlags (setFlag .locop)
    else (s.mapFlags fun fl => clrFlag .operedRemote (clrFlag .operedLocal
      (clrFlag .locop (clrFlag .oper fl)))).deoper
  | .hiddenhost =>
    if what then s.mapFlags (setFlag .hiddenhost)
    else if feat.allowRmx ∨ feat.hostHidingStyle = 2 ∨ feat.hostHidingStyle = 3 then
      s.mapFlags (clrFlag .hiddenhost)
    else s
  | .account => if arg.isSome then { s with account := arg }.mapFlags (setFlag .account) else s
  | .cloakhost => if arg.isSome then { s with cloakhost := arg }.mapFlags (setFlag .cloakhost) else s
  | .cloakip => if arg.isSome then { s with cloakip := arg }.mapFlags (setFlag .cloakip) else s
  | .fakehost => if arg.isSome then { s with fakehost := arg }.mapFlags (setFlag .fakehost) else s
  | .sethost =>
    if what then
      if arg.isSome then { s with sethost := arg }.mapFlags (setFlag .sethost) else s
    else s.mapFlags (clrFlag .sethost)

/-! ## The rules -/

/-- The rules for users who change their own modes: what the user may not have is taken back, by itself, one
rule after the other. `set_user_mode` (`Evaluate rules for new user mode`). -/
def revoke (feat : UserFeat) (old : Flags) (mine : Bool) (privs : Privs) (fl : Flags) : Flags :=
  let fl := clrIf (!old .oper && fl .oper) .oper fl
  let fl := clrIf (!old .locop && (mine && fl .locop)) .locop fl
  let fl := clrIf (!privs .admin && !old .admin && fl .admin) .admin fl
  let fl := clrIf (!old .account && fl .account) .account fl
  let fl := clrIf (!old .cloakip && fl .cloakip) .cloakip fl
  let fl := clrIf (!old .cloakhost && fl .cloakhost) .cloakhost fl
  let fl := clrIf (!old .fakehost && fl .fakehost) .fakehost fl
  let fl := clrIf (!old .sethost && fl .sethost) .sethost fl
  let fl := setIf (old .sethost && !fl .sethost) .sethost fl
  let fl := clrIf (!old .ssl && fl .ssl) .ssl fl
  let fl := setIf (old .ssl && !fl .ssl) .ssl fl
  let fl := clrIf (!privs .service && fl .chserv) .chserv fl
  let fl := clrIf (feat.wallopsOperOnly && !isAnOper mine fl && fl .wallop) .wallop fl
  let fl := clrIf (feat.hisSnoticesOperOnly && mine && !isAnOper mine fl && !old .servnotice)
    .servnotice fl
  let fl := clrIf (feat.hisDebugOperOnly && !isAnOper mine fl && !old .debug) .debug fl
  let fl := clrIf (!(feat.operWhoisParanoia && privs .whoisNotice) && fl .whoisNotice) .whoisNotice fl
  let fl := clrIf (!(feat.operHide && privs .hideOper) && fl .hideOper) .hideOper fl
  let fl := clrIf (!feat.derestrictHidechans && !privs .hideChannels && fl .nochan) .nochan fl
  let fl := clrIf (!privs .hideIdle && fl .noidle) .noidle fl
  let fl := clrIf (!(feat.operXtraop && privs .xtraop) && fl .xtraop) .xtraop fl
  clrIf (!old .hiddenhost && fl .hiddenhost && !(feat.hostHiding && decide (0 < feat.hostHidingStyle)))
    .hiddenhost fl

/-- The rules on the whole scan: besides the flags, a user's own `+h` has no text, and users who may not read
server notices lose their mask. `set_user_mode`. -/
def UmodeScan.revoke (s : UmodeScan) (feat : UserFeat) (old : Flags) : UmodeScan :=
  let fl := User.revoke feat old s.c.mine s.c.privs s.c.flags
  let quiet := feat.hisSnoticesOperOnly && s.c.mine && !isAnOper s.c.mine fl && !old .servnotice
  { s with
    c := { s.c with flags := fl, snomask := if quiet then 0 else s.c.snomask }
    sethost := if fl .sethost then none else s.sethost }

/-- Set the mask of server notices at the end of a command. `set_user_mode`. -/
def setNotices (tmpmask : BitVec 32) (c : Cli) : Cli :=
  if c.flags .servnotice then
    if tmpmask ≠ c.snomask then setSnomask c tmpmask else c
  else setSnomask c 0

/-- A local user who was an operator and is none loses the privileges; the mask of server notices is set.
`set_user_mode` (`if (MyConnect(acptr))`). -/
def dropPrivs (old : Flags) (tmpmask : BitVec 32) (c : Cli) : Cli :=
  if c.mine then
    setNotices tmpmask
      (if (old .oper || old .locop) && !isAnOper c.mine c.flags then clientSetPrivs c none else c)
  else c

/-! ## Texts and hosts -/

/-- Longest account name. `ircd_defs.h`. -/
def accountLen : ℕ := 15

/-- Longest host. `ircd_defs.h`. -/
def hostLen : ℕ := 75

/-- Longest user name. `ircd_defs.h`. -/
def userLen : ℕ := 10

/-- `ircd_strncmp`: whether the first `n` characters name the same. `ircd_string.c` `ircd_strncmp`. -/
def strnEq (a b : Str) (n : ℕ) : Bool := strEq (a.take n) (b.take n)

/-- Read the account behind `+r`: a creation time may follow a colon. `set_user_mode` (`strchr(account, ':')`)
-/
def copyAccount (account : Str) (c : Cli) : Cli :=
  if ':' ∈ account then
    { c with
      accCreate := atoi ((account.dropWhile (· ≠ ':')).tail)
      account := ircdStrncpy c.account account (account.takeWhile (· ≠ ':')).length }
  else { c with account := ircdStrncpy c.account account accountLen }

/-- The state of the last part of the function. `set_user_mode` (`acptr`, `setflags`, `do_host_hiding`). -/
structure UmodeEnd where
  c : Cli
  /-- The flags before the change. -/
  old : Flags
  /-- Whether the host is to be hidden anew. -/
  doHiding : Bool

/-- A text that came with a flag is copied when the flag is new. `set_user_mode`. -/
def newText (old fl : Flags) (f : Flag) (text : Option Str) (dst : Str) : Str :=
  if !old f && fl f then ircdStrncpy dst (text.getD []) (hostLen + 1) else dst

/-- Copy the texts that came with new flags, and a set host that has changed. `set_user_mode` -/
def copyTexts (s : UmodeScan) (old : Flags) (c : Cli) : UmodeEnd :=
  let c := if !old .account && c.flags .account then copyAccount (s.account.getD []) c else c
  let c := { c with
    cloakip := newText old c.flags .cloakip s.cloakip c.cloakip
    cloakhost := newText old c.flags .cloakhost s.cloakhost c.cloakhost
    fakehost := newText old c.flags .fakehost s.fakehost c.fakehost }
  match s.sethost with
  | some sethost =>
    if c.flags .sethost && (!old .sethost || !strnEq c.sethost sethost hostLen) then
      { c := { c with sethost := ircdStrncpy c.sethost sethost (hostLen + 1) }
        old := clrFlag .sethost old
        doHiding := c.flags .hiddenhost }
    else { c := c, old := old, doHiding := false }
  | none => { c := c, old := old, doHiding := false }

/-- Give a user a cloaked address and host. -/
def userSetcloaked (feat : UserFeat) (c : Cli) : Cli :=
  if feat.hostHidingStyle ≠ 2 ∧ feat.hostHidingStyle ≠ 3 then c
  else
    let c := if c.flags .cloakip then c
      else { c with
        cloakip := (feat.hidehostIp c.sockIp).take hostLen
        flags := setFlag .cloakip c.flags }
    if c.flags .cloakhost then c
    else { c with
      cloakhost := if strnEq c.sockIp c.host (hostLen + 1) then c.cloakip.take hostLen
        else (feat.hidehostNormalhost c.realhost).take hostLen
      flags := setFlag .cloakhost c.flags }

/-- The host that a hidden user is shown with, and the user name if the set host has one. `hide_hostmask` -/
def hiddenAs (feat : UserFeat) (c : Cli) : Str × Str :=
  if c.flags .sethost then
    if '@' ∈ c.sethost then
      (ircdStrncpy [] (c.sethost.dropWhile (· ≠ '@')).tail (hostLen + 1),
        (ircdStrncpy [] c.sethost (userLen + 1)).takeWhile (· ≠ '@'))
    else (ircdStrncpy [] c.sethost (hostLen + 1), [])
  else if c.flags .fakehost then (ircdStrncpy [] c.fakehost (hostLen + 1), [])
  else if feat.hostHidingStyle = 1 ∨ (feat.hostHidingStyle = 3 ∧ c.flags .account) then
    let operhost := isAnOper c.mine c.flags && !c.flags .hideOper && feat.operhostHiding
    ((c.account ++ '.' :: (if operhost then feat.hiddenOperhost else feat.hiddenHost)).take (hostLen - 1), [])
  else if c.flags .cloakhost ∧ (feat.hostHidingStyle = 2 ∨ feat.hostHidingStyle = 3) then
    (ircdStrncpy [] c.cloakhost (hostLen + 1), [])
  else (ircdStrncpy [] c.realhost (hostLen + 1), [])

/-- Show a hidden user with another host, if it is another one. `hide_hostmask`. -/
def takeHidden (feat : UserFeat) (c : Cli) : Cli :=
  let new := hiddenAs feat c
  if strnEq c.host new.1 hostLen then c
  else { c with host := new.1, username := if new.2 = [] then c.username else new.2 }

/-- Hide the host of a user with `+x`. -/
def hideHostmask (feat : UserFeat) (c : Cli) : Cli :=
  if !c.flags .hiddenhost then c
  else if !c.flags .fakehost && !c.flags .sethost && (feat.hostHidingStyle < 0 || 3 < feat.hostHidingStyle ||
        (feat.hostHidingStyle = 1 && !c.flags .account)) then c
  else takeHidden feat (if !c.flags .cloakhost && (feat.hostHidingStyle = 2 || feat.hostHidingStyle = 3) then
      userSetcloaked feat c else c)

def unhideHostmask (c : Cli) : Cli :=
  if c.flags .hiddenhost then c
  else if strnEq c.host c.realhost hostLen then c
  else { c with host := ircdStrncpy c.host c.realhost (hostLen + 1) }

/-! ## Counters and the handler -/

/-- The counters of users that modes change. `querycmds.h` `struct UserStatistics`. -/
structure UserStats where
  /-- Operators that are not hidden. -/
  opers : ℤ
  invClients : ℤ
deriving DecidableEq

/-- Whether a flag that keeps an operator out of the count is set. `set_user_mode` (`IsHideOper`,
`IsChannelService`, `IsBot`). -/
def hiddenOper (fl : Flags) : Bool := fl .hideOper || fl .chserv || fl .bot

/-- The change of the number of operators. `set_user_mode`. -/
def opersDelta (old fl : Flags) : ℤ :=
  (if !old .oper && fl .oper && !hiddenOper fl then 1 else 0) -
  (if old .oper && !fl .oper && !hiddenOper old then 1 else 0) -
  (if !hiddenOper old && hiddenOper fl && (old .oper && fl .oper) then 1 else 0) +
  (if hiddenOper old && !hiddenOper fl && (old .oper && fl .oper) then 1 else 0)

/-- The change of the number of invisible users. `set_user_mode`. -/
def invDelta (old fl : Flags) : ℤ :=
  (if !old .invisible && fl .invisible then 1 else 0) -
  (if old .invisible && !fl .invisible then 1 else 0)

/-- The handler of a local user: four tests in this order. `set_user_mode`. -/
def umodeHandler (mine : Bool) (old fl : Flags) (h : Handler) : Handler :=
  let h := if !old .oper && fl .oper && mine then .oper else h
  let h := if !old .locop && (mine && fl .locop) && mine then .oper else h
  let h := if old .oper && !fl .oper && mine then .client else h
  if old .locop && !(mine && fl .locop) && mine then .client else h

/-- Whether a change of flags changes how the host is hidden. `set_user_mode`. -/
def umodeHiding (old : Flags) (c : Cli) : Bool :=
  (c.flags .hiddenhost && (!old .oper && c.flags .oper ||
    !old .locop && (c.mine && c.flags .locop) || old .oper && !c.flags .oper ||
    old .locop && !(c.mine && c.flags .locop))) ||
  (old .hideOper != c.flags .hideOper)

/-- The part for registered users: counters, handler, privileges, and the end of a set host. `set_user_mode` (`if (IsRegistered(acptr))`) -/
def countUmodes (feat : UserFeat) (e : UmodeEnd) (st : UserStats) : UmodeEnd × UserStats :=
  let c := e.c
  let doHiding := e.doHiding || umodeHiding e.old c
  let st : UserStats := {
    opers := st.opers + opersDelta e.old c.flags
    invClients := st.invClients + invDelta e.old c.flags }
  let handler := umodeHandler c.mine e.old c.flags c.handler
  let c := if e.old .oper && !c.flags .oper then clearPrivs (clientSetPrivs c none) else c
  let c := { c with handler := handler }
  let unset := e.old .sethost && !c.flags .sethost
  let gone := unset && (c.flags .hiddenhost && !c.flags .fakehost) &&
    (feat.hostHidingStyle = 0 || (feat.hostHidingStyle = 1 && !c.flags .account) || 3 < feat.hostHidingStyle)
  let old := clrIf unset .sethost e.old
  let c := { c with flags := clrIf gone .hiddenhost c.flags }
  let doHiding := doHiding || (unset && !gone) || (!old .hiddenhost && c.flags .hiddenhost)
  let c := if old .hiddenhost && !c.flags .hiddenhost then unhideHostmask c else c
  ({ c := c, old := old, doHiding := doHiding }, st)

/-- Change the modes of a user. `byServer` is `IsServer(cptr)`, `svsmode` the flag of SVSMODE, and `words` the
mode string and what follows it. `set_user_mode`, from the copy of the flags on. -/
def applyUmodes (feat : UserFeat) (byServer svsmode : Bool) (words : List Str) (c : Cli)
    (st : UserStats) : Cli × UserStats :=
  let old := c.flags
  let s := walkWords (umodeStep feat) 0 words true
    { c := c, tmpmask := if c.mine then c.snomask else 0 }
  let s := if !byServer && !svsmode then s.revoke feat old else s
  let e := copyTexts s old (dropPrivs old s.tmpmask s.c)
  let r := if e.c.registered then countUmodes feat e st else (e, st)
  (if r.1.doHiding && r.1.c.flags .hiddenhost then hideHostmask feat r.1.c else r.1.c, r.2)

/-- The client whose modes a MODE changes. `findNUser` is asked only on a server's link, and a source behind a
link stands for a target that is not found. Only a server may name another client, and only a local one; for a
client elsewhere its MODE is passed on and nothing else happens. `set_user_mode`, up to the copy of the flags -/
def umodeTarget {ι : Type*} [DecidableEq ι] (byServer : Bool) (sptr : ι) (isServer mine : ι → Bool)
    (findNUser findUser : Str → Option ι) (target : Option Str) : Option ι :=
  let acptr := match target with
    | none => some sptr
    | some name => (if byServer then findNUser name else none).or
        ((findUser name).or (if byServer && !mine sptr then some sptr else none))
  acptr.filter fun a => if isServer sptr then mine a else a = sptr

/-! ## Lemmas on flags -/

section flags

variable (f : Flag) (fl : Flags) (b : Bool)

@[simp] lemma setFlag_apply (g : Flag) : setFlag f fl g = (fl g || decide (g = f)) := rfl

@[simp] lemma clrFlag_apply (g : Flag) : clrFlag f fl g = (fl g && !decide (g = f)) := rfl

@[simp] lemma putFlag_self : putFlag b f fl f = b := by
  cases b <;> simp [putFlag]

lemma putFlag_of_ne {g : Flag} (h : g ≠ f) : putFlag b f fl g = fl g := by
  cases b <;> simp [putFlag, h]

lemma clrIf_self : clrIf b f fl f = (fl f && !b) := by
  cases b <;> simp [clrIf]

lemma clrIf_of_ne {g : Flag} (h : g ≠ f) : clrIf b f fl g = fl g := by
  cases b <;> simp [clrIf, h]

lemma setIf_self : setIf b f fl f = (fl f || b) := by
  cases b <;> simp [setIf]

lemma setIf_of_ne {g : Flag} (h : g ≠ f) : setIf b f fl g = fl g := by
  cases b <;> simp [setIf, h]

end flags

/-- The flags that have a letter with a branch of its own. `set_user_mode`. -/
def ownBranch : List Flag :=
  [.oper, .locop, .servnotice, .hiddenhost, .account, .cloakip, .cloakhost, .fakehost, .sethost]

lemma umodeOf_flag {m : Char} {f : Flag} (h : umodeOf m = .flag f) : f ∉ ownBranch := by
  unfold umodeOf at h
  split at h <;> first
    | (injection h with h; subst h; decide)
    | exact absurd h (by simp)

/-! ## Walks

Two walks over the same words read the same letters with the same arguments, so a relation that each
letter keeps holds at the end. -/

section walk

variable {σ τ : Type*} {step₁ : Bool → Umode → Option Str → σ → σ}
  {step₂ : Bool → Umode → Option Str → τ → τ} {R : σ → τ → Prop}

lemma walkLetters_rel (hstep : ∀ what m arg s t, R s t →
      R (step₁ what (umodeOf m) arg s) (step₂ what (umodeOf m) arg t))
    (rest : List Str) (w : Str) (k : ℕ) (what : Bool) (s : σ) (t : τ) (h : R s t) :
    (walkLetters step₁ rest w k what s).1 = (walkLetters step₂ rest w k what t).1 ∧
    (walkLetters step₁ rest w k what s).2.1 = (walkLetters step₂ rest w k what t).2.1 ∧
    R (walkLetters step₁ rest w k what s).2.2 (walkLetters step₂ rest w k what t).2.2 := by
  induction w generalizing k what s t with
  | nil => exact ⟨rfl, rfl, h⟩
  | cons m ms ih => exact ih _ _ _ _ (hstep _ _ _ _ _ h)

lemma walkWords_rel (hstep : ∀ what m arg s t, R s t →
      R (step₁ what (umodeOf m) arg s) (step₂ what (umodeOf m) arg t))
    (words : List Str) (k : ℕ) (what : Bool) (s : σ) (t : τ) (h : R s t) :
    R (walkWords step₁ k words what s) (walkWords step₂ k words what t) := by
  induction words generalizing k what s t with
  | nil =>
    cases k <;> exact h
  | cons w ws ih =>
    cases k with
    | succ k => exact ih _ _ _ _ h
    | zero =>
      obtain ⟨hk, hw, hr⟩ := walkLetters_rel hstep ws w 0 what s t h
      show R (walkWords step₁ (walkLetters step₁ ws w 0 what s).1 ws _ _)
        (walkWords step₂ (walkLetters step₂ ws w 0 what t).1 ws _ _)
      rw [hk, hw]
      exact ih _ _ _ _ hr

lemma walkWords_keeps {P : σ → Prop} (hstep : ∀ what u arg s, P s → P (step₁ what u arg s)) (words : List Str)
    (k : ℕ) (what : Bool) (s : σ) (h : P s) : P (walkWords step₁ k words what s) :=
  @walkWords_rel σ Unit step₁ (fun _ _ _ t => t) (fun s _ => P s)
    (fun what m arg s _ hs => hstep what (umodeOf m) arg s hs) words k what s () h

end walk

/-! ## What the parts keep -/

/-- Two states of a client that differ in what modes change: where it is, whether it is registered and
its privileges are the same. -/
structure SameCli (c c' : Cli) : Prop where
  mine : c'.mine = c.mine
  registered : c'.registered = c.registered
  privs : c'.privs = c.privs

lemma sameCli_deoper {c : Cli} {s : UmodeScan} (h : SameCli c s.c) : SameCli c s.deoper.c := by
  unfold UmodeScan.deoper
  split
  · split <;> exact ⟨h.mine, h.registered, h.privs⟩
  · exact h

lemma sameCli_umodeStep (feat : UserFeat) {c : Cli} (what : Bool) (u : Umode) (arg : Option Str)
    (s : UmodeScan) (h : SameCli c s.c) : SameCli c (umodeStep feat what u arg s).c := by
  have hmap : ∀ (s : UmodeScan) g, SameCli c s.c → SameCli c (s.mapFlags g).c :=
    fun s g h => ⟨h.mine, h.registered, h.privs⟩
  cases u with
  | plus | minus | unknown => exact h
  | flag f => exact hmap s _ h
  | snomask => exact hmap _ _ h
  | oper | locop =>
    simp only [umodeStep]
    split
    · exact hmap s _ h
    · exact sameCli_deoper (hmap s _ h)
  | hiddenhost =>
    simp only [umodeStep]
    split
    · exact hmap s _ h
    · split
      · exact hmap s _ h
      · exact h
  | account | cloakhost | cloakip | fakehost =>
    simp only [umodeStep]
    split
    · exact hmap _ _ h
    · exact h
  | sethost =>
    simp only [umodeStep]
    split
    · split
      · exact hmap _ _ h
      · exact h
    · exact hmap s _ h

/-- The scan of a command. `set_user_mode`. -/
def scanUmodes (feat : UserFeat) (words : List Str) (c : Cli) : UmodeScan :=
  walkWords (umodeStep feat) 0 words true { c := c, tmpmask := if c.mine then c.snomask else 0 }

/-- The scan and the rules that follow it. `set_user_mode`. -/
def ruledUmodes (feat : UserFeat) (byServer svsmode : Bool) (words : List Str) (c : Cli) : UmodeScan :=
  if !byServer && !svsmode then (scanUmodes feat words c).revoke feat c.flags
  else scanUmodes feat words c

lemma sameCli_scanUmodes (feat : UserFeat) (words : List Str) (c : Cli) :
    SameCli c (scanUmodes feat words c).c :=
  walkWords_keeps (P := fun s => SameCli c s.c) (fun what u arg s => sameCli_umodeStep feat what u arg s)
    words 0 true _ ⟨rfl, rfl, rfl⟩

lemma sameCli_ruledUmodes (feat : UserFeat) (byServer svsmode : Bool) (words : List Str) (c : Cli) :
    SameCli c (ruledUmodes feat byServer svsmode words c).c := by
  have h := sameCli_scanUmodes feat words c
  unfold ruledUmodes
  split
  · exact ⟨h.mine, h.registered, h.privs⟩
  · exact h

lemma setNotices_eq (m : BitVec 32) (c : Cli) : ∃ m', setNotices m c = { c with snomask := m' } := by
  unfold setNotices
  split_ifs
  · exact ⟨_, rfl⟩
  · exact ⟨c.snomask, rfl⟩
  · exact ⟨_, rfl⟩

lemma dropPrivs_eq (old : Flags) (m : BitVec 32) (c : Cli) : ∃ m', dropPrivs old m c =
    { c with
      snomask := m'
      privs := if c.mine && (old .oper || old .locop) && !isAnOper c.mine c.flags then fun _ => false
        else c.privs } := by
  unfold dropPrivs
  by_cases hm : c.mine = true
  · have hc : (c.mine && (old .oper || old .locop) && !isAnOper c.mine c.flags) =
        ((old .oper || old .locop) && !isAnOper c.mine c.flags) := by
      rw [Bool.and_assoc, hm, Bool.true_and]
    rw [if_pos hm, hc]
    split
    · exact setNotices_eq m (clientSetPrivs c none)
    · exact setNotices_eq m c
  · have hc : (c.mine && (old .oper || old .locop) && !isAnOper c.mine c.flags) = false := by
      rw [Bool.and_assoc, Bool.eq_false_iff.mpr hm, Bool.false_and]
    rw [if_neg hm, hc]
    exact ⟨c.snomask, rfl⟩

/-- Two states of a client with the same place, flags, privileges and handler: they differ in texts. -/
structure SameModes (c c' : Cli) : Prop where
  mine : c'.mine = c.mine
  registered : c'.registered = c.registered
  flags : c'.flags = c.flags
  privs : c'.privs = c.privs
  handler : c'.handler = c.handler

lemma SameModes.refl (c : Cli) : SameModes c c := ⟨rfl, rfl, rfl, rfl, rfl⟩

lemma SameModes.trans {a b c : Cli} (h : SameModes a b) (h' : SameModes b c) : SameModes a c :=
  ⟨h'.mine.trans h.mine, h'.registered.trans h.registered, h'.flags.trans h.flags,
    h'.privs.trans h.privs, h'.handler.trans h.handler⟩

lemma SameModes.ite {a b c : Cli} {p : Prop} [Decidable p] (h : SameModes a b) (h' : SameModes a c) :
    SameModes a (if p then b else c) := by
  split
  · exact h
  · exact h'

lemma sameModes_copyAccount (account : Str) (c : Cli) : SameModes c (copyAccount account c) := by
  unfold copyAccount
  exact .ite ⟨rfl, rfl, rfl, rfl, rfl⟩ ⟨rfl, rfl, rfl, rfl, rfl⟩

lemma sameModes_copyTexts (s : UmodeScan) (old : Flags) (c : Cli) : SameModes c (copyTexts s old c).c := by
  have h : SameModes c (if !old .account && c.flags .account then
      copyAccount (s.account.getD []) c else c) :=
    .ite (sameModes_copyAccount _ c) (.refl c)
  unfold copyTexts
  generalize (if !old .account && c.flags .account then _ else c) = c₁ at h
  refine h.trans ?_
  dsimp only
  split
  · split <;> exact ⟨rfl, rfl, rfl, rfl, rfl⟩
  · exact ⟨rfl, rfl, rfl, rfl, rfl⟩

lemma copyTexts_old (s : UmodeScan) (old : Flags) (c : Cli) {f : Flag} (hf : f ≠ .sethost) :
    (copyTexts s old c).old f = old f := by
  unfold copyTexts
  generalize (if !old .account && c.flags .account then _ else c) = c₁
  dsimp only
  split
  · split
    · simp [hf]
    · rfl
  · rfl

lemma sameModes_unhideHostmask (c : Cli) : SameModes c (unhideHostmask c) := by
  unfold unhideHostmask
  exact .ite (.refl c) (.ite (.refl c) ⟨rfl, rfl, rfl, rfl, rfl⟩)

lemma userSetcloaked_flags (feat : UserFeat) (c : Cli) (f : Flag) : (userSetcloaked feat c).flags f =
    (c.flags f || (decide (feat.hostHidingStyle = 2 ∨ feat.hostHidingStyle = 3) && decide (f = .cloakip ∨ f =
    .cloakhost))) := by
  unfold userSetcloaked
  by_cases h : feat.hostHidingStyle = 2 ∨ feat.hostHidingStyle = 3
  · have h' : ¬ (feat.hostHidingStyle ≠ 2 ∧ feat.hostHidingStyle ≠ 3) := by tauto
    rw [if_neg h', decide_eq_true h, Bool.true_and]
    dsimp only
    by_cases hip : f = .cloakip
    · subst hip
      split <;> split <;> simp_all
    · by_cases hhost : f = .cloakhost
      · subst hhost
        split <;> split <;> simp_all
      · split <;> split <;> simp_all
  · have h' : feat.hostHidingStyle ≠ 2 ∧ feat.hostHidingStyle ≠ 3 := by tauto
    rw [if_pos h', decide_eq_false h, Bool.false_and, Bool.or_false]

lemma sameModes_takeHidden (feat : UserFeat) (c : Cli) : SameModes c (takeHidden feat c) := by
  unfold takeHidden
  exact .ite (.refl c) ⟨rfl, rfl, rfl, rfl, rfl⟩

/-- Whether hiding the host gives a user the flags of a cloak. `hide_hostmask`. -/
def cloaks (feat : UserFeat) (fl : Flags) : Bool :=
  fl .hiddenhost && !fl .cloakhost && decide (feat.hostHidingStyle = 2 ∨ feat.hostHidingStyle = 3)

lemma hideHostmask_flags (feat : UserFeat) (c : Cli) (f : Flag) : (hideHostmask feat c).flags f =
      (c.flags f || (cloaks feat c.flags && decide (f = .cloakip ∨ f = .cloakhost))) := by
  unfold hideHostmask cloaks
  by_cases hh : c.flags .hiddenhost = true
  swap
  · simp [hh]
  rw [hh]
  simp only [Bool.not_true, Bool.false_eq_true, if_false, Bool.true_and]
  by_cases hs : feat.hostHidingStyle = 2 ∨ feat.hostHidingStyle = 3
  · have hoff : (decide (feat.hostHidingStyle < 0) || decide (3 < feat.hostHidingStyle) ||
        decide (feat.hostHidingStyle = 1) && !c.flags .account) = false := by
      rcases hs with h | h <;> simp [h]
    have hon : (decide (feat.hostHidingStyle = 2) || decide (feat.hostHidingStyle = 3)) = true := by
      simpa using hs
    have hcloak := userSetcloaked_flags feat c f
    rw [decide_eq_true hs, Bool.true_and] at hcloak
    rw [hoff, hon, decide_eq_true hs, Bool.and_false, Bool.and_true]
    simp only [Bool.false_eq_true, if_false, (sameModes_takeHidden feat _).flags]
    by_cases hc : c.flags .cloakhost = true
    · simp [hc]
    · simpa [hc] using hcloak
  · have hon : (decide (feat.hostHidingStyle = 2) || decide (feat.hostHidingStyle = 3)) = false := by
      simpa using hs
    rw [hon, decide_eq_false hs]
    simp only [Bool.and_false, Bool.false_eq_true, if_false, Bool.false_and, Bool.or_false]
    split
    · rfl
    · rw [(sameModes_takeHidden feat c).flags]

lemma userSetcloaked_same (feat : UserFeat) (c : Cli) :
    SameCli c (userSetcloaked feat c) ∧ (userSetcloaked feat c).handler = c.handler := by
  unfold userSetcloaked
  dsimp only
  split
  · exact ⟨⟨rfl, rfl, rfl⟩, rfl⟩
  · split <;> split <;> exact ⟨⟨rfl, rfl, rfl⟩, rfl⟩

lemma hideHostmask_same (feat : UserFeat) (c : Cli) :
    SameCli c (hideHostmask feat c) ∧ (hideHostmask feat c).handler = c.handler := by
  have htake : ∀ d, SameCli c d ∧ d.handler = c.handler →
      SameCli c (takeHidden feat d) ∧ (takeHidden feat d).handler = c.handler := by
    intro d hd
    have h := sameModes_takeHidden feat d
    exact ⟨⟨h.mine.trans hd.1.mine, h.registered.trans hd.1.registered, h.privs.trans hd.1.privs⟩,
      h.handler.trans hd.2⟩
  have hrefl : SameCli c c ∧ c.handler = c.handler := ⟨⟨rfl, rfl, rfl⟩, rfl⟩
  unfold hideHostmask
  split
  · exact hrefl
  · split
    · exact hrefl
    · apply htake
      split
      · exact userSetcloaked_same feat c
      · exact hrefl

lemma countUmodes_eq (feat : UserFeat) (e : UmodeEnd) (st : UserStats) : ∃ gone, SameModes { e.c with
      handler := umodeHandler e.c.mine e.old e.c.flags e.c.handler
      privs := if e.old .oper && !e.c.flags .oper then fun _ => false else e.c.privs
      flags := clrIf gone .hiddenhost e.c.flags } (countUmodes feat e st).1.c := by
  by_cases h : (e.old .oper && !e.c.flags .oper) = true
  · unfold countUmodes
    simp only [h, if_true, clearPrivs]
    split
    · exact ⟨_, sameModes_unhideHostmask _⟩
    · exact ⟨_, .refl _⟩
  · unfold countUmodes
    simp only [h, Bool.false_eq_true, if_false]
    split
    · exact ⟨_, sameModes_unhideHostmask _⟩
    · exact ⟨_, .refl _⟩

/-- The flags that the rest of the function leaves alone. `set_user_mode`. -/
def Settled (f : Flag) : Prop := f ≠ .hiddenhost ∧ f ≠ .cloakip ∧ f ≠ .cloakhost

instance : DecidablePred Settled := fun _ => inferInstanceAs (Decidable (_ ∧ _))

/-- What a command does to a client and the counters, in terms of the flags `fl` that the letters and the rules
have left and of the handler `h` that the letters have left. `set_user_mode` -/
structure UmodeSpec (feat : UserFeat) (c : Cli) (st : UserStats) (fl : Flags) (h : Handler)
    (r : Cli × UserStats) : Prop where
  mine : r.1.mine = c.mine
  registered : r.1.registered = c.registered
  flags : ∀ f, Settled f → r.1.flags f = fl f
  cloak : ∀ f, f = .cloakip ∨ f = .cloakhost → r.1.flags f = true →
    fl f = true ∨ (r.1.flags .hiddenhost = true ∧ (feat.hostHidingStyle = 2 ∨ feat.hostHidingStyle = 3))
  privs : r.1.privs =
    if (c.mine && (c.flags .oper || c.flags .locop) && !isAnOper c.mine fl) ||
      (c.registered && c.flags .oper && !fl .oper) then fun _ => false else c.privs
  handler : r.1.handler = if c.registered then umodeHandler c.mine c.flags fl h else h
  stats : r.2 = if c.registered then
      { opers := st.opers + opersDelta c.flags fl, invClients := st.invClients + invDelta c.flags fl }
    else st

lemma UmodeSpec.hide {feat : UserFeat} {c : Cli} {st : UserStats} {fl : Flags} {h : Handler}
    {d : Cli} {st' : UserStats} (hs : UmodeSpec feat c st fl h (d, st')) (b : Bool) :
    UmodeSpec feat c st fl h (if b && d.flags .hiddenhost then hideHostmask feat d else d, st') := by
  by_cases hb : (b && d.flags .hiddenhost) = true
  swap
  · rwa [if_neg hb]
  rw [if_pos hb]
  obtain ⟨hsame, hh⟩ := hideHostmask_same feat d
  have hhid : d.flags .hiddenhost = true := (Bool.and_eq_true_iff.mp hb).2
  refine ⟨hsame.mine.trans hs.mine, hsame.registered.trans hs.registered, fun f hf => ?_,
    fun f hf hset => ?_, hsame.privs.trans hs.privs, hh.trans hs.handler, hs.stats⟩
  · rw [hideHostmask_flags, hs.flags f hf]
    simp [hf.2.1, hf.2.2]
  · rw [hideHostmask_flags] at hset ⊢
    by_cases hd : d.flags f = true
    · refine (hs.cloak f hf hd).imp_right fun h => ⟨?_, h.2⟩
      simp [hhid]
    · have hcl : cloaks feat d.flags = true := by
        simp only [hd, Bool.false_or, Bool.and_eq_true] at hset
        exact hset.1
      have hst : feat.hostHidingStyle = 2 ∨ feat.hostHidingStyle = 3 := by
        simp only [cloaks, Bool.and_eq_true, decide_eq_true_eq] at hcl
        exact hcl.2
      exact .inr ⟨by simp [hhid], hst⟩

lemma deltas_congr {old old' : Flags} (h : ∀ f, f ≠ .sethost → old' f = old f) (mine : Bool)
    (fl : Flags) (hd : Handler) : opersDelta old' fl = opersDelta old fl ∧ invDelta old' fl = invDelta old fl ∧
      umodeHandler mine old' fl hd = umodeHandler mine old fl hd := by
  have ho := h .oper (by decide)
  refine ⟨?_, ?_, ?_⟩
  · simp [opersDelta, hiddenOper, ho, h .hideOper (by decide), h .chserv (by decide), h .bot (by decide)]
  · simp [invDelta, h .invisible (by decide)]
  · simp [umodeHandler, ho, h .locop (by decide)]

lemma applyUmodes_spec (feat : UserFeat) (byServer svsmode : Bool) (words : List Str) (c : Cli)
    (st : UserStats) :
    UmodeSpec feat c st (ruledUmodes feat byServer svsmode words c).c.flags
      (ruledUmodes feat byServer svsmode words c).c.handler
      (applyUmodes feat byServer svsmode words c st) := by
  have hsame := sameCli_ruledUmodes feat byServer svsmode words c
  obtain ⟨hmine, hreg, hprivs⟩ := hsame
  set s := ruledUmodes feat byServer svsmode words c with hs
  obtain ⟨m, hdrop⟩ := dropPrivs_eq c.flags s.tmpmask s.c
  have hcopy := sameModes_copyTexts s c.flags (dropPrivs c.flags s.tmpmask s.c)
  have hold := fun f hf =>
    @copyTexts_old s c.flags (dropPrivs c.flags s.tmpmask s.c) f hf
  show UmodeSpec feat c st s.c.flags s.c.handler (let e := copyTexts s c.flags (dropPrivs c.flags s.tmpmask s.c)
     let r := if e.c.registered then countUmodes feat e st else (e, st)
     (if r.1.doHiding && r.1.c.flags .hiddenhost then hideHostmask feat r.1.c else r.1.c, r.2))
  rw [hdrop] at hcopy hold ⊢
  generalize copyTexts s c.flags _ = e at hcopy hold ⊢
  dsimp only
  apply UmodeSpec.hide
  obtain ⟨ho, hi, hh⟩ := deltas_congr hold c.mine s.c.flags s.c.handler
  by_cases hr : c.registered = true
  · have her : e.c.registered = true := hcopy.registered.trans (hreg.trans hr)
    rw [if_pos her]
    obtain ⟨gone, hc⟩ := countUmodes_eq feat e st
    have hflags : ∀ f, f ≠ .hiddenhost → (countUmodes feat e st).1.c.flags f = s.c.flags f := by
      intro f hf
      rw [hc.flags]
      show clrIf gone .hiddenhost e.c.flags f = _
      rw [clrIf_of_ne _ _ _ hf, hcopy.flags]
    refine ⟨hc.mine.trans (hcopy.mine.trans hmine), hc.registered.trans (hcopy.registered.trans hreg),
      fun f hf => hflags f hf.1, fun f hf hset => .inl ?_, ?_, ?_, ?_⟩
    · rw [← hflags f (by rcases hf with rfl | rfl <;> decide)]
      exact hset
    · rw [hc.privs]
      simp only [hcopy.privs, hcopy.flags, hold .oper (by decide), hmine, hprivs, hr, Bool.true_and]
      by_cases hlost : (c.flags .oper && !s.c.flags .oper) = true
      · rw [if_pos hlost, hlost, Bool.or_true, if_pos rfl]
      · rw [if_neg hlost, Bool.eq_false_iff.mpr hlost, Bool.or_false]
    · rw [hc.handler, if_pos hr]
      simp only [hcopy.handler, hcopy.flags, hcopy.mine, hmine]
      exact hh
    · rw [if_pos hr, ← ho, ← hi]
      simp only [countUmodes, hcopy.flags]
  · have her : ¬ e.c.registered = true := fun h => hr (hreg.symm.trans (hcopy.registered.symm.trans h))
    rw [if_neg her]
    refine ⟨hcopy.mine.trans hmine, hcopy.registered.trans hreg, fun f _ => by rw [hcopy.flags],
      fun f _ hset => .inl (by rwa [hcopy.flags] at hset), ?_, ?_, (if_neg hr).symm⟩
    · rw [hcopy.privs]
      simp only [hmine, hprivs, Bool.eq_false_iff.mpr hr, Bool.false_and, Bool.or_false]
    · rw [if_neg hr, hcopy.handler]

def blankCli : Cli where
  mine := true
  registered := false
  flags _ := false
  privs _ := false
  handler := .unregistered
  snomask := 0
  account := []
  accCreate := 0
  username := "user".toList
  host := "host.example".toList
  realhost := "host.example".toList
  sockIp := "192.0.2.1".toList
  cloakip := []
  cloakhost := []
  fakehost := []
  sethost := []

/-- The features by default. `ircd_features.c`. -/
def defaultFeat : UserFeat where
  allowRmx := false
  hostHiding := true
  hostHidingStyle := 1
  wallopsOperOnly := false
  hisSnoticesOperOnly := true
  hisDebugOperOnly := true
  operWhoisParanoia := false
  operHide := false
  derestrictHidechans := true
  operXtraop := false
  operhostHiding := true
  hiddenHost := "users.example".toList
  hiddenOperhost := "staff.example".toList
  snomaskDefault := 0x604
  snomaskOperdefault := 0x160d
  hidehostIp ip := ip ++ ".cloak".toList
  hidehostNormalhost h := "cloak.".toList ++ h

end Nefarious.User
