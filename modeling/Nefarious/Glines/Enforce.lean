import Nefarious.Address.Text
import Nefarious.Glines
import Nefarious.IPcheck
import Nefarious.Lib.Runs
import Nefarious.Match.Patterns

/-!
# Who is G-lined

A G-line is enforced in two places.

Names: `gline.c`.
-/

namespace Nefarious.Glines

open Option (some.inj)

open IPcheck (ipmaskCheck)

/-! ### G-lines of users -/

/-- Longest user name. `ircd_defs.h`. -/
def userLen : ℕ := 10

/-- Longest host name. `ircd_defs.h`. -/
def hostLen : ℕ := 75

/-- Longest real name. `ircd_defs.h`. -/
def realLen : ℕ := 50

/-- Longest name of a channel. `channel.h`. -/
def channelLen : ℕ := 200

/-- Longest text of an address. `ircd_defs.h`. -/
def sockipLen : ℕ := 45

/-- Longest answer to a CTCP VERSION. `ircd_defs.h`. -/
def versionLen : ℕ := 250

/-- What a G-line is about. `gline.h` `struct Gline`. -/
structure Target where
  user : Str
  /-- `gl_host`, unless it is a null pointer. -/
  host : Option Str
  badchan : Bool
  realname : Bool
  version : Bool
  /-- `gl_addr` and `gl_bits`, with `GLINE_IPMASK`. -/
  ipmask : Option (List ℕ × ℕ)
deriving DecidableEq

/-- Find canonical user and host for a string. -/
def canonUserhost (userhost defUser : Str) : Str × Str :=
  if '@' ∈ userhost then (userhost.takeWhile (· ≠ '@'), (userhost.dropWhile (· ≠ '@')).drop 1)
  else (defUser, userhost)

/-- The first bits of an address. `match.c`. -/
def ipmaskClean : List ℕ → ℕ → List ℕ
  | [], _ => []
  | g :: gs, bits =>
    if bits < 16 then g >>> (16 - bits) <<< (16 - bits) :: ipmaskClean gs 0
    else g :: ipmaskClean gs (bits - 16)

/-- The address that a host is. Nothing is written to `bits` for some texts. `make_gline`. -/
def hostIpmask (bits : ℕ) (host : Str) : Option (List ℕ × ℕ) :=
  match ipmaskParseBits host with
  | some (groups, pos, pbits) =>
    if pos = 0 then none else some (ipmaskClean groups (pbits.getD bits), pbits.getD bits)
  | none => none

/-- What a G-line that is added is about; there is none when it is refused. `bits` is what stood in `gl_bits`.
The limits for local operators are left out. `gline_add`, `make_gline`. -/
def glineTarget (bits : ℕ) (userhost : Str) : Option Target :=
  if userhost.head? = some '#' ∨ userhost.head? = some '&' then
    if channelLen + 6 ≤ (userhost.drop 1).length then none
    else some ⟨userhost, none, true, false, false, none⟩
  else if userhost.head? = some '$' then
    if (userhost.drop 1).head? = some 'R' then
      if realLen + 6 ≤ (userhost.drop 2).length then none
      else some ⟨userhost, none, false, true, false, none⟩
    else if (userhost.drop 1).head? = some 'V' then some ⟨userhost, none, false, false, true, none⟩
    else none
  else
    let (user, host) := canonUserhost userhost ['*']
    if userLen + hostLen + 2 < (user ++ '@' :: host).length then none
    else some ⟨user, some host, false, false, false, hostIpmask bits host⟩

/-- A G-line of this server. `gline.h` `struct Gline`. -/
structure UserGline extends Gline where
  target : Target
  /-- `GLINE_LOCAL`. -/
  isLocal : Bool
  known : ∃ bits userhost, glineTarget bits userhost = some target

/-- Test whether it is active. `gline.h` `GlineIsActive`. -/
def Gline.isActive (g : Gline) : Bool := (g.active && g.state ≠ .deactivated) || g.state = .activated

/-- `struct User`. `struct.h` `struct User`. -/
structure ConnUser where
  username : Str
  realhost : Str

/-- What is looked at of a local client. `client.h` `struct Client`, `struct Connection`. -/
structure Client where
  ip : Addr
  sockIp : Str
  sockhost : Str
  /-- `cli_user`, unless it is a null pointer. -/
  user : Option ConnUser
  username : Str
  info : Str
  version : Str

/-- A mask matches. `match.c` `match`. -/
def isMatch (mask name : Str) : Bool := matchMask mask name = 0

/-- An exception. `s_conf.h` `struct ExceptConf`. -/
structure ExceptConf where
  gline : Bool
  /-- `usermask`, if there is one. -/
  usermask : Option Str
  /-- `hostmask`, if there is one. -/
  hostmask : Option Str
  address : List ℕ
  bits : ℕ

/-- A client is exempt from G-lines. `s_conf.c`. -/
def findExceptConf (confs : List ExceptConf) (c : Client) : Bool :=
  confs.any fun e => e.gline && e.usermask.all (isMatch · c.username) &&
    if 0 < e.bits then ipmaskCheck c.ip.groups e.address e.bits else e.hostmask.all (isMatch · c.sockhost)

/-- The address is one of a G-line. `do_gline`, `gline_lookup`. -/
def ipMatches (ip : Addr) (m : List ℕ × ℕ) : Bool :=
  !(inAddrIsIpv4 ip.groups != inAddrIsIpv4 m.1 && m.2 ≠ 0) && ipmaskCheck ip.groups m.1 m.2

/-! ### The two places -/

/-- A G-line that is activated is about a user. `do_gline`. -/
def doGlineMatches (c : Client) (u : ConnUser) (g : Target) : Bool :=
  if g.realname then isMatch (g.user.drop 2) c.info
  else if g.version then c.version ≠ [] && isMatch (g.user.drop 2) c.version
  else (u.username = [] || isMatch g.user u.username) &&
    match g.ipmask with
    | some m => ipMatches c.ip m
    | none => g.host.any (isMatch · c.sockhost) || g.host.any (isMatch · (ntoa c.ip))

/-- Check a local client against a new G-line: whether the client is rejected. -/
def doGline (disableGlines : Bool) (confs : List ExceptConf) (c : Client) (g : UserGline) : Bool :=
  if disableGlines then false
  else if g.target.badchan then false
  else if !g.isActive then false
  else match c.user with
    | none => false
    | some u => if findExceptConf confs c then false else doGlineMatches c u g.target

/-- A G-line that is looked up is about a client. `gline_lookup`. -/
def lookupMatches (c : Client) (g : Target) : Bool :=
  if g.realname then isMatch (g.user.drop 2) c.info
  else if g.version then c.version ≠ [] && isMatch (g.user.drop 2) c.version
  else (match c.user with
      | some u => isMatch g.user u.username
      | none => g.user = ['*']) &&
    match g.ipmask with
    | some m => ipMatches c.ip m
    | none => (match c.user with
        | some u => g.host.any (isMatch · u.realhost)
        | none => false) || g.host.any (isMatch · c.sockIp)

/-- Iterate through G-lines: one that has expired is freed or no longer active. -/
def gliter (now : ℕ) (g : UserGline) : Option UserGline :=
  if g.lifetime ≤ now then none
  else if now < g.expire then some g
  else some { g with active := false, state := .global }

/-- Find a matching G-line for a client that is not exempt. `gline_lookup`. -/
def lookupLoop (now : ℕ) (fGlobal fLastmod : Bool) (c : Client) : List UserGline → Option UserGline
  | [] => none
  | g :: gs =>
    match gliter now g with
    | none => lookupLoop now fGlobal fLastmod c gs
    | some g =>
      if (fGlobal && g.isLocal) || (fLastmod && g.lastmod = 0) then lookupLoop now fGlobal fLastmod c gs
      else if !lookupMatches c g.target then lookupLoop now fGlobal fLastmod c gs
      else if g.isActive then some g
      else lookupLoop now fGlobal fLastmod c gs

/-- Find a matching G-line for a user. -/
def glineLookup (now : ℕ) (fGlobal fLastmod : Bool) (confs : List ExceptConf) (c : Client)
    (globalGlineList : List UserGline) : Option UserGline :=
  if findExceptConf confs c then none else lookupLoop now fGlobal fLastmod c globalGlineList

/-- The G-lines that are not about channels are on a list of their own. `make_gline`. -/
def globalGlineList (gs : List UserGline) : List UserGline := gs.filter fun g => !g.target.badchan

/-- Search a G-line for a client that registers. `s_conf.c` `find_kill`. -/
def findKillGline (disableGlines : Bool) (now : ℕ) (confs : List ExceptConf) (c : Client)
    (globalGlineList : List UserGline) : Option UserGline :=
  if disableGlines then none else glineLookup now false false confs c globalGlineList

/-- The two places agree on a client: one G-line has not expired, and no other one is active. -/
def Agrees (disableGlines : Bool) (confs : List ExceptConf) (c : Client) : Prop :=
  ∀ (now : ℕ) (g : UserGline) (pre post : List UserGline), now < g.lifetime → now < g.expire →
    (∀ h ∈ pre ++ post, ∀ h', gliter now h = some h' → h'.isActive = false) →
      (doGline disableGlines confs c g = true ↔
        findKillGline disableGlines now confs c (globalGlineList (pre ++ g :: post)) = some g)

/-- A connection on a port for users. `client.h` `struct Client`, `struct Connection`,
`AuthRequestFlag`. -/
structure Conn where
  ip : Addr
  sockIp : Str
  sockhost : Str
  /-- `cli_user`: `username`. -/
  userUsername : Str
  /-- `cli_user`: `realhost`. -/
  realhost : Str
  username : Str
  info : Str
  version : Str
  dnsPending : Bool
  iauthPending : Bool
  hurry : Bool
  iauthUsername : Bool
  iauthFusername : Bool
  gotId : Bool
  ipSpoofed : Bool
  webirc : Bool
  /-- `STAT_USER`. -/
  registered : Bool

/-- The client that a connection is. `client.h` `struct Client`. -/
def Conn.client (c : Conn) : Client where
  ip := c.ip
  sockIp := c.sockIp
  sockhost := c.sockhost
  user := some ⟨c.userUsername, c.realhost⟩
  username := c.username
  info := c.info
  version := c.version

/-- The address is a loopback one. `res.h` `irc_in_addr_is_loopback`. -/
def isLoopback (gs : List ℕ) : Bool :=
  gs.take 5 = [0, 0, 0, 0, 0] ∧
    ((gs.getD 5 0 = 0 ∧ ((gs.getD 6 0 = 0 ∧ gs.getD 7 0 = 1) ∨ gs.getD 6 0 / 256 = 127)) ∨
      (gs.getD 5 0 = 65535 ∧ gs.getD 6 0 / 256 = 127))

/-- A connection is accepted, and its request starts: `me` is the name of this server, `noDns` says that the
resolver is not asked, and `hasIauth` that iauth is. `s_bsd.c` `add_connection`, `start_auth`,
`start_dns_query`. -/
def Conn.accept (addr : Addr) (me : Str) (noDns hasIauth : Bool) : Conn where
  ip := addr
  sockIp := ntoa addr
  sockhost := if !noDns && isLoopback addr.groups then me else ntoa addr
  userUsername := []
  realhost := []
  username := "unknown".toList
  info := []
  version := []
  dnsPending := !noDns && !isLoopback addr.groups
  iauthPending := hasIauth
  hurry := false
  iauthUsername := false
  iauthFusername := false
  gotId := false
  ipSpoofed := false
  webirc := false
  registered := false

/-- The characters of user names. `table_gen.c` `NTL_IRCUI`. -/
def isUserChar (c : Char) : Bool :=
  isDigit c || ('a' ≤ c ∧ c ≤ '~') || ('A' ≤ c ∧ c ≤ '^') || ('\xe0' ≤ c ∧ c ≤ '\xf6') ||
    ('\xf8' ≤ c ∧ c ≤ '\xfe') || ('\xc0' ≤ c ∧ c ≤ '\xd6') || ('\xd8' ≤ c ∧ c ≤ '\xde') ||
    c ∈ ".-_^'`~".toList

/-- Control characters. `table_gen.c` `NTL_CNTRL`. -/
def isCntrl (c : Char) : Bool := c.toNat < 32

/-- The later characters of a user name. `clean_username`. -/
def cleanRest : ℕ → Str → Str
  | 0, _ => []
  | _ + 1, [] => []
  | rlen + 1, c :: src =>
    if isCntrl c then []
    else (if isUserChar c && c ≠ '~' then c else '_') :: cleanRest rlen src

/-- Copy a user name, cleaning it in the process. -/
def cleanUsername : Str → Str
  | [] => []
  | c :: src =>
    if isCntrl c then []
    else (if isUserChar c then c else '_') :: cleanRest (userLen - 1) src

/-- The user name that is checked when a user registers. `auth_set_username`. -/
def Conn.finalUsername (c : Conn) (doId : Bool) : Str :=
  if c.iauthFusername then c.username.take userLen
  else if c.gotId then cleanUsername c.username
  else if doId then '~' :: c.userUsername.take (userLen - 1)
  else c.userUsername

/-- A user registers, or is rejected for the user name. `auth_set_username`, `s_user.c` `register_user`. -/
def Conn.register (c : Conn) (doId : Bool) : Option Conn :=
  let name := c.finalUsername doId
  if name = [] ∨ name = ['~'] then none
  else some { c with userUsername := name, registered := true }

/-- What happens to a connection. `s_auth.c`. -/
inductive ConnEvent
  /-- The resolver answers, with a name that is accepted or without one. -/
  | dns (name : Option Str)
  | ident (username : Str)
  | user (username userinfo : Str)
  | iauthForced (username : Str)
  | iauthGood (username : Str)
  /-- iauth knows an untrusted user name. -/
  | iauthBad (username : Str)
  | iauthHost (name : Str)
  | iauthIp (addr : Addr)
  | iauthDone
  /-- WEBIRC of a gateway; `noident` and `ident` are of its block. -/
  | webirc (hostname : Str) (addr : Addr) (noident : Bool) (ident : Str)
  /-- The request is checked when nothing is missing but the answers of the resolver and of iauth; `doId`
  is `FLAG_DOID` of the class. -/
  | checkFinished (doId : Bool)
  | version (text : Str)
  | svsident (newident : Str)

/-- What iauth says counts while it is asked. `iauth_parse`. -/
def Conn.iauth (c c' : Conn) : Conn := if c.iauthPending then c' else c

/-- One event; there is no result when the connection is closed. The buffers of the two hosts have the same
size. `auth_dns_callback`, `auth_set_user`, `iauth_parse`, `check_auth_finished`, `preregister_user`,
`m_webirc.c` `m_webirc`, `m_svsident.c` `ms_svsident`, `m_notice.c` `mr_notice`. -/
def Conn.step (c : Conn) : ConnEvent → Option Conn
  | .dns name =>
    if !c.dnsPending then some c
    else match name with
      | some name =>
        some { c with
          dnsPending := false
          sockhost := if c.ipSpoofed then c.sockhost else name.take hostLen }
      | none => some { c with dnsPending := false }
  | .ident username =>
    if c.registered || username = [] || c.iauthUsername then some c
    else some { c with username := username.take userLen, gotId := true }
  | .user username userinfo =>
    if c.registered || c.hurry then some c
    else some { c with info := userinfo.take realLen, userUsername := cleanUsername username }
  | .iauthForced username =>
    some <| c.iauth <| if username = [] then c else
      { c with
        username := username.take userLen
        gotId := true
        iauthUsername := true
        iauthFusername := true }
  | .iauthGood username =>
    some <| c.iauth <| if username = [] then c else
      { c with username := username.take userLen, gotId := true, iauthUsername := true }
  | .iauthBad username =>
    some <| c.iauth <| if username = [] then c else { c with userUsername := username.take userLen }
  | .iauthHost name =>
    some <| c.iauth <| if name = [] then c else
      { c with
        dnsPending := false
        ipSpoofed := true
        sockhost := name.take hostLen
        realhost := if c.hurry then name.take hostLen else c.realhost }
  | .iauthIp addr => some <| c.iauth { c with ipSpoofed := true, ip := addr }
  | .iauthDone => some { c with iauthPending := false }
  | .webirc hostname addr noident ident =>
    if c.registered || c.webirc then some c
    else some { c with
      ipSpoofed := true
      ip := addr
      sockIp := (ntoa addr).take sockipLen
      sockhost := hostname.take hostLen
      realhost := hostname.take hostLen
      webirc := true
      gotId := (c.gotId && !noident) || ident ≠ []
      username := if ident = [] then c.username else ident.take userLen }
  | .checkFinished doId =>
    if c.dnsPending || c.registered then some c
    else
      let c := if c.hurry then c else { c with realhost := c.sockhost, hurry := true }
      if c.iauthPending then some c else c.register doId
  | .version text => some { c with version := text.take versionLen }
  | .svsident newident =>
    if c.registered && newident.length ≤ userLen && newident.all isUserChar then
      some { c with userUsername := newident, username := newident }
    else some c

/-- A registered local client, with its history. -/
structure RegisteredClient where
  start : Addr × Str × Bool × Bool
  events : List ConnEvent
  conn : Conn
  run : Lib.Runs.run Conn.step (.accept start.1 start.2.1 start.2.2.1 start.2.2.2) events = some conn
  registered : conn.registered = true

/-- The invariant of connections. -/
structure Conn.Sound (c : Conn) : Prop where
  host : c.hurry = true → c.realhost = c.sockhost
  dns : c.hurry = true → c.dnsPending = false
  hurry : c.registered = true → c.hurry = true
  text : ∃ a, c.sockIp = ntoa a

lemma Conn.Sound.accept (addr : Addr) (me : Str) (noDns hasIauth : Bool) :
    (Conn.accept addr me noDns hasIauth).Sound :=
  ⟨nofun, nofun, nofun, ⟨addr, rfl⟩⟩

lemma Conn.Sound.iauth {c c' : Conn} (h : c.Sound) (h' : c'.Sound) : (c.iauth c').Sound := by
  unfold Conn.iauth
  split
  · exact h'
  · exact h

lemma Conn.Sound.register {c c' : Conn} {doId : Bool} (h : c.Sound) (hhurry : c.hurry = true)
    (hr : c.register doId = some c') : c'.Sound := by
  unfold Conn.register at hr
  simp only at hr
  split at hr
  · cases hr
  · rw [← some.inj hr]
    exact ⟨h.host, h.dns, fun _ => hhurry, h.text⟩

lemma Conn.Sound.step {c c' : Conn} (h : c.Sound) {e : ConnEvent} (hstep : c.step e = some c') :
    c'.Sound := by
  cases e with
  | dns name =>
    simp only [Conn.step] at hstep
    split at hstep
    · exact some.inj hstep ▸ h
    · next hdns =>
        have hhurry : c.hurry = false := by
          cases hh : c.hurry with
          | false => rfl
          | true => simp [h.dns hh] at hdns
        cases name with
        | none =>
          rw [← some.inj hstep]
          exact ⟨h.host, fun _ => rfl, h.hurry, h.text⟩
        | some name =>
          rw [← some.inj hstep]
          exact ⟨fun hh => absurd (hhurry.symm.trans hh) (by decide), fun _ => rfl, h.hurry, h.text⟩
  | ident username =>
    simp only [Conn.step] at hstep
    split at hstep
    · exact some.inj hstep ▸ h
    · rw [← some.inj hstep]
      exact ⟨h.host, h.dns, h.hurry, h.text⟩
  | user username userinfo =>
    simp only [Conn.step] at hstep
    split at hstep
    · exact some.inj hstep ▸ h
    · rw [← some.inj hstep]
      exact ⟨h.host, h.dns, h.hurry, h.text⟩
  | iauthForced username =>
    rw [← some.inj hstep]
    apply h.iauth
    split
    · exact h
    · exact ⟨h.host, h.dns, h.hurry, h.text⟩
  | iauthGood username =>
    rw [← some.inj hstep]
    apply h.iauth
    split
    · exact h
    · exact ⟨h.host, h.dns, h.hurry, h.text⟩
  | iauthBad username =>
    rw [← some.inj hstep]
    apply h.iauth
    split
    · exact h
    · exact ⟨h.host, h.dns, h.hurry, h.text⟩
  | iauthHost name =>
    rw [← some.inj hstep]
    apply h.iauth
    split
    · exact h
    · exact ⟨fun hh => if_pos hh, fun _ => rfl, h.hurry, h.text⟩
  | iauthIp addr =>
    rw [← some.inj hstep]
    exact h.iauth ⟨h.host, h.dns, h.hurry, h.text⟩
  | iauthDone =>
    rw [← some.inj hstep]
    exact ⟨h.host, h.dns, h.hurry, h.text⟩
  | webirc hostname addr noident ident =>
    simp only [Conn.step] at hstep
    split at hstep
    · exact some.inj hstep ▸ h
    · rw [← some.inj hstep]
      have hlen : (ntoa addr).length ≤ sockipLen := (ntoa_text addr).2.trans (by decide)
      exact ⟨fun _ => rfl, h.dns, h.hurry, ⟨addr, List.take_of_length_le hlen⟩⟩
  | checkFinished doId =>
    simp only [Conn.step] at hstep
    split at hstep
    · exact some.inj hstep ▸ h
    · next hfree =>
        have hdns : c.dnsPending = false := by
          simp only [Bool.or_eq_true, not_or, Bool.not_eq_true] at hfree
          exact hfree.1
        obtain ⟨d, hd, hsound, hhurry⟩ : ∃ d, d = (if c.hurry = true then c else
            { c with realhost := c.sockhost, hurry := true }) ∧ d.Sound ∧ d.hurry = true := by
          refine ⟨_, rfl, ?_⟩
          split
          · next hh => exact ⟨h, hh⟩
          · exact ⟨⟨fun _ => rfl, fun _ => hdns, fun _ => rfl, h.text⟩, rfl⟩
        rw [← hd] at hstep
        split at hstep
        · exact some.inj hstep ▸ hsound
        · exact hsound.register hhurry hstep
  | version text =>
    rw [← some.inj hstep]
    exact ⟨h.host, h.dns, h.hurry, h.text⟩
  | svsident newident =>
    simp only [Conn.step] at hstep
    split at hstep
    · rw [← some.inj hstep]
      exact ⟨h.host, h.dns, h.hurry, h.text⟩
    · exact some.inj hstep ▸ h

lemma Conn.Sound.run {c' : Conn} : (es : List ConnEvent) → ∀ {c : Conn}, c.Sound →
    Lib.Runs.run Conn.step c es = some c' → c'.Sound
  | [], _, h, hrun => some.inj hrun ▸ h
  | e :: es, c, h, hrun => by
    obtain ⟨d, hd, hrest⟩ := Option.bind_eq_some_iff.mp hrun
    exact Conn.Sound.run es (h.step hd) hrest

lemma RegisteredClient.sound (r : RegisteredClient) :
    r.conn.realhost = r.conn.sockhost ∧ ∃ a, r.conn.sockIp = ntoa a := by
  have hsound := Conn.Sound.run r.events (Conn.Sound.accept _ _ _ _) r.run
  exact ⟨hsound.host (hsound.hurry r.registered), hsound.text⟩

/-! ### The list -/

variable {now : ℕ} {confs : List ExceptConf} {c : Client}

lemma lookupLoop_append {post : List UserGline} : (pre : List UserGline) →
    (∀ h ∈ pre, ∀ h', gliter now h = some h' → h'.isActive = false) →
      lookupLoop now false false c (pre ++ post) = lookupLoop now false false c post
  | [], _ => rfl
  | g :: pre, hpre => by
    have ih : lookupLoop now false false c (pre ++ post) = lookupLoop now false false c post :=
      lookupLoop_append pre fun h hh => hpre h (List.mem_cons_of_mem g hh)
    rw [List.cons_append, lookupLoop]
    cases hg : gliter now g with
    | none => exact ih
    | some g' =>
      simp only [Bool.false_and, Bool.or_self, Bool.false_eq_true, if_false,
        hpre g List.mem_cons_self g' hg, ite_self]
      exact ih

lemma lookupLoop_none (gs : List UserGline)
    (hgs : ∀ h ∈ gs, ∀ h', gliter now h = some h' → h'.isActive = false) :
    lookupLoop now false false c gs = none := by
  have happ : lookupLoop now false false c (gs ++ []) = lookupLoop now false false c [] :=
    lookupLoop_append gs hgs
  rwa [List.append_nil] at happ

lemma lookupLoop_only {g : UserGline} {pre post : List UserGline} (hlife : now < g.lifetime)
    (hexpire : now < g.expire) (hpre : ∀ h ∈ pre ++ post, ∀ h', gliter now h = some h' → h'.isActive = false) :
    lookupLoop now false false c (pre ++ g :: post) = some g ↔ lookupMatches c g.target = true ∧ g.isActive =
    true := by
  have hrest : lookupLoop now false false c post = none :=
    lookupLoop_none post fun h hh => hpre h (List.mem_append_right pre hh)
  rw [lookupLoop_append pre fun h hh => hpre h (List.mem_append_left post hh), lookupLoop, gliter,
    if_neg (not_le.mpr hlife), if_pos hexpire]
  simp only [Bool.false_and, Bool.or_self, Bool.false_eq_true, if_false, hrest]
  cases lookupMatches c g.target <;> cases g.isActive <;> simp

lemma glineLookup_only {g : UserGline} {pre post : List UserGline} (hlife : now < g.lifetime)
    (hexpire : now < g.expire) (hpre : ∀ h ∈ pre ++ post, ∀ h', gliter now h = some h' → h'.isActive = false) :
    glineLookup now false false confs c (globalGlineList (pre ++ g :: post)) = some g ↔ findExceptConf confs c =
    false ∧ g.target.badchan = false ∧ lookupMatches c g.target = true ∧ g.isActive = true := by
  have hpre' : ∀ h ∈ globalGlineList pre ++ globalGlineList post, ∀ h', gliter now h = some h' →
      h'.isActive = false := by
    intro h hh
    rw [globalGlineList, globalGlineList, ← List.filter_append] at hh
    exact hpre h (List.mem_of_mem_filter hh)
  unfold glineLookup
  cases hexc : findExceptConf confs c with
  | true => simp
  | false =>
    have hlist : globalGlineList (pre ++ g :: post) = globalGlineList pre ++ globalGlineList (g :: post) :=
      List.filter_append ..
    rw [hlist]
    cases hbad : g.target.badchan with
    | true =>
      have hdrop : globalGlineList (g :: post) = globalGlineList post :=
        List.filter_cons_of_neg (by simp [hbad])
      have hnone : lookupLoop now false false c (globalGlineList pre ++ globalGlineList post) = none :=
        lookupLoop_none _ hpre'
      rw [hdrop]
      simp [hnone]
    | false =>
      have hkeep : globalGlineList (g :: post) = g :: globalGlineList post :=
        List.filter_cons_of_pos (by simp [hbad])
      rw [hkeep]
      simp [lookupLoop_only hlife hexpire hpre']

lemma doGline_iff {disableGlines : Bool} {u : ConnUser} {g : UserGline} (hu : c.user = some u) :
    doGline disableGlines confs c g = true ↔ disableGlines = false ∧ g.target.badchan = false ∧ g.isActive =
    true ∧ findExceptConf confs c = false ∧ doGlineMatches c u g.target = true := by
  unfold doGline
  rw [hu]
  cases disableGlines <;> cases g.target.badchan <;> cases g.isActive <;> cases findExceptConf confs c <;> simp

/-! ### G-lines that tell texts apart -/

lemma glineTarget_escape {d : Char} (hd : d = '*' ∨ d = 'x') (a : Addr) :
    glineTarget 0 (d :: '@' :: '\\' :: ntoa a)
      = some ⟨[d], some ('\\' :: ntoa a), false, false, false, none⟩ := by
  have hcanon : canonUserhost (d :: '@' :: '\\' :: ntoa a) ['*'] = ([d], '\\' :: ntoa a) := by
    rcases hd with rfl | rfl <;> rfl
  have hlen : ¬ userLen + hostLen + 2 < ([d] ++ '@' :: '\\' :: ntoa a).length := by
    have := (ntoa_text a).2
    simp only [List.length_append, List.length_cons, List.length_nil, userLen, hostLen]
    omega
  have hip : hostIpmask 0 ('\\' :: ntoa a) = none := by
    rw [hostIpmask, ipmaskParseBits_escape]
  have hhash : ¬ ((d :: '@' :: '\\' :: ntoa a).head? = some '#' ∨
      (d :: '@' :: '\\' :: ntoa a).head? = some '&') := by
    rcases hd with rfl | rfl <;> simp
  have hdollar : ¬ (d :: '@' :: '\\' :: ntoa a).head? = some '$' := by
    rcases hd with rfl | rfl <;> simp
  rw [glineTarget, if_neg hhash, if_neg hdollar, hcanon]
  simp only [if_neg hlen, hip]

lemma ntoa_eq_cons (a : Addr) : ∃ x t, ntoa a = x :: t ∧ '\\' ∉ t ∧ (∀ y ∈ t, isWild y = false) ∧
    ∀ y ∈ x :: t, toLower y = y := by
  have hchars := (ntoa_text a).1
  cases htext : ntoa a with
  | nil =>
    have hparse := ipmaskParseBits_ntoa a
    have hnil : ipmaskParseBits [] = none := by decide
    rw [htext, hnil] at hparse
    cases hparse
  | cons x t =>
    rw [htext] at hchars
    have ht : ∀ y ∈ t, isNtoaChar y = true := fun y hy => hchars y (List.mem_cons_of_mem x hy)
    refine ⟨x, t, rfl, fun hmem => (plain_of_isNtoaChar (ht _ hmem)).2.2.2 rfl, ?_, ?_⟩
    · intro y hy
      obtain ⟨-, hstar, hmark, -⟩ := plain_of_isNtoaChar (ht y hy)
      simp [isWild, hstar, hmark]
    · exact fun y hy => (plain_of_isNtoaChar (hchars y hy)).1

lemma isMatch_escape {a : Addr} {name : Str} (h : isMatch ('\\' :: ntoa a) name = true) :
    name.map toLower = ntoa a := by
  have hzero : matchMask ('\\' :: ntoa a) name = 0 := of_decide_eq_true h
  obtain ⟨x, t, htext, hplain, hwild, hfold⟩ := ntoa_eq_cons a
  rw [htext] at hzero ⊢
  obtain ⟨hhead, hglob⟩ := (matchMask_escape_iff hplain).mp hzero
  rw [glob_literal_iff hwild] at hglob
  cases name with
  | nil => cases hhead
  | cons y name =>
    rw [List.head?_cons, Option.some.injEq] at hhead
    rw [List.drop_one, List.tail_cons] at hglob
    rw [List.map_cons, hglob, ← List.map_cons, hhead]
    exact (List.map_congr_left hfold).trans (List.map_id _)

lemma isMatch_escape_self (a : Addr) : isMatch ('\\' :: ntoa a) (ntoa a) = true := by
  obtain ⟨x, t, htext, hplain, hwild, -⟩ := ntoa_eq_cons a
  apply decide_eq_true
  rw [htext]
  exact (matchMask_escape_iff hplain).mpr ⟨rfl, (glob_literal_iff hwild).mpr rfl⟩

lemma isMatch_escape_ne {a b : Addr} (h : ntoa a ≠ ntoa b) : isMatch ('\\' :: ntoa a) (ntoa b) = false := by
  cases hm : isMatch ('\\' :: ntoa a) (ntoa b) with
  | false => rfl
  | true =>
    obtain ⟨x, t, htext, -, -, hfold⟩ := ntoa_eq_cons b
    have hsame := isMatch_escape hm
    rw [htext, List.map_congr_left hfold, List.map_id'', ← htext] at hsame
    · exact absurd hsame.symm h
    · exact fun _ => rfl

/-- A G-line that is active for a while. -/
def activeGline (t : Target) (h : ∃ bits userhost, glineTarget bits userhost = some t) : UserGline where
  active := true
  state := .global
  reason := []
  expire := 1
  lastmod := 0
  lifetime := 1
  target := t
  isLocal := false
  known := h

lemma Agrees.active {u : ConnUser} {t : Target} (h : Agrees false confs c) (hu : c.user = some u)
    (hexc : findExceptConf confs c = false) (ht : ∃ bits userhost, glineTarget bits userhost = some t)
    (hbad : t.badchan = false) : doGlineMatches c u t = true ↔ lookupMatches c t = true := by
  have hagree := h 0 (activeGline t ht) [] [] Nat.zero_lt_one Nat.zero_lt_one
    fun h hh => absurd hh List.not_mem_nil
  rw [doGline_iff hu, findKillGline, if_neg Bool.false_ne_true, glineLookup_only Nat.zero_lt_one
    Nat.zero_lt_one fun h hh => absurd hh List.not_mem_nil, hexc] at hagree
  have hactive : (activeGline t ht).isActive = true := rfl
  have htarget : (activeGline t ht).target = t := rfl
  rw [hactive, htarget, hbad] at hagree
  simpa using hagree

lemma matches_host (c : Conn) (user host : Str) : doGlineMatches c.client ⟨c.userUsername, c.realhost⟩ ⟨user,
    some host, false, false, false, none⟩ = ((decide (c.userUsername =
    []) || isMatch user c.userUsername) && (isMatch host c.sockhost || isMatch host (ntoa c.ip))) ∧
    lookupMatches c.client ⟨user, some host, false, false, false, none⟩ =
    (isMatch user c.userUsername && (isMatch host c.realhost || isMatch host c.sockIp)) :=
  ⟨rfl, rfl⟩

/-! ### Agreement -/

lemma isMatch_star (name : Str) : isMatch ['*'] name = true := by
  apply decide_eq_true
  have hplain : '\\' ∉ ['*'] := by decide
  rw [matchMask_eq_zero_iff hplain, glob_star_iff, globStar_iff]
  exact ⟨[], List.nil_suffix, glob_nil_iff.mpr rfl⟩

lemma matches_same {u : ConnUser} (hu : c.user = some u) (hhost : u.realhost = c.sockhost)
    (hname : u.username ≠ []) (htext : c.sockIp = ntoa c.ip) (t : Target) :
    doGlineMatches c u t = lookupMatches c t := by
  unfold doGlineMatches lookupMatches
  rw [hu]
  simp only [hhost, htext, hname, decide_false, Bool.false_or]

/-- **The two places agree on a user exactly when** G-lines are disabled, or the user is exempt, or the user has
a user name and the text that was kept is that of the address. -/
theorem glines_agree_iff (disableGlines : Bool) (confs : List ExceptConf) (r : RegisteredClient) :
    Agrees disableGlines confs r.conn.client ↔ disableGlines = true ∨ findExceptConf confs r.conn.client =
    true ∨ (r.conn.userUsername ≠ [] ∧ r.conn.sockIp = ntoa r.conn.ip) := by
  obtain ⟨hhost, old, hold⟩ := r.sound
  have hu : r.conn.client.user = some ⟨r.conn.userUsername, r.conn.realhost⟩ := rfl
  constructor
  · intro h
    cases disableGlines with
    | true => exact .inl rfl
    | false =>
      right
      cases hexc : findExceptConf confs r.conn.client with
      | true => exact .inl rfl
      | false =>
        right
        have hactive {t : Target} := Agrees.active (t := t) h hu hexc
        have hname : r.conn.userUsername ≠ [] := by
          intro hnil
          have hiff := hactive ⟨0, _, glineTarget_escape (.inr rfl) r.conn.ip⟩ rfl
          obtain ⟨hdo, hlookup⟩ := matches_host r.conn ['x'] ('\\' :: ntoa r.conn.ip)
          have hx : isMatch ['x'] r.conn.userUsername = false := by
            rw [hnil]
            decide
          rw [hdo, hlookup, hx, isMatch_escape_self, hnil] at hiff
          simp at hiff
        refine ⟨hname, ?_⟩
        by_contra hne
        have hne' : ntoa old ≠ ntoa r.conn.ip := hold ▸ hne
        have hstar := isMatch_star r.conn.userUsername
        -- the host is at most one of the two texts; the other one tells the two places apart
        cases hm : isMatch ('\\' :: ntoa old) r.conn.sockhost with
        | false =>
          have hiff := hactive ⟨0, _, glineTarget_escape (.inl rfl) old⟩ rfl
          obtain ⟨hdo, hlookup⟩ := matches_host r.conn ['*'] ('\\' :: ntoa old)
          rw [hdo, hlookup, hstar, hhost, hm, hold, isMatch_escape_self, isMatch_escape_ne hne'] at hiff
          simp at hiff
        | true =>
          have hm' : isMatch ('\\' :: ntoa r.conn.ip) r.conn.sockhost = false := by
            cases hm' : isMatch ('\\' :: ntoa r.conn.ip) r.conn.sockhost with
            | false => rfl
            | true => exact absurd ((isMatch_escape hm).symm.trans (isMatch_escape hm')) hne'
          have hiff := hactive ⟨0, _, glineTarget_escape (.inl rfl) r.conn.ip⟩ rfl
          obtain ⟨hdo, hlookup⟩ := matches_host r.conn ['*'] ('\\' :: ntoa r.conn.ip)
          rw [hdo, hlookup, hstar, hhost, hm', hold, isMatch_escape_self, isMatch_escape_ne hne'.symm] at hiff
          simp at hiff
  · intro h now g pre post hlife hexpire hpre
    rw [doGline_iff hu, findKillGline]
    cases disableGlines with
    | true => simp
    | false =>
      rw [if_neg Bool.false_ne_true, glineLookup_only hlife hexpire hpre]
      rcases h with hdis | hexc | ⟨hname, htext⟩
      · cases hdis
      · simp [hexc]
      · rw [matches_same (c := r.conn.client) hu hhost hname htext g.target]
        constructor
        · exact fun ⟨_, hbad, hact, hexc, hm⟩ => ⟨hexc, hbad, hm, hact⟩
        · exact fun ⟨hexc, hbad, hm, hact⟩ => ⟨rfl, hbad, hact, hexc, hm⟩

def sampleAddr (high low : Fin 65536) : Addr where
  groups := [0, 0, 0, 0, 0, 65535, high, low]
  length_eq := rfl
  lt g hg := by
    simp only [List.mem_cons, List.not_mem_nil, or_false] at hg
    omega

def sampleSpoofed : RegisteredClient where
  start := (sampleAddr 0x0a01 0x0101, "irc.example".toList, true, true)
  events := [.user "joe".toList "Joe".toList, .iauthIp (sampleAddr 0x0a09 0x0909), .iauthDone, .checkFinished false]
  conn :=
    { Conn.accept (sampleAddr 0x0a01 0x0101) "irc.example".toList true true with
      ip := sampleAddr 0x0a09 0x0909
      userUsername := "joe".toList
      realhost := "10.1.1.1".toList
      info := "Joe".toList
      iauthPending := false
      hurry := true
      ipSpoofed := true
      registered := true }
  run := by rfl
  registered := rfl

/-- The G-line `*@*.9.9.9`. -/
def sampleWildGline : UserGline :=
  activeGline ⟨"*".toList, some "*.9.9.9".toList, false, false, false, none⟩ ⟨0, "*@*.9.9.9".toList, by decide⟩

/-- **An address of iauth.** The client is rejected when the G-line is activated, but not when it registers:
iauth gave it another address, and the text of the first one is kept. -/
theorem iauth_address_disagrees : doGline false [] sampleSpoofed.conn.client sampleWildGline = true ∧
      findKillGline false 0 [] sampleSpoofed.conn.client [sampleWildGline] = none ∧
        ¬ Agrees false [] sampleSpoofed.conn.client := by
  have hdo : doGline false [] sampleSpoofed.conn.client sampleWildGline = true := by decide +kernel
  have hmatch : lookupMatches sampleSpoofed.conn.client sampleWildGline.target = false := by decide +kernel
  have hlookup : findKillGline false 0 [] sampleSpoofed.conn.client [sampleWildGline] = none := by
    have hloop : findKillGline false 0 [] sampleSpoofed.conn.client [sampleWildGline]
        = if !lookupMatches sampleSpoofed.conn.client sampleWildGline.target then none
          else if sampleWildGline.isActive then some sampleWildGline else none := rfl
    rw [hloop, hmatch]
    rfl
  refine ⟨hdo, hlookup, fun h => ?_⟩
  have hagree := h 0 sampleWildGline [] [] Nat.zero_lt_one Nat.zero_lt_one
    fun h hh => absurd hh List.not_mem_nil
  have hlist : globalGlineList ([] ++ sampleWildGline :: []) = [sampleWildGline] := rfl
  rw [hlist, hlookup] at hagree
  cases hagree.mp hdo

end Nefarious.Glines
