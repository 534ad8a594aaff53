import Mathlib.Data.List.Count
import Nefarious.Lib.Since
import Nefarious.User.Modes

/-!
# The registration of a connection

A connection on a port for users is registered once everything that its request waits for has happened. The
steps that `check_auth_finished` takes outside of the request are parameters of an event (`Env`): the block that
a class comes from, whether the user name is accepted, whether a service is there.

Names: `s_auth.c`.
-/

namespace Nefarious.Registration

open Option (some.inj)

open Lib User

/-! ## The request -/

/-- The flags of a request that are modelled. `AuthRequestFlag`. -/
inductive ArFlag
  | authPending
  | dnsPending
  | capPending
  | needsPong
  | needsUser
  | needsNick
  | iauthPending
  | iauthHurry
  | iauthSoftDone
  | passwordChecked
  | locDone
deriving DecidableEq

/-- The flags up to `AR_LAST_SCAN`. `AuthRequestFlag`. -/
def scanFlags : List ArFlag :=
  [.authPending, .dnsPending, .capPending, .needsPong, .needsUser, .needsNick]

/-- A block that gives a class to a client. `s_conf.h` `struct ConfItem`. -/
structure ConfItem where
  connClass : Str
  /-- The password, empty without one. -/
  passwd : Str
  /-- The fingerprint of the certificate. -/
  sslfp : Option Str
  /-- Whether it was made for iauth and is not in the configuration. -/
  ofIauth : Bool
deriving DecidableEq

/-- The block for a class that iauth names. -/
def authFindClassConf (name : Str) : ConfItem :=
  { connClass := name, passwd := [], sslfp := none, ofIauth := true }

/-- A login on connect. `struct.h` `struct LOCInfo`. -/
structure LocInfo where
  /-- The cookie, zero before the service is asked. -/
  cookie : ℕ
  service : Str
  account : Str
  password : Str
deriving DecidableEq

/-- What becomes of a connection. -/
inductive Phase
  | pending
  | registered
  | gone
deriving DecidableEq

/-- What has been done for a connection. `check_auth_finished`. -/
inductive Act
  /-- The fingerprint and the password have been compared with those of a block. -/
  | checked (aconf : ConfItem) (passwd sslclifp : Str)
  /-- `register_user` has been called. -/
  | registerUser
deriving DecidableEq

/-- A connection and its request. `struct AuthRequest`; `client.h`. -/
structure Conn where
  phase : Phase
  flags : ArFlag → Bool
  /-- The cookie that the client must send back, zero without one. -/
  cookie : ℕ
  timeout : Bool
  /-- Whether the timeout of a login on connect is active. -/
  loctimeout : Bool
  /-- Whether the socket for ident is open. -/
  socket : Bool
  named : Bool
  loc : Option LocInfo
  passwd : Str
  /-- The fingerprint of its certificate. -/
  sslclifp : Str
  /-- Its blocks, the latest first. -/
  confs : List ConfItem
  acts : List Act

/-- Set a flag. `s_auth.c` (`FlagSet`). -/
def Conn.set (s : Conn) (f : ArFlag) : Conn := { s with flags := Function.update s.flags f true }

/-- Clear a flag. `s_auth.c` (`FlagClr`). -/
def Conn.clr (s : Conn) (f : ArFlag) : Conn := { s with flags := Function.update s.flags f false }

/-- The connection is closed. `s_misc.c` `exit_client`. -/
def Conn.exit (s : Conn) : Conn := { s with phase := .gone }

/-! ## Whether the request is finished -/

/-- What `check_auth_finished` depends on besides the request. `check_auth_finished`, `preregister_user`,
`auth_set_username`. -/
structure Env where
  /-- Whether the service of a login on connect is there. -/
  service : Bool
  locCookie : ℕ
  /-- The block that `conf_check_client` attaches, if the client may connect. -/
  iline : Option ConfItem
  /-- Whether `auth_set_username` keeps the client. -/
  username : Bool

/-- `verify_sslclifp`. `s_conf.c`. -/
def verifySslclifp (sslclifp : Str) (aconf : ConfItem) : Bool :=
  match aconf.sslfp with
  | none => true
  | some fp => strEq fp sslclifp

/-- Whether the password of a block is the one that was given. `check_auth_finished`. -/
def verifyPasswd (passwd : Str) (aconf : ConfItem) : Bool := aconf.passwd = [] || passwd = aconf.passwd

/-- Login on connect. `check_auth_finished`, `auth_do_loc`. -/
def doLoc (k : Env) (l : LocInfo) (s : Conn) : Conn :=
  if s.flags .locDone then s
  else
    let s := s.set .locDone
    if k.service then
      { s with
        loctimeout := true
        loc := some { l with cookie := if l.cookie = 0 then k.locCookie else l.cookie } }
    else s

def preregisterUser (k : Env) (s : Conn) : Conn :=
  if s.confs ≠ [] then s
  else match k.iline with
    | some aconf => { s with confs := [aconf] }
    | none => s.exit

/-- The password and the fingerprint. `check_auth_finished`. -/
def checkPassword (s : Conn) : Conn :=
  match s.confs with
  | [] => s
  | aconf :: _ =>
    if !verifySslclifp s.sslclifp aconf then s.exit
    else if !verifyPasswd s.passwd aconf then s.exit
    else { s.set .passwordChecked with acts := s.acts ++ [.checked aconf s.passwd s.sslclifp] }

/-- The last part: iauth, the user name and `register_user`. `check_auth_finished`. -/
def finishAuth (k : Env) (s : Conn) : Conn :=
  if s.flags .iauthPending then s.set .iauthHurry
  else
    let s := { s.set .iauthHurry with passwd := [] }
    if k.username then { s with phase := .registered, acts := s.acts ++ [.registerUser] } else s.exit

/-- `check_auth_finished` behind the flags and login on connect. -/
def checkClass (k : Env) (s : Conn) : Conn :=
  let s := if s.flags .iauthHurry then s else preregisterUser k s
  if s.phase = .gone then s
  else
    let s := if s.flags .passwordChecked then s else checkPassword s
    if s.phase = .gone then s else finishAuth k s

/-- `check_auth_finished`. -/
def checkAuthFinished (k : Env) (s : Conn) : Conn :=
  if scanFlags.any s.flags then s
  else match s.loc with
    | some l => doLoc k l s
    | none => checkClass k s

/-- The parts between slashes, three at most. `m_pass.c` `mr_pass`. -/
def locParts : ℕ → Str → List Str
  | 0, _ => []
  | _ + 1, [] => []
  | n + 1, tmp =>
    if '/' ∈ tmp then tmp.takeWhile (· ≠ '/') :: locParts n (tmp.dropWhile (· ≠ '/')).tail else [tmp]

/-- What stands before the first blank with a slash behind it, and what stands after both. Source:
C library `strstr`. -/
def cutAtSlash : Str → Option (Str × Str)
  | ' ' :: '/' :: rest => some ([], rest)
  | c :: rest => (cutAtSlash rest).map fun r => (c :: r.1, r.2)
  | [] => none

/-- The password and the login on connect in the text of PASS. `m_pass.c` `mr_pass`. -/
def passText (service : Str) (text : Str) : Str × Option LocInfo :=
  let r : Str × Str := match text with
    | '/' :: rest => ([], rest)
    | _ => (cutAtSlash text).getD (text, [])
  let info (service account password : Str) : LocInfo :=
    { cookie := 0
      service := service.take 30
      account := account.take accountLen
      password := password.take 40 }
  match locParts 3 r.2 with
  | [account, password] =>
    (r.1, if account ≠ [] ∧ password ≠ [] then some (info service account password) else none)
  | [serv, account, password] =>
    (r.1, if account ≠ [] ∧ password ≠ [] then
      some (info (if serv ≠ [] then serv else service) account password) else none)
  | _ => (r.1, none)

/-! ## Events -/

/-- Commands of iauth that name the connection. `iauth_parse`. -/
inductive IauthCmd
  /-- `o`, `U` or `u`. -/
  | username (name : Str)
  /-- `N`. -/
  | hostname (name : Str)
  /-- `I`, `M`, `C` and marks other than a fingerprint. -/
  | other
  /-- `m` with a fingerprint. -/
  | fingerprint (sslclifp : Str)
  /-- `d`. -/
  | softDone
  /-- `D`; the class is usable, full, or not there. -/
  | done (name : Str) (usable full : Bool)
  /-- `R`. -/
  | doneAccount (account : Str) (name : Str) (usable full : Bool)
  /-- `K` or `k`. -/
  | kill
deriving DecidableEq

/-- Events. `s_auth.c`; `m_user.c`, `m_nick.c`, `m_pass.c`, `m_pong.c`, `m_cap.c`,
`m_account.c`, `m_webirc.c`, `ircd.c`. -/
inductive Input
  | user
  /-- NICK with a name that is free; the cookie is what `ircrandom` gives. -/
  | nick (cookie : ℕ)
  /-- PASS; `loc` says whether logins on connect are enabled, with the service by default. -/
  | pass (text : Str) (loc : Option Str)
  | pong (cookie : ℕ)
  /-- CAP with `LS` or `REQ`. -/
  | capStart
  /-- CAP with `END`. -/
  | capEnd
  /-- WEBIRC: it may be refused, and it may remove the fingerprint. -/
  | webirc (refused strip : Bool)
  /-- The answer of a service to a login on connect. -/
  | locReply (cookie : ℕ) (accepted : Bool)
  | account
  /-- The answer of the resolver; a mismatch may end the connection. -/
  | dnsAnswer (kill : Bool)
  /-- The socket for ident is connected; the query may fail to be written. -/
  | identConnected (written : Bool)
  /-- The socket for ident is readable, at its end or in error. -/
  | identReply
  | timeout
  | locTimeout
  /-- The timeout of the registration; whether iauth is required then. -/
  | pingTimeout (required : Bool)
  | iauth (cmd : IauthCmd)
  | exit
deriving DecidableEq

def iauthCmdDoneClient (name : Str) (usable full : Bool) (s : Conn) : Conn × Bool :=
  let s := s.clr .iauthPending
  if name ≠ [] ∧ usable = true then
    if authFindClassConf name ∈ s.confs then (s, true)
    else if full then (s.exit, false)
    else ({ s with confs := authFindClassConf name :: s.confs }, true)
  else (s, true)

/-- The handler of a command of iauth: the connection then, and whether `check_auth_finished` follows.
`iauth_cmd_username_forced`, `iauth_cmd_hostname`, `iauth_cmd_mark`, `iauth_cmd_soft_done`,
`iauth_cmd_done_account`, `iauth_cmd_kill` -/
def iauthCmd (s : Conn) : IauthCmd → Conn × Bool
  | .username _ => (s.clr .authPending, true)
  | .hostname name => if name = [] then (s, false) else (s.clr .dnsPending, true)
  | .other => (s, false)
  | .fingerprint sslclifp => ({ s with sslclifp := sslclifp }, false)
  | .softDone => (s.set .iauthSoftDone, true)
  | .done name usable full => iauthCmdDoneClient name usable full s
  | .doneAccount account name usable full =>
    if account = [] ∨ accountLen < (account.takeWhile fun c => c ≠ ':' ∧ c ≠ ' ').length then
      (s, false)
    else iauthCmdDoneClient name usable full s
  | .kill => ((s.clr .iauthPending).exit, false)

/-- A command of iauth. Only a client may be killed that iauth is done with. -/
def iauthParse (s : Conn) (cmd : IauthCmd) : Conn × Bool :=
  if s.flags .iauthPending = false ∧ cmd ≠ .kill then (s, false) else iauthCmd s cmd

/-- PASS. `m_pass.c`. -/
def mrPass (text : Str) (loc : Option Str) (s : Conn) : Conn × Bool :=
  let r : Str × Option LocInfo × Bool := match loc with
    | some service =>
      if s.loc = none ∧ text ≠ [] then ((passText service text).1, (passText service text).2, true)
      else (text, s.loc, false)
    | none => (text, s.loc, false)
  let s := { s with loc := r.2.1 }
  if r.1 = [] ∧ s.loc = none ∧ r.2.2 = false then (s, false)
  else
    let s := if s.loc ≠ none ∧ r.1 = [] ∧ r.2.2 = false then
      { s with loc := none, loctimeout := false } else s
    ({ s with passwd := if s.passwd = [] then r.1.take 20 else s.passwd }, true)

def authPingTimeout (required : Bool) (s : Conn) : Conn × Bool :=
  if s.loc ≠ none then (s.exit, false)
  else if scanFlags.any s.flags then (s.exit, false)
  else if s.flags .iauthPending then
    if required ∧ s.flags .iauthSoftDone = false then (s.exit, false) else (s.clr .iauthPending, true)
  else (s, false)

/-- NICK for the first time. `s_user.c` `set_nick_name`; `auth_set_nick`. -/
def authSetNick (cookie : ℕ) (s : Conn) : Conn × Bool :=
  let s := { s.clr .needsNick with named := true }
  (if s.cookie = 0 then { s with cookie := cookie }.set .needsPong else s, true)

/-- The handler of an event: the connection then, and whether `check_auth_finished` follows. Events that cannot
happen change nothing. -/
def handle (s : Conn) : Input → Conn × Bool
  | .user => if s.flags .iauthHurry then (s, false) else (s.clr .needsUser, true)
  | .nick cookie => if s.named ∨ cookie = 0 then (s, false) else authSetNick cookie s
  | .pass text loc => mrPass text loc s
  | .pong cookie =>
    if s.flags .needsPong ∧ cookie = s.cookie then (s.clr .needsPong, true) else (s, false)
  | .capStart => (s.set .capPending, false)
  | .capEnd => (s.clr .capPending, true)
  | .webirc refused strip =>
    (if refused then s.exit else if strip then { s with sslclifp := [] } else s, false)
  | .locReply cookie accepted =>
    match s.loc with
    | some l =>
      if l.cookie = cookie then
        let s := { s with loctimeout := false }
        if accepted then ({ s with loc := none }, true) else (s, false)
      else (s, false)
    | none => (s, false)
  | .account => (s, true)
  | .dnsAnswer kill =>
    if s.flags .dnsPending then
      if kill then ((s.clr .dnsPending).exit, false) else (s.clr .dnsPending, true)
    else (s, false)
  | .identConnected written =>
    if s.socket ∧ written = false then ({ s.clr .authPending with socket := false }, true) else (s, false)
  | .identReply => if s.socket then ({ s.clr .authPending with socket := false }, true) else (s, false)
  | .timeout =>
    if s.timeout then ({ (s.clr .authPending).clr .dnsPending with timeout := false }, true)
    else (s, false)
  | .locTimeout => ({ s with loctimeout := false }, false)
  | .pingTimeout required => authPingTimeout required s
  | .iauth cmd => iauthParse s cmd
  | .exit => (s.exit, false)

/-- One event. A connection that is no longer pending has no request; it can still leave. -/
def step (s : Conn) (e : Input × Env) : Conn :=
  match s.phase with
  | .pending =>
    let r := handle s e.1
    if r.2 then checkAuthFinished e.2 r.1 else r.1
  | _ => if e.1 = .exit ∨ e.1 = .iauth .kill then s.exit else s

/-- What is begun for a new connection. `start_auth`. -/
structure Begun where
  iauth : Bool
  dns : Bool
  ident : Bool

def startAuth (b : Begun) (sslclifp : Str) : Conn where
  phase := .pending
  flags f := match f with
    | .needsUser => true
    | .needsNick => true
    | .iauthPending => b.iauth
    | .dnsPending => b.dns
    | .authPending => b.ident
    | _ => false
  cookie := 0
  timeout := true
  loctimeout := false
  socket := b.ident
  named := false
  loc := none
  passwd := []
  sslclifp := sslclifp
  confs := []
  acts := []

/-! ## What `check_auth_finished` does -/

/-- What a request keeps while it is checked. -/
structure Keeps (s t : Conn) : Prop where
  flags : ∀ f, f ≠ .iauthHurry → f ≠ .passwordChecked → f ≠ .locDone → t.flags f = s.flags f
  cookie : t.cookie = s.cookie

lemma Keeps.refl (s : Conn) : Keeps s s := ⟨fun _ _ _ _ => rfl, rfl⟩

lemma Keeps.trans {s t u : Conn} (h : Keeps s t) (h' : Keeps t u) : Keeps s u :=
  ⟨fun f h₁ h₂ h₃ => (h'.flags f h₁ h₂ h₃).trans (h.flags f h₁ h₂ h₃), h'.cookie.trans h.cookie⟩

lemma Keeps.set (s : Conn) {f : ArFlag} (hf : f = .iauthHurry ∨ f = .passwordChecked ∨ f = .locDone) :
    Keeps s (s.set f) := by
  refine ⟨fun g h₁ h₂ h₃ => Function.update_of_ne ?_ .., rfl⟩
  rintro rfl
  rcases hf with rfl | rfl | rfl
  · exact h₁ rfl
  · exact h₂ rfl
  · exact h₃ rfl

lemma keeps_doLoc (k : Env) (l : LocInfo) (s : Conn) : Keeps s (doLoc k l s) := by
  have h : Keeps s (s.set .locDone) := .set s (.inr (.inr rfl))
  unfold doLoc
  simp only
  split
  · exact .refl s
  · split
    · exact ⟨h.flags, h.cookie⟩
    · exact h

lemma keeps_preregisterUser (k : Env) (s : Conn) : Keeps s (preregisterUser k s) := by
  unfold preregisterUser
  split
  · exact .refl s
  · split
    · exact ⟨fun _ _ _ _ => rfl, rfl⟩
    · exact ⟨fun _ _ _ _ => rfl, rfl⟩

lemma keeps_checkPassword (s : Conn) : Keeps s (checkPassword s) := by
  have h : Keeps s (s.set .passwordChecked) := .set s (.inr (.inl rfl))
  unfold checkPassword
  split
  · exact .refl s
  · split
    · exact ⟨fun _ _ _ _ => rfl, rfl⟩
    · split
      · exact ⟨fun _ _ _ _ => rfl, rfl⟩
      · exact ⟨h.flags, h.cookie⟩

lemma keeps_finishAuth (k : Env) (s : Conn) : Keeps s (finishAuth k s) := by
  have h : Keeps s (s.set .iauthHurry) := .set s (.inl rfl)
  unfold finishAuth
  simp only
  split
  · exact h
  · split
    · exact ⟨h.flags, h.cookie⟩
    · exact ⟨h.flags, h.cookie⟩

lemma keeps_checkClass (k : Env) (s : Conn) : Keeps s (checkClass k s) := by
  unfold checkClass
  simp only
  have h₁ : Keeps s (if s.flags .iauthHurry then s else preregisterUser k s) := by
    split
    · exact .refl s
    · exact keeps_preregisterUser k s
  generalize (if s.flags .iauthHurry then s else preregisterUser k s) = t at h₁ ⊢
  have h₂ : Keeps t (if t.flags .passwordChecked then t else checkPassword t) := by
    split
    · exact .refl t
    · exact keeps_checkPassword t
  generalize (if t.flags .passwordChecked then t else checkPassword t) = u at h₂ ⊢
  split
  · exact h₁
  · split
    · exact h₁.trans h₂
    · exact (h₁.trans h₂).trans (keeps_finishAuth k u)

lemma keeps_checkAuthFinished (k : Env) (s : Conn) : Keeps s (checkAuthFinished k s) := by
  unfold checkAuthFinished
  split
  · exact .refl s
  · split
    · exact keeps_doLoc ..
    · exact keeps_checkClass k s

/-- A block that asks for nothing. `s_conf.h` `struct ConfItem`. -/
def ConfItem.Plain (aconf : ConfItem) : Prop := aconf.passwd = [] ∧ aconf.sslfp = none

/-- The password and the fingerprint of the class have been checked: they were compared with those of a block
that is still the one in force, unless iauth has put one in its place that asks for nothing.
`check_auth_finished`, `iauth_cmd_done_client` -/
def Verified (s : Conn) : Prop :=
  ∃ aconf rest aconf' passwd sslclifp, s.confs = aconf :: rest ∧
    Act.checked aconf' passwd sslclifp ∈ s.acts ∧ verifySslclifp sslclifp aconf' = true ∧
    verifyPasswd passwd aconf' = true ∧ (aconf = aconf' ∨ aconf.ofIauth = true ∧ aconf.Plain)

/-- What holds of every connection. `check_auth_finished`. -/
structure Ok (s : Conn) : Prop where
  hurry : s.flags .iauthHurry = true → s.flags .passwordChecked = true
  verified : s.flags .passwordChecked = true → Verified s
  pending : s.phase = .pending → s.acts.count .registerUser = 0
  once : s.acts.count .registerUser ≤ 1

lemma Ok.change {s t : Conn} (h : Ok s) (hhurry : t.flags .iauthHurry = s.flags .iauthHurry)
    (hpass : t.flags .passwordChecked = s.flags .passwordChecked)
    (hconfs : s.flags .passwordChecked = true → Verified s → Verified t) (hacts : t.acts = s.acts)
    (hphase : t.phase = .pending → s.phase = .pending) : Ok t where
  hurry ht := by
    rw [hhurry] at ht
    rw [hpass]
    exact h.hurry ht
  verified ht := by
    rw [hpass] at ht
    exact hconfs ht (h.verified ht)
  pending ht := by
    rw [hacts]
    exact h.pending (hphase ht)
  once := by
    rw [hacts]
    exact h.once

lemma Verified.congr {s t : Conn} (h : Verified s) (hconfs : t.confs = s.confs)
    (hacts : t.acts = s.acts) : Verified t := by
  unfold Verified at *
  rw [hconfs, hacts]
  exact h

/-- How often `register_user` has been called. `check_auth_finished`. -/
def Conn.calls (s : Conn) : ℕ := s.acts.count .registerUser

@[simp] lemma Conn.set_flags_self (s : Conn) (f : ArFlag) : (s.set f).flags f = true :=
  Function.update_self ..

lemma Conn.set_flags_of_ne (s : Conn) {f g : ArFlag} (h : g ≠ f) : (s.set f).flags g = s.flags g :=
  Function.update_of_ne h ..

@[simp] lemma Conn.clr_flags_self (s : Conn) (f : ArFlag) : (s.clr f).flags f = false :=
  Function.update_self ..

lemma Conn.clr_flags_of_ne (s : Conn) {f g : ArFlag} (h : g ≠ f) : (s.clr f).flags g = s.flags g :=
  Function.update_of_ne h ..

lemma preregisterUser_spec (k : Env) (s : Conn) : (preregisterUser k s).flags = s.flags ∧
    (preregisterUser k s).acts = s.acts ∧ (preregisterUser k s).loc = s.loc ∧ (s.confs ≠ [] →
    preregisterUser k s = s) ∧ ((preregisterUser k s).phase = .gone ∨ (preregisterUser k s).phase = s.phase ∧
    (preregisterUser k s).confs ≠ []) := by
  unfold preregisterUser
  split
  · next h => exact ⟨rfl, rfl, rfl, fun _ => rfl, .inr ⟨rfl, h⟩⟩
  · next h =>
      split
      · exact ⟨rfl, rfl, rfl, fun h' => absurd h' h, .inr ⟨rfl, by simp⟩⟩
      · exact ⟨rfl, rfl, rfl, fun h' => absurd h' h, .inl rfl⟩

lemma checkPassword_spec {s : Conn} (h : Ok s) (hc : s.confs ≠ []) : Ok (checkPassword s) ∧
    (checkPassword s).calls = s.calls ∧ (checkPassword s).loc = s.loc ∧ ((checkPassword s).phase = .gone ∨
    (checkPassword s).phase = s.phase ∧ (checkPassword s).flags .passwordChecked = true) := by
  have hexit : Ok s.exit := h.change rfl rfl (fun _ hv => hv.congr rfl rfl) rfl
    (fun e => absurd e (by simp [Conn.exit]))
  unfold checkPassword
  split
  · next he => exact absurd he hc
  · next aconf rest hconf =>
      split
      · exact ⟨hexit, rfl, rfl, .inl rfl⟩
      · next hfp =>
          split
          · exact ⟨hexit, rfl, rfl, .inl rfl⟩
          · next hpw =>
              have hcount : (s.acts ++ [Act.checked aconf s.passwd s.sslclifp]).count .registerUser =
                  s.acts.count .registerUser := by
                rw [List.count_append]
                simp
              refine ⟨⟨fun _ => s.set_flags_self .passwordChecked, fun _ => ?_, fun hp => ?_, ?_⟩, hcount,
                rfl, .inr ⟨rfl, s.set_flags_self .passwordChecked⟩⟩
              · refine ⟨aconf, rest, aconf, s.passwd, s.sslclifp, hconf, ?_, ?_, ?_, .inl rfl⟩
                · exact List.mem_append_right _ (List.mem_singleton.mpr rfl)
                · simpa using hfp
                · simpa using hpw
              · exact hcount.trans (h.pending hp)
              · exact hcount.le.trans h.once

lemma finishAuth_spec (k : Env) {s : Conn} (h : Ok s) (hp : s.phase = .pending)
    (hc : s.flags .passwordChecked = true) : Ok (finishAuth k s) ∧ ((finishAuth k s).calls ≠ s.calls →
    s.flags .iauthPending = false ∧ (finishAuth k s).loc = s.loc ∧ Verified (finishAuth k s) ∧
    (finishAuth k s).phase = .registered) := by
  have hset : (s.set .iauthHurry).flags .passwordChecked = true := (s.set_flags_of_ne (by decide)).trans hc
  have hverified : Verified s := h.verified hc
  unfold finishAuth
  simp only
  split
  · refine ⟨⟨fun _ => hset, fun _ => hverified.congr rfl rfl, fun _ => h.pending hp, h.once⟩, ?_⟩
    exact fun hne => absurd rfl hne
  · next hi =>
      have hi' : s.flags .iauthPending = false := by simpa using hi
      split
      · have hv : ∀ t : Conn, t.confs = s.confs → t.acts = s.acts ++ [.registerUser] → Verified t := by
          intro t hconfs hacts
          obtain ⟨a, rest, a', pw, fp, h₁, h₂, h₃⟩ := hverified
          exact ⟨a, rest, a', pw, fp, hconfs.trans h₁, hacts ▸ List.mem_append_left _ h₂, h₃⟩
        have hcount : (s.acts ++ [Act.registerUser]).count .registerUser = 1 := by
          rw [List.count_append, h.pending hp]
          simp
        refine ⟨⟨fun _ => hset, fun _ => hv _ rfl rfl, fun e => absurd e (by simp), hcount.le⟩, ?_⟩
        exact fun _ => ⟨hi', rfl, hv _ rfl rfl, rfl⟩
      · refine ⟨⟨fun _ => hset, fun _ => hverified.congr rfl rfl, fun e => absurd e (by simp [Conn.exit]),
          h.once⟩, ?_⟩
        exact fun hne => absurd rfl hne

lemma checkClass_spec (k : Env) {s : Conn} (h : Ok s) (hp : s.phase = .pending) : Ok (checkClass k s) ∧
    ((checkClass k s).calls ≠ s.calls → s.flags .iauthPending = false ∧ (checkClass k s).loc = s.loc ∧
    Verified (checkClass k s) ∧ (checkClass k s).phase = .registered) := by
  unfold checkClass
  simp only
  have hpre : ∃ t, (if s.flags .iauthHurry then s else preregisterUser k s) = t ∧ Ok t ∧
      t.calls = s.calls ∧ t.loc = s.loc ∧ t.flags = s.flags ∧
      (t.phase = .gone ∨ t.phase = .pending ∧ (t.flags .passwordChecked = true ∨ t.confs ≠ [])) := by
    split
    · next hh => exact ⟨s, rfl, h, rfl, rfl, rfl, .inr ⟨hp, .inl (h.hurry hh)⟩⟩
    · next hh =>
        obtain ⟨hflags, hacts, hloc, hsame, hres⟩ := preregisterUser_spec k s
        refine ⟨_, rfl, ?_, by rw [Conn.calls, hacts]; rfl, hloc, hflags,
          hres.imp id fun e => ⟨e.1.trans hp, .inr e.2⟩⟩
        apply h.change (by rw [hflags]) (by rw [hflags]) _ hacts fun _ => hp
        intro _ hv
        obtain ⟨a, rest, a', pw, fp, hconfs, hrest⟩ := hv
        rw [hsame (by simp [hconfs])]
        exact ⟨a, rest, a', pw, fp, hconfs, hrest⟩
  obtain ⟨t, ht, hok, hcalls, hloc, hflags, hres⟩ := hpre
  rw [ht]
  split
  · exact ⟨hok, fun hne => absurd hcalls hne⟩
  · next hgone =>
      obtain ⟨htp, hready⟩ := hres.resolve_left hgone
      have hpw : ∃ u, (if t.flags .passwordChecked then t else checkPassword t) = u ∧ Ok u ∧
          u.calls = t.calls ∧ u.loc = t.loc ∧
          (u.phase = .gone ∨ u.phase = .pending ∧ u.flags .passwordChecked = true) := by
        split
        · next hc => exact ⟨t, rfl, hok, rfl, rfl, .inr ⟨htp, hc⟩⟩
        · next hc =>
            obtain ⟨h₁, h₂, h₃, h₄⟩ := checkPassword_spec hok (hready.resolve_left hc)
            exact ⟨_, rfl, h₁, h₂, h₃, h₄.imp id fun e => ⟨e.1.trans htp, e.2⟩⟩
      obtain ⟨u, hu, hoku, hcallsu, hlocu, hresu⟩ := hpw
      rw [hu]
      split
      · exact ⟨hoku, fun hne => absurd (hcallsu.trans hcalls) hne⟩
      · next hgone' =>
          obtain ⟨hup, hcu⟩ := hresu.resolve_left hgone'
          obtain ⟨hokv, hcallsv⟩ := finishAuth_spec k hoku hup hcu
          refine ⟨hokv, fun hne => ?_⟩
          rw [← hcalls, ← hcallsu] at hne
          obtain ⟨hi, hl, hv⟩ := hcallsv hne
          refine ⟨?_, hl.trans (hlocu.trans hloc), hv⟩
          have hkeep : Keeps t u := by
            rw [← hu]
            split
            · exact .refl t
            · exact keeps_checkPassword t
          rw [← hflags, ← hkeep.flags .iauthPending (by decide) (by decide) (by decide)]
          exact hi

/-- **When `check_auth_finished` calls `register_user`.** -/
theorem checkAuthFinished_spec (k : Env) {s : Conn} (h : Ok s) (hp : s.phase = .pending) :
    Ok (checkAuthFinished k s) ∧ ((checkAuthFinished k s).calls ≠ s.calls → (∀ f ∈ scanFlags, s.flags f =
    false) ∧ s.flags .iauthPending = false ∧ (checkAuthFinished k s).loc = none ∧
    Verified (checkAuthFinished k s) ∧ (checkAuthFinished k s).phase = .registered) := by
  unfold checkAuthFinished
  split
  · exact ⟨h, fun hne => absurd rfl hne⟩
  · next hscan =>
      have hclear : ∀ f ∈ scanFlags, s.flags f = false := by
        intro f hf
        by_contra hne
        exact hscan (List.any_eq_true.mpr ⟨f, hf, by simpa using hne⟩)
      split
      · next l hl =>
          have hloc : Ok (doLoc k l s) ∧ (doLoc k l s).calls = s.calls := by
            have hset : Ok (s.set .locDone) := h.change (s.set_flags_of_ne (by decide))
              (s.set_flags_of_ne (by decide)) (fun _ hv => hv.congr rfl rfl) rfl id
            unfold doLoc
            simp only
            split
            · exact ⟨h, rfl⟩
            · split
              · exact ⟨hset.change rfl rfl (fun _ hv => hv.congr rfl rfl) rfl id, rfl⟩
              · exact ⟨hset, rfl⟩
          exact ⟨hloc.1, fun hne => absurd hloc.2 hne⟩
      · next hl =>
          obtain ⟨hok, hcalls⟩ := checkClass_spec k h hp
          refine ⟨hok, fun hne => ?_⟩
          obtain ⟨hi, hloc, hv⟩ := hcalls hne
          exact ⟨hclear, hi, hloc.trans hl, hv⟩

/-! ## What the handlers do -/

lemma Conn.clr_flags_eq_false {s : Conn} {f g : ArFlag} (h : (s.clr g).flags f = false) :
    s.flags f = false ∨ f = g := by
  by_cases hf : f = g
  · exact .inr hf
  · rw [s.clr_flags_of_ne hf] at h
    exact .inl h

lemma Conn.clr_flags_eq_true {s : Conn} {f g : ArFlag} (h : (s.clr g).flags f = true) : s.flags f = true := by
  by_cases hf : f = g
  · rw [hf, s.clr_flags_self] at h
    exact absurd h (by decide)
  · rwa [s.clr_flags_of_ne hf] at h

lemma Conn.set_flags_eq_false {s : Conn} {f g : ArFlag} (h : (s.set g).flags f = false) :
    s.flags f = false := by
  by_cases hf : f = g
  · rw [hf, s.set_flags_self] at h
    exact absurd h (by decide)
  · rwa [s.set_flags_of_ne hf] at h

lemma Conn.set_flags_eq_true {s : Conn} {f g : ArFlag} (h : (s.set g).flags f = true) :
    s.flags f = true ∨ f = g := by
  by_cases hf : f = g
  · exact .inr hf
  · rw [s.set_flags_of_ne hf] at h
    exact .inl h

def Clears (s : Conn) (f : ArFlag) : Input → Prop
  | .user => f = .needsUser ∧ s.flags .iauthHurry = false
  | .nick _ => f = .needsNick ∧ s.named = false
  | .pong cookie => f = .needsPong ∧ cookie = s.cookie
  | .capEnd => f = .capPending
  | .dnsAnswer _ => f = .dnsPending
  | .identConnected written => f = .authPending ∧ written = false
  | .identReply => f = .authPending
  | .timeout => f = .authPending ∨ f = .dnsPending
  | .pingTimeout required => f = .iauthPending ∧ (required = false ∨ s.flags .iauthSoftDone = true)
  | .iauth (.username _) => f = .authPending
  | .iauth (.hostname name) => f = .dnsPending ∧ name ≠ []
  | .iauth (.done _ _ _) => f = .iauthPending
  | .iauth (.doneAccount _ _ _ _) => f = .iauthPending
  | .iauth .kill => f = .iauthPending
  | _ => False

def Sets (f : ArFlag) : Input → Prop
  | .nick _ => f = .needsPong
  | .capStart => f = .capPending
  | .iauth .softDone => f = .iauthSoftDone
  | _ => False

/-- What an event does to a connection before the request is checked; a client that leaves is not checked. -/
structure Handled (s : Conn) (i : Input) (r : Conn × Bool) : Prop where
  phase : r.1.phase = s.phase ∨ r.1.phase = .gone ∧ r.2 = false
  acts : r.1.acts = s.acts
  confs : r.1.confs = s.confs ∨ ∃ aconf, r.1.confs = aconf :: s.confs ∧ aconf.ofIauth = true ∧ aconf.Plain
  clears : ∀ f, r.1.flags f = false → s.flags f = false ∨ Clears s f i
  sets : ∀ f, r.1.flags f = true → s.flags f = true ∨ Sets f i
  cookie : r.1.cookie = s.cookie ∨ r.1.cookie ≠ 0 ∧ r.1.flags .needsPong = true
  nick : r.1.flags .needsNick = false → s.flags .needsNick = false ∨ r.1.cookie ≠ 0

variable {s t : Conn} {i : Input} {b : Bool}

lemma Handled.clr {f : ArFlag} (hf : Clears s f i) (hnick : f ≠ .needsNick) : Handled s i (s.clr f, b) where
  phase := .inl rfl
  acts := rfl
  confs := .inl rfl
  clears g hg := (Conn.clr_flags_eq_false hg).imp id fun (e : g = f) => e ▸ hf
  sets _ hg := .inl (Conn.clr_flags_eq_true hg)
  cookie := .inl rfl
  nick hg := .inl ((Conn.clr_flags_eq_false hg).resolve_right hnick.symm)

lemma Handled.set {f : ArFlag} (hf : Sets f i) : Handled s i (s.set f, b) where
  phase := .inl rfl
  acts := rfl
  confs := .inl rfl
  clears _ hg := .inl (Conn.set_flags_eq_false hg)
  sets g hg := (Conn.set_flags_eq_true hg).imp id fun (e : g = f) => e ▸ hf
  cookie := .inl rfl
  nick hg := .inl (Conn.set_flags_eq_false hg)

lemma Handled.refl : Handled s i (s, b) where
  phase := .inl rfl
  acts := rfl
  confs := .inl rfl
  clears _ hf := .inl hf
  sets _ hf := .inl hf
  cookie := .inl rfl
  nick hf := .inl hf

lemma Handled.then {u : Conn} (h : Handled s i (t, b)) (hphase : u.phase = t.phase)
    (hflags : u.flags = t.flags) (hcookie : u.cookie = t.cookie) (hconfs : u.confs = t.confs)
    (hacts : u.acts = t.acts) : Handled s i (u, b) where
  phase := by
    simp only [hphase]
    exact h.phase
  acts := hacts.trans h.acts
  confs := by
    simp only [hconfs]
    exact h.confs
  clears f hf := h.clears f (hflags ▸ hf)
  sets f hf := h.sets f (hflags ▸ hf)
  cookie := by
    simp only [hcookie, hflags]
    exact h.cookie
  nick hf := by
    simp only [hcookie]
    exact h.nick (hflags ▸ hf)

lemma Handled.same (hphase : t.phase = s.phase) (hflags : t.flags = s.flags) (hcookie : t.cookie = s.cookie)
    (hconfs : t.confs = s.confs) (hacts : t.acts = s.acts) : Handled s i (t, b) :=
  Handled.refl.then hphase hflags hcookie hconfs hacts

lemma Handled.exit (h : Handled s i (t, true)) : Handled s i (t.exit, false) :=
  ⟨.inr ⟨rfl, rfl⟩, h.acts, h.confs, h.clears, h.sets, h.cookie, h.nick⟩

lemma handled_iauthCmdDoneClient {name : Str} {usable full : Bool} (h : Clears s .iauthPending i) :
    Handled s i (iauthCmdDoneClient name usable full s) := by
  have hclr : Handled s i (s.clr .iauthPending, true) := .clr h (by decide)
  unfold iauthCmdDoneClient
  simp only
  split
  · split
    · exact hclr
    · split
      · exact hclr.exit
      · exact ⟨.inl rfl, rfl, .inr ⟨_, rfl, rfl, rfl, rfl⟩, hclr.clears, hclr.sets, .inl rfl, hclr.nick⟩
  · exact hclr

lemma handled_mrPass (text : Str) (loc : Option Str) : Handled s i (mrPass text loc s) := by
  unfold mrPass
  simp only
  generalize (match loc with
    | some service =>
      if s.loc = none ∧ text ≠ [] then ((passText service text).1, (passText service text).2, true)
      else (text, s.loc, false)
    | none => (text, s.loc, false) : Str × Option LocInfo × Bool) = r
  split
  · exact .same rfl rfl rfl rfl rfl
  · split
    · exact .same rfl rfl rfl rfl rfl
    · exact .same rfl rfl rfl rfl rfl

lemma handled_authSetNick {cookie : ℕ} (hnamed : s.named = false) (hc : cookie ≠ 0) :
    Handled s (.nick cookie) (authSetNick cookie s) := by
  have hclears : ∀ f, (s.clr .needsNick).flags f = false → s.flags f = false ∨ Clears s f (.nick cookie) :=
    fun f hf => (Conn.clr_flags_eq_false hf).imp id fun e => ⟨e, hnamed⟩
  unfold authSetNick
  simp only
  split
  · refine ⟨.inl rfl, rfl, .inl rfl, fun f hf => hclears f (Conn.set_flags_eq_false hf), fun f hf => ?_,
      .inr ⟨hc, Conn.set_flags_self _ .needsPong⟩, fun _ => .inr hc⟩
    rcases Conn.set_flags_eq_true hf with h | h
    · exact .inl (Conn.clr_flags_eq_true (g := .needsNick) h)
    · exact .inr h
  · next hz =>
      exact ⟨.inl rfl, rfl, .inl rfl, hclears, fun f hf => .inl (Conn.clr_flags_eq_true hf), .inl rfl,
        fun _ => .inr hz⟩

lemma handled_authPingTimeout (required : Bool) :
    Handled s (.pingTimeout required) (authPingTimeout required s) := by
  unfold authPingTimeout
  split
  · exact Handled.refl.exit
  · split
    · exact Handled.refl.exit
    · split
      · split
        · exact Handled.refl.exit
        · next h =>
            refine .clr ⟨rfl, ?_⟩ (by decide)
            by_contra hn
            rw [not_or] at hn
            exact h ⟨by simpa using hn.1, by simpa using hn.2⟩
      · exact .refl

lemma handled_iauthParse (cmd : IauthCmd) : Handled s (.iauth cmd) (iauthParse s cmd) := by
  unfold iauthParse
  split
  · exact .refl
  · cases cmd with
    | username name => exact .clr rfl (by decide)
    | hostname name =>
      simp only [iauthCmd]
      split
      · exact .refl
      · next h => exact .clr ⟨rfl, h⟩ (by decide)
    | other => exact .refl
    | fingerprint sslclifp => exact .same rfl rfl rfl rfl rfl
    | softDone => exact .set rfl
    | done name usable full => exact handled_iauthCmdDoneClient rfl
    | doneAccount account name usable full =>
      simp only [iauthCmd]
      split
      · exact .refl
      · exact handled_iauthCmdDoneClient rfl
    | kill => exact Handled.exit (.clr rfl (by decide))

lemma handled_handle (s : Conn) (i : Input) : Handled s i (handle s i) := by
  cases i with
  | user =>
    simp only [handle]
    split
    · exact .refl
    · next h => exact .clr ⟨rfl, by simpa using h⟩ (by decide)
  | nick cookie =>
    simp only [handle]
    split
    · exact .refl
    · next h =>
        rw [not_or] at h
        exact handled_authSetNick (by simpa using h.1) h.2
  | pass text loc => exact handled_mrPass text loc
  | pong cookie =>
    simp only [handle]
    split
    · next h => exact .clr ⟨rfl, h.2⟩ (by decide)
    · exact .refl
  | capStart => exact .set rfl
  | capEnd => exact .clr rfl (by decide)
  | webirc refused strip =>
    simp only [handle]
    split
    · exact Handled.refl.exit
    · split
      · exact .same rfl rfl rfl rfl rfl
      · exact .refl
  | locReply cookie accepted =>
    simp only [handle]
    split
    · split
      · split
        · exact .same rfl rfl rfl rfl rfl
        · exact .same rfl rfl rfl rfl rfl
      · exact .refl
    · exact .refl
  | account => exact .refl
  | dnsAnswer kill =>
    have hclr : Handled s (.dnsAnswer kill) (s.clr .dnsPending, true) := .clr rfl (by decide)
    simp only [handle]
    split
    · split
      · exact hclr.exit
      · exact hclr
    · exact .refl
  | identConnected written =>
    simp only [handle]
    split
    · next h =>
        have hclr : Handled s (.identConnected written) (s.clr .authPending, true) :=
          .clr ⟨rfl, h.2⟩ (by decide)
        exact hclr.then rfl rfl rfl rfl rfl
    · exact .refl
  | identReply =>
    have hclr : Handled s .identReply (s.clr .authPending, true) := .clr rfl (by decide)
    simp only [handle]
    split
    · exact hclr.then rfl rfl rfl rfl rfl
    · exact .refl
  | timeout =>
    simp only [handle]
    split
    · refine ⟨.inl rfl, rfl, .inl rfl, fun f hf => ?_, fun f hf => ?_, .inl rfl, fun hf => ?_⟩
      · rcases Conn.clr_flags_eq_false hf with h | h
        · exact (Conn.clr_flags_eq_false h).imp id .inl
        · exact .inr (.inr h)
      · exact .inl (Conn.clr_flags_eq_true (Conn.clr_flags_eq_true hf))
      · have h : (s.clr .authPending).flags .needsNick = false :=
          (Conn.clr_flags_eq_false (g := .dnsPending) hf).resolve_right (by decide)
        exact .inl ((Conn.clr_flags_eq_false h).resolve_right (by decide))
    · exact .refl
  | locTimeout => exact .same rfl rfl rfl rfl rfl
  | pingTimeout required => exact handled_authPingTimeout required
  | iauth cmd => exact handled_iauthParse cmd
  | exit => exact Handled.refl.exit

/-! ## One event -/

lemma Handled.flag_eq {r : Conn × Bool} {f : ArFlag} (h : Handled s i r) (hc : ¬ Clears s f i)
    (hs : ¬ Sets f i) : r.1.flags f = s.flags f := by
  cases hf : r.1.flags f with
  | false => exact ((h.clears f hf).resolve_right hc).symm
  | true => exact ((h.sets f hf).resolve_right hs).symm

lemma not_clears {f : ArFlag} (hf : f = .iauthHurry ∨ f = .passwordChecked) : ¬ Clears s f i := by
  cases i with
  | iauth cmd => cases cmd <;> rcases hf with rfl | rfl <;> simp [Clears]
  | _ => rcases hf with rfl | rfl <;> simp [Clears]

lemma not_sets {f : ArFlag} (hf : f = .iauthHurry ∨ f = .passwordChecked) : ¬ Sets f i := by
  cases i with
  | iauth cmd => cases cmd <;> rcases hf with rfl | rfl <;> simp [Sets]
  | _ => rcases hf with rfl | rfl <;> simp [Sets]

lemma Handled.ok {r : Conn × Bool} (h : Handled s i r) (hs : Ok s) : Ok r.1 := by
  have hflag : ∀ f, f = .iauthHurry ∨ f = .passwordChecked → r.1.flags f = s.flags f :=
    fun f hf => h.flag_eq (not_clears hf) (not_sets hf)
  refine hs.change (hflag _ (.inl rfl)) (hflag _ (.inr rfl)) (fun _ hv => ?_) h.acts fun hp => ?_
  · -- a block that is put in front is one of iauth
    rcases h.confs with hc | ⟨aconf, hc, hof, hplain⟩
    · exact hv.congr hc h.acts
    · obtain ⟨a, rest, a', passwd, sslclifp, -, hmem, hfp, hpw, -⟩ := hv
      exact ⟨aconf, s.confs, a', passwd, sslclifp, hc, h.acts ▸ hmem, hfp, hpw, .inr ⟨hof, hplain⟩⟩
  · rcases h.phase with he | he
    · exact he.symm.trans hp
    · exact absurd (hp.symm.trans he.1) (by decide)

lemma step_of_ne {e : Input × Env} (hp : s.phase ≠ .pending) : step s e = s ∨ step s e = s.exit := by
  unfold step
  split
  · next h => exact absurd h hp
  · split
    · exact .inr rfl
    · exact .inl rfl

lemma step_of_pending (e : Input × Env) (hp : s.phase = .pending) : ∃ r, Handled s e.1 r ∧ (step s e = r.1 ∨
      step s e = checkAuthFinished e.2 r.1 ∧ r.1.phase = .pending) := by
  refine ⟨handle s e.1, handled_handle s e.1, ?_⟩
  have hphase := (handled_handle s e.1).phase
  unfold step
  rw [hp]
  simp only
  split
  · next h =>
      refine .inr ⟨rfl, ?_⟩
      rcases hphase with he | he
      · exact he.trans hp
      · exact absurd h (by simp [he.2])
  · exact .inl rfl

lemma ok_step (e : Input × Env) (h : Ok s) : Ok (step s e) := by
  by_cases hp : s.phase = .pending
  · obtain ⟨r, hr, hstep⟩ := step_of_pending e hp
    rcases hstep with hstep | ⟨hstep, hrp⟩
    · rw [hstep]
      exact hr.ok h
    · rw [hstep]
      exact (checkAuthFinished_spec e.2 (hr.ok h) hrp).1
  · rcases step_of_ne hp with hstep | hstep
    · rw [hstep]
      exact h
    · rw [hstep]
      exact h.change rfl rfl (fun _ hv => hv.congr rfl rfl) rfl fun e => absurd e (by simp [Conn.exit])

lemma step_keeps (s : Conn) (e : Input × Env) :
    ∃ r, Keeps r.1 (step s e) ∧ (r.1 = s ∨ s.phase = .pending ∧ Handled s e.1 r) := by
  by_cases hp : s.phase = .pending
  · obtain ⟨r, hr, hstep⟩ := step_of_pending e hp
    rcases hstep with hstep | ⟨hstep, -⟩
    · exact ⟨r, hstep ▸ .refl r.1, .inr ⟨hp, hr⟩⟩
    · exact ⟨r, hstep ▸ keeps_checkAuthFinished e.2 r.1, .inr ⟨hp, hr⟩⟩
  · refine ⟨(s, false), ?_, .inl rfl⟩
    rcases step_of_ne (e := e) hp with hstep | hstep
    · rw [hstep]
      exact .refl s
    · rw [hstep]
      exact ⟨fun _ _ _ _ => rfl, rfl⟩

/-- A flag that is not one of the check. `check_auth_finished`. -/
def ArFlag.IsRequest (f : ArFlag) : Prop := f ≠ .iauthHurry ∧ f ≠ .passwordChecked ∧ f ≠ .locDone

lemma step_clears {e : Input × Env} {f : ArFlag} (hf : f.IsRequest) (h : (step s e).flags f = false) :
    s.flags f = false ∨ s.phase = .pending ∧ Clears s f e.1 := by
  obtain ⟨r, hk, hr⟩ := step_keeps s e
  rw [hk.flags f hf.1 hf.2.1 hf.2.2] at h
  rcases hr with rfl | ⟨hp, hr⟩
  · exact .inl h
  · exact (hr.clears f h).imp id fun hc => ⟨hp, hc⟩

lemma step_sets {e : Input × Env} {f : ArFlag} (hf : f.IsRequest) (h : (step s e).flags f = true) :
    s.flags f = true ∨ Sets f e.1 := by
  obtain ⟨r, hk, hr⟩ := step_keeps s e
  rw [hk.flags f hf.1 hf.2.1 hf.2.2] at h
  rcases hr with rfl | ⟨-, hr⟩
  · exact .inl h
  · exact hr.sets f h

lemma step_cookie (s : Conn) (e : Input × Env) :
    ((step s e).cookie = s.cookie ∨ (step s e).cookie ≠ 0 ∧ (step s e).flags .needsPong = true) ∧
      ((step s e).flags .needsNick = false → s.flags .needsNick = false ∨ (step s e).cookie ≠ 0) := by
  obtain ⟨r, hk, hr⟩ := step_keeps s e
  rw [hk.cookie, hk.flags .needsPong (by decide) (by decide) (by decide),
    hk.flags .needsNick (by decide) (by decide) (by decide)]
  rcases hr with rfl | ⟨-, hr⟩
  · exact ⟨.inl rfl, .inl⟩
  · exact ⟨hr.cookie, hr.nick⟩

/-- **When an event leads to `register_user`.** -/
theorem step_calls {e : Input × Env} (h : Ok s) (hc : (step s e).calls ≠ s.calls) : s.phase = .pending ∧
    (∀ f ∈ scanFlags, (step s e).flags f = false) ∧ (step s e).flags .iauthPending = false ∧ (step s e).loc =
    none ∧ Verified (step s e) ∧ (step s e).phase = .registered := by
  by_cases hp : s.phase = .pending
  · obtain ⟨r, hr, hstep⟩ := step_of_pending e hp
    have hcalls : r.1.calls = s.calls := by
      unfold Conn.calls
      rw [hr.acts]
    rcases hstep with hstep | ⟨hstep, hrp⟩
    · rw [hstep] at hc
      exact absurd hcalls hc
    · rw [hstep, ← hcalls] at hc
      rw [hstep]
      obtain ⟨hscan, hi, hloc, hv⟩ := (checkAuthFinished_spec e.2 (hr.ok h) hrp).2 hc
      have hk := keeps_checkAuthFinished e.2 r.1
      refine ⟨hp, fun f hf => ?_, ?_, hloc, hv⟩
      · rw [hk.flags f (by rintro rfl; simp [scanFlags] at hf) (by rintro rfl; simp [scanFlags] at hf)
          (by rintro rfl; simp [scanFlags] at hf)]
        exact hscan f hf
      · rw [hk.flags .iauthPending (by decide) (by decide) (by decide)]
        exact hi
  · rcases step_of_ne (e := e) hp with hstep | hstep
    · rw [hstep] at hc
      exact absurd rfl hc
    · rw [hstep] at hc
      exact absurd rfl hc

/-! ## Runs -/

def run (b : Begun) (sslclifp : Str) : List (Input × Env) → Option Conn :=
  after (fun s e => some (step s e)) (startAuth b sslclifp)

/-- An event of a kind has happened while the connection had a request. The kind may depend on the
events before it and on the connection then. -/
def Happened (b : Begun) (sslclifp : Str) (kind : List (Input × Env) → Conn → Input → Prop)
    (es : List (Input × Env)) : Prop :=
  ∃ es₁ e es₂ s, es = es₁ ++ e :: es₂ ∧ run b sslclifp es₁ = some s ∧ s.phase = .pending ∧ kind es₁ s e.1

/-- What must have happened before `register_user` is called. `check_auth_finished` -/
structure Gate (b : Begun) (sslclifp : Str) (es : List (Input × Env)) (s : Conn) : Prop where
  user : Happened b sslclifp (fun _ t i => i = .user ∧ t.flags .iauthHurry = false) es
  nick : Happened b sslclifp (fun _ t i => (∃ cookie, i = .nick cookie) ∧ t.named = false) es
  cookie : s.cookie ≠ 0
  pong : Happened b sslclifp (fun _ t i => i = .pong s.cookie ∧ t.cookie = s.cookie) es
  cap : ∀ es₁ e es₂, es = es₁ ++ e :: es₂ → e.1 = .capStart → ∃ e' ∈ es₂, e'.1 = .capEnd
  dns : b.dns = true → Happened b sslclifp (fun _ _ i => (∃ kill, i = .dnsAnswer kill) ∨
    (∃ name, i = .iauth (.hostname name) ∧ name ≠ []) ∨ i = .timeout) es
  ident : b.ident = true → Happened b sslclifp (fun _ _ i => i = .identReply ∨
    i = .identConnected false ∨ (∃ name, i = .iauth (.username name)) ∨ i = .timeout) es
  iauth : b.iauth = true → Happened b sslclifp (fun es₁ _ i =>
    (∃ name usable full, i = .iauth (.done name usable full)) ∨
    (∃ account name usable full, i = .iauth (.doneAccount account name usable full)) ∨
    ∃ required, i = .pingTimeout required ∧ (required = false ∨ ∃ e ∈ es₁, e.1 = .iauth .softDone)) es
  loc : s.loc = none
  verified : Verified s

variable {fp : Str} {es : List (Input × Env)} {k : Begun}

lemma ok_startAuth (k : Begun) (fp : Str) : Ok (startAuth k fp) where
  hurry h := by simp [startAuth] at h
  verified h := by simp [startAuth] at h
  pending _ := by simp [startAuth]
  once := by simp [startAuth]

lemma ok_run (h : run k fp es = some s) : Ok s := by
  refine run_induction (P := fun _ s => Ok s) (ok_startAuth k fp) ?_ h
  intro _ t e t' _ ht he
  rw [← some.inj he]
  exact ok_step e ht

lemma happened_clears {f : ArFlag} (hf : f.IsRequest) (hinit : (startAuth k fp).flags f = true)
    (h : run k fp es = some s) (hs : s.flags f = false) (hp : s.phase ≠ .gone) :
    Happened k fp (fun _ t i => Clears t f i ∧ i ≠ .iauth .kill) es := by
  have hsince : Since (fun s e => some (step s e)) (startAuth k fp)
      (fun s e => s.phase = .pending ∧ Clears s f e.1 ∧ e.1 ≠ .iauth .kill)
      (fun s => s.flags f = false ∧ s.phase ≠ .gone) es := by
    refine since_of_kept (by simp [hinit]) ?_ h ⟨hs, hp⟩
    rintro - t e t' - he ⟨hclear, hgone⟩
    obtain rfl := some.inj he
    rcases step_clears hf hclear with h | ⟨hpend, h⟩
    · refine .inl ⟨h, fun hg => hgone ?_⟩
      rcases step_of_ne (e := e) (by rw [hg]; decide) with hstep | hstep
      · rw [hstep, hg]
      · rw [hstep]
        rfl
    · refine .inr ⟨hpend, h, fun hkill => hgone ?_⟩
      unfold step
      rw [hpend, hkill]
      simp [handle, iauthParse, iauthCmd, Conn.exit]
  obtain ⟨es₁, e, es₂, t, hes, ht, he, -⟩ := hsince
  exact ⟨es₁, e, es₂, t, hes, ht, he.1, he.2⟩

lemma Happened.mono {kind kind' : List (Input × Env) → Conn → Input → Prop} (h : Happened k fp kind es)
    (hk : ∀ es₁ t i, run k fp es₁ = some t → kind es₁ t i → kind' es₁ t i) : Happened k fp kind' es := by
  obtain ⟨es₁, e, es₂, t, hes, ht, hp, he⟩ := h
  exact ⟨es₁, e, es₂, t, hes, ht, hp, hk es₁ t e.1 ht he⟩

lemma exists_sets {f : ArFlag} (hf : f.IsRequest) (hinit : (startAuth k fp).flags f = false)
    (h : run k fp es = some s) (hs : s.flags f = true) : ∃ e ∈ es, Sets f e.1 := by
  have hsince : Since (fun s e => some (step s e)) (startAuth k fp) (fun _ e => Sets f e.1)
      (fun s => s.flags f = true) es := by
    refine since_of_kept (by simp [hinit]) ?_ h hs
    intro _ t e t' _ he ht'
    rw [← some.inj he] at ht'
    exact step_sets hf ht'
  obtain ⟨es₁, e, es₂, t, rfl, -, he, -⟩ := hsince
  exact ⟨e, by simp, he⟩

lemma happened_user (h : run k fp es = some s) (hs : s.flags .needsUser = false) (hp : s.phase ≠ .gone) :
    Happened k fp (fun _ t i => i = .user ∧ t.flags .iauthHurry = false) es := by
  apply (happened_clears ⟨by decide, by decide, by decide⟩ rfl h hs hp).mono
  rintro - t i - ⟨hclears, -⟩
  revert hclears
  cases i with
  | user => exact fun hc => ⟨rfl, hc.2⟩
  | iauth cmd => cases cmd <;> simp [Clears]
  | _ => simp [Clears]

lemma happened_nick (h : run k fp es = some s) (hs : s.flags .needsNick = false) (hp : s.phase ≠ .gone) :
    Happened k fp (fun _ t i => (∃ cookie, i = .nick cookie) ∧ t.named = false) es := by
  apply (happened_clears ⟨by decide, by decide, by decide⟩ rfl h hs hp).mono
  rintro - t i - ⟨hclears, -⟩
  revert hclears
  cases i with
  | nick cookie => exact fun hc => ⟨⟨cookie, rfl⟩, hc.2⟩
  | iauth cmd => cases cmd <;> simp [Clears]
  | _ => simp [Clears]

lemma happened_dns (h : run k fp es = some s) (hs : s.flags .dnsPending = false) (hp : s.phase ≠ .gone)
    (hd : k.dns = true) : Happened k fp (fun _ _ i => (∃ kill, i = .dnsAnswer kill) ∨ (∃ name, i =
    .iauth (.hostname name) ∧ name ≠ []) ∨ i = .timeout) es := by
  have hinit : (startAuth k fp).flags .dnsPending = true := hd
  apply (happened_clears ⟨by decide, by decide, by decide⟩ hinit h hs hp).mono
  rintro - t i - ⟨hclears, -⟩
  revert hclears
  cases i with
  | iauth cmd => cases cmd <;> simp [Clears]
  | _ => simp [Clears]

lemma happened_ident (h : run k fp es = some s) (hs : s.flags .authPending = false) (hp : s.phase ≠ .gone)
    (hd : k.ident = true) : Happened k fp (fun _ _ i => i = .identReply ∨ i = .identConnected false ∨
    (∃ name, i = .iauth (.username name)) ∨ i = .timeout) es := by
  have hinit : (startAuth k fp).flags .authPending = true := hd
  apply (happened_clears ⟨by decide, by decide, by decide⟩ hinit h hs hp).mono
  rintro - t i - ⟨hclears, -⟩
  revert hclears
  cases i with
  | iauth cmd => cases cmd <;> simp [Clears]
  | _ => simp [Clears]

lemma happened_iauth (h : run k fp es = some s) (hs : s.flags .iauthPending = false)
    (hp : s.phase ≠ .gone) (hd : k.iauth = true) :
    Happened k fp (fun es₁ _ i => (∃ name usable full, i = .iauth (.done name usable full)) ∨
      (∃ account name usable full, i = .iauth (.doneAccount account name usable full)) ∨
      ∃ required, i = .pingTimeout required ∧ (required = false ∨ ∃ e ∈ es₁, e.1 = .iauth .softDone)) es := by
  have hinit : (startAuth k fp).flags .iauthPending = true := hd
  apply (happened_clears ⟨by decide, by decide, by decide⟩ hinit h hs hp).mono
  rintro es₁ t i ht ⟨hclears, hkill⟩
  cases i with
  | pingTimeout required =>
    refine .inr (.inr ⟨required, rfl, hclears.2.imp id fun hsoft => ?_⟩)
    obtain ⟨e, he, hsets⟩ := exists_sets ⟨by decide, by decide, by decide⟩ rfl ht hsoft
    refine ⟨e, he, ?_⟩
    revert hsets
    cases e.1 with
    | iauth cmd => cases cmd <;> simp [Sets]
    | _ => simp [Sets]
  | iauth cmd =>
    revert hclears hkill
    cases cmd <;> simp [Clears]
  | _ => simp [Clears] at hclears

lemma cookie_of_nick (h : run k fp es = some s) (hs : s.flags .needsNick = false) : s.cookie ≠ 0 := by
  revert hs
  refine run_induction (P := fun _ s => s.flags .needsNick = false → s.cookie ≠ 0)
    (fun hs => absurd hs (by simp [startAuth])) ?_ h
  intro _ t e t' _ ih he hs'
  obtain rfl := some.inj he
  obtain ⟨hcookie, hnick⟩ := step_cookie t e
  rcases hnick hs' with hn | hn
  · rcases hcookie with hc | hc
    · rw [hc]
      exact ih hn
    · exact hc.1
  · exact hn

lemma happened_pong (h : run k fp es = some s) (hs : s.flags .needsPong = false) (hc : s.cookie ≠ 0) :
    Happened k fp (fun _ t i => i = .pong s.cookie ∧ t.cookie = s.cookie) es := by
  have hsince : Since (fun s e => some (step s e)) (startAuth k fp)
      (fun t e => t.phase = .pending ∧ e.1 = .pong s.cookie ∧ t.cookie = s.cookie)
      (fun t => t.flags .needsPong = false ∧ t.cookie = s.cookie) es := by
    refine since_of_kept (fun h => hc h.2.symm) ?_ h ⟨hs, rfl⟩
    rintro - t e t' - he ⟨hp, hc'⟩
    obtain rfl := some.inj he
    -- the cookie is not a new one, since that would have to be sent back
    have hcookie : t.cookie = s.cookie := by
      rcases (step_cookie t e).1 with h | h
      · exact h.symm.trans hc'
      · exact absurd (h.2.symm.trans hp) (by decide)
    rcases step_clears ⟨by decide, by decide, by decide⟩ hp with h | ⟨hpend, h⟩
    · exact .inl ⟨h, hcookie⟩
    · refine .inr ⟨hpend, ?_, hcookie⟩
      revert h
      cases e.1 with
      | pong cookie => exact fun h => by rw [h.2, hcookie]
      | iauth cmd => cases cmd <;> simp [Clears]
      | _ => simp [Clears]
  obtain ⟨es₁, e, es₂, t, hes, ht, he, -⟩ := hsince
  exact ⟨es₁, e, es₂, t, hes, ht, he.1, he.2⟩

lemma cap_ended (h : run k fp es = some s) (hp : s.phase = .pending) (hs : s.flags .capPending = false) :
    ∀ es₁ e es₂, es = es₁ ++ e :: es₂ → e.1 = .capStart → ∃ e' ∈ es₂, e'.1 = .capEnd := by
  have hcap : ArFlag.capPending.IsRequest := ⟨by decide, by decide, by decide⟩
  have hgone : ∀ (t : Conn) (e : Input × Env), t.phase ≠ .pending → (step t e).phase ≠ .pending := by
    intro t e ht
    rcases step_of_ne (e := e) ht with h | h
    · rwa [h]
    · rw [h]
      simp [Conn.exit]
  have hmark : ¬ (s.flags .capPending = true ∨ s.phase ≠ .pending) := by simp [hs, hp]
  refine @followed_of_clear _ _ _ _ (fun e => e.1 = .capStart) (fun e => e.1 = .capEnd)
    (fun t => t.flags .capPending = true ∨ t.phase ≠ .pending) ?_ ?_ _ _ h hmark
  · intro t e t' he hstart
    obtain rfl := some.inj he
    by_cases ht : t.phase = .pending
    · refine .inl ?_
      unfold step
      rw [ht, hstart]
      exact t.set_flags_self .capPending
    · exact .inr (hgone t e ht)
  · rintro t e t' he (ht | ht) hend
    · obtain rfl := some.inj he
      refine .inl ?_
      by_contra hc
      rcases step_clears hcap (by simpa using hc) with h | ⟨-, h⟩
      · exact absurd (ht.symm.trans h) (by decide)
      · revert h hend
        cases e.1 with
        | capEnd => exact fun h _ => h rfl
        | iauth cmd => cases cmd <;> simp [Clears]
        | _ => simp [Clears]
    · obtain rfl := some.inj he
      exact .inr (hgone t e ht)

lemma cap_ended_step {e : Input × Env} (h : run k fp es = some s) (hp : s.phase = .pending)
    (hs : (step s e).flags .capPending = false) {es₁ es₂ : List (Input × Env)} {e₁ : Input × Env}
    (hes : es ++ [e] = es₁ ++ e₁ :: es₂) (hstart : e₁.1 = .capStart) : ∃ e' ∈ es₂, e'.1 = .capEnd := by
  rcases List.eq_nil_or_concat es₂ with rfl | ⟨es₂', e', rfl⟩
  · -- it is the last event, which leaves the flag set
    obtain ⟨-, h₁⟩ := List.append_inj' hes rfl
    obtain rfl : e = e₁ := by simpa using h₁
    unfold step at hs
    rw [hp, hstart] at hs
    exact absurd (s.set_flags_self .capPending) (ne_true_of_eq_false hs)
  · rw [List.concat_eq_append, ← List.cons_append, ← List.append_assoc] at hes
    obtain ⟨hes', h₁⟩ := List.append_inj' hes rfl
    obtain rfl : e = e' := by simpa using h₁
    rcases step_clears ⟨by decide, by decide, by decide⟩ hs with hclear | ⟨-, hend⟩
    · obtain ⟨x, hx, hxe⟩ := cap_ended h hp hclear es₁ e₁ es₂' hes' hstart
      exact ⟨x, by simp [hx], hxe⟩
    · refine ⟨e, by simp, ?_⟩
      revert hend
      cases e.1 with
      | capEnd => exact fun _ => rfl
      | iauth cmd => cases cmd <;> simp [Clears]
      | _ => simp [Clears]

/-- **The gate of the registration.** In every run, `register_user` is called at most once, and when an event
leads to it, all conditions hold. -/
theorem register_gate {e : Input × Env} (h : run k fp es = some s) :
    (step s e).calls ≤ 1 ∧ ((step s e).calls ≠ s.calls → Gate k fp (es ++ [e]) (step s e)) := by
  refine ⟨(ok_step e (ok_run h)).once, fun hc => ?_⟩
  obtain ⟨hp, hscan, hi, hloc, hv, hreg⟩ := step_calls (ok_run h) hc
  have hrun : run k fp (es ++ [e]) = some (step s e) := after_concat_eq_some.mpr ⟨s, h, rfl⟩
  have hgone : (step s e).phase ≠ .gone := by
    rw [hreg]
    decide
  have hcookie : (step s e).cookie ≠ 0 := cookie_of_nick hrun (hscan .needsNick (by decide))
  exact
    { user := happened_user hrun (hscan .needsUser (by decide)) hgone
      nick := happened_nick hrun (hscan .needsNick (by decide)) hgone
      cookie := hcookie
      pong := happened_pong hrun (hscan .needsPong (by decide)) hcookie
      cap _ _ _ hes hstart := cap_ended_step h hp (hscan .capPending (by decide)) hes hstart
      dns hd := happened_dns hrun (hscan .dnsPending (by decide)) hgone hd
      ident hd := happened_ident hrun (hscan .authPending (by decide)) hgone hd
      iauth hd := happened_iauth hrun hi hgone hd
      loc := hloc
      verified := hv }

def sampleConf : ConfItem :=
  { connClass := "users".toList, passwd := "open".toList, sslfp := none, ofIauth := false }

def sampleEnv : Env := { service := false, locCookie := 0, iline := some sampleConf, username := true }

def sampleEvents : List (Input × Env) :=
  [.capStart, .pass "open".toList none, .nick 7, .user, .dnsAnswer false, .identReply, .pong 7,
    .capEnd].map fun i => (i, sampleEnv)

/-- A client that registers. -/
theorem register_gate_bob : ∃ s, run ⟨true, true, true⟩ [] sampleEvents = some s ∧
    (step s (.iauth (.done [] false false), sampleEnv)).calls = 1 ∧
    Gate ⟨true, true, true⟩ [] (sampleEvents ++ [(.iauth (.done [] false false), sampleEnv)])
      (step s (.iauth (.done [] false false), sampleEnv)) :=
  ⟨_, rfl, by decide +kernel, (register_gate rfl).2 (by decide +kernel)⟩

/-- A client is registered although ident was asked and has not answered: the query could not be written, no
time was up and iauth was not there. Another one is registered in a class that was not there when the password
was checked: iauth has named it afterwards. `send_auth_query`, `iauth_cmd_done_client`. -/
theorem register_unanswered : (∃ es s, run ⟨false, false, true⟩ [] es = some s ∧ s.calls = 1 ∧
      ∀ e ∈ es, e.1 ≠ .identReply ∧ e.1 ≠ .timeout ∧ ∀ cmd, e.1 ≠ .iauth cmd) ∧
    ∃ es s aconf rest, run ⟨true, true, true⟩ [] es = some s ∧ s.calls = 1 ∧ s.confs = aconf :: rest ∧
      ∀ passwd sslclifp, Act.checked aconf passwd sslclifp ∉ s.acts := by
  refine ⟨⟨[.identConnected false, .pass "open".toList none, .nick 7, .user, .pong 7].map
    fun i => (i, sampleEnv), _, rfl, by decide +kernel, ?_⟩,
    ⟨sampleEvents ++ [(.iauth (.done "vip".toList true false), sampleEnv)], _,
      authFindClassConf "vip".toList, [sampleConf], rfl, by decide +kernel, by decide +kernel, ?_⟩⟩
  · simp
  · intro passwd sslclifp h
    have h' : Act.checked (authFindClassConf "vip".toList) passwd sslclifp ∈
        [Act.checked sampleConf "open".toList [], .registerUser] := h
    simp [authFindClassConf, sampleConf] at h'

end Nefarious.Registration
