import Mathlib.Data.Finset.Card
import Nefarious.Lib.Since
import Nefarious.User.Accounts

/-!
# SASL sessions

A client that is not registered yet starts a session with AUTHENTICATE, which gives it a cookie; the services
answer with SASL, and a token says which client is meant: the numeric of the server, the descriptor of the
client and the cookie. `msSasl` is what a server makes of such a message; a lookup outside the array of local
clients is `none`.

Names: `m_sasl.c`.
-/

namespace Nefarious.Sasl

open Option (bind_eq_some_iff some.inj)
open Function (update update_of_ne update_self)

open Lib User

/-! ## State -/

/-- What `struct Client` has for SASL. `client.h` `struct Client`. -/
structure SaslCli (ι : Type*) where
  /-- The descriptor of a local client. -/
  fd : Option ℕ
  /-- Whether it is a user or on a port for users. -/
  userPort : Bool
  /-- `cli_auth`: whether its registration is still going on. -/
  auth : Bool
  /-- The cookie of the session, zero without one. -/
  cookie : ℕ
  agent : Option ι
  /-- How many clients have it as their agent. -/
  agentRef : ℕ
  account : Str
  accCreate : ℤ
  complete : Bool
  /-- `IsHiddenHost`. -/
  hidden : Bool
  timer : Bool

/-- A new client. `list.c` `make_client`. -/
def newCli {ι : Type*} (fd : Option ℕ) (userPort auth : Bool) : SaslCli ι where
  fd := fd
  userPort := userPort
  auth := auth
  cookie := 0
  agent := none
  agentRef := 0
  account := []
  accCreate := 0
  complete := false
  hidden := false
  timer := false

/-- The clients. `s_bsd.c` `LocalClientArray`; `list.c`. -/
structure Clients (ι : Type*) where
  /-- `LocalClientArray`. -/
  slot : ℕ → Option ι
  cli : ι → SaslCli ι
  alive : ι → Bool

/-- The server. `s_bsd.c`; `numnicks.h`. -/
structure Server where
  yxx : Str
  maxConnections : ℕ
  yxx_length : yxx.length = 2
  yxx_plain : '!' ∉ yxx ∧ '.' ∉ yxx
  max_le : maxConnections ≤ 2 ^ 31

variable {ι : Type*} [DecidableEq ι]

/-- No clients. `ircd.c` `main`. -/
def noClients : Clients ι where
  slot _ := none
  cli _ := newCli none false false
  alive _ := false

def Clients.modify (s : Clients ι) (i : ι) (f : SaslCli ι → SaslCli ι) : Clients ι :=
  { s with cli := update s.cli i (f (s.cli i)) }

/-- A client that is in the array. `s_bsd.c` `LocalClientArray`. -/
def Clients.IsLocal (s : Clients ι) (i : ι) : Prop :=
  match (s.cli i).fd with
  | some fd => s.slot fd = some i
  | none => False

instance (s : Clients ι) (i : ι) : Decidable (s.IsLocal i) := by
  unfold Clients.IsLocal
  exact match (s.cli i).fd with
    | some _ => inferInstance
    | none => inferInstance

/-! ## Sessions end -/

/-- One reference less to an agent. `ms_sasl` (`D`), `abort_sasl`. -/
def release (agent : Option ι) (s : Clients ι) : Clients ι :=
  match agent with
  | some a => s.modify a fun c => { c with agentRef := c.agentRef - 1 }
  | none => s

/-- The end of a session. `ms_sasl` (`D`), `abort_sasl`. -/
def endSession (i : ι) (s : Clients ι) : Clients ι :=
  (release (s.cli i).agent s).modify i fun c => { c with agent := none, cookie := 0 }

/-- `abort_sasl`. -/
def abortSasl (i : ι) (s : Clients ι) : Clients ι :=
  let s := s.modify i fun c => { c with timer := false }
  if (s.cli i).cookie = 0 ∨ (s.cli i).complete = true then s else endSession i s

/-- Forget an agent in one place of the array. `list.c` `free_client`. -/
def forgetAt (a : ι) (s : Clients ι) (fd : ℕ) : Clients ι :=
  match s.slot fd with
  | some j => if (s.cli j).agent = some a then s.modify j fun c => { c with agent := none } else s
  | none => s

/-- Forget an agent that is freed. `list.c` `free_client`. -/
def forgetAgent (V : Server) (a : ι) (s : Clients ι) : Clients ι :=
  if 0 < (s.cli a).agentRef then
    ((List.range V.maxConnections).foldl (forgetAt a) s).modify a fun c => { c with agentRef := 0 }
  else s

/-- The connection of a local client that leaves: its session is aborted and its place in the array is cleared.
`s_misc.c` `exit_client` (`MyConnect`); `s_bsd.c`. -/
def closeConnection (i : ι) (s : Clients ι) : Clients ι :=
  match (s.cli i).fd with
  | some fd =>
    let s := if (s.cli i).userPort then abortSasl i s else s
    { s with slot := update s.slot fd none }
  | none => s

/-- A client leaves and is freed. `s_misc.c` `exit_client`; `list.c` `free_client`. -/
def exitClient (V : Server) (i : ι) (s : Clients ι) : Clients ι :=
  let s := forgetAgent V i (closeConnection i s)
  { s with alive := update s.alive i false }

/-! ## AUTHENTICATE -/

/-- AUTHENTICATE and what it depends on. `m_authenticate.c` `m_authenticate`. -/
structure AuthCmd where
  /-- `CapActive` for `CAP_SASL`. -/
  cap : Bool
  arg : Option Str
  iauth : Bool
  /-- Whether `FEAT_SASL_SERVER` is a star. -/
  star : Bool
  /-- The server it matches, and whether that is this one. -/
  found : Option Bool
  /-- What `ircrandom` gives. -/
  random : List ℕ

/-- Draw a cookie that is not zero; `none` if the loop is still going. `m_authenticate.c` `m_authenticate`
-/
def drawCookie (random : List ℕ) : Option ℕ := (random.map (· % 2 ^ 31)).find? (· ≠ 0)

/-- Whether there is someone to ask. `m_authenticate.c` `m_authenticate`. -/
def routed (a : AuthCmd) (agent : Option ι) : Bool :=
  a.iauth || match agent with
    | some _ => true
    | none => a.star || a.found == some false

/-- `m_authenticate` behind the checks. A new session needs a cookie, and its first parameter is a word.
`m_authenticate.c` `m_authenticate`. -/
def askAgent (V : Server) (i : ι) (a : AuthCmd) (arg : Str) (s : Clients ι) : Clients ι :=
  let ask (s : Clients ι) : Clients ι := s.modify i fun c => { c with timer := true }
  if (s.cli i).cookie = 0 then
    match drawCookie a.random with
    | none => s
    | some cookie =>
      let s := s.modify i fun c => { c with cookie := cookie }
      if arg.head? = some ':' ∨ ' ' ∈ arg then exitClient V i s else ask s
  else ask s

/-- AUTHENTICATE. `m_authenticate.c`. -/
def mAuthenticate (V : Server) (i : ι) (a : AuthCmd) (s : Clients ι) : Clients ι :=
  if !a.cap then s
  else match a.arg with
    | none => s
    | some arg =>
      if 400 < arg.length then s
      else if (s.cli i).complete then s
      else if !routed a (s.cli i).agent then s
      else askAgent V i a arg s

/-! ## SASL -/

/-- How far `check_auth_finished` comes with a client. `s_auth.c` `check_auth_finished`. -/
inductive Finish
  | waits
  /-- `auth_complete_sasl`, and something is missing then. -/
  | completes
  /-- `auth_complete_sasl`, and the client is registered. -/
  | registers
  | killed
deriving DecidableEq

/-- `check_auth_finished`, as far as SASL is concerned. `s_auth.c` `check_auth_finished`,
`auth_complete_sasl`. -/
def checkAuthFinished (V : Server) (i : ι) (s : Clients ι) : Finish → Clients ι
  | .waits => s
  | .completes => if (s.cli i).userPort then abortSasl i s else s
  | .registers =>
    let s := if (s.cli i).userPort then abortSasl i s else s
    s.modify i fun c => { c with auth := false }
  | .killed => exitClient V i s

/-- SASL and what it depends on. `ms_sasl`. -/
structure SaslMsg (ι : Type*) where
  sptr : ι
  params : List Str
  /-- `FindNServer`, and whether it is this server. -/
  findNServer : Str → Option Bool
  finish : Finish
  /-- Whether hosts are hidden (`FEAT_HOST_HIDING_STYLE`, `FEAT_SASL_AUTOHIDEHOST`). -/
  autoHide : Bool

/-- An int as an unsigned one. the C language. -/
def u32 (z : ℤ) : ℕ := (z % 2 ^ 32).toNat

/-- What follows a character. C library `strchr`. -/
def strchrTail (c : Char) (s : Str) : Option Str :=
  if c ∈ s then some (s.dropWhile (· ≠ c)).tail else none

/-- The two numbers of a token, as texts. The point is overwritten, so it ends a descriptor that stands before
it. `ms_sasl`. -/
def readToken (yxx token : Str) : Option (Str × Str) :=
  if yxx.take 2 ≠ token.take 2 then none
  else match strchrTail '!' token, strchrTail '.' token with
    | some fdstr, some cookiestr =>
      some (if '.' ∈ token.takeWhile (· ≠ '!') then fdstr else fdstr.takeWhile (· ≠ '.'), cookiestr)
    | _, _ => none

/-- The token of a session. `m_authenticate.c` `m_authenticate` (`%C!%u.%u`). -/
def saslToken (yxx : Str) (fd cookie : ℕ) : Str := yxx ++ '!' :: digits fd ++ '.' :: digits cookie

/-- The account of a session. `ms_sasl` (`L`). -/
def logIn (V : Server) (m : SaslMsg ι) (i : ι) (data : Str) (ts : Option Str) (s : Clients ι) :
    Clients ι :=
  let s := s.modify i fun c => { c with
    accCreate := (ts.map atoi).getD c.accCreate
    account := ircdStrncpy c.account data (accountLen + 1) }
  let s := if (s.cli i).auth then checkAuthFinished V i s m.finish else s
  s.modify i fun c => { c with hidden := c.hidden || m.autoHide }

/-- The end of a session. `ms_sasl` (`D`). -/
def done (i : ι) (data : Str) (s : Clients ι) : Clients ι :=
  let s := if data.head? = some 'S' then s.modify i fun c => { c with complete := true } else s
  (endSession i s).modify i fun c => { c with timer := false }

/-- What the subcommand does. `ms_sasl`. -/
def saslReply (V : Server) (m : SaslMsg ι) (i : ι) (reply data : Str) (ts : Option Str)
    (s : Clients ι) : Clients ι :=
  match reply.head? with
  | some 'L' => logIn V m i data ts s
  | some 'D' => done i data s
  | _ => s

/-- Take the sender for the agent. `ms_sasl`. -/
def bindAgent (i a : ι) (s : Clients ι) : Clients ι :=
  (s.modify i fun c => { c with agent := some a }).modify a fun c =>
    { c with agentRef := c.agentRef + 1 }

/-- The client is known: check the agent. `ms_sasl`. -/
def saslFor (V : Server) (m : SaslMsg ι) (i : ι) (reply data : Str) (ts : Option Str)
    (s : Clients ι) : Clients ι :=
  match (s.cli i).agent with
  | none => saslReply V m i reply data ts (bindAgent i m.sptr s)
  | some a => if a = m.sptr then saslReply V m i reply data ts s else s

/-- The texts of the numbers in a token of a message that is for a client of this server. `ms_sasl`. -/
def addressed (V : Server) (m : SaslMsg ι) : Option (Str × Str) :=
  match m.params with
  | target :: token :: _ :: _ :: _ =>
    if target = ['*'] then none
    else match m.findNServer target with
      | some true => readToken V.yxx token
      | _ => none
  | _ => none

def msSasl (V : Server) (m : SaslMsg ι) (s : Clients ι) : Option (Clients ι) :=
  match addressed V m with
  | none => some s
  | some (fdstr, cookiestr) =>
    let fd := u32 (atoi fdstr)
    let cookie := u32 (atoi cookiestr)
    if V.maxConnections ≤ fd then none
    else match s.slot fd with
      | none => some s
      | some i =>
        if (s.cli i).cookie ≠ cookie then some s
        else match m.params with
          | _ :: _ :: reply :: data :: ext => some (saslFor V m i reply data ext.head? s)
          | _ => some s

/-! ## Runs -/

/-- Events. `s_auth.c`, `m_authenticate.c`, `m_sasl.c`, `s_misc.c`. -/
inductive Event (ι : Type*)
  | connect (i : ι) (fd : ℕ) (userPort auth : Bool)
  /-- A client of another server, or another server. -/
  | introduce (i : ι)
  | authenticate (i : ι) (a : AuthCmd)
  | sasl (m : SaslMsg ι)
  | timeout (i : ι)
  /-- The registration of a client goes on. -/
  | finish (i : ι) (f : Finish)
  | exit (i : ι)

/-- Who can send SASL: clients that are registered. `parse.c` (`ms_sasl`). -/
def Clients.CanSend (s : Clients ι) (i : ι) : Prop := s.alive i = true ∧ (s.cli i).auth = false

instance (s : Clients ι) (i : ι) : Decidable (s.CanSend i) := inferInstanceAs (Decidable (_ ∧ _))

/-- One event; `none` is a lookup outside the array. Events that cannot happen change nothing. `s_auth.c`,
`m_authenticate.c`, `m_sasl.c`, `s_misc.c` -/
def step (V : Server) (s : Clients ι) : Event ι → Option (Clients ι)
  | .connect i fd userPort auth =>
    if s.alive i = false ∧ s.slot fd = none ∧ fd < V.maxConnections then
      some { slot := update s.slot fd (some i)
             cli := update s.cli i (newCli (some fd) userPort auth)
             alive := update s.alive i true }
    else some s
  | .introduce i =>
    if s.alive i = false then
      some { s with
        cli := update s.cli i (newCli none false false)
        alive := update s.alive i true }
    else some s
  | .authenticate i a => some (if s.IsLocal i then mAuthenticate V i a s else s)
  | .sasl m => if s.CanSend m.sptr then msSasl V m s else some s
  | .timeout i => some (if s.IsLocal i ∧ (s.cli i).timer then abortSasl i s else s)
  | .finish i f => some (if s.IsLocal i ∧ (s.cli i).auth then checkAuthFinished V i s f else s)
  | .exit i => some (if s.alive i then exitClient V i s else s)

/-! ## Counting agents -/

/-- The agent of the client in a place of the array. `s_bsd.c` `LocalClientArray`. -/
def Clients.agentAt (s : Clients ι) (fd : ℕ) : Option ι := (s.slot fd).bind fun i => (s.cli i).agent

/-- How many places have an agent. `client.h` (`cli_saslagentref`). -/
def tally (n : ℕ) (g : ℕ → Option ι) (a : ι) : ℕ := ((Finset.range n).filter fun fd => g fd = some a).card

lemma tally_mono {n : ℕ} {g g' : ℕ → Option ι} {a : ι} (h : ∀ fd, g' fd = some a → g fd = some a) :
    tally n g' a ≤ tally n g a := by
  apply Finset.card_le_card
  intro fd hfd
  rw [Finset.mem_filter] at hfd ⊢
  exact ⟨hfd.1, h fd hfd.2⟩

lemma tally_update_some_le (n : ℕ) (g : ℕ → Option ι) (fd : ℕ) (a b : ι) :
    tally n (update g fd (some a)) b ≤ tally n g b + if b = a then 1 else 0 := by
  by_cases hb : b = a
  · subst hb
    rw [if_pos rfl]
    refine le_trans (Finset.card_le_card (t := insert fd ((Finset.range n).filter fun x => g x = some b))
      ?_) (Finset.card_insert_le ..)
    intro x hx
    rw [Finset.mem_filter] at hx
    rw [Finset.mem_insert, Finset.mem_filter]
    by_cases hfd : x = fd
    · exact .inl hfd
    · rw [update_of_ne hfd] at hx
      exact .inr hx
  · rw [if_neg hb, Nat.add_zero]
    apply tally_mono
    intro x hx
    by_cases hfd : x = fd
    · subst hfd
      rw [update_self] at hx
      exact absurd (some.inj hx).symm hb
    · rwa [update_of_ne hfd] at hx

variable {fd : ℕ} {α : Type*}

lemma tally_update_none_le {n : ℕ} {g : ℕ → Option ι} {a : ι} (hfd : fd < n)
    (h : g fd = some a) : tally n (update g fd none) a ≤ tally n g a - 1 := by
  have hsub : tally n (update g fd none) a ≤
      (((Finset.range n).filter fun x => g x = some a).erase fd).card := by
    apply Finset.card_le_card
    intro x hx
    rw [Finset.mem_filter] at hx
    rw [Finset.mem_erase, Finset.mem_filter]
    by_cases hx' : x = fd
    · subst hx'
      rw [update_self] at hx
      exact absurd hx.2 (by simp)
    · rw [update_of_ne hx'] at hx
      exact ⟨hx', hx⟩
  rwa [Finset.card_erase_of_mem (by simp [hfd, h])] at hsub

/-! ## The invariant -/

/-- What holds in every state: the array and the descriptors fit, agents are registered clients that are still
there, and the references of a client are at least as many as the sessions it is the agent of. `s_bsd.c`
`LocalClientArray`; `client.h` (`cli_saslagentref`) -/
structure Ok (V : Server) (s : Clients ι) : Prop where
  slots : ∀ fd i, s.slot fd = some i → fd < V.maxConnections ∧ s.alive i = true ∧ (s.cli i).fd = some fd
  agents : ∀ fd a, s.agentAt fd = some a → s.CanSend a
  fresh : ∀ i, (s.cli i).auth = true → (s.cli i).agentRef = 0
  refs : ∀ a, tally V.maxConnections s.agentAt a ≤ (s.cli a).agentRef

/-- Sessions and agents only end. -/
structure Shrinks (s s' : Clients ι) : Prop where
  cookie : ∀ j, (s'.cli j).cookie = (s.cli j).cookie ∨ (s'.cli j).cookie = 0
  agent : ∀ j, (s'.cli j).agent = (s.cli j).agent ∨ (s'.cli j).agent = none
  fd : ∀ j, (s'.cli j).fd = (s.cli j).fd
  slot : ∀ fd, s'.slot fd = s.slot fd ∨ s'.slot fd = none
  alive : ∀ j, s'.alive j = true → s.alive j = true

omit [DecidableEq ι] in
lemma Shrinks.refl (s : Clients ι) : Shrinks s s :=
  ⟨fun _ => .inl rfl, fun _ => .inl rfl, fun _ => rfl, fun _ => .inl rfl, fun _ h => h⟩

omit [DecidableEq ι] in
lemma Shrinks.trans {s t u : Clients ι} (h : Shrinks s t) (h' : Shrinks t u) : Shrinks s u := by
  refine ⟨fun j => ?_, fun j => ?_, fun j => (h'.fd j).trans (h.fd j), fun fd => ?_, fun j hj =>
    h.alive j (h'.alive j hj)⟩
  · rcases h'.cookie j with e | e
    · rw [e]
      exact h.cookie j
    · exact .inr e
  · rcases h'.agent j with e | e
    · rw [e]
      exact h.agent j
    · exact .inr e
  · rcases h'.slot fd with e | e
    · rw [e]
      exact h.slot fd
    · exact .inr e

@[simp] lemma Clients.modify_self (s : Clients ι) (i : ι) (f : SaslCli ι → SaslCli ι) :
    (s.modify i f).cli i = f (s.cli i) := update_self ..

lemma Clients.modify_of_ne (s : Clients ι) {i j : ι} (f : SaslCli ι → SaslCli ι) (h : j ≠ i) :
    (s.modify i f).cli j = s.cli j := update_of_ne h ..

@[simp] lemma Clients.modify_slot (s : Clients ι) (i : ι) (f : SaslCli ι → SaslCli ι) :
    (s.modify i f).slot = s.slot := rfl

lemma Clients.forall_modify {s : Clients ι} {i : ι} {f : SaslCli ι → SaslCli ι} {P : ι → SaslCli ι → Prop}
    (hi : P i (f (s.cli i))) (h : ∀ j, j ≠ i → P j (s.cli j)) (j : ι) : P j ((s.modify i f).cli j) := by
  by_cases hj : j = i
  · subst hj
    rw [s.modify_self]
    exact hi
  · rw [s.modify_of_ne f hj]
    exact h j hj

lemma Clients.modify_field (s : Clients ι) (i j : ι) {f : SaslCli ι → SaslCli ι}
    {p : SaslCli ι → α} (h : ∀ c, p (f c) = p c) : p ((s.modify i f).cli j) = p (s.cli j) :=
  Clients.forall_modify (P := fun j c => p c = p (s.cli j)) (h _) (fun _ _ => rfl) j

lemma Shrinks.modify (s : Clients ι) (i : ι) {f : SaslCli ι → SaslCli ι}
    (hc : ∀ c, (f c).cookie = c.cookie ∨ (f c).cookie = 0)
    (ha : ∀ c, (f c).agent = c.agent ∨ (f c).agent = none) (hf : ∀ c, (f c).fd = c.fd) :
    Shrinks s (s.modify i f) :=
  ⟨Clients.forall_modify (P := fun j c => c.cookie = (s.cli j).cookie ∨ c.cookie = 0) (hc _)
      fun _ _ => .inl rfl,
    Clients.forall_modify (P := fun j c => c.agent = (s.cli j).agent ∨ c.agent = none) (ha _)
      fun _ _ => .inl rfl,
    fun j => s.modify_field i j hf, fun _ => .inl rfl, fun _ h => h⟩

lemma shrinks_endSession (i : ι) (s : Clients ι) : Shrinks s (endSession i s) := by
  have hrelease : ∀ agent, Shrinks s (release agent s) := by
    intro agent
    cases agent with
    | none => exact .refl s
    | some a =>
      unfold release
      exact .modify s a (fun _ => .inl rfl) (fun _ => .inl rfl) fun _ => rfl
  unfold endSession
  refine (hrelease (s.cli i).agent).trans ?_
  exact .modify _ i (fun _ => .inr rfl) (fun _ => .inr rfl) fun _ => rfl

lemma shrinks_abortSasl (i : ι) (s : Clients ι) : Shrinks s (abortSasl i s) := by
  have htimer : Shrinks s (s.modify i fun c => { c with timer := false }) :=
    .modify s i (fun _ => .inl rfl) (fun _ => .inl rfl) fun _ => rfl
  unfold abortSasl
  simp only
  split
  · exact htimer
  · exact htimer.trans (shrinks_endSession i _)

lemma shrinks_forgetAt (a : ι) (fds : List ℕ) (s : Clients ι) : Shrinks s (fds.foldl (forgetAt a) s) := by
  induction fds generalizing s with
  | nil => exact .refl s
  | cons fd fds ih =>
    refine Shrinks.trans ?_ (ih _)
    unfold forgetAt
    split
    · next j _ =>
        split
        · exact .modify s j (fun _ => .inl rfl) (fun _ => .inr rfl) fun _ => rfl
        · exact .refl s
    · exact .refl s

lemma shrinks_forgetAgent (V : Server) (a : ι) (s : Clients ι) : Shrinks s (forgetAgent V a s) := by
  unfold forgetAgent
  split
  · refine (shrinks_forgetAt a (List.range V.maxConnections) s).trans ?_
    exact .modify _ a (fun _ => .inl rfl) (fun _ => .inl rfl) fun _ => rfl
  · exact .refl s

lemma shrinks_abort_ite (i : ι) (s : Clients ι) (b : Bool) : Shrinks s (if b then abortSasl i s else s) := by
  split
  · exact shrinks_abortSasl i s
  · exact .refl s

lemma shrinks_closeConnection (i : ι) (s : Clients ι) : Shrinks s (closeConnection i s) := by
  unfold closeConnection
  split
  · next fd _ =>
      refine (shrinks_abort_ite i s _).trans
        ⟨fun _ => .inl rfl, fun _ => .inl rfl, fun _ => rfl, fun x => ?_, fun _ h => h⟩
      by_cases hx : x = fd
      · subst hx
        exact .inr (update_self ..)
      · exact .inl (update_of_ne hx ..)
  · exact .refl s

lemma shrinks_exitClient (V : Server) (i : ι) (s : Clients ι) : Shrinks s (exitClient V i s) := by
  have halive : ∀ t : Clients ι, Shrinks t { t with alive := update t.alive i false } := by
    intro t
    refine ⟨fun _ => .inl rfl, fun _ => .inl rfl, fun _ => rfl, fun _ => .inl rfl, fun j hj => ?_⟩
    by_cases hji : j = i
    · subst hji
      simp at hj
    · simpa [update_of_ne hji] using hj
  exact ((shrinks_closeConnection i s).trans (shrinks_forgetAgent V i _)).trans (halive _)

lemma shrinks_checkAuthFinished (V : Server) (i : ι) (s : Clients ι) (f : Finish) :
    Shrinks s (checkAuthFinished V i s f) := by
  cases f with
  | waits => exact .refl s
  | completes => exact shrinks_abort_ite i s _
  | registers =>
    unfold checkAuthFinished
    refine (shrinks_abort_ite i s (s.cli i).userPort).trans ?_
    exact .modify _ i (fun _ => .inl rfl) (fun _ => .inl rfl) fun _ => rfl
  | killed => exact shrinks_exitClient V i s

lemma shrinks_done (i : ι) (data : Str) (s : Clients ι) : Shrinks s (done i data s) := by
  unfold done
  simp only
  refine Shrinks.trans ?_ (.modify _ i (fun _ => .inl rfl) (fun _ => .inl rfl) fun _ => rfl)
  refine Shrinks.trans ?_ (shrinks_endSession i _)
  split
  · exact .modify s i (fun _ => .inl rfl) (fun _ => .inl rfl) fun _ => rfl
  · exact .refl s

lemma shrinks_saslReply (V : Server) (m : SaslMsg ι) (i : ι) (reply data : Str) (ts : Option Str)
    (s : Clients ι) : Shrinks s (saslReply V m i reply data ts s) := by
  have hkeep : ∀ (t : Clients ι) {f : SaslCli ι → SaslCli ι}, (∀ c, (f c).cookie = c.cookie) →
      (∀ c, (f c).agent = c.agent) → (∀ c, (f c).fd = c.fd) → Shrinks t (t.modify i f) :=
    fun t _ hc ha hf => .modify t i (fun c => .inl (hc c)) (fun c => .inl (ha c)) hf
  unfold saslReply
  split
  · unfold logIn
    simp only
    refine Shrinks.trans ?_ (hkeep _ (fun _ => rfl) (fun _ => rfl) fun _ => rfl)
    split
    · refine Shrinks.trans ?_ (shrinks_checkAuthFinished V i _ m.finish)
      exact hkeep s (fun _ => rfl) (fun _ => rfl) fun _ => rfl
    · exact hkeep s (fun _ => rfl) (fun _ => rfl) fun _ => rfl
  · exact shrinks_done i data s
  · exact .refl s

/-! ## The invariant is kept -/

lemma agentAt_modify_of_same (s : Clients ι) (i : ι) {f : SaslCli ι → SaslCli ι}
    (hf : ∀ c, (f c).agent = c.agent) : (s.modify i f).agentAt = s.agentAt := by
  funext fd
  unfold Clients.agentAt
  rw [s.modify_slot]
  cases s.slot fd with
  | none => rfl
  | some j => exact s.modify_field i j hf

variable {V : Server} {s : Clients ι}

lemma Ok.agentAt_modify (h : Ok V s) {i : ι} (hi : s.slot fd = some i) (f : SaslCli ι → SaslCli ι) :
    (s.modify i f).agentAt = update s.agentAt fd (f (s.cli i)).agent := by
  funext x
  unfold Clients.agentAt
  rw [s.modify_slot]
  by_cases hx : x = fd
  · subst hx
    rw [update_self, hi]
    show ((s.modify i f).cli i).agent = _
    rw [s.modify_self]
  · rw [update_of_ne hx]
    cases hsx : s.slot x with
    | none => rfl
    | some j =>
      have hj : j ≠ i := by
        rintro rfl
        have := (h.slots x j hsx).2.2.symm.trans (h.slots fd j hi).2.2
        exact hx (some.inj this)
      show ((s.modify i f).cli j).agent = (s.cli j).agent
      rw [s.modify_of_ne f hj]

lemma Ok.change {s' : Clients ι} (h : Ok V s) (hslot : s'.slot = s.slot) (halive : s'.alive = s.alive)
    (hfd : ∀ j, (s'.cli j).fd = (s.cli j).fd)
    (hauth : ∀ j, (s'.cli j).auth = true → (s.cli j).auth = true ∧
      ((s.cli j).agentRef = 0 → (s'.cli j).agentRef = 0))
    (hagents : ∀ fd a, s'.agentAt fd = some a → s.CanSend a)
    (hrefs : ∀ a, tally V.maxConnections s'.agentAt a ≤ (s'.cli a).agentRef) : Ok V s' where
  slots fd i hi := by
    rw [hslot] at hi
    rw [halive, hfd]
    exact h.slots fd i hi
  agents fd a ha := by
    obtain ⟨h₁, h₂⟩ := hagents fd a ha
    refine ⟨by rw [halive]; exact h₁, ?_⟩
    by_contra hne
    have := (hauth a (by simpa using hne)).1
    exact absurd (this.symm.trans h₂) (by decide)
  fresh i hi := (hauth i hi).2 (h.fresh i (hauth i hi).1)
  refs := hrefs

lemma Ok.modify (h : Ok V s) (i : ι) {f : SaslCli ι → SaslCli ι} (hfd : ∀ c, (f c).fd = c.fd)
    (hagent : ∀ c, (f c).agent = c.agent) (hauth : ∀ c, (f c).auth = true → c.auth = true)
    (href : ∀ c, (f c).agentRef = c.agentRef) : Ok V (s.modify i f) := by
  have hat : (s.modify i f).agentAt = s.agentAt := agentAt_modify_of_same s i hagent
  refine h.change rfl rfl (fun j => s.modify_field i j hfd) (fun j hj => ?_) (fun fd a ha => ?_)
    fun a => ?_
  · rw [s.modify_field i j href]
    refine ⟨?_, id⟩
    exact Clients.forall_modify (P := fun j c => c.auth = true → (s.cli j).auth = true) (hauth _)
      (fun _ _ => id) j hj
  · rw [hat] at ha
    exact h.agents fd a ha
  · rw [hat, s.modify_field i a href]
    exact h.refs a

omit [DecidableEq ι] in
lemma of_update_none {g : ℕ → Option ι} {x : ℕ} {a : ι} (h : update g fd none x = some a) : g x = some a := by
  by_cases hx : x = fd
  · subst hx
    simp at h
  · rwa [update_of_ne hx] at h

lemma release_agentRef (agent : Option ι) (s : Clients ι) (j : ι) :
    ((release agent s).cli j).agentRef = (s.cli j).agentRef - if agent = some j then 1 else 0 := by
  cases agent with
  | none => simp [release]
  | some a =>
    by_cases hj : j = a
    · subst hj
      simp [release]
    · simp [release, s.modify_of_ne _ hj, Ne.symm hj]

lemma release_field (agent : Option ι) (s : Clients ι) (j : ι) {p : SaslCli ι → α}
    (hp : ∀ c n, p { c with agentRef := n } = p c) : p ((release agent s).cli j) = p (s.cli j) := by
  cases agent with
  | none => rfl
  | some a => exact s.modify_field a j fun c => hp c _

lemma endSession_agentRef (i : ι) (s : Clients ι) (j : ι) : ((endSession i s).cli j).agentRef =
      (s.cli j).agentRef - if (s.cli i).agent = some j then 1 else 0 := by
  unfold endSession
  rw [← release_agentRef]
  exact Clients.modify_field (p := SaslCli.agentRef) _ i j fun _ => rfl

lemma endSession_field (i : ι) (s : Clients ι) (j : ι) {p : SaslCli ι → α}
    (hp : ∀ c n, p { c with agentRef := n } = p c)
    (hp' : ∀ c, p { c with agent := none, cookie := 0 } = p c) :
    p ((endSession i s).cli j) = p (s.cli j) :=
  (Clients.modify_field _ i j hp').trans (release_field _ s j hp)

lemma release_slot_alive (agent : Option ι) (s : Clients ι) :
    (release agent s).slot = s.slot ∧ (release agent s).alive = s.alive := by
  cases agent with
  | none => exact ⟨rfl, rfl⟩
  | some a => exact ⟨rfl, rfl⟩

lemma endSession_agentAt {fd a} {i : ι} (h : (endSession i s).agentAt fd = some a) :
    s.agentAt fd = some a ∧ s.slot fd ≠ some i := by
  unfold Clients.agentAt at h ⊢
  have hslot : (endSession i s).slot = s.slot := (release_slot_alive (s.cli i).agent s).1
  rw [hslot] at h
  cases hfd : s.slot fd with
  | none =>
    rw [hfd] at h
    exact absurd h (by simp)
  | some j =>
    rw [hfd] at h
    have h' : ((endSession i s).cli j).agent = some a := h
    by_cases hj : j = i
    · subst hj
      unfold endSession at h'
      rw [Clients.modify_self] at h'
      exact absurd h' (by simp)
    · refine ⟨?_, fun e => hj (some.inj e)⟩
      unfold endSession at h'
      rw [Clients.modify_of_ne _ _ hj] at h'
      rw [release_field (p := SaslCli.agent) _ s j fun _ _ => rfl] at h'
      exact h'

lemma ok_endSession (h : Ok V s) {i : ι} (hi : s.slot fd = some i) : Ok V (endSession i s) := by
  obtain ⟨hslot, halive⟩ := release_slot_alive (s.cli i).agent s
  refine h.change hslot halive (fun j => endSession_field i s j (fun _ _ => rfl) fun _ => rfl)
    (fun j hj => ?_) (fun x a hx => h.agents x a (endSession_agentAt hx).1) fun a => ?_
  · rw [endSession_field (p := SaslCli.auth) i s j (fun _ _ => rfl) fun _ => rfl] at hj
    rw [endSession_agentRef]
    exact ⟨hj, fun h0 => by omega⟩
  · rw [endSession_agentRef]
    have hle : tally V.maxConnections (endSession i s).agentAt a ≤
        tally V.maxConnections (update s.agentAt fd none) a := by
      apply tally_mono
      intro x hx
      obtain ⟨hx₁, hx₂⟩ := endSession_agentAt hx
      have hxfd : x ≠ fd := fun e => hx₂ (e ▸ hi)
      rwa [update_of_ne hxfd]
    by_cases ha : (s.cli i).agent = some a
    · have hat : s.agentAt fd = some a := by
        unfold Clients.agentAt
        rw [hi]
        exact ha
      rw [if_pos ha]
      have := tally_update_none_le (h.slots fd i hi).1 hat
      have := h.refs a
      omega
    · rw [if_neg ha]
      have hle' : tally V.maxConnections (update s.agentAt fd none) a ≤
          tally V.maxConnections s.agentAt a := tally_mono fun x hx => of_update_none hx
      exact (hle.trans hle').trans (h.refs a)

lemma ok_abortSasl (h : Ok V s) {i : ι} (hi : s.slot fd = some i) : Ok V (abortSasl i s) := by
  have htimer : Ok V (s.modify i fun c => { c with timer := false }) :=
    h.modify i (fun _ => rfl) (fun _ => rfl) (fun _ h => h) fun _ => rfl
  unfold abortSasl
  simp only
  split
  · exact htimer
  · have hslot : (s.modify i fun c => { c with timer := false }).slot fd = some i := hi
    exact ok_endSession htimer hslot

lemma ok_bindAgent (h : Ok V s) {i a : ι} (hi : s.slot fd = some i) (ha : s.CanSend a) :
    Ok V (bindAgent i a s) := by
  have hat : (bindAgent i a s).agentAt = update s.agentAt fd (some a) := by
    unfold bindAgent
    exact Eq.trans (agentAt_modify_of_same _ a fun _ => rfl) (h.agentAt_modify hi _)
  have hfield : ∀ {α : Type} (p : SaslCli ι → α) (j : ι), (∀ c x, p { c with agent := x } = p c) →
      (∀ c n, p { c with agentRef := n } = p c) → p ((bindAgent i a s).cli j) = p (s.cli j) :=
    fun p j h₁ h₂ => (Clients.modify_field _ a j fun c => h₂ c _).trans
      (s.modify_field i j fun c => h₁ c _)
  have href : ∀ j, ((bindAgent i a s).cli j).agentRef = (s.cli j).agentRef + if j = a then 1 else 0 := by
    intro j
    have hi' : ∀ j, ((s.modify i fun c => { c with agent := some a }).cli j).agentRef =
        (s.cli j).agentRef := fun j => s.modify_field (p := SaslCli.agentRef) i j fun _ => rfl
    unfold bindAgent
    by_cases hj : j = a
    · subst hj
      rw [Clients.modify_self, if_pos rfl, hi']
    · rw [Clients.modify_of_ne _ _ hj, if_neg hj, Nat.add_zero, hi']
  refine h.change rfl rfl (fun j => hfield SaslCli.fd j (fun _ _ => rfl) fun _ _ => rfl)
    (fun j hj => ?_) (fun x b hx => ?_) fun b => ?_
  · rw [hfield SaslCli.auth j (fun _ _ => rfl) fun _ _ => rfl] at hj
    refine ⟨hj, fun h0 => ?_⟩
    have hja : j ≠ a := by
      rintro rfl
      exact absurd (hj.symm.trans ha.2) (by decide)
    rw [href, if_neg hja, h0]
  · rw [hat] at hx
    by_cases hxf : x = fd
    · subst hxf
      rw [update_self] at hx
      rw [← some.inj hx]
      exact ha
    · rw [update_of_ne hxf] at hx
      exact h.agents x b hx
  · rw [hat, href]
    exact (tally_update_some_le ..).trans (Nat.add_le_add_right (h.refs b) _)

/-- What is kept while an agent is forgotten. -/
structure Forgets (a : ι) (fds : List ℕ) (s t : Clients ι) : Prop where
  slot : t.slot = s.slot
  alive : t.alive = s.alive
  fd : ∀ j, (t.cli j).fd = (s.cli j).fd
  auth : ∀ j, (t.cli j).auth = (s.cli j).auth
  agentRef : ∀ j, (t.cli j).agentRef = (s.cli j).agentRef
  agentAt : ∀ fd b, t.agentAt fd = some b → s.agentAt fd = some b ∧ (fd ∈ fds → b ≠ a)

lemma forgets_forgetAt (a : ι) (fd : ℕ) (s : Clients ι) : Forgets a [fd] s (forgetAt a s fd) := by
  unfold forgetAt
  split
  · next j hj =>
      split
      · next ha =>
          refine ⟨rfl, rfl, fun k => s.modify_field j k fun _ => rfl,
            fun k => s.modify_field j k fun _ => rfl, fun k => s.modify_field j k fun _ => rfl, ?_⟩
          intro x b hx
          unfold Clients.agentAt at hx ⊢
          rw [s.modify_slot] at hx
          cases hs : s.slot x with
          | none =>
            rw [hs] at hx
            exact absurd hx (by simp)
          | some k =>
            rw [hs] at hx
            have hx' : ((s.modify j fun c => { c with agent := none }).cli k).agent = some b := hx
            by_cases hk : k = j
            · subst hk
              rw [s.modify_self] at hx'
              exact absurd hx' (by simp)
            · rw [s.modify_of_ne _ hk] at hx'
              refine ⟨hx', fun hmem => absurd ?_ hk⟩
              obtain rfl := List.mem_singleton.mp hmem
              exact some.inj (hs.symm.trans hj)
      · next ha =>
          refine ⟨rfl, rfl, fun _ => rfl, fun _ => rfl, fun _ => rfl, fun x b hx => ⟨hx, ?_⟩⟩
          rintro hmem rfl
          obtain rfl := List.mem_singleton.mp hmem
          unfold Clients.agentAt at hx
          rw [hj] at hx
          exact ha hx
  · next hj =>
      refine ⟨rfl, rfl, fun _ => rfl, fun _ => rfl, fun _ => rfl, fun x b hx => ⟨hx, ?_⟩⟩
      rintro hmem rfl
      obtain rfl := List.mem_singleton.mp hmem
      unfold Clients.agentAt at hx
      rw [hj] at hx
      exact absurd hx (by simp)

lemma forgets_foldl (a : ι) (fds : List ℕ) (s : Clients ι) : Forgets a fds s (fds.foldl (forgetAt a) s) := by
  induction fds generalizing s with
  | nil => exact ⟨rfl, rfl, fun _ => rfl, fun _ => rfl, fun _ => rfl, fun x b hx => ⟨hx, by simp⟩⟩
  | cons fd fds ih =>
    have h₁ := forgets_forgetAt a fd s
    have h₂ := ih (forgetAt a s fd)
    refine ⟨h₂.slot.trans h₁.slot, h₂.alive.trans h₁.alive, fun j => (h₂.fd j).trans (h₁.fd j),
      fun j => (h₂.auth j).trans (h₁.auth j), fun j => (h₂.agentRef j).trans (h₁.agentRef j), ?_⟩
    intro x b hx
    obtain ⟨hx₂, hne₂⟩ := h₂.agentAt x b hx
    obtain ⟨hx₁, hne₁⟩ := h₁.agentAt x b hx₂
    refine ⟨hx₁, fun hmem => ?_⟩
    rcases List.mem_cons.mp hmem with e | hmem
    · exact hne₁ (List.mem_singleton.mpr e)
    · exact hne₂ hmem

lemma Ok.lt_of_agentAt (h : Ok V s) {a : ι} (ha : s.agentAt fd = some a) : fd < V.maxConnections := by
  unfold Clients.agentAt at ha
  cases hs : s.slot fd with
  | none =>
    rw [hs] at ha
    exact absurd ha (by simp)
  | some i => exact (h.slots fd i hs).1

lemma ok_forgetAgent (h : Ok V s) (a : ι) :
    Ok V (forgetAgent V a s) ∧ ∀ fd, (forgetAgent V a s).agentAt fd ≠ some a := by
  unfold forgetAgent
  split
  · have hf := forgets_foldl a (List.range V.maxConnections) s
    generalize (List.range V.maxConnections).foldl (forgetAt a) s = t at hf ⊢
    have hat : (t.modify a fun c => { c with agentRef := 0 }).agentAt = t.agentAt :=
      agentAt_modify_of_same t a fun _ => rfl
    have hfd : ∀ j, ((t.modify a fun c => { c with agentRef := 0 }).cli j).fd = (t.cli j).fd :=
      fun j => t.modify_field a j fun _ => rfl
    have hauth : ∀ j, ((t.modify a fun c => { c with agentRef := 0 }).cli j).auth = (t.cli j).auth :=
      fun j => t.modify_field a j fun _ => rfl
    have hne : ∀ fd, t.agentAt fd ≠ some a := by
      intro fd hfd
      obtain ⟨hs, hne⟩ := hf.agentAt fd a hfd
      exact hne (List.mem_range.mpr (h.lt_of_agentAt hs)) rfl
    refine ⟨h.change hf.slot hf.alive (fun j => ?_) (fun j hj => ?_) (fun x b hx => ?_) fun b => ?_,
      fun fd => by rw [hat]; exact hne fd⟩
    · exact (hfd j).trans (hf.fd j)
    · rw [hauth, hf.auth] at hj
      refine ⟨hj, fun h0 => ?_⟩
      by_cases hja : j = a
      · subst hja
        rw [t.modify_self]
      · rw [t.modify_of_ne _ hja, hf.agentRef, h0]
    · rw [hat] at hx
      exact h.agents x b (hf.agentAt x b hx).1
    · rw [hat]
      by_cases hb : b = a
      · subst hb
        have h0 : tally V.maxConnections t.agentAt b = 0 := by
          rw [tally, Finset.card_eq_zero, Finset.filter_eq_empty_iff]
          exact fun fd _ => hne fd
        rw [h0]
        exact Nat.zero_le _
      · rw [t.modify_of_ne _ hb, hf.agentRef]
        exact (tally_mono fun x hx => (hf.agentAt x b hx).1).trans (h.refs b)
  · next h0 =>
      refine ⟨h, fun fd hfd => h0 ?_⟩
      have hpos : 0 < tally V.maxConnections s.agentAt a := by
        apply Finset.card_pos.mpr
        exact ⟨fd, by simp [hfd, h.lt_of_agentAt hfd]⟩
      exact hpos.trans_le (h.refs a)

/-- Every local client that is there is in the array. `s_bsd.c` `LocalClientArray`. -/
def Seated (s : Clients ι) : Prop :=
  ∀ i fd, s.alive i = true → (s.cli i).fd = some fd → s.slot fd = some i

omit [DecidableEq ι] in
lemma Seated.change {s' : Clients ι} (h : Seated s) (hs : Shrinks s s') (hslot : s'.slot = s.slot) :
    Seated s' := by
  intro i fd hi hfd
  rw [hslot]
  exact h i fd (hs.alive i hi) ((hs.fd i).symm.trans hfd)

lemma abortSasl_slot (i : ι) (s : Clients ι) : (abortSasl i s).slot = s.slot := by
  unfold abortSasl
  simp only
  split
  · rfl
  · exact (release_slot_alive ..).1

lemma ok_abort_ite (h : Ok V s) {i : ι} (hi : s.slot fd = some i) (b : Bool) :
    Ok V (if b then abortSasl i s else s) ∧ (if b then abortSasl i s else s).slot = s.slot := by
  split
  · exact ⟨ok_abortSasl h hi, abortSasl_slot i s⟩
  · exact ⟨h, rfl⟩

lemma ok_closeConnection (h : Ok V s) (hseat : Seated s) {i : ι} (hi : s.alive i = true) :
    Ok V (closeConnection i s) ∧ (∀ fd, (closeConnection i s).slot fd ≠ some i) ∧
      ∀ fd j, j ≠ i → s.slot fd = some j → (closeConnection i s).slot fd = some j := by
  unfold closeConnection
  cases hfd : (s.cli i).fd with
  | none =>
    refine ⟨h, fun fd hs => ?_, fun fd j _ hj => hj⟩
    exact absurd (hfd.symm.trans (h.slots fd i hs).2.2) (by simp)
  | some fd =>
    have hslot : s.slot fd = some i := hseat i fd hi hfd
    obtain ⟨habort, hsame⟩ := ok_abort_ite h hslot (s.cli i).userPort
    simp only
    generalize (if (s.cli i).userPort then abortSasl i s else s) = t at habort hsame
    have hold : ∀ x j, update t.slot fd none x = some j → t.slot x = some j := fun x j hx => of_update_none hx
    refine ⟨⟨fun x j hx => habort.slots x j (hold x j hx), fun x a hx => ?_, habort.fresh, fun a => ?_⟩,
      fun x hx => ?_, fun x j hj hx => ?_⟩
    · obtain ⟨j, hj, ha⟩ := bind_eq_some_iff.mp hx
      exact habort.agents x a (bind_eq_some_iff.mpr ⟨j, hold x j hj, ha⟩)
    · refine (tally_mono fun x hx => ?_).trans (habort.refs a)
      obtain ⟨j, hj, ha⟩ := bind_eq_some_iff.mp hx
      exact bind_eq_some_iff.mpr ⟨j, hold x j hj, ha⟩
    · have hti : t.slot x = some i := hold x i hx
      rw [hsame] at hti
      obtain rfl : x = fd := some.inj ((h.slots x i hti).2.2.symm.trans hfd)
      simp at hx
    · have hne : x ≠ fd := by
        rintro rfl
        exact hj (some.inj (hx.symm.trans hslot))
      show update t.slot fd none x = some j
      rw [update_of_ne hne, hsame]
      exact hx

lemma forgetAgent_slot (V : Server) (a : ι) (s : Clients ι) : (forgetAgent V a s).slot = s.slot := by
  unfold forgetAgent
  split
  · exact (forgets_foldl a (List.range V.maxConnections) s).slot
  · rfl

lemma ok_exitClient (h : Ok V s) (hseat : Seated s) {i : ι} (hi : s.alive i = true) :
    Ok V (exitClient V i s) ∧ Seated (exitClient V i s) := by
  obtain ⟨hclose, hgone, hothers⟩ := ok_closeConnection h hseat hi
  obtain ⟨hforget, hagent⟩ := ok_forgetAgent hclose i
  have hslot := forgetAgent_slot V i (closeConnection i s)
  refine ⟨⟨fun fd j hj => ?_, fun fd a ha => ?_, hforget.fresh, hforget.refs⟩, fun j fd hj hfd => ?_⟩
  · obtain ⟨h₁, h₂, h₃⟩ := hforget.slots fd j hj
    have hne : j ≠ i := by
      rintro rfl
      exact hgone fd (hslot ▸ hj)
    refine ⟨h₁, ?_, h₃⟩
    show update (forgetAgent V i (closeConnection i s)).alive i false j = true
    rw [update_of_ne hne]
    exact h₂
  · have hne : a ≠ i := by
      rintro rfl
      exact hagent fd ha
    refine ⟨?_, (hforget.agents fd a ha).2⟩
    show update (forgetAgent V i (closeConnection i s)).alive i false a = true
    rw [update_of_ne hne]
    exact (hforget.agents fd a ha).1
  · have hne : j ≠ i := by
      rintro rfl
      simp [Sasl.exitClient] at hj
    have hshrink := shrinks_exitClient V i s
    have hs : s.slot fd = some j := hseat j fd (hshrink.alive j hj) ((hshrink.fd j).symm.trans hfd)
    show (forgetAgent V i (closeConnection i s)).slot fd = some j
    rw [hslot]
    exact hothers fd j hne hs

lemma ok_checkAuthFinished (h : Ok V s) (hseat : Seated s) {i : ι} (hi : s.slot fd = some i)
    (f : Finish) : Ok V (checkAuthFinished V i s f) ∧ Seated (checkAuthFinished V i s f) := by
  have hshrink := shrinks_checkAuthFinished V i s f
  obtain ⟨habort, hsame⟩ := ok_abort_ite h hi (s.cli i).userPort
  cases f with
  | waits => exact ⟨h, hseat⟩
  | completes => exact ⟨habort, hseat.change hshrink hsame⟩
  | registers =>
    refine ⟨?_, hseat.change hshrink hsame⟩
    unfold checkAuthFinished
    exact habort.modify i (fun _ => rfl) (fun _ => rfl) (fun _ h => absurd h (by simp)) fun _ => rfl
  | killed => exact ok_exitClient h hseat (h.slots fd i hi).2.1

lemma ok_saslReply (h : Ok V s) (hseat : Seated s) (m : SaslMsg ι) {i : ι}
    (hi : s.slot fd = some i) (reply data : Str) (ts : Option Str) :
    Ok V (saslReply V m i reply data ts s) ∧ Seated (saslReply V m i reply data ts s) := by
  unfold saslReply
  split
  · unfold logIn
    simp only
    generalize hs₁ : (s.modify i fun c => { c with
      accCreate := (ts.map atoi).getD c.accCreate
      account := ircdStrncpy c.account data (accountLen + 1) }) = s₁
    have h₁ : Ok V s₁ := by
      rw [← hs₁]
      exact h.modify i (fun _ => rfl) (fun _ => rfl) (fun _ h => h) fun _ => rfl
    have hseat₁ : Seated s₁ := by
      rw [← hs₁]
      exact hseat.change (.modify s i (fun _ => .inl rfl) (fun _ => .inl rfl) fun _ => rfl) rfl
    have hi₁ : s₁.slot fd = some i := by
      rw [← hs₁]
      exact hi
    have h₂ : Ok V (if (s₁.cli i).auth then checkAuthFinished V i s₁ m.finish else s₁) ∧
        Seated (if (s₁.cli i).auth then checkAuthFinished V i s₁ m.finish else s₁) := by
      split
      · exact ok_checkAuthFinished h₁ hseat₁ hi₁ m.finish
      · exact ⟨h₁, hseat₁⟩
    refine ⟨h₂.1.modify i (fun _ => rfl) (fun _ => rfl) (fun _ h => h) fun _ => rfl, ?_⟩
    exact h₂.2.change (.modify _ i (fun _ => .inl rfl) (fun _ => .inl rfl) fun _ => rfl) rfl
  · have hcomplete : Ok V (if data.head? = some 'S' then
        s.modify i fun c => { c with complete := true } else s) ∧
        (if data.head? = some 'S' then s.modify i fun c => { c with complete := true } else s).slot =
          s.slot := by
      split
      · exact ⟨h.modify i (fun _ => rfl) (fun _ => rfl) (fun _ h => h) fun _ => rfl, rfl⟩
      · exact ⟨h, rfl⟩
    have hend := ok_endSession hcomplete.1 (by rw [hcomplete.2]; exact hi)
    refine ⟨?_, hseat.change (shrinks_done i data s) ((release_slot_alive ..).1.trans hcomplete.2)⟩
    unfold done
    exact hend.modify i (fun _ => rfl) (fun _ => rfl) (fun _ h => h) fun _ => rfl
  · exact ⟨h, hseat⟩

lemma seated_bindAgent (h : Seated s) (i a : ι) : Seated (bindAgent i a s) := by
  intro j fd hj hfd
  have hfd' : ((bindAgent i a s).cli j).fd = (s.cli j).fd := by
    unfold bindAgent
    refine Eq.trans (Clients.modify_field (p := SaslCli.fd) _ a j fun _ => rfl) ?_
    exact s.modify_field i j fun _ => rfl
  exact h j fd hj (hfd'.symm.trans hfd)

lemma ok_saslFor (h : Ok V s) (hseat : Seated s) {m : SaslMsg ι} (hm : s.CanSend m.sptr)
    {i : ι} (hi : s.slot fd = some i) (reply data : Str) (ts : Option Str) :
    Ok V (saslFor V m i reply data ts s) ∧ Seated (saslFor V m i reply data ts s) := by
  unfold saslFor
  split
  · have hslot : (bindAgent i m.sptr s).slot fd = some i := hi
    exact ok_saslReply (ok_bindAgent h hi hm) (seated_bindAgent hseat i m.sptr) m hslot reply data ts
  · split
    · exact ok_saslReply h hseat m hi reply data ts
    · exact ⟨h, hseat⟩

lemma msSasl_cases {m : SaslMsg ι} {s' : Clients ι} (hs : msSasl V m s = some s') : s' = s ∨
    ∃ fdstr cookiestr i reply data ts, addressed V m = some (fdstr, cookiestr) ∧ s.slot (u32 (atoi fdstr)) =
    some i ∧ (s.cli i).cookie = u32 (atoi cookiestr) ∧ s' = saslFor V m i reply data ts s := by
  unfold msSasl at hs
  split at hs
  · exact .inl (some.inj hs).symm
  · next fdstr cookiestr hadd =>
      simp only at hs
      split at hs
      · exact absurd hs (by simp)
      · split at hs
        · exact .inl (some.inj hs).symm
        · next i hi =>
            split at hs
            · exact .inl (some.inj hs).symm
            · next hc =>
                split at hs
                · next reply data ext hp =>
                    refine .inr ⟨fdstr, cookiestr, i, reply, data, ext.head?, hadd, hi, ?_, ?_⟩
                    · simpa using hc
                    · exact (some.inj hs).symm
                · exact .inl (some.inj hs).symm

lemma mAuthenticate_cases (V : Server) (i : ι) (a : AuthCmd) (s : Clients ι) :
    ∃ t, (t = s ∨ (s.cli i).cookie = 0 ∧ ∃ cookie, t = s.modify i fun c => { c with cookie := cookie }) ∧
      (mAuthenticate V i a s = t ∨ mAuthenticate V i a s = exitClient V i t ∨
        mAuthenticate V i a s = t.modify i fun c => { c with timer := true }) := by
  unfold mAuthenticate
  split
  · exact ⟨s, .inl rfl, .inl rfl⟩
  · split
    · exact ⟨s, .inl rfl, .inl rfl⟩
    · split
      · exact ⟨s, .inl rfl, .inl rfl⟩
      · split
        · exact ⟨s, .inl rfl, .inl rfl⟩
        · split
          · exact ⟨s, .inl rfl, .inl rfl⟩
          · unfold askAgent
            simp only
            split
            · next h0 =>
                split
                · exact ⟨s, .inl rfl, .inl rfl⟩
                · next cookie _ =>
                    refine ⟨_, .inr ⟨h0, cookie, rfl⟩, ?_⟩
                    split
                    · exact .inr (.inl rfl)
                    · exact .inr (.inr rfl)
            · exact ⟨s, .inl rfl, .inr (.inr rfl)⟩

omit [DecidableEq ι] in
lemma isLocal_iff {i : ι} : s.IsLocal i ↔ ∃ fd, (s.cli i).fd = some fd ∧ s.slot fd = some i := by
  unfold Clients.IsLocal
  cases hfd : (s.cli i).fd with
  | none => simp
  | some fd => simp

lemma ok_cookie (h : Ok V s) (hseat : Seated s) (i : ι) (cookie : ℕ) :
    Ok V (s.modify i fun c => { c with cookie := cookie }) ∧
      Seated (s.modify i fun c => { c with cookie := cookie }) := by
  refine ⟨h.modify i (fun _ => rfl) (fun _ => rfl) (fun _ h => h) fun _ => rfl, fun j fd hj hfd => ?_⟩
  have hfd' : ((s.modify i fun c => { c with cookie := cookie }).cli j).fd = (s.cli j).fd :=
    s.modify_field i j fun _ => rfl
  exact hseat j fd hj (hfd'.symm.trans hfd)

lemma ok_mAuthenticate (h : Ok V s) (hseat : Seated s) {i : ι} (hi : s.IsLocal i) (a : AuthCmd) :
    Ok V (mAuthenticate V i a s) ∧ Seated (mAuthenticate V i a s) := by
  obtain ⟨t, ht, hres⟩ := mAuthenticate_cases V i a s
  obtain ⟨fd, -, hslot⟩ := isLocal_iff.mp hi
  have halive : s.alive i = true := (h.slots fd i hslot).2.1
  have hok : Ok V t ∧ Seated t ∧ t.alive i = true := by
    rcases ht with rfl | ⟨-, cookie, rfl⟩
    · exact ⟨h, hseat, halive⟩
    · exact ⟨(ok_cookie h hseat i cookie).1, (ok_cookie h hseat i cookie).2, halive⟩
  rcases hres with e | e | e
  · rw [e]
    exact ⟨hok.1, hok.2.1⟩
  · rw [e]
    exact ok_exitClient hok.1 hok.2.1 hok.2.2
  · rw [e]
    refine ⟨hok.1.modify i (fun _ => rfl) (fun _ => rfl) (fun _ h => h) fun _ => rfl, ?_⟩
    exact hok.2.1.change (.modify t i (fun _ => .inl rfl) (fun _ => .inl rfl) fun _ => rfl) rfl

lemma Ok.lt_agent_ne (h : Ok V s) {i : ι} (hi : s.alive i = false) (fd : ℕ) : s.agentAt fd ≠ some i := by
  intro ha
  exact absurd (hi.symm.trans (h.agents fd i ha).1) (by decide)

lemma Ok.slot_ne (h : Ok V s) {i : ι} (hi : s.alive i = false) (fd : ℕ) : s.slot fd ≠ some i := by
  intro hs
  exact absurd (hi.symm.trans (h.slots fd i hs).2.1) (by decide)

lemma ok_newClient (h : Ok V s) (hseat : Seated s) {i : ι} (hi : s.alive i = false)
    {slot : ℕ → Option ι} {c : SaslCli ι}
    (hslot : ∀ x j, slot x = some j → (j ≠ i ∧ s.slot x = some j) ∨
      (j = i ∧ x < V.maxConnections ∧ c.fd = some x))
    (hold : ∀ x j, s.slot x = some j → slot x = some j) (hnew : ∀ x, c.fd = some x → slot x = some i)
    (hagent : c.agent = none) (href : c.agentRef = 0) :
    (let s' : Clients ι := { slot := slot
                             cli := update s.cli i c
                             alive := update s.alive i true }
     Ok V s' ∧ Seated s') := by
  intro s'
  have hcli : ∀ j, j ≠ i → s'.cli j = s.cli j := fun j hj => update_of_ne hj ..
  have hself : s'.cli i = c := update_self ..
  have halive : ∀ j, j ≠ i → s'.alive j = s.alive j := fun j hj => update_of_ne hj ..
  have hat : ∀ x a, s'.agentAt x = some a → s.agentAt x = some a := by
    intro x a hx
    obtain ⟨j, hj, ha⟩ := bind_eq_some_iff.mp hx
    rcases hslot x j hj with ⟨hne, hs⟩ | ⟨rfl, -, -⟩
    · rw [hcli j hne] at ha
      exact bind_eq_some_iff.mpr ⟨j, hs, ha⟩
    · rw [hself, hagent] at ha
      exact absurd ha (by simp)
  have hne : ∀ x a, s'.agentAt x = some a → a ≠ i := by
    rintro x a hx rfl
    exact h.lt_agent_ne hi x (hat x a hx)
  refine ⟨⟨fun x j hj => ?_, fun x a hx => ?_, fun j hj => ?_, fun a => ?_⟩, fun j x hj hfd => ?_⟩
  · rcases hslot x j hj with ⟨hne, hs⟩ | ⟨rfl, hlt, hfd⟩
    · rw [halive j hne, hcli j hne]
      exact h.slots x j hs
    · rw [hself]
      exact ⟨hlt, update_self .., hfd⟩
  · obtain ⟨h₁, h₂⟩ := h.agents x a (hat x a hx)
    refine ⟨(halive a (hne x a hx)).trans h₁, ?_⟩
    rw [hcli a (hne x a hx)]
    exact h₂
  · by_cases hji : j = i
    · subst hji
      rw [hself]
      exact href
    · rw [hcli j hji] at hj ⊢
      exact h.fresh j hj
  · by_cases hai : a = i
    · subst hai
      rw [hself, href, Nat.le_zero, tally, Finset.card_eq_zero, Finset.filter_eq_empty_iff]
      exact fun x _ hx => hne x a hx rfl
    · rw [hcli a hai]
      exact (tally_mono fun x hx => hat x a hx).trans (h.refs a)
  · by_cases hji : j = i
    · subst hji
      rw [hself] at hfd
      exact hnew x hfd
    · rw [hcli j hji] at hfd
      rw [halive j hji] at hj
      exact hold x j (hseat j x hj hfd)

lemma ok_step (h : Ok V s) (hseat : Seated s) {e : Event ι} {s' : Clients ι}
    (he : step V s e = some s') : Ok V s' ∧ Seated s' := by
  cases e with
  | connect i fd userPort auth =>
    simp only [step] at he
    split at he
    · next hc =>
        obtain ⟨hi, hfree, hlt⟩ := hc
        rw [← some.inj he]
        refine ok_newClient h hseat hi (fun x j hj => ?_) (fun x j hj => ?_) (fun x hx => ?_) rfl rfl
        · by_cases hx : x = fd
          · subst hx
            rw [update_self] at hj
            exact .inr ⟨(some.inj hj).symm, hlt, rfl⟩
          · rw [update_of_ne hx] at hj
            refine .inl ⟨?_, hj⟩
            rintro rfl
            exact h.slot_ne hi x hj
        · have hx : x ≠ fd := by
            rintro rfl
            exact absurd (hfree.symm.trans hj) (by simp)
          rw [update_of_ne hx]
          exact hj
        · obtain rfl : fd = x := some.inj hx
          exact update_self ..
    · rw [← some.inj he]
      exact ⟨h, hseat⟩
  | introduce i =>
    simp only [step] at he
    split at he
    · next hi =>
        rw [← some.inj he]
        refine ok_newClient h hseat hi (fun x j hj => .inl ⟨?_, hj⟩) (fun x j hj => hj)
          (fun x hx => absurd hx (by simp [newCli])) rfl rfl
        rintro rfl
        exact h.slot_ne hi x hj
    · rw [← some.inj he]
      exact ⟨h, hseat⟩
  | authenticate i a =>
    rw [← some.inj he]
    split
    · next hi => exact ok_mAuthenticate h hseat hi a
    · exact ⟨h, hseat⟩
  | sasl m =>
    simp only [step] at he
    split at he
    · next hm =>
        rcases msSasl_cases he with rfl | ⟨fdstr, cookiestr, i, reply, data, ts, -, hi, -, rfl⟩
        · exact ⟨h, hseat⟩
        · exact ok_saslFor h hseat hm hi reply data ts
    · rw [← some.inj he]
      exact ⟨h, hseat⟩
  | timeout i =>
    rw [← some.inj he]
    split
    · next hi =>
        obtain ⟨fd, -, hslot⟩ := isLocal_iff.mp hi.1
        exact ⟨ok_abortSasl h hslot, hseat.change (shrinks_abortSasl i s) (abortSasl_slot i s)⟩
    · exact ⟨h, hseat⟩
  | finish i f =>
    rw [← some.inj he]
    split
    · next hi =>
        obtain ⟨fd, -, hslot⟩ := isLocal_iff.mp hi.1
        exact ok_checkAuthFinished h hseat hslot f
    · exact ⟨h, hseat⟩
  | exit i =>
    rw [← some.inj he]
    split
    · next hi => exact ok_exitClient h hseat hi
    · exact ⟨h, hseat⟩

lemma ok_after {es : List (Event ι)} (h : after (step V) noClients es = some s) : Ok V s ∧ Seated s := by
  refine run_induction (P := fun _ s => Ok V s ∧ Seated s) ?_ (fun _ _ _ _ _ ih he => ok_step ih.1 ih.2 he) h
  refine ⟨⟨fun fd i hi => absurd hi (by simp [noClients]), fun fd a ha => absurd ha ?_, fun i hi => rfl,
    fun a => ?_⟩, fun i fd hi => absurd hi (by simp [noClients])⟩
  · simp [Clients.agentAt, noClients]
  · rw [tally, Finset.card_eq_zero.mpr (Finset.filter_eq_empty_iff.mpr fun x _ hx =>
      absurd hx (by simp [Clients.agentAt, noClients]))]
    exact Nat.zero_le _

/-! ## Where cookies and agents come from -/

omit [DecidableEq ι] in
lemma Shrinks.isLocal {s' : Clients ι} (h : Shrinks s s') {i : ι} (hi : s'.IsLocal i) : s.IsLocal i := by
  obtain ⟨fd, hfd, hslot⟩ := isLocal_iff.mp hi
  refine isLocal_iff.mpr ⟨fd, (h.fd i).symm.trans hfd, ?_⟩
  rcases h.slot fd with e | e
  · exact e.symm.trans hslot
  · exact absurd (e.symm.trans hslot) (by simp)

omit [DecidableEq ι] in
lemma Shrinks.cookie_eq {s' : Clients ι} (h : Shrinks s s') {i : ι} (hi : (s'.cli i).cookie ≠ 0) :
    (s'.cli i).cookie = (s.cli i).cookie := (h.cookie i).resolve_right hi

omit [DecidableEq ι] in
lemma Shrinks.agent_eq {s' : Clients ι} (h : Shrinks s s') {i a : ι} (hi : (s'.cli i).agent = some a) :
    (s.cli i).agent = some a := by
  rcases h.agent i with e | e
  · exact e.symm.trans hi
  · exact absurd (e.symm.trans hi) (by simp)

lemma step_cases {e : Event ι} {s' : Clients ι} (he : step V s e = some s') : Shrinks s s' ∨
    (∃ i a cookie, e = .authenticate i a ∧ (s.cli i).cookie = 0 ∧
      Shrinks (s.modify i fun c => { c with cookie := cookie }) s') ∨
    (∃ m i fd, e = .sasl m ∧ s.slot fd = some i ∧ (s.cli i).agent = none ∧ Shrinks (bindAgent i m.sptr s) s') ∨
    ∃ i c slot, s.alive i = false ∧ (s'.cli i).cookie = 0 ∧ (s'.cli i).agent = none ∧
      s' = { slot := slot, cli := update s.cli i c, alive := update s.alive i true } ∧
      ∀ x j, j ≠ i → slot x = some j → s.slot x = some j := by
  have hrefl : ∀ {t : Clients ι}, some s = some t → Shrinks s t := fun h => by
    rw [← some.inj h]
    exact .refl s
  cases e with
  | connect i fd userPort auth =>
    simp only [step] at he
    split at he
    · next hc =>
        refine .inr (.inr (.inr ⟨i, _, _, hc.1, ?_, ?_, (some.inj he).symm, ?_⟩))
        · rw [← some.inj he]
          simp [newCli]
        · rw [← some.inj he]
          simp [newCli]
        · intro x j hj hx
          by_cases hxf : x = fd
          · subst hxf
            rw [update_self] at hx
            exact absurd (some.inj hx).symm hj
          · rwa [update_of_ne hxf] at hx
    · exact .inl (hrefl he)
  | introduce i =>
    simp only [step] at he
    split at he
    · next hi =>
        refine .inr (.inr (.inr ⟨i, _, _, hi, ?_, ?_, (some.inj he).symm, fun _ _ _ h => h⟩))
        · rw [← some.inj he]
          simp [newCli]
        · rw [← some.inj he]
          simp [newCli]
    · exact .inl (hrefl he)
  | authenticate i a =>
    simp only [step, Option.some.injEq] at he
    split at he
    · obtain ⟨t, ht, hres⟩ := mAuthenticate_cases V i a s
      have hshrink : Shrinks t s' := by
        rw [← he]
        rcases hres with e | e | e
        · rw [e]
          exact .refl t
        · rw [e]
          exact shrinks_exitClient V i t
        · rw [e]
          exact .modify t i (fun _ => .inl rfl) (fun _ => .inl rfl) fun _ => rfl
      rcases ht with rfl | ⟨h0, cookie, rfl⟩
      · exact .inl hshrink
      · exact .inr (.inl ⟨i, a, cookie, rfl, h0, hshrink⟩)
    · exact .inl (hrefl (congrArg some he))
  | sasl m =>
    simp only [step] at he
    split at he
    · rcases msSasl_cases he with rfl | ⟨fdstr, cookiestr, i, reply, data, ts, -, hi, -, rfl⟩
      · exact .inl (.refl _)
      · unfold saslFor
        split
        · next hag =>
            exact .inr (.inr (.inl ⟨m, i, _, rfl, hi, hag, shrinks_saslReply ..⟩))
        · split
          · exact .inl (shrinks_saslReply ..)
          · exact .inl (.refl s)
    · exact .inl (hrefl he)
  | timeout i =>
    rw [← some.inj he]
    split
    · exact .inl (shrinks_abortSasl i s)
    · exact .inl (.refl s)
  | finish i f =>
    rw [← some.inj he]
    split
    · exact .inl (shrinks_checkAuthFinished V i s f)
    · exact .inl (.refl s)
  | exit i =>
    rw [← some.inj he]
    split
    · exact .inl (shrinks_exitClient V i s)
    · exact .inl (.refl s)

/-- A session in progress: AUTHENTICATE has given the client this cookie, and it has been in the array with it
since. `m_authenticate.c` `m_authenticate`. -/
def InSession (V : Server) (es : List (Event ι)) (i : ι) (cookie : ℕ) : Prop :=
  cookie ≠ 0 ∧ Since (step V) noClients (fun s e => (∃ a, e = .authenticate i a) ∧ (s.cli i).cookie = 0)
    (fun s => s.IsLocal i ∧ (s.cli i).cookie = cookie) es

/-- The agent of a session: a message of it was the first one for the client, and it has been there, as the
agent of the client, since. `ms_sasl`. -/
def BoundTo (V : Server) (es : List (Event ι)) (i a : ι) : Prop :=
  Since (step V) noClients (fun s e => (∃ m : SaslMsg ι, e = .sasl m ∧ m.sptr = a) ∧ (s.cli i).agent = none)
    (fun s => s.IsLocal i ∧ (s.cli i).agent = some a ∧ s.alive a = true) es

lemma isLocal_of_modify {i j : ι} {f : SaslCli ι → SaslCli ι} (h : (s.modify j f).IsLocal i)
    (hf : ∀ c, (f c).fd = c.fd) : s.IsLocal i := by
  rw [isLocal_iff, s.modify_field j i hf, s.modify_slot] at h
  exact isLocal_iff.mpr h

lemma isLocal_of_bindAgent {i j a : ι} (h : (bindAgent j a s).IsLocal i) : s.IsLocal i := by
  unfold bindAgent at h
  exact isLocal_of_modify (isLocal_of_modify h fun _ => rfl) fun _ => rfl

lemma bindAgent_agent (s : Clients ι) (i j a : ι) :
    ((bindAgent j a s).cli i).agent = if i = j then some a else (s.cli i).agent := by
  unfold bindAgent
  refine Eq.trans (Clients.modify_field (p := SaslCli.agent) _ a i fun _ => rfl) ?_
  by_cases hij : i = j
  · subst hij
    rw [if_pos rfl, s.modify_self]
  · rw [if_neg hij, s.modify_of_ne _ hij]

lemma bindAgent_field (s : Clients ι) (i j a : ι) {p : SaslCli ι → α}
    (hp : ∀ c x, p { c with agent := x } = p c) (hp' : ∀ c n, p { c with agentRef := n } = p c) :
    p ((bindAgent j a s).cli i) = p (s.cli i) := by
  unfold bindAgent
  exact Eq.trans (Clients.modify_field _ a i fun c => hp' c _) (s.modify_field j i fun c => hp c _)

lemma isLocal_of_new {i j : ι} {c : SaslCli ι} {slot : ℕ → Option ι} {alive : ι → Bool} (hij : i ≠ j)
    (hold : ∀ x k, k ≠ j → slot x = some k → s.slot x = some k)
    (h : Clients.IsLocal { slot := slot, cli := update s.cli j c, alive := alive } i) : s.IsLocal i := by
  obtain ⟨fd, hfd, hslot⟩ := isLocal_iff.mp h
  refine isLocal_iff.mpr ⟨fd, ?_, hold fd i hij hslot⟩
  simpa [update_of_ne hij] using hfd

lemma inSession_of_cookie {es : List (Event ι)} (h : after (step V) noClients es = some s) {i : ι}
    (hi : s.IsLocal i) (hc : (s.cli i).cookie ≠ 0) : InSession V es i (s.cli i).cookie := by
  refine ⟨hc, since_of_kept ?_ ?_ h ⟨hi, rfl⟩⟩
  · rintro ⟨-, h0⟩
    exact hc h0.symm
  · rintro - t e t' - he ⟨hloc, hck⟩
    rw [← hck] at hc ⊢
    rcases step_cases he with hs | ⟨j, a, cookie, rfl, h0, hs⟩ | ⟨m, j, fd, rfl, -, -, hs⟩ |
      ⟨j, c, slot, -, h0, -, rfl, hold⟩
    · exact .inl ⟨hs.isLocal hloc, (hs.cookie_eq hc).symm⟩
    · by_cases hij : i = j
      · subst hij
        exact .inr ⟨⟨a, rfl⟩, h0⟩
      · have hck' := hs.cookie_eq hc
        rw [t.modify_of_ne _ hij] at hck'
        exact .inl ⟨isLocal_of_modify (hs.isLocal hloc) fun _ => rfl, hck'.symm⟩
    · have hck' : ((bindAgent j m.sptr t).cli i).cookie = (t.cli i).cookie :=
        bindAgent_field t i j m.sptr (fun _ _ => rfl) fun _ _ => rfl
      exact .inl ⟨isLocal_of_bindAgent (hs.isLocal hloc), hck'.symm.trans (hs.cookie_eq hc).symm⟩
    · have hij : i ≠ j := by
        rintro rfl
        exact hc h0
      refine .inl ⟨isLocal_of_new hij hold hloc, ?_⟩
      simp [update_of_ne hij]

lemma boundTo_of_agent {es : List (Event ι)} (h : after (step V) noClients es = some s) {i a : ι}
    (hi : s.IsLocal i) (ha : (s.cli i).agent = some a) : BoundTo V es i a := by
  have halive : ∀ {es' t}, after (step V) noClients es' = some t → t.IsLocal i →
      (t.cli i).agent = some a → t.alive a = true := by
    intro es' t ht hloc hag
    obtain ⟨fd, -, hslot⟩ := isLocal_iff.mp hloc
    exact ((ok_after ht).1.agents fd a (bind_eq_some_iff.mpr ⟨i, hslot, hag⟩)).1
  refine since_of_kept ?_ ?_ h ⟨hi, ha, halive h hi ha⟩
  · rintro ⟨-, h0, -⟩
    exact absurd h0 (by simp [noClients, newCli])
  · rintro es' t e t' ht he ⟨hloc, hag, -⟩
    have hkept : t.IsLocal i → (t.cli i).agent = some a →
        t.IsLocal i ∧ (t.cli i).agent = some a ∧ t.alive a = true :=
      fun h₁ h₂ => ⟨h₁, h₂, halive ht h₁ h₂⟩
    rcases step_cases he with hs | ⟨j, b, cookie, rfl, -, hs⟩ | ⟨m, j, fd, rfl, -, hnone, hs⟩ |
      ⟨j, c, slot, -, -, hnone, rfl, hold⟩
    · exact .inl (hkept (hs.isLocal hloc) (hs.agent_eq hag))
    · have hag' : ((t.modify j fun c => { c with cookie := cookie }).cli i).agent = (t.cli i).agent :=
        t.modify_field j i fun _ => rfl
      exact .inl (hkept (isLocal_of_modify (hs.isLocal hloc) fun _ => rfl)
        (hag'.symm.trans (hs.agent_eq hag)))
    · have hbound := hs.agent_eq hag
      rw [bindAgent_agent] at hbound
      split at hbound
      · next hij =>
          subst hij
          exact .inr ⟨⟨m, rfl, some.inj hbound⟩, hnone⟩
      · exact .inl (hkept (isLocal_of_bindAgent (hs.isLocal hloc)) hbound)
    · have hij : i ≠ j := by
        rintro rfl
        exact absurd (hnone.symm.trans hag) (by simp)
      refine .inl (hkept (isLocal_of_new hij hold hloc) ?_)
      simpa [update_of_ne hij] using hag

/-! ## Isolation -/

/-- What belongs to the session of a client. `client.h` `struct Client`. -/
def session (c : SaslCli ι) : Str × ℤ × Bool × ℕ × Option ι :=
  (c.account, c.accCreate, c.complete, c.cookie, c.agent)

lemma abortSasl_session (i : ι) (s : Clients ι) {j : ι} (hj : j ≠ i) :
    session ((abortSasl i s).cli j) = session (s.cli j) := by
  have htimer : (s.modify i fun c => { c with timer := false }).cli j = s.cli j := s.modify_of_ne _ hj
  unfold abortSasl
  simp only
  split
  · rw [htimer]
  · unfold endSession
    rw [Clients.modify_of_ne _ _ hj, release_field (p := session) _ _ j fun _ _ => rfl, htimer]

lemma abortSasl_auth (i : ι) (s : Clients ι) (j : ι) : ((abortSasl i s).cli j).auth = (s.cli j).auth := by
  have htimer : ((s.modify i fun c => { c with timer := false }).cli j).auth = (s.cli j).auth :=
    s.modify_field i j fun _ => rfl
  unfold abortSasl
  simp only
  split
  · exact htimer
  · rw [endSession_field (p := SaslCli.auth) i _ j (fun _ _ => rfl) fun _ => rfl, htimer]

lemma closeConnection_other (i : ι) (s : Clients ι) : ((closeConnection i s).cli i).auth = (s.cli i).auth ∧
      ∀ j, j ≠ i → session ((closeConnection i s).cli j) = session (s.cli j) := by
  unfold closeConnection
  split
  · show ((if (s.cli i).userPort then abortSasl i s else s).cli i).auth = (s.cli i).auth ∧ ∀ j, j ≠ i →
      session ((if (s.cli i).userPort then abortSasl i s else s).cli j) = session (s.cli j)
    split
    · exact ⟨abortSasl_auth i s i, fun j hj => abortSasl_session i s hj⟩
    · exact ⟨rfl, fun _ _ => rfl⟩
  · exact ⟨rfl, fun _ _ => rfl⟩

lemma exitClient_session (h : Ok V s) (hseat : Seated s) {i : ι} (hi : s.alive i = true)
    (hauth : (s.cli i).auth = true) {j : ι} (hj : j ≠ i) :
    session ((exitClient V i s).cli j) = session (s.cli j) := by
  obtain ⟨hauth', hother⟩ := closeConnection_other i s
  have hclose := (ok_closeConnection h hseat hi).1
  have href : ((closeConnection i s).cli i).agentRef = 0 := hclose.fresh i (hauth'.trans hauth)
  have hforget : forgetAgent V i (closeConnection i s) = closeConnection i s := by
    unfold forgetAgent
    rw [href, if_neg (lt_irrefl 0)]
  show session ((forgetAgent V i (closeConnection i s)).cli j) = _
  rw [hforget]
  exact hother j hj

lemma checkAuthFinished_session (h : Ok V s) (hseat : Seated s) {i : ι} (hi : s.alive i = true)
    (hauth : (s.cli i).auth = true) (f : Finish) {j : ι} (hj : j ≠ i) :
    session ((checkAuthFinished V i s f).cli j) = session (s.cli j) := by
  have habort : session ((if (s.cli i).userPort then abortSasl i s else s).cli j) = session (s.cli j) := by
    split
    · exact abortSasl_session i s hj
    · rfl
  cases f with
  | waits => rfl
  | completes => exact habort
  | registers =>
    unfold checkAuthFinished
    simp only
    rw [Clients.modify_of_ne _ _ hj]
    exact habort
  | killed => exact exitClient_session h hseat hi hauth hj

lemma saslReply_session (h : Ok V s) (hseat : Seated s) (m : SaslMsg ι) {i : ι}
    (hi : s.slot fd = some i) (reply data : Str) (ts : Option Str) {j : ι} (hj : j ≠ i) :
    session ((saslReply V m i reply data ts s).cli j) = session (s.cli j) := by
  unfold saslReply
  split
  · unfold logIn
    simp only
    rw [Clients.modify_of_ne _ _ hj]
    generalize hs₁ : (s.modify i fun c => { c with
      accCreate := (ts.map atoi).getD c.accCreate
      account := ircdStrncpy c.account data (accountLen + 1) }) = s₁
    have hcli : s₁.cli j = s.cli j := by
      rw [← hs₁]
      exact s.modify_of_ne _ hj
    have h₁ : Ok V s₁ := by
      rw [← hs₁]
      exact h.modify i (fun _ => rfl) (fun _ => rfl) (fun _ h => h) fun _ => rfl
    have hseat₁ : Seated s₁ := by
      rw [← hs₁]
      exact hseat.change (.modify s i (fun _ => .inl rfl) (fun _ => .inl rfl) fun _ => rfl) rfl
    have halive : s₁.alive i = true := by
      rw [← hs₁]
      exact (h.slots fd i hi).2.1
    rw [← hcli]
    split
    · next hauth => exact checkAuthFinished_session h₁ hseat₁ halive hauth m.finish hj
    · rfl
  · unfold done endSession
    simp only
    rw [Clients.modify_of_ne _ _ hj, Clients.modify_of_ne _ _ hj,
      release_field (p := session) _ _ j fun _ _ => rfl]
    split
    · rw [s.modify_of_ne _ hj]
    · rfl
  · rfl

lemma msSasl_session (h : Ok V s) (hseat : Seated s) {m : SaslMsg ι} (hm : s.CanSend m.sptr) {s' : Clients ι}
    (hs : msSasl V m s = some s') {j : ι} (hj : session (s'.cli j) ≠ session (s.cli j)) : ∃ fdstr cookiestr,
    addressed V m = some (fdstr, cookiestr) ∧ s.slot (u32 (atoi fdstr)) = some j ∧ (s.cli j).cookie =
    u32 (atoi cookiestr) ∧ ((s.cli j).agent = none ∨ (s.cli j).agent = some m.sptr) := by
  rcases msSasl_cases hs with rfl | ⟨fdstr, cookiestr, i, reply, data, ts, hadd, hi, hc, rfl⟩
  · exact absurd rfl hj
  · have hij : j = i := by
      by_contra hne
      apply hj
      unfold saslFor
      split
      · refine (saslReply_session (ok_bindAgent h hi hm) (seated_bindAgent hseat i m.sptr) m hi reply data
          ts hne).trans ?_
        unfold bindAgent
        refine Eq.trans (Clients.modify_field (p := session) _ m.sptr j fun _ => rfl) ?_
        rw [s.modify_of_ne _ hne]
      · split
        · exact saslReply_session h hseat m hi reply data ts hne
        · rfl
    subst hij
    refine ⟨fdstr, cookiestr, hadd, hi, hc, ?_⟩
    by_contra hag
    rw [not_or] at hag
    apply hj
    unfold saslFor
    split
    · next hnone => exact absurd hnone hag.1
    · next a ha =>
        rw [if_neg]
        rintro rfl
        exact hag.2 ha

/-- The number that a text begins with. C library `strtol`. -/
def written (s : Str) : ℤ :=
  match signedDigits s with
  | (neg, n) => if neg then -n else n

/-- A token that names a client of this server and a cookie. `ms_sasl`. -/
def Names (V : Server) (token : Str) (fd cookie : ℕ) : Prop :=
  ∃ fdstr cookiestr, readToken V.yxx token = some (fdstr, cookiestr) ∧ written fdstr = fd ∧
    written cookiestr = cookie

/-- The condition on a message, if it is for a client of this server: the descriptor is inside the array; and if
it is the descriptor of a client with this cookie, both numbers fit 32 bits and the cookie is not zero.
`ms_sasl`. -/
def Sane (V : Server) (s : Clients ι) (m : SaslMsg ι) : Prop :=
  ∀ fdstr cookiestr, addressed V m = some (fdstr, cookiestr) → u32 (atoi fdstr) < V.maxConnections ∧
    ∀ i, s.slot (u32 (atoi fdstr)) = some i → (s.cli i).cookie = u32 (atoi cookiestr) →
      (0 ≤ written fdstr ∧ written fdstr < 2 ^ 32) ∧ 0 < written cookiestr ∧ written cookiestr < 2 ^ 32

lemma u32_atoi {s : Str} (h0 : 0 ≤ written s) (h : written s < 2 ^ 32) : (u32 (atoi s) : ℤ) = written s := by
  unfold u32 atoi written at *
  generalize signedDigits s = r at *
  obtain ⟨neg, n⟩ := r
  have hclamp : (if neg then max (-(n : ℤ)) (-2 ^ 63) else min (n : ℤ) (2 ^ 63 - 1)) =
      if neg then -(n : ℤ) else n := by
    cases neg with
    | false =>
      simp only [Bool.false_eq_true, if_false] at h h0 ⊢
      omega
    | true =>
      simp only [if_true] at h h0 ⊢
      omega
  simp only at h h0 ⊢
  rw [hclamp, Int.toNat_of_nonneg (Int.emod_nonneg _ (by decide))]
  have hmod := Int.bmod_emod (x := if neg then -(n : ℤ) else n) (m := 2 ^ 32)
  have hmod' : ((2 ^ 32 : ℕ) : ℤ) = 2 ^ 32 := by norm_num
  rw [hmod'] at hmod
  rw [hmod]
  exact Int.emod_eq_of_lt h0 h

omit [DecidableEq ι] in
lemma addressed_eq_some {m : SaslMsg ι} {r : Str × Str} (h : addressed V m = some r) :
    ∃ token, m.params[1]? = some token ∧ readToken V.yxx token = some r := by
  unfold addressed at h
  split at h
  · next target token _ _ _ hp =>
      refine ⟨token, by rw [hp]; rfl, ?_⟩
      split at h
      · exact absurd h (by simp)
      · split at h
        · exact h
        · exact absurd h (by simp)
  · exact absurd h (by simp)

/-- **SASL sessions are isolated.** In every run, a message whose token is sane is looked up inside the array,
and it changes the account, the completion, the cookie or the agent of a client only if the client has a session
in progress, the token names this server, the descriptor of the client and the cookie of the session, and the
message comes from the agent of the session once there is one. -/
theorem sasl_isolated {es : List (Event ι)} (h : after (step V) noClients es = some s) {m : SaslMsg ι}
    (hm : Sane V s m) : ∃ s', step V s (.sasl m) = some s' ∧ ∀ i, session (s'.cli i) ≠ session (s.cli i) →
    ∃ fd cookie token, s.slot fd = some i ∧ (s.cli i).fd = some fd ∧ InSession V es i cookie ∧ m.params[1]? =
    some token ∧ Names V token fd cookie ∧ ((s.cli i).agent = none ∨ BoundTo V es i m.sptr) := by
  obtain ⟨hok, hseat⟩ := ok_after h
  unfold step
  simp only
  split
  · next hsend =>
      have hdef : ∃ s', msSasl V m s = some s' := by
        unfold msSasl
        split
        · exact ⟨s, rfl⟩
        · next fdstr cookiestr hadd =>
            simp only
            rw [if_neg (Nat.not_le.mpr (hm fdstr cookiestr hadd).1)]
            split
            · exact ⟨s, rfl⟩
            · split
              · exact ⟨s, rfl⟩
              · split
                · exact ⟨_, rfl⟩
                · exact ⟨s, rfl⟩
      obtain ⟨s', hs⟩ := hdef
      refine ⟨s', hs, fun i hi => ?_⟩
      obtain ⟨fdstr, cookiestr, hadd, hslot, hcookie, hagent⟩ := msSasl_session hok hseat hsend hs hi
      obtain ⟨token, htoken, hread⟩ := addressed_eq_some hadd
      obtain ⟨⟨hf0, hf⟩, hc0, hc⟩ := (hm fdstr cookiestr hadd).2 i hslot hcookie
      have hfd := (hok.slots _ i hslot).2.2
      have hlocal : s.IsLocal i := isLocal_iff.mpr ⟨_, hfd, hslot⟩
      have hck := u32_atoi (le_of_lt hc0) hc
      have hpos : (s.cli i).cookie ≠ 0 := by
        rw [hcookie]
        omega
      refine ⟨_, _, token, hslot, hfd, inSession_of_cookie h hlocal hpos, htoken,
        ⟨fdstr, cookiestr, hread, (u32_atoi hf0 hf).symm, ?_⟩, ?_⟩
      · rw [hcookie]
        exact hck.symm
      · exact hagent.imp id (boundTo_of_agent h hlocal)
  · exact ⟨s, rfl, fun i hi => absurd rfl hi⟩

/-! ## The token of a session -/

lemma written_digits (n : ℕ) : written (digits n) = n := by
  unfold written
  rw [signedDigits_digits]
  rfl

lemma not_mem_digits {c : Char} (hc : isDigit c = false) (n : ℕ) : c ∉ digits n :=
  fun h => absurd (hc.symm.trans (isDigit_of_digits h)) (by decide)

lemma strchrTail_append {c : Char} {s : Str} (hs : c ∉ s) (t : Str) :
    strchrTail c (s ++ c :: t) = some t := by
  unfold strchrTail
  rw [if_pos (by simp)]
  have hall : ∀ x ∈ s, decide (x ≠ c) = true := fun x hx => decide_eq_true fun e => hs (e ▸ hx)
  rw [List.dropWhile_append_of_pos hall]
  simp

lemma names_saslToken (V : Server) (fd cookie : ℕ) : Names V (saslToken V.yxx fd cookie) fd cookie := by
  refine ⟨digits fd, digits cookie, ?_, written_digits fd, written_digits cookie⟩
  unfold readToken saslToken
  have htake : (V.yxx ++ '!' :: digits fd ++ '.' :: digits cookie).take 2 = V.yxx.take 2 := by
    rw [List.append_assoc, List.take_append_of_le_length V.yxx_length.ge]
  have hfd : strchrTail '!' (V.yxx ++ '!' :: digits fd ++ '.' :: digits cookie) =
      some (digits fd ++ '.' :: digits cookie) := by
    rw [List.append_assoc]
    exact strchrTail_append V.yxx_plain.1 _
  have hcookie : strchrTail '.' (V.yxx ++ '!' :: digits fd ++ '.' :: digits cookie) = some (digits cookie) := by
    apply strchrTail_append
    simp only [List.mem_append, List.mem_cons, not_or]
    exact ⟨V.yxx_plain.2, by decide, not_mem_digits (by decide) fd⟩
  have hbefore : '.' ∉ (V.yxx ++ '!' :: digits fd ++ '.' :: digits cookie).takeWhile (· ≠ '!') := by
    have hall : ∀ x ∈ V.yxx, decide (x ≠ '!') = true :=
      fun x hx => decide_eq_true fun e => V.yxx_plain.1 (e ▸ hx)
    rw [List.append_assoc, List.takeWhile_append_of_pos hall]
    simpa using V.yxx_plain.2
  have hcut : (digits fd ++ '.' :: digits cookie).takeWhile (· ≠ '.') = digits fd := by
    have hall : ∀ x ∈ digits fd, decide (x ≠ '.') = true :=
      fun x hx => decide_eq_true fun e => not_mem_digits (by decide) fd (e ▸ hx)
    rw [List.takeWhile_append_of_pos hall]
    simp
  rw [htake, if_neg (by simp), hfd, hcookie]
  simp only
  rw [if_neg hbefore, hcut]

/-! ## Samples -/

def sampleServer : Server where
  yxx := "AB".toList
  maxConnections := 1024
  yxx_length := rfl
  yxx_plain := by decide
  max_le := by decide

/-- A message of the services with a token. -/
def logInMsg (token : String) : SaslMsg ℕ where
  sptr := 1
  params := ["AB", token, "L", "bob"].map String.toList
  findNServer _ := some true
  finish := .waits
  autoHide := false

def clientAndServices : List (Event ℕ) := [.connect 0 5 true true, .introduce 1]

def authenticatePlain (cookie : ℕ) : AuthCmd where
  cap := true
  arg := some "PLAIN".toList
  iauth := false
  star := true
  found := none
  random := [cookie]

def stateAfter (es : List (Event ℕ)) : Clients ℕ := (after (step sampleServer) noClients es).getD noClients

def oneSession : List (Event ℕ) := clientAndServices ++ [.authenticate 0 (authenticatePlain 77)]

theorem sasl_isolated_bob :
    ∃ s', step sampleServer (stateAfter oneSession) (.sasl (logInMsg "AB!5.77")) = some s' ∧
      (s'.cli 0).account = "bob".toList ∧ ∃ cookie, InSession sampleServer oneSession 0 cookie := by
  have hadd : addressed sampleServer (logInMsg "AB!5.77") = some ("5".toList, "77".toList) := by
    decide +kernel
  have hsane : Sane sampleServer (stateAfter oneSession) (logInMsg "AB!5.77") := by
    intro fdstr cookiestr hadd'
    obtain ⟨rfl, rfl⟩ := Prod.mk.inj (some.inj (hadd.symm.trans hadd'))
    exact ⟨by decide +kernel, fun i _ _ => by decide +kernel⟩
  have hrun : after (step sampleServer) noClients oneSession = some (stateAfter oneSession) := rfl
  obtain ⟨s', hs', hiso⟩ := sasl_isolated hrun hsane
  have haccount : ((step sampleServer (stateAfter oneSession) (.sasl (logInMsg "AB!5.77"))).getD
      noClients |>.cli 0).account = "bob".toList := by decide +kernel
  rw [hs', Option.getD_some] at haccount
  have hold : ((stateAfter oneSession).cli 0).account ≠ "bob".toList := by decide +kernel
  refine ⟨s', hs', haccount, ?_⟩
  obtain ⟨fd, cookie, token, -, -, hsession, -⟩ := hiso 0 fun e =>
    hold ((congrArg Prod.fst e).symm.trans haccount)
  exact ⟨cookie, hsession⟩

/-- A token with the cookie zero logs in a client that has no session, and a token with a large
descriptor is looked up outside the array. -/
theorem sasl_zero_cookie :
    after (step sampleServer) noClients clientAndServices = some (stateAfter clientAndServices) ∧
    (∃ s', step sampleServer (stateAfter clientAndServices) (.sasl (logInMsg "AB!5.0")) = some s' ∧
      session (s'.cli 0) ≠ session ((stateAfter clientAndServices).cli 0)) ∧
    (¬ ∃ cookie, InSession sampleServer clientAndServices 0 cookie) ∧
    step sampleServer (stateAfter clientAndServices) (.sasl (logInMsg "AB!4096.1")) = none := by
  refine ⟨rfl, ⟨(step sampleServer (stateAfter clientAndServices) (.sasl (logInMsg "AB!5.0"))).getD
    noClients, rfl, by decide +kernel⟩, ?_, rfl⟩
  rintro ⟨cookie, -, es₁, e, es₂, s, hes, -, ⟨⟨a, rfl⟩, -⟩, -⟩
  have hmem : Event.authenticate 0 a ∈ clientAndServices := by
    rw [hes]
    simp
  simp [clientAndServices] at hmem

end Nefarious.Sasl
