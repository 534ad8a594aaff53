import Nefarious.User.Sasl

/-!
# Two backends for SASL

AUTHENTICATE is answered by iauth or by the services.
-/

set_option linter.unusedSectionVars false

namespace Nefarious.Sasl

open Lib User

variable {ι : Type*} [DecidableEq ι]

/-! ## Answers of iauth -/

/-- How much of an account is a name. C library `strcspn` with `": "`. -/
def accountNameLen (account : Str) : ℕ := (account.takeWhile fun c => c ≠ ':' && c ≠ ' ').length

/-- An account. `s_auth.c`. -/
def iauthCmdSaslLoggedin (i : ι) (params : List Str) (s : Clients ι) : Clients ι :=
  match params.head?.getD [] with
  | [] => s
  | account =>
    let len := accountNameLen account
    if accountLen < len then s
    else s.modify i fun c => { c with
      account := ircdStrncpy c.account account (accountLen + 1)
      accCreate :=
        if account[len]? = some ':' then Int.bmod (strtoul (account.drop (len + 1))) (2 ^ 64)
        else c.accCreate }

/-- A success. `s_auth.c`. -/
def iauthCmdSaslDone (i : ι) (s : Clients ι) : Clients ι :=
  s.modify i fun c => { c with complete := true, timer := false }

/-- The commands of iauth for SASL. A challenge, a failure and a list of mechanisms are passed on to the
client, and that is all. `s_auth.c` `iauth_parse`, `iauth_cmd_sasl_challenge`,
`iauth_cmd_sasl_fail`, `iauth_cmd_sasl_mechs`. -/
def iauthCmdSasl (i : ι) (cmd : Char) (params : List Str) (s : Clients ι) : Clients ι :=
  match cmd with
  | 'L' => iauthCmdSaslLoggedin i params s
  | 'Z' => iauthCmdSaslDone i s
  | _ => s

/-! ## Events -/

/-- An answer of a backend. `s_auth.c` `iauth_parse`; `m_sasl.c` `ms_sasl`. -/
inductive Answer
  | challenge (data : Str)
  | login (account : Str) (created : Option Str)
  | success
  | failure
  | mechs (data : Str)

/-- An answer as a command of iauth: a creation time stands behind the account and a colon. Source:
`s_auth.c` `iauth_parse`, `iauth_cmd_sasl_loggedin`. -/
def Answer.iauth : Answer → Char × List Str
  | .challenge data => ('c', [data])
  | .login account created => ('L', [account ++ (created.map (':' :: ·)).getD []])
  | .success => ('Z', [])
  | .failure => ('f', [])
  | .mechs data => ('l', [data])

/-- An answer as parameters of SASL. `m_sasl.c` `ms_sasl`. -/
def Answer.services : Answer → Str × Str × List Str
  | .challenge data => (['C'], data, [])
  | .login account created => (['L'], account, created.toList)
  | .success => (['D'], ['S'], [])
  | .failure => (['D'], ['F'], [])
  | .mechs data => (['M'], data, [])

/-- AUTHENTICATE of a client. `m_authenticate.c` `m_authenticate`. -/
structure Command where
  /-- `CapActive` for `CAP_SASL`. -/
  cap : Bool
  arg : Option Str
  /-- What `ircrandom` gives. -/
  random : List ℕ

/-- AUTHENTICATE where iauth handles SASL. `m_authenticate.c` `m_authenticate`. -/
def Command.viaIauth (cmd : Command) : AuthCmd := ⟨cmd.cap, cmd.arg, true, false, none, cmd.random⟩

/-- AUTHENTICATE where services do that are linked; `star` is whether they are asked by a broadcast. Source:
`m_authenticate.c` `m_authenticate`. -/
def Command.viaServices (star : Bool) (cmd : Command) : AuthCmd :=
  ⟨cmd.cap, cmd.arg, false, star, some false, cmd.random⟩

/-- What happens to a client. An answer says which session it is for, as the services do with a cookie,
and what else SASL depends on. `m_authenticate.c`, `m_sasl.c`, `s_auth.c`. -/
inductive Turn
  | authenticate (cmd : Command)
  | answer (answer : Answer) (cookie : Fin (2 ^ 31)) (finish : Finish) (autoHide : Bool)
  | timeout

/-- SASL from the services `a` for a client and a session. `m_sasl.c` `ms_sasl`. -/
def servicesMsg (V : Server) (a : ι) (fd : ℕ) (answer : Answer) (cookie : Fin (2 ^ 31)) (finish : Finish)
    (autoHide : Bool) : SaslMsg ι where
  sptr := a
  params := V.yxx :: saslToken V.yxx fd cookie :: answer.services.1 :: answer.services.2.1 ::
    answer.services.2.2
  findNServer := fun target => if target = V.yxx then some true else none
  finish := finish
  autoHide := autoHide

/-- One event with iauth as the backend. `m_authenticate.c` `m_authenticate`;
`s_auth.c` `iauth_parse`. -/
def iauthStep (V : Server) (i : ι) (s : Clients ι) : Turn → Option (Clients ι)
  | .authenticate cmd => step V s (.authenticate i cmd.viaIauth)
  | .answer answer _ _ _ => some (if s.IsLocal i then iauthCmdSasl i answer.iauth.1 answer.iauth.2 s else s)
  | .timeout => step V s (.timeout i)

/-- One event with the services `a` as the backend. `m_authenticate.c` `m_authenticate`;
`m_sasl.c` `ms_sasl`. -/
def servicesStep (V : Server) (star : Bool) (i a : ι) (fd : ℕ) (s : Clients ι) : Turn → Option (Clients ι)
  | .authenticate cmd => step V s (.authenticate i (cmd.viaServices star))
  | .answer answer cookie finish autoHide => msSasl V (servicesMsg V a fd answer cookie finish autoHide) s
  | .timeout => step V s (.timeout i)

/-- Whether AUTHENTICATE begins an exchange. `m_authenticate.c` `m_authenticate` (`first`). -/
def begins (s : Clients ι) (i : ι) (a : AuthCmd) : Bool :=
  a.cap && (a.arg.elim false fun arg => arg.length ≤ 400) && !(s.cli i).complete &&
    routed a (s.cli i).agent && (s.cli i).cookie == 0

/-- A client has the same session with both backends. -/
structure Agree (i : ι) (s t : Clients ι) : Prop where
  cookie : (s.cli i).cookie = 0 ↔ (t.cli i).cookie = 0
  timer : (s.cli i).timer = (t.cli i).timer
  complete : (s.cli i).complete = (t.cli i).complete
  account : (s.cli i).account = (t.cli i).account
  accCreate : (s.cli i).accCreate = (t.cli i).accCreate
  begins : ∀ cmd star, begins s i (Command.viaIauth cmd) = Sasl.begins t i (cmd.viaServices star)

/-- An account that both backends set: a name that is not too long, without a creation time. -/
def PlainAccount (account : Str) : Prop :=
  account ≠ [] ∧ accountNameLen account ≤ accountLen ∧ account[accountNameLen account]? ≠ some ':'

/-- The condition on an event: no success; no failure of a session in progress; and an account is plain and
comes in a session in progress, while the registration waits for something else. -/
def Sound (i : ι) (s : Clients ι) : Turn → Prop
  | .answer (.login account created) cookie finish _ => s.IsLocal i →
      created = none ∧ PlainAccount account ∧ cookie = (s.cli i).cookie ∧
        ((s.cli i).auth = true → finish = .waits)
  | .answer .success _ _ _ => ¬ s.IsLocal i
  | .answer .failure cookie _ _ => s.IsLocal i → cookie ≠ (s.cli i).cookie
  | _ => True

/-- A run whose events all meet the condition. -/
def SoundRun (V : Server) (i : ι) : Clients ι → List Turn → Prop
  | _, [] => True
  | s, e :: es => Sound i s e ∧ ∀ s', iauthStep V i s e = some s' → SoundRun V i s' es

/-! ## Both backends -/

/-- A client without what only the services use. -/
def core (c : SaslCli ι) : SaslCli ι := { c with agent := none, agentRef := 0, hidden := false }

/-- How the clients of both runs are related. -/
structure Alike (i a : ι) (fd : ℕ) (s t : Clients ι) : Prop where
  slot : t.slot = s.slot
  core : core (t.cli i) = Sasl.core (s.cli i)
  fd_eq : (s.cli i).fd = some fd
  place : s.slot fd = some i ∨ s.slot fd = none
  agent : (t.cli i).agent = none ∨ (t.cli i).agent = some a

section
variable {V : Server} {i a : ι} {fd : ℕ} {s t : Clients ι}

lemma Alike.field {α : Type*} (h : Alike i a fd s t) {p : SaslCli ι → α}
    (hp : ∀ c : SaslCli ι, p (Sasl.core c) = p c) : p (t.cli i) = p (s.cli i) := by
  rw [← hp (t.cli i), h.core, hp]

lemma Alike.isLocal_iff (h : Alike i a fd s t) : t.IsLocal i ↔ s.IsLocal i := by
  unfold Clients.IsLocal
  rw [h.field (p := SaslCli.fd) fun _ => rfl, h.slot]

lemma Alike.slot_of_isLocal (h : Alike i a fd s t) (hi : s.IsLocal i) : s.slot fd = some i := by
  unfold Clients.IsLocal at hi
  rw [h.fd_eq] at hi
  exact hi

lemma Alike.modify (h : Alike i a fd s t) {f g : SaslCli ι → SaslCli ι}
    (hcore : Sasl.core (g (t.cli i)) = Sasl.core (f (s.cli i))) (hfd : ∀ c, (f c).fd = c.fd)
    (hagent : ∀ c, (g c).agent = c.agent ∨ (g c).agent = none) :
    Alike i a fd (s.modify i f) (t.modify i g) := by
  refine ⟨h.slot, ?_, ?_, h.place, ?_⟩
  · rw [Clients.modify_self, Clients.modify_self]
    exact hcore
  · rw [Clients.modify_self, hfd]
    exact h.fd_eq
  · rw [Clients.modify_self]
    obtain hsame | hnone := hagent (t.cli i)
    · rw [hsame]
      exact h.agent
    · exact .inl hnone

lemma Alike.endSession (h : Alike i a fd s t) : Alike i a fd (endSession i s) (Sasl.endSession i t) := by
  have hrelease : Alike i a fd (release (s.cli i).agent s) (release (t.cli i).agent t) := by
    refine ⟨?_, ?_, ?_, ?_, ?_⟩
    · rw [(release_slot_alive _ t).1, (release_slot_alive _ s).1]
      exact h.slot
    · rw [release_field (p := Sasl.core) _ t i fun _ _ => rfl,
        release_field (p := Sasl.core) _ s i fun _ _ => rfl]
      exact h.core
    · rw [release_field (p := SaslCli.fd) _ s i fun _ _ => rfl]
      exact h.fd_eq
    · rw [(release_slot_alive _ s).1]
      exact h.place
    · rw [release_field (p := SaslCli.agent) _ t i fun _ _ => rfl]
      exact h.agent
  refine hrelease.modify ?_ (fun _ => rfl) fun _ => .inr rfl
  have hcore := congrArg (fun c : SaslCli ι => { c with cookie := 0 }) hrelease.core
  exact hcore

lemma Alike.abortSasl (h : Alike i a fd s t) : Alike i a fd (abortSasl i s) (Sasl.abortSasl i t) := by
  have htimer : Alike i a fd (s.modify i fun c => { c with timer := false })
      (t.modify i fun c => { c with timer := false }) := by
    refine h.modify ?_ (fun _ => rfl) fun _ => .inl rfl
    exact congrArg (fun c : SaslCli ι => { c with timer := false }) h.core
  unfold Sasl.abortSasl
  simp only
  rw [htimer.field (p := SaslCli.cookie) fun _ => rfl, htimer.field (p := SaslCli.complete) fun _ => rfl]
  split
  · exact htimer
  · exact htimer.endSession

lemma forgetAgent_core (V : Server) (b : ι) (s : Clients ι) (j : ι) :
    core ((forgetAgent V b s).cli j) = core (s.cli j) := by
  have hfold : ∀ (fds : List ℕ) (s : Clients ι), core ((fds.foldl (forgetAt b) s).cli j) = core (s.cli j) := by
    intro fds
    induction fds with
    | nil => exact fun _ => rfl
    | cons x fds ih =>
      intro s
      rw [List.foldl_cons, ih]
      unfold forgetAt
      split
      · split
        · exact s.modify_field (p := core) _ j fun _ => rfl
        · rfl
      · rfl
  unfold forgetAgent
  split
  · refine Eq.trans (Clients.modify_field (p := core) _ b j ?_) (hfold _ s)
    exact fun _ => rfl
  · rfl

lemma Alike.exitClient (h : Alike i a fd s t) : Alike i a fd (exitClient V i s) (Sasl.exitClient V i t) := by
  have habort : Alike i a fd (if (s.cli i).userPort then Sasl.abortSasl i s else s)
      (if (t.cli i).userPort then Sasl.abortSasl i t else t) := by
    rw [h.field (p := SaslCli.userPort) fun _ => rfl]
    split
    · exact h.abortSasl
    · exact h
  have hexit : ∀ {s : Clients ι}, (s.cli i).fd = some fd → (Sasl.exitClient V i s).slot =
        Function.update (if (s.cli i).userPort then Sasl.abortSasl i s else s).slot fd none ∧
      Sasl.core ((Sasl.exitClient V i s).cli i) =
        Sasl.core ((if (s.cli i).userPort then Sasl.abortSasl i s else s).cli i) := by
    intro s hfd
    unfold Sasl.exitClient closeConnection
    simp only [hfd, forgetAgent_slot, forgetAgent_core]
    exact ⟨trivial, trivial⟩
  obtain ⟨hslot, hcore⟩ := hexit h.fd_eq
  obtain ⟨hslot', hcore'⟩ := hexit ((h.field (p := SaslCli.fd) fun _ => rfl).trans h.fd_eq)
  refine ⟨?_, ?_, ?_, ?_, ?_⟩
  · rw [hslot, hslot', habort.slot]
  · rw [hcore, hcore', habort.core]
  · rw [(shrinks_exitClient V i s).fd i]
    exact h.fd_eq
  · right
    rw [hslot, Function.update_self]
  · obtain hsame | hnone := (shrinks_exitClient V i t).agent i
    · rw [hsame]
      exact h.agent
    · exact .inl hnone

lemma routed_viaServices (cmd : Command) (star : Bool) (agent : Option ι) :
    routed (cmd.viaServices star) agent = true := by
  cases agent <;> simp [routed, Command.viaServices]

lemma Alike.authenticate (h : Alike i a fd s t) (star : Bool) (cmd : Command) :
    Alike i a fd (mAuthenticate V i cmd.viaIauth s) (mAuthenticate V i (cmd.viaServices star) t) := by
  have hask : ∀ {s t : Clients ι}, Alike i a fd s t →
      Alike i a fd (s.modify i fun c => { c with timer := true })
        (t.modify i fun c => { c with timer := true }) := fun h =>
    h.modify (congrArg (fun c : SaslCli ι => { c with timer := true }) h.core) (fun _ => rfl)
      fun _ => .inl rfl
  unfold mAuthenticate
  rw [routed_viaServices, h.field (p := SaslCli.complete) fun _ => rfl]
  simp only [Command.viaIauth, Command.viaServices, routed, Bool.true_or, Bool.not_true,
    Bool.false_eq_true, if_false]
  split
  · exact h
  · split
    · exact h
    · next arg _ =>
      split
      · exact h
      · split
        · exact h
        · unfold askAgent
          simp only [h.field (p := SaslCli.cookie) fun _ => rfl]
          split
          · split
            · exact h
            · next cookie _ =>
              have hcookie : Alike i a fd (s.modify i fun c => { c with cookie := cookie })
                  (t.modify i fun c => { c with cookie := cookie }) :=
                h.modify (congrArg (fun c : SaslCli ι => { c with cookie := cookie }) h.core)
                  (fun _ => rfl) fun _ => .inl rfl
              split
              · exact hcookie.exitClient
              · exact hask hcookie
          · exact hask h

lemma msSasl_servicesMsg (hfd : fd < V.maxConnections) (answer : Answer) (cookie : Fin (2 ^ 31))
    (finish : Finish) (autoHide : Bool) :
    msSasl V (servicesMsg V a fd answer cookie finish autoHide) t = some (match t.slot fd with
      | none => t
      | some j =>
        if (t.cli j).cookie = cookie then
          saslFor V (servicesMsg V a fd answer cookie finish autoHide) j answer.services.1
            answer.services.2.1 answer.services.2.2.head? t
        else t) := by
  obtain ⟨fdstr, cookiestr, hread, hwfd, hwcookie⟩ := names_saslToken V fd cookie
  have hmax := V.max_le
  have hfd32 : u32 (atoi fdstr) = fd := by
    have hnum := u32_atoi (s := fdstr) (by omega) (by omega)
    omega
  have hcookie32 : u32 (atoi cookiestr) = cookie := by
    have hlt := cookie.isLt
    have hnum := u32_atoi (s := cookiestr) (by omega) (by omega)
    omega
  have htarget : V.yxx ≠ ['*'] := by
    intro heq
    have hlen := V.yxx_length
    rw [heq] at hlen
    cases hlen
  have haddr : addressed V (servicesMsg V a fd answer cookie finish autoHide) = some (fdstr, cookiestr) := by
    simp [addressed, servicesMsg, htarget, hread]
  unfold msSasl
  rw [haddr]
  simp only
  rw [hfd32, hcookie32, if_neg (Nat.not_le.mpr hfd)]
  cases t.slot fd with
  | none => rfl
  | some j =>
    simp only
    by_cases hc : (t.cli j).cookie = cookie
    · rw [if_pos hc, if_neg (not_not.mpr hc)]
      rfl
    · rw [if_neg hc, if_pos hc]

lemma Alike.saslFor (h : Alike i a fd s t) {m : SaslMsg ι} (hm : m.sptr = a) (reply data : Str)
    (ts : Option Str) :
    ∃ t', Alike i a fd s t' ∧ saslFor V m i reply data ts t = saslReply V m i reply data ts t' := by
  unfold Sasl.saslFor
  obtain hnone | hagent := h.agent
  · refine ⟨bindAgent i a t, ⟨h.slot, ?_, h.fd_eq, h.place, .inr ?_⟩, ?_⟩
    · rw [bindAgent_field (p := Sasl.core) t i i a (fun _ _ => rfl) fun _ _ => rfl]
      exact h.core
    · rw [bindAgent_agent, if_pos rfl]
    · rw [hnone, hm]
  · refine ⟨t, h, ?_⟩
    rw [hagent]
    exact if_pos hm.symm

lemma Alike.login (h : Alike i a fd s t) {account : Str} (hplain : PlainAccount account)
    {m : SaslMsg ι} (hwaits : (s.cli i).auth = true → m.finish = .waits) :
    Alike i a fd (iauthCmdSaslLoggedin i [account] s) (logIn V m i account none t) := by
  obtain ⟨hne, hlen, hcolon⟩ := hplain
  have hiauth : iauthCmdSaslLoggedin i [account] s = s.modify i fun c => { c with
      account := ircdStrncpy c.account account (accountLen + 1) } := by
    unfold iauthCmdSaslLoggedin
    cases account with
    | nil => exact absurd rfl hne
    | cons x xs =>
      simp only [List.head?_cons, Option.getD_some]
      rw [if_neg (Nat.not_lt.mpr hlen)]
      simp only [if_neg hcolon]
  have hset : Alike i a fd
      (s.modify i fun c => { c with account := ircdStrncpy c.account account (accountLen + 1) })
      (t.modify i fun c => { c with account := ircdStrncpy c.account account (accountLen + 1) }) :=
    h.modify (congrArg (fun c : SaslCli ι => { c with
      account := ircdStrncpy c.account account (accountLen + 1) }) h.core) (fun _ => rfl) fun _ => .inl rfl
  have hauth : ((t.modify i fun c => { c with
      account := ircdStrncpy c.account account (accountLen + 1) }).cli i).auth = (s.cli i).auth := by
    rw [Clients.modify_self]
    exact h.field (p := SaslCli.auth) fun _ => rfl
  rw [hiauth]
  unfold logIn
  simp only [Option.map_none, Option.getD_none]
  generalize (t.modify i fun c => { c with
    account := ircdStrncpy c.account account (accountLen + 1) }) = t₁ at hset hauth ⊢
  have hfinish : (if (t₁.cli i).auth then checkAuthFinished V i t₁ m.finish else t₁) = t₁ := by
    split
    · next hreg =>
      rw [hwaits (hauth.symm.trans hreg)]
      rfl
    · rfl
  rw [hfinish]
  refine ⟨hset.slot, ?_, hset.fd_eq, hset.place, ?_⟩
  · rw [Clients.modify_self]
    exact hset.core
  · rw [Clients.modify_self]
    exact hset.agent

lemma Alike.step (h : Alike i a fd s t) (hfd : fd < V.maxConnections) (star : Bool) {e : Turn}
    (hsound : Sound i s e) : ∃ s' t', iauthStep V i s e = some s' ∧ servicesStep V star i a fd t e = some t' ∧
    Alike i a fd s' t' := by
  cases e with
  | authenticate cmd =>
    refine ⟨_, _, rfl, rfl, ?_⟩
    rw [if_congr h.isLocal_iff rfl rfl]
    split
    · exact h.authenticate star cmd
    · exact h
  | timeout =>
    refine ⟨_, _, rfl, rfl, ?_⟩
    rw [h.field (p := SaslCli.timer) fun _ => rfl, if_congr (and_congr_left' h.isLocal_iff) rfl rfl]
    split
    · exact h.abortSasl
    · exact h
  | answer answer cookie finish autoHide =>
    refine ⟨_, _, rfl, msSasl_servicesMsg hfd answer cookie finish autoHide, ?_⟩
    rw [h.slot]
    obtain hplace | hplace := h.place
    · have hlocal : s.IsLocal i := by
        unfold Clients.IsLocal
        rw [h.fd_eq]
        exact hplace
      obtain ⟨t', halike, hfor⟩ := h.saslFor (V := V)
        (m := servicesMsg V a fd answer cookie finish autoHide) rfl answer.services.1
        answer.services.2.1 answer.services.2.2.head?
      rw [hplace, if_pos hlocal]
      simp only
      rw [hfor, h.field (p := SaslCli.cookie) fun _ => rfl]
      cases answer with
      | challenge data =>
        split
        · exact halike
        · exact h
      | mechs data =>
        split
        · exact halike
        · exact h
      | success => exact absurd hlocal hsound
      | failure =>
        rw [if_neg fun hcookie => hsound hlocal hcookie.symm]
        exact h
      | login account created =>
        obtain ⟨rfl, hplain, hcookie, hwaits⟩ := hsound hlocal
        rw [if_pos hcookie.symm]
        simp only [Answer.iauth, Option.map_none, Option.getD_none, List.append_nil]
        exact halike.login hplain hwaits
    · have hgone : ¬ s.IsLocal i := by
        intro hlocal
        rw [h.slot_of_isLocal hlocal] at hplace
        cases hplace
      rw [hplace, if_neg hgone]
      exact h

lemma Alike.agree (h : Alike i a fd s t) : Agree i s t := by
  have hcookie := h.field (p := SaslCli.cookie) fun _ => rfl
  have hcomplete := h.field (p := SaslCli.complete) fun _ => rfl
  refine ⟨by rw [hcookie], (h.field (p := SaslCli.timer) fun _ => rfl).symm, hcomplete.symm,
    (h.field (p := SaslCli.account) fun _ => rfl).symm,
    (h.field (p := SaslCli.accCreate) fun _ => rfl).symm, fun cmd star => ?_⟩
  unfold begins
  rw [routed_viaServices, hcookie, hcomplete]
  rfl

end

/-- **The backends agree** in every run in which no answer is a success, none is a failure of a session in
progress, and every account is plain and comes in a session in progress, while the registration waits for
something else: after every event, the session of the client is the same, and so is what its next AUTHENTICATE
begins. -/
theorem backends_agree (V : Server) {i a : ι} {fd : ℕ} (hfd : fd < V.maxConnections) (star : Bool)
    (es : List Turn) : ∀ {s : Clients ι}, s.slot fd = some i → (s.cli i).fd = some fd → (s.cli i).agent = none →
    SoundRun V i s es → ∃ s' t', after (iauthStep V i) s es = some s' ∧
    after (servicesStep V star i a fd) s es = some t' ∧ Agree i s' t' := by
  have hrun : ∀ (es : List Turn) {s t : Clients ι}, Alike i a fd s t → SoundRun V i s es →
      ∃ s' t', after (iauthStep V i) s es = some s' ∧ after (servicesStep V star i a fd) t es = some t' ∧
        Alike i a fd s' t' := by
    intro es
    induction es with
    | nil => exact fun h _ => ⟨_, _, rfl, rfl, h⟩
    | cons e es ih =>
      intro s t h hsound
      obtain ⟨s₁, t₁, hs₁, ht₁, h₁⟩ := h.step hfd star hsound.1
      obtain ⟨s₂, t₂, hs₂, ht₂, h₂⟩ := ih h₁ (hsound.2 s₁ hs₁)
      refine ⟨s₂, t₂, ?_, ?_, h₂⟩
      · rw [after, List.foldlM_cons, hs₁]
        exact hs₂
      · rw [after, List.foldlM_cons, ht₁]
        exact ht₂
  intro s hslot hfd hagent hsound
  obtain ⟨s', t', hs', ht', h⟩ := hrun es ⟨rfl, rfl, hfd, .inl hslot, .inl hagent⟩ hsound
  exact ⟨s', t', hs', ht', h.agree⟩

/-! ## Samples -/

def beginPlain : Turn := .authenticate ⟨true, some "PLAIN".toList, [77]⟩

def logInBob : List Turn :=
  [beginPlain, .answer (.challenge "+".toList) 77 .waits false,
    .answer (.login "bob".toList none) 77 .waits false]

theorem backends_agree_bob : ∃ s' t', after (iauthStep sampleServer 0) (stateAfter clientAndServices) logInBob =
    some s' ∧ after (servicesStep sampleServer true 0 1 5) (stateAfter clientAndServices) logInBob = some t' ∧
    Agree 0 s' t' := by
  refine backends_agree sampleServer (by decide) true logInBob rfl rfl rfl
    ⟨trivial, fun s₁ h₁ => ⟨trivial, fun s₂ h₂ => ⟨fun _ => ?_, fun _ _ => trivial⟩⟩⟩
  rw [← Option.some.inj h₂, ← Option.some.inj h₁]
  exact ⟨rfl, by unfold PlainAccount; decide +kernel, by decide +kernel, fun _ => rfl⟩

/-- A session that one answer follows leaves the client in states that can be told apart. -/
def DifferAfter (answer : Answer) : Prop :=
  ∃ s' t', after (iauthStep sampleServer 0) (stateAfter clientAndServices)
      [beginPlain, .answer answer 77 .waits false] = some s' ∧
    after (servicesStep sampleServer true 0 1 5) (stateAfter clientAndServices)
      [beginPlain, .answer answer 77 .waits false] = some t' ∧ ¬ Agree 0 s' t'

/-- **The backends differ** after a failure, after a success and after a login with a creation time. With iauth,
the cookie and the timeout of a session that failed remain, so the next AUTHENTICATE continues it; the cookie of
a session that succeeded remains; and the creation time is part of the account. -/
theorem backends_differ :
    DifferAfter .failure ∧ DifferAfter .success ∧ DifferAfter (.login "bob".toList (some "1000".toList)) := by
  refine ⟨?_, ?_, ?_⟩
  · exact ⟨_, _, rfl, rfl, fun h => absurd h.cookie (by decide +kernel)⟩
  · exact ⟨_, _, rfl, rfl, fun h => absurd h.cookie (by decide +kernel)⟩
  · exact ⟨_, _, rfl, rfl, fun h => absurd h.account (by decide +kernel)⟩

end Nefarious.Sasl
