import Mathlib.Tactic.Push
import Nefarious.Iauthd.Daemon

/-!
# Who is logged in

When a client has sent its credentials, the providers are asked, and the answer is awaited.
-/

namespace Nefarious.Iauthd

open Option (map_eq_some_iff some.inj)

/-! ## Providers -/

/-- What becomes of asking a provider. `auth/types.ts` `AuthProvider`,
`AuthResult`. -/
inductive Response
  | unhealthy
  | throws
  | result (success : Bool) (account : Option Str)
deriving DecidableEq

/-- The account that a provider accepts the credentials for. `auth/types.ts`
`AuthResult`. -/
def Response.accepts : Response → Option Str
  | .result true account => account
  | _ => none

/-- Ask the providers in order until one succeeds: whether one did, and the account. Source:
`auth/manager.ts`. -/
def authenticate : List Response → Bool × Option Str
  | [] => (false, none)
  | .unhealthy :: responses => authenticate responses
  | .throws :: responses => authenticate responses
  | .result true account :: _ => (true, account)
  | .result false _ :: responses => authenticate responses

/-- The account of a success: an empty one is a failure. `iauth.ts`
`handleSASLPlain`. -/
def loginAccount (result : Bool × Option Str) : Option Str :=
  if result.1 then result.2.filter (· ≠ []) else none

lemma accepts_of_loginAccount {responses : List Response} {account : Str}
    (h : loginAccount (authenticate responses) = some account) :
    account ∈ responses.filterMap Response.accepts := by
  induction responses with
  | nil => simp [authenticate, loginAccount] at h
  | cons response responses ih =>
    cases response with
    | unhealthy => simpa [Response.accepts] using ih h
    | throws => simpa [Response.accepts] using ih h
    | result success found =>
      cases success with
      | false => simpa [Response.accepts] using ih h
      | true =>
        have hfound : found = some account := (Option.filter_eq_some_iff.mp h).1
        simp [Response.accepts, hfound]

/-! ## Inputs and the ledger -/

/-- What the daemon reacts to: an authentication ends with the responses of the providers, or something
else happens. `iauth.ts` `handleLine`, `handleSASLPlain`. -/
inductive Input
  | completes (k : ℕ) (responses : List Response)
  | other (e : Event) (h : ∀ k account, e ≠ .authEnds k account)

/-- The event of an input. `iauth.ts` `handleSASLPlain`. -/
def Input.event : Input → Event
  | .completes k responses => .authEnds k (loginAccount (authenticate responses))
  | .other e _ => e

/-- Credentials that were sent. -/
structure Submission where
  ref : ℕ
  id : ℤ
  /-- Which connection of the descriptor sent them. -/
  conn : ℕ
  /-- Account to authenticate, password, account to act as. -/
  credentials : Str × Str × Str
deriving DecidableEq

structure Ledger where
  /-- The connection that a descriptor stands for. -/
  conn : ℤ → ℕ
  awaited : List Submission
  /-- What a provider has accepted, with the account it returned. -/
  accepted : List (Submission × Str)

/-- The credentials that a line submits, with the object of the client. Source:
`iauth.ts` `handleSASLContinue`, `handleSASLPlain`. -/
def submits (cfg : Config) (s : Daemon) (id : ℤ) (args : Str) : Option (ℕ × Str × Str × Str) :=
  match s.clients id with
  | none => none
  | some r =>
    match cfg.saslEnabled, (s.obj r).sasl, behindColon args with
    | true, some a, some data =>
      if toUpperCase (a.mechanism.getD []) = "PLAIN".toList then
        (cfg.decodeSASLPlain data).map fun credentials => (r, credentials)
      else none
    | _, _, _ => none

def Ledger.after (cfg : Config) (s : Daemon) (l : Ledger) : Input → Ledger
  | .completes k responses =>
    { l with
      awaited := l.awaited.eraseIdx k
      accepted := l.accepted ++ l.awaited[k]?.toList.flatMap fun sub =>
        (responses.filterMap Response.accepts).map fun account => (sub, account) }
  | .other (.intro id _ _ _ _) _ => { l with conn := Function.update l.conn id (l.conn id + 1) }
  | .other (.disconnect id) _ => { l with conn := Function.update l.conn id (l.conn id + 1) }
  | .other (.saslContinue id args) _ =>
    match submits cfg s id args with
    | none => l
    | some (r, credentials) => { l with awaited := l.awaited ++ [⟨r, id, l.conn id, credentials⟩] }
  | .other _ _ => l

/-- **Logins are right**: a login is sent for a connection that sent credentials which a provider accepted,
and it names the account that the provider returned for them. -/
def Right (l : Ledger) (outs : List Out) : Prop :=
  ∀ c account, .success c account ∈ outs →
    ∃ sub, (sub, account) ∈ l.accepted ∧ sub.id = c.id ∧ sub.conn = l.conn c.id

/-- The condition on an input: when an authentication ends that is accepted, its descriptor has no entry in
the table, or no `C` or `D` line has come for it since the credentials were sent. -/
def Sound (s : Daemon) (l : Ledger) : Input → Prop
  | .completes k responses => ∀ sub, l.awaited[k]? = some sub →
      (loginAccount (authenticate responses)).isSome → s.clients sub.id = none ∨ sub.conn = l.conn sub.id
  | .other _ _ => True

/-- The states that are reached, with the ledger, by inputs that meet a condition. Source:
`iauth.ts` `handleLine`. -/
inductive Reached (cfg : Config) (ok : Daemon → Ledger → Input → Prop) : Daemon → Ledger → Prop
  | start : Reached cfg ok Daemon.start ⟨fun _ => 0, [], []⟩
  | step {s s' : Daemon} {l : Ledger} {outs : List Out} (h : Reached cfg ok s l) (now : ℤ) (i : Input)
      (hok : ok s l i) (hs : handle cfg now s i.event = some (s', outs)) :
      Reached cfg ok s' (l.after cfg s i)

/-! ## What other events do -/

/-- The client and the account of a login. `iauth.ts` `sendSASLSuccess`. -/
def Out.login : Out → Option (ClientState × Str)
  | .success c account => some (c, account)
  | _ => none

/-- Nothing that is awaited ends or begins, objects keep their descriptors, and an entry of the table is an
old one or of a new object. -/
structure Keeps (s s' : Daemon) : Prop where
  auths : s'.auths = s.auths
  next : s.next ≤ s'.next
  ids : ∀ r < s.next, (s'.obj r).id = (s.obj r).id
  table : ∀ id r, s'.clients id = some r →
    s.clients id = some r ∨ (s.next ≤ r ∧ r < s'.next ∧ (s'.obj r).id = id)

/-- An event that keeps the daemon so and logs nobody in. -/
structure Quiet (s : Daemon) (res : Daemon × List Out) : Prop where
  keeps : Keeps s res.1
  lines : ∀ o ∈ res.2, o.login = none

lemma Keeps.refl (s : Daemon) : Keeps s s := ⟨rfl, le_rfl, fun _ _ => rfl, fun _ _ h => .inl h⟩

variable {s s' : Daemon} {cfg : Config}

lemma Keeps.trans {s₁ s₂ : Daemon} (h : Keeps s s₁) (h' : Keeps s₁ s₂) : Keeps s s₂ := by
  refine ⟨h'.auths.trans h.auths, h.next.trans h'.next, fun r hr => ?_, fun id r hr => ?_⟩
  · rw [h'.ids r (hr.trans_le h.next), h.ids r hr]
  · obtain hold | ⟨hge, hlt, hid⟩ := h'.table id r hr
    · obtain hold' | ⟨hge, hlt, hid⟩ := h.table id r hold
      · exact .inl hold'
      · refine .inr ⟨hge, hlt.trans_le h'.next, ?_⟩
        rw [h'.ids r hlt, hid]
    · exact .inr ⟨h.next.trans hge, hlt, hid⟩

lemma keeps_modify (s : Daemon) (r : ℕ) {f : ClientState → ClientState} (hf : ∀ c, (f c).id = c.id) :
    Keeps s (s.modify r f) := by
  refine ⟨rfl, le_rfl, fun q _ => ?_, fun _ _ h => .inl h⟩
  by_cases hq : q = r
  · subst hq
    rw [Daemon.modify_obj_self, hf]
  · rw [Daemon.modify_obj_of_ne s f hq]

lemma keeps_deleteClient (s : Daemon) (id : ℤ) : Keeps s (s.deleteClient id) := by
  refine ⟨rfl, le_rfl, fun _ _ => rfl, fun id' r h => .inl ?_⟩
  by_cases hid : id' = id
  · subst hid
    rw [Daemon.deleteClient_self] at h
    cases h
  · rwa [Daemon.deleteClient_of_ne s hid] at h

lemma keeps_addClient (s : Daemon) (c : ClientState) : Keeps s (s.addClient c) := by
  refine ⟨rfl, Nat.le_succ _, fun r hr => ?_, fun id r h => ?_⟩
  · rw [Daemon.addClient_obj_of_ne s c (Nat.ne_of_lt hr)]
  · by_cases hid : id = c.id
    · subst hid
      rw [Daemon.addClient_self] at h
      cases h
      exact .inr ⟨le_rfl, Nat.lt_succ_self _, by rw [Daemon.addClient_obj_self]⟩
    · rw [Daemon.addClient_of_ne s hid] at h
      exact .inl h

lemma Quiet.after {s s₁ : Daemon} {res : Daemon × List Out} (h : Keeps s s₁) (h' : Quiet s₁ res) :
    Quiet s res := ⟨h.trans h'.keeps, h'.lines⟩

lemma quiet_handleClientUpdate (cfg : Config) (s : Daemon) (r : ℕ) :
    Quiet s (handleClientUpdate cfg s r) := by
  have hpass : ∀ (s : Daemon) (c : ClientState), Quiet s (clientPass s c) := by
    intro s c
    refine ⟨keeps_deleteClient s c.id, fun o ho => ?_⟩
    obtain ho | ho := List.mem_append.mp ho
    · obtain ⟨mark, -, rfl⟩ := List.mem_map.mp ho
      rfl
    · rw [List.mem_singleton.mp ho]
      rfl
  have hreject : ∀ (s : Daemon) (c : ClientState) (reason : Str), Quiet s (clientReject s c reason) := by
    intro s c reason
    refine ⟨keeps_deleteClient s c.id, fun o ho => ?_⟩
    rw [List.mem_singleton.mp ho]
    rfl
  unfold handleClientUpdate
  split
  · refine Quiet.after (keeps_modify s r (f := fun c => { c with hits := ∅ }) fun _ => rfl) ?_
    simp only
    split
    · exact hpass _ _
    · split
      · exact hreject _ _ _
      · exact hpass _ _
  · exact ⟨.refl s, by simp⟩

lemma quiet_finishLookup (cfg : Config) (s : Daemon) (r : ℕ) (d : Dnsbl) (results : List Str) :
    Quiet s (finishLookup cfg s r d results) := by
  have hresponse : ∀ c : ClientState, (handleDNSBLResponse d results c).id = c.id := by
    intro c
    unfold handleDNSBLResponse
    split <;> rfl
  unfold finishLookup
  refine Quiet.after (keeps_modify s r hresponse) ?_
  simp only
  refine Quiet.after ?_ (quiet_handleClientUpdate cfg _ r)
  apply keeps_modify
  exact fun _ => rfl

lemma keeps_of_same (hauths : s'.auths = s.auths) (hnext : s'.next = s.next)
    (hobj : s'.obj = s.obj) (hclients : s'.clients = s.clients) : Keeps s s' :=
  ⟨hauths, hnext.ge, fun r _ => by rw [hobj], fun id r h => .inl (by rwa [hclients] at h)⟩

lemma quiet_startLookup (cfg : Config) (now : ℤ) (r : ℕ) (reversedIp : Str) (d : Dnsbl) (s : Daemon) :
    Quiet s (startLookup cfg now r reversedIp d s) := by
  unfold startLookup
  refine Quiet.after (keeps_modify s r
    (f := fun c => { c with lookups := c.lookups.set d.cfgNum true }) fun _ => rfl) ?_
  simp only
  split
  · refine Quiet.after ?_ (quiet_finishLookup cfg _ r d _)
    exact keeps_of_same rfl rfl rfl rfl
  · exact ⟨keeps_of_same rfl rfl rfl rfl, by simp⟩
  · exact ⟨keeps_of_same rfl rfl rfl rfl, by simp⟩

lemma quiet_startDNSBLLookups (cfg : Config) (now : ℤ) (s : Daemon) (r : ℕ) :
    Quiet s (startDNSBLLookups cfg now s r) := by
  have hall : ∀ (reversedIp : Str) (ds : List Dnsbl) (s : Daemon),
      Quiet s (startLookups cfg now r reversedIp ds s) := by
    intro reversedIp ds
    induction ds with
    | nil => exact fun s => ⟨.refl s, by simp [startLookups]⟩
    | cons d ds ih =>
      intro s
      rw [startLookups_cons]
      have hfirst := quiet_startLookup cfg now r reversedIp d s
      have hrest := ih (startLookup cfg now r reversedIp d s).1
      refine ⟨hfirst.keeps.trans hrest.keeps, fun o ho => ?_⟩
      obtain ho | ho := List.mem_append.mp ho
      · exact hfirst.lines o ho
      · exact hrest.lines o ho
  unfold startDNSBLLookups
  split
  · exact ⟨.refl s, by simp⟩
  · exact hall _ _ s

lemma quiet_handleSASLStart (cfg : Config) (id : ℤ) (args : Str) (s : Daemon) :
    Quiet s (handleSASLStart cfg id args s) := by
  unfold handleSASLStart
  split
  · exact ⟨.refl s, by simp [Out.login]⟩
  · have hentry : Keeps s (if (s.clients id).isSome then s else s.addClient (newClient id
        "0.0.0.0".toList 0 [] 0 false (some ⟨none, false, none, none⟩))) := by
      split
      · exact .refl s
      · exact keeps_addClient s _
    refine Quiet.after hentry ?_
    simp only
    generalize (if (s.clients id).isSome then s else s.addClient (newClient id
      "0.0.0.0".toList 0 [] 0 false (some ⟨none, false, none, none⟩))) = s₁
    split
    · exact ⟨.refl s₁, by simp⟩
    · next r _ =>
      refine Quiet.after (keeps_modify s₁ r (f := fun c => { c with
        sasl := some (c.sasl.getD ⟨none, false, none, none⟩) }) fun _ => rfl) ?_
      split
      · exact ⟨.refl _, by simp⟩
      · split
        · split
          · exact ⟨.refl _, by simp⟩
          · refine ⟨?_, by simp⟩
            dsimp only
            apply keeps_modify
            exact fun _ => rfl
        · split
          · split
            · refine ⟨?_, by simp [Out.login]⟩
              dsimp only
              apply keeps_modify
              exact fun _ => rfl
            · refine ⟨?_, by simp [Out.login]⟩
              dsimp only
              apply keeps_modify
              exact fun _ => rfl
          · exact ⟨.refl _, by simp⟩

lemma quiet_handle {now : ℤ} {outs : List Out} {e : Event}
    (hs : handle cfg now s e = some (s', outs)) (hends : ∀ k account, e ≠ .authEnds k account)
    (hcontinue : ∀ id args, e ≠ .saslContinue id args) : Quiet s (s', outs) := by
  cases e with
  | authEnds k account => exact absurd rfl (hends k account)
  | saslContinue id args => exact absurd rfl (hcontinue id args)
  | intro id ip port serverIp serverPort =>
    simp only [handle, handleClientIntro] at hs
    split at hs
    · rw [← some.inj hs]
      exact ⟨.refl s, by simp⟩
    · split at hs
      · cases hs
      · rw [← some.inj hs]
        exact Quiet.after (keeps_addClient s _) (quiet_startDNSBLLookups cfg now _ s.next)
  | disconnect id =>
    rw [← some.inj hs]
    exact ⟨keeps_deleteClient s id, by simp⟩
  | auth id account =>
    rw [← some.inj hs]
    unfold handleAuth
    split
    · exact ⟨.refl s, by simp⟩
    · next r _ =>
      refine Quiet.after ?_ (quiet_handleClientUpdate cfg _ r)
      apply keeps_modify
      exact fun _ => rfl
  | hurry id cls =>
    rw [← some.inj hs]
    unfold handleHurry
    split
    · exact ⟨.refl s, by simp⟩
    · next r _ =>
      refine Quiet.after ?_ (quiet_handleClientUpdate cfg _ r)
      apply keeps_modify
      exact fun _ => rfl
  | saslStart id args =>
    rw [← some.inj hs]
    exact quiet_handleSASLStart cfg id args s
  | webirc id password username hostname newIp =>
    rw [← some.inj hs]
    unfold handleWebIRC
    split
    · exact ⟨.refl s, by simp⟩
    · exact Quiet.after (keeps_addClient s _) (quiet_startDNSBLLookups cfg now _ s.next)
  | lookupEnds k answers =>
    rw [← some.inj hs]
    unfold lookupEnds
    split
    · exact ⟨.refl s, by simp⟩
    · next p _ =>
      have hsame : Keeps s (awaitedResults cfg now p answers s).2 := by
        unfold awaitedResults
        split
        · exact keeps_of_same rfl rfl rfl rfl
        · exact keeps_of_same rfl rfl rfl rfl
      refine Quiet.after (hsame.trans ?_) (quiet_finishLookup cfg _ p.ref p.dnsbl _)
      exact keeps_of_same rfl rfl rfl rfl

/-! ## The ledger is kept -/

/-- What is awaited is in the ledger, for objects that know their descriptor. -/
structure Ledgered (s : Daemon) (l : Ledger) : Prop where
  auths : s.auths = l.awaited.map Submission.ref
  awaited : ∀ sub ∈ l.awaited, sub.ref < s.next ∧ (s.obj sub.ref).id = sub.id
  table : ∀ id r, s.clients id = some r → r < s.next ∧ (s.obj r).id = id

lemma Ledgered.keeps {l l' : Ledger} (h : Ledgered s l) (hk : Keeps s s')
    (hl : l'.awaited = l.awaited) : Ledgered s' l' := by
  refine ⟨by rw [hk.auths, h.auths, hl], fun sub hsub => ?_, fun id r hr => ?_⟩
  · rw [hl] at hsub
    obtain ⟨hlt, hid⟩ := h.awaited sub hsub
    exact ⟨hlt.trans_le hk.next, by rw [hk.ids _ hlt, hid]⟩
  · obtain hold | ⟨-, hlt, hid⟩ := hk.table id r hr
    · obtain ⟨hlt, hid⟩ := h.table id r hold
      exact ⟨hlt.trans_le hk.next, by rw [hk.ids r hlt, hid]⟩
    · exact ⟨hlt, hid⟩

lemma handleSASLContinue_eq (cfg : Config) (id : ℤ) (args : Str) (s : Daemon) :
    (∃ r credentials, submits cfg s id args = some (r, credentials) ∧ s.clients id = some r ∧
      handleSASLContinue cfg id args s = ({ s with auths := s.auths ++ [r] }, [])) ∨
    (submits cfg s id args = none ∧ ∃ c, handleSASLContinue cfg id args s = (s, [.fail id c])) := by
  unfold handleSASLContinue submits
  cases hr : s.clients id with
  | none => exact .inr ⟨rfl, none, rfl⟩
  | some r =>
    simp only
    generalize cfg.saslEnabled = enabled, (s.obj r).sasl = sasl, behindColon args = data
    rcases enabled with _ | _
    · exact .inr ⟨rfl, some (s.obj r), rfl⟩
    rcases sasl with _ | a
    · exact .inr ⟨rfl, some (s.obj r), rfl⟩
    cases data with
    | none => exact .inr ⟨rfl, some (s.obj r), rfl⟩
    | some data =>
      by_cases hplain : toUpperCase (a.mechanism.getD []) = "PLAIN".toList
      · cases hdecoded : cfg.decodeSASLPlain data with
        | none =>
          refine .inr ⟨(if_pos hplain).trans ?_, some (s.obj r), if_neg fun h => ?_⟩
          · rw [hdecoded, Option.map_none]
          · rw [hdecoded] at h
            cases h.2
        | some credentials =>
          refine .inl ⟨r, credentials, (if_pos hplain).trans ?_, rfl, if_pos ⟨hplain, ?_⟩⟩
          · rw [hdecoded, Option.map_some]
          · rw [hdecoded, Option.isSome_some]
      · exact .inr ⟨if_neg hplain, some (s.obj r), if_neg fun h => hplain h.1⟩

lemma Ledgered.ends {l l' : Ledger} (h : Ledgered s l) (k : ℕ) (account : Option Str)
    (hl : l'.awaited = l.awaited.eraseIdx k) : Ledgered (authEnds k account s).1 l' := by
  have herase : Ledgered { s with auths := s.auths.eraseIdx k } l' := by
    refine ⟨?_, fun sub hsub => ?_, h.table⟩
    · rw [hl, h.auths, List.eraseIdx_map]
    · rw [hl] at hsub
      exact h.awaited sub (List.mem_of_mem_eraseIdx hsub)
  unfold authEnds
  split
  · next hnone =>
    have hlen : s.auths.eraseIdx k = s.auths := List.eraseIdx_of_length_le (List.getElem?_eq_none_iff.mp hnone)
    rw [hlen] at herase
    exact herase
  · next r _ =>
    split
    · refine herase.keeps ?_ rfl
      dsimp only
      apply keeps_modify
      exact fun _ => rfl
    · exact herase

lemma Ledgered.right_ends {l : Ledger} (h : Ledgered s l) {k : ℕ}
    {responses : List Response} (hok : Sound s l (.completes k responses)) :
    Right (l.after cfg s (.completes k responses))
      (authEnds k (loginAccount (authenticate responses)) s).2 := by
  intro c account hout
  unfold authEnds at hout
  split at hout
  · cases hout
  · next r hr =>
    rw [h.auths, List.getElem?_map] at hr
    obtain ⟨sub, hsub, rfl⟩ := map_eq_some_iff.mp hr
    have hmem : sub ∈ l.awaited := List.mem_of_getElem? hsub
    have hid := (h.awaited sub hmem).2
    split at hout
    · next found hfound =>
      obtain ⟨c', hc', hsame⟩ := map_eq_some_iff.mp (Option.mem_toList.mp hout)
      cases hsame
      -- The client that is found has the descriptor of the one that sent the credentials.
      obtain ⟨r', hr', rfl⟩ := map_eq_some_iff.mp hc'
      simp only [Daemon.modify_clients, hid] at hr'
      have hcid : ((({ s with auths := s.auths.eraseIdx k } : Daemon).modify sub.ref
          fun c => { c with account := some account }).obj r').id = sub.id := by
        obtain ⟨hlt, hid'⟩ := h.table _ r' hr'
        rw [← hid']
        by_cases hrr : r' = sub.ref
        · subst hrr
          rw [Daemon.modify_obj_self]
        · rw [Daemon.modify_obj_of_ne _ _ hrr]
      refine ⟨sub, ?_, hcid.symm, ?_⟩
      · simp only [Ledger.after, hsub]
        simp only [Option.toList_some, List.flatMap_cons, List.flatMap_nil, List.append_nil]
        exact List.mem_append_right _ (List.mem_map.mpr ⟨account, accepts_of_loginAccount hfound, rfl⟩)
      · rw [hcid]
        obtain hnone | hconn := hok sub hsub (by rw [hfound]; rfl)
        · rw [hnone] at hr'
          cases hr'
        · exact hconn
    · simp at hout

lemma Ledgered.step {now : ℤ} {l : Ledger} {outs : List Out} {i : Input}
    (h : Ledgered s l) (hs : handle cfg now s i.event = some (s', outs)) :
    Ledgered s' (l.after cfg s i) ∧ (Sound s l i → Right (l.after cfg s i) outs) := by
  cases i with
  | completes k responses =>
    obtain ⟨rfl, rfl⟩ := Prod.mk.inj (some.inj hs)
    exact ⟨h.ends k _ rfl, fun hok => h.right_ends hok⟩
  | other e hends =>
    by_cases hcontinue : ∀ id args, e ≠ .saslContinue id args
    · have hquiet := quiet_handle hs hends hcontinue
      refine ⟨h.keeps hquiet.keeps ?_, fun _ c account hout => ?_⟩
      · cases e with
        | saslContinue id args => exact absurd rfl (hcontinue id args)
        | _ => rfl
      · cases hquiet.lines _ hout
    · push Not at hcontinue
      obtain ⟨id, args, rfl⟩ := hcontinue
      have hs' : handleSASLContinue cfg id args s = (s', outs) := some.inj hs
      obtain ⟨r, credentials, hsubmits, hr, heq⟩ | ⟨hsubmits, c, heq⟩ := handleSASLContinue_eq cfg id args s
      · obtain ⟨rfl, rfl⟩ := Prod.mk.inj (heq.symm.trans hs')
        simp only [Ledger.after, hsubmits]
        refine ⟨⟨?_, fun sub hsub => ?_, h.table⟩, fun _ c account hout => by cases hout⟩
        · simp [h.auths]
        · obtain hsub | hsub := List.mem_append.mp hsub
          · exact h.awaited sub hsub
          · rw [List.mem_singleton.mp hsub]
            exact h.table id r hr
      · obtain ⟨rfl, rfl⟩ := Prod.mk.inj (heq.symm.trans hs')
        simp only [Ledger.after, hsubmits]
        exact ⟨h, fun _ c account hout => by simp at hout⟩

lemma Reached.ledgered {ok : Daemon → Ledger → Input → Prop} {l : Ledger}
    (h : Reached cfg ok s l) : Ledgered s l := by
  induction h with
  | start => exact ⟨rfl, by simp, by simp [Daemon.start]⟩
  | step _ now i _ hs ih => exact (ih.step hs).1

/-- **Logins are right in every run whose inputs meet the condition**: a login is sent for a connection only if
it sent credentials that a provider accepted, and names the account that the provider returned for them. -/
theorem login_right {cfg : Config} {now : ℤ} {s s' : Daemon} {l : Ledger} {outs : List Out} {i : Input}
    (h : Reached cfg Sound s l) (hok : Sound s l i) (hs : handle cfg now s i.event = some (s', outs)) :
    Right (l.after cfg s i) outs := (h.ledgered.step hs).2 hok

/-! ## Samples -/

/-- A configuration with a provider, in which every PLAIN message is from Alice. -/
def saslConfig : Config where
  dnsbls := []
  blockMsg := []
  cacheTime := 0
  saslEnabled := true
  decodeSASLPlain := fun _ => some ("alice".toList, "secret".toList, [])
  nodup := by decide

/-- The daemon and the ledger after an input. -/
def saslStep (sl : Daemon × Ledger) (i : Input) : Daemon × Ledger :=
  match handle saslConfig 0 sl.1 i.event with
  | none => sl
  | some res => (res.1, sl.2.after saslConfig sl.1 i)

lemma Reached.saslStep {ok : Daemon → Ledger → Input → Prop} {sl : Daemon × Ledger}
    (h : Reached saslConfig ok sl.1 sl.2) (i : Input) (hok : ok sl.1 sl.2 i) :
    Reached saslConfig ok (saslStep sl i).1 (Iauthd.saslStep sl i).2 := by
  unfold Iauthd.saslStep
  split
  · exact h
  · next res hres => exact h.step 0 i hok hres

/-- A client sends the credentials of Alice. -/
def aliceSubmits : Daemon × Ledger :=
  [Input.other (.intro 5 "::1".toList 1000 [] 0) (by simp), .other (.saslStart 5 "S :PLAIN".toList) (by simp),
    .other (.saslContinue 5 ":AGFsaWNl".toList) (by simp)].foldl saslStep
    (Daemon.start, ⟨fun _ => 0, [], []⟩)

def aliceAccepted : Input := .completes 0 [.throws, .result true (some "alice".toList)]

lemma aliceSubmits_reached {ok : Daemon → Ledger → Input → Prop} (hok : ∀ s l e h, ok s l (.other e h)) :
    Reached saslConfig ok aliceSubmits.1 aliceSubmits.2 := by
  have h₁ := @Reached.saslStep ok (Daemon.start, ⟨fun _ => 0, [], []⟩) .start _
    (hok _ _ (.intro 5 "::1".toList 1000 [] 0) (by simp))
  have h₂ := h₁.saslStep _ (hok _ _ (.saslStart 5 "S :PLAIN".toList) (by simp))
  exact h₂.saslStep _ (hok _ _ (.saslContinue 5 ":AGFsaWNl".toList) (by simp))

theorem login_right_alice : ∃ s' c, handle saslConfig 0 aliceSubmits.1 aliceAccepted.event =
        some (s', [.success c "alice".toList]) ∧
      Right (aliceSubmits.2.after saslConfig aliceSubmits.1 aliceAccepted) [.success c "alice".toList] := by
  have hsound : Sound aliceSubmits.1 aliceSubmits.2 aliceAccepted := by
    intro sub hsub _
    have hsub' : sub = ⟨0, 5, 1, "alice".toList, "secret".toList, []⟩ :=
      some.inj (hsub.symm.trans (by decide +kernel))
    rw [hsub']
    exact .inr (by decide +kernel)
  have hrun : handle saslConfig 0 aliceSubmits.1 aliceAccepted.event = some (_, [.success _ _]) := rfl
  exact ⟨_, _, hrun, login_right (aliceSubmits_reached fun _ _ _ _ => trivial) hsound hrun⟩

/-- Alice disconnects while her credentials are being checked, and somebody else gets the descriptor. Source:
none: sample. -/
def strangerConnects : Daemon × Ledger :=
  [Input.other (.disconnect 5) (by simp), .other (.intro 5 "::2".toList 2000 [] 0) (by simp)].foldl saslStep
    aliceSubmits

/-- **A stranger is logged in as Alice**: when her credentials have been accepted, the login is sent for the
connection that has her descriptor now, with its address and port. It has sent no credentials. -/
theorem login_of_stranger : Reached saslConfig (fun _ _ _ => True) strangerConnects.1 strangerConnects.2 ∧
      ∃ s' c, handle saslConfig 0 strangerConnects.1 aliceAccepted.event =
          some (s', [.success c "alice".toList]) ∧
        (c.ip, c.port) = ("::2".toList, 2000) ∧
        ¬ Right (strangerConnects.2.after saslConfig strangerConnects.1 aliceAccepted)
          [.success c "alice".toList] := by
  refine ⟨?_, _, _, rfl, by decide +kernel, fun hright => ?_⟩
  · have h₀ : Reached saslConfig (fun _ _ _ => True) aliceSubmits.1 aliceSubmits.2 :=
      aliceSubmits_reached fun _ _ _ _ => trivial
    have h₁ := h₀.saslStep (.other (.disconnect 5) (by simp)) trivial
    exact h₁.saslStep (.other (.intro 5 "::2".toList 2000 [] 0) (by simp)) trivial
  · obtain ⟨sub, haccepted, -, hconn⟩ := hright _ _ (List.mem_singleton_self _)
    have hall : ∀ p ∈ (strangerConnects.2.after saslConfig strangerConnects.1 aliceAccepted).accepted,
        p.1.conn ≠ 3 := by decide +kernel
    exact hall _ haccepted (hconn.trans (by decide +kernel))

end Nefarious.Iauthd
