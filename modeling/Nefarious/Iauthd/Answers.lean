import Nefarious.Iauthd.Daemon

/-!
# Every client is answered once

The ircd's view of the connected clients is kept beside the daemon: a client is introduced, may be given a new
address and a Hurry, is answered, and disconnects.
-/

namespace Nefarious.Iauthd

open Option (map_eq_some_iff map_some some_inj some_ne_none)
open List (map_cons mem_append mem_singleton)
open Function (update_of_ne update_self)

/-! ## The view of the ircd -/

/-- A connected client. -/
structure Conn where
  ip : Str
  port : ℕ
  hurry : Bool
  answered : Bool
  deriving DecidableEq

/-- The connected clients by descriptor. -/
abbrev View := ℤ → Option Conn

/-- What a line says. `s_auth.c` `sendto_iauth`. -/
def View.line (v : View) : Event → View
  | .intro id ip port _ _ => Function.update v id (some ⟨ip, port, false, false⟩)
  | .disconnect id => Function.update v id none
  | .hurry id _ => Function.update v id ((v id).map (fun k => { k with hurry := true }))
  | .webirc id _ _ _ newIp => Function.update v id ((v id).map (fun k => { k with ip := newIp }))
  | _ => v

def View.answer (v : View) (id : ℤ) : View :=
  Function.update v id ((v id).map (fun k => { k with answered := true }))

/-- The lines that the ircd may send: a descriptor is introduced, with an address, when no client has
it, and everything else is about a connected client.
`s_auth.c` `start_iauth_query`, `auth_send_exit` -/
def View.Allows (v : View) : Event → Prop
  | .intro id ip _ _ _ => v id = none ∧ ip ≠ []
  | .disconnect id => v id ≠ none
  | .auth id _ => v id ≠ none
  | .hurry id _ => v id ≠ none
  | .saslStart id _ => v id ≠ none
  | .saslContinue id _ => v id ≠ none
  | .webirc id _ _ _ _ => v id ≠ none
  | .lookupEnds _ _ => True
  | .authEnds _ _ => True

instance (v : View) : DecidablePred v.Allows
  | .intro id ip _ _ _ => inferInstanceAs (Decidable (v id = none ∧ ip ≠ []))
  | .disconnect id => inferInstanceAs (Decidable (v id ≠ none))
  | .auth id _ => inferInstanceAs (Decidable (v id ≠ none))
  | .hurry id _ => inferInstanceAs (Decidable (v id ≠ none))
  | .saslStart id _ => inferInstanceAs (Decidable (v id ≠ none))
  | .saslContinue id _ => inferInstanceAs (Decidable (v id ≠ none))
  | .webirc id _ _ _ _ => inferInstanceAs (Decidable (v id ≠ none))
  | .lookupEnds _ _ => inferInstanceAs (Decidable True)
  | .authEnds _ _ => inferInstanceAs (Decidable True)

/-- The lookups that are made for an address. `iauth.ts`
`startDNSBLLookups`. -/
def lookupsFor (cfg : Config) (ip : Str) : List Dnsbl :=
  if (reverseIPv4 ip).isSome then cfg.dnsbls else []

/-- A verdict about a client is right: the client is connected, has had its Hurry, has not been answered,
has this address and port, and every lookup that is made for its address has been started and has ended. -/
structure View.Accepts (cfg : Config) (v : View) (c : ClientState) : Prop where
  conn : v c.id = some ⟨c.ip, c.port, true, false⟩
  ended : ∀ d ∈ lookupsFor cfg c.ip, d.cfgNum ∈ c.lookups.keys ∧ d.cfgNum ∉ c.lookups.pending

instance (cfg : Config) (v : View) (c : ClientState) : Decidable (v.Accepts cfg c) :=
  decidable_of_iff (v c.id = some ⟨c.ip, c.port, true, false⟩ ∧
      ∀ d ∈ lookupsFor cfg c.ip, d.cfgNum ∈ c.lookups.keys ∧ d.cfgNum ∉ c.lookups.pending)
    ⟨fun h => ⟨h.1, h.2⟩, fun h => ⟨h.conn, h.ended⟩⟩

/-- The view after some lines of the daemon. -/
def View.afterOuts : View → List Out → View
  | v, [] => v
  | v, o :: outs =>
    match o.verdict with
    | none => View.afterOuts v outs
    | some c => View.afterOuts (v.answer c.id) outs

/-- Every verdict among some lines is right when it is sent. -/
def View.AcceptsAll (cfg : Config) : View → List Out → Prop
  | _, [] => True
  | v, o :: outs =>
    match o.verdict with
    | none => View.AcceptsAll cfg v outs
    | some c => v.Accepts cfg c ∧ View.AcceptsAll cfg (v.answer c.id) outs

/-- Whether every verdict is right can be decided. -/
instance decidableAcceptsAll (cfg : Config) :
    (v : View) → (outs : List Out) → Decidable (v.AcceptsAll cfg outs)
  | _, [] => isTrue trivial
  | v, o :: outs =>
    match h : o.verdict with
    | none =>
      have := decidableAcceptsAll cfg v outs
      decidable_of_iff (v.AcceptsAll cfg outs) (by simp [View.AcceptsAll, h])
    | some c =>
      have := decidableAcceptsAll cfg (v.answer c.id) outs
      decidable_of_iff (v.Accepts cfg c ∧ (v.answer c.id).AcceptsAll cfg outs) (by simp [View.AcceptsAll, h])

/-- What a step owes to the view, which is the one after the step. -/
structure Served (s : Daemon) (v : View) : Prop where
  kept : ∀ id k, v id = some k → k.answered = false →
    ∃ c, s.client id = some c ∧ c.id = id ∧ c.ip = k.ip ∧ c.port = k.port ∧ c.hurry = k.hurry
  settled : ∀ id k, v id = some k → k.hurry = true →
    (∀ r, s.clients id = some r → ∀ p ∈ s.pending, p.ref ≠ r) → k.answered = true

/-- A step from a state with the view `v`, in which the event `e` is handled: every verdict is right,
and the new state owes nothing. -/
structure StepOk (cfg : Config) (v : View) (e : Event) (s' : Daemon) (outs : List Out) : Prop where
  verdicts : (v.line e).AcceptsAll cfg outs
  served : Served s' ((v.line e).afterOuts outs)

/-- The condition: on the daemon, the view and the event. -/
def Undisturbed (s : Daemon) (v : View) : Event → Prop
  | .disconnect id => ∀ c, s.client id = some c → c.hurry = false
  | .webirc id _ _ _ _ => ∀ c, s.client id = some c → c.hurry = false
  | .hurry id _ => ∀ k, v id = some k → k.answered = true → s.clients id = none
  | _ => True

/-- The states of the daemon that are reached by lines that the ircd may send and by what ends, in any
order, each of which meets the condition; with the view.
`iauth.ts` `handleLine` -/
inductive Run (cfg : Config) (ok : Daemon → View → Event → Prop) : Daemon → View → Prop
  | start : Run cfg ok Daemon.start (fun _ => none)
  | step {s s' : Daemon} {v : View} {outs : List Out} (h : Run cfg ok s v) (now : ℤ) (e : Event)
      (ha : v.Allows e) (hok : ok s v e) (hs : handle cfg now s e = some (s', outs)) :
      Run cfg ok s' ((v.line e).afterOuts outs)

/-! ## The invariant -/

/-- The lookups of the objects and those that are awaited are the same, and what is awaited for an
object that has left the table decides nothing. -/
structure Core (s : Daemon) : Prop where
  table : ∀ id r, s.clients id = some r → r < s.next ∧ (s.obj r).id = id
  ref : ∀ p ∈ s.pending, p.ref < s.next
  started : ∀ r, (s.obj r).lookups.pending ⊆ (s.obj r).lookups.keys
  tracks : ∀ r k, k ∈ (s.obj r).lookups.pending ↔ ∃ p ∈ s.pending, p.ref = r ∧ p.dnsbl.cfgNum = k
  nodup : (s.pending.map (fun p => (p.ref, p.dnsbl.cfgNum))).Nodup
  stale : ∀ p ∈ s.pending, (s.obj p.ref).hurry = true → s.clients (s.obj p.ref).id = some p.ref

/-- An entry with a Hurry waits for a lookup, unless its object is `r`. -/
def Waits (s : Daemon) (but : Option ℕ) : Prop :=
  ∀ id r, s.clients id = some r → some r ≠ but → (s.obj r).hurry = true → (s.obj r).lookups.pending ≠ ∅

/-- The daemon and the view agree. -/
structure Agree (cfg : Config) (s : Daemon) (v : View) : Prop where
  gone : ∀ id, v id = none → s.clients id = none
  done : ∀ id k r, v id = some k → k.answered = true → s.clients id = some r → (s.obj r).hurry = false
  live : ∀ id k, v id = some k → k.answered = false → ∃ r, s.clients id = some r ∧
    (s.obj r).ip = k.ip ∧ (s.obj r).port = k.port ∧ (s.obj r).hurry = k.hurry ∧
    ∀ d ∈ lookupsFor cfg (s.obj r).ip, d.cfgNum ∈ (s.obj r).lookups.keys

/-- What holds in every state that is reached. -/
structure Inv (cfg : Config) (s : Daemon) (v : View) : Prop where
  core : Core s
  waits : Waits s none
  agree : Agree cfg s v

lemma inv_start (cfg : Config) : Inv cfg Daemon.start (fun _ => none) where
  core :=
    { table := fun id r h => by simp [Daemon.start] at h
      ref := fun p hp => absurd hp List.not_mem_nil
      started := fun r => by simp [Daemon.start, newClient]
      tracks := fun r k => by simp [Daemon.start, newClient]
      nodup := List.nodup_nil
      stale := fun p hp => absurd hp List.not_mem_nil }
  waits := fun id r h => by simp [Daemon.start] at h
  agree :=
    { gone := fun id _ => rfl
      done := fun id k r h => by simp at h
      live := fun id k h => by simp at h }

variable {cfg : Config} {s s' : Daemon} {r : ℕ} {id : ℤ} {c : ClientState}

lemma Inv.served {v : View} (h : Inv cfg s v) : Served s v where
  kept id k hk ha := by
    obtain ⟨r, hr, hip, hport, hhurry, -⟩ := h.agree.live id k hk ha
    exact ⟨s.obj r, by rw [Daemon.client, hr, map_some], (h.core.table id r hr).2, hip, hport,
      hhurry⟩
  settled id k hk hh hp := by
    by_contra ha
    obtain ⟨r, hr, -, -, hhurry, -⟩ := h.agree.live id k hk (eq_false_of_ne_true ha)
    have hne := h.waits id r hr (some_ne_none r) (hhurry.trans hh)
    obtain ⟨n, hn⟩ := Finset.nonempty_iff_ne_empty.2 hne
    obtain ⟨p, hpm, hpr, -⟩ := (h.core.tracks r n).1 hn
    exact hp r hr p hpm hpr

/-! ## Objects that change in what decides nothing -/

/-- Two objects differ at most in what a decision does not wait for. -/
structure SameClient (c c' : ClientState) : Prop where
  id : c'.id = c.id
  ip : c'.ip = c.ip
  port : c'.port = c.port
  hurry : c'.hurry = c.hurry
  lookups : c'.lookups = c.lookups

/-- Two states differ at most in what a decision does not wait for. -/
structure SameDaemon (s s' : Daemon) : Prop where
  clients : s'.clients = s.clients
  next : s'.next = s.next
  pending : s'.pending = s.pending
  obj : ∀ r, SameClient (s.obj r) (s'.obj r)

lemma SameDaemon.trans {s₁ s₂ : Daemon} (h : SameDaemon s s₁) (h' : SameDaemon s₁ s₂) :
    SameDaemon s s₂ where
  clients := h'.clients.trans h.clients
  next := h'.next.trans h.next
  pending := h'.pending.trans h.pending
  obj r := ⟨(h'.obj r).id.trans (h.obj r).id, (h'.obj r).ip.trans (h.obj r).ip,
    (h'.obj r).port.trans (h.obj r).port, (h'.obj r).hurry.trans (h.obj r).hurry,
    (h'.obj r).lookups.trans (h.obj r).lookups⟩

lemma sameDaemon_modify (s : Daemon) (r : ℕ) {f : ClientState → ClientState}
    (hf : ∀ c, SameClient c (f c)) : SameDaemon s (s.modify r f) where
  clients := rfl
  next := rfl
  pending := rfl
  obj q := by
    by_cases hq : q = r
    · obtain rfl := hq
      rw [Daemon.modify_obj_self]
      exact hf _
    · rw [Daemon.modify_obj_of_ne s f hq]
      exact ⟨rfl, rfl, rfl, rfl, rfl⟩

lemma SameDaemon.core (h : SameDaemon s s') (hc : Core s) : Core s' where
  table id r hr := by
    rw [h.clients] at hr
    rw [h.next, (h.obj r).id]
    exact hc.table id r hr
  ref p hp := by
    rw [h.pending] at hp
    rw [h.next]
    exact hc.ref p hp
  started r := by
    rw [(h.obj r).lookups]
    exact hc.started r
  tracks r k := by
    rw [(h.obj r).lookups, h.pending]
    exact hc.tracks r k
  nodup := by
    rw [h.pending]
    exact hc.nodup
  stale p hp hh := by
    rw [h.pending] at hp
    rw [(h.obj p.ref).hurry] at hh
    rw [h.clients, (h.obj p.ref).id]
    exact hc.stale p hp hh

lemma SameDaemon.waits (h : SameDaemon s s') {but : Option ℕ} (hw : Waits s but) : Waits s' but := by
  intro id r hr hne hh
  rw [h.clients] at hr
  rw [(h.obj r).hurry] at hh
  rw [(h.obj r).lookups]
  exact hw id r hr hne hh

lemma SameDaemon.agree (h : SameDaemon s s') {v : View}
    (ha : Agree cfg s v) : Agree cfg s' v where
  gone id hv := by
    rw [h.clients]
    exact ha.gone id hv
  done id k r hv hk hr := by
    rw [h.clients] at hr
    rw [(h.obj r).hurry]
    exact ha.done id k r hv hk hr
  live id k hv hk := by
    obtain ⟨r, hr, hip, hport, hhurry, hkeys⟩ := ha.live id k hv hk
    refine ⟨r, ?_, ?_, ?_, ?_, fun d hd => ?_⟩
    · rw [h.clients]
      exact hr
    · rw [(h.obj r).ip]
      exact hip
    · rw [(h.obj r).port]
      exact hport
    · rw [(h.obj r).hurry]
      exact hhurry
    · rw [(h.obj r).ip] at hd
      rw [(h.obj r).lookups]
      exact hkeys d hd

lemma SameDaemon.inv (h : SameDaemon s s') {v : View} (hi : Inv cfg s v) : Inv cfg s' v :=
  ⟨h.core hi.core, h.waits hi.waits, h.agree hi.agree⟩

/-! ## The decision -/

lemma afterOuts_marks (cfg : Config) (v : View) (c : ClientState) (marks : List Str) (o : Out)
    (ho : o.verdict = some c) : (v.AcceptsAll cfg (marks.map (Out.mark c) ++ [o]) ↔ v.Accepts cfg c) ∧
    v.afterOuts (marks.map (Out.mark c) ++ [o]) = v.answer c.id := by
  induction marks with
  | nil => simp [View.AcceptsAll, View.afterOuts, ho]
  | cons m marks ih => simpa [View.AcceptsAll, View.afterOuts, Out.verdict] using ih

lemma handleClientUpdate_decides (cfg : Config) (v : View)
    (hh : (s.obj r).hurry = true) (hp : (s.obj r).lookups.pending = ∅) :
    ∃ c, SameClient (s.obj r) c ∧ (handleClientUpdate cfg s r).1 =
        (s.modify r (fun c => { c with hits := ∅ })).deleteClient (s.obj r).id ∧
      (v.AcceptsAll cfg (handleClientUpdate cfg s r).2 ↔ v.Accepts cfg c) ∧
      v.afterOuts (handleClientUpdate cfg s r).2 = v.answer (s.obj r).id := by
  have hcond : (s.obj r).hurry = true ∧ (s.obj r).lookups.pending.card = 0 := ⟨hh, Finset.card_eq_zero.2 hp⟩
  refine ⟨{ s.obj r with hits := ∅ }, ⟨rfl, rfl, rfl, rfl, rfl⟩, ?_⟩
  unfold handleClientUpdate
  rw [if_pos hcond]
  simp only [Daemon.modify_obj_self]
  have hpass := afterOuts_marks cfg v { s.obj r with hits := ∅ }
    ((s.obj r).marks.filter (· ≠ [])) (.done { s.obj r with hits := ∅ }) rfl
  have hkill := afterOuts_marks cfg v { s.obj r with hits := ∅ } []
    (.kill { s.obj r with hits := ∅ } cfg.blockMsg) rfl
  split
  · exact ⟨rfl, hpass⟩
  · split
    · exact ⟨rfl, hkill⟩
    · exact ⟨rfl, hpass⟩

lemma handleClientUpdate_waits (cfg : Config)
    (h : ¬ ((s.obj r).hurry = true ∧ (s.obj r).lookups.pending = ∅)) :
    handleClientUpdate cfg s r = (s, []) := by
  unfold handleClientUpdate
  rw [if_neg (fun hc => h ⟨hc.1, Finset.card_eq_zero.1 hc.2⟩)]

lemma Core.deleteClient (h : Core s)
    (hid : ∀ p ∈ s.pending, (s.obj p.ref).hurry = true → s.clients id ≠ some p.ref) :
    Core (s.deleteClient id) where
  table id' r hr := by
    by_cases hne : id' = id
    · obtain rfl := hne
      rw [Daemon.deleteClient_self] at hr
      exact absurd hr (some_ne_none r).symm
    · rw [Daemon.deleteClient_of_ne _ hne] at hr
      exact h.table id' r hr
  ref := h.ref
  started := h.started
  tracks := h.tracks
  nodup := h.nodup
  stale p hp hh := by
    have hst := h.stale p hp hh
    have hne : (s.obj p.ref).id ≠ id := fun e => hid p hp hh (e ▸ hst)
    exact (s.deleteClient_of_ne hne).trans hst

lemma Waits.deleteClient {but : Option ℕ} (h : Waits s but) (id : ℤ) : Waits (s.deleteClient id) but := by
  intro id' r hr hne hh
  by_cases he : id' = id
  · obtain rfl := he
    rw [Daemon.deleteClient_self] at hr
    exact absurd hr (some_ne_none r).symm
  · rw [Daemon.deleteClient_of_ne _ he] at hr
    exact h id' r hr hne hh

lemma Agree.answered {v : View} (h : Agree cfg s v) (id : ℤ) :
    Agree cfg (s.deleteClient id) (v.answer id) where
  gone id' hv := by
    by_cases he : id' = id
    · rw [he, Daemon.deleteClient_self]
    · rw [View.answer, update_of_ne he] at hv
      rw [Daemon.deleteClient_of_ne _ he]
      exact h.gone id' hv
  done id' k r hv hk hr := by
    by_cases he : id' = id
    · rw [he, Daemon.deleteClient_self] at hr
      exact absurd hr (some_ne_none r).symm
    · rw [View.answer, update_of_ne he] at hv
      rw [Daemon.deleteClient_of_ne _ he] at hr
      exact h.done id' k r hv hk hr
  live id' k hv hk := by
    by_cases he : id' = id
    · rw [he, View.answer, update_self] at hv
      obtain ⟨k', -, rfl⟩ := map_eq_some_iff.1 hv
      exact absurd hk (by simp)
    · rw [View.answer, update_of_ne he] at hv
      rw [Daemon.deleteClient_of_ne _ he]
      exact h.live id' k hv hk

lemma Inv.update {v : View} (hc : Core s) (hw : Waits s (some r))
    (ha : Agree cfg s v) (hr : (s.obj r).hurry = true → s.clients (s.obj r).id = some r) :
    v.AcceptsAll cfg (handleClientUpdate cfg s r).2 ∧
    Inv cfg (handleClientUpdate cfg s r).1 (v.afterOuts (handleClientUpdate cfg s r).2) := by
  by_cases hdec : (s.obj r).hurry = true ∧ (s.obj r).lookups.pending = ∅
  · obtain ⟨hh, hp⟩ := hdec
    obtain ⟨c, hsame, hs, haccept, hafter⟩ := handleClientUpdate_decides cfg v hh hp
    have hentry := hr hh
    -- The entry is the one of a client that has not been answered.
    obtain ⟨k, hk⟩ : ∃ k, v (s.obj r).id = some k := by
      rcases hv : v (s.obj r).id with _ | k
      · rw [ha.gone _ hv] at hentry
        exact absurd hentry (some_ne_none r).symm
      · exact ⟨k, rfl⟩
    have hans : k.answered = false := by
      by_contra hne
      have := ha.done _ k r hk (eq_true_of_ne_false hne) hentry
      rw [hh] at this
      exact absurd this (by decide)
    obtain ⟨r', hr', hip, hport, hhurry, hkeys⟩ := ha.live _ k hk hans
    obtain rfl : r = r' := some_inj.1 (hentry.symm.trans hr')
    have hk' : k = ⟨c.ip, c.port, true, false⟩ := by
      rw [hsame.ip, hsame.port, hip, hport, ← hans, ← hh, hhurry]
    refine ⟨haccept.2 ⟨?_, fun d hd => ⟨?_, ?_⟩⟩, ?_⟩
    · rw [hsame.id, hk, hk']
    · rw [hsame.lookups]
      rw [hsame.ip] at hd
      exact hkeys d hd
    · rw [hsame.lookups, hp]
      exact Finset.notMem_empty _
    · rw [hs, hafter]
      have hmod : SameDaemon s (s.modify r (fun c => { c with hits := ∅ })) :=
        sameDaemon_modify s r (fun _ => ⟨rfl, rfl, rfl, rfl, rfl⟩)
      have hc' := hmod.core hc
      refine ⟨hc'.deleteClient ?_, ?_, ?_⟩
      · intro p hpm _ he
        rw [hmod.clients, hentry] at he
        obtain rfl : r = p.ref := some_inj.1 he
        have : p.dnsbl.cfgNum ∈ (s.obj p.ref).lookups.pending := (hc.tracks p.ref _).2 ⟨p, hpm, rfl, rfl⟩
        rw [hp] at this
        exact absurd this (Finset.notMem_empty _)
      · intro id q hq hne hhq
        by_cases hqr : q = r
        · obtain rfl := hqr
          have hid : id = (s.obj q).id := by
            by_cases he : id = (s.obj q).id
            · exact he
            · rw [Daemon.deleteClient_of_ne _ he, hmod.clients] at hq
              exact (hc.table id q hq).2.symm
          rw [hid, Daemon.deleteClient_self] at hq
          exact absurd hq (some_ne_none q).symm
        · exact (hmod.waits hw).deleteClient _ id q hq (fun e => hqr (some_inj.1 e)) hhq
      · exact (hmod.agree ha).answered (s.obj r).id
  · rw [handleClientUpdate_waits cfg hdec]
    refine ⟨trivial, hc, fun id q hq _ hhq => ?_, ha⟩
    by_cases hqr : q = r
    · obtain rfl := hqr
      exact fun he => hdec ⟨hhq, he⟩
    · exact hw id q hq (fun e => hqr (some_inj.1 e)) hhq

/-! ## Starting lookups -/

/-- What the lookups that are started for an object without a Hurry do: only the object changes, and
only in what it has looked up.
`iauth.ts` `startDNSBLLookups` -/
structure Starts (s : Daemon) (r : ℕ) (started : Finset ℕ) (s' : Daemon) : Prop where
  core : Core s'
  clients : s'.clients = s.clients
  next : s'.next = s.next
  other : ∀ q, q ≠ r → s'.obj q = s.obj q
  id : (s'.obj r).id = (s.obj r).id
  ip : (s'.obj r).ip = (s.obj r).ip
  port : (s'.obj r).port = (s.obj r).port
  hurry : (s'.obj r).hurry = (s.obj r).hurry
  keys : (s'.obj r).lookups.keys = (s.obj r).lookups.keys ∪ started

lemma sameClient_response (d : Dnsbl) (results : List Str) (c : ClientState) :
    SameClient c (handleDNSBLResponse d results c) := by
  unfold handleDNSBLResponse
  split
  · exact ⟨rfl, rfl, rfl, rfl, rfl⟩
  · exact ⟨rfl, rfl, rfl, rfl, rfl⟩

lemma Core.start {k : ℕ} (h : Core s) (hclients : s'.clients = s.clients)
    (hnext : s'.next = s.next) (hother : ∀ q, q ≠ r → s'.obj q = s.obj q)
    (hid : (s'.obj r).id = (s.obj r).id) (hhurry' : (s'.obj r).hurry = false) (hk : k ∉ (s.obj r).lookups.keys) (hr : r < s.next)
    (hkeys : (s'.obj r).lookups.keys = insert k (s.obj r).lookups.keys)
    (hpend : (∃ p : Pending, p.ref = r ∧ p.dnsbl.cfgNum = k ∧ s'.pending = s.pending ++ [p] ∧
        (s'.obj r).lookups.pending = insert k (s.obj r).lookups.pending) ∨
      (s'.pending = s.pending ∧ (s'.obj r).lookups.pending = (s.obj r).lookups.pending)) : Core s' := by
  have hnot : k ∉ (s.obj r).lookups.pending := fun hm => hk (h.started r hm)
  have htable : ∀ id q, s'.clients id = some q → q < s'.next ∧ (s'.obj q).id = id := by
    intro id q hq
    rw [hclients] at hq
    rw [hnext]
    refine ⟨(h.table id q hq).1, ?_⟩
    by_cases hqr : q = r
    · rw [hqr, hid, ← hqr]
      exact (h.table id q hq).2
    · rw [hother q hqr]
      exact (h.table id q hq).2
  have hstale : ∀ p ∈ s.pending, (s'.obj p.ref).hurry = true → s'.clients (s'.obj p.ref).id = some p.ref := by
    intro p hp hh
    by_cases hpr : p.ref = r
    · rw [hpr, hhurry'] at hh
      exact absurd hh (by decide)
    · rw [hother _ hpr] at hh ⊢
      rw [hclients]
      exact h.stale p hp hh
  rcases hpend with ⟨p, hpr, hpk, hlist, hpending⟩ | ⟨hlist, hpending⟩
  · refine ⟨htable, fun q hq => ?_, fun q => ?_, fun q n => ?_, ?_, fun q hq hh => ?_⟩
    · rw [hlist, mem_append, mem_singleton] at hq
      rw [hnext]
      rcases hq with hq | rfl
      · exact h.ref q hq
      · rw [hpr]
        exact hr
    · by_cases hqr : q = r
      · rw [hqr, hpending, hkeys]
        exact Finset.insert_subset_insert _ (h.started r)
      · rw [hother q hqr]
        exact h.started q
    · rw [hlist]
      by_cases hqr : q = r
      · rw [hqr, hpending, Finset.mem_insert, h.tracks r n]
        constructor
        · rintro (rfl | ⟨p', hp', hr', hk'⟩)
          · exact ⟨p, List.mem_append_right _ (List.mem_singleton_self p), hpr, hpk⟩
          · exact ⟨p', List.mem_append_left _ hp', hr', hk'⟩
        · rintro ⟨p', hp', hr', hk'⟩
          rcases mem_append.1 hp' with hp' | hp'
          · exact .inr ⟨p', hp', hr', hk'⟩
          · rw [mem_singleton.1 hp', hpk] at hk'
            exact .inl hk'.symm
      · rw [hother q hqr, h.tracks q n]
        constructor
        · rintro ⟨p', hp', hr', hk'⟩
          exact ⟨p', List.mem_append_left _ hp', hr', hk'⟩
        · rintro ⟨p', hp', hr', hk'⟩
          rcases mem_append.1 hp' with hp' | hp'
          · exact ⟨p', hp', hr', hk'⟩
          · rw [mem_singleton.1 hp', hpr] at hr'
            exact absurd hr'.symm hqr
    · rw [hlist, List.map_append, List.nodup_append]
      refine ⟨h.nodup, List.nodup_singleton _, fun a ha b hb => ?_⟩
      obtain ⟨p', hp', rfl⟩ := List.mem_map.1 ha
      rw [List.map_singleton, mem_singleton] at hb
      rintro rfl
      have he := Prod.mk.inj hb
      exact hnot ((h.tracks r k).2 ⟨p', hp', he.1.trans hpr, he.2.trans hpk⟩)
    · rw [hlist, mem_append, mem_singleton] at hq
      rcases hq with hq | rfl
      · exact hstale q hq hh
      · rw [hpr, hhurry'] at hh
        exact absurd hh (by decide)
  · refine ⟨htable, fun q hq => ?_, fun q => ?_, fun q n => ?_, ?_, fun q hq hh => ?_⟩
    · rw [hlist] at hq
      rw [hnext]
      exact h.ref q hq
    · by_cases hqr : q = r
      · rw [hqr, hpending, hkeys]
        exact (h.started r).trans (Finset.subset_insert _ _)
      · rw [hother q hqr]
        exact h.started q
    · rw [hlist]
      by_cases hqr : q = r
      · rw [hqr, hpending]
        exact h.tracks r n
      · rw [hother q hqr]
        exact h.tracks q n
    · rw [hlist]
      exact h.nodup
    · rw [hlist] at hq
      exact hstale q hq hh

lemma finishLookup_quiet (cfg : Config) (d : Dnsbl) (results : List Str)
    (hh : (s.obj r).hurry = false) :
    finishLookup cfg s r d results = ((s.modify r (handleDNSBLResponse d results)).modify r
      (fun c => { c with lookups := c.lookups.set d.cfgNum false }), []) := by
  apply handleClientUpdate_waits
  rintro ⟨hc, -⟩
  rw [Daemon.modify_obj_self, Daemon.modify_obj_self] at hc
  rw [(sameClient_response d results _).hurry, hh] at hc
  exact absurd hc (by decide)

lemma startLookup_starts (cfg : Config) (now : ℤ) (reversedIp : Str) (d : Dnsbl)
    (h : Core s) (hr : r < s.next) (hh : (s.obj r).hurry = false) (hk : d.cfgNum ∉ (s.obj r).lookups.keys) :
    (startLookup cfg now r reversedIp d s).2 = [] ∧
    Starts s r {d.cfgNum} (startLookup cfg now r reversedIp d s).1 := by
  have hnot : d.cfgNum ∉ (s.obj r).lookups.pending := fun hm => hk (h.started r hm)
  set mark : ClientState → ClientState := fun c => { c with lookups := c.lookups.set d.cfgNum true } with hmark
  -- Whatever the state afterwards is, these facts about it are enough.
  have key : ∀ s' : Daemon, s'.clients = s.clients → s'.next = s.next →
      (∀ q, q ≠ r → s'.obj q = s.obj q) → (s'.obj r).id = (s.obj r).id →
      (s'.obj r).ip = (s.obj r).ip → (s'.obj r).port = (s.obj r).port →
      (s'.obj r).hurry = (s.obj r).hurry →
      (s'.obj r).lookups.keys = insert d.cfgNum (s.obj r).lookups.keys →
      ((∃ p : Pending, p.ref = r ∧ p.dnsbl.cfgNum = d.cfgNum ∧ s'.pending = s.pending ++ [p] ∧
          (s'.obj r).lookups.pending = insert d.cfgNum (s.obj r).lookups.pending) ∨
        (s'.pending = s.pending ∧ (s'.obj r).lookups.pending = (s.obj r).lookups.pending)) →
      Starts s r {d.cfgNum} s' := by
    intro s' h1 h2 h3 h4 h5 h6 h7 h8 h9
    refine ⟨h.start h1 h2 h3 h4 (h7.trans hh) hk hr h8 h9, h1, h2, h3, h4, h5, h6, h7, ?_⟩
    rw [h8, Finset.insert_eq, Finset.union_comm]
  have hobj : ∀ q, q ≠ r → (s.modify r mark).obj q = s.obj q := fun q hq => s.modify_obj_of_ne _ hq
  unfold startLookup
  dsimp only
  split
  · -- The cache has a result: the lookup has been started and has ended.
    next results _ _ =>
    rw [finishLookup_quiet cfg d results (by simpa [Daemon.modify] using hh)]
    have hresp := sameClient_response d results (mark (s.obj r))
    refine ⟨rfl, key _ rfl rfl (fun q hq => ?_) ?_ ?_ ?_ ?_ ?_ (Or.inr ⟨rfl, ?_⟩)⟩
    · rw [Daemon.modify_obj_of_ne _ _ hq, Daemon.modify_obj_of_ne _ _ hq]
      exact hobj q hq
    all_goals simp only [Daemon.modify_obj_self]
    · exact hresp.id
    · exact hresp.ip
    · exact hresp.port
    · exact hresp.hurry
    · rw [hresp.lookups]
      simp [mark, Lookups.set]
    · rw [hresp.lookups]
      simp [mark, Lookups.set, hnot]
  · refine ⟨rfl, key _ rfl rfl hobj ?_ ?_ ?_ ?_ ?_ (Or.inl ⟨_, rfl, rfl, rfl, ?_⟩)⟩
    all_goals simp [Daemon.modify_obj_self, Lookups.set]
  · refine ⟨rfl, key _ rfl rfl hobj ?_ ?_ ?_ ?_ ?_ (Or.inl ⟨_, rfl, rfl, rfl, ?_⟩)⟩
    all_goals simp [Daemon.modify_obj_self, Lookups.set]

lemma startLookups_starts (cfg : Config) (now : ℤ) (reversedIp : Str) (r : ℕ) (ds : List Dnsbl) : ∀ s :
    Daemon, Core s → r < s.next → (s.obj r).hurry = false → (ds.map (·.cfgNum)).Nodup → (∀ d ∈ ds,
    d.cfgNum ∉ (s.obj r).lookups.keys) → (startLookups cfg now r reversedIp ds s).2 = [] ∧
    Starts s r (ds.map (·.cfgNum)).toFinset (startLookups cfg now r reversedIp ds s).1 := by
  induction ds with
  | nil =>
    intro s h hr hh _ _
    exact ⟨rfl, h, rfl, rfl, fun _ _ => rfl, rfl, rfl, rfl, rfl, by simp [startLookups]⟩
  | cons d ds ih =>
    intro s h hr hh hnd hk
    rw [map_cons, List.nodup_cons] at hnd
    obtain ⟨ho, h1⟩ := startLookup_starts cfg now reversedIp d h hr hh (hk d List.mem_cons_self)
    obtain ⟨ho', h2⟩ := ih (startLookup cfg now r reversedIp d s).1 h1.core (h1.next ▸ hr)
      (h1.hurry.trans hh) hnd.2 (fun e he => by
        rw [h1.keys, Finset.mem_union, Finset.mem_singleton, not_or]
        refine ⟨hk e (List.mem_cons_of_mem _ he), fun heq => hnd.1 ?_⟩
        rw [← heq]
        exact List.mem_map_of_mem he)
    rw [startLookups_cons]
    refine ⟨?_, h2.core, h2.clients.trans h1.clients, h2.next.trans h1.next,
      fun q hq => (h2.other q hq).trans (h1.other q hq), h2.id.trans h1.id, h2.ip.trans h1.ip,
      h2.port.trans h1.port, h2.hurry.trans h1.hurry, ?_⟩
    · rw [ho, ho', List.append_nil]
    · rw [h2.keys, h1.keys, map_cons, List.toFinset_cons, Finset.union_assoc, Finset.insert_eq]

lemma Core.addClient (h : Core s) (hl : c.lookups = ⟨∅, ∅⟩)
    (hold : ∀ r, s.clients c.id = some r → (s.obj r).hurry = false) : Core (s.addClient c) where
  table id r hr := by
    by_cases he : id = c.id
    · rw [he, Daemon.addClient_self] at hr
      obtain rfl := some_inj.1 hr
      exact ⟨Nat.lt_succ_self _, by rw [he, Daemon.addClient_obj_self]⟩
    · rw [s.addClient_of_ne he] at hr
      have ht := h.table id r hr
      exact ⟨ht.1.trans (Nat.lt_succ_self _), by rw [s.addClient_obj_of_ne c ht.1.ne]; exact ht.2⟩
  ref p hp := (h.ref p hp).trans (Nat.lt_succ_self _)
  started r := by
    by_cases hr : r = s.next
    · rw [hr, Daemon.addClient_obj_self, hl]
    · rw [s.addClient_obj_of_ne c hr]
      exact h.started r
  tracks r k := by
    by_cases hr : r = s.next
    · rw [hr, Daemon.addClient_obj_self, hl]
      constructor
      · intro hk
        exact absurd hk (Finset.notMem_empty _)
      · rintro ⟨p, hp, hpr, -⟩
        exact absurd hpr (h.ref p hp).ne
    · rw [s.addClient_obj_of_ne c hr]
      exact h.tracks r k
  nodup := h.nodup
  stale p hp hh := by
    rw [s.addClient_obj_of_ne c (h.ref p hp).ne] at hh ⊢
    have hst := h.stale p hp hh
    have hne : (s.obj p.ref).id ≠ c.id := by
      intro e
      rw [hold p.ref (e ▸ hst)] at hh
      exact absurd hh (by decide)
    rw [s.addClient_of_ne hne]
    exact hst

lemma Core.starts_nothing (h : Core s) (r : ℕ) : Starts s r ∅ s :=
  ⟨h, rfl, rfl, fun _ _ => rfl, rfl, rfl, rfl, rfl, (Finset.union_empty _).symm⟩

/-- **A client is given a new entry without a Hurry**, for which some lookups are started. The view says the
same of the other clients; if it says that this one has not been answered, the new entry is as the ircd knows
it, and all lookups for its address are among those that are started. -/
theorem Inv.addClient {v v' : View} (h : Inv cfg s v)
    {started : Finset ℕ} (hh : c.hurry = false) (hst : Starts (s.addClient c) s.next started s')
    (hv : ∀ id, id ≠ c.id → v' id = v id)
    (hself : ∃ k, v' c.id = some k ∧ (k.answered = false → k.ip = c.ip ∧ k.port = c.port ∧
      k.hurry = false ∧ ∀ d ∈ lookupsFor cfg c.ip, d.cfgNum ∈ started)) : Inv cfg s' v' := by
  have hnew : (s'.obj s.next).hurry = false := by
    rw [hst.hurry, Daemon.addClient_obj_self]
    exact hh
  -- Another entry is as it was.
  have hentry : ∀ id, id ≠ c.id → s'.clients id = s.clients id := fun id hid => by
    rw [hst.clients, s.addClient_of_ne hid]
  have hobj : ∀ id r, s.clients id = some r → s'.obj r = s.obj r := fun id r hr => by
    have hne : r ≠ s.next := (h.core.table id r hr).1.ne
    rw [hst.other r hne, s.addClient_obj_of_ne c hne]
  have hown : s'.clients c.id = some s.next := by rw [hst.clients, Daemon.addClient_self]
  refine ⟨hst.core, ?_, ?_, ?_, ?_⟩
  · intro id r hr _ hhr
    by_cases hid : id = c.id
    · rw [hid, hown] at hr
      obtain rfl := some_inj.1 hr
      rw [hnew] at hhr
      exact absurd hhr (by decide)
    · rw [hentry id hid] at hr
      rw [hobj id r hr] at hhr ⊢
      exact h.waits id r hr (some_ne_none r) hhr
  · intro id hvid
    by_cases hid : id = c.id
    · obtain ⟨k, hk, -⟩ := hself
      rw [hid, hk] at hvid
      exact absurd hvid (some_ne_none k)
    · rw [hentry id hid]
      exact h.agree.gone id (hv id hid ▸ hvid)
  · intro id k r hvid hans hr
    by_cases hid : id = c.id
    · rw [hid, hown] at hr
      obtain rfl := some_inj.1 hr
      exact hnew
    · rw [hentry id hid] at hr
      rw [hobj id r hr]
      exact h.agree.done id k r (hv id hid ▸ hvid) hans hr
  · intro id k hvid hans
    by_cases hid : id = c.id
    · obtain ⟨k', hk', hfields⟩ := hself
      rw [hid, hk'] at hvid
      obtain rfl := some_inj.1 hvid
      obtain ⟨hip, hport, hhk, hall⟩ := hfields hans
      have hip' : (s'.obj s.next).ip = c.ip := by rw [hst.ip, Daemon.addClient_obj_self]
      refine ⟨s.next, by rw [hid, hown], hip'.trans hip.symm, ?_, hnew.trans hhk.symm, fun d hd => ?_⟩
      · rw [hst.port, Daemon.addClient_obj_self, hport]
      · rw [hip'] at hd
        rw [hst.keys, Finset.mem_union]
        exact .inr (hall d hd)
    · obtain ⟨r, hr, hrest⟩ := h.agree.live id k (hv id hid ▸ hvid) hans
      refine ⟨r, ?_, ?_⟩
      · rw [hentry id hid]
        exact hr
      · rw [hobj id r hr]
        exact hrest

lemma startDNSBLLookups_starts (cfg : Config) (now : ℤ)
    (hcore : Core (s.addClient c)) (hl : c.lookups = ⟨∅, ∅⟩) (hh : c.hurry = false) :
    (startDNSBLLookups cfg now (s.addClient c) s.next).2 = [] ∧
      Starts (s.addClient c) s.next ((lookupsFor cfg c.ip).map (·.cfgNum)).toFinset
        (startDNSBLLookups cfg now (s.addClient c) s.next).1 := by
  unfold startDNSBLLookups lookupsFor
  rw [Daemon.addClient_obj_self]
  rcases hrev : reverseIPv4 c.ip with _ | reversedIp
  · exact ⟨rfl, hcore.starts_nothing s.next⟩
  · refine startLookups_starts cfg now reversedIp s.next cfg.dnsbls (s.addClient c) hcore
      (Nat.lt_succ_self _) ?_ cfg.nodup (fun d _ => ?_)
    · rw [Daemon.addClient_obj_self]
      exact hh
    · rw [Daemon.addClient_obj_self, hl]
      exact Finset.notMem_empty _

lemma Inv.renew {v v' : View} (h : Inv cfg s v) (now : ℤ) (hl : c.lookups = ⟨∅, ∅⟩) (hh : c.hurry = false)
    (hold : ∀ r, s.clients c.id = some r → (s.obj r).hurry = false) (hv : ∀ id, id ≠ c.id → v' id = v id)
    (hself : ∃ k, v' c.id = some k ∧ (k.answered = false → k.ip = c.ip ∧ k.port = c.port ∧ k.hurry = false)) :
    (startDNSBLLookups cfg now (s.addClient c) s.next).2 = [] ∧
    Inv cfg (startDNSBLLookups cfg now (s.addClient c) s.next).1 v' := by
  obtain ⟨houts, hst⟩ := startDNSBLLookups_starts cfg now (h.core.addClient hl hold) hl hh
  obtain ⟨k, hk, hfields⟩ := hself
  refine ⟨houts, h.addClient hh hst hv ⟨k, hk, fun hans => ?_⟩⟩
  obtain ⟨hip, hport, hhk⟩ := hfields hans
  exact ⟨hip, hport, hhk, fun d hd => List.mem_toFinset.2 (List.mem_map_of_mem hd)⟩

lemma Agree.mono {v : View} (h : Agree cfg s v)
    (hclients : s'.clients = s.clients)
    (hobj : ∀ r, (s'.obj r).ip = (s.obj r).ip ∧ (s'.obj r).port = (s.obj r).port ∧
      (s'.obj r).hurry = (s.obj r).hurry ∧ (s.obj r).lookups.keys ⊆ (s'.obj r).lookups.keys) :
    Agree cfg s' v where
  gone id hv := by
    rw [hclients]
    exact h.gone id hv
  done id k r hv hk hr := by
    rw [hclients] at hr
    rw [(hobj r).2.2.1]
    exact h.done id k r hv hk hr
  live id k hv hk := by
    obtain ⟨r, hr, hip, hport, hhurry, hkeys⟩ := h.live id k hv hk
    obtain ⟨hip', hport', hhurry', hkeys'⟩ := hobj r
    refine ⟨r, by rw [hclients, hr], hip'.trans hip, hport'.trans hport, hhurry'.trans hhurry,
      fun d hd => hkeys' (hkeys d ?_)⟩
    rw [hip'] at hd
    exact hd

lemma Core.ends (h : Core s) {k : ℕ} {p : Pending} (hp : s.pending[k]? = some p)
    (hclients : s'.clients = s.clients) (hnext : s'.next = s.next)
    (hlist : s'.pending = s.pending.eraseIdx k) (hother : ∀ q, q ≠ p.ref → s'.obj q = s.obj q)
    (hid : (s'.obj p.ref).id = (s.obj p.ref).id) (hhurry : (s'.obj p.ref).hurry = (s.obj p.ref).hurry)
    (hl : (s'.obj p.ref).lookups = (s.obj p.ref).lookups.set p.dnsbl.cfgNum false) : Core s' := by
  have hsub : ∀ q ∈ s'.pending, q ∈ s.pending := fun q hq => by
    rw [hlist] at hq
    exact List.mem_of_mem_eraseIdx hq
  have hids : ∀ q, (s'.obj q).id = (s.obj q).id ∧ (s'.obj q).hurry = (s.obj q).hurry := by
    intro q
    by_cases hq : q = p.ref
    · rw [hq]
      exact ⟨hid, hhurry⟩
    · rw [hother q hq]
      exact ⟨rfl, rfl⟩
  -- The lookup was awaited once, so its key is gone from the list.
  have hmem : ∀ q, q ∈ s'.pending ↔ q ∈ s.pending ∧ (q.ref, q.dnsbl.cfgNum) ≠ (p.ref, p.dnsbl.cfgNum) := by
    intro q
    obtain ⟨hlt, hget⟩ := List.getElem?_eq_some_iff.1 hp
    have hnd := h.nodup
    constructor
    · intro hq
      refine ⟨hsub q hq, fun he => ?_⟩
      rw [hlist] at hq
      obtain ⟨i, hi, hik, hiq⟩ := List.mem_eraseIdx_iff_getElem.1 hq
      have hi' : i < (s.pending.map (fun p => (p.ref, p.dnsbl.cfgNum))).length := by simpa using hi
      have hk' : k < (s.pending.map (fun p => (p.ref, p.dnsbl.cfgNum))).length := by simpa using hlt
      have hkey : (s.pending.map (fun p => (p.ref, p.dnsbl.cfgNum)))[i] =
          (s.pending.map (fun p => (p.ref, p.dnsbl.cfgNum)))[k] := by
        rw [List.getElem_map, List.getElem_map, hiq, hget]
        exact he
      exact hik (hnd.getElem_inj_iff.1 hkey)
    · rintro ⟨hq, hne⟩
      rw [hlist]
      obtain ⟨i, hi, hiq⟩ := List.mem_iff_getElem.1 hq
      refine List.mem_eraseIdx_iff_getElem.2 ⟨i, hi, ?_, hiq⟩
      rintro rfl
      apply hne
      rw [← hiq, hget]
  refine ⟨fun id q hq => ?_, fun q hq => ?_, fun q => ?_, fun q n => ?_, ?_, fun q hq hh => ?_⟩
  · rw [hclients] at hq
    rw [hnext, (hids q).1]
    exact h.table id q hq
  · rw [hnext]
    exact h.ref q (hsub q hq)
  · by_cases hq : q = p.ref
    · rw [hq, hl]
      exact (Finset.erase_subset _ _).trans ((h.started p.ref).trans (Finset.subset_insert _ _))
    · rw [hother q hq]
      exact h.started q
  · by_cases hq : q = p.ref
    · rw [hq, hl]
      show n ∈ (s.obj p.ref).lookups.pending.erase p.dnsbl.cfgNum ↔ _
      rw [Finset.mem_erase, h.tracks]
      constructor
      · rintro ⟨hn, p', hp', hr', hk'⟩
        exact ⟨p', (hmem p').2 ⟨hp', fun e => hn (hk' ▸ (Prod.mk.inj e).2)⟩, hr', hk'⟩
      · rintro ⟨p', hp', hr', hk'⟩
        obtain ⟨hold, hne⟩ := (hmem p').1 hp'
        exact ⟨fun e => hne (by rw [hr', hk', e]), p', hold, hr', hk'⟩
    · rw [hother q hq, h.tracks]
      constructor
      · rintro ⟨p', hp', hr', hk'⟩
        exact ⟨p', (hmem p').2 ⟨hp', fun e => hq (hr' ▸ (Prod.mk.inj e).1)⟩, hr', hk'⟩
      · rintro ⟨p', hp', hr', hk'⟩
        exact ⟨p', ((hmem p').1 hp').1, hr', hk'⟩
  · rw [hlist]
    exact h.nodup.sublist ((List.eraseIdx_sublist _ _).map _)
  · rw [hclients, (hids q.ref).1]
    rw [(hids q.ref).2] at hh
    exact h.stale q (hsub q hq) hh

lemma Inv.lookupEnds {cfg : Config} {s : Daemon} {v : View} (h : Inv cfg s v) (now : ℤ) (k : ℕ)
    (answers : List Str) : v.AcceptsAll cfg (lookupEnds cfg now k answers s).2 ∧
    Inv cfg (lookupEnds cfg now k answers s).1 (v.afterOuts (lookupEnds cfg now k answers s).2) := by
  unfold Iauthd.lookupEnds
  split
  · exact ⟨trivial, h⟩
  · next p hp =>
    have hpm : p ∈ s.pending := List.mem_of_getElem? hp
    -- Only the cache and the list of what is awaited change before the results are processed.
    obtain ⟨results, cache, hres⟩ : ∃ results cache,
        awaitedResults cfg now p answers s = (results, { s with cache := cache }) := by
      unfold awaitedResults
      split
      · exact ⟨_, _, rfl⟩
      · exact ⟨_, _, rfl⟩
    rw [hres]
    show v.AcceptsAll cfg (finishLookup cfg _ p.ref p.dnsbl results).2 ∧ _
    unfold finishLookup
    set s' := (({ s with cache := cache, pending := s.pending.eraseIdx k } : Daemon).modify p.ref
      (handleDNSBLResponse p.dnsbl results)).modify p.ref
      (fun c => { c with lookups := c.lookups.set p.dnsbl.cfgNum false }) with hs'
    have hresp := sameClient_response p.dnsbl results (s.obj p.ref)
    have hself : s'.obj p.ref = { handleDNSBLResponse p.dnsbl results (s.obj p.ref) with
        lookups := (handleDNSBLResponse p.dnsbl results (s.obj p.ref)).lookups.set p.dnsbl.cfgNum false } := by
      rw [hs', Daemon.modify_obj_self, Daemon.modify_obj_self]
    have hother : ∀ q, q ≠ p.ref → s'.obj q = s.obj q := fun q hq => by
      rw [hs', Daemon.modify_obj_of_ne _ _ hq, Daemon.modify_obj_of_ne _ _ hq]
    have hl : (s'.obj p.ref).lookups = (s.obj p.ref).lookups.set p.dnsbl.cfgNum false := by
      rw [hself, hresp.lookups]
    have hid : (s'.obj p.ref).id = (s.obj p.ref).id := by
      rw [hself]
      exact hresp.id
    have hhurry : (s'.obj p.ref).hurry = (s.obj p.ref).hurry := by
      rw [hself]
      exact hresp.hurry
    apply Inv.update
    · exact h.core.ends hp rfl rfl rfl hother hid hhurry hl
    · intro id q hq hne hh
      have hqr : q ≠ p.ref := fun e => hne (congrArg some e)
      rw [hother q hqr] at hh ⊢
      exact h.waits id q hq (some_ne_none q) hh
    · refine h.agree.mono rfl (fun q => ?_)
      by_cases hq : q = p.ref
      · rw [hq]
        refine ⟨?_, ?_, hhurry, ?_⟩
        · rw [hself]
          exact hresp.ip
        · rw [hself]
          exact hresp.port
        · rw [hl]
          exact Finset.subset_insert _ _
      · rw [hother q hq]
        exact ⟨rfl, rfl, rfl, Finset.Subset.refl _⟩
    · intro hh
      rw [hid]
      exact h.core.stale p hpm (hhurry ▸ hh)

/-! ## Lines -/

lemma Inv.intro {v : View} (h : Inv cfg s v) (now : ℤ) {ip : Str} (port : ℕ) (serverIp : Str) (serverPort : ℕ)
    (hv : v id = none) (hip : ip ≠ []) : ∃ s', handleClientIntro cfg now id ip port serverIp serverPort s =
    some (s', []) ∧ Inv cfg s' (v.line (.intro id ip port serverIp serverPort)) := by
  have hnone := h.agree.gone id hv
  have hline : ∀ id', id' ≠ id → v.line (.intro id ip port serverIp serverPort) id' = v id' :=
    fun id' hid => update_of_ne hid ..
  have hself : v.line (.intro id ip port serverIp serverPort) id = some ⟨ip, port, false, false⟩ :=
    update_self ..
  obtain ⟨houts, hinv⟩ := h.renew now
    (show (newClient id ip port serverIp serverPort false none).lookups = ⟨∅, ∅⟩ from rfl) rfl
    (fun r hr => absurd (hnone.symm.trans hr) (some_ne_none r).symm) hline
    ⟨_, hself, fun _ => ⟨rfl, rfl, rfl⟩⟩
  refine ⟨_, ?_, hinv⟩
  unfold handleClientIntro
  rw [if_neg hip, if_neg (by simp [hnone]), ← houts]

lemma Inv.webirc {v : View} (h : Inv cfg s v) (now : ℤ)
    (password username hostname newIp : Str) (hv : v id ≠ none)
    (hok : ∀ c, s.client id = some c → c.hurry = false) : (handleWebIRC cfg now id newIp s).2 = [] ∧
    Inv cfg (handleWebIRC cfg now id newIp s).1 (v.line (.webirc id password username hostname newIp)) := by
  obtain ⟨k, hk⟩ := Option.ne_none_iff_exists'.1 hv
  have hline : ∀ id', id' ≠ id → v.line (.webirc id password username hostname newIp) id' = v id' :=
    fun id' hid => update_of_ne hid ..
  have hself : v.line (.webirc id password username hostname newIp) id = some { k with ip := newIp } := by
    rw [View.line, update_self, hk, map_some]
  unfold handleWebIRC
  split
  · next hnone =>
    -- There is an entry unless the client has been answered.
    have hans : k.answered = true := by
      by_contra hne
      obtain ⟨r, hr, -⟩ := h.agree.live id k hk (eq_false_of_ne_true hne)
      exact absurd (hnone.symm.trans hr) (some_ne_none r).symm
    refine ⟨rfl, h.core, h.waits, fun id' hid => ?_, fun id' k' r hid hk' hr => ?_,
      fun id' k' hid hk' => ?_⟩
    · by_cases he : id' = id
      · rw [he]
        exact hnone
      · exact h.agree.gone id' (hline id' he ▸ hid)
    · by_cases he : id' = id
      · rw [he, hnone] at hr
        exact absurd hr (some_ne_none r).symm
      · exact h.agree.done id' k' r (hline id' he ▸ hid) hk' hr
    · by_cases he : id' = id
      · rw [he, hself] at hid
        obtain rfl := some_inj.1 hid
        rw [show ({ k with ip := newIp } : Conn).answered = k.answered from rfl, hans] at hk'
        exact absurd hk' (by decide)
      · exact h.agree.live id' k' (hline id' he ▸ hid) hk'
  · next r hr =>
    have hh : (s.obj r).hurry = false := hok _ (by rw [Daemon.client, hr, map_some])
    refine h.renew now rfl hh (fun r' hr' => ?_) hline ⟨_, hself, fun hans => ?_⟩
    · obtain rfl := some_inj.1 (hr.symm.trans hr')
      exact hh
    · obtain ⟨r', hr', -, hport, hhurry, -⟩ := h.agree.live id k hk hans
      obtain rfl := some_inj.1 (hr.symm.trans hr')
      exact ⟨rfl, hport.symm, hhurry.symm.trans hh⟩

lemma Inv.hurry {cfg : Config} {s : Daemon} {v : View} (h : Inv cfg s v) {id : ℤ} (cls : Str)
    (hok : ∀ k, v id = some k → k.answered = true → s.clients id = none) :
    (v.line (.hurry id cls)).AcceptsAll cfg (handleHurry cfg id s).2 ∧
      Inv cfg (handleHurry cfg id s).1 ((v.line (.hurry id cls)).afterOuts (handleHurry cfg id s).2) := by
  have hline : ∀ id', id' ≠ id → v.line (.hurry id cls) id' = v id' := fun id' hid => update_of_ne hid ..
  have hself : v.line (.hurry id cls) id = (v id).map (fun k => { k with hurry := true }) := update_self ..
  unfold handleHurry
  split
  · next hnone =>
    refine ⟨trivial, h.core, h.waits, fun id' hid => ?_, fun id' k' r hid hk' hr => ?_,
      fun id' k' hid hk' => ?_⟩
    · by_cases he : id' = id
      · rw [he]
        exact hnone
      · exact h.agree.gone id' (hline id' he ▸ hid)
    · by_cases he : id' = id
      · rw [he, hnone] at hr
        exact absurd hr (some_ne_none r).symm
      · exact h.agree.done id' k' r (hline id' he ▸ hid) hk' hr
    · by_cases he : id' = id
      · rw [he] at hid
        obtain ⟨k, hk, rfl⟩ := map_eq_some_iff.1 (hself.symm.trans hid)
        obtain ⟨r, hr, -⟩ := h.agree.live id k hk hk'
        exact absurd (hnone.symm.trans hr) (some_ne_none r).symm
      · exact h.agree.live id' k' (hline id' he ▸ hid) hk'
  · next r hr =>
    set s' := s.modify r (fun c => { c with hurry := true }) with hs'
    have hrid : (s.obj r).id = id := (h.core.table id r hr).2
    have hobj : s'.obj r = { s.obj r with hurry := true } := by rw [hs', Daemon.modify_obj_self]
    have hother : ∀ q, q ≠ r → s'.obj q = s.obj q := fun q hq => s.modify_obj_of_ne _ hq
    have hl : ∀ q, (s'.obj q).lookups = (s.obj q).lookups ∧ (s'.obj q).id = (s.obj q).id := by
      intro q
      by_cases hq : q = r
      · rw [hq, hobj]
        exact ⟨rfl, rfl⟩
      · rw [hother q hq]
        exact ⟨rfl, rfl⟩
    -- Two descriptors do not share an object.
    have hne : ∀ id' q, id' ≠ id → s.clients id' = some q → q ≠ r := by
      rintro id' q hid hq rfl
      exact hid ((h.core.table id' q hq).2.symm.trans hrid)
    apply Inv.update
    · refine ⟨fun id' q hq => ?_, h.core.ref, fun q => ?_, fun q n => ?_, h.core.nodup,
        fun p hp hh => ?_⟩
      · rw [(hl q).2]
        exact h.core.table id' q hq
      · rw [(hl q).1]
        exact h.core.started q
      · rw [(hl q).1]
        exact h.core.tracks q n
      · rw [(hl p.ref).2]
        by_cases hpr : p.ref = r
        · rw [hpr, hrid]
          exact hr
        · rw [hother _ hpr] at hh
          exact h.core.stale p hp hh
    · intro id' q hq hqr hh
      have hqr' : q ≠ r := fun e => hqr (congrArg some e)
      rw [hother q hqr'] at hh ⊢
      exact h.waits id' q hq (some_ne_none q) hh
    · refine ⟨fun id' hid => ?_, fun id' k' q hid hk' hq => ?_, fun id' k' hid hk' => ?_⟩
      · by_cases he : id' = id
        · rw [he, hself, Option.map_eq_none_iff] at hid
          exact absurd ((h.agree.gone id hid).symm.trans hr) (some_ne_none r).symm
        · exact h.agree.gone id' (hline id' he ▸ hid)
      · by_cases he : id' = id
        · rw [he, hself] at hid
          obtain ⟨k, hk, rfl⟩ := map_eq_some_iff.1 hid
          exact absurd ((hok k hk hk').symm.trans hr) (some_ne_none r).symm
        · rw [hother q (hne id' q he hq)]
          exact h.agree.done id' k' q (hline id' he ▸ hid) hk' hq
      · by_cases he : id' = id
        · rw [he, hself] at hid
          obtain ⟨k, hk, rfl⟩ := map_eq_some_iff.1 hid
          obtain ⟨q, hq, hip, hport, -, hkeys⟩ := h.agree.live id k hk hk'
          obtain rfl := some_inj.1 (hr.symm.trans hq)
          refine ⟨r, by rw [he]; exact hr, ?_⟩
          rw [hobj]
          exact ⟨hip, hport, rfl, hkeys⟩
        · obtain ⟨q, hq, hrest⟩ := h.agree.live id' k' (hline id' he ▸ hid) hk'
          refine ⟨q, hq, ?_⟩
          rw [hother q (hne id' q he hq)]
          exact hrest
    · intro _
      rw [(hl r).2, hrid]
      exact hr

lemma Inv.auth {v : View} (h : Inv cfg s v) (id : ℤ) (account : Str) :
    v.AcceptsAll cfg (handleAuth cfg id account s).2 ∧
      Inv cfg (handleAuth cfg id account s).1 (v.afterOuts (handleAuth cfg id account s).2) := by
  unfold handleAuth
  split
  · exact ⟨trivial, h⟩
  · next r hr =>
    have hsame : SameDaemon s (s.modify r (fun c => { c with account := some account })) :=
      sameDaemon_modify s r (fun _ => ⟨rfl, rfl, rfl, rfl, rfl⟩)
    have hinv := hsame.inv h
    apply Inv.update hinv.core _ hinv.agree
    · intro _
      rw [(hsame.obj r).id, (h.core.table id r hr).2]
      exact hr
    · exact fun id' q hq _ => hinv.waits id' q hq (some_ne_none q)

lemma Inv.disconnect {v : View} (h : Inv cfg s v) (hok : ∀ c, s.client id = some c → c.hurry = false) :
    Inv cfg (s.deleteClient id) (v.line (.disconnect id)) := by
  have hline : ∀ id', id' ≠ id → v.line (.disconnect id) id' = v id' := fun id' hid => update_of_ne hid ..
  have hself : v.line (.disconnect id) id = none := update_self ..
  refine ⟨h.core.deleteClient (fun p _ hh he => ?_), h.waits.deleteClient id, fun id' hid => ?_,
    fun id' k r hid hk hr => ?_, fun id' k hid hk => ?_⟩
  · rw [hok _ (by rw [Daemon.client, he, map_some])] at hh
    exact absurd hh (by decide)
  · by_cases he : id' = id
    · rw [he]
      exact s.deleteClient_self id
    · rw [s.deleteClient_of_ne he]
      exact h.agree.gone id' (hline id' he ▸ hid)
  · by_cases he : id' = id
    · rw [he, hself] at hid
      exact absurd hid (some_ne_none k).symm
    · rw [s.deleteClient_of_ne he] at hr
      exact h.agree.done id' k r (hline id' he ▸ hid) hk hr
  · by_cases he : id' = id
    · rw [he, hself] at hid
      exact absurd hid (some_ne_none k).symm
    · rw [s.deleteClient_of_ne he]
      exact h.agree.live id' k (hline id' he ▸ hid) hk

/-! ## SASL -/

lemma acceptsAll_of_none (cfg : Config) (v : View) (outs : List Out)
    (h : ∀ o ∈ outs, o.verdict = none) : v.AcceptsAll cfg outs ∧ v.afterOuts outs = v := by
  induction outs with
  | nil => exact ⟨trivial, rfl⟩
  | cons o outs ih =>
    have ho := h o List.mem_cons_self
    have hrest := ih (fun o' ho' => h o' (List.mem_cons_of_mem _ ho'))
    simpa [View.AcceptsAll, View.afterOuts, ho] using hrest

lemma handleSASLStart_same (cfg : Config) (id : ℤ) (args : Str) (s : Daemon) :
    (∀ o ∈ (handleSASLStart cfg id args s).2, o.verdict = none) ∧
      (SameDaemon s (handleSASLStart cfg id args s).1 ∨ (s.clients id = none ∧
        SameDaemon (s.addClient (newClient id "0.0.0.0".toList 0 [] 0 false
          (some ⟨none, false, none, none⟩))) (handleSASLStart cfg id args s).1)) := by
  have hrefl : SameDaemon s s := ⟨rfl, rfl, rfl, fun _ => ⟨rfl, rfl, rfl, rfl, rfl⟩⟩
  unfold handleSASLStart
  split
  · exact ⟨by simp [Out.verdict], Or.inl hrefl⟩
  · set s₁ := if (s.clients id).isSome then s else s.addClient (newClient id "0.0.0.0".toList 0 [] 0
      false (some ⟨none, false, none, none⟩)) with hs₁
    have hrefl₁ : SameDaemon s₁ s₁ := ⟨rfl, rfl, rfl, fun _ => ⟨rfl, rfl, rfl, rfl, rfl⟩⟩
    have hchoice : ∀ {s₂ : Daemon}, SameDaemon s₁ s₂ → SameDaemon s s₂ ∨ (s.clients id = none ∧
        SameDaemon (s.addClient (newClient id "0.0.0.0".toList 0 [] 0 false
          (some ⟨none, false, none, none⟩))) s₂) := by
      intro s₂ h
      by_cases hsome : (s.clients id).isSome = true
      · rw [hs₁, if_pos hsome] at h
        exact .inl h
      · rw [hs₁, if_neg hsome] at h
        exact .inr ⟨by simpa using hsome, h⟩
    dsimp only
    split
    · exact ⟨by simp, hchoice hrefl₁⟩
    · next r _ =>
      -- Behind the choice of the entry, only SASL states are written.
      have h₂ : SameDaemon s₁ (s₁.modify r (fun c => { c with
          sasl := some (c.sasl.getD ⟨none, false, none, none⟩) })) :=
        sameDaemon_modify s₁ r (fun _ => ⟨rfl, rfl, rfl, rfl, rfl⟩)
      split
      · exact ⟨by simp, hchoice h₂⟩
      · split
        · split
          · exact ⟨by simp, hchoice h₂⟩
          · refine ⟨by simp, hchoice (h₂.trans ?_)⟩
            dsimp only
            apply sameDaemon_modify
            exact fun _ => ⟨rfl, rfl, rfl, rfl, rfl⟩
        · split
          · split
            · refine ⟨by simp [Out.verdict], hchoice (h₂.trans ?_)⟩
              dsimp only
              apply sameDaemon_modify
              exact fun _ => ⟨rfl, rfl, rfl, rfl, rfl⟩
            · refine ⟨by simp [Out.verdict], hchoice (h₂.trans ?_)⟩
              dsimp only
              apply sameDaemon_modify
              exact fun _ => ⟨rfl, rfl, rfl, rfl, rfl⟩
          · exact ⟨by simp, hchoice h₂⟩

lemma Inv.saslStart {v : View} (h : Inv cfg s v) (args : Str)
    (hv : v id ≠ none) : Inv cfg (handleSASLStart cfg id args s).1 v := by
  rcases (handleSASLStart_same cfg id args s).2 with hsame | ⟨hnone, hsame⟩
  · exact hsame.inv h
  · obtain ⟨k, hk⟩ := Option.ne_none_iff_exists'.1 hv
    refine hsame.inv (h.addClient rfl ((h.core.addClient rfl (fun r hr => ?_)).starts_nothing s.next)
      (fun _ _ => rfl) ⟨k, hk, fun hans => ?_⟩)
    · exact absurd (hnone.symm.trans hr) (some_ne_none r).symm
    · obtain ⟨r, hr, -⟩ := h.agree.live id k hk hans
      exact absurd (hnone.symm.trans hr) (some_ne_none r).symm

lemma handleSASLContinue_same (cfg : Config) (id : ℤ) (args : Str) (s : Daemon) :
    (∀ o ∈ (handleSASLContinue cfg id args s).2, o.verdict = none) ∧
      SameDaemon s (handleSASLContinue cfg id args s).1 := by
  have hobj : ∀ r, SameClient (s.obj r) (s.obj r) := fun _ => ⟨rfl, rfl, rfl, rfl, rfl⟩
  unfold handleSASLContinue
  split
  · exact ⟨by simp [Out.verdict], rfl, rfl, rfl, hobj⟩
  · split
    · split
      · exact ⟨by simp, rfl, rfl, rfl, hobj⟩
      · exact ⟨by simp [Out.verdict], rfl, rfl, rfl, hobj⟩
    · exact ⟨by simp [Out.verdict], rfl, rfl, rfl, hobj⟩

lemma authEnds_same (k : ℕ) (account : Option Str) (s : Daemon) :
    (∀ o ∈ (authEnds k account s).2, o.verdict = none) ∧ SameDaemon s (authEnds k account s).1 := by
  have hobj : ∀ r, SameClient (s.obj r) (s.obj r) := fun _ => ⟨rfl, rfl, rfl, rfl, rfl⟩
  unfold authEnds
  split
  · exact ⟨by simp, rfl, rfl, rfl, hobj⟩
  · next r _ =>
    split
    · next account =>
      have hm : SameDaemon { s with auths := s.auths.eraseIdx k }
          (({ s with auths := s.auths.eraseIdx k } : Daemon).modify r
            (fun c => { c with account := some account })) :=
        sameDaemon_modify _ r (fun _ => ⟨rfl, rfl, rfl, rfl, rfl⟩)
      refine ⟨fun o ho => ?_, hm.clients, hm.next, hm.pending, hm.obj⟩
      obtain ⟨c, -, rfl⟩ := map_eq_some_iff.1 (Option.mem_toList.1 ho)
      rfl
    · exact ⟨by simp [Out.verdict], rfl, rfl, rfl, hobj⟩

lemma Inv.handle {cfg : Config} {s : Daemon} {v : View} (h : Inv cfg s v) (now : ℤ) {e : Event}
    (ha : v.Allows e) (hok : Undisturbed s v e) : ∃ s' outs, handle cfg now s e = some (s', outs) ∧
    (v.line e).AcceptsAll cfg outs ∧ Inv cfg s' ((v.line e).afterOuts outs) := by
  cases e with
  | intro id ip port serverIp serverPort =>
    obtain ⟨s', hs, hinv⟩ := h.intro now port serverIp serverPort ha.1 ha.2
    exact ⟨s', [], hs, trivial, hinv⟩
  | disconnect id => exact ⟨_, _, rfl, trivial, h.disconnect hok⟩
  | auth id account => exact ⟨_, _, rfl, h.auth id account⟩
  | hurry id cls => exact ⟨_, _, rfl, h.hurry cls hok⟩
  | saslStart id args =>
    have hnone := acceptsAll_of_none cfg v _ (handleSASLStart_same cfg id args s).1
    refine ⟨(handleSASLStart cfg id args s).1, (handleSASLStart cfg id args s).2, rfl, hnone.1, ?_⟩
    show Inv cfg (handleSASLStart cfg id args s).1 (v.afterOuts (handleSASLStart cfg id args s).2)
    rw [hnone.2]
    exact h.saslStart args ha
  | saslContinue id args =>
    obtain ⟨hnone, hsame⟩ := handleSASLContinue_same cfg id args s
    refine ⟨(handleSASLContinue cfg id args s).1, (handleSASLContinue cfg id args s).2, rfl,
      (acceptsAll_of_none cfg v _ hnone).1, ?_⟩
    show Inv cfg (handleSASLContinue cfg id args s).1 (v.afterOuts (handleSASLContinue cfg id args s).2)
    rw [(acceptsAll_of_none cfg v _ hnone).2]
    exact hsame.inv h
  | webirc id password username hostname newIp =>
    obtain ⟨houts, hinv⟩ := h.webirc now password username hostname newIp ha hok
    refine ⟨_, [], congrArg some (Prod.ext rfl houts), trivial, hinv⟩
  | lookupEnds k answers => exact ⟨_, _, rfl, h.lookupEnds now k answers⟩
  | authEnds k account =>
    obtain ⟨hnone, hsame⟩ := authEnds_same k account s
    refine ⟨(authEnds k account s).1, (authEnds k account s).2, rfl, (acceptsAll_of_none cfg v _ hnone).1, ?_⟩
    show Inv cfg (authEnds k account s).1 (v.afterOuts (authEnds k account s).2)
    rw [(acceptsAll_of_none cfg v _ hnone).2]
    exact hsame.inv h

lemma Run.inv {v : View} (h : Run cfg Undisturbed s v) : Inv cfg s v := by
  induction h with
  | start => exact inv_start cfg
  | step _ now e ha hok hs ih =>
    obtain ⟨s', outs, hs', -, hinv⟩ := ih.handle now ha hok
    obtain ⟨rfl, rfl⟩ := Prod.mk.inj (some_inj.1 (hs'.symm.trans hs))
    exact hinv

def sampleConfig : Config where
  dnsbls := [⟨1, "dnsbl".toList, [], [], [], none, false, [], none⟩]
  blockMsg := "blocked".toList
  cacheTime := 86400
  saslEnabled := true
  decodeSASLPlain := fun _ => none
  nodup := by decide

def sampleStep (sv : Daemon × View) (e : Event) : Daemon × View :=
  match handle sampleConfig 0 sv.1 e with
  | none => sv
  | some r => (r.1, (sv.2.line e).afterOuts r.2)

lemma Run.sampleStep {sv : Daemon × View} (h : Run sampleConfig (fun _ _ _ => True) sv.1 sv.2) (e : Event)
    (ha : sv.2.Allows e) : Run sampleConfig (fun _ _ _ => True) (sampleStep sv e).1 (sampleStep sv e).2 := by
  unfold Iauthd.sampleStep
  split
  · exact h
  · next r hr => exact h.step 0 e ha trivial hr

/-- A client that has had its Hurry disconnects while it waits for a lookup, and another one is
introduced with the same descriptor. -/
def sampleReuse : Daemon × View :=
  sampleStep (sampleStep (sampleStep (sampleStep (Daemon.start, fun _ => none)
    (.intro 5 "1.2.3.4".toList 1000 [] 0)) (.hurry 5 [])) (.disconnect 5))
    (.intro 5 "5.6.7.8".toList 2000 [] 0)

def sampleEnd : Daemon × List Out := lookupEnds sampleConfig 0 0 [] sampleReuse.1

end Nefarious.Iauthd
