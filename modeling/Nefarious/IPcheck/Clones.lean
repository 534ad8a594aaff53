import Nefarious.IPcheck

/-!
# Counting the connections

Connections are checked, fail, exit, time passes and the timer runs.

Names: `IPcheck.c`.
-/

namespace Nefarious.IPcheck

open Option (getD_some map_some)

/-! ## The system -/

/-- The registry, the time, and the histories. `hashTable`. -/
structure Clones where
  registry : Registry
  /-- `CurrentTime`. -/
  now : ℕ
  /-- The addresses of the connections that were accepted and not disconnected. -/
  live : List Addr
  /-- The times of the attempts from each class, newest first. -/
  attempts : List ℕ → List ℕ
  /-- When the time of the class was last recorded. -/
  last : List ℕ → ℕ

/-- The server is started. `IPcheck_init`. -/
def Clones.init (now : ℕ) : Clones := ⟨fun _ => [], now, [], fun _ => [], fun _ => 0⟩

/-- What happens to the registry. -/
inductive Event
  | tick (now : ℕ)
  /-- A local client connects. `ip_registry_check_local`. -/
  | local (ip : Addr)
  /-- A remote client connects. `ip_registry_check_remote`. -/
  | remote (ip : Addr) (is_burst : Bool)
  /-- A client is rejected. `ip_registry_connect_fail`. -/
  | fail (ip : Addr) (disconnect : Bool)
  /-- A client exits. `ip_registry_disconnect`. -/
  | disconnect (ip : Addr) (cptr : Option LocalClient)
  /-- The timer runs. `ip_registry_expire`. -/
  | expire

/-- The entry of an address. `ip_registry_find`. -/
def Clones.entry (s : Clones) (ip : Addr) : Option IPRegistryEntry := ipRegistryFind s.registry ip

/-- The counter of the class is at its end. -/
def Clones.full (s : Clones) (ip : Addr) : Bool := (s.entry ip).any (fun e => e.connected + 1 = 0)

/-- The time is recorded for the class. -/
def Clones.touch (s : Clones) (ip : Addr) : Clones :=
  { s with last := Function.update s.last (ipClass ip) s.now }

/-- An attempt that the registry counts. -/
def Clones.attempt (s : Clones) (ip : Addr) : Clones :=
  { s.touch ip with
    attempts := Function.update s.attempts (ipClass ip) (s.now :: s.attempts (ipClass ip)) }

/-- What the histories record of a remote connection: none of an address that is not set, nor when the counter
is at its end; one of a burst is not an attempt, and records the time only when it makes an entry.
`ip_registry_check_remote`. -/
def Clones.remote (s : Clones) (ip : Addr) (is_burst : Bool) : Clones :=
  if inAddrValid ip.groups = false ∨ s.full ip then s
  else if is_burst then (if (s.entry ip).isNone then s.touch ip else s)
  else s.attempt ip

/-- One event. A connection is disconnected once. -/
def Clones.step (conf : IPcheckConf) (since : ℕ) (s : Clones) : Event → Option Clones
  | .tick now => if s.now ≤ now then some { s with now := now } else none
  | .local ip =>
    let res := ipRegistryCheckLocal conf since s.now s.registry ip
    let s := if s.full ip then s else s.attempt ip
    some { s with registry := res.1, live := if res.2.1 then ip :: s.live else s.live }
  | .remote ip is_burst =>
    let res := ipRegistryCheckRemote conf s.now s.registry ip is_burst
    let s := s.remote ip is_burst
    some { s with registry := res.1, live := if res.2 then ip :: s.live else s.live }
  | .fail ip disconnect =>
    let r := ipRegistryConnectFail s.registry ip disconnect
    if disconnect then
      if ip ∈ s.live then some { s with registry := r, live := s.live.erase ip } else none
    else some { s with registry := r }
  | .disconnect ip cptr =>
    if ip ∈ s.live then do
      let r ← ipRegistryDisconnect conf s.now s.registry ip cptr
      let s := if inAddrValid ip.groups ∧ (s.entry ip).any (fun e => e.connected - 1 = 0) then
        s.touch ip else s
      some { s with registry := r, live := s.live.erase ip }
    else none
  | .expire => some { s with registry := ipRegistryExpire s.now s.registry }

def Clones.run (conf : IPcheckConf) (since : ℕ) (s : Clones) : List Event → Option Clones
  | [] => some s
  | e :: es => do (← s.step conf since e).run conf since es

/-- Every step of a run meets a condition. -/
def Clones.Meets (conf : IPcheckConf) (since : ℕ) (cond : Clones → Event → Prop) (s : Clones) :
    List Event → Prop
  | [] => True
  | e :: es => cond s e ∧ ∀ t, s.step conf since e = some t → t.Meets conf since cond es

lemma Clones.Meets.induction {conf : IPcheckConf} {since : ℕ} {cond : Clones → Event → Prop}
    {P : Clones → Prop} (hstep : ∀ s e t, P s → cond s e → s.step conf since e = some t → P t) :
    (es : List Event) → ∀ {s t : Clones}, P s → s.Meets conf since cond es → s.run conf since es = some t → P t
  | [], s, t, hs, _, hrun => by
    cases hrun
    exact hs
  | e :: es, s, t, hs, ⟨hcond, hrest⟩, hrun => by
    obtain ⟨u, hu, hrun⟩ := Option.bind_eq_some_iff.mp hrun
    exact Clones.Meets.induction hstep es (hstep s e u hs hcond hu) (hrest u hu) hrun

/-! ## The counts -/

/-- The connections of an entry. `ip_registry_count`. -/
def connections (o : Option IPRegistryEntry) : ℕ := (o.map (fun e => e.connected.toNat)).getD 0

def Clones.number (live : List Addr) (k : List ℕ) : ℕ := live.countP (fun ip => ipClass ip = k)

/-- The registry has the number of connections of each class. -/
structure Clones.Counted (s : Clones) : Prop where
  ok : s.registry.Ok
  valid : ∀ ip ∈ s.live, inAddrValid ip.groups = true
  count : ∀ k, connections (s.registry.at k) = number s.live k

/-- When the registry can count an event: the address is set, and a remote connection does not come when its
class has 65535 connections. `ip_registry_check_remote`. -/
def Clones.Countable (s : Clones) : Event → Prop
  | .local ip => inAddrValid ip.groups = true
  | .remote ip _ => inAddrValid ip.groups = true ∧ ipRegistryCount s.registry ip ≠ 65535
  | _ => True

lemma count_eq {r : Registry} (h : r.Ok) (ip : Addr) :
    ipRegistryCount r ip = connections (r.at (ipClass ip)) := by
  rw [ipRegistryCount, find_eq h]
  cases r.at (ipClass ip) <;> rfl

lemma add_one_ne_zero_iff {c : UInt16} : c + 1 ≠ 0 ↔ c.toNat ≠ 65535 := by
  rw [not_iff_not, ← UInt16.toNat_inj, UInt16.toNat_add]
  have := c.toNat_lt
  simp
  omega

section Counted

variable {conf : IPcheckConf} {since : ℕ} {s t : Clones} {ip : Addr}

variable {r : Registry} {o : Option IPRegistryEntry} {e : IPRegistryEntry}

lemma Clones.Counted.sets {live : List Addr} (h : s.Counted) (hsets : s.registry.Sets r (ipClass ip) o)
    (hvalid : ∀ ip ∈ live, inAddrValid ip.groups = true) (hself : connections o = number live (ipClass ip))
    (hother : ∀ k, k ≠ ipClass ip → number live k = number s.live k) (ht : t.registry = r)
    (hlive : t.live = live) : t.Counted := by
  refine ⟨ht ▸ hsets.1, hlive ▸ hvalid, fun k => ?_⟩
  rw [ht, hlive, hsets.2]
  by_cases hk : k = ipClass ip
  · subst hk
    rw [Function.update_self]
    exact hself
  · rw [Function.update_of_ne hk, hother k hk]
    exact h.count k

lemma number_cons (live : List Addr) (k : List ℕ) :
    Clones.number (ip :: live) k = Clones.number live k + if ipClass ip = k then 1 else 0 := by
  rw [Clones.number, List.countP_cons, Clones.number]
  simp

lemma number_erase {live : List Addr} (h : ip ∈ live) (k : List ℕ) :
    Clones.number (live.erase ip) k + (if ipClass ip = k then 1 else 0) = Clones.number live k := by
  rw [Clones.number, Clones.number, (List.perm_cons_erase h).countP_eq, List.countP_cons]
  simp

lemma connections_add_one {c : UInt16} (ho : connections o = c.toNat) (hc : c + 1 ≠ 0)
    (he : e.connected = c + 1) : connections (some e) = connections o + 1 := by
  have := add_one_ne_zero_iff.mp hc
  have hlt := c.toNat_lt
  rw [connections, map_some, getD_some, he, ho, UInt16.toNat_add]
  simp
  omega

lemma connections_sub_one {e' : IPRegistryEntry} (hpos : 0 < connections (some e))
    (he : e'.connected = e.connected - 1) : connections (some e') + 1 = connections (some e) := by
  rw [connections, map_some, getD_some] at hpos ⊢
  rw [connections, map_some, getD_some, he,
    UInt16.toNat_sub_of_le e.connected 1 (UInt16.le_iff_toNat_le.mpr hpos)]
  exact Nat.sub_add_cancel hpos

lemma Clones.Counted.checked (h : s.Counted)
    (hsets : s.registry.Sets r (ipClass ip) (some e)) (hvalid : inAddrValid ip.groups = true)
    (accepted : Bool) (hcount : connections (some e) = connections (s.registry.at (ipClass ip)) +
      if accepted then 1 else 0) (ht : t.registry = r)
    (hlive : t.live = if accepted then ip :: s.live else s.live) : t.Counted := by
  cases accepted with
  | false =>
    refine h.sets hsets h.valid ?_ (fun _ _ => rfl) ht hlive
    rw [hcount, h.count]
    rfl
  | true =>
    have hvalid' : ∀ a ∈ ip :: s.live, inAddrValid a.groups = true := by
      intro a ha
      rcases List.mem_cons.mp ha with rfl | ha
      · exact hvalid
      · exact h.valid a ha
    refine h.sets hsets hvalid' ?_ ?_ ht hlive
    · rw [hcount, h.count, number_cons, if_pos rfl, if_pos rfl]
    · intro k hk
      rw [number_cons, if_neg (Ne.symm hk), Nat.add_zero]

lemma connections_onLocal (conf : IPcheckConf) (since now : ℕ) (ip : Addr)
    (o : Option IPRegistryEntry) : let res := onLocal conf since now ip o
    connections (some res.1) = connections o + if res.2.1 then 1 else 0 := by
  cases o with
  | none => rfl
  | some e =>
    by_cases hc : e.connected + 1 = 0
    · rw [onLocal, checkLocalEntry, if_pos hc]
      rfl
    · obtain ⟨-, -, -, hconn, -⟩ := checkLocalEntry_spec conf since now hc
      intro res
      rw [show res = checkLocalEntry conf since now e from rfl]
      split at hconn
      case isTrue hok =>
        rw [if_pos hok]
        exact connections_add_one (o := some e) rfl hc hconn
      case isFalse hok =>
        rw [if_neg hok, connections, map_some, hconn]
        rfl

lemma connections_onRemote (conf : IPcheckConf) (now : ℕ) (is_burst : Bool) (ip : Addr) (ho : connections o ≠ 65535) :
    let res := onRemote conf now is_burst ip o
    connections (some res.1) = connections o + 1 ∧ res.2 = true := by
  cases o with
  | none => cases is_burst <;> exact ⟨rfl, rfl⟩
  | some e =>
    have hc : e.connected + 1 ≠ 0 := add_one_ne_zero_iff.mpr ho
    obtain ⟨-, hconn, hok, -, -⟩ := checkRemoteEntry_spec conf now is_burst hc
    exact ⟨connections_add_one (o := some e) rfl hc hconn, hok⟩

lemma remote_live (s : Clones) (ip : Addr) (is_burst : Bool) : (s.remote ip is_burst).live = s.live := by
  rw [Clones.remote]
  split
  · rfl
  · split
    · split <;> rfl
    · rfl

lemma Clones.Counted.local (h : s.Counted) (hvalid : inAddrValid ip.groups = true)
    (hs : s.step conf since (.local ip) = some t) : t.Counted := by
  cases hs
  obtain ⟨hsets, hres⟩ := checkLocal_sets h.ok conf since s.now ip
  refine h.checked hsets hvalid _ (connections_onLocal conf since s.now ip _) rfl ?_
  rw [← hres]
  split <;> rfl

lemma Clones.Counted.remote {is_burst : Bool} (h : s.Counted) (hcond : s.Countable (.remote ip is_burst))
    (hs : s.step conf since (.remote ip is_burst) = some t) : t.Counted := by
  obtain ⟨hvalid, hcond⟩ := hcond
  cases hs
  rw [count_eq h.ok] at hcond
  obtain ⟨hsets, hres⟩ := checkRemote_sets h.ok conf s.now is_burst hvalid
  obtain ⟨hcount, hok⟩ := connections_onRemote conf s.now is_burst ip hcond
  refine h.checked hsets hvalid true hcount rfl ?_
  simp only [hres, hok, if_true, remote_live]

lemma Clones.Counted.dropped {e' : IPRegistryEntry} (h : s.Counted)
    (hip : ip ∈ s.live) (hat : s.registry.at (ipClass ip) = some e)
    (he : e'.connected = e.connected - 1) (hsets : s.registry.Sets r (ipClass ip) (some e'))
    (ht : t.registry = r) (hlive : t.live = s.live.erase ip) : t.Counted := by
  have hcount := h.count (ipClass ip)
  have herase := number_erase hip (ipClass ip)
  rw [if_pos rfl] at herase
  rw [hat] at hcount
  have hsub := connections_sub_one (by omega) he
  refine h.sets hsets (fun a ha => h.valid a (List.mem_of_mem_erase ha)) (by omega) ?_ ht hlive
  intro k hk
  have := number_erase hip k
  rwa [if_neg (Ne.symm hk), Nat.add_zero] at this

lemma Clones.Counted.entry_of_live (h : s.Counted) (hip : ip ∈ s.live) :
    ∃ e, s.registry.at (ipClass ip) = some e := by
  cases hat : s.registry.at (ipClass ip) with
  | some e => exact ⟨e, rfl⟩
  | none =>
    have hcount := h.count (ipClass ip)
    have herase := number_erase hip (ipClass ip)
    rw [hat, connections, Option.map_none, Option.getD_none] at hcount
    rw [if_pos rfl] at herase
    omega

lemma Clones.Counted.fail {disconnect : Bool} (h : s.Counted)
    (hs : s.step conf since (.fail ip disconnect) = some t) : t.Counted := by
  have hsets := connectFail_sets h.ok ip disconnect
  cases disconnect with
  | false =>
    cases hs
    refine h.sets hsets h.valid ?_ (fun _ _ => rfl) rfl rfl
    rw [← h.count]
    cases s.registry.at (ipClass ip) <;> rfl
  | true =>
    rw [Clones.step, if_pos rfl] at hs
    split at hs
    case isFalse => cases hs
    case isTrue hip =>
      cases hs
      obtain ⟨e, hat⟩ := h.entry_of_live hip
      rw [hat] at hsets
      exact h.dropped hip hat rfl hsets rfl rfl

lemma Clones.Counted.disconnect {cptr : Option LocalClient} (h : s.Counted)
    (hs : s.step conf since (.disconnect ip cptr) = some t) : t.Counted := by
  rw [Clones.step] at hs
  split at hs
  case isFalse => cases hs
  case isTrue hip =>
    obtain ⟨r, hr, hs⟩ := Option.bind_eq_some_iff.mp hs
    cases hs
    obtain ⟨e, hat, hsets⟩ := disconnect_sets h.ok (h.valid ip hip) hr
    refine h.dropped hip hat (disconnectEntry_spec conf s.now cptr e).2.1 hsets rfl ?_
    split <;> rfl

lemma Clones.Counted.expire (h : s.Counted) (hs : s.step conf since .expire = some t) : t.Counted := by
  cases hs
  obtain ⟨hok, hat⟩ := expire_at h.ok s.now
  refine ⟨hok, h.valid, fun k => ?_⟩
  rw [hat, show number s.live k = _ from (h.count k).symm]
  cases s.registry.at k with
  | none => rfl
  | some e =>
    rw [Option.bind_some]
    split
    case isTrue hzero =>
      have hc : connections (some e) = 0 := by
        rw [connections, map_some, hzero]
        rfl
      rw [hc, ipRegistryExpireEntry]
      split
      · rfl
      · split
        · rw [connections, map_some, hzero]
          rfl
        · exact hc
    case isFalse => rfl

lemma Clones.Counted.step (h : s.Counted) : (e : Event) → s.Countable e →
    s.step conf since e = some t → t.Counted
  | .tick now, _, hs => by
    rw [Clones.step] at hs
    split at hs
    · cases hs
      exact ⟨h.ok, h.valid, h.count⟩
    · cases hs
  | .local _, hcond, hs => h.local hcond hs
  | .remote .., hcond, hs => h.remote hcond hs
  | .fail .., _, hs => h.fail hs
  | .disconnect .., _, hs => h.disconnect hs
  | .expire, _, hs => h.expire hs

lemma Clones.Counted.init (now : ℕ) : (Clones.init now).Counted :=
  ⟨⟨fun _ _ h => absurd h List.not_mem_nil, fun _ => List.nodup_nil⟩,
    fun _ h => absurd h List.not_mem_nil, fun _ => rfl⟩

/-- **The connections are counted.** In every run that the registry can count it has, for each address, the
number of connections of its class; a local connection that is refused changes no count, and a remote one is
accepted. -/
theorem clones_counted {now : ℕ} {es : List Event}
    (hmeets : (Clones.init now).Meets conf since Clones.Countable es)
    (hrun : (Clones.init now).run conf since es = some s) (ip : Addr) : ipRegistryCount s.registry ip =
    s.live.countP (fun a => ipClass a = ipClass ip) ∧ (∀ a,
    (ipRegistryCheckLocal conf since s.now s.registry a).2.1 = false →
    ipRegistryCount (ipRegistryCheckLocal conf since s.now s.registry a).1 ip = ipRegistryCount s.registry ip) ∧
    ∀ a is_burst, s.Countable (.remote a is_burst) →
    (ipRegistryCheckRemote conf s.now s.registry a is_burst).2 = true := by
  have h : s.Counted := Clones.Meets.induction (fun _ e _ h hcond hs => h.step e hcond hs) es
    (Clones.Counted.init now) hmeets hrun
  refine ⟨(count_eq h.ok ip).trans (h.count _), fun a ha => ?_, fun a is_burst hcond => ?_⟩
  · obtain ⟨hsets, hres⟩ := checkLocal_sets h.ok conf since s.now a
    have hcount := connections_onLocal conf since s.now a (s.registry.at (ipClass a))
    rw [hres] at ha
    simp only [ha, Bool.false_eq_true, if_false, Nat.add_zero] at hcount
    rw [count_eq hsets.1, count_eq h.ok, hsets.2, Function.update_apply]
    split
    case isTrue e => rw [hcount, e]
    case isFalse => rfl
  · obtain ⟨hvalid, hcond⟩ := hcond
    rw [count_eq h.ok] at hcond
    obtain ⟨-, hres⟩ := checkRemote_sets h.ok conf s.now is_burst hvalid
    rw [hres]
    exact (connections_onRemote conf s.now is_burst a hcond).2

end Counted

def sampleIp : Addr := ⟨[0, 0, 0, 0, 0, 65535, 0xc000, 0x0201], rfl, by decide⟩

/-- The configuration by default. `ircd_features.c` `features`. -/
def defaultConf : IPcheckConf := ⟨4, 40, 600⟩

theorem clones_counted_example : ∃ s, (Clones.init 0).run defaultConf 0 [.remote sampleIp false,
    .local sampleIp] = some s ∧ ipRegistryCount s.registry sampleIp = 2 := by
  have hmeets : (Clones.init 0).Meets defaultConf 0 Clones.Countable
      [.remote sampleIp false, .local sampleIp] := by
    refine ⟨⟨by decide, by decide⟩, fun t ht => ?_⟩
    cases ht
    exact ⟨(by decide : inAddrValid sampleIp.groups = true), fun _ _ => trivial⟩
  refine ⟨_, rfl, ?_⟩
  rw [(clones_counted hmeets rfl sampleIp).1]
  decide

lemma run_burst (conf : IPcheckConf) (since : ℕ) {ip : Addr} (hvalid : inAddrValid ip.groups = true) :
    (n : ℕ) → ∀ {s : Clones} {k : ℕ}, s.Counted → s.live = List.replicate k ip → k + n ≤ 65535 →
    ∃ t, s.run conf since (List.replicate n (.remote ip true)) = some t ∧ t.Counted ∧
      t.live = List.replicate (k + n) ip
  | 0, s, k, h, hlive, _ => ⟨s, rfl, h, hlive⟩
  | n + 1, s, k, h, hlive, hk => by
    have hnumber : connections (s.registry.at (ipClass ip)) = k := by
      rw [h.count, hlive, Clones.number, List.countP_replicate]
      simp
    have hcond : s.Countable (.remote ip true) := by
      refine ⟨hvalid, ?_⟩
      rw [count_eq h.ok, hnumber]
      omega
    obtain ⟨t, ht⟩ : ∃ t, s.step conf since (.remote ip true) = some t := ⟨_, rfl⟩
    have htlive : t.live = List.replicate (k + 1) ip := by
      obtain ⟨-, hres⟩ := checkRemote_sets h.ok conf s.now true hvalid
      have hok := (connections_onRemote conf s.now true ip (by rw [hnumber]; omega)).2
      cases ht
      simp only [hres, hok, if_true, remote_live, hlive, List.replicate_succ]
    obtain ⟨u, hu, hcounted, hulive⟩ := run_burst conf since hvalid n (h.remote hcond ht) htlive
      (show k + 1 + n ≤ 65535 by omega)
    refine ⟨u, ?_, hcounted, by rw [hulive]; congr 1; omega⟩
    rw [List.replicate_succ, Clones.run, ht]
    exact hu

/-- With 65535 connections of a class, one more remote connection is refused, and the count is zero:
the increment that wraps is not taken back. -/
theorem remote_overflow : ∃ s, (Clones.init 0).run defaultConf 0
      (List.replicate 65535 (.remote sampleIp true)) = some s ∧
    s.live = List.replicate 65535 sampleIp ∧ ipRegistryCount s.registry sampleIp = 65535 ∧
    (ipRegistryCheckRemote defaultConf s.now s.registry sampleIp true).2 = false ∧
    ipRegistryCount (ipRegistryCheckRemote defaultConf s.now s.registry sampleIp true).1 sampleIp = 0 := by
  obtain ⟨s, hs, h, hlive⟩ := run_burst defaultConf 0 (show inAddrValid sampleIp.groups = true by decide) 65535
    (Clones.Counted.init 0) (k := 0) rfl (by decide)
  have hcount : connections (s.registry.at (ipClass sampleIp)) = 65535 := by
    rw [h.count, hlive, Clones.number, List.countP_replicate]
    simp
  obtain ⟨hsets, hres⟩ := checkRemote_sets h.ok defaultConf s.now true
    (show inAddrValid sampleIp.groups = true by decide)
  cases hat : s.registry.at (ipClass sampleIp) with
  | none =>
    rw [hat] at hcount
    cases hcount
  | some e =>
    rw [hat] at hcount hres hsets
    have hwrap : e.connected + 1 = 0 := by
      by_contra hne
      exact add_one_ne_zero_iff.mp hne hcount
    have hremote : onRemote defaultConf s.now true sampleIp (some e) =
        ({ e with connected := e.connected + 1 }, false) := by
      rw [onRemote, checkRemoteEntry, if_pos hwrap]
    rw [hremote] at hres hsets
    refine ⟨s, hs, by rw [hlive], (count_eq h.ok _).trans (hat ▸ hcount), hres, ?_⟩
    rw [count_eq hsets.1, hsets.2, Function.update_self, connections, map_some, hwrap]
    rfl

end Nefarious.IPcheck
