import Nefarious.IPcheck.Clones

/-!
# The table of the registry

Of a 6to4 address a search compares three groups, but the bucket that it looks in comes from four: two 6to4
addresses with the same three groups and different fourth ones are of one class, and each can get an entry.

Names: `IPcheck.c`.
-/

namespace Nefarious.IPcheck

/-! ## Entries of a class -/

/-- A search for one address stops at the entry of the other. `ip_registry_find`. -/
def sameClass (a b : Addr) : Bool :=
  ipmaskCheck (ipRegistryCanonicalize a).groups (ipRegistryCanonicalize b).groups
    (if (ipRegistryCanonicalize a).groups.getD 0 0 = 0x2002 then 48 else 64)

/-- The addresses are 6to4 with the same three groups and different fourth ones. -/
def Straddle (a b : Addr) : Prop :=
  (ipRegistryCanonicalize a).groups.getD 0 0 = 0x2002 ∧
    (ipRegistryCanonicalize a).groups.take 3 = (ipRegistryCanonicalize b).groups.take 3 ∧
    (ipRegistryCanonicalize a).groups.getD 3 0 ≠ (ipRegistryCanonicalize b).groups.getD 3 0

/-- Remove an IP registry entry from the hash table. -/
def ipRegistryRemove (r : Registry) (entry : IPRegistryEntry) : Registry :=
  Function.update r (ipRegistryHash entry.addr) ((r (ipRegistryHash entry.addr)).erase entry)

/-- What is done to the table. -/
inductive TableOp
  /-- A new entry for an address without one. `ip_registry_check_local`, `ip_registry_check_remote`. -/
  | add (ip : Addr) (entry : IPRegistryEntry)
  | remove (entry : IPRegistryEntry)

/-- The address that an operation brings. -/
def TableOp.addr : TableOp → List Addr
  | .add ip _ => [ip]
  | .remove _ => []

/-- One operation; an entry is added after a search that found none. -/
def tableStep (r : Registry) : TableOp → Option Registry
  | .add ip entry =>
    if ipRegistryFind r ip = none then some (ipRegistryAdd r { entry with addr := ipRegistryCanonicalize ip })
    else none
  | .remove entry => some (ipRegistryRemove r entry)

def tableRun (r : Registry) : List TableOp → Option Registry
  | [] => some r
  | op :: ops => do tableRun (← tableStep r op) ops

/-- The entries of the table. `hashTable`. -/
def entries (r : Registry) : List IPRegistryEntry := (List.range 65536).flatMap r

/-- The table is keyed, and its entries are those of addresses that came. -/
structure Registry.From (r : Registry) (as : List Addr) : Prop where
  ok : r.Ok
  addr : ∀ i, ∀ e ∈ r i, ∃ a ∈ as, e.addr = ipRegistryCanonicalize a

lemma exists_groups {l : List ℕ} (h : l.length = 8) :
    ∃ a0 a1 a2 a3 a4 a5 a6 a7, l = [a0, a1, a2, a3, a4, a5, a6, a7] := by
  rcases l with _ | ⟨a0, _ | ⟨a1, _ | ⟨a2, _ | ⟨a3, _ | ⟨a4, _ | ⟨a5, _ | ⟨a6, _ | ⟨a7, _ | ⟨a8, l⟩⟩⟩⟩⟩⟩⟩⟩⟩
  all_goals first
    | exact ⟨_, _, _, _, _, _, _, _, rfl⟩
    | simp at h

lemma sameClass_iff (a b : Addr) : (sameClass a b = true →
    ipRegistryHash (ipRegistryCanonicalize a) = ipRegistryHash (ipRegistryCanonicalize b)) ↔ ¬Straddle a b := by
  rw [sameClass, Straddle, ipRegistryHash, ipRegistryHash]
  obtain ⟨as, hlen, hlt⟩ := ipRegistryCanonicalize a
  obtain ⟨bs, hlen', hlt'⟩ := ipRegistryCanonicalize b
  obtain ⟨a0, a1, a2, a3, a4, a5, a6, a7, rfl⟩ := exists_groups hlen
  obtain ⟨b0, b1, b2, b3, b4, b5, b6, b7, rfl⟩ := exists_groups hlen'
  simp only [List.mem_cons, List.not_mem_nil, or_false, forall_eq_or_imp, forall_eq] at hlt hlt'
  have hx := Nat.xor_lt_two_pow (n := 16) (Nat.xor_lt_two_pow hlt.1 hlt.2.1) hlt.2.2.1
  have hfour := xor_mod_inj hx hlt.2.2.2.1 hlt'.2.2.2.1
  simp only [hashGroups, List.getD_cons_zero, List.getD_cons_succ, List.take_succ_cons, List.take_zero]
  split
  case isTrue => simp [ipmaskCheck]; grind
  case isFalse => simp [ipmaskCheck]; grind

/-- Of several lists one that is not empty is all. -/
lemma flatMap_eq_of_nodup {α β : Type*} {f : α → List β} {x : α} : {l : List α} → l.Nodup → x ∈ l →
    (∀ y, y ≠ x → f y = []) → l.flatMap f = f x
  | y :: l, hl, hx, hf => by
    obtain ⟨hy, hl⟩ := List.nodup_cons.mp hl
    rw [List.flatMap_cons]
    by_cases hyx : y = x
    · subst hyx
      rw [List.flatMap_eq_nil_iff.mpr fun z hz => hf z fun hzy => hy (hzy ▸ hz), List.append_nil]
    · rw [hf y hyx, List.nil_append]
      exact flatMap_eq_of_nodup hl ((List.mem_cons.mp hx).resolve_left (Ne.symm hyx)) hf

section Runs

variable {r r' : Registry} {as : List Addr}

lemma Registry.From.step (h : r.From as) (op : TableOp) (hs : tableStep r op = some r') :
    r'.From (as ++ op.addr) := by
  cases op with
  | add ip entry =>
    rw [tableStep] at hs
    split at hs
    case isFalse => cases hs
    case isTrue hnone =>
      cases hs
      rw [find_eq h.ok] at hnone
      refine ⟨(sets_add h.ok hnone rfl).1, fun i e he => ?_⟩
      rw [ipRegistryAdd, Function.update_apply] at he
      have hold : ∀ j, e ∈ r j → ∃ a ∈ as ++ [ip], e.addr = ipRegistryCanonicalize a := by
        intro j hj
        obtain ⟨a, ha, hea⟩ := h.addr j e hj
        exact ⟨a, List.mem_append_left _ ha, hea⟩
      split at he
      · rcases List.mem_cons.mp he with rfl | he
        · exact ⟨ip, List.mem_append_right _ List.mem_cons_self, rfl⟩
        · exact hold _ he
      · exact hold _ he
  | remove entry =>
    cases hs
    have hsub : ∀ i, (ipRegistryRemove r entry i).Sublist (r i) := by
      intro i
      rw [ipRegistryRemove, Function.update_apply]
      split
      case isTrue hi => exact hi ▸ List.erase_sublist
      case isFalse => exact List.Sublist.refl _
    rw [TableOp.addr, List.append_nil]
    exact ⟨⟨fun i e he => h.ok.placed i e ((hsub i).subset he),
      fun i => (h.ok.nodup i).sublist ((hsub i).map _)⟩, fun i e he => h.addr i e ((hsub i).subset he)⟩

lemma Registry.From.run : (ops : List TableOp) → ∀ {r : Registry} {as : List Addr}, r.From as →
    tableRun r ops = some r' → r'.From (as ++ ops.flatMap TableOp.addr)
  | [], r, as, h, hrun => by
    cases hrun
    simpa using h
  | op :: ops, r, as, h, hrun => by
    obtain ⟨u, hu, hrun⟩ := Option.bind_eq_some_iff.mp hrun
    simpa using (h.step op hu).run ops hrun

lemma filter_entries (h : r.From as) {ip : Addr} (hapart : ∀ a ∈ as, ¬Straddle ip a) :
    (entries r).filter (sought (ipRegistryCanonicalize ip)) = (ipRegistryFind r ip).toList := by
  have hbucket : ∀ i, ∀ e ∈ r i, sought (ipRegistryCanonicalize ip) e = true →
      i = ipRegistryHash (ipRegistryCanonicalize ip) := by
    intro i e he hsought
    obtain ⟨a, ha, haddr⟩ := h.addr i e he
    rw [sought, haddr] at hsought
    rw [(sameClass_iff ip a).mpr (hapart a ha) hsought, ← haddr, ← hash_classOf]
    exact (h.ok.placed i e he).symm
  have hclass : (r (ipRegistryHash (ipRegistryCanonicalize ip))).filter (sought (ipRegistryCanonicalize ip)) =
      (ipRegistryFind r ip).toList := by
    rw [find_eq h.ok, Registry.at, ← h.ok.filter_eq, ipClass, hash_classOf]
    refine List.filter_congr fun e he => ?_
    rw [Bool.eq_iff_iff, bucket_hash h.ok he, decide_eq_true_eq]
  rw [entries, List.filter_flatMap, ← hclass]
  refine flatMap_eq_of_nodup List.nodup_range (List.mem_range.mpr (Nat.mod_lt _ (by decide))) fun i hi => ?_
  exact List.filter_eq_nil_iff.mpr fun e he hsought => hi (hbucket i e he hsought)

/-- **One entry for each class.** Two addresses that a search takes for the same are in one bucket if
and only if they are not 6to4 addresses with the same three groups and different fourth ones. In a run without
such addresses the entries that a search takes for those of an address are the one that it finds, if any. -/
theorem registry_one_each {ops : List TableOp} {ip : Addr} (a b : Addr)
    (hrun : tableRun (fun _ => []) ops = some r)
    (hapart : ∀ a ∈ ops.flatMap TableOp.addr, ¬Straddle ip a) : ((sameClass a b = true →
      ipRegistryHash (ipRegistryCanonicalize a) = ipRegistryHash (ipRegistryCanonicalize b)) ↔ ¬Straddle a b) ∧
    (entries r).filter (sought (ipRegistryCanonicalize ip)) = (ipRegistryFind r ip).toList := by
  have hinit : Registry.From (fun _ => []) [] :=
    ⟨⟨fun _ _ h => absurd h List.not_mem_nil, fun _ => List.nodup_nil⟩, fun _ _ h => absurd h List.not_mem_nil⟩
  exact ⟨sameClass_iff a b, filter_entries (hinit.run ops hrun) (by simpa using hapart)⟩

end Runs

def sample6to4 (g : UInt16) : Addr := ⟨[0x2002, 0xc000, 0x0201, g.toNat, 0, 0, 0, 1], rfl, by
  simpa using g.toNat_lt⟩

theorem registry_one_each_example : ∃ r, tableRun (fun _ => [])
      [.add (sample6to4 1) (ipRegistryNewEntry 0 (sample6to4 1))] = some r ∧
    (entries r).filter (sought (ipRegistryCanonicalize (sample6to4 1))) =
      (ipRegistryFind r (sample6to4 1)).toList := by
  refine ⟨_, rfl, (@registry_one_each _ [.add (sample6to4 1) (ipRegistryNewEntry 0 (sample6to4 1))]
    (sample6to4 1) (sample6to4 1) (sample6to4 1) rfl fun a ha => ?_).2⟩
  obtain rfl : a = sample6to4 1 := by simpa [TableOp.addr] using ha
  exact fun h => h.2.2 rfl

/-- Two 6to4 addresses of one class are in different buckets, and each gets an entry. -/
theorem registry_two_entries : sameClass (sample6to4 1) (sample6to4 2) = true ∧
    ipRegistryHash (ipRegistryCanonicalize (sample6to4 1)) ≠
      ipRegistryHash (ipRegistryCanonicalize (sample6to4 2)) ∧
    ∃ r e e', tableRun (fun _ => []) [.add (sample6to4 1) (ipRegistryNewEntry 0 (sample6to4 1)),
        .add (sample6to4 2) (ipRegistryNewEntry 0 (sample6to4 2))] = some r ∧
      e ∈ r (ipRegistryHash (sample6to4 1)) ∧ e' ∈ r (ipRegistryHash (sample6to4 2)) ∧ e ≠ e' ∧
      sought (sample6to4 1) e = true ∧ sought (sample6to4 1) e' = true := by
  refine ⟨by decide, by decide, _, { ipRegistryNewEntry 0 (sample6to4 1) with addr := sample6to4 1 },
    { ipRegistryNewEntry 0 (sample6to4 2) with addr := sample6to4 2 }, rfl, ?_, ?_, ?_, ?_, ?_⟩ <;> decide

/-! ## A rejected client -/

section Fail

variable {conf : IPcheckConf} {since : ℕ} {s t : Clones} {ip : Addr}

lemma step_ok (h : s.registry.Ok) : (e : Event) → s.step conf since e = some t → t.registry.Ok
  | .tick now, hs => by
    rw [Clones.step] at hs
    split at hs
    · cases hs
      exact h
    · cases hs
  | .local ip, hs => by
    cases hs
    exact (checkLocal_sets h conf since s.now ip).1.1
  | .remote ip is_burst, hs => by
    cases hs
    by_cases hvalid : inAddrValid ip.groups = true
    · exact (checkRemote_sets h conf s.now is_burst hvalid).1.1
    · show (ipRegistryCheckRemote conf s.now s.registry ip is_burst).1.Ok
      rwa [ipRegistryCheckRemote, if_pos (by simpa using hvalid)]
  | .fail ip disconnect, hs => by
    rw [Clones.step] at hs
    split at hs
    · split at hs
      · cases hs
        exact (connectFail_sets h ip _).1
      · cases hs
    · cases hs
      exact (connectFail_sets h ip _).1
  | .disconnect ip cptr, hs => by
    rw [Clones.step] at hs
    split at hs
    case isFalse => cases hs
    case isTrue =>
      obtain ⟨r, hr, hs⟩ := Option.bind_eq_some_iff.mp hs
      cases hs
      show r.Ok
      by_cases hvalid : inAddrValid ip.groups = true
      · obtain ⟨e, -, hsets⟩ := disconnect_sets h hvalid hr
        exact hsets.1
      · rw [ipRegistryDisconnect, if_pos (by simpa using hvalid)] at hr
        cases hr
        exact h
  | .expire, hs => by
    cases hs
    exact (expire_at h s.now).1

lemma run_ok : (es : List Event) → ∀ {s : Clones}, s.registry.Ok → s.run conf since es = some t → t.registry.Ok
  | [], s, h, hrun => by
    cases hrun
    exact h
  | e :: es, s, h, hrun => by
    obtain ⟨u, hu, hrun⟩ := Option.bind_eq_some_iff.mp hrun
    exact run_ok es (step_ok h e hu) hrun

/-- What a rejection leaves of an entry with attempts: not more of them, but one, and with one connection less when
the client counts as disconnecting. `ip_registry_connect_fail`. -/
structure Eased (disconnect : Bool) (e e' : IPRegistryEntry) : Prop where
  attempts_le : e'.attempts ≤ e.attempts
  attempts_pos : 1 ≤ e'.attempts
  connected : e'.connected = if disconnect then e.connected - 1 else e.connected
  rest : e' = { e with attempts := e'.attempts, connected := e'.connected }

/-- **A rejected client.** In every registry that a run reaches a rejection changes only the entry of the class,
and of that, when attempts are counted, only their number, which does not grow, and the connections. -/
theorem connectFail_kept {now : ℕ} {es : List Event} (hrun : (Clones.init now).run conf since es = some s)
    (ip : Addr) (disconnect : Bool) : let r' := ipRegistryConnectFail s.registry ip disconnect
    (∀ a, ipClass a ≠ ipClass ip → ipRegistryFind r' a = ipRegistryFind s.registry a) ∧
    (ipRegistryFind s.registry ip = none → r' = s.registry) ∧
    ∀ e, ipRegistryFind s.registry ip = some e → e.attempts ≠ 0 →
      ∃ e', ipRegistryFind r' ip = some e' ∧ Eased disconnect e e' := by
  have h : s.registry.Ok := run_ok es (Clones.Counted.init now).ok hrun
  obtain ⟨hok, hat⟩ := connectFail_sets h ip disconnect
  refine ⟨fun a ha => ?_, fun hnone => ?_, fun e he hne => ⟨connectFailEntry disconnect e, ?_,
    (connectFailEntry_attempts disconnect hne).2, (connectFailEntry_attempts disconnect hne).1, rfl, rfl⟩⟩
  · rw [find_eq hok, find_eq h, hat, Function.update_of_ne ha]
  · rw [ipRegistryConnectFail, hnone]
  · rw [find_eq h] at he
    rw [find_eq hok, hat, Function.update_self, he, Option.map_some]

end Fail

theorem connectFail_kept_example : ∃ s, (Clones.init 0).run defaultConf 0 [.local sampleIp, .local sampleIp] = some s ∧
    ∀ e, ipRegistryFind s.registry sampleIp = some e → e.attempts ≠ 0 → ∃ e',
      ipRegistryFind (ipRegistryConnectFail s.registry sampleIp true) sampleIp = some e' ∧ Eased true e e' :=
  ⟨_, rfl, (@connectFail_kept defaultConf 0 _ 0 [.local sampleIp, .local sampleIp] rfl sampleIp true).2.2⟩

/-- A rejection also counts a disconnection; and after a client of a burst it makes 255 attempts of none. -/
theorem connectFail_changes : (∃ s e e', (Clones.init 0).run defaultConf 0 [.local sampleIp] = some s ∧
      ipRegistryFind s.registry sampleIp = some e ∧
      ipRegistryFind (ipRegistryConnectFail s.registry sampleIp true) sampleIp = some e' ∧
      e.connected = 1 ∧ e'.connected = 0) ∧
    ∃ s e e', (Clones.init 0).run defaultConf 0 [.remote sampleIp true] = some s ∧
      ipRegistryFind s.registry sampleIp = some e ∧
      ipRegistryFind (ipRegistryConnectFail s.registry sampleIp false) sampleIp = some e' ∧
      e.attempts = 0 ∧ e'.attempts = 255 :=
  ⟨⟨_, _, _, rfl, rfl, rfl, rfl, rfl⟩, _, _, _, rfl, rfl, rfl, rfl, rfl⟩

end Nefarious.IPcheck
