import Nefarious.Address
import Nefarious.Lib.Buckets

/-!
# The registry of addresses

For every class of addresses that somebody connects from there is an entry with the number of connections, the
number of recent attempts and the time of the last one, in seconds modulo 2^16.

Names: `IPcheck.c`.
-/

namespace Nefarious.IPcheck

open Function (update)

open Lib.Buckets

/-! ## The source functions -/

/-- Stores free target information for a particular user. `struct IPTargetEntry` -/
structure IPTargetEntry where
  count : ℕ
  targets : List ℕ
  deriving DecidableEq

/-- Stores recent information about a particular IP address. `struct IPRegistryEntry` -/
structure IPRegistryEntry where
  target : Option IPTargetEntry
  addr : Addr
  last_connect : ℕ
  /-- Number of currently connected clients. -/
  connected : UInt16
  /-- Number of recent connection attempts. -/
  attempts : UInt8
  deriving DecidableEq

/-- The configuration. `ircd_features.h` `FEAT_IPCHECK_CLONE_LIMIT`, `FEAT_IPCHECK_CLONE_PERIOD`,
`FEAT_IPCHECK_CLONE_DELAY`. -/
structure IPcheckConf where
  limit : ℤ
  period : ℤ
  delay : ℤ

/-- `ircd_defs.h`. -/
def STARTTARGETS : ℕ := 10

/-- `s_user.h` `TARGET_DELAY`. -/
def TARGET_DELAY : ℕ := 128

/-- The address is not the unset one. The complement of a group is an `int`, and never zero. `res.h`
`irc_in_addr_valid` -/
def inAddrValid (gs : List ℕ) : Bool :=
  gs.getD 0 0 ≠ 0 ∨ gs.getD 1 0 ≠ gs.getD 0 0 ∨ gs.getD 2 0 ≠ gs.getD 0 0 ∨
    gs.getD 3 0 ≠ gs.getD 0 0 ∨ gs.getD 4 0 ≠ gs.getD 0 0 ∨ gs.getD 5 0 ≠ gs.getD 0 0 ∨
    gs.getD 6 0 ≠ gs.getD 0 0 ∨ gs.getD 7 0 ≠ gs.getD 0 0

/-- The first bits of two addresses are the same. `match.c`. -/
def ipmaskCheck : List ℕ → List ℕ → ℕ → Bool
  | a :: as, m :: ms, bits =>
    if bits < 16 then (a ^^^ m) >>> (16 - bits) = 0
    else if a ≠ m then false
    else if bits - 16 = 0 then true
    else ipmaskCheck as ms (bits - 16)
  | _, _, _ => true

/-- The registry, by its hash chains. `hashTable`. -/
abbrev Registry := ℕ → List IPRegistryEntry

/-- Report current time for tracking in `last_connect`. -/
def NOW (currentTime : ℕ) : ℕ := currentTime % 65536

/-- Time from `x` until now, in seconds. -/
def connectedSince (currentTime x : ℕ) : ℤ := (NOW currentTime : ℤ) - x

lemma getD_lt (ip : Addr) (i : ℕ) : ip.groups.getD i 0 < 65536 := by
  rw [List.getD_eq_getElem?_getD]
  cases h : ip.groups[i]? with
  | none => decide
  | some g => exact ip.lt g (List.mem_of_getElem? h)

/-- Convert IP addresses to canonical form for comparison. -/
def ipRegistryCanonicalize (ip : Addr) : Addr :=
  if inAddrIsIpv4 ip.groups then
    ⟨[0x2002, ip.groups.getD 6 0, ip.groups.getD 7 0, 0, 0, 0, 0, 0], rfl, by
      simpa using ⟨getD_lt ip 6, getD_lt ip 7⟩⟩
  else ip

/-- The exclusive or of the first four groups. `ip_registry_hash`. -/
def hashGroups (gs : List ℕ) : ℕ :=
  (gs.getD 0 0 ^^^ gs.getD 1 0 ^^^ gs.getD 2 0 ^^^ gs.getD 3 0) % 65536

/-- Calculate hash value for an IP address, from its first 64 bits. -/
def ipRegistryHash (ip : Addr) : ℕ :=
  hashGroups ip.groups

/-- The entry that a search for the canonical address stops at. `ip_registry_find` -/
def sought (canon : Addr) (entry : IPRegistryEntry) : Bool :=
  ipmaskCheck canon.groups entry.addr.groups (if canon.groups.getD 0 0 = 0x2002 then 48 else 64)

/-- Find an IP registry entry if one exists for the IP address. -/
def ipRegistryFind (r : Registry) (ip : Addr) : Option IPRegistryEntry :=
  (r (ipRegistryHash (ipRegistryCanonicalize ip))).find? (sought (ipRegistryCanonicalize ip))

/-- Write to the entry that was found. -/
def Registry.modify (r : Registry) (ip : Addr) (f : IPRegistryEntry → IPRegistryEntry) : Registry :=
  update r (ipRegistryHash (ipRegistryCanonicalize ip)) (modifyFirst (sought (ipRegistryCanonicalize ip)) f
      (r (ipRegistryHash (ipRegistryCanonicalize ip))))

/-- Add an IP registry entry to the hash table. -/
def ipRegistryAdd (r : Registry) (entry : IPRegistryEntry) : Registry :=
  update r (ipRegistryHash entry.addr) (entry :: r (ipRegistryHash entry.addr))

/-- Allocate a new IP registry entry, for this address. -/
def ipRegistryNewEntry (currentTime : ℕ) (addr : Addr) : IPRegistryEntry :=
  ⟨none, addr, NOW currentTime, 1, 1⟩

/-- Update free target count for the entry; the sum is an `unsigned int`. -/
def ipRegistryUpdateFreeTargets (currentTime : ℕ) (entry : IPRegistryEntry) : IPRegistryEntry × ℕ :=
  match entry.target with
  | none => (entry, STARTTARGETS)
  | some target =>
    let free := ((target.count + (connectedSince currentTime entry.last_connect).tdiv TARGET_DELAY) %
      2 ^ 32).toNat
    let free := if free > STARTTARGETS then STARTTARGETS else free
    ({ entry with target := some { target with count := free } }, free)

/-- Check whether all or part of the entry needs to be expired; an entry that is expired is removed. -/
def ipRegistryExpireEntry (currentTime : ℕ) (entry : IPRegistryEntry) : Option IPRegistryEntry :=
  if connectedSince currentTime entry.last_connect > 600 then none
  else if connectedSince currentTime entry.last_connect > 120 ∧ entry.target ≠ none then
    some { entry with target := none }
  else some entry

/-- Periodic timer callback to check for expired registry entries. -/
def ipRegistryExpire (currentTime : ℕ) (r : Registry) : Registry := fun i =>
  (r i).filterMap fun entry =>
    if entry.connected = 0 then ipRegistryExpireEntry currentTime entry else some entry

/-- Count an attempt; the counter stops at 255. `ip_registry_check_local`, `ip_registry_check_remote`. -/
def countAttempt (attempts : UInt8) : UInt8 := if attempts + 1 = 0 then attempts else attempts + 1

/-- The attempts that count when there is another one. `ip_registry_check_local`, `ip_registry_check_remote`. -/
def recentAttempts (conf : IPcheckConf) (currentTime : ℕ) (entry : IPRegistryEntry) :
    UInt8 :=
  if connectedSince currentTime entry.last_connect > conf.period then 0 else entry.attempts

/-- Permit the connection, or refuse it: when the attempts reach the limit, unless the server was just rebooted.
`ip_registry_check_local`. -/
def throttle (conf : IPcheckConf) (since currentTime free_targets : ℕ) (entry : IPRegistryEntry) :
    IPRegistryEntry × Bool × Option ℤ :=
  if (entry.attempts.toNat : ℤ) < conf.limit then
    (entry, true, some (currentTime - ((TARGET_DELAY * free_targets : ℤ) - 1) % 2 ^ 32))
  else if (currentTime : ℤ) - since > conf.delay then
    ({ entry with connected := entry.connected - 1 }, false, none)
  else (entry, true, none)

/-- What becomes of the entry when a local client connects, whether the connection is permitted, and the time to
grant another free target, if that is set. `since` is the time the server was started. `ip_registry_check_local`
-/
def checkLocalEntry (conf : IPcheckConf) (since currentTime : ℕ) (entry : IPRegistryEntry) :
    IPRegistryEntry × Bool × Option ℤ :=
  -- the counter is incremented, and decremented again
  if entry.connected + 1 = 0 then (entry, false, none)
  else
    let entry := { entry with
      connected := entry.connected + 1, attempts := recentAttempts conf currentTime entry }
    let res := ipRegistryUpdateFreeTargets currentTime entry
    throttle conf since currentTime res.2 { res.1 with
      last_connect := NOW currentTime, attempts := countAttempt res.1.attempts }

/-- Check whether a new connection from a local client should be allowed. -/
def ipRegistryCheckLocal (conf : IPcheckConf) (since currentTime : ℕ) (r : Registry) (ip : Addr) :
    Registry × Bool × Option ℤ :=
  match ipRegistryFind r ip with
  | none => (ipRegistryAdd r (ipRegistryNewEntry currentTime (ipRegistryCanonicalize ip)), true, none)
  | some entry =>
    let res := checkLocalEntry conf since currentTime entry
    (r.modify ip fun _ => res.1, res.2)

/-- What becomes of the entry when a remote client connects, and whether it should be accepted. `ip_registry_check_remote` -/
def checkRemoteEntry (conf : IPcheckConf) (currentTime : ℕ) (is_burst : Bool)
    (entry : IPRegistryEntry) : IPRegistryEntry × Bool :=
  let entry := { entry with connected := entry.connected + 1 }
  if entry.connected = 0 then (entry, false)
  else
    let entry := { entry with attempts := recentAttempts conf currentTime entry }
    if is_burst then (entry, true)
    else
      let entry := { entry with attempts := countAttempt entry.attempts }
      let entry := (ipRegistryUpdateFreeTargets currentTime entry).1
      ({ entry with last_connect := NOW currentTime }, true)

/-- Check whether a connection from a remote client should be allowed. -/
def ipRegistryCheckRemote (conf : IPcheckConf) (currentTime : ℕ) (r : Registry) (ip : Addr)
    (is_burst : Bool) : Registry × Bool :=
  if inAddrValid ip.groups = false then (r, true)
  else
    match ipRegistryFind r ip with
    | none =>
      let entry := ipRegistryNewEntry currentTime (ipRegistryCanonicalize ip)
      (ipRegistryAdd r (if is_burst then { entry with attempts := 0 } else entry), true)
    | some entry =>
      let res := checkRemoteEntry conf currentTime is_burst entry
      (r.modify ip fun _ => res.1, res.2)

/-- What becomes of the entry when a client is rejected. `ip_registry_connect_fail`. -/
def connectFailEntry (disconnect : Bool) (entry : IPRegistryEntry) : IPRegistryEntry :=
  let attempts := entry.attempts - 1
  { entry with
    attempts := if attempts = 0 then attempts + 1 else attempts
    connected := if disconnect then entry.connected - 1 else entry.connected }

lemma connectFailEntry_attempts (disconnect : Bool) {e : IPRegistryEntry} (h : e.attempts ≠ 0) :
    1 ≤ (connectFailEntry disconnect e).attempts ∧ (connectFailEntry disconnect e).attempts ≤ e.attempts := by
  have hpos : 1 ≤ e.attempts := UInt8.le_iff_toNat_le.mpr
    (Nat.one_le_iff_ne_zero.mpr fun hz => h (UInt8.toNat_inj.mp hz))
  simp only [connectFailEntry]
  split
  case isTrue hz =>
    rw [hz]
    exact ⟨(by decide : (1 : UInt8) ≤ 0 + 1), hpos⟩
  case isFalse hz =>
    rw [UInt8.le_iff_toNat_le, UInt8.le_iff_toNat_le, UInt8.toNat_sub_of_le e.attempts 1 hpos]
    exact ⟨Nat.one_le_iff_ne_zero.mpr fun h0 => hz (UInt8.toNat_inj.mp (by
      rw [UInt8.toNat_sub_of_le e.attempts 1 hpos, h0]; rfl)), Nat.sub_le _ _⟩

/-- Handle a client being rejected during connection through no fault of their own. -/
def ipRegistryConnectFail (r : Registry) (ip : Addr) (disconnect : Bool) : Registry :=
  match ipRegistryFind r ip with
  | none => r
  | some entry => r.modify ip fun _ => connectFailEntry disconnect entry

/-- What a local client leaves behind. `cli_targets`, `cli_nexttarget`, `cli_firsttime`. -/
structure LocalClient where
  targets : List ℕ
  nexttarget : ℤ
  firsttime : ℤ

/-- Copy the client's targets; the number of free targets is an `unsigned int`. `ip_registry_disconnect` -/
def leaveTargets (currentTime : ℕ) (cptr : LocalClient) (entry : IPRegistryEntry) : IPRegistryEntry :=
  let count := (entry.target.map IPTargetEntry.count).getD STARTTARGETS
  let free_targets : ℤ := if cptr.nexttarget < currentTime then
    ((currentTime - cptr.nexttarget) / TARGET_DELAY + 1) % 2 ^ 32 else 0
  let free_targets := if currentTime - cptr.firsttime > 600 then
    (free_targets + (currentTime - cptr.firsttime - 600) / TARGET_DELAY) % 2 ^ 32 else free_targets
  { entry with target := some ⟨if free_targets < count then free_targets.toNat else count, cptr.targets⟩ }

/-- The last client has exited: set `last_connect` to the disconnect time, which is used for expiration. `ip_registry_disconnect`. -/
def lastExited (conf : IPcheckConf) (currentTime : ℕ) (entry : IPRegistryEntry) : IPRegistryEntry :=
  -- otherwise a client that soon reconnects would be penalized for the old value
  let entry := { entry with
    attempts := if connectedSince currentTime entry.last_connect > conf.limit * conf.period then 0
      else entry.attempts }
  { (ipRegistryUpdateFreeTargets currentTime entry).1 with last_connect := NOW currentTime }

/-- What becomes of the entry when a client has exited. `ip_registry_disconnect`. -/
def disconnectEntry (conf : IPcheckConf) (currentTime : ℕ) (cptr : Option LocalClient)
    (entry : IPRegistryEntry) : IPRegistryEntry :=
  let entry := { entry with connected := entry.connected - 1 }
  let entry := if entry.connected = 0 then lastExited conf currentTime entry else entry
  match cptr with
  | some cptr => leaveTargets currentTime cptr entry
  | none => entry

/-- Handle a client that decided to disconnect; `cptr` has the data of a local one. Without an entry the null
pointer is read. -/
def ipRegistryDisconnect (conf : IPcheckConf) (currentTime : ℕ) (r : Registry) (ip : Addr)
    (cptr : Option LocalClient) : Option Registry :=
  if inAddrValid ip.groups = false then some r
  else
    match ipRegistryFind r ip with
    | none => none
    | some entry => some (r.modify ip fun _ => disconnectEntry conf currentTime cptr entry)

/-- Find number of clients from a particular IP address. -/
def ipRegistryCount (r : Registry) (ip : Addr) : ℕ :=
  match ipRegistryFind r ip with
  | some entry => entry.connected.toNat
  | none => 0

/-! ## Classes -/

/-- The class of a canonical address. `ip_registry_find`. -/
def classOf (canon : Addr) : List ℕ := canon.groups.take 4

/-- The class that an address belongs to. `ip_registry_find`. -/
def ipClass (ip : Addr) : List ℕ := classOf (ipRegistryCanonicalize ip)

/-- The class of an entry. `ip_registry_find`. -/
def IPRegistryEntry.cls (e : IPRegistryEntry) : List ℕ := classOf e.addr

/-- The registry is a table keyed by classes. -/
abbrev Registry.Ok (r : Registry) : Prop := Keyed hashGroups IPRegistryEntry.cls r

abbrev Registry.at (r : Registry) (k : List ℕ) : Option IPRegistryEntry :=
  lookup hashGroups IPRegistryEntry.cls r k

lemma hash_classOf (canon : Addr) : hashGroups (classOf canon) = ipRegistryHash canon := by
  have hget : ∀ i < 4, (classOf canon).getD i 0 = canon.groups.getD i 0 := by
    intro i hi
    rw [classOf, List.getD_eq_getElem?_getD, List.getD_eq_getElem?_getD, List.getElem?_take_of_lt hi]
  rw [ipRegistryHash, hashGroups, hashGroups, hget 0 (by decide), hget 1 (by decide),
    hget 2 (by decide), hget 3 (by decide)]

/-- Groups that give the same bucket, when the exclusive or of the other three is the same. -/
lemma xor_mod_inj {x a b : ℕ} (hx : x < 65536) (ha : a < 65536) (hb : b < 65536) :
    (x ^^^ a) % 65536 = (x ^^^ b) % 65536 ↔ a = b := by
  rw [Nat.mod_eq_of_lt (Nat.xor_lt_two_pow (n := 16) hx ha), Nat.mod_eq_of_lt (Nat.xor_lt_two_pow (n := 16) hx hb)]
  refine ⟨fun h => ?_, congrArg (x ^^^ ·)⟩
  simpa only [← Nat.xor_assoc, Nat.xor_self, Nat.zero_xor] using congrArg (x ^^^ ·) h

lemma sought_iff {canon : Addr} {e : IPRegistryEntry} (h : ipRegistryHash e.addr = ipRegistryHash canon) :
    sought canon e = true ↔ e.cls = classOf canon := by
  obtain ⟨as, hlen, hlt⟩ := canon
  obtain ⟨target, ⟨bs, hlen', hlt'⟩, last, connected, attempts⟩ := e
  match as, bs, hlen, hlen' with
  | [a0, a1, a2, a3, a4, a5, a6, a7], [b0, b1, b2, b3, b4, b5, b6, b7], _, _ =>
    simp only [ipRegistryHash, hashGroups, List.getD_cons_zero, List.getD_cons_succ] at h
    simp only [List.mem_cons, List.not_mem_nil, or_false, forall_eq_or_imp, forall_eq] at hlt hlt'
    have hthree : a0 = b0 → a1 = b1 → a2 = b2 → a3 = b3 := by
      rintro rfl rfl rfl
      have hthree := Nat.xor_lt_two_pow (n := 16) (Nat.xor_lt_two_pow hlt.1 hlt.2.1) hlt.2.2.1
      exact ((xor_mod_inj hthree hlt'.2.2.2.1 hlt.2.2.2.1).mp h).symm
    simp only [sought, IPRegistryEntry.cls, classOf, List.getD_cons_zero, List.take_succ_cons, List.take_zero]
    split
    · simp [ipmaskCheck]
      grind
    · simp [ipmaskCheck]
      grind

lemma bucket_hash {r : Registry} (h : r.Ok) {canon : Addr} {e : IPRegistryEntry}
    (he : e ∈ r (ipRegistryHash canon)) : sought canon e = true ↔ e.cls = classOf canon := by
  refine sought_iff ?_
  rw [← hash_classOf]
  exact h.placed _ e he

lemma find_eq {r : Registry} (h : r.Ok) (ip : Addr) : ipRegistryFind r ip = r.at (ipClass ip) := by
  rw [ipRegistryFind, Registry.at, lookup, ipClass, hash_classOf]
  refine List.find?_congr fun e he => ?_
  rw [Bool.eq_iff_iff, bucket_hash h he, decide_eq_true_eq]

lemma modify_eq {r : Registry} (h : r.Ok) (ip : Addr) (f : IPRegistryEntry → IPRegistryEntry) :
    r.modify ip f = alter hashGroups IPRegistryEntry.cls r (ipClass ip) f := by
  rw [Registry.modify, alter, ipClass, hash_classOf]
  congr 1
  refine modifyFirst_congr fun e he => ?_
  rw [Bool.eq_iff_iff, bucket_hash h he, decide_eq_true_eq]

/-! ## What the functions do -/

/-- The class `k` gets the entry `o`, or loses its own; the other classes keep theirs. -/
def Registry.Sets (r r' : Registry) (k : List ℕ) (o : Option IPRegistryEntry) : Prop :=
  r'.Ok ∧ r'.at = update r.at k o

/-- The entry of a class when a local client connects, and what the function returns. `ip_registry_check_local` -/
def onLocal (conf : IPcheckConf) (since currentTime : ℕ) (ip : Addr) :
    Option IPRegistryEntry → IPRegistryEntry × Bool × Option ℤ
  | none => (ipRegistryNewEntry currentTime (ipRegistryCanonicalize ip), true, none)
  | some entry => checkLocalEntry conf since currentTime entry

/-- The entry of a class when a remote client connects, and what the function returns. `ip_registry_check_remote` -/
def onRemote (conf : IPcheckConf) (currentTime : ℕ) (is_burst : Bool) (ip : Addr) :
    Option IPRegistryEntry → IPRegistryEntry × Bool
  | none =>
    let entry := ipRegistryNewEntry currentTime (ipRegistryCanonicalize ip)
    (if is_burst then { entry with attempts := 0 } else entry, true)
  | some entry => checkRemoteEntry conf currentTime is_burst entry

lemma updateFreeTargets_fields (currentTime : ℕ) (e : IPRegistryEntry) :
    let e' := (ipRegistryUpdateFreeTargets currentTime e).1
    e'.addr = e.addr ∧ e'.last_connect = e.last_connect ∧ e'.connected = e.connected ∧
      e'.attempts = e.attempts := by
  rw [ipRegistryUpdateFreeTargets]
  split <;> exact ⟨rfl, rfl, rfl, rfl⟩

lemma throttle_spec (conf : IPcheckConf) (since currentTime free_targets : ℕ) (e : IPRegistryEntry) :
    let res := throttle conf since currentTime free_targets e
    res.1.addr = e.addr ∧ res.1.last_connect = e.last_connect ∧ res.1.attempts = e.attempts ∧
      (res.1.connected = if res.2.1 then e.connected else e.connected - 1) ∧
      (res.2.1 = false → conf.limit ≤ e.attempts.toNat) := by
  rw [throttle]
  split
  case isTrue => exact ⟨rfl, rfl, rfl, rfl, fun hf => by cases hf⟩
  case isFalse hlimit =>
    split
    · exact ⟨rfl, rfl, rfl, rfl, fun _ => not_lt.mp hlimit⟩
    · exact ⟨rfl, rfl, rfl, rfl, fun hf => by cases hf⟩

lemma checkLocalEntry_spec (conf : IPcheckConf) (since currentTime : ℕ) {e : IPRegistryEntry}
    (h : e.connected + 1 ≠ 0) :
    let res := checkLocalEntry conf since currentTime e
    res.1.addr = e.addr ∧ res.1.last_connect = NOW currentTime ∧
      res.1.attempts = countAttempt (recentAttempts conf currentTime e) ∧
      (res.1.connected = if res.2.1 then e.connected + 1 else e.connected) ∧
      (res.2.1 = false → conf.limit ≤ res.1.attempts.toNat) := by
  rw [checkLocalEntry, if_neg h]
  obtain ⟨h1, -, h3, h4⟩ := updateFreeTargets_fields currentTime { e with
    connected := e.connected + 1, attempts := recentAttempts conf currentTime e }
  obtain ⟨res, hres⟩ : ∃ res, res = ipRegistryUpdateFreeTargets currentTime { e with
    connected := e.connected + 1, attempts := recentAttempts conf currentTime e } := ⟨_, rfl⟩
  rw [← hres] at h1 h3 h4
  simp only [← hres]
  obtain ⟨g1, g2, g3, g4, g5⟩ := throttle_spec conf since currentTime res.2 { res.1 with
    last_connect := NOW currentTime, attempts := countAttempt res.1.attempts }
  refine ⟨g1.trans h1, g2, g3.trans (congrArg countAttempt h4), ?_, fun hf => ?_⟩
  · rw [g4]
    simp only [h3, UInt16.add_sub_cancel]
  · rw [g3]
    exact g5 hf

lemma checkLocalEntry_addr (conf : IPcheckConf) (since currentTime : ℕ) (e : IPRegistryEntry) :
    (checkLocalEntry conf since currentTime e).1.addr = e.addr := by
  by_cases h : e.connected + 1 = 0
  · rw [checkLocalEntry, if_pos h]
  · exact (checkLocalEntry_spec conf since currentTime h).1

lemma checkRemoteEntry_spec (conf : IPcheckConf) (currentTime : ℕ) (is_burst : Bool)
    {e : IPRegistryEntry} (h : e.connected + 1 ≠ 0) :
    let res := checkRemoteEntry conf currentTime is_burst e
    res.1.addr = e.addr ∧ res.1.connected = e.connected + 1 ∧ res.2 = true ∧
      (res.1.last_connect = if is_burst then e.last_connect else NOW currentTime) ∧
      res.1.attempts = if is_burst then recentAttempts conf currentTime e
        else countAttempt (recentAttempts conf currentTime e) := by
  rw [checkRemoteEntry, if_neg h]
  cases is_burst with
  | true => exact ⟨rfl, rfl, rfl, rfl, rfl⟩
  | false =>
    obtain ⟨h1, h2, h3, h4⟩ := updateFreeTargets_fields currentTime { e with
      connected := e.connected + 1
      attempts := countAttempt (recentAttempts conf currentTime { e with
        connected := e.connected + 1 }) }
    exact ⟨h1, h3, rfl, rfl, h4⟩

lemma checkRemoteEntry_addr (conf : IPcheckConf) (currentTime : ℕ) (is_burst : Bool)
    (e : IPRegistryEntry) : (checkRemoteEntry conf currentTime is_burst e).1.addr = e.addr := by
  by_cases h : e.connected + 1 = 0
  · rw [checkRemoteEntry]
    exact congrArg (fun x : IPRegistryEntry × Bool => x.1.addr) (if_pos h)
  · exact (checkRemoteEntry_spec conf currentTime is_burst h).1

lemma disconnectEntry_spec (conf : IPcheckConf) (currentTime : ℕ) (cptr : Option LocalClient)
    (e : IPRegistryEntry) :
    let e' := disconnectEntry conf currentTime cptr e
    e'.addr = e.addr ∧ e'.connected = e.connected - 1 ∧
      (e'.last_connect = if e.connected - 1 = 0 then NOW currentTime else e.last_connect) ∧
      (e'.attempts = e.attempts ∨ e'.attempts = 0) := by
  obtain ⟨e₁, he₁⟩ : ∃ e₁, e₁ = if e.connected - 1 = 0 then
    lastExited conf currentTime { e with connected := e.connected - 1 } else
    { e with connected := e.connected - 1 } := ⟨_, rfl⟩
  have hspec : e₁.addr = e.addr ∧ e₁.connected = e.connected - 1 ∧
      (e₁.last_connect = if e.connected - 1 = 0 then NOW currentTime else e.last_connect) ∧
      (e₁.attempts = e.attempts ∨ e₁.attempts = 0) := by
    rw [he₁]
    split
    case isTrue =>
      obtain ⟨h1, -, h3, h4⟩ := updateFreeTargets_fields currentTime { e with
        connected := e.connected - 1
        attempts := if connectedSince currentTime e.last_connect > conf.limit * conf.period then 0
          else e.attempts }
      refine ⟨h1, h3, rfl, ?_⟩
      rw [show (lastExited conf currentTime { e with connected := e.connected - 1 }).attempts = _
        from h4]
      simp only
      split
      · exact .inr rfl
      · exact .inl rfl
    case isFalse => exact ⟨rfl, rfl, rfl, Or.inl rfl⟩
  cases cptr with
  | none =>
    rw [show disconnectEntry conf currentTime none e = e₁ from he₁.symm]
    exact hspec
  | some c =>
    rw [show disconnectEntry conf currentTime (some c) e = leaveTargets currentTime c e₁ by
      rw [he₁]
      rfl]
    exact hspec

lemma disconnectEntry_addr (conf : IPcheckConf) (currentTime : ℕ) (cptr : Option LocalClient)
    (e : IPRegistryEntry) : (disconnectEntry conf currentTime cptr e).addr = e.addr :=
  (disconnectEntry_spec conf currentTime cptr e).1

section Functions

variable {r : Registry} (h : r.Ok) {conf : IPcheckConf} {since currentTime : ℕ} {ip : Addr}
  {e : IPRegistryEntry}

include h

lemma sets_add (hnone : r.at (ipClass ip) = none) (he : e.addr = ipRegistryCanonicalize ip) :
    r.Sets (ipRegistryAdd r e) (ipClass ip) (some e) := by
  have hclass : e.cls = ipClass ip := by rw [IPRegistryEntry.cls, he, ipClass]
  have hadd : ipRegistryAdd r e = insert hashGroups IPRegistryEntry.cls r e := by
    rw [ipRegistryAdd, Lib.Buckets.insert, IPRegistryEntry.cls, hash_classOf]
  rw [hadd]
  refine ⟨h.insert (by rw [hclass]; exact hnone), ?_⟩
  funext k
  rw [Registry.at, lookup_insert, hclass, Function.update_apply]

lemma sets_modify {e' : IPRegistryEntry} (hsome : r.at (ipClass ip) = some e)
    (he : e'.addr = e.addr) : r.Sets (r.modify ip fun _ => e') (ipClass ip) (some e') := by
  have hclass : e'.cls = ipClass ip := by
    rw [IPRegistryEntry.cls, he]
    exact (h.lookup_eq_some.mp hsome).2
  rw [modify_eq h]
  refine ⟨h.alter fun _ _ => hclass, ?_⟩
  funext k
  rw [Registry.at, lookup_alter (f := fun _ => e') (fun _ _ => hclass), Function.update_apply]
  by_cases hk : k = ipClass ip
  · rw [if_pos hk, if_pos hk, hk, show lookup hashGroups IPRegistryEntry.cls r (ipClass ip) =
      some e from hsome, Option.map_some]
  · rw [if_neg hk, if_neg hk]

lemma checkLocal_sets (conf : IPcheckConf) (since currentTime : ℕ) (ip : Addr) :
    let res := ipRegistryCheckLocal conf since currentTime r ip
    r.Sets res.1 (ipClass ip) (some (onLocal conf since currentTime ip (r.at (ipClass ip))).1) ∧
      res.2 = (onLocal conf since currentTime ip (r.at (ipClass ip))).2 := by
  rw [ipRegistryCheckLocal, find_eq h]
  cases hat : r.at (ipClass ip) with
  | none => exact ⟨sets_add h hat rfl, rfl⟩
  | some e => exact ⟨sets_modify h hat (checkLocalEntry_addr ..), rfl⟩

lemma checkRemote_sets (conf : IPcheckConf) (currentTime : ℕ) (is_burst : Bool)
    (hvalid : inAddrValid ip.groups = true) :
    let res := ipRegistryCheckRemote conf currentTime r ip is_burst
    r.Sets res.1 (ipClass ip) (some (onRemote conf currentTime is_burst ip (r.at (ipClass ip))).1) ∧
      res.2 = (onRemote conf currentTime is_burst ip (r.at (ipClass ip))).2 := by
  rw [ipRegistryCheckRemote, if_neg (by simp [hvalid]), find_eq h]
  cases hat : r.at (ipClass ip) with
  | none =>
    refine ⟨sets_add h hat ?_, rfl⟩
    split <;> rfl
  | some e => exact ⟨sets_modify h hat (checkRemoteEntry_addr ..), rfl⟩

lemma connectFail_sets (ip : Addr) (disconnect : Bool) :
    r.Sets (ipRegistryConnectFail r ip disconnect) (ipClass ip)
      ((r.at (ipClass ip)).map (connectFailEntry disconnect)) := by
  rw [ipRegistryConnectFail, find_eq h]
  cases hat : r.at (ipClass ip) with
  | none =>
    refine ⟨h, ?_⟩
    have hself := (Function.update_eq_self (ipClass ip) r.at).symm
    rwa [hat] at hself
  | some e => exact sets_modify h hat rfl

lemma disconnect_sets {cptr : Option LocalClient} {r' : Registry} (hvalid : inAddrValid ip.groups = true)
    (hr' : ipRegistryDisconnect conf currentTime r ip cptr = some r') : ∃ e, r.at (ipClass ip) = some e ∧
    r.Sets r' (ipClass ip) (some (disconnectEntry conf currentTime cptr e)) := by
  rw [ipRegistryDisconnect, if_neg (by simp [hvalid]), find_eq h] at hr'
  cases hat : r.at (ipClass ip) with
  | none =>
    rw [hat] at hr'
    cases hr'
  | some e =>
    rw [hat] at hr'
    cases hr'
    exact ⟨e, rfl, sets_modify h hat (disconnectEntry_addr ..)⟩

lemma expire_at (currentTime : ℕ) : (ipRegistryExpire currentTime r).Ok ∧
    ∀ k, (ipRegistryExpire currentTime r).at k = (r.at k).bind fun entry =>
      if entry.connected = 0 then ipRegistryExpireEntry currentTime entry else some entry := by
  have hkey : ∀ x y : IPRegistryEntry,
      (if x.connected = 0 then ipRegistryExpireEntry currentTime x else some x) = some y →
      y.cls = x.cls := by
    intro x y hy
    split at hy
    · rw [ipRegistryExpireEntry] at hy
      split at hy
      · cases hy
      · split at hy <;> cases hy <;> rfl
    · cases hy
      rfl
  exact ⟨h.filterMap hkey, h.lookup_filterMap hkey⟩

end Functions

end Nefarious.IPcheck
