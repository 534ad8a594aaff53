import Nefarious.Lib.Dll
import Nefarious.Numnicks
import Mathlib.Data.Set.Basic
import Mathlib.Data.List.Perm.Basic

/-!
# The daemon's tables of clients

`Ircd` is the part of the daemon's memory that says who is on the network: the client records, the global client
list (intrusive, through `cli_prev`/`cli_next`), the hash table of names, the numeric tables `server_list` and
`client_list`, the table of local connections, and the downlink lists of the servers (heap cells `struct
DLink`). A record is addressed by a `ClientId`; a freed record is `none`, so a function that follows a dangling
pointer returns `none` as well.
-/

namespace Nefarious.Network

open Function (update)

open Nefarious.Lib Nefarious.Lib.Dll

/-- The address of a `struct Client`. -/
abbrev ClientId := ℕ

/-- The address of a `struct DLink`. -/
abbrev DLinkId := ℕ

/-- The status of a client: exactly one bit of the `STAT_` group is set.
`STAT_CONNECTING` … `STAT_USER` -/
inductive Status
  | connecting
  | handshake
  | me
  | unknown
  | unknownUser
  | unknownServer
  | server
  | user
  deriving DecidableEq

/-- `struct Server`, without the links and the client array, which are columns of `Ircd`.
`struct.h` `struct Server` -/
structure Serv where
  up : ClientId
  /-- Number of clients the server can handle, as a mask. -/
  nn_mask : ℕ
  timestamp : ℕ
  /-- Local time at which a new server caused a Ghost. -/
  ghost : ℕ
  deriving DecidableEq

/-- `struct User`, as far as the tables of this module need it.
`struct.h` `struct User` -/
structure User where
  /-- Client structure of the server the user is on. -/
  server : ClientId
  deriving DecidableEq

/-- `struct Client`.
`client.h` `struct Client` -/
structure Client where
  status : Status
  /-- The nick of a user, or the name of a server. -/
  name : Str
  /-- Numeric nick: the last three digits of a user, the two digits of a server. -/
  yxx : Str
  /-- Direct connection via which the client is reached. -/
  cli_from : ClientId
  /-- Descriptor of the connection, when there is one. -/
  fd : Option ℕ
  /-- The real name, or the description of a server. -/
  info : Str
  /-- Set between the SERVER message of a junction and the end of its burst. -/
  junction : Bool
  /-- Server data, after `make_server`. -/
  serv : Option Serv
  /-- User data, after `make_user`. -/
  user : Option User
  deriving DecidableEq

/-- The tables without links.
`hash.c` `clientTable`; `numnicks.c` `server_list`; `s_bsd.c`
`LocalClientArray` -/
@[ext]
structure Tables where
  me : ClientId
  /-- The CRC table of the hash function, shuffled at start-up. -/
  crc32hash : ℕ → ℕ
  cli : ClientId → Option Client
  /-- The hash chains of `clientTable`, through `cli_hnext`. -/
  clientTable : ℕ → List ClientId
  server_list : ℕ → Option ClientId
  /-- `cli_serv(server)->client_list`, after `SetServerYXX`. -/
  client_list : ClientId → Option (ℕ → Option ClientId)
  localClientArray : ℕ → Option ClientId

/-- The daemon's memory.
`list.c` `GlobalClientList`; `struct.h` `struct Server`, `struct DLink` -/
structure Ircd extends Tables where
  /-- `cli_prev` and `cli_next`. -/
  lnk : ClientId → Links ClientId
  /-- The head of the global client list. -/
  globalClientList : Option ClientId
  /-- `DLink::prev` and `DLink::next`. -/
  dlnk : DLinkId → Links DLinkId
  /-- `DLink::value.cptr`. -/
  dval : DLinkId → ClientId
  /-- `cli_serv(x)->down`: list of downlinks. -/
  down : ClientId → Option DLinkId
  /-- `cli_serv(x)->updown`: the node of a server on its uplink's list. -/
  updown : ClientId → Option DLinkId

/-! ## The name table -/

/-- Number of buckets. `hash.c`. -/
def hashSize : ℕ := 32000

/-- The CRC-32 update table, before `init_hash` shuffles it.
`hash.c` `init_hash` -/
def crc32 (ii : ℕ) : ℕ :=
  (fun rand => if rand % 2 = 1 then 0xedb88320 ^^^ (rand >>> 1) else rand >>> 1)^[8] ii

/-- Hash value of a string. `ToLower` folds every character, and the accumulator is 32 bits wide.
`hash.c`. -/
def strhash (crc : ℕ → ℕ) : Str → ℕ
  | [] => crc 0 % hashSize
  | c :: cs =>
    (cs.foldl (fun hash c => (hash >>> 8) ^^^ crc ((hash ^^^ (toLower c).toNat) &&& 255))
      (crc ((toLower c).toNat &&& 255))) % hashSize

lemma strhash_congr (crc : ℕ → ℕ) {a b : Str} (h : a.map toLower = b.map toLower) :
    strhash crc a = strhash crc b := by
  have fold : ∀ (as bs : Str) (x : ℕ), as.map toLower = bs.map toLower →
      as.foldl (fun hash c => (hash >>> 8) ^^^ crc ((hash ^^^ (toLower c).toNat) &&& 255)) x =
      bs.foldl (fun hash c => (hash >>> 8) ^^^ crc ((hash ^^^ (toLower c).toNat) &&& 255)) x := by
    intro as
    induction as with
    | nil =>
      intro bs x h
      cases bs with
      | nil => rfl
      | cons b bs => simp at h
    | cons a as ih =>
      intro bs x h
      cases bs with
      | nil => simp at h
      | cons b bs =>
        simp only [List.map_cons, List.cons.injEq] at h
        rw [List.foldl_cons, List.foldl_cons, h.1]
        exact ih bs _ h.2
  cases a with
  | nil =>
    cases b with
    | nil => rfl
    | cons b bs => simp at h
  | cons a as =>
    cases b with
    | nil => simp at h
    | cons b bs =>
      simp only [List.map_cons, List.cons.injEq] at h
      simp only [strhash, h.1]
      rw [fold as bs _ h.2]

/-! ## The primitive operations -/

/-- Prepend a client to the appropriate hash bucket.
`hash.c`. -/
def hAddClient (s : Ircd) (cptr : ClientId) (name : Str) : Ircd :=
  let hashv := strhash s.crc32hash name
  { s with clientTable := update s.clientTable hashv (cptr :: s.clientTable hashv) }

/-- Remove a client from its hash bucket; the walk stops at the first occurrence.
`hash.c`. -/
def hRemClient (s : Ircd) (cptr : ClientId) (name : Str) : Ircd :=
  let hashv := strhash s.crc32hash name
  { s with clientTable := update s.clientTable hashv ((s.clientTable hashv).erase cptr) }

/-- Link a client into the global client list.
`list.c`. -/
def addClientToList (s : Ircd) (cptr : ClientId) : Ircd :=
  { s with
    lnk := (push s.lnk s.globalClientList cptr).1
    globalClientList := (push s.lnk s.globalClientList cptr).2 }

/-- Take a client out of the global client list, if it is on it, and free its record. A client
that is on the list has a successor, because `me` is always the end of the list.
`list.c` `remove_client_from_list`, `free_client` -/
def removeClientFromList (s : Ircd) (cptr : ClientId) : Ircd :=
  let r := if (s.lnk cptr).next ≠ none then unlink s.lnk s.globalClientList cptr
    else (s.lnk, s.globalClientList)
  { s with
    lnk := update r.1 cptr ⟨none, none⟩
    globalClientList := r.2
    cli := update s.cli cptr none
    client_list := update s.client_list cptr none }

/-- Add an element to a downlink list; `lp` is the newly allocated element.
`list.c`. -/
def addDlink (s : Ircd) (server : ClientId) (cp : ClientId) (lp : DLinkId) : Ircd :=
  { s with
    dlnk := (push s.dlnk (s.down server) lp).1
    down := update s.down server (push s.dlnk (s.down server) lp).2
    dval := update s.dval lp cp }

/-- Remove a node from a downlink list.
`list.c`. -/
def removeDlink (s : Ircd) (server : ClientId) (lp : DLinkId) : Ircd :=
  { s with
    dlnk := (unlink s.dlnk (s.down server) lp).1
    down := update s.down server (unlink s.dlnk (s.down server) lp).2 }

/-- Unassign a server's numnick. The slot is cleared only if it holds this server.
`numnicks.c`. -/
def clearServerYXX (s : Ircd) (server : ClientId) (yxx : Str) : Ircd :=
  let index := base64toint yxx
  if s.server_list index = some server then
    { s with server_list := update s.server_list index none }
  else s

/-- Remove a client from a server's user array, if the client has a numeric.
`numnicks.c`. -/
def removeYXXClient (s : Ircd) (server : ClientId) (yxx : Str) : Option Ircd :=
  if yxx = [] then some s
  else do
    let sv ← (← s.cli server).serv
    let cl ← s.client_list server
    let cl' := update cl (base64toint yxx &&& sv.nn_mask) none
    some { s with client_list := update s.client_list server (some cl') }

/-! ## The network without pointers -/

/-- A network: the tables, with the client list and the downlink lists as plain lists. -/
@[ext]
structure Net extends Tables where
  list : List ClientId
  downs : ClientId → List ClientId

/-- The downlink list of `p` is `l`: the nodes walked carry `l`, and each client's `updown` is its
own node.
`struct.h` `struct Server` -/
def Downlinks (s : Ircd) (p : ClientId) (l : List ClientId) : Prop :=
  ∃ nodes, IsList s.dlnk (s.down p) nodes ∧ nodes.map s.dval = l ∧ ∀ n ∈ nodes, s.updown (s.dval n) = some n

/-- The memory `s` holds the network `N`. -/
structure Holds (s : Ircd) (N : Net) : Prop where
  tables : s.toTables = N.toTables
  list : IsList s.lnk s.globalClientList N.list
  unlisted : ∀ x, x ∉ N.list → s.lnk x = ⟨none, none⟩
  downs : ∀ p, Downlinks s p (N.downs p)

/-- The slot of a user in its server's client array.
`numnicks.h`; `numnicks.c` `RemoveYXXClient` -/
def userSlot (c : Client) (sv : Serv) : ℕ := base64toint c.yxx &&& sv.nn_mask

/-- `x` is a server that is linked in: `me` or a registered server.
`IsServer`, `IsMe` -/
def IsServerOrMe (c : Client) : Prop := c.status = .server ∨ c.status = .me

instance (c : Client) : Decidable (IsServerOrMe c) :=
  inferInstanceAs (Decidable (c.status = .server ∨ c.status = .me))

/-- A server tree with users attached. -/
structure Net.WF (N : Net) : Prop where
  me_iff : ∀ x c, N.cli x = some c → (c.status = .me ↔ x = N.me)
  list_last : ∃ l, N.list = l ++ [N.me]
  list_nodup : N.list.Nodup
  list_alive : ∀ x ∈ N.list, ∃ c, N.cli x = some c
  list_server : ∀ x c, N.cli x = some c → c.status = .server → x ∈ N.list
  table_nodup : ∀ b, (N.clientTable b).Nodup
  table_hash : ∀ b, ∀ x ∈ N.clientTable b, ∃ c, N.cli x = some c ∧ strhash N.crc32hash c.name = b
  table_server : ∀ x c, N.cli x = some c → IsServerOrMe c → x ∈ N.clientTable (strhash N.crc32hash c.name)
  server_list_yxx : ∀ i x, N.server_list i = some x → ∃ c, N.cli x = some c ∧
    IsServerOrMe c ∧ base64toint c.yxx = i
  serv_server : ∀ x c, N.cli x = some c → IsServerOrMe c → c.serv.isSome ∧ c.user = none
  yxx_user : ∀ x c us, N.cli x = some c → c.status ≠ .user → c.user = some us → c.yxx = []
  client_list_server : ∀ x, (N.client_list x).isSome ↔ ∃ c, N.cli x = some c ∧ IsServerOrMe c
  up_server : ∀ x c sv, N.cli x = some c → c.status = .server → c.serv = some sv →
    ∃ p, N.cli sv.up = some p ∧ IsServerOrMe p
  downs_iff : ∀ p x, x ∈ N.downs p ↔ ∃ c sv, N.cli x = some c ∧ c.status = .server ∧
    c.serv = some sv ∧ sv.up = p
  downs_nodup : ∀ p, (N.downs p).Nodup
  tree : ∃ depth : ClientId → ℕ, ∀ x c sv, N.cli x = some c → c.status = .server →
    c.serv = some sv → depth sv.up < depth x
  slot_user : ∀ p cl i u, N.client_list p = some cl → cl i = some u →
    ∃ pc sv c us, N.cli p = some pc ∧ pc.serv = some sv ∧ N.cli u = some c ∧ c.status = .user ∧
      c.user = some us ∧ us.server = p ∧ c.yxx ≠ [] ∧ i = userSlot c sv
  user_slot : ∀ u c, N.cli u = some c → c.status = .user → ∃ us pc sv cl, c.user = some us ∧
    N.cli us.server = some pc ∧ IsServerOrMe pc ∧ pc.serv = some sv ∧
    N.client_list us.server = some cl ∧ cl (userSlot c sv) = some u
  local_fd : ∀ i x, N.localClientArray i = some x → ∃ c, N.cli x = some c ∧ c.fd = some i ∧
    c.cli_from = x ∧ (∀ us, c.status = .user → c.user = some us → us.server = N.me) ∧
    (∀ sv, c.status = .server → c.serv = some sv → sv.up = N.me)
  local_self : ∀ x c i y, N.cli x = some c → c.cli_from = x → c.fd = some i →
    N.localClientArray i = some y → y = x

/-- `x` is `v`, a server behind `v`, or a user of one of these. -/
inductive Net.Below (N : Net) (v : ClientId) : ClientId → Prop
  | self : Net.Below N v v
  /-- A server whose uplink is below `v`. -/
  | server {x c sv} : N.cli x = some c → c.status = .server → c.serv = some sv →
      Net.Below N v sv.up → Net.Below N v x
  /-- A user of a server below `v`. -/
  | user {u c us} : N.cli u = some c → c.status = .user → c.user = some us →
      Net.Below N v us.server → Net.Below N v u

open Classical in
/-- The entries of a list that are not in `R`. -/
noncomputable def keepL (R : Set ClientId) (l : List ClientId) : List ClientId := l.filter (fun x => x ∉ R)

open Classical in
/-- The entry of a slot, unless it is in `R`. -/
noncomputable def keepO (R : Set ClientId) (o : Option ClientId) : Option ClientId := o.filter (fun x => x ∉ R)

open Classical in
/-- The network without the clients `R`: every table loses them and keeps all its other entries. -/
noncomputable def Net.drop (N : Net) (R : Set ClientId) : Net where
  me := N.me
  crc32hash := N.crc32hash
  cli x := if x ∈ R then none else N.cli x
  clientTable b := keepL R (N.clientTable b)
  server_list i := keepO R (N.server_list i)
  client_list p := if p ∈ R then none else (N.client_list p).map (fun cl i => keepO R (cl i))
  localClientArray i := keepO R (N.localClientArray i)
  list := keepL R N.list
  downs p := if p ∈ R then [] else keepL R (N.downs p)

/-! ## Reading a network after a drop -/

@[simp] lemma mem_keepL {R : Set ClientId} {l : List ClientId} {x : ClientId} :
    x ∈ keepL R l ↔ x ∈ l ∧ x ∉ R := by
  simp [keepL]

@[simp] lemma keepO_eq_some {R : Set ClientId} {o : Option ClientId} {x : ClientId} :
    keepO R o = some x ↔ o = some x ∧ x ∉ R := by
  simp [keepO, Option.filter_eq_some_iff]

lemma nodup_keepL {R : Set ClientId} {l : List ClientId} (h : l.Nodup) : (keepL R l).Nodup := h.filter _

lemma keepL_eq_self {R : Set ClientId} {l : List ClientId} (h : ∀ x ∈ l, x ∉ R) : keepL R l = l := by
  unfold keepL
  exact List.filter_eq_self.mpr (fun x hx => by simpa using h x hx)

lemma keepO_eq_self {R : Set ClientId} {o : Option ClientId} (h : ∀ x, o = some x → x ∉ R) :
    keepO R o = o := by
  ext x
  simp only [keepO_eq_some]
  exact ⟨fun hx => hx.1, fun hx => ⟨hx, h x hx⟩⟩

lemma keepL_keepL (R R' : Set ClientId) (l : List ClientId) : keepL R' (keepL R l) = keepL (R ∪ R') l := by
  unfold keepL
  rw [List.filter_filter]
  congr 1
  funext x
  by_cases h : x ∈ R <;> by_cases h' : x ∈ R' <;> simp [h, h']

lemma keepO_keepO (R R' : Set ClientId) (o : Option ClientId) : keepO R' (keepO R o) = keepO (R ∪ R') o := by
  ext x
  simp only [keepO_eq_some, Set.mem_union, not_or, and_assoc]

lemma keepL_singleton {l : List ClientId} {x : ClientId} (h : l.Nodup) : keepL {x} l = l.erase x := by
  unfold keepL
  rw [h.erase_eq_filter]
  congr 1
  funext y
  by_cases e : y = x <;> simp [e]

namespace Net

variable {N : Net} {R : Set ClientId}

@[simp] lemma drop_cli_eq_some {x : ClientId} {c : Client} :
    (N.drop R).cli x = some c ↔ N.cli x = some c ∧ x ∉ R := by
  unfold drop
  by_cases h : x ∈ R <;> simp [h]

lemma drop_client_list_eq_some {p : ClientId} {cl : ℕ → Option ClientId} : (N.drop R).client_list p =
    some cl ↔ p ∉ R ∧ ∃ cl₀, N.client_list p = some cl₀ ∧ cl = fun i => keepO R (cl₀ i) := by
  unfold drop
  by_cases h : p ∈ R
  · simp [h]
  · simp only [h, if_false, not_false_eq_true, true_and, Option.map_eq_some_iff]
    constructor
    · rintro ⟨cl₀, h₀, rfl⟩
      exact ⟨cl₀, h₀, rfl⟩
    · rintro ⟨cl₀, h₀, rfl⟩
      exact ⟨cl₀, h₀, rfl⟩

lemma mem_drop_downs {p x : ClientId} : x ∈ (N.drop R).downs p ↔ p ∉ R ∧ x ∈ N.downs p ∧ x ∉ R := by
  unfold drop
  by_cases h : p ∈ R <;> simp [h]

lemma drop_drop (N : Net) (R R' : Set ClientId) : (N.drop R).drop R' = N.drop (R ∪ R') := by
  ext1
  · rfl
  · rfl
  · funext x
    by_cases h : x ∈ R <;> by_cases h' : x ∈ R' <;> simp [drop, h, h']
  · funext b
    exact keepL_keepL R R' _
  · funext i
    exact keepO_keepO R R' _
  · funext p
    by_cases h : p ∈ R
    · simp [drop, h]
    · by_cases h' : p ∈ R'
      · simp [drop, h']
      · simp only [drop, h, h', if_false, Option.map_map, Set.mem_union, or_self]
        congr 1
        funext cl i
        exact keepO_keepO R R' _
  · funext i
    exact keepO_keepO R R' _
  · exact keepL_keepL R R' _
  · funext p
    by_cases h : p ∈ R
    · simp [drop, h, keepL]
    · by_cases h' : p ∈ R'
      · simp [drop, h']
      · simp only [drop, h, h', if_false, Set.mem_union, or_self]
        exact keepL_keepL R R' _

lemma drop_empty (N : Net) : N.drop ∅ = N := by
  have hO : keepO ∅ = id := funext fun o => keepO_eq_self (by simp)
  have hL : keepL ∅ = id := funext fun l => keepL_eq_self (by simp)
  ext1 <;> simp [drop, hO, hL]

/-- `R` takes with a server everything that depends on it. -/
structure Closed (N : Net) (R : Set ClientId) : Prop where
  server : ∀ x c sv, N.cli x = some c → c.status = .server → c.serv = some sv → sv.up ∈ R → x ∈ R
  user : ∀ u c us, N.cli u = some c → c.status = .user → c.user = some us → us.server ∈ R → u ∈ R

lemma WF.drop (h : N.WF) (hR : N.Closed R) (hme : N.me ∉ R) : (N.drop R).WF where
  me_iff x c hx := h.me_iff x c (drop_cli_eq_some.mp hx).1
  list_last := by
    obtain ⟨l, hl⟩ := h.list_last
    refine ⟨keepL R l, ?_⟩
    have hk : keepL R [N.me] = [N.me] := keepL_eq_self (by simpa using hme)
    simp only [Net.drop, hl]
    rw [← hk]
    simp only [keepL, List.filter_append, List.filter_filter, Bool.and_self]
  list_nodup := nodup_keepL h.list_nodup
  list_alive x hx := by
    obtain ⟨hx, hxR⟩ := mem_keepL.mp hx
    obtain ⟨c, hc⟩ := h.list_alive x hx
    exact ⟨c, drop_cli_eq_some.mpr ⟨hc, hxR⟩⟩
  list_server x c hx hs := by
    obtain ⟨hx, hxR⟩ := drop_cli_eq_some.mp hx
    exact mem_keepL.mpr ⟨h.list_server x c hx hs, hxR⟩
  table_nodup b := nodup_keepL (h.table_nodup b)
  table_hash b x hx := by
    obtain ⟨hx, hxR⟩ := mem_keepL.mp hx
    obtain ⟨c, hc, hh⟩ := h.table_hash b x hx
    exact ⟨c, drop_cli_eq_some.mpr ⟨hc, hxR⟩, hh⟩
  table_server x c hx hs := by
    obtain ⟨hx, hxR⟩ := drop_cli_eq_some.mp hx
    exact mem_keepL.mpr ⟨h.table_server x c hx hs, hxR⟩
  server_list_yxx i x hx := by
    obtain ⟨hx, hxR⟩ := keepO_eq_some.mp hx
    obtain ⟨c, hc, hs, hi⟩ := h.server_list_yxx i x hx
    exact ⟨c, drop_cli_eq_some.mpr ⟨hc, hxR⟩, hs, hi⟩
  serv_server x c hx hs := h.serv_server x c (drop_cli_eq_some.mp hx).1 hs
  yxx_user x c us hx hs hu := h.yxx_user x c us (drop_cli_eq_some.mp hx).1 hs hu
  client_list_server x := by
    by_cases hxR : x ∈ R
    · simp [Net.drop, hxR]
    · simp only [drop_cli_eq_some, hxR, not_false_eq_true, and_true]
      rw [← h.client_list_server x]
      simp [Net.drop, hxR]
  up_server x c sv hx hs hsv := by
    obtain ⟨hx, hxR⟩ := drop_cli_eq_some.mp hx
    obtain ⟨p, hp, hps⟩ := h.up_server x c sv hx hs hsv
    exact ⟨p, drop_cli_eq_some.mpr ⟨hp, fun hup => hxR (hR.server x c sv hx hs hsv hup)⟩, hps⟩
  downs_iff p x := by
    rw [mem_drop_downs, h.downs_iff]
    constructor
    · rintro ⟨hp, ⟨c, sv, hc, hs, hsv, hup⟩, hx⟩
      exact ⟨c, sv, drop_cli_eq_some.mpr ⟨hc, hx⟩, hs, hsv, hup⟩
    · rintro ⟨c, sv, hc, hs, hsv, rfl⟩
      obtain ⟨hc, hx⟩ := drop_cli_eq_some.mp hc
      exact ⟨fun hup => hx (hR.server x c sv hc hs hsv hup), ⟨c, sv, hc, hs, hsv, rfl⟩, hx⟩
  downs_nodup p := by
    by_cases hp : p ∈ R
    · simp [Net.drop, hp]
    · simp only [Net.drop, hp, if_false]
      exact nodup_keepL (h.downs_nodup p)
  tree := by
    obtain ⟨depth, hd⟩ := h.tree
    exact ⟨depth, fun x c sv hx => hd x c sv (drop_cli_eq_some.mp hx).1⟩
  slot_user p cl i u hp hu := by
    obtain ⟨hpR, cl₀, h₀, rfl⟩ := drop_client_list_eq_some.mp hp
    obtain ⟨hu, huR⟩ := keepO_eq_some.mp hu
    obtain ⟨pc, sv, c, us, h1, h2, h3, h4⟩ := h.slot_user p cl₀ i u h₀ hu
    exact ⟨pc, sv, c, us, drop_cli_eq_some.mpr ⟨h1, hpR⟩, h2, drop_cli_eq_some.mpr ⟨h3, huR⟩, h4⟩
  user_slot u c hu hs := by
    obtain ⟨hu, huR⟩ := drop_cli_eq_some.mp hu
    obtain ⟨us, pc, sv, cl, h1, h2, h3, h4, h5, h6⟩ := h.user_slot u c hu hs
    have hup : us.server ∉ R := fun e => huR (hR.user u c us hu hs h1 e)
    exact ⟨us, pc, sv, _, h1, drop_cli_eq_some.mpr ⟨h2, hup⟩, h3, h4,
      drop_client_list_eq_some.mpr ⟨hup, cl, h5, rfl⟩, keepO_eq_some.mpr ⟨h6, huR⟩⟩
  local_fd i x hx := by
    obtain ⟨hx, hxR⟩ := keepO_eq_some.mp hx
    obtain ⟨c, hc, hrest⟩ := h.local_fd i x hx
    exact ⟨c, drop_cli_eq_some.mpr ⟨hc, hxR⟩, hrest⟩
  local_self x c i y hx hfrom hfd hy :=
    h.local_self x c i y (drop_cli_eq_some.mp hx).1 hfrom hfd (keepO_eq_some.mp hy).1

end Net

end Nefarious.Network
