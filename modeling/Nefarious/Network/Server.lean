import Nefarious.Network.Exit

/-!
# Linking servers: the SERVER message

`mrServer` handles SERVER on a connection that is not registered yet, `msServer` handles it behind a link, and
both ask `checkLoopAndLh` whether the announced server may be introduced.

Names: `m_server.c`.
-/

namespace Nefarious.Network

open Function (update)

open Nefarious.Lib Nefarious.Lib.Dll

/-! ## Names and numerics -/

/-- Longest host name. `ircd_defs.h`. -/
def hostLen : ℕ := 75

/-- Clean up a server name: cut at `HOSTLEN`, printable characters only, with a dot. -/
def cleanServername (host : Str) : Option Str :=
  let host := host.take hostLen
  if host.all (fun ch => ' ' < ch ∧ ch ≤ '~') ∧ '.' ∈ host then some host else none

/-- The first client of the name's bucket that has the name. `hash.c` `hSeekClient` with all status bits -/
def hFind (s : Ircd) (name : Str) : Option ClientId :=
  (s.clientTable (strhash s.crc32hash name)).find? (fun x =>
    match s.cli x with
    | some c => strEq name c.name
    | none => false)

/-- Find a client by name; the one found moves to the top of its bucket. `hash.c` `hSeekClient` with all
status bits -/
def hSeekClient (s : Ircd) (name : Str) : Ircd × Option ClientId :=
  let hashv := strhash s.crc32hash name
  match hFind s name with
  | some cptr =>
    ({ s with clientTable :=
        update s.clientTable hashv (cptr :: (s.clientTable hashv).erase cptr) },
      some cptr)
  | none => (s, none)

/-- Find a client by name, if there is a name. `hash.h`. -/
def findClient (s : Ircd) (name : Str) : Ircd × Option ClientId :=
  if name = [] then (s, none) else hSeekClient s name

/-- Rename a client in the hash table. `hash.c`. -/
def hChangeClient (s : Ircd) (cptr : ClientId) (oldname newname : Str) : Ircd :=
  hAddClient (hRemClient s cptr oldname) cptr newname

/-- Set a server's numeric nick: the record, the slot of `server_list` and a new client array. `numnicks.c`. -/
def setServerYXX (s : Ircd) (server : ClientId) (yxx : Str) : Option Ircd := do
  let c ← s.cli server
  let sv ← c.serv
  let c := { c with
    yxx := serverYXX yxx
    serv := some { sv with nn_mask := base64toint (serverCapacity yxx) } }
  some { s with
    cli := update s.cli server (some c)
    server_list := update s.server_list (base64toint c.yxx) (some server)
    client_list := update s.client_list server (some (fun _ => none)) }

/-! ## `check_loop_and_lh` -/

/-- Reason not to accept a server's new announcement. `enum lh_type` -/
inductive LhType
  | allowed
  | maxHopsExceeded
  | notAllowedToHub
  | iAmNotHub
  deriving DecidableEq

/-- What the SERVER handlers read besides the tables: the configuration of the link, the clock, and the checks
made before the loop is looked for. `check_loop_and_lh`, `mr_server` -/
structure ServerEnv where
  hub : Bool
  highestFd : ℕ
  maximum : ℕ
  /-- `lhconf->hub_limit`, as the test `match(lhconf->hub_limit, host)` of a name. -/
  hub_limit : Option (Str → Bool)
  /-- Whether a UWorld block of the link names the server. -/
  uworld : Str → Bool
  /-- `CurrentTime`. -/
  now : ℕ
  /-- A jupe, a connection rule or the port refuses the link. -/
  refuse : Bool
  /-- The Connect block, its fingerprint or its password refuses the link. -/
  refuseConf : Bool

/-- A SERVER message. `mr_server`, `ms_server` -/
structure ServerMsg where
  parc : ℕ
  /-- `parv[1]`: the server name. -/
  name : Str
  /-- `parv[2]`: the hop count. -/
  hop : ℕ
  /-- `parv[3]`: the start timestamp. -/
  start_timestamp : ℕ
  /-- `parv[4]`: the link timestamp. -/
  timestamp : ℕ
  /-- `parv[5]` as `parse_protocol` reads it; zero is bogus. -/
  prot : ℕ
  /-- `parv[5][0] == 'J'`. -/
  junction : Bool
  /-- `parv[6]`: the numnick mask. -/
  numnick : Str
  /-- `parv[parc - 1]`: the description. -/
  info : Str

/-- What `check_loop_and_lh` returns: `CPTR_KILLED`, zero or one. `check_loop_and_lh` -/
inductive LoopRet
  | killed
  | zero
  | one
  deriving DecidableEq

/-- The value of `exit_client(cptr, victim, …)`: whether it is `CPTR_KILLED`, and not zero. `s_misc.c`
`exit_client` -/
def exitRet (cptr victim : ClientId) : Bool := cptr = victim

/-- The value of `exit_client` as a result of `check_loop_and_lh`. `check_loop_and_lh` -/
def LoopRet.ofExit (killed : Bool) : LoopRet := if killed then .killed else .zero

/-- The servers from `x` towards this one, `me` excluded. `check_loop_and_lh` (the loops over `cli_serv(…)->up`)
-/
def upPath : ℕ → Ircd → ClientId → Option (List ClientId)
  | 0, _, _ => none
  | fuel + 1, s, x =>
    if x = s.me then some []
    else do
      let sv ← (← s.cli x).serv
      let rest ← upPath fuel s sv.up
      some (x :: rest)

/-- The link timestamp of a server. `cli_serv`. -/
def linkTs (s : Ircd) (x : ClientId) : ℕ :=
  match (s.cli x).bind (·.serv) with
  | some sv => sv.timestamp
  | none => 0

/-- The timestamp of a link, or of the announced one when there is no pointer. `check_loop_and_lh` -/
def linkTsOr (s : Ircd) (timestamp : ℕ) : Option ClientId → ℕ
  | some x => linkTs s x
  | none => timestamp

/-- Whether `a` is between `b` and this server. `s_serv.c`. -/
def aKillsBToo (fuel : ℕ) (s : Ircd) (a b : ClientId) : Option Bool := do
  let path ← upPath fuel s b
  some (decide (a ∈ path ++ [s.me]))

/-- The limit that applies to the new link, and the server to squit for it. `check_loop_and_lh` (before the
loop) -/
def activeLh (fuel : ℕ) (env : ServerEnv) (s : Ircd) (sptr : ClientId) (ghost : Bool) (host : Str)
    (hop : ℕ) (junction : Bool) : Option (LhType × Option ClientId) :=
  if ghost then
    if !env.hub ∧ (List.range (env.highestFd + 1)).any (fun ii =>
        match (s.localClientArray ii).bind s.cli with
        | some c => c.status = .server
        | none => false) then some (.iAmNotHub, none)
    else some (.allowed, none)
  else if env.maximum < hop then
    some (if env.hub_limit.isSome then .maxHopsExceeded else .notAllowedToHub, none)
  else
    match env.hub_limit with
    | some mismatch =>
      if mismatch host then
        if junction then do
          let path ← upPath fuel s sptr
          some (.notAllowedToHub, path.find? (fun x =>
            match s.cli x with
            | some c => c.junction
            | none => false))
        else some (.notAllowedToHub, none)
      else some (.allowed, none)
    | none => some (.allowed, none)

/-- The youngest link on a path, starting from `c3`. `check_loop_and_lh` ("Search youngest link") -/
def youngest (s : Ircd) (path : List ClientId) (c3 : ClientId) : ClientId :=
  path.foldl (fun c3 x => if linkTs s c3 < linkTs s x then x else c3) c3

/-- The youngest link on a path other than `c3`, starting from `c2`. `check_loop_and_lh` ("Search second
youngest link") -/
def secondYoungest (s : Ircd) (timestamp : ℕ) (path : List ClientId) (c3 c2 : Option ClientId) :
    Option ClientId :=
  path.foldl (fun c2 x =>
    if some x ≠ c3 ∧ linkTsOr s timestamp c2 < linkTs s x then some x else c2) c2

/-- `strcmp`, as the sign that the tie-break reads: whether the first string is greater. `check_loop_and_lh` -/
def strGt : Str → Str → Bool
  | [], _ => false
  | _ :: _, [] => true
  | a :: as, b :: bs => if a = b then strGt as bs else decide (b < a)

/-- The lesser of a link's two end names. `check_loop_and_lh` (`n2`, `n2up`, `n3`, `n3up`) -/
def linkName (s : Ircd) (host sname : Str) (c : Option ClientId) : Str :=
  let name (x : ClientId) : Str := ((s.cli x).map (·.name)).getD []
  let (n, nup) := match c with
    | some x =>
      (name x, match s.cli x with
        | some b => if b.cli_from = x then name s.me
            else (b.serv.map (fun sv => name sv.up)).getD []
        | none => [])
    | none => (host, sname)
  if strGt n nup then nup else n

/-- The link to break, or `none` for the new one. `pa` is the path from the server found and `ps` the path from
the introducing server, empty when it is not registered. `check_loop_and_lh` (the `c2ptr`, `c3ptr` computation)
-/
def linkToBreak (s : Ircd) (acptr : ClientId) (pa ps : List ClientId) (host sname : Str)
    (timestamp : ℕ) : Option ClientId :=
  let c3 := youngest s ps (youngest s pa acptr)
  let c3ptr := if linkTs s c3 < timestamp then none else some c3
  let c2ptr := if linkTs s c3 < timestamp then some acptr else none
  let c2ptr := secondYoungest s timestamp ps c3ptr (secondYoungest s timestamp pa c3ptr c2ptr)
  let c2ptr := if c3ptr.isSome ∧ linkTsOr s timestamp c2ptr < timestamp then none else c2ptr
  if linkTsOr s timestamp c2ptr = linkTsOr s timestamp c3ptr ∧
      strGt (linkName s host sname c3ptr) (linkName s host sname c2ptr) then c3ptr
  else c2ptr

/-- While a limit is active: whether squitting for it kills the victim of the loop too, and whether squitting
the victim solves it. Neither is looked at when no limit is active. `check_loop_and_lh` -/
def lhKillsToo (fuel : ℕ) (s : Ircd) (lh : LhType) (lhcptr : Option ClientId) (victim : ClientId) :
    Option (Bool × Bool) :=
  match lhcptr with
  | some l =>
    if lh = .allowed then some (false, false)
    else do some (← aKillsBToo fuel s l victim, ← aKillsBToo fuel s victim l)
  | none => some (false, false)

/-- The first letters of a server's description compared with `JUPE`, ignoring case. `check_loop_and_lh`; `ircd_string.c` `ircd_strncmp` -/
def isJuped (info : Str) : Bool := strEq (info.take 4) "JUPE".toList

/-- How the loop of `check_loop_and_lh` ends: with a `return` of `CPTR_KILLED` or zero, or at its end with the
limit that is still active and the ghost mark. `check_loop_and_lh` -/
inductive LoopEnd
  | ret (killed : Bool)
  | done (lh : LhType) (lhcptr : Option ClientId) (ghost : ℕ)

/-- The path from the introducing server, or nothing when it is not registered. `check_loop_and_lh` (the
`IsServer(sptr)` tests) -/
def introPath (fuel : ℕ) (s : Ircd) (sptr : ClientId) (sc : Client) : Option (List ClientId) :=
  if sc.status = .server then upPath fuel s sptr else some []

/-- Squit the second youngest link, or the server that is in the way, when a server of the announced name is
there. `none` as the second component goes round the loop with no limit active. `check_loop_and_lh` ("Now squit
the second youngest link") -/
def breakLink (env : ServerEnv) (fuel : ℕ) (s : Ircd) (cptr : ClientId) (ghost : Bool)
    (lh : LhType) (lhcptr : Option ClientId) (acptr : ClientId) (ac sc : Client)
    (c2ptr : ClientId) : Option (Ircd × Option LoopEnd) := do
  let c2 ← s.cli c2ptr
  if c2.cli_from = cptr ∨ sc.status = .server then do
    let (lhKills, killsLh) ← lhKillsToo fuel s lh lhcptr c2ptr
    if lhKills then some (s, some (.done lh lhcptr 0))
    else if lh ≠ .allowed ∧ ¬ (c2.cli_from = cptr ∨ killsLh) then some (s, some (.done lh none 0))
    else do
      let csv ← (← s.cli cptr).serv
      -- a server that caused a Ghost less than 20 seconds ago probably introduces another
      let lagged : Bool := env.now - csv.ghost < 20
      let victim := if lagged then acptr else c2ptr
      let killedptrfrom := if lagged then ac.cli_from else c2.cli_from
      let s ← exitClient fuel s victim
      if cptr = victim then some (s, some (.ret true))
      else if killedptrfrom = cptr then some (s, some (.ret false))
      else some (s, none)
  else do
    let (lhKills, killsLh) ← lhKillsToo fuel s lh lhcptr acptr
    if lhKills then some (s, some (.done lh lhcptr 0))
    else if lh ≠ .allowed ∧ ¬ (ac.cli_from = cptr ∨ killsLh) then some (s, some (.done lh none 0))
    else do
      -- a server that connects directly is no lagged message: kill the ghost
      let s ← exitClient fuel s acptr
      if cptr = acptr then some (s, some (.ret true))
      else some (s, some (.done .allowed lhcptr (if ghost then env.now else 0)))

/-- A server nick collision: find the link to break and break it. `check_loop_and_lh` ("Here we have a server
nick collision") -/
def collide (env : ServerEnv) (fuel : ℕ) (s : Ircd) (cptr sptr : ClientId) (ghost : Bool)
    (host : Str) (timestamp : ℕ) (lh : LhType) (lhcptr : Option ClientId) (acptr : ClientId)
    (ac sc : Client) : Option (Ircd × Option LoopEnd) := do
  let pa ← upPath fuel s acptr
  let ps ← introPath fuel s sptr sc
  let sname := if sc.status = .server then sc.name else ((s.cli s.me).map (·.name)).getD []
  match linkToBreak s acptr pa ps host sname timestamp with
  | none =>
    -- the new server is the one to go
    if sc.status ≠ .server then do some (← exitClient fuel s cptr, some (.ret true))
    else some (s, some (.ret false))
  | some c2ptr => breakLink env fuel s cptr ghost lh lhcptr acptr ac sc c2ptr

/-- The loop of `check_loop_and_lh`. `ghost` says whether the caller asked for the ghost timestamp, which
`mr_server` does and `ms_server` does not. `check_loop_and_lh` -/
def checkLoop (env : ServerEnv) (cptr sptr : ClientId) (ghost : Bool) (host numnick : Str)
    (timestamp : ℕ) : ℕ → Ircd → LhType → Option ClientId → Option (Ircd × LoopEnd)
  | 0, _, _, _ => none
  | fuel + 1, s, lh, lhcptr => do
      let (s, found) := findClient s host
      match found.or (s.server_list (serverSlot numnick)) with
      | none => some (s, .done lh lhcptr 0)
      | some acptr =>
        let ac ← s.cli acptr
        let sc ← s.cli sptr
        if acptr = s.me ∨ ¬ strEq ac.name host then
          -- collision with me, or a wrong numeric
          some (← exitClient fuel s cptr, .ret true)
        else if ac.status = .connecting then
          -- kill our try, if we had one
          if lh = .allowed then do
            let s ← exitClient fuel s acptr
            if cptr = acptr then some (s, .ret true) else some (s, .done lh lhcptr 0)
          else some (s, .done lh lhcptr 0)
        else if ac.status ≠ .server ∧ ac.status ≠ .handshake then
          some (← exitClient fuel s cptr, .ret true)
        else if ac.status = .server ∧ (isJuped ac.info ∨ env.uworld ac.name) then
          if sc.status ≠ .server then
            some (← exitClient fuel s sptr, .ret (exitRet cptr sptr))
          else some (s, .ret false)
        else if ac.status = .handshake ∧ acptr = cptr then
          -- the handshake this link was before
          some (s, .done lh lhcptr 0)
        else do
          let (s, e) ← collide env fuel s cptr sptr ghost host timestamp lh lhcptr acptr ac sc
          match e with
          | some e => some (s, e)
          | none => checkLoop env cptr sptr ghost host numnick timestamp fuel s .allowed lhcptr

/-- Check whether the introduction of a new server would cause a loop or be disallowed by leaf and hub
configuration directives. Returns the ghost timestamp beside the result. -/
def checkLoopAndLh (fuel : ℕ) (env : ServerEnv) (s : Ircd) (cptr sptr : ClientId) (ghost : Bool)
    (host numnick : Str) (timestamp hop : ℕ) (junction : Bool) :
    Option (Ircd × LoopRet × ℕ) := do
  let (lh, lhcptr) ← activeLh fuel env s sptr ghost host hop junction
  match ← checkLoop env cptr sptr ghost host numnick timestamp fuel s lh lhcptr with
  | (s, .ret killed) => some (s, .ofExit killed, 0)
  | (s, .done lh lhcptr g) =>
    if lh ≠ .allowed then do
      let victim := lhcptr.getD sptr
      some (← exitClient fuel s victim, .ofExit (exitRet cptr victim), g)
    else some (s, .one, g)

/-! ## The message handlers -/

/-- Any timestamp older than this is bogus. `ircd.h`. -/
def oldestTs : ℕ := 780000000

/-- Minimum protocol version supported. `ircd.h`. -/
def minorProtocol : ℕ := 9

/-- Longest description. `ircd_defs.h`. -/
def realLen : ℕ := 50

def setCli (s : Ircd) (x : ClientId) (c : Client) : Ircd :=
  { s with cli := update s.cli x (some c) }

/-- The renaming that `mr_server` makes before it checks anything: the hash table is changed only when the
connection had another name, and the record always takes the new one. `mr_server` -/
def renameLink (s : Ircd) (cptr : ClientId) (c : Client) (host info : Str) : Ircd :=
  let s := if c.name ≠ [] ∧ ¬ strEq c.name host then hChangeClient s cptr c.name host else s
  setCli s cptr { c with name := ircdStrncpy [] host (hostLen + 1), info := info }

/-- The connection becomes a server linked to this one: `make_server`, `SetServerYXX` and the tables part of
`server_estab`. `newts` is the link timestamp that `check_start_timestamp` leaves and `lp` the new list element.
`mr_server`; `s_serv.c`. -/
def serverEstab (s : Ircd) (cptr : ClientId) (newts ghost : ℕ) (numnick : Str) (lp : DLinkId) :
    Option Ircd := do
  let c ← s.cli cptr
  let s := setCli s cptr { c with serv := some ⟨s.me, 0, newts, ghost⟩ }
  let s ← setServerYXX s cptr numnick
  let s := if c.status ≠ .handshake then hAddClient s cptr c.name else s
  let c ← s.cli cptr
  let s := setCli s cptr { c with status := .server, junction := true }
  let s := addDlink s s.me cptr lp
  some { s with updown := update s.updown cptr (some lp) }

/-- Handle a SERVER message from an unregistered connection. The second component says whether the server was
accepted. -/
def mrServer (fuel : ℕ) (env : ServerEnv) (s : Ircd) (cptr : ClientId) (m : ServerMsg)
    (newts : ℕ) (lp : DLinkId) : Option (Ircd × Bool) := do
  let c ← s.cli cptr
  if c.status ≠ .unknown ∧ c.status ≠ .unknownServer ∧ c.status ≠ .handshake then
    -- a user port, or no message of an unregistered connection
    some (← exitClient fuel s cptr, false)
  else if m.parc < 8 ∨ env.refuse ∨ m.prot < minorProtocol ∨ m.timestamp < oldestTs
      ∨ m.start_timestamp < oldestTs then
    some (← exitClient fuel s cptr, false)
  else
    match cleanServername m.name with
    | none => some (← exitClient fuel s cptr, false)
    | some host => do
        let info := if m.info = [] then ((s.cli s.me).map (·.name)).getD [] else m.info
        let s := renameLink s cptr c host (info.take realLen)
        if env.refuseConf then some (← exitClient fuel s cptr, false)
        else do
          let (s, ret, ghost) ←
            checkLoopAndLh fuel env s cptr cptr true host m.numnick m.timestamp m.hop true
          if ret ≠ .one then some (s, false)
          else some (← serverEstab s cptr newts ghost m.numnick lp, true)

/-- The new server structure behind a link: `make_client`, `make_server`, the downlink element, `SetServerYXX`
and the two tables. `acptr` is the new record and `lp` the new list element. `ms_server` -/
def newRemoteServer (s : Ircd) (cptr sptr : ClientId) (m : ServerMsg) (host : Str)
    (acptr : ClientId) (lp : DLinkId) : Option Ircd := do
  let sc ← s.cli sptr
  let _ ← sc.serv
  let s := setCli s acptr
    { status := .server, name := ircdStrncpy [] host (hostLen + 1), yxx := [], cli_from := cptr,
      fd := none, info := m.info.take realLen, junction := m.junction,
      serv := some ⟨sptr, 0, m.timestamp, 0⟩, user := none }
  let s := addDlink s sptr acptr lp
  let s := { s with updown := update s.updown acptr (some lp) }
  let s ← setServerYXX s acptr m.numnick
  let s := addClientToList s acptr
  some (hAddClient s acptr (ircdStrncpy [] host (hostLen + 1)))

/-- Handle a SERVER message from another server. A refusal of the new server alone sends a SQUIT and leaves the
tables; the other refusals exit the link or the introducing server. -/
def msServer (fuel : ℕ) (env : ServerEnv) (s : Ircd) (cptr sptr : ClientId) (m : ServerMsg)
    (acptr : ClientId) (lp : DLinkId) : Option (Ircd × Bool) :=
  if m.parc < 8 then some (s, false)
  else
    match cleanServername m.name with
    | none => do some (← exitClient fuel s cptr, false)
    | some host =>
      if m.prot = 0 then do some (← exitClient fuel s sptr, false)
      else if m.prot < minorProtocol then some (s, false)
      else if m.timestamp < oldestTs then do some (← exitClient fuel s sptr, false)
      else if m.info = [] then do some (← exitClient fuel s cptr, false)
      else do
        let (s, ret, _) ←
          checkLoopAndLh fuel env s cptr sptr false host m.numnick m.timestamp m.hop m.junction
        if ret ≠ .one then some (s, false)
        else some (← newRemoteServer s cptr sptr m host acptr lp, true)

/-- A connection arrives on a server port. `s_bsd.c` `add_connection`; `s_auth.c` `start_auth` -/
def acceptLink (s : Ircd) (x : ClientId) (fd : ℕ) : Ircd :=
  let s := setCli s x ⟨.unknownServer, [], [], x, some fd, [], false, none, none⟩
  let s := { s with localClientArray := update s.localClientArray fd (some x) }
  addClientToList s x

/-- Attempt to connect to a server, unless a client has the name already. `s_bsd.c`. -/
def connectServer (s : Ircd) (x : ClientId) (fd : ℕ) (name : Str) : Ircd :=
  let (s, found) := findClient s name
  match found.bind s.cli with
  | some c =>
    if c.status = .server ∨ c.status = .me ∨ c.status = .handshake ∨ c.status = .connecting then s
    else connectNew s
  | none => connectNew s
where
  /-- The new connection and its record. -/
  connectNew (s : Ircd) : Ircd :=
    let c : Client := ⟨.connecting, name.take hostLen, [], x, some fd, [], false,
      some ⟨s.me, 0, 0, 0⟩, none⟩
    let s := setCli s x c
    let s := { s with localClientArray := update s.localClientArray fd (some x) }
    hAddClient (addClientToList s x) x (name.take hostLen)

/-- The outgoing connection is established: the handshake starts with a new link timestamp. `s_bsd.c`. -/
def completedConnection (s : Ircd) (x : ClientId) (newts : ℕ) : Ircd :=
  match s.cli x with
  | some c =>
    if c.status = .connecting then
      let serv := c.serv.map (fun sv => { sv with timestamp := newts })
      setCli s x { c with status := .handshake, serv := serv }
    else s
  | none => s

end Nefarious.Network
