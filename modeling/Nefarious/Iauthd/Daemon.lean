import Nefarious.Strings
import Mathlib.Data.Finset.Card
import Mathlib.Data.Nat.Bitwise

/-!
# The authentication daemon

`iauthd-ts` reads lines from the ircd about connecting clients, looks their addresses up in DNS block lists, and
answers each client with one verdict: it is done (`D`) or killed (`k`). Counters, statistics and debug lines are
not modelled.

Names: `iauth.ts`.
-/

namespace Nefarious.Iauthd

/-! ## Addresses and block lists -/

/-- One to three digits. `dnsbl.ts` (`\d{1,3}`). -/
def isOctet (w : Str) : Bool := 1 ≤ w.length ∧ w.length ≤ 3 ∧ w.all isDigit

/-- Check if an IP is IPv4. `dnsbl.ts`. -/
def isIPv4 (ip : Str) : Bool :=
  match ip.splitOn '.' with
  | [a, b, c, d] => isOctet a ∧ isOctet b ∧ isOctet c ∧ isOctet d
  | _ => false

/-- The value of an octet. `dnsbl.ts` (`parseInt`). -/
def octetValue (w : Str) : ℕ := Nat.ofDigitChars 10 w 0

/-- Reverse an IPv4 address for a lookup. `dnsbl.ts`. -/
def reverseIPv4 (ip : Str) : Option Str :=
  if ¬ isIPv4 ip then none
  else match ip.splitOn '.' with
    | [a, b, c, d] =>
      if [a, b, c, d].any (fun o => 255 < octetValue o) then none
      else some (d ++ '.' :: c ++ '.' :: b ++ '.' :: a)
    | _ => none

/-- How a block list blocks. `types.ts` `DNSBLConfig`. -/
inductive Block
  | all
  | anonymous
  deriving DecidableEq

/-- A block list. The values of a configuration have no blanks in them. `types.ts`
`DNSBLConfig` -/
structure Dnsbl where
  cfgNum : ℕ
  server : Str
  /-- Match if the answer is one of these. -/
  index : Str
  /-- Match if the answer has one of these bits. -/
  bitmask : Str
  mark : Str
  block : Option Block
  /-- Clients are not blocked by any list. -/
  whitelist : Bool
  cls : Str
  /-- Cache time, if it is not the default one. -/
  cacheTime : Option ℤ
  deriving DecidableEq

/-- `parseInt` with base ten; `none` is not a number. ECMAScript. -/
def parseInt (s : Str) : Option ℤ :=
  if (unsigned.takeWhile isDigit) = [] then none
  else some (if s.head? = some '-' then -octetValue (unsigned.takeWhile isDigit)
    else octetValue (unsigned.takeWhile isDigit))
where
  unsigned : Str := if s.head? = some '-' ∨ s.head? = some '+' then s.tail else s

/-- The bits that two numbers share, as 32-bit numbers. ECMAScript `&`. -/
def sharesBit (a : ℤ) (b : ℕ) : Bool := (a % 2 ^ 32).toNat &&& b ≠ 0

/-- An answer matches a block list. `dnsbl.ts` `matchesDNSBL`. -/
def answerMatches (d : Dnsbl) (ip : Str) : Bool :=
  isIPv4 ip ∧ ((d.index ≠ [] ∧ some (lastOctet : ℤ) ∈ (d.index.splitOn ',').map parseInt) ∨ (d.bitmask ≠ [] ∧
        ((d.bitmask.splitOn ',').map parseInt).any (fun m => m.any (sharesBit · lastOctet))) ∨
      (d.index = [] ∧ d.bitmask = []))
where
  lastOctet : ℕ := octetValue ((ip.splitOn '.').getLastD [])

/-- Check if the answers match a block list. `dnsbl.ts`. -/
def matchesDNSBL (results : List Str) (d : Dnsbl) : Bool := results.any (answerMatches d)

/-- The configuration. Lines are numbered, so no two block lists have the same number.
`types.ts`. -/
structure Config where
  dnsbls : List Dnsbl
  /-- Message shown when blocking a client. -/
  blockMsg : Str
  /-- Default cache time in seconds. -/
  cacheTime : ℤ
  /-- There are authentication providers. -/
  saslEnabled : Bool
  /-- The decoding of a PLAIN message: account to authenticate, password, account to act as. -/
  decodeSASLPlain : Str → Option (Str × Str × Str)
  nodup : (dnsbls.map (·.cfgNum)).Nodup

/-- A cache entry; without a result it is pending. `types.ts`. -/
structure CacheEntry where
  result : Option (List Str)
  /-- When it was made, in milliseconds. -/
  ts : ℤ

/-! ## State -/

/-- `Map<number, boolean>` of the lookups: its keys, and the keys that are pending.
`types.ts` `ClientState` (`lookups`) -/
structure Lookups where
  keys : Finset ℕ
  pending : Finset ℕ
  deriving DecidableEq

/-- `Map.set`. ECMAScript `Map`. -/
def Lookups.set (l : Lookups) (k : ℕ) (b : Bool) : Lookups :=
  ⟨insert k l.keys, if b then insert k l.pending else l.pending.erase k⟩

/-- SASL session state. `types.ts` `SASLState`. -/
structure Sasl where
  mechanism : Option Str
  started : Bool
  certfp : Option Str
  hostInfo : Option Str
  deriving DecidableEq

/-- Client state during registration. `types.ts`. -/
structure ClientState where
  /-- The descriptor that the ircd names it by. -/
  id : ℤ
  ip : Str
  port : ℕ
  serverIp : Str
  serverPort : ℕ
  whitelist : Bool
  block : Option Block
  marks : List Str
  cls : Option Str
  hurry : Bool
  lookups : Lookups
  account : Option Str
  hits : Finset ℕ
  sasl : Option Sasl
  deriving DecidableEq

/-- A lookup that is awaited: of which object, with which block list and query, and whether it only waits for
the cache. `startDNSBLLookups` -/
structure Pending where
  ref : ℕ
  dnsbl : Dnsbl
  query : Str
  /-- Another lookup of the same query is in flight. -/
  retry : Bool

/-- The daemon. `IAuthDaemon`. -/
structure Daemon where
  obj : ℕ → ClientState
  next : ℕ
  clients : ℤ → Option ℕ
  pending : List Pending
  /-- The authentications that are awaited. -/
  auths : List ℕ
  cache : Str → Option CacheEntry

/-- A line for the ircd, with the client it is about as it is when the line is sent. `sendDone` …
`sendSASLMechs` -/
inductive Out
  | mark (client : ClientState) (data : Str)
  | done (client : ClientState)
  | kill (client : ClientState) (reason : Str)
  | challenge (client : ClientState) (challenge : Str)
  | success (client : ClientState) (account : Str)
  | fail (id : ℤ) (client : Option ClientState)
  | mechs (client : ClientState) (mechanisms : List Str)

/-- The verdict of a line, if it is one: the client. `sendDone`, `sendKill`. -/
def Out.verdict : Out → Option ClientState
  | .done c => some c
  | .kill c _ => some c
  | _ => none

namespace Daemon

def modify (s : Daemon) (r : ℕ) (f : ClientState → ClientState) : Daemon :=
  { s with obj := Function.update s.obj r (f (s.obj r)) }

/-- The client of a descriptor. `iauth.ts` (`this.clients.get`). -/
def client (s : Daemon) (id : ℤ) : Option ClientState := (s.clients id).map s.obj

def deleteClient (s : Daemon) (id : ℤ) : Daemon :=
  { s with clients := Function.update s.clients id none }

/-- Make an object and put it into the table. `iauth.ts` (`this.clients.set`). -/
def addClient (s : Daemon) (c : ClientState) : Daemon :=
  { s with
    obj := Function.update s.obj s.next c,
    next := s.next + 1,
    clients := Function.update s.clients c.id (some s.next) }

@[simp] lemma modify_obj_self (s : Daemon) (r : ℕ) (f : ClientState → ClientState) :
    (s.modify r f).obj r = f (s.obj r) := Function.update_self ..

lemma modify_obj_of_ne (s : Daemon) {r q : ℕ} (f : ClientState → ClientState) (h : q ≠ r) :
    (s.modify r f).obj q = s.obj q := Function.update_of_ne h ..

@[simp] lemma modify_clients (s : Daemon) (r : ℕ) (f : ClientState → ClientState) :
    (s.modify r f).clients = s.clients := rfl

@[simp] lemma modify_pending (s : Daemon) (r : ℕ) (f : ClientState → ClientState) :
    (s.modify r f).pending = s.pending := rfl

@[simp] lemma modify_next (s : Daemon) (r : ℕ) (f : ClientState → ClientState) :
    (s.modify r f).next = s.next := rfl

@[simp] lemma deleteClient_self (s : Daemon) (id : ℤ) : (s.deleteClient id).clients id = none :=
  Function.update_self ..

lemma deleteClient_of_ne (s : Daemon) {id id' : ℤ} (h : id' ≠ id) :
    (s.deleteClient id).clients id' = s.clients id' := Function.update_of_ne h ..

@[simp] lemma addClient_self (s : Daemon) (c : ClientState) :
    (s.addClient c).clients c.id = some s.next := Function.update_self ..

lemma addClient_of_ne (s : Daemon) {c : ClientState} {id : ℤ} (h : id ≠ c.id) :
    (s.addClient c).clients id = s.clients id := Function.update_of_ne h ..

@[simp] lemma addClient_obj_self (s : Daemon) (c : ClientState) :
    (s.addClient c).obj s.next = c := Function.update_self ..

lemma addClient_obj_of_ne (s : Daemon) (c : ClientState) {r : ℕ} (h : r ≠ s.next) :
    (s.addClient c).obj r = s.obj r := Function.update_of_ne h ..

end Daemon

/-! ## Decisions -/

/-- Accept a client. `clientPass`, `sendMark`, `sendDone`. -/
def clientPass (s : Daemon) (c : ClientState) : Daemon × List Out :=
  (s.deleteClient c.id, ((c.marks.filter (· ≠ [])).map (Out.mark c)) ++ [.done c])

/-- Reject a client. `clientReject`, `sendKill`. -/
def clientReject (s : Daemon) (c : ClientState) (reason : Str) : Daemon × List Out :=
  (s.deleteClient c.id, [.kill c reason])

/-- Check if client processing is complete: with a Hurry and no pending lookup the decision is made. -/
def handleClientUpdate (cfg : Config) (s : Daemon) (r : ℕ) : Daemon × List Out :=
  if (s.obj r).hurry ∧ (s.obj r).lookups.pending.card = 0 then
    let s := s.modify r (fun c => { c with hits := ∅ })
    let c := s.obj r
    if c.whitelist then clientPass s c
    else if c.block = some .all ∨ (c.block = some .anonymous ∧ c.account.getD [] = []) then
      clientReject s c cfg.blockMsg
    else clientPass s c
  else (s, [])

/-- What a match does to a client. -/
def handleDNSBLResponse (d : Dnsbl) (results : List Str) (c : ClientState) : ClientState :=
  if results = [] ∨ ¬ matchesDNSBL results d then c
  else { c with
    whitelist := c.whitelist || d.whitelist,
    block := if d.block.isSome then d.block else c.block,
    cls := if d.cls ≠ [] then some d.cls else c.cls,
    marks := if d.mark ≠ [] ∧ d.mark ∉ c.marks then c.marks ++ [d.mark] else c.marks,
    hits := insert d.cfgNum c.hits }

/-- A lookup has its results. `startDNSBLLookups` ("Process results"). -/
def finishLookup (cfg : Config) (s : Daemon) (r : ℕ) (d : Dnsbl) (results : List Str) : Daemon × List Out :=
  let s := s.modify r (handleDNSBLResponse d results)
  let s := s.modify r (fun c => { c with lookups := c.lookups.set d.cfgNum false })
  handleClientUpdate cfg s r

/-! ## Lookups -/

/-- Get a cache entry if it is valid. `dnsbl.ts`. -/
def getCacheEntry (cache : Str → Option CacheEntry) (query : Str) (cacheTime now : ℤ) :
    Option CacheEntry × (Str → Option CacheEntry) :=
  match cache query with
  | none => (none, cache)
  | some entry =>
    if cacheTime ≤ 0 ∨ entry.ts ≤ now - cacheTime * 1000 then
      (none, Function.update cache query none)
    else (some entry, cache)

/-- Start one lookup: it ends at once when the cache has a result, and is awaited otherwise. `startDNSBLLookups` -/
def startLookup (cfg : Config) (now : ℤ) (r : ℕ) (reversedIp : Str) (d : Dnsbl) (s : Daemon) :
    Daemon × List Out :=
  let query := reversedIp ++ '.' :: d.server
  let s := s.modify r (fun c => { c with lookups := c.lookups.set d.cfgNum true })
  let (cached, cache) := getCacheEntry s.cache query (d.cacheTime.getD cfg.cacheTime) now
  let s := { s with cache := cache }
  match cached with
  | some ⟨some results, _⟩ => finishLookup cfg s r d results
  | some ⟨none, _⟩ => ({ s with pending := s.pending ++ [⟨r, d, query, true⟩] }, [])
  | none =>
    ({ s with
      cache := Function.update s.cache query (some ⟨none, now⟩),
      pending := s.pending ++ [⟨r, d, query, false⟩] }, [])

/-- Start the lookups one after the other. `startDNSBLLookups`. -/
def startLookups (cfg : Config) (now : ℤ) (r : ℕ) (reversedIp : Str) : List Dnsbl → Daemon → Daemon × List Out
  | [], s => (s, [])
  | d :: ds, s =>
    let (s, outs) := startLookup cfg now r reversedIp d s
    let (s, outs') := startLookups cfg now r reversedIp ds s
    (s, outs ++ outs')

lemma startLookups_cons (cfg : Config) (now : ℤ) (r : ℕ) (reversedIp : Str) (d : Dnsbl)
    (ds : List Dnsbl) (s : Daemon) :
    startLookups cfg now r reversedIp (d :: ds) s =
      ((startLookups cfg now r reversedIp ds (startLookup cfg now r reversedIp d s).1).1,
        (startLookup cfg now r reversedIp d s).2 ++
          (startLookups cfg now r reversedIp ds (startLookup cfg now r reversedIp d s).1).2) := rfl

/-- Start the lookups of a client; there are none for an address that is not an IPv4 address. -/
def startDNSBLLookups (cfg : Config) (now : ℤ) (s : Daemon) (r : ℕ) : Daemon × List Out :=
  match reverseIPv4 (s.obj r).ip with
  | none => (s, [])
  | some reversedIp => startLookups cfg now r reversedIp cfg.dnsbls s

/-! ## Lines -/

/-- A new object. `handleClientIntro`, `handleWebIRC`. -/
def newClient (id : ℤ) (ip : Str) (port : ℕ) (serverIp : Str) (serverPort : ℕ) (hurry : Bool)
    (sasl : Option Sasl) : ClientState where
  id := id
  ip := ip
  port := port
  serverIp := serverIp
  serverPort := serverPort
  whitelist := false
  block := none
  marks := []
  cls := none
  hurry := hurry
  lookups := ⟨∅, ∅⟩
  account := none
  hits := ∅
  sasl := sasl

/-- Handle a client introduction. `none` is the end of the process. -/
def handleClientIntro (cfg : Config) (now : ℤ) (id : ℤ) (ip : Str) (port : ℕ) (serverIp : Str)
    (serverPort : ℕ) (s : Daemon) : Option (Daemon × List Out) :=
  if ip = [] then some (s, [])
  else if (s.clients id).isSome then none
  else some (startDNSBLLookups cfg now
    (s.addClient (newClient id ip port serverIp serverPort false none)) s.next)

def handleHurry (cfg : Config) (id : ℤ) (s : Daemon) : Daemon × List Out :=
  match s.clients id with
  | none => (s, [])
  | some r => handleClientUpdate cfg (s.modify r (fun c => { c with hurry := true })) r

def handleAuth (cfg : Config) (id : ℤ) (account : Str) (s : Daemon) : Daemon × List Out :=
  match s.clients id with
  | none => (s, [])
  | some r => handleClientUpdate cfg (s.modify r (fun c => { c with account := some account })) r

/-- Handle trusted WEBIRC: the entry is replaced by a new object with the new address. -/
def handleWebIRC (cfg : Config) (now : ℤ) (id : ℤ) (newIp : Str) (s : Daemon) : Daemon × List Out :=
  match s.clients id with
  | none => (s, [])
  | some r =>
    let c := s.obj r
    startDNSBLLookups cfg now
      (s.addClient (newClient id newIp c.port c.serverIp c.serverPort c.hurry none)) s.next

/-- The text behind the first colon, if there is one. ECMAScript `indexOf`, `substring`. -/
def behindColon (s : Str) : Option Str :=
  match s.dropWhile (· ≠ ':') with
  | [] => none
  | _ :: s => some s

/-- Remove blanks at both ends. ECMAScript. -/
def trim (s : Str) : Str := ((s.dropWhile isSpace).reverse.dropWhile isSpace).reverse

/-- Upper-case letters. ECMAScript. -/
def toUpperCase (s : Str) : Str := s.map Char.toUpper

/-- The mechanisms. `sasl.ts`. -/
def getSupportedMechanisms : List Str := ["PLAIN".toList]

/-- The mechanism and the fingerprint of a start. `handleSASLStart`. -/
def saslMechanism (rest : Str) : Str × Option Str :=
  if rest.head? = some ':' then (trim rest.tail, none)
  else match behindColon rest with
    | some certfp => (trim (rest.takeWhile (· ≠ ':')), some (trim certfp))
    | none => (trim rest, none)

/-- Handle the start of a SASL authentication; a descriptor that has no entry is given one. -/
def handleSASLStart (cfg : Config) (id : ℤ) (args : Str) (s : Daemon) : Daemon × List Out :=
  if ¬ cfg.saslEnabled then (s, [.fail id (s.client id)])
  else
    let s := if (s.clients id).isSome then s
      else s.addClient (newClient id "0.0.0.0".toList 0 [] 0 false (some ⟨none, false, none, none⟩))
    match s.clients id with
    | none => (s, [])
    | some r =>
      let s := s.modify r (fun c => { c with
        sasl := some (c.sasl.getD ⟨none, false, none, none⟩) })
      match args.dropWhile (· ≠ ' ') with
      | [] => (s, [])
      | _ :: rest =>
        let msgType := args.takeWhile (· ≠ ' ')
        if msgType = "H".toList then
          match behindColon rest with
          | none => (s, [])
          | some info => (s.modify r (fun c => { c with
              sasl := c.sasl.map (fun a => { a with hostInfo := some info }) }), [])
        else if msgType = "S".toList then
          let (mechanism, certfp) := saslMechanism rest
          let s := s.modify r (fun c => { c with
            sasl := c.sasl.map (fun a =>
              { a with mechanism := some mechanism, certfp := certfp, started := true }) })
          if toUpperCase mechanism ∉ getSupportedMechanisms then
            (s, [.mechs (s.obj r) getSupportedMechanisms])
          else (s, [.challenge (s.obj r) "+".toList])
        else (s, [])

/-- Handle the continuation of a SASL authentication, which is awaited. `handleSASLContinue`, `handleSASLPlain`
-/
def handleSASLContinue (cfg : Config) (id : ℤ) (args : Str) (s : Daemon) : Daemon × List Out :=
  match s.clients id with
  | none => (s, [.fail id none])
  | some r =>
    match cfg.saslEnabled, (s.obj r).sasl, behindColon args with
    | true, some a, some data =>
      if toUpperCase (a.mechanism.getD []) = "PLAIN".toList ∧
          (cfg.decodeSASLPlain data).isSome then
        ({ s with auths := s.auths ++ [r] }, [])
      else (s, [.fail id (some (s.obj r))])
    | _, _, _ => (s, [.fail id (some (s.obj r))])

/-- The results of a lookup that is awaited: the answers of the name server, or what the cache has by now.
`startDNSBLLookups` -/
def awaitedResults (cfg : Config) (now : ℤ) (p : Pending) (answers : List Str) (s : Daemon) :
    List Str × Daemon :=
  if p.retry then
    let (cached, cache) := getCacheEntry s.cache p.query (p.dnsbl.cacheTime.getD cfg.cacheTime) now
    ((cached.bind (·.result)).getD [], { s with cache := cache })
  else (answers, { s with cache := Function.update s.cache p.query (some ⟨some answers, now⟩) })

/-- The `k`-th lookup that is awaited ends. `startDNSBLLookups`. -/
def lookupEnds (cfg : Config) (now : ℤ) (k : ℕ) (answers : List Str) (s : Daemon) : Daemon × List Out :=
  match s.pending[k]? with
  | none => (s, [])
  | some p =>
    let (results, s) := awaitedResults cfg now p answers s
    finishLookup cfg { s with pending := s.pending.eraseIdx k } p.ref p.dnsbl results

/-- The `k`-th authentication that is awaited ends. `handleSASLPlain`, `sendSASLSuccess`, `sendSASLFail`. -/
def authEnds (k : ℕ) (account : Option Str) (s : Daemon) : Daemon × List Out :=
  match s.auths[k]? with
  | none => (s, [])
  | some r =>
    let s := { s with auths := s.auths.eraseIdx k }
    let id := (s.obj r).id
    match account with
    | some account =>
      let s := s.modify r (fun c => { c with account := some account })
      (s, ((s.client id).map (Out.success · account)).toList)
    | none => (s, [.fail id (s.client id)])

/-- A line of the ircd, or the end of something that was awaited. `handleLine` -/
inductive Event
  | intro (id : ℤ) (ip : Str) (port : ℕ) (serverIp : Str) (serverPort : ℕ)
  | disconnect (id : ℤ)
  | auth (id : ℤ) (account : Str)
  | hurry (id : ℤ) (cls : Str)
  | saslStart (id : ℤ) (args : Str)
  | saslContinue (id : ℤ) (args : Str)
  | webirc (id : ℤ) (password username hostname newIp : Str)
  | lookupEnds (k : ℕ) (answers : List Str)
  | authEnds (k : ℕ) (account : Option Str)

/-- Handle an event while the clock reads `now`. `none` is the end of the process. `handleLine` -/
def handle (cfg : Config) (now : ℤ) (s : Daemon) : Event → Option (Daemon × List Out)
  | .intro id ip port serverIp serverPort =>
    handleClientIntro cfg now id ip port serverIp serverPort s
  | .disconnect id => some (s.deleteClient id, [])
  | .auth id account => some (handleAuth cfg id account s)
  | .hurry id _ => some (handleHurry cfg id s)
  | .saslStart id args => some (handleSASLStart cfg id args s)
  | .saslContinue id args => some (handleSASLContinue cfg id args s)
  | .webirc id _ _ _ newIp => some (handleWebIRC cfg now id newIp s)
  | .lookupEnds k answers => some (lookupEnds cfg now k answers s)
  | .authEnds k account => some (authEnds k account s)

/-- The daemon when it is started. `IAuthDaemon`. -/
def Daemon.start : Daemon where
  obj := fun _ => newClient 0 [] 0 [] 0 false none
  next := 0
  clients := fun _ => none
  pending := []
  auths := []
  cache := fun _ => none

end Nefarious.Iauthd
