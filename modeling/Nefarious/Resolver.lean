import Nefarious.Address
import Nefarious.Lib.Ring
import Nefarious.Lib.Runs

/-!
# The resolver

A lookup is a request in a ring. The reading and writing of names are parameters. A step is undefined when a
request is used that was freed, when memory in use is allocated, when an id in use is drawn, since the daemon
draws another one then, and when a way through the ring does not end.

Names: `ircd_res.c`.
-/

namespace Nefarious.Resolver

open Function (update)

open Lib Lib.Rings

/-! ## Data -/

/-- `ircd_defs.h`. -/
def hostlen : ℕ := 75

/-- Current request state. -/
inductive RequestState
  | idle
  | ptr
  | a
  | aaaa
  | cname
  | int
  deriving DecidableEq

/-- `res.h` `T_A`. -/
def tA : ℕ := 1

/-- `res.h` `T_CNAME`. -/
def tCNAME : ℕ := 5

/-- `res.h` `T_PTR`. -/
def tPTR : ℕ := 12

/-- `res.h` `T_AAAA`. -/
def tAAAA : ℕ := 28

/-- A single resolver request. `struct reslist`. -/
structure Reslist where
  /-- Request ID (from request header). -/
  id : ℕ
  sent : ℕ
  state : RequestState
  type : ℕ
  retries : ℤ
  sends : ℕ
  resend : Bool
  /-- Timestamp we last sent this request. -/
  sentat : ℕ
  /-- When this request times out. -/
  timeout : ℕ
  addr : List ℕ
  name : Option Str
  /-- The lookup whose callback this is. -/
  callback : ℕ
  callbackCtx : ℕ

/-- The timer of the resolver. `ircd_events.h` `struct Timer`. -/
structure Timer where
  value : ℕ
  expire : ℕ
  onqueue : Bool
  marked : Bool
  readd : Bool
  lastSet : ℕ

/-- The requests and the timer, with the history of the lookups. The ring starts at `0`. `request_list`,
`res_timeout` -/
structure State where
  currentTime : ℕ
  started : Bool
  links : Links ℕ
  live : List ℕ
  request : ℕ → Reslist
  /-- `res_timeout`. -/
  timer : Timer
  /-- The contexts of the lookups that were made, oldest first. -/
  lookups : List ℕ
  /-- The lookups whose callback was called. -/
  answered : List ℕ
  /-- The lookups whose context was deleted before they were answered. -/
  deleted : List ℕ

/-- What the resolver is built with. `ircd_reslib.c`; `ircd_features.c`. -/
structure Env where
  resRetries : ℤ
  resTimeout : ℕ
  ircDomain : Str
  ipv6 : Bool
  /-- `irc_res_mkquery` makes a query for a name and a type. -/
  mkquery : Str → ℕ → Bool
  /-- `irc_dn_expand`: the bytes of a name in a message, and the name. -/
  dnExpand : (ℕ → ℕ) → ℕ → ℕ → ℤ × Str
  /-- `irc_dn_skipname`: the bytes of a name in a message. -/
  dnSkipname : (ℕ → ℕ) → ℕ → ℕ → ℤ

/-- What happens to a query: the last number drawn for its id, and the name servers it is sent to. `query_name`. -/
structure Query where
  /-- `ircrandom`. -/
  id : ℕ
  /-- `send_res_msg`. -/
  sent : ℕ

/-- A reply from a name server; what lies behind its end is arbitrary. `res.h` `HEADER`. -/
structure Reply where
  id : ℕ
  rcode : ℕ
  qdcount : ℕ
  ancount : ℕ
  buf : ℕ → ℕ
  eob : ℕ

/-- Append local domain to hostname if needed. -/
def addLocalDomain (domain hname : Str) (size : ℕ) : Str :=
  if '.' ∈ hname then hname
  else if domain ≠ [] ∧ domain.length + hname.length + 2 < size then hname ++ '.' :: domain
  else hname

/-- The bytes of an address. `do_query_number` (`cp`). -/
def addrBytes (addr : List ℕ) : List ℕ := addr.flatMap fun group => [group / 256, group % 256]

/-- The name of an address. `do_query_number`. -/
def addrName (addr : List ℕ) (int : Bool) : Str :=
  if inAddrIsIpv4 addr then
    ((addrBytes addr).drop 12).reverse.flatMap (fun byte => digits byte ++ ['.']) ++ "in-addr.arpa.".toList
  else
    (addrBytes addr).reverse.flatMap (fun byte => [hexdigit (byte % 16), '.', hexdigit (byte / 16), '.'])
      ++ "ip6.".toList ++ (if int then "int." else "arpa.").toList

/-- The timer is put on the queue, unless it is running. `ircd_events.c`. -/
def timerAdd (t : Timer) (value now : ℕ) : Timer :=
  if t.marked then { t with value := value, expire := 0, readd := true, lastSet := now }
  else { t with value := value, expire := value, onqueue := true, lastSet := now }

/-- The timer is queued for another time. `ircd_events.c`. -/
def timerChg (t : Timer) (value now : ℕ) : Timer :=
  if t.marked then { t with value := value, expire := 0, readd := true, lastSet := now }
  else { t with value := value, expire := value, onqueue := true, lastSet := now }

/-- Make sure that a timeout event will happen by the given time. -/
def checkResolverTimeout (s : State) (when : ℕ) : State :=
  let when := min when (s.currentTime + 600)
  if s.timer.expire < when then s
  else if s.timer.onqueue ∧ !s.timer.marked then
    { s with timer := timerChg s.timer when s.currentTime }
  else { s with timer := timerAdd s.timer when s.currentTime }

/-! ## Requests -/

def State.set (s : State) (p : ℕ) (request : Reslist) : State :=
  { s with request := update s.request p request }

/-- The requests in the ring. `find_id`. -/
def State.pending (s : State) : Option (List ℕ) :=
  (walk s.links 0 (s.live.length + 1) (s.links.next 0)).filter fun l => l.all (· ∈ s.live)

def findId (s : State) (id : ℕ) : Option (Option ℕ) :=
  s.pending.map fun l => l.find? fun p => (s.request p).id = id

def restartResolver (s : State) : State :=
  { s with
    started := true
    links := ⟨update s.links.prev 0 0, update s.links.next 0 0⟩
    timer := { s.timer with onqueue := false, marked := false, readd := false } }

/-- Remove a request from the list and free it. -/
def remRequest (s : State) (p : ℕ) : State :=
  { s with links := s.links.remove p, live := s.live.filter (· ≠ p) }

/-- The callback of a request is called. `res_readreply`. -/
def State.call (s : State) (p : ℕ) : State :=
  { s with answered := s.answered ++ [(s.request p).callback] }

/-- Create a DNS request record for the server, at `p`. -/
def makeRequest (env : Env) (s : State) (callback ctx p : ℕ) : Option State :=
  if p = 0 ∨ p ∈ s.live then none
  else
    let s := if s.started then s else restartResolver s
    some { s with
      live := p :: s.live
      links := s.links.add p 0
      request := update s.request p
        { id := 0, sent := 0, state := .idle, type := 0, retries := env.resRetries, sends := 0
          resend := true, sentat := s.currentTime, timeout := env.resTimeout
          addr := List.replicate 8 0, name := none, callback := callback, callbackCtx := ctx } }

/-- Generate a query based on type and name. -/
def queryName (env : Env) (s : State) (name : Str) (type p : ℕ) (q : Query) : Option State :=
  if env.mkquery name type then
    match findId s (q.id % 2 ^ 16) with
    | some none =>
      let r := s.request p
      some (checkResolverTimeout
        (s.set p { r with id := q.id % 2 ^ 16, sends := r.sends + 1, sent := r.sent + q.sent })
        (r.sentat + r.timeout))
    | _ => none
  else some s

/-- Send a query to look up the address for the name of a request. `do_query_name`. -/
def sendName (env : Env) (s : State) (name : Str) (type p : ℕ) (q : Query) : Option State :=
  queryName env (s.set p { s.request p with type := type })
    (addLocalDomain env.ircDomain (name.take hostlen) hostlen) type p q

/-- Make a request to look up the address for a name. `do_query_name` (`request == NULL`). -/
def doQueryName (env : Env) (s : State) (callback ctx : ℕ) (name : Str) (type p : ℕ) (q : Query) :
    Option State := do
  let t ← makeRequest env s callback ctx p
  sendName env (t.set p { t.request p with
    name := some (addLocalDomain env.ircDomain (name.take hostlen) hostlen)
    state := if env.ipv6 ∧ type ≠ tA then .aaaa else .a }) name type p q

/-- Send a query to look up the name for the address of a request. `do_query_number`. -/
def sendNumber (env : Env) (s : State) (p : ℕ) (q : Query) : Option State :=
  queryName env s (addrName (s.request p).addr ((s.request p).state = .int)) tPTR p q

/-- Make a request to look up the name for an address; its name is memory that was not written. `do_query_number` (`request == NULL`). -/
def doQueryNumber (env : Env) (s : State) (callback ctx : ℕ) (addr : List ℕ) (junk : Str) (p : ℕ)
    (q : Query) : Option State := do
  let t ← makeRequest env s callback ctx p
  sendNumber env (t.set p { t.request p with
    state := .ptr, type := tPTR, addr := addr, name := some junk }) p q

/-- Send a failed DNS lookup request again. -/
def resendQuery (env : Env) (s : State) (p : ℕ) (q : Query) : Option State :=
  let r := s.request p
  if !r.resend then some s
  else if r.type = tPTR then sendNumber env s p q
  else if r.type = tA then sendName env s (r.name.getD []) r.type p q
  else if r.type = tAAAA ∧ r.state = .aaaa then sendName env s (r.name.getD []) tA p q
  else some s

/-! ## Replies -/

/-- `ircd_reslib.c` `irc_ns_get16`. -/
def get16 (buf : ℕ → ℕ) (i : ℕ) : ℕ := buf i * 256 + buf (i + 1)

/-- Behind the questions of a reply. `proc_answer`. -/
def skipQuestions (env : Env) (buf : ℕ → ℕ) (eob : ℕ) : ℕ → ℕ → ℕ
  | 0, current => current
  | n + 1, current =>
    let skip := env.dnSkipname buf eob current
    if skip < 0 then current else skipQuestions env buf eob n (current + skip.toNat + 4)

/-- Process each answer sent to us; whether there was one, and the request with what it says. `proc_answer`. -/
def procAnswers (env : Env) (buf : ℕ → ℕ) (eob : ℕ) : ℕ → ℕ → Reslist → Bool × Reslist
  | 0, _, request => (true, request)
  | n + 1, current, request =>
    if eob ≤ current then (true, request)
    else
      let name := env.dnExpand buf eob current
      let current := current + name.1.toNat
      if name.1 ≤ 0 then (false, request)
      else if eob ≤ current + 10 then (true, request)
      else
        let type := get16 buf current
        let rdLength := get16 buf (current + 8)
        let current := current + 10
        if type = tA then
          if request.type ≠ tA ∨ rdLength ≠ 4 then (false, request)
          else (true, { request with
            addr := [0, 0, 0, 0, 0, 0, get16 buf current, get16 buf (current + 2)] })
        else if type = tAAAA then
          if request.type ≠ tAAAA ∨ rdLength ≠ 16 then (false, request)
          else (true, { request with
            addr := (List.range 8).map fun i => get16 buf (current + 2 * i) })
        else if type = tPTR then
          let host := env.dnExpand buf eob current
          if request.type ≠ tPTR ∨ host.1 ≤ 0 then (false, request)
          else (true, { request with name := some (host.2.take hostlen) })
        else if type = tCNAME then
          if request.state = .cname then (decide (0 ≤ (env.dnExpand buf eob current).1), request)
          else procAnswers env buf eob n (current + rdLength) { request with state := .cname }
        else procAnswers env buf eob n (current + rdLength) request

/-- Process the answer for a lookup request. -/
def procAnswer (env : Env) (request : Reslist) (reply : Reply) : Bool × Reslist :=
  procAnswers env reply.buf reply.eob reply.ancount
    (skipQuestions env reply.buf reply.eob reply.qdcount 12) request

/-- A request has an answer: a name is looked up in its turn by a request at `new`, else the callback is called.
`res_readreply` (`answer_count`). -/
def answer (env : Env) (s : State) (p new : ℕ) (q : Query) : Option State :=
  let r := s.request p
  if r.type = tPTR then
    match r.name with
    | none => some (remRequest (s.call p) p)
    | some name => do
        let t ← doQueryName env s r.callback r.callbackCtx name
          (if env.ipv6 ∧ !inAddrIsIpv4 r.addr then tAAAA else tA) new q
        some (remRequest t p)
  else some (remRequest (s.call p) p)

/-- A request has no answer in a reply: it is tried in another way, where there is one. `res_readreply`
(`rcode`, `ancount`). -/
def noAnswer (env : Env) (s : State) (p : ℕ) (reply : Reply) (q : Query) : Option State :=
  let r := s.request p
  if reply.rcode = 2 ∨ reply.rcode = 3 then some (remRequest (s.call p) p)
  else if r.state = .aaaa ∧ r.type = tAAAA then
    resendQuery env (s.set p { r with timeout := r.timeout + env.resTimeout }) p q
  else if r.type = tPTR ∧ r.state ≠ .int ∧ !inAddrIsIpv4 r.addr then
    resendQuery env (s.set p { r with state := .int, timeout := r.timeout + env.resTimeout }) p q
  else some s

/-- Read a DNS reply from a name server of ours and process it. -/
def resReadreply (env : Env) (s : State) (reply : Reply) (new : ℕ) (q : Query) : Option State :=
  if reply.eob ≤ 12 then some s
  else
    match findId s reply.id with
    | none => none
    | some none => some s
    | some (some p) =>
      if reply.rcode ≠ 0 ∨ reply.ancount = 0 then noAnswer env s p reply q
      else
        let r := procAnswer env (s.request p) reply
        let t := s.set p r.2
        if r.1 then answer env t p new q
        else if r.2.sent = 0 then some (remRequest t p)
        else some t

/-! ## Timeouts and deletions -/

/-- One request after the other is retried or dropped, if it has timed out. `timeout_resolver`. -/
def timeoutLoop (env : Env) (q : ℕ → Query) : ℕ → State → ℕ → ℕ → Option (State × ℕ)
  | 0, _, _, _ => none
  | n + 1, s, ptr, nextTime =>
    if ptr = 0 then some (s, nextTime)
    else if ptr ∉ s.live then none
    else
      let nextPtr := s.links.next ptr
      let r := s.request ptr
      let timeout := r.sentat + r.timeout
      let soonest := if nextTime = 0 ∨ timeout < nextTime then timeout else nextTime
      if timeout ≤ s.currentTime then
        if r.retries - 1 ≤ 0 then timeoutLoop env q n (remRequest (s.call ptr) ptr) nextPtr nextTime
        else do
          let t ← resendQuery env (s.set ptr { r with
            retries := r.retries - 1, sentat := s.currentTime, timeout := r.timeout + r.timeout })
            ptr (q ptr)
          timeoutLoop env q n t nextPtr soonest
      else timeoutLoop env q n s nextPtr soonest

/-- Drop pending DNS lookups which have timed out. -/
def timeoutResolver (env : Env) (s : State) (q : ℕ → Query) : Option State := do
  let (t, nextTime) ← timeoutLoop env q (s.live.length + 1) s (s.links.next 0) 0
  some (checkResolverTimeout t (if nextTime ≤ t.currentTime then t.currentTime + 600 else nextTime))

/-- The requests of a context are removed. `delete_resolver_queries`. -/
def deleteLoop (vptr : ℕ) : ℕ → State → ℕ → Option State
  | 0, _, _ => none
  | n + 1, s, ptr =>
    if ptr = 0 then some s
    else if ptr ∉ s.live then none
    else
      let nextPtr := s.links.next ptr
      if (s.request ptr).callbackCtx = vptr then deleteLoop vptr n (remRequest s ptr) nextPtr
      else deleteLoop vptr n s nextPtr

/-- The lookups of a context that were not answered. -/
def State.open (s : State) (ctx : ℕ) : List ℕ :=
  (List.range s.lookups.length).filter fun k =>
    s.lookups[k]? = some ctx ∧ k ∉ s.answered ∧ k ∉ s.deleted

/-- Drop queries that are associated with a particular pointer. -/
def deleteResolverQueries (s : State) (vptr : ℕ) : Option State := do
  let t ← (if s.started then deleteLoop vptr (s.live.length + 1) s (s.links.next 0) else some s)
  some { t with deleted := s.deleted ++ s.open vptr }

/-! ## The system -/

def State.start (currentTime : ℕ) (links : Links ℕ) (request : ℕ → Reslist) : State where
  currentTime := currentTime
  started := false
  links := links
  live := []
  request := request
  timer := { value := 0, expire := 0, onqueue := false, marked := false, readd := false, lastSet := 0 }
  lookups := []
  answered := []
  deleted := []

/-- What happens. -/
inductive Event
  | tick (now : ℕ)
  | gethostByname (name : Str) (ctx p : ℕ) (q : Query)
  | gethostByaddr (addr : List ℕ) (junk : Str) (ctx p : ℕ) (q : Query)
  /-- A reply from a name server. `res_readreply`. -/
  | reply (reply : Reply) (new : ℕ) (q : Query)
  /-- `delete_resolver_queries`. -/
  | delete (vptr : ℕ)
  /-- The timers are run. `ircd_events.c` `timer_run`. -/
  | timerRun (q : ℕ → Query)
  /-- The timer function is called, whether or not the timer has expired. `timeout_resolver`. -/
  | expire (q : ℕ → Query)

/-- The timer is run, if it has expired; it is destroyed, unless it is to be added again. `ircd_events.c`. -/
def timerRun (env : Env) (s : State) (q : ℕ → Query) : Option State :=
  if s.timer.onqueue ∧ s.timer.expire ≤ s.currentTime then do
    let t ← timeoutResolver env { s with timer := { s.timer with onqueue := false, marked := true } } q
    some { t with timer := { t.timer with
      expire := if t.timer.readd then t.timer.value else t.timer.expire
      onqueue := t.timer.readd, marked := false, readd := false } }
  else some s

def State.step (env : Env) (s : State) : Event → Option State
  | .tick now => some { s with currentTime := now }
  | .gethostByname name ctx p q =>
    doQueryName env { s with lookups := s.lookups ++ [ctx] } s.lookups.length ctx name tAAAA p q
  | .gethostByaddr addr junk ctx p q =>
    doQueryNumber env { s with lookups := s.lookups ++ [ctx] } s.lookups.length ctx addr junk p q
  | .reply reply new q => resReadreply env s reply new q
  | .delete vptr => deleteResolverQueries s vptr
  | .timerRun q => Resolver.timerRun env s q
  | .expire q => timeoutResolver env s q

/-- What the callers keep to: time does not go back, and there are no replies and timeouts before the resolver
has started. `restart_resolver`. -/
def State.allowed (s : State) : Event → Bool
  | .tick now => s.currentTime ≤ now
  | .reply .. => s.started
  | .expire _ => s.started
  | _ => true

end Nefarious.Resolver
