import Nefarious.Iauthd.Wire
import Nefarious.User.Modes

/-!
# The handlers of the lines of an authentication daemon

A line is split into at most fifteen parameters, with a NULL behind the last one. `iauthParse` finds the client
that the first three parameters name and gives the others to the handler of the line's letter. What the queries
of the handlers find (servers, classes) is not modelled, and neither is what the daemon is told about a client
in an `E` line.

Names: `s_auth.c`.
-/

namespace Nefarious.Handlers

/-! ### Parameters -/

/-- What is wrong with an access. -/
inductive Fault where
  | past
  /-- A text is taken from the NULL. -/
  | null
  /-- An index outside of the array. -/
  | outOfBounds
deriving DecidableEq

/-- `params[i]`. `iauth_parse` (`params`). -/
def arg (ps : List Str) (i : ℕ) : Except Fault (Option Str) :=
  if i ≤ ps.length then .ok ps[i]? else .error .past

/-- The text of `params[i]`. C library. -/
def text (ps : List Str) (i : ℕ) : Except Fault Str := do
  match ← arg ps i with
  | some s => return s
  | none => throw .null

/-- The text of `params[i]`, when `parc` says that it is there. -/
def textIf (b : Bool) (ps : List Str) (i : ℕ) : Except Fault (Option Str) :=
  if b then some <$> text ps i else .ok none

/-- `params[i]`, unless it is an empty string. `ircd_string.h` `EmptyString`. -/
def given (ps : List Str) (i : ℕ) : Except Fault (Option Str) := do
  return (← arg ps i).filter fun s => s ≠ []

/-- The source of a username. -/
inductive Username where
  | forced
  | good
  | bad
deriving DecidableEq

/-- A mark with one text. `mark.h`. -/
inductive MarkType where
  | webirc
  | cversion
  | sslclifp
  | kill
  | mark
deriving DecidableEq

/-- What a handler does: `iauth_cmd_snotice` and so on. -/
inductive Deed where
  | nothing
  | complaint (msg : Str)
  /-- `iauth_cmd_snotice`; the text of a NULL is `(null)`. -/
  | snotice (msg : Option Str)
  | debuglevel (level : ℤ)
  /-- `iauth_cmd_policy`: the options, and what operators are shown. -/
  | policy (options : Str) (notice : Option (Option Str))
  | version (version : Str)
  | newconfig
  | config (line : Str)
  | newstats
  | stats (line : Str)
  | xquery (serv routing query : Str)
  /-- `iauth_cmd_username_forced` and the two others. -/
  | username (source : Username) (name : Option Str)
  | hostname (host : Str)
  | ipAddress (addr : List ℕ)
  | mark (type : MarkType) (data : Str)
  /-- `geoip_apply_mark`. -/
  | geoip (country continent : Str) (countryname : Option Str)
  /-- `set_user_mode`: the letters, each with its direction and its text. -/
  | usermode (changes : List (Bool × User.Umode × Option Str))
  | challenge (msg : Str)
  | softDone
  /-- `iauth_cmd_done_client`. -/
  | done (className : Option Str)
  | account (name : Str) (created : Option ℕ) (className : Option Str)
  | kill (reason : Str)
  | saslChallenge (data : Str)
  | saslLoggedin (account : Str) (created : Option ℕ)
  | saslFail (msg : Str)
  | saslMechs (mechs : Str)
  | saslDone
deriving DecidableEq

/-! ### Handlers without a client -/

def iauthCmdSnotice (ps : List Str) : Except Fault Deed := do
  return .snotice (← arg ps 0)

def iauthCmdDebuglevel (ps : List Str) : Except Fault Deed := do
  match ← textIf (0 < ps.length) ps 0 with
  | some level => return .debuglevel (atoi level)
  | none => return .debuglevel 0

/-- The letters of options. `iauth_cmd_policy`. -/
def policyLetters : Str := "ARTWUwFreS".toList

/-- Set policy options; `debug` is whether operators are told. -/
def iauthCmdPolicy (debug : Bool) (ps : List Str) : Except Fault Deed := do
  let options := ((← textIf (0 < ps.length) ps 0).getD []).filter fun c => c ∈ policyLetters
  if debug then return .policy options (some (← arg ps 0)) else return .policy options none

def iauthCmdVersion (ps : List Str) : Except Fault Deed := do
  return .version ((← textIf (0 < ps.length) ps 0).getD "<NONE>".toList)

/-- Words with blanks between them, and a colon before the last one. `paste_params`. -/
def pasteText : List Str → Str
  | [] => []
  | [w] => ':' :: w
  | w :: ws => w ++ ' ' :: pasteText ws

def pasteParams (ps : List Str) : Except Fault Str := do
  return pasteText (← (List.range ps.length).mapM (text ps))

/-- Append a line to the configuration. -/
def iauthCmdConfig (ps : List Str) : Except Fault Deed := do return .config (← pasteParams ps)

def iauthCmdStats (ps : List Str) : Except Fault Deed := do return .stats (← pasteParams ps)

def iauthCmdXquery (ps : List Str) : Except Fault Deed := do
  match ← given ps 0 with
  | none => return .complaint "E Missing :Missing server parameter".toList
  | some serv =>
    match ← given ps 1 with
    | none => return .complaint "E Missing :Missing routing parameter".toList
    | some routing =>
      match ← given ps 2 with
      | none => return .complaint "E Missing :Missing query parameter".toList
      | some query => return .xquery serv routing query

/-! ### Handlers with a client -/

section
variable (ps : List Str) (off : ℕ)

/-- Set the username; `off` is the place of the first parameter of a handler. `iauth_cmd_username_forced`, `iauth_cmd_username_good`, `iauth_cmd_username_bad`. -/
def iauthCmdUsername (source : Username) : Except Fault Deed := do
  return .username source ((← given ps off).map (List.take User.userLen))

def iauthCmdHostname : Except Fault Deed := do
  match ← given ps off with
  | none => return .complaint "E Missing :Missing hostname parameter".toList
  | some host => return .hostname (host.take User.hostLen)

def iauthCmdIpAddress : Except Fault Deed := do
  match ← given ps off with
  | none => return .complaint "E Missing :Missing IP address parameter".toList
  | some ip =>
    match ipmaskParse ip with
    | none => return .complaint ("E Invalid :Unable to parse IP address [".toList ++ ip ++ [']'])
    | some addr => return .ipAddress addr

/-- The kind of a mark with one text, and how much of the text is kept. `iauth_cmd_mark`, `mark.h`. -/
def markType (type : Str) : Option (MarkType × (Str → Str)) :=
  if strEq type "WEBIRC".toList then some (.webirc, List.take 512)
  else if strEq type "CVERSION".toList then some (.cversion, List.take 250)
  else if strEq type "SSLCLIFP".toList then some (.sslclifp, List.take 512)
  else if strEq type "KILL".toList then some (.kill, List.take 512)
  else if strEq type "MARK".toList ∨ strEq type "DNSBL_DATA".toList then some (.mark, id)
  else none

/-- The mark about the place of a client. `iauth_cmd_mark`. -/
def iauthCmdGeoip : Except Fault Deed := do
  if ps.length < off + 3 then return .complaint "E Missing :Missing mark geoip parameter".toList
  else
    match ← given ps (off + 1), ← given ps (off + 2) with
    | some country, some continent =>
      return .geoip country continent (← textIf (off + 3 < ps.length) ps (off + 3))
    | _, _ => return .complaint "E Missing :Missing mark geoip parameter".toList

def iauthCmdMark : Except Fault Deed := do
  if ps.length < off + 2 then return .complaint "E Missing :Missing mark parameter".toList
  else
    match ← given ps off with
    | none => return .complaint "E Missing :Missing mark parameter".toList
    | some type =>
      if strEq type "GEOIP".toList then iauthCmdGeoip ps off
      else
        match markType type with
        | some (type, kept) => return .mark type (kept (← text ps (off + 1)))
        | none => return .complaint "E Invalid :Invalid mark type".toList

/-- The letters of the word `p`, each with the direction and the text that it takes. What is returned is the
word that was taken last, and the direction. `s_user.c` `set_user_mode` (the inner loop). -/
def modeLetters : Str → ℕ → Bool → Except Fault (ℕ × Bool × List (Bool × User.Umode × Option Str))
  | [], p, what => .ok (p, what, [])
  | m :: ms, p, what => do
      let u := User.umodeOf m
      let word := User.umodeArg what u (← arg ps (p + 1))
      let what' := if u = .plus then true else if u = .minus then false else what
      let (p', what'', changes) ← modeLetters ms (if word.isSome then p + 1 else p) what'
      return (p', what'', (what, u, word) :: changes)

/-- The words from `p` to the NULL; the first argument bounds their number. `s_user.c` `set_user_mode` (the
outer loop). -/
def modeWords : ℕ → ℕ → Bool → Except Fault (List (Bool × User.Umode × Option Str))
  | 0, _, _ => .error .past
  | n + 1, p, what => do
      match ← arg ps p with
      | none => return []
      | some w =>
        let (p', what', changes) ← modeLetters ps w p what
        return changes ++ (← modeWords n (p' + 1) what')

/-- Change the user modes. The user is the one whose name is the parameter before the modes, which is the port;
`self` is whether that user is the client. `iauth_cmd_usermode`, `s_user.c` `set_user_mode`. -/
def iauthCmdUsermode (self : Str → Bool) : Except Fault Deed := do
  if (← text ps off).head? = some '+' then
    if self (← text ps (off - 1)) then return .usermode (← modeWords ps (ps.length + 1) off true)
    else return .nothing
  else return .nothing

def iauthCmdChallenge : Except Fault Deed := do
  match ← given ps off with
  | none => return .nothing
  | some msg => return .challenge msg

def iauthCmdDoneClient : Except Fault Deed := do return .done (← given ps off)

/-- The account and its time, unless the name is too long. `iauth_cmd_done_account`, `iauth_cmd_sasl_loggedin`.
-/
def accountOf (p : Str) : Option (Str × Option ℕ) :=
  let name := p.takeWhile fun c => c ≠ ':' ∧ c ≠ ' '
  let rest := p.dropWhile fun c => c ≠ ':' ∧ c ≠ ' '
  if Wire.accountLen < name.length then none
  else some (name, if rest.head? = some ':' then some (strtoul rest.tail) else none)

/-- Accept the client with an account; a class may stand behind it. A name that is followed by a time is cut off
before it. -/
def iauthCmdDoneAccount : Except Fault Deed := do
  match ← given ps off with
  | none => return .complaint "E Missing :Missing account parameter".toList
  | some p =>
    match accountOf p with
    | none => return .complaint "E Invalid :Account parameter too long".toList
    | some (name, created) =>
      let kept := if created.isSome then name else p
      return .account (kept.take Wire.accountLen) created (← given ps (off + 1))

def iauthCmdKill : Except Fault Deed := do
  return .kill ((← given ps off).getD "Access denied".toList)

def iauthCmdSaslChallenge : Except Fault Deed := do
  match ← given ps off with
  | none => return .nothing
  | some data => return .saslChallenge data

/-- Log the client in; here the text is kept as it is. -/
def iauthCmdSaslLoggedin : Except Fault Deed := do
  match ← given ps off with
  | none => return .complaint "E Missing :Missing account parameter".toList
  | some p =>
    match accountOf p with
    | none => return .complaint "E Invalid :Account parameter too long".toList
    | some (_, created) => return .saslLoggedin (p.take Wire.accountLen) created

def iauthCmdSaslFail : Except Fault Deed := do return .saslFail ((← given ps off).getD [])

def iauthCmdSaslMechs : Except Fault Deed := do
  match ← given ps off with
  | none => return .nothing
  | some mechs => return .saslMechs mechs

end

/-- A local client. `client.h` `struct Client`, `struct AuthRequest`. -/
structure Local where
  ip : List ℕ
  connectip : List ℕ
  /-- `FLAG_IPSPOOFED`: the address was changed, and `cli_connectip` is the original one. -/
  spoofed : Bool
  /-- `cli_auth`, with `AR_IAUTH_PENDING`. -/
  auth : Option Bool
  /-- `cli_port`, which `auth->port` is a copy of. -/
  port : ℕ
  port_lt : port < 65536
  /-- An original address is only stored when the address is changed. -/
  connectip_eq : spoofed = false → connectip = List.replicate 8 0

/-- The clients by their descriptors. `s_bsd.c` `LocalClientArray`, `HighestFd`. -/
structure Locals where
  array : List (Option Local)
  /-- `HighestFd`. -/
  highest : ℤ
  highest_lt : highest < array.length

/-- `LocalClientArray[id]`. `iauth_parse`. -/
def Locals.get (L : Locals) (id : ℤ) : Except Fault (Option Local) :=
  if 0 ≤ id ∧ id < L.array.length then .ok (L.array.getD id.toNat none) else .error .outOfBounds

/-- The client with a descriptor, if there is one. -/
def Locals.client (L : Locals) (id : ℤ) : Option Local :=
  if 0 ≤ id ∧ id ≤ L.highest then L.array.getD id.toNat none else none

/-- Whether address and port are those of a client; without a request the port is not compared. `iauth_parse`. -/
def Local.matches (x : Local) (ip port : Str) : Bool :=
  match ipmaskParse ip with
  | none => false
  | some addr =>
    !((inAddrCmp addr x.ip && inAddrCmp addr x.connectip) || (x.auth.isSome && Wire.portOf port ≠ x.port))

/-! ### Lines -/

/-- What becomes of a line. `iauth_parse`. -/
inductive Outcome where
  /-- `r`. -/
  | nothing
  | garbage
  | server (d : Deed)
  | missing
  | gone
  | done
  | mismatch
  /-- A handler with the client of this descriptor. -/
  | client (id : ℤ) (d : Deed)
deriving DecidableEq

/-- What a line is read with: what the operators are shown, and whether a name is that of the client with a
descriptor. `i_debug`, `s_user.c` `set_user_mode` (`FindUser`). -/
structure World where
  /-- `i_debug(iauth) > 0`. -/
  debug : Bool
  /-- `FindUser`. -/
  self : ℤ → Str → Bool

variable (W : World) (L : Locals)

/-- The handlers without a client. `iauth_parse`. -/
def serverHandler (ps : List Str) : Char → Except Fault Deed
  | '>' => iauthCmdSnotice ps
  | 'G' => iauthCmdDebuglevel ps
  | 'O' => iauthCmdPolicy W.debug ps
  | 'V' => iauthCmdVersion ps
  | 'a' => .ok .newconfig
  | 'A' => iauthCmdConfig ps
  | 's' => .ok .newstats
  | 'S' => iauthCmdStats ps
  | 'X' => iauthCmdXquery ps
  | _ => .ok .nothing

/-- The handlers with a client. `iauth_parse`. -/
def clientHandler (id : ℤ) (ps : List Str) (off : ℕ) : Char → Except Fault Deed
  | 'o' => iauthCmdUsername ps off .forced
  | 'U' => iauthCmdUsername ps off .good
  | 'u' => iauthCmdUsername ps off .bad
  | 'N' => iauthCmdHostname ps off
  | 'I' => iauthCmdIpAddress ps off
  | 'm' => iauthCmdMark ps off
  | 'M' => iauthCmdUsermode ps off (W.self id)
  | 'C' => iauthCmdChallenge ps off
  | 'd' => .ok .softDone
  | 'D' => iauthCmdDoneClient ps off
  | 'R' => iauthCmdDoneAccount ps off
  | 'k' => iauthCmdKill ps off
  | 'K' => iauthCmdKill ps off
  | 'c' => iauthCmdSaslChallenge ps off
  | 'L' => iauthCmdSaslLoggedin ps off
  | 'f' => iauthCmdSaslFail ps off
  | 'l' => iauthCmdSaslMechs ps off
  | 'Z' => .ok .saslDone
  | _ => .ok .nothing

/-- A line about a client. The descriptor is read before the parameters are counted. `iauth_parse`. -/
def parseClient (c : Char) (need : Wire.HasCli) (ps : List Str) : Except Fault Outcome := do
  let id := atoi (← text ps 0)
  if ps.length < 3 then return .missing
  else if id < 0 ∨ L.highest < id then return .gone
  else
    match ← L.get id with
    | none => return .gone
    | some x =>
      if x.auth ≠ some true ∧ need = .waiting then return .done
      else if x.matches (← text ps 1) (← text ps 2) then
        return .client id (← clientHandler W id ps 3 c)
      else return .mismatch

def iauthParse : Str → Except Fault Outcome
  | [] => .ok .garbage
  | c :: message =>
    if c = 'r' then .ok .nothing
    else
      match Wire.hasCli c with
      | none => .ok .garbage
      | some .no => do return .server (← serverHandler W (Wire.iauthParams maxPara message) c)
      | some need => parseClient W L c need (Wire.iauthParams maxPara message)

/-! ### Safety -/

/-- A number, as a long. C library `strtol`. -/
def strtol (s : Str) : ℤ :=
  match signedDigits s with
  | (neg, n) => if neg then max (-n) (-2 ^ 63) else min n (2 ^ 63 - 1)

/-- The parameters of a line. `iauth_parse`. -/
def params (line : Str) : List Str := Wire.iauthParams maxPara line.tail

/-- The parameters name a client by its descriptor, its address or the original one, and its port.
`doc/readme.iauth`. -/
structure Local.Named (x : Local) (id : ℤ) (ps : List Str) : Prop where
  fd : ∃ s ∈ ps[0]?, strtol s = id
  addr : ∃ s ∈ ps[1]?, ∃ addr ∈ ipmaskParse s,
    inAddrCmp addr x.ip = false ∨ (x.spoofed = true ∧ inAddrCmp addr x.connectip = false)
  port : ∃ s ∈ ps[2]?, strtol s = x.port

/-- A line is read without a fault, and acts on no client but the one that it names. -/
def Safe (line : Str) : Prop :=
  ∃ o, iauthParse W L line = .ok o ∧
    ∀ id d, o = .client id d → ∃ x, L.client id = some x ∧ x.Named id (params line)

/-- The client whose handler runs. `iauth_parse`. -/
def reached (need : Wire.HasCli) : List Str → Option Local
  | p :: ip :: port :: _ =>
    (L.client (atoi p)).filter fun x => (need = .waiting → x.auth = some true) ∧ x.matches ip port
  | _ => none

/-- What the parameters of a line have to be for a client that they reach: a change of modes has one more;
descriptor and port are those of the client when they are read as longs, the port of a client without a
request as well; and the address is not the zero one that is stored as long as there is no original
address. -/
structure Local.Exact (x : Local) (c : Char) (ps : List Str) : Prop where
  mode : c = 'M' → 3 < ps.length
  fd : ∀ s ∈ ps[0]?, strtol s = atoi s
  addr : x.spoofed = true ∨
    ∀ s ∈ ps[1]?, ipmaskParse s = some (List.replicate 8 0) → inAddrCmp (List.replicate 8 0) x.ip = false
  port : ∀ s ∈ ps[2]?, strtol s = x.port

/-- A line that is about a client has a parameter, and is exact about the client that it reaches. Source:
none. -/
def Sound (line : Str) : Prop :=
  ∀ c ∈ line.head?, ∀ need ∈ Wire.hasCli c, need ≠ .no →
    params line ≠ [] ∧ ∀ x ∈ reached L need (params line), x.Exact c (params line)

/-! ### Access -/

lemma arg_eq {ps : List Str} {i : ℕ} (h : i ≤ ps.length) : arg ps i = .ok ps[i]? := if_pos h

lemma text_eq {ps : List Str} {i : ℕ} (h : i < ps.length) : text ps i = .ok ps[i] := by
  rw [text, arg_eq h.le, List.getElem?_eq_getElem h]
  rfl

lemma text_length (ps : List Str) : text ps ps.length = .error .null := by
  rw [text, arg_eq le_rfl, List.getElem?_eq_none le_rfl]
  rfl

lemma given_eq {ps : List Str} {i : ℕ} (h : i ≤ ps.length) :
    given ps i = .ok (ps[i]?.filter fun s => s ≠ []) := by
  rw [given, arg_eq h]
  rfl

lemma lt_of_given {ps : List Str} {i : ℕ} {s : Str} (h : given ps i = .ok (some s)) : i < ps.length := by
  by_contra hlt
  by_cases hle : i ≤ ps.length
  · rw [given_eq hle, List.getElem?_eq_none (not_lt.mp hlt)] at h
    cases h
  · rw [given, arg, if_neg hle] at h
    cases h

/-! ### Computations without a fault -/

def Returns {α : Type} (m : Except Fault α) : Prop := ∃ a, m = .ok a

lemma Returns.pure {α : Type} (a : α) : Returns (Pure.pure a) := ⟨a, rfl⟩

lemma Returns.bind {α β : Type} {m : Except Fault α} {f : α → Except Fault β} (hm : Returns m)
    (hf : ∀ a, m = .ok a → Returns (f a)) : Returns (m >>= f) := by
  obtain ⟨a, rfl⟩ := hm
  exact hf a rfl

lemma Returns.mapM {α β : Type} {f : α → Except Fault β} : {l : List α} → (∀ a ∈ l, Returns (f a)) →
    Returns (l.mapM f)
  | [], _ => ⟨[], rfl⟩
  | a :: l, h => by
    rw [List.mapM_cons]
    apply (h a List.mem_cons_self).bind
    intro b _
    apply (Returns.mapM fun x hx => h x (List.mem_cons_of_mem a hx)).bind
    intro bs _
    exact .pure (b :: bs)

lemma Returns.arg {ps : List Str} {i : ℕ} (h : i ≤ ps.length) : Returns (arg ps i) := ⟨_, arg_eq h⟩

lemma Returns.text {ps : List Str} {i : ℕ} (h : i < ps.length) : Returns (text ps i) := ⟨_, text_eq h⟩

lemma Returns.given {ps : List Str} {i : ℕ} (h : i ≤ ps.length) : Returns (given ps i) := ⟨_, given_eq h⟩

lemma Returns.textIf {b : Bool} {ps : List Str} {i : ℕ} (h : b = true → i < ps.length) :
    Returns (textIf b ps i) := by
  unfold Handlers.textIf
  split_ifs with hb
  · exact (Returns.text (h hb)).bind fun s _ => .pure _
  · exact .pure _

/-! ### Handlers -/

lemma pasteParams_returns (ps : List Str) : Returns (pasteParams ps) := by
  unfold pasteParams
  apply Returns.bind
  · apply Returns.mapM
    intro i hi
    exact .text (List.mem_range.mp hi)
  · intro ws _
    exact .pure _

lemma iauthCmdXquery_returns (ps : List Str) : Returns (iauthCmdXquery ps) := by
  unfold iauthCmdXquery
  apply (Returns.given (Nat.zero_le _)).bind
  rintro (_ | serv) hserv
  · exact .pure _
  apply (Returns.given (lt_of_given hserv)).bind
  rintro (_ | routing) hrouting
  · exact .pure _
  apply (Returns.given (lt_of_given hrouting)).bind
  rintro (_ | query) -
  · exact .pure _
  · exact .pure _

lemma serverHandler_returns (ps : List Str) (c : Char) : Returns (serverHandler W ps c) := by
  have hfirst : Returns (textIf (0 < ps.length) ps 0) := .textIf of_decide_eq_true
  unfold serverHandler
  split
  · exact (Returns.arg (Nat.zero_le _)).bind fun msg _ => .pure _
  · apply hfirst.bind
    rintro (_ | level) -
    · exact .pure _
    · exact .pure _
  · apply hfirst.bind
    intro options _
    dsimp only
    split_ifs
    · exact (Returns.arg (Nat.zero_le _)).bind fun notice _ => .pure _
    · exact .pure _
  · exact hfirst.bind fun version _ => .pure _
  · exact .pure _
  · exact (pasteParams_returns ps).bind fun line _ => .pure _
  · exact .pure _
  · exact (pasteParams_returns ps).bind fun line _ => .pure _
  · exact iauthCmdXquery_returns ps
  · exact .pure _

section
variable {ps : List Str} {off : ℕ}

lemma iauthCmdMark_returns (ps : List Str) (off : ℕ) : Returns (iauthCmdMark ps off) := by
  unfold iauthCmdMark
  split_ifs with h
  · exact .pure _
  rw [not_lt] at h
  apply (Returns.given (by omega)).bind
  rintro (_ | type) -
  · exact .pure _
  dsimp only
  split_ifs
  · unfold iauthCmdGeoip
    split_ifs with h3
    · exact .pure _
    rw [not_lt] at h3
    apply (Returns.given (by omega)).bind
    intro country _
    apply (Returns.given (by omega)).bind
    intro continent _
    split
    · exact (Returns.textIf of_decide_eq_true).bind fun name _ => .pure _
    · exact .pure _
  · split
    · apply (Returns.text (by omega)).bind
      intro data _
      exact .pure _
    · exact .pure _

lemma umodeArg_none (what : Bool) (u : User.Umode) : User.umodeArg what u none = none := by
  unfold User.umodeArg
  split
  all_goals first | rfl | exact ite_self none

lemma modeLetters_ok : (s : Str) → ∀ {p : ℕ} {w : Bool}, p < ps.length →
    ∃ p' what' changes, modeLetters ps s p w = .ok (p', what', changes) ∧ p ≤ p' ∧ p' < ps.length
  | [], p, what, h => ⟨p, what, [], rfl, le_rfl, h⟩
  | m :: ms, p, what, h => by
    obtain ⟨word, hword⟩ : ∃ word, User.umodeArg what (User.umodeOf m) ps[p + 1]? = word := ⟨_, rfl⟩
    obtain ⟨q, hq, hle, hlt⟩ : ∃ q, (if word.isSome then p + 1 else p) = q ∧ p ≤ q ∧ q < ps.length := by
      cases word with
      | none => exact ⟨p, rfl, le_rfl, h⟩
      | some w =>
        refine ⟨p + 1, rfl, Nat.le_succ p, ?_⟩
        by_contra hnext
        rw [List.getElem?_eq_none (not_lt.mp hnext), umodeArg_none] at hword
        cases hword
    unfold modeLetters
    rw [arg_eq h]
    have hrest := fun what' => modeLetters_ok ms (p := q) (w := what') hlt
    obtain ⟨p', what', changes, hms, hqp, hp⟩ :=
      hrest (if User.umodeOf m = .plus then true else if User.umodeOf m = .minus then false else what)
    refine ⟨p', what', (what, User.umodeOf m, word) :: changes, ?_, hle.trans hqp, hp⟩
    simp only [bind, Except.bind, hword, hq, hms]
    rfl

lemma modeWords_returns : (n : ℕ) → ∀ {p : ℕ} {w : Bool}, p ≤ ps.length → ps.length < n + p →
    Returns (modeWords ps n p w)
  | 0, p, what, h, hn => absurd hn (by omega)
  | n + 1, p, what, h, hn => by
    unfold modeWords
    apply (Returns.arg h).bind
    rintro (_ | w) hw
    · exact .pure _
    have hlt : p < ps.length := by
      by_contra hge
      rw [arg_eq h, List.getElem?_eq_none (not_lt.mp hge)] at hw
      cases hw
    obtain ⟨p', what', changes, hletters, hle, hlt'⟩ := modeLetters_ok w (w := what) hlt
    dsimp only
    rw [hletters]
    apply (modeWords_returns n (p := p' + 1) (w := what') hlt' (by omega)).bind
    intro more _
    exact .pure _

lemma iauthCmdUsermode_returns (self : Str → Bool) (h : off < ps.length) :
    Returns (iauthCmdUsermode ps off self) := by
  unfold iauthCmdUsermode
  apply (Returns.text h).bind
  intro modes _
  split_ifs
  · apply (Returns.text (by omega)).bind
    intro port _
    split_ifs
    · exact (modeWords_returns _ h.le (by omega)).bind fun changes _ => .pure _
    · exact .pure _
  · exact .pure _

lemma handler_usermode (id : ℤ) (h : ps.length = off) : clientHandler W id ps off 'M' = .error .null := by
  subst h
  change iauthCmdUsermode ps ps.length (W.self id) = _
  rw [iauthCmdUsermode, text_length]
  rfl

lemma handler_ok (id : ℤ) (h : off ≤ ps.length) {c : Char} (hmode : c = 'M' → off < ps.length) :
    Returns (clientHandler W id ps off c) := by
  have hmaybe : ∀ {f : Option Str → Deed}, Returns (given ps off >>= fun a => pure (f a)) :=
    (Returns.given h).bind fun a _ => .pure _
  unfold clientHandler
  split
  case h_1 => exact hmaybe
  case h_2 => exact hmaybe
  case h_3 => exact hmaybe
  case h_4 =>
    apply (Returns.given h).bind
    rintro (_ | host) -
    · exact .pure _
    · exact .pure _
  case h_5 =>
    apply (Returns.given h).bind
    rintro (_ | ip) -
    · exact .pure _
    · dsimp only
      split
      · exact .pure _
      · exact .pure _
  case h_6 => exact iauthCmdMark_returns ps off
  case h_7 => exact iauthCmdUsermode_returns (W.self id) (hmode rfl)
  case h_8 =>
    apply (Returns.given h).bind
    rintro (_ | msg) -
    · exact .pure _
    · exact .pure _
  case h_9 => exact .pure _
  case h_10 => exact hmaybe
  case h_11 =>
    apply (Returns.given h).bind
    rintro (_ | p) hp
    · exact .pure _
    · dsimp only
      split
      · exact .pure _
      · exact (Returns.given (lt_of_given hp)).bind fun cls _ => .pure _
  case h_12 => exact hmaybe
  case h_13 => exact hmaybe
  case h_14 =>
    apply (Returns.given h).bind
    rintro (_ | data) -
    · exact .pure _
    · exact .pure _
  case h_15 =>
    apply (Returns.given h).bind
    rintro (_ | p) -
    · exact .pure _
    · dsimp only
      split
      · exact .pure _
      · exact .pure _
  case h_16 => exact hmaybe
  case h_17 =>
    apply (Returns.given h).bind
    rintro (_ | mechs) -
    · exact .pure _
    · exact .pure _
  case h_18 => exact .pure _
  case h_19 => exact .pure _

end

/-! ### Lines about clients -/

lemma get_eq {L : Locals} {id : ℤ} (h : 0 ≤ id ∧ id ≤ L.highest) : L.get id = .ok (L.client id) := by
  have hlt := h.2.trans_lt L.highest_lt
  rw [Locals.get, if_pos ⟨h.1, hlt⟩, Locals.client, if_pos h]

variable {L : Locals} {need : Wire.HasCli} {c : Char}

lemma parseClient_nil (c : Char) (need : Wire.HasCli) : parseClient W L c need [] = .error .null := rfl

lemma parseClient_reached {p ip port : Str} {rest : List Str} {x : Local}
    (h : reached L need (p :: ip :: port :: rest) = some x) :
    L.client (atoi p) = some x ∧ x.matches ip port = true ∧ parseClient W L c need (p :: ip :: port :: rest) =
        clientHandler W (atoi p) (p :: ip :: port :: rest) 3 c >>= fun d => .ok (.client (atoi p) d) := by
  obtain ⟨hx, hcond⟩ := Option.filter_eq_some_iff.mp h
  obtain ⟨hwait, hmatch⟩ := of_decide_eq_true hcond
  have hrange : 0 ≤ atoi p ∧ atoi p ≤ L.highest := by
    by_contra hout
    rw [Locals.client, if_neg hout] at hx
    cases hx
  refine ⟨hx, hmatch, ?_⟩
  have hdone : ¬ (x.auth ≠ some true ∧ need = .waiting) := fun hd => hd.1 (hwait hd.2)
  have hgone : ¬ (atoi p < 0 ∨ L.highest < atoi p) := by omega
  have hlen : ¬ (p :: ip :: port :: rest).length < 3 := by simp
  unfold parseClient
  rw [text_eq (i := 0) (by simp), text_eq (i := 1) (by simp), text_eq (i := 2) (by simp)]
  simp only [bind, Except.bind, List.getElem_cons_zero, List.getElem_cons_succ, if_neg hlen, if_neg hgone,
    get_eq hrange, hx, if_neg hdone, hmatch, if_true]
  rfl

lemma parseClient_unreached {ps : List Str} (hne : ps ≠ []) (h : reached L need ps = none) :
    ∃ o, parseClient W L c need ps = .ok o ∧ ∀ id d, o ≠ .client id d := by
  have hpos := List.length_pos_iff.mpr hne
  unfold parseClient
  rw [text_eq hpos]
  simp only [bind, Except.bind]
  by_cases hlen : ps.length < 3
  · exact ⟨.missing, if_pos hlen, nofun⟩
  rw [if_neg hlen]
  obtain ⟨p, ip, port, rest, rfl⟩ : ∃ p ip port rest, ps = p :: ip :: port :: rest := by
    match ps, hlen with
    | p :: ip :: port :: rest, _ => exact ⟨p, ip, port, rest, rfl⟩
    | [], hlen => exact absurd (by simp) hlen
    | [_], hlen => exact absurd (by simp) hlen
    | [_, _], hlen => exact absurd (by simp) hlen
  rw [List.getElem_cons_zero]
  by_cases hgone : atoi p < 0 ∨ L.highest < atoi p
  · exact ⟨.gone, if_pos hgone, nofun⟩
  rw [if_neg hgone, get_eq (by omega)]
  dsimp only
  cases hx : L.client (atoi p) with
  | none => exact ⟨.gone, rfl, nofun⟩
  | some x =>
    have hcond := h
    rw [reached, hx, Option.filter_some, ite_eq_right_iff] at hcond
    dsimp only
    by_cases hdone : x.auth ≠ some true ∧ need = .waiting
    · exact ⟨.done, if_pos hdone, nofun⟩
    rw [if_neg hdone, text_eq (i := 1) (by simp), text_eq (i := 2) (by simp)]
    have hmatch : x.matches ip port = false := by
      by_contra hm
      rw [Bool.not_eq_false] at hm
      have hwait : need = .waiting → x.auth = some true := by
        intro hw
        by_contra ha
        exact hdone ⟨ha, hw⟩
      cases hcond (decide_eq_true ⟨hwait, hm⟩)
    refine ⟨.mismatch, ?_, nofun⟩
    simp only [List.getElem_cons_zero, List.getElem_cons_succ, hmatch]
    rfl

lemma inAddrCmp_zero {addr : List ℕ} : inAddrCmp addr (List.replicate 8 0) = false ↔
    addr = List.replicate 8 0 := by
  constructor
  · intro h
    unfold inAddrCmp at h
    split_ifs at h with hip
    · exact absurd (Or.inr (Or.inr (by decide))) (of_decide_eq_false h)
    · exact not_not.mp (of_decide_eq_false h)
  · rintro rfl
    decide

lemma named_iff {x : Local} {p ip port : Str} {rest : List Str} (h : x.matches ip port = true) :
    x.Named (atoi p) (p :: ip :: port :: rest) ∧ (c = 'M' → 3 < (p :: ip :: port :: rest).length) ↔
      x.Exact c (p :: ip :: port :: rest) := by
  obtain ⟨addr, haddr, hcmp⟩ : ∃ addr, ipmaskParse ip = some addr ∧
      (inAddrCmp addr x.ip = false ∨ inAddrCmp addr x.connectip = false) := by
    unfold Local.matches at h
    split at h
    · cases h
    · next addr haddr =>
      refine ⟨addr, haddr, ?_⟩
      rw [Bool.not_eq_true', Bool.or_eq_false_iff, Bool.and_eq_false_iff] at h
      exact h.1
  constructor
  · rintro ⟨hnamed, hmode⟩
    refine ⟨hmode, ?_, ?_, ?_⟩
    · rintro s ⟨⟩
      obtain ⟨_, ⟨⟩, hfd⟩ := hnamed.fd
      exact hfd
    · obtain ⟨_, ⟨⟩, addr', haddr', hor⟩ := hnamed.addr
      rcases hor with hip | ⟨hspoofed, -⟩
      · right
        rintro s ⟨⟩ hzero
        obtain rfl : addr' = List.replicate 8 0 := Option.some.inj (haddr'.symm.trans hzero)
        exact hip
      · exact .inl hspoofed
    · rintro s ⟨⟩
      obtain ⟨_, ⟨⟩, hport⟩ := hnamed.port
      exact hport
  · intro hexact
    refine ⟨⟨⟨p, rfl, hexact.fd p rfl⟩, ⟨ip, rfl, addr, haddr, ?_⟩, ⟨port, rfl, hexact.port port rfl⟩⟩, hexact.mode⟩
    rcases hcmp with hip | hconnect
    · exact .inl hip
    rcases hspoofed : x.spoofed with _ | _
    · rw [x.connectip_eq hspoofed, inAddrCmp_zero] at hconnect
      rw [hconnect] at haddr ⊢
      rcases hexact.addr with ht | hzero
      · rw [ht] at hspoofed
        cases hspoofed
      · exact .inl (hzero ip rfl haddr)
    · exact .inr ⟨rfl, hconnect⟩

lemma parseClient_iff (ps : List Str) : (∃ o, parseClient W L c need ps = .ok o ∧ ∀ id d, o = .client id d →
    ∃ x, L.client id = some x ∧ x.Named id ps) ↔ ps ≠ [] ∧ ∀ x ∈ reached L need ps, x.Exact c ps := by
  rcases eq_or_ne ps [] with rfl | hne
  · simp [parseClient_nil]
  cases hreached : reached L need ps with
  | none =>
    obtain ⟨o, ho, hno⟩ := parseClient_unreached W (c := c) hne hreached
    exact iff_of_true ⟨o, ho, fun id d hd => absurd hd (hno id d)⟩ ⟨hne, nofun⟩
  | some x =>
    obtain ⟨p, ip, port, rest, rfl⟩ : ∃ p ip port rest, ps = p :: ip :: port :: rest := by
      unfold reached at hreached
      split at hreached
      · exact ⟨_, _, _, _, rfl⟩
      · cases hreached
    obtain ⟨hx, hmatch, hparse⟩ := parseClient_reached W (c := c) hreached
    have hiff := @named_iff c x p ip port rest hmatch
    rw [hparse]
    constructor
    · rintro ⟨o, ho, hnamed⟩
      refine ⟨hne, ?_⟩
      rintro _ ⟨⟩
      obtain ⟨d, hd, hod⟩ : ∃ d, clientHandler W (atoi p) (p :: ip :: port :: rest) 3 c = .ok d ∧
          o = .client (atoi p) d := by
        cases hd : clientHandler W (atoi p) (p :: ip :: port :: rest) 3 c with
        | error e =>
          rw [hd] at ho
          cases ho
        | ok d =>
          rw [hd] at ho
          exact ⟨d, rfl, (Except.ok.inj ho).symm⟩
      obtain ⟨x', hx', hn⟩ := hnamed _ _ hod
      obtain rfl : x = x' := Option.some.inj (hx.symm.trans hx')
      refine hiff.mp ⟨hn, ?_⟩
      rintro rfl
      by_contra hlen
      rw [handler_usermode W _ (le_antisymm (not_lt.mp hlen) (by simp))] at hd
      cases hd
    · rintro ⟨-, hexact⟩
      obtain ⟨hnamed, hmode⟩ := hiff.mpr (hexact x rfl)
      have hlen : 3 ≤ (p :: ip :: port :: rest).length := by simp
      obtain ⟨d, hd⟩ := handler_ok W (atoi p) hlen hmode
      refine ⟨.client (atoi p) d, by rw [hd]; rfl, ?_⟩
      rintro _ _ ⟨⟩
      exact ⟨x, hx, hnamed⟩

/-- **A line is handled safely if and only if it is sound.** -/
theorem iauth_line_safe (L : Locals) (line : Str) : Safe W L line ↔ Sound L line := by
  unfold Safe Sound params
  cases line with
  | nil => exact iff_of_true ⟨.garbage, rfl, nofun⟩ nofun
  | cons c message =>
    rw [List.tail_cons, List.head?_cons]
    unfold iauthParse
    dsimp only
    by_cases hr : c = 'r'
    · subst hr
      refine iff_of_true ⟨.nothing, rfl, nofun⟩ ?_
      rintro _ ⟨⟩ need hneed
      cases hneed
    rw [if_neg hr]
    cases hneed : Wire.hasCli c with
    | none =>
      refine iff_of_true ⟨.garbage, rfl, nofun⟩ ?_
      rintro _ ⟨⟩ need hneed'
      rw [hneed] at hneed'
      cases hneed'
    | some need =>
      have hsound : (∀ c' ∈ some c, ∀ need' ∈ Wire.hasCli c', need' ≠ .no →
          Wire.iauthParams maxPara message ≠ [] ∧ ∀ x ∈ reached L need' (Wire.iauthParams maxPara message),
            x.Exact c' (Wire.iauthParams maxPara message)) ↔
          (need ≠ .no → Wire.iauthParams maxPara message ≠ [] ∧
            ∀ x ∈ reached L need (Wire.iauthParams maxPara message),
              x.Exact c (Wire.iauthParams maxPara message)) := by
        constructor
        · intro h
          exact h c rfl need hneed
        · rintro h _ ⟨⟩ need' hneed'
          rw [hneed] at hneed'
          cases hneed'
          exact h
      rw [hsound]
      cases need with
      | no =>
        obtain ⟨d, hd⟩ := serverHandler_returns W (Wire.iauthParams maxPara message) c
        refine iff_of_true ⟨.server d, ?_, nofun⟩ fun h => absurd rfl h
        dsimp only
        rw [hd]
        rfl
      | waiting =>
        have hclient : Wire.HasCli.waiting ≠ .no := by decide
        exact (parseClient_iff W _).trans ⟨fun h _ => h, fun h => h hclient⟩
      | any =>
        have hclient : Wire.HasCli.any ≠ .no := by decide
        exact (parseClient_iff W _).trans ⟨fun h _ => h, fun h => h hclient⟩

/-! ### Lines that are not safe -/

/-- A client at `10.0.0.1` port 1234, with its request or without. -/
def someClient (auth : Option Bool) : Local where
  ip := [0, 0, 0, 0, 0, 65535, 2560, 1]
  connectip := List.replicate 8 0
  spoofed := false
  auth := auth
  port := 1234
  port_lt := by decide
  connectip_eq := fun _ => rfl

def someClients (auth : Option Bool) : Locals where
  array := [none, none, none, none, none, some (someClient auth)]
  highest := 5
  highest_lt := by simp

/-- **The port of a client that has registered is not compared**, and neither is it for a line that ends the
connection: a line about the connection that had the descriptor and the address before is obeyed. -/
theorem unnamed_client_killed (W : World) : ¬ Safe W (someClients none) "k 5 10.0.0.1 9".toList := by
  rintro ⟨o, ho, hnamed⟩
  have hkill : iauthParse W (someClients none) "k 5 10.0.0.1 9".toList =
      .ok (.client 5 (.kill "Access denied".toList)) := rfl
  rw [hkill] at ho
  obtain ⟨x, hx, hn⟩ := hnamed 5 _ (Except.ok.inj ho).symm
  obtain ⟨s, hs, hport⟩ := hn.port
  cases hx
  cases hs
  exact absurd hport (by decide)

/-- **Lines are not always handled safely.** -/
theorem iauth_line_unsafe : ¬ ∀ (W : World) (L : Locals) (line : Str), Safe W L line :=
  fun h => unnamed_client_killed ⟨false, fun _ _ => false⟩ (h _ _ _)

end Nefarious.Handlers
