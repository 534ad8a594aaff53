import Nefarious.Address
import Nefarious.Message
import Nefarious.Iauthd.Daemon

/-!
# Lines between the ircd and the authentication daemon

The ircd tells the daemon about a connection with a `C` line, and with a `w` line when a trusted gateway moves
it to another address. The chunks in which a stream is read are not modelled.

Names: `s_auth.c`.
-/

namespace Nefarious.Wire

open List (append_nil cons_append drop_zero mem_append mem_cons mem_cons_of_mem mem_cons_self not_mem_nil)

/-- Longest account. `ircd_defs.h`. -/
def accountLen : ℕ := 15

/-- A `WEBIRC` command of a trusted gateway, which the ircd has accepted. `m_webirc.c` `m_webirc`. -/
structure Webirc where
  password : Str
  username : Str
  hostname : Str
  /-- `ipaddr`, as the gateway has written it. -/
  ip : Str
  /-- `options`, when they are forwarded. -/
  opts : Option Str
  /-- The address that is read from `ipaddr`. -/
  addr : List ℕ
  /-- A parameter that is not the last one has no blanks. -/
  words : ' ' ∉ password ∧ ' ' ∉ username ∧ ' ' ∉ hostname
  parse_ip : ipmaskParse ip = some addr

/-- How a connection came to its address. `m_webirc.c` `m_webirc`. -/
inductive Route where
  /-- It has the address that it came from. -/
  | direct
  /-- A gateway has moved it, and the daemon has not read of it yet. -/
  | moving (w : Webirc)
  /-- A gateway has moved it, and the daemon knows. -/
  | moved (w : Webirc)

/-- A connection that the ircd has told the daemon of. `client.h` `struct Client`, `struct AuthRequest`.
-/
structure Conn where
  fd : ℕ
  /-- The address that it came from. -/
  ip : Addr
  /-- The port that it came from, `auth->port`. -/
  port : ℕ
  localAddr : Addr
  localPort : ℕ
  /-- `cli_auth`, with `AR_IAUTH_PENDING`. -/
  auth : Option Bool
  route : Route
  /-- The daemon has dropped the client, and has started anew for a `SASL` line. -/
  dropped : Bool
  /-- A descriptor is an `int`. -/
  fd_lt : fd < 2 ^ 31
  port_lt : port < 65536

/-- `cli_ip`. `m_webirc.c` `m_webirc`. -/
def Conn.cliIp (x : Conn) : List ℕ :=
  match x.route with
  | .direct => x.ip.groups
  | .moving w => w.addr
  | .moved w => w.addr

/-- `cli_connectip`, which is set when a connection is moved. `m_webirc.c` `m_webirc`. -/
def Conn.connectip (x : Conn) : List ℕ :=
  match x.route with
  | .direct => List.replicate 8 0
  | _ => x.ip.groups

def blanks (ws : List Str) : Str := [' '].intercalate ws

/-- The `C` line. `start_iauth_query`, `sendto_iauth`. -/
def cLine (x : Conn) : Str :=
  blanks [digits x.fd, ['C'], ntoa x.ip, digits x.port, ntoa x.localAddr, digits x.localPort]

/-- The `w` line. `auth_set_webirc_trusted`, `sendto_iauth`. -/
def wLine (x : Conn) (w : Webirc) : Str :=
  blanks [digits x.fd, ['w'], w.password, w.username, w.hostname, w.ip] ++ (match w.opts with
      | none => []
      | some opts => ' ' :: ':' :: opts)

/-! ### The daemon -/

/-- What the daemon keeps of a client for its lines; a number that was not one is `none`. `types.ts` `ClientState`. -/
structure Record where
  id : Option ℤ
  ip : Str
  port : Option ℤ
deriving DecidableEq

/-- A line of the ircd about the client: `C` and `w` set the record. The arguments are joined and split again.
`iauth.ts` `handleLine`, `handleClientIntro`, `handleWebIRC`. -/
def handleLine (client : Option Record) (line : Str) : Option Record :=
  let parts := line.splitOn ' '
  let id := Iauthd.parseInt (parts.getD 0 [])
  let args := parts.drop 2
  if parts.getD 1 [] = ['C'] then
    if args.getD 0 [] = [] then client
    else some ⟨id, args.getD 0 [], Iauthd.parseInt (args.getD 1 [])⟩
  else if parts.getD 1 [] = ['w'] then client.map fun c => ⟨id, args.getD 3 [], c.port⟩
  else client

/-- The client that is made for a `SASL` line about nobody. `iauth.ts` `handleSASLStart`. -/
def placeholder (x : Conn) : Record := ⟨some x.fd, "0.0.0.0".toList, some 0⟩

/-- What the daemon knows about a connection. `iauth.ts`. -/
def Conn.record (x : Conn) : Option Record :=
  if x.dropped then some (placeholder x)
  else match x.route with
    | .direct => handleLine none (cLine x)
    | .moving _ => handleLine none (cLine x)
    | .moved w => handleLine (handleLine none (cLine x)) (wLine x w)

/-- A line about a client. `iauth.ts` `sendMark`, `sendDone`, `sendKill`,
`sendSASLChallenge`, `sendSASLSuccess`, `sendSASLFail`, `sendSASLMechs`. -/
inductive Msg where
  /-- `m`. -/
  | mark (markType markData : Str)
  /-- `D`. -/
  | done (cls : Option Str)
  /-- `k`. -/
  | kill (reason : Str)
  /-- `c`. -/
  | challenge (challenge : Str)
  /-- `L`. -/
  | loggedIn (account : Str)
  /-- `Z`. -/
  | saslDone
  /-- `f`. -/
  | saslFail
  /-- `l`. -/
  | mechs (mechanisms : List Str)
deriving DecidableEq

/-- The letter of a line. `iauth.ts`. -/
def Msg.command : Msg → Char
  | .mark .. => 'm'
  | .done _ => 'D'
  | .kill _ => 'k'
  | .challenge _ => 'c'
  | .loggedIn _ => 'L'
  | .saslDone => 'Z'
  | .saslFail => 'f'
  | .mechs _ => 'l'

/-- A class that is there; an empty one is not. `iauth.ts` `sendDone`. -/
def given (cls : Option Str) : Option Str := cls.filter fun c => c ≠ []

/-- What stands behind the address. `iauth.ts`. -/
def Msg.tail : Msg → Str
  | .mark markType markData => ' ' :: (markType ++ ' ' :: markData)
  | .done cls =>
    match given cls with
    | some c => ' ' :: c
    | none => []
  | .kill reason => ' ' :: ':' :: reason
  | .challenge text => ' ' :: ':' :: text
  | .loggedIn account => ' ' :: account
  | .saslDone => []
  | .saslFail => []
  | .mechs mechanisms => ' ' :: ':' :: [','].intercalate mechanisms

/-- The text of a number. ECMAScript template literals. -/
def numText : Option ℤ → Str
  | none => "NaN".toList
  | some (.ofNat n) => digits n
  | some (.negSucc n) => '-' :: digits (n + 1)

/-- A line about a client, up to the port. `iauth.ts`. -/
def Record.address (r : Record) : Str := ' ' :: (numText r.id ++ ' ' :: (r.ip ++ ' ' :: numText r.port))

/-- Nothing is sent for an empty mark. `iauth.ts` `sendMark`. -/
def Msg.silent : Msg → Bool
  | .mark _ markData => markData = []
  | _ => false

/-- What the daemon writes for a line about a client: the line and its end. `iauth.ts` `send`. -/
def written (x : Conn) (msg : Msg) : Option Str :=
  if msg.silent then none
  else x.record.map fun r => msg.command :: (r.address ++ msg.tail) ++ ['\n']

/-- What the handler of a line is to get. -/
def Msg.params : Msg → List Str
  | .mark markType markData => [markType, markData]
  | .done cls => (given cls).toList
  | .kill reason => [reason]
  | .challenge text => [text]
  | .loggedIn account => [account]
  | .saslDone => []
  | .saslFail => []
  | .mechs mechanisms => [[','].intercalate mechanisms]

/-! ### The ircd -/

/-- Whether a command needs a client: not at all, one that waits for the daemon, or any. `iauth_parse`
(`has_cli`). -/
inductive HasCli where
  | no
  | waiting
  | any
deriving DecidableEq

/-- The commands of a daemon; `r` is not handled, and other letters are garbage. `iauth_parse`. -/
def hasCli (c : Char) : Option HasCli :=
  if c ∈ ['>', 'G', 'O', 'V', 'a', 'A', 's', 'S', 'X'] then some .no
  else if c ∈ ['o', 'U', 'u', 'N', 'I', 'm', 'M', 'C', 'd', 'D', 'R'] then some .waiting
  else if c ∈ ['k', 'K', 'c', 'L', 'f', 'l', 'Z'] then some .any
  else none

/-- Split a line into at most so many parameters. `iauth_parse`. -/
def iauthParams : ℕ → Str → List Str
  | 0, _ => []
  | n + 1, s =>
    match s.dropWhile isSpace with
    | [] => []
    | c :: s =>
      if c = ':' then [s]
      else (c :: s.takeWhile (!isSpace ·)) :: iauthParams n (s.dropWhile (!isSpace ·))

/-- What becomes of a line. `iauth_parse`. -/
inductive Reply where
  /-- `E Garbage`, or `r`. -/
  | garbage
  | server (command : Char) (params : List Str)
  | missing
  | gone
  | done
  | mismatch
  /-- The handler of the command, with a client. -/
  | handled (command : Char) (fd : ℕ) (params : List Str)
deriving DecidableEq

/-- A port, as sixteen bits. `iauth_parse` (`strtol`). -/
def portOf (s : Str) : ℕ := (atoi s % 65536).toNat

/-- The address and the port are those of a client. `iauth_parse`. -/
def Conn.matches (x : Conn) (ip port : Str) : Bool :=
  match ipmaskParse ip with
  | none => false
  | some addr =>
    !((inAddrCmp addr x.cliIp && inAddrCmp addr x.connectip) || (x.auth.isSome && portOf port ≠ x.port))

/-- A line about a client. `iauth_parse`. -/
def parseClient (table : ℕ → Option Conn) (c : Char) (need : HasCli) (params : List Str) : Reply :=
  let id := atoi (params.getD 0 [])
  if params.length < 3 then .missing
  else if id < 0 then .gone
  else match table id.toNat with
    | none => .gone
    | some x =>
      if need = .waiting ∧ x.auth ≠ some true then .done
      else if x.matches (params.getD 1 []) (params.getD 2 []) then .handled c id.toNat (params.drop 3)
      else .mismatch

def iauthParse (table : ℕ → Option Conn) : Str → Reply
  | [] => .garbage
  | c :: message =>
    match hasCli c with
    | none => .garbage
    | some .no => .server c (iauthParams maxPara message)
    | some need => parseClient table c need (iauthParams maxPara message)

/-- Take a carriage return out. `iauth_read`. -/
def stripCr (s : Str) : Str := if s.getLast? = some '\r' then s.dropLast else s

/-- Parse each complete line; a NUL hides what is behind it. -/
def iauthRead (table : ℕ → Option Conn) (data : Str) : List Reply :=
  ((data.takeWhile (· ≠ '\x00')).splitOn '\n').dropLast.map fun line => iauthParse table (stripCr line)

/-- The account that is set on a client. `iauth_cmd_sasl_loggedin`. -/
def saslAccount (params : List Str) : Option Str :=
  match params.head? with
  | none => none
  | some p =>
    if p = [] then none
    else if accountLen < (p.takeWhile fun c => c ≠ ':' ∧ c ≠ ' ').length then none
    else some (p.take accountLen)

/-- A line that the daemon sends about a client reaches the handler of that client with what was written
into it, and the account that is set is the one that was written. -/
def Delivered (table : ℕ → Option Conn) (x : Conn) (msg : Msg) : Prop :=
  ∀ data, written x msg = some data →
    iauthRead (Function.update table x.fd (some x)) data = [.handled msg.command x.fd msg.params] ∧
      ∀ account, msg = .loggedIn account → saslAccount msg.params = some account

/-! ### When a line arrives -/

/-- A word of a line. `iauth_parse`. -/
def IsIauthWord (w : Str) : Prop :=
  w ≠ [] ∧ (∀ c ∈ w, isSpace c = false ∧ c ≠ '\x00') ∧ w.head? ≠ some ':'

/-- A text at the end of a line. `iauth_read`. -/
def IsIauthText (s : Str) : Prop := '\n' ∉ s ∧ '\x00' ∉ s ∧ s.getLast? ≠ some '\r'

/-- What is written into a line can be told from what stands around it. -/
def Msg.Clean : Msg → Prop
  | .mark markType markData => IsIauthWord markType ∧ IsIauthWord markData
  | .done cls => ∀ c ∈ given cls, IsIauthWord c
  | .kill reason => IsIauthText reason
  | .challenge text => IsIauthText text
  | .loggedIn account => IsIauthWord account ∧ account.length ≤ accountLen
  | .saslDone => True
  | .saslFail => True
  | .mechs mechanisms => IsIauthText ([','].intercalate mechanisms)

/-- The address that the daemon writes is one that the ircd compares with. For a connection as it came, and
one whose move the daemon does not know yet, this is the address it came from, which has to be printed
right (or to be misprinted as the new one); for one that was moved the text of the gateway must not be
taken for the end of the line; and a client that the daemon has dropped is written as `0.0.0.0`. Source:
none. -/
def Conn.Addressed (x : Conn) : Prop :=
  if x.dropped then
    (inAddrCmp [0, 0, 0, 0, 0, 65535, 0, 0] x.cliIp = false ∨
      inAddrCmp [0, 0, 0, 0, 0, 65535, 0, 0] x.connectip = false) ∧ (x.auth.isSome → x.port = 0)
  else match x.route with
    | .direct => x.ip.Printed
    | .moving w => x.ip.Printed ∨ inAddrCmp (readBack x.ip) w.addr = false
    | .moved w => w.ip.head? ≠ some ':'

/-- The command is for clients that wait for the daemon. `iauth_parse`. -/
def Msg.waits : Msg → Bool
  | .mark .. => true
  | .done _ => true
  | _ => false

/-- When a line arrives as it was meant. -/
def Carried (x : Conn) (msg : Msg) : Prop :=
  msg.silent = true ∨ (x.Addressed ∧ (msg.waits = true → x.auth = some true) ∧ msg.Clean)

/-! ### What the daemon knows -/

/-- The text of the address in the lines about a client. -/
def Conn.ipText (x : Conn) : Str :=
  if x.dropped then "0.0.0.0".toList
  else match x.route with
    | .direct => ntoa x.ip
    | .moving _ => ntoa x.ip
    | .moved w => w.ip

/-- The port in the lines about a client. -/
def Conn.portNum (x : Conn) : ℕ := if x.dropped then 0 else x.port

lemma parseInt_digits (n : ℕ) : Iauthd.parseInt (digits n) = some (n : ℤ) := by
  obtain ⟨c, cs, hcs, -, -, -⟩ := digits_eq_cons n
  have hdig : isDigit c = true := isDigit_of_digits (by rw [hcs]; exact mem_cons_self)
  have hminus : (digits n).head? ≠ some '-' := by
    rw [hcs]
    rintro ⟨⟩
    cases hdig
  have hplus : (digits n).head? ≠ some '+' := by
    rw [hcs]
    rintro ⟨⟩
    cases hdig
  have hall : (digits n).takeWhile isDigit = digits n :=
    List.takeWhile_eq_self_iff.mpr fun c hc => isDigit_of_digits hc
  have hne : digits n ≠ [] := Nat.toDigits_ne_nil
  have hval : Iauthd.octetValue (digits n) = n := Nat.ofDigitChars_ten_toDigits
  have hunsigned : Iauthd.parseInt.unsigned (digits n) = digits n := if_neg (not_or.mpr ⟨hminus, hplus⟩)
  rw [Iauthd.parseInt, hunsigned, hall, if_neg hne, if_neg hminus, hval]

variable {c : Char} {s w : Str} {n : ℕ} {ps : List Str}

lemma isAddrChar_spec (h : isAddrChar c = true) : isSpace c = false ∧ c ≠ '\x00' := by
  have hrange : 42 ≤ c.toNat ∧ c.toNat ≤ 102 := by
    rcases of_decide_eq_true h with hhex | rfl | rfl | rfl
    · unfold hexVal at hhex
      split_ifs at hhex with hd hu hl
      · exact ⟨le_trans (by decide) (show 48 ≤ c.toNat from hd.1), le_trans (show c.toNat ≤ 57 from hd.2) (by decide)⟩
      · exact ⟨le_trans (by decide) (show 65 ≤ c.toNat from hu.1), le_trans (show c.toNat ≤ 70 from hu.2) (by decide)⟩
      · exact ⟨le_trans (by decide) (show 97 ≤ c.toNat from hl.1), show c.toNat ≤ 102 from hl.2⟩
      · cases hhex
    · decide
    · decide
    · decide
  constructor
  · have hblank : c ≠ ' ' := by
      rintro rfl
      exact absurd hrange.1 (by decide)
    simp only [isSpace, hblank, false_or, decide_eq_false_iff_not]
    omega
  · rintro rfl
    exact absurd hrange.1 (by decide)

lemma splitOn_blanks {ws : List Str} (hne : ws ≠ []) (h : ∀ w ∈ ws, ' ' ∉ w) :
    (blanks ws).splitOn ' ' = ws := List.splitOn_intercalate ' ' h hne

lemma blank_not_mem_addr {gs : List ℕ} (h : ipmaskParse s = some gs) : ' ' ∉ s := by
  intro hmem
  have hspec := isAddrChar_spec ((isAddrChar_ipmaskParse h).2 ' ' hmem)
  exact absurd hspec.1 (by decide)

lemma blank_not_mem_digits (n : ℕ) : ' ' ∉ digits n := by
  intro hmem
  exact absurd (isDigit_of_digits hmem) (by decide)

lemma handleLine_cLine (x : Conn) : handleLine none (cLine x) = some ⟨some x.fd, ntoa x.ip, some x.port⟩ := by
  have hparse := ipmaskParse_ntoa x.ip
  have hblank := blank_not_mem_addr hparse
  have hsplit : (cLine x).splitOn ' ' = [digits x.fd, ['C'], ntoa x.ip, digits x.port, ntoa x.localAddr,
      digits x.localPort] := by
    apply splitOn_blanks (by simp)
    simp only [mem_cons, not_mem_nil, or_false]
    rintro w (rfl | rfl | rfl | rfl | rfl | rfl)
    · exact blank_not_mem_digits _
    · decide
    · exact hblank
    · exact blank_not_mem_digits _
    · exact blank_not_mem_addr (ipmaskParse_ntoa x.localAddr)
    · exact blank_not_mem_digits _
  have hne : ntoa x.ip ≠ [] := (isAddrChar_ipmaskParse hparse).1
  simp only [handleLine, hsplit, List.drop_succ_cons, drop_zero, List.getD_cons_zero,
    List.getD_cons_succ, if_true, if_neg hne, parseInt_digits]

lemma handleLine_wLine (x : Conn) (w : Webirc) (r : Record) :
    handleLine (some r) (wLine x w) = some ⟨some x.fd, w.ip, r.port⟩ := by
  have hwords : ((blanks [digits x.fd, ['w'], w.password, w.username, w.hostname, w.ip]).splitOn ' ')
      = [digits x.fd, ['w'], w.password, w.username, w.hostname, w.ip] := by
    apply splitOn_blanks (by simp)
    simp only [mem_cons, not_mem_nil, or_false]
    rintro v (rfl | rfl | rfl | rfl | rfl | rfl)
    · exact blank_not_mem_digits _
    · decide
    · exact w.words.1
    · exact w.words.2.1
    · exact w.words.2.2
    · exact blank_not_mem_addr w.parse_ip
  have hsplit : ∃ more, (wLine x w).splitOn ' '
      = [digits x.fd, ['w'], w.password, w.username, w.hostname, w.ip] ++ more := by
    unfold wLine
    split
    · exact ⟨[], by rw [append_nil, hwords, append_nil]⟩
    · exact ⟨_, by rw [List.splitOn_append_cons_self, hwords]⟩
  obtain ⟨more, hmore⟩ := hsplit
  simp only [handleLine, hmore, cons_append, List.drop_succ_cons, drop_zero, List.getD_cons_zero,
    List.getD_cons_succ, Option.map_some, parseInt_digits, if_true, List.cons.injEq, and_true]
  rfl

lemma record_of (x : Conn) : x.record = some ⟨some x.fd, x.ipText, some x.portNum⟩ := by
  unfold Conn.record Conn.ipText Conn.portNum
  split
  · rfl
  · cases x.route with
    | direct => exact handleLine_cLine x
    | moving w => exact handleLine_cLine x
    | moved w =>
      dsimp only
      rw [handleLine_cLine, handleLine_wLine]

/-! ### Splitting a line -/

def AtEnd (s : Str) : Prop := ∀ c ∈ s.head?, isSpace c = true

lemma iauthParams_word (n : ℕ) (hne : w ≠ []) (hw : ∀ c ∈ w, isSpace c = false) (hcolon : w.head? ≠ some ':')
    (hs : AtEnd s) : iauthParams (n + 1) (' ' :: (w ++ s)) = w :: iauthParams n s := by
  obtain ⟨c, w, rfl⟩ := List.exists_cons_of_ne_nil hne
  have hc : isSpace c = false := hw c mem_cons_self
  have hrest : ∀ d ∈ w, (!isSpace d) = true := by
    intro d hd
    rw [hw d (mem_cons_of_mem c hd)]
    rfl
  have hdrop : (' ' :: (c :: w ++ s)).dropWhile isSpace = c :: (w ++ s) := by
    rw [List.dropWhile_cons_of_pos (by decide), cons_append,
      List.dropWhile_cons_of_neg (by rw [hc]; exact Bool.false_ne_true)]
  have htake : (w ++ s).takeWhile (!isSpace ·) = w ∧ (w ++ s).dropWhile (!isSpace ·) = s := by
    cases s with
    | nil =>
      rw [append_nil, List.takeWhile_eq_self_iff, List.dropWhile_eq_nil_iff]
      exact ⟨hrest, hrest⟩
    | cons d s =>
      have hd : ¬ (!isSpace d) = true := by
        rw [hs d rfl]
        exact Bool.false_ne_true
      rw [List.takeWhile_append_of_pos hrest, List.dropWhile_append_of_pos hrest,
        List.takeWhile_cons_of_neg (p := fun a => !isSpace a) hd,
        List.dropWhile_cons_of_neg (p := fun a => !isSpace a) hd, append_nil]
      exact ⟨rfl, rfl⟩
  have hne' : c ≠ ':' := fun e => hcolon (by rw [e]; rfl)
  rw [iauthParams, hdrop]
  dsimp only
  rw [if_neg hne', htake.1, htake.2]

lemma iauthParams_trailing (n : ℕ) (s : Str) : iauthParams (n + 1) (' ' :: ':' :: s) = [s] := by
  have hdrop : (' ' :: ':' :: s).dropWhile isSpace = ':' :: s := by
    rw [List.dropWhile_cons_of_pos (by decide), List.dropWhile_cons_of_neg (by decide)]
  rw [iauthParams, hdrop]
  rfl

lemma iauthParams_cases {p : Str} (h : iauthParams (n + 1) (' ' :: s) = p :: ps) :
    (p ≠ [] ∧ (∀ c ∈ p, isSpace c = false) ∧ p.head? ≠ some ':') ∨ (ps = [] ∧ p.length + 1 ≤ s.length) := by
  rw [iauthParams, List.dropWhile_cons_of_pos (by decide)] at h
  have hle : (s.dropWhile isSpace).length ≤ s.length := (List.dropWhile_suffix isSpace).length_le
  cases hdrop : s.dropWhile isSpace with
  | nil =>
    rw [hdrop] at h
    cases h
  | cons c rest =>
    rw [hdrop] at h hle
    dsimp only at h
    split at h
    case isTrue =>
      obtain ⟨rfl, rfl⟩ := List.cons.inj h
      exact .inr ⟨rfl, hle⟩
    case isFalse hcolon =>
      obtain ⟨rfl, -⟩ := List.cons.inj h
      have hc : isSpace c = false := by
        have hhead := List.head?_dropWhile_not isSpace s
        rw [hdrop] at hhead
        simpa using hhead
      refine .inl ⟨by simp, ?_, by simpa using hcolon⟩
      intro d hd
      rcases mem_cons.mp hd with rfl | hd
      · exact hc
      · simpa using List.mem_takeWhile_imp hd

lemma mem_of_mem_iauthParams : (n : ℕ) → ∀ {s p : Str}, p ∈ iauthParams n s → p ⊆ s
  | 0, _, _, h => absurd h not_mem_nil
  | n + 1, s, p, h => by
    have hsub : s.dropWhile isSpace ⊆ s := (List.dropWhile_suffix isSpace).subset
    rw [iauthParams] at h
    cases hdrop : s.dropWhile isSpace with
    | nil =>
      rw [hdrop] at h
      cases h
    | cons c rest =>
      rw [hdrop] at h hsub
      dsimp only at h
      have hrest : rest ⊆ s := fun d hd => hsub (mem_cons_of_mem c hd)
      split at h
      · rw [List.mem_singleton.mp h]
        exact hrest
      · rcases mem_cons.mp h with rfl | h
        · intro d hd
          rcases mem_cons.mp hd with rfl | hd
          · exact hsub mem_cons_self
          · exact hrest ((List.takeWhile_prefix _).subset hd)
        · intro d hd
          exact hrest ((List.dropWhile_suffix _).subset (mem_of_mem_iauthParams n h hd))

/-! ### Reading a line -/

lemma iauthRead_line {table : ℕ → Option Conn} {line : Str} (h : ∀ c ∈ line, c ≠ '\n' ∧ c ≠ '\x00') :
    iauthRead table (line ++ ['\n']) = [iauthParse table (stripCr line)] := by
  have hall : (line ++ ['\n']).takeWhile (· ≠ '\x00') = line ++ ['\n'] := by
    rw [List.takeWhile_eq_self_iff]
    intro c hc
    rcases mem_append.mp hc with hc | hc
    · simpa using (h c hc).2
    · rw [List.mem_singleton.mp hc]
      decide
  have hsplit : (line ++ ['\n']).splitOn '\n' = [line, []] := by
    rw [List.splitOn_append_cons_self_of_not_mem fun hmem => (h _ hmem).1 rfl, List.splitOn_nil]
  rw [iauthRead, hall, hsplit]
  rfl

lemma exists_of_iauthRead {table : ℕ → Option Conn} {data : Str} {reply : Reply}
    (h : iauthRead table data = [reply]) :
    ∃ line, (∀ c ∈ line, c ≠ '\n' ∧ c ≠ '\x00') ∧ reply = iauthParse table (stripCr line) := by
  have hvisible : ∀ c ∈ data.takeWhile (· ≠ '\x00'), c ≠ '\x00' := by
    intro c hc
    simpa using List.mem_takeWhile_imp hc
  rw [iauthRead] at h
  by_cases hmem : '\n' ∈ data.takeWhile (· ≠ '\x00')
  · obtain ⟨line, rest, heq, hnot⟩ := List.eq_append_cons_of_mem hmem
    rw [heq, List.splitOn_append_cons_self_of_not_mem hnot] at h
    rw [heq] at hvisible
    refine ⟨line, ?_, ?_⟩
    · intro c hc
      refine ⟨?_, hvisible c (List.mem_append_left _ hc)⟩
      rintro rfl
      exact hnot hc
    · obtain ⟨next, more, hnext⟩ := List.exists_cons_of_ne_nil (List.splitOn_ne_nil '\n' rest)
      rw [hnext, List.dropLast_cons_cons, List.map_cons] at h
      exact (List.cons.inj h).1.symm
  · rw [List.splitOn_eq_singleton hmem] at h
    cases h

lemma stripCr_subset (s : Str) : stripCr s ⊆ s := by
  unfold stripCr
  split
  · exact (List.dropLast_prefix s).subset
  · exact List.Subset.refl s

lemma params_of_handled {table : ℕ → Option Conn} {fd : ℕ}
    (h : iauthParse table s = .handled c fd ps) : ∀ p ∈ ps, p ⊆ s := by
  cases s with
  | nil => cases h
  | cons c' message =>
    have hclient : ∀ need, parseClient table c' need (iauthParams maxPara message) = .handled c fd ps →
        ps = (iauthParams maxPara message).drop 3 := by
      intro need hp
      unfold parseClient at hp
      dsimp only at hp
      split at hp
      · cases hp
      split at hp
      · cases hp
      split at hp
      · cases hp
      split at hp
      · cases hp
      split at hp
      · exact (Reply.handled.inj hp).2.2.symm
      · cases hp
    have hps : ps = (iauthParams maxPara message).drop 3 := by
      unfold iauthParse at h
      dsimp only at h
      split at h
      · cases h
      · cases h
      · exact hclient _ h
    intro p hp d hd
    rw [hps] at hp
    exact mem_cons_of_mem c' (mem_of_mem_iauthParams maxPara (List.mem_of_mem_drop hp) hd)

/-! ### The address of a line -/

/-- The address that the daemon writes. -/
def Conn.denoted (x : Conn) : List ℕ :=
  if x.dropped then [0, 0, 0, 0, 0, 65535, 0, 0]
  else match x.route with
    | .direct => readBack x.ip
    | .moving _ => readBack x.ip
    | .moved w => w.addr

lemma parse_ipText (x : Conn) : ipmaskParse x.ipText = some x.denoted := by
  unfold Conn.ipText Conn.denoted
  split
  · decide +kernel
  · cases x.route with
    | direct => exact ipmaskParse_ntoa x.ip
    | moving w => exact ipmaskParse_ntoa x.ip
    | moved w => exact w.parse_ip

lemma portOf_digits (h : n < 65536) : portOf (digits n) = n := by
  rw [portOf, atoi_digits_of_lt (by omega)]
  omega

lemma addressed_iff (x : Conn) :
    x.Addressed ↔ x.ipText.head? ≠ some ':' ∧ x.matches x.ipText (digits x.portNum) = true := by
  have hport : portOf (digits x.portNum) = x.portNum := by
    apply portOf_digits
    unfold Conn.portNum
    have := x.port_lt
    split <;> omega
  have hmatches : x.matches x.ipText (digits x.portNum) = true ↔
      (inAddrCmp x.denoted x.cliIp = false ∨ inAddrCmp x.denoted x.connectip = false) ∧
        (x.auth.isSome = true → x.portNum = x.port) := by
    rw [Conn.matches, parse_ipText, hport]
    simp only [Bool.not_or, Bool.and_eq_true, Bool.not_eq_true', Bool.and_eq_false_iff,
      decide_eq_false_iff_not, not_not]
    constructor
    · rintro ⟨haddr, hp⟩
      exact ⟨haddr, fun hs => hp.resolve_left (by rw [hs]; exact Bool.false_ne_true.symm)⟩
    · rintro ⟨haddr, hp⟩
      refine ⟨haddr, ?_⟩
      cases hs : x.auth.isSome with
      | false => exact .inl rfl
      | true => exact .inr (hp hs)
  rw [hmatches]
  unfold Conn.Addressed Conn.ipText Conn.denoted Conn.portNum
  split
  case isTrue =>
    have hhead : "0.0.0.0".toList.head? ≠ some ':' := by decide
    rw [and_iff_right hhead]
    exact and_congr_right fun _ => imp_congr_right fun _ => eq_comm
  case isFalse =>
    unfold Conn.cliIp Conn.connectip
    cases x.route with
    | direct =>
      dsimp only
      rw [inAddrCmp_readBack]
      constructor
      · exact fun h => ⟨head_ntoa x.ip, Or.inl h, fun _ => rfl⟩
      · rintro ⟨-, h | h, -⟩
        · exact h
        · exact printed_of_unset h
    | moving w =>
      dsimp only
      rw [inAddrCmp_readBack, or_comm]
      exact ⟨fun h => ⟨head_ntoa x.ip, h, fun _ => rfl⟩, fun h => h.2.1⟩
    | moved w =>
      dsimp only
      exact ⟨fun h => ⟨h, Or.inl (inAddrCmp_self w.addr), fun _ => rfl⟩, fun h => h.1⟩

/-- What the daemon writes before the tail of a line. -/
def Conn.head (x : Conn) : Str :=
  ' ' :: (digits x.fd ++ ' ' :: (x.ipText ++ ' ' :: digits x.portNum))

lemma written_eq {x : Conn} {msg : Msg} (h : msg.silent = false) :
    written x msg = some ((msg.command :: (x.head ++ msg.tail)) ++ ['\n']) := by
  rw [written, if_neg (by rw [h]; exact Bool.false_ne_true), record_of, Option.map_some]
  rfl

lemma digits_word (n : ℕ) :
    digits n ≠ [] ∧ (∀ c ∈ digits n, isSpace c = false ∧ c ≠ '\x00') ∧ (digits n).head? ≠ some ':' := by
  obtain ⟨c, cs, hcs, -, -, hcolon⟩ := digits_eq_cons n
  refine ⟨by rw [hcs]; simp, fun d hd => isAddrChar_spec (isAddrChar_of_isDigit (isDigit_of_digits hd)), ?_⟩
  rw [hcs]
  simpa using hcolon

lemma ipText_word (x : Conn) : x.ipText ≠ [] ∧ ∀ c ∈ x.ipText, isSpace c = false ∧ c ≠ '\x00' := by
  obtain ⟨hne, hchars⟩ := isAddrChar_ipmaskParse (parse_ipText x)
  exact ⟨hne, fun c hc => isAddrChar_spec (hchars c hc)⟩

lemma iauthParams_head {x : Conn} (h : x.ipText.head? ≠ some ':') (hs : AtEnd s) :
    iauthParams maxPara (x.head ++ s) = digits x.fd :: x.ipText :: digits x.portNum :: iauthParams 12 s := by
  obtain ⟨hfd, hfdc, hfdh⟩ := digits_word x.fd
  obtain ⟨hport, hportc, hporth⟩ := digits_word x.portNum
  obtain ⟨hip, hipc⟩ := ipText_word x
  have hblank : ∀ t : Str, AtEnd (' ' :: t) := by
    rintro t c ⟨⟩
    decide
  have hline : x.head ++ s = ' ' :: (digits x.fd ++ (' ' :: (x.ipText ++ (' ' :: (digits x.portNum ++ s))))) := by
    simp only [Conn.head, cons_append, List.append_assoc]
  rw [hline]
  show iauthParams (14 + 1) _ = _
  rw [iauthParams_word 14 hfd (fun c hc => (hfdc c hc).1) hfdh (hblank _)]
  show _ :: iauthParams (13 + 1) _ = _
  rw [iauthParams_word 13 hip (fun c hc => (hipc c hc).1) h (hblank _)]
  show _ :: _ :: iauthParams (12 + 1) _ = _
  rw [iauthParams_word 12 hport (fun c hc => (hportc c hc).1) hporth hs]

lemma length_iauthParams_head {x : Conn} (h : x.ipText.head? = some ':') :
    (iauthParams maxPara (x.head ++ s)).length = 2 := by
  obtain ⟨hfd, hfdc, hfdh⟩ := digits_word x.fd
  obtain ⟨ip, hip⟩ : ∃ ip, x.ipText = ':' :: ip := by
    cases hx : x.ipText with
    | nil =>
      rw [hx] at h
      cases h
    | cons c ip =>
      rw [hx] at h
      cases h
      exact ⟨ip, rfl⟩
  have hline : x.head ++ s = ' ' :: (digits x.fd ++ (' ' :: ':' :: (ip ++ ' ' :: (digits x.portNum ++ s)))) := by
    simp only [Conn.head, hip, cons_append, List.append_assoc]
  have hblank : AtEnd (' ' :: ':' :: (ip ++ ' ' :: (digits x.portNum ++ s))) := by
    rintro c ⟨⟩
    decide
  rw [hline]
  show (iauthParams (14 + 1) _).length = 2
  rw [iauthParams_word 14 hfd (fun c hc => (hfdc c hc).1) hfdh hblank]
  show (_ :: iauthParams (13 + 1) _).length = 2
  rw [iauthParams_trailing]
  rfl

lemma hasCli_command (msg : Msg) : hasCli msg.command = some (if msg.waits then .waiting else .any) := by
  cases msg <;> rfl

lemma iauthParse_line {table : ℕ → Option Conn} {x : Conn} {msg : Msg}
    (hs : AtEnd s) : iauthParse (Function.update table x.fd (some x)) (msg.command :: (x.head ++ s)) =
    .handled msg.command x.fd ps ↔ x.Addressed ∧ (msg.waits = true → x.auth = some true) ∧ iauthParams 12 s =
    ps := by
  have hparse : iauthParse (Function.update table x.fd (some x)) (msg.command :: (x.head ++ s))
      = parseClient (Function.update table x.fd (some x)) msg.command
        (if msg.waits then .waiting else .any) (iauthParams maxPara (x.head ++ s)) := by
    rw [iauthParse, hasCli_command]
    cases msg.waits <;> rfl
  rw [hparse, addressed_iff]
  by_cases hcolon : x.ipText.head? = some ':'
  · rw [parseClient, if_pos (by rw [length_iauthParams_head hcolon]; omega)]
    exact iff_of_false (by simp) fun h => h.1.1 hcolon
  · have hid : atoi (digits x.fd) = (x.fd : ℤ) := atoi_digits_of_lt x.fd_lt
    rw [iauthParams_head hcolon hs, parseClient]
    simp only [List.length_cons, List.getD_cons_zero, List.getD_cons_succ, hid, List.drop_succ_cons,
      drop_zero, Int.toNat_natCast, Function.update_self]
    rw [if_neg (by omega), if_neg (by omega)]
    by_cases hwait : msg.waits = true → x.auth = some true
    · have hgo : ¬ ((if msg.waits then HasCli.waiting else HasCli.any) = .waiting ∧ x.auth ≠ some true) := by
        rintro ⟨hneed, hauth⟩
        cases hw : msg.waits with
        | true => exact hauth (hwait hw)
        | false =>
          rw [hw] at hneed
          cases hneed
      rw [if_neg hgo]
      split
      case isTrue hmatch =>
        rw [Reply.handled.injEq]
        exact ⟨fun h => ⟨⟨hcolon, hmatch⟩, hwait, h.2.2⟩, fun h => ⟨rfl, rfl, h.2.2⟩⟩
      case isFalse hmatch => exact iff_of_false (by simp) fun h => hmatch h.1.2
    · have hstop : (if msg.waits then HasCli.waiting else HasCli.any) = .waiting ∧ x.auth ≠ some true := by
        rw [Classical.not_imp] at hwait
        rw [hwait.1]
        exact ⟨rfl, hwait.2⟩
      rw [if_pos hstop]
      exact iff_of_false (by simp) fun h => hwait h.2.1

/-! ### The tail of a line -/

lemma stripCr_append {t : Str} (h : t ≠ []) : stripCr (s ++ t) = s ++ stripCr t := by
  unfold stripCr
  rw [List.getLast?_append_of_ne_nil s h, List.dropLast_append_of_ne_nil h]
  split <;> rfl

lemma stripCr_cons (s : Str) (h : c ≠ '\r') : stripCr (c :: s) = c :: stripCr s := by
  by_cases hs : s = []
  · subst hs
    have hlast : ¬ [c].getLast? = some '\r' := by simpa using h
    rw [stripCr, if_neg hlast]
    rfl
  · exact stripCr_append (s := [c]) hs

lemma stripCr_eq_self_iff (s : Str) : stripCr s = s ↔ s.getLast? ≠ some '\r' := by
  unfold stripCr
  split
  case isTrue h =>
    refine iff_of_false (fun e => ?_) fun hne => hne h
    have hlen := congrArg List.length e
    have hpos : s ≠ [] := by
      rintro rfl
      cases h
    rw [List.length_dropLast] at hlen
    have := List.length_pos_of_ne_nil hpos
    omega
  case isFalse h => exact iff_of_true rfl h

lemma stripCr_word (h : ∀ c ∈ w, isSpace c = false) : stripCr w = w := by
  rw [stripCr_eq_self_iff]
  intro hlast
  exact absurd (h '\r' (List.mem_of_getLast? hlast)) (by decide)

lemma length_stripCr_le (s : Str) : (stripCr s).length ≤ s.length := by
  unfold stripCr
  split
  · rw [List.length_dropLast]
    omega
  · exact le_refl _

lemma iauthParams_eq_word :
    ((∀ c ∈ w, c ≠ '\n' ∧ c ≠ '\x00') ∧ iauthParams (n + 1) (' ' :: stripCr w) = [w]) ↔ IsIauthWord w := by
  constructor
  · rintro ⟨hclean, h⟩
    rcases iauthParams_cases h with ⟨hne, hspace, hcolon⟩ | ⟨-, hlen⟩
    · exact ⟨hne, fun c hc => ⟨hspace c hc, (hclean c hc).2⟩, hcolon⟩
    · have := length_stripCr_le w
      omega
  · rintro ⟨hne, hchars, hcolon⟩
    have hspace : ∀ c ∈ w, isSpace c = false := fun c hc => (hchars c hc).1
    constructor
    · intro c hc
      refine ⟨?_, (hchars c hc).2⟩
      rintro rfl
      exact absurd (hspace _ hc) (by decide)
    · have hend : AtEnd [] := by
        rintro c ⟨⟩
      have h := iauthParams_word n hne hspace hcolon hend
      rw [append_nil] at h
      rw [stripCr_word hspace, h]
      cases n <;> rfl

lemma iauthParams_eq_text : ((∀ c ∈ s, c ≠ '\n' ∧ c ≠ '\x00') ∧
    iauthParams (n + 1) (' ' :: ':' :: stripCr s) = [s]) ↔ IsIauthText s := by
  rw [iauthParams_trailing, List.cons.injEq, and_iff_left rfl, stripCr_eq_self_iff, IsIauthText]
  constructor
  · rintro ⟨hclean, hlast⟩
    exact ⟨fun h => (hclean _ h).1 rfl, fun h => (hclean _ h).2 rfl, hlast⟩
  · rintro ⟨hnl, hnul, hlast⟩
    refine ⟨fun c hc => ⟨?_, ?_⟩, hlast⟩
    · rintro rfl
      exact hnl hc
    · rintro rfl
      exact hnul hc

lemma iauthParams_eq_words {v : Str} : ((∀ c ∈ v ++ ' ' :: w, c ≠ '\n' ∧ c ≠ '\x00') ∧
    iauthParams (n + 2) (' ' :: stripCr (v ++ ' ' :: w)) = [v, w]) ↔ IsIauthWord v ∧ IsIauthWord w := by
  have hstrip : stripCr (v ++ ' ' :: w) = v ++ ' ' :: stripCr w := by
    rw [stripCr_append (by simp), stripCr_cons w (by decide)]
  have hblank : AtEnd (' ' :: stripCr w) := by
    rintro c ⟨⟩
    decide
  rw [hstrip]
  constructor
  · rintro ⟨hclean, h⟩
    rcases iauthParams_cases h with ⟨hne, hspace, hcolon⟩ | ⟨hnil, -⟩
    · rw [iauthParams_word (n + 1) hne hspace hcolon hblank] at h
      refine ⟨⟨hne, fun c hc => ⟨hspace c hc, (hclean c (List.mem_append_left _ hc)).2⟩, hcolon⟩, ?_⟩
      apply (iauthParams_eq_word (n := n)).mp
      exact ⟨fun c hc => hclean c (List.mem_append_right _ (mem_cons_of_mem _ hc)),
        (List.cons.inj h).2⟩
    · cases hnil
  · rintro ⟨⟨hne, hchars, hcolon⟩, hw⟩
    obtain ⟨hwclean, hwread⟩ := (iauthParams_eq_word (n := n)).mpr hw
    have hspace : ∀ c ∈ v, isSpace c = false := fun c hc => (hchars c hc).1
    constructor
    · intro c hc
      rcases mem_append.mp hc with hc | hc
      · refine ⟨?_, (hchars c hc).2⟩
        rintro rfl
        exact absurd (hspace _ hc) (by decide)
      · rcases mem_cons.mp hc with rfl | hc
        · decide
        · exact hwclean c hc
    · rw [iauthParams_word (n + 1) hne hspace hcolon hblank, hwread]

lemma saslAccount_eq_iff {account : Str} (h : account ≠ []) :
    saslAccount [account] = some account ↔ account.length ≤ accountLen := by
  rw [saslAccount, List.head?_cons]
  dsimp only
  rw [if_neg h]
  have hle : (account.takeWhile fun c => c ≠ ':' ∧ c ≠ ' ').length ≤ account.length :=
    (List.takeWhile_prefix _).length_le
  split
  case isTrue hlong => exact iff_of_false (by simp) (by omega)
  case isFalse =>
    rw [Option.some.injEq, List.take_eq_self_iff]

lemma forall_mem_blank : (∀ c ∈ ' ' :: s, c ≠ '\n' ∧ c ≠ '\x00') ↔ ∀ c ∈ s, c ≠ '\n' ∧ c ≠ '\x00' := by
  rw [List.forall_mem_cons]
  exact and_iff_right (by decide)

lemma text_tail_iff : ((∀ c ∈ ' ' :: ':' :: s, c ≠ '\n' ∧ c ≠ '\x00') ∧
    iauthParams 12 (stripCr (' ' :: ':' :: s)) = [s]) ↔ IsIauthText s := by
  have hcolon : (∀ c ∈ ':' :: s, c ≠ '\n' ∧ c ≠ '\x00') ↔ ∀ c ∈ s, c ≠ '\n' ∧ c ≠ '\x00' := by
    rw [List.forall_mem_cons]
    exact and_iff_right (by decide)
  rw [stripCr_cons _ (by decide), stripCr_cons _ (by decide), forall_mem_blank, hcolon]
  exact iauthParams_eq_text (n := 11)

lemma word_tail_iff : ((∀ c ∈ ' ' :: w, c ≠ '\n' ∧ c ≠ '\x00') ∧
    iauthParams 12 (stripCr (' ' :: w)) = [w]) ↔ IsIauthWord w := by
  rw [stripCr_cons _ (by decide), forall_mem_blank]
  exact iauthParams_eq_word (n := 11)

lemma tail_iff (msg : Msg) : (((∀ c ∈ msg.tail, c ≠ '\n' ∧ c ≠ '\x00') ∧ iauthParams 12 (stripCr msg.tail) =
    msg.params) ∧ ∀ account, msg = .loggedIn account → saslAccount msg.params = some account) ↔ msg.Clean := by
  -- Only the line that logs in says something about an account.
  have hno : (∀ account, msg ≠ .loggedIn account) →
      ∀ account, msg = .loggedIn account → saslAccount msg.params = some account :=
    fun h account e => absurd e (h account)
  have hnil : iauthParams 12 (stripCr []) = [] := rfl
  cases msg with
  | mark markType markData =>
    rw [and_iff_left (hno (by simp))]
    dsimp only [Msg.tail, Msg.params, Msg.Clean]
    rw [stripCr_cons _ (by decide), forall_mem_blank]
    exact iauthParams_eq_words (n := 10)
  | done cls =>
    rw [and_iff_left (hno (by simp))]
    unfold Msg.tail Msg.params Msg.Clean
    dsimp only
    cases given cls with
    | none => exact iff_of_true ⟨by simp, hnil⟩ (by simp)
    | some c => simpa using word_tail_iff (w := c)
  | kill reason =>
    rw [and_iff_left (hno (by simp))]
    exact text_tail_iff
  | challenge text =>
    rw [and_iff_left (hno (by simp))]
    exact text_tail_iff
  | loggedIn account =>
    have haccount : (∀ a, Msg.loggedIn account = .loggedIn a →
        saslAccount (Msg.loggedIn account).params = some a) ↔ saslAccount [account] = some account :=
      ⟨fun h => h account rfl, by rintro h a ⟨⟩; exact h⟩
    rw [haccount]
    dsimp only [Msg.tail, Msg.params, Msg.Clean]
    rw [word_tail_iff]
    exact and_congr_right fun h => saslAccount_eq_iff h.1
  | saslDone => exact iff_of_true ⟨⟨by simp [Msg.tail], hnil⟩, hno (by simp)⟩ trivial
  | saslFail => exact iff_of_true ⟨⟨by simp [Msg.tail], hnil⟩, hno (by simp)⟩ trivial
  | mechs mechanisms =>
    rw [and_iff_left (hno (by simp))]
    exact text_tail_iff

/-! ### The line as a whole -/

lemma atEnd_tail (msg : Msg) : AtEnd (stripCr msg.tail) := by
  have hblank : ∀ s : Str, AtEnd (stripCr (' ' :: s)) := by
    intro s
    rw [stripCr_cons s (by decide)]
    rintro c ⟨⟩
    decide
  have hnil : AtEnd (stripCr []) := by
    rintro c ⟨⟩
  cases msg with
  | done cls =>
    unfold Msg.tail
    dsimp only
    cases given cls with
    | none => exact hnil
    | some c => exact hblank c
  | saslDone => exact hnil
  | saslFail => exact hnil
  | mark | kill | challenge | loggedIn | mechs => exact hblank _

lemma stripCr_line (x : Conn) (msg : Msg) :
    stripCr (msg.command :: (x.head ++ msg.tail)) = msg.command :: (x.head ++ stripCr msg.tail) := by
  by_cases htail : msg.tail = []
  · have hport : stripCr (digits x.portNum) = digits x.portNum :=
      stripCr_word fun c hc => ((digits_word x.portNum).2.1 c hc).1
    have hline : msg.command :: x.head
        = (msg.command :: ' ' :: (digits x.fd ++ ' ' :: (x.ipText ++ [' ']))) ++ digits x.portNum := by
      simp [Conn.head]
    have hnil : stripCr [] = [] := rfl
    rw [htail, hnil, append_nil, hline, stripCr_append (digits_word x.portNum).1, hport]
  · rw [← cons_append, stripCr_append htail, cons_append]

lemma mem_head {x : Conn} {msg : Msg} (h : c ∈ msg.command :: x.head) : c ≠ '\n' ∧ c ≠ '\x00' := by
  have hword : isSpace c = false ∧ c ≠ '\x00' → c ≠ '\n' ∧ c ≠ '\x00' := by
    rintro ⟨hspace, hnul⟩
    refine ⟨?_, hnul⟩
    rintro rfl
    exact absurd hspace (by decide)
  simp only [Conn.head, mem_cons, mem_append] at h
  rcases h with rfl | rfl | h | rfl | h | rfl | h
  · cases msg <;> simp [Msg.command]
  · decide
  · exact hword ((digits_word x.fd).2.1 c h)
  · decide
  · exact hword ((ipText_word x).2 c h)
  · decide
  · exact hword ((digits_word x.portNum).2.1 c h)

lemma mem_tail {msg : Msg} (h : c ∈ msg.tail) : c = ' ' ∨ c = ':' ∨ ∃ p ∈ msg.params, c ∈ p := by
  have hword : ∀ {w : Str} {ps : List Str}, w ∈ ps → c ∈ ' ' :: w → c = ' ' ∨ c = ':' ∨ ∃ p ∈ ps, c ∈ p := by
    intro w ps hmem hc
    rcases mem_cons.mp hc with hc | hc
    · exact .inl hc
    · exact .inr (Or.inr ⟨w, hmem, hc⟩)
  have htext : ∀ {w : Str}, c ∈ ' ' :: ':' :: w → c = ' ' ∨ c = ':' ∨ ∃ p ∈ [w], c ∈ p := by
    intro w hc
    rcases mem_cons.mp hc with hc | hc
    · exact .inl hc
    · rcases mem_cons.mp hc with hc | hc
      · exact .inr (Or.inl hc)
      · exact .inr (Or.inr ⟨w, List.mem_singleton_self w, hc⟩)
  cases msg with
  | mark markType markData =>
    have hmem : c ∈ ' ' :: markType ∨ c ∈ ' ' :: markData := by
      rw [← mem_append]
      exact h
    rcases hmem with hmem | hmem
    · exact hword mem_cons_self hmem
    · exact hword (mem_cons_of_mem _ mem_cons_self) hmem
  | done cls =>
    unfold Msg.tail at h
    unfold Msg.params
    dsimp only at h ⊢
    cases hcls : given cls with
    | none =>
      rw [hcls] at h
      cases h
    | some w =>
      rw [hcls] at h
      exact hword (List.mem_singleton_self w) h
  | kill reason => exact htext h
  | challenge text => exact htext h
  | loggedIn account => exact hword (List.mem_singleton_self account) h
  | saslDone => cases h
  | saslFail => cases h
  | mechs mechanisms => exact htext h

/-- **IAuth wire agreement.** A line about a client reaches the handler of that client with what was written
into it, and the account that is set is the one that was written, if and only if the daemon writes an address of
the client, the client still waits for the daemon where the command is for such clients, and what was written
can be told from the line around it. -/
theorem wire_agreement (table : ℕ → Option Conn) (x : Conn) (msg : Msg) :
    Delivered table x msg ↔ Carried x msg := by
  cases hsilent : msg.silent with
  | true =>
    have hnone : written x msg = none := if_pos hsilent
    refine iff_of_true (fun data hdata => ?_) (Or.inl hsilent)
    rw [hnone] at hdata
    cases hdata
  | false =>
    have hcarried : Carried x msg ↔ x.Addressed ∧ (msg.waits = true → x.auth = some true) ∧ msg.Clean :=
      or_iff_right (by rw [hsilent]; exact Bool.false_ne_true)
    have hdelivered : Delivered table x msg ↔
        iauthRead (Function.update table x.fd (some x)) ((msg.command :: (x.head ++ msg.tail)) ++ ['\n'])
            = [.handled msg.command x.fd msg.params] ∧
          ∀ account, msg = .loggedIn account → saslAccount msg.params = some account := by
      constructor
      · exact fun h => h _ (written_eq hsilent)
      · intro h data hdata
        rw [written_eq hsilent, Option.some.injEq] at hdata
        rw [← hdata]
        exact h
    -- A line whose tail has no line end in it is read as one.
    have hread : (∀ c ∈ msg.tail, c ≠ '\n' ∧ c ≠ '\x00') →
        iauthRead (Function.update table x.fd (some x)) ((msg.command :: (x.head ++ msg.tail)) ++ ['\n'])
          = [iauthParse (Function.update table x.fd (some x))
              (msg.command :: (x.head ++ stripCr msg.tail))] := by
      intro htail
      rw [iauthRead_line, stripCr_line]
      intro c hc
      rw [← cons_append] at hc
      rcases mem_append.mp hc with hc | hc
      · exact mem_head hc
      · exact htail c hc
    rw [hcarried, hdelivered]
    constructor
    · rintro ⟨h, haccount⟩
      have htail : ∀ c ∈ msg.tail, c ≠ '\n' ∧ c ≠ '\x00' := by
        obtain ⟨line, hline, hparse⟩ := exists_of_iauthRead h
        intro c hc
        rcases mem_tail hc with rfl | rfl | ⟨p, hp, hc⟩
        · decide
        · decide
        · exact hline c (stripCr_subset line (params_of_handled hparse.symm p hp hc))
      rw [hread htail, List.cons.injEq, and_iff_left rfl, iauthParse_line (atEnd_tail msg)] at h
      exact ⟨h.1, h.2.1, (tail_iff msg).mp ⟨⟨htail, h.2.2⟩, haccount⟩⟩
    · rintro ⟨haddress, hwaits, hclean⟩
      obtain ⟨⟨htail, hparams⟩, haccount⟩ := (tail_iff msg).mpr hclean
      rw [hread htail, List.cons.injEq, and_iff_left rfl, iauthParse_line (atEnd_tail msg)]
      exact ⟨⟨haddress, hwaits, hparams⟩, haccount⟩

/-- A connection from `192.0.2.1` that waits for the daemon. -/
lemma sampleGroups_lt : ∀ g ∈ [0, 0, 0, 0, 0, 65535, 49152, 513], g < 65536 := by decide

def sampleConn : Conn where
  fd := 7
  ip := ⟨[0, 0, 0, 0, 0, 65535, 49152, 513], by decide, sampleGroups_lt⟩
  port := 50000
  localAddr := ⟨[0, 0, 0, 0, 0, 65535, 49152, 514], by decide, by decide⟩
  localPort := 6667
  auth := some true
  route := .direct
  dropped := false
  fd_lt := by decide
  port_lt := by decide

/-- **An account with a blank in it is cut.** The line that is to log `alice smith` in logs `alice` in. -/
theorem account_cut :
    written sampleConn (.loggedIn "alice smith".toList) = some "L 7 192.0.2.1 50000 alice smith\n".toList ∧
    iauthRead (Function.update (fun _ => none) 7 (some sampleConn))
        "L 7 192.0.2.1 50000 alice smith\n".toList
      = [.handled 'L' 7 ["alice".toList, "smith".toList]] ∧
    saslAccount ["alice".toList, "smith".toList] = some "alice".toList ∧
    ¬ ∀ table x msg, Delivered table x msg := by
  have hwritten : written sampleConn (.loggedIn "alice smith".toList)
      = some "L 7 192.0.2.1 50000 alice smith\n".toList := by
    decide +kernel
  have hread : iauthRead (Function.update (fun _ => none) 7 (some sampleConn))
        "L 7 192.0.2.1 50000 alice smith\n".toList
      = [.handled 'L' 7 ["alice".toList, "smith".toList]] := by
    decide +kernel
  refine ⟨hwritten, hread, by decide +kernel, ?_⟩
  intro hall
  have h := (hall (fun _ => none) sampleConn (.loggedIn "alice smith".toList) _ hwritten).1
  rw [show sampleConn.fd = 7 from rfl, hread] at h
  exact absurd h (by decide +kernel)

end Nefarious.Wire
