import Nefarious.Strings

/-!
# Connection rules

A recursive descent parser converts a rule into an expression tree. An operand that is missing is a null
pointer; evaluating it is undefined.

Names: `crule.c`.
-/

namespace Nefarious.Crule

/-! ## Data -/

/-- Maximum arg length. `CR_MAXARGLEN`. -/
def maxArgLen : ℕ := 80

/-- Maximum number of args for a rule. `CR_MAXARGS`. -/
def maxArgs : ℕ := 3

/-- Input scanner tokens. `enum crule_token`. -/
inductive CruleToken
  | unknown
  | endOfInput
  | and
  | or
  | not
  | openparen
  | closeparen
  | comma
  | word
  deriving DecidableEq

/-- Parser error codes; the last two are none of the code: an argument is written behind the node, and the
number that bounds the recursion is used up. `enum crule_errcode`. -/
inductive Errcode
  | noerr
  | unexpcttok
  | unknwtok
  | expctand
  | expctor
  | expctprim
  | expctopen
  | expctclose
  | unknwfunc
  | argmismat
  | overrun
  | fuel
  deriving DecidableEq

/-- The rule functions. `crule_funclist`. -/
inductive Func
  | connected
  | directcon
  | via
  | directop
  deriving DecidableEq

/-- Function name. `crule_funclist`. -/
def Func.name : Func → Str
  | .connected => "connected".toList
  | .directcon => "directcon".toList
  | .via => "via".toList
  | .directop => "directop".toList

/-- Required number of arguments. `crule_funclist`. -/
def Func.reqnumargs : Func → ℕ
  | .connected => 1
  | .directcon => 1
  | .via => 2
  | .directop => 0

/-- The table of the functions, in its order. `crule_funclist`. -/
def funclist : List Func := [.connected, .directcon, .via, .directop]

/-- Node in a connection rule tree. `struct CRuleNode`. -/
inductive Node
  | null
  /-- An argument that was not written. -/
  | unset
  /-- `crule__andor`; it is an or when the third argument is set. -/
  | andor (arg0 arg1 : Node) (arg2 : Bool)
  | not (arg0 : Node)
  /-- A rule function, or none while its arguments are read. -/
  | func (funcptr : Option Func) (args : List Str)

/-- What a function of the parser leaves. `crule_parseorexpr`. -/
structure Parsed where
  err : Errcode
  node : Node
  tok : CruleToken
  rest : Str

def Node.isNull : Node → Bool
  | .null => true
  | _ => false

/-- The second argument of a node is written. -/
def Node.setArg1 : Node → Node → Node
  | .andor arg0 _ arg2, arg1 => .andor arg0 arg1 arg2
  | node, _ => node

/-! ## Tokens -/

/-- `ircd_chattr.h` `IsAlpha`; `table_gen.c`. -/
def isAlpha (c : Char) : Bool := ('a' ≤ c ∧ c ≤ '~') ∨ ('A' ≤ c ∧ c ≤ '^')

/-- `ircd_chattr.h`. -/
def isAlnum (c : Char) : Bool := isAlpha c || isDigit c

/-- The wildcards and marks of a hostmask. `crule_getword`. -/
def isMaskMark (c : Char) : Bool := c = '*' ∨ c = '?' ∨ c = '.' ∨ c = '-'

/-- Scan an input token; a character of an operator is kept in mind. `crule_gettoken`. -/
def gettoken (pending : Option Char) : Str → Errcode × CruleToken × Str
  | [] => (.noerr, .endOfInput, [])
  | c :: s =>
    if c = ' ' ∨ c = '\t' then gettoken pending s
    else if c = '&' then
      if pending = none then gettoken (some '&') s
      else if pending = some '&' then (.noerr, .and, s)
      else (.unknwtok, .unknown, s)
    else if c = '|' then
      if pending = none then gettoken (some '|') s
      else if pending = some '|' then (.noerr, .or, s)
      else (.unknwtok, .unknown, s)
    else if c = '!' then (.noerr, .not, s)
    else if c = '(' then (.noerr, .openparen, s)
    else if c = ')' then (.noerr, .closeparen, s)
    else if c = ',' then (.noerr, .comma, s)
    else if c = ':' then (.noerr, .endOfInput, s)
    else if isAlpha c || isMaskMark c then (.noerr, .word, c :: s)
    else (.unknwtok, .unknown, c :: s)

/-- Scan a word of at most so many bytes. `crule_getword`. -/
def getword : ℕ → Str → Str × Str
  | 0, s => ([], s)
  | _, [] => ([], [])
  | n + 1, c :: s =>
    if isAlnum c || isMaskMark c then (c :: (getword n s).1, (getword n s).2) else ([], c :: s)

/-- Behind the first wildcards that follow one another, a run of them is written with its star last.
`match.c` `collapse`. -/
def collapseRun (star : Bool) : Str → Str
  | [] => if star then ['*'] else []
  | c :: m =>
    if c = '*' then collapseRun true m
    else
      let rest := star && decide (c = '?')
      (if star ∧ c ≠ '?' then ['*'] else []) ++
        match m with
        | [] => c :: collapseRun rest []
        | d :: m =>
          if c = '\\' ∧ (d = '*' ∨ d = '?') then c :: d :: collapseRun rest m
          else c :: collapseRun rest (d :: m)

/-- Collapse a mask: runs of wildcards are written in one way. `match.c`. -/
def collapse : Str → Str
  | [] => []
  | [c] => [c]
  | c :: d :: m =>
    if c = '*' ∧ (d = '*' ∨ d = '?') then collapseRun false (c :: d :: m)
    else if c = '\\' ∧ (d = '*' ∨ d = '?') then c :: d :: collapse m
    else c :: collapse (d :: m)

/-! ## The parser -/

/-- Parse the argument list, with the arguments and the argument so far. Words in a row are joined. `crule_parsearglist`. -/
def parsearglist : ℕ → List Str → Str → ℕ → CruleToken → Str → Errcode × List Str × CruleToken × Str
  | 0, args, _, _, tok, s => (.fuel, args, tok, s)
  | n + 1, args, currarg, arglen, .word, s =>
    let word := getword (maxArgLen - 1) s
    let curr :=
      if currarg ≠ [] then
        if arglen + word.1.length < maxArgLen - 1 then
          (currarg ++ ' ' :: word.1, arglen + word.1.length + 1)
        else (currarg, arglen)
      else (word.1, word.1.length)
    let next := gettoken none word.2
    if next.1 = .noerr then parsearglist n args curr.1 curr.2 next.2.1 next.2.2
    else (next.1, args, next.2.1, next.2.2)
  | n + 1, args, currarg, arglen, tok, s =>
    let currarg := collapse currarg
    if currarg ≠ [] ∧ maxArgs ≤ args.length then (.overrun, args, tok, s)
    else
      let args := if currarg ≠ [] then args ++ [currarg] else args
      if tok ≠ .comma then (.noerr, args, tok, s)
      else
        let next := gettoken none s
        if next.1 = .noerr then parsearglist n args [] arglen next.2.1 next.2.2
        else (next.1, args, next.2.1, next.2.2)

/-- Parse a function call. `crule_parsefunction`. -/
def parsefunction (n : ℕ) (s : Str) : Parsed :=
  let funcname := getword (maxArgLen - 1) s
  let next := gettoken none funcname.2
  if next.1 ≠ .noerr then ⟨next.1, .null, next.2.1, next.2.2⟩
  else if next.2.1 = .openparen then
    match funclist.find? fun f => strEq f.name funcname.1 with
    | none => ⟨.unknwfunc, .null, next.2.1, next.2.2⟩
    | some f =>
      let first := gettoken none next.2.2
      if first.1 ≠ .noerr then ⟨first.1, .null, first.2.1, first.2.2⟩
      else
        let list := parsearglist n [] [] 0 first.2.1 first.2.2
        if list.1 ≠ .noerr then ⟨list.1, .func none list.2.1, list.2.2.1, list.2.2.2⟩
        else if list.2.2.1 ≠ .closeparen then
          ⟨.expctclose, .func none list.2.1, list.2.2.1, list.2.2.2⟩
        else if f.reqnumargs ≠ list.2.1.length then
          ⟨.argmismat, .func none list.2.1, list.2.2.1, list.2.2.2⟩
        else
          let last := gettoken none list.2.2.2
          if last.1 ≠ .noerr then ⟨last.1, .func none list.2.1, last.2.1, last.2.2⟩
          else ⟨.noerr, .func (some f) list.2.1, last.2.1, last.2.2⟩
  else ⟨.expctopen, .null, next.2.1, next.2.2⟩

/-- Parse operands with an operator between them, with the node so far. `crule_parseorexpr`,
`crule_parseandexpr`. -/
def parseChain (op : CruleToken) (arg2 : Bool) (missing : Errcode) (operand : CruleToken → Str → Parsed) :
    ℕ → Node → CruleToken → Str → Parsed
  | 0, root, tok, s => ⟨.fuel, root, tok, s⟩
  | n + 1, root, tok, s =>
    let p := operand tok s
    if p.err = .noerr ∧ p.tok = op then
      let ptr := Node.andor (if root.isNull then p.node else root.setArg1 p.node) .unset arg2
      let next := gettoken none p.rest
      if next.1 ≠ .noerr then ⟨next.1, ptr, next.2.1, next.2.2⟩
      else parseChain op arg2 missing operand n ptr next.2.1 next.2.2
    else if root.isNull then p
    else if p.node.isNull then { p with err := missing, node := root.setArg1 .null }
    else { p with node := root.setArg1 p.node }

/-- Parse an and expression. `crule_parseandexpr`. -/
def parseandexpr (primary : CruleToken → Str → Parsed) (n : ℕ) (tok : CruleToken) (s : Str) : Parsed :=
  parseChain .and false .expctprim primary n .null tok s

/-- Parse an or expression. `crule_parseorexpr`. -/
def parseorexpr (primary : CruleToken → Str → Parsed) (n : ℕ) (tok : CruleToken) (s : Str) : Parsed :=
  parseChain .or true .expctand (parseandexpr primary n) n .null tok s

/-- Parse a primary expression, behind no `!` or behind one. `crule_parseprimary`. -/
def parseprimary : ℕ → Bool → CruleToken → Str → Parsed
  | 0, _, tok, s => ⟨.fuel, .null, tok, s⟩
  | n + 1, _, .openparen, s =>
    let next := gettoken none s
    if next.1 ≠ .noerr then ⟨next.1, .null, next.2.1, next.2.2⟩
    else
      let p := parseorexpr (parseprimary n true) n next.2.1 next.2.2
      if p.err ≠ .noerr then p
      else if p.node.isNull then { p with err := .expctand }
      else if p.tok ≠ .closeparen then { p with err := .expctclose }
      else
        let last := gettoken none p.rest
        ⟨last.1, p.node, last.2.1, last.2.2⟩
  | n + 1, _, .not, s =>
    let next := gettoken none s
    if next.1 ≠ .noerr then ⟨next.1, .not .null, next.2.1, next.2.2⟩
    else
      let p := parseprimary n false next.2.1 next.2.2
      { p with node := .not p.node }
  | n + 1, _, .word, s => parsefunction n s
  | _ + 1, first, tok, s => ⟨if first then .noerr else .expctprim, .null, tok, s⟩

/-- Parse a rule, with a bound for the recursion. `crule_parse`. -/
def parseRule (n : ℕ) (rule : Str) : Errcode × Node :=
  let next := gettoken none rule
  if next.1 ≠ .noerr then (next.1, .null)
  else
    let p := parseorexpr (parseprimary n true) n next.2.1 next.2.2
    if p.err ≠ .noerr then (p.err, p.node)
    else if p.node.isNull then (.expctor, p.node)
    else if p.tok = .endOfInput then (.noerr, p.node)
    else (.unexpcttok, p.node)

/-- Parse an entire rule. `crule_parse`. -/
def parse (rule : Str) : Option Node :=
  let p := parseRule (2 * rule.length + 4) rule
  if p.1 = .noerr then some p.2 else none

/-! ## Evaluation -/

/-- A client, as a rule sees it. `client.h` `struct Client`. -/
structure Client where
  isServer : Bool
  isMe : Bool
  isAnOper : Bool
  name : Str
  /-- `cli_name(cli_from)`. -/
  fromName : Str

/-- The clients; a text matches a mask or not. `crule_connected`. -/
structure Clients where
  isMatch : Str → Str → Bool
  globalClientList : List Client
  /-- `LocalClientArray`, up to `HighestFd`. -/
  localClientArray : List (Option Client)

/-- A rule function is called. `crule_connected`, `crule_directcon`, `crule_via`, `crule_directop`. -/
def Func.call (clients : Clients) : Func → List Str → Bool
  | .connected, args => clients.globalClientList.any fun c =>
    !(!c.isServer && c.isMe) && clients.isMatch (args.getD 0 []) c.name
  | .directcon, args => clients.localClientArray.any fun c =>
    c.any fun c => c.isServer && clients.isMatch (args.getD 0 []) c.name
  | .via, args => clients.globalClientList.any fun c =>
    !(!c.isServer && c.isMe) && clients.isMatch (args.getD 1 []) c.name &&
      clients.isMatch (args.getD 0 []) c.fromName
  | .directop, _ => clients.localClientArray.any fun c => c.any (·.isAnOper)

/-- Evaluate a connection rule; a null pointer has no value. `crule_eval`, `crule__andor`, `crule__not`. -/
def eval (clients : Clients) : Node → Option Bool
  | .null | .unset => none
  | .andor arg0 arg1 arg2 =>
    (eval clients arg0).bind fun result1 => if result1 = arg2 then some result1 else eval clients arg1
  | .not arg0 => (eval clients arg0).map (!·)
  | .func none _ => none
  | .func (some f) args => some (f.call clients args)

end Nefarious.Crule
