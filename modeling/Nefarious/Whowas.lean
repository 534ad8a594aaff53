import Nefarious.Lib.Deque
import Nefarious.Lib.Hlist
import Nefarious.Strings

/-!
# The WHOWAS history

The entries of the history stand in a list from the newest to the oldest one, each in a hash chain, and those of
a client that is online in a list of the client. A step is undefined when it uses memory that is not allocated.

Names: `whowas.c`.
-/

namespace Nefarious.History

open Function (update)

open Lib

/-! ## The source functions -/

abbrev Ptr := ℕ

abbrev Client := ℕ

/-- Size of whowas hash table. `whowas.h`. -/
def wwMax : ℕ := 128

/-- One character in the hash value. `hash_whowas_name`. -/
def hashStep (h : ℕ × ℕ) (c : Char) : ℕ × ℕ :=
  let lower := (toLower c).toNat % 256
  (((h.1 <<< 1) + lower) % 2 ^ 32, ((h.2 >>> 1) + lower) % 2 ^ 32)

/-- Calculate a hash value for a string. Of an empty one the bytes `past` it are read. -/
def hashWhowasName (past : Str) (name : Str) : ℕ :=
  let h := (if name = [] then Char.ofNat 0 :: past else name).foldl hashStep (0, 0)
  ((h.1 &&& 15) <<< 3) + (h.2 &&& 7)

/-- An entry, less its links. `whowas.h` `struct Whowas`. -/
structure Whowas where
  hashv : ℕ
  name : Str
  logoff : ℤ
  /-- Needed for get_history() (nick chasing). -/
  online : Option Client
  deriving Inhabited

/-- The history and its clients. `wwList`, `whowashash`. -/
structure State where
  whowas : Ptr → Whowas
  /-- `whowashash`, `hnext` and `hprevnextp`. -/
  hash : Hlist.Links ℕ Ptr
  /-- `cli_whowas`, `cnext` and `cprevnextp`. -/
  own : Hlist.Links Client Ptr
  /-- `wnext` and `wprev`. -/
  links : Ptr → Dll.Links Ptr
  ww_list : Option Ptr
  /-- Tail of list for getting structures. -/
  ww_tail : Option Ptr
  ww_alloc : ℕ
  blocks : List Ptr
  live : List Client
  off : List Client
  cli_name : Client → Str
  currentTime : ℤ
  historyLength : ℤ
  /-- The name and the time of all that was added, newest first. -/
  log : List (Str × ℤ)

/-- The length as it is compared with the count, which is unsigned. `whowas_alloc`. -/
def State.limit (s : State) : ℕ := (s.historyLength % 2 ^ 32).toNat

/-- A link can be written when its place is allocated. -/
def writable {β : Type} (heads : β → Bool) (blocks : List Ptr) : Hlist.Loc β Ptr → Bool
  | .head b => heads b
  | .next x => x ∈ blocks

/-- Unlink an entry from the list that it is in. `whowas_clean`. -/
def unlinkFrom {β : Type} [DecidableEq β] (heads : β → Bool) (blocks : List Ptr)
    (h : Hlist.Links β Ptr) (ww : Ptr) : Option (Hlist.Links β Ptr) :=
  if (h.next ww).all (· ∈ blocks) ∧ (h.prevp ww).any (writable heads blocks) then h.unlink ww else none

/-- Link an entry at the front of a list. `add_history`. -/
def linkTo {β : Type} [DecidableEq β] (heads : β → Bool) (blocks : List Ptr)
    (h : Hlist.Links β Ptr) (b : β) (ww : Ptr) : Option (Hlist.Links β Ptr) :=
  if heads b ∧ (h.head b).all (· ∈ blocks) then some (h.push b ww) else none

/-- Unlink an entry from its client. `whowas_clean`. -/
def State.unlinkOnline (s : State) (ww : Ptr) : Option (Hlist.Links Client Ptr) :=
  if (s.whowas ww).online.isSome then unlinkFrom (· ∈ s.live) s.blocks s.own ww else some s.own

/-- Unlink an entry; the list keeps its head. -/
def whowasClean (s : State) (ww : Ptr) : Option State := do
  let own ← s.unlinkOnline ww
  let hash ← unlinkFrom (· < wwMax) s.blocks s.hash ww
  if ww ∈ s.blocks ∧ (s.links ww).next.all (· ∈ s.blocks) ∧ (s.links ww).prev.all (· ∈ s.blocks) then
    some { s with
      own := own
      hash := hash
      links := (Dll.unlink s.links s.ww_list ww).1
      ww_tail := Dll.cutBottom s.links s.ww_tail ww }
  else none

def whowasFree (s : State) (ww : Ptr) : Option State := do
  let s ← whowasClean s ww
  some { s with blocks := s.blocks.erase ww, ww_alloc := s.ww_alloc - 1 }

/-- `memset` of an entry. `whowas_alloc`. -/
def State.zero (s : State) (ww : Ptr) : State :=
  { s with
    whowas := update s.whowas ww default
    hash := { s.hash with
      next := update s.hash.next ww none, prevp := update s.hash.prevp ww none }
    own := { s.own with
      next := update s.own.next ww none, prevp := update s.own.prevp ww none }
    links := update s.links ww ⟨none, none⟩ }

/-- Return a fresh entry: a new one, or the oldest one in use, which the history must have. -/
def whowasAlloc (s : State) (fresh : Ptr) : Option (State × Ptr) :=
  if s.limit ≤ s.ww_alloc then do
    let ww ← s.ww_tail
    let s ← whowasClean s ww
    some (s.zero ww, ww)
  else
    some ({ s with ww_alloc := s.ww_alloc + 1, blocks := fresh :: s.blocks }.zero fresh, fresh)

def whowasRealloc : ℕ → State → Option State
  | 0, _ => none
  | n + 1, s =>
    if s.limit < s.ww_alloc then
      match s.ww_tail with
      | none => some s
      | some ww => (whowasFree s ww).bind (whowasRealloc n)
    else some s

/-- Fill in an entry. `add_history`. -/
def State.fill (s : State) (cptr : Client) (still_on : Bool) (ww : Ptr) : State :=
  { s with
    whowas := update s.whowas ww
      { hashv := hashWhowasName [] (s.cli_name cptr), name := s.cli_name cptr
        logoff := s.currentTime, online := if still_on then some cptr else none }
    log := (s.cli_name cptr, s.currentTime) :: s.log }

/-- Link an entry to its client. `add_history`. -/
def State.linkOnline (s : State) (ww : Ptr) : Option (Hlist.Links Client Ptr) :=
  match (s.whowas ww).online with
  | some cptr => linkTo (· ∈ s.live) s.blocks s.own cptr ww
  | none => some s.own

/-- Link an entry that is filled in. `add_history`. -/
def State.link (s : State) (ww : Ptr) : Option State := do
  let own ← s.linkOnline ww
  let hash ← linkTo (· < wwMax) s.blocks s.hash (s.whowas ww).hashv ww
  if s.ww_list.all (· ∈ s.blocks) then
    some { s with
      own := own
      hash := hash
      links := (Dll.push s.links s.ww_list ww).1
      ww_list := some ww
      ww_tail := Dll.pushBottom s.ww_tail ww }
  else none

def addHistory (s : State) (cptr : Client) (still_on : Bool) (fresh : Ptr) : Option State := do
  let (s, ww) ← whowasAlloc s fresh
  (s.fill cptr still_on ww).link ww

/-- Clear the online pointers from an entry on. -/
def offHistory : ℕ → State → Option Ptr → Option State
  | 0, _, _ => none
  | _ + 1, s, none => some s
  | n + 1, s, some temp =>
    if temp ∈ s.blocks then
      let ww := { s.whowas temp with online := none }
      offHistory n { s with whowas := update s.whowas temp ww } (s.own.next temp)
    else none

/-- Find a client who has recently used a nickname, from an entry on. -/
def getHistory (s : State) (nick : Str) (timelimit : ℤ) : ℕ → Option Ptr → Option (Option Client)
  | 0, _ => none
  | _ + 1, none => some none
  | n + 1, some temp =>
    if temp ∈ s.blocks then
      if ircdStrcmp nick (s.whowas temp).name = 0 ∧ s.currentTime - timelimit < (s.whowas temp).logoff then
        some (s.whowas temp).online
      else getHistory s nick timelimit n (s.hash.next temp)
    else none

/-! ## The system -/

/-- The server is started; the memory of the entries and of the clients is arbitrary. `initwhowas`;
`ircd_features.c` `features` -/
def State.start (whowas : Ptr → Whowas) (hnext : Ptr → Option Ptr)
    (hprevp : Ptr → Option (Hlist.Loc ℕ Ptr)) (own : Hlist.Links Client Ptr)
    (links : Ptr → Dll.Links Ptr) (cli_name : Client → Str) (now : ℤ) : State where
  whowas := whowas
  hash := ⟨fun _ => none, hnext, hprevp⟩
  own := own
  links := links
  ww_list := none
  ww_tail := none
  ww_alloc := 0
  blocks := []
  live := []
  off := []
  cli_name := cli_name
  currentTime := now
  historyLength := 800
  log := []

/-- What happens. -/
inductive Event
  | time (now : ℤ)
  /-- A client is allocated. `list.c` `make_client`. -/
  | makeClient (cptr : Client)
  /-- A client's name is written. `s_user.c` `set_nick_name`. -/
  | setName (cptr : Client) (name : Str)
  | addHistory (cptr : Client) (still_on : Bool) (fresh : Ptr)
  | offHistory (cptr : Client)
  /-- A client is freed. `list.c` `free_client`. -/
  | freeClient (cptr : Client)
  | getHistory (past : Str) (nick : Str) (timelimit : ℤ)
  /-- The length is set, and the list trimmed. `ircd_features.c` `feature_set`. -/
  | setLength (length : ℤ)

/-- What the callers keep to: the client of an entry has a name; a client goes offline once, does not change its
nickname any more then, and is not freed before, if it has a list. New memory is not in use. `list.c`
`remove_client_from_list`. -/
def State.allowed (s : State) : Event → Bool
  | .makeClient c => c ∉ s.live
  | .setName c n => c ∈ s.live ∧ n ≠ []
  | .addHistory c still_on fresh =>
    c ∈ s.live ∧ s.cli_name c ≠ [] ∧ (still_on → c ∉ s.off) ∧ fresh ∉ s.blocks
  | .offHistory c => c ∈ s.live ∧ c ∉ s.off
  | .freeClient c => c ∈ s.live ∧ (c ∈ s.off ∨ s.own.head c = none)
  | .setLength n => -2 ^ 31 ≤ n ∧ n < 2 ^ 31
  | _ => true

/-- When the history can do it: an entry is added when there is room, or when there are two; the length is at
least one, or zero and there is no entry. `whowas_clean`. -/
def State.fits (s : State) : Event → Bool
  | .addHistory .. => s.ww_alloc < s.limit ∨ 2 ≤ s.ww_alloc
  | .setLength n => 1 ≤ n ∨ n = 0 ∧ s.ww_alloc = 0
  | _ => true

def State.step (s : State) : Event → Option State
  | .time now => some { s with currentTime := now }
  | .makeClient c => some { s with
      live := c :: s.live, own := s.own.write (.head c) none
      cli_name := update s.cli_name c [] }
  | .setName c n => some { s with cli_name := update s.cli_name c n }
  | .addHistory c still_on fresh => History.addHistory s c still_on fresh
  | .offHistory c => do
      let s ← History.offHistory (s.blocks.length + 1) s (s.own.head c)
      some { s with off := c :: s.off }
  | .freeClient c => some { s with live := s.live.filter (· ≠ c), off := s.off.filter (· ≠ c) }
  | .getHistory past nick timelimit => do
      let _ ← History.getHistory s nick timelimit (s.blocks.length + 1)
        (s.hash.head (hashWhowasName past nick))
      some s
  | .setLength n => whowasRealloc (s.ww_alloc + 1) { s with historyLength := n }

def State.run (s : State) : List Event → Option State
  | [] => some s
  | e :: es => (s.step e).bind (·.run es)

/-- Every step of a run meets a condition. -/
def State.Meets (cond : State → Event → Bool) (s : State) : List Event → Prop
  | [] => True
  | e :: es => cond s e = true ∧ ∀ t, s.step e = some t → t.Meets cond es

instance State.decidableMeets (cond : State → Event → Bool) :
    (es : List Event) → (s : State) → Decidable (s.Meets cond es)
  | [], _ => isTrue trivial
  | e :: es, s =>
    match h : s.step e with
    | none => decidable_of_iff (cond s e = true) ⟨fun hc => ⟨hc, fun t ht => by cases h.symm.trans ht⟩,
        And.left⟩
    | some t =>
      have := State.decidableMeets cond es t
      decidable_of_iff (cond s e = true ∧ t.Meets cond es)
        ⟨fun ⟨hc, ht⟩ => ⟨hc, fun u hu => by cases h.symm.trans hu; exact ht⟩,
          fun ⟨hc, ht⟩ => ⟨hc, ht t h⟩⟩

end Nefarious.History
