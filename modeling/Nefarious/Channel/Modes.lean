import Nefarious.Message
import Mathlib.Data.Finset.Lattice.Basic
import Mathlib.Data.Finset.SDiff
import Mathlib.Data.Finset.Erase

/-!
# Channels and their modes

The data of `struct Channel` that modes change: the simple and the extended modes (sets of flags, as the source
has them in two bit masks), the modes with a parameter, the members with their status, and the two lists of
masks.

Names: `channel.h`.
-/

namespace Nefarious.Channel

def channelLen : ℕ := 200

def keyLen : ℕ := 23

/-- Most modes with a parameter in a mode buffer. -/
def maxModeParams : ℕ := 6

def maxOpLevel : ℕ := 999

/-- The bits of `mode.mode` and of the two masks of a mode buffer. `MODE_PRIVATE` … `MODE_REDIRECT` -/
inductive ModeFlag
  | priv
  | secret
  | moderated
  | topiclimit
  | inviteonly
  | noprivmsgs
  | limit
  | regonly
  | deljoins
  | registered
  | burstadded
  | wasdeljoins
  | redirect
  deriving DecidableEq

/-- The bits of `mode.exmode`. `EXMODE_ADMINONLY` … `EXMODE_STRIPCOLOR`. -/
inductive ExMode
  | adminonly
  | operonly
  | regmoderated
  | nonotices
  | persist
  | sslonly
  | noquitparts
  | noctcps
  | nomultitarg
  | nocolor
  | stripcolor
  deriving DecidableEq

/-- The direction of a change. `MODE_ADD`, `MODE_DEL`. -/
inductive Dir
  | add
  | del
  deriving DecidableEq

def Dir.flip : Dir → Dir
  | .add => .del
  | .del => .add

/-- The modes of a member. `MODE_CHANOP`, `MODE_HALFOP`, `MODE_VOICE`. -/
inductive ClientMode
  | chanop
  | halfop
  | voice
  deriving DecidableEq

/-- The modes with a string. `MODE_KEY` … `MODE_REDIRECT`. -/
inductive StringMode
  | key
  | ban
  | except
  | apass
  | upass
  | redirect
  deriving DecidableEq

/-- The letter of a member's mode. `modebuf_flush_int`. -/
def ClientMode.letter : ClientMode → Char
  | .chanop => 'o'
  | .halfop => 'h'
  | .voice => 'v'

/-- The letter of a mode with a string. `modebuf_flush_int`. -/
def StringMode.letter : StringMode → Char
  | .key => 'k'
  | .ban => 'b'
  | .except => 'e'
  | .apass => 'A'
  | .upass => 'U'
  | .redirect => 'L'

/-- The letters of the simple modes, in the order in which they are printed. `modebuf_flush_int` (`flags`) -/
def flagLetters : List (ModeFlag × Char) :=
  [(.priv, 'p'), (.secret, 's'), (.moderated, 'm'), (.topiclimit, 't'), (.inviteonly, 'i'),
    (.noprivmsgs, 'n'), (.regonly, 'r'), (.deljoins, 'D'), (.registered, 'R'), (.limit, 'l'),
    (.redirect, 'L')]

/-- The letters of the extended modes, in the order in which they are printed. `modebuf_flush_int` (`exflags`)
-/
def exLetters : List (ExMode × Char) :=
  [(.adminonly, 'a'), (.operonly, 'O'), (.regmoderated, 'M'), (.nonotices, 'N'), (.persist, 'z'),
    (.sslonly, 'Z'), (.noquitparts, 'Q'), (.noctcps, 'C'), (.nomultitarg, 'T'), (.nocolor, 'c'),
    (.stripcolor, 'S')]

/-- A string argument: a key, a password, a mask or a channel name. `is_clean_key`, `mode_parse_redir`,
`pretty_mask` -/
structure ModeString where
  text : Str
  len : text.length ≤ channelLen
  word : IsWord text
  deriving DecidableEq

/-- The status bits of a member. `CHFL_CHANOP` … `CHFL_HALFOP`. -/
inductive Chfl
  | chanop
  | voice
  | deopped
  | zombie
  | burstJoined
  | burstAlreadyOpped
  | burstAlreadyVoiced
  | channelManager
  | delayed
  | burstAlreadyHalfopped
  | halfop
  deriving DecidableEq

/-- The status bit of a member's mode. `MODE_CHANOP`. -/
def ClientMode.chfl : ClientMode → Chfl
  | .chanop => .chanop
  | .halfop => .halfop
  | .voice => .voice

/-- `struct Membership`. `struct Membership`. -/
structure Membership where
  /-- The user, by its numeric nick. -/
  user : Str
  /-- Flags for opped, voiced and so on. -/
  status : Finset Chfl
  oplevel : ℕ
  deriving DecidableEq

/-- The bits of a mask on a list. `BAN_OVERLAPPED` … `BAN_ADD`. -/
inductive BanFlag
  | overlapped
  | bursted
  | burstWipeout
  | del
  | add
  deriving DecidableEq

/-- `struct Ban`: a mask of the ban list or of the exception list. `struct Ban` -/
structure Ban where
  banstr : ModeString
  who : Str
  when : ℤ
  flags : Finset BanFlag
  deriving DecidableEq

/-- `struct Channel`, with `struct Mode`. `struct Channel`, `struct Mode` -/
structure Chan where
  chname : Str
  creationtime : ℤ
  mode : Finset ModeFlag
  exmode : Finset ExMode
  limit : UInt32
  key : Option ModeString
  /-- The user password, if there is one. -/
  upass : Option ModeString
  /-- The admin password, if there is one. -/
  apass : Option ModeString
  /-- The channel to redirect to, if there is one. -/
  redir : Option ModeString
  members : List Membership
  banlist : List Ban
  exceptlist : List Ban
  deriving DecidableEq

/-- The creation time as it is printed. `ircd_snprintf.c` (`%Tu`). -/
def Chan.ts (c : Chan) : ℕ := (c.creationtime % 2 ^ 64).toNat

def Chan.findDelayedJoins (c : Chan) : Bool := c.members.any (fun m => .delayed ∈ m.status)

/-- `+d` is cleared when no member is join-delayed any more. -/
def Chan.checkDelayedJoins (c : Chan) : Chan :=
  if .wasdeljoins ∈ c.mode ∧ ¬ c.findDelayedJoins then { c with mode := c.mode.erase .wasdeljoins }
  else c

/-- The join-delayed members are shown. -/
def Chan.showDelayedJoins (c : Chan) : Chan :=
  { c with members := c.members.map (fun m => { m with status := m.status.erase .delayed }) }

/-- The letters for which an argument is read, in each direction: a limit and a redirect have one only when they
are set. `mode_parse`, `mode_parse_limit`, `mode_parse_redir` -/
def takesArg : Dir → Char → Bool
  | .add, ch => ch ∈ "lLkAUbehov".toList
  | .del, ch => ch ∈ "kAUbehov".toList

/-- Pair the letters of a MODE line with the arguments they read; the rest of the arguments is returned. `none`
when a letter finds no argument. `mode_parse` -/
def readModes : Dir → Str → List Str → Option (List (Dir × Char × Str) × List Str)
  | _, [], args => some ([], args)
  | dir, ch :: chs, args =>
    if ch = '+' then readModes .add chs args
    else if ch = '-' then readModes .del chs args
    else if takesArg dir ch then
      match args with
      | [] => none
      | a :: args =>
        (readModes dir chs args).map (fun r => ((dir, ch, a) :: r.1, r.2))
    else readModes dir chs args

lemma readModes_cons (dir : Dir) (ch : Char) (chs : Str) (args : List Str) : readModes dir (ch :: chs) args =
      if ch = '+' then readModes .add chs args
      else if ch = '-' then readModes .del chs args
      else if takesArg dir ch then
        match args with
        | [] => none
        | a :: args => (readModes dir chs args).map (fun r => ((dir, ch, a) :: r.1, r.2))
      else readModes dir chs args := by
  rw [readModes.eq_def]

end Nefarious.Channel
