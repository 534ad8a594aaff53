import Nefarious.Channel.Modes

/-!
# The mode buffer

A `ModeBuf` accumulates the changes of one MODE command and prints them, as often as it is full and once more at
the end.

Names: `channel.c`.
-/

namespace Nefarious.Channel

/-! ## Changes and destinations -/

/-- A client as a mode buffer prints it: its name and its numeric nick. `cli_name`;
`numnicks.h` `NumNick` -/
structure ModeClient where
  /-- The nick, at most `NICKLEN` characters. -/
  name : Str
  /-- The numeric nick, at most `NUMNICKLEN` characters. -/
  numnick : Str
  name_len : name.length ≤ 30
  num_len : numnick.length ≤ 5
  num_word : IsWord numnick

/-- A mode with an argument. `channel.h` `struct ModeBuf`. -/
inductive ModeArg
  | client (mode : ClientMode) (client : ModeClient) (oplevel : ℕ)
  | uint (uint : UInt32)
  | string (mode : StringMode) (string : ModeString)

/-- The destinations of a mode buffer. `MODEBUF_DEST_SERVER` … `MODEBUF_DEST_NOKEY`. -/
structure Dest where
  server : Bool
  opmode : Bool
  deop : Bool
  bounce : Bool
  nokey : Bool
  deriving DecidableEq

/-- `struct ModeBuf`. `channel.h` `struct ModeBuf`. -/
structure ModeBuf where
  add : Finset ModeFlag
  exadd : Finset ExMode
  rem : Finset ModeFlag
  exrem : Finset ExMode
  dest : Dest
  args : List (Dir × ModeArg)

/-- What the printing reads besides the buffer: the numerics of this server and of the source, the op-level
support of the connection that is bounced to, and a feature. `modebuf_flush_int` -/
structure FlushEnv where
  me : Str
  source : ModeClient
  /-- The numeric that the source has on the line: its nick, or that of a server. -/
  from_ : Str
  /-- `IsOpLevels(mbuf->mb_connect)`. -/
  connectOplevels : Bool
  joinOnRemovedelay : Bool
  me_word : IsWord me
  from_word : IsWord from_

/-! ## Printing -/

/-- The letter of a mode with an argument. `modebuf_flush_int`. -/
def ModeArg.letter : ModeArg → Char
  | .client m _ _ => m.letter
  | .uint _ => 'l'
  | .string m _ => m.letter

/-- The room that the argument of a change is reckoned to take. `modebuf_flush_int` (`tmp`) -/
def ModeArg.room (nokey : Bool) : ModeArg → ℕ
  | .client _ c _ => max 9 c.name.length
  | .uint n => (digits n.toNat).length
  | .string .key s => if nokey then 1 else s.text.length
  | .string _ s => s.text.length

/-- The letters of the simple modes of one direction; a mode that is added is not removed. `modebuf_flush_int` ("Calculate the simple flags") -/
def simpleLetters (mb : ModeBuf) : Dir → Str
  | .add => ((flagLetters.filter (fun f => f.1 ∈ mb.add)).map (·.2)) ++
      ((exLetters.filter (fun f => f.1 ∈ mb.exadd)).map (·.2))
  | .del => ((flagLetters.filter (fun f => f.1 ∉ mb.add ∧ f.1 ∈ mb.rem)).map (·.2)) ++
      ((exLetters.filter (fun f => f.1 ∉ mb.exadd ∧ f.1 ∈ mb.exrem)).map (·.2))

/-- Which changes are printed and which are saved for later, from the room that is left. `modebuf_flush_int` ("Now go through the modes with arguments") -/
def partitionArgs (nokey : Bool) : ℕ → List (Dir × ModeArg) → List (Dir × ModeArg) × List (Dir × ModeArg)
  | _, [] => ([], [])
  | totalbuflen, (dir, a) :: args =>
    if totalbuflen ≤ a.room nokey then
      let (kept, saved) := partitionArgs nokey totalbuflen args
      (kept, (dir, a) :: saved)
    else
      let (kept, saved) := partitionArgs nokey (totalbuflen - (a.room nokey + 1)) args
      ((dir, a) :: kept, saved)

/-- The text of the last limit, which every limit is printed with. `modebuf_flush_int` (`limitbuf`) -/
def limitbuf (args : List (Dir × ModeArg)) : Str :=
  args.foldl (fun buf a => match a.2 with
    | .uint n => digits n.toNat
    | _ => buf) []

/-- The argument that is printed for a change, if one is. `oplevels` says whether the line is for a server that
knows op-levels. `modebuf_flush_int` ("set up parameter string") -/
def argText (bounce oplevels : Bool) (limit : Str) : Dir × ModeArg → Option Str
  | (dir, .client .chanop c oplevel) =>
    if oplevel < maxOpLevel ∧ (oplevels ∨ dir = .del) then
      some (c.numnick ++ ':' :: digits oplevel)
    else some c.numnick
  | (_, .client _ c _) => some c.numnick
  | (dir, .string .redirect s) =>
    if dir = (if bounce then .del else .add) then some s.text else none
  | (_, .string _ s) => some s.text
  | (dir, .uint _) => if dir = (if bounce then .del else .add) then some limit else none

/-- The arguments of the changes in one direction. `modebuf_flush_int` (`addstr`, `addstro`, `remstr`). -/
def argTexts (bounce oplevels : Bool) (limit : Str) (dir : Dir) (args : List (Dir × ModeArg)) :
    List Str :=
  (args.filter (fun a => a.1 = dir)).filterMap (argText bounce oplevels limit)

/-- The letters of the changes in one direction. `modebuf_flush_int` (`addbuf`, `rembuf`). -/
def argLetters (dir : Dir) (args : List (Dir × ModeArg)) : Str :=
  (args.filter (fun a => a.1 = dir)).map (·.2.letter)

/-- Letters behind their sign, if there are any. `modebuf_flush_int`. -/
def signed (sign : Char) (letters : Str) : Str := if letters = [] then [] else sign :: letters

/-- A line for servers: whether it is an OPMODE, and its text. `modebuf_flush_int` -/
structure ServerLine where
  opmode : Bool
  text : Str

/-- The text of a MODE line: source, token, channel, letters and arguments, the last of which is the timestamp.
`modebuf_flush_int` (`"%H %s%s%s%s%s%s %Tu"`) -/
def modeText (source token chname letters : Str) (args : List Str) : Str :=
  source ++ spaced [token] ++ (spaced [chname] ++ ' ' :: letters ++ spaced args)

/-- Going `-D` with hidden members sets `+d`, or shows them. `modebuf_flush_int` ("Must be set if going
-D") -/
def flushRemDelJoins (joinOnRemovedelay : Bool) (ch : Chan) (mb : ModeBuf) : Chan × ModeBuf :=
  if .deljoins ∈ mb.rem ∧ .deljoins ∉ ch.mode ∧ .wasdeljoins ∉ ch.mode then
    if !joinOnRemovedelay ∧ ch.findDelayedJoins then
      ({ ch with mode := insert .wasdeljoins ch.mode },
        { mb with add := insert .wasdeljoins mb.add, rem := mb.rem.erase .wasdeljoins })
    else (ch.showDelayedJoins, mb)
  else (ch, mb)

/-- `+d` is cleared if `+D` is set. `modebuf_flush_int` ("+d must be cleared if +D is set") -/
def flushAddDelJoins (ch : Chan) (mb : ModeBuf) : Chan × ModeBuf :=
  if .deljoins ∈ mb.add ∧ .wasdeljoins ∈ ch.mode then
    ({ ch with mode := ch.mode.erase .wasdeljoins },
      { mb with add := mb.add.erase .wasdeljoins, rem := insert .wasdeljoins mb.rem })
  else (ch, mb)

/-- The handling of delayed joins, before the letters are printed. `modebuf_flush_int` -/
def flushDelJoins (joinOnRemovedelay : Bool) (ch : Chan) (mb : ModeBuf) : Chan × ModeBuf :=
  let (ch, mb) := flushRemDelJoins joinOnRemovedelay ch mb
  flushAddDelJoins ch mb

/-- Whether nothing is in the buffer. `modebuf_flush_int`. -/
def ModeBuf.isEmpty (mb : ModeBuf) : Bool :=
  mb.add = ∅ ∧ mb.rem = ∅ ∧ mb.exadd = ∅ ∧ mb.exrem = ∅ ∧ mb.args.isEmpty

/-- The room for arguments on a line. `modebuf_flush_int` (`totalbuflen`). -/
def totalbuflen (deop : Bool) : ℕ := bufSize - 200 - (if deop then 6 else 0)

/-- The letters to remove. `modebuf_flush_int` (`rembuf`). -/
def rembuf (mb : ModeBuf) (kept : List (Dir × ModeArg)) : Str :=
  simpleLetters mb .del ++ argLetters .del kept

/-- The letters to add, with the deop of the source, whose sense is reversed. `modebuf_flush_int` (`addbuf`) -/
def addbuf (mb : ModeBuf) (kept : List (Dir × ModeArg)) : Str :=
  simpleLetters mb .add ++ argLetters .add kept ++ (if mb.dest.deop then ['o'] else [])

/-- The arguments to remove. `modebuf_flush_int` (`remstr`). -/
def remstr (mb : ModeBuf) (kept : List (Dir × ModeArg)) (oplevels : Bool) : List Str :=
  argTexts mb.dest.bounce oplevels (limitbuf mb.args) .del kept

/-- The arguments to add. `modebuf_flush_int` (`addstr`, `addstro`). -/
def addstr (env : FlushEnv) (mb : ModeBuf) (kept : List (Dir × ModeArg)) (oplevels : Bool) :
    List Str :=
  argTexts mb.dest.bounce oplevels (limitbuf mb.args) .add kept ++
    (if mb.dest.deop then [env.source.numnick] else [])

/-- The line for servers that know op-levels, or for the others. In a bounce the directions are exchanged and
the origin is this server. `modebuf_flush_int` ("Now are we supposed to propagate to other servers?") -/
def serverText (env : FlushEnv) (ch : Chan) (mb : ModeBuf) (kept : List (Dir × ModeArg))
    (oplevels : Bool) : Str :=
  if mb.dest.opmode then
    modeText env.from_ "OM".toList ch.chname
      (signed '-' (rembuf mb kept) ++ signed '+' (addbuf mb kept))
      (remstr mb kept oplevels ++ addstr env mb kept oplevels)
  else if mb.dest.bounce then
    modeText env.me "M".toList ch.chname
      (signed '-' (addbuf mb kept) ++ signed '+' (rembuf mb kept))
      (addstr env mb kept oplevels ++ remstr mb kept oplevels ++ [digits ch.ts])
  else
    modeText env.from_ "M".toList ch.chname
      (signed '-' (rembuf mb kept) ++ signed '+' (addbuf mb kept))
      (remstr mb kept oplevels ++ addstr env mb kept oplevels ++ [digits ch.ts])

/-- The kinds of servers that get a line: a bounce goes to one connection, the others to those with and those
without op-levels. `modebuf_flush_int` -/
def lineKinds (env : FlushEnv) (d : Dest) : List Bool :=
  if d.server then
    if d.bounce ∧ ¬ d.opmode then [env.connectOplevels] else [true, false]
  else []

/-- A removal of ops with an op-level, for which the text for servers without op-levels is written through a
null pointer. `modebuf_flush_int` (`strptro = NULL`) -/
def nullText : Dir × ModeArg → Bool
  | (.del, .client .chanop _ oplevel) => oplevel < maxOpLevel
  | _ => false

/-- One pass of the printing. `none` is a write through a null pointer. `modebuf_flush_int` -/
def modebufFlushOnce (env : FlushEnv) (ch : Chan) (mb : ModeBuf) : Option (Chan × ModeBuf × List ServerLine) :=
  if mb.isEmpty then some (ch, mb, [])
  else
    let (ch, mb) := flushDelJoins env.joinOnRemovedelay ch mb
    let (kept, saved) := partitionArgs mb.dest.nokey (totalbuflen mb.dest.deop) mb.args
    if mb.dest.server ∧ kept.any nullText then none
    else
      some (ch, { add := ∅, exadd := ∅, rem := ∅, exrem := ∅, args := saved,
                  dest := { mb.dest with deop := mb.dest.deop && !mb.dest.server } },
        (lineKinds env mb.dest).map
          (fun oplevels => ⟨mb.dest.opmode, msgqMake (serverText env ch mb kept oplevels)⟩))

/-- Print the buffer; with `all`, until nothing is saved. Each pass prints the first change, so the number of
changes bounds the passes. -/
def modebufFlushInt (env : FlushEnv) (all : Bool) :
    ℕ → Chan → ModeBuf → Option (Chan × ModeBuf × List ServerLine)
  | 0, ch, mb => some (ch, mb, [])
  | n + 1, ch, mb => do
      let (ch, mb, lines) ← modebufFlushOnce env ch mb
      if all ∧ ¬ mb.args.isEmpty then do
        let (ch, mb, lines') ← modebufFlushInt env all n ch mb
        some (ch, mb, lines ++ lines')
      else some (ch, mb, lines)

/-! ## Accumulating -/

/-- Initialise a mode buffer; a local channel is not sent to servers. -/
def modebufInit (chname : Str) (dest : Dest) : ModeBuf :=
  { add := ∅, exadd := ∅, rem := ∅, exrem := ∅, args := [],
    dest := { dest with server := dest.server && chname.head? ≠ some '&' } }

/-- The flags that `modebuf_mode` takes. -/
def modebufFlags : Finset ModeFlag :=
  {.priv, .secret, .moderated, .topiclimit, .inviteonly, .noprivmsgs, .regonly, .deljoins,
    .wasdeljoins, .registered}

def modebufMode (mb : ModeBuf) (dir : Dir) (mode : Finset ModeFlag) : ModeBuf :=
  let mode := mode ∩ modebufFlags
  match dir with
  | .add => { mb with rem := mb.rem \ mode, add := mb.add ∪ mode }
  | .del => { mb with add := mb.add \ mode, rem := mb.rem ∪ mode }

def modebufExmode (mb : ModeBuf) (dir : Dir) (mode : Finset ExMode) : ModeBuf :=
  match dir with
  | .add => { mb with exrem := mb.exrem \ mode, exadd := mb.exadd ∪ mode }
  | .del => { mb with exadd := mb.exadd \ mode, exrem := mb.exrem ∪ mode }

/-- Append a mode that takes an argument, and print when the maximal count is reached. The removal of a limit or
of a redirect needs no argument and goes to the simple modes. `modebuf_mode_uint`, `modebuf_mode_string`,
`modebuf_mode_client` -/
def modebufArg (env : FlushEnv) (ch : Chan) (mb : ModeBuf) (dir : Dir) (a : ModeArg) :
    Option (Chan × ModeBuf × List ServerLine) :=
  match dir, a with
  | .del, .uint _ => some (ch, { mb with rem := insert .limit mb.rem }, [])
  | .del, .string .redirect _ => some (ch, { mb with rem := insert .redirect mb.rem }, [])
  | dir, a =>
    let mb := { mb with args := mb.args ++ [(dir, a)] }
    if maxModeParams - (if mb.dest.deop then 1 else 0) ≤ mb.args.length then
      modebufFlushInt env false 1 ch mb
    else some (ch, mb, [])

def modebufFlush (env : FlushEnv) (ch : Chan) (mb : ModeBuf) : Option (Chan × ModeBuf × List ServerLine) :=
  modebufFlushInt env true (mb.args.length + 1) ch mb

/-- What happens to a mode buffer: the calls, and between them a change of its destination or of the channel,
whose name stays. `modebuf_mode` … `modebuf_flush`, `mode_parse` -/
inductive Call
  | mode (dir : Dir) (mode : Finset ModeFlag)
  | exmode (dir : Dir) (mode : Finset ExMode)
  | arg (dir : Dir) (arg : ModeArg)
  | flush
  | dest (dest : Dest)
  | chan (chan : Chan)

/-- One call. `modebuf_mode` … `modebuf_flush`. -/
def Call.run (env : FlushEnv) (ch : Chan) (mb : ModeBuf) : Call → Option (Chan × ModeBuf × List ServerLine)
  | .mode dir m => some (ch, modebufMode mb dir m, [])
  | .exmode dir m => some (ch, modebufExmode mb dir m, [])
  | .arg dir a => modebufArg env ch mb dir a
  | .flush => modebufFlush env ch mb
  | .dest d => some (ch, { mb with dest := d }, [])
  | .chan c => some ({ c with chname := ch.chname }, mb, [])

/-- A sequence of calls, with the lines for servers in the order in which they are sent. `modebuf_mode` …
`modebuf_flush` -/
def runCalls (env : FlushEnv) : Chan → ModeBuf → List Call → Option (Chan × ModeBuf × List ServerLine)
  | ch, mb, [] => some (ch, mb, [])
  | ch, mb, c :: calls => do
      let (ch, mb, lines) ← c.run env ch mb
      let (ch, mb, lines') ← runCalls env ch mb calls
      some (ch, mb, lines ++ lines')

end Nefarious.Channel
