import Nefarious.Channel.ModeBuf

/-!
# Parsing a mode change

`modeParse` is `mode_parse` of `channel.c`: it walks over the letters of a MODE line, reads an argument for some
of them, and puts the changes into a mode buffer. Replies to the user and what is shown to the channel are not
modelled.

Names: `channel.c`.
-/

namespace Nefarious.Channel

/-! ## What the parsing reads -/

/-- A user that a MODE line names. `mode_process_clients`. -/
structure ModeUser extends ModeClient where
  channelService : Bool
  /-- `IsService` of its server. -/
  onService : Bool
  deopLchan : Bool

/-- The source of the change. `mode_parse` (`sptr`). -/
structure ModeSource where
  myUser : Bool
  isServer : Bool
  numnick : Str
  name : Str
  isOper : Bool
  isAnOper : Bool
  isAdmin : Bool
  isSsl : Bool
  channelService : Bool
  xtraOp : Bool
  apassOpmode : Bool
  isBurst : Bool
  /-- `IsService` of the source, or of its server. -/
  isService : Bool

/-- The features that the parsing reads. `ircd_features.h`. -/
structure Features where
  /-- `FEAT_CHMODE_a` … `FEAT_CHMODE_Z`, by letter. -/
  chmode : Char → Bool
  chmodeZStrict : Bool
  oplevels : Bool
  excepts : Bool
  halfops : Bool
  halfopDehalfopSelf : Bool
  allowOplevelChange : Bool
  avbanlen : ℤ
  maxbans : ℤ
  avexceptlen : ℤ
  maxexcepts : ℤ
  extbanJMaxperchan : ℤ

/-- Everything that the parsing reads and does not change. The handling of masks is a parameter: how a mask is
completed, which mask covers which, and what an extended mask is. `mode_parse` -/
structure ParseEnv where
  flush : FlushEnv
  sptr : ModeSource
  /-- `IsServer(cptr)`. -/
  cptrServer : Bool
  /-- `IsBurstOrBurstAck` of the server that the message came from. -/
  cptrBurst : Bool
  feat : Features
  /-- `TStime()`. -/
  now : ℤ
  nonsslusers : ℕ
  findChasing : Str → Option ModeUser
  findNUser : Str → Option ModeUser
  prettyExtmask : Str → Option ModeString
  /-- `bmatch` returns zero: the first mask covers the second. -/
  bmatch : ModeString → ModeString → Bool
  /-- `BAN_EXTENDED`. -/
  isExtended : ModeString → Bool
  /-- `EBAN_JOIN` of an extended mask. -/
  isJoinBan : ModeString → Bool
  checkExtbanFeats : ModeString → Bool
  extbanMask : ModeString → Str

/-- `MODE_PARSE_SET` … `MODE_PARSE_ISHALFOP`. `channel.h`. -/
structure ParseFlags where
  set : Bool
  /-- `+m +n +t` style not supported. -/
  strict : Bool
  force : Bool
  bounce : Bool
  notoper : Bool
  notmember : Bool
  /-- Wipe out `+k` and `+l` during burst. -/
  wipeout : Bool
  /-- Be even more strict with extra arguments. -/
  burst : Bool
  ishalfop : Bool
  deriving DecidableEq

/-- What has been done so far. `DONE_LIMIT` … `DONE_REDIR`. -/
inductive Done
  | limit
  | keyAdd
  | keyDel
  | upassAdd
  | upassDel
  | apassAdd
  | apassDel
  | banclean
  | exceptclean
  | redir
  deriving DecidableEq

/-- A change of a member that has been read. `struct ParseState` (`cli_change`). -/
structure CliChange where
  dir : Dir
  mode : ClientMode
  oplevel : ℕ
  client : ModeUser

/-- `struct ParseState`, with the lines that full buffers have printed. `struct ParseState` -/
structure ParseState where
  mbuf : Option ModeBuf
  chan : Chan
  /-- The member that makes the change, if it is one. -/
  member : Option Str
  args : List Str
  flags : ParseFlags
  dir : Dir
  done : Finset Done
  add : Finset ModeFlag
  exadd : Finset ExMode
  del : Finset ModeFlag
  exdel : Finset ExMode
  /-- How many arguments a user may still give. -/
  maxArgs : ℤ
  changes : List CliChange
  lines : List ServerLine

/-- The source may not change modes. `mode_parse_mode`. -/
def ParseState.notOper (st : ParseState) : Bool := st.flags.notoper || st.flags.notmember

/-- Grab an argument, if there is one and the user may give one more. `mode_parse_limit` ("grab arg") -/
def ParseState.grab (env : ParseEnv) (st : ParseState) : Option (Str × ParseState) :=
  if env.sptr.myUser ∧ st.maxArgs ≤ 0 then none
  else match st.args with
    | [] => none
    | t :: args => some (t, { st with args := args, maxArgs := st.maxArgs - 1 })

/-- Put a change with an argument into the mode buffer, which may print. `modebuf_mode_uint`,
`modebuf_mode_string`, `modebuf_mode_client` -/
def ParseState.buffer (env : ParseEnv) (st : ParseState) (dir : Dir) (a : ModeArg) :
    Option ParseState :=
  match st.mbuf with
  | none => some st
  | some mb => (modebufArg env.flush st.chan mb dir a).map (fun r =>
    { st with chan := r.1, mbuf := some r.2.1, lines := st.lines ++ r.2.2 })

/-- Put a change of a string into the mode buffer; a bounce sets the old string again, or removes the new one.
`mode_parse_redir`, `mode_parse_key`, `mode_parse_upass`, `mode_parse_apass` -/
def ParseState.bufferString (env : ParseEnv) (st : ParseState) (mode : StringMode)
    (old : Option ModeString) (t : ModeString) : Option ParseState :=
  if st.flags.bounce then
    match old with
    | some old => st.buffer env .del (.string mode old)
    | none => st.buffer env .add (.string mode t)
  else st.buffer env st.dir (.string mode t)

/-- The text of a string that may be absent. -/
def optText (s : Option ModeString) : Str := (s.map (·.text)).getD []

/-- In a burst, a string that is after the one that is set is skipped. `mode_parse_redir`, `mode_parse_key`,
`mode_parse_upass`, `mode_parse_apass` -/
def ParseState.skipBurst (st : ParseState) (old : Option ModeString) (t : ModeString) : Bool :=
  st.flags.burst ∧ old.isSome ∧ ircdStrcmp (optText old) t.text ≤ 0

/-- A string that is set already is skipped, unless modes are wiped out. `mode_parse_redir`, `mode_parse_key`,
`mode_parse_upass`, `mode_parse_apass` -/
def ParseState.noChange (st : ParseState) (old : Option ModeString) (t : ModeString) : Bool :=
  ¬ st.flags.wipeout ∧ st.dir = .add ∧ strEq (optText old) t.text

/-! ## Redirect and limit -/

/-- A channel name that can be redirected to. `mode_parse_redir`. -/
def IsRedirect (t : Str) : Prop :=
  (t.head? = some '#' ∨ t.head? = some '&') ∧ t.all isIrcCh = true ∧ t.length ≤ channelLen

instance : DecidablePred IsRedirect := fun t =>
  inferInstanceAs (Decidable ((t.head? = some '#' ∨ t.head? = some '&') ∧ t.all isIrcCh = true ∧
    t.length ≤ channelLen))

lemma IsRedirect.word {t : Str} (h : IsRedirect t) : IsWord t := by
  obtain ⟨hh, hall, -⟩ := h
  refine ⟨fun e => ?_, fun hb => ?_, fun hc => ?_⟩
  · rw [e] at hh
    simp at hh
  · exact absurd (List.all_eq_true.1 hall _ hb) (by decide)
  · rw [hc] at hh
    simp at hh

/-- The redirect as a string argument. -/
def IsRedirect.toModeString {t : Str} (h : IsRedirect t) : ModeString := ⟨t, h.2.2, h.word⟩

/-- The part of `mode_parse_redir` behind the reading of the argument. `mode_parse_redir` -/
def modeParseRedirSet (env : ParseEnv) (st : ParseState) (t : ModeString) : Option ParseState :=
  if st.notOper then some st
  else if .redir ∈ st.done then some st
  else
    let st : ParseState := { st with done := insert .redir st.done }
    if st.mbuf.isNone then some st
    else if st.skipBurst st.chan.redir t then some st
    else if st.noChange st.chan.redir t then some st
    else do
      let st ← st.bufferString env .redirect st.chan.redir t
      if st.flags.set then
        some { st with chan := { st.chan with redir := if st.dir = Dir.del then none else some t } }
      else some st

def modeParseRedir (env : ParseEnv) (st : ParseState) : Option ParseState :=
  match st.dir with
  | .add =>
    match st.grab env with
    | none => some st
    | some (t, st) =>
      if strEq t st.chan.chname then some st
      else if ¬ (env.feat.chmode 'L' ∨ env.sptr.isServer ∨ env.sptr.channelService ∨
          env.sptr.isOper) then some st
      else if h : IsRedirect t then modeParseRedirSet env st h.toModeString
      else some st
  | .del =>
    match st.chan.redir with
    | none => some st
    | some t => modeParseRedirSet env st t

/-- The part of `mode_parse_limit` behind the reading of the argument. `mode_parse_limit` -/
def modeParseLimitSet (env : ParseEnv) (st : ParseState) (t : UInt32) : Option ParseState :=
  if st.notOper then some st
  else if st.dir = .del ∧ st.chan.limit = 0 then some st
  else if st.flags.burst ∧ .limit ∈ st.chan.mode ∧ st.chan.limit < t then some st
  else if .limit ∈ st.done then some st
  else
    let st : ParseState := { st with done := insert .limit st.done }
    if st.mbuf.isNone then some st
    else do
      let st ← st.buffer env st.dir (.uint t)
      if st.flags.set then
        match st.dir with
        | .add => some { st with
            chan := { st.chan with mode := insert ModeFlag.limit st.chan.mode, limit := t } }
        | .del => some { st with
            chan := { st.chan with mode := st.chan.mode.erase .limit, limit := 0 } }
      else some st

def modeParseLimit (env : ParseEnv) (st : ParseState) : Option ParseState :=
  match st.dir with
  | .add =>
    match st.grab env with
    | none => some st
    | some (s, st) =>
      let t := UInt32.ofNat (strtoul s)
      if 2 ^ 31 ≤ t.toNat then some st
      else if ¬ st.flags.wipeout ∧ (t = 0 ∨ t = st.chan.limit) then some st
      else modeParseLimitSet env st t
  | .del => modeParseLimitSet env st st.chan.limit

/-! ## Key and passwords -/

def IsCleanKey (s : Str) : Prop :=
  s ≠ [] ∧ s.head? ≠ some ':' ∧ s.all (fun c => 32 < c.toNat ∧ c ≠ ',') = true ∧ s.length ≤ keyLen

instance : DecidablePred IsCleanKey := fun s =>
  inferInstanceAs (Decidable (s ≠ [] ∧ s.head? ≠ some ':' ∧
    s.all (fun c => 32 < c.toNat ∧ c ≠ ',') = true ∧ s.length ≤ keyLen))

lemma IsCleanKey.word {s : Str} (h : IsCleanKey s) : IsWord s :=
  ⟨h.1, fun hb => absurd (List.all_eq_true.1 h.2.2.1 _ hb) (by decide), h.2.1⟩

def IsCleanKey.toModeString {s : Str} (h : IsCleanKey s) : ModeString :=
  ⟨s, h.2.2.2.trans (by decide), h.word⟩

/-- Allow removing and then adding, but not adding and then removing. `mode_parse_key`, `mode_parse_upass`,
`mode_parse_apass` -/
def ParseState.once (st : ParseState) (add del : Done) : Option ParseState :=
  match st.dir with
  | .add => if add ∈ st.done then none else some { st with done := insert add st.done }
  | .del => if add ∈ st.done ∨ del ∈ st.done then none else some { st with done := insert del st.done }

def modeParseKey (env : ParseEnv) (st : ParseState) : Option ParseState :=
  match st.grab env with
  | none => some st
  | some (s, st) =>
    if st.notOper then some st
    else match st.once .keyAdd .keyDel with
      | none => some st
      | some st =>
        if h : IsCleanKey s then
          let t := h.toModeString
          if st.mbuf.isNone then some st
          else if st.skipBurst st.chan.key t then some st
          else if ¬ st.flags.force ∧ ((st.dir = .add ∧ st.chan.key.isSome) ∨
              (st.dir = .del ∧ ¬ strEq (optText st.chan.key) t.text)) then some st
          else if st.noChange st.chan.key t then some st
          else do
            let st ← st.bufferString env .key st.chan.key t
            if st.flags.set then
              some { st with
                chan := { st.chan with key := if st.dir = Dir.del then none else some t } }
            else some st
        else some st

/-- The member is the channel manager. `IsChannelManager`. -/
def ParseState.isManager (st : ParseState) : Bool :=
  st.chan.members.any (fun m => some m.user = st.member ∧ .channelManager ∈ m.status)

def modeParseUpass (env : ParseEnv) (st : ParseState) : Option ParseState :=
  match st.grab env with
  | none => some st
  | some (s, st) =>
    if st.notOper then some st
    else if st.flags.force ∧ env.sptr.myUser ∧ ¬ env.sptr.apassOpmode then some st
    else if env.sptr.myUser ∧ ¬ (st.flags.force ∨ st.isManager) then some st
    else match st.once .upassAdd .upassDel with
      | none => some st
      | some st =>
        if h : IsCleanKey s then
          let t := h.toModeString
          if st.mbuf.isNone then some st
          else if ¬ st.flags.force ∧ ((st.dir = .add ∧ st.chan.apass.isNone) ∨
              (st.dir = .add ∧ strEq (optText st.chan.apass) t.text) ∨
              (st.dir = .add ∧ st.chan.upass.isSome) ∨
              (st.dir = .del ∧ ¬ strEq (optText st.chan.upass) t.text)) then some st
          else if st.noChange st.chan.upass t then some st
          else if st.skipBurst st.chan.upass t then some st
          else do
            let st ← st.bufferString env .upass st.chan.upass t
            if st.flags.set then
              some { st with
                chan := { st.chan with upass := if st.dir = Dir.del then none else some t } }
            else some st
        else some st

/-- Change the member of a user, which is the first one that is found. `find_member_link` -/
def updateMember (user : Str) (f : Membership → Membership) : List Membership → List Membership
  | [] => []
  | m :: ms => if m.user = user then f m :: ms else m :: updateMember user f ms

/-- Change the member of a user in a channel. -/
def Chan.mapMember (c : Chan) (user : Str) (f : Membership → Membership) : Chan :=
  { c with members := updateMember user f c.members }

/-- Set the op-level of a member. `channel.h`. -/
def Chan.setOpLevel (c : Chan) (user : Str) (l : ℕ) : Chan :=
  c.mapMember user (fun m => { m with oplevel := l })

/-- Everyone with ops reverts to the weakest op-level. `mode_parse_apass`. -/
def Chan.revertOpLevels (c : Chan) : Chan :=
  { c with members := c.members.map (fun m =>
      if .chanop ∈ m.status then { m with oplevel := maxOpLevel } else m) }

/-- The checks of `mode_parse_apass` for a local user. `mode_parse_apass` -/
def ParseState.apassRefused (env : ParseEnv) (st : ParseState) (s : Str) : Bool :=
  env.sptr.myUser ∧ ((if st.flags.force then ¬ env.sptr.apassOpmode
      else ¬ st.isManager ∨ (st.dir = .del ∧ st.chan.upass.isSome) ∨ (st.dir = .add ∧ st.chan.apass.isSome) ∨
        (st.dir = .del ∧ ¬ strEq (optText st.chan.apass) s)) ∨
      (172800 ≤ env.now - st.chan.creationtime ∧ st.dir = .del ∧ ¬ env.sptr.isAnOper))

/-- Set or remove the admin pass of the channel: setting it gives the member that sets it level zero, and
removing it removes the user pass and all levels. `mode_parse_apass` -/
def ParseState.setApass (st : ParseState) (t : ModeString) : Chan :=
  match st.dir with
  | .add =>
    let ch := if st.chan.apass.isNone ∨ st.flags.burst then { st.chan with apass := some t }
      else st.chan
    match st.member with
    | none => ch
    | some user => ch.setOpLevel user 0
  | .del => Chan.revertOpLevels { st.chan with apass := none, upass := none }

def modeParseApass (env : ParseEnv) (st : ParseState) : Option ParseState :=
  match st.grab env with
  | none => some st
  | some (s, st) =>
    if st.notOper then some st
    else if st.apassRefused env s then some st
    else match st.once .apassAdd .apassDel with
      | none => some st
      | some st =>
        if h : IsCleanKey s then
          let t := h.toModeString
          if st.mbuf.isNone then some st
          else if st.noChange st.chan.apass t then some st
          else if st.skipBurst st.chan.apass t then some st
          else do
            let st ← st.bufferString env .apass st.chan.apass t
            if st.flags.set then some { st with chan := st.setApass t } else some st
        else some st

/-! ## Masks -/

/-- The two lists of masks, which are handled alike. `mode_parse_ban`, `mode_parse_except`. -/
inductive MaskList
  | ban
  | except
  deriving DecidableEq

/-- The list of a channel. `channel.h` `struct Channel`. -/
def Chan.masks (c : Chan) : MaskList → List Ban
  | .ban => c.banlist
  | .except => c.exceptlist

def Chan.setMasks (c : Chan) (l : List Ban) : MaskList → Chan
  | .ban => { c with banlist := l }
  | .except => { c with exceptlist := l }

/-- The string mode of a list. `MODE_BAN`, `MODE_EXCEPT`. -/
def MaskList.mode : MaskList → StringMode
  | .ban => .ban
  | .except => .except

/-- The bit for a list that has been cleaned. `DONE_BANCLEAN`, `DONE_EXCEPTCLEAN`. -/
def MaskList.clean : MaskList → Done
  | .ban => .banclean
  | .except => .exceptclean

/-- Mark a mask as overlapped and removed. `apply_ban`. -/
def Ban.mark (b : Ban) : Ban := { b with flags := insert .overlapped (insert .del b.flags) }

/-- Mark the masks that are more specific than a new one. `apply_ban`. -/
def markCovered (env : ParseEnv) (l : List Ban) (newban : Ban) : List Ban :=
  l.map (fun b => if env.bmatch newban.banstr b.banstr then b.mark else b)

/-- Add a mask to a list, or mark the masks that are to be removed. `apply_ban`, `apply_except` -/
def applyBan (env : ParseEnv) (l : List Ban) (newban : Ban) : List Ban :=
  if .add ∈ newban.flags then
    if l.any (fun b => env.bmatch b.banstr newban.banstr ∧ .del ∉ b.flags) then l
    else markCovered env l newban ++ [newban]
  else markCovered env l newban

/-- Clear the marks of a list. `mode_parse_ban`. -/
def clearMarks (l : List Ban) : List Ban :=
  l.map (fun b => { b with flags := b.flags \ {.add, .del, .overlapped} })

/-- Convert bans and ban exceptions. Half-ops may change bans only. `mode_parse_ban`, `mode_parse_except` -/
def modeParseMask (env : ParseEnv) (kind : MaskList) (st : ParseState) : ParseState :=
  match st.grab env with
  | none => st
  | some (s, st) =>
    if st.notOper ∧ ¬ (kind = .ban ∧ st.flags.ishalfop) then st
    else
      let s := s.takeWhile (· ≠ ' ')
      if s = [] ∨ s.head? = some ':' then st
      else match env.prettyExtmask s with
        | none => st
        | some pmask =>
          let l := if kind.clean ∈ st.done then st.chan.masks kind
            else clearMarks (st.chan.masks kind)
          let newban : Ban :=
            { banstr := pmask,
              who := if env.sptr.isServer then "*".toList else env.sptr.name.take 30,
              when := env.now,
              flags := if st.dir = .add then {.add} else {.del} }
          { st with
            done := insert kind.clean st.done,
            chan := st.chan.setMasks (applyBan env l newban) kind }

/-- Ban exceptions, whose arguments are dropped where there are none. -/
def modeParseDummy (env : ParseEnv) (st : ParseState) : ParseState :=
  match st.grab env with
  | none => st
  | some (_, st) => st

/-- The counts of `mode_process_bans`: masks, their lengths, and join bans. `mode_process_bans` -/
structure BanCount where
  count : ℤ
  len : ℤ
  extjbans : ℤ

/-- Count a mask. `mode_process_bans`. -/
def BanCount.add (env : ParseEnv) (n : BanCount) (b : Ban) : BanCount :=
  ⟨n.count + 1, n.len + b.banstr.text.length,
    n.extjbans + (if env.isExtended b.banstr ∧ env.isJoinBan b.banstr then 1 else 0)⟩

/-- The room of a list for a local user. `mode_process_bans`, `mode_process_excepts`. -/
def MaskList.full (env : ParseEnv) (n : BanCount) : MaskList → Bool
  | .ban => env.feat.avbanlen * env.feat.maxbans < n.len ∨ env.feat.maxbans < n.count
  | .except => env.feat.avexceptlen * env.feat.maxexcepts < n.len ∨ env.feat.maxexcepts < n.count

/-- A local user's new mask is refused. `n` counts it already. `mode_process_bans` -/
def ParseState.maskRefused (env : ParseEnv) (kind : MaskList) (st : ParseState) (n : BanCount)
    (b : Ban) : Bool :=
  st.flags.set ∧ env.sptr.myUser ∧ ((¬ (st.mbuf.any (·.dest.opmode)) ∧ kind.full env n) ∨
      (env.isExtended b.banstr ∧ ¬ env.checkExtbanFeats b.banstr) ∨
      (env.isExtended b.banstr ∧ env.isJoinBan b.banstr ∧ (env.feat.extbanJMaxperchan < n.extjbans ∨
          strEq (env.extbanMask b.banstr) st.chan.chname)))

/-- The bottom half of the mask processor. `kept` are the masks behind which the list is broken when a mask that
was only remembered is met: the masks of the channel stand before those. `made` are the masks that are linked in
at the head. `mode_process_bans`, `mode_process_excepts` -/
def modeProcessMasks (env : ParseEnv) (kind : MaskList) :
    List Ban → BanCount → List Ban → List Ban → ParseState → Option ParseState
  | [], _, made, kept, st => some { st with chan := st.chan.setMasks (made ++ kept) kind }
  | b :: bans, n, made, kept, st =>
    let n' := n.add env b
    if .del ∈ b.flags ∧ .add ∈ b.flags then modeProcessMasks env kind bans n made kept st
    else if .del ∈ b.flags then do
      let st ← st.buffer env .del (.string kind.mode b.banstr)
      if st.flags.set then modeProcessMasks env kind bans n made kept st
      else modeProcessMasks env kind bans n' made (kept ++ [{ b with flags := ∅ }]) st
    else if .add ∈ b.flags then
      if .overlapped ∈ b.flags ∧ ¬ st.flags.bounce then modeProcessMasks env kind bans n made kept st
      else if st.maskRefused env kind n' b then modeProcessMasks env kind bans n made kept st
      else do
        let st ← st.buffer env .add (.string kind.mode b.banstr)
        if st.flags.set then
          modeProcessMasks env kind bans n' ({ b with flags := ∅ } :: made) kept st
        else modeProcessMasks env kind bans n' made kept st
    else modeProcessMasks env kind bans n' made (kept ++ [b]) st

/-! ## Members -/

/-- Look up a member. `find_member_link`. -/
def Chan.findMember (c : Chan) (user : Str) : Option Membership :=
  c.members.find? (fun m => m.user = user)

/-- The member that makes the change. `struct ParseState` (`member`). -/
def ParseState.actor (st : ParseState) : Option Membership := st.member.bind st.chan.findMember

/-- The op-level that an argument of a local user asks for, if it may. `mode_parse_client` -/
def ParseState.askedLevel (st : ParseState) (mode : ClientMode) (level : ℤ) : ℤ :=
  if mode ≠ .chanop ∨ st.dir = .del then maxOpLevel + 1
  else if ¬ st.flags.force ∧ st.actor.any (fun m =>
      level < m.oplevel ∨ (level = m.oplevel ∧ m.oplevel < maxOpLevel) ∨ maxOpLevel < level) then
    maxOpLevel + 1
  else if level ≤ maxOpLevel then level
  else maxOpLevel + 1

/-- The client and the op-level of an argument: a local user names a nick, others a numeric nick, each with an
op-level behind a colon. `mode_parse_client` -/
def ParseState.client (env : ParseEnv) (st : ParseState) (mode : ClientMode) (t : Str) : Option ModeUser × ℤ :=
  if env.sptr.myUser then
    match t.dropWhile (· ≠ ':') with
    | [] => (env.findChasing t, maxOpLevel + 1)
    | _ :: level => (env.findChasing (t.takeWhile (· ≠ ':')), st.askedLevel mode (atoi level))
  else if t[5]? = some ':' then (env.findNUser (t.take 5), atoi (t.drop 6))
  else (env.findNUser t, maxOpLevel + 1)

/-- Store a change: it replaces an earlier one of the same member and mode. `mode_parse_client` ("find an
element to stick them in") -/
def storeChange (c : CliChange) : List CliChange → List CliChange
  | [] => [c]
  | d :: cs =>
    if d.client.numnick = c.client.numnick ∧ d.mode = c.mode then c :: cs
    else d :: storeChange c cs

def modeParseClient (env : ParseEnv) (mode : ClientMode) (st : ParseState) : ParseState :=
  match st.grab env with
  | none => st
  | some (t, st) =>
    let notoper := st.notOper && !(mode = .voice && st.flags.ishalfop)
    if notoper ∧ st.dir ≠ .del then st
    else match st.client env mode t with
      | (none, _) => st
      | (some acptr, oplevel) =>
        if notoper ∧ ¬ (¬ env.sptr.isServer ∧ acptr.numnick = env.sptr.numnick ∧
            mode = .halfop ∧ env.feat.halfopDehalfopSelf) then st
        else
          -- A deop that is going to be bounced is given back with the right level.
          let oplevel : ℤ :=
            if st.flags.bounce ∧ st.dir = .del ∧ mode = .chanop then
              ((st.chan.findMember acptr.numnick).map (fun m => (m.oplevel : ℤ))).getD oplevel
            else oplevel
          let change : CliChange := ⟨st.dir, mode, (oplevel % 2 ^ 16).toNat, acptr⟩
          { st with changes := storeChange change st.changes }

/-- The op-level of a member that is opped. `mode_process_clients` (`newoplevel`). -/
def ParseState.newoplevel (st : ParseState) (c : CliChange) : ℕ :=
  if c.dir = .add ∧ c.mode = .chanop then
    if c.oplevel ≤ maxOpLevel then c.oplevel
    else match st.actor with
      | none => maxOpLevel
      | some m => if maxOpLevel ≤ m.oplevel then m.oplevel else m.oplevel + 1
  else maxOpLevel + 1

/-- A change that changes nothing. `mode_process_clients`. -/
def ParseState.sameStatus (env : ParseEnv) (st : ParseState) (c : CliChange) (m : Membership) : Bool :=
  match c.dir with
  | .add => c.mode.chfl ∈ m.status ∧
      (¬ env.feat.allowOplevelChange ∨ st.newoplevel c = m.oplevel)
  | .del => c.mode.chfl ∉ m.status

/-- A local user may not remove ops of services, of opers on local channels and of stronger members. `mode_process_clients` -/
def ParseState.deopRefused (env : ParseEnv) (st : ParseState) (c : CliChange) (m : Membership) : Bool :=
  c.dir = .del ∧ c.mode = .chanop ∧ env.sptr.myUser ∧
    (((c.client.channelService ∧ (c.client.onService ∨ ¬ env.sptr.xtraOp)) ∧ ¬ st.flags.force ∧ st.flags.set) ∨
      (c.client.numnick ≠ env.sptr.numnick ∧ st.chan.chname.head? = some '&' ∧ c.client.deopLchan) ∨
      (c.client.numnick ≠ env.sptr.numnick ∧ st.actor.any (fun a =>
        m.oplevel < a.oplevel ∨ (m.oplevel = a.oplevel ∧ m.oplevel < maxOpLevel))))

/-- The status of a member after a change. `mode_process_clients` ("actually effect the change"). -/
def CliChange.effect (c : CliChange) (m : Membership) : Membership :=
  match c.dir with
  | .add =>
    let status := insert c.mode.chfl m.status
    { m with status := if c.mode = .chanop then status.erase .deopped else status }
  | .del => { m with status := m.status.erase c.mode.chfl }

/-- Effect a change; a hidden member that is given a status is shown. `mode_process_clients`,
`RevealDelayedJoin` -/
def CliChange.apply (c : CliChange) (m : Membership) (ch : Chan) : Chan :=
  let ch :=
    if c.dir = .add ∧ .delayed ∈ m.status ∧ .zombie ∉ m.status then
      (ch.mapMember c.client.numnick (fun m => { m with status := m.status.erase .delayed })).checkDelayedJoins
    else ch
  ch.mapMember c.client.numnick c.effect

/-- Process one change of a member. The op-level is written whether or not modes are set. `mode_process_clients` -/
def modeProcessClient (env : ParseEnv) (st : ParseState) (c : CliChange) : Option ParseState :=
  match st.chan.findMember c.client.numnick with
  | none => some st
  | some m =>
    if env.sptr.myUser ∧ .zombie ∈ m.status then some st
    else if st.sameStatus env c m then some st
    else if st.deopRefused env c m then some st
    else
      let ch := if c.dir = .add ∧ c.mode = .chanop then
          st.chan.setOpLevel c.client.numnick (st.newoplevel c)
        else st.chan
      let ch := if st.flags.set then c.apply m ch else ch
      ParseState.buffer env { st with chan := ch } c.dir (.client c.mode c.client.toModeClient c.oplevel)

def modeProcessClients (env : ParseEnv) : List CliChange → ParseState → Option ParseState
  | [], st => some st
  | c :: cs, st => do
      let st ← modeProcessClient env st c
      modeProcessClients env cs st

/-- Process the simple modes; secret and private exclude each other. -/
def modeParseMode (env : ParseEnv) (f : ModeFlag) (st : ParseState) : ParseState :=
  if st.notOper then st
  else if st.mbuf.isNone then st
  else if f = .registered ∧ ¬ st.flags.force ∧ env.sptr.myUser then st
  else match st.dir with
    | .add =>
      let st := { st with add := insert f st.add, del := st.del.erase f }
      if f = .secret then
        { st with add := st.add.erase .priv, del := insert .priv st.del }
      else if f = .priv then
        { st with add := st.add.erase .secret, del := insert .secret st.del }
      else st
    | .del => { st with add := st.add.erase f, del := insert f st.del }

/-- Process the extended modes; stripping and blocking colour exclude each other. -/
def modeParseExmode (f : ExMode) (st : ParseState) : ParseState :=
  if st.notOper then st
  else if st.mbuf.isNone then st
  else match st.dir with
    | .add =>
      let st := { st with exadd := insert f st.exadd, exdel := st.exdel.erase f }
      if f = .stripcolor then
        { st with exadd := st.exadd.erase .nocolor, exdel := insert .nocolor st.exdel }
      else if f = .nocolor then
        { st with exadd := st.exadd.erase .stripcolor, exdel := insert .stripcolor st.exdel }
      else st
    | .del => { st with exadd := st.exadd.erase f, exdel := insert f st.exdel }

/-- Who may change an extended mode. `mode_parse`. -/
def mayExmode (env : ParseEnv) (dir : Dir) : ExMode → Bool
  | .adminonly => (env.feat.chmode 'a' && env.sptr.isAdmin) || env.sptr.isServer ||
      env.sptr.channelService
  | .operonly => (env.feat.chmode 'O' && env.sptr.isOper) || env.sptr.isServer ||
      env.sptr.channelService
  | .persist => env.sptr.isBurst || env.sptr.isService
  | .sslonly =>
    if env.feat.chmodeZStrict && dir = .add && decide (0 < env.nonsslusers) && env.sptr.myUser then
      false
    else (env.feat.chmode 'Z' && env.sptr.isSsl) || env.sptr.isOper || env.sptr.isServer ||
      env.sptr.channelService
  | .regmoderated => env.feat.chmode 'M' || server
  | .nonotices => env.feat.chmode 'N' || server
  | .noquitparts => env.feat.chmode 'Q' || server
  | .noctcps => env.feat.chmode 'C' || server
  | .nomultitarg => env.feat.chmode 'T' || server
  | .nocolor => env.feat.chmode 'c' || server
  | .stripcolor => env.feat.chmode 'S' || server
where
  server : Bool := env.sptr.isServer || env.sptr.isOper || env.sptr.channelService

/-! ## The main loop -/

/-- One letter. A letter that is not known is passed over. `mode_parse` -/
def modeParseLetter (env : ParseEnv) (st : ParseState) (ch : Char) : Option ParseState :=
  if ch = '+' then some { st with dir := .add }
  else if ch = '-' then some { st with dir := .del }
  else if ch = 'l' then modeParseLimit env st
  else if ch = 'L' then modeParseRedir env st
  else if ch = 'k' then modeParseKey env st
  else if ch = 'A' then
    if env.cptrServer ∨ env.feat.oplevels then modeParseApass env st else some st
  else if ch = 'U' then
    if env.cptrServer ∨ env.feat.oplevels then modeParseUpass env st else some st
  else if ch = 'b' then some (modeParseMask env .ban st)
  else if ch = 'e' then
    if env.sptr.isServer ∨ env.feat.excepts then some (modeParseMask env .except st)
    else some (modeParseDummy env st)
  else if ch = 'h' then
    if env.feat.halfops ∨ env.sptr.isServer then some (modeParseClient env .halfop st)
    else some (modeParseDummy env st)
  else if ch = 'o' then some (modeParseClient env .chanop st)
  else if ch = 'v' then some (modeParseClient env .voice st)
  else match flagLetters.find? (fun p => p.2 = ch) with
    | some (f, _) => some (modeParseMode env f st)
    | none =>
      match exLetters.find? (fun p => p.2 = ch) with
      | some (f, _) =>
        if mayExmode env st.dir f then some (modeParseExmode f st) else some st
      | none => some st

lemma modeParseLetter_cases {P : Option ParseState → Prop} (env : ParseEnv) (st : ParseState)
    (ch : Char) (hdir : ∀ dir, P (some { st with dir := dir })) (hsame : P (some st))
    (hlimit : P (modeParseLimit env st)) (hredir : P (modeParseRedir env st))
    (hkey : P (modeParseKey env st)) (hapass : P (modeParseApass env st))
    (hupass : P (modeParseUpass env st)) (hmask : ∀ kind, P (some (modeParseMask env kind st)))
    (hdummy : P (some (modeParseDummy env st)))
    (hclient : ∀ mode, P (some (modeParseClient env mode st)))
    (hmode : ∀ f, P (some (modeParseMode env f st))) (hexmode : ∀ f, P (some (modeParseExmode f st))) :
    P (modeParseLetter env st ch) := by
  unfold modeParseLetter
  by_cases h₁ : ch = '+'
  · rw [if_pos h₁]
    exact hdir .add
  rw [if_neg h₁]
  by_cases h₂ : ch = '-'
  · rw [if_pos h₂]
    exact hdir .del
  rw [if_neg h₂]
  by_cases h₃ : ch = 'l'
  · rw [if_pos h₃]
    exact hlimit
  rw [if_neg h₃]
  by_cases h₄ : ch = 'L'
  · rw [if_pos h₄]
    exact hredir
  rw [if_neg h₄]
  by_cases h₅ : ch = 'k'
  · rw [if_pos h₅]
    exact hkey
  rw [if_neg h₅]
  by_cases h₆ : ch = 'A'
  · rw [if_pos h₆]
    split
    · exact hapass
    · exact hsame
  rw [if_neg h₆]
  by_cases h₇ : ch = 'U'
  · rw [if_pos h₇]
    split
    · exact hupass
    · exact hsame
  rw [if_neg h₇]
  by_cases h₈ : ch = 'b'
  · rw [if_pos h₈]
    exact hmask .ban
  rw [if_neg h₈]
  by_cases h₉ : ch = 'e'
  · rw [if_pos h₉]
    split
    · exact hmask .except
    · exact hdummy
  rw [if_neg h₉]
  by_cases h₁₀ : ch = 'h'
  · rw [if_pos h₁₀]
    split
    · exact hclient .halfop
    · exact hdummy
  rw [if_neg h₁₀]
  by_cases h₁₁ : ch = 'o'
  · rw [if_pos h₁₁]
    exact hclient .chanop
  rw [if_neg h₁₁]
  by_cases h₁₂ : ch = 'v'
  · rw [if_pos h₁₂]
    exact hclient .voice
  rw [if_neg h₁₂]
  split
  · exact hmode _
  · split
    · split
      · exact hexmode _
      · exact hsame
    · exact hsame

/-- The letters of one word. `mode_parse`. -/
def modeParseLetters (env : ParseEnv) : Str → ParseState → Option ParseState
  | [], st => some st
  | ch :: chs, st => do
      let st ← modeParseLetter env st ch
      modeParseLetters env chs st

/-- What the timestamp says: an older one is respected; on a newer one the change is dropped while its server is
in a burst, and bounced else. The flag says whether the change is dropped. `mode_parse` ("is it a TS?") -/
def modeParseTs (env : ParseEnv) (word : Str) (st : ParseState) : ParseState × Bool :=
  if ¬ st.flags.set then (st, false)
  else
    let ts := atoi word
    if ts ≠ 0 ∧ ts < st.chan.creationtime then
      ({ st with chan := { st.chan with creationtime := ts } }, false)
    else if st.chan.creationtime < ts then
      if env.cptrBurst then
        ({ st with mbuf := st.mbuf.map (fun mb =>
            { mb with add := ∅, exadd := ∅, rem := ∅, exrem := ∅, args := [] }) }, true)
      else
        ({ st with
          flags := { st.flags with set := false, bounce := true },
          mbuf := st.mbuf.map (fun mb =>
            { mb with dest := { mb.dest with bounce := true, deop := mb.dest.deop || !env.cptrServer } }) },
          false)
    else (st, false)

/-- The words. A word behind the letters is a timestamp if it is the last one and starts with a digit; else it
is left alone, or has letters again. Each round takes a word, so their number bounds the rounds. The flag says
whether the change is dropped. `mode_parse` -/
def modeParseWords (env : ParseEnv) : ℕ → Str → ParseState → Option (ParseState × Bool)
  | 0, _, st => some (st, false)
  | n + 1, modestr, st =>
    if modestr = [] then some (st, false)
    else do
      let st ← modeParseLetters env modestr st
      if st.flags.burst then some (st, false)
      else match st.args with
        | [] => some (st, false)
        | word :: args =>
          if env.cptrServer ∧ args = [] ∧ word.head?.any isDigit then
            some (modeParseTs env word { st with args := args })
          else if st.flags.strict ∨ (env.sptr.myUser ∧ st.maxArgs ≤ 0) then some (st, false)
          else modeParseWords env n word { st with args := args }

/-- Put the simple modes that change into the buffer, and set them. `mode_parse` -/
def modeParseSimple (st : ParseState) : ParseState :=
  let mode := (st.chan.mode \ st.del) ∪ st.add
  let exmode := (st.chan.exmode \ st.exdel) ∪ st.exadd
  let buf := fun mb =>
    let mb := modebufMode mb .del (st.del ∩ st.chan.mode)
    let mb := modebufExmode mb .del (st.exdel ∩ st.chan.exmode)
    let mb := modebufMode mb .add (st.add \ (st.chan.mode \ st.del))
    modebufExmode mb .add (st.exadd \ (st.chan.exmode \ st.exdel))
  let st := { st with mbuf := st.mbuf.map buf }
  if st.flags.set then { st with chan := { st.chan with mode := mode, exmode := exmode } } else st

/-- The removal of a limit that is wiped out. `mode_parse` (`MODE_PARSE_WIPEOUT`). -/
def modeParseWipeLimit (env : ParseEnv) (st : ParseState) : Option ParseState :=
  if st.chan.limit ≠ 0 ∧ .limit ∉ st.done then st.buffer env .del (.uint st.chan.limit) else some st

/-- The removal of a string that is wiped out. `mode_parse` (`MODE_PARSE_WIPEOUT`). -/
def modeParseWipeString (env : ParseEnv) (done : Done) (mode : StringMode) (s : Option ModeString)
    (st : ParseState) : Option ParseState :=
  match s with
  | none => some st
  | some s => if done ∈ st.done then some st else st.buffer env .del (.string mode s)

/-- Put the removal of what is wiped out into the buffer. `mode_parse` (`MODE_PARSE_WIPEOUT`) -/
def modeParseWipeout (env : ParseEnv) (st : ParseState) : Option ParseState :=
  if ¬ st.flags.wipeout then some st
  else do
    let st ← modeParseWipeLimit env st
    let st ← modeParseWipeString env .redir .redirect st.chan.redir st
    let st ← modeParseWipeString env .keyDel .key st.chan.key st
    let st ← modeParseWipeString env .upassDel .upass st.chan.upass st
    modeParseWipeString env .apassDel .apass st.chan.apass st

/-- Process a list of masks, if one was read for it. `mode_parse`. -/
def modeProcessList (env : ParseEnv) (kind : MaskList) (st : ParseState) : Option ParseState :=
  if kind.clean ∈ st.done then
    modeProcessMasks env kind (st.chan.masks kind) ⟨0, 0, 0⟩ [] [] st
  else some st

/-- The rest of the parsing, which finishes building the resulting modes. `mode_parse` -/
def modeParseFinish (env : ParseEnv) (st : ParseState) : Option ParseState :=
  if st.mbuf.isNone ∨ (st.notOper ∧ ¬ st.flags.ishalfop) then some st
  else do
    let st ← modeParseWipeout env (modeParseSimple st)
    let st ← modeProcessList env .ban st
    let st ← modeProcessList env .except st
    modeProcessClients env st.changes st

/-- The state that the parsing starts with. `mode_parse`. -/
def parseInit (mbuf : Option ModeBuf) (ch : Chan) (args : List Str) (flags : ParseFlags)
    (member : Option Str) : ParseState where
  mbuf := mbuf
  chan := ch
  member := member
  args := args
  flags := flags
  dir := .add
  done := ∅
  add := ∅
  exadd := ∅
  del := ∅
  exdel := ∅
  maxArgs := maxModeParams
  changes := []
  lines := []

/-- Parse a MODE command and effect the changes, or just build the bounce buffer. `none` is a write through a
null pointer. -/
def modeParse (env : ParseEnv) (mbuf : Option ModeBuf) (ch : Chan) (modestr : Str)
    (args : List Str) (flags : ParseFlags) (member : Option Str) : Option ParseState := do
  let (st, dropped) ← modeParseWords env (args.length + 1) modestr
    (parseInit mbuf ch args flags member)
  if dropped then some st else modeParseFinish env st

/-! ## A MODE from a server -/

/-- How `ms_mode` calls `mode_parse`: the destination of the buffer, the flags and the member. `m_mode.c`
`ms_mode` -/
structure MsModeCall where
  dest : Dest
  flags : ParseFlags
  member : Option Str

/-- Set the mode, interpret it strictly, and force it to be accepted. `m_mode.c` `ms_mode` -/
def setStrictForce : ParseFlags := ⟨true, true, true, false, false, false, false, false, false⟩

/-- Interpret the mode strictly, and bounce it. `m_mode.c` `ms_mode`. -/
def strictBounce : ParseFlags := ⟨false, true, false, true, false, false, false, false, false⟩

/-- A server, a user of a service and an operator of the channel set the mode; the change of anyone else is
bounced, and the source is deopped. `uworld` says whether the server of the source is one that may do anything.
`m_mode.c` `ms_mode` -/
def msModeCall (env : ParseEnv) (uworld : Bool) (ch : Chan) : MsModeCall :=
  if env.sptr.isServer ∨ uworld ∨ env.sptr.channelService then
    ⟨⟨true, false, false, false, false⟩, setStrictForce, none⟩
  else if (ch.findMember env.sptr.numnick).any (fun m => .chanop ∈ m.status ∨ .halfop ∈ m.status) then
    ⟨⟨true, false, false, false, false⟩, setStrictForce, some env.sptr.numnick⟩
  else
    ⟨⟨true, false, true, true, false⟩, strictBounce, (ch.findMember env.sptr.numnick).map (·.user)⟩

/-- The parsing of a MODE from a server. `m_mode.c` `ms_mode`. -/
def msModeParse (env : ParseEnv) (uworld : Bool) (ch : Chan) (modestr : Str) (args : List Str) :
    Option ParseState :=
  let call := msModeCall env uworld ch
  modeParse env (some (modebufInit ch.chname call.dest)) ch modestr args call.flags call.member

end Nefarious.Channel
