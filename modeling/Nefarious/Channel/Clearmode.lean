import Mathlib.Data.Finset.Dedup
import Mathlib.Data.Finset.Filter
import Mathlib.Data.Finset.Lattice.Lemmas
import Nefarious.Channel.ChannelLine

/-!
# CLEARMODE

`doClearmode` looks the letters of its argument up in two tables of its own, removes what they stand for, fills
a mode buffer with the removals, and sends the letters on to the other servers: not the ones that it was given
but those of everything that it has removed, from a buffer of twenty characters.

Names: `m_clearmode.c`.
-/

namespace Nefarious.Channel

open Option (some.inj)
open List (append_assoc append_nil filter_congr flatMap_cons map_append map_map map_nil mem_append mem_cons
  mem_filter mem_map mem_pair not_mem_nil)

/-- What a letter of the first table stands for. `do_clearmode` (`flags`). -/
inductive ClearFlag where
  /-- `MODE_CHANOP`, `MODE_HALFOP`, `MODE_VOICE`. -/
  | client (mode : ClientMode)
  /-- `MODE_PRIVATE` … `MODE_DELJOINS`, and `MODE_LIMIT`. -/
  | flag (f : ModeFlag)
  | key
  | ban
  | except
deriving DecidableEq

/-- The first table. `do_clearmode` (`flags`). -/
def clearFlags : List (ClearFlag × Char) :=
  [(.client .chanop, 'o'), (.client .halfop, 'h'), (.client .voice, 'v'), (.flag .priv, 'p'),
    (.flag .secret, 's'), (.flag .moderated, 'm'), (.flag .topiclimit, 't'), (.flag .inviteonly, 'i'),
    (.flag .noprivmsgs, 'n'), (.key, 'k'), (.ban, 'b'), (.except, 'e'), (.flag .limit, 'l'),
    (.flag .regonly, 'r'), (.flag .deljoins, 'D')]

/-- The second table; the flag of `N` is in it twice. `do_clearmode` (`exflags`). -/
def clearExflags : List (ExMode × Char) :=
  [(.adminonly, 'a'), (.operonly, 'O'), (.regmoderated, 'M'), (.nonotices, 'N'), (.sslonly, 'Z'),
    (.nonotices, 'Q'), (.noctcps, 'C'), (.nomultitarg, 'T'), (.nocolor, 'c'), (.stripcolor, 'S')]

/-- The entries of a table that the letters of a text stand for. `do_clearmode` ("what are we supposed to get
rid of?"). -/
def lookup {α : Type} [DecidableEq α] (table : List (α × Char)) (control : Str) : Finset α :=
  (control.filterMap fun ch => (table.find? fun p => p.2 = ch).map (·.1)).toFinset

/-- `del_mode`. `do_clearmode`. -/
def delMode (control : Str) : Finset ClearFlag := lookup clearFlags control

/-- `del_exmode`. `do_clearmode`. -/
def delExmode (control : Str) : Finset ExMode := lookup clearExflags control

/-- The letters of entries. `do_clearmode` ("build control string again"). -/
def letters {α : Type} [DecidableEq α] (table : List (α × Char)) (s : Finset α) : Str :=
  (table.filter fun p => p.1 ∈ s).map (·.2)

/-- `control_buf`. `do_clearmode`. -/
def controlBuf (del : Finset ClearFlag) (delEx : Finset ExMode) : Str :=
  letters clearFlags del ++ letters clearExflags delEx

/-- Its size. `do_clearmode`. -/
def controlBufSize : ℕ := 20

/-- The bit of an extended mode. `EXMODE_ADMINONLY` … `EXMODE_STRIPCOLOR`. -/
def ExMode.bit : ExMode → ℕ
  | .adminonly => 0x1
  | .operonly => 0x2
  | .regmoderated => 0x4
  | .nonotices => 0x8
  | .persist => 0x10
  | .sslonly => 0x20
  | .noquitparts => 0x40
  | .noctcps => 0x80
  | .nomultitarg => 0x100
  | .nocolor => 0x200
  | .stripcolor => 0x400

/-- The bit of a simple mode. `MODE_PRIVATE` … `MODE_REDIRECT`. -/
def ModeFlag.bit : ModeFlag → ℕ
  | .priv => 0x4
  | .secret => 0x8
  | .moderated => 0x10
  | .topiclimit => 0x20
  | .inviteonly => 0x40
  | .noprivmsgs => 0x80
  | .limit => 0x400
  | .regonly => 0x800
  | .deljoins => 0x1000
  | .registered => 0x2000
  | .burstadded => 0x80000
  | .wasdeljoins => 0x400000
  | .redirect => 0x2000000

/-- What `modebuf_mode` takes extended modes for. `channel.c` `modebuf_mode`. -/
def sameBits (s : Finset ExMode) : Finset ModeFlag := modebufFlags.filter fun f => ∃ e ∈ s, e.bit = f.bit

/-! ### Clearing -/

/-- What CLEARMODE reads besides the channel. `do_clearmode`. -/
structure ClearEnv extends ChannelEnv where
  from_ : Str
  from_word : IsWord from_
  from_len : from_.length ≤ 5
  /-- The client with a numeric nick. -/
  client : Str → ModeClient
  client_word : ∀ u, IsWord (client u).name

/-- The modes of members, in the order in which they are removed. `do_clearmode`. -/
def clientModes : List ClientMode := [.chanop, .halfop, .voice]

/-- A member has a mode; zombies have none. `channel.c` `is_chan_op`, `is_half_op`, `has_voice`. -/
def Membership.Has (m : Membership) (mode : ClientMode) : Prop := .zombie ∉ m.status ∧ mode.chfl ∈ m.status

instance (m : Membership) (mode : ClientMode) : Decidable (m.Has mode) :=
  inferInstanceAs (Decidable (.zombie ∉ m.status ∧ mode.chfl ∈ m.status))

/-- What is removed of a member. `do_clearmode` ("Deal with users on the channel"). -/
def memberArgs (env : ClearEnv) (del : Finset ClearFlag) (m : Membership) : List ModeArg :=
  (clientModes.filter fun mode => m.Has mode ∧ .client mode ∈ del).map fun mode =>
    .client mode (env.client m.user) (maxOpLevel + 1)

/-- A member without these modes. `do_clearmode` ("Deal with users on the channel"). -/
def Membership.drop (del : Finset ClearFlag) (m : Membership) : Membership :=
  if .zombie ∈ m.status then m
  else { m with status := m.status.filter fun f => ∀ mode ∈ clientModes, .client mode ∈ del → mode.chfl ≠ f }

/-- The removals with an argument, and that of a limit, in the order in which they go to the mode buffer.
`do_clearmode`. -/
def clearArgs (env : ClearEnv) (del : Finset ClearFlag) (ch : Chan) : List ModeArg :=
  (if .key ∈ del then (ch.key.map (ModeArg.string .key)).toList else []) ++
    (if .flag .limit ∈ del ∧ ch.limit ≠ 0 then [.uint ch.limit] else []) ++
    (if .ban ∈ del then ch.banlist.map fun b => .string .ban b.banstr else []) ++
    (if .except ∈ del then ch.exceptlist.map fun b => .string .except b.banstr else []) ++
    ch.members.flatMap (memberArgs env del)

/-- The buffer with the simple and the extended modes that are set. `do_clearmode`. -/
def clearBuf (del : Finset ClearFlag) (delEx : Finset ExMode) (ch : Chan) : ModeBuf :=
  let mb := modebufInit ch.chname ⟨false, true, false, false, false⟩
  let mb := modebufMode mb .del (ch.mode.filter fun f => .flag f ∈ del)
  modebufMode mb .del (sameBits (ch.exmode ∩ delEx))

/-- The channel without these modes. `do_clearmode` ("actually delete them"). -/
def Chan.clearModes (ch : Chan) (del : Finset ClearFlag) (delEx : Finset ExMode) : Chan :=
  { ch with mode := ch.mode.filter fun f => .flag f ∉ del, exmode := ch.exmode \ delEx }

/-- The channel without the rest. The source removes it while it fills the buffer; the printing reads none of
it. `do_clearmode`. -/
def Chan.clearRest (ch : Chan) (del : Finset ClearFlag) : Chan :=
  { ch with
    key := if .key ∈ del then none else ch.key
    limit := if .flag .limit ∈ del then 0 else ch.limit
    banlist := if .ban ∈ del then [] else ch.banlist
    exceptlist := if .except ∈ del then [] else ch.exceptlist
    members := ch.members.map (Membership.drop del) }

/-- What the calls of the mode buffer print, and the channel that they leave. `do_clearmode`. -/
def clearPrint (env : ClearEnv) (del : Finset ClearFlag) (delEx : Finset ExMode) (ch : Chan) : Chan × List Str :=
  let r := channelArgs env.toChannelEnv (ch.clearModes del delEx) (clearBuf del delEx ch)
    ((clearArgs env del ch).map fun a => (.del, a))
  let r' := channelFlush env.toChannelEnv r.1 r.2.1
  (r'.1, r.2.2 ++ r'.2.2)

/-- What CLEARMODE does. `do_clearmode`. -/
structure ClearResult where
  chan : Chan
  invites : Bool
  lines : List Str
  relay : Option Str
deriving DecidableEq

/-- Clear the modes of a channel; `none` is a write behind the end of `control_buf`. -/
def doClearmode (env : ClearEnv) (ch : Chan) (control : Str) : Option ClearResult :=
  let del := delMode control
  let delEx := delExmode control
  if del = ∅ ∧ delEx = ∅ then some ⟨ch, false, [], none⟩
  else
    let print := clearPrint env del delEx ch
    let buf := controlBuf del delEx
    if controlBufSize ≤ buf.length then none
    else
      some
        { chan := print.1.clearRest del
          invites := .flag .inviteonly ∈ del
          lines := print.2.map msgqMake
          relay :=
            if ch.chname.head? = some '&' then none
            else some (msgqMake (env.from_ ++ spaced ["CM".toList] ++ spaced [ch.chname, buf])) }

/-- A CLEARMODE of a server or of an operator elsewhere, and the channel afterwards. -/
def msClearmode (env : ClearEnv) (ch : Chan) (params : List Str) : Option Chan :=
  match params with
  | chname :: control :: _ =>
    if chname.head? = some '#' ∧ strEq chname ch.chname then (doClearmode env ch control).map (·.chan)
    else some ch
  | _ => some ch

/-! ### What is asked for -/

/-- The letters that `mode_parse` reads as simple modes; a limit and a redirect have an argument. `channel.c` `mode_parse` (`chan_flags`). -/
def plainFlags : List (ModeFlag × Char) := flagLetters.filter fun p => p.1 ≠ .limit ∧ p.1 ≠ .redirect

/-- A member loses the modes that are named, and nothing else. -/
structure SameBut (control : Str) (m m' : Membership) : Prop where
  user : m'.user = m.user
  oplevel : m'.oplevel = m.oplevel
  mode : ∀ mode : ClientMode, m'.Has mode ↔ m.Has mode ∧ mode.letter ∉ control
  status : ∀ f, f ≠ .delayed → (.zombie ∈ m.status ∨ ∀ mode ∈ clientModes, mode.chfl ≠ f) →
    (f ∈ m'.status ↔ f ∈ m.status)

/-- A channel loses exactly what is named, with the letters of `mode_parse`. -/
structure Named (ch ch' : Chan) (control : Str) : Prop where
  mode : ∀ p ∈ plainFlags, (p.1 ∈ ch'.mode ↔ p.1 ∈ ch.mode ∧ p.2 ∉ control)
  exmode : ∀ p ∈ exLetters, (p.1 ∈ ch'.exmode ↔ p.1 ∈ ch.exmode ∧ p.2 ∉ control)
  key : ch'.key = if 'k' ∈ control then none else ch.key
  limit : ch'.limit = if 'l' ∈ control then 0 else ch.limit
  banlist : ch'.banlist = if 'b' ∈ control then [] else ch.banlist
  exceptlist : ch'.exceptlist = if 'e' ∈ control then [] else ch.exceptlist
  members : List.Forall₂ (SameBut control) ch.members ch'.members
  rest : ch'.chname = ch.chname ∧ ch'.creationtime = ch.creationtime ∧ ch'.upass = ch.upass ∧
    ch'.apass = ch.apass ∧ ch'.redir = ch.redir ∧ (.redirect ∈ ch'.mode ↔ .redirect ∈ ch.mode) ∧
    (.burstadded ∈ ch'.mode ↔ .burstadded ∈ ch.mode)

/-- The removals without an argument: simple modes and the limit. -/
def plainChanges (ch ch' : Chan) : List Change :=
  (plainFlags.filter fun p => p.1 ∈ ch.mode ∧ p.1 ∉ ch'.mode).map (fun p => (.del, p.2, none)) ++
    if ch.limit ≠ 0 ∧ ch'.limit = 0 then [(.del, 'l', none)] else []

/-- The removals of extended modes. -/
def exChanges (ch ch' : Chan) : List Change :=
  (exLetters.filter fun p => p.1 ∈ ch.exmode ∧ p.1 ∉ ch'.exmode).map fun p => (.del, p.2, none)

/-- The removals with an argument: the key, bans, exceptions, and modes of members. -/
def argChanges (env : ClearEnv) (ch ch' : Chan) : List Change :=
  ((ch.key.toList.filter fun _ => ch'.key = none).map fun k => (.del, 'k', some k.text)) ++
    (((ch.banlist.filter fun b => b ∉ ch'.banlist).map fun b => (.del, 'b', some b.banstr.text)) ++
      (((ch.exceptlist.filter fun b => b ∉ ch'.exceptlist).map fun b => (.del, 'e', some b.banstr.text)) ++
        (ch.members.zip ch'.members).flatMap fun m =>
          (clientModes.filter fun mode => m.1.Has mode ∧ ¬ m.2.Has mode).map fun mode =>
            (.del, mode.letter, some (env.client m.1.user).name)))

/-- The changes from one state of a channel to another, as members are to be shown them. -/
def changes (env : ClearEnv) (ch ch' : Chan) : List Change :=
  plainChanges ch ch' ++ exChanges ch ch' ++ argChanges env ch ch' ++
    dChange (.wasdeljoins ∉ ch.mode ∧ .wasdeljoins ∈ ch'.mode)

/-- A channel without what only concerns what members are shown of joins. `channel.c` `modebuf_flush_int`
(`local_flags`). -/
def Chan.undelayed (ch : Chan) : Chan :=
  { ch with
    mode := ch.mode.erase .wasdeljoins
    members := ch.members.map fun m => { m with status := m.status.erase .delayed } }

/-- What is asked of a CLEARMODE: the channel loses what is named, members are shown that, and another server
with the same channel that reads the line makes the same of it. -/
structure Right (env : ClearEnv) (ch : Chan) (control : Str) (r : ClearResult) : Prop where
  named : Named ch r.chan control
  announced : (r.lines.flatMap announced).Perm (changes env ch r.chan)
  relayed : r.relay = none → ch.chname.head? = some '&' ∨ r.chan = ch
  peer : ∀ text ∈ r.relay, ∀ env' : ClearEnv, ∃ ch', msClearmode env' ch (messageParams text) = some ch' ∧
    ch'.undelayed = r.chan.undelayed ∧ (env'.joinOnRemovedelay = env.joinOnRemovedelay → ch' = r.chan)

/-- A CLEARMODE does what is asked, and `control_buf` is large enough. -/
def Clears (env : ClearEnv) (ch : Chan) (control : Str) : Prop :=
  ∃ r, doClearmode env ch control = some r ∧ Right env ch control r

/-- How many entries of the two tables are named; one that is in a table twice is named by either letter.
`do_clearmode` (`flags`, `exflags`). -/
def namedEntries (control : Str) : ℕ :=
  (clearFlags.filter fun p => p.2 ∈ control).length +
    (clearExflags.filter fun p => ∃ q ∈ clearExflags, q.1 = p.1 ∧ q.2 ∈ control).length

/-- When it does. -/
structure Clearable (env : ClearEnv) (ch : Chan) (control : Str) : Prop where
  exmode : ∀ p ∈ exLetters, p.2 ∈ control → p.1 ∉ ch.exmode
  quitparts : 'Q' ∈ control → .nonotices ∉ ch.exmode
  registered : 'R' ∈ control → .registered ∉ ch.mode
  fits : namedEntries control < controlBufSize
  short : ∀ t ∈ (clearPrint env (delMode control) (delExmode control) ch).2, t.length ≤ bufSize - 2

/-! ### Letters -/

section
variable {α : Type} [DecidableEq α] {table : List (α × Char)}

lemma mem_lookup (h : (table.map (·.2)).Nodup) {control : Str} {a : α} :
    a ∈ lookup table control ↔ ∃ p ∈ table, p.1 = a ∧ p.2 ∈ control := by
  have hinj : ∀ p ∈ table, ∀ q ∈ table, p.2 = q.2 → p = q := fun p hp q hq => List.inj_on_of_nodup_map h hp hq
  rw [lookup, List.mem_toFinset, List.mem_filterMap]
  constructor
  · rintro ⟨ch, hch, hfind⟩
    obtain ⟨p, hp, rfl⟩ := Option.map_eq_some_iff.mp hfind
    have heq : p.2 = ch := by simpa using List.find?_some hp
    exact ⟨p, List.mem_of_find?_eq_some hp, rfl, heq ▸ hch⟩
  · rintro ⟨p, hp, rfl, hmem⟩
    refine ⟨p.2, hmem, ?_⟩
    cases hfind : table.find? (fun q => q.2 = p.2) with
    | none => exact absurd (decide_eq_true rfl) (List.find?_eq_none.mp hfind p hp)
    | some q =>
      have heq : q.2 = p.2 := by simpa using List.find?_some hfind
      rw [hinj q (List.mem_of_find?_eq_some hfind) p hp heq]
      rfl

lemma mem_letters (h : (table.map (·.2)).Nodup) {s : Finset α} {p : α × Char} (hp : p ∈ table) :
    p.2 ∈ letters table s ↔ p.1 ∈ s := by
  rw [letters, mem_map]
  constructor
  · rintro ⟨q, hq, heq⟩
    obtain ⟨hq, hs⟩ := mem_filter.mp hq
    rw [← List.inj_on_of_nodup_map h hq hp heq]
    exact of_decide_eq_true hs
  · intro hs
    exact ⟨p, mem_filter.mpr ⟨hp, decide_eq_true hs⟩, rfl⟩

end

lemma nodup_clearFlags : (clearFlags.map (·.2)).Nodup := by decide

lemma nodup_clearExflags : (clearExflags.map (·.2)).Nodup := by decide

lemma disjoint_letters : ∀ p ∈ clearFlags, ∀ q ∈ clearExflags, p.2 ≠ q.2 := by decide

lemma mem_delMode {control : Str} {p : ClearFlag × Char} (hp : p ∈ clearFlags) :
    p.1 ∈ delMode control ↔ p.2 ∈ control := by
  have hflags : (clearFlags.map (·.1)).Nodup := by decide
  rw [delMode, mem_lookup nodup_clearFlags]
  constructor
  · rintro ⟨q, hq, heq, hmem⟩
    rw [← List.inj_on_of_nodup_map hflags hq hp heq]
    exact hmem
  · intro hmem
    exact ⟨p, hp, rfl, hmem⟩

lemma notMem_delMode {control : Str} {f : ClearFlag} (hf : f ∉ clearFlags.map (·.1)) :
    f ∉ delMode control := by
  rw [delMode, mem_lookup nodup_clearFlags]
  rintro ⟨p, hp, rfl, -⟩
  exact hf (List.mem_map_of_mem hp)

lemma mem_delExmode {control : Str} {f : ExMode} :
    f ∈ delExmode control ↔ ∃ p ∈ clearExflags, p.1 = f ∧ p.2 ∈ control := mem_lookup nodup_clearExflags

lemma lookup_controlBuf (control : Str) : delMode (controlBuf (delMode control) (delExmode control)) =
    delMode control ∧ delExmode (controlBuf (delMode control) (delExmode control)) = delExmode control := by
  have hmem : ∀ p ∈ clearFlags, (p.2 ∈ controlBuf (delMode control) (delExmode control) ↔
      p.1 ∈ delMode control) := by
    intro p hp
    rw [controlBuf, mem_append, mem_letters nodup_clearFlags hp, or_iff_left]
    intro hmem
    obtain ⟨q, hq, heq⟩ := mem_map.mp hmem
    exact disjoint_letters p hp q (mem_filter.mp hq).1 heq.symm
  have hmem' : ∀ p ∈ clearExflags, (p.2 ∈ controlBuf (delMode control) (delExmode control) ↔
      p.1 ∈ delExmode control) := by
    intro p hp
    rw [controlBuf, mem_append, mem_letters nodup_clearExflags hp, or_iff_right]
    intro hmem
    obtain ⟨q, hq, heq⟩ := mem_map.mp hmem
    exact disjoint_letters q (mem_filter.mp hq).1 p hp heq
  constructor
  · ext f
    by_cases hf : f ∈ clearFlags.map (·.1)
    · obtain ⟨p, hp, rfl⟩ := mem_map.mp hf
      rw [mem_delMode hp, hmem p hp]
    · exact iff_of_false (notMem_delMode hf) (notMem_delMode hf)
  · ext f
    rw [mem_delExmode]
    constructor
    · rintro ⟨p, hp, rfl, hbuf⟩
      exact (hmem' p hp).mp hbuf
    · intro hf
      obtain ⟨p, hp, rfl, -⟩ := mem_delExmode.mp hf
      exact ⟨p, hp, rfl, (hmem' p hp).mpr hf⟩

/-! ### The lines -/

section
variable {env : ClearEnv} {ch : Chan} {control : Str} {delEx : Finset ExMode}

/-- The buffer with the removal of a limit, which has no argument. `channel.c` `modebuf_mode_uint`. -/
def limitBuf (del : Finset ClearFlag) (delEx : Finset ExMode) (ch : Chan) : ModeBuf :=
  let mb := clearBuf del delEx ch
  if .flag .limit ∈ del ∧ ch.limit ≠ 0 then { mb with rem := insert .limit mb.rem } else mb

/-- The removals with an argument. `do_clearmode`. -/
def printArgs (env : ClearEnv) (del : Finset ClearFlag) (ch : Chan) : List ModeArg :=
  (if .key ∈ del then (ch.key.map (ModeArg.string .key)).toList else []) ++
    ((if .ban ∈ del then ch.banlist.map fun b => .string .ban b.banstr else []) ++
      ((if .except ∈ del then ch.exceptlist.map fun b => .string .except b.banstr else []) ++
        ch.members.flatMap (memberArgs env del)))

lemma channelArgs_limit (del : Finset ClearFlag) :
    channelArgs env.toChannelEnv (ch.clearModes del delEx) (clearBuf del delEx ch)
        ((clearArgs env del ch).map fun a => (.del, a)) =
      channelArgs env.toChannelEnv (ch.clearModes del delEx) (limitBuf del delEx ch)
        ((printArgs env del ch).map fun a => (.del, a)) := by
  have hargs : (clearBuf del delEx ch).args = [] := rfl
  have hdeop : (clearBuf del delEx ch).dest.deop = false := rfl
  obtain ⟨rest, hrest⟩ : ∃ rest, (if .ban ∈ del then ch.banlist.map fun b => ModeArg.string .ban b.banstr else []) ++
      ((if .except ∈ del then ch.exceptlist.map fun b => ModeArg.string .except b.banstr else []) ++
        ch.members.flatMap (memberArgs env del)) = rest := ⟨_, rfl⟩
  unfold clearArgs printArgs limitBuf
  simp only [append_assoc]
  rw [hrest]
  obtain ⟨mb, hmb⟩ : ∃ mb, clearBuf del delEx ch = mb := ⟨_, rfl⟩
  rw [hmb] at hargs hdeop ⊢
  have hroom : ¬ maxModeParams ≤ 0 + 1 := by decide
  by_cases hlimit : .flag .limit ∈ del ∧ ch.limit ≠ 0
  · rw [if_pos hlimit]
    by_cases hkey : .key ∈ del
    · rw [if_pos hkey]
      cases ch.key with
      | none => simp [channelArgs, channelArg, hlimit]
      | some k => simp [channelArgs, channelArg, hlimit, hargs, hdeop, hroom]
    · rw [if_neg hkey]
      simp [channelArgs, channelArg, hlimit]
  · rw [if_neg hlimit, if_neg hlimit]
    rfl

lemma mem_limitBuf {del : Finset ClearFlag} {f : ModeFlag} : f ∈ (limitBuf del delEx ch).rem ↔
    (f ∈ modebufFlags ∧ f ∈ ch.mode ∧ .flag f ∈ del) ∨ f ∈ sameBits (ch.exmode ∩ delEx) ∨
      (f = .limit ∧ .flag .limit ∈ del ∧ ch.limit ≠ 0) := by
  have hsame : f ∈ sameBits (ch.exmode ∩ delEx) → f ∈ modebufFlags := fun h => (Finset.mem_filter.mp h).1
  have hbuf : f ∈ (clearBuf del delEx ch).rem ↔
      (f ∈ modebufFlags ∧ f ∈ ch.mode ∧ .flag f ∈ del) ∨ f ∈ sameBits (ch.exmode ∩ delEx) := by
    simp only [clearBuf, modebufMode, modebufInit, Finset.mem_union, Finset.mem_inter, Finset.mem_filter,
      Finset.notMem_empty, false_or]
    tauto
  unfold limitBuf
  dsimp only
  split_ifs with hlimit
  · rw [Finset.mem_insert, hbuf]
    constructor
    · rintro (rfl | h | h)
      · exact .inr (Or.inr ⟨rfl, hlimit⟩)
      · exact .inl h
      · exact .inr (Or.inl h)
    · rintro (h | h | ⟨rfl, -⟩)
      · exact .inr (Or.inl h)
      · exact .inr (Or.inr h)
      · exact .inl rfl
  · rw [hbuf]
    constructor
    · rintro (h | h)
      · exact .inl h
      · exact .inr (Or.inl h)
    · rintro (h | h | ⟨-, hl⟩)
      · exact .inl h
      · exact .inr h
      · exact absurd hl hlimit

lemma sameBits_letters (s : Finset ExMode) : ∀ f ∈ sameBits s, f ∈ plainFlags.map (·.1) := by
  intro f hf
  obtain ⟨hmode, e, -, hbit⟩ := Finset.mem_filter.mp hf
  have hle : e.bit ≤ 0x400 := by cases e <;> decide
  have hflag : ∀ f : ModeFlag, f ∈ modebufFlags → f.bit ≤ 0x400 → f ∈ plainFlags.map (·.1) := by
    intro f
    cases f <;> decide
  exact hflag f hmode (hbit ▸ hle)

lemma flag_mem_clearFlags : ∀ f : ModeFlag, .flag f ∈ clearFlags.map (·.1) → f ∈ flagLetters.map (·.1) := by
  intro f
  cases f <;> decide

lemma limitBuf_clearing : (limitBuf (delMode control) delEx ch).Clearing := by
  have hshape : ∀ mb : ModeBuf, limitBuf (delMode control) delEx ch = mb → mb.add = ∅ ∧ mb.exadd = ∅ ∧
      mb.exrem = ∅ ∧ mb.args = [] ∧ mb.dest.nokey = false ∧ mb.dest.deop = false := by
    rintro mb rfl
    unfold limitBuf
    dsimp only
    split_ifs
    · exact ⟨by simp [clearBuf, modebufMode, modebufInit], rfl, rfl, rfl, rfl, rfl⟩
    · exact ⟨by simp [clearBuf, modebufMode, modebufInit], rfl, rfl, rfl, rfl, rfl⟩
  obtain ⟨hadd, hexadd, hexrem, hargs, hnokey, hdeop⟩ := hshape _ rfl
  refine ⟨hadd, hexadd, hexrem, ?_, by rw [hargs]; exact fun _ h => (by cases h), hnokey, hdeop⟩
  intro f hf
  have hplain : plainFlags.map (·.1) ⊆ flagLetters.map (·.1) := by decide
  rcases mem_limitBuf.mp hf with ⟨-, -, hdel⟩ | hsame | ⟨rfl, -⟩
  · by_contra hno
    exact notMem_delMode (fun hmem => hno (flag_mem_clearFlags f hmem)) hdel
  · exact hplain (sameBits_letters _ f hsame)
  · decide

lemma printArgs_removable (del : Finset ClearFlag) : ∀ a ∈ printArgs env del ch, a.Removable := by
  intro a ha
  rcases mem_append.mp ha with ha | ha
  · split_ifs at ha
    · obtain ⟨k, -, rfl⟩ := Option.map_eq_some_iff.mp (Option.mem_toList.mp ha)
      exact .inl rfl
    · exact absurd ha not_mem_nil
  rcases mem_append.mp ha with ha | ha
  · split_ifs at ha
    · obtain ⟨b, -, rfl⟩ := mem_map.mp ha
      exact .inr (Or.inl rfl)
    · exact absurd ha not_mem_nil
  rcases mem_append.mp ha with ha | ha
  · split_ifs at ha
    · obtain ⟨b, -, rfl⟩ := mem_map.mp ha
      exact .inr (Or.inr rfl)
    · exact absurd ha not_mem_nil
  · obtain ⟨m, -, hm⟩ := List.mem_flatMap.mp ha
    obtain ⟨mode, -, rfl⟩ := mem_map.mp hm
    exact env.client_word m.user

lemma clear_pieces : (clearPrint env (delMode control) delEx ch).1 =
      settle env.toChannelEnv (ch.clearModes (delMode control) delEx) (limitBuf (delMode control) delEx ch) ∧
    ∃ ps : List Piece,
      (clearPrint env (delMode control) delEx ch).2 = ps.map (·.text env.toChannelEnv ch.chname) ∧
      (∀ p ∈ ps, p.Ok) ∧
      (ps.flatMap Piece.changes).Perm (pending env.toChannelEnv (ch.clearModes (delMode control) delEx)
        (limitBuf (delMode control) delEx ch) ++ (printArgs env (delMode control) ch).map ModeArg.change) := by
  have hlen : (limitBuf (delMode control) delEx ch).args.length < maxModeParams := by
    unfold limitBuf
    dsimp only
    split_ifs
    · exact (by decide : 0 < 6)
    · exact (by decide : 0 < 6)
  unfold clearPrint
  dsimp only
  rw [channelArgs_limit]
  exact channelFlush_pieces limitBuf_clearing hlen (printArgs_removable _) rfl rfl

/-! ### The channel afterwards -/

lemma settle_cases {env : ChannelEnv} {ch : Chan} {mb : ModeBuf} (h : mb.Clearing) :
    (hides env ch mb = true ∧ settle env ch mb = { ch with mode := insert .wasdeljoins ch.mode }) ∨
      (hides env ch mb = false ∧ (settle env ch mb = ch ∨ settle env ch mb = ch.showDelayedJoins)) := by
  have hflush := @ModeBuf.Clearing.flushDelJoins env ch mb h
  cases hhides : hides env ch mb with
  | true =>
    rw [hhides, if_pos rfl] at hflush
    exact .inl ⟨rfl, congrArg Prod.fst hflush⟩
  | false =>
    refine .inr ⟨rfl, ?_⟩
    have hnot : ¬ ((!env.joinOnRemovedelay) = true ∧ ch.findDelayedJoins = true) ∨
        ¬ (.deljoins ∈ mb.rem ∧ .deljoins ∉ ch.mode ∧ .wasdeljoins ∉ ch.mode) := by
      have hno := of_decide_eq_false hhides
      by_contra hboth
      rw [not_or, not_not, not_not] at hboth
      exact hno ⟨hboth.2.1, hboth.2.2.1, hboth.2.2.2, by simpa using hboth.1.1, hboth.1.2⟩
    have hno : .deljoins ∉ mb.add := by rw [h.add]; exact Finset.notMem_empty _
    unfold settle flushDelJoins flushRemDelJoins
    dsimp only
    by_cases hdel : .deljoins ∈ mb.rem ∧ .deljoins ∉ ch.mode ∧ .wasdeljoins ∉ ch.mode
    · rw [if_pos hdel, if_neg (hnot.resolve_right (not_not.mpr hdel)), flushAddDelJoins,
        if_neg fun hc => hno hc.1]
      exact .inr rfl
    · rw [if_neg hdel, flushAddDelJoins, if_neg fun hc => hno hc.1]
      exact .inl rfl

/-- The channel afterwards. `do_clearmode`. -/
def cleared (env : ClearEnv) (control : Str) (ch : Chan) : Chan :=
  (clearPrint env (delMode control) (delExmode control) ch).1.clearRest (delMode control)

lemma mem_cleared_mode {f : ModeFlag} : f ∈ (cleared env control ch).mode ↔
    (f ∈ ch.mode ∧ .flag f ∉ delMode control) ∨
      (f = .wasdeljoins ∧ hides env.toChannelEnv (ch.clearModes (delMode control) (delExmode control))
        (limitBuf (delMode control) (delExmode control) ch) = true) := by
  have hmode : ∀ f, f ∈ (ch.clearModes (delMode control) (delExmode control)).mode ↔
      f ∈ ch.mode ∧ .flag f ∉ delMode control := fun f => Finset.mem_filter
  rw [cleared, Chan.clearRest, clear_pieces.1]
  dsimp only
  rcases @settle_cases env.toChannelEnv (ch.clearModes (delMode control) (delExmode control)) _
    (@limitBuf_clearing ch control (delExmode control)) with ⟨hh, hs⟩ | ⟨hh, hs⟩
  · rw [hs, hh]
    dsimp only
    rw [Finset.mem_insert, hmode, and_iff_left rfl]
    exact or_comm
  · have hsame : (settle env.toChannelEnv (ch.clearModes (delMode control) (delExmode control))
        (limitBuf (delMode control) (delExmode control) ch)).mode =
        (ch.clearModes (delMode control) (delExmode control)).mode := by
      rcases hs with hs | hs
      · rw [hs]
      · rw [hs]
        rfl
    rw [hsame, hmode, hh]
    simp

lemma clearPrint_same : ∃ mode members, (clearPrint env (delMode control) delEx ch).1 =
      { ch with mode := mode, exmode := ch.exmode \ delEx, members := members } ∧
    (members = ch.members ∨ members = ch.members.map fun m => { m with status := m.status.erase .delayed }) := by
  rw [clear_pieces.1]
  rcases @settle_cases env.toChannelEnv (ch.clearModes (delMode control) delEx) _
    (@limitBuf_clearing ch control delEx) with ⟨-, hs⟩ | ⟨-, hs | hs⟩
  · exact ⟨_, _, hs, Or.inl rfl⟩
  · exact ⟨_, _, hs, Or.inl rfl⟩
  · exact ⟨_, _, hs, Or.inr rfl⟩

lemma client_mem (mode : ClientMode) : .client mode ∈ delMode control ↔ mode.letter ∈ control := by
  have hmem : ((.client mode, mode.letter) : ClearFlag × Char) ∈ clearFlags := by cases mode <;> decide
  exact mem_delMode hmem

lemma drop_has {m : Membership} {mode : ClientMode} :
    (m.drop (delMode control)).Has mode ↔ m.Has mode ∧ mode.letter ∉ control := by
  have hall : mode ∈ clientModes := by cases mode <;> decide
  have hinj : ∀ m n : ClientMode, m.chfl = n.chfl → m = n := by
    intro m n
    cases m <;> cases n <;> decide
  have hzombie : ∀ m : ClientMode, m.chfl ≠ .zombie := by
    intro m
    cases m <;> decide
  rw [← client_mem]
  unfold Membership.drop Membership.Has
  split_ifs with hz
  · exact ⟨fun h => absurd hz h.1, fun h => absurd hz h.1.1⟩
  · simp only [Finset.mem_filter]
    constructor
    · rintro ⟨-, hmem, hdrop⟩
      exact ⟨⟨hz, hmem⟩, fun hdel => hdrop mode hall hdel rfl⟩
    · rintro ⟨⟨-, hmem⟩, hdel⟩
      refine ⟨fun hzom => hz hzom.1, hmem, ?_⟩
      intro n _ hn heq
      exact hdel (hinj n mode heq ▸ hn)

lemma drop_status {m : Membership} {f : Chfl} {del : Finset ClearFlag}
    (hf : .zombie ∈ m.status ∨ ∀ mode ∈ clientModes, mode.chfl ≠ f) : f ∈ (m.drop del).status ↔
    f ∈ m.status := by
  unfold Membership.drop
  split_ifs with hz
  · exact Iff.rfl
  · rw [Finset.mem_filter]
    exact ⟨fun h => h.1, fun h => ⟨h, fun mode hmode _ => (hf.resolve_left hz) mode hmode⟩⟩

lemma cleared_members : ∃ g : Membership → Membership, (cleared env control ch).members = ch.members.map g ∧
    ∀ m, SameBut control m (g m) := by
  have hdelayed : ∀ m : ClientMode, m.chfl ≠ .delayed := by
    intro m
    cases m <;> decide
  have hsame : ∀ m : Membership, SameBut control m (m.drop (delMode control)) := by
    intro m
    refine ⟨?_, ?_, fun mode => drop_has, fun f _ hf => drop_status hf⟩
    · unfold Membership.drop
      split_ifs <;> rfl
    · unfold Membership.drop
      split_ifs <;> rfl
  obtain ⟨mode, members, hprint, hmembers⟩ := @clearPrint_same env ch control (delExmode control)
  rw [cleared, hprint]
  rcases hmembers with rfl | rfl
  · exact ⟨_, rfl, hsame⟩
  · refine ⟨fun m => ({ m with status := m.status.erase .delayed } : Membership).drop (delMode control),
      map_map, ?_⟩
    intro m
    obtain ⟨huser, hlevel, hmode, hstatus⟩ := hsame { m with status := m.status.erase .delayed }
    refine ⟨huser, hlevel, ?_, ?_⟩
    · intro n
      rw [hmode]
      unfold Membership.Has
      dsimp only
      rw [Finset.mem_erase, Finset.mem_erase]
      simp [hdelayed n]
    · intro f hf hor
      rw [hstatus f hf]
      · exact Finset.mem_erase.trans (and_iff_right hf)
      · exact hor.imp_left fun hz => Finset.mem_erase.mpr ⟨by decide, hz⟩

/-! ### What is announced -/

lemma flagLetters_eq :
    flagLetters = plainFlags ++ ([(.limit, 'l'), (.redirect, 'L')] : List (ModeFlag × Char)) := by decide

lemma plainFlags_spec : ∀ p ∈ plainFlags, p.1 ∈ modebufFlags ∧ p.1 ≠ .limit ∧ p.1 ≠ .wasdeljoins := by decide

lemma plainFlags_clear : ∀ p ∈ plainFlags, (.flag p.1, p.2) ∈ clearFlags ∨ p = (.registered, 'R') := by decide

lemma cleared_fields : (cleared env control ch).exmode = ch.exmode \ delExmode control ∧
    (cleared env control ch).key = (if 'k' ∈ control then none else ch.key) ∧
    (cleared env control ch).limit = (if 'l' ∈ control then 0 else ch.limit) ∧
    (cleared env control ch).banlist = (if 'b' ∈ control then [] else ch.banlist) ∧
    (cleared env control ch).exceptlist = (if 'e' ∈ control then [] else ch.exceptlist) ∧
    (cleared env control ch).chname = ch.chname ∧ (cleared env control ch).creationtime = ch.creationtime ∧
    (cleared env control ch).upass = ch.upass ∧ (cleared env control ch).apass = ch.apass ∧
    (cleared env control ch).redir = ch.redir := by
  have hkey : .key ∈ delMode control ↔ 'k' ∈ control := mem_delMode (p := (.key, 'k')) (by decide)
  have hlimit : .flag .limit ∈ delMode control ↔ 'l' ∈ control :=
    mem_delMode (p := (.flag .limit, 'l')) (by decide)
  have hban : .ban ∈ delMode control ↔ 'b' ∈ control := mem_delMode (p := (.ban, 'b')) (by decide)
  have hexcept : .except ∈ delMode control ↔ 'e' ∈ control := mem_delMode (p := (.except, 'e')) (by decide)
  obtain ⟨mode, members, hprint, -⟩ := @clearPrint_same env ch control (delExmode control)
  rw [cleared, hprint, Chan.clearRest]
  dsimp only
  refine ⟨rfl, ?_, ?_, ?_, ?_, rfl, rfl, rfl, rfl, rfl⟩
  · exact if_congr hkey rfl rfl
  · exact if_congr hlimit rfl rfl
  · exact if_congr hban rfl rfl
  · exact if_congr hexcept rfl rfl

lemma cleared_plain {p : ModeFlag × Char} (hp : p ∈ plainFlags) :
    p.1 ∈ (cleared env control ch).mode ↔ p.1 ∈ ch.mode ∧ .flag p.1 ∉ delMode control := by
  rw [mem_cleared_mode, or_iff_left fun h => (plainFlags_spec p hp).2.2 h.1]

lemma cleared_wasdeljoins : (.wasdeljoins ∉ ch.mode ∧ .wasdeljoins ∈ (cleared env control ch).mode) ↔
    hides env.toChannelEnv (ch.clearModes (delMode control) (delExmode control))
      (limitBuf (delMode control) (delExmode control) ch) = true := by
  have hdel : .flag .wasdeljoins ∉ delMode control := notMem_delMode (by decide)
  rw [mem_cleared_mode]
  constructor
  · rintro ⟨hno, hyes | ⟨-, hhides⟩⟩
    · exact absurd hyes.1 hno
    · exact hhides
  · intro hhides
    refine ⟨?_, Or.inr ⟨rfl, hhides⟩⟩
    intro hmem
    exact (of_decide_eq_true hhides).2.2.1 (Finset.mem_filter.mpr ⟨hmem, hdel⟩)

lemma flatMap_zip_map {α β γ : Type} (f : α × β → List γ) (g : α → β) : (l : List α) →
    (l.zip (l.map g)).flatMap f = l.flatMap fun a => f (a, g a)
  | [] => rfl
  | a :: l => by
    rw [List.map_cons, List.zip_cons_cons, flatMap_cons, flatMap_cons, flatMap_zip_map f g l]

lemma filter_notMem_ite {α : Type} [DecidableEq α] (c : Prop) [Decidable c] (l : List α) :
    l.filter (fun b => b ∉ (if c then [] else l)) = if c then l else [] := by
  split_ifs
  · exact List.filter_eq_self.mpr fun b _ => decide_eq_true not_mem_nil
  · exact List.filter_eq_nil_iff.mpr fun b hb => by simpa using hb

lemma sameBits_empty (hex : ch.exmode ∩ delExmode control = ∅) : sameBits (ch.exmode ∩ delExmode control) =
    ∅ := by
  rw [hex]
  apply Finset.eq_empty_of_forall_notMem
  intro f hf
  obtain ⟨-, e, he, -⟩ := Finset.mem_filter.mp hf
  exact Finset.notMem_empty e he

lemma limit_mem_limitBuf (hex : ch.exmode ∩ delExmode control = ∅) :
    .limit ∈ (limitBuf (delMode control) (delExmode control) ch).rem ↔
      (ch.limit ≠ 0 ∧ (cleared env control ch).limit = 0) := by
  have hl : .flag .limit ∈ delMode control ↔ 'l' ∈ control := mem_delMode (p := (.flag .limit, 'l')) (by decide)
  have hno : ModeFlag.limit ∉ modebufFlags := by decide
  rw [mem_limitBuf, sameBits_empty hex, cleared_fields.2.2.1, hl]
  by_cases hc : 'l' ∈ control
  · simp [hno, hc]
  · simp [hno, hc]

lemma redirect_notMem_limitBuf (hex : ch.exmode ∩ delExmode control = ∅) :
    .redirect ∉ (limitBuf (delMode control) (delExmode control) ch).rem := by
  rw [mem_limitBuf, sameBits_empty hex]
  rintro (⟨hflag, -⟩ | hsame | ⟨hr, -⟩)
  · exact absurd hflag (by decide)
  · exact Finset.notMem_empty _ hsame
  · exact absurd hr (by decide)

lemma limitBuf_letters (hex : ch.exmode ∩ delExmode control = ∅) :
    (simpleLetters (limitBuf (delMode control) (delExmode control) ch) .del).map
        (fun c => ((.del, c, none) : Change)) = plainChanges ch (cleared env control ch) := by
  have hplain : plainFlags.filter (fun p => p.1 ∈ (limitBuf (delMode control) (delExmode control) ch).rem) =
      plainFlags.filter fun p => p.1 ∈ ch.mode ∧ p.1 ∉ (cleared env control ch).mode := by
    apply filter_congr
    intro p hp
    obtain ⟨hflag, hne, -⟩ := plainFlags_spec p hp
    rw [decide_eq_decide, mem_limitBuf, sameBits_empty hex, cleared_plain hp]
    simp only [Finset.notMem_empty, hne, false_and, or_false, hflag, true_and, not_and, not_not]
    exact ⟨fun h => ⟨h.1, fun _ => h.2⟩, fun h => ⟨h.1, h.2 h.1⟩⟩
  have hlim : ([(.limit, 'l'), (.redirect, 'L')] : List (ModeFlag × Char)).filter
      (fun p => p.1 ∈ (limitBuf (delMode control) (delExmode control) ch).rem) =
      if ch.limit ≠ 0 ∧ (cleared env control ch).limit = 0 then [(.limit, 'l')] else [] := by
    have h2 := redirect_notMem_limitBuf hex
    rw [List.filter_cons, List.filter_cons_of_neg (by simpa using h2), List.filter_nil]
    exact if_congr (by rw [decide_eq_true_eq]; exact limit_mem_limitBuf hex) rfl rfl
  rw [limitBuf_clearing.simpleLetters_eq, flagLetters_eq, List.filter_append, hplain, hlim, map_append,
    map_append, map_map, plainChanges]
  congr 1
  split_ifs <;> rfl

lemma exChanges_nil (hex : ch.exmode ∩ delExmode control = ∅) : exChanges ch (cleared env control ch) =
    [] := by
  apply List.map_eq_nil_iff.mpr
  apply List.filter_eq_nil_iff.mpr
  intro p _
  rw [cleared_fields.1, decide_eq_true_eq, Finset.mem_sdiff]
  rintro ⟨hmem, hgone⟩
  have hdel : p.1 ∈ delExmode control := by
    by_contra hno
    exact hgone ⟨hmem, hno⟩
  exact absurd (hex ▸ Finset.mem_inter.mpr ⟨hmem, hdel⟩) (Finset.notMem_empty _)

lemma key_changes : (if .key ∈ delMode control then (ch.key.map (ModeArg.string .key)).toList else []).map
    ModeArg.change = (ch.key.toList.filter fun _ => (cleared env control ch).key = none).map fun k =>
      ((.del, 'k', some k.text) : Change) := by
  have hk : .key ∈ delMode control ↔ 'k' ∈ control := mem_delMode (p := (.key, 'k')) (by decide)
  rw [cleared_fields.2.1]
  by_cases hc : 'k' ∈ control
  · rw [if_pos (hk.mpr hc)]
    cases ch.key <;> simp [hc, ModeArg.change, ModeArg.letter, StringMode.letter, ModeArg.shown]
  · rw [if_neg (mt hk.mp hc)]
    cases ch.key <;> simp [hc]

lemma mask_changes (mode : StringMode) {c d : Prop} [Decidable c] [Decidable d] (hcd : c ↔ d) {l l' : List Ban}
    (hl : l' = if d then [] else l) :
    (if c then l.map fun b => ModeArg.string mode b.banstr else []).map ModeArg.change =
      (l.filter fun b => b ∉ l').map fun b => (.del, mode.letter, some b.banstr.text) := by
  rw [hl, filter_notMem_ite]
  by_cases hd : d
  · rw [if_pos hd, if_pos (hcd.mpr hd), map_map]
    rfl
  · rw [if_neg hd, if_neg (mt hcd.mp hd)]
    rfl

lemma member_changes : (ch.members.flatMap (memberArgs env (delMode control))).map ModeArg.change =
    (ch.members.zip (cleared env control ch).members).flatMap fun m =>
      (clientModes.filter fun mode => m.1.Has mode ∧ ¬ m.2.Has mode).map fun mode =>
        ((.del, mode.letter, some (env.client m.1.user).name) : Change) := by
  obtain ⟨g, hmembers, hg⟩ := @cleared_members env ch control
  rw [hmembers, flatMap_zip_map, List.map_flatMap]
  refine congrArg (fun g => ch.members.flatMap g) (funext fun m => ?_)
  rw [memberArgs, map_map]
  have hfilter : (clientModes.filter fun mode => m.Has mode ∧ .client mode ∈ delMode control) =
      clientModes.filter fun mode => m.Has mode ∧ ¬ (g m).Has mode := by
    apply filter_congr
    intro mode _
    rw [decide_eq_decide, (hg m).mode, client_mem]
    exact ⟨fun h => ⟨h.1, fun hn => hn.2 h.2⟩, fun h => ⟨h.1, by_contra fun hn => h.2 ⟨h.1, hn⟩⟩⟩
  dsimp only
  rw [hfilter]
  rfl

lemma printArgs_changes :
    (printArgs env (delMode control) ch).map ModeArg.change = argChanges env ch (cleared env control ch) := by
  have hb : .ban ∈ delMode control ↔ 'b' ∈ control := mem_delMode (p := (.ban, 'b')) (by decide)
  have he : .except ∈ delMode control ↔ 'e' ∈ control := mem_delMode (p := (.except, 'e')) (by decide)
  obtain ⟨-, -, -, hban, hexcept, -⟩ := @cleared_fields env ch control
  rw [printArgs, map_append, map_append, map_append, @key_changes env,
    mask_changes .ban hb hban, mask_changes .except he hexcept, member_changes]
  rfl

lemma changes_perm (hex : ch.exmode ∩ delExmode control = ∅) :
    (pending env.toChannelEnv (ch.clearModes (delMode control) (delExmode control))
        (limitBuf (delMode control) (delExmode control) ch) ++
      (printArgs env (delMode control) ch).map ModeArg.change).Perm (changes env ch (cleared env control ch)) := by
  have hd : decide (.wasdeljoins ∉ ch.mode ∧ .wasdeljoins ∈ (cleared env control ch).mode) =
      hides env.toChannelEnv (ch.clearModes (delMode control) (delExmode control))
        (limitBuf (delMode control) (delExmode control) ch) :=
    Bool.eq_iff_iff.mpr (decide_eq_true_iff.trans cleared_wasdeljoins)
  have hno : (limitBuf (delMode control) (delExmode control) ch).args = [] := by
    unfold limitBuf
    dsimp only
    split_ifs <;> rfl
  rw [pending, hno, @limitBuf_letters env ch control hex, printArgs_changes, changes, exChanges_nil hex, hd,
    map_nil, append_nil, append_assoc, append_assoc]
  exact List.perm_append_comm.append_left _

end

section
variable {env : ClearEnv} {ch : Chan} {control : Str}

/-- **The length of `control_buf`.** -/
theorem length_controlBuf (control : Str) :
    (controlBuf (delMode control) (delExmode control)).length = namedEntries control := by
  have hflags : clearFlags.filter (fun p => p.1 ∈ delMode control) =
      clearFlags.filter fun p => p.2 ∈ control := by
    apply filter_congr
    intro p hp
    rw [decide_eq_decide]
    exact mem_delMode hp
  have hexflags : clearExflags.filter (fun p => p.1 ∈ delExmode control) =
      clearExflags.filter fun p => ∃ q ∈ clearExflags, q.1 = p.1 ∧ q.2 ∈ control := by
    apply filter_congr
    intro p _
    rw [decide_eq_decide]
    exact mem_delExmode
  rw [controlBuf, letters, letters, hflags, hexflags, List.length_append, List.length_map, List.length_map]
  rfl

lemma controlBuf_isWord (hsome : ¬ (delMode control = ∅ ∧ delExmode control = ∅)) :
    IsWord (controlBuf (delMode control) (delExmode control)) := by
  have hfrom : ∀ ch ∈ controlBuf (delMode control) (delExmode control),
      ch ∈ clearFlags.map (·.2) ++ clearExflags.map (·.2) := by
    intro ch hch
    rcases mem_append.mp hch with hch | hch
    · exact List.mem_append_left _ (List.map_subset _ (List.filter_subset_self _) hch)
    · exact List.mem_append_right _ (List.map_subset _ (List.filter_subset_self _) hch)
  refine ⟨?_, fun hblank => absurd (hfrom _ hblank) (by decide), ?_⟩
  · intro hnil
    apply hsome
    have hback := lookup_controlBuf control
    rw [hnil] at hback
    exact ⟨hback.1.symm, hback.2.symm⟩
  · intro hcolon
    exact absurd (hfrom _ (List.mem_of_mem_head? hcolon)) (by decide)

/-! ### What is done -/

lemma clearPrint_nothing : clearPrint env ∅ ∅ ch = (ch, []) := by
  have hflags : sameBits ∅ = ∅ := by decide
  have hbuf : (clearBuf ∅ ∅ ch).isEmpty = true := by
    simp [clearBuf, modebufMode, modebufInit, ModeBuf.isEmpty, hflags]
  have hargs : clearArgs env ∅ ch = [] := by
    simp [clearArgs, memberArgs]
  have hchan : ch.clearModes ∅ ∅ = ch := by
    simp [Chan.clearModes]
  have hlen : (clearBuf ∅ ∅ ch).args = [] := rfl
  have honce : channelFlushOnce env.toChannelEnv ch (clearBuf ∅ ∅ ch) = (ch, clearBuf ∅ ∅ ch, []) := by
    rw [channelFlushOnce, if_pos hbuf]
  unfold clearPrint
  rw [hargs, hchan, map_nil, channelArgs]
  dsimp only
  rw [channelFlush, hlen, List.length_nil, channelFlushInt, honce]
  dsimp only
  rw [hlen, if_neg (by decide), List.nil_append]

lemma clearRest_nothing : ch.clearRest ∅ = ch := by
  have hmembers : Membership.drop ∅ = id := by
    funext m
    simp [Membership.drop]
  simp [Chan.clearRest, hmembers]

lemma doClearmode_some {r : ClearResult} (h : doClearmode env ch control = some r) :
    namedEntries control < controlBufSize ∧ r.chan = cleared env control ch ∧
      r.lines = (clearPrint env (delMode control) (delExmode control) ch).2.map msgqMake ∧
      (r.relay = none → ch.chname.head? = some '&' ∨ r.chan = ch) ∧
      ∀ text ∈ r.relay, ch.chname.head? ≠ some '&' ∧ ¬ (delMode control = ∅ ∧ delExmode control = ∅) ∧
        text = msgqMake (env.from_ ++ spaced ["CM".toList] ++
          spaced [ch.chname, controlBuf (delMode control) (delExmode control)]) := by
  rw [← length_controlBuf]
  unfold doClearmode at h
  dsimp only at h
  split_ifs at h with hnone hfull hlocal
  · obtain rfl := some.inj h
    rw [cleared, hnone.1, hnone.2, clearPrint_nothing]
    exact ⟨by decide, clearRest_nothing.symm, rfl, fun _ => Or.inr rfl, nofun⟩
  · obtain rfl := some.inj h
    refine ⟨not_le.mp hfull, rfl, rfl, fun _ => Or.inl hlocal, ?_⟩
    intro text htext
    exact absurd htext (by simp)
  · obtain rfl := some.inj h
    refine ⟨not_le.mp hfull, rfl, rfl, fun hno => absurd hno (Option.some_ne_none _), ?_⟩
    intro text htext
    exact ⟨hlocal, hnone, (some.inj htext).symm⟩

lemma doClearmode_of_fits (env : ClearEnv) (ch : Chan) (h : namedEntries control < controlBufSize) :
    ∃ r, doClearmode env ch control = some r := by
  rw [← length_controlBuf] at h
  unfold doClearmode
  dsimp only
  split_ifs with hnone hfull
  · exact ⟨_, rfl⟩
  · exact absurd h (not_lt.mpr hfull)
  · exact ⟨_, rfl⟩
  · exact ⟨_, rfl⟩

lemma doClearmode_congr {control' : Str} (h : delMode control' = delMode control)
    (h' : delExmode control' = delExmode control) : doClearmode env ch control' =
    doClearmode env ch control := by
  unfold doClearmode
  rw [h, h']

/-! ### Other servers -/

lemma cleared_congr {env' : ClearEnv} (hj : env'.joinOnRemovedelay = env.joinOnRemovedelay) :
    cleared env' control ch = cleared env control ch := by
  rw [cleared, cleared, clear_pieces.1, clear_pieces.1, settle, settle, hj]

lemma undelayed_clearRest (del : Finset ClearFlag) :
    (ch.clearRest del).undelayed = ch.undelayed.clearRest del := by
  have hdrop : ∀ m : Membership, ({ m.drop del with status := (m.drop del).status.erase .delayed } : Membership) =
      ({ m with status := m.status.erase .delayed } : Membership).drop del := by
    intro m
    have hz : .zombie ∈ m.status.erase .delayed ↔ .zombie ∈ m.status :=
      Finset.mem_erase.trans (and_iff_right (by decide))
    unfold Membership.drop
    dsimp only
    rw [if_congr hz rfl rfl]
    split_ifs
    · rfl
    · congr 1
      ext f
      simp only [Finset.mem_erase, Finset.mem_filter, and_assoc]
  simp only [Chan.undelayed, Chan.clearRest, map_map]
  congr 1
  apply List.map_congr_left
  intro m _
  exact hdrop m

lemma settle_undelayed {env : ChannelEnv} {mb : ModeBuf} (h : mb.Clearing) :
    (settle env ch mb).undelayed = ch.undelayed := by
  rcases @settle_cases env ch mb h with ⟨-, hs⟩ | ⟨-, hs | hs⟩
  · rw [hs]
    have herase : (insert .wasdeljoins ch.mode).erase .wasdeljoins = ch.mode.erase .wasdeljoins := by
      ext f
      simp only [Finset.mem_erase, Finset.mem_insert]
      exact and_congr_right fun hf => or_iff_right hf
    simp only [Chan.undelayed, herase]
  · rw [hs]
  · rw [hs]
    simp only [Chan.undelayed, Chan.showDelayedJoins, map_map, Function.comp_def, Finset.erase_idem]

lemma cleared_undelayed (env env' : ClearEnv) :
    (cleared env' control ch).undelayed = (cleared env control ch).undelayed := by
  rw [cleared, cleared, undelayed_clearRest, undelayed_clearRest, clear_pieces.1, clear_pieces.1,
    settle_undelayed limitBuf_clearing, settle_undelayed limitBuf_clearing]

/-- A name of a channel. `channel.c` `IsChannelName`, `CHANNELLEN`. -/
structure IsChanName (t : Str) : Prop where
  word : IsWord t
  head : t.head? = some '#' ∨ t.head? = some '&'
  len : t.length ≤ channelLen

instance : DecidablePred IsChanName := fun t =>
  decidable_of_iff (IsWord t ∧ (t.head? = some '#' ∨ t.head? = some '&') ∧ t.length ≤ channelLen)
    ⟨fun h => ⟨h.1, h.2.1, h.2.2⟩, fun h => ⟨h.word, h.head, h.len⟩⟩

lemma relay_cleared (hname : IsChanName ch.chname) {r : ClearResult} (h : doClearmode env ch control = some r)
    {text : Str} (htext : text ∈ r.relay) (env' : ClearEnv) :
    msClearmode env' ch (messageParams text) = some (cleared env' control ch) := by
  obtain ⟨hfits, -, -, -, hrelay⟩ := doClearmode_some h
  obtain ⟨hglobal, hsome, rfl⟩ := hrelay text htext
  have hbuf := controlBuf_isWord hsome
  have hfit : (env.from_ ++ spaced ["CM".toList] ++
      spaced [ch.chname, controlBuf (delMode control) (delExmode control)]).length ≤ bufSize - 2 := by
    have hsize : bufSize - 2 = 510 := rfl
    have hmax : controlBufSize = 20 := rfl
    have hcm : "CM".toList.length = 2 := rfl
    have hfrom := env.from_len
    have hlen := hname.len
    simp only [channelLen] at hlen
    simp only [spaced_cons, spaced_nil, List.length_append, List.length_cons, List.length_nil, hcm,
      length_controlBuf]
    omega
  have hwords : ∀ w ∈ [ch.chname, controlBuf (delMode control) (delExmode control)], IsWord w := by
    intro w hw
    rcases mem_pair.mp hw with rfl | rfl
    · exact hname.word
    · exact hbuf
  have hread := parseParams_words hwords (Or.inl rfl : StartsBlank []) (n := 13) (by decide)
  rw [append_nil, parseParams_nil, append_nil] at hread
  have hparams : messageParams (env.from_ ++ spaced ["CM".toList] ++
      spaced [ch.chname, controlBuf (delMode control) (delExmode control)]) =
      [ch.chname, controlBuf (delMode control) (delExmode control)] := by
    rw [messageParams_line env.from_word (by decide) (Or.inr rfl)]
    exact hread
  obtain ⟨r', hr'⟩ := doClearmode_of_fits env' ch hfits
  have hback := lookup_controlBuf control
  rw [msgqMake_eq hfit, hparams, msClearmode, if_pos ⟨hname.head.resolve_right hglobal, strEq_refl _⟩,
    doClearmode_congr hback.1 hback.2, hr', Option.map_some, (doClearmode_some hr').2.1]

/-! ### Everything -/

lemma clearExflags_exLetters : ∀ p ∈ clearExflags, p ∈ exLetters ∨ p = (.nonotices, 'Q') := by decide

lemma Clearable.exmode_inter (h : Clearable env ch control) : ch.exmode ∩ delExmode control = ∅ := by
  apply Finset.eq_empty_of_forall_notMem
  intro e he
  obtain ⟨hset, hdel⟩ := Finset.mem_inter.mp he
  obtain ⟨p, hp, rfl, hmem⟩ := mem_delExmode.mp hdel
  rcases clearExflags_exLetters p hp with hp | rfl
  · exact h.exmode p hp hmem hset
  · exact h.quitparts hmem hset

lemma cleared_exmode (hex : ch.exmode ∩ delExmode control = ∅) : (cleared env control ch).exmode =
    ch.exmode := by
  rw [cleared_fields.1]
  exact Finset.sdiff_eq_self_of_disjoint (Finset.disjoint_iff_inter_eq_empty.mpr hex)

lemma cleared_registered : .registered ∈ (cleared env control ch).mode ↔ .registered ∈ ch.mode := by
  rw [cleared_plain (p := (.registered, 'R')) (by decide), and_iff_left (notMem_delMode (by decide))]

lemma Clearable.named (h : Clearable env ch control) : Named ch (cleared env control ch) control := by
  obtain ⟨-, hkey, hlimit, hban, hexcept, hname, htime, hupass, hapass, hredir⟩ :=
    @cleared_fields env ch control
  obtain ⟨g, hmembers, hg⟩ := @cleared_members env ch control
  refine ⟨?_, ?_, hkey, hlimit, hban, hexcept, ?_, hname, htime, hupass, hapass, hredir, ?_, ?_⟩
  · intro p hp
    rw [cleared_plain hp]
    rcases plainFlags_clear p hp with hflag | rfl
    · exact and_congr_right fun _ => not_congr (mem_delMode hflag)
    · exact and_congr_right fun hset => iff_of_true (notMem_delMode (by decide)) fun hR => h.registered hR hset
  · intro p hp
    rw [cleared_exmode h.exmode_inter]
    exact ⟨fun hset => ⟨hset, fun hmem => h.exmode p hp hmem hset⟩, fun hset => hset.1⟩
  · rw [hmembers, List.forall₂_map_right_iff]
    exact List.forall₂_same.mpr fun m _ => hg m
  · rw [mem_cleared_mode, or_iff_left (fun h => absurd h.1 (by decide)), and_iff_left (notMem_delMode (by decide))]
  · rw [mem_cleared_mode, or_iff_left (fun h => absurd h.1 (by decide)), and_iff_left (notMem_delMode (by decide))]

lemma Clearable.announced (hname : IsChanName ch.chname) (h : Clearable env ch control) :
    (((clearPrint env (delMode control) (delExmode control) ch).2.map msgqMake).flatMap Channel.announced).Perm
      (changes env ch (cleared env control ch)) := by
  obtain ⟨-, ps, hlines, hok, hperm⟩ := @clear_pieces env ch control (delExmode control)
  have hshort := h.short
  rw [hlines] at hshort ⊢
  have hread : ∀ p ∈ ps, Channel.announced (msgqMake (p.text env.toChannelEnv ch.chname)) = p.changes :=
    fun p hp => announced_text (hok p hp) hname.word (hshort _ (List.mem_map_of_mem hp))
  rw [map_map, List.flatMap_map]
  simp only [Function.comp_apply]
  rw [List.flatMap_congr hread]
  exact hperm.trans (changes_perm h.exmode_inter)

lemma mem_word {p : Piece} (h : p.Ok) {c : Char} (hc : c ∈ p.word) :
    c ∈ flagLetters.map (·.2) ++ "kbeohv+-d".toList := by
  have hclient : ∀ m : ClientMode, m.letter ∈ "kbeohv+-d".toList := by
    intro m
    cases m <;> decide
  have hstring : ∀ m : StringMode, m = .key ∨ m = .ban ∨ m = .except → m.letter ∈ "kbeohv+-d".toList := by
    intro m
    cases m <;> decide
  apply mem_append.mpr
  rw [Piece.word, List.cons_append, mem_cons, mem_append, mem_append] at hc
  rcases hc with rfl | (hc | hc) | hc
  · exact .inr (by decide)
  · exact .inl (h.letters c hc)
  · obtain ⟨a, ha, rfl⟩ := mem_map.mp hc
    have hrem := h.args a ha
    apply Or.inr
    cases a with
    | client m c l => exact hclient m
    | uint n => exact hrem.elim
    | string m s => exact hstring m hrem
  · apply Or.inr
    cases hd : p.d with
    | false => exact absurd (hd ▸ hc) not_mem_nil
    | true =>
      rw [hd, if_pos rfl] at hc
      rcases mem_pair.mp hc with rfl | rfl
      · decide
      · decide

lemma exmode_unannounced (hname : IsChanName ch.chname)
    (h : (((clearPrint env (delMode control) (delExmode control) ch).2.map msgqMake).flatMap announced).Perm
      (changes env ch (cleared env control ch))) : ch.exmode ∩ delExmode control = ∅ := by
  have hletter : ∀ e : ExMode, ∃ p ∈ exLetters, p.1 = e := by
    intro e
    cases e <;> decide
  have hdisjoint : ∀ p ∈ exLetters, p.2 ∉ flagLetters.map (·.2) ++ "kbeohv+-d".toList := by decide
  obtain ⟨-, ps, hlines, hok, -⟩ := @clear_pieces env ch control (delExmode control)
  rw [hlines, map_map] at h
  apply Finset.eq_empty_of_forall_notMem
  intro e he
  obtain ⟨hset, hdel⟩ := Finset.mem_inter.mp he
  obtain ⟨p, hp, rfl⟩ := hletter e
  have hchange : ((.del, p.2, none) : Change) ∈ exChanges ch (cleared env control ch) := by
    apply mem_map.mpr
    refine ⟨p, mem_filter.mpr ⟨hp, decide_eq_true ⟨hset, ?_⟩⟩, rfl⟩
    rw [cleared_fields.1]
    exact fun hmem => (Finset.mem_sdiff.mp hmem).2 hdel
  have hall : ((.del, p.2, none) : Change) ∈ changes env ch (cleared env control ch) :=
    List.mem_append_left _ (List.mem_append_left _ (List.mem_append_right _ hchange))
  obtain ⟨t, ht, hmem⟩ := List.mem_flatMap.mp (h.mem_iff.mpr hall)
  obtain ⟨q, hq, rfl⟩ := mem_map.mp ht
  obtain ⟨args, hread, -⟩ := @announced_cut env.toChannelEnv _ q (hok q hq) hname.word hname.len
  rw [Function.comp_apply, hread] at hmem
  exact hdisjoint p hp (mem_word (hok q hq) (mem_of_announce q.word _ hmem))

lemma weights_flatMap {α : Type} {f g : α → List Change} : {l : List α} →
    (∀ a ∈ l, weights (f a) ≤ weights (g a)) → weights (l.flatMap f) = weights (l.flatMap g) →
    ∀ a ∈ l, weights (f a) = weights (g a)
  | [], _, _ => nofun
  | a :: l, hle, heq => by
    have hmono : ∀ l' : List α, (∀ a ∈ l', weights (f a) ≤ weights (g a)) →
        weights (l'.flatMap f) ≤ weights (l'.flatMap g) := by
      intro l'
      induction l' with
      | nil => exact fun _ => le_rfl
      | cons b l' ih =>
        intro hb
        rw [flatMap_cons, flatMap_cons, weights_append, weights_append]
        exact Nat.add_le_add (hb b List.mem_cons_self) (ih fun c hc => hb c (List.mem_cons_of_mem b hc))
    have ha := hle a List.mem_cons_self
    have hl := hmono l fun b hb => hle b (List.mem_cons_of_mem a hb)
    rw [flatMap_cons, flatMap_cons, weights_append, weights_append] at heq
    intro b hb
    rcases mem_cons.mp hb with rfl | hb
    · omega
    · exact weights_flatMap (fun c hc => hle c (List.mem_cons_of_mem a hc)) (by omega) b hb

lemma announced_short (hname : IsChanName ch.chname)
    (h : (((clearPrint env (delMode control) (delExmode control) ch).2.map msgqMake).flatMap announced).Perm
      (changes env ch (cleared env control ch))) :
    ∀ t ∈ (clearPrint env (delMode control) (delExmode control) ch).2, t.length ≤ bufSize - 2 := by
  have hex := exmode_unannounced hname h
  obtain ⟨-, ps, hlines, hok, hperm⟩ := @clear_pieces env ch control (delExmode control)
  rw [hlines, map_map, List.flatMap_map] at h
  rw [hlines]
  have hcut : ∀ p ∈ ps, weights (announced (msgqMake (p.text env.toChannelEnv ch.chname))) ≤ weights p.changes ∧
      (bufSize - 2 < (p.text env.toChannelEnv ch.chname).length →
        weights (announced (msgqMake (p.text env.toChannelEnv ch.chname))) < weights p.changes) :=
    fun p hp => weight_cut (hok p hp) hname.word hname.len
  have hsum : weights (ps.flatMap fun p => announced (msgqMake (p.text env.toChannelEnv ch.chname))) =
      weights (ps.flatMap Piece.changes) := by
    have hall := (h.trans ((changes_perm hex).symm.trans hperm.symm)).map changeWeight
    rw [weights, weights]
    exact List.Perm.sum_nat hall
  intro t ht
  obtain ⟨p, hp, rfl⟩ := mem_map.mp ht
  by_contra hlong
  have hlt := (hcut p hp).2 (not_le.mp hlong)
  exact hlt.ne (weights_flatMap (fun q hq => (hcut q hq).1) hsum p hp)

/-- **A CLEARMODE does what is asked exactly when** no extended mode that is named is set, nor the one that `Q`
is mistaken for, nor a named `R`, when not too many entries are named for `control_buf`, and when no line for
members is cut. -/
theorem clearmode_iff (env : ClearEnv) (ch : Chan) (hname : IsChanName ch.chname) (control : Str) :
    Clears env ch control ↔ Clearable env ch control := by
  constructor
  · rintro ⟨r, hr, h⟩
    obtain ⟨hfits, hchan, hlines, -⟩ := doClearmode_some hr
    have hann := h.announced
    have hnamed := h.named
    rw [hlines, hchan] at hann
    rw [hchan] at hnamed
    have hex := exmode_unannounced hname hann
    refine ⟨?_, ?_, ?_, hfits, announced_short hname hann⟩
    · intro p hp hmem hset
      have hleft := (hnamed.exmode p hp).mp (by rw [cleared_exmode hex]; exact hset)
      exact hleft.2 hmem
    · intro hQ hset
      have hdel : .nonotices ∈ delExmode control := mem_delExmode.mpr ⟨(.nonotices, 'Q'), by decide, rfl, hQ⟩
      have hinter := Finset.mem_inter.mpr ⟨hset, hdel⟩
      rw [hex] at hinter
      exact absurd hinter (Finset.notMem_empty _)
    · intro hR hset
      have hmem : (ModeFlag.registered, 'R') ∈ plainFlags := by decide
      have hleft := hnamed.mode _ hmem
      dsimp only at hleft
      rw [cleared_registered] at hleft
      rw [hleft] at hset
      exact hset.2 hR
  · intro h
    obtain ⟨r, hr⟩ := doClearmode_of_fits env ch h.fits
    obtain ⟨-, hchan, hlines, hnone, -⟩ := doClearmode_some hr
    refine ⟨r, hr, ?_, ?_, hnone, ?_⟩
    · rw [hchan]
      exact h.named
    · rw [hchan, hlines]
      exact h.announced hname
    · intro text htext env'
      refine ⟨_, relay_cleared hname hr htext env', ?_, ?_⟩
      · rw [hchan]
        exact cleared_undelayed env env'
      · intro hj
        rw [hchan]
        exact cleared_congr hj

end

def sampleClearEnv : ClearEnv where
  appSource := "s".toList
  joinOnRemovedelay := true
  source_word := by decide
  source_len := by decide
  from_ := "AB".toList
  from_word := isWord_ab
  from_len := by decide
  client := fun _ => ⟨"n".toList, "ABAAA".toList, by decide, length_abaaa, isWord_abaaa⟩
  client_word := fun _ => by decide

/-- **`Q` does not remove the mode `Q`.** -/
theorem quitparts_stay : ¬ Clears sampleClearEnv { sampleChan with exmode := {.noquitparts} } ['Q'] := by
  rintro ⟨r, hr, h⟩
  have hmode := h.named.exmode (.noquitparts, 'Q') (by decide)
  rw [(doClearmode_some hr).2.1, cleared_fields.1] at hmode
  exact absurd (hmode.mp (by decide)).2 (by decide)

theorem clearmode_iff_sample : Clears sampleClearEnv sampleChan "obl".toList ↔
    Clearable sampleClearEnv sampleChan "obl".toList :=
  clearmode_iff sampleClearEnv sampleChan (by decide) "obl".toList

end Nefarious.Channel
