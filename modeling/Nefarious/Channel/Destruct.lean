import Nefarious.Channel.Bounce

/-!
# A crossed DESTRUCT

A server that gets a DESTRUCT for a channel with members is to restore the channel on the side it came from: it
sends a PART and a JOIN for each member, and the modes as if they were bounced (`msDestruct`).
-/

namespace Nefarious.Channel

open Option (bind_eq_bind bind_eq_some_iff some.inj)

/-! ## Joining and parting -/

/-- The features that the removal of a member reads. `ircd_features.h`. -/
structure PartFeatures where
  oplevels : Bool
  zannels : Bool

/-- What becomes of a channel whose last member has gone: it is kept for a while, or destroyed.
`channel.c`. -/
def sub1FromChannel (f : PartFeatures) (c : Chan) : Option Chan :=
  if .persist ∈ c.exmode then some c
  else
    let c := { c with mode := c.mode.erase .inviteonly, limit := 0 }
    if c.apass.isNone then
      let c := { c with mode := ∅, exmode := ∅, key := none, banlist := [], exceptlist := [] }
      if f.oplevels && f.zannels then some c else none
    else if f.zannels then some c
    else none

/-- Take a member off the list. `channel.c` `remove_member_from_channel`. -/
def Chan.dropMember (c : Chan) (m : Membership) : Chan :=
  let c := { c with members := c.members.erase m }
  if .delayed ∈ m.status then c.checkDelayedJoins else c

/-- Take all members off the list. `channel.c` `remove_user_from_channel`. -/
def Chan.dropMembers (c : Chan) : Chan := c.members.foldl Chan.dropMember c

/-- Remove a user; where only zombies are left, they go too.
`channel.c`. -/
def removeUserFromChannel (f : PartFeatures) (user : Str) (c : Chan) : Option Chan :=
  match c.findMember user with
  | none => some c
  | some m =>
    let c := c.dropMember m
    if c.members.all (fun m => .zombie ∈ m.status) then sub1FromChannel f c.dropMembers else some c

/-- PART. `m_part.c`. -/
def msPart (f : PartFeatures) (user name : Str) (c : Option Chan) : Option Chan :=
  c.bind fun c =>
    if strEq name c.chname ∧ name.head? ≠ some '&' then removeUserFromChannel f user c else some c

/-- Add a user. `channel.c` `joinbuf_join`, `add_user_to_channel`. -/
def joinbufJoin (user : Str) (flags : Finset Chfl) (c : Chan) : Chan :=
  let oplevel := if c.apass.isNone then maxOpLevel else if .channelManager ∈ flags then 0 else 1
  let hidden := .deljoins ∈ c.mode ∧ .chanop ∉ flags ∧ .halfop ∉ flags ∧ .voice ∉ flags
  { c with members := ⟨user, if hidden then insert .delayed flags else flags, oplevel⟩ :: c.members }

/-- A new channel. `channel.c` `get_channel`. -/
def newChan (chname : Str) (creationtime : ℤ) : Chan where
  chname := chname
  creationtime := creationtime
  mode := ∅
  exmode := ∅
  limit := 0
  key := none
  upass := none
  apass := none
  redir := none
  members := []
  banlist := []
  exceptlist := []

/-- Wipe out the modes of a channel whose timestamp is corrected. The mode buffer is for the members, and
nothing of it is sent to servers; delayed joins are shown when it is printed.
`m_join.c` `ms_join` -/
def wipeModes (joinOnRemovedelay : Bool) (c : Chan) : Chan :=
  let mb := modebufMode (modebufInit c.chname ⟨false, false, false, false, false⟩) .del c.mode
  let c := { c with
    mode := c.mode ∩ {.burstadded, .wasdeljoins}
    limit := 0
    key := none
    upass := none
    apass := none
    members := c.members.map fun m => { m with status := m.status \ {.chanop, .halfop, .voice} } }
  (flushDelJoins joinOnRemovedelay c mb).1

/-- The channel that a JOIN finds is corrected when the JOIN is older, or when it is an empty one.
`m_join.c` `ms_join` -/
def correctTime (joinOnRemovedelay : Bool) (creation : ℤ) (c : Chan) : Chan :=
  if creation ≠ 0 ∧ (creation < c.creationtime ∨ (.persist ∉ c.exmode ∧ c.apass.isNone ∧ c.members = [])) then
    wipeModes joinOnRemovedelay { c with creationtime := creation }
  else c

/-- JOIN with its parameters: the channel and perhaps a timestamp. The outer `none` is a null pointer
that is read: a zombie that joins again may have been the last member.
`m_join.c`. -/
def msJoin (f : PartFeatures) (joinOnRemovedelay : Bool) (user : Str) (parv : List Str)
    (c : Option Chan) : Option (Option Chan) :=
  match parv with
  | [] => some c
  | name :: rest =>
    let creation : ℤ := match rest with
      | [] => 0
      | ts :: _ => atoi ts
    if name.head? ≠ some '#' then some c
    else match c with
      | none => some (some (joinbufJoin user {.deopped} (newChan name creation)))
      | some c =>
        if strEq name c.chname = false then some (some c)
        else match c.findMember user with
          | none => some (some (joinbufJoin user {.deopped} (correctTime joinOnRemovedelay creation c)))
          | some m =>
            if .zombie ∉ m.status then some (some c)
            else match removeUserFromChannel f user c with
              | none => if creation = 0 then some none else none
              | some c => some (some (joinbufJoin user (m.status ∩ {.deopped})
                  (correctTime joinOnRemovedelay creation c)))

/-- MODE with its parameters. `m_mode.c`. -/
def msMode (env : ParseEnv) (uworld : Bool) (parv : List Str) (c : Option Chan) : Option (Option Chan) :=
  match c, parv with
  | some c, name :: modestr :: args =>
    if name.head? = some '&' ∨ strEq name c.chname = false then some (some c)
    else do
      let st ← msModeParse env uworld c modestr args
      match st.mbuf with
      | none => some (some st.chan)
      | some mb => do
          let r ← modebufFlush env.flush st.chan mb
          some (some r.1)
  | c, _ => some c

/-! ## DESTRUCT -/

/-- Lines for the server that sent the DESTRUCT. `m_destruct.c` `ms_destruct`. -/
inductive UpLine
  | part (user name : Str)
  | join (user : Str) (parv : List Str)
  | mode (text : Str)

/-- The changes that give a member its status. They are removals, because a bounce is faked.
`m_destruct.c` `ms_destruct` -/
def memberCalls (client : Str → ModeClient) (m : Membership) : List Call :=
  (if .chanop ∈ m.status then [.arg .del (.client .chanop (client m.user) m.oplevel)] else []) ++
    (if .voice ∈ m.status then [.arg .del (.client .voice (client m.user) (maxOpLevel + 1))] else [])

/-- The change that sets a string, if there is one. `m_destruct.c` `ms_destruct`. -/
def stringCalls (mode : StringMode) (s : Option ModeString) : List Call :=
  s.toList.map fun s => .arg .del (.string mode s)

/-- The changes that give a channel its modes. `m_destruct.c` `ms_destruct`. -/
def destructCalls (client : Str → ModeClient) (c : Chan) : List Call :=
  c.members.flatMap (memberCalls client) ++ [Call.mode .del c.mode] ++ stringCalls .key c.key ++
    (if c.limit ≠ 0 then [Call.arg .del (.uint c.limit)] else []) ++ stringCalls .upass c.upass ++
    stringCalls .apass c.apass ++ c.banlist.map (fun b => Call.arg .del (.string .ban b.banstr)) ++
    c.exceptlist.map (fun b => Call.arg .del (.string .except b.banstr)) ++ [Call.flush]

/-- The lines that restore a channel: all members part, all members join, and the modes follow.
`m_destruct.c` `ms_destruct` -/
def resyncLines (env : FlushEnv) (client : Str → ModeClient) (c : Chan) : Option (List UpLine) := do
  let r ← runCalls env c (modebufInit c.chname ⟨true, false, false, true, false⟩) (destructCalls client c)
  some (c.members.map (fun m => .part m.user c.chname) ++
    c.members.map (fun m => .join m.user [c.chname]) ++ r.2.2.map fun l => .mode l.text)

/-- DESTRUCT: what becomes of the channel, and the lines for the server that sent it. `none` is a write
through a null pointer. `m_destruct.c`. -/
def msDestruct (env : FlushEnv) (client : Str → ModeClient) (chanTS : Str) (c : Chan) :
    Option (Option Chan × List UpLine) :=
  if c.creationtime < atoi chanTS then some (some c, [])
  else if c.members ≠ [] then (resyncLines env client c).map fun ls => (some c, ls)
  else some (none, [])

/-- The server that sent the DESTRUCT. `m_join.c`, `m_part.c`, `m_mode.c`. -/
structure Neighbour where
  feat : PartFeatures
  /-- What it reads when it parses a MODE of the other server. -/
  parse : ParseEnv
  /-- `CONF_UWORLD` of the other server. -/
  uworld : Bool
  /-- The users that are behind the other server, whose messages it takes from there. -/
  behind : Str → Bool

/-- One line. `parse.c` `parse_server`. -/
def receive (n : Neighbour) (c : Option Chan) : UpLine → Option (Option Chan)
  | .part user name => some (if n.behind user then msPart n.feat user name c else c)
  | .join user parv =>
    if n.behind user then msJoin n.feat n.parse.flush.joinOnRemovedelay user parv c else some c
  | .mode text => msMode n.parse n.uworld (messageParams text) c

def maskTexts (l : List Ban) : Finset Str := (l.map fun b => b.banstr.text).toFinset

/-- A channel is restored: the creation time, the members with their statuses, and the modes are those
of the other one. -/
structure Restored (c c' : Chan) : Prop where
  creationtime : c'.creationtime = c.creationtime
  members : ∀ user, (c'.findMember user).isSome = (c.findMember user).isSome
  status : ∀ user m m', c.findMember user = some m → c'.findMember user = some m' →
    ∀ mode : ClientMode, mode.chfl ∈ m'.status ↔ mode.chfl ∈ m.status
  mode : c'.mode = c.mode
  exmode : c'.exmode = c.exmode
  key : c'.key = c.key
  limit : c'.limit = c.limit
  redir : c'.redir = c.redir
  upass : c'.upass = c.upass
  apass : c'.apass = c.apass
  banlist : maskTexts c'.banlist = maskTexts c.banlist
  exceptlist : maskTexts c'.exceptlist = maskTexts c.exceptlist

/-- A server that no longer has the channel has it restored after the lines that its DESTRUCT leads to. -/
def Resynchronised (env : FlushEnv) (client : Str → ModeClient) (n : Neighbour) (chanTS : Str)
    (c : Chan) : Prop :=
  ∃ r c', msDestruct env client chanTS c = some r ∧ r.2.foldlM (receive n) none = some (some c') ∧ Restored c c'

/-! ## The creation time under a MODE -/

variable {mb : ModeBuf} {r : Option ParseState} {user : Str}

lemma modebufFlushOnce_creationtime {env : FlushEnv} {ch : Chan} {r : Chan × ModeBuf × List ServerLine}
    (h : modebufFlushOnce env ch mb = some r) : r.1.creationtime = ch.creationtime := by
  unfold modebufFlushOnce at h
  split at h
  · rw [← some.inj h]
  · simp only at h
    split at h
    · cases h
    · rw [← some.inj h]
      exact (flushDelJoins_samePrint env.joinOnRemovedelay ch mb).creationtime

lemma modebufFlushInt_creationtime {env : FlushEnv} {all : Bool} {n : ℕ} {ch : Chan}
    {r : Chan × ModeBuf × List ServerLine} (h : modebufFlushInt env all n ch mb = some r) :
    r.1.creationtime = ch.creationtime := by
  induction n generalizing ch mb r with
  | zero =>
    rw [← some.inj h]
  | succ n ih =>
    simp only [modebufFlushInt, bind_eq_bind, bind_eq_some_iff] at h
    obtain ⟨r₁, h₁, h⟩ := h
    have htime := modebufFlushOnce_creationtime h₁
    split at h
    · simp only [bind_eq_some_iff] at h
      obtain ⟨r₂, h₂, h⟩ := h
      rw [← some.inj h]
      exact (ih h₂).trans htime
    · rw [← some.inj h]
      exact htime

lemma modebufArg_creationtime {env : FlushEnv} {ch : Chan} {dir : Dir} {a : ModeArg}
    {r : Chan × ModeBuf × List ServerLine} (h : modebufArg env ch mb dir a = some r) :
    r.1.creationtime = ch.creationtime := by
  unfold modebufArg at h
  split at h
  · rw [← some.inj h]
  · rw [← some.inj h]
  · simp only at h
    generalize maxModeParams - (if mb.dest.deop = true then 1 else 0) = k at h
    split at h
    · exact modebufFlushInt_creationtime h
    · rw [← some.inj h]

/-- The creation time of a state of the parsing stays. -/
def KeepsTime (st : ParseState) (r : Option ParseState) : Prop :=
  ∀ st', r = some st' → st'.chan.creationtime = st.chan.creationtime

variable {env : ParseEnv} {st st' : ParseState}

lemma KeepsTime.some (h : st'.chan.creationtime = st.chan.creationtime) : KeepsTime st (some st') := by
  intro st'' e
  rw [← some.inj e]
  exact h

lemma KeepsTime.bind {f : ParseState → Option ParseState} (h : KeepsTime st r)
    (hf : ∀ st', KeepsTime st' (f st')) : KeepsTime st (r.bind f) := by
  intro st'' e
  obtain ⟨st', hr, hst'⟩ := bind_eq_some_iff.mp e
  exact (hf st' st'' hst').trans (h st' hr)

lemma KeepsTime.of_eq (h : KeepsTime st' r)
    (he : st'.chan.creationtime = st.chan.creationtime) : KeepsTime st r :=
  fun st'' e => (h st'' e).trans he

lemma KeepsTime.unless {c : Prop} [Decidable c]
    (he : st'.chan.creationtime = st.chan.creationtime) (h : KeepsTime st r) :
    KeepsTime st (if c then Option.some st' else r) := by
  split
  · exact .some he
  · exact h

lemma KeepsTime.clean {s : Str} {r : IsCleanKey s → Option ParseState}
    (he : st'.chan.creationtime = st.chan.creationtime) (h : ∀ hs, KeepsTime st (r hs)) :
    KeepsTime st (if hs : IsCleanKey s then r hs else Option.some st') := by
  split
  · exact h _
  · exact .some he

lemma keepsTime_buffer (st : ParseState) (dir : Dir) (a : ModeArg) : KeepsTime st (st.buffer env dir a) := by
  unfold ParseState.buffer
  split
  · exact .some rfl
  · intro st' e
    obtain ⟨r, hr, rfl⟩ := Option.map_eq_some_iff.mp e
    exact modebufArg_creationtime hr

lemma keepsTime_bufferString (st : ParseState) (mode : StringMode) (old : Option ModeString)
    (t : ModeString) : KeepsTime st (st.bufferString env mode old t) := by
  unfold ParseState.bufferString
  split
  · split
    · exact keepsTime_buffer st _ _
    · exact keepsTime_buffer st _ _
  · exact keepsTime_buffer st _ _

lemma chan_of_grab {t : Str} (h : st.grab env = some (t, st')) : st'.chan = st.chan := by
  unfold ParseState.grab at h
  split at h
  · cases h
  · split at h
    · cases h
    · rw [← (Prod.mk.inj (some.inj h)).2]

lemma chan_of_once {add del : Done} (h : st.once add del = some st') : st'.chan = st.chan := by
  unfold ParseState.once at h
  split at h
  · split at h
    · cases h
    · rw [← some.inj h]
  · split at h
    · cases h
    · rw [← some.inj h]

lemma keepsTime_bufferString_bind (st : ParseState) (mode : StringMode) (old : Option ModeString)
    (t : ModeString) {f : ParseState → Chan} (hf : ∀ st', (f st').creationtime = st'.chan.creationtime) :
    KeepsTime st ((st.bufferString env mode old t).bind fun st =>
      if st.flags.set then some { st with chan := f st } else some st) := by
  refine (keepsTime_bufferString st mode old t).bind fun st' => ?_
  split
  · exact .some (hf st')
  · exact .some rfl

lemma keepsTime_redir (st : ParseState) : KeepsTime st (modeParseRedir env st) := by
  have hset : ∀ st t, KeepsTime st (modeParseRedirSet env st t) := by
    intro st t
    unfold modeParseRedirSet
    refine .unless rfl (.unless rfl (.unless rfl (.unless rfl (.unless rfl ?_))))
    exact .of_eq (keepsTime_bufferString_bind _ _ _ _ fun _ => rfl) rfl
  unfold modeParseRedir
  split
  · split
    · exact .some rfl
    · next h =>
        have htime := congrArg Chan.creationtime (chan_of_grab h)
        refine .unless htime (.unless htime ?_)
        split
        · exact .of_eq (hset _ _) htime
        · exact .some htime
  · split
    · exact .some rfl
    · exact hset st _

lemma keepsTime_limit (st : ParseState) : KeepsTime st (modeParseLimit env st) := by
  have hset : ∀ st t, KeepsTime st (modeParseLimitSet env st t) := by
    intro st t
    unfold modeParseLimitSet
    refine .unless rfl (.unless rfl (.unless rfl (.unless rfl (.unless rfl ?_))))
    refine .of_eq ((keepsTime_buffer _ _ _).bind fun st' => ?_) rfl
    split
    · split
      · exact .some rfl
      · exact .some rfl
    · exact .some rfl
  unfold modeParseLimit
  split
  · split
    · exact .some rfl
    · next h =>
        have htime := congrArg Chan.creationtime (chan_of_grab h)
        exact .unless htime (.unless htime (.of_eq (hset _ _) htime))
  · exact hset st _

lemma keepsTime_key (st : ParseState) : KeepsTime st (modeParseKey env st) := by
  unfold modeParseKey
  split
  · exact .some rfl
  · next h =>
      have htime := congrArg Chan.creationtime (chan_of_grab h)
      refine .unless htime ?_
      split
      · exact .some htime
      · next h' =>
          have htime' := (congrArg Chan.creationtime (chan_of_once h')).trans htime
          refine .clean htime' fun hclean => ?_
          refine .unless htime' (.unless htime' (.unless htime' (.unless htime' ?_)))
          exact .of_eq (keepsTime_bufferString_bind _ _ _ _ fun _ => rfl) htime'

lemma keepsTime_upass (st : ParseState) : KeepsTime st (modeParseUpass env st) := by
  unfold modeParseUpass
  split
  · exact .some rfl
  · next h =>
      have htime := congrArg Chan.creationtime (chan_of_grab h)
      refine .unless htime (.unless htime (.unless htime ?_))
      split
      · exact .some htime
      · next h' =>
          have htime' := (congrArg Chan.creationtime (chan_of_once h')).trans htime
          refine .clean htime' fun hclean => ?_
          refine .unless htime' (.unless htime' (.unless htime' (.unless htime' ?_)))
          exact .of_eq (keepsTime_bufferString_bind _ _ _ _ fun _ => rfl) htime'

lemma setApass_creationtime (st : ParseState) (t : ModeString) :
    (st.setApass t).creationtime = st.chan.creationtime := by
  unfold ParseState.setApass
  split
  · simp only
    generalize hc : (if st.chan.apass.isNone = true ∨ st.flags.burst = true then
      { st.chan with apass := some t } else st.chan) = c
    have htime : c.creationtime = st.chan.creationtime := by
      rw [← hc]
      split
      · rfl
      · rfl
    split
    · exact htime
    · exact htime
  · rfl

lemma keepsTime_apass (st : ParseState) : KeepsTime st (modeParseApass env st) := by
  unfold modeParseApass
  split
  · exact .some rfl
  · next h =>
      have htime := congrArg Chan.creationtime (chan_of_grab h)
      refine .unless htime (.unless htime ?_)
      split
      · exact .some htime
      · next h' =>
          have htime' := (congrArg Chan.creationtime (chan_of_once h')).trans htime
          refine .clean htime' fun hclean => ?_
          refine .unless htime' (.unless htime' (.unless htime' ?_))
          exact .of_eq (keepsTime_bufferString_bind _ _ _ _ fun st' => setApass_creationtime st' _) htime'

@[simp] lemma setMasks_creationtime (c : Chan) (l : List Ban) (kind : MaskList) :
    (c.setMasks l kind).creationtime = c.creationtime := by
  cases kind
  · rfl
  · rfl

lemma modeParseMask_creationtime (kind : MaskList) (st : ParseState) :
    (modeParseMask env kind st).chan.creationtime = st.chan.creationtime := by
  unfold modeParseMask
  split
  · rfl
  · next h =>
      have htime := congrArg Chan.creationtime (chan_of_grab h)
      split
      · exact htime
      · simp only
        split
        · exact htime
        · split
          · exact htime
          · rw [setMasks_creationtime]
            exact htime

lemma modeParseDummy_creationtime (st : ParseState) :
    (modeParseDummy env st).chan.creationtime = st.chan.creationtime := by
  unfold modeParseDummy
  split
  · rfl
  · next h => exact congrArg Chan.creationtime (chan_of_grab h)

lemma modeParseClient_creationtime (mode : ClientMode) (st : ParseState) :
    (modeParseClient env mode st).chan.creationtime = st.chan.creationtime := by
  unfold modeParseClient
  split
  · rfl
  · next h =>
      have htime := congrArg Chan.creationtime (chan_of_grab h)
      simp only
      split
      · exact htime
      · split
        · exact htime
        · split
          · exact htime
          · exact htime

lemma modeParseMode_creationtime (f : ModeFlag) (st : ParseState) :
    (modeParseMode env f st).chan.creationtime = st.chan.creationtime := by
  unfold modeParseMode
  split
  · rfl
  · split
    · rfl
    · split
      · rfl
      · split
        · simp only
          split
          · rfl
          · split
            · rfl
            · rfl
        · rfl

lemma modeParseExmode_creationtime (f : ExMode) (st : ParseState) :
    (modeParseExmode f st).chan.creationtime = st.chan.creationtime := by
  unfold modeParseExmode
  split
  · rfl
  · split
    · rfl
    · split
      · simp only
        split
        · rfl
        · split
          · rfl
          · rfl
      · rfl

lemma keepsTime_letter (st : ParseState) (ch : Char) : KeepsTime st (modeParseLetter env st ch) := by
  apply modeParseLetter_cases
  case hdir => exact fun _ => .some rfl
  case hsame => exact .some rfl
  case hlimit => exact keepsTime_limit st
  case hredir => exact keepsTime_redir st
  case hkey => exact keepsTime_key st
  case hapass => exact keepsTime_apass st
  case hupass => exact keepsTime_upass st
  case hmask => exact fun kind => .some (modeParseMask_creationtime kind st)
  case hdummy => exact .some (modeParseDummy_creationtime st)
  case hclient => exact fun mode => .some (modeParseClient_creationtime mode st)
  case hmode => exact fun f => .some (modeParseMode_creationtime f st)
  case hexmode => exact fun f => .some (modeParseExmode_creationtime f st)

lemma keepsTime_letters (chs : Str) (st : ParseState) : KeepsTime st (modeParseLetters env chs st) := by
  induction chs generalizing st with
  | nil => exact .some rfl
  | cons ch chs ih =>
    rw [modeParseLetters]
    exact (keepsTime_letter st ch).bind ih

lemma modeParseTs_creationtime (word : Str) (st : ParseState) :
    (modeParseTs env word st).1.chan.creationtime ≤ st.chan.creationtime := by
  unfold modeParseTs
  split
  · exact le_refl _
  · simp only
    split
    · next h => exact h.2.le
    · split
      · split
        · exact le_refl _
        · exact le_refl _
      · exact le_refl _

lemma modeParseWords_creationtime {n : ℕ} {modestr : Str} {st : ParseState} {r : ParseState × Bool}
    (h : modeParseWords env n modestr st = some r) : r.1.chan.creationtime ≤ st.chan.creationtime := by
  induction n generalizing modestr st with
  | zero =>
    rw [← some.inj h]
  | succ n ih =>
    rw [modeParseWords] at h
    split at h
    · rw [← some.inj h]
    · simp only [bind_eq_bind, bind_eq_some_iff] at h
      obtain ⟨st₁, h₁, h⟩ := h
      have htime := keepsTime_letters modestr st st₁ h₁
      rw [← htime]
      split at h
      · rw [← some.inj h]
      · split at h
        · rw [← some.inj h]
        · split at h
          · rw [← some.inj h]
            exact modeParseTs_creationtime _ _
          · split at h
            · rw [← some.inj h]
            · have hrest := ih h
              exact hrest

lemma modeParseSimple_creationtime (st : ParseState) :
    (modeParseSimple st).chan.creationtime = st.chan.creationtime := by
  unfold modeParseSimple
  simp only
  split
  · rfl
  · rfl

lemma keepsTime_wipeString (done : Done) (mode : StringMode) (s : Option ModeString) (st : ParseState) :
    KeepsTime st (modeParseWipeString env done mode s st) := by
  unfold modeParseWipeString
  split
  · exact .some rfl
  · split
    · exact .some rfl
    · exact keepsTime_buffer st _ _

lemma keepsTime_wipeout (st : ParseState) : KeepsTime st (modeParseWipeout env st) := by
  have hlimit : KeepsTime st (modeParseWipeLimit env st) := by
    unfold modeParseWipeLimit
    split
    · exact keepsTime_buffer st _ _
    · exact .some rfl
  unfold modeParseWipeout
  split
  · exact .some rfl
  · refine hlimit.bind fun st₁ => (keepsTime_wipeString _ _ _ st₁).bind fun st₂ => ?_
    refine (keepsTime_wipeString _ _ _ st₂).bind fun st₃ => (keepsTime_wipeString _ _ _ st₃).bind fun st₄ => ?_
    exact keepsTime_wipeString _ _ _ st₄

lemma keepsTime_processMasks (kind : MaskList) (bans : List Ban) (n : BanCount) (made kept : List Ban)
    (st : ParseState) : KeepsTime st (modeProcessMasks env kind bans n made kept st) := by
  induction bans generalizing n made kept st with
  | nil => exact .some (setMasks_creationtime ..)
  | cons b bans ih =>
    rw [modeProcessMasks]
    split
    · exact ih _ _ _ st
    · split
      · refine (keepsTime_buffer st _ _).bind fun st' => ?_
        split
        · exact ih _ _ _ st'
        · exact ih _ _ _ st'
      · split
        · split
          · exact ih _ _ _ st
          · split
            · exact ih _ _ _ st
            · refine (keepsTime_buffer st _ _).bind fun st' => ?_
              split
              · exact ih _ _ _ st'
              · exact ih _ _ _ st'
        · exact ih _ _ _ st

lemma keepsTime_processList (kind : MaskList) (st : ParseState) :
    KeepsTime st (modeProcessList env kind st) := by
  unfold modeProcessList
  split
  · exact keepsTime_processMasks kind _ _ _ _ st
  · exact .some rfl

lemma CliChange.apply_creationtime (c : CliChange) (m : Membership) (ch : Chan) :
    (c.apply m ch).creationtime = ch.creationtime := by
  unfold CliChange.apply Chan.checkDelayedJoins
  simp only
  split
  · split
    · rfl
    · rfl
  · rfl

lemma keepsTime_processClient (st : ParseState) (c : CliChange) :
    KeepsTime st (modeProcessClient env st c) := by
  unfold modeProcessClient
  split
  · exact .some rfl
  · next m _ =>
      split
      · exact .some rfl
      · split
        · exact .some rfl
        · split
          · exact .some rfl
          · simp only
            refine .of_eq (keepsTime_buffer _ _ _) ?_
            generalize hlevel : (if c.dir = .add ∧ c.mode = .chanop then
              st.chan.setOpLevel c.client.numnick (st.newoplevel c) else st.chan) = ch
            have htime : ch.creationtime = st.chan.creationtime := by
              rw [← hlevel]
              split
              · rfl
              · rfl
            split
            · exact (c.apply_creationtime m ch).trans htime
            · exact htime

lemma keepsTime_processClients (cs : List CliChange) (st : ParseState) :
    KeepsTime st (modeProcessClients env cs st) := by
  induction cs generalizing st with
  | nil => exact .some rfl
  | cons c cs ih =>
    rw [modeProcessClients]
    exact (keepsTime_processClient st c).bind ih

lemma keepsTime_finish (st : ParseState) : KeepsTime st (modeParseFinish env st) := by
  unfold modeParseFinish
  split
  · exact .some rfl
  · have hsimple := modeParseSimple_creationtime st
    refine ((keepsTime_wipeout (modeParseSimple st)).of_eq hsimple).bind fun st₁ => ?_
    refine (keepsTime_processList _ st₁).bind fun st₂ => (keepsTime_processList _ st₂).bind fun st₃ => ?_
    exact keepsTime_processClients _ st₃

lemma modeParse_creationtime {mbuf : Option ModeBuf} {ch : Chan} {modestr : Str} {args : List Str}
    {flags : ParseFlags} {member : Option Str} (h : modeParse env mbuf ch modestr args flags member = some st) :
    st.chan.creationtime ≤ ch.creationtime := by
  simp only [modeParse, bind_eq_bind, bind_eq_some_iff] at h
  obtain ⟨r, hr, h⟩ := h
  have hwords : r.1.chan.creationtime ≤ ch.creationtime := modeParseWords_creationtime hr
  split at h
  · rw [← some.inj h]
    exact hwords
  · exact (keepsTime_finish r.1 st h).le.trans hwords

/-! ## The neighbour -/

/-- A channel without a creation time, or none. -/
def Timeless (c : Option Chan) : Prop := ∀ c', c = some c' → c'.creationtime ≤ 0

lemma msMode_creationtime {uworld : Bool} {parv : List Str} {c r : Option Chan} (h : Timeless c)
    (hr : msMode env uworld parv c = some r) : Timeless r := by
  unfold msMode at hr
  split at hr
  · split at hr
    · rw [← some.inj hr]
      exact h
    · next c name modestr args _ =>
        simp only [bind_eq_bind, bind_eq_some_iff] at hr
        obtain ⟨st, hst, hr⟩ := hr
        have htime : st.chan.creationtime ≤ 0 := (modeParse_creationtime hst).trans (h c rfl)
        split at hr
        · rw [← some.inj hr]
          exact fun c' hc' => some.inj hc' ▸ htime
        · simp only [bind_eq_some_iff] at hr
          obtain ⟨r', hr', hr⟩ := hr
          rw [← some.inj hr]
          intro c' hc'
          rw [← some.inj hc', modebufFlushInt_creationtime hr']
          exact htime
  · rw [← some.inj hr]
    exact h

lemma dropMember_creationtime (c : Chan) (m : Membership) :
    (c.dropMember m).creationtime = c.creationtime := by
  unfold Chan.dropMember Chan.checkDelayedJoins
  simp only
  split
  · split
    · rfl
    · rfl
  · rfl

lemma dropMembers_creationtime (ms : List Membership) (c : Chan) :
    (ms.foldl Chan.dropMember c).creationtime = c.creationtime := by
  induction ms generalizing c with
  | nil => rfl
  | cons m ms ih =>
    rw [List.foldl_cons, ih]
    exact dropMember_creationtime c m

lemma sub1FromChannel_creationtime {f : PartFeatures} {c c' : Chan} (h : sub1FromChannel f c = some c') :
    c'.creationtime = c.creationtime := by
  unfold sub1FromChannel at h
  simp only at h
  split at h
  · rw [← some.inj h]
  · split at h
    · split at h
      · rw [← some.inj h]
      · cases h
    · split at h
      · rw [← some.inj h]
      · cases h

lemma removeUserFromChannel_creationtime {f : PartFeatures} {c c' : Chan}
    (h : removeUserFromChannel f user c = some c') : c'.creationtime = c.creationtime := by
  unfold removeUserFromChannel at h
  split at h
  · rw [← some.inj h]
  · next m _ =>
      simp only at h
      split at h
      · rw [sub1FromChannel_creationtime h]
        exact (dropMembers_creationtime _ _).trans (dropMember_creationtime c m)
      · rw [← some.inj h]
        exact dropMember_creationtime c m

lemma msPart_timeless {f : PartFeatures} {name : Str} {c : Option Chan} (h : Timeless c) :
    Timeless (msPart f user name c) := by
  intro c' hc'
  obtain ⟨c₀, rfl, hpart⟩ := bind_eq_some_iff.mp hc'
  have htime := h c₀ rfl
  split at hpart
  · rw [removeUserFromChannel_creationtime hpart]
    exact htime
  · rw [← some.inj hpart]
    exact htime

lemma msJoin_timeless {f : PartFeatures} {j : Bool} {name : Str} {c r : Option Chan}
    (h : Timeless c) (hr : msJoin f j user [name] c = some r) : Timeless r := by
  have hcorrect : ∀ c, correctTime j 0 c = c := fun c => if_neg fun hc => hc.1 rfl
  unfold msJoin at hr
  simp only [hcorrect] at hr
  split at hr
  · rw [← some.inj hr]
    exact h
  · split at hr
    · rw [← some.inj hr]
      intro c' hc'
      rw [← some.inj hc']
      exact le_refl _
    · next c =>
        have htime := h c rfl
        split at hr
        · rw [← some.inj hr]
          exact h
        · split at hr
          · rw [← some.inj hr]
            exact fun c' hc' => some.inj hc' ▸ htime
          · split at hr
            · rw [← some.inj hr]
              exact h
            · split at hr
              · rw [if_pos trivial] at hr
                rw [← some.inj hr]
                exact fun c' hc' => absurd hc' (by simp)
              · next hrem =>
                  rw [← some.inj hr]
                  intro c' hc'
                  rw [← some.inj hc']
                  exact (removeUserFromChannel_creationtime hrem).le.trans htime

/-- A line that DESTRUCT leads to. `m_destruct.c` `ms_destruct`. -/
def UpLine.Bare : UpLine → Prop
  | .join _ parv => ∃ name, parv = [name]
  | _ => True

lemma bare_of_msDestruct {env : FlushEnv} {client : Str → ModeClient} {chanTS : Str} {c : Chan}
    {r : Option Chan × List UpLine} (h : msDestruct env client chanTS c = some r) : ∀ l ∈ r.2, l.Bare := by
  unfold msDestruct at h
  split at h
  · rw [← some.inj h]
    exact fun _ hl => absurd hl List.not_mem_nil
  · split at h
    · obtain ⟨ls, hls, rfl⟩ := Option.map_eq_some_iff.mp h
      simp only [resyncLines, bind_eq_bind, bind_eq_some_iff] at hls
      obtain ⟨r, -, hls⟩ := hls
      rw [← some.inj hls]
      intro l hl
      simp only [List.mem_append, List.mem_map] at hl
      rcases hl with (⟨m, -, rfl⟩ | ⟨m, -, rfl⟩) | ⟨t, -, rfl⟩
      · trivial
      · exact ⟨c.chname, rfl⟩
      · trivial
    · rw [← some.inj h]
      exact fun _ hl => absurd hl List.not_mem_nil

lemma receive_timeless {n : Neighbour} {c r : Option Chan} {l : UpLine} (hl : l.Bare) (h : Timeless c)
    (hr : receive n c l = some r) : Timeless r := by
  cases l with
  | part user name =>
    rw [← some.inj hr]
    split
    · exact msPart_timeless h
    · exact h
  | join user parv =>
    obtain ⟨name, rfl⟩ := hl
    simp only [receive] at hr
    split at hr
    · exact msJoin_timeless h hr
    · rw [← some.inj hr]
      exact h
  | mode text => exact msMode_creationtime h hr

lemma receiveAll_timeless {n : Neighbour} {ls : List UpLine} (hls : ∀ l ∈ ls, l.Bare)
    {c r : Option Chan} (h : Timeless c) (hr : ls.foldlM (receive n) c = some r) : Timeless r := by
  induction ls generalizing c with
  | nil =>
    rw [← some.inj hr]
    exact h
  | cons l ls ih =>
    rw [List.foldlM_cons, bind_eq_bind, bind_eq_some_iff] at hr
    obtain ⟨c', hc', hr⟩ := hr
    have hl := receive_timeless (hls l List.mem_cons_self) h hc'
    exact ih (fun l' hl' => hls l' (List.mem_cons_of_mem _ hl')) hl hr

/-- **No channel with a creation time is restored** by the lines that a crossed DESTRUCT leads to, whatever its
members and modes are. -/
theorem destruct_not_restored (env : FlushEnv) (client : Str → ModeClient) (n : Neighbour) (chanTS : Str)
    (c : Chan) (hc : 0 < c.creationtime) : ¬ Resynchronised env client n chanTS c := by
  rintro ⟨r, c', hr, hc', hrestored⟩
  have htimeless := receiveAll_timeless (bare_of_msDestruct hr) (fun _ h => absurd h (by simp)) hc'
  have hle := htimeless c' rfl
  rw [hrestored.creationtime] at hle
  exact absurd hc (not_lt.mpr hle)

def sampleMember : ModeUser where
  name := "bob".toList
  numnick := "ABAAB".toList
  name_len := length_bob
  num_len := length_abaab
  num_word := isWord_abaab
  channelService := false
  onService := false
  deopLchan := false

def sampleOpChan : Chan :=
  { newChan "#c".toList 1000000000 with members := [⟨"ABAAB".toList, {.chanop}, maxOpLevel⟩] }

def sampleNeighbour : Neighbour where
  feat := ⟨false, false⟩
  parse := { sampleParseEnv with findNUser _ := some sampleMember }
  uworld := false
  behind _ := true

/-- A channel with a creation time. -/
theorem destruct_not_restored_bob : 0 < sampleOpChan.creationtime ∧
    ¬ Resynchronised sampleEnv (fun _ => sampleMember.toModeClient) sampleNeighbour
      "1000000000".toList sampleOpChan :=
  ⟨by decide, destruct_not_restored _ _ _ _ _ (by decide)⟩

/-- **An operator is lost.** A channel has one operator. The lines that a crossed DESTRUCT leads to make the
other side a channel with the creation time zero and a member who is not an operator. -/
theorem destruct_loses_op : ∃ r c',
    msDestruct sampleEnv (fun _ => sampleMember.toModeClient) "1000000000".toList sampleOpChan = some r ∧
      r.2 = [.part "ABAAB".toList "#c".toList, .join "ABAAB".toList ["#c".toList],
        .mode "AB M #c +o ABAAB 1000000000".toList] ∧
      r.2.foldlM (receive sampleNeighbour) none = some (some c') ∧ c'.creationtime = 0 ∧
      c'.members = [⟨"ABAAB".toList, {.deopped}, maxOpLevel⟩] ∧ ¬ Restored sampleOpChan c' := by
  refine ⟨_, _, rfl, by rfl, rfl, by decide +kernel, by decide +kernel, fun h => ?_⟩
  exact absurd h.creationtime (by decide +kernel)

end Nefarious.Channel
