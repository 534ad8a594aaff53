import Nefarious.Channel.ModeLine
import Nefarious.Channel.ModeParse
import Mathlib.Data.Finset.Lattice.Lemmas

/-!
# A bounced MODE

When the timestamp of a MODE line is newer than the channel, `mode_parse` bounces the change: it is to have no
effect.

Names: `channel.c`.
-/

namespace Nefarious.Channel

open Option (bind_eq_bind bind_some map_some some.inj)
open List (append_assoc append_nil map_map mem_cons mem_cons_of_mem mem_cons_self mem_map suffix_rfl)

/-! ## What is compared -/

/-- What is seen of a mask. `channel.h` `struct Ban`. -/
def Ban.shown (b : Ban) : ModeString × Str × ℤ := (b.banstr, b.who, b.when)

/-- A channel without its lists of masks. -/
def Chan.base (c : Chan) : Chan := { c with banlist := [], exceptlist := [] }

/-- A channel that was not changed: its timestamp, modes, limit, key, passwords, redirect and members
with their statuses and op-levels are the same, and the same masks are seen. -/
structure Unchanged (c c' : Chan) : Prop where
  base : c'.base = c.base
  masks : ∀ kind, (c'.masks kind).map Ban.shown = (c.masks kind).map Ban.shown

@[simp] lemma base_setMasks (c : Chan) (l : List Ban) (kind : MaskList) :
    (c.setMasks l kind).base = c.base := by
  cases kind <;> rfl

@[simp] lemma masks_setMasks (c : Chan) (l : List Ban) (kind : MaskList) :
    (c.setMasks l kind).masks kind = l := by
  cases kind <;> rfl

lemma masks_setMasks_ne (c : Chan) (l : List Ban) {kind kind' : MaskList} (h : kind' ≠ kind) :
    (c.setMasks l kind).masks kind' = c.masks kind' := by
  cases kind <;> cases kind' <;> first | rfl | exact absurd rfl h

lemma mode_eq_of_base {c c' : Chan} (h : c'.base = c.base) : c'.mode = c.mode :=
  show c'.base.mode = c.base.mode from congrArg Chan.mode h

/-! ## Buffers that do not touch the channel -/

/-- A buffer whose printing changes nothing of the channel and does not fail: it does not set or remove delayed
joins against the channel, and no ops with an op-level are removed. `modebuf_flush_int` -/
structure BufQuiet (ch : Chan) (mb : ModeBuf) : Prop where
  rem : .deljoins ∈ mb.rem → .deljoins ∈ ch.mode
  add : .deljoins ∈ mb.add → .wasdeljoins ∉ ch.mode
  null : ∀ a ∈ mb.args, nullText a = false

variable {mb : ModeBuf} {dir : Dir} {a : ModeArg} {env : ParseEnv} {args : List Str} {flags : ParseFlags}

lemma BufQuiet.congr {ch ch' : Chan} (h : BufQuiet ch mb) (he : ch'.mode = ch.mode) : BufQuiet ch' mb :=
  ⟨fun hm => he ▸ h.rem hm, fun hm => he ▸ h.add hm, h.null⟩

lemma BufQuiet.flushDelJoins {ch : Chan} {mb : ModeBuf} (h : BufQuiet ch mb) (j : Bool) :
    flushDelJoins j ch mb = (ch, mb) := by
  have h1 : flushRemDelJoins j ch mb = (ch, mb) := by
    unfold flushRemDelJoins
    rw [if_neg]
    rintro ⟨hr, hd, -⟩
    exact hd (h.rem hr)
  have h2 : flushAddDelJoins ch mb = (ch, mb) := by
    unfold flushAddDelJoins
    rw [if_neg]
    rintro ⟨ha, hw⟩
    exact h.add ha hw
  unfold Nefarious.Channel.flushDelJoins
  rw [h1]
  exact h2

lemma mem_partitionArgs (nokey : Bool) (n : ℕ) (args : List (Dir × ModeArg)) :
    (∀ a ∈ (partitionArgs nokey n args).1, a ∈ args) ∧ ∀ a ∈ (partitionArgs nokey n args).2, a ∈ args := by
  induction args generalizing n with
  | nil => exact ⟨fun a h => h, fun a h => h⟩
  | cons b args ih =>
    obtain ⟨dir, b⟩ := b
    rw [partitionArgs]
    split
    · obtain ⟨h1, h2⟩ := ih n
      refine ⟨fun a h => mem_cons_of_mem _ (h1 a h), fun a h => ?_⟩
      exact (mem_cons.1 h).elim (fun e => e ▸ mem_cons_self)
        (fun h => mem_cons_of_mem _ (h2 a h))
    · obtain ⟨h1, h2⟩ := ih (n - (b.room nokey + 1))
      refine ⟨fun a h => ?_, fun a h => mem_cons_of_mem _ (h2 a h)⟩
      exact (mem_cons.1 h).elim (fun e => e ▸ mem_cons_self)
        (fun h => mem_cons_of_mem _ (h1 a h))

lemma BufQuiet.flushOnce {ch : Chan} (h : BufQuiet ch mb) (env : FlushEnv) :
    ∃ mb' lines, modebufFlushOnce env ch mb = some (ch, mb', lines) ∧ BufQuiet ch mb' := by
  unfold modebufFlushOnce
  split
  · exact ⟨mb, [], rfl, h⟩
  · obtain ⟨hkept, hsaved⟩ := mem_partitionArgs mb.dest.nokey (totalbuflen mb.dest.deop) mb.args
    rw [h.flushDelJoins]
    simp only
    rw [if_neg]
    · exact ⟨_, _, rfl, by simp, by simp, fun a ha => h.null a (hsaved a ha)⟩
    · rintro ⟨-, hany⟩
      obtain ⟨a, ha, hn⟩ := List.any_eq_true.1 hany
      rw [h.null a (hkept a ha)] at hn
      exact absurd hn (by decide)

lemma BufQuiet.arg {ch : Chan} (h : BufQuiet ch mb) (env : FlushEnv) (hn : nullText (dir, a) = false) :
    ∃ mb' lines, modebufArg env ch mb dir a = some (ch, mb', lines) ∧ BufQuiet ch mb' := by
  have happend : BufQuiet ch { mb with args := mb.args ++ [(dir, a)] } := by
    refine ⟨h.rem, h.add, fun b hb => ?_⟩
    exact (List.mem_append.1 hb).elim (h.null b) (fun hb => List.mem_singleton.1 hb ▸ hn)
  have hrem : ∀ f, f ≠ ModeFlag.deljoins → BufQuiet ch { mb with rem := insert f mb.rem } :=
    fun f hf => ⟨fun hm => h.rem (Finset.mem_of_mem_insert_of_ne hm hf.symm), h.add, h.null⟩
  unfold modebufArg
  split
  · exact ⟨_, _, rfl, hrem .limit (by decide)⟩
  · exact ⟨_, _, rfl, hrem .redirect (by decide)⟩
  · by_cases hfull : maxModeParams - (if mb.dest.deop then 1 else 0) ≤ (mb.args ++ [(dir, a)]).length
    · obtain ⟨mb', lines, hrun, hq⟩ := happend.flushOnce env
      refine ⟨mb', lines, ?_, hq⟩
      simp only
      rw [if_pos hfull]
      simp [modebufFlushInt, hrun]
    · refine ⟨_, [], ?_, happend⟩
      simp only
      rw [if_neg hfull]

/-! ## The condition -/

/-- The argument that the next letter reads, if it reads one. -/
def ParseState.next (st : ParseState) : Option Str := st.args.head?

/-- A string mode that is not read a second time. `mode_parse_key`. -/
def ParseState.First (st : ParseState) (add del : Done) : Prop :=
  match st.dir with
  | .add => add ∉ st.done
  | .del => add ∉ st.done ∧ del ∉ st.done

/-- A redirect that is accepted. `mode_parse_redir`. -/
def ParseState.RedirRead (env : ParseEnv) (st : ParseState) (s : Str) : Prop :=
  strEq s st.chan.chname = false ∧
    (env.feat.chmode 'L' ∨ env.sptr.isServer ∨ env.sptr.channelService ∨ env.sptr.isOper) ∧
    IsRedirect s

/-- The mask that a word is completed to. `mode_parse_ban`. -/
def readMask (env : ParseEnv) (s : Str) : Option ModeString :=
  let s := s.takeWhile (· ≠ ' ')
  if s = [] ∨ s.head? = some ':' then none else env.prettyExtmask s

/-- A letter whose early write changes nothing, in the state before it. While the server is in a burst a mask
that is added counts as one. `mode_parse_limit` … `mode_parse_except` -/
def LetterQuiet (env : ParseEnv) (st : ParseState) (c : Char) : Prop :=
  if c = 'l' then
    match st.dir with
    | .add => ∀ s ∈ st.next, 2 ^ 31 ≤ (UInt32.ofNat (strtoul s)).toNat ∨
        UInt32.ofNat (strtoul s) = 0 ∨ UInt32.ofNat (strtoul s) = st.chan.limit
    | .del => st.chan.limit = 0
  else if c = 'L' then
    .redir ∈ st.done ∨
      match st.dir with
      | .add => ∀ s ∈ st.next, st.RedirRead env s → strEq (optText st.chan.redir) s = true
      | .del => st.chan.redir = none
  else if c = 'k' then
    ∀ s ∈ st.next, st.First .keyAdd .keyDel → IsCleanKey s →
      match st.dir with
      | .add => strEq (optText st.chan.key) s = true
      | .del => st.chan.key = none
  else if c = 'U' then
    ∀ s ∈ st.next, st.First .upassAdd .upassDel → IsCleanKey s →
      match st.dir with
      | .add => strEq (optText st.chan.upass) s = true
      | .del => st.chan.upass = none
  else if c = 'A' then
    ∀ s ∈ st.next, st.First .apassAdd .apassDel → IsCleanKey s →
      match st.dir with
      | .add => strEq (optText st.chan.apass) s = true ∨
          (st.chan.apass.isSome ∧ ∀ m ∈ st.actor, m.oplevel = 0)
      | .del => st.chan.apass = none ∧ st.chan.upass = none ∧
          ∀ m ∈ st.chan.members, .chanop ∈ m.status → m.oplevel = maxOpLevel
  else if c = 'b' ∨ (c = 'e' ∧ (env.sptr.isServer ∨ env.feat.excepts)) then
    env.cptrBurst = true → st.dir = .add → ∀ s ∈ st.next, readMask env s = none
  else True

/-- The change of a member whose op-level stays: the user is not a member, or nothing changes, or the new
op-level is the old one. Ops are removed without an op-level. `mode_process_clients` -/
def ChangeQuiet (env : ParseEnv) (st : ParseState) (c : CliChange) : Prop :=
  c.mode = .chanop → match c.dir with
    | .add => ∀ m ∈ st.chan.findMember c.client.numnick,
        st.sameStatus env c m = true ∨ st.newoplevel c = m.oplevel
    | .del => maxOpLevel ≤ c.oplevel

/-- What the letters leave behind: where modes are set, one word, which is the timestamp; delayed
joins that are not set against hidden members; and quiet changes of members. -/
structure EndQuiet (env : ParseEnv) (st : ParseState) : Prop where
  word : st.flags.set = true → st.args.length = 1
  joins : .deljoins ∈ st.add → .wasdeljoins ∉ st.chan.mode
  changes : ∀ c ∈ st.changes, ChangeQuiet env st c

/-- The condition on the letters of a line, each in the state before it. -/
def LettersQuiet (env : ParseEnv) : Str → ParseState → Prop
  | [], st => EndQuiet env st
  | c :: cs, st => (st.flags.set = true → LetterQuiet env st c) ∧
      ∀ st', modeParseLetter env st c = some st' → LettersQuiet env cs st'

/-! ## Letters that leave the channel -/

/-- The buffer of a parse state is there and quiet. -/
def ParseState.BufOk (st : ParseState) : Prop := ∃ mb, st.mbuf = some mb ∧ BufQuiet st.chan mb

/-- A step of the parsing that leaves the channel, the flags, the member and the marks of the lists,
and reads at most arguments. -/
structure Keeps (st st' : ParseState) : Prop where
  chan : st'.chan = st.chan
  flags : st'.flags = st.flags
  member : st'.member = st.member
  args : st'.args <:+ st.args
  clean : ∀ kind : MaskList, kind.clean ∈ st'.done ↔ kind.clean ∈ st.done
  buf : st'.BufOk

lemma Keeps.refl {st : ParseState} (h : st.BufOk) : Keeps st st :=
  ⟨rfl, rfl, rfl, suffix_rfl, fun _ => Iff.rfl, h⟩

lemma Keeps.trans {st st' st'' : ParseState} (h : Keeps st st') (h' : Keeps st' st'') : Keeps st st'' where
  chan := h'.chan.trans h.chan
  flags := h'.flags.trans h.flags
  member := h'.member.trans h.member
  args := h'.args.trans h.args
  clean kind := (h'.clean kind).trans (h.clean kind)
  buf := h'.buf

/-- A step that yields a state that keeps the channel. -/
def KeepsSome (st : ParseState) (r : Option ParseState) : Prop := ∃ st', r = some st' ∧ Keeps st st'

lemma KeepsSome.refl {st : ParseState} (h : st.BufOk) : KeepsSome st (some st) := ⟨st, rfl, Keeps.refl h⟩

lemma Keeps.someTrans {st st' : ParseState} {r : Option ParseState} (h : Keeps st st')
    (hr : KeepsSome st' r) : KeepsSome st r := by
  obtain ⟨st'', rfl, h'⟩ := hr
  exact ⟨st'', rfl, h.trans h'⟩

lemma KeepsSome.unless {st : ParseState} {c : Prop} [Decidable c] {r : Option ParseState} (h : st.BufOk)
    (hr : ¬ c → KeepsSome st r) : KeepsSome st (if c then some st else r) := by
  split
  · exact KeepsSome.refl h
  · next hc => exact hr hc

lemma KeepsSome.clean {st : ParseState} {s : Str} {r : IsCleanKey s → Option ParseState} (h : st.BufOk)
    (hr : ∀ hs, KeepsSome st (r hs)) : KeepsSome st (if hs : IsCleanKey s then r hs else some st) := by
  split
  · exact hr _
  · exact KeepsSome.refl h

lemma grab_spec (hm : env.sptr.myUser = false) (st : ParseState) :
    (st.grab env = none ∧ st.next = none) ∨ ∃ s args, st.args = s :: args ∧ st.next = some s ∧
        st.grab env = some (s, { st with args := args, maxArgs := st.maxArgs - 1 }) := by
  unfold ParseState.grab ParseState.next
  rw [if_neg (by simp [hm])]
  cases hargs : st.args with
  | nil => exact .inl ⟨rfl, rfl⟩
  | cons s args => exact .inr ⟨s, args, rfl, rfl, rfl⟩

lemma keeps_args {st : ParseState} (h : st.BufOk) {s : Str}
    (ha : st.args = s :: args) : Keeps st { st with args := args, maxArgs := st.maxArgs - 1 } :=
  ⟨rfl, rfl, rfl, ha ▸ List.suffix_cons s args, fun _ => Iff.rfl, h⟩

lemma keeps_done {st : ParseState} (h : st.BufOk) {d : Done}
    (hd : d ≠ .banclean ∧ d ≠ .exceptclean) : Keeps st { st with done := insert d st.done } := by
  refine ⟨rfl, rfl, rfl, suffix_rfl, fun kind => ?_, h⟩
  cases kind
  · simp [MaskList.clean, hd.1.symm]
  · simp [MaskList.clean, hd.2.symm]

lemma ParseState.BufOk.buffer {st : ParseState} (h : st.BufOk) (env : ParseEnv) (hn : nullText (dir, a) = false) :
    ∃ mb lines, st.buffer env dir a = some { st with mbuf := some mb, lines := lines } ∧
      BufQuiet st.chan mb := by
  obtain ⟨mb, hmb, hq⟩ := h
  obtain ⟨mb', lines, hrun, hq'⟩ := hq.arg env.flush hn
  refine ⟨mb', st.lines ++ lines, ?_, hq'⟩
  unfold ParseState.buffer
  rw [hmb]
  simp only [hrun, map_some]

lemma keeps_buffer {st : ParseState} (h : st.BufOk) (hn : nullText (dir, a) = false)
    (w : ParseState → Option ParseState) (hw : ∀ st', Keeps st st' → st'.dir = st.dir → w st' = some st') :
    KeepsSome st ((st.buffer env dir a).bind w) := by
  obtain ⟨mb, lines, hrun, hq⟩ := h.buffer env hn
  have hk : Keeps st { st with mbuf := some mb, lines := lines } :=
    ⟨rfl, rfl, rfl, suffix_rfl, fun _ => Iff.rfl, mb, rfl, hq⟩
  refine ⟨_, ?_, hk⟩
  rw [hrun, bind_some]
  exact hw _ hk rfl

lemma keeps_bufferString {st : ParseState} (h : st.BufOk) (mode : StringMode)
    (old : Option ModeString) (t : ModeString) (w : ParseState → Option ParseState)
    (hw : ∀ st', Keeps st st' → st'.dir = st.dir → w st' = some st') :
    KeepsSome st ((st.bufferString env mode old t).bind w) := by
  have hn : ∀ dir s, nullText (dir, .string mode s) = false := by
    intro dir s
    cases dir <;> rfl
  unfold ParseState.bufferString
  split
  · cases old with
    | some old => exact keeps_buffer h (hn _ _) w hw
    | none => exact keeps_buffer h (hn _ _) w hw
  · exact keeps_buffer h (hn _ _) w hw

/-- The flags that `ms_mode` parses with. `m_mode.c` `ms_mode`. -/
def MsFlags (f : ParseFlags) : Prop := f = setStrictForce ∨ f = strictBounce

lemma MsFlags.spec {f : ParseFlags} (h : MsFlags f) : f.notoper = false ∧ f.notmember = false ∧ f.wipeout =
    false ∧ f.burst = false ∧ f.ishalfop = false ∧ f.strict = true ∧ (f.set = true → f = setStrictForce) := by
  rcases h with rfl | rfl
  · exact ⟨rfl, rfl, rfl, rfl, rfl, rfl, fun _ => rfl⟩
  · exact ⟨rfl, rfl, rfl, rfl, rfl, rfl, fun h => absurd h (by decide)⟩

lemma ParseState.BufOk.isNone {st : ParseState} (h : st.BufOk) : st.mbuf.isNone = false := by
  obtain ⟨mb, hmb, -⟩ := h
  rw [hmb]
  rfl

lemma noChange_of_add {st : ParseState} (hf : MsFlags st.flags) (ha : st.dir = .add) {old : Option ModeString}
    {t : ModeString} (he : strEq (optText old) t.text = true) : st.noChange old t = true := by
  simp only [ParseState.noChange, hf.spec.2.2.1, ha, he]
  decide

lemma modeParseLimitSet_keeps {st : ParseState} (h : st.BufOk) (t : UInt32)
    (hq : st.flags.set = true → st.dir = .del ∧ st.chan.limit = 0) :
    KeepsSome st (modeParseLimitSet env st t) := by
  unfold modeParseLimitSet
  refine .unless h fun _ => .unless h fun hdel => .unless h fun _ => .unless h fun _ => ?_
  have hk := keeps_done h (d := .limit) (by decide)
  refine hk.someTrans (.unless hk.buf fun _ => ?_)
  apply keeps_buffer hk.buf
  · cases st.dir <;> rfl
  · intro st' hk' hd
    rw [if_neg]
    rw [hk'.flags]
    exact fun hs => hdel (hq hs)

lemma modeParseLimit_keeps {st : ParseState} (h : st.BufOk) (hm : env.sptr.myUser = false)
    (hf : MsFlags st.flags) (hq : st.flags.set = true → LetterQuiet env st 'l') :
    KeepsSome st (modeParseLimit env st) := by
  unfold modeParseLimit
  cases hd : st.dir with
  | del =>
    apply modeParseLimitSet_keeps h
    intro hs
    have hq := hq hs
    rw [LetterQuiet, if_pos rfl, hd] at hq
    exact ⟨hd, hq⟩
  | add =>
    obtain ⟨hg, -⟩ | ⟨s, args, ha, hnext, hg⟩ := grab_spec hm st
    · rw [hg]
      exact KeepsSome.refl h
    · rw [hg]
      have hk := keeps_args h ha
      refine hk.someTrans (.unless hk.buf fun hbig => .unless hk.buf fun hsame => ?_)
      apply modeParseLimitSet_keeps hk.buf
      intro hs
      have hq := hq hs
      rw [LetterQuiet, if_pos rfl, hd] at hq
      obtain hb | h0 := hq s hnext
      · exact absurd hb hbig
      · exact absurd ⟨by simp [hf.spec.2.2.1], h0⟩ hsame

lemma modeParseRedirSet_keeps {st : ParseState} (h : st.BufOk)
    (hf : MsFlags st.flags) (t : ModeString) (hq : st.flags.set = true → .redir ∈ st.done ∨
      (st.dir = .add ∧ strEq (optText st.chan.redir) t.text = true)) :
    KeepsSome st (modeParseRedirSet env st t) := by
  unfold modeParseRedirSet
  refine .unless h fun _ => .unless h fun hdone => ?_
  have hk := keeps_done h (d := .redir) (by decide)
  refine hk.someTrans (.unless hk.buf fun _ => .unless hk.buf fun _ => .unless hk.buf fun hno => ?_)
  apply keeps_bufferString hk.buf
  intro st' hk' hd
  rw [if_neg]
  rw [hk'.flags]
  intro hs
  obtain hq | ⟨ha, he⟩ := hq hs
  · exact hdone hq
  · exact hno (noChange_of_add hf ha he)

lemma modeParseRedir_keeps {st : ParseState} (h : st.BufOk) (hm : env.sptr.myUser = false)
    (hf : MsFlags st.flags) (hq : st.flags.set = true → LetterQuiet env st 'L') :
    KeepsSome st (modeParseRedir env st) := by
  unfold modeParseRedir
  cases hd : st.dir with
  | del =>
    cases hr : st.chan.redir with
    | none => exact KeepsSome.refl h
    | some t =>
      apply modeParseRedirSet_keeps h hf
      intro hs
      have hq := hq hs
      rw [LetterQuiet, if_neg (by decide), if_pos rfl, hd] at hq
      refine hq.imp_right (fun hn => ?_)
      rw [hr] at hn
      exact absurd hn (by simp)
  | add =>
    obtain ⟨hg, -⟩ | ⟨s, args, ha, hnext, hg⟩ := grab_spec hm st
    · rw [hg]
      exact KeepsSome.refl h
    · rw [hg]
      have hk := keeps_args h ha
      refine hk.someTrans (.unless hk.buf fun hself => .unless hk.buf fun hpriv => ?_)
      split
      next hred =>
        apply modeParseRedirSet_keeps hk.buf hf
        intro hs
        have hq := hq hs
        rw [LetterQuiet, if_neg (by decide), if_pos rfl, hd] at hq
        refine hq.imp_right (fun hr => ⟨hd, hr s hnext ⟨?_, not_not.1 hpriv, hred⟩⟩)
        exact Bool.eq_false_iff.2 hself
      next => exact KeepsSome.refl hk.buf

lemma once_spec (st : ParseState) (add del : Done) :
    st.once add del = none ∨ ∃ d, (d = add ∨ d = del) ∧ st.First add del ∧
      st.once add del = some { st with done := insert d st.done } := by
  unfold ParseState.once ParseState.First
  cases st.dir with
  | add =>
    by_cases hd : add ∈ st.done
    · exact .inl (by simp [hd])
    · exact .inr ⟨add, Or.inl rfl, hd, by simp [hd]⟩
  | del =>
    by_cases hd : add ∈ st.done ∨ del ∈ st.done
    · exact .inl (by simp [hd])
    · exact .inr ⟨del, Or.inr rfl, not_or.1 hd, by simp [hd]⟩

lemma keeps_quietString {st : ParseState} (h : st.BufOk) (hf : MsFlags st.flags)
    (mode : StringMode) (t : ModeString) (get : Chan → Option ModeString)
    (set : Chan → Option ModeString → Chan) (hset : ∀ ch, set ch (get ch) = ch)
    (hno : ¬ st.noChange (get st.chan) t = true)
    (hadd : st.flags.set = true → st.dir = .add → strEq (optText (get st.chan)) t.text = true)
    (hdel : st.flags.set = true → st.dir = .del → get st.chan = none) :
    KeepsSome st ((st.bufferString env mode (get st.chan) t).bind fun st =>
      if st.flags.set then
        some { st with chan := set st.chan (if st.dir = Dir.del then none else some t) }
      else some st) := by
  apply keeps_bufferString h
  intro st' hk hdir
  split
  next hs =>
    rw [hk.flags] at hs
    cases hsd : st.dir with
    | add => exact absurd (noChange_of_add hf hsd (hadd hs hsd)) hno
    | del =>
      -- What is removed is not there.
      have hnone : get st'.chan = none := by
        rw [hk.chan]
        exact hdel hs hsd
      rw [if_pos (hdir.trans hsd), ← hnone, hset]
  · rfl

lemma modeParseKey_keeps {st : ParseState} (h : st.BufOk) (hm : env.sptr.myUser = false)
    (hf : MsFlags st.flags) (hq : st.flags.set = true → LetterQuiet env st 'k') :
    KeepsSome st (modeParseKey env st) := by
  unfold modeParseKey
  obtain ⟨hg, -⟩ | ⟨s, args, ha, hnext, hg⟩ := grab_spec hm st
  · rw [hg]
    exact KeepsSome.refl h
  rw [hg]
  have hk := keeps_args h ha
  refine hk.someTrans (.unless hk.buf fun _ => ?_)
  obtain ho | ⟨d, hd, hfirst, ho⟩ :=
    once_spec { st with args := args, maxArgs := st.maxArgs - 1 } .keyAdd .keyDel
  · rw [ho]
    exact KeepsSome.refl hk.buf
  rw [ho]
  have hk' := keeps_done hk.buf (d := d) (by rcases hd with rfl | rfl <;> decide)
  refine hk'.someTrans (.clean hk'.buf fun hclean => .unless hk'.buf fun _ => ?_)
  refine .unless hk'.buf fun _ => .unless hk'.buf fun _ => .unless hk'.buf fun hno => ?_
  have hquiet : st.flags.set = true → match st.dir with
      | .add => strEq (optText st.chan.key) s = true
      | .del => st.chan.key = none := by
    intro hs
    have hq := hq hs
    rw [LetterQuiet, if_neg (by decide), if_neg (by decide), if_pos rfl] at hq
    exact hq s hnext hfirst hclean
  refine keeps_quietString hk'.buf hf .key _ Chan.key (fun ch k => { ch with key := k }) (fun _ => rfl) hno
    (fun hs hsd => ?_) (fun hs hsd => ?_)
  · have hq := hquiet hs
    rw [show st.dir = .add from hsd] at hq
    exact hq
  · have hq := hquiet hs
    rw [show st.dir = .del from hsd] at hq
    exact hq

lemma modeParseUpass_keeps {st : ParseState} (h : st.BufOk) (hm : env.sptr.myUser = false)
    (hf : MsFlags st.flags) (hq : st.flags.set = true → LetterQuiet env st 'U') :
    KeepsSome st (modeParseUpass env st) := by
  unfold modeParseUpass
  obtain ⟨hg, -⟩ | ⟨s, args, ha, hnext, hg⟩ := grab_spec hm st
  · rw [hg]
    exact KeepsSome.refl h
  rw [hg]
  have hk := keeps_args h ha
  refine hk.someTrans (.unless hk.buf fun _ => .unless hk.buf fun _ => .unless hk.buf fun _ => ?_)
  obtain ho | ⟨d, hd, hfirst, ho⟩ :=
    once_spec { st with args := args, maxArgs := st.maxArgs - 1 } .upassAdd .upassDel
  · rw [ho]
    exact KeepsSome.refl hk.buf
  rw [ho]
  have hk' := keeps_done hk.buf (d := d) (by rcases hd with rfl | rfl <;> decide)
  refine hk'.someTrans (.clean hk'.buf fun hclean => .unless hk'.buf fun _ => ?_)
  refine .unless hk'.buf fun _ => .unless hk'.buf fun hno => .unless hk'.buf fun _ => ?_
  have hquiet : st.flags.set = true → match st.dir with
      | .add => strEq (optText st.chan.upass) s = true
      | .del => st.chan.upass = none := by
    intro hs
    have hq := hq hs
    rw [LetterQuiet, if_neg (by decide), if_neg (by decide), if_neg (by decide), if_pos rfl] at hq
    exact hq s hnext hfirst hclean
  refine keeps_quietString hk'.buf hf .upass _ Chan.upass (fun ch k => { ch with upass := k }) (fun _ => rfl)
    hno (fun hs hsd => ?_) (fun hs hsd => ?_)
  · have hq := hquiet hs
    rw [show st.dir = .add from hsd] at hq
    exact hq
  · have hq := hquiet hs
    rw [show st.dir = .del from hsd] at hq
    exact hq

lemma mapMember_eq_self {ch : Chan} {user : Str} {f : Membership → Membership}
    (h : ∀ m ∈ ch.findMember user, f m = m) : ch.mapMember user f = ch := by
  have hl : ∀ ms : List Membership, (∀ m ∈ ms.find? (fun m => m.user = user), f m = m) →
      updateMember user f ms = ms := by
    intro ms
    induction ms with
    | nil => exact fun _ => rfl
    | cons m ms ih =>
      intro hms
      rw [updateMember]
      split
      next hu =>
        rw [hms m (by simp [hu])]
      next hu =>
        rw [ih (fun m' hm' => hms m' (by simpa [hu] using hm'))]
  unfold Chan.mapMember
  rw [hl ch.members h]

lemma setApass_eq_self {st st' : ParseState} (hf : MsFlags st.flags) (hk : Keeps st st')
    (hdir : st'.dir = st.dir) (t : ModeString)
    (hadd : st.dir = .add → st.chan.apass.isSome ∧ ∀ m ∈ st.actor, m.oplevel = 0)
    (hdel : st.dir = .del → st.chan.apass = none ∧ st.chan.upass = none ∧
      ∀ m ∈ st.chan.members, .chanop ∈ m.status → m.oplevel = maxOpLevel) :
    st'.setApass t = st'.chan := by
  unfold ParseState.setApass
  rw [hdir]
  cases hd : st.dir with
  | add =>
    obtain ⟨hsome, hact⟩ := hadd hd
    have hset : ¬ (st'.chan.apass.isNone = true ∨ st'.flags.burst = true) := by
      rw [hk.chan, hk.flags, hf.spec.2.2.2.1]
      rintro (hn | hb)
      · exact absurd (Option.isNone_iff_eq_none.1 hn) (Option.isSome_iff_ne_none.1 (by simpa using hsome))
      · exact absurd hb (by decide)
    simp only [hset, if_false]
    cases hu : st'.member with
    | none => rfl
    | some user =>
      apply mapMember_eq_self
      intro m hm
      rw [← hact m ?_]
      rw [ParseState.actor, ← hk.member, hu, ← hk.chan]
      exact hm
  | del =>
    obtain ⟨ha, hu, hlev⟩ := hdel hd
    have hmem : st.chan.members.map (fun m => if Chfl.chanop ∈ m.status then
        { m with oplevel := maxOpLevel } else m) = st.chan.members := by
      refine (List.map_congr_left (fun m hm => ?_)).trans (List.map_id _)
      split
      next ho => rw [← hlev m hm ho]; rfl
      · rfl
    have hnone : ({ st.chan with apass := none, upass := none } : Chan) = st.chan := by
      nth_rewrite 2 [← ha]
      nth_rewrite 1 [← hu]
      rfl
    simp only [hk.chan, hnone, Chan.revertOpLevels, hmem]

lemma modeParseApass_keeps {st : ParseState} (h : st.BufOk) (hm : env.sptr.myUser = false)
    (hf : MsFlags st.flags) (hq : st.flags.set = true → LetterQuiet env st 'A') :
    KeepsSome st (modeParseApass env st) := by
  unfold modeParseApass
  obtain ⟨hg, -⟩ | ⟨s, args, ha, hnext, hg⟩ := grab_spec hm st
  · rw [hg]
    exact KeepsSome.refl h
  rw [hg]
  have hk := keeps_args h ha
  refine hk.someTrans (.unless hk.buf fun _ => .unless hk.buf fun _ => ?_)
  obtain ho | ⟨d, hd, hfirst, ho⟩ :=
    once_spec { st with args := args, maxArgs := st.maxArgs - 1 } .apassAdd .apassDel
  · rw [ho]
    exact KeepsSome.refl hk.buf
  rw [ho]
  have hk' := keeps_done hk.buf (d := d) (by rcases hd with rfl | rfl <;> decide)
  refine hk'.someTrans (.clean hk'.buf fun hclean => .unless hk'.buf fun _ => ?_)
  refine .unless hk'.buf fun hno => .unless hk'.buf fun _ => ?_
  apply keeps_bufferString hk'.buf
  intro st' hk'' hdir
  split
  next hs =>
    rw [hk''.flags] at hs
    have hq := hq hs
    rw [LetterQuiet, if_neg (by decide), if_neg (by decide), if_neg (by decide),
      if_neg (by decide), if_pos rfl] at hq
    have hq := hq s hnext hfirst hclean
    rw [setApass_eq_self hf (hk.trans (hk'.trans hk'')) hdir]
    · intro hsd
      have hsd : st.dir = .add := hsd
      rw [hsd] at hq
      exact hq.resolve_left (fun he => hno (noChange_of_add hf hsd he))
    · intro hsd
      have hsd : st.dir = .del := hsd
      rw [hsd] at hq
      exact hq
  · rfl

lemma modeParseClient_keeps {st : ParseState} (h : st.BufOk)
    (hm : env.sptr.myUser = false) (mode : ClientMode) : Keeps st (modeParseClient env mode st) := by
  unfold modeParseClient
  obtain ⟨hg, -⟩ | ⟨s, args, ha, -, hg⟩ := grab_spec hm st
  · rw [hg]
    exact Keeps.refl h
  rw [hg]
  have hk := keeps_args h ha
  refine hk.trans ?_
  simp only
  split
  · exact Keeps.refl hk.buf
  split
  · exact Keeps.refl hk.buf
  split
  · exact Keeps.refl hk.buf
  · exact ⟨rfl, rfl, rfl, suffix_rfl, fun _ => Iff.rfl, hk.buf⟩

lemma modeParseDummy_keeps {st : ParseState} (h : st.BufOk)
    (hm : env.sptr.myUser = false) : Keeps st (modeParseDummy env st) := by
  unfold modeParseDummy
  obtain ⟨hg, -⟩ | ⟨s, args, ha, -, hg⟩ := grab_spec hm st
  · rw [hg]
    exact Keeps.refl h
  · rw [hg]
    exact keeps_args h ha

lemma modeParseMode_keeps {st : ParseState} (h : st.BufOk) (f : ModeFlag) :
    Keeps st (modeParseMode env f st) := by
  unfold modeParseMode
  split
  · exact Keeps.refl h
  split
  · exact Keeps.refl h
  split
  · exact Keeps.refl h
  split
  · simp only
    split
    · exact ⟨rfl, rfl, rfl, suffix_rfl, fun _ => Iff.rfl, h⟩
    split
    · exact ⟨rfl, rfl, rfl, suffix_rfl, fun _ => Iff.rfl, h⟩
    · exact ⟨rfl, rfl, rfl, suffix_rfl, fun _ => Iff.rfl, h⟩
  · exact ⟨rfl, rfl, rfl, suffix_rfl, fun _ => Iff.rfl, h⟩

lemma modeParseExmode_keeps {st : ParseState} (h : st.BufOk) (f : ExMode) :
    Keeps st (modeParseExmode f st) := by
  unfold modeParseExmode
  split
  · exact Keeps.refl h
  split
  · exact Keeps.refl h
  split
  · simp only
    split
    · exact ⟨rfl, rfl, rfl, suffix_rfl, fun _ => Iff.rfl, h⟩
    split
    · exact ⟨rfl, rfl, rfl, suffix_rfl, fun _ => Iff.rfl, h⟩
    · exact ⟨rfl, rfl, rfl, suffix_rfl, fun _ => Iff.rfl, h⟩
  · exact ⟨rfl, rfl, rfl, suffix_rfl, fun _ => Iff.rfl, h⟩

/-! ## Masks that are only remembered -/

/-- A list of masks while a line is parsed: once it is cleaned, its masks stand first and those that were added
behind them. `mode_parse_ban` -/
def MasksKept (orig cur : List Ban) (clean : Prop) : Prop :=
  (¬ clean → cur = orig) ∧ (clean → ∃ old new, cur = old ++ new ∧
    old.map Ban.shown = orig.map Ban.shown ∧ (∀ b ∈ old, .add ∉ b.flags) ∧ ∀ b ∈ new, .add ∈ b.flags)

lemma markCovered_spec (env : ParseEnv) (l : List Ban) (newban : Ban) :
    (markCovered env l newban).map Ban.shown = l.map Ban.shown ∧
      ((∀ b ∈ l, .add ∉ b.flags) → ∀ b ∈ markCovered env l newban, .add ∉ b.flags) ∧
      ((∀ b ∈ l, .add ∈ b.flags) → ∀ b ∈ markCovered env l newban, .add ∈ b.flags) := by
  have hmark : ∀ b : Ban, b.mark.shown = b.shown ∧ (.add ∈ b.mark.flags ↔ .add ∈ b.flags) := by
    intro b
    exact ⟨rfl, by simp [Ban.mark]⟩
  refine ⟨?_, ?_, ?_⟩
  · unfold markCovered
    rw [map_map]
    apply List.map_congr_left
    intro b _
    simp only [Function.comp]
    split
    · exact (hmark b).1
    · rfl
  · intro h b hb
    obtain ⟨c, hc, rfl⟩ := mem_map.1 hb
    split
    · exact fun ha => h c hc ((hmark c).2.1 ha)
    · exact h c hc
  · intro h b hb
    obtain ⟨c, hc, rfl⟩ := mem_map.1 hb
    split
    · exact (hmark c).2.2 (h c hc)
    · exact h c hc

lemma clearMarks_spec (l : List Ban) : (clearMarks l).map Ban.shown = l.map Ban.shown ∧
    ∀ b ∈ clearMarks l, .add ∉ b.flags := by
  constructor
  · unfold clearMarks
    rw [map_map]
    exact List.map_congr_left (fun b _ => rfl)
  · intro b hb
    obtain ⟨c, -, rfl⟩ := mem_map.1 hb
    simp

lemma applyBan_kept (env : ParseEnv) (newban : Ban) {orig old new : List Ban}
    (hold : old.map Ban.shown = orig.map Ban.shown) (ho : ∀ b ∈ old, .add ∉ b.flags)
    (hn : ∀ b ∈ new, .add ∈ b.flags) : ∃ old' new', applyBan env (old ++ new) newban = old' ++ new' ∧
    old'.map Ban.shown = orig.map Ban.shown ∧ (∀ b ∈ old', .add ∉ b.flags) ∧ (∀ b ∈ new', .add ∈ b.flags) ∧
    (.add ∉ newban.flags → new'.length = new.length) := by
  obtain ⟨h1, h2, -⟩ := markCovered_spec env old newban
  obtain ⟨-, -, h3⟩ := markCovered_spec env new newban
  have happ : markCovered env (old ++ new) newban =
      markCovered env old newban ++ markCovered env new newban := by
    simp [markCovered]
  unfold applyBan
  split
  next ha =>
    split
    · exact ⟨old, new, rfl, hold, ho, hn, fun hc => absurd ha hc⟩
    · refine ⟨markCovered env old newban, markCovered env new newban ++ [newban], ?_, h1.trans hold,
        h2 ho, ?_, fun hc => absurd ha hc⟩
      · rw [happ, append_assoc]
      · intro b hb
        exact (List.mem_append.1 hb).elim (h3 hn b) (fun hb => List.mem_singleton.1 hb ▸ ha)
  · refine ⟨markCovered env old newban, markCovered env new newban, happ, h1.trans hold, h2 ho, h3 hn,
      fun _ => ?_⟩
    simp [markCovered]

/-! ## The walk over the letters -/

/-- What holds while the letters are walked: the channel is as it was but for masks that are only
remembered. -/
structure WalkInv (env : ParseEnv) (ch : Chan) (args : List Str) (flags : ParseFlags)
    (st : ParseState) : Prop where
  base : st.chan.base = ch.base
  masks : ∀ kind, MasksKept (ch.masks kind) (st.chan.masks kind) (kind.clean ∈ st.done)
  burst : flags.set = true → env.cptrBurst = true → ∀ kind,
    (st.chan.masks kind).map Ban.shown = (ch.masks kind).map Ban.shown
  flags : st.flags = flags
  args : st.args <:+ args
  buf : st.BufOk

lemma WalkInv.keeps {ch : Chan}
    {st st' : ParseState} (h : WalkInv env ch args flags st) (hk : Keeps st st') :
    WalkInv env ch args flags st' where
  base := by rw [hk.chan]; exact h.base
  masks kind := by
    have hm := h.masks kind
    rw [hk.chan]
    exact ⟨fun hc => hm.1 (fun hc' => hc ((hk.clean kind).2 hc')),
      fun hc => hm.2 ((hk.clean kind).1 hc)⟩
  burst := by rw [hk.chan]; exact h.burst
  flags := hk.flags.trans h.flags
  args := hk.args.trans h.args
  buf := hk.buf

lemma modeParseMask_eq (hm : env.sptr.myUser = false) {st : ParseState}
    (hf : MsFlags st.flags) (h : st.BufOk) (kind : MaskList) :
    Keeps st (modeParseMask env kind st) ∨
      ∃ s args newban, st.args = s :: args ∧ st.next = some s ∧ readMask env s ≠ none ∧
        (.add ∈ newban.flags ↔ st.dir = .add) ∧
        modeParseMask env kind st =
          { st with args := args, maxArgs := st.maxArgs - 1, done := insert kind.clean st.done,
                    chan := st.chan.setMasks (applyBan env (if kind.clean ∈ st.done then
                      st.chan.masks kind else clearMarks (st.chan.masks kind)) newban) kind } := by
  unfold modeParseMask
  obtain ⟨hg, -⟩ | ⟨s, args, ha, hnext, hg⟩ := grab_spec hm st
  · rw [hg]
    exact .inl (Keeps.refl h)
  rw [hg]
  have hk := keeps_args h ha
  simp only
  rw [if_neg (by rintro ⟨hn, -⟩; simp [ParseState.notOper, hf.spec.1, hf.spec.2.1] at hn)]
  by_cases hs : s.takeWhile (· ≠ ' ') = [] ∨ (s.takeWhile (· ≠ ' ')).head? = some ':'
  · rw [if_pos hs]
    exact .inl hk
  rw [if_neg hs]
  cases hp : env.prettyExtmask (s.takeWhile (· ≠ ' ')) with
  | none => exact .inl hk
  | some pmask =>
    refine .inr ⟨s, args, ⟨pmask, if env.sptr.isServer then "*".toList else
      env.sptr.name.take 30, env.now, if st.dir = .add then {.add} else {.del}⟩, ha, hnext, ?_, ?_, ?_⟩
    · rw [readMask, if_neg hs, hp]
      simp
    · simp only
      split
      next hd => simp [hd]
      next hd => simp [hd]
    · dsimp only

lemma modeParseMask_inv {ch : Chan} {st : ParseState}
    (h : WalkInv env ch args flags st) (hm : env.sptr.myUser = false) (hf : MsFlags flags) {kind : MaskList}
    (hq : flags.set = true → env.cptrBurst = true → st.dir = .add → ∀ s ∈ st.next, readMask env s = none) :
    WalkInv env ch args flags (modeParseMask env kind st) := by
  obtain hk | ⟨s, args', newban, ha, hnext, hread, hadd, heq⟩ := modeParseMask_eq hm (h.flags ▸ hf) h.buf kind
  · exact h.keeps hk
  rw [heq]
  -- The list before, cleaned if it was not.
  obtain ⟨old, new, hcur, hold, hoflags, hnflags⟩ : ∃ old new,
      (if kind.clean ∈ st.done then st.chan.masks kind else clearMarks (st.chan.masks kind)) =
        old ++ new ∧ old.map Ban.shown = (ch.masks kind).map Ban.shown ∧
        (∀ b ∈ old, .add ∉ b.flags) ∧ ∀ b ∈ new, .add ∈ b.flags := by
    split
    next hc => exact (h.masks kind).2 hc
    next hc =>
      obtain ⟨h1, h2⟩ := clearMarks_spec (st.chan.masks kind)
      refine ⟨clearMarks (st.chan.masks kind), [], (append_nil _).symm, ?_, h2, by simp⟩
      rw [h1, (h.masks kind).1 hc]
  obtain ⟨old', new', happ, hold', hoflags', hnflags', hlen⟩ := applyBan_kept env newban hold hoflags hnflags
  rw [hcur, happ]
  refine ⟨?_, fun kind' => ?_, fun hs hb kind' => ?_, h.flags, ?_, ?_⟩
  · exact (base_setMasks _ _ _).trans h.base
  · by_cases hkind : kind' = kind
    · subst hkind
      refine ⟨fun hc => absurd (Finset.mem_insert_self _ _) hc, fun _ => ⟨old', new', ?_, hold',
        hoflags', hnflags'⟩⟩
      exact masks_setMasks _ _ _
    · have hm' := h.masks kind'
      have hclean : kind'.clean ∈ insert kind.clean st.done ↔ kind'.clean ∈ st.done := by
        have : kind'.clean ≠ kind.clean := by
          cases kind <;> cases kind' <;> first | decide | exact absurd rfl hkind
        simp [this]
      rw [masks_setMasks_ne _ _ hkind]
      exact ⟨fun hc => hm'.1 (fun hc' => hc (hclean.2 hc')), fun hc => hm'.2 (hclean.1 hc)⟩
  · by_cases hkind : kind' = kind
    · subst hkind
      -- In a burst the mask is removed, and what was there before showed the same.
      have hdel : .add ∉ newban.flags := fun hc => hread (hq hs hb (hadd.1 hc) s hnext)
      have hshown : (old ++ new).map Ban.shown = (ch.masks kind').map Ban.shown := by
        rw [← hcur]
        split
        · exact h.burst hs hb kind'
        · rw [(clearMarks_spec _).1]
          exact h.burst hs hb kind'
      have hnil : new = [] := by
        have hl := congrArg List.length hshown
        have hl' := congrArg List.length hold
        simp only [List.length_map, List.length_append] at hl hl'
        exact List.eq_nil_of_length_eq_zero (by omega)
      have hnil' : new' = [] := List.eq_nil_of_length_eq_zero (by rw [hlen hdel, hnil]; rfl)
      show ((st.chan.setMasks (old' ++ new') kind').masks kind').map Ban.shown = _
      rw [masks_setMasks, hnil', append_nil]
      exact hold'
    · show ((st.chan.setMasks (old' ++ new') kind).masks kind').map Ban.shown = _
      rw [masks_setMasks_ne _ _ hkind]
      exact h.burst hs hb kind'
  · have := h.args
    rw [ha] at this
    exact (List.suffix_cons s args').trans this
  · obtain ⟨mb, hmb, hquiet⟩ := h.buf
    exact ⟨mb, hmb, hquiet.congr (mode_eq_of_base (base_setMasks _ _ _))⟩

lemma modeParseLetter_inv {ch : Chan}
    {st : ParseState} (h : WalkInv env ch args flags st) (hm : env.sptr.myUser = false)
    (hf : MsFlags flags) {c : Char} (hq : flags.set = true → LetterQuiet env st c) :
    ∃ st', modeParseLetter env st c = some st' ∧ WalkInv env ch args flags st' := by
  have hf' : MsFlags st.flags := h.flags ▸ hf
  have hq' : st.flags.set = true → LetterQuiet env st c := h.flags ▸ hq
  -- Most letters leave the channel.
  have hkeep : ∀ r, KeepsSome st r → ∃ st', r = some st' ∧ WalkInv env ch args flags st' := by
    rintro r ⟨st', rfl, hk⟩
    exact ⟨st', rfl, h.keeps hk⟩
  have hsome : ∀ st', Keeps st st' → ∃ st'', some st' = some st'' ∧
      WalkInv env ch args flags st'' := fun st' hk => ⟨st', rfl, h.keeps hk⟩
  have hdir : ∀ d, Keeps st { st with dir := d } := fun d =>
    ⟨rfl, rfl, rfl, suffix_rfl, fun _ => Iff.rfl, h.buf⟩
  have hmask : ∀ kind, c = 'b' ∨ (c = 'e' ∧ (env.sptr.isServer ∨ env.feat.excepts)) →
      ∃ st', some (modeParseMask env kind st) = some st' ∧ WalkInv env ch args flags st' := by
    intro kind hc
    refine ⟨_, rfl, modeParseMask_inv h hm hf (fun hs hb => ?_)⟩
    have hq := hq hs
    unfold LetterQuiet at hq
    obtain rfl | ⟨rfl, he⟩ := hc
    · exact hq hb
    · rw [if_neg (by decide), if_neg (by decide), if_neg (by decide), if_neg (by decide),
        if_neg (by decide), if_pos (Or.inr ⟨rfl, he⟩)] at hq
      exact hq hb
  unfold modeParseLetter
  by_cases h1 : c = '+'
  · rw [if_pos h1]
    exact hsome _ (hdir .add)
  rw [if_neg h1]
  by_cases h2 : c = '-'
  · rw [if_pos h2]
    exact hsome _ (hdir .del)
  rw [if_neg h2]
  by_cases h3 : c = 'l'
  · rw [if_pos h3]
    exact hkeep _ (modeParseLimit_keeps h.buf hm hf' (h3 ▸ hq'))
  rw [if_neg h3]
  by_cases h4 : c = 'L'
  · rw [if_pos h4]
    exact hkeep _ (modeParseRedir_keeps h.buf hm hf' (h4 ▸ hq'))
  rw [if_neg h4]
  by_cases h5 : c = 'k'
  · rw [if_pos h5]
    exact hkeep _ (modeParseKey_keeps h.buf hm hf' (h5 ▸ hq'))
  rw [if_neg h5]
  by_cases h6 : c = 'A'
  · rw [if_pos h6]
    split
    · exact hkeep _ (modeParseApass_keeps h.buf hm hf' (h6 ▸ hq'))
    · exact hsome _ (Keeps.refl h.buf)
  rw [if_neg h6]
  by_cases h7 : c = 'U'
  · rw [if_pos h7]
    split
    · exact hkeep _ (modeParseUpass_keeps h.buf hm hf' (h7 ▸ hq'))
    · exact hsome _ (Keeps.refl h.buf)
  rw [if_neg h7]
  by_cases h8 : c = 'b'
  · rw [if_pos h8]
    exact hmask .ban (Or.inl h8)
  rw [if_neg h8]
  by_cases h9 : c = 'e'
  · rw [if_pos h9]
    split
    next he => exact hmask .except (Or.inr ⟨h9, he⟩)
    · exact hsome _ (modeParseDummy_keeps h.buf hm)
  rw [if_neg h9]
  by_cases h10 : c = 'h'
  · rw [if_pos h10]
    split
    · exact hsome _ (modeParseClient_keeps h.buf hm .halfop)
    · exact hsome _ (modeParseDummy_keeps h.buf hm)
  rw [if_neg h10]
  by_cases h11 : c = 'o'
  · rw [if_pos h11]
    exact hsome _ (modeParseClient_keeps h.buf hm .chanop)
  rw [if_neg h11]
  by_cases h12 : c = 'v'
  · rw [if_pos h12]
    exact hsome _ (modeParseClient_keeps h.buf hm .voice)
  rw [if_neg h12]
  split
  · exact hsome _ (modeParseMode_keeps h.buf _)
  split
  · split
    · exact hsome _ (modeParseExmode_keeps h.buf _)
    · exact hsome _ (Keeps.refl h.buf)
  · exact hsome _ (Keeps.refl h.buf)

lemma modeParseLetters_inv {ch : Chan} (hm : env.sptr.myUser = false) (hf : MsFlags flags) {letters : Str}
    {st : ParseState} (h : WalkInv env ch args flags st) (hq : LettersQuiet env letters st) : ∃ st',
    modeParseLetters env letters st = some st' ∧ WalkInv env ch args flags st' ∧ EndQuiet env st' := by
  induction letters generalizing st with
  | nil => exact ⟨st, rfl, h, hq⟩
  | cons c cs ih =>
    obtain ⟨hc, hrest⟩ := hq
    obtain ⟨st₁, hrun, h₁⟩ := modeParseLetter_inv h hm hf (h.flags ▸ hc)
    obtain ⟨st₂, hrun', h₂, hend⟩ := ih h₁ (hrest st₁ hrun)
    refine ⟨st₂, ?_, h₂, hend⟩
    simp [modeParseLetters, hrun, hrun']

/-! ## The end of a bounce -/

/-- What the end of the parsing keeps: the flags, what was done, the member and its changes, and a
quiet buffer. -/
structure EndKeeps (st st' : ParseState) : Prop where
  base : st'.chan.base = st.chan.base
  flags : st'.flags = st.flags
  done : st'.done = st.done
  member : st'.member = st.member
  changes : st'.changes = st.changes
  buf : st'.BufOk

lemma EndKeeps.trans {st st' st'' : ParseState} (h : EndKeeps st st') (h' : EndKeeps st' st'') :
    EndKeeps st st'' :=
  ⟨h'.base.trans h.base, h'.flags.trans h.flags, h'.done.trans h.done, h'.member.trans h.member,
    h'.changes.trans h.changes, h'.buf⟩

lemma modeParseSimple_unset {st : ParseState} (hset : st.flags.set = false) (hb : st.BufOk)
    (hj : .deljoins ∈ st.add → .wasdeljoins ∉ st.chan.mode) :
    EndKeeps st (modeParseSimple st) ∧ (modeParseSimple st).chan = st.chan := by
  obtain ⟨mb, hmb, hq⟩ := hb
  unfold modeParseSimple
  simp only [hset, hmb, map_some, Bool.false_eq_true, if_false]
  refine ⟨⟨rfl, rfl, rfl, rfl, rfl, _, rfl, ?_, ?_, hq.null⟩, trivial⟩
  · intro hr
    simp only [modebufMode, modebufExmode, Finset.mem_sdiff, Finset.mem_union, Finset.mem_inter] at hr
    obtain hr | ⟨⟨-, hr⟩, -⟩ := hr.1
    · exact hq.rem hr
    · exact hr
  · intro ha
    simp only [modebufMode, modebufExmode, Finset.mem_sdiff, Finset.mem_union, Finset.mem_inter] at ha
    obtain ⟨ha, -⟩ | ⟨⟨ha, -⟩, -⟩ := ha
    · exact hq.add ha
    · exact hj ha

lemma modeProcessMasks_unset {env : ParseEnv} {kind : MaskList} {bans : List Ban} {n : BanCount}
    {kept : List Ban} {st : ParseState} (hset : st.flags.set = false) (hb : st.BufOk) :
    ∃ st' l, modeProcessMasks env kind bans n [] kept st = some st' ∧ EndKeeps st st' ∧
      st'.chan = st.chan.setMasks (kept ++ l) kind ∧
      l.map Ban.shown = (bans.filter (fun b => .add ∉ b.flags)).map Ban.shown := by
  have hnull : ∀ dir s, nullText (dir, .string kind.mode s) = false := by
    intro dir s
    cases dir <;> rfl
  induction bans generalizing n kept st with
  | nil =>
    obtain ⟨mb, hmb, hq⟩ := hb
    refine ⟨_, [], rfl, ⟨base_setMasks _ _ _, rfl, rfl, rfl, rfl, mb, hmb, ?_⟩, ?_, rfl⟩
    · exact hq.congr (mode_eq_of_base (base_setMasks _ _ _))
    · simp
  | cons b bans ih =>
    unfold modeProcessMasks
    simp only
    -- What the rest of the list gives, behind a change that is put into the buffer.
    have hbuf : ∀ dir (k : ParseState → Option ParseState) (b' : List Ban),
        (∀ st', st'.flags.set = false → st'.BufOk → ∃ st'' l, k st' = some st'' ∧
          EndKeeps st' st'' ∧ st''.chan = st'.chan.setMasks (kept ++ (b' ++ l)) kind ∧
          l.map Ban.shown = (bans.filter (fun b => .add ∉ b.flags)).map Ban.shown) →
        ∃ st'' l, (st.buffer env dir (.string kind.mode b.banstr)).bind k = some st'' ∧
          EndKeeps st st'' ∧ st''.chan = st.chan.setMasks (kept ++ (b' ++ l)) kind ∧
          l.map Ban.shown = (bans.filter (fun b => .add ∉ b.flags)).map Ban.shown := by
      intro dir k b' hk
      obtain ⟨mb, lines, hrun, hq⟩ := hb.buffer env (hnull dir b.banstr)
      obtain ⟨st'', l, hk', hend, hchan, hl⟩ :=
        hk { st with mbuf := some mb, lines := lines } hset ⟨mb, rfl, hq⟩
      have hst : EndKeeps st { st with mbuf := some mb, lines := lines } :=
        ⟨rfl, rfl, rfl, rfl, rfl, mb, rfl, hq⟩
      refine ⟨st'', l, ?_, hst.trans hend, hchan, hl⟩
      rw [hrun, bind_some, hk']
    by_cases hda : .del ∈ b.flags ∧ .add ∈ b.flags
    · rw [if_pos hda]
      obtain ⟨st', l, hrun, hend, hchan, hl⟩ := @ih n kept st hset hb
      refine ⟨st', l, hrun, hend, hchan, ?_⟩
      simpa [hda.2] using hl
    rw [if_neg hda]
    by_cases hd : .del ∈ b.flags
    · rw [if_pos hd]
      have ha : .add ∉ b.flags := fun ha => hda ⟨hd, ha⟩
      obtain ⟨st', l, hrun, hend, hchan, hl⟩ := hbuf .del
        (fun st => if st.flags.set = true then modeProcessMasks env kind bans n [] kept st
          else modeProcessMasks env kind bans (n.add env b) []
            (kept ++ [{ b with flags := ∅ }]) st) [{ b with flags := ∅ }] (by
          intro st' hset' hb'
          obtain ⟨st'', l, hrun, hend, hchan, hl⟩ := @ih (n.add env b)
            (kept ++ [{ b with flags := ∅ }]) st' hset' hb'
          refine ⟨st'', l, ?_, hend, ?_, hl⟩
          · simpa [hset'] using hrun
          · rw [hchan, append_assoc])
      refine ⟨st', { b with flags := ∅ } :: l, hrun, hend, hchan, ?_⟩
      simpa [ha, Ban.shown] using hl
    rw [if_neg hd]
    by_cases ha : .add ∈ b.flags
    · rw [if_pos ha]
      have hskip : ∃ st' l, modeProcessMasks env kind bans n [] kept st = some st' ∧
          EndKeeps st st' ∧ st'.chan = st.chan.setMasks (kept ++ l) kind ∧
          l.map Ban.shown = ((b :: bans).filter (fun b => .add ∉ b.flags)).map Ban.shown := by
        obtain ⟨st', l, hrun, hend, hchan, hl⟩ := @ih n kept st hset hb
        exact ⟨st', l, hrun, hend, hchan, by simpa [ha] using hl⟩
      split
      · exact hskip
      split
      · exact hskip
      obtain ⟨st', l, hrun, hend, hchan, hl⟩ := hbuf .add (fun st => if st.flags.set = true then
            modeProcessMasks env kind bans (n.add env b) [{ b with flags := ∅ }] kept st
          else modeProcessMasks env kind bans (n.add env b) [] kept st) [] (by
          intro st' hset' hb'
          obtain ⟨st'', l, hrun, hend, hchan, hl⟩ := @ih (n.add env b) kept st' hset' hb'
          exact ⟨st'', l, by simpa [hset'] using hrun, hend, hchan, hl⟩)
      exact ⟨st', l, hrun, hend, hchan, by simpa [ha] using hl⟩
    · rw [if_neg ha]
      obtain ⟨st', l, hrun, hend, hchan, hl⟩ := @ih (n.add env b) (kept ++ [b]) st hset hb
      refine ⟨st', b :: l, hrun, hend, ?_, ?_⟩
      · rw [hchan, append_assoc]
        rfl
      · simpa [ha] using hl

lemma ChangeQuiet.congr {st st' : ParseState} {c : CliChange} (h : ChangeQuiet env st c)
    (hb : st'.chan.base = st.chan.base) (hm : st'.member = st.member) : ChangeQuiet env st' c := by
  have hmem : st'.chan.members = st.chan.members :=
    show st'.chan.base.members = st.chan.base.members from congrArg Chan.members hb
  have hfind : st'.chan.findMember = st.chan.findMember := by
    funext user
    rw [Chan.findMember, Chan.findMember, hmem]
  have hact : st'.actor = st.actor := by rw [ParseState.actor, ParseState.actor, hm, hfind]
  have hnew : st'.newoplevel c = st.newoplevel c := by
    rw [ParseState.newoplevel, ParseState.newoplevel, hact]
  unfold ChangeQuiet ParseState.sameStatus at *
  rw [hfind, hnew]
  exact h

lemma modeProcessClient_unset {st : ParseState}
    (hset : st.flags.set = false) (hb : st.BufOk) {c : CliChange} (hq : ChangeQuiet env st c) :
    ∃ st', modeProcessClient env st c = some st' ∧ EndKeeps st st' ∧ st'.chan = st.chan := by
  have hrefl : EndKeeps st st := ⟨rfl, rfl, rfl, rfl, rfl, hb⟩
  unfold modeProcessClient
  cases hfind : st.chan.findMember c.client.numnick with
  | none => exact ⟨st, rfl, hrefl, rfl⟩
  | some m =>
    simp only
    split
    · exact ⟨st, rfl, hrefl, rfl⟩
    split
    · exact ⟨st, rfl, hrefl, rfl⟩
    next hsame =>
      split
      · exact ⟨st, rfl, hrefl, rfl⟩
      -- The op-level that is written is the old one.
      have hlevel : (if c.dir = .add ∧ c.mode = .chanop then
          st.chan.setOpLevel c.client.numnick (st.newoplevel c) else st.chan) = st.chan := by
        split
        next hc =>
          have hq := hq hc.2
          rw [hc.1] at hq
          apply mapMember_eq_self
          intro m' hm'
          have hmm : m' = m := some.inj (hm'.symm.trans hfind)
          have heq := (hq m hfind).resolve_left hsame
          rw [hmm, heq]
        · rfl
      have hnull : nullText (c.dir, .client c.mode c.client.toModeClient c.oplevel) = false := by
        cases hd : c.dir with
        | add => rfl
        | del =>
          cases hmode : c.mode with
          | chanop =>
            have hq := hq hmode
            rw [hd] at hq
            exact decide_eq_false (by simp only at hq; omega)
          | halfop => rfl
          | voice => rfl
      simp only [hset, Bool.false_eq_true, if_false, hlevel]
      obtain ⟨mb, lines, hrun, hq'⟩ := hb.buffer env hnull
      exact ⟨_, hrun, ⟨rfl, rfl, rfl, rfl, rfl, mb, rfl, hq'⟩, rfl⟩

lemma modeProcessClients_unset (cs : List CliChange) {st : ParseState} (hset : st.flags.set = false)
    (hb : st.BufOk) (hq : ∀ c ∈ cs, ChangeQuiet env st c) : ∃ st', modeProcessClients env cs st = some st' ∧
    st'.chan = st.chan := by
  induction cs generalizing st with
  | nil => exact ⟨st, rfl, rfl⟩
  | cons c cs ih =>
    obtain ⟨st₁, hrun, hend, hchan⟩ := modeProcessClient_unset hset hb (hq c mem_cons_self)
    obtain ⟨st₂, hrun', hchan'⟩ := ih (hend.flags ▸ hset) hend.buf
      (fun c' hc' => (hq c' (mem_cons_of_mem _ hc')).congr hend.base hend.member)
    refine ⟨st₂, ?_, hchan'.trans hchan⟩
    simp [modeProcessClients, hrun, hrun']

lemma MasksKept.filter {orig cur : List Ban} {clean : Prop} (h : MasksKept orig cur clean) (hc : clean) :
    (cur.filter (fun b => .add ∉ b.flags)).map Ban.shown = orig.map Ban.shown := by
  obtain ⟨old, new, rfl, hold, ho, hn⟩ := h.2 hc
  have h1 : old.filter (fun b => .add ∉ b.flags) = old :=
    List.filter_eq_self.2 (fun b hb => by simpa using ho b hb)
  have h2 : new.filter (fun b => .add ∉ b.flags) = [] :=
    List.filter_eq_nil_iff.2 (fun b hb => by simpa using hn b hb)
  rw [List.filter_append, h1, h2, append_nil]
  exact hold

lemma processMasks_unset (env : ParseEnv) (ch : Chan) {st : ParseState} (kind : MaskList)
    (hset : st.flags.set = false) (hb : st.BufOk)
    (hmasks : MasksKept (ch.masks kind) (st.chan.masks kind) (kind.clean ∈ st.done)) : ∃ st',
    modeProcessList env kind st = some st' ∧ EndKeeps st st' ∧ (st'.chan.masks kind).map Ban.shown =
    (ch.masks kind).map Ban.shown ∧ ∀ kind', kind' ≠ kind → st'.chan.masks kind' = st.chan.masks kind' := by
  unfold modeProcessList
  split
  next hc =>
    obtain ⟨st', l, hrun, hend, hchan, hl⟩ := modeProcessMasks_unset hset hb
    refine ⟨st', hrun, hend, ?_, fun kind' hk => ?_⟩
    · rw [hchan, masks_setMasks, List.nil_append, hl]
      exact hmasks.filter hc
    · rw [hchan, masks_setMasks_ne _ _ hk]
  next hc =>
    refine ⟨st, rfl, ⟨rfl, rfl, rfl, rfl, rfl, hb⟩, ?_, fun _ _ => rfl⟩
    rw [hmasks.1 hc]

lemma modeParseFinish_unset {ch : Chan} {st : ParseState} (hset : st.flags.set = false)
    (hn : st.notOper = false) (hw : st.flags.wipeout = false) (hb : st.BufOk) (hbase : st.chan.base = ch.base)
    (hmasks : ∀ kind, MasksKept (ch.masks kind) (st.chan.masks kind) (kind.clean ∈ st.done))
    (hj : .deljoins ∈ st.add → .wasdeljoins ∉ st.chan.mode) (hq : ∀ c ∈ st.changes, ChangeQuiet env st c) :
    ∃ st', modeParseFinish env st = some st' ∧ Unchanged ch st'.chan := by
  obtain ⟨h0, hchan0⟩ := modeParseSimple_unset hset hb hj
  obtain ⟨st₁, hrun₁, h1, hban, hother⟩ := processMasks_unset env ch .ban
    (h0.flags ▸ hset) h0.buf (by rw [hchan0, h0.done]; exact hmasks .ban)
  have hkept : MasksKept (ch.masks .except) (st₁.chan.masks .except) (MaskList.except.clean ∈ st₁.done) := by
    rw [hother .except (by decide), h1.done, h0.done, hchan0]
    exact hmasks .except
  obtain ⟨st₂, hrun₂, h2, hexc, hother'⟩ := processMasks_unset env ch .except
    (h1.flags ▸ h0.flags ▸ hset) h1.buf hkept
  have h02 := (h0.trans h1).trans h2
  obtain ⟨st₃, hrun₃, hchan₃⟩ := modeProcessClients_unset st₂.changes (h02.flags ▸ hset)
    h2.buf (fun c hc => (hq c (h02.changes ▸ hc)).congr h02.base h02.member)
  refine ⟨st₃, ?_, ?_, fun kind => ?_⟩
  · unfold modeParseFinish
    rw [if_neg (by rw [hb.isNone, hn]; simp)]
    have hw' : modeParseWipeout env (modeParseSimple st) = some (modeParseSimple st) := by
      rw [modeParseWipeout, h0.flags, hw, if_pos (by decide)]
    simp only [hw', bind_eq_bind, bind_some, hrun₁, hrun₂, hrun₃]
  · rw [hchan₃, h02.base, hbase]
  · rw [hchan₃]
    cases kind with
    | ban => rw [hother' .ban (by decide)]; exact hban
    | except => exact hexc

/-! ## The timestamp -/

/-- The number that a timestamp is. -/
def tsValue (w : Str) : ℕ := Nat.ofDigitChars 10 (w.takeWhile isDigit) 0

lemma atoi_tsValue {w : Str} (hd : w.head?.any isDigit = true) (hlt : tsValue w < 2 ^ 31) :
    atoi w = tsValue w := by
  obtain ⟨c, w', rfl⟩ : ∃ c w', w = c :: w' := by
    cases w with
    | nil => simp at hd
    | cons c w' => exact ⟨c, w', rfl⟩
  have hc : isDigit c = true := by simpa using hd
  have hrange : 48 ≤ c.toNat ∧ c.toNat ≤ 57 := by
    have := of_decide_eq_true hc
    exact ⟨this.1, this.2⟩
  have hsp : isSpace c = false := by
    have h1 : c ≠ ' ' := by rintro rfl; exact absurd hrange.1 (by decide)
    simp only [isSpace, h1, false_or, decide_eq_false_iff_not]
    omega
  have hm : c ≠ '-' := by rintro rfl; exact absurd hrange.1 (by decide)
  have hp : c ≠ '+' := by rintro rfl; exact absurd hrange.1 (by decide)
  have hs : signedDigits (c :: w') = (false, tsValue (c :: w')) := by
    unfold signedDigits
    rw [List.dropWhile_cons_of_neg (by simp [hsp])]
    split
    next h => exact absurd (List.cons.inj h).1 hm
    next h => exact absurd (List.cons.inj h).1 hp
    · rfl
  have hmin : min (tsValue (c :: w') : ℤ) (2 ^ 63 - 1) = tsValue (c :: w') := by omega
  unfold atoi
  rw [hs]
  simp only [Bool.false_eq_true, if_false]
  rw [hmin]
  exact Int.bmod_eq_of_le (by omega) (by omega)

/-- The condition on a MODE line whose timestamp is newer than the channel: before each letter, and
behind the last one, nothing is written that changes the channel; and where modes are set, the
timestamp fits an int. -/
structure BounceOk (env : ParseEnv) (uworld : Bool) (ch : Chan) (modestr : Str) (args : List Str)
    (ts : Str) : Prop where
  letters : modestr ≠ [] → LettersQuiet env modestr
    (parseInit (some (modebufInit ch.chname (msModeCall env uworld ch).dest)) ch args
      (msModeCall env uworld ch).flags (msModeCall env uworld ch).member)
  ts : (msModeCall env uworld ch).flags.set = true → tsValue ts < 2 ^ 31

lemma msModeCall_flags (env : ParseEnv) (uworld : Bool) (ch : Chan) :
    MsFlags (msModeCall env uworld ch).flags := by
  unfold msModeCall
  split
  · exact .inl rfl
  split
  · exact .inl rfl
  · exact .inr rfl

lemma parseInit_inv (env : ParseEnv) (ch : Chan) (dest : Dest) (args : List Str)
    (flags : ParseFlags) (member : Option Str) :
    WalkInv env ch args flags (parseInit (some (modebufInit ch.chname dest)) ch args flags member) where
  base := rfl
  masks kind := ⟨fun _ => rfl, fun hc => absurd hc (by simp [parseInit])⟩
  burst _ _ _ := rfl
  flags := rfl
  args := suffix_rfl
  buf := ⟨_, rfl, by simp [modebufInit], by simp [modebufInit], by simp [modebufInit]⟩

lemma WalkInv.finish {ch : Chan}
    {st : ParseState} (h : WalkInv env ch args flags st) (hend : EndQuiet env st)
    (hf : MsFlags flags) (args' : List Str) (flags' : ParseFlags) (hset : flags'.set = false)
    (hflags : flags'.notoper = flags.notoper ∧ flags'.notmember = flags.notmember ∧
      flags'.wipeout = flags.wipeout) (mb : ModeBuf) (hmb : BufQuiet st.chan mb) :
    ∃ st', modeParseFinish env { st with args := args', flags := flags', mbuf := some mb } =
        some st' ∧ Unchanged ch st'.chan := by
  obtain ⟨h1, h2, h3, -⟩ := hf.spec
  have hn : ParseState.notOper { st with args := args', flags := flags', mbuf := some mb } = false := by
    simp [ParseState.notOper, hflags.1, hflags.2.1, h1, h2]
  exact modeParseFinish_unset hset hn (hflags.2.2.trans h3) ⟨mb, rfl, hmb⟩ h.base h.masks hend.joins
    (fun c hc => (hend.changes c hc).congr rfl rfl)

lemma modeParseFinish_init (hf : MsFlags flags) (env : ParseEnv) (mb : ModeBuf)
    (ch : Chan) (args : List Str) (member : Option Str) :
    ∃ st, modeParseFinish env (parseInit (some mb) ch args flags member) = some st ∧ st.chan = ch := by
  obtain ⟨h1, h2, h3, -⟩ := hf.spec
  have hn : (parseInit (some mb) ch args flags member).notOper = false := by
    simp [ParseState.notOper, parseInit, h1, h2]
  have hsimple : (modeParseSimple (parseInit (some mb) ch args flags member)).chan = ch := by
    unfold modeParseSimple
    simp only [parseInit, Finset.sdiff_empty, Finset.union_empty]
    split <;> rfl
  refine ⟨modeParseSimple (parseInit (some mb) ch args flags member), ?_, hsimple⟩
  unfold modeParseFinish
  rw [if_neg (by rw [hn]; simp [parseInit])]
  have hkeep : ∀ st : ParseState, (modeParseSimple st).flags = st.flags ∧
      (modeParseSimple st).done = st.done ∧ (modeParseSimple st).changes = st.changes := by
    intro st
    unfold modeParseSimple
    simp only
    split <;> exact ⟨rfl, rfl, rfl⟩
  obtain ⟨hk1, hk2, hk3⟩ := hkeep (parseInit (some mb) ch args flags member)
  have hw : modeParseWipeout env (modeParseSimple (parseInit (some mb) ch args flags member)) =
      some (modeParseSimple (parseInit (some mb) ch args flags member)) := by
    rw [modeParseWipeout, hk1, if_pos (by simp [parseInit, h3])]
  have hl : ∀ kind, modeProcessList env kind (modeParseSimple (parseInit (some mb) ch args flags member)) =
      some (modeParseSimple (parseInit (some mb) ch args flags member)) := by
    intro kind
    rw [modeProcessList, hk2, if_neg (by simp [parseInit])]
  simp only [hw, hl, bind_eq_bind, bind_some, hk3]
  rfl

/-- The server `AC`, linked to this one, is the source; no masks or users are named. -/
def sampleParseEnv : ParseEnv where
  flush := sampleEnv
  sptr := ⟨false, true, "AC".toList, "leaf.net".toList, false, false, false, false, false, false,
    false, false, false⟩
  cptrServer := true
  cptrBurst := false
  feat := ⟨fun _ => true, false, false, true, true, false, false, 40, 50, 40, 50, 3⟩
  now := 1700000000
  nonsslusers := 0
  findChasing _ := none
  findNUser _ := none
  prettyExtmask _ := none
  bmatch _ _ := false
  isExtended _ := false
  isJoinBan _ := false
  checkExtbanFeats _ := true
  extbanMask _ := []

end Nefarious.Channel
