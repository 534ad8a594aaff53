import Nefarious.Channel.Bounce

/-!
# What the letters of a MODE line leave alone

The helpers of `mode_parse` read at most one argument, and put what they find into the mode buffer.
-/

namespace Nefarious.Channel

open Option (some.inj)

/-! ### Ops -/

/-- A user has ops. `IsChanOp`. -/
def Chan.isOp (c : Chan) (user : Str) : Bool := (c.findMember user).any fun m => .chanop ∈ m.status

lemma isOp_map {c c' : Chan} {f : Membership → Membership} (hmem : c'.members = c.members.map f)
    (huser : ∀ m, (f m).user = m.user) (hop : ∀ m, .chanop ∈ (f m).status ↔ .chanop ∈ m.status)
    (user : Str) : c'.isOp user = c.isOp user := by
  unfold Chan.isOp Chan.findMember
  rw [hmem]
  induction c.members with
  | nil => rfl
  | cons m ms ih =>
    rw [List.map_cons, List.find?_cons, List.find?_cons, huser m]
    by_cases hm : m.user = user
    · simp [hm, hop m]
    · simpa [hm] using ih

lemma isOp_eq_true_iff {c : Chan} {user : Str} :
    c.isOp user = true ↔ ∃ m, c.findMember user = some m ∧ .chanop ∈ m.status := by
  simp [Chan.isOp, Option.any_eq_true]

lemma isOp_mapMember {c : Chan} {u user : Str} {f : Membership → Membership}
    (huser : ∀ m, (f m).user = m.user) (hop : u = user → ∀ m, .chanop ∈ (f m).status ↔ .chanop ∈ m.status) :
    (c.mapMember u f).isOp user = c.isOp user := by
  unfold Chan.isOp Chan.findMember Chan.mapMember
  simp only
  induction c.members with
  | nil => rfl
  | cons m ms ih =>
    rw [updateMember]
    split
    · rename_i hu
      rw [List.find?_cons, List.find?_cons, huser m]
      by_cases hm : m.user = user
      · simp [hm, hop (hu ▸ hm) m]
      · simp [hm]
    · rw [List.find?_cons, List.find?_cons]
      by_cases hm : m.user = user
      · simp [hm]
      · simpa [hm] using ih

lemma isOp_flushDelJoins (j : Bool) (ch : Chan) (mb : ModeBuf) (user : Str) :
    (flushDelJoins j ch mb).1.isOp user = ch.isOp user := by
  have hshow : ch.showDelayedJoins.isOp user = ch.isOp user :=
    isOp_map (f := fun m => { m with status := m.status.erase .delayed }) rfl (fun _ => rfl)
      (fun m => by simp) user
  have hrem : (flushRemDelJoins j ch mb).1.isOp user = ch.isOp user := by
    unfold flushRemDelJoins
    split
    · split
      · rfl
      · exact hshow
    · rfl
  have hadd : ∀ ch' mb', (flushAddDelJoins ch' mb').1.isOp user = ch'.isOp user := by
    intro ch' mb'
    unfold flushAddDelJoins
    split <;> rfl
  exact (hadd _ _).trans hrem

/-- A buffer without a change that is printed through a null pointer. `channel.c`
`modebuf_flush_int`. -/
def ModeBuf.NullFree (mb : ModeBuf) : Prop := ∀ a ∈ mb.args, nullText a = false

/-- The same of the buffer of a state, if there is one. -/
def ParseState.NullFree (st : ParseState) : Prop := ∀ mb ∈ st.mbuf, mb.NullFree

/-- What a helper leaves alone once it has read its argument. -/
structure Same (st st' : ParseState) : Prop where
  dir : st'.dir = st.dir
  args : st'.args = st.args
  changes : st'.changes = st.changes
  flags : st'.flags = st.flags
  ops : ∀ user, st'.chan.isOp user = st.chan.isOp user

lemma Same.refl (st : ParseState) : Same st st := ⟨rfl, rfl, rfl, rfl, fun _ => rfl⟩

lemma Same.trans {st st' st'' : ParseState} (h : Same st st') (h' : Same st' st'') : Same st st'' where
  dir := h'.dir.trans h.dir
  args := h'.args.trans h.args
  changes := h'.changes.trans h.changes
  flags := h'.flags.trans h.flags
  ops user := (h'.ops user).trans (h.ops user)

/-- A step leaves these alone, and is made when the buffer has no change of that kind. -/
structure Passes (st : ParseState) (r : Option ParseState) : Prop where
  same : ∀ st', r = some st' → Same st st'
  safe : st.NullFree → ∃ st', r = some st' ∧ st'.NullFree

lemma Passes.refl (st : ParseState) : Passes st (some st) where
  same _ h := some.inj h ▸ Same.refl st
  safe h := ⟨st, rfl, h⟩

lemma Passes.of_same {st st' : ParseState} (h : Same st st') (hbuf : st'.mbuf = st.mbuf) :
    Passes st (some st') where
  same _ h' := some.inj h' ▸ h
  safe hn := ⟨st', rfl, fun mb hmb => hn mb (hbuf ▸ hmb)⟩

lemma Passes.bind {st : ParseState} {r : Option ParseState} {f : ParseState → Option ParseState}
    (h : Passes st r) (hf : ∀ st', r = some st' → Passes st' (f st')) : Passes st (r.bind f) where
  same st'' h'' := by
    obtain ⟨st', hr, hst'⟩ := Option.bind_eq_some_iff.mp h''
    exact (h.same st' hr).trans ((hf st' hr).same st'' hst')
  safe hn := by
    obtain ⟨st', hr, hn'⟩ := h.safe hn
    obtain ⟨st'', hst'', hn''⟩ := (hf st' hr).safe hn'
    exact ⟨st'', by rw [hr, Option.bind_some, hst''], hn''⟩

lemma Passes.after {st st' : ParseState} {r : Option ParseState} (h : Same st st')
    (hbuf : st'.mbuf = st.mbuf) (hr : Passes st' r) : Passes st r := by
  have hbind : Passes st ((some st').bind fun _ => r) :=
    (Passes.of_same h hbuf).bind fun _ heq => some.inj heq ▸ hr
  exact hbind

lemma Passes.ite {st : ParseState} {c : Prop} [Decidable c] {r r' : Option ParseState}
    (h : c → Passes st r) (h' : ¬c → Passes st r') : Passes st (if c then r else r') := by
  split
  · exact h ‹_›
  · exact h' ‹_›

lemma Passes.unless {st : ParseState} {c : Prop} [Decidable c] {r : Option ParseState}
    (hr : ¬c → Passes st r) : Passes st (if c then some st else r) := .ite (fun _ => .refl st) hr

lemma args_flushDelJoins (j : Bool) (ch : Chan) (mb : ModeBuf) :
    (flushDelJoins j ch mb).2.args = mb.args := by
  have hrem : (flushRemDelJoins j ch mb).2.args = mb.args := by
    unfold flushRemDelJoins
    split
    · split <;> rfl
    · rfl
  have hadd : ∀ ch' mb', (flushAddDelJoins ch' mb').2.args = mb'.args := by
    intro ch' mb'
    unfold flushAddDelJoins
    split <;> rfl
  exact (hadd _ _).trans hrem

lemma flushOnce_passes (env : FlushEnv) (ch : Chan) (mb : ModeBuf) :
    (∀ r, modebufFlushOnce env ch mb = some r → ∀ user, r.1.isOp user = ch.isOp user) ∧
      (mb.NullFree → ∃ r, modebufFlushOnce env ch mb = some r ∧ r.2.1.NullFree) := by
  unfold modebufFlushOnce
  split
  · exact ⟨fun r h user => some.inj h ▸ rfl, fun h => ⟨_, rfl, h⟩⟩
  · simp only
    split
    · rename_i hnull
      refine ⟨fun _ hr => (nomatch hr), fun h => ?_⟩
      obtain ⟨a, ha, hn⟩ := List.any_eq_true.mp hnull.2
      have hmem := (mem_partitionArgs _ _ _).1 a ha
      rw [args_flushDelJoins] at hmem
      rw [h a hmem] at hn
      exact absurd hn Bool.false_ne_true
    · refine ⟨fun r h user => ?_, fun h => ⟨_, rfl, fun a ha => ?_⟩⟩
      · obtain rfl := some.inj h
        exact isOp_flushDelJoins env.joinOnRemovedelay ch mb user
      · have hmem := (mem_partitionArgs _ _ _).2 a ha
        rw [args_flushDelJoins] at hmem
        exact h a hmem

lemma modebufArg_passes (env : FlushEnv) (ch : Chan) (mb : ModeBuf) (dir : Dir) (a : ModeArg) : (∀ r,
    modebufArg env ch mb dir a = some r → ∀ user, r.1.isOp user = ch.isOp user) ∧ (mb.NullFree →
    nullText (dir, a) = false → ∃ r, modebufArg env ch mb dir a = some r ∧ r.2.1.NullFree) := by
  have happend : mb.NullFree → nullText (dir, a) = false →
      ({ mb with args := mb.args ++ [(dir, a)] } : ModeBuf).NullFree := by
    intro h hn b hb
    exact (List.mem_append.mp hb).elim (h b) fun hb => List.mem_singleton.mp hb ▸ hn
  unfold modebufArg
  split
  · exact ⟨fun r h user => some.inj h ▸ rfl, fun h _ => ⟨_, rfl, h⟩⟩
  · exact ⟨fun r h user => some.inj h ▸ rfl, fun h _ => ⟨_, rfl, h⟩⟩
  · simp only
    by_cases hfull : maxModeParams - (if mb.dest.deop then 1 else 0) ≤ (mb.args ++ [(dir, a)]).length
    · rw [if_pos hfull]
      obtain ⟨hops, hsafe⟩ := flushOnce_passes env ch { mb with args := mb.args ++ [(dir, a)] }
      have hrun : ∀ r, modebufFlushInt env false 1 ch { mb with args := mb.args ++ [(dir, a)] } = some r ↔
          modebufFlushOnce env ch { mb with args := mb.args ++ [(dir, a)] } = some r := by
        intro r
        simp [modebufFlushInt]
      refine ⟨fun r h => hops r ((hrun r).mp h), fun h hn => ?_⟩
      obtain ⟨r, hr, hfree⟩ := hsafe (happend h hn)
      exact ⟨r, (hrun r).mpr hr, hfree⟩
    · rw [if_neg hfull]
      exact ⟨fun r h user => some.inj h ▸ rfl, fun h hn => ⟨_, rfl, happend h hn⟩⟩

lemma Passes.buffer (env : ParseEnv) (st : ParseState) {dir : Dir} {a : ModeArg}
    (hn : nullText (dir, a) = false) : Passes st (st.buffer env dir a) := by
  unfold ParseState.buffer
  cases hmb : st.mbuf with
  | none => exact .refl st
  | some mb =>
    obtain ⟨hops, hsafe⟩ := modebufArg_passes env.flush st.chan mb dir a
    constructor
    · intro st' h
      obtain ⟨r, hr, rfl⟩ := Option.map_eq_some_iff.mp h
      exact ⟨rfl, rfl, rfl, rfl, hops r hr⟩
    · intro hfree
      obtain ⟨r, hr, hfree'⟩ := hsafe (hfree mb hmb) hn
      simp only [hr, Option.map_some]
      refine ⟨_, rfl, fun mb' hmb' => ?_⟩
      obtain rfl := some.inj hmb'
      exact hfree'

lemma Passes.bufferString (env : ParseEnv) (st : ParseState) (mode : StringMode)
    (old : Option ModeString) (t : ModeString) : Passes st (st.bufferString env mode old t) := by
  have hn : ∀ dir s, nullText (dir, .string mode s) = false := by
    intro dir s
    cases dir <;> rfl
  unfold ParseState.bufferString
  split
  · cases old with
    | some old => exact .buffer env st (hn _ _)
    | none => exact .buffer env st (hn _ _)
  · exact .buffer env st (hn _ _)

lemma Passes.write {st : ParseState} {c : Chan} (h : ∀ user, c.isOp user = st.chan.isOp user) :
    Passes st (some { st with chan := c }) := .of_same ⟨rfl, rfl, rfl, rfl, h⟩ rfl

/-! ### The helpers -/

lemma Passes.done {st : ParseState} {d : Done} {r : Option ParseState}
    (h : Passes { st with done := insert d st.done } r) : Passes st r :=
  @Passes.after st { st with done := insert d st.done } r ⟨rfl, rfl, rfl, rfl, fun _ => rfl⟩ rfl h

lemma Passes.once {st : ParseState} {add del : Done} {f : ParseState → Option ParseState}
    (h : ∀ d, Passes { st with done := insert d st.done } (f { st with done := insert d st.done })) :
    Passes st (match st.once add del with
      | none => some st
      | some st => f st) := by
  obtain hnone | ⟨d, -, -, hsome⟩ := once_spec st add del
  · rw [hnone]
    exact .refl st
  · rw [hsome]
    exact (h d).done

lemma Passes.clean {st : ParseState} {s : Str} {f : IsCleanKey s → Option ParseState}
    (h : ∀ hs, Passes st (f hs)) : Passes st (if hs : IsCleanKey s then f hs else some st) := by
  split
  · exact h _
  · exact .refl st

lemma modeParseLimitSet_passes (env : ParseEnv) (st : ParseState) (t : UInt32) :
    Passes st (modeParseLimitSet env st t) := by
  unfold modeParseLimitSet
  refine .unless fun _ => .unless fun _ => .unless fun _ => .unless fun _ => .done (.unless fun _ => ?_)
  have hn : ∀ dir, nullText (dir, .uint t) = false := by
    intro dir
    cases dir <;> rfl
  refine (Passes.buffer env _ (hn _)).bind fun st' _ => .ite (fun _ => ?_) fun _ => .refl st'
  split
  · exact @Passes.write st' _ fun _ => rfl
  · exact @Passes.write st' _ fun _ => rfl

lemma modeParseRedirSet_passes (env : ParseEnv) (st : ParseState) (t : ModeString) :
    Passes st (modeParseRedirSet env st t) := by
  unfold modeParseRedirSet
  refine .unless fun _ => .unless fun _ => .done (.unless fun _ => .unless fun _ => .unless fun _ => ?_)
  exact (Passes.bufferString env _ _ _ t).bind fun st' _ =>
    .ite (fun _ => .write fun _ => rfl) fun _ => .refl st'

lemma isOp_setOpLevel (c : Chan) (u user : Str) (l : ℕ) : (c.setOpLevel u l).isOp user = c.isOp user :=
  isOp_mapMember (f := fun m => { m with oplevel := l }) (fun _ => rfl) fun _ _ => Iff.rfl

lemma isOp_setApass (st : ParseState) (t : ModeString) (user : Str) :
    (st.setApass t).isOp user = st.chan.isOp user := by
  unfold ParseState.setApass
  cases st.dir with
  | add =>
    have hset : (if st.chan.apass.isNone = true ∨ st.flags.burst = true then
        { st.chan with apass := some t } else st.chan).isOp user = st.chan.isOp user := by
      split <;> rfl
    simp only
    cases st.member with
    | none => exact hset
    | some u => exact (isOp_setOpLevel _ u user 0).trans hset
  | del =>
    refine isOp_map rfl (fun m => ?_) (fun m => ?_) user
    · split <;> rfl
    · split <;> rfl

/-- The state behind an argument that has been read. `channel.c` `mode_parse_limit`. -/
def ParseState.read (st : ParseState) (args : List Str) : ParseState :=
  { st with args := args, maxArgs := st.maxArgs - 1 }

lemma grab_cases (env : ParseEnv) (st : ParseState) : (st.grab env = none ∧ (env.sptr.myUser = false →
    st.args = [])) ∨ ∃ s args, st.args = s :: args ∧ st.grab env = some (s, st.read args) := by
  unfold ParseState.grab
  split
  · rename_i hmy
    exact .inl ⟨rfl, fun h => absurd (h.symm.trans hmy.1) Bool.false_ne_true⟩
  · cases hargs : st.args with
    | nil => exact .inl ⟨rfl, fun _ => rfl⟩
    | cons s args => exact .inr ⟨s, args, rfl, rfl⟩

/-- A helper that reads an argument, if there is one, and passes then. `channel.c`
`mode_parse_limit`. -/
def Takes (env : ParseEnv) (st : ParseState) (r : Option ParseState) : Prop :=
  (st.grab env = none ∧ r = some st) ∨
    ∃ s args, st.args = s :: args ∧ st.grab env = some (s, st.read args) ∧ Passes (st.read args) r

lemma Takes.grab {env : ParseEnv} {st : ParseState} {f : Str → ParseState → Option ParseState}
    (h : ∀ s args, st.args = s :: args → Passes (st.read args) (f s (st.read args))) :
    Takes env st (match st.grab env with
      | none => some st
      | some (s, st) => f s st) := by
  obtain ⟨hnone, -⟩ | ⟨s, args, hargs, hsome⟩ := grab_cases env st
  · exact .inl ⟨hnone, by rw [hnone]⟩
  · refine .inr ⟨s, args, hargs, hsome, ?_⟩
    rw [hsome]
    exact h s args hargs

lemma modeParseLimit_takes {env : ParseEnv} {st : ParseState} (hd : st.dir = .add) :
    Takes env st (modeParseLimit env st) := by
  unfold modeParseLimit
  rw [hd]
  exact .grab fun s args _ => .unless fun _ => .unless fun _ => modeParseLimitSet_passes env _ _

lemma modeParseRedir_takes {env : ParseEnv} {st : ParseState} (hd : st.dir = .add) :
    Takes env st (modeParseRedir env st) := by
  unfold modeParseRedir
  rw [hd]
  refine .grab fun s args _ => .unless fun _ => .unless fun _ => ?_
  split
  · exact modeParseRedirSet_passes env _ _
  · exact .refl _

lemma modeParseKey_takes (env : ParseEnv) (st : ParseState) : Takes env st (modeParseKey env st) := by
  unfold modeParseKey
  refine .grab fun s args _ => .unless fun _ => .once fun d => .clean fun hs => ?_
  refine .unless fun _ => .unless fun _ => .unless fun _ => .unless fun _ => ?_
  exact (Passes.bufferString env _ _ _ _).bind fun st' _ =>
    .ite (fun _ => .write fun _ => rfl) fun _ => .refl st'

lemma modeParseUpass_takes (env : ParseEnv) (st : ParseState) : Takes env st (modeParseUpass env st) := by
  unfold modeParseUpass
  refine .grab fun s args _ => .unless fun _ => .unless fun _ => .unless fun _ => .once fun d => .clean fun hs => ?_
  refine .unless fun _ => .unless fun _ => .unless fun _ => .unless fun _ => ?_
  exact (Passes.bufferString env _ _ _ _).bind fun st' _ =>
    .ite (fun _ => .write fun _ => rfl) fun _ => .refl st'

lemma modeParseApass_takes (env : ParseEnv) (st : ParseState) : Takes env st (modeParseApass env st) := by
  unfold modeParseApass
  refine .grab fun s args _ => .unless fun _ => .unless fun _ => .once fun d => .clean fun hs => ?_
  refine .unless fun _ => .unless fun _ => .unless fun _ => ?_
  exact (Passes.bufferString env _ _ _ _).bind fun st' _ =>
    .ite (fun _ => .write (isOp_setApass st' _)) fun _ => .refl st'

lemma modeParseMask_takes (env : ParseEnv) (kind : MaskList) (st : ParseState) :
    Takes env st (some (modeParseMask env kind st)) := by
  unfold modeParseMask
  obtain ⟨hnone, -⟩ | ⟨s, args, hargs, hsome⟩ := grab_cases env st
  · exact .inl ⟨hnone, by rw [hnone]⟩
  · refine .inr ⟨s, args, hargs, hsome, ?_⟩
    rw [hsome]
    simp only
    split
    · exact .refl _
    · split
      · exact .refl _
      · split
        · exact .refl _
        · refine .of_same ⟨rfl, rfl, rfl, rfl, fun user => ?_⟩ rfl
          cases kind <;> rfl

lemma modeParseDummy_takes (env : ParseEnv) (st : ParseState) :
    Takes env st (some (modeParseDummy env st)) := by
  unfold modeParseDummy
  obtain ⟨hnone, -⟩ | ⟨s, args, hargs, hsome⟩ := grab_cases env st
  · exact .inl ⟨hnone, by rw [hnone]⟩
  · refine .inr ⟨s, args, hargs, hsome, ?_⟩
    rw [hsome]
    exact .refl _

lemma modeParseMode_passes (env : ParseEnv) (f : ModeFlag) (st : ParseState) :
    Passes st (some (modeParseMode env f st)) := by
  unfold modeParseMode
  repeat' split
  all_goals exact .of_same ⟨rfl, rfl, rfl, rfl, fun _ => rfl⟩ rfl

lemma modeParseExmode_passes (f : ExMode) (st : ParseState) : Passes st (some (modeParseExmode f st)) := by
  unfold modeParseExmode
  repeat' split
  all_goals exact .of_same ⟨rfl, rfl, rfl, rfl, fun _ => rfl⟩ rfl

/-- What a letter does. `channel.c` `mode_parse`. -/
inductive Letter (env : ParseEnv) (st : ParseState) (ch : Char) : Option ParseState → Prop
  | dir (d : Dir) (h : (ch = '+' ∧ d = .add) ∨ (ch = '-' ∧ d = .del)) :
      Letter env st ch (some { st with dir := d })
  | client (mode : ClientMode) (h : ch = mode.letter) :
      Letter env st ch (some (modeParseClient env mode st))
  | takes {r : Option ParseState} (h : takesArg st.dir ch = true) (hr : Takes env st r) : Letter env st ch r
  /-- It takes none; a password is passed over where there are no op-levels. -/
  | passes {r : Option ParseState} (hsign : ch ≠ '+' ∧ ch ≠ '-')
      (h : takesArg st.dir ch = false ∨ ((ch = 'A' ∨ ch = 'U') ∧ env.cptrServer = false))
      (hr : Passes st r) : Letter env st ch r

lemma modeParseLetter_walk (env : ParseEnv) (st : ParseState) (ch : Char) :
    Letter env st ch (modeParseLetter env st ch) := by
  have htakes : ∀ {c : Char}, ch = c → c ∈ "kAUbehov".toList → takesArg st.dir ch = true := by
    rintro c rfl hc
    cases st.dir with
    | add => exact decide_eq_true (List.mem_cons_of_mem _ (List.mem_cons_of_mem _ hc))
    | del => exact decide_eq_true hc
  unfold modeParseLetter
  by_cases h₁ : ch = '+'
  · rw [if_pos h₁]
    exact .dir .add (.inl ⟨h₁, rfl⟩)
  rw [if_neg h₁]
  by_cases h₂ : ch = '-'
  · rw [if_pos h₂]
    exact .dir .del (.inr ⟨h₂, rfl⟩)
  rw [if_neg h₂]
  by_cases h₃ : ch = 'l'
  · rw [if_pos h₃]
    cases hd : st.dir with
    | add => exact .takes (by rw [hd, h₃]; rfl) (modeParseLimit_takes hd)
    | del =>
      refine .passes ⟨h₁, h₂⟩ (.inl (by rw [hd, h₃]; rfl)) ?_
      unfold modeParseLimit
      rw [hd]
      exact modeParseLimitSet_passes env st _
  rw [if_neg h₃]
  by_cases h₄ : ch = 'L'
  · rw [if_pos h₄]
    cases hd : st.dir with
    | add => exact .takes (by rw [hd, h₄]; rfl) (modeParseRedir_takes hd)
    | del =>
      refine .passes ⟨h₁, h₂⟩ (.inl (by rw [hd, h₄]; rfl)) ?_
      unfold modeParseRedir
      rw [hd]
      simp only
      split
      · exact .refl st
      · exact modeParseRedirSet_passes env st _
  rw [if_neg h₄]
  by_cases h₅ : ch = 'k'
  · rw [if_pos h₅]
    exact .takes (htakes h₅ (by decide)) (modeParseKey_takes env st)
  rw [if_neg h₅]
  by_cases h₆ : ch = 'A'
  · rw [if_pos h₆]
    split
    · exact .takes (htakes h₆ (by decide)) (modeParseApass_takes env st)
    · rename_i hno
      rw [not_or, Bool.not_eq_true] at hno
      exact .passes ⟨h₁, h₂⟩ (.inr ⟨.inl h₆, hno.1⟩) (.refl st)
  rw [if_neg h₆]
  by_cases h₇ : ch = 'U'
  · rw [if_pos h₇]
    split
    · exact .takes (htakes h₇ (by decide)) (modeParseUpass_takes env st)
    · rename_i hno
      rw [not_or, Bool.not_eq_true] at hno
      exact .passes ⟨h₁, h₂⟩ (.inr ⟨.inr h₇, hno.1⟩) (.refl st)
  rw [if_neg h₇]
  by_cases h₈ : ch = 'b'
  · rw [if_pos h₈]
    exact .takes (htakes h₈ (by decide)) (modeParseMask_takes env .ban st)
  rw [if_neg h₈]
  by_cases h₉ : ch = 'e'
  · rw [if_pos h₉]
    split
    · exact .takes (htakes h₉ (by decide)) (modeParseMask_takes env .except st)
    · exact .takes (htakes h₉ (by decide)) (modeParseDummy_takes env st)
  rw [if_neg h₉]
  by_cases h₁₀ : ch = 'h'
  · rw [if_pos h₁₀]
    split
    · exact .client .halfop h₁₀
    · exact .takes (htakes h₁₀ (by decide)) (modeParseDummy_takes env st)
  rw [if_neg h₁₀]
  by_cases h₁₁ : ch = 'o'
  · rw [if_pos h₁₁]
    exact .client .chanop h₁₁
  rw [if_neg h₁₁]
  by_cases h₁₂ : ch = 'v'
  · rw [if_pos h₁₂]
    exact .client .voice h₁₂
  rw [if_neg h₁₂]
  have hno : takesArg st.dir ch = false := by
    cases st.dir <;> simp [takesArg, h₃, h₄, h₅, h₆, h₇, h₈, h₉, h₁₀, h₁₁, h₁₂]
  refine .passes ⟨h₁, h₂⟩ (.inl hno) ?_
  split
  · exact modeParseMode_passes env _ st
  · split
    · exact .ite (fun _ => modeParseExmode_passes _ st) fun _ => .refl st
    · exact .refl st

lemma modeParseClient_spec (env : ParseEnv) (mode : ClientMode) (st : ParseState) : ∃ args maxArgs changes,
      modeParseClient env mode st = { st with args := args, maxArgs := maxArgs, changes := changes } ∧
        (env.sptr.myUser = false → args = st.args.drop 1) := by
  unfold modeParseClient
  obtain ⟨hnone, hargs⟩ | ⟨s, args, hargs, hsome⟩ := grab_cases env st
  · rw [hnone]
    exact ⟨st.args, st.maxArgs, st.changes, rfl, fun h => by rw [hargs h]; rfl⟩
  · rw [hsome]
    have hdrop : env.sptr.myUser = false → args = st.args.drop 1 := fun _ => by rw [hargs]; rfl
    simp only
    split
    · exact ⟨args, st.maxArgs - 1, st.changes, rfl, hdrop⟩
    · split
      · exact ⟨args, st.maxArgs - 1, st.changes, rfl, hdrop⟩
      · split
        · exact ⟨args, st.maxArgs - 1, st.changes, rfl, hdrop⟩
        · exact ⟨args, st.maxArgs - 1, _, rfl, hdrop⟩

/-- The arguments that letters leave, and their direction. `channel.c` `mode_parse`. -/
def restArgs : Dir → Str → List Str → Dir × List Str
  | dir, [], args => (dir, args)
  | dir, ch :: chs, args =>
    if ch = '+' then restArgs .add chs args
    else if ch = '-' then restArgs .del chs args
    else restArgs dir chs (if takesArg dir ch then args.drop 1 else args)

lemma modeParseLetters_args {env : ParseEnv} (hmy : env.sptr.myUser = false) (hserver : env.cptrServer = true)
    {ls : Str} : ∀ {st st' : ParseState}, modeParseLetters env ls st = some st' →
      (st'.dir, st'.args) = restArgs st.dir ls st.args := by
  induction ls with
  | nil =>
    intro st st' h
    rw [modeParseLetters] at h
    obtain rfl := some.inj h
    rfl
  | cons ch ls ih =>
    intro st st'' h
    rw [modeParseLetters] at h
    obtain ⟨st', hletter, hrest⟩ := Option.bind_eq_some_iff.mp h
    rw [ih hrest, restArgs]
    have hwalk := modeParseLetter_walk env st ch
    rw [hletter] at hwalk
    generalize hr : some st' = r at hwalk
    have hsign : takesArg st.dir ch = true → ch ≠ '+' ∧ ch ≠ '-' := by
      intro htakes
      constructor
      all_goals
        rintro rfl
        rw [show takesArg st.dir _ = false by cases st.dir <;> rfl] at htakes
        exact Bool.false_ne_true htakes
    cases hwalk with
    | dir d hd =>
      obtain rfl := some.inj hr
      obtain ⟨hch, rfl⟩ | ⟨hch, rfl⟩ := hd
      · rw [if_pos hch]
      · rw [if_neg (by rw [hch]; decide), if_pos hch]
    | client mode hmode =>
      obtain ⟨args, maxArgs, changes, heq, hargs⟩ := modeParseClient_spec env mode st
      rw [heq] at hr
      obtain rfl := some.inj hr
      have htakes : takesArg st.dir ch = true := by
        rw [hmode]
        cases st.dir <;> cases mode <;> rfl
      rw [if_neg (hsign htakes).1, if_neg (hsign htakes).2, if_pos htakes, ← hargs hmy]
    | takes htakes hr' =>
      rw [if_neg (hsign htakes).1, if_neg (hsign htakes).2, if_pos htakes]
      obtain ⟨hnone, heq⟩ | ⟨s, args, hargs, -, hpass⟩ := hr'
      · rw [heq] at hr
        obtain rfl := some.inj hr
        obtain ⟨-, hempty⟩ | ⟨s, args, -, hsome⟩ := grab_cases env st'
        · rw [hempty hmy]
          rfl
        · rw [hnone] at hsome
          cases hsome
      · have hsame := hpass.same st' hr.symm
        rw [hsame.dir, hsame.args, hargs]
        rfl
    | passes hno htakes hr' =>
      have hfalse : takesArg st.dir ch = false := by
        obtain h | ⟨-, h⟩ := htakes
        · exact h
        · exact absurd (h.symm.trans hserver) Bool.false_ne_true
      have hsame := hr'.same st' hr.symm
      rw [if_neg hno.1, if_neg hno.2, hfalse, hsame.dir, hsame.args]
      rfl

end Nefarious.Channel
