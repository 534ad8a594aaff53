import Nefarious.Channel.Command
import Nefarious.Channel.ModeWalk

/-!
# Arguments that are printed

When a mode buffer is printed, an op-level that is known is printed with its client, once for the servers that
know op-levels and once for those that do not.
-/

namespace Nefarious.Channel

open Option (bind_eq_bind bind_some map_eq_some_iff some.inj)

/-! ### The condition -/

/-- The op-level that a deop is stored with: in a bounce it is that of the member. `channel.c`
`mode_parse_client`. -/
def ParseState.deopLevel (st : ParseState) (user : Str) (oplevel : ℤ) : ℕ :=
  let oplevel : ℤ :=
    if st.flags.bounce then ((st.chan.findMember user).map fun m : Membership => (m.oplevel : ℤ)).getD oplevel
    else oplevel
  (oplevel % 2 ^ 16).toNat

/-- Behind a minus sign, an `o` that names an op comes with no op-level below `MAXOPLEVEL`: none is in the
argument, and, in a bounce, none is the member's. `channel.c` `mode_parse_client`. -/
def LetterSafe (env : ParseEnv) (st : ParseState) (ch : Char) : Prop :=
  ch = 'o' → st.dir = .del → ∀ t args, st.grab env = some (t, st.read args) → ∀ acptr oplevel,
    (st.read args).client env .chanop t = (some acptr, oplevel) → st.chan.isOp acptr.numnick = true →
      maxOpLevel ≤ st.deopLevel acptr.numnick oplevel

/-- The letters of a word, each in the state before it. `channel.c` `mode_parse`. -/
def LettersSafe (env : ParseEnv) : Str → ParseState → Prop
  | [], _ => True
  | ch :: chs, st => LetterSafe env st ch ∧
      ∀ st', modeParseLetter env st ch = some st' → LettersSafe env chs st'

/-- The words of a line. `channel.c` `mode_parse`. -/
def WordsSafe (env : ParseEnv) : ℕ → Str → ParseState → Prop
  | 0, _, _ => True
  | n + 1, modestr, st => LettersSafe env modestr st ∧
      ∀ st' word args, modeParseLetters env modestr st = some st' → st'.args = word :: args →
        WordsSafe env n word { st' with args := args }

/-! ### Changes of members -/

/-- No change takes ops from an op with an op-level below `MAXOPLEVEL`. `channel.c`
`mode_process_clients`. -/
def Known (ch : Chan) (cs : List CliChange) : Prop :=
  ∀ c ∈ cs, c.dir = .del → c.mode = .chanop → ch.isOp c.client.numnick = true → maxOpLevel ≤ c.oplevel

/-- What holds between the letters. `channel.c` `mode_parse`. -/
structure Ready (st : ParseState) : Prop where
  free : st.NullFree
  known : Known st.chan st.changes
  apart : st.changes.Pairwise CliChange.Other

lemma Ready.same {st st' : ParseState} (h : Ready st) (hs : Same st st') (hfree : st'.NullFree) :
    Ready st' where
  free := hfree
  known c hc hdir hmode hop := h.known c (hs.changes ▸ hc) hdir hmode ((hs.ops _) ▸ hop)
  apart := hs.changes ▸ h.apart

lemma Ready.passes {st : ParseState} {r : Option ParseState} (h : Ready st) (hr : Passes st r) :
    ∃ st', r = some st' ∧ Ready st' := by
  obtain ⟨st', hst', hfree⟩ := hr.safe h.free
  exact ⟨st', hst', h.same (hr.same st' hst') hfree⟩

variable {env : ParseEnv}

lemma Ready.client {st : ParseState} (h : Ready st) {mode : ClientMode}
    (hsafe : LetterSafe env st mode.letter) : Ready (modeParseClient env mode st) := by
  unfold modeParseClient
  obtain ⟨hnone, -⟩ | ⟨t, args, -, hsome⟩ := grab_cases env st
  · rw [hnone]
    exact h
  · rw [hsome]
    have hread : Ready (st.read args) := ⟨h.free, h.known, h.apart⟩
    simp only
    split
    · exact hread
    · cases hclient : (st.read args).client env mode t with
      | mk acptr oplevel =>
        cases acptr with
        | none => exact hread
        | some acptr =>
          simp only
          split
          · exact hread
          · refine ⟨h.free, fun c hc hdir hmode hop => ?_, pairwise_storeChange _ h.apart⟩
            obtain rfl | hc := mem_storeChange hc
            · obtain rfl : mode = .chanop := hmode
              have hlevel := hsafe rfl hdir t args hsome acptr oplevel hclient hop
              have hd : (st.read args).dir = .del := hdir
              simp only [hd, and_true]
              exact hlevel
            · exact h.known c hc hdir hmode hop

lemma Ready.letter {st : ParseState} (h : Ready st) {ch : Char}
    (hsafe : LetterSafe env st ch) : ∃ st', modeParseLetter env st ch = some st' ∧ Ready st' := by
  have hwalk := modeParseLetter_walk env st ch
  generalize modeParseLetter env st ch = r at hwalk
  cases hwalk with
  | dir d hd => exact ⟨_, rfl, h.free, h.known, h.apart⟩
  | client mode hmode =>
    subst hmode
    exact ⟨_, rfl, h.client hsafe⟩
  | takes htakes hr =>
    obtain ⟨-, rfl⟩ | ⟨s, args, -, -, hpass⟩ := hr
    · exact ⟨st, rfl, h⟩
    · have hread : Ready (st.read args) := ⟨h.free, h.known, h.apart⟩
      exact hread.passes hpass
  | passes hsign htakes hr => exact h.passes hr

lemma Ready.letters {ls : Str} : ∀ {st : ParseState}, Ready st → LettersSafe env ls st →
    ∃ st', modeParseLetters env ls st = some st' ∧ Ready st' := by
  induction ls with
  | nil => exact fun h _ => ⟨_, rfl, h⟩
  | cons ch ls ih =>
    intro st h hsafe
    obtain ⟨st', hletter, h'⟩ := h.letter hsafe.1
    obtain ⟨st'', hrest, h''⟩ := ih h' (hsafe.2 st' hletter)
    refine ⟨st'', ?_, h''⟩
    rw [modeParseLetters, hletter]
    exact hrest

lemma Ready.ts {st : ParseState} (h : Ready st) (word : Str) : Ready (modeParseTs env word st).1 := by
  unfold modeParseTs
  split
  · exact h
  · simp only
    split
    · exact ⟨h.free, h.known, h.apart⟩
    · split
      · split
        · refine ⟨fun mb hmb => ?_, h.known, h.apart⟩
          obtain ⟨mb', -, rfl⟩ := map_eq_some_iff.mp hmb
          exact nofun
        · refine ⟨fun mb hmb => ?_, h.known, h.apart⟩
          obtain ⟨mb', hmb', rfl⟩ := map_eq_some_iff.mp hmb
          exact h.free mb' hmb'
      · exact h

lemma Ready.words : (n : ℕ) → ∀ {modestr : Str} {st : ParseState}, Ready st →
    WordsSafe env n modestr st → ∃ st' dropped, modeParseWords env n modestr st = some (st', dropped) ∧ Ready st'
  | 0, _, st, h, _ => ⟨st, false, rfl, h⟩
  | n + 1, modestr, st, h, hsafe => by
    rw [modeParseWords]
    split
    · exact ⟨st, false, rfl, h⟩
    · obtain ⟨st', hletters, h'⟩ := h.letters hsafe.1
      rw [hletters]
      simp only [bind_eq_bind, bind_some]
      split
      · exact ⟨st', false, rfl, h'⟩
      · cases hargs : st'.args with
        | nil => exact ⟨st', false, rfl, h'⟩
        | cons word args =>
          have hrest : Ready { st' with args := args } := ⟨h'.free, h'.known, h'.apart⟩
          simp only
          split
          · exact ⟨_, _, rfl, hrest.ts word⟩
          · split
            · exact ⟨st', false, rfl, h'⟩
            · exact Ready.words n hrest (hsafe.2 st' word args hletters hargs)

/-! ### The end of a line -/

lemma modeParseSimple_passes (st : ParseState) : Passes st (some (modeParseSimple st)) := by
  have hfree : ∀ f : ModeBuf → ModeBuf, (∀ mb, (f mb).args = mb.args) → st.NullFree →
      ∀ mb ∈ st.mbuf.map f, mb.NullFree := by
    intro f hf hfree mb hmb
    obtain ⟨mb', hmb', rfl⟩ := map_eq_some_iff.mp hmb
    intro a ha
    rw [hf] at ha
    exact hfree mb' hmb' a ha
  unfold modeParseSimple
  simp only
  split
  · exact ⟨fun _ h => some.inj h ▸ ⟨rfl, rfl, rfl, rfl, fun _ => rfl⟩,
      fun h => ⟨_, rfl, hfree _ (fun _ => rfl) h⟩⟩
  · exact ⟨fun _ h => some.inj h ▸ ⟨rfl, rfl, rfl, rfl, fun _ => rfl⟩,
      fun h => ⟨_, rfl, hfree _ (fun _ => rfl) h⟩⟩

lemma modeParseWipeout_passes (env : ParseEnv) (st : ParseState) : Passes st (modeParseWipeout env st) := by
  have hstring : ∀ (done : Done) (mode : StringMode) (s : Option ModeString) (st : ParseState),
      Passes st (modeParseWipeString env done mode s st) := by
    intro done mode s st
    unfold modeParseWipeString
    cases s with
    | none => exact .refl st
    | some s => exact .unless fun _ => .buffer env st (by cases mode <;> rfl)
  unfold modeParseWipeout
  refine .unless fun _ => ?_
  refine Passes.bind (.ite (fun _ => .buffer env st rfl) fun _ => .refl st) fun st₁ _ => ?_
  refine Passes.bind (hstring _ _ _ st₁) fun st₂ _ => ?_
  refine Passes.bind (hstring _ _ _ st₂) fun st₃ _ => ?_
  exact Passes.bind (hstring _ _ _ st₃) fun st₄ _ => hstring _ _ _ st₄

lemma modeProcessMasks_passes (env : ParseEnv) (kind : MaskList) (bans : List Ban) :
    ∀ (n : BanCount) (made kept : List Ban) (st : ParseState),
      Passes st (modeProcessMasks env kind bans n made kept st) := by
  have hn : ∀ dir s, nullText (dir, .string kind.mode s) = false := by
    intro dir s
    cases dir <;> rfl
  induction bans with
  | nil =>
    intro n made kept st
    refine .write fun user => ?_
    cases kind <;> rfl
  | cons b bans ih =>
    intro n made kept st
    unfold modeProcessMasks
    refine .ite (fun _ => ih _ _ _ st) fun _ => .ite (fun _ => ?_) fun _ => ?_
    · exact (Passes.buffer env st (hn _ _)).bind fun st' _ => .ite (fun _ => ih _ _ _ st') fun _ => ih _ _ _ st'
    · refine .ite (fun _ => .ite (fun _ => ih _ _ _ st) fun _ => .ite (fun _ => ih _ _ _ st) fun _ => ?_)
        fun _ => ih _ _ _ st
      exact (Passes.buffer env st (hn _ _)).bind fun st' _ => .ite (fun _ => ih _ _ _ st') fun _ => ih _ _ _ st'

lemma modeProcessList_passes (env : ParseEnv) (kind : MaskList) (st : ParseState) :
    Passes st (modeProcessList env kind st) := by
  unfold modeProcessList
  exact .ite (fun _ => modeProcessMasks_passes env kind _ _ _ _ st) fun _ => .refl st

lemma isOp_apply (c : CliChange) (m : Membership) (ch : Chan) {user : Str}
    (h : c.client.numnick = user → c.mode ≠ .chanop) : (c.apply m ch).isOp user = ch.isOp user := by
  have hmode : c.client.numnick = user → c.mode.chfl ≠ .chanop := by
    intro huser
    have hne := h huser
    cases hm : c.mode with
    | chanop => exact absurd hm hne
    | halfop => decide
    | voice => decide
  have heffect : ∀ ch : Chan, (ch.mapMember c.client.numnick c.effect).isOp user = ch.isOp user := by
    intro ch
    refine isOp_mapMember (fun m => ?_) fun huser m => ?_
    · unfold CliChange.effect
      split <;> rfl
    · have hne := hmode huser
      unfold CliChange.effect
      split
      · split
        · exact absurd ‹_› (h huser)
        · simp [hne.symm]
      · simp [hne.symm]
  have hcheck : ∀ ch : Chan, ch.checkDelayedJoins.isOp user = ch.isOp user := by
    intro ch
    unfold Chan.checkDelayedJoins
    split <;> rfl
  unfold CliChange.apply
  rw [heffect]
  split
  · rw [hcheck]
    exact isOp_mapMember (fun _ => rfl) fun _ m => by simp
  · rfl

lemma modeProcessClient_printed (env : ParseEnv) {st : ParseState} {c : CliChange} {cs : List CliChange}
    (hfree : st.NullFree) (hknown : Known st.chan (c :: cs)) (hapart : (c :: cs).Pairwise CliChange.Other) :
    ∃ st', modeProcessClient env st c = some st' ∧ st'.NullFree ∧ Known st'.chan cs := by
  have hrest : Known st.chan cs := fun d hd => hknown d (List.mem_cons_of_mem c hd)
  unfold modeProcessClient
  cases hmember : st.chan.findMember c.client.numnick with
  | none => exact ⟨st, rfl, hfree, hrest⟩
  | some m =>
    simp only
    split
    · exact ⟨st, rfl, hfree, hrest⟩
    · split
      · exact ⟨st, rfl, hfree, hrest⟩
      · rename_i hstatus
        split
        · exact ⟨st, rfl, hfree, hrest⟩
        · have hn : nullText (c.dir, .client c.mode c.client.toModeClient c.oplevel) = false := by
            cases hdir : c.dir with
            | add => rfl
            | del =>
              cases hmode : c.mode with
              | halfop => rfl
              | voice => rfl
              | chanop =>
                have hop : .chanop ∈ m.status := by
                  simpa [ParseState.sameStatus, hdir, hmode, ClientMode.chfl] using hstatus
                have hlevel := hknown c List.mem_cons_self hdir hmode (isOp_eq_true_iff.mpr ⟨m, hmember, hop⟩)
                exact decide_eq_false (Nat.not_lt.mpr hlevel)
          obtain ⟨ch, hch⟩ : ∃ ch, ch = (if st.flags.set = true then c.apply m
              (if c.dir = .add ∧ c.mode = .chanop then
                st.chan.setOpLevel c.client.numnick (st.newoplevel c) else st.chan)
              else if c.dir = .add ∧ c.mode = .chanop then
                st.chan.setOpLevel c.client.numnick (st.newoplevel c) else st.chan) := ⟨_, rfl⟩
          have hops : ∀ user, (c.client.numnick = user → c.mode ≠ .chanop) →
              ch.isOp user = st.chan.isOp user := by
            intro user huser
            have hset : (if c.dir = .add ∧ c.mode = .chanop then
                st.chan.setOpLevel c.client.numnick (st.newoplevel c) else st.chan).isOp user
                = st.chan.isOp user := by
              split
              · exact isOp_setOpLevel ..
              · rfl
            rw [hch]
            split
            · exact (isOp_apply c m _ huser).trans hset
            · exact hset
          rw [← hch]
          have hpass := Passes.buffer env { st with chan := ch } hn
          obtain ⟨st', hst', hfree'⟩ := hpass.safe hfree
          refine ⟨st', hst', hfree', fun d hd hdir hmode hop => ?_⟩
          rw [(hpass.same st' hst').ops, hops] at hop
          · exact hrest d hd hdir hmode hop
          · intro hsame hc
            exact (List.pairwise_cons.mp hapart).1 d hd ⟨hsame, hc.trans hmode.symm⟩

lemma modeProcessClients_printed (env : ParseEnv) (cs : List CliChange) : ∀ {st : ParseState}, st.NullFree →
    Known st.chan cs → cs.Pairwise CliChange.Other → ∃ st', modeProcessClients env cs st = some st' ∧
    st'.NullFree := by
  induction cs with
  | nil => exact fun hfree _ _ => ⟨_, rfl, hfree⟩
  | cons c cs ih =>
    intro st hfree hknown hapart
    obtain ⟨st', hst', hfree', hknown'⟩ := modeProcessClient_printed env hfree hknown hapart
    obtain ⟨st'', hst'', hfree''⟩ := ih hfree' hknown' (List.pairwise_cons.mp hapart).2
    refine ⟨st'', ?_, hfree''⟩
    rw [modeProcessClients, hst']
    exact hst''

lemma Ready.finish {st : ParseState} (h : Ready st) :
    ∃ st', modeParseFinish env st = some st' ∧ st'.NullFree := by
  unfold modeParseFinish
  split
  · exact ⟨st, rfl, h.free⟩
  · obtain ⟨st₀, h₀, hready₀⟩ := h.passes (modeParseSimple_passes st)
    obtain rfl := some.inj h₀
    obtain ⟨st₁, h₁, hready₁⟩ := hready₀.passes (modeParseWipeout_passes env _)
    obtain ⟨st₂, h₂, hready₂⟩ := hready₁.passes (modeProcessList_passes env .ban st₁)
    obtain ⟨st₃, h₃, hready₃⟩ := hready₂.passes (modeProcessList_passes env .except st₂)
    simp only [bind_eq_bind, h₁, h₂, h₃, bind_some]
    exact modeProcessClients_printed env _ hready₃.free hready₃.known hready₃.apart

/-! ### Printing -/

lemma ModeBuf.NullFree.flush (env : FlushEnv) (all : Bool) : (n : ℕ) → ∀ (ch : Chan) {mb : ModeBuf},
    mb.NullFree → ∃ r, modebufFlushInt env all n ch mb = some r
  | 0, ch, mb, _ => ⟨_, rfl⟩
  | n + 1, ch, mb, h => by
    obtain ⟨⟨ch', mb', lines⟩, hr, hfree⟩ := (flushOnce_passes env ch mb).2 h
    rw [modebufFlushInt, hr]
    simp only [bind_eq_bind, bind_some]
    split
    · obtain ⟨r', hr'⟩ := ModeBuf.NullFree.flush env all n ch' hfree
      exact ⟨_, by rw [hr', bind_some]⟩
    · exact ⟨_, rfl⟩

/-- **Every argument that is printed is there** when no deop that names an op comes with an op-level, while a
line is parsed and when the buffer is flushed behind it; and the next line finds the buffer in the same
condition. -/
theorem modeParse_printed (env : ParseEnv) {mbuf : Option ModeBuf} (hbuf : ∀ mb ∈ mbuf, mb.NullFree) (ch : Chan)
    (modestr : Str) (args : List Str) (flags : ParseFlags) (member : Option Str)
    (hsafe : WordsSafe env (args.length + 1) modestr (parseInit mbuf ch args flags member)) :
    ∃ st, modeParse env mbuf ch modestr args flags member = some st ∧
      ∀ mb ∈ st.mbuf, mb.NullFree ∧ ∃ r, modebufFlush env.flush st.chan mb = some r := by
  have hinit : Ready (parseInit mbuf ch args flags member) := ⟨hbuf, nofun, List.Pairwise.nil⟩
  obtain ⟨st, dropped, hwords, h⟩ := hinit.words (args.length + 1) hsafe
  have hend : ∃ st', (if dropped = true then some st else modeParseFinish env st) = some st' ∧ st'.NullFree := by
    split
    · exact ⟨st, rfl, h.free⟩
    · exact h.finish
  obtain ⟨st', hst', hfree⟩ := hend
  refine ⟨st', ?_, fun mb hmb => ⟨hfree mb hmb, (hfree mb hmb).flush env.flush true _ _⟩⟩
  rw [modeParse, hwords]
  exact hst'

lemma nullFree_modebufInit (chname : Str) (dest : Dest) : ∀ mb ∈ some (modebufInit chname dest),
    mb.NullFree := by
  rintro mb hmb a ha
  obtain rfl := some.inj hmb
  exact absurd ha List.not_mem_nil

def opped : ModeUser := ⟨⟨"opped".toList, "AAAAA".toList, by decide, by decide, by decide⟩, false, false, false⟩

/-- A channel on which this user has ops. -/
def oppedChan : Chan := { sampleChan with members := [⟨"AAAAA".toList, {.chanop}, 5⟩] }

/-- A server that is linked here names this user. -/
def oppedEnv : ParseEnv := { sampleParseEnv with findNUser := fun _ => some opped }

/-- The buffer for a MODE from a server. `m_mode.c` `ms_mode`. -/
def freshBuf : ModeBuf := modebufInit oppedChan.chname ⟨true, false, false, false, false⟩

theorem modeParse_printed_deop : ∃ st,
    modeParse oppedEnv (some freshBuf) oppedChan "-o".toList ["AAAAA".toList] setStrictForce none = some st ∧
      ∀ mb ∈ st.mbuf, mb.NullFree ∧ ∃ r, modebufFlush oppedEnv.flush st.chan mb = some r := by
  refine modeParse_printed oppedEnv (nullFree_modebufInit _ _) oppedChan _ _ _ _ ⟨⟨nofun, ?_⟩, ?_⟩
  · intro st hst
    obtain rfl := some.inj hst
    refine ⟨fun _ _ t args hgrab acptr oplevel hclient _ => ?_, fun _ _ => trivial⟩
    obtain ⟨rfl, -⟩ := Prod.mk.inj (some.inj hgrab)
    obtain ⟨-, rfl⟩ := Prod.mk.inj hclient
    exact Nat.le_succ maxOpLevel
  · intro st word args hletters hargs
    have hrest := @modeParseLetters_args oppedEnv rfl rfl _ _ _ hletters
    rw [hargs] at hrest
    exact absurd (congrArg Prod.snd hrest) (List.cons_ne_nil word args)

/-- **A server that sends an op-level with a deop** has the removal printed through a null pointer: the line is
`-o AAAAA:5`, and `AAAAA` is an op. -/
theorem deop_with_level : ¬ ∀ (env : ParseEnv) (mbuf : Option ModeBuf) (ch : Chan) (modestr : Str) (args :
    List Str) (flags : ParseFlags) (member : Option Str), (∀ mb ∈ mbuf, mb.NullFree) → ∃ st,
    modeParse env mbuf ch modestr args flags member = some st ∧ ∀ mb ∈ st.mbuf, ∃ r,
    modebufFlush env.flush st.chan mb = some r := by
  intro h
  obtain ⟨st, hst, hflush⟩ := h oppedEnv (some freshBuf) oppedChan "-o".toList ["AAAAA:5".toList] setStrictForce
    none (nullFree_modebufInit _ _)
  have hnull : ((modeParse oppedEnv (some freshBuf) oppedChan "-o".toList ["AAAAA:5".toList] setStrictForce
      none).all fun st => st.mbuf.any fun mb => (modebufFlush oppedEnv.flush st.chan mb).isNone) = true := by
    decide +kernel
  rw [hst, Option.all_some] at hnull
  obtain ⟨mb, hmb, hnone⟩ := (Option.any_eq_true ..).mp hnull
  obtain ⟨r, hr⟩ := hflush mb hmb
  rw [hr] at hnone
  exact Bool.noConfusion hnone

end Nefarious.Channel
