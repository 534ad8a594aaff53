import Nefarious.Channel.Bounce

/-!
# The MODE command of a local user

`mMode` is what `m_mode` does to a channel.
-/

namespace Nefarious.Channel

open Option (bind_eq_bind bind_some)
open List (forall₂_same mem_cons mem_cons_of_mem mem_cons_self mem_singleton pairwise_cons)

/-! ## The command -/

/-- Print the buffer after the parsing. `m_mode.c` `m_mode`. -/
def ParseState.flushed (env : ParseEnv) (st : ParseState) : Option Chan :=
  match st.mbuf with
  | none => some st.chan
  | some mb => (modebufFlush env.flush st.chan mb).map (·.1)

/-- Set the mode, and force it to take. `m_mode.c` `m_mode`. -/
def setForce : ParseFlags := ⟨true, false, true, false, false, false, false, false, false⟩

/-- Only answer. `m_mode.c` `m_mode`. -/
def refuse (member : Bool) : ParseFlags := ⟨false, false, false, false, member, !member, false, false, false⟩

/-- Set the mode, as an operator or as a half-operator. `m_mode.c` `m_mode` (`hoflags`). -/
def hoflags (halfop : Bool) : ParseFlags :=
  ⟨true, false, false, false, halfop, false, false, false, halfop⟩

/-- What the MODE command of a local user does to a channel, with the parameters behind its name.
`modeLchan` is the privilege to change local channels. `m_mode.c`. -/
def mMode (env : ParseEnv) (modeLchan : Bool) (ch : Chan) : List Str → Option Chan
  | [] => some ch
  | modestr :: args =>
    let member := ch.findMember env.sptr.numnick
    if ¬ member.any (fun m => .chanop ∈ m.status ∨ .halfop ∈ m.status) then
      if ch.chname.head? = some '&' ∧ modeLchan then do
        let st ← modeParse env (some (modebufInit ch.chname ⟨false, false, false, false, false⟩)) ch
          modestr args setForce (member.map (·.user))
        st.flushed env
      else do
        let st ← modeParse env none ch modestr args (refuse member.isSome) (member.map (·.user))
        some st.chan
    else do
      let halfop := member.any (fun m => .chanop ∉ m.status)
      let st ← modeParse env (some (modebufInit ch.chname ⟨true, false, false, false, false⟩)) ch
        modestr args (hoflags halfop) (member.map (·.user))
      st.flushed env

/-! ## Letters of someone who is not an operator -/

/-- The changes of members that are kept for someone who is not an operator. `channel.c`
`mode_parse_client`. -/
def CliChange.Allowed (env : ParseEnv) (c : CliChange) : Prop :=
  c.mode = .voice ∨ (c.mode = .halfop ∧ c.dir = .del ∧ c.client.numnick = env.sptr.numnick ∧
    env.feat.halfopDehalfopSelf = true)

/-- Two changes of different members, or of different modes. `channel.c`
`mode_parse_client` ("find an element to stick them in"). -/
def CliChange.Other (c d : CliChange) : Prop := ¬(c.client.numnick = d.client.numnick ∧ c.mode = d.mode)

/-- What the letters leave as it is: everything but the bans, which a half-operator changes, and the
changes that are kept. -/
structure Held (env : ParseEnv) (mbuf : Option ModeBuf) (ch : Chan) (flags : ParseFlags)
    (st : ParseState) : Prop where
  mbuf_eq : st.mbuf = mbuf
  chan : st.chan = { ch with banlist := st.chan.banlist }
  flags_eq : st.flags = flags
  simple : st.add = ∅ ∧ st.exadd = ∅ ∧ st.del = ∅ ∧ st.exdel = ∅
  excepts : .exceptclean ∉ st.done
  bans : flags.ishalfop = false → st.chan.banlist = ch.banlist
  changes : ∀ c ∈ st.changes, c.Allowed env
  others : st.changes.Pairwise CliChange.Other

variable {env : ParseEnv} {mbuf : Option ModeBuf} {ch : Chan} {flags : ParseFlags} {st : ParseState}

lemma Held.grab (h : Held env mbuf ch flags st) :
    st.grab env = none ∨ ∃ t st', st.grab env = some (t, st') ∧ Held env mbuf ch flags st' := by
  unfold ParseState.grab
  split
  · exact .inl rfl
  · split
    · exact .inl rfl
    · exact .inr ⟨_, _, rfl, h.1, h.2, h.3, h.4, h.5, h.6, h.7, h.8⟩

/-- A step that leaves as it is what is held. -/
def HeldSome (env : ParseEnv) (mbuf : Option ModeBuf) (ch : Chan) (flags : ParseFlags)
    (r : Option ParseState) : Prop :=
  ∃ st', r = some st' ∧ Held env mbuf ch flags st'

lemma Held.keep (h : Held env mbuf ch flags st) : HeldSome env mbuf ch flags (some st) := ⟨st, rfl, h⟩

lemma Held.notOper (h : Held env mbuf ch flags st) (hf : (flags.notoper || flags.notmember) = true) :
    st.notOper = true := by
  rw [ParseState.notOper, h.flags_eq]
  exact hf

lemma Held.limit (h : Held env mbuf ch flags st) (hf : (flags.notoper || flags.notmember) = true) :
    HeldSome env mbuf ch flags (modeParseLimit env st) := by
  have hset : ∀ st : ParseState, Held env mbuf ch flags st → ∀ t,
      HeldSome env mbuf ch flags (modeParseLimitSet env st t) := by
    intro st h t
    rw [modeParseLimitSet, if_pos (h.notOper hf)]
    exact h.keep
  unfold modeParseLimit
  split
  · obtain hg | ⟨t, st', hg, h'⟩ := h.grab
    · rw [hg]
      exact h.keep
    · rw [hg]
      simp only
      split
      · exact h'.keep
      · split
        · exact h'.keep
        · exact hset st' h' _
  · exact hset st h _

lemma Held.redir (h : Held env mbuf ch flags st) (hf : (flags.notoper || flags.notmember) = true) :
    HeldSome env mbuf ch flags (modeParseRedir env st) := by
  have hset : ∀ st : ParseState, Held env mbuf ch flags st → ∀ t,
      HeldSome env mbuf ch flags (modeParseRedirSet env st t) := by
    intro st h t
    rw [modeParseRedirSet, if_pos (h.notOper hf)]
    exact h.keep
  unfold modeParseRedir
  split
  · obtain hg | ⟨t, st', hg, h'⟩ := h.grab
    · rw [hg]
      exact h.keep
    · rw [hg]
      simp only
      split
      · exact h'.keep
      · split
        · exact h'.keep
        · split
          · exact hset st' h' _
          · exact h'.keep
  · split
    · exact h.keep
    · exact hset st h _

lemma Held.key (h : Held env mbuf ch flags st) (hf : (flags.notoper || flags.notmember) = true) :
    HeldSome env mbuf ch flags (modeParseKey env st) := by
  unfold modeParseKey
  obtain hg | ⟨t, st', hg, h'⟩ := h.grab
  · rw [hg]
    exact h.keep
  · rw [hg]
    simp only
    rw [if_pos (h'.notOper hf)]
    exact h'.keep

lemma Held.upass (h : Held env mbuf ch flags st) (hf : (flags.notoper || flags.notmember) = true) :
    HeldSome env mbuf ch flags (modeParseUpass env st) := by
  unfold modeParseUpass
  obtain hg | ⟨t, st', hg, h'⟩ := h.grab
  · rw [hg]
    exact h.keep
  · rw [hg]
    simp only
    rw [if_pos (h'.notOper hf)]
    exact h'.keep

lemma Held.apass (h : Held env mbuf ch flags st) (hf : (flags.notoper || flags.notmember) = true) :
    HeldSome env mbuf ch flags (modeParseApass env st) := by
  unfold modeParseApass
  obtain hg | ⟨t, st', hg, h'⟩ := h.grab
  · rw [hg]
    exact h.keep
  · rw [hg]
    simp only
    rw [if_pos (h'.notOper hf)]
    exact h'.keep

lemma Held.dummy (h : Held env mbuf ch flags st) : Held env mbuf ch flags (modeParseDummy env st) := by
  unfold modeParseDummy
  obtain hg | ⟨t, st', hg, h'⟩ := h.grab
  · rw [hg]
    exact h
  · rw [hg]
    exact h'

lemma Held.mask (h : Held env mbuf ch flags st) (hf : (flags.notoper || flags.notmember) = true)
    (kind : MaskList) : Held env mbuf ch flags (modeParseMask env kind st) := by
  unfold modeParseMask
  obtain hg | ⟨t, st', hg, h'⟩ := h.grab
  · rw [hg]
    exact h
  · rw [hg]
    simp only
    split
    · exact h'
    · next hban =>
      have hnot := h'.notOper hf
      have hban : kind = .ban ∧ st'.flags.ishalfop = true := by
        by_contra hno
        exact hban ⟨hnot, hno⟩
      obtain ⟨rfl, hhalf⟩ := hban
      rw [h'.flags_eq] at hhalf
      split
      · exact h'
      · split
        · exact h'
        · refine ⟨h'.mbuf_eq, ?_, h'.flags_eq, h'.simple, ?_, ?_, h'.changes, h'.others⟩
          · have hchan := h'.chan
            simp only [Chan.setMasks]
            rw [hchan]
          · simp [MaskList.clean, h'.excepts]
          · intro hno
            rw [hhalf] at hno
            cases hno

lemma mem_storeChange {c d : CliChange} {l : List CliChange} (h : d ∈ storeChange c l) : d = c ∨ d ∈ l := by
  induction l with
  | nil => exact .inl (mem_singleton.mp h)
  | cons e l ih =>
    rw [storeChange] at h
    split at h
    · obtain h | h := mem_cons.mp h
      · exact .inl h
      · exact .inr (mem_cons_of_mem _ h)
    · obtain h | h := mem_cons.mp h
      · exact .inr (h ▸ mem_cons_self)
      · exact (ih h).imp_right (mem_cons_of_mem _)

lemma pairwise_storeChange (c : CliChange) {l : List CliChange} (h : l.Pairwise CliChange.Other) :
    (storeChange c l).Pairwise CliChange.Other := by
  induction l with
  | nil => exact List.pairwise_singleton _ _
  | cons e l ih =>
    obtain ⟨he, hl⟩ := pairwise_cons.mp h
    rw [storeChange]
    split
    · next hsame =>
      refine pairwise_cons.mpr ⟨fun d hd => ?_, hl⟩
      have := he d hd
      unfold CliChange.Other at this ⊢
      rwa [hsame.1, hsame.2] at this
    · next hother =>
      refine pairwise_cons.mpr ⟨fun d hd => ?_, ih hl⟩
      obtain rfl | hd := mem_storeChange hd
      · exact hother
      · exact he d hd

lemma Held.client (h : Held env mbuf ch flags st) (hf : (flags.notoper || flags.notmember) = true)
    (mode : ClientMode) : Held env mbuf ch flags (modeParseClient env mode st) := by
  unfold modeParseClient
  obtain hg | ⟨t, st', hg, h'⟩ := h.grab
  · rw [hg]
    exact h
  · rw [hg]
    have hnot := h'.notOper hf
    simp only [hnot, Bool.true_and]
    split
    · exact h'
    · next hdir =>
      split
      · exact h'
      · next acptr oplevel _ =>
        split
        · exact h'
        · next hself =>
          refine ⟨h'.mbuf_eq, h'.chan, h'.flags_eq, h'.simple, h'.excepts, h'.bans, ?_,
            pairwise_storeChange _ h'.others⟩
          intro c hc
          obtain rfl | hc := mem_storeChange hc
          · by_cases hvoice : mode = .voice
            · exact .inl hvoice
            · have hno : (!(decide (mode = .voice) && st'.flags.ishalfop)) = true := by simp [hvoice]
              simp only [hno, true_and, not_not] at hdir hself
              exact .inr ⟨hself.2.2.1, hdir, hself.2.1, hself.2.2.2⟩
          · exact h'.changes c hc

lemma Held.mode (h : Held env mbuf ch flags st) (hf : (flags.notoper || flags.notmember) = true)
    (f : ModeFlag) : modeParseMode env f st = st := by
  rw [modeParseMode, if_pos (h.notOper hf)]

lemma Held.exmode (h : Held env mbuf ch flags st) (hf : (flags.notoper || flags.notmember) = true)
    (f : ExMode) : modeParseExmode f st = st := by
  rw [modeParseExmode, if_pos (h.notOper hf)]

lemma Held.letter (h : Held env mbuf ch flags st) (hf : (flags.notoper || flags.notmember) = true)
    (c : Char) : HeldSome env mbuf ch flags (modeParseLetter env st c) := by
  apply modeParseLetter_cases
  case hdir => exact fun _ => ⟨_, rfl, h.1, h.2, h.3, h.4, h.5, h.6, h.7, h.8⟩
  case hsame => exact h.keep
  case hlimit => exact h.limit hf
  case hredir => exact h.redir hf
  case hkey => exact h.key hf
  case hapass => exact h.apass hf
  case hupass => exact h.upass hf
  case hmask => exact fun kind => (h.mask hf kind).keep
  case hdummy => exact h.dummy.keep
  case hclient => exact fun mode => (h.client hf mode).keep
  case hmode => exact fun f => by rw [h.mode hf]; exact h.keep
  case hexmode => exact fun f => by rw [h.exmode hf]; exact h.keep

lemma Held.letters (hf : (flags.notoper || flags.notmember) = true) (cs : Str) : ∀ {st : ParseState},
    Held env mbuf ch flags st → HeldSome env mbuf ch flags (modeParseLetters env cs st) := by
  induction cs with
  | nil => exact fun h => h.keep
  | cons c cs ih =>
    intro st h
    obtain ⟨st', hst', h'⟩ := h.letter hf c
    rw [modeParseLetters, hst']
    exact ih h'

lemma Held.words (hf : (flags.notoper || flags.notmember) = true) (hserver : env.cptrServer = false)
    (n : ℕ) : ∀ {st : ParseState} (modestr : Str), Held env mbuf ch flags st →
      ∃ st', modeParseWords env n modestr st = some (st', false) ∧ Held env mbuf ch flags st' := by
  induction n with
  | zero => exact fun _ h => ⟨_, rfl, h⟩
  | succ n ih =>
    intro st modestr h
    rw [modeParseWords]
    split
    · exact ⟨_, rfl, h⟩
    · obtain ⟨st', hst', h'⟩ := Held.letters hf modestr h
      rw [hst']
      simp only [bind_eq_bind, bind_some]
      split
      · exact ⟨_, rfl, h'⟩
      · split
        · exact ⟨_, rfl, h'⟩
        · rw [if_neg (by simp [hserver])]
          split
          · exact ⟨_, rfl, h'⟩
          · exact ih _ ⟨h'.1, h'.2, h'.3, h'.4, h'.5, h'.6, h'.7, h'.8⟩

lemma held_parseInit (env : ParseEnv) (mbuf : Option ModeBuf) (ch : Chan) (args : List Str)
    (flags : ParseFlags) (member : Option Str) : Held env mbuf ch flags (parseInit mbuf ch args flags member) :=
  ⟨rfl, rfl, rfl, ⟨rfl, rfl, rfl, rfl⟩, by simp [parseInit], fun _ => rfl, by simp [parseInit],
    List.Pairwise.nil⟩

lemma modeParse_refuse (hserver : env.cptrServer = false) (ch : Chan) (modestr : Str) (args : List Str)
    (isMember : Bool) (member : Option Str) :
    ∃ st, modeParse env none ch modestr args (refuse isMember) member = some st ∧ st.chan = ch := by
  have hf : ((refuse isMember).notoper || (refuse isMember).notmember) = true := by
    cases isMember <;> rfl
  obtain ⟨st, hst, h⟩ := Held.words hf hserver (args.length + 1) modestr
    (held_parseInit env none ch args (refuse isMember) member)
  refine ⟨st, ?_, ?_⟩
  · rw [modeParse, hst]
    simp only [bind_eq_bind, bind_some]
    rw [if_neg (by simp), modeParseFinish, if_pos (.inl (by rw [h.mbuf_eq]; rfl))]
  · have hchan := h.chan
    rw [h.bans rfl] at hchan
    exact hchan

/-! ## What a half-operator may change -/

/-- What a half-operator may change of a member: its voice, and its own status; a hidden member that is
given voice is shown. -/
structure MemberMay (env : ParseEnv) (m m' : Membership) : Prop where
  user : m'.user = m.user
  oplevel : m'.oplevel = m.oplevel
  status : ∀ f, f ≠ .voice → f ≠ .delayed → f ≠ .halfop → (f ∈ m'.status ↔ f ∈ m.status)
  halfop : (.halfop ∈ m'.status ↔ .halfop ∈ m.status) ∨
    (m.user = env.sptr.numnick ∧ env.feat.halfopDehalfopSelf = true ∧ .halfop ∉ m'.status)
  hidden : .delayed ∈ m'.status → .delayed ∈ m.status
  shown : .delayed ∈ m.status → .delayed ∉ m'.status → .voice ∈ m'.status

/-- What a half-operator may change of a channel: its bans, its members, and `+d`, which ends when no
member is hidden any more. -/
structure HalfopMay (env : ParseEnv) (ch ch' : Chan) : Prop where
  rest : ch' = { ch with mode := ch'.mode, members := ch'.members, banlist := ch'.banlist }
  mode : ch'.mode = ch.mode ∨ (ch'.mode = ch.mode.erase .wasdeljoins ∧ ch'.findDelayedJoins = false)
  members : List.Forall₂ (MemberMay env) ch.members ch'.members

/-- A member that some changes are about, or not. -/
structure MemberStep (env : ParseEnv) (cs : List CliChange) (m m' : Membership) : Prop
    extends MemberMay env m m' where
  untouched : (∀ c ∈ cs, ¬(c.client.numnick = m.user ∧ c.mode = .voice)) →
    (.voice ∈ m'.status ↔ .voice ∈ m.status) ∧ (.delayed ∈ m'.status ↔ .delayed ∈ m.status)

lemma MemberStep.refl (env : ParseEnv) (cs : List CliChange) (m : Membership) : MemberStep env cs m m :=
  ⟨⟨rfl, rfl, fun _ _ _ _ => Iff.rfl, .inl Iff.rfl, id, fun h hno => absurd h hno⟩,
    fun _ => ⟨Iff.rfl, Iff.rfl⟩⟩

variable {m : Membership} {user : Str} {f : Membership → Membership}

lemma MemberStep.trans {c : CliChange} {cs : List CliChange} (hc : ∀ d ∈ cs, c.Other d) {m' m'' : Membership}
    (h : MemberStep env [c] m m') (h' : MemberStep env cs m' m'') : MemberStep env (c :: cs) m m'' := by
  refine ⟨⟨h'.user.trans h.user, h'.oplevel.trans h.oplevel, ?_, ?_, fun hd => h.hidden (h'.hidden hd), ?_⟩,
    ?_⟩
  · intro f h1 h2 h3
    exact (h'.status f h1 h2 h3).trans (h.status f h1 h2 h3)
  · obtain h2 | ⟨h2, h3⟩ := h'.halfop
    · obtain h1 | ⟨h1, hfeat, hno⟩ := h.halfop
      · exact .inl (h2.trans h1)
      · exact .inr ⟨h1, hfeat, fun hin => hno (h2.mp hin)⟩
    · exact .inr ⟨h.user ▸ h2, h3⟩
  · intro hin hout
    by_cases hmid : .delayed ∈ m'.status
    · exact h'.shown hmid hout
    · -- The first change gave voice to the member, and no other one is about its voice.
      have hvoice := h.shown hin hmid
      have habout : c.client.numnick = m.user ∧ c.mode = .voice := by
        by_contra hno
        have := (h.untouched fun d hd => by rwa [mem_singleton.mp hd]).2
        exact hmid (this.mpr hin)
      refine ((h'.untouched fun d hd hd' => hc d hd ?_).1).mpr hvoice
      rw [h.user] at hd'
      exact ⟨habout.1.trans hd'.1.symm, habout.2.trans hd'.2.symm⟩
  · intro hno
    obtain ⟨h1, h2⟩ := h.untouched fun d hd => hno d (mem_singleton.mp hd ▸ mem_cons_self)
    obtain ⟨h3, h4⟩ := h'.untouched fun d hd => by
      rw [h.user]
      exact hno d (mem_cons_of_mem _ hd)
    exact ⟨h3.trans h1, h4.trans h2⟩

lemma forall₂_trans {α β γ : Type*} {R : α → β → Prop} {S : β → γ → Prop} {T : α → γ → Prop}
    (h : ∀ a b c, R a b → S b c → T a c) {l : List α} {l' : List β} {l'' : List γ}
    (h₁ : List.Forall₂ R l l') (h₂ : List.Forall₂ S l' l'') : List.Forall₂ T l l'' := by
  induction h₁ generalizing l'' with
  | nil =>
    cases h₂
    exact .nil
  | cons hab _ ih =>
    cases h₂ with
    | cons hbc hrest => exact .cons (h _ _ _ hab hbc) (ih hrest)

lemma forall₂_updateMember {R : Membership → Membership → Prop} (hrefl : ∀ m, R m m) {l : List Membership}
    (h : ∀ m, l.find? (fun m => m.user = user) = some m → R m (f m)) :
    List.Forall₂ R l (updateMember user f l) := by
  induction l with
  | nil => exact .nil
  | cons m l ih =>
    rw [updateMember]
    split
    · next hm =>
      refine .cons (h m ?_) (forall₂_same.mpr fun m _ => hrefl m)
      rw [List.find?_cons_of_pos]
      simpa using hm
    · next hm =>
      refine .cons (hrefl m) (ih fun m' hm' => h m' ?_)
      rw [List.find?_cons_of_neg]
      · exact hm'
      · simpa using hm

lemma updateMember_updateMember {g : Membership → Membership}
    (hf : ∀ m, (f m).user = m.user) (l : List Membership) :
    updateMember user g (updateMember user f l) = updateMember user (fun m => g (f m)) l := by
  induction l with
  | nil => rfl
  | cons m l ih =>
    by_cases hm : m.user = user
    · simp [updateMember, hm, hf]
    · simp [updateMember, hm, ih]

/-- What some changes of members do to a channel. -/
structure ChanStep (env : ParseEnv) (cs : List CliChange) (ch ch' : Chan) : Prop where
  rest : ch' = { ch with mode := ch'.mode, members := ch'.members }
  mode : ch'.mode = ch.mode ∨ (ch'.mode = ch.mode.erase .wasdeljoins ∧ ch'.findDelayedJoins = false)
  members : List.Forall₂ (MemberStep env cs) ch.members ch'.members

lemma ChanStep.refl (env : ParseEnv) (cs : List CliChange) (ch : Chan) : ChanStep env cs ch ch :=
  ⟨rfl, .inl rfl, forall₂_same.mpr fun m _ => .refl env cs m⟩

lemma findDelayedJoins_eq_false {c c' : Chan}
    (h : List.Forall₂ (fun m m' : Membership => .delayed ∈ m'.status → .delayed ∈ m.status)
      c.members c'.members) (hc : c.findDelayedJoins = false) : c'.findDelayedJoins = false := by
  unfold Chan.findDelayedJoins at hc ⊢
  generalize c.members = l at h hc
  generalize c'.members = l' at h
  induction h with
  | nil => exact hc
  | cons hm _ ih =>
    simp only [List.any_cons, Bool.or_eq_false_iff, decide_eq_false_iff_not] at hc ⊢
    exact ⟨fun hin => hc.1 (hm hin), ih hc.2⟩

lemma ChanStep.trans {c : CliChange} {cs : List CliChange} (hc : ∀ d ∈ cs, c.Other d) {ch ch' ch'' : Chan}
    (h : ChanStep env [c] ch ch') (h' : ChanStep env cs ch' ch'') : ChanStep env (c :: cs) ch ch'' := by
  refine ⟨?_, ?_, ?_⟩
  · rw [h'.rest, h.rest]
  · have hkept := findDelayedJoins_eq_false (h'.members.imp fun _ _ hm => hm.hidden)
    obtain h2 | ⟨h2, hno⟩ := h'.mode
    · obtain h1 | ⟨h1, hno⟩ := h.mode
      · exact .inl (h2.trans h1)
      · exact .inr ⟨h2.trans h1, hkept hno⟩
    · refine .inr ⟨?_, hno⟩
      obtain h1 | ⟨h1, -⟩ := h.mode
      · rw [h2, h1]
      · rw [h2, h1, Finset.erase_idem]
  · exact forall₂_trans (fun _ _ _ h₁ h₂ => h₁.trans hc h₂) h.members h'.members

lemma memberStep_effect {c : CliChange} (hc : c.Allowed env)
    (hm : m.user = c.client.numnick) : MemberStep env [c] m (c.effect m) := by
  obtain ⟨dir, mode, oplevel, client⟩ := c
  obtain hmode | ⟨hmode, hdir, hself, hfeat⟩ := hc
  · simp only at hmode hm
    subst hmode
    refine ⟨⟨?_, ?_, ?_, .inl ?_, ?_, ?_⟩, ?_⟩
    · cases dir <;> rfl
    · cases dir <;> rfl
    · intro f h1 _ _
      cases dir <;> simp [CliChange.effect, ClientMode.chfl, h1]
    · cases dir <;> simp [CliChange.effect, ClientMode.chfl]
    · cases dir <;> simp [CliChange.effect, ClientMode.chfl]
    · intro h1 h2
      cases dir <;> simp [CliChange.effect, ClientMode.chfl, h1] at h2
    · intro hno
      exact absurd ⟨hm.symm, rfl⟩ (hno _ (mem_singleton.mpr rfl))
  · simp only at hmode hdir hself hm
    subst hmode hdir
    refine ⟨⟨rfl, rfl, ?_, .inr ⟨hm.trans hself, hfeat, ?_⟩, ?_, ?_⟩, ?_⟩
    · intro f _ _ h3
      simp [CliChange.effect, ClientMode.chfl, h3]
    · simp [CliChange.effect, ClientMode.chfl]
    · simp [CliChange.effect, ClientMode.chfl]
    · intro h1 h2
      simp [CliChange.effect, ClientMode.chfl, h1] at h2
    · intro _
      simp [CliChange.effect, ClientMode.chfl]

lemma memberStep_reveal {c : CliChange} (hc : c.mode = .voice) (hdir : c.dir = .add)
    (hm : m.user = c.client.numnick) :
    MemberStep env [c] m (c.effect { m with status := m.status.erase .delayed }) := by
  obtain ⟨dir, mode, oplevel, client⟩ := c
  simp only at hc hdir hm
  subst hc hdir
  refine ⟨⟨rfl, rfl, ?_, .inl ?_, ?_, ?_⟩, ?_⟩
  · intro f h1 h2 _
    simp [CliChange.effect, ClientMode.chfl, h1, h2]
  · simp [CliChange.effect, ClientMode.chfl]
  · simp [CliChange.effect, ClientMode.chfl]
  · simp [CliChange.effect, ClientMode.chfl]
  · intro hno
    exact absurd ⟨hm.symm, rfl⟩ (hno _ (mem_singleton.mpr rfl))

lemma user_of_findMember {l : List Membership}
    (h : l.find? (fun m => m.user = user) = some m) : m.user = user := by
  simpa using List.find?_some h

lemma chanStep_mapMember {cs : List CliChange}
    (h : ∀ m, ch.findMember user = some m → MemberStep env cs m (f m)) :
    ChanStep env cs ch (ch.mapMember user f) :=
  ⟨rfl, .inl rfl, forall₂_updateMember (MemberStep.refl env cs) h⟩

lemma chanStep_apply {c : CliChange} (hc : c.Allowed env) (m : Membership) (ch : Chan) :
    ChanStep env [c] ch (c.apply m ch) := by
  unfold CliChange.apply
  split
  · next hreveal =>
    have hvoice : c.mode = .voice := hc.resolve_right fun h => by simp [h.2.1] at hreveal
    have hmembers : updateMember c.client.numnick c.effect (updateMember c.client.numnick
        (fun m => { m with status := m.status.erase .delayed }) ch.members) =
        updateMember c.client.numnick
          (fun m => c.effect { m with status := m.status.erase .delayed }) ch.members := by
      apply updateMember_updateMember
      exact fun _ => rfl
    have hforall : List.Forall₂ (MemberStep env [c]) ch.members (updateMember c.client.numnick c.effect
        (updateMember c.client.numnick
          (fun m => { m with status := m.status.erase .delayed }) ch.members)) := by
      rw [hmembers]
      exact forall₂_updateMember (MemberStep.refl env [c])
        fun m hm => memberStep_reveal hvoice hreveal.1 (user_of_findMember hm)
    simp only
    unfold Chan.checkDelayedJoins
    split
    · next hcheck =>
      refine ⟨rfl, .inr ⟨rfl, ?_⟩, hforall⟩
      refine findDelayedJoins_eq_false (forall₂_updateMember (fun _ => id) fun m hm => ?_)
        (Bool.eq_false_iff.mpr hcheck.2)
      exact (memberStep_effect hc (user_of_findMember hm)).hidden
    · exact ⟨rfl, .inl rfl, hforall⟩
  · exact chanStep_mapMember fun m hm => memberStep_effect hc (user_of_findMember hm)

lemma ChanStep.bufQuiet {cs : List CliChange} {ch' : Chan} (h : ChanStep env cs ch ch') {mb : ModeBuf}
    (hq : BufQuiet ch mb) : BufQuiet ch' mb := by
  obtain hmode | ⟨hmode, -⟩ := h.mode
  · exact hq.congr hmode
  · refine ⟨fun hrem => ?_, fun _ => ?_, hq.null⟩
    · rw [hmode]
      exact Finset.mem_erase.mpr ⟨by decide, hq.rem hrem⟩
    · rw [hmode]
      exact Finset.notMem_erase _ _

lemma chanStep_client (hset : st.flags.set = true) (hbuf : st.BufOk) {c : CliChange} (hc : c.Allowed env) :
    ∃ st', modeProcessClient env st c = some st' ∧ ChanStep env [c] st.chan st'.chan ∧
      st'.flags = st.flags ∧ st'.BufOk := by
  have hchanop : c.mode ≠ .chanop := by
    obtain h | h := hc
    · simp [h]
    · simp [h.1]
  unfold modeProcessClient
  split
  · exact ⟨st, rfl, .refl env _ _, rfl, hbuf⟩
  · next m _ =>
    split
    · exact ⟨st, rfl, .refl env _ _, rfl, hbuf⟩
    split
    · exact ⟨st, rfl, .refl env _ _, rfl, hbuf⟩
    split
    · exact ⟨st, rfl, .refl env _ _, rfl, hbuf⟩
    · simp only [hchanop, and_false, if_false]
      have hstep : ChanStep env [c] st.chan (c.apply m st.chan) := chanStep_apply hc m _
      obtain ⟨mb, hmb, hq⟩ := hbuf
      have hbuf' : ParseState.BufOk { st with chan := c.apply m st.chan } := ⟨mb, hmb, hstep.bufQuiet hq⟩
      have hnull : nullText (c.dir, .client c.mode c.client.toModeClient c.oplevel) = false := by
        unfold nullText
        split
        · next heq =>
          obtain ⟨-, heq⟩ := Prod.mk.inj heq
          exact absurd (ModeArg.client.inj heq).1 hchanop
        · rfl
      obtain ⟨mb', lines, hrun, hq'⟩ := hbuf'.buffer env hnull
      exact ⟨_, hrun, hstep, rfl, mb', rfl, hq'⟩

lemma halfopMay_clients (cs : List CliChange) (hc : ∀ c ∈ cs, c.Allowed env)
    (hother : cs.Pairwise CliChange.Other) : ∀ {st : ParseState}, st.flags.set = true → st.BufOk → ∃ st',
    modeProcessClients env cs st = some st' ∧ ChanStep env cs st.chan st'.chan ∧ st'.BufOk := by
  induction cs with
  | nil => exact fun _ hbuf => ⟨_, rfl, .refl env _ _, hbuf⟩
  | cons c cs ih =>
    intro st hset hbuf
    obtain ⟨hc', hother'⟩ := pairwise_cons.mp hother
    obtain ⟨st₁, hrun, hstep, hflags, hbuf₁⟩ := chanStep_client hset hbuf (hc c mem_cons_self)
    obtain ⟨st₂, hrun₂, hstep₂, hbuf₂⟩ := ih (fun d hd => hc d (mem_cons_of_mem _ hd)) hother'
      (hflags ▸ hset) hbuf₁
    refine ⟨st₂, ?_, hstep.trans hc' hstep₂, hbuf₂⟩
    rw [modeProcessClients, hrun]
    exact hrun₂

lemma halfopMay_bans (bans : List Ban) : ∀ (n : BanCount) (made kept : List Ban) {st : ParseState}, st.BufOk →
      ∃ st' l, modeProcessMasks env .ban bans n made kept st = some st' ∧
        st'.chan = { st.chan with banlist := l } ∧ st'.flags = st.flags ∧ st'.changes = st.changes ∧
        st'.done = st.done ∧ st'.BufOk := by
  induction bans with
  | nil =>
    intro n made kept st hbuf
    obtain ⟨mb, hmb, hq⟩ := hbuf
    exact ⟨_, made ++ kept, rfl, rfl, rfl, rfl, rfl, mb, hmb, hq.congr rfl⟩
  | cons b bans ih =>
    intro n made kept st hbuf
    have hbuffer : ∀ dir, ∃ st', st.buffer env dir (.string .ban b.banstr) = some st' ∧
        st'.chan = st.chan ∧ st'.flags = st.flags ∧ st'.changes = st.changes ∧ st'.done = st.done ∧
        st'.BufOk := by
      intro dir
      have hnull : nullText (dir, .string .ban b.banstr) = false := by cases dir <;> rfl
      obtain ⟨mb, lines, hrun, hq⟩ := hbuf.buffer env hnull
      exact ⟨_, hrun, rfl, rfl, rfl, rfl, mb, rfl, hq⟩
    rw [modeProcessMasks]
    simp only
    split
    · exact ih _ _ _ hbuf
    split
    · obtain ⟨st', hrun, hchan, hflags, hchanges, hdone, hbuf'⟩ := hbuffer .del
      rw [show MaskList.ban.mode = StringMode.ban from rfl, hrun]
      simp only [bind_eq_bind, bind_some]
      rw [← hchan, ← hflags, ← hchanges, ← hdone]
      split
      · exact ih _ _ _ hbuf'
      · exact ih _ _ _ hbuf'
    split
    · split
      · exact ih _ _ _ hbuf
      split
      · exact ih _ _ _ hbuf
      · obtain ⟨st', hrun, hchan, hflags, hchanges, hdone, hbuf'⟩ := hbuffer .add
        rw [show MaskList.ban.mode = StringMode.ban from rfl, hrun]
        simp only [bind_eq_bind, bind_some]
        rw [← hchan, ← hflags, ← hchanges, ← hdone]
        split
        · exact ih _ _ _ hbuf'
        · exact ih _ _ _ hbuf'
    · exact ih _ _ _ hbuf

lemma BufQuiet.flushInt (all : Bool) (n : ℕ) {env : FlushEnv} {mb : ModeBuf} (h : BufQuiet ch mb) :
    ∃ mb' lines, modebufFlushInt env all n ch mb = some (ch, mb', lines) := by
  induction n generalizing mb with
  | zero => exact ⟨mb, [], rfl⟩
  | succ n ih =>
    obtain ⟨mb', lines, hrun, hq⟩ := h.flushOnce env
    rw [modebufFlushInt, hrun]
    simp only [bind_eq_bind, bind_some]
    split
    · obtain ⟨mb'', lines', hrun'⟩ := ih hq
      rw [hrun']
      exact ⟨_, _, rfl⟩
    · exact ⟨_, _, rfl⟩

lemma modeParseSimple_eq_self (h : st.add = ∅ ∧ st.exadd = ∅ ∧ st.del = ∅ ∧ st.exdel = ∅) :
    modeParseSimple st = st := by
  obtain ⟨mbuf, chan, member, args, flags, dir, done, add, exadd, del, exdel, maxArgs, changes, lines⟩ := st
  simp only at h
  obtain ⟨rfl, rfl, rfl, rfl⟩ := h
  simp [modeParseSimple, modebufMode, modebufExmode]

lemma modeParse_halfop (hserver : env.cptrServer = false) (ch : Chan) (modestr : Str) (args : List Str)
    (member : Option Str) (dest : Dest) :
    ∃ st, modeParse env (some (modebufInit ch.chname dest)) ch modestr args (hoflags true) member =
      some st ∧ HalfopMay env ch st.chan ∧ st.BufOk := by
  obtain ⟨st, hst, h⟩ := Held.words rfl hserver (args.length + 1) modestr
    (held_parseInit env (some (modebufInit ch.chname dest)) ch args (hoflags true) member)
  have hbuf : st.BufOk := ⟨_, h.mbuf_eq, by simp [modebufInit], by simp [modebufInit],
    by simp [modebufInit]⟩
  have hban : ∃ st₁ l, modeProcessList env .ban st = some st₁ ∧ st₁.chan = { st.chan with banlist := l } ∧
      st₁.flags = st.flags ∧ st₁.changes = st.changes ∧ st₁.done = st.done ∧ st₁.BufOk := by
    unfold modeProcessList
    split
    · exact halfopMay_bans _ _ _ _ hbuf
    · exact ⟨st, st.chan.banlist, rfl, rfl, rfl, rfl, rfl, hbuf⟩
  obtain ⟨st₁, l, hrun₁, hchan₁, hflags₁, hchanges₁, hdone₁, hbuf₁⟩ := hban
  have hset : st₁.flags.set = true := by rw [hflags₁, h.flags_eq]; rfl
  obtain ⟨st₂, hrun₂, hstep, hbuf₂⟩ := halfopMay_clients st.changes h.changes h.others hset hbuf₁
  refine ⟨st₂, ?_, ?_, hbuf₂⟩
  · have hfinish : ¬(st.mbuf.isNone = true ∨ (st.notOper = true ∧ ¬st.flags.ishalfop = true)) := by
      rw [h.mbuf_eq, h.flags_eq]
      simp [hoflags]
    have hwipe : modeParseWipeout env st = some st := by
      rw [modeParseWipeout, if_pos]
      rw [h.flags_eq]
      simp [hoflags]
    have hexcept : modeProcessList env .except st₁ = some st₁ := by
      rw [modeProcessList, if_neg]
      rw [hdone₁]
      exact h.excepts
    rw [modeParse, hst]
    simp only [bind_eq_bind, bind_some]
    rw [if_neg (by simp), modeParseFinish, if_neg hfinish, modeParseSimple_eq_self h.simple, hwipe]
    simp only [bind_eq_bind, bind_some, hrun₁, hexcept, hchanges₁]
    exact hrun₂
  · have hchan : st₁.chan = { ch with banlist := st₁.chan.banlist } := by
      rw [hchan₁, h.chan]
    refine ⟨?_, ?_, ?_⟩
    · rw [hstep.rest, hchan]
    · have := hstep.mode
      rw [hchan] at this
      exact this
    · have := hstep.members
      rw [hchan] at this
      exact this.imp fun _ _ hm => hm.toMemberMay

/-- **Who may change what.** A local user without the privilege for local channels changes nothing of a channel
if it is neither an operator nor a half-operator of it, and what a half-operator may change if it is one and not
an operator. -/
theorem mode_authority (env : ParseEnv) (hserver : env.cptrServer = false) (ch : Chan) (parv : List Str) :
    ((∀ m, ch.findMember env.sptr.numnick = some m → .chanop ∉ m.status ∧ .halfop ∉ m.status) →
    mMode env false ch parv = some ch) ∧ ((∃ m, ch.findMember env.sptr.numnick = some m ∧ .chanop ∉ m.status ∧
    .halfop ∈ m.status) → ∃ ch', mMode env false ch parv = some ch' ∧ HalfopMay env ch ch') := by
  cases parv with
  | nil =>
    refine ⟨fun _ => rfl, fun _ => ⟨ch, rfl, rfl, .inl rfl, ?_⟩⟩
    exact forall₂_same.mpr fun m _ => (MemberStep.refl env [] m).toMemberMay
  | cons modestr args =>
    refine ⟨fun hno => ?_, fun ⟨m, hm, hop, hhalf⟩ => ?_⟩
    · have hany : ¬(ch.findMember env.sptr.numnick).any
          (fun m => .chanop ∈ m.status ∨ .halfop ∈ m.status) = true := by
        cases hm : ch.findMember env.sptr.numnick with
        | none => simp
        | some m => simpa using hno m hm
      obtain ⟨st, hst, hchan⟩ := modeParse_refuse hserver ch modestr args
        (ch.findMember env.sptr.numnick).isSome ((ch.findMember env.sptr.numnick).map (·.user))
      rw [mMode]
      simp only
      rw [if_pos hany, if_neg (by simp), hst]
      simp [hchan]
    · obtain ⟨st, hst, hmay, mb, hmb, hq⟩ :=
        modeParse_halfop hserver ch modestr args (some m.user) ⟨true, false, false, false, false⟩
      obtain ⟨mb', lines, hrun⟩ := hq.flushInt true (mb.args.length + 1)
      refine ⟨st.chan, ?_, hmay⟩
      rw [mMode]
      simp only [hm]
      rw [if_neg (by simp [hhalf])]
      simp only [Option.any_some, hop, not_false_eq_true, decide_true, Option.map_some, hst,
        bind_eq_bind, bind_some]
      rw [ParseState.flushed, hmb]
      simp only
      rw [modebufFlush, hrun]
      rfl

/-- A local user `ABAAA` that names a user `bob`. -/
def halfopEnv : ParseEnv :=
  { sampleParseEnv with
    sptr := ⟨true, false, "ABAAA".toList, "helper".toList, false, false, false, false, false, false,
      false, false, false⟩
    cptrServer := false
    findChasing := fun t => if t = "bob".toList then
        some ⟨⟨"bob".toList, "ABAAB".toList, by decide, by decide, by decide⟩, false, false, false⟩
      else none }

/-- A channel with `+d`, a half-operator and a hidden member. -/
def hiddenChan : Chan :=
  { sampleChan with
    mode := {.wasdeljoins}
    members := [⟨"ABAAA".toList, {.halfop}, 999⟩, ⟨"ABAAB".toList, {.delayed}, 999⟩] }

theorem mode_authority_hidden : ∃ ch', mMode halfopEnv false hiddenChan ["+v".toList, "bob".toList] = some ch' ∧
      HalfopMay halfopEnv hiddenChan ch' :=
  (mode_authority halfopEnv rfl hiddenChan ["+v".toList, "bob".toList]).2
    ⟨_, rfl, by decide, by decide⟩

/-- **A half-operator that changes more than bans, voices and its own status**: the member is not hidden any
more, and the channel is not `+d` any more. -/
theorem halfop_changes_mode : (hiddenChan.findMember halfopEnv.sptr.numnick).map (·.status) = some {.halfop} ∧
      hiddenChan.mode = {.wasdeljoins} ∧
      (mMode halfopEnv false hiddenChan ["+v".toList, "bob".toList]).map
        (fun ch => (ch.mode, ch.members.map (·.status))) = some (∅, [{.halfop}, {.voice}]) := by
  decide +kernel

end Nefarious.Channel
