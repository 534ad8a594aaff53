import Nefarious.Channel.ModeLine

/-!
# The MODE lines that members see

What a mode buffer prints for the local members of a channel: names in place of numerics, no op-levels and no
timestamp, and the letter of the one mode that is shown to them only.

Names: `channel.c`.
-/

namespace Nefarious.Channel

open List (append_assoc append_nil cons_append length_append length_cons length_map length_nil map_append
  map_cons map_map map_nil mem_append mem_cons mem_cons_of_mem mem_cons_self mem_map sum_cons)

/-- A change that members are shown: its direction, its letter and its argument. -/
abbrev Change := Dir × Char × Option Str

/-- Walk over the letters of a line. -/
def announce : Dir → Str → List Str → List Change
  | _, [], _ => []
  | dir, ch :: chs, args =>
    if ch = '+' then announce .add chs args
    else if ch = '-' then announce .del chs args
    else if takesArg dir ch then (dir, ch, args.head?) :: announce dir chs args.tail
    else (dir, ch, none) :: announce dir chs args

def announced (line : Str) : List Change :=
  match messageParams line with
  | _ :: letters :: args => announce .add letters args
  | _ => []

/-! ## Printing -/

/-- What the printing for members reads besides the buffer. `modebuf_flush_int`. -/
structure ChannelEnv where
  /-- `app_source`, as it stands before a line: `nick!user@host`, or the name of a server. -/
  appSource : Str
  joinOnRemovedelay : Bool
  source_word : ' ' ∉ appSource
  /-- `NICKLEN`, `USERLEN` and `HOSTLEN` bound it. -/
  source_len : appSource.length ≤ 117

/-- The argument that members are shown for a change, if one is. `modebuf_flush_int` ("If we're building a user
visible MODE or HACK"). -/
def channelArgText (nokey : Bool) (limit : Str) : Dir × ModeArg → Option Str
  | (_, .client _ c _) => some c.name
  | (_, .string .ban s) => some s.text
  | (_, .string .except s) => some s.text
  | (dir, .string .redirect s) => if dir = .add then some s.text else none
  | (_, .string .key s) => some (if nokey then ['*'] else s.text)
  | (_, .string .apass _) => some ['*']
  | (_, .string .upass _) => some ['*']
  | (dir, .uint _) => if dir = .add then some limit else none

/-- The arguments of one direction. `modebuf_flush_int` (`remstr`, `addstr`). -/
def channelArgTexts (nokey : Bool) (limit : Str) (dir : Dir) (args : List (Dir × ModeArg)) : List Str :=
  (args.filter fun a => a.1 = dir).filterMap (channelArgText nokey limit)

/-- The flags for local display only. `modebuf_flush_int` (`local_flags`). -/
def localLetters (mb : ModeBuf) : Dir → Str
  | .add => if .wasdeljoins ∈ mb.add then ['d'] else []
  | .del => if .wasdeljoins ∉ mb.add ∧ .wasdeljoins ∈ mb.rem then ['d'] else []

/-- The letters of one direction. `modebuf_flush_int` (`rembuf`, `rembuf_local`, `addbuf`, `addbuf_local`). -/
def channelLetters (mb : ModeBuf) (kept : List (Dir × ModeArg)) (dir : Dir) : Str :=
  simpleLetters mb dir ++ argLetters dir kept ++ localLetters mb dir

/-- The line for members, before it is cut. `modebuf_flush_int` (`"%H %s%s%s%s%s%s%s%s"`), `send.c`
`sendcmdto_channel`. -/
def channelText (env : ChannelEnv) (ch : Chan) (mb : ModeBuf) (kept : List (Dir × ModeArg)) : Str :=
  modeText (':' :: env.appSource) "MODE".toList ch.chname
    (signed '-' (channelLetters mb kept .del) ++ signed '+' (channelLetters mb kept .add))
    (channelArgTexts mb.dest.nokey (limitbuf mb.args) .del kept ++
      channelArgTexts mb.dest.nokey (limitbuf mb.args) .add kept)

/-- One pass of the printing, with the line for members before it is cut. `modebuf_flush_int`. -/
def channelFlushOnce (env : ChannelEnv) (ch : Chan) (mb : ModeBuf) : Chan × ModeBuf × List Str :=
  if mb.isEmpty then (ch, mb, [])
  else
    let (ch, mb) := flushDelJoins env.joinOnRemovedelay ch mb
    let (kept, saved) := partitionArgs mb.dest.nokey (totalbuflen mb.dest.deop) mb.args
    (ch, { add := ∅, exadd := ∅, rem := ∅, exrem := ∅, args := saved, dest := mb.dest },
      [channelText env ch mb kept])

/-- Print the buffer; with `all`, until nothing is saved. `modebuf_flush_int`. -/
def channelFlushInt (env : ChannelEnv) (all : Bool) : ℕ → Chan → ModeBuf → Chan × ModeBuf × List Str
  | 0, ch, mb => (ch, mb, [])
  | n + 1, ch, mb =>
    let (ch, mb, lines) := channelFlushOnce env ch mb
    if all ∧ ¬ mb.args.isEmpty then
      let (ch, mb, lines') := channelFlushInt env all n ch mb
      (ch, mb, lines ++ lines')
    else (ch, mb, lines)

/-- Print all that is in the buffer. `modebuf_flush`. -/
def channelFlush (env : ChannelEnv) (ch : Chan) (mb : ModeBuf) : Chan × ModeBuf × List Str :=
  channelFlushInt env true (mb.args.length + 1) ch mb

/-- Append a mode that takes an argument, and print when the maximal count is reached. `modebuf_mode_uint`, `modebuf_mode_string`, `modebuf_mode_client`. -/
def channelArg (env : ChannelEnv) (ch : Chan) (mb : ModeBuf) (dir : Dir) (a : ModeArg) :
    Chan × ModeBuf × List Str :=
  match dir, a with
  | .del, .uint _ => (ch, { mb with rem := insert .limit mb.rem }, [])
  | .del, .string .redirect _ => (ch, { mb with rem := insert .redirect mb.rem }, [])
  | dir, a =>
    let mb := { mb with args := mb.args ++ [(dir, a)] }
    if maxModeParams - (if mb.dest.deop then 1 else 0) ≤ mb.args.length then
      channelFlushInt env false 1 ch mb
    else (ch, mb, [])

/-- Append one after the other. `modebuf_mode_uint`, `modebuf_mode_string`, `modebuf_mode_client`. -/
def channelArgs (env : ChannelEnv) : Chan → ModeBuf → List (Dir × ModeArg) → Chan × ModeBuf × List Str
  | ch, mb, [] => (ch, mb, [])
  | ch, mb, (dir, a) :: as =>
    let (ch, mb, lines) := channelArg env ch mb dir a
    let (ch, mb, lines') := channelArgs env ch mb as
    (ch, mb, lines ++ lines')

/-! ## Lines of removals -/

/-- What members are shown of a removal. -/
def ModeArg.shown : ModeArg → Str
  | .client _ c _ => c.name
  | .uint _ => []
  | .string _ s => s.text

/-- The change that members are shown. -/
def ModeArg.change (a : ModeArg) : Change := (.del, a.letter, some a.shown)

/-- The removals with an argument that members are shown. -/
def ModeArg.Removable : ModeArg → Prop
  | .client _ c _ => IsWord c.name
  | .uint _ => False
  | .string m _ => m = .key ∨ m = .ban ∨ m = .except

/-- `+d`. `modebuf_flush_int` (`local_flags`). -/
def dChange (d : Bool) : List Change := if d then [(.add, 'd', none)] else []

/-- A line of removals. -/
structure Piece where
  letters : Str
  args : List ModeArg
  /-- There is a `+d`. -/
  d : Bool

def Piece.changes (p : Piece) : List Change :=
  p.letters.map (fun ch => (.del, ch, none)) ++ p.args.map ModeArg.change ++ dChange p.d

def Piece.word (p : Piece) : Str :=
  '-' :: (p.letters ++ p.args.map ModeArg.letter) ++ (if p.d then ['+', 'd'] else [])

def Piece.text (env : ChannelEnv) (chname : Str) (p : Piece) : Str :=
  modeText (':' :: env.appSource) "MODE".toList chname p.word (p.args.map ModeArg.shown)

/-- The letters are those of flags, and there are not too many changes. -/
structure Piece.Ok (p : Piece) : Prop where
  letters : ∀ ch ∈ p.letters, ch ∈ flagLetters.map (·.2)
  letters_le : p.letters.length ≤ flagLetters.length
  args : ∀ a ∈ p.args, a.Removable
  args_le : p.args.length ≤ maxModeParams

lemma flagLetter_plain : ∀ ch ∈ flagLetters.map (·.2), takesArg .del ch = false ∧ ch ≠ '+' ∧ ch ≠ '-' := by
  decide

lemma ModeArg.Removable.takesArg {a : ModeArg} (h : a.Removable) :
    takesArg .del a.letter = true ∧ a.letter ≠ '+' ∧ a.letter ≠ '-' := by
  have hclient : ∀ m : ClientMode, Channel.takesArg .del m.letter = true ∧ m.letter ≠ '+' ∧ m.letter ≠ '-' := by
    intro m
    cases m <;> decide
  have hstring : ∀ m : StringMode, Channel.takesArg .del m.letter = true ∨ m = .redirect := by
    intro m
    cases m <;> decide
  have hsign : ∀ m : StringMode, m.letter ≠ '+' ∧ m.letter ≠ '-' := by
    intro m
    cases m <;> decide
  cases a with
  | client m c l => exact hclient m
  | uint n => exact h.elim
  | string m s =>
    refine ⟨(hstring m).resolve_right ?_, hsign m⟩
    rintro rfl
    rcases h with h | h | h
    all_goals exact absurd h (by decide)

lemma ModeArg.Removable.isWord {a : ModeArg} (h : a.Removable) : IsWord a.shown := by
  cases a with
  | client m c l => exact h
  | uint n => exact h.elim
  | string m s => exact s.word

lemma announce_plain {args : List Str} {rest : Str} : {ls : Str} →
    (∀ ch ∈ ls, takesArg .del ch = false ∧ ch ≠ '+' ∧ ch ≠ '-') →
    announce .del (ls ++ rest) args = ls.map (fun ch => (.del, ch, none)) ++ announce .del rest args
  | [], _ => rfl
  | ch :: ls, h => by
    obtain ⟨harg, hplus, hminus⟩ := h ch mem_cons_self
    rw [cons_append, announce, if_neg hplus, if_neg hminus, if_neg (by rw [harg]; decide),
      announce_plain fun c hc => h c (mem_cons_of_mem ch hc)]
    rfl

lemma announce_args {rest : Str} : {as : List ModeArg} → (∀ a ∈ as, a.Removable) →
    announce .del (as.map ModeArg.letter ++ rest) (as.map ModeArg.shown) =
      as.map ModeArg.change ++ announce .del rest []
  | [], _ => rfl
  | a :: as, h => by
    obtain ⟨harg, hplus, hminus⟩ := (h a mem_cons_self).takesArg
    rw [map_cons, map_cons, cons_append, announce, if_neg hplus, if_neg hminus, if_pos harg,
      List.head?_cons, List.tail_cons, announce_args fun x hx => h x (mem_cons_of_mem a hx)]
    rfl

lemma announce_word {p : Piece} (h : p.Ok) : announce .add p.word (p.args.map ModeArg.shown) = p.changes := by
  have hplain : ∀ ch ∈ p.letters, takesArg .del ch = false ∧ ch ≠ '+' ∧ ch ≠ '-' :=
    fun ch hch => flagLetter_plain ch (h.letters ch hch)
  have hd : announce .del (if p.d then ['+', 'd'] else []) [] = dChange p.d := by
    cases p.d <;> rfl
  rw [Piece.word, cons_append, announce, if_neg (by decide), if_pos rfl, append_assoc,
    announce_plain hplain, announce_args h.args, hd, Piece.changes, append_assoc]

lemma messageParams_source {source s : Str} (hsource : ' ' ∉ source) (hs : StartsBlank s) :
    messageParams (':' :: source ++ spaced ["MODE".toList] ++ s) = parseParams maxPara s := by
  have hcons : ∀ {c : Char} {t : Str}, c ≠ ' ' → messageParams (c :: t) = messageParams t := by
    intro c t hc
    rw [messageParams, messageParams, List.dropWhile_cons_of_pos (by simpa using hc)]
  have hword : IsWord ('x' :: source) := by
    refine ⟨List.cons_ne_nil _ _, ?_, ?_⟩
    · rw [mem_cons, not_or]
      exact ⟨by decide, hsource⟩
    · rw [List.head?_cons]
      decide
  rw [← messageParams_line hword (by decide : IsWord "MODE".toList) hs]
  simp only [cons_append]
  rw [hcons (by decide), hcons (by decide)]

lemma Piece.Ok.isWord_word {p : Piece} (h : p.Ok) : IsWord p.word := by
  refine ⟨List.cons_ne_nil _ _, ?_, by rw [Piece.word, cons_append, List.head?_cons]; decide⟩
  have hletters : ' ' ∉ p.letters := fun hmem => absurd (h.letters _ hmem) (by decide)
  have hargs : ' ' ∉ p.args.map ModeArg.letter := by
    intro hmem
    obtain ⟨a, -, ha⟩ := mem_map.mp hmem
    exact letter_ne_blank a ha
  have hd : ' ' ∉ (if p.d then ['+', 'd'] else []) := by
    cases p.d <;> decide
  rw [Piece.word, cons_append, mem_cons, mem_append, mem_append]
  rintro (hc | (hc | hc) | hc)
  · exact absurd hc (by decide)
  · exact hletters hc
  · exact hargs hc
  · exact hd hc

section
variable {env : ChannelEnv} {chname : Str}

lemma Piece.text_eq (p : Piece) : p.text env chname = ':' :: env.appSource ++ spaced ["MODE".toList] ++
      (spaced [chname, p.word] ++ spaced (p.args.map ModeArg.shown)) := by
  simp [Piece.text, modeText]

lemma Piece.Ok.params {p : Piece} (h : p.Ok) (hc : IsWord chname) {s : Str} (hs : StartsBlank s) :
    messageParams (':' :: env.appSource ++ spaced ["MODE".toList] ++ (spaced [chname, p.word] ++ s)) =
      chname :: p.word :: parseParams 13 s := by
  have hwords : ∀ w ∈ [chname, p.word], IsWord w := by
    intro w hw
    rcases List.mem_pair.mp hw with rfl | rfl
    · exact hc
    · exact h.isWord_word
  rw [messageParams_source env.source_word (startsBlank_spaced _ hs)]
  exact parseParams_words hwords hs (n := 13) (by decide)

/-- **A line that is not cut announces its changes.** -/
theorem announced_text {p : Piece} (h : p.Ok) (hc : IsWord chname)
    (hfit : (p.text env chname).length ≤ bufSize - 2) : announced (msgqMake (p.text env chname)) =
    p.changes := by
  have hwords : ∀ w ∈ p.args.map ModeArg.shown, IsWord w := by
    intro w hw
    obtain ⟨a, ha, rfl⟩ := mem_map.mp hw
    exact (h.args a ha).isWord
  have hread : parseParams 13 (spaced (p.args.map ModeArg.shown)) = p.args.map ModeArg.shown := by
    have hle := h.args_le
    have hn : 13 - (p.args.map ModeArg.shown).length ≠ 0 := by
      rw [length_map]
      simp only [maxModeParams] at hle
      omega
    have heq : (p.args.map ModeArg.shown).length + (13 - (p.args.map ModeArg.shown).length) = 13 := by omega
    have hall := parseParams_words hwords (Or.inl rfl : StartsBlank []) hn
    rw [heq, append_nil, parseParams_nil, append_nil] at hall
    exact hall
  have hblank : StartsBlank (spaced (p.args.map ModeArg.shown)) := by
    have hs := startsBlank_spaced (p.args.map ModeArg.shown) (Or.inl rfl : StartsBlank [])
    rwa [append_nil] at hs
  rw [msgqMake_eq hfit, announced, Piece.text_eq, h.params hc hblank, hread]
  exact announce_word h

/-! ## Lines that are cut -/

/-- The room that a change takes on a line. -/
def changeWeight (c : Change) : ℕ := 1 + c.2.2.elim 0 fun a => a.length + 1

def weights (l : List Change) : ℕ := (l.map changeWeight).sum

@[simp] lemma weights_append (l l' : List Change) : weights (l ++ l') = weights l + weights l' := by
  simp [weights]

def notSign (ch : Char) : Bool := ch ≠ '+' ∧ ch ≠ '-'

lemma weights_announce : (ls : Str) → ∀ (dir : Dir) (args : List Str),
    weights (announce dir ls args) ≤ (ls.filter notSign).length + (spaced args).length
  | [], _, _ => Nat.zero_le _
  | ch :: ls, dir, args => by
    unfold announce
    split_ifs with hplus hminus harg
    · subst hplus
      exact weights_announce ls .add args
    · subst hminus
      exact weights_announce ls .del args
    all_goals
      have hsign : notSign ch = true := decide_eq_true ⟨hplus, hminus⟩
      rw [List.filter_cons_of_pos hsign, length_cons]
    · cases args with
      | nil =>
        have ih := weights_announce ls dir []
        simp only [weights, List.head?_nil, List.tail_nil, map_cons, sum_cons, changeWeight,
          Option.elim_none] at ih ⊢
        omega
      | cons a args =>
        have ih := weights_announce ls dir args
        simp only [weights, List.head?_cons, List.tail_cons, map_cons, sum_cons, changeWeight,
          Option.elim_some, spaced_cons, length_append, length_cons] at ih ⊢
        omega
    · have ih := weights_announce ls dir args
      simp only [weights, map_cons, sum_cons, changeWeight, Option.elim_none] at ih ⊢
      omega

lemma mem_of_announce : (ls : Str) → ∀ {dir : Dir} {args : List Str}, ∀ c ∈ announce dir ls args, c.2.1 ∈ ls
  | [], _, _, _, h => absurd h List.not_mem_nil
  | ch :: ls, dir, args, c, h => by
    unfold announce at h
    split_ifs at h
    · exact mem_cons_of_mem ch (mem_of_announce ls c h)
    · exact mem_cons_of_mem ch (mem_of_announce ls c h)
    · rcases mem_cons.mp h with rfl | h
      · exact mem_cons_self
      · exact mem_cons_of_mem ch (mem_of_announce ls c h)
    · rcases mem_cons.mp h with rfl | h
      · exact mem_cons_self
      · exact mem_cons_of_mem ch (mem_of_announce ls c h)

lemma length_parseParams : (n : ℕ) → ∀ {s : Str}, StartsBlank s → (spaced (parseParams n s)).length ≤ s.length
  | 0, s, _ => Nat.zero_le _
  | n + 1, s, hs => by
    rcases hs with rfl | hs
    · exact Nat.zero_le _
    obtain ⟨t, rfl⟩ : ∃ t, s = ' ' :: t := by
      cases s with
      | nil => cases hs
      | cons c t => exact ⟨t, by rw [List.head?_cons] at hs; rw [Option.some.inj hs]⟩
    unfold parseParams
    have hdrop : (' ' :: t).dropWhile (· = ' ') = t.dropWhile (· = ' ') :=
      List.dropWhile_cons_of_pos (by decide)
    have hle : (t.dropWhile (· = ' ')).length ≤ t.length := (List.dropWhile_suffix _).length_le
    rw [hdrop]
    cases ht : t.dropWhile (· = ' ') with
    | nil => exact Nat.zero_le _
    | cons ch u =>
      rw [ht, length_cons] at hle
      dsimp only
      split_ifs
      · simp only [spaced_cons, spaced_nil, append_nil, length_cons]
        omega
      · simp only [spaced_cons, spaced_nil, append_nil, length_cons]
        omega
      · have hrest : StartsBlank (u.dropWhile (· ≠ ' ')) := by
          cases hu : u.dropWhile (· ≠ ' ') with
          | nil => exact .inl rfl
          | cons c v =>
            have hhead := List.head?_dropWhile_not (· ≠ ' ') u
            rw [hu] at hhead
            exact .inr (by simpa using hhead)
        have ih := length_parseParams n hrest
        have hsum := congrArg List.length (List.takeWhile_append_dropWhile (p := (· ≠ ' ')) (l := u))
        rw [length_append] at hsum
        simp only [spaced_cons, length_append, length_cons]
        omega

lemma Piece.Ok.weights_changes {p : Piece} (h : p.Ok) :
    weights p.changes = (p.word.filter notSign).length + (spaced (p.args.map ModeArg.shown)).length := by
  have hletters : p.letters.filter notSign = p.letters := by
    apply List.filter_eq_self.mpr
    intro ch hch
    exact decide_eq_true (flagLetter_plain ch (h.letters ch hch)).2
  have hargs : (p.args.map ModeArg.letter).filter notSign = p.args.map ModeArg.letter := by
    apply List.filter_eq_self.mpr
    intro ch hch
    obtain ⟨a, ha, rfl⟩ := mem_map.mp hch
    exact decide_eq_true (h.args a ha).takesArg.2
  have hd : ((if p.d then ['+', 'd'] else []).filter notSign).length = weights (dChange p.d) := by
    cases p.d <;> rfl
  have hplain : weights (p.letters.map fun ch => ((.del, ch, none) : Change)) = p.letters.length := by
    simp [weights, changeWeight, Function.comp_def]
  have hshown : ∀ as : List ModeArg, weights (as.map ModeArg.change) =
      as.length + (spaced (as.map ModeArg.shown)).length := by
    intro as
    induction as with
    | nil => rfl
    | cons a as ih =>
      simp only [weights, map_cons, sum_cons, changeWeight, ModeArg.change, Option.elim_some,
        length_cons, spaced_cons, length_append] at ih ⊢
      omega
  rw [Piece.changes, weights_append, weights_append, hplain, hshown, Piece.word, cons_append,
    List.filter_cons_of_neg (by decide), List.filter_append, List.filter_append, hletters, hargs,
    length_append, length_append, hd, length_map]
  omega

lemma announced_cut {p : Piece} (h : p.Ok) (hc : IsWord chname) (hlen : chname.length ≤ channelLen) :
    ∃ args, announced (msgqMake (p.text env chname)) = announce .add p.word args ∧
      (spaced args).length ≤ (spaced (p.args.map ModeArg.shown)).length ∧
      (bufSize - 2 < (p.text env chname).length →
        (spaced args).length < (spaced (p.args.map ModeArg.shown)).length) := by
  have hflags : flagLetters.length = 11 := rfl
  have hhead : (':' :: env.appSource ++ spaced ["MODE".toList] ++ spaced [chname, p.word]).length ≤
      bufSize - 2 := by
    have hbuf : bufSize - 2 = 510 := rfl
    have hsource := env.source_len
    have hl := h.letters_le
    have ha := h.args_le
    have hd : (if p.d then ['+', 'd'] else []).length ≤ 2 := by
      cases p.d <;> decide
    have hmode : "MODE".toList.length = 4 := rfl
    simp only [channelLen, maxModeParams] at hlen ha
    simp only [Piece.word, spaced_cons, spaced_nil, length_append, length_cons, length_map, length_nil, hmode]
    omega
  obtain ⟨k, hk, hcut⟩ : ∃ k, msgqMake (p.text env chname) = ':' :: env.appSource ++ spaced ["MODE".toList] ++
      (spaced [chname, p.word] ++ (spaced (p.args.map ModeArg.shown)).take k) ∧
      (bufSize - 2 < (p.text env chname).length → k < (spaced (p.args.map ModeArg.shown)).length) := by
    refine ⟨bufSize - 2 - (':' :: env.appSource ++ spaced ["MODE".toList] ++ spaced [chname, p.word]).length, ?_, ?_⟩
    · rw [msgqMake, Piece.text_eq, ← append_assoc, List.take_append, List.take_of_length_le hhead,
        append_assoc _ (spaced [chname, p.word])]
    · intro hlt
      rw [Piece.text_eq, ← append_assoc, length_append] at hlt
      omega
  have hblank : StartsBlank ((spaced (p.args.map ModeArg.shown)).take k) := by
    cases hargs : p.args.map ModeArg.shown with
    | nil => exact .inl (by simp)
    | cons a as =>
      cases k with
      | zero => exact .inl rfl
      | succ k => exact .inr (by simp)
  refine ⟨parseParams 13 ((spaced (p.args.map ModeArg.shown)).take k), ?_, ?_, ?_⟩
  · rw [hk, announced, h.params hc hblank]
  · exact (length_parseParams 13 hblank).trans (List.length_take_le' _ _)
  · intro hlt
    refine (length_parseParams 13 hblank).trans_lt ?_
    rw [List.length_take]
    have := hcut hlt
    omega

/-- **A line that is cut announces less.** -/
theorem weight_cut {p : Piece} (h : p.Ok) (hc : IsWord chname) (hlen : chname.length ≤ channelLen) :
    weights (announced (msgqMake (p.text env chname))) ≤ weights p.changes ∧
      (bufSize - 2 < (p.text env chname).length →
        weights (announced (msgqMake (p.text env chname))) < weights p.changes) := by
  obtain ⟨args, hread, hle, hlt⟩ := @announced_cut env chname p h hc hlen
  have hbound := weights_announce p.word .add args
  rw [hread, h.weights_changes]
  exact ⟨by omega, fun hcut => by have := hlt hcut; omega⟩

end

/-! ## The passes over a buffer of removals -/

lemma partitionArgs_perm (nokey : Bool) : (args : List (Dir × ModeArg)) → ∀ n : ℕ,
    ((partitionArgs nokey n args).1 ++ (partitionArgs nokey n args).2).Perm args
  | [], _ => .nil
  | (dir, a) :: args, n => by
    unfold partitionArgs
    split_ifs
    · exact List.perm_middle.trans ((partitionArgs_perm nokey args n).cons _)
    · exact (partitionArgs_perm nokey args _).cons _

/-- A buffer with nothing but removals in it. -/
structure ModeBuf.Clearing (mb : ModeBuf) : Prop where
  add : mb.add = ∅
  exadd : mb.exadd = ∅
  exrem : mb.exrem = ∅
  rem : ∀ f ∈ mb.rem, f ∈ flagLetters.map (·.1)
  args : ∀ e ∈ mb.args, e.1 = .del ∧ e.2.Removable
  nokey : mb.dest.nokey = false
  deop : mb.dest.deop = false

/-- Going `-D` will set `+d`. `modebuf_flush_int` ("Must be set if going -D"). -/
def hides (env : ChannelEnv) (ch : Chan) (mb : ModeBuf) : Bool :=
  .deljoins ∈ mb.rem ∧ .deljoins ∉ ch.mode ∧ .wasdeljoins ∉ ch.mode ∧ env.joinOnRemovedelay = false ∧
    ch.findDelayedJoins

def pending (env : ChannelEnv) (ch : Chan) (mb : ModeBuf) : List Change :=
  (simpleLetters mb .del).map (fun c => (.del, c, none)) ++ mb.args.map (fun e => e.2.change) ++
    dChange (hides env ch mb)

section
variable {env : ChannelEnv} {ch : Chan} {mb : ModeBuf}

lemma ModeBuf.Clearing.wasdeljoins (h : mb.Clearing) : .wasdeljoins ∉ mb.rem :=
  fun hmem => absurd (h.rem _ hmem) (by decide)

lemma ModeBuf.Clearing.flushDelJoins (h : mb.Clearing) : Channel.flushDelJoins env.joinOnRemovedelay ch mb =
      if hides env ch mb then
        ({ ch with mode := insert .wasdeljoins ch.mode }, { mb with add := {.wasdeljoins} })
      else ((Channel.flushDelJoins env.joinOnRemovedelay ch mb).1, mb) := by
  have herase : mb.rem.erase .wasdeljoins = mb.rem := Finset.erase_eq_of_notMem h.wasdeljoins
  unfold Channel.flushDelJoins flushRemDelJoins hides
  by_cases hdel : .deljoins ∈ mb.rem ∧ .deljoins ∉ ch.mode ∧ .wasdeljoins ∉ ch.mode
  · rw [if_pos hdel]
    by_cases hhide : (!env.joinOnRemovedelay) = true ∧ ch.findDelayedJoins = true
    · have hall : .deljoins ∈ mb.rem ∧ .deljoins ∉ ch.mode ∧ .wasdeljoins ∉ ch.mode ∧
          env.joinOnRemovedelay = false ∧ ch.findDelayedJoins = true := by
        exact ⟨hdel.1, hdel.2.1, hdel.2.2, by simpa using hhide.1, hhide.2⟩
      rw [if_pos hhide, if_pos (decide_eq_true hall)]
      simp [flushAddDelJoins, h.add, herase]
    · have hall : ¬ (.deljoins ∈ mb.rem ∧ .deljoins ∉ ch.mode ∧ .wasdeljoins ∉ ch.mode ∧
          env.joinOnRemovedelay = false ∧ ch.findDelayedJoins = true) := by
        intro ha
        exact hhide ⟨by rw [ha.2.2.2.1]; rfl, ha.2.2.2.2⟩
      rw [if_neg hhide, decide_eq_false hall]
      simp [flushAddDelJoins, h.add]
  · have hall : ¬ (.deljoins ∈ mb.rem ∧ .deljoins ∉ ch.mode ∧ .wasdeljoins ∉ ch.mode ∧
        env.joinOnRemovedelay = false ∧ ch.findDelayedJoins = true) :=
      fun ha => hdel ⟨ha.1, ha.2.1, ha.2.2.1⟩
    rw [if_neg hdel, decide_eq_false hall]
    simp [flushAddDelJoins, h.add]

lemma ModeBuf.Clearing.simpleLetters_eq (h : mb.Clearing) :
    simpleLetters mb .del = (flagLetters.filter fun f => f.1 ∈ mb.rem).map (·.2) := by
  have hex : exLetters.filter (fun f => f.1 ∉ mb.exadd ∧ f.1 ∈ mb.exrem) = [] := by
    apply List.filter_eq_nil_iff.mpr
    intro f _
    simp [h.exrem]
  rw [simpleLetters, hex, map_nil, append_nil, h.add]
  simp

lemma ModeBuf.Clearing.simpleLetters_add (h : mb.Clearing) : simpleLetters mb .add = [] := by
  rw [simpleLetters, h.add, h.exadd]
  simp

lemma ModeBuf.Clearing.channelText_eq (h : mb.Clearing) {kept : List (Dir × ModeArg)}
    (hkept : ∀ e ∈ kept, e.1 = .del ∧ e.2.Removable)
    (hne : simpleLetters mb .del ++ kept.map (fun e => e.2.letter) ≠ []) :
    channelText env (Channel.flushDelJoins env.joinOnRemovedelay ch mb).1
        (Channel.flushDelJoins env.joinOnRemovedelay ch mb).2 kept =
      (⟨simpleLetters mb .del, kept.map (·.2), hides env ch mb⟩ : Piece).text env ch.chname := by
  have hsame := flushDelJoins_samePrint env.joinOnRemovedelay ch mb
  have hflush := @ModeBuf.Clearing.flushDelJoins env ch mb h
  obtain ⟨r, hr⟩ : ∃ r, Channel.flushDelJoins env.joinOnRemovedelay ch mb = r := ⟨_, rfl⟩
  rw [hr] at hsame hflush ⊢
  have hdel : ∀ dir : Dir, kept.filter (fun a => a.1 = dir) = if dir = .del then kept else [] := by
    intro dir
    split_ifs with hd
    · subst hd
      exact List.filter_eq_self.mpr fun e he => decide_eq_true (hkept e he).1
    · exact List.filter_eq_nil_iff.mpr fun e he => by
        rw [(hkept e he).1]
        simpa using fun e => hd e.symm
  have hlocal : localLetters r.2 .del = [] ∧ localLetters r.2 .add = if hides env ch mb then ['d'] else [] := by
    rw [hflush]
    split_ifs
    · simp [localLetters]
    · simp [localLetters, h.add, h.wasdeljoins]
  have hremoved : channelLetters r.2 kept .del = simpleLetters mb .del ++ kept.map (fun e => e.2.letter) := by
    rw [channelLetters, hsame.simpleLetters_eq, argLetters, hdel, if_pos rfl, hlocal.1, append_nil]
  have hadded : channelLetters r.2 kept .add = if hides env ch mb then ['d'] else [] := by
    rw [channelLetters, hsame.simpleLetters_eq, h.simpleLetters_add, argLetters, hdel, if_neg (by decide),
      hlocal.2]
    rfl
  have hshown : kept.filterMap (channelArgText r.2.dest.nokey (limitbuf r.2.args)) =
      (kept.map (·.2)).map ModeArg.shown := by
    rw [map_map, ← List.filterMap_eq_map]
    apply List.filterMap_congr
    rintro ⟨dir, a⟩ he
    have hnokey : r.2.dest.nokey = false := by
      rw [hsame.dest]
      exact h.nokey
    obtain ⟨-, hrem⟩ := hkept _ he
    cases a with
    | client m c l => rfl
    | uint n => exact hrem.elim
    | string m s =>
      rcases hrem with rfl | rfl | rfl
      · simp [channelArgText, hnokey, ModeArg.shown]
      · rfl
      · rfl
  have hargs : channelArgTexts r.2.dest.nokey (limitbuf r.2.args) .del kept ++
      channelArgTexts r.2.dest.nokey (limitbuf r.2.args) .add kept = (kept.map (·.2)).map ModeArg.shown := by
    rw [channelArgTexts, channelArgTexts, hdel, hdel, if_pos rfl, if_neg (by decide), hshown]
    simp
  have hword : signed '-' (channelLetters r.2 kept .del) ++ signed '+' (channelLetters r.2 kept .add) =
      (⟨simpleLetters mb .del, kept.map (·.2), hides env ch mb⟩ : Piece).word := by
    rw [hremoved, hadded, signed, if_neg hne, Piece.word, map_map]
    cases hides env ch mb <;> rfl
  rw [channelText, Piece.text, hword, hargs, hsame.chname]

/-- The channel once the buffer is printed. -/
def settle (env : ChannelEnv) (ch : Chan) (mb : ModeBuf) : Chan :=
  (Channel.flushDelJoins env.joinOnRemovedelay ch mb).1

/-- What calls make of a buffer of removals: the lines and what is left in the buffer are what was in it and
what was added. -/
structure Printed (env : ChannelEnv) (ch : Chan) (mb : ModeBuf) (more : List Change)
    (r : Chan × ModeBuf × List Str) : Prop where
  clearing : r.2.1.Clearing
  length_lt : r.2.1.args.length < maxModeParams
  pieces : ∃ ps : List Piece, r.2.2 = ps.map (·.text env ch.chname) ∧ (∀ p ∈ ps, p.Ok) ∧
    (ps.flatMap Piece.changes ++ pending env r.1 r.2.1).Perm (pending env ch mb ++ more)
  settled : settle env r.1 r.2.1 = settle env ch mb
  chname : r.1.chname = ch.chname

lemma Printed.trans {more more' : List Change} {r r' : Chan × ModeBuf × List Str}
    (h : Printed env ch mb more r) (h' : Printed env r.1 r.2.1 more' r') :
    Printed env ch mb (more ++ more') (r'.1, r'.2.1, r.2.2 ++ r'.2.2) := by
  obtain ⟨ps, hlines, hok, hperm⟩ := h.pieces
  obtain ⟨ps', hlines', hok', hperm'⟩ := h'.pieces
  refine ⟨h'.clearing, h'.length_lt, ⟨ps ++ ps', ?_, ?_, ?_⟩, h'.settled.trans h.settled,
    h'.chname.trans h.chname⟩
  · dsimp only
    rw [hlines, hlines', h.chname, map_append]
  · intro p hp
    rcases mem_append.mp hp with hp | hp
    · exact hok p hp
    · exact hok' p hp
  · dsimp only
    rw [List.flatMap_append, append_assoc]
    apply (hperm'.append_left _).trans
    rw [← append_assoc, ← append_assoc]
    exact hperm.append_right _

lemma flushDelJoins_of_empty (j : Bool) (hadd : mb.add = ∅) (hrem : mb.rem = ∅) :
    Channel.flushDelJoins j ch mb = (ch, mb) := by
  simp [Channel.flushDelJoins, flushRemDelJoins, flushAddDelJoins, hadd, hrem]

lemma channelFlushOnce_printed (h : mb.Clearing) (hlen : mb.args.length ≤ maxModeParams) :
    Printed env ch mb [] (channelFlushOnce env ch mb) ∧
    ((channelFlushOnce env ch mb).2.1.args.length < mb.args.length ∨ (channelFlushOnce env ch mb).2.1.args =
    []) ∧ (channelFlushOnce env ch mb).2.1.rem = ∅ := by
  unfold channelFlushOnce
  split_ifs with hempty
  · have hall := of_decide_eq_true hempty
    have hargs : mb.args = [] := List.isEmpty_iff.mp hall.2.2.2.2
    refine ⟨⟨h, by rw [hargs]; decide, ⟨[], rfl, fun _ ht => (by cases ht), ?_⟩, rfl, rfl⟩, Or.inr hargs, hall.2.1⟩
    rw [append_nil]
    exact List.Perm.refl _
  have hsame := flushDelJoins_samePrint env.joinOnRemovedelay ch mb
  dsimp only
  rw [hsame.args, hsame.dest]
  obtain ⟨parts, hparts⟩ : ∃ parts, partitionArgs mb.dest.nokey (totalbuflen mb.dest.deop) mb.args = parts :=
    ⟨_, rfl⟩
  have hperm := partitionArgs_perm mb.dest.nokey mb.args (totalbuflen mb.dest.deop)
  rw [hparts] at hperm ⊢
  have hkept : ∀ e ∈ parts.1, e.1 = .del ∧ e.2.Removable := fun e he =>
    h.args e (hperm.mem_iff.mp (List.mem_append_left _ he))
  have hsum := hperm.length_eq
  rw [length_append] at hsum
  have hpos : mb.args ≠ [] → parts.1 ≠ [] := by
    intro hne
    have hk := kept_ne_nil hne
    rwa [ModeBuf.kept, hparts] at hk
  have hne : simpleLetters mb .del ++ parts.1.map (fun e => e.2.letter) ≠ [] := by
    intro hnil
    obtain ⟨hletters, hnone⟩ := List.append_eq_nil_iff.mp hnil
    rw [h.simpleLetters_eq, List.map_eq_nil_iff, List.filter_eq_nil_iff] at hletters
    apply hempty
    refine decide_eq_true ⟨h.add, ?_, h.exadd, h.exrem, ?_⟩
    · apply Finset.eq_empty_of_forall_notMem
      intro f hf
      obtain ⟨p, hp, rfl⟩ := mem_map.mp (h.rem f hf)
      exact hletters p hp (decide_eq_true hf)
    · rw [List.isEmpty_iff]
      by_contra hsome
      exact hpos hsome (List.map_eq_nil_iff.mp hnone)
  have hletters : ∀ c ∈ simpleLetters mb .del, c ∈ flagLetters.map (·.2) := by
    intro c hc
    rw [h.simpleLetters_eq] at hc
    exact List.map_subset _ (List.filter_subset_self _) hc
  have hok : (⟨simpleLetters mb .del, parts.1.map (·.2), hides env ch mb⟩ : Piece).Ok := by
    refine ⟨hletters, ?_, ?_, ?_⟩
    · dsimp only
      rw [h.simpleLetters_eq, length_map]
      exact List.length_filter_le _ _
    · intro a ha
      obtain ⟨e, he, rfl⟩ := mem_map.mp ha
      exact (hkept e he).2
    · dsimp only
      rw [length_map]
      omega
  refine ⟨⟨?_, ?_, ⟨[_], congrArg (fun t => [t]) (h.channelText_eq hkept hne), ?_, ?_⟩, ?_, hsame.chname⟩,
    ?_, rfl⟩
  · refine ⟨rfl, rfl, rfl, fun _ ht => (by cases ht), ?_, h.nokey, h.deop⟩
    exact fun e he => h.args e (hperm.mem_iff.mp (List.mem_append_right _ he))
  · dsimp only
    by_cases hnil : mb.args = []
    · rw [hnil, length_nil] at hsum
      rw [maxModeParams]
      omega
    · have := List.length_pos_iff.mpr (hpos hnil)
      omega
  · intro p hp
    rw [List.mem_singleton.mp hp]
    exact hok
  · have hnone : hides env (Channel.flushDelJoins env.joinOnRemovedelay ch mb).1
        ⟨∅, ∅, ∅, ∅, mb.dest, parts.2⟩ = false := decide_eq_false fun ha => absurd ha.1 (Finset.notMem_empty _)
    have hzero : simpleLetters ⟨∅, ∅, ∅, ∅, mb.dest, parts.2⟩ .del = [] := by
      simp [simpleLetters]
    have hmap := hperm.map fun e => e.2.change
    rw [map_append] at hmap
    simp only [pending, hnone, hzero, dChange, Bool.false_eq_true, if_false, map_nil, List.nil_append,
      append_nil, List.flatMap_singleton, Piece.changes, map_map, Function.comp_def, append_assoc]
    apply List.Perm.append_left
    apply (List.perm_append_comm.append_left _).trans
    rw [← append_assoc]
    exact hmap.append_right _
  · unfold settle
    dsimp only
    rw [flushDelJoins_of_empty _ rfl rfl]
  · by_cases hnil : mb.args = []
    · rw [hnil, length_nil] at hsum
      exact .inr (List.length_eq_zero_iff.mp (by omega))
    · have := List.length_pos_iff.mpr (hpos hnil)
      exact .inl (by omega)

lemma channelFlushInt_one : channelFlushInt env false 1 ch mb = channelFlushOnce env ch mb := by
  simp [channelFlushInt]

lemma channelFlushInt_printed : (n : ℕ) → ∀ {ch : Chan} {mb : ModeBuf}, mb.Clearing →
    mb.args.length ≤ maxModeParams → mb.args.length < n →
    Printed env ch mb [] (channelFlushInt env true n ch mb) ∧
      (channelFlushInt env true n ch mb).2.1.args = [] ∧ (channelFlushInt env true n ch mb).2.1.rem = ∅
  | 0, _, _, _, _, hn => absurd hn (Nat.not_lt_zero _)
  | n + 1, ch, mb, h, hlen, hn => by
    obtain ⟨hprinted, hless, hrem⟩ := @channelFlushOnce_printed env ch mb h hlen
    rw [channelFlushInt]
    dsimp only
    split_ifs with hmore
    · have hne : (channelFlushOnce env ch mb).2.1.args ≠ [] := by simpa using hmore
      have hlt : (channelFlushOnce env ch mb).2.1.args.length < n := by
        rcases hless with hlt | hnil
        · omega
        · exact absurd hnil hne
      obtain ⟨hrest, hargs, hrem'⟩ := channelFlushInt_printed n hprinted.clearing hprinted.length_lt.le hlt
      refine ⟨?_, hargs, hrem'⟩
      exact hprinted.trans hrest
    · have hnil : (channelFlushOnce env ch mb).2.1.args = [] := by simpa using hmore
      exact ⟨hprinted, hnil, hrem⟩

lemma channelArg_printed {a : ModeArg} (h : mb.Clearing) (hlen : mb.args.length < maxModeParams)
    (ha : a.Removable) : Printed env ch mb [a.change] (channelArg env ch mb .del a) := by
  obtain ⟨mb', hmb'⟩ : ∃ mb', ({ mb with args := mb.args ++ [(.del, a)] } : ModeBuf) = mb' := ⟨_, rfl⟩
  have hpushed : channelArg env ch mb .del a =
      if maxModeParams ≤ mb'.args.length then channelFlushInt env false 1 ch mb' else (ch, mb', []) := by
    have hmax : maxModeParams = maxModeParams - (if mb.dest.deop then 1 else 0) := by
      rw [h.deop]
      rfl
    rw [hmax]
    subst hmb'
    unfold channelArg
    cases a with
    | client m c l => rfl
    | uint n => exact ha.elim
    | string m s => rcases ha with rfl | rfl | rfl <;> rfl
  have hargs : mb'.args = mb.args ++ [(.del, a)] := by rw [← hmb']
  have hclearing : mb'.Clearing := by
    subst hmb'
    refine ⟨h.add, h.exadd, h.exrem, h.rem, ?_, h.nokey, h.deop⟩
    intro e he
    rcases mem_append.mp he with he | he
    · exact h.args e he
    · rw [List.mem_singleton.mp he]
      exact ⟨rfl, ha⟩
  have hpending : (pending env ch mb').Perm (pending env ch mb ++ [a.change]) := by
    have hletters : simpleLetters mb' .del = simpleLetters mb .del := by rw [← hmb']; rfl
    have hhides : hides env ch mb' = hides env ch mb := by rw [← hmb']; rfl
    rw [pending, pending, hargs, hletters, hhides, map_append, append_assoc, append_assoc,
      append_assoc, append_assoc]
    exact (List.perm_append_comm.append_left _).append_left _
  have hsettle : settle env ch mb' = settle env ch mb := by
    rw [← hmb']
    unfold settle Channel.flushDelJoins flushRemDelJoins
    dsimp only
    split_ifs
    · simp [flushAddDelJoins, h.add]
    · simp [flushAddDelJoins, h.add]
    · simp [flushAddDelJoins, h.add]
  rw [hpushed, channelFlushInt_one]
  have hlen' : mb'.args.length = mb.args.length + 1 := by rw [hargs, length_append, List.length_singleton]
  split_ifs with hfull
  · obtain ⟨hp, -, -⟩ := @channelFlushOnce_printed env ch mb' hclearing (by omega)
    obtain ⟨ps, hlines, hok, hperm⟩ := hp.pieces
    rw [append_nil] at hperm
    exact ⟨hp.clearing, hp.length_lt, ⟨ps, hlines, hok, hperm.trans hpending⟩, hp.settled.trans hsettle, hp.chname⟩
  · refine ⟨hclearing, ?_, ⟨[], rfl, nofun, ?_⟩, hsettle, rfl⟩
    · exact not_le.mp hfull
    · exact hpending

lemma channelArgs_printed : (as : List ModeArg) → ∀ {ch : Chan} {mb : ModeBuf}, mb.Clearing →
    mb.args.length < maxModeParams → (∀ a ∈ as, a.Removable) →
    Printed env ch mb (as.map ModeArg.change) (channelArgs env ch mb (as.map fun a => (.del, a)))
  | [], ch, mb, h, hlen, _ => by
    refine ⟨h, hlen, ⟨[], rfl, nofun, ?_⟩, rfl, rfl⟩
    change (pending env ch mb).Perm (pending env ch mb ++ [])
    rw [append_nil]
  | a :: as, ch, mb, h, hlen, has => by
    have ha := @channelArg_printed env ch mb a h hlen (has a mem_cons_self)
    exact ha.trans (channelArgs_printed as ha.clearing ha.length_lt fun x hx => has x (mem_cons_of_mem a hx))

lemma channelFlush_pieces {as : List ModeArg} (h : mb.Clearing) (hlen : mb.args.length < maxModeParams)
    (has : ∀ a ∈ as, a.Removable) : ∀ {r r' : Chan × ModeBuf × List Str},
    channelArgs env ch mb (as.map fun a => (.del, a)) = r → channelFlush env r.1 r.2.1 = r' →
    r'.1 = settle env ch mb ∧ ∃ ps : List Piece, r.2.2 ++ r'.2.2 = ps.map (·.text env ch.chname) ∧
      (∀ p ∈ ps, p.Ok) ∧ (ps.flatMap Piece.changes).Perm (pending env ch mb ++ as.map ModeArg.change) := by
  rintro r r' rfl rfl
  have hfill := @channelArgs_printed env as ch mb h hlen has
  obtain ⟨hflush, hargs, hrem⟩ := @channelFlushInt_printed env _
    (channelArgs env ch mb (as.map fun a => (.del, a))).1 _ hfill.clearing hfill.length_lt.le
    (Nat.lt_succ_self _)
  have hall := hfill.trans hflush
  obtain ⟨ps, hlines, hok, hperm⟩ := hall.pieces
  obtain ⟨r', hr'⟩ : ∃ r', channelFlushInt env true
    ((channelArgs env ch mb (as.map fun a => (.del, a))).2.1.args.length + 1)
    (channelArgs env ch mb (as.map fun a => (.del, a))).1
    (channelArgs env ch mb (as.map fun a => (.del, a))).2.1 = r' := ⟨_, rfl⟩
  have hsettled := hall.settled
  have hclearing := hall.clearing
  rw [channelFlush]
  rw [Nat.succ_eq_add_one] at hlines hperm hsettled hclearing hargs hrem
  rw [hr'] at hlines hperm hsettled hclearing hargs hrem ⊢
  dsimp only at hlines hperm hsettled hclearing
  have hdone : pending env r'.1 r'.2.1 = [] := by
    have hhides : hides env r'.1 r'.2.1 = false := decide_eq_false fun hc => by
      rw [hrem] at hc
      exact absurd hc.1 (Finset.notMem_empty _)
    rw [pending, hclearing.simpleLetters_eq, hrem, hargs, hhides]
    simp [dChange]
  rw [hdone, append_nil, append_nil] at hperm
  refine ⟨?_, ps, hlines, hok, hperm⟩
  rw [← hsettled, settle, flushDelJoins_of_empty _ hclearing.add hrem]

end

end Nefarious.Channel
