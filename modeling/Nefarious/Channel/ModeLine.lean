import Nefarious.Channel.ModeBuf
import Mathlib.Data.Nat.Digits.Defs

/-!
# What a MODE line carries

The receiver of a MODE line splits it into words, walks over the letters and reads an argument for some of them;
the word that is left over is the timestamp.

Names: `channel.c`.
-/

namespace Nefarious.Channel

open Option (some.inj)
open List (append_assoc append_nil length_append length_cons mem_append mem_cons mem_filter mem_map
  ne_nil_of_mem)

/-! ## What a line carries -/

/-- A change with the direction it is printed with. -/
def printDir (bounce : Bool) (dir : Dir) : Dir := if bounce then dir.flip else dir

/-- The argument of a change that is its own: for a limit, its own digits. -/
def ownArg (bounce oplevels : Bool) : Dir × ModeArg → Option Str
  | (dir, .uint n) => argText bounce oplevels (digits n.toNat) (dir, .uint n)
  | a => argText bounce oplevels [] a

/-- The letters with arguments of the changes in one direction, each with its own argument. -/
def ownPairs (bounce oplevels : Bool) (dir : Dir) (args : List (Dir × ModeArg)) : List (Dir × Char × Str) :=
  (args.filter (fun a => a.1 = dir)).filterMap (fun a =>
    (ownArg bounce oplevels a).map (fun t => (printDir bounce dir, a.2.letter, t)))

/-- The pairs that a line for servers is to carry. -/
def linePairs (env : FlushEnv) (mb : ModeBuf) (kept : List (Dir × ModeArg)) (oplevels : Bool) :
    List (Dir × Char × Str) :=
  let b := mb.dest.bounce
  let deop := if mb.dest.deop then [(printDir b .add, 'o', env.source.numnick)] else []
  if b then ownPairs b oplevels .add kept ++ deop ++ ownPairs b oplevels .del kept
  else ownPairs b oplevels .del kept ++ ownPairs b oplevels .add kept ++ deop

/-- A line is read by the receiver as the channel, letters whose arguments are the given ones, and
the timestamp, which is the last word. -/
def ReadAs (text chname : Str) (pairs : List (Dir × Char × Str)) (ts : ℕ) : Prop :=
  ∃ letters args, messageParams text = chname :: letters :: args ∧
    readModes .add letters args = some (pairs, [digits ts])

/-! ## Reading letters -/

/-- The letters `ls` read the arguments `as`, as the pairs `ps`, whatever follows them. `mode_parse` -/
def Reads (dir : Dir) (ls : Str) (as : List Str) (ps : List (Dir × Char × Str)) : Prop :=
  ∀ rest args, readModes dir (ls ++ rest) (as ++ args) =
    (readModes dir rest args).map (fun r => (ps ++ r.1, r.2))

lemma Reads.nil (dir : Dir) : Reads dir [] [] [] := fun rest args => by simp

variable {dir : Dir} {ls ls' : Str} {as : List Str} {ps : List (Dir × Char × Str)} {bounce oplevels : Bool}
  {env : FlushEnv} {ch : Chan}

lemma Reads.append {as' : List Str} {ps' : List (Dir × Char × Str)}
    (h : Reads dir ls as ps) (h' : Reads dir ls' as' ps') : Reads dir (ls ++ ls') (as ++ as') (ps ++ ps') := by
  intro rest args
  rw [append_assoc, append_assoc, h, h', Option.map_map]
  simp [Function.comp_def]

lemma Reads.simple {ch : Char} (h : takesArg dir ch = false) (hp : ch ≠ '+')
    (hm : ch ≠ '-') : Reads dir [ch] [] [] := by
  intro rest args
  rw [List.singleton_append, readModes_cons, if_neg hp, if_neg hm, if_neg (by simp [h])]
  simp

lemma Reads.arg {ch : Char} (h : takesArg dir ch = true) (hp : ch ≠ '+')
    (hm : ch ≠ '-') (a : Str) : Reads dir [ch] [a] [(dir, ch, a)] := by
  intro rest args
  rw [List.singleton_append, readModes_cons, if_neg hp, if_neg hm, if_pos h]
  rfl

lemma Reads.simples (h : ∀ ch ∈ ls, takesArg dir ch = false ∧ ch ≠ '+' ∧ ch ≠ '-') : Reads dir ls [] [] := by
  induction ls with
  | nil => exact Reads.nil dir
  | cons ch ls ih =>
    obtain ⟨h1, h2, h3⟩ := h ch List.mem_cons_self
    exact (Reads.simple h1 h2 h3).append (ih (fun c hc => h c (List.mem_cons_of_mem _ hc)))

lemma Reads.eq_nil (h : Reads dir [] as ps) : as = [] ∧ ps = [] := by
  have h0 : readModes dir [] (as ++ []) = (readModes dir [] []).map (fun r => (ps ++ r.1, r.2)) := h [] []
  rw [readModes, readModes, Option.map_some, append_nil, append_nil] at h0
  obtain ⟨hps, has⟩ := Prod.mk.inj (some.inj h0)
  exact ⟨has, hps.symm⟩

lemma readModes_sign (dir : Dir) (rest : Str) (args : List Str) : readModes dir ('-' :: rest) args =
    readModes .del rest args ∧ readModes dir ('+' :: rest) args = readModes .add rest args := by
  constructor
  · rw [readModes_cons, if_neg (by decide), if_pos rfl]
  · rw [readModes_cons, if_pos rfl]

lemma readModes_signed {as' : List Str} {ps' : List (Dir × Char × Str)}
    (h : Reads .del ls as ps) (h' : Reads .add ls' as' ps') (rest : List Str) :
    readModes .add (signed '-' ls ++ signed '+' ls') (as ++ as' ++ rest) = some (ps ++ ps', rest) := by
  -- The second group is read alike from both directions, unless it is empty.
  have hadd : ∀ dir, readModes dir (signed '+' ls') (as' ++ rest) = some (ps', rest) := by
    intro dir
    unfold signed
    split
    next hl =>
      subst hl
      obtain ⟨rfl, rfl⟩ := h'.eq_nil
      simp [readModes]
    next hl =>
      have h0 := h' [] rest
      rw [append_nil] at h0
      rw [(readModes_sign _ _ _).2, h0, readModes]
      simp
  rw [append_assoc]
  by_cases hl : ls = []
  · subst hl
    obtain ⟨rfl, rfl⟩ := h.eq_nil
    simpa [signed] using hadd .add
  · rw [signed, if_neg hl, List.cons_append, (readModes_sign _ _ _).1, h, hadd]
    rfl

lemma takesArg_letter (bounce oplevels : Bool) (limit : Str) (a : Dir × ModeArg) :
    takesArg (printDir bounce a.1) a.2.letter = (argText bounce oplevels limit a).isSome ∧
      a.2.letter ≠ '+' ∧ a.2.letter ≠ '-' := by
  obtain ⟨dir, a⟩ := a
  cases a with
  | client m c l =>
    cases m <;> cases dir <;> cases bounce <;>
      simp [takesArg, printDir, Dir.flip, ModeArg.letter, ClientMode.letter, argText] <;>
      split <;> simp
  | uint n =>
    cases dir <;> cases bounce <;> simp [takesArg, printDir, Dir.flip, ModeArg.letter, argText]
  | string m s =>
    cases m <;> cases dir <;> cases bounce <;>
      simp [takesArg, printDir, Dir.flip, ModeArg.letter, StringMode.letter, argText]

lemma reads_args {limit : Str} {es : List (Dir × ModeArg)}
    (hown : ∀ e ∈ es, argText bounce oplevels limit e = ownArg bounce oplevels e) :
    Reads (printDir bounce dir) (argLetters dir es) (argTexts bounce oplevels limit dir es)
      (ownPairs bounce oplevels dir es) := by
  induction es with
  | nil => exact Reads.nil _
  | cons e es ih =>
    have ih := ih (fun e he => hown e (List.mem_cons_of_mem _ he))
    by_cases hd : e.1 = dir
    · subst hd
      have he := hown e List.mem_cons_self
      obtain ⟨htk, hp, hm⟩ := takesArg_letter bounce oplevels limit e
      have hls : argLetters e.1 (e :: es) = [e.2.letter] ++ argLetters e.1 es := by
        simp [argLetters]
      cases ht : argText bounce oplevels limit e with
      | none =>
        rw [ht] at htk he
        have hts : argTexts bounce oplevels limit e.1 (e :: es) =
            [] ++ argTexts bounce oplevels limit e.1 es := by
          simp [argTexts, ht]
        have hps : ownPairs bounce oplevels e.1 (e :: es) = [] ++ ownPairs bounce oplevels e.1 es := by
          simp [ownPairs, ← he]
        rw [hls, hts, hps]
        exact (Reads.simple htk hp hm).append ih
      | some t =>
        rw [ht] at htk he
        have hts : argTexts bounce oplevels limit e.1 (e :: es) =
            [t] ++ argTexts bounce oplevels limit e.1 es := by
          simp [argTexts, ht]
        have hps : ownPairs bounce oplevels e.1 (e :: es) =
            [(printDir bounce e.1, e.2.letter, t)] ++ ownPairs bounce oplevels e.1 es := by
          simp [ownPairs, ← he]
        rw [hls, hts, hps]
        exact (Reads.arg htk hp hm t).append ih
    · simpa [argLetters, argTexts, ownPairs, hd] using ih

/-! ## The simple letters -/

/-- A buffer as the calls build it: the removal of a limit and of a redirect are among the simple modes, their
setting is not; and there is room for one more argument. `modebuf_mode`, `modebuf_mode_uint`,
`modebuf_mode_string` -/
structure ModeBuf.Built (mb : ModeBuf) : Prop where
  add : mb.add ⊆ modebufFlags
  rem : mb.rem ⊆ insert .limit (insert .redirect modebufFlags)
  args : mb.args.length ≤ maxModeParams

lemma mem_simpleLetters {mb : ModeBuf} {ch : Char} (h : ch ∈ simpleLetters mb dir) :
    (∃ f, (f, ch) ∈ flagLetters ∧ (f ∈ match dir with | .add => mb.add | .del => mb.rem)) ∨
      ∃ f, (f, ch) ∈ exLetters := by
  cases dir with
  | add =>
    simp only [simpleLetters, mem_append, mem_map, mem_filter, decide_eq_true_eq] at h
    obtain ⟨⟨f, c⟩, ⟨hf, hm⟩, rfl⟩ | ⟨⟨f, c⟩, ⟨hf, -⟩, rfl⟩ := h
    · exact .inl ⟨f, hf, hm⟩
    · exact .inr ⟨f, hf⟩
  | del =>
    simp only [simpleLetters, mem_append, mem_map, mem_filter, decide_eq_true_eq] at h
    obtain ⟨⟨f, c⟩, ⟨hf, -, hm⟩, rfl⟩ | ⟨⟨f, c⟩, ⟨hf, -⟩, rfl⟩ := h
    · exact .inl ⟨f, hf, hm⟩
    · exact .inr ⟨f, hf⟩

lemma takesArg_flagLetters (dir : Dir) : ∀ p ∈ flagLetters,
    (dir = .add → p.1 ≠ .limit ∧ p.1 ≠ .redirect) → takesArg dir p.2 = false := by
  cases dir <;> decide

lemma takesArg_exLetters (dir : Dir) : ∀ p ∈ exLetters, takesArg dir p.2 = false := by
  cases dir <;> decide

lemma simpleLetters_ne {mb : ModeBuf} {ch : Char} (h : ch ∈ simpleLetters mb dir) :
    ch ≠ '+' ∧ ch ≠ '-' ∧ ch ≠ ' ' := by
  have hf : ∀ p ∈ flagLetters, p.2 ≠ '+' ∧ p.2 ≠ '-' ∧ p.2 ≠ ' ' := by decide
  have he : ∀ p ∈ exLetters, p.2 ≠ '+' ∧ p.2 ≠ '-' ∧ p.2 ≠ ' ' := by decide
  obtain ⟨f, hm, -⟩ | ⟨f, hm⟩ := mem_simpleLetters h
  · exact hf _ hm
  · exact he _ hm

lemma reads_simpleLetters {mb : ModeBuf} (hb : mb.Built)
    (hbounce : bounce = true → .limit ∉ mb.rem ∧ .redirect ∉ mb.rem) (dir : Dir) :
    Reads (printDir bounce dir) (simpleLetters mb dir) [] [] := by
  apply Reads.simples
  intro ch hch
  obtain ⟨hp, hm, -⟩ := simpleLetters_ne hch
  refine ⟨?_, hp, hm⟩
  obtain ⟨f, hf, hset⟩ | ⟨f, hf⟩ := mem_simpleLetters hch
  · apply takesArg_flagLetters _ _ hf
    intro hd
    have hadd : ∀ f ∈ modebufFlags, f ≠ .limit ∧ f ≠ .redirect := by decide
    cases dir with
    | add => exact hadd f (hb.add hset)
    | del =>
      -- Printed as an addition, so it is a bounce.
      have hbt : bounce = true := by
        cases bounce with
        | true => rfl
        | false => simp [printDir] at hd
      obtain ⟨h1, h2⟩ := hbounce hbt
      exact ⟨fun e => h1 (e ▸ hset), fun e => h2 (e ▸ hset)⟩
  · exact takesArg_exLetters _ _ hf

/-! ## Words -/

lemma isDigit_of_mem_digits {n : ℕ} {c : Char} (h : c ∈ digits n) : c.isDigit = true :=
  Nat.isDigit_of_mem_toDigits (by decide) (by decide) h

lemma isWord_digits (n : ℕ) : IsWord (digits n) := by
  refine ⟨Nat.toDigits_ne_nil, fun h => ?_, fun h => ?_⟩
  · exact absurd (isDigit_of_mem_digits h) (by decide)
  · exact absurd (isDigit_of_mem_digits (List.mem_of_mem_head? h)) (by decide)

lemma isWord_ownArg {e : Dir × ModeArg} {t : Str} (h : ownArg bounce oplevels e = some t) : IsWord t := by
  obtain ⟨dir, a⟩ := e
  cases a with
  | client m c l =>
    have hlvl : IsWord (c.numnick ++ ':' :: digits l) := by
      apply c.num_word.append
      rintro hc
      obtain hc | hc := mem_cons.1 hc
      · exact absurd hc (by decide)
      · exact (isWord_digits l).blank hc
    cases m with
    | chanop =>
      simp only [ownArg, argText] at h
      split at h
      · exact some.inj h ▸ hlvl
      · exact some.inj h ▸ c.num_word
    | halfop => exact some.inj h ▸ c.num_word
    | voice => exact some.inj h ▸ c.num_word
  | uint n =>
    obtain ⟨-, ht⟩ := Option.ite_none_right_eq_some.1 h
    exact some.inj ht ▸ isWord_digits n.toNat
  | string m s =>
    have hs : ownArg bounce oplevels (dir, .string m s) = some t → s.text = t := by
      cases m <;> simp [ownArg, argText]
    exact hs h ▸ s.word

lemma isWord_linePairs {mb : ModeBuf} {kept : List (Dir × ModeArg)}
    {p : Dir × Char × Str} (h : p ∈ linePairs env mb kept oplevels) : IsWord p.2.2 := by
  have hown : ∀ b dir, p ∈ ownPairs b oplevels dir kept → IsWord p.2.2 := by
    intro b dir hp
    simp only [ownPairs, List.mem_filterMap, Option.map_eq_some_iff] at hp
    obtain ⟨e, -, t, ht, rfl⟩ := hp
    exact isWord_ownArg ht
  have hdeop : ∀ d, p ∈ (if mb.dest.deop = true then [(d, 'o', env.source.numnick)] else []) →
      IsWord p.2.2 := by
    intro d hp
    split at hp
    · rw [List.mem_singleton.1 hp]
      exact env.source.num_word
    · exact absurd hp (by simp)
  simp only [linePairs] at h
  split at h <;> simp only [mem_append] at h <;> rcases h with (h | h) | h
  · exact hown _ _ h
  · exact hdeop _ h
  · exact hown _ _ h
  · exact hown _ _ h
  · exact hown _ _ h
  · exact hdeop _ h

/-! ## One line -/

lemma eq_of_readModes {args rest : List Str}
    (h : readModes dir ls args = some (ps, rest)) : args = ps.map (·.2.2) ++ rest := by
  induction ls generalizing dir args ps with
  | nil =>
    rw [readModes, Option.some.injEq, Prod.mk.injEq] at h
    obtain ⟨rfl, rfl⟩ := h
    rfl
  | cons ch ls ih =>
    rw [readModes_cons] at h
    split at h
    · exact ih h
    split at h
    · exact ih h
    split at h
    · cases args with
      | nil => exact absurd h (by simp)
      | cons a args =>
        obtain ⟨⟨ps', rest'⟩, hr, he⟩ := Option.map_eq_some_iff.1 h
        obtain ⟨rfl, rfl⟩ := Prod.mk.inj he
        rw [ih hr]
        rfl
    · exact ih h

lemma msgqMake_eq {text : Str} (h : text.length ≤ bufSize - 2) : msgqMake text = text :=
  List.take_of_length_le h

lemma readAs_modeText {source chname letters : Str} {args : List Str}
    {pairs : List (Dir × Char × Str)} {ts : ℕ}
    (hread : readModes .add letters args = some (pairs, [digits ts])) (hs : IsWord source)
    (hc : IsWord chname) (hl : IsWord letters) (hp : ∀ p ∈ pairs, IsWord p.2.2)
    (hlen : pairs.length + 4 ≤ maxPara)
    (hfit : (modeText source "M".toList chname letters args).length ≤ bufSize - 2) :
    ReadAs (msgqMake (modeText source "M".toList chname letters args)) chname pairs ts := by
  refine ⟨letters, args, ?_, hread⟩
  have hargs := eq_of_readModes hread
  have hws : ∀ w ∈ chname :: letters :: args, IsWord w := by
    intro w hw
    simp only [hargs, mem_cons, mem_append, mem_map, List.not_mem_nil, or_false] at hw
    rcases hw with rfl | rfl | ⟨p, hpm, rfl⟩ | rfl
    · exact hc
    · exact hl
    · exact hp p hpm
    · exact isWord_digits ts
  have htext : modeText source "M".toList chname letters args =
      source ++ spaced ["M".toList] ++ (spaced (chname :: letters :: args) ++ []) := by
    simp [modeText]
  have hmax : maxPara = (chname :: letters :: args).length +
      (maxPara - (chname :: letters :: args).length) := by
    simp only [hargs, length_cons, length_append, List.length_map, List.length_nil]
    omega
  have hne : maxPara - (chname :: letters :: args).length ≠ 0 := by
    simp only [hargs, length_cons, length_append, List.length_map, List.length_nil]
    omega
  rw [msgqMake_eq hfit, htext, messageParams_line hs (by decide) (startsBlank_spaced _ (Or.inl rfl)), hmax,
    parseParams_words hws (Or.inl rfl) hne, parseParams_nil, append_nil]

lemma reads_rembuf {mb : ModeBuf} (hb : mb.Built) {kept : List (Dir × ModeArg)}
    (hbounce : mb.dest.bounce = true → .limit ∉ mb.rem ∧ .redirect ∉ mb.rem)
    (hown : ∀ e ∈ kept, argText mb.dest.bounce oplevels (limitbuf mb.args) e =
      ownArg mb.dest.bounce oplevels e) :
    Reads (printDir mb.dest.bounce .del) (rembuf mb kept) (remstr mb kept oplevels)
      (ownPairs mb.dest.bounce oplevels .del kept) :=
  (reads_simpleLetters hb hbounce .del).append (reads_args hown)

lemma reads_addbuf (env : FlushEnv) {mb : ModeBuf} (hb : mb.Built)
    {kept : List (Dir × ModeArg)}
    (hbounce : mb.dest.bounce = true → .limit ∉ mb.rem ∧ .redirect ∉ mb.rem)
    (hown : ∀ e ∈ kept, argText mb.dest.bounce oplevels (limitbuf mb.args) e =
      ownArg mb.dest.bounce oplevels e) :
    Reads (printDir mb.dest.bounce .add) (addbuf mb kept) (addstr env mb kept oplevels)
      (ownPairs mb.dest.bounce oplevels .add kept ++
        (if mb.dest.deop then [(printDir mb.dest.bounce .add, 'o', env.source.numnick)]
          else [])) := by
  have hdeop : Reads (printDir mb.dest.bounce .add) (if mb.dest.deop then ['o'] else [])
      (if mb.dest.deop then [env.source.numnick] else [])
      (if mb.dest.deop then [(printDir mb.dest.bounce .add, 'o', env.source.numnick)] else []) := by
    split
    · apply Reads.arg _ (by decide) (by decide)
      cases printDir mb.dest.bounce .add <;> decide
    · exact Reads.nil _
  exact ((reads_simpleLetters hb hbounce .add).append (reads_args hown)).append hdeop

/-- The letters of the line for servers. `modebuf_flush_int`. -/
def serverLetters (mb : ModeBuf) (kept : List (Dir × ModeArg)) : Str :=
  if mb.dest.bounce then signed '-' (addbuf mb kept) ++ signed '+' (rembuf mb kept)
  else signed '-' (rembuf mb kept) ++ signed '+' (addbuf mb kept)

/-- The arguments of the line for servers. `modebuf_flush_int`. -/
def serverArgs (env : FlushEnv) (ch : Chan) (mb : ModeBuf) (kept : List (Dir × ModeArg))
    (oplevels : Bool) : List Str :=
  (if mb.dest.bounce then addstr env mb kept oplevels ++ remstr mb kept oplevels
    else remstr mb kept oplevels ++ addstr env mb kept oplevels) ++ [digits ch.ts]

/-- The source of the line for servers. `modebuf_flush_int`. -/
def serverSource (env : FlushEnv) (mb : ModeBuf) : Str :=
  if mb.dest.bounce then env.me else env.from_

lemma serverText_eq {mb : ModeBuf} {kept : List (Dir × ModeArg)} (ho : mb.dest.opmode = false) :
    serverText env ch mb kept oplevels =
      modeText (serverSource env mb) "M".toList ch.chname (serverLetters mb kept)
        (serverArgs env ch mb kept oplevels) := by
  unfold serverText serverSource serverLetters serverArgs
  rw [ho, if_neg (by decide)]
  split <;> rfl

lemma readModes_server (env : FlushEnv) (ch : Chan) {mb : ModeBuf} (hb : mb.Built)
    {kept : List (Dir × ModeArg)}
    (hbounce : mb.dest.bounce = true → .limit ∉ mb.rem ∧ .redirect ∉ mb.rem)
    (hown : ∀ e ∈ kept, argText mb.dest.bounce oplevels (limitbuf mb.args) e =
      ownArg mb.dest.bounce oplevels e) :
    readModes .add (serverLetters mb kept) (serverArgs env ch mb kept oplevels) =
      some (linePairs env mb kept oplevels, [digits ch.ts]) := by
  have hrem := reads_rembuf hb hbounce hown
  have hadd := reads_addbuf env hb hbounce hown
  unfold serverLetters serverArgs linePairs
  cases hbo : mb.dest.bounce with
  | true =>
    rw [hbo] at hrem hadd
    exact readModes_signed hadd hrem _
  | false =>
    rw [hbo] at hrem hadd
    simp only [Bool.false_eq_true, if_false, append_assoc]
    rw [← append_assoc]
    exact readModes_signed hrem hadd _

/-! ## What a pass needs -/

/-- The changes that the next line has room for. `modebuf_flush_int`. -/
def ModeBuf.kept (mb : ModeBuf) : List (Dir × ModeArg) :=
  (partitionArgs mb.dest.nokey (totalbuflen mb.dest.deop) mb.args).1

def lastLimit (args : List (Dir × ModeArg)) : Option UInt32 :=
  args.foldl (fun last a => match a.2 with
    | .uint n => some n
    | _ => last) none

/-- How many letters are added or removed. -/
def letterCount (mb : ModeBuf) : Dir → ℕ
  | .add => flagLetters.countP (fun f => f.1 ∈ mb.add) + exLetters.countP (fun f => f.1 ∈ mb.exadd) +
      mb.kept.countP (fun a => a.1 = .add) + (if mb.dest.deop then 1 else 0)
  | .del => flagLetters.countP (fun f => f.1 ∉ mb.add ∧ f.1 ∈ mb.rem) +
      exLetters.countP (fun f => f.1 ∉ mb.exadd ∧ f.1 ∈ mb.exrem) +
      mb.kept.countP (fun a => a.1 = .del)

/-- The characters that letters take, with their sign. -/
def signedCount (n : ℕ) : ℕ := if n = 0 then 0 else n + 1

/-- The characters that the changes of the next line take, with the channel and the timestamp. -/
def lineLength (env : FlushEnv) (ch : Chan) (mb : ModeBuf) (oplevels : Bool) : ℕ :=
  (if mb.dest.bounce then env.me else env.from_).length + 2 + (ch.chname.length + 1) +
    (1 + signedCount (letterCount mb .del) + signedCount (letterCount mb .add)) +
    ((linePairs env mb mb.kept oplevels).map (fun p => p.2.2.length + 1)).sum +
    ((digits ch.ts).length + 1)

/-- The condition on a buffer, before a pass, for its MODE line. -/
structure LineOk (env : FlushEnv) (ch : Chan) (mb : ModeBuf) : Prop where
  bounce : mb.dest.bounce = true → .limit ∉ mb.rem ∧ .redirect ∉ mb.rem
  limit : ∀ n, ((if mb.dest.bounce then .del else .add), .uint n) ∈ mb.kept → lastLimit mb.args = some n
  letter : (∃ f ∈ mb.add ∪ mb.rem, f ≠ .wasdeljoins) ∨ mb.exadd ∪ mb.exrem ≠ ∅ ∨ mb.args ≠ [] ∨
    mb.dest.deop = true
  fits : ∀ oplevels ∈ lineKinds env mb.dest, lineLength env ch mb oplevels ≤ bufSize - 2

/-- The condition on a buffer before a pass: no null pointer is written through, and the MODE line
can be read. -/
structure FlushOk (env : FlushEnv) (ch : Chan) (mb : ModeBuf) : Prop where
  null : mb.isEmpty = false → mb.dest.server = true → mb.kept.any nullText = false
  line : mb.isEmpty = false → mb.dest.server = true → mb.dest.opmode = false → LineOk env ch mb

lemma limitbuf_eq {args : List (Dir × ModeArg)} {n : UInt32} (h : lastLimit args = some n) :
    limitbuf args = digits n.toNat := by
  have hgen : ∀ (args : List (Dir × ModeArg)) (last : Option UInt32) (buf : Str),
      (∀ m, last = some m → buf = digits m.toNat) → args.foldl (fun last a => match a.2 with
        | .uint n => some n
        | _ => last) last = some n → args.foldl (fun buf a => match a.2 with
        | .uint n => digits n.toNat
        | _ => buf) buf = digits n.toNat := by
    intro args
    induction args with
    | nil => exact fun last buf hb hl => hb n hl
    | cons a args ih =>
      intro last buf hb hl
      obtain ⟨dir, a⟩ := a
      cases a with
      | uint m => exact ih (some m) (digits m.toNat) (fun k hk => by rw [some.inj hk]) hl
      | client m c l => exact ih last buf hb hl
      | string m s => exact ih last buf hb hl
  exact hgen args none [] (fun m hm => absurd hm (by simp)) h

lemma LineOk.own {mb : ModeBuf} (h : LineOk env ch mb) (oplevels : Bool) :
    ∀ e ∈ mb.kept, argText mb.dest.bounce oplevels (limitbuf mb.args) e = ownArg mb.dest.bounce oplevels e := by
  rintro ⟨dir, a⟩ he
  cases a with
  | client m c l => cases m <;> rfl
  | string m s => cases m <;> rfl
  | uint n =>
    by_cases hd : dir = if mb.dest.bounce then .del else .add
    · rw [limitbuf_eq (h.limit n (hd ▸ he)), ownArg]
    · simp [ownArg, argText, hd]

lemma partitionArgs_length (nokey : Bool) (n : ℕ) (args : List (Dir × ModeArg)) :
    (partitionArgs nokey n args).1.length + (partitionArgs nokey n args).2.length = args.length := by
  induction args generalizing n with
  | nil => rfl
  | cons a args ih =>
    obtain ⟨dir, a⟩ := a
    rw [partitionArgs]
    split
    · simp only [length_cons]
      have := ih n
      omega
    · simp only [length_cons]
      have := ih (n - (a.room nokey + 1))
      omega

lemma room_lt_totalbuflen (a : ModeArg) (nokey deop : Bool) : a.room nokey < totalbuflen deop := by
  have ht : 306 ≤ totalbuflen deop := by
    cases deop <;> decide
  refine lt_of_lt_of_le ?_ ht
  cases a with
  | client m c l =>
    have := c.name_len
    simp only [ModeArg.room]
    omega
  | uint n =>
    have hn : n.toNat < 10 ^ 10 := lt_of_lt_of_le n.toNat_lt (by decide)
    have := Nat.toDigits_length 10 n.toNat 10 (by decide) hn
    simp only [ModeArg.room, digits]
    omega
  | string m s =>
    have := s.len
    simp only [channelLen] at this
    cases m <;> simp only [ModeArg.room] <;> (try split) <;> omega

lemma kept_ne_nil {mb : ModeBuf} (h : mb.args ≠ []) : mb.kept ≠ [] := by
  obtain ⟨⟨dir, a⟩, args, hargs⟩ := List.exists_cons_of_ne_nil h
  have hroom := room_lt_totalbuflen a mb.dest.nokey mb.dest.deop
  unfold ModeBuf.kept
  rw [hargs, partitionArgs, if_neg (by omega)]
  exact List.cons_ne_nil _ _

lemma linePairs_length_le (env : FlushEnv) (mb : ModeBuf) (kept : List (Dir × ModeArg))
    (oplevels : Bool) : (linePairs env mb kept oplevels).length ≤ kept.length + 1 := by
  have hown : ∀ b dir, (ownPairs b oplevels dir kept).length ≤ kept.countP (fun a => a.1 = dir) := by
    intro b dir
    rw [List.countP_eq_length_filter]
    exact List.length_filterMap_le _ _
  have hsum : kept.countP (fun a => a.1 = .add) + kept.countP (fun a => a.1 = .del) =
      kept.length := by
    rw [List.length_eq_countP_add_countP (fun a => a.1 = Dir.add)]
    congr 1
    apply List.countP_congr
    rintro ⟨dir, a⟩ -
    cases dir <;> simp
  have hdeop : ∀ d : Dir, (if mb.dest.deop = true then [(d, 'o', env.source.numnick)]
      else []).length ≤ 1 := by
    intro d
    split <;> simp
  have h1 := hown mb.dest.bounce .add
  have h2 := hown mb.dest.bounce .del
  have h3 := hdeop (printDir mb.dest.bounce .add)
  simp only [linePairs]
  split <;> simp only [length_append] <;> omega

lemma length_letters (mb : ModeBuf) : (rembuf mb mb.kept).length = letterCount mb .del ∧
    (addbuf mb mb.kept).length = letterCount mb .add := by
  have hif : (if mb.dest.deop = true then ['o'] else []).length =
      if mb.dest.deop = true then 1 else 0 := by
    split <;> rfl
  constructor
  · simp [rembuf, simpleLetters, argLetters, letterCount, List.countP_eq_length_filter, Nat.add_assoc]
  · simp [addbuf, simpleLetters, argLetters, letterCount, List.countP_eq_length_filter, hif, Nat.add_assoc]

lemma length_signed (sign : Char) (ls : Str) : (signed sign ls).length = signedCount ls.length := by
  cases ls with
  | nil => rfl
  | cons c ls => simp [signed, signedCount]

lemma length_spaced (ws : List Str) : (spaced ws).length = (ws.map (fun w => w.length + 1)).sum := by
  induction ws with
  | nil => rfl
  | cons w ws ih =>
    simp [ih]
    omega

lemma letter_ne_blank (a : ModeArg) : a.letter ≠ ' ' := by
  cases a with
  | client m c l => cases m <;> simp [ModeArg.letter, ClientMode.letter]
  | uint n => simp [ModeArg.letter]
  | string m s => cases m <;> simp [ModeArg.letter, StringMode.letter]

lemma blank_not_mem_letters (mb : ModeBuf) (kept : List (Dir × ModeArg)) :
    ' ' ∉ rembuf mb kept ∧ ' ' ∉ addbuf mb kept := by
  have hs : ∀ dir, ' ' ∉ simpleLetters mb dir := fun dir h => (simpleLetters_ne h).2.2 rfl
  have ha : ∀ dir, ' ' ∉ argLetters dir kept := by
    intro dir h
    obtain ⟨e, -, he⟩ := mem_map.1 h
    exact letter_ne_blank _ he
  have hd : ' ' ∉ (if mb.dest.deop then ['o'] else []) := by
    split <;> decide
  constructor
  · exact fun h => (mem_append.1 h).elim (hs _) (ha _)
  · exact fun h => (mem_append.1 h).elim
      (fun h => (mem_append.1 h).elim (hs _) (ha _)) hd

lemma isWord_signed (h : ' ' ∉ ls) (h' : ' ' ∉ ls') (hne : ls ++ ls' ≠ []) :
    IsWord (signed '-' ls ++ signed '+' ls') := by
  have hb : ∀ (sign : Char) (l : Str), sign ≠ ' ' → ' ' ∉ l → ' ' ∉ signed sign l := by
    intro sign l hsign hl hm
    unfold signed at hm
    split at hm
    · exact absurd hm (by simp)
    · exact (mem_cons.1 hm).elim (fun e => hsign e.symm) hl
  by_cases hl : ls = []
  · obtain ⟨c, l, rfl⟩ := List.exists_cons_of_ne_nil (show ls' ≠ [] by simpa [hl] using hne)
    subst hl
    exact ⟨by simp [signed], hb '+' _ (by decide) h', by simp [signed]⟩
  · obtain ⟨c, l, rfl⟩ := List.exists_cons_of_ne_nil hl
    refine IsWord.append ⟨by simp [signed], hb '-' _ (by decide) h, by simp [signed]⟩ ?_
    exact hb '+' _ (by decide) h'

lemma exists_flagLetter : ∀ f ∈ insert .limit (insert .redirect modebufFlags),
    f ≠ .wasdeljoins → ∃ p ∈ flagLetters, p.1 = f := by
  decide

lemma exists_exLetter (f : ExMode) : ∃ p ∈ exLetters, p.1 = f := by
  cases f <;> decide

lemma LineOk.letters_ne_nil {mb : ModeBuf} (h : LineOk env ch mb)
    (hb : mb.Built) : rembuf mb mb.kept ++ addbuf mb mb.kept ≠ [] := by
  -- It is enough that one of the parts is not empty.
  have hsimple : ∀ dir, simpleLetters mb dir ≠ [] → rembuf mb mb.kept ++ addbuf mb mb.kept ≠ [] := by
    intro dir hne
    cases dir <;> simp [rembuf, addbuf, hne]
  have hadd : ∀ f ∈ mb.add, f ≠ .wasdeljoins → simpleLetters mb .add ≠ [] := by
    intro f hf hw
    obtain ⟨p, hp, rfl⟩ := exists_flagLetter f
      (Finset.mem_insert_of_mem (Finset.mem_insert_of_mem (hb.add hf))) hw
    apply ne_nil_of_mem (a := p.2)
    simp only [simpleLetters, mem_append, mem_map, mem_filter, decide_eq_true_eq]
    exact .inl ⟨p, ⟨hp, hf⟩, rfl⟩
  have hexadd : ∀ f ∈ mb.exadd, simpleLetters mb .add ≠ [] := by
    intro f hf
    obtain ⟨p, hp, rfl⟩ := exists_exLetter f
    apply ne_nil_of_mem (a := p.2)
    simp only [simpleLetters, mem_append, mem_map, mem_filter, decide_eq_true_eq]
    exact .inr ⟨p, ⟨hp, hf⟩, rfl⟩
  obtain ⟨f, hf, hw⟩ | hex | hargs | hd := h.letter
  · by_cases ha : f ∈ mb.add
    · exact hsimple .add (hadd f ha hw)
    · have hr : f ∈ mb.rem := (Finset.mem_union.1 hf).resolve_left ha
      obtain ⟨p, hp, rfl⟩ := exists_flagLetter f (hb.rem hr) hw
      apply hsimple .del
      apply ne_nil_of_mem (a := p.2)
      simp only [simpleLetters, mem_append, mem_map, mem_filter, decide_eq_true_eq]
      exact .inl ⟨p, ⟨hp, ha, hr⟩, rfl⟩
  · obtain ⟨f, hf⟩ := Finset.nonempty_iff_ne_empty.2 hex
    by_cases ha : f ∈ mb.exadd
    · exact hsimple .add (hexadd f ha)
    · have hr : f ∈ mb.exrem := (Finset.mem_union.1 hf).resolve_left ha
      obtain ⟨p, hp, rfl⟩ := exists_exLetter f
      apply hsimple .del
      apply ne_nil_of_mem (a := p.2)
      simp only [simpleLetters, mem_append, mem_map, mem_filter, decide_eq_true_eq]
      exact .inr ⟨p, ⟨hp, ha, hr⟩, rfl⟩
  · obtain ⟨⟨dir, a⟩, es, he⟩ := List.exists_cons_of_ne_nil (kept_ne_nil hargs)
    have hl : a.letter ∈ argLetters dir mb.kept := by
      rw [he]
      simp [argLetters]
    apply ne_nil_of_mem (a := a.letter)
    cases dir with
    | add => simp [addbuf, hl]
    | del => simp [rembuf, hl]
  · simp [addbuf, hd]

lemma LineOk.length_eq {mb : ModeBuf} (h : LineOk env ch mb)
    (hb : mb.Built) (oplevels : Bool) :
    (modeText (serverSource env mb) "M".toList ch.chname (serverLetters mb mb.kept)
      (serverArgs env ch mb mb.kept oplevels)).length = lineLength env ch mb oplevels := by
  have hargs := eq_of_readModes (readModes_server env ch hb h.bounce (h.own oplevels))
  obtain ⟨hrem, hadd⟩ := length_letters mb
  have hletters : (serverLetters mb mb.kept).length =
      signedCount (letterCount mb .del) + signedCount (letterCount mb .add) := by
    unfold serverLetters
    split
    · rw [length_append, length_signed, length_signed, hrem, hadd, Nat.add_comm]
    · rw [length_append, length_signed, length_signed, hrem, hadd]
  have htok : (spaced ["M".toList]).length = 2 := rfl
  simp only [modeText, lineLength, length_append, length_cons, hargs, length_spaced,
    List.map_append, List.map_map, List.sum_append, hletters, htok, serverSource,
    Function.comp_def, List.map_cons, List.map_nil, List.sum_cons, List.sum_nil]
  omega

lemma LineOk.readAs {mb : ModeBuf} (h : LineOk env ch mb)
    (hb : mb.Built) (hc : IsWord ch.chname) (ho : mb.dest.opmode = false)
    (hk : oplevels ∈ lineKinds env mb.dest) :
    ReadAs (msgqMake (serverText env ch mb mb.kept oplevels)) ch.chname
      (linePairs env mb mb.kept oplevels) ch.ts := by
  have hread := readModes_server env ch hb h.bounce (h.own oplevels)
  obtain ⟨hbr, hba⟩ := blank_not_mem_letters mb mb.kept
  have hne := h.letters_ne_nil hb
  have hletters : IsWord (serverLetters mb mb.kept) := by
    unfold serverLetters
    split
    · refine isWord_signed hba hbr (fun e => hne ?_)
      rw [List.append_eq_nil_iff] at e ⊢
      exact e.symm
    · exact isWord_signed hbr hba hne
  have hsource : IsWord (serverSource env mb) := by
    unfold serverSource
    split
    · exact env.me_word
    · exact env.from_word
  have hlen : (linePairs env mb mb.kept oplevels).length + 4 ≤ maxPara := by
    have h1 := linePairs_length_le env mb mb.kept oplevels
    have h2 := partitionArgs_length mb.dest.nokey (totalbuflen mb.dest.deop) mb.args
    have h3 := hb.args
    simp only [maxModeParams] at h3
    simp only [maxPara, ModeBuf.kept] at *
    omega
  rw [serverText_eq ho]
  apply readAs_modeText hread hsource hc hletters (fun p hp => isWord_linePairs hp) hlen
  rw [h.length_eq hb]
  exact h.fits oplevels hk

/-! ## One pass -/

/-- A channel and a buffer that differ only in what is not printed for servers: flags of the channel,
statuses of members, and `+d`. -/
structure SamePrint (r r' : Chan × ModeBuf) : Prop where
  chname : r'.1.chname = r.1.chname
  creationtime : r'.1.creationtime = r.1.creationtime
  args : r'.2.args = r.2.args
  dest : r'.2.dest = r.2.dest
  exadd : r'.2.exadd = r.2.exadd
  exrem : r'.2.exrem = r.2.exrem
  add : ∀ f, f ≠ .wasdeljoins → (f ∈ r'.2.add ↔ f ∈ r.2.add)
  rem : ∀ f, f ≠ .wasdeljoins → (f ∈ r'.2.rem ↔ f ∈ r.2.rem)

lemma SamePrint.refl (r : Chan × ModeBuf) : SamePrint r r :=
  ⟨rfl, rfl, rfl, rfl, rfl, rfl, fun _ _ => Iff.rfl, fun _ _ => Iff.rfl⟩

lemma SamePrint.trans {r r' r'' : Chan × ModeBuf} (h : SamePrint r r') (h' : SamePrint r' r'') :
    SamePrint r r'' where
  chname := h'.chname.trans h.chname
  creationtime := h'.creationtime.trans h.creationtime
  args := h'.args.trans h.args
  dest := h'.dest.trans h.dest
  exadd := h'.exadd.trans h.exadd
  exrem := h'.exrem.trans h.exrem
  add f hf := (h'.add f hf).trans (h.add f hf)
  rem f hf := (h'.rem f hf).trans (h.rem f hf)

lemma flushDelJoins_samePrint (j : Bool) (ch : Chan) (mb : ModeBuf) :
    SamePrint (ch, mb) (flushDelJoins j ch mb) := by
  have h1 : SamePrint (ch, mb) (flushRemDelJoins j ch mb) := by
    unfold flushRemDelJoins
    split
    · split
      · exact ⟨rfl, rfl, rfl, rfl, rfl, rfl, fun f hf => by simp [hf], fun f hf => by simp [hf]⟩
      · exact ⟨rfl, rfl, rfl, rfl, rfl, rfl, fun _ _ => Iff.rfl, fun _ _ => Iff.rfl⟩
    · exact SamePrint.refl _
  have h2 : ∀ r : Chan × ModeBuf, SamePrint r (flushAddDelJoins r.1 r.2) := by
    intro r
    unfold flushAddDelJoins
    split
    · exact ⟨rfl, rfl, rfl, rfl, rfl, rfl, fun f hf => by simp [hf], fun f hf => by simp [hf]⟩
    · exact SamePrint.refl _
  exact h1.trans (h2 _)

lemma SamePrint.simpleLetters_eq {r r' : Chan × ModeBuf} (h : SamePrint r r') (dir : Dir) :
    simpleLetters r'.2 dir = simpleLetters r.2 dir := by
  have hne : ∀ p ∈ flagLetters, p.1 ≠ .wasdeljoins := by decide
  cases dir with
  | add =>
    simp only [simpleLetters, h.exadd]
    congr 2
    apply List.filter_congr
    intro p hp
    simp only [h.add _ (hne p hp)]
  | del =>
    simp only [simpleLetters, h.exadd, h.exrem]
    congr 2
    apply List.filter_congr
    intro p hp
    simp only [h.add _ (hne p hp), h.rem _ (hne p hp)]

lemma SamePrint.serverText_eq {r r' : Chan × ModeBuf} (h : SamePrint r r') (env : FlushEnv)
    (kept : List (Dir × ModeArg)) (oplevels : Bool) :
    serverText env r'.1 r'.2 kept oplevels = serverText env r.1 r.2 kept oplevels := by
  simp only [serverText, rembuf, addbuf, remstr, addstr, h.simpleLetters_eq, h.chname,
    Chan.ts, h.creationtime, h.args, h.dest]

/-- A line for servers is the printing of a buffer, and a MODE line is read as that buffer meant it:
each letter with its own argument, and the timestamp of the channel as the last word. -/
def WellFormed (env : FlushEnv) (l : ServerLine) : Prop :=
  l.opmode = false → ∃ ch mb oplevels, l.text = msgqMake (serverText env ch mb mb.kept oplevels) ∧
    ReadAs l.text ch.chname (linePairs env mb mb.kept oplevels) ch.ts

lemma modebufFlushOnce_spec {mb : ModeBuf} (hok : FlushOk env ch mb)
    (hb : mb.Built) (hc : IsWord ch.chname) : ∃ ch' mb' lines, modebufFlushOnce env ch mb = some (ch', mb',
    lines) ∧ (∀ l ∈ lines, WellFormed env l) ∧ ch'.chname = ch.chname ∧ mb'.Built ∧ (mb.args ≠ [] →
    mb'.args.length < mb.args.length) ∧ (mb.args = [] → mb'.args = []) := by
  have hsame := flushDelJoins_samePrint env.joinOnRemovedelay ch mb
  cases he : mb.isEmpty with
  | true =>
    refine ⟨ch, mb, [], by rw [modebufFlushOnce, if_pos he], by simp, rfl, hb, ?_, id⟩
    intro hne
    simp only [ModeBuf.isEmpty, decide_eq_true_eq, List.isEmpty_iff] at he
    exact absurd he.2.2.2.2 hne
  | false =>
    have hlen := partitionArgs_length mb.dest.nokey (totalbuflen mb.dest.deop) mb.args
    have hkept : (partitionArgs mb.dest.nokey (totalbuflen mb.dest.deop) mb.args).1 = mb.kept := rfl
    have hnull : ¬ (mb.dest.server = true ∧ mb.kept.any nullText = true) := by
      rintro ⟨hs, hn⟩
      rw [hok.null he hs] at hn
      exact absurd hn (by decide)
    refine ⟨(flushDelJoins env.joinOnRemovedelay ch mb).1,
      ⟨∅, ∅, ∅, ∅, { mb.dest with deop := mb.dest.deop && !mb.dest.server },
        (partitionArgs mb.dest.nokey (totalbuflen mb.dest.deop) mb.args).2⟩,
      (lineKinds env mb.dest).map (fun oplevels =>
        ⟨mb.dest.opmode, msgqMake (serverText env ch mb mb.kept oplevels)⟩),
      ?_, ?_, hsame.chname, ?_, ?_, ?_⟩
    · unfold modebufFlushOnce
      simp only [he, Bool.false_eq_true, if_false, hsame.args, hsame.dest, hkept, hsame.serverText_eq]
      rw [if_neg hnull]
    · -- A line is printed only when the buffer is for servers.
      intro l hl hopmode
      obtain ⟨k, hk, rfl⟩ := mem_map.1 hl
      have hserver : mb.dest.server = true := by
        by_contra hs
        simp [lineKinds, hs] at hk
      exact ⟨ch, mb, k, rfl, (hok.line he hserver hopmode).readAs hb hc hopmode hk⟩
    · have := hb.args
      exact ⟨by simp, by simp, by simp only; omega⟩
    · intro hne
      have := List.length_pos_of_ne_nil (kept_ne_nil hne)
      rw [hkept] at hlen
      simp only
      omega
    · intro hnil
      rw [hnil]
      rfl

/-! ## Runs -/

/-- The condition on a buffer before it is printed: it holds before each pass. -/
def FlushIntOk (env : FlushEnv) : ℕ → Chan → ModeBuf → Prop
  | 0, _, _ => True
  | n + 1, ch, mb => FlushOk env ch mb ∧ ∀ ch' mb' lines,
      modebufFlushOnce env ch mb = some (ch', mb', lines) → mb'.args ≠ [] → FlushIntOk env n ch' mb'

/-- The condition on a call: what it prints meets the condition. -/
def CallOk (env : FlushEnv) (ch : Chan) (mb : ModeBuf) : Call → Prop
  | .arg dir a => maxModeParams - (if mb.dest.deop then 1 else 0) ≤ mb.args.length + 1 →
      FlushOk env ch { mb with args := mb.args ++ [(dir, a)] }
  | .flush => FlushIntOk env (mb.args.length + 1) ch mb
  | _ => True

/-- The condition on a sequence of calls. -/
def CallsOk (env : FlushEnv) : Chan → ModeBuf → List Call → Prop
  | _, _, [] => True
  | ch, mb, c :: calls => CallOk env ch mb c ∧
      ∀ ch' mb' lines, c.run env ch mb = some (ch', mb', lines) → CallsOk env ch' mb' calls

/-- A buffer between two calls: it is built by them and has room for a change. `modebuf_mode_uint` -/
structure ModeBuf.Open (mb : ModeBuf) : Prop extends mb.Built where
  room : mb.args.length < maxModeParams

/-- What a call gives: no failure, well-formed lines, the same channel name, and an open buffer. -/
def GoodResult (env : FlushEnv) (chname : Str) (r : Option (Chan × ModeBuf × List ServerLine)) :
    Prop :=
  ∃ ch mb lines, r = some (ch, mb, lines) ∧ (∀ l ∈ lines, WellFormed env l) ∧ ch.chname = chname ∧ mb.Open

lemma modebufFlushInt_spec {n : ℕ} {mb : ModeBuf} (hok : FlushIntOk env n ch mb)
    (hb : mb.Built) (hc : IsWord ch.chname) (hn : mb.args.length < n) : ∃ ch' mb' lines,
    modebufFlushInt env true n ch mb = some (ch', mb', lines) ∧ (∀ l ∈ lines, WellFormed env l) ∧ ch'.chname =
    ch.chname ∧ mb'.Built ∧ mb'.args = [] := by
  induction n generalizing ch mb with
  | zero => exact absurd hn (Nat.not_lt_zero _)
  | succ n ih =>
    obtain ⟨hpass, hrest⟩ := hok
    obtain ⟨ch₁, mb₁, lines, hrun, hlines, hname, hb₁, hless, hnil⟩ := modebufFlushOnce_spec hpass hb hc
    by_cases hargs : mb₁.args = []
    · refine ⟨ch₁, mb₁, lines, ?_, hlines, hname, hb₁, hargs⟩
      simp [modebufFlushInt, hrun, hargs]
    · have hne : mb.args ≠ [] := fun e => hargs (hnil e)
      have hlt := hless hne
      obtain ⟨ch₂, mb₂, lines', hrun', hlines', hname', hb₂, hnil₂⟩ :=
        ih (hrest _ _ _ hrun hargs) hb₁ (hname ▸ hc) (by omega)
      refine ⟨ch₂, mb₂, lines ++ lines', ?_, ?_, hname'.trans hname, hb₂, hnil₂⟩
      · simp [modebufFlushInt, hrun, hargs, hrun']
      · exact fun l hl => (mem_append.1 hl).elim (hlines l) (hlines' l)

lemma modebufArg_good {mb : ModeBuf} (ho : mb.Open) (hc : IsWord ch.chname) {a : ModeArg}
    (hok : CallOk env ch mb (.arg dir a)) : GoodResult env ch.chname (modebufArg env ch mb dir a) := by
  -- The removal of a limit or of a redirect is kept as a flag.
  have hrem : ∀ f, f ∈ insert ModeFlag.limit (insert .redirect modebufFlags) →
      GoodResult env ch.chname (some (ch, { mb with rem := insert f mb.rem }, [])) := fun f hf =>
    ⟨_, _, _, rfl, by simp, rfl, ⟨ho.add, Finset.insert_subset hf ho.rem, ho.args⟩, ho.room⟩
  have happend : GoodResult env ch.chname
      (if maxModeParams - (if mb.dest.deop then 1 else 0) ≤ (mb.args ++ [(dir, a)]).length then
        modebufFlushInt env false 1 ch { mb with args := mb.args ++ [(dir, a)] }
      else some (ch, { mb with args := mb.args ++ [(dir, a)] }, [])) := by
    have hroom := ho.room
    have hb : ModeBuf.Built { mb with args := mb.args ++ [(dir, a)] } :=
      ⟨ho.add, ho.rem, by simp only [length_append, List.length_singleton]; omega⟩
    by_cases hfull : maxModeParams - (if mb.dest.deop then 1 else 0) ≤ (mb.args ++ [(dir, a)]).length
    · obtain ⟨ch₁, mb₁, lines, hrun, hlines, hname, hb₁, hless, -⟩ :=
        modebufFlushOnce_spec (hok (by simpa using hfull)) hb hc
      have hlt := hless (by simp)
      simp only [length_append, List.length_singleton] at hlt
      rw [if_pos hfull]
      refine ⟨ch₁, mb₁, lines, ?_, hlines, hname, hb₁, by omega⟩
      simp [modebufFlushInt, hrun]
    · rw [if_neg hfull]
      refine ⟨_, _, _, rfl, by simp, rfl, hb, ?_⟩
      show (mb.args ++ [(dir, a)]).length < maxModeParams
      omega
  unfold modebufArg
  split
  · exact hrem .limit (by decide)
  · exact hrem .redirect (by decide)
  · exact happend

lemma Call.run_good {mb : ModeBuf} (ho : mb.Open) (hc : IsWord ch.chname)
    {c : Call} (hok : CallOk env ch mb c) : GoodResult env ch.chname (c.run env ch mb) := by
  cases c with
  | mode dir mode =>
    refine ⟨_, _, _, rfl, by simp, rfl, ?_⟩
    have hm : mode ∩ modebufFlags ⊆ modebufFlags := Finset.inter_subset_right
    have hm' : modebufFlags ⊆ insert ModeFlag.limit (insert .redirect modebufFlags) := by decide
    cases dir with
    | add =>
      exact ⟨⟨Finset.union_subset ho.add hm, Finset.sdiff_subset.trans ho.rem, ho.args⟩, ho.room⟩
    | del =>
      exact ⟨⟨Finset.sdiff_subset.trans ho.add, Finset.union_subset ho.rem (hm.trans hm'), ho.args⟩, ho.room⟩
  | exmode dir mode =>
    refine ⟨_, _, _, rfl, by simp, rfl, ?_⟩
    cases dir <;> exact ⟨⟨ho.add, ho.rem, ho.args⟩, ho.room⟩
  | arg dir a => exact modebufArg_good ho hc hok
  | flush =>
    obtain ⟨ch₁, mb₁, lines, hrun, hlines, hname, hb₁, hnil⟩ :=
      modebufFlushInt_spec hok ho.toBuilt hc (Nat.lt_succ_self _)
    exact ⟨ch₁, mb₁, lines, hrun, hlines, hname, hb₁, by rw [hnil]; decide⟩
  | dest dest => exact ⟨_, _, _, rfl, by simp, rfl, ⟨ho.add, ho.rem, ho.args⟩, ho.room⟩
  | chan chan => exact ⟨_, _, _, rfl, by simp, rfl, ho⟩

lemma runCalls_good {mb : ModeBuf} (ho : mb.Open) (hc : IsWord ch.chname) {calls : List Call}
    (hok : CallsOk env ch mb calls) : GoodResult env ch.chname (runCalls env ch mb calls) := by
  induction calls generalizing ch mb with
  | nil => exact ⟨ch, mb, [], rfl, by simp, rfl, ho⟩
  | cons c calls ih =>
    obtain ⟨hcall, hrest⟩ := hok
    obtain ⟨ch₁, mb₁, lines, hrun, hlines, hname, ho₁⟩ := Call.run_good ho hc hcall
    obtain ⟨ch₂, mb₂, lines', hrun', hlines', hname', ho₂⟩ := ih ho₁ (hname ▸ hc) (hrest _ _ _ hrun)
    refine ⟨ch₂, mb₂, lines ++ lines', ?_, ?_, hname'.trans hname, ho₂⟩
    · simp [runCalls, hrun, hrun']
    · exact fun l hl => (mem_append.1 hl).elim (hlines l) (hlines' l)

/-- **Every MODE line is well formed**: in every sequence of calls on a buffer, for every destination, if each
pass of the printing meets the condition, the run does not fail and every MODE line for servers is read by the
receiver with each letter's own argument and with the timestamp as the last word. -/
theorem runCalls_wellFormed (env : FlushEnv) (ch : Chan) (hc : IsWord ch.chname) (dest : Dest)
    (calls : List Call) (hok : CallsOk env ch (modebufInit ch.chname dest) calls) :
    ∃ ch' mb' lines, runCalls env ch (modebufInit ch.chname dest) calls = some (ch', mb', lines) ∧
        ∀ l ∈ lines, WellFormed env l := by
  have ho : (modebufInit ch.chname dest).Open :=
    ⟨⟨by simp [modebufInit], by simp [modebufInit], by simp [modebufInit]⟩,
      by simp [modebufInit, maxModeParams]⟩
  obtain ⟨ch', mb', lines, hrun, hlines, -⟩ := runCalls_good ho hc hok
  exact ⟨ch', mb', lines, hrun, hlines⟩

/-- The server `AB` and its operator `ABAAA`, who changes a channel. -/
def sampleEnv : FlushEnv where
  me := "AB".toList
  source := ⟨"oper".toList, "ABAAA".toList, by decide, by decide, by decide⟩
  from_ := "ABAAA".toList
  connectOplevels := true
  joinOnRemovedelay := false
  me_word := by decide
  from_word := by decide

def sampleChan : Chan where
  chname := "#c".toList
  creationtime := 1000000000
  mode := {.limit}
  exmode := ∅
  limit := 5
  key := none
  upass := none
  apass := none
  redir := none
  members := []
  banlist := []
  exceptlist := []

/-- A limit that is set and printed meets the condition. `modebuf_flush_int`. -/
theorem runCalls_wellFormed_limit : ∃ ch' mb' lines,
    runCalls sampleEnv sampleChan (modebufInit sampleChan.chname ⟨true, false, false, false, false⟩)
        [.arg .add (.uint 5), .flush] = some (ch', mb', lines) ∧
      ∀ l ∈ lines, WellFormed sampleEnv l := by
  apply runCalls_wellFormed sampleEnv sampleChan (by decide)
  refine ⟨fun h => absurd h (by decide), fun ch mb lines h => ?_⟩
  obtain ⟨rfl, rfl, rfl⟩ : ch = sampleChan ∧ mb = ⟨∅, ∅, ∅, ∅, ⟨true, false, false, false, false⟩,
      [(.add, .uint 5)]⟩ ∧ lines = [] := by
    have h := some.inj h
    exact ⟨(congrArg Prod.fst h).symm, (congrArg (·.2.1) h).symm, (congrArg (·.2.2) h).symm⟩
  have hok : FlushOk sampleEnv sampleChan ⟨∅, ∅, ∅, ∅, ⟨true, false, false, false, false⟩,
      [(.add, .uint 5)]⟩ := by
    refine ⟨fun _ _ => by decide, fun _ _ _ => ⟨fun hb => absurd hb (by decide), ?_, ?_, ?_⟩⟩
    · intro n hn
      have hn : (Dir.add, ModeArg.uint n) ∈ [(Dir.add, ModeArg.uint 5)] := hn
      rw [List.mem_singleton, Prod.mk.injEq, ModeArg.uint.injEq] at hn
      rw [hn.2]
      rfl
    · exact .inr (Or.inr (Or.inl (by simp)))
    · decide
  have hb : ModeBuf.Built ⟨∅, ∅, ∅, ∅, ⟨true, false, false, false, false⟩, [(.add, .uint 5)]⟩ :=
    ⟨by simp, by simp, by decide⟩
  refine ⟨⟨hok, fun ch mb lines hrun hne => ?_⟩, fun _ _ _ _ => trivial⟩
  obtain ⟨ch', mb', lines', hrun', -, -, -, hless, -⟩ :=
    modebufFlushOnce_spec hok hb (show IsWord sampleChan.chname by decide)
  obtain ⟨-, rfl, -⟩ := Prod.mk.inj (some.inj (hrun.symm.trans hrun'))
  exact absurd (List.eq_nil_of_length_eq_zero (Nat.lt_one_iff.1 (hless (by simp)))) hne

/-- **The bounce of a removed limit** is printed as `+l` without an argument: the receiver takes the timestamp
for the limit, and no word is left for the timestamp. -/
theorem bounce_of_limit_removal : ∃ ch' mb' l,
    runCalls sampleEnv sampleChan (modebufInit sampleChan.chname ⟨true, false, false, true, false⟩)
        [.arg .del (.uint 5), .flush] = some (ch', mb', [l]) ∧
      l.text = "AB M #c +l 1000000000".toList ∧
      readModes .add "+l".toList ["1000000000".toList] =
        some ([(.add, 'l', "1000000000".toList)], []) ∧ ¬ WellFormed sampleEnv l := by
  refine ⟨_, _, _, rfl, by decide, by decide, fun h => ?_⟩
  obtain ⟨ch, mb, k, -, letters, args, hp, hr⟩ := h rfl
  have hpar : messageParams "AB M #c +l 1000000000".toList =
      ["#c".toList, "+l".toList, "1000000000".toList] := by decide
  have hp : ["#c".toList, "+l".toList, "1000000000".toList] = ch.chname :: letters :: args := hpar.symm.trans hp
  obtain ⟨-, rfl, rfl⟩ : _ ∧ "+l".toList = letters ∧ ["1000000000".toList] = args := by
    simpa using hp
  have h0 : readModes .add "+l".toList ["1000000000".toList] =
      some ([(.add, 'l', "1000000000".toList)], []) := by decide
  rw [h0, Option.some.injEq, Prod.mk.injEq] at hr
  exact absurd hr.2 (by simp)

end Nefarious.Channel
