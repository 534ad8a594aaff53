import Nefarious.Message

/-!
# Reading a line

`parse_client` and `parse_server` read a line in place: a cursor goes through the buffer, blanks are overwritten
with NUL, and the parameters are positions in the buffer.

Names: `parse.c`.
-/

namespace Nefarious.Parse

open List (append_assoc append_nil length_cons mem_cons_self)

/-! ### Cursors -/

/-- The end of a text. C language. -/
def nul : Char := '\x00'

/-- The character here. C language. -/
def cur (s : Str) : Char := s.headD nul

/-- Whether a word goes on. `parse_server` (`*s != ' ' && *s`). -/
def inWord (c : Char) : Bool := c ≠ ' ' && c ≠ nul

/-- The text that starts here. C language. -/
def cstr (s : Str) : Str := s.takeWhile (· ≠ nul)

/-- A pointer into the buffer: what is before it, and what is from it on. `parse_server`. -/
structure Cursor where
  before : Str
  s : Str

namespace Cursor

def buffer (k : Cursor) : Str := k.before ++ k.s

def pos (k : Cursor) : ℕ := k.before.length

/-- Go on while there are such characters. `parse_server`. -/
def skip (k : Cursor) (p : Char → Bool) : Cursor := ⟨k.before ++ k.s.takeWhile p, k.s.dropWhile p⟩

/-- One character on. `parse_server`. -/
def next (k : Cursor) : Cursor := ⟨k.before ++ k.s.take 1, k.s.drop 1⟩

/-- Overwrite the blanks. `parse_server` ("Clean out *all* blanks"). -/
def blanks (k : Cursor) : Cursor :=
  ⟨k.before ++ List.replicate (k.s.takeWhile (· = ' ')).length nul, k.s.dropWhile (· = ' ')⟩

end Cursor

lemma cur_dropWhile (s : Str) : cur (s.dropWhile (· = ' ')) ≠ ' ' := by
  induction s with
  | nil => decide
  | cons c s ih =>
    by_cases hc : c = ' '
    · rw [List.dropWhile_cons_of_pos (by simpa using hc)]
      exact ih
    · rw [List.dropWhile_cons_of_neg (by simpa using hc)]
      exact hc

variable {s w : Str}

lemma length_word_lt (h : cur (s.dropWhile (· = ' ')) ≠ nul) :
    ((s.dropWhile (· = ' ')).dropWhile inWord).length < s.length := by
  have hblank := cur_dropWhile s
  have hle : (s.dropWhile (· = ' ')).length ≤ s.length := List.length_dropWhile_le _ s
  refine Nat.lt_of_lt_of_le ?_ hle
  generalize s.dropWhile (· = ' ') = t at h hblank
  cases t with
  | nil => exact absurd rfl h
  | cons c t =>
    have hin : inWord c = true := Bool.and_eq_true_iff.mpr ⟨decide_eq_true hblank, decide_eq_true h⟩
    rw [List.dropWhile_cons_of_pos hin]
    exact Nat.lt_succ_of_le (List.length_dropWhile_le inWord t)

/-- Find the parameters: the buffer that is left, and where they are. Behind a colon, the rest is one parameter;
a numeric keeps the colon. `parse_client`, `parse_server`. -/
def split (numeric : Bool) (paramcount i : ℕ) (k : Cursor) : Str × List ℕ :=
  if h : cur k.blanks.s = nul then (k.blanks.buffer, [])
  else if cur k.blanks.s = ':' then (k.blanks.buffer, [if numeric then k.blanks.pos else k.blanks.pos + 1])
  else if paramcount ≤ i + 1 then (k.blanks.buffer, [k.blanks.pos])
  else
    let r := split numeric paramcount (i + 1) (k.blanks.skip inWord)
    (r.1, k.blanks.pos :: r.2)
termination_by k.s.length
decreasing_by exact length_word_lt h

/-- The texts of the parameters. `parse_client`, `parse_server`. -/
def splitTexts (numeric : Bool) (paramcount i : ℕ) (s : Str) : List Str :=
  if h : cur (s.dropWhile (· = ' ')) = nul then []
  else if cur (s.dropWhile (· = ' ')) = ':' then
    [cstr (if numeric then s.dropWhile (· = ' ') else (s.dropWhile (· = ' ')).drop 1)]
  else if paramcount ≤ i + 1 then [cstr (s.dropWhile (· = ' '))]
  else (s.dropWhile (· = ' ')).takeWhile inWord ::
    splitTexts numeric paramcount (i + 1) ((s.dropWhile (· = ' ')).dropWhile inWord)
termination_by s.length
decreasing_by exact length_word_lt h

/-! ### What the positions point at -/

lemma cstr_eq_nil (h : cur s = nul) : cstr s = [] := by
  cases s with
  | nil => rfl
  | cons c s =>
    have hc : c = nul := h
    rw [hc]
    rfl

lemma cstr_append {t : Str} (hw : ∀ c ∈ w, inWord c = true) (ht : cstr t = []) : cstr (w ++ t) = w := by
  have hall : ∀ c ∈ w, decide (c ≠ nul) = true := by
    intro c hc
    have hin := hw c hc
    unfold inWord at hin
    exact (Bool.and_eq_true_iff.mp hin).2
  unfold cstr at ht ⊢
  rw [List.takeWhile_append_of_pos hall, ht, append_nil]

lemma inWord_cur_dropWhile (s : Str) : inWord (cur (s.dropWhile inWord)) = false := by
  induction s with
  | nil => rfl
  | cons c s ih =>
    by_cases hc : inWord c = true
    · rw [List.dropWhile_cons_of_pos hc]
      exact ih
    · rw [List.dropWhile_cons_of_neg hc]
      exact Bool.eq_false_of_not_eq_true hc

lemma cstr_blanks (h : inWord (cur s) = false) (u : Str) :
    cur s = nul ∨ cstr (List.replicate (s.takeWhile (· = ' ')).length nul ++ u) = [] := by
  cases s with
  | nil => exact .inl rfl
  | cons c s =>
    by_cases hblank : c = ' '
    · subst hblank
      exact .inr rfl
    · refine .inl ?_
      by_contra hne
      have hc : c ≠ nul := hne
      exact absurd h (by simp [inWord, cur, hblank, hc])

lemma blanks_of_nul {k : Cursor} (h : cur k.s = nul) : k.blanks = k := by
  obtain ⟨before, s⟩ := k
  cases s with
  | nil => exact congrArg (Cursor.mk · []) (append_nil before)
  | cons c s =>
    have hc : c = nul := h
    subst hc
    exact congrArg (Cursor.mk · (nul :: s)) (append_nil before)

lemma split_buffer (numeric : Bool) (paramcount i : ℕ) (k : Cursor) :
    ∃ t, (split numeric paramcount i k).1 = k.before ++ t ∧ (inWord (cur k.s) = false → cstr t = []) := by
  have hplain : ∀ k : Cursor, ∃ t, k.blanks.buffer = k.before ++ t ∧ (inWord (cur k.s) = false → cstr t = []) := by
    intro k
    by_cases hnul : cur k.s = nul
    · rw [blanks_of_nul hnul]
      exact ⟨k.s, rfl, fun _ => cstr_eq_nil hnul⟩
    · refine ⟨_, append_assoc .., fun hin => ?_⟩
      exact (cstr_blanks hin _).resolve_left hnul
  induction i, k using split.induct numeric paramcount with
  | case1 i k hend =>
    rw [split, dif_pos hend]
    exact hplain k
  | case2 i k hend hcolon =>
    rw [split, dif_neg hend, if_pos hcolon]
    exact hplain k
  | case3 i k hend hcolon hlimit =>
    rw [split, dif_neg hend, if_neg hcolon, if_pos hlimit]
    exact hplain k
  | case4 i k hend hcolon hlimit ih =>
    rw [split, dif_neg hend, if_neg hcolon, if_neg hlimit]
    obtain ⟨t, ht, -⟩ := ih
    refine ⟨_, ht.trans ((append_assoc ..).trans (append_assoc ..)), fun hin => ?_⟩
    refine (cstr_blanks hin _).resolve_left fun hnul => hend ?_
    rw [blanks_of_nul hnul]
    exact hnul

/-- **What the positions point at** when all is done are the texts of the line. -/
theorem split_texts (numeric : Bool) (paramcount i : ℕ) (k : Cursor) :
    (split numeric paramcount i k).2.map (fun p => cstr ((split numeric paramcount i k).1.drop p)) =
      splitTexts numeric paramcount i k.s := by
  have hs : ∀ k : Cursor, k.s.dropWhile (· = ' ') = k.blanks.s := fun _ => rfl
  have hpos : ∀ k : Cursor, k.buffer.drop k.pos = k.s := fun k => List.drop_left
  induction i, k using split.induct numeric paramcount with
  | case1 i k hend =>
    rw [split, dif_pos hend, splitTexts, hs k, dif_pos hend]
    rfl
  | case2 i k hend hcolon =>
    rw [split, dif_neg hend, if_pos hcolon, splitTexts, hs k, dif_neg hend, if_pos hcolon]
    cases numeric with
    | true => exact congrArg (fun s => [cstr s]) (hpos k.blanks)
    | false =>
      refine congrArg (fun s => [cstr s]) ?_
      exact (List.drop_drop ..).symm.trans (congrArg (List.drop 1) (hpos k.blanks))
  | case3 i k hend hcolon hlimit =>
    rw [split, dif_neg hend, if_neg hcolon, if_pos hlimit, splitTexts, hs k, dif_neg hend, if_neg hcolon, if_pos hlimit]
    exact congrArg (fun s => [cstr s]) (hpos k.blanks)
  | case4 i k hend hcolon hlimit ih =>
    rw [split, dif_neg hend, if_neg hcolon, if_neg hlimit, splitTexts, hs k, dif_neg hend, if_neg hcolon, if_neg hlimit]
    obtain ⟨t, ht, hnil⟩ := split_buffer numeric paramcount (i + 1) (k.blanks.skip inWord)
    refine congrArg₂ List.cons ?_ ih
    have hdrop : (split numeric paramcount (i + 1) (k.blanks.skip inWord)).1.drop k.blanks.pos =
        k.blanks.s.takeWhile inWord ++ t := by
      rw [ht]
      exact (congrArg (List.drop k.blanks.pos) (append_assoc ..)).trans List.drop_left
    refine (congrArg cstr hdrop).trans ?_
    exact cstr_append (fun c hc => List.mem_takeWhile_imp hc) (hnil (inWord_cur_dropWhile k.blanks.s))

/-- **How many parameters there are**: not more than the limit, or one. -/
theorem length_split (numeric : Bool) (paramcount i : ℕ) (k : Cursor) :
    (split numeric paramcount i k).2.length ≤ max (paramcount - i) 1 := by
  induction i, k using split.induct numeric paramcount with
  | case1 i k hend =>
    rw [split, dif_pos hend]
    exact Nat.zero_le _
  | case2 i k hend hcolon =>
    rw [split, dif_neg hend, if_pos hcolon]
    exact le_max_right _ 1
  | case3 i k hend hcolon hlimit =>
    rw [split, dif_neg hend, if_neg hcolon, if_pos hlimit]
    exact le_max_right _ 1
  | case4 i k hend hcolon hlimit ih =>
    rw [split, dif_neg hend, if_neg hcolon, if_neg hlimit]
    dsimp only [length_cons]
    omega

/-! ### Joined parameters -/

/-- Parameters, each behind one blank and more, the last one with a colon. `parse_server`. -/
def joined : List (ℕ × Str) → Str
  | [] => []
  | [(more, text)] => ' ' :: List.replicate more ' ' ++ ':' :: text
  | (more, text) :: ps => ' ' :: List.replicate more ' ' ++ text ++ joined ps

/-- Parameters that can be joined: all but the last are words, and none of them has a NUL. -/
structure Joinable (ps : List (ℕ × Str)) : Prop where
  words : ∀ p ∈ ps.dropLast, IsWord p.2
  clean : ∀ p ∈ ps, nul ∉ p.2

lemma dropWhile_blanks (more : ℕ) (h : cur s ≠ ' ') :
    (' ' :: List.replicate more ' ' ++ s).dropWhile (· = ' ') = s := by
  have hall : ∀ c ∈ ' ' :: List.replicate more ' ', decide (c = ' ') = true := by
    intro c hc
    apply decide_eq_true
    rcases List.mem_cons.mp hc with rfl | hc
    · rfl
    · exact List.eq_of_mem_replicate hc
  rw [List.dropWhile_append_of_pos hall]
  cases s with
  | nil => rfl
  | cons c s =>
    have hc : c ≠ ' ' := h
    exact List.dropWhile_cons_of_neg (by simpa using hc)

lemma cstr_text {t tail : Str} (ht : nul ∉ t) (htail : cur tail = nul) : cstr (t ++ tail) = t := by
  have hall : ∀ c ∈ t, decide (c ≠ nul) = true := fun c hc => decide_eq_true fun he => ht (he ▸ hc)
  have hnil : tail.takeWhile (· ≠ nul) = [] := cstr_eq_nil htail
  unfold cstr
  rw [List.takeWhile_append_of_pos hall, hnil, append_nil]

lemma takeWhile_inWord (hw : ' ' ∉ w) (hnul : nul ∉ w) (hs : inWord (cur s) = false) :
    (w ++ s).takeWhile inWord = w ∧ (w ++ s).dropWhile inWord = s := by
  have hall : ∀ c ∈ w, inWord c = true := by
    intro c hc
    refine Bool.and_eq_true_iff.mpr ⟨decide_eq_true ?_, decide_eq_true ?_⟩
    · exact fun he => hw (he ▸ hc)
    · exact fun he => hnul (he ▸ hc)
  rw [List.takeWhile_append_of_pos hall, List.dropWhile_append_of_pos hall]
  cases s with
  | nil => exact ⟨append_nil w, rfl⟩
  | cons c s =>
    have hc : ¬ inWord c = true := by simpa [cur] using hs
    rw [List.takeWhile_cons_of_neg hc, List.dropWhile_cons_of_neg hc]
    exact ⟨append_nil w, rfl⟩

lemma cur_word (hw : IsWord w) (hnul : nul ∉ w) :
    cur (w ++ s) ≠ ' ' ∧ cur (w ++ s) ≠ nul ∧ cur (w ++ s) ≠ ':' := by
  obtain ⟨c, w', rfl⟩ := List.exists_cons_of_ne_nil hw.ne_nil
  refine ⟨fun he => hw.blank ?_, fun he => hnul ?_, fun he => hw.colon ?_⟩
  · exact (show c = ' ' from he) ▸ mem_cons_self
  · exact (show c = nul from he) ▸ mem_cons_self
  · exact congrArg some (show c = ':' from he)

lemma inWord_cur_joined (ps : List (ℕ × Str)) {tail : Str} (htail : cur tail = nul) :
    inWord (cur (joined ps ++ tail)) = false := by
  match ps with
  | [] => exact (congrArg inWord htail).trans rfl
  | [_] => rfl
  | _ :: _ :: _ => rfl

lemma splitTexts_joined {paramcount : ℕ} {tail : Str} (htail : cur tail = nul) :
    (ps : List (ℕ × Str)) → ∀ {i : ℕ}, Joinable ps → i + ps.length ≤ paramcount →
      splitTexts false paramcount i (joined ps ++ tail) = ps.map (·.2)
  | [], i, _, _ => by
    have hsame : tail.dropWhile (· = ' ') = tail := by
      cases tail with
      | nil => rfl
      | cons c tail =>
        have hc : c = nul := htail
        subst hc
        rfl
    rw [splitTexts, joined, List.nil_append, hsame, dif_pos htail]
    rfl
  | [(more, text)], i, hps, _ => by
    have hblanks : (joined [(more, text)] ++ tail).dropWhile (· = ' ') = ':' :: (text ++ tail) := by
      rw [joined, append_assoc]
      exact dropWhile_blanks more (show ':' ≠ ' ' by decide)
    have hcolon : cur (':' :: (text ++ tail)) = ':' := rfl
    have hend : ¬ cur (':' :: (text ++ tail)) = nul := show ¬ ':' = nul by decide
    rw [splitTexts, hblanks, dif_neg hend, if_pos hcolon, if_neg Bool.false_ne_true]
    exact congrArg (fun t => [t]) (cstr_text (hps.clean _ mem_cons_self) htail)
  | (more, text) :: p :: ps, i, hps, hlen => by
    have hword : IsWord text := hps.words (more, text) mem_cons_self
    have hnul : nul ∉ text := hps.clean (more, text) mem_cons_self
    have hnext : Joinable (p :: ps) :=
      ⟨fun q hq => hps.words q (List.mem_cons_of_mem _ hq), fun q hq => hps.clean q (List.mem_cons_of_mem _ hq)⟩
    obtain ⟨hblank, hend, hcolon⟩ := cur_word (s := joined (p :: ps) ++ tail) hword hnul
    obtain ⟨htake, hdrop⟩ := takeWhile_inWord hword.blank hnul (inWord_cur_joined (p :: ps) htail)
    have hblanks : (joined ((more, text) :: p :: ps) ++ tail).dropWhile (· = ' ') =
        text ++ (joined (p :: ps) ++ tail) := by
      have hjoined : joined ((more, text) :: p :: ps) =
          ' ' :: List.replicate more ' ' ++ text ++ joined (p :: ps) := rfl
      rw [hjoined, append_assoc, append_assoc]
      exact dropWhile_blanks more hblank
    have hlimit : ¬ paramcount ≤ i + 1 := by
      simp only [length_cons] at hlen
      omega
    rw [splitTexts, hblanks, dif_neg hend, if_neg hcolon, if_neg hlimit, htake, hdrop,
      splitTexts_joined htail (p :: ps) hnext (by simp only [length_cons] at hlen ⊢; omega)]
    rfl

end Nefarious.Parse
