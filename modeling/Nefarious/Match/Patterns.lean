import Nefarious.Match
import Nefarious.Lib.Glob

/-!
# Masks as patterns

A mask is a pattern: a wildcard is a star or a mark, and any other character is a letter up to its case.

Names: `match.c`.
-/

namespace Nefarious

open Option (mem_def some.inj)
open List (append_assoc append_nil cons_append cons_ne_nil drop_suffix exists_cons_of_ne_nil length_append
  map_cons map_nil mem_append mem_cons_of_mem mem_cons_self suffix_append suffix_cons suffix_nil suffix_refl)

open Lib.Glob

/-! ### Masks as patterns -/

/-- The symbol that a character of a mask is, where nothing is escaped. `match`. -/
def tok (c : Char) : Tok Char := if c = '*' then .star else if c = '?' then .any else .lit (toLower c)

/-- The pattern that a mask is. `match`. -/
def toks (mask : Str) : List (Tok Char) := mask.map tok

/-- The name is one of the pattern that the mask is. `match`. -/
def Glob (mask name : Str) : Prop := Matches (toks mask) (name.map toLower)

/-- It is one with a star in front of the mask. `match`. -/
def GlobStar (mask name : Str) : Prop := Matches (.star :: toks mask) (name.map toLower)

variable {c d : Char} {name m n : Str}

lemma isWild_eq_true_iff : isWild c = true ↔ c = '*' ∨ c = '?' := by
  rw [isWild, decide_eq_true_iff]

lemma tok_of_not_isWild (hc : isWild c = false) : tok c = .lit (toLower c) := by
  have hwild : ¬(c = '*' ∨ c = '?') := fun h => Bool.eq_false_iff.mp hc (isWild_eq_true_iff.mpr h)
  rw [not_or] at hwild
  rw [tok, if_neg hwild.1, if_neg hwild.2]

lemma tok_eq_star_iff : tok c = .star ↔ c = '*' := by
  unfold tok
  split
  · rename_i h
    exact ⟨fun _ => h, fun _ => rfl⟩
  · rename_i h
    split
    · exact ⟨nofun, fun e => absurd e h⟩
    · exact ⟨nofun, fun e => absurd e h⟩

lemma glob_nil_iff : Glob [] name ↔ name = [] := by
  rw [Glob, toks, map_nil, matches_nil_iff, List.map_eq_nil_iff]

lemma not_glob_cons_nil (hc : c ≠ '*') : ¬Glob (c :: m) [] :=
  not_matches_nil fun h => hc (tok_eq_star_iff.mp h)

lemma glob_cons_iff (hc : isWild c = false) : Glob (c :: m) (d :: n) ↔ toLower c = toLower d ∧ Glob m n := by
  have htok := tok_of_not_isWild hc
  rw [Glob, toks, map_cons, htok, map_cons, matches_cons_iff (show Tok.lit _ ≠ _ by nofun)]
  rfl

lemma glob_any_iff : Glob ('?' :: m) (d :: n) ↔ Glob m n := by
  have htok : tok '?' = .any := by decide
  rw [Glob, toks, map_cons, htok, map_cons, matches_cons_iff (show Tok.any ≠ _ by nofun)]
  exact ⟨fun h => h.2, fun h => ⟨trivial, h⟩⟩

lemma glob_star_iff : Glob ('*' :: m) name ↔ GlobStar m name := Iff.rfl

lemma globStar_iff : GlobStar m name ↔ ∃ u, u <:+ name ∧ Glob m u := by
  unfold GlobStar
  rw [matches_star_iff]
  constructor
  · rintro ⟨u, ⟨t, htu⟩, h⟩
    obtain ⟨t', u', rfl, -, rfl⟩ := List.map_eq_append_iff.mp htu.symm
    exact ⟨u', suffix_append .., h⟩
  · rintro ⟨u, ⟨t, rfl⟩, h⟩
    exact ⟨u.map toLower, ⟨t.map toLower, (List.map_append ..).symm⟩, h⟩

/-! ### Names of a mask -/

/-- A character of a mask that is not escaped, in front of a rest. `match`. -/
def Front (c : Char) (rest : Str → Prop) (name : Str) : Prop :=
  if c = '*' then ∃ u, u <:+ name ∧ rest u
  else ∃ b u, name = b :: u ∧ (c = '?' ∨ toLower c = toLower b) ∧ rest u

/-- The name is one of the mask, in which a backslash makes any character behind it stand for itself. `match`. -/
def InMask : Str → Str → Prop
  | c :: d :: mask => if c = '\\' then fun name => ∃ u, name = d :: u ∧ InMask mask u else Front c (InMask (d :: mask))
  | [c] => Front c (· = [])
  | [] => (· = [])

/-- It is one with a star in front of the mask. `match`. -/
def InStar (mask name : Str) : Prop := ∃ u, u <:+ name ∧ InMask mask u

/-- The character stands for itself up to its case. `match`. -/
def Letter (c : Char) : Prop := isWild c = false ∧ c ≠ '\\'

lemma inMask_cons (hc : c ≠ '\\') : (m : Str) → InMask (c :: m) = Front c (InMask m)
  | [] => rfl
  | d :: m => by rw [InMask, if_neg hc]

lemma inMask_escape : InMask ('\\' :: c :: m) name ↔ ∃ u, name = c :: u ∧ InMask m u := by
  rw [InMask, if_pos rfl]

lemma inMask_star_iff : InMask ('*' :: m) name ↔ InStar m name := by
  rw [inMask_cons (by decide), Front, if_pos rfl]
  rfl

lemma inMask_any_iff : InMask ('?' :: m) (d :: n) ↔ InMask m n := by
  rw [inMask_cons (by decide), Front, if_neg (by decide)]
  constructor
  · rintro ⟨b, u, h, -, hu⟩
    injection h with _ h
    exact h ▸ hu
  · intro h
    exact ⟨d, n, rfl, Or.inl rfl, h⟩

lemma not_inMask_cons_nil (hc : c ≠ '\\') (hstar : c ≠ '*') : ¬InMask (c :: m) [] := by
  rw [inMask_cons hc, Front, if_neg hstar]
  rintro ⟨b, u, h, -⟩
  exact (nomatch h)

lemma Letter.not_nil (hc : Letter c) : ¬InMask (c :: m) [] := by
  refine not_inMask_cons_nil hc.2 ?_
  rintro rfl
  exact (nomatch hc.1)

lemma Letter.cons_iff (hc : Letter c) : InMask (c :: m) (d :: n) ↔ toLower c = toLower d ∧ InMask m n := by
  have hwild : ¬(c = '*' ∨ c = '?') := fun h => Bool.eq_false_iff.mp hc.1 (isWild_eq_true_iff.mpr h)
  rw [not_or] at hwild
  rw [inMask_cons hc.2, Front, if_neg hwild.1]
  constructor
  · rintro ⟨b, u, h, heq, hu⟩
    injection h with hb h
    subst hb h
    exact ⟨heq.resolve_left hwild.2, hu⟩
  · rintro ⟨heq, hu⟩
    exact ⟨d, n, rfl, Or.inr heq, hu⟩

lemma InStar.of_suffix {u : Str} (h : InStar m u) (hu : u <:+ name) : InStar m name := by
  obtain ⟨v, hv, h⟩ := h
  exact ⟨v, hv.trans hu, h⟩

lemma inStar_cons_iff : InStar m (d :: n) ↔ InMask m (d :: n) ∨ InStar m n := by
  constructor
  · rintro ⟨u, hu, h⟩
    obtain rfl | hu := List.suffix_cons_iff.mp hu
    · exact .inl h
    · exact .inr ⟨u, hu, h⟩
  · rintro (h | h)
    · exact ⟨_, suffix_refl _, h⟩
    · exact h.of_suffix (suffix_cons ..)

lemma inStar_star_iff : InStar ('*' :: m) name ↔ InStar m name := by
  constructor
  · rintro ⟨u, hu, h⟩
    exact (inMask_star_iff.mp h).of_suffix hu
  · rintro h
    exact ⟨name, suffix_refl _, inMask_star_iff.mpr h⟩

lemma exists_cons_suffix {u : Str} : (t : Str) → (d : Char) → ∃ b, b :: u <:+ d :: (t ++ u)
  | [], d => ⟨d, suffix_refl _⟩
  | x :: t, d => by
    obtain ⟨b, hb⟩ := exists_cons_suffix t x
    exact ⟨b, hb.trans (suffix_cons ..)⟩

lemma inStar_any_iff : InStar ('?' :: m) (d :: n) ↔ InStar m n := by
  constructor
  · rintro ⟨u, hu, h⟩
    cases u with
    | nil => exact absurd h (not_inMask_cons_nil (by decide) (by decide))
    | cons b u =>
      refine ⟨u, ?_, inMask_any_iff.mp h⟩
      obtain hu | hu := List.suffix_cons_iff.mp hu
      · injection hu with _ hu
        exact hu ▸ suffix_refl _
      · exact (suffix_cons b u).trans hu
  · rintro ⟨u, ⟨t, rfl⟩, h⟩
    -- the mark takes the last character that the star stood for
    obtain ⟨b, hb⟩ := exists_cons_suffix (u := u) t d
    exact ⟨b :: u, hb, inMask_any_iff.mpr h⟩

lemma not_inStar_any_nil : ¬InStar ('?' :: m) [] := by
  rintro ⟨u, hu, h⟩
  rw [suffix_nil.mp hu] at h
  exact not_inMask_cons_nil (by decide) (by decide) h

lemma inMask_iff_glob : (m : Str) → '\\' ∉ m → ∀ {name : Str}, InMask m name ↔ Glob m name
  | [], _, name => by
    rw [glob_nil_iff]
    rfl
  | c :: m, hplain, name => by
    have hc : c ≠ '\\' := fun e => hplain (e ▸ mem_cons_self)
    have ih : ∀ {name : Str}, InMask m name ↔ Glob m name :=
      inMask_iff_glob m fun hmem => hplain (mem_cons_of_mem _ hmem)
    by_cases hstar : c = '*'
    · subst hstar
      rw [inMask_star_iff, glob_star_iff, globStar_iff]
      exact exists_congr fun u => and_congr_right fun _ => ih
    · cases name with
      | nil => exact iff_of_false (not_inMask_cons_nil hc hstar) (not_glob_cons_nil hstar)
      | cons d n =>
        by_cases hmark : c = '?'
        · subst hmark
          rw [inMask_any_iff, glob_any_iff, ih]
        · have hwild : isWild c = false :=
            Bool.eq_false_iff.mpr fun h => (isWild_eq_true_iff.mp h).elim hstar hmark
          rw [Letter.cons_iff ⟨hwild, hc⟩, glob_cons_iff hwild, ih]

/-! ### What `match` finds -/

/-- No wildcard stands in front of a backslash that escapes, and the last backslash escapes a character. `match`. -/
def regular : Str → Bool
  | c :: d :: mask => if c = '\\' then regular mask else !(isWild c && d = '\\') && regular (d :: mask)
  | [c] => c ≠ '\\'
  | [] => true

lemma regular_cons (hc : c ≠ '\\') (h : regular (c :: m) = true) :
    (isWild c = true → m.head? ≠ some '\\') ∧ regular m = true := by
  match m with
  | [] => exact ⟨fun _ => nofun, rfl⟩
  | d :: m =>
    rw [regular, if_neg hc, Bool.and_eq_true] at h
    refine ⟨fun hwild hd => ?_, h.2⟩
    obtain rfl := some.inj hd
    rw [hwild] at h
    exact absurd h.1 (by decide)

lemma regular_of_plain : (m : Str) → '\\' ∉ m → regular m = true
  | [], _ => rfl
  | [c], h => decide_eq_true fun e => h (e ▸ mem_cons_self)
  | c :: d :: m, h => by
    have hc : c ≠ '\\' := fun e => h (e ▸ mem_cons_self)
    have hd : d ≠ '\\' := fun e => h (e ▸ mem_cons_of_mem _ mem_cons_self)
    rw [regular, if_neg hc, regular_of_plain (d :: m) fun hmem => h (mem_cons_of_mem _ hmem)]
    simp [hd]

/-- The wildcards in front of a mask, with a star or none before them. `match`. -/
def InFrom (star : Bool) (m name : Str) : Prop := if star then InStar m name else InMask m name

lemma passWilds_eq_none : (m : Str) → ∀ {n : Str} {star : Bool}, passWilds m n star = none → ¬InFrom star m n
  | [], n, star, h => by simp [passWilds] at h
  | c :: m, n, star, h => by
    simp only [passWilds] at h
    split at h
    · rename_i hc
      subst hc
      have hnot : ¬InStar m n := passWilds_eq_none m h
      cases star with
      | false => exact fun hglob => hnot (inMask_star_iff.mp hglob)
      | true => exact fun hglob => hnot (inStar_star_iff.mp hglob)
    · split at h
      · rename_i hc
        subst hc
        cases n with
        | nil =>
          cases star with
          | false => exact not_inMask_cons_nil (by decide) (by decide)
          | true => exact not_inStar_any_nil
        | cons d n =>
          have hnot := passWilds_eq_none m h
          cases star with
          | false => exact fun hglob => hnot (inMask_any_iff.mp hglob)
          | true => exact fun hglob => hnot (inStar_any_iff.mp hglob)
      · cases h

lemma passWilds_spec : (m : Str) → ∀ {n m' n' : Str} {star star' : Bool},
    passWilds m n star = some (m', n', star') → ∃ k, k ≤ n.length ∧ n' = n.drop k ∧
      (∀ w, InFrom star m w ↔ k ≤ w.length ∧ InFrom star' m' (w.drop k)) ∧ (star' = false → star = false)
  | [], n, m', n', star, star', h => by
    obtain ⟨rfl, rfl, rfl⟩ : [] = m' ∧ n = n' ∧ star = star' := by simpa [passWilds] using h
    exact ⟨0, Nat.zero_le _, rfl, fun w => by simp, id⟩
  | c :: m, n, m', n', star, star', h => by
    simp only [passWilds] at h
    split at h
    · rename_i hc
      subst hc
      obtain ⟨k, hk, hn, hglob, hmarks⟩ := passWilds_spec m h
      refine ⟨k, hk, hn, fun w => ?_, fun hstar => by cases hmarks hstar⟩
      rw [← hglob w]
      cases star with
      | false => exact inMask_star_iff
      | true => exact inStar_star_iff
    · split at h
      · rename_i hc
        subst hc
        cases n with
        | nil => cases h
        | cons d n =>
          obtain ⟨k, hk, hn, hglob, hmarks⟩ := passWilds_spec m h
          refine ⟨k + 1, Nat.succ_le_succ hk, hn, fun w => ?_, hmarks⟩
          cases w with
          | nil =>
            refine iff_of_false ?_ fun h => absurd h.1 (Nat.not_succ_le_zero k)
            cases star with
            | false => exact not_inMask_cons_nil (by decide) (by decide)
            | true => exact not_inStar_any_nil
          | cons e w =>
            rw [List.length_cons, Nat.succ_le_succ_iff, List.drop_succ_cons, ← hglob w]
            cases star with
            | false => exact inMask_any_iff
            | true => exact inStar_any_iff
      · obtain ⟨rfl, rfl, rfl⟩ : c :: m = m' ∧ n = n' ∧ star = star' := by simpa using h
        exact ⟨0, Nat.zero_le _, rfl, fun w => by simp, id⟩

lemma passWilds_letter : (m : Str) → ∀ {n m' n' : Str} {star star' : Bool},
    passWilds m n star = some (m', n', star') → regular m = true → m.head? ≠ some '\\' →
    regular m' = true ∧ ∀ c ∈ m'.head?, Letter c
  | [], n, m', n', star, star', h, _, _ => by
    obtain ⟨rfl, -⟩ : [] = m' ∧ n = n' ∧ star = star' := by simpa [passWilds] using h
    exact ⟨rfl, fun _ hc => by cases hc⟩
  | c :: m, n, m', n', star, star', h, hreg, hhead => by
    have hc : c ≠ '\\' := fun e => hhead (congrArg some e)
    obtain ⟨hnext, hrest⟩ := regular_cons hc hreg
    simp only [passWilds] at h
    split at h
    · rename_i hstar
      exact passWilds_letter m h hrest (hnext (isWild_eq_true_iff.mpr (Or.inl hstar)))
    · rename_i hstar
      split at h
      · rename_i hmark
        have hnext := hnext (isWild_eq_true_iff.mpr (Or.inr hmark))
        split at h
        · cases h
        · exact passWilds_letter m h hrest hnext
      · rename_i hmark
        obtain ⟨rfl, -⟩ : c :: m = m' ∧ n = n' ∧ star = star' := by simpa using h
        refine ⟨hreg, fun d hd => ?_⟩
        obtain rfl : c = d := some.inj hd
        exact ⟨Bool.eq_false_iff.mpr fun hw => (isWild_eq_true_iff.mp hw).elim hstar hmark, hc⟩

/-- Since the last star as many characters of the name have been passed as the passed part of the mask stands
for. Before them some characters were skipped that the mask cannot begin with. `match`. -/
def Aligned (m n mTmp nTmp : Str) : Prop :=
  ∃ d skipped, nTmp = skipped ++ (d ++ n) ∧
    (∀ u, InMask mTmp u → ∃ v w, u = v ++ w ∧ v.length = d.length ∧ InMask m w) ∧
    ∀ a ∈ mTmp.head?, Letter a ∧ ∀ x ∈ skipped, toLower a ≠ toLower x

lemma Aligned.reach {mTmp nTmp u : Str} (h : Aligned m n mTmp nTmp) (hne : mTmp ≠ [])
    (hu : u <:+ nTmp) (hglob : InMask mTmp u) : ∃ w, w <:+ n ∧ InMask m w := by
  obtain ⟨d, skipped, hn, hpassed, hhead⟩ := h
  -- the match cannot begin with a character that was skipped
  have hle : u.length ≤ (d ++ n).length := by
    by_contra hlt
    rw [Nat.not_le] at hlt
    obtain ⟨a, mTmp', ha⟩ := exists_cons_of_ne_nil hne
    obtain ⟨x, u', hx⟩ := List.exists_cons_of_length_pos (Nat.lt_of_le_of_lt (Nat.zero_le _) hlt)
    obtain ⟨hletter, hskip⟩ := hhead a (by rw [ha]; rfl)
    rw [ha, hx, hletter.cons_iff] at hglob
    refine hskip x ?_ hglob.1
    obtain ⟨t, ht⟩ := hu
    have hsuffix : d ++ n <:+ u := by
      have hdn : d ++ n <:+ nTmp := by
        rw [hn]
        exact suffix_append ..
      exact List.suffix_of_suffix_length_le hdn ⟨t, ht⟩ (Nat.le_of_lt hlt)
    obtain ⟨y, hy⟩ := hsuffix
    have hskipped : skipped = t ++ y := by
      rw [hn, ← hy, ← append_assoc] at ht
      exact (List.append_cancel_right ht).symm
    have hypos : y ≠ [] := by
      rintro rfl
      rw [← hy] at hlt
      exact Nat.lt_irrefl _ hlt
    obtain ⟨z, y', rfl⟩ := exists_cons_of_ne_nil hypos
    rw [hx] at hy
    injection hy with hz _
    rw [hskipped, ← hz]
    simp
  obtain ⟨v, w, rfl, hv, hw⟩ := hpassed u hglob
  refine ⟨w, ?_, hw⟩
  have hnTmp : n <:+ nTmp := by
    rw [hn, ← append_assoc]
    exact suffix_append ..
  refine List.suffix_of_suffix_length_le ((suffix_append v w).trans hu) hnTmp ?_
  simp only [length_append] at hle
  omega

/-- What the mask goes on with is passed as well. -/
lemma Aligned.pass {m' n' e mTmp nTmp : Str} (h : Aligned m n mTmp nTmp) (hn : n = e ++ n')
    (hpass : ∀ u, InMask m u → ∃ v w, u = v ++ w ∧ v.length = e.length ∧ InMask m' w) :
    Aligned m' n' mTmp nTmp := by
  obtain ⟨d, skipped, hnt, hpassed, hhead⟩ := h
  refine ⟨d ++ e, skipped, by rw [hnt, hn, append_assoc], fun u hu => ?_, hhead⟩
  obtain ⟨v, w, rfl, hv, hw⟩ := hpassed u hu
  obtain ⟨v', w', rfl, hv', hw'⟩ := hpass w hw
  exact ⟨v ++ v', w', (append_assoc ..).symm, by rw [length_append, length_append, hv, hv'], hw'⟩

namespace MatchState

/-- The name will be found, from here on. `match`. -/
def Found (s : MatchState) : Prop := InMask s.m s.n ∨ ∃ t ∈ s.tmp, InStar t.1 (t.2.drop 1)

/-- The mask is regular, and the place behind the last star is the one to come back to. `match`. -/
structure Sound (s : MatchState) : Prop where
  reg : regular s.m = true
  reg_tmp : ∀ t ∈ s.tmp, regular t.1 = true
  tmp_ne : ∀ t ∈ s.tmp, t.1 ≠ []
  aligned : ∀ t ∈ s.tmp, Aligned s.m s.n t.1 t.2

/-- What a round says is right. `match`. -/
def Answers (found : Prop) : Except ℕ MatchState → Prop
  | .error r => r = 0 ↔ found
  | .ok s => s.Sound ∧ (s.Found ↔ found)

variable {s : MatchState}

lemma Sound.backtrack (h : s.Sound) (hnot : ¬InMask s.m s.n) : Answers s.Found s.backtrack := by
  unfold MatchState.backtrack Found
  cases ht : s.tmp with
  | none => exact iff_of_false (by decide) fun hfound => hfound.elim hnot fun ⟨_, hmem, _⟩ => (nomatch hmem)
  | some t =>
    obtain ⟨mTmp, nTmp⟩ := t
    have hne := h.tmp_ne _ ht
    obtain ⟨d, skipped, -, -, hhead⟩ := h.aligned _ ht
    obtain ⟨a, mTmp', rfl⟩ := exists_cons_of_ne_nil hne
    have ha := (hhead a rfl).1
    have hfound : (InMask s.m s.n ∨ ∃ t ∈ some (a :: mTmp', nTmp), InStar t.1 (t.2.drop 1)) ↔
        InStar (a :: mTmp') (nTmp.drop 1) := by
      simp [hnot]
    rw [hfound]
    simp only
    split
    · rename_i hnil
      refine iff_of_false (by decide) fun hglob => ?_
      rw [hnil] at hglob
      obtain ⟨u, hu, hglob⟩ := hglob
      rw [suffix_nil.mp hu] at hglob
      exact ha.not_nil hglob
    · rename_i hnil
      refine ⟨⟨h.reg_tmp (a :: mTmp', nTmp) ht, ?_, ?_, ?_⟩, ?_⟩
      · intro t ht'
        obtain rfl := some.inj ht'
        exact h.reg_tmp (a :: mTmp', nTmp) ht
      · intro t ht'
        obtain rfl := some.inj ht'
        exact hne
      · intro t ht'
        obtain rfl := some.inj ht'
        exact ⟨[], [], rfl, fun u hu => ⟨[], u, rfl, rfl, hu⟩, fun b hb => ⟨(hhead b hb).1, nofun⟩⟩
      · unfold Found
        obtain ⟨b, n', hb⟩ := exists_cons_of_ne_nil hnil
        simp only [hb, mem_def, Option.some.injEq, exists_eq_left', List.drop_one, List.tail_cons]
        exact inStar_cons_iff.symm

lemma Sound.char (h : s.Sound) (hhead : ∀ c ∈ s.m.head?, Letter c) : Answers s.Found s.char := by
  unfold MatchState.char
  split
  · rename_i hm hn
    refine iff_of_true rfl (Or.inl ?_)
    rw [hm, hn]
    rfl
  · rename_i c m hm hn
    have hc := hhead c (by rw [hm]; rfl)
    refine iff_of_false (by decide) fun hfound => ?_
    obtain ⟨w, hw, hglob⟩ : ∃ w, w <:+ s.n ∧ InMask s.m w := by
      obtain hglob | ⟨t, ht, u, hu, hglob⟩ := hfound
      · exact ⟨s.n, suffix_refl _, hglob⟩
      · exact (h.aligned t ht).reach (h.tmp_ne t ht) (hu.trans (drop_suffix ..)) hglob
    rw [hn, suffix_nil] at hw
    rw [hm, hw] at hglob
    exact hc.not_nil hglob
  · rename_i d n hm hn
    refine h.backtrack ?_
    rw [hm, hn]
    exact cons_ne_nil d n
  · rename_i c m d n hm hn
    have hc := hhead c (by rw [hm]; rfl)
    split
    · rename_i heq
      have hreg := h.reg
      rw [hm] at hreg
      refine ⟨⟨(regular_cons hc.2 hreg).2, h.reg_tmp, h.tmp_ne, fun t ht => ?_⟩, ?_⟩
      · refine (h.aligned t ht).pass (e := [d]) hn fun u hu => ?_
        rw [hm] at hu
        cases u with
        | nil => exact absurd hu hc.not_nil
        | cons e u => exact ⟨[e], u, rfl, rfl, (hc.cons_iff.mp hu).2⟩
      · unfold Found
        rw [hm, hn, hc.cons_iff]
        simp only [heq, true_and]
    · rename_i hne
      refine h.backtrack ?_
      rw [hm, hn, hc.cons_iff]
      exact fun hglob => hne hglob.1

lemma Sound.escape {c : Char} {m : Str} (h : s.Sound) (hm : s.m = '\\' :: c :: m) :
    Answers s.Found (if (c :: m).head? = s.n.head? then .ok ⟨(c :: m).drop 1, s.n.drop 1, s.tmp⟩ else s.backtrack) := by
  split
  · rename_i hhead
    cases hn : s.n with
    | nil =>
      rw [hn] at hhead
      exact (nomatch hhead)
    | cons d n =>
      rw [hn] at hhead
      obtain rfl : c = d := some.inj hhead
      have hreg := h.reg
      rw [hm] at hreg
      refine ⟨⟨hreg, h.reg_tmp, h.tmp_ne, fun t ht => ?_⟩, ?_⟩
      · refine (h.aligned t ht).pass (e := [c]) hn fun u hu => ?_
        rw [hm, inMask_escape] at hu
        obtain ⟨u, rfl, hu⟩ := hu
        exact ⟨[c], u, rfl, rfl, hu⟩
      · unfold Found
        rw [hm, hn, inMask_escape]
        simp
  · rename_i hhead
    refine h.backtrack ?_
    rw [hm, inMask_escape]
    rintro ⟨u, hu, -⟩
    exact hhead (by rw [hu]; rfl)

lemma Sound.starred {d : Char} {m n : Str} (hreg : regular (d :: m) = true) (hd : Letter d) :
    MatchState.Sound ⟨d :: m, n.dropWhile (fun e => toLower e ≠ toLower d), some (d :: m, n)⟩ ∧
      (MatchState.Found ⟨d :: m, n.dropWhile (fun e => toLower e ≠ toLower d), some (d :: m, n)⟩ ↔
        InStar (d :: m) n) := by
  refine ⟨⟨hreg, ?_, ?_, ?_⟩, ?_⟩
  · intro t ht
    obtain rfl := some.inj ht
    exact hreg
  · intro t ht
    obtain rfl := some.inj ht
    exact cons_ne_nil d m
  · intro t ht
    obtain rfl := some.inj ht
    refine ⟨[], n.takeWhile (fun e => toLower e ≠ toLower d), (List.takeWhile_append_dropWhile ..).symm,
      fun u hu => ⟨[], u, rfl, rfl, hu⟩, fun a ha => ?_⟩
    obtain rfl : d = a := some.inj ha
    exact ⟨hd, fun x hx e => by simpa [e] using List.mem_takeWhile_imp hx⟩
  · unfold Found
    simp only [mem_def, Option.some.injEq, exists_eq_left']
    constructor
    · rintro (hglob | hglob)
      · exact ⟨_, List.dropWhile_suffix _, hglob⟩
      · exact hglob.of_suffix (drop_suffix ..)
    · intro hglob
      cases n with
      | nil =>
        obtain ⟨u, hu, hglob⟩ := hglob
        rw [suffix_nil.mp hu] at hglob
        exact absurd hglob hd.not_nil
      | cons b n =>
        obtain hglob | hglob := inStar_cons_iff.mp hglob
        · left
          have hb : toLower d = toLower b := (hd.cons_iff.mp hglob).1
          rwa [List.dropWhile_cons_of_neg (by simp [hb])]
        · exact .inr hglob

lemma Sound.step (h : s.Sound) : Answers s.Found s.step := by
  unfold MatchState.step
  split
  · rename_i hm
    split
    · rename_i hn
      refine iff_of_true rfl (Or.inl ?_)
      rw [hm, hn]
      rfl
    · rename_i hn
      refine h.backtrack ?_
      rwa [hm]
  · rename_i c m hm
    have hreg := h.reg
    rw [hm] at hreg
    split
    · rename_i hc
      subst hc
      cases m with
      | nil => cases hreg
      | cons c m => exact h.escape hm
    · rename_i hc
      split
      · split
        · rename_i hpass
          have hnot := passWilds_eq_none _ hpass
          rw [← hm] at hnot
          exact h.backtrack hnot
        · rename_i m' n' hpass
          obtain ⟨k, hk, hn, hglob, -⟩ := passWilds_spec _ hpass
          obtain ⟨hreg', hletter⟩ := passWilds_letter _ hpass hreg fun e => hc (some.inj e)
          rw [← hm] at hglob
          have hsound : MatchState.Sound ⟨m', n', s.tmp⟩ := by
            refine ⟨hreg', h.reg_tmp, h.tmp_ne, fun t ht => ?_⟩
            refine (h.aligned t ht).pass (e := s.n.take k) ?_ fun u hu => ?_
            · rw [hn, List.take_append_drop]
            · obtain ⟨hku, hu⟩ := (hglob u).mp hu
              exact ⟨u.take k, u.drop k, (List.take_append_drop ..).symm, by simp [hk, hku], hu⟩
          have hfound : MatchState.Found ⟨m', n', s.tmp⟩ ↔ s.Found := by
            refine or_congr_left ?_
            rw [show InMask s.m s.n ↔ _ from hglob s.n, hn]
            exact ⟨fun h => ⟨hk, h⟩, fun h => h.2⟩
          rw [← hfound]
          exact hsound.char hletter
        · rename_i n' hpass
          obtain ⟨k, hk, hn, hglob, -⟩ := passWilds_spec _ hpass
          rw [← hm] at hglob
          exact iff_of_true rfl (Or.inl ((hglob s.n).mpr ⟨hk, [], List.nil_suffix, rfl⟩))
        · rename_i d m' n' hpass
          obtain ⟨k, hk, hn, hglob, -⟩ := passWilds_spec _ hpass
          obtain ⟨hreg', hletter⟩ := passWilds_letter _ hpass hreg fun e => hc (some.inj e)
          have hd := hletter d rfl
          rw [if_neg hd.2]
          obtain ⟨hsound, hiff⟩ := Sound.starred (n := n') hreg' hd
          rw [← hm] at hglob
          -- a match from the star before this one on has this star in the rest of the name, too
          have hfound : InStar (d :: m') n' ↔ s.Found := by
            constructor
            · intro hstar
              exact .inl ((hglob s.n).mpr ⟨hk, hn ▸ hstar⟩)
            · intro hfound
              obtain ⟨w, hw, hglobw⟩ : ∃ w, w <:+ s.n ∧ InMask s.m w := by
                obtain hfound | ⟨t, ht, u, hu, hfound⟩ := hfound
                · exact ⟨s.n, suffix_refl _, hfound⟩
                · exact (h.aligned t ht).reach (h.tmp_ne t ht) (hu.trans (drop_suffix ..)) hfound
              obtain ⟨hkw, hstar⟩ := (hglob w).mp hglobw
              have hsuffix : w.drop k <:+ n' := by
                refine List.suffix_of_suffix_length_le ((drop_suffix k w).trans hw) ?_ ?_
                · rw [hn]
                  exact drop_suffix ..
                · rw [hn, List.length_drop, List.length_drop]
                  exact Nat.sub_le_sub_right hw.length_le k
              exact InStar.of_suffix hstar hsuffix
          rw [← hfound, ← hiff]
          refine hsound.char fun b hb => ?_
          obtain rfl := some.inj hb
          exact hd
      · rename_i hwild
        refine h.char fun b hb => ?_
        rw [hm] at hb
        obtain rfl := some.inj hb
        exact ⟨Bool.eq_false_iff.mpr hwild, hc⟩

end MatchState

lemma MatchState.Sound.loop : (k : ℕ) → ∀ {s : MatchState} {r : ℕ}, s.Sound → matchLoop k s = some r →
    (r = 0 ↔ s.Found)
  | 0, _, _, _, hr => (nomatch hr)
  | k + 1, s, r, h, hr => by
    have hstep := h.step
    rw [matchLoop] at hr
    cases hs : s.step with
    | error a =>
      rw [hs] at hstep hr
      exact some.inj hr ▸ hstep
    | ok s' =>
      rw [hs] at hstep hr
      obtain ⟨hsound, hfound⟩ := hstep
      rw [← hfound]
      exact MatchState.Sound.loop k hsound hr

variable {mask name : Str} {c : Char}

lemma MatchState.Sound.start (h : regular mask = true) (name : Str) :
    MatchState.Sound ⟨mask, name, none⟩ := ⟨h, nofun, nofun, nofun⟩

lemma matchMask_iff_inMask (h : regular mask = true) : matchMask mask name = 0 ↔ InMask mask name := by
  rw [(MatchState.Sound.start h name).loop _ (matchMask_eq mask name)]
  simp [MatchState.Found]

lemma matchMask_eq_zero_iff (hmask : '\\' ∉ mask) : matchMask mask name = 0 ↔ Glob mask name := by
  rw [matchMask_iff_inMask (regular_of_plain mask hmask), inMask_iff_glob mask hmask]

theorem match_glob {mask name : Str} (hmask : '\\' ∉ mask) :
    matchMask mask name = 0 ↔ Matches (toks mask) (name.map toLower) :=
  matchMask_eq_zero_iff hmask

theorem match_glob_bad : matchMask "*b?d*".toList "A bad BEd".toList = 0 ↔
    Matches (toks "*b?d*".toList) ("A bad BEd".toList.map toLower) := match_glob (by decide)

lemma glob_literal_iff : {m n : Str} → (∀ c ∈ m, isWild c = false) →
    (Glob m n ↔ n.map toLower = m.map toLower)
  | [], n, _ => by rw [glob_nil_iff, map_nil, List.map_eq_nil_iff]
  | c :: m, [], h => by
    have hc : c ≠ '*' := fun e => absurd (h c mem_cons_self) (by rw [e]; decide)
    exact ⟨fun hglob => absurd hglob (not_glob_cons_nil hc), nofun⟩
  | c :: m, d :: n, h => by
    have ih : Glob m n ↔ n.map toLower = m.map toLower :=
      glob_literal_iff fun e he => h e (mem_cons_of_mem c he)
    rw [glob_cons_iff (h c mem_cons_self), ih, map_cons, map_cons, List.cons.injEq]
    exact and_congr_left fun _ => eq_comm

lemma matchMask_escape_iff {m : Str} (hm : '\\' ∉ m) :
    matchMask ('\\' :: c :: m) name = 0 ↔ name.head? = some c ∧ Glob m (name.drop 1) := by
  have hreg : regular ('\\' :: c :: m) = true := regular_of_plain m hm
  rw [matchMask_iff_inMask hreg, inMask_escape]
  constructor
  · rintro ⟨u, rfl, hu⟩
    exact ⟨rfl, (inMask_iff_glob m hm).mp hu⟩
  · rintro ⟨hhead, hu⟩
    cases name with
    | nil => exact (nomatch hhead)
    | cons d n =>
      obtain rfl := some.inj hhead
      exact ⟨n, rfl, (inMask_iff_glob m hm).mpr hu⟩

/-! ### What `mmatch` says -/

lemma isWild_toLower (c : Char) : isWild (toLower c) = isWild c := by
  have hcode := toNat_toLower c
  have heq : ∀ a b : Char, a = b ↔ a.toNat = b.toNat := fun a b =>
    ⟨fun h => h ▸ rfl, fun h => Char.ext (UInt32.toNat_inj.mp h)⟩
  unfold isWild
  simp only [decide_eq_decide, heq, hcode, show '*'.toNat = 42 from rfl, show '?'.toNat = 63 from rfl]
  split <;> omega

lemma over_of_charsAgree {x y : Char} (hx : x ≠ '*') (h : charsAgree false false (some x) (some y) = true) :
    (tok x).Over (tok y) := by
  have hagree : toLower x = toLower y ∨ x = '?' ∧ y ≠ '*' := by simpa [charsAgree, hx] using h
  by_cases hmark : x = '?'
  · subst hmark
    refine fun hstar => ?_
    obtain rfl := tok_eq_star_iff.mp hstar
    obtain heq | ⟨-, hne⟩ := hagree
    · exact absurd heq (by decide)
    · exact hne rfl
  · obtain heq | ⟨hmark', -⟩ := hagree
    · have hwild : isWild x = false :=
        Bool.eq_false_iff.mpr fun hw => (isWild_eq_true_iff.mp hw).elim hx hmark
      have hwild' : isWild y = false := by rw [← isWild_toLower, ← heq, isWild_toLower, hwild]
      rw [tok_of_not_isWild hwild, tok_of_not_isWild hwild', heq]
      rfl
    · exact absurd hmark' hmark

/-- The pattern that a mask is, where a backslash makes a letter of the wildcard behind it. `mmatch`. -/
def maskToks : Str → List (Tok Char)
  | c :: d :: s => if c = '\\' ∧ isWild d then .lit d :: maskToks s else tok c :: maskToks (d :: s)
  | [c] => [tok c]
  | [] => []

/-- The first symbol of a mask. `mmatch`. -/
def headTok (s : Str) : Tok Char :=
  match unescape s with
  | (true, c :: _) => .lit c
  | (false, c :: _) => tok c
  | (_, []) => .star

lemma maskToks_cons : {s : Str} → s ≠ [] → maskToks s = headTok s :: maskToks (nextChar s)
  | [], h => absurd rfl h
  | [_], _ => rfl
  | c :: d :: s, _ => by
    rw [maskToks, headTok, unescape, nextChar]
    split
    · rfl
    · rfl

lemma maskToks_of_ne (hc : c ≠ '\\') : (s : Str) → maskToks (c :: s) = tok c :: maskToks s
  | [] => rfl
  | d :: s => by rw [maskToks, if_neg fun h => hc h.1]

lemma maskToks_eq_nil {s : Str} (h : maskToks s = []) : s = [] := by
  by_contra hs
  rw [maskToks_cons hs] at h
  exact (nomatch h)

lemma drop_unescape : (s : Str) → (unescape s).2.drop 1 = nextChar s
  | [] => rfl
  | [_] => rfl
  | c :: d :: s => by
    rw [unescape, nextChar]
    split
    · rfl
    · rfl

lemma headTok_ne_star {s : Str} (hs : s ≠ []) (hstar : s.head? ≠ some '*') : headTok s ≠ .star := by
  match s, hs with
  | [c], _ => exact fun h => hstar (congrArg some (tok_eq_star_iff.mp h))
  | c :: d :: s, _ =>
    rw [headTok, unescape]
    split
    · rename_i heq
      split at heq
      · nofun
      · exact (nomatch heq)
    · rename_i heq
      split at heq
      · exact (nomatch heq)
      · injection heq with _ heq
        injection heq with hc _
        exact fun h => hstar (congrArg some (hc.trans (tok_eq_star_iff.mp h)))
    · rename_i heq
      split at heq
      · exact (nomatch heq)
      · exact (nomatch heq)

lemma isWild_of_unescape {s : Str} (h : (unescape s).1 = true) :
    ∃ d m, (unescape s).2 = d :: m ∧ isWild d = true := by
  match s with
  | [] => exact (nomatch h)
  | [c] => exact (nomatch h)
  | c :: d :: s =>
    rw [unescape] at h ⊢
    split
    · rename_i hesc
      exact ⟨d, s, rfl, hesc.2⟩
    · rename_i hesc
      rw [if_neg hesc] at h
      exact (nomatch h)

lemma unescape_ne_nil {s : Str} (hs : s ≠ []) : (unescape s).2 ≠ [] := by
  match s, hs with
  | [c], _ => exact cons_ne_nil _ _
  | c :: d :: s, _ =>
    rw [unescape]
    split
    · exact cons_ne_nil _ _
    · exact cons_ne_nil _ _

lemma unescape_head {s : Str} (h : (unescape s).1 = false) : (unescape s).2 = s := by
  match s with
  | [] => rfl
  | [c] => rfl
  | c :: d :: s =>
    rw [unescape] at h ⊢
    split
    · rename_i hesc
      rw [if_pos hesc] at h
      exact (nomatch h)
    · rfl

lemma eq_of_toLower_wild {d : Char} (hd : isWild d = true) (h : toLower c = toLower d) : c = d := by
  have hc : isWild c = true := by rw [← isWild_toLower, h, isWild_toLower, hd]
  obtain rfl | rfl := isWild_eq_true_iff.mp hc
  · obtain rfl | rfl := isWild_eq_true_iff.mp hd
    · rfl
    · exact absurd h (by decide)
  · obtain rfl | rfl := isWild_eq_true_iff.mp hd
    · exact absurd h (by decide)
    · rfl

lemma headTok_over {m n : Str} (hm : m ≠ []) (hn : n ≠ []) (hstar : m.head? ≠ some '*')
    (h : charsAgree (unescape m).1 (unescape n).1 (unescape m).2.head? (unescape n).2.head? = true) :
    (headTok m).Over (headTok n) := by
  obtain ⟨x, m', hx⟩ := exists_cons_of_ne_nil (unescape_ne_nil hm)
  obtain ⟨y, n', hy⟩ := exists_cons_of_ne_nil (unescape_ne_nil hn)
  have hwildx : (unescape m).1 = true → isWild x = true := by
    intro hq
    obtain ⟨d, r, hd, hwild⟩ := isWild_of_unescape hq
    rw [hx] at hd
    injection hd with hd _
    exact hd ▸ hwild
  have hwildy : (unescape n).1 = true → isWild y = true := by
    intro hq
    obtain ⟨d, r, hd, hwild⟩ := isWild_of_unescape hq
    rw [hy] at hd
    injection hd with hd _
    exact hd ▸ hwild
  have hnot : (unescape m).1 = false → x ≠ '*' := by
    rintro hq rfl
    rw [unescape_head hq] at hx
    exact hstar (by rw [hx]; rfl)
  rw [hx, hy] at h
  unfold headTok
  generalize hum : unescape m = um at *
  generalize hun : unescape n = un at *
  obtain ⟨mq, um⟩ := um
  obtain ⟨nq, un⟩ := un
  simp only at hx hy hwildx hwildy hnot h
  subst hx hy
  cases mq with
  | true =>
    cases nq with
    | true =>
      have heq : toLower x = toLower y := by simpa [charsAgree] using h
      exact (show Tok.lit y = Tok.lit x by rw [eq_of_toLower_wild (hwildy rfl) heq])
    | false => exact absurd h (by simp [charsAgree])
  | false =>
    cases nq with
    | true =>
      have hagree : toLower x = toLower y ∨ x = '?' := by simpa [charsAgree, hnot rfl] using h
      have hmark : x = '?' := by
        refine hagree.elim (fun heq => ?_) id
        obtain rfl := eq_of_toLower_wild (hwildy rfl) heq
        exact (isWild_eq_true_iff.mp (hwildy rfl)).elim (fun e => absurd e (hnot rfl)) id
      subst hmark
      exact (show Tok.lit y ≠ Tok.star by nofun)
    | false => exact over_of_charsAgree (hnot rfl) h

lemma maskToks_stars : (m : Str) → ∃ k, maskToks m = List.replicate k .star ++ maskToks (m.dropWhile (· = '*')) ∧
    (m.head? = some '*' → 0 < k)
  | [] => ⟨0, rfl, nofun⟩
  | c :: m => by
    by_cases hc : c = '*'
    · subst hc
      obtain ⟨k, hk, -⟩ := maskToks_stars m
      refine ⟨k + 1, ?_, fun _ => Nat.succ_pos k⟩
      rw [maskToks_of_ne (by decide), List.dropWhile_cons_of_pos (by simp), hk]
      rfl
    · refine ⟨0, ?_, fun h => absurd (some.inj h) hc⟩
      rw [List.dropWhile_cons_of_neg (by simpa using hc)]
      rfl

lemma maskToks_append : (p : Str) → p.getLast? ≠ some '\\' → (t : Str) →
    maskToks (p ++ '*' :: t) = maskToks p ++ .star :: maskToks t
  | [], _, t => maskToks_of_ne (by decide) t
  | [c], h, t => by
    have hc : c ≠ '\\' := fun e => h (congrArg some e)
    rw [List.singleton_append, maskToks_of_ne hc, maskToks_of_ne (by decide)]
    rfl
  | c :: d :: p, h, t => by
    rw [cons_append, cons_append, maskToks, maskToks]
    by_cases hesc : c = '\\' ∧ isWild d = true
    · rw [if_pos hesc, if_pos hesc]
      have hp : p.getLast? ≠ some '\\' := by
        cases p with
        | nil => nofun
        | cons e p =>
          rw [List.getLast?_cons_cons, List.getLast?_cons_cons] at h
          exact h
      rw [maskToks_append p hp t]
      rfl
    · rw [if_neg hesc, if_neg hesc, ← cons_append, maskToks_append (d :: p) (by rwa [List.getLast?_cons_cons] at h) t]
      rfl

lemma maskToks_marks : (k : ℕ) → maskToks (List.replicate k '?') = List.replicate k .any
  | 0 => rfl
  | k + 1 => by
    rw [List.replicate_succ, maskToks_of_ne (by decide), maskToks_marks k]
    rfl

lemma eq_of_last {β : Type} {x : β} : {pre pre' a b : List β} → pre ++ x :: a = pre' ++ x :: b → x ∉ a → x ∉ b →
    a = b
  | [], [], _, _, h, _, _ => List.tail_eq_of_cons_eq h
  | [], c :: pre', a, b, h, ha, _ => by
    injection h with _ h
    exact absurd (h ▸ by simp) ha
  | c :: pre, [], a, b, h, _, hb => by
    injection h with _ h
    exact absurd (h ▸ by simp) hb
  | c :: pre, c' :: pre', a, b, h, ha, hb => by
    injection h with _ h
    exact eq_of_last h ha hb

lemma maskToks_of_endsWild {oldMask : Str} (h : endsWild oldMask = true) :
    ∃ pre k, maskToks oldMask = pre ++ .star :: List.replicate k .any := by
  unfold endsWild at h
  split at h
  · rename_i c d rest hrest
    obtain ⟨rfl, hd⟩ : c = '*' ∧ d ≠ '\\' := decide_eq_true_iff.mp h
    have hsplit := List.takeWhile_append_dropWhile (p := (· = '?')) (l := oldMask.reverse)
    obtain ⟨k, hk⟩ : ∃ k, oldMask.reverse.takeWhile (· = '?') = List.replicate k '?' :=
      ⟨_, List.eq_replicate_iff.mpr ⟨rfl, fun e he => by simpa using List.mem_takeWhile_imp he⟩⟩
    rw [hrest, hk] at hsplit
    have hrev := congrArg List.reverse hsplit
    rw [List.reverse_reverse, List.reverse_append, List.reverse_replicate, List.reverse_cons] at hrev
    refine ⟨maskToks (d :: rest).reverse, k, ?_⟩
    have hlast : (d :: rest).reverse.getLast? ≠ some '\\' := by
      rw [List.getLast?_reverse]
      exact fun e => hd (some.inj e)
    rw [← hrev, append_assoc, List.singleton_append, maskToks_append _ hlast, maskToks_marks]
  · exact (nomatch h)

lemma covers_of_stars {p q : List (Tok Char)} : (k : ℕ) → 0 < k → Covers (.star :: p) q →
    Covers (List.replicate k .star ++ p) q
  | 1, _, h => h
  | k + 2, _, h => .skip (covers_of_stars (k + 1) (Nat.succ_pos k) h)

namespace MmatchState

/-- The mask covers the other one, from here on. `mmatch`. -/
def Covered (s : MmatchState) : Prop :=
  Covers (maskToks s.m) (maskToks s.n) ∨ s.wild = true ∧ Covers (.star :: maskToks s.ma) (maskToks s.na)

/-- Since the last star as many symbols of both masks have been passed. `mmatch`. -/
structure Sound (oldMask : Str) (s : MmatchState) : Prop where
  start : s.wild = false → ∃ c, maskToks oldMask = c ++ maskToks s.m ∧ Fixed c
  last : s.wild = true → (∃ pre, maskToks oldMask = pre ++ .star :: maskToks s.ma) ∧ s.ma.head? ≠ some '*'
  aligned : s.wild = true → ∃ c d, maskToks s.ma = c ++ maskToks s.m ∧ maskToks s.na = d ++ maskToks s.n ∧
    c.length = d.length ∧ Fixed c ∧ Fixed d

variable {oldMask : Str} {s s' : MmatchState}

lemma head_stars (s : MmatchState) : s.stars.m.head? ≠ some '*' := by
  unfold MmatchState.stars
  split
  · intro h
    have hnot := List.head?_dropWhile_not (fun c : Char => decide (c = '*')) s.m
    rw [h] at hnot
    exact (nomatch hnot)
  · assumption

lemma Sound.stars (h : s.Sound oldMask) : s.stars.Sound oldMask ∧ (s.stars.Covered → s.Covered) := by
  have hhead := head_stars s
  unfold MmatchState.stars at hhead ⊢
  split
  · rename_i hstar
    rw [if_pos hstar] at hhead
    obtain ⟨k, hk, hpos⟩ := maskToks_stars s.m
    have hpos := hpos hstar
    obtain ⟨j, rfl⟩ := Nat.exists_eq_succ_of_ne_zero (Nat.ne_of_gt hpos)
    have hlast : maskToks s.m = List.replicate j .star ++ .star :: maskToks (s.m.dropWhile (· = '*')) := by
      rw [hk, List.replicate_succ', append_assoc]
      rfl
    refine ⟨⟨nofun, fun _ => ⟨?_, hhead⟩, fun _ => ⟨[], [], rfl, rfl, rfl, nofun, nofun⟩⟩, fun hcov => Or.inl ?_⟩
    · cases hw : s.wild with
      | false =>
        obtain ⟨c, hc, -⟩ := h.start hw
        exact ⟨c ++ List.replicate j .star, by rw [hc, hlast, append_assoc]⟩
      | true =>
        obtain ⟨⟨pre', hpre'⟩, -⟩ := h.last hw
        obtain ⟨c, -, hc, -⟩ := h.aligned hw
        exact ⟨pre' ++ .star :: c ++ List.replicate j .star, by rw [hpre', hc, hlast]; simp⟩
    · rw [hk]
      exact covers_of_stars _ hpos (hcov.elim .skip fun h => h.2)
  · exact ⟨h, id⟩

lemma Sound.again (h : s.Sound oldMask) (hwild : s.wild = true) :
    s.again.Sound oldMask ∧ (s.again.Covered → s.Covered) := by
  obtain ⟨hpre, hhead⟩ := h.last hwild
  refine ⟨⟨fun hw => ?_, fun _ => ⟨hpre, hhead⟩, fun _ => ⟨[], [], rfl, rfl, rfl, nofun, nofun⟩⟩,
    fun hcov => Or.inr ⟨hwild, ?_⟩⟩
  · exact absurd (hwild.symm.trans hw) (by decide)
  · have hcov : Covers (.star :: maskToks s.ma) (maskToks (nextChar s.na)) := hcov.elim .skip fun h => h.2
    by_cases hna : s.na = []
    · rw [hna] at hcov ⊢
      exact hcov
    · rw [maskToks_cons hna]
      exact .more hcov

lemma Sound.compare (h : s.Sound oldMask) (hhead : s.m.head? ≠ some '*') (hn : s.m ≠ [] → s.n ≠ [])
    (heq : s.compare = some s') : s'.Sound oldMask ∧ (s'.Covered → s.Covered) := by
  unfold MmatchState.compare at heq
  rw [drop_unescape, drop_unescape] at heq
  split at heq
  · rename_i hagree
    obtain rfl := some.inj heq
    by_cases hm : s.m = []
    · have hnil : s.n = [] := by
        by_contra hne
        obtain ⟨y, n, hy⟩ := exists_cons_of_ne_nil (unescape_ne_nil hne)
        rw [hm, hy] at hagree
        exact absurd hagree (by simp [charsAgree, unescape])
      have hsame : ({ s with m := nextChar s.m, n := nextChar s.n } : MmatchState) = s := by
        obtain ⟨m, n, ma, na, wild⟩ := s
        simp only at hm hnil
        rw [hm, hnil]
        rfl
      rw [hsame]
      exact ⟨h, id⟩
    · have hover := headTok_over hm (hn hm) hhead hagree
      have hfixed : Fixed [headTok s.m] := by
        unfold Fixed
        rw [List.mem_singleton]
        exact (headTok_ne_star hm hhead).symm
      have hfixed' : Fixed [headTok s.n] := by
        unfold Fixed
        rw [List.mem_singleton]
        exact hover.ne_star.symm
      have hmtoks := maskToks_cons hm
      have hntoks := maskToks_cons (hn hm)
      refine ⟨⟨fun hw => ?_, h.last, fun hw => ?_⟩, fun hcov => ?_⟩
      · obtain ⟨c, hc, hstar⟩ := h.start hw
        exact ⟨c ++ [headTok s.m], by rw [hc, hmtoks]; simp, fun hmem =>
          (mem_append.mp hmem).elim hstar hfixed⟩
      · obtain ⟨c, d, hc, hd, hlen, hstar, hstar'⟩ := h.aligned hw
        exact ⟨c ++ [headTok s.m], d ++ [headTok s.n], by rw [hc, hmtoks]; simp, by rw [hd, hntoks]; simp,
          by simp [hlen], fun hmem => (mem_append.mp hmem).elim hstar hfixed,
          fun hmem => (mem_append.mp hmem).elim hstar' hfixed'⟩
      · unfold Covered
        rw [hmtoks, hntoks]
        exact hcov.imp_left fun hcov => .one hover hcov
  · split at heq
    · rename_i hwild
      obtain rfl := some.inj heq
      exact h.again hwild
    · exact (nomatch heq)

/-- What is left when the mask is at its end, with wildcards there: the last star is the last that was passed. -/
lemma Sound.covered_of_endsWild (h : s.Sound oldMask) (hm : s.m = []) (hends : endsWild oldMask = true) :
    s.Covered := by
  obtain ⟨pre, j, hold⟩ := maskToks_of_endsWild hends
  have hmarks : Tok.star ∉ List.replicate j (Tok.any (α := Char)) := fun hmem =>
    (nomatch List.eq_of_mem_replicate hmem)
  cases hw : s.wild with
  | false =>
    obtain ⟨c, hc, hstar⟩ := h.start hw
    rw [hm, maskToks, append_nil] at hc
    exact absurd (hc ▸ hold ▸ by simp) hstar
  | true =>
    obtain ⟨⟨pre', hpre'⟩, -⟩ := h.last hw
    obtain ⟨c, d, hc, hd, hlen, hstar, hstar'⟩ := h.aligned hw
    rw [hm, maskToks, append_nil] at hc
    have hma : List.replicate j .any = maskToks s.ma := eq_of_last (hold.symm.trans hpre') hmarks (hc ▸ hstar)
    have hj : j = d.length := by rw [← hlen, ← hc, ← hma, List.length_replicate]
    refine .inr ⟨hw, ?_⟩
    rw [← hma, hd, hj]
    exact covers_star_marks _ _ hstar'

lemma Sound.again_ne_nil (h : s.Sound oldMask) (hwild : s.wild = true) (hm : s.m = []) (hn : s.n ≠ []) :
    s.again.m ≠ [] → s.again.n ≠ [] := by
  intro hma hnil
  obtain ⟨c, d, hc, hd, hlen, -, -⟩ := h.aligned hwild
  rw [hm, maskToks, append_nil] at hc
  have hna : s.na ≠ [] := by
    intro hna
    rw [hna, maskToks] at hd
    exact hn (maskToks_eq_nil (List.append_eq_nil_iff.mp hd.symm).2)
  have hone : (maskToks s.na).length = 1 := by
    rw [maskToks_cons hna, show nextChar s.na = [] from hnil]
    rfl
  have hpos : 0 < (maskToks s.n).length := List.length_pos_iff.mpr fun e => hn (maskToks_eq_nil e)
  have hpos' : 0 < c.length := by
    rw [← hc]
    exact List.length_pos_iff.mpr fun e => hma (maskToks_eq_nil e)
  rw [hd, length_append] at hone
  omega

lemma Sound.loop : (k : ℕ) → ∀ {s : MmatchState}, s.Sound oldMask → mmatchLoop oldMask k s = some 0 →
    s.Covered
  | 0, _, _, hr => by cases hr
  | k + 1, s, h, hr => by
    obtain ⟨hstars, hcovered⟩ := h.stars
    have hhead := head_stars s
    refine hcovered ?_
    rw [mmatchLoop] at hr
    generalize s.stars = t at hr hstars hhead
    split at hr
    · rename_i hm
      split at hr
      · rename_i hn
        left
        rw [hm, hn]
        exact .nil
      · rename_i hn
        split at hr
        · rename_i hends
          exact hstars.covered_of_endsWild hm hends
        · split at hr
          · cases hr
          · rename_i hwild
            have hwild : t.wild = true := by simpa using hwild
            obtain ⟨hagain, hcov⟩ := hstars.again hwild
            refine hcov ?_
            cases hc : t.again.compare with
            | none =>
              rw [hc] at hr
              cases hr
            | some t' =>
              rw [hc] at hr
              obtain ⟨hsound, hcov'⟩ :=
                hagain.compare (hstars.last hwild).2 (hstars.again_ne_nil hwild hm hn) hc
              exact hcov' (Sound.loop k hsound hr)
    · rename_i hm
      split at hr
      · have hall : t.m.all (· = '*') = true := by
          by_contra hall
          rw [if_neg hall] at hr
          cases hr
        obtain ⟨x, m, hx⟩ := exists_cons_of_ne_nil hm
        rw [hx] at hall hhead
        have hstar : x = '*' := by simpa using List.all_eq_true.mp hall x mem_cons_self
        exact absurd (congrArg some hstar) hhead
      · rename_i hn
        cases hc : t.compare with
        | none =>
          rw [hc] at hr
          cases hr
        | some t' =>
          rw [hc] at hr
          obtain ⟨hsound, hcov⟩ := hstars.compare hhead (fun _ => hn) hc
          exact hcov (Sound.loop k hsound hr)

end MmatchState

lemma covers_of_mmatch {oldMask newMask : Str} (h : mmatch oldMask newMask = 0) :
    Covers (maskToks oldMask) (maskToks newMask) := by
  have hsound : MmatchState.Sound oldMask ⟨oldMask, newMask, oldMask, newMask, false⟩ :=
    ⟨fun _ => ⟨[], rfl, nofun⟩, nofun, nofun⟩
  have hcov := hsound.loop _ (h ▸ mmatch_eq oldMask newMask)
  exact hcov.elim id fun h => (nomatch h.1)

/-- **A name of a mask is a name of its superset**. -/
theorem mmatch_names {oldMask newMask name : Str} (h : mmatch oldMask newMask = 0)
    (hname : Matches (maskToks newMask) (name.map toLower)) : Matches (maskToks oldMask) (name.map toLower) :=
  (covers_of_mmatch h).matches hname

theorem mmatch_names_escaped : mmatch "*a?\\*".toList "*ab\\*".toList = 0 ∧
    Matches (maskToks "*ab\\*".toList) ("xAB*".toList.map toLower) ∧
    Matches (maskToks "*a?\\*".toList) ("xAB*".toList.map toLower) :=
  have hname : Matches (maskToks "*ab\\*".toList) ("xAB*".toList.map toLower) :=
    .more (.skip (.one rfl (.one rfl (.one rfl .nil))))
  ⟨by decide +kernel, hname, mmatch_names (by decide +kernel) hname⟩

end Nefarious
