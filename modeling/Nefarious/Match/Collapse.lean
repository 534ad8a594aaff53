import Nefarious.Match.Patterns
import Nefarious.Channel.BanMask.Canonical

/-!
# Collapsing a mask

`collapse` writes the wildcards that stand together in one way.

Names: `match.c`.
-/

namespace Nefarious

open List (length_append length_cons nil_append)

open Lib.Glob Crule BanMask

/-! ### Wildcards are escaped -/

/-- A pattern with a star in front, or without. -/
def withStar (star : Bool) (p : List (Tok Char)) : List (Tok Char) := if star then .star :: p else p

variable {p : List (Tok Char)} {c : Char} {s out m m' : Str} {star : Bool}

lemma matches_cons_congr {x : Tok Char} {q : List (Tok Char)} (h : Matches p = Matches q) :
    Matches (x :: p) = Matches (x :: q) := by
  funext t
  by_cases hx : x = .star
  · rw [hx, matches_star_iff, h, ← matches_star_iff]
  · cases t with
    | nil => exact propext (iff_of_false (not_matches_nil hx) (not_matches_nil hx))
    | cons b t => rw [matches_cons_iff hx, matches_cons_iff hx, h]

lemma matches_withStar_congr {q : List (Tok Char)} (h : Matches p = Matches q) (star : Bool) :
    Matches (withStar star p) = Matches (withStar star q) := by
  cases star with
  | false => exact h
  | true => exact matches_cons_congr h

lemma maskToks_cons_head (h : c = '\\' → ∀ d ∈ s.head?, ¬Wild d) :
    maskToks (c :: s) = tok c :: maskToks s := by
  match s with
  | [] => rfl
  | d :: s =>
    rw [maskToks, if_neg]
    exact fun hesc => h hesc.1 d rfl (isWild_eq_true_iff.mp hesc.2)

lemma maskToks_escape {d : Char} (hd : Wild d) (s : Str) : maskToks ('\\' :: d :: s) =
    .lit d :: maskToks s := by
  rw [maskToks, if_pos ⟨rfl, isWild_eq_true_iff.mpr hd⟩]

/-- The star that is still to be written comes before a character, but behind a mark. -/
lemma matches_pending (hc : c ≠ '*')
    (hout : maskToks (c :: out) = tok c :: maskToks out)
    (h : Matches (maskToks out) = Matches (withStar (star && decide (c = '?')) p)) :
    Matches (maskToks ((if star ∧ c ≠ '?' then ['*'] else []) ++ c :: out)) = Matches (withStar star (tok c :: p)) := by
  cases star with
  | false =>
    rw [if_neg (by simp), nil_append, hout]
    exact matches_cons_congr h
  | true =>
    by_cases hmark : c = '?'
    · subst hmark
      have hany : tok '?' = .any := by decide
      rw [if_neg (by simp), nil_append, hout, hany, matches_cons_congr h]
      funext t
      exact propext matches_star_any_iff.symm
    · rw [if_pos ⟨rfl, hmark⟩, List.singleton_append, maskToks_of_ne (by decide), hout]
      refine matches_cons_congr (matches_cons_congr ?_)
      rw [h, decide_eq_false hmark]
      rfl

lemma matches_collapseRun (star : Bool) (s : Str) :
    Matches (maskToks (collapseRun star s)) = Matches (withStar star (maskToks s)) := by
  fun_induction collapseRun star s with
  | case1 => rfl
  | case2 star h =>
    rw [Bool.eq_false_iff.mpr h]
    rfl
  | case3 star m ih =>
    rw [ih, maskToks_of_ne (by decide)]
    cases star with
    | false => rfl
    | true =>
      funext t
      exact propext matches_star_star_iff.symm
  | case4 star c m hc rest ih =>
    cases m with
    | nil => exact matches_pending hc (maskToks_cons_head fun hslash => by
      have hrest : rest = false := by simp [rest, hslash]
      rw [hrest]
      exact fun _ hd => (by cases hd)) ih
    | cons d m =>
      simp only at ih ⊢
      by_cases hesc : c = '\\' ∧ (d = '*' ∨ d = '?')
      · obtain ⟨rfl, hd⟩ := hesc
        have hescape := maskToks_escape (s := collapseRun rest m) hd
        rw [if_pos (show '\\' = '\\' ∧ (d = '*' ∨ d = '?') from ⟨rfl, hd⟩), maskToks_escape hd]
        have hih : Matches (maskToks (collapseRun rest m)) = Matches (maskToks m) := by
          have hrest : rest = false := by simp [rest]
          rw [ih.1, hrest]
          rfl
        cases star with
        | false => exact (congrArg Matches hescape).trans (matches_cons_congr hih)
        | true =>
          rw [if_pos ⟨rfl, by decide⟩, List.singleton_append, maskToks_of_ne (by decide), hescape]
          exact matches_cons_congr (matches_cons_congr hih)
      · rw [if_neg hesc, maskToks_cons_head fun hslash e he => by
          obtain rfl := Option.some.inj he
          exact fun hw => hesc ⟨hslash, hw⟩]
        refine matches_pending hc (maskToks_cons_head fun hslash e he => ?_) ih.2
        have hfalse : rest = false := by simp [rest, hslash]
        have hd : d ≠ '*' := fun h => hesc ⟨hslash, .inl h⟩
        rw [hfalse, head_collapseRun hd] at he
        obtain rfl := Option.some.inj he
        exact fun hw => hesc ⟨hslash, hw⟩

/-! ### Any character is escaped -/

/-- The names of a mask with a star in front, or without. -/
def InWith (star : Bool) (m : Str) : Str → Prop := if star then InStar m else InMask m

lemma inStar_any (m : Str) : InStar ('?' :: m) = Front '?' (InStar m) := by
  funext t
  cases t with
  | nil =>
    refine propext (iff_of_false not_inStar_any_nil ?_)
    rw [Front, if_neg (by decide)]
    rintro ⟨b, u, h, -⟩
    cases h
  | cons d n =>
    rw [inStar_any_iff, Front, if_neg (by decide)]
    refine propext ⟨fun h => ⟨d, n, rfl, Or.inl rfl, h⟩, ?_⟩
    rintro ⟨b, u, h, -, hu⟩
    injection h with _ h
    exact h ▸ hu

lemma inMask_star (m : Str) : InMask ('*' :: m) = InStar m := funext fun _ => propext inMask_star_iff

lemma inStar_congr (h : InMask m = InMask m') : InStar m = InStar m' := by
  funext t
  rw [InStar, InStar, h]

lemma inMask_cons_congr (hc : c ≠ '\\') (h : InMask m = InMask m') : InMask (c :: m) = InMask (c :: m') := by
  rw [inMask_cons hc, inMask_cons hc, h]

lemma inMask_escape_congr (h : InMask m = InMask m') :
    InMask ('\\' :: c :: m) = InMask ('\\' :: c :: m') := by
  funext t
  rw [inMask_escape, inMask_escape, h]

/-- Behind a backslash that escapes no wildcard, where shorter masks are collapsed rightly. -/
lemma inMask_escaped {d : Char} (hd : ¬Wild d)
    (ih : ∀ s : Str, s.length < (d :: m).length → InMask (collapseRun false s) = InMask s) :
    InMask ('\\' :: collapseRun false (d :: m)) = InMask ('\\' :: d :: m) := by
  have hstar : d ≠ '*' := fun h => hd (.inl h)
  rw [collapseRun.eq_2, if_neg hstar]
  cases m with
  | nil => rfl
  | cons e m =>
    simp only [Bool.false_and, Bool.false_eq_true, false_and, if_false, nil_append]
    have hshort : m.length < (d :: e :: m).length := by
      simp only [length_cons]
      omega
    split
    · rename_i hesc
      -- the backslash is escaped, and the wildcard behind it is none
      obtain ⟨rfl, he⟩ := hesc
      have hslash : e ≠ '\\' := by
        rintro rfl
        exact absurd he (by decide)
      exact inMask_escape_congr (inMask_cons_congr hslash (ih m hshort))
    · exact inMask_escape_congr (ih (e :: m) (by simp))

/-- The star that is still to be written comes before a character, but behind a mark. -/
lemma inMask_pending (hslash : c ≠ '\\')
    (h : InMask out = InWith (star && decide (c = '?')) s) :
    InMask ((if star ∧ c ≠ '?' then ['*'] else []) ++ c :: out) = InWith star (c :: s) := by
  cases star with
  | false =>
    rw [if_neg (by simp), nil_append]
    exact inMask_cons_congr hslash h
  | true =>
    by_cases hmark : c = '?'
    · subst hmark
      rw [if_neg (by simp), nil_append, inMask_cons hslash, h]
      exact (inStar_any s).symm
    · rw [if_pos ⟨rfl, hmark⟩, List.singleton_append, inMask_star]
      refine inStar_congr (inMask_cons_congr hslash ?_)
      rw [h, decide_eq_false hmark]
      rfl

lemma inMask_prefixed (h : InMask out = InMask s) :
    InMask ((if star ∧ '\\' ≠ '?' then ['*'] else []) ++ out) = InWith star s := by
  cases star with
  | false => exact h
  | true => exact (inMask_star out).trans (inStar_congr h)

lemma inMask_collapseRun : (n : ℕ) → (star : Bool) → (s : Str) → s.length ≤ n →
    InMask (collapseRun star s) = InWith star s
  | _, true, [], _ => inMask_star []
  | _, false, [], _ => rfl
  | 0, _, _ :: _, h => absurd h (Nat.not_succ_le_zero _)
  | n + 1, star, c :: m, h => by
    have hm : m.length ≤ n := Nat.le_of_succ_le_succ h
    by_cases hc : c = '*'
    · subst hc
      rw [collapseRun.eq_2, if_pos rfl, inMask_collapseRun n true m hm]
      cases star with
      | false => exact (inMask_star m).symm
      | true => exact funext fun t => propext inStar_star_iff.symm
    · rw [collapseRun.eq_2, if_neg hc]
      by_cases hslash : c = '\\'
      · subst hslash
        have hrest : (star && decide ('\\' = '?')) = false := by simp
        simp only [hrest]
        refine inMask_prefixed ?_
        cases m with
        | nil => rfl
        | cons d m =>
          simp only
          split
          · have hm' : m.length ≤ n := Nat.le_of_succ_le hm
            exact inMask_escape_congr (inMask_collapseRun n false m hm')
          · rename_i hesc
            refine inMask_escaped (fun hw => hesc ⟨trivial, hw⟩) fun s hs => ?_
            exact inMask_collapseRun n false s (Nat.le_trans (Nat.le_of_lt hs) hm)
      · cases m with
        | nil => exact inMask_pending hslash (inMask_collapseRun n _ [] (Nat.zero_le n))
        | cons d m =>
          simp only
          rw [if_neg fun hesc : c = '\\' ∧ (d = '*' ∨ d = '?') => hslash hesc.1]
          exact inMask_pending hslash (inMask_collapseRun n _ (d :: m) hm)

lemma length_collapseRun (star : Bool) (s : Str) : (collapseRun star s).length ≤ s.length + star.toNat := by
  fun_induction collapseRun star s with
  | case1 => exact Nat.le_refl _
  | case2 => exact Nat.zero_le _
  | case3 star m ih =>
    rw [length_cons]
    exact Nat.le_trans ih (Nat.le_add_right _ _)
  | case4 star c m hc rest ih =>
    have hstar : (if star = true ∧ c ≠ '?' then ['*'] else []).length + rest.toNat ≤ star.toNat := by
      by_cases hmark : c = '?'
      · rw [if_neg fun h => h.2 hmark, List.length_nil, Nat.zero_add]
        cases star with
        | false => exact Nat.le_refl _
        | true => exact Bool.toNat_le _
      · cases star <;> simp [rest, hmark]
    cases m with
    | nil =>
      simp only at ih ⊢
      rw [length_append, length_cons, length_cons]
      omega
    | cons d m =>
      simp only at ih ⊢
      by_cases hesc : c = '\\' ∧ (d = '*' ∨ d = '?')
      · rw [if_pos hesc]
        have := ih.1
        simp only [length_append, length_cons]
        omega
      · rw [if_neg hesc]
        have := ih.2
        simp only [length_append, length_cons] at this ⊢
        omega

/-- **What is collapsed has the same names**, for both ways of reading it, is collapsed for good and is not longer. -/
theorem collapse_preserves (mask : Str) : (∀ t, Matches (maskToks (collapse mask)) t ↔
    Matches (maskToks mask) t) ∧ (∀ t, InMask (collapse mask) t ↔ InMask mask t) ∧ collapse (collapse mask) =
    collapse mask ∧ (collapse mask).length ≤ mask.length := by
  have hred := reduced_collapseRun false mask
  rw [← collapse_eq] at hred
  refine ⟨fun t => ?_, fun t => ?_, collapse_of_reduced _ hred, ?_⟩
  · rw [collapse_eq, matches_collapseRun]
    rfl
  · rw [collapse_eq, inMask_collapseRun mask.length false mask (Nat.le_refl _)]
    rfl
  · rw [collapse_eq]
    exact length_collapseRun false mask

end Nefarious
