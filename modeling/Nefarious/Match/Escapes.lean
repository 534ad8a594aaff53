import Nefarious.Match.Patterns

/-!
# Escapes in a mask

`match` reads a backslash as an escape where it meets one, but not when it comes back to a star, or passes
question marks, in front of it: then the escape or the wildcard behind it is read for itself.

Names: `match.c`.
-/

namespace Nefarious

/-- The text with its wildcards and backslashes escaped. -/
def esc : Str → Str
  | [] => []
  | c :: s => if isWild c ∨ c = '\\' then '\\' :: c :: esc s else c :: esc s

/-- Characters of an escaped text and of a name. `match` ("allow escaping to force capitalization"). -/
def SameChar (c b : Char) : Prop := toLower c = toLower b ∧ (c = '\\' → b = c)

/-- A backslash at the end of the mask meets the end of the name; both are then left behind. `match`. -/
def MatchState.pastEnd (s : MatchState) : Bool := s.m = ['\\'] ∧ s.n = []

/-- A round of so many leaves the mask behind. `match`. -/
def readsPastLoop : ℕ → MatchState → Bool
  | 0, _ => false
  | k + 1, s => s.pastEnd || match s.step with
      | .error _ => false
      | .ok s => readsPastLoop k s

/-- The loop leaves the mask behind, and reads there. `match`. -/
def readsPast (mask name : Str) : Bool := readsPastLoop (rounds mask name) ⟨mask, name, none⟩

lemma readsPastLoop_eq_false : (k : ℕ) → ∀ {s : MatchState}, s.Sound → readsPastLoop k s = false
  | 0, _, _ => rfl
  | k + 1, s, h => by
    have hpast : s.pastEnd = false := by
      refine decide_eq_false fun hend => ?_
      have hreg := h.reg
      rw [hend.1] at hreg
      exact (nomatch hreg)
    have hstep := h.step
    rw [readsPastLoop, hpast, Bool.false_or]
    cases hs : s.step with
    | error a => rfl
    | ok s' =>
      rw [hs] at hstep
      exact readsPastLoop_eq_false k hstep.1

lemma front_append {c : Char} {p q : Str → Prop} {name : Str} :
    Front c (fun t => ∃ u u', t = u ++ u' ∧ p u ∧ q u') name ↔ ∃ u u', name = u ++ u' ∧ Front c p u ∧ q u' := by
  unfold Front
  split
  · constructor
    · rintro ⟨x, ⟨y, rfl⟩, u, u', rfl, hp, hq⟩
      exact ⟨y ++ u, u', (List.append_assoc ..).symm, ⟨u, List.suffix_append .., hp⟩, hq⟩
    · rintro ⟨x, u', rfl, ⟨u, ⟨y, rfl⟩, hp⟩, hq⟩
      exact ⟨u ++ u', ⟨y, (List.append_assoc ..).symm⟩, u, u', rfl, hp, hq⟩
  · constructor
    · rintro ⟨b, x, rfl, hb, u, u', rfl, hp, hq⟩
      exact ⟨b :: u, u', rfl, ⟨b, u, rfl, hb, hp⟩, hq⟩
    · rintro ⟨x, u', rfl, ⟨b, u, rfl, hb, hp⟩, hq⟩
      exact ⟨b, u ++ u', rfl, hb, u, u', rfl, hp, hq⟩

lemma inMask_append {v : Str} : (w : Str) → regular w = true → ∀ {name : Str},
    InMask (w ++ v) name ↔ ∃ u u', name = u ++ u' ∧ InMask w u ∧ InMask v u'
  | [], _, name => by
    constructor
    · intro h
      exact ⟨[], name, rfl, rfl, h⟩
    · rintro ⟨u, u', rfl, hu, h⟩
      rw [show u = [] from hu]
      exact h
  | [c], hreg, name => by
    have hc : c ≠ '\\' := of_decide_eq_true hreg
    have hnil : (fun t => ∃ u u', t = u ++ u' ∧ u = [] ∧ InMask v u') = InMask v := by
      funext t
      exact propext ⟨fun ⟨u, u', ht, hu, h⟩ => by rw [ht, hu]; exact h, fun h => ⟨[], t, rfl, rfl, h⟩⟩
    have hfront := @front_append c (· = []) (InMask v) name
    rw [hnil] at hfront
    rw [List.singleton_append, inMask_cons hc, InMask]
    exact hfront
  | c :: d :: w, hreg, name => by
    rw [regular] at hreg
    by_cases hc : c = '\\'
    · subst hc
      rw [if_pos rfl] at hreg
      rw [List.cons_append, List.cons_append, inMask_escape]
      constructor
      · rintro ⟨x, rfl, h⟩
        obtain ⟨u, u', rfl, hu, hu'⟩ := (inMask_append w hreg).mp h
        exact ⟨d :: u, u', rfl, inMask_escape.mpr ⟨u, rfl, hu⟩, hu'⟩
      · rintro ⟨x, u', rfl, hx, hu'⟩
        obtain ⟨u, rfl, hu⟩ := inMask_escape.mp hx
        exact ⟨u ++ u', rfl, (inMask_append w hreg).mpr ⟨u, u', rfl, hu, hu'⟩⟩
    · rw [if_neg hc, Bool.and_eq_true] at hreg
      have ih : InMask (d :: w ++ v) = fun t => ∃ u u', t = u ++ u' ∧ InMask (d :: w) u ∧ InMask v u' := by
        funext t
        exact propext (inMask_append (d :: w) hreg.2)
      rw [List.cons_append, inMask_cons hc, ih, front_append, inMask_cons hc]

lemma inMask_esc : (s : Str) → ∀ {name : Str}, InMask (esc s) name ↔ List.Forall₂ SameChar s name
  | [], name => List.forall₂_nil_left_iff.symm
  | c :: s, name => by
    rw [esc, List.forall₂_cons_left_iff]
    split
    · rename_i hc
      rw [inMask_escape]
      constructor
      · rintro ⟨u, rfl, hu⟩
        exact ⟨c, u, ⟨rfl, fun _ => rfl⟩, (inMask_esc s).mp hu, rfl⟩
      · rintro ⟨b, u, ⟨hb, heq⟩, hu, rfl⟩
        have hcb : b = c := hc.elim (fun hwild => eq_of_toLower_wild hwild hb.symm) heq
        exact ⟨u, by rw [hcb], (inMask_esc s).mpr hu⟩
    · rename_i hc
      rw [not_or] at hc
      have hletter : Letter c := ⟨Bool.eq_false_iff.mpr hc.1, hc.2⟩
      cases name with
      | nil =>
        refine iff_of_false hletter.not_nil ?_
        rintro ⟨b, u, -, -, h⟩
        exact (nomatch h)
      | cons d n =>
        rw [hletter.cons_iff, inMask_esc s]
        constructor
        · rintro ⟨hd, hn⟩
          exact ⟨d, n, ⟨hd, fun e => absurd e hc.2⟩, hn, rfl⟩
        · rintro ⟨b, u, ⟨hb, -⟩, hu, h⟩
          injection h with hdb hnu
          exact ⟨hdb ▸ hb, hnu ▸ hu⟩

/-- **An escaped text at the end of a regular mask stands for itself**, and the mask is not left behind. -/
theorem match_escaped {w s : Str} (hw : regular w = true) (h : regular (w ++ esc s) = true) (t : Str) :
    (matchMask (w ++ esc s) t = 0 ↔ ∃ u s', t = u ++ s' ∧ matchMask w u = 0 ∧ List.Forall₂ SameChar s s') ∧
    readsPast (w ++ esc s) t = false := by
  refine ⟨?_, readsPastLoop_eq_false _ (.start h t)⟩
  rw [matchMask_iff_inMask h, inMask_append w hw]
  refine exists_congr fun u => exists_congr fun s' => and_congr_right fun _ => ?_
  rw [matchMask_iff_inMask hw, inMask_esc]

theorem match_escaped_star : (matchMask ("a*x".toList ++ esc "*B".toList) "abx*b".toList = 0 ↔
      ∃ u s', "abx*b".toList = u ++ s' ∧ matchMask "a*x".toList u = 0 ∧ List.Forall₂ SameChar "*B".toList s') ∧
    readsPast ("a*x".toList ++ esc "*B".toList) "abx*b".toList = false :=
  match_escaped (by decide) (by decide) _

/-- A backslash that is escaped is no bar, though the two are one letter; behind a star an escaped star is read as a
star again; and a backslash at the end of a mask is followed by what is not of the mask. -/
theorem escapes_fail : (matchMask ([] ++ esc "\\".toList) "|".toList = 1 ∧
      ∃ u s', "|".toList = u ++ s' ∧ matchMask [] u = 0 ∧ s'.map toLower = "\\".toList.map toLower) ∧
    (matchMask ("*".toList ++ esc "*b".toList) "a*cb".toList = 0 ∧
      ¬∃ u s', "a*cb".toList = u ++ s' ∧ matchMask "*".toList u = 0 ∧ s'.map toLower = "*b".toList.map toLower) ∧
    readsPast "a\\".toList "a".toList = true := by
  refine ⟨⟨by decide +kernel, [], "|".toList, rfl, by decide +kernel, by decide⟩, ⟨by decide +kernel, ?_⟩, by decide +kernel⟩
  rintro ⟨u, s', ht, -, hs⟩
  have hsuffix : "*b".toList.map toLower <:+ "a*cb".toList.map toLower :=
    ⟨u.map toLower, by rw [← hs, ht, List.map_append]⟩
  exact absurd hsuffix (by decide)

end Nefarious
