import Nefarious.Strings

/-!
# Formatting codes

A code is one character, but for the color, which may have one or two digits behind it, and then a comma and one
or two more.

Names: `ircd_string.c`.
-/

namespace Nefarious.Colors

/-- `ircd_string.h`. -/
def colorColor : Char := '\x03'

/-- The codes without parameters. `ircd_string.h` `COLOR_BOLD`, `COLOR_REVERSE`, `COLOR_UNDERLINE`,
`COLOR_ITALIC`, `COLOR_NORMAL`. -/
def isAttribute (c : Char) : Bool := c = '\x02' ∨ c = '\x16' ∨ c = '\x1f' ∨ c = '\x1d' ∨ c = '\x0f'

/-- A digit is passed, if there is one. `StripColor`. -/
def passDigit : Str → Str
  | d :: t => if isDigit d then t else d :: t
  | [] => []

/-- A comma and a number are passed, if they are there. `StripColor`. -/
def passComma : Str → Str
  | ',' :: e :: u => if isDigit e then passDigit u else ',' :: e :: u
  | t => t

/-- The parameters behind the color are passed. `StripColor`. -/
def passColor : Str → Str
  | d :: t => if isDigit d then passComma (passDigit t) else d :: t
  | [] => []

lemma passDigit_suffix (t : Str) : passDigit t <:+ t := by
  cases t with
  | nil => exact List.suffix_rfl
  | cons d t =>
    rw [passDigit]
    split
    · exact List.suffix_cons ..
    · exact List.suffix_rfl

lemma passComma_suffix (t : Str) : passComma t <:+ t := by
  rw [passComma.eq_def]
  split
  case h_1 e u =>
    split
    · exact (passDigit_suffix u).trans ((List.suffix_cons e u).trans (List.suffix_cons ..))
    · exact List.suffix_rfl
  case h_2 => exact List.suffix_rfl

lemma passColor_suffix (t : Str) : passColor t <:+ t := by
  cases t with
  | nil => exact List.suffix_rfl
  | cons d t =>
    rw [passColor]
    split
    · exact ((passComma_suffix _).trans (passDigit_suffix t)).trans (List.suffix_cons d t)
    · exact List.suffix_rfl

/-- The text without codes. What is written is not longer than the text, and the buffer has the size of a line. -/
def stripColor : Str → Str
  | [] => []
  | c :: t =>
    if isAttribute c then stripColor t
    else if c = colorColor then stripColor (passColor t)
    else c :: stripColor t
termination_by t => t.length
decreasing_by
  · exact Nat.lt_succ_self _
  · exact Nat.lt_succ_of_le (passColor_suffix t).length_le
  · exact Nat.lt_succ_self _

def hasColor : Str → Bool
  | [] => false
  | c :: t =>
    if c.toNat &&& 224 ≠ 0 then hasColor t
    else if isAttribute c ∨ c = colorColor then true
    else hasColor t

/-- A character that begins a code. -/
def isControl (c : Char) : Bool := isAttribute c || decide (c = colorColor)

inductive Number : Str → Prop
  | one (a : Char) (ha : isDigit a = true) : Number [a]
  | two (a b : Char) (ha : isDigit a = true) (hb : isDigit b = true) : Number [a, b]

/-- What may stand behind the color. -/
inductive Params : Str → Prop
  | none : Params []
  | foreground {fg : Str} (h : Number fg) : Params fg
  | both {fg bg : Str} (h : Number fg) (h' : Number bg) : Params (fg ++ ',' :: bg)

/-- A formatting code. -/
inductive Code : Str → Prop
  | single (c : Char) (h : isAttribute c = true) : Code [c]
  | color {ps : Str} (h : Params ps) : Code (colorColor :: ps)

/-- A text, and its characters that are not of a code. A code goes as far as it can. -/
inductive Kept : Str → Str → Prop
  | nil : Kept [] []
  | plain (c : Char) {t u : Str} (hc : isControl c = false) (h : Kept t u) : Kept (c :: t) (c :: u)
  | code {k t u : Str} (hk : Code k) (hlongest : ∀ p, p <+: t → Code (k ++ p) → p = []) (h : Kept t u) :
      Kept (k ++ t) u

lemma isAttribute_color : isAttribute colorColor = false := by decide

lemma passDigit_of_digit {d : Char} (h : isDigit d = true) (t : Str) : passDigit (d :: t) = t := if_pos h

lemma number_pass {a : Char} (ha : isDigit a = true) (t : Str) : ∃ fg, Number fg ∧ a :: t = fg ++ passDigit t := by
  cases t with
  | nil => exact ⟨[a], .one a ha, rfl⟩
  | cons b t =>
    rw [passDigit]
    split
    case isTrue hb => exact ⟨[a, b], .two a b ha hb, rfl⟩
    case isFalse => exact ⟨[a], .one a ha, rfl⟩

lemma params_pass (t : Str) : ∃ ps, Params ps ∧ t = ps ++ passColor t := by
  cases t with
  | nil => exact ⟨[], .none, rfl⟩
  | cons a t =>
    rw [passColor]
    split
    case isFalse => exact ⟨[], .none, rfl⟩
    case isTrue ha =>
      obtain ⟨fg, hfg, ht⟩ := number_pass ha t
      rw [ht, passComma.eq_def]
      split
      case h_1 e u htail =>
        split
        case isFalse => exact ⟨fg, .foreground hfg, by rw [htail]⟩
        case isTrue he =>
          obtain ⟨bg, hbg, hu⟩ := number_pass he u
          exact ⟨fg ++ ',' :: bg, .both hfg hbg, by rw [htail, hu]; simp⟩
      case h_2 => exact ⟨fg, .foreground hfg, rfl⟩

/-- No parameters go further than those that are passed. -/
lemma length_passColor {ps : Str} (h : Params ps) (r : Str) : (passColor (ps ++ r)).length ≤ r.length := by
  have hnumber : ∀ {ds : Str}, Number ds → ∀ r, ∃ a t, isDigit a = true ∧ ds ++ r = a :: t ∧
      (passDigit t).length ≤ r.length ∧ (r.head?.all (fun c => !isDigit c) = true → passDigit t = r) := by
    rintro _ (⟨a, ha⟩ | ⟨a, b, ha, hb⟩) r
    · refine ⟨a, r, ha, rfl, (passDigit_suffix r).length_le, fun hr => ?_⟩
      cases r with
      | nil => rfl
      | cons c r => exact if_neg (by simpa using hr)
    · exact ⟨a, b :: r, ha, rfl, by rw [passDigit_of_digit hb], fun _ => passDigit_of_digit hb r⟩
  cases h with
  | none => exact (passColor_suffix r).length_le
  | foreground h =>
    obtain ⟨a, t, ha, ht, hle, -⟩ := hnumber h r
    rw [ht, passColor, if_pos ha]
    exact (passComma_suffix _).length_le.trans hle
  | @both fg bg h h' =>
    obtain ⟨a, t, ha, ht, -, heq⟩ := hnumber h (',' :: (bg ++ r))
    obtain ⟨e, u, he, hu, hle, -⟩ := hnumber h' r
    rw [List.append_assoc, List.cons_append, ht, passColor, if_pos ha, heq rfl, hu, passComma, if_pos he]
    exact hle

lemma Code.params {ps : Str} (h : Code (colorColor :: ps)) : Params ps := by
  cases h with
  | single c hc => exact absurd hc (by decide)
  | color h => exact h

lemma passColor_longest {ps t : Str} (hps : Params ps)
    (hlongest : ∀ p, p <+: t → Code (colorColor :: ps ++ p) → p = []) : passColor (ps ++ t) = t := by
  obtain ⟨ps', hps', htext⟩ := params_pass (ps ++ t)
  obtain ⟨p, hp⟩ := List.suffix_of_suffix_length_le (passColor_suffix (ps ++ t)) (List.suffix_append ps t)
    (length_passColor hps t)
  have heq : ps ++ p = ps' := by
    refine @List.append_cancel_right _ _ (passColor (ps ++ t)) _ ?_
    rw [List.append_assoc, hp, ← htext]
  have hnil : p = [] := hlongest p ⟨_, hp⟩ (by rw [List.cons_append, heq]; exact .color hps')
  rwa [hnil, List.nil_append] at hp

lemma kept_unique {t u : Str} (h : Kept t u) : stripColor t = u := by
  induction h with
  | nil => rw [stripColor]
  | plain c hc h ih =>
    rw [isControl, Bool.or_eq_false_iff, decide_eq_false_iff_not] at hc
    rw [stripColor, if_neg (Bool.eq_false_iff.mp hc.1), if_neg hc.2, ih]
  | @code k t u hk hlongest h ih =>
    cases hk with
    | single c hc => rw [List.singleton_append, stripColor, if_pos hc, ih]
    | @color ps hps =>
      rw [List.cons_append, stripColor, if_neg (by decide), if_pos rfl, passColor_longest hps hlongest, ih]

lemma kept_strip (t : Str) : Kept t (stripColor t) := by
  induction t using stripColor.induct with
  | case1 =>
    rw [stripColor]
    exact .nil
  | case2 c t hc ih =>
    rw [stripColor, if_pos hc]
    refine .code (.single c hc) (fun p _ hp => ?_) ih
    cases hp with
    | single => rfl
    | color => exact absurd hc (by decide)
  | case3 t hc ih =>
    obtain ⟨ps, hps, ht⟩ := params_pass t
    have hlongest : ∀ p, p <+: passColor t → Code (colorColor :: ps ++ p) → p = [] := by
      rintro p ⟨r, hr⟩ hp
      have hlen := length_passColor (show Params (ps ++ p) from hp.params) r
      rw [List.append_assoc, hr, ← ht, ← hr, List.length_append] at hlen
      exact List.eq_nil_of_length_eq_zero (by omega)
    have hkept := Kept.code (.color hps) hlongest ih
    rw [List.cons_append, ← ht] at hkept
    rwa [stripColor, if_neg (by decide), if_pos rfl]
  | case4 c t hc hcolor ih =>
    rw [stripColor, if_neg hc, if_neg hcolor]
    exact .plain c (by simp [isControl, hc, hcolor]) ih

lemma Kept.sublist {t u : Str} (h : Kept t u) : u.Sublist t := by
  induction h with
  | nil => exact List.Sublist.slnil
  | plain c hc h ih => exact ih.cons_cons c
  | code hk hlongest h ih => exact ih.trans (List.sublist_append_right ..)

lemma Kept.plain_of_mem {t u : Str} (h : Kept t u) : ∀ c ∈ u, isControl c = false := by
  induction h with
  | nil => exact fun _ h => absurd h List.not_mem_nil
  | plain c hc h ih => exact List.forall_mem_cons.mpr ⟨hc, ih⟩
  | code hk hlongest h ih => exact ih

lemma kept_self : (u : Str) → (∀ c ∈ u, isControl c = false) → Kept u u ∧ hasColor u = false
  | [], _ => ⟨.nil, rfl⟩
  | c :: u, h => by
    obtain ⟨hc, hu⟩ := List.forall_mem_cons.mp h
    obtain ⟨hkept, hno⟩ := kept_self u hu
    refine ⟨.plain c hc hkept, ?_⟩
    rw [isControl, Bool.or_eq_false_iff, decide_eq_false_iff_not] at hc
    rw [hasColor, if_neg (not_or.mpr ⟨Bool.eq_false_iff.mp hc.1, hc.2⟩), hno, ite_self]

/-- **Stripping is complete.** What is kept of a text has no codes, does not change when it is stripped again, is a
subsequence of the text, and is all of it that is not of a code; a text of a line fits into the buffer. -/
theorem stripColor_complete (t : Str) : hasColor (stripColor t) = false ∧ stripColor (stripColor t) = stripColor t ∧
    (stripColor t).Sublist t ∧ ∀ u, Kept t u ↔ stripColor t = u := by
  have hkept := kept_strip t
  obtain ⟨hself, hno⟩ := kept_self _ hkept.plain_of_mem
  exact ⟨hno, kept_unique hself, hkept.sublist, fun u => ⟨kept_unique, fun h => h ▸ hkept⟩⟩

end Nefarious.Colors
