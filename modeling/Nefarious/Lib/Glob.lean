import Mathlib.Data.List.Forall2
import Mathlib.Data.List.Infix

/-!
# Patterns with stars

A pattern is a list of letters, of marks that stand for any one letter, and of stars that stand for any letters.
-/

namespace Nefarious.Lib.Glob

variable {α : Type}

/-- A symbol of a pattern. -/
inductive Tok (α : Type)
  | star
  | any
  | lit (a : α)
  deriving DecidableEq

/-- A symbol stands for the one letter. -/
def Tok.Fits : Tok α → α → Prop
  | .star, _ => False
  | .any, _ => True
  | .lit a, b => a = b

/-- A symbol may lie over another one. -/
def Tok.Over : Tok α → Tok α → Prop
  | .star, _ => False
  | .any, y => y ≠ .star
  | .lit a, y => y = .lit a

/-- A text matches a pattern. -/
inductive Matches : List (Tok α) → List α → Prop
  | nil : Matches [] []
  | one {x : Tok α} {b : α} {p : List (Tok α)} {s : List α} (hx : x.Fits b) (h : Matches p s) :
      Matches (x :: p) (b :: s)
  /-- A star stands for no more letters. -/
  | skip {p : List (Tok α)} {s : List α} (h : Matches p s) : Matches (.star :: p) s
  /-- A star stands for one more letter. -/
  | more {b : α} {p : List (Tok α)} {s : List α} (h : Matches (.star :: p) s) :
      Matches (.star :: p) (b :: s)

/-- A pattern covers another one. -/
inductive Covers : List (Tok α) → List (Tok α) → Prop
  | nil : Covers [] []
  | one {x y : Tok α} {p q : List (Tok α)} (hx : x.Over y) (h : Covers p q) : Covers (x :: p) (y :: q)
  /-- A star over no more symbols. -/
  | skip {p q : List (Tok α)} (h : Covers p q) : Covers (.star :: p) q
  /-- A star over one more symbol. -/
  | more {y : Tok α} {p q : List (Tok α)} (h : Covers (.star :: p) q) : Covers (.star :: p) (y :: q)
  /-- A star and a mark change places. -/
  | swap {p q : List (Tok α)} (h : Covers (.any :: .star :: p) q) : Covers (.star :: .any :: p) q

/-! ### Matching -/

lemma matches_nil_iff {s : List α} : Matches [] s ↔ s = [] := by
  constructor
  · intro h
    cases h
    rfl
  · rintro rfl
    exact .nil

lemma not_matches_nil {x : Tok α} {p : List (Tok α)} (hx : x ≠ .star) : ¬Matches (x :: p) [] := by
  intro h
  cases h
  exact hx rfl

lemma matches_cons_iff {x : Tok α} {p : List (Tok α)} {b : α} {s : List α} (hx : x ≠ .star) :
    Matches (x :: p) (b :: s) ↔ x.Fits b ∧ Matches p s := by
  constructor
  · intro h
    cases h with
    | one hfit h => exact ⟨hfit, h⟩
    | skip h => exact absurd rfl hx
    | more h => exact absurd rfl hx
  · rintro ⟨hfit, h⟩
    exact .one hfit h

lemma Matches.star_append {p : List (Tok α)} {s : List α} (h : Matches (.star :: p) s) :
    (t : List α) → Matches (.star :: p) (t ++ s)
  | [] => h
  | _ :: t => .more (h.star_append t)

/-- **Behind a star the text may be longer in front**. -/
theorem Matches.star_of_suffix {p : List (Tok α)} {s u : List α} (h : Matches (.star :: p) u)
    (hu : u <:+ s) : Matches (.star :: p) s := by
  obtain ⟨t, rfl⟩ := hu
  exact h.star_append t

/-- **A star stands for what is in front of a suffix**. -/
theorem matches_star_iff {p : List (Tok α)} {s : List α} :
    Matches (.star :: p) s ↔ ∃ u, u <:+ s ∧ Matches p u := by
  constructor
  · intro h
    generalize hq : Tok.star :: p = q at h
    induction h with
    | nil => exact (nomatch hq)
    | one hx h ih =>
      injection hq with hx'
      exact absurd hx (hx' ▸ id)
    | skip h ih =>
      injection hq with _ hp
      exact ⟨_, List.suffix_refl _, hp ▸ h⟩
    | more h ih =>
      obtain ⟨u, hu, hpu⟩ := ih hq
      exact ⟨u, hu.trans (List.suffix_cons ..), hpu⟩
  · rintro ⟨u, hu, h⟩
    exact Matches.star_of_suffix (.skip h) hu

lemma matches_star_star_iff {p : List (Tok α)} {s : List α} :
    Matches (.star :: .star :: p) s ↔ Matches (.star :: p) s := by
  constructor
  · intro h
    obtain ⟨u, hu, h⟩ := matches_star_iff.mp h
    exact h.star_of_suffix hu
  · exact .skip

/-- **A star and a mark may change places**. -/
theorem matches_star_any_iff {p : List (Tok α)} {s : List α} :
    Matches (.star :: .any :: p) s ↔ Matches (.any :: .star :: p) s := by
  have hany : (Tok.any : Tok α) ≠ .star := nofun
  constructor
  · intro h
    obtain ⟨u, ⟨t, rfl⟩, hp⟩ := matches_star_iff.mp h
    cases u with
    | nil => exact absurd hp (not_matches_nil hany)
    | cons b u =>
      have htail : Matches (.star :: p) u := .skip ((matches_cons_iff hany).mp hp).2
      cases t with
      | nil => exact .one trivial htail
      | cons c t => exact .one trivial (htail.more.star_append t)
  · intro h
    cases s with
    | nil => exact absurd h (not_matches_nil hany)
    | cons b s =>
      obtain ⟨u, ⟨t, rfl⟩, hp⟩ := matches_star_iff.mp ((matches_cons_iff hany).mp h).2
      clear h
      -- the mark moves to the last letter that the star stood for
      induction t generalizing b with
      | nil => exact .skip (.one trivial hp)
      | cons c t ih => exact .more (ih c)

def Fixed (c : List (Tok α)) : Prop := Tok.star ∉ c

/-! ### Covering -/

lemma Tok.Over.fits {x y : Tok α} {b : α} (h : x.Over y) (hy : y.Fits b) : x.Fits b := by
  cases x with
  | star => exact h
  | any => trivial
  | lit a =>
    obtain rfl : y = .lit a := h
    exact hy

lemma Tok.Over.ne_star {x y : Tok α} (h : x.Over y) : y ≠ .star := by
  rintro rfl
  cases x with
  | star => exact h
  | any => exact h rfl
  | lit a => exact (nomatch h)

/-- **What the covered pattern matches is matched by the one that covers it**. -/
theorem Covers.matches {p q : List (Tok α)} (h : Covers p q) : ∀ {s : List α}, Matches q s → Matches p s := by
  induction h with
  | nil => exact id
  | one hx h ih =>
    intro s hs
    cases s with
    | nil => exact absurd hs (not_matches_nil hx.ne_star)
    | cons b s =>
      obtain ⟨hfit, hs⟩ := (matches_cons_iff hx.ne_star).mp hs
      exact .one (hx.fits hfit) (ih hs)
  | skip h ih => exact fun hs => .skip (ih hs)
  | @more y p q h ih =>
    intro s hs
    obtain ⟨u, hu, hs⟩ : ∃ u, u <:+ s ∧ Matches q u := by
      cases hs with
      | one hx hs => exact ⟨_, List.suffix_cons .., hs⟩
      | skip hs => exact ⟨_, List.suffix_refl _, hs⟩
      | more hs =>
        obtain ⟨u, hu, hs⟩ := matches_star_iff.mp hs
        exact ⟨u, hu.trans (List.suffix_cons ..), hs⟩
    exact (ih hs).star_of_suffix hu
  | swap h ih => exact fun hs => matches_star_any_iff.mpr (ih hs)

lemma covers_star : (q : List (Tok α)) → Covers [.star] q
  | [] => .skip .nil
  | _ :: q => .more (covers_star q)

lemma covers_star_marks (q : List (Tok α)) : (d : List (Tok α)) → Fixed d →
    Covers (.star :: List.replicate d.length .any) (d ++ q)
  | [], _ => covers_star q
  | y :: d, hd => by
    have hy : y ≠ .star := fun e => hd (e ▸ List.mem_cons_self)
    have htail := covers_star_marks q d fun hmem => hd (List.mem_cons_of_mem _ hmem)
    exact .swap (.one hy htail)

end Nefarious.Lib.Glob
