import Mathlib.Data.List.Chain
import Mathlib.Data.List.Induction
import Nefarious.Strings

/-!
# The user name of a client that registers

`authSetUsername` puts the user name of a client together and, unless iauth forced it, scans it once with six
counters and the character before.

Names: `s_auth.c`.
-/

namespace Nefarious.Username

open Option (any_none any_some some_inj some_ne_none)
open List (cons_append countP_append nil_append)

/-! ### Characters -/

/-- `ircd_chattr.h` `IsLower`; `table_gen.c`. -/
def isLower (c : Char) : Bool := 'a' ≤ c ∧ c ≤ '~'

/-- `ircd_chattr.h` `IsUpper`; `table_gen.c`. -/
def isUpper (c : Char) : Bool := 'A' ≤ c ∧ c ≤ '^'

/-- `ircd_chattr.h`. -/
def isAlnum (c : Char) : Bool := isLower c || isUpper c || isDigit c

/-- The other characters of a user name. `auth_set_username`. -/
def isMark (c : Char) : Bool := c = '-' ∨ c = '_' ∨ c = '.'

/-- `ircd_chattr.h`. -/
def isCntrl (c : Char) : Bool := c.toNat < 32

/-- `ircd_chattr.h` `IsUserChar`; `table_gen.c` `NTL_IRCUI`. -/
def isUserChar (c : Char) : Bool :=
  isAlnum c ∨ (0xc0 ≤ c.toNat ∧ c.toNat ≤ 0xd6) ∨ (0xd8 ≤ c.toNat ∧ c.toNat ≤ 0xde) ∨
    (0xe0 ≤ c.toNat ∧ c.toNat ≤ 0xf6) ∨ (0xf8 ≤ c.toNat ∧ c.toNat ≤ 0xfe) ∨ c ∈ ".-_^'`~".toList

/-- `USERLEN`. `ircd_defs.h`. -/
def userLen : ℕ := 10

def cleanUsername (src : Str) : Str :=
  match src.takeWhile fun c => !isCntrl c with
  | [] => []
  | ch :: rest =>
    (if isUserChar ch then ch else '_') ::
      (rest.take (userLen - 1)).map fun ch => if isUserChar ch ∧ ch ≠ '~' then ch else '_'

/-! ### The scan -/

/-- The variables of the loop. `auth_set_username`. -/
structure Scan where
  lower : ℕ
  upper : ℕ
  leadcaps : ℕ
  other : ℕ
  digits : ℕ
  digitgroups : ℕ
  /-- `last`; a NUL is `none`. -/
  last : Option Char
deriving DecidableEq

/-- Their values before it. `auth_set_username`. -/
def Scan.init : Scan := ⟨0, 0, 0, 0, 0, 0, none⟩

/-- One character; `none` is `goto badid`. `auth_set_username`. -/
def Scan.step (st : Scan) (ch : Char) : Option Scan :=
  if isLower ch then some { st with lower := st.lower + 1, last := some ch }
  else if isUpper ch then
    if (st.leadcaps ≠ 0 ∨ st.last = none) ∧ st.lower = 0 ∧ st.digits = 0 then
      some { st with upper := st.upper + 1, leadcaps := st.leadcaps + 1, last := some ch }
    else some { st with upper := st.upper + 1, last := some ch }
  else if isDigit ch then
    if st.last.any isDigit then some { st with digits := st.digits + 1, last := some ch }
    else if 2 < st.digitgroups + 1 then none
    else some { st with digits := st.digits + 1, digitgroups := st.digitgroups + 1, last := some ch }
  else if isMark ch then
    if st.last = none ∨ st.last.any isMark ∨ 2 < st.other + 1 then none
    else some { st with other := st.other + 1, last := some ch }
  else none

/-- The loop. `auth_set_username`. -/
def scan (s : Str) : Option Scan := s.foldlM Scan.step Scan.init

/-- The verdict behind the loop. `auth_set_username`. -/
def Scan.badid (st : Scan) (s : Str) : Bool :=
  -- `ch` is the NUL that the loop stopped at.
  let ch : Option Char := none
  if st.lower ≠ 0 ∧ st.upper ≠ 0 ∧
      (st.leadcaps = 0 ∨ 3 < st.leadcaps ∨ (2 < st.upper ∧ st.leadcaps < st.upper)) then true
  else if st.digitgroups = 2 ∧ ¬ (s.head?.any isDigit ∨ ch.any isDigit) then true
  else if st.lower = 0 ∧ st.upper = 0 then true
  else !st.last.any isAlnum

/-- The checks of a name go wrong. `auth_set_username`. -/
def badid (s : Str) : Bool :=
  match scan s with
  | none => true
  | some st => st.badid s

/-! ### Setting the user name -/

/-- A client whose user name is set. `auth_set_username`. -/
structure Request where
  /-- `AR_IAUTH_FUSERNAME`. -/
  forced : Bool
  idented : Bool
  doid : Bool
  /-- `feature_bool(FEAT_STRICTUSERNAME)`. -/
  strict : Bool
  /-- `find_kill` finds a line for it. -/
  kill : Bool
  /-- `cli_username`: what ident or iauth gave. -/
  cliUsername : Str
  /-- `user->username`: what it gave itself, cleaned. -/
  username : Str
deriving DecidableEq

/-- What becomes of it. `auth_set_username`. -/
inductive Outcome where
  | kept
  /-- `"USER: Bogus userid."`. -/
  | bogus
  | killed
  | badUsername
deriving DecidableEq

/-- The user name that is put together. `auth_set_username`. -/
def Request.stored (a : Request) : Str :=
  if a.forced then ircdStrncpy a.username a.cliUsername (userLen + 1)
  else if a.idented then cleanUsername a.cliUsername
  else if a.doid then '~' :: a.username.take (userLen - 1)
  else a.username

/-- Without the mark of a user name that is not confirmed. `auth_set_username` (`s`). -/
def strip : Str → Str
  | '~' :: s => s
  | s => s

def authSetUsername (a : Request) : Outcome :=
  if a.stored = [] ∨ a.stored = ['~'] then .bogus
  else if a.kill then .killed
  else if !a.forced && badid (strip a.stored) then
    if a.idented ∧ a.cliUsername = a.stored then .kept
    else if !a.strict then .kept
    else .badUsername
  else .kept

/-- The groups of digits, each counted at its last digit. -/
def digitGroups : Str → ℕ
  | [] => 0
  | c :: s => (if isDigit c ∧ ¬ s.head?.any isDigit then 1 else 0) + digitGroups s

/-- The capitals before all lower-case letters and digits. `auth_set_username` ("Accept caps as leading if we
haven't seen lower case or digits yet"). -/
def leading (s : Str) : ℕ := (s.takeWhile fun c => !isLower c && !isDigit c).countP isUpper

/-- The rules for user names. `auth_set_username` (comments). -/
structure Rules (s : Str) : Prop where
  chars : ∀ c ∈ s, isAlnum c ∨ isMark c
  groups : digitGroups s ≤ 2
  bounds : digitGroups s = 2 → s.head?.any isDigit ∨ s.getLast?.any isDigit
  start : ¬ s.head?.any isMark
  apart : s.IsChain fun c d => ¬ (isMark c ∧ isMark d)
  marks : s.countP isMark ≤ 2
  final : ¬ s.getLast?.any isMark
  letter : ∃ c ∈ s, isLower c ∨ isUpper c
  caps : (∃ c ∈ s, isLower c) → (∃ c ∈ s, isUpper c) →
    s.head?.any isUpper ∧ leading s ≤ 3 ∧ (3 ≤ s.countP isUpper → leading s = s.countP isUpper)

/-! ### What the scan counts -/

/-- Nothing that the loop stops at. `auth_set_username`. -/
structure Allowed (s : Str) : Prop where
  chars : ∀ c ∈ s, isAlnum c ∨ isMark c
  groups : digitGroups s ≤ 2
  start : ¬ s.head?.any isMark
  apart : s.IsChain fun c d => ¬ (isMark c ∧ isMark d)
  marks : s.countP isMark ≤ 2

/-- The counters behind a text. `auth_set_username`. -/
def counts (s : Str) : Scan where
  lower := s.countP isLower
  upper := s.countP isUpper
  leadcaps := if s.head?.any isUpper then leading s else 0
  other := s.countP isMark
  digits := s.countP isDigit
  digitgroups := digitGroups s
  last := s.getLast?

lemma not_isUpper_of_isLower {c : Char} (h : isLower c = true) : isUpper c = false := by
  have hle : 'a' ≤ c := (of_decide_eq_true h).1
  apply decide_eq_false
  rintro ⟨-, hc⟩
  exact absurd (Char.le_def.mp (hle.trans hc)) (by decide)

lemma not_letter_of_isDigit {c : Char} (h : isDigit c = true) : isLower c = false ∧ isUpper c = false := by
  have hle : c ≤ '9' := (of_decide_eq_true h).2
  constructor
  · apply decide_eq_false
    rintro ⟨hc, -⟩
    exact absurd (Char.le_def.mp (hc.trans hle)) (by decide)
  · apply decide_eq_false
    rintro ⟨hc, -⟩
    exact absurd (Char.le_def.mp (hc.trans hle)) (by decide)

lemma class_cases (c : Char) : (isLower c = true ∧ isUpper c = false ∧ isDigit c = false ∧ isMark c = false) ∨
    (isLower c = false ∧ isUpper c = true ∧ isDigit c = false ∧ isMark c = false) ∨
    (isLower c = false ∧ isUpper c = false ∧ isDigit c = true ∧ isMark c = false) ∨
    (isLower c = false ∧ isUpper c = false ∧ isDigit c = false ∧ isMark c = true) ∨
    (isLower c = false ∧ isUpper c = false ∧ isDigit c = false ∧ isMark c = false) := by
  have hmark : isMark c = true → isLower c = false ∧ isUpper c = false ∧ isDigit c = false := by
    intro hm
    rcases of_decide_eq_true hm with rfl | rfl | rfl
    · decide
    · decide
    · decide
  have hlower := @not_isUpper_of_isLower c
  have hdigit := @not_letter_of_isDigit c
  revert hmark hlower hdigit
  cases isLower c <;> cases isUpper c <;> cases isDigit c <;> cases isMark c <;> simp

variable {c : Char} {s : Str}

lemma not_isAlnum_of_isMark (h : isMark c = true) : isAlnum c = false := by
  rcases of_decide_eq_true h with rfl | rfl | rfl
  · decide
  · decide
  · decide

lemma of_isUpper (h : isUpper c = true) : isLower c = false ∧ isDigit c = false := by
  rcases class_cases c with hc | hc | hc | hc | hc
  all_goals simp_all

lemma digitGroups_snoc (c : Char) : (s : Str) → digitGroups (s ++ [c]) =
    digitGroups s + if isDigit c ∧ ¬ s.getLast?.any isDigit then 1 else 0
  | [] => by simp [digitGroups]
  | [d] => by
    simp only [cons_append, nil_append, digitGroups, List.head?_cons, List.head?_nil, any_some,
      any_none, List.getLast?_singleton, Nat.add_zero]
    by_cases hc : isDigit c
    · by_cases hd : isDigit d
      · simp [hc, hd]
      · simp [hc, hd]
    · simp [hc]
  | d :: e :: s => by
    have ih := digitGroups_snoc c (e :: s)
    rw [cons_append, digitGroups, ih, digitGroups.eq_2 d, List.getLast?_cons_cons, cons_append,
      List.head?_cons, List.head?_cons, Nat.add_assoc]

lemma leading_snoc (s : Str) (c : Char) : leading (s ++ [c]) =
    leading s + if s.countP isLower = 0 ∧ s.countP isDigit = 0 ∧ isUpper c then 1 else 0 := by
  have hall : (∀ d ∈ s, (!isLower d && !isDigit d) = true) ↔ s.countP isLower = 0 ∧ s.countP isDigit = 0 := by
    simp only [List.countP_eq_zero, Bool.and_eq_true, Bool.not_eq_true', Bool.not_eq_true]
    exact ⟨fun h => ⟨fun d hd => (h d hd).1, fun d hd => (h d hd).2⟩, fun h d hd => ⟨h.1 d hd, h.2 d hd⟩⟩
  unfold leading
  by_cases h : ∀ d ∈ s, (!isLower d && !isDigit d) = true
  · have hif : (s.countP isLower = 0 ∧ s.countP isDigit = 0 ∧ isUpper c) ↔ isUpper c :=
      ⟨fun hc => hc.2.2, fun hc => ⟨(hall.mp h).1, (hall.mp h).2, hc⟩⟩
    rw [List.takeWhile_append_of_pos h, countP_append, List.takeWhile_eq_self_iff.mpr h, if_congr hif rfl rfl]
    congr 1
    cases hu : isUpper c with
    | false =>
      rw [if_neg Bool.false_ne_true, List.countP_eq_zero]
      intro d hd
      rw [List.mem_singleton.mp (List.takeWhile_subset _ hd), hu]
      exact Bool.false_ne_true
    | true =>
      obtain ⟨hlow, hdig⟩ := of_isUpper hu
      simp [hlow, hdig, hu]
  · rw [List.takeWhile_append, if_neg, if_neg]
    · rfl
    · exact fun hc => h (hall.mpr ⟨hc.1, hc.2.1⟩)
    · intro hlen
      apply h
      rw [← List.takeWhile_eq_self_iff]
      exact (List.takeWhile_prefix _).eq_of_length hlen

lemma head?_snoc {s : Str} {c : Char} (h : s ≠ []) : (s ++ [c]).head? = s.head? :=
  List.head?_append_of_ne_nil s h

lemma Allowed.snoc_iff (h : Allowed s) (c : Char) : Allowed (s ++ [c]) ↔
    (isAlnum c ∨ isMark c) ∧ (isDigit c → s.getLast?.any isDigit ∨ digitGroups s < 2) ∧
      (isMark c → s ≠ [] ∧ ¬ s.getLast?.any isMark ∧ s.countP isMark < 2) := by
  have hgroups := h.groups
  have hmarks := h.marks
  constructor
  · intro ha
    refine ⟨ha.chars c (by simp), ?_, ?_⟩
    · intro hc
      have hle := ha.groups
      rw [digitGroups_snoc] at hle
      by_contra hno
      rw [not_or] at hno
      rw [if_pos ⟨hc, hno.1⟩] at hle
      omega
    · intro hc
      have hle := ha.marks
      rw [countP_append, List.countP_singleton, if_pos hc] at hle
      refine ⟨?_, ?_, by omega⟩
      · rintro rfl
        exact ha.start hc
      · intro hlast
        have hchain := (List.isChain_append.mp ha.apart).2.2
        cases hd : s.getLast? with
        | none =>
          rw [hd] at hlast
          exact absurd hlast Bool.false_ne_true
        | some d =>
          rw [hd] at hlast
          exact hchain d hd c rfl ⟨hlast, hc⟩
  · rintro ⟨hchars, hdigit, hmark⟩
    refine ⟨?_, ?_, ?_, ?_, ?_⟩
    · intro d hd
      rcases List.mem_append.mp hd with hd | hd
      · exact h.chars d hd
      · rw [List.mem_singleton.mp hd]
        exact hchars
    · rw [digitGroups_snoc]
      split_ifs with hc
      · have := (hdigit hc.1).resolve_left hc.2
        omega
      · omega
    · by_cases hs : s = []
      · subst hs
        exact fun hc => (hmark hc).1 rfl
      · rw [head?_snoc hs]
        exact h.start
    · apply List.isChain_append.mpr
      refine ⟨h.apart, List.isChain_singleton _, ?_⟩
      rintro d hd e he ⟨hd', he'⟩
      obtain rfl : c = e := by simpa using he
      apply (hmark he').2.1
      rw [Option.mem_def.mp hd]
      exact hd'
    · rw [countP_append, List.countP_singleton]
      split_ifs with hc
      · have := (hmark hc).2.2
        omega
      · omega

lemma Allowed.of_snoc (h : Allowed (s ++ [c])) : Allowed s := by
  refine ⟨fun d hd => h.chars d (List.mem_append_left _ hd), ?_, ?_, (List.isChain_append.mp h.apart).1, ?_⟩
  · have hle := h.groups
    rw [digitGroups_snoc] at hle
    exact (Nat.le_add_right _ _).trans hle
  · by_cases hs : s = []
    · subst hs
      exact Bool.false_ne_true
    · have hstart := h.start
      rwa [head?_snoc hs] at hstart
  · have hle := h.marks
    rw [countP_append] at hle
    exact (Nat.le_add_right _ _).trans hle

lemma counts_snoc (s : Str) (c : Char) : counts (s ++ [c]) =
    { lower := s.countP isLower + if isLower c then 1 else 0
      upper := s.countP isUpper + if isUpper c then 1 else 0
      leadcaps := (counts s).leadcaps +
        if isUpper c ∧ ((counts s).leadcaps ≠ 0 ∨ s = []) ∧ s.countP isLower = 0 ∧ s.countP isDigit = 0
        then 1 else 0
      other := s.countP isMark + if isMark c then 1 else 0
      digits := s.countP isDigit + if isDigit c then 1 else 0
      digitgroups := digitGroups s + if isDigit c ∧ ¬ s.getLast?.any isDigit then 1 else 0
      last := some c } := by
  have hlead : (counts (s ++ [c])).leadcaps = (counts s).leadcaps +
      if isUpper c ∧ ((counts s).leadcaps ≠ 0 ∨ s = []) ∧ s.countP isLower = 0 ∧ s.countP isDigit = 0
      then 1 else 0 := by
    cases s with
    | nil =>
      have hnil : leading [] = 0 := rfl
      have hone := leading_snoc [] c
      rw [nil_append, hnil, Nat.zero_add] at hone
      simp only [counts, nil_append, List.head?_cons, any_some, hone, List.head?_nil, any_none,
        List.countP_nil, true_and]
      by_cases hu : isUpper c
      · simp [hu]
      · simp [hu]
    | cons d s =>
      have hpos : isUpper d → 1 ≤ leading (d :: s) := by
        intro hd
        obtain ⟨hlow, hdig⟩ := of_isUpper hd
        rw [leading, List.takeWhile_cons_of_pos (by rw [hlow, hdig]; rfl), List.countP_cons_of_pos hd]
        exact Nat.le_add_left 1 _
      simp only [counts, cons_append, List.head?_cons, any_some]
      rw [← cons_append, leading_snoc]
      by_cases hd : isUpper d
      · have := hpos hd
        have hne : leading (d :: s) ≠ 0 := by omega
        simp only [hd, if_true, hne, ne_eq, not_false_eq_true, true_or, true_and]
        congr 1
        exact if_congr ⟨fun h => ⟨h.2.2, h.1, h.2.1⟩, fun h => ⟨h.2.1, h.2.2, h.1⟩⟩ rfl rfl
      · simp [hd]
  have hlast : (s ++ [c]).getLast? = some c := List.getLast?_concat
  rw [← hlead]
  simp only [counts, countP_append, List.countP_singleton, digitGroups_snoc, hlast]

lemma step_counts (h : Allowed s) (c : Char) {st : Scan} :
    (counts s).step c = some st ↔ Allowed (s ++ [c]) ∧ st = counts (s ++ [c]) := by
  have hnil : (counts s).last = none ↔ s = [] := List.getLast?_eq_none_iff
  have hsome : ∀ x : Scan, some x = some st ↔ st = x := fun x => some_inj.trans eq_comm
  rw [h.snoc_iff, counts_snoc]
  unfold Scan.step
  rcases class_cases c with ⟨hl, hu, hd, hm⟩ | ⟨hl, hu, hd, hm⟩ | ⟨hl, hu, hd, hm⟩ | ⟨hl, hu, hd, hm⟩ |
    ⟨hl, hu, hd, hm⟩
  all_goals simp only [hl, hu, hd, hm, isAlnum, Bool.false_eq_true, if_false, if_true, false_and, true_and,
    Nat.add_zero, Bool.or_false, Bool.false_or, or_false, or_true, false_implies, true_implies, and_true]
  · exact hsome _
  · by_cases hlead : ((counts s).leadcaps ≠ 0 ∨ s = []) ∧ s.countP isLower = 0 ∧ s.countP isDigit = 0
    · have hlead' : ((counts s).leadcaps ≠ 0 ∨ (counts s).last = none) ∧ (counts s).lower = 0 ∧
          (counts s).digits = 0 := ⟨hlead.1.imp_right hnil.mpr, hlead.2⟩
      rw [if_pos hlead, if_pos hlead']
      exact hsome _
    · have hlead' : ¬ (((counts s).leadcaps ≠ 0 ∨ (counts s).last = none) ∧ (counts s).lower = 0 ∧
          (counts s).digits = 0) := fun hc => hlead ⟨hc.1.imp_right hnil.mp, hc.2⟩
      rw [if_neg hlead, if_neg hlead']
      exact hsome _
  · have hlast : (counts s).last = s.getLast? := rfl
    have hgroups : (counts s).digitgroups = digitGroups s := rfl
    rw [hlast, hgroups]
    by_cases hafter : s.getLast?.any isDigit
    · rw [if_pos hafter, if_neg (not_not.mpr hafter), and_iff_right (Or.inl hafter)]
      exact hsome _
    · rw [if_neg hafter, if_pos hafter]
      by_cases hmany : 2 < digitGroups s + 1
      · rw [if_pos hmany]
        apply iff_of_false (some_ne_none _).symm
        rintro ⟨hor, -⟩
        have := hor.resolve_left hafter
        omega
      · rw [if_neg hmany, and_iff_right (Or.inr (by omega))]
        exact hsome _
  · have hlast : (counts s).last = s.getLast? := rfl
    have hother : (counts s).other = s.countP isMark := rfl
    simp only [hnil, hother]
    rw [hlast]
    by_cases hbad : s = [] ∨ s.getLast?.any isMark ∨ 2 < s.countP isMark + 1
    · rw [if_pos hbad]
      apply iff_of_false (some_ne_none _).symm
      rintro ⟨⟨hne, hlast, hlt⟩, -⟩
      rcases hbad with hbad | hbad | hbad
      · exact hne hbad
      · exact hlast hbad
      · omega
    · rw [not_or, not_or] at hbad
      rw [if_neg (by tauto), and_iff_right ⟨hbad.1, hbad.2.1, by omega⟩]
      exact hsome _
  · exact iff_of_false (some_ne_none _).symm nofun

lemma scan_eq (s : Str) : ∀ st : Scan, scan s = some st ↔ Allowed s ∧ st = counts s := by
  induction s using List.reverseRecOn with
  | nil =>
    intro st
    have hnil : Allowed [] := ⟨nofun, by decide, by decide, .nil, by decide⟩
    rw [and_iff_right hnil]
    exact some_inj.trans eq_comm
  | append_singleton s c ih =>
    intro st
    have hscan : scan (s ++ [c]) = (scan s).bind fun st => st.step c := by
      rw [scan, List.foldlM_append, scan]
      simp
    rw [hscan, Option.bind_eq_some_iff]
    constructor
    · rintro ⟨st', hst', hstep⟩
      obtain ⟨hs, rfl⟩ := (ih st').mp hst'
      exact (step_counts hs c).mp hstep
    · rintro ⟨hsc, rfl⟩
      have hs : Allowed s := hsc.of_snoc
      exact ⟨counts s, (ih _).mpr ⟨hs, rfl⟩, (step_counts hs c).mpr ⟨hsc, rfl⟩⟩

/-! ### The verdict -/

lemma countP_ne_zero {p : Char → Bool} : s.countP p ≠ 0 ↔ ∃ c ∈ s, p c = true := by
  rw [← Nat.pos_iff_ne_zero, List.countP_pos_iff]

lemma leading_le (s : Str) : leading s ≤ s.countP isUpper := (List.takeWhile_sublist _).countP_le

lemma leadcaps_eq_zero : (counts s).leadcaps = 0 ↔ ¬ s.head?.any isUpper := by
  unfold counts
  dsimp only
  split_ifs with h
  · cases s with
    | nil => exact absurd h Bool.false_ne_true
    | cons c s =>
      obtain ⟨hlow, hdig⟩ := of_isUpper h
      have hpos : leading (c :: s) ≠ 0 := by
        rw [leading, List.takeWhile_cons_of_pos (by rw [hlow, hdig]; rfl), countP_ne_zero]
        exact ⟨c, List.mem_cons_self, h⟩
      exact iff_of_false hpos (not_not.mpr h)
  · exact iff_of_true rfl h

lemma caps_iff : ((counts s).leadcaps = 0 ∨ 3 < (counts s).leadcaps ∨
    (2 < (counts s).upper ∧ (counts s).leadcaps < (counts s).upper)) ↔
      ¬ (s.head?.any isUpper ∧ leading s ≤ 3 ∧ (3 ≤ s.countP isUpper → leading s = s.countP isUpper)) := by
  have hle := leading_le s
  rw [leadcaps_eq_zero]
  by_cases hhead : s.head?.any isUpper
  · have hlead : (counts s).leadcaps = leading s := if_pos hhead
    have hupper : (counts s).upper = s.countP isUpper := rfl
    rw [hlead, hupper, or_iff_right (not_not.mpr hhead), and_iff_right hhead]
    omega
  · exact iff_of_true (Or.inl hhead) fun h => hhead h.1

lemma final_iff (h : Allowed s) (hne : s ≠ []) : s.getLast?.any isAlnum ↔ ¬ s.getLast?.any isMark := by
  obtain ⟨c, hc⟩ := Option.isSome_iff_exists.mp (List.getLast?_isSome.mpr hne)
  have hmem : c ∈ s := List.mem_of_getLast? hc
  rw [hc, any_some, any_some]
  constructor
  · intro ha hm
    rw [not_isAlnum_of_isMark hm] at ha
    exact Bool.false_ne_true ha
  · exact fun hm => (h.chars c hmem).resolve_right hm

/-- Two groups of digits that the verdict does not see: neither is at the start, but one is at the end. `auth_set_username` (`IsDigit(ch)`). -/
def TrailingDigits (s : Str) : Prop := digitGroups s = 2 ∧ ¬ s.head?.any isDigit

lemma badid_iff (s : Str) : badid s = false ↔ Rules s ∧ ¬ TrailingDigits s := by
  have hscan := scan_eq s
  unfold badid
  cases hs : scan s with
  | none =>
    apply iff_of_false (by simp)
    rintro ⟨h, -⟩
    have hall : Allowed s := ⟨h.chars, h.groups, h.start, h.apart, h.marks⟩
    have hsome := (hscan (counts s)).mpr ⟨hall, rfl⟩
    rw [hs] at hsome
    cases hsome
  | some st =>
    obtain ⟨hall, rfl⟩ := (hscan st).mp hs
    have hlower : (counts s).lower ≠ 0 ↔ ∃ c ∈ s, isLower c := countP_ne_zero
    have hupper : (counts s).upper ≠ 0 ↔ ∃ c ∈ s, isUpper c := countP_ne_zero
    dsimp only
    unfold Scan.badid
    dsimp only
    constructor
    · intro hgood
      split_ifs at hgood with hcaps hgroups hletter
      have hletters : ∃ c ∈ s, isLower c ∨ isUpper c := by
        rcases not_and_or.mp hletter with hl | hu
        · obtain ⟨c, hc, hl⟩ := hlower.mp hl
          exact ⟨c, hc, Or.inl hl⟩
        · obtain ⟨c, hc, hu⟩ := hupper.mp hu
          exact ⟨c, hc, Or.inr hu⟩
      have hne : s ≠ [] := by
        obtain ⟨c, hc, -⟩ := hletters
        exact List.ne_nil_of_mem hc
      have hfinal : s.getLast?.any isAlnum := by
        rw [Bool.not_eq_false'] at hgood
        exact hgood
      have hdigits : digitGroups s = 2 → s.head?.any isDigit := by
        intro htwo
        by_contra hno
        exact hgroups ⟨htwo, fun h => hno (h.resolve_right Bool.false_ne_true)⟩
      refine ⟨⟨hall.chars, hall.groups, fun htwo => Or.inl (hdigits htwo), hall.start, hall.apart, hall.marks,
        (final_iff hall hne).mp hfinal, hletters, ?_⟩, fun htrail => htrail.2 (hdigits htrail.1)⟩
      intro hl hu
      by_contra hno
      exact hcaps ⟨hlower.mpr hl, hupper.mpr hu, caps_iff.mpr hno⟩
    · rintro ⟨h, htrail⟩
      obtain ⟨c, hc, hletter⟩ := h.letter
      have hne : s ≠ [] := List.ne_nil_of_mem hc
      rw [if_neg, if_neg, if_neg]
      · have hfinal : (counts s).last.any isAlnum = true := (final_iff hall hne).mpr h.final
        rw [hfinal]
        rfl
      · rintro ⟨hl, hu⟩
        rcases hletter with hletter | hletter
        · exact hlower.mpr ⟨c, hc, hletter⟩ hl
        · exact hupper.mpr ⟨c, hc, hletter⟩ hu
      · rintro ⟨htwo, hno⟩
        exact htrail ⟨htwo, fun hd => hno (Or.inl hd)⟩
      · rintro ⟨hl, hu, hcaps⟩
        exact caps_iff.mp hcaps (h.caps (hlower.mp hl) (hupper.mp hu))

lemma authSetUsername_eq_kept {a : Request} (hforced : a.forced = false) (hident : a.idented = false)
    (hstrict : a.strict = true) : authSetUsername a = .kept ↔
      a.kill = false ∧ Rules (strip a.stored) ∧ ¬ TrailingDigits (strip a.stored) := by
  rw [← badid_iff]
  unfold authSetUsername
  rw [hforced, hident, hstrict, Bool.not_false, Bool.true_and]
  by_cases hbogus : a.stored = [] ∨ a.stored = ['~']
  · have hnil : strip a.stored = [] := by
      rcases hbogus with h | h
      · rw [h]
        rfl
      · rw [h]
        rfl
    rw [if_pos hbogus, hnil]
    exact iff_of_false (by decide) fun h => absurd h.2 (by decide)
  · rw [if_neg hbogus]
    cases a.kill
    · cases badid (strip a.stored)
      · simp
      · simp
    · simp

/-- **A name is accepted just when it satisfies the rules**, unless it satisfies them and has two groups of
digits of which one is at its end and none at its start. -/
theorem username_iff (a : Request) (hforced : a.forced = false) (hident : a.idented = false)
    (hstrict : a.strict = true) : (authSetUsername a = .kept ↔ a.kill = false ∧ Rules (strip a.stored)) ↔
    ¬ (a.kill = false ∧ Rules (strip a.stored) ∧ TrailingDigits (strip a.stored)) := by
  rw [authSetUsername_eq_kept hforced hident hstrict]
  constructor
  · rintro h ⟨hkill, hrules, htrail⟩
    exact (h.mpr ⟨hkill, hrules⟩).2.2 htrail
  · intro h
    constructor
    · exact fun hk => ⟨hk.1, hk.2.1⟩
    · exact fun hk => ⟨hk.1, hk.2, fun htrail => h ⟨hk.1, hk.2, htrail⟩⟩

def sampleRequest (username : Str) : Request := ⟨false, false, true, true, false, [], username⟩

theorem username_iff_sample : (authSetUsername (sampleRequest "foo".toList) = .kept ↔
    (sampleRequest "foo".toList).kill = false ∧ Rules (strip (sampleRequest "foo".toList).stored)) ↔
      ¬ ((sampleRequest "foo".toList).kill = false ∧ Rules (strip (sampleRequest "foo".toList).stored) ∧
        TrailingDigits (strip (sampleRequest "foo".toList).stored)) :=
  username_iff (sampleRequest "foo".toList) rfl rfl rfl

/-- **Digits at the end are not seen**: `a1b2` satisfies the rules and is refused. -/
theorem trailing_digits_refused : authSetUsername (sampleRequest "a1b2".toList) = .badUsername ∧
      Rules (strip (sampleRequest "a1b2".toList).stored) := by
  refine ⟨by decide, ⟨by decide, by decide, by decide, by decide, by decide, by decide, by decide, ?_, by decide⟩⟩
  exact ⟨'a', by decide, by decide⟩

end Nefarious.Username
