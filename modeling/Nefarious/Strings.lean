import Mathlib.Data.List.Basic
import Mathlib.Data.List.TakeWhile
import Mathlib.Data.Char
import Mathlib.Tactic.Linarith
import Mathlib.Logic.Function.Basic

/-!
# Characters and strings of the daemon

A C string is modelled by the list of its characters before the terminating NUL; a character is a `Char` whose
code is the byte.
-/

namespace Nefarious

open List (map_cons map_nil mem_cons_self)

/-- A C string, without its terminating NUL. -/
abbrev Str := List Char

instance lawfulBEqStr : LawfulBEq Str := inferInstance

/-- `ToLower`: the fold of `ToLowerTab_8859_1`, built by the four `setLowHi` calls.
`table_gen.c` `makeTables`, `setLowHi` -/
def toLower (c : Char) : Char :=
  if ('A' ≤ c ∧ c ≤ 'Z') ∨ ('[' ≤ c ∧ c ≤ '^') ∨ ('\xc0' ≤ c ∧ c ≤ '\xd6')
      ∨ ('\xd8' ≤ c ∧ c ≤ '\xde') then
    Char.ofNat (c.toNat + 32)
  else c

/-- A `char` as the signed integer the comparison functions subtract.
`ircd_chattr.h` (`const char ToLowerTab_8859_1[]`) -/
def charInt (c : Char) : Int :=
  if c.toNat < 128 then c.toNat else (c.toNat : Int) - 256

/-- `ircd_strcmp`: walk both strings while the folded characters agree, then return the
difference at the first disagreement. The end of a string is the NUL character.
`ircd_string.c`. -/
def ircdStrcmp : Str → Str → Int
  | [], [] => 0
  | [], b :: _ => 0 - charInt (toLower b)
  | a :: _, [] => charInt (toLower a) - 0
  | a :: as, b :: bs =>
    if toLower a = toLower b then ircdStrcmp as bs
    else charInt (toLower a) - charInt (toLower b)

/-- `ircd_strncpy`: copy at most `n - 1` characters and terminate; `n` is the full size of the
destination. With `n = 0` the destination keeps what it held.
`ircd_string.c`. -/
def ircdStrncpy (dst src : Str) (n : ℕ) : Str :=
  if n = 0 then dst else src.take (n - 1)

/-- The name relation: `0 == ircd_strcmp(a, b)`.
`hash.c` `hSeekClient` -/
def strEq (a b : Str) : Bool := ircdStrcmp a b = 0

/-- A C character: a non-NUL byte. -/
def IsByte (c : Char) : Prop := 0 < c.toNat ∧ c.toNat < 256

/-- The character test `IsDigit`. `table_gen.c` `NTL_DIGIT`. -/
def isDigit (c : Char) : Bool := '0' ≤ c ∧ c ≤ '9'

/-- Digits of a number. `ircd_snprintf.c` (`%u`). -/
def digits (n : ℕ) : Str := Nat.toDigits 10 n

/-- The characters that numbers may be introduced by. C library `isspace`. -/
def isSpace (c : Char) : Bool := c = ' ' ∨ (9 ≤ c.toNat ∧ c.toNat ≤ 13)

/-- The sign and the digits that a number starts with. C library `strtol`. -/
def signedDigits (s : Str) : Bool × ℕ :=
  match s.dropWhile isSpace with
  | '-' :: s => (true, Nat.ofDigitChars 10 (s.takeWhile isDigit) 0)
  | '+' :: s => (false, Nat.ofDigitChars 10 (s.takeWhile isDigit) 0)
  | s => (false, Nat.ofDigitChars 10 (s.takeWhile isDigit) 0)

/-- `strtoul` with base ten: too large a number is the largest one, and a sign negates.
C library `strtoul` -/
def strtoul (s : Str) : ℕ :=
  match signedDigits s with
  | (neg, n) => if 2 ^ 64 ≤ n then 2 ^ 64 - 1 else if neg then (2 ^ 64 - n) % 2 ^ 64 else n

/-- `atoi`: `strtol`, which stops at the bounds of a long, cut to an int.
C library `atoi` -/
def atoi (s : Str) : ℤ :=
  match signedDigits s with
  | (neg, n) => Int.bmod (if neg then max (-n) (-2 ^ 63) else min n (2 ^ 63 - 1)) (2 ^ 32)

/-- The characters of a channel name: printable ones, without the comma and the non-breaking space.
`table_gen.c` `NTL_IRCCH` -/
def isIrcCh (c : Char) : Bool := 33 ≤ c.toNat ∧ c ≠ ',' ∧ c ≠ '\xa0'

def IsCStr (s : Str) : Prop := ∀ c ∈ s, IsByte c

-- What is said of each character of a string is decided along the string, not for all characters.
instance (priority := 1100) (p : Char → Prop) [DecidablePred p] (s : Str) : Decidable (∀ c ∈ s, p c) :=
  List.decidableBAll p s

instance (priority := 1100) (p : Char → Prop) [DecidablePred p] (s : Str) : Decidable (∃ c ∈ s, p c) :=
  List.decidableBEx p s

instance (priority := 1100) decidableForallOption (p : Char → Prop) [DecidablePred p] (c : Option Char) : Decidable (∀ d ∈ c, p d) :=
  Option.decidableForallMem c

instance : DecidablePred IsByte := fun c =>
  inferInstanceAs (Decidable (0 < c.toNat ∧ c.toNat < 256))

instance : DecidablePred IsCStr := fun s => List.decidableBAll IsByte s

/-! ## The name relation is equality of folded texts -/

lemma toNat_toLower (c : Char) : (toLower c).toNat =
    if (65 ≤ c.toNat ∧ c.toNat ≤ 90) ∨ (91 ≤ c.toNat ∧ c.toNat ≤ 94)
      ∨ (192 ≤ c.toNat ∧ c.toNat ≤ 214) ∨ (216 ≤ c.toNat ∧ c.toNat ≤ 222)
    then c.toNat + 32 else c.toNat := by
  have hle : ∀ a b : Char, a ≤ b ↔ a.toNat ≤ b.toNat := fun a b => Iff.rfl
  unfold toLower
  simp only [hle]
  split
  · next h =>
      rw [if_pos (by simpa using h)]
      have h' : c.toNat ≤ 222 := by
        simp at h
        omega
      have hv : (c.toNat + 32).isValidChar := Or.inl (by omega)
      rw [Char.ofNat, dif_pos hv]
      rfl
  · next h => rw [if_neg (by simpa using h)]

lemma isByte_toLower {c : Char} (hc : IsByte c) : IsByte (toLower c) := by
  obtain ⟨h0, h1⟩ := hc
  unfold IsByte
  rw [toNat_toLower]
  split <;> omega

lemma charInt_ne_zero {c : Char} (hc : IsByte c) : charInt c ≠ 0 := by
  obtain ⟨h0, h1⟩ := hc
  unfold charInt
  split <;> omega

lemma charInt_inj {a b : Char} (ha : IsByte a) (hb : IsByte b) (h : charInt a = charInt b) : a = b := by
  obtain ⟨_, ha1⟩ := ha
  obtain ⟨_, hb1⟩ := hb
  have hn : a.toNat = b.toNat := by
    unfold charInt at h
    split at h <;> split at h <;> omega
  exact Char.toNat_inj.mp hn

/-- **`ircdStrcmp` returns zero exactly on equal folded texts.** -/
theorem ircdStrcmp_eq_zero_iff : (a b : Str) → IsCStr a → IsCStr b →
    (ircdStrcmp a b = 0 ↔ a.map toLower = b.map toLower)
  | [], [], _, _ => by simp [ircdStrcmp]
  | [], b :: bs, _, hb => by
    have := charInt_ne_zero (isByte_toLower (hb b mem_cons_self))
    simp only [ircdStrcmp, map_nil, map_cons, List.nil_eq, reduceCtorEq, iff_false]
    omega
  | a :: as, [], ha, _ => by
    have := charInt_ne_zero (isByte_toLower (ha a mem_cons_self))
    simp only [ircdStrcmp, map_nil, map_cons, reduceCtorEq, iff_false]
    omega
  | a :: as, b :: bs, ha, hb => by
    have ih := ircdStrcmp_eq_zero_iff as bs (fun c hc => ha c (List.mem_cons_of_mem _ hc))
      (fun c hc => hb c (List.mem_cons_of_mem _ hc))
    simp only [ircdStrcmp, map_cons, List.cons.injEq]
    by_cases h : toLower a = toLower b
    · simp [h, ih]
    · rw [if_neg h]
      have hne : charInt (toLower a) ≠ charInt (toLower b) := fun e =>
        h (charInt_inj (isByte_toLower (ha a mem_cons_self)) (isByte_toLower (hb b mem_cons_self)) e)
      constructor
      · intro e
        omega
      · intro e
        exact absurd e.1 h

lemma strEq_of_fold_eq : (a b : Str) → a.map toLower = b.map toLower → strEq a b = true
  | [], [], _ => by simp [strEq, ircdStrcmp]
  | [], _ :: _, h => by simp at h
  | _ :: _, [], h => by simp at h
  | a :: as, b :: bs, h => by
    simp only [map_cons, List.cons.injEq] at h
    have ih := strEq_of_fold_eq as bs h.2
    simpa [strEq, ircdStrcmp, h.1] using ih

lemma strEq_iff {a b : Str} (ha : IsCStr a) (hb : IsCStr b) :
    strEq a b = true ↔ a.map toLower = b.map toLower := by
  simp [strEq, ircdStrcmp_eq_zero_iff a b ha hb]

lemma ircdStrcmp_swap : (a b : Str) → ircdStrcmp a b = -ircdStrcmp b a
  | [], [] => rfl
  | [], b :: bs => by simp [ircdStrcmp]
  | a :: as, [] => by simp [ircdStrcmp]
  | a :: as, b :: bs => by
    have ih := ircdStrcmp_swap as bs
    by_cases h : toLower a = toLower b
    · simpa [ircdStrcmp, h] using ih
    · simp [ircdStrcmp, h, Ne.symm h]

lemma strEq_comm (a b : Str) : strEq a b = strEq b a := by
  simp only [strEq, ircdStrcmp_swap a b, neg_eq_zero]

lemma strEq_trans {a b c : Str} (ha : IsCStr a) (hb : IsCStr b) (hc : IsCStr c)
    (h : strEq a b = true) (h' : strEq b c = true) : strEq a c = true :=
  (strEq_iff ha hc).mpr (((strEq_iff ha hb).mp h).trans ((strEq_iff hb hc).mp h'))

@[simp] lemma strEq_refl (a : Str) : strEq a a = true := strEq_of_fold_eq a a rfl

/-! ## Numbers are read back -/

lemma isDigit_of_digits {n : ℕ} {c : Char} (h : c ∈ digits n) : isDigit c = true := by
  have hc : c.isDigit = true := Nat.isDigit_of_mem_toDigits (by decide) (by decide) h
  have hr : 48 ≤ c.val ∧ c.val ≤ 57 := by simpa [Char.isDigit] using hc
  exact decide_eq_true ⟨hr.1, hr.2⟩

lemma signedDigits_digits (n : ℕ) : signedDigits (digits n) = (false, n) := by
  have hne : digits n ≠ [] := Nat.toDigits_ne_nil
  have hdig : ∀ c ∈ digits n, isDigit c = true := fun c hc => isDigit_of_digits hc
  have hval : Nat.ofDigitChars 10 ((digits n).takeWhile isDigit) 0 = n := by
    rw [List.takeWhile_eq_self_iff.2 hdig]
    exact Nat.ofDigitChars_ten_toDigits
  obtain ⟨c, w, hcw⟩ := List.exists_cons_of_ne_nil hne
  have hc : 48 ≤ c.toNat ∧ c.toNat ≤ 57 := by
    have := of_decide_eq_true (hdig c (by simp [hcw]))
    exact ⟨this.1, this.2⟩
  have hsp : isSpace c = false := by
    have h1 : c ≠ ' ' := by
      rintro rfl
      exact absurd hc.1 (by decide)
    simp only [isSpace, h1, false_or, decide_eq_false_iff_not]
    omega
  have hdrop : (digits n).dropWhile isSpace = digits n := by
    rw [hcw, List.dropWhile_cons_of_neg (by simp [hsp])]
  unfold signedDigits
  rw [hdrop]
  split
  next h =>
    rw [hcw] at h
    obtain ⟨rfl, -⟩ := List.cons.inj h
    exact absurd hc.1 (by decide)
  next h =>
    rw [hcw] at h
    obtain ⟨rfl, -⟩ := List.cons.inj h
    exact absurd hc.1 (by decide)
  · rw [hval]

lemma atoi_digits (n : ℕ) : atoi (digits n) = Int.bmod (min (n : ℤ) (2 ^ 63 - 1)) (2 ^ 32) := by
  unfold atoi
  rw [signedDigits_digits]
  rfl

lemma atoi_digits_of_lt {n : ℕ} (h : n < 2 ^ 31) : atoi (digits n) = n := by
  rw [atoi_digits, min_eq_left (by omega)]
  exact Int.bmod_eq_of_le (by omega) (by omega)

lemma atoi_digits_le (n : ℕ) : atoi (digits n) ≤ n := by
  rw [atoi_digits, Int.bmod_def]
  generalize hm : min (n : ℤ) (2 ^ 63 - 1) = k
  have hk : 0 ≤ k ∧ k ≤ n := by omega
  split <;> omega

end Nefarious
