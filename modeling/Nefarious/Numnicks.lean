import Nefarious.Strings
import Mathlib.Data.Nat.Bitwise
import Mathlib.Data.List.Induction
import Mathlib.Data.List.Forall2

/-!
# Numeric nicks

Servers and users are addressed on the wire by base-64 numerics: two characters for a server, three for a user
of that server.

Names: `numnicks.c`.
-/

namespace Nefarious

/-- Number of bits encoded in one numnick character. -/
def numnickLog : ℕ := 6

/-- Converts a character to its (base64) numnick value; every other character is zero. -/
def convert2n (c : Char) : ℕ :=
  if 'A' ≤ c ∧ c ≤ 'Z' then c.toNat - 'A'.toNat
  else if 'a' ≤ c ∧ c ≤ 'z' then c.toNat - 'a'.toNat + 26
  else if '0' ≤ c ∧ c ≤ '9' then c.toNat - '0'.toNat + 52
  else if c = '[' then 62
  else if c = ']' then 63
  else 0

/-- Converts a numeric to the corresponding character. -/
def convert2y (n : ℕ) : Char :=
  ("ABCDEFGHIJKLMNOPQRSTUVWXYZabcdefghijklmnopqrstuvwxyz0123456789[]".toList).getD n 'A'

/-- The loop of `base64toint` from the value `i`. `base64toint` -/
def base64loop (i : ℕ) (s : Str) : ℕ :=
  s.foldl (fun i c => (i * 2 ^ numnickLog + convert2n c) % 2 ^ 32) i

/-- Convert a string to its value as a numnick. The first character is read before the loop tests for the end,
so the empty string gives `convert2n` of NUL, which is zero. -/
def base64toint : Str → ℕ
  | [] => 0
  | c :: cs => base64loop (convert2n c) cs

/-- Encode a number as `count` numnick digits. -/
def inttobase64 (v : ℕ) : ℕ → Str
  | 0 => []
  | count + 1 => inttobase64 (v / 2 ^ numnickLog) count ++ [convert2y (v % 2 ^ numnickLog)]

/-- The slot of `server_list` in which a numeric is looked up: `FindNServer`, which takes a short numeric whole,
the first character of one of three, and the first two of a longer one. `FindNServer`, `FindXNServer` -/
def serverSlot (numeric : Str) : ℕ :=
  if numeric.length < 3 then base64toint numeric
  else if numeric.length = 3 then convert2n (numeric.headD '\x00')
  else base64toint (numeric.take 2)

/-- The numeric that `SetServerYXX` stores for a server announced with the mask `yxx`: the first two characters
of a mask of five, and the first character of any other. `cli_yxx` is zeroed when the client is made, so one
stored character is the whole text. `SetServerYXX` -/
def serverYXX (yxx : Str) : Str :=
  if yxx.length = 5 then ircdStrncpy [] yxx 3 else yxx.take 1

/-- The capacity that `SetServerYXX` stores. `SetServerYXX` -/
def serverCapacity (yxx : Str) : Str :=
  if yxx.length = 5 then ircdStrncpy [] (yxx.drop 2) 4 else (yxx.drop 1).take 2

lemma convert2n_convert2y {n : ℕ} (h : n < 64) : convert2n (convert2y n) = n := by
  have all : ∀ m : Fin 64, convert2n (convert2y m) = m := by decide +kernel
  exact all ⟨n, h⟩

lemma length_inttobase64 : (n v : ℕ) → (inttobase64 v n).length = n
  | 0, _ => rfl
  | n + 1, v => by rw [inttobase64, List.length_append, length_inttobase64 n, List.length_singleton]

lemma base64toint_append {s : Str} (h : s ≠ []) (c : Char) :
    base64toint (s ++ [c]) = (base64toint s * 2 ^ numnickLog + convert2n c) % 2 ^ 32 := by
  obtain ⟨d, s, rfl⟩ := List.exists_cons_of_ne_nil h
  rw [List.cons_append, base64toint, base64toint, base64loop, base64loop, List.foldl_append]
  rfl

lemma base64toint_inttobase64 : (n : ℕ) → ∀ {v : ℕ}, v < 64 ^ (n + 1) → v < 2 ^ 32 →
    base64toint (inttobase64 v (n + 1)) = v
  | 0, v, h, _ => by
    rw [inttobase64, inttobase64, List.nil_append, base64toint, base64loop, List.foldl_nil,
      convert2n_convert2y (by rw [numnickLog]; omega)]
    rw [numnickLog]
    omega
  | n + 1, v, h, hv => by
    have hne : inttobase64 (v / 2 ^ numnickLog) (n + 1) ≠ [] := by
      intro e
      have hlen := congrArg List.length e
      rw [length_inttobase64] at hlen
      cases hlen
    have hsmall : v / 2 ^ numnickLog < 64 ^ (n + 1) := by
      rw [numnickLog, Nat.div_lt_iff_lt_mul (by decide)]
      exact h
    have hdigit : v % 2 ^ numnickLog < 64 := Nat.mod_lt _ (by decide)
    have hle : v / 2 ^ numnickLog ≤ v := Nat.div_le_self _ _
    rw [inttobase64, base64toint_append hne, base64toint_inttobase64 n hsmall (by omega),
      convert2n_convert2y hdigit, Nat.div_add_mod', Nat.mod_eq_of_lt hv]

/-- One of the sixty-four digits. `convert2y`. -/
def IsDigit (c : Char) : Prop := convert2y (convert2n c) = c

instance (c : Char) : Decidable (IsDigit c) := inferInstanceAs (Decidable (_ = _))

/-- Two characters that differ only as digits do. `convert2n`. -/
def DigitsApart (a b : Char) : Prop := a = b ∨ IsDigit a ∧ IsDigit b

lemma convert2n_lt (c : Char) : convert2n c < 64 := by
  rw [convert2n]
  split
  case isTrue h =>
    have hle : c.toNat ≤ 90 := h.2
    show c.toNat - 65 < 64
    omega
  split
  case isTrue h =>
    have hle : c.toNat ≤ 122 := h.2
    show c.toNat - 97 + 26 < 64
    omega
  split
  case isTrue h =>
    have hle : c.toNat ≤ 57 := h.2
    show c.toNat - 48 + 52 < 64
    omega
  split
  case isTrue => omega
  split <;> omega

lemma base64toint_lt (s : Str) (h : s.length ≤ 5) : base64toint s < 64 ^ s.length := by
  induction s using List.reverseRecOn with
  | nil => decide
  | append_singleton s c ih =>
    rw [List.length_append, List.length_singleton] at h ⊢
    have ih := ih (by omega)
    have hc := convert2n_lt c
    cases s with
    | nil => simpa [base64toint, base64loop] using hc
    | cons d s =>
      rw [base64toint_append (List.cons_ne_nil d s), numnickLog, pow_succ]
      exact lt_of_le_of_lt (Nat.mod_le _ _) (by omega)

lemma base64toint_concat {s : Str} (h : s.length ≤ 4) (c : Char) :
    base64toint (s ++ [c]) = base64toint s * 64 + convert2n c := by
  have hc := convert2n_lt c
  have hs := base64toint_lt s (by omega)
  have hpow : 64 ^ s.length ≤ 64 ^ 4 := Nat.pow_le_pow_right (by omega) h
  cases s with
  | nil => simp [base64toint, base64loop]
  | cons d s =>
    rw [base64toint_append (List.cons_ne_nil d s), numnickLog, Nat.mod_eq_of_lt (by omega)]
    rfl

lemma eq_of_base64toint : (n : ℕ) → {a b : Str} → a.length = n → n ≤ 5 →
    List.Forall₂ DigitsApart a b → base64toint a = base64toint b → a = b
  | 0, a, b, hn, _, h, _ => by
    obtain rfl := List.length_eq_zero_iff.mp hn
    cases h
    rfl
  | n + 1, a, b, hn, hle, h, hv => by
    have hlen : a.length = b.length := h.length_eq
    obtain rfl | ⟨a, c, rfl⟩ := List.eq_nil_or_concat' a
    · cases hn
    obtain rfl | ⟨b, d, rfl⟩ := List.eq_nil_or_concat' b
    · rw [hn] at hlen
      cases hlen
    rw [List.length_append, List.length_singleton] at hn
    simp only [List.length_append, List.length_singleton, Nat.add_right_cancel_iff] at hlen
    have hfront : List.Forall₂ DigitsApart a b := by
      have := List.forall₂_take_append _ _ _ h
      rwa [← hlen, List.take_left] at this
    have hlast : DigitsApart c d := by
      have := List.forall₂_drop_append _ _ _ h
      rw [← hlen, List.drop_left] at this
      cases this
      assumption
    have ha := base64toint_lt a (by omega)
    have hb := base64toint_lt b (by omega)
    have hc := convert2n_lt c
    have hd := convert2n_lt d
    rw [base64toint_concat (by omega), base64toint_concat (by omega)] at hv
    have hab : a = b := eq_of_base64toint n (by omega) (by omega) hfront (by omega)
    have hcd : c = d := by
      rcases hlast with rfl | ⟨hc', hd'⟩
      · rfl
      · rw [← hc', ← hd', show convert2n c = convert2n d by omega]
    rw [hab, hcd]

end Nefarious
