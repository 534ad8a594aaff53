import Nefarious.Strings

/-!
# Texts and octets

What the authentication daemon uses of its language's library: the octets of a text (`octets`), their
base64 text (`base64`), and white space at the ends of a text
(`trimWhiteSpace`).
-/

namespace Nefarious.Iauthd

/-- The octets of a text. ECMAScript host `Buffer.from`. -/
def octets (s : Str) : List UInt8 := s.flatMap String.utf8EncodeChar

/-! ## Base64 -/

/-- The characters of base64. ECMAScript host `Buffer.toString` (`base64`). -/
def base64Alphabet : List Char :=
  "ABCDEFGHIJKLMNOPQRSTUVWXYZabcdefghijklmnopqrstuvwxyz0123456789+/".toList

/-- A character of base64. ECMAScript host `Buffer.toString` (`base64`). -/
def base64Char (n : ℕ) : Char := base64Alphabet.getD n 'A'

/-- The base64 text of some octets. ECMAScript host `Buffer.toString` (`base64`). -/
def base64 : List UInt8 → Str
  | a :: b :: c :: t =>
    base64Char (a.toNat / 4) :: base64Char (a.toNat % 4 * 16 + b.toNat / 16) ::
      base64Char (b.toNat % 16 * 4 + c.toNat / 64) :: base64Char (c.toNat % 64) :: base64 t
  | [a, b] =>
    [base64Char (a.toNat / 4), base64Char (a.toNat % 4 * 16 + b.toNat / 16), base64Char (b.toNat % 16 * 4), '=']
  | [a] => [base64Char (a.toNat / 4), base64Char (a.toNat % 4 * 16), '=', '=']
  | [] => []

lemma base64Char_mem (n : ℕ) : base64Char n ∈ base64Alphabet := by
  unfold base64Char
  rw [List.getD_eq_getElem?_getD]
  rcases h : base64Alphabet[n]? with _ | c
  · decide
  · exact List.mem_of_getElem? h

/-- **The characters of a base64 text**. -/
theorem mem_base64 : (bytes : List UInt8) → ∀ c ∈ base64 bytes, c ∈ base64Alphabet ∨ c = '='
  | a :: b :: d :: t, c, hc => by
    simp only [base64, List.mem_cons] at hc
    rcases hc with rfl | rfl | rfl | rfl | hc
    · exact .inl (base64Char_mem _)
    · exact .inl (base64Char_mem _)
    · exact .inl (base64Char_mem _)
    · exact .inl (base64Char_mem _)
    · exact mem_base64 t c hc
  | [a, b], c, hc => by
    simp only [base64, List.mem_cons, List.not_mem_nil, or_false] at hc
    rcases hc with rfl | rfl | rfl | rfl
    · exact .inl (base64Char_mem _)
    · exact .inl (base64Char_mem _)
    · exact .inl (base64Char_mem _)
    · exact .inr rfl
  | [a], c, hc => by
    simp only [base64, List.mem_cons, List.not_mem_nil, or_false] at hc
    rcases hc with rfl | rfl | rfl | rfl
    · exact .inl (base64Char_mem _)
    · exact .inl (base64Char_mem _)
    · exact .inr rfl
    · exact .inr rfl
  | [], c, hc => absurd hc List.not_mem_nil

/-! ## White space -/

/-- White space and the ends of lines. ECMAScript `WhiteSpace`, `LineTerminator`. -/
def isWhiteSpace (c : Char) : Bool :=
  (9 ≤ c.toNat ∧ c.toNat ≤ 13) ∨ c.toNat ∈ [0x20, 0xa0, 0x1680, 0x2028, 0x2029, 0x202f, 0x205f, 0x3000,
    0xfeff] ∨ (0x2000 ≤ c.toNat ∧ c.toNat ≤ 0x200a)

/-- Remove white space at both ends. ECMAScript `String.prototype.trim`. -/
def trimWhiteSpace (s : Str) : Str :=
  ((s.dropWhile isWhiteSpace).reverse.dropWhile isWhiteSpace).reverse

lemma dropWhile_eq_self {p : Char → Bool} {s : Str} (h : ∀ c ∈ s.head?, p c = false) : s.dropWhile p = s := by
  cases s with
  | nil => rfl
  | cons c s => rw [List.dropWhile_cons, if_neg (Bool.eq_false_iff.1 (h c rfl))]

/-- **No white space at the ends.** -/
theorem trimWhiteSpace_eq_self_iff (s : Str) : trimWhiteSpace s = s ↔
      (∀ c ∈ s.head?, isWhiteSpace c = false) ∧ ∀ c ∈ s.getLast?, isWhiteSpace c = false := by
  have hdrop : ∀ t : Str, ∀ c ∈ (t.dropWhile isWhiteSpace).head?, isWhiteSpace c = false := by
    intro t c hc
    have hnot := List.head?_dropWhile_not isWhiteSpace t
    rw [Option.mem_def.1 hc] at hnot
    exact hnot
  constructor
  · intro h
    have hlast : ∀ c ∈ s.getLast?, isWhiteSpace c = false := by
      intro c hc
      rw [← h, trimWhiteSpace, List.getLast?_reverse] at hc
      exact hdrop _ c hc
    refine ⟨?_, hlast⟩
    intro c hc
    -- the text is a part of what is left behind the white space in front, and as long
    have hlen : (trimWhiteSpace s).length ≤ (s.dropWhile isWhiteSpace).length := by
      rw [trimWhiteSpace, List.length_reverse]
      exact (List.length_dropWhile_le _ _).trans (List.length_reverse ..).le
    have hfront : s.dropWhile isWhiteSpace = s := by
      refine (List.dropWhile_suffix isWhiteSpace).eq_of_length_le ?_
      rwa [h] at hlen
    rw [← hfront] at hc
    exact hdrop s c hc
  · rintro ⟨hhead, hlast⟩
    rw [trimWhiteSpace, dropWhile_eq_self hhead, dropWhile_eq_self, List.reverse_reverse]
    rw [List.head?_reverse]
    exact hlast

end Nefarious.Iauthd
