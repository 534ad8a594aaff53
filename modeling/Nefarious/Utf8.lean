import Mathlib.Data.List.Forall2

/-!
# UTF-8

The ranges of the bytes that a sequence may have are compared with the encoding of characters.

Names: `ircd_string.c`.
-/

namespace Nefarious.Utf8

open List (Forall₂)

/-- `0x80 <= bytes[i] && bytes[i] <= 0xBF`. -/
def tail : ℕ × ℕ := (0x80, 0xBF)

/-- The ranges of the bytes of a sequence, in the order in which they are tried. `string_is_valid_utf8`. -/
def sequences : List (List (ℕ × ℕ)) :=
  -- ASCII
  [[(0x09, 0x09)], [(0x0A, 0x0A)], [(0x0D, 0x0D)], [(0x20, 0x7E)],
  -- non-overlong 2-byte
  [(0xC2, 0xDF), tail],
  -- excluding overlongs, straight 3-byte, excluding surrogates
  [(0xE0, 0xE0), (0xA0, 0xBF), tail], [(0xE1, 0xEC), tail, tail], [(0xEE, 0xEE), tail, tail],
  [(0xEF, 0xEF), tail, tail], [(0xED, 0xED), (0x80, 0x9F), tail],
  -- planes 1-3, planes 4-15, plane 16
  [(0xF0, 0xF0), (0x90, 0xBF), tail, tail], [(0xF1, 0xF3), tail, tail, tail],
  [(0xF4, 0xF4), (0x80, 0x8F), tail, tail]]

def within (r : ℕ × ℕ) (b : UInt8) : Prop := r.1 ≤ b.toNat ∧ b.toNat ≤ r.2

instance (r : ℕ × ℕ) (b : UInt8) : Decidable (within r b) := inferInstanceAs (Decidable (_ ∧ _))

/-- The bytes are tested one after the other, up to the first one that is not in its range. `none` is a read
behind the last byte. `string_is_valid_utf8`. -/
def test : List (ℕ × ℕ) → List UInt8 → Option Bool
  | [], _ => some true
  | _ :: _, [] => none
  | r :: rs, b :: bytes => if within r b then test rs bytes else some false

/-- The length of the first sequence that fits, if one does. `string_is_valid_utf8`. -/
def firstFit (bytes : List UInt8) : List (List (ℕ × ℕ)) → Option (Option ℕ)
  | [] => some none
  | row :: rows => do if ← test row bytes then some (some row.length) else firstFit bytes rows

/-- The loop over the bytes; the number bounds the turns. `string_is_valid_utf8`. -/
def validLoop : ℕ → List UInt8 → Option Bool
  | 0, _ => none
  | _, [] => none
  | n + 1, b :: bytes =>
    if b = 0 then some true
    else do
      match ← firstFit (b :: bytes) sequences with
      | some k => validLoop n ((b :: bytes).drop k)
      | none => some false

/-- Check if a given string is a valid UTF-8 encoded string. -/
def stringIsValidUtf8 (str : List UInt8) : Option Bool := validLoop (str.length + 1) (str ++ [0])

/-! ## What is valid -/

/-- The characters of the table: all but the control characters of ASCII, of which three are. `string_is_valid_utf8`. -/
def Admitted (c : Char) : Prop := c.toNat ∈ [0x09, 0x0A, 0x0D] ∨ 0x20 ≤ c.toNat ∧ c.toNat ≠ 0x7F

/-- The text is the encoding of characters of the table. -/
def Valid (str : List UInt8) : Prop := ∃ cs : List Char, (∀ c ∈ cs, Admitted c) ∧ str = cs.flatMap String.utf8EncodeChar

lemma toNat_ofNat {v : ℕ} (h : v < 0xD800 ∨ 0xDFFF < v ∧ v < 0x110000) : (Char.ofNat v).val.toNat = v := by
  rw [Char.ofNat, dif_pos h]
  rfl

lemma encode_row {c : Char} (hc : Admitted c) : ∃ row ∈ sequences, Forall₂ within row (String.utf8EncodeChar c) := by
  have hv : c.val.toNat < 0xD800 ∨ 0xDFFF < c.val.toNat ∧ c.val.toNat < 0x110000 := c.valid
  rw [Admitted, show c.toNat = c.val.toNat from rfl] at hc
  rw [String.utf8EncodeChar]
  generalize c.val.toNat = v at hv hc
  simp only [sequences, List.exists_mem_cons_iff, List.not_mem_nil, false_and, exists_false, or_false]
  simp only [List.mem_cons, List.not_mem_nil, or_false] at hc
  split_ifs
  all_goals simp [within, tail, UInt8.toNat_ofNat']; omega

def codePoint : List UInt8 → ℕ
  | [a] => a.toNat
  | [a, b] => (a.toNat - 0xC0) * 64 + (b.toNat - 0x80)
  | [a, b, c] => (a.toNat - 0xE0) * 4096 + (b.toNat - 0x80) * 64 + (c.toNat - 0x80)
  | [a, b, c, d] => (a.toNat - 0xF0) * 262144 + (b.toNat - 0x80) * 4096 + (c.toNat - 0x80) * 64 + (d.toNat - 0x80)
  | _ => 0

lemma decode_of {v : ℕ} {bytes : List UInt8} (hv : v < 0xD800 ∨ 0xDFFF < v ∧ v < 0x110000)
    (hadm : v ∈ [0x09, 0x0A, 0x0D] ∨ 0x20 ≤ v ∧ v ≠ 0x7F)
    (h : ∀ c : Char, c.val.toNat = v → String.utf8EncodeChar c = bytes) :
    ∃ c, Admitted c ∧ String.utf8EncodeChar c = bytes :=
  ⟨Char.ofNat v, by rwa [Admitted, Char.toNat, toNat_ofNat hv], h _ (toNat_ofNat hv)⟩

lemma decode_one {a : UInt8} (h : a.toNat ∈ [0x09, 0x0A, 0x0D] ∨ 0x20 ≤ a.toNat ∧ a.toNat ≤ 0x7E) :
    ∃ c, Admitted c ∧ String.utf8EncodeChar c = [a] := by
  have hle : a.toNat ≤ 0x7E := by
    simp only [List.mem_cons, List.not_mem_nil, or_false] at h
    omega
  refine decode_of (.inl (by omega)) (h.imp_right fun h => ⟨h.1, by omega⟩) fun x hx => ?_
  simp only [String.utf8EncodeChar, hx]
  rw [if_pos (by omega)]
  simp

lemma decode_two {a b : UInt8} (h : 0xC2 ≤ a.toNat ∧ a.toNat ≤ 0xDF ∧ 0x80 ≤ b.toNat ∧ b.toNat ≤ 0xBF) :
    ∃ c, Admitted c ∧ String.utf8EncodeChar c = [a, b] := by
  obtain ⟨v, hv⟩ : ∃ v, v = codePoint [a, b] := ⟨_, rfl⟩
  dsimp only [codePoint] at hv
  refine decode_of (v := v) (by omega) (.inr (by omega)) fun x hx => ?_
  simp only [String.utf8EncodeChar, hx]
  rw [if_neg (show ¬v ≤ 0x7F by omega), if_pos (show v ≤ 0x7FF by omega)]
  simp only [List.cons.injEq, ← UInt8.toNat_inj, UInt8.toNat_ofNat', and_true]
  omega

lemma decode_three {a b c : UInt8} (h : 0xE0 ≤ a.toNat ∧ a.toNat ≤ 0xEF ∧ 0x80 ≤ b.toNat ∧ b.toNat ≤ 0xBF ∧
    0x80 ≤ c.toNat ∧ c.toNat ≤ 0xBF ∧ (a.toNat = 0xE0 → 0xA0 ≤ b.toNat) ∧ (a.toNat = 0xED → b.toNat ≤ 0x9F)) :
    ∃ x, Admitted x ∧ String.utf8EncodeChar x = [a, b, c] := by
  obtain ⟨v, hv⟩ : ∃ v, v = codePoint [a, b, c] := ⟨_, rfl⟩
  dsimp only [codePoint] at hv
  refine decode_of (v := v) (by omega) (.inr (by omega)) fun x hx => ?_
  simp only [String.utf8EncodeChar, hx]
  rw [if_neg (show ¬v ≤ 0x7F by omega), if_neg (show ¬v ≤ 0x7FF by omega), if_pos (show v ≤ 0xFFFF by omega)]
  simp only [List.cons.injEq, ← UInt8.toNat_inj, UInt8.toNat_ofNat', and_true]
  omega

lemma decode_four {a b c d : UInt8} (h : 0xF0 ≤ a.toNat ∧ a.toNat ≤ 0xF4 ∧ 0x80 ≤ b.toNat ∧ b.toNat ≤ 0xBF ∧
    0x80 ≤ c.toNat ∧ c.toNat ≤ 0xBF ∧ 0x80 ≤ d.toNat ∧ d.toNat ≤ 0xBF ∧
    (a.toNat = 0xF0 → 0x90 ≤ b.toNat) ∧ (a.toNat = 0xF4 → b.toNat ≤ 0x8F)) :
    ∃ x, Admitted x ∧ String.utf8EncodeChar x = [a, b, c, d] := by
  obtain ⟨v, hv⟩ : ∃ v, v = codePoint [a, b, c, d] := ⟨_, rfl⟩
  dsimp only [codePoint] at hv
  refine decode_of (v := v) (by omega) (.inr (by omega)) fun x hx => ?_
  simp only [String.utf8EncodeChar, hx]
  rw [if_neg (show ¬v ≤ 0x7F by omega), if_neg (show ¬v ≤ 0x7FF by omega), if_neg (show ¬v ≤ 0xFFFF by omega)]
  simp only [List.cons.injEq, ← UInt8.toNat_inj, UInt8.toNat_ofNat', and_true]
  omega

lemma decode_row {row : List (ℕ × ℕ)} (hrow : row ∈ sequences) {bytes : List UInt8} (h : Forall₂ within row bytes) :
    ∃ c, Admitted c ∧ String.utf8EncodeChar c = bytes := by
  simp only [sequences, List.mem_cons, List.not_mem_nil, or_false] at hrow
  rcases hrow with rfl | rfl | rfl | rfl | rfl | rfl | rfl | rfl | rfl | rfl | rfl | rfl | rfl
  all_goals
    repeat rcases h with _ | ⟨⟨_, _⟩, h⟩
    dsimp only [tail] at *
    first
    | exact decode_one (by simp only [List.mem_cons, List.not_mem_nil, or_false]; omega)
    | exact decode_two (by omega)
    | exact decode_three (by omega)
    | exact decode_four (by omega)

/-- A first byte tells the sequence. -/
lemma row_of_first {row row' : List (ℕ × ℕ)} (hrow : row ∈ sequences) (hrow' : row' ∈ sequences) {b : UInt8}
    {p p' : List UInt8} (h : Forall₂ within row (b :: p)) (h' : Forall₂ within row' (b :: p')) : row = row' := by
  have hapart : ∀ r ∈ sequences, ∀ r' ∈ sequences, r = r' ∨ ∀ x ∈ r.head?, ∀ y ∈ r'.head?, x.2 < y.1 ∨ y.2 < x.1 := by
    decide
  obtain ⟨x, r, hx, -, rfl⟩ := List.forall₂_cons_right_iff.mp h
  obtain ⟨y, r', hy, -, rfl⟩ := List.forall₂_cons_right_iff.mp h'
  refine (hapart _ hrow _ hrow').resolve_right fun hdisj => ?_
  have := hdisj x rfl y rfl
  rw [within] at hx hy
  omega

/-! ## The test of a sequence -/

/-- The string starts with a sequence of these ranges. -/
def Starts (row : List (ℕ × ℕ)) (str : List UInt8) : Prop := ∃ p t, str = p ++ t ∧ Forall₂ within row p

lemma test_eq : (row : List (ℕ × ℕ)) → (∀ r ∈ row, 0 < r.1) → ∀ {str : List UInt8}, ∃ b,
    test row (str ++ [0]) = some b ∧ (b = true ↔ Starts row str)
  | [], _, str => ⟨true, rfl, iff_of_true rfl ⟨[], str, rfl, .nil⟩⟩
  | r :: row, hpos, [] => by
    have hr := hpos r List.mem_cons_self
    refine ⟨false, if_neg fun h => absurd h.1 (Nat.not_le.mpr hr), iff_of_false Bool.false_ne_true ?_⟩
    rintro ⟨p, t, hp, h⟩
    obtain ⟨rfl, -⟩ := List.append_eq_nil_iff.mp hp.symm
    cases h
  | r :: row, hpos, x :: str => by
    obtain ⟨b, hb, hiff⟩ := @test_eq row (fun y hy => hpos y (List.mem_cons_of_mem _ hy)) str
    rw [List.cons_append, test]
    by_cases hx : within r x
    · rw [if_pos hx]
      refine ⟨b, hb, hiff.trans ⟨?_, ?_⟩⟩
      · rintro ⟨p, t, rfl, h⟩
        exact ⟨x :: p, t, rfl, .cons hx h⟩
      · rintro ⟨p, t, hp, h⟩
        cases h with
        | cons _ h =>
          obtain ⟨-, rfl⟩ := List.cons.inj hp
          exact ⟨_, t, rfl, h⟩
    · rw [if_neg hx]
      refine ⟨false, rfl, iff_of_false Bool.false_ne_true ?_⟩
      rintro ⟨p, t, hp, h⟩
      cases h with
      | cons hy _ =>
        obtain ⟨rfl, -⟩ := List.cons.inj hp
        exact hx hy

lemma firstFit_eq (str : List UInt8) : (rows : List (List (ℕ × ℕ))) → (∀ row ∈ rows, ∀ r ∈ row, 0 < r.1) → ∃ o,
    firstFit (str ++ [0]) rows = some o ∧ (∀ k, o = some k → ∃ row ∈ rows, row.length = k ∧ Starts row str) ∧
    (o = none → ∀ row ∈ rows, ¬Starts row str)
  | [], _ => ⟨none, rfl, nofun, fun _ _ h => absurd h List.not_mem_nil⟩
  | row :: rows, hpos => by
    obtain ⟨b, hb, hiff⟩ := @test_eq row (hpos row List.mem_cons_self) str
    obtain ⟨o, ho, hsome, hnone⟩ := firstFit_eq str rows fun r hr => hpos r (List.mem_cons_of_mem _ hr)
    cases b with
    | true =>
      refine ⟨some row.length, by rw [firstFit, hb]; rfl, fun k hk => ?_, nofun⟩
      exact ⟨row, List.mem_cons_self, Option.some.inj hk, hiff.mp rfl⟩
    | false =>
      refine ⟨o, by rw [firstFit, hb]; exact ho, fun k hk => ?_, fun h => ?_⟩
      · obtain ⟨r, hr, hrest⟩ := hsome k hk
        exact ⟨r, List.mem_cons_of_mem _ hr, hrest⟩
      · exact List.forall_mem_cons.mpr ⟨fun h => Bool.false_ne_true (hiff.mpr h), hnone h⟩

lemma validLoop_eq : (n : ℕ) → ∀ {str : List UInt8}, str.length < n → 0 ∉ str → ∃ b,
    validLoop n (str ++ [0]) = some b ∧ (b = true ↔ Valid str)
  | n + 1, [], _, _ => ⟨true, rfl, iff_of_true rfl ⟨[], fun _ h => absurd h List.not_mem_nil, rfl⟩⟩
  | n + 1, x :: str, hn, hstr => by
    obtain ⟨o, ho, hsome, hnone⟩ := firstFit_eq (x :: str) sequences (by decide)
    have hx : x ≠ 0 := fun h => hstr (h ▸ List.mem_cons_self)
    -- a character at the start is of the first row that fits
    have hchar : ∀ c cs, Admitted c → x :: str = (c :: cs).flatMap String.utf8EncodeChar → ∃ row ∈ sequences,
        ∃ p, Forall₂ within row (x :: p) ∧ String.utf8EncodeChar c = x :: p ∧ str = p ++ cs.flatMap String.utf8EncodeChar := by
      intro c cs hc heq
      obtain ⟨row, hrow, hfit⟩ := encode_row hc
      rw [List.flatMap_cons] at heq
      cases hk : String.utf8EncodeChar c with
      | nil =>
        rw [hk] at hfit
        cases hfit
        exact absurd hrow (by decide)
      | cons y p =>
        rw [hk, List.cons_append] at heq
        obtain ⟨rfl, rfl⟩ := List.cons.inj heq
        exact ⟨row, hrow, p, hk ▸ hfit, rfl, rfl⟩
    rw [List.cons_append] at ho
    rw [List.cons_append, validLoop, if_neg hx, ho]
    cases o with
    | none =>
      refine ⟨false, rfl, iff_of_false Bool.false_ne_true ?_⟩
      rintro ⟨_ | ⟨c, cs⟩, hcs, heq⟩
      · cases heq
      · obtain ⟨row, hrow, p, hfit, -, rfl⟩ := hchar c cs (hcs c List.mem_cons_self) heq
        exact hnone rfl row hrow ⟨x :: p, _, rfl, hfit⟩
    | some k =>
      obtain ⟨row, hrow, rfl, p, t, hp, hfit⟩ := hsome k rfl
      cases p with
      | nil =>
        cases hfit
        exact absurd hrow (by decide)
      | cons y p =>
        obtain ⟨rfl, (rfl : str = p ++ t)⟩ := List.cons.inj hp
        have hlen : row.length = (x :: p).length := hfit.length_eq
        rw [List.length_cons, List.length_append] at hn
        obtain ⟨b, hb, hiff⟩ := @validLoop_eq n t (by omega) fun h =>
          hstr (List.mem_cons_of_mem _ (List.mem_append_right _ h))
        have hdrop : (x :: (p ++ t ++ [0])).drop row.length = t ++ [0] := by
          rw [hlen, List.append_assoc, ← List.cons_append, List.drop_left]
        refine ⟨b, (congrArg (validLoop n) hdrop).trans hb, hiff.trans ⟨?_, ?_⟩⟩
        · rintro ⟨cs, hcs, rfl⟩
          obtain ⟨c, hc, hk⟩ := decode_row hrow hfit
          exact ⟨c :: cs, List.forall_mem_cons.mpr ⟨hc, hcs⟩, by rw [List.flatMap_cons, hk]; rfl⟩
        · rintro ⟨_ | ⟨c, cs⟩, hcs, heq⟩
          · cases heq
          · obtain ⟨hc, hcs⟩ := List.forall_mem_cons.mp hcs
            obtain ⟨row', hrow', p', hfit', -, heq⟩ := hchar c cs hc heq
            obtain rfl := row_of_first hrow hrow' hfit hfit'
            have hlen' := hlen.symm.trans hfit'.length_eq
            exact ⟨cs, hcs, (List.append_inj heq (Nat.succ.inj hlen')).2⟩

/-- **Valid strings.** The check ends without a read behind the NUL, and says whether the bytes are the encoding of
characters of the table. -/
theorem stringIsValidUtf8_iff {str : List UInt8} (h : 0 ∉ str) :
    ∃ b, stringIsValidUtf8 str = some b ∧ (b = true ↔ Valid str) :=
  validLoop_eq _ (Nat.lt_succ_self _) h

theorem stringIsValidUtf8_iff_example : ∃ b, stringIsValidUtf8 [0xE2, 0x82, 0xAC] = some b ∧ (b = true ↔ Valid [0xE2, 0x82, 0xAC]) :=
  stringIsValidUtf8_iff (by decide)

end Nefarious.Utf8
