import Mathlib.Data.Nat.Bitwise

/-!
# Leading bits

A list of words of `w` bits is read from its first word on, and from the highest bit of each word.
-/

namespace Nefarious.Lib.Leading

/-- Words of `w` bits. -/
def Words (w : ℕ) (l : List ℕ) : Prop := ∀ x ∈ l, x < 2 ^ w

/-- The first `n` bits are the same. -/
def Agree (w : ℕ) : List ℕ → List ℕ → ℕ → Prop
  | a :: as, b :: bs, n => if n < w then a >>> (w - n) = b >>> (w - n) else a = b ∧ Agree w as bs (n - w)
  | _, _, _ => True

/-- The bit behind the first `n` bits is another one. -/
def flip (w : ℕ) : ℕ → List ℕ → List ℕ
  | _, [] => []
  | n, b :: bs => if n < w then (b ^^^ 2 ^ (w - 1 - n)) :: bs else b :: flip w (n - w) bs

variable {w : ℕ}

lemma Agree.refl : (l : List ℕ) → (n : ℕ) → Agree w l l n
  | [], _ => trivial
  | a :: as, n => by
    rw [Agree]
    split
    · rfl
    · exact ⟨rfl, Agree.refl as _⟩

lemma Agree.symm : {l l' : List ℕ} → {n : ℕ} → Agree w l l' n → Agree w l' l n
  | [], [], _, _ => trivial
  | [], _ :: _, _, _ => trivial
  | _ :: _, [], _, _ => trivial
  | a :: as, b :: bs, n, h => by
    rw [Agree] at h ⊢
    split at h <;> rename_i hn
    · rw [if_pos hn]
      exact h.symm
    · rw [if_neg hn]
      exact ⟨h.1.symm, h.2.symm⟩

lemma Agree.trans : {l₁ l₂ l₃ : List ℕ} → {n : ℕ} → l₁.length = l₂.length → Agree w l₁ l₂ n →
    Agree w l₂ l₃ n → Agree w l₁ l₃ n
  | [], _, _, _, _, _, _ => trivial
  | _ :: _, _, [], _, _, _, _ => trivial
  | _ :: _, [], _ :: _, _, hlen, _, _ => nomatch hlen
  | a :: as, b :: bs, c :: cs, n, hlen, h, h' => by
    rw [Agree] at h h' ⊢
    split at h <;> rename_i hn
    · rw [if_pos hn] at h' ⊢
      exact h.trans h'
    · rw [if_neg hn] at h' ⊢
      exact ⟨h.1.trans h'.1, h.2.trans (Nat.succ.inj hlen) h'.2⟩

lemma Agree.mono : {l l' : List ℕ} → {m n : ℕ} → m ≤ n → Agree w l l' n → Agree w l l' m
  | [], _, _, _, _, _ => trivial
  | _ :: _, [], _, _, _, _ => trivial
  | a :: as, b :: bs, m, n, hmn, h => by
    rw [Agree] at h ⊢
    split at h <;> rename_i hn
    · rw [if_pos (Nat.lt_of_le_of_lt hmn hn)]
      -- the shift by more is a shift by less, and another one
      obtain ⟨k, hk⟩ := Nat.exists_eq_add_of_le (Nat.sub_le_sub_left hmn w)
      rw [hk, Nat.shiftRight_add, Nat.shiftRight_add, h]
    · split
      · rw [h.1]
      · exact ⟨h.1, h.2.mono (Nat.sub_le_sub_right hmn w)⟩

lemma length_flip : (l : List ℕ) → (n : ℕ) → (flip w n l).length = l.length
  | [], _ => rfl
  | b :: bs, n => by
    rw [flip]
    split
    · rfl
    · rw [List.length_cons, List.length_cons, length_flip bs]

lemma words_flip : {l : List ℕ} → (n : ℕ) → Words w l → Words w (flip w n l)
  | [], _, h => h
  | b :: bs, n, h => by
    have hb : b < 2 ^ w := h b List.mem_cons_self
    have hbs : Words w bs := fun x hx => h x (List.mem_cons_of_mem _ hx)
    rw [flip]
    split
    · rintro x (_ | ⟨_, hx⟩)
      · exact Nat.xor_lt_two_pow hb (Nat.pow_lt_pow_right (by decide) (by omega))
      · exact hbs x hx
    · rintro x (_ | ⟨_, hx⟩)
      · exact hb
      · exact words_flip (n - w) hbs x hx

lemma agree_flip : (l : List ℕ) → (n : ℕ) → Agree w (flip w n l) l n
  | [], _ => trivial
  | b :: bs, n => by
    rw [flip]
    split <;> rename_i hn
    · rw [Agree, if_pos hn, Nat.shiftRight_xor_distrib]
      have hzero : 2 ^ (w - 1 - n) >>> (w - n) = 0 := by
        rw [Nat.shiftRight_eq_div_pow]
        exact Nat.div_eq_of_lt (Nat.pow_lt_pow_right (by decide) (by omega))
      rw [hzero, Nat.xor_zero]
    · rw [Agree, if_neg hn]
      exact ⟨rfl, agree_flip bs _⟩

lemma not_agree_flip : {l : List ℕ} → {m n : ℕ} → n < m → n < w * l.length → ¬Agree w (flip w n l) l m
  | [], _, _, _, hlen => absurd hlen (Nat.not_lt_zero _)
  | b :: bs, m, n, hnm, hlen => by
    rw [flip]
    split <;> rename_i hn
    · have hne : ∀ x, x ^^^ 2 ^ (w - 1 - n) ≠ x := by
        intro x hx
        have hzero : 2 ^ (w - 1 - n) = 0 := by
          simpa using congrArg (x ^^^ ·) hx
        exact absurd hzero (Nat.pos_iff_ne_zero.mp (Nat.two_pow_pos _))
      rw [Agree]
      split
      · rw [Nat.shiftRight_xor_distrib]
        intro hx
        have hzero : 2 ^ (w - 1 - n) >>> (w - m) = 0 := by
          simpa using congrArg (b >>> (w - m) ^^^ ·) hx
        rw [Nat.shiftRight_eq_div_pow, Nat.div_eq_zero_iff] at hzero
        obtain hzero | hzero := hzero
        · exact absurd hzero (Nat.pos_iff_ne_zero.mp (Nat.two_pow_pos _))
        · exact absurd ((Nat.pow_lt_pow_iff_right (by decide)).mp hzero) (by omega)
      · exact fun h => hne b h.1
    · rw [Agree, if_neg (by omega)]
      rw [List.length_cons, Nat.mul_succ] at hlen
      exact fun h => not_agree_flip (by omega) (by omega) h.2

/-- **The block of `b` on `n` bits is in the block of `a` on `m` bits** when it is not the larger one and
`b` is in the other one. -/
theorem block_subset_iff {a b : List ℕ} {m n : ℕ} (hab : a.length = b.length) (hb : Words w b)
    (hm : m ≤ w * b.length) :
    (∀ x, x.length = b.length → Words w x → Agree w x b n → Agree w x a m) ↔ m ≤ n ∧ Agree w b a m := by
  constructor
  · intro h
    have hba : Agree w b a m := h b rfl hb (Agree.refl b n)
    refine ⟨?_, hba⟩
    by_contra hnm
    have hflip := h (flip w n b) (length_flip b n) (words_flip n hb) (agree_flip b n)
    -- `b` and the list with the other bit agree on it through `a`
    have hlen : (flip w n b).length = a.length := (length_flip b n).trans hab.symm
    have hlt : n < m := Nat.lt_of_not_le hnm
    exact not_agree_flip hlt (Nat.lt_of_lt_of_le hlt hm) (hflip.trans hlen hba.symm)
  · rintro ⟨hmn, hba⟩ x hlen _ hx
    exact (hx.mono hmn).trans hlen hba

end Nefarious.Lib.Leading
