import Mathlib.Data.Nat.Notation
import Mathlib.Order.Lattice

/-!
# Stable insertion

A list is kept in the order of a key.
-/

namespace Nefarious.Lib.Stable

variable {α κ : Type} [LinearOrder κ]

/-- The key is less, or the same and the stamp is less. -/
def Before (key : α → κ) (stamp : α → ℕ) (a b : α) : Prop :=
  key a < key b ∨ key a = key b ∧ stamp a < stamp b

/-- An element comes before the first one with a greater key. -/
def insert (key : α → κ) (a : α) : List α → List α
  | [] => [a]
  | b :: l => if key a < key b then a :: b :: l else b :: insert key a l

variable {key key' : α → κ} {stamp stamp' : α → ℕ} {a b : α} {l : List α}

lemma insert_perm (key : α → κ) (a : α) : (l : List α) → (insert key a l).Perm (a :: l)
  | [] => List.Perm.refl _
  | b :: l => by
    rw [insert]
    split
    · exact List.Perm.refl _
    · exact ((insert_perm key a l).cons b).trans (List.Perm.swap a b l)

lemma before_congr (h : l.Pairwise (Before key stamp)) (hkey : ∀ b ∈ l, key' b = key b)
    (hstamp : ∀ b ∈ l, stamp' b = stamp b) : l.Pairwise (Before key' stamp') := by
  apply h.imp_of_mem
  intro b c hb hc hbc
  rw [Before, hkey b hb, hkey c hc, hstamp b hb, hstamp c hc]
  exact hbc

/-- **An element with a new stamp is inserted**, by induction on the list: what is passed has no greater
key. -/
theorem insert_before : (l : List α) → l.Pairwise (Before key stamp) → (∀ b ∈ l, stamp b < stamp a) →
    (insert key a l).Pairwise (Before key stamp)
  | [], _, _ => List.pairwise_singleton _ a
  | b :: l, h, hnew => by
    obtain ⟨hb, hl⟩ := List.pairwise_cons.mp h
    rw [insert]
    split
    · rename_i hlt
      apply List.pairwise_cons.mpr ⟨fun c hc => ?_, h⟩
      obtain rfl | hc := List.mem_cons.mp hc
      · exact .inl hlt
      · exact .inl ((hb c hc).elim (lt_trans hlt) fun e => e.1 ▸ hlt)
    · rename_i hle
      have hrest := insert_before l hl fun c hc => hnew c (List.mem_cons_of_mem _ hc)
      apply List.pairwise_cons.mpr ⟨fun c hc => ?_, hrest⟩
      obtain rfl | hc := List.mem_cons.mp ((insert_perm key a l).subset hc)
      · exact (lt_or_eq_of_le (not_lt.mp hle)).imp id (⟨·, hnew b List.mem_cons_self⟩)
      · exact hb c hc

end Nefarious.Lib.Stable
