import Mathlib.Data.List.Nodup
import Mathlib.Logic.Function.Basic

/-!
# Relations kept on both sides

A relation between two kinds of things is kept as two families of lists, one for each side.
-/

namespace Nefarious.Lib.BothSides

open Function (update)

variable {α β : Type} [DecidableEq α] [DecidableEq β]

/-- The lists of both sides. -/
structure Pairs (α β : Type) where
  /-- What a thing on the left is paired with. -/
  left : α → List β
  /-- What a thing on the right is paired with. -/
  right : β → List α

/-- The two sides keep one relation, with each pair once. -/
structure Pairs.Sound (p : Pairs α β) : Prop where
  mem : ∀ a b, b ∈ p.left a ↔ a ∈ p.right b
  nodup_left : ∀ a, (p.left a).Nodup
  nodup_right : ∀ b, (p.right b).Nodup

/-- Add a pair; `l` is the new list on the left. -/
def Pairs.put (p : Pairs α β) (a : α) (b : β) (l : List β) : Pairs α β :=
  ⟨update p.left a l, update p.right b (a :: p.right b)⟩

def Pairs.erase (p : Pairs α β) (a : α) (b : β) : Pairs α β :=
  ⟨update p.left a ((p.left a).erase b), update p.right b ((p.right b).erase a)⟩

section Sound

variable {p : Pairs α β} {a : α} {b : β} {l : List β}

omit [DecidableEq β] in
lemma update_nodup {f : α → List β} {a : α} {l : List β} (hf : ∀ x, (f x).Nodup) (hl : l.Nodup)
    (x : α) : (update f a l x).Nodup := by
  by_cases e : x = a
  · rw [e, Function.update_self]
    exact hl
  · rw [Function.update_of_ne e]
    exact hf x

omit [DecidableEq α] [DecidableEq β] in
lemma Pairs.Sound.notMem (h : p.Sound) (hb : b ∉ p.left a) : a ∉ p.right b :=
  fun ha => hb ((h.mem a b).mpr ha)

/-- **A pair is added** to both sides. -/
theorem Pairs.Sound.put (h : p.Sound) (hb : b ∉ p.left a) (hl : l.Perm (b :: p.left a)) :
    (p.put a b l).Sound := by
  refine ⟨fun x y => ?_, update_nodup h.nodup_left ?_, update_nodup h.nodup_right ?_⟩
  · have hleft : y ∈ (p.put a b l).left x ↔ (x = a ∧ y = b) ∨ y ∈ p.left x := by
      simp only [Pairs.put]
      by_cases e : x = a
      · rw [e, Function.update_self, hl.mem_iff, List.mem_cons]
        simp only [true_and]
      · rw [Function.update_of_ne e]
        simp only [e, false_and, false_or]
    have hright : x ∈ (p.put a b l).right y ↔ (x = a ∧ y = b) ∨ x ∈ p.right y := by
      simp only [Pairs.put]
      by_cases e : y = b
      · rw [e, Function.update_self, List.mem_cons]
        simp only [and_true]
      · rw [Function.update_of_ne e]
        simp only [e, and_false, false_or]
    rw [hleft, hright, h.mem]
  · exact hl.nodup_iff.mpr (List.nodup_cons.mpr ⟨hb, h.nodup_left a⟩)
  · exact List.nodup_cons.mpr ⟨h.notMem hb, h.nodup_right b⟩

/-- **A pair is taken out** of both sides, if it is there. -/
theorem Pairs.Sound.erase (h : p.Sound) (a : α) (b : β) : (p.erase a b).Sound := by
  refine ⟨fun x y => ?_, update_nodup h.nodup_left ((h.nodup_left a).erase b),
    update_nodup h.nodup_right ((h.nodup_right b).erase a)⟩
  have hleft : y ∈ (p.erase a b).left x ↔ ¬(x = a ∧ y = b) ∧ y ∈ p.left x := by
    simp only [Pairs.erase]
    by_cases e : x = a
    · rw [e, Function.update_self, (h.nodup_left a).mem_erase_iff]
      simp only [true_and]
    · rw [Function.update_of_ne e]
      simp only [e, false_and, not_false_eq_true, true_and]
  have hright : x ∈ (p.erase a b).right y ↔ ¬(x = a ∧ y = b) ∧ x ∈ p.right y := by
    simp only [Pairs.erase]
    by_cases e : y = b
    · rw [e, Function.update_self, (h.nodup_right b).mem_erase_iff]
      simp only [and_true]
    · rw [Function.update_of_ne e]
      simp only [e, and_false, not_false_eq_true, true_and]
  rw [hleft, hright, h.mem]

end Sound

end Nefarious.Lib.BothSides
