import Mathlib.Algebra.BigOperators.Group.Finset.Piecewise
import Mathlib.Algebra.Order.BigOperators.Group.Finset

/-!
# Held items

Holders have lists of items.
-/

namespace Nefarious.Lib.Held

open Function (update)

variable {α β : Type}

/-- How many items of a kind are held. -/
def held (holders : Finset α) (items : α → List β) (q : β → Bool) : ℕ :=
  ∑ p ∈ holders, (items p).countP q

variable {holders : Finset α} {items : α → List β} {p : α} {a : β}

lemma held_congr {q r : β → Bool} (h : ∀ p ∈ holders, ∀ a ∈ items p, q a = r a) :
    held holders items q = held holders items r :=
  Finset.sum_congr rfl fun p hp => List.countP_congr fun a ha => by rw [h p hp a ha]

/-- **None is held**. -/
theorem held_eq_zero_iff {q : β → Bool} :
    held holders items q = 0 ↔ ∀ p ∈ holders, ∀ a ∈ items p, q a = false := by
  rw [held, Finset.sum_eq_zero_iff]
  exact forall₂_congr fun p _ => by simp

lemma held_mono {q r : β → Bool} (h : ∀ a, q a = true → r a = true) :
    held holders items q ≤ held holders items r :=
  Finset.sum_le_sum fun _ _ => List.countP_mono_left fun a _ ha => h a ha

variable [DecidableEq α]

lemma held_update (items : α → List β) (hp : p ∈ holders) (l : List β) (q : β → Bool) :
    held holders (update items p l) q + (items p).countP q = held holders items q + l.countP q := by
  have hcomp : (fun x => (update items p l x).countP q)
      = update (fun x => (items x).countP q) p (l.countP q) := by
    funext x
    by_cases e : x = p
    · rw [e, Function.update_self, Function.update_self]
    · rw [Function.update_of_ne e, Function.update_of_ne e]
  have hself := Finset.sum_update_of_mem hp (fun x => (items x).countP q) ((items p).countP q)
  rw [Function.update_eq_self] at hself
  rw [held, held, hcomp, Finset.sum_update_of_mem hp, hself]
  omega

/-- **One more**. -/
theorem held_cons (hp : p ∈ holders) (a : β) (q : β → Bool) : held holders (update items p (a :: items p)) q
      = held holders items q + if q a then 1 else 0 := by
  have h := held_update items hp (a :: items p) q
  rw [List.countP_cons] at h
  omega

/-- **One less**. -/
theorem held_erase [DecidableEq β] (hp : p ∈ holders) (ha : a ∈ items p) (q : β → Bool) :
    held holders (update items p ((items p).erase a)) q + (if q a then 1 else 0) = held holders items q := by
  have h := held_update items hp ((items p).erase a) q
  have hperm := (List.perm_cons_erase ha).countP_eq q
  rw [List.countP_cons] at hperm
  omega

lemma held_insert (hp : items p = []) (q : β → Bool) :
    held (insert p holders) items q = held holders items q := by
  by_cases hmem : p ∈ holders
  · rw [Finset.insert_eq_of_mem hmem]
  · rw [held, Finset.sum_insert hmem, hp, List.countP_nil, Nat.zero_add, held]

lemma held_remove (hp : items p = []) (q : β → Bool) :
    held (holders.erase p) items q = held holders items q := by
  by_cases hmem : p ∈ holders
  · rw [← held_insert hp, Finset.insert_erase hmem]
  · rw [Finset.erase_eq_of_notMem hmem]

end Nefarious.Lib.Held
