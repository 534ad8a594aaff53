import Mathlib.Data.Nat.Bitwise

/-!
# Linear probing

A search goes around a table from a place on, until it stops.
-/

namespace Nefarious.Lib.Probing

/-- The first of `n` places from `pos` on at which the search stops. -/
def seek (size : ℕ) (stop : ℕ → Bool) : ℕ → ℕ → Option ℕ
  | 0, _ => none
  | n + 1, pos => if stop (pos % size) then some (pos % size) else seek size stop n (pos + 1)

variable {size : ℕ} {stop : ℕ → Bool}

/-- Where the search stops, and that it passes the places before. -/
lemma seek_spec : (n : ℕ) → ∀ {pos p : ℕ}, seek size stop n pos = some p → ∃ k, p = (pos + k) % size ∧
    stop p = true ∧ ∀ j < k, stop ((pos + j) % size) = false
  | n + 1, pos, p, h => by
    rw [seek] at h
    split at h
    case isTrue hstop =>
      cases h
      exact ⟨0, rfl, hstop, fun j hj => absurd hj (Nat.not_lt_zero j)⟩
    case isFalse hstop =>
      obtain ⟨k, hp, hk, hpass⟩ := seek_spec n h
      refine ⟨k + 1, by rw [hp, Nat.add_right_comm, Nat.add_assoc], hk, fun j hj => ?_⟩
      cases j with
      | zero => simpa using hstop
      | succ j =>
        have := hpass j (Nat.lt_of_succ_lt_succ hj)
        rwa [Nat.add_right_comm, Nat.add_assoc] at this

lemma seek_of_lt : (n : ℕ) → ∀ {pos k : ℕ}, k < n → stop ((pos + k) % size) = true → ∃ p, seek size stop n pos = some p
  | n + 1, pos, k, hk, hstop => by
    rw [seek]
    split
    case isTrue => exact ⟨_, rfl⟩
    case isFalse hpos =>
      cases k with
      | zero => exact absurd hstop hpos
      | succ k =>
        refine seek_of_lt n (Nat.lt_of_succ_lt_succ hk) ?_
        rwa [Nat.add_right_comm, Nat.add_assoc]

/-- A search that is to stop somewhere ends. -/
lemma seek_ends {q : ℕ} (hq : q < size) (hstop : stop q = true) (pos : ℕ) : ∃ p, seek size stop size pos = some p := by
  have hsize : 0 < size := Nat.zero_lt_of_lt hq
  refine seek_of_lt size (k := (q + (size - pos % size)) % size) (Nat.mod_lt _ hsize) ?_
  have hpos := Nat.mod_lt pos hsize
  have hplace : (pos + (q + (size - pos % size)) % size) % size = q := by
    rw [Nat.add_mod, Nat.mod_mod, ← Nat.add_mod, ← Nat.mod_add_mod,
      show pos % size + (q + (size - pos % size)) = q + size by omega, Nat.add_mod_right, Nat.mod_eq_of_lt hq]
  rwa [hplace]

end Nefarious.Lib.Probing
