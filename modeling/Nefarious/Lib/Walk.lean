import Mathlib.Data.List.Perm.Subperm
import Nefarious.Lib.Dll

/-!
# Walking through a linked list

A program that goes through an intrusive list follows `next` from the head.
-/

namespace Nefarious.Lib.Dll

variable {ν : Type}

/-- The nodes that are visited from `hd` on, at most `n`. -/
def walk (h : ν → Links ν) : ℕ → Option ν → List ν
  | 0, _ => []
  | _ + 1, none => []
  | n + 1, some x => x :: walk h n (h x).next

lemma Chain.walk_eq {h : ν → Links ν} :
    (l : List ν) → ∀ {p hd n}, Chain h p hd l → l.length ≤ n → walk h n hd = l
  | [], _, _, 0, _, _ => rfl
  | [], _, _, _ + 1, hc, _ => by
    have hnone := hc.head_eq
    rw [hnone]
    rfl
  | x :: xs, _, _, n + 1, ⟨hhd, _, hc⟩, hlen => by
    rw [hhd, walk, Chain.walk_eq xs hc (Nat.le_of_succ_le_succ hlen)]

lemma length_le_of_nodup {l : List ℕ} {n : ℕ} (hl : l.Nodup) (hn : ∀ x ∈ l, x < n) : l.length ≤ n := by
  have hsub : l ⊆ List.range n := fun x hx => List.mem_range.mpr (hn x hx)
  have hle := (List.subperm_of_subset hl hsub).length_le
  rwa [List.length_range] at hle

lemma push_frame_of_not_mem [DecidableEq ν] {h : ν → Links ν} {hd : Option ν} {l : List ν} {x z : ν}
    (hl : IsList h hd l) (hzx : z ≠ x) (hz : z ∉ l) : (push h hd x).1 z = h z := by
  apply push_frame hzx
  intro e
  have hhead := hl.chain.head_eq
  rw [e] at hhead
  exact hz (List.mem_of_mem_head? hhead.symm)

/-- From `hd` on, `next` leads through the nodes `l`. -/
def Linked (h : ν → Links ν) : Option ν → List ν → Prop
  | hd, [] => hd = none
  | hd, x :: xs => hd = some x ∧ Linked h (h x).next xs

lemma Linked.congr {h h' : ν → Links ν} :
    (l : List ν) → ∀ {hd}, (∀ x ∈ l, (h' x).next = (h x).next) → Linked h hd l → Linked h' hd l
  | [], _, _, hl => hl
  | x :: xs, _, he, ⟨hhd, hl⟩ => by
    refine ⟨hhd, ?_⟩
    rw [he x List.mem_cons_self]
    exact Linked.congr xs (fun y hy => he y (List.mem_cons_of_mem _ hy)) hl

lemma Linked.take {h : ν → Links ν} {x : ν} {l : List ν} (hl : Linked h (some x) l) :
    ∃ xs, l = x :: xs ∧ Linked h (h x).next xs := by
  cases l with
  | nil => cases hl
  | cons y ys =>
    obtain ⟨hxy, hys⟩ := hl
    cases hxy
    exact ⟨ys, rfl, hys⟩

lemma Linked.give [DecidableEq ν] {h : ν → Links ν} {hd p : Option ν} {x : ν} {l : List ν}
    (hl : Linked h hd l) (hx : x ∉ l) : Linked (Function.update h x ⟨p, hd⟩) (some x) (x :: l) := by
  refine ⟨rfl, ?_⟩
  rw [Function.update_self]
  refine Linked.congr l (fun y hy => ?_) hl
  rw [Function.update_of_ne]
  rintro rfl
  exact hx hy

end Nefarious.Lib.Dll
