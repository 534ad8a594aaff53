import Mathlib.Data.List.Nodup
import Mathlib.Logic.Function.Basic

/-!
# Rings of nodes

A doubly linked list that is closed by a base node: behind each node comes the next one, behind the
last one the base, and `prev` is the way back.
-/

namespace Nefarious.Lib.Rings

open Function (update)
open List (append_assoc cons_append map_append map_cons map_singleton mem_cons_self mem_singleton_self
  nodup_append nodup_cons)

variable {ν : Type}

/-- The links of the nodes. -/
structure Links (ν : Type) where
  prev : ν → ν
  next : ν → ν

/-- The nodes of a ring, in their order. -/
structure Ring (k : Links ν) (base : ν) (l : List ν) : Prop where
  nodup : (base :: l).Nodup
  next : (base :: l).map k.next = l ++ [base]
  prev : (l ++ [base]).map k.prev = base :: l

variable {k : Links ν} {base node : ν} {l r : List ν}

lemma Ring.nil (hnext : k.next base = base) (hprev : k.prev base = base) : Ring k base [] :=
  ⟨List.nodup_singleton base, by rw [map_singleton, hnext]; rfl,
    by rw [List.nil_append, map_singleton, hprev]⟩

lemma Ring.around (h : Ring k base (l ++ node :: r)) :
    (base :: l = l.map k.prev ++ [k.prev node] ∧ (l.map k.prev).map k.next = l) ∧
      r ++ [base] = k.next node :: r.map k.next ∧ (r.map k.next).map k.prev = r := by
  have hnext := h.next
  rw [← cons_append, map_append, append_assoc, cons_append, List.append_cons] at hnext
  obtain ⟨hnextl, hnextr⟩ := List.append_inj hnext (by
    rw [List.length_map, List.length_cons, List.length_append, List.length_singleton])
  have hprev := h.prev
  rw [append_assoc, cons_append, List.append_cons, map_append, ← cons_append] at hprev
  obtain ⟨hprevl, hprevr⟩ := List.append_inj hprev (by
    rw [List.length_map, List.length_cons, List.length_append, List.length_singleton])
  rw [map_append, map_singleton] at hprevl
  rw [← hprevl, map_append, map_singleton] at hnextl
  rw [map_cons] at hnextr
  rw [← hnextr, map_cons] at hprevr
  exact ⟨⟨hprevl.symm, (List.append_inj' hnextl rfl).1⟩, hnextr.symm, (List.cons.inj hprevr).2⟩

lemma Ring.last (h : Ring k base l) : ∃ front, base :: l = front ++ [k.prev base] ∧
    l.map k.prev = front ∧ front.map k.next = l ∧ k.next (k.prev base) = base := by
  have hprev := h.prev
  rw [map_append, map_singleton] at hprev
  have hnext := h.next
  rw [← hprev, map_append, map_singleton] at hnext
  obtain ⟨hfront, hlast⟩ := List.append_inj' hnext rfl
  exact ⟨l.map k.prev, hprev.symm, rfl, hfront, List.singleton_inj.mp hlast⟩

/-- The way through the next nodes, as far as the number allows. -/
def walk [DecidableEq ν] (k : Links ν) (base : ν) : ℕ → ν → Option (List ν)
  | 0, _ => none
  | n + 1, node => if node = base then some [] else (walk k base n (k.next node)).map (node :: ·)

variable [DecidableEq ν]

/-- `add`: a node is linked before another. -/
def Links.add (k : Links ν) (node next : ν) : Links ν where
  prev := update (update k.prev node (k.prev next)) next node
  next := update (update k.next node next) (k.prev next) node

/-- `remove`: the nodes around a node are linked. -/
def Links.remove (k : Links ν) (node : ν) : Links ν where
  prev := update k.prev (k.next node) (k.prev node)
  next := update k.next (k.prev node) (k.next node)

lemma map_update_of_not_mem {f : ν → ν} {x y : ν} (hx : x ∉ l) : l.map (update f x y) = l.map f :=
  List.map_congr_left fun z hz => Function.update_of_ne (fun e : z = x => hx (e ▸ hz)) _ _

/-- **A node comes before the base**. -/
theorem Ring.add (h : Ring k base l) (hnew : node ∉ base :: l) : Ring (k.add node base) base (l ++ [node]) := by
  obtain ⟨front, hfront, hprev, hnext, hlast⟩ := h.last
  have hnodup := h.nodup
  have hnode : node ∉ front ++ [k.prev base] := hfront ▸ hnew
  have hpfront : k.prev base ∉ front := fun hin => by
    rw [hfront] at hnodup
    exact (nodup_append.mp hnodup).2.2 _ hin _ (mem_singleton_self _) rfl
  have hnp : node ≠ k.prev base := fun e => hnode (e ▸ List.mem_append_right _ (mem_singleton_self _))
  have hnb : node ≠ base := fun e => hnew (e ▸ mem_cons_self)
  refine ⟨?_, ?_, ?_⟩
  · rw [← cons_append]
    exact (List.perm_append_singleton node (base :: l)).nodup_iff.mpr (nodup_cons.mpr ⟨hnew, hnodup⟩)
  · rw [← cons_append, hfront]
    simp only [map_append, map_singleton, Links.add]
    rw [map_update_of_not_mem hpfront,
      map_update_of_not_mem fun hin => hnode (List.mem_append_left _ hin), hnext, Function.update_self,
      Function.update_of_ne hnp, Function.update_self]
  · rw [← cons_append, hfront]
    simp only [map_append, map_singleton, Links.add]
    rw [map_update_of_not_mem (nodup_cons.mp hnodup).1,
      map_update_of_not_mem fun hin => hnew (List.mem_cons_of_mem _ hin), hprev, Function.update_self,
      Function.update_of_ne hnb, Function.update_self]

/-- **A node goes**. -/
theorem Ring.remove (h : Ring k base (l ++ node :: r)) : Ring (k.remove node) base (l ++ r) := by
  obtain ⟨⟨hfront, hnextl⟩, hback, hprevr⟩ := h.around
  have hnodup : (base :: (l ++ r)).Nodup :=
    h.nodup.sublist (((List.sublist_cons_self node r).append_left l).cons_cons base)
  have hp : k.prev node ∉ l.map k.prev ∧ k.prev node ∉ r := by
    rw [← cons_append, hfront] at hnodup
    obtain ⟨hleft, -, hdisj⟩ := nodup_append.mp hnodup
    refine ⟨fun hin => (nodup_append.mp hleft).2.2 _ hin _ (mem_singleton_self _) rfl,
      fun hin => hdisj _ (List.mem_append_right _ (mem_singleton_self _)) _ hin rfl⟩
  have hq : k.next node ∉ l ∧ k.next node ∉ r.map k.next := by
    have hperm := (List.perm_append_singleton base (l ++ r)).nodup_iff.mpr hnodup
    rw [append_assoc, hback] at hperm
    obtain ⟨-, hright, hdisj⟩ := nodup_append.mp hperm
    exact ⟨fun hin => hdisj _ hin _ mem_cons_self rfl, (nodup_cons.mp hright).1⟩
  refine ⟨hnodup, ?_, ?_⟩
  · rw [← cons_append, hfront, append_assoc l r, hback]
    simp only [map_append, map_singleton, Links.remove]
    rw [map_update_of_not_mem hp.1, map_update_of_not_mem hp.2, hnextl, Function.update_self, append_assoc]
    rfl
  · rw [← cons_append, hfront, append_assoc l r, hback]
    simp only [map_append, map_cons, Links.remove]
    rw [map_update_of_not_mem hq.1, map_update_of_not_mem hq.2, hprevr, Function.update_self, append_assoc]
    rfl

/-- **The way along `next`**, by induction on the nodes that are left. -/
theorem Ring.walk_append : (r : List ν) → ∀ {l : List ν}, Ring k base (l ++ r) → ∀ {n : ℕ},
    r.length < n → walk k base n ((r ++ [base]).head (by simp)) = some r
  | [], _, _, n + 1, _ => by rw [walk]; exact if_pos rfl
  | x :: r, l, h, n + 1, hn => by
    obtain ⟨-, hback, -⟩ := h.around
    have hne : x ≠ base := fun e =>
      (nodup_cons.mp h.nodup).1 (e ▸ List.mem_append_right _ mem_cons_self)
    have hnext : (r ++ [base]).head (by simp) = k.next x := by simp only [hback, List.head_cons]
    have hrest := Ring.walk_append r (l := l ++ [x]) (by rwa [append_assoc]) (Nat.lt_of_succ_lt_succ hn)
    rw [hnext] at hrest
    simp only [cons_append, List.head_cons]
    rw [walk, if_neg hne, hrest, Option.map_some]

end Nefarious.Lib.Rings
