import Nefarious.Lib.Fifo

/-!
# A value that flows down a growing tree

Every node but the root has at most one node above it (`up`), from which it gets messages in the order in which
they were sent.
-/

namespace Nefarious.Lib.Flood

open Fifo

variable {ι σ μ : Type*}

def drain (act : μ → σ → σ) (q : List μ) (s : σ) : σ := q.foldl (fun s m => act m s) s

@[simp] lemma drain_nil (act : μ → σ → σ) (s : σ) : drain act [] s = s := rfl

@[simp] lemma drain_cons (act : μ → σ → σ) (m : μ) (q : List μ) (s : σ) :
    drain act (m :: q) s = drain act q (act m s) := rfl

lemma drain_append (act : μ → σ → σ) (q q' : List μ) (s : σ) :
    drain act (q ++ q') s = drain act q' (drain act q s) := List.foldl_append ..

/-- Below a node of the tree. -/
inductive Below (up : ι → Option ι) (r : ι) : ι → Prop
  | self : Below up r r
  | step {u v : ι} (h : Below up r u) (hup : up v = some u) : Below up r v

/-- Every node has the state of the node above it, once it has read what is on its way from there, and
nothing is on its way elsewhere. -/
structure Synced (act : ι → μ → σ → σ) (up : ι → Option ι) (n : Net ι σ μ) : Prop where
  edge : ∀ u v, up v = some u → drain (act v) (n.queue u v) (n.node v) = n.node u
  other : ∀ u v, up v ≠ some u → n.queue u v = []
  irrefl : ∀ u, up u ≠ some u

variable {act : ι → μ → σ → σ} {up : ι → Option ι} {n : Net ι σ μ}

/-- **Nodes below the root have its state** when nothing is on its way. -/
theorem Synced.agree_of_quiet (h : Synced act up n) (hq : n.Quiet) {r v : ι} (hv : Below up r v) :
    n.node v = n.node r := by
  induction hv with
  | self => rfl
  | step _ hup ih =>
    have he := h.edge _ _ hup
    rw [hq, drain_nil] at he
    exact he.trans ih

variable [DecidableEq ι]

/-- **The root writes**, and sends every node below it something that has the same effect. -/
theorem Synced.write (h : Synced act up n) {r : ι} (hr : up r = none) {s : σ} {out : ι → List μ}
    (hout : ∀ w, up w = some r → drain (act w) (out w) (n.node r) = s)
    (hno : ∀ w, up w ≠ some r → out w = []) : Synced act up (n.put r s out) := by
  refine ⟨fun a b hab => ?_, fun a b hab => ?_, h.irrefl⟩
  · have hb : b ≠ r := by
      rintro rfl
      rw [hr] at hab
      exact absurd hab (by simp)
    rw [n.put_node_of_ne s out hb]
    by_cases ha : a = r
    · subst ha
      rw [n.put_queue_self, n.put_node_self, drain_append, h.edge a b hab]
      exact hout b hab
    · rw [n.put_queue_of_ne s out b ha, n.put_node_of_ne s out ha]
      exact h.edge a b hab
  · by_cases ha : a = r
    · subst ha
      rw [n.put_queue_self, h.other a b hab, hno b hab]
      rfl
    · rw [n.put_queue_of_ne s out b ha]
      exact h.other a b hab

/-- **A node reads a message** and sends the nodes below it something that has the same effect. -/
theorem Synced.deliver (h : Synced act up n) {p u : ι} {m : μ} {q : List μ} (hup : up u = some p)
    (hq : n.queue p u = m :: q) {s : σ} (hs : s = act u m (n.node u)) {out : ι → List μ}
    (hout : ∀ w, up w = some u → drain (act w) (out w) (n.node u) = s)
    (hno : ∀ w, up w ≠ some u → out w = []) : Synced act up ((n.pop p u).put u s out) := by
  have hpu : p ≠ u := fun e => h.irrefl u (e ▸ hup)
  refine ⟨fun a b hab => ?_, fun a b hab => ?_, h.irrefl⟩
  · by_cases ha : a = u
    · subst ha
      have hb : b ≠ a := fun e => h.irrefl a (e ▸ hab)
      rw [Net.put_queue_self, Net.put_node_self, Net.put_node_of_ne _ s out hb, Net.pop_node,
        Net.pop_queue_of_ne n (fun e => hpu e.1.symm), drain_append, h.edge a b hab]
      exact hout b hab
    · rw [Net.put_queue_of_ne _ s out b ha, Net.put_node_of_ne _ s out ha, Net.pop_node]
      by_cases hb : b = u
      · subst hb
        obtain rfl : p = a := Option.some.inj (hup.symm.trans hab)
        rw [Net.put_node_self, Net.pop_queue_self, hq, List.tail_cons, hs, ← h.edge p b hab, hq, drain_cons]
      · rw [Net.put_node_of_ne _ s out hb, Net.pop_node, Net.pop_queue_of_ne n (fun e => hb e.2)]
        exact h.edge a b hab
  · have hpop : (n.pop p u).queue a b = [] := by
      rw [Net.pop_queue_of_ne n]
      · exact h.other a b hab
      · rintro ⟨rfl, rfl⟩
        exact hab hup
    by_cases ha : a = u
    · subst ha
      rw [Net.put_queue_self, hpop, hno b hab]
      rfl
    · rw [Net.put_queue_of_ne _ s out b ha, hpop]

/-- **A node is linked below another one**, which sends it what brings it to its own state. -/
theorem Synced.link (h : Synced act up n) {u v : ι} (hv : up v = none) (huv : u ≠ v) {out : List μ}
    (hout : drain (act v) out (n.node v) = n.node u) :
    Synced act (Function.update up v (some u)) (n.put u (n.node u) fun w => if w = v then out else []) := by
  have hnode : (n.put u (n.node u) fun w => if w = v then out else []).node = n.node :=
    Function.update_eq_self ..
  have hqueue : ∀ a b, (n.put u (n.node u) fun w => if w = v then out else []).queue a b =
      n.queue a b ++ if a = u ∧ b = v then out else [] := by
    intro a b
    by_cases ha : a = u
    · subst ha
      rw [Net.put_queue_self]
      simp
    · rw [Net.put_queue_of_ne _ _ _ _ ha]
      simp [ha]
  refine ⟨fun a b hab => ?_, fun a b hab => ?_, fun a => ?_⟩
  · rw [hnode, hqueue]
    by_cases hb : b = v
    · subst hb
      rw [Function.update_self] at hab
      obtain rfl : u = a := Option.some.inj hab
      rw [h.other u b (by rw [hv]; simp), if_pos ⟨rfl, rfl⟩, List.nil_append]
      exact hout
    · rw [Function.update_of_ne hb] at hab
      rw [if_neg (fun e => hb e.2), List.append_nil]
      exact h.edge a b hab
  · rw [hqueue]
    by_cases hb : b = v
    · subst hb
      rw [Function.update_self] at hab
      have ha : a ≠ u := fun e => hab (by rw [e])
      rw [h.other a b (by rw [hv]; simp), if_neg (fun e => ha e.1)]
      rfl
    · rw [Function.update_of_ne hb] at hab
      rw [h.other a b hab, if_neg (fun e => hb e.2)]
      rfl
  · by_cases ha : a = v
    · subst ha
      rw [Function.update_self]
      exact fun e => huv (Option.some.inj e)
    · rw [Function.update_of_ne ha]
      exact h.irrefl a

end Nefarious.Lib.Flood
