import Mathlib.Combinatorics.SimpleGraph.Connectivity.Connected

/-!
# Nodes with first-in first-out links, and a register that the last writer wins

A `Net` is a state for each node and, for each ordered pair of nodes, the messages that one has sent to the
other and that have not arrived.
-/

set_option linter.unusedSectionVars false

namespace Nefarious.Lib.Fifo

open List (cons_ne_nil foldl_cons foldl_nil)

variable {ι σ μ : Type*}

/-- Nodes and the messages between them. -/
structure Net (ι σ μ : Type*) where
  node : ι → σ
  /-- What the first node has sent to the second, oldest first. -/
  queue : ι → ι → List μ

namespace Net

def Quiet (n : Net ι σ μ) : Prop := ∀ a b, n.queue a b = []

variable [DecidableEq ι]

/-- A node changes its state and sends. -/
def put (n : Net ι σ μ) (u : ι) (s : σ) (out : ι → List μ) : Net ι σ μ where
  node := Function.update n.node u s
  queue := fun a b => if a = u then n.queue a b ++ out b else n.queue a b

/-- The oldest message of a link arrives. -/
def pop (n : Net ι σ μ) (u v : ι) : Net ι σ μ where
  node := n.node
  queue := fun a b => if a = u ∧ b = v then (n.queue a b).tail else n.queue a b

@[simp] lemma put_node_self (n : Net ι σ μ) (u : ι) (s : σ) (out : ι → List μ) :
    (n.put u s out).node u = s := Function.update_self ..

lemma put_node_of_ne (n : Net ι σ μ) {u v : ι} (s : σ) (out : ι → List μ) (h : v ≠ u) :
    (n.put u s out).node v = n.node v := Function.update_of_ne h ..

@[simp] lemma put_queue_self (n : Net ι σ μ) (u : ι) (s : σ) (out : ι → List μ) (b : ι) :
    (n.put u s out).queue u b = n.queue u b ++ out b := if_pos rfl

lemma put_queue_of_ne (n : Net ι σ μ) {u a : ι} (s : σ) (out : ι → List μ) (b : ι) (h : a ≠ u) :
    (n.put u s out).queue a b = n.queue a b := if_neg h

@[simp] lemma pop_node (n : Net ι σ μ) (u v : ι) : (n.pop u v).node = n.node := rfl

@[simp] lemma pop_queue_self (n : Net ι σ μ) (u v : ι) :
    (n.pop u v).queue u v = (n.queue u v).tail := if_pos ⟨rfl, rfl⟩

lemma pop_queue_of_ne (n : Net ι σ μ) {u v a b : ι} (h : ¬ (a = u ∧ b = v)) :
    (n.pop u v).queue a b = n.queue a b := if_neg h

lemma mem_of_mem_pop {n : Net ι σ μ} {u v a b : ι} {y : μ} (h : y ∈ (n.pop u v).queue a b) :
    y ∈ n.queue a b := by
  by_cases hab : a = u ∧ b = v
  · obtain ⟨rfl, rfl⟩ := hab
    rw [pop_queue_self] at h
    exact List.mem_of_mem_tail h
  · rwa [pop_queue_of_ne n hab] at h

lemma mem_put_iff {n : Net ι σ μ} {u a b : ι} {s : σ} {out : ι → List μ} {y : μ} :
    y ∈ (n.put u s out).queue a b ↔ y ∈ n.queue a b ∨ (a = u ∧ y ∈ out b) := by
  by_cases h : a = u
  · subst h
    simp
  · simp [put_queue_of_ne n s out b h, h]

lemma put_self (n : Net ι σ μ) (u : ι) : n.put u (n.node u) (fun _ => []) = n := by
  refine congrArg₂ Net.mk (Function.update_eq_self u n.node) (funext fun a => funext fun b => ?_)
  rw [List.append_nil, ite_self]

end Net

/-- The links `u → v` and `a → b` face each other: a path that does not turn back leads over the first
one and then, against its direction, over the second one. -/
inductive Facing (G : SimpleGraph ι) : ι → ι → ι → ι → Prop
  | here {u v : ι} (h : G.Adj u v) : Facing G u v v u
  | step {u v w a b : ι} (h : G.Adj u v) (hw : w ≠ u) (hf : Facing G v w a b) : Facing G u v a b

lemma Facing.snoc {G : SimpleGraph ι} {u v a b c : ι} (hf : Facing G u v a b) (hc : G.Adj c a)
    (hne : c ≠ b) : Facing G u v c a := by
  induction hf with
  | here h => exact .step h hne (.here hc.symm)
  | step h hw _ ih => exact .step h hw (ih hc hne)

lemma Facing.symm {G : SimpleGraph ι} {u v a b : ι} (hf : Facing G u v a b) : Facing G a b u v := by
  induction hf with
  | here h => exact .here h.symm
  | step h hw _ ih => exact ih.snoc h (Ne.symm hw)

/-! ## The register -/

section Register

variable {τ T : Type*} [LinearOrder T] [DecidableEq ι] (stamp : τ → T) (G : SimpleGraph ι)
  [DecidableRel G.Adj]

/-- What a node has when it has read a message. -/
def merge (s m : τ) : τ := if stamp m < stamp s then s else m

/-- Send to every neighbour but one. -/
def flood (u : ι) (but : Option ι) (m : μ) : ι → List μ :=
  fun w => if G.Adj u w ∧ some w ≠ but then [m] else []

/-- A write with the value `x` at the node `u` is in order: its stamp is not older than the one of the
node, and what is on its way to the node with the same stamp has the same value. -/
structure InOrder (n : Net ι τ τ) (u : ι) (x : τ) : Prop where
  le : stamp (n.node u) ≤ stamp x
  facing : ∀ w a b, Facing G u w a b → ∀ y ∈ n.queue a b, stamp y = stamp x → y = x

/-- What holds of every state that is reached. -/
structure Inv (n : Net ι τ τ) : Prop where
  link : ∀ a b, n.queue a b ≠ [] → G.Adj a b
  settle : ∀ u v, G.Adj u v →
    (n.queue u v).foldl (merge stamp) (n.node v) = (n.queue v u).foldl (merge stamp) (n.node u)
  facing : ∀ u v a b, Facing G u v a b → ∀ m ∈ n.queue u v, ∀ y ∈ n.queue a b, stamp m = stamp y → m = y

/-! ## Reading what is on its way -/

variable {stamp G}

lemma le_stamp_merge (s m : τ) : stamp s ≤ stamp (merge stamp s m) := by
  unfold merge
  split
  · exact le_rfl
  · next h => exact not_lt.1 h

lemma le_stamp_foldl (q : List τ) (s : τ) : stamp s ≤ stamp (q.foldl (merge stamp) s) := by
  induction q generalizing s with
  | nil => exact le_rfl
  | cons y q ih => exact (le_stamp_merge s y).trans (ih _)

lemma merge_of_le {s m : τ} (h : stamp s ≤ stamp m) : merge stamp s m = m := if_neg (not_lt.2 h)

/-- **A write commutes with reading**: to read a link and then the write gives what the link gives
to a node that has the write already. -/
theorem merge_foldl_eq {s x : τ} (q : List τ) (hle : stamp s ≤ stamp x)
    (hq : ∀ y ∈ q, stamp y = stamp x → y = x) :
    merge stamp (q.foldl (merge stamp) s) x = q.foldl (merge stamp) x := by
  induction q generalizing s with
  | nil => exact merge_of_le hle
  | cons y q ih =>
    have hq' : ∀ z ∈ q, stamp z = stamp x → z = x := fun z hz => hq z (List.mem_cons_of_mem _ hz)
    rw [foldl_cons, foldl_cons]
    rcases lt_trichotomy (stamp y) (stamp x) with hlt | heq | hgt
    · -- An older message is passed over by the write, whether or not the node took it.
      have hs : stamp (merge stamp s y) ≤ stamp x := by
        unfold merge
        split
        · exact hle
        · exact hlt.le
      rw [ih hs hq', show merge stamp x y = x from if_pos hlt]
    · obtain rfl := hq y List.mem_cons_self heq
      rw [merge_of_le hle, merge_of_le le_rfl]
      exact ih le_rfl hq'
    · -- A newer one wins on both sides.
      rw [merge_of_le hgt.le, merge_of_le (hle.trans hgt.le)]
      exact if_pos (hgt.trans_le (le_stamp_foldl q y))

/-! ## The invariant -/

lemma inv_of_same {n : Net ι τ τ} (hq : n.Quiet) (hs : ∀ u v, n.node u = n.node v) : Inv stamp G n where
  link a b h := absurd (hq a b) h
  settle u v _ := by rw [hq u v, hq v u]; exact hs v u
  facing u v a b _ m hm := by
    rw [hq u v] at hm
    exact absurd hm List.not_mem_nil

lemma mem_flood {u w : ι} {but : Option ι} {m y : μ} :
    y ∈ flood G u but m w ↔ (G.Adj u w ∧ some w ≠ but) ∧ y = m := by
  unfold flood
  split <;> simp_all

lemma link_put {n : Net ι τ τ} (h : ∀ a b, n.queue a b ≠ [] → G.Adj a b) (u : ι) (s x : τ)
    (but : Option ι) : ∀ a b, (n.put u s (flood G u but x)).queue a b ≠ [] → G.Adj a b := by
  intro a b hne
  obtain ⟨y, hy⟩ := List.exists_mem_of_ne_nil _ hne
  rcases Net.mem_put_iff.1 hy with hy | ⟨rfl, hy⟩
  · exact h a b (List.ne_nil_of_mem hy)
  · exact (mem_flood.1 hy).1.1

lemma facing_put {n : Net ι τ τ} {u : ι} {s x : τ} {but : Option ι}
    (h : ∀ a b c d, Facing G a b c d → ∀ m ∈ n.queue a b, ∀ y ∈ n.queue c d, stamp m = stamp y → m = y)
    (hx : ∀ w a b, some w ≠ but → Facing G u w a b → ∀ y ∈ n.queue a b, stamp y = stamp x → y = x) :
    ∀ a b c d, Facing G a b c d → ∀ m ∈ (n.put u s (flood G u but x)).queue a b,
      ∀ y ∈ (n.put u s (flood G u but x)).queue c d, stamp m = stamp y → m = y := by
  intro a b c d hf m hm y hy he
  rcases Net.mem_put_iff.1 hm with hm₁ | ⟨ha, hm₁⟩ <;> rcases Net.mem_put_iff.1 hy with hy₁ | ⟨hc, hy₁⟩
  · exact h a b c d hf m hm₁ y hy₁ he
  · obtain ⟨⟨-, hb⟩, hyx⟩ := mem_flood.1 hy₁
    rw [hyx] at he ⊢
    exact hx d a b hb (hc ▸ hf.symm) m hm₁ he
  · obtain ⟨⟨-, hb⟩, hmx⟩ := mem_flood.1 hm₁
    rw [hmx] at he ⊢
    exact (hx b c d hb (ha ▸ hf) y hy₁ he.symm).symm
  · rw [(mem_flood.1 hm₁).2, (mem_flood.1 hy₁).2]

lemma adj_cases {P : ι → ι → Prop} (u : ι) (hsymm : ∀ {a b}, P a b → P b a) (hself : ∀ w, G.Adj u w → P u w)
    (hother : ∀ a b, a ≠ u → b ≠ u → G.Adj a b → P a b) : ∀ a b, G.Adj a b → P a b := by
  intro a b hab
  by_cases ha : a = u
  · obtain rfl := ha
    exact hself b hab
  by_cases hb : b = u
  · obtain rfl := hb
    exact hsymm (hself a hab.symm)
  · exact hother a b ha hb hab

/-- **A write that is in order keeps the invariant.** -/
theorem Inv.write {n : Net ι τ τ} (h : Inv stamp G n) {u : ι} {x : τ} (hx : InOrder stamp G n u x) :
    Inv stamp G (n.put u x (flood G u none x)) where
  link := link_put h.link u x x none
  facing := facing_put h.facing (fun w a b _ => hx.facing w a b)
  settle := by
    refine adj_cases u (fun h => h.symm) (fun w huw => ?_) (fun a b ha hb hab => ?_)
    · have hold := h.settle u w huw
      have hwu : w ≠ u := huw.ne'
      have hfl : flood G u none x w = [x] := if_pos ⟨huw, Option.some_ne_none w⟩
      rw [Net.put_queue_self, Net.put_queue_of_ne n _ _ _ hwu, Net.put_node_self,
        Net.put_node_of_ne n _ _ hwu, hfl, List.foldl_append, foldl_cons, foldl_nil, hold]
      exact merge_foldl_eq _ hx.le (hx.facing w w u (.here huw))
    · rw [Net.put_queue_of_ne n _ _ _ ha, Net.put_queue_of_ne n _ _ _ hb, Net.put_node_of_ne n _ _ ha,
        Net.put_node_of_ne n _ _ hb]
      exact h.settle a b hab

lemma Net.put_put (n : Net ι σ μ) (u : ι) (s s' : σ) (out out' : ι → List μ) :
    (n.put u s out).put u s' out' = n.put u s' (fun w => out w ++ out' w) := by
  refine congrArg₂ Net.mk (Function.update_idem ..) (funext fun a => funext fun b => ?_)
  by_cases ha : a = u
  · obtain rfl := ha
    simp
  · simp [ha, put_queue_of_ne n s out b ha]

lemma InOrder.again {n : Net ι τ τ} {u : ι} {x : τ} (hx : InOrder stamp G n u x)
    (out : ι → List τ) (ho : ∀ w, ∀ y ∈ out w, y = x) : InOrder stamp G (n.put u x out) u x where
  le := by rw [Net.put_node_self]
  facing w a b hf y hy he := by
    rcases Net.mem_put_iff.1 hy with hy | ⟨-, hy⟩
    · exact hx.facing w a b hf y hy he
    · exact ho b y hy

/-- **A write may be flooded several times over.** -/
theorem Inv.write_replicate {n : Net ι τ τ} (h : Inv stamp G n) {u : ι} {x : τ}
    (hx : InOrder stamp G n u x) (k : ℕ) :
    Inv stamp G (n.put u x (fun w => if G.Adj u w then List.replicate (k + 1) x else [])) := by
  induction k with
  | zero =>
    have hfl : (fun w => if G.Adj u w then List.replicate (0 + 1) x else []) = flood G u none x := by
      funext w
      simp [flood]
    rw [hfl]
    exact h.write hx
  | succ k ih =>
    have hagain := hx.again (fun w => if G.Adj u w then List.replicate (k + 1) x else [])
      (fun w y hy => by
        split at hy
        · exact (List.mem_replicate.1 hy).2
        · exact absurd hy List.not_mem_nil)
    have hstep := ih.write hagain
    rw [Net.put_put] at hstep
    refine (congrArg (fun out => Inv stamp G (n.put u x out)) (funext fun w => ?_)).mp hstep
    by_cases hw : G.Adj u w
    · simp [flood, hw, List.replicate_succ']
    · simp [flood, hw]

lemma Inv.facing_pop {n : Net ι τ τ} (h : Inv stamp G n) (u v : ι) :
    ∀ a b c d, Facing G a b c d → ∀ m ∈ (n.pop u v).queue a b, ∀ y ∈ (n.pop u v).queue c d,
      stamp m = stamp y → m = y := fun a b c d hf m hm y hy =>
  h.facing a b c d hf m (Net.mem_of_mem_pop hm) y (Net.mem_of_mem_pop hy)

lemma Inv.link_pop {n : Net ι τ τ} (h : Inv stamp G n) (u v : ι) :
    ∀ a b, (n.pop u v).queue a b ≠ [] → G.Adj a b := by
  intro a b hne
  obtain ⟨y, hy⟩ := List.exists_mem_of_ne_nil _ hne
  exact h.link a b (List.ne_nil_of_mem (Net.mem_of_mem_pop hy))

lemma Inv.settle_head {n : Net ι τ τ} (h : Inv stamp G n) {u v : ι} {m : τ} {rest : List τ}
    (hq : n.queue u v = m :: rest) :
    (n.queue v u).foldl (merge stamp) (n.node u) = rest.foldl (merge stamp) (merge stamp (n.node v) m) := by
  have hadj : G.Adj u v := h.link u v (by rw [hq]; exact cons_ne_nil _ _)
  rw [← h.settle u v hadj, hq, foldl_cons]

/-- **A message that is passed over keeps the invariant.** -/
theorem Inv.keep {n : Net ι τ τ} (h : Inv stamp G n) {u v : ι} {m : τ} {rest : List τ}
    (hq : n.queue u v = m :: rest) (hlt : stamp m < stamp (n.node v)) : Inv stamp G (n.pop u v) where
  link := h.link_pop u v
  facing := h.facing_pop u v
  settle := by
    have hadj : G.Adj u v := h.link u v (by rw [hq]; exact cons_ne_nil _ _)
    have hhead : (n.queue v u).foldl (merge stamp) (n.node u) = rest.foldl (merge stamp) (n.node v) := by
      rw [h.settle_head hq, show merge stamp (n.node v) m = n.node v from if_pos hlt]
    refine adj_cases v (fun h => h.symm) (fun w hvw => ?_) (fun a b ha hb hab => ?_)
    · have hvwu : ¬ (v = u ∧ w = v) := fun e => hadj.ne e.1.symm
      rw [Net.pop_node, Net.pop_queue_of_ne n hvwu]
      by_cases hwu : w = u
      · obtain rfl := hwu
        rw [Net.pop_queue_self, hq, List.tail_cons]
        exact hhead
      · rw [Net.pop_queue_of_ne n (fun e => hwu e.1)]
        exact h.settle v w hvw
    · rw [Net.pop_node, Net.pop_queue_of_ne n (fun e => hb e.2), Net.pop_queue_of_ne n (fun e => ha e.2)]
      exact h.settle a b hab

/-- **A message that is taken and passed on keeps the invariant.** -/
theorem Inv.take {n : Net ι τ τ} (h : Inv stamp G n) {u v : ι} {m : τ} {rest : List τ}
    (hq : n.queue u v = m :: rest) (hle : stamp (n.node v) ≤ stamp m) :
    Inv stamp G ((n.pop u v).put v m (flood G v (some u) m)) := by
  have hadj : G.Adj u v := h.link u v (by rw [hq]; exact cons_ne_nil _ _)
  have hmem : m ∈ n.queue u v := by rw [hq]; exact List.mem_cons_self
  -- What faces the message behind the node has faced it before.
  have hface : ∀ w a b, w ≠ u → Facing G v w a b → ∀ y ∈ n.queue a b, stamp y = stamp m → y = m :=
    fun w a b hw hf y hy he => (h.facing u v a b (.step hadj hw hf) m hmem y hy he.symm).symm
  refine ⟨link_put (h.link_pop u v) v m m (some u), ?_, facing_put (h.facing_pop u v)
    (fun w a b hw hf y hy => hface w a b (fun e => hw (congrArg some e)) hf y (Net.mem_of_mem_pop hy))⟩
  refine adj_cases v (fun h => h.symm) (fun w hvw => ?_) (fun a b ha hb hab => ?_)
  · have hwv : w ≠ v := hvw.ne'
    rw [Net.put_queue_self, Net.put_queue_of_ne _ _ _ _ hwv, Net.put_node_self,
      Net.put_node_of_ne _ _ _ hwv, Net.pop_node,
      Net.pop_queue_of_ne n (fun e : v = u ∧ w = v => hadj.ne e.1.symm)]
    by_cases hwu : w = u
    · obtain rfl := hwu
      have hfl : flood G v (some w) m w = [] := if_neg (fun e => e.2 rfl)
      rw [hfl, List.append_nil, Net.pop_queue_self, hq, List.tail_cons, h.settle_head hq, merge_of_le hle]
    · have hfl : flood G v (some u) m w = [m] :=
        if_pos ⟨hvw, fun e => hwu (Option.some_inj.1 e)⟩
      rw [hfl, Net.pop_queue_of_ne n (fun e => hwu e.1), List.foldl_append, foldl_cons,
        foldl_nil, h.settle v w hvw]
      exact merge_foldl_eq _ hle (hface w w v hwu (.here hvw))
  · rw [Net.put_queue_of_ne _ _ _ _ ha, Net.put_queue_of_ne _ _ _ _ hb, Net.put_node_of_ne _ _ _ ha,
      Net.put_node_of_ne _ _ _ hb, Net.pop_node, Net.pop_queue_of_ne n (fun e => hb e.2),
      Net.pop_queue_of_ne n (fun e => ha e.2)]
    exact h.settle a b hab

/-- **Agreement**: when nothing is on its way, all nodes of a connected graph have the same value. -/
theorem Inv.agree_of_quiet {n : Net ι τ τ} (h : Inv stamp G n) (hq : n.Quiet) (hc : G.Connected)
    (u v : ι) : n.node u = n.node v := by
  obtain ⟨p⟩ := hc.preconnected u v
  induction p with
  | nil => rfl
  | cons hadj _ ih =>
    have hs := h.settle _ _ hadj
    rw [hq, hq, foldl_nil, foldl_nil] at hs
    exact hs.symm.trans ih

end Register

end Nefarious.Lib.Fifo
