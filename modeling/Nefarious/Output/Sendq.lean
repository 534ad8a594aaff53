import Nefarious.Output.Pool

/-!
# Deleting bytes from a send queue

What `msgq_delete` leaves of a queue, and what a queue promises: it counts what is left, only its head is
partially sent, and the bytes that left it are the first of its messages, with a beginning of the next.
-/

namespace Nefarious.Msgq

open Option (bind_eq_bind bind_some map_eq_some_iff map_some)
open List (append_assoc flatten_cons length_append length_cons length_drop map_append map_cons map_map
  map_singleton mem_append mem_cons mem_cons_of_mem mem_cons_self mem_singleton nil_append)

/-! ## Deleting from a queue -/

/-- What is left of a list, in bytes; `T` gives the texts of the buffers. -/
def restBytes (T : BufId → Str) (l : List Msg) : Str :=
  (l.map (fun m => (T m.msg).drop m.sent)).flatten

/-- What of the head of a list has been sent. -/
def begun (T : BufId → Str) : List Msg → Str
  | m :: _ => (T m.msg).take m.sent
  | [] => []

/-- Only the head of a list is partially sent. -/
def Begun : List Msg → Prop
  | _ :: l => ∀ m ∈ l, m.sent = 0
  | [] => True

/-- No message of a list has been sent entirely. -/
def Unsent (T : BufId → Str) (l : List Msg) : Prop := ∀ m ∈ l, m.sent < (T m.msg).length

/-- The buffers of a list have these texts. -/
def Holds (s : Pool) (T : BufId → Str) (l : List Msg) : Prop :=
  ∀ m ∈ l, ∃ b, s.heap m.msg = some b ∧ b.text = T m.msg

lemma sub32_mod {a b : ℕ} (h : b ≤ a) : sub32 (a % 2 ^ 32) b = (a - b) % 2 ^ 32 := by
  rw [sub32]
  omega

lemma Begun.tail {m : Msg} {l : List Msg} (h : Begun (m :: l)) (T : BufId → Str) :
    Begun l ∧ begun T l = [] := by
  cases l with
  | nil => exact ⟨trivial, rfl⟩
  | cons m' l =>
    refine ⟨fun x hx => h x (mem_cons_of_mem _ hx), ?_⟩
    rw [begun, h m' (mem_cons_self ..), List.take_zero]

/-- What a deletion leaves: `k` messages are gone from the list `l`, and `l'` is what is left of it.
`msgq.c` `msgq_delete` -/
structure Deleted (T : BufId → Str) (s t : Pool) (L L' : Finset BufId) (R R' : BufId → ℕ)
    (l l' : List Msg) (k n : ℕ) (mq' : MsgQ) : Prop where
  sound : t.Sound L' ∅ R'
  use : L' ⊆ L
  heap : ∀ id, (t.heap id).map (fun b => (b.real, b.text, b.power)) =
    (s.heap id).map (fun b => (b.real, b.text, b.power))
  refs : ∀ id, R' id + ((l.take k).map Msg.msg).count id = R id
  gone : k ≤ l.length
  left : l'.map Msg.msg = (l.drop k).map Msg.msg
  queue : mq' = ⟨(restBytes T l').length % 2 ^ 32, l'.length % 2 ^ 32, l', []⟩
  head : Begun l'
  unsent : Unsent T l'
  bytes : begun T l ++ (restBytes T l).take n = ((l.take k).map (fun m => T m.msg)).flatten ++ begun T l'
  msgs : t.msgsUsed + k = s.msgsUsed ∧ t.msgsFree = s.msgsFree + k ∧ t.msgsAlloc = s.msgsAlloc

/-- A queue whose priority list is empty, and whose counters are those of its list.
`msgq.h` `struct MsgQ` -/
def queueOf (T : BufId → Str) (l : List Msg) : MsgQ :=
  ⟨(restBytes T l).length % 2 ^ 32, l.length % 2 ^ 32, l, []⟩

lemma pick_queueOf (T : BufId → Str) (m : Msg) (l : List Msg) : pick (queueOf T (m :: l)) = some false := by
  rw [pick]
  split
  · rfl
  · simp [queueOf]

section Delete

variable {T : BufId → Str} {s : Pool} {L : Finset BufId} {R : BufId → ℕ}

lemma delmsg_head {m : Msg} {l : List Msg} {n : ℕ} (h : s.Sound L ∅ R)
    (hT : Holds s T (m :: l)) (hR : 0 < R m.msg) (hn : (T m.msg).length - m.sent ≤ n) :
    ∃ t L', msgqDelmsg s (queueOf T (m :: l)) false n =
        some ({ t with msgsUsed := t.msgsUsed - 1, msgsFree := t.msgsFree + 1 }, queueOf T l,
          n - ((T m.msg).length - m.sent)) ∧
      t.Sound L' ∅ (less R m.msg) ∧ s.Keeps t ∧ L' ⊆ L := by
  obtain ⟨b, hb, hbT⟩ := hT m (mem_cons_self ..)
  obtain ⟨t, L', ht, hsound, hkeep, hsub⟩ := h.clean hb hR
  refine ⟨t, L', ?_, hsound, hkeep, hsub⟩
  have hlen : (restBytes T (m :: l)).length = (T m.msg).length - m.sent + (restBytes T l).length := by
    rw [restBytes, map_cons, flatten_cons, length_append, length_drop, restBytes]
  have hq : ({ MsgQ.set (queueOf T (m :: l)) l false with
      length := sub32 (queueOf T (m :: l)).length ((T m.msg).length - m.sent)
      count := sub32 (queueOf T (m :: l)).count 1 } : MsgQ) = queueOf T l := by
    rw [queueOf, hlen, length_cons, sub32_mod (by omega), sub32_mod (by omega), queueOf]
    simp [MsgQ.set]
  rw [msgqDelmsg, show (queueOf T (m :: l)).get false = m :: l from rfl]
  simp only [hb, hbT, bind_eq_bind, bind_some, ge_iff_le, if_pos hn, ht]
  exact congrArg (fun q => some (_, q, _)) hq

lemma delmsg_cut {m : Msg} {l : List Msg} {n : ℕ} (hT : Holds s T (m :: l))
    (hn : n < (T m.msg).length - m.sent) :
    msgqDelmsg s (queueOf T (m :: l)) false n =
      some (s, queueOf T ({ m with sent := m.sent + n } :: l), 0) := by
  obtain ⟨b, hb, hbT⟩ := hT m (mem_cons_self ..)
  have hlen : ∀ x, (restBytes T ({ m with sent := x } :: l)).length =
      (T m.msg).length - x + (restBytes T l).length := by
    intro x
    rw [restBytes, map_cons, flatten_cons, length_append, length_drop, restBytes]
  have hq : ({ MsgQ.set (queueOf T (m :: l)) ({ m with sent := m.sent + n } :: l) false with
      length := sub32 (queueOf T (m :: l)).length n } : MsgQ) =
      queueOf T ({ m with sent := m.sent + n } :: l) := by
    have h1 : (restBytes T (m :: l)).length = _ := hlen m.sent
    rw [queueOf, queueOf, h1, hlen, sub32_mod (by omega)]
    simp only [MsgQ.set, length_cons]
    congr 2
    omega
  rw [msgqDelmsg, show (queueOf T (m :: l)).get false = m :: l from rfl]
  simp only [hb, hbT, bind_eq_bind, bind_some, ge_iff_le, if_neg (not_le.mpr hn)]
  exact congrArg (fun q => some (s, q, 0)) hq

lemma deleteLoop_spec : (l : List Msg) → ∀ {fuel n : ℕ} {s : Pool} {L : Finset BufId}
    {R : BufId → ℕ}, l.length + 2 ≤ fuel → s.Sound L ∅ R → Holds s T l →
    Begun l → Unsent T l → (∀ id, (l.map Msg.msg).count id ≤ R id) → l.length ≤ s.msgsUsed →
    n ≤ (restBytes T l).length →
    ∃ t L' R' l' k mq', msgqDeleteLoop fuel s (queueOf T l) n = some (t, mq') ∧
      Deleted T s t L L' R R' l l' k n mq'
  | [], fuel, n, s, L, R, hfuel, h, hT, hB, hU, hR, hused, hn => by
    obtain rfl : n = 0 := Nat.le_zero.mp hn
    obtain ⟨fuel, rfl⟩ : ∃ f, fuel = f + 1 := ⟨fuel - 1, by omega⟩
    refine ⟨s, L, R, [], 0, queueOf T [], ?_, ⟨h, Finset.Subset.refl L, fun _ => rfl, fun _ => by simp, le_rfl, rfl, rfl,
      trivial, hU, by simp [begun, restBytes], rfl, rfl, rfl⟩⟩
    rw [msgqDeleteLoop, if_pos rfl]
  | m :: l, fuel, n, s, L, R, hfuel, h, hT, hB, hU, hR, hused, hn => by
    obtain ⟨fuel, rfl⟩ : ∃ f, fuel = f + 1 := ⟨fuel - 1, by omega⟩
    rw [msgqDeleteLoop]
    by_cases hz : n = 0
    · subst hz
      rw [if_pos rfl]
      exact ⟨s, L, R, m :: l, 0, _, rfl, ⟨h, Finset.Subset.refl L, fun _ => rfl, fun _ => by simp,
        Nat.zero_le _, rfl, rfl, hB, hU, by simp, rfl, rfl, rfl⟩⟩
    rw [if_neg hz, pick_queueOf]
    simp only [bind_eq_bind]
    have hrest : restBytes T (m :: l) = (T m.msg).drop m.sent ++ restBytes T l := by
      rw [restBytes, map_cons, flatten_cons, restBytes]
    have hlen : (restBytes T (m :: l)).length = (T m.msg).length - m.sent + (restBytes T l).length := by
      rw [hrest, length_append, length_drop]
    by_cases hhead : (T m.msg).length - m.sent ≤ n
    · have hpos : 0 < R m.msg := by
        have := hR m.msg
        rw [map_cons, List.count_cons_self] at this
        omega
      obtain ⟨t₁, L₁, hdel, hsound₁, hkeep₁, hsub₁⟩ := delmsg_head h hT hpos hhead
      rw [hdel, bind_some]
      obtain ⟨hB', hnil⟩ := hB.tail T
      obtain ⟨s₁, hs₁⟩ : ∃ s₁ : Pool,
        s₁ = { t₁ with msgsUsed := t₁.msgsUsed - 1, msgsFree := t₁.msgsFree + 1 } := ⟨_, rfl⟩
      have hheap₁ : s₁.heap = t₁.heap := by rw [hs₁]
      have hT₁ : Holds s₁ T l := by
        intro m' hm'
        obtain ⟨b, hb, hbT⟩ := hT m' (mem_cons_of_mem _ hm')
        have hk := hkeep₁.heap m'.msg
        rw [hb, map_some] at hk
        obtain ⟨c, hc, e⟩ := map_eq_some_iff.mp hk
        simp only [Prod.mk.injEq] at e
        exact ⟨c, hheap₁ ▸ hc, e.2.1.trans hbT⟩
      have hR₁ : ∀ id, (l.map Msg.msg).count id ≤ less R m.msg id := by
        intro id
        have := hR id
        rw [map_cons] at this
        rw [less]
        by_cases e : id = m.msg
        · subst e
          rw [List.count_cons_self] at this
          rw [Function.update_self]
          omega
        · rw [List.count_cons_of_ne (Ne.symm e)] at this
          rw [Function.update_of_ne e]
          exact this
      obtain ⟨m1, m2, m3⟩ := hkeep₁.msgs
      rw [length_cons] at hfuel hused
      have hused₁ : s₁.msgsUsed + 1 = s.msgsUsed ∧ s₁.msgsFree = s.msgsFree + 1 ∧
          s₁.msgsAlloc = s.msgsAlloc := by
        rw [hs₁]
        simp only
        omega
      rw [← hs₁]
      obtain ⟨t, L', R', l', k, mq', hloop, hd⟩ := deleteLoop_spec l (show l.length + 2 ≤ fuel by omega) ((hsound₁.congr hheap₁ (by rw [hs₁]) (by rw [hs₁])
          (by rw [hs₁]) (by rw [hs₁]))) hT₁ hB' (fun x hx => hU x (mem_cons_of_mem _ hx)) hR₁ (by omega)
        (show n - ((T m.msg).length - m.sent) ≤ _ by omega)
      refine ⟨t, L', R', l', k + 1, mq', hloop, hd.sound, hd.use.trans hsub₁, ?_, ?_, by
        rw [length_cons]; exact Nat.succ_le_succ hd.gone, hd.left, hd.queue, hd.head,
        hd.unsent, ?_, ?_⟩
      · intro id
        rw [hd.heap, hheap₁]
        exact hkeep₁.heap id
      · intro id
        have := hd.refs id
        rw [List.take_succ_cons, map_cons]
        rw [less] at this
        by_cases e : id = m.msg
        · subst e
          rw [List.count_cons_self]
          rw [Function.update_self] at this
          omega
        · rw [List.count_cons_of_ne (Ne.symm e)]
          rwa [Function.update_of_ne e] at this
      · have hbytes := hd.bytes
        rw [hnil, nil_append] at hbytes
        have hsplit : (restBytes T (m :: l)).take n = (T m.msg).drop m.sent ++
            (restBytes T l).take (n - ((T m.msg).length - m.sent)) := by
          rw [hrest, List.take_append, length_drop, List.take_of_length_le (by rw [length_drop]; exact hhead)]
        rw [List.take_succ_cons, map_cons, flatten_cons, append_assoc, ← hbytes,
          hsplit, begun, ← append_assoc, List.take_append_drop]
      · obtain ⟨h1, h2, h3⟩ := hd.msgs
        omega
    · have hlt : n < (T m.msg).length - m.sent := not_le.mp hhead
      rw [delmsg_cut hT hlt, bind_some]
      obtain ⟨fuel, rfl⟩ : ∃ f, fuel = f + 1 := ⟨fuel - 1, by rw [length_cons] at hfuel; omega⟩
      rw [msgqDeleteLoop, if_pos rfl]
      refine ⟨s, L, R, { m with sent := m.sent + n } :: l, 0, _, rfl, ⟨h, Finset.Subset.refl L,
        fun _ => rfl, fun _ => by simp, Nat.zero_le _, rfl, rfl, hB, ?_, ?_, rfl, rfl, rfl⟩⟩
      · intro x hx
        rcases mem_cons.mp hx with rfl | hx
        · show m.sent + n < (T m.msg).length
          omega
        · exact hU x (mem_cons_of_mem _ hx)
      rw [hrest, List.take_append_of_le_length (by rw [length_drop]; omega), begun, begun,
        List.take_zero, List.map_nil, List.flatten_nil, nil_append, ← List.take_add]

end Delete

/-! ## One queue -/

lemma mapM_eq_some {α β : Type} {f : α → Option β} {g : α → β} :
    (l : List α) → (∀ x ∈ l, f x = some (g x)) → l.mapM f = some (l.map g)
  | [], _ => rfl
  | x :: l, h => by
    rw [List.mapM_cons, h x (mem_cons_self ..), mapM_eq_some l fun y hy => h y (mem_cons_of_mem _ hy)]
    rfl

lemma mapiov_queueOf {T : BufId → Str} {s : Pool} {l : List Msg} (hT : Holds s T l) (hB : Begun l)
    (count : ℕ) : msgqMapiov s (queueOf T l) count = some (if (restBytes T l).length % 2 ^ 32 = 0 then []
        else (l.map (fun m => (T m.msg).drop m.sent)).take count) := by
  have hrest : ∀ m ∈ l, restOf s m = some ((T m.msg).drop m.sent) := by
    intro m hm
    obtain ⟨b, hb, e⟩ := hT m hm
    rw [restOf, hb, map_some, e]
  have htext : ∀ m ∈ l, m.sent = 0 → textOf s m = some ((T m.msg).drop m.sent) := by
    intro m hm hz
    obtain ⟨b, hb, e⟩ := hT m hm
    rw [textOf, hb, map_some, e, hz, List.drop_zero]
  rw [msgqMapiov, show (queueOf T l).length = (restBytes T l).length % 2 ^ 32 from rfl,
    show (queueOf T l).queue = l from rfl, show (queueOf T l).prio = [] from rfl]
  by_cases hz : (restBytes T l).length % 2 ^ 32 = 0
  · rw [if_pos hz, if_pos hz]
  · have hheads : (headPart l ++ headPart []).mapM (restOf s) =
        some ((headPart l).map (fun m => (T m.msg).drop m.sent)) := by
      rw [show headPart [] = [] from rfl, List.append_nil]
      refine mapM_eq_some _ fun m hm => hrest m ?_
      rw [headPart] at hm
      split at hm
      · exact List.mem_of_mem_take hm
      · cases hm
    have htails : (tailPart [] ++ tailPart l).mapM (textOf s) =
        some ((tailPart l).map (fun m => (T m.msg).drop m.sent)) := by
      rw [show tailPart [] = [] from rfl, nil_append]
      refine mapM_eq_some _ fun m hm => ?_
      cases l with
      | nil => cases hm
      | cons m' l =>
        rw [tailPart] at hm
        split at hm
        · rw [List.drop_one, List.tail_cons] at hm
          exact htext m (mem_cons_of_mem _ hm) (hB m hm)
        · rename_i hp
          rcases mem_cons.mp hm with rfl | hm
          · refine htext m (mem_cons_self ..) ?_
            simpa [partialHead] using hp
          · exact htext m (mem_cons_of_mem _ hm) (hB m hm)
    have hparts : headPart l ++ tailPart l = l := by
      rw [headPart, tailPart]
      split
      · exact List.take_append_drop 1 l
      · rfl
    rw [if_neg hz, if_neg hz, hheads, htails, bind_eq_bind, bind_some, bind_some, ← map_append, hparts]

def Pool.text (s : Pool) (id : BufId) : Str := ((s.heap id).map MsgBuf.text).getD []

/-- A queue delivers what was added to it: its buffers are there, it counts what is left, and what
left it are the first of the messages, with a beginning of the next.
`msgq.h` `struct MsgQ` -/
structure QueueOk (s : Pool) (mq : MsgQ) (added : List (Bool × Str)) (wire : Str) : Prop where
  entry : ∀ m ∈ mq.queue, ∃ b, s.heap m.msg = some b ∧ (b.real = none ∨ b.real = some m.msg)
  queue : mq = queueOf s.text mq.queue
  head : Begun mq.queue
  unsent : Unsent s.text mq.queue
  wire : ∃ done, added.map Prod.snd = done ++ mq.queue.map (fun m => s.text m.msg) ∧
    wire = done.flatten ++ begun s.text mq.queue

section Queue

variable {s t : Pool} {mq : MsgQ} {added : List (Bool × Str)} {wire : Str}

lemma QueueOk.holds (h : QueueOk s mq added wire) : Holds s s.text mq.queue := by
  intro m hm
  obtain ⟨b, hb, -⟩ := h.entry m hm
  exact ⟨b, hb, by rw [Pool.text, hb]; rfl⟩

lemma queue_congr (T T' : BufId → Str) : (l : List Msg) → (∀ m ∈ l, T' m.msg = T m.msg) →
    restBytes T' l = restBytes T l ∧ begun T' l = begun T l ∧
      l.map (fun m => T' m.msg) = l.map (fun m => T m.msg)
  | l, h => by
    have h1 : l.map (fun m => (T' m.msg).drop m.sent) = l.map (fun m => (T m.msg).drop m.sent) :=
      List.map_congr_left fun m hm => by rw [h m hm]
    have h2 : l.map (fun m => T' m.msg) = l.map (fun m => T m.msg) := List.map_congr_left fun m hm => h m hm
    refine ⟨by rw [restBytes, restBytes, h1], ?_, h2⟩
    cases l with
    | nil => rfl
    | cons m l => rw [begun, begun, h m (mem_cons_self ..)]

lemma QueueOk.congr (h : QueueOk s mq added wire)
    (hst : ∀ m ∈ mq.queue, (t.heap m.msg).map (fun b => (b.real, b.text)) =
      (s.heap m.msg).map (fun b => (b.real, b.text))) : QueueOk t mq added wire := by
  have hget : ∀ m ∈ mq.queue, t.text m.msg = s.text m.msg := by
    intro m hm
    have := congrArg (Option.map Prod.snd) (hst m hm)
    rw [Option.map_map, Option.map_map] at this
    rw [Pool.text, Pool.text]
    exact congrArg (Option.getD · []) this
  obtain ⟨h1, h2, h3⟩ := queue_congr _ _ mq.queue hget
  obtain ⟨done, hadded, hwire⟩ := h.wire
  refine ⟨?_, ?_, h.head, fun m hm => by rw [hget m hm]; exact h.unsent m hm, done,
    by rw [hadded, h3], by rw [hwire, h2]⟩
  · intro m hm
    obtain ⟨b, hb, hr⟩ := h.entry m hm
    have := hst m hm
    rw [hb, map_some] at this
    obtain ⟨c, hc, e⟩ := map_eq_some_iff.mp this
    simp only [Prod.mk.injEq] at e
    exact ⟨c, hc, e.1 ▸ hr⟩
  · rw [queueOf, h1]
    exact h.queue

lemma QueueOk.deleted {L L' : Finset BufId} {R R' : BufId → ℕ} {l' : List Msg} {k n : ℕ} {mq' : MsgQ}
    (h : QueueOk s mq added wire) (hd : Deleted s.text s t L L' R R' mq.queue l' k n mq') :
    QueueOk t mq' added (wire ++ (restBytes s.text mq.queue).take n) := by
  obtain ⟨done, hadded, hwire⟩ := h.wire
  have hq : mq'.queue = l' := by rw [hd.queue]
  have hsub : ∀ m ∈ l', ∃ m' ∈ mq.queue, m'.msg = m.msg := by
    intro m hm
    have hmem : m.msg ∈ (mq.queue.drop k).map Msg.msg := by
      rw [← hd.left]
      exact List.mem_map_of_mem hm
    obtain ⟨m', hm', e⟩ := List.mem_map.mp hmem
    exact ⟨m', List.mem_of_mem_drop hm', e⟩
  have htext : ∀ id, t.text id = s.text id := by
    intro id
    have := congrArg (Option.map (fun x => x.2.1)) (hd.heap id)
    rw [Option.map_map, Option.map_map] at this
    exact congrArg (Option.getD · []) this
  obtain ⟨h1, h2, h3⟩ := queue_congr s.text t.text l' (fun m _ => htext m.msg)
  have htexts : l'.map (fun m => s.text m.msg) = (mq.queue.drop k).map (fun m => s.text m.msg) := by
    have := congrArg (List.map s.text) hd.left
    rwa [map_map, map_map] at this
  refine ⟨?_, ?_, by rw [hq]; exact hd.head,
    fun m hm => by rw [htext]; exact hd.unsent m (hq ▸ hm), done ++ (mq.queue.take k).map (fun m => s.text m.msg),
    ?_, ?_⟩
  · rw [hq]
    intro m hm
    obtain ⟨m', hm', e⟩ := hsub m hm
    obtain ⟨b, hb, hr⟩ := h.entry m' hm'
    have := hd.heap m'.msg
    rw [hb, map_some] at this
    obtain ⟨c, hc, e'⟩ := map_eq_some_iff.mp this
    simp only [Prod.mk.injEq] at e'
    rw [e] at hc hr
    exact ⟨c, hc, e'.1 ▸ hr⟩
  · rw [hq, queueOf, h1]
    exact hd.queue
  · rw [hq, h3, htexts, hadded, append_assoc, ← map_append, List.take_append_drop]
  · rw [hq, h2, hwire, append_assoc, hd.bytes, List.flatten_append, append_assoc]

lemma QueueOk.add {r : BufId} {rb : MsgBuf} (h : QueueOk s mq added wire) (hr : s.heap r = some rb)
    (hreal : rb.real = none ∨ rb.real = some r) (hpos : 0 < rb.text.length) (prio : Bool) :
    QueueOk s { mq with
      queue := mq.queue ++ [⟨0, r⟩]
      length := (mq.length + rb.text.length) % 2 ^ 32
      count := (mq.count + 1) % 2 ^ 32 } (added ++ [(prio, rb.text)]) wire := by
  have htext : s.text r = rb.text := by rw [Pool.text, hr]; rfl
  have hrest : restBytes s.text (mq.queue ++ [⟨0, r⟩]) = restBytes s.text mq.queue ++ rb.text := by
    rw [restBytes, map_append, List.flatten_append, restBytes, map_singleton,
      List.flatten_singleton, List.drop_zero, htext]
  have hbegun : begun s.text (mq.queue ++ [⟨0, r⟩]) = begun s.text mq.queue := by
    cases mq.queue with
    | nil => rfl
    | cons m l => rfl
  have hlength : mq.length = (restBytes s.text mq.queue).length % 2 ^ 32 := by
    conv_lhs => rw [h.queue]
    rfl
  have hcount : mq.count = mq.queue.length % 2 ^ 32 := by
    conv_lhs => rw [h.queue]
    rfl
  have hprio : mq.prio = [] := by
    rw [h.queue]
    rfl
  obtain ⟨done, hadded, hwire⟩ := h.wire
  refine ⟨?_, ?_, ?_, ?_, done, ?_, by rw [hbegun, hwire]⟩
  · intro m hm
    rcases mem_append.mp hm with hm | hm
    · exact h.entry m hm
    · obtain rfl := mem_singleton.mp hm
      exact ⟨rb, hr, hreal⟩
  · rw [queueOf, hrest, hlength, hcount, hprio, length_append, length_append, Nat.mod_add_mod, Nat.mod_add_mod]
    rfl
  · have hhead := h.head
    show Begun (mq.queue ++ [⟨0, r⟩])
    cases hq : mq.queue with
    | nil => exact fun m hm => by cases hm
    | cons m l =>
      rw [hq] at hhead
      intro m' hm'
      rcases mem_append.mp hm' with hm' | hm'
      · exact hhead m' hm'
      · rw [mem_singleton.mp hm']
  · intro m hm
    rcases mem_append.mp hm with hm | hm
    · exact h.unsent m hm
    · rw [mem_singleton.mp hm, htext]
      exact hpos
  · rw [map_append, hadded, map_append, append_assoc, map_singleton, map_singleton, htext]

end Queue

end Nefarious.Msgq
