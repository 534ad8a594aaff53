import Nefarious.Output.Sendq
import Mathlib.Data.Fintype.BigOperators
import Mathlib.Algebra.Order.BigOperators.Group.Finset

/-!
# Runs of the send queues

Any number of queues, and creators that make buffers, queue them and release what they make.

Names: `msgq.c`.
-/

set_option linter.unusedSectionVars false

namespace Nefarious.Msgq

open Option (any_eq_true any_some bind_eq_bind bind_eq_some_iff bind_some map_map some.inj)
open Function (update update_of_ne update_self)

open List (count_pos_iff flatten_cons length_append length_map length_replicate map_cons map_nil mem_cons
  mem_map mem_singleton not_mem_nil take_append_drop)

/-! ## The system -/

/-- The buffers and the queues, with the histories. The queues are indexed by a finite type. `MQData`;
`msgq.h` `struct MsgQ` -/
structure Sends (Q : Type) where
  data : Pool
  queues : Q → MsgQ
  held : List BufId
  /-- What was queued, with the priority asked for, oldest first. -/
  added : Q → List (Bool × Str)
  /-- The bytes that were deleted, oldest first. -/
  wire : Q → Str

/-- Nothing was made yet. `MQData`, `msgq_init`. -/
def Sends.init (Q : Type) : Sends Q where
  data := ⟨fun _ => none, [], fun _ => 0, fun _ => 0, fun _ => [], 0, 0, 0, 0⟩
  queues := fun _ => msgqInit
  held := []
  added := fun _ => []
  wire := fun _ => []

/-- What the daemon does with buffers and queues. -/
inductive Event (Q : Type)
  /-- A creator makes a buffer; `pool` is `FEAT_BUFFERPOOL`, `fresh` what the allocator has. `msgq_make`. -/
  | make (body : Str) (pool : ℕ) (fresh : BufId)
  /-- A creator appends to a buffer that is not queued yet. `msgq_append`. -/
  | append (mb : BufId) (body : Str)
  /-- A creator queues its buffer. `send.c` `send_buffer`. -/
  | add (q : Q) (mb : BufId) (prio : Bool) (pool : ℕ) (fresh : BufId)
  /-- A creator releases its buffer. `msgq_clean`. -/
  | clean (mb : BufId)
  /-- `n` of the bytes mapped to `count` elements are written, and deleted. `os_generic.c` `os_sendv_nonb`;
  `send.c` `send_queued`. -/
  | send (q : Q) (count n : ℕ)
  /-- A queue is cleared. `msgq.h` `MsgQClear`. -/
  | clear (q : Q)
  /-- The free lists are emptied. `msgq_clear_freembs`. -/
  | clearFreembs

variable {Q : Type} [DecidableEq Q]

/-- Delete bytes from a queue; the deleted bytes are a beginning of those mapped. `send.c` `send_queued` -/
def Sends.drop (s : Sends Q) (q : Q) (iov : List Str) (n : ℕ) : Option (Sends Q) := do
  let r ← msgqDelete s.data (s.queues q) n
  some { s with
    data := r.1
    queues := update s.queues q r.2
    wire := update s.wire q (s.wire q ++ iov.flatten.take n) }

/-- One event. Creators use only buffers that they hold, and the allocator gives free memory. `msgq.c`;
`send.c` -/
def Sends.step (s : Sends Q) : Event Q → Option (Sends Q)
  | .make body pool fresh =>
    if s.data.heap fresh = none then do
      let r ← msgqMake s.data body pool fresh
      some { s with data := r.1, held := r.2 :: s.held }
    else none
  | .append mb body => do
      let b ← s.data.heap mb
      if mb ∈ s.held ∧ b.real = none then some { s with data := msgqAppend s.data mb body }
      else none
  | .add q mb prio pool fresh => do
      let b ← s.data.heap mb
      if mb ∈ s.held ∧ s.data.heap fresh = none then do
        let r ← msgqAdd s.data (s.queues q) mb prio pool fresh
        some { s with
          data := r.1
          queues := update s.queues q r.2
          added := update s.added q (s.added q ++ [(prio, b.text)]) }
      else none
  | .clean mb =>
    if mb ∈ s.held then do
      let t ← msgqClean 2 s.data mb
      some { s with data := t, held := s.held.erase mb }
    else none
  | .send q count n => do
      let iov ← msgqMapiov s.data (s.queues q) count
      if 0 < count ∧ n ≤ iov.flatten.length then s.drop q iov n else none
  | .clear q => do
      let mq := s.queues q
      let iov ← msgqMapiov s.data mq (mq.queue.length + mq.prio.length)
      s.drop q iov mq.length
  | .clearFreembs => some { s with data := msgqClearFreembs s.data }

def Sends.run (s : Sends Q) : List (Event Q) → Option (Sends Q)
  | [] => some s
  | e :: es => do (← s.step e).run es

/-! ## Runs -/

section Runs

variable {Q : Type} [DecidableEq Q] [Fintype Q] {s t : Sends Q} {L : Finset BufId}

/-- The references to a buffer from creators and queue entries. `struct MsgBuf` (`ref`) -/
def Sends.refs (s : Sends Q) (id : BufId) : ℕ :=
  s.held.count id + ∑ q, ((s.queues q).queue.map Msg.msg).count id

/-- The invariant of a run; `L` are the buffers in use. -/
structure Sends.Good (s : Sends Q) (L : Finset BufId) : Prop where
  pool : s.data.Sound L ∅ s.refs
  short : ∀ id ∈ L, ∀ b, s.data.heap id = some b → 0 < b.text.length ∧ b.text.length ≤ 512
  owner : ∀ id ∈ s.held, ∀ j ∈ L, linksTo s.data id j = false
  unqueued : ∀ id ∈ s.held, ∀ b, s.data.heap id = some b → b.real = none →
    ∀ q, ∀ m ∈ (s.queues q).queue, m.msg ≠ id
  copied : ∀ id ∈ s.held, ∀ b r rb, s.data.heap id = some b → b.real = some r →
    s.data.heap r = some rb → rb.text = b.text
  queues : ∀ q, QueueOk s.data (s.queues q) (s.added q) (s.wire q)
  msgs : s.data.msgsUsed = ∑ q, (s.queues q).queue.length ∧ s.data.msgsAlloc = s.data.msgsUsed + s.data.msgsFree

lemma sum_update (f : Q → MsgQ) (q : Q) (mq : MsgQ) (g : MsgQ → ℕ) :
    ∑ p, g (update f q mq p) + g (f q) = ∑ p, g (f p) + g mq := by
  rw [← Finset.add_sum_erase _ _ (Finset.mem_univ q), ← Finset.add_sum_erase _ _ (Finset.mem_univ q),
    update_self]
  have hrest : ∑ p ∈ Finset.univ.erase q, g (update f q mq p) = ∑ p ∈ Finset.univ.erase q, g (f p) :=
    Finset.sum_congr rfl fun p hp => by rw [update_of_ne (Finset.ne_of_mem_erase hp)]
  omega

variable {id fresh mb : BufId} {q : Q}

lemma Sends.Good.mem_of_refs (h : s.Good L) (hpos : 0 < s.refs id) : id ∈ L := by
  cases hb : s.data.heap id with
  | none =>
    rw [h.pool.gone id hb] at hpos
    cases hpos
  | some b =>
    have := h.pool.ref id b hb
    exact (h.pool.live id).mpr ⟨b, hb, by omega⟩

lemma Sends.Good.held_mem (h : s.Good L) (hid : id ∈ s.held) : id ∈ L := by
  refine h.mem_of_refs ?_
  have := count_pos_iff.mpr hid
  rw [Sends.refs]
  omega

lemma Sends.Good.entry_mem (h : s.Good L) {m : Msg} (hm : m ∈ (s.queues q).queue) : m.msg ∈ L := by
  refine h.mem_of_refs ?_
  have h1 := count_pos_iff.mpr (List.mem_map_of_mem (f := Msg.msg) hm)
  have h2 := Finset.single_le_sum
    (f := fun q => ((s.queues q).queue.map Msg.msg).count m.msg) (fun _ _ => Nat.zero_le _)
    (Finset.mem_univ q)
  rw [Sends.refs]
  omega

lemma Sends.Good.real_mem (h : s.Good L) {r : BufId} {b : MsgBuf} (hid : id ∈ L)
    (hb : s.data.heap id = some b) (hr : b.real = some r) : r ∈ L := by
  by_cases e : r = id
  · exact e ▸ hid
  · obtain ⟨br, hbr, hpos, -⟩ := h.pool.real id hid b r hb hr e
    exact (h.pool.live r).mpr ⟨br, hbr, hpos⟩

lemma Sends.Good.make {body : Str} {pool : ℕ} (h : s.Good L)
    (hs : s.step (.make body pool fresh) = some t) : ∃ L', t.Good L' := by
  rw [Sends.step] at hs
  split at hs
  case isFalse => cases hs
  case isTrue hfresh =>
    obtain ⟨⟨d, mb⟩, hd, hs⟩ := bind_eq_some_iff.mp hs
    cases hs
    have hm := h.pool.make hfresh hd
    have hlink : ∀ id ∈ L, ∀ j ∈ insert mb L, linksTo s.data id j = false → linksTo d id j = false := by
      intro id _ j hj hold
      by_cases e : j = mb
      · subst e
        rw [linksTo, hm.self]
        simp
      · rw [linksTo_congr (hm.other j (Finset.mem_of_mem_insert_of_ne hj e))]
        exact hold
    have hself : ∀ id ∈ s.held, id ≠ mb := fun id hid e => hm.new (e ▸ h.held_mem hid)
    refine ⟨insert mb L, ⟨?_, ?_, ?_, ?_, ?_, ?_, ?_⟩⟩
    · have hrefs : Sends.refs { s with data := d, held := mb :: s.held } = more s.refs mb := by
        funext id
        show (mb :: s.held).count id + ∑ q, ((s.queues q).queue.map Msg.msg).count id = _
        rw [more]
        by_cases e : id = mb
        · subst e
          rw [update_self, List.count_cons_self, Sends.refs]
          omega
        · rw [update_of_ne e, List.count_cons_of_ne (Ne.symm e), Sends.refs]
      rw [hrefs]
      exact hm.sound
    · intro id hid b hb
      by_cases e : id = mb
      · subst e
        have hb := hm.self.symm.trans hb
        cases hb
        exact length_lineOf body
      · have hidL := Finset.mem_of_mem_insert_of_ne hid e
        exact h.short id hidL b ((hm.other id hidL).symm.trans hb)
    · intro id hid j hj
      rcases mem_cons.mp hid with rfl | hid
      · by_cases e : j = id
        · subst e
          rw [linksTo]
          simp
        · have hjL := Finset.mem_of_mem_insert_of_ne hj e
          have hlinkj : linksTo d id j = linksTo s.data id j := linksTo_congr (hm.other j hjL)
          by_contra hl
          rw [show linksTo d id j = _ from hlinkj, Bool.not_eq_false, linksTo, Bool.and_eq_true,
            any_eq_true] at hl
          obtain ⟨-, b, hb, hr⟩ := hl
          obtain ⟨br, hbr, hpos, -⟩ := h.pool.real j hjL b id hb (by simpa using hr) (Ne.symm e)
          exact hm.new ((h.pool.live id).mpr ⟨br, hbr, hpos⟩)
      · by_cases e : j = mb
        · subst e
          show linksTo d id j = false
          rw [linksTo, hm.self]
          simp
        · exact hlink id (h.held_mem hid) j hj (h.owner id hid j (Finset.mem_of_mem_insert_of_ne hj e))
    · intro id hid b hb hn q m hmq
      rcases mem_cons.mp hid with rfl | hid
      · intro e
        exact hm.new (e ▸ h.entry_mem hmq)
      · exact h.unqueued id hid b ((hm.other id (h.held_mem hid)).symm.trans hb) hn q m hmq
    · intro id hid b r rb hb hr hrb
      rcases mem_cons.mp hid with rfl | hid
      · have hb := hm.self.symm.trans hb
        cases hb
        cases hr
      · have hb' := (hm.other id (h.held_mem hid)).symm.trans hb
        have hrL := h.real_mem (h.held_mem hid) hb' hr
        exact h.copied id hid b r rb hb' hr ((hm.other r hrL).symm.trans hrb)
    · intro q
      exact (h.queues q).congr fun m hmq => by rw [hm.other m.msg (h.entry_mem hmq)]
    · obtain ⟨h1, h2, h3⟩ := hm.msgs
      rw [show d.msgsUsed = _ from h2, show d.msgsAlloc = _ from h1, show d.msgsFree = _ from h3]
      exact h.msgs

lemma Sends.Good.shrink {L' : Finset BufId} (h : s.Good L)
    (hheap : ∀ id, (t.data.heap id).map (fun b => (b.real, b.text, b.power)) =
      (s.data.heap id).map (fun b => (b.real, b.text, b.power)))
    (hL : L' ⊆ L) (hheld : ∀ id ∈ t.held, id ∈ s.held)
    (hq : ∀ q, ∀ m ∈ (t.queues q).queue, ∃ m' ∈ (s.queues q).queue, m'.msg = m.msg)
    (hpool : t.data.Sound L' ∅ t.refs)
    (hqueues : ∀ q, QueueOk t.data (t.queues q) (t.added q) (t.wire q))
    (hmsgs : t.data.msgsUsed = ∑ q, (t.queues q).queue.length ∧
      t.data.msgsAlloc = t.data.msgsUsed + t.data.msgsFree) : t.Good L' := by
  have hget : ∀ id c, t.data.heap id = some c →
      ∃ b, s.data.heap id = some b ∧ b.real = c.real ∧ b.text = c.text := by
    intro id c hc
    have := hheap id
    rw [hc, Option.map_some] at this
    obtain ⟨b, hb, e⟩ := Option.map_eq_some_iff.mp this.symm
    simp only [Prod.mk.injEq] at e
    exact ⟨b, hb, e.1, e.2.1⟩
  refine ⟨hpool, ?_, ?_, ?_, ?_, hqueues, hmsgs⟩
  · intro id hid c hc
    obtain ⟨b, hb, -, e⟩ := hget id c hc
    rw [← e]
    exact h.short id (hL hid) b hb
  · intro id hid j hj
    have hold := h.owner id (hheld id hid) j (hL hj)
    by_contra hl
    rw [Bool.not_eq_false, linksTo, Bool.and_eq_true, any_eq_true] at hl
    obtain ⟨hne, c, hc, hr⟩ := hl
    obtain ⟨b, hb, e, -⟩ := hget j c hc
    rw [linksTo, hne, Bool.true_and, hb, any_some, e] at hold
    rw [hold] at hr
    cases hr
  · intro id hid c hc hn q m hm
    obtain ⟨b, hb, e, -⟩ := hget id c hc
    obtain ⟨m', hm', e'⟩ := hq q m hm
    rw [← e']
    exact h.unqueued id (hheld id hid) b hb (e.trans hn) q m' hm'
  · intro id hid c r rc hc hr hrc
    obtain ⟨b, hb, e1, e2⟩ := hget id c hc
    obtain ⟨rb, hrb, -, e3⟩ := hget r rc hrc
    rw [← e2, ← e3]
    exact h.copied id (hheld id hid) b r rb hb (e1.trans hr) hrb

lemma Sends.Good.clean (h : s.Good L) (hs : s.step (.clean mb) = some t) : ∃ L', t.Good L' := by
  rw [Sends.step] at hs
  split at hs
  case isFalse => cases hs
  case isTrue hheld =>
    obtain ⟨d, hd, hs⟩ := bind_eq_some_iff.mp hs
    cases hs
    obtain ⟨b, hb, hpos⟩ := (h.pool.live mb).mp (h.held_mem hheld)
    have hcount := count_pos_iff.mpr hheld
    obtain ⟨d', L', hd', hsound, hkeep, hsub⟩ := h.pool.clean hb (by rw [Sends.refs]; omega)
    obtain rfl := some.inj (hd.symm.trans hd')
    have hrefs : Sends.refs { s with data := d, held := s.held.erase mb } = less s.refs mb := by
      funext id
      show (s.held.erase mb).count id + ∑ q, ((s.queues q).queue.map Msg.msg).count id = _
      rw [less]
      by_cases e : id = mb
      · subst e
        rw [update_self, List.count_erase_self, Sends.refs]
        omega
      · rw [update_of_ne e, List.count_erase_of_ne e, Sends.refs]
    refine ⟨L', h.shrink hkeep.heap hsub (fun id hid => List.mem_of_mem_erase hid)
      (fun q m hm => ⟨m, hm, rfl⟩) (by rw [hrefs]; exact hsound) ?_ ?_⟩
    · intro q
      refine (h.queues q).congr fun m hm => ?_
      have := congrArg (Option.map (fun x => (x.1, x.2.1))) (hkeep.heap m.msg)
      rwa [map_map, map_map] at this
    · obtain ⟨h1, h2, h3⟩ := hkeep.msgs
      rw [show d.msgsUsed = _ from h2, show d.msgsAlloc = _ from h1, show d.msgsFree = _ from h3]
      exact h.msgs

lemma Sends.Good.drop {count n : ℕ} {iov : List Str} (h : s.Good L)
    (hiov : msgqMapiov s.data (s.queues q) count = some iov) (hn : n ≤ iov.flatten.length)
    (hs : s.drop q iov n = some t) : ∃ L', t.Good L' := by
  obtain ⟨⟨d, mq'⟩, hd, hs⟩ := bind_eq_some_iff.mp hs
  cases hs
  have hq := h.queues q
  have hbytes : iov.flatten.take n = (restBytes s.data.text (s.queues q).queue).take n ∧
      n ≤ (restBytes s.data.text (s.queues q).queue).length := by
    rw [hq.queue, mapiov_queueOf hq.holds hq.head] at hiov
    obtain rfl := some.inj hiov
    split at hn
    case isTrue hz =>
      obtain rfl := Nat.le_zero.mp hn
      exact ⟨by simp, Nat.zero_le _⟩
    case isFalse hz =>
      have hrest : restBytes s.data.text (s.queues q).queue =
          (((s.queues q).queue.map (fun m => (s.data.text m.msg).drop m.sent)).take count).flatten ++
          (((s.queues q).queue.map (fun m => (s.data.text m.msg).drop m.sent)).drop count).flatten := by
        rw [← List.flatten_append, take_append_drop, restBytes]
      rw [if_neg hz, hrest]
      refine ⟨(List.take_append_of_le_length hn).symm, ?_⟩
      rw [length_append]
      omega
  have hcount : ∀ id, ((s.queues q).queue.map Msg.msg).count id ≤ s.refs id := by
    intro id
    have h2 := Finset.single_le_sum
      (f := fun q => ((s.queues q).queue.map Msg.msg).count id) (fun _ _ => Nat.zero_le _)
      (Finset.mem_univ q)
    rw [Sends.refs]
    omega
  have hlen : (s.queues q).queue.length ≤ s.data.msgsUsed := by
    rw [h.msgs.1]
    exact Finset.single_le_sum (f := fun q => (s.queues q).queue.length)
      (fun _ _ => Nat.zero_le _) (Finset.mem_univ q)
  obtain ⟨d', L', R', l', k, mq'', hloop, hdel⟩ := deleteLoop_spec (s.queues q).queue
    (show (s.queues q).queue.length + 2 ≤ (s.queues q).queue.length + 0 + 2 by omega) h.pool
    hq.holds hq.head hq.unsent hcount hlen hbytes.2
  have hprio : (s.queues q).prio = [] := by rw [hq.queue]; rfl
  have hd' : msgqDelete s.data (s.queues q) n = some (d', mq'') := by
    rw [msgqDelete, hprio, List.length_nil]
    conv_lhs => rw [hq.queue]
    exact hloop
  obtain ⟨rfl, rfl⟩ := Prod.mk.inj (some.inj (hd.symm.trans hd'))
  obtain ⟨t, ht⟩ : ∃ t : Sends Q, t = { s with
      data := d
      queues := update s.queues q mq'
      wire := update s.wire q (s.wire q ++ iov.flatten.take n) } := ⟨_, rfl⟩
  rw [← ht]
  have hqueue : mq'.queue = l' := by rw [hdel.queue]
  have hself : t.queues q = mq' := by rw [ht]; exact update_self ..
  have hother : ∀ p, p ≠ q → t.queues p = s.queues p := fun p hp => by
    rw [ht]
    exact update_of_ne hp ..
  have hrefs : t.refs = R' := by
    funext id
    have hsum := sum_update s.queues q mq' (fun mq => (mq.queue.map Msg.msg).count id)
    have hsplit : ((s.queues q).queue.map Msg.msg).count id =
        (((s.queues q).queue.take k).map Msg.msg).count id + (l'.map Msg.msg).count id := by
      rw [hdel.left, ← List.count_append, ← List.map_append, take_append_drop]
    have := hdel.refs id
    rw [Sends.refs] at this ⊢
    rw [ht]
    simp only [hqueue] at hsum ⊢
    omega
  refine ⟨L', h.shrink (by rw [ht]; exact hdel.heap) hdel.use (fun id hid => by rw [ht] at hid; exact hid)
    ?_ (by rw [hrefs, ht]; exact hdel.sound) ?_ ?_⟩
  · intro p m hm
    by_cases hp : p = q
    · subst hp
      rw [hself, hqueue] at hm
      have hmem : m.msg ∈ ((s.queues p).queue.drop k).map Msg.msg := by
        rw [← hdel.left]
        exact List.mem_map_of_mem hm
      obtain ⟨m', hm', e⟩ := mem_map.mp hmem
      exact ⟨m', List.mem_of_mem_drop hm', e⟩
    · exact ⟨m, hother p hp ▸ hm, rfl⟩
  · intro p
    by_cases hp : p = q
    · subst hp
      rw [hself, ht]
      simp only [update_self]
      rw [hbytes.1]
      exact hq.deleted hdel
    · rw [hother p hp, ht]
      simp only [update_of_ne hp]
      refine (h.queues p).congr fun m hm => ?_
      have := congrArg (Option.map (fun x => (x.1, x.2.1))) (hdel.heap m.msg)
      rwa [map_map, map_map] at this
  · obtain ⟨h1, h2, h3⟩ := hdel.msgs
    have hsum := sum_update s.queues q mq' (fun mq => mq.queue.length)
    have hlen' : (s.queues q).queue.length = k + l'.length := by
      have := congrArg List.length hdel.left
      rw [length_map, length_map, List.length_drop] at this
      have := hdel.gone
      omega
    obtain ⟨g1, g2⟩ := h.msgs
    rw [ht]
    simp only [hqueue] at hsum ⊢
    omega

lemma Sends.Good.send {count n : ℕ} (h : s.Good L)
    (hs : s.step (.send q count n) = some t) : ∃ L', t.Good L' := by
  obtain ⟨iov, hiov, hs⟩ := bind_eq_some_iff.mp hs
  split at hs
  case isTrue hn => exact h.drop hiov hn.2 hs
  case isFalse => cases hs

lemma Sends.Good.clear (h : s.Good L) (hs : s.step (.clear q) = some t) : ∃ L', t.Good L' := by
  obtain ⟨iov, hiov, hs⟩ := bind_eq_some_iff.mp hs
  refine h.drop hiov ?_ hs
  have hq := h.queues q
  rw [hq.queue, mapiov_queueOf hq.holds hq.head] at hiov
  obtain rfl := some.inj hiov
  rw [show (s.queues q).length = (restBytes s.data.text (s.queues q).queue).length % 2 ^ 32 by
    conv_lhs => rw [hq.queue]
    rfl]
  split
  case isTrue hz => rw [hz]; exact Nat.zero_le _
  case isFalse =>
    rw [show (queueOf s.data.text (s.queues q).queue).prio = [] from rfl,
      show (queueOf s.data.text (s.queues q).queue).queue = (s.queues q).queue from rfl,
      List.take_of_length_le (by rw [length_map]; omega)]
    exact Nat.mod_le _ _

lemma Sends.Good.clearFreembs (h : s.Good L) (hs : s.step .clearFreembs = some t) : ∃ L', t.Good L' := by
  cases hs
  obtain ⟨hsound, hsame, -⟩ := h.pool.clear
  obtain ⟨m1, m2, m3⟩ := clear_msgs s.data
  refine ⟨L, ⟨hsound, ?_, ?_, ?_, ?_, ?_, ?_⟩⟩
  · intro id hid b hb
    exact h.short id hid b ((hsame id hid).symm.trans hb)
  · intro id hid j hj
    exact (linksTo_congr (hsame j hj)).trans (h.owner id hid j hj)
  · intro id hid b hb
    exact h.unqueued id hid b ((hsame id (h.held_mem hid)).symm.trans hb)
  · intro id hid b r rb hb hr hrb
    have hb' := (hsame id (h.held_mem hid)).symm.trans hb
    have hrL := h.real_mem (h.held_mem hid) hb' hr
    exact h.copied id hid b r rb hb' hr ((hsame r hrL).symm.trans hrb)
  · intro q
    refine (h.queues q).congr fun m hm => ?_
    show ((msgqClearFreembs s.data).heap m.msg).map _ = _
    rw [hsame m.msg (h.entry_mem hm)]
  · rw [m1, m2, m3]
    exact h.msgs

lemma Sends.Good.append {body : Str} (h : s.Good L)
    (hs : s.step (.append mb body) = some t) : ∃ L', t.Good L' := by
  obtain ⟨b, hb, hs⟩ := bind_eq_some_iff.mp hs
  split at hs
  case isFalse => cases hs
  case isTrue hheld =>
    cases hs
    obtain ⟨hheld, hnone⟩ := hheld
    obtain ⟨d, hd⟩ : ∃ d, d = msgqAppend s.data mb body := ⟨_, rfl⟩
    rw [← hd]
    have hother : ∀ id, id ≠ mb → d.heap id = s.data.heap id := fun id hid => by
      rw [hd]
      exact update_of_ne hid ..
    have hself : d.heap mb = some { b with text := lineOf (b.text.take (b.text.length - 2) ++ body) } := by
      rw [hd]
      exact modify_heap.mpr (Or.inl ⟨rfl, b, hb, rfl⟩)
    have hlink : ∀ id, linksTo d id = linksTo s.data id := by
      rw [hd]
      exact (modify_shape (f := fun c => { c with text := lineOf (c.text.take (c.text.length - 2) ++ body) })
        (fun _ => rfl) (fun _ => rfl)).2
    have hnotreal : ∀ id ∈ s.held, ∀ c r, s.data.heap id = some c → c.real = some r → r ≠ mb := by
      rintro id hid c r hc hr rfl
      by_cases e : id = r
      · subst e
        rw [hb] at hc
        cases hc
        rw [hnone] at hr
        cases hr
      · have := h.owner r hheld id (h.held_mem hid)
        rw [linksTo, hc, any_some, hr] at this
        simp [e] at this
    have hsound : d.Sound L ∅ s.refs := by
      rw [hd]
      exact h.pool.modify_text _ (fun _ => rfl) (fun _ => rfl) (fun _ => rfl)
    refine ⟨L, ⟨hsound, ?_, ?_, ?_, ?_, ?_, ?_⟩⟩
    · intro id hid c hc
      by_cases e : id = mb
      · subst e
        obtain rfl := some.inj (hself.symm.trans hc)
        exact length_lineOf _
      · exact h.short id hid c ((hother id e).symm.trans hc)
    · intro id hid j hj
      show linksTo d id j = false
      rw [hlink]
      exact h.owner id hid j hj
    · intro id hid c hc hn q m hm
      by_cases e : id = mb
      · subst e
        exact h.unqueued id hheld b hb hnone q m hm
      · exact h.unqueued id hid c ((hother id e).symm.trans hc) hn q m hm
    · intro id hid c r rc hc hr hrc
      by_cases e : id = mb
      · subst e
        obtain rfl := some.inj (hself.symm.trans hc)
        exact absurd (hnone.symm.trans hr) (by simp)
      · have hc' := (hother id e).symm.trans hc
        have hrmb := hnotreal id hid c r hc' hr
        exact h.copied id hid c r rc hc' hr ((hother r hrmb).symm.trans hrc)
    · intro q
      refine (h.queues q).congr fun m hm => ?_
      show (d.heap m.msg).map _ = _
      rw [hother m.msg (h.unqueued mb hheld b hb hnone q m hm)]
    · show d.msgsUsed = _ ∧ d.msgsAlloc = d.msgsUsed + d.msgsFree
      rw [hd]
      exact h.msgs

lemma Sends.Good.attach {b : MsgBuf} (h : s.Good L) (pool : ℕ) (hheld : mb ∈ s.held)
    (hb : s.data.heap mb = some b) (hfresh : s.data.heap fresh = none) : ∃ L' r,
    Attached (takeMsg s.data) (attachReal (takeMsg s.data) mb b pool fresh) L L' ∅ s.refs mb r b := by
  have hheap := takeMsg_heap s.data
  have hsound : (takeMsg s.data).Sound L ∅ s.refs := by
    refine h.pool.congr hheap ?_ ?_ ?_ ?_ <;> (rw [takeMsg]; split <;> rfl)
  have hL := h.held_mem hheld
  cases hr : b.real with
  | none =>
    have hlink : ∀ j ∈ L, linksTo (takeMsg s.data) mb j = false := fun j hj =>
      (linksTo_congr (congrFun hheap j)).trans (h.owner mb hheld j hj)
    exact hsound.attach ((congrFun hheap mb).trans hb) hL hr hlink (h.short mb hL b hb).2
      ((congrFun hheap fresh).trans hfresh)
  | some r =>
    have hcopy : ∃ rb, s.data.heap r = some rb ∧ (rb.real = none ∨ rb.real = some r) := by
      by_cases e : r = mb
      · subst e
        exact ⟨b, hb, Or.inr hr⟩
      · obtain ⟨rb, hrb, -, hn⟩ := h.pool.real mb hL b r hb hr e
        exact ⟨rb, hrb, Or.inl hn⟩
    obtain ⟨rb, hrb, hrr⟩ := hcopy
    have hrL : r ∈ L := h.real_mem hL hb hr
    rw [attachReal, hr]
    refine ⟨L, r, hsound, (Finset.insert_eq_of_mem hrL).symm, ?_, ⟨rb, ?_, ?_, hrr⟩,
      Or.inl hr, fun _ _ _ => rfl, rfl, rfl, rfl⟩
    · have hself : ({ b with real := some r } : MsgBuf) = b := by rw [← hr]
      exact ((congrFun hheap mb).trans hb).trans (congrArg some hself.symm)
    · exact (congrFun hheap r).trans hrb
    · exact h.copied mb hheld b r rb hb hr hrb

lemma Sends.Good.add {prio : Bool} {pool : ℕ} (h : s.Good L)
    (hs : s.step (.add q mb prio pool fresh) = some t) : ∃ L', t.Good L' := by
  obtain ⟨b, hb, hs⟩ := bind_eq_some_iff.mp hs
  split at hs
  case isFalse => cases hs
  case isTrue hheld =>
    obtain ⟨hheld, hfresh⟩ := hheld
    obtain ⟨L', r, ha⟩ := h.attach pool hheld hb hfresh
    obtain ⟨d, hd⟩ : ∃ d, d = attachReal (takeMsg s.data) mb b pool fresh := ⟨_, rfl⟩
    obtain ⟨rb, hrb, htext, hreal⟩ := ha.copy
    obtain ⟨⟨u, mq'⟩, hadd, hs⟩ := bind_eq_some_iff.mp hs
    cases hs
    rw [msgqAdd] at hadd
    simp only [hb, ← hd, bind_eq_bind, bind_some] at hadd
    rw [← hd] at ha hrb
    rw [ha.self] at hadd
    simp only [bind_some, hrb] at hadd
    obtain ⟨hu, hmq⟩ := Prod.mk.inj (some.inj hadd)
    have hmbL := h.held_mem hheld
    have hrL : r ∈ L' := ha.use ▸ Finset.mem_insert_self ..
    have hcases : ∀ j ∈ L', j = r ∨ j ∈ L := fun j hj => Finset.mem_insert.mp (ha.use ▸ hj)
    have hold : ∀ j ∈ L, j ≠ mb → d.heap j = s.data.heap j := fun j hj hne =>
      (ha.other j hj hne).trans (congrFun (takeMsg_heap s.data) j)
    have hkeep : d.Keeps u := by
      rw [← hu]
      exact Pool.keeps_modify (fun _ => rfl) (fun _ => rfl) (fun _ => rfl)
    have hlink : ∀ id, linksTo u id = linksTo d id := by
      rw [← hu]
      exact (modify_shape (f := fun b => { b with ref := b.ref + 1 }) (fun _ => rfl) (fun _ => rfl)).2
    -- a creator's buffer is the real buffer of none but itself
    have hown : ∀ id ∈ s.held, id ≠ mb → r ≠ id := by
      rintro id hid hne rfl
      rcases ha.new with e | ⟨-, e | e⟩
      · have := h.owner r hid mb hmbL
        rw [linksTo, hb, any_some, e] at this
        simp [hne.symm] at this
      · exact hne e
      · exact e (h.held_mem hid)
    have hentry : ∀ p, ∀ m ∈ (s.queues p).queue, (u.heap m.msg).map (fun b => (b.real, b.text)) =
          (s.data.heap m.msg).map (fun b => (b.real, b.text)) := by
      intro p m hm
      have hk := congrArg (Option.map (fun x => (x.1, x.2.1))) (hkeep.heap m.msg)
      rw [map_map, map_map] at hk
      refine Eq.trans hk ?_
      by_cases e : m.msg = mb
      · rw [e, ha.self, hb]
        rcases ha.new with hbr | ⟨hbr, -⟩
        · simp [hbr]
        · exact absurd e (h.unqueued mb hheld b hb hbr p m hm)
      · rw [hold m.msg (h.entry_mem hm) e]
        rfl
    obtain ⟨t, ht⟩ : ∃ t : Sends Q, t = { s with
        data := u
        queues := update s.queues q mq'
        added := update s.added q (s.added q ++ [(prio, b.text)]) } := ⟨_, rfl⟩
    rw [← ht]
    have hqueue : mq'.queue = (s.queues q).queue ++ [⟨0, r⟩] := by rw [← hmq]
    have hself : t.queues q = mq' := by rw [ht]; exact update_self ..
    have hotherq : ∀ p, p ≠ q → t.queues p = s.queues p := fun p hp => by
      rw [ht]
      exact update_of_ne hp ..
    have hheld_eq : t.held = s.held := by rw [ht]
    have hdata : t.data = u := by rw [ht]
    have hrefs : t.refs = more s.refs r := by
      funext id
      have hsum := sum_update s.queues q mq' (fun mq => (mq.queue.map Msg.msg).count id)
      simp only [hqueue, List.map_append, List.count_append, List.map_singleton] at hsum
      have hexp : t.refs id = s.held.count id +
          ∑ p, ((update s.queues q mq' p).queue.map Msg.msg).count id := by rw [ht]; rfl
      have hexp' : s.refs id = s.held.count id + ∑ p, ((s.queues p).queue.map Msg.msg).count id := rfl
      rw [more]
      by_cases e : id = r
      · subst e
        rw [update_self]
        rw [List.count_singleton_self] at hsum
        omega
      · rw [update_of_ne e]
        rw [List.count_singleton, if_neg (by simpa using Ne.symm e)] at hsum
        omega
    refine ⟨L', ⟨?_, ?_, ?_, ?_, ?_, ?_, ?_⟩⟩
    · rw [hrefs, hdata, ← hu]
      exact ha.sound.retain hrL
    · intro id hid c hc
      rw [hdata] at hc
      obtain ⟨c', hc', -, e, -⟩ := hkeep.get hc
      rw [← e]
      by_cases e1 : id = mb
      · subst e1
        obtain rfl := some.inj (ha.self.symm.trans hc')
        exact h.short id hmbL b hb
      · rcases hcases id hid with rfl | hidL
        · obtain rfl := some.inj (hrb.symm.trans hc')
          rw [htext]
          exact h.short mb hmbL b hb
        · exact h.short id hidL c' ((hold id hidL e1).symm.trans hc')
    · intro id hid j hj
      rw [hheld_eq] at hid
      rw [hdata, hlink]
      by_cases e1 : j = mb
      · subst e1
        rw [linksTo, ha.self, any_some]
        by_cases e2 : id = j
        · simp [e2]
        · simp [hown id hid e2]
      · rcases hcases j hj with rfl | hjL
        · rw [linksTo, hrb, any_some]
          rcases hreal with e | e
          · simp [e]
          · by_cases e2 : j = id
            · simp [e2]
            · simp [e, e2]
        · rw [linksTo_congr (hold j hjL e1)]
          exact h.owner id hid j hjL
    · intro id hid c hc hn p m hm
      rw [hheld_eq] at hid
      rw [hdata] at hc
      obtain ⟨c', hc', e, -, -⟩ := hkeep.get hc
      have hne : id ≠ mb := by
        rintro rfl
        obtain rfl := some.inj (ha.self.symm.trans hc')
        rw [hn] at e
        cases e
      have hmold : m ∈ (s.queues p).queue → m.msg ≠ id := fun hm =>
        h.unqueued id hid c' ((hold id (h.held_mem hid) hne).symm.trans hc') (e.trans hn) p m hm
      by_cases hp : p = q
      · subst hp
        rw [hself, hqueue] at hm
        rcases List.mem_append.mp hm with hm | hm
        · exact hmold hm
        · rw [mem_singleton.mp hm]
          exact hown id hid hne
      · rw [hotherq p hp] at hm
        exact hmold hm
    · intro id hid c r' rc hc hr' hrc
      rw [hheld_eq] at hid
      rw [hdata] at hc hrc
      obtain ⟨c', hc', e1, e2, -⟩ := hkeep.get hc
      obtain ⟨rc', hrc', -, e3, -⟩ := hkeep.get hrc
      rw [← e2, ← e3]
      rw [hr'] at e1
      by_cases hne : id = mb
      · subst hne
        obtain rfl := some.inj (ha.self.symm.trans hc')
        obtain rfl := some.inj e1
        obtain rfl := some.inj (hrb.symm.trans hrc')
        exact htext
      · have hidL := h.held_mem hid
        have hc'' := (hold id hidL hne).symm.trans hc'
        have hr'L := h.real_mem hidL hc'' e1
        have hr'mb : r' ≠ mb := by
          rintro rfl
          have := h.owner r' hheld id hidL
          rw [linksTo, hc'', any_some, e1] at this
          simp [hne] at this
        exact h.copied id hid c' r' rc' hc'' e1 ((hold r' hr'L hr'mb).symm.trans hrc')
    · intro p
      rw [hdata]
      have hp' := (h.queues p).congr (t := u) (hentry p)
      by_cases hp : p = q
      · subst hp
        obtain ⟨rb', hrb', e1, e2⟩ : ∃ rb', u.heap r = some rb' ∧ rb'.real = rb.real ∧
            rb'.text = rb.text := ⟨{ rb with ref := rb.ref + 1 },
              by rw [← hu]; exact modify_heap.mpr (Or.inl ⟨rfl, rb, hrb, rfl⟩), rfl, rfl⟩
        have := hp'.add hrb' (e1 ▸ hreal) (by rw [e2, htext]; exact (h.short mb hmbL b hb).1) prio
        rw [hself, ht, ← hmq]
        simp only [update_self]
        rw [e2, htext] at this
        rw [htext]
        exact this
      · rw [hotherq p hp, ht]
        simp only [update_of_ne hp]
        exact hp'
    · obtain ⟨g1, g2⟩ := h.msgs
      obtain ⟨k1, k2⟩ := takeMsg_msgs s.data
      obtain ⟨m1, m2, m3⟩ := ha.msgs
      have hsum := sum_update s.queues q mq' (fun mq => mq.queue.length)
      simp only [hqueue, length_append, List.length_singleton] at hsum
      have hk2 := k2 g2
      have hum : u.msgsUsed = d.msgsUsed ∧ u.msgsAlloc = d.msgsAlloc ∧ u.msgsFree = d.msgsFree := by
        rw [← hu]
        exact ⟨rfl, rfl, rfl⟩
      rw [ht]
      simp only
      omega

lemma Sends.Good.init : (Sends.init Q).Good ∅ where
  pool := by
    refine ⟨?_, ?_, ?_, ?_, ?_, ?_, ?_, ?_, ?_, ?_, ?_⟩ <;> simp [Sends.init, Sends.refs, msgqInit]
  short := fun id hid => absurd hid (Finset.notMem_empty id)
  owner := fun id hid => absurd hid not_mem_nil
  unqueued := fun id hid => absurd hid not_mem_nil
  copied := fun id hid => absurd hid not_mem_nil
  queues := fun q => ⟨fun m hm => absurd hm not_mem_nil, rfl, trivial,
    fun m hm => absurd hm not_mem_nil, [], rfl, rfl⟩
  msgs := ⟨by simp [Sends.init, msgqInit], rfl⟩

lemma Sends.Good.step (h : s.Good L) : (e : Event Q) → s.step e = some t → ∃ L', t.Good L'
  | .make .., hs => h.make hs
  | .append .., hs => h.append hs
  | .add .., hs => h.add hs
  | .clean .., hs => h.clean hs
  | .send .., hs => h.send hs
  | .clear .., hs => h.clear hs
  | .clearFreembs, hs => h.clearFreembs hs

lemma Sends.Good.run : (es : List (Event Q)) → ∀ {s : Sends Q} {L : Finset BufId}, s.Good L →
    s.run es = some t → ∃ L', t.Good L'
  | [], s, L, h, hs => by
    cases hs
    exact ⟨L, h⟩
  | e :: es, s, L, h, hs => by
    obtain ⟨u, hu, hs⟩ := bind_eq_some_iff.mp hs
    obtain ⟨L', h'⟩ := h.step e hu
    exact h'.run es hs

end Runs

/-! ## Who owns the buffers -/

section Owned

variable {Q : Type} [DecidableEq Q] {s : Sends Q}

/-- A creator holds the buffer, or a queue has an entry for it, or a creator holds a buffer that has it for its
real buffer. `struct MsgBuf` (`ref`) -/
inductive Sends.Referenced (s : Sends Q) (id : BufId) : Prop
  | creator (h : id ∈ s.held)
  | entry (q : Q) (m : Msg) (h : m ∈ (s.queues q).queue) (he : m.msg = id)
  | copy (o : BufId) (b : MsgBuf) (h : o ∈ s.held) (hb : s.data.heap o = some b)
      (hr : b.real = some id)

variable [Fintype Q] {L : Finset BufId}

lemma Sends.Good.referenced (h : s.Good L) (id : BufId) : id ∈ L ↔ s.Referenced id := by
  constructor
  · intro hid
    obtain ⟨b, hb, hpos⟩ := (h.pool.live id).mp hid
    have href := h.pool.ref id b hb
    by_cases hout : 0 < s.refs id
    · rw [Sends.refs] at hout
      by_cases hheld : 0 < s.held.count id
      · exact .creator (count_pos_iff.mp hheld)
      · obtain ⟨q, -, hq⟩ := Finset.exists_ne_zero_of_sum_ne_zero
          (show ∑ q, ((s.queues q).queue.map Msg.msg).count id ≠ 0 by omega)
        obtain ⟨m, hm, e⟩ := mem_map.mp (count_pos_iff.mp (Nat.pos_of_ne_zero hq))
        exact .entry q m hm e
    · obtain ⟨o, ho⟩ := Finset.card_pos.mp (show 0 < (L.filter (linksTo s.data id ·)).card by omega)
      obtain ⟨hoL, hlink⟩ := Finset.mem_filter.mp ho
      rw [linksTo, Bool.and_eq_true, decide_eq_true_eq, any_eq_true] at hlink
      obtain ⟨hne, c, hc, hreal⟩ := hlink
      rw [decide_eq_true_eq] at hreal
      obtain ⟨c', hc', hposc⟩ := (h.pool.live o).mp hoL
      obtain rfl := some.inj (hc.symm.trans hc')
      -- nothing has the buffer `o` for its real buffer, for `o` has another one
      have hnone : (L.filter (linksTo s.data o ·)).card = 0 := by
        refine Finset.card_eq_zero.mpr (Finset.filter_eq_empty_iff.mpr fun j hj hl => ?_)
        rw [linksTo, Bool.and_eq_true, decide_eq_true_eq, any_eq_true] at hl
        obtain ⟨hjo, d, hd, hdr⟩ := hl
        obtain ⟨br, hbr, -, hn⟩ := h.pool.real j hj d o hd (of_decide_eq_true hdr) (Ne.symm hjo)
        obtain rfl := some.inj (hc.symm.trans hbr)
        rw [hn] at hreal
        cases hreal
      have hrefo := h.pool.ref o c hc
      rw [Sends.refs] at hrefo
      by_cases hheld : 0 < s.held.count o
      · exact .copy o c (count_pos_iff.mp hheld) hc hreal
      · obtain ⟨q, -, hq⟩ := Finset.exists_ne_zero_of_sum_ne_zero
          (show ∑ q, ((s.queues q).queue.map Msg.msg).count o ≠ 0 by omega)
        obtain ⟨m, hm, e⟩ := mem_map.mp (count_pos_iff.mp (Nat.pos_of_ne_zero hq))
        obtain ⟨b', hb', hr'⟩ := (h.queues q).entry m hm
        rw [e] at hb' hr'
        obtain rfl := some.inj (hc.symm.trans hb')
        rw [hreal] at hr'
        rcases hr' with hr' | hr'
        · cases hr'
        · exact absurd (some.inj hr').symm hne
  · rintro (hheld | ⟨q, m, hm, rfl⟩ | ⟨o, b, ho, hb, hr⟩)
    · exact h.held_mem hheld
    · exact h.entry_mem hm
    · exact h.real_mem (h.held_mem ho) hb hr

/-- The pool and what references its buffers. `MQData` -/
structure Sends.Owned (s : Sends Q) : Prop where
  free : ∀ p id, id ∈ s.data.free p ↔ (∃ b, s.data.heap id = some b ∧ b.power = p) ∧ ¬s.Referenced id
  nodup : ∀ p, (s.data.free p).Nodup
  there : ∀ id, s.Referenced id → s.data.heap id ≠ none
  used : ∀ p, ∃ live : Finset BufId, s.data.used p = live.card ∧
    ∀ id, id ∈ live ↔ s.Referenced id ∧ ∃ b, s.data.heap id = some b ∧ b.power = p
  alloc : ∀ p, s.data.alloc p = s.data.used p + (s.data.free p).length

/-- **Who owns the buffers.** In every run a buffer is on its free list, once, exactly when nothing references
it, and the counters count the buffers that something references. -/
theorem buffers_owned {es : List (Event Q)} (h : (Sends.init Q).run es = some s) : s.Owned := by
  obtain ⟨L, hgood⟩ := Sends.Good.init.run es h
  refine ⟨fun p id => ?_, hgood.pool.nodup, fun id hid hnone => ?_, fun p => ?_, hgood.pool.alloc⟩
  · rw [hgood.pool.free, ← hgood.referenced, hgood.pool.live]
    constructor
    · rintro ⟨-, b, hb, hz, hp⟩
      refine ⟨⟨b, hb, hp⟩, ?_⟩
      rintro ⟨b', hb', hpos⟩
      obtain rfl := some.inj (hb.symm.trans hb')
      omega
    · rintro ⟨⟨b, hb, hp⟩, hno⟩
      refine ⟨Finset.notMem_empty id, b, hb, ?_, hp⟩
      by_contra hz
      exact hno ⟨b, hb, Nat.pos_of_ne_zero hz⟩
  · obtain ⟨b, hb, -⟩ := (hgood.pool.live id).mp ((hgood.referenced id).mpr hid)
    rw [hnone] at hb
    cases hb
  · refine ⟨_, hgood.pool.used p, fun id => ?_⟩
    rw [Finset.union_empty, Finset.mem_filter, hgood.referenced, classOf, any_eq_true]
    simp only [decide_eq_true_eq]

/-- A line for two queues, of which one is cleared and one is written to; its creator has released
it. -/
theorem buffers_owned_example : ∃ s, (Sends.init Bool).run [.make ['a', 'b'] 4096 0, .add true 0 false 4096 1,
    .add false 0 true 4096 2, .clean 0, .clear true, .send false 8 4] = some s ∧ s.Owned := by
  obtain ⟨s, hs⟩ : ∃ s, (Sends.init Bool).run
      [.make ['a', 'b'] 4096 0, .add true 0 false 4096 1, .add false 0 true 4096 2, .clean 0,
        .clear true, .send false 8 4] = some s := Option.isSome_iff_exists.mp (by decide)
  exact ⟨s, hs, buffers_owned hs⟩

/-- A creator releases a buffer that was copied: it goes on the free list while the queue still has
its real buffer. -/
theorem copied_freed : ∃ s, (Sends.init Unit).run [.make ['a', 'b'] 4096 0, .add () 0 false 4096 1, .clean 0] =
    some s ∧ 0 ∈ s.data.free 9 ∧ (s.data.heap 0).bind MsgBuf.real = some 1 ∧ (s.queues ()).queue.map Msg.msg =
    [1] := by
  obtain ⟨s, hs, h⟩ : ∃ s, (Sends.init Unit).run
      [.make ['a', 'b'] 4096 0, .add () 0 false 4096 1, .clean 0] = some s ∧
      (0 ∈ s.data.free 9 ∧ (s.data.heap 0).bind MsgBuf.real = some 1 ∧
      (s.queues ()).queue.map Msg.msg = [1]) := ⟨_, rfl, by decide⟩
  exact ⟨s, hs, h⟩

end Owned

/-! ## What the queues deliver -/

/-- What is on the wire of a queue. `done` are the messages that were delivered, in the order they were queued;
`rest` those that were not, of whose first the beginning `part` was sent. `msgq.h` `struct MsgQ` -/
structure Delivered (mq : MsgQ) (added : List (Bool × Str)) (wire : Str)
    (done rest : List (Bool × Str)) (part tail : Str) : Prop where
  once : added = done ++ rest
  fifo : ∀ prio, added.filter (·.1 == prio) = done.filter (·.1 == prio) ++ rest.filter (·.1 == prio)
  bytes : wire = (done.map Prod.snd).flatten ++ part
  remain : (rest.map Prod.snd).flatten = part ++ tail
  next : ∀ m ∈ rest.head?, part.length < m.2.length
  last : rest = [] → part = []
  counters : mq.length = tail.length % 2 ^ 32 ∧ mq.count = rest.length % 2 ^ 32
  exact : tail.length < 2 ^ 32 → mq.length = tail.length ∧ mq.count = rest.length

section Delivered

variable {T : BufId → Str}

lemma Unsent.length_le : {l : List Msg} → Unsent T l → l.length ≤ (restBytes T l).length
  | [], _ => Nat.zero_le _
  | m :: l, h => by
    have hm := h m (List.mem_cons_self ..)
    have hl := Unsent.length_le fun x hx => h x (List.mem_cons_of_mem m hx)
    rw [restBytes] at hl ⊢
    rw [map_cons, flatten_cons, length_append, List.length_drop, List.length_cons]
    omega

lemma Begun.flatten : {l : List Msg} → Begun l →
    (l.map (fun m => T m.msg)).flatten = begun T l ++ restBytes T l
  | [], _ => rfl
  | m :: l, h => by
    have hrest : l.map (fun m => (T m.msg).drop m.sent) = l.map (fun m => T m.msg) :=
      List.map_congr_left fun x hx => by rw [h x hx, List.drop_zero]
    rw [begun, restBytes, map_cons, map_cons, flatten_cons, flatten_cons, hrest,
      ← List.append_assoc, take_append_drop]

lemma QueueOk.delivered {s : Pool} {mq : MsgQ} {added : List (Bool × Str)} {wire : Str}
    (h : QueueOk s mq added wire) : ∃ done rest part tail, Delivered mq added wire done rest part tail := by
  obtain ⟨done, hadded, hwire⟩ := h.wire
  have hdone : (added.take done.length).map Prod.snd = done := by
    rw [List.map_take, hadded, List.take_left]
  have hrest : (added.drop done.length).map Prod.snd = mq.queue.map (fun m => s.text m.msg) := by
    rw [List.map_drop, hadded, List.drop_left]
  have hlength : (added.drop done.length).length = mq.queue.length := by
    have := congrArg List.length hrest
    rwa [length_map, length_map] at this
  have hcounters : mq.length = (restBytes s.text mq.queue).length % 2 ^ 32 ∧
      mq.count = mq.queue.length % 2 ^ 32 :=
    ⟨congrArg MsgQ.length h.queue, congrArg MsgQ.count h.queue⟩
  have hsplit : added = added.take done.length ++ added.drop done.length := (take_append_drop ..).symm
  refine ⟨_, _, begun s.text mq.queue, restBytes s.text mq.queue, hsplit, ?_, ?_, ?_, ?_, ?_, ?_, ?_⟩
  · intro prio
    rw [← List.filter_append, ← hsplit]
  · rw [hdone, hwire]
  · rw [hrest, h.head.flatten]
  · intro m hm
    cases hq : mq.queue with
    | nil =>
      rw [hq, map_nil, List.map_eq_nil_iff] at hrest
      rw [hrest] at hm
      cases hm
    | cons e l =>
      have hunsent := h.unsent e (hq ▸ List.mem_cons_self ..)
      have hhead : m.2 = s.text e.msg := by
        have := congrArg List.head? hrest
        rw [hq, List.head?_map, hm, map_cons, List.head?_cons] at this
        exact some.inj this
      rw [begun, List.length_take, hhead]
      omega
  · intro hnil
    rw [hnil, map_nil] at hrest
    rw [List.map_eq_nil_iff.mp hrest.symm, begun]
  · rw [hlength]
    exact hcounters
  · intro hlt
    have := h.unsent.length_le
    rw [hlength, hcounters.1, hcounters.2]
    exact ⟨Nat.mod_eq_of_lt hlt, Nat.mod_eq_of_lt (by omega)⟩

end Delivered

section Claims

variable {Q : Type} [DecidableEq Q] [Fintype Q]

/-- **The queues deliver.** In every run the bytes deleted from a queue are the messages queued there, each
whole and in their order, with a beginning of the next. -/
theorem sendq_delivers {es : List (Event Q)} {s : Sends Q} (h : (Sends.init Q).run es = some s)
    (q : Q) : ∃ done rest part tail, Delivered (s.queues q) (s.added q) (s.wire q) done rest part tail := by
  obtain ⟨L, hgood⟩ := Sends.Good.init.run es h
  exact (hgood.queues q).delivered

/-- A line that is queued, sent in part, and queued again with the other priority. -/
theorem sendq_delivers_example : ∃ s, (Sends.init Unit).run [.make ['a', 'b'] 4096 0, .add () 0 false 4096 1,
    .send () 8 3, .add () 0 true 4096 2, .send () 8 2] = some s ∧ ∃ done rest part tail,
    Delivered (s.queues ()) (s.added ()) (s.wire ()) done rest part tail := by
  obtain ⟨s, hs⟩ : ∃ s, (Sends.init Unit).run
      [.make ['a', 'b'] 4096 0, .add () 0 false 4096 1, .send () 8 3, .add () 0 true 4096 2,
        .send () 8 2] = some s := Option.isSome_iff_exists.mp (by decide)
  exact ⟨s, hs, sendq_delivers hs ()⟩

/-- One buffer, its own real buffer, is queued `k` times. -/
structure Flooded (s : Sends Unit) (text : Str) (k : ℕ) : Prop where
  held : s.held = [0]
  self : ∃ ref, s.data.heap 0 = some ⟨some 0, ref, text, 9⟩
  fresh : s.data.heap 1 = none
  queue : s.queues () = ⟨text.length * k % 2 ^ 32, k % 2 ^ 32, List.replicate k ⟨0, 0⟩, []⟩
  added : s.added () = List.replicate k (false, text)
  wire : s.wire () = []

/-- The creator's buffer, which has itself for its real buffer in the pool `d`, is queued. `msgq_add` -/
def Sends.queueSelf (s : Sends Unit) (d : Pool) (text : Str) : Sends Unit :=
  { s with
    data := d.modify 0 (fun b => { b with ref := b.ref + 1 })
    queues := update s.queues () { s.queues () with
      queue := (s.queues ()).queue ++ [⟨0, 0⟩]
      length := ((s.queues ()).length + text.length) % 2 ^ 32
      count := ((s.queues ()).count + 1) % 2 ^ 32 }
    held := [0]
    added := update s.added () (s.added () ++ [(false, text)]) }

lemma Flooded.run {text : Str} : (n : ℕ) → ∀ {s : Sends Unit} {k : ℕ}, Flooded s text k →
    ∃ t, s.run (List.replicate n (.add () 0 false 4096 1)) = some t ∧ Flooded t text (k + n)
  | 0, s, k, h => ⟨s, rfl, h⟩
  | n + 1, s, k, h => by
    obtain ⟨ref, hself⟩ := h.self
    have hheap := takeMsg_heap s.data
    obtain ⟨t, hstep, ht⟩ : ∃ t, s.step (.add () 0 false 4096 1) = some t ∧ Flooded t text (k + 1) := by
      refine ⟨s.queueSelf (takeMsg s.data) text, ?_, rfl, ⟨ref + 1, ?_⟩, ?_, ?_, ?_, h.wire⟩
      · rw [Sends.step, hself]
        simp only [bind_eq_bind, bind_some, h.held, mem_singleton, h.fresh, and_self, if_true]
        rw [msgqAdd, hself]
        simp only [bind_eq_bind, bind_some, attachReal, hheap, hself]
        rfl
      · exact modify_heap.mpr (Or.inl ⟨rfl, _, (congrFun hheap 0).trans hself, rfl⟩)
      · exact modify_heap_none.mpr ((congrFun hheap 1).trans h.fresh)
      · simp only [Sends.queueSelf, update_self, h.queue]
        show (⟨_, _, _, _⟩ : MsgQ) = ⟨_, _, _, _⟩
        rw [Nat.mod_add_mod, Nat.mod_add_mod, Nat.mul_succ, List.replicate_succ']
      · simp only [Sends.queueSelf, update_self, h.added, List.replicate_succ']
    obtain ⟨u, hu, hflood⟩ := ht.run n
    refine ⟨u, ?_, by rw [Nat.add_succ, ← Nat.succ_add]; exact hflood⟩
    rw [List.replicate_succ, Sends.run, hstep]
    exact hu

lemma flooded_one {body : Str} (h : (lineOf body).length = 512) : ∃ s s',
    (Sends.init Unit).step (.make body 4096 0) = some s ∧
      s.step (.add () 0 false 4096 1) = some s' ∧ Flooded s' (lineOf body) 1 := by
  obtain ⟨s, hs, h0, h1, hheld, hq, hadded, hwire⟩ : ∃ s, (Sends.init Unit).step (.make body 4096 0) = some s ∧
      s.data.heap 0 = some ⟨none, 1, lineOf body, 9⟩ ∧ s.data.heap 1 = none ∧ s.held = [0] ∧
      s.queues () = msgqInit ∧ s.added () = [] ∧ s.wire () = [] :=
    ⟨_, rfl, rfl, rfl, rfl, rfl, rfl, rfl⟩
  have hheap := takeMsg_heap s.data
  have hattach : attachReal (takeMsg s.data) 0 ⟨none, 1, lineOf body, 9⟩ 4096 1 =
      (takeMsg s.data).modify 0 (fun b => { b with real := some 0 }) := by
    have hpow : ((some 0).bind (takeMsg s.data).heap).any
        (fun b => b.power = powerFor (lineOf body).length) = true := by
      rw [bind_some, hheap, h0, h, any_some]
      exact decide_eq_true (by decide : 9 = powerFor 512)
    rw [attachReal, msgqAlloc, if_pos hpow]
    simp only [setReal, if_true]
  have hself : ((takeMsg s.data).modify 0 (fun b => { b with real := some 0 })).heap 0 =
      some ⟨some 0, 1, lineOf body, 9⟩ :=
    modify_heap.mpr (Or.inl ⟨rfl, _, (congrFun hheap 0).trans h0, rfl⟩)
  refine ⟨s, s.queueSelf ((takeMsg s.data).modify 0 (fun b => { b with real := some 0 }))
    (lineOf body), hs, ?_, ⟨rfl, ⟨2, ?_⟩, ?_, ?_, ?_, hwire⟩⟩
  · rw [Sends.step, h0]
    simp only [bind_eq_bind, bind_some, hheld, mem_singleton, h1, and_self, if_true]
    rw [msgqAdd, h0]
    simp only [bind_eq_bind, bind_some, hattach, hself]
    rfl
  · exact modify_heap.mpr (Or.inl ⟨rfl, _, hself, rfl⟩)
  · exact modify_heap_none.mpr (modify_heap_none.mpr ((congrFun hheap 1).trans h1))
  · simp only [Sends.queueSelf, update_self, hq, h]
    rfl
  · simp only [Sends.queueSelf, update_self, hadded]
    rfl

lemma flooded {body : Str} (h : (lineOf body).length = 512) {k : ℕ} (hk : k ≠ 0) :
    ∃ s, (Sends.init Unit).run (.make body 4096 0 :: List.replicate k (.add () 0 false 4096 1)) =
      some s ∧ Flooded s (lineOf body) k := by
  obtain ⟨k, rfl⟩ : ∃ n, k = n + 1 := Nat.exists_eq_succ_of_ne_zero hk
  obtain ⟨s, s', hs, hs', hflood⟩ := flooded_one h
  obtain ⟨t, ht, hfloodt⟩ := hflood.run k
  refine ⟨t, ?_, Nat.add_comm 1 k ▸ hfloodt⟩
  rw [List.replicate_succ, Sends.run, hs, bind_eq_bind, bind_some, Sends.run, hs']
  exact ht

/-- A line of 512 bytes that is queued 2^23 times: the length of the queue is zero, and nothing is
mapped to be sent. -/
theorem length_wraps : ∃ s, (Sends.init Unit).run
      (.make (List.replicate 510 'a') 4096 0 :: List.replicate (2 ^ 23) (.add () 0 false 4096 1)) = some s ∧
    (s.added ()).length = 2 ^ 23 ∧ s.wire () = [] ∧ (s.queues ()).queue.length = 2 ^ 23 ∧
    (s.queues ()).length = 0 ∧ msgqMapiov s.data (s.queues ()) 16 = some [] := by
  have hlen : (lineOf (List.replicate 510 'a')).length = 512 := by
    rw [lineOf, List.take_of_length_le (by rw [length_replicate]), length_append,
      length_replicate]
    rfl
  obtain ⟨s, hs, hflood⟩ := flooded (k := 2 ^ 23) hlen (by decide)
  have hzero : (s.queues ()).length = 0 := by
    rw [hflood.queue, hlen]
    decide
  refine ⟨s, hs, ?_, hflood.wire, ?_, hzero, by rw [msgqMapiov, if_pos hzero]⟩
  · rw [hflood.added, length_replicate]
  · rw [hflood.queue, length_replicate]

end Claims

end Nefarious.Msgq
