import Nefarious.Output.Msgq
import Mathlib.Algebra.BigOperators.Group.Finset.Basic
import Mathlib.Order.Interval.Finset.Nat

/-!
# The pool of message buffers

What a buffer is counted for: references from outside (a creator, a queue entry) and the reference that a
creator's buffer keeps on its real buffer.
-/

namespace Nefarious.Msgq

open Option (any_some bind_eq_bind bind_some)
open Function (update update_eq_self update_idem update_of_ne update_self)

section Pool

variable {s t : Pool} {L X : Finset BufId} {R : BufId → ℕ} {mb id : BufId} {b c : MsgBuf}
  {f : MsgBuf → MsgBuf}

lemma modify_heap : (s.modify mb f).heap id = some c ↔
    id = mb ∧ (∃ b, s.heap mb = some b ∧ f b = c) ∨ id ≠ mb ∧ s.heap id = some c := by
  rw [Pool.modify]
  by_cases e : id = mb
  · subst e
    simp
  · simp [e]

lemma modify_heap_none : (s.modify mb f).heap id = none ↔ s.heap id = none := by
  rw [Pool.modify]
  by_cases e : id = mb
  · subst e
    simp
  · simp [e]

/-- The buffer is of size `p`. -/
def classOf (s : Pool) (p : ℕ) (id : BufId) : Bool := (s.heap id).any (fun b => b.power = p)

/-- The buffer `j` keeps a reference on its real buffer `id`. -/
def linksTo (s : Pool) (id j : BufId) : Bool :=
  decide (j ≠ id) && (s.heap j).any (fun b => b.real = some id)

/-- The pool accounts for its buffers: `L` are in use, `X` are in use no longer and not yet on a
free list, and `R` counts the references from outside.
`msgq.c` `MQData` -/
structure Pool.Sound (s : Pool) (L X : Finset BufId) (R : BufId → ℕ) : Prop where
  live : ∀ id, id ∈ L ↔ ∃ b, s.heap id = some b ∧ 0 < b.ref
  limbo : ∀ id ∈ X, ∃ b, s.heap id = some b ∧ b.ref = 0
  ref : ∀ id b, s.heap id = some b → b.ref = R id + (L.filter (linksTo s id ·)).card
  gone : ∀ id, s.heap id = none → R id = 0
  real : ∀ id ∈ L, ∀ b r, s.heap id = some b → b.real = some r → r ≠ id →
    ∃ br, s.heap r = some br ∧ 0 < br.ref ∧ br.real = none
  free : ∀ p id, id ∈ s.free p ↔ id ∉ X ∧ ∃ b, s.heap id = some b ∧ b.ref = 0 ∧ b.power = p
  nodup : ∀ p, (s.free p).Nodup
  used : ∀ p, s.used p = ((L ∪ X).filter (classOf s p ·)).card
  alloc : ∀ p, s.alloc p = s.used p + (s.free p).length
  power : ∀ id b, s.heap id = some b → b.power ∈ Finset.Icc 5 9
  tot : s.tot_bufsize = ∑ p ∈ Finset.Icc 5 9, s.alloc p * 2 ^ p

lemma modify_shape (hp : ∀ b, (f b).power = b.power) (hr : ∀ b, (f b).real = b.real) :
    (∀ p, classOf (s.modify mb f) p = classOf s p) ∧ ∀ id, linksTo (s.modify mb f) id = linksTo s id := by
  have hany : ∀ (g : MsgBuf → Bool), (∀ b, g (f b) = g b) → ∀ j,
      ((s.modify mb f).heap j).any g = (s.heap j).any g := by
    intro g hg j
    rw [Pool.modify]
    by_cases e : j = mb
    · subst e
      cases hj : s.heap j with
      | none => simp
      | some b => simp [hg]
    · simp [e]
  refine ⟨fun p => funext fun j => ?_, fun id => funext fun j => ?_⟩
  · exact hany _ (fun b => by rw [hp]) j
  · rw [linksTo, linksTo, hany _ (fun b => by rw [hr]) j]

lemma Pool.Sound.modify (h : s.Sound L X R) (hp : ∀ b, (f b).power = b.power)
    (hr : ∀ b, (f b).real = b.real) (hb : s.heap mb = some b) {L' X' : Finset BufId}
    {R' : BufId → ℕ} (hlive : mb ∈ L' ↔ 0 < (f b).ref) (hlive' : ∀ id, id ≠ mb → (id ∈ L' ↔ id ∈ L))
    (hX : mb ∈ X' → (f b).ref = 0) (hX' : ∀ id, id ≠ mb → (id ∈ X' ↔ id ∈ X))
    (hfree : mb ∉ X ∧ b.ref = 0 ↔ mb ∉ X' ∧ (f b).ref = 0) (hunion : L' ∪ X' = L ∪ X)
    (hsub : L' ⊆ L) (hreal : (f b).ref = 0 → ∀ j ∈ L', linksTo s mb j = false)
    (href : ∀ id c, s.heap id = some c →
      (if id = mb then (f b).ref else c.ref) = R' id + (L'.filter (linksTo s id ·)).card)
    (hgone : ∀ id, s.heap id = none → R' id = 0) : (s.modify mb f).Sound L' X' R' := by
  obtain ⟨hc, hl⟩ : (∀ p, classOf (s.modify mb f) p = classOf s p) ∧
      ∀ id, linksTo (s.modify mb f) id = linksTo s id := modify_shape hp hr
  have hself : (s.modify mb f).heap mb = some (f b) := modify_heap.mpr (Or.inl ⟨rfl, b, hb, rfl⟩)
  have hother : ∀ id c, id ≠ mb → ((s.modify mb f).heap id = some c ↔ s.heap id = some c) := by
    intro id c hne
    rw [modify_heap]
    simp [hne]
  constructor
  · intro id
    by_cases e : id = mb
    · subst e
      simp [hself, hlive]
    · rw [hlive' id e, h.live]
      simp only [hother id _ e]
  · intro id hid
    by_cases e : id = mb
    · subst e
      exact ⟨_, hself, hX hid⟩
    · obtain ⟨c, hc, hz⟩ := h.limbo id ((hX' id e).mp hid)
      exact ⟨c, (hother id c e).mpr hc, hz⟩
  · intro id c hc
    rw [hl]
    by_cases e : id = mb
    · subst e
      rw [hself] at hc
      cases hc
      have := href id b hb
      rwa [if_pos rfl] at this
    · have := href id c ((hother id c e).mp hc)
      rwa [if_neg e] at this
  · intro id hid
    exact hgone id (modify_heap_none.mp hid)
  · intro id hid c r hc hcr hne
    have hold : ∃ b', s.heap id = some b' ∧ b'.real = some r := by
      by_cases e : id = mb
      · subst e
        rw [hself] at hc
        cases hc
        exact ⟨b, hb, (hr b) ▸ hcr⟩
      · exact ⟨c, (hother id c e).mp hc, hcr⟩
    obtain ⟨b', hb', hb'r⟩ := hold
    obtain ⟨br, hbr, hpos, hn⟩ := h.real id (hsub hid) b' r hb' hb'r hne
    by_cases e : r = mb
    · subst e
      refine ⟨f b, hself, ?_, ?_⟩
      · by_contra hz
        have := hreal (by omega) id hid
        rw [linksTo, hb', any_some, hb'r] at this
        simp [hne.symm] at this
      · rw [hr]
        rw [hb] at hbr
        cases hbr
        exact hn
    · exact ⟨br, (hother r br e).mpr hbr, hpos, hn⟩
  · intro p id
    show id ∈ s.free p ↔ _
    rw [h.free]
    by_cases e : id = mb
    · subst e
      simp only [hself, hb, Option.some.injEq, exists_eq_left', hp]
      rw [← and_assoc, ← and_assoc, hfree]
    · rw [hX' id e]
      simp only [hother id _ e]
  · exact h.nodup
  · intro p
    rw [hc, hunion]
    exact h.used p
  · exact h.alloc
  · intro id c hc
    by_cases e : id = mb
    · subst e
      rw [hself] at hc
      cases hc
      rw [hp]
      exact h.power id b hb
    · exact h.power id c ((hother id c e).mp hc)
  · exact h.tot

/-- The buffer `id` gets one more reference from outside. -/
def more (R : BufId → ℕ) (id : BufId) : BufId → ℕ := update R id (R id + 1)

/-- The buffer `id` loses a reference from outside. -/
def less (R : BufId → ℕ) (id : BufId) : BufId → ℕ := update R id (R id - 1)

lemma Pool.Sound.modify_text (h : s.Sound L X R) (mb : BufId) (hp : ∀ b, (f b).power = b.power)
    (hr : ∀ b, (f b).real = b.real) (hf : ∀ b, (f b).ref = b.ref) : (s.modify mb f).Sound L X R := by
  cases hb : s.heap mb with
  | none =>
    have : s.modify mb f = s := by
      rw [Pool.modify, hb, Option.map_none, ← hb, update_eq_self]
    rwa [this]
  | some b =>
    refine h.modify hp hr hb ?_ (fun _ _ => Iff.rfl) ?_ (fun _ _ => Iff.rfl) ?_ rfl
      (Finset.Subset.refl L) ?_ ?_ h.gone
    · rw [h.live, hf]
      simp [hb]
    · intro hX
      obtain ⟨c, hc, hz⟩ := h.limbo mb hX
      rw [hb] at hc
      cases hc
      rw [hf, hz]
    · rw [hf]
    · intro hz j hj
      by_contra hlink
      have hmem : j ∈ L.filter (linksTo s mb ·) := Finset.mem_filter.mpr ⟨hj, by simpa using hlink⟩
      have hcard := Finset.card_pos.mpr ⟨j, hmem⟩
      have := h.ref mb b hb
      rw [hf] at hz
      omega
    · intro id c hc
      split
      case isTrue e =>
        subst e
        rw [hf]
        exact h.ref id b hb
      case isFalse => exact h.ref id c hc

lemma Pool.Sound.retain (h : s.Sound L X R) (hid : id ∈ L) :
    (s.modify id (fun b => { b with ref := b.ref + 1 })).Sound L X (more R id) := by
  obtain ⟨b, hb, hpos⟩ := (h.live id).mp hid
  refine h.modify (f := fun b => { b with ref := b.ref + 1 }) (fun _ => rfl) (fun _ => rfl) hb ?_
    (fun _ _ => Iff.rfl) ?_ (fun _ _ => Iff.rfl) ?_ rfl (Finset.Subset.refl L) ?_ ?_ ?_
  · exact iff_of_true hid (Nat.succ_pos _)
  · intro hX
    obtain ⟨c, hc, hz⟩ := h.limbo id hX
    rw [hb] at hc
    cases hc
    omega
  · exact iff_of_false (fun h => hpos.ne' h.2) (fun h => Nat.succ_ne_zero _ h.2)
  · intro hz
    cases hz
  · intro j c hc
    rw [more]
    split
    case isTrue e =>
      subst e
      rw [update_self]
      have := h.ref j b hb
      show b.ref + 1 = _
      omega
    case isFalse e =>
      rw [update_of_ne e]
      exact h.ref j c hc
  · intro j hj
    have hne : j ≠ id := by
      rintro rfl
      rw [hb] at hj
      cases hj
    rw [more, update_of_ne hne]
    exact h.gone j hj

/-! ### Releasing a buffer -/

/-- The change that `msgq_clean` begins with. `msgq.c` `msgq_clean`. -/
def dropRef (b : MsgBuf) : MsgBuf := { b with ref := b.ref - 1 }

lemma Pool.Sound.release (h : s.Sound L X R) (hb : s.heap id = some b) (hR : 0 < R id)
    (hmore : b.ref - 1 ≠ 0) : (s.modify id dropRef).Sound L X (less R id) := by
  have hid : id ∈ L := (h.live id).mpr ⟨b, hb, by omega⟩
  refine h.modify (f := dropRef) (fun _ => rfl) (fun _ => rfl) hb ?_ (fun _ _ => Iff.rfl) ?_
    (fun _ _ => Iff.rfl) ?_ rfl (Finset.Subset.refl L) ?_ ?_ ?_
  · exact iff_of_true hid (Nat.pos_of_ne_zero hmore)
  · intro hX
    obtain ⟨c, hc, hz⟩ := h.limbo id hX
    rw [hb] at hc
    cases hc
    omega
  · exact iff_of_false (fun h => hmore (by rw [h.2])) (fun h => hmore h.2)
  · intro hz
    exact absurd hz hmore
  · intro j c hc
    rw [less]
    split
    case isTrue e =>
      subst e
      rw [update_self]
      have := h.ref j b hb
      show b.ref - 1 = _
      omega
    case isFalse e =>
      rw [update_of_ne e]
      exact h.ref j c hc
  · intro j hj
    rw [less]
    by_cases e : j = id
    · subst e
      rw [hb] at hj
      cases hj
    · rw [update_of_ne e]
      exact h.gone j hj

/-- What a buffer that is buried leaves to its real buffer: the reference it kept on it has no owner
any more, so it counts as one from outside. `msgq.c` `msgq_clean`. -/
def bequeath (R : BufId → ℕ) (id : BufId) : Option BufId → BufId → ℕ
  | some r => if r = id then R else more R r
  | none => R

lemma Pool.Sound.bury (h : s.Sound L X R) (hb : s.heap id = some b) (hR : 0 < R id) (hlast : b.ref - 1 = 0) :
    (s.modify id dropRef).Sound (L.erase id) (insert id X) (bequeath (less R id) id b.real) := by
  have hpos : 0 < b.ref := by
    have := h.ref id b hb
    omega
  have hid : id ∈ L := (h.live id).mpr ⟨b, hb, hpos⟩
  have hX : id ∉ X := by
    intro hX
    obtain ⟨c, hc, hz⟩ := h.limbo id hX
    rw [hb] at hc
    cases hc
    omega
  have hself : R id = 1 ∧ (L.filter (linksTo s id ·)).card = 0 := by
    have := h.ref id b hb
    omega
  have hnolink : ∀ j ∈ L, linksTo s id j = false := by
    intro j hj
    have hempty := Finset.card_eq_zero.mp hself.2
    have := Finset.filter_eq_empty_iff.mp hempty hj
    simpa using this
  -- the count at another buffer: it loses the link from `id`, if there was one
  have hcount : ∀ j, j ≠ id → (L.filter (linksTo s j ·)).card =
      ((L.erase id).filter (linksTo s j ·)).card + if b.real = some j then 1 else 0 := by
    intro j hj
    have hlink : linksTo s j id = decide (b.real = some j) := by
      rw [linksTo, hb, any_some]
      simp [hj.symm]
    rw [Finset.filter_erase]
    by_cases e : b.real = some j
    · have hmem : id ∈ L.filter (linksTo s j ·) := Finset.mem_filter.mpr ⟨hid, by simp [hlink, e]⟩
      rw [if_pos e, Finset.card_erase_of_mem hmem]
      have := Finset.card_pos.mpr ⟨id, hmem⟩
      omega
    · have hmem : id ∉ L.filter (linksTo s j ·) := by
        intro hmem
        have := (Finset.mem_filter.mp hmem).2
        simp [hlink, e] at this
      rw [if_neg e, Finset.erase_eq_of_notMem hmem, Nat.add_zero]
  have hbeq : ∀ j, j ≠ id → bequeath (less R id) id b.real j = R j + if b.real = some j then 1 else 0 := by
    intro j hj
    cases hr : b.real with
    | none => simp [bequeath, less, update_of_ne hj]
    | some r =>
      by_cases e : r = id
      · subst e
        simp [bequeath, less, update_of_ne hj, hj.symm]
      · by_cases e' : j = r
        · subst e'
          simp [bequeath, more, less, hj]
        · have : r ≠ j := fun e => e' e.symm
          simp [bequeath, more, less, hj, e, e', this]
  have hbeq' : bequeath (less R id) id b.real id = 0 := by
    cases hr : b.real with
    | none => simp [bequeath, less, hself.1]
    | some r =>
      by_cases e : r = id
      · subst e
        simp [bequeath, less, hself.1]
      · have : id ≠ r := fun e' => e e'.symm
        simp [bequeath, more, less, e, this, hself.1]
  refine h.modify (f := dropRef) (fun _ => rfl) (fun _ => rfl) hb ?_ ?_ ?_ ?_ ?_ ?_
    (Finset.erase_subset _ _) ?_ ?_ ?_
  · simp [dropRef, hlast]
  · intro j hj
    simp [hj]
  · intro _
    exact hlast
  · intro j hj
    simp [hj]
  · refine iff_of_false (fun h => hpos.ne' h.2) (fun h => h.1 (Finset.mem_insert_self _ _))
  · ext j
    by_cases e : j = id
    · subst e
      simp [hid]
    · simp [e]
  · intro _ j hj
    exact hnolink j (Finset.mem_of_mem_erase hj)
  · intro j c hc
    split
    case isTrue e =>
      subst e
      rw [hbeq', Finset.filter_erase, Finset.card_eq_zero.mp hself.2]
      simp [dropRef, hlast]
    case isFalse e =>
      have := h.ref j c hc
      rw [hcount j e] at this
      rw [hbeq j e]
      omega
  · intro j hj
    have hne : j ≠ id := by
      rintro rfl
      rw [hb] at hj
      cases hj
    rw [hbeq j hne, h.gone j hj]
    split
    case isTrue e =>
      obtain ⟨br, hbr, -⟩ := h.real id hid b j hb e hne
      rw [hj] at hbr
      cases hbr
    case isFalse => rfl

lemma Pool.Sound.freeBuf (h : s.Sound L X R) (hX : id ∈ X) (hb : s.heap id = some b) :
    (freeBuf s id b.power).Sound L (X.erase id) R := by
  have hz : b.ref = 0 := by
    obtain ⟨c, hc, hz⟩ := h.limbo id hX
    rw [hb] at hc
    cases hc
    exact hz
  have hL : id ∉ L := by
    rw [h.live]
    rintro ⟨c, hc, hpos⟩
    rw [hb] at hc
    cases hc
    omega
  have hunion : L ∪ X.erase id = (L ∪ X).erase id := by
    ext j
    by_cases e : j = id
    · subst e
      simp [hL]
    · simp [e]
  have hclass : ∀ p, classOf s p id = decide (b.power = p) := by
    intro p
    rw [classOf, hb, any_some]
  have hmem : id ∈ (L ∪ X).filter (classOf s b.power ·) :=
    Finset.mem_filter.mpr ⟨Finset.mem_union_right _ hX, by simp [hclass]⟩
  have hcard := Finset.card_pos.mpr ⟨id, hmem⟩
  refine ⟨h.live, fun j hj => h.limbo j (Finset.mem_of_mem_erase hj), h.ref, h.gone, h.real, ?_, ?_,
    ?_, ?_, h.power, ?_⟩
  · intro p j
    show j ∈ update s.free b.power (id :: s.free b.power) p ↔ _
    by_cases e : p = b.power
    · subst e
      rw [update_self, List.mem_cons, h.free]
      by_cases e : j = id
      · subst e
        simp [Msgq.freeBuf, hb, hz]
      · simp [Msgq.freeBuf, e]
    · rw [update_of_ne e, h.free]
      by_cases e' : j = id
      · subst e'
        have : b.power ≠ p := fun e' => e e'.symm
        simp [Msgq.freeBuf, hb, this]
      · simp [Msgq.freeBuf, e']
  · intro p
    show (update s.free b.power (id :: s.free b.power) p).Nodup
    by_cases e : p = b.power
    · subst e
      rw [update_self, List.nodup_cons]
      exact ⟨fun hmem => ((h.free _ _).mp hmem).1 hX, h.nodup _⟩
    · rw [update_of_ne e]
      exact h.nodup p
  · intro p
    show update s.used b.power (s.used b.power - 1) p = ((L ∪ X.erase id).filter (classOf s p ·)).card
    rw [hunion, Finset.filter_erase]
    by_cases e : p = b.power
    · subst e
      rw [update_self, Finset.card_erase_of_mem hmem, h.used]
    · have hnot : id ∉ (L ∪ X).filter (classOf s p ·) := by
        intro hmem
        have := (Finset.mem_filter.mp hmem).2
        rw [hclass] at this
        exact e (of_decide_eq_true this).symm
      rw [update_of_ne e, Finset.erase_eq_of_notMem hnot, h.used]
  · intro p
    show s.alloc p = update s.used b.power (s.used b.power - 1) p +
      (update s.free b.power (id :: s.free b.power) p).length
    by_cases e : p = b.power
    · subst e
      have h1 := h.alloc b.power
      have h2 := h.used b.power
      rw [update_self, update_self, List.length_cons]
      omega
    · rw [update_of_ne e, update_of_ne e]
      exact h.alloc p
  · exact h.tot

lemma Pool.Sound.congr (h : s.Sound L X R) (h1 : t.heap = s.heap) (h2 : t.free = s.free)
    (h3 : t.used = s.used) (h4 : t.alloc = s.alloc) (h5 : t.tot_bufsize = s.tot_bufsize) : t.Sound L X R := by
  cases s
  cases t
  simp only at h1 h2 h3 h4 h5
  subst h1 h2 h3 h4 h5
  exact ⟨h.live, h.limbo, h.ref, h.gone, h.real, h.free, h.nodup, h.used, h.alloc, h.power, h.tot⟩

/-- Texts, real buffers and sizes are as they were, and so are the counters of `struct Msg`. -/
structure Pool.Keeps (s t : Pool) : Prop where
  heap : ∀ id, (t.heap id).map (fun b => (b.real, b.text, b.power)) =
    (s.heap id).map (fun b => (b.real, b.text, b.power))
  msgs : t.msgsAlloc = s.msgsAlloc ∧ t.msgsUsed = s.msgsUsed ∧ t.msgsFree = s.msgsFree

lemma Pool.Keeps.trans {u : Pool} (h : s.Keeps t) (h' : t.Keeps u) : s.Keeps u :=
  ⟨fun id => (h'.heap id).trans (h.heap id), h'.msgs.1.trans h.msgs.1,
    h'.msgs.2.1.trans h.msgs.2.1, h'.msgs.2.2.trans h.msgs.2.2⟩

lemma Pool.keeps_modify (hr : ∀ b, (f b).real = b.real) (ht : ∀ b, (f b).text = b.text)
    (hp : ∀ b, (f b).power = b.power) : s.Keeps (s.modify mb f) := by
  refine ⟨fun id => ?_, rfl, rfl, rfl⟩
  by_cases e : id = mb
  · subst e
    cases hb : s.heap id with
    | none => simp [Pool.modify, hb]
    | some b => simp [Pool.modify, hb, hr, ht, hp]
  · simp [Pool.modify, e]

lemma Pool.Keeps.get (h : s.Keeps t) (hc : t.heap id = some c) :
    ∃ b, s.heap id = some b ∧ b.real = c.real ∧ b.text = c.text ∧ b.power = c.power := by
  have := h.heap id
  rw [hc, Option.map_some] at this
  obtain ⟨b, hb, e⟩ := Option.map_eq_some_iff.mp this.symm
  simp only [Prod.mk.injEq] at e
  exact ⟨b, hb, e⟩

lemma less_more (R : BufId → ℕ) (r : BufId) : less (more R r) r = R := by
  rw [less, more, update_self, Nat.add_sub_cancel, update_idem, update_eq_self]

lemma Pool.Sound.clean_plain (h : s.Sound L X R) (hb : s.heap id = some b) (hR : 0 < R id)
    (hreal : b.real = none ∨ b.real = some id) (fuel : ℕ) :
    ∃ t L', msgqClean (fuel + 1) s id = some t ∧ t.Sound L' X (less R id) ∧ s.Keeps t ∧ L' ⊆ L := by
  have hkeep : s.Keeps (s.modify id dropRef) := Pool.keeps_modify (fun _ => rfl) (fun _ => rfl) fun _ => rfl
  by_cases hlast : b.ref - 1 = 0
  · have hbury := h.bury hb hR hlast
    have hbeq : bequeath (less R id) id b.real = less R id := by
      rcases hreal with e | e
      · rw [e]
        rfl
      · rw [e, bequeath, if_pos rfl]
    rw [hbeq] at hbury
    have hX : id ∉ X := by
      intro hX
      obtain ⟨c, hc, hz⟩ := h.limbo id hX
      rw [hb] at hc
      cases hc
      have := h.ref id b hb
      omega
    have hdrop : (s.modify id dropRef).heap id = some (dropRef b) := modify_heap.mpr (Or.inl ⟨rfl, b, hb, rfl⟩)
    have hfree := hbury.freeBuf (Finset.mem_insert_self id X) hdrop
    rw [Finset.erase_insert hX] at hfree
    refine ⟨Msgq.freeBuf { s.modify id dropRef with msglist := s.msglist.erase id } id b.power,
      L.erase id, ?_, ?_, ?_, Finset.erase_subset _ _⟩
    · rw [msgqClean, hb]
      simp only [bind_eq_bind, bind_some, if_pos hlast]
      rcases hreal with e | e
      · rw [e]
        rfl
      · rw [e]
        simp only [if_pos]
        rfl
    · exact hfree.congr rfl rfl rfl rfl rfl
    · exact hkeep.trans ⟨fun _ => rfl, rfl, rfl, rfl⟩
  · refine ⟨s.modify id dropRef, L, ?_, h.release hb hR hlast, hkeep, Finset.Subset.refl L⟩
    rw [msgqClean, hb]
    simp only [bind_eq_bind, bind_some, if_neg hlast]
    rfl

lemma Pool.Sound.clean (h : s.Sound L X R) (hb : s.heap id = some b) (hR : 0 < R id) :
    ∃ t L', msgqClean 2 s id = some t ∧ t.Sound L' X (less R id) ∧ s.Keeps t ∧ L' ⊆ L := by
  by_cases hreal : b.real = none ∨ b.real = some id
  · exact h.clean_plain hb hR hreal 1
  · obtain ⟨r, hr, hne⟩ : ∃ r, b.real = some r ∧ r ≠ id := by
      cases hr : b.real with
      | none => exact absurd (Or.inl hr) hreal
      | some r =>
        refine ⟨r, rfl, ?_⟩
        rintro rfl
        exact hreal (Or.inr hr)
    have hkeep : s.Keeps (s.modify id dropRef) := Pool.keeps_modify (fun _ => rfl) (fun _ => rfl) fun _ => rfl
    by_cases hlast : b.ref - 1 = 0
    · have hbury := h.bury hb hR hlast
      have hid : id ∈ L := by
        have := h.ref id b hb
        exact (h.live id).mpr ⟨b, hb, by omega⟩
      have hX : id ∉ X := by
        intro hX
        obtain ⟨c, hc, hz⟩ := h.limbo id hX
        rw [hb] at hc
        cases hc
        have := h.ref id b hb
        omega
      obtain ⟨br, hbr, -, hbrn⟩ := h.real id hid b r hb hr hne
      have hbr' : (s.modify id dropRef).heap r = some br := modify_heap.mpr (Or.inr ⟨hne, hbr⟩)
      rw [hr, bequeath, if_neg hne] at hbury
      -- the first turn up to the call for the real buffer
      obtain ⟨s₁, hs₁⟩ : ∃ s₁ : Pool,
        s₁ = { s.modify id dropRef with msglist := s.msglist.erase id } := ⟨_, rfl⟩
      have hbury₁ : s₁.Sound (L.erase id) (insert id X) (more (less R id) r) := by
        rw [hs₁]
        exact hbury.congr rfl rfl rfl rfl rfl
      have hkeep₁ : s.Keeps s₁ := by
        rw [hs₁]
        exact ⟨hkeep.heap, rfl, rfl, rfl⟩
      have hbr₁ : s₁.heap r = some br := by
        rw [hs₁]
        exact hbr'
      obtain ⟨t, L', ht, hsound, hkeep', hsub⟩ := hbury₁.clean_plain hbr₁
        (by rw [more, update_self]; omega) (Or.inl hbrn) 0
      rw [less_more] at hsound
      obtain ⟨c, hc, -⟩ := hsound.limbo id (Finset.mem_insert_self id X)
      have hpow : c.power = b.power := by
        obtain ⟨b', hb', -, -, e⟩ := (hkeep₁.trans hkeep').get hc
        rw [hb] at hb'
        cases hb'
        exact e.symm
      have hfree := hsound.freeBuf (Finset.mem_insert_self id X) hc
      rw [Finset.erase_insert hX, hpow] at hfree
      refine ⟨Msgq.freeBuf t id b.power, L', ?_, hfree,
        (hkeep₁.trans hkeep').trans ⟨fun _ => rfl, rfl, rfl, rfl⟩,
        hsub.trans (Finset.erase_subset _ _)⟩
      rw [msgqClean, hb]
      simp only [bind_eq_bind, bind_some, if_pos hlast, hr, if_neg hne]
      have hcall : msgqClean 1 { s.modify id dropRef with msglist := s.msglist.erase id } r =
          some t := by rw [← hs₁, ht]
      exact Option.bind_eq_some_iff.mpr ⟨t, hcall, rfl⟩
    · refine ⟨s.modify id dropRef, L, ?_, h.release hb hR hlast, hkeep, Finset.Subset.refl L⟩
      rw [msgqClean, hb]
      simp only [bind_eq_bind, bind_some, if_neg hlast]
      rfl

/-! ### Taking a buffer -/

variable {j fresh : BufId} {p pool : ℕ}

lemma linksTo_congr (h : t.heap j = s.heap j) : linksTo t id j = linksTo s id j := by
  rw [linksTo, linksTo, h]

lemma classOf_congr (h : t.heap j = s.heap j) : classOf t p j = classOf s p j := by
  rw [classOf, classOf, h]

lemma Pool.Sound.revive {rest : List BufId} (h : s.Sound L X R) (hfree : s.free p = id :: rest) :
    (useBuf { s with free := update s.free p rest } p id).Sound (insert id L) X
      (more R id) ∧ id ∉ L ∧ ∃ b, s.heap id = some b ∧ b.power = p := by
  obtain ⟨hX, b, hb, hz, hp⟩ := (h.free p id).mp (by rw [hfree]; exact List.mem_cons_self ..)
  have hL : id ∉ L := by
    rw [h.live]
    rintro ⟨c, hc, hpos⟩
    rw [hb] at hc
    cases hc
    omega
  have href := h.ref id b hb
  have hnodup := h.nodup p
  rw [hfree, List.nodup_cons] at hnodup
  obtain ⟨t, ht⟩ : ∃ t, t = useBuf { s with free := update s.free p rest } p id := ⟨_, rfl⟩
  have hself : t.heap id = some { b with real := none, ref := 1 } := by
    rw [ht]
    exact modify_heap.mpr (Or.inl ⟨rfl, b, hb, rfl⟩)
  have hother : ∀ j, j ≠ id → t.heap j = s.heap j := by
    intro j hj
    rw [ht]
    exact update_of_ne hj ..
  have hlink : ∀ k, ((insert id L).filter (linksTo t k ·)) = L.filter (linksTo s k ·) := by
    intro k
    have hfalse : linksTo t k id = false := by
      rw [linksTo, hself]
      simp
    rw [Finset.filter_insert, if_neg (by simp [hfalse])]
    refine Finset.filter_congr fun j hj => ?_
    rw [linksTo_congr (hother j (fun e => hL (e ▸ hj)))]
  have hclass : ∀ q, classOf t q = classOf s q := by
    intro q
    funext j
    by_cases e : j = id
    · subst e
      rw [classOf, classOf, hself, hb]
      rfl
    · exact classOf_congr (hother j e)
  rw [← ht]
  refine ⟨⟨?_, ?_, ?_, ?_, ?_, ?_, ?_, ?_, ?_, ?_, ?_⟩, hL, b, hb, hp⟩
  · intro j
    by_cases e : j = id
    · subst e
      simp [hself]
    · rw [Finset.mem_insert, hother j e, ← h.live]
      simp [e]
  · intro j hj
    have e : j ≠ id := fun e => hX (e ▸ hj)
    rw [hother j e]
    exact h.limbo j hj
  · intro j c hc
    rw [hlink, more]
    by_cases e : j = id
    · subst e
      rw [hself] at hc
      cases hc
      rw [update_self]
      show 1 = _
      omega
    · rw [update_of_ne e]
      rw [hother j e] at hc
      exact h.ref j c hc
  · intro j hj
    have e : j ≠ id := by
      rintro rfl
      rw [hself] at hj
      cases hj
    rw [hother j e] at hj
    rw [more, update_of_ne e]
    exact h.gone j hj
  · intro j hj c r hc hr hne
    have e : j ≠ id := by
      rintro rfl
      rw [hself] at hc
      cases hc
      cases hr
    rw [hother j e] at hc
    obtain ⟨br, hbr, hpos, hn⟩ := h.real j (Finset.mem_of_mem_insert_of_ne hj e) c r hc hr hne
    have e' : r ≠ id := by
      rintro rfl
      rw [hb] at hbr
      cases hbr
      omega
    exact ⟨br, (hother r e').trans hbr, hpos, hn⟩
  · intro q j
    have hq : t.free q = update s.free p rest q := by rw [ht]; rfl
    rw [hq]
    have hold : ∀ j, j ≠ id → (j ∈ s.free q ↔ j ∉ X ∧ ∃ b, t.heap j = some b ∧ b.ref = 0 ∧ b.power = q) := by
      intro j hj
      rw [h.free, hother j hj]
    by_cases e : q = p
    · subst e
      rw [update_self]
      by_cases e' : j = id
      · subst e'
        refine iff_of_false hnodup.1 ?_
        rintro ⟨-, c, hc, hz', -⟩
        rw [hself] at hc
        cases hc
        cases hz'
      · rw [← hold j e', hfree, List.mem_cons]
        simp [e']
    · rw [update_of_ne e]
      by_cases e' : j = id
      · subst e'
        refine iff_of_false ?_ ?_
        · rw [h.free]
          rintro ⟨-, c, hc, -, hq'⟩
          rw [hb] at hc
          cases hc
          exact e (hq'.symm.trans hp)
        · rintro ⟨-, c, hc, hz', -⟩
          rw [hself] at hc
          cases hc
          cases hz'
      · exact hold j e'
  · intro q
    have hq : t.free q = update s.free p rest q := by rw [ht]; rfl
    rw [hq]
    by_cases e : q = p
    · subst e
      rw [update_self]
      exact hnodup.2
    · rw [update_of_ne e]
      exact h.nodup q
  · intro q
    have hq : t.used q = update s.used p (s.used p + 1) q := by rw [ht]; rfl
    rw [hq, hclass, Finset.insert_union, Finset.filter_insert]
    have hnot : id ∉ (L ∪ X).filter (classOf s q ·) := by
      simp [hL, hX]
    by_cases e : q = p
    · subst e
      rw [update_self, if_pos (by rw [classOf, hb]; simp [hp]),
        Finset.card_insert_of_notMem hnot, h.used]
    · have hne : ¬ b.power = q := fun e' => e (e'.symm.trans hp)
      rw [update_of_ne e, if_neg (by rw [classOf, hb]; simp [hne]), h.used]
  · intro q
    have hu : t.used q = update s.used p (s.used p + 1) q := by rw [ht]; rfl
    have hf : t.free q = update s.free p rest q := by rw [ht]; rfl
    have ha : t.alloc q = s.alloc q := by rw [ht]; rfl
    rw [hu, hf, ha, h.alloc]
    by_cases e : q = p
    · subst e
      rw [update_self, update_self, hfree, List.length_cons]
      omega
    · rw [update_of_ne e, update_of_ne e]
  · intro j c hc
    by_cases e : j = id
    · subst e
      rw [hself] at hc
      cases hc
      exact h.power j b hb
    · rw [hother j e] at hc
      exact h.power j c hc
  · rw [ht]
    exact h.tot

lemma Pool.Sound.grow (h : s.Sound L X R) (hid : s.heap id = none) (hfree : s.free p = [])
    (hp : p ∈ Finset.Icc 5 9) :
    Pool.Sound { s with
      heap := update s.heap id (some ⟨none, 0, [], p⟩)
      alloc := update s.alloc p (s.alloc p + 1)
      free := update s.free p [id]
      tot_bufsize := s.tot_bufsize + 2 ^ p } L X R := by
  obtain ⟨t, ht⟩ : ∃ t : Pool, t = { s with
      heap := update s.heap id (some ⟨none, 0, [], p⟩)
      alloc := update s.alloc p (s.alloc p + 1)
      free := update s.free p [id]
      tot_bufsize := s.tot_bufsize + 2 ^ p } := ⟨_, rfl⟩
  have hself : t.heap id = some ⟨none, 0, [], p⟩ := by
    rw [ht]
    exact update_self ..
  have hother : ∀ j, j ≠ id → t.heap j = s.heap j := by
    intro j hj
    rw [ht]
    exact update_of_ne hj ..
  have hsome : ∀ j c, s.heap j = some c → j ≠ id := by
    rintro j c hc rfl
    rw [hid] at hc
    cases hc
  have hL : ∀ j ∈ L, j ≠ id := by
    intro j hj
    obtain ⟨c, hc, -⟩ := (h.live j).mp hj
    exact hsome j c hc
  have hX : ∀ j ∈ X, j ≠ id := by
    intro j hj
    obtain ⟨c, hc, -⟩ := h.limbo j hj
    exact hsome j c hc
  have hlink : ∀ k, L.filter (linksTo t k ·) = L.filter (linksTo s k ·) := by
    intro k
    refine Finset.filter_congr fun j hj => ?_
    rw [linksTo_congr (hother j (hL j hj))]
  have hnolink : (L.filter (linksTo s id ·)).card = 0 := by
    rw [Finset.card_eq_zero, Finset.filter_eq_empty_iff]
    intro j hj hlink
    rw [linksTo, Bool.and_eq_true, decide_eq_true_eq, Option.any_eq_true] at hlink
    obtain ⟨hne, c, hc, hcr⟩ := hlink
    obtain ⟨br, hbr, -⟩ := h.real j hj c id hc (by simpa using hcr) hne.symm
    exact hsome id br hbr rfl
  rw [← ht]
  refine ⟨?_, ?_, ?_, ?_, ?_, ?_, ?_, ?_, ?_, ?_, ?_⟩
  · intro j
    by_cases e : j = id
    · subst e
      simp only [hself, Option.some.injEq, exists_eq_left', lt_irrefl, iff_false]
      exact fun hj => hL j hj rfl
    · rw [hother j e]
      exact h.live j
  · intro j hj
    rw [hother j (hX j hj)]
    exact h.limbo j hj
  · intro j c hc
    rw [hlink]
    by_cases e : j = id
    · subst e
      rw [hself] at hc
      cases hc
      rw [hnolink, h.gone j hid]
    · rw [hother j e] at hc
      exact h.ref j c hc
  · intro j hj
    have e : j ≠ id := by
      rintro rfl
      rw [hself] at hj
      cases hj
    rw [hother j e] at hj
    exact h.gone j hj
  · intro j hj c r hc hr hne
    rw [hother j (hL j hj)] at hc
    obtain ⟨br, hbr, hpos, hn⟩ := h.real j hj c r hc hr hne
    exact ⟨br, (hother r (hsome r br hbr)).trans hbr, hpos, hn⟩
  · intro q j
    have hq : t.free q = update s.free p [id] q := by rw [ht]
    rw [hq]
    by_cases e' : j = id
    · subst e'
      have hjX : j ∉ X := fun hj => hX j hj rfl
      by_cases e : q = p
      · subst e
        simp [hjX, hself]
      · have hne : ¬ p = q := fun e' => e e'.symm
        rw [update_of_ne e, h.free]
        simp [hself, hid, hne]
    · rw [hother j e', ← h.free]
      by_cases e : q = p
      · subst e
        simp [hfree, e']
      · rw [update_of_ne e]
  · intro q
    have hq : t.free q = update s.free p [id] q := by rw [ht]
    rw [hq]
    by_cases e : q = p
    · subst e
      simp
    · rw [update_of_ne e]
      exact h.nodup q
  · intro q
    have hq : t.used q = s.used q := by rw [ht]
    rw [hq, h.used]
    refine congrArg Finset.card (Finset.filter_congr fun j hj => ?_)
    have hne : j ≠ id := (Finset.mem_union.mp hj).elim (hL j) (hX j)
    rw [classOf_congr (hother j hne)]
  · intro q
    have hu : t.used q = s.used q := by rw [ht]
    have hf : t.free q = update s.free p [id] q := by rw [ht]
    have ha : t.alloc q = update s.alloc p (s.alloc p + 1) q := by rw [ht]
    rw [hu, hf, ha]
    have := h.alloc q
    by_cases e : q = p
    · subst e
      rw [hfree, List.length_nil] at this
      rw [update_self, update_self, List.length_singleton]
      omega
    · rw [update_of_ne e, update_of_ne e]
      exact this
  · intro j c hc
    by_cases e : j = id
    · subst e
      rw [hself] at hc
      cases hc
      exact hp
    · rw [hother j e] at hc
      exact h.power j c hc
  · have ha : t.alloc = update s.alloc p (s.alloc p + 1) := by rw [ht]
    have htot : t.tot_bufsize = s.tot_bufsize + 2 ^ p := by rw [ht]
    rw [ha, htot, h.tot, ← Finset.add_sum_erase _ _ hp, ← Finset.add_sum_erase _ _ hp, update_self]
    have hrest : ∑ q ∈ (Finset.Icc 5 9).erase p, update s.alloc p (s.alloc p + 1) q * 2 ^ q =
        ∑ q ∈ (Finset.Icc 5 9).erase p, s.alloc q * 2 ^ q := by
      refine Finset.sum_congr rfl fun q hq => ?_
      rw [update_of_ne (Finset.ne_of_mem_erase hq)]
    rw [hrest, Nat.add_mul, Nat.one_mul]
    omega

lemma Pool.Sound.take {s' : Pool} (h : s.Sound L X R) (hp : p ∈ Finset.Icc 5 9) (hfresh : s.heap fresh = none)
    (ht : takeBuf s p pool fresh = some (s', id)) : (useBuf s' p id).Sound (insert id L) X (more R id) ∧
    id ∉ L ∧ (∀ b, s.heap id = some b → b.ref = 0) ∧ (∃ text, (useBuf s' p id).heap id =
    some ⟨none, 1, text, p⟩) ∧ ∀ j, j ≠ id → (useBuf s' p id).heap j = s.heap j := by
  rw [takeBuf] at ht
  cases hf : s.free p with
  | cons mb rest =>
    rw [hf] at ht
    cases ht
    obtain ⟨hs, hL, b, hb, hbp⟩ := h.revive hf
    refine ⟨hs, hL, ?_, ⟨b.text, ?_⟩, fun j hj => update_of_ne hj ..⟩
    · intro c hc
      by_contra hne
      exact hL ((h.live id).mpr ⟨c, hc, Nat.pos_of_ne_zero hne⟩)
    · exact modify_heap.mpr (Or.inl ⟨rfl, b, hb, by rw [hbp]⟩)
  | nil =>
    rw [hf] at ht
    simp only at ht
    split at ht
    case isFalse => cases ht
    case isTrue hlt =>
      cases ht
      have hgrow := h.grow hfresh hf hp
      obtain ⟨hs, hL, -⟩ := hgrow.revive (update_self ..)
      refine ⟨hs.congr rfl ?_ rfl rfl rfl, hL, ?_, ⟨[], ?_⟩, ?_⟩
      · show s.free = update (update s.free p [id]) p []
        rw [update_idem, ← hf, update_eq_self]
      · intro c hc
        rw [hfresh] at hc
        cases hc
      · exact modify_heap.mpr (Or.inl ⟨rfl, _, update_self .., rfl⟩)
      · intro j hj
        exact (update_of_ne hj ..).trans (update_of_ne hj ..)

lemma linksTo_setReal {r : BufId} (hb : s.heap mb = some b) : linksTo (setReal s (some mb) (some r)) id j =
      if j = mb then decide (mb ≠ id ∧ r = id) else linksTo s id j := by
  by_cases e : j = mb
  · subst e
    rw [if_pos rfl, linksTo]
    simp [setReal, Pool.modify, hb]
  · rw [if_neg e]
    exact linksTo_congr (update_of_ne e ..)

lemma Pool.Sound.setReal {r : BufId} (h : s.Sound L X R) (hb : s.heap mb = some b)
    (hL : mb ∈ L) (hnone : b.real = none) (hlink : ∀ j ∈ L, linksTo s mb j = false)
    (hr : r = mb ∨ 0 < R r ∧ ∃ br, s.heap r = some br ∧ br.real = none) :
    (setReal s (some mb) (some r)).Sound L X (if r = mb then R else less R r) := by
  obtain ⟨t, ht⟩ : ∃ t, t = Msgq.setReal s (some mb) (some r) := ⟨_, rfl⟩
  have hself : t.heap mb = some { b with real := some r } := by
    rw [ht]
    exact modify_heap.mpr (Or.inl ⟨rfl, b, hb, rfl⟩)
  have hother : ∀ j, j ≠ mb → t.heap j = s.heap j := by
    intro j hj
    rw [ht]
    exact update_of_ne hj ..
  have hmb : ∀ k, linksTo s k mb = false := by
    intro k
    rw [linksTo, hb, any_some, hnone]
    simp
  -- one more link to `r`, if that is another buffer
  have hcount : ∀ k, (L.filter (linksTo t k ·)).card =
      (L.filter (linksTo s k ·)).card + if k = r ∧ r ≠ mb then 1 else 0 := by
    intro k
    by_cases e : k = r ∧ r ≠ mb
    · obtain ⟨rfl, hne⟩ := e
      have hins : L.filter (linksTo t k ·) = insert mb (L.filter (linksTo s k ·)) := by
        ext j
        rw [Finset.mem_insert, Finset.mem_filter, Finset.mem_filter, ht, linksTo_setReal hb]
        by_cases ej : j = mb
        · subst ej
          simp [hL, hne.symm]
        · simp [ej]
      have hnot : mb ∉ L.filter (linksTo s k ·) := by simp [hmb]
      rw [hins, Finset.card_insert_of_notMem hnot, if_pos ⟨rfl, hne⟩]
    · rw [if_neg e, Nat.add_zero]
      refine congrArg Finset.card (Finset.filter_congr fun j hj => ?_)
      rw [ht, linksTo_setReal hb]
      by_cases ej : j = mb
      · subst ej
        rw [if_pos rfl, hmb]
        simp only [decide_eq_true_eq]
        refine iff_of_false ?_ (by simp)
        rintro ⟨hne, rfl⟩
        exact e ⟨rfl, hne.symm⟩
      · rw [if_neg ej]
  have hR : ∀ k, (if r = mb then R else less R r) k + (if k = r ∧ r ≠ mb then 1 else 0) = R k := by
    intro k
    by_cases e : r = mb
    · simp [e]
    · obtain ⟨hpos, -⟩ := hr.resolve_left e
      by_cases e' : k = r
      · subst e'
        simp only [if_neg e, less, update_self, ne_eq, e, not_false_eq_true, and_self, if_true]
        omega
      · simp [e, less, e']
  have hget : ∀ j c, t.heap j = some c → ∃ c', s.heap j = some c' ∧ c'.ref = c.ref ∧ c'.power = c.power := by
    intro j c hc
    by_cases e : j = mb
    · subst e
      rw [hself] at hc
      cases hc
      exact ⟨b, hb, rfl, rfl⟩
    · exact ⟨c, (hother j e) ▸ hc, rfl, rfl⟩
  have hput : ∀ j c, s.heap j = some c → ∃ c', t.heap j = some c' ∧ c'.ref = c.ref ∧ c'.power = c.power := by
    intro j c hc
    by_cases e : j = mb
    · subst e
      rw [hb] at hc
      cases hc
      exact ⟨_, hself, rfl, rfl⟩
    · exact ⟨c, (hother j e).trans hc, rfl, rfl⟩
  rw [← ht]
  refine ⟨?_, ?_, ?_, ?_, ?_, ?_, ?_, ?_, ?_, ?_, ?_⟩
  · intro j
    rw [h.live]
    constructor
    · rintro ⟨c, hc, hpos⟩
      obtain ⟨c', hc', e, -⟩ := hput j c hc
      exact ⟨c', hc', e ▸ hpos⟩
    · rintro ⟨c, hc, hpos⟩
      obtain ⟨c', hc', e, -⟩ := hget j c hc
      exact ⟨c', hc', e ▸ hpos⟩
  · intro j hj
    obtain ⟨c, hc, hz⟩ := h.limbo j hj
    obtain ⟨c', hc', e, -⟩ := hput j c hc
    exact ⟨c', hc', e.trans hz⟩
  · intro j c hc
    obtain ⟨c', hc', e, -⟩ := hget j c hc
    have h1 := h.ref j c' hc'
    have h2 := hR j
    have h3 := hcount j
    omega
  · intro j hj
    have hj' : s.heap j = none := by
      cases hc : s.heap j with
      | none => rfl
      | some c =>
        obtain ⟨c', hc', -⟩ := hput j c hc
        rw [hj] at hc'
        cases hc'
    have h1 := h.gone j hj'
    have h2 := hR j
    omega
  · intro j hj c k hc hk hne
    -- the target is not `mb`, which nothing links to
    have htarget : ∃ bk, s.heap k = some bk ∧ 0 < bk.ref ∧ bk.real = none := by
      by_cases e : j = mb
      · subst e
        rw [hself] at hc
        cases hc
        obtain rfl := Option.some.inj hk
        obtain ⟨hpos, br, hbr, hn⟩ := hr.resolve_left hne
        have := h.ref r br hbr
        exact ⟨br, hbr, by omega, hn⟩
      · rw [hother j e] at hc
        exact h.real j hj c k hc hk hne
    obtain ⟨bk, hbk, hpos, hn⟩ := htarget
    by_cases e : k = mb
    · subst e
      by_cases ej : j = k
      · exact absurd ej.symm hne
      · have hl := hlink j hj
        rw [hother j ej] at hc
        rw [linksTo, hc, any_some, hk] at hl
        simp [ej] at hl
    · exact ⟨bk, (hother k e).trans hbk, hpos, hn⟩
  · intro q j
    have hq : t.free q = s.free q := by rw [ht]; rfl
    rw [hq, h.free]
    refine and_congr_right fun _ => ⟨?_, ?_⟩
    · rintro ⟨c, hc, hz, hp⟩
      obtain ⟨c', hc', e1, e2⟩ := hput j c hc
      exact ⟨c', hc', e1.trans hz, e2.trans hp⟩
    · rintro ⟨c, hc, hz, hp⟩
      obtain ⟨c', hc', e1, e2⟩ := hget j c hc
      exact ⟨c', hc', e1.trans hz, e2.trans hp⟩
  · intro q
    have hq : t.free q = s.free q := by rw [ht]; rfl
    rw [hq]
    exact h.nodup q
  · intro q
    have hq : t.used q = s.used q := by rw [ht]; rfl
    have hclass : classOf t q = classOf s q := by
      funext j
      by_cases e : j = mb
      · subst e
        rw [classOf, classOf, hself, hb]
        rfl
      · exact classOf_congr (hother j e)
    rw [hq, hclass]
    exact h.used q
  · intro q
    rw [ht]
    exact h.alloc q
  · intro j c hc
    obtain ⟨c', hc', -, e⟩ := hget j c hc
    rw [← e]
    exact h.power j c' hc'
  · rw [ht]
    exact h.tot

lemma Pool.Sound.clearClass {p : ℕ} (h : s.Sound L X R) (hp : p ∈ Finset.Icc 5 9) :
    (clearClass s p).Sound L X R := by
  have hheap : ∀ j c, (Msgq.clearClass s p).heap j = some c ↔ j ∉ s.free p ∧ s.heap j = some c := by
    intro j c
    show (if j ∈ s.free p then none else s.heap j) = some c ↔ _
    by_cases e : j ∈ s.free p
    · simp [e]
    · simp [e]
  have hkeep : ∀ j, j ∈ L ∪ X → j ∉ s.free p := by
    intro j hj hmem
    obtain ⟨hX, c, hc, hz, -⟩ := (h.free p j).mp hmem
    rcases Finset.mem_union.mp hj with hj | hj
    · obtain ⟨c', hc', hpos⟩ := (h.live j).mp hj
      rw [hc] at hc'
      cases hc'
      omega
    · exact hX hj
  have hsame : ∀ j ∈ L ∪ X, (Msgq.clearClass s p).heap j = s.heap j := by
    intro j hj
    exact if_neg (hkeep j hj)
  have hlink : ∀ k, L.filter (linksTo (Msgq.clearClass s p) k ·) = L.filter (linksTo s k ·) := by
    intro k
    refine Finset.filter_congr fun j hj => ?_
    rw [linksTo_congr (hsame j (Finset.mem_union_left _ hj))]
  refine ⟨?_, ?_, ?_, ?_, ?_, ?_, ?_, ?_, ?_, ?_, ?_⟩
  · intro j
    rw [h.live]
    constructor
    · rintro ⟨c, hc, hpos⟩
      have hj := hkeep j (Finset.mem_union_left _ ((h.live j).mpr ⟨c, hc, hpos⟩))
      exact ⟨c, (hheap j c).mpr ⟨hj, hc⟩, hpos⟩
    · rintro ⟨c, hc, hpos⟩
      exact ⟨c, ((hheap j c).mp hc).2, hpos⟩
  · intro j hj
    rw [hsame j (Finset.mem_union_right _ hj)]
    exact h.limbo j hj
  · intro j c hc
    rw [hlink]
    exact h.ref j c ((hheap j c).mp hc).2
  · intro j hj
    by_cases e : j ∈ s.free p
    · obtain ⟨-, c, hc, hz, -⟩ := (h.free p j).mp e
      have := h.ref j c hc
      omega
    · exact h.gone j ((if_neg e).symm.trans hj)
  · intro j hj c r hc hr hne
    rw [hsame j (Finset.mem_union_left _ hj)] at hc
    obtain ⟨br, hbr, hpos, hn⟩ := h.real j hj c r hc hr hne
    have hrL := (h.live r).mpr ⟨br, hbr, hpos⟩
    exact ⟨br, (hheap r br).mpr ⟨hkeep r (Finset.mem_union_left _ hrL), hbr⟩, hpos, hn⟩
  · intro q j
    show j ∈ update s.free p [] q ↔ _
    simp only [hheap]
    by_cases e : q = p
    · subst e
      rw [update_self]
      refine iff_of_false List.not_mem_nil ?_
      rintro ⟨hX, c, ⟨hmem, hc⟩, hz, hq⟩
      exact hmem ((h.free q j).mpr ⟨hX, c, hc, hz, hq⟩)
    · rw [update_of_ne e, h.free]
      refine and_congr_right fun _ => ⟨?_, ?_⟩
      · rintro ⟨c, hc, hz, hq⟩
        refine ⟨c, ⟨?_, hc⟩, hz, hq⟩
        intro hmem
        obtain ⟨-, c', hc', -, hp'⟩ := (h.free p j).mp hmem
        rw [hc] at hc'
        cases hc'
        exact e (hq.symm.trans hp')
      · rintro ⟨c, ⟨-, hc⟩, hz, hq⟩
        exact ⟨c, hc, hz, hq⟩
  · intro q
    show (update s.free p [] q).Nodup
    by_cases e : q = p
    · subst e
      simp
    · rw [update_of_ne e]
      exact h.nodup q
  · intro q
    show s.used q = _
    rw [h.used]
    refine congrArg Finset.card (Finset.filter_congr fun j hj => ?_)
    rw [classOf_congr (hsame j hj)]
  · intro q
    show update s.alloc p (s.alloc p - (s.free p).length) q = s.used q + (update s.free p [] q).length
    have := h.alloc q
    by_cases e : q = p
    · subst e
      rw [update_self, update_self, List.length_nil]
      omega
    · rw [update_of_ne e, update_of_ne e]
      exact this
  · intro j c hc
    exact h.power j c ((hheap j c).mp hc).2
  · show s.tot_bufsize - (s.free p).length * 2 ^ p =
      ∑ q ∈ Finset.Icc 5 9, update s.alloc p (s.alloc p - (s.free p).length) q * 2 ^ q
    have hrest : ∑ q ∈ (Finset.Icc 5 9).erase p, update s.alloc p (s.alloc p - (s.free p).length) q * 2 ^ q =
        ∑ q ∈ (Finset.Icc 5 9).erase p, s.alloc q * 2 ^ q := by
      refine Finset.sum_congr rfl fun q hq => ?_
      rw [update_of_ne (Finset.ne_of_mem_erase hq)]
    have hle : (s.free p).length * 2 ^ p ≤ s.alloc p * 2 ^ p := Nat.mul_le_mul_right _ (by rw [h.alloc]; omega)
    rw [h.tot, ← Finset.add_sum_erase _ _ hp, ← Finset.add_sum_erase _ _ hp, update_self, hrest, Nat.sub_mul]
    omega

lemma Pool.Sound.clear (h : s.Sound L X R) : (msgqClearFreembs s).Sound L X R ∧ (∀ j ∈ L,
    (msgqClearFreembs s).heap j = s.heap j) ∧ ∀ j, s.heap j = none → (msgqClearFreembs s).heap j = none := by
  have hstep : ∀ ps : List ℕ, (∀ p ∈ ps, p ∈ Finset.Icc 5 9) → ∀ {s : Pool}, s.Sound L X R →
      (ps.foldl Msgq.clearClass s).Sound L X R ∧
      (∀ j ∈ L, (ps.foldl Msgq.clearClass s).heap j = s.heap j) ∧
      ∀ j, s.heap j = none → (ps.foldl Msgq.clearClass s).heap j = none := by
    intro ps
    induction ps with
    | nil => exact fun _ s h => ⟨h, fun _ _ => rfl, fun _ h => h⟩
    | cons p ps ih =>
      intro hps s h
      obtain ⟨h1, h2, h3⟩ := ih (fun q hq => hps q (List.mem_cons_of_mem _ hq))
        (h.clearClass (hps p (List.mem_cons_self ..)))
      refine ⟨h1, fun j hj => (h2 j hj).trans (if_neg ?_), fun j hj => h3 j ?_⟩
      · intro hmem
        obtain ⟨c, hc, hpos⟩ := (h.live j).mp hj
        obtain ⟨-, c', hc', hz, -⟩ := (h.free p j).mp hmem
        rw [hc] at hc'
        cases hc'
        omega
      · show (if j ∈ s.free p then none else s.heap j) = none
        rw [hj]
        split <;> rfl
  exact hstep [5, 6, 7, 8, 9] (by decide) h

/-! ### Making and queueing -/

lemma powerFor_mem {n : ℕ} (h : n ≤ 512) : powerFor n ∈ Finset.Icc 5 9 := by
  have all : ∀ n : Fin 513, powerFor n ∈ Finset.Icc 5 9 := by decide +kernel
  exact all ⟨n, by omega⟩

lemma takeBuf_msgs {s' : Pool} (h : takeBuf s p pool fresh = some (s', id)) :
    s'.msgsAlloc = s.msgsAlloc ∧ s'.msgsUsed = s.msgsUsed ∧ s'.msgsFree = s.msgsFree := by
  rw [takeBuf] at h
  split at h
  · cases h
    exact ⟨rfl, rfl, rfl⟩
  · split at h
    · cases h
      exact ⟨rfl, rfl, rfl⟩
    · cases h

lemma clear_msgs (s : Pool) : (msgqClearFreembs s).msgsAlloc = s.msgsAlloc ∧
    (msgqClearFreembs s).msgsUsed = s.msgsUsed ∧ (msgqClearFreembs s).msgsFree = s.msgsFree := by
  have hstep : ∀ (ps : List ℕ) (s : Pool), (ps.foldl Msgq.clearClass s).msgsAlloc = s.msgsAlloc ∧
      (ps.foldl Msgq.clearClass s).msgsUsed = s.msgsUsed ∧
      (ps.foldl Msgq.clearClass s).msgsFree = s.msgsFree := by
    intro ps
    induction ps with
    | nil => exact fun _ => ⟨rfl, rfl, rfl⟩
    | cons p ps ih => exact fun s => ih (Msgq.clearClass s p)
  exact hstep [5, 6, 7, 8, 9] s

lemma takeMsg_heap (s : Pool) : (takeMsg s).heap = s.heap := by
  rw [takeMsg]
  split <;> rfl

lemma takeMsg_msgs (s : Pool) : (takeMsg s).msgsUsed = s.msgsUsed + 1 ∧ (s.msgsAlloc =
    s.msgsUsed + s.msgsFree → (takeMsg s).msgsAlloc = (takeMsg s).msgsUsed + (takeMsg s).msgsFree) := by
  rw [takeMsg]
  split
  · exact ⟨rfl, fun _ => by simp only; omega⟩
  · exact ⟨rfl, fun _ => by simp only; omega⟩

lemma length_lineOf (body : Str) : 0 < (lineOf body).length ∧ (lineOf body).length ≤ 512 := by
  rw [lineOf, List.length_append, List.length_take]
  simp only [List.length_cons, List.length_nil]
  omega

/-- What the making of a buffer leaves: the creator holds the new buffer, and no buffer in use
changes.
`msgq.c` `msgq_vmake` -/
structure Made (s t : Pool) (L X : Finset BufId) (R : BufId → ℕ) (mb : BufId) (body : Str) :
    Prop where
  sound : t.Sound (insert mb L) X (more R mb)
  new : mb ∉ L
  self : t.heap mb = some ⟨none, 1, lineOf body, 9⟩
  other : ∀ j ∈ L, t.heap j = s.heap j
  /-- The counters of `struct Msg`. -/
  msgs : t.msgsAlloc = s.msgsAlloc ∧ t.msgsUsed = s.msgsUsed ∧ t.msgsFree = s.msgsFree

lemma Pool.Sound.fill {s' : Pool} (h : s.Sound L X R) (body : Str)
    (hfresh : s.heap fresh = none) (ht : takeBuf s 9 pool fresh = some (s', mb)) :
    Made s (fillBuf (useBuf s' 9 mb) mb body) L X R mb body := by
  obtain ⟨hs, hL, -, ⟨text, hself⟩, hother⟩ := h.take (by decide) hfresh ht
  have hmsgs := takeBuf_msgs ht
  refine ⟨?_, hL, ?_, ?_, hmsgs⟩
  · exact (hs.modify_text mb (f := fun b => { b with text := lineOf body }) (fun _ => rfl)
      (fun _ => rfl) (fun _ => rfl)).congr rfl rfl rfl rfl rfl
  · exact modify_heap.mpr (Or.inl ⟨rfl, _, hself, rfl⟩)
  · intro j hj
    have hne : j ≠ mb := fun e => hL (e ▸ hj)
    exact (update_of_ne hne ..).trans (hother j hne)

lemma Pool.Sound.make {body : Str} (h : s.Sound L X R) (hfresh : s.heap fresh = none)
    (ht : msgqMake s body pool fresh = some (t, mb)) : Made s t L X R mb body := by
  have halloc : ∀ (s : Pool) (o), takeBuf s 9 pool fresh = o →
      msgqAlloc s none 512 pool fresh = o.elim (s, none) fun r => (useBuf r.1 9 r.2, some r.2) := by
    rintro s o rfl
    rw [msgqAlloc, show powerFor 512 = 9 by decide]
    cases takeBuf s 9 pool fresh <;> rfl
  cases htake : takeBuf s 9 pool fresh with
  | some r =>
    rw [msgqMake, halloc s _ htake] at ht
    cases ht
    exact h.fill body hfresh htake
  | none =>
    obtain ⟨hc, hsame, hnone⟩ := h.clear
    cases htake' : takeBuf (msgqClearFreembs s) 9 pool fresh with
    | none =>
      simp only [msgqMake, halloc _ _ htake, halloc _ _ htake', Option.elim] at ht
      cases ht
    | some r =>
      simp only [msgqMake, halloc _ _ htake, halloc _ _ htake', Option.elim] at ht
      cases ht
      have hm := hc.fill body (hnone _ hfresh) htake'
      refine ⟨hm.sound, hm.new, hm.self, fun j hj => (hm.other j hj).trans (hsame j hj), ?_⟩
      obtain ⟨h1, h2, h3⟩ := clear_msgs s
      exact ⟨hm.msgs.1.trans h1, hm.msgs.2.1.trans h2, hm.msgs.2.2.trans h3⟩

/-- What `msgq_add` leaves before it queues the message: the buffer has its real buffer `r`, with
the same text, and the other buffers in use are as they were.
`msgq.c` `msgq_add` -/
structure Attached (s t : Pool) (L L' X : Finset BufId) (R : BufId → ℕ) (mb r : BufId)
    (b : MsgBuf) : Prop where
  sound : t.Sound L' X R
  use : L' = insert r L
  self : t.heap mb = some { b with real := some r }
  copy : ∃ rb, t.heap r = some rb ∧ rb.text = b.text ∧ (rb.real = none ∨ rb.real = some r)
  new : b.real = some r ∨ b.real = none ∧ (r = mb ∨ r ∉ L)
  other : ∀ j ∈ L, j ≠ mb → t.heap j = s.heap j
  msgs : t.msgsAlloc = s.msgsAlloc ∧ t.msgsUsed = s.msgsUsed ∧ t.msgsFree = s.msgsFree

lemma Pool.Sound.attach_self (h : s.Sound L X R) (hb : s.heap mb = some b) (hL : mb ∈ L)
    (hnone : b.real = none) (hlink : ∀ j ∈ L, linksTo s mb j = false) :
    Attached s (Msgq.setReal s (some mb) (some mb)) L L X R mb mb b := by
  have hs := h.setReal hb hL hnone hlink (Or.inl rfl)
  rw [if_pos rfl] at hs
  have hself : (Msgq.setReal s (some mb) (some mb)).heap mb = some { b with real := some mb } :=
    modify_heap.mpr (Or.inl ⟨rfl, b, hb, rfl⟩)
  exact ⟨hs, (Finset.insert_eq_of_mem hL).symm, hself, ⟨_, hself, rfl, Or.inr rfl⟩, Or.inr ⟨hnone, Or.inl rfl⟩,
    fun j _ hne => update_of_ne hne .., rfl, rfl, rfl⟩

lemma Pool.Sound.attach (h : s.Sound L X R) (hb : s.heap mb = some b) (hL : mb ∈ L)
    (hnone : b.real = none) (hlink : ∀ j ∈ L, linksTo s mb j = false) (hlen : b.text.length ≤ 512)
    (hfresh : s.heap fresh = none) : ∃ L' r, Attached s (attachReal s mb b pool fresh) L L' X R mb r b := by
  have hp := powerFor_mem hlen
  rw [attachReal, hnone]
  simp only
  rw [msgqAlloc]
  by_cases hpow : ((some mb).bind s.heap).any (fun c => c.power = powerFor b.text.length)
  · rw [if_pos hpow]
    refine ⟨L, mb, ?_⟩
    simp only [if_true]
    exact h.attach_self hb hL hnone hlink
  · rw [if_neg hpow]
    cases htake : takeBuf s (powerFor b.text.length) pool fresh with
    | none =>
      refine ⟨L, mb, ?_⟩
      simp only [if_true]
      exact h.attach_self hb hL hnone hlink
    | some r =>
      obtain ⟨s', tmp⟩ := r
      obtain ⟨hs, htmp, -, ⟨text, hself⟩, hother⟩ := h.take hp hfresh htake
      have hne : tmp ≠ mb := fun e => htmp (e ▸ hL)
      have hne' : mb ≠ tmp := hne.symm
      have hb' : (useBuf s' (powerFor b.text.length) tmp).heap mb = some b := (hother mb hne').trans hb
      have hlink' : ∀ j ∈ insert tmp L, linksTo (useBuf s' (powerFor b.text.length) tmp) mb j = false := by
        intro j hj
        by_cases e : j = tmp
        · subst e
          rw [linksTo, hself]
          simp
        · rw [linksTo_congr (hother j e)]
          exact hlink j (Finset.mem_of_mem_insert_of_ne hj e)
      have hreal := hs.setReal (r := tmp) hb' (Finset.mem_insert_of_mem hL) hnone hlink'
        (Or.inr ⟨by rw [more, update_self]; omega, _, hself, rfl⟩)
      rw [if_neg hne, less_more] at hreal
      have htext := hreal.modify_text tmp (f := fun c => { c with text := b.text })
        (fun _ => rfl) (fun _ => rfl) (fun _ => rfl)
      refine ⟨insert tmp L, tmp, ?_⟩
      simp only [if_neg hne]
      refine ⟨htext.congr rfl rfl rfl rfl rfl, rfl, ?_, ?_, Or.inr ⟨hnone, Or.inr htmp⟩, ?_, ?_⟩
      · exact modify_heap.mpr (Or.inr ⟨hne', modify_heap.mpr (Or.inl ⟨rfl, b, hb', rfl⟩)⟩)
      · exact ⟨_, modify_heap.mpr (Or.inl ⟨rfl, _, modify_heap.mpr (Or.inr ⟨hne, hself⟩), rfl⟩),
          rfl, Or.inl rfl⟩
      · intro j hj hjm
        have hjt : j ≠ tmp := fun e => htmp (e ▸ hj)
        exact (update_of_ne hjt ..).trans ((update_of_ne hjm ..).trans (hother j hjt))
      · have hmsgs := takeBuf_msgs htake
        exact hmsgs

end Pool

end Nefarious.Msgq
