import Mathlib.Data.List.Nodup
import Mathlib.Logic.Function.Basic

/-!
# Doubly linked lists in a heap

An intrusive doubly linked list is a heap of `prev`/`next` pairs together with a head pointer.
-/

namespace Nefarious.Lib.Dll

open Function (update)
open List (mem_cons mem_cons_of_mem mem_cons_self nodup_cons not_mem_nil)

variable {ν : Type} [DecidableEq ν]

/-- The two pointers of a node. -/
structure Links (ν : Type) where
  /-- The previous node, or `none` at the head. -/
  prev : Option ν
  /-- The next node, or `none` at the end. -/
  next : Option ν
  deriving DecidableEq

/-- `Chain h p hd l`: from the head pointer `hd` the `next` walk is `l`, and the `prev` pointer of
its first node is `p`. -/
def Chain (h : ν → Links ν) : Option ν → Option ν → List ν → Prop
  | _, hd, [] => hd = none
  | p, hd, x :: xs => hd = some x ∧ (h x).prev = p ∧ Chain h (some x) (h x).next xs

/-- A well-formed doubly linked list with nodes `l`. -/
structure IsList (h : ν → Links ν) (hd : Option ν) (l : List ν) : Prop where
  chain : Chain h none hd l
  nodup : l.Nodup

/-! ## Reading a chain -/

omit [DecidableEq ν] in
lemma Chain.congr {h h' : ν → Links ν} :
    (l : List ν) → ∀ {p hd}, (∀ y ∈ l, h' y = h y) → Chain h p hd l → Chain h' p hd l
  | [], _, _, _, hc => hc
  | x :: xs, _, _, he, ⟨hhd, hp, hc⟩ => by
    have hx : h' x = h x := he x mem_cons_self
    refine ⟨hhd, by rw [hx]; exact hp, ?_⟩
    rw [hx]
    exact Chain.congr xs (fun y hy => he y (mem_cons_of_mem _ hy)) hc

omit [DecidableEq ν] in
lemma IsList.congr {h h' : ν → Links ν} {hd : Option ν} {l : List ν}
    (hl : IsList h hd l) (he : ∀ y ∈ l, h' y = h y) : IsList h' hd l :=
  ⟨Chain.congr l he hl.chain, hl.nodup⟩

omit [DecidableEq ν] in
lemma Chain.head_eq {h : ν → Links ν} {p hd : Option ν} {l : List ν} (hc : Chain h p hd l) :
    hd = l.head? := by
  cases l with
  | nil => exact hc
  | cons x xs => exact hc.1

omit [DecidableEq ν] in
lemma Chain.unique {h : ν → Links ν} :
    (l l' : List ν) → ∀ {p p' hd}, Chain h p hd l → Chain h p' hd l' → l = l'
  | [], [], _, _, _, _, _ => rfl
  | [], _ :: _, _, _, _, hc, hc' => absurd (hc.symm.trans hc'.1) (by simp)
  | _ :: _, [], _, _, _, hc, hc' => absurd (hc'.symm.trans hc.1) (by simp)
  | x :: xs, y :: ys, _, _, _, ⟨hx, _, hc⟩, ⟨hy, _, hc'⟩ => by
    have hxy : x = y := Option.some.inj (hx.symm.trans hy)
    subst hxy
    rw [Chain.unique xs ys hc hc']

omit [DecidableEq ν] in
lemma Chain.next_mem {h : ν → Links ν} :
    (l : List ν) → ∀ {p hd x y}, Chain h p hd l → x ∈ l → (h x).next = some y → y ∈ l
  | [], _, _, _, _, _, hx, _ => absurd hx not_mem_nil
  | z :: zs, _, _, x, y, ⟨_, _, hc⟩, hx, hy => by
    rcases mem_cons.mp hx with rfl | hx'
    · have hhead := hc.head_eq
      rw [hy] at hhead
      exact mem_cons_of_mem _ (List.mem_of_mem_head? hhead.symm)
    · exact mem_cons_of_mem _ (Chain.next_mem zs hc hx' hy)

omit [DecidableEq ν] in
lemma Chain.prev_mem {h : ν → Links ν} :
    (l : List ν) → ∀ {p hd x y}, Chain h p hd l → x ∈ l → (h x).prev = some y → y ∈ l ∨ p = some y
  | [], _, _, _, _, _, hx, _ => absurd hx not_mem_nil
  | z :: zs, p, _, x, y, ⟨_, hp, hc⟩, hx, hy => by
    rcases mem_cons.mp hx with rfl | hx'
    · exact .inr (hp.symm.trans hy)
    · rcases Chain.prev_mem zs hc hx' hy with h1 | h1
      · exact .inl (mem_cons_of_mem _ h1)
      · cases h1
        exact .inl mem_cons_self

/-- Prepend the node `x` to the list headed by `hd`. -/
def push (h : ν → Links ν) (hd : Option ν) (x : ν) : (ν → Links ν) × Option ν :=
  let h₁ := update h x ⟨none, hd⟩
  match hd with
  | some y => (update h₁ y ⟨some x, (h₁ y).next⟩, some x)
  | none => (h₁, some x)

lemma push_frame {h : ν → Links ν} {hd : Option ν} {x z : ν} (hzx : z ≠ x)
    (hz : hd ≠ some z) : (push h hd x).1 z = h z := by
  unfold push
  cases hd with
  | none => simp [Function.update_of_ne hzx]
  | some y =>
    have hzy : z ≠ y := fun e => hz (by rw [e])
    simp [Function.update_of_ne hzx, Function.update_of_ne hzy]

/-- **Prepending a fresh node** puts it in front of the list. -/
theorem push_isList {h : ν → Links ν} {hd : Option ν} {l : List ν} {x : ν} (hl : IsList h hd l) (hx : x ∉ l) :
    IsList (push h hd x).1 (push h hd x).2 (x :: l) := by
  refine ⟨?_, nodup_cons.mpr ⟨hx, hl.nodup⟩⟩
  cases l with
  | nil =>
    have hhd : hd = none := hl.chain
    subst hhd
    exact ⟨rfl, by simp [push], by simp [push, Chain]⟩
  | cons y ys =>
    obtain ⟨hhd, hp, hc⟩ := hl.chain
    subst hhd
    have hxy : x ≠ y := fun e => hx (by rw [e]; exact mem_cons_self)
    have hyys : y ∉ ys := (nodup_cons.mp hl.nodup).1
    refine ⟨rfl, by simp [push, Function.update_of_ne hxy], ?_, ?_, ?_⟩
    · simp [push, Function.update_of_ne hxy]
    · simp [push]
    · have hnext : ((push h (some y) x).1 y).next = (h y).next := by
        simp [push, Function.update_of_ne hxy.symm]
      rw [hnext]
      refine Chain.congr ys (fun z hz => ?_) hc
      apply push_frame
      · rintro rfl
        exact hx (mem_cons_of_mem _ hz)
      · intro e
        cases e
        exact hyys hz

/-! ## Splicing a node out -/

/-- Write the `next` pointer of `p`, if there is a `p`. -/
def setNext (h : ν → Links ν) (p n : Option ν) : ν → Links ν :=
  match p with
  | some y => update h y ⟨(h y).prev, n⟩
  | none => h

/-- Write the `prev` pointer of `n`, if there is an `n`. -/
def setPrev (h : ν → Links ν) (n p : Option ν) : ν → Links ν :=
  match n with
  | some y => update h y ⟨p, (h y).next⟩
  | none => h

/-- Take the node `x` out of the list headed by `hd`: its neighbours are joined, and the head
pointer moves on when `x` had no predecessor. -/
def unlink (h : ν → Links ν) (hd : Option ν) (x : ν) : (ν → Links ν) × Option ν :=
  (setPrev (setNext h (h x).prev (h x).next) (h x).next (h x).prev,
    if (h x).prev = none then (h x).next else hd)

@[simp] lemma setNext_prev (h : ν → Links ν) (p n : Option ν) (z : ν) :
    (setNext h p n z).prev = (h z).prev := by
  cases p with
  | none => rfl
  | some y => by_cases e : z = y <;> simp [setNext, e]

@[simp] lemma setPrev_next (h : ν → Links ν) (n p : Option ν) (z : ν) :
    (setPrev h n p z).next = (h z).next := by
  cases n with
  | none => rfl
  | some y => by_cases e : z = y <;> simp [setPrev, e]

lemma setNext_next (h : ν → Links ν) (p n : Option ν) (z : ν) :
    (setNext h p n z).next = if p = some z then n else (h z).next := by
  cases p with
  | none => rfl
  | some y =>
    by_cases e : z = y
    · simp [setNext, e]
    · simp [setNext, Function.update_of_ne e, Ne.symm e]

lemma setPrev_prev (h : ν → Links ν) (n p : Option ν) (z : ν) :
    (setPrev h n p z).prev = if n = some z then p else (h z).prev := by
  cases n with
  | none => rfl
  | some y =>
    by_cases e : z = y
    · simp [setPrev, e]
    · simp [setPrev, Function.update_of_ne e, Ne.symm e]

lemma unlink_next (h : ν → Links ν) (hd : Option ν) (x z : ν) :
    ((unlink h hd x).1 z).next = if (h x).prev = some z then (h x).next else (h z).next := by
  simp [unlink, setNext_next]

lemma unlink_prev (h : ν → Links ν) (hd : Option ν) (x z : ν) :
    ((unlink h hd x).1 z).prev = if (h x).next = some z then (h x).prev else (h z).prev := by
  simp [unlink, setPrev_prev]

lemma unlink_frame {h : ν → Links ν} {hd : Option ν} {x z : ν} (hp : (h x).prev ≠ some z)
    (hn : (h x).next ≠ some z) : (unlink h hd x).1 z = h z := by
  have h1 := unlink_next h hd x z
  have h2 := unlink_prev h hd x z
  rw [if_neg hp] at h1
  rw [if_neg hn] at h2
  cases hz : h z with
  | mk p n =>
    cases hz' : (unlink h hd x).1 z with
    | mk p' n' => simp_all

lemma Chain.unlink {h : ν → Links ν} {x : ν} (hd₀ : Option ν) :
    (l : List ν) → ∀ {p hd}, Chain h p hd l → l.Nodup → (∀ y, p = some y → y ∉ l) → x ∈ l →
      Chain (unlink h hd₀ x).1 p (if hd = some x then (h x).next else hd) (l.erase x)
  | [], _, _, _, _, _, hx => absurd hx not_mem_nil
  | y :: ys, p, hd, ⟨hhd, hp, hc⟩, hnd, hpl, hx => by
    obtain ⟨hyys, hnys⟩ := nodup_cons.mp hnd
    subst hhd
    by_cases hyx : y = x
    · subst hyx
      rw [List.erase_cons_head, if_pos rfl]
      cases ys with
      | nil => exact hc
      | cons n zs =>
        obtain ⟨hn, _, hcz⟩ := hc
        have hnzs : n ∉ zs := (nodup_cons.mp hnys).1
        have hyn : y ≠ n := fun e => hyys (by rw [e]; exact mem_cons_self)
        have hpn : p ≠ some n := fun e => hpl n e (by simp)
        refine ⟨hn, ?_, ?_⟩
        · rw [unlink_prev, if_pos hn, hp]
        · rw [unlink_next, hp, if_neg hpn]
          refine Chain.congr zs (fun z hz => unlink_frame ?_ ?_) hcz
          · rw [hp]
            intro e
            exact hpl z e (by simp [hz])
          · rw [hn]
            intro e
            cases e
            exact hnzs hz
    · have hxys : x ∈ ys := by
        rcases mem_cons.mp hx with e | e
        · exact absurd e.symm hyx
        · exact e
      rw [List.erase_cons_tail (by simpa using hyx), if_neg (by simpa using hyx)]
      have ih := Chain.unlink hd₀ ys hc hnys (fun z e => by cases e; exact hyys) hxys
      have hnx : (h x).next ≠ some y := fun e =>
        hyys (Chain.next_mem ys hc hxys e)
      refine ⟨rfl, by rw [unlink_prev, if_neg hnx, hp], ?_⟩
      rw [unlink_next]
      -- `y` precedes `x` exactly when the tail starts with `x`
      have hiff : (h x).prev = some y ↔ (h y).next = some x := by
        cases ys with
        | nil => exact absurd hxys not_mem_nil
        | cons w ws =>
          obtain ⟨hw, hwp, hcw⟩ := hc
          by_cases hwx : w = x
          · subst hwx
            simp [hw, hwp]
          · have hxws : x ∈ ws := by
              rcases mem_cons.mp hxys with e | e
              · exact absurd e.symm hwx
              · exact e
            constructor
            · intro e
              rcases Chain.prev_mem ws hcw hxws e with h1 | h1
              · exact absurd (mem_cons_of_mem _ h1) hyys
              · cases h1
                exact absurd mem_cons_self hyys
            · intro e
              rw [hw] at e
              cases e
              exact absurd rfl hwx
      by_cases hcase : (h y).next = some x
      · rw [if_pos (hiff.mpr hcase)]
        rwa [if_pos hcase] at ih
      · rw [if_neg (fun e => hcase (hiff.mp e))]
        rwa [if_neg hcase] at ih

omit [DecidableEq ν] in
lemma IsList.prev_eq_none_iff {h : ν → Links ν} {hd : Option ν} {l : List ν} {x : ν}
    (hl : IsList h hd l) (hx : x ∈ l) : (h x).prev = none ↔ hd = some x := by
  have key : ∀ (l : List ν) {p hd : Option ν}, Chain h p hd l → x ∈ l →
      hd = some x ∨ ∃ y, (h x).prev = some y := by
    intro l
    induction l with
    | nil => intro p hd _ hx; exact absurd hx not_mem_nil
    | cons y ys ih =>
      rintro p hd ⟨hhd, hp, hc⟩ hx
      rcases mem_cons.mp hx with rfl | hx'
      · exact .inl hhd
      · rcases ih hc hx' with h1 | h1
        · cases ys with
          | nil => exact absurd hx' not_mem_nil
          | cons w ws =>
            obtain ⟨hw, hwp, _⟩ := hc
            rw [hw] at h1
            cases h1
            exact .inr ⟨y, hwp⟩
        · exact .inr h1
  constructor
  · intro hn
    rcases key l hl.chain hx with h1 | ⟨y, h1⟩
    · exact h1
    · rw [hn] at h1
      cases h1
  · intro hhd
    cases l with
    | nil => exact absurd hx not_mem_nil
    | cons y ys =>
      obtain ⟨h1, h2, _⟩ := hl.chain
      rw [hhd] at h1
      cases h1
      exact h2

/-- **Splicing a node out** of a list removes exactly that node. -/
theorem unlink_isList {h : ν → Links ν} {hd : Option ν} {l : List ν} {x : ν} (hl : IsList h hd l) (hx : x ∈ l) :
    IsList (unlink h hd x).1 (unlink h hd x).2 (l.erase x) := by
  refine ⟨?_, hl.nodup.erase x⟩
  have hc := Chain.unlink hd l hl.chain hl.nodup (by simp) hx
  have hhd : (unlink h hd x).2 = if hd = some x then (h x).next else hd := by
    unfold unlink
    by_cases e : hd = some x
    · rw [if_pos e, if_pos ((hl.prev_eq_none_iff hx).mpr e)]
    · rw [if_neg e, if_neg (fun e' => e ((hl.prev_eq_none_iff hx).mp e'))]
  rw [hhd]
  exact hc

lemma unlink_frame_of_not_mem {h : ν → Links ν} {hd : Option ν} {l : List ν} {x z : ν}
    (hl : IsList h hd l) (hx : x ∈ l) (hz : z ∉ l) : (unlink h hd x).1 z = h z := by
  apply unlink_frame
  · intro e
    rcases Chain.prev_mem l hl.chain hx e with h1 | h1
    · exact hz h1
    · cases h1
  · exact fun e => hz (Chain.next_mem l hl.chain hx e)

end Nefarious.Lib.Dll
