import Mathlib.Data.List.Nodup
import Mathlib.Logic.Function.Basic

/-!
# Hash chains

A table of singly linked lists whose nodes carry the link: `head` leads to the first node of a bucket and `next`
from a node to the one behind it.
-/

set_option linter.unusedSectionVars false

namespace Nefarious.Lib.Chains

open List (append_assoc mem_cons mem_cons_self nodup_cons)
open Function (update update_eq_self update_of_ne update_self)

variable {β ν : Type} [DecidableEq β] [DecidableEq ν]

/-- From `hd` on, `next` leads through the nodes. -/
def Path (next : ν → Option ν) : Option ν → List ν → Prop
  | hd, [] => hd = none
  | hd, x :: xs => hd = some x ∧ Path next (next x) xs

section Path

variable {next next' : ν → Option ν}

lemma Path.congr : (l : List ν) → ∀ {hd}, (∀ x ∈ l, next' x = next x) → Path next hd l → Path next' hd l
  | [], _, _, h => h
  | x :: xs, _, he, ⟨hhd, h⟩ => by
    refine ⟨hhd, ?_⟩
    rw [he x mem_cons_self]
    exact Path.congr xs (fun y hy => he y (List.mem_cons_of_mem _ hy)) h

lemma Path.head_eq {hd : Option ν} {l : List ν} (h : Path next hd l) : hd = l.head? := by
  cases l with
  | nil => exact h
  | cons x xs => exact h.1

lemma Path.cut {a c : ν} : (l₁ : List ν) → ∀ {l₂ : List ν} {hd : Option ν},
    Path next hd (l₁ ++ a :: c :: l₂) → (l₁ ++ a :: c :: l₂).Nodup →
    Path (update next a (next c)) hd (l₁ ++ a :: l₂)
  | [], l₂, hd, ⟨hhd, hac, h⟩, hn => by
    refine ⟨hhd, ?_⟩
    rw [update_self]
    refine Path.congr l₂ (fun x hx => update_of_ne ?_ ..) h
    rintro rfl
    exact (nodup_cons.mp hn).1 (List.mem_cons_of_mem _ hx)
  | b :: l₁, l₂, hd, ⟨hhd, h⟩, hn => by
    rw [List.cons_append, nodup_cons] at hn
    have hba : b ≠ a := fun e => hn.1 (e ▸ List.mem_append_right _ mem_cons_self)
    refine ⟨hhd, ?_⟩
    rw [update_of_ne hba]
    exact Path.cut l₁ h hn.2

lemma Path.relink {q : ν} {v : Option ν} {l₃ : List ν} (hv : Path next v l₃) (hq : q ∉ l₃) :
    (l₁ : List ν) → ∀ {l₂ : List ν} {hd : Option ν}, Path next hd (l₁ ++ q :: l₂) → q ∉ l₁ →
    Path (update next q v) hd (l₁ ++ q :: l₃)
  | [], l₂, hd, ⟨hhd, _⟩, _ => by
    refine ⟨hhd, ?_⟩
    rw [update_self]
    exact hv.congr _ fun x hx => update_of_ne (fun e : x = q => hq (e ▸ hx)) ..
  | b :: l₁, l₂, hd, ⟨hhd, h⟩, hn => by
    rw [mem_cons, not_or] at hn
    refine ⟨hhd, ?_⟩
    rw [update_of_ne (Ne.symm hn.1)]
    exact Path.relink hv hq l₁ h hn.2

/-- The nodes from one on, so many at most. -/
def nodes (next : ν → Option ν) : ℕ → Option ν → Option (List ν)
  | _, none => some []
  | 0, some _ => none
  | n + 1, some x => (nodes next n (next x)).map (x :: ·)

lemma Path.nodes_eq : (l : List ν) → ∀ {n : ℕ} {hd : Option ν}, Path next hd l → l.length ≤ n →
    nodes next n hd = some l
  | [], n, hd, h, _ => by
    obtain rfl : hd = none := h
    cases n <;> rfl
  | x :: l, 0, _, _, hn => absurd hn (Nat.not_succ_le_zero _)
  | x :: l, n + 1, hd, ⟨hhd, h⟩, hn => by
    subst hhd
    rw [nodes, Path.nodes_eq l h (Nat.le_of_succ_le_succ hn)]
    rfl

/-- The links, once the one behind a node has been written. -/
def linkNext (next : ν → Option ν) (prev v : Option ν) : ν → Option ν :=
  match prev with
  | some q => update next q v
  | none => next

/-- The head, once the link behind a node has been written; behind none it is the head. -/
def linkHead (hd prev v : Option ν) : Option ν :=
  match prev with
  | some _ => hd
  | none => v

lemma Path.link {l₁ l₂ l₃ : List ν} {hd v : Option ν} (h : Path next hd (l₁ ++ l₂)) (hv : Path next v l₃)
    (hn : (l₁ ++ l₃).Nodup) : Path (linkNext next l₁.getLast? v) (linkHead hd l₁.getLast? v) (l₁ ++ l₃) := by
  cases hlast : l₁.getLast? with
  | none =>
    obtain rfl := List.getLast?_eq_none_iff.mp hlast
    exact hv
  | some q =>
    obtain ⟨l, rfl⟩ := List.getLast?_eq_some_iff.mp hlast
    rw [append_assoc, List.nodup_append] at hn
    have hql : q ∉ l := fun hmem => hn.2.2 q hmem q (by simp) rfl
    have hq : q ∉ l₃ := (nodup_cons.mp hn.2.1).1
    rw [append_assoc] at h ⊢
    exact Path.relink hv hq l h hql

lemma Path.link_eq {l₂ : List ν} : (l₁ : List ν) → ∀ {hd : Option ν}, Path next hd (l₁ ++ l₂) →
    l₁.getLast?.elim hd next = l₂.head?
  | [], _, h => h.head_eq
  | [_], _, h => h.2.head_eq
  | _ :: y :: l₁, _, h => by
    have hrest := Path.link_eq (y :: l₁) h.2
    rw [List.getLast?_cons_cons]
    cases hlast : (y :: l₁).getLast? with
    | none => exact absurd (List.getLast?_eq_none_iff.mp hlast) (List.cons_ne_nil y l₁)
    | some q =>
      rw [hlast] at hrest
      exact hrest

lemma Path.drop {l₂ : List ν} : (l₁ : List ν) → ∀ {hd : Option ν}, Path next hd (l₁ ++ l₂) →
    ∃ hd', Path next hd' l₂
  | [], hd, h => ⟨hd, h⟩
  | _ :: l₁, _, h => Path.drop l₁ h.2

end Path

/-- The node whose successor is looked for, on the way from `hd` on; `none` when the bound is
reached. -/
def findPrev (next : ν → Option ν) (hit : ν → Bool) : ℕ → Option ν → Option (Option ν)
  | 0, _ => none
  | _ + 1, none => some none
  | n + 1, some x => if (next x).any hit then some (some x) else findPrev next hit n (next x)

lemma findPrev_spec {next : ν → Option ν} (hit : ν → Bool) : (rest : List ν) → ∀ {x : ν} {n : ℕ},
    Path next (some x) (x :: rest) → rest.length + 1 < n →
    (findPrev next hit n (some x) = some none ∧ ∀ y ∈ rest, ¬hit y = true) ∨
    ∃ l₁ a c l₂, findPrev next hit n (some x) = some (some a) ∧ hit c = true ∧ next a = some c ∧
      x :: rest = l₁ ++ a :: c :: l₂
  | [], x, n, h, hn => by
    obtain ⟨n, rfl⟩ : ∃ m, n = m + 2 := ⟨n - 2, by simp at hn; omega⟩
    have hnone : next x = none := h.2
    left
    rw [findPrev, hnone, Option.any_none, if_neg Bool.false_ne_true, findPrev]
    exact ⟨rfl, fun y hy => absurd hy List.not_mem_nil⟩
  | y :: rest, x, n, h, hn => by
    obtain ⟨n, rfl⟩ : ∃ m, n = m + 1 := ⟨n - 1, by omega⟩
    have hy : next x = some y := h.2.1
    rw [findPrev, hy, Option.any_some]
    cases hhit : hit y with
    | true => exact .inr ⟨[], x, y, rest, by rw [if_pos rfl], hhit, hy, rfl⟩
    | false =>
      rw [if_neg Bool.false_ne_true]
      have hpath : Path next (some y) (y :: rest) := by
        have := h.2
        rwa [hy] at this
      rw [List.length_cons] at hn
      rcases findPrev_spec hit rest hpath (show rest.length + 1 < n by omega) with
        ⟨hr, hno⟩ | ⟨l₁, a, c, l₂, hr, hc, hac, hl⟩
      · refine .inl ⟨hr, fun z hz => ?_⟩
        rcases mem_cons.mp hz with rfl | hz
        · rw [hhit]
          exact Bool.false_ne_true
        · exact hno z hz
      · exact .inr ⟨x :: l₁, a, c, l₂, hr, hc, hac, by rw [hl]; rfl⟩

/-- The pointers of a table. -/
structure Table (β ν : Type) where
  head : β → Option ν
  next : ν → Option ν

def Table.push (t : Table β ν) (b : β) (x : ν) : Table β ν :=
  ⟨update t.head b (some x), update t.next x (t.head b)⟩

/-- Take a node out of a bucket, and link it to itself; the result says whether it was there. -/
def Table.remove (t : Table β ν) (n : ℕ) (b : β) (x : ν) : Option (Table β ν × Bool) :=
  if t.head b = some x then
    some (⟨update t.head b (t.next x), update t.next x (some x)⟩, true)
  else
    match findPrev t.next (fun y => y = x) n (t.head b) with
    | some (some a) =>
      let next := update t.next a ((t.next a).bind t.next)
      some (⟨t.head, update next x (some x)⟩, true)
    | some none => some (t, false)
    | none => none

/-- Look for a node in a bucket, and move it to the front. -/
def Table.seek (t : Table β ν) (n : ℕ) (b : β) (hit : ν → Bool) : Option (Table β ν × Option ν) :=
  match t.head b with
  | none => some (t, none)
  | some x =>
    if hit x then some (t, some x)
    else
      match findPrev t.next hit n (some x) with
      | some (some a) =>
        match t.next a with
        | some c =>
          let next := update t.next a (t.next c)
          some (⟨update t.head b (some c), update next c (t.head b)⟩, some c)
        | none => none
      | some none => some (t, none)
      | none => none

/-- The table holds these lists; `place` is the bucket of a node. -/
structure Table.Holds (t : Table β ν) (place : ν → β) (lists : β → List ν) : Prop where
  path : ∀ b, Path t.next (t.head b) (lists b)
  placed : ∀ b, ∀ x ∈ lists b, place x = b
  nodup : ∀ b, (lists b).Nodup

section Holds

variable {t : Table β ν} {place : ν → β} {lists : β → List ν}

lemma Table.Holds.bucket {t' : Table β ν} {b : β} {l : List ν} (h : t.Holds place lists)
    (hhead : ∀ b', b' ≠ b → t'.head b' = t.head b')
    (hnext : ∀ b', b' ≠ b → ∀ y ∈ lists b', t'.next y = t.next y) (hpath : Path t'.next (t'.head b) l)
    (hplaced : ∀ x ∈ l, place x = b) (hnodup : l.Nodup) : t'.Holds place (update lists b l) := by
  refine ⟨fun b' => ?_, fun b' => ?_, fun b' => ?_⟩
  · by_cases e : b' = b
    · subst e
      rw [update_self]
      exact hpath
    · rw [update_of_ne e, hhead b' e]
      exact (h.path b').congr _ (hnext b' e)
  · by_cases e : b' = b
    · subst e
      rw [update_self]
      exact hplaced
    · rw [update_of_ne e]
      exact h.placed b'
  · by_cases e : b' = b
    · subst e
      rw [update_self]
      exact hnodup
    · rw [update_of_ne e]
      exact h.nodup b'

lemma Table.Holds.ne_of_place {x y : ν} {b b' : β} (h : t.Holds place lists) (hx : place x = b)
    (hb : b' ≠ b) (hy : y ∈ lists b') : y ≠ x := by
  rintro rfl
  exact hb ((h.placed b' y hy).symm.trans hx)

lemma Table.Holds.push {x : ν} (h : t.Holds place lists) (hx : x ∉ lists (place x)) :
    (t.push (place x) x).Holds place (update lists (place x) (x :: lists (place x))) := by
  refine h.bucket (fun b' hb => update_of_ne hb ..)
    (fun b' hb y hy => update_of_ne (h.ne_of_place rfl hb hy) ..) ?_ ?_
    (nodup_cons.mpr ⟨hx, h.nodup _⟩)
  · simp only [Table.push, update_self]
    refine ⟨rfl, ?_⟩
    rw [update_self]
    exact (h.path _).congr _ fun y hy => update_of_ne (ne_of_mem_of_not_mem hy hx) ..
  · intro y hy
    rcases mem_cons.mp hy with rfl | hy
    · rfl
    · exact h.placed _ y hy

lemma Table.Holds.replace {x : ν} (h : t.Holds place lists) (place' : ν → β)
    (hx : x ∉ lists (place x)) (hplace : ∀ y, y ≠ x → place' y = place y) : t.Holds place' lists := by
  refine ⟨h.path, fun b y hy => ?_, h.nodup⟩
  have hb := h.placed b y hy
  have hyx : y ≠ x := by
    rintro rfl
    exact hx (by rwa [hb])
  rw [hplace y hyx, hb]

lemma erase_middle {a c : ν} {l₁ l₂ : List ν} (h : (l₁ ++ a :: c :: l₂).Nodup) :
    (l₁ ++ a :: c :: l₂).erase c = l₁ ++ a :: l₂ := by
  have hmove : l₁ ++ a :: c :: l₂ = (l₁ ++ [a]) ++ c :: l₂ := by simp
  rw [hmove] at h ⊢
  have hc : c ∉ l₁ ++ [a] := fun hmem =>
    (List.nodup_append.mp h).2.2 c hmem c mem_cons_self rfl
  rw [List.erase_append_right _ hc, List.erase_cons_head, append_assoc]
  rfl

/-- **A node is taken out of its bucket**, or the table says that it is not there. -/
theorem Table.Holds.remove {n : ℕ} (h : t.Holds place lists) (x : ν) (hn : (lists (place x)).length < n) : ∃ t',
    t.remove n (place x) x = some (t', decide (x ∈ lists (place x))) ∧
    t'.Holds place (update lists (place x) ((lists (place x)).erase x)) := by
  have hpath := h.path (place x)
  have hnodup := h.nodup (place x)
  cases hl : lists (place x) with
  | nil =>
    rw [hl] at hpath
    have hhead : t.head (place x) = none := hpath
    obtain ⟨n, rfl⟩ : ∃ m, n = m + 1 := ⟨n - 1, by omega⟩
    refine ⟨t, ?_, ?_⟩
    · rw [Table.remove, if_neg (by simp [hhead]), hhead, findPrev]
      simp
    · rw [List.erase_nil, ← hl, update_eq_self]
      exact h
  | cons y rest =>
    rw [hl] at hpath hnodup hn
    have hhead : t.head (place x) = some y := hpath.1
    by_cases hyx : y = x
    · subst hyx
      have hy := (nodup_cons.mp hnodup).1
      refine ⟨⟨update t.head (place y) (t.next y), update t.next y (some y)⟩,
        by rw [Table.remove, if_pos hhead, decide_eq_true mem_cons_self], ?_⟩
      rw [List.erase_cons_head]
      refine h.bucket (fun b' hb => update_of_ne hb ..)
        (fun b' hb z hz => update_of_ne (h.ne_of_place rfl hb hz) ..) ?_ ?_
        (nodup_cons.mp hnodup).2
      · simp only [update_self]
        exact hpath.2.congr _ fun z hz => update_of_ne (ne_of_mem_of_not_mem hz hy) ..
      · exact fun z hz => h.placed _ z (hl ▸ List.mem_cons_of_mem _ hz)
    · have hne : t.head (place x) ≠ some x := fun e => hyx (Option.some.inj (hhead.symm.trans e))
      rw [Table.remove, if_neg hne, hhead]
      rw [hhead] at hpath
      rcases findPrev_spec (fun z => z = x) rest hpath (by simpa using hn) with
        ⟨hr, hno⟩ | ⟨l₁, a, c, l₂, hr, hc, hac, hsplit⟩
      · have hx : x ∉ y :: rest := by
          intro hmem
          rcases mem_cons.mp hmem with e | hmem
          · exact hyx e.symm
          · exact hno x hmem (by simp)
        refine ⟨t, ?_, ?_⟩
        · rw [hr, decide_eq_false hx]
        · rw [List.erase_of_not_mem hx, ← hl, update_eq_self]
          exact h
      · obtain rfl : c = x := of_decide_eq_true hc
        have hmem : c ∈ y :: rest := by
          rw [hsplit]
          simp
        refine ⟨⟨t.head, update (update t.next a ((t.next a).bind t.next)) c
          (some c)⟩, by rw [hr, decide_eq_true hmem], ?_⟩
        have hsub : ∀ z ∈ l₁ ++ a :: l₂, z ∈ y :: rest := by
          intro z hz
          rw [hsplit]
          simp only [List.mem_append, mem_cons] at hz ⊢
          tauto
        rw [hsplit] at hpath hnodup ⊢
        have hout : c ∉ l₁ ++ a :: l₂ := by
          rw [← erase_middle hnodup]
          exact hnodup.not_mem_erase
        rw [erase_middle hnodup]
        have ha : place a = place c := h.placed _ a (hl ▸ hsub a (by simp))
        refine h.bucket (fun _ _ => rfl) (fun b' hb z hz => ?_) ?_
          (fun z hz => h.placed _ z (hl ▸ hsub z hz)) (erase_middle hnodup ▸ hnodup.erase c)
        · simp only [update_of_ne (h.ne_of_place rfl hb hz), update_of_ne (h.ne_of_place ha hb hz)]
        · rw [hhead, hac, Option.bind_some]
          exact (hpath.cut l₁ hnodup).congr _ fun z hz =>
            update_of_ne (ne_of_mem_of_not_mem hz hout) ..

/-- **What is looked for is moved to the front of its bucket**; the table is as it was when it is not
there. -/
theorem Table.Holds.seek {n : ℕ} {b : β} (h : t.Holds place lists) (hit : ν → Bool)
    (hn : (lists b).length < n) : ∃ t' r, t.seek n b hit = some (t', r) ∧
    ((r = none ∧ t' = t ∧ ∀ y ∈ lists b, ¬hit y = true) ∨ ∃ c, r = some c ∧ c ∈ lists b ∧ hit c = true ∧
        t'.Holds place (update lists b (c :: (lists b).erase c))) := by
  have hpath := h.path b
  have hnodup := h.nodup b
  cases hl : lists b with
  | nil =>
    rw [hl] at hpath
    have hhead : t.head b = none := hpath
    refine ⟨t, none, by rw [Table.seek, hhead], Or.inl ⟨rfl, rfl, fun y hy => ?_⟩⟩
    exact absurd hy List.not_mem_nil
  | cons x rest =>
    rw [hl] at hpath hnodup hn
    have hhead : t.head b = some x := hpath.1
    rw [Table.seek, hhead]
    simp only
    by_cases hx : hit x = true
    · refine ⟨t, some x, by rw [if_pos hx], Or.inr ⟨x, rfl, mem_cons_self, hx, ?_⟩⟩
      rw [List.erase_cons_head, ← hl, update_eq_self]
      exact h
    · rw [if_neg hx]
      rw [hhead] at hpath
      rcases findPrev_spec hit rest hpath (by simpa using hn) with
        ⟨hr, hno⟩ | ⟨l₁, a, c, l₂, hr, hc, hac, hsplit⟩
      · refine ⟨t, none, by rw [hr], Or.inl ⟨rfl, rfl, fun y hy => ?_⟩⟩
        rcases mem_cons.mp hy with rfl | hy
        · exact hx
        · exact hno y hy
      · have hmem : c ∈ x :: rest := by
          rw [hsplit]
          simp
        refine ⟨⟨update t.head b (some c), update (update t.next a (t.next c)) c (some x)⟩, some c,
          by rw [hr]; simp only [hac], Or.inr ⟨c, rfl, hmem, hc, ?_⟩⟩
        have hsub : ∀ z ∈ l₁ ++ a :: l₂, z ∈ x :: rest := by
          intro z hz
          rw [hsplit]
          simp only [List.mem_append, mem_cons] at hz ⊢
          tauto
        have hplace : ∀ z ∈ x :: rest, place z = b := fun z hz => h.placed b z (hl ▸ hz)
        have hca : place c = b := hplace c hmem
        have haa : place a = b := hplace a (hsub a (by simp))
        rw [hsplit] at hpath hnodup ⊢
        have hout : c ∉ l₁ ++ a :: l₂ := by
          rw [← erase_middle hnodup]
          exact hnodup.not_mem_erase
        rw [erase_middle hnodup]
        refine h.bucket (fun b' hb => update_of_ne hb ..) (fun b' hb z hz => ?_) ?_ ?_
          (nodup_cons.mpr ⟨hout, erase_middle hnodup ▸ hnodup.erase c⟩)
        · simp only [update_of_ne (h.ne_of_place hca hb hz), update_of_ne (h.ne_of_place haa hb hz)]
        · simp only [update_self]
          refine ⟨rfl, ?_⟩
          rw [update_self]
          exact (hpath.cut l₁ hnodup).congr _ fun z hz =>
            update_of_ne (ne_of_mem_of_not_mem hz hout) ..
        · intro z hz
          rcases mem_cons.mp hz with rfl | hz
          · exact hca
          · exact hplace z (hsub z hz)

end Holds

end Nefarious.Lib.Chains
