import Mathlib.Data.List.Find
import Mathlib.Data.List.Nodup
import Mathlib.Logic.Function.Basic

/-!
# Tables of buckets

A hash table as its buckets: each a list, in the order in which a search goes through it.
-/

set_option linter.unusedSectionVars false

namespace Nefarious.Lib.Buckets

open List (map_cons mem_cons mem_cons_of_mem mem_cons_self mem_filterMap)
open Function (update update_of_ne update_self)

variable {α β κ : Type*} [DecidableEq β] [DecidableEq κ] {hash : κ → β} {key : α → κ}
  {t : β → List α}

/-- The elements stand in the buckets of their keys, one for each key. -/
structure Keyed (hash : κ → β) (key : α → κ) (t : β → List α) : Prop where
  placed : ∀ b, ∀ x ∈ t b, hash (key x) = b
  nodup : ∀ b, ((t b).map key).Nodup

def lookup (hash : κ → β) (key : α → κ) (t : β → List α) (k : κ) : Option α :=
  (t (hash k)).find? (fun x => key x = k)

/-- Put an element in front of its bucket. -/
def insert (hash : κ → β) (key : α → κ) (t : β → List α) (x : α) : β → List α :=
  update t (hash (key x)) (x :: t (hash (key x)))

/-- Change the first element of a list that has the property. -/
def modifyFirst (p : α → Bool) (f : α → α) : List α → List α
  | [] => []
  | x :: l => if p x then f x :: l else x :: modifyFirst p f l

lemma mem_modifyFirst {p : α → Bool} {f : α → α} {y : α} : {l : List α} →
    y ∈ modifyFirst p f l → y ∈ l ∨ ∃ x ∈ l, p x ∧ y = f x
  | [], h => absurd h List.not_mem_nil
  | x :: l, h => by
    rw [modifyFirst] at h
    split at h
    case isTrue hp =>
      rcases mem_cons.mp h with rfl | h
      · exact .inr ⟨x, mem_cons_self, hp, rfl⟩
      · exact .inl (mem_cons_of_mem _ h)
    case isFalse =>
      rcases mem_cons.mp h with rfl | h
      · exact .inl mem_cons_self
      · rcases mem_modifyFirst h with h | ⟨z, hz, hp, rfl⟩
        · exact .inl (mem_cons_of_mem _ h)
        · exact .inr ⟨z, mem_cons_of_mem _ hz, hp, rfl⟩

lemma modifyFirst_congr {p q : α → Bool} {f : α → α} : {l : List α} → (∀ x ∈ l, p x = q x) →
    modifyFirst p f l = modifyFirst q f l
  | [], _ => rfl
  | x :: l, h => by
    rw [modifyFirst, modifyFirst, h x mem_cons_self, modifyFirst_congr fun y hy => h y (mem_cons_of_mem _ hy)]

lemma map_modifyFirst {p : α → Bool} {f : α → α} (hf : ∀ x, p x = true → key (f x) = key x) :
    (l : List α) → (modifyFirst p f l).map key = l.map key
  | [] => rfl
  | x :: l => by
    rw [modifyFirst]
    split
    case isTrue hp => rw [map_cons, hf x hp, map_cons]
    case isFalse => rw [map_cons, map_modifyFirst hf l, map_cons]

lemma find_modifyFirst {p : α → Bool} {f : α → α} (hf : ∀ x, p x = true → p (f x) = true) :
    (l : List α) → (modifyFirst p f l).find? p = (l.find? p).map f
  | [] => rfl
  | x :: l => by
    rw [modifyFirst]
    split
    case isTrue hp => rw [List.find?_cons_of_pos (hf x hp), List.find?_cons_of_pos hp, Option.map_some]
    case isFalse hp => rw [List.find?_cons_of_neg hp, List.find?_cons_of_neg hp, find_modifyFirst hf l]

lemma find_modifyFirst_of_ne {p q : α → Bool} {f : α → α} (hp : ∀ x, p x = true → ¬q x = true)
    (hf : ∀ x, p x = true → ¬q (f x) = true) : (l : List α) → (modifyFirst p f l).find? q = l.find? q
  | [] => rfl
  | x :: l => by
    rw [modifyFirst]
    split
    case isTrue hx => rw [List.find?_cons_of_neg (hf x hx), List.find?_cons_of_neg (hp x hx)]
    case isFalse => rw [List.find?_cons, List.find?_cons, find_modifyFirst_of_ne hp hf l]

def alter (hash : κ → β) (key : α → κ) (t : β → List α) (k : κ) (f : α → α) : β → List α :=
  update t (hash k) (modifyFirst (fun x => key x = k) f (t (hash k)))

lemma lookup_eq_none {k : κ} : lookup hash key t k = none ↔ ∀ x ∈ t (hash k), key x ≠ k := by
  rw [lookup, List.find?_eq_none]
  simp

section Keyed

variable (h : Keyed hash key t)

include h

lemma Keyed.lookup_eq_some {k : κ} {x : α} : lookup hash key t k = some x ↔ x ∈ t (hash k) ∧ key x = k := by
  rw [lookup]
  constructor
  · intro hx
    exact ⟨List.mem_of_find?_eq_some hx, by simpa using List.find?_some hx⟩
  · rintro ⟨hx, hk⟩
    cases hy : (t (hash k)).find? (fun x => key x = k) with
    | none => exact absurd hk (by simpa using List.find?_eq_none.mp hy x hx)
    | some y =>
      have hyk : key y = k := by simpa using List.find?_some hy
      rw [List.inj_on_of_nodup_map (h.nodup (hash k)) (List.mem_of_find?_eq_some hy) hx (hyk.trans hk.symm)]

lemma Keyed.filter_eq (k : κ) : (t (hash k)).filter (fun x => key x = k) = (lookup hash key t k).toList := by
  have hl := h.nodup (hash k)
  rw [lookup]
  generalize t (hash k) = l at hl
  induction l with
  | nil => rfl
  | cons x l ih =>
    obtain ⟨hx, hl⟩ := List.nodup_cons.mp hl
    rw [List.filter_cons, List.find?_cons]
    by_cases hk : key x = k
    · have hrest : l.filter (fun x => key x = k) = [] := List.filter_eq_nil_iff.mpr fun y hy hyk =>
        hx (List.mem_map.mpr ⟨y, hy, (of_decide_eq_true hyk).trans hk.symm⟩)
      simp [hk, hrest]
    · simpa [hk] using ih hl

lemma Keyed.insert {x : α} (hx : lookup hash key t (key x) = none) :
    Keyed hash key (insert hash key t x) := by
  have hno := lookup_eq_none.mp hx
  constructor
  · intro b y hy
    rw [Buckets.insert] at hy
    by_cases e : b = hash (key x)
    · subst e
      rw [update_self] at hy
      rcases mem_cons.mp hy with rfl | hy
      · rfl
      · exact h.placed _ y hy
    · rw [update_of_ne e] at hy
      exact h.placed b y hy
  · intro b
    rw [Buckets.insert]
    by_cases e : b = hash (key x)
    · subst e
      rw [update_self, map_cons, List.nodup_cons]
      refine ⟨fun hmem => ?_, h.nodup _⟩
      obtain ⟨y, hy, e⟩ := List.mem_map.mp hmem
      exact hno y hy e
    · rw [update_of_ne e]
      exact h.nodup b

lemma Keyed.alter {k : κ} {f : α → α} (hf : ∀ x, key x = k → key (f x) = k) :
    Keyed hash key (alter hash key t k f) := by
  constructor
  · intro b y hy
    rw [Buckets.alter] at hy
    by_cases e : b = hash k
    · subst e
      rw [update_self] at hy
      rcases mem_modifyFirst hy with hy | ⟨x, hx, hk, rfl⟩
      · exact h.placed _ y hy
      · rw [hf x (of_decide_eq_true hk)]
    · rw [update_of_ne e] at hy
      exact h.placed b y hy
  · intro b
    rw [Buckets.alter]
    by_cases e : b = hash k
    · subst e
      have hkey : ∀ x, decide (key x = k) = true → key (f x) = key x := fun x hx =>
        (hf x (of_decide_eq_true hx)).trans (of_decide_eq_true hx).symm
      rw [update_self, map_modifyFirst hkey]
      exact h.nodup _
    · rw [update_of_ne e]
      exact h.nodup b

lemma Keyed.filterMap {g : α → Option α} (hg : ∀ x y, g x = some y → key y = key x) :
    Keyed hash key (fun b => (t b).filterMap g) := by
  constructor
  · intro b y hy
    obtain ⟨x, hx, e⟩ := mem_filterMap.mp hy
    rw [hg x y e]
    exact h.placed b x hx
  · intro b
    have hsub : ∀ l : List α, ((l.filterMap g).map key).Sublist (l.map key) := by
      intro l
      induction l with
      | nil => exact List.Sublist.slnil
      | cons x l ih =>
        cases e : g x with
        | none =>
          rw [List.filterMap_cons_none e, map_cons]
          exact ih.cons _
        | some y =>
          rw [List.filterMap_cons_some e, map_cons, map_cons, hg x y e]
          exact ih.cons_cons _
    exact (h.nodup b).sublist (hsub (t b))

lemma Keyed.lookup_filterMap {g : α → Option α} (hg : ∀ x y, g x = some y → key y = key x) (k : κ) :
    lookup hash key (fun b => (t b).filterMap g) k = (lookup hash key t k).bind g := by
  have h' := h.filterMap hg
  cases hx : lookup hash key t k with
  | none =>
    rw [Option.bind_none, lookup_eq_none]
    intro y hy
    obtain ⟨x, hx', e⟩ := mem_filterMap.mp hy
    rw [hg x y e]
    exact lookup_eq_none.mp hx x hx'
  | some x =>
    obtain ⟨hmem, rfl⟩ := h.lookup_eq_some.mp hx
    rw [Option.bind_some]
    cases e : g x with
    | some y =>
      rw [h'.lookup_eq_some]
      exact ⟨mem_filterMap.mpr ⟨x, hmem, e⟩, hg x y e⟩
    | none =>
      rw [lookup_eq_none]
      intro y hy hk
      obtain ⟨z, hz, e'⟩ := mem_filterMap.mp hy
      rw [hg z y e'] at hk
      rw [List.inj_on_of_nodup_map (h.nodup _) hz hmem hk, e] at e'
      cases e'

end Keyed

lemma lookup_insert (x : α) (k : κ) : lookup hash key (insert hash key t x) k =
    if k = key x then some x else lookup hash key t k := by
  rw [lookup, insert]
  by_cases e : k = key x
  · subst e
    rw [update_self, List.find?_cons_of_pos (by simp), if_pos rfl]
  · rw [if_neg e]
    by_cases e' : hash k = hash (key x)
    · rw [e', update_self, List.find?_cons_of_neg (by simpa using Ne.symm e), lookup, e']
    · rw [update_of_ne e', lookup]

lemma lookup_alter {k : κ} {f : α → α} (hf : ∀ x, key x = k → key (f x) = k) (k' : κ) :
    lookup hash key (alter hash key t k f) k' =
      if k' = k then (lookup hash key t k').map f else lookup hash key t k' := by
  rw [lookup, alter]
  by_cases e : k' = k
  · subst e
    rw [update_self, if_pos rfl, find_modifyFirst, lookup]
    intro x hx
    exact decide_eq_true (hf x (of_decide_eq_true hx))
  · rw [if_neg e]
    by_cases e' : hash k' = hash k
    · rw [e', update_self, lookup, e', find_modifyFirst_of_ne]
      · intro x hx hx'
        exact e ((of_decide_eq_true hx').symm.trans (of_decide_eq_true hx))
      · intro x hx hx'
        exact e ((of_decide_eq_true hx').symm.trans (hf x (of_decide_eq_true hx)))
    · rw [update_of_ne e', lookup]

end Nefarious.Lib.Buckets
