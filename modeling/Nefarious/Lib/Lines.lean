import Mathlib.Data.List.Basic
import Mathlib.Data.List.Induction
import Mathlib.Data.List.TakeWhile

/-!
# Lines of a stream

A stream is cut at the elements that end a line.
-/

namespace Nefarious.Lib

open List (append_assoc dropLast_concat splitOnP_ne_nil)

variable {α : Type*} {eol : α → Bool}

/-- The lines that are ended, without empty ones. -/
def lines (eol : α → Bool) (bs : List α) : List (List α) :=
  (bs.splitOnP eol).dropLast.filter fun l => !l.isEmpty

/-- What stands behind the last end of a line. -/
def unfinished (eol : α → Bool) (bs : List α) : List α :=
  (bs.splitOnP eol).getLast (splitOnP_ne_nil eol bs)

@[simp] lemma lines_nil : lines eol [] = [] := by
  simp [lines]

@[simp] lemma unfinished_nil : unfinished eol [] = [] := by
  simp [unfinished]

lemma splitOnP_concat (bs : List α) {b : α} (hb : eol b = false) :
    (bs ++ [b]).splitOnP eol = (bs.splitOnP eol).dropLast ++ [unfinished eol bs ++ [b]] := by
  induction bs with
  | nil => simp [List.splitOnP_cons_eq_if_modifyHead, hb]
  | cons x bs ih =>
    have hne := splitOnP_ne_nil eol bs
    obtain ⟨l, ls, hl⟩ := List.exists_cons_of_ne_nil hne
    unfold unfinished at ih ⊢
    simp only [List.cons_append, List.splitOnP_cons_eq_if_modifyHead, ih]
    simp only [hl]
    by_cases hx : eol x = true
    · simp [hx]
    · cases ls with
      | nil => simp [hx]
      | cons l' ls => simp [hx]

lemma lines_concat (bs : List α) {b : α} (hb : eol b = false) : lines eol (bs ++ [b]) = lines eol bs := by
  unfold lines
  rw [splitOnP_concat bs hb, dropLast_concat]

lemma unfinished_concat (bs : List α) {b : α} (hb : eol b = false) :
    unfinished eol (bs ++ [b]) = unfinished eol bs ++ [b] := by
  have h := splitOnP_concat bs hb
  rw [unfinished]
  simp only [h, List.getLast_append_singleton]

lemma splitOnP_concat_eol (bs : List α) {b : α} (hb : eol b = true) :
    (bs ++ [b]).splitOnP eol = bs.splitOnP eol ++ [[]] := by
  rw [List.splitOnP_append_cons bs [] hb, List.splitOnP_nil]

lemma lines_concat_eol (bs : List α) {b : α} (hb : eol b = true) : lines eol (bs ++ [b]) =
      lines eol bs ++ if unfinished eol bs = [] then [] else [unfinished eol bs] := by
  have hsplit : bs.splitOnP eol = (bs.splitOnP eol).dropLast ++ [unfinished eol bs] :=
    (List.dropLast_append_getLast (splitOnP_ne_nil eol bs)).symm
  unfold lines
  rw [splitOnP_concat_eol bs hb, dropLast_concat]
  nth_rewrite 1 [hsplit]
  rw [List.filter_append]
  split
  · next h => simp [h]
  · next h => simp [h]

lemma unfinished_concat_eol (bs : List α) {b : α} (hb : eol b = true) : unfinished eol (bs ++ [b]) = [] := by
  have h := splitOnP_concat_eol bs hb
  rw [unfinished]
  simp only [h, List.getLast_append_singleton]

lemma lines_cons_eol {b : α} (hb : eol b = true) (bs : List α) : lines eol (b :: bs) = lines eol bs := by
  unfold lines
  rw [List.splitOnP_cons_eq_if_modifyHead, if_pos hb, List.dropLast_cons_of_ne_nil (splitOnP_ne_nil eol bs)]
  simp

lemma lines_append_cons {l : List α} (hl : ∀ x ∈ l, eol x = false) (hne : l ≠ []) {b : α}
    (hb : eol b = true) (bs : List α) : lines eol (l ++ b :: bs) = l :: lines eol bs := by
  unfold lines
  rw [List.splitOnP_append_cons_of_forall_mem hl b hb, List.dropLast_cons_of_ne_nil (splitOnP_ne_nil eol bs)]
  simp [hne]

lemma splitOnP_append (xs ys : List α) :
    (xs ++ ys).splitOnP eol = (xs.splitOnP eol).dropLast ++ (unfinished eol xs ++ ys).splitOnP eol := by
  induction xs using List.reverseRecOn generalizing ys with
  | nil => simp
  | append_singleton xs b ih =>
    rw [append_assoc]
    by_cases hb : eol b = true
    · rw [ih, splitOnP_concat_eol xs hb, unfinished_concat_eol xs hb, dropLast_concat,
        List.singleton_append, List.splitOnP_append_cons _ _ hb, List.nil_append,
        ← append_assoc]
      have hxs := ih []
      rw [List.append_nil, List.append_nil] at hxs
      rw [← hxs]
    · have hb : eol b = false := by simpa using hb
      rw [ih, splitOnP_concat xs hb, unfinished_concat xs hb, dropLast_concat, append_assoc]

lemma lines_append (xs ys : List α) :
    lines eol (xs ++ ys) = lines eol xs ++ lines eol (unfinished eol xs ++ ys) := by
  unfold lines
  rw [splitOnP_append, List.dropLast_append_of_ne_nil (splitOnP_ne_nil eol _), List.filter_append]

lemma unfinished_append (xs ys : List α) :
    unfinished eol (xs ++ ys) = unfinished eol (unfinished eol xs ++ ys) := by
  have h := @splitOnP_append _ eol xs ys
  rw [unfinished]
  simp only [h, List.getLast_append_of_ne_nil _ (splitOnP_ne_nil eol _)]
  rfl

lemma unfinished_append_cons (l : List α) {b : α} (hb : eol b = true) (bs : List α) :
    unfinished eol (l ++ b :: bs) = unfinished eol bs := by
  rw [List.append_cons, unfinished_append, unfinished_concat_eol l hb, List.nil_append]

@[simp] lemma lines_dropWhile (bs : List α) : lines eol (bs.dropWhile eol) = lines eol bs := by
  induction bs with
  | nil => rfl
  | cons b bs ih =>
    by_cases hb : eol b = true
    · rw [List.dropWhile_cons_of_pos hb, ih, lines_cons_eol hb]
    · rw [List.dropWhile_cons_of_neg hb]

@[simp] lemma unfinished_dropWhile (bs : List α) : unfinished eol (bs.dropWhile eol) = unfinished eol bs := by
  induction bs with
  | nil => rfl
  | cons b bs ih =>
    by_cases hb : eol b = true
    · rw [List.dropWhile_cons_of_pos hb, ih]
      exact (unfinished_append_cons [] hb bs).symm
    · rw [List.dropWhile_cons_of_neg hb]

lemma exists_first_eol {bs : List α} (h : ∃ b ∈ bs, eol b = true) :
    ∃ e rest, bs = bs.takeWhile (!eol ·) ++ e :: rest ∧ eol e = true := by
  have hne : bs.dropWhile (!eol ·) ≠ [] := by
    intro hnil
    obtain ⟨b, hb, heol⟩ := h
    have := List.dropWhile_eq_nil_iff.mp hnil b hb
    simp [heol] at this
  obtain ⟨e, rest, hrest⟩ := List.exists_cons_of_ne_nil hne
  refine ⟨e, rest, ?_, ?_⟩
  · rw [← hrest, List.takeWhile_append_dropWhile]
  · have := List.head_dropWhile_not (!eol ·) hne
    simpa [hrest] using this

lemma lines_eq_nil {l : List α} (hl : ∀ x ∈ l, eol x = false) : lines eol l = [] := by
  unfold lines
  rw [List.splitOnP_eq_singleton hl]
  rfl

end Nefarious.Lib
