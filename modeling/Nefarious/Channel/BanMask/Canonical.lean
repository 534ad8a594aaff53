import Nefarious.Channel.BanMask

/-!
# Masks in their final form

A mask that has been brought into the form `nick!user@host` and collapsed stays as it is when the same is done
again: the parts are found where they have been put, they are not too long, and no wildcards stand together that
mean the same as fewer.
-/

namespace Nefarious.BanMask

open Option (mem_some_iff some.inj)
open List (append_assoc cons_append length_cons mem_cons mem_cons_of_mem mem_cons_self mem_reverse nil_append)

open Crule

/-! ### Collapsing -/

/-- `*` or `?`. `match.c` `collapse`. -/
def Wild (c : Char) : Prop := c = '*' ∨ c = '?'

/-- Wildcards stand together only where they have to. `match.c` `collapse`. -/
def Reduced : Str → Prop
  | c :: d :: m =>
    if c = '*' then ¬Wild d ∧ Reduced (d :: m)
    else if c = '\\' ∧ (d = '*' ∨ d = '?') then Reduced m
    else Reduced (d :: m)
  | _ => True

lemma Reduced.cons {c : Char} {s : Str} (h : Reduced s)
    (hc : c = '*' ∨ c = '\\' → ∀ d ∈ s.head?, ¬Wild d) : Reduced (c :: s) := by
  cases s with
  | nil => trivial
  | cons d m =>
    rw [Reduced]
    split
    · exact ⟨hc (.inl ‹_›) d rfl, h⟩
    · split
      · rename_i hesc
        exact absurd hesc.2 (hc (.inr hesc.1) d rfl)
      · exact h

variable {s nick user host : Str} {c : Char} {n : ℕ}

lemma Reduced.escape {d : Char} (h : Reduced s) (hd : Wild d) : Reduced ('\\' :: d :: s) := by
  rw [Reduced, if_neg (by decide), if_pos ⟨rfl, hd⟩]
  exact h

lemma collapse_of_reduced : (s : Str) → Reduced s → collapse s = s
  | [], _ => rfl
  | [_], _ => rfl
  | c :: d :: m, h => by
    rw [Reduced] at h
    rw [collapse]
    split at h
    · rename_i hc
      have hesc : ¬(c = '\\' ∧ (d = '*' ∨ d = '?')) := fun he => absurd (hc.symm.trans he.1) (by decide)
      rw [if_neg fun hw => h.1 hw.2, if_neg hesc, collapse_of_reduced _ h.2]
    · rename_i hc
      rw [if_neg fun hw => hc hw.1]
      split at h <;> rename_i hesc
      · rw [if_pos hesc, collapse_of_reduced _ h]
      · rw [if_neg hesc, collapse_of_reduced _ h]

lemma collapseRun_true (hc : ¬Wild c) (m : Str) :
    collapseRun true (c :: m) = '*' :: collapseRun false (c :: m) := by
  have hstar : c ≠ '*' := fun h => hc (.inl h)
  have hany : c ≠ '?' := fun h => hc (.inr h)
  rw [collapseRun.eq_2, collapseRun.eq_2, if_neg hstar, if_neg hstar]
  simp [hany]

lemma collapse_eq : (s : Str) → collapse s = collapseRun false s
  | [] => rfl
  | [c] => by
    rw [collapse, collapseRun.eq_2]
    split
    · rename_i hc
      rw [hc]
      rfl
    · rfl
  | c :: d :: m => by
    rw [collapse]
    split
    · rfl
    · rename_i hrun
      rw [collapse_eq m, collapse_eq (d :: m), collapseRun.eq_2 false c]
      split
      · rename_i hesc
        rw [if_neg (by rw [hesc.1]; decide)]
        simp [hesc]
      · rename_i hesc
        split
        · rename_i hc
          rw [collapseRun_true fun hw => hrun ⟨hc, hw⟩, hc]
        · simp [hesc]

lemma head_collapseRun (hc : c ≠ '*') (m : Str) : (collapseRun false (c :: m)).head? = some c := by
  rw [collapseRun.eq_2, if_neg hc]
  cases m with
  | nil => rfl
  | cons d m =>
    simp only [Bool.false_and, Bool.false_eq_true, false_and, if_false, nil_append]
    split <;> rfl

lemma reduced_collapseRun (star : Bool) (s : Str) : Reduced (collapseRun star s) := by
  fun_induction collapseRun star s with
  | case1 => trivial
  | case2 => trivial
  | case3 star m ih => exact ih
  | case4 star c m hc rest ih =>
    obtain ⟨out, hout⟩ : ∃ out, out = collapseRun false (c :: m) := ⟨_, rfl⟩
    -- what follows the stars that are still to be written
    have hrest : ∀ out', Reduced out' → out'.head? = some c →
        Reduced ((if star = true ∧ c ≠ '?' then ['*'] else []) ++ out') := by
      intro out' hred hhead
      split
      · rename_i hstar
        refine hred.cons fun _ d hd hw => ?_
        obtain rfl := some.inj (hhead.symm.trans hd)
        exact hw.elim hc hstar.2
      · exact hred
    cases m with
    | nil =>
      refine hrest _ ?_ rfl
      refine Reduced.cons ih fun hspecial d hd hw => ?_
      have hslash : c = '\\' := hspecial.resolve_left hc
      have hfalse : rest = false := by simp [rest, hslash]
      rw [hfalse] at hd
      exact (nomatch hd)
    | cons d m =>
      simp only at ih ⊢
      by_cases hesc : c = '\\' ∧ (d = '*' ∨ d = '?')
      · rw [if_pos hesc]
        refine hrest _ ?_ rfl
        rw [hesc.1]
        exact ih.1.escape hesc.2
      · rw [if_neg hesc]
        refine hrest _ (ih.2.cons fun hspecial e he hw => ?_) rfl
        -- behind a backslash that escapes nothing stands no wildcard
        have hslash : c = '\\' := hspecial.resolve_left hc
        have hfalse : rest = false := by simp [rest, hslash]
        have hd : d ≠ '*' := fun h => hesc ⟨hslash, .inl h⟩
        rw [hfalse, head_collapseRun hd] at he
        obtain rfl := some.inj he
        exact hesc ⟨hslash, hw⟩

/-- **A text is collapsed part by part**. -/
theorem collapseRun_append (hc : ¬Wild c) (hslash : c ≠ '\\') (star : Bool) (a b : Str) :
    collapseRun star (a ++ c :: b) = collapseRun star a ++ c :: collapseRun false b := by
  have hstar : c ≠ '*' := fun h => hc (.inl h)
  have hany : c ≠ '?' := fun h => hc (.inr h)
  -- the character itself
  have hself : ∀ star', collapseRun star' (c :: b) = collapseRun star' [] ++ c :: collapseRun false b := by
    intro star'
    rw [collapseRun.eq_2, if_neg hstar, collapseRun.eq_1]
    cases b with
    | nil => cases star' <;> simp [hany]
    | cons d b => cases star' <;> simp [hany, hslash]
  fun_induction collapseRun star a with
  | case1 => exact hself true
  | case2 star hfalse =>
    rw [nil_append, hself, collapseRun.eq_1, if_neg hfalse]
  | case3 star m ih =>
    rw [cons_append, collapseRun.eq_2, if_pos rfl]
    exact ih
  | case4 star x m hx rest ih =>
    rw [cons_append, collapseRun.eq_2, if_neg hx, append_assoc]
    refine congrArg _ ?_
    cases m with
    | nil =>
      simp only [nil_append]
      have hesc : ¬(x = '\\' ∧ (c = '*' ∨ c = '?')) := fun he => hc he.2
      rw [if_neg hesc]
      exact congrArg _ (hself rest)
    | cons d m =>
      simp only [cons_append] at ih ⊢
      split
      · rw [ih.1]
        rfl
      · rw [ih.2]
        rfl

lemma mem_collapseRun {x : Char} (hx : x ≠ '*') (star : Bool) (s : Str) (h : x ∈ collapseRun star s) :
    x ∈ s := by
  fun_induction collapseRun star s with
  | case1 => exact absurd (List.mem_singleton.mp h) hx
  | case2 => exact h
  | case3 star m ih => exact mem_cons_of_mem _ (ih h)
  | case4 star c m hc rest ih =>
    obtain h | h := List.mem_append.mp h
    · split at h
      · exact absurd (List.mem_singleton.mp h) hx
      · exact absurd h List.not_mem_nil
    · cases m with
      | nil =>
        obtain rfl | h := mem_cons.mp h
        · exact mem_cons_self
        · exact absurd (ih h) List.not_mem_nil
      | cons d m =>
        simp only at h ih
        split at h
        · obtain rfl | h := mem_cons.mp h
          · exact mem_cons_self
          · obtain rfl | h := mem_cons.mp h
            · exact mem_cons_of_mem _ mem_cons_self
            · exact mem_cons_of_mem _ (mem_cons_of_mem _ (ih.1 h))
        · obtain rfl | h := mem_cons.mp h
          · exact mem_cons_self
          · exact mem_cons_of_mem _ (ih.2 h)

lemma length_collapseRun_le (star : Bool) (s : Str) :
    (collapseRun star s).length ≤ s.length + if star then 1 else 0 := by
  fun_induction collapseRun star s with
  | case1 => exact Nat.le_refl _
  | case2 => exact Nat.zero_le _
  | case3 star m ih =>
    rw [if_pos rfl] at ih
    rw [length_cons]
    omega
  | case4 star c m hc rest ih =>
    have hpre : (if star = true ∧ c ≠ '?' then ['*'] else []).length + (if rest = true then 1 else 0)
        ≤ if star = true then 1 else 0 := by
      cases star <;> by_cases hany : c = '?' <;> simp [rest, hany]
    rw [List.length_append]
    cases m with
    | nil =>
      rw [List.length_nil] at ih
      simp only [length_cons, List.length_nil]
      omega
    | cons d m =>
      have hin : (if c = '\\' ∧ (d = '*' ∨ d = '?') then c :: d :: collapseRun rest m
          else c :: collapseRun rest (d :: m)).length ≤ m.length + 2 + if rest = true then 1 else 0 := by
        have h₁ := ih.1
        have h₂ := ih.2
        rw [length_cons] at h₂
        split
        · rw [length_cons, length_cons]
          omega
        · rw [length_cons]
          omega
      refine Nat.le_trans (Nat.add_le_add_left hin _) ?_
      rw [length_cons, length_cons]
      omega

/-- A mask of these parts. `channel.c` `pretty_mask`. -/
def maskText (nick user host : Str) : Str := nick ++ '!' :: (user ++ '@' :: host)

/-- The parts can be told apart, and are not too long. `channel.c` `pretty_mask`. -/
structure Parts (nick user host : Str) : Prop where
  nickBang : '!' ∉ nick
  nickAt : '@' ∉ nick
  nickLen : nick.length ≤ nickLen
  userLen : user.length ≤ BanCache.userLen
  hostAt : '@' ∉ host
  hostLen : host.length ≤ BanCache.hostLen

lemma beforeLast_append {a b : Str} (hb : c ∉ b) : beforeLast c (a ++ c :: b) = a := by
  have hall : ∀ x ∈ b.reverse, decide (x ≠ c) = true := by
    intro x hx
    rw [decide_eq_true_iff]
    rintro rfl
    exact hb (mem_reverse.mp hx)
  rw [beforeLast, List.reverse_append, List.reverse_cons, append_assoc, List.dropWhile_append_of_pos hall]
  simp

lemma afterLast_append {a b : Str} (hb : c ∉ b) : afterLast c (a ++ c :: b) = b := by
  have hall : ∀ x ∈ b.reverse, decide (x ≠ c) = true := by
    intro x hx
    rw [decide_eq_true_iff]
    rintro rfl
    exact hb (mem_reverse.mp hx)
  rw [afterLast, List.reverse_append, List.reverse_cons, append_assoc, List.takeWhile_append_of_pos hall]
  simp

lemma notMem_afterLast (c : Char) (s : Str) : c ∉ afterLast c s := by
  intro h
  have hmem := List.mem_takeWhile_imp (mem_reverse.mp h)
  simp at hmem

lemma cutStart_of_le (h : s.length ≤ n) : cutStart n s = s :=
  if_neg (Nat.not_lt.mpr h)

lemma length_cutStart_le (hn : 0 < n) (s : Str) : (cutStart n s).length ≤ n := by
  unfold cutStart
  split
  · rw [length_cons, List.length_drop]
    omega
  · omega

lemma notMem_cutStart (hc : c ≠ '*') (h : c ∉ s) : c ∉ cutStart n s := by
  unfold cutStart
  split
  · rw [mem_cons, not_or]
    exact ⟨hc, fun hmem => h (List.mem_of_mem_drop hmem)⟩
  · exact h

lemma Parts.scan (h : Parts nick user host) :
    (maskText nick user host).dropWhile (fun c => c ≠ '!' ∧ c ≠ '@') = '!' :: (user ++ '@' :: host) ∧
      (maskText nick user host).takeWhile (fun c => c ≠ '!' ∧ c ≠ '@') = nick := by
  have hall : ∀ c ∈ nick, decide (c ≠ '!' ∧ c ≠ '@') = true := by
    intro c hc
    rw [decide_eq_true_iff]
    exact ⟨fun e => h.nickBang (e ▸ hc), fun e => h.nickAt (e ▸ hc)⟩
  rw [maskText, List.dropWhile_append_of_pos hall, List.takeWhile_append_of_pos hall]
  exact ⟨rfl, List.append_nil _⟩

/-- **The parts are found again**. -/
theorem prettyMask_mask (h : Parts nick user host) :
    prettyMask (maskText nick user host) = maskText nick user host := by
  have hparts : maskParts (maskText nick user host) = (some nick, some user, some host) := by
    unfold maskParts
    rw [h.scan.1, h.scan.2]
    simp only [if_true]
    rw [if_pos (by simp), beforeLast_append h.hostAt, afterLast_append h.hostAt]
  unfold prettyMask
  rw [hparts]
  simp only [Option.map_some, Option.getD_some, List.take_of_length_le h.nickLen, cutStart_of_le h.userLen,
    cutStart_of_le h.hostLen]
  rfl

lemma maskParts_signs (s : Str) : (∀ nick ∈ (maskParts s).1, '!' ∉ nick ∧ '@' ∉ nick) ∧
    ∀ host ∈ (maskParts s).2.2, '@' ∉ host := by
  have hfront : ∀ c ∈ s.takeWhile (fun c => c ≠ '!' ∧ c ≠ '@'), c ≠ '!' ∧ c ≠ '@' := by
    intro c hc
    simpa using List.mem_takeWhile_imp hc
  unfold maskParts
  split
  · rename_i hnone
    have hall : ∀ c ∈ s, c ≠ '!' ∧ c ≠ '@' := by
      intro c hc
      simpa using List.dropWhile_eq_nil_iff.mp hnone c hc
    split
    · refine ⟨nofun, fun host hhost hmem => ?_⟩
      obtain rfl := mem_some_iff.mp hhost
      exact (hall _ hmem).2 rfl
    · refine ⟨fun nick hnick => ?_, nofun⟩
      obtain rfl := mem_some_iff.mp hnick
      exact ⟨fun hmem => (hall _ hmem).1 rfl, fun hmem => (hall _ hmem).2 rfl⟩
  · split
    · have hnick : ∀ nick ∈ some (s.takeWhile (fun c => c ≠ '!' ∧ c ≠ '@')), '!' ∉ nick ∧ '@' ∉ nick := by
        intro nick hnick
        obtain rfl := mem_some_iff.mp hnick
        exact ⟨fun hmem => (hfront _ hmem).1 rfl, fun hmem => (hfront _ hmem).2 rfl⟩
      simp only
      split
      · refine ⟨hnick, fun host hhost => ?_⟩
        obtain rfl := mem_some_iff.mp hhost
        exact notMem_afterLast '@' _
      · exact ⟨hnick, nofun⟩
    · refine ⟨nofun, fun host hhost => ?_⟩
      obtain rfl := mem_some_iff.mp hhost
      exact notMem_afterLast '@' _

/-- **`pretty_mask` gives three parts**. -/
theorem exists_prettyMask (s : Str) :
    ∃ nick user host, Parts nick user host ∧ prettyMask s = maskText nick user host := by
  refine ⟨((maskParts s).1.map (List.take nickLen)).getD ['*'],
    ((maskParts s).2.1.map (cutStart BanCache.userLen)).getD ['*'],
    ((maskParts s).2.2.map (cutStart BanCache.hostLen)).getD ['*'], ?_, rfl⟩
  obtain ⟨hnick, hhost⟩ := maskParts_signs s
  constructor
  · cases hn : (maskParts s).1 with
    | none => decide
    | some nick => exact fun hmem => (hnick nick hn).1 (List.mem_of_mem_take hmem)
  · cases hn : (maskParts s).1 with
    | none => decide
    | some nick => exact fun hmem => (hnick nick hn).2 (List.mem_of_mem_take hmem)
  · cases (maskParts s).1 with
    | none => decide
    | some nick => exact List.length_take_le ..
  · cases (maskParts s).2.1 with
    | none => decide
    | some user => exact length_cutStart_le (by decide) user
  · cases hh : (maskParts s).2.2 with
    | none => decide
    | some host => exact notMem_cutStart (by decide) (hhost host hh)
  · cases (maskParts s).2.2 with
    | none => decide
    | some host => exact length_cutStart_le (by decide) host

/-- **`pretty_mask` is idempotent**. -/
theorem prettyMask_prettyMask (s : Str) : prettyMask (prettyMask s) = prettyMask s := by
  obtain ⟨nick, user, host, hparts, heq⟩ := exists_prettyMask s
  rw [heq, prettyMask_mask hparts]

/-! ### Final forms -/

/-- An ordinary mask in its final form. `channel.c` `pretty_extmask`. -/
def Canonical (m : Str) : Prop :=
  ∃ nick user host, m = maskText nick user host ∧ Parts nick user host ∧
    Reduced nick ∧ Reduced user ∧ Reduced host

lemma collapse_maskText (nick user host : Str) : collapse (maskText nick user host)
    = maskText (collapseRun false nick) (collapseRun false user) (collapseRun false host) := by
  rw [collapse_eq, maskText, collapseRun_append (by simp [Wild]) (by decide),
    collapseRun_append (by simp [Wild]) (by decide), maskText]

lemma Parts.collapse (h : Parts nick user host) :
    Parts (collapseRun false nick) (collapseRun false user) (collapseRun false host) := by
  have hlen : ∀ s : Str, (collapseRun false s).length ≤ s.length := length_collapseRun_le false
  exact ⟨fun hmem => h.nickBang (mem_collapseRun (by decide) _ _ hmem),
    fun hmem => h.nickAt (mem_collapseRun (by decide) _ _ hmem), Nat.le_trans (hlen nick) h.nickLen,
    Nat.le_trans (hlen user) h.userLen, fun hmem => h.hostAt (mem_collapseRun (by decide) _ _ hmem),
    Nat.le_trans (hlen host) h.hostLen⟩

lemma canonical_collapse_prettyMask (s : Str) : Canonical (collapse (prettyMask s)) := by
  obtain ⟨nick, user, host, hparts, heq⟩ := exists_prettyMask s
  rw [heq, collapse_maskText]
  exact ⟨_, _, _, rfl, hparts.collapse, reduced_collapseRun false nick, reduced_collapseRun false user,
    reduced_collapseRun false host⟩

lemma Canonical.collapse_prettyMask {m : Str} (h : Canonical m) : collapse (prettyMask m) = m := by
  obtain ⟨nick, user, host, rfl, hparts, hnick, huser, hhost⟩ := h
  have hrun : ∀ {s : Str}, Reduced s → collapseRun false s = s := by
    intro s hs
    rw [← collapse_eq, collapse_of_reduced s hs]
  rw [prettyMask_mask hparts, collapse_maskText, hrun hnick, hrun huser, hrun hhost]

lemma Canonical.length_lt {m : Str} (h : Canonical m) : m.length < banstrSize := by
  obtain ⟨nick, user, host, rfl, hparts, -⟩ := h
  have hnick := hparts.nickLen
  have huser := hparts.userLen
  have hhost := hparts.hostLen
  simp only [maskText, List.length_append, length_cons, nickLen, BanCache.userLen, BanCache.hostLen,
    banstrSize] at *
  omega

end Nefarious.BanMask
