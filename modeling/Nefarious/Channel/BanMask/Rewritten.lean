import Nefarious.Channel.BanMask.Extban

/-!
# Masks that are written again

What has been made of a mask is sent to other servers, and made again there.

Names: `channel.c`.
-/

namespace Nefarious.BanMask

open Option (map_eq_some_iff map_some some.inj)
open List (any_append append_assoc cons_ne_nil length_append mem_cons_of_mem take_append take_eq_nil_iff
  take_of_length_le)

open BanCache Crule

/-! ### The text, type by type -/

/-- The mask at the end of an extended ban. `parse_extban`. -/
def maskOf (flags : List Flag) (mask : Str) : Str :=
  if flags.any Flag.isMasktype then mask.take (banstrSize - 1)
  else (collapse (prettyMask (mask.take (banstrSize - 1)))).take (banstrSize - 1)

/-- What the text of an extended ban ends in when this stands behind a type, with so many levels left. `parse_extban`. -/
def innerText : ℕ → Str → Option Str
  | 0, _ => none
  | n + 1, s =>
    match readType s with
    | none => if s.head?.all (· = '~') then none else some (maskOf [] s)
    | some (text, flags, rest) =>
      if rest = [] then some (text ++ maskOf flags s)
      else if .nochild ∈ flags then some (text ++ rest.take (banstrSize - 1))
      else (innerText n rest).map (text ++ ·)

lemma letter_of_flags {c : Char} (h : getExtbanFlags c ≠ []) : c ∈ "qnjacrmM!".toList := by
  by_contra hc
  have hne : ∀ d ∈ "qnjacrmM!".toList, c ≠ d := fun d hd e => hc (e ▸ hd)
  refine h ?_
  unfold getExtbanFlags
  rw [if_neg (hne _ (by decide)), if_neg (hne _ (by decide)), if_neg (hne _ (by decide)), if_neg (hne _ (by decide)),
    if_neg (hne _ (by decide)), if_neg (hne _ (by decide)), if_neg (hne _ (by decide)), if_neg (hne _ (by decide)),
    if_neg (hne _ (by decide))]

lemma getExtbanFlags_masktype (c : Char) :
    (getExtbanFlags c).any Flag.isMasktype = decide (Flag.nochild ∈ getExtbanFlags c) := by
  have hletters : ∀ c ∈ "qnjacrmM!".toList,
      (getExtbanFlags c).any Flag.isMasktype = decide (Flag.nochild ∈ getExtbanFlags c) := by decide
  by_cases h : getExtbanFlags c = []
  · rw [h]
    rfl
  · exact hletters c (letter_of_flags h)

variable {s text rest t b : Str} {flags : List Flag} {c e : Char} {room : ℕ}

lemma readType_masktype (h : readType s = some (text, flags, rest)) :
    flags.any Flag.isMasktype = decide (Flag.nochild ∈ flags) := by
  match s, h with
  | c :: d :: b, h =>
    rw [readType] at h
    split at h
    · cases h
    · obtain ⟨-, rfl, -⟩ : _ ∧ _ ∧ _ := by simpa using h
      rw [any_append, getExtbanFlags_masktype]
      split
      · cases b with
        | nil => simp
        | cons e b => simp [getExtbanFlags_masktype]
      · simp

lemma Parsed.finish_pre (x : Parsed) : x.finish.pre = x.pre := by
  unfold Parsed.finish
  simp only
  split <;> rfl

lemma Parsed.finish_mask (x : Parsed) (mask : Str) :
    ({ x with mask := mask.take (banstrSize - 1) } : Parsed).finish.mask = maskOf x.flags mask := by
  unfold Parsed.finish maskOf
  simp only
  split <;> rfl

/-- What has been read, against the text that is written of it. `parse_extban`. -/
def Outcome (x : Parsed) (s : Str) (r : ℤ × Parsed) : Option Str → Prop
  | none => r.1 = -1
  | some t =>
    (r.1 = 1 ∧ r.2.pre ++ r.2.mask = x.pre ++ t) ∨
      (r.1 = 0 ∧ ∃ text flags, r.2 = x.add text flags ∧ t = text ++ maskOf flags s)

lemma maskOf_append {outer : List Flag} (h : outer.any Flag.isMasktype = false) (flags : List Flag)
    (mask : Str) : maskOf (outer ++ flags) mask = maskOf flags mask := by
  rw [maskOf, maskOf, any_append, h, Bool.false_or]

lemma parseExtban_innerText : (n : ℕ) → (s : Str) → (x : Parsed) → x.flags.any Flag.isMasktype = false →
    Flag.nochild ∉ x.flags → Outcome x s (parseExtban n s x) (innerText n s)
  | 0, s, x, _, _ => by
    rw [parseExtban, innerText]
    rfl
  | n + 1, s, x, hmask, hchild => by
    rw [innerText]
    cases htype : readType s with
    | none =>
      simp only
      cases s with
      | nil => exact parseExtban_bad htype (fun d hd => by cases hd) (n + 1) x
      | cons c b =>
        by_cases hc : c = '~'
        · rw [if_pos (by simp [hc])]
          exact parseExtban_bad htype (fun d hd => (some.inj hd) ▸ hc) (n + 1) x
        · rw [if_neg (by simp [hc]), parseExtban_other hc]
          exact .inr ⟨rfl, [], [], by simp [Parsed.add], rfl⟩
    | some t =>
      obtain ⟨text, flags, rest⟩ := t
      simp only
      rw [parseExtban_type htype]
      by_cases hrest : rest = []
      · rw [if_pos hrest, if_pos hrest]
        exact .inr ⟨rfl, text, flags, rfl, rfl⟩
      · rw [if_neg hrest, if_neg hrest]
        have hin : Flag.nochild ∈ (x.add text flags).flags ↔ Flag.nochild ∈ flags := by
          simp [Parsed.add, hchild]
        have hany : (x.add text flags).flags.any Flag.isMasktype = decide (Flag.nochild ∈ flags) := by
          rw [Parsed.add, any_append, hmask, Bool.false_or, readType_masktype htype]
        by_cases hno : Flag.nochild ∈ flags
        · rw [if_pos (hin.mpr hno), if_pos hno]
          refine .inl ⟨rfl, ?_⟩
          rw [Parsed.finish_pre, Parsed.finish_mask, maskOf, if_pos (by simp [hany, hno])]
          exact append_assoc ..
        · rw [if_neg (mt hin.mp hno), if_neg hno]
          rw [decide_eq_false hno] at hany
          have ih := parseExtban_innerText n rest (x.add text flags) hany (mt hin.mp hno)
          cases hinner : innerText n rest with
          | none =>
            rw [hinner] at ih
            rw [if_neg (by rw [ih]; decide)]
            exact ih
          | some t =>
            rw [hinner] at ih
            obtain ⟨hone, htext⟩ | ⟨hzero, text', flags', hadd, rfl⟩ := ih
            · rw [if_neg (by rw [hone]; decide)]
              refine .inl ⟨hone, htext.trans ?_⟩
              exact append_assoc ..
            · rw [if_pos hzero, hadd]
              refine .inl ⟨rfl, ?_⟩
              have hflags : ((x.add text flags).add text' flags').flags
                  = (x.add text flags).flags ++ flags' := rfl
              rw [Parsed.finish_pre, Parsed.finish_mask, hflags, maskOf_append hany]
              simp [Parsed.add, append_assoc]

lemma prettyExtmask_other (hc : c ≠ '~') (b : Str) :
    prettyExtmask (c :: b) = some (collapse (prettyMask (c :: b))) := by
  rw [prettyExtmask, maxLevel, parseExtban_other hc]
  rfl

lemma prettyExtmask_bad (h : readType s = none) (hs : ∀ c ∈ s.head?, c = '~') : prettyExtmask s = none := by
  have hbad := parseExtban_bad h hs maxLevel .start
  rw [prettyExtmask, if_neg (by rw [hbad]; decide), if_pos (by rw [hbad]; decide)]

lemma prettyExtmask_unfinished (h : readType s = some (text, flags, [])) :
    prettyExtmask s = some (collapse (prettyMask s)) := by
  rw [prettyExtmask, maxLevel, parseExtban_type h, if_pos rfl]
  rfl

lemma prettyExtmask_type (h : readType s = some (text, flags, rest))
    (hrest : rest ≠ []) : prettyExtmask s = (innerText maxLevel s).map (List.take (banstrSize - 1)) := by
  have hout := parseExtban_innerText maxLevel s .start rfl List.not_mem_nil
  have hzero : (parseExtban maxLevel s .start).1 ≠ 0 := by
    rw [maxLevel, parseExtban_type h, if_neg hrest]
    split
    · exact one_ne_zero
    · split
      · exact one_ne_zero
      · assumption
  rw [prettyExtmask, if_neg hzero]
  cases hinner : innerText maxLevel s with
  | none =>
    rw [hinner] at hout
    have hbad : (parseExtban maxLevel s .start).1 = -1 := hout
    rw [if_pos (by rw [hbad]; decide)]
    rfl
  | some t =>
    rw [hinner] at hout
    obtain ⟨hone, htext⟩ | ⟨h0, -⟩ := hout
    · rw [if_neg (by rw [hone]; decide), htext]
      rfl
    · exact absurd h0 hzero

/-! ### What is kept -/

/-- A text that stays as it is when it is read again, with so many levels and so much room. `pretty_extmask`. -/
def Kept (n room : ℕ) (t : Str) : Prop := (innerText n t).map (List.take room) = some t

lemma not_kept_zero (room : ℕ) (t : Str) : ¬Kept 0 room t := nofun

lemma readType_swap (h : readType s = some (text, flags, rest))
    (hrest : rest ≠ []) (t : Str) : readType (text ++ t) = some (text, flags, t) ∧ text.length ≤ 4 := by
  match s, h with
  | c :: d :: b, h =>
    rw [readType] at h
    split at h
    · cases h
    · rename_i hno
      cases b with
      | nil =>
        obtain ⟨-, -, rfl⟩ : _ ∧ _ ∧ [] = rest := by simpa using h
        exact absurd rfl hrest
      | cons e b =>
        by_cases hmore : Flag.negatemask ∈ getExtbanFlags d ∧ getExtbanFlags e ≠ []
        · cases b with
          | nil =>
            obtain ⟨-, -, rfl⟩ : _ ∧ _ ∧ [] = rest := by simpa [hmore] using h
            exact absurd rfl hrest
          | cons f b =>
            obtain ⟨rfl, rfl, -⟩ :
                [c, d, e, f] = text ∧ getExtbanFlags d ++ getExtbanFlags e = flags ∧ b = rest := by
              simpa [hmore] using h
            simp only [List.cons_append, List.nil_append]
            rw [readType, if_neg hno]
            simp [hmore]
        · have hk : (if Flag.negatemask ∈ getExtbanFlags d then getExtbanFlags e else []) = [] := by
            split
            · exact not_not.mp fun he => hmore ⟨‹_›, he⟩
            · rfl
          obtain ⟨rfl, rfl, -⟩ : [c, d, e] = text ∧ getExtbanFlags d = flags ∧ b = rest := by
            simpa [hk] using h
          simp only [List.cons_append, List.nil_append]
          rw [readType, if_neg hno]
          simp [hk]

lemma kept_type (h : readType (text ++ t) = some (text, flags, t)) (ht : t ≠ []) (hno : Flag.nochild ∉ flags)
    (hroom : text.length ≤ room) (n : ℕ) : Kept (n + 1) room (text ++ t) ↔ Kept n (room - text.length) t := by
  rw [Kept, Kept, innerText, h]
  simp only
  rw [if_neg ht, if_neg hno]
  cases innerText n t with
  | none => simp
  | some u =>
    rw [map_some, map_some, map_some, take_append,
      take_of_length_le hroom, Option.some.injEq, Option.some.injEq, List.append_cancel_left_eq]

lemma kept_nochild (h : readType s = some (text, flags, rest))
    (hrest : rest ≠ []) (hno : Flag.nochild ∈ flags) (hroom : room ≤ banstrSize - 1)
    (hs : s.length ≤ room) (n : ℕ) : Kept (n + 1) room s := by
  have heq : s = text ++ rest := readType_append h
  have hlen : s.length = text.length + rest.length := by rw [heq, length_append]
  rw [Kept, innerText, h]
  simp only
  rw [if_neg hrest, if_pos hno, map_some, take_of_length_le (l := rest) (by omega), ← heq,
    take_of_length_le hs]

lemma Canonical.maskOf {m : Str} (h : Canonical m) : maskOf [] m = m := by
  have htake : m.take (banstrSize - 1) = m := take_of_length_le (Nat.le_pred_of_lt h.length_lt)
  rw [BanMask.maskOf, if_neg (by decide), htake, h.collapse_prettyMask, htake]

lemma canonical_maskOf (m : Str) : Canonical (maskOf [] m) := by
  have hcanon := canonical_collapse_prettyMask (m.take (banstrSize - 1))
  rw [maskOf, if_neg (by decide), take_of_length_le (Nat.le_sub_one_of_lt hcanon.length_lt)]
  exact hcanon

lemma Canonical.kept (h : Canonical (c :: b)) (hc : c ≠ '~')
    (hroom : (c :: b).length ≤ room) (n : ℕ) : Kept (n + 1) room (c :: b) := by
  have hnone : readType (c :: b) = none := by
    cases b with
    | nil => rfl
    | cons d b => rw [readType, if_pos (.inl hc)]
  rw [Kept, innerText, hnone]
  simp only
  rw [if_neg (by simp [hc]), h.maskOf, map_some, take_of_length_le hroom]

lemma not_kept_other (hc : c ≠ '~') (hbang : '!' ∉ c :: b)
    (hroom : (c :: b).length < room) (n : ℕ) : ¬Kept n room (c :: b) := by
  cases n with
  | zero => exact not_kept_zero room _
  | succ n =>
    have hnone : readType (c :: b) = none := by
      cases b with
      | nil => rfl
      | cons d b => rw [readType, if_pos (.inl hc)]
    rw [Kept, innerText, hnone]
    simp only
    rw [if_neg (by simp [hc]), map_some, Option.some.injEq]
    intro h
    obtain ⟨nick, user, host, heq, -⟩ := canonical_maskOf (c :: b)
    have hlen := congrArg List.length h
    rw [List.length_take] at hlen
    rw [take_of_length_le (by omega)] at h
    apply hbang
    rw [← h, heq, maskText]
    simp

/-! ### Texts that end in a type -/

lemma readType_plain {d : Char} (hd : getExtbanFlags d ≠ []) (hbang : d ≠ '!') (b : Str) :
    readType ('~' :: d :: b) = some ('~' :: d :: b.take 1, getExtbanFlags d, b.drop 1) := by
  have hletters : ∀ d ∈ "qnjacrmM!".toList, d ≠ '!' → Flag.negatemask ∉ getExtbanFlags d := by decide
  have hneg : Flag.negatemask ∉ getExtbanFlags d := hletters d (letter_of_flags hd) hbang
  rw [readType, if_neg (by simp [hd])]
  simp [hneg]

lemma readType_negated (he : getExtbanFlags e ≠ []) (b : Str) : readType ('~' :: '!' :: e :: b)
      = some ('~' :: '!' :: e :: b.take 1, .negatemask :: getExtbanFlags e, b.drop 1) := by
  have hneg : getExtbanFlags '!' = [.negatemask] := rfl
  rw [readType, if_neg (by simp [hneg])]
  simp [hneg, he]

lemma readType_bare (he : getExtbanFlags e = []) (b : Str) :
    readType ('~' :: '!' :: e :: b) = some (['~', '!', e], [.negatemask], b) := by
  have hneg : getExtbanFlags '!' = [.negatemask] := rfl
  rw [readType, if_neg (by simp [hneg])]
  simp [hneg, he]

/-- A text that is no more than a type. `parse_extban`. -/
inductive Unfinished : Str → List Flag → Prop
  | plain (d : Char) : getExtbanFlags d ≠ [] → d ≠ '!' → Unfinished ['~', d] (getExtbanFlags d)
  | plainDelim (d c : Char) : getExtbanFlags d ≠ [] → d ≠ '!' → Unfinished ['~', d, c] (getExtbanFlags d)
  | bare : Unfinished ['~', '!'] [.negatemask]
  | bareDelim (c : Char) : getExtbanFlags c = [] → Unfinished ['~', '!', c] [.negatemask]
  | negated (e : Char) : getExtbanFlags e ≠ [] → Unfinished ['~', '!', e] (.negatemask :: getExtbanFlags e)
  | negatedDelim (e c : Char) : getExtbanFlags e ≠ [] →
      Unfinished ['~', '!', e, c] (.negatemask :: getExtbanFlags e)

lemma unfinished_of_readType (h : readType s = some (text, flags, [])) : text = s ∧ Unfinished s flags := by
  have heq := readType_append h
  rw [List.append_nil] at heq
  refine ⟨heq.symm, ?_⟩
  clear heq
  match s, h with
  | c :: d :: b, h =>
    have hno : c = '~' ∧ getExtbanFlags d ≠ [] := by
      rw [readType] at h
      split at h
      · cases h
      · rename_i hno
        rw [not_or, not_not] at hno
        exact hno
    obtain ⟨rfl, hd⟩ := hno
    by_cases hbang : d = '!'
    · subst hbang
      cases b with
      | nil =>
        obtain ⟨-, rfl⟩ : _ ∧ [Flag.negatemask] = flags := by simpa [readType, getExtbanFlags] using h
        exact .bare
      | cons e b =>
        by_cases he : getExtbanFlags e = []
        · rw [readType_bare he] at h
          obtain ⟨-, rfl, rfl⟩ : _ ∧ _ ∧ b = [] := by simpa using h
          exact .bareDelim e he
        · rw [readType_negated he] at h
          cases b with
          | nil =>
            obtain ⟨-, rfl⟩ : _ ∧ _ := by simpa using h
            exact .negated e he
          | cons f b =>
            obtain ⟨-, rfl, rfl⟩ : _ ∧ _ ∧ b = [] := by simpa using h
            exact .negatedDelim e f he
    · rw [readType_plain hd hbang] at h
      cases b with
      | nil =>
        obtain ⟨-, rfl⟩ : _ ∧ _ := by simpa using h
        exact .plain d hd hbang
      | cons e b =>
        obtain ⟨-, rfl, rfl⟩ : _ ∧ _ ∧ b = [] := by simpa using h
        exact .plainDelim d e hd hbang

/-- What such a text becomes when it is taken for an ordinary mask. `pretty_mask`. -/
def unfinishedMask : Str → Str
  | ['~', '!'] => maskText ['~'] [] ['*']
  | ['~', '!', c] => if c = '@' then maskText ['~'] [] [] else maskText ['~'] [c] ['*']
  | ['~', '!', e, c] => if c = '@' then maskText ['~'] [e] [] else maskText ['~'] [e, c] ['*']
  | ['~', d] => maskText ['~', d] ['*'] ['*']
  | ['~', d, c] =>
    if c = '!' then maskText ['~', d] [] ['*']
    else if c = '@' then maskText ['*'] ['~', d] []
    else if c = '.' ∨ c = ':' then maskText ['*'] ['*'] ['~', d, c]
    else maskText ['~', d, c] ['*'] ['*']
  | s => s

lemma Unfinished.canonical (h : Unfinished s flags) : Canonical (unfinishedMask s) := by
  have hsmall : ∀ {nick user host : Str}, Parts nick user host → Reduced nick → Reduced user → Reduced host →
      Canonical (maskText nick user host) :=
    fun hparts hnick huser hhost => ⟨_, _, _, rfl, hparts, hnick, huser, hhost⟩
  have htilde : ∀ d t, Reduced (d :: t) → Reduced ('~' :: d :: t) := by
    intro d t ht
    rw [Reduced, if_neg (by decide), if_neg fun h => absurd h.1 (by decide)]
    exact ht
  have hletter : ∀ d c, getExtbanFlags d ≠ [] → Reduced [d, c] := by
    intro d c hd
    have hd' := letter_of_flags hd
    rw [Reduced, if_neg (by rintro rfl; revert hd'; decide), if_neg (by rintro ⟨rfl, -⟩; revert hd'; decide)]
    trivial
  have hsign : ∀ d, getExtbanFlags d ≠ [] → d ≠ '@' := by
    rintro d hd rfl
    exact hd rfl
  cases h with
  | plain d hd hbang =>
    have hat := hsign d hd
    rw [unfinishedMask]
    · refine hsmall ⟨by simp [hbang.symm], by simp [hat.symm], by simp [nickLen], by decide, by decide,
        by decide⟩ (htilde d [] trivial) trivial trivial
    · exact hbang
  | plainDelim d c hd hbang =>
    have hat := hsign d hd
    rw [unfinishedMask]
    · split
      · exact hsmall ⟨by simp [hbang.symm], by simp [hat.symm], by simp [nickLen], by decide, by decide,
          by decide⟩ (htilde d [] trivial) trivial trivial
      · split
        · exact hsmall ⟨by decide, by decide, by decide, by simp [userLen], by decide, by decide⟩ trivial
            (htilde d [] trivial) trivial
        · rename_i hc hcat
          split
          · exact hsmall ⟨by decide, by decide, by decide, by decide, by simp [hat.symm, Ne.symm hcat],
              by simp [hostLen]⟩ trivial trivial (htilde d [c] (hletter d c hd))
          · exact hsmall ⟨by simp [hbang.symm, Ne.symm hc], by simp [hat.symm, Ne.symm hcat],
              by simp [nickLen], by decide, by decide, by decide⟩ (htilde d [c] (hletter d c hd)) trivial
              trivial
    · exact hbang
  | bare => exact hsmall ⟨by decide, by decide, by decide, by decide, by decide, by decide⟩ trivial trivial trivial
  | bareDelim c hc =>
    rw [unfinishedMask]
    split
    · exact hsmall ⟨by decide, by decide, by decide, by decide, by decide, by decide⟩ trivial trivial trivial
    · exact hsmall ⟨by decide, by decide, by decide, by simp [userLen], by decide, by decide⟩ trivial trivial
        trivial
  | negated e he =>
    have hat := hsign e he
    rw [unfinishedMask, if_neg hat]
    exact hsmall ⟨by decide, by decide, by decide, by simp [userLen], by decide, by decide⟩ trivial trivial
      trivial
  | negatedDelim e c he =>
    rw [unfinishedMask]
    split
    · exact hsmall ⟨by decide, by decide, by decide, by simp [userLen], by decide, by decide⟩ trivial trivial
        trivial
    · exact hsmall ⟨by decide, by decide, by decide, by simp [userLen], by decide, by decide⟩ trivial
        (hletter e c he) trivial

lemma Unfinished.prettyMask {s : Str} {flags : List Flag} (h : Unfinished s flags) :
    collapse (prettyMask s) = unfinishedMask s := by
  have hcanon := h.canonical
  suffices hmask : BanMask.prettyMask s = unfinishedMask s by
    obtain ⟨nick, user, host, heq, hparts, -⟩ := hcanon
    have hkeep := h.canonical.collapse_prettyMask
    rw [heq, prettyMask_mask hparts, ← heq] at hkeep
    rw [hmask, hkeep]
  clear hcanon
  have hsigns : ∀ d, getExtbanFlags d ≠ [] → d ≠ '@' ∧ d ≠ '.' ∧ d ≠ ':' := by
    intro d hd
    have hd' := letter_of_flags hd
    refine ⟨?_, ?_, ?_⟩ <;> rintro rfl <;> revert hd' <;> decide
  cases h with
  | plain d hd hbang =>
    obtain ⟨hat, hdot, hcolon⟩ := hsigns d hd
    rw [unfinishedMask]
    · simp [BanMask.prettyMask, maskParts, maskText, nickLen, hbang, hat, hdot.symm, hcolon.symm]
    · exact hbang
  | plainDelim d c hd hbang =>
    obtain ⟨hat, hdot, hcolon⟩ := hsigns d hd
    rw [unfinishedMask]
    · by_cases hc : c = '!'
      · subst hc
        simp [BanMask.prettyMask, maskParts, maskText, nickLen, cutStart, hbang, hat]
      · by_cases hcat : c = '@'
        · subst hcat
          simp [BanMask.prettyMask, maskParts, maskText, beforeLast, afterLast, cutStart, userLen, hbang, hat]
        · by_cases hsign : c = '.' ∨ c = ':'
          · obtain rfl | rfl := hsign <;>
              simp [BanMask.prettyMask, maskParts, maskText, cutStart, hostLen, hbang, hat]
          · rw [not_or] at hsign
            simp [BanMask.prettyMask, maskParts, maskText, nickLen, hbang, hat, hc, hcat, hsign.1, hsign.2,
              hdot.symm, hcolon.symm, Ne.symm hsign.1, Ne.symm hsign.2]
    · exact hbang
  | bare => decide +kernel
  | bareDelim c hc =>
    rw [unfinishedMask]
    by_cases hat : c = '@'
    · subst hat
      decide +kernel
    · simp [BanMask.prettyMask, maskParts, maskText, nickLen, userLen, cutStart, hat, Ne.symm hat]
  | negated e he =>
    obtain ⟨hat, -⟩ := hsigns e he
    simp [BanMask.prettyMask, maskParts, maskText, nickLen, userLen, cutStart, hat, Ne.symm hat, unfinishedMask]
  | negatedDelim e c he =>
    obtain ⟨hat, -⟩ := hsigns e he
    rw [unfinishedMask]
    by_cases hcat : c = '@'
    · subst hcat
      simp [BanMask.prettyMask, maskParts, maskText, nickLen, userLen, cutStart, beforeLast, afterLast]
    · simp [BanMask.prettyMask, maskParts, maskText, nickLen, userLen, cutStart, hcat, Ne.symm hat,
        Ne.symm hcat]

/-! ### Types and what is written of them -/

lemma kept_plain {d : Char} (hd : getExtbanFlags d ≠ []) (hbang : d ≠ '!')
    (hno : Flag.nochild ∉ getExtbanFlags d) (c : Char) (ht : t ≠ []) (hroom : 3 ≤ room)
    (n : ℕ) : Kept (n + 1) room ('~' :: d :: c :: t) ↔ Kept n (room - 3) t := by
  have htype : readType (['~', d, c] ++ t) = some (['~', d, c], getExtbanFlags d, t) :=
    readType_plain hd hbang (c :: t)
  exact kept_type htype ht hno hroom n

lemma kept_negated (he : getExtbanFlags e ≠ []) (hno : Flag.nochild ∉ getExtbanFlags e)
    (c : Char) (ht : t ≠ []) (hroom : 4 ≤ room) (n : ℕ) :
    Kept (n + 1) room ('~' :: '!' :: e :: c :: t) ↔ Kept n (room - 4) t := by
  have htype : readType (['~', '!', e, c] ++ t)
      = some (['~', '!', e, c], .negatemask :: getExtbanFlags e, t) := readType_negated he (c :: t)
  exact kept_type htype ht (by simp [hno]) hroom n

lemma kept_bare (hc : getExtbanFlags c = []) (ht : t ≠ [])
    (hroom : 3 ≤ room) (n : ℕ) : Kept (n + 1) room ('~' :: '!' :: c :: t) ↔ Kept n (room - 3) t := by
  have htype : readType (['~', '!', c] ++ t) = some (['~', '!', c], [.negatemask], t) := readType_bare hc t
  exact kept_type htype ht (by decide) hroom n

lemma not_kept_unfinished (h : readType s = some (text, flags, []))
    (hno : Flag.nochild ∉ flags) (hs : s.length < room) (n : ℕ) : ¬Kept n room s := by
  cases n with
  | zero => exact not_kept_zero room s
  | succ n =>
    obtain ⟨rfl, hunf⟩ := unfinished_of_readType h
    have hflags : flags.any Flag.isMasktype = false := by
      rw [readType_masktype h]
      exact decide_eq_false hno
    rw [Kept, innerText, h]
    simp only [if_true]
    rw [map_some, Option.some.injEq]
    intro heq
    have hlen := congrArg List.length heq
    have hpos : 0 < (maskOf flags text).length := by
      have hmask : maskOf flags text = maskOf [] text := by
        rw [maskOf, maskOf, hflags]
        rfl
      obtain ⟨nick, user, host, htext, -⟩ := canonical_maskOf text
      rw [hmask, htext, maskText]
      simp
    rw [List.length_take, length_append] at hlen
    omega

/-- Whether a type that nothing stands behind is read again as something else, with so many levels left behind
it; `top` when nothing stands in front of it either. `parse_extban`. -/
def tornEnd (top : Bool) (n : ℕ) : Str → Bool
  | ['~', '!'] => top || n == 0
  | ['~', '!', c] => if getExtbanFlags c ≠ [] then top || n == 0 else !(top && c == '@')
  | ['~', '!', _, c] => !(top && c == '@')
  | ['~', _] => top || n == 0
  | ['~', _, c] =>
    if c = '!' then true
    else if c = '@' ∨ c = '.' ∨ c = ':' then !top && n == 0
    else !top && decide (n ≤ 1)
  | _ => false

lemma Canonical.kept_iff (h : Canonical (c :: b)) (hc : c ≠ '~')
    (hroom : (c :: b).length ≤ room) (n : ℕ) : Kept n room (c :: b) ↔ n ≠ 0 := by
  cases n with
  | zero => exact iff_of_false (not_kept_zero room _) (not_not_intro rfl)
  | succ n => exact iff_of_true (h.kept hc hroom n) (Nat.succ_ne_zero n)

lemma Unfinished.kept_iff (h : Unfinished s flags) (hno : Flag.nochild ∉ flags) (hroom : 60 ≤ room) (n : ℕ) :
    Kept (n + 1) room (s ++ unfinishedMask s) ↔ tornEnd false n s = false := by
  have hcanon := h.canonical
  have hat : ∀ m r, 2 < r → ¬Kept m r ['@', '*'] := fun m r hr =>
    not_kept_other (by decide) (by decide) hr m
  cases h with
  | plain d hd hbang =>
    have hd' := letter_of_flags hd
    have hsmall : Canonical (maskText [d] ['*'] ['*']) :=
      ⟨_, _, _, rfl, ⟨by simp [hbang.symm], by rintro hmem; obtain rfl := List.mem_singleton.mp hmem; exact hd rfl, by simp [nickLen], by decide, by decide, by decide⟩, trivial, trivial, trivial⟩
    have htilde : d ≠ '~' := by
      rintro rfl
      exact hd rfl
    rw [unfinishedMask.eq_4 d hbang, tornEnd.eq_4 _ _ d hbang, Bool.false_or, beq_eq_false_iff_ne]
    refine (kept_plain hd hbang hno '~' (t := d :: ['!', '*', '@', '*']) (cons_ne_nil _ _) (by omega) n).trans ?_
    exact hsmall.kept_iff htilde (by simp; omega) n
  | plainDelim d c hd hbang =>
    rw [unfinishedMask.eq_5 d c hbang] at hcanon ⊢
    rw [tornEnd.eq_5 _ _ d c hbang]
    -- what is written, and the same once more behind it
    have hfirst : ∀ {t : Str}, t ≠ [] → (Kept (n + 1) room ('~' :: d :: c :: t) ↔ Kept n (room - 3) t) :=
      fun ht => kept_plain hd hbang hno c ht (by omega) n
    have hagain : ∀ {t : Str}, t ≠ [] → ∀ m,
        (Kept (m + 1) (room - 3) ('~' :: d :: c :: t) ↔ Kept m (room - 3 - 3) t) :=
      fun ht m => kept_plain hd hbang hno c ht (by omega) m
    by_cases hc : c = '!'
    · subst hc
      rw [if_pos rfl, if_pos rfl]
      refine iff_of_false (fun hkept => ?_) Bool.noConfusion
      have hnext := (hfirst (t := ['~', d, '!', '@', '*']) (cons_ne_nil _ _)).mp hkept
      cases n with
      | zero => exact not_kept_zero _ _ hnext
      | succ m => exact hat m _ (by omega) ((hagain (t := ['@', '*']) (cons_ne_nil _ _) m).mp hnext)
    · rw [if_neg hc] at hcanon ⊢
      rw [if_neg hc]
      by_cases hcat : c = '@'
      · subst hcat
        rw [if_pos rfl] at hcanon ⊢
        rw [if_pos (.inl rfl), Bool.not_false, Bool.true_and, beq_eq_false_iff_ne]
        refine (hfirst (t := ['*', '!', '~', d, '@']) (cons_ne_nil _ _)).trans ?_
        exact Canonical.kept_iff hcanon (by decide) (by simp; omega) n
      · rw [if_neg hcat] at hcanon ⊢
        by_cases hsign : c = '.' ∨ c = ':'
        · rw [if_pos hsign] at hcanon ⊢
          rw [if_pos (.inr hsign), Bool.not_false, Bool.true_and, beq_eq_false_iff_ne]
          refine (hfirst (t := ['*', '!', '*', '@', '~', d, c]) (cons_ne_nil _ _)).trans ?_
          exact Canonical.kept_iff hcanon (by decide) (by simp; omega) n
        · rw [if_neg hsign]
          rw [if_neg (by simp [hcat, hsign]), Bool.not_false, Bool.true_and, decide_eq_false_iff_not]
          refine (hfirst (t := ['~', d, c, '!', '*', '@', '*']) (cons_ne_nil _ _)).trans ?_
          have hsmall : Canonical (maskText [] ['*'] ['*']) :=
            ⟨_, _, _, rfl, ⟨by decide, by decide, by decide, by decide, by decide, by decide⟩, trivial,
              trivial, trivial⟩
          cases n with
          | zero => exact iff_of_false (not_kept_zero _ _) (by simp)
          | succ m =>
            refine (hagain (t := ['!', '*', '@', '*']) (cons_ne_nil _ _) m).trans ?_
            refine (hsmall.kept_iff (by decide) (by simp; omega) m).trans ?_
            omega
  | bare =>
    have hsmall : Canonical (maskText [] [] ['*']) :=
      ⟨_, _, _, rfl, ⟨by decide, by decide, by decide, by decide, by decide, by decide⟩, trivial, trivial,
        trivial⟩
    have hend : tornEnd false n ['~', '!'] = (n == 0) := rfl
    rw [hend, beq_eq_false_iff_ne]
    refine (kept_bare (c := '~') rfl (t := ['!', '@', '*']) (cons_ne_nil _ _) (by omega) n).trans ?_
    exact hsmall.kept_iff (by decide) (by simp; omega) n
  | bareDelim c hc =>
    have hend : tornEnd false n ['~', '!', c] = true := by
      rw [tornEnd, if_neg (not_not_intro hc)]
      rfl
    rw [hend]
    refine iff_of_false (fun hkept => ?_) Bool.noConfusion
    by_cases hcat : c = '@'
    · subst hcat
      have hnext := (kept_bare hc (t := ['~', '!', '@']) (cons_ne_nil _ _) (by omega) n).mp hkept
      exact not_kept_unfinished (readType_bare hc []) (by decide) (by simp; omega) n hnext
    · rw [unfinishedMask, if_neg hcat] at hkept
      have hnext := (kept_bare hc (t := ['~', '!', c, '@', '*']) (cons_ne_nil _ _) (by omega) n).mp hkept
      cases n with
      | zero => exact not_kept_zero _ _ hnext
      | succ m =>
        exact hat m _ (by omega) ((kept_bare hc (t := ['@', '*']) (cons_ne_nil _ _) (by omega) m).mp hnext)
  | negated e he =>
    have hcat : e ≠ '@' := by
      rintro rfl
      exact he rfl
    have hsmall : Canonical (maskText [] [e] ['*']) :=
      ⟨_, _, _, rfl, ⟨by decide, by decide, by decide, by simp [userLen], by decide, by decide⟩, trivial,
        trivial, trivial⟩
    rw [unfinishedMask, if_neg hcat, tornEnd, if_pos he, Bool.false_or, beq_eq_false_iff_ne]
    have hin : Flag.nochild ∉ getExtbanFlags e := fun hmem => hno (mem_cons_of_mem _ hmem)
    refine (kept_negated he hin '~' (t := ['!', e, '@', '*']) (cons_ne_nil _ _) (by omega) n).trans ?_
    exact hsmall.kept_iff (by decide) (by simp; omega) n
  | negatedDelim e c he =>
    have hin : Flag.nochild ∉ getExtbanFlags e := fun hmem => hno (mem_cons_of_mem _ hmem)
    have hend : tornEnd false n ['~', '!', e, c] = true := rfl
    rw [hend]
    refine iff_of_false (fun hkept => ?_) Bool.noConfusion
    by_cases hcat : c = '@'
    · subst hcat
      have hnext := (kept_negated he hin '@' (t := ['~', '!', e, '@']) (cons_ne_nil _ _) (by omega) n).mp hkept
      exact not_kept_unfinished (readType_negated he ['@']) hno (by simp; omega) n hnext
    · rw [unfinishedMask, if_neg hcat] at hkept
      have hnext := (kept_negated he hin c (t := ['~', '!', e, c, '@', '*']) (cons_ne_nil _ _) (by omega) n).mp hkept
      cases n with
      | zero => exact not_kept_zero _ _ hnext
      | succ m =>
        exact hat m _ (by omega) ((kept_negated he hin c (t := ['@', '*']) (cons_ne_nil _ _) (by omega) m).mp hnext)

lemma prettyExtmask_kept_iff (h : readType s = some (text, flags, rest)) (hrest : rest ≠ []) :
    prettyExtmask s = some s ↔ Kept maxLevel (banstrSize - 1) s := by
  rw [prettyExtmask_type h hrest]
  rfl

lemma Unfinished.prettyExtmask_iff (h : Unfinished s flags) : prettyExtmask (unfinishedMask s) =
    some (unfinishedMask s) ↔ Flag.nochild ∈ flags ∨ tornEnd true 4 s = false := by
  have hcanon := h.canonical
  -- an ordinary mask
  have hother : ∀ {c : Char} {b : Str}, c ≠ '~' → Canonical (c :: b) →
      prettyExtmask (c :: b) = some (c :: b) := by
    intro c b hc hm
    rw [prettyExtmask_other hc, hm.collapse_prettyMask]
  -- once more a type that nothing stands behind
  have hend : ∀ {m text : Str} {flags : List Flag}, readType m = some (text, flags, []) → Canonical m →
      prettyExtmask m = some m := by
    intro m text flags hm hc
    rw [prettyExtmask_unfinished hm, hc.collapse_prettyMask]
  -- a type with something behind it
  have hchild : ∀ {m text rest : Str} {flags : List Flag}, readType m = some (text, flags, rest) →
      rest ≠ [] → Flag.nochild ∈ flags → Canonical m → prettyExtmask m = some m := by
    intro m text rest flags hm hrest hno hc
    exact (prettyExtmask_kept_iff hm hrest).mpr
      (kept_nochild hm hrest hno (Nat.le_refl _) (Nat.le_sub_one_of_lt hc.length_lt) 4)
  have hstar : ∀ r, 1 < r → ¬Kept 4 r ['*'] := fun r hr => not_kept_other (by decide) (by decide) hr 4
  have hat : ∀ r, 2 < r → ¬Kept 4 r ['@', '*'] := fun r hr => not_kept_other (by decide) (by decide) hr 4
  cases h with
  | plain d hd hbang =>
    rw [unfinishedMask.eq_4 d hbang] at hcanon ⊢
    rw [tornEnd.eq_4 _ _ d hbang]
    have htype : readType ('~' :: d :: '!' :: ['*', '@', '*'])
        = some (['~', d, '!'], getExtbanFlags d, ['*', '@', '*']) := readType_plain hd hbang _
    by_cases hno : Flag.nochild ∈ getExtbanFlags d
    · exact iff_of_true (hchild htype nofun hno hcanon) (.inl hno)
    · refine iff_of_false (fun hkept => ?_) (by simp [hno])
      have hnext := (kept_plain hd hbang hno '!' (t := ['*', '@', '*']) nofun (by decide) 4).mp
        ((prettyExtmask_kept_iff htype nofun).mp hkept)
      exact not_kept_other (by decide) (by decide) (by decide) 4 hnext
  | plainDelim d c hd hbang =>
    rw [unfinishedMask.eq_5 d c hbang] at hcanon ⊢
    rw [tornEnd.eq_5 _ _ d c hbang]
    by_cases hc : c = '!'
    · subst hc
      rw [if_pos rfl] at hcanon ⊢
      have htype : readType ('~' :: d :: '!' :: ['@', '*'])
          = some (['~', d, '!'], getExtbanFlags d, ['@', '*']) := readType_plain hd hbang _
      by_cases hno : Flag.nochild ∈ getExtbanFlags d
      · exact iff_of_true (hchild htype nofun hno hcanon) (.inl hno)
      · refine iff_of_false (fun hkept => ?_) (by simp [hno])
        have hnext := (kept_plain hd hbang hno '!' (t := ['@', '*']) nofun (by decide) 4).mp
          ((prettyExtmask_kept_iff htype nofun).mp hkept)
        exact hat _ (by decide) hnext
    · have htorn : (if c = '!' then true else if c = '@' ∨ c = '.' ∨ c = ':' then !true && 4 == 0
          else !true && decide (4 ≤ 1)) = false := by
        rw [if_neg hc]
        split <;> rfl
      refine iff_of_true ?_ (.inr htorn)
      rw [if_neg hc] at hcanon ⊢
      by_cases hcat : c = '@'
      · rw [if_pos hcat] at hcanon ⊢
        exact hother (by decide) hcanon
      · rw [if_neg hcat] at hcanon ⊢
        by_cases hsign : c = '.' ∨ c = ':'
        · rw [if_pos hsign] at hcanon ⊢
          exact hother (by decide) hcanon
        · rw [if_neg hsign] at hcanon ⊢
          have htype : readType ('~' :: d :: c :: ['!', '*', '@', '*'])
              = some (['~', d, c], getExtbanFlags d, ['!', '*', '@', '*']) := readType_plain hd hbang _
          by_cases hno : Flag.nochild ∈ getExtbanFlags d
          · exact hchild htype nofun hno hcanon
          · have hsmall : Canonical (maskText [] ['*'] ['*']) :=
              ⟨_, _, _, rfl, ⟨by decide, by decide, by decide, by decide, by decide, by decide⟩, trivial,
                trivial, trivial⟩
            refine (prettyExtmask_kept_iff htype nofun).mpr ?_
            refine (kept_plain hd hbang hno c (t := ['!', '*', '@', '*']) nofun (by decide) 4).mpr ?_
            exact (hsmall.kept_iff (by decide) (by decide) 4).mpr (by decide)
  | bare =>
    refine iff_of_false (fun hkept => ?_) (by decide)
    have htype : readType ('~' :: '!' :: '@' :: ['*']) = some (['~', '!', '@'], [.negatemask], ['*']) :=
      readType_bare rfl _
    exact hstar _ (by decide) ((kept_bare rfl (t := ['*']) nofun (by decide) 4).mp
      ((prettyExtmask_kept_iff htype nofun).mp hkept))
  | bareDelim c hc =>
    rw [unfinishedMask] at hcanon ⊢
    rw [tornEnd, if_neg (not_not_intro hc)]
    by_cases hcat : c = '@'
    · rw [if_pos hcat] at hcanon ⊢
      exact iff_of_true (hend (readType_bare rfl []) hcanon) (.inr (by simp [hcat]))
    · rw [if_neg hcat] at hcanon ⊢
      refine iff_of_false (fun hkept => ?_) (by simp [hcat])
      have htype : readType ('~' :: '!' :: c :: ['@', '*']) = some (['~', '!', c], [.negatemask], ['@', '*']) :=
        readType_bare hc _
      exact hat _ (by decide) ((kept_bare hc (t := ['@', '*']) nofun (by decide) 4).mp
        ((prettyExtmask_kept_iff htype nofun).mp hkept))
  | negated e he =>
    have hcat : e ≠ '@' := by
      rintro rfl
      exact he rfl
    rw [unfinishedMask, if_neg hcat] at hcanon ⊢
    rw [tornEnd, if_pos he]
    have htype : readType ('~' :: '!' :: e :: '@' :: ['*'])
        = some (['~', '!', e, '@'], .negatemask :: getExtbanFlags e, ['*']) := readType_negated he _
    by_cases hno : Flag.nochild ∈ getExtbanFlags e
    · exact iff_of_true (hchild htype nofun (mem_cons_of_mem _ hno) hcanon) (.inl (mem_cons_of_mem _ hno))
    · refine iff_of_false (fun hkept => ?_) (by simp [hno])
      exact hstar _ (by decide) ((kept_negated he hno '@' (t := ['*']) nofun (by decide) 4).mp
        ((prettyExtmask_kept_iff htype nofun).mp hkept))
  | negatedDelim e c he =>
    rw [unfinishedMask] at hcanon ⊢
    rw [tornEnd]
    by_cases hcat : c = '@'
    · rw [if_pos hcat] at hcanon ⊢
      exact iff_of_true (hend (readType_negated he ['@']) hcanon) (.inr (by simp [hcat]))
    · rw [if_neg hcat] at hcanon ⊢
      have htype : readType ('~' :: '!' :: e :: c :: ['@', '*'])
          = some (['~', '!', e, c], .negatemask :: getExtbanFlags e, ['@', '*']) := readType_negated he _
      by_cases hno : Flag.nochild ∈ getExtbanFlags e
      · exact iff_of_true (hchild htype nofun (mem_cons_of_mem _ hno) hcanon) (.inl (mem_cons_of_mem _ hno))
      · refine iff_of_false (fun hkept => ?_) (by simp [hno, hcat])
        exact hat _ (by decide) ((kept_negated he hno c (t := ['@', '*']) nofun (by decide) 4).mp
          ((prettyExtmask_kept_iff htype nofun).mp hkept))

/-! ### All texts -/

lemma Reduced.take : {s : Str} → Reduced s → (n : ℕ) → Reduced (s.take n)
  | _, _, 0 => trivial
  | [], _, _ + 1 => trivial
  | [_], _, 1 => trivial
  | [_], _, _ + 2 => trivial
  | _ :: _ :: _, _, 1 => trivial
  | c :: d :: m, h, n + 2 => by
    rw [Reduced] at h
    rw [List.take_succ_cons, List.take_succ_cons, Reduced]
    split
    · rename_i hc
      rw [if_pos hc] at h
      exact ⟨h.1, Reduced.take h.2 (n + 1)⟩
    · rename_i hc
      rw [if_neg hc] at h
      split
      · rename_i hesc
        rw [if_pos hesc] at h
        exact Reduced.take h n
      · rename_i hesc
        rw [if_neg hesc] at h
        exact Reduced.take h (n + 1)

lemma Canonical.take {m : Str} (h : Canonical m) (hroom : nickLen + userLen + 2 ≤ room) :
    Canonical (m.take room) := by
  obtain ⟨nick, user, host, rfl, hparts, hnick, huser, hhost⟩ := h
  have hsplit : maskText nick user host = (nick ++ '!' :: user ++ ['@']) ++ host := by
    simp [maskText, append_assoc]
  have hlen : (nick ++ '!' :: user ++ ['@']).length ≤ room := by
    have hn := hparts.nickLen
    have hu := hparts.userLen
    simp only [length_append, List.length_cons, List.length_nil]
    omega
  refine ⟨nick, user, host.take (room - (nick ++ '!' :: user ++ ['@']).length), ?_,
    ⟨hparts.nickBang, hparts.nickAt, hparts.nickLen, hparts.userLen,
      fun hmem => hparts.hostAt (List.mem_of_mem_take hmem), ?_⟩, hnick, huser, hhost.take _⟩
  · rw [hsplit, take_append, take_of_length_le hlen]
    simp [maskText, append_assoc]
  · exact Nat.le_trans (List.length_take_le' ..) hparts.hostLen

lemma head_collapseRun_true (s : Str) : ∀ c ∈ (collapseRun true s).head?, c ≠ '~' := by
  induction s with
  | nil =>
    intro c hc
    obtain rfl : '*' = c := by simpa [collapseRun] using hc
    decide
  | cons x m ih =>
    rw [collapseRun.eq_2]
    split
    · exact ih
    · by_cases hany : x = '?'
      · subst hany
        intro c hc
        cases m with
        | nil =>
          obtain rfl : '?' = c := by simpa using hc
          decide
        | cons d m =>
          obtain rfl : '?' = c := by simpa using hc
          decide
      · intro c hc
        obtain rfl : '*' = c := by simpa [hany] using hc
        decide

lemma head_collapse_prettyMask (hc : c ≠ '~') (b : Str) :
    ∀ d ∈ (collapse (prettyMask (c :: b))).head?, d ≠ '~' := by
  -- the nick begins as the text does, when there is one
  have hnick : ∀ nick ∈ (maskParts (c :: b)).1, ∀ d ∈ nick.head?, d = c := by
    intro nick hnick d hd
    unfold maskParts at hnick
    split at hnick
    · split at hnick
      · exact (nomatch hnick)
      · obtain rfl := some.inj hnick
        exact (some.inj hd).symm
    · split at hnick
      · have htake : nick = (c :: b).takeWhile fun c => c ≠ '!' ∧ c ≠ '@' := by
          simp only at hnick
          split at hnick <;> exact (some.inj hnick).symm
        rw [htake, List.takeWhile_cons] at hd
        split at hd
        · exact (some.inj hd).symm
        · exact (nomatch hd)
      · exact (nomatch hnick)
  have hpretty : ∃ x m, x ≠ '~' ∧ prettyMask (c :: b) = x :: m := by
    rw [prettyMask]
    cases hparts : (maskParts (c :: b)).1 with
    | none => exact ⟨'*', _, by decide, rfl⟩
    | some nick =>
      cases nick with
      | nil => exact ⟨'!', _, by decide, rfl⟩
      | cons d nick =>
        obtain rfl := hnick _ hparts d rfl
        exact ⟨d, _, hc, rfl⟩
  obtain ⟨x, m, hx, heq⟩ := hpretty
  rw [heq, collapse_eq]
  by_cases hstar : x = '*'
  · subst hstar
    rw [collapseRun.eq_2, if_pos rfl]
    exact head_collapseRun_true m
  · rw [head_collapseRun hstar]
    intro d hd
    obtain rfl := some.inj hd
    exact hx

/-- A text that ends in a type which is read again as something else, with so many levels left. `parse_extban`. -/
def torn (top : Bool) : ℕ → Str → Bool
  | 0, _ => false
  | n + 1, s =>
    match readType s with
    | none => false
    | some (_, flags, rest) =>
      if .nochild ∈ flags then false
      else if rest = [] then tornEnd top n s
      else torn false n rest

lemma Canonical.ne_nil {m : Str} (h : Canonical m) : m ≠ [] := by
  obtain ⟨nick, user, host, rfl, -⟩ := h
  simp [maskText]

lemma readType_ne_nil (h : readType s = some (text, flags, rest)) : text ≠ [] := by
  match s, h with
  | c :: d :: b, h =>
    rw [readType] at h
    split at h
    · cases h
    · obtain ⟨rfl, -, -⟩ : _ ∧ _ ∧ _ := by simpa using h
      exact cons_ne_nil c _

lemma innerText_ne_nil {n : ℕ} (h : innerText n s = some t) : t ≠ [] := by
  cases n with
  | zero => exact (nomatch h)
  | succ n =>
    rw [innerText] at h
    cases htype : readType s with
    | none =>
      rw [htype] at h
      simp only at h
      split at h
      · exact (nomatch h)
      · obtain rfl := some.inj h
        exact (canonical_maskOf s).ne_nil
    | some r =>
      rw [htype] at h
      have htext := readType_ne_nil htype
      simp only at h
      split at h
      · obtain rfl := some.inj h
        exact List.append_ne_nil_of_left_ne_nil htext _
      · split at h
        · obtain rfl := some.inj h
          exact List.append_ne_nil_of_left_ne_nil htext _
        · obtain ⟨u, -, rfl⟩ := map_eq_some_iff.mp h
          exact List.append_ne_nil_of_left_ne_nil htext _

lemma Unfinished.length_le (h : Unfinished s flags) : s.length ≤ 4 ∧ (unfinishedMask s).length ≤ 8 := by
  cases h with
  | plain d hd hbang =>
    rw [unfinishedMask.eq_4 d hbang]
    simp [maskText]
  | plainDelim d c hd hbang =>
    rw [unfinishedMask.eq_5 d c hbang]
    repeat' split
    all_goals simp [maskText]
  | bare => decide
  | bareDelim c hc =>
    rw [unfinishedMask]
    split <;> simp [maskText]
  | negated e he =>
    rw [unfinishedMask]
    split <;> simp [maskText]
  | negatedDelim e c he =>
    rw [unfinishedMask]
    split <;> simp [maskText]

lemma Unfinished.twice (h : Unfinished s flags) (hno : Flag.nochild ∈ flags) :
    ∃ text rest, readType (s ++ s) = some (text, flags, rest) ∧ rest ≠ [] := by
  cases h with
  | plain d hd hbang => exact ⟨_, _, readType_plain hd hbang ['~', d], cons_ne_nil d []⟩
  | plainDelim d c hd hbang => exact ⟨_, _, readType_plain hd hbang [c, '~', d, c], cons_ne_nil '~' _⟩
  | bare => exact absurd hno (by decide)
  | bareDelim c hc => exact absurd hno (by decide)
  | negated e he => exact ⟨_, _, readType_negated he ['~', '!', e], cons_ne_nil '!' _⟩
  | negatedDelim e c he => exact ⟨_, _, readType_negated he [c, '~', '!', e, c], cons_ne_nil '~' _⟩

lemma kept_take_other (hc : c ≠ '~') (b : Str) (hroom : nickLen + userLen + 2 ≤ room)
    (n : ℕ) : Kept (n + 1) room ((maskOf [] (c :: b)).take room) := by
  have hcanon := (canonical_maskOf (c :: b)).take hroom
  have hhead : ∀ d ∈ ((maskOf [] (c :: b)).take room).head?, d ≠ '~' := by
    intro d hd
    have hpos : room ≠ 0 := by
      rintro rfl
      exact absurd hroom (by decide)
    rw [List.head?_take, if_neg hpos, maskOf, if_neg (by decide), List.head?_take,
      if_neg (show banstrSize - 1 ≠ 0 by decide)] at hd
    exact head_collapse_prettyMask hc _ d hd
  have hlen : ((maskOf [] (c :: b)).take room).length ≤ room := List.length_take_le ..
  cases htake : (maskOf [] (c :: b)).take room with
  | nil => exact absurd htake hcanon.ne_nil
  | cons d m =>
    rw [htake] at hcanon hhead hlen
    exact hcanon.kept (hhead d rfl) hlen n

lemma Unfinished.kept_take_iff (h : Unfinished s flags)
    (hmask : flags.any Flag.isMasktype = decide (Flag.nochild ∈ flags)) (hlow : 60 ≤ room)
    (hhigh : room ≤ banstrSize - 1) (n : ℕ) : Kept (n + 1) room ((s ++ maskOf flags s).take room) ↔
      (if Flag.nochild ∈ flags then false else tornEnd false n s) = false := by
  obtain ⟨hlen, hlen'⟩ := h.length_le
  have htake : s.take (banstrSize - 1) = s := take_of_length_le (by omega)
  by_cases hno : Flag.nochild ∈ flags
  · obtain ⟨text, rest, htype, hrest⟩ := h.twice hno
    have htwice : (s ++ s).length ≤ room := by
      rw [length_append]
      omega
    rw [if_pos hno, maskOf, if_pos (by simp [hmask, hno]), htake, take_of_length_le htwice]
    exact iff_of_true (kept_nochild htype hrest hno hhigh htwice n) rfl
  · have hwritten : (s ++ unfinishedMask s).length ≤ room := by
      rw [length_append]
      omega
    rw [if_neg hno, maskOf, if_neg (by simp [hmask, hno]), htake, h.prettyMask,
      take_of_length_le (l := unfinishedMask s) (by omega), take_of_length_le hwritten]
    exact h.kept_iff hno hlow n

lemma kept_take_iff : (n : ℕ) → (s : Str) → {t : Str} → innerText n s = some t → {room : ℕ} →
    97 + 4 * n ≤ room → room ≤ banstrSize - 1 → (Kept n room (t.take room) ↔ torn false n s = false)
  | 0, _, _, h, _, _, _ => nomatch h
  | n + 1, s, t, h, room, hlow, hhigh => by
    rw [innerText] at h
    rw [torn]
    cases htype : readType s with
    | none =>
      rw [htype] at h
      simp only at h
      split at h
      · exact (nomatch h)
      · rename_i hhead
        obtain rfl := some.inj h
        cases s with
        | nil => exact absurd rfl hhead
        | cons c b =>
          have hc : c ≠ '~' := by simpa using hhead
          have hroom : nickLen + userLen + 2 ≤ room := by
            rw [nickLen, userLen]
            omega
          exact iff_of_true (kept_take_other hc b hroom n) rfl
    | some r =>
      obtain ⟨text, flags, rest⟩ := r
      rw [htype] at h
      simp only at h ⊢
      by_cases hrest : rest = []
      · subst hrest
        rw [if_pos rfl] at h
        rw [if_pos rfl]
        obtain rfl := some.inj h
        have hmask := readType_masktype htype
        obtain ⟨rfl, hunf⟩ := unfinished_of_readType htype
        exact hunf.kept_take_iff hmask (by omega) hhigh n
      · rw [if_neg hrest] at h
        rw [if_neg hrest]
        have hswap := fun t' => (readType_swap htype hrest t').1
        have hlen : text.length ≤ 4 := (readType_swap htype hrest []).2
        have hroom : text.length ≤ room := by omega
        by_cases hno : Flag.nochild ∈ flags
        · rw [if_pos hno] at h
          rw [if_pos hno]
          obtain rfl := some.inj h
          refine iff_of_true ?_ rfl
          have hne : (rest.take (banstrSize - 1)).take (room - text.length) ≠ [] := by
            rw [List.take_take, ne_eq, take_eq_nil_iff, not_or]
            exact ⟨by simp only [banstrSize, nickLen, userLen, hostLen]; omega, hrest⟩
          have hshort := List.length_take_le room (text ++ rest.take (banstrSize - 1))
          rw [take_append, take_of_length_le hroom] at hshort ⊢
          exact kept_nochild (hswap _) hne hno hhigh hshort n
        · rw [if_neg hno] at h
          rw [if_neg hno]
          obtain ⟨u, hu, rfl⟩ := map_eq_some_iff.mp h
          have hne : u.take (room - text.length) ≠ [] := by
            rw [ne_eq, take_eq_nil_iff, not_or]
            exact ⟨by omega, innerText_ne_nil hu⟩
          rw [take_append, take_of_length_le hroom, kept_type (hswap _) hne hno hroom n]
          exact kept_take_iff n rest hu (by omega) (by omega)

/-- **The text of a ban is kept when it is read again, unless it is torn**. -/
theorem prettyExtmask_prettyExtmask_iff (s : Str) : prettyMask (prettyMask s) = prettyMask s ∧
      ∀ t, prettyExtmask s = some t → (prettyExtmask t = some t ↔ torn true maxLevel s = false) := by
  refine ⟨prettyMask_prettyMask s, fun t h => ?_⟩
  rw [maxLevel, torn]
  cases htype : readType s with
  | none =>
    cases s with
    | nil =>
      rw [prettyExtmask_bad htype nofun] at h
      exact (nomatch h)
    | cons c b =>
      have hc : c ≠ '~' := by
        rintro rfl
        rw [prettyExtmask_bad htype (by simp)] at h
        exact (nomatch h)
      refine iff_of_true ?_ rfl
      rw [prettyExtmask_other hc] at h
      obtain rfl := some.inj h
      have hcanon := canonical_collapse_prettyMask (c :: b)
      have hhead := head_collapse_prettyMask hc b
      cases hmask : collapse (prettyMask (c :: b)) with
      | nil => exact absurd hmask hcanon.ne_nil
      | cons d m =>
        rw [hmask] at hcanon hhead
        rw [prettyExtmask_other (hhead d rfl), hcanon.collapse_prettyMask]
  | some r =>
    obtain ⟨text, flags, rest⟩ := r
    simp only
    by_cases hrest : rest = []
    · subst hrest
      rw [if_pos rfl]
      rw [prettyExtmask_unfinished htype] at h
      obtain ⟨-, hunf⟩ := unfinished_of_readType htype
      rw [hunf.prettyMask] at h
      obtain rfl := some.inj h
      rw [hunf.prettyExtmask_iff]
      by_cases hno : Flag.nochild ∈ flags
      · simp [hno]
      · simp [hno]
    · rw [if_neg hrest]
      rw [prettyExtmask_type htype hrest] at h
      obtain ⟨u, hu, rfl⟩ := map_eq_some_iff.mp h
      have hiff := kept_take_iff maxLevel s hu (Nat.le_refl _) (Nat.le_refl _)
      rw [maxLevel, torn, htype] at hiff
      simp only at hiff
      rw [if_neg hrest] at hiff
      rw [← hiff]
      -- the text still begins with the type
      have hlen := (readType_swap htype hrest []).2
      obtain ⟨w, hw, rfl⟩ : ∃ w, w ≠ [] ∧ text ++ w = u := by
        rw [maxLevel, innerText, htype] at hu
        simp only at hu
        rw [if_neg hrest] at hu
        split at hu
        · refine ⟨rest.take (banstrSize - 1), ?_, some.inj hu⟩
          rw [ne_eq, take_eq_nil_iff, not_or]
          exact ⟨by decide, hrest⟩
        · obtain ⟨w, hw, heq⟩ := map_eq_some_iff.mp hu
          exact ⟨w, innerText_ne_nil hw, heq⟩
      have hroom : text.length < banstrSize - 1 := Nat.lt_of_le_of_lt hlen (by decide)
      have heq : (text ++ w).take (banstrSize - 1) = text ++ w.take (banstrSize - 1 - text.length) := by
        rw [take_append, take_of_length_le (Nat.le_of_lt hroom)]
      obtain ⟨v, hv⟩ : ∃ v, v = w.take (banstrSize - 1 - text.length) := ⟨_, rfl⟩
      have hne : v ≠ [] := by
        rw [hv, ne_eq, take_eq_nil_iff, not_or]
        exact ⟨by omega, hw⟩
      rw [← hv] at heq
      have hagain : readType ((text ++ w).take (banstrSize - 1)) = some (text, flags, v) := by
        rw [heq]
        exact (readType_swap htype hrest v).1
      exact prettyExtmask_kept_iff hagain hne

theorem prettyExtmask_prettyExtmask_iff_quiet : prettyExtmask "~q:bad".toList = some "~q:bad!*@*".toList ∧
    prettyExtmask "~q:bad!*@*".toList = some "~q:bad!*@*".toList := by
  have h : prettyExtmask "~q:bad".toList = some "~q:bad!*@*".toList := by decide +kernel
  exact ⟨h, ((prettyExtmask_prettyExtmask_iff _).2 _ h).mpr (by decide +kernel)⟩

/-- **A quiet with no mask is not kept**: `~q` becomes `~q!*@*`, and this becomes `~q!*!*@*`. -/
theorem quiet_twice : ¬ ∀ s t, prettyExtmask s = some t → prettyExtmask t = some t := by
  intro h
  have hsame := h "~q".toList "~q!*@*".toList (by decide +kernel)
  revert hsame
  decide +kernel

end Nefarious.BanMask
