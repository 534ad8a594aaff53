import Nefarious.Channel.BanMask.Canonical

/-!
# The text of an extended ban

An extended ban is written as types, each with its delimiter, and a mask behind them.
-/

namespace Nefarious.BanMask

open BanCache Crule

/-- One type at the start of a text: what it takes of the text with its delimiter, its flags, and the rest.
`channel.c` `parse_extban`. -/
def readType : Str → Option (Str × List Flag × Str)
  | c :: d :: b =>
    if c ≠ '~' ∨ getExtbanFlags d = [] then none
    else
      let more := if .negatemask ∈ getExtbanFlags d then (b.head?.map getExtbanFlags).getD [] else []
      let k := if more ≠ [] then 2 else 1
      some (c :: d :: b.take k, getExtbanFlags d ++ more, b.drop k)
  | _ => none

/-- A type has been read. `channel.c` `parse_extban`. -/
def Parsed.add (x : Parsed) (text : Str) (flags : List Flag) : Parsed :=
  { x with flags := x.flags ++ flags, pre := x.pre ++ text }

lemma readType_append : {s : Str} → {text rest : Str} → {flags : List Flag} →
    readType s = some (text, flags, rest) → s = text ++ rest
  | [], _, _, _, h => nomatch h
  | [_], _, _, _, h => nomatch h
  | c :: d :: b, text, rest, flags, h => by
    rw [readType] at h
    split at h
    · exact (nomatch h)
    · obtain ⟨rfl, -, rfl⟩ : _ ∧ _ ∧ _ := by simpa using h
      simp

/-- **What is read of a text is its first type, and what is read of the rest**. -/
theorem parseExtban_type {s text rest : Str} {flags : List Flag} (h : readType s = some (text, flags, rest))
    (n : ℕ) (x : Parsed) : parseExtban (n + 1) s x =
      if rest = [] then (0, x.add text flags)
      else if .nochild ∈ (x.add text flags).flags then
        (1, { x.add text flags with mask := rest.take (banstrSize - 1) }.finish)
      else if (parseExtban n rest (x.add text flags)).1 = 0 then
        (1, { (parseExtban n rest (x.add text flags)).2 with mask := rest.take (banstrSize - 1) }.finish)
      else parseExtban n rest (x.add text flags) := by
  match s, h with
  | c :: d :: b, h =>
    rw [readType] at h
    split at h
    · exact (nomatch h)
    · rename_i hno
      rw [not_or, not_not] at hno
      rw [parseExtban, if_neg (not_not_intro hno.1)]
      cases b with
      | nil =>
        obtain ⟨rfl, rfl, rfl⟩ : [c, d] = text ∧ getExtbanFlags d = flags ∧ [] = rest := by simpa using h
        simp [hno.2, Parsed.push, Parsed.add]
      | cons e b =>
        by_cases hneg : Flag.negatemask ∈ getExtbanFlags d
        · by_cases he : getExtbanFlags e = []
          · obtain ⟨rfl, rfl, rfl⟩ : [c, d, e] = text ∧ getExtbanFlags d = flags ∧ b = rest := by
              simpa [hneg, he] using h
            simp [hneg, he, hno.2, Parsed.push, Parsed.add]
            rfl
          · cases b with
            | nil =>
              obtain ⟨rfl, rfl, rfl⟩ :
                  [c, d, e] = text ∧ getExtbanFlags d ++ getExtbanFlags e = flags ∧ [] = rest := by
                simpa [hneg, he] using h
              simp [hneg, he, hno.2, Parsed.push, Parsed.add]
            | cons f b =>
              obtain ⟨rfl, rfl, rfl⟩ :
                  [c, d, e, f] = text ∧ getExtbanFlags d ++ getExtbanFlags e = flags ∧ b = rest := by
                simpa [hneg, he] using h
              simp [hneg, he, hno.2, Parsed.push, Parsed.add]
              rfl
        · obtain ⟨rfl, rfl, rfl⟩ : [c, d, e] = text ∧ getExtbanFlags d = flags ∧ b = rest := by
            simpa [hneg] using h
          simp [hneg, hno.2, Parsed.push, Parsed.add]
          rfl

lemma parseExtban_other {c : Char} (hc : c ≠ '~') (n : ℕ) (b : Str) (x : Parsed) :
    parseExtban (n + 1) (c :: b) x = (0, x) := by
  rw [parseExtban.eq_def]
  exact if_pos hc

lemma parseExtban_bad {s : Str} (h : readType s = none) (hs : ∀ c ∈ s.head?, c = '~') (n : ℕ) (x : Parsed) :
    (parseExtban n s x).1 = -1 := by
  cases n with
  | zero => rw [parseExtban]
  | succ n =>
    match s, h, hs with
    | [], _, _ => rw [parseExtban]
    | [c], _, hs =>
      rw [parseExtban, if_neg (not_not_intro (hs c rfl))]
    | c :: d :: b, h, hs =>
      have hc : c = '~' := hs c rfl
      rw [parseExtban, if_neg (not_not_intro hc)]
      by_cases hd : getExtbanFlags d = []
      · simp [hd]
      · rw [readType, if_neg (by simp [hc, hd])] at h
        exact (nomatch h)

lemma parseExtban_finish : (n : ℕ) → ∀ {s : Str} {x y : Parsed}, parseExtban n s x = (1, y) →
    ∃ z : Parsed, y = z.finish
  | 0, s, x, y, h => by
    rw [parseExtban] at h
    have hfst : (-1 : ℤ) = 1 := congrArg Prod.fst h
    exact absurd hfst (by decide)
  | n + 1, s, x, y, h => by
    cases htype : readType s with
    | none =>
      by_cases hs : ∀ c ∈ s.head?, c = '~'
      · have hbad := parseExtban_bad htype hs (n + 1) x
        rw [h] at hbad
        exact absurd hbad (show ¬(1 : ℤ) = -1 by decide)
      · cases s with
        | nil => exact absurd nofun hs
        | cons c b =>
          have hc : c ≠ '~' := fun e => hs fun d hd => Option.some.inj hd ▸ e
          rw [parseExtban_other hc] at h
          have hfst : (0 : ℤ) = 1 := congrArg Prod.fst h
          exact absurd hfst (by decide)
    | some t =>
      obtain ⟨text, flags, rest⟩ := t
      rw [parseExtban_type htype] at h
      split at h
      · have hfst : (0 : ℤ) = 1 := congrArg Prod.fst h
        exact absurd hfst (by decide)
      · split at h
        · exact ⟨_, (congrArg Prod.snd h).symm⟩
        · split at h
          · exact ⟨_, (congrArg Prod.snd h).symm⟩
          · exact parseExtban_finish n h

lemma Parsed.canonical_finish {z : Parsed} (h : z.finish.flags.any Flag.isMasktype = false) :
    Canonical z.finish.mask ∧ z.finish.nuLen = (beforeLast '@' z.finish.mask).length := by
  have hany : z.flags.any Flag.isMasktype = false := by
    unfold Parsed.finish at h
    rw [List.any_eq_false] at h ⊢
    intro f hf hmask
    have hkeep : f ≠ Flag.nochild := by
      rintro rfl
      exact Bool.false_ne_true hmask
    refine h f (List.mem_filter.mpr ⟨?_, by simpa using hkeep⟩) hmask
    split <;> exact hf
  have hcanon := canonical_collapse_prettyMask z.mask
  have htake : (collapse (prettyMask z.mask)).take (banstrSize - 1) = collapse (prettyMask z.mask) :=
    List.take_of_length_le (Nat.le_pred_of_lt hcanon.length_lt)
  unfold Parsed.finish
  rw [hany]
  simp only [Bool.false_eq_true, if_false, htake]
  exact ⟨hcanon, trivial⟩

end Nefarious.BanMask
