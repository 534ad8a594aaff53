import Nefarious.Strings

/-!
# Masks

`match` compares a name with a mask, and `mmatch` a mask with another one; both remember the last star only and
begin again behind it.

Names: `match.c`.
-/

namespace Nefarious

open Option (some.inj)
open List (length_cons length_drop)

/-! ### Comparing masks -/

/-- A wildcard. `mmatch`. -/
def isWild (c : Char) : Bool := c = '*' ∨ c = '?'

/-- Behind the first character of a mask, where a wildcard with its escape is one. `mmatch`. -/
def nextChar : Str → Str
  | c :: d :: s => if c = '\\' ∧ isWild d then s else d :: s
  | _ => []

/-- Behind the escape of a wildcard, and whether there is one. `mmatch` (`mq`, `nq`). -/
def unescape : Str → Bool × Str
  | c :: d :: s => if c = '\\' ∧ isWild d then (true, d :: s) else (false, c :: d :: s)
  | s => (false, s)

/-- The variables of `mmatch`. -/
structure MmatchState where
  m : Str
  n : Str
  /-- `ma`, behind the last star. -/
  ma : Str
  na : Str
  wild : Bool

/-- The mask ends in a star and question marks; the star is not its first character and not escaped. `mmatch`. -/
def endsWild (oldMask : Str) : Bool :=
  match oldMask.reverse.dropWhile (· = '?') with
  | c :: d :: _ => c = '*' ∧ d ≠ '\\'
  | _ => false

/-- The characters agree; the end of a mask has none. `mmatch`. -/
def charsAgree (mq nq : Bool) (m n : Option Char) : Bool :=
  (m = some '*' && !mq) || ((!mq || nq) && m.map toLower = n.map toLower) ||
    (m = some '?' && !mq && (n ≠ some '*' || nq))

/-- Pass the stars. `mmatch`. -/
def MmatchState.stars (s : MmatchState) : MmatchState :=
  if s.m.head? = some '*' then
    ⟨s.m.dropWhile (· = '*'), s.n, s.m.dropWhile (· = '*'), s.n, true⟩
  else s

/-- Begin again behind the last star, one character later. `mmatch`. -/
def MmatchState.again (s : MmatchState) : MmatchState :=
  { s with m := s.ma, n := nextChar s.na, na := nextChar s.na }

/-- Compare the characters; `none` is the answer 1. `mmatch`. -/
def MmatchState.compare (s : MmatchState) : Option MmatchState :=
  if charsAgree (unescape s.m).1 (unescape s.n).1 (unescape s.m).2.head? (unescape s.n).2.head? then
    some { s with m := (unescape s.m).2.drop 1, n := (unescape s.n).2.drop 1 }
  else if s.wild then some s.again
  else none

/-- The loop, so many times at most. `mmatch`. -/
def mmatchLoop (oldMask : Str) : ℕ → MmatchState → Option ℕ
  | 0, _ => none
  | k + 1, s =>
    if s.stars.m = [] then
      if s.stars.n = [] then some 0
      else if endsWild oldMask then some 0
      else if !s.stars.wild then some 1
      else match s.stars.again.compare with
        | some s => mmatchLoop oldMask k s
        | none => some 1
    else if s.stars.n = [] then some (if s.stars.m.all (· = '*') then 0 else 1)
    else match s.stars.compare with
      | some s => mmatchLoop oldMask k s
      | none => some 1

/-- How often a comparison can go round. -/
def rounds (mask name : Str) : ℕ := (mask.length + 2) * ((name.length + 2) * (mask.length + 2))

/-- Zero when `oldMask` is a superset of `newMask`. -/
def mmatch (oldMask newMask : Str) : ℕ :=
  (mmatchLoop oldMask (rounds oldMask newMask) ⟨oldMask, newMask, oldMask, newMask, false⟩).getD 1

/-! ### Comparing a name -/

/-- The variables of `match`. -/
structure MatchState where
  m : Str
  n : Str
  /-- `m_tmp` and `n_tmp`, when they do not stand at the beginning. -/
  tmp : Option (Str × Str)

/-- Begin again behind the last star, one character later. An error is the answer. `match` (`backtrack`). -/
def MatchState.backtrack (s : MatchState) : Except ℕ MatchState :=
  match s.tmp with
  | none => .error 1
  | some (mTmp, nTmp) =>
    if nTmp.drop 1 = [] then .error 1 else .ok ⟨mTmp, nTmp.drop 1, some (mTmp, nTmp.drop 1)⟩

/-- Compare a character. `match` (`default`). -/
def MatchState.char (s : MatchState) : Except ℕ MatchState :=
  match s.m, s.n with
  | [], [] => .error 0
  | _ :: _, [] => .error 1
  | [], _ :: _ => s.backtrack
  | c :: m, d :: n => if toLower c = toLower d then .ok ⟨m, n, s.tmp⟩ else s.backtrack

/-- Pass the wildcards: what is left of the mask and of the name, and whether there was a star. There is no
result when a question mark finds no character. `match`. -/
def passWilds : Str → Str → Bool → Option (Str × Str × Bool)
  | [], n, star => some ([], n, star)
  | c :: m, n, star =>
    if c = '*' then passWilds m n true
    else if c = '?' then
      match n with
      | [] => none
      | _ :: n => passWilds m n star
    else some (c :: m, n, star)

/-- One round of the loop. Behind a wildcard a backslash is no escape unless there was a star. `match`. -/
def MatchState.step (s : MatchState) : Except ℕ MatchState :=
  match s.m with
  | [] => if s.n = [] then .error 0 else s.backtrack
  | c :: m =>
    if c = '\\' then
      if m.head? = s.n.head? then .ok ⟨m.drop 1, s.n.drop 1, s.tmp⟩ else s.backtrack
    else if isWild c then
      match passWilds (c :: m) s.n false with
      | none => s.backtrack
      | some (m, n, false) => MatchState.char ⟨m, n, s.tmp⟩
      | some ([], _, true) => .error 0
      | some (d :: m, n, true) =>
        if d = '\\' then
          if m = [] then .error 1
          else MatchState.char ⟨m, n.dropWhile (fun e => some e ≠ m.head?), some (m, n)⟩
        else MatchState.char ⟨d :: m, n.dropWhile (fun e => toLower e ≠ toLower d), some (d :: m, n)⟩
    else s.char

/-- The loop, so many times at most. `match`. -/
def matchLoop : ℕ → MatchState → Option ℕ
  | 0, _ => none
  | k + 1, s =>
    match s.step with
    | .error r => some r
    | .ok s => matchLoop k s

/-- Zero when the mask matches the name. `match`. -/
def matchMask (mask name : Str) : ℕ := (matchLoop (rounds mask name) ⟨mask, name, none⟩).getD 1

example : mmatch "*!*@*.com".toList "*bad!u?@host.COM".toList = 0 ∧ mmatch "a?".toList "a*".toList = 1 ∧
    matchMask "*b?d*".toList "A bad BEd".toList = 0 ∧ matchMask "\\Ab".toList "ab".toList = 1 := by
  decide +kernel

/-! ### The bounds of the loops -/

/-- Three lengths, the first of them the most significant one. -/
def lexSize (i j a b c : ℕ) : ℕ := a * ((j + 2) * (i + 2)) + b * (i + 2) + c

lemma lexSize_lt {i j a b c a' b' c' : ℕ} (ha : a' < a) (hb : b' ≤ j + 1) (hc : c' ≤ i) :
    lexSize i j a' b' c' < lexSize i j a b c := by
  have hfirst : (a' + 1) * ((j + 2) * (i + 2)) ≤ a * ((j + 2) * (i + 2)) := Nat.mul_le_mul_right _ ha
  have hsecond : b' * (i + 2) ≤ (j + 1) * (i + 2) := Nat.mul_le_mul_right _ hb
  have hstep : (j + 2) * (i + 2) = (j + 1) * (i + 2) + (i + 2) := Nat.succ_mul ..
  rw [Nat.succ_mul] at hfirst
  unfold lexSize
  omega

lemma lexSize_lt_of_snd {i j a b c b' c' : ℕ} (hb : b' < b) (hc : c' ≤ i) :
    lexSize i j a b' c' < lexSize i j a b c := by
  have hsecond : (b' + 1) * (i + 2) ≤ b * (i + 2) := Nat.mul_le_mul_right _ hb
  rw [Nat.succ_mul] at hsecond
  unfold lexSize
  omega

lemma lexSize_lt_of_trd {i j a b c c' : ℕ} (hc : c' < c) : lexSize i j a b c' < lexSize i j a b c := by
  unfold lexSize
  omega

lemma lexSize_start (mask name : Str) :
    lexSize mask.length name.length (mask.length + 1) (name.length + 1) mask.length < rounds mask name := by
  unfold lexSize rounds
  have hstep : (name.length + 2) * (mask.length + 2)
      = (name.length + 1) * (mask.length + 2) + (mask.length + 2) := Nat.succ_mul ..
  have hfirst : (mask.length + 2) * ((name.length + 2) * (mask.length + 2))
      = (mask.length + 1) * ((name.length + 2) * (mask.length + 2))
        + (name.length + 2) * (mask.length + 2) := Nat.succ_mul ..
  omega

lemma length_unescape_le (s : Str) : (unescape s).2.length ≤ s.length := by
  unfold unescape
  split
  · split <;> simp
  · exact Nat.le_refl _

lemma length_nextChar_lt : {s : Str} → s ≠ [] → (nextChar s).length < s.length
  | [], h => absurd rfl h
  | [_], _ => by simp [nextChar]
  | c :: d :: s, _ => by
    rw [nextChar]
    simp only [length_cons]
    split
    · omega
    · rw [length_cons]
      omega

lemma length_nextChar_le (s : Str) : (nextChar s).length ≤ s.length := by
  by_cases hs : s = []
  · rw [hs]
    exact Nat.le_refl _
  · exact Nat.le_of_lt (length_nextChar_lt hs)

namespace MmatchState

/-- The lengths of the masks bound the variables. -/
structure Within (i j : ℕ) (s : MmatchState) : Prop where
  m_le : s.m.length ≤ i
  n_le : s.n.length ≤ j
  ma_le : s.ma.length ≤ i
  na_le : s.na.length ≤ j
  m_le_ma : s.wild → s.m.length ≤ s.ma.length
  n_le_na : s.wild → s.n.length ≤ s.na.length

/-- What goes down from round to round. -/
def size (i j : ℕ) (s : MmatchState) : ℕ :=
  if s.wild then lexSize i j s.ma.length s.na.length s.m.length
  else lexSize i j (i + 1) (j + 1) s.m.length

variable {i j : ℕ} {s s' : MmatchState}

lemma Within.stars (h : s.Within i j) : s.stars.Within i j ∧ s.stars.size i j ≤ s.size i j := by
  unfold MmatchState.stars
  split
  · rename_i hstar
    obtain ⟨m, hm⟩ : ∃ m, s.m = '*' :: m := by
      cases hs : s.m with
      | nil => rw [hs] at hstar; exact (nomatch hstar)
      | cons c m =>
        rw [hs] at hstar
        exact ⟨m, by rw [some.inj hstar]⟩
    have hlt : (s.m.dropWhile (· = '*')).length < s.m.length := by
      rw [hm, List.dropWhile_cons_of_pos (by simp), length_cons]
      exact Nat.lt_succ_of_le (List.length_dropWhile_le ..)
    have hle := Nat.le_trans (Nat.le_of_lt hlt) h.m_le
    refine ⟨⟨hle, h.n_le, hle, h.n_le, fun _ => Nat.le_refl _, fun _ => Nat.le_refl _⟩, Nat.le_of_lt ?_⟩
    have hn := h.n_le
    have hm := h.m_le
    unfold size
    split
    · split
      · rename_i hwild
        exact lexSize_lt (Nat.lt_of_lt_of_le hlt (h.m_le_ma hwild)) (by simp only; omega) hle
      · exact lexSize_lt (by simp only; omega) (by simp only; omega) hle
    · rename_i hwild
      exact absurd rfl hwild
  · exact ⟨h, Nat.le_refl _⟩

lemma Within.again (h : s.Within i j) (hwild : s.wild = true) : s.again.Within i j ∧ (s.na ≠ [] →
    s.again.size i j < s.size i j) ∧ (s.m = s.ma → s.again.size i j ≤ s.size i j) := by
  have hle := Nat.le_trans (length_nextChar_le s.na) h.na_le
  refine ⟨⟨h.ma_le, hle, h.ma_le, hle, fun _ => Nat.le_refl _, fun _ => Nat.le_refl _⟩,
    fun hna => ?_, fun hm => ?_⟩
  · unfold size
    rw [if_pos hwild, if_pos (show s.again.wild = true from hwild)]
    exact lexSize_lt_of_snd (length_nextChar_lt hna) h.ma_le
  · obtain hlt | heq := Nat.lt_or_eq_of_le (length_nextChar_le s.na)
    · unfold size
      rw [if_pos hwild, if_pos (show s.again.wild = true from hwild)]
      exact Nat.le_of_lt (lexSize_lt_of_snd hlt h.ma_le)
    · unfold size
      rw [if_pos hwild, if_pos (show s.again.wild = true from hwild), hm,
        show s.again.na.length = s.na.length from heq]
      exact Nat.le_refl _

lemma Within.compare (h : s.Within i j) (heq : s.compare = some s') : s'.Within i j ∧ (s.m ≠ [] → (s.wild =
    true → s.na ≠ []) → s'.size i j < s.size i j) ∧ (s.m = s.ma → s'.size i j ≤ s.size i j) := by
  have hm := length_unescape_le s.m
  have hn := length_unescape_le s.n
  unfold MmatchState.compare at heq
  split at heq
  · obtain rfl := some.inj heq
    have hlm : ((unescape s.m).2.drop 1).length ≤ s.m.length := by rw [length_drop]; omega
    have hln : ((unescape s.n).2.drop 1).length ≤ s.n.length := by rw [length_drop]; omega
    refine ⟨⟨Nat.le_trans hlm h.m_le, Nat.le_trans hln h.n_le, h.ma_le, h.na_le,
      fun hw => Nat.le_trans hlm (h.m_le_ma hw), fun hw => Nat.le_trans hln (h.n_le_na hw)⟩,
      fun hne _ => ?_, fun _ => ?_⟩
    · have hlt : ((unescape s.m).2.drop 1).length < s.m.length := by
        have := List.length_pos_iff.mpr hne
        rw [length_drop]
        omega
      unfold size
      split
      · exact lexSize_lt_of_trd hlt
      · exact lexSize_lt_of_trd hlt
    · unfold size lexSize
      split
      · exact Nat.add_le_add_left hlm _
      · exact Nat.add_le_add_left hlm _
  · split at heq
    · rename_i hwild
      obtain rfl := some.inj heq
      obtain ⟨hwithin, hlt, hle⟩ := h.again hwild
      exact ⟨hwithin, fun _ hna => hlt (hna hwild), hle⟩
    · exact (nomatch heq)

end MmatchState

lemma mmatchLoop_isSome {oldMask : Str} {i j : ℕ} : (k : ℕ) → ∀ {s : MmatchState}, s.Within i j →
    s.size i j < k → (mmatchLoop oldMask k s).isSome
  | 0, s, _, hk => absurd hk (Nat.not_lt_zero _)
  | k + 1, s, h, hk => by
    obtain ⟨hstars, hsize⟩ := h.stars
    -- `n` is behind `na`, so `na` is not at its end while `n` is not
    have hna : s.stars.n ≠ [] → s.stars.wild = true → s.stars.na ≠ [] := by
      intro hn hwild hnil
      have hle := hstars.n_le_na hwild
      rw [hnil] at hle
      exact hn (List.length_eq_zero_iff.mp (Nat.le_zero.mp hle))
    rw [mmatchLoop]
    split
    · split
      · rfl
      · rename_i hn
        split
        · rfl
        · split
          · rfl
          · rename_i hwild
            have hwild : s.stars.wild = true := by simpa using hwild
            obtain ⟨hagain, hlt, -⟩ := hstars.again hwild
            have hlt := hlt (hna hn hwild)
            cases hc : s.stars.again.compare with
            | none => rfl
            | some s' =>
              obtain ⟨hwithin, -, hle⟩ := hagain.compare hc
              have hle := hle rfl
              exact mmatchLoop_isSome k hwithin (by omega)
    · rename_i hm
      split
      · rfl
      · rename_i hn
        cases hc : s.stars.compare with
        | none => rfl
        | some s' =>
          obtain ⟨hwithin, hlt, -⟩ := hstars.compare hc
          have hlt := hlt hm (hna hn)
          exact mmatchLoop_isSome k hwithin (by omega)

lemma mmatch_eq (oldMask newMask : Str) : mmatchLoop oldMask (rounds oldMask newMask) ⟨oldMask, newMask,
    oldMask, newMask, false⟩ = some (mmatch oldMask newMask) := by
  have hsome : (mmatchLoop oldMask (rounds oldMask newMask)
      ⟨oldMask, newMask, oldMask, newMask, false⟩).isSome := by
    refine mmatchLoop_isSome (i := oldMask.length) (j := newMask.length) _
      ⟨Nat.le_refl _, Nat.le_refl _, Nat.le_refl _, Nat.le_refl _, nofun, nofun⟩ ?_
    exact lexSize_start oldMask newMask
  obtain ⟨r, hr⟩ := Option.isSome_iff_exists.mp hsome
  rw [mmatch, hr]
  rfl

lemma passWilds_length : (m : Str) → ∀ {n m' n' : Str} {star star' : Bool},
    passWilds m n star = some (m', n', star') → m'.length ≤ m.length ∧ n'.length ≤ n.length
  | [], n, m', n', star, star', h => by
    obtain ⟨rfl, rfl, -⟩ : [] = m' ∧ n = n' ∧ star = star' := by simpa [passWilds] using h
    exact ⟨Nat.le_refl _, Nat.le_refl _⟩
  | c :: m, n, m', n', star, star', h => by
    simp only [passWilds] at h
    rw [length_cons]
    split at h
    · obtain ⟨hm, hn⟩ := passWilds_length m h
      omega
    · split at h
      · cases n with
        | nil => exact (nomatch h)
        | cons d n =>
          obtain ⟨hm, hn⟩ := passWilds_length m h
          rw [length_cons]
          omega
      · obtain ⟨rfl, rfl, -⟩ : c :: m = m' ∧ n = n' ∧ star = star' := by simpa using h
        exact ⟨Nat.le_refl _, Nat.le_refl _⟩

lemma passWilds_length_lt {c : Char} {m n m' n' : Str} {star star' : Bool} (hc : isWild c = true)
    (h : passWilds (c :: m) n star = some (m', n', star')) : m'.length < (c :: m).length := by
  have hwild : c = '*' ∨ c = '?' := by simpa [isWild] using hc
  simp only [passWilds] at h
  rw [length_cons]
  split at h
  · exact Nat.lt_succ_of_le (passWilds_length m h).1
  · rename_i hne
    rw [if_pos (hwild.resolve_left hne)] at h
    cases n with
    | nil => exact (nomatch h)
    | cons d n => exact Nat.lt_succ_of_le (passWilds_length m h).1

namespace MatchState

/-- The lengths of the mask and the name bound the variables. -/
structure Within (i j : ℕ) (s : MatchState) : Prop where
  m_le : s.m.length ≤ i
  n_le : s.n.length ≤ j
  tmp_le : ∀ t ∈ s.tmp, s.m.length ≤ t.1.length ∧ t.1.length ≤ i ∧ t.2.length ≤ j

/-- What goes down from round to round. -/
def size (i j : ℕ) (s : MatchState) : ℕ :=
  match s.tmp with
  | none => lexSize i j (i + 1) (j + 1) s.m.length
  | some t => lexSize i j t.1.length t.2.length s.m.length

variable {i j : ℕ} {s s' : MatchState}

lemma Within.forward {m n : Str} (h : s.Within i j) (hm : m.length < s.m.length)
    (hn : n.length ≤ s.n.length) :
    MatchState.Within i j ⟨m, n, s.tmp⟩ ∧ MatchState.size i j ⟨m, n, s.tmp⟩ < s.size i j := by
  have hle := h.m_le
  refine ⟨⟨by simp only; omega, Nat.le_trans hn h.n_le, fun t ht => ?_⟩, ?_⟩
  · obtain ⟨hmt, ht⟩ := h.tmp_le t ht
    exact ⟨by simp only; omega, ht⟩
  · unfold size
    cases s.tmp with
    | none => exact lexSize_lt_of_trd hm
    | some t => exact lexSize_lt_of_trd hm

lemma Within.star {m n nTmp : Str} (h : s.Within i j) (hm : m.length < s.m.length)
    (hn : n.length ≤ nTmp.length) (htmp : nTmp.length ≤ s.n.length) :
    MatchState.Within i j ⟨m, n, some (m, nTmp)⟩ ∧ MatchState.size i j ⟨m, n, some (m, nTmp)⟩ < s.size i j := by
  have hle := h.m_le
  have hnle := h.n_le
  refine ⟨⟨by simp only; omega, by simp only; omega, fun t ht => ?_⟩, ?_⟩
  · obtain rfl := some.inj ht
    exact ⟨Nat.le_refl _, by simp only; omega, by simp only; omega⟩
  · unfold size
    cases ht : s.tmp with
    | none => exact lexSize_lt (by simp only; omega) (by simp only; omega) (by simp only; omega)
    | some t =>
      have := (h.tmp_le t ht).1
      exact lexSize_lt (by simp only; omega) (by simp only; omega) (by simp only; omega)

lemma Within.backtrack (h : s.Within i j) (heq : s.backtrack = .ok s') :
    s'.Within i j ∧ s'.size i j < s.size i j := by
  unfold MatchState.backtrack at heq
  cases ht : s.tmp with
  | none =>
    rw [ht] at heq
    exact (nomatch heq)
  | some t =>
    obtain ⟨mTmp, nTmp⟩ := t
    obtain ⟨-, hm, hn⟩ := h.tmp_le _ ht
    simp only [ht] at heq
    split at heq
    · exact (nomatch heq)
    · rename_i hne
      obtain rfl := Except.ok.inj heq
      have hpos : 0 < nTmp.length := by
        refine List.length_pos_iff.mpr fun e => hne ?_
        rw [e]
        rfl
      have hlt : (nTmp.drop 1).length < nTmp.length := by
        rw [length_drop]
        omega
      have hle : (nTmp.drop 1).length ≤ j := Nat.le_trans (Nat.le_of_lt hlt) hn
      refine ⟨⟨hm, hle, fun t ht' => ?_⟩, ?_⟩
      · obtain rfl := some.inj ht'
        exact ⟨Nat.le_refl _, hm, hle⟩
      · unfold size
        rw [ht]
        exact lexSize_lt_of_snd hlt hm

lemma Within.char (h : s.Within i j) (heq : s.char = .ok s') : s'.Within i j ∧ s'.size i j < s.size i j := by
  unfold MatchState.char at heq
  split at heq
  · exact (nomatch heq)
  · exact (nomatch heq)
  · exact h.backtrack heq
  · rename_i c m d n hm hn
    split at heq
    · obtain rfl := Except.ok.inj heq
      exact h.forward (by rw [hm]; simp) (by rw [hn]; simp)
    · exact h.backtrack heq

lemma Within.step (h : s.Within i j) (heq : s.step = .ok s') : s'.Within i j ∧ s'.size i j < s.size i j := by
  unfold MatchState.step at heq
  split at heq
  · split at heq
    · cases heq
    · exact h.backtrack heq
  · rename_i c m hm
    split at heq
    · split at heq
      · obtain rfl := Except.ok.inj heq
        exact h.forward (by rw [hm, length_drop, length_cons]; omega)
          (by rw [length_drop]; omega)
      · exact h.backtrack heq
    · split at heq
      · rename_i hwild
        split at heq
        · exact h.backtrack heq
        · rename_i m' n' hpass
          have hlt := passWilds_length_lt hwild hpass
          rw [← hm] at hlt hpass
          obtain ⟨hwithin, hsize⟩ := h.forward hlt (passWilds_length _ hpass).2
          obtain ⟨hchar, hchar'⟩ := hwithin.char heq
          exact ⟨hchar, Nat.lt_trans hchar' hsize⟩
        · cases heq
        · rename_i d m' n' hpass
          have hlt := passWilds_length_lt hwild hpass
          rw [← hm] at hlt hpass
          have hn := (passWilds_length _ hpass).2
          split at heq
          · split at heq
            · cases heq
            · rw [length_cons] at hlt
              obtain ⟨hwithin, hsize⟩ := h.star (Nat.lt_of_succ_lt hlt)
                (List.length_dropWhile_le (fun e => some e ≠ m'.head?) n') hn
              obtain ⟨hchar, hchar'⟩ := hwithin.char heq
              exact ⟨hchar, Nat.lt_trans hchar' hsize⟩
          · obtain ⟨hwithin, hsize⟩ := h.star hlt
              (List.length_dropWhile_le (fun e => toLower e ≠ toLower d) n') hn
            obtain ⟨hchar, hchar'⟩ := hwithin.char heq
            exact ⟨hchar, Nat.lt_trans hchar' hsize⟩
      · exact h.char heq

end MatchState

lemma matchLoop_isSome {i j : ℕ} : (k : ℕ) → ∀ {s : MatchState}, s.Within i j → s.size i j < k →
    (matchLoop k s).isSome
  | 0, s, _, hk => absurd hk (Nat.not_lt_zero _)
  | k + 1, s, h, hk => by
    rw [matchLoop]
    cases hs : s.step with
    | error r => rfl
    | ok s' =>
      obtain ⟨hwithin, hlt⟩ := h.step hs
      exact matchLoop_isSome k hwithin (by omega)

lemma matchMask_eq (mask name : Str) :
    matchLoop (rounds mask name) ⟨mask, name, none⟩ = some (matchMask mask name) := by
  have hsome : (matchLoop (rounds mask name) ⟨mask, name, none⟩).isSome := by
    refine matchLoop_isSome (i := mask.length) (j := name.length) _
      ⟨Nat.le_refl _, Nat.le_refl _, nofun⟩ ?_
    exact lexSize_start mask name
  obtain ⟨r, hr⟩ := Option.isSome_iff_exists.mp hsome
  rw [matchMask, hr]
  rfl

end Nefarious
