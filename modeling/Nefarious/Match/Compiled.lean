import Nefarious.Match.Collapse

/-!
# Compiled masks

`matchcomp` writes a mask in a code of its own: the letters in lower case, `A` for a question mark, `Z` for
stars, and what stands behind the last star turned round and put behind the first one.

Names: `match.c`.
-/

namespace Nefarious.Compiled

open List (append_assoc append_nil concat_eq_append cons_append drop_left eq_nil_or_concat forall_mem_cons
  length_append length_cons length_drop length_nil length_take map_drop map_nil sum_cons sum_nil
  take_append_drop take_left)

open Lib.Glob

/-! ### Compiling -/

/-- The variables of `matchcomp`. -/
structure Comp where
  b : Str
  fs : Option ℕ
  ls : Option ℕ
  star : Bool
  cnt : ℕ

/-- A star that has been read is written. `matchcomp`. -/
def Comp.writeStar (s : Comp) : Comp :=
  if s.star then ⟨s.b ++ ['Z'], s.fs.or (some s.b.length), some s.b.length, false, s.cnt⟩ else s

/-- A character that is no wildcard. `matchcomp` (`default`). -/
def Comp.char (s : Comp) (ch : Char) : Comp :=
  { s.writeStar with b := s.writeStar.b ++ [toLower ch], cnt := s.cnt + 1 }

/-- The loop over the mask. `matchcomp`. -/
def compLoop : Str → Comp → Comp
  | [], s => s
  | c :: m, s =>
    if c = '*' then compLoop m { s with star := true }
    else if c = '?' then compLoop m { s with b := s.b ++ ['A'], cnt := s.cnt + 1 }
    else
      match m with
      | [] => s.char c
      | d :: m => if c = '\\' ∧ isWild d then compLoop m (s.char d) else compLoop (d :: m) (s.char c)

/-- Exchange `n` characters at `x1` and at `x2`. `matchcomp`. -/
def swapAt (b : Str) (x1 x2 n : ℕ) : Str :=
  b.take x1 ++ (b.drop x2).take n ++ (b.drop (x1 + n)).take (x2 - (x1 + n)) ++ (b.drop x1).take n ++ b.drop (x2 + n)

/-- The blocks of `l1` and `l2` characters at `x1` change places. `matchcomp`. -/
def swapBlocks (b : Str) (x1 l1 l2 : ℕ) : Str :=
  if _h : min l1 l2 = 0 then b
  else
    swapBlocks (swapAt b x1 (x1 + l1) (min l1 l2)) (x1 + min l1 l2)
      (if l1 < l2 then l1 else l1 - min l1 l2) (if l2 < l1 then l2 else l2 - min l1 l2)
termination_by l1 + l2
decreasing_by
  split
  · split
    · omega
    · omega
  · split
    · omega
    · omega

/-- Compile a mask: the compiled mask and `minlen`. -/
def matchcomp (mask : Str) : Str × ℕ :=
  let s := (compLoop mask ⟨[], none, none, false, 0⟩).writeStar
  match s.fs, s.ls with
  | some fs, some ls =>
    -- what is behind the last star is turned round
    let b := s.b.take (ls + 1) ++ (s.b.drop (ls + 1)).reverse
    (swapBlocks b fs (ls - fs) (b.length - ls), s.cnt)
  | _, _ => (s.b, s.cnt)

/-! ### Executing -/

/-- Compare the head: what is left behind the first star and of the string, or the answer. `matchexec` (`tryhead`). -/
def tryhead : Str → Str → Except ℕ (Str × Str)
  | b, [] => .error (if b = [] ∨ b = ['Z'] then 0 else 1)
  | [], _ :: _ => .error 1
  | c :: b, d :: s =>
    if toLower d = c then tryhead b s
    else if c = 'Z' then .ok (b, d :: s)
    else if c = 'A' then tryhead b s
    else .error 1

/-- Compare the tail, with the string turned round: what is left behind the next star, or the answer. The string is long
enough. `matchexec` (`trytail`). -/
def trytail : Str → Str → Except ℕ Str
  | [], _ => .error 0
  | c :: b, s =>
    if c = 'Z' then .ok b
    else
      match s with
      | [] => .error 1
      | d :: s => if toLower d = c ∨ c = 'A' then trytail b s else .error 1

/-- Compare a chunk: `none` when it does not match, else what is left behind the next star, if there is one, and of the
string. `matchexec` (`trychunk`). -/
def trychunk : Str → Str → Option (Option (Str × Str))
  | [], _ => some none
  | c :: b, s =>
    if c = 'Z' then some (some (b, s))
    else
      match s with
      | [] => none
      | d :: s => if toLower d = c ∨ c = 'A' then trychunk b s else none

/-- Look for the chunks, where `trash` characters may be left out. At most so many characters are looked at.
`matchexec`. -/
def chunks : ℕ → Str → Str → ℕ → ℕ
  | _, [], _, _ => 0
  | 0, _ :: _, _, _ => 4
  | _, _ :: _, [], _ => 4
  | n + 1, ch :: b, d :: s, trash =>
    if toLower d ≠ ch then if trash = 0 then 4 else chunks n (ch :: b) s (trash - 1)
    else
      match trychunk b s with
      | some none => 0
      | some (some (b, s)) => chunks n b s trash
      | none => if trash = 0 then 5 else chunks n (ch :: b) s (trash - 1)

/-- Compare a string to a compiled mask. -/
def matchexec (string cmask : Str) (minlen : ℕ) : ℕ :=
  match tryhead cmask string with
  | .error r => r
  | .ok (b, s) =>
    if string.length < minlen then 2
    else
      match trytail b string.reverse with
      | .error r => r
      | .ok b => chunks (s.length + 1) b s (string.length - minlen)

/-- A character of a compiled mask, as it is printed. `matchdecomp`. -/
def decode (c : Char) : Str :=
  if c = 'A' then ['?'] else if c = 'Z' then ['*'] else if isWild c then ['\\', c] else [c]

/-- Decompile a compiled mask into printable form. -/
def matchdecomp (cmask : Str) : Str :=
  let head := cmask.takeWhile (· ≠ 'Z')
  match cmask.dropWhile (· ≠ 'Z') with
  | [] => head.flatMap decode
  | _ :: rest =>
    let tail := rest.takeWhile (· ≠ 'Z')
    head.flatMap decode ++ '*' :: (match rest.dropWhile (· ≠ 'Z') with
      | [] => []
      | _ :: middle => middle.flatMap decode ++ ['*']) ++ tail.reverse.flatMap decode

/-! ### The parts of a mask -/

/-- A letter is put in front of the parts of a mask, behind a star or not. -/
def letter (star : Bool) (c : Char) (x : Str × List Str) : Str × List Str :=
  if star then ([], (c :: x.1) :: x.2) else (c :: x.1, x.2)

/-- The parts of a mask that its stars divide, in the code of `matchcomp`; a star goes behind the question marks. -/
def pieces (star : Bool) : Str → Str × List Str
  | [] => ([], if star then [[]] else [])
  | c :: m =>
    if c = '*' then pieces true m
    else if c = '?' then ('A' :: (pieces star m).1, (pieces star m).2)
    else
      match m with
      | [] => letter star (toLower c) ([], [])
      | d :: m =>
        if c = '\\' ∧ isWild d then letter star (toLower d) (pieces false m)
        else letter star (toLower c) (pieces false (d :: m))

lemma pieces_star (star : Bool) (m : Str) : pieces star ('*' :: m) = pieces true m := by
  rw [pieces.eq_def]
  exact if_pos rfl

lemma pieces_mark (star : Bool) (m : Str) :
    pieces star ('?' :: m) = ('A' :: (pieces star m).1, (pieces star m).2) := by
  conv_lhs => rw [pieces.eq_def]
  exact (if_neg (by decide)).trans (if_pos rfl)

variable {c l d : Char} {p q s : Str} {r : List Str}

lemma pieces_one (star : Bool) (hstar : c ≠ '*') (hmark : c ≠ '?') :
    pieces star [c] = letter star (toLower c) ([], []) := by
  rw [pieces.eq_def]
  exact (if_neg hstar).trans (if_neg hmark)

lemma pieces_cons (d : Char) (m : Str) (star : Bool) (hstar : c ≠ '*') (hmark : c ≠ '?') :
    pieces star (c :: d :: m) = if c = '\\' ∧ isWild d then letter star (toLower d) (pieces false m)
      else letter star (toLower c) (pieces false (d :: m)) := by
  conv_lhs => rw [pieces.eq_def]
  exact (if_neg hstar).trans (if_neg hmark)

def flat (r : List Str) : Str := r.flatMap ('Z' :: ·)

/-- The compiled mask of the parts. -/
def form (p : Str) (r : List Str) : Str :=
  match r.getLast? with
  | none => p
  | some last => p ++ 'Z' :: last.reverse ++ flat r.dropLast

/-- What has been written behind `s`. -/
structure Written (s s' : Comp) (x : Str × List Str) : Prop where
  b : s'.b = s.b ++ x.1 ++ flat x.2
  cnt : s'.cnt = s.cnt + x.1.length + (x.2.map List.length).sum
  fs : s'.fs = s.fs.or (if x.2 = [] then none else some (s.b.length + x.1.length))
  ls : ∀ r last, x.2 = r ++ [last] → s'.ls = some (s.b ++ x.1 ++ flat r).length
  none : x.2 = [] → s'.ls = s.ls

lemma Written.char {s s' : Comp} {ch : Char} {x : Str × List Str} (h : Written (s.char ch) s' x) :
    Written s s' (letter s.star (toLower ch) x) := by
  obtain ⟨p, r⟩ := x
  obtain ⟨hb, hcnt, hfs, hls, hnone⟩ := h
  obtain ⟨b, fs, ls, star, cnt⟩ := s
  cases star with
  | false =>
    simp only [Comp.char, Comp.writeStar, Bool.false_eq_true, if_false] at hb hcnt hfs hls hnone
    change Written _ s' (toLower ch :: p, r)
    have hlen : (b ++ [toLower ch]).length + p.length = b.length + (toLower ch :: p).length := by
      simp only [length_append, length_cons, length_nil]
      omega
    refine ⟨by simp [hb], ?_, by rw [hfs, hlen], fun r' last hr => by simp [hls r' last hr], hnone⟩
    dsimp only
    rw [hcnt, length_cons]
    omega
  | true =>
    simp only [Comp.char, Comp.writeStar, if_true] at hb hcnt hfs hls hnone
    change Written _ s' ([], (toLower ch :: p) :: r)
    refine ⟨by simp [hb, flat], ?_, ?_, ?_, nofun⟩
    · simp only [List.map_cons, sum_cons, length_cons, length_nil]
      rw [hcnt]
      omega
    · cases fs with
      | none => simp [hfs]
      | some f => simp [hfs]
    · intro r' last hr
      change (toLower ch :: p) :: r = r' ++ [last] at hr
      cases r' with
      | nil =>
        obtain ⟨rfl, rfl⟩ : toLower ch :: p = last ∧ r = [] := by simpa using hr
        rw [hnone rfl]
        simp [flat]
      | cons q r' =>
        obtain ⟨hq, hlast⟩ : toLower ch :: p = q ∧ r = r' ++ [last] := by simpa using hr
        rw [hls r' last hlast, ← hq]
        simp [flat]

lemma star_char (s : Comp) (ch : Char) : (s.char ch).star = false := by
  cases hs : s.star with
  | false => simp [Comp.char, Comp.writeStar, hs]
  | true => simp [Comp.char, Comp.writeStar, hs]

lemma writeStar_of_free {s : Comp} (h : s.star = false) : s.writeStar = s := if_neg (by simp [h])

lemma compLoop_written (m : Str) (s : Comp) : Written s (compLoop m s).writeStar (pieces s.star m) := by
  fun_induction compLoop m s with
  | case1 s =>
    cases hs : s.star with
    | false =>
      rw [writeStar_of_free hs]
      exact ⟨by simp [pieces, flat], by simp [pieces], by simp [pieces], by simp [pieces], fun _ => rfl⟩
    | true =>
      have hwrite : s.writeStar = ⟨s.b ++ ['Z'], s.fs.or (some s.b.length), some s.b.length, false, s.cnt⟩ := if_pos hs
      rw [hwrite]
      refine ⟨by simp [pieces, flat], by simp [pieces], by simp [pieces], fun r last hr => ?_, by simp [pieces]⟩
      cases r with
      | nil => simp [pieces, flat]
      | cons q r => simp [pieces] at hr
  | case2 s m ih =>
    rw [pieces_star]
    exact ⟨ih.b, ih.cnt, ih.fs, ih.ls, ih.none⟩
  | case3 m s _ ih =>
    rw [pieces_mark]
    obtain ⟨hb, hcnt, hfs, hls, hnone⟩ := ih
    dsimp only at hb hcnt hfs hls hnone
    generalize pieces s.star m = x at hb hcnt hfs hls hnone ⊢
    have hlen : (s.b ++ ['A']).length + x.1.length = s.b.length + ('A' :: x.1).length := by
      simp only [length_append, length_cons, length_nil]
      omega
    refine ⟨by simp [hb], ?_, by rw [hfs, hlen], fun r last hr => by simp [hls r last hr], hnone⟩
    dsimp only
    rw [hcnt, length_cons]
    omega
  | case4 c s hstar hmark =>
    rw [pieces_one _ hstar hmark, writeStar_of_free (star_char s c)]
    exact Written.char ⟨by simp [flat], by simp, by simp, by simp, fun _ => rfl⟩
  | case5 c s hstar hmark d m hesc ih =>
    rw [pieces_cons d m _ hstar hmark, if_pos hesc]
    rw [star_char] at ih
    exact ih.char
  | case6 c s hstar hmark d m hesc ih =>
    rw [pieces_cons d m _ hstar hmark, if_neg hesc]
    rw [star_char] at ih
    exact ih.char

lemma swapAt_eq (pre x mid y post : Str) (h : x.length = y.length) :
    swapAt (pre ++ x ++ mid ++ y ++ post) pre.length (pre.length + x.length + mid.length) x.length =
      pre ++ y ++ mid ++ x ++ post := by
  have hy : pre ++ x ++ mid ++ y ++ post = (pre ++ x ++ mid) ++ (y ++ post) := by simp
  have hz : pre ++ x ++ mid ++ y ++ post = (pre ++ x) ++ (mid ++ (y ++ post)) := by simp
  have hlen : pre.length + x.length + mid.length = (pre ++ x ++ mid).length := by simp [Nat.add_assoc]
  have hend : pre.length + x.length + mid.length + x.length = (pre ++ x ++ mid ++ y).length := by
    simp [h, Nat.add_assoc]
  have hmid : pre.length + x.length + mid.length - (pre.length + x.length) = mid.length := by omega
  have h1 : (pre ++ x ++ mid ++ y ++ post).take pre.length = pre := by simp
  have h2 : ((pre ++ x ++ mid ++ y ++ post).drop (pre.length + x.length + mid.length)).take x.length = y := by
    rw [hlen, hy, drop_left, h, take_left]
  have h3 : ((pre ++ x ++ mid ++ y ++ post).drop (pre.length + x.length)).take mid.length = mid := by
    rw [← length_append, hz, drop_left, take_left]
  have h4 : ((pre ++ x ++ mid ++ y ++ post).drop pre.length).take x.length = x := by simp
  have h5 : (pre ++ x ++ mid ++ y ++ post).drop (pre.length + x.length + mid.length + x.length) = post := by
    rw [hend, drop_left]
  rw [swapAt, hmid, h1, h2, h3, h4, h5]

lemma swapBlocks_eq : (n : ℕ) → (pre x y : Str) → x.length + y.length ≤ n →
    swapBlocks (pre ++ x ++ y) pre.length x.length y.length = pre ++ y ++ x
  | n, pre, x, y, hn => by
    rw [swapBlocks]
    split
    · rename_i hmin
      obtain hx | hy : x.length = 0 ∨ y.length = 0 := by omega
      · rw [List.length_eq_zero_iff.mp hx]
        simp
      · rw [List.length_eq_zero_iff.mp hy]
        simp
    · rename_i hmin
      cases n with
      | zero => exact absurd (by omega) hmin
      | succ n =>
        obtain hlt | hle := Nat.lt_or_ge x.length y.length
        · -- the first part of the second block comes to its place
          have hswap := swapAt_eq pre x [] (y.take x.length) (y.drop x.length) (by simp; omega)
          simp only [append_nil, length_nil, Nat.add_zero, append_assoc, take_append_drop] at hswap
          have ih := swapBlocks_eq n (pre ++ y.take x.length) x (y.drop x.length) (by simp; omega)
          have hpre : (pre ++ y.take x.length).length = pre.length + x.length := by simp; omega
          rw [hpre, length_drop] at ih
          rw [Nat.min_eq_left (Nat.le_of_lt hlt), if_pos hlt, if_neg (by omega), append_assoc, hswap]
          simp only [append_assoc, take_append_drop] at ih ⊢
          exact ih
        · have hswap := swapAt_eq pre (x.take y.length) (x.drop y.length) y [] (by simp; omega)
          have htake : (x.take y.length).length = y.length := by simp; omega
          have hplace : pre.length + (x.take y.length).length + (x.drop y.length).length = pre.length + x.length := by
            simp; omega
          rw [hplace, htake] at hswap
          simp only [append_nil, append_assoc] at hswap
          rw [← append_assoc (x.take _), take_append_drop] at hswap
          have ih := swapBlocks_eq n (pre ++ y) (x.drop y.length) (x.take y.length) (by simp; omega)
          rw [length_append, length_drop, htake] at ih
          have hrest : (if y.length < x.length then y.length else y.length - y.length) = y.length ∨
              x.length - y.length = 0 := by
            split
            · exact .inl rfl
            · exact .inr (by omega)
          rw [Nat.min_eq_right hle, if_neg (by omega), append_assoc, hswap]
          obtain hrest | hzero := hrest
          · rw [hrest]
            simp only [append_assoc, take_append_drop] at ih ⊢
            exact ih
          · rw [hzero, swapBlocks, dif_pos (Nat.zero_min _)]
            have hlen : x.length = y.length := by omega
            rw [← hlen, List.take_length, List.drop_length]
            simp

lemma matchcomp_eq (mask : Str) : matchcomp mask = (form (pieces false mask).1 (pieces false mask).2,
    (pieces false mask).1.length + ((pieces false mask).2.map List.length).sum) := by
  have h := compLoop_written mask ⟨[], none, none, false, 0⟩
  unfold matchcomp
  simp only at h ⊢
  generalize (compLoop mask ⟨[], none, none, false, 0⟩).writeStar = s at h ⊢
  generalize pieces false mask = x at h ⊢
  obtain ⟨p, r⟩ := x
  obtain ⟨hb, hcnt, hfs, hls, hnone⟩ := h
  simp only [List.nil_append, Nat.zero_add, Option.none_or, length_nil] at hb hcnt hfs hls hnone ⊢
  rcases eq_nil_or_concat r with rfl | ⟨r', last, hr⟩
  · rw [hfs, if_pos rfl, hb, hcnt]
    simp [form, flat]
  · rw [concat_eq_append] at hr
    have hls := hls r' last hr
    rw [if_neg (by simp [hr])] at hfs
    have hsplit : s.b = (p ++ flat r' ++ ['Z']) ++ last := by
      rw [hb, hr]
      simp [flat]
    have hlen : (p ++ flat r').length + 1 = (p ++ flat r' ++ ['Z']).length := by
      exact (@length_append _ (p ++ flat r') ['Z']).symm
    rw [hfs, hls, hcnt]
    simp only
    rw [hsplit, hlen, take_left, drop_left]
    have hblocks := swapBlocks_eq _ p (flat r') ('Z' :: last.reverse) (Nat.le_refl _)
    have hx : (p ++ flat r').length - p.length = (flat r').length := by simp
    have hy : (p ++ flat r' ++ ['Z'] ++ last.reverse).length - (p ++ flat r').length = ('Z' :: last.reverse).length := by
      simp only [length_append, length_cons, length_nil]
      omega
    have hform : form p r = p ++ 'Z' :: last.reverse ++ flat r' := by
      rw [form, hr]
      simp
    rw [hx, hy, hform, ← hblocks]
    simp

/-! ### Decompiling what has been compiled -/

/-- A letter of a compiled mask. -/
structure Low (l : Char) : Prop where
  fold : toLower l = l
  mark : l ≠ 'A'
  star : l ≠ 'Z'
  escape : l ≠ '\\'

lemma low_toLower (c : Char) : Low (toLower c) := by
  have hcode := toNat_toLower c
  have hne : ∀ a : Char, (toLower c).toNat ≠ a.toNat → toLower c ≠ a := fun a h e => h (congrArg _ e)
  refine ⟨Char.ext (UInt32.toNat_inj.mp ?_), hne _ ?_, hne _ ?_, hne _ ?_⟩
  · refine (toNat_toLower (toLower c)).trans ?_
    split
    · split at hcode
      · omega
      · omega
    · rfl
  · rw [hcode, show 'A'.toNat = 65 from rfl]
    split <;> omega
  · rw [hcode, show 'Z'.toNat = 90 from rfl]
    split <;> omega
  · rw [hcode, show '\\'.toNat = 92 from rfl]
    split <;> omega

/-- The parts as they are printed. -/
def text (x : Str × List Str) : Str := (x.1 ++ flat x.2).flatMap decode

lemma pieces_decode (hl : Low l) (star : Bool) (t : Str) :
    pieces star (decode l ++ t) = letter star l (pieces false t) := by
  unfold decode
  rw [if_neg hl.mark, if_neg hl.star]
  split
  · rename_i hwild
    change pieces star ('\\' :: l :: t) = _
    rw [pieces_cons l t star (by decide) (by decide), if_pos ⟨rfl, hwild⟩, hl.fold]
  · rename_i hwild
    change pieces star (l :: t) = _
    have hne : l ≠ '*' ∧ l ≠ '?' := by simpa [isWild] using hwild
    cases t with
    | nil =>
      rw [pieces_one star hne.1 hne.2, hl.fold]
      rfl
    | cons d t => rw [pieces_cons d t star hne.1 hne.2, if_neg fun e => hl.escape e.1, hl.fold]

lemma text_letter (star : Bool) (l : Char) (x : Str × List Str) :
    text (letter star l x) = (if star then ['*'] else []) ++ decode l ++ text x := by
  cases star with
  | false => simp [text, letter]
  | true => simp [text, letter, flat, decode, isWild]

lemma pieces_text_letter (hl : Low l) (star : Bool) (x : Str × List Str) :
    pieces false (text (letter star l x)) = letter star l (pieces false (text x)) := by
  rw [text_letter]
  cases star with
  | false => exact pieces_decode hl false _
  | true => exact (pieces_star false _).trans (pieces_decode hl true _)

lemma pieces_text (star : Bool) (m : Str) : pieces false (text (pieces star m)) = pieces star m := by
  fun_induction pieces star m with
  | case1 star =>
    cases star with
    | false => rfl
    | true => rfl
  | case2 star m ih => exact ih
  | case3 star m _ ih =>
    change pieces false ('?' :: text (pieces star m)) = _
    rw [pieces_mark, ih]
  | case4 star c hstar hmark => exact pieces_text_letter (low_toLower c) star _
  | case5 star c hstar hmark d m hesc ih => rw [pieces_text_letter (low_toLower d), ih]
  | case6 star c hstar hmark d m hesc ih => rw [pieces_text_letter (low_toLower c), ih]

/-- A part that begins with a letter. -/
def Lettered (q : Str) : Prop := ∃ l t, q = l :: t ∧ Low l ∧ ∀ c ∈ t, c ≠ 'Z'

/-- There is no star inside of a part, and only the last one may be empty. -/
structure Apart (x : Str × List Str) : Prop where
  head : ∀ c ∈ x.1, c ≠ 'Z'
  rest : ∀ q ∈ x.2, ∀ c ∈ q, c ≠ 'Z'
  lettered : ∀ q ∈ x.2.dropLast, Lettered q

lemma Apart.letter {x : Str × List Str} (h : Apart x) {l : Char} (hl : Low l) (star : Bool) :
    Apart (letter star l x) := by
  have hcons : ∀ c ∈ l :: x.1, c ≠ 'Z' := forall_mem_cons.mpr ⟨hl.star, h.head⟩
  cases star with
  | false => exact ⟨hcons, h.rest, h.lettered⟩
  | true =>
    refine ⟨nofun, forall_mem_cons.mpr ⟨hcons, h.rest⟩, ?_⟩
    change ∀ q ∈ ((l :: x.1) :: x.2).dropLast, Lettered q
    rcases eq_nil_or_concat x.2 with hx | ⟨r, last, hx⟩
    · rw [hx]
      exact nofun
    · rw [List.dropLast_cons_of_ne_nil (by simp [hx])]
      exact forall_mem_cons.mpr ⟨⟨l, x.1, rfl, hl, h.head⟩, h.lettered⟩

lemma apart_pieces (star : Bool) (m : Str) : Apart (pieces star m) := by
  fun_induction pieces star m with
  | case1 star =>
    cases star with
    | false => exact ⟨nofun, nofun, nofun⟩
    | true => exact ⟨nofun, by simp, nofun⟩
  | case2 star m ih => exact ih
  | case3 star m _ ih => exact ⟨forall_mem_cons.mpr ⟨by decide, ih.head⟩, ih.rest, ih.lettered⟩
  | case4 star c hstar hmark => exact Apart.letter ⟨by simp, by simp, by simp⟩ (low_toLower c) star
  | case5 star c hstar hmark d m hesc ih => exact ih.letter (low_toLower d) star
  | case6 star c hstar hmark d m hesc ih => exact ih.letter (low_toLower c) star

lemma cut_star (hp : ∀ c ∈ p, c ≠ 'Z') (t : Str) :
    (p ++ 'Z' :: t).takeWhile (· ≠ 'Z') = p ∧ (p ++ 'Z' :: t).dropWhile (· ≠ 'Z') = 'Z' :: t := by
  have htrue : ∀ c ∈ p, decide (c ≠ 'Z') = true := fun c hc => decide_eq_true (hp c hc)
  rw [List.takeWhile_append_of_pos htrue, List.dropWhile_append_of_pos htrue]
  simp

lemma cut_end (hp : ∀ c ∈ p, c ≠ 'Z') : p.takeWhile (· ≠ 'Z') = p ∧ p.dropWhile (· ≠ 'Z') = [] := by
  have htrue : ∀ c ∈ p, decide (c ≠ 'Z') = true := fun c hc => decide_eq_true (hp c hc)
  exact ⟨List.takeWhile_eq_self_iff.mpr htrue, List.dropWhile_eq_nil_iff.mpr htrue⟩

/-- **What `matchdecomp` prints**. -/
theorem matchdecomp_form (h : Apart (p, r)) : matchdecomp (form p r) = text (p, r) := by
  obtain ⟨hp, hr, -⟩ := h
  rcases eq_nil_or_concat r with rfl | ⟨r', last, rfl⟩
  · obtain ⟨htake, hdrop⟩ := cut_end hp
    simp only [matchdecomp, form, List.getLast?_nil, htake, hdrop]
    simp [text, flat]
  · rw [concat_eq_append] at hr ⊢
    have hlast : ∀ c ∈ last.reverse, c ≠ 'Z' := fun c hc => hr last (by simp) c (List.mem_reverse.mp hc)
    have hform : form p (r' ++ [last]) = p ++ 'Z' :: (last.reverse ++ flat r') := by simp [form]
    obtain ⟨htake, hdrop⟩ := cut_star hp (last.reverse ++ flat r')
    simp only [matchdecomp, hform, htake, hdrop]
    cases r' with
    | nil =>
      obtain ⟨htake, hdrop⟩ := cut_end hlast
      simp only [flat, List.flatMap_nil, append_nil, htake, hdrop]
      simp [text, flat, decode]
    | cons q r' =>
      have hmiddle : last.reverse ++ flat (q :: r') = last.reverse ++ 'Z' :: (q ++ flat r') := rfl
      obtain ⟨htake, hdrop⟩ := cut_star hlast (q ++ flat r')
      simp only [hmiddle, htake, hdrop]
      simp [text, flat, decode]

/-- **A compiled mask that is printed is compiled to itself**. -/
theorem matchcomp_matchdecomp (mask : Str) : matchcomp (matchdecomp (matchcomp mask).1) = matchcomp mask := by
  have htext : matchdecomp (matchcomp mask).1 = text (pieces false mask) := by
    rw [matchcomp_eq mask]
    exact matchdecomp_form (apart_pieces false mask)
  rw [htext, matchcomp_eq, matchcomp_eq mask, pieces_text]

/-! ### The names of the parts -/

/-- What a character of a compiled mask stands for. -/
def codeTok (c : Char) : Tok Char := if c = 'A' then .any else .lit c

def partToks (x : Str × List Str) : List (Tok Char) := x.1.map codeTok ++ x.2.flatMap fun q => .star :: q.map codeTok

lemma partToks_letter (hl : Low l) (star : Bool) (x : Str × List Str) :
    partToks (letter star l x) = withStar star (.lit l :: partToks x) := by
  have hcode : codeTok l = .lit l := if_neg hl.mark
  cases star with
  | false => simp [partToks, letter, withStar, hcode]
  | true => simp [partToks, letter, withStar, hcode]

lemma isWild_eq_false (hstar : c ≠ '*') (hmark : c ≠ '?') : isWild c = false := by
  simp [isWild, hstar, hmark]

lemma matches_pieces (star : Bool) (m : Str) :
    Matches (partToks (pieces star m)) = Matches (withStar star (maskToks m)) := by
  fun_induction pieces star m with
  | case1 star =>
    cases star with
    | false => rfl
    | true => rfl
  | case2 star m ih =>
    rw [ih, maskToks_cons_head fun h => absurd h (by decide)]
    cases star with
    | false => rfl
    | true => exact funext fun t => propext matches_star_star_iff.symm
  | case3 star m _ ih =>
    rw [maskToks_cons_head fun h => absurd h (by decide)]
    refine (matches_cons_congr (x := .any) ih).trans ?_
    cases star with
    | false => rfl
    | true => exact funext fun t => propext matches_star_any_iff.symm
  | case4 star c hstar hmark =>
    rw [partToks_letter (low_toLower c), maskToks, tok_of_not_isWild (isWild_eq_false hstar hmark)]
    rfl
  | case5 star c hstar hmark d m hesc ih =>
    obtain ⟨rfl, hd⟩ := hesc
    have hfold : toLower d = d := eq_of_toLower_wild hd (low_toLower d).fold
    rw [partToks_letter (low_toLower d), hfold, maskToks, if_pos ⟨rfl, hd⟩]
    exact matches_withStar_congr (matches_cons_congr ih) star
  | case6 star c hstar hmark d m hesc ih =>
    rw [partToks_letter (low_toLower c), maskToks, if_neg hesc, tok_of_not_isWild (isWild_eq_false hstar hmark)]
    exact matches_withStar_congr (matches_cons_congr ih) star

/-- The characters of a string fit to those of a part. -/
def Fit : Str → Str → Prop := List.Forall₂ fun c d => c = 'A' ∨ toLower d = c

lemma fit_cons : Fit (c :: q) ((d :: s).take (c :: q).length) ↔
    (c = 'A' ∨ toLower d = c) ∧ Fit q (s.take q.length) := List.forall₂_cons

lemma codeTok_fits : (codeTok c).Fits (toLower d) ↔ c = 'A' ∨ toLower d = c := by
  unfold codeTok
  split
  · rename_i h
    exact iff_of_true trivial (Or.inl h)
  · rename_i h
    exact eq_comm.trans (or_iff_right h).symm

lemma codeTok_ne_star (c : Char) : codeTok c ≠ .star := by
  unfold codeTok
  split
  · exact nofun
  · exact nofun

lemma matches_part_iff : (q s : Str) → (p : List (Tok Char)) → (Matches (q.map codeTok ++ p) (s.map toLower) ↔
    Fit q (s.take q.length) ∧ Matches p ((s.drop q.length).map toLower))
  | [], s, p => (and_iff_right .nil).symm
  | c :: q, [], p => iff_of_false (not_matches_nil (codeTok_ne_star c)) fun h => nomatch h.1
  | c :: q, d :: s, p => by
    refine (matches_cons_iff (codeTok_ne_star c)).trans ((and_congr codeTok_fits (matches_part_iff q s p)).trans ?_)
    exact and_assoc.symm.trans (and_congr_left' fit_cons.symm)

lemma matches_behind_iff {p : List (Tok Char)} :
    Matches (.star :: p) (s.map toLower) ↔ ∃ k ≤ s.length, Matches p ((s.drop k).map toLower) := by
  rw [matches_star_iff]
  constructor
  · rintro ⟨u, hu, h⟩
    refine ⟨s.length - u.length, Nat.sub_le .., ?_⟩
    rw [map_drop, ← @List.length_map _ _ s toLower, ← List.suffix_iff_eq_drop.mp hu]
    exact h
  · rintro ⟨k, -, h⟩
    exact ⟨_, map_drop (f := toLower) ▸ List.drop_suffix .., h⟩

/-- What stands behind the last star. -/
lemma matches_last_iff : Matches (.star :: q.map codeTok) (s.map toLower) ↔
    q.length ≤ s.length ∧ Fit q (s.drop (s.length - q.length)) := by
  have hpart : ∀ k, Matches (q.map codeTok) ((s.drop k).map toLower) ↔
      Fit q ((s.drop k).take q.length) ∧ (s.drop k).drop q.length = [] := fun k => by
    have h := matches_part_iff q (s.drop k) []
    rw [append_nil, matches_nil_iff, List.map_eq_nil_iff] at h
    exact h
  rw [matches_behind_iff]
  constructor
  · rintro ⟨k, hk, h⟩
    obtain ⟨hfit, hend⟩ := (hpart k).mp h
    have hlen := hfit.length_eq
    have hshort := List.drop_eq_nil_iff.mp hend
    rw [length_take, length_drop] at hlen
    rw [length_drop] at hshort
    refine ⟨by omega, ?_⟩
    rw [show s.length - q.length = k by omega]
    rwa [List.take_of_length_le (by rw [length_drop]; omega)] at hfit
  · rintro ⟨hle, hfit⟩
    refine ⟨s.length - q.length, Nat.sub_le .., (hpart _).mpr ⟨?_, ?_⟩⟩
    · rwa [List.take_of_length_le (by rw [length_drop]; omega)]
    · exact List.drop_eq_nil_iff.mpr (by rw [length_drop]; omega)

/-- The parts are found in a string one behind the other, where `trash` characters may be left out. -/
def Found : List Str → ℕ → Str → Prop
  | [], _, _ => True
  | q :: r, trash, s =>
    ∃ k ≤ trash, Fit q ((s.drop k).take q.length) ∧ Found r (trash - k) (s.drop (k + q.length))

/-- The characters that parts need. -/
def need (r : List Str) : ℕ := (r.map List.length).sum

lemma matches_parts_iff (last : Str) : (r : List Str) → (s : Str) →
    (Matches ((r ++ [last]).flatMap fun q => .star :: q.map codeTok) (s.map toLower) ↔
      need r + last.length ≤ s.length ∧ Fit last (s.drop (s.length - last.length)) ∧
        Found r (s.length - (need r + last.length)) s)
  | [], s => by
    simp only [List.nil_append, List.flatMap_singleton, need, map_nil, sum_nil, Nat.zero_add, Found, and_true]
    exact matches_last_iff
  | q :: r, s => by
    have ih := fun k => matches_parts_iff last r (s.drop (k + q.length))
    have hneed : need (q :: r) = q.length + need r := sum_cons
    rw [cons_append, List.flatMap_cons, cons_append, matches_behind_iff, hneed]
    simp only [matches_part_iff, List.drop_drop, ih, length_drop]
    constructor
    · rintro ⟨k, hk, hfit, hlen, hlast, hfound⟩
      have hq := hfit.length_eq
      rw [length_take, length_drop] at hq
      rw [show k + q.length + (s.length - (k + q.length) - last.length) = s.length - last.length by omega] at hlast
      refine ⟨by omega, hlast, k, by omega, hfit, ?_⟩
      rw [show s.length - (q.length + need r + last.length) - k = s.length - (k + q.length) - (need r + last.length) by
        omega]
      exact hfound
    · rintro ⟨hlen, hlast, k, hk, hfit, hfound⟩
      refine ⟨k, by omega, hfit, by omega, ?_, ?_⟩
      · rw [show k + q.length + (s.length - (k + q.length) - last.length) = s.length - last.length by omega]
        exact hlast
      · rw [show s.length - (q.length + need r + last.length) - k = s.length - (k + q.length) - (need r + last.length) by
          omega] at hfound
        exact hfound

/-! ### Executing what has been compiled -/

lemma tryhead_fit (b : Str) : (p s : Str) → (∀ c ∈ p, c ≠ 'Z') → Fit p (s.take p.length) →
    tryhead (p ++ b) s = tryhead b (s.drop p.length)
  | [], _, _, _ => rfl
  | _ :: _, [], _, hfit => nomatch hfit
  | c :: p, d :: s, hp, hfit => by
    obtain ⟨hd, hfit⟩ := fit_cons.mp hfit
    have ih := tryhead_fit b p s (fun e he => hp e (.tail _ he)) hfit
    have hc := hp c (.head _)
    rw [cons_append, tryhead, ih]
    obtain rfl | hd := hd
    · simp
    · rw [if_pos hd]
      rfl

lemma tryhead_misfit (b : Str) : (p s : Str) → (∀ c ∈ p, c ≠ 'Z') → ¬Fit p (s.take p.length) →
    tryhead (p ++ b) s = .error 1
  | [], _, _, hfit => absurd .nil hfit
  | c :: p, [], hp, _ => by
    have hc := hp c (.head _)
    simp [tryhead, hc]
  | c :: p, d :: s, hp, hfit => by
    have ih := tryhead_misfit b p s fun e he => hp e (.tail _ he)
    have hc := hp c (.head _)
    rw [fit_cons, not_and] at hfit
    rw [cons_append, tryhead, if_neg hc]
    split
    · rename_i hd
      exact ih (hfit (Or.inr hd))
    · split
      · rename_i hmark
        exact ih (hfit (Or.inl hmark))
      · rfl

/-- A tail is compared as a chunk is. -/
lemma trytail_eq : (b s : Str) → trytail b s = match trychunk b s with
    | none => .error 1
    | some none => .error 0
    | some (some (b, _)) => .ok b
  | [], _ => rfl
  | c :: b, [] => by
    rw [trytail, trychunk]
    split
    · rfl
    · rfl
  | c :: b, d :: s => by
    rw [trytail, trychunk]
    split
    · rfl
    · split
      · exact trytail_eq b s
      · rfl

lemma trychunk_fit (b : Str) : (q s : Str) → (∀ c ∈ q, c ≠ 'Z') → Fit q (s.take q.length) →
    trychunk (q ++ b) s = trychunk b (s.drop q.length)
  | [], _, _, _ => rfl
  | _ :: _, [], _, hfit => nomatch hfit
  | c :: q, d :: s, hq, hfit => by
    obtain ⟨hd, hfit⟩ := fit_cons.mp hfit
    rw [cons_append, trychunk, if_neg (hq c (.head _))]
    exact (if_pos hd.symm).trans (trychunk_fit b q s (fun e he => hq e (.tail _ he)) hfit)

lemma trychunk_misfit (b : Str) : (q s : Str) → (∀ c ∈ q, c ≠ 'Z') → ¬Fit q (s.take q.length) →
    trychunk (q ++ b) s = none
  | [], _, _, hfit => absurd .nil hfit
  | c :: q, [], hq, _ => if_neg (hq c (.head _))
  | c :: q, d :: s, hq, hfit => by
    rw [fit_cons, not_and] at hfit
    rw [cons_append, trychunk, if_neg (hq c (.head _))]
    split
    · rename_i hd
      exact trychunk_misfit b q s (fun e he => hq e (.tail _ he)) (hfit hd.symm)
    · rfl

lemma Found.earlier (j : ℕ) : {r : List Str} → {trash : ℕ} → Found r trash (s.drop j) →
    Found r (trash + j) s
  | [], _, _ => trivial
  | q :: r, trash, ⟨k, hk, hfit, hfound⟩ => by
    rw [List.drop_drop] at hfit hfound
    refine ⟨j + k, by omega, hfit, ?_⟩
    rw [show trash + j - (j + k) = trash - k by omega, Nat.add_assoc]
    exact hfound

/-- Where a part does not fit a character is left out. -/
lemma found_skip {trash : ℕ} (hfit : ¬Fit q ((d :: s).take q.length)) : Found (q :: r) trash (d :: s) ↔
    trash ≠ 0 ∧ Found (q :: r) (trash - 1) s := by
  constructor
  · rintro ⟨k, hk, hk', hfound⟩
    cases k with
    | zero => exact absurd hk' hfit
    | succ k =>
      refine ⟨by omega, k, by omega, hk', ?_⟩
      rw [Nat.sub_sub, Nat.add_comm 1 k]
      rw [Nat.add_right_comm] at hfound
      exact hfound
  · rintro ⟨hne, k, hk, hfit, hfound⟩
    refine ⟨k + 1, by omega, hfit, ?_⟩
    rw [Nat.sub_sub, Nat.add_comm 1 k] at hfound
    rw [Nat.add_right_comm]
    exact hfound

lemma found_here {trash : ℕ} (hfit : Fit q (s.take q.length)) :
    Found (q :: r) trash s ↔ Found r trash (s.drop q.length) := by
  constructor
  · rintro ⟨k, hk, -, hfound⟩
    rw [Nat.add_comm, ← List.drop_drop] at hfound
    have h := hfound.earlier k
    rwa [Nat.sub_add_cancel hk] at h
  · intro h
    refine ⟨0, Nat.zero_le _, hfit, ?_⟩
    rw [Nat.zero_add]
    exact h

lemma chunks_iff : (n : ℕ) → (q : Str) → (r : List Str) → (s : Str) → (trash : ℕ) → s.length < n →
    (∀ q' ∈ q :: r, Lettered q') → (chunks n (q ++ flat r) s trash = 0 ↔ Found (q :: r) trash s)
  | 0, _, _, _, _, hn, _ => absurd hn (Nat.not_lt_zero _)
  | n + 1, q, r, s, trash, hn, hq => by
    obtain ⟨l, t, rfl, hl, ht⟩ := hq q (.head _)
    cases s with
    | nil =>
      refine iff_of_false (by simp [chunks]) ?_
      rintro ⟨k, -, hfit, -⟩
      rw [List.drop_nil, List.take_nil] at hfit
      exact nomatch hfit
    | cons d s =>
      have hn : s.length < n := Nat.lt_of_succ_lt_succ hn
      have hskip (hfit : ¬Fit (l :: t) ((d :: s).take (l :: t).length)) (e : ℕ) (he : e ≠ 0) :
          (if trash = 0 then e else chunks n (l :: (t ++ flat r)) s (trash - 1)) = 0 ↔
            Found ((l :: t) :: r) trash (d :: s) := by
        have ih := chunks_iff n (l :: t) r s (trash - 1) hn hq
        rw [found_skip hfit, ← ih]
        split
        · rename_i hzero
          exact iff_of_false he fun h => h.1 hzero
        · rename_i hzero
          exact (and_iff_right hzero).symm
      rw [cons_append, chunks]
      split
      · rename_i hd
        refine hskip (fun hfit => ?_) 4 (by decide)
        exact (fit_cons.mp hfit).1.elim hl.mark hd
      · rename_i hd
        have hd : toLower d = l := not_not.mp hd
        by_cases hfit : Fit t (s.take t.length)
        · rw [trychunk_fit _ t s ht hfit, found_here (fit_cons.mpr ⟨Or.inr hd, hfit⟩)]
          cases r with
          | nil => exact iff_of_true rfl trivial
          | cons q' r =>
            have hlen : ((d :: s).drop (l :: t).length).length < n := by
              simp only [length_cons, List.drop_succ_cons, length_drop]
              omega
            exact chunks_iff n q' r _ trash hlen fun q hq' => hq q (.tail _ hq')
        · rw [trychunk_misfit _ t s ht hfit]
          exact hskip (fun h => hfit (fit_cons.mp h).2) 5 (by decide)

lemma need_concat (r : List Str) (last : Str) : need (r ++ [last]) = need r + last.length := by
  simp [need]

lemma form_concat (p : Str) (r : List Str) (last : Str) :
    form p (r ++ [last]) = p ++ 'Z' :: (last.reverse ++ flat r) := by
  simp [form]

lemma tryhead_end (t : Str) : tryhead ('Z' :: t) [] = .error (if t = [] then 0 else 1) := by
  simp [tryhead]

lemma tryhead_star (t : Str) (d : Char) (s : Str) : tryhead ('Z' :: t) (d :: s) = .ok (t, d :: s) := by
  rw [tryhead, if_neg (low_toLower d).star, if_pos rfl]

/-- The tail of a string, turned round. -/
lemma fit_reverse :
    Fit q.reverse (s.reverse.take q.reverse.length) ↔ Fit q (s.drop (s.length - q.length)) := by
  rw [List.take_reverse, List.length_reverse]
  exact List.forall₂_reverse_iff

lemma trytail_iff {last : Str} (hr : ∀ q ∈ r, Lettered q) (hlast : ∀ c ∈ last, c ≠ 'Z')
    (string s : Str) (trash : ℕ) :
    (match trytail (last.reverse ++ flat r) string.reverse with
      | .error e => e
      | .ok b => chunks (s.length + 1) b s trash) = 0 ↔
      Fit last (string.drop (string.length - last.length)) ∧ Found r trash s := by
  have hlast : ∀ c ∈ last.reverse, c ≠ 'Z' := fun c hc => hlast c (List.mem_reverse.mp hc)
  by_cases hfit : Fit last (string.drop (string.length - last.length))
  · rw [trytail_eq, trychunk_fit _ _ _ hlast (fit_reverse.mpr hfit), and_iff_right hfit]
    cases r with
    | nil => exact iff_of_true rfl trivial
    | cons q r => exact chunks_iff _ q r s trash (Nat.lt_succ_self _) hr
  · rw [trytail_eq, trychunk_misfit _ _ _ hlast fun h => hfit (fit_reverse.mp h)]
    exact iff_of_false (by simp) fun h => hfit h.1

lemma matchexec_form (h : Apart (p, r)) (string : Str) :
    matchexec string (form p r) (p.length + need r) = 0 ↔ Matches (partToks (p, r)) (string.map toLower) := by
  obtain ⟨hp, hr, hmid⟩ := h
  rw [partToks, matches_part_iff]
  rcases eq_nil_or_concat r with rfl | ⟨r, last, rfl⟩
  · rw [List.flatMap_nil, matches_nil_iff, List.map_eq_nil_iff, form, List.getLast?_nil, matchexec,
      ← append_nil p]
    by_cases hfit : Fit p (string.take p.length)
    · rw [tryhead_fit [] p string hp hfit, append_nil, and_iff_right hfit]
      cases string.drop p.length with
      | nil => exact iff_of_true rfl rfl
      | cons d s => exact iff_of_false (by simp [tryhead]) nofun
    · rw [tryhead_misfit [] p string hp hfit, append_nil]
      exact iff_of_false (by simp) fun h => hfit h.1
  · rw [concat_eq_append] at hr hmid ⊢
    rw [List.dropLast_concat] at hmid
    rw [form_concat, need_concat, matches_parts_iff, matchexec]
    by_cases hfit : Fit p (string.take p.length)
    · have hlen : (string.drop p.length).length = string.length - p.length := length_drop
      rw [tryhead_fit _ p string hp hfit, and_iff_right hfit]
      cases hs : string.drop p.length with
      | nil =>
        rw [tryhead_end]
        cases r with
        | nil =>
          cases last with
          | nil => exact iff_of_true rfl ⟨Nat.le_refl _, .nil, trivial⟩
          | cons c last => exact iff_of_false (by simp [flat]) fun h => absurd h.1 (by simp)
        | cons q r =>
          obtain ⟨l, t, rfl, -⟩ := hmid q (.head _)
          exact iff_of_false (by simp [flat]) fun h => absurd h.1 (by simp [need])
      | cons d s =>
        rw [tryhead_star, ← hs]
        dsimp only
        have hpos : (string.drop p.length).length = s.length + 1 := by rw [hs, length_cons]
        split
        · rename_i hshort
          exact iff_of_false (by decide) fun h => by omega
        · rename_i hlong
          have hle : need r + last.length ≤ (string.drop p.length).length := by omega
          rw [trytail_iff hmid fun c hc => hr last (by simp) c hc, and_iff_right hle, List.drop_drop,
            show p.length + ((string.drop p.length).length - last.length) = string.length - last.length by omega,
            show (string.drop p.length).length - (need r + last.length) =
              string.length - (p.length + (need r + last.length)) by omega]
    · rw [tryhead_misfit _ p string hp hfit]
      exact iff_of_false (by simp) fun h => hfit h.1

lemma length_of_matches {x : Str × List Str} {string : Str} (h : Matches (partToks x) (string.map toLower)) :
    x.1.length + need x.2 ≤ string.length := by
  obtain ⟨p, r⟩ := x
  obtain ⟨hfit, hrest⟩ := (matches_part_iff p string _).mp h
  have hlen := hfit.length_eq
  rw [length_take] at hlen
  rcases eq_nil_or_concat r with rfl | ⟨r, last, rfl⟩
  · simp only [need, map_nil, sum_nil]
    omega
  · rw [concat_eq_append] at hrest ⊢
    have hle := ((matches_parts_iff last r _).mp hrest).1
    rw [need_concat]
    rw [length_drop] at hle
    dsimp only
    omega

/-- **A compiled mask matches the names of the mask, and none of them is shorter than `minlen`**. -/
theorem matchexec_iff (mask string : Str) : (matchexec string (matchcomp mask).1 (matchcomp mask).2 = 0 ↔
    Matches (maskToks mask) (string.map toLower)) ∧ (Matches (maskToks mask) (string.map toLower) →
    (matchcomp mask).2 ≤ string.length) := by
  have hnames : Matches (partToks (pieces false mask)) = Matches (maskToks mask) := matches_pieces false mask
  rw [matchcomp_eq, ← hnames]
  exact ⟨matchexec_form (apart_pieces false mask) string, length_of_matches⟩

open Crule (collapse)
open BanMask (collapse_eq mem_collapseRun)

lemma maskToks_plain : {m : Str} → '\\' ∉ m → maskToks m = toks m
  | [], _ => rfl
  | c :: m, h => by
    rw [maskToks_of_ne fun e => h (e ▸ List.mem_cons_self), maskToks_plain fun hm => h (List.mem_cons_of_mem c hm)]
    rfl

/-- **The ways to compare a name agree.** A mask without a backslash matches the same names as it was given,
collapsed, and compiled after that; and a mask that `mmatch` says is wider matches all of them. -/
theorem masks_agree {mask : Str} (hmask : '\\' ∉ mask) (name : Str) :
    (matchMask (collapse mask) name = 0 ↔ matchMask mask name = 0) ∧
      (matchexec name (matchcomp (collapse mask)).1 (matchcomp (collapse mask)).2 = 0 ↔ matchMask mask name = 0) ∧
      ∀ wider, '\\' ∉ wider → mmatch wider (collapse mask) = 0 → matchMask mask name = 0 →
        matchMask wider name = 0 := by
  have hplain : '\\' ∉ collapse mask := fun h =>
    hmask (mem_collapseRun (by decide) false mask (collapse_eq mask ▸ h))
  have hmatch : ∀ {m : Str}, '\\' ∉ m → (matchMask m name = 0 ↔ Matches (maskToks m) (name.map toLower)) := by
    intro m hm
    rw [matchMask_eq_zero_iff hm, maskToks_plain hm, Glob]
  have hcollapse : Matches (maskToks (collapse mask)) = Matches (maskToks mask) := by
    rw [collapse_eq]
    exact matches_collapseRun false mask
  have hpieces : Matches (partToks (pieces false (collapse mask))) = Matches (maskToks (collapse mask)) :=
    matches_pieces false _
  refine ⟨?_, ?_, fun wider hwider hcover hname => ?_⟩
  · rw [hmatch hplain, hmatch hmask, hcollapse]
  · rw [hmatch hmask, ← hcollapse, ← hpieces, matchcomp_eq]
    exact matchexec_form (apart_pieces false _) name
  · rw [hmatch hmask, ← hcollapse] at hname
    exact (hmatch hwider).mpr ((covers_of_mmatch hcover).matches hname)

theorem masks_agree_star : matchMask "*b?*?".toList "Abcd".toList = 0 ∧ matchMask "*b*".toList "Abcd".toList = 0 :=
  have hname : matchMask "*b?*?".toList "Abcd".toList = 0 := by decide +kernel
  ⟨by decide +kernel, (@masks_agree "*b?*?".toList (by decide) _).2.2 "*b*".toList (by decide)
    (by decide +kernel) hname⟩

end Nefarious.Compiled
