import Nefarious.Address.Text
import Nefarious.Match

/-!
# The breadth of a G-line

A mask that a local operator wants to G-line is not to be too wide: a host needs two labels without wildcards at
its end, an address sixteen bits (`Narrow`).

Names: `gline.c`.
-/

namespace Nefarious.Glines

open List (all_cons all_eq_true any_cons any_nil cons_append count_eq_zero foldl_cons length_cons mem_cons)

/-! ### The check -/

/-- What the check says. `CHECK_REJECTED`, `CHECK_OVERRIDABLE`, `CHECK_APPROVED`. -/
inductive Check
  | rejected
  /-- The mask is allowed, but not by default. -/
  | overridable
  | approved
deriving DecidableEq

/-- The variables of the check. Masks are short, and the counters do not overflow. `gline_checkmask`. -/
structure CheckState where
  wild0 : Bool
  wild1 : Bool
  wilds : Bool
  ip : Bool
  halt : Bool
  dots : ℕ
  ipmask : ℕ
deriving DecidableEq

/-- The characters of addresses. `table_gen.c` `NTL_IRCIP6`. -/
def isIp6Char (c : Char) : Bool := isDigit c || c ∈ ":.ABCDEFabcdef".toList

/-- White space. ISO C. -/
def isSpace (c : Char) : Bool := c ∈ " \t\n\x0b\x0c\r".toList

/-- Read a number of 64 bits, and what stands behind it: blanks and a sign may stand before it, a minus sign
negates it, and a number that is too large is the largest one. ISO C. -/
def strtoul (s : Str) : ℕ × Str :=
  let t := s.dropWhile isSpace
  let u := if t.head? = some '-' ∨ t.head? = some '+' then t.drop 1 else t
  let n := Nat.ofDigitChars 10 (u.takeWhile isDigit) 0
  if u.takeWhile isDigit = [] then (0, s)
  else if 2 ^ 64 ≤ n then (2 ^ 64 - 1, u.dropWhile isDigit)
  else (if t.head? = some '-' then (2 ^ 64 - n) % 2 ^ 64 else n, u.dropWhile isDigit)

example : strtoul "24".toList = (24, []) ∧ strtoul " +24/".toList = (24, ['/']) ∧
    strtoul "-1".toList = (2 ^ 64 - 1, []) ∧ strtoul "".toList = (0, []) := by decide +kernel

/-- One character that is no slash. `gline_checkmask`. -/
def CheckState.char (st : CheckState) (c : Char) : CheckState :=
  if c = '.' then
    -- a separator: the wildcards move on, and an address has eight more bits
    { st with
      wild0 := false
      wild1 := st.wild0
      dots := st.dots + 1
      ipmask := if st.ip && !st.wilds then st.ipmask + 8 else st.ipmask }
  else if isWild c then { st with wild0 := true, wilds := true }
  else if !isIp6Char c then { st with ip := false, ipmask := 0 }
  else st

/-- The rest behind a slash; there is no result when the mask is rejected. `gline_checkmask`. -/
def CheckState.slash (st : CheckState) (rest : Str) : Option CheckState :=
  let r := strtoul rest
  let ipmask := r.1 % 2 ^ 32
  if r.2 ≠ [] ∨ st.wilds ∨ !st.ip then none
  else if st.dots = 0 then
    if 128 < ipmask then none
    else some { st with ipmask := ipmask, wilds := ipmask < 128, halt := true }
  else if st.dots ≠ 3 ∨ 32 < ipmask then none
  else some { st with ipmask := ipmask, wilds := ipmask < 32, halt := true }

/-- Go through the mask. `gline_checkmask`. -/
def checkLoop : Str → CheckState → Option CheckState
  | [], st => some st
  | c :: mask, st => if c = '/' then st.slash mask else checkLoop mask (st.char c)

/-- What is said at the end. `gline_checkmask`. -/
def CheckState.finish (st : CheckState) : Check :=
  let odd := 3 < st.dots ∨ (!st.wilds ∧ st.dots < 3)
  let ip := if odd then false else st.ip
  let bits := if odd then 0 else st.ipmask
  let bits := if ip && !st.wilds && !st.halt then bits + 8 else bits
  if st.wilds && ((!ip && (st.dots < 2 || st.wild0 || st.wild1)) || (ip && bits < 16)) then .rejected
  else if st.wilds then .overridable
  else .approved

/-- Where the check starts. `gline_checkmask`. -/
def CheckState.start : CheckState := ⟨false, false, false, true, false, 0, 0⟩

/-- The mask checking for local G-lines. -/
def glineCheckmask (mask : Str) : Check :=
  match checkLoop mask .start with
  | none => .rejected
  | some st => st.finish

/-! ### What it should say -/

def labels (s : Str) : List Str := s.splitOn '.'

def NoWild (s : Str) : Prop := ∀ c ∈ s, isWild c = false

/-- A decimal number, without a bound. -/
def Decimal (s : Str) (n : ℕ) : Prop :=
  s ≠ [] ∧ (∀ c ∈ s, isDigit c = true) ∧ Nat.ofDigitChars 10 s 0 = n

def Octet (s : Str) : Prop := ∃ n ≤ 255, Decimal s n

def WildOctet (s : Str) : Prop := ¬ NoWild s ∧ ∀ c ∈ s, isDigit c = true ∨ isWild c = true

def Dotted (s : Str) : Prop := (labels s).length ≤ 4 ∧ ∀ l ∈ labels s, Octet l ∨ WildOctet l

/-- An address with a length of `n` bits out of `width`: octets, or what is read as an address with colons.
Where it ends in octets the length is one of these. -/
def Cidr (s : Str) (width n : ℕ) : Prop :=
  ∃ p r, s = p ++ '/' :: r ∧ Decimal r n ∧ n ≤ width ∧
    (((labels p).length ≤ 4 ∧ (∀ l ∈ labels p, Octet l) ∧ width = 32) ∨
      (':' ∈ p ∧ (ipmaskParse p).isSome ∧ width = if '.' ∈ p then 32 else 128))

/-- The text of a mask of addresses that fixes sixteen bits. -/
def SixteenBits (s : Str) : Prop :=
  (Dotted s ∧ ∃ a b rest, labels s = a :: b :: rest ∧ Octet a ∧ Octet b) ∨ ∃ width n, Cidr s width n ∧ 16 ≤ n

/-- The last two labels have no wildcards. -/
def LastTwo (s : Str) : Prop := ∃ pre a b, labels s = pre ++ [a, b] ∧ NoWild a ∧ NoWild b

def Narrow (s : Str) : Prop := (NoWild s ∧ '/' ∉ s) ∨ SixteenBits s ∨ LastTwo s

/-- A mask covers one host or address: it has no wildcard, and is not one of several addresses. -/
def Single (s : Str) : Prop := NoWild s ∧ ∀ width n, Cidr s width n → n = width

/-- The check is right on a mask. -/
structure Breadth (s : Str) : Prop where
  narrow : glineCheckmask s ≠ .rejected → Narrow s
  single : glineCheckmask s = .approved → Single s

/-- A mask of the characters of addresses, with wildcards behind the second dot, that is no dotted address. -/
def PseudoDotted (s : Str) : Prop :=
  ¬ NoWild s ∧ (∀ c ∈ s, isIp6Char c = true ∨ isWild c = true) ∧ (labels s).length ≤ 4 ∧
    (∃ a b rest, labels s = a :: b :: rest ∧ NoWild a ∧ NoWild b) ∧ ¬ Dotted s

/-- Characters of addresses without a dot, and behind a slash what is read as a number from 16 to 128, that
are no address with a length. -/
def PseudoCidr (s : Str) : Prop :=
  ∃ p r, s = p ++ '/' :: r ∧ (∀ c ∈ p, isIp6Char c = true) ∧ '.' ∉ p ∧ (strtoul r).2 = [] ∧
    16 ≤ (strtoul r).1 % 2 ^ 32 ∧ (strtoul r).1 % 2 ^ 32 ≤ 128 ∧ ¬ ∃ width n, Cidr s width n ∧ 16 ≤ n

/-! ### The walk -/

/-- The wildcards of the last two labels, after `w0` and `w1`. `gline_checkmask`. -/
def lastWilds (w0 w1 : Bool) : List Str → Bool × Bool
  | [] => (w0, w1)
  | [l] => (w0 || l.any isWild, w1)
  | l :: l' :: ls => lastWilds false (w0 || l.any isWild) (l' :: ls)

/-- The labels without wildcards at the beginning, but for the last one. `gline_checkmask`. -/
def leadLabels : List Str → ℕ
  | [] => 0
  | [_] => 0
  | l :: l' :: ls => if l.any isWild then 0 else leadLabels (l' :: ls) + 1

/-- What the walk has seen. `gline_checkmask`. -/
structure Scanned (st st' : CheckState) (s : Str) : Prop where
  dots : st'.dots + 1 = st.dots + (labels s).length
  wilds : st'.wilds = (st.wilds || s.any isWild)
  ip : st'.ip = (st.ip && s.all fun c => isIp6Char c || isWild c)
  halt : st'.halt = st.halt
  last : (st'.wild0, st'.wild1) = lastWilds st.wild0 st.wild1 (labels s)
  ipmask : st'.ip = true → st'.ipmask = st.ipmask + if st.wilds then 0 else 8 * leadLabels (labels s)

lemma labels_dot (s : Str) : labels ('.' :: s) = [] :: labels s := by
  rw [labels, List.splitOn_cons_eq_if_modifyHead, if_pos (by decide)]
  rfl

variable {c : Char} {s p r : Str}

lemma labels_cons (hc : c ≠ '.') (s : Str) :
    ∃ l ls, labels s = l :: ls ∧ labels (c :: s) = (c :: l) :: ls := by
  obtain ⟨l, ls, hls⟩ := List.exists_cons_of_ne_nil (List.splitOn_ne_nil '.' s)
  refine ⟨l, ls, hls, ?_⟩
  rw [labels, List.splitOn_cons_eq_if_modifyHead, if_neg (by simpa using hc), hls]
  rfl

lemma lastWilds_cons (w0 w1 : Bool) (c : Char) (l : Str) :
    ∀ ls : List Str, lastWilds w0 w1 ((c :: l) :: ls) = lastWilds (w0 || isWild c) w1 (l :: ls)
  | [] => by simp [lastWilds, Bool.or_assoc]
  | _ :: _ => by simp [lastWilds, Bool.or_assoc]

lemma leadLabels_cons (c : Char) (l : Str) :
    ∀ ls : List Str, leadLabels ((c :: l) :: ls) = if isWild c then 0 else leadLabels (l :: ls)
  | [] => by simp [leadLabels]
  | _ :: _ => by
    cases hc : isWild c
    · simp [leadLabels, hc]
    · simp [leadLabels, hc]

lemma CheckState.char_dot (st : CheckState) : st.char '.' = { st with
      wild0 := false
      wild1 := st.wild0
      dots := st.dots + 1
      ipmask := if st.ip && !st.wilds then st.ipmask + 8 else st.ipmask } := if_pos rfl

lemma CheckState.char_wild (st : CheckState) (hc : c ≠ '.') (hw : isWild c = true) :
    st.char c = { st with wild0 := true, wilds := true } := by
  rw [CheckState.char, if_neg hc, if_pos hw]

lemma CheckState.char_ip (st : CheckState) (hc : c ≠ '.') (hw : isWild c = false)
    (hi : isIp6Char c = true) : st.char c = st := by
  rw [CheckState.char, if_neg hc, if_neg (by simp [hw]), if_neg (by simp [hi])]

lemma CheckState.char_host (st : CheckState) (hc : c ≠ '.') (hw : isWild c = false)
    (hi : isIp6Char c = false) : st.char c = { st with ip := false, ipmask := 0 } := by
  rw [CheckState.char, if_neg hc, if_neg (by simp [hw]), if_pos (by simp [hi])]

lemma Scanned.dot {st st' : CheckState} (h : Scanned (st.char '.') st' s) : Scanned st st' ('.' :: s) := by
  obtain ⟨l, ls, hls⟩ := List.exists_cons_of_ne_nil (List.splitOn_ne_nil '.' s)
  have hlabels : labels s = l :: ls := hls
  have hwild : isWild '.' = false := by decide
  have hchar : isIp6Char '.' = true := by decide
  obtain ⟨hdots, hwilds, hip, hhalt, hlast, hipmask⟩ := h
  rw [CheckState.char_dot] at hdots hwilds hip hhalt hlast hipmask
  constructor
  · rw [labels_dot, length_cons]
    dsimp only at hdots
    omega
  · rw [hwilds, any_cons, hwild, Bool.false_or]
  · rw [hip, all_cons, hchar, Bool.true_or, Bool.true_and]
  · exact hhalt
  · rw [hlast, labels_dot, hlabels, lastWilds, any_nil, Bool.or_false]
  · intro hst
    have hold : st.ip = true := by
      rw [hst] at hip
      exact (Bool.and_eq_true_iff.mp hip.symm).1
    rw [hipmask hst, labels_dot, hlabels]
    cases hw : st.wilds
    · simp only [hold, leadLabels, any_nil]
      simp only [Bool.not_false, Bool.and_self, Bool.false_eq_true, if_true, if_false]
      omega
    · simp

lemma Scanned.other {st st' : CheckState} (hc : c ≠ '.')
    (h : Scanned (st.char c) st' s) : Scanned st st' (c :: s) := by
  obtain ⟨l, ls, hls, hcons⟩ := labels_cons hc s
  obtain ⟨hdots, hwilds, hip, hhalt, hlast, hipmask⟩ := h
  rw [hls] at hdots hlast hipmask
  -- which of the three kinds the character is of
  by_cases hw : isWild c = true
  · rw [CheckState.char_wild st hc hw] at hdots hwilds hip hhalt hlast hipmask
    constructor
    · rw [hcons]
      exact hdots
    · rw [hwilds, any_cons, hw, Bool.true_or, Bool.or_true]
    · rw [hip, all_cons, hw, Bool.or_true, Bool.true_and]
    · exact hhalt
    · rw [hlast, hcons, lastWilds_cons, hw, Bool.or_true]
    · intro hst
      rw [hipmask hst, hcons, leadLabels_cons, if_pos hw]
      simp
  rw [Bool.not_eq_true] at hw
  by_cases hi : isIp6Char c = true
  · rw [CheckState.char_ip st hc hw hi] at hdots hwilds hip hhalt hlast hipmask
    constructor
    · rw [hcons]
      exact hdots
    · rw [hwilds, any_cons, hw, Bool.false_or]
    · rw [hip, all_cons, hi, Bool.true_or, Bool.true_and]
    · exact hhalt
    · rw [hlast, hcons, lastWilds_cons, hw, Bool.or_false]
    · intro hst
      rw [hipmask hst, hcons, leadLabels_cons]
      simp only [hw, Bool.false_eq_true, if_false]
  · rw [Bool.not_eq_true] at hi
    rw [CheckState.char_host st hc hw hi] at hdots hwilds hip hhalt hlast hipmask
    have hfalse : st'.ip = false := by rw [hip, Bool.false_and]
    constructor
    · rw [hcons]
      exact hdots
    · rw [hwilds, any_cons, hw, Bool.false_or]
    · rw [hfalse, all_cons, hi, hw, Bool.false_or, Bool.false_and, Bool.and_false]
    · exact hhalt
    · rw [hlast, hcons, lastWilds_cons, hw, Bool.or_false]
    · intro hst
      rw [hfalse] at hst
      contradiction

lemma Scanned.of_labels (s : Str) (st : CheckState) : Scanned st (s.foldl CheckState.char st) s := by
  induction s generalizing st with
  | nil =>
    have hnil : labels [] = [[]] := rfl
    constructor
    · simp [hnil]
    · simp
    · simp
    · rfl
    · simp [hnil, lastWilds]
    · simp [hnil, leadLabels]
  | cons c s ih =>
    rw [foldl_cons]
    by_cases hc : c = '.'
    · subst hc
      apply Scanned.dot
      exact ih _
    · apply Scanned.other hc
      exact ih _

lemma checkLoop_plain (hs : '/' ∉ s) (st : CheckState) :
    checkLoop s st = some (s.foldl CheckState.char st) := by
  induction s generalizing st with
  | nil => rfl
  | cons c s ih =>
    rw [mem_cons, not_or] at hs
    rw [checkLoop, if_neg (Ne.symm hs.1), ih hs.2, foldl_cons]

lemma checkLoop_slash (hp : '/' ∉ p) (r : Str) (st : CheckState) :
    checkLoop (p ++ '/' :: r) st = (p.foldl CheckState.char st).slash r := by
  induction p generalizing st with
  | nil => rw [List.nil_append, checkLoop, if_pos rfl, List.foldl_nil]
  | cons c p ih =>
    rw [mem_cons, not_or] at hp
    rw [cons_append, checkLoop, if_neg (Ne.symm hp.1), ih hp.2, foldl_cons]

lemma CheckState.finish_plain {st : CheckState} (hw : st.wilds = false) : st.finish = .approved := by
  simp [CheckState.finish, hw]

lemma CheckState.finish_ip {st : CheckState} (hw : st.wilds = true) (hip : st.ip = true)
    (hdots : st.dots ≤ 3) : st.finish = if st.ipmask < 16 then .rejected else .overridable := by
  have hfew : ¬ 3 < st.dots := not_lt.mpr hdots
  simp [CheckState.finish, hw, hip, hfew]

lemma CheckState.finish_host {st : CheckState} (hw : st.wilds = true) (hip : st.ip = false ∨ 3 < st.dots) :
    st.finish = if st.dots < 2 || st.wild0 || st.wild1 then .rejected else .overridable := by
  rcases hip with hip | hdots
  · simp [CheckState.finish, hw, hip]
  · simp [CheckState.finish, hw, hdots]

lemma noWild_iff : NoWild s ↔ s.any isWild = false := by
  rw [List.any_eq_false]
  constructor
  · intro h c hc
    rw [h c hc]
    exact Bool.false_ne_true
  · intro h c hc
    exact Bool.eq_false_of_not_eq_true (h c hc)

lemma labels_length (s : Str) : (labels s).length = s.count '.' + 1 := by
  induction s with
  | nil => rfl
  | cons c s ih =>
    by_cases hc : c = '.'
    · subst hc
      rw [labels_dot, length_cons, ih, List.count_cons_self]
    · obtain ⟨l, ls, hls, hcons⟩ := labels_cons hc s
      rw [hcons, length_cons, List.count_cons_of_ne hc, ← ih, hls, length_cons]

lemma mem_iff_labels {d : Char} (hd : d ≠ '.') (s : Str) : d ∈ s ↔ ∃ l ∈ labels s, d ∈ l := by
  induction s with
  | nil =>
    have hnil : labels [] = [[]] := rfl
    simp [hnil]
  | cons c s ih =>
    by_cases hc : c = '.'
    · subst hc
      rw [labels_dot, mem_cons, ih]
      simp [hd]
    · obtain ⟨l, ls, hls, hcons⟩ := labels_cons hc s
      rw [hcons, mem_cons, ih, hls]
      simp [or_assoc]

lemma noWild_iff_labels : NoWild s ↔ ∀ l ∈ labels s, NoWild l := by
  constructor
  · intro h l hl c hc
    by_cases hdot : c = '.'
    · subst hdot
      decide
    · exact h c ((mem_iff_labels hdot s).mpr ⟨l, hl, hc⟩)
  · intro h c hc
    by_cases hdot : c = '.'
    · subst hdot
      decide
    · obtain ⟨l, hl, hcl⟩ := (mem_iff_labels hdot s).mp hc
      exact h l hl c hcl

lemma lastWilds_append (a b : Str) (w : Bool) :
    ∀ pre : List Str, lastWilds false w (pre ++ [a, b]) = (b.any isWild, a.any isWild)
  | [] => by simp [lastWilds]
  | [x] => by simp [lastWilds]
  | x :: y :: pre => by
    rw [cons_append, cons_append, lastWilds, ← cons_append]
    exact lastWilds_append a b _ (y :: pre)

lemma exists_lastTwo : ∀ ls : List Str, 2 ≤ ls.length → ∃ pre a b, ls = pre ++ [a, b]
  | [], h => by simp at h
  | [_], h => by simp at h
  | [a, b], _ => ⟨[], a, b, rfl⟩
  | x :: y :: z :: ls, _ => by
    obtain ⟨pre, a, b, h⟩ := exists_lastTwo (y :: z :: ls) (by simp)
    exact ⟨x :: pre, a, b, by rw [h, cons_append]⟩

lemma lastTwo_iff (hlen : 2 ≤ (labels s).length) :
    LastTwo s ↔ lastWilds false false (labels s) = (false, false) := by
  constructor
  · rintro ⟨pre, a, b, hls, ha, hb⟩
    rw [hls, lastWilds_append, noWild_iff.mp ha, noWild_iff.mp hb]
  · intro h
    obtain ⟨pre, a, b, hls⟩ := exists_lastTwo _ hlen
    rw [hls, lastWilds_append, Prod.mk.injEq] at h
    exact ⟨pre, a, b, hls, noWild_iff.mpr h.2, noWild_iff.mpr h.1⟩

lemma two_le_leadLabels : ∀ ls : List Str,
    2 ≤ leadLabels ls ↔ ∃ a b c rest, ls = a :: b :: c :: rest ∧ NoWild a ∧ NoWild b
  | [] => by simp [leadLabels]
  | [_] => by simp [leadLabels]
  | [_, _] => by
    simp only [leadLabels]
    split <;> simp
  | a :: b :: c :: rest => by
    rw [leadLabels, leadLabels]
    constructor
    · intro h
      cases ha : a.any isWild
      · cases hb : b.any isWild
        · exact ⟨a, b, c, rest, rfl, noWild_iff.mpr ha, noWild_iff.mpr hb⟩
        · simp only [ha, hb, Bool.false_eq_true, if_true, if_false] at h
          omega
      · simp only [ha, if_true] at h
        omega
    · rintro ⟨a', b', c', rest', heq, ha, hb⟩
      simp only [List.cons.injEq] at heq
      obtain ⟨rfl, rfl, -⟩ := heq
      rw [noWild_iff.mp ha, noWild_iff.mp hb]
      simp

/-! ### Masks without a slash -/

lemma isWild_of_isDigit (h : isDigit c = true) : isWild c = false := by
  rw [Bool.eq_false_iff]
  intro hw
  rcases of_decide_eq_true hw with rfl | rfl
  · exact absurd h (by decide)
  · exact absurd h (by decide)

lemma Dotted.octet {l : Str} (h : Dotted s) (hl : l ∈ labels s) (hw : NoWild l) : Octet l := by
  rcases h.2 l hl with hoctet | hwild
  · exact hoctet
  · exact absurd hw hwild.1

lemma not_lastTwo {a b c : Str} {rest : List Str} (hls : labels s = a :: b :: c :: rest)
    (hlen : (labels s).length ≤ 4) (hw : ¬ NoWild s) (ha : NoWild a) (hb : NoWild b) : ¬ LastTwo s := by
  intro hlast
  apply hw
  rw [lastTwo_iff (by rw [hls]; simp), hls] at hlast
  rw [noWild_iff_labels, hls]
  match rest, hls with
  | [], _ =>
    simp only [lastWilds, Bool.false_or, Prod.mk.injEq] at hlast
    have hc : NoWild c := noWild_iff.mpr hlast.1
    simp [ha, hb, hc]
  | [d], _ =>
    simp only [lastWilds, Bool.false_or, Prod.mk.injEq] at hlast
    have hc : NoWild c := noWild_iff.mpr hlast.2
    have hd : NoWild d := noWild_iff.mpr hlast.1
    simp [ha, hb, hc, hd]
  | _ :: _ :: _, hls =>
    rw [hls] at hlen
    simp only [length_cons] at hlen
    omega

lemma narrow_plain (hs : '/' ∉ s) (hw : ¬ NoWild s) :
    Narrow s ↔ (Dotted s ∧ ∃ a b rest, labels s = a :: b :: rest ∧ Octet a ∧ Octet b) ∨ LastTwo s := by
  have hcidr : ¬ ∃ width n, Cidr s width n ∧ 16 ≤ n := by
    rintro ⟨_, _, ⟨p, r, rfl, -⟩, -⟩
    apply hs
    simp
  rw [Narrow, SixteenBits]
  simp [hw, hcidr]

lemma CheckState.finish_ne_approved {st : CheckState} (hw : st.wilds = true) : st.finish ≠ .approved := by
  by_cases hip : st.ip = true ∧ st.dots ≤ 3
  · rw [CheckState.finish_ip hw hip.1 hip.2]
    split <;> nofun
  · rw [CheckState.finish_host hw (by grind)]
    split <;> nofun

lemma breadth_plain (hs : '/' ∉ s) : Breadth s ↔ ¬ PseudoDotted s := by
  have hscan := Scanned.of_labels s .start
  have hcheck : glineCheckmask s = (s.foldl CheckState.char .start).finish := by
    rw [glineCheckmask, checkLoop_plain hs]
  generalize s.foldl CheckState.char .start = st at hscan hcheck
  obtain ⟨hdots, hwilds, hip, -, hlast, hipmask⟩ := hscan
  simp only [CheckState.start, Bool.false_or, Bool.true_and, Nat.zero_add, Bool.false_eq_true, if_false]
    at hdots hwilds hip hlast hipmask
  by_cases hw : NoWild s
  · refine iff_of_true ⟨?_, ?_⟩ (fun h => h.1 hw)
    · intro _
      exact .inl ⟨hw, hs⟩
    · intro _
      refine ⟨hw, ?_⟩
      rintro _ _ ⟨p, r, rfl, -⟩
      exact absurd (by simp) hs
  have hwild : st.wilds = true := by
    rw [hwilds]
    exact Bool.not_eq_false _ ▸ mt noWild_iff.mpr hw
  have hnarrow : Breadth s ↔ (st.finish ≠ .rejected → Narrow s) := by
    constructor
    · intro h
      rw [← hcheck]
      exact h.narrow
    · intro h
      constructor
      · rw [hcheck]
        exact h
      · intro happ
        rw [hcheck] at happ
        exact absurd happ (CheckState.finish_ne_approved hwild)
  have hall : st.ip = true ↔ ∀ c ∈ s, isIp6Char c = true ∨ isWild c = true := by
    rw [hip, all_eq_true]
    simp
  rw [hnarrow, narrow_plain hs hw]
  by_cases haddr : st.ip = true ∧ st.dots ≤ 3
  · -- an address: two labels at the beginning, which leave none for the end
    have hlen : (labels s).length ≤ 4 := by omega
    rw [CheckState.finish_ip hwild haddr.1 haddr.2, hipmask haddr.1]
    by_cases hlead : 2 ≤ leadLabels (labels s)
    · obtain ⟨a, b, c, rest, hls, ha, hb⟩ := (two_le_leadLabels _).mp hlead
      have hmem : a ∈ labels s ∧ b ∈ labels s := by rw [hls]; simp
      rw [if_neg (by omega)]
      constructor
      · rintro h ⟨-, -, -, -, hdotted⟩
        rcases h nofun with hbits | hend
        · exact hdotted hbits.1
        · exact not_lastTwo hls hlen hw ha hb hend
      · intro h _
        have hdotted : Dotted s := by
          by_contra hno
          exact h ⟨hw, hall.mp haddr.1, hlen, ⟨a, b, c :: rest, hls, ha, hb⟩, hno⟩
        exact .inl ⟨hdotted, a, b, c :: rest, hls, hdotted.octet hmem.1 ha, hdotted.octet hmem.2 hb⟩
    · rw [if_pos (by omega)]
      refine iff_of_true (fun h => absurd rfl h) ?_
      rintro ⟨-, -, -, ⟨a, b, rest, hls, ha, hb⟩, -⟩
      -- two labels alone would leave no place for the wildcards
      apply hlead
      match rest, hls with
      | [], hls =>
        refine absurd (noWild_iff_labels.mpr ?_) hw
        rw [hls]
        simp [ha, hb]
      | c :: rest, hls => exact (two_le_leadLabels _).mpr ⟨a, b, c, rest, hls, ha, hb⟩
  · -- a host: the last two labels decide
    have hhost : st.ip = false ∨ 3 < st.dots := by grind
    rw [CheckState.finish_host hwild hhost]
    refine iff_of_true ?_ ?_
    · split
      · intro h
        exact absurd rfl h
      · rename_i hno
        simp only [Bool.or_eq_true, decide_eq_true_eq, not_or, Bool.not_eq_true] at hno
        intro _
        refine .inr ((lastTwo_iff (by omega)).mpr ?_)
        rw [← hlast, hno.1.2, hno.2]
    · rintro ⟨-, hchars, hlen, -⟩
      exact haddr ⟨hall.mpr hchars, by omega⟩

/-! ### Masks with a slash -/

lemma slash_split : ∀ {p p' r r' : Str}, '/' ∉ p → '/' ∉ p' → p ++ '/' :: r = p' ++ '/' :: r' →
    p = p' ∧ r = r'
  | [], [], _, _, _, _, h => ⟨rfl, (List.cons.inj h).2⟩
  | [], c :: _, _, _, _, hp', h => absurd (mem_cons.mpr (.inl (List.cons.inj h).1)) hp'
  | c :: _, [], _, _, hp, _, h => absurd (mem_cons.mpr (.inl (List.cons.inj h).1.symm)) hp
  | c :: p, d :: p', r, r', hp, hp', h => by
    obtain ⟨hcd, htail⟩ := List.cons.inj h
    have hrest := slash_split (fun hm => hp (List.mem_cons_of_mem c hm))
      (fun hm => hp' (List.mem_cons_of_mem d hm)) htail
    rw [hcd, hrest.1]
    exact ⟨rfl, hrest.2⟩

lemma strtoul_chars (h : (strtoul r).2 = []) :
    ∀ c ∈ r, isSpace c = true ∨ c = '-' ∨ c = '+' ∨ isDigit c = true := by
  intro c hc
  rw [← List.takeWhile_append_dropWhile (p := isSpace) (l := r), List.mem_append] at hc
  rcases hc with hc | hc
  · exact .inl (List.mem_takeWhile_imp hc)
  set t := r.dropWhile isSpace with ht
  set u := if t.head? = some '-' ∨ t.head? = some '+' then t.drop 1 else t with hu
  have hsign : c = '-' ∨ c = '+' ∨ c ∈ u := by
    rw [hu]
    match t, hc with
    | d :: t', hc =>
      simp only [List.head?_cons, Option.some.injEq, List.drop_one, List.tail_cons]
      rcases mem_cons.mp hc with rfl | hmem
      · by_cases hs : c = '-' ∨ c = '+'
        · exact hs.elim .inl (.inr ∘ .inl)
        · rw [if_neg hs]
          exact .inr (Or.inr List.mem_cons_self)
      · split
        · exact .inr (Or.inr hmem)
        · exact .inr (Or.inr (List.mem_cons_of_mem d hmem))
  rcases hsign with hc | hc | hc
  · exact .inr (Or.inl hc)
  · exact .inr (Or.inr (Or.inl hc))
  · have hrest : r = [] ∨ u.dropWhile isDigit = [] := by
      rw [strtoul, ← ht, ← hu] at h
      split at h
      · exact .inl h
      · split at h
        · exact .inr h
        · exact .inr h
    rcases hrest with hnil | hnil
    · simp [ht, hu, hnil] at hc
    · rw [List.dropWhile_eq_nil_iff] at hnil
      exact .inr (Or.inr (Or.inr (hnil c hc)))

lemma strtoul_decimal {n : ℕ} (h : Decimal r n) (hn : n < 2 ^ 64) : strtoul r = (n, []) := by
  obtain ⟨hne, hdigits, hval⟩ := h
  obtain ⟨c, t, rfl⟩ := List.exists_cons_of_ne_nil hne
  have hc : isDigit c = true := hdigits c List.mem_cons_self
  have hspace : isSpace c = false := by
    rw [Bool.eq_false_iff]
    intro hs
    have hmem : c ∈ " \t\n\x0b\x0c\r".toList := of_decide_eq_true hs
    simp at hmem
    rcases hmem with rfl | rfl | rfl | rfl | rfl | rfl <;> exact absurd hc (by decide)
  have hminus : c ≠ '-' := by
    rintro rfl
    exact absurd hc (by decide)
  have hplus : c ≠ '+' := by
    rintro rfl
    exact absurd hc (by decide)
  have htake : (c :: t).takeWhile isDigit = c :: t := List.takeWhile_eq_self_iff.mpr hdigits
  have hdrop : (c :: t).dropWhile isDigit = [] := List.dropWhile_eq_nil_iff.mpr hdigits
  have hstart : (c :: t).dropWhile isSpace = c :: t := by
    rw [List.dropWhile_cons, if_neg (by simp [hspace])]
  have hsign : ¬ ((c :: t).head? = some '-' ∨ (c :: t).head? = some '+') := by simp [hminus, hplus]
  simp only [strtoul, hstart, if_neg hsign, htake, hdrop, hval]
  rw [if_neg (List.cons_ne_nil c t), if_neg (not_le.mpr hn), if_neg (by simpa using hminus)]

lemma isWild_of_isIp6Char (h : isIp6Char c = true) : isWild c = false := by
  rw [Bool.eq_false_iff]
  intro hw
  rcases of_decide_eq_true hw with rfl | rfl
  · exact absurd h (by decide)
  · exact absurd h (by decide)

lemma noWild_slash (hp : ∀ c ∈ p, isIp6Char c = true) (hr : (strtoul r).2 = []) : NoWild (p ++ '/' :: r) := by
  intro c hc
  rw [List.mem_append, mem_cons] at hc
  rcases hc with hc | rfl | hc
  · exact isWild_of_isIp6Char (hp c hc)
  · decide
  · rcases strtoul_chars hr c hc with h | rfl | rfl | h
    · rw [Bool.eq_false_iff]
      intro hw
      rcases of_decide_eq_true hw with rfl | rfl
      · exact absurd h (by decide)
      · exact absurd h (by decide)
    · decide
    · decide
    · exact isWild_of_isDigit h

lemma dot_notMem_strtoul (hr : (strtoul r).2 = []) : '.' ∉ r := by
  intro hc
  rcases strtoul_chars hr '.' hc with h | h | h | h
  · exact absurd h (by decide)
  · exact absurd h (by decide)
  · exact absurd h (by decide)
  · exact absurd h (by decide)

lemma slash_notMem_ipmaskParse (h : (ipmaskParse p).isSome) : '/' ∉ p := by
  obtain ⟨gs, hgs⟩ := Option.isSome_iff_exists.mp h
  intro hc
  exact absurd ((isAddrChar_ipmaskParse hgs).2 '/' hc) (by decide)

lemma slash_notMem_octets (h : ∀ l ∈ labels p, Octet l) : '/' ∉ p := by
  intro hc
  obtain ⟨l, hl, hmem⟩ := (mem_iff_labels (by decide) p).mp hc
  obtain ⟨_, _, -, hdigits, -⟩ := h l hl
  exact absurd (hdigits '/' hmem) (by decide)

lemma Cidr.of_slash {width n : ℕ} (h : Cidr (p ++ '/' :: r) width n) (hp : '/' ∉ p) : strtoul r =
    (n, []) ∧ n ≤ width ∧ width ≤ 128 ∧ ('.' ∈ p → width = 32) ∧ ('.' ∉ p → width = 32 ∨ width = 128) := by
  obtain ⟨p', r', heq, hdec, hle, haddr⟩ := h
  have hp' : '/' ∉ p' := by
    rcases haddr with ⟨-, hoctets, -⟩ | ⟨-, hparse, -⟩
    · exact slash_notMem_octets hoctets
    · exact slash_notMem_ipmaskParse hparse
  obtain ⟨rfl, rfl⟩ := slash_split hp hp' heq
  have hwidth : width = 32 ∨ (width = if '.' ∈ p then 32 else 128) := by
    rcases haddr with ⟨-, -, h⟩ | ⟨-, -, h⟩
    · exact .inl h
    · exact .inr h
  have hmax : width ≤ 128 := by
    rcases hwidth with h | h
    · omega
    · split at h <;> omega
  refine ⟨strtoul_decimal hdec (by omega), hle, hmax, ?_, ?_⟩
  · intro hdot
    rw [if_pos hdot] at hwidth
    exact hwidth.elim id id
  · intro hdot
    rw [if_neg hdot] at hwidth
    exact hwidth

lemma narrow_slash (hs : '/' ∈ s) (hdots : '.' ∉ s) : Narrow s ↔ ∃ width n, Cidr s width n ∧ 16 ≤ n := by
  have hdotted : ¬ Dotted s := by
    intro h
    obtain ⟨l, hl, hmem⟩ := (mem_iff_labels (by decide) s).mp hs
    rcases h.2 l hl with ⟨_, _, -, hdigits, -⟩ | ⟨-, hchars⟩
    · exact absurd (hdigits '/' hmem) (by decide)
    · exact absurd (hchars '/' hmem) (by decide)
  have hlast : ¬ LastTwo s := by
    rintro ⟨pre, a, b, hls, -⟩
    have hlen := labels_length s
    rw [hls, count_eq_zero.mpr hdots] at hlen
    simp at hlen
  rw [Narrow, SixteenBits]
  simp [hs, hdotted, hlast]

lemma Breadth.of_rejected (h : glineCheckmask s = .rejected) : Breadth s := by
  constructor
  · intro hno
    exact absurd h hno
  · intro happ
    rw [h] at happ
    contradiction

lemma pseudoCidr_iff (hp : '/' ∉ p) : PseudoCidr (p ++ '/' :: r) ↔ (∀ c ∈ p, isIp6Char c = true) ∧
    '.' ∉ p ∧ (strtoul r).2 = [] ∧ 16 ≤ (strtoul r).1 % 2 ^ 32 ∧ (strtoul r).1 % 2 ^ 32 ≤ 128 ∧ ¬ ∃ width n,
    Cidr (p ++ '/' :: r) width n ∧ 16 ≤ n := by
  constructor
  · rintro ⟨p', r', heq, hchars, hrest⟩
    have hp' : '/' ∉ p' := fun hc => absurd (hchars '/' hc) (by decide)
    obtain ⟨rfl, rfl⟩ := slash_split hp hp' heq
    exact ⟨hchars, hrest⟩
  · intro h
    exact ⟨p, r, rfl, h⟩

lemma glineCheckmask_slash (hp : ∀ c ∈ p, isIp6Char c = true) (hr : (strtoul r).2 = [])
    {v width : ℕ} (hv : (strtoul r).1 % 2 ^ 32 = v) (hwidth : width = if '.' ∈ p then 32 else 128) :
    glineCheckmask (p ++ '/' :: r) =
      if ('.' ∈ p ∧ p.count '.' ≠ 3) ∨ width < v then .rejected
      else if v = width then .approved
      else if v < 16 then .rejected else .overridable := by
  have hslash : '/' ∉ p := fun hc => absurd (hp '/' hc) (by decide)
  obtain ⟨hdots, hwilds, hip, -, -, -⟩ := Scanned.of_labels p .start
  rw [glineCheckmask, checkLoop_slash hslash]
  generalize p.foldl CheckState.char .start = st at hdots hwilds hip
  simp only [CheckState.start, Bool.false_or, Bool.true_and, Nat.zero_add] at hdots hwilds hip
  rw [labels_length, Nat.add_right_cancel_iff] at hdots
  have hw : st.wilds = false := by
    rw [hwilds, ← noWild_iff]
    intro c hc
    exact isWild_of_isIp6Char (hp c hc)
  have hi : st.ip = true := by
    rw [hip, all_eq_true]
    intro c hc
    rw [hp c hc, Bool.true_or]
  have hgo : ¬ ((strtoul r).2 ≠ [] ∨ st.wilds ∨ !st.ip) := by simp [hr, hw, hi]
  -- what is said once the number is taken
  have hend : ∀ st' : CheckState, st'.wilds = decide (v < width) → st'.ip = true → st'.dots ≤ 3 →
      st'.ipmask = v → v ≤ width →
      st'.finish = if v = width then .approved else if v < 16 then .rejected else .overridable := by
    intro st' hw' hi' hdots' hbits hle
    by_cases hfull : v = width
    · rw [if_pos hfull, CheckState.finish_plain (by simp [hw', hfull])]
    · have hless : v < width := by omega
      rw [if_neg hfull, CheckState.finish_ip (by simp [hw', hless]) hi' hdots', hbits]
  rw [CheckState.slash, if_neg hgo, hv]
  by_cases hdot : '.' ∈ p
  · rw [if_pos hdot] at hwidth
    have hpos : st.dots ≠ 0 := by
      rw [hdots]
      exact mt count_eq_zero.mp (not_not.mpr hdot)
    rw [if_neg hpos]
    by_cases hbad : st.dots ≠ 3 ∨ 32 < v
    · rw [if_pos hbad, if_pos (by rw [← hdots, hwidth]; tauto)]
    · rw [if_neg hbad, if_neg (by rw [← hdots, hwidth]; tauto)]
      rw [not_or, not_not, not_lt] at hbad
      exact hend _ (by rw [hwidth]) hi hbad.1.le rfl (by omega)
  · rw [if_neg hdot] at hwidth
    have hzero : st.dots = 0 := hdots.trans (count_eq_zero.mpr hdot)
    rw [if_pos hzero]
    by_cases hbad : 128 < v
    · rw [if_pos hbad, if_pos (Or.inr (by omega))]
    · rw [if_neg hbad, if_neg (by rw [hwidth]; tauto)]
      exact hend _ (by rw [hwidth]) hi (hzero.le.trans (Nat.zero_le 3)) rfl (by omega)

lemma glineCheckmask_bad (hp : '/' ∉ p) (hbad : ¬ ((strtoul r).2 = [] ∧ ∀ c ∈ p, isIp6Char c = true)) :
    glineCheckmask (p ++ '/' :: r) = .rejected := by
  obtain ⟨-, hwilds, hip, -, -, -⟩ := Scanned.of_labels p .start
  rw [glineCheckmask, checkLoop_slash hp]
  generalize p.foldl CheckState.char .start = st at hwilds hip
  simp only [CheckState.start, Bool.false_or, Bool.true_and] at hwilds hip
  have hstop : (strtoul r).2 ≠ [] ∨ st.wilds ∨ !st.ip := by
    by_contra hno
    simp only [ne_eq, not_or, not_not, Bool.not_eq_true, Bool.not_eq_false', hwilds, hip] at hno
    apply hbad
    refine ⟨hno.1, ?_⟩
    intro c hc
    have hall := all_eq_true.mp hno.2.2 c hc
    rw [noWild_iff.mpr hno.2.1 c hc, Bool.or_false] at hall
    exact hall
  rw [CheckState.slash, if_pos hstop]

lemma single_slash (hp : ∀ c ∈ p, isIp6Char c = true) (hr : (strtoul r).2 = [])
    (hv : (strtoul r).1 % 2 ^ 32 = if '.' ∈ p then 32 else 128) : Single (p ++ '/' :: r) := by
  refine ⟨noWild_slash hp hr, ?_⟩
  intro width n hcidr
  have hslash : '/' ∉ p := fun hc => absurd (hp '/' hc) (by decide)
  obtain ⟨hnum, hle, hmax, hdot, hnodot⟩ := hcidr.of_slash hslash
  rw [hnum, Nat.mod_eq_of_lt (by dsimp only; omega)] at hv
  by_cases h : '.' ∈ p
  · rw [if_pos h] at hv
    exact hv.trans (hdot h).symm
  · rw [if_neg h] at hv
    rcases hnodot h with hw | hw
    · dsimp only at hv
      omega
    · exact hv.trans hw.symm

lemma breadth_slash (r : Str) (hp : '/' ∉ p) : Breadth (p ++ '/' :: r) ↔ ¬ PseudoCidr (p ++ '/' :: r) := by
  rw [pseudoCidr_iff hp]
  by_cases hok : (strtoul r).2 = [] ∧ ∀ c ∈ p, isIp6Char c = true
  swap
  · refine iff_of_true (Breadth.of_rejected (glineCheckmask_bad hp hok)) ?_
    rintro ⟨hchars, -, hnum, -⟩
    exact hok ⟨hnum, hchars⟩
  obtain ⟨hnum, hchars⟩ := hok
  have hcheck := glineCheckmask_slash hchars hnum rfl rfl
  have hsingle : glineCheckmask (p ++ '/' :: r) = .approved → Single (p ++ '/' :: r) := by
    intro happ
    apply single_slash hchars hnum
    by_contra hne
    rw [hcheck, if_neg hne] at happ
    by_cases hbig : ('.' ∈ p ∧ p.count '.' ≠ 3) ∨ (if '.' ∈ p then 32 else 128) < (strtoul r).1 % 2 ^ 32
    · rw [if_pos hbig] at happ
      contradiction
    · rw [if_neg hbig] at happ
      split at happ <;> contradiction
  have hbreadth : Breadth (p ++ '/' :: r) ↔
      (glineCheckmask (p ++ '/' :: r) ≠ .rejected → Narrow (p ++ '/' :: r)) := by
    constructor
    · intro h
      exact h.narrow
    · intro h
      exact ⟨h, hsingle⟩
  rw [hbreadth, hcheck]
  generalize (strtoul r).1 % 2 ^ 32 = v
  by_cases hdot : '.' ∈ p
  · -- with dots: there are two labels at the end, without wildcards
    refine iff_of_true ?_ (fun h => h.2.1 hdot)
    intro _
    have hplain := noWild_slash hchars hnum
    have hlen := labels_length (p ++ '/' :: r)
    have hpos : 0 < p.count '.' := List.count_pos_iff.mpr hdot
    rw [List.count_append] at hlen
    obtain ⟨pre, a, b, hls⟩ := exists_lastTwo (labels (p ++ '/' :: r)) (by omega)
    rw [noWild_iff_labels, hls] at hplain
    exact .inr (Or.inr ⟨pre, a, b, hls, hplain a (by simp), hplain b (by simp)⟩)
  · -- no dots: nothing but an address with a length is narrow
    rw [narrow_slash (by simp) (by simp [hdot, dot_notMem_strtoul hnum]), if_neg hdot]
    constructor
    · rintro h ⟨-, -, -, hlow, hhigh, hno⟩
      refine hno (h ?_)
      rw [if_neg (by rintro (⟨h, -⟩ | h) <;> [exact hdot h; omega])]
      split
      · nofun
      · rw [if_neg (by omega)]
        nofun
    · intro h hacc
      by_contra hno
      apply hacc
      by_cases hhigh : v ≤ 128
      · have hlow : v < 16 := by
          by_contra hlow
          exact h ⟨hchars, hdot, hnum, by omega, hhigh, hno⟩
        rw [if_neg (by rintro (⟨h, -⟩ | h) <;> [exact hdot h; omega]), if_neg (by omega), if_pos hlow]
      · rw [if_pos (Or.inr (by omega))]

/-- **The check is right exactly on** the masks of neither of the two kinds. -/
theorem breadth_iff (s : Str) : Breadth s ↔ ¬ PseudoDotted s ∧ ¬ PseudoCidr s := by
  by_cases hs : '/' ∈ s
  · obtain ⟨p, r, rfl, hp⟩ := List.eq_append_cons_of_mem hs
    have hdotted : ¬ PseudoDotted (p ++ '/' :: r) := by
      rintro ⟨-, hchars, -⟩
      exact absurd (hchars '/' hs) (by decide)
    rw [breadth_slash r hp]
    exact (and_iff_right hdotted).symm
  · have hcidr : ¬ PseudoCidr s := by
      rintro ⟨p, r, rfl, -⟩
      exact hs (by simp)
    rw [breadth_plain hs]
    exact (and_iff_left hcidr).symm

/-- A mask of a domain that is taken for an address: it is not rejected, and covers all of what ends in any
label whatever. `gline_checkmask`. -/
theorem hex_labels_accepted : ¬ Breadth "ab.cd.*".toList := by
  intro h
  have hcheck : glineCheckmask "ab.cd.*".toList = .overridable := by decide
  have hlabels : labels "ab.cd.*".toList = ["ab".toList, "cd".toList, "*".toList] := by decide
  rcases h.narrow (by rw [hcheck]; nofun) with ⟨hw, -⟩ | (⟨hdotted, -⟩ | ⟨_, _, ⟨p, r, heq, -⟩, -⟩) | hlast
  · exact absurd (hw '*' (by decide)) (by decide)
  · rcases hdotted.2 "ab".toList (by rw [hlabels]; simp) with ⟨_, -, -, hdigits, -⟩ | ⟨-, hchars⟩
    · exact absurd (hdigits 'a' (by decide)) (by decide)
    · exact absurd (hchars 'a' (by decide)) (by decide)
  · have hmem : '/' ∈ "ab.cd.*".toList := by rw [heq]; simp
    exact absurd hmem (by decide)
  · rw [lastTwo_iff (by rw [hlabels]; decide), hlabels] at hlast
    exact absurd hlast (by decide)

end Nefarious.Glines
