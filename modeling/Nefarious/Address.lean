import Nefarious.Strings
import Mathlib.Tactic.IntervalCases

/-!
# Addresses and their texts

An address is eight groups of sixteen bits.

Names: `ircd_string.c`.
-/

namespace Nefarious

open Option (map_eq_some_iff map_some none_or)
open List (all_eq_true append_assoc append_nil cons_append exists_cons_of_ne_nil length_append length_cons
  length_drop length_nil length_take mem_cons mem_cons_self mem_singleton nil_append not_mem_nil)

/-- An address, by its groups in host order. `res.h` `struct irc_in_addr`. -/
structure Addr where
  /-- `in6_16`. -/
  groups : List ℕ
  length_eq : groups.length = 8
  lt : ∀ g ∈ groups, g < 65536
deriving DecidableEq

/-- The groups are those of an IPv4 address. `res.h` `irc_in_addr_is_ipv4`. -/
def inAddrIsIpv4 (gs : List ℕ) : Bool :=
  gs.getD 0 0 = 0 ∧ gs.getD 1 0 = 0 ∧ gs.getD 2 0 = 0 ∧ gs.getD 3 0 = 0 ∧ gs.getD 4 0 = 0 ∧
    ((gs.getD 5 0 = 0 ∧ gs.getD 6 0 ≠ 0) ∨ gs.getD 5 0 = 65535)

/-- The addresses of these groups are different. `res.h` `irc_in_addr_cmp`. -/
def inAddrCmp (as bs : List ℕ) : Bool :=
  if inAddrIsIpv4 as then
    as.getD 6 0 ≠ bs.getD 6 0 ∨ as.getD 7 0 ≠ bs.getD 7 0 ∨ inAddrIsIpv4 bs = false
  else as ≠ bs

/-! ### Writing -/

/-- `ircd_ntoa_r` (`hexdigits`). -/
def hexdigit (d : ℕ) : Char :=
  ['0', '1', '2', '3', '4', '5', '6', '7', '8', '9', 'a', 'b', 'c', 'd', 'e', 'f'].getD d '0'

/-- One group. `ircd_ntoa_r`. -/
def hexText (part : ℕ) : Str :=
  (if 0x1000 ≤ part then [hexdigit (part / 0x1000)] else [])
    ++ (if 0x100 ≤ part then [hexdigit (part / 0x100 % 16)] else [])
    ++ (if 0x10 ≤ part then [hexdigit (part / 0x10 % 16)] else [])
    ++ [hexdigit (part % 16)]

/-- Find the longest run of zeros: `max_start` and `max_zeros`. The count goes on behind a run that is not
longer than the longest one. `ircd_ntoa_r`. -/
def longestZeros (ii maxStart maxZeros currZeros : ℕ) : List ℕ → ℕ × ℕ
  | [] => if maxZeros < currZeros then (ii - currZeros, currZeros) else (maxStart, maxZeros)
  | g :: gs =>
    if g = 0 then longestZeros (ii + 1) maxStart maxZeros (currZeros + 1) gs
    else if maxZeros < currZeros then longestZeros (ii + 1) (ii - currZeros) currZeros 0 gs
    else longestZeros (ii + 1) maxStart maxZeros currZeros gs

/-- The gap in the text of an address: where it starts, and how many groups it has. `ircd_ntoa_r`. -/
def Addr.gap (a : Addr) : ℕ × ℕ := longestZeros 1 1 0 0 (a.groups.drop 1)

/-- Print out the groups from `ii` on; the first number bounds the turns. `ircd_ntoa_r`. -/
def printGroups (groups : List ℕ) (maxStart maxZeros : ℕ) : ℕ → ℕ → Str
  | 0, _ => []
  | n + 1, ii =>
    if 8 ≤ ii then []
    else if 0 < maxZeros ∧ ii = maxStart then
      ':' :: printGroups groups maxStart maxZeros n (ii + maxZeros)
    else hexText (groups.getD ii 0) ++ (if ii < 7 then [':'] else [])
      ++ printGroups groups maxStart maxZeros n (ii + 1)

/-- The text of an address. `ircd_ntoa_r`. -/
def ntoa (a : Addr) : Str :=
  if inAddrIsIpv4 a.groups then
    digits (a.groups.getD 6 0 / 256) ++ '.' :: (digits (a.groups.getD 6 0 % 256) ++ '.' ::
      (digits (a.groups.getD 7 0 / 256) ++ '.' :: digits (a.groups.getD 7 0 % 256)))
  else printGroups a.groups a.gap.1 a.gap.2 8 0

/-! ### Reading -/

/-- The rest of a dotted quad, without a mask length: `dots` so far, the `part` before the cursor, and the parts
before it. `ircd_aton_ip4`. -/
def atonIp4Loop : Str → ℕ → ℕ → ℕ → Option ℕ
  | [], dots, part, ip => if dots < 3 then none else some (ip + part * 2 ^ (24 - 8 * dots))
  | c :: cs, dots, part, ip =>
    if c = '.' then
      if 3 < dots + 1 then none
      else if cs.head? = some '.' then none
      else if cs.head? = some '*' then
        if cs.all (fun c => c = '*' ∨ c = '.') then some (ip + part * 2 ^ (32 - 8 * (dots + 1))) else none
      else atonIp4Loop cs (dots + 1) 0 (ip + part * 2 ^ (32 - 8 * (dots + 1)))
    else if isDigit c then
      if 255 < part * 10 + (c.toNat - 48) then none
      else atonIp4Loop cs dots (part * 10 + (c.toNat - 48)) ip
    else none

/-- `ircd_aton_ip4`. -/
def atonIp4 (input : Str) : Option ℕ := if input.head? = some '.' then none else atonIp4Loop input 0 0 0

/-- The value of a hexadecimal digit. `ipmask_parse`. -/
def hexVal (c : Char) : Option ℕ :=
  if '0' ≤ c ∧ c ≤ '9' then some (c.toNat - 48)
  else if 'A' ≤ c ∧ c ≤ 'F' then some (c.toNat - 55)
  else if 'a' ≤ c ∧ c ≤ 'f' then some (c.toNat - 87)
  else none

/-- The rest of an address with colons, without a mask length: the groups so far, the `part` before the cursor,
where the `::` was (eight without one), and the text from `part_start` on. `ipmask_parse`. -/
def parseGroups : Str → List ℕ → ℕ → ℕ → Str → Option (List ℕ × ℕ)
  | [], groups, part, colon, _ =>
    if 8 ≤ groups.length then some (groups, colon)
    else if colon = 8 ∧ groups.length + 1 < 8 then none
    else some (groups ++ [part], colon)
  | c :: cs, groups, part, colon, start =>
    if 8 ≤ groups.length then none
    else match hexVal c with
      | some chval =>
        if 0xffff < part * 16 + chval then none
        else parseGroups cs groups (part * 16 + chval) colon start
      | none =>
        if c = ':' then
          match cs with
          | [] => parseGroups [] (groups ++ [part]) 0 colon []
          | d :: cs' =>
            if d = '.' then none
            else if d = ':' then
              if colon < 8 then none
              else if groups.length + 1 = 8 then none
              else parseGroups cs' (groups ++ [part]) 0 (groups.length + 1) (d :: cs')
            else parseGroups (d :: cs') (groups ++ [part]) 0 colon (d :: cs')
        else if c = '.' then
          (atonIp4 start).bind fun ip4 =>
            if 6 < groups.length then none
            else some (groups ++ [ip4 / 65536, ip4 % 65536], colon)
        else if c = '*' then
          if cs.all (fun c => c = '*' ∨ c = ':') ∧ 8 ≤ colon then
            some (if part ≠ 0 then groups ++ [part] else groups, colon)
          else none
        else none

/-- Shift what stands behind `::` up, and fill the middle with zeros. `ipmask_parse`. -/
def fillZeros (groups : List ℕ) (colon : ℕ) : List ℕ :=
  if colon < 8 then groups.take colon ++ List.replicate (8 - groups.length) 0 ++ groups.drop colon
  else groups ++ List.replicate (8 - groups.length) 0

/-- Read an address, without a mask length. The first colon or dot tells the kinds apart. -/
def ipmaskParse (input : Str) : Option (List ℕ) :=
  if input.find? (fun c => c = ':' ∨ c = '.') = some ':' then
    if input.head? = some ':' then
      if (input.drop 1).head? ≠ some ':' ∨ (input.drop 2).head? = some ':' then none
      else (parseGroups (input.drop 2) [] 0 0 (input.drop 2)).map fun r => fillZeros r.1 r.2
    else (parseGroups input [] 0 8 []).map fun r => fillZeros r.1 r.2
  else if '.' ∈ input ∨ '/' ∈ input then
    (atonIp4 input).map fun addr => [0, 0, 0, 0, 0, 65535, addr / 65536, addr % 65536]
  else if input.head? = some '*' ∧ input.all (· = '*') then some (List.replicate 8 0)
  else none

lemma longestZeros_bounds {lo : ℕ} : (gs : List ℕ) → ∀ {ii maxStart maxZeros currZeros : ℕ},
    lo ≤ maxStart → maxStart + maxZeros ≤ ii → lo + currZeros ≤ ii →
    lo ≤ (longestZeros ii maxStart maxZeros currZeros gs).1 ∧
      (longestZeros ii maxStart maxZeros currZeros gs).1 + (longestZeros ii maxStart maxZeros currZeros gs).2
        ≤ ii + gs.length
  | [], ii, maxStart, maxZeros, currZeros, h1, h2, h3 => by
    simp only [longestZeros, length_nil]
    split <;> constructor <;> dsimp only <;> omega
  | g :: gs, ii, maxStart, maxZeros, currZeros, h1, h2, h3 => by
    simp only [longestZeros, length_cons]
    split
    · have h := longestZeros_bounds gs h1 (by omega : maxStart + maxZeros ≤ ii + 1)
        (by omega : lo + (currZeros + 1) ≤ ii + 1)
      exact ⟨h.1, by omega⟩
    split
    · have h := longestZeros_bounds gs (by omega : lo ≤ ii - currZeros)
        (by omega : ii - currZeros + currZeros ≤ ii + 1) (by omega : lo + 0 ≤ ii + 1)
      exact ⟨h.1, by omega⟩
    · have h := longestZeros_bounds gs h1 (by omega : maxStart + maxZeros ≤ ii + 1)
        (by omega : lo + currZeros ≤ ii + 1)
      exact ⟨h.1, by omega⟩

lemma Addr.gap_bounds (a : Addr) : 1 ≤ a.gap.1 ∧ a.gap.1 + a.gap.2 ≤ 8 := by
  have h := longestZeros_bounds (a.groups.drop 1) (le_refl 1) (by omega : 1 + 0 ≤ 1) (by omega : 1 + 0 ≤ 1)
  rw [length_drop, a.length_eq] at h
  exact h

/-- The address with zeros in the gap of its text. -/
def Addr.gapped (a : Addr) : List ℕ :=
  a.groups.take a.gap.1 ++ List.replicate a.gap.2 0 ++ a.groups.drop (a.gap.1 + a.gap.2)

/-! ### Reading what was written -/

/-- Groups with colons between them. -/
def coloned : List ℕ → Str
  | [] => []
  | [g] => hexText g
  | g :: g' :: gs => hexText g ++ ':' :: coloned (g' :: gs)

lemma coloned_cons {gs : List ℕ} (g : ℕ) (h : gs ≠ []) :
    coloned (g :: gs) = hexText g ++ ':' :: coloned gs := by
  obtain ⟨g', gs', rfl⟩ := exists_cons_of_ne_nil h
  rfl

lemma drop_eq_getD_cons {gs : List ℕ} {ii : ℕ} (h : ii < gs.length) :
    gs.drop ii = gs.getD ii 0 :: gs.drop (ii + 1) := by
  rw [List.drop_eq_getElem_cons h, ← List.getElem_eq_getD]

section Print

variable {groups : List ℕ} {maxStart maxZeros : ℕ}

lemma printGroups_rest (hlen : groups.length = 8) :
    (k : ℕ) → ∀ {ii n : ℕ}, ii + k = 8 → k ≤ n → maxZeros = 0 ∨ maxStart < ii →
      printGroups groups maxStart maxZeros n ii = coloned (groups.drop ii)
  | 0, ii, n, hk, _, _ => by
    have hnil : groups.drop ii = [] := List.drop_eq_nil_of_le (by omega)
    rw [hnil]
    cases n with
    | zero => rfl
    | succ n => rw [printGroups, if_pos (by omega)]; rfl
  | k + 1, ii, n + 1, hk, hn, hgap => by
    have hno : ¬ (0 < maxZeros ∧ ii = maxStart) := by omega
    have ih := printGroups_rest hlen k (by omega : ii + 1 + k = 8) (by omega : k ≤ n)
      (hgap.imp id fun h => by omega)
    rw [printGroups, if_neg (by omega), if_neg hno, ih,
      drop_eq_getD_cons (by omega : ii < groups.length)]
    by_cases hii : ii < 7
    · have hne : groups.drop (ii + 1) ≠ [] := by
        rw [ne_eq, List.drop_eq_nil_iff]
        omega
      rw [if_pos hii, coloned_cons _ hne, append_assoc]
      rfl
    · have hnil : groups.drop (ii + 1) = [] := List.drop_eq_nil_of_le (by omega)
      rw [if_neg hii, hnil, coloned, coloned, append_nil, append_nil]

lemma printGroups_gap (hlen : groups.length = 8) (hz : 0 < maxZeros) (hs : maxStart ≤ 7) (m : ℕ) :
    (k : ℕ) → ∀ {ii : ℕ}, ii + (k + 1) = maxStart → printGroups groups maxStart maxZeros (m + 1 + (k + 1)) ii
        = coloned ((groups.drop ii).take (k + 1)) ++ ':' :: ':' ::
          printGroups groups maxStart maxZeros m (maxStart + maxZeros)
  | 0, ii, hk => by
    have hno : ¬ (0 < maxZeros ∧ ii = maxStart) := by omega
    rw [printGroups, if_neg (by omega), if_neg hno, if_pos (by omega),
      drop_eq_getD_cons (by omega : ii < groups.length), hk, printGroups, if_neg (by omega),
      if_pos ⟨hz, rfl⟩, List.take_succ_cons, List.take_zero, coloned, append_assoc]
    rfl
  | k + 1, ii, hk => by
    have hno : ¬ (0 < maxZeros ∧ ii = maxStart) := by omega
    have ih := printGroups_gap hlen hz hs m k (by omega : ii + 1 + (k + 1) = maxStart)
    have hne : (groups.drop (ii + 1)).take (k + 1) ≠ [] := by
      rw [ne_eq, List.take_eq_nil_iff, List.drop_eq_nil_iff]
      omega
    have hturn : m + 1 + (k + 1 + 1) = m + 1 + (k + 1) + 1 := by omega
    rw [hturn, printGroups, if_neg (by omega), if_neg hno, if_pos (by omega), ih,
      drop_eq_getD_cons (by omega : ii < groups.length), List.take_succ_cons, coloned_cons _ hne]
    simp only [append_assoc, cons_append, nil_append]

end Print

lemma ntoa_eq {a : Addr} (h : inAddrIsIpv4 a.groups = false) : ntoa a = if a.gap.2 = 0 then coloned a.groups
      else coloned (a.groups.take a.gap.1) ++ ':' :: ':' :: coloned (a.groups.drop (a.gap.1 + a.gap.2)) := by
  obtain ⟨hstart, hend⟩ := a.gap_bounds
  rw [ntoa, if_neg (by rw [h]; exact Bool.false_ne_true)]
  split
  case isTrue hz => exact printGroups_rest a.length_eq 8 rfl (le_refl 8) (Or.inl hz)
  case isFalse hz =>
    obtain ⟨k, hk⟩ : ∃ k, a.gap.1 = k + 1 := ⟨a.gap.1 - 1, by omega⟩
    have hgap := printGroups_gap a.length_eq (by omega : 0 < a.gap.2) (by omega : a.gap.1 ≤ 7)
      (6 - k) k (by omega : 0 + (k + 1) = a.gap.1)
    have hturns : 6 - k + 1 + (k + 1) = 8 := by omega
    rw [hturns, List.drop_zero, ← hk] at hgap
    rw [hgap, printGroups_rest a.length_eq (8 - (a.gap.1 + a.gap.2)) (by omega) (by omega)
      (Or.inr (by omega))]

lemma hexVal_hexdigit {d : ℕ} (h : d < 16) : hexVal (hexdigit d) = some d := by
  have hall : ∀ d < 16, hexVal (hexdigit d) = some d := by decide
  exact hall d h

section Parse

variable {groups : List ℕ} {colon : ℕ} {start : Str}

lemma parseGroups_digit {d part : ℕ} (rest : Str) (hd : d < 16) (hpart : part * 16 + d < 65536)
    (hlen : groups.length < 8) : parseGroups (hexdigit d :: rest) groups part colon start =
    parseGroups rest groups (part * 16 + d) colon start := by
  rw [parseGroups.eq_def]
  dsimp only
  rw [if_neg (by omega), hexVal_hexdigit hd]
  dsimp only
  rw [if_neg (by omega)]

lemma parseGroups_hexText {g : ℕ} (rest : Str) (hg : g < 65536) (hlen : groups.length < 8) :
    parseGroups (hexText g ++ rest) groups 0 colon start = parseGroups rest groups g colon start := by
  have hlast : (g / 0x10) * 16 + g % 16 = g := by omega
  have hthird : (g / 0x100) * 16 + g / 0x10 % 16 = g / 0x10 := by omega
  have hsecond : (g / 0x1000) * 16 + g / 0x100 % 16 = g / 0x100 := by omega
  unfold hexText
  by_cases h4 : 0x1000 ≤ g
  · rw [if_pos h4, if_pos (by omega), if_pos (by omega)]
    simp only [cons_append, nil_append]
    rw [parseGroups_digit _ (by omega) (by omega) hlen, parseGroups_digit _ (by omega) (by omega) hlen,
      parseGroups_digit _ (by omega) (by omega) hlen, parseGroups_digit _ (by omega) (by omega) hlen,
      Nat.zero_mul, Nat.zero_add, hsecond, hthird, hlast]
  · by_cases h3 : 0x100 ≤ g
    · have htop : g / 0x100 % 16 = g / 0x100 := by omega
      rw [if_neg h4, if_pos h3, if_pos (by omega)]
      simp only [cons_append, nil_append]
      rw [parseGroups_digit _ (by omega) (by omega) hlen, parseGroups_digit _ (by omega) (by omega) hlen,
        parseGroups_digit _ (by omega) (by omega) hlen, Nat.zero_mul, Nat.zero_add, htop, hthird, hlast]
    · by_cases h2 : 0x10 ≤ g
      · have htop : g / 0x10 % 16 = g / 0x10 := by omega
        rw [if_neg h4, if_neg h3, if_pos h2]
        simp only [cons_append, nil_append]
        rw [parseGroups_digit _ (by omega) (by omega) hlen, parseGroups_digit _ (by omega) (by omega) hlen,
          Nat.zero_mul, Nat.zero_add, htop, hlast]
      · have htop : g % 16 = g := by omega
        rw [if_neg h4, if_neg h3, if_neg h2]
        simp only [cons_append, nil_append]
        rw [parseGroups_digit _ (by omega) (by omega) hlen, Nat.zero_mul, Nat.zero_add, htop]

lemma hexText_eq_cons (g : ℕ) (hg : g < 65536) : ∃ d < 16, ∃ cs, hexText g = hexdigit d :: cs := by
  unfold hexText
  by_cases h4 : 0x1000 ≤ g
  · exact ⟨g / 0x1000, by omega, _, by rw [if_pos h4]; rfl⟩
  · by_cases h3 : 0x100 ≤ g
    · exact ⟨g / 0x100 % 16, by omega, _, by rw [if_neg h4, if_pos h3]; rfl⟩
    · by_cases h2 : 0x10 ≤ g
      · exact ⟨g / 0x10 % 16, by omega, _, by rw [if_neg h4, if_neg h3, if_pos h2]; rfl⟩
      · exact ⟨g % 16, by omega, [], by rw [if_neg h4, if_neg h3, if_neg h2]; rfl⟩

lemma coloned_eq_cons {gs : List ℕ} (hne : gs ≠ []) (hlt : ∀ g ∈ gs, g < 65536) :
    ∃ d < 16, ∃ cs, coloned gs = hexdigit d :: cs := by
  obtain ⟨g, gs, rfl⟩ := exists_cons_of_ne_nil hne
  obtain ⟨d, hd, cs, hcs⟩ := hexText_eq_cons g (hlt g mem_cons_self)
  by_cases hnil : gs = []
  · exact ⟨d, hd, cs, by rw [hnil]; exact hcs⟩
  · exact ⟨d, hd, cs ++ ':' :: coloned gs, by rw [coloned_cons g hnil, hcs]; rfl⟩

lemma hexdigit_ne {d : ℕ} (h : d < 16) : hexdigit d ≠ ':' ∧ hexdigit d ≠ '.' := by
  have hall : ∀ d < 16, hexdigit d ≠ ':' ∧ hexdigit d ≠ '.' := by decide
  exact hall d h

lemma parseGroups_colon {g d : ℕ} {cs : Str} (hd : d < 16) (hlen : groups.length < 8) :
    parseGroups (':' :: hexdigit d :: cs) groups g colon start
      = parseGroups (hexdigit d :: cs) (groups ++ [g]) 0 colon (hexdigit d :: cs) := by
  obtain ⟨hcolon, hdot⟩ := hexdigit_ne hd
  have hval : hexVal ':' = none := by decide
  rw [parseGroups, if_neg (by omega), hval]
  dsimp only
  rw [if_pos rfl, if_neg hdot, if_neg hcolon]

lemma parseGroups_colons {g : ℕ} {cs : Str} (hlen : groups.length + 1 < 8) :
    parseGroups (':' :: ':' :: cs) groups g 8 start
      = parseGroups cs (groups ++ [g]) 0 (groups.length + 1) (':' :: cs) := by
  have hval : hexVal ':' = none := by decide
  rw [parseGroups, if_neg (by omega), hval]
  dsimp only
  rw [if_pos rfl, if_neg (by decide), if_pos rfl, if_neg (by omega), if_neg (by omega)]

lemma parseGroups_coloned (rest : Str) : (gs : List ℕ) → ∀ {g : ℕ} {groups : List ℕ} {start : Str},
    (∀ x ∈ g :: gs, x < 65536) → groups.length + gs.length < 8 →
      ∃ start', parseGroups (coloned (g :: gs) ++ rest) groups 0 colon start
        = parseGroups rest (groups ++ (g :: gs).dropLast) ((g :: gs).getLast (by simp)) colon start'
  | [], g, groups, start, hlt, hlen => by
    have hlen' : groups.length < 8 := hlen
    refine ⟨start, ?_⟩
    rw [coloned, parseGroups_hexText rest (hlt g mem_cons_self) hlen', List.dropLast_singleton,
      append_nil, List.getLast_singleton]
  | g' :: gs, g, groups, start, hlt, hlen => by
    rw [length_cons] at hlen
    have hlt' : ∀ x ∈ g' :: gs, x < 65536 := fun x hx => hlt x (List.mem_cons_of_mem g hx)
    obtain ⟨d, hd, cs, hcs⟩ := coloned_eq_cons (by simp) hlt'
    have hstep : parseGroups (coloned (g :: g' :: gs) ++ rest) groups 0 colon start
        = parseGroups (coloned (g' :: gs) ++ rest) (groups ++ [g]) 0 colon (coloned (g' :: gs) ++ rest) := by
      rw [coloned_cons g (by simp), append_assoc,
        parseGroups_hexText _ (hlt g mem_cons_self) (by omega), cons_append, hcs,
        cons_append, parseGroups_colon hd (by omega)]
    have hlen' : (groups ++ [g]).length + gs.length < 8 := by
      rw [length_append, List.length_singleton]
      omega
    obtain ⟨start', ih⟩ := parseGroups_coloned rest gs hlt' hlen'
    refine ⟨start', ?_⟩
    rw [hstep, ih, append_assoc]
    rfl

end Parse

/-! ### The round trip -/

lemma exists_of_mem_hexText {g : ℕ} {c : Char} (hg : g < 65536) (h : c ∈ hexText g) :
    ∃ d < 16, c = hexdigit d := by
  simp only [hexText, List.mem_append, mem_singleton] at h
  rcases h with ((h | h) | h) | h
  · split at h
    · exact ⟨g / 0x1000, by omega, mem_singleton.mp h⟩
    · cases h
  · split at h
    · exact ⟨g / 0x100 % 16, by omega, mem_singleton.mp h⟩
    · cases h
  · split at h
    · exact ⟨g / 0x10 % 16, by omega, mem_singleton.mp h⟩
    · cases h
  · exact ⟨g % 16, by omega, h⟩

lemma find_hexText {g : ℕ} (hg : g < 65536) (rest : Str) :
    (hexText g ++ ':' :: rest).find? (fun c => c = ':' ∨ c = '.') = some ':' := by
  have hnone : (hexText g).find? (fun c => c = ':' ∨ c = '.') = none := by
    rw [List.find?_eq_none]
    intro c hc
    obtain ⟨d, hd, rfl⟩ := exists_of_mem_hexText hg hc
    obtain ⟨hcolon, hdot⟩ := hexdigit_ne hd
    simp only [hcolon, hdot, or_self, decide_false, Bool.false_eq_true, not_false_eq_true]
  rw [List.find?_append, hnone, none_or, List.find?_cons_of_pos (by decide)]

lemma ntoa_eq_append {a : Addr} (h : inAddrIsIpv4 a.groups = false) :
    ∃ g < 65536, ∃ rest, ntoa a = hexText g ++ ':' :: rest := by
  obtain ⟨g, gs, hgs⟩ := List.exists_cons_of_length_pos (by rw [a.length_eq]; omega : 0 < a.groups.length)
  have hg : g < 65536 := a.lt g (by rw [hgs]; exact mem_cons_self)
  have hlen : gs.length = 7 := by
    have := a.length_eq
    rw [hgs, length_cons] at this
    omega
  have hcons : ∀ (rest : Str) {gs : List ℕ}, gs ≠ [] →
      ∃ rest', coloned (g :: gs) ++ rest = hexText g ++ ':' :: rest' := by
    intro rest gs hne
    refine ⟨coloned gs ++ rest, ?_⟩
    rw [coloned_cons g hne, append_assoc, cons_append]
  refine ⟨g, hg, ?_⟩
  rw [ntoa_eq h]
  split
  case isTrue =>
    have hne : gs ≠ [] := by
      intro e
      rw [e] at hlen
      cases hlen
    obtain ⟨rest', hr⟩ := hcons [] hne
    exact ⟨rest', by rw [hgs, ← hr, append_nil]⟩
  case isFalse =>
    obtain ⟨k, hk⟩ : ∃ k, a.gap.1 = k + 1 := ⟨a.gap.1 - 1, by have := a.gap_bounds.1; omega⟩
    rw [hgs, hk, List.take_succ_cons]
    by_cases hnil : gs.take k = []
    · exact ⟨_, by rw [hnil]; rfl⟩
    · exact hcons _ hnil

lemma parseGroups_behind {groups gs : List ℕ} {start : Str} (hlt : ∀ g ∈ gs, g < 65536)
    (hlen : groups.length + gs.length < 8) :
    parseGroups (coloned gs) groups 0 groups.length start
      = some (groups ++ (if gs = [] then [0] else gs), groups.length) := by
  by_cases hnil : gs = []
  · subst hnil
    have hcolon : ¬ (groups.length = 8 ∧ groups.length + 1 < 8) := by omega
    rw [coloned, parseGroups, if_neg (by rw [length_nil] at hlen; omega), if_neg hcolon, if_pos rfl]
  · obtain ⟨g, gs, rfl⟩ := exists_cons_of_ne_nil hnil
    rw [length_cons] at hlen
    obtain ⟨start', hread⟩ : ∃ start', parseGroups (coloned (g :: gs) ++ []) groups 0 groups.length start
        = parseGroups [] (groups ++ (g :: gs).dropLast) ((g :: gs).getLast hnil) groups.length start' :=
      parseGroups_coloned [] gs hlt (by omega)
    have hlast : (groups ++ (g :: gs).dropLast).length = groups.length + gs.length := by
      rw [length_append, List.length_dropLast, length_cons, Nat.add_sub_cancel]
    rw [append_nil] at hread
    rw [hread, parseGroups, if_neg (by omega), if_neg (by omega), if_neg hnil, append_assoc,
      List.dropLast_append_getLast]

/-- What is read back from the text of an address. -/
def readBack (a : Addr) : List ℕ :=
  if inAddrIsIpv4 a.groups then [0, 0, 0, 0, 0, 65535, a.groups.getD 6 0, a.groups.getD 7 0] else a.gapped

lemma parseGroups_gap {gs : List ℕ} {cs : Str} (hne : gs ≠ []) (hlt : ∀ g ∈ gs, g < 65536)
    (hlen : gs.length < 8) :
    parseGroups (coloned gs ++ ':' :: ':' :: cs) [] 0 8 [] = parseGroups cs gs 0 gs.length (':' :: cs) := by
  obtain ⟨g, gs, rfl⟩ := exists_cons_of_ne_nil hne
  rw [length_cons] at hlen
  obtain ⟨start', hread⟩ : ∃ start', parseGroups (coloned (g :: gs) ++ ':' :: ':' :: cs) [] 0 8 []
      = parseGroups (':' :: ':' :: cs) ([] ++ (g :: gs).dropLast) ((g :: gs).getLast hne) 8 start' :=
    parseGroups_coloned (':' :: ':' :: cs) gs hlt (by rw [length_nil]; omega)
  have hlast : ((g :: gs).dropLast).length + 1 = (g :: gs).length := by
    rw [List.length_dropLast, length_cons, Nat.add_sub_cancel]
  rw [hread, nil_append, parseGroups_colons (by rw [hlast, length_cons]; omega),
    List.dropLast_append_getLast, hlast]

lemma parse_gapped {a : Addr} (hz : a.gap.2 ≠ 0) :
    (parseGroups (coloned (a.groups.take a.gap.1) ++ ':' :: ':' ::
        coloned (a.groups.drop (a.gap.1 + a.gap.2))) [] 0 8 []).map (fun r => fillZeros r.1 r.2)
      = some a.gapped := by
  obtain ⟨hstart, hend⟩ := a.gap_bounds
  have hlen := a.length_eq
  have htake : (a.groups.take a.gap.1).length = a.gap.1 := by
    rw [length_take]
    omega
  have hdrop : (a.groups.drop (a.gap.1 + a.gap.2)).length = 8 - (a.gap.1 + a.gap.2) := by
    rw [length_drop, hlen]
  have hne : a.groups.take a.gap.1 ≠ [] := by
    intro e
    rw [e, length_nil] at htake
    omega
  rw [parseGroups_gap hne (fun g hg => a.lt g (List.mem_of_mem_take hg)) (by omega),
    parseGroups_behind (fun g hg => a.lt g (List.mem_of_mem_drop hg)) (by omega), map_some, fillZeros,
    htake, if_pos (by omega), List.take_left' htake, List.drop_left' htake, length_append, htake]
  congr 1
  rw [Addr.gapped]
  by_cases hnil : a.groups.drop (a.gap.1 + a.gap.2) = []
  · -- a gap at the end: the zero before the end of the text is one of the gap
    have hall : a.gap.2 = 8 - (a.gap.1 + 1) + 1 := by
      rw [hnil, length_nil] at hdrop
      omega
    rw [if_pos hnil, hnil, append_nil, List.length_singleton, append_assoc, hall, ← List.replicate_succ']
  · have hmiddle : 8 - (a.gap.1 + (8 - (a.gap.1 + a.gap.2))) = a.gap.2 := by omega
    rw [if_neg hnil, hdrop, hmiddle]

lemma parse_whole {a : Addr} :
    (parseGroups (coloned a.groups) [] 0 8 []).map (fun r => fillZeros r.1 r.2) = some a.groups := by
  obtain ⟨g, gs, hgs⟩ := List.exists_cons_of_length_pos (by rw [a.length_eq]; omega : 0 < a.groups.length)
  have hlt : ∀ x ∈ g :: gs, x < 65536 := by
    rw [← hgs]
    exact a.lt
  have hlen : gs.length = 7 := by
    have := a.length_eq
    rw [hgs, length_cons] at this
    omega
  have hne : g :: gs ≠ [] := by simp
  obtain ⟨start', hread⟩ : ∃ start', parseGroups (coloned (g :: gs) ++ []) [] 0 8 []
      = parseGroups [] ([] ++ (g :: gs).dropLast) ((g :: gs).getLast hne) 8 start' :=
    parseGroups_coloned [] gs hlt (by rw [length_nil]; omega)
  have hlast : ((g :: gs).dropLast).length = 7 := by
    rw [List.length_dropLast, length_cons, Nat.add_sub_cancel, hlen]
  rw [append_nil, nil_append] at hread
  rw [hgs, hread, parseGroups, if_neg (by omega), if_neg (by omega), List.dropLast_append_getLast,
    map_some, fillZeros, if_neg (by omega), length_cons, hlen]
  exact congrArg some (append_nil (g :: gs))

/-! ### Dotted quads -/

lemma le_ofDigitChars : (ds : Str) → ∀ n : ℕ, n ≤ Nat.ofDigitChars 10 ds n
  | [], n => by rw [Nat.ofDigitChars_nil]
  | d :: ds, n => by
    rw [Nat.ofDigitChars_cons]
    exact le_trans (by omega) (le_ofDigitChars ds _)

lemma atonIp4Loop_digits (rest : Str) {dots ip : ℕ} : (ds : Str) → ∀ {part : ℕ},
    (∀ c ∈ ds, isDigit c = true) → Nat.ofDigitChars 10 ds part < 256 →
      atonIp4Loop (ds ++ rest) dots part ip = atonIp4Loop rest dots (Nat.ofDigitChars 10 ds part) ip
  | [], part, _, _ => by rw [Nat.ofDigitChars_nil, nil_append]
  | d :: ds, part, hds, hval => by
    have hd : isDigit d = true := hds d mem_cons_self
    have hdot : d ≠ '.' := by
      rintro rfl
      cases hd
    rw [Nat.ofDigitChars_cons] at hval ⊢
    have hpart : part * 10 + (d.toNat - 48) = 10 * part + (d.toNat - '0'.toNat) := by
      rw [Nat.mul_comm]
      rfl
    have hle := le_ofDigitChars ds (10 * part + (d.toNat - '0'.toNat))
    rw [cons_append, atonIp4Loop, if_neg hdot, if_pos hd, if_neg (by omega), hpart]
    exact atonIp4Loop_digits rest ds (fun c hc => hds c (List.mem_cons_of_mem d hc)) hval

lemma atonIp4Loop_part (rest : Str) {n dots ip : ℕ} (hn : n < 256) :
    atonIp4Loop (digits n ++ rest) dots 0 ip = atonIp4Loop rest dots n ip := by
  have hval : Nat.ofDigitChars 10 (digits n) 0 = n := Nat.ofDigitChars_ten_toDigits
  rw [atonIp4Loop_digits rest (digits n) (fun c hc => isDigit_of_digits hc) (by rw [hval]; exact hn), hval]

lemma digits_eq_cons (n : ℕ) : ∃ c cs, digits n = c :: cs ∧ c ≠ '.' ∧ c ≠ '*' ∧ c ≠ ':' := by
  have hne : digits n ≠ [] := Nat.toDigits_ne_nil
  obtain ⟨c, cs, hcs⟩ := exists_cons_of_ne_nil hne
  have hc : isDigit c = true := isDigit_of_digits (by rw [hcs]; exact mem_cons_self)
  refine ⟨c, cs, hcs, ?_, ?_, ?_⟩
  all_goals
    rintro rfl
    cases hc

lemma atonIp4Loop_dot (rest : Str) {n part dots ip : ℕ} (hdots : dots < 3) :
    atonIp4Loop ('.' :: (digits n ++ rest)) dots part ip
      = atonIp4Loop (digits n ++ rest) (dots + 1) 0 (ip + part * 2 ^ (32 - 8 * (dots + 1))) := by
  obtain ⟨c, cs, hcs, hdot, hstar, -⟩ := digits_eq_cons n
  have hhead : (digits n ++ rest).head? = some c := by rw [hcs]; rfl
  rw [atonIp4Loop, if_pos rfl, if_neg (by omega), hhead, if_neg (by simpa using hdot),
    if_neg (by simpa using hstar)]

lemma atonIp4_quad {p q r s : ℕ} (hp : p < 256) (hq : q < 256) (hr : r < 256) (hs : s < 256) :
    atonIp4 (digits p ++ '.' :: (digits q ++ '.' :: (digits r ++ '.' :: digits s)))
      = some (p * 2 ^ 24 + q * 2 ^ 16 + r * 2 ^ 8 + s) := by
  obtain ⟨c, cs, hcs, hdot, -, -⟩ := digits_eq_cons p
  have hhead : (digits p ++ '.' :: (digits q ++ '.' :: (digits r ++ '.' :: digits s))).head? = some c := by
    rw [hcs]
    rfl
  have hdotted : ∀ ip, atonIp4Loop ('.' :: digits s) 2 r ip = atonIp4Loop (digits s) 3 0 (ip + r * 2 ^ 8) := by
    intro ip
    have h := @atonIp4Loop_dot [] s r 2 ip (by omega)
    rwa [append_nil] at h
  have hlast : ∀ ip, atonIp4Loop (digits s) 3 0 ip = some (ip + s) := by
    intro ip
    have h := @atonIp4Loop_part [] s 3 ip hs
    rw [append_nil] at h
    rw [h, atonIp4Loop, if_neg (by omega)]
    congr 1
    omega
  rw [atonIp4, hhead, if_neg (by simpa using hdot), atonIp4Loop_part _ hp, atonIp4Loop_dot _ (by omega),
    atonIp4Loop_part _ hq, atonIp4Loop_dot _ (by omega), atonIp4Loop_part _ hr, hdotted, hlast]
  congr 1
  omega

lemma find_digits (n : ℕ) (rest : Str) :
    (digits n ++ '.' :: rest).find? (fun c => c = ':' ∨ c = '.') = some '.' := by
  have hnone : (digits n).find? (fun c => c = ':' ∨ c = '.') = none := by
    rw [List.find?_eq_none]
    intro c hc hor
    have hdig := isDigit_of_digits hc
    rcases of_decide_eq_true hor with rfl | rfl <;> cases hdig
  rw [List.find?_append, hnone, none_or, List.find?_cons_of_pos (by decide)]

lemma head_ntoa (a : Addr) : (ntoa a).head? ≠ some ':' := by
  cases h : inAddrIsIpv4 a.groups with
  | true =>
    obtain ⟨c, cs, hcs, -, -, hcolon⟩ := digits_eq_cons (a.groups.getD 6 0 / 256)
    rw [ntoa, if_pos h, hcs]
    simpa using hcolon
  | false =>
    obtain ⟨g, hg, rest, htext⟩ := ntoa_eq_append h
    obtain ⟨d, hd, cs, hcs⟩ := hexText_eq_cons g hg
    rw [htext, hcs]
    simpa using (hexdigit_ne hd).1

/-- **What is read from the text of an address.** -/
theorem ipmaskParse_ntoa (a : Addr) : ipmaskParse (ntoa a) = some (readBack a) := by
  cases h : inAddrIsIpv4 a.groups with
  | true =>
    have hlt : ∀ i, a.groups.getD i 0 < 65536 := by
      intro i
      rw [List.getD_eq_getElem?_getD]
      cases hi : a.groups[i]? with
      | none => simp
      | some g => exact a.lt g (List.mem_of_getElem? hi)
    have h6 := hlt 6
    have h7 := hlt 7
    rw [ntoa, if_pos h, ipmaskParse, find_digits, if_neg (by decide), if_pos (Or.inl (by simp)),
      atonIp4_quad (by omega) (by omega) (by omega) (by omega), map_some, readBack, if_pos h]
    simp only [Option.some.injEq, List.cons.injEq, and_true, true_and]
    omega
  | false =>
    obtain ⟨g, hg, rest, htext⟩ := ntoa_eq_append h
    have hfind := find_hexText hg rest
    rw [← htext] at hfind
    rw [ipmaskParse, if_pos hfind, if_neg (head_ntoa a), readBack,
      if_neg (by rw [h]; exact Bool.false_ne_true), ntoa_eq h]
    split
    case isTrue hz =>
      have hgapped : a.gapped = a.groups := by
        rw [Addr.gapped, hz, List.replicate_zero, append_nil, Nat.add_zero, List.take_append_drop]
      rw [hgapped]
      exact parse_whole
    case isFalse hz => exact parse_gapped hz

/-! ### When the text is that of the address -/

/-- The gap in the text holds zeros only. -/
def Addr.Printed (a : Addr) : Prop :=
  inAddrIsIpv4 a.groups = true ∨ ∀ g ∈ (a.groups.drop a.gap.1).take a.gap.2, g = 0

instance (a : Addr) : Decidable a.Printed :=
  inferInstanceAs (Decidable (_ ∨ ∀ g ∈ (a.groups.drop a.gap.1).take a.gap.2, g = 0))

lemma zeroed_eq_iff {gs : List ℕ} {start zeros : ℕ} (h : start + zeros ≤ gs.length) :
    gs.take start ++ List.replicate zeros 0 ++ gs.drop (start + zeros) = gs
      ↔ ∀ g ∈ (gs.drop start).take zeros, g = 0 := by
  have hlen : ((gs.drop start).take zeros).length = zeros := by
    rw [length_take, length_drop]
    omega
  have hsplit : gs = gs.take start ++ (gs.drop start).take zeros ++ gs.drop (start + zeros) := by
    rw [← List.drop_drop, append_assoc, List.take_append_drop, List.take_append_drop]
  have hiff : gs.take start ++ List.replicate zeros 0 ++ gs.drop (start + zeros) = gs
      ↔ List.replicate zeros 0 = (gs.drop start).take zeros := by
    constructor
    · intro e
      exact List.append_cancel_left (List.append_cancel_right (e.trans hsplit))
    · intro e
      rw [e]
      exact hsplit.symm
  rw [hiff, eq_comm, List.eq_replicate_iff]
  exact ⟨fun h => h.2, fun h => ⟨hlen, h⟩⟩

lemma gapped_eq_iff (a : Addr) : a.gapped = a.groups ↔ ∀ g ∈ (a.groups.drop a.gap.1).take a.gap.2, g = 0 :=
  zeroed_eq_iff (by rw [a.length_eq]; exact a.gap_bounds.2)

lemma inAddrCmp_self (gs : List ℕ) : inAddrCmp gs gs = false := by
  unfold inAddrCmp
  split
  case isTrue h => simp [h]
  case isFalse => simp

/-- **An address is found again by its text when the gap holds zeros only.** -/
theorem inAddrCmp_readBack (a : Addr) : inAddrCmp (readBack a) a.groups = false ↔ a.Printed := by
  cases h : inAddrIsIpv4 a.groups with
  | true =>
    have hquad : inAddrIsIpv4 (readBack a) = true := by
      rw [readBack, if_pos h]
      rfl
    refine iff_of_true ?_ (Or.inl h)
    rw [inAddrCmp, if_pos hquad, h, readBack, if_pos h]
    simp
  | false =>
    have hback : readBack a = a.gapped := if_neg (by rw [h]; exact Bool.false_ne_true)
    have hprinted : a.Printed ↔ a.gapped = a.groups := by
      rw [gapped_eq_iff, Addr.Printed, h]
      exact or_iff_right Bool.false_ne_true
    rw [hprinted, hback, inAddrCmp]
    split
    case isTrue hquad =>
      -- the text is that of an IPv4 address, and the address is not
      refine iff_of_false (by simp [h]) fun e => ?_
      rw [e, h] at hquad
      cases hquad
    case isFalse => simp

/-- What the search for the gap has seen before the group `ii`: the gap holds zeros only, or a group
before it is not zero, and the same for the run that is counted. -/
structure Searched (groups : List ℕ) (ii maxStart maxZeros currZeros : ℕ) : Prop where
  gap : (∀ j, maxStart ≤ j → j < maxStart + maxZeros → groups.getD j 0 = 0) ∨
    ∃ p < maxStart, groups.getD p 0 ≠ 0
  curr : (∀ j, ii ≤ j + currZeros → j < ii → groups.getD j 0 = 0) ∨
    ∃ p, p + currZeros < ii ∧ groups.getD p 0 ≠ 0
  carried : 0 < maxZeros → ∃ p, p + currZeros < ii ∧ groups.getD p 0 ≠ 0

lemma Searched.longestZeros {groups : List ℕ} : (gs : List ℕ) → ∀ {ii maxStart maxZeros currZeros : ℕ},
    groups.drop ii = gs → Searched groups ii maxStart maxZeros currZeros → currZeros < ii →
    (∀ j, (longestZeros ii maxStart maxZeros currZeros gs).1 ≤ j →
      j < (longestZeros ii maxStart maxZeros currZeros gs).1
        + (longestZeros ii maxStart maxZeros currZeros gs).2 → groups.getD j 0 = 0) ∨
      ∃ p < (longestZeros ii maxStart maxZeros currZeros gs).1, groups.getD p 0 ≠ 0
  | [], ii, maxStart, maxZeros, currZeros, _, hs, hlt => by
    simp only [Nefarious.longestZeros]
    split
    · refine hs.curr.imp (fun h j hj hj' => h j ?_ ?_) fun ⟨p, hp, hne⟩ => ⟨p, ?_, hne⟩ <;>
        dsimp only at * <;> omega
    · exact hs.gap
  | g :: gs, ii, maxStart, maxZeros, currZeros, hdrop, hs, hlt => by
    have hii : ii < groups.length := by
      by_contra hge
      rw [List.drop_eq_nil_of_le (by omega)] at hdrop
      cases hdrop
    rw [drop_eq_getD_cons hii] at hdrop
    obtain ⟨hg, hgs⟩ := List.cons.inj hdrop
    simp only [Nefarious.longestZeros]
    split
    case isTrue hzero =>
      apply Searched.longestZeros gs hgs _ (by omega)
      refine ⟨hs.gap, ?_, fun h => ?_⟩
      · refine hs.curr.imp (fun h j hj hj' => ?_) fun ⟨p, hp, hne⟩ => ⟨p, by omega, hne⟩
        by_cases hlast : j = ii
        · rw [hlast, hg, hzero]
        · exact h j (by omega) (by omega)
      · obtain ⟨p, hp, hne⟩ := hs.carried h
        exact ⟨p, by omega, hne⟩
    case isFalse hzero =>
      rw [← hg] at hzero
      split
      case isTrue hmore =>
        apply Searched.longestZeros gs hgs _ (by omega)
        refine ⟨?_, Or.inl fun j hj hj' => by omega, fun _ => ⟨ii, by omega, hzero⟩⟩
        exact hs.curr.imp (fun h j hj hj' => h j (by omega) (by omega))
          fun ⟨p, hp, hne⟩ => ⟨p, by omega, hne⟩
      case isFalse hmore =>
        apply Searched.longestZeros gs hgs _ (by omega)
        have hcarried : 0 < maxZeros → ∃ p, p + currZeros < ii + 1 ∧ groups.getD p 0 ≠ 0 := by
          intro h
          obtain ⟨p, hp, hne⟩ := hs.carried h
          exact ⟨p, by omega, hne⟩
        refine ⟨hs.gap, ?_, hcarried⟩
        by_cases hcurr : currZeros = 0
        · exact .inl fun j hj hj' => by omega
        · exact .inr (hcarried (by omega))

lemma gap_or_before (a : Addr) :
    (∀ g ∈ (a.groups.drop a.gap.1).take a.gap.2, g = 0) ∨ ∃ p < a.gap.1, a.groups.getD p 0 ≠ 0 := by
  have hstart : Searched a.groups 1 1 0 0 :=
    ⟨Or.inl fun j hj hj' => by omega, Or.inl fun j hj hj' => by omega, fun h => by omega⟩
  refine (hstart.longestZeros (a.groups.drop 1) rfl (by omega)).imp (fun h g hg => ?_) id
  obtain ⟨i, hi, hget⟩ := List.mem_iff_getElem.mp hg
  rw [length_take, length_drop] at hi
  have hat : a.groups.getD (a.gap.1 + i) 0 = g := by
    rw [← hget, List.getElem_take, List.getElem_drop, List.getElem_eq_getD]
  rw [← hat]
  exact h (a.gap.1 + i) (Nat.le_add_right _ _) (show a.gap.1 + i < a.gap.1 + a.gap.2 by omega)

lemma printed_of_unset {a : Addr} (h : inAddrCmp (readBack a) (List.replicate 8 0) = false) : a.Printed := by
  by_cases hquad : inAddrIsIpv4 a.groups = true
  · exact .inl hquad
  rw [readBack, if_neg hquad, inAddrCmp] at h
  split at h
  case isTrue =>
    have hunset : inAddrIsIpv4 (List.replicate 8 0) = false := by decide
    rw [hunset] at h
    simp at h
  case isFalse =>
    have hzero : a.gapped = List.replicate 8 0 := by simpa using h
    rcases gap_or_before a with hgap | ⟨p, hp, hne⟩
    · exact .inr hgap
    · -- a group before the gap is the same in both
      have htake : p < (a.groups.take a.gap.1).length := by
        have hend := a.gap_bounds.2
        rw [length_take, a.length_eq]
        omega
      have hsame : a.gapped.getD p 0 = a.groups.getD p 0 := by
        rw [Addr.gapped, append_assoc, List.getD_eq_getElem?_getD, List.getElem?_append_left htake,
          List.getElem?_take_of_lt hp, ← List.getD_eq_getElem?_getD]
      rw [hzero, List.getD_eq_getElem?_getD, List.getElem?_replicate] at hsame
      exact absurd (by rw [← hsame]; split <;> rfl) hne

/-! ### What an address may be written with -/

/-- The characters of an address. `ipmask_parse`. -/
def isAddrChar (c : Char) : Bool := (hexVal c).isSome ∨ c = ':' ∨ c = '.' ∨ c = '*'

lemma isAddrChar_of_isDigit {c : Char} (h : isDigit c = true) : isAddrChar c = true := by
  have hdig : '0' ≤ c ∧ c ≤ '9' := of_decide_eq_true h
  simp only [isAddrChar, hexVal, if_pos hdig, Option.isSome_some, true_or, decide_true]

lemma isAddrChar_atonIp4Loop : (s : Str) → ∀ {dots part ip r : ℕ},
    atonIp4Loop s dots part ip = some r → ∀ c ∈ s, isAddrChar c = true
  | [], _, _, _, _, _ => fun _ hc => absurd hc not_mem_nil
  | c :: cs, dots, part, ip, r, h => by
    rw [atonIp4Loop] at h
    intro c' hc'
    rcases mem_cons.mp hc' with rfl | hcs
    · split at h
      case isTrue hdot => rw [hdot]; rfl
      case isFalse =>
        split at h
        case isTrue hdig => exact isAddrChar_of_isDigit hdig
        case isFalse => cases h
    · by_cases hstar : c = '.' ∧ cs.all (fun c => c = '*' ∨ c = '.') = true
      · have hall := all_eq_true.mp hstar.2 c' hcs
        rcases of_decide_eq_true hall with rfl | rfl <;> rfl
      · split_ifs at h with hdot hthree hdots hhead hall hdig hbig
        · exact absurd ⟨hdot, hall⟩ hstar
        · exact isAddrChar_atonIp4Loop cs h c' hcs
        · exact isAddrChar_atonIp4Loop cs h c' hcs

lemma isAddrChar_atonIp4 {s : Str} {r : ℕ} (h : atonIp4 s = some r) : ∀ c ∈ s, isAddrChar c = true := by
  unfold atonIp4 at h
  split at h
  · cases h
  · exact isAddrChar_atonIp4Loop s h

lemma isAddrChar_parseGroups : (s : Str) → ∀ {groups : List ℕ} {part colon : ℕ} {start : Str}
    {r : List ℕ × ℕ}, parseGroups s groups part colon start = some r → start = [] ∨ s <:+ start →
      ∀ c ∈ s, isAddrChar c = true
  | [], _, _, _, _, _, _, _ => fun _ hc => absurd hc not_mem_nil
  | c :: cs, groups, part, colon, start, r, h, hstart => by
    have hnext : start = [] ∨ cs <:+ start := hstart.imp id (List.suffix_cons c cs).trans
    have hcons : isAddrChar c = true → (∀ d ∈ cs, isAddrChar d = true) →
        ∀ d ∈ c :: cs, isAddrChar d = true := by
      intro hc hcs d hd
      rcases mem_cons.mp hd with rfl | hd
      · exact hc
      · exact hcs d hd
    rw [parseGroups.eq_def] at h
    dsimp only at h
    split at h
    · cases h
    cases hval : hexVal c with
    | some chval =>
      rw [hval] at h
      dsimp only at h
      split at h
      · cases h
      · exact hcons (by simp [isAddrChar, hval]) (isAddrChar_parseGroups cs h hnext)
    | none =>
      rw [hval] at h
      dsimp only at h
      split at h
      case isTrue hcolon =>
        apply hcons (by rw [hcolon]; rfl)
        cases cs with
        | nil => exact fun d hd => absurd hd not_mem_nil
        | cons d cs' =>
          dsimp only at h
          split_ifs at h with hdot htwo hsecond hfull
          · intro e he
            rcases mem_cons.mp he with rfl | he
            · rw [htwo]; rfl
            · exact isAddrChar_parseGroups cs' h (Or.inr (List.suffix_cons d cs')) e he
          · exact isAddrChar_parseGroups (d :: cs') h (Or.inr List.suffix_rfl)
      case isFalse =>
        split at h
        case isTrue hdot =>
          obtain ⟨ip4, hip4, -⟩ := Option.bind_eq_some_iff.mp h
          have hall := isAddrChar_atonIp4 hip4
          rcases hstart with rfl | hsuffix
          · cases hip4
          · exact fun d hd => hall d (hsuffix.subset hd)
        case isFalse =>
          split at h
          case isTrue hstar =>
            apply hcons (by rw [hstar]; rfl)
            intro d hd
            split at h
            case isTrue hrest =>
              rcases of_decide_eq_true (all_eq_true.mp hrest.1 d hd) with rfl | rfl <;> rfl
            case isFalse => cases h
          case isFalse => cases h

lemma isAddrChar_ipmaskParse {s : Str} {gs : List ℕ} (h : ipmaskParse s = some gs) :
    s ≠ [] ∧ ∀ c ∈ s, isAddrChar c = true := by
  constructor
  · rintro rfl
    cases h
  unfold ipmaskParse at h
  split at h
  · split at h
    case isTrue hhead =>
      split at h
      case isTrue => cases h
      case isFalse htwo =>
        obtain ⟨r, hr, -⟩ := map_eq_some_iff.mp h
        have hrest := isAddrChar_parseGroups (s.drop 2) hr (Or.inr List.suffix_rfl)
        rw [not_or, not_not] at htwo
        match s, hhead, htwo.1, hrest with
        | c :: d :: s, hhead, hsecond, hrest =>
          rw [List.head?_cons, Option.some.injEq] at hhead
          rw [List.drop_succ_cons, List.drop_zero, List.head?_cons, Option.some.injEq] at hsecond
          intro e he
          rcases mem_cons.mp he with rfl | he
          · rw [hhead]; rfl
          · rcases mem_cons.mp he with rfl | he
            · rw [hsecond]; rfl
            · exact hrest e he
    case isFalse =>
      obtain ⟨r, hr, -⟩ := map_eq_some_iff.mp h
      exact isAddrChar_parseGroups s hr (Or.inl rfl)
  split at h
  · obtain ⟨r, hr, -⟩ := map_eq_some_iff.mp h
    exact isAddrChar_atonIp4 hr
  split at h
  case isTrue hstar =>
    intro c hc
    rw [of_decide_eq_true (all_eq_true.mp hstar.2 c hc)]
    rfl
  case isFalse => cases h

/-- A gap over a group that is not zero. -/
example : ntoa ⟨[0x2001, 0, 0, 1, 0, 2, 0, 0], rfl, by decide⟩ = "2001:0:0:1:0::".toList := by decide +kernel

end Nefarious
