import Nefarious.Address
import Mathlib.Tactic.IntervalCases

/-!
# Texts of addresses, with the length of the mask

`ipmaskParse` is `ipmask_parse` where nobody asks for the length of the mask.

Names: `ircd_string.c`.
-/

namespace Nefarious

open Option (map_eq_some_iff map_some mem_some_iff some.inj)
open List (cons_append length_append length_cons length_drop map_cons mem_append mem_cons mem_cons_of_mem
  mem_cons_self not_mem_nil)

/-! ### Reading with the length of the mask -/

/-- The number behind a slash, as `unsigned int`. `ipmask_parse`. -/
def readBits (s : Str) : ℕ :=
  (s.takeWhile isDigit).foldl (fun n c => (n * 10 + (c.toNat - 48)) % 2 ^ 32) 0

/-- There is a number behind the slash. `ipmask_parse`. -/
def hasBits (s : Str) : Bool := s.head?.any isDigit

/-- The rest of a dotted quad from the position `pos` on: the address, the characters used and the length of the
mask. `ircd_aton_ip4`. -/
def atonIp4BitsLoop : Str → ℕ → ℕ → ℕ → ℕ → Option (ℕ × ℕ × ℕ)
  | [], pos, dots, part, ip =>
    if dots < 3 then none else some (ip + part * 2 ^ (24 - 8 * dots), pos, 32)
  | c :: cs, pos, dots, part, ip =>
    if c = '.' then
      if 3 < dots + 1 then none
      else if cs.head? = some '.' then none
      else if cs.head? = some '*' then
        if cs.all (fun c => c = '*' ∨ c = '.') then
          some (ip + part * 2 ^ (32 - 8 * (dots + 1)), pos + 1 + cs.length, (dots + 1) * 8)
        else none
      else atonIp4BitsLoop cs (pos + 1) (dots + 1) 0 (ip + part * 2 ^ (32 - 8 * (dots + 1)))
    else if c = '/' then
      if hasBits cs = false ∨ 32 < readBits cs then none
      else some (ip + part * 2 ^ (24 - 8 * dots), pos + 1 + (cs.takeWhile isDigit).length, readBits cs)
    else if isDigit c then
      if 255 < part * 10 + (c.toNat - 48) then none
      else atonIp4BitsLoop cs (pos + 1) dots (part * 10 + (c.toNat - 48)) ip
    else none

/-- `ircd_aton_ip4`. -/
def atonIp4Bits (input : Str) : Option (ℕ × ℕ × ℕ) :=
  if input.head? = some '.' then none else atonIp4BitsLoop input 0 0 0 0

/-- What has been read of an address with colons. `ipmask_parse`. -/
structure ParsedMask where
  /-- `ip->in6_16`, up to `ii`. -/
  groups : List ℕ
  colon : ℕ
  pos : ℕ
  /-- `*pbits`, when it has been written. -/
  bits : Option ℕ
deriving DecidableEq

/-- The rest of an address with colons from the position `pos` on. `start` is the text from `part_start` on,
which is at `startPos`. After eight groups the loop ends and nothing is written to `*pbits`. `ipmask_parse`. -/
def parseMask : Str → ℕ → List ℕ → ℕ → ℕ → Str → ℕ → Option ParsedMask
  | [], pos, groups, part, colon, _, _ =>
    if 8 ≤ groups.length then some ⟨groups, colon, pos, none⟩
    else if colon = 8 ∧ groups.length + 1 < 8 then none
    else some ⟨groups ++ [part], colon, pos, some 128⟩
  | c :: cs, pos, groups, part, colon, start, startPos =>
    if 8 ≤ groups.length then none
    else match hexVal c with
      | some chval =>
        if 0xffff < part * 16 + chval then none
        else parseMask cs (pos + 1) groups (part * 16 + chval) colon start startPos
      | none =>
        if c = ':' then
          match cs with
          | [] => parseMask [] (pos + 1) (groups ++ [part]) 0 colon [] (pos + 1)
          | d :: cs' =>
            if d = '.' then none
            else if d = ':' then
              if colon < 8 then none
              else if groups.length + 1 = 8 then none
              else parseMask cs' (pos + 2) (groups ++ [part]) 0 (groups.length + 1) (d :: cs') (pos + 1)
            else parseMask (d :: cs') (pos + 1) (groups ++ [part]) 0 colon (d :: cs') (pos + 1)
        else if c = '.' then
          (atonIp4Bits start).bind fun r =>
            if 6 < groups.length then none
            else some ⟨groups ++ [r.1 / 65536, r.1 % 65536], colon, startPos + r.2.1, some (r.2.2 + 96)⟩
        else if c = '/' then
          if hasBits cs = false ∨ 128 < readBits cs then none
          else some ⟨groups ++ [part], colon, pos + 1 + (cs.takeWhile isDigit).length, some (readBits cs)⟩
        else if c = '*' then
          if cs.all (fun c => c = '*' ∨ c = ':') ∧ 8 ≤ colon then
            let groups := if part ≠ 0 then groups ++ [part] else groups
            some ⟨groups, colon, pos + 1 + cs.length, some (groups.length * 16)⟩
          else none
        else none

/-- Read an address and the length of its mask: the groups, the characters used, and `*pbits` when it has been
written. `ipmask_parse`. -/
def ipmaskParseBits (input : Str) : Option (List ℕ × ℕ × Option ℕ) :=
  if input.find? (fun c => c = ':' ∨ c = '.') = some ':' then
    if input.head? = some ':' then
      if (input.drop 1).head? ≠ some ':' ∨ (input.drop 2).head? = some ':' then none
      else (parseMask (input.drop 2) 2 [] 0 0 (input.drop 2) 2).map fun r =>
        (fillZeros r.groups r.colon, r.pos, r.bits)
    else (parseMask input 0 [] 0 8 [] 0).map fun r => (fillZeros r.groups r.colon, r.pos, r.bits)
  else if '.' ∈ input ∨ '/' ∈ input then
    (atonIp4Bits input).map fun r =>
      ([0, 0, 0, 0, 0, 65535, r.1 / 65536, r.1 % 65536], r.2.1, some (r.2.2 + 96))
  else if input.head? = some '*' ∧ input.all (· = '*') then
    some (List.replicate 8 0, input.length, some 0)
  else none

example : ipmaskParseBits "192.168/16".toList = some ([0, 0, 0, 0, 0, 65535, 0xc0a8, 0], 10, some 112) ∧
    ipmaskParseBits "a:/16".toList = some ([10, 0, 0, 0, 0, 0, 0, 0], 5, some 16) ∧
    ipmaskParseBits "192.*/8".toList = none := by decide +kernel

/-! ### Texts without a mask -/

lemma atonIp4BitsLoop_eq : (s : Str) → ∀ {pos dots part ip : ℕ}, (∀ c ∈ s, isDigit c = true ∨ c = '.') →
    atonIp4BitsLoop s pos dots part ip = (atonIp4Loop s dots part ip).map fun r => (r, pos + s.length, 32)
  | [], pos, dots, part, ip, _ => by
    rw [atonIp4BitsLoop, atonIp4Loop]
    split <;> rfl
  | c :: cs, pos, dots, part, ip, h => by
    have hcs : ∀ c ∈ cs, isDigit c = true ∨ c = '.' := fun d hd => h d (mem_cons_of_mem c hd)
    have hlen : pos + 1 + cs.length = pos + (c :: cs).length := by
      rw [length_cons]
      omega
    have hstar : cs.head? ≠ some '*' := by
      intro e
      rcases hcs _ (List.mem_of_head? e) with hd | hd
      · cases hd
      · cases hd
    rw [atonIp4BitsLoop, atonIp4Loop]
    rcases h c mem_cons_self with hdig | rfl
    · have hdot : c ≠ '.' := by
        rintro rfl
        cases hdig
      have hslash : c ≠ '/' := by
        rintro rfl
        cases hdig
      rw [if_neg hdot, if_neg hdot, if_neg hslash, if_pos hdig, if_pos hdig]
      split
      · rfl
      · rw [atonIp4BitsLoop_eq cs hcs, hlen]
    · rw [if_pos rfl, if_pos rfl]
      split
      · rfl
      · split
        · rfl
        · rw [atonIp4BitsLoop_eq cs hcs, hlen]

/-- The colons that close a group; the second one of `::` closes none. `ipmask_parse`. -/
def closers : Str → ℕ
  | [] => 0
  | [c] => if c = ':' then 1 else 0
  | c :: d :: cs => if c = ':' then (if d = ':' then closers cs else closers (d :: cs)) + 1 else closers (d :: cs)

lemma parseMask_eq : (s : Str) → ∀ {pos part colon startPos : ℕ} {groups : List ℕ} {start : Str},
    (∀ c ∈ s, (hexVal c).isSome = true ∨ c = ':') → groups.length + closers s < 8 →
    parseMask s pos groups part colon start startPos
      = (parseGroups s groups part colon start).map fun r => ⟨r.1, r.2, pos + s.length, some 128⟩
  | [], pos, part, colon, startPos, groups, start, _, hlen => by
    have hlt : ¬ 8 ≤ groups.length := by omega
    rw [parseMask, parseGroups, if_neg hlt, if_neg hlt]
    split <;> rfl
  | c :: cs, pos, part, colon, startPos, groups, start, h, hlen => by
    have hcs : ∀ c ∈ cs, (hexVal c).isSome = true ∨ c = ':' := fun d hd => h d (mem_cons_of_mem c hd)
    have hpos : pos + 1 + cs.length = pos + (c :: cs).length := by
      rw [length_cons]
      omega
    have hlt : ¬ 8 ≤ groups.length := by omega
    rw [parseMask.eq_def, parseGroups.eq_def]
    dsimp only
    rw [if_neg hlt, if_neg hlt]
    cases hval : hexVal c with
    | some chval =>
      have hne : c ≠ ':' := by
        rintro rfl
        cases hval
      have hrest : groups.length + closers cs < 8 := by
        cases cs with
        | nil =>
          rw [closers]
          omega
        | cons d cs =>
          rw [closers, if_neg hne] at hlen
          exact hlen
      dsimp only
      split
      · rfl
      · rw [parseMask_eq cs hcs hrest, hpos]
    | none =>
      obtain rfl : c = ':' := by
        rcases h c mem_cons_self with hc | hc
        · rw [hval] at hc
          cases hc
        · exact hc
      have hgroups : (groups ++ [part]).length = groups.length + 1 := by
        rw [length_append, List.length_singleton]
      dsimp only
      rw [if_pos rfl, if_pos rfl]
      cases cs with
      | nil =>
        rw [closers, if_pos rfl] at hlen
        dsimp only
        rw [parseMask_eq [] hcs (by rw [hgroups, closers]; omega)]
        rfl
      | cons d cs' =>
        rw [closers, if_pos rfl] at hlen
        dsimp only
        split
        · rfl
        · split
          case isTrue hd =>
            subst hd
            rw [if_pos rfl] at hlen
            split
            · rfl
            · split
              · rfl
              · have hpos' : pos + 2 + cs'.length = pos + (':' :: ':' :: cs').length := by
                  rw [length_cons, length_cons]
                  omega
                rw [parseMask_eq cs' (fun e he => hcs e (mem_cons_of_mem _ he)) (by omega), hpos']
          case isFalse hd =>
            rw [if_neg hd] at hlen
            rw [parseMask_eq (d :: cs') hcs (by omega), hpos]

lemma hexVal_of_mem_hexText {g : ℕ} {c : Char} (hg : g < 65536) (hc : c ∈ hexText g) :
    (hexVal c).isSome = true := by
  obtain ⟨d, hd, rfl⟩ := exists_of_mem_hexText hg hc
  rw [hexVal_hexdigit hd, Option.isSome_some]

lemma closers_append (rest : Str) : (s : Str) → (∀ c ∈ s, c ≠ ':') → closers (s ++ rest) = closers rest
  | [], _ => rfl
  | c :: s, h => by
    have hc : c ≠ ':' := h c mem_cons_self
    have hs : closers (s ++ rest) = closers rest := closers_append rest s fun d hd => h d (mem_cons_of_mem c hd)
    rw [cons_append, ← hs]
    cases s ++ rest with
    | nil => exact if_neg hc
    | cons d cs => rw [closers, if_neg hc]

lemma closers_colon {g : ℕ} (hg : g < 65536) (rest : Str) :
    closers (':' :: (hexText g ++ rest)) = closers (hexText g ++ rest) + 1 := by
  obtain ⟨d, hd, cs, hcs⟩ := hexText_eq_cons g hg
  rw [hcs, cons_append, closers, if_pos rfl, if_neg (hexdigit_ne hd).1]

lemma coloned_chars (rest : Str) : (gs : List ℕ) → (∀ g ∈ gs, g < 65536) →
    (∀ c ∈ coloned gs, (hexVal c).isSome = true ∨ c = ':') ∧
      closers (coloned gs ++ rest) = gs.length - 1 + closers rest
  | [], _ => ⟨fun _ hc => absurd hc not_mem_nil, (Nat.zero_add _).symm⟩
  | [g], h => by
    have hg : g < 65536 := h g mem_cons_self
    refine ⟨fun c hc => Or.inl (hexVal_of_mem_hexText hg hc), ?_⟩
    rw [coloned, closers_append rest _ fun c hc => ?_, List.length_singleton, Nat.sub_self, Nat.zero_add]
    rintro rfl
    cases hexVal_of_mem_hexText hg hc
  | g :: g' :: gs, h => by
    have hg : g < 65536 := h g mem_cons_self
    have hg' : g' < 65536 := h g' (mem_cons_of_mem g mem_cons_self)
    obtain ⟨hchars, hcount⟩ := coloned_chars rest (g' :: gs) fun x hx => h x (mem_cons_of_mem g hx)
    have hne : ∀ c ∈ hexText g, c ≠ ':' := by
      rintro c hc rfl
      cases hexVal_of_mem_hexText hg hc
    obtain ⟨rest', hrest'⟩ : ∃ rest', coloned (g' :: gs) ++ rest = hexText g' ++ rest' := by
      cases gs with
      | nil => exact ⟨rest, rfl⟩
      | cons g'' gs => exact ⟨':' :: coloned (g'' :: gs) ++ rest, by rw [coloned, List.append_assoc]⟩
    rw [coloned]
    constructor
    · intro c hc
      rcases mem_append.mp hc with hc | hc
      · exact .inl (hexVal_of_mem_hexText hg hc)
      · rcases mem_cons.mp hc with hc | hc
        · exact .inr hc
        · exact hchars c hc
    · rw [List.append_assoc, closers_append _ _ hne, cons_append, hrest', closers_colon hg', ← hrest', hcount]
      simp only [length_cons]
      omega

lemma ntoa_chars {a : Addr} (h : inAddrIsIpv4 a.groups = false) :
    (∀ c ∈ ntoa a, (hexVal c).isSome = true ∨ c = ':') ∧ closers (ntoa a) < 8 := by
  have hlen := a.length_eq
  rw [ntoa_eq h]
  split
  case isTrue =>
    obtain ⟨hchars, hcount⟩ := coloned_chars [] a.groups a.lt
    rw [List.append_nil] at hcount
    exact ⟨hchars, by rw [hcount, closers]; omega⟩
  case isFalse hz =>
    obtain ⟨hstart, hend⟩ := a.gap_bounds
    obtain ⟨hchars', hcount'⟩ := coloned_chars [] (a.groups.drop (a.gap.1 + a.gap.2)) fun g hg =>
      a.lt g (List.mem_of_mem_drop hg)
    obtain ⟨hchars, hcount⟩ := coloned_chars (':' :: ':' :: coloned (a.groups.drop (a.gap.1 + a.gap.2)))
      (a.groups.take a.gap.1) fun g hg => a.lt g (List.mem_of_mem_take hg)
    constructor
    · intro c hc
      rcases mem_append.mp hc with hc | hc
      · exact hchars c hc
      · rcases mem_cons.mp hc with hc | hc
        · exact .inr hc
        · rcases mem_cons.mp hc with hc | hc
          · exact .inr hc
          · exact hchars' c hc
    · rw [List.append_nil, closers] at hcount'
      rw [hcount, closers, if_pos rfl, if_pos rfl, hcount']
      simp only [List.length_take, length_drop]
      omega

lemma quad_chars {p q r s : ℕ} : ∀ c ∈ digits p ++ '.' :: (digits q ++ '.' :: (digits r ++ '.' :: digits s)),
      isDigit c = true ∨ c = '.' := by
  intro c hc
  simp only [mem_append, mem_cons] at hc
  rcases hc with hc | hc | hc | hc | hc | hc | hc
  · exact .inl (isDigit_of_digits hc)
  · exact .inr hc
  · exact .inl (isDigit_of_digits hc)
  · exact .inr hc
  · exact .inl (isDigit_of_digits hc)
  · exact .inr hc
  · exact .inl (isDigit_of_digits hc)

lemma ipmaskParseBits_ntoa (a : Addr) :
    ipmaskParseBits (ntoa a) = some (readBack a, (ntoa a).length, some 128) := by
  have hparse := ipmaskParse_ntoa a
  cases h : inAddrIsIpv4 a.groups with
  | true =>
    have hquad := @quad_chars (a.groups.getD 6 0 / 256) (a.groups.getD 6 0 % 256) (a.groups.getD 7 0 / 256)
      (a.groups.getD 7 0 % 256)
    rw [ntoa, if_pos h] at hparse ⊢
    rw [ipmaskParse, find_digits, if_neg (by decide), if_pos (Or.inl (by simp))] at hparse
    rw [ipmaskParseBits, find_digits, if_neg (by decide), if_pos (Or.inl (by simp)), atonIp4Bits]
    rw [atonIp4] at hparse
    split at hparse
    case isTrue => cases hparse
    case isFalse hhead =>
      obtain ⟨addr, haddr, hgroups⟩ := map_eq_some_iff.mp hparse
      rw [if_neg hhead, atonIp4BitsLoop_eq _ hquad, haddr, map_some, map_some, hgroups, Nat.zero_add]
  | false =>
    obtain ⟨hchars, hcount⟩ := ntoa_chars h
    obtain ⟨g, hg, rest, htext⟩ := ntoa_eq_append h
    have hfind := find_hexText hg rest
    rw [← htext] at hfind
    rw [ipmaskParse, if_pos hfind, if_neg (head_ntoa a)] at hparse
    rw [ipmaskParseBits, if_pos hfind, if_neg (head_ntoa a),
      parseMask_eq _ hchars (by rw [List.length_nil]; omega), Option.map_map]
    obtain ⟨r, hr, hgroups⟩ := map_eq_some_iff.mp hparse
    rw [hr, map_some, ← hgroups, Nat.zero_add]
    rfl

/-! ### Runs of zeros -/

/-- The lengths of the runs of zeros, with `n` zeros before them. -/
def zeroRunsFrom (n : ℕ) : List ℕ → List ℕ
  | [] => if n = 0 then [] else [n]
  | g :: gs =>
    if g = 0 then zeroRunsFrom (n + 1) gs
    else if n = 0 then zeroRunsFrom 0 gs
    else n :: zeroRunsFrom 0 gs

/-- The lengths of the runs of zeros in a row of groups. -/
def zeroRuns (gs : List ℕ) : List ℕ := zeroRunsFrom 0 gs

/-- A run is followed by two or more runs that are longer together, and were not before the last of them. -/
def Outrun : List ℕ → Bool
  | [] => false
  | r :: rs =>
    (List.range rs.length).any (fun k => 1 ≤ k ∧ (rs.take k).sum ≤ r ∧ r < (rs.take (k + 1)).sum)
      || Outrun rs

def groupSign (g : ℕ) : ℕ := if g = 0 then 0 else 1

lemma groupSign_eq_zero {g : ℕ} : groupSign g = 0 ↔ g = 0 := by
  unfold groupSign
  split
  case isTrue h => exact iff_of_true rfl h
  case isFalse h => exact iff_of_false one_ne_zero h

lemma longestZeros_sign : (gs : List ℕ) → ∀ {ii maxStart maxZeros currZeros : ℕ},
    longestZeros ii maxStart maxZeros currZeros (gs.map groupSign)
      = longestZeros ii maxStart maxZeros currZeros gs
  | [], _, _, _, _ => rfl
  | g :: gs, ii, maxStart, maxZeros, currZeros => by
    simp only [map_cons, longestZeros, groupSign_eq_zero, longestZeros_sign gs]

lemma zeroRunsFrom_sign : (gs : List ℕ) → ∀ {n : ℕ}, zeroRunsFrom n (gs.map groupSign) = zeroRunsFrom n gs
  | [], _ => rfl
  | g :: gs, n => by
    simp only [map_cons, zeroRunsFrom, groupSign_eq_zero, zeroRunsFrom_sign gs]

def signRows : ℕ → List (List ℕ)
  | 0 => [[]]
  | n + 1 => (signRows n).flatMap fun row => [0 :: row, 1 :: row]

lemma mem_signRows : (gs : List ℕ) → gs.map groupSign ∈ signRows gs.length
  | [] => List.mem_singleton_self []
  | g :: gs => by
    rw [map_cons, length_cons, signRows, List.mem_flatMap]
    refine ⟨gs.map groupSign, mem_signRows gs, ?_⟩
    unfold groupSign
    split
    · exact mem_cons_self
    · exact mem_cons_of_mem _ (List.mem_singleton_self _)

/-- The groups behind the first that stand in the gap. -/
def inGap (gs : List ℕ) (start : ℕ) : List ℕ :=
  (gs.drop ((longestZeros start start 0 0 gs).1 - start)).take (longestZeros start start 0 0 gs).2

lemma forall_inGap_sign {gs : List ℕ} {start : ℕ} :
    (∀ g ∈ inGap (gs.map groupSign) start, g = 0) ↔ ∀ g ∈ inGap gs start, g = 0 := by
  unfold inGap
  rw [longestZeros_sign, ← List.map_drop, ← List.map_take, List.forall_mem_map]
  simp only [groupSign_eq_zero]

lemma inGap_seven : ∀ row ∈ signRows 7, (∀ g ∈ inGap row 1, g = 0) ↔ Outrun (zeroRuns row) = false := by
  decide +kernel

lemma printed_iff (a : Addr) :
    a.Printed ↔ inAddrIsIpv4 a.groups = true ∨ Outrun (zeroRuns (a.groups.drop 1)) = false := by
  have hseven : (a.groups.drop 1).length = 7 := by rw [length_drop, a.length_eq]
  have hrow := mem_signRows (a.groups.drop 1)
  rw [hseven] at hrow
  have hgap := inGap_seven _ hrow
  rw [forall_inGap_sign, zeroRuns, zeroRunsFrom_sign] at hgap
  have hstart := a.gap_bounds.1
  have hin : inGap (a.groups.drop 1) 1 = (a.groups.drop a.gap.1).take a.gap.2 := by
    have hdrop : 1 + (a.gap.1 - 1) = a.gap.1 := by omega
    show ((a.groups.drop 1).drop (a.gap.1 - 1)).take a.gap.2 = _
    rw [List.drop_drop, hdrop]
  rw [hin] at hgap
  rw [Addr.Printed, hgap]
  rfl

/-- The text of an address is read to its end, as one address, and this is the address that was written. -/
def TextRoundTrip (a : Addr) : Prop :=
  ∃ gs, ipmaskParseBits (ntoa a) = some (gs, (ntoa a).length, some 128) ∧ inAddrCmp gs a.groups = false

/-- **Textual round trip.** An address is found again by its text if and only if it is an IPv4 one or, behind
its first group, no run of zeros is outrun by the runs behind it. -/
theorem text_round_trip (a : Addr) :
    TextRoundTrip a ↔ inAddrIsIpv4 a.groups = true ∨ Outrun (zeroRuns (a.groups.drop 1)) = false := by
  rw [← printed_iff, ← inAddrCmp_readBack]
  constructor
  · rintro ⟨gs, hparse, hcmp⟩
    rw [ipmaskParseBits_ntoa, Option.some.injEq, Prod.mk.injEq] at hparse
    rw [hparse.1]
    exact hcmp
  · exact fun hcmp => ⟨readBack a, ipmaskParseBits_ntoa a, hcmp⟩

/-- **A gap over a group that is not zero.** The address `2001:0:0:1:0:2:0:0` is printed as `2001:0:0:1:0::`. -/
theorem gap_over_group : ntoa ⟨[0x2001, 0, 0, 1, 0, 2, 0, 0], by decide, by decide⟩ = "2001:0:0:1:0::".toList ∧
      ¬ ∀ a, TextRoundTrip a := by
  refine ⟨by decide +kernel, fun h => ?_⟩
  obtain ⟨gs, hparse, hcmp⟩ := h ⟨[0x2001, 0, 0, 1, 0, 2, 0, 0], by decide, by decide⟩
  have hread : ipmaskParseBits (ntoa ⟨[0x2001, 0, 0, 1, 0, 2, 0, 0], by decide, by decide⟩)
      = some ([0x2001, 0, 0, 1, 0, 0, 0, 0], 14, some 128) := by
    decide +kernel
  rw [hread, Option.some.injEq, Prod.mk.injEq] at hparse
  rw [← hparse.1] at hcmp
  exact absurd hcmp (by decide)

/-! ### What is read is an address -/

lemma atonIp4BitsLoop_bounds : (s : Str) → ∀ {pos dots part ip : ℕ} {r : ℕ × ℕ × ℕ}, dots ≤ 3 → part ≤ 255 →
    ip + 2 ^ (32 - 8 * dots) ≤ 2 ^ 32 → atonIp4BitsLoop s pos dots part ip = some r → r.1 < 2 ^ 32 ∧ r.2.2 ≤ 32
  | [], pos, dots, part, ip, r, hdots, hpart, hip, h => by
    rw [atonIp4BitsLoop] at h
    split at h
    · exact (nomatch h)
    · obtain rfl := some.inj h
      obtain rfl : dots = 3 := by omega
      simp at hip ⊢
      omega
  | c :: cs, pos, dots, part, ip, r, hdots, hpart, hip, h => by
    rw [atonIp4BitsLoop] at h
    -- the part that ends here
    have hpart' : ip + part * 2 ^ (24 - 8 * dots) < 2 ^ 32 := by
      interval_cases dots <;> simp at hip ⊢ <;> omega
    split at h
    · split at h
      · exact (nomatch h)
      · rename_i hlt
        have hnext : ip + part * 2 ^ (32 - 8 * (dots + 1)) + 2 ^ (32 - 8 * (dots + 1)) ≤ 2 ^ 32 := by
          have hlt' : dots < 3 := by omega
          interval_cases dots <;> simp at hip ⊢ <;> omega
        split at h
        · exact (nomatch h)
        · split at h
          · split at h
            · obtain rfl := some.inj h
              have hpos := Nat.two_pow_pos (32 - 8 * (dots + 1))
              exact ⟨by simp only; omega, by simp only; omega⟩
            · exact (nomatch h)
          · exact atonIp4BitsLoop_bounds cs (by omega) (Nat.zero_le _) hnext h
    · split at h
      · split at h
        · exact (nomatch h)
        · rename_i hbits
          obtain rfl := some.inj h
          exact ⟨hpart', by simp only; omega⟩
      · split at h
        · split at h
          · exact (nomatch h)
          · exact atonIp4BitsLoop_bounds cs hdots (by omega) hip h
        · exact (nomatch h)

lemma atonIp4Bits_bounds {s : Str} {r : ℕ × ℕ × ℕ} (h : atonIp4Bits s = some r) :
    r.1 < 2 ^ 32 ∧ r.2.2 ≤ 32 := by
  rw [atonIp4Bits] at h
  split at h
  · exact (nomatch h)
  · exact atonIp4BitsLoop_bounds s (Nat.zero_le _) (Nat.zero_le _) (by simp) h

/-- What is read of an address with colons: not more than eight groups of sixteen bits, and a mask that is not
longer. `ipmask_parse`. -/
structure ParsedMask.Fits (r : ParsedMask) : Prop where
  length_le : r.groups.length ≤ 8
  lt : ∀ g ∈ r.groups, g < 65536
  bits : ∀ n ∈ r.bits, n ≤ 128

lemma parseMask_fits {s start : Str} {pos part colon startPos : ℕ} {groups : List ℕ} {r : ParsedMask}
    (hlen : groups.length ≤ 8) (hlt : ∀ g ∈ groups, g < 65536) (hpart : part < 65536)
    (h : parseMask s pos groups part colon start startPos = some r) : r.Fits := by
  -- one more group where there are fewer than eight
  have hsnoc : ∀ {gs : List ℕ} {p : ℕ}, ¬8 ≤ gs.length → (∀ g ∈ gs, g < 65536) → p < 65536 →
      (gs ++ [p]).length ≤ 8 ∧ ∀ g ∈ gs ++ [p], g < 65536 := by
    intro gs p hfew hgs hp
    refine ⟨by rw [length_append]; exact Nat.not_le.mp hfew, fun g hg => ?_⟩
    obtain hg | hg := mem_append.mp hg
    · exact hgs g hg
    · rwa [List.mem_singleton.mp hg]
  fun_induction parseMask s pos groups part colon start startPos with
  | case1 =>
    obtain rfl := some.inj h
    exact ⟨hlen, hlt, nofun⟩
  | case3 pos groups part colon _ _ hfew =>
    obtain rfl := some.inj h
    refine ⟨(hsnoc hfew hlt hpart).1, (hsnoc hfew hlt hpart).2, fun n hn => ?_⟩
    rw [← mem_some_iff.mp hn]
  | case6 c cs pos groups part colon start startPos hfew v hv hle ih =>
    exact ih hlen hlt (Nat.not_lt.mp (fun hlt => hle (by omega))) h
  | case7 pos groups part colon start startPos hfew hc ih =>
    exact ih (hsnoc hfew hlt hpart).1 (hsnoc hfew hlt hpart).2 (by decide) h
  | case11 pos groups part colon start startPos hfew cs hcolon hlast hc hdot ih =>
    exact ih (hsnoc hfew hlt hpart).1 (hsnoc hfew hlt hpart).2 (by decide) h
  | case12 pos groups part colon start startPos hfew d cs hdot hcol hc ih =>
    exact ih (hsnoc hfew hlt hpart).1 (hsnoc hfew hlt hpart).2 (by decide) h
  | case13 cs pos groups part colon start startPos hfew hc hcol =>
    -- the last two groups are a dotted quad
    obtain ⟨ip, hip, h⟩ := Option.bind_eq_some_iff.mp h
    obtain ⟨hlt32, hbits⟩ := atonIp4Bits_bounds hip
    split at h
    · exact (nomatch h)
    · rename_i hroom
      obtain rfl := some.inj h
      refine ⟨by simp only [length_append, length_cons, List.length_nil]; omega, fun g hg => ?_,
        fun n hn => ?_⟩
      · obtain hg | hg := mem_append.mp hg
        · exact hlt g hg
        · simp only [mem_cons, not_mem_nil, or_false] at hg
          omega
      · rw [← mem_some_iff.mp hn]
        omega
  | case15 cs pos groups part colon start startPos hfew hbits hc hcol hdot =>
    obtain rfl := some.inj h
    refine ⟨(hsnoc hfew hlt hpart).1, (hsnoc hfew hlt hpart).2, fun n hn => ?_⟩
    rw [← mem_some_iff.mp hn]
    omega
  | case16 cs pos groups part colon start startPos hfew hstars gs hc hcol hdot hslash =>
    have hgs : gs.length ≤ 8 ∧ ∀ g ∈ gs, g < 65536 := by
      by_cases hzero : part ≠ 0
      · simp only [gs, if_pos hzero]
        exact hsnoc hfew hlt hpart
      · simp only [gs, if_neg hzero]
        exact ⟨hlen, hlt⟩
    obtain rfl := some.inj h
    refine ⟨hgs.1, hgs.2, fun n hn => ?_⟩
    rw [← mem_some_iff.mp hn]
    omega
  | _ => exact (nomatch h)

lemma ParsedMask.Fits.fill {r : ParsedMask} (h : r.Fits) :
    (fillZeros r.groups r.colon).length = 8 ∧ ∀ g ∈ fillZeros r.groups r.colon, g < 65536 := by
  have hlen := h.length_le
  have hzero : ∀ {k g : ℕ}, g ∈ List.replicate k 0 → g < 65536 := by
    intro k g hg
    rw [List.eq_of_mem_replicate hg]
    decide
  rw [fillZeros]
  split
  · refine ⟨by simp only [length_append, List.length_take, List.length_replicate, length_drop]; omega,
      fun g hg => ?_⟩
    obtain hg | hg := mem_append.mp hg
    · obtain hg | hg := mem_append.mp hg
      · exact h.lt g (List.mem_of_mem_take hg)
      · exact hzero hg
    · exact h.lt g (List.mem_of_mem_drop hg)
  · refine ⟨by simp only [length_append, List.length_replicate]; omega, fun g hg => ?_⟩
    obtain hg | hg := mem_append.mp hg
    · exact h.lt g hg
    · exact hzero hg

lemma ipmaskParseBits_bounds {input : Str} {gs : List ℕ} {pos : ℕ} {bits : Option ℕ}
    (h : ipmaskParseBits input = some (gs, pos, bits)) :
    gs.length = 8 ∧ (∀ g ∈ gs, g < 65536) ∧ ∀ n ∈ bits, n ≤ 128 := by
  -- the three ways to read an address with colons are one
  have hcolons : ∀ {s start : Str} {pos' colon startPos : ℕ} {r : ParsedMask},
      parseMask s pos' [] 0 colon start startPos = some r →
      (fillZeros r.groups r.colon, r.pos, r.bits) = (gs, pos, bits) →
      gs.length = 8 ∧ (∀ g ∈ gs, g < 65536) ∧ ∀ n ∈ bits, n ≤ 128 := by
    intro s start pos' colon startPos r hr heq
    have hfits : r.Fits := parseMask_fits (Nat.zero_le _) (fun g hg => absurd hg not_mem_nil) (by decide) hr
    obtain ⟨rfl, -, rfl⟩ : _ ∧ _ ∧ _ := by simpa using heq
    exact ⟨hfits.fill.1, hfits.fill.2, hfits.bits⟩
  rw [ipmaskParseBits] at h
  split at h
  · split at h
    · split at h
      · exact (nomatch h)
      · obtain ⟨r, hr, heq⟩ := map_eq_some_iff.mp h
        exact hcolons hr heq
    · obtain ⟨r, hr, heq⟩ := map_eq_some_iff.mp h
      exact hcolons hr heq
  · split at h
    · obtain ⟨r, hr, heq⟩ := map_eq_some_iff.mp h
      obtain ⟨hlt, hbits⟩ := atonIp4Bits_bounds hr
      obtain ⟨rfl, -, rfl⟩ : _ ∧ _ ∧ _ := by simpa using heq
      refine ⟨rfl, fun g hg => ?_, fun n hn => ?_⟩
      · simp only [mem_cons, not_mem_nil, or_false] at hg
        omega
      · rw [← mem_some_iff.mp hn]
        omega
    · split at h
      · obtain ⟨rfl, -, rfl⟩ : _ ∧ _ ∧ _ := by simpa using h
        refine ⟨rfl, fun g hg => ?_, fun n hn => ?_⟩
        · simp only [mem_cons, not_mem_nil, or_false, or_self] at hg
          omega
        · rw [← mem_some_iff.mp hn]
          decide
      · exact (nomatch h)

/-! ### The characters of an address -/

/-- A character of the text of an address. `ircd_ntoa_r`. -/
def isNtoaChar (c : Char) : Bool := c ∈ "0123456789abcdef:.".toList

lemma plain_of_isNtoaChar {c : Char} (h : isNtoaChar c = true) : toLower c = c ∧ c ≠ '*' ∧ c ≠ '?' ∧
    c ≠ '\\' := by
  have hall : ("0123456789abcdef:.".toList.all fun c => toLower c = c ∧ c ≠ '*' ∧ c ≠ '?' ∧ c ≠ '\\') = true := by
    decide +kernel
  exact of_decide_eq_true (List.all_eq_true.mp hall c (of_decide_eq_true h))

lemma isNtoaChar_digit {c : Char} (h : isDigit c = true) : isNtoaChar c = true := by
  have hlow : 48 ≤ c.toNat ∧ c.toNat ≤ 57 := by
    simpa [isDigit, Char.le_def, UInt32.le_iff_toNat_le] using h
  obtain ⟨hlo, hhi⟩ := hlow
  have hc : c = Char.ofNat c.toNat := (Char.ofNat_toNat c).symm
  rw [hc]
  generalize c.toNat = n at hlo hhi
  interval_cases n <;> decide

lemma isNtoaChar_hexdigit {d : ℕ} (h : d < 16) : isNtoaChar (hexdigit d) = true := by
  have hall : ∀ d < 16, isNtoaChar (hexdigit d) = true := by decide
  exact hall d h

lemma printGroups_chars {groups : List ℕ} (hlt : ∀ g ∈ groups, g < 65536) (maxStart maxZeros : ℕ) :
    (n ii : ℕ) → (∀ c ∈ printGroups groups maxStart maxZeros n ii, isNtoaChar c = true) ∧
      (printGroups groups maxStart maxZeros n ii).length ≤ 5 * n
  | 0, _ => ⟨fun _ hc => absurd hc not_mem_nil, Nat.le_refl _⟩
  | n + 1, ii => by
    have hcolon : isNtoaChar ':' = true := by decide
    rw [printGroups]
    split
    · exact ⟨fun _ hc => absurd hc not_mem_nil, Nat.zero_le _⟩
    · split
      · obtain ⟨hchars, hlen⟩ := printGroups_chars hlt maxStart maxZeros n (ii + maxZeros)
        refine ⟨fun c hc => ?_, ?_⟩
        · rcases mem_cons.mp hc with rfl | hc
          · exact hcolon
          · exact hchars c hc
        · rw [length_cons]
          omega
      · obtain ⟨hchars, hlen⟩ := printGroups_chars hlt maxStart maxZeros n (ii + 1)
        have hg : groups.getD ii 0 < 65536 := by
          rw [List.getD_eq_getElem?_getD]
          cases hget : groups[ii]? with
          | none => decide
          | some g => exact hlt g (List.mem_of_getElem? hget)
        refine ⟨fun c hc => ?_, ?_⟩
        · rcases mem_append.mp hc with hc | hc
          · rcases mem_append.mp hc with hc | hc
            · obtain ⟨d, hd, rfl⟩ := exists_of_mem_hexText hg hc
              exact isNtoaChar_hexdigit hd
            · split at hc
              · rw [List.mem_singleton.mp hc]
                exact hcolon
              · exact absurd hc not_mem_nil
          · exact hchars c hc
        · have htext : (hexText (groups.getD ii 0)).length ≤ 4 := by
            unfold hexText
            simp only [length_append]
            split <;> split <;> split <;> simp
          have hsep : (if ii < 7 then [':'] else ([] : Str)).length ≤ 1 := by
            split <;> simp
          rw [length_append, length_append]
          omega

lemma ntoa_text (a : Addr) : (∀ c ∈ ntoa a, isNtoaChar c = true) ∧ (ntoa a).length ≤ 40 := by
  rw [ntoa]
  split
  · have hlt : ∀ i, a.groups.getD i 0 < 65536 := by
      intro i
      rw [List.getD_eq_getElem?_getD]
      cases hget : a.groups[i]? with
      | none => decide
      | some g => exact a.lt g (List.mem_of_getElem? hget)
    have h6 := hlt 6
    have h7 := hlt 7
    have hlen : ∀ n < 256, (digits n).length ≤ 3 := by decide +kernel
    have hp := hlen (a.groups.getD 6 0 / 256) (by omega)
    have hq := hlen (a.groups.getD 6 0 % 256) (by omega)
    have hr := hlen (a.groups.getD 7 0 / 256) (by omega)
    have hs := hlen (a.groups.getD 7 0 % 256) (by omega)
    refine ⟨fun c hc => ?_, ?_⟩
    · rcases quad_chars c hc with hc | rfl
      · exact isNtoaChar_digit hc
      · decide
    · simp only [length_append, length_cons]
      omega
  · exact printGroups_chars a.lt _ _ 8 0

lemma ipmaskParseBits_escape (s : Str) : ipmaskParseBits ('\\' :: s) = none := by
  have hcolon : parseMask ('\\' :: s) 0 [] 0 8 [] 0 = none := by
    rw [parseMask.eq_def]
    rfl
  have hdot : atonIp4Bits ('\\' :: s) = none := rfl
  unfold ipmaskParseBits
  rw [if_neg (show ¬ ('\\' :: s).head? = some ':' by simp), hcolon, hdot,
    if_neg (show ¬ (('\\' :: s).head? = some '*' ∧ _) by simp)]
  simp

end Nefarious
