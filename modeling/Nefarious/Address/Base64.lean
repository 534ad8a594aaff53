import Nefarious.Address.Text
import Nefarious.Numnicks

/-!
# Addresses in base 64

Servers tell each other the addresses of users in the digits of the numerics.
-/

namespace Nefarious

open List (append_assoc append_nil cons_append flatMap_cons flatMap_nil length_append length_cons length_nil
  nil_append)

/-! ### Writing -/

/-- The groups from `ii` on, with an underscore for the gap; the first number bounds the turns. Source:
`numnicks.c` `iptobase64`. -/
def base64Groups (groups : List ℕ) (maxStart maxZeros : ℕ) : ℕ → ℕ → Str
  | 0, _ => []
  | n + 1, ii =>
    if 8 ≤ ii then []
    else if ii = maxStart ∧ 0 < maxZeros then
      '_' :: base64Groups groups maxStart maxZeros n (ii + maxZeros)
    else inttobase64 (groups.getD ii 0) 3 ++ base64Groups groups maxStart maxZeros n (ii + 1)

/-- The first group that is zero. `numnicks.c` `iptobase64` (`zero`). -/
def Addr.firstZero (a : Addr) : ℕ := (a.groups.takeWhile (· ≠ 0)).length

/-- The gap: where it starts and how many groups it has. `numnicks.c` `iptobase64`. -/
def Addr.gap64 (a : Addr) : ℕ × ℕ := longestZeros a.firstZero a.firstZero 0 0 (a.groups.drop a.firstZero)

/-- Encode an address; `v6Ok` tells that the peer understands addresses that are not IPv4 ones. Source:
`numnicks.c`. -/
def iptobase64 (a : Addr) (v6Ok : Bool) : Str :=
  if inAddrIsIpv4 a.groups then inttobase64 (a.groups.getD 6 0 * 65536 + a.groups.getD 7 0) 6
  else if !v6Ok then
    if a.groups.getD 0 0 = 0x2002 then inttobase64 (a.groups.getD 1 0 * 65536 + a.groups.getD 2 0) 6
    else if a.groups.getD 0 0 = 0x2001 ∧ a.groups.getD 1 0 = 0 then
      inttobase64 ((65535 - a.groups.getD 6 0) * 65536 + (65535 - a.groups.getD 7 0)) 6
    else "AAAAAA".toList
  else (a.groups.take a.firstZero).flatMap (inttobase64 · 3)
    ++ base64Groups a.groups a.gap64.1 a.gap64.2 8 a.firstZero

/-- Read groups until there are eight. `none` is an access outside of the text or the address. Source:
`numnicks.c` `base64toip`. -/
def base64toipLoop : Str → List ℕ → Option (List ℕ)
  | [], _ => none
  | c :: cs, addr =>
    if c = '_' then
      if 24 < cs.length ∨ (24 - cs.length) / 3 < addr.length then none
      else
        let addr := addr ++ List.replicate ((24 - cs.length) / 3 - addr.length) 0
        if 8 ≤ addr.length then some addr else base64toipLoop cs addr
    else match cs with
      | [] => none
      | [d] =>
        -- the last digit is the end of the text, and only the eighth group ends there
        if addr.length = 7 then some (addr ++ [(convert2n c * 64 + convert2n d) * 64 % 65536]) else none
      | d :: e :: cs =>
        let addr := addr ++ [((convert2n c * 64 + convert2n d) * 64 + convert2n e) % 65536]
        if 8 ≤ addr.length then some addr else base64toipLoop cs addr

/-- Decode an address. `numnicks.c`. -/
def base64toip (input : Str) : Option (List ℕ) :=
  if input.length = 6 then
    if base64toint input = 0 then some (List.replicate 8 0)
    else some [0, 0, 0, 0, 0, 65535, base64toint input / 65536, base64toint input % 65536]
  else base64toipLoop input []

example : iptobase64 ⟨[0x8352, 0x344, 0, 0, 0, 0, 0x2001, 0x1204], by decide, by decide⟩ true
      = "INSANE_CABBIE".toList ∧
    base64toip "INSANE_CABBIE".toList = some [0x8352, 0x344, 0, 0, 0, 0, 0x2001, 0x1204] := by decide +kernel

lemma convert2y_ne {n : ℕ} (h : n < 64) : convert2y n ≠ '_' := by
  have all : ∀ m : Fin 64, convert2y m ≠ '_' := by decide +kernel
  exact all ⟨n, h⟩

lemma base64toipLoop_group {g : ℕ} (hg : g < 65536) (rest : Str) (addr : List ℕ) :
    base64toipLoop (inttobase64 g 3 ++ rest) addr
      = if 8 ≤ (addr ++ [g]).length then some (addr ++ [g]) else base64toipLoop rest (addr ++ [g]) := by
  have hdigits : inttobase64 g 3 = [convert2y (g / 64 / 64 % 64), convert2y (g / 64 % 64), convert2y (g % 64)] := rfl
  have hfirst : g / 64 / 64 % 64 < 64 := Nat.mod_lt _ (by decide)
  have hsecond : g / 64 % 64 < 64 := Nat.mod_lt _ (by decide)
  have hthird : g % 64 < 64 := Nat.mod_lt _ (by decide)
  have hvalue : ((g / 64 / 64 % 64 * 64 + g / 64 % 64) * 64 + g % 64) % 65536 = g := by omega
  rw [hdigits, cons_append, cons_append, cons_append, nil_append, base64toipLoop, if_neg (convert2y_ne hfirst)]
  dsimp only
  rw [convert2n_convert2y hfirst, convert2n_convert2y hsecond, convert2n_convert2y hthird, hvalue]

lemma base64toipLoop_gap {cs : Str} {addr : List ℕ}
    (h : ¬ (24 < cs.length ∨ (24 - cs.length) / 3 < addr.length)) :
    base64toipLoop ('_' :: cs) addr
      = if 8 ≤ (addr ++ List.replicate ((24 - cs.length) / 3 - addr.length) 0).length then
          some (addr ++ List.replicate ((24 - cs.length) / 3 - addr.length) 0)
        else base64toipLoop cs (addr ++ List.replicate ((24 - cs.length) / 3 - addr.length) 0) := by
  rw [base64toipLoop.eq_def]
  dsimp only
  rw [if_pos rfl, if_neg h]

lemma base64toipLoop_groups (rest : Str) : (gs : List ℕ) → ∀ {addr : List ℕ}, (∀ g ∈ gs, g < 65536) →
    addr.length + gs.length < 8 →
    base64toipLoop (gs.flatMap (inttobase64 · 3) ++ rest) addr = base64toipLoop rest (addr ++ gs)
  | [], addr, _, _ => by rw [flatMap_nil, nil_append, append_nil]
  | g :: gs, addr, hlt, hlen => by
    rw [length_cons] at hlen
    have hshort : ¬ 8 ≤ (addr ++ [g]).length := by
      rw [length_append, List.length_singleton]
      omega
    rw [flatMap_cons, append_assoc, base64toipLoop_group (hlt g List.mem_cons_self), if_neg hshort,
      base64toipLoop_groups rest gs (fun x hx => hlt x (List.mem_cons_of_mem g hx)) (by
        rw [length_append, List.length_singleton]
        omega), append_assoc]
    rfl

lemma base64toipLoop_last {gs addr : List ℕ} (hne : gs ≠ []) (hlt : ∀ g ∈ gs, g < 65536)
    (hlen : addr.length + gs.length = 8) :
    base64toipLoop (gs.flatMap (inttobase64 · 3)) addr = some (addr ++ gs) := by
  have hpos := List.length_pos_of_ne_nil hne
  have hlast : gs.getLast hne < 65536 := hlt _ (List.getLast_mem hne)
  have hinit : gs.dropLast.length = gs.length - 1 := List.length_dropLast
  rw [← List.dropLast_append_getLast hne, List.flatMap_append, List.flatMap_singleton,
    base64toipLoop_groups _ _ (fun g hg => hlt g (List.dropLast_subset gs hg)) (by rw [hinit]; omega)]
  have hgroup := base64toipLoop_group hlast [] (addr ++ gs.dropLast)
  rw [append_nil] at hgroup
  rw [hgroup, if_pos, append_assoc]
  rw [length_append, length_append, List.length_singleton, hinit]
  omega

/-! ### The text -/

section Write

variable {groups : List ℕ} {maxStart maxZeros : ℕ}

lemma base64Groups_rest (hlen : groups.length = 8) :
    (k : ℕ) → ∀ {ii n : ℕ}, ii + k = 8 → k ≤ n → maxZeros = 0 ∨ maxStart < ii →
      base64Groups groups maxStart maxZeros n ii = (groups.drop ii).flatMap (inttobase64 · 3)
  | 0, ii, n, hk, _, _ => by
    have hnil : groups.drop ii = [] := List.drop_eq_nil_of_le (by omega)
    rw [hnil]
    cases n with
    | zero => rfl
    | succ n => rw [base64Groups, if_pos (by omega), flatMap_nil]
  | k + 1, ii, n + 1, hk, hn, hgap => by
    have hno : ¬ (ii = maxStart ∧ 0 < maxZeros) := by omega
    rw [base64Groups, if_neg (by omega), if_neg hno,
      base64Groups_rest hlen k (by omega) (by omega) (hgap.imp id fun h => by omega),
      drop_eq_getD_cons (by omega : ii < groups.length), flatMap_cons]

lemma base64Groups_gap (hlen : groups.length = 8) (hz : 0 < maxZeros) (hs : maxStart ≤ 7) (m : ℕ) :
    (k : ℕ) → ∀ {ii : ℕ}, ii + k = maxStart → base64Groups groups maxStart maxZeros (m + 1 + k) ii
        = ((groups.drop ii).take k).flatMap (inttobase64 · 3) ++ '_' ::
          base64Groups groups maxStart maxZeros m (maxStart + maxZeros)
  | 0, ii, hk => by
    obtain rfl : ii = maxStart := by omega
    rw [Nat.add_zero, base64Groups, if_neg (by omega), if_pos ⟨rfl, hz⟩, List.take_zero, flatMap_nil,
      nil_append]
  | k + 1, ii, hk => by
    have hno : ¬ (ii = maxStart ∧ 0 < maxZeros) := by omega
    have hturn : m + 1 + (k + 1) = m + 1 + k + 1 := by omega
    rw [hturn, base64Groups, if_neg (by omega), if_neg hno,
      base64Groups_gap hlen hz hs m k (by omega : ii + 1 + k = maxStart),
      drop_eq_getD_cons (by omega : ii < groups.length), List.take_succ_cons, flatMap_cons,
      append_assoc]

end Write

lemma Addr.firstZero_le (a : Addr) : a.firstZero ≤ 8 := by
  have h := (List.takeWhile_prefix (l := a.groups) (· ≠ 0)).length_le
  rwa [a.length_eq] at h

lemma Addr.gap64_bounds (a : Addr) : a.firstZero ≤ a.gap64.1 ∧ a.gap64.1 + a.gap64.2 ≤ 8 := by
  have hle := a.firstZero_le
  have h := longestZeros_bounds (a.groups.drop a.firstZero) (le_refl a.firstZero)
    (by omega : a.firstZero + 0 ≤ a.firstZero) (by omega : a.firstZero + 0 ≤ a.firstZero)
  rw [List.length_drop, a.length_eq] at h
  exact ⟨h.1, le_trans h.2 (by omega)⟩

/-- The address with zeros in the gap of its text. -/
def Addr.gapped64 (a : Addr) : List ℕ :=
  a.groups.take a.gap64.1 ++ List.replicate a.gap64.2 0 ++ a.groups.drop (a.gap64.1 + a.gap64.2)

lemma iptobase64_eq {a : Addr} (h : inAddrIsIpv4 a.groups = false) :
    iptobase64 a true = if a.gap64.2 = 0 then a.groups.flatMap (inttobase64 · 3)
      else (a.groups.take a.gap64.1).flatMap (inttobase64 · 3) ++ '_' ::
        (a.groups.drop (a.gap64.1 + a.gap64.2)).flatMap (inttobase64 · 3) := by
  have hle := a.firstZero_le
  obtain ⟨hstart, hend⟩ := a.gap64_bounds
  rw [iptobase64, if_neg (by rw [h]; exact Bool.false_ne_true), if_neg (by decide)]
  split
  case isTrue hz =>
    rw [base64Groups_rest a.length_eq (8 - a.firstZero) (by omega) (by omega) (Or.inl hz),
      ← List.flatMap_append, List.take_append_drop]
  case isFalse hz =>
    have hgap := base64Groups_gap a.length_eq (by omega : 0 < a.gap64.2) (by omega : a.gap64.1 ≤ 7)
      (7 - (a.gap64.1 - a.firstZero)) (a.gap64.1 - a.firstZero)
      (by omega : a.firstZero + (a.gap64.1 - a.firstZero) = a.gap64.1)
    have hturns : 7 - (a.gap64.1 - a.firstZero) + 1 + (a.gap64.1 - a.firstZero) = 8 := by omega
    have htake : a.groups.take a.firstZero ++ (a.groups.drop a.firstZero).take (a.gap64.1 - a.firstZero)
        = a.groups.take a.gap64.1 := by
      have hsum : a.firstZero + (a.gap64.1 - a.firstZero) = a.gap64.1 := by omega
      rw [← List.take_add, hsum]
    rw [hturns] at hgap
    rw [hgap, base64Groups_rest a.length_eq (8 - (a.gap64.1 + a.gap64.2)) (by omega) (by omega)
      (Or.inr (by omega)), ← append_assoc, ← List.flatMap_append, htake]

lemma length_flatMap_inttobase64 : (gs : List ℕ) → (gs.flatMap (inttobase64 · 3)).length = 3 * gs.length
  | [] => rfl
  | g :: gs => by
    rw [flatMap_cons, length_append, length_inttobase64, length_flatMap_inttobase64 gs, length_cons]
    omega

lemma base64toip_gapped {a : Addr} (h : inAddrIsIpv4 a.groups = false) :
    base64toip (iptobase64 a true) = some a.gapped64 := by
  obtain ⟨hstart, hend⟩ := a.gap64_bounds
  have hlen := a.length_eq
  have hne : a.groups ≠ [] := by
    intro e
    rw [e] at hlen
    cases hlen
  rw [iptobase64_eq h]
  split
  case isTrue hz =>
    have hgapped : a.gapped64 = a.groups := by
      rw [Addr.gapped64, hz, List.replicate_zero, append_nil, Nat.add_zero, List.take_append_drop]
    rw [base64toip, length_flatMap_inttobase64, hlen, if_neg (by decide),
      base64toipLoop_last hne a.lt (by rw [hlen, length_nil]), hgapped, nil_append]
  case isFalse hz =>
    have htake : (a.groups.take a.gap64.1).length = a.gap64.1 := by
      rw [List.length_take]
      omega
    have hdrop : (a.groups.drop (a.gap64.1 + a.gap64.2)).length = 8 - (a.gap64.1 + a.gap64.2) := by
      rw [List.length_drop, hlen]
    have hltake : ∀ g ∈ a.groups.take a.gap64.1, g < 65536 := fun g hg => a.lt g (List.mem_of_mem_take hg)
    have hldrop : ∀ g ∈ a.groups.drop (a.gap64.1 + a.gap64.2), g < 65536 := fun g hg =>
      a.lt g (List.mem_of_mem_drop hg)
    have hleft : (24 - 3 * (8 - (a.gap64.1 + a.gap64.2))) / 3 - a.gap64.1 = a.gap64.2 := by omega
    rw [base64toip, length_append, length_cons, length_flatMap_inttobase64,
      length_flatMap_inttobase64, htake, hdrop, if_neg (by omega),
      base64toipLoop_groups _ _ hltake (by rw [htake, length_nil]; omega), nil_append,
      base64toipLoop_gap (by rw [length_flatMap_inttobase64, hdrop, htake]; omega),
      length_flatMap_inttobase64, hdrop, htake, hleft, length_append, htake, List.length_replicate]
    by_cases hnil : a.groups.drop (a.gap64.1 + a.gap64.2) = []
    · rw [hnil, length_nil] at hdrop
      rw [if_pos (by omega), Addr.gapped64, hnil, append_nil]
    · have hpos := List.length_pos_of_ne_nil hnil
      rw [if_neg (by omega), base64toipLoop_last hnil hldrop]
      · rfl
      · rw [length_append, htake, List.length_replicate, hdrop]
        omega

/-! ### The round trip -/

lemma inGap_eight : ∀ row ∈ signRows 8,
    (∀ g ∈ inGap (row.drop (row.takeWhile (· ≠ 0)).length) (row.takeWhile (· ≠ 0)).length, g = 0)
      ↔ Outrun (zeroRuns row) = false := by
  decide +kernel

lemma length_takeWhile_sign : (gs : List ℕ) →
    ((gs.map groupSign).takeWhile (· ≠ 0)).length = (gs.takeWhile (· ≠ 0)).length
  | [] => rfl
  | g :: gs => by
    simp only [List.map_cons, List.takeWhile_cons, ne_eq, groupSign_eq_zero]
    split
    · rw [length_cons, length_cons, ← length_takeWhile_sign gs]
    · rfl

lemma gapped64_eq_iff (a : Addr) : a.gapped64 = a.groups ↔ Outrun (zeroRuns a.groups) = false := by
  obtain ⟨hstart, hend⟩ := a.gap64_bounds
  have hrow := mem_signRows a.groups
  rw [a.length_eq] at hrow
  have hgap := inGap_eight _ hrow
  rw [length_takeWhile_sign, ← List.map_drop, forall_inGap_sign, zeroRuns, zeroRunsFrom_sign] at hgap
  have hin : inGap (a.groups.drop a.firstZero) a.firstZero = (a.groups.drop a.gap64.1).take a.gap64.2 := by
    have hdrop : a.firstZero + (a.gap64.1 - a.firstZero) = a.gap64.1 := by omega
    show ((a.groups.drop a.firstZero).drop (a.gap64.1 - a.firstZero)).take a.gap64.2 = _
    rw [List.drop_drop, hdrop]
  rw [zeroRuns, ← hgap]
  show _ ↔ ∀ g ∈ inGap (a.groups.drop a.firstZero) a.firstZero, g = 0
  rw [hin]
  exact zeroed_eq_iff (by rw [a.length_eq]; exact hend)

lemma base64toip_ipv4 {a : Addr} (h : inAddrIsIpv4 a.groups = true) (v6Ok : Bool) :
    base64toip (iptobase64 a v6Ok)
      = some (if a.groups.getD 6 0 = 0 ∧ a.groups.getD 7 0 = 0 then List.replicate 8 0
          else [0, 0, 0, 0, 0, 65535, a.groups.getD 6 0, a.groups.getD 7 0]) := by
  have hlt : ∀ i, a.groups.getD i 0 < 65536 := by
    intro i
    rw [List.getD_eq_getElem?_getD]
    cases hi : a.groups[i]? with
    | none => simp
    | some g => exact a.lt g (List.mem_of_getElem? hi)
  have h6 := hlt 6
  have h7 := hlt 7
  have hvalue : base64toint (inttobase64 (a.groups.getD 6 0 * 65536 + a.groups.getD 7 0) 6)
      = a.groups.getD 6 0 * 65536 + a.groups.getD 7 0 :=
    base64toint_inttobase64 5 (by omega) (by omega)
  have hhigh : (a.groups.getD 6 0 * 65536 + a.groups.getD 7 0) / 65536 = a.groups.getD 6 0 := by omega
  have hlow : (a.groups.getD 6 0 * 65536 + a.groups.getD 7 0) % 65536 = a.groups.getD 7 0 := by omega
  rw [iptobase64, if_pos h, base64toip, length_inttobase64, if_pos rfl, hvalue, hhigh, hlow]
  by_cases hzero : a.groups.getD 6 0 = 0 ∧ a.groups.getD 7 0 = 0
  · rw [if_pos hzero, if_pos (by omega)]
  · rw [if_neg hzero, if_neg (by omega)]

/-- The text of an address is decoded to the same address, for every address of which there is a text: any
address for a peer that understands it, and IPv4 addresses for every peer. -/
def Base64RoundTrip (a : Addr) (v6Ok : Bool) : Prop :=
  (v6Ok = true ∨ inAddrIsIpv4 a.groups = true) →
    ∃ gs, base64toip (iptobase64 a v6Ok) = some gs ∧ inAddrCmp gs a.groups = false

/-- **Numeric round trip.** An IPv4 address is found again by its text if and only if it is not `0.0.0.0`, and
any other address, for a peer that understands it, if and only if no run of zeros in it is outrun by the runs
behind it. -/
theorem base64_round_trip (a : Addr) (v6Ok : Bool) : Base64RoundTrip a v6Ok ↔
      if inAddrIsIpv4 a.groups = true then ¬ (a.groups.getD 6 0 = 0 ∧ a.groups.getD 7 0 = 0)
      else v6Ok = true → Outrun (zeroRuns a.groups) = false := by
  unfold Base64RoundTrip
  cases h : inAddrIsIpv4 a.groups with
  | true =>
    rw [if_pos rfl, base64toip_ipv4 h]
    simp only [or_true, true_imp_iff, Option.some.injEq, exists_eq_left']
    by_cases hzero : a.groups.getD 6 0 = 0 ∧ a.groups.getD 7 0 = 0
    · rw [if_pos hzero]
      -- nothing is different from the address that is not set, but that address
      refine iff_of_false (fun hcmp => ?_) (not_not.mpr hzero)
      have hunset : ¬ inAddrIsIpv4 (List.replicate 8 0) = true := by decide
      rw [inAddrCmp, if_neg hunset, decide_eq_false_iff_not, ne_eq, not_not] at hcmp
      rw [hcmp] at hunset
      exact hunset h
    · rw [if_neg hzero]
      refine iff_of_true ?_ hzero
      have hquad : inAddrIsIpv4 [0, 0, 0, 0, 0, 65535, a.groups.getD 6 0, a.groups.getD 7 0] = true := rfl
      rw [inAddrCmp, if_pos hquad, h]
      simp
  | false =>
    rw [if_neg Bool.false_ne_true]
    cases v6Ok with
    | false => exact iff_of_true (by simp) (by simp)
    | true =>
      rw [base64toip_gapped h, ← gapped64_eq_iff]
      simp only [true_or, true_imp_iff, Option.some.injEq, exists_eq_left']
      rw [inAddrCmp]
      split
      case isTrue hquad =>
        -- the text is that of an IPv4 address, and the address is not
        refine iff_of_false (by simp [h]) fun e => ?_
        rw [e, h] at hquad
        cases hquad
      case isFalse => simp

/-- **An address that is lost.** The group `2` of `2001:0:0:1:0:2:0:0` is in the gap, and `0.0.0.0` is read as
no address. -/
theorem base64_gap_over_group :
    iptobase64 ⟨[0x2001, 0, 0, 1, 0, 2, 0, 0], by decide, by decide⟩ true = "CABAAAAAAAABAAA_".toList ∧
      base64toip "CABAAAAAAAABAAA_".toList = some [0x2001, 0, 0, 1, 0, 0, 0, 0] ∧
      base64toip (iptobase64 ⟨[0, 0, 0, 0, 0, 65535, 0, 0], by decide, by decide⟩ false)
        = some [0, 0, 0, 0, 0, 0, 0, 0] ∧
      ¬ ∀ a v6Ok, Base64RoundTrip a v6Ok := by
  have htext : iptobase64 ⟨[0x2001, 0, 0, 1, 0, 2, 0, 0], by decide, by decide⟩ true
      = "CABAAAAAAAABAAA_".toList := by
    decide +kernel
  have hread : base64toip "CABAAAAAAAABAAA_".toList = some [0x2001, 0, 0, 1, 0, 0, 0, 0] := by
    decide +kernel
  refine ⟨htext, hread, by decide +kernel, fun h => ?_⟩
  obtain ⟨gs, hgs, hcmp⟩ := h ⟨[0x2001, 0, 0, 1, 0, 2, 0, 0], by decide, by decide⟩ true (Or.inl rfl)
  rw [htext, hread, Option.some.injEq] at hgs
  rw [← hgs] at hcmp
  exact absurd hcmp (by decide)

/-! ### Any text -/

/-- The pieces that a text is cut into from its start: gap marks, and groups of three characters as long as there
are enough. `numnicks.c` `base64toip`. -/
def pieces64 : Str → List Str
  | '_' :: cs => ['_'] :: pieces64 cs
  | c :: d :: e :: cs => [c, d, e] :: pieces64 cs
  | [] => []
  | cs => [cs]

/-- A gap mark is one of the first so many pieces. -/
def marked64 (n : ℕ) (input : Str) : Bool := ((pieces64 input).take n).any (· = ['_'])

/-- The last piece is one character that is no mark. -/
def lone64 (input : Str) : Bool := (pieces64 input).any fun p => p.length = 1 ∧ p ≠ ['_']

def fits64 (input : Str) : Prop :=
  if marked64 8 input then input.length ≤ 25 ∧ lone64 input = false else 23 ≤ input.length

lemma pieces64_group {c : Char} (hc : c ≠ '_') (d e : Char) (cs : Str) :
    pieces64 (c :: d :: e :: cs) = [c, d, e] :: pieces64 cs := by
  rw [pieces64]
  exact fun h => hc h

lemma lone64_group {c : Char} (hc : c ≠ '_') (d e : Char) (cs : Str) : lone64 (c :: d :: e :: cs) = lone64 cs := by
  rw [lone64, pieces64_group hc, List.any_cons]
  rfl

/-- **Behind a gap the text has what it takes**, by induction on the text: as many characters as the groups that are
left have digits, or one or two less. -/
lemma base64toipLoop_behind (s : Str) : ∀ {addr : List ℕ}, addr.length < 8 → 24 ≤ 3 * addr.length + s.length + 2 →
    3 * addr.length + s.length ≤ 24 → ((base64toipLoop s addr).isSome = true ↔ lone64 s = false) := by
  induction s using pieces64.induct with
  | case1 cs ih =>
    intro addr h8 hlow hhigh
    rw [length_cons] at hlow hhigh
    have hgap : ¬(24 < cs.length ∨ (24 - cs.length) / 3 < addr.length) := by omega
    have hlone : lone64 ('_' :: cs) = lone64 cs := rfl
    rw [base64toipLoop_gap hgap, hlone]
    split
    case isTrue hfull =>
      rw [length_append, List.length_replicate] at hfull
      obtain rfl : cs = [] := List.eq_nil_of_length_eq_zero (by omega)
      exact iff_of_true rfl rfl
    case isFalse hfull =>
      rw [length_append, List.length_replicate] at hfull
      exact ih (by simp; omega) (by simp; omega) (by simp; omega)
  | case2 c d e cs hc ih =>
    intro addr h8 hlow hhigh
    simp only [length_cons] at hlow hhigh
    rw [base64toipLoop, if_neg hc, lone64_group hc]
    dsimp only
    split
    case isTrue hfull =>
      rw [length_append, List.length_singleton] at hfull
      obtain rfl : cs = [] := List.eq_nil_of_length_eq_zero (by omega)
      exact iff_of_true rfl rfl
    case isFalse hfull =>
      rw [length_append, List.length_singleton] at hfull
      exact ih (by simp; omega) (by simp; omega) (by simp; omega)
  | case3 =>
    intro addr h8 hlow hhigh
    rw [length_nil] at hlow
    omega
  | case4 cs h1 h2 h3 =>
    intro addr h8 hlow hhigh
    match cs with
    | [] => exact absurd rfl h3
    | [c] =>
      have hc : c ≠ '_' := fun h => h1 [] (h ▸ rfl)
      rw [base64toipLoop, if_neg hc]
      simp [lone64, pieces64, hc]
    | [c, d] =>
      have hc : c ≠ '_' := fun h => h1 [d] (h ▸ rfl)
      rw [length_cons, length_cons, length_nil] at hlow hhigh
      rw [base64toipLoop, if_neg hc, if_pos (by omega)]
      simp [lone64, pieces64]
    | c :: d :: e :: cs => exact absurd rfl (h2 c d e cs)

/-- **Before a gap**, by induction on the text: the groups that were read are three characters each. -/
lemma base64toipLoop_before (s : Str) : ∀ {addr : List ℕ}, addr.length < 8 → ((base64toipLoop s addr).isSome = true ↔
    if marked64 (8 - addr.length) s then 3 * addr.length + s.length ≤ 25 ∧ lone64 s = false
    else 23 ≤ 3 * addr.length + s.length) := by
  induction s using pieces64.induct with
  | case1 cs ih =>
    intro addr h8
    have hmark : marked64 (8 - addr.length) ('_' :: cs) = true := by
      obtain ⟨n, hn⟩ : ∃ n, 8 - addr.length = n + 1 := ⟨7 - addr.length, by omega⟩
      rw [marked64, pieces64, hn, List.take_succ_cons, List.any_cons]
      rfl
    rw [if_pos hmark, length_cons]
    by_cases hlong : 24 < cs.length ∨ (24 - cs.length) / 3 < addr.length
    · rw [base64toipLoop.eq_def]
      dsimp only
      rw [if_pos rfl, if_pos hlong]
      exact iff_of_false Bool.false_ne_true (by omega)
    · rw [base64toipLoop_gap hlong, and_iff_right (by omega)]
      split
      case isTrue hfull =>
        rw [length_append, List.length_replicate] at hfull
        obtain rfl : cs = [] := List.eq_nil_of_length_eq_zero (by omega)
        exact iff_of_true rfl rfl
      case isFalse hfull =>
        rw [length_append, List.length_replicate] at hfull
        exact base64toipLoop_behind cs (by simp; omega) (by simp; omega) (by simp; omega)
  | case2 c d e cs hc ih =>
    intro addr h8
    have hmark : marked64 (8 - addr.length) (c :: d :: e :: cs) = marked64 (8 - (addr.length + 1)) cs := by
      obtain ⟨n, hn⟩ : ∃ n, 8 - addr.length = n + 1 := ⟨7 - addr.length, by omega⟩
      rw [marked64, pieces64_group hc, hn, List.take_succ_cons, show 8 - (addr.length + 1) = n by omega]
      simp [marked64]
    rw [base64toipLoop, if_neg hc, lone64_group hc, hmark]
    dsimp only
    split
    case isTrue hfull =>
      rw [length_append, List.length_singleton] at hfull
      rw [show 8 - (addr.length + 1) = 0 by omega, show marked64 0 cs = false from rfl]
      exact iff_of_true rfl (by simp only [length_cons]; rw [if_neg Bool.false_ne_true]; omega)
    case isFalse hfull =>
      rw [length_append, List.length_singleton] at hfull
      rw [ih (by simp; omega)]
      simp only [length_append, length_cons, length_nil, Nat.zero_add]
      rw [show 3 * (addr.length + 1) + cs.length = 3 * addr.length + (cs.length + 1 + 1 + 1) by omega]
  | case3 =>
    intro addr h8
    exact iff_of_false Bool.false_ne_true (by simp [marked64, pieces64]; omega)
  | case4 cs h1 h2 h3 =>
    intro addr h8
    match cs with
    | [] => exact absurd rfl h3
    | [c] =>
      have hc : c ≠ '_' := fun h => h1 [] (h ▸ rfl)
      have hmark : ∀ n, marked64 n [c] = false := fun n => by cases n <;> simp [marked64, pieces64, hc]
      rw [base64toipLoop, if_neg hc, hmark, if_neg Bool.false_ne_true, length_cons, length_nil]
      exact iff_of_false Bool.false_ne_true (by omega)
    | [c, d] =>
      have hc : c ≠ '_' := fun h => h1 [d] (h ▸ rfl)
      have hmark : ∀ n, marked64 n [c, d] = false := fun n => by cases n <;> simp [marked64, pieces64]
      rw [base64toipLoop, if_neg hc, hmark, if_neg Bool.false_ne_true, length_cons, length_cons, length_nil]
      split
      · exact iff_of_true rfl (by omega)
      · exact iff_of_false Bool.false_ne_true (by omega)
    | c :: d :: e :: cs => exact absurd rfl (h2 c d e cs)

/-- **Which texts are read safely.** No character behind the end of a text is read, and no group behind the eighth is
written, if and only if it has six characters or fits. -/
theorem base64toip_safe_iff (input : Str) : (base64toip input).isSome = true ↔ input.length = 6 ∨ fits64 input := by
  rw [base64toip]
  split
  case isTrue h6 =>
    rw [iff_true_right (Or.inl h6)]
    split <;> rfl
  case isFalse h6 =>
    rw [or_iff_right h6, base64toipLoop_before input (by decide), fits64]
    simp

/-- An empty text is read behind its end. -/
theorem base64toip_empty : base64toip [] = none := rfl

end Nefarious
