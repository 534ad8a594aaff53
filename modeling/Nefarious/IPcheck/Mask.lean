import Nefarious.IPcheck

/-!
# Prefixes of addresses

An address is a list of groups, of 16 bits each.

Names: `match.c`.
-/

namespace Nefarious.IPcheck

/-- Make the bits behind the first ones zero. -/
def ipmaskClean : List ℕ → ℕ → List ℕ
  | [], _ => []
  | mask :: ms, bits =>
    let res := if bits = 0 then 0 else mask
    let res := if bits < 16 then (mask >>> (16 - bits)) <<< (16 - bits) else res
    let bits := if bits < 16 then 0 else bits
    res :: ipmaskClean ms (if bits ≥ 16 then bits - 16 else bits)

/-- The bits of a group, the highest first. -/
def groupBits (g : ℕ) : List Bool := (List.range 16).map fun i => g.testBit (15 - i)

/-- The bits of an address, in order. -/
def addrBits (gs : List ℕ) : List Bool := gs.flatMap groupBits

lemma shiftRight_eq_iff {a m k : ℕ} (ha : a < 65536) (hm : m < 65536) (hk : k ≤ 16) :
    a >>> (16 - k) = m >>> (16 - k) ↔ (groupBits a).take k = (groupBits m).take k := by
  have hhigh : ∀ {x : ℕ}, x < 65536 → ∀ i, 16 ≤ i → x.testBit i = false := fun hx i hi =>
    Nat.testBit_lt_two_pow (hx.trans_le (Nat.pow_le_pow_right (n := 2) Nat.two_pos hi))
  rw [groupBits, groupBits, ← List.map_take, ← List.map_take, List.take_range, min_eq_left hk, List.map_inj_left]
  constructor
  · intro h i hi
    have hbit := congrArg (Nat.testBit · (15 - i - (16 - k))) h
    have hik := List.mem_range.mp hi
    simp only [Nat.testBit_shiftRight] at hbit
    rwa [show 16 - k + (15 - i - (16 - k)) = 15 - i by omega] at hbit
  · intro h
    refine Nat.eq_of_testBit_eq fun j => ?_
    rw [Nat.testBit_shiftRight, Nat.testBit_shiftRight]
    by_cases hj : 16 - k + j < 16
    · have hbit := h (15 - (16 - k + j)) (List.mem_range.mpr (by omega))
      rwa [show 15 - (15 - (16 - k + j)) = 16 - k + j by omega] at hbit
    · rw [hhigh ha _ (not_lt.mp hj), hhigh hm _ (not_lt.mp hj)]

lemma groupBits_inj {a m : ℕ} (ha : a < 65536) (hm : m < 65536) : groupBits a = groupBits m ↔ a = m := by
  have h := (shiftRight_eq_iff ha hm le_rfl).symm
  have hlen : ∀ g, (groupBits g).length ≤ 16 := fun g => (by simp [groupBits])
  rwa [List.take_of_length_le (hlen a), List.take_of_length_le (hlen m)] at h

lemma xor_shiftRight_eq_zero {a m k : ℕ} : (a ^^^ m) >>> k = 0 ↔ a >>> k = m >>> k := by
  rw [Nat.shiftRight_xor_distrib]
  refine ⟨fun h => ?_, fun h => by rw [h, Nat.xor_self]⟩
  have hcancel := congrArg (a >>> k ^^^ ·) h
  simp only [← Nat.xor_assoc, Nat.xor_self, Nat.zero_xor, Nat.xor_zero] at hcancel
  exact hcancel.symm

lemma ipmaskClean_zero : (ms : List ℕ) → (∀ g ∈ ms, g < 65536) → ipmaskClean ms 0 = List.replicate ms.length 0
  | [], _ => rfl
  | m :: ms, h => by
    have hm : m >>> 16 = 0 := by
      rw [Nat.shiftRight_eq_div_pow]
      exact Nat.div_eq_of_lt (h m List.mem_cons_self)
    simp [ipmaskClean, hm, ipmaskClean_zero ms fun g hg => h g (List.mem_cons_of_mem _ hg), List.replicate_succ]

/-- The same prefix, of groups. -/
lemma ipmask_groups : (as ms : List ℕ) → as.length = ms.length → (∀ g ∈ as, g < 65536) →
    (∀ g ∈ ms, g < 65536) → ∀ bits,
    (ipmaskCheck as ms bits = true ↔ (addrBits as).take bits = (addrBits ms).take bits) ∧
    (ipmaskCheck as ms bits = true ↔ ipmaskClean as bits = ipmaskClean ms bits) ∧
    ipmaskClean (ipmaskClean as bits) bits = ipmaskClean as bits
  | [], [], _, _, _, _ => by simp [ipmaskCheck, addrBits, ipmaskClean]
  | a :: as, m :: ms, hlen, has, hms, bits => by
    obtain ⟨ha, has⟩ := List.forall_mem_cons.mp has
    obtain ⟨hm, hms⟩ := List.forall_mem_cons.mp hms
    have hlen := Nat.succ.inj hlen
    have hlength : ∀ g, (groupBits g).length = 16 := fun g => by simp [groupBits]
    have hsame : groupBits a = groupBits m ↔ a = m := groupBits_inj ha hm
    rw [ipmaskCheck, addrBits, addrBits, List.flatMap_cons, List.flatMap_cons, List.take_append,
      List.take_append, hlength, hlength]
    by_cases hb : bits < 16
    · have hzero : bits - 16 = 0 := by omega
      have hclean : ∀ g gs, (∀ x ∈ gs, x < 65536) → ipmaskClean (g :: gs) bits =
          ((g >>> (16 - bits)) <<< (16 - bits)) :: List.replicate gs.length 0 := fun g gs hgs => by
        simp [ipmaskClean, hb, ipmaskClean_zero gs hgs]
      rw [if_pos hb, decide_eq_true_eq, xor_shiftRight_eq_zero, hzero, List.take_zero, List.take_zero,
        List.append_nil, List.append_nil, ← shiftRight_eq_iff ha hm hb.le, hclean a as has, hclean m ms hms,
        hclean _ _ (by simp), hlen, List.length_replicate, Nat.shiftLeft_shiftRight]
      refine ⟨Iff.rfl, ⟨fun h => by rw [h], fun h => ?_⟩, rfl⟩
      have hhead := congrArg (· >>> (16 - bits)) (List.cons.inj h).1
      simpa only [Nat.shiftLeft_shiftRight] using hhead
    · obtain ⟨h1, h2, h3⟩ := ipmask_groups as ms hlen has hms (bits - 16)
      have hclean : ∀ g gs, ipmaskClean (g :: gs) bits = g :: ipmaskClean gs (bits - 16) := fun g gs => by
        simp [ipmaskClean, hb, show bits ≠ 0 by omega, not_lt.mp hb]
      have htake : ∀ g, (groupBits g).take bits = groupBits g := fun g =>
        List.take_of_length_le ((hlength g).le.trans (not_lt.mp hb))
      have hcheck : (if a ≠ m then false else if bits - 16 = 0 then true else ipmaskCheck as ms (bits - 16)) = true ↔
          a = m ∧ ipmaskCheck as ms (bits - 16) = true := by
        by_cases hb' : bits - 16 = 0
        · rw [hb', List.take_zero, List.take_zero] at h1
          simp [hb', h1]
        · simp [hb']
      rw [if_neg hb, hcheck, htake, htake, hclean, hclean, hclean, h3, List.cons.injEq, h1, ← h2, h1, ← hsame]
      refine ⟨⟨fun h => congrArg₂ (· ++ ·) h.1 h.2, fun h => ?_⟩, Iff.rfl, rfl⟩
      exact List.append_inj h ((hlength a).trans (hlength m).symm)

/-- **Prefixes of addresses.** The check says whether the first bits are the same, which they are if and only if
the addresses with the other bits made zero are; and those do not change when it is done again. -/
theorem ipmask_agrees (a m : Addr) (bits : ℕ) :
    (ipmaskCheck a.groups m.groups bits = true ↔ (addrBits a.groups).take bits = (addrBits m.groups).take bits) ∧
    (ipmaskCheck a.groups m.groups bits = true ↔ ipmaskClean a.groups bits = ipmaskClean m.groups bits) ∧
    ipmaskClean (ipmaskClean a.groups bits) bits = ipmaskClean a.groups bits :=
  ipmask_groups a.groups m.groups (a.length_eq.trans m.length_eq.symm) a.lt m.lt bits

end Nefarious.IPcheck
