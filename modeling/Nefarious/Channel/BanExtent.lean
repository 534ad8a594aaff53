import Nefarious.Channel.BanMask
import Nefarious.Lib.Leading

/-!
# Bans on addresses

Two bans on addresses are to be compared by the bits of their addresses, and by what stands in front of the at
sign.
-/

namespace Nefarious.BanMask

open BanCache IPcheck Lib.Leading

/-- Compare one ban's extent to another, each of which may be an exception. `channel.c`
`bmatch`. -/
def bmatchExcept (oldExcept newExcept : Bool) (oldBan newBan : Mask) : ℕ :=
  if !oldExcept && newExcept then 1 else bmatch oldBan newBan

/-- An address is in the prefix of a ban. `channel.c` `bmatch`, `find_ban`. -/
def InPrefix (ip : Nefarious.Addr) (p : List ℕ × ℕ) : Prop := ipmaskCheck ip.groups p.1 p.2 = true

/-- What the comparison of two bans on addresses is to say. `channel.c` `bmatch`. -/
def DecidesInclusion (exceptions : Bool) (oldBan newBan : Mask) (p q : List ℕ × ℕ) : Prop :=
  bmatchExcept exceptions exceptions oldBan newBan = 0 ↔
    mmatch oldBan.nu newBan.nu = 0 ∧ ∀ ip, InPrefix ip q → InPrefix ip p

lemma agree_zero : {l l' : List ℕ} → Words 16 l → Words 16 l' → Agree 16 l l' 0
  | [], _, _, _ => trivial
  | _ :: _, [], _, _ => trivial
  | a :: as, b :: bs, h, h' => by
    have hzero : ∀ x < 2 ^ 16, x >>> (16 - 0) = 0 := by
      intro x hx
      rw [Nat.shiftRight_eq_div_pow]
      exact Nat.div_eq_of_lt hx
    rw [Agree, if_pos (by decide), hzero a (h a List.mem_cons_self), hzero b (h' b List.mem_cons_self)]

lemma ipmaskCheck_iff : {l l' : List ℕ} → {n : ℕ} → Words 16 l → Words 16 l' →
    (ipmaskCheck l l' n = true ↔ Agree 16 l l' n)
  | [], _, _, _, _ => by simp [ipmaskCheck, Agree]
  | _ :: _, [], _, _, _ => by simp [ipmaskCheck, Agree]
  | a :: as, b :: bs, n, h, h' => by
    have hrest : Words 16 as := fun x hx => h x (List.mem_cons_of_mem _ hx)
    have hrest' : Words 16 bs := fun x hx => h' x (List.mem_cons_of_mem _ hx)
    rw [ipmaskCheck, Agree]
    split
    · rw [decide_eq_true_iff, Nat.shiftRight_xor_distrib, Nat.xor_eq_zero_iff]
    · by_cases hab : a = b
      · rw [if_neg (not_not_intro hab)]
        split
        · rename_i hn
          rw [hn]
          exact iff_of_true rfl ⟨hab, agree_zero hrest hrest'⟩
        · rw [ipmaskCheck_iff hrest hrest']
          exact (and_iff_right hab).symm
      · rw [if_pos hab]
        exact iff_of_false Bool.false_ne_true fun hand => hab hand.1

lemma bounds_of_ipmask {s : Str} {p : List ℕ × ℕ} (h : (setBanMask s).ipmask = some p) :
    p.1.length = 8 ∧ Words 16 p.1 ∧ p.2 ≤ 128 := by
  have hhost : ∀ {host : Str}, hostAddress host = some p → p.1.length = 8 ∧ Words 16 p.1 ∧ p.2 ≤ 128 := by
    intro host hhost
    rw [hostAddress] at hhost
    split at hhost
    · rename_i gs pos bits hparse
      split at hhost
      · exact (nomatch hhost)
      · obtain rfl := Option.some.inj hhost
        obtain ⟨hlen, hlt, hbits⟩ := ipmaskParseBits_bounds hparse
        refine ⟨hlen, hlt, ?_⟩
        cases bits with
        | none => exact Nat.zero_le _
        | some n => exact hbits n rfl
    · exact (nomatch hhost)
  unfold setBanMask at h
  simp only at h
  split at h
  · split at h
    · exact hhost h
    · exact (nomatch h)
  · split at h
    · exact hhost h
    · exact (nomatch h)

lemma inPrefix_subset_iff {p q : List ℕ × ℕ} (hp : p.1.length = 8 ∧ Words 16 p.1 ∧ p.2 ≤ 128)
    (hq : q.1.length = 8 ∧ Words 16 q.1 ∧ q.2 ≤ 128) :
    (∀ ip, InPrefix ip q → InPrefix ip p) ↔ p.2 ≤ q.2 ∧ ipmaskCheck q.1 p.1 p.2 = true := by
  have hlen : p.1.length = q.1.length := hp.1.trans hq.1.symm
  have hbits : p.2 ≤ 16 * q.1.length := by
    rw [hq.1]
    exact hp.2.2
  rw [ipmaskCheck_iff hq.2.1 hp.2.1, ← block_subset_iff hlen hq.2.1 hbits]
  constructor
  · intro h x hx hwords hagree
    have hip := h ⟨x, hx.trans hq.1, hwords⟩ ((ipmaskCheck_iff hwords hq.2.1).mpr hagree)
    exact (ipmaskCheck_iff hwords hp.2.1).mp hip
  · intro h ip hip
    have hagree := h ip.groups (ip.length_eq.trans hq.1.symm) ip.lt ((ipmaskCheck_iff ip.lt hq.2.1).mp hip)
    exact (ipmaskCheck_iff ip.lt hp.2.1).mpr hagree

lemma bmatch_eq_zero_iff {oldBan newBan : Mask} {p q : List ℕ × ℕ} (hp : oldBan.ipmask = some p)
    (hq : newBan.ipmask = some q) : bmatch oldBan newBan = 0 ↔ p.2 ≤ q.2 ∧ mmatch oldBan.nu newBan.nu = 0 ∧
      ipmaskCheck q.1 p.1 p.2 = true ∧ mmatch oldBan.banstr newBan.banstr = 0 := by
  obtain ⟨oldAddress, oldBits⟩ := p
  obtain ⟨newAddress, newBits⟩ := q
  simp only [bmatch, hp, hq]
  split
  · rename_i hlt
    exact iff_of_false Nat.one_ne_zero fun h => absurd h.1 (Nat.not_le.mpr hlt)
  · rename_i hle
    rw [Nat.not_lt] at hle
    split
    · rename_i hnu
      exact iff_of_false hnu fun h => hnu h.2.1
    · rename_i hnu
      rw [ne_eq, not_not] at hnu
      split
      · rename_i hcheck
        rw [Bool.not_eq_true'] at hcheck
        refine iff_of_false Nat.one_ne_zero fun h => ?_
        rw [hcheck] at h
        exact Bool.false_ne_true h.2.2.1
      · rename_i hcheck
        have hcheck : ipmaskCheck newAddress oldAddress oldBits = true := by simpa using hcheck
        exact ⟨fun h => ⟨hle, hnu, hcheck, h⟩, fun h => h.2.2.2⟩

/-- **`bmatch` decides inclusion of bans on addresses exactly when the text of a ban covers that of each ban it
includes**. -/
theorem bmatch_decides_iff {s s' : Str} {p q : List ℕ × ℕ} (hp : (setBanMask s).ipmask = some p)
    (hq : (setBanMask s').ipmask = some q) (exceptions : Bool) :
    DecidesInclusion exceptions (setBanMask s) (setBanMask s') p q ↔
      (mmatch (setBanMask s).nu (setBanMask s').nu = 0 → p.2 ≤ q.2 → ipmaskCheck q.1 p.1 p.2 = true →
        mmatch (setBanMask s).banstr (setBanMask s').banstr = 0) := by
  have hexcept : bmatchExcept exceptions exceptions (setBanMask s) (setBanMask s')
      = bmatch (setBanMask s) (setBanMask s') := by
    rw [bmatchExcept, Bool.not_and_self]
    rfl
  rw [DecidesInclusion, hexcept, bmatch_eq_zero_iff hp hq,
    inPrefix_subset_iff (bounds_of_ipmask hp) (bounds_of_ipmask hq)]
  constructor
  · intro h hnu hbits hcheck
    exact (h.mpr ⟨hnu, hbits, hcheck⟩).2.2.2
  · intro h
    constructor
    · rintro ⟨hbits, hnu, hcheck, -⟩
      exact ⟨hnu, hbits, hcheck⟩
    · rintro ⟨hnu, hbits, hcheck⟩
      exact ⟨hbits, hnu, hcheck, h hnu hbits hcheck⟩

theorem bmatch_decides_iff_networks :
    DecidesInclusion false (setBanMask "*!*@10.0.0.0/8".toList) (setBanMask "*!*@11.0.0.0/8".toList)
        ([0, 0, 0, 0, 0, 65535, 0xa00, 0], 104) ([0, 0, 0, 0, 0, 65535, 0xb00, 0], 104) ↔
      (mmatch (setBanMask "*!*@10.0.0.0/8".toList).nu (setBanMask "*!*@11.0.0.0/8".toList).nu = 0 → 104 ≤ 104 →
        ipmaskCheck [0, 0, 0, 0, 0, 65535, 0xb00, 0] [0, 0, 0, 0, 0, 65535, 0xa00, 0] 104 = true →
        mmatch (setBanMask "*!*@10.0.0.0/8".toList).banstr (setBanMask "*!*@11.0.0.0/8".toList).banstr = 0) :=
  bmatch_decides_iff (by decide +kernel) (by decide +kernel) false

/-- **A network, and an address of it**: `*!*@10.0.0.0/8` is not a superset of `*!*@10.1.2.3`, though all
addresses of the one are in the other. -/
theorem bmatch_network : ∃ p q,
    (setBanMask "*!*@10.0.0.0/8".toList).ipmask = some p ∧ (setBanMask "*!*@10.1.2.3".toList).ipmask = some q ∧
      mmatch (setBanMask "*!*@10.0.0.0/8".toList).nu (setBanMask "*!*@10.1.2.3".toList).nu = 0 ∧
      (∀ ip, InPrefix ip q → InPrefix ip p) ∧
      bmatch (setBanMask "*!*@10.0.0.0/8".toList) (setBanMask "*!*@10.1.2.3".toList) ≠ 0 ∧
      ¬DecidesInclusion false (setBanMask "*!*@10.0.0.0/8".toList) (setBanMask "*!*@10.1.2.3".toList) p q := by
  have hp : (setBanMask "*!*@10.0.0.0/8".toList).ipmask = some ([0, 0, 0, 0, 0, 65535, 0xa00, 0], 104) := by
    decide +kernel
  have hq : (setBanMask "*!*@10.1.2.3".toList).ipmask = some ([0, 0, 0, 0, 0, 65535, 0xa01, 0x203], 128) := by
    decide +kernel
  have hnu : mmatch (setBanMask "*!*@10.0.0.0/8".toList).nu (setBanMask "*!*@10.1.2.3".toList).nu = 0 := by
    decide +kernel
  have hbm : bmatch (setBanMask "*!*@10.0.0.0/8".toList) (setBanMask "*!*@10.1.2.3".toList) ≠ 0 := by
    decide +kernel
  have hsub := (inPrefix_subset_iff (bounds_of_ipmask hp) (bounds_of_ipmask hq)).mpr
    ⟨by decide, by decide +kernel⟩
  exact ⟨_, _, hp, hq, hnu, hsub, hbm, fun h => hbm (h.mpr ⟨hnu, hsub⟩)⟩

end Nefarious.BanMask
