import Nefarious.Strings

/-!
# Target changes

A local user may send to new targets at a rate.

Names: `s_user.c`.
-/

namespace Nefarious.Targets

open List (filter_nil length_append length_cons length_nil)

/-! ### Targets -/

/-- `ircd_defs.h`. -/
def maxTargets : ℕ := 20

/-- `ircd_defs.h`. -/
def reservedTargets : ℕ := 12

/-- Delay of the target limit in seconds. `s_user.h`. -/
def targetDelay : ℕ := 128

/-- What a local user may send to. `client.h` `struct Connection`. -/
structure Limits where
  /-- Hash values of current targets. `con_targets`. -/
  targets : List UInt8
  length_eq : targets.length = maxTargets
  /-- Next time a target change is allowed. `con_nexttarget`. -/
  nexttarget : ℤ

/-- A hash value of the address of a target. -/
def hashTarget (target : ℕ) : UInt8 :=
  UInt8.ofNat ((target % 2 ^ 32) >>> 16 % 256 ^^^ (target % 2 ^ 32) >>> 8)

/-- Records a target as a recent target. -/
def addTarget (target : ℕ) (s : Limits) : Limits :=
  if hashTarget target ∈ s.targets then s
  else
    { s with
      targets := s.targets.take reservedTargets ++
        hashTarget target :: (s.targets.drop reservedTargets).take (maxTargets - reservedTargets - 1)
      length_eq := by
        have := s.length_eq
        simp only [length_append, length_cons, List.length_take, List.length_drop, this]
        rfl }

/-- The arguments of a check, and what it asks about the target. `check_target_limit`. -/
structure Check where
  target : ℕ
  /-- `IsChannelName`. -/
  channel : Bool
  invited : Bool
  created : Bool

/-- The target goes to the front of the table, from the place of its hash or as a new one. `check_target_limit`
(`memmove`). -/
def Limits.front (s : Limits) (hash : UInt8) : Limits :=
  { s with
    targets := if hash ∈ s.targets then hash :: s.targets.erase hash else hash :: s.targets.take (maxTargets - 1)
    length_eq := by
      have := s.length_eq
      split
      · rename_i hmem
        rw [length_cons, List.length_erase_of_mem hmem, this]
        rfl
      · rw [length_cons, List.length_take, this]
        rfl }

/-- The next time behind a new target. `check_target_limit`. -/
def nextTime (now next : ℤ) : ℤ := max (next + targetDelay) (now - targetDelay * (maxTargets - 1))

/-- Check whether a user can send to or join a target yet, where target limiting is enabled and the user is not exempt:
whether it is refused, the time left that a refusal tells, and what the user may send to from then on. -/
def checkTargetLimit (limiting exempt : Bool) (now : ℤ) (c : Check) (s : Limits) : Bool × Option ℤ × Limits :=
  let hash := hashTarget c.target
  if !limiting || exempt then (false, none, s)
  else if hash ∈ s.targets then (false, none, s.front hash)
  else if c.created then (false, none, s.front hash)
  else if now < s.nexttarget then
    if c.channel && c.invited then (false, none, s)
    else if s.nexttarget - now < targetDelay + 8 then
      (true, some (s.nexttarget + 2 - now), { s with nexttarget := s.nexttarget + 2 })
    else (true, none, s)
  else (false, none, { s.front hash with nexttarget := nextTime now s.nexttarget })

/-- A call, at a time. -/
inductive Call
  | check (now : ℤ) (c : Check)
  | add (now : ℤ) (target : ℕ)

def Limits.call (s : Limits) : Call → Limits
  | .check now c => (checkTargetLimit true false now c s).2.2
  | .add _ target => addTarget target s

/-- The time of a check that accepts a target that is not in the table, for no created channel and no invitation. -/
def Limits.counted (s : Limits) : Call → List ℤ
  | .check now c =>
    if (checkTargetLimit true false now c s).1 = false ∧ hashTarget c.target ∉ s.targets ∧ c.created = false ∧
      (c.channel && c.invited) = false then [now] else []
  | .add _ _ => []

/-- The times of the counted checks of a run. -/
def acceptedAt : Limits → List Call → List ℤ
  | _, [] => []
  | s, x :: xs => s.counted x ++ acceptedAt (s.call x) xs

/-- The calls leave the targets that are accepted as they are: none of them is a check that accepts. -/
def Quiet : Limits → List Call → Prop
  | _, [] => True
  | s, x :: xs => (∀ now c, x = .check now c → (checkTargetLimit true false now c s).1 = true) ∧ Quiet (s.call x) xs

def run (s : Limits) (xs : List Call) : Limits := xs.foldl Limits.call s

variable {s : Limits} {now : ℤ} {c : Check}

lemma le_nexttarget_call (s : Limits) (x : Call) : s.nexttarget ≤ (s.call x).nexttarget := by
  have hdelay : (0 : ℤ) ≤ targetDelay := Int.natCast_nonneg _
  cases x with
  | check now c =>
    simp only [Limits.call, checkTargetLimit]
    split
    · exact le_refl _
    · split
      · exact le_refl _
      · split
        · exact le_refl _
        · split
          · split
            · exact le_refl _
            · split
              · exact Int.le_add_of_nonneg_right (by decide)
              · exact le_refl _
          · exact le_trans (Int.le_add_of_nonneg_right hdelay) (le_max_left _ _)
  | add now target =>
    simp only [Limits.call, addTarget]
    split
    · exact le_refl _
    · exact le_refl _

lemma counted_cases (s : Limits) (x : Call) : s.counted x = [] ∨ ∃ now, s.counted x = [now] ∧
    s.nexttarget ≤ now ∧ (s.call x).nexttarget = nextTime now s.nexttarget := by
  cases x with
  | add now target => exact .inl rfl
  | check now c =>
    by_cases hcount : (checkTargetLimit true false now c s).1 = false ∧ hashTarget c.target ∉ s.targets ∧
        c.created = false ∧ (c.channel && c.invited) = false
    · right
      refine ⟨now, if_pos hcount, ?_⟩
      obtain ⟨haccept, hnew, hcreated, hinvited⟩ := hcount
      simp only [Limits.call]
      simp only [checkTargetLimit, hnew, hcreated, hinvited, Bool.not_true, Bool.or_self, Bool.false_eq_true,
        if_false] at haccept ⊢
      split at haccept
      · split at haccept
        · exact (nomatch haccept)
        · exact (nomatch haccept)
      · rename_i hlt
        rw [if_neg hlt]
        exact ⟨not_lt.mp hlt, rfl⟩
    · exact .inl (if_neg hcount)

lemma length_acceptedAt (b : ℤ) : (xs : List Call) → ∀ s : Limits,
    ((acceptedAt s xs).filter (· ≤ b)).length = 0 ∨
      s.nexttarget + (((acceptedAt s xs).filter (· ≤ b)).length - 1) * targetDelay ≤ b
  | [], _ => Or.inl rfl
  | x :: xs, s => by
    have ih := length_acceptedAt b xs (s.call x)
    have hmono := le_nexttarget_call s x
    rw [acceptedAt, List.filter_append, length_append]
    generalize ((acceptedAt (s.call x) xs).filter (· ≤ b)).length = n at ih
    obtain hcount | ⟨now, hcount, hnow, hnext⟩ := counted_cases s x
    · rw [hcount, filter_nil, length_nil, Nat.zero_add]
      exact ih.imp_right fun h => by omega
    · rw [hcount]
      by_cases hb : now ≤ b
      · right
        have hfront : s.nexttarget + targetDelay ≤ (s.call x).nexttarget := hnext ▸ le_max_left _ _
        rw [List.filter_cons_of_pos (by simpa using hb), filter_nil, List.length_singleton]
        obtain rfl | h := ih
        · push_cast
          omega
        · push_cast
          linarith
      · rw [List.filter_cons_of_neg (by simpa using hb), filter_nil, length_nil, Nat.zero_add]
        exact ih.imp_right fun h => by omega

lemma length_window (a : ℤ) (T : ℕ) : (xs : List Call) → ∀ s : Limits,
    ((acceptedAt s xs).filter fun t => a ≤ t ∧ t ≤ a + T).length ≤ maxTargets + 1 + T / targetDelay
  | [], _ => Nat.zero_le _
  | x :: xs, s => by
    have ih := length_window a T xs (s.call x)
    rw [acceptedAt, List.filter_append, length_append]
    obtain hcount | ⟨now, hcount, hnow, hnext⟩ := counted_cases s x
    · rw [hcount, filter_nil, length_nil, Nat.zero_add]
      exact ih
    · rw [hcount]
      by_cases hin : a ≤ now ∧ now ≤ a + T
      · -- from the first target in the window on, the next time allows so many more
        have hfloor : now - targetDelay * (maxTargets - 1) ≤ (s.call x).nexttarget := hnext ▸ le_max_right _ _
        have hrest := length_acceptedAt (a + T) xs (s.call x)
        have hsub : ((acceptedAt (s.call x) xs).filter fun t => a ≤ t ∧ t ≤ a + T).length ≤
            ((acceptedAt (s.call x) xs).filter (· ≤ a + T)).length := by
          refine List.Sublist.length_le (List.monotone_filter_right _ fun t ht => ?_)
          exact decide_eq_true (of_decide_eq_true ht).2
        rw [List.filter_cons_of_pos (by simpa using hin), filter_nil, List.length_singleton]
        generalize ((acceptedAt (s.call x) xs).filter (· ≤ a + T)).length = n at hrest hsub
        simp only [targetDelay, maxTargets] at hfloor hrest ⊢
        push_cast at hfloor hrest
        omega
      · rw [List.filter_cons_of_neg (by simpa using hin), filter_nil, length_nil, Nat.zero_add]
        exact ih

/-! ### The last target -/

/-- The target is the first of the table, or a new channel, or one with an invitation: it costs nothing. -/
def Free (s : Limits) (c : Check) : Prop :=
  s.targets.head? = some (hashTarget c.target) ∨ c.created = true ∨ (c.channel && c.invited) = true

lemma Free.accepted (h : Free s c) (now : ℤ) : (checkTargetLimit true false now c s).1 = false := by
  have hfirst : s.targets.head? = some (hashTarget c.target) → hashTarget c.target ∈ s.targets := List.mem_of_head?
  simp only [checkTargetLimit, Bool.not_true, Bool.or_self, Bool.false_eq_true, if_false]
  split
  · rfl
  · rename_i hnew
    split
    · rfl
    · rename_i hcreated
      obtain h | h | h := h
      · exact absurd (hfirst h) hnew
      · exact absurd h hcreated
      · rw [if_pos h]
        split
        · rfl
        · rfl

lemma head_front (s : Limits) (hash : UInt8) : (s.front hash).targets.head? = some hash := by
  simp only [Limits.front]
  split
  · rfl
  · rfl

lemma free_of_accepted (h : (checkTargetLimit true false now c s).1 = false) :
    Free (checkTargetLimit true false now c s).2.2 c := by
  simp only [checkTargetLimit, Bool.not_true, Bool.or_self, Bool.false_eq_true, if_false] at h ⊢
  split at h
  · rename_i hmem
    rw [if_pos hmem]
    exact .inl (head_front s _)
  · rename_i hmem
    rw [if_neg hmem]
    split at h
    · rename_i hcreated
      exact .inr (Or.inl hcreated)
    · rename_i hcreated
      rw [if_neg hcreated]
      split at h
      · split at h
        · rename_i hinvited
          exact .inr (Or.inr hinvited)
        · split at h
          · exact (nomatch h)
          · exact (nomatch h)
      · rename_i hlt
        rw [if_neg hlt]
        exact .inl (head_front s _)

lemma Free.refused (h : Free s c) {now : ℤ} {d : Check}
    (hd : (checkTargetLimit true false now d s).1 = true) :
    Free (checkTargetLimit true false now d s).2.2 c := by
  simp only [checkTargetLimit, Bool.not_true, Bool.or_self, Bool.false_eq_true, if_false] at hd ⊢
  split at hd
  · exact (nomatch hd)
  · rename_i hmem
    rw [if_neg hmem]
    split at hd
    · exact (nomatch hd)
    · rename_i hcreated
      rw [if_neg hcreated]
      split at hd
      · rename_i hlt
        rw [if_pos hlt]
        split at hd
        · exact (nomatch hd)
        · rename_i hinvited
          rw [if_neg hinvited]
          split
          · exact h
          · exact h
      · exact (nomatch hd)

lemma Free.add (h : Free s c) (target : ℕ) : Free (addTarget target s) c := by
  unfold addTarget
  split
  · exact h
  · refine h.imp_left fun hhead => ?_
    change (s.targets.take reservedTargets ++ _).head? = _
    rw [List.head?_append, List.head?_take, if_neg (by decide), hhead]
    rfl

lemma Free.run : (xs : List Call) → ∀ {s : Limits}, Free s c → Quiet s xs → Free (run s xs) c
  | [], _, h, _ => h
  | .check now d :: xs, _, h, hq => Free.run xs (h.refused (hq.1 now d rfl)) hq.2
  | .add _ target :: xs, _, h, hq => Free.run xs (h.add target) hq.2

/-- **Target changes are limited to a rate**, and a target that was accepted last is accepted again, also behind
refusals and recorded targets. -/
theorem target_rate (s : Limits) (xs : List Call) : (∀ (a : ℤ) (T : ℕ),
    ((acceptedAt s xs).filter fun t => a ≤ t ∧ t ≤ a + T).length ≤ maxTargets + 1 + T / targetDelay) ∧ ∀ (now :
    ℤ) (c : Check), (checkTargetLimit true false now c (run s xs)).1 = false → ∀ ys,
    Quiet ((run s xs).call (.check now c)) ys → ∀ now',
    (checkTargetLimit true false now' c (run ((run s xs).call (.check now c)) ys)).1 = false :=
  ⟨fun a T => length_window a T xs s, fun _ _ h ys hq now' => ((free_of_accepted h).run ys hq).accepted now'⟩

/-- A user who has sent to nobody yet. -/
def unused : Limits := ⟨List.replicate maxTargets 0, rfl, 0⟩

theorem target_rate_unused : ((acceptedAt unused [.check 0 ⟨256, false, false, false⟩]).filter fun t : ℤ =>
      0 ≤ t ∧ t ≤ 0 + (5 : ℕ)).length ≤ maxTargets + 1 + 5 / targetDelay ∧
    (checkTargetLimit true false 0 ⟨256, false, false, false⟩
      (run ((run unused []).call (.check 0 ⟨256, false, false, false⟩)) [.add 0 512])).1 = false :=
  ⟨(target_rate unused _).1 0 5, (target_rate unused []).2 0 ⟨256, false, false, false⟩ (by decide) [.add 0 512]
    ⟨nofun, trivial⟩ 0⟩

end Nefarious.Targets
