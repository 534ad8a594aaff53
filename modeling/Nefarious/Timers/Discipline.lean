import Nefarious.Timers

/-!
# The discipline of the timers

A timer is idle, or queued, or called: the reference count is zero unless it is called, and then it is one.
-/

namespace Nefarious.Timers

open Option (some.inj)
open List (count_append mem_append mem_cons mem_cons_self mem_singleton nodup_cons nodup_nil)

open Lib

/-- The timer that a frame has called. -/
def Frame.expiring : Frame → Option ℕ
  | .event .expire t => some t
  | _ => none

/-- The timers that are called because they expired. -/
def State.expiring (s : State) : List ℕ := s.stack.filterMap Frame.expiring

/-- The armings that were used up: those of one-shot timers that were called. -/
def State.shots (s : State) : List ℕ :=
  (s.fired.filter fun f => f.type ≠ .periodic).map Fire.arming

def State.destroys (s : State) (t : ℕ) : ℕ := (s.destroyed.map Prod.fst).count t

/-- A timer is where its flags say. -/
structure Kept (s : State) (t : ℕ) : Prop where
  active : (s.timer t).active = true ↔ t ∈ s.queue ∨ (s.timer t).marked = true
  marked : (s.timer t).marked = true ↔ t ∈ s.expiring
  off : (s.timer t).marked = true → t ∉ s.queue
  readd : (s.timer t).readd = true → (s.timer t).marked = true
  ref : (s.timer t).active = true → (s.timer t).ref = (s.timer t).marked.toNat
  arming : (s.timer t).active = true → s.arming t < s.armings
  ready : t ∈ s.queue ∨ (s.timer t).readd = true → (s.timer t).type ≠ .periodic → s.arming t ∉ s.shots
  service : s.begun.count t = s.destroys t + (s.timer t).active.toNat

/-- All timers are where their flags say, apart from one, which is not queued, and the history is in
order. -/
structure Sound (s : State) (o : Option ℕ) : Prop where
  kept : ∀ t, o ≠ some t → Kept s t
  out : ∀ t, o = some t → t ∉ s.queue
  nodup : s.queue.Nodup
  sorted : s.queue.Pairwise (Stable.Before (fun t => (s.timer t).expire) s.stamp)
  stamps : ∀ t ∈ s.queue, s.stamp t < s.stamps
  once : s.expiring.Nodup
  distinct : ∀ t u, o ≠ some t → o ≠ some u → (s.timer t).active = true → (s.timer u).active = true →
    s.arming t = s.arming u → t = u
  shots : s.shots.Nodup
  made : ∀ a ∈ s.shots, a < s.armings
  early : ∀ f ∈ s.fired, f.expire ≤ f.now
  clean : ∀ d ∈ s.destroyed, d.2 = 0
  dropped : ∀ r ∈ s.dropped, 0 < r

section Sound

variable {s u : State} {t x : ℕ}

@[simp] lemma set_of_ne (h : x ≠ t) (timer : Timer) : (s.set t timer).timer x = s.timer x :=
  Function.update_of_ne h _ _

@[simp] lemma set_self (timer : Timer) : (s.set t timer).timer t = timer := Function.update_self _ _ _

lemma Kept.congr (h : Kept s x) (htimer : u.timer x = s.timer x) (hqueue : x ∈ u.queue ↔ x ∈ s.queue)
    (hexpiring : x ∈ u.expiring ↔ x ∈ s.expiring) (harming : u.arming x = s.arming x)
    (harmings : s.armings ≤ u.armings)
    (hshots : (s.timer x).active = true → s.arming x ∈ u.shots → s.arming x ∈ s.shots)
    (hbegun : u.begun.count x = s.begun.count x) (hdestroys : u.destroys x = s.destroys x) : Kept u x := by
  refine ⟨?_, ?_, ?_, ?_, ?_, ?_, ?_, ?_⟩
  · rw [htimer, hqueue]
    exact h.active
  · rw [htimer, hexpiring]
    exact h.marked
  · rw [htimer, hqueue]
    exact h.off
  · rw [htimer]
    exact h.readd
  · rw [htimer]
    exact h.ref
  · rw [htimer, harming]
    exact fun hactive => Nat.lt_of_lt_of_le (h.arming hactive) harmings
  · rw [htimer, hqueue, harming]
    intro hready htype hin
    have hactive := h.active.mpr (hready.imp id h.readd)
    exact h.ready hready htype (hshots hactive hin)
  · rw [htimer, hbegun, hdestroys]
    exact h.service

lemma Sound.leave (h : Sound s none) (ht : t ∉ s.queue) : Sound s (some t) :=
  { h with
    kept := fun x _ => h.kept x nofun
    out := fun _ hx => some.inj hx ▸ ht
    distinct := fun x y _ _ => h.distinct x y nofun nofun }

lemma Sound.close (h : Sound s (some t)) (hkept : Kept s t)
    (hdistinct : (s.timer t).active = true → ∀ x, x ≠ t → (s.timer x).active = true →
      s.arming x ≠ s.arming t) : Sound s none :=
  { h with
    kept := fun x _ => by
      by_cases e : x = t
      · exact e ▸ hkept
      · exact h.kept x fun e' => e (some.inj e').symm
    out := nofun
    distinct := fun x y _ _ hx hy he => by
      by_cases ex : x = t
      · subst ex
        by_contra hne
        exact hdistinct hx y (Ne.symm hne) hy he.symm
      · by_cases ey : y = t
        · subst ey
          exact absurd he (hdistinct hy x ex hx)
        · exact h.distinct x y (fun e => ex (some.inj e).symm) (fun e => ey (some.inj e).symm)
            hx hy he }

lemma Sound.set (h : Sound s (some t)) (timer : Timer) : Sound (s.set t timer) (some t) :=
  { h with
    kept := fun x hx => (h.kept x hx).congr (set_of_ne (fun e : x = t => hx (e ▸ rfl)) timer) Iff.rfl Iff.rfl rfl
      (Nat.le_refl _) (fun _ hin => hin) rfl rfl
    sorted := Stable.before_congr h.sorted (fun x hx => by
      rw [set_of_ne fun e : x = t => h.out t rfl (e ▸ hx)]) fun _ _ => rfl
    distinct := fun x y hx hy => by
      rw [set_of_ne fun e : x = t => hx (e ▸ rfl), set_of_ne fun e : y = t => hy (e ▸ rfl)]
      exact h.distinct x y hx hy }

lemma Sound.arm (h : Sound s (some t)) : Sound (s.arm t) (some t) := by
  have harming : ∀ x, some t ≠ some x → (s.arm t).arming x = s.arming x := fun x hx =>
    Function.update_of_ne (fun e : x = t => hx (e ▸ rfl)) _ _
  exact { h with
    kept := fun x hx => (h.kept x hx).congr rfl Iff.rfl Iff.rfl (harming x hx) (Nat.le_succ _)
      (fun _ hin => hin) rfl rfl
    distinct := fun x y hx hy => by
      rw [harming x hx, harming y hy]
      exact h.distinct x y hx hy
    made := fun a ha => Nat.lt_succ_of_lt (h.made a ha) }

lemma Sound.arm_fresh (h : Sound s (some t)) :
    (s.arm t).arming t < (s.arm t).armings ∧ (s.arm t).arming t ∉ (s.arm t).shots ∧
      ∀ x, x ≠ t → (s.timer x).active = true → (s.arm t).arming x ≠ (s.arm t).arming t := by
  have hself : (s.arm t).arming t = s.armings := Function.update_self _ _ _
  rw [hself]
  refine ⟨Nat.lt_succ_self _, fun hin => absurd (h.made _ hin) (Nat.lt_irrefl _), fun x hx hactive e => ?_⟩
  have hother : (s.arm t).arming x = s.arming x := Function.update_of_ne hx _ _
  have hlt := (h.kept x fun e => hx (some.inj e).symm).arming hactive
  rw [← hother, e] at hlt
  exact Nat.lt_irrefl _ hlt

lemma Sound.stack (h : Sound s (some t)) {stack : List Frame}
    (hmem : ∀ x, x ≠ t → (x ∈ stack.filterMap Frame.expiring ↔ x ∈ s.expiring))
    (hnodup : (stack.filterMap Frame.expiring).Nodup) : Sound { s with stack := stack } (some t) :=
  { h with
    kept := fun x hx => (h.kept x hx).congr rfl Iff.rfl (hmem x fun e => hx (e ▸ rfl)) rfl (Nat.le_refl _)
      (fun _ hin => hin) rfl rfl
    once := hnodup }

lemma Sound.genDequeue (h : Sound s none) (t : ℕ) : Sound (genDequeue s t) (some t) :=
  { h with
    kept := fun x hx => (h.kept x nofun).congr rfl (List.mem_erase_of_ne fun e => hx (e ▸ rfl)) Iff.rfl rfl
      (Nat.le_refl _) (fun _ hin => hin) rfl rfl
    out := fun _ hx => some.inj hx ▸ h.nodup.not_mem_erase
    nodup := h.nodup.erase t
    sorted := h.sorted.sublist List.erase_sublist
    stamps := fun x hx => h.stamps x (List.mem_of_mem_erase hx)
    distinct := fun x y _ _ => h.distinct x y nofun nofun }

/-- A timer in service has no reference, and an arming of its own that was not used up. -/
structure Due (s : State) (t : ℕ) : Prop where
  active : (s.timer t).active = true
  ref : (s.timer t).ref = 0
  arming : s.arming t < s.armings
  fresh : (s.timer t).type ≠ .periodic → s.arming t ∉ s.shots
  own : ∀ x, x ≠ t → (s.timer x).active = true → s.arming x ≠ s.arming t
  service : s.begun.count t = s.destroys t + 1

lemma Sound.enqueue (h : Sound s (some t)) (hdue : Due s t) (hmarked : (s.timer t).marked = false)
    (hexpiring : t ∉ s.expiring) : ∃ u, timerEnqueue s t = some u ∧
      Sound (u.set t { u.timer t with readd := false }) none := by
  have hq : t ∉ s.queue := h.out t rfl
  refine ⟨s.link t, by rw [timerEnqueue, if_neg (by rw [hdue.active]; simpa using hq)], ?_⟩
  obtain ⟨v, hv⟩ : ∃ v, v = (s.link t).set t { (s.link t).timer t with readd := false } := ⟨_, rfl⟩
  rw [← hv]
  have hother : ∀ x, x ≠ t → v.timer x = s.timer x := fun x hx => by
    rw [hv, set_of_ne hx]
    exact set_of_ne hx _
  have hself : v.timer t =
      { s.timer t with expire := (s.timer t).due s.currentTime, readd := false } := by
    rw [hv, set_self]
    simp only [State.link, set_self]
  have hexpire : ∀ x, (v.timer x).expire =
      ((s.set t { s.timer t with expire := (s.timer t).due s.currentTime }).timer x).expire := fun x => by
    by_cases e : x = t
    · rw [e, hself, set_self]
    · rw [hother x e, set_of_ne e]
  have hqueue : v.queue = Stable.insert (fun x =>
      ((s.set t { s.timer t with expire := (s.timer t).due s.currentTime }).timer x).expire) t s.queue := by
    rw [hv]
    rfl
  have hperm : v.queue.Perm (t :: s.queue) := hqueue ▸ Stable.insert_perm _ t s.queue
  have hstamp : v.stamp = Function.update s.stamp t s.stamps ∧ v.stamps = s.stamps + 1 := by
    rw [hv]
    exact ⟨rfl, rfl⟩
  have hold : ∀ x ∈ s.queue, v.stamp x = s.stamp x := fun x hx => by
    rw [hstamp.1, Function.update_of_ne fun e : x = t => hq (e ▸ hx)]
  have hnew : v.stamp t = s.stamps := by rw [hstamp.1, Function.update_self]
  -- What the queue does not concern.
  have hrest : v.expiring = s.expiring ∧ v.arming = s.arming ∧ v.armings = s.armings ∧ v.shots = s.shots ∧
      v.begun = s.begun ∧ v.destroys = s.destroys ∧ v.fired = s.fired ∧ v.destroyed = s.destroyed ∧
      v.dropped = s.dropped := by
    rw [hv]
    exact ⟨rfl, rfl, rfl, rfl, rfl, rfl, rfl, rfl, rfl⟩
  obtain ⟨hexp, harming, harmings, hshots, hbegun, hdestroys, hfired, hdestroyed, hdropped⟩ := hrest
  refine ⟨fun x _ => ?_, nofun, ?_, ?_, ?_, ?_, ?_, ?_, ?_, ?_, ?_, ?_⟩
  · by_cases e : x = t
    · subst e
      have hin : x ∈ v.queue := hperm.mem_iff.mpr mem_cons_self
      refine ⟨?_, ?_, ?_, ?_, ?_, ?_, ?_, ?_⟩
      · rw [hself]
        exact ⟨fun _ => .inl hin, fun _ => hdue.active⟩
      · rw [hself, hexp, hmarked]
        exact ⟨nofun, fun hc => absurd hc hexpiring⟩
      · rw [hself, hmarked]
        nofun
      · rw [hself]
        nofun
      · rw [hself, hmarked]
        exact fun _ => hdue.ref
      · rw [harming, harmings]
        exact fun _ => hdue.arming
      · rw [hself, harming, hshots]
        exact fun _ => hdue.fresh
      · rw [hself, hbegun, hdestroys, hdue.active]
        exact hdue.service
    · refine (h.kept x fun e' => e (some.inj e').symm).congr (hother x e) ?_ ?_ ?_ ?_ ?_ ?_ ?_
      · rw [hperm.mem_iff, mem_cons, or_iff_right e]
      · rw [hexp]
      · rw [harming]
      · rw [harmings]
      · rw [hshots]
        exact fun _ hin => hin
      · rw [hbegun]
      · rw [hdestroys]
  · exact hperm.nodup_iff.mpr (nodup_cons.mpr ⟨hq, h.nodup⟩)
  · have hsorted : v.queue.Pairwise (Stable.Before (fun x =>
        ((s.set t { s.timer t with expire := (s.timer t).due s.currentTime }).timer x).expire) v.stamp) := by
      rw [hqueue]
      apply Stable.insert_before
      · exact Stable.before_congr (h.set _).sorted (fun _ _ => rfl) hold
      · intro x hx
        rw [hold x hx, hnew]
        exact h.stamps x hx
    exact Stable.before_congr hsorted (fun x _ => hexpire x) fun _ _ => rfl
  · intro x hx
    rw [hstamp.2]
    obtain rfl | hx := mem_cons.mp (hperm.mem_iff.mp hx)
    · rw [hnew]
      exact Nat.lt_succ_self _
    · rw [hold x hx]
      exact Nat.lt_succ_of_lt (h.stamps x hx)
  · rw [hexp]
    exact h.once
  · intro x y _ _ hx hy he
    rw [harming] at he
    by_cases ex : x = t
    · by_cases ey : y = t
      · rw [ex, ey]
      · rw [hother y ey] at hy
        exact absurd (ex ▸ he).symm (hdue.own y ey hy)
    · rw [hother x ex] at hx
      by_cases ey : y = t
      · exact absurd (ey ▸ he) (hdue.own x ex hx)
      · rw [hother y ey] at hy
        exact h.distinct x y (fun e => ex (some.inj e).symm) (fun e => ey (some.inj e).symm)
          hx hy he
  · rw [hshots]
    exact h.shots
  · rw [hshots, harmings]
    exact h.made
  · rw [hfired]
    exact h.early
  · rw [hdestroyed]
    exact h.clean
  · rw [hdropped]
    exact h.dropped

lemma Sound.destroy (h : Sound s (some t)) (hactive : (s.timer t).active = true)
    (hmarked : (s.timer t).marked = false) (hreadd : (s.timer t).readd = false)
    (hexpiring : t ∉ s.expiring) (href : (s.timer t).ref = 0) (hservice : s.begun.count t = s.destroys t + 1) :
    ∃ u, eventGenerate s .destroy t = some u ∧ Sound u none := by
  refine ⟨s.generate .destroy t, if_pos hactive, ?_⟩
  obtain ⟨v, hv⟩ : ∃ v, v = s.generate .destroy t := ⟨_, rfl⟩
  rw [← hv]
  have hother : ∀ x, x ≠ t → v.timer x = s.timer x := fun x hx => by
    rw [hv]
    exact set_of_ne hx _
  have hself : v.timer t = { s.timer t with ref := ((s.timer t).ref + 1) % 2 ^ 32, active := false } := by
    rw [hv]
    exact set_self _
  have hdestroyed : v.destroyed = s.destroyed ++ [(t, (s.timer t).ref)] := by
    rw [hv]
    rfl
  have hdestroys : ∀ x, v.destroys x = s.destroys x + if t = x then 1 else 0 := fun x => by
    rw [State.destroys, hdestroyed, List.map_append, count_append, List.map_singleton, List.count_singleton]
    simp only [State.destroys, beq_iff_eq]
  have hrest : v.queue = s.queue ∧ v.stamp = s.stamp ∧ v.stamps = s.stamps ∧ v.expiring = s.expiring ∧
      v.arming = s.arming ∧ v.armings = s.armings ∧ v.shots = s.shots ∧ v.begun = s.begun ∧
      v.fired = s.fired ∧ v.dropped = s.dropped := by
    rw [hv]
    exact ⟨rfl, rfl, rfl, rfl, rfl, rfl, rfl, rfl, rfl, rfl⟩
  obtain ⟨hqueue, hstamp, hstamps, hexp, harming, harmings, hshots, hbegun, hfired, hdropped⟩ := hrest
  have hout : t ∉ v.queue := hqueue ▸ h.out t rfl
  have hleft : Sound v (some t) := by
    refine ⟨fun x hx => ?_, fun x hx => some.inj hx ▸ hout, ?_, ?_, ?_, ?_, fun x y hx hy => ?_, ?_, ?_,
      ?_, ?_, ?_⟩
    · have e : x ≠ t := fun e => hx (e ▸ rfl)
      refine (h.kept x hx).congr (hother x e) ?_ ?_ ?_ ?_ ?_ ?_ ?_
      · rw [hqueue]
      · rw [hexp]
      · rw [harming]
      · rw [harmings]
      · rw [hshots]
        exact fun _ hin => hin
      · rw [hbegun]
      · rw [hdestroys, if_neg (Ne.symm e)]
        rfl
    · rw [hqueue]
      exact h.nodup
    · rw [hqueue, hstamp]
      exact Stable.before_congr h.sorted (fun x hx => by
        rw [hother x fun e => h.out t rfl (e ▸ hx)]) fun _ _ => rfl
    · rw [hqueue, hstamp, hstamps]
      exact h.stamps
    · rw [hexp]
      exact h.once
    · rw [hother x fun e => hx (e ▸ rfl), hother y fun e => hy (e ▸ rfl), harming]
      exact h.distinct x y hx hy
    · rw [hshots]
      exact h.shots
    · rw [hshots, harmings]
      exact h.made
    · rw [hfired]
      exact h.early
    · rw [hdestroyed]
      intro d hd
      obtain hd | hd := mem_append.mp hd
      · exact h.clean d hd
      · rw [mem_singleton.mp hd]
        exact href
    · rw [hdropped]
      exact h.dropped
  apply hleft.close
  · refine ⟨?_, ?_, ?_, ?_, ?_, ?_, ?_, ?_⟩
    · rw [hself, hmarked]
      exact ⟨nofun, fun hc => absurd (hc.resolve_right nofun) hout⟩
    · rw [hself, hexp, hmarked]
      exact ⟨nofun, fun hc => absurd hc hexpiring⟩
    · rw [hself, hmarked]
      nofun
    · rw [hself, hreadd]
      nofun
    · rw [hself]
      nofun
    · rw [hself]
      nofun
    · rw [hself, hreadd]
      exact fun hc => absurd (hc.resolve_right nofun) hout
    · rw [hself, hbegun, hdestroys, if_pos rfl]
      exact hservice
  · rw [hself]
    nofun

lemma Sound.expire (h : Sound s (some t)) (hdue : Due s t) (hmarked : (s.timer t).marked = true)
    (hreadd : (s.timer t).readd = true → (s.timer t).type = .periodic) (hexpiring : t ∉ s.expiring)
    (hnow : (s.timer t).expire ≤ s.currentTime) : ∃ u, eventGenerate s .expire t = some u ∧ Sound u none := by
  refine ⟨s.generate .expire t, if_pos hdue.active, ?_⟩
  obtain ⟨v, hv⟩ : ∃ v, v = s.generate .expire t := ⟨_, rfl⟩
  rw [← hv]
  have hother : ∀ x, x ≠ t → v.timer x = s.timer x := fun x hx => by
    rw [hv]
    exact set_of_ne hx _
  have hself : v.timer t = { s.timer t with ref := 1, active := true } := by
    rw [hv]
    simp only [State.generate, set_self, hdue.ref]
    rfl
  have hfired : v.fired = s.fired ++ [⟨s.arming t, (s.timer t).type, (s.timer t).expire, s.currentTime⟩] := by
    rw [hv]
    rfl
  have hadd : v.shots = s.shots ++ if (s.timer t).type = .periodic then [] else [s.arming t] := by
    rw [State.shots, hfired, List.filter_append, List.map_append]
    by_cases htype : (s.timer t).type = .periodic
    · simp [State.shots, htype]
    · simp [State.shots, htype]
  have hshots : ∀ a, a ∈ v.shots → a ∈ s.shots ∨ a = s.arming t := fun a ha => by
    rw [hadd, mem_append] at ha
    refine ha.imp id fun hin => ?_
    split at hin
    · cases hin
    · exact mem_singleton.mp hin
  have hexp : v.expiring = t :: s.expiring := by
    rw [hv]
    rfl
  have hmem : ∀ x, x ≠ t → (x ∈ v.expiring ↔ x ∈ s.expiring) := fun x hx => by
    rw [hexp, mem_cons, or_iff_right hx]
  have hrest : v.queue = s.queue ∧ v.stamp = s.stamp ∧ v.stamps = s.stamps ∧ v.arming = s.arming ∧
      v.armings = s.armings ∧ v.begun = s.begun ∧ v.destroys = s.destroys ∧ v.destroyed = s.destroyed ∧
      v.dropped = s.dropped := by
    rw [hv]
    exact ⟨rfl, rfl, rfl, rfl, rfl, rfl, rfl, rfl, rfl⟩
  obtain ⟨hqueue, hstamp, hstamps, harming, harmings, hbegun, hdestroys, hdestroyed, hdropped⟩ := hrest
  have hout : t ∉ v.queue := hqueue ▸ h.out t rfl
  have hleft : Sound v (some t) := by
    refine ⟨fun x hx => ?_, fun x hx => some.inj hx ▸ hout, ?_, ?_, ?_, ?_, fun x y hx hy => ?_, ?_,
      fun a ha => ?_, ?_, ?_, ?_⟩
    · have e : x ≠ t := fun e => hx (e ▸ rfl)
      refine (h.kept x hx).congr (hother x e) ?_ (hmem x e) ?_ ?_ ?_ ?_ ?_
      · rw [hqueue]
      · rw [harming]
      · rw [harmings]
      · intro hactive hin
        exact (hshots _ hin).resolve_right (hdue.own x e hactive)
      · rw [hbegun]
      · rw [hdestroys]
    · rw [hqueue]
      exact h.nodup
    · rw [hqueue, hstamp]
      exact Stable.before_congr h.sorted (fun x hx => by
        rw [hother x fun e => h.out t rfl (e ▸ hx)]) fun _ _ => rfl
    · rw [hqueue, hstamp, hstamps]
      exact h.stamps
    · rw [hexp]
      exact nodup_cons.mpr ⟨hexpiring, h.once⟩
    · rw [hother x fun e => hx (e ▸ rfl), hother y fun e => hy (e ▸ rfl), harming]
      exact h.distinct x y hx hy
    · rw [hadd]
      split
      · rw [List.append_nil]
        exact h.shots
      · rename_i htype
        exact (List.perm_append_singleton _ _).nodup_iff.mpr (nodup_cons.mpr ⟨hdue.fresh htype, h.shots⟩)
    · rw [harmings]
      obtain ha | rfl := hshots a ha
      · exact h.made a ha
      · exact hdue.arming
    · rw [hfired]
      intro f hf
      obtain hf | hf := mem_append.mp hf
      · exact h.early f hf
      · rw [mem_singleton.mp hf]
        exact hnow
    · rw [hdestroyed]
      exact h.clean
    · rw [hdropped]
      exact h.dropped
  apply hleft.close
  · refine ⟨?_, ?_, ?_, ?_, ?_, ?_, ?_, ?_⟩
    · rw [hself, hmarked]
      exact ⟨fun _ => .inr rfl, fun _ => rfl⟩
    · rw [hself, hexp, hmarked]
      exact ⟨fun _ => mem_cons_self, fun _ => rfl⟩
    · exact fun _ => hout
    · rw [hself]
      exact fun _ => hmarked
    · rw [hself, hmarked]
      exact fun _ => rfl
    · rw [harming, harmings]
      exact fun _ => hdue.arming
    · rw [hself]
      intro hready htype
      exact absurd (hreadd (hready.resolve_left hout)) htype
    · rw [hself, hbegun, hdestroys]
      exact hdue.service
  · rw [harming]
    exact fun _ x hx => hother x hx ▸ hdue.own x hx

lemma Kept.idle (h : Kept s t) (hactive : (s.timer t).active = false) :
    t ∉ s.queue ∧ (s.timer t).marked = false ∧ t ∉ s.expiring ∧ s.begun.count t = s.destroys t := by
  have hnone : ¬(t ∈ s.queue ∨ (s.timer t).marked = true) := fun hc => by
    rw [h.active.mpr hc] at hactive
    cases hactive
  obtain ⟨hqueue, hmarked⟩ := not_or.mp hnone
  refine ⟨hqueue, Bool.eq_false_iff.mpr hmarked, fun hin => hmarked (h.marked.mpr hin), ?_⟩
  have hservice := h.service
  rwa [hactive] at hservice

lemma Sound.queued (h : Sound s none) (hactive : (s.timer t).active = true)
    (hmarked : (s.timer t).marked = false) : t ∉ s.expiring ∧ (s.timer t).readd = false ∧ Due s t := by
  have hkept := h.kept t nofun
  have hunmarked := Bool.eq_false_iff.mp hmarked
  have hqueue : t ∈ s.queue := (hkept.active.mp hactive).resolve_right hunmarked
  refine ⟨fun hin => hunmarked (hkept.marked.mpr hin), Bool.eq_false_iff.mpr fun hr => hunmarked (hkept.readd hr),
    hactive, ?_, hkept.arming hactive, hkept.ready (.inl hqueue), fun x hx hactive' e => ?_, ?_⟩
  · rw [hkept.ref hactive, hmarked]
    rfl
  · exact hx (h.distinct x t nofun nofun hactive' hactive e)
  · rw [hkept.service, hactive]
    rfl

lemma Sound.enqueue_new (h : Sound s (some t)) (hdue : Due s t) (hmarked : (s.timer t).marked = false)
    (hreadd : (s.timer t).readd = false) (hexpiring : t ∉ s.expiring) :
    ∃ u, timerEnqueue s t = some u ∧ Sound u none := by
  obtain ⟨u, hu, hsound⟩ := h.enqueue hdue hmarked hexpiring
  refine ⟨u, hu, ?_⟩
  rw [timerEnqueue] at hu
  split at hu
  · cases hu
  cases hu
  have hsame : (s.link t).set t { (s.link t).timer t with readd := false } = s.link t := by
    have hfalse : ((s.link t).timer t).readd = false := by
      simp only [State.link, set_self, hreadd]
    rw [State.set, ← hfalse]
    simp only [Function.update_eq_self]
  rwa [hsame] at hsound

lemma Sound.begin (h : Sound s (some t)) : Sound { s with begun := s.begun ++ [t] } (some t) :=
  { h with
    kept := fun x hx => (h.kept x hx).congr rfl Iff.rfl Iff.rfl rfl (Nat.le_refl _) (fun _ hin => hin) (by
      have e : t ≠ x := fun e => hx (e ▸ rfl)
      simp only [count_append, List.count_singleton, beq_iff_eq, if_neg e, Nat.add_zero]) rfl }

lemma Sound.genRefDec (h : Sound s (some t)) (href : 0 < (s.timer t).ref) : Sound (genRefDec s t) (some t) :=
  { h.set { s.timer t with ref := ((s.timer t).ref + (2 ^ 32 - 1)) % 2 ^ 32 } with
    kept := fun x hx => ((h.set _).kept x hx).congr rfl Iff.rfl Iff.rfl rfl (Nat.le_refl _)
      (fun _ hin => hin) rfl rfl
    dropped := fun r hr => (mem_append.mp hr).elim (h.dropped r) fun e => mem_singleton.mp e ▸ href }

lemma Sound.frames (h : Sound s none) {stack : List Frame}
    (hsame : stack.filterMap Frame.expiring = s.expiring) : Sound { s with stack := stack } none :=
  { h with
    kept := fun x hx => (h.kept x hx).congr rfl Iff.rfl (by rw [← hsame]; rfl) rfl (Nat.le_refl _)
      (fun _ hin => hin) rfl rfl
    once := show (stack.filterMap Frame.expiring).Nodup from hsame.symm ▸ h.once }

lemma Sound.timerInit (h : Sound s none) (hactive : (s.timer t).active = false) :
    Sound (timerInit s t) none := by
  obtain ⟨hqueue, -, hexpiring, hservice⟩ := (h.kept t nofun).idle hactive
  have hself : (Timers.timerInit s t).timer t =
      { s.timer t with active := false, marked := false, readd := false, ref := 0 } := set_self _
  have hleft : Sound (Timers.timerInit s t) (some t) := (h.leave hqueue).set _
  apply hleft.close
  · refine ⟨?_, ?_, ?_, ?_, ?_, ?_, ?_, ?_⟩
    · rw [hself]
      exact ⟨nofun, fun hc => absurd (hc.resolve_right nofun) hqueue⟩
    · rw [hself]
      exact ⟨nofun, fun hc => absurd hc hexpiring⟩
    · rw [hself]
      nofun
    · rw [hself]
      nofun
    · rw [hself]
      nofun
    · rw [hself]
      nofun
    · rw [hself]
      exact fun hc => absurd (hc.resolve_right nofun) hqueue
    · rw [hself]
      exact hservice
  · rw [hself]
    nofun

lemma Sound.timerAdd (h : Sound s none) (hqueue : t ∉ s.queue) (hmarked : (s.timer t).marked = false)
    (type : TimerType) (value : ℤ) : ∃ u, timerAdd s t type value = some u ∧ Sound u none := by
  have hkept := h.kept t nofun
  have hactive : (s.timer t).active = false := Bool.eq_false_iff.mpr fun hc =>
    (hkept.active.mp hc).elim hqueue fun hm => by
      rw [hmarked] at hm
      cases hm
  have hreadd : (s.timer t).readd = false := Bool.eq_false_iff.mpr fun hc => by
    have hm := hkept.readd hc
    rw [hmarked] at hm
    cases hm
  obtain ⟨-, -, hexpiring, hservice⟩ := hkept.idle hactive
  have harm := (h.leave hqueue).arm
  obtain ⟨hlt, hfresh, hown⟩ := (h.leave hqueue).arm_fresh
  simp only [Timers.timerAdd, hmarked, hactive, hreadd, Bool.or_self, Bool.false_eq_true, if_false]
  apply ((harm.set _).begin).enqueue_new
  · refine ⟨?_, ?_, hlt, fun _ => hfresh, fun x hx hactive' => ?_, ?_⟩
    · simp only [set_self]
    · simp only [set_self]
    · simp only [set_of_ne hx] at hactive'
      exact hown x hx hactive'
    · rw [count_append, List.count_singleton_self]
      exact congrArg (· + 1) hservice
  · simp only [set_self]
  · simp only [set_self]
  · exact hexpiring

lemma Sound.timerDel (h : Sound s none) (hactive : (s.timer t).active = true) :
    ∃ u, timerDel s t = some u ∧ Sound u none := by
  have hkept := h.kept t nofun
  simp only [Timers.timerDel]
  split
  · rename_i hmarked
    refine ⟨_, rfl, ?_⟩
    have hself : (s.set t { s.timer t with readd := false }).timer t =
      { s.timer t with readd := false } := set_self _
    have hqueue := hkept.off hmarked
    apply ((h.leave hqueue).set _).close
    · refine ⟨?_, ?_, ?_, ?_, ?_, ?_, ?_, ?_⟩
      · rw [hself]
        exact hkept.active
      · rw [hself]
        exact hkept.marked
      · rw [hself]
        exact hkept.off
      · rw [hself]
        nofun
      · rw [hself]
        exact hkept.ref
      · rw [hself]
        exact hkept.arming
      · rw [hself]
        exact fun hc => absurd (hc.resolve_right nofun) hqueue
      · rw [hself]
        exact hkept.service
    · intro _ x hx hactive' e
      rw [set_of_ne hx] at hactive'
      exact hx (h.distinct x t nofun nofun hactive' hactive e)
  · rename_i hunmarked
    have hmarked := Bool.eq_false_iff.mpr hunmarked
    obtain ⟨hexpiring, -, hdue⟩ := h.queued hactive hmarked
    have hleft : Sound (Timers.genDequeue (s.set t { s.timer t with readd := false }) t) (some t) :=
      (h.genDequeue t).set _
    have hself : (Timers.genDequeue (s.set t { s.timer t with readd := false }) t).timer t =
      { s.timer t with readd := false } := set_self _
    apply hleft.destroy
    · rw [hself]
      exact hactive
    · rw [hself]
      exact hmarked
    · rw [hself]
    · exact hexpiring
    · rw [hself]
      exact hdue.ref
    · exact hdue.service

lemma Sound.timerChg (h : Sound s none) (hactive : (s.timer t).active = true) (type : TimerType)
    (value : ℤ) : ∃ u, timerChg s t type value = some u ∧ Sound u none := by
  have hkept := h.kept t nofun
  simp only [Timers.timerChg]
  split
  · rename_i hmarked
    refine ⟨_, rfl, ?_⟩
    have hqueue := hkept.off hmarked
    obtain ⟨hlt, hfresh, hown⟩ := (h.leave hqueue).arm_fresh
    have hself : ((s.arm t).set t
        { s.timer t with type := type, value := value, expire := 0, readd := true }).timer t =
      { s.timer t with type := type, value := value, expire := 0, readd := true } := set_self _
    apply ((h.leave hqueue).arm.set _).close
    · refine ⟨?_, ?_, ?_, ?_, ?_, ?_, ?_, ?_⟩
      · rw [hself]
        exact hkept.active
      · rw [hself]
        exact hkept.marked
      · rw [hself]
        exact hkept.off
      · rw [hself]
        exact fun _ => hmarked
      · rw [hself]
        exact hkept.ref
      · exact fun _ => hlt
      · exact fun _ _ => hfresh
      · rw [hself]
        exact hkept.service
    · intro _ x hx hactive'
      rw [set_of_ne hx] at hactive'
      exact hown x hx hactive'
  · rename_i hunmarked
    have hmarked := Bool.eq_false_iff.mpr hunmarked
    obtain ⟨hexpiring, hreadd, hdue⟩ := h.queued hactive hmarked
    obtain ⟨hlt, hfresh, hown⟩ := (h.genDequeue t).arm_fresh
    obtain ⟨v, hv⟩ : ∃ v, v = Timers.genDequeue ((s.arm t).set t
      { s.timer t with type := type, value := value, expire := 0 }) t := ⟨_, rfl⟩
    have hleft : Sound v (some t) := by
      rw [hv]
      exact (h.genDequeue t).arm.set _
    have hself : v.timer t = { s.timer t with type := type, value := value, expire := 0 } := by
      rw [hv]
      exact set_self _
    have hother : ∀ x, x ≠ t → v.timer x = s.timer x := fun x hx => by
      rw [hv]
      exact set_of_ne hx _
    rw [← hv]
    apply hleft.enqueue_new
    · refine ⟨?_, ?_, ?_, ?_, fun x hx hactive' => ?_, ?_⟩
      · rw [hself]
        exact hactive
      · rw [hself]
        exact hdue.ref
      · rw [hv]
        exact hlt
      · rw [hv]
        exact fun _ => hfresh
      · rw [hother x hx] at hactive'
        rw [hv]
        exact hown x hx hactive'
      · rw [hv]
        exact hdue.service
    · rw [hself]
      exact hmarked
    · rw [hself]
      exact hreadd
    · rw [hv]
      exact hexpiring

/-- **`timer_run` goes through its loop once**. -/
theorem Sound.timerRun (h : Sound s none) (hrunning : s.running = true) :
    ∃ u, timerRun s = some u ∧ Sound u none := by
  have htail : s.stack.tail.filterMap Frame.expiring = s.expiring := by
    simp only [State.running, decide_eq_true_eq] at hrunning
    obtain ⟨stack, hstack⟩ := List.head?_eq_some_iff.mp hrunning
    rw [State.expiring, hstack]
    rfl
  rw [Timers.timerRun]
  split
  · exact ⟨_, rfl, h.frames htail⟩
  rename_i t queue hqueue
  have hin : t ∈ s.queue := hqueue ▸ mem_cons_self
  have hkept := h.kept t nofun
  have hactive := hkept.active.mpr (.inl hin)
  have hmarked : (s.timer t).marked = false := Bool.eq_false_iff.mpr fun hc => hkept.off hc hin
  obtain ⟨hexpiring, hreadd, hdue⟩ := h.queued hactive hmarked
  dsimp only
  split
  · exact ⟨_, rfl, h.frames htail⟩
  rename_i hnow
  obtain ⟨v, hv⟩ : ∃ v, v = (Timers.genDequeue s t).set t { s.timer t with
    marked := true, readd := (s.timer t).readd || decide ((s.timer t).type = .periodic) } := ⟨_, rfl⟩
  have hself : v.timer t = { s.timer t with
      marked := true, readd := (s.timer t).readd || decide ((s.timer t).type = .periodic) } := by
    rw [hv]
    exact set_self _
  have hother : ∀ x, x ≠ t → v.timer x = s.timer x := fun x hx => by
    rw [hv]
    exact set_of_ne hx _
  have hleft : Sound v (some t) := by
    rw [hv]
    exact (h.genDequeue t).set _
  rw [← hv]
  apply hleft.expire
  · refine ⟨?_, ?_, ?_, ?_, fun x hx hactive' => ?_, ?_⟩
    · rw [hself]
      exact hactive
    · rw [hself]
      exact hdue.ref
    · rw [hv]
      exact hdue.arming
    · rw [hself, hv]
      exact hdue.fresh
    · rw [hother x hx] at hactive'
      rw [hv]
      exact hdue.own x hx hactive'
    · rw [hv]
      exact hdue.service
  · rw [hself]
  · rw [hself, hreadd]
    simp only [Bool.false_or, decide_eq_true_eq, imp_self]
  · rw [hv]
    exact hexpiring
  · rw [hself, hv]
    exact not_lt.mp hnow

lemma Sound.timerRan (h : Sound s none) {stack : List Frame} (hstack : s.stack = .event .expire t :: stack) :
    ∃ u, timerRan { s with stack := stack } t = some u ∧ Sound u none := by
  have hexpiring : s.expiring = t :: stack.filterMap Frame.expiring := by
    rw [State.expiring, hstack]
    rfl
  have hkept := h.kept t nofun
  have hmarked : (s.timer t).marked = true := hkept.marked.mpr (hexpiring ▸ mem_cons_self)
  have hactive := hkept.active.mpr (.inr hmarked)
  have href : (s.timer t).ref = 1 := by
    rw [hkept.ref hactive, hmarked]
    rfl
  obtain ⟨hnot, hnodup⟩ := nodup_cons.mp (hexpiring ▸ h.once)
  have hframes : Sound { s with stack := stack } (some t) := (h.leave (hkept.off hmarked)).stack
    (fun x hx => by rw [hexpiring, mem_cons, or_iff_right hx]) hnodup
  have hdrop := hframes.genRefDec (href ▸ Nat.one_pos)
  obtain ⟨v, hv⟩ : ∃ v, v = (Timers.genRefDec { s with stack := stack } t).set t
    { (Timers.genRefDec { s with stack := stack } t).timer t with marked := false } := ⟨_, rfl⟩
  have hself : v.timer t = { s.timer t with ref := 0, marked := false } := by
    rw [hv, set_self]
    simp only [Timers.genRefDec, set_self, href]
    rfl
  have hother : ∀ x, x ≠ t → v.timer x = s.timer x := fun x hx => by
    rw [hv, set_of_ne hx]
    exact set_of_ne hx _
  have hleft : Sound v (some t) := by
    rw [hv]
    exact hdrop.set _
  have hservice : v.begun.count t = v.destroys t + 1 := by
    have hcount := hkept.service
    rw [hactive] at hcount
    rw [hv]
    exact hcount
  have hout : t ∉ v.expiring := by
    rw [hv]
    exact hnot
  simp only [Timers.timerRan, ← hv]
  split
  · rename_i hreadd
    rw [hself] at hreadd
    have hdue : Due v t := by
      refine ⟨?_, ?_, ?_, ?_, fun x hx hactive' e => ?_, hservice⟩
      · rw [hself]
        exact hactive
      · rw [hself]
      · rw [hv]
        exact hkept.arming hactive
      · rw [hself, hv]
        exact hkept.ready (.inr hreadd)
      · rw [hother x hx] at hactive'
        rw [hv] at e
        exact hx (h.distinct x t nofun nofun hactive' hactive e)
    obtain ⟨u, hu, hsound⟩ := hleft.enqueue hdue (by rw [hself]) hout
    exact ⟨_, by rw [hu, Option.map_some], hsound⟩
  · rename_i hreadd
    apply hleft.destroy
    · rw [hself]
      exact hactive
    · rw [hself]
    · exact Bool.eq_false_iff.mpr hreadd
    · exact hout
    · rw [hself]
    · exact hservice

/-- A timer that is called is not added. `ircd_events.c` `timer_add`. -/
def State.fits (s : State) : Event → Bool
  | .add t _ _ => !(s.timer t).marked
  | _ => true

lemma Sound.step (h : Sound s none) {e : Event} (hallowed : s.allowed e = true) (hfits : s.fits e = true) :
    ∃ u, s.step e = some u ∧ Sound u none := by
  cases e with
  | tick now =>
    exact ⟨_, rfl, { h with
      kept := fun x hx => (h.kept x hx).congr rfl Iff.rfl Iff.rfl rfl (Nat.le_refl _) (fun _ hin => hin)
        rfl rfl }⟩
  | init t =>
    simp only [State.allowed, Bool.and_eq_true, Bool.not_eq_true'] at hallowed
    exact ⟨_, rfl, h.timerInit hallowed.2⟩
  | add t type value =>
    simp only [State.allowed, Bool.and_eq_true, decide_eq_true_eq] at hallowed
    simp only [State.fits, Bool.not_eq_true'] at hfits
    exact h.timerAdd hallowed.2 hfits type value
  | del t =>
    simp only [State.allowed, Bool.and_eq_true] at hallowed
    exact h.timerDel hallowed.2
  | chg t type value =>
    simp only [State.allowed, Bool.and_eq_true] at hallowed
    exact h.timerChg hallowed.1.2 type value
  | run => exact ⟨_, rfl, h.frames rfl⟩
  | go => exact h.timerRun hallowed
  | ret =>
    simp only [State.allowed, State.running, Bool.and_eq_true, Bool.not_eq_true', decide_eq_false_iff_not]
      at hallowed
    simp only [State.step]
    split
    · rename_i t stack hstack
      exact h.timerRan hstack
    · rename_i hnone
      refine ⟨_, rfl, h.frames ?_⟩
      obtain ⟨frame, stack, hstack⟩ : ∃ frame stack, s.stack = frame :: stack :=
        List.exists_cons_of_ne_nil fun e => by simp [e] at hallowed
      rw [State.expiring, hstack]
      cases frame with
      | run => rfl
      | event type t =>
        cases type with
        | expire => exact absurd hstack (hnone t stack)
        | destroy => rfl

end Sound

/-- **The discipline of the timers**: when no timer is added while it is called, no assertion fails; the queue
is in the order of the expiries, and of the insertions where they are the same; no timer is called before its
expiry; no arming of a one-shot timer is called twice; a timer that is neither queued nor called was destroyed
as often as it entered service, any other once less; no timer is destroyed while a reference is held; and no
reference count goes below zero. -/
theorem timers_disciplined (currentTime : ℤ) (timer : ℕ → Timer) (es : List Event)
    (hmeets : Runs.Meets State.step (fun s e => s.allowed e && s.fits e) (State.start currentTime timer) es) :
    ∃ s, Runs.run State.step (State.start currentTime timer) es = some s ∧
      s.queue.Pairwise (Stable.Before (fun t => (s.timer t).expire) s.stamp) ∧
      (∀ f ∈ s.fired, f.expire ≤ f.now) ∧
      ((s.fired.filter fun f => f.type ≠ .periodic).map Fire.arming).Nodup ∧
      (∀ t, s.begun.count t = (s.destroyed.map Prod.fst).count t +
        if t ∈ s.queue ∨ .event .expire t ∈ s.stack then 1 else 0) ∧
      (∀ d ∈ s.destroyed, d.2 = 0) ∧ ∀ r ∈ s.dropped, 0 < r := by
  have hstart : Sound (State.start currentTime timer) none :=
    ⟨fun t _ => ⟨⟨nofun, fun hc => hc.elim nofun nofun⟩, ⟨nofun, nofun⟩, nofun, nofun, nofun, nofun,
        fun hc => hc.elim nofun nofun, rfl⟩,
      nofun, nodup_nil, List.Pairwise.nil, nofun, nodup_nil, nofun, nodup_nil, nofun, nofun,
      nofun, nofun⟩
  obtain ⟨s, hrun, hsound⟩ := Runs.Meets.run (P := fun s => Sound s none)
    (fun s e h hcond => by
      rw [Bool.and_eq_true] at hcond
      exact h.step hcond.1 hcond.2) es hstart hmeets
  refine ⟨s, hrun, hsound.sorted, hsound.early, hsound.shots, fun t => ?_, hsound.clean, hsound.dropped⟩
  have hkept := hsound.kept t nofun
  have hcalled : (s.timer t).marked = true ↔ .event .expire t ∈ s.stack := by
    rw [hkept.marked, State.expiring, List.mem_filterMap]
    constructor
    · rintro ⟨frame, hin, hframe⟩
      cases frame with
      | run => cases hframe
      | event type x =>
        cases type with
        | expire => exact some.inj hframe ▸ hin
        | destroy => cases hframe
    · exact fun hin => ⟨_, hin, rfl⟩
  rw [hkept.service]
  congr 1
  split
  · rename_i hin
    rw [hkept.active.mpr (hin.imp id hcalled.mpr)]
    rfl
  · rename_i hnone
    rw [Bool.eq_false_iff.mpr fun hc => hnone ((hkept.active.mp hc).imp id hcalled.mp)]
    rfl

/-- A one-shot timer is changed while it is called, the timers are run within, a periodic timer is deleted
while it is called, and a queued one is deleted by another. -/
theorem timers_disciplined_example : ∃ s,
    Runs.run State.step (State.start 10 fun _ => ⟨.absolute, 0, 0, false, false, false, 0⟩) [.add 1 .absolute 5,
    .add 2 .periodic 0, .add 3 .relative 7, .run, .go, .chg 1 .relative 20, .run, .go, .del 2, .del 3, .ret,
    .ret, .ret, .go, .ret, .go, .tick 40, .run, .go, .ret, .ret] = some s ∧ ∀ r ∈ s.dropped, 0 < r := by
  obtain ⟨s, hrun, -, -, -, -, -, hdropped⟩ := timers_disciplined 10
    (fun _ => ⟨.absolute, 0, 0, false, false, false, 0⟩)
    [.add 1 .absolute 5, .add 2 .periodic 0, .add 3 .relative 7, .run, .go, .chg 1 .relative 20, .run,
      .go, .del 2, .del 3, .ret, .ret, .ret, .go, .ret, .go, .tick 40, .run, .go, .ret, .ret]
    (by decide +kernel)
  exact ⟨s, hrun, hdropped⟩

/-- **A reference count goes below zero**: a timer is added again while it is called. -/
theorem ref_below_zero : ∃ (es : List Event) (s : State), Runs.Meets State.step State.allowed
      (State.start 10 fun _ => ⟨.absolute, 0, 0, false, false, false, 0⟩) es ∧
    Runs.run State.step (State.start 10 fun _ => ⟨.absolute, 0, 0, false, false, false, 0⟩) es = some s ∧
    0 ∈ s.dropped ∧ (s.timer 1).ref = 2 ^ 32 - 1 :=
  ⟨[.add 1 .absolute 5, .run, .go, .add 1 .absolute 50, .ret], _, by decide +kernel, rfl, by decide +kernel,
    by decide +kernel⟩

end Nefarious.Timers
