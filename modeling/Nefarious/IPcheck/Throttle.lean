import Nefarious.IPcheck.Clones
import Mathlib.Data.List.Chain

/-!
# Throttling and expiry

The registry keeps times modulo 2^16, so that the time since the last one that it recorded comes out
65536 seconds too short for each multiple of 65536 between that one and now; and it records the time
when the last client of a class exits in the place of the last attempt.
-/

namespace Nefarious.IPcheck

open Function (update)
open Option (some.inj some_ne_none)

/-! ## What a step should do -/

/-- The number of attempts, of which the first is the newest, that came each within the period of the
one before. `IPcheck.c` `ip_registry_check_local`. -/
def streak (period : ℤ) : List ℕ → ℕ
  | [] => 0
  | [_] => 1
  | t :: u :: l => if (t : ℤ) - u ≤ period then streak period (u :: l) + 1 else 1

/-- The attempts came each within the period of the one before. -/
def Close (period : ℤ) (l : List ℕ) : Prop := l.IsChain (fun t u => (t : ℤ) - u ≤ period)

lemma streak_le (period : ℤ) : (l : List ℕ) → streak period l ≤ l.length
  | [] => le_rfl
  | [_] => le_rfl
  | t :: u :: l => by
    rw [streak]
    split
    · exact Nat.succ_le_succ (streak_le period (u :: l))
    · exact Nat.succ_le_succ (Nat.zero_le _)

lemma close_streak (period : ℤ) : (l : List ℕ) → Close period (l.take (streak period l))
  | [] => List.isChain_nil
  | [_] => List.isChain_singleton _
  | t :: u :: l => by
    rw [streak]
    split
    case isTrue ht =>
      have ih := close_streak period (u :: l)
      obtain ⟨n, hn⟩ : ∃ n, streak period (u :: l) = n + 1 := by
        cases l with
        | nil => exact ⟨0, rfl⟩
        | cons v l =>
          rw [streak]
          split
          · exact ⟨_, rfl⟩
          · exact ⟨0, rfl⟩
      rw [hn, List.take_succ_cons] at ih ⊢
      rw [List.take_succ_cons]
      exact List.isChain_cons_cons.mpr ⟨ht, ih⟩
    case isFalse => exact List.isChain_singleton _

lemma one_le_streak (period : ℤ) (t : ℕ) (l : List ℕ) : 1 ≤ streak period (t :: l) := by
  cases l with
  | nil => exact le_rfl
  | cons u l =>
    rw [streak]
    split
    · exact Nat.succ_le_succ (Nat.zero_le _)
    · exact le_rfl

variable {conf : IPcheckConf} {since : ℕ}

/-- After an attempt that came more than the period after the one before, the attempts are counted
anew. `IPcheck.c` `ip_registry_check_local`, `ip_registry_check_remote`. -/
def Restarted (conf : IPcheckConf) (s t : Clones) (ip : Addr) : Prop :=
  ∀ a ∈ (s.attempts (ipClass ip)).head?, conf.period < (s.now : ℤ) - a →
    ∃ e, t.entry ip = some e ∧ e.attempts = 1

/-- What a step should do. A local connection is refused for throttling only if at least the limit of
attempts of its class came each within the period of the one before; attempts are counted anew after
a gap; an entry without connections that has been idle for more than 600 seconds is removed.
`IPcheck.c` `ip_registry_check_local`, `ip_registry_expire_entry` -/
def Lawful (conf : IPcheckConf) (since : ℕ) (s : Clones) : Event → Clones → Prop
  | .local ip, t =>
    ((ipRegistryCheckLocal conf since s.now s.registry ip).2.1 = false →
      ∃ n ≤ (t.attempts (ipClass ip)).length, conf.limit ≤ n ∧
        Close conf.period ((t.attempts (ipClass ip)).take n)) ∧
    Restarted conf s t ip
  | .remote ip false, t => inAddrValid ip.groups = true → Restarted conf s t ip
  | .expire, t => ∀ ip e, s.entry ip = some e → e.connected = 0 →
      600 < (s.now : ℤ) - s.last (ipClass ip) → t.entry ip = none
  | _, _ => True

/-! ## When it does -/

/-- The time since `last` is not above the bound, or it still is when 65536 are taken off for each
multiple of 65536 since then. `IPcheck.c` `CONNECTED_SINCE`. -/
def Shown (bound : ℤ) (last now : ℕ) : Prop :=
  bound + 65536 * ((now / 65536 : ℕ) - (last / 65536 : ℕ)) < (now : ℤ) - last

/-- An attempt that is counted rightly: its class has fewer than 65535 connections, and if there is an
entry, the attempt comes within the period of the one before, or the gap is seen since the last time
that was recorded. `IPcheck.c` `ip_registry_check_local`. -/
def Clones.Attempts (conf : IPcheckConf) (s : Clones) (ip : Addr) : Prop :=
  s.full ip = false ∧ (s.entry ip ≠ none → ∀ a ∈ (s.attempts (ipClass ip)).head?,
    (s.now : ℤ) - a ≤ conf.period ∨ Shown conf.period (s.last (ipClass ip)) s.now)

/-- When a step does what it should. `IPcheck.c`. -/
def Clones.Timely (conf : IPcheckConf) (s : Clones) : Event → Prop
  | .local ip => s.Attempts conf ip
  | .remote ip is_burst => is_burst = false → inAddrValid ip.groups = true → s.Attempts conf ip
  | .fail ip _ => ∀ e, s.entry ip = some e → e.attempts ≠ 0
  | .expire => ∀ ip e, s.entry ip = some e → e.connected = 0 →
      (s.now : ℤ) - s.last (ipClass ip) ≤ 600 ∨ Shown 600 (s.last (ipClass ip)) s.now
  | _ => True

/-- The registry's times and attempts are those of the histories. -/
structure Clones.Timed (conf : IPcheckConf) (s : Clones) : Prop where
  ok : s.registry.Ok
  recorded : ∀ k e, s.registry.at k = some e → e.last_connect = NOW (s.last k)
  few : ∀ k e, s.registry.at k = some e → e.attempts.toNat ≤ streak conf.period (s.attempts k)

lemma connectedSince_gt_iff {bound : ℤ} {last now : ℕ} :
    connectedSince now (NOW last) > bound ↔ Shown bound last now := by
  rw [connectedSince, NOW, NOW, Shown]
  omega

lemma countAttempt_le (c : UInt8) : (countAttempt c).toNat ≤ c.toNat + 1 := by
  rw [countAttempt]
  split
  · omega
  · rw [UInt8.toNat_add]
    exact Nat.mod_le _ _

lemma countAttempt_zero : countAttempt 0 = 1 := by decide

section Timed

variable {s t : Clones} {ip : Addr}

lemma Clones.Timed.countAttempt (h : s.Timed conf) (hcond : s.Attempts conf ip)
    {e : IPRegistryEntry} (hat : s.registry.at (ipClass ip) = some e) :
    let c := countAttempt (recentAttempts conf s.now e)
    c.toNat ≤ streak conf.period (s.now :: s.attempts (ipClass ip)) ∧
      ∀ a ∈ (s.attempts (ipClass ip)).head?, conf.period < (s.now : ℤ) - a → c = 1 := by
  have hfew := h.few _ _ hat
  have hrec := h.recorded _ _ hat
  have hentry : s.entry ip ≠ none := by
    rw [Clones.entry, find_eq h.ok, hat]
    exact some_ne_none e
  have hshown : Shown conf.period (s.last (ipClass ip)) s.now → recentAttempts conf s.now e = 0 := by
    intro hs
    rw [recentAttempts, hrec, if_pos (connectedSince_gt_iff.mpr hs)]
  have hcases : recentAttempts conf s.now e = 0 ∨ recentAttempts conf s.now e = e.attempts := by
    rw [recentAttempts]
    split
    · exact .inl rfl
    · exact .inr rfl
  have hone : recentAttempts conf s.now e = 0 →
      (Nefarious.IPcheck.countAttempt (recentAttempts conf s.now e)).toNat ≤
        streak conf.period (s.now :: s.attempts (ipClass ip)) ∧
      ∀ a ∈ (s.attempts (ipClass ip)).head?, conf.period < (s.now : ℤ) - a →
        Nefarious.IPcheck.countAttempt (recentAttempts conf s.now e) = 1 := by
    intro hz
    rw [hz, countAttempt_zero]
    exact ⟨one_le_streak _ _ _, fun _ _ _ => rfl⟩
  cases hl : s.attempts (ipClass ip) with
  | nil =>
    rw [hl] at hfew hone
    refine hone ?_
    rcases hcases with hz | hz
    · exact hz
    · rw [hz, ← UInt8.toNat_inj]
      exact Nat.le_zero.mp hfew
  | cons a l =>
    rcases hcond.2 hentry a (by rw [hl]; rfl) with hgap | hgap
    · refine ⟨(countAttempt_le _).trans ?_, fun b hb hlt => ?_⟩
      · rw [hl] at hfew
        rw [streak, if_pos hgap]
        rcases hcases with hz | hz <;> rw [hz]
        · exact Nat.succ_le_succ (Nat.zero_le _)
        · exact Nat.succ_le_succ hfew
      · obtain rfl : a = b := some.inj hb
        omega
    · rw [hl] at hone
      exact hone (hshown hgap)

lemma attempt_eq (s : Clones) (ip : Addr) : (s.attempt ip).attempts = update s.attempts (ipClass ip)
      (s.now :: s.attempts (ipClass ip)) ∧
    (s.attempt ip).last = update s.last (ipClass ip) s.now := ⟨rfl, rfl⟩

lemma Clones.Timed.sets {o : Option IPRegistryEntry} (h : s.Timed conf)
    (hsets : s.registry.Sets t.registry (ipClass ip) o)
    (hother : ∀ k, k ≠ ipClass ip → t.last k = s.last k ∧ t.attempts k = s.attempts k)
    (hself : ∀ e, o = some e → e.last_connect = NOW (t.last (ipClass ip)) ∧
      e.attempts.toNat ≤ streak conf.period (t.attempts (ipClass ip))) : t.Timed conf := by
  refine ⟨hsets.1, fun k e he => ?_, fun k e he => ?_⟩
  all_goals
    rw [hsets.2] at he
    by_cases hk : k = ipClass ip
    · subst hk
      rw [Function.update_self] at he
      first
      | exact (hself e he).1
      | exact (hself e he).2
    · rw [Function.update_of_ne hk] at he
      first
      | rw [(hother k hk).1]
        exact h.recorded k e he
      | rw [(hother k hk).2]
        exact h.few k e he

lemma Clones.Timed.attempt {e : IPRegistryEntry} (h : s.Timed conf) (hcond : s.Attempts conf ip)
    (hsets : s.registry.Sets t.registry (ipClass ip) (some e)) (hlast : e.last_connect = NOW s.now)
    (hcount : e.attempts = match s.registry.at (ipClass ip) with
      | none => 1
      | some e => Nefarious.IPcheck.countAttempt (recentAttempts conf s.now e))
    (htattempts : t.attempts = (s.attempt ip).attempts) (htlast : t.last = (s.attempt ip).last) :
    t.Timed conf ∧ e.attempts.toNat ≤ streak conf.period (t.attempts (ipClass ip)) ∧
      Restarted conf s t ip := by
  obtain ⟨h1, h2⟩ := attempt_eq s ip
  rw [h1] at htattempts
  rw [h2] at htlast
  have hself : t.attempts (ipClass ip) = s.now :: s.attempts (ipClass ip) := by
    rw [htattempts, Function.update_self]
  have hspec : e.attempts.toNat ≤ streak conf.period (s.now :: s.attempts (ipClass ip)) ∧
      ∀ a ∈ (s.attempts (ipClass ip)).head?, conf.period < (s.now : ℤ) - a → e.attempts = 1 := by
    rw [hcount]
    cases hat : s.registry.at (ipClass ip) with
    | none => exact ⟨one_le_streak _ _ _, fun _ _ _ => rfl⟩
    | some e' => exact h.countAttempt hcond hat
  have htimed : t.Timed conf := by
    refine h.sets hsets (fun k hk => ?_) fun e' he' => ?_
    · rw [htattempts, htlast, Function.update_of_ne hk, Function.update_of_ne hk]
      exact ⟨rfl, rfl⟩
    · obtain rfl := some.inj he'
      rw [htlast, Function.update_self, hself]
      exact ⟨hlast, hspec.1⟩
  refine ⟨htimed, by rw [hself]; exact hspec.1, fun a ha hgap => ⟨e, ?_, hspec.2 a ha hgap⟩⟩
  rw [Clones.entry, find_eq htimed.ok, hsets.2, Function.update_self]

lemma add_one_ne_zero_of_not_full (h : s.registry.Ok) (hfull : s.full ip = false) {e : IPRegistryEntry}
    (hat : s.registry.at (ipClass ip) = some e) : e.connected + 1 ≠ 0 := by
  rw [Clones.full, Clones.entry, find_eq h, hat] at hfull
  simpa using hfull

lemma Clones.Timed.local (h : s.Timed conf) (hcond : s.Attempts conf ip)
    (hs : s.step conf since (.local ip) = some t) : t.Timed conf ∧ Lawful conf since s (.local ip) t := by
  rw [Clones.step] at hs
  simp only [hcond.1, Bool.false_eq_true, if_false] at hs
  cases hs
  obtain ⟨hsets, hres⟩ := checkLocal_sets h.ok conf since s.now ip
  -- what becomes of the entry, and that only many attempts are refused
  have hspec : let res := onLocal conf since s.now ip (s.registry.at (ipClass ip))
      res.1.last_connect = NOW s.now ∧
      (res.1.attempts = match s.registry.at (ipClass ip) with
        | none => 1
        | some e => Nefarious.IPcheck.countAttempt (recentAttempts conf s.now e)) ∧
      (res.2.1 = false → conf.limit ≤ res.1.attempts.toNat) := by
    cases hat : s.registry.at (ipClass ip) with
    | none => exact ⟨rfl, rfl, fun hf => by cases hf⟩
    | some e =>
      obtain ⟨-, hlast, hatt, -, hlimit⟩ := checkLocalEntry_spec conf since s.now
        (add_one_ne_zero_of_not_full h.ok hcond.1 hat)
      exact ⟨hlast, hatt, hlimit⟩
  obtain ⟨htimed, hfew, hrestart⟩ := h.attempt hcond (t := { s.attempt ip with
    registry := (ipRegistryCheckLocal conf since s.now s.registry ip).1
    live := if (ipRegistryCheckLocal conf since s.now s.registry ip).2.1 then
      ip :: (s.attempt ip).live else (s.attempt ip).live }) hsets hspec.1 hspec.2.1 rfl rfl
  refine ⟨htimed, fun hrefused => ⟨_, streak_le conf.period _, ?_, close_streak conf.period _⟩,
    hrestart⟩
  rw [hres] at hrefused
  exact (hspec.2.2 hrefused).trans (Int.ofNat_le.mpr hfew)

lemma Clones.Timed.remoteAttempt (h : s.Timed conf) (hcond : s.Attempts conf ip)
    (hvalid : inAddrValid ip.groups = true)
    (hs : s.step conf since (.remote ip false) = some t) : t.Timed conf ∧ Restarted conf s t ip := by
  rw [Clones.step, Clones.remote] at hs
  simp only [hvalid, hcond.1, Bool.true_eq_false, Bool.false_eq_true, or_self, if_false] at hs
  cases hs
  obtain ⟨hsets, -⟩ := checkRemote_sets h.ok conf s.now false hvalid
  have hspec : let res := onRemote conf s.now false ip (s.registry.at (ipClass ip))
      res.1.last_connect = NOW s.now ∧
      (res.1.attempts = match s.registry.at (ipClass ip) with
        | none => 1
        | some e => Nefarious.IPcheck.countAttempt (recentAttempts conf s.now e)) := by
    cases hat : s.registry.at (ipClass ip) with
    | none => exact ⟨rfl, rfl⟩
    | some e =>
      obtain ⟨-, -, -, hlast, hatt⟩ := checkRemoteEntry_spec conf s.now false
        (add_one_ne_zero_of_not_full h.ok hcond.1 hat)
      exact ⟨hlast, hatt⟩
  obtain ⟨htimed, -, hrestart⟩ := h.attempt hcond (t := { s.attempt ip with
    registry := (ipRegistryCheckRemote conf s.now s.registry ip false).1
    live := if (ipRegistryCheckRemote conf s.now s.registry ip false).2 then
      ip :: (s.attempt ip).live else (s.attempt ip).live }) hsets hspec.1 hspec.2 rfl rfl
  exact ⟨htimed, hrestart⟩

lemma Clones.Timed.remoteBurst (h : s.Timed conf) (hvalid : inAddrValid ip.groups = true)
    (hs : s.step conf since (.remote ip true) = some t) : t.Timed conf := by
  obtain ⟨hsets, -⟩ := checkRemote_sets h.ok conf s.now true hvalid
  rw [Clones.step, Clones.remote] at hs
  cases hat : s.registry.at (ipClass ip) with
  | none =>
    have hentry : s.entry ip = none := by rw [Clones.entry, find_eq h.ok, hat]
    simp only [hvalid, Clones.full, hentry, Option.any_none, Bool.true_eq_false,
      Bool.false_eq_true, or_self, if_false, if_true, Option.isNone_none] at hs
    cases hs
    rw [hat] at hsets
    refine h.sets hsets (fun k hk => ⟨Function.update_of_ne hk .., rfl⟩) fun e he => ?_
    obtain rfl := some.inj he
    refine ⟨?_, Nat.zero_le _⟩
    rw [show (s.touch ip).last = update s.last (ipClass ip) s.now from rfl, Function.update_self]
    rfl
  | some e =>
    have hentry : s.entry ip = some e := by rw [Clones.entry, find_eq h.ok, hat]
    have hghost : ∀ p : Prop, [Decidable p] → (if p then s else
        if true = true then (if (s.entry ip).isNone then s.touch ip else s) else s.attempt ip) = s := by
      intro p _
      rw [hentry, if_pos rfl, Option.isNone_some, if_neg Bool.false_ne_true, ite_self]
    rw [hghost] at hs
    cases hs
    rw [hat] at hsets
    refine h.sets hsets (fun _ _ => ⟨rfl, rfl⟩) fun e' he' => ?_
    obtain rfl := some.inj he'
    have hfew := h.few _ e hat
    by_cases hc : e.connected + 1 = 0
    · have hsame : onRemote conf s.now true ip (some e) = ({ e with connected := e.connected + 1 }, false) := by
        rw [onRemote, checkRemoteEntry, if_pos hc]
      rw [hsame]
      exact ⟨h.recorded _ e hat, hfew⟩
    · obtain ⟨-, -, -, hlast, hatt⟩ := checkRemoteEntry_spec conf s.now true hc
      rw [onRemote, hlast, hatt, if_pos rfl, if_pos rfl]
      refine ⟨h.recorded _ e hat, ?_⟩
      rw [recentAttempts]
      split
      · exact Nat.zero_le _
      · exact hfew

lemma Clones.Timed.remote {is_burst : Bool} (h : s.Timed conf) (hcond : s.Timely conf (.remote ip is_burst))
    (hs : s.step conf since (.remote ip is_burst) = some t) :
    t.Timed conf ∧ Lawful conf since s (.remote ip is_burst) t := by
  by_cases hvalid : inAddrValid ip.groups = true
  · cases is_burst with
    | true => exact ⟨h.remoteBurst hvalid hs, trivial⟩
    | false =>
      obtain ⟨htimed, hrestart⟩ := h.remoteAttempt (hcond rfl hvalid) hvalid hs
      exact ⟨htimed, fun _ => hrestart⟩
  · have hinvalid : inAddrValid ip.groups = false := by simpa using hvalid
    rw [Clones.step, Clones.remote, if_pos (Or.inl hinvalid), ipRegistryCheckRemote, if_pos hinvalid] at hs
    cases hs
    refine ⟨⟨h.ok, h.recorded, h.few⟩, ?_⟩
    cases is_burst with
    | true => trivial
    | false => exact fun hv => absurd hv hvalid

lemma Clones.Timed.fail {disconnect : Bool} (h : s.Timed conf)
    (hcond : ∀ e, s.entry ip = some e → e.attempts ≠ 0)
    (hs : s.step conf since (.fail ip disconnect) = some t) : t.Timed conf := by
  have hsets := connectFail_sets h.ok ip disconnect
  obtain ⟨ht, hta, htl⟩ : t.registry = ipRegistryConnectFail s.registry ip disconnect ∧
      t.attempts = s.attempts ∧ t.last = s.last := by
    rw [Clones.step] at hs
    split at hs
    · split at hs
      · cases hs
        exact ⟨rfl, rfl, rfl⟩
      · cases hs
    · cases hs
      exact ⟨rfl, rfl, rfl⟩
  rw [← ht] at hsets
  refine h.sets hsets (fun k _ => by rw [hta, htl]; exact ⟨rfl, rfl⟩) fun e he => ?_
  obtain ⟨e₀, hat, rfl⟩ := Option.map_eq_some_iff.mp he
  have hne := hcond e₀ (by rw [Clones.entry, find_eq h.ok, hat])
  have hle := (connectFailEntry_attempts disconnect hne).2
  rw [hta, htl]
  exact ⟨h.recorded _ e₀ hat, (UInt8.le_iff_toNat_le.mp hle).trans (h.few _ e₀ hat)⟩

lemma Clones.Timed.disconnect {cptr : Option LocalClient} (h : s.Timed conf)
    (hs : s.step conf since (.disconnect ip cptr) = some t) : t.Timed conf := by
  rw [Clones.step] at hs
  split at hs
  case isFalse => cases hs
  case isTrue hip =>
    obtain ⟨r, hr, hs⟩ := Option.bind_eq_some_iff.mp hs
    by_cases hvalid : inAddrValid ip.groups = true
    · obtain ⟨e, hat, hsets⟩ := disconnect_sets h.ok hvalid hr
      obtain ⟨-, -, hlast, hatt⟩ := disconnectEntry_spec conf s.now cptr e
      have hentry : s.entry ip = some e := by rw [Clones.entry, find_eq h.ok, hat]
      simp only [hvalid, hentry, Option.any_some, true_and, decide_eq_true_eq] at hs
      have hfew : (disconnectEntry conf s.now cptr e).attempts.toNat ≤
          streak conf.period (s.attempts (ipClass ip)) := by
        rcases hatt with ha | ha <;> rw [ha]
        · exact h.few _ e hat
        · exact Nat.zero_le _
      split at hs
      case isTrue hz =>
        cases hs
        refine h.sets hsets (fun k hk => ⟨Function.update_of_ne hk .., rfl⟩) fun e' he' => ?_
        obtain rfl := some.inj he'
        rw [hlast, if_pos hz]
        refine ⟨?_, hfew⟩
        rw [show (s.touch ip).last = update s.last (ipClass ip) s.now from rfl, Function.update_self]
      case isFalse hz =>
        cases hs
        refine h.sets hsets (fun _ _ => ⟨rfl, rfl⟩) fun e' he' => ?_
        obtain rfl := some.inj he'
        rw [hlast, if_neg hz]
        exact ⟨h.recorded _ e hat, hfew⟩
    · rw [ipRegistryDisconnect, if_pos (by simpa using hvalid)] at hr
      cases hr
      simp only [hvalid, Bool.false_eq_true, false_and, if_false] at hs
      cases hs
      exact ⟨h.ok, h.recorded, h.few⟩

lemma Clones.Timed.expire (h : s.Timed conf) (hcond : s.Timely conf .expire)
    (hs : s.step conf since .expire = some t) : t.Timed conf ∧ Lawful conf since s .expire t := by
  cases hs
  obtain ⟨hok, hat⟩ := expire_at h.ok s.now
  have hold : ∀ k e, (ipRegistryExpire s.now s.registry).at k = some e →
      ∃ e₀, s.registry.at k = some e₀ ∧ e.last_connect = e₀.last_connect ∧ e.attempts = e₀.attempts := by
    intro k e he
    rw [hat] at he
    obtain ⟨e₀, he₀, he⟩ := Option.bind_eq_some_iff.mp he
    refine ⟨e₀, he₀, ?_⟩
    split at he
    · rw [ipRegistryExpireEntry] at he
      split at he
      · cases he
      · split at he <;> cases he <;> exact ⟨rfl, rfl⟩
    · cases he
      exact ⟨rfl, rfl⟩
  refine ⟨⟨hok, fun k e he => ?_, fun k e he => ?_⟩, fun ip e he hzero hidle => ?_⟩
  · obtain ⟨e₀, he₀, hl, -⟩ := hold k e he
    rw [hl]
    exact h.recorded k e₀ he₀
  · obtain ⟨e₀, he₀, -, ha⟩ := hold k e he
    rw [ha]
    exact h.few k e₀ he₀
  · have hshown : Shown 600 (s.last (ipClass ip)) s.now :=
      (hcond ip e he hzero).resolve_left (not_le.mpr hidle)
    rw [Clones.entry, find_eq h.ok] at he
    have hrec := h.recorded _ e he
    rw [Clones.entry, find_eq hok, hat, he, Option.bind_some, if_pos hzero, ipRegistryExpireEntry,
      hrec, if_pos (connectedSince_gt_iff.mpr hshown)]

lemma Clones.Timed.step (h : s.Timed conf) : (e : Event) → s.Timely conf e →
    s.step conf since e = some t → t.Timed conf ∧ Lawful conf since s e t
  | .tick now, _, hs => by
    rw [Clones.step] at hs
    split at hs
    · cases hs
      exact ⟨⟨h.ok, h.recorded, h.few⟩, trivial⟩
    · cases hs
  | .local _, hcond, hs => h.local hcond hs
  | .remote .., hcond, hs => h.remote hcond hs
  | .fail .., hcond, hs => ⟨h.fail hcond hs, trivial⟩
  | .disconnect .., _, hs => ⟨h.disconnect hs, trivial⟩
  | .expire, hcond, hs => h.expire hcond hs

lemma Clones.Timed.init (now : ℕ) : (Clones.init now).Timed conf :=
  ⟨⟨fun _ _ h => absurd h List.not_mem_nil, fun _ => List.nodup_nil⟩,
    fun _ _ h => absurd h (some_ne_none _).symm, fun _ _ h => absurd h (some_ne_none _).symm⟩

/-- **The law of the throttle.** In every run whose steps are timely, every step is lawful. -/
theorem throttle_law {now : ℕ} {es : List Event} {e : Event}
    (hmeets : (Clones.init now).Meets conf since (Clones.Timely conf) es)
    (hrun : (Clones.init now).run conf since es = some s) (hcond : s.Timely conf e)
    (hstep : s.step conf since e = some t) : Lawful conf since s e t := by
  have h : s.Timed conf := Clones.Meets.induction
    (fun _ e _ h hcond hs => (h.step e hcond hs).1) es (Clones.Timed.init now) hmeets hrun
  exact (h.step e hcond hstep).2

end Timed

theorem throttle_law_example : ∃ s t, (Clones.init 0).run defaultConf 0 [.local sampleIp, .tick 100] = some s ∧
    s.step defaultConf 0 (.local sampleIp) = some t ∧ Lawful defaultConf 0 s (.local sampleIp) t := by
  have hmeets : (Clones.init 0).Meets defaultConf 0 (Clones.Timely defaultConf)
      [.local sampleIp, .tick 100] := by
    refine ⟨⟨by decide, fun _ a ha => by cases ha⟩, fun t ht => ?_⟩
    cases ht
    exact ⟨trivial, fun _ _ => trivial⟩
  refine ⟨_, _, rfl, rfl, throttle_law hmeets rfl ⟨by decide, fun _ a ha => Or.inr ?_⟩ rfl⟩
  show (40 : ℤ) + 65536 * ((100 / 65536 : ℕ) - (0 / 65536 : ℕ)) < (100 : ℕ) - (0 : ℕ)
  decide

/-- Three connections, and another one 65536 seconds later, which is refused: the attempts are three
and one, but the registry sees no time between them. -/
theorem gap_wrapped : ∃ s t, (Clones.init 1000).run defaultConf 0 [.local sampleIp, .local sampleIp,
    .local sampleIp, .tick 66536] = some s ∧ s.step defaultConf 0 (.local sampleIp) = some t ∧
    t.attempts (ipClass sampleIp) = [66536, 1000, 1000, 1000] ∧
    ¬Lawful defaultConf 0 s (.local sampleIp) t := by
  obtain ⟨s, t, hs, ht, hattempts, hrefused⟩ : ∃ s t, (Clones.init 1000).run defaultConf 0
        [.local sampleIp, .local sampleIp, .local sampleIp, .tick 66536] = some s ∧
      s.step defaultConf 0 (.local sampleIp) = some t ∧
      t.attempts (ipClass sampleIp) = [66536, 1000, 1000, 1000] ∧
      (ipRegistryCheckLocal defaultConf 0 s.now s.registry sampleIp).2.1 = false :=
    ⟨_, _, rfl, rfl, by decide, by decide⟩
  refine ⟨s, t, hs, ht, hattempts, ?_⟩
  rintro ⟨hlaw, -⟩
  obtain ⟨n, hn, hlimit, hclose⟩ := hlaw hrefused
  rw [hattempts] at hn hclose
  have hn : n ≤ 4 := hn
  have hlimit : (4 : ℤ) ≤ n := hlimit
  obtain rfl : n = 4 := by omega
  rw [Close, List.take_of_length_le (by decide)] at hclose
  exact absurd hclose (by decide)

end Nefarious.IPcheck
