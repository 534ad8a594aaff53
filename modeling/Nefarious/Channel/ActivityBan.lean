import Nefarious.Channel.BanMask.Extban

/-!
# Bans of an activity

A ban such as `~q:nick!user@host` keeps from speaking whom `nick!user@host` would keep out.
-/

namespace Nefarious.BanMask

open BanCache Crule

lemma Canonical.at_sign {m : Str} (h : Canonical m) : '@' ∈ m ∧ (beforeLast '@' m).length ≠ 0 := by
  obtain ⟨nick, user, host, rfl, hparts, -⟩ := h
  have hsplit : maskText nick user host = (nick ++ '!' :: user) ++ '@' :: host := by
    simp [maskText]
  rw [hsplit, beforeLast_append hparts.hostAt]
  refine ⟨by simp, ?_⟩
  rw [List.length_append, List.length_cons]
  omega

lemma activity_ban {e : Str} {x : Parsed} (hx : parseExtban maxLevel e .start = (1, x))
    (hmask : x.flags.any Flag.isMasktype = false) (hord : (parseExtban maxLevel x.mask .start).1 = 0) :
    (setBanMask e).ban.exception = false ∧ (setBanMask e).ban.ipmask = (setBanMask x.mask).ban.ipmask ∧
      (setBanMask e).ban.extban = some ⟨.quiet ∈ x.flags, .nick ∈ x.flags, .negatemask ∈ x.flags,
        .mask (setBanMask x.mask).ban.nu (setBanMask x.mask).ban.hostmask⟩ ∧
      (setBanMask x.mask).ban.exception = false ∧ (setBanMask x.mask).ban.extban = none := by
  obtain ⟨z, rfl⟩ := parseExtban_finish maxLevel hx
  obtain ⟨hcanon, hnu⟩ := Parsed.canonical_finish hmask
  obtain ⟨y, hy⟩ : ∃ y, y = z.finish := ⟨_, rfl⟩
  rw [← hy] at hx hmask hord hcanon hnu ⊢
  obtain ⟨hat, hlen⟩ := hcanon.at_sign
  have htake : y.mask.take (banstrSize - 1) = y.mask :=
    List.take_of_length_le (Nat.le_pred_of_lt hcanon.length_lt)
  -- none of the types of masks comes first
  have hwhat : y.what = .mask (y.mask.take y.nuLen) (y.mask.drop (y.nuLen + 1)) := by
    have hno : ∀ f : Flag, f.isMasktype = true → f ∉ y.flags := by
      intro f hf hmem
      exact Bool.false_ne_true (hmask.symm.trans (List.any_eq_true.mpr ⟨f, hmem, hf⟩))
    unfold Parsed.what
    rw [if_neg (hno _ rfl), if_neg (hno _ rfl), if_neg (hno _ rfl), if_neg (hno _ rfl), if_neg (hno _ rfl),
      if_neg (hno _ rfl), if_pos (by rw [hnu]; exact hlen)]
  have hext : setBanMask e = ⟨e.take (banstrSize - 1), (beforeLast '@' y.mask).length + y.pre.length,
      hostAddress (afterLast '@' y.mask), some y.extban⟩ := by
    unfold setBanMask
    simp only [hx, hmask, hat]
    rfl
  have hplain : setBanMask y.mask = ⟨y.mask, (beforeLast '@' y.mask).length,
      hostAddress (afterLast '@' y.mask), none⟩ := by
    unfold setBanMask
    simp only [hord, hat, htake]
    rfl
  rw [hext, hplain]
  refine ⟨rfl, rfl, ?_, rfl, rfl⟩
  simp only [Mask.ban, Parsed.extban, hwhat, hnu]
  rfl

/-! ### The lookup -/

/-- The host part of a ban matches one of the hosts. `channel.c` `find_ban`. -/
def someHost (env : Env) (h : Hosts) (b : Ban) : Bool :=
  ipMatches env h b || env.isMatch b.hostmask h.host || env.isMatch b.hostmask h.realhost
    || h.cloakip.any (env.isMatch b.hostmask) || h.cloakhost.any (env.isMatch b.hostmask)
    || h.sr.any (env.isMatch b.hostmask)

/-- It matches all of them. `channel.c` `find_ban`. -/
def everyHost (env : Env) (h : Hosts) (b : Ban) : Bool :=
  ipMatches env h b && env.isMatch b.hostmask h.host && env.isMatch b.hostmask h.realhost
    && h.cloakip.any (env.isMatch b.hostmask) && h.cloakhost.any (env.isMatch b.hostmask)
    && h.sr.any (env.isMatch b.hostmask)

lemma findBan_singleton (env : Env) (chans : Str → Option Chan) (v : View) (except : Bool) (t : Kind)
    (n : ℕ) (b : Ban) : ∃ sub, findBan env chans v except t n [b]
      = (entry env sub v t none b).bind fun found => found := by
  have hscan : ∀ sub, scan env sub v t none [b] = (entry env sub v t none b).bind fun found => found := by
    intro sub
    rw [scan]
    cases entry env sub v t none b with
    | none => rfl
    | some found => rfl
  cases n with
  | zero => exact ⟨none, hscan none⟩
  | succ n => exact ⟨_, hscan _⟩

lemma findBan_ordinary (env : Env) (chans : Str → Option Chan) (v : View) (except : Bool) (t : Kind)
    (n : ℕ) {b : Ban} (hexc : b.exception = false) (hext : b.extban = none) :
    (findBan env chans v except t n [b]).isSome = (env.isMatch b.nu v.hosts.nu && someHost env v.hosts b) := by
  obtain ⟨sub, hfind⟩ := findBan_singleton env chans v except t n b
  rw [hfind, entry, hext]
  simp only [Option.isSome_none, Bool.false_and, Bool.false_eq_true, if_false]
  have hmatch : banMatches env v.hosts b = (env.isMatch b.nu v.hosts.nu && someHost env v.hosts b) := rfl
  rw [← hmatch, hexc]
  cases banMatches env v.hosts b <;> rfl

lemma findBan_activity (env : Env) (chans : Str → Option Chan) (v : View) (except : Bool) {t : Kind} (n : ℕ)
    {b plain : Ban} {x : ExtBan} (hext : b.extban = some x) (hx : x.applies t = true)
    (hneg : x.negatemask = false) (hwhat : x.what = .mask plain.nu plain.hostmask)
    (hip : b.ipmask = plain.ipmask) : (findBan env chans v except t n [b]).isSome =
    (env.isMatch plain.nu v.hosts.nu || everyHost env v.hosts plain) := by
  obtain ⟨sub, hfind⟩ := findBan_singleton env chans v except t n b
  have hmatch : extMatches env v b (.mask plain.nu plain.hostmask)
      = (env.isMatch plain.nu v.hosts.nu || everyHost env v.hosts plain) := by
    have hipm : ipMatches env v.hosts b = ipMatches env v.hosts plain := by
      rw [ipMatches, ipMatches, hip]
    rw [extMatches, hipm]
    rfl
  rw [hfind, entry, hext]
  simp only [Option.isSome_none, Bool.false_and, Bool.false_eq_true, if_false, hwhat, hx, hneg, Bool.true_and,
    ← hmatch]
  cases extMatches env v b (.mask plain.nu plain.hostmask) <;> rfl

/-! ### Both -/

/-- **A ban of an activity agrees with the mask that it is made of on those clients whose nick and user match
and one of their hosts, and on those whose nick and user do not match and not all of their hosts**. -/
theorem activity_ban_iff (env : Env) (chans : Str → Option Chan) (v : View) (except : Bool) (n : ℕ) {e : Str}
    {x : Parsed} (hx : parseExtban maxLevel e .start = (1, x)) (hmask : x.flags.any Flag.isMasktype = false)
    (hneg : Flag.negatemask ∉ x.flags) (hord : (parseExtban maxLevel x.mask .start).1 = 0) {t : Kind}
    (ht : (t = .quiet ∧ Flag.quiet ∈ x.flags) ∨ (t = .nick ∧ Flag.nick ∈ x.flags)) :
    ((findBan env chans v except t n [(setBanMask e).ban]).isSome
        = (findBan env chans v except .none n [(setBanMask x.mask).ban]).isSome) ↔
      if env.isMatch (setBanMask x.mask).nu v.hosts.nu = true
      then someHost env v.hosts (setBanMask x.mask).ban = true
      else everyHost env v.hosts (setBanMask x.mask).ban = false := by
  obtain ⟨-, hip, hext, hexc, hplain⟩ := activity_ban hx hmask hord
  have happlies : (⟨.quiet ∈ x.flags, .nick ∈ x.flags, .negatemask ∈ x.flags,
      .mask (setBanMask x.mask).ban.nu (setBanMask x.mask).ban.hostmask⟩ : ExtBan).applies t = true := by
    obtain ⟨rfl, hquiet⟩ | ⟨rfl, hnick⟩ := ht
    · simp [ExtBan.applies, hquiet]
    · simp [ExtBan.applies, hnick]
  rw [findBan_activity env chans v except n hext happlies (decide_eq_false hneg) rfl hip,
    findBan_ordinary env chans v except .none n hexc hplain]
  have hnu : (setBanMask x.mask).ban.nu = (setBanMask x.mask).nu := rfl
  rw [hnu]
  cases env.isMatch (setBanMask x.mask).nu v.hosts.nu with
  | true =>
    rw [Bool.true_or, Bool.true_and, if_pos rfl]
    exact eq_comm
  | false =>
    rw [Bool.false_or, Bool.false_and, if_neg Bool.false_ne_true]

/-- Masks of nicks, users and hosts, and addresses. `match.c`. -/
def realEnv : Env :=
  { sampleEnv with
    isMatch := fun mask name => matchMask mask name = 0
    ipmaskCheck := IPcheck.ipmaskCheck }

def aliceView : View := ⟨hosts realEnv alice, alice.account, alice.info, alice.marks, []⟩

theorem activity_ban_iff_host :
    (findBan realEnv (fun _ => none) aliceView false .quiet 0 [(setBanMask "~q:*!*@h".toList).ban]).isSome
      = (findBan realEnv (fun _ => none) aliceView false .none 0 [(setBanMask "*!*@h".toList).ban]).isSome := by
  have hx : parseExtban maxLevel "~q:*!*@h".toList .start
      = (1, ⟨[.quiet], "~q:".toList, "*!*@h".toList, 3⟩) := by decide +kernel
  refine (activity_ban_iff realEnv (fun _ => none) aliceView false 0 hx (by decide) (by decide)
    (by decide +kernel) (.inl ⟨rfl, by decide⟩)).mpr ?_
  decide +kernel

/-- **Who has another host is kept from speaking all the same**: the ban is `~q:*!*@bad.host`, and the host is
`h`. -/
theorem quiet_everywhere : ¬ ∀ (env : Env) (chans : Str → Option Chan) (v : View) (except : Bool) (n : ℕ) (e :
    Str) (x : Parsed), parseExtban maxLevel e .start = (1, x) → x.flags.any Flag.isMasktype = false →
    Flag.negatemask ∉ x.flags → (parseExtban maxLevel x.mask .start).1 = 0 → Flag.quiet ∈ x.flags →
    (findBan env chans v except .quiet n [(setBanMask e).ban]).isSome =
    (findBan env chans v except .none n [(setBanMask x.mask).ban]).isSome := by
  intro h
  have hx : parseExtban maxLevel "~q:*!*@bad.host".toList .start
      = (1, ⟨[.quiet], "~q:".toList, "*!*@bad.host".toList, 3⟩) := by decide +kernel
  have hsame := h realEnv (fun _ => none) aliceView false 0 _ _ hx (by decide) (by decide)
    (by decide +kernel) (by decide)
  revert hsame
  decide +kernel

end Nefarious.BanMask
