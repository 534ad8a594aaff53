import Nefarious.Glines.Breadth
import Nefarious.Glines.Enforce
import Nefarious.Message

/-!
# The message about a G-line

One message says all of a global G-line: whether it is active, its mask, its expiration time, its time of
modification, the lifetime of the record and the reason. A message with fewer parameters is told from it by
their number.

Names: `gline.c`.
-/

namespace Nefarious.Glines.Codec

open Option (some_inj some_ne_none)
open List (append_assoc append_nil cons_ne_nil mem_cons)

/-! ### Records -/

/-- A G-line. Its timestamps are numbers with a sign. `gline.h` `struct Gline`. -/
structure Record where
  /-- `gl_user`, `gl_host`, and what kind of G-line it is. -/
  target : Target
  /-- `GLINE_ACTIVE` of `gl_flags`. -/
  active : Bool
  state : GlineLocalState
  reason : Str
  expire : ℤ
  lastmod : ℤ
  lifetime : ℤ
  /-- `GLINE_LOCAL` of `gl_flags`. -/
  isLocal : Bool
deriving DecidableEq

/-- The mask as it is written. `gline_propagate`. -/
def mask (t : Target) : Str := t.user ++ (t.host.map ('@' :: ·)).getD []

/-- What is left of a G-line when it is looked at: a record that has ended is freed, and a G-line that has
expired is not active. `gliter`. -/
def Record.visit (now : ℤ) (g : Record) : Option Record :=
  if g.lifetime ≤ now then none
  else if now < g.expire then some g
  else some { g with active := false, state := .global }

/-- The G-lines of a server. `BadChanGlineList`, `GlobalGlineList`. -/
structure Table where
  /-- `BadChanGlineList`. -/
  badchans : List Record
  /-- `GlobalGlineList`. -/
  globals : List Record

/-- It is the mask of a G-line of users. `gline_find` (`GLINE_EXACT`). -/
def isMask (t : Target) (userhost : Str) : Bool :=
  if userhost.head? = some '$' then t.host.isNone && strEq t.user userhost
  else
    let (user, host) := canonUserhost userhost ['*']
    t.host.any (fun h => strEq h host) && strEq t.user user

/-- Find the global G-line of a mask. `gline_find` (`GLINE_GLOBAL`, `GLINE_ANY`, `GLINE_EXACT`). -/
def glineFind (now : ℤ) (T : Table) (userhost : Str) : Option Record :=
  match (T.badchans.filterMap (Record.visit now)).find?
      (fun g => !g.isLocal && strEq g.target.user userhost) with
  | some g => some g
  | none =>
    if userhost.head? = some '#' ∨ userhost.head? = some '&' then none
    else (T.globals.filterMap (Record.visit now)).find? (fun g => !g.isLocal && isMask g.target userhost)

/-! ### The message -/

/-- A `time_t` without its sign. `ircd_snprintf.c` (`%Tu`). -/
def tu (x : ℤ) : Str := digits (x % 2 ^ 64).toNat

/-- The message about a G-line, whose source is `src`, up to the reason. `gline_propagate`. -/
def glineHead (now : ℤ) (src : Str) (g : Record) : Str :=
  src ++ spaced ["GL".toList] ++
    (spaced [['*'], (if g.active then '+' else '-') :: mask g.target, tu (g.expire - now), tu g.lastmod,
      tu g.lifetime] ++ " :".toList)

/-- The message about a G-line. What does not fit is cut. `gline_propagate`. -/
def glineLine (now : ℤ) (src : Str) (g : Record) : Str := msgqMake (glineHead now src g ++ g.reason)

def Fits (now : ℤ) (src : Str) (g : Record) : Prop :=
  (glineHead now src g ++ g.reason).length ≤ bufSize - 2

instance (now : ℤ) (src : Str) (g : Record) : Decidable (Fits now src g) :=
  inferInstanceAs (Decidable (_ ≤ _))

/-- Forward a G-line to other servers. -/
def glinePropagate (now : ℤ) (sptr : Str) (g : Record) : Option Str :=
  if g.isLocal then none else some (glineLine now sptr g)

def glineResend (now : ℤ) (me : Str) (g : Record) : Option Str :=
  if g.isLocal ∨ g.lastmod = 0 then none else some (glineLine now me g)

/-- Burst all known global G-lines to another server. -/
def glineBurst (now : ℤ) (me : Str) (T : Table) : List Str :=
  (T.globals.filterMap (Record.visit now)).filterMap (glineResend now me) ++
    (T.badchans.filterMap (Record.visit now)).filterMap (glineResend now me)

/-! ### The receiver -/

/-- Seconds in five years. -/
def pastwatch : ℤ := 157680000

/-- A time that is more recent than five years in the past is one; else it is relative. -/
def absExpire (now exp : ℤ) : ℤ := if now - pastwatch ≤ exp then exp else exp + now

/-- What the parameters behind the mask say. `ms_gline` (`expire`, `lastmod`, `lifetime`, `reason`, `flags`). -/
structure Words where
  expire : ℤ
  lastmod : ℤ
  lifetime : ℤ
  reason : Str
  /-- `GLINE_EXPIRE` of `flags`. -/
  fExpire : Bool
  /-- `GLINE_LIFETIME` of `flags`. -/
  fLifetime : Bool
  /-- `GLINE_REASON` of `flags`. -/
  fReason : Bool
deriving DecidableEq

/-- They say nothing. `ms_gline`. -/
def Words.start : Words := ⟨0, 0, 0, "No reason".toList, false, false, false⟩

/-- One word behind the time of modification: "if it doesn't fully convert, it must be the reason". `ms_gline`. -/
def Words.oneWord (w : Words) (known : Bool) (word : Str) : Words :=
  let r := strtoul word
  let lifetime := Int.bmod r.1 (2 ^ 64)
  if !known || (lifetime = 0 && r.2 = []) then { w with reason := word, fReason := true }
  else if lifetime ≠ 0 then { w with lifetime := lifetime, fLifetime := true }
  else w

/-- Convert the parameters behind the mask; there is no result when there are not enough. `ms_gline`. -/
def convert (now : ℤ) (known : Bool) (action : GlineAction) : List Str → Option Words
  | [] => if action = .modify then some .start else none
  | [m] => some (if action = .modify then .start else { Words.start with lastmod := atoi m })
  | e :: m :: rest =>
    let w := { Words.start with expire := absExpire now (atoi e), lastmod := atoi m, fExpire := true }
    match rest with
    | [] => some w
    | [word] => some (w.oneWord known word)
    | l :: r :: rest =>
      some { w with
        lifetime := atoi l
        reason := (r :: rest).getLast (cons_ne_nil r rest)
        fLifetime := true
        fReason := true }

/-- The arguments of `gline_modify`. -/
structure Change extends Words where
  action : GlineAction
  /-- `GLINE_FORCE` of `flags`. -/
  force : Bool

/-- Modify a global G-line, at the time `now`. `gline_modify`. -/
def modify (now : ℤ) (gline : Record) (u : Change) : Record :=
  -- We have a more recent version, or that version.
  if !u.action.isLocal && u.lastmod < gline.lastmod then gline
  else if !u.action.isLocal && gline.lastmod = u.lastmod then gline
  else if (u.fExpire && u.expire ≠ 0) &&
      (!u.force && (u.expire ≤ now || now + glineMaxExpire < u.expire)) then gline
  else
    let fExpire := u.fExpire && u.expire ≠ 0
    let same := fExpire && u.expire = gline.expire
    let expire := if same then 0 else u.expire
    let fExpire := fExpire && !same
    let lifetime := if !u.fLifetime || u.lifetime = 0 then gline.lifetime else u.lifetime
    let lifetime := max lifetime expire
    let fLifetime := gline.lifetime < lifetime
    let fReason := u.fReason && !strEq gline.reason u.reason
    let action :=
      if (u.action = .activate && gline.active) || (u.action = .deactivate && !gline.active) ||
          (u.action = .localActivate && gline.state = .activated) ||
          (u.action = .localDeactivate && gline.state = .deactivated) ||
          -- An expired G-line cannot be activated.
          max gline.expire expire ≤ now then .modify
      else u.action
    if !(fExpire || fLifetime || fReason) && action = .modify then gline
    else
      { gline with
        active := action.activeAfter gline.active
        state := match action with
          | .activate | .deactivate => .global
          | .localActivate => .activated
          | .localDeactivate => .deactivated
          | .modify => gline.state
        reason := if fReason then u.reason else gline.reason
        expire := if fExpire then expire else gline.expire
        lastmod := if action.isLocal then gline.lastmod else u.lastmod
        lifetime := if fLifetime then lifetime else gline.lifetime }

/-- Create a global G-line, unless it is refused. The limits for local operators are left out. `gline_add`, `make_gline`. -/
def glineAdd (bits : ℕ) (now : ℤ) (force active : Bool) (userhost : Str) (w : Words) : Option Record :=
  match glineTarget bits userhost with
  | none => none
  | some target =>
    if !force && (w.expire ≤ now || now + glineMaxExpire < w.expire) then none
    else
      some
        { target := target
          active := active && now < w.expire
          state := .global
          reason := w.reason
          expire := w.expire
          lastmod := w.lastmod
          lifetime := if w.lifetime = 0 then w.expire else w.lifetime
          isLocal := false }

/-- The action and the mask. `ms_gline`. -/
def readAction (mask : Str) : GlineAction × Str :=
  match if mask.head? = some '!' then mask.tail else mask with
  | '+' :: mask => (.activate, mask)
  | '-' :: mask => (.deactivate, mask)
  | '>' :: mask => (.localActivate, mask)
  | '<' :: mask => (.localDeactivate, mask)
  | mask => (.modify, mask)

/-- The record that a message changes or makes, if there is one. Messages for one server only are left out. -/
def msGline (bits : ℕ) (now : ℤ) (server : Bool) (T : Table) : List Str → Option Record
  | target :: mask :: params =>
    let (action, mask) := readAction mask
    if mask = [] ∨ target ≠ ['*'] ∨ action.isLocal then none
    else
      let agline := glineFind now T mask
      let action := if agline.isNone && action = .modify then .activate else action
      match convert now agline.isSome action params with
      | none => none
      | some w =>
        if w.lastmod = 0 then none
        else
          match agline with
          | some g => some (modify now g ⟨w, action, server⟩)
          -- Cannot add a G-line without an expiration time.
          | none =>
            if w.expire = 0 then none else glineAdd bits now server (action = .activate) mask w
  | _ => none

/-- A G-line whose timestamps have no sign. -/
def ofGline (t : Target) (g : Gline) : Record :=
  ⟨t, g.active, g.state, g.reason, g.expire, g.lastmod, g.lifetime, false⟩

/-- An update whose timestamps have no sign. -/
def ofUpdate (u : Update) : Change where
  expire := u.expire
  lastmod := u.lastmod
  lifetime := u.lifetime
  reason := u.reason
  fExpire := u.fExpire
  fLifetime := u.fLifetime
  fReason := u.fReason
  action := u.action
  force := u.force

/-! ### Numbers -/

/-- A number that an int holds. C library `atoi`. -/
def FitsInt (x : ℤ) : Prop := -1 ≤ x ∧ x < 2 ^ 31

instance (x : ℤ) : Decidable (FitsInt x) := inferInstanceAs (Decidable (_ ∧ _))

lemma atoi_tu (x : ℤ) : atoi (tu x) = if x % 2 ^ 64 < 2 ^ 63 then Int.bmod x (2 ^ 32) else -1 := by
  rw [tu, atoi_digits, Int.toNat_of_nonneg (by omega)]
  split
  · next h =>
      rw [min_eq_left (by omega)]
      rw [Int.bmod_def, Int.bmod_def]
      push_cast
      omega
  · next h =>
      rw [min_eq_right (by omega)]
      decide

lemma atoi_tu_lt (x : ℤ) : -2 ^ 31 ≤ atoi (tu x) ∧ atoi (tu x) < 2 ^ 31 := by
  rw [atoi_tu, Int.bmod_def]
  push_cast
  split <;> omega

lemma atoi_tu_eq_iff (x : ℤ) : atoi (tu x) = x ↔ FitsInt x := by
  rw [atoi_tu, Int.bmod_def, FitsInt]
  push_cast
  constructor
  · intro h
    split at h
    · split at h <;> omega
    · omega
  · intro h
    split
    · split <;> omega
    · omega

/-- A time at which the server runs: after 1975, and one that a `time_t` holds. `m_settime.c` `OLDEST_TS`.
-/
def IsTime (now : ℤ) : Prop := pastwatch < now ∧ now < 2 ^ 62

/-- The expiration time is read back: the G-line has not expired more than a second ago, and what is left of it
is an int that is not taken for a time. `abs_expire`. -/
def Reads (now expire : ℤ) : Prop :=
  now - 1 ≤ expire ∧ expire < now + 2 ^ 31 ∧ expire + pastwatch < 2 * now

instance (now expire : ℤ) : Decidable (Reads now expire) := inferInstanceAs (Decidable (_ ∧ _ ∧ _))

/-- The expiration time is read as none: it is a multiple of 2³². `ms_gline` (`!expire`). -/
def Lost (now expire : ℤ) : Prop :=
  now ≤ 2 ^ 31 ∧ expire % 2 ^ 32 = 0 ∧ (expire - now) % 2 ^ 64 < 2 ^ 63

variable {now : ℤ} {src : Str}

lemma absExpire_eq_iff (hnow : IsTime now) (expire : ℤ) :
    absExpire now (atoi (tu (expire - now))) = expire ↔ Reads now expire := by
  obtain ⟨hlow, hhigh⟩ := hnow
  rw [atoi_tu, Int.bmod_def, absExpire, Reads]
  unfold pastwatch at *
  push_cast
  split
  · split <;> split <;> constructor <;> omega
  · split <;> constructor <;> omega

lemma absExpire_eq_zero_iff (hnow : IsTime now) (expire : ℤ) :
    absExpire now (atoi (tu (expire - now))) = 0 ↔ Lost now expire := by
  obtain ⟨hlow, hhigh⟩ := hnow
  rw [atoi_tu, Int.bmod_def, absExpire, Lost]
  unfold pastwatch at *
  push_cast
  split
  · split <;> split <;> constructor <;> omega
  · split <;> constructor <;> omega

/-- A global G-line with a time of modification. It was added with a word of a message. `gline_add`. -/
structure Global (r : Record) : Prop where
  isLocal : r.isLocal = false
  lastmod : r.lastmod ≠ 0
  reason : IsCStr r.reason
  known : ∃ bits userhost, ' ' ∉ userhost ∧ glineTarget bits userhost = some r.target

lemma canonUserhost_spec (userhost : Str) : '@' ∉ (canonUserhost userhost ['*']).1 ∧
    ((canonUserhost userhost ['*']).1.head? = userhost.head? ∨ (canonUserhost userhost ['*']).1 = [] ∨
    (canonUserhost userhost ['*']).1 = ['*']) ∧ ∀ c, (c ∈ (canonUserhost userhost ['*']).1 → c ∈ userhost ∨ c =
    '*') ∧ (c ∈ (canonUserhost userhost ['*']).2 → c ∈ userhost) := by
  unfold canonUserhost
  split
  · refine ⟨fun h => ?_, ?_, fun c => ⟨fun h => .inl ((List.takeWhile_sublist _).subset h), fun h => ?_⟩⟩
    · exact absurd (List.mem_takeWhile_imp h) (by decide)
    · cases userhost with
      | nil => exact .inr (.inl rfl)
      | cons c t =>
        by_cases hc : c = '@'
        · exact .inr (.inl (by simp [hc]))
        · exact .inl (by simp [hc])
    · exact (List.dropWhile_sublist _).subset (List.mem_of_mem_drop h)
  · exact ⟨(by decide : '@' ∉ ['*']), .inr (.inr rfl), fun c => ⟨fun h => .inr (List.mem_singleton.1 h), id⟩⟩

lemma canonUserhost_mask {user host : Str} (h : '@' ∉ user) :
    canonUserhost (user ++ '@' :: host) ['*'] = (user, host) := by
  have hall : ∀ c ∈ user, decide (c ≠ '@') = true := fun c hc => decide_eq_true fun heq => h (heq ▸ hc)
  rw [canonUserhost, if_pos (by simp), List.takeWhile_append_of_pos hall, List.dropWhile_append_of_pos hall]
  simp

lemma glineTarget_mask {bits : ℕ} {userhost : Str} {t : Target} (h : glineTarget bits userhost = some t)
    (bits' : ℕ) : mask t ≠ [] ∧ (' ' ∉ userhost → ' ' ∉ mask t) ∧
      ∃ t', glineTarget bits' (mask t) = some t' ∧ t'.user = t.user ∧ t'.host = t.host := by
  unfold glineTarget at h
  by_cases hchan : userhost.head? = some '#' ∨ userhost.head? = some '&'
  · rw [if_pos hchan] at h
    split at h
    · exact absurd h (some_ne_none t).symm
    · next hlen =>
        obtain rfl := some_inj.1 h
        have hmask : mask ⟨userhost, none, true, false, false, none⟩ = userhost := append_nil _
        rw [hmask]
        refine ⟨?_, id, _, by rw [glineTarget, if_pos hchan, if_neg hlen], rfl, rfl⟩
        rintro rfl
        rcases hchan with h | h <;> exact absurd h (some_ne_none _).symm
  · rw [if_neg hchan] at h
    by_cases hdollar : userhost.head? = some '$'
    · rw [if_pos hdollar] at h
      have hne : userhost ≠ [] := by
        rintro rfl
        exact absurd hdollar (some_ne_none _).symm
      split at h
      · next hR =>
          split at h
          · exact absurd h (some_ne_none t).symm
          · next hlen =>
              obtain rfl := some_inj.1 h
              have hmask : mask ⟨userhost, none, false, true, false, none⟩ = userhost := append_nil _
              rw [hmask]
              exact ⟨hne, id, _, by rw [glineTarget, if_neg hchan, if_pos hdollar, if_pos hR, if_neg hlen],
                rfl, rfl⟩
      · next hR =>
          split at h
          · next hV =>
              obtain rfl := some_inj.1 h
              have hmask : mask ⟨userhost, none, false, false, true, none⟩ = userhost := append_nil _
              rw [hmask]
              exact ⟨hne, id, _, by rw [glineTarget, if_neg hchan, if_pos hdollar, if_neg hR, if_pos hV],
                rfl, rfl⟩
          · exact absurd h (some_ne_none t).symm
    · rw [if_neg hdollar] at h
      obtain ⟨hat, hhead, hsub⟩ := canonUserhost_spec userhost
      generalize canonUserhost userhost ['*'] = uh at h hat hhead hsub
      obtain ⟨user, host⟩ := uh
      dsimp only at h hat hhead hsub
      split at h
      · exact absurd h (some_ne_none t).symm
      · next hlen =>
          obtain rfl := some_inj.1 h
          have hmask : mask ⟨user, some host, false, false, false, hostIpmask bits host⟩ =
            user ++ '@' :: host := rfl
          have hfirst : ∀ c, (user ++ '@' :: host).head? = some c →
              userhost.head? = some c ∨ c = '@' ∨ c = '*' := by
            intro c hc
            cases user with
            | nil => exact .inr (.inl (by simpa using hc.symm))
            | cons d user =>
              obtain rfl : d = c := by simpa using hc
              rcases hhead with h' | h' | h'
              · exact .inl h'.symm
              · exact absurd h' (cons_ne_nil _ _)
              · exact .inr (.inr (List.cons.inj h').1)
          have hnot : ∀ c, userhost.head? ≠ some c → c ≠ '@' → c ≠ '*' →
              (user ++ '@' :: host).head? ≠ some c := by
            intro c h1 h2 h3 hc
            rcases hfirst c hc with h' | h' | h'
            · exact h1 h'
            · exact h2 h'
            · exact h3 h'
          rw [hmask]
          refine ⟨by simp, ?_, ⟨user, some host, false, false, false, hostIpmask bits' host⟩, ?_, rfl, rfl⟩
          · intro hblank hmem
            rcases List.mem_append.1 hmem with hc | hc
            · rcases (hsub ' ').1 hc with h' | h'
              · exact hblank h'
              · exact absurd h' (by decide)
            · rcases mem_cons.1 hc with h' | h'
              · exact absurd h' (by decide)
              · exact hblank ((hsub ' ').2 h')
          · rw [glineTarget, if_neg, if_neg (hnot '$' hdollar (by decide) (by decide)), canonUserhost_mask hat]
            · dsimp only
              rw [if_neg hlen]
            · rintro (h' | h')
              · exact hnot '#' (fun h => hchan (.inl h)) (by decide) (by decide) h'
              · exact hnot '&' (fun h => hchan (.inr h)) (by decide) (by decide) h'

lemma isWord_tu (x : ℤ) : IsWord (tu x) := by
  have hdig : ∀ c ∈ tu x, isDigit c = true := fun c hc => isDigit_of_digits hc
  refine ⟨Nat.toDigits_ne_nil, fun h => ?_, fun h => ?_⟩
  · exact absurd (hdig ' ' h) (by decide)
  · exact absurd (hdig ':' (List.mem_of_mem_head? h)) (by decide)

lemma messageParams_glineHead (hsrc : IsWord src) {g : Record}
    (hmask : ' ' ∉ mask g.target) (reason : Str) :
    messageParams (glineHead now src g ++ reason) =
      [['*'], (if g.active then '+' else '-') :: mask g.target, tu (g.expire - now), tu g.lastmod,
        tu g.lifetime, reason] := by
  have hwords : ∀ w ∈ [['*'], (if g.active then '+' else '-') :: mask g.target, tu (g.expire - now),
      tu g.lastmod, tu g.lifetime], IsWord w := by
    intro w hw
    simp only [mem_cons, List.not_mem_nil, or_false] at hw
    rcases hw with rfl | rfl | rfl | rfl | rfl
    · decide
    · refine ⟨cons_ne_nil _ _, fun h => ?_, ?_⟩
      · rcases mem_cons.1 h with h | h
        · cases hact : g.active <;> simp [hact] at h
        · exact hmask h
      · cases hact : g.active <;> simp
    · exact isWord_tu _
    · exact isWord_tu _
    · exact isWord_tu _
  have hcolon : StartsBlank (" :".toList ++ reason) := .inr rfl
  have htrailing : parseParams 10 (" :".toList ++ reason) = [reason] := parseParams_trailing (by decide) reason
  have hread := parseParams_words hwords hcolon (n := 10) (by decide)
  rw [htrailing] at hread
  unfold glineHead
  rw [append_assoc, messageParams_line hsrc (by decide), append_assoc]
  · exact hread
  · rw [append_assoc]
    exact startsBlank_spaced _ hcolon

lemma messageParams_glineLine (hsrc : IsWord src) {g : Record}
    (hmask : ' ' ∉ mask g.target) (hhead : (glineHead now src g).length ≤ bufSize - 2) :
    ∃ reason, messageParams (glineLine now src g) =
        [['*'], (if g.active then '+' else '-') :: mask g.target, tu (g.expire - now), tu g.lastmod,
          tu g.lifetime, reason] ∧
      (reason = g.reason ↔ Fits now src g) ∧
      (reason ≠ g.reason → (∀ c ∈ reason, c ∈ g.reason) ∧ reason.length < g.reason.length) := by
  refine ⟨g.reason.take (bufSize - 2 - (glineHead now src g).length), ?_, ?_, fun hne =>
    ⟨fun c => List.mem_of_mem_take, ?_⟩⟩
  · rw [glineLine, msgqMake, List.take_append, List.take_of_length_le hhead, messageParams_glineHead hsrc hmask]
  · rw [List.take_eq_self_iff, Fits, List.length_append]
    omega
  · rw [Ne, List.take_eq_self_iff] at hne
    rw [List.length_take]
    omega

/-- What the receiver reads of a record whose reason came as `reason`. `ms_gline`. -/
def wordsOf (now : ℤ) (r : Record) (reason : Str) : Words :=
  ⟨absExpire now (atoi (tu (r.expire - now))), atoi (tu r.lastmod), atoi (tu r.lifetime), reason,
    true, true, true⟩

lemma msGline_words (bits : ℕ) (server : Bool) (T : Table) {r : Record} (hne : mask r.target ≠ [])
    (reason : Str) :
    msGline bits now server T [['*'], (if r.active then '+' else '-') :: mask r.target, tu (r.expire - now),
        tu r.lastmod, tu r.lifetime, reason] =
      if atoi (tu r.lastmod) = 0 then none
      else
        match glineFind now T (mask r.target) with
        | some g =>
          some (modify now g ⟨wordsOf now r reason, if r.active then .activate else .deactivate, server⟩)
        | none =>
          if absExpire now (atoi (tu (r.expire - now))) = 0 then none
          else glineAdd bits now server r.active (mask r.target) (wordsOf now r reason) := by
  have haction : readAction ((if r.active then '+' else '-') :: mask r.target) =
      (if r.active then .activate else .deactivate, mask r.target) := by
    cases r.active <;> rfl
  unfold msGline
  simp only [haction]
  cases hact : r.active with
  | true =>
    rw [if_neg (by simp [hne, GlineAction.isLocal])]
    cases glineFind now T (mask r.target) <;> rfl
  | false =>
    rw [if_neg (by simp [hne, GlineAction.isLocal])]
    cases glineFind now T (mask r.target) <;> rfl

lemma glineFind_visited {T : Table} {userhost : Str} {o : Record}
    (h : glineFind now T userhost = some o) : now < o.lifetime ∧ (o.expire ≤ now → o.active = false) := by
  have hvisit : ∀ l : List Record, o ∈ l.filterMap (Record.visit now) →
      now < o.lifetime ∧ (o.expire ≤ now → o.active = false) := by
    intro l hmem
    obtain ⟨g, _, hg⟩ := List.mem_filterMap.1 hmem
    unfold Record.visit at hg
    split at hg
    · exact absurd hg (some_ne_none o).symm
    · next hlife =>
        split at hg
        · next hexp =>
            obtain rfl := some_inj.1 hg
            exact ⟨by omega, fun h => absurd hexp (by omega)⟩
        · obtain rfl := some_inj.1 hg
          exact ⟨not_le.1 hlife, fun _ => rfl⟩
  unfold glineFind at h
  split at h
  · next g hg =>
      obtain rfl := some_inj.1 h
      exact hvisit _ (List.mem_of_find?_eq_some hg)
  · split at h
    · exact absurd h (some_ne_none o).symm
    · exact hvisit _ (List.mem_of_find?_eq_some h)

/-! ### A record that is made -/

/-- One record says the same as another one. -/
structure Same (g r : Record) : Prop where
  user : g.target.user = r.target.user
  host : g.target.host = r.target.host
  active : g.active = r.active
  expire : g.expire = r.expire
  lastmod : g.lastmod = r.lastmod
  lifetime : g.lifetime = r.lifetime
  reason : g.reason = r.reason

/-- The expiration time is accepted: from a server, or within seven days. `gline_add`, `gline_modify`
(`GLINE_FORCE`). -/
def Accepted (now : ℤ) (server : Bool) (expire : ℤ) : Prop :=
  server = true ∨ (now < expire ∧ expire ≤ now + glineMaxExpire)

/-- The record arrives at a server that does not have the G-line. -/
structure MeetsNew (now : ℤ) (server : Bool) (r : Record) : Prop where
  lastmod : FitsInt r.lastmod
  expire : Reads now r.expire
  accepted : Accepted now server r.expire
  active : r.active = true → now < r.expire
  lifetime : (FitsInt r.lifetime ∧ r.lifetime ≠ 0) ∨ (r.lifetime = r.expire ∧ r.lifetime % 2 ^ 32 = 0)

lemma lifetime_eq_iff (hnow : IsTime now) {r : Record} (hreads : Reads now r.expire) :
    (if atoi (tu r.lifetime) = 0 then r.expire else atoi (tu r.lifetime)) = r.lifetime ↔
      (FitsInt r.lifetime ∧ r.lifetime ≠ 0) ∨ (r.lifetime = r.expire ∧ r.lifetime % 2 ^ 32 = 0) := by
  obtain ⟨hlow, hhigh⟩ := hnow
  obtain ⟨hge, hlt, _⟩ := hreads
  unfold pastwatch at hlow
  rw [← atoi_tu_eq_iff, atoi_tu, Int.bmod_def]
  push_cast
  split <;> split <;> constructor <;> omega

lemma same_glineAdd_iff (bits : ℕ) (hnow : IsTime now) (server : Bool) {r : Record}
    (hr : Global r) (reason : Str) :
    (∃ g, (if atoi (tu r.lastmod) = 0 then none
        else if absExpire now (atoi (tu (r.expire - now))) = 0 then none
        else glineAdd bits now server r.active (mask r.target) (wordsOf now r reason)) = some g ∧ Same g r) ↔
      MeetsNew now server r ∧ reason = r.reason := by
  obtain ⟨bits', userhost, _, hknown⟩ := hr.known
  obtain ⟨_, _, t, ht, huser, hhost⟩ := glineTarget_mask hknown bits
  have hexp := absExpire_eq_iff hnow r.expire
  have hmod := atoi_tu_eq_iff r.lastmod
  have hlife := fun h => lifetime_eq_iff hnow (r := r) h
  obtain ⟨e, he⟩ : ∃ e, absExpire now (atoi (tu (r.expire - now))) = e := ⟨_, rfl⟩
  rw [he] at hexp
  simp only [glineAdd, ht, wordsOf, he]
  constructor
  · rintro ⟨g, hg, hsame⟩
    split at hg
    · exact absurd hg (some_ne_none g).symm
    split at hg
    · exact absurd hg (some_ne_none g).symm
    split at hg
    · exact absurd hg (some_ne_none g).symm
    next hm0 he0 hacc =>
      obtain rfl := some_inj.1 hg
      obtain ⟨_, _, hactive, hexpire, hlastmod, hlifetime, hreason⟩ := hsame
      dsimp only at hactive hexpire hlastmod hlifetime hreason
      subst hexpire
      have hreads := hexp.1 rfl
      refine ⟨⟨hmod.1 hlastmod, hreads, ?_, ?_, (hlife hreads).1 hlifetime⟩, hreason⟩
      · cases hs : server with
        | true => exact .inl rfl
        | false =>
          simp only [hs, Bool.not_false, Bool.true_and, Bool.or_eq_true, decide_eq_true_eq] at hacc
          exact .inr ⟨by omega, by omega⟩
      · intro hact
        rw [hact] at hactive
        simpa using hactive
  · rintro ⟨⟨hlastmod, hreads, hacc, hactive, hlifetime⟩, hreason⟩
    obtain rfl := (hexp.2 hreads).symm
    have hm := hmod.2 hlastmod
    have he0 : r.expire ≠ 0 := by
      have hlow := hnow.1
      have hge := hreads.1
      unfold pastwatch at hlow
      omega
    rw [if_neg (by rw [hm]; exact hr.lastmod), if_neg he0, if_neg]
    · refine ⟨_, rfl, huser, hhost, ?_, rfl, hm, (hlife hreads).2 hlifetime, hreason⟩
      cases hact : r.active with
      | true => simpa using hactive hact
      | false => rfl
    · simp only [Bool.and_eq_true, Bool.not_eq_true', Bool.or_eq_true, decide_eq_true_eq]
      rintro ⟨hs, hout⟩
      rcases hacc with hforce | hin
      · rw [hforce] at hs
        exact Bool.noConfusion hs
      · omega

/-! ### A record that is changed -/

/-- The expiration time, if it is another one. `gline_modify` (`expire`). -/
def newExpire (o : Record) (expire : ℤ) : ℤ := if expire = o.expire then 0 else expire

/-- The lifetime that is asked for. `gline_modify` (`lifetime`). -/
def newLifetime (o : Record) (expire lifetime : ℤ) : ℤ :=
  max (if lifetime = 0 then o.lifetime else lifetime) (newExpire o expire)

/-- The activity then. `gline_modify` ("can't activate an expired G-line"). -/
def newActive (now : ℤ) (o : Record) (expire : ℤ) (active : Bool) : Bool :=
  if max o.expire (newExpire o expire) ≤ now then o.active else active

/-- The local state then. `gline_modify` ("reset local activity state"). -/
def newState (now : ℤ) (o : Record) (expire : ℤ) (active : Bool) : GlineLocalState :=
  if newActive now o expire active = o.active then o.state else .global

/-- The action of a message. `ms_gline` (`action`). -/
def actionOf (active : Bool) : GlineAction := if active then .activate else .deactivate

/-- There is no change. `gline_modify` ("If there are no changes to perform"). -/
def Unchanged (now : ℤ) (o : Record) (w : Words) (active : Bool) : Prop :=
  newExpire o w.expire = 0 ∧ newLifetime o w.expire w.lifetime ≤ o.lifetime ∧
    strEq o.reason w.reason = true ∧ newActive now o w.expire active = o.active

instance (now : ℤ) (o : Record) (w : Words) (active : Bool) : Decidable (Unchanged now o w active) :=
  inferInstanceAs (Decidable (_ ∧ _ ∧ _ ∧ _))

lemma modify_words {now : ℤ} {o : Record} {w : Words} {active server : Bool}
    (hall : w.fExpire = true ∧ w.fLifetime = true ∧ w.fReason = true) (hnew : o.lastmod < w.lastmod)
    (hacc : w.expire ≠ 0 → Accepted now server w.expire) :
    modify now o ⟨w, actionOf active, server⟩ =
      if Unchanged now o w active then o
      else
        { o with
          active := newActive now o w.expire active
          state := newState now o w.expire active
          reason := if strEq o.reason w.reason then o.reason else w.reason
          expire := if newExpire o w.expire = 0 then o.expire else w.expire
          lastmod := w.lastmod
          lifetime := max o.lifetime (newLifetime o w.expire w.lifetime) } := by
  obtain ⟨hE, hL, hR⟩ := hall
  have hloc : (actionOf active).isLocal = false := by cases active <;> rfl
  unfold modify
  rw [if_neg (by simp only [hloc]; simpa using hnew.le), if_neg (by simp only [hloc]; simpa using hnew.ne),
    if_neg]
  · extract_lets fE same e fE' l l' fL fR action
    have hfE : fE = decide (w.expire ≠ 0) := by simp only [fE, hE, Bool.true_and]
    have he : e = newExpire o w.expire := by
      simp only [e, same, hfE, newExpire]
      by_cases h0 : w.expire = 0
      · simp [h0]
      · simp [h0]
    have hE' : fE' = decide (e ≠ 0) := by
      by_cases h0 : w.expire = 0
      · simp [fE', e, same, hfE, h0]
      · by_cases hs : w.expire = o.expire
        · simp [fE', e, same, hfE, hs]
        · simp [fE', e, same, hfE, h0, hs]
    have hl' : l' = newLifetime o w.expire w.lifetime := by
      simp only [l', l, he, newLifetime, hL, Bool.not_true, Bool.false_or, decide_eq_true_eq]
    have haction : action.isLocal = false ∧ action.activeAfter o.active = newActive now o w.expire active ∧
        (action = .modify ↔ newActive now o w.expire active = o.active) ∧
        (match action with
          | .activate | .deactivate => GlineLocalState.global
          | .localActivate => .activated
          | .localDeactivate => .deactivated
          | .modify => o.state) = newState now o w.expire active := by
      simp only [action, newState, newActive, he]
      by_cases hlate : max o.expire (newExpire o w.expire) ≤ now
      · simp [hlate, GlineAction.isLocal, GlineAction.activeAfter]
      · obtain hact | hact := Bool.eq_false_or_eq_true o.active
        · cases active <;> simp [actionOf, hlate, hact, GlineAction.isLocal, GlineAction.activeAfter]
        · cases active <;> simp [actionOf, hlate, hact, GlineAction.isLocal, GlineAction.activeAfter]
    obtain ⟨hloc', hactive, hmodify, hstate⟩ := haction
    have hfR : fR = !strEq o.reason w.reason := by simp only [fR, hR, Bool.true_and]
    refine if_congr ?_ rfl ?_
    · simp only [hE', he, fL, hl', hfR, Unchanged, hmodify, Bool.and_eq_true, Bool.not_eq_true',
        Bool.or_eq_false_iff, decide_eq_true_eq, decide_eq_false_iff_not, not_not, not_lt, Bool.not_eq_false',
        and_assoc]
    · rw [hactive, hloc', hE', hstate]
      congr 1
      · cases hcase : strEq o.reason w.reason <;> simp [hfR, hcase]
      · rw [he]
        by_cases h0 : newExpire o w.expire = 0
        · simp [h0]
        · have hne : newExpire o w.expire = w.expire := by
            unfold newExpire at h0 ⊢
            split at h0
            · exact absurd rfl h0
            · next hs => rw [if_neg hs]
          simp [hne]
      · simp only [fL, hl']
        split
        · next h => exact (max_eq_right h.le).symm
        · next h => exact (max_eq_left (not_lt.1 h)).symm
  · simp only [Bool.and_eq_true, Bool.not_eq_true', Bool.or_eq_true, decide_eq_true_eq]
    rintro ⟨⟨_, h0⟩, hs, hout⟩
    rcases hacc h0 with hforce | hin
    · rw [hforce] at hs
      exact Bool.noConfusion hs
    · omega

lemma modify_ignored {now : ℤ} {o : Record} {w : Words} {active server : Bool} (h : w.lastmod ≤ o.lastmod ∨
      (w.fExpire = true ∧ w.expire ≠ 0 ∧ ¬ Accepted now server w.expire)) :
    modify now o ⟨w, actionOf active, server⟩ = o := by
  have hloc : (actionOf active).isLocal = false := by cases active <;> rfl
  unfold modify
  by_cases hlt : w.lastmod < o.lastmod
  · rw [if_pos (by simp only [hloc]; simpa using hlt)]
  · rw [if_neg (by simp only [hloc]; simpa using hlt)]
    by_cases heq : o.lastmod = w.lastmod
    · rw [if_pos (by simp only [hloc]; simpa using heq)]
    · rw [if_neg (by simp only [hloc]; simpa using heq), if_pos]
      rcases h with hle | ⟨hE, h0, hacc⟩
      · omega
      · simp only [Accepted, not_or, not_and, Bool.not_eq_true] at hacc
        simp only [hE, hacc.1, Bool.true_and, Bool.and_eq_true, Bool.not_false, Bool.or_eq_true,
          decide_eq_true_eq]
        refine ⟨h0, ?_⟩
        by_contra hin
        rw [not_or] at hin
        have hout := hacc.2 (by omega)
        omega

/-- The record arrives at a server that has an older version of the G-line. -/
structure MeetsOld (now : ℤ) (server : Bool) (r o : Record) : Prop where
  lastmod : FitsInt r.lastmod
  expire : (Reads now r.expire ∧ Accepted now server r.expire) ∨ (Lost now r.expire ∧ o.expire = r.expire)
  lifetime : max o.lifetime (newExpire o r.expire) ≤ r.lifetime ∧
    (r.lifetime < 2 ^ 31 ∨ max o.lifetime (newExpire o r.expire) = r.lifetime)
  reason : strEq o.reason r.reason = true → o.reason = r.reason
  active : r.active = true → now < max o.expire r.expire
  differs : o.active ≠ r.active ∨ o.expire ≠ r.expire ∨ o.lifetime ≠ r.lifetime ∨ o.reason ≠ r.reason

lemma newLifetime_eq_iff {r o : Record} (hlife : 0 < o.lifetime) :
    max o.lifetime (newLifetime o r.expire (atoi (tu r.lifetime))) = r.lifetime ↔
      max o.lifetime (newExpire o r.expire) ≤ r.lifetime ∧
        (r.lifetime < 2 ^ 31 ∨ max o.lifetime (newExpire o r.expire) = r.lifetime) := by
  have hread := atoi_tu_eq_iff r.lifetime
  have hbound := atoi_tu_lt r.lifetime
  unfold newLifetime
  unfold FitsInt at hread
  generalize atoi (tu r.lifetime) = l at hread hbound
  generalize newExpire o r.expire = x
  split <;> constructor <;> omega

lemma newExpire_congr {r o : Record} {e : ℤ} (h : e = r.expire ∨ (e = 0 ∧ o.expire = r.expire)) :
    newExpire o e = newExpire o r.expire := by
  rcases h with rfl | ⟨rfl, heq⟩
  · rfl
  · unfold newExpire
    rw [if_pos heq.symm]
    split <;> rfl

lemma reason_eq_iff {r o : Record} (hr : IsCStr r.reason) {reason : Str}
    (hcut : reason ≠ r.reason → IsCStr reason ∧ reason.length < r.reason.length) :
    (if strEq o.reason reason then o.reason else reason) = r.reason ↔
      (strEq o.reason r.reason = true → o.reason = r.reason) ∧ reason = r.reason := by
  by_cases heq : reason = r.reason
  · subst heq
    split
    · next hcase => exact ⟨fun h => ⟨fun _ => h, rfl⟩, fun h => h.1 hcase⟩
    · next hcase => exact ⟨fun h => ⟨fun hc => absurd hc hcase, rfl⟩, fun h => rfl⟩
  · obtain ⟨hstr, hlt⟩ := hcut heq
    refine iff_of_false ?_ fun h => heq h.2
    split
    · next hcase =>
        intro hro
        rw [hro] at hcase
        have hlen := congrArg List.length ((strEq_iff hr hstr).1 hcase)
        rw [List.length_map, List.length_map] at hlen
        omega
    · exact heq

lemma newActive_eq_iff (hnow : 0 < now) {r o : Record} (hvisit : o.expire ≤ now → o.active = false) :
    newActive now o r.expire r.active = r.active ↔ (r.active = true → now < max o.expire r.expire) := by
  have hmax : max o.expire (newExpire o r.expire) ≤ now ↔ max o.expire r.expire ≤ now := by
    unfold newExpire
    split <;> omega
  unfold newActive
  by_cases hlate : max o.expire (newExpire o r.expire) ≤ now
  · rw [if_pos hlate, hvisit (le_trans (le_max_left _ _) hlate)]
    have hle := hmax.1 hlate
    constructor
    · intro h hact
      rw [hact] at h
      exact Bool.noConfusion h
    · intro h
      cases hact : r.active with
      | false => rfl
      | true => exact absurd (h hact) (not_lt.2 hle)
  · rw [if_neg hlate]
    have hlt := mt hmax.2 hlate
    exact ⟨fun _ _ => not_le.1 hlt, fun _ => rfl⟩

lemma same_modify_iff (hnow : IsTime now) (server : Bool) {r o : Record} (hr : Global r)
    (hvisit : now < o.lifetime ∧ (o.expire ≤ now → o.active = false))
    (hold : o.lastmod < r.lastmod ∧ o.target.user = r.target.user ∧ o.target.host = r.target.host)
    {reason : Str} (hcut : reason ≠ r.reason → IsCStr reason ∧ reason.length < r.reason.length) :
    Same (modify now o ⟨wordsOf now r reason, actionOf r.active, server⟩) r ↔
      MeetsOld now server r o ∧ reason = r.reason := by
  obtain ⟨hlt, huser, hhost⟩ := hold
  have hpos : 0 < now := by
    have hlow := hnow.1
    unfold pastwatch at hlow
    omega
  have hexp := absExpire_eq_iff hnow r.expire
  have hexp0 := absExpire_eq_zero_iff hnow r.expire
  have hmod := atoi_tu_eq_iff r.lastmod
  have hlife := newLifetime_eq_iff (r := r) (o := o) (hpos.trans hvisit.1)
  have hactive := newActive_eq_iff hpos (r := r) hvisit.2
  have hreason := reason_eq_iff (o := o) hr.reason hcut
  have hwords := @modify_words now o (wordsOf now r reason) r.active server ⟨rfl, rfl, rfl⟩
  have hignored := @modify_ignored now o (wordsOf now r reason) r.active server
  unfold Unchanged at hwords
  simp only [wordsOf] at hwords hignored ⊢
  obtain ⟨e, he⟩ : ∃ e, absExpire now (atoi (tu (r.expire - now))) = e := ⟨_, rfl⟩
  rw [he] at hexp hexp0
  simp only [he] at hwords hignored ⊢
  constructor
  · intro hsame
    have hnew : o.lastmod < atoi (tu r.lastmod) := by
      by_contra hle
      rw [hignored (.inl (not_lt.1 hle))] at hsame
      exact absurd hsame.lastmod hlt.ne
    have hacc : e ≠ 0 → Accepted now server e := by
      intro h0
      by_contra hno
      rw [hignored (.inr ⟨trivial, h0, hno⟩)] at hsame
      exact absurd hsame.lastmod hlt.ne
    rw [hwords hnew hacc] at hsame
    split at hsame
    · exact absurd hsame.lastmod hlt.ne
    next hun =>
      obtain ⟨_, _, hactive', hexpire', hlastmod', hlifetime', hreason'⟩ := hsame
      dsimp only at hactive' hexpire' hlastmod' hlifetime' hreason'
      have hE : e = r.expire ∨ (e = 0 ∧ o.expire = r.expire) := by
        split at hexpire'
        · next h0 =>
            unfold newExpire at h0
            split at h0
            · next heq => exact .inl (heq.trans hexpire')
            · exact .inr ⟨h0, hexpire'⟩
        · exact .inl hexpire'
      rw [newExpire_congr hE] at hun
      have hL : newLifetime o e (atoi (tu r.lifetime)) = newLifetime o r.expire (atoi (tu r.lifetime)) := by
        unfold newLifetime
        rw [newExpire_congr hE]
      have hA : newActive now o e r.active = newActive now o r.expire r.active := by
        unfold newActive
        rw [newExpire_congr hE]
      rw [hL] at hun hlifetime'
      rw [hA] at hun hactive'
      obtain ⟨hcase, rfl⟩ := hreason.1 hreason'
      refine ⟨⟨hmod.1 hlastmod', ?_, hlife.1 hlifetime', hcase, hactive.1 hactive', ?_⟩, rfl⟩
      · rcases hE with rfl | ⟨h0, heq⟩
        · have hreads := hexp.1 rfl
          have h0 : r.expire ≠ 0 := by
            have hge := hreads.1
            have hlow := hnow.1
            unfold pastwatch at hlow
            omega
          exact .inl ⟨hreads, hacc h0⟩
        · exact .inr ⟨hexp0.1 h0, heq⟩
      · by_contra hno
        simp only [not_or, ne_eq, not_not] at hno
        obtain ⟨h1, h2, h3, h4⟩ := hno
        refine hun ⟨?_, ?_, ?_, ?_⟩
        · rw [newExpire, if_pos h2.symm]
        · rw [h3]
          exact (le_max_right _ _).trans hlifetime'.le
        · rw [h4, strEq_refl]
        · rw [hactive', h1]
  · rintro ⟨⟨hlastmod, hexpire, hlifetime, hcase, hact, hdiff⟩, rfl⟩
    have hm := hmod.2 hlastmod
    have hE : e = r.expire ∨ (e = 0 ∧ o.expire = r.expire) := by
      rcases hexpire with ⟨hreads, _⟩ | ⟨hlost, heq⟩
      · exact .inl (hexp.2 hreads)
      · exact .inr ⟨hexp0.2 hlost, heq⟩
    have hacc : e ≠ 0 → Accepted now server e := by
      intro h0
      rcases hexpire with ⟨hreads, hacc⟩ | ⟨hlost, _⟩
      · rw [hexp.2 hreads]
        exact hacc
      · exact absurd (hexp0.2 hlost) h0
    have hL : newLifetime o e (atoi (tu r.lifetime)) = newLifetime o r.expire (atoi (tu r.lifetime)) := by
      unfold newLifetime
      rw [newExpire_congr hE]
    have hA : newActive now o e r.active = newActive now o r.expire r.active := by
      unfold newActive
      rw [newExpire_congr hE]
    rw [hwords (by rw [hm]; exact hlt) hacc, if_neg]
    · refine ⟨huser, hhost, hA.trans (hactive.2 hact), ?_, hm, ?_, hreason.2 ⟨hcase, rfl⟩⟩
      · dsimp only
        split
        · next h0 =>
            unfold newExpire at h0
            split at h0
            · next heq =>
                rcases hE with rfl | ⟨_, heq'⟩
                · exact heq.symm
                · exact heq'
            · rcases hE with rfl | ⟨_, heq'⟩
              · have hge := (hexp.1 rfl).1
                have hlow := hnow.1
                unfold pastwatch at hlow
                omega
              · exact heq'
        · next h0 =>
            rcases hE with rfl | ⟨rfl, _⟩
            · rfl
            · unfold newExpire at h0
              split at h0 <;> exact absurd rfl h0
      · dsimp only
        rw [hL]
        exact hlife.2 hlifetime
    · rintro ⟨h1, h2, h3, h4⟩
      rw [newExpire_congr hE] at h1
      rw [hL] at h2
      rw [hA, hactive.2 hact] at h4
      rcases hdiff with h | h | h | h
      · exact h h4.symm
      · rw [newExpire, if_neg (Ne.symm h)] at h1
        rcases hexpire with ⟨hreads, _⟩ | ⟨_, heq⟩
        · have hlow := hreads.1
          have hpast := hnow.1
          unfold pastwatch at hpast
          omega
        · exact h heq
      · have hmax := hlife.2 hlifetime
        rw [max_eq_left h2] at hmax
        exact h hmax
      · exact h (hcase h3)

/-! ### One word -/

/-- Nothing, or a zero: blanks, a sign and noughts. ISO C `strtoul`. -/
def Nought (s : Str) : Prop :=
  s = [] ∨ ∃ blanks sign zeros : Str, s = blanks ++ (sign ++ zeros) ∧ (∀ c ∈ blanks, isSpace c = true) ∧
    (sign = [] ∨ sign = ['-'] ∨ sign = ['+']) ∧ zeros ≠ [] ∧ ∀ c ∈ zeros, c = '0'

lemma ofDigitChars_eq_zero_iff : (s : Str) → (∀ c ∈ s, isDigit c = true) → (a : ℕ) →
    (Nat.ofDigitChars 10 s a = 0 ↔ a = 0 ∧ ∀ c ∈ s, c = '0')
  | [], _, a => by simp
  | c :: s, hs, a => by
    have hc := of_decide_eq_true (hs c List.mem_cons_self)
    have hlow : 48 ≤ c.toNat := hc.1
    have hzero : c.toNat - '0'.toNat = 0 ↔ c = '0' := by
      constructor
      · intro h
        have hle : c.toNat ≤ 48 := Nat.sub_eq_zero_iff_le.1 h
        exact Char.toNat_inj.1 (le_antisymm hle hlow)
      · rintro rfl
        rfl
    rw [Nat.ofDigitChars_cons, ofDigitChars_eq_zero_iff s (fun d hd => hs d (List.mem_cons_of_mem _ hd))]
    simp only [Nat.add_eq_zero_iff, Nat.mul_eq_zero, List.forall_mem_cons, hzero]
    constructor
    · rintro ⟨⟨h | h, h'⟩, h''⟩
      · exact absurd h (by decide)
      · exact ⟨h, h', h''⟩
    · rintro ⟨h, h', h''⟩
      exact ⟨⟨.inr h, h'⟩, h''⟩

lemma strtoul_eq_zero_iff (s : Str) : strtoul s = (0, []) ↔ Nought s := by
  constructor
  · intro h
    unfold strtoul at h
    extract_lets t u n at h
    have hsplit : s = s.takeWhile isSpace ++ t := (List.takeWhile_append_dropWhile).symm
    have hblanks : ∀ c ∈ s.takeWhile isSpace, isSpace c = true := fun c hc => List.mem_takeWhile_imp hc
    split at h
    · exact .inl (congrArg Prod.snd h)
    · next hne =>
        have hvalue : n = 0 ∧ u.dropWhile isDigit = [] := by
          split at h
          · have hfst : (2 ^ 64 - 1 : ℕ) = 0 := congrArg Prod.fst h
            exact absurd hfst (by decide)
          · next hlt =>
              refine ⟨?_, congrArg Prod.snd h⟩
              have h0 : (if t.head? = some '-' then (2 ^ 64 - n) % 2 ^ 64 else n) = 0 := congrArg Prod.fst h
              split at h0 <;> omega
        obtain ⟨hn, hrest⟩ := hvalue
        have hu : u.takeWhile isDigit = u := by
          conv_rhs => rw [← List.takeWhile_append_dropWhile (p := isDigit) (l := u), hrest, append_nil]
        have hdigits : ∀ c ∈ u, isDigit c = true := fun c hc => by
          rw [← hu] at hc
          exact List.mem_takeWhile_imp hc
        have hzeros : ∀ c ∈ u, c = '0' := by
          have hval : Nat.ofDigitChars 10 u 0 = 0 := by
            rw [← hu]
            exact hn
          exact ((ofDigitChars_eq_zero_iff u hdigits 0).1 hval).2
        rw [hu] at hne
        by_cases hsign : t.head? = some '-' ∨ t.head? = some '+'
        · have hu' : u = t.drop 1 := if_pos hsign
          refine .inr ⟨_, t.take 1, u, ?_, hblanks, ?_, hne, hzeros⟩
          · rw [hu', List.take_append_drop]
            exact hsplit
          · cases ht : t with
            | nil => exact .inl rfl
            | cons d t' =>
              rw [ht] at hsign
              rcases hsign with h' | h'
              · exact .inr (.inl (by simpa using h'))
              · exact .inr (.inr (by simpa using h'))
        · have hu' : u = t := if_neg hsign
          exact .inr ⟨_, [], u, by rw [hu', List.nil_append]; exact hsplit, hblanks, .inl rfl, hne, hzeros⟩
  · rintro (rfl | ⟨blanks, sign, zeros, rfl, hblanks, hsign, hne, hzeros⟩)
    · rfl
    · obtain ⟨z, zeros, rfl⟩ := List.exists_cons_of_ne_nil hne
      obtain rfl := hzeros z List.mem_cons_self
      have hdigits : ∀ c ∈ '0' :: zeros, isDigit c = true := fun c hc => by
        rw [hzeros c hc]
        decide
      have hvalue : Nat.ofDigitChars 10 ('0' :: zeros) 0 = 0 :=
        (ofDigitChars_eq_zero_iff _ hdigits 0).2 ⟨rfl, hzeros⟩
      have htake : ('0' :: zeros).takeWhile isDigit = '0' :: zeros := List.takeWhile_eq_self_iff.2 hdigits
      have hdrop : ('0' :: zeros).dropWhile isDigit = [] := List.dropWhile_eq_nil_iff.2 hdigits
      have hstart : (blanks ++ (sign ++ '0' :: zeros)).dropWhile isSpace = sign ++ '0' :: zeros := by
        rw [List.dropWhile_append_of_pos hblanks]
        rcases hsign with rfl | rfl | rfl <;> rfl
      unfold strtoul
      simp only [hstart]
      rcases hsign with rfl | rfl | rfl
      · simp [htake, hdrop, hvalue]
      · simp [htake, hdrop, hvalue]
      · simp [htake, hdrop, hvalue]

/-- A single word is taken for what it is: a decimal number is the lifetime, and anything else is the reason.
`ms_gline` ("either a lifetime or a reason"). -/
def Taken (w : Words) (word : Str) : Prop :=
  (∀ n, Decimal word n → w.fLifetime = true ∧ w.fReason = false ∧ w.lifetime = n) ∧
    ((¬ ∃ n, Decimal word n) → w.fReason = true ∧ w.fLifetime = false ∧ w.reason = word)

lemma strtoul_lt (s : Str) : (strtoul s).1 < 2 ^ 64 := by
  unfold strtoul
  extract_lets t u n
  split
  · exact Nat.two_pow_pos 64
  · split
    · dsimp only
      omega
    · dsimp only
      split <;> omega

lemma oneWord_cases (w : Words) (word : Str) :
    (Nought word ∧ w.oneWord true word = { w with reason := word, fReason := true }) ∨
      (¬ Nought word ∧ (strtoul word).1 ≠ 0 ∧ w.oneWord true word =
        { w with lifetime := Int.bmod (strtoul word).1 (2 ^ 64), fLifetime := true }) ∨
      (¬ Nought word ∧ (strtoul word).1 = 0 ∧ w.oneWord true word = w) := by
  have hlt := strtoul_lt word
  have hzero : Int.bmod (strtoul word).1 (2 ^ 64) = 0 ↔ (strtoul word).1 = 0 := by
    rw [Int.bmod_def]
    push_cast
    split <;> omega
  have hnought : (!true || (Int.bmod (strtoul word).1 (2 ^ 64) = 0 && (strtoul word).2 = [])) = true ↔
      Nought word := by
    rw [← strtoul_eq_zero_iff, Prod.ext_iff]
    simp only [Bool.not_true, Bool.false_or, Bool.and_eq_true, decide_eq_true_eq, hzero]
  unfold Words.oneWord
  dsimp only
  by_cases hno : Nought word
  · rw [if_pos (hnought.2 hno)]
    exact .inl ⟨hno, rfl⟩
  · rw [if_neg (mt hnought.1 hno)]
    by_cases h0 : (strtoul word).1 = 0
    · rw [if_neg (not_not.2 (hzero.2 h0))]
      exact .inr (.inr ⟨hno, h0, rfl⟩)
    · rw [if_pos (mt hzero.1 h0)]
      exact .inr (.inl ⟨hno, h0, rfl⟩)

/-- **When a single word is taken for what it is**: it is a decimal number that is not zero and that a `time_t`
holds, or it is not one and is read as a zero. -/
theorem oneWord_taken_iff {w : Words} (hw : w.fLifetime = false ∧ w.fReason = false) (word : Str) :
    Taken (w.oneWord true word) word ↔
      (∃ n, Decimal word n ∧ 0 < n ∧ n < 2 ^ 63) ∨ (Nought word ∧ ¬ ∃ n, Decimal word n) := by
  obtain ⟨hL, hR⟩ := hw
  have hcases := oneWord_cases w word
  by_cases hdec : ∃ n, Decimal word n
  · obtain ⟨n, hn⟩ := hdec
    have huniq : ∀ m, Decimal word m → m = n := fun m hm => hm.2.2.symm.trans hn.2.2
    have hvalue : n < 2 ^ 64 → strtoul word = (n, []) := strtoul_decimal hn
    constructor
    · rintro ⟨htaken, _⟩
      obtain ⟨h1, h2, h3⟩ := htaken n hn
      rcases hcases with ⟨_, heq⟩ | ⟨hno, _, heq⟩ | ⟨_, _, heq⟩
      · rw [heq] at h2
        exact Bool.noConfusion h2
      · rw [heq] at h3
        refine .inl ⟨n, hn, ?_, ?_⟩
        · by_contra h0
          obtain rfl : n = 0 := by omega
          exact hno ((strtoul_eq_zero_iff word).1 (hvalue (by decide)))
        · dsimp only at h3
          rw [Int.bmod_def] at h3
          push_cast at h3
          split at h3 <;> omega
      · rw [heq, hL] at h1
        exact Bool.noConfusion h1
    · rintro (⟨m, hm, hpos, hlt⟩ | ⟨_, hno⟩)
      · obtain rfl := huniq m hm
        have hread := hvalue (by omega)
        rcases hcases with ⟨hno, _⟩ | ⟨_, _, heq⟩ | ⟨_, h0, _⟩
        · rw [← strtoul_eq_zero_iff, hread] at hno
          exact absurd (congrArg Prod.fst hno) hpos.ne'
        · rw [heq]
          refine ⟨fun k hk => ⟨rfl, hR, ?_⟩, fun h => absurd ⟨m, hm⟩ h⟩
          dsimp only
          rw [huniq k hk, hread, Int.bmod_def]
          push_cast
          split <;> omega
        · rw [hread] at h0
          exact absurd h0 hpos.ne'
      · exact absurd ⟨n, hn⟩ hno
  · constructor
    · rintro ⟨_, htaken⟩
      obtain ⟨h1, h2, _⟩ := htaken hdec
      rcases hcases with ⟨hno, _⟩ | ⟨_, _, heq⟩ | ⟨_, _, heq⟩
      · exact .inr ⟨hno, hdec⟩
      · rw [heq] at h2
        exact Bool.noConfusion h2
      · rw [heq, hR] at h1
        exact Bool.noConfusion h1
    · rintro (⟨n, hn, _⟩ | ⟨hno, _⟩)
      · exact absurd ⟨n, hn⟩ hdec
      · rcases hcases with ⟨_, heq⟩ | ⟨hno', _⟩ | ⟨hno', _⟩
        · rw [heq]
          exact ⟨fun n hn => absurd ⟨n, hn⟩ hdec, fun _ => ⟨rfl, hL, rfl⟩⟩
        · exact absurd hno hno'
        · exact absurd hno hno'

/-! ### The codec -/

def Arrives (bits : ℕ) (now : ℤ) (server : Bool) (T : Table) (src : Str) (r : Record) : Prop :=
  ∃ g, msGline bits now server T (messageParams (glineLine now src r)) = some g ∧ Same g r

/-- When it does, by what the receiver has. -/
def Meets (now : ℤ) (server : Bool) (r : Record) : Option Record → Prop
  | none => MeetsNew now server r
  | some o => MeetsOld now server r o

lemma arrives_iff (bits : ℕ) (hnow : IsTime now) (server : Bool) (T : Table)
    (hsrc : IsWord src) {r : Record} (hr : Global r)
    (hT : ∀ o ∈ glineFind now T (mask r.target),
      o.lastmod < r.lastmod ∧ o.target.user = r.target.user ∧ o.target.host = r.target.host)
    (hhead : (glineHead now src r).length ≤ bufSize - 2) :
    Arrives bits now server T src r ↔
      Meets now server r (glineFind now T (mask r.target)) ∧ Fits now src r := by
  obtain ⟨_, userhost, hblank, hknown⟩ := hr.known
  obtain ⟨hne, hword, _⟩ := glineTarget_mask hknown bits
  obtain ⟨reason, hread, hfits, hcut⟩ := messageParams_glineLine hsrc (hword hblank) hhead
  have hcut' : reason ≠ r.reason → IsCStr reason ∧ reason.length < r.reason.length := fun hne' =>
    ⟨fun c hc => hr.reason c ((hcut hne').1 c hc), (hcut hne').2⟩
  unfold Arrives
  rw [hread, msGline_words bits server T hne, ← hfits]
  cases hfind : glineFind now T (mask r.target) with
  | none => exact same_glineAdd_iff bits hnow server hr reason
  | some o =>
    have hsame := same_modify_iff hnow server hr (glineFind_visited hfind) (hT o hfind) hcut'
    constructor
    · rintro ⟨g, hg, hg'⟩
      split at hg
      · exact absurd hg (some_ne_none g).symm
      · obtain rfl := some_inj.1 hg
        exact hsame.1 hg'
    · intro h
      have hm := (atoi_tu_eq_iff r.lastmod).2 h.1.lastmod
      rw [if_neg (by rw [hm]; exact hr.lastmod)]
      exact ⟨_, rfl, hsame.2 h⟩

/-- **The codec**: a record whose message is not cut arrives as it was exactly if its numbers are read back and
the receiver takes it (`Meets`). A single word behind the time of modification of a known G-line is taken as the
lifetime when it is a decimal number other than zero that a `time_t` holds, and is the reason when it reads as a
zero. -/
theorem gline_codec (bits : ℕ) {now : ℤ} (hnow : IsTime now) (server : Bool) (T : Table) {src : Str}
    (hsrc : IsWord src) {r : Record} (hr : Global r)
    (hT : ∀ o ∈ glineFind now T (mask r.target),
      o.lastmod < r.lastmod ∧ o.target.user = r.target.user ∧ o.target.host = r.target.host)
    (hfits : Fits now src r) :
    (Arrives bits now server T src r ↔ Meets now server r (glineFind now T (mask r.target))) ∧
      ∀ action expire lastmod word, ∃ w, convert now true action [expire, lastmod, word] = some w ∧
        (∀ n, Decimal word n → 0 < n → n < 2 ^ 63 → w.fLifetime = true ∧ w.fReason = false ∧ w.lifetime = n) ∧
        (Nought word → w.fReason = true ∧ w.fLifetime = false ∧ w.reason = word) := by
  have hhead : (glineHead now src r).length ≤ bufSize - 2 := by
    unfold Fits at hfits
    rw [List.length_append] at hfits
    omega
  constructor
  · rw [arrives_iff bits hnow server T hsrc hr hT hhead]
    exact and_iff_left hfits
  · intro action expire lastmod word
    refine ⟨_, rfl, fun n hn hpos hlt => ?_, fun hno => ?_⟩
    · exact ((oneWord_taken_iff ⟨rfl, rfl⟩ word).2 (.inl ⟨n, hn, hpos, hlt⟩)).1 n hn
    · rcases oneWord_cases { Words.start with
          expire := absExpire now (atoi expire), lastmod := atoi lastmod, fExpire := true } word
        with ⟨_, heq⟩ | ⟨hno', _⟩ | ⟨hno', _⟩
      · rw [heq]
        exact ⟨rfl, rfl, rfl⟩
      · exact absurd hno hno'
      · exact absurd hno hno'

theorem gline_codec_fresh : Arrives 0 1700000000 true ⟨[], []⟩ "AB".toList
      ⟨⟨['*'], some "evil.example".toList, false, false, false, none⟩, true, .global, "Spam".toList,
        1700003600, 1699999000, 1700003600, false⟩ :=
  (gline_codec 0 (by unfold IsTime pastwatch; omega) true ⟨[], []⟩ (by decide)
    ⟨rfl, by decide, by decide, 0, "evil.example".toList, by decide, by decide +kernel⟩
    (by
      intro o ho
      exact absurd (show o ∈ (none : Option Record) from ho) (Option.not_mem_none o))
    (by decide +kernel)).1.2
    ⟨by decide +kernel, by decide +kernel, .inl rfl, fun _ => by decide +kernel,
      .inl ⟨by decide +kernel, by decide +kernel⟩⟩

/-- **A longer lifetime stays**, and the record does not arrive as it was. -/
theorem longer_lifetime_stays : ¬ ∀ (now : ℤ) (T : Table) (r : Record), IsTime now → Global r →
      (∀ o ∈ glineFind now T (mask r.target),
        o.lastmod < r.lastmod ∧ o.target.user = r.target.user ∧ o.target.host = r.target.host) →
      Arrives 0 now true T "AB".toList r := by
  intro hall
  let r : Record :=
    ⟨⟨['*'], some "evil.example".toList, false, false, false, none⟩, true, .global, "Spam".toList,
      1700003600, 1699999000, 1700003600, false⟩
  let o : Record := { r with lastmod := 1699990000, expire := 1700007200, lifetime := 1700007200 }
  have hfind : glineFind 1700000000 ⟨[], [o]⟩ (mask r.target) = some o := by decide +kernel
  obtain ⟨g, hg, hsame⟩ := hall 1700000000 ⟨[], [o]⟩ r (by unfold IsTime pastwatch; omega)
    ⟨rfl, by decide, by decide, 0, "evil.example".toList, by decide, by decide +kernel⟩
    (by
      intro o' ho'
      obtain rfl := some_inj.1 (hfind.symm.trans ho')
      decide +kernel)
  have hrun : msGline 0 1700000000 true ⟨[], [o]⟩ (messageParams (glineLine 1700000000 "AB".toList r)) =
      some { r with lifetime := 1700007200 } := by decide +kernel
  obtain rfl := some_inj.1 (hg.symm.trans hrun)
  exact absurd hsame.lifetime (by decide)

end Nefarious.Glines.Codec
