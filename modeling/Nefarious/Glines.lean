import Mathlib.Data.List.Perm.Basic
import Mathlib.Tactic.Push
import Nefarious.Strings

/-!
# Updates of a G-line

A G-line that is known to all servers is changed by updates with a time.

Names: `gline.c`.
-/

namespace Nefarious.Glines

/-! ### The G-line -/

/-- The local state of a G-line. `gline.h` `enum GlineLocalState`. -/
inductive GlineLocalState
  | «global»
  | activated
  | deactivated
deriving DecidableEq

/-- What is to be done to a G-line. `gline.h` `enum GlineAction`. -/
inductive GlineAction
  | activate
  | deactivate
  | localActivate
  | localDeactivate
  | modify
deriving DecidableEq

/-- Only on this server. `gline_modify`. -/
def GlineAction.isLocal : GlineAction → Bool
  | .localActivate | .localDeactivate => true
  | _ => false

/-- `GLINE_ACTIVE` then. `gline_modify`. -/
def GlineAction.activeAfter : GlineAction → Bool → Bool
  | .activate, _ => true
  | .deactivate, _ => false
  | _, active => active

/-- A global G-line. `gline.h` `struct Gline`. -/
structure Gline where
  /-- `GLINE_ACTIVE` of `gl_flags`. -/
  active : Bool
  state : GlineLocalState
  reason : Str
  expire : ℕ
  lastmod : ℕ
  lifetime : ℕ
deriving DecidableEq

/-- The arguments of `gline_modify`. -/
structure Update where
  action : GlineAction
  reason : Str
  expire : ℕ
  lastmod : ℕ
  lifetime : ℕ
  /-- `GLINE_FORCE` of `flags`. -/
  force : Bool
  /-- `GLINE_EXPIRE` of `flags`. -/
  fExpire : Bool
  /-- `GLINE_LIFETIME` of `flags`. -/
  fLifetime : Bool
  /-- `GLINE_REASON` of `flags`. -/
  fReason : Bool

/-- Seven days. `gline.h`. -/
def glineMaxExpire : ℕ := 604800

/-- Modify a global G-line, at the time `now`. -/
def glineModify (now : ℕ) (gline : Gline) (u : Update) : Gline :=
  -- We have a more recent version, or that version.
  if !u.action.isLocal && u.lastmod < gline.lastmod then gline
  else if !u.action.isLocal && gline.lastmod = u.lastmod then gline
  else if (u.fExpire && u.expire ≠ 0) &&
      (!u.force && (u.expire ≤ now || now + glineMaxExpire < u.expire)) then gline
  else
    let fExpire := u.fExpire && u.expire ≠ 0
    let same := fExpire && u.expire = gline.expire
    let expire := if same then 0 else u.expire
    let fExpire := fExpire && !same
    let lifetime := if !u.fLifetime || u.lifetime = 0 then gline.lifetime else u.lifetime
    let lifetime := max lifetime expire
    let fLifetime := gline.lifetime < lifetime
    let fReason := u.fReason && !strEq gline.reason u.reason
    let action :=
      if (u.action = .activate && gline.active) || (u.action = .deactivate && !gline.active) ||
          (u.action = .localActivate && gline.state = .activated) ||
          (u.action = .localDeactivate && gline.state = .deactivated) ||
          -- An expired G-line cannot be activated.
          max gline.expire expire ≤ now then .modify
      else u.action
    if !(fExpire || fLifetime || fReason) && action = .modify then gline
    else
      { active := action.activeAfter gline.active
        state := match action with
          | .activate | .deactivate => .global
          | .localActivate => .activated
          | .localDeactivate => .deactivated
          | .modify => gline.state
        reason := if fReason then u.reason else gline.reason
        expire := if fExpire then expire else gline.expire
        lastmod := if action.isLocal then gline.lastmod else u.lastmod
        lifetime := if fLifetime then lifetime else gline.lifetime }

/-- What all servers should agree on. -/
structure Shared where
  active : Bool
  reason : Str
  expire : ℕ
  lastmod : ℕ
  lifetime : ℕ
deriving DecidableEq

/-- What all servers should agree on. -/
def Gline.shared (g : Gline) : Shared := ⟨g.active, g.reason, g.expire, g.lastmod, g.lifetime⟩

/-- Updates in the order in which a server gets them, each with the time at which it does. -/
def applyAll (g : Gline) (arrivals : List (ℕ × Update)) : Gline :=
  arrivals.foldl (fun g a => glineModify a.1 g a.2) g

/-! ### What an update does -/

/-- It gives an expiration time. `gline_modify`. -/
def Update.setsExpire (u : Update) : Bool := u.fExpire && u.expire ≠ 0

/-- The lifetime it asks for at least. `gline_modify`. -/
def Update.atLeast (u : Update) : ℕ := max (if u.fLifetime then u.lifetime else 0) u.expire

/-- The expiration time then. `gline_modify`. -/
def Update.expireAfter (u : Update) (expire : ℕ) : ℕ := if u.setsExpire then u.expire else expire

/-- The reason then. `gline_modify`. -/
def Update.reasonAfter (u : Update) (reason : Str) : Str :=
  if u.fReason && !strEq reason u.reason then u.reason else reason

/-- Its expiration time is accepted at the time `now`. `gline_modify`. -/
def Update.Accepted (u : Update) (now : ℕ) : Prop :=
  u.setsExpire = true → u.force = true ∨ (now < u.expire ∧ u.expire ≤ now + glineMaxExpire)

/-- It comes in time to activate or deactivate a G-line, if that is what it does. `gline_modify` ("can't
activate an expired G-line"). -/
def Update.InTime (u : Update) (expire now : ℕ) : Prop :=
  u.action = .modify ∨ now < u.expireAfter expire

/-- It changes something. `gline_modify` ("If there are no changes to perform, do no changes"). -/
def Update.Changes (u : Update) (g : Gline) : Prop :=
  (u.setsExpire = true ∧ u.expire ≠ g.expire) ∨ g.lifetime < u.atLeast ∨
    (u.fReason = true ∧ strEq g.reason u.reason = false) ∨ u.action.activeAfter g.active ≠ g.active

lemma glineModify_stale (now : ℕ) {g : Gline} {u : Update} (hloc : u.action.isLocal = false)
    (h : u.lastmod ≤ g.lastmod) : glineModify now g u = g := by
  unfold glineModify
  obtain hlt | heq := Nat.lt_or_eq_of_le h
  · simp [hloc, hlt]
  · simp [hloc, heq]

lemma max_lifetime {g : Gline} (hlife : g.expire ≤ g.lifetime) (u : Update) {expire : ℕ}
    (hexpire : expire = u.expire ∨ (expire = 0 ∧ u.expire = g.expire)) :
    max g.lifetime (max (if !u.fLifetime || u.lifetime = 0 then g.lifetime else u.lifetime) expire) =
      max g.lifetime u.atLeast := by
  unfold Update.atLeast
  cases u.fLifetime with
  | false => simp; omega
  | true =>
    by_cases h0 : u.lifetime = 0
    · simp [h0]; omega
    · simp [h0]; omega

lemma glineModify_newer {now : ℕ} {g : Gline} {u : Update} (hloc : u.action.isLocal = false)
    (hlife : g.expire ≤ g.lifetime) (hnew : g.lastmod < u.lastmod) (hacc : u.Accepted now) : ∃ active, (active =
    g.active ∨ active = u.action.activeAfter g.active) ∧ (u.InTime g.expire now → active =
    u.action.activeAfter g.active) ∧ (glineModify now g u = g ∨ (glineModify now g u).shared =
    ⟨active, u.reasonAfter g.reason, u.expireAfter g.expire, u.lastmod, max g.lifetime u.atLeast⟩) ∧
    (u.InTime g.expire now → u.Changes g → (glineModify now g u).lastmod = u.lastmod) := by
  unfold glineModify
  rw [if_neg (by simp; omega), if_neg (by simp; omega), if_neg]
  · extract_lets fE same expire fE' life life' fL fR action
    have hfE : fE = u.setsExpire := rfl
    have hsame : same = true → u.expire = g.expire := by
      intro h
      simp only [same, Bool.and_eq_true, decide_eq_true_eq] at h
      exact h.2
    have hexpire : expire = u.expire ∨ (expire = 0 ∧ u.expire = g.expire) := by
      cases h : same with
      | false => exact .inl (by simp [expire, h])
      | true => exact .inr ⟨by simp [expire, h], hsame h⟩
    have hE : (if fE' then expire else g.expire) = u.expireAfter g.expire := by
      unfold Update.expireAfter
      cases h : same with
      | false => simp [fE', expire, h, hfE]
      | true => simp [fE', h, hsame h]
    have hL : (if fL then life' else g.lifetime) = max g.lifetime u.atLeast := by
      rw [← max_lifetime hlife u hexpire]
      split
      · next h => exact (max_eq_right (le_of_lt h)).symm
      · next h => exact (max_eq_left (Nat.not_lt.mp h)).symm
    have hR : (if fR then u.reason else g.reason) = u.reasonAfter g.reason := rfl
    have hmodify : action = .modify ∨ action = u.action := by
      simp only [action]
      split
      · exact .inl rfl
      · exact .inr rfl
    have hnotloc : action.isLocal = false := by
      obtain h | h := hmodify
      · rw [h]
        rfl
      · rw [h, hloc]
    have hactive : u.InTime g.expire now → action.activeAfter g.active = u.action.activeAfter g.active := by
      rintro (hmod | hnow)
      · obtain h | h := hmodify
        · rw [h, hmod]
        · rw [h]
      have hexp : ¬max g.expire expire ≤ now := by
        rw [← hE] at hnow
        split at hnow
        · omega
        · omega
      simp only [action, decide_eq_false hexp, Bool.or_false]
      split
      · next h =>
        cases hact : u.action with
        | activate =>
          have hg : g.active = true := by simpa [hact] using h
          rw [hg]
          rfl
        | deactivate =>
          have hg : g.active = false := by simpa [hact] using h
          rw [hg]
          rfl
        | localActivate => rfl
        | localDeactivate => rfl
        | modify => rfl
      · rfl
    refine ⟨action.activeAfter g.active, ?_, hactive, ?_, ?_⟩
    · obtain h | h := hmodify
      · exact .inl (by rw [h]; rfl)
      · exact .inr (by rw [h])
    · split
      · exact .inl rfl
      · refine .inr ?_
        simp only [Gline.shared, hE, hL, hR, hnotloc]
        rfl
    · intro hnow hchanges
      split
      · next hno =>
        simp only [Bool.and_eq_true, Bool.not_eq_true', Bool.or_eq_false_iff, decide_eq_true_eq,
          decide_eq_false_iff_not] at hno
        obtain ⟨⟨⟨hno1, hno2⟩, hno3⟩, hno4⟩ := hno
        exfalso
        obtain ⟨hset, hne⟩ | hlt | ⟨hr, hcase⟩ | hact := hchanges
        · have hs : same = false := by simp [same, hne]
          simp [fE', hs, hfE, hset] at hno1
        · rw [if_neg hno2] at hL
          omega
        · simp [fR, hr, hcase] at hno3
        · rw [← hactive hnow, hno4] at hact
          exact hact rfl
      · simp [hnotloc]
  · intro h
    simp only [Bool.and_eq_true, Bool.or_eq_true, Bool.not_eq_true', decide_eq_true_eq] at h
    obtain hforce | hnow := hacc (by simpa [Update.setsExpire] using h.1)
    · simp [hforce] at h
    · omega

lemma glineModify_cases (now : ℕ) {g : Gline} {u : Update} (hloc : u.action.isLocal = false)
    (hlife : g.expire ≤ g.lifetime) : glineModify now g u = g ∨ (∃ active, (active = g.active ∨ active =
    u.action.activeAfter g.active) ∧ (glineModify now g u).shared =
    ⟨active, u.reasonAfter g.reason, u.expireAfter g.expire, u.lastmod, max g.lifetime u.atLeast⟩) := by
  by_cases hnew : g.lastmod < u.lastmod
  · by_cases hacc : u.Accepted now
    · obtain ⟨active, hactive, -, hg | hg, -⟩ := glineModify_newer hloc hlife hnew hacc
      · exact .inl hg
      · exact .inr ⟨active, hactive, hg⟩
    · refine .inl ?_
      unfold Update.Accepted at hacc
      push Not at hacc
      obtain ⟨hset, hforce, hbad⟩ := hacc
      unfold glineModify
      rw [if_neg (by simp; omega), if_neg (by simp; omega), if_pos]
      have hbad : u.expire ≤ now ∨ now + glineMaxExpire < u.expire := by
        by_contra h
        push Not at h
        have := hbad h.1
        omega
      unfold Update.setsExpire at hset
      rw [hset]
      simp [hforce, hbad]
  · exact .inl (glineModify_stale now hloc (Nat.not_lt.mp hnew))

/-! ### Updates in any order -/

/-- An update that is newer than the G-line and all others, gives every field that one of these gives, and
changes something whenever it arrives. -/
structure Decides (g : Gline) (older : List Update) (m : Update) : Prop where
  notLocal : m.action.isLocal = false ∧ ∀ u ∈ older, u.action.isLocal = false
  life : g.expire ≤ g.lifetime
  newest : g.lastmod < m.lastmod ∧ ∀ u ∈ older, u.lastmod < m.lastmod
  expire : m.setsExpire = true ∨ ∀ u ∈ older, u.setsExpire = false
  reason : m.fReason = true ∨ ∀ u ∈ older, u.fReason = false
  «case» : m.fReason = true → ∀ r, (r = g.reason ∨ ∃ u ∈ older, u.fReason = true ∧ r = u.reason) →
    strEq r m.reason = true → r = m.reason
  action : m.action ≠ .modify ∨ ∀ u ∈ older, u.action = .modify
  lifetime : ∀ u ∈ older, u.atLeast ≤ max g.lifetime m.atLeast
  changes : (m.setsExpire = true ∧ m.expire ≠ g.expire ∧
      ∀ u ∈ older, u.setsExpire = true → m.expire ≠ u.expire) ∨
    (g.lifetime < m.atLeast ∧ ∀ u ∈ older, u.atLeast < m.atLeast) ∨
    (m.fReason = true ∧ strEq g.reason m.reason = false ∧
      ∀ u ∈ older, u.fReason = true → strEq u.reason m.reason = false) ∨
    (m.action.activeAfter g.active ≠ g.active ∧ ∀ u ∈ older, u.action.activeAfter g.active = g.active)

/-- The G-line that is decided on. -/
def decided (g : Gline) (m : Update) : Shared :=
  ⟨m.action.activeAfter g.active, if m.fReason then m.reason else g.reason, m.expireAfter g.expire,
    m.lastmod, max g.lifetime m.atLeast⟩

/-- What holds before the newest update arrives. -/
structure Before (g : Gline) (older : List Update) (m : Update) (g' : Gline) : Prop where
  lastmod : g'.lastmod < m.lastmod
  life : g'.expire ≤ g'.lifetime
  expire : g'.expire = g.expire ∨ ∃ u ∈ older, u.setsExpire = true ∧ g'.expire = u.expire
  reason : g'.reason = g.reason ∨ ∃ u ∈ older, u.fReason = true ∧ g'.reason = u.reason
  active : g'.active = g.active ∨ ∃ u ∈ older, u.action.activeAfter g.active ≠ g.active
  lifetime : g.lifetime ≤ g'.lifetime ∧ (g'.lifetime = g.lifetime ∨ ∃ u ∈ older, g'.lifetime = u.atLeast)

lemma Before.step {g g' : Gline} {older : List Update} {m u : Update} (hd : Decides g older m)
    (hb : Before g older m g') (hu : u ∈ older) (now : ℕ) : Before g older m (glineModify now g' u) := by
  obtain hsame | ⟨active, hactive, hshared⟩ := glineModify_cases now (hd.notLocal.2 u hu) hb.life
  · rw [hsame]
    exact hb
  generalize glineModify now g' u = r at hshared
  simp only [Gline.shared, Shared.mk.injEq] at hshared
  obtain ⟨h1, h2, h3, h4, h5⟩ := hshared
  obtain ⟨hlife, hlifetime⟩ := hb.lifetime
  refine ⟨?_, ?_, ?_, ?_, ?_, ?_, ?_⟩
  · rw [h4]
    exact hd.newest.2 u hu
  · have := hb.life
    rw [h3, h5, Update.expireAfter]
    unfold Update.atLeast
    split
    · omega
    · omega
  · rw [h3, Update.expireAfter]
    split
    · next h => exact .inr ⟨u, hu, h, rfl⟩
    · exact hb.expire
  · rw [h2, Update.reasonAfter]
    split
    · next h =>
      simp only [Bool.and_eq_true] at h
      exact .inr ⟨u, hu, h.1, rfl⟩
    · exact hb.reason
  · rw [h1]
    obtain rfl | rfl := hactive
    · exact hb.active
    · obtain h | h := hb.active
      · rw [h]
        by_cases hsame : u.action.activeAfter g.active = g.active
        · exact .inl hsame
        · exact .inr ⟨u, hu, hsame⟩
      · exact .inr h
  · rw [h5]
    omega
  · rw [h5]
    obtain hle | hle := le_total u.atLeast g'.lifetime
    · rw [max_eq_left hle]
      exact hlifetime
    · rw [max_eq_right hle]
      exact .inr ⟨u, hu, rfl⟩

lemma Before.applyAll {g g' : Gline} {older : List Update} {m : Update} (hd : Decides g older m)
    (hb : Before g older m g') (arrivals : List (ℕ × Update)) (ha : ∀ a ∈ arrivals, a.2 ∈ older) :
    Before g older m (applyAll g' arrivals) := by
  induction arrivals generalizing g' with
  | nil => exact hb
  | cons a arrivals ih =>
    exact ih (hb.step hd (ha a List.mem_cons_self) a.1) fun b hb => ha b (List.mem_cons_of_mem _ hb)

lemma Before.changes {g g' : Gline} {older : List Update} {m : Update} (hd : Decides g older m)
    (hb : Before g older m g') : m.Changes g' := by
  obtain ⟨hset, hne, hall⟩ | ⟨hlt, hall⟩ | ⟨hr, hne, hall⟩ | ⟨hne, hall⟩ := hd.changes
  · refine .inl ⟨hset, ?_⟩
    obtain h | ⟨u, hu, hus, h⟩ := hb.expire
    · rwa [h]
    · rw [h]
      exact hall u hu hus
  · refine .inr (.inl ?_)
    obtain h | ⟨u, hu, h⟩ := hb.lifetime.2
    · rwa [h]
    · rw [h]
      exact hall u hu
  · refine .inr (.inr (.inl ⟨hr, ?_⟩))
    obtain h | ⟨u, hu, hus, h⟩ := hb.reason
    · rwa [h]
    · rw [h]
      exact hall u hu hus
  · refine .inr (.inr (.inr ?_))
    obtain h | ⟨u, hu, h⟩ := hb.active
    · rwa [h]
    · exact absurd (hall u hu) h

lemma modify_newest {g g' : Gline} {older : List Update} {m : Update} (hd : Decides g older m)
    (hb : Before g older m g') {now : ℕ} (hacc : m.Accepted now) (htime : m.InTime g.expire now) :
    (glineModify now g' m).shared = decided g m := by
  have hexpire : m.expireAfter g'.expire = m.expireAfter g.expire := by
    unfold Update.expireAfter
    split
    · rfl
    · next h =>
      obtain h' | ⟨u, hu, hus, -⟩ := hb.expire
      · exact h'
      · have := hd.expire.resolve_left h u hu
        rw [hus] at this
        cases this
  have htime' : m.InTime g'.expire now := by
    unfold Update.InTime
    rw [hexpire]
    exact htime
  obtain ⟨active, -, hactive, hmodify, hlastmod⟩ := glineModify_newer hd.notLocal.1 hb.life hb.lastmod hacc
  have hlastmod := hlastmod htime' (hb.changes hd)
  have hshared := hmodify.resolve_left fun h => by
    rw [h] at hlastmod
    exact absurd hlastmod (Nat.ne_of_lt hb.lastmod)
  rw [hshared, hexpire, hactive htime', decided]
  have h1 : m.action.activeAfter g'.active = m.action.activeAfter g.active := by
    have hloc := hd.notLocal.1
    cases hact : m.action with
    | activate => rfl
    | deactivate => rfl
    | localActivate => simp [hact, GlineAction.isLocal] at hloc
    | localDeactivate => simp [hact, GlineAction.isLocal] at hloc
    | modify =>
      obtain h | ⟨u, hu, h⟩ := hb.active
      · rw [h]
      · rw [hd.action.resolve_left (not_not.mpr hact) u hu] at h
        exact absurd rfl h
  have h2 : m.reasonAfter g'.reason = if m.fReason then m.reason else g.reason := by
    unfold Update.reasonAfter
    cases hr : m.fReason with
    | true =>
      cases hcase : strEq g'.reason m.reason with
      | false => simp
      | true => simpa using hd.case hr _ hb.reason hcase
    | false =>
      obtain h | ⟨u, hu, hus, -⟩ := hb.reason
      · simpa using h
      · rw [hd.reason.resolve_left (by simp [hr]) u hu] at hus
        cases hus
  have h3 : max g'.lifetime m.atLeast = max g.lifetime m.atLeast := by
    obtain ⟨hle, h | ⟨u, hu, h⟩⟩ := hb.lifetime
    · rw [h]
    · have := hd.lifetime u hu
      omega
  rw [h1, h2, h3]

lemma applyAll_stale {g : Gline} (arrivals : List (ℕ × Update))
    (ha : ∀ a ∈ arrivals, a.2.action.isLocal = false ∧ a.2.lastmod ≤ g.lastmod) : applyAll g arrivals = g := by
  induction arrivals with
  | nil => rfl
  | cons a arrivals ih =>
    obtain ⟨hloc, hle⟩ := ha a List.mem_cons_self
    have ih := ih fun b hb => ha b (List.mem_cons_of_mem _ hb)
    unfold applyAll at ih ⊢
    rw [List.foldl_cons, glineModify_stale a.1 hloc hle, ih]

lemma applyAll_decided {g : Gline} {older : List Update} {m : Update} (hd : Decides g older m)
    {arrivals : List (ℕ × Update)} (hperm : (arrivals.map Prod.snd).Perm (m :: older))
    (htime : ∀ a ∈ arrivals, a.2 = m → m.Accepted a.1 ∧ m.InTime g.expire a.1) :
    (applyAll g arrivals).shared = decided g m := by
  obtain ⟨a, ha, ham⟩ := List.mem_map.mp (hperm.mem_iff.mpr List.mem_cons_self)
  obtain ⟨before, after, rfl⟩ := List.append_of_mem ha
  have hrest : ((before ++ after).map Prod.snd).Perm older := by
    rw [List.map_append, List.map_cons, ham] at hperm
    rw [List.map_append]
    exact (List.perm_middle.symm.trans hperm).cons_inv
  have hmem : ∀ b ∈ before ++ after, b.2 ∈ older := fun b hb =>
    hrest.mem_iff.mp (List.mem_map_of_mem hb)
  have hinit : Before g older m g := ⟨hd.newest.1, hd.life, .inl rfl, .inl rfl, .inl rfl, le_rfl, .inl rfl⟩
  have hbefore := hinit.applyAll hd before fun b hb => hmem b (List.mem_append_left _ hb)
  obtain ⟨hacc, hin⟩ := htime a ha ham
  have hnewest := modify_newest hd hbefore hacc hin
  have hsplit : applyAll g (before ++ a :: after) = applyAll (glineModify a.1 (applyAll g before) m) after := by
    unfold applyAll
    rw [List.foldl_append, List.foldl_cons, ham]
  rw [hsplit, applyAll_stale, hnewest]
  intro b hb
  have hb := hmem b (List.mem_append_right _ hb)
  refine ⟨hd.notLocal.2 _ hb, ?_⟩
  have hlast : (glineModify a.1 (applyAll g before) m).lastmod = m.lastmod := congrArg Shared.lastmod hnewest
  rw [hlast]
  exact (hd.newest.2 _ hb).le

def flood : Gline := ⟨true, .global, "flood".toList, 500, 10, 500⟩

def setReason (lastmod : ℕ) (reason : String) : Update :=
  ⟨.modify, reason.toList, 0, lastmod, 0, false, false, false, true⟩

def setExpire (lastmod expire : ℕ) : Update :=
  ⟨.modify, [], expire, lastmod, 0, false, true, false, false⟩

def setBoth (lastmod expire : ℕ) (reason : String) : Update :=
  ⟨.modify, reason.toList, expire, lastmod, 0, false, true, false, true⟩

end Nefarious.Glines
