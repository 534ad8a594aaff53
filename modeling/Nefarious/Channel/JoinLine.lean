import Nefarious.Channel.Destruct

/-!
# A JOIN with an older timestamp

A JOIN of a server names one or more channels and carries a creation time.

Names: `m_join.c`.
-/

namespace Nefarious.Channel

open Option (map_some some.inj)
open List (map_nil mem_cons mem_map)

/-- A channel is empty or has a member who is not a zombie. `channel.c` `channel_all_zombies`,
`make_zombie`. -/
def Chan.Alive (c : Chan) : Prop := c.members = [] ∨ ∃ m ∈ c.members, .zombie ∉ m.status

/-- The channels of a server, by their folded names. `hash.c` `hSeekChannel`. -/
structure Channels where
  /-- `FindChannel`. -/
  find : Str → Option Chan
  named : ∀ k c, find k = some c → c.chname.map toLower = k
  alive : ∀ k c, find k = some c → c.Alive

/-! ## The line -/

/-- What is behind the last "JOIN 0" of a list. -/
def last0 : List Str → List Str → List Str
  | chanlist, [] => chanlist
  | chanlist, p :: ps => if p = ['0'] then last0 ps ps else last0 chanlist ps

/-- The names of a list. `ms_join`. -/
def joinNames (list : Str) : List Str :=
  (last0 (list.splitOn ',') (list.splitOn ',')).filter (· ≠ [])

/-- The channels when a "JOIN 0" has been handled: the user has left them all. `last0` -/
def partAll (f : PartFeatures) (user list : Str) (find : Str → Option Chan) : Str → Option Chan :=
  if ['0'] ∈ list.splitOn ',' then fun k => (find k).bind (removeUserFromChannel f user) else find

/-- One name. The outer `none` is a null pointer that is read. `ms_join`. -/
def msJoinName (f : PartFeatures) (joinOnRemovedelay : Bool) (user : Str) (rest : List Str)
    (find : Str → Option Chan) (name : Str) : Option (Str → Option Chan) :=
  (msJoin f joinOnRemovedelay user (name :: rest) (find (name.map toLower))).map
    (Function.update find (name.map toLower))

/-- JOIN with its parameters: a list of channels and perhaps a timestamp. `ms_join`. -/
def msJoinLine (f : PartFeatures) (joinOnRemovedelay : Bool) (user list : Str) (rest : List Str)
    (find : Str → Option Chan) : Option (Str → Option Chan) :=
  (joinNames list).foldlM (msJoinName f joinOnRemovedelay user rest) (partAll f user list find)

/-- The creation time of a line; zero is none. `ms_join`. -/
def joinCreation : List Str → ℤ
  | [] => 0
  | ts :: _ => atoi ts

/-! ## What it should do -/

/-- The modes that are marks of the server itself. `MODE_BURSTADDED`, `MODE_WASDELJOINS`. -/
def internalModes : Finset ModeFlag := {.burstadded, .wasdeljoins}

/-- A channel has lost its modes. -/
structure Cleared (c c' : Chan) : Prop where
  mode : c'.mode ⊆ internalModes
  exmode : c'.exmode = ∅
  limit : c'.limit = 0
  key : c'.key = none
  upass : c'.upass = none
  apass : c'.apass = none
  redir : c'.redir = none
  status : ∀ m ∈ c'.members, (∃ m₀ ∈ c.members, m₀.user = m.user) → ∀ mode : ClientMode, mode.chfl ∉ m.status

/-- A channel has kept its modes. -/
structure Untouched (c c' : Chan) : Prop where
  mode : c'.mode \ internalModes = c.mode \ internalModes
  exmode : c'.exmode = c.exmode
  limit : c'.limit = c.limit
  key : c'.key = c.key
  upass : c'.upass = c.upass
  apass : c'.apass = c.apass
  redir : c'.redir = c.redir
  members : ∀ m ∈ c.members, .zombie ∉ m.status → m ∈ c'.members

/-- An older timestamp clears a channel, and any other leaves one that is not empty alone. -/
structure Adopted (creation : ℤ) (c c' : Chan) : Prop where
  older : creation ≠ 0 → creation < c.creationtime → Cleared c c'
  newer : creation = 0 ∨ c.creationtime ≤ creation → c.members ≠ [] → Untouched c c'

/-- A line does to each channel that it finds what it should. -/
def LineAdopted (f : PartFeatures) (joinOnRemovedelay : Bool) (user list : Str) (rest : List Str)
    (cs : Channels) : Prop :=
  ∃ cs' : Channels, msJoinLine f joinOnRemovedelay user list rest cs.find = some cs'.find ∧
    ∀ name ∈ joinNames list, name.head? = some '#' →
      ∀ c, partAll f user list cs.find (name.map toLower) = some c →
        ∃ c', cs'.find (name.map toLower) = some c' ∧ Adopted (joinCreation rest) c c'

/-- A user is on a channel, and not as a zombie. `ms_join` ("already on channel"). -/
def Chan.hasUser (c : Chan) (user : Str) : Prop :=
  ∃ m, c.findMember user = some m ∧ .zombie ∉ m.status

/-- An older JOIN of a user forgets nothing of a channel: it has no extended mode and no redirect, or the
user is already on it and there is nothing to lose at all. -/
def Chan.Clearable (c : Chan) (user : Str) : Prop :=
  (c.hasUser user → Cleared c c) ∧ (¬ c.hasUser user → c.exmode = ∅ ∧ c.redir = none)

/-! ## Taking a zombie off the list -/

variable {f : PartFeatures} {j : Bool} {user name : Str} {rest : List Str} {creation : ℤ} {c c' : Chan}

lemma dropMember_members (c : Chan) (m : Membership) : (c.dropMember m).members = c.members.erase m := by
  unfold Chan.dropMember Chan.checkDelayedJoins
  simp only
  split
  · split
    · rfl
    · rfl
  · rfl

lemma dropMember_chname (c : Chan) (m : Membership) : (c.dropMember m).chname = c.chname := by
  unfold Chan.dropMember Chan.checkDelayedJoins
  simp only
  split
  · split
    · rfl
    · rfl
  · rfl

lemma dropMember_untouched {m : Membership} (hm : .zombie ∈ m.status) : Untouched c (c.dropMember m) := by
  have hmembers : ∀ m' ∈ c.members, .zombie ∉ m'.status → m' ∈ (c.dropMember m).members := by
    intro m' hm' hlive
    rw [dropMember_members]
    refine (List.mem_erase_of_ne fun e => ?_).mpr hm'
    exact hlive (e ▸ hm)
  have hmode : (c.mode.erase .wasdeljoins) \ internalModes = c.mode \ internalModes := by
    ext g
    have hmark : g ∉ internalModes → g ≠ .wasdeljoins := fun h e => h (e ▸ by decide)
    simp only [Finset.mem_sdiff, Finset.mem_erase]
    constructor
    · exact fun h => ⟨h.1.2, h.2⟩
    · exact fun h => ⟨⟨hmark h.2, h.1⟩, h.2⟩
  unfold Chan.dropMember Chan.checkDelayedJoins at hmembers ⊢
  simp only at hmembers ⊢
  split
  · next hdelayed =>
      rw [if_pos hdelayed] at hmembers
      split
      · next hlast =>
          rw [if_pos hlast] at hmembers
          exact ⟨hmode, rfl, rfl, rfl, rfl, rfl, rfl, hmembers⟩
      · next hlast =>
          rw [if_neg hlast] at hmembers
          exact ⟨rfl, rfl, rfl, rfl, rfl, rfl, rfl, hmembers⟩
  · next hdelayed =>
      rw [if_neg hdelayed] at hmembers
      exact ⟨rfl, rfl, rfl, rfl, rfl, rfl, rfl, hmembers⟩

lemma removeUserFromChannel_zombie {m : Membership} (hc : c.Alive) (hm : c.findMember user = some m)
    (hz : .zombie ∈ m.status) : removeUserFromChannel f user c = some (c.dropMember m) ∧
    ∃ m' ∈ (c.dropMember m).members, .zombie ∉ m'.status := by
  have hlive : ∃ m' ∈ (c.dropMember m).members, .zombie ∉ m'.status := by
    rcases hc with hnil | ⟨m', hm', hlive⟩
    · rw [Chan.findMember, hnil] at hm
      cases hm
    · exact ⟨m', (dropMember_untouched hz).members m' hm' hlive, hlive⟩
  refine ⟨?_, hlive⟩
  obtain ⟨m', hm', hlive'⟩ := hlive
  have hall : ¬ ((c.dropMember m).members.all fun m => .zombie ∈ m.status) = true := by
    intro hall
    exact hlive' (of_decide_eq_true (List.all_eq_true.mp hall m' hm'))
  unfold removeUserFromChannel
  rw [hm]
  simp only
  rw [if_neg hall]

/-! ## Wiping out the modes -/

/-- What the handling of delayed joins leaves of a channel. `channel.c` `modebuf_flush_int`. -/
structure SameButDelayed (c c' : Chan) : Prop where
  chname : c'.chname = c.chname
  mode : c'.mode ⊆ c.mode ∪ internalModes
  exmode : c'.exmode = c.exmode
  limit : c'.limit = c.limit
  key : c'.key = c.key
  upass : c'.upass = c.upass
  apass : c'.apass = c.apass
  redir : c'.redir = c.redir
  members : c'.members = c.members ∨
    c'.members = c.members.map fun m => { m with status := m.status.erase .delayed }

lemma flushDelJoins_same (j : Bool) (c : Chan) (mb : ModeBuf) :
    SameButDelayed c (flushDelJoins j c mb).1 := by
  have hinsert : insert .wasdeljoins c.mode ⊆ c.mode ∪ internalModes := by
    apply Finset.insert_subset
    · exact Finset.mem_union_right _ (by decide)
    · exact Finset.subset_union_left
  have hrem : SameButDelayed c (flushRemDelJoins j c mb).1 := by
    unfold flushRemDelJoins
    split
    · split
      · exact ⟨rfl, hinsert, rfl, rfl, rfl, rfl, rfl, rfl, .inl rfl⟩
      · exact ⟨rfl, Finset.subset_union_left, rfl, rfl, rfl, rfl, rfl, rfl, .inr rfl⟩
    · exact ⟨rfl, Finset.subset_union_left, rfl, rfl, rfl, rfl, rfl, rfl, .inl rfl⟩
  have hadd : ∀ c' mb', SameButDelayed c c' → SameButDelayed c (flushAddDelJoins c' mb').1 := by
    intro c' mb' h
    unfold flushAddDelJoins
    split
    · exact { h with mode := (Finset.erase_subset _ _).trans h.mode }
    · exact h
  exact hadd _ _ hrem

/-- What is left when the modes are wiped out. `ms_join`. -/
structure Wiped (c c' : Chan) : Prop where
  chname : c'.chname = c.chname
  mode : c'.mode ⊆ internalModes
  exmode : c'.exmode = c.exmode
  limit : c'.limit = 0
  key : c'.key = none
  upass : c'.upass = none
  apass : c'.apass = none
  redir : c'.redir = c.redir
  status : ∀ m ∈ c'.members, ∀ mode : ClientMode, mode.chfl ∉ m.status
  alive : c.Alive → c'.Alive

/-- A member without its status. `ms_join`. -/
def Membership.stripped (m : Membership) : Membership :=
  { m with status := m.status \ {.chanop, .halfop, .voice} }

lemma wipeModes_wiped (j : Bool) (c : Chan) : Wiped c (wipeModes j c) := by
  have h : SameButDelayed _ (wipeModes j c) := flushDelJoins_same j _ _
  have hstatus : ∀ m : Membership, ∀ mode : ClientMode, mode.chfl ∉ m.status \ {.chanop, .halfop, .voice} := by
    intro m mode hm
    apply (Finset.mem_sdiff.mp hm).2
    cases mode <;> decide
  refine ⟨h.chname, ?_, h.exmode, h.limit, h.key, h.upass, h.apass, h.redir, ?_, ?_⟩
  · apply h.mode.trans
    apply Finset.union_subset
    · exact Finset.inter_subset_right
    · exact Finset.Subset.refl _
  · intro m hm
    rcases h.members with e | e
    · rw [e] at hm
      obtain ⟨m₀, -, rfl⟩ := mem_map.mp hm
      exact hstatus m₀
    · rw [e] at hm
      obtain ⟨m₁, hm₁, rfl⟩ := mem_map.mp hm
      obtain ⟨m₀, -, rfl⟩ := mem_map.mp hm₁
      exact fun mode hmem => hstatus m₀ mode (Finset.mem_of_mem_erase hmem)
  · rintro (hnil | ⟨m, hm, hlive⟩)
    · left
      rcases h.members with e | e
      · rw [e, hnil, map_nil]
      · rw [e, hnil, map_nil, map_nil]
    · right
      have hmap : m.stripped ∈ c.members.map Membership.stripped := List.mem_map_of_mem hm
      have hlive' : .zombie ∉ m.stripped.status := fun hz => hlive (Finset.mem_sdiff.mp hz).1
      rcases h.members with e | e
      · refine ⟨m.stripped, ?_, hlive'⟩
        rw [e]
        exact hmap
      · refine ⟨{ m.stripped with status := m.stripped.status.erase .delayed }, ?_, ?_⟩
        · rw [e]
          exact List.mem_map_of_mem hmap
        · exact fun hz => hlive' (Finset.mem_of_mem_erase hz)

lemma correctTime_older (h : creation ≠ 0) (ht : creation < c.creationtime) :
    Wiped c (correctTime j creation c) := by
  have hw := wipeModes_wiped j { c with creationtime := creation }
  rw [correctTime, if_pos ⟨h, .inl ht⟩]
  exact ⟨hw.chname, hw.mode, hw.exmode, hw.limit, hw.key, hw.upass, hw.apass, hw.redir, hw.status, hw.alive⟩

lemma correctTime_newer (h : creation = 0 ∨ c.creationtime ≤ creation) (hc : c.members ≠ []) :
    correctTime j creation c = c := by
  apply if_neg
  rintro ⟨hne, hlt | ⟨-, -, hnil⟩⟩
  · rcases h with h | h
    · exact hne h
    · exact absurd hlt (not_lt.mpr h)
  · exact hc hnil

lemma correctTime_chname (j : Bool) (creation : ℤ) (c : Chan) :
    (correctTime j creation c).chname = c.chname := by
  unfold correctTime
  split
  · exact (wipeModes_wiped j _).chname
  · rfl

/-! ## One channel -/

/-- What a JOIN makes of a channel: the user is already on it; or the user is not on it, or was a zombie on it,
and joins after the timestamp has been corrected. `ms_join` -/
inductive Joins (j : Bool) (creation : ℤ) (user : Str) (c : Chan) : Chan → Prop
  | already (h : c.hasUser user) : Joins j creation user c c
  | new (h : c.findMember user = none) :
      Joins j creation user c (joinbufJoin user {.deopped} (correctTime j creation c))
  | zombie (m : Membership) (h : c.findMember user = some m) (hz : .zombie ∈ m.status) :
      Joins j creation user c
        (joinbufJoin user (m.status ∩ {.deopped}) (correctTime j creation (c.dropMember m)))

lemma msJoin_joins (hc : c.Alive) (hname : name.head? = some '#')
    (he : name.map toLower = c.chname.map toLower) :
    ∃ c', msJoin f j user (name :: rest) (some c) = some (some c') ∧ Joins j (joinCreation rest) user c c' := by
  have hstr : ¬ strEq name c.chname = false := by
    rw [strEq_of_fold_eq _ _ he]
    exact Bool.noConfusion
  simp only [msJoin, hname, ne_eq, not_true_eq_false, if_false, if_neg hstr]
  cases hm : c.findMember user with
  | none => exact ⟨_, rfl, .new hm⟩
  | some m =>
    by_cases hz : .zombie ∈ m.status
    · simp only [hz, not_true_eq_false, if_false, (removeUserFromChannel_zombie (f := f) hc hm hz).1]
      exact ⟨_, rfl, .zombie m hm hz⟩
    · simp only [hz, not_false_eq_true, if_true]
      exact ⟨_, rfl, .already ⟨m, hm, hz⟩⟩

variable {flags : Finset Chfl}

lemma joinbufJoin_members (hflags : flags ⊆ {.deopped}) (c : Chan) : ∃ m,
    (joinbufJoin user flags c).members = m :: c.members ∧ m.user = user ∧ m.status ⊆ {.deopped, .delayed} := by
  refine ⟨_, rfl, rfl, ?_⟩
  split
  · apply Finset.insert_subset
    · decide
    · exact hflags.trans (by decide)
  · exact hflags.trans (by decide)

lemma joinbufJoin_hasUser (hflags : flags ⊆ {.deopped}) (c : Chan) :
    (joinbufJoin user flags c).hasUser user := by
  obtain ⟨m, hmembers, huser, hstatus⟩ : ∃ m, (joinbufJoin user flags c).members = m :: c.members ∧
      m.user = user ∧ m.status ⊆ {.deopped, .delayed} := joinbufJoin_members hflags c
  refine ⟨m, ?_, fun hz => absurd (hstatus hz) (by decide)⟩
  rw [Chan.findMember, hmembers, List.find?_cons_of_pos (by simpa using huser)]

lemma Chan.hasUser.alive (h : c.hasUser user) : c.Alive := by
  obtain ⟨m, hm, hz⟩ := h
  exact .inr ⟨m, List.mem_of_find?_eq_some hm, hz⟩

lemma Joins.hasUser (h : Joins j creation user c c') : c'.hasUser user := by
  cases h with
  | already h => exact h
  | new h => exact joinbufJoin_hasUser (Finset.Subset.refl _) _
  | zombie m h hz => exact joinbufJoin_hasUser Finset.inter_subset_right _

lemma Joins.chname (h : Joins j creation user c c') : c'.chname = c.chname := by
  cases h with
  | already h => rfl
  | new h => exact correctTime_chname j creation c
  | zombie m h hz => exact (correctTime_chname j creation _).trans (dropMember_chname c m)

/-- **A user who was not on the channel** joins it: the modes are cleared, but for those that are
forgotten. Here `c₁` is the channel without the zombie. -/
theorem joined_adopted_iff {c₁ : Chan} (hflags : flags ⊆ {.deopped})
    (hno : ¬ c.hasUser user) (hsame : Untouched c c₁) (ht : c₁.creationtime = c.creationtime)
    (hlive : c.members ≠ [] → c₁.members ≠ []) :
    Adopted creation c (joinbufJoin user flags (correctTime j creation c₁)) ↔
      (creation ≠ 0 → creation < c.creationtime → c.Clearable user) := by
  obtain ⟨m, hmembers, -, hstatus⟩ : ∃ m, (joinbufJoin user flags (correctTime j creation c₁)).members =
      m :: (correctTime j creation c₁).members ∧ m.user = user ∧ m.status ⊆ {.deopped, .delayed} :=
    joinbufJoin_members hflags (correctTime j creation c₁)
  constructor
  · intro h hne hlt
    have hw := correctTime_older (j := j) hne (ht ▸ hlt)
    have hcleared := h.older hne hlt
    refine ⟨fun hon => absurd hon hno, fun _ => ⟨?_, ?_⟩⟩
    · exact hsame.exmode.symm.trans (hw.exmode.symm.trans hcleared.exmode)
    · exact hsame.redir.symm.trans (hw.redir.symm.trans hcleared.redir)
  · intro h
    refine ⟨fun hne hlt => ?_, fun hnew hc => ?_⟩
    · have hw := correctTime_older (j := j) hne (ht ▸ hlt)
      obtain ⟨hex, hredir⟩ := (h hne hlt).2 hno
      refine ⟨hw.mode, ?_, hw.limit, hw.key, hw.upass, hw.apass, ?_, ?_⟩
      · exact hw.exmode.trans (hsame.exmode.trans hex)
      · exact hw.redir.trans (hsame.redir.trans hredir)
      · intro m' hm' _ mode hmode
        rw [hmembers] at hm'
        rcases mem_cons.mp hm' with rfl | hm'
        · have hnot : mode.chfl ∉ ({.deopped, .delayed} : Finset Chfl) := by
            cases mode <;> decide
          exact hnot (hstatus hmode)
        · exact hw.status m' hm' mode hmode
    · have hkeep : correctTime j creation c₁ = c₁ := correctTime_newer (ht ▸ hnew) (hlive hc)
      rw [hkeep] at hmembers ⊢
      refine ⟨hsame.mode, hsame.exmode, hsame.limit, hsame.key, hsame.upass, hsame.apass, hsame.redir, ?_⟩
      intro m' hm' hz
      rw [hmembers]
      exact List.mem_cons_of_mem _ (hsame.members m' hm' hz)

lemma Untouched.refl (c : Chan) : Untouched c c := ⟨rfl, rfl, rfl, rfl, rfl, rfl, rfl, fun _ hm _ => hm⟩

lemma Joins.adopted_iff (hc : c.Alive) (h : Joins j creation user c c') :
    Adopted creation c c' ↔ (creation ≠ 0 → creation < c.creationtime → c.Clearable user) := by
  cases h with
  | already hon =>
    constructor
    · exact fun h hne hlt => ⟨fun _ => h.older hne hlt, fun hno => absurd hon hno⟩
    · exact fun h => ⟨fun hne hlt => (h hne hlt).1 hon, fun _ _ => .refl c⟩
  | new hm =>
    have hno : ¬ c.hasUser user := by
      rintro ⟨m, hm', -⟩
      rw [hm] at hm'
      cases hm'
    exact joined_adopted_iff (Finset.Subset.refl _) hno (.refl c) rfl id
  | zombie m hm hz =>
    have hno : ¬ c.hasUser user := by
      rintro ⟨m', hm', hz'⟩
      rw [hm] at hm'
      exact hz' (some.inj hm' ▸ hz)
    obtain ⟨-, m', hm', -⟩ := removeUserFromChannel_zombie (f := ⟨false, false⟩) hc hm hz
    exact joined_adopted_iff Finset.inter_subset_right hno (dropMember_untouched hz)
      (dropMember_creationtime c m) fun _ => List.ne_nil_of_mem hm'

/-! ## The whole line -/

lemma sub1FromChannel_same (h : sub1FromChannel f c = some c') :
    c'.chname = c.chname ∧ c'.members = c.members := by
  unfold sub1FromChannel at h
  simp only at h
  split at h
  · rw [← some.inj h]
    exact ⟨rfl, rfl⟩
  · split at h
    · split at h
      · rw [← some.inj h]
        exact ⟨rfl, rfl⟩
      · cases h
    · split at h
      · rw [← some.inj h]
        exact ⟨rfl, rfl⟩
      · cases h

lemma dropMembers_same (ms : List Membership) (c : Chan) (h : c.members = ms) :
    (ms.foldl Chan.dropMember c).members = [] ∧ (ms.foldl Chan.dropMember c).chname = c.chname := by
  induction ms generalizing c with
  | nil => exact ⟨h, rfl⟩
  | cons m ms ih =>
    have hdrop : (c.dropMember m).members = ms := by
      rw [dropMember_members, h, List.erase_cons_head]
    obtain ⟨hmembers, hname⟩ := ih (c.dropMember m) hdrop
    exact ⟨hmembers, hname.trans (dropMember_chname c m)⟩

lemma removeUserFromChannel_alive (hc : c.Alive) (h : removeUserFromChannel f user c = some c') :
    c'.Alive ∧ c'.chname = c.chname := by
  unfold removeUserFromChannel at h
  split at h
  · rw [← some.inj h]
    exact ⟨hc, rfl⟩
  · next m _ =>
      simp only at h
      split at h
      · obtain ⟨hname, hmembers⟩ := sub1FromChannel_same h
        obtain ⟨hnil, hdrop⟩ := dropMembers_same _ (c.dropMember m) rfl
        exact ⟨.inl (hmembers.trans hnil), hname.trans (hdrop.trans (dropMember_chname c m))⟩
      · next hall =>
          rw [← some.inj h]
          obtain ⟨m', hm', hz⟩ : ∃ m' ∈ (c.dropMember m).members, .zombie ∉ m'.status := by
            simpa using hall
          exact ⟨.inr ⟨m', hm', hz⟩, dropMember_chname c m⟩

lemma partAll_channels (f : PartFeatures) (user list : Str) (cs : Channels) :
    ∃ cs' : Channels, cs'.find = partAll f user list cs.find := by
  unfold partAll
  split
  · refine ⟨⟨_, fun k c' h => ?_, fun k c' h => ?_⟩, rfl⟩
    · obtain ⟨c, hc, hremove⟩ := Option.bind_eq_some_iff.mp h
      rw [(removeUserFromChannel_alive (cs.alive k c hc) hremove).2]
      exact cs.named k c hc
    · obtain ⟨c, hc, hremove⟩ := Option.bind_eq_some_iff.mp h
      exact (removeUserFromChannel_alive (cs.alive k c hc) hremove).1
  · exact ⟨cs, rfl⟩

/-- A channel takes its place. `hash.c` `hAddChannel`. -/
def Channels.set (cs : Channels) (c : Chan) (hc : c.Alive) : Channels where
  find := Function.update cs.find (c.chname.map toLower) (some c)
  named k c' h := by
    by_cases hk : k = c.chname.map toLower
    · subst hk
      rw [Function.update_self] at h
      rw [← some.inj h]
    · rw [Function.update_of_ne hk] at h
      exact cs.named k c' h
  alive k c' h := by
    by_cases hk : k = c.chname.map toLower
    · subst hk
      rw [Function.update_self] at h
      exact some.inj h ▸ hc
    · rw [Function.update_of_ne hk] at h
      exact cs.alive k c' h

/-- A name of a line is one of a channel. `ms_join`. -/
def Names (name k : Str) : Prop := name.head? = some '#' ∧ name.map toLower = k

lemma msJoinName_channels (f : PartFeatures) (j : Bool) (user name : Str) (rest : List Str) (cs : Channels) :
    ∃ cs' : Channels, msJoinName f j user rest cs.find name = some cs'.find ∧
      ∀ k c, cs.find k = some c → ∃ c', cs'.find k = some c' ∧
        (Names name k → Joins j (joinCreation rest) user c c') ∧ (¬ Names name k → c' = c) := by
  by_cases hhead : name.head? = some '#'
  · cases hfind : cs.find (name.map toLower) with
    | none =>
      have hon : (joinbufJoin user {.deopped} (newChan name (joinCreation rest))).hasUser user :=
        joinbufJoin_hasUser (Finset.Subset.refl _) _
      refine ⟨cs.set _ hon.alive, ?_, fun k c hc => ?_⟩
      · rw [msJoinName, hfind]
        simp only [msJoin, hhead, ne_eq, not_true_eq_false, if_false]
        rfl
      · have hk : k ≠ name.map toLower := fun e => by
          rw [e, hfind] at hc
          cases hc
        refine ⟨c, (Function.update_of_ne hk _ _).trans hc, fun hn => ?_, fun _ => rfl⟩
        exact absurd hn.2.symm hk
    | some c =>
      have hname := cs.named _ c hfind
      obtain ⟨c', hjoin, hjoins⟩ : ∃ c', msJoin f j user (name :: rest) (some c) = some (some c') ∧
          Joins j (joinCreation rest) user c c' := msJoin_joins (cs.alive _ c hfind) hhead hname.symm
      have hname' : c'.chname.map toLower = name.map toLower := by
        rw [hjoins.chname, hname]
      refine ⟨cs.set c' hjoins.hasUser.alive, ?_, fun k c₀ hc => ?_⟩
      · rw [msJoinName, hfind, hjoin, map_some, ← hname']
        rfl
      · by_cases hk : k = name.map toLower
        · subst hk
          rw [hfind] at hc
          refine ⟨c', ?_, fun _ => some.inj hc ▸ hjoins, fun hn => absurd ⟨hhead, rfl⟩ hn⟩
          rw [← hname']
          exact Function.update_self ..
        · refine ⟨c₀, (Function.update_of_ne (hname' ▸ hk) _ _).trans hc, fun hn => ?_, fun _ => rfl⟩
          exact absurd hn.2.symm hk
  · refine ⟨cs, ?_, fun k c hc => ⟨c, hc, fun hn => absurd hn.1 hhead, fun _ => rfl⟩⟩
    rw [msJoinName]
    simp only [msJoin, ne_eq, hhead, not_false_eq_true, if_true, map_some, Function.update_eq_self]

lemma Joins.eq_of_hasUser (h : Joins j creation user c c') (hon : c.hasUser user) : c' = c := by
  obtain ⟨m₀, hm₀, hz₀⟩ := hon
  cases h with
  | already h => rfl
  | new h =>
    rw [h] at hm₀
    cases hm₀
  | zombie m h hz =>
    rw [h] at hm₀
    exact absurd (some.inj hm₀ ▸ hz) hz₀

lemma joinNames_channels (f : PartFeatures) (j : Bool) (user : Str) (rest : List Str) (names : List Str)
    (cs : Channels) : ∃ cs' : Channels, names.foldlM (msJoinName f j user rest) cs.find = some cs'.find ∧ ∀ k c,
    cs.find k = some c → ∃ c', cs'.find k = some c' ∧ ((∃ name ∈ names, Names name k) →
    Joins j (joinCreation rest) user c c') ∧ ((∀ name ∈ names, ¬ Names name k) → c' = c) := by
  induction names generalizing cs with
  | nil =>
    refine ⟨cs, rfl, fun k c hc => ⟨c, hc, ?_, fun _ => rfl⟩⟩
    rintro ⟨name, hname, -⟩
    exact absurd hname List.not_mem_nil
  | cons name names ih =>
    obtain ⟨cs₁, hstep, hfind₁⟩ := msJoinName_channels f j user name rest cs
    obtain ⟨cs', hrun, hfind⟩ := ih cs₁
    refine ⟨cs', ?_, fun k c hc => ?_⟩
    · rw [List.foldlM_cons, hstep]
      exact hrun
    · obtain ⟨c₁, hc₁, hjoin₁, hkeep₁⟩ := hfind₁ k c hc
      obtain ⟨c', hc', hjoin, hkeep⟩ := hfind k c₁ hc₁
      refine ⟨c', hc', ?_, fun hnone => ?_⟩
      · rintro ⟨name', hmem, hn⟩
        by_cases hhead : Names name k
        · -- the first name of the channel: the user is on it from now on
          have hjoins := hjoin₁ hhead
          have hsame : c' = c₁ := by
            by_cases hlater : ∃ name ∈ names, Names name k
            · exact (hjoin hlater).eq_of_hasUser hjoins.hasUser
            · exact hkeep fun n hmem hn => hlater ⟨n, hmem, hn⟩
          exact hsame ▸ hjoins
        · rw [hkeep₁ hhead] at hjoin
          rcases mem_cons.mp hmem with rfl | hmem
          · exact absurd hn hhead
          · exact hjoin ⟨name', hmem, hn⟩
      · rw [hkeep fun n hmem => hnone n (List.mem_cons_of_mem _ hmem)]
        exact hkeep₁ (hnone name List.mem_cons_self)

/-- **A JOIN line does what it should exactly when** no channel of it that is younger has an extended mode or a
redirect, and none that its user is already on has anything to lose. -/
theorem msJoinLine_adopted_iff (f : PartFeatures) (j : Bool) (user list : Str) (rest : List Str)
    (cs : Channels) : LineAdopted f j user list rest cs ↔ ∀ name ∈ joinNames list, name.head? = some '#' → ∀ c,
    partAll f user list cs.find (name.map toLower) = some c → joinCreation rest ≠ 0 →
    joinCreation rest < c.creationtime → c.Clearable user := by
  obtain ⟨cs₀, hpart⟩ := partAll_channels f user list cs
  obtain ⟨cs', hrun, hfind⟩ := joinNames_channels f j user rest (joinNames list) cs₀
  have hline : msJoinLine f j user list rest cs.find = some cs'.find := by
    rw [msJoinLine, ← hpart]
    exact hrun
  have hstep : ∀ name ∈ joinNames list, name.head? = some '#' → ∀ c, cs₀.find (name.map toLower) = some c →
      ∃ c', cs'.find (name.map toLower) = some c' ∧ (Adopted (joinCreation rest) c c' ↔
        (joinCreation rest ≠ 0 → joinCreation rest < c.creationtime → c.Clearable user)) := by
    intro name hmem hhead c hc
    obtain ⟨c', hc', hjoin, -⟩ := hfind _ c hc
    exact ⟨c', hc', (hjoin ⟨name, hmem, hhead, rfl⟩).adopted_iff (cs₀.alive _ c hc)⟩
  rw [LineAdopted, ← hpart]
  constructor
  · rintro ⟨cs'', hline', hall⟩ name hmem hhead c hc
    obtain ⟨c', hc', hiff⟩ := hstep name hmem hhead c hc
    obtain ⟨c'', hc'', hadopted⟩ := hall name hmem hhead c hc
    have hsame : cs''.find = cs'.find := some.inj (hline'.symm.trans hline)
    rw [hsame, hc'] at hc''
    exact hiff.mp (some.inj hc'' ▸ hadopted)
  · intro hall
    refine ⟨cs', hline, fun name hmem hhead c hc => ?_⟩
    obtain ⟨c', hc', hiff⟩ := hstep name hmem hhead c hc
    exact ⟨c', hc', hiff.mpr (hall name hmem hhead c hc)⟩

def sampleRedirectChan : Chan :=
  { newChan "#c".toList 1000000000 with
    redir := some ⟨"#d".toList, by decide, by decide⟩
    members := [⟨"ABAAB".toList, {.chanop}, maxOpLevel⟩] }

def sampleRedirectChannels : Channels where
  find k := if k = "#c".toList then some sampleRedirectChan else none
  named k c h := by
    split at h
    · next hk =>
        rw [hk, ← some.inj h]
        decide
    · cases h
  alive k c h := by
    split at h
    · rw [← some.inj h]
      exact .inr ⟨_, List.mem_singleton_self _, by decide⟩
    · cases h

/-- **A redirect outlives the JOIN.** A user joins a channel that redirects, with a timestamp that is one second
older. The operator of the channel is deopped, but the redirect stays. -/
theorem join_keeps_redirect : ¬ LineAdopted ⟨false, false⟩ false "ABAAC".toList "#c".toList ["999999999".toList]
      sampleRedirectChannels := by
  rintro ⟨cs', hline, hall⟩
  have hmem : "#c".toList ∈ joinNames "#c".toList := by decide
  have hchan : ((msJoinLine ⟨false, false⟩ false "ABAAC".toList "#c".toList ["999999999".toList]
      sampleRedirectChannels.find).bind fun find => find "#c".toList).map Chan.redir =
      some sampleRedirectChan.redir := by
    decide +kernel
  obtain ⟨c', hc', hadopted⟩ := hall _ hmem rfl sampleRedirectChan rfl
  have hnone := (hadopted.older (by decide) (by decide)).redir
  rw [hline] at hchan
  change (cs'.find "#c".toList).map Chan.redir = some sampleRedirectChan.redir at hchan
  change cs'.find "#c".toList = some c' at hc'
  rw [hc', map_some, hnone] at hchan
  exact absurd hchan (by decide)

end Nefarious.Channel
