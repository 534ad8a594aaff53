import Mathlib.Algebra.Order.Ring.Int
import Nefarious.Lib.Pairs
import Nefarious.Lib.Runs

/-!
# Invitations

A user has the list of the channels it is invited to, the oldest invitation first, and a channel the list of the
users that are invited. A step is undefined when it uses a user or a channel that was freed, or the oldest one
of no invitations.

Names: `channel.c`.
-/

namespace Nefarious.Invite

open Option (bind_some)
open List (length_pos_of_mem mem_cons_self ne_nil_of_mem)
open Function (update update_eq_self update_of_ne update_self)

open Lib.BothSides Lib

/-! ## The source functions -/

abbrev Client := ℕ

abbrev Chan := ℕ

/-- Users and channels. `struct.h` `struct User`; `channel.h` `struct Channel`. -/
structure State where
  users : List Client
  channels : List Chan
  /-- Chain of invite pointer blocks. -/
  invited : Client → List Chan
  /-- Number of channels we've been invited to. -/
  invites : Client → ℕ
  /-- List of invites on this channel. -/
  chanInvites : Chan → List Client
  /-- `MaxChans` of the classes of a client's `cli_confs`. -/
  classes : Client → List UInt32
  maxChannelsPerUser : ℤ

/-- The limit of the first class, or else of the feature, as an unsigned number. `class.c`. -/
def getClientMaxchans (s : State) (acptr : Client) : ℕ :=
  let feature := (s.maxChannelsPerUser % 2 ^ 32).toNat
  match s.classes acptr with
  | cl :: _ => if cl ≠ 0 then cl.toNat else feature
  | [] => feature

/-- Delete an invite from the list of the channel, and count it. `del_invite`. -/
def State.delChan (s : State) (cptr : Client) (chptr : Chan) : State :=
  if cptr ∈ s.chanInvites chptr then
    { s with
      chanInvites := update s.chanInvites chptr ((s.chanInvites chptr).erase cptr)
      invites := update s.invites cptr ((s.invites cptr + (2 ^ 32 - 1)) % 2 ^ 32) }
  else s

def delInvite (s : State) (cptr : Client) (chptr : Chan) : Option State :=
  if cptr ∈ s.users ∧ chptr ∈ s.channels then
    some { s.delChan cptr chptr with
      invited := update s.invited cptr ((s.invited cptr).erase chptr) }
  else none

/-- Delete the oldest invite, if the list is max length. `add_invite`. -/
def State.makeRoom (s : State) (cptr : Client) : Option State :=
  if getClientMaxchans s cptr ≤ s.invites cptr then
    match s.invited cptr with
    | chptr :: _ => delInvite s cptr chptr
    | [] => none
  else some s

def addInvite (s : State) (cptr : Client) (chptr : Chan) : Option State := do
  let s ← delInvite s cptr chptr
  let s ← s.makeRoom cptr
  some { s with
    chanInvites := update s.chanInvites chptr (cptr :: s.chanInvites chptr)
    invited := update s.invited cptr (s.invited cptr ++ [chptr])
    invites := update s.invites cptr ((s.invites cptr + 1) % 2 ^ 32) }

/-- Delete the invites of a channel. `destruct_channel`, `mode_invite_clear`. -/
def clearChannel : ℕ → State → Chan → Option State
  | 0, _, _ => none
  | n + 1, s, chptr =>
    match s.chanInvites chptr with
    | cptr :: _ => (delInvite s cptr chptr).bind (clearChannel n · chptr)
    | [] => some s

/-- Clean up invitefield. `s_misc.c` `exit_one_client`. -/
def clearUser : ℕ → State → Client → Option State
  | 0, _, _ => none
  | n + 1, s, bcptr =>
    match s.invited bcptr with
    | chptr :: _ => (delInvite s bcptr chptr).bind (clearUser n · bcptr)
    | [] => some s

/-! ## The system -/

/-- There are no users and no channels. -/
def State.start (invites : Client → ℕ) (maxChannelsPerUser : ℤ) : State where
  users := []
  channels := []
  invited := fun _ => []
  invites := invites
  chanInvites := fun _ => []
  classes := fun _ => []
  maxChannelsPerUser := maxChannelsPerUser

/-- What happens. -/
inductive Event
  /-- A user is made. `s_user.c` `make_user`. -/
  | makeUser (cptr : Client)
  /-- A channel is made. `get_channel`. -/
  | makeChannel (chptr : Chan)
  | setFeature (n : ℤ)
  /-- Other classes of a client. `s_conf.c` `attach_conf`, `detach_conf`. -/
  | setClasses (cptr : Client) (classes : List UInt32)
  | addInvite (cptr : Client) (chptr : Chan)
  | delInvite (cptr : Client) (chptr : Chan)
  /-- The invites of a channel are cleared. `mode_invite_clear`. -/
  | clearChannel (chptr : Chan)
  | destructChannel (chptr : Chan)
  /-- `s_misc.c` `exit_one_client`. -/
  | exit (cptr : Client)

/-- What the callers keep to: users and channels are there. `m_invite.c` `m_invite`; `m_join.c`
`do_join`. -/
def State.allowed (s : State) : Event → Bool
  | .makeUser c => c ∉ s.users
  | .makeChannel ch => ch ∉ s.channels
  | .setFeature _ => true
  | .setClasses .. => true
  | .addInvite c ch => c ∈ s.users ∧ ch ∈ s.channels
  | .delInvite c ch => c ∈ s.users ∧ ch ∈ s.channels
  | .clearChannel ch => ch ∈ s.channels
  | .destructChannel ch => ch ∈ s.channels
  | .exit c => c ∈ s.users

/-- The invitations of a user to other channels. -/
def State.others (s : State) (cptr : Client) (chptr : Chan) : ℕ :=
  ((s.invited cptr).erase chptr).length

/-- When one deletion makes room: the user may have an invitation, and has not more to other channels than it
may have. `add_invite`. -/
def State.fits (s : State) : Event → Bool
  | .addInvite c ch => 1 ≤ getClientMaxchans s c ∧ s.others c ch ≤ getClientMaxchans s c
  | _ => true

def State.step (s : State) : Event → Option State
  | .makeUser c => some { s with
      users := c :: s.users, invited := update s.invited c []
      invites := update s.invites c 0 }
  | .makeChannel ch => some { s with
      channels := ch :: s.channels, chanInvites := update s.chanInvites ch [] }
  | .setFeature n => some { s with maxChannelsPerUser := n }
  | .setClasses c classes => some { s with classes := update s.classes c classes }
  | .addInvite c ch => Invite.addInvite s c ch
  | .delInvite c ch => Invite.delInvite s c ch
  | .clearChannel ch => Invite.clearChannel ((s.chanInvites ch).length + 1) s ch
  | .destructChannel ch => do
      let s ← Invite.clearChannel ((s.chanInvites ch).length + 1) s ch
      some { s with channels := s.channels.filter (· ≠ ch) }
  | .exit c => do
      let s ← clearUser ((s.invited c).length + 1) s c
      some { s with users := s.users.filter (· ≠ c) }

/-! ## The invariant -/

/-- Both sides keep one relation, and the invitations of a user are counted. -/
structure Sound (s : State) : Prop where
  pairs : Pairs.Sound ⟨s.invited, s.chanInvites⟩
  users : ∀ c, s.invited c ≠ [] → c ∈ s.users
  channels : ∀ ch, s.chanInvites ch ≠ [] → ch ∈ s.channels
  count : ∀ c ∈ s.users, s.invites c = (s.invited c).length
  bound : ∀ c ∈ s.users, s.invites c < 2 ^ 32

section Sound

variable {s : State} {c : Client} {ch : Chan}

lemma getClientMaxchans_lt (s : State) (c : Client) : getClientMaxchans s c < 2 ^ 32 := by
  have hfeature : (s.maxChannelsPerUser % 2 ^ 32).toNat < 2 ^ 32 := by omega
  rw [getClientMaxchans]
  split
  · split
    · exact UInt32.toNat_lt _
    · exact hfeature
  · exact hfeature

lemma Sound.counted {l : List Chan} {n : ℕ} (h : Sound s) (hn : n = l.length) (hlt : n < 2 ^ 32)
    (d : Client) (hd : d ≠ c → d ∈ s.users) :
    update s.invites c n d = (update s.invited c l d).length ∧ update s.invites c n d < 2 ^ 32 := by
  by_cases e : d = c
  · rw [e, update_self, update_self]
    exact ⟨hn, hlt⟩
  · rw [update_of_ne e, update_of_ne e]
    exact ⟨h.count d (hd e), h.bound d (hd e)⟩

lemma update_erase_ne_nil {α β : Type} [DecidableEq α] [DecidableEq β] {f : α → List β} {a : α} {b : β}
    {x : α} (hx : update f a ((f a).erase b) x ≠ []) : f x ≠ [] := by
  by_cases e : x = a
  · rw [e, update_self] at hx
    rw [e]
    intro hnil
    rw [hnil] at hx
    exact hx rfl
  · rwa [update_of_ne e] at hx

lemma Sound.delInvite (h : Sound s) (hc : c ∈ s.users) (hch : ch ∈ s.channels) :
    ∃ invites, Invite.delInvite s c ch = some { s with
      invited := update s.invited c ((s.invited c).erase ch)
      chanInvites := update s.chanInvites ch ((s.chanInvites ch).erase c)
      invites := invites } ∧
    Sound { s with
      invited := update s.invited c ((s.invited c).erase ch)
      chanInvites := update s.chanInvites ch ((s.chanInvites ch).erase c)
      invites := invites } := by
  rw [Invite.delInvite, if_pos ⟨hc, hch⟩, State.delChan]
  by_cases hmem : c ∈ s.chanInvites ch
  · have hmem' : ch ∈ s.invited c := (h.pairs.mem c ch).mpr hmem
    have hn : (s.invites c + (2 ^ 32 - 1)) % 2 ^ 32 = ((s.invited c).erase ch).length := by
      have hpos := length_pos_of_mem hmem'
      have hbound := h.bound c hc
      rw [List.length_erase_of_mem hmem', ← h.count c hc] at *
      omega
    have hcount := h.counted (c := c) hn (Nat.mod_lt _ (by decide))
    rw [if_pos hmem]
    exact ⟨_, rfl, h.pairs.erase c ch, fun d hd => h.users d (update_erase_ne_nil hd),
      fun d hd => h.channels d (update_erase_ne_nil hd), fun d hd => (hcount d fun _ => hd).1,
      fun d hd => (hcount d fun _ => hd).2⟩
  · have hmem' : ch ∉ s.invited c := fun hin => hmem ((h.pairs.mem c ch).mp hin)
    rw [if_neg hmem, List.erase_of_not_mem hmem, List.erase_of_not_mem hmem', update_eq_self, update_eq_self]
    exact ⟨s.invites, rfl, h⟩

lemma Sound.addInvite (h : Sound s) (hc : c ∈ s.users) (hch : ch ∈ s.channels)
    (hone : 1 ≤ getClientMaxchans s c) (hle : s.others c ch ≤ getClientMaxchans s c) :
    ∃ t, Invite.addInvite s c ch = some t ∧ Sound t ∧ t.invites c ≤ getClientMaxchans t c ∧
      getClientMaxchans t c = getClientMaxchans s c := by
  obtain ⟨n, hdel, hsound⟩ := h.delInvite hc hch
  obtain ⟨u, hu⟩ : ∃ u, u = { s with
      invited := update s.invited c ((s.invited c).erase ch)
      chanInvites := update s.chanInvites ch ((s.chanInvites ch).erase c)
      invites := n } := ⟨_, rfl⟩
  rw [← hu] at hdel hsound
  have huc : c ∈ u.users := hu ▸ hc
  have hmax : getClientMaxchans u c = getClientMaxchans s c := by rw [hu]; rfl
  have hout : ch ∉ u.invited c := by
    rw [hu]
    simp only [update_self]
    exact (h.pairs.nodup_left c).not_mem_erase
  have hlen : u.invites c ≤ getClientMaxchans u c := by
    rw [hsound.count c huc, hmax, hu]
    simp only [update_self]
    exact hle
  -- after one deletion, if it was needed, there is room
  obtain ⟨v, hroom, hsound', hvc, hvch, hvout, hvlt, hvmax⟩ : ∃ v, u.makeRoom c = some v ∧ Sound v ∧
      c ∈ v.users ∧ ch ∈ v.channels ∧ ch ∉ v.invited c ∧ v.invites c < getClientMaxchans u c ∧
      getClientMaxchans v c = getClientMaxchans u c := by
    rw [State.makeRoom]
    by_cases hfull : getClientMaxchans u c ≤ u.invites c
    · rw [if_pos hfull]
      cases hl : u.invited c with
      | nil =>
        rw [hsound.count c huc, hl, hmax] at hfull
        exact absurd (hone.trans hfull) (by simp)
      | cons o rest =>
        have ho : o ∈ u.invited c := hl ▸ mem_cons_self
        have hoc : c ∈ u.chanInvites o := (hsound.pairs.mem c o).mp ho
        obtain ⟨m, hdel', hsound'⟩ := hsound.delInvite huc (hsound.channels o (ne_nil_of_mem hoc))
        refine ⟨_, hdel', hsound', huc, hu ▸ hch, fun hin => hout ?_, ?_, rfl⟩
        · simp only [update_self] at hin
          exact List.mem_of_mem_erase hin
        · have hcount := hsound'.count c huc
          simp only [update_self] at hcount
          have hlen' := length_pos_of_mem ho
          rw [List.length_erase_of_mem ho, ← hsound.count c huc] at hcount
          rw [← hsound.count c huc] at hlen'
          show m c < _
          omega
    · rw [if_neg hfull]
      exact ⟨u, rfl, hsound, huc, hu ▸ hch, hout, Nat.lt_of_not_le hfull, rfl⟩
  have hlt := getClientMaxchans_lt u c
  have hmod : (v.invites c + 1) % 2 ^ 32 = v.invites c + 1 := Nat.mod_eq_of_lt (by omega)
  have hcount := hsound'.counted (c := c) (l := v.invited c ++ [ch]) (n := v.invites c + 1)
    (by rw [List.length_append, List.length_singleton, hsound'.count c hvc]) (by omega)
  have hput : (v.invited c ++ [ch]).Perm (ch :: v.invited c) := List.perm_append_singleton ch _
  refine ⟨{ v with
    chanInvites := update v.chanInvites ch (c :: v.chanInvites ch)
    invited := update v.invited c (v.invited c ++ [ch])
    invites := update v.invites c (v.invites c + 1) }, ?_,
    ⟨hsound'.pairs.put hvout hput, fun d hd => ?_, fun d hd => ?_, fun d hd => ?_,
    fun d hd => ?_⟩, ?_, ?_⟩
  · rw [Invite.addInvite, hdel, Option.bind_eq_bind, bind_some, hroom, bind_some, hmod]
  · by_cases e : d = c
    · rwa [e]
    · simp only [update_of_ne e] at hd
      exact hsound'.users d hd
  · by_cases e : d = ch
    · rwa [e]
    · simp only [update_of_ne e] at hd
      exact hsound'.channels d hd
  · exact (hcount d fun _ => hd).1
  · exact (hcount d fun _ => hd).2
  · show update v.invites c (v.invites c + 1) c ≤ getClientMaxchans v c
    rw [update_self, hvmax]
    exact hvlt
  · exact hvmax.trans hmax

lemma Sound.clearChannel : (n : ℕ) → ∀ {s : State}, Sound s → ch ∈ s.channels →
    (s.chanInvites ch).length < n →
    ∃ t, Invite.clearChannel n s ch = some t ∧ Sound t ∧ t.users = s.users ∧ t.chanInvites ch = []
  | 0, _, _, _, hn => absurd hn (Nat.not_lt_zero _)
  | n + 1, s, h, hch, hn => by
    rw [Invite.clearChannel]
    cases hl : s.chanInvites ch with
    | nil => exact ⟨s, rfl, h, rfl, hl⟩
    | cons c rest =>
      have hmem : c ∈ s.chanInvites ch := hl ▸ mem_cons_self
      have hmem' : ch ∈ s.invited c := (h.pairs.mem c ch).mpr hmem
      obtain ⟨invites, hdel, hsound⟩ := h.delInvite (h.users c (ne_nil_of_mem hmem')) hch
      simp only [hdel, bind_some]
      refine Sound.clearChannel n hsound hch ?_
      simp only [update_self, List.length_erase_of_mem hmem]
      have := length_pos_of_mem hmem
      omega

lemma Sound.clearUser : (n : ℕ) → ∀ {s : State}, Sound s → c ∈ s.users → (s.invited c).length < n →
    ∃ t, Invite.clearUser n s c = some t ∧ Sound t ∧ t.invited c = []
  | 0, _, _, _, hn => absurd hn (Nat.not_lt_zero _)
  | n + 1, s, h, hc, hn => by
    rw [Invite.clearUser]
    cases hl : s.invited c with
    | nil => exact ⟨s, rfl, h, hl⟩
    | cons ch rest =>
      have hmem : ch ∈ s.invited c := hl ▸ mem_cons_self
      have hmem' : c ∈ s.chanInvites ch := (h.pairs.mem c ch).mp hmem
      obtain ⟨invites, hdel, hsound⟩ := h.delInvite hc (h.channels ch (ne_nil_of_mem hmem'))
      simp only [hdel, bind_some]
      refine Sound.clearUser n hsound hc ?_
      simp only [update_self, List.length_erase_of_mem hmem]
      have := length_pos_of_mem hmem
      omega

lemma Sound.step (h : Sound s) (e : Event) (he : s.allowed e = true) (hfits : s.fits e = true) :
    ∃ t, s.step e = some t ∧ Sound t := by
  cases e with
  | makeUser c =>
    have hc : c ∉ s.users := of_decide_eq_true he
    have hnil : s.invited c = [] := by
      by_contra hne
      exact hc (h.users c hne)
    have hcount := h.counted (c := c) (l := []) rfl (by decide)
    have hmem : ∀ d, d ∈ c :: s.users → d ≠ c → d ∈ s.users := fun d hd hne =>
      (List.mem_cons.mp hd).resolve_left hne
    have hinvited : update s.invited c [] = s.invited := by
      rw [← hnil, update_eq_self]
    refine ⟨_, rfl, ?_, fun d hd => ?_, h.channels, fun d hd => (hcount d (hmem d hd)).1,
      fun d hd => (hcount d (hmem d hd)).2⟩
    · rw [hinvited]
      exact h.pairs
    · rw [hinvited] at hd
      exact List.mem_cons_of_mem _ (h.users d hd)
  | makeChannel ch =>
    have hch : ch ∉ s.channels := of_decide_eq_true he
    have hnil : s.chanInvites ch = [] := by
      by_contra hne
      exact hch (h.channels ch hne)
    have hchan : update s.chanInvites ch [] = s.chanInvites := by
      rw [← hnil, update_eq_self]
    refine ⟨_, rfl, ?_, h.users, fun d hd => ?_, h.count, h.bound⟩
    · rw [hchan]
      exact h.pairs
    · rw [hchan] at hd
      exact List.mem_cons_of_mem _ (h.channels d hd)
  | setFeature n => exact ⟨_, rfl, h.pairs, h.users, h.channels, h.count, h.bound⟩
  | setClasses c classes => exact ⟨_, rfl, h.pairs, h.users, h.channels, h.count, h.bound⟩
  | addInvite c ch =>
    obtain ⟨hc, hch⟩ := of_decide_eq_true he
    obtain ⟨hone, hle⟩ := of_decide_eq_true hfits
    obtain ⟨t, ht, hsound, -⟩ := h.addInvite hc hch hone hle
    exact ⟨t, ht, hsound⟩
  | delInvite c ch =>
    obtain ⟨hc, hch⟩ := of_decide_eq_true he
    obtain ⟨invites, hdel, hsound⟩ := h.delInvite hc hch
    exact ⟨_, hdel, hsound⟩
  | clearChannel ch =>
    obtain ⟨t, ht, hsound, -⟩ := h.clearChannel _ (of_decide_eq_true he) (Nat.lt_succ_self _)
    exact ⟨t, ht, hsound⟩
  | destructChannel ch =>
    obtain ⟨t, ht, hsound, -, hnil⟩ := h.clearChannel _ (of_decide_eq_true he) (Nat.lt_succ_self _)
    refine ⟨{ t with channels := t.channels.filter (· ≠ ch) }, by rw [State.step, ht]; rfl,
      hsound.pairs, hsound.users, fun d hd => ?_, hsound.count, hsound.bound⟩
    refine List.mem_filter.mpr ⟨hsound.channels d hd, decide_eq_true ?_⟩
    rintro rfl
    exact hd hnil
  | exit c =>
    obtain ⟨t, ht, hsound, hnil⟩ := h.clearUser _ (of_decide_eq_true he) (Nat.lt_succ_self _)
    have hsub : ∀ d, d ∈ t.users.filter (· ≠ c) → d ∈ t.users := fun d hd => List.mem_of_mem_filter hd
    refine ⟨{ t with users := t.users.filter (· ≠ c) }, by rw [State.step, ht]; rfl,
      hsound.pairs, fun d hd => ?_, hsound.channels, fun d hd => hsound.count d (hsub d hd),
      fun d hd => hsound.bound d (hsub d hd)⟩
    refine List.mem_filter.mpr ⟨hsound.users d hd, decide_eq_true ?_⟩
    rintro rfl
    exact hd hnil

lemma Sound.start (invites : Client → ℕ) (n : ℤ) : Sound (State.start invites n) := by
  have hnot : ∀ x : ℕ, x ∉ ([] : List ℕ) := fun x => List.not_mem_nil
  exact ⟨⟨fun _ _ => iff_of_false (hnot _) (hnot _), fun _ => List.nodup_nil, fun _ => List.nodup_nil⟩,
    fun _ hc => absurd rfl hc, fun _ hc => absurd rfl hc, fun c hc => absurd hc (hnot c),
    fun c hc => absurd hc (hnot c)⟩

end Sound

/-- **The invitations are consistent in every run** in which each user that is invited may have an invitation,
and has not more to other channels than it may have: each event is done, a channel is in the list of a user if
and only if the user is in the list of the channel, once on each side, a user's count is the length of its list,
and after an invitation it is not above the limit. -/
theorem invites_consistent (invites : Client → ℕ) (maxChannelsPerUser : ℤ) (es : List Event)
    (hmeets : Runs.Meets State.step (fun s e => s.allowed e && s.fits e)
      (State.start invites maxChannelsPerUser) es) :
    ∃ s, Runs.run State.step (State.start invites maxChannelsPerUser) es = some s ∧
      (∀ c ∈ s.users, s.invites c = (s.invited c).length ∧ (s.invited c).Nodup ∧
        ∀ ch ∈ s.invited c, ch ∈ s.channels) ∧
      (∀ ch ∈ s.channels, (s.chanInvites ch).Nodup ∧ ∀ c ∈ s.chanInvites ch, c ∈ s.users) ∧
      (∀ c ∈ s.users, ∀ ch ∈ s.channels, ch ∈ s.invited c ↔ c ∈ s.chanInvites ch) ∧
      ∀ c ch, s.allowed (.addInvite c ch) = true → s.fits (.addInvite c ch) = true →
        ∃ t, s.step (.addInvite c ch) = some t ∧ t.invites c ≤ getClientMaxchans t c := by
  have hstep : ∀ s e, Sound s → (s.allowed e && s.fits e) = true → ∃ t, s.step e = some t ∧ Sound t := by
    intro s e h hcond
    obtain ⟨he, hfits⟩ := Bool.and_eq_true_iff.mp hcond
    exact h.step e he hfits
  obtain ⟨s, hs, h⟩ := Runs.Meets.run hstep es (Sound.start invites maxChannelsPerUser) hmeets
  refine ⟨s, hs, fun c hc => ⟨h.count c hc, h.pairs.nodup_left c, fun ch hch => ?_⟩,
    fun ch hch => ⟨h.pairs.nodup_right ch, fun c hc => ?_⟩, fun c _ ch _ => h.pairs.mem c ch,
    fun c ch he hfits => ?_⟩
  · have hc' : c ∈ s.chanInvites ch := (h.pairs.mem c ch).mp hch
    exact h.channels ch (ne_nil_of_mem hc')
  · have hch' : ch ∈ s.invited c := (h.pairs.mem c ch).mpr hc
    exact h.users c (ne_nil_of_mem hch')
  · obtain ⟨hc, hch⟩ := of_decide_eq_true he
    obtain ⟨hone, hle⟩ := of_decide_eq_true hfits
    obtain ⟨t, ht, -, hmax, -⟩ := h.addInvite hc hch hone hle
    exact ⟨t, ht, hmax⟩

/-- With a limit of one the first invitation is replaced by the second. -/
theorem invites_consistent_example : ∃ s, Runs.run State.step (State.start (fun _ => 0) 1) [.makeUser 0,
    .makeChannel 5, .makeChannel 6, .addInvite 0 5, .addInvite 0 6, .destructChannel 6] = some s ∧
    ∀ c ∈ s.users, s.invites c = (s.invited c).length ∧ (s.invited c).Nodup ∧ ∀ ch ∈ s.invited c,
    ch ∈ s.channels := by
  obtain ⟨s, hs, h, -⟩ := invites_consistent (fun _ => 0) 1 [.makeUser 0, .makeChannel 5,
    .makeChannel 6, .addInvite 0 5, .addInvite 0 6, .destructChannel 6] (by decide +kernel)
  exact ⟨s, hs, h⟩

/-- With a limit that is lowered to one a user has two invitations after the next one; with a limit of
zero the oldest of no invitations is used. -/
theorem invites_exceed :
    (∃ es c ch s t, Runs.Meets State.step State.allowed (State.start (fun _ => 0) 2) (es ++ [.addInvite c ch]) ∧
      Runs.run State.step (State.start (fun _ => 0) 2) es = some s ∧
      s.step (.addInvite c ch) = some t ∧ ¬t.invites c ≤ getClientMaxchans t c) ∧
    ∃ es c ch s, Runs.Meets State.step State.allowed (State.start (fun _ => 0) 0) (es ++ [.addInvite c ch]) ∧
      Runs.run State.step (State.start (fun _ => 0) 0) es = some s ∧ s.step (.addInvite c ch) = none := by
  refine ⟨⟨[.makeUser 0, .makeChannel 5, .makeChannel 6, .makeChannel 7, .addInvite 0 5,
      .addInvite 0 6, .setFeature 1], 0, 7, _, _, by decide +kernel, rfl, rfl, by decide +kernel⟩,
    [.makeUser 0, .makeChannel 5], 0, 5, _, by decide +kernel, rfl, rfl⟩

end Nefarious.Invite
