import Nefarious.Channel.DestructEvent
import Nefarious.Lib.Walk

/-!
# Who is on which channel

A membership is a record on two doubly linked lists, that of its channel and that of its user.

Names: `channel.c`.
-/

set_option linter.unusedSectionVars false

namespace Nefarious.Membership

open Option (some.inj)
open List (length_eq_zero_iff mem_cons mem_cons_self nodup_nil)
open Function (update update_of_ne update_self)

open Lib.Dll
open DestructEvent (Features)

/-! ### Channels, users and memberships -/

/-- A membership. `channel.h` `struct Membership`. -/
structure Member (κ χ : Type) where
  user : κ
  channel : χ
  /-- `CHFL_ZOMBIE` of `status`. -/
  zombie : Bool
deriving DecidableEq

/-- A channel. `channel.h` `struct Channel`. -/
structure Chan where
  members : Option ℕ
  users : ℕ
  /-- `nonsslusers`, an `unsigned int`: below zero it stands for the value with `2 ^ 32` added. -/
  nonsslusers : ℤ
  /-- `EXMODE_PERSIST` of `mode.exmode`. -/
  persist : Bool
  apass : Bool
deriving DecidableEq

/-- A user. `client.h` `struct Client`, `struct.h` `struct User`. -/
structure Client where
  /-- `IsSSL`, user mode `+z`. -/
  isSSL : Bool
  /-- `IsChannelService`, user mode `+k`. -/
  isChannelService : Bool
  myUser : Bool
  channel : Option ℕ
  joined : ℕ
deriving DecidableEq

/-- A user that `nonsslusers` counts. `add_user_to_channel`, `remove_member_from_channel`. -/
def Client.plain (cl : Client) : Bool := !cl.isSSL && !cl.isChannelService

/-- A server. A membership is named by the number of its allocation. -/
structure State (κ χ : Type) where
  member : ℕ → Member κ χ
  /-- `prev_member` and `next_member`. -/
  memberLinks : ℕ → Links ℕ
  /-- `prev_channel` and `next_channel`. -/
  channelLinks : ℕ → Links ℕ
  chans : χ → Option Chan
  clients : κ → Client
  freeList : Option ℕ
  allocCount : ℕ

variable {κ χ : Type} [DecidableEq κ] [DecidableEq χ]

/-- The membership of a user on a channel: a channel service is looked for among the members, another user's
channels are gone through. -/
def findMemberLink (s : State κ χ) (c : χ) (u : κ) : Option ℕ :=
  if (s.clients u).isChannelService then
    (walk s.memberLinks s.allocCount ((s.chans c).bind Chan.members)).find? fun m => (s.member m).user = u
  else
    (walk s.channelLinks s.allocCount (s.clients u).channel).find? fun m => (s.member m).channel = c

/-- A record for a membership. `add_user_to_channel`. -/
def takeMember (s : State κ χ) : ℕ × State κ χ :=
  match s.freeList with
  | some m => (m, { s with freeList := (s.memberLinks m).next })
  | none => (s.allocCount, { s with allocCount := s.allocCount + 1 })

/-- Put a membership in front of both lists. `add_user_to_channel`. -/
def linkMember (s : State κ χ) (c : χ) (ch : Chan) (u : κ) (m : ℕ) : State κ χ :=
  { s with
    member := update s.member m ⟨u, c, false⟩
    memberLinks := (push s.memberLinks ch.members m).1
    channelLinks := (push s.channelLinks (s.clients u).channel m).1
    chans := update s.chans c (some
      { ch with
        members := (push s.memberLinks ch.members m).2
        users := ch.users + 1
        nonsslusers := if (s.clients u).plain then ch.nonsslusers + 1 else ch.nonsslusers })
    clients := update s.clients u
      { s.clients u with
        channel := (push s.channelLinks (s.clients u).channel m).2
        joined := (s.clients u).joined + 1 } }

def addUserToChannel (s : State κ χ) (c : χ) (ch : Chan) (u : κ) : State κ χ :=
  linkMember (takeMember s).2 c ch u (takeMember s).1

/-- One user less, and maybe the last one. The answer is whether there are users left. `sub1_from_channel`, `destruct_channel`. -/
def sub1FromChannel (feat : Features) (ch : Chan) : Option Chan × Bool :=
  if 1 < ch.users then (some { ch with users := ch.users - 1 }, true)
  else
    let ch := { ch with users := 0 }
    if ch.persist then (some ch, false)
    else if !ch.apass && !feat.oplevels then (none, false)
    else if feat.zannels then (some ch, false)
    else (none, false)

/-- Take a membership off both lists and give its record back; `after` is what becomes of the channel. `remove_member_from_channel`. -/
def unlinkMember (s : State κ χ) (c : χ) (ch : Chan) (u : κ) (m : ℕ) (after : Option Chan) : State κ χ :=
  { s with
    memberLinks := update (unlink s.memberLinks ch.members m).1 m ⟨(s.memberLinks m).prev, s.freeList⟩
    channelLinks := (unlink s.channelLinks (s.clients u).channel m).1
    clients := update s.clients u
      { s.clients u with
        channel := (unlink s.channelLinks (s.clients u).channel m).2
        joined := (s.clients u).joined - 1 }
    freeList := some m
    chans := update s.chans c after }

/-- Remove a membership. The answer is whether there are users left. `remove_member_from_channel`. -/
def removeMember (feat : Features) (s : State κ χ) (m : ℕ) : State κ χ × Bool :=
  let c := (s.member m).channel
  let u := (s.member m).user
  match s.chans c with
  | none => (s, false)
  | some ch =>
    let r := sub1FromChannel feat
      { ch with
        members := (unlink s.memberLinks ch.members m).2
        nonsslusers := if (s.clients u).plain then ch.nonsslusers - 1 else ch.nonsslusers }
    (unlinkMember s c ch u m r.1, r.2)

def channelAllZombies (s : State κ χ) (c : χ) : Bool :=
  (walk s.memberLinks s.allocCount ((s.chans c).bind Chan.members)).all fun m => (s.member m).zombie

/-- Remove the first member until none is left, with a bound on the rounds. `remove_user_from_channel`. -/
def removeLoop (feat : Features) (c : χ) : ℕ → State κ χ → State κ χ
  | 0, s => s
  | n + 1, s =>
    match (s.chans c).bind Chan.members with
    | none => s
    | some m =>
      if (removeMember feat s m).2 then removeLoop feat c n (removeMember feat s m).1
      else (removeMember feat s m).1

/-- Remove a user from a channel, and zombies that are left alone with it. -/
def removeUserFromChannel (feat : Features) (s : State κ χ) (u : κ) (c : χ) : State κ χ :=
  match findMemberLink s c u with
  | none => s
  | some m =>
    if (removeMember feat s m).2 && channelAllZombies (removeMember feat s m).1 c then
      removeLoop feat c s.allocCount (removeMember feat s m).1
    else (removeMember feat s m).1

/-- Remove a user from the first channel until there is none, with a bound on the rounds. `remove_user_from_all_channels`. -/
def quitLoop (feat : Features) (u : κ) : ℕ → State κ χ → State κ χ
  | 0, s => s
  | n + 1, s =>
    match (s.clients u).channel with
    | none => s
    | some m => quitLoop feat u n (removeUserFromChannel feat s u (s.member m).channel)

def removeUserFromAllChannels (feat : Features) (s : State κ χ) (u : κ) : State κ χ :=
  quitLoop feat u s.allocCount s

/-- A member becomes a zombie, if it is not removed: it is when it is a user of this server, when the KICK comes
back to the server of the user (`back`), and when there are zombies only. -/
def makeZombie (feat : Features) (s : State κ χ) (m : ℕ) (u : κ) (c : χ) (back : Bool) : State κ χ :=
  let s := { s with member := update s.member m { s.member m with zombie := true } }
  if (s.clients u).myUser || back || channelAllZombies s c then removeUserFromChannel feat s u c else s

/-- What happens to memberships, and what they depend on. -/
inductive Op (κ χ : Type)
  /-- A user is added to a channel, which is created if there is none. -/
  | join (u : κ) (c : χ)
  | part (u : κ) (c : χ)
  /-- A user is removed from all channels. -/
  | quit (u : κ)
  | kick (u : κ) (c : χ) (back : Bool)
  /-- The user modes `+z` and `+k` of a user are set. -/
  | umode (u : κ) (isSSL isChannelService : Bool)
  /-- The modes of a channel are changed. -/
  | modes (c : χ) (persist apass : Bool)
  | destruct (c : χ)

/-- A channel without members. `get_channel`. -/
def newChan : Chan := ⟨none, 0, 0, false, false⟩

/-- One step. Nobody is added who is on the channel already: each caller of `add_user_to_channel` asks
`find_member_link` first, or has just created the channel. Nor is a zombie made a zombie again. `m_join.c`
`do_join`, `ms_join`; `m_create.c` `ms_create`; `m_burst.c` `ms_burst`; `m_svsjoin.c`
`ms_svsjoin`; `m_kick.c` `m_kick`, `ms_kick`; `s_user.c` `set_user_mode`; `m_destruct.c`
`ms_destruct`. -/
def step (feat : Features) (s : State κ χ) : Op κ χ → State κ χ
  | .join u c =>
    if (findMemberLink s c u).isSome then s
    else addUserToChannel s c ((s.chans c).getD newChan) u
  | .part u c => removeUserFromChannel feat s u c
  | .quit u => removeUserFromAllChannels feat s u
  | .kick u c back =>
    match findMemberLink s c u with
    | none => s
    | some m => if (s.member m).zombie then s else makeZombie feat s m u c back
  | .umode u isSSL isChannelService =>
    { s with
      clients := update s.clients u
        { s.clients u with isSSL := isSSL, isChannelService := isChannelService } }
  | .modes c persist apass =>
    { s with
      chans := update s.chans c ((s.chans c).map fun ch => { ch with persist := persist, apass := apass }) }
  | .destruct c =>
    match s.chans c with
    | none => s
    | some ch => if 0 < ch.users then s else { s with chans := update s.chans c none }

def run (feat : Features) (s : State κ χ) (ops : List (Op κ χ)) : State κ χ := ops.foldl (step feat) s

/-- A server without channels, with users of given modes. -/
def init (member : ℕ → Member κ χ) (links : ℕ → Links ℕ) (isSSL isChannelService myUser : κ → Bool) :
    State κ χ :=
  ⟨member, links, links, fun _ => none,
    fun u => ⟨isSSL u, isChannelService u, myUser u, none, 0⟩, none, 0⟩

/-! ### What holds of the lists -/

/-- The lists `ml` of members and `cl` of channels are in order and agree, and the counted lengths are
theirs. -/
structure Consistent (s : State κ χ) (ml : χ → List ℕ) (cl : κ → List ℕ) : Prop where
  members : ∀ c ch, s.chans c = some ch → IsList s.memberLinks ch.members (ml c)
  users : ∀ c ch, s.chans c = some ch → ch.users = (ml c).length
  gone : ∀ c, s.chans c = none → ml c = []
  channels : ∀ u, IsList s.channelLinks (s.clients u).channel (cl u)
  joined : ∀ u, (s.clients u).joined = (cl u).length
  channel_of : ∀ c, ∀ m ∈ ml c, (s.member m).channel = c
  user_of : ∀ u, ∀ m ∈ cl u, (s.member m).user = u
  both : ∀ m, m ∈ ml (s.member m).channel ↔ m ∈ cl (s.member m).user
  once : ∀ c, ∀ m ∈ ml c, ∀ m' ∈ ml c, (s.member m).user = (s.member m').user → m = m'

/-- `nonsslusers` counts the members that are neither SSL users nor channel services. -/
def Counted (s : State κ χ) (ml : χ → List ℕ) : Prop :=
  ∀ c ch, s.chans c = some ch → ch.nonsslusers = (ml c).countP fun m => (s.clients (s.member m).user).plain

/-- What is consistent together with the free list `fl`. -/
structure Good (s : State κ χ) (ml : χ → List ℕ) (cl : κ → List ℕ) (fl : List ℕ) : Prop
    extends Consistent s ml cl where
  free : Linked s.memberLinks s.freeList fl
  free_nodup : fl.Nodup
  free_not : ∀ m ∈ fl, ∀ c, m ∉ ml c
  free_lt : ∀ m ∈ fl, m < s.allocCount
  live_lt : ∀ c, ∀ m ∈ ml c, m < s.allocCount

section
variable {feat : Features} {s : State κ χ} {ml : χ → List ℕ} {cl : κ → List ℕ} {fl : List ℕ}
  {c : χ} {ch : Chan} {u : κ} {m : ℕ}

lemma Consistent.mem_of_channels (h : Consistent s ml cl) (hm : m ∈ cl u) : m ∈ ml (s.member m).channel := by
  have hu := h.user_of u m hm
  exact (h.both m).mpr (by rwa [hu])

lemma Consistent.mem_of_members (h : Consistent s ml cl) (hm : m ∈ ml c) : m ∈ cl (s.member m).user := by
  have hc := h.channel_of c m hm
  exact (h.both m).mp (by rwa [hc])

lemma Consistent.notMem_members (h : Consistent s ml cl) {c' : χ} (hc : c' ≠ c) (hm : m ∈ ml c') :
    m ∉ ml c := fun hm' => hc ((h.channel_of c' m hm).symm.trans (h.channel_of c m hm'))

lemma Consistent.notMem_channels (h : Consistent s ml cl) {u' : κ} (hu : u' ≠ u) (hm : m ∈ cl u') :
    m ∉ cl u := fun hm' => hu ((h.user_of u' m hm).symm.trans (h.user_of u m hm'))

lemma mem_update_cons {α : Type} [DecidableEq α] {f : α → List ℕ} {a b : α} {m m' : ℕ} :
    m' ∈ update f a (m :: f a) b ↔ b = a ∧ m' = m ∨ m' ∈ f b := by
  by_cases hba : b = a
  · subst hba
    simp
  · simp [hba]

lemma mem_update_erase {α : Type} [DecidableEq α] {f : α → List ℕ} {a b : α} {m m' : ℕ} (hnd : (f a).Nodup)
    (ha : ∀ b, m ∈ f b → b = a) : m' ∈ update f a ((f a).erase m) b ↔ m' ≠ m ∧ m' ∈ f b := by
  by_cases hba : b = a
  · subst hba
    rw [update_self]
    exact hnd.mem_erase_iff
  · rw [update_of_ne hba]
    refine ⟨fun hm' => ⟨?_, hm'⟩, fun hm' => hm'.2⟩
    rintro rfl
    exact hba (ha b hm')

/-! ### Looking for a membership -/

lemma Good.length_members (h : Good s ml cl fl) (c : χ) : (ml c).length ≤ s.allocCount := by
  cases hc : s.chans c with
  | none => simp [h.gone c hc]
  | some ch => exact length_le_of_nodup (h.members c ch hc).nodup (h.live_lt c)

lemma Good.length_channels (h : Good s ml cl fl) (u : κ) : (cl u).length ≤ s.allocCount :=
  length_le_of_nodup (h.channels u).nodup fun m hm => h.live_lt _ m (h.mem_of_channels hm)

lemma Good.walk_members (h : Good s ml cl fl) (c : χ) :
    walk s.memberLinks s.allocCount ((s.chans c).bind Chan.members) = ml c := by
  cases hc : s.chans c with
  | none =>
    rw [h.gone c hc]
    cases s.allocCount <;> rfl
  | some ch => exact (h.members c ch hc).chain.walk_eq _ (h.length_members c)

lemma Good.walk_channels (h : Good s ml cl fl) (u : κ) :
    walk s.channelLinks s.allocCount (s.clients u).channel = cl u :=
  (h.channels u).chain.walk_eq _ (h.length_channels u)

lemma Good.findMemberLink_some (h : Good s ml cl fl) (hm : findMemberLink s c u = some m) :
    m ∈ ml c ∧ (s.member m).user = u := by
  unfold findMemberLink at hm
  rw [h.walk_members c, h.walk_channels u] at hm
  split at hm
  · exact ⟨List.mem_of_find?_eq_some hm, by simpa using List.find?_some hm⟩
  · have hmem := List.mem_of_find?_eq_some hm
    have hc : (s.member m).channel = c := by simpa using List.find?_some hm
    exact ⟨hc ▸ h.mem_of_channels hmem, h.user_of u m hmem⟩

lemma Good.findMemberLink_none (h : Good s ml cl fl) (hnone : findMemberLink s c u = none) :
    ∀ m ∈ ml c, (s.member m).user ≠ u := by
  intro m hm hu
  unfold findMemberLink at hnone
  rw [h.walk_members c, h.walk_channels u] at hnone
  split at hnone
  · exact List.find?_eq_none.mp hnone m hm (by simpa using hu)
  · have hmem := h.mem_of_members hm
    rw [hu] at hmem
    exact List.find?_eq_none.mp hnone m hmem (by simpa using h.channel_of c m hm)

/-! ### Adding a user -/

lemma Good.take (h : Good s ml cl fl) : ∃ fl', Good (takeMember s).2 ml cl fl' ∧ (takeMember s).1 ∉ fl' ∧
    (∀ c, (takeMember s).1 ∉ ml c) ∧ (takeMember s).1 < (takeMember s).2.allocCount := by
  unfold takeMember
  split
  · next m hm =>
    have hfree := h.free
    rw [hm] at hfree
    obtain ⟨fl', rfl, hfl'⟩ := hfree.take
    obtain ⟨hnot, hnodup⟩ := List.nodup_cons.mp h.free_nodup
    refine ⟨fl', ⟨⟨h.members, h.users, h.gone, h.channels, h.joined, h.channel_of, h.user_of, h.both, h.once⟩,
      hfl', hnodup, fun m' hm' => h.free_not m' (List.mem_cons_of_mem _ hm'),
      fun m' hm' => h.free_lt m' (List.mem_cons_of_mem _ hm'), h.live_lt⟩, hnot, ?_, ?_⟩
    · exact h.free_not m mem_cons_self
    · exact h.free_lt m mem_cons_self
  · refine ⟨fl, ⟨⟨h.members, h.users, h.gone, h.channels, h.joined, h.channel_of, h.user_of, h.both, h.once⟩,
      h.free, h.free_nodup, h.free_not, fun m' hm' => Nat.lt_succ_of_lt (h.free_lt m' hm'),
      fun c m' hm' => Nat.lt_succ_of_lt (h.live_lt c m' hm')⟩, ?_, ?_, Nat.lt_succ_self _⟩
    · exact fun hm => Nat.lt_irrefl _ (h.free_lt _ hm)
    · exact fun c hm => Nat.lt_irrefl _ (h.live_lt c _ hm)

lemma Good.link (h : Good s ml cl fl) (hl : IsList s.memberLinks ch.members (ml c))
    (husers : ch.users = (ml c).length) (hm : ∀ c, m ∉ ml c) (hfree : m ∉ fl) (hlt : m < s.allocCount)
    (hno : ∀ m' ∈ ml c, (s.member m').user ≠ u) :
    Good (linkMember s c ch u m) (update ml c (m :: ml c)) (update cl u (m :: cl u)) fl := by
  have hmcl : ∀ u, m ∉ cl u := fun u hmu => hm _ (h.mem_of_channels hmu)
  have hne : ∀ c' m', m' ∈ ml c' → m' ≠ m := fun c' m' hm' e => hm c' (e ▸ hm')
  -- The other memberships are what they were.
  have hother : ∀ c' m', m' ∈ ml c' → (linkMember s c ch u m).member m' = s.member m' :=
    fun c' m' hm' => update_of_ne (hne c' m' hm') _ _
  have hself : (linkMember s c ch u m).member m = ⟨u, c, false⟩ := update_self ..
  refine ⟨⟨?_, ?_, ?_, ?_, ?_, ?_, ?_, ?_, ?_⟩, ?_, h.free_nodup, ?_, h.free_lt, ?_⟩
  · intro c' ch' hc'
    simp only [linkMember] at hc' ⊢
    by_cases hcc : c' = c
    · subst hcc
      rw [update_self] at hc' ⊢
      rw [← some.inj hc']
      exact push_isList hl (hm c')
    · rw [update_of_ne hcc] at hc' ⊢
      refine (h.members c' ch' hc').congr fun m' hm' => ?_
      exact push_frame_of_not_mem hl (hne c' m' hm') (h.notMem_members hcc hm')
  · intro c' ch' hc'
    simp only [linkMember] at hc'
    by_cases hcc : c' = c
    · subst hcc
      rw [update_self] at hc' ⊢
      rw [← some.inj hc', List.length_cons, ← husers]
    · rw [update_of_ne hcc] at hc' ⊢
      exact h.users c' ch' hc'
  · intro c' hc'
    simp only [linkMember] at hc'
    by_cases hcc : c' = c
    · subst hcc
      simp at hc'
    · rw [update_of_ne hcc] at hc' ⊢
      exact h.gone c' hc'
  · intro u'
    simp only [linkMember]
    by_cases huu : u' = u
    · subst huu
      rw [update_self, update_self]
      exact push_isList (h.channels u') (hmcl u')
    · rw [update_of_ne huu, update_of_ne huu]
      refine (h.channels u').congr fun m' hm' => ?_
      exact push_frame_of_not_mem (h.channels u) (hne _ m' (h.mem_of_channels hm')) (h.notMem_channels huu hm')
  · intro u'
    simp only [linkMember]
    by_cases huu : u' = u
    · subst huu
      rw [update_self, update_self, List.length_cons, ← h.joined u']
    · rw [update_of_ne huu, update_of_ne huu]
      exact h.joined u'
  · intro c' m' hm'
    obtain ⟨rfl, rfl⟩ | hm' := mem_update_cons.mp hm'
    · simp [linkMember]
    · rw [hother c' m' hm']
      exact h.channel_of c' m' hm'
  · intro u' m' hm'
    obtain ⟨rfl, rfl⟩ | hm' := mem_update_cons.mp hm'
    · simp [linkMember]
    · rw [hother _ m' (h.mem_of_channels hm')]
      exact h.user_of u' m' hm'
  · intro m'
    rw [mem_update_cons, mem_update_cons]
    by_cases hmm : m' = m
    · subst hmm
      simp [linkMember]
    · simp only [linkMember, update_of_ne hmm, hmm, and_false, false_or]
      exact h.both m'
  · intro c' m₁ h₁ m₂ h₂ hu
    obtain ⟨rfl, rfl⟩ | hold₁ := mem_update_cons.mp h₁
    · obtain ⟨-, rfl⟩ | hold₂ := mem_update_cons.mp h₂
      · rfl
      · rw [hother c' m₂ hold₂, hself] at hu
        exact absurd hu.symm (hno m₂ hold₂)
    · obtain ⟨rfl, rfl⟩ | hold₂ := mem_update_cons.mp h₂
      · rw [hother c' m₁ hold₁, hself] at hu
        exact absurd hu (hno m₁ hold₁)
      · rw [hother c' m₁ hold₁, hother c' m₂ hold₂] at hu
        exact h.once c' m₁ hold₁ m₂ hold₂ hu
  · refine Linked.congr fl (fun m' hm' => ?_) h.free
    have hne' : m' ≠ m := fun e => hfree (e ▸ hm')
    simp only [linkMember]
    rw [push_frame_of_not_mem hl hne' (h.free_not m' hm' c)]
  · intro m' hm' c' hc'
    obtain ⟨-, rfl⟩ | hc' := mem_update_cons.mp hc'
    · exact hfree hm'
    · exact h.free_not m' hm' c' hc'
  · intro c' m' hm'
    obtain ⟨-, rfl⟩ | hm' := mem_update_cons.mp hm'
    · exact hlt
    · exact h.live_lt c' m' hm'

lemma linkMember_plain (s : State κ χ) (c : χ) (ch : Chan) (u : κ) (m : ℕ) (u' : κ) :
    ((linkMember s c ch u m).clients u').plain = (s.clients u').plain := by
  by_cases huu : u' = u
  · subst huu
    simp [linkMember, Client.plain]
  · simp [linkMember, update_of_ne huu]

lemma Counted.link (h : Counted s ml) (hm : ∀ c, m ∉ ml c)
    (hch : ch.nonsslusers = (ml c).countP fun m => (s.clients (s.member m).user).plain) :
    Counted (linkMember s c ch u m) (update ml c (m :: ml c)) := by
  have hself : (linkMember s c ch u m).member m = ⟨u, c, false⟩ := update_self ..
  have hcount : ∀ c', (ml c').countP
      (fun m' => ((linkMember s c ch u m).clients ((linkMember s c ch u m).member m').user).plain) =
        (ml c').countP fun m' => (s.clients (s.member m').user).plain := by
    intro c'
    refine List.countP_congr fun m' hm' => ?_
    have hne : m' ≠ m := fun e => hm c' (e ▸ hm')
    rw [linkMember_plain, show (linkMember s c ch u m).member m' = s.member m' from update_of_ne hne _ _]
  intro c' ch' hc'
  by_cases hcc : c' = c
  · subst hcc
    simp only [linkMember, update_self, Option.some.injEq] at hc'
    rw [← hc', update_self, List.countP_cons, hcount, hself, linkMember_plain, hch]
    split <;> simp
  · simp only [linkMember, update_of_ne hcc] at hc'
    rw [update_of_ne hcc, hcount]
    exact h c' ch' hc'

lemma Good.add (h : Good s ml cl fl) (hno : ∀ m ∈ ml c, (s.member m).user ≠ u) :
    ∃ ml' cl' fl', Good (addUserToChannel s c ((s.chans c).getD newChan) u) ml' cl' fl' ∧
      (Counted s ml → Counted (addUserToChannel s c ((s.chans c).getD newChan) u) ml') := by
  have htake : (takeMember s).2.memberLinks = s.memberLinks ∧ (takeMember s).2.member = s.member ∧
      (takeMember s).2.chans = s.chans ∧ (takeMember s).2.clients = s.clients := by
    unfold takeMember
    split <;> exact ⟨rfl, rfl, rfl, rfl⟩
  obtain ⟨hlinks, hmember, hchans, hclients⟩ := htake
  obtain ⟨fl', hgood, hfree, hfresh, hlt⟩ := h.take
  -- A channel that is created has no members.
  have hch : IsList s.memberLinks ((s.chans c).getD newChan).members (ml c) ∧
      ((s.chans c).getD newChan).users = (ml c).length := by
    cases hc : s.chans c with
    | none =>
      rw [h.gone c hc]
      exact ⟨⟨rfl, nodup_nil⟩, rfl⟩
    | some ch => exact ⟨h.members c ch hc, h.users c ch hc⟩
  refine ⟨_, _, fl', hgood.link (by rw [hlinks]; exact hch.1) hch.2 hfresh hfree hlt
    (by rw [hmember]; exact hno), fun hcounted => ?_⟩
  have hcounted' : Counted (takeMember s).2 ml := by
    unfold Counted
    rw [hchans, hclients, hmember]
    exact hcounted
  apply hcounted'.link hfresh
  rw [hclients, hmember]
  cases hc : s.chans c with
  | none =>
    rw [h.gone c hc]
    rfl
  | some ch => exact hcounted c ch hc

/-! ### Removing a user -/

lemma sub1FromChannel_spec (feat : Features) (ch : Chan) : (∀ ch', (sub1FromChannel feat ch).1 = some ch' →
    ch'.members = ch.members ∧ ch'.nonsslusers = ch.nonsslusers ∧ ch'.users = ch.users - 1) ∧
    ((sub1FromChannel feat ch).1 = none → ch.users ≤ 1) ∧ (sub1FromChannel feat ch).2 =
    decide (1 < ch.users) := by
  unfold sub1FromChannel
  by_cases husers : 1 < ch.users
  · rw [if_pos husers]
    refine ⟨fun ch' hch' => ?_, by simp, by simp [husers]⟩
    rw [← some.inj hch']
    exact ⟨rfl, rfl, rfl⟩
  · rw [if_neg husers]
    have hzero : ∀ ch', ({ ch with users := 0 } : Chan) = ch' → ch'.members = ch.members ∧
        ch'.nonsslusers = ch.nonsslusers ∧ ch'.users = ch.users - 1 := by
      rintro ch' rfl
      exact ⟨rfl, rfl, by simp only; omega⟩
    simp only
    split_ifs
    all_goals
      refine ⟨fun ch' hch' => ?_, by omega, by simp [husers]⟩
      first
        | exact hzero ch' (some.inj hch')
        | cases hch'

lemma Good.unlink (h : Good s ml cl fl) (hc : s.chans c = some ch) (hm : m ∈ ml c)
    (hu : (s.member m).user = u) {after : Option Chan}
    (hafter : ∀ ch', after = some ch' → ch'.members = (unlink s.memberLinks ch.members m).2 ∧
      ch'.users = ch.users - 1)
    (hlast : after = none → ch.users ≤ 1) :
    Good (unlinkMember s c ch u m after) (update ml c ((ml c).erase m))
      (update cl u ((cl u).erase m)) (m :: fl) := by
  have hl := h.members c ch hc
  have hcl := h.channels u
  have hmu : m ∈ cl u := hu ▸ h.mem_of_members hm
  have hlen := List.length_erase_of_mem hm
  have husers := h.users c ch hc
  have hmc : ∀ c', m ∈ ml c' → c' = c := fun c' hm' => (h.channel_of c' m hm').symm.trans (h.channel_of c m hm)
  have hmem_ml : ∀ {c' m'}, m' ∈ update ml c ((ml c).erase m) c' ↔ m' ≠ m ∧ m' ∈ ml c' :=
    mem_update_erase hl.nodup hmc
  have hmem_cl : ∀ {u' m'}, m' ∈ update cl u ((cl u).erase m) u' ↔ m' ≠ m ∧ m' ∈ cl u' :=
    mem_update_erase hcl.nodup fun u' hm' => (h.user_of u' m hm').symm.trans hu
  refine ⟨⟨?_, ?_, ?_, ?_, ?_, ?_, ?_, ?_, ?_⟩, ?_, ?_, ?_, ?_, ?_⟩
  · intro c' ch' hc'
    simp only [unlinkMember] at hc' ⊢
    by_cases hcc : c' = c
    · subst hcc
      rw [update_self] at hc' ⊢
      rw [(hafter ch' hc').1]
      refine (unlink_isList hl hm).congr fun m' hm' => ?_
      rw [update_of_ne (hl.nodup.mem_erase_iff.mp hm').1]
    · rw [update_of_ne hcc] at hc' ⊢
      refine (h.members c' ch' hc').congr fun m' hm' => ?_
      have hne : m' ≠ m := fun e => hcc (hmc c' (e ▸ hm'))
      rw [update_of_ne hne]
      exact unlink_frame_of_not_mem hl hm (h.notMem_members hcc hm')
  · intro c' ch' hc'
    simp only [unlinkMember] at hc'
    by_cases hcc : c' = c
    · subst hcc
      rw [update_self] at hc' ⊢
      rw [(hafter ch' hc').2, hlen, husers]
    · rw [update_of_ne hcc] at hc' ⊢
      exact h.users c' ch' hc'
  · intro c' hc'
    simp only [unlinkMember] at hc'
    by_cases hcc : c' = c
    · subst hcc
      rw [update_self] at hc' ⊢
      have := hlast hc'
      exact length_eq_zero_iff.mp (by omega)
    · rw [update_of_ne hcc] at hc' ⊢
      exact h.gone c' hc'
  · intro u'
    simp only [unlinkMember]
    by_cases huu : u' = u
    · subst huu
      rw [update_self, update_self]
      exact unlink_isList hcl hmu
    · rw [update_of_ne huu, update_of_ne huu]
      refine (h.channels u').congr fun m' hm' => ?_
      exact unlink_frame_of_not_mem hcl hmu (h.notMem_channels huu hm')
  · intro u'
    simp only [unlinkMember]
    by_cases huu : u' = u
    · subst huu
      rw [update_self, update_self, List.length_erase_of_mem hmu, ← h.joined u']
    · rw [update_of_ne huu, update_of_ne huu]
      exact h.joined u'
  · exact fun c' m' hm' => h.channel_of c' m' (hmem_ml.mp hm').2
  · exact fun u' m' hm' => h.user_of u' m' (hmem_cl.mp hm').2
  · intro m'
    rw [hmem_ml, hmem_cl]
    exact and_congr_right fun _ => h.both m'
  · exact fun c' m₁ h₁ m₂ h₂ => h.once c' m₁ (hmem_ml.mp h₁).2 m₂ (hmem_ml.mp h₂).2
  · have hnot : m ∉ fl := fun hmf => h.free_not m hmf c hm
    refine Linked.give ?_ hnot
    refine Linked.congr fl (fun m' hm' => ?_) h.free
    rw [unlink_frame_of_not_mem hl hm (h.free_not m' hm' c)]
  · exact List.nodup_cons.mpr ⟨fun hmf => h.free_not m hmf c hm, h.free_nodup⟩
  · intro m' hm' c' hc'
    obtain ⟨hne, hc'⟩ := hmem_ml.mp hc'
    obtain rfl | hm' := mem_cons.mp hm'
    · exact hne rfl
    · exact h.free_not m' hm' c' hc'
  · intro m' hm'
    obtain rfl | hm' := mem_cons.mp hm'
    · exact h.live_lt c m' hm
    · exact h.free_lt m' hm'
  · exact fun c' m' hm' => h.live_lt c' m' (hmem_ml.mp hm').2

lemma unlinkMember_plain (s : State κ χ) (c : χ) (ch : Chan) (u : κ) (m : ℕ) (after : Option Chan)
    (u' : κ) : ((unlinkMember s c ch u m after).clients u').plain = (s.clients u').plain := by
  by_cases huu : u' = u
  · subst huu
    simp [unlinkMember, Client.plain]
  · simp [unlinkMember, update_of_ne huu]

lemma Counted.unlink (h : Counted s ml) (hc : s.chans c = some ch) (hm : m ∈ ml c)
    (hu : (s.member m).user = u) {after : Option Chan}
    (hafter : ∀ ch', after = some ch' →
      ch'.nonsslusers = if (s.clients u).plain then ch.nonsslusers - 1 else ch.nonsslusers) :
    Counted (unlinkMember s c ch u m after) (update ml c ((ml c).erase m)) := by
  intro c' ch' hc'
  simp only [unlinkMember_plain]
  by_cases hcc : c' = c
  · subst hcc
    simp only [unlinkMember, update_self] at hc' ⊢
    rw [hafter ch' hc', h c' ch hc, List.countP_erase, hu]
    by_cases hplain : (s.clients u).plain = true
    · have hpos : 0 < (ml c').countP fun m => (s.clients (s.member m).user).plain :=
        List.countP_pos_iff.mpr ⟨m, hm, by rw [hu, hplain]⟩
      rw [if_pos hplain, if_pos ⟨hm, hplain⟩]
      omega
    · rw [if_neg hplain, if_neg fun hboth => hplain hboth.2]
      rfl
  · simp only [unlinkMember, update_of_ne hcc] at hc' ⊢
    exact h c' ch' hc'

lemma Good.removeMember (feat : Features) (h : Good s ml cl fl) (hm : m ∈ ml c) (hu : (s.member m).user = u) :
    Good (removeMember feat s m).1 (update ml c ((ml c).erase m)) (update cl u ((cl u).erase m)) (m :: fl) ∧
    (Counted s ml → Counted (Membership.removeMember feat s m).1 (update ml c ((ml c).erase m))) ∧
    (Membership.removeMember feat s m).2 = decide ((ml c).erase m ≠ []) ∧
    (Membership.removeMember feat s m).1.allocCount = s.allocCount := by
  obtain ⟨ch, hc⟩ : ∃ ch, s.chans c = some ch := by
    cases hc : s.chans c with
    | none =>
      rw [h.gone c hc] at hm
      cases hm
    | some ch => exact ⟨ch, rfl⟩
  have hlen := List.length_erase_of_mem hm
  have husers := h.users c ch hc
  have hpos := List.length_pos_of_mem hm
  obtain ⟨hsome, hnone, hleft⟩ := sub1FromChannel_spec feat
    { ch with
      members := (Lib.Dll.unlink s.memberLinks ch.members m).2
      nonsslusers := if (s.clients u).plain then ch.nonsslusers - 1 else ch.nonsslusers }
  unfold Membership.removeMember
  simp only [h.channel_of c m hm, hc, hu]
  refine ⟨h.unlink hc hm hu (fun ch' hch' => ?_) hnone,
    fun hcounted => hcounted.unlink hc hm hu fun ch' hch' => (hsome ch' hch').2.1, ?_, rfl⟩
  · obtain ⟨hmembers, -, hless⟩ := hsome ch' hch'
    exact ⟨hmembers, hless⟩
  · rw [hleft, decide_eq_decide, ← List.length_pos_iff, hlen]
    simp only
    omega

lemma Good.head_members (h : Good s ml cl fl) (c : χ) : (s.chans c).bind Chan.members = (ml c).head? := by
  cases hc : s.chans c with
  | none =>
    rw [h.gone c hc]
    rfl
  | some ch => exact (h.members c ch hc).chain.head_eq

lemma length_update_erase_le {α : Type} [DecidableEq α] (f : α → List ℕ) (a b : α) (m : ℕ) :
    (update f a ((f a).erase m) b).length ≤ (f b).length := by
  by_cases hba : b = a
  · subst hba
    rw [update_self]
    exact List.length_erase_le
  · rw [update_of_ne hba]

lemma Good.removeLoop (feat : Features) (c : χ) (n : ℕ) : ∀ {s : State κ χ} {ml : χ → List ℕ} {cl : κ →
    List ℕ} {fl : List ℕ}, Good s ml cl fl → (ml c).length ≤ n → ∃ ml' cl' fl',
    Good (removeLoop feat c n s) ml' cl' fl' ∧ (Counted s ml → Counted (Membership.removeLoop feat c n s) ml') ∧
    ml' c = [] ∧ ∀ u, (cl' u).length ≤ (cl u).length := by
  induction n with
  | zero =>
    intro s ml cl fl h hlen
    exact ⟨ml, cl, fl, h, id, length_eq_zero_iff.mp (Nat.le_zero.mp hlen), fun _ => le_rfl⟩
  | succ n ih =>
    intro s ml cl fl h hlen
    rw [Membership.removeLoop, h.head_members c]
    cases hml : ml c with
    | nil => exact ⟨ml, cl, fl, h, id, hml, fun _ => le_rfl⟩
    | cons m ms =>
      have hm : m ∈ ml c := hml ▸ mem_cons_self
      have herase : (ml c).erase m = ms := by rw [hml, List.erase_cons_head]
      obtain ⟨hgood, hcounted, hleft, -⟩ := h.removeMember feat hm rfl
      rw [herase] at hgood hcounted hleft
      simp only [List.head?_cons]
      split
      · have hms : (update ml c ms c).length ≤ n := by
          rw [hml] at hlen
          rw [update_self]
          exact Nat.le_of_succ_le_succ hlen
        obtain ⟨ml', cl', fl', hgood', hcounted', hempty, hless⟩ := ih hgood hms
        refine ⟨ml', cl', fl', hgood', fun hs => hcounted' (hcounted hs), hempty, fun u => ?_⟩
        exact (hless u).trans (length_update_erase_le cl _ u m)
      · next hdone =>
        refine ⟨_, _, _, hgood, hcounted, ?_, fun u => length_update_erase_le cl _ u m⟩
        rw [update_self]
        rw [hleft] at hdone
        simpa using hdone

lemma Good.removeUser (feat : Features) (h : Good s ml cl fl) (u : κ) (c : χ) :
    ∃ ml' cl' fl', Good (removeUserFromChannel feat s u c) ml' cl' fl' ∧
      (Counted s ml → Counted (removeUserFromChannel feat s u c) ml') ∧
      ((findMemberLink s c u).isSome → (cl' u).length < (cl u).length) := by
  unfold removeUserFromChannel
  split
  · next hnone => exact ⟨ml, cl, fl, h, id, by simp [hnone]⟩
  · next m hfind =>
    obtain ⟨hm, hu⟩ := h.findMemberLink_some hfind
    have hmu : m ∈ cl u := hu ▸ h.mem_of_members hm
    have hless : (update cl u ((cl u).erase m) u).length < (cl u).length := by
      rw [update_self, List.length_erase_of_mem hmu]
      exact Nat.sub_lt (List.length_pos_of_mem hmu) Nat.one_pos
    obtain ⟨hgood, hcounted, -, halloc⟩ := h.removeMember feat hm hu
    split
    · have hlen := (length_update_erase_le ml c c m).trans (h.length_members c)
      obtain ⟨ml', cl', fl', hgood', hcounted', -, hless'⟩ := hgood.removeLoop feat c s.allocCount hlen
      exact ⟨ml', cl', fl', hgood', fun hs => hcounted' (hcounted hs), fun _ => (hless' u).trans_lt hless⟩
    · exact ⟨_, _, _, hgood, hcounted, fun _ => hless⟩

lemma Good.quitLoop (feat : Features) (u : κ) (n : ℕ) : ∀ {s : State κ χ} {ml : χ → List ℕ}
    {cl : κ → List ℕ} {fl : List ℕ}, Good s ml cl fl → (cl u).length ≤ n →
    ∃ ml' cl' fl', Good (quitLoop feat u n s) ml' cl' fl' ∧
      (Counted s ml → Counted (Membership.quitLoop feat u n s) ml') ∧ cl' u = [] := by
  induction n with
  | zero =>
    intro s ml cl fl h hlen
    exact ⟨ml, cl, fl, h, id, length_eq_zero_iff.mp (Nat.le_zero.mp hlen)⟩
  | succ n ih =>
    intro s ml cl fl h hlen
    rw [Membership.quitLoop, (h.channels u).chain.head_eq]
    cases hcl : cl u with
    | nil => exact ⟨ml, cl, fl, h, id, hcl⟩
    | cons m ms =>
      have hm : m ∈ cl u := hcl ▸ mem_cons_self
      simp only [List.head?_cons]
      obtain ⟨ml', cl', fl', hgood, hcounted, hless⟩ := h.removeUser feat u (s.member m).channel
      have hfound : (findMemberLink s (s.member m).channel u).isSome := by
        rw [Option.isSome_iff_ne_none]
        exact fun hnone => h.findMemberLink_none hnone m (h.mem_of_channels hm) (h.user_of u m hm)
      obtain ⟨ml'', cl'', fl'', hgood', hcounted', hempty⟩ := ih hgood (by
        have := hless hfound
        omega)
      exact ⟨ml'', cl'', fl'', hgood', fun hs => hcounted' (hcounted hs), hempty⟩

/-! ### Other steps -/

lemma Good.setMember (h : Good s ml cl fl) {f : ℕ → Member κ χ}
    (hu : ∀ m, (f m).user = (s.member m).user) (hc : ∀ m, (f m).channel = (s.member m).channel) :
    Good { s with member := f } ml cl fl ∧ (Counted s ml → Counted { s with member := f } ml) := by
  refine ⟨⟨⟨h.members, h.users, h.gone, h.channels, h.joined, ?_, ?_, ?_, ?_⟩, h.free, h.free_nodup,
    h.free_not, h.free_lt, h.live_lt⟩, fun hcounted c ch hch => ?_⟩
  · intro c m hm
    rw [← h.channel_of c m hm]
    exact hc m
  · intro u m hm
    rw [← h.user_of u m hm]
    exact hu m
  · intro m
    simp only [hc, hu]
    exact h.both m
  · intro c m hm m' hm' huu
    simp only [hu] at huu
    exact h.once c m hm m' hm' huu
  · simp only [hu]
    exact hcounted c ch hch

lemma Good.makeZombie (feat : Features) (h : Good s ml cl fl) (m : ℕ) (u : κ) (c : χ) (back : Bool) :
    ∃ ml' cl' fl', Good (makeZombie feat s m u c back) ml' cl' fl' ∧
      (Counted s ml → Counted (Membership.makeZombie feat s m u c back) ml') := by
  have hsame : ∀ m', ((update s.member m { s.member m with zombie := true } m').user = (s.member m').user) ∧
      ((update s.member m { s.member m with zombie := true } m').channel = (s.member m').channel) := by
    intro m'
    by_cases hmm : m' = m
    · subst hmm
      simp
    · simp [update_of_ne hmm]
  obtain ⟨hgood, hcounted⟩ := h.setMember (fun m' => (hsame m').1) (fun m' => (hsame m').2)
  unfold Membership.makeZombie
  simp only
  split
  · obtain ⟨ml', cl', fl', hgood', hcounted', -⟩ := hgood.removeUser feat u c
    exact ⟨ml', cl', fl', hgood', fun hs => hcounted' (hcounted hs)⟩
  · exact ⟨ml, cl, fl, hgood, hcounted⟩

lemma Good.umode (h : Good s ml cl fl) (u : κ) (isSSL isChannelService : Bool) :
    Good (step feat s (.umode u isSSL isChannelService)) ml cl fl := by
  have hsame : ∀ u', ((step feat s (.umode u isSSL isChannelService)).clients u').channel =
      (s.clients u').channel ∧
      ((step feat s (.umode u isSSL isChannelService)).clients u').joined = (s.clients u').joined := by
    intro u'
    by_cases huu : u' = u
    · subst huu
      simp [step]
    · simp [step, update_of_ne huu]
  refine ⟨⟨h.members, h.users, h.gone, ?_, ?_, h.channel_of, h.user_of, h.both, h.once⟩, h.free,
    h.free_nodup, h.free_not, h.free_lt, h.live_lt⟩
  · intro u'
    rw [(hsame u').1]
    exact h.channels u'
  · intro u'
    rw [(hsame u').2]
    exact h.joined u'

/-- A change of user modes that no counter has to follow: the user is on no channel, or is counted after it
if it is before it. Other steps are of this kind. -/
def Steady (s : State κ χ) : Op κ χ → Prop
  | .umode u isSSL isChannelService =>
    (s.clients u).channel = none ∨ (!isSSL && !isChannelService) = (s.clients u).plain
  | _ => True

lemma Counted.umode (h : Good s ml cl fl) (hcounted : Counted s ml) {isSSL isChannelService : Bool}
    (hsteady : Steady s (.umode u isSSL isChannelService)) :
    Counted (step feat s (.umode u isSSL isChannelService)) ml := by
  intro c ch hc
  rw [hcounted c ch hc]
  congr 1
  refine List.countP_congr fun m hm => ?_
  simp only [step]
  by_cases huu : (s.member m).user = u
  · rw [huu, update_self]
    obtain hnone | hsame := hsteady
    · have hmu := h.mem_of_members hm
      rw [huu] at hmu
      have hnil : cl u = [] := by
        have hhead := (h.channels u).chain.head_eq
        rw [hnone] at hhead
        exact List.head?_eq_none_iff.mp hhead.symm
      rw [hnil] at hmu
      cases hmu
    · rw [← hsame]
      rfl
  · rw [update_of_ne huu]

lemma Good.setChan (h : Good s ml cl fl) {after : Option Chan}
    (hsome : ∀ ch', after = some ch' → ∃ ch, s.chans c = some ch ∧ ch'.members = ch.members ∧
      ch'.users = ch.users ∧ ch'.nonsslusers = ch.nonsslusers)
    (hnone : after = none → ml c = []) :
    Good { s with chans := update s.chans c after } ml cl fl ∧
      (Counted s ml → Counted { s with chans := update s.chans c after } ml) := by
  refine ⟨⟨⟨?_, ?_, ?_, h.channels, h.joined, h.channel_of, h.user_of, h.both, h.once⟩, h.free,
    h.free_nodup, h.free_not, h.free_lt, h.live_lt⟩, fun hcounted => ?_⟩
  all_goals intro c'
  all_goals by_cases hcc : c' = c
  · subst hcc
    intro ch' hc'
    obtain ⟨ch, hc, hmembers, -, -⟩ := hsome ch' (by simpa using hc')
    rw [hmembers]
    exact h.members c' ch hc
  · simp only [update_of_ne hcc]
    exact h.members c'
  · subst hcc
    intro ch' hc'
    obtain ⟨ch, hc, -, husers, -⟩ := hsome ch' (by simpa using hc')
    rw [husers]
    exact h.users c' ch hc
  · simp only [update_of_ne hcc]
    exact h.users c'
  · subst hcc
    intro hc'
    exact hnone (by simpa using hc')
  · simp only [update_of_ne hcc]
    exact h.gone c'
  · subst hcc
    intro ch' hc'
    obtain ⟨ch, hc, -, -, hcount⟩ := hsome ch' (by simpa using hc')
    rw [hcount]
    exact hcounted c' ch hc
  · simp only [update_of_ne hcc]
    exact hcounted c'

lemma Good.step (feat : Features) (h : Good s ml cl fl) (op : Op κ χ) :
    ∃ ml' cl' fl', Good (step feat s op) ml' cl' fl' ∧
      (Steady s op → Counted s ml → Counted (Membership.step feat s op) ml') := by
  cases op with
  | join u c =>
    rw [Membership.step]
    split
    · exact ⟨ml, cl, fl, h, fun _ => id⟩
    · next hnone =>
      rw [Option.not_isSome_iff_eq_none] at hnone
      obtain ⟨ml', cl', fl', hgood, hcounted⟩ := h.add (h.findMemberLink_none hnone)
      exact ⟨ml', cl', fl', hgood, fun _ => hcounted⟩
  | part u c =>
    obtain ⟨ml', cl', fl', hgood, hcounted, -⟩ := h.removeUser feat u c
    exact ⟨ml', cl', fl', hgood, fun _ => hcounted⟩
  | quit u =>
    obtain ⟨ml', cl', fl', hgood, hcounted, -⟩ := h.quitLoop feat u s.allocCount (h.length_channels u)
    exact ⟨ml', cl', fl', hgood, fun _ => hcounted⟩
  | kick u c back =>
    rw [Membership.step]
    split
    · exact ⟨ml, cl, fl, h, fun _ => id⟩
    · next m _ =>
      split
      · exact ⟨ml, cl, fl, h, fun _ => id⟩
      · obtain ⟨ml', cl', fl', hgood, hcounted⟩ := h.makeZombie feat m u c back
        exact ⟨ml', cl', fl', hgood, fun _ => hcounted⟩
  | umode u isSSL isChannelService =>
    exact ⟨ml, cl, fl, h.umode u isSSL isChannelService, fun hsteady hcounted => hcounted.umode h hsteady⟩
  | modes c persist apass =>
    have hsome : ∀ ch', ((s.chans c).map fun ch => { ch with persist := persist, apass := apass }) =
        some ch' → ∃ ch, s.chans c = some ch ∧ ch'.members = ch.members ∧ ch'.users = ch.users ∧
          ch'.nonsslusers = ch.nonsslusers := by
      intro ch' hch'
      obtain ⟨ch, hc, rfl⟩ := Option.map_eq_some_iff.mp hch'
      exact ⟨ch, hc, rfl, rfl, rfl⟩
    obtain ⟨hgood, hcounted⟩ := h.setChan hsome fun hnone =>
      h.gone c (Option.map_eq_none_iff.mp hnone)
    exact ⟨ml, cl, fl, hgood, fun _ => hcounted⟩
  | destruct c =>
    rw [Membership.step]
    split
    · exact ⟨ml, cl, fl, h, fun _ => id⟩
    · next ch hc =>
      split
      · exact ⟨ml, cl, fl, h, fun _ => id⟩
      · next hempty =>
        have husers := h.users c ch hc
        have hnil : ml c = [] := length_eq_zero_iff.mp (by omega)
        obtain ⟨hgood, hcounted⟩ := h.setChan (fun ch' (hch' : none = some ch') => by cases hch')
          fun _ => hnil
        exact ⟨ml, cl, fl, hgood, fun _ => hcounted⟩

end

/-- A run whose steps all meet the condition. -/
def SteadyRun (feat : Features) : State κ χ → List (Op κ χ) → Prop
  | _, [] => True
  | s, op :: ops => Steady s op ∧ SteadyRun feat (step feat s op) ops

lemma Good.run (feat : Features) (ops : List (Op κ χ)) : ∀ {s : State κ χ} {ml : χ → List ℕ} {cl : κ →
    List ℕ} {fl : List ℕ}, Good s ml cl fl → ∃ ml' cl' fl', Good (run feat s ops) ml' cl' fl' ∧
    (SteadyRun feat s ops → Counted s ml → Counted (Membership.run feat s ops) ml') := by
  induction ops with
  | nil => exact fun h => ⟨_, _, _, h, fun _ => id⟩
  | cons op ops ih =>
    intro s ml cl fl h
    obtain ⟨ml₁, cl₁, fl₁, hgood₁, hcounted₁⟩ := h.step feat op
    obtain ⟨ml₂, cl₂, fl₂, hgood₂, hcounted₂⟩ := ih hgood₁
    exact ⟨ml₂, cl₂, fl₂, hgood₂, fun hsteady hs => hcounted₂ hsteady.2 (hcounted₁ hsteady.1 hs)⟩

lemma good_init (member : ℕ → Member κ χ) (links : ℕ → Links ℕ) (isSSL isChannelService myUser : κ → Bool) :
    Good (init member links isSSL isChannelService myUser) (fun _ => []) (fun _ => []) [] := by
  refine ⟨⟨?_, ?_, fun _ _ => rfl, fun _ => ⟨rfl, nodup_nil⟩, fun _ => rfl, ?_, ?_, ?_, ?_⟩, rfl,
    nodup_nil, ?_, ?_, ?_⟩
  all_goals simp [init]

/-- **The structure of memberships** in every run in which nobody on a channel gets or loses the user modes that
`nonsslusers` depends on: the lists are in order and agree, nobody is on a channel twice, and all three counters
count. -/
theorem membership_structure (feat : Features) (member : ℕ → Member κ χ) (links : ℕ → Links ℕ)
    (isSSL isChannelService myUser : κ → Bool) (ops : List (Op κ χ))
    (hsteady : SteadyRun feat (init member links isSSL isChannelService myUser) ops) :
    ∃ ml cl, Consistent (run feat (init member links isSSL isChannelService myUser) ops) ml cl ∧
      Counted (run feat (init member links isSSL isChannelService myUser) ops) ml := by
  obtain ⟨ml, cl, fl, hgood, hcounted⟩ := (good_init member links isSSL isChannelService myUser).run feat ops
  refine ⟨ml, cl, hgood.toConsistent, hcounted hsteady ?_⟩
  simp [Counted, init]

/-- Two users without SSL, of whom the first is a user of this server. -/
def twoUsers : State ℕ ℕ :=
  init (fun _ => ⟨0, 0, false⟩) (fun _ => ⟨none, none⟩) (fun _ => false) (fun _ => false)
    fun u => u == 1

/-- Joins, a KICK that leaves a zombie, and a PART that takes the zombie along. -/
theorem membership_structure_zombie :
    ∃ ml cl, Consistent (run ⟨true, true⟩ twoUsers [.join 1 7, .join 2 7, .kick 2 7 false, .part 1 7]) ml cl ∧
      Counted (run ⟨true, true⟩ twoUsers [.join 1 7, .join 2 7, .kick 2 7 false, .part 1 7]) ml := by
  apply membership_structure
  exact ⟨trivial, trivial, trivial, trivial, trivial⟩

/-- **The count of users without SSL drifts**: somebody joins, becomes a channel service with MODE `+k`, and
parts. The empty channel has one user without SSL for ever. -/
theorem nonsslusers_drift :
    ¬ ∃ ml cl, Consistent (run ⟨true, true⟩ twoUsers [.join 1 7, .umode 1 false true, .part 1 7]) ml cl ∧
      Counted (run ⟨true, true⟩ twoUsers [.join 1 7, .umode 1 false true, .part 1 7]) ml := by
  rintro ⟨ml, cl, hcons, hcounted⟩
  have hch : (run ⟨true, true⟩ twoUsers [.join 1 7, .umode 1 false true, .part 1 7]).chans 7 =
      some ⟨none, 0, 1, false, false⟩ := by
    decide +kernel
  have hnil : ml 7 = [] := length_eq_zero_iff.mp (hcons.users 7 _ hch).symm
  have hone := hcounted 7 _ hch
  rw [hnil] at hone
  cases hone

end Nefarious.Membership
