import Nefarious.Channel.BanExtent
import Nefarious.Channel.Topic
import Nefarious.Lib.Chains
import Nefarious.Message

/-!
# Silences

A user has a list of masks of those whom he does not want to hear.

Names: `m_silence.c`.
-/

namespace Nefarious.Silence

open Function (update)
open List (append_nil map_append mem_append mem_map mem_singleton)

open BanMask Lib.Chains

/-! ### The memory -/

/-- A silence. `channel.h` `struct Ban`. -/
structure Ban where
  /-- What is read from `banstr`. -/
  mask : Mask
  /-- `BAN_EXCEPTION`. -/
  exc : Bool
  add : Bool
  del : Bool
  overlapped : Bool
  deriving DecidableEq

/-- Without the flags of a command. `forward_silences`. -/
def Ban.cleared (b : Ban) : Ban := { b with add := false, del := false, overlapped := false }

/-- The silences, with the list of one user. `channel.c` `free_bans`, `struct.h` `struct User`. -/
structure Mem where
  next : ℕ → Option ℕ
  ban : ℕ → Ban
  silence : Option ℕ
  freeBans : Option ℕ
  /-- How many structures have been taken. -/
  alloc : ℕ

def Mem.modify (m : Mem) (p : ℕ) (f : Ban → Ban) : Mem :=
  { m with ban := update m.ban p (f (m.ban p)) }

/-- `*plast`, where `plast` is the link behind a silence, or the head of the list. `forward_silences`. -/
def Mem.link (m : Mem) (plast : Option ℕ) : Option ℕ :=
  match plast with
  | some q => m.next q
  | none => m.silence

/-- Write to `*plast`. `forward_silences`. -/
def Mem.setLink (m : Mem) (plast v : Option ℕ) : Mem :=
  { m with next := linkNext m.next plast v, silence := linkHead m.silence plast v }

/-- Deallocate a ban structure. `channel.c`. -/
def Mem.freeBan (m : Mem) (p : ℕ) : Mem :=
  { m with next := update m.next p m.freeBans, freeBans := some p }

/-- Allocate a new ban structure. Which of those that are free it is makes no difference; here it is one that
has not been in use. `channel.c`. -/
def Mem.makeBan (m : Mem) (b : Ban) : Mem :=
  { m with
    next := update m.next m.alloc none
    ban := update m.ban m.alloc b
    alloc := m.alloc + 1 }

/-- The silences of the list; no walk is longer than the memory. -/
def Mem.list (m : Mem) : Option (List ℕ) := nodes m.next m.alloc m.silence

/-! ### Reading the updates -/

/-- What the updates depend on. `forward_silences`, `ircd_features.c`. -/
structure Ctx where
  /-- `MyUser(sptr)`. -/
  myUser : Bool
  maxSiles : ℕ
  avBanLen : ℕ
  chanMsgs : Bool
  /-- `!dest || !MyUser(dest)`. -/
  toServers : Bool

/-- One ban is a superset of the other. `channel.c` `bmatch`. -/
def Ban.covers (b c : Ban) : Bool := bmatchExcept b.exc c.exc b.mask c.mask = 0

/-- Mark a more specific entry. `channel.c` `apply_ban`. -/
def Ban.markBy (new b : Ban) : Ban :=
  if new.covers b then { b with del := true, overlapped := true } else b

/-- Add a ban to a list, or remove it, and mark the bans that should be removed because they overlap; zero when
it could be applied, and otherwise it is freed. `channel.c`. -/
def applyBan (m : Mem) (p : ℕ) : Option (Mem × ℕ) :=
  let new := m.ban p
  m.list.map fun l =>
    if new.add then
      if l.any fun q => (m.ban q).covers new && !(m.ban q).del then (m.freeBan p, 1)
      else ((l.foldl (fun m q => m.modify q new.markBy) m).setLink l.getLast? (some p), 0)
    else if new.del then
      if l.any fun q => new.covers (m.ban q) then (l.foldl (fun m q => m.modify q new.markBy) m, 0)
      else (m.freeBan p, 3)
    else (m.freeBan p, 4)

/-- The silence that an update is about: add or remove, and whether it is an exception. `apply_silence`. -/
def readSilence (mask : Str) : Ban :=
  let r : Bool × Str :=
    match mask with
    | '-' :: mask => (false, mask)
    | '+' :: mask => (true, mask)
    | mask => (true, mask)
  let s : Bool × Str :=
    match r.2 with
    | '~' :: mask => (true, mask)
    | mask => (false, mask)
  { mask := setBanMask (prettyMask s.2), exc := s.1, add := r.1, del := !r.1, overlapped := false }

/-- A local user tries to ban too broad a mask. `apply_silence`. -/
def tooBroad (cx : Ctx) (sile : Ban) : Bool :=
  cx.myUser && sile.mask.ipmask.any fun a => 0 < a.2 && a.2 < if inAddrIsIpv4 a.1 then 112 else 32

/-- Attempt to apply a SILENCE update to a user: the new ban entry, if it was accepted. -/
def applySilence (cx : Ctx) (m : Mem) (mask : Str) : Option (Mem × Option ℕ) :=
  let sile := readSilence mask
  let m' := m.makeBan sile
  if tooBroad cx sile then some (m'.freeBan m.alloc, none)
  else (applyBan m' m.alloc).map fun r => (r.1, if r.2 = 0 then some m.alloc else none)

/-- Apply each of the updates in turn. `forward_silences`. -/
def applySilences (cx : Ctx) : List Str → Mem → List ℕ → Option (Mem × List ℕ)
  | [], m, accepted => some (m, accepted)
  | cp :: cps, m, accepted =>
    if accepted.length < maxPara then
      (applySilence cx m cp).bind fun r => applySilences cx cps r.1 (accepted ++ r.2.toList)
    else some (m, accepted)

/-! ### The limits -/

/-- The silences that are counted, and the length of their texts. `forward_silences`. -/
structure Count where
  siles : ℕ
  totlength : ℕ
  deriving DecidableEq

/-- One more. `forward_silences`. -/
def Count.plus (c : Count) (b : Ban) : Count := ⟨c.siles + 1, c.totlength + b.mask.banstr.length⟩

/-- We would exceed the maximum count or length. `forward_silences`. -/
def Count.exceeds (cx : Ctx) (c : Count) (b : Ban) : Bool :=
  cx.maxSiles ≤ c.siles || cx.maxSiles * cx.avBanLen ≤ c.totlength + b.mask.banstr.length

/-- A silence of the command, or one that it overlaps. `forward_silences`. -/
def Ban.flagged (b : Ban) : Bool := b.overlapped || b.add || b.del

/-- The variables of the limits. `forward_silences`. -/
structure Limit where
  mem : Mem
  /-- `siles` and `totlength`. -/
  count : Count
  plast : Option ℕ
  accepted : List ℕ
  /-- Those for which there is no room. -/
  refused : List ℕ

/-- Count number of current silences and their total length. `forward_silences`. -/
def countSiles (m : Mem) (l : List ℕ) : Count × Option ℕ :=
  l.foldl (fun s q => if (m.ban q).flagged then s else (s.1.plus (m.ban q), some q)) (⟨0, 0⟩, none)

/-- One of the accepted updates. `forward_silences`. -/
def Limit.step (cx : Ctx) (s : Limit) (p : ℕ) : Limit :=
  let b := s.mem.ban p
  if b.overlapped || b.del then { s with accepted := s.accepted ++ [p] }
  else if s.count.exceeds cx b then
    -- drop the update
    { s with mem := (s.mem.setLink s.plast none).freeBan p, refused := s.refused ++ [p] }
  else { s with count := s.count.plus b, plast := some p, accepted := s.accepted ++ [p] }

/-- Check that silence count and total length are permitted. `forward_silences`. -/
def checkLimits (cx : Ctx) (m : Mem) (accepted : List ℕ) : Option Limit :=
  if cx.myUser then
    m.list.map fun l =>
      accepted.foldl (Limit.step cx) ⟨m, (countSiles m l).1, (countSiles m l).2, [], []⟩
  else some ⟨m, ⟨0, 0⟩, none, accepted, []⟩

/-! ### The end of the command -/

/-- What other servers are told of a silence. `forward_silences`. -/
structure Line where
  /-- `ch` is the plus sign. -/
  add : Bool
  /-- `BAN_EXCEPTION`. -/
  exc : Bool
  banstr : Str
  deriving DecidableEq

/-- What is forwarded of an update. `forward_silences`. -/
def forwardLine (cx : Ctx) (b : Ban) : Option Line :=
  if b.overlapped then none
  else if b.del then some ⟨false, b.exc, b.mask.banstr⟩
  else if b.add then
    if !b.exc && !cx.chanMsgs then none else some ⟨true, b.exc, b.mask.banstr⟩
  else none

/-- Remove overlapped and deleted silences from the list behind `plast`, over so many at most. `forward_silences`. -/
def sweep : ℕ → Mem → Option ℕ → Option Mem
  | n, m, plast =>
    match m.link plast with
    | none => some m
    | some p =>
      match n with
      | 0 => none
      | n + 1 =>
        if (m.ban p).overlapped || (m.ban p).del then
          sweep n ((m.setLink plast (m.next p)).freeBan p) plast
        else sweep n (m.modify p fun b => { b with add := false }) (some p)

/-- Free any silence-deleting updates. `forward_silences`. -/
def freeDels (m : Mem) (accepted : List ℕ) : Mem :=
  accepted.foldl (fun m p => if !(m.ban p).add && (m.ban p).del then m.freeBan p else m) m

/-- What a command leaves. `forward_silences`. -/
structure Outcome where
  mem : Mem
  accepted : List ℕ
  /-- Those for which there is no room. -/
  refused : List ℕ
  /-- What other servers are told, without the breaks between the lines. -/
  forwarded : List Line

/-- Apply and send silence updates for a user. -/
def forwardSilences (cx : Ctx) (m : Mem) (silences : Str) : Option Outcome :=
  (applySilences cx (Channel.nameList silences) m []).bind fun r =>
    (checkLimits cx r.1 r.2).bind fun s =>
      (sweep s.mem.alloc s.mem none).map fun m =>
        { mem := freeDels m s.accepted
          accepted := s.accepted
          refused := s.refused
          forwarded :=
            if cx.toServers then s.accepted.filterMap fun p => forwardLine cx (s.mem.ban p) else [] }

/-! ### What the list holds -/

/-- An entry of a list: where it is, and what is there. -/
abbrev Rec := ℕ × Ban

/-- The list holds these entries. -/
structure Holds (m : Mem) (rs : List Rec) : Prop where
  path : Path m.next m.silence (rs.map Prod.fst)
  bans : ∀ r ∈ rs, m.ban r.1 = r.2
  nodup : (rs.map Prod.fst).Nodup
  lt : ∀ p ∈ rs.map Prod.fst, p < m.alloc

lemma length_le_of_lt {l : List ℕ} {n : ℕ} (h : l.Nodup) (hlt : ∀ p ∈ l, p < n) : l.length ≤ n := by
  have hsub : l.toFinset ⊆ Finset.range n := by
    intro p hp
    exact Finset.mem_range.mpr (hlt p (List.mem_toFinset.mp hp))
  have hcard := Finset.card_le_card hsub
  rwa [List.toFinset_card_of_nodup h, Finset.card_range] at hcard

lemma Holds.list_eq {m : Mem} {rs : List Rec} (h : Holds m rs) : m.list = some (rs.map Prod.fst) :=
  h.path.nodes_eq _ (length_le_of_lt h.nodup h.lt)

lemma Holds.any_eq {m : Mem} {rs : List Rec} (h : Holds m rs) (f : Ban → Bool) :
    ((rs.map Prod.fst).any fun q => f (m.ban q)) = rs.any fun r => f r.2 := by
  rw [List.any_map, Bool.eq_iff_iff, List.any_eq_true, List.any_eq_true]
  refine exists_congr fun r => and_congr_right fun hr => ?_
  rw [Function.comp_apply, h.bans r hr]

lemma foldl_modify (f : Ban → Ban) : (l : List ℕ) → ∀ (m : Mem), l.Nodup →
    (l.foldl (fun m q => m.modify q f) m) =
      { m with ban := fun p => if p ∈ l then f (m.ban p) else m.ban p }
  | [], m, _ => by simp
  | q :: l, m, hn => by
    rw [List.nodup_cons] at hn
    rw [List.foldl_cons, foldl_modify f l _ hn.2, Mem.modify]
    simp only [Mem.mk.injEq, true_and, and_true]
    funext p
    by_cases hp : p = q
    · subst hp
      simp [hn.1]
    · simp [hp]

def mapBans (f : Ban → Ban) (rs : List Rec) : List Rec := rs.map fun r => (r.1, f r.2)

lemma mapBans_fst (f : Ban → Ban) (rs : List Rec) : (mapBans f rs).map Prod.fst = rs.map Prod.fst := by
  rw [mapBans, List.map_map]
  rfl

lemma Holds.modify {m : Mem} {rs : List Rec} (h : Holds m rs) (f : Ban → Ban) :
    Holds ((rs.map Prod.fst).foldl (fun m q => m.modify q f) m) (mapBans f rs) := by
  rw [foldl_modify f _ m h.nodup]
  constructor
  · rw [mapBans_fst]
    exact h.path
  · intro r hr
    obtain ⟨r', hr', rfl⟩ := mem_map.mp hr
    have hmem : r'.1 ∈ rs.map Prod.fst := List.mem_map_of_mem hr'
    simp only [hmem, if_true, h.bans r' hr']
  · rw [mapBans_fst]
    exact h.nodup
  · rw [mapBans_fst]
    exact h.lt

lemma Holds.makeBan {m : Mem} {rs : List Rec} (h : Holds m rs) (b : Ban) : Holds (m.makeBan b) rs := by
  have hne : ∀ p ∈ rs.map Prod.fst, p ≠ m.alloc := fun p hp => Nat.ne_of_lt (h.lt p hp)
  constructor
  · exact h.path.congr _ fun p hp => Function.update_of_ne (hne p hp) ..
  · intro r hr
    exact (Function.update_of_ne (hne r.1 (List.mem_map_of_mem hr)) ..).trans (h.bans r hr)
  · exact h.nodup
  · intro p hp
    exact Nat.lt_succ_of_lt (h.lt p hp)

lemma Holds.freeBan {m : Mem} {rs : List Rec} {p : ℕ} (h : Holds m rs) (hp : p ∉ rs.map Prod.fst) :
    Holds (m.freeBan p) rs := by
  constructor
  · exact h.path.congr _ fun q hq => Function.update_of_ne (ne_of_mem_of_not_mem hq hp) ..
  · exact h.bans
  · exact h.nodup
  · exact h.lt

lemma Holds.setLink {m : Mem} {pre post post' : List Rec} {v : Option ℕ} (h : Holds m (pre ++ post))
    (hv : Path m.next v (post'.map Prod.fst)) (hn : ((pre ++ post').map Prod.fst).Nodup)
    (hbans : ∀ r ∈ post', m.ban r.1 = r.2 ∧ r.1 < m.alloc) :
    Holds (m.setLink (pre.map Prod.fst).getLast? v) (pre ++ post') := by
  constructor
  · rw [map_append] at hn ⊢
    have hpath := h.path
    rw [map_append] at hpath
    exact hpath.link hv hn
  · intro r hr
    rcases mem_append.mp hr with hr | hr
    · exact h.bans r (List.mem_append_left _ hr)
    · exact (hbans r hr).1
  · exact hn
  · intro p hp
    obtain ⟨r, hr, rfl⟩ := mem_map.mp hp
    rcases mem_append.mp hr with hr | hr
    · exact h.lt r.1 (List.mem_map_of_mem (List.mem_append_left _ hr))
    · exact (hbans r hr).2

lemma Holds.append {m : Mem} {rs : List Rec} {p : ℕ} (h : Holds m rs) (hp : p ∉ rs.map Prod.fst)
    (hlt : p < m.alloc) (hnext : m.next p = none) :
    Holds (m.setLink (rs.map Prod.fst).getLast? (some p)) (rs ++ [(p, m.ban p)]) := by
  have hold : Holds m (rs ++ []) := by
    rw [append_nil]
    exact h
  have hlist : ((rs ++ [(p, m.ban p)]).map Prod.fst).Nodup := by
    rw [map_append, List.nodup_append]
    refine ⟨h.nodup, List.nodup_singleton _, ?_⟩
    rintro q hq q' hq' rfl
    rw [mem_singleton.mp hq'] at hq
    exact hp hq
  refine hold.setLink ⟨rfl, hnext⟩ hlist ?_
  intro r hr
  rw [mem_singleton.mp hr]
  exact ⟨rfl, hlt⟩

/-! ### What the updates do -/

/-- An update is applied to the entries of a list, if it is accepted. `channel.c` `apply_ban`. -/
def linkUpdate (rs : List Rec) (u : Rec) : Option (List Rec) :=
  if u.2.add then
    if rs.any fun r => r.2.covers u.2 && !r.2.del then none else some (mapBans u.2.markBy rs ++ [u])
  else if rs.any fun r => u.2.covers r.2 then some (mapBans u.2.markBy rs)
  else none

lemma readSilence_flags (mask : Str) :
    (readSilence mask).del = !(readSilence mask).add ∧ (readSilence mask).overlapped = false :=
  ⟨rfl, rfl⟩

/-- **An update is applied to what the list holds**. -/
theorem Holds.applySilence {m : Mem} {rs : List Rec} (h : Holds m rs) (cx : Ctx) (mask : Str) :
    ∃ m' p, applySilence cx m mask = some (m', p) ∧ m'.alloc = m.alloc + 1 ∧
      (∀ q < m.alloc, q ∉ rs.map Prod.fst → m'.ban q = m.ban q) ∧
      match if tooBroad cx (readSilence mask) then none else linkUpdate rs (m.alloc, readSilence mask) with
      | some rs' => p = some m.alloc ∧ Holds m' rs' ∧ m'.ban m.alloc = readSilence mask
      | none => p = none ∧ Holds m' rs := by
  have hdel := (readSilence_flags mask).1
  rw [Silence.applySilence]
  generalize readSilence mask = u at hdel
  have hfresh : m.alloc ∉ rs.map Prod.fst := fun hmem => Nat.lt_irrefl _ (h.lt _ hmem)
  have hmade : Holds (m.makeBan u) rs := h.makeBan u
  have hban : (m.makeBan u).ban m.alloc = u := Function.update_self ..
  have hother : ∀ q < m.alloc, (m.makeBan u).ban q = m.ban q := fun q hq =>
    Function.update_of_ne (Nat.ne_of_lt hq) ..
  have hmarked := hmade.modify u.markBy
  have hsame := foldl_modify u.markBy (rs.map Prod.fst) (m.makeBan u) hmade.nodup
  cases hbroad : tooBroad cx u
  · simp only [if_false, Bool.false_eq_true, applyBan, hmade.list_eq, Option.map_some, hban,
      hmade.any_eq fun b => b.covers u && !b.del, hmade.any_eq fun b => u.covers b, linkUpdate]
    cases hadd : u.add
    · -- a removal is not linked
      rw [hadd] at hdel
      simp only [hdel, Bool.not_false, Bool.false_eq_true, if_true, if_false]
      cases hany : rs.any fun r => u.covers r.2
      · refine ⟨_, none, rfl, rfl, fun q hq _ => hother q hq, rfl, ?_⟩
        exact hmade.freeBan hfresh
      · refine ⟨_, some m.alloc, rfl, ?_, ?_, rfl, hmarked, ?_⟩
        · rw [hsame]
          rfl
        · intro q hq hqrs
          rw [if_pos rfl, hsame]
          exact (if_neg hqrs).trans (hother q hq)
        · rw [if_pos rfl, hsame]
          exact (if_neg hfresh).trans hban
    · simp only [if_true]
      cases hany : rs.any fun r => r.2.covers u && !r.2.del
      · -- what is added stands behind the list, which is marked
        simp only [Bool.false_eq_true, if_false]
        refine ⟨_, some m.alloc, rfl, ?_, ?_, rfl, ?_, ?_⟩
        · rw [hsame]
          rfl
        · intro q hq hqrs
          rw [hsame]
          exact (if_neg hqrs).trans (hother q hq)
        · have hfst : m.alloc ∉ (mapBans u.markBy rs).map Prod.fst := by
            rw [mapBans_fst]
            exact hfresh
          rw [hsame] at hmarked ⊢
          have hlinked := hmarked.append hfst (Nat.lt_succ_self _) (Function.update_self ..)
          rw [mapBans_fst] at hlinked
          simp only [hfresh, if_false, hban] at hlinked
          exact hlinked
        · rw [hsame]
          exact (if_neg hfresh).trans hban
      · refine ⟨_, none, rfl, rfl, fun q hq _ => hother q hq, rfl, ?_⟩
        exact hmade.freeBan hfresh
  · simp only [if_true]
    exact ⟨_, none, rfl, rfl, fun q hq _ => hother q hq, rfl, hmade.freeBan hfresh⟩

/-- The updates of a command with the structures that are taken for them; those that are too broad are not
applied. `apply_silence`. -/
def updates (cx : Ctx) : ℕ → List Str → List Rec
  | _, [] => []
  | i, cp :: cps =>
    if tooBroad cx (readSilence cp) then updates cx (i + 1) cps
    else (i, readSilence cp) :: updates cx (i + 1) cps

/-- The entries of a list, and the updates that have been accepted. `forward_silences`. -/
structure Linked where
  list : List Rec
  accepted : List Rec

/-- Apply one update. `forward_silences`. -/
def Linked.step (s : Linked) (u : Rec) : Linked :=
  match linkUpdate s.list u with
  | some rs => ⟨rs, s.accepted ++ [u]⟩
  | none => s

/-- Apply the updates, until so many have been accepted. `forward_silences`. -/
def linkAll : Linked → List Rec → Linked
  | s, [] => s
  | s, u :: us => if s.accepted.length < maxPara then linkAll (s.step u) us else s

/-- What the memory holds while the updates are read. -/
structure Reading (m : Mem) (s : Linked) : Prop where
  holds : Holds m s.list
  lt : ∀ r ∈ s.accepted, r.1 < m.alloc
  distinct : (s.accepted.map Prod.fst).Nodup
  removals : ∀ r ∈ s.accepted, r.2.add = false → r.2.del = true ∧ r.1 ∉ s.list.map Prod.fst ∧ m.ban r.1 = r.2
  parts : ∃ olds news, s.list = olds ++ news ∧ (∀ r ∈ olds, r.2.add = false) ∧
    (∀ r ∈ news, r.2.add = true) ∧ news.map Prod.fst = (s.accepted.filter fun r => r.2.add).map Prod.fst
  marks : ∀ r ∈ s.list, r.2.overlapped = r.2.del

lemma Ban.markBy_add (u b : Ban) : (u.markBy b).add = b.add := by
  rw [Ban.markBy]
  split <;> rfl

lemma Ban.markBy_overlapped (u b : Ban) (h : b.overlapped = b.del) :
    (u.markBy b).overlapped = (u.markBy b).del := by
  rw [Ban.markBy]
  split
  · rfl
  · exact h

lemma Reading.mark_parts {m : Mem} {s : Linked} (h : Reading m s) (u : Ban) :
    ∃ olds news, mapBans u.markBy s.list = olds ++ news ∧ (∀ r ∈ olds, r.2.add = false) ∧
      (∀ r ∈ news, r.2.add = true) ∧ news.map Prod.fst = (s.accepted.filter fun r => r.2.add).map Prod.fst := by
  obtain ⟨olds, news, hlist, holds, hnews, hids⟩ := h.parts
  refine ⟨mapBans u.markBy olds, mapBans u.markBy news, ?_, ?_, ?_, ?_⟩
  · rw [hlist, mapBans, mapBans, mapBans, map_append]
  · intro r hr
    obtain ⟨r', hr', rfl⟩ := mem_map.mp hr
    exact (Ban.markBy_add u r'.2).trans (holds r' hr')
  · intro r hr
    obtain ⟨r', hr', rfl⟩ := mem_map.mp hr
    exact (Ban.markBy_add u r'.2).trans (hnews r' hr')
  · rw [mapBans_fst, hids]

lemma Reading.mark_marks {m : Mem} {s : Linked} (h : Reading m s) (u : Ban) :
    ∀ r ∈ mapBans u.markBy s.list, r.2.overlapped = r.2.del := by
  intro r hr
  obtain ⟨r', hr', rfl⟩ := mem_map.mp hr
  exact Ban.markBy_overlapped u r'.2 (h.marks r' hr')

lemma Reading.same {m m' : Mem} {s : Linked} (h : Reading m s) (hholds : Holds m' s.list)
    (halloc : m'.alloc = m.alloc + 1)
    (hbans : ∀ q < m.alloc, q ∉ s.list.map Prod.fst → m'.ban q = m.ban q) : Reading m' s := by
  constructor
  · exact hholds
  · intro r hr
    rw [halloc]
    exact Nat.lt_succ_of_lt (h.lt r hr)
  · exact h.distinct
  · intro r hr hadd
    obtain ⟨hdel, hnot, hban⟩ := h.removals r hr hadd
    exact ⟨hdel, hnot, (hbans r.1 (h.lt r hr) hnot).trans hban⟩
  · exact h.parts
  · exact h.marks

lemma Reading.accept {m m' : Mem} {s : Linked} {u : Ban} {rs : List Rec} (h : Reading m s)
    (hu : u.del = !u.add ∧ u.overlapped = false) (hlink : linkUpdate s.list (m.alloc, u) = some rs)
    (hholds : Holds m' rs) (halloc : m'.alloc = m.alloc + 1)
    (hbans : ∀ q < m.alloc, q ∉ s.list.map Prod.fst → m'.ban q = m.ban q) (hban : m'.ban m.alloc = u) :
    Reading m' ⟨rs, s.accepted ++ [(m.alloc, u)]⟩ := by
  have hlt : ∀ r ∈ s.accepted ++ [(m.alloc, u)], r.1 < m'.alloc := by
    intro r hr
    rw [halloc]
    rcases mem_append.mp hr with hr | hr
    · exact Nat.lt_succ_of_lt (h.lt r hr)
    · rw [mem_singleton.mp hr]
      exact Nat.lt_succ_self _
  have hfresh : m.alloc ∉ s.list.map Prod.fst := fun hmem => Nat.lt_irrefl _ (h.holds.lt _ hmem)
  have hdistinct : ((s.accepted ++ [(m.alloc, u)]).map Prod.fst).Nodup := by
    rw [map_append, List.nodup_append]
    refine ⟨h.distinct, List.nodup_singleton _, ?_⟩
    rintro p hp q hq rfl
    obtain ⟨r, hr, rfl⟩ := mem_map.mp hp
    exact Nat.ne_of_lt (h.lt r hr) (mem_singleton.mp hq)
  rw [linkUpdate] at hlink
  dsimp only at hlink
  cases hadd : u.add
  · rw [hadd] at hlink hu
    rw [if_neg Bool.false_ne_true] at hlink
    split at hlink
    swap
    · contradiction
    obtain rfl := Option.some.inj hlink
    constructor
    · exact hholds
    · exact hlt
    · exact hdistinct
    · intro r hr hradd
      dsimp only
      rw [mapBans_fst]
      rcases mem_append.mp hr with hr | hr
      · obtain ⟨hdel, hnot, hold⟩ := h.removals r hr hradd
        exact ⟨hdel, hnot, (hbans r.1 (h.lt r hr) hnot).trans hold⟩
      · rw [mem_singleton.mp hr]
        exact ⟨hu.1, hfresh, hban⟩
    · obtain ⟨olds, news, hlist, holds, hnews, hids⟩ := h.mark_parts u
      refine ⟨olds, news, hlist, holds, hnews, ?_⟩
      rw [hids, List.filter_append, List.filter_cons_of_neg (by simp [hadd]), List.filter_nil, append_nil]
    · exact h.mark_marks u
  · rw [hadd, if_pos rfl] at hlink
    split at hlink
    · contradiction
    obtain rfl := Option.some.inj hlink
    constructor
    · exact hholds
    · exact hlt
    · exact hdistinct
    · intro r hr hradd
      rcases mem_append.mp hr with hr | hr
      · obtain ⟨hdel, hnot, hold⟩ := h.removals r hr hradd
        refine ⟨hdel, ?_, (hbans r.1 (h.lt r hr) hnot).trans hold⟩
        dsimp only
        rw [map_append, mapBans_fst, mem_append, not_or]
        refine ⟨hnot, ?_⟩
        rintro hmem
        rw [List.map_singleton, mem_singleton] at hmem
        exact absurd (h.lt r hr) (hmem ▸ Nat.lt_irrefl _)
      · rw [mem_singleton.mp hr, hadd] at hradd
        contradiction
    · obtain ⟨olds, news, hlist, holds, hnews, hids⟩ := h.mark_parts u
      refine ⟨olds, news ++ [(m.alloc, u)], ?_, holds, ?_, ?_⟩
      · rw [hlist, List.append_assoc]
      · intro r hr
        rcases mem_append.mp hr with hr | hr
        · exact hnews r hr
        · rw [mem_singleton.mp hr]
          exact hadd
      · rw [map_append, hids, List.filter_append, List.filter_cons_of_pos (by simp [hadd]),
          List.filter_nil, map_append]
    · intro r hr
      rcases mem_append.mp hr with hr | hr
      · exact h.mark_marks u r hr
      · rw [mem_singleton.mp hr]
        exact hu.2.trans (by rw [hu.1, hadd]; rfl)

lemma Reading.applySilences (cx : Ctx) : (cps : List Str) → ∀ {m : Mem} {s : Linked}, Reading m s →
    ∃ m', applySilences cx cps m (s.accepted.map Prod.fst) =
        some (m', (linkAll s (updates cx m.alloc cps)).accepted.map Prod.fst) ∧
      Reading m' (linkAll s (updates cx m.alloc cps))
  | [], m, s, h => ⟨m, rfl, h⟩
  | cp :: cps, m, s, h => by
    obtain ⟨m', p, hrun, halloc, hbans, hp⟩ := h.holds.applySilence cx cp
    rw [Silence.applySilences, List.length_map, hrun, Option.bind_some, updates]
    by_cases hlen : s.accepted.length < maxPara
    · rw [if_pos hlen]
      cases hbroad : tooBroad cx (readSilence cp)
      · rw [hbroad] at hp
        simp only [Bool.false_eq_true, if_false] at hp ⊢
        rw [linkAll, if_pos hlen, Linked.step]
        cases hlink : linkUpdate s.list (m.alloc, readSilence cp) with
        | none =>
          rw [hlink] at hp
          obtain ⟨rfl, hholds⟩ := hp
          rw [Option.toList_none, append_nil, ← halloc]
          exact Reading.applySilences cx cps (h.same hholds halloc hbans)
        | some rs =>
          rw [hlink] at hp
          obtain ⟨rfl, hholds, hban⟩ := hp
          have hnext := h.accept (readSilence_flags cp) hlink hholds halloc hbans hban
          have hids : s.accepted.map Prod.fst ++ (some m.alloc).toList =
              (s.accepted ++ [(m.alloc, readSilence cp)]).map Prod.fst := by
            rw [map_append]
            rfl
          rw [hids, ← halloc]
          exact Reading.applySilences cx cps hnext
      · rw [hbroad] at hp
        simp only [if_true] at hp ⊢
        obtain ⟨rfl, hholds⟩ := hp
        rw [Option.toList_none, append_nil, ← halloc]
        exact Reading.applySilences cx cps (h.same hholds halloc hbans)
    · rw [if_neg hlen]
      have hstop : ∀ us, linkAll s us = s := by
        intro us
        cases us with
        | nil => rfl
        | cons u us => rw [linkAll, if_neg hlen]
      rw [hstop]
      exact ⟨m, rfl, h⟩

end Nefarious.Silence
