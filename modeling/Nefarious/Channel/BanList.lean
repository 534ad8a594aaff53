import Nefarious.Channel.BanMask
import Nefarious.Lib.Chains

/-!
# The ban list of a channel

A command gives bans to add and bans to remove.

Names: `channel.c`.
-/

namespace Nefarious.BanList

open Function (update)
open List (append_assoc length_map map_append map_id mem_append mem_map mem_singleton nodup_append nodup_cons)

open BanMask Lib.Chains

/-! ### The memory -/

/-- A pointer to a ban. `make_ban`, `struct ParseState`. -/
inductive Ptr
  /-- From `make_ban`. -/
  | heap (k : ℕ)
  /-- `state->banlist + i`, or `state->exceptlist + i`. -/
  | temp (i : ℕ)
  deriving DecidableEq

/-- A ban. `channel.h` `struct Ban`. -/
structure Ban where
  /-- What is read from `banstr`. -/
  mask : Mask
  who : Str
  when : ℕ
  add : Bool
  del : Bool
  overlapped : Bool
  deriving DecidableEq

/-- Without the marks. `mode_process_bans`. -/
def Ban.unmarked (b : Ban) : Ban := { b with add := false, del := false, overlapped := false }

/-- The bans, with one list of a channel. `free_bans`, `struct Channel`. -/
structure Mem where
  next : Ptr → Option Ptr
  ban : Ptr → Ban
  /-- `chptr->banlist`, or `chptr->exceptlist`. -/
  list : Option Ptr
  freeBans : Option Ptr
  alloc : ℕ

def Mem.modify (m : Mem) (p : Ptr) (f : Ban → Ban) : Mem :=
  { m with ban := update m.ban p (f (m.ban p)) }

/-- Write to the link behind a ban, or to the head of the list. `mode_process_bans` (`prevban`). -/
def Mem.setLink (m : Mem) (prev v : Option Ptr) : Mem :=
  match prev with
  | some q => { m with next := update m.next q v }
  | none => { m with list := v }

/-- The pointers from one on, so many at most. -/
def walk (next : Ptr → Option Ptr) : ℕ → Option Ptr → Option (List Ptr)
  | _, none => some []
  | 0, some _ => none
  | n + 1, some p => (walk next n (next p)).map (p :: ·)

def Mem.freeBan (m : Mem) (p : Ptr) : Mem :=
  { m with next := update m.next p m.freeBans, freeBans := some p }

/-- Allocate a new ban structure; the flags of its mask are those of the text. -/
def Mem.makeBan (m : Mem) (banstr : Str) : Ptr × Mem :=
  let fresh : Ban := ⟨setBanMask banstr, [], 0, false, false, false⟩
  match m.freeBans with
  | some p => (p, { m with
      freeBans := m.next p
      next := update m.next p none
      ban := update m.ban p fresh })
  | none => (.heap m.alloc, { m with
      alloc := m.alloc + 1
      next := update m.next (.heap m.alloc) none
      ban := update m.ban (.heap m.alloc) fresh })

/-! ### Reading a command -/

/-- One ban is a superset of the other. `bmatch`. -/
def Ban.covers (b c : Ban) : Bool := bmatch b.mask c.mask = 0

/-- Mark a more specific entry. `apply_ban`. -/
def Ban.markBy (new b : Ban) : Ban :=
  if new.covers b then { b with del := true, overlapped := true } else b

/-- Add a ban to a list, or remove it, and mark the bans that should be removed because they overlap; zero when
it could be applied. `apply_ban`, `apply_except`. -/
def applyBan (n : ℕ) (m : Mem) (p : Ptr) : Option (Mem × ℕ) :=
  let new := m.ban p
  (walk m.next n m.list).map fun l =>
    if new.add then
      if l.any fun q => (m.ban q).covers new && !(m.ban q).del then (m, 1)
      else ((l.foldl (fun m q => m.modify q new.markBy) m).setLink l.getLast? (some p), 0)
    else if new.del then
      if l.any fun q => new.covers (m.ban q) then (l.foldl (fun m q => m.modify q new.markBy) m, 0)
      else (m, 3)
    else (m, 4)

/-- What a command says of one ban. `mode_parse_ban`. -/
structure Entry where
  /-- `dir` is `MODE_ADD`. -/
  add : Bool
  arg : Str
  who : Str
  /-- `TStime()`. -/
  when : ℕ

/-- The ban that is remembered for the moment. `mode_parse_ban`. -/
def Entry.ban (e : Entry) (pmask : Str) : Ban where
  mask := setBanMask pmask
  who := e.who.take nickLen
  when := e.when
  add := e.add
  del := !e.add
  overlapped := false

/-- What has been read of a command. `struct ParseState`. -/
structure ParseState where
  mem : Mem
  numbans : ℕ
  /-- `DONE_BANCLEAN`, or `DONE_EXCEPTCLEAN`. -/
  clean : Bool

/-- Clear the flags of a ban list. `mode_parse_ban`. -/
def clearMarks (n : ℕ) (m : Mem) : Option Mem :=
  (walk m.next n m.list).map fun l => l.foldl (fun m q => m.modify q Ban.unmarked) m

/-- Read one ban, or one ban exception. `mode_parse_ban`, `mode_parse_except`. -/
def modeParseBan (n : ℕ) (s : ParseState) (e : Entry) : Option ParseState :=
  match prettyExtmask e.arg with
  | none => some s
  | some pmask => do
      let m ← (if s.clean then some s.mem else clearMarks n s.mem)
      let p := Ptr.temp s.numbans
      let m := { m with
        next := update m.next p none
        ban := update m.ban p (e.ban pmask) }
      let r ← applyBan n m p
      some ⟨r.1, s.numbans + 1, true⟩

/-! ### Processing the list -/

/-- What the processing of a command depends on. `struct ParseState`, `ircd_features.c`. -/
structure Ctx where
  set : Bool
  bounce : Bool
  /-- `MyUser(state->sptr)`. -/
  myUser : Bool
  opmode : Bool
  chname : Str
  /-- `FEAT_MAXBANS`, `FEAT_AVBANLEN`. -/
  bans : ℤ × ℤ
  /-- `FEAT_MAXEXCEPTS`, `FEAT_AVEXCEPTLEN`. -/
  excepts : ℤ × ℤ
  jMaxPerChan : ℤ
  extbans : Bool
  /-- `FEAT_EXTBAN_q` and the others, by their characters. -/
  feat : Char → Bool

/-- The characters of the types of an extended ban. `extban_list`. -/
def banchars (x : BanCache.ExtBan) : List Char :=
  (if x.quiet then ['q'] else []) ++ (if x.nick then ['n'] else []) ++
    match x.what with
    | .join _ => ['j']
    | .account _ => ['a']
    | .channel _ => ['c']
    | .realname _ => ['r']
    | .mark _ => ['m']
    | .markua _ => ['M']
    | .mask _ _ => []
    | .bare => []

/-- The types of an extended ban are turned on. -/
def checkExtbanFeats (cx : Ctx) (x : BanCache.ExtBan) : Bool :=
  (banchars x = [] && !x.negatemask) || (cx.extbans && (banchars x).all cx.feat)

/-- The channel that a `~j` ban is about. `mode_process_bans` (`isjban`). -/
def joinMask (b : Mask) : Option Str :=
  match b.extban with
  | some x =>
    match x.what with
    | .join chan => some chan
    | _ => none
  | none => none

/-- The bans that are counted, the length of their texts, and the `~j` bans among them. `mode_process_bans`. -/
structure Counts where
  count : ℕ
  len : ℕ
  extjbans : ℕ

/-- Count a ban. `mode_process_bans`. -/
def Counts.plus (c : Counts) (b : Mask) : Counts :=
  ⟨c.count + 1, c.len + b.banstr.length, c.extjbans + if (joinMask b).isSome then 1 else 0⟩

/-- A new ban, which is counted already, is not let in: the list is full, a type of it is turned off, or it is a
`~j` ban too many or about the channel itself. `mode_process_bans`, `mode_process_excepts`. -/
def refuses (cx : Ctx) (max : ℤ × ℤ) (c : Counts) (b : Mask) : Bool :=
  cx.set && cx.myUser && ((!cx.opmode && (max.2 * max.1 < c.len || max.1 < c.count)) ||
      b.extban.any (fun x => !checkExtbanFeats cx x) ||
      (joinMask b).any fun chan => cx.jMaxPerChan < c.extjbans || strEq chan cx.chname)

/-- The variables of the processing. `mode_process_bans`. -/
structure Loop where
  mem : Mem
  ban : Option Ptr
  prevban : Option Ptr
  /-- `count`, `len` and `extjbans`. -/
  counts : Counts
  changed : Bool
  /-- What is put into the mode buffer: whether it is added, and the text. -/
  mbuf : List (Bool × Str)

/-- Create a new ban like that of the command and link it in. `mode_process_bans`. -/
def Mem.linkCopy (m : Mem) (b : Ban) : Mem :=
  let r := m.makeBan b.mask.banstr
  let m := r.2.modify r.1 fun c => { c with who := b.who, when := b.when }
  { m with next := update m.next r.1 m.list, list := some r.1 }

/-- One ban of the list. `mode_process_bans`, `mode_process_excepts`. -/
def Loop.body (cx : Ctx) (max : ℤ × ℤ) (s : Loop) (p : Ptr) : Loop :=
  let b := s.mem.ban p
  let counts := s.counts.plus b.mask
  let nextban := s.mem.next p
  if b.del && b.add then
    -- break the list; ban isn't a real ban
    { s with mem := s.mem.setLink s.prevban none, ban := nextban }
  else if b.del then
    let mbuf := s.mbuf ++ [(false, b.mask.banstr)]
    if cx.set then
      { s with
        mem := (s.mem.setLink s.prevban nextban).freeBan p
        ban := nextban
        changed := true
        mbuf := mbuf }
    else
      { s with mem := s.mem.modify p Ban.unmarked, ban := nextban, prevban := some p, counts, mbuf }
  else if b.add then
    let m := s.mem.setLink s.prevban none
    if b.overlapped && !cx.bounce then { s with mem := m, ban := nextban, prevban := some p }
    else if refuses cx max counts b.mask then { s with mem := m, ban := nextban, prevban := some p }
    else
      { mem := if cx.set then m.linkCopy b else m
        ban := nextban
        prevban := some p
        counts
        changed := s.changed || cx.set
        mbuf := s.mbuf ++ [(true, b.mask.banstr)] }
  else { s with ban := nextban, prevban := some p, counts }

/-- The walk through the list, over so many bans at most. `mode_process_bans`, `mode_process_excepts`. -/
def Loop.run (cx : Ctx) (max : ℤ × ℤ) : ℕ → Loop → Option Loop
  | n, s =>
    match s.ban with
    | none => some s
    | some p =>
      match n with
      | 0 => none
      | n + 1 => Loop.run cx max n (s.body cx max p)

/-- Process a list. `mode_process_bans`, `mode_process_excepts`. -/
def processList (cx : Ctx) (max : ℤ × ℤ) (n : ℕ) (m : Mem) : Option Loop :=
  Loop.run cx max n ⟨m, m.list, none, ⟨0, 0, 0⟩, false, []⟩

/-- This is the bottom half of the ban processor. -/
def modeProcessBans (cx : Ctx) : ℕ → Mem → Option Loop := processList cx cx.bans

/-- This is the bottom half of the ban exception processor. -/
def modeProcessExcepts (cx : Ctx) : ℕ → Mem → Option Loop := processList cx cx.excepts

/-- Read the bans of a command. `mode_parse`. -/
def parseEntries (n : ℕ) : ParseState → List Entry → Option ParseState
  | s, [] => some s
  | s, e :: es => (modeParseBan n s e).bind fun s => parseEntries n s es

/-- The bans of a command, read and processed. `mode_parse`. -/
def modeList (cx : Ctx) (max : ℤ × ℤ) (n : ℕ) (m : Mem) (es : List Entry) : Option Mem :=
  (parseEntries n ⟨m, 0, false⟩ es).bind fun s =>
    if s.clean then (processList cx max n s.mem).map Loop.mem else some s.mem

/-! ### What the list holds -/

/-- An entry of a list: where it is, and what is there. -/
abbrev Rec := Ptr × Ban

/-- A less specific active entry is found. `apply_ban`. -/
def covered (rs : List Rec) (new : Ban) : Bool := rs.any fun r => r.2.covers new && !r.2.del

/-- Apply a ban to the entries of a list. `apply_ban`. -/
def applyEntry (rs : List Rec) (p : Ptr) (new : Ban) : List Rec :=
  if new.add then
    if covered rs new then rs
    else rs.map (fun r => (r.1, new.markBy r.2)) ++ [(p, new)]
  else rs.map fun r => (r.1, new.markBy r.2)

/-- Read the bans of a command, the first of them into structure `i`. `mode_parse_ban`. -/
def readEntries : ℕ → List Rec → List Entry → List Rec
  | _, rs, [] => rs
  | i, rs, e :: es =>
    match prettyExtmask e.arg with
    | none => readEntries i rs es
    | some pmask => readEntries (i + 1) (applyEntry rs (.temp i) (e.ban pmask)) es

/-- The memory shows these entries, and the pointers `fl` are free; `i` structures of the command are in
use. -/
structure Shows (m : Mem) (rs : List Rec) (fl : List Ptr) (i : ℕ) : Prop where
  path : Path m.next m.list (rs.map Prod.fst)
  bans : ∀ r ∈ rs, m.ban r.1 = r.2
  free : Path m.next m.freeBans fl
  nodup : (rs.map Prod.fst ++ fl).Nodup
  placed : ∀ p ∈ rs.map Prod.fst, (∃ k < m.alloc, p = .heap k) ∨ ∃ j < i, p = .temp j
  placedFree : ∀ p ∈ fl, ∃ k < m.alloc, p = .heap k

lemma walk_eq {next : Ptr → Option Ptr} : (l : List Ptr) → ∀ {n : ℕ} {hd : Option Ptr}, Path next hd l →
    l.length ≤ n → walk next n hd = some l
  | [], n, hd, h, _ => by
    obtain rfl : hd = none := h
    cases n <;> rfl
  | p :: l, 0, _, _, hn => absurd hn (Nat.not_succ_le_zero _)
  | p :: l, n + 1, hd, ⟨hhd, h⟩, hn => by
    subst hhd
    rw [walk, walk_eq l h (Nat.le_of_succ_le_succ hn)]
    rfl

lemma setLink_path {m : Mem} {cur l₂ l₃ : List Ptr} {v : Option Ptr} (h : Path m.next m.list (cur ++ l₂))
    (hv : Path m.next v l₃) (hn : (cur ++ l₃).Nodup) :
    Path (m.setLink cur.getLast? v).next (m.setLink cur.getLast? v).list (cur ++ l₃) ∧
      (∀ x, x ∉ cur → (m.setLink cur.getLast? v).next x = m.next x) := by
  cases hlast : cur.getLast? with
  | none =>
    obtain rfl := List.getLast?_eq_none_iff.mp hlast
    exact ⟨hv, fun _ _ => rfl⟩
  | some q =>
    obtain ⟨l, rfl⟩ := List.getLast?_eq_some_iff.mp hlast
    rw [append_assoc, nodup_append] at hn
    have hql : q ∉ l := fun hmem => hn.2.2 q hmem q (by simp) rfl
    have hq : q ∉ l₃ := (nodup_cons.mp hn.2.1).1
    rw [append_assoc] at h ⊢
    refine ⟨Path.relink hv hq l h hql, fun x hx => Function.update_of_ne ?_ ..⟩
    rintro rfl
    exact hx (by simp)

lemma setLink_rest (m : Mem) (prev v : Option Ptr) : (m.setLink prev v).ban = m.ban ∧
    (m.setLink prev v).freeBans = m.freeBans ∧ (m.setLink prev v).alloc = m.alloc := by
  cases prev <;> exact ⟨rfl, rfl, rfl⟩

lemma foldl_modify (f : Ban → Ban) : (l : List Ptr) → ∀ (m : Mem), l.Nodup →
    (l.foldl (fun m q => m.modify q f) m) =
      { m with ban := fun p => if p ∈ l then f (m.ban p) else m.ban p }
  | [], m, _ => by simp
  | q :: l, m, hn => by
    rw [nodup_cons] at hn
    rw [List.foldl_cons, foldl_modify f l _ hn.2, Mem.modify]
    simp only [Mem.mk.injEq, true_and, and_true]
    funext p
    by_cases hp : p = q
    · subst hp
      simp [hn.1]
    · simp [hp]

lemma Shows.modify {m : Mem} {rs : List Rec} {fl : List Ptr} {i : ℕ} (h : Shows m rs fl i) (f : Ban → Ban) :
    Shows ((rs.map Prod.fst).foldl (fun m q => m.modify q f) m) (rs.map fun r => (r.1, f r.2)) fl i := by
  have hnodup := (nodup_append.mp h.nodup).1
  have hfst : (rs.map fun r => (r.1, f r.2)).map Prod.fst = rs.map Prod.fst := by simp
  rw [foldl_modify f _ m hnodup]
  refine ⟨by rw [hfst]; exact h.path, ?_, h.free, by rw [hfst]; exact h.nodup,
    by rw [hfst]; exact h.placed, h.placedFree⟩
  intro r hr
  obtain ⟨r', hr', rfl⟩ := mem_map.mp hr
  have hmem : r'.1 ∈ rs.map Prod.fst := List.mem_map_of_mem hr'
  simp only [hmem, if_true, h.bans r' hr']

lemma Shows.write {m : Mem} {rs : List Rec} {fl : List Ptr} {i : ℕ} (h : Shows m rs fl i) (b : Ban) :
    Shows { m with
      next := update m.next (.temp i) none
      ban := update m.ban (.temp i) b } rs fl i := by
  have hne : ∀ p ∈ rs.map Prod.fst, p ≠ .temp i := by
    rintro p hp rfl
    obtain ⟨k, -, hk⟩ | ⟨j, hj, hij⟩ := h.placed _ hp
    · exact (nomatch hk)
    · injection hij with hij
      exact absurd hj (hij ▸ Nat.lt_irrefl _)
  have hneFree : ∀ p ∈ fl, p ≠ .temp i := by
    rintro p hp rfl
    obtain ⟨k, -, hk⟩ := h.placedFree _ hp
    exact (nomatch hk)
  refine ⟨h.path.congr _ fun p hp => Function.update_of_ne (hne p hp) .., fun r hr => ?_,
    h.free.congr _ fun p hp => Function.update_of_ne (hneFree p hp) .., h.nodup, h.placed, h.placedFree⟩
  exact (Function.update_of_ne (hne r.1 (List.mem_map_of_mem hr)) ..).trans (h.bans r hr)

lemma Shows.link {m : Mem} {rs : List Rec} {fl : List Ptr} {i : ℕ} (h : Shows m rs fl i)
    (hnext : m.next (.temp i) = none) :
    Shows (m.setLink (rs.map Prod.fst).getLast? (some (.temp i))) (rs ++ [(.temp i, m.ban (.temp i))]) fl
      (i + 1) := by
  have hne : .temp i ∉ rs.map Prod.fst ++ fl := by
    intro hmem
    obtain hmem | hmem := mem_append.mp hmem
    · obtain ⟨k, -, hk⟩ | ⟨j, hj, hij⟩ := h.placed _ hmem
      · exact (nomatch hk)
      · injection hij with hij
        exact absurd hj (hij ▸ Nat.lt_irrefl _)
    · obtain ⟨k, -, hk⟩ := h.placedFree _ hmem
      exact (nomatch hk)
  have hone : Path m.next (some (.temp i)) [.temp i] := ⟨rfl, hnext⟩
  have hbans : ∀ r ∈ rs ++ [(Ptr.temp i, m.ban (.temp i))], m.ban r.1 = r.2 := by
    intro r hr
    obtain hr | hr := mem_append.mp hr
    · exact h.bans r hr
    · rw [mem_singleton.mp hr]
  have hnodup : ((rs ++ [(Ptr.temp i, m.ban (.temp i))]).map Prod.fst ++ fl).Nodup := by
    rw [map_append, append_assoc]
    exact List.perm_middle.nodup_iff.mpr (nodup_cons.mpr ⟨hne, h.nodup⟩)
  have hplaced : ∀ p ∈ (rs ++ [(Ptr.temp i, m.ban (.temp i))]).map Prod.fst,
      (∃ k < m.alloc, p = .heap k) ∨ ∃ j < i + 1, p = .temp j := by
    intro p hp
    rw [map_append, mem_append] at hp
    obtain hp | hp := hp
    · exact (h.placed p hp).imp_right fun ⟨j, hj, hp⟩ => ⟨j, Nat.lt_succ_of_lt hj, hp⟩
    · exact .inr ⟨i, Nat.lt_succ_self _, mem_singleton.mp hp⟩
  have hnd : (rs.map Prod.fst ++ [Ptr.temp i]).Nodup := by
    have := (nodup_append.mp hnodup).1
    rwa [map_append] at this
  have hold : Path m.next m.list (rs.map Prod.fst ++ []) := by
    rw [List.append_nil]
    exact h.path
  obtain ⟨hpath, hother⟩ := setLink_path hold hone hnd
  obtain ⟨hban, hfree, halloc⟩ := setLink_rest m (rs.map Prod.fst).getLast? (some (.temp i))
  refine ⟨by rw [map_append]; exact hpath, by rw [hban]; exact hbans, ?_, hnodup,
    by rw [halloc]; exact hplaced, by rw [halloc]; exact h.placedFree⟩
  rw [hfree]
  refine h.free.congr _ fun p hp => hother p fun hmem => ?_
  exact (nodup_append.mp h.nodup).2.2 p hmem p hp rfl

lemma Shows.mono {m : Mem} {rs : List Rec} {fl : List Ptr} {i : ℕ} (h : Shows m rs fl i) :
    Shows m rs fl (i + 1) :=
  ⟨h.path, h.bans, h.free, h.nodup,
    fun p hp => (h.placed p hp).imp_right fun ⟨j, hj, hp⟩ => ⟨j, Nat.lt_succ_of_lt hj, hp⟩, h.placedFree⟩

lemma map_markBy_of_not_covers {rs : List Rec} {new : Ban} (h : ∀ r ∈ rs, new.covers r.2 = false) :
    rs.map (fun r => (r.1, new.markBy r.2)) = rs := by
  have hid : ∀ r ∈ rs, (r.1, new.markBy r.2) = id r := by
    intro r hr
    rw [Ban.markBy, h r hr, if_neg Bool.false_ne_true]
    rfl
  rw [List.map_congr_left hid, map_id]

/-- **A ban is applied to the list that the memory shows**. -/
theorem Shows.applyBan {m : Mem} {rs : List Rec} {fl : List Ptr} {i n : ℕ} (h : Shows m rs fl i)
    (hn : rs.length ≤ n) (hnext : m.next (.temp i) = none)
    (hdel : (m.ban (.temp i)).del = !(m.ban (.temp i)).add) : ∃ m' r, applyBan n m (.temp i) = some (m', r) ∧
    Shows m' (applyEntry rs (.temp i) (m.ban (.temp i))) fl (i + 1) := by
  have hwalk : walk m.next n m.list = some (rs.map Prod.fst) := walk_eq _ h.path (by rwa [length_map])
  have hfresh : Ptr.temp i ∉ rs.map Prod.fst := by
    intro hmem
    obtain ⟨k, -, hk⟩ | ⟨j, hj, hij⟩ := h.placed _ hmem
    · exact (nomatch hk)
    · injection hij with hij
      exact absurd hj (hij ▸ Nat.lt_irrefl _)
  obtain ⟨new, hnew⟩ : ∃ new, new = m.ban (.temp i) := ⟨_, rfl⟩
  rw [← hnew] at hdel
  have hany : ∀ f : Ban → Bool, ((rs.map Prod.fst).any fun q => f (m.ban q)) = rs.any fun r => f r.2 := by
    intro f
    rw [List.any_map, Bool.eq_iff_iff, List.any_eq_true, List.any_eq_true]
    refine exists_congr fun r => and_congr_right fun hr => ?_
    rw [Function.comp_apply, h.bans r hr]
  have hmarked := h.modify new.markBy
  rw [BanList.applyBan, hwalk, ← hnew]
  simp only [Option.map_some, hany fun b => b.covers new && !b.del, hany fun b => new.covers b]
  unfold applyEntry covered
  split
  · split
    · exact ⟨m, 1, rfl, h.mono⟩
    · refine ⟨_, 0, rfl, ?_⟩
      -- the new ban is not among those that were marked
      have hsame := foldl_modify new.markBy (rs.map Prod.fst) m (nodup_append.mp h.nodup).1
      have hfst : (rs.map fun r => (r.1, new.markBy r.2)).map Prod.fst = rs.map Prod.fst := by simp
      rw [hsame] at hmarked ⊢
      have hlinked := hmarked.link hnext
      rw [hfst] at hlinked
      simp only [hfresh, if_false, ← hnew] at hlinked
      exact hlinked
  · rename_i hadd
    have hdel : new.del = true := by simpa [hadd] using hdel
    rw [if_pos hdel]
    split
    · exact ⟨_, 0, rfl, hmarked.mono⟩
    · rename_i hnone
      refine ⟨m, 3, rfl, ?_⟩
      rw [map_markBy_of_not_covers]
      · exact h.mono
      · simpa using hnone

/-- The entries without their marks. `mode_parse_ban`. -/
def unmarkAll (rs : List Rec) : List Rec := rs.map fun r => (r.1, r.2.unmarked)

lemma length_applyEntry_le (rs : List Rec) (p : Ptr) (new : Ban) :
    (applyEntry rs p new).length ≤ rs.length + 1 := by
  unfold applyEntry
  split
  · split
    · exact Nat.le_succ _
    · simp
  · simp

/-- **A ban is read**. -/
theorem Shows.modeParseBan {s : ParseState} {rs : List Rec} {fl : List Ptr} {n : ℕ} {e : Entry}
    {pmask : Str} (h : Shows s.mem rs fl s.numbans) (hn : rs.length ≤ n)
    (he : prettyExtmask e.arg = some pmask) :
    ∃ s', modeParseBan n s e = some s' ∧ s'.clean = true ∧ s'.numbans = s.numbans + 1 ∧
      Shows s'.mem (applyEntry (if s.clean then rs else unmarkAll rs) (.temp s.numbans) (e.ban pmask)) fl
        (s.numbans + 1) := by
  obtain ⟨m, hm, hshows⟩ : ∃ m, (if s.clean then some s.mem else clearMarks n s.mem) = some m ∧
      Shows m (if s.clean then rs else unmarkAll rs) fl s.numbans := by
    split
    · exact ⟨_, rfl, h⟩
    · refine ⟨_, ?_, h.modify Ban.unmarked⟩
      rw [clearMarks, walk_eq _ h.path (by rwa [length_map])]
      rfl
  have hlen : (if s.clean then rs else unmarkAll rs).length ≤ n := by
    split
    · exact hn
    · rwa [unmarkAll, length_map]
  obtain ⟨m', hm'⟩ : ∃ m', m' = { m with
      next := update m.next (.temp s.numbans) none
      ban := update m.ban (.temp s.numbans) (e.ban pmask) } := ⟨_, rfl⟩
  have hwritten := hshows.write (e.ban pmask)
  rw [← hm'] at hwritten
  have hnext : m'.next (.temp s.numbans) = none := by rw [hm']; exact Function.update_self ..
  have hban : m'.ban (.temp s.numbans) = e.ban pmask := by rw [hm']; exact Function.update_self ..
  obtain ⟨m'', r, hr, happlied⟩ := hwritten.applyBan hlen hnext (by rw [hban]; rfl)
  rw [hban] at happlied
  refine ⟨⟨m'', s.numbans + 1, true⟩, ?_, rfl, rfl, happlied⟩
  unfold BanList.modeParseBan
  simp only [he, hm, Option.bind_eq_bind, Option.bind_some, ← hm', hr]

lemma Shows.parseEntries : (es : List Entry) → ∀ {s : ParseState} {rs : List Rec} {fl : List Ptr} {n : ℕ},
    Shows s.mem rs fl s.numbans → s.clean = true → rs.length + es.length ≤ n →
    ∃ s', parseEntries n s es = some s' ∧ s'.clean = true ∧
      Shows s'.mem (readEntries s.numbans rs es) fl s'.numbans
  | [], s, rs, fl, n, h, hclean, _ => ⟨s, rfl, hclean, h⟩
  | e :: es, s, rs, fl, n, h, hclean, hn => by
    rw [List.length_cons] at hn
    rw [BanList.parseEntries, readEntries]
    cases he : prettyExtmask e.arg with
    | none =>
      have hsame : BanList.modeParseBan n s e = some s := by
        unfold BanList.modeParseBan
        rw [he]
      rw [hsame]
      exact Shows.parseEntries es h hclean (by omega)
    | some pmask =>
      obtain ⟨s', hs', hclean', hnum, h'⟩ := h.modeParseBan (n := n) (by omega) he
      rw [if_pos hclean, ← hnum] at h'
      have hlen := length_applyEntry_le rs (.temp s.numbans) (e.ban pmask)
      rw [hs', ← hnum]
      exact Shows.parseEntries es h' hclean' (by omega)

/-- A command says something of a ban. `mode_parse_ban`. -/
def Entry.parsed (e : Entry) : Bool := (prettyExtmask e.arg).isSome

lemma Shows.parseAll : (es : List Entry) → ∀ {s : ParseState} {rs : List Rec} {fl : List Ptr} {n : ℕ},
    Shows s.mem rs fl s.numbans → s.clean = false → rs.length + es.length ≤ n → es.any Entry.parsed →
    ∃ s', BanList.parseEntries n s es = some s' ∧ s'.clean = true ∧
      Shows s'.mem (readEntries s.numbans (unmarkAll rs) es) fl s'.numbans
  | [], _, _, _, _, _, _, _, hany => (nomatch hany)
  | e :: es, s, rs, fl, n, h, hclean, hn, hany => by
    rw [List.length_cons] at hn
    rw [BanList.parseEntries, readEntries]
    cases he : prettyExtmask e.arg with
    | none =>
      have hsame : BanList.modeParseBan n s e = some s := by
        unfold BanList.modeParseBan
        rw [he]
      have hany : es.any Entry.parsed = true := by
        simpa [Entry.parsed, he] using hany
      rw [hsame]
      exact Shows.parseAll es h hclean (by omega) hany
    | some pmask =>
      obtain ⟨s', hs', hclean', hnum, h'⟩ := h.modeParseBan (n := n) (by omega) he
      rw [if_neg (by rw [hclean]; exact Bool.false_ne_true), ← hnum] at h'
      have hlen := length_applyEntry_le (unmarkAll rs) (.temp s.numbans) (e.ban pmask)
      rw [unmarkAll, length_map] at hlen
      rw [hs', ← hnum]
      exact Shows.parseEntries es h' hclean' (by rw [unmarkAll]; omega)

/-! ### What a command marks -/

/-- The bans of a command that could be applied: all to be removed, and those to be added that no active entry
covers. `apply_ban`. -/
def applied : ℕ → List Rec → List Entry → List Ban
  | _, _, [] => []
  | i, rs, e :: es =>
    match prettyExtmask e.arg with
    | none => applied i rs es
    | some pmask =>
      if e.add && covered rs (e.ban pmask) then applied (i + 1) rs es
      else e.ban pmask :: applied (i + 1) (applyEntry rs (.temp i) (e.ban pmask)) es

/-- Mark a ban for each of these that covers it. `apply_ban`. -/
def markAll (news : List Ban) (b : Ban) : Ban := news.foldl (fun b new => new.markBy b) b

lemma markBy_mask (new b : Ban) : (new.markBy b).mask = b.mask := by
  unfold Ban.markBy
  split <;> rfl

lemma markAll_eq : (news : List Ban) → ∀ b : Ban,
    markAll news b = if news.any (·.covers b) then { b with del := true, overlapped := true } else b
  | [], b => rfl
  | new :: news, b => by
    have hcovers : ∀ c : Ban, c.covers (new.markBy b) = c.covers b := fun c => by
      rw [Ban.covers, Ban.covers, markBy_mask]
    rw [markAll, List.foldl_cons, ← markAll, markAll_eq news, List.any_cons]
    simp only [hcovers]
    unfold Ban.markBy
    split <;> split <;> simp_all

/-- A structure of the command on the list. `mode_parse_ban`. -/
structure IsTemp (r : Rec) : Prop where
  ptr : ∃ j, r.1 = .temp j
  add : r.2.add = true
  marks : r.2.overlapped = r.2.del

lemma IsTemp.markBy {r : Rec} (h : IsTemp r) (new : Ban) : IsTemp (r.1, new.markBy r.2) := by
  unfold Ban.markBy
  split
  · exact ⟨h.ptr, h.add, rfl⟩
  · exact h

lemma readEntries_append : (es : List Entry) → ∀ {i : ℕ} {reals temps : List Rec}, (∀ r ∈ temps, IsTemp r) →
    ∃ temps', readEntries i (reals ++ temps) es
        = reals.map (fun r => (r.1, markAll (applied i (reals ++ temps) es) r.2)) ++ temps' ∧
      ∀ r ∈ temps', IsTemp r
  | [], i, reals, temps, h => by
    refine ⟨temps, ?_, h⟩
    have hid : ∀ r ∈ reals, (r.1, markAll [] r.2) = id r := fun _ _ => rfl
    rw [readEntries, applied, List.map_congr_left hid, map_id]
  | e :: es, i, reals, temps, h => by
    rw [readEntries, applied]
    cases prettyExtmask e.arg with
    | none => exact readEntries_append es h
    | some pmask =>
      obtain ⟨new, hnew⟩ : ∃ new, new = e.ban pmask := ⟨_, rfl⟩
      have hadd : new.add = e.add := by rw [hnew]; rfl
      have hmarked : ∀ r ∈ temps.map (fun r => (r.1, new.markBy r.2)), IsTemp r := by
        intro r hr
        obtain ⟨r', hr', rfl⟩ := mem_map.mp hr
        exact (h r' hr').markBy new
      have hmap : ∀ news : List Ban, (reals.map fun r => (r.1, new.markBy r.2)).map
            (fun r => (r.1, markAll news r.2)) = reals.map fun r => (r.1, markAll (new :: news) r.2) := by
        intro news
        rw [List.map_map]
        rfl
      simp only [← hnew, ← hadd]
      unfold applyEntry
      rw [map_append]
      cases hcase : new.add with
      | true =>
        simp only [if_true, Bool.true_and]
        by_cases hcov : covered (reals ++ temps) new = true
        · rw [if_pos hcov, if_pos hcov]
          exact readEntries_append es h
        · rw [if_neg hcov, if_neg hcov, append_assoc, ← hmap]
          refine readEntries_append es fun r hr => ?_
          obtain hr | hr := mem_append.mp hr
          · exact hmarked r hr
          · rw [mem_singleton.mp hr]
            refine ⟨⟨i, rfl⟩, hcase, ?_⟩
            rw [hnew] at hcase ⊢
            exact (congrArg Bool.not hcase).symm
      | false =>
        simp only [Bool.false_eq_true, if_false, Bool.false_and]
        rw [← hmap]
        exact readEntries_append es hmarked

end Nefarious.BanList
