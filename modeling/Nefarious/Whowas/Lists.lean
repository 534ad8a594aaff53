import Mathlib.Data.List.Perm.Subperm
import Nefarious.Whowas

/-!
# The lists of the WHOWAS history
-/

namespace Nefarious.History

open Option (bind_eq_bind bind_some some.inj)
open Function (update update_of_ne update_self)

open List (length_append length_singleton map_congr_left mem_cons mem_cons_of_mem mem_cons_self mem_filter
  not_mem_nil)

open Lib

/-! ## The links of a list of entries -/

lemma hashWhowasName_lt (past name : Str) : hashWhowasName past name < wwMax := by
  have h₁ : ∀ n : ℕ, n &&& 15 ≤ 15 := fun n => Nat.and_le_right
  have h₂ : ∀ n : ℕ, n &&& 7 ≤ 7 := fun n => Nat.and_le_right
  have hlt : ∀ a b : ℕ, ((a &&& 15) <<< 3) + (b &&& 7) < wwMax := by
    intro a b
    have := h₁ a
    have := h₂ b
    rw [Nat.shiftLeft_eq, wwMax]
    omega
  exact hlt _ _

lemma hashWhowasName_of_ne (past : Str) {name : Str} (h : name ≠ []) :
    hashWhowasName past name = hashWhowasName [] name := by
  rw [hashWhowasName, hashWhowasName, if_neg h, if_neg h]

section Heads

variable {β : Type} [DecidableEq β] (heads : β → Bool) {blocks l : List Ptr} {h : Hlist.Links β Ptr}
  {act : β → Prop} {key : Ptr → Option β} {b : β} {x : Ptr}

lemma unlinkFrom_spec (hg : h.Groups act key l) (hl : l.Nodup) (hblocks : ∀ w ∈ l, w ∈ blocks)
    (hheads : ∀ b, act b → heads b = true) (hx : x ∈ l) (hkey : key x = some b) :
    ∃ h', unlinkFrom heads blocks h x = some h' ∧ h'.Groups act key (l.erase x) := by
  obtain ⟨hb, q, hq, hwhere, hnext, hunlink, hg'⟩ := hg.unlink hl hx hkey
  have hwritable : writable heads blocks q = true := by
    rcases hwhere with rfl | ⟨y, hy, rfl⟩
    · exact hheads b hb
    · exact decide_eq_true (hblocks y hy)
  have hnext' : (h.next x).all (· ∈ blocks) = true := by
    cases hn : h.next x with
    | none => rfl
    | some y => exact decide_eq_true (hblocks y (hnext y hn))
  exact ⟨_, by rw [unlinkFrom, if_pos ⟨hnext', by rw [hq]; exact hwritable⟩, hunlink], hg'⟩

lemma linkTo_spec (hg : h.Groups act key l) (hblocks : ∀ w ∈ l, w ∈ blocks)
    (hheads : heads b = true) (hb : act b) (hx : x ∉ l) (hkey : key x = some b) :
    ∃ h', linkTo heads blocks h b x = some h' ∧ h'.Groups act key (x :: l) := by
  have hhead : (h.head b).all (· ∈ blocks) = true := by
    cases hn : h.head b with
    | none => rfl
    | some y => exact decide_eq_true (hblocks y (hg.head_mem hb hn).1)
  exact ⟨_, by rw [linkTo, if_pos ⟨hheads, hhead⟩], hg.push hb hx hkey⟩

end Heads

/-- A client has a list until it goes offline. `whowas.c` `off_history`. -/
def State.active (s : State) (c : Client) : Prop := c ∈ s.live ∧ c ∉ s.off

/-- The entries `l` are linked: from the newest to the oldest, in the hash chains of their names, and in
the lists of their clients. -/
structure Linked (s : State) (l : List Ptr) : Prop where
  deque : Dll.IsDeque s.links s.ww_list s.ww_tail l
  blocks : ∀ w ∈ l, w ∈ s.blocks
  named : ∀ w ∈ l, (s.whowas w).name ≠ [] ∧ (s.whowas w).hashv = hashWhowasName [] (s.whowas w).name
  hash : s.hash.Groups (· < wwMax) (fun w => some (s.whowas w).hashv) l
  own : s.own.Groups s.active (fun w => (s.whowas w).online) l
  off : ∀ c ∈ s.off, c ∈ s.live

section Linked

variable {s : State} {l : List Ptr} {x : Ptr}

lemma Linked.nodup (h : Linked s l) : l.Nodup := h.deque.isList.nodup

lemma Linked.clean (h : Linked s l) (hx : x ∈ l) (hhead : s.ww_list ≠ some x) :
    ∃ own hash links tail, whowasClean s x =
      some { s with own := own, hash := hash, links := links, ww_tail := tail } ∧
    Linked { s with own := own, hash := hash, links := links, ww_tail := tail } (l.erase x) := by
  have hown : ∃ own, s.unlinkOnline x = some own ∧
      own.Groups s.active (fun w => (s.whowas w).online) (l.erase x) := by
    cases hc : (s.whowas x).online with
    | none =>
      refine ⟨s.own, ?_, h.own.erase h.nodup hc⟩
      rw [State.unlinkOnline, hc]
      rfl
    | some c =>
      obtain ⟨own, hunlink, hown⟩ := unlinkFrom_spec (· ∈ s.live) h.own h.nodup h.blocks
        (fun b hb => decide_eq_true hb.1) hx hc
      refine ⟨own, ?_, hown⟩
      rw [State.unlinkOnline, hc, Option.isSome_some, if_pos rfl, hunlink]
  obtain ⟨own, hunlink, hown⟩ := hown
  obtain ⟨hash, hunlink', hhash⟩ := unlinkFrom_spec (· < wwMax) h.hash h.nodup h.blocks
    (fun b hb => decide_eq_true hb) hx rfl
  have hnext : (s.links x).next.all (· ∈ s.blocks) = true := by
    cases hn : (s.links x).next with
    | none => rfl
    | some y =>
      exact decide_eq_true (h.blocks y (Dll.Chain.next_mem l h.deque.isList.chain hx hn))
  have hprev : (s.links x).prev.all (· ∈ s.blocks) = true := by
    cases hn : (s.links x).prev with
    | none => rfl
    | some y =>
      rcases Dll.Chain.prev_mem l h.deque.isList.chain hx hn with hy | hy
      · exact decide_eq_true (h.blocks y hy)
      · cases hy
  refine ⟨own, hash, (Dll.unlink s.links s.ww_list x).1, Dll.cutBottom s.links s.ww_tail x, ?_, ?_,
    fun w hw => h.blocks w (List.mem_of_mem_erase hw),
    fun w hw => h.named w (List.mem_of_mem_erase hw), hhash, hown, h.off⟩
  · rw [whowasClean, hunlink, hunlink']
    simp only [bind_eq_bind, bind_some]
    rw [if_pos ⟨h.blocks x hx, hnext, hprev⟩]
  · have hcut := Dll.cut_isDeque h.deque hx s.ww_list
    rwa [Dll.cutTop, if_neg hhead] at hcut

lemma Linked.zero (h : Linked s l) (hx : x ∉ l) : Linked (s.zero x) l := by
  have hne : ∀ w ∈ l, w ≠ x := fun w hw => ne_of_mem_of_not_mem hw hx
  have hwhowas : ∀ w ∈ l, (s.zero x).whowas w = s.whowas w := fun w hw =>
    update_of_ne (hne w hw) ..
  refine ⟨⟨h.deque.isList.congr fun w hw => update_of_ne (hne w hw) .., h.deque.bottom_eq⟩,
    h.blocks, fun w hw => by rw [hwhowas w hw]; exact h.named w hw, ?_, ?_, h.off⟩
  · exact h.hash.congr (fun _ _ => rfl) (fun w hw => ⟨update_of_ne (hne w hw) ..,
      update_of_ne (hne w hw) ..⟩) fun w hw => by rw [hwhowas w hw]
  · exact h.own.congr (fun _ _ => rfl) (fun w hw => ⟨update_of_ne (hne w hw) ..,
      update_of_ne (hne w hw) ..⟩) fun w hw => by rw [hwhowas w hw]

lemma Linked.fill (h : Linked s l) (hx : x ∉ l) (c : Client) (still_on : Bool) :
    Linked (s.fill c still_on x) l := by
  have hwhowas : ∀ w ∈ l, (s.fill c still_on x).whowas w = s.whowas w := fun w hw =>
    update_of_ne (ne_of_mem_of_not_mem hw hx) ..
  exact ⟨h.deque, h.blocks, fun w hw => by rw [hwhowas w hw]; exact h.named w hw,
    h.hash.congr (fun _ _ => rfl) (fun _ _ => ⟨rfl, rfl⟩) fun w hw => by rw [hwhowas w hw],
    h.own.congr (fun _ _ => rfl) (fun _ _ => ⟨rfl, rfl⟩) fun w hw => by rw [hwhowas w hw], h.off⟩

lemma Linked.link (h : Linked s l) (hx : x ∉ l) (hblock : x ∈ s.blocks)
    (hname : (s.whowas x).name ≠ []) (hhashv : (s.whowas x).hashv = hashWhowasName [] (s.whowas x).name)
    (honline : ∀ c, (s.whowas x).online = some c → s.active c) :
    ∃ own hash links tail, s.link x =
      some { s with own := own, hash := hash, links := links, ww_list := some x, ww_tail := tail } ∧
    Linked { s with own := own, hash := hash, links := links, ww_list := some x, ww_tail := tail }
      (x :: l) := by
  have hown : ∃ own, s.linkOnline x = some own ∧
      own.Groups s.active (fun w => (s.whowas w).online) (x :: l) := by
    cases hc : (s.whowas x).online with
    | none =>
      refine ⟨s.own, ?_, h.own.cons hc⟩
      rw [State.linkOnline, hc]
    | some c =>
      obtain ⟨own, hlink, hown⟩ := linkTo_spec (· ∈ s.live) h.own h.blocks
        (decide_eq_true (honline c hc).1) (honline c hc) hx hc
      refine ⟨own, ?_, hown⟩
      rw [State.linkOnline, hc]
      exact hlink
  obtain ⟨own, hlink, hown⟩ := hown
  have hlt : (s.whowas x).hashv < wwMax := hhashv ▸ hashWhowasName_lt ..
  obtain ⟨hash, hlink', hhash⟩ := linkTo_spec (· < wwMax) h.hash h.blocks (decide_eq_true hlt) hlt hx rfl
  have hlist : s.ww_list.all (· ∈ s.blocks) = true := by
    rw [h.deque.top_eq]
    cases l with
    | nil => rfl
    | cons y l => exact decide_eq_true (h.blocks y mem_cons_self)
  refine ⟨own, hash, (Dll.push s.links s.ww_list x).1, Dll.pushBottom s.ww_tail x, ?_,
    Dll.push_isDeque h.deque hx, ?_, ?_, hhash, hown, h.off⟩
  · rw [State.link, hlink, hlink']
    simp only [bind_eq_bind, bind_some]
    rw [if_pos hlist]
  · intro w hw
    rcases mem_cons.mp hw with rfl | hw
    · exact hblock
    · exact h.blocks w hw
  · intro w hw
    rcases mem_cons.mp hw with rfl | hw
    · exact ⟨hname, hhashv⟩
    · exact h.named w hw

lemma Linked.length_lt {m : List Ptr} (h : Linked s l) (hm : m.Nodup) (hsub : ∀ w ∈ m, w ∈ l) :
    m.length < s.blocks.length + 1 :=
  Nat.lt_succ_of_le (List.subperm_of_subset hm fun w hw => h.blocks w (hsub w hw)).length_le

lemma Linked.makeClient {c : Client} (h : Linked s l) (hc : c ∉ s.live) : Linked { s with
      live := c :: s.live, own := s.own.write (.head c) none
      cli_name := update s.cli_name c [] } l := by
  refine ⟨h.deque, h.blocks, h.named, h.hash, ?_, fun d hd => mem_cons_of_mem _ (h.off d hd)⟩
  have hact : (fun d => d = c ∨ s.active d) = fun d => d ∈ c :: s.live ∧ d ∉ s.off := by
    funext d
    rw [mem_cons, or_and_right, State.active]
    refine propext (or_congr_left ⟨fun e => ⟨e, fun hoff => hc ?_⟩, And.left⟩)
    exact e ▸ h.off d hoff
  have hown := h.own.enter (b := c) fun hact => hc hact.1
  rwa [hact] at hown

lemma Linked.freeClient {c : Client} (h : Linked s l) (hc : c ∈ s.off ∨ s.own.head c = none) :
    Linked { s with live := s.live.filter (· ≠ c), off := s.off.filter (· ≠ c) } l := by
  refine ⟨h.deque, h.blocks, h.named, h.hash, ?_, fun d hd => ?_⟩
  · refine h.own.leave (b := c) (fun d => ?_) fun w hw => ?_
    · simp only [State.active, mem_filter, decide_eq_true_eq]
      tauto
    · rw [if_neg]
      intro honline
      obtain ⟨hact, hhead⟩ := h.own.head_ne_none hw honline
      exact hc.elim hact.2 hhead
  · obtain ⟨hd, hdc⟩ := mem_filter.mp hd
    exact mem_filter.mpr ⟨h.off d hd, hdc⟩

/-- The online pointers of some entries are cleared. `whowas.c` `off_history`. -/
def State.offline (s : State) (m : List Ptr) : State :=
  { s with whowas := fun w => if w ∈ m then { s.whowas w with online := none } else s.whowas w }

lemma offHistory_spec : (m : List Ptr) → ∀ {s : State} {p : Hlist.Loc Client Ptr} {n : ℕ},
    s.own.Path p m → (∀ w ∈ m, w ∈ s.blocks) → m.length < n →
    offHistory n s (s.own.read p) = some (s.offline m)
  | [], s, p, n, hpath, _, hn => by
    obtain ⟨n, rfl⟩ : ∃ k, n = k + 1 := ⟨n - 1, by simp at hn; omega⟩
    have hread : s.own.read p = none := hpath
    rw [hread, offHistory, State.offline]
    simp only [not_mem_nil, if_false]
  | x :: m, s, p, n, ⟨hread, _, hpath⟩, hblocks, hn => by
    obtain ⟨n, rfl⟩ : ∃ k, n = k + 1 := ⟨n - 1, by omega⟩
    rw [hread, offHistory, if_pos (hblocks x mem_cons_self)]
    obtain ⟨s', hs'⟩ : ∃ s', s' = { s with
      whowas := update s.whowas x { s.whowas x with online := none } } := ⟨_, rfl⟩
    have hown : s'.own = s.own := by rw [hs']
    have ih := offHistory_spec m (s := s') (p := .next x) (n := n) (hown ▸ hpath)
      (fun w hw => by rw [hs']; exact hblocks w (mem_cons_of_mem _ hw)) (by simpa using hn)
    rw [hown, hs'] at ih
    refine ih.trans (congrArg some ?_)
    simp only [State.offline, State.mk.injEq, and_self, and_true]
    funext w
    by_cases e : w = x
    · subst e
      rw [update_self, if_pos (mem_cons_self)]
      split <;> rfl
    · rw [update_of_ne e]
      simp only [mem_cons, e, false_or]

lemma Linked.offHistory {c : Client} (h : Linked s l) (hc : s.active c) :
    ∃ m, offHistory (s.blocks.length + 1) s (s.own.head c) = some (s.offline m) ∧
      Linked { s.offline m with off := c :: s.off } l := by
  obtain ⟨owned, hh, hmem⟩ := h.own
  have hsub : ∀ w ∈ owned c, w ∈ l := fun w hw => ((hmem c w).mp hw).1
  refine ⟨owned c, offHistory_spec (owned c) (p := .head c) (hh.path c hc)
    (fun w hw => h.blocks w (hsub w hw)) (h.length_lt (hh.nodup c) hsub), ?_⟩
  have hname : ∀ w, ((s.offline (owned c)).whowas w).name = (s.whowas w).name ∧
      ((s.offline (owned c)).whowas w).hashv = (s.whowas w).hashv := by
    intro w
    rw [State.offline]
    by_cases hw : w ∈ owned c
    · simp only [if_pos hw, and_self]
    · simp only [if_neg hw, and_self]
  refine ⟨h.deque, h.blocks, fun w hw => ?_, h.hash.congr (fun _ _ => rfl) (fun _ _ => ⟨rfl, rfl⟩)
    fun w _ => by rw [(hname w).2], ?_, fun d hd => ?_⟩
  · rw [(hname w).1, (hname w).2]
    exact h.named w hw
  · refine h.own.leave (b := c) (fun d => ?_) fun w hw => ?_
    · simp only [State.active, State.offline, mem_cons, not_or]
      tauto
    · by_cases hwc : (s.whowas w).online = some c
      · simp only [State.offline, if_pos ((hmem c w).mpr ⟨hw, hwc⟩), if_pos hwc]
      · simp only [State.offline, if_neg fun hm => hwc ((hmem c w).mp hm).2, if_neg hwc]
  · rcases mem_cons.mp hd with rfl | hd
    · exact hc.1
    · exact h.off d hd

lemma getHistory_spec (nick : Str) (timelimit : ℤ) : (m : List Ptr) →
    ∀ {p : Hlist.Loc ℕ Ptr} {n : ℕ}, s.hash.Path p m → (∀ w ∈ m, w ∈ s.blocks) → m.length < n →
    ∃ r, getHistory s nick timelimit n (s.hash.read p) = some r
  | [], p, n, hpath, _, hn => by
    obtain ⟨n, rfl⟩ : ∃ k, n = k + 1 := ⟨n - 1, by simp at hn; omega⟩
    have hread : s.hash.read p = none := hpath
    exact ⟨none, by rw [hread, getHistory]⟩
  | x :: m, p, n, ⟨hread, _, hpath⟩, hblocks, hn => by
    obtain ⟨n, rfl⟩ : ∃ k, n = k + 1 := ⟨n - 1, by omega⟩
    rw [hread, getHistory, if_pos (hblocks x mem_cons_self)]
    split
    · exact ⟨_, rfl⟩
    · exact getHistory_spec nick timelimit m hpath
        (fun w hw => hblocks w (mem_cons_of_mem _ hw)) (by simpa using hn)

lemma Linked.getHistory (h : Linked s l) (past nick : Str) (timelimit : ℤ) : ∃ r,
    getHistory s nick timelimit (s.blocks.length + 1) (s.hash.head (hashWhowasName past nick)) = some r := by
  obtain ⟨chains, hh, hmem⟩ := h.hash
  have hsub : ∀ w ∈ chains (hashWhowasName past nick), w ∈ l := fun w hw => ((hmem _ w).mp hw).1
  exact getHistory_spec nick timelimit _ (p := .head _) (hh.path _ (hashWhowasName_lt ..))
    (fun w hw => h.blocks w (hsub w hw)) (h.length_lt (hh.nodup _) hsub)

end Linked

/-! ## The count -/

/-- What an entry records. `whowas.h` `struct Whowas`. -/
def State.record (s : State) (w : Ptr) : Str × ℤ := ((s.whowas w).name, (s.whowas w).logoff)

/-- The entries are counted, and record what was added last. -/
structure Counted (s : State) (l : List Ptr) : Prop extends Linked s l where
  alloc : s.ww_alloc = l.length
  recent : l.map s.record = s.log.take l.length

/-- And there are not more than there may be. -/
structure Good (s : State) (l : List Ptr) : Prop extends Counted s l where
  lt : s.historyLength < 2 ^ 31
  le : (l.length : ℤ) ≤ s.historyLength

section Counted

variable {s : State} {l : List Ptr} {x : Ptr}

lemma State.limit_eq (h₀ : 0 ≤ s.historyLength) (h₁ : s.historyLength < 2 ^ 31) :
    (s.limit : ℤ) = s.historyLength := by
  rw [State.limit, Int.emod_eq_of_lt h₀ (by omega), Int.toNat_of_nonneg h₀]

lemma Linked.cleanTail (h : Linked s (l ++ [x])) (hl : l ≠ []) : s.ww_tail = some x ∧ x ∉ l ∧
    ∃ own hash links tail, whowasClean s x =
      some { s with own := own, hash := hash, links := links, ww_tail := tail } ∧
    Linked { s with own := own, hash := hash, links := links, ww_tail := tail } l := by
  have hx : x ∉ l := fun hx =>
    (List.nodup_append.mp h.nodup).2.2 x hx x (List.mem_singleton.mpr rfl) rfl
  have hhead : s.ww_list ≠ some x := by
    rw [h.deque.top_eq]
    cases l with
    | nil => exact absurd rfl hl
    | cons y l => exact fun e => hx ((some.inj e) ▸ mem_cons_self)
  refine ⟨by rw [h.deque.bottom_eq, List.getLast?_concat], hx, ?_⟩
  have hclean := h.clean (List.mem_append_right _ (List.mem_singleton.mpr rfl)) hhead
  rwa [List.erase_append_right _ hx, List.erase_cons_head, List.append_nil] at hclean

lemma recent_init {f : Ptr → Str × ℤ} {log : List (Str × ℤ)}
    (h : (l ++ [x]).map f = log.take (l ++ [x]).length) : l.map f = log.take l.length := by
  have htake := congrArg (List.take l.length) h
  rw [List.map_append, List.take_left' (List.length_map f), List.take_take, length_append] at htake
  rwa [min_eq_left (Nat.le_add_right ..)] at htake

lemma Counted.free (h : Counted s (l ++ [x])) (hl : l ≠ []) : s.ww_tail = some x ∧
    ∃ t, whowasFree s x = some t ∧ t.historyLength = s.historyLength ∧ Counted t l := by
  obtain ⟨htail, hx, own, hash, links, tail, hclean, hlinked⟩ := h.toLinked.cleanTail hl
  refine ⟨htail, { s with
    own := own, hash := hash, links := links, ww_tail := tail
    blocks := s.blocks.erase x, ww_alloc := s.ww_alloc - 1 }, by rw [whowasFree, hclean]; rfl, rfl, ?_⟩
  refine ⟨⟨hlinked.deque, fun w hw => ?_, hlinked.named, hlinked.hash, hlinked.own, hlinked.off⟩, ?_,
    recent_init h.recent⟩
  · exact (List.mem_erase_of_ne (ne_of_mem_of_not_mem hw hx)).mpr (hlinked.blocks w hw)
  · have halloc := h.alloc
    rw [length_append, length_singleton] at halloc
    exact Nat.sub_eq_of_eq_add halloc

lemma Counted.realloc : (n : ℕ) → ∀ {s : State} {l : List Ptr}, Counted s l →
    s.historyLength < 2 ^ 31 → 1 ≤ s.historyLength ∨ s.historyLength = 0 ∧ l = [] → l.length < n →
    ∃ t l', whowasRealloc n s = some t ∧ Good t l'
  | 0, _, _, _, _, _, hn => absurd hn (Nat.not_lt_zero _)
  | n + 1, s, l, h, hlt, hlen, hn => by
    have hlimit := State.limit_eq (s := s) (by omega) hlt
    rw [whowasRealloc]
    by_cases hmore : s.limit < s.ww_alloc
    · rw [h.alloc] at hmore
      have hne : l ≠ [] := by
        rintro rfl
        exact Nat.not_lt_zero _ hmore
      have hone : 1 ≤ s.historyLength := hlen.resolve_right fun hl => hne hl.2
      obtain ⟨m, x, rfl⟩ : ∃ m x, l = m ++ [x] := ⟨_, _, (List.dropLast_append_getLast hne).symm⟩
      rw [length_append, length_singleton] at hmore hn
      have hm : m ≠ [] := by
        rintro rfl
        rw [List.length_nil] at hmore
        omega
      obtain ⟨htail, t, hfree, hlength, hcounted⟩ := h.free hm
      rw [if_pos (by rw [h.alloc, length_append, length_singleton]; exact hmore), htail]
      simp only [hfree, bind_some]
      exact Counted.realloc n hcounted (by rwa [hlength]) (Or.inl (by rwa [hlength])) (by omega)
    · rw [if_neg hmore]
      rw [h.alloc] at hmore
      exact ⟨s, l, rfl, h, hlt, by omega⟩

/-- A fresh entry next to the entries `l`. -/
structure Fresh (s t : State) (x : Ptr) (l : List Ptr) : Prop extends Linked t l where
  out : x ∉ l
  block : x ∈ t.blocks
  alloc : t.ww_alloc = l.length + 1
  le : (l.length + 1 : ℤ) ≤ s.historyLength
  recent : l.map t.record = s.log.take l.length
  frame : t.live = s.live ∧ t.off = s.off ∧ t.cli_name = s.cli_name ∧ t.log = s.log ∧
    t.historyLength = s.historyLength

lemma Good.whowasAlloc {fresh : Ptr} (h : Good s l) (hfits : s.ww_alloc < s.limit ∨ 2 ≤ s.ww_alloc)
    (hfresh : fresh ∉ s.blocks) : ∃ t x l', whowasAlloc s fresh = some (t, x) ∧ Fresh s t x l' := by
  have hlimit := State.limit_eq (s := s) (le_trans (Int.natCast_nonneg _) h.le) h.lt
  have hle := h.le
  have hrecord : ∀ (s : State) {w x : Ptr}, w ≠ x → (s.zero x).record w = s.record w := by
    intro s w x hw
    rw [State.record, State.zero]
    simp only [update_of_ne hw]
    rfl
  rw [History.whowasAlloc]
  by_cases hfull : s.limit ≤ s.ww_alloc
  · rw [if_pos hfull]
    rw [h.alloc] at hfull hfits
    have htwo : 2 ≤ l.length := hfits.resolve_left (Nat.not_lt.mpr hfull)
    obtain ⟨m, x, rfl⟩ : ∃ m x, l = m ++ [x] :=
      ⟨_, _, (List.dropLast_append_getLast (List.ne_nil_of_length_pos (by omega))).symm⟩
    rw [length_append, length_singleton] at htwo hle
    have hm : m ≠ [] := by
      rintro rfl
      rw [List.length_nil] at htwo
      omega
    obtain ⟨htail, hx, own, hash, links, tail, hclean, hlinked⟩ := h.toLinked.cleanTail hm
    refine ⟨_, x, m, by rw [htail]; simp only [bind_eq_bind, bind_some, hclean],
      hlinked.zero hx, hx, h.blocks x (by simp), ?_, by exact_mod_cast hle, ?_, rfl, rfl, rfl, rfl, rfl⟩
    · exact h.alloc.trans (by rw [length_append, length_singleton])
    · rw [← recent_init h.recent]
      exact map_congr_left fun w hw => hrecord _ (ne_of_mem_of_not_mem hw hx)
  · rw [if_neg hfull]
    have hx : fresh ∉ l := fun hx => hfresh (h.blocks fresh hx)
    have hlinked : Linked { s with ww_alloc := s.ww_alloc + 1, blocks := fresh :: s.blocks } l :=
      ⟨h.deque, fun w hw => mem_cons_of_mem _ (h.blocks w hw), h.named, h.hash, h.own, h.off⟩
    refine ⟨_, fresh, l, rfl, hlinked.zero hx, hx, mem_cons_self, congrArg (· + 1) h.alloc, ?_, ?_,
      rfl, rfl, rfl, rfl, rfl⟩
    · rw [h.alloc] at hfull
      omega
    · rw [← h.recent]
      exact map_congr_left fun w hw => hrecord _ (ne_of_mem_of_not_mem hw hx)

lemma Good.addHistory {c : Client} {still_on : Bool} {fresh : Ptr} (h : Good s l)
    (hfits : s.ww_alloc < s.limit ∨ 2 ≤ s.ww_alloc) (hfresh : fresh ∉ s.blocks) (hc : c ∈ s.live)
    (hname : s.cli_name c ≠ []) (hoff : still_on = true → c ∉ s.off) :
    ∃ t l', addHistory s c still_on fresh = some t ∧ Good t l' := by
  obtain ⟨t, x, m, halloc, hf⟩ := h.whowasAlloc hfits hfresh
  obtain ⟨hlive, hoff', hcli, hlog, hlength⟩ := hf.frame
  have hself : (t.fill c still_on x).whowas x =
      { hashv := hashWhowasName [] (t.cli_name c), name := t.cli_name c
        logoff := t.currentTime, online := if still_on then some c else none } :=
    update_self ..
  have honline : ∀ d, ((t.fill c still_on x).whowas x).online = some d → (t.fill c still_on x).active d := by
    intro d hd
    rw [hself] at hd
    split at hd
    case isTrue hon =>
      cases hd
      exact ⟨hlive ▸ hc, hoff' ▸ hoff hon⟩
    case isFalse => cases hd
  obtain ⟨own, hash, links, tail, hlink, hlinked⟩ := (hf.toLinked.fill hf.out c still_on).link hf.out
    hf.block (by rw [hself, hcli]; exact hname) (by rw [hself]) honline
  refine ⟨_, x :: m, by rw [History.addHistory, halloc]; exact hlink, ⟨hlinked, hf.alloc, ?_⟩,
    hlength ▸ h.lt, ?_⟩
  · have hrest : m.map (t.fill c still_on x).record = m.map t.record := by
      refine map_congr_left fun w hw => ?_
      rw [State.record, State.fill]
      simp only [update_of_ne (ne_of_mem_of_not_mem hw hf.out)]
      rfl
    have hnew : (t.fill c still_on x).record x = (t.cli_name c, t.currentTime) := by
      rw [State.record, hself]
    show (x :: m).map (t.fill c still_on x).record =
      ((t.cli_name c, t.currentTime) :: t.log).take (m.length + 1)
    rw [List.map_cons, hrest, hnew, List.take_succ_cons, hf.recent, hlog]
  · have hle := hf.le
    rw [← hlength] at hle
    exact_mod_cast hle

lemma Good.start (whowas : Ptr → Whowas) (hnext : Ptr → Option Ptr) (hprevp : Ptr → Option (Hlist.Loc ℕ Ptr))
    (own : Hlist.Links Client Ptr) (links : Ptr → Dll.Links Ptr) (cli_name : Client → Str) (now : ℤ) :
    Good (State.start whowas hnext hprevp own links cli_name now) [] := by
  have hnot : ∀ w : Ptr, w ∉ ([] : List Ptr) := fun w => not_mem_nil
  refine ⟨⟨⟨Dll.isDeque_nil links, fun w hw => absurd hw (hnot w), fun w hw => absurd hw (hnot w),
    ⟨fun _ => [], ⟨fun b _ => rfl, fun _ _ => rfl, fun _ => List.nodup_nil,
      fun _ _ w hw => absurd hw (hnot w)⟩, fun b w => ?_⟩,
    ⟨fun _ => [], ⟨fun c hc => absurd hc.1 not_mem_nil, fun _ _ => rfl, fun _ => List.nodup_nil,
      fun _ _ w hw => absurd hw (hnot w)⟩, fun c w => ?_⟩,
    fun c hc => absurd hc not_mem_nil⟩, rfl, rfl⟩,
    (by decide : (800 : ℤ) < 2 ^ 31), (by decide : (0 : ℤ) ≤ 800)⟩
  · exact iff_of_false (hnot w) fun h => hnot w h.1
  · exact iff_of_false (hnot w) fun h => hnot w h.1

lemma Good.step (h : Good s l) (e : Event) (hallowed : s.allowed e = true)
    (hfits : s.fits e = true) : ∃ t l', s.step e = some t ∧ Good t l' := by
  cases e with
  | time now =>
    exact ⟨_, l, rfl, ⟨⟨h.deque, h.blocks, h.named, h.hash, h.own, h.off⟩, h.alloc, h.recent⟩, h.lt, h.le⟩
  | makeClient c =>
    exact ⟨_, l, rfl, ⟨h.toLinked.makeClient (of_decide_eq_true hallowed), h.alloc, h.recent⟩, h.lt, h.le⟩
  | setName c n =>
    exact ⟨_, l, rfl, ⟨⟨h.deque, h.blocks, h.named, h.hash, h.own, h.off⟩, h.alloc, h.recent⟩, h.lt, h.le⟩
  | addHistory c still_on fresh =>
    obtain ⟨hc, hname, hoff, hfresh⟩ := of_decide_eq_true hallowed
    exact h.addHistory (of_decide_eq_true hfits) hfresh hc hname hoff
  | offHistory c =>
    have hc : c ∈ s.live ∧ c ∉ s.off := of_decide_eq_true hallowed
    obtain ⟨m, hstep, hlinked⟩ := h.toLinked.offHistory hc
    refine ⟨_, l, by rw [State.step, hstep]; rfl, ⟨hlinked, h.alloc, ?_⟩, h.lt, h.le⟩
    refine Eq.trans (map_congr_left fun w _ => ?_) h.recent
    simp only [State.record, State.offline]
    split <;> rfl
  | freeClient c =>
    obtain ⟨-, hc⟩ := of_decide_eq_true hallowed
    exact ⟨_, l, rfl, ⟨h.toLinked.freeClient hc, h.alloc, h.recent⟩, h.lt, h.le⟩
  | getHistory past nick timelimit =>
    obtain ⟨r, hr⟩ := h.toLinked.getHistory past nick timelimit
    exact ⟨s, l, by rw [State.step, hr]; rfl, h⟩
  | setLength n =>
    obtain ⟨-, hlt⟩ := of_decide_eq_true hallowed
    have hlen : 1 ≤ n ∨ n = 0 ∧ l = [] := by
      refine (of_decide_eq_true hfits).imp_right fun ⟨hn, halloc⟩ => ⟨hn, ?_⟩
      exact List.eq_nil_of_length_eq_zero (h.alloc.symm.trans halloc)
    have hcounted : Counted { s with historyLength := n } l :=
      ⟨⟨h.deque, h.blocks, h.named, h.hash, h.own, h.off⟩, h.alloc, h.recent⟩
    exact hcounted.realloc _ hlt hlen (Nat.lt_succ_of_le h.alloc.ge)

lemma Good.run : (es : List Event) → ∀ {s : State} {l : List Ptr}, Good s l →
    s.Meets (fun s e => s.allowed e && s.fits e) es → ∃ t l', s.run es = some t ∧ Good t l'
  | [], s, l, h, _ => ⟨s, l, rfl, h⟩
  | e :: es, s, l, h, ⟨hcond, hrest⟩ => by
    obtain ⟨hallowed, hfits⟩ := Bool.and_eq_true_iff.mp hcond
    obtain ⟨t, m, ht, hgood⟩ := h.step e hallowed hfits
    obtain ⟨u, k, hu, hgood'⟩ := Good.run es hgood (hrest t ht)
    exact ⟨u, k, by rw [State.run, ht]; exact hu, hgood'⟩

end Counted

/-! ## What the lists say -/

/-- Each entry is on the hash chain of its name, once, and on no other one. -/
def State.Hashed (s : State) (l : List Ptr) : Prop :=
  ∃ chains : ℕ → List Ptr, (∀ b, b < wwMax → s.hash.Path (.head b) (chains b)) ∧ (∀ b, ∀ w ∈ chains b, w ∈ l) ∧
    ∀ w ∈ l, ∀ past, hashWhowasName past (s.whowas w).name < wwMax ∧
      (chains (hashWhowasName past (s.whowas w).name)).count w = 1 ∧
      ∀ b, b ≠ hashWhowasName past (s.whowas w).name → w ∉ chains b

/-- Each entry is on the list of the client that it names, which is online, once, and on no other
one. -/
def State.Owned (s : State) (l : List Ptr) : Prop :=
  ∃ owned : Client → List Ptr, (∀ c, c ∈ s.live → c ∉ s.off → s.own.Path (.head c) (owned c)) ∧
    (∀ c, ∀ w ∈ owned c, w ∈ l) ∧
    ∀ w ∈ l, ∀ c, if (s.whowas w).online = some c then
      c ∈ s.live ∧ c ∉ s.off ∧ (owned c).count w = 1 else w ∉ owned c

/-- The global list is doubly linked from the newest to the oldest entry, which are the last ones that
were added, as many as are counted; there are not more than the length allows; and the entries are
on the other lists. -/
def State.Sound (s : State) : Prop :=
  ∃ l, Dll.IsList s.links s.ww_list l ∧ s.ww_tail = l.getLast? ∧ l.length = s.ww_alloc ∧
    (s.ww_alloc : ℤ) ≤ s.historyLength ∧ l.map s.record = s.log.take s.ww_alloc ∧
    s.Hashed l ∧ s.Owned l

section Sound

variable {s : State} {l : List Ptr}

lemma Linked.hashed (h : Linked s l) : s.Hashed l := by
  obtain ⟨chains, hh, hmem⟩ := h.hash
  refine ⟨chains, hh.path, fun b w hw => ((hmem b w).mp hw).1, fun w hw past => ?_⟩
  obtain ⟨hname, hhashv⟩ := h.named w hw
  rw [hashWhowasName_of_ne past hname]
  refine ⟨hashWhowasName_lt .., ?_, fun b hb hwb => ?_⟩
  · exact List.count_eq_one_of_mem (hh.nodup _) ((hmem _ w).mpr ⟨hw, congrArg some hhashv⟩)
  · exact hb ((some.inj ((hmem b w).mp hwb).2).symm.trans hhashv)

lemma Linked.owned (h : Linked s l) : s.Owned l := by
  obtain ⟨owned, hh, hmem⟩ := h.own
  refine ⟨owned, fun c hc hoff => hh.path c ⟨hc, hoff⟩, fun c w hw => ((hmem c w).mp hw).1,
    fun w hw c => ?_⟩
  split
  case isTrue honline =>
    have hwc := (hmem c w).mpr ⟨hw, honline⟩
    obtain ⟨hlive, hoff⟩ := hh.act_of_mem hwc
    exact ⟨hlive, hoff, List.count_eq_one_of_mem (hh.nodup c) hwc⟩
  case isFalse honline => exact fun hwc => honline ((hmem c w).mp hwc).2

lemma Good.sound (h : Good s l) : s.Sound :=
  ⟨l, h.deque.isList, h.deque.bottom_eq, h.alloc.symm, h.alloc ▸ h.le, h.alloc ▸ h.recent,
    h.toLinked.hashed, h.toLinked.owned⟩

end Sound

/-- **The WHOWAS lists are sound** in every run in which an entry is added when there is room or there are two
entries, and the length is set to at least one, or to zero while there is no entry; and each step is done. -/
theorem history_sound (whowas : Ptr → Whowas) (hnext : Ptr → Option Ptr)
    (hprevp : Ptr → Option (Hlist.Loc ℕ Ptr)) (own : Hlist.Links Client Ptr)
    (links : Ptr → Dll.Links Ptr) (cli_name : Client → Str) (now : ℤ) (es : List Event)
    (hmeets : (State.start whowas hnext hprevp own links cli_name now).Meets
      (fun s e => s.allowed e && s.fits e) es) :
    ∃ s, (State.start whowas hnext hprevp own links cli_name now).run es = some s ∧ s.Sound := by
  obtain ⟨s, l, hs, hgood⟩ := (Good.start whowas hnext hprevp own links cli_name now).run es hmeets
  exact ⟨s, hs, hgood.sound⟩

def sampleStart : State :=
  State.start (fun _ => default) (fun _ => none) (fun _ => none)
    ⟨fun _ => none, fun _ => none, fun _ => none⟩ (fun _ => ⟨none, none⟩) (fun _ => []) 0

/-- With a length of two the oldest entry is used again, and the client exits. -/
theorem history_sound_example : ∃ s, sampleStart.run
      [.setLength 2, .makeClient 0, .setName 0 ['a'], .addHistory 0 true 7, .setName 0 ['b'],
        .addHistory 0 true 8, .setName 0 ['c'], .addHistory 0 true 9, .getHistory [] ['B'] 10,
        .addHistory 0 false 9, .offHistory 0, .freeClient 0, .setLength 1] = some s ∧ s.Sound :=
  history_sound (fun _ => default) (fun _ => none) (fun _ => none)
    ⟨fun _ => none, fun _ => none, fun _ => none⟩ (fun _ => ⟨none, none⟩) (fun _ => []) 0 _
    (by decide +kernel)

/-- With a length of one the entry that is used again stands behind itself; an entry that is added after
the length was zero is linked to freed memory; and none can be added while the length is zero. -/
theorem history_broken : (∃ es, sampleStart.Meets State.allowed es ∧ ∃ s, sampleStart.run es = some s ∧
    ¬s.Sound) ∧ (∃ es e, sampleStart.Meets State.allowed (es ++ [.setLength 0, .setLength 2, e]) ∧
    sampleStart.run (es ++ [.setLength 0, .setLength 2, e]) = none) ∧ ∃ es e,
    sampleStart.Meets State.allowed (.setLength 0 :: es ++ [e]) ∧ sampleStart.run (.setLength 0 :: es ++ [e]) =
    none := by
  refine ⟨⟨[.setLength 1, .makeClient 0, .setName 0 ['a'], .addHistory 0 false 7, .addHistory 0 false 8],
      by decide +kernel, ?_⟩,
    ⟨[.makeClient 0, .setName 0 ['a'], .addHistory 0 true 7], .addHistory 0 false 8, by decide +kernel, ?_⟩,
    ⟨[.makeClient 0, .setName 0 ['a']], .addHistory 0 true 7, by decide +kernel, ?_⟩⟩
  · have heval : (sampleStart.run [.setLength 1, .makeClient 0, .setName 0 ['a'], .addHistory 0 false 7,
        .addHistory 0 false 8]).map (fun s => (s.ww_list, (s.links 7).next)) = some (some 7, some 7) := by
      decide +kernel
    obtain ⟨s, hs, hpair⟩ := Option.map_eq_some_iff.mp heval
    obtain ⟨hlist, hnext⟩ := Prod.mk.inj hpair
    refine ⟨s, hs, fun ⟨l, hl, _⟩ => ?_⟩
    rw [hlist] at hl
    -- the walk from the entry would go through it again
    cases l with
    | nil => exact nomatch hl.chain
    | cons x l =>
      obtain ⟨hx, -, hrest⟩ := hl.chain
      obtain rfl := some.inj hx
      rw [hnext] at hrest
      cases l with
      | nil => exact nomatch hrest
      | cons y l =>
        obtain rfl := some.inj hrest.1
        exact (List.nodup_cons.mp hl.nodup).1 mem_cons_self
  · exact Option.isNone_iff_eq_none.mp (by decide +kernel)
  · exact Option.isNone_iff_eq_none.mp (by decide +kernel)

end Nefarious.History
