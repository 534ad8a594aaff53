import Nefarious.Channel.BanList

/-!
# The second walk through a ban list

The walk first passes the bans that were there, and takes out those that are marked.

Names: `channel.c`.
-/

namespace Nefarious.BanList

open List (append_assoc append_cons append_nil length_map map_append map_cons mem_append mem_append_left
  mem_append_right mem_cons mem_cons_of_mem mem_cons_self mem_map mem_map_of_mem nodup_append nodup_cons
  perm_middle)

open Function (update update_of_ne update_self)

open BanMask Lib.Chains

/-! ### What the processing leaves -/

/-- The bans that stay of those that were there. `mode_process_bans`. -/
def kept (cx : Ctx) (reals : List Rec) : List Rec :=
  if cx.set then reals.filter fun r => !r.2.del else unmarkAll reals

/-- Count bans. `mode_process_bans`. -/
def Counts.plusAll (c : Counts) (rs : List Rec) : Counts := rs.foldl (fun c r => c.plus r.2.mask) c

/-- The new bans that are let in. `mode_process_bans`, `mode_process_excepts`. -/
def letIn (cx : Ctx) (max : ℤ × ℤ) : Counts → List Rec → List Ban
  | _, [] => []
  | c, r :: rs =>
    if r.2.del || refuses cx max (c.plus r.2.mask) r.2.mask then letIn cx max c rs
    else r.2 :: letIn cx max (c.plus r.2.mask) rs

/-- The copy of a ban of the command. `mode_process_bans`. -/
def Ban.copy (b : Ban) : Ban := ⟨setBanMask b.mask.banstr, b.who, b.when, false, false, false⟩

/-- A ban that was there. `mode_process_bans`. -/
structure IsReal (r : Rec) : Prop where
  ptr : ∃ k, r.1 = .heap k
  add : r.2.add = false
  marks : r.2.overlapped = r.2.del

lemma Ban.unmarked_eq : {b : Ban} → b.add = false → b.del = false → b.overlapped = false → b.unmarked = b
  | ⟨_, _, _, _, _, _⟩, rfl, rfl, rfl => rfl

/-- The walk stands before the bans `rest`, behind `cur`. `mode_process_bans`. -/
structure Walking (s : Loop) (cur rest : List Rec) (fl : List Ptr) (i : ℕ) : Prop where
  shows : Shows s.mem (cur ++ rest) fl i
  ban : s.ban = (rest.map Prod.fst).head?
  prev : s.prevban = (cur.map Prod.fst).getLast?

variable {s s' : Loop} {cur temps : List Rec} {fl : List Ptr} {i : ℕ} {r : Rec} {m : Mem}

lemma Walking.pass {rest : List Rec} {b : Ban} (h : Walking s cur (r :: rest) fl i)
    (hmem : s'.mem = s.mem.modify r.1 fun _ => b) (hban : s'.ban = s.mem.next r.1)
    (hprev : s'.prevban = some r.1) : Walking s' (cur ++ [(r.1, b)]) rest fl i := by
  have hpath := h.shows.path
  rw [map_append, map_cons] at hpath
  obtain ⟨hd, hrest⟩ := Path.drop _ hpath
  have hnodup := h.shows.nodup
  rw [map_append, append_assoc, nodup_append] at hnodup
  have hfst : (cur ++ [(r.1, b)] ++ rest).map Prod.fst = (cur ++ r :: rest).map Prod.fst := by simp
  refine ⟨⟨?_, ?_, ?_, ?_, ?_, ?_⟩, ?_, ?_⟩
  · rw [hfst, hmem]
    exact h.shows.path
  · intro r' hr'
    rw [hmem]
    rw [append_assoc, mem_append] at hr'
    obtain hr' | hr' := hr'
    · have hne : r'.1 ≠ r.1 := hnodup.2.2 _ (mem_map_of_mem hr') _ (by simp)
      exact (update_of_ne hne ..).trans (h.shows.bans r' (mem_append_left _ hr'))
    · obtain rfl | hr' := mem_cons.mp hr'
      · exact update_self ..
      · have hne : r'.1 ≠ r.1 := by
          intro e
          refine (nodup_cons.mp hnodup.2.1).1 (mem_append_left _ ?_)
          rw [← e]
          exact mem_map_of_mem hr'
        exact (update_of_ne hne ..).trans (h.shows.bans r' (mem_append_right _ (mem_cons_of_mem _ hr')))
  · rw [hmem]
    exact h.shows.free
  · rw [hfst]
    exact h.shows.nodup
  · rw [hfst, hmem]
    exact h.shows.placed
  · rw [hmem]
    exact h.shows.placedFree
  · rw [hban]
    exact hrest.2.head_eq
  · rw [hprev]
    simp

lemma Walking.clip {rest : List Rec} {k : ℕ} (h : Walking s cur (r :: rest) fl i) (hr : r.1 = .heap k)
    (hmem : s'.mem = (s.mem.setLink s.prevban (s.mem.next r.1)).freeBan r.1) (hban : s'.ban = s.mem.next r.1)
    (hprev : s'.prevban = s.prevban) : Walking s' cur rest (r.1 :: fl) i := by
  have hpath := h.shows.path
  rw [map_append, map_cons] at hpath
  obtain ⟨hd, hrest⟩ := Path.drop _ hpath
  have hnodup := h.shows.nodup
  rw [map_append, map_cons, append_assoc, List.cons_append] at hnodup
  have hperm := perm_middle.nodup_iff.mp hnodup
  obtain ⟨hself, hothers⟩ := nodup_cons.mp hperm
  rw [← append_assoc, ← map_append] at hself hothers
  have hcur : (cur.map Prod.fst ++ rest.map Prod.fst).Nodup := by
    rw [← map_append]
    exact (nodup_append.mp hothers).1
  obtain ⟨hlist, hother⟩ := setLink_path hpath hrest.2 hcur
  obtain ⟨hbans, hfree, halloc⟩ := setLink_rest s.mem (cur.map Prod.fst).getLast? (s.mem.next r.1)
  rw [← h.prev] at hlist hother hbans hfree halloc
  obtain ⟨m, hm⟩ : ∃ m, m = s.mem.setLink s.prevban (s.mem.next r.1) := ⟨_, rfl⟩
  rw [← hm] at hlist hother hbans hfree halloc hmem
  have hplaced : ∀ p ∈ (cur ++ rest).map Prod.fst, p ∈ (cur ++ r :: rest).map Prod.fst := by
    intro p hp
    rw [map_append, mem_append] at hp ⊢
    exact hp.imp_right (mem_cons_of_mem _)
  have hnext : ∀ x, x ≠ r.1 → (m.freeBan r.1).next x = m.next x := fun x hx => update_of_ne hx ..
  refine ⟨⟨?_, fun r' hr' => ?_, ?_, ?_, fun p hp => ?_, fun p hp => ?_⟩, ?_, ?_⟩
  · rw [hmem, map_append]
    refine hlist.congr _ fun x hx => hnext x ?_
    rintro rfl
    exact hself (mem_append_left _ (by rwa [map_append]))
  · rw [hmem, show (m.freeBan r.1).ban = m.ban from rfl, hbans]
    refine h.shows.bans r' ?_
    rw [mem_append] at hr' ⊢
    exact hr'.imp_right (mem_cons_of_mem _)
  · rw [hmem]
    refine ⟨rfl, ?_⟩
    rw [show (m.freeBan r.1).next r.1 = s.mem.freeBans from (update_self ..).trans hfree]
    refine h.shows.free.congr _ fun x hx => ?_
    have hxr : x ≠ r.1 := by
      rintro rfl
      exact hself (mem_append_right _ hx)
    have hxcur : x ∉ cur.map Prod.fst := by
      intro hx'
      refine (nodup_append.mp hothers).2.2 x ?_ x hx rfl
      rw [map_append]
      exact mem_append_left _ hx'
    exact (hnext x hxr).trans (hother x hxcur)
  · exact perm_middle.nodup_iff.mpr (nodup_cons.mpr ⟨hself, hothers⟩)
  · rw [hmem, show (m.freeBan r.1).alloc = m.alloc from rfl, halloc]
    exact h.shows.placed p (hplaced p hp)
  · rw [hmem, show (m.freeBan r.1).alloc = m.alloc from rfl, halloc]
    obtain rfl | hp := mem_cons.mp hp
    · obtain hk | ⟨j, -, hj⟩ := h.shows.placed r.1 (by simp)
      · exact hk
      · exact (nomatch hr.symm.trans hj)
    · exact h.shows.placedFree p hp
  · rw [hban]
    exact hrest.2.head_eq
  · rw [hprev]
    exact h.prev

lemma Walking.run (cx : Ctx) (max : ℤ × ℤ) : (reals : List Rec) →
    ∀ {s : Loop} {cur : List Rec} {fl : List Ptr} {n : ℕ}, Walking s cur (reals ++ temps) fl i →
    (∀ r ∈ reals, IsReal r) →
    ∃ s' fl', Loop.run cx max (reals.length + n) s = Loop.run cx max n s' ∧
      Walking s' (cur ++ kept cx reals) temps fl' i ∧
      s'.counts = s.counts.plusAll (kept cx reals)
  | [], s, cur, fl, n, h, _ => by
    refine ⟨s, fl, by rw [List.length_nil, Nat.zero_add], ?_, ?_⟩
    · rw [kept]
      simpa [unmarkAll] using h
    · rw [kept]
      simp [unmarkAll, Counts.plusAll]
  | r :: reals, s, cur, fl, n, h, hreal => by
    obtain ⟨⟨k, hk⟩, hadd, hmarks⟩ := hreal r mem_cons_self
    have hreals : ∀ r' ∈ reals, IsReal r' := fun r' hr' => hreal r' (mem_cons_of_mem _ hr')
    have hban : s.ban = some r.1 := h.ban
    have hr : s.mem.ban r.1 = r.2 := h.shows.bans r (by simp)
    have hstep : Loop.run cx max ((r :: reals).length + n) s
        = Loop.run cx max (reals.length + n) (s.body cx max r.1) := by
      rw [List.length_cons, Nat.succ_add, Loop.run, hban]
    rw [hstep]
    cases hdel : r.2.del with
    | false =>
      have hbody : s.body cx max r.1 = { s with
          ban := s.mem.next r.1
          prevban := some r.1
          counts := s.counts.plus r.2.mask } := by
        simp only [Loop.body, hr, hdel, hadd, Bool.false_and, Bool.false_eq_true, if_false]
      have hun : r.2.unmarked = r.2 := Ban.unmarked_eq hadd hdel (hmarks.trans hdel)
      have hpass : Walking (s.body cx max r.1) (cur ++ [(r.1, r.2)]) (reals ++ temps) fl i := by
        refine h.pass ?_ (by rw [hbody]) (by rw [hbody])
        rw [hbody, Mem.modify, ← hr, Function.update_eq_self]
      have hkept : kept cx (r :: reals) = r :: kept cx reals := by
        unfold kept unmarkAll
        rw [List.filter_cons_of_pos (by rw [hdel]; rfl), map_cons, hun]
        split <;> rfl
      obtain ⟨s', fl', hrun, hwalk, hcounts⟩ := Walking.run cx max reals (n := n) hpass hreals
      refine ⟨s', fl', hrun, ?_, ?_⟩
      · rwa [hkept, append_cons]
      · rw [hcounts, hkept, hbody]
        rfl
    | true =>
      cases hset : cx.set with
      | true =>
        have hbody : s.body cx max r.1 = { s with
            mem := (s.mem.setLink s.prevban (s.mem.next r.1)).freeBan r.1
            ban := s.mem.next r.1
            changed := true
            mbuf := s.mbuf ++ [(false, r.2.mask.banstr)] } := by
          simp only [Loop.body, hr, hdel, hadd, hset, Bool.and_false, Bool.false_eq_true, if_false, if_true]
        have hclip : Walking (s.body cx max r.1) cur (reals ++ temps) (r.1 :: fl) i :=
          h.clip hk (by rw [hbody]) (by rw [hbody]) (by rw [hbody])
        have hkept : kept cx (r :: reals) = kept cx reals := by
          unfold kept
          rw [if_pos hset, if_pos hset, List.filter_cons_of_neg (by rw [hdel]; exact Bool.false_ne_true)]
        obtain ⟨s', fl', hrun, hwalk, hcounts⟩ := Walking.run cx max reals (n := n) hclip hreals
        refine ⟨s', fl', hrun, by rwa [hkept], ?_⟩
        rw [hcounts, hkept, hbody]
      | false =>
        have hbody : s.body cx max r.1 = { s with
            mem := s.mem.modify r.1 Ban.unmarked
            ban := s.mem.next r.1
            prevban := some r.1
            counts := s.counts.plus r.2.mask
            mbuf := s.mbuf ++ [(false, r.2.mask.banstr)] } := by
          simp only [Loop.body, hr, hdel, hadd, hset, Bool.and_false, Bool.false_eq_true, if_false, if_true]
        have hpass : Walking (s.body cx max r.1) (cur ++ [(r.1, r.2.unmarked)]) (reals ++ temps) fl i := by
          refine h.pass ?_ (by rw [hbody]) (by rw [hbody])
          rw [hbody, Mem.modify, Mem.modify, hr]
        have hkept : kept cx (r :: reals) = (r.1, r.2.unmarked) :: kept cx reals := by
          unfold kept
          rw [hset]
          rfl
        obtain ⟨s', fl', hrun, hwalk, hcounts⟩ := Walking.run cx max reals (n := n) hpass hreals
        refine ⟨s', fl', hrun, ?_, ?_⟩
        · rwa [hkept, append_cons]
        · rw [hcounts, hkept, hbody]
          rfl

lemma Shows.makeBan (h : Shows m cur fl 0) (banstr : Str) :
    ∃ q m' fl', m.makeBan banstr = (q, m') ∧ Shows m' cur fl' 0 ∧ (∃ k < m'.alloc, q = .heap k) ∧
      q ∉ cur.map Prod.fst ++ fl' ∧ m'.ban q = ⟨setBanMask banstr, [], 0, false, false, false⟩ ∧
      ∀ x, x ≠ q → m'.next x = m.next x ∧ m'.ban x = m.ban x := by
  cases hfree : m.freeBans with
  | none =>
    have hfl : fl = [] := by
      have hpath := h.free
      rw [hfree] at hpath
      cases fl with
      | nil => rfl
      | cons p fl => exact (nomatch hpath.1)
    subst hfl
    have hfresh : Ptr.heap m.alloc ∉ cur.map Prod.fst := by
      intro hmem
      obtain ⟨k, hk, he⟩ | ⟨j, hj, -⟩ := h.placed _ hmem
      · injection he with he
        exact absurd hk (he ▸ Nat.lt_irrefl _)
      · exact absurd hj (Nat.not_lt_zero _)
    have hne : ∀ x ∈ cur.map Prod.fst, x ≠ .heap m.alloc := fun x hx e => hfresh (e ▸ hx)
    refine ⟨.heap m.alloc, { m with
        alloc := m.alloc + 1
        next := update m.next (.heap m.alloc) none
        ban := update m.ban (.heap m.alloc) ⟨setBanMask banstr, [], 0, false, false, false⟩ },
      [], by rw [Mem.makeBan, hfree], ⟨?_, ?_, hfree, h.nodup, ?_, nofun⟩,
      ⟨m.alloc, Nat.lt_succ_self _, rfl⟩, by rwa [append_nil], update_self ..,
      fun x hx => ⟨update_of_ne hx .., update_of_ne hx ..⟩⟩
    · exact h.path.congr _ fun x hx => update_of_ne (hne x hx) ..
    · intro r hr
      exact (update_of_ne (hne r.1 (mem_map_of_mem hr)) ..).trans (h.bans r hr)
    · exact fun p hp => (h.placed p hp).imp_left fun ⟨k, hk, hp⟩ => ⟨k, Nat.lt_succ_of_lt hk, hp⟩
  | some q =>
    have hpath := h.free
    rw [hfree] at hpath
    obtain ⟨fl', rfl, hpath'⟩ : ∃ fl', fl = q :: fl' ∧ Path m.next (m.next q) fl' := by
      cases fl with
      | nil => exact (nomatch hpath)
      | cons p fl =>
        obtain ⟨hp, hpath⟩ := hpath
        obtain rfl := Option.some.inj hp
        exact ⟨fl, rfl, hpath⟩
    have hnodup := perm_middle.nodup_iff.mp h.nodup
    obtain ⟨hq, hnodup⟩ := nodup_cons.mp hnodup
    have hne : ∀ x ∈ cur.map Prod.fst ++ fl', x ≠ q := fun x hx e => hq (e ▸ hx)
    refine ⟨q, { m with
        freeBans := m.next q
        next := update m.next q none
        ban := update m.ban q ⟨setBanMask banstr, [], 0, false, false, false⟩ },
      fl', by rw [Mem.makeBan, hfree], ⟨?_, ?_, ?_, hnodup, h.placed, ?_⟩,
      h.placedFree q mem_cons_self, hq, update_self ..,
      fun x hx => ⟨update_of_ne hx .., update_of_ne hx ..⟩⟩
    · exact h.path.congr _ fun x hx => update_of_ne (hne x (mem_append_left _ hx)) ..
    · intro r hr
      have hr' := hne r.1 (mem_append_left _ (mem_map_of_mem hr))
      exact (update_of_ne hr' ..).trans (h.bans r hr)
    · exact hpath'.congr _ fun x hx => update_of_ne (hne x (mem_append_right _ hx)) ..
    · exact fun p hp => h.placedFree p (mem_cons_of_mem _ hp)

lemma Shows.linkCopy (h : Shows m cur fl 0) (b : Ban) : ∃ q fl',
    Shows (m.linkCopy b) ((q, b.copy) :: cur) fl' 0 ∧ ∀ j, (m.linkCopy b).next (.temp j) = m.next (.temp j) ∧
    (m.linkCopy b).ban (.temp j) = m.ban (.temp j) := by
  obtain ⟨q, m', fl', hmake, h', ⟨k, hk, rfl⟩, hq, hban, hother⟩ := h.makeBan b.mask.banstr
  have hne : ∀ x ∈ cur.map Prod.fst ++ fl', x ≠ .heap k := fun x hx e => hq (e ▸ hx)
  obtain ⟨m'', hm''⟩ : ∃ m'', m'' = m.linkCopy b := ⟨_, rfl⟩
  have hdef : m'' = { m' with
      ban := update m'.ban (.heap k) { m'.ban (.heap k) with who := b.who, when := b.when }
      next := update m'.next (.heap k) m'.list
      list := some (.heap k) } := by
    rw [hm'', Mem.linkCopy, hmake]
    rfl
  rw [← hm'']
  refine ⟨.heap k, fl', ⟨?_, ?_, ?_, ?_, ?_, ?_⟩, fun j => ?_⟩
  · have hself : m''.next (.heap k) = m'.list := by
      rw [hdef]
      exact update_self ..
    refine ⟨by rw [hdef], ?_⟩
    show Path m''.next (m''.next (.heap k)) (cur.map Prod.fst)
    rw [hself, hdef]
    exact h'.path.congr _ fun x hx => update_of_ne (hne x (mem_append_left _ hx)) ..
  · intro r hr
    rw [hdef]
    obtain rfl | hr := mem_cons.mp hr
    · refine (update_self ..).trans ?_
      rw [hban]
      rfl
    · have hr' := hne r.1 (mem_append_left _ (mem_map_of_mem hr))
      exact (update_of_ne hr' ..).trans (h'.bans r hr)
  · rw [hdef]
    exact h'.free.congr _ fun x hx => update_of_ne (hne x (mem_append_right _ hx)) ..
  · exact nodup_cons.mpr ⟨hq, h'.nodup⟩
  · rw [hdef]
    intro p hp
    obtain rfl | hp := mem_cons.mp hp
    · exact .inl ⟨k, hk, rfl⟩
    · exact h'.placed p hp
  · rw [hdef]
    exact h'.placedFree
  · have hj : Ptr.temp j ≠ .heap k := nofun
    have hnext : m''.next (.temp j) = m'.next (.temp j) := by
      simp only [hdef, update_of_ne hj]
    have hkeep : m''.ban (.temp j) = m'.ban (.temp j) := by
      simp only [hdef, update_of_ne hj]
    exact ⟨hnext.trans (hother _ hj).1, hkeep.trans (hother _ hj).2⟩

/-- The walk stands before the structures of the command `ts`; without them the list is `cur`. `mode_process_bans`. -/
structure Leaving (s : Loop) (cur ts : List Rec) (fl : List Ptr) : Prop where
  cut : Shows (s.mem.setLink s.prevban none) cur fl 0
  done : ts = [] → Shows s.mem cur fl 0
  rest : Path s.mem.next s.ban (ts.map Prod.fst)
  bans : ∀ r ∈ ts, s.mem.ban r.1 = r.2
  temps : ∀ r ∈ ts, IsTemp r
  nodup : (ts.map Prod.fst).Nodup
  prev : ∀ q ∈ s.prevban, q ∉ ts.map Prod.fst

lemma Shows.setLink_temp (h : Shows m cur fl 0) (j : ℕ) :
    Shows (m.setLink (some (.temp j)) none) cur fl 0 := by
  have hne : ∀ x ∈ cur.map Prod.fst, x ≠ .temp j := by
    rintro x hx rfl
    obtain ⟨k, -, hk⟩ | ⟨i, hi, -⟩ := h.placed _ hx
    · exact (nomatch hk)
    · exact absurd hi (Nat.not_lt_zero _)
  have hneFree : ∀ x ∈ fl, x ≠ .temp j := by
    rintro x hx rfl
    obtain ⟨k, -, hk⟩ := h.placedFree _ hx
    exact (nomatch hk)
  exact ⟨h.path.congr _ fun x hx => update_of_ne (hne x hx) .., h.bans,
    h.free.congr _ fun x hx => update_of_ne (hneFree x hx) .., h.nodup, h.placed, h.placedFree⟩

lemma setLink_setLink (m : Mem) (prev v : Option Ptr) :
    (m.setLink prev v).setLink prev v = m.setLink prev v := by
  cases prev with
  | none => rfl
  | some q =>
    unfold Mem.setLink
    simp only [Function.update_idem]

lemma Leaving.next_eq {ts : List Rec} (h : Leaving s cur ts fl) {p : Ptr}
    (hp : p ∈ ts.map Prod.fst) : (s.mem.setLink s.prevban none).next p = s.mem.next p := by
  cases hprev : s.prevban with
  | none => rfl
  | some q => exact update_of_ne (fun e : p = q => h.prev q hprev (e ▸ hp)) ..

lemma Leaving.leave {cur' ts : List Rec} {fl' : List Ptr} (h : Leaving s cur (r :: ts) fl) (hm : s'.mem = m)
    (hnext : ∀ j, m.next (.temp j) = (s.mem.setLink s.prevban none).next (.temp j))
    (hbans : ∀ j, m.ban (.temp j) = s.mem.ban (.temp j)) (hban : s'.ban = s.mem.next r.1)
    (hshows : Shows m cur' fl' 0)
    (hprev : s'.prevban = some r.1 ∨ s'.prevban = s.prevban ∧ m = s.mem.setLink s.prevban none) :
    Leaving s' cur' ts fl' := by
  obtain ⟨j, hj⟩ := (h.temps r mem_cons_self).ptr
  obtain ⟨hself, hnodup⟩ := nodup_cons.mp h.nodup
  have htemp : ∀ p ∈ ts.map Prod.fst, ∃ i, p = .temp i := by
    intro p hp
    obtain ⟨t, ht, rfl⟩ := mem_map.mp hp
    exact (h.temps t (mem_cons_of_mem _ ht)).ptr
  refine ⟨?_, fun _ => hm ▸ hshows, ?_, fun t ht => ?_, fun t ht => h.temps t (mem_cons_of_mem _ ht),
    hnodup, fun q hq => ?_⟩
  · rw [hm]
    obtain hprev | ⟨hprev, hcut⟩ := hprev
    · rw [hprev, hj]
      exact hshows.setLink_temp j
    · rw [hprev, hcut, setLink_setLink, ← hcut]
      exact hshows
  · rw [hban, hm]
    refine h.rest.2.congr _ fun p hp => ?_
    obtain ⟨i, rfl⟩ := htemp p hp
    exact (hnext i).trans (h.next_eq (mem_cons_of_mem _ hp))
  · obtain ⟨i, hi⟩ := htemp t.1 (mem_map_of_mem ht)
    rw [hm, hi, hbans, ← hi]
    exact h.bans t (mem_cons_of_mem _ ht)
  · obtain hprev | ⟨hprev, -⟩ := hprev
    · rw [hprev] at hq
      obtain rfl := Option.some.inj hq
      exact hself
    · rw [hprev] at hq
      exact fun hmem => h.prev q hq (mem_cons_of_mem _ hmem)

/-- The copies that are linked in, the last one first. `mode_process_bans`. -/
def copies (cx : Ctx) (news : List Ban) : List Ban := if cx.set then (news.map Ban.copy).reverse else []

lemma Leaving.run (cx : Ctx) (max : ℤ × ℤ) : (ts : List Rec) → ∀ {s : Loop} {cur : List Rec}
    {fl : List Ptr} {n : ℕ}, Leaving s cur ts fl → ts.length ≤ n →
    ∃ s' new fl', Loop.run cx max n s = some s' ∧ Shows s'.mem (new ++ cur) fl' 0 ∧
      new.map Prod.snd = copies cx (letIn cx max s.counts ts)
  | [], s, cur, fl, n, h, _ => by
    have hban : s.ban = none := h.rest
    refine ⟨s, [], fl, ?_, h.done rfl, ?_⟩
    · unfold Loop.run
      rw [hban]
    · rw [letIn, copies]
      split <;> rfl
  | r :: ts, s, cur, fl, 0, _, hn => absurd hn (Nat.not_succ_le_zero _)
  | r :: ts, s, cur, fl, n + 1, h, hn => by
    obtain ⟨⟨j, hj⟩, hadd, hmarks⟩ := h.temps r mem_cons_self
    have hr : s.mem.ban r.1 = r.2 := h.bans r mem_cons_self
    have hban : s.ban = some r.1 := h.rest.1
    have hlen : ts.length ≤ n := Nat.le_of_succ_le_succ hn
    have hbans : (s.mem.setLink s.prevban none).ban = s.mem.ban := (setLink_rest ..).1
    have hstep : Loop.run cx max (n + 1) s = Loop.run cx max n (s.body cx max r.1) := by
      rw [Loop.run, hban]
    rw [hstep, letIn]
    cases hdel : r.2.del with
    | true =>
      have hbody : s.body cx max r.1 = { s with
          mem := s.mem.setLink s.prevban none
          ban := s.mem.next r.1 } := by
        simp only [Loop.body, hr, hdel, hadd, Bool.and_self, if_true]
      have hleft : Leaving (s.body cx max r.1) cur ts fl := by
        refine h.leave (m := s.mem.setLink s.prevban none) (by rw [hbody]) (fun _ => rfl)
          (fun _ => by rw [hbans]) (by rw [hbody]) h.cut (Or.inr ⟨by rw [hbody], rfl⟩)
      obtain ⟨s', new, fl', hrun, hshows, hnew⟩ := Leaving.run cx max ts hleft hlen
      refine ⟨s', new, fl', hrun, hshows, ?_⟩
      rw [hnew, hbody]
      rfl
    | false =>
      have hover : r.2.overlapped = false := hmarks.trans hdel
      rw [Bool.false_or]
      cases href : refuses cx max (s.counts.plus r.2.mask) r.2.mask with
      | true =>
        have hbody : s.body cx max r.1 = { s with
            mem := s.mem.setLink s.prevban none
            ban := s.mem.next r.1
            prevban := some r.1 } := by
          simp only [Loop.body, hr, hdel, hadd, hover, href, Bool.false_and, Bool.false_eq_true, if_false,
            if_true]
        have hleft : Leaving (s.body cx max r.1) cur ts fl := by
          refine h.leave (m := s.mem.setLink s.prevban none) (by rw [hbody]) (fun _ => rfl)
            (fun _ => by rw [hbans]) (by rw [hbody]) h.cut (Or.inl (by rw [hbody]))
        obtain ⟨s', new, fl', hrun, hshows, hnew⟩ := Leaving.run cx max ts hleft hlen
        refine ⟨s', new, fl', hrun, hshows, ?_⟩
        rw [hnew, hbody]
        rfl
      | false =>
        have hbody : s.body cx max r.1 =
            { mem := if cx.set then (s.mem.setLink s.prevban none).linkCopy r.2
                else s.mem.setLink s.prevban none
              ban := s.mem.next r.1
              prevban := some r.1
              counts := s.counts.plus r.2.mask
              changed := s.changed || cx.set
              mbuf := s.mbuf ++ [(true, r.2.mask.banstr)] } := by
          simp only [Loop.body, hr, hdel, hadd, hover, href, Bool.false_and, Bool.false_eq_true, if_false,
            if_true]
        cases hset : cx.set with
        | false =>
          have hleft : Leaving (s.body cx max r.1) cur ts fl := by
            refine h.leave (m := s.mem.setLink s.prevban none) (by rw [hbody, hset]; rfl) (fun _ => rfl)
              (fun _ => by rw [hbans]) (by rw [hbody]) h.cut (Or.inl (by rw [hbody]))
          obtain ⟨s', new, fl', hrun, hshows, hnew⟩ := Leaving.run cx max ts hleft hlen
          refine ⟨s', new, fl', hrun, hshows, ?_⟩
          rw [hnew, copies, copies, hset]
          rfl
        | true =>
          obtain ⟨q, fl', hcopy, hothers⟩ := h.cut.linkCopy r.2
          have hleft : Leaving (s.body cx max r.1) ((q, r.2.copy) :: cur) ts fl' := by
            refine h.leave (m := (s.mem.setLink s.prevban none).linkCopy r.2)
              (by rw [hbody, hset]; rfl) (fun i => (hothers i).1)
              (fun i => by rw [(hothers i).2, hbans]) (by rw [hbody]) hcopy (Or.inl (by rw [hbody]))
          obtain ⟨s', new, fl', hrun, hshows, hnew⟩ := Leaving.run cx max ts hleft hlen
          refine ⟨s', new ++ [(q, r.2.copy)], fl', hrun, by rwa [← append_cons], ?_⟩
          rw [map_append, hnew, hbody, copies, copies, hset]
          simp

/-! ### A command -/

lemma Walking.leaving (h : Walking s cur temps fl i)
    (hcur : ∀ r ∈ cur, ∃ k, r.1 = .heap k) (htemps : ∀ r ∈ temps, IsTemp r) : Leaving s cur temps fl := by
  have hpath := h.shows.path
  have hnodup := h.shows.nodup
  rw [map_append] at hpath hnodup
  have hnodup₁ := nodup_append.mp hnodup
  have hnodup₂ := nodup_append.mp hnodup₁.1
  -- the bans that were there are those of the heap
  have hheap : ∀ p ∈ cur.map Prod.fst, ∃ k < s.mem.alloc, p = .heap k := by
    intro p hp
    obtain hk | ⟨j, -, hj⟩ := h.shows.placed p (by rw [map_append]; exact mem_append_left _ hp)
    · exact hk
    · obtain ⟨r, hr, rfl⟩ := mem_map.mp hp
      obtain ⟨k, hk⟩ := hcur r hr
      exact (nomatch hk.symm.trans hj)
  have hend : Path s.mem.next none [] := rfl
  obtain ⟨hlist, hother⟩ := setLink_path hpath hend (by rw [append_nil]; exact hnodup₂.1)
  rw [append_nil, ← h.prev] at hlist
  rw [← h.prev] at hother
  obtain ⟨hbans, hfree, halloc⟩ := setLink_rest s.mem s.prevban none
  have hcurFree : (cur.map Prod.fst ++ fl).Nodup := by
    refine nodup_append.mpr ⟨hnodup₂.1, hnodup₁.2.1, fun x hx y hy => ?_⟩
    exact hnodup₁.2.2 x (mem_append_left _ hx) y hy
  refine ⟨⟨hlist, fun r hr => ?_, ?_, hcurFree, fun p hp => ?_, fun p hp => ?_⟩, fun hnil => ?_, ?_,
    fun r hr => h.shows.bans r (mem_append_right _ hr), htemps, hnodup₂.2.1, fun q hq hmem => ?_⟩
  · rw [hbans]
    exact h.shows.bans r (mem_append_left _ hr)
  · rw [hfree]
    refine h.shows.free.congr _ fun x hx => hother x fun hmem => ?_
    exact hnodup₁.2.2 x (mem_append_left _ hmem) x hx rfl
  · rw [halloc]
    exact .inl (hheap p hp)
  · rw [halloc]
    exact h.shows.placedFree p hp
  · subst hnil
    rw [List.map_nil, append_nil] at hpath
    exact ⟨hpath, fun r hr => h.shows.bans r (mem_append_left _ hr), h.shows.free, hcurFree,
      fun p hp => Or.inl (hheap p hp), h.shows.placedFree⟩
  · obtain ⟨hd, hrest⟩ := Path.drop _ hpath
    rw [h.ban, ← hrest.head_eq]
    exact hrest
  · rw [h.prev] at hq
    exact hnodup₂.2.2 q (List.mem_of_getLast? hq) q hmem rfl

lemma ptr_of_mem_kept {cx : Ctx} {reals : List Rec} (h : ∀ r ∈ reals, IsReal r)
    (hr : r ∈ kept cx reals) : ∃ k, r.1 = .heap k := by
  unfold kept at hr
  split at hr
  · exact (h r (List.mem_filter.mp hr).1).ptr
  · obtain ⟨r', hr', rfl⟩ := mem_map.mp hr
    exact (h r' hr').ptr

lemma Shows.process {reals : List Rec} {n : ℕ} (h : Shows m (reals ++ temps) fl i) (cx : Ctx) (max : ℤ × ℤ)
    (hreals : ∀ r ∈ reals, IsReal r) (htemps : ∀ r ∈ temps, IsTemp r) (hn : reals.length + temps.length ≤ n) :
    ∃ s new fl', processList cx max n m = some s ∧ Shows s.mem (new ++ kept cx reals) fl' 0 ∧ new.map Prod.snd =
    copies cx (letIn cx max ((⟨0, 0, 0⟩ : Counts).plusAll (kept cx reals)) temps) := by
  obtain ⟨k, rfl⟩ := Nat.exists_eq_add_of_le (Nat.le_of_add_right_le hn)
  have hstart : Walking ⟨m, m.list, none, ⟨0, 0, 0⟩, false, []⟩ [] (reals ++ temps) fl i :=
    ⟨h, h.path.head_eq, rfl⟩
  obtain ⟨s, fl', hrun, hwalk, hcounts⟩ := Walking.run cx max (n := k) reals hstart hreals
  have hleft := hwalk.leaving (fun r hr => ptr_of_mem_kept hreals hr) htemps
  obtain ⟨s', new, fl'', hrun', hshows, hnew⟩ := Leaving.run cx max temps hleft (Nat.le_of_add_le_add_left hn)
  refine ⟨s', new, fl'', hrun.trans hrun', hshows, ?_⟩
  rw [hnew, hcounts]

/-- The bans that were there, with the marks of a command. `mode_parse_ban`. -/
def marked (rs : List Rec) (es : List Entry) : List Rec :=
  (unmarkAll rs).map fun r => (r.1, markAll (applied 0 (unmarkAll rs) es) r.2)

/-- The structures of a command that are linked behind the list. `mode_parse_ban`. -/
def linked (rs : List Rec) (es : List Entry) : List Rec := (readEntries 0 (unmarkAll rs) es).drop rs.length

/-- The new bans of a command that are let in. `mode_process_bans`. -/
def accepted (cx : Ctx) (max : ℤ × ℤ) (rs : List Rec) (es : List Entry) : List Ban :=
  letIn cx max ((⟨0, 0, 0⟩ : Counts).plusAll (kept cx (marked rs es))) (linked rs es)

lemma readEntries_eq (rs : List Rec) (es : List Entry) :
    readEntries 0 (unmarkAll rs) es = marked rs es ++ linked rs es ∧ ∀ r ∈ linked rs es, IsTemp r := by
  have hnil : ∀ r ∈ ([] : List Rec), IsTemp r := List.forall_mem_nil _
  obtain ⟨temps, heq, htemps⟩ := @readEntries_append es 0 (unmarkAll rs) [] hnil
  rw [append_nil] at heq
  have hlinked : linked rs es = temps := by
    rw [linked, heq]
    refine List.drop_left' ?_
    rw [length_map, unmarkAll, length_map]
  rw [hlinked]
  exact ⟨heq, htemps⟩

lemma length_readEntries_le : (es : List Entry) → ∀ (i : ℕ) (rs : List Rec),
    (readEntries i rs es).length ≤ rs.length + es.length
  | [], _, _ => Nat.le_refl _
  | e :: es, i, rs => by
    rw [readEntries, List.length_cons]
    cases prettyExtmask e.arg with
    | none => exact Nat.le_succ_of_le (length_readEntries_le es i rs)
    | some pmask =>
      have happly := length_applyEntry_le rs (.temp i) (e.ban pmask)
      have hrest := length_readEntries_le es (i + 1) (applyEntry rs (.temp i) (e.ban pmask))
      refine Nat.le_trans hrest ?_
      omega

lemma isReal_of_mem_marked {rs : List Rec} {es : List Entry} (h : ∀ r ∈ rs, ∃ k, r.1 = .heap k)
    (hr : r ∈ marked rs es) : IsReal r := by
  obtain ⟨r', hr', rfl⟩ := mem_map.mp hr
  obtain ⟨r'', hr'', rfl⟩ := mem_map.mp hr'
  refine ⟨h r'' hr'', ?_, ?_⟩ <;>
  · rw [markAll_eq]
    split <;> rfl

lemma Shows.modeList {m : Mem} {rs : List Rec} {fl : List Ptr} {n : ℕ} {es : List Entry} (h : Shows m rs fl 0)
    (cx : Ctx) (max : ℤ × ℤ) (hn : rs.length + es.length ≤ n) (hany : es.any Entry.parsed) : ∃ t new fl',
    modeList cx max n m es = some t ∧ Shows t (new ++ kept cx (marked rs es)) fl' 0 ∧ new.map Prod.snd =
    copies cx (accepted cx max rs es) := by
  have hheap : ∀ r ∈ rs, ∃ k, r.1 = .heap k := by
    intro r hr
    obtain ⟨k, -, hk⟩ | ⟨j, hj, -⟩ := h.placed r.1 (mem_map_of_mem hr)
    · exact ⟨k, hk⟩
    · exact absurd hj (Nat.not_lt_zero _)
  obtain ⟨s, hparse, hclean, hread⟩ := Shows.parseAll (s := ⟨m, 0, false⟩) es h rfl hn hany
  obtain ⟨heq, htemps⟩ := readEntries_eq rs es
  have hlen : (marked rs es).length + (linked rs es).length ≤ n := by
    rw [← List.length_append, ← heq]
    refine Nat.le_trans (length_readEntries_le es 0 _) ?_
    rwa [unmarkAll, length_map]
  rw [heq] at hread
  obtain ⟨s', new, fl', hprocess, hshows, hnew⟩ := hread.process cx max
    (fun r hr => isReal_of_mem_marked hheap hr) htemps hlen
  refine ⟨s'.mem, new, fl', ?_, hshows, hnew⟩
  rw [BanList.modeList, hparse, Option.bind_some, if_pos hclean, hprocess]
  rfl

end Nefarious.BanList
