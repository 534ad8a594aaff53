import Nefarious.Silence

/-!
# The limits of a silence list

When the updates of a SILENCE command have been linked, the code counts the silences that were there and stay,
and walks over the updates.
-/

namespace Nefarious.Silence

open List (append_assoc append_nil filter_append filter_congr filter_cons_of_neg filter_cons_of_pos filter_map
  foldl_cons map_append map_cons mem_append_left mem_append_right mem_cons mem_cons_of_mem mem_cons_self
  mem_filter mem_map mem_map_of_mem nil_append nodup_append nodup_cons)

open BanMask Lib.Chains

/-! ### The limits -/

/-- The entries that are not marked. `m_silence.c` `forward_silences`. -/
def active (rs : List Rec) : List Rec := rs.filter fun r => !r.2.del

/-- Count entries. `m_silence.c` `forward_silences`. -/
def counted (rs : List Rec) : Count := rs.foldl (fun c r => c.plus r.2) ⟨0, 0⟩

/-- Those for which there is no room. `m_silence.c` `forward_silences`. -/
def noRoom (cx : Ctx) : Count → List Rec → List ℕ
  | _, [] => []
  | c, r :: rs => if c.exceeds cx r.2 then r.1 :: noRoom cx c rs else noRoom cx (c.plus r.2) rs

/-- The updates that a local user's limits refuse. `m_silence.c` `forward_silences`. -/
def refusals (cx : Ctx) (s : Linked) : List ℕ :=
  if cx.myUser then
    noRoom cx (counted ((active s.list).filter fun r => !r.2.add)) ((active s.list).filter fun r => r.2.add)
  else []

lemma noRoom_subset (cx : Ctx) : (rs : List Rec) → ∀ (c : Count), ∀ p ∈ noRoom cx c rs, p ∈ rs.map Prod.fst
  | [], _, _, hp => absurd hp List.not_mem_nil
  | r :: rs, c, p, hp => by
    rw [noRoom] at hp
    split at hp
    · rcases mem_cons.mp hp with rfl | hp
      · exact mem_cons_self
      · exact mem_cons_of_mem _ (noRoom_subset cx rs c p hp)
    · exact mem_cons_of_mem _ (noRoom_subset cx rs _ p hp)

/-- The accepted updates that are still to be looked at; those of them that are linked, and not marked. -/
structure Pending (m : Mem) (ps : List ℕ) (fresh : List Rec) : Prop where
  nodup : ps.Nodup
  marks : ∀ p ∈ ps, (m.ban p).overlapped = true → (m.ban p).del = true
  left : (ps.filter fun p => !(m.ban p).del) = fresh.map Prod.fst
  bans : ∀ r ∈ fresh, m.ban r.1 = r.2

section Pending

variable {m : Mem} {p : ℕ} {ps : List ℕ} {fresh : List Rec}

lemma Pending.skip (h : Pending m (p :: ps) fresh) (hdel : (m.ban p).del = true) : Pending m ps fresh := by
  have hfresh := h.left
  rw [filter_cons_of_neg (by simp [hdel])] at hfresh
  exact ⟨(nodup_cons.mp h.nodup).2, fun q hq => h.marks q (mem_cons_of_mem _ hq), hfresh, h.bans⟩

lemma Pending.take (h : Pending m (p :: ps) fresh) (hdel : (m.ban p).del = false) :
    ∃ fresh', fresh = (p, m.ban p) :: fresh' ∧ Pending m ps fresh' ∧ p ∉ fresh'.map Prod.fst := by
  have hfresh := h.left
  rw [filter_cons_of_pos (by simp [hdel])] at hfresh
  cases hf : fresh with
  | nil =>
    rw [hf] at hfresh
    exact (nomatch hfresh)
  | cons r fresh' =>
    rw [hf, map_cons, List.cons.injEq] at hfresh
    have hban := h.bans r (by rw [hf]; exact mem_cons_self)
    have hr : r = (p, m.ban p) := by
      rw [hfresh.1, hban]
    refine ⟨fresh', by rw [hr], ?_, ?_⟩
    · refine ⟨(nodup_cons.mp h.nodup).2, fun q hq => h.marks q (mem_cons_of_mem _ hq), hfresh.2, ?_⟩
      intro r' hr'
      exact h.bans r' (by rw [hf]; exact mem_cons_of_mem _ hr')
    · rw [← hfresh.2]
      intro hmem
      exact (nodup_cons.mp h.nodup).1 (mem_filter.mp hmem).1

lemma Pending.of_ban {m' : Mem} (h : Pending m ps fresh) (hban : m'.ban = m.ban) : Pending m' ps fresh := by
  constructor
  · exact h.nodup
  · rw [hban]
    exact h.marks
  · rw [hban]
    exact h.left
  · rw [hban]
    exact h.bans

lemma Pending.del_eq (h : Pending m ps fresh) : ∀ q ∈ fresh.map Prod.fst, (m.ban q).del = false := by
  intro q hq
  rw [← h.left] at hq
  simpa using (mem_filter.mp hq).2

end Pending

lemma Holds.cut {m : Mem} {pre post : List Rec} (h : Holds m (pre ++ post)) :
    Holds (m.setLink (pre.map Prod.fst).getLast? none) pre := by
  have hnodup := h.nodup
  rw [map_append] at hnodup
  have hpre : ((pre ++ []).map Prod.fst).Nodup := by
    rw [append_nil]
    exact (nodup_append.mp hnodup).1
  have hcut := @Holds.setLink m pre post [] none h rfl hpre (fun r hr => absurd hr List.not_mem_nil)
  rwa [append_nil] at hcut

lemma Holds.setLink_other {m : Mem} {rs : List Rec} {q : ℕ} (h : Holds m rs) (hq : q ∉ rs.map Prod.fst)
    (v : Option ℕ) : Holds (m.setLink (some q) v) rs := by
  constructor
  · exact h.path.congr _ fun p hp => Function.update_of_ne (ne_of_mem_of_not_mem hp hq) ..
  · exact h.bans
  · exact h.nodup
  · exact h.lt

/-- What the limits leave of the updates: the flags stay, and the accepted ones are those that are not
refused. -/
structure Checked (s t : Limit) (ps refused : List ℕ) : Prop where
  ban : t.mem.ban = s.mem.ban
  alloc : t.mem.alloc = s.mem.alloc
  accepted : t.accepted = s.accepted ++ ps.filter (· ∉ refused)
  refused : t.refused = s.refused ++ refused

section Loop

variable {cx : Ctx} {s t : Limit} {p : ℕ} {ps refused : List ℕ}

lemma Limit.step_skip (h : (s.mem.ban p).del = true) :
    s.step cx p = { s with accepted := s.accepted ++ [p] } := by
  simp [Limit.step, h]

lemma Limit.step_refuse (hdel : (s.mem.ban p).overlapped = false ∧ (s.mem.ban p).del = false)
    (h : s.count.exceeds cx (s.mem.ban p) = true) :
    s.step cx p = { s with
      mem := (s.mem.setLink s.plast none).freeBan p
      refused := s.refused ++ [p] } := by
  simp [Limit.step, hdel, h]

lemma Limit.step_keep (hdel : (s.mem.ban p).overlapped = false ∧ (s.mem.ban p).del = false)
    (h : s.count.exceeds cx (s.mem.ban p) = false) :
    s.step cx p = { s with
      count := s.count.plus (s.mem.ban p)
      plast := some p
      accepted := s.accepted ++ [p] } := by
  simp [Limit.step, hdel, h]

lemma Checked.keep {s' : Limit} (h : Checked s' t ps refused) (hban : s'.mem.ban = s.mem.ban)
    (halloc : s'.mem.alloc = s.mem.alloc) (haccepted : s'.accepted = s.accepted ++ [p])
    (hrefused : s'.refused = s.refused) (hp : p ∉ refused) : Checked s t (p :: ps) refused := by
  constructor
  · exact h.ban.trans hban
  · exact h.alloc.trans halloc
  · rw [h.accepted, haccepted, append_assoc, filter_cons_of_pos (by simpa using hp)]
    rfl
  · rw [h.refused, hrefused]

lemma Checked.refuse {s' : Limit} (h : Checked s' t ps refused) (hban : s'.mem.ban = s.mem.ban)
    (halloc : s'.mem.alloc = s.mem.alloc) (haccepted : s'.accepted = s.accepted)
    (hrefused : s'.refused = s.refused ++ [p]) (hp : p ∉ ps) : Checked s t (p :: ps) (p :: refused) := by
  have hrest : ps.filter (· ∉ p :: refused) = ps.filter (· ∉ refused) := by
    refine filter_congr fun q hq => ?_
    have hne : q ≠ p := ne_of_mem_of_not_mem hq hp
    simp [hne]
  constructor
  · exact h.ban.trans hban
  · exact h.alloc.trans halloc
  · rw [h.accepted, haccepted, filter_cons_of_neg (by simp), hrest]
  · rw [h.refused, hrefused, append_assoc]
    rfl

/-- **Once one has been dropped the list stays**, whatever is let in or dropped. -/
theorem Limit.run_cut (cx : Ctx) {pre : List Rec} : (ps : List ℕ) → ∀ {s : Limit} {fresh : List Rec},
    Holds s.mem pre →
    (s.plast = (pre.map Prod.fst).getLast? ∨ ∃ q, s.plast = some q ∧ q ∉ pre.map Prod.fst) →
    Pending s.mem ps fresh → (∀ p ∈ fresh.map Prod.fst, p ∉ pre.map Prod.fst) →
    Holds (ps.foldl (Limit.step cx) s).mem pre ∧
      Checked s (ps.foldl (Limit.step cx) s) ps (noRoom cx s.count fresh)
  | [], s, fresh, h, _, hpend, _ => by
    have hnil : fresh = [] := List.map_eq_nil_iff.mp hpend.left.symm
    rw [hnil]
    exact ⟨h, rfl, rfl, (append_nil _).symm, (append_nil _).symm⟩
  | p :: ps, s, fresh, h, hlast, hpend, hout => by
    rw [foldl_cons]
    cases hdel : (s.mem.ban p).del
    · have hover : (s.mem.ban p).overlapped = false := by
        rw [Bool.eq_false_iff]
        intro ho
        rw [hpend.marks p mem_cons_self ho] at hdel
        contradiction
      obtain ⟨fresh', rfl, hrest, hp⟩ := hpend.take hdel
      have hpre : p ∉ pre.map Prod.fst := hout p mem_cons_self
      have hout' : ∀ q ∈ fresh'.map Prod.fst, q ∉ pre.map Prod.fst := fun q hq =>
        hout q (mem_cons_of_mem _ hq)
      rw [noRoom]
      cases hfull : s.count.exceeds cx (s.mem.ban p)
      · rw [Limit.step_keep ⟨hover, hdel⟩ hfull, if_neg Bool.false_ne_true]
        obtain ⟨hholds, hchecked⟩ := Limit.run_cut cx ps (s := { s with
            count := s.count.plus (s.mem.ban p)
            plast := some p
            accepted := s.accepted ++ [p] }) h (Or.inr ⟨p, rfl, hpre⟩) hrest hout'
        exact ⟨hholds, hchecked.keep rfl rfl rfl rfl fun hmem => hp (noRoom_subset cx _ _ p hmem)⟩
      · rw [Limit.step_refuse ⟨hover, hdel⟩ hfull, if_pos rfl]
        have hcut : Holds (s.mem.setLink s.plast none) pre := by
          rcases hlast with hlast | ⟨q, hlast, hq⟩
          · have hwhole : Holds s.mem (pre ++ []) := by
              rw [append_nil]
              exact h
            rw [hlast]
            exact hwhole.cut
          · rw [hlast]
            exact h.setLink_other hq none
        obtain ⟨hholds, hchecked⟩ := Limit.run_cut cx ps (s := { s with
            mem := (s.mem.setLink s.plast none).freeBan p
            refused := s.refused ++ [p] }) (hcut.freeBan hpre) hlast (hrest.of_ban rfl) hout'
        exact ⟨hholds, hchecked.refuse rfl rfl rfl rfl (nodup_cons.mp hpend.nodup).1⟩
    · rw [Limit.step_skip hdel]
      have hp : p ∉ noRoom cx s.count fresh := by
        intro hmem
        rw [hpend.del_eq p (noRoom_subset cx _ _ p hmem)] at hdel
        contradiction
      obtain ⟨hholds, hchecked⟩ := Limit.run_cut cx ps (s := { s with accepted := s.accepted ++ [p] })
        h hlast (hpend.skip hdel) hout
      exact ⟨hholds, hchecked.keep rfl rfl rfl rfl hp⟩

lemma active_append (rs rs' : List Rec) : active (rs ++ rs') = active rs ++ active rs' := filter_append ..

/-- **The list ends in front of the first that is dropped**. -/
theorem Limit.run (cx : Ctx) : (ps : List ℕ) → ∀ {s : Limit} {pre post fresh : List Rec},
    Holds s.mem (pre ++ post) → s.plast = (pre.map Prod.fst).getLast? → active post = fresh →
    Pending s.mem ps fresh →
    ∃ chain, Holds (ps.foldl (Limit.step cx) s).mem chain ∧ chain <+: pre ++ post ∧
      active chain = active pre ++ fresh.takeWhile (·.1 ∉ noRoom cx s.count fresh) ∧
      Checked s (ps.foldl (Limit.step cx) s) ps (noRoom cx s.count fresh)
  | [], s, pre, post, fresh, h, _, hactive, hpend => by
    have hnil : fresh = [] := List.map_eq_nil_iff.mp hpend.left.symm
    refine ⟨pre ++ post, h, List.prefix_rfl, ?_, ?_⟩
    · rw [active_append, hactive, hnil]
      rfl
    · rw [hnil]
      exact ⟨rfl, rfl, (append_nil _).symm, (append_nil _).symm⟩
  | p :: ps, s, pre, post, fresh, h, hlast, hactive, hpend => by
    rw [foldl_cons]
    cases hdel : (s.mem.ban p).del
    · have hover : (s.mem.ban p).overlapped = false := by
        rw [Bool.eq_false_iff]
        intro ho
        rw [hpend.marks p mem_cons_self ho] at hdel
        contradiction
      obtain ⟨fresh', rfl, hrest, hp⟩ := hpend.take hdel
      -- what stands between the last one that was let in and this one is marked
      obtain ⟨marked, post', rfl, hmarked, hkeep, hactive'⟩ := List.filter_eq_cons_iff.mp hactive
      have hnodup := h.nodup
      rw [map_append, map_append, nodup_append] at hnodup
      rw [noRoom]
      cases hfull : s.count.exceeds cx (s.mem.ban p)
      · rw [Limit.step_keep ⟨hover, hdel⟩ hfull, if_neg Bool.false_ne_true]
        have hmove : pre ++ (marked ++ (p, s.mem.ban p) :: post') =
            (pre ++ marked ++ [(p, s.mem.ban p)]) ++ post' := by simp
        rw [hmove] at h ⊢
        obtain ⟨chain, hholds, hstart, hchain, hchecked⟩ := Limit.run cx ps (s := { s with
            count := s.count.plus (s.mem.ban p)
            plast := some p
            accepted := s.accepted ++ [p] }) h (by simp) hactive' hrest
        have hnot : p ∉ noRoom cx (s.count.plus (s.mem.ban p)) fresh' := fun hmem =>
          hp (noRoom_subset cx _ _ p hmem)
        have hnone : active marked = [] := by
          rw [active, List.filter_eq_nil_iff]
          exact hmarked
        refine ⟨chain, hholds, hstart, ?_, hchecked.keep rfl rfl rfl rfl hnot⟩
        have hone : active [(p, s.mem.ban p)] = [(p, s.mem.ban p)] := filter_cons_of_pos hkeep
        rw [hchain, List.takeWhile_cons_of_pos (by simpa using hnot), active_append, active_append, hnone,
          hone, append_nil, append_assoc]
        rfl
      · rw [Limit.step_refuse ⟨hover, hdel⟩ hfull, if_pos rfl]
        have hsub : ∀ q ∈ ((p, s.mem.ban p) :: fresh').map Prod.fst, q ∉ pre.map Prod.fst := by
          intro q hq hmem
          rw [← hactive] at hq
          obtain ⟨r, hr, rfl⟩ := mem_map.mp hq
          have hpost := mem_map_of_mem (f := Prod.fst) (mem_filter.mp hr).1
          rw [map_append] at hpost
          exact hnodup.2.2 r.1 hmem r.1 hpost rfl
        have hcut : Holds ((s.mem.setLink s.plast none).freeBan p) pre := by
          rw [hlast]
          exact h.cut.freeBan (hsub p mem_cons_self)
        obtain ⟨hholds, hchecked⟩ := Limit.run_cut cx ps (s := { s with
            mem := (s.mem.setLink s.plast none).freeBan p
            refused := s.refused ++ [p] }) hcut (Or.inl hlast) (hrest.of_ban rfl)
          (fun q hq => hsub q (mem_cons_of_mem _ hq))
        refine ⟨pre, hholds, List.prefix_append _ _, ?_,
          hchecked.refuse rfl rfl rfl rfl (nodup_cons.mp hpend.nodup).1⟩
        rw [List.takeWhile_cons_of_neg (by simp), append_nil]
    · rw [Limit.step_skip hdel]
      have hp : p ∉ noRoom cx s.count fresh := by
        intro hmem
        rw [hpend.del_eq p (noRoom_subset cx _ _ p hmem)] at hdel
        contradiction
      obtain ⟨chain, hholds, hstart, hchain, hchecked⟩ := Limit.run cx ps
        (s := { s with accepted := s.accepted ++ [p] }) h hlast hactive (hpend.skip hdel)
      exact ⟨chain, hholds, hstart, hchain, hchecked.keep rfl rfl rfl rfl hp⟩

end Loop

lemma countSiles_flagged {m : Mem} {l l' : List ℕ} (h : ∀ q ∈ l', (m.ban q).flagged = true) :
    countSiles m (l ++ l') = countSiles m l := by
  rw [countSiles, countSiles, List.foldl_append]
  induction l' generalizing l with
  | nil => rfl
  | cons q l' ih =>
    rw [foldl_cons, if_pos (h q mem_cons_self)]
    exact ih fun q' hq' => h q' (mem_cons_of_mem _ hq')

/-- **The silences that were there are counted**, and `plast` is behind the last of those that stay. -/
theorem countSiles_eq {m : Mem} {olds : List Rec} (hbans : ∀ r ∈ olds, m.ban r.1 = r.2)
    (hadd : ∀ r ∈ olds, r.2.add = false) (hmarks : ∀ r ∈ olds, r.2.overlapped = r.2.del) :
    ∃ pre post, olds = pre ++ post ∧ active post = [] ∧
      countSiles m (olds.map Prod.fst) = (counted (active olds), (pre.map Prod.fst).getLast?) := by
  induction olds using List.reverseRecOn with
  | nil => exact ⟨[], [], rfl, rfl, rfl⟩
  | append_singleton olds r ih =>
    have hsub : ∀ r' ∈ olds, r' ∈ olds ++ [r] := fun r' hr' => mem_append_left _ hr'
    have hr : r ∈ olds ++ [r] := mem_append_right _ mem_cons_self
    obtain ⟨pre, post, holds, hpost, hcount⟩ := ih (fun r' hr' => hbans r' (hsub r' hr'))
      (fun r' hr' => hadd r' (hsub r' hr')) (fun r' hr' => hmarks r' (hsub r' hr'))
    have hflag : (m.ban r.1).flagged = r.2.del := by
      rw [hbans r hr, Ban.flagged, hadd r hr, hmarks r hr, Bool.or_false, Bool.or_self]
    have hstep : countSiles m ((olds ++ [r]).map Prod.fst) =
        if r.2.del then countSiles m (olds.map Prod.fst)
        else ((countSiles m (olds.map Prod.fst)).1.plus r.2, some r.1) := by
      rw [countSiles, map_append, List.foldl_append, List.map_singleton, foldl_cons, List.foldl_nil,
        hflag, hbans r hr]
      rfl
    rw [hstep, hcount, active_append]
    cases hdel : r.2.del
    · have hone : active [r] = [r] := filter_cons_of_pos (by simp [hdel])
      refine ⟨olds ++ [r], [], (append_nil _).symm, rfl, ?_⟩
      rw [hone, counted, counted, List.foldl_append]
      simp
    · have hone : active [r] = [] := filter_cons_of_neg (by simp [hdel])
      refine ⟨pre, post ++ [r], ?_, ?_, ?_⟩
      · rw [holds, append_assoc]
      · rw [active_append, hpost, hone, append_nil]
      · rw [hone, append_nil, if_pos rfl]

lemma Reading.pending {m : Mem} {s : Linked} (h : Reading m s) {olds news : List Rec}
    (hlist : s.list = olds ++ news)
    (hids : news.map Prod.fst = (s.accepted.filter fun r => r.2.add).map Prod.fst) :
    Pending m (s.accepted.map Prod.fst) (active news) := by
  have hbans : ∀ r ∈ news, m.ban r.1 = r.2 := fun r hr => h.holds.bans r (hlist ▸ mem_append_right _ hr)
  constructor
  · exact h.distinct
  · intro p hp hover
    obtain ⟨r, hr, rfl⟩ := mem_map.mp hp
    cases hadd : r.2.add
    · obtain ⟨hdel, -, hban⟩ := h.removals r hr hadd
      rw [hban]
      exact hdel
    · have hmem : r.1 ∈ news.map Prod.fst := by
        rw [hids]
        exact mem_map_of_mem (mem_filter.mpr ⟨hr, hadd⟩)
      obtain ⟨r', hr', heq⟩ := mem_map.mp hmem
      rw [← heq, hbans r' hr'] at hover ⊢
      rw [← h.marks r' (hlist ▸ mem_append_right _ hr')]
      exact hover
  · -- those that remove are marked by themselves
    have hremovals : s.accepted.filter (fun r => !(m.ban r.1).del) =
        (s.accepted.filter fun r => r.2.add).filter fun r => !(m.ban r.1).del := by
      rw [List.filter_filter]
      refine filter_congr fun r hr => ?_
      cases hadd : r.2.add
      · obtain ⟨hdel, -, hban⟩ := h.removals r hr hadd
        rw [hban, hdel]
        rfl
      · rw [Bool.and_true]
    have hnews : (news.map Prod.fst).filter (fun p => !(m.ban p).del) = (active news).map Prod.fst := by
      rw [filter_map, active]
      refine congrArg _ (filter_congr fun r hr => ?_)
      rw [Function.comp_apply, hbans r hr]
    rw [← hnews, hids, filter_map, filter_map]
    exact congrArg _ hremovals
  · intro r hr
    exact hbans r (mem_filter.mp hr).1

lemma active_parts {olds news : List Rec} (holds : ∀ r ∈ olds, r.2.add = false)
    (hnews : ∀ r ∈ news, r.2.add = true) : (active (olds ++ news)).filter (fun r => !r.2.add) = active olds ∧
    (active (olds ++ news)).filter (fun r => r.2.add) = active news := by
  have hold : ∀ r ∈ active olds, r.2.add = false := fun r hr => holds r (mem_filter.mp hr).1
  have hnew : ∀ r ∈ active news, r.2.add = true := fun r hr => hnews r (mem_filter.mp hr).1
  rw [active_append, filter_append, filter_append]
  constructor
  · rw [List.filter_eq_self.mpr (by simpa using hold), List.filter_eq_nil_iff.mpr (by simpa using hnew),
      append_nil]
  · rw [List.filter_eq_nil_iff.mpr (by simpa using hold), List.filter_eq_self.mpr (by simpa using hnew),
      nil_append]

lemma Reading.checkLimits {m : Mem} {s : Linked} (h : Reading m s) (cx : Ctx) :
    ∃ t chain, checkLimits cx m (s.accepted.map Prod.fst) = some t ∧ Holds t.mem chain ∧ chain <+: s.list ∧
      active chain = (active s.list).takeWhile (·.1 ∉ refusals cx s) ∧ t.mem.ban = m.ban ∧
      t.accepted = (s.accepted.map Prod.fst).filter (· ∉ refusals cx s) ∧ t.refused = refusals cx s := by
  rw [Silence.checkLimits, refusals]
  cases hmy : cx.myUser
  · refine ⟨_, s.list, rfl, h.holds, List.prefix_rfl, ?_, rfl, ?_, rfl⟩
    · symm
      rw [List.takeWhile_eq_self_iff]
      simp
    · symm
      rw [List.filter_eq_self]
      simp
  rw [if_pos rfl, if_pos rfl, h.holds.list_eq, Option.map_some]
  obtain ⟨olds, news, hlist, holds, hnews, hids⟩ := h.parts
  have hbans : ∀ r ∈ olds ++ news, m.ban r.1 = r.2 := hlist ▸ h.holds.bans
  have hmarks : ∀ r ∈ olds ++ news, r.2.overlapped = r.2.del := hlist ▸ h.marks
  obtain ⟨pre, post, hsplit, hpost, hcount⟩ := countSiles_eq (fun r hr => hbans r (mem_append_left _ hr)) holds
    (fun r hr => hmarks r (mem_append_left _ hr))
  have hflagged : ∀ q ∈ news.map Prod.fst, (m.ban q).flagged = true := by
    intro q hq
    obtain ⟨r, hr, rfl⟩ := mem_map.mp hq
    rw [hbans r (mem_append_right _ hr), Ban.flagged, hnews r hr, Bool.or_true, Bool.true_or]
  have hcounted : countSiles m (s.list.map Prod.fst) =
      (counted (active olds), (pre.map Prod.fst).getLast?) := by
    rw [hlist, map_append, countSiles_flagged hflagged, hcount]
  obtain ⟨hold, hnew⟩ := active_parts holds hnews
  rw [← hlist] at hold hnew
  have hwhole : Holds m (pre ++ (post ++ news)) := by
    rw [← append_assoc, ← hsplit, ← hlist]
    exact h.holds
  have hactive : active (post ++ news) = active news := by
    rw [active_append, hpost, nil_append]
  have hpending := h.pending hlist hids
  rw [hcounted, hold, hnew]
  obtain ⟨chain, hholds, hstart, hchain, hban, -, haccepted, hrefused⟩ := Limit.run cx
    (s.accepted.map Prod.fst) (s := ⟨m, counted (active olds), (pre.map Prod.fst).getLast?, [], []⟩)
    hwhole rfl hactive hpending
  refine ⟨_, chain, rfl, hholds, ?_, ?_, hban, ?_, ?_⟩
  · rw [hlist, hsplit, append_assoc]
    exact hstart
  · have hpre : ∀ r ∈ active pre, decide (r.1 ∉ noRoom cx (counted (active olds)) (active news)) = true := by
      intro r hr
      rw [decide_eq_true_eq]
      intro hmem
      have hnodup := hwhole.nodup
      rw [← append_assoc, map_append, nodup_append] at hnodup
      have hold := mem_map_of_mem (f := Prod.fst) (mem_filter.mp hr).1
      obtain ⟨r', hr', heq⟩ := mem_map.mp (noRoom_subset cx _ _ _ hmem)
      refine hnodup.2.2 r.1 ?_ r'.1 (mem_map_of_mem (mem_filter.mp hr').1) heq.symm
      rw [map_append]
      exact mem_append_left _ hold
    have hall : active s.list = active pre ++ active news := by
      rw [hlist, hsplit, active_append, active_append, hpost, append_nil]
    rw [hchain, hall, List.takeWhile_append_of_pos hpre]
  · rw [haccepted, nil_append]
  · rw [hrefused, nil_append]

/-! ### The end of the command -/

/-- An entry whose addition is over. `m_silence.c` `forward_silences`. -/
def Ban.settled (b : Ban) : Ban := { b with add := false }

/-- What the sweep has written: nothing but `BAN_ADD`. -/
structure Swept (m m' : Mem) : Prop where
  ban : ∀ p, m'.ban p = m.ban p ∨ m'.ban p = (m.ban p).settled
  marked : ∀ p, (m.ban p).del = true → m'.ban p = m.ban p
  alloc : m'.alloc = m.alloc

lemma Holds.link_eq {m : Mem} {done rest : List Rec} (h : Holds m (done ++ rest)) :
    m.link (done.map Prod.fst).getLast? = (rest.map Prod.fst).head? := by
  have hpath := h.path
  rw [map_append] at hpath
  rw [← hpath.link_eq]
  cases (done.map Prod.fst).getLast? <;> rfl

lemma Holds.unlink {m : Mem} {done rest : List Rec} {r : Rec} (h : Holds m (done ++ r :: rest)) :
    Holds ((m.setLink (done.map Prod.fst).getLast? (m.next r.1)).freeBan r.1) (done ++ rest) := by
  have hpath := h.path
  rw [map_append] at hpath
  obtain ⟨_, -, hrest⟩ := hpath.drop
  have hnodup := h.nodup
  rw [map_append, map_cons, List.perm_middle.nodup_iff, nodup_cons, ← map_append] at hnodup
  have hlinked := h.setLink hrest hnodup.2 fun r' hr' => by
    have hmem : r' ∈ done ++ r :: rest := mem_append_right _ (mem_cons_of_mem _ hr')
    exact ⟨h.bans r' hmem, h.lt r'.1 (mem_map_of_mem hmem)⟩
  exact hlinked.freeBan hnodup.1

lemma Holds.write {m : Mem} {done rest : List Rec} {r : Rec} (h : Holds m (done ++ r :: rest))
    (f : Ban → Ban) : Holds (m.modify r.1 f) (done ++ [(r.1, f r.2)] ++ rest) := by
  have hids : (done ++ [(r.1, f r.2)] ++ rest).map Prod.fst = (done ++ r :: rest).map Prod.fst := by simp
  have hnodup := h.nodup
  rw [map_append, map_cons, List.perm_middle.nodup_iff, nodup_cons, ← map_append] at hnodup
  constructor
  · rw [hids]
    exact h.path
  · intro r' hr'
    rw [append_assoc, List.mem_append, List.singleton_append, mem_cons] at hr'
    have hother : r' ∈ done ++ rest → (m.modify r.1 f).ban r'.1 = r'.2 := by
      intro hmem
      have hne : r'.1 ≠ r.1 := ne_of_mem_of_not_mem (mem_map_of_mem hmem) hnodup.1
      refine (Function.update_of_ne hne ..).trans (h.bans r' ?_)
      rw [List.mem_append] at hmem ⊢
      exact hmem.imp_right (mem_cons_of_mem _)
    rcases hr' with hr' | rfl | hr'
    · exact hother (mem_append_left _ hr')
    · rw [← h.bans r (mem_append_right _ mem_cons_self)]
      exact Function.update_self ..
    · exact hother (mem_append_right _ hr')
  · rw [hids]
    exact h.nodup
  · rw [hids]
    exact h.lt

lemma Holds.sweep : (rest : List Rec) → ∀ {n : ℕ} {m : Mem} {done : List Rec}, rest.length ≤ n →
    Holds m (done ++ rest) → (∀ r ∈ rest, r.2.overlapped = r.2.del) →
    ∃ m', sweep n m (done.map Prod.fst).getLast? = some m' ∧
      Holds m' (done ++ mapBans Ban.settled (active rest)) ∧ Swept m m'
  | [], n, m, done, _, h, _ => by
    have hend : m.link (done.map Prod.fst).getLast? = none := h.link_eq
    refine ⟨m, ?_, h, fun _ => Or.inl rfl, fun _ _ => rfl, rfl⟩
    cases n <;> rw [Silence.sweep, hend]
  | r :: rest, 0, m, done, hn, _, _ => absurd hn (Nat.not_succ_le_zero _)
  | r :: rest, n + 1, m, done, hn, h, hmarks => by
    have hlink : m.link (done.map Prod.fst).getLast? = some r.1 := h.link_eq
    have hban : m.ban r.1 = r.2 := h.bans r (mem_append_right _ mem_cons_self)
    have hover : r.2.overlapped = r.2.del := hmarks r mem_cons_self
    have hmarks' : ∀ r' ∈ rest, r'.2.overlapped = r'.2.del := fun r' hr' =>
      hmarks r' (mem_cons_of_mem _ hr')
    rw [Silence.sweep, hlink]
    simp only [hban, hover, Bool.or_self]
    cases hdel : r.2.del
    · rw [if_neg Bool.false_ne_true]
      have hwritten := h.write Ban.settled
      obtain ⟨m', hrun, hholds, hswept⟩ := Holds.sweep rest (Nat.le_of_succ_le_succ hn) hwritten hmarks'
      have hactive : active (r :: rest) = r :: active rest := filter_cons_of_pos (by simp [hdel])
      rw [map_append, List.map_singleton, List.getLast?_append, List.getLast?_singleton] at hrun
      refine ⟨m', hrun, ?_, ?_, ?_, hswept.alloc⟩
      · rw [hactive]
        rw [append_assoc] at hholds
        exact hholds
      · intro p
        by_cases hp : p = r.1
        · subst hp
          have hself : (m.modify r.1 Ban.settled).ban r.1 = (m.ban r.1).settled := Function.update_self ..
          rcases hswept.ban r.1 with hsame | hsame
          · exact .inr (hsame.trans hself)
          · rw [hself] at hsame
            exact .inr hsame
        · have hother : (m.modify r.1 Ban.settled).ban p = m.ban p := Function.update_of_ne hp ..
          rw [← hother]
          exact hswept.ban p
      · intro p hp
        have hne : p ≠ r.1 := by
          rintro rfl
          rw [hban, hdel] at hp
          contradiction
        have hother : (m.modify r.1 Ban.settled).ban p = m.ban p := Function.update_of_ne hne ..
        rw [← hother] at hp ⊢
        exact hswept.marked p hp
    · rw [if_pos rfl]
      obtain ⟨m', hrun, hholds, hswept⟩ := Holds.sweep rest (Nat.le_of_succ_le_succ hn) h.unlink hmarks'
      have hactive : active (r :: rest) = active rest := filter_cons_of_neg (by simp [hdel])
      rw [hactive]
      exact ⟨m', hrun, hholds, hswept.ban, hswept.marked, hswept.alloc⟩

lemma Holds.freeDels {rs : List Rec} : (ps : List ℕ) → ∀ {m : Mem}, Holds m rs →
    (∀ p ∈ ps, (m.ban p).del = true → p ∉ rs.map Prod.fst) →
    Holds (freeDels m ps) rs ∧ (freeDels m ps).ban = m.ban
  | [], m, h, _ => ⟨h, rfl⟩
  | p :: ps, m, h, hout => by
    rw [Silence.freeDels, foldl_cons]
    by_cases hfree : (!(m.ban p).add && (m.ban p).del) = true
    · rw [if_pos hfree]
      have hdel : (m.ban p).del = true := (Bool.and_eq_true_iff.mp hfree).2
      exact Holds.freeDels ps (h.freeBan (hout p mem_cons_self hdel)) fun q hq =>
        hout q (mem_cons_of_mem _ hq)
    · rw [if_neg hfree]
      exact Holds.freeDels ps h fun q hq => hout q (mem_cons_of_mem _ hq)

end Nefarious.Silence
