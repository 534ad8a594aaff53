import Nefarious.Silence.Limits

/-!
# A SILENCE command is not atomic

A command should leave what its updates leave when they are applied one after the other, and an update for which
there is no room should have no effect at all.
-/

namespace Nefarious.Silence

open List (mem_filter mem_map mem_singleton not_mem_nil pairwise_cons takeWhile_sublist)

open BanMask Lib.Chains

/-- Apply an update with `apply_ban`, and take out what it overlaps. -/
def applyUpdate (rs : List Rec) (u : Rec) : List Rec :=
  if u.2.add then
    if rs.any fun r => r.2.covers u.2 then rs
    else (rs.filter fun r => !u.2.covers r.2) ++ [(u.1, u.2.cleared)]
  else rs.filter fun r => !u.2.covers r.2

/-- Apply updates one after the other. -/
def applyAll (rs us : List Rec) : List Rec := us.foldl applyUpdate rs

/-- A command is atomic: from the entries `rs` it leaves what those of the updates `us` leave that are not
refused. -/
structure Atomic (rs us : List Rec) (o : Outcome) (rs' : List Rec) : Prop where
  left : rs'.map Prod.snd = (applyAll rs (us.filter fun u => u.1 ∉ o.refused)).map Prod.snd
  kept : ∀ p ∈ o.accepted, (o.mem.ban p).del = false → p ∈ rs'.map Prod.fst
  forwarded : ∀ e ∈ o.forwarded, e.add = true → ∃ r ∈ rs', r.2.exc = e.exc ∧ r.2.mask.banstr = e.banstr

/-- The refused updates of a command do no harm. -/
structure Harmless (cx : Ctx) (rs us : List Rec) : Prop where
  last : (active (linkAll ⟨rs, []⟩ us).list).Pairwise fun r r' =>
    r.1 ∈ refusals cx (linkAll ⟨rs, []⟩ us) → r'.1 ∈ refusals cx (linkAll ⟨rs, []⟩ us)
  alone : (applyAll rs (us.filter fun u => u.1 ∉ refusals cx (linkAll ⟨rs, []⟩ us))).map Prod.snd =
    ((active (linkAll ⟨rs, []⟩ us).list).filter fun r =>
      r.1 ∉ refusals cx (linkAll ⟨rs, []⟩ us)).map fun r => r.2.cleared

/-- A list on which there are no flags of a command. `m_silence.c` `forward_silences`. -/
def Clean (rs : List Rec) : Prop := ∀ r ∈ rs, r.2.cleared = r.2

section Lists

variable {α : Type} {q : α → Bool} {l : List α}

lemma takeWhile_eq_filter (h : l.Pairwise fun a b => q a = false → q b = false) :
    l.takeWhile q = l.filter q := by
  induction l with
  | nil => rfl
  | cons a l ih =>
    rw [pairwise_cons] at h
    cases ha : q a
    · have hnone : l.filter q = [] := by
        rw [List.filter_eq_nil_iff]
        intro b hb
        rw [h.1 b hb ha]
        exact Bool.false_ne_true
      rw [List.takeWhile_cons_of_neg (by simp [ha]), List.filter_cons_of_neg (by simp [ha]), hnone]
    · rw [List.takeWhile_cons_of_pos ha, List.filter_cons_of_pos ha, ih h.2]

lemma pairwise_of_takeWhile (hn : l.Nodup) (h : ∀ a ∈ l, q a = true → a ∈ l.takeWhile q) :
    l.Pairwise fun a b => q a = false → q b = false := by
  induction l with
  | nil => exact List.Pairwise.nil
  | cons a l ih =>
    rw [List.nodup_cons] at hn
    cases ha : q a
    · rw [List.takeWhile_cons_of_neg (by simp [ha])] at h
      have hall : ∀ b ∈ l, q b = false := by
        intro b hb
        rw [Bool.eq_false_iff]
        intro hq
        exact absurd (h b (List.mem_cons_of_mem _ hb) hq) not_mem_nil
      rw [pairwise_cons]
      constructor
      · intro b hb _
        exact hall b hb
      · exact List.Pairwise.imp_of_mem (fun _ hb _ _ => hall _ hb) (List.pairwise_of_forall fun _ _ => trivial)
    · rw [List.takeWhile_cons_of_pos ha] at h
      rw [pairwise_cons]
      constructor
      · intro b _ hfalse
        rw [ha] at hfalse
        contradiction
      · refine ih hn.2 fun b hb hq => ?_
        rcases List.mem_cons.mp (h b (List.mem_cons_of_mem _ hb) hq) with rfl | hmem
        · exact absurd hb hn.1
        · exact hmem

end Lists

lemma Reading.start {m : Mem} {rs : List Rec} (h : Holds m rs) (hclean : Clean rs) : Reading m ⟨rs, []⟩ := by
  have hflags : ∀ r ∈ rs, r.2.add = false ∧ r.2.overlapped = r.2.del := by
    intro r hr
    rw [← hclean r hr]
    exact ⟨rfl, rfl⟩
  constructor
  · exact h
  · intro r hr
    exact absurd hr not_mem_nil
  · exact List.nodup_nil
  · intro r hr
    exact absurd hr not_mem_nil
  · refine ⟨rs, [], (List.append_nil _).symm, fun r hr => (hflags r hr).1, ?_, rfl⟩
    intro r hr
    exact absurd hr not_mem_nil
  · exact fun r hr => (hflags r hr).2

lemma eq_of_fst_eq {rs : List Rec} (hn : (rs.map Prod.fst).Nodup) {r r' : Rec} (hr : r ∈ rs) (hr' : r' ∈ rs)
    (h : r.1 = r'.1) : r = r' :=
  List.inj_on_of_nodup_map hn hr hr' h

lemma Ban.settled_eq {b : Ban} (hdel : b.del = false) (hover : b.overlapped = b.del) : b.settled =
    b.cleared := by
  rw [Ban.settled, Ban.cleared, hover, hdel]

/-- What a command leaves that has read the updates into `m₁`: the entries in front of the first one that is
refused. `m_silence.c` `forward_silences`. -/
structure Leaves (cx : Ctx) (m₁ : Mem) (s : Linked) (o : Outcome) (rs' : List Rec) : Prop where
  holds : Holds o.mem rs'
  entries : rs' = mapBans Ban.settled ((active s.list).takeWhile (·.1 ∉ refusals cx s))
  del : ∀ p, (o.mem.ban p).del = (m₁.ban p).del
  refused : o.refused = refusals cx s
  accepted : o.accepted = (s.accepted.map Prod.fst).filter (· ∉ refusals cx s)
  forwarded : ∀ e ∈ o.forwarded, ∃ p ∈ o.accepted, forwardLine cx (m₁.ban p) = some e

lemma Holds.forwardSilences {m : Mem} {rs : List Rec} (h : Holds m rs) (hclean : Clean rs) (cx : Ctx)
    (silences : Str) {s : Linked} (hs : s = linkAll ⟨rs, []⟩ (updates cx m.alloc (Channel.nameList silences))) :
    ∃ m₁ o rs', forwardSilences cx m silences = some o ∧ Reading m₁ s ∧ Leaves cx m₁ s o rs' := by
  obtain ⟨m₁, hread, hreading⟩ := (Reading.start h hclean).applySilences cx (Channel.nameList silences)
  rw [← hs] at hread hreading
  obtain ⟨t, chain, hcheck, hchain, hstart, hactive, hban, haccepted, hrefused⟩ := hreading.checkLimits cx
  have hmarks : ∀ r ∈ chain, r.2.overlapped = r.2.del := fun r hr => hreading.marks r (hstart.subset hr)
  have hlen : chain.length ≤ t.mem.alloc := by
    rw [← List.length_map Prod.fst]
    exact length_le_of_lt hchain.nodup hchain.lt
  obtain ⟨m₂, hsweep, hholds, hswept⟩ := @Holds.sweep chain t.mem.alloc t.mem [] hlen hchain hmarks
  rw [List.nil_append, hactive] at hholds
  have hdel : ∀ p, (m₂.ban p).del = (m₁.ban p).del := by
    intro p
    rw [← hban]
    rcases hswept.ban p with hp | hp <;> rw [hp]
    rfl
  have hout : ∀ p ∈ t.accepted, (m₂.ban p).del = true →
      p ∉ (mapBans Ban.settled ((active s.list).takeWhile (·.1 ∉ refusals cx s))).map Prod.fst := by
    intro p _ hp hmem
    obtain ⟨r, hr, rfl⟩ := mem_map.mp hmem
    rw [hholds.bans r hr] at hp
    obtain ⟨r', hr', rfl⟩ := mem_map.mp hr
    have hkeep : r'.2.del = false := by
      simpa using (mem_filter.mp (takeWhile_sublist _ |>.subset hr')).2
    have hsettled : r'.2.settled.del = r'.2.del := rfl
    rw [hsettled, hkeep] at hp
    contradiction
  obtain ⟨hfreed, hsame⟩ := hholds.freeDels t.accepted hout
  refine ⟨m₁,
    { mem := Silence.freeDels m₂ t.accepted
      accepted := t.accepted
      refused := t.refused
      forwarded :=
        if cx.toServers then t.accepted.filterMap fun p => forwardLine cx (t.mem.ban p) else [] },
    _, ?_, hreading, ⟨hfreed, rfl, ?_, hrefused, haccepted, ?_⟩⟩
  · rw [Silence.forwardSilences, show ([] : List ℕ) = ([] : List Rec).map Prod.fst from rfl, hread,
      Option.bind_some, hcheck, Option.bind_some]
    simp only [List.map_nil, List.getLast?_nil] at hsweep
    rw [hsweep]
    rfl
  · intro p
    rw [hsame]
    exact hdel p
  · intro e he
    dsimp only at he ⊢
    split at he
    · obtain ⟨p, hp, hline⟩ := List.mem_filterMap.mp he
      rw [hban] at hline
      exact ⟨p, hp, hline⟩
    · exact absurd he not_mem_nil

section Leaves

variable {cx : Ctx} {m₁ : Mem} {s : Linked} {o : Outcome} {rs rs' us : List Rec}

lemma Leaves.settled_eq (h : Reading m₁ s) {r : Rec} (hr : r ∈ active s.list) : r.2.settled =
    r.2.cleared := by
  obtain ⟨hmem, hdel⟩ := mem_filter.mp hr
  exact Ban.settled_eq (by simpa using hdel) (h.marks r hmem)

lemma Reading.mem_active (h : Reading m₁ s) {p : ℕ} (hp : p ∈ s.accepted.map Prod.fst)
    (hdel : (m₁.ban p).del = false) : ∃ r ∈ active s.list, r.1 = p ∧ r.2.add = true := by
  obtain ⟨olds, news, hlist, -, hnews, hids⟩ := h.parts
  have hmem : p ∈ (s.accepted.map Prod.fst).filter fun p => !(m₁.ban p).del :=
    mem_filter.mpr ⟨hp, by simp [hdel]⟩
  rw [(h.pending hlist hids).left] at hmem
  obtain ⟨r, hr, rfl⟩ := mem_map.mp hmem
  refine ⟨r, ?_, rfl, hnews r (mem_filter.mp hr).1⟩
  rw [hlist, active_append]
  exact List.mem_append_right _ hr

lemma Reading.mem_accepted (h : Reading m₁ s) {r : Rec} (hr : r ∈ active s.list) (hadd : r.2.add = true) :
    r.1 ∈ s.accepted.map Prod.fst ∧ (m₁.ban r.1).del = false := by
  obtain ⟨olds, news, hlist, holds, -, hids⟩ := h.parts
  obtain ⟨hmem, hdel⟩ := mem_filter.mp hr
  have hban := h.holds.bans r hmem
  rw [hlist, List.mem_append] at hmem
  rcases hmem with hmem | hmem
  · rw [holds r hmem] at hadd
    contradiction
  · have hid : r.1 ∈ news.map Prod.fst := List.mem_map_of_mem hmem
    rw [hids] at hid
    obtain ⟨r', hr', heq⟩ := mem_map.mp hid
    rw [← heq]
    refine ⟨List.mem_map_of_mem (mem_filter.mp hr').1, ?_⟩
    rw [heq, hban]
    simpa using hdel

lemma add_of_refused (h : Reading m₁ s) {r : Rec} (hr : r ∈ active s.list) (href : r.1 ∈ refusals cx s) :
    r.2.add = true := by
  rw [refusals] at href
  split at href
  · obtain ⟨r', hr', heq⟩ := mem_map.mp (noRoom_subset cx _ _ _ href)
    obtain ⟨hmem', hadd⟩ := mem_filter.mp hr'
    have hsame : r' = r := eq_of_fst_eq h.holds.nodup (mem_filter.mp hmem').1 (mem_filter.mp hr).1 heq
    rw [← hsame]
    exact hadd
  · exact absurd href not_mem_nil

lemma Leaves.mem_iff (hl : Leaves cx m₁ s o rs') {p : ℕ} :
    p ∈ rs'.map Prod.fst ↔ ∃ r ∈ (active s.list).takeWhile (·.1 ∉ refusals cx s), r.1 = p := by
  rw [hl.entries, mapBans_fst, mem_map]

lemma Leaves.kept_iff (h : Reading m₁ s) (hl : Leaves cx m₁ s o rs') :
    (∀ p ∈ o.accepted, (o.mem.ban p).del = false → p ∈ rs'.map Prod.fst) ↔
      (active s.list).Pairwise fun r r' => r.1 ∈ refusals cx s → r'.1 ∈ refusals cx s := by
  have hnodup : ((active s.list).map Prod.fst).Nodup :=
    List.Nodup.sublist (List.Sublist.map _ List.filter_sublist) h.holds.nodup
  have hpair : ((active s.list).Pairwise fun r r' => r.1 ∈ refusals cx s → r'.1 ∈ refusals cx s) ↔
      (active s.list).Pairwise fun r r' =>
        decide (r.1 ∉ refusals cx s) = false → decide (r'.1 ∉ refusals cx s) = false := by
    simp only [decide_eq_false_iff_not, not_not]
  rw [hpair]
  constructor
  · intro hkept
    refine pairwise_of_takeWhile (List.Nodup.of_map _ hnodup) fun r hr hroom => ?_
    rw [decide_eq_true_eq] at hroom
    cases hadd : r.2.add
    · -- what was there stands in front of all that is refused
      obtain ⟨olds, news, hlist, holds, hnews, -⟩ := h.parts
      have hactive : active s.list = active olds ++ active news := by rw [hlist, active_append]
      have hold : ∀ r ∈ active olds, decide (r.1 ∉ refusals cx s) = true := by
        intro r' hr'
        rw [decide_eq_true_eq]
        intro href
        have hadd' := add_of_refused h (hactive ▸ List.mem_append_left _ hr') href
        rw [holds r' (mem_filter.mp hr').1] at hadd'
        contradiction
      rw [hactive] at hr ⊢
      rw [List.takeWhile_append_of_pos hold]
      rcases List.mem_append.mp hr with hr | hr
      · exact List.mem_append_left _ hr
      · rw [hnews r (mem_filter.mp hr).1] at hadd
        contradiction
    · obtain ⟨hacc, hdel⟩ := h.mem_accepted hr hadd
      have hleft := hkept r.1 (by rw [hl.accepted]; exact mem_filter.mpr ⟨hacc, by simpa using hroom⟩)
        (by rw [hl.del]; exact hdel)
      obtain ⟨r', hr', heq⟩ := hl.mem_iff.mp hleft
      have hmem' := (takeWhile_sublist _).subset hr'
      rw [← eq_of_fst_eq hnodup hmem' hr heq]
      exact hr'
  · intro hlast p hp hdel
    rw [hl.accepted, mem_filter, decide_eq_true_eq] at hp
    rw [hl.del] at hdel
    obtain ⟨r, hr, rfl, -⟩ := h.mem_active hp.1 hdel
    rw [hl.mem_iff, takeWhile_eq_filter hlast]
    exact ⟨r, mem_filter.mpr ⟨hr, by simpa using hp.2⟩, rfl⟩

lemma Leaves.atomic_iff (hs : s = linkAll ⟨rs, []⟩ us) (h : Reading m₁ s) (hl : Leaves cx m₁ s o rs') :
    Atomic rs us o rs' ↔ Harmless cx rs us := by
  subst hs
  have hclear : ∀ l : List Rec, (∀ r ∈ l, r ∈ active (linkAll ⟨rs, []⟩ us).list) →
      (mapBans Ban.settled l).map Prod.snd = l.map fun r => r.2.cleared := by
    intro l hsub
    rw [mapBans, List.map_map]
    exact List.map_congr_left fun r hr => Leaves.settled_eq h (hsub r hr)
  have hfilter : (∀ p ∈ o.accepted, (o.mem.ban p).del = false → p ∈ rs'.map Prod.fst) →
      rs'.map Prod.snd = ((active (linkAll ⟨rs, []⟩ us).list).filter fun r =>
        r.1 ∉ refusals cx (linkAll ⟨rs, []⟩ us)).map fun r => r.2.cleared := by
    intro hkept
    have hlast := (hl.kept_iff h).mp hkept
    rw [hl.entries, hclear _ fun r hr => (takeWhile_sublist _).subset hr,
      takeWhile_eq_filter (by simpa only [decide_eq_false_iff_not, not_not] using hlast)]
  constructor
  · intro hatomic
    constructor
    · exact (hl.kept_iff h).mp hatomic.kept
    · rw [← hfilter hatomic.kept, hatomic.left, hl.refused]
  · intro hharm
    have hkept := (hl.kept_iff h).mpr hharm.last
    constructor
    · rw [hfilter hkept, hl.refused, hharm.alone]
    · exact hkept
    · intro e he hadd
      obtain ⟨p, hp, hline⟩ := hl.forwarded e he
      have hdel : (m₁.ban p).del = false ∧ (m₁.ban p).exc = e.exc ∧ (m₁.ban p).mask.banstr = e.banstr := by
        rw [forwardLine] at hline
        split at hline
        · contradiction
        · split at hline
          · rw [← Option.some.inj hline] at hadd
            contradiction
          · rename_i hdel
            split at hline
            · split at hline
              · contradiction
              · rw [← Option.some.inj hline]
                exact ⟨by simpa using hdel, rfl, rfl⟩
            · contradiction
      have hmem := hkept p hp (by rw [hl.del]; exact hdel.1)
      obtain ⟨r, hr, rfl⟩ := mem_map.mp hmem
      refine ⟨r, hr, ?_⟩
      rw [hl.entries] at hr
      obtain ⟨r', hr', rfl⟩ := mem_map.mp hr
      have hban := h.holds.bans r' (mem_filter.mp ((takeWhile_sublist _).subset hr')).1
      rw [hban] at hdel
      exact hdel.2

end Leaves

/-- Room for three silences of ten characters. -/
def threeSiles : Ctx := ⟨true, 3, 10, true, true⟩

/-- A user who does not want to hear `ab`. -/
def oneSilence : Mem := ⟨fun _ => none, fun _ => (readSilence "ab".toList).cleared, some 0, none, 1⟩

lemma holds_oneSilence : Holds oneSilence [(0, (readSilence "ab".toList).cleared)] := by
  constructor
  · exact ⟨rfl, rfl⟩
  · intro r hr
    rw [mem_singleton.mp hr]
    rfl
  · exact List.nodup_singleton 0
  · intro p hp
    rw [mem_singleton.mp hp]
    exact Nat.one_pos

end Nefarious.Silence
