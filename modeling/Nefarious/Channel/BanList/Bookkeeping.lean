import Nefarious.Channel.BanList.Process

/-!
# What a command leaves of a ban list

After a command the list holds bans of the heap only, each once and without a mark, and a command that is not to
take effect has changed nothing.
-/

namespace Nefarious.BanList

open List (any_cons map_map mem_filter mem_map)

open BanMask Lib.Chains

/-- A ban is removed by the command. `channel.c` `apply_ban`. -/
def removed (es : List Entry) (b : Ban) : Bool :=
  es.any fun e => !e.add && (prettyExtmask e.arg).any fun pmask => (e.ban pmask).covers b

/-- A ban is overlapped by one that is let in. `channel.c` `mode_process_bans`. -/
def overlapped (cx : Ctx) (max : ℤ × ℤ) (rs : List Rec) (es : List Entry) (b : Ban) : Bool :=
  (accepted cx max rs es).any fun new => new.covers b

/-- What should hold of the list `new ++ old` that a command leaves of `rs`. `channel.c`
`mode_process_bans`, `mode_process_excepts`. -/
structure Bookkept (cx : Ctx) (max : ℤ × ℤ) (rs : List Rec) (es : List Entry) (new old : List Rec) : Prop where
  heap : ∀ r ∈ new ++ old, ∃ k, r.1 = .heap k
  cleared : ∀ r ∈ new ++ old, r.2.unmarked = r.2
  stays : ∀ r ∈ rs, removed es r.2 = false → overlapped cx max rs es r.2 = false → (r.1, r.2.unmarked) ∈ old
  once : ((new ++ old).map Prod.fst).Nodup
  unchanged : cx.set = false → new = [] ∧ old = unmarkAll rs

/-- What a new ban overlaps is removed as well, or overlapped by one that is let in. Source:
`channel.c` `apply_ban`, `mode_process_bans`. -/
def NoneLost (cx : Ctx) (max : ℤ × ℤ) (rs : List Rec) (es : List Entry) : Prop :=
  cx.set = true → ∀ r ∈ rs, ∀ new ∈ applied 0 (unmarkAll rs) es, new.add = true → new.covers r.2 = true →
    removed es r.2 = true ∨ overlapped cx max rs es r.2 = true

lemma removed_eq (b : Ban) : (es : List Entry) → ∀ (i : ℕ) (rs : List Rec),
    removed es b = (applied i rs es).any fun new => !new.add && new.covers b
  | [], _, _ => rfl
  | e :: es, i, rs => by
    have htail : ∀ i' rs', removed es b = (applied i' rs' es).any fun new => !new.add && new.covers b :=
      removed_eq b es
    rw [removed, any_cons, ← removed, applied]
    cases he : prettyExtmask e.arg with
    | none => rw [Option.any_none, Bool.and_false, Bool.false_or, htail i rs]
    | some pmask =>
      rw [Option.any_some]
      simp only
      split
      · rename_i hcov
        rw [Bool.and_eq_true] at hcov
        rw [hcov.1, Bool.not_true, Bool.false_and, Bool.false_or, htail (i + 1) rs]
      · rw [any_cons, ← htail]
        rfl

lemma kept_marked (cx : Ctx) (rs : List Rec) (es : List Entry) : kept cx (marked rs es) = if cx.set then
      (unmarkAll rs).filter fun r => !(applied 0 (unmarkAll rs) es).any (·.covers r.2) else unmarkAll rs := by
  obtain ⟨news, hnews⟩ : ∃ news, news = applied 0 (unmarkAll rs) es := ⟨_, rfl⟩
  rw [kept, marked, ← hnews]
  split
  · -- what is not marked is what nothing covers
    have hdel : ∀ r ∈ unmarkAll rs, ((fun r : Rec => !r.2.del) ∘ fun r => (r.1, markAll news r.2)) r
        = !news.any (·.covers r.2) := by
      intro r hr
      obtain ⟨r', -, rfl⟩ := mem_map.mp hr
      rw [Function.comp_apply, markAll_eq]
      split
      · rename_i hcov
        rw [hcov]
      · rename_i hcov
        rw [eq_false_of_ne_true hcov]
        rfl
    rw [List.filter_map, List.filter_congr hdel]
    refine (List.map_congr_left fun r hr => ?_).trans (List.map_id _)
    have hcov := (mem_filter.mp hr).2
    rw [markAll_eq, if_neg (by simpa using hcov)]
    rfl
  · -- the marks of all are cleared again
    rw [unmarkAll, unmarkAll, map_map, map_map]
    refine List.map_congr_left fun r _ => ?_
    simp only [Function.comp_apply, markAll_eq]
    split <;> rfl

/-- **After a command the list is kept as it should be, exactly when what a new ban has marked that is not let
in is gone for another reason as well**. The list is that of the bans with `cx.bans` for `max`, and that of the
ban exceptions with `cx.excepts`. -/
theorem bookkept_iff {m : Mem} {rs : List Rec} {fl : List Ptr} (h : Shows m rs fl 0) (cx : Ctx) (max : ℤ × ℤ)
    (es : List Entry) (hany : es.any Entry.parsed) :
    ∃ t new old fl', modeList cx max (rs.length + es.length) m es = some t ∧ Shows t (new ++ old) fl' 0 ∧
      new.map Prod.snd = copies cx (accepted cx max rs es) ∧ old.Sublist (unmarkAll rs) ∧
      (Bookkept cx max rs es new old ↔ NoneLost cx max rs es) := by
  obtain ⟨t, new, fl', hrun, hshows, hnew⟩ := h.modeList cx max (Nat.le_refl _) hany
  rw [kept_marked] at hshows
  refine ⟨t, new, _, fl', hrun, hshows, hnew, ?_, fun hbook hset r hr b hb hadd hcov => ?_, fun hlost => ?_⟩
  · split
    · exact List.filter_sublist
    · exact List.Sublist.refl _
  · -- a ban that is marked is not there any more
    by_contra hnone
    rw [not_or, Bool.not_eq_true, Bool.not_eq_true] at hnone
    have hstays := hbook.stays r hr hnone.1 hnone.2
    rw [if_pos hset] at hstays
    have hfree : ¬(applied 0 (unmarkAll rs) es).any (·.covers r.2.unmarked) = true := by
      simpa using (mem_filter.mp hstays).2
    exact hfree (List.any_eq_true.mpr ⟨b, hb, hcov⟩)
  · refine ⟨fun r hr => ?_, fun r hr => ?_, fun r hr hrem hover => ?_, ?_, fun hset => ?_⟩
    · obtain ⟨k, -, hk⟩ | ⟨j, hj, -⟩ := hshows.placed r.1 (List.mem_map_of_mem hr)
      · exact ⟨k, hk⟩
      · exact absurd hj (Nat.not_lt_zero _)
    · obtain hr | hr := List.mem_append.mp hr
      · have hmem : r.2 ∈ copies cx (accepted cx max rs es) := hnew ▸ List.mem_map_of_mem hr
        unfold copies at hmem
        split at hmem
        · obtain ⟨b, -, hb⟩ := mem_map.mp (List.mem_reverse.mp hmem)
          rw [← hb]
          rfl
        · exact absurd hmem List.not_mem_nil
      · have hmem : r ∈ unmarkAll rs := by
          split at hr
          · exact (mem_filter.mp hr).1
          · exact hr
        obtain ⟨r', -, rfl⟩ := mem_map.mp hmem
        rfl
    · have hmem : (r.1, r.2.unmarked) ∈ unmarkAll rs := mem_map.mpr ⟨r, hr, rfl⟩
      split
      · rename_i hset
        refine mem_filter.mpr ⟨hmem, ?_⟩
        rw [Bool.not_eq_true', List.any_eq_false]
        intro b hb hcov
        cases hadd : b.add with
        | true =>
          obtain hyes | hyes := hlost hset r hr b hb hadd hcov
          · rw [hrem] at hyes
            exact Bool.false_ne_true hyes
          · rw [hover] at hyes
            exact Bool.false_ne_true hyes
        | false =>
          rw [removed_eq r.2 es 0 (unmarkAll rs), List.any_eq_false] at hrem
          refine hrem b hb ?_
          rw [hadd]
          exact hcov
      · exact hmem
    · exact (List.nodup_append.mp hshows.nodup).1
    · refine ⟨?_, if_neg (by rw [hset]; exact Bool.false_ne_true)⟩
      rw [copies, if_neg (by rw [hset]; exact Bool.false_ne_true)] at hnew
      exact List.map_eq_nil_iff.mp hnew

/-- The settings that are compiled in, for a user of this server who is on the channel `#c`. Source:
`ircd_features.c`. -/
def defaults : Ctx where
  set := true
  bounce := false
  myUser := true
  opmode := false
  chname := "#c".toList
  bans := (50, 40)
  excepts := (45, 40)
  jMaxPerChan := 2
  extbans := false
  feat := fun _ => true

/-- A ban that another server has set. -/
def otherBan : Ban := ⟨setBanMask "~a:joe".toList, "*".toList, 5, false, false, false⟩

def otherMem : Mem := ⟨fun _ => none, fun _ => otherBan, some (.heap 0), none, 1⟩

lemma shows_otherMem : Shows otherMem [(.heap 0, otherBan)] [] 0 := by
  refine ⟨⟨rfl, rfl⟩, fun r hr => ?_, rfl, by decide, fun p hp => ?_, nofun⟩
  · obtain rfl := List.mem_singleton.mp hr
    rfl
  · obtain rfl := List.mem_singleton.mp hp
    exact .inl ⟨0, Nat.zero_lt_one, rfl⟩

/-- `-b ~a:joe`. -/
def delEntry : Entry := ⟨false, "~a:joe".toList, "joe".toList, 9⟩

theorem bookkept_iff_example : ∃ t new old fl',
    modeList defaults defaults.bans 2 otherMem [delEntry] = some t ∧ Shows t (new ++ old) fl' 0 ∧
      new.map Prod.snd = copies defaults (accepted defaults defaults.bans [(.heap 0, otherBan)] [delEntry]) ∧
      old.Sublist (unmarkAll [(.heap 0, otherBan)]) ∧
      (Bookkept defaults defaults.bans [(.heap 0, otherBan)] [delEntry] new old ↔
        NoneLost defaults defaults.bans [(.heap 0, otherBan)] [delEntry]) :=
  bookkept_iff shows_otherMem defaults defaults.bans [delEntry] (by decide +kernel)

/-- `+b ~a:j*`. -/
def newEntry : Entry := ⟨true, "~a:j*".toList, "joe".toList, 9⟩

/-- **A ban is removed for one that is not let in**: extended bans are turned off, and the list of the channel
has one of another server. -/
theorem overlapped_lost : Shows otherMem [(.heap 0, otherBan)] [] 0 ∧ removed [newEntry] otherBan = false ∧
    overlapped defaults defaults.bans [(.heap 0, otherBan)] [newEntry] otherBan = false ∧ ∃ t,
    modeList defaults defaults.bans 2 otherMem [newEntry] = some t ∧ t.list = none ∧ ¬∃ new old fl,
    Shows t (new ++ old) fl 0 ∧ Bookkept defaults defaults.bans [(.heap 0, otherBan)] [newEntry] new old := by
  have hrem : removed [newEntry] otherBan = false := by decide +kernel
  have hover : overlapped defaults defaults.bans [(.heap 0, otherBan)] [newEntry] otherBan = false := by
    decide +kernel
  have hrun : (modeList defaults defaults.bans 2 otherMem [newEntry]).map Mem.list = some none := by
    decide +kernel
  obtain ⟨t, ht, hlist⟩ := Option.map_eq_some_iff.mp hrun
  refine ⟨shows_otherMem, hrem, hover, t, ht, hlist, ?_⟩
  rintro ⟨new, old, fl, hshows, hbook⟩
  have hpath := hshows.path
  rw [hlist] at hpath
  have hnil : new ++ old = [] := List.map_eq_nil_iff.mp (List.head?_eq_none_iff.mp hpath.head_eq.symm)
  have hstays := hbook.stays _ List.mem_cons_self hrem hover
  rw [(List.append_eq_nil_iff.mp hnil).2] at hstays
  exact absurd hstays List.not_mem_nil

end Nefarious.BanList
