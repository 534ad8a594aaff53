import Mathlib.Data.List.Nodup
import Mathlib.Logic.Function.Basic

/-!
# Lists with pointers to the previous link

A family of lists, each with a head.
-/

set_option linter.unusedSectionVars false

namespace Nefarious.Lib.Hlist

open Option (some.inj)
open List (mem_cons mem_cons_of_mem mem_cons_self nodup_cons not_mem_nil)
open Function (update update_apply update_of_ne update_self)

variable {β ν : Type} [DecidableEq β] [DecidableEq ν]

/-- Where a link stands. -/
inductive Loc (β ν : Type)
  | head (b : β)
  | next (x : ν)
  deriving DecidableEq

structure Links (β ν : Type) where
  head : β → Option ν
  next : ν → Option ν
  /-- The place of the link that leads to a node. -/
  prevp : ν → Option (Loc β ν)

def Links.read (h : Links β ν) : Loc β ν → Option ν
  | .head b => h.head b
  | .next x => h.next x

def Links.write (h : Links β ν) (p : Loc β ν) (v : Option ν) : Links β ν :=
  match p with
  | .head b => { h with head := update h.head b v }
  | .next x => { h with next := update h.next x v }

/-- Write the back pointer of a node, if there is one. -/
def Links.setPrevp (h : Links β ν) (y : Option ν) (p : Loc β ν) : Links β ν :=
  match y with
  | some y => { h with prevp := update h.prevp y (some p) }
  | none => h

def Links.push (h : Links β ν) (b : β) (x : ν) : Links β ν :=
  let h₁ := (h.write (.next x) (h.head b)).setPrevp (h.head b) (.next x)
  (h₁.setPrevp (some x) (.head b)).write (.head b) (some x)

/-- Let the link at a place, and the node behind `x`, pass over `x`. -/
def Links.pass (h : Links β ν) (p : Loc β ν) (x : ν) : Links β ν :=
  (h.setPrevp (h.next x) p).write p (h.next x)

def Links.unlink (h : Links β ν) (x : ν) : Option (Links β ν) := do
  let p ← h.prevp x
  some (h.pass p x)

section Links

variable (h : Links β ν)

@[simp] lemma Links.setPrevp_read (y : Option ν) (q p : Loc β ν) : (h.setPrevp y q).read p = h.read p := by
  cases y <;> cases p <;> rfl

@[simp] lemma Links.write_prevp (p : Loc β ν) (v : Option ν) (z : ν) : (h.write p v).prevp z = h.prevp z := by
  cases p <;> rfl

lemma Links.write_read (q p : Loc β ν) (v : Option ν) :
    (h.write q v).read p = if p = q then v else h.read p := by
  cases q with
  | head b =>
    cases p with
    | head c => simp [Links.write, Links.read, update_apply]
    | next y => simp [Links.write, Links.read]
  | next x =>
    cases p with
    | head c => simp [Links.write, Links.read]
    | next y => simp [Links.write, Links.read, update_apply]

lemma Links.setPrevp_prevp (y : Option ν) (p : Loc β ν) (z : ν) :
    (h.setPrevp y p).prevp z = if y = some z then some p else h.prevp z := by
  cases y with
  | none => simp [Links.setPrevp]
  | some y => simp [Links.setPrevp, update_apply, eq_comm]

lemma Links.pass_read (q p : Loc β ν) (x : ν) :
    (h.pass q x).read p = if p = q then h.next x else h.read p := by
  rw [Links.pass, Links.write_read, Links.setPrevp_read]

lemma Links.pass_prevp (q : Loc β ν) (x z : ν) :
    (h.pass q x).prevp z = if h.next x = some z then some q else h.prevp z := by
  rw [Links.pass, Links.write_prevp, Links.setPrevp_prevp]

lemma Links.push_read (b : β) (x : ν) (p : Loc β ν) : (h.push b x).read p =
    if p = .head b then some x else if p = .next x then h.head b else h.read p := by
  simp only [Links.push, Links.write_read, Links.setPrevp_read]

lemma Links.push_prevp (b : β) (x z : ν) : (h.push b x).prevp z =
    if x = z then some (.head b) else if h.head b = some z then some (.next x) else h.prevp z := by
  simp only [Links.push, Links.write_prevp, Links.setPrevp_prevp, Option.some.injEq]

end Links

/-! ### One list -/

/-- From a place on, the links lead through the nodes. -/
def Links.Path (h : Links β ν) : Loc β ν → List ν → Prop
  | p, [] => h.read p = none
  | p, x :: xs => h.read p = some x ∧ h.prevp x = some p ∧ h.Path (.next x) xs

section Path

variable {h h' : Links β ν}

lemma Links.Path.congr : (l : List ν) → ∀ {p : Loc β ν}, h'.read p = h.read p →
    (∀ x ∈ l, h'.next x = h.next x ∧ h'.prevp x = h.prevp x) → h.Path p l → h'.Path p l
  | [], _, hp, _, hl => hp.trans hl
  | x :: xs, _, hp, hx, ⟨hread, hprev, hl⟩ => by
    obtain ⟨hnext, hprev'⟩ := hx x mem_cons_self
    exact ⟨hp.trans hread, hprev'.trans hprev, hl.congr xs hnext fun y hy => hx y (mem_cons_of_mem _ hy)⟩

lemma Links.Path.read_eq {p : Loc β ν} {l : List ν} (hl : h.Path p l) : h.read p = l.head? := by
  cases l with
  | nil => exact hl
  | cons x xs => exact hl.1

lemma Links.Path.pass {x : ν} {l₂ : List ν} : (l₁ : List ν) → ∀ {p : Loc β ν},
    h.Path p (l₁ ++ x :: l₂) → (l₁ ++ x :: l₂).Nodup → (∀ y ∈ l₁ ++ x :: l₂, p ≠ .next y) →
    ∃ q, h.prevp x = some q ∧ (q = p ∨ ∃ y ∈ l₁, q = .next y) ∧ h.next x = l₂.head? ∧
      (h.pass q x).Path p (l₁ ++ l₂)
  | [], p, ⟨_, hprev, hl⟩, hn, hp => by
    have hnext : h.next x = l₂.head? := hl.read_eq
    refine ⟨p, hprev, Or.inl rfl, hnext, ?_⟩
    cases l₂ with
    | nil => exact (h.pass_read p p x).trans ((if_pos rfl).trans hnext)
    | cons z zs =>
      obtain ⟨-, -, hzs⟩ := hl
      have hz : z ∉ zs := (nodup_cons.mp (nodup_cons.mp hn).2).1
      have hread : ∀ y ∈ z :: zs, (h.pass p x).read (.next y) = h.read (.next y) := fun y hy => by
        rw [h.pass_read, if_neg (hp y (mem_cons_of_mem _ hy)).symm]
      refine ⟨(h.pass_read p p x).trans ((if_pos rfl).trans hnext), ?_, ?_⟩
      · rw [h.pass_prevp, hnext, List.head?_cons, if_pos rfl]
      · refine hzs.congr zs (hread z mem_cons_self) fun y hy =>
          ⟨hread y (mem_cons_of_mem _ hy), ?_⟩
        have hzy : z ≠ y := (ne_of_mem_of_not_mem hy hz).symm
        rw [h.pass_prevp, hnext, List.head?_cons, if_neg fun e => hzy (some.inj e)]
  | a :: l₁, p, ⟨hread, hprev, hl⟩, hn, hp => by
    rw [List.cons_append, nodup_cons] at hn
    obtain ⟨ha, hn⟩ := hn
    obtain ⟨q, hq, hwhere, hnext, hpath⟩ := Links.Path.pass l₁ hl hn fun y hy e =>
      ha (by cases e; exact hy)
    have hwhere' : ∃ y ∈ a :: l₁, q = .next y := by
      rcases hwhere with rfl | ⟨y, hy, rfl⟩
      · exact ⟨a, mem_cons_self, rfl⟩
      · exact ⟨y, mem_cons_of_mem _ hy, rfl⟩
    refine ⟨q, hq, Or.inr hwhere', hnext, ?_, ?_, hpath⟩
    · have hpq : p ≠ q := by
        obtain ⟨y, hy, rfl⟩ := hwhere'
        exact hp y (List.mem_append_left _ hy)
      rw [h.pass_read, if_neg hpq, hread]
    · have hna : h.next x ≠ some a := by
        rw [hnext]
        intro e
        exact ha (List.mem_append_right _ (mem_cons_of_mem _ (List.mem_of_mem_head? e)))
      rw [h.pass_prevp, if_neg hna, hprev]

end Path

/-! ### The family -/

/-- The links hold these lists at the heads in use. -/
structure Links.Holds (h : Links β ν) (act : β → Prop) (lists : β → List ν) : Prop where
  path : ∀ b, act b → h.Path (.head b) (lists b)
  idle : ∀ b, ¬act b → lists b = []
  nodup : ∀ b, (lists b).Nodup
  apart : ∀ b b' x, x ∈ lists b → x ∈ lists b' → b = b'

section Holds

variable {h h' : Links β ν} {act : β → Prop} {lists : β → List ν} {b : β} {x : ν}

lemma Links.Holds.congr (hh : h.Holds act lists) (hhead : ∀ b, act b → h'.head b = h.head b)
    (hlinks : ∀ b, ∀ x ∈ lists b, h'.next x = h.next x ∧ h'.prevp x = h.prevp x) : h'.Holds act lists :=
  ⟨fun b hb => (hh.path b hb).congr _ (hhead b hb) (hlinks b), hh.idle, hh.nodup, hh.apart⟩

lemma Links.Holds.act_of_mem (hh : h.Holds act lists) (hx : x ∈ lists b) : act b := by
  by_contra hb
  rw [hh.idle b hb] at hx
  exact not_mem_nil hx

lemma Links.Holds.enter (hh : h.Holds act lists) (hb : ¬act b) :
    (h.write (.head b) none).Holds (fun c => c = b ∨ act c) lists := by
  refine ⟨fun c hc => ?_, fun c hc => hh.idle c fun hact => hc (Or.inr hact), hh.nodup, hh.apart⟩
  by_cases e : c = b
  · rw [e, hh.idle b hb]
    exact (h.write_read ..).trans (if_pos rfl)
  · have hcb : (h.write (.head b) none).read (.head c) = h.read (.head c) := by
      rw [h.write_read, if_neg (by simpa using e)]
    exact (hh.path c (hc.resolve_left e)).congr _ hcb fun y _ => ⟨rfl, rfl⟩

lemma Links.Holds.leave {act' : β → Prop} (hh : h.Holds act lists)
    (hact : ∀ c, act' c ↔ c ≠ b ∧ act c) : h.Holds act' (update lists b []) := by
  have hmem : ∀ {c x}, x ∈ update lists b [] c → x ∈ lists c := by
    intro c x hx
    by_cases e : c = b
    · rw [e, update_self] at hx
      exact absurd hx not_mem_nil
    · rwa [update_of_ne e] at hx
  refine ⟨fun c hc => ?_, fun c hc => ?_, fun c => ?_, fun c c' x hx hx' =>
    hh.apart c c' x (hmem hx) (hmem hx')⟩
  · obtain ⟨e, hc⟩ := (hact c).mp hc
    rw [update_of_ne e]
    exact hh.path c hc
  · by_cases e : c = b
    · rw [e, update_self]
    · rw [update_of_ne e]
      exact hh.idle c fun hact' => hc ((hact c).mpr ⟨e, hact'⟩)
  · by_cases e : c = b
    · rw [e, update_self]
      exact List.nodup_nil
    · rw [update_of_ne e]
      exact hh.nodup c

/-- **A node is put in front of a list.** -/
theorem Links.Holds.push (hh : h.Holds act lists) (hb : act b) (hx : ∀ c, x ∉ lists c) :
    (h.push b x).Holds act (update lists b (x :: lists b)) := by
  have hhead : h.head b = (lists b).head? := (hh.path b hb).read_eq
  have hne : ∀ {c y}, y ∈ lists c → x ≠ y := fun hy e => hx _ (e ▸ hy)
  have hnext : ∀ {c y}, y ∈ lists c → (h.push b x).next y = h.next y := by
    intro c y hy
    have hread := h.push_read b x (.next y)
    rwa [if_neg (nomatch ·), if_neg fun e => hne hy (Loc.next.inj e).symm] at hread
  refine ⟨fun c hc => ?_, fun c hc => ?_, fun c => ?_, fun c c' y hy hy' => ?_⟩
  · by_cases e : c = b
    · subst e
      rw [update_self]
      refine ⟨by rw [h.push_read, if_pos rfl], by rw [h.push_prevp, if_pos rfl], ?_⟩
      have hread : (h.push c x).read (.next x) = (lists c).head? := by
        rw [h.push_read, if_neg (nomatch ·), if_pos rfl, hhead]
      have hpath := hh.path c hc
      have hnodup := hh.nodup c
      cases hl : lists c with
      | nil =>
        rw [hl] at hread
        exact hread
      | cons y ys =>
        rw [hl] at hpath hread hhead hnodup
        have hy : y ∈ lists c := hl ▸ mem_cons_self
        refine ⟨hread, by rw [h.push_prevp, if_neg (hne hy), hhead, List.head?_cons, if_pos rfl], ?_⟩
        refine hpath.2.2.congr ys (hnext hy) fun z hz => ?_
        have hz' : z ∈ lists c := hl ▸ mem_cons_of_mem _ hz
        refine ⟨hnext hz', ?_⟩
        have hyz : y ≠ z := (ne_of_mem_of_not_mem hz (nodup_cons.mp hnodup).1).symm
        rw [h.push_prevp, if_neg (hne hz'), hhead, List.head?_cons, if_neg fun e => hyz (some.inj e)]
    · rw [update_of_ne e]
      refine (hh.path c hc).congr _ ?_ fun y hy => ⟨hnext hy, ?_⟩
      · rw [h.push_read, if_neg fun e' => e (Loc.head.inj e'), if_neg (nomatch ·)]
      · rw [h.push_prevp, if_neg (hne hy), hhead, if_neg]
        exact fun e' => e (hh.apart c b y hy (List.mem_of_mem_head? e'))
  · have e : c ≠ b := fun e => hc (e ▸ hb)
    rw [update_of_ne e]
    exact hh.idle c hc
  · by_cases e : c = b
    · rw [e, update_self]
      exact nodup_cons.mpr ⟨hx b, hh.nodup b⟩
    · rw [update_of_ne e]
      exact hh.nodup c
  · have hmem : ∀ {c}, y ∈ update lists b (x :: lists b) c → (y = x ∧ c = b) ∨ y ∈ lists c := by
      intro c hy
      by_cases e : c = b
      · rw [e, update_self] at hy
        exact (mem_cons.mp hy).imp (⟨·, e⟩) (e ▸ ·)
      · rw [update_of_ne e] at hy
        exact .inr hy
    rcases hmem hy with ⟨e, hc⟩ | hy
    · rcases hmem hy' with ⟨-, hc'⟩ | hy'
      · rw [hc, hc']
      · exact absurd (e ▸ hy') (hx c')
    · rcases hmem hy' with ⟨e, -⟩ | hy'
      · exact absurd (e ▸ hy) (hx c)
      · exact hh.apart c c' y hy hy'

/-- **A node is taken out of its list**; the link to it stands in the head or in a node of the list,
and the node behind it is one of the list. -/
theorem Links.Holds.unlink (hh : h.Holds act lists) (hx : x ∈ lists b) : ∃ q, h.prevp x = some q ∧ (q =
    .head b ∨ ∃ y ∈ lists b, q = .next y) ∧ (∀ y, h.next x = some y → y ∈ lists b) ∧ h.unlink x =
    some (h.pass q x) ∧ (h.pass q x).Holds act (update lists b ((lists b).erase x)) := by
  have hb := hh.act_of_mem hx
  obtain ⟨l₁, l₂, hl⟩ := List.append_of_mem hx
  have hnodup := hh.nodup b
  have hpath := hh.path b hb
  rw [hl] at hnodup hpath
  obtain ⟨q, hq, hwhere, hnext, hpass⟩ := hpath.pass l₁ hnodup fun y _ => (nomatch ·)
  have hwhere' : q = .head b ∨ ∃ y ∈ lists b, q = .next y := by
    refine hwhere.imp_right fun ⟨y, hy, e⟩ => ⟨y, ?_, e⟩
    rw [hl]
    exact List.mem_append_left _ hy
  have hnext' : ∀ y, h.next x = some y → y ∈ lists b := by
    intro y hy
    rw [hnext] at hy
    rw [hl]
    exact List.mem_append_right _ (mem_cons_of_mem _ (List.mem_of_mem_head? hy))
  have herase : (lists b).erase x = l₁ ++ l₂ := by
    have hx₁ : x ∉ l₁ := fun hx₁ =>
      (List.nodup_append.mp hnodup).2.2 x hx₁ x mem_cons_self rfl
    rw [hl, List.erase_append_right _ hx₁, List.erase_cons_head]
  have hmem : ∀ {c y}, y ∈ update lists b ((lists b).erase x) c → y ∈ lists c := by
    intro c y hy
    by_cases e : c = b
    · rw [e, update_self] at hy
      exact e ▸ List.mem_of_mem_erase hy
    · rwa [update_of_ne e] at hy
  refine ⟨q, hq, hwhere', hnext', by rw [Links.unlink, hq]; rfl, fun c hc => ?_, fun c hc => ?_,
    fun c => ?_, fun c c' y hy hy' => hh.apart c c' y (hmem hy) (hmem hy')⟩
  · by_cases e : c = b
    · rw [e, update_self, herase]
      exact hpass
    · rw [update_of_ne e]
      refine (hh.path c hc).congr _ ?_ fun y hy => ⟨?_, ?_⟩
      · rw [h.pass_read, if_neg]
        rintro rfl
        rcases hwhere' with e' | ⟨_, _, e'⟩
        · exact e (Loc.head.inj e')
        · cases e'
      · have hread := h.pass_read q (.next y) x
        rw [if_neg] at hread
        · exact hread
        · rintro rfl
          rcases hwhere' with e' | ⟨z, hz, e'⟩
          · cases e'
          · cases e'
            exact e (hh.apart c b y hy hz)
      · rw [h.pass_prevp, if_neg fun e' => e (hh.apart c b y hy (hnext' y e'))]
  · have e : c ≠ b := fun e => hc (e ▸ hb)
    rw [update_of_ne e]
    exact hh.idle c hc
  · by_cases e : c = b
    · rw [e, update_self]
      exact (hh.nodup b).erase x
    · rw [update_of_ne e]
      exact hh.nodup c

end Holds

/-! ### The lists of a key

The nodes of `l` are in the lists of their keys, and a node without a key is in none.
-/

/-- The lists are those of the key. -/
def Links.Groups (h : Links β ν) (act : β → Prop) (key : ν → Option β) (l : List ν) : Prop :=
  ∃ lists, h.Holds act lists ∧ ∀ b x, x ∈ lists b ↔ x ∈ l ∧ key x = some b

section Groups

variable {h h' : Links β ν} {act : β → Prop} {key key' : ν → Option β} {l : List ν} {b : β} {x : ν}

lemma Links.Groups.congr (hg : h.Groups act key l) (hhead : ∀ b, act b → h'.head b = h.head b)
    (hlinks : ∀ x ∈ l, h'.next x = h.next x ∧ h'.prevp x = h.prevp x)
    (hkey : ∀ x ∈ l, key' x = key x) : h'.Groups act key' l := by
  obtain ⟨lists, hh, hmem⟩ := hg
  refine ⟨lists, hh.congr hhead fun b x hx => hlinks x ((hmem b x).mp hx).1, fun b x => ?_⟩
  rw [hmem]
  exact and_congr_right fun hx => by rw [hkey x hx]

lemma Links.Groups.head_mem (hg : h.Groups act key l) (hb : act b) (hx : h.head b = some x) :
    x ∈ l ∧ key x = some b := by
  obtain ⟨lists, hh, hmem⟩ := hg
  have hread : h.head b = (lists b).head? := (hh.path b hb).read_eq
  rw [hx] at hread
  exact (hmem b x).mp (List.mem_of_mem_head? hread.symm)

lemma Links.Groups.head_ne_none (hg : h.Groups act key l) (hx : x ∈ l) (hkey : key x = some b) :
    act b ∧ h.head b ≠ none := by
  obtain ⟨lists, hh, hmem⟩ := hg
  have hxb := (hmem b x).mpr ⟨hx, hkey⟩
  have hb := hh.act_of_mem hxb
  refine ⟨hb, fun hnone => ?_⟩
  have hread : h.head b = (lists b).head? := (hh.path b hb).read_eq
  rw [hnone] at hread
  rw [List.head?_eq_none_iff.mp hread.symm] at hxb
  exact not_mem_nil hxb

lemma Links.Groups.push (hg : h.Groups act key l) (hb : act b) (hx : x ∉ l)
    (hkey : key x = some b) : (h.push b x).Groups act key (x :: l) := by
  obtain ⟨lists, hh, hmem⟩ := hg
  refine ⟨_, hh.push hb fun c hc => hx ((hmem c x).mp hc).1, fun c y => ?_⟩
  by_cases e : c = b
  · rw [e, update_self, mem_cons, mem_cons, hmem]
    constructor
    · rintro (rfl | ⟨hy, hy'⟩)
      · exact ⟨Or.inl rfl, hkey⟩
      · exact ⟨Or.inr hy, hy'⟩
    · rintro ⟨hy | hy, hy'⟩
      · exact .inl hy
      · exact .inr ⟨hy, hy'⟩
  · rw [update_of_ne e, hmem, mem_cons]
    refine and_congr_left fun hy => ⟨Or.inr, fun hor => hor.resolve_left ?_⟩
    rintro rfl
    exact e (some.inj (hy.symm.trans hkey))

lemma Links.Groups.cons (hg : h.Groups act key l) (hkey : key x = none) : h.Groups act key (x :: l) := by
  obtain ⟨lists, hh, hmem⟩ := hg
  refine ⟨lists, hh, fun c y => ?_⟩
  rw [hmem, mem_cons]
  refine and_congr_left fun hy => ⟨Or.inr, fun hor => hor.resolve_left ?_⟩
  rintro rfl
  exact (nomatch hy.symm.trans hkey)

lemma Links.Groups.unlink (hg : h.Groups act key l) (hl : l.Nodup) (hx : x ∈ l) (hkey : key x = some b) :
    act b ∧ ∃ q, h.prevp x = some q ∧ (q = .head b ∨ ∃ y ∈ l, q = .next y) ∧ (∀ y, h.next x = some y → y ∈ l) ∧
    h.unlink x = some (h.pass q x) ∧ (h.pass q x).Groups act key (l.erase x) := by
  obtain ⟨lists, hh, hmem⟩ := hg
  have hxb := (hmem b x).mpr ⟨hx, hkey⟩
  obtain ⟨q, hq, hwhere, hnext, hunlink, hh'⟩ := hh.unlink hxb
  refine ⟨hh.act_of_mem hxb, q, hq, hwhere.imp_right fun ⟨y, hy, e⟩ => ⟨y, ((hmem b y).mp hy).1, e⟩,
    fun y hy => ((hmem b y).mp (hnext y hy)).1, hunlink, _, hh', fun c y => ?_⟩
  rw [hl.mem_erase_iff, and_assoc, ← hmem]
  by_cases e : c = b
  · rw [e, update_self, (hh.nodup b).mem_erase_iff]
  · rw [update_of_ne e]
    refine ⟨fun hy => ⟨?_, hy⟩, And.right⟩
    rintro rfl
    exact e (hh.apart c b y hy hxb)

lemma Links.Groups.erase (hg : h.Groups act key l) (hl : l.Nodup) (hkey : key x = none) :
    h.Groups act key (l.erase x) := by
  obtain ⟨lists, hh, hmem⟩ := hg
  refine ⟨lists, hh, fun c y => ?_⟩
  rw [hmem, hl.mem_erase_iff]
  refine and_congr_left fun hy => ⟨fun hyl => ⟨?_, hyl⟩, And.right⟩
  rintro rfl
  exact (nomatch hy.symm.trans hkey)

lemma Links.Groups.enter (hg : h.Groups act key l) (hb : ¬act b) :
    (h.write (.head b) none).Groups (fun c => c = b ∨ act c) key l := by
  obtain ⟨lists, hh, hmem⟩ := hg
  exact ⟨lists, hh.enter hb, hmem⟩

lemma Links.Groups.leave {act' : β → Prop} (hg : h.Groups act key l) (hact : ∀ c, act' c ↔ c ≠ b ∧ act c)
    (hkey : ∀ x ∈ l, key' x = if key x = some b then none else key x) : h.Groups act' key' l := by
  obtain ⟨lists, hh, hmem⟩ := hg
  refine ⟨_, hh.leave hact, fun c x => ?_⟩
  by_cases e : c = b
  · rw [e, update_self]
    refine iff_of_false not_mem_nil fun ⟨hx, hx'⟩ => ?_
    rw [hkey x hx] at hx'
    split at hx'
    case isTrue => cases hx'
    case isFalse hne => exact hne hx'
  · rw [update_of_ne e, hmem]
    refine and_congr_right fun hx => ?_
    rw [hkey x hx]
    split
    case isTrue hxb =>
      rw [hxb]
      exact iff_of_false (fun e' => e (some.inj e').symm) (nomatch ·)
    case isFalse => rfl

end Groups

end Nefarious.Lib.Hlist
