import Nefarious.Lib.Dll

/-!
# Doubly linked lists with both ends

A doubly linked list of which both ends are known.
-/

namespace Nefarious.Lib.Dll

variable {ν : Type} [DecidableEq ν] {h : ν → Links ν} {top bottom : Option ν} {l : List ν} {x : ν}

/-- A list with both ends, from the top on. -/
structure IsDeque (h : ν → Links ν) (top bottom : Option ν) (l : List ν) : Prop where
  isList : IsList h top l
  bottom_eq : bottom = l.getLast?

/-- The bottom after a node was added at the top. -/
def pushBottom (bottom : Option ν) (x : ν) : Option ν :=
  match bottom with
  | some y => some y
  | none => some x

/-- The top after a node was cut out. -/
def cutTop (h : ν → Links ν) (top : Option ν) (x : ν) : Option ν :=
  if top = some x then (h x).next else top

/-- The bottom after a node was cut out. -/
def cutBottom (h : ν → Links ν) (bottom : Option ν) (x : ν) : Option ν :=
  if bottom = some x then (h x).prev else bottom

omit [DecidableEq ν] in
lemma isDeque_nil (h : ν → Links ν) : IsDeque h none none [] := ⟨⟨rfl, List.nodup_nil⟩, rfl⟩

omit [DecidableEq ν] in
lemma IsDeque.top_eq (hl : IsDeque h top bottom l) : top = l.head? := hl.isList.chain.head_eq

/-- **A node is added at the top.** -/
theorem push_isDeque (hl : IsDeque h top bottom l) (hx : x ∉ l) :
    IsDeque (push h top x).1 (some x) (pushBottom bottom x) (x :: l) := by
  have htop : (push h top x).2 = some x := by
    unfold push
    cases top with
    | none => rfl
    | some y => rfl
  refine ⟨htop ▸ push_isList hl.isList hx, ?_⟩
  rw [hl.bottom_eq]
  cases l with
  | nil => rfl
  | cons y l =>
    rw [List.getLast?_cons_cons, List.getLast?_cons]
    rfl

lemma push_isDeque_of_notMem {top' bottom' : Option ν} {l' : List ν} (hl : IsDeque h top bottom l)
    (hl' : IsDeque h top' bottom' l') (hdis : ∀ y ∈ l, y ∉ l') (hx : x ∉ l') :
    IsDeque (push h top x).1 top' bottom' l' := by
  refine ⟨hl'.isList.congr fun y hy => push_frame ?_ ?_, hl'.bottom_eq⟩
  · rintro rfl
    exact hx hy
  · intro htop
    rw [hl.top_eq] at htop
    exact hdis y (List.mem_of_mem_head? htop) hy

omit [DecidableEq ν] in
lemma Chain.prev_last {h : ν → Links ν} {x : ν} :
    (l : List ν) → ∀ {p hd : Option ν}, Chain h p hd (l ++ [x]) → (h x).prev = if l = [] then p else l.getLast?
  | [], _, _, hc => hc.2.1
  | y :: l, _, _, hc => by
    have ih := Chain.prev_last l hc.2.2
    rw [ih]
    cases l with
    | nil => rfl
    | cons z l => simp [List.getLast?_cons]

/-- **A node is cut out of its list.** -/
theorem cut_isDeque (hl : IsDeque h top bottom l) (hx : x ∈ l) (hd : Option ν) :
    IsDeque (unlink h hd x).1 (cutTop h top x) (cutBottom h bottom x) (l.erase x) := by
  have hlist := unlink_isList hl.isList hx
  have htop : (unlink h top x).2 = cutTop h top x := by
    unfold unlink cutTop
    by_cases htop : top = some x
    · rw [if_pos htop, if_pos ((hl.isList.prev_eq_none_iff hx).mpr htop)]
    · rw [if_neg htop, if_neg fun hp => htop ((hl.isList.prev_eq_none_iff hx).mp hp)]
  refine ⟨htop ▸ hlist, ?_⟩
  obtain ⟨ys, z, rfl⟩ : ∃ ys z, l = ys ++ [z] :=
    ⟨_, _, (List.dropLast_append_getLast (List.ne_nil_of_mem hx)).symm⟩
  have hnodup := hl.isList.nodup
  rw [cutBottom, hl.bottom_eq, List.getLast?_concat]
  by_cases hzx : z = x
  · subst hzx
    have hz : z ∉ ys := fun hz => by
      rw [List.nodup_append] at hnodup
      exact hnodup.2.2 z hz z (List.mem_singleton.mpr rfl) rfl
    rw [if_pos rfl, Chain.prev_last ys hl.isList.chain, List.erase_append_right _ hz,
      List.erase_cons_head, List.append_nil]
    cases ys with
    | nil => rfl
    | cons y ys => rfl
  · have hxs : x ∈ ys := by
      obtain hxs | hxs := List.mem_append.mp hx
      · exact hxs
      · exact absurd (List.mem_singleton.mp hxs).symm hzx
    rw [if_neg (by simpa using hzx), List.erase_append_left _ hxs, List.getLast?_concat]

/-- **Another list stays** when a node is cut out. -/
theorem cut_isDeque_of_notMem {top' bottom' : Option ν} {l' : List ν} (hl : IsDeque h top bottom l)
    (hx : x ∈ l) (hl' : IsDeque h top' bottom' l') (hdis : ∀ y ∈ l, y ∉ l') (hd : Option ν) :
    IsDeque (unlink h hd x).1 (cutTop h top' x) (cutBottom h bottom' x) l' := by
  have hx' := hdis x hx
  have htop : cutTop h top' x = top' := by
    unfold cutTop
    rw [if_neg]
    intro htop
    rw [hl'.top_eq] at htop
    exact hx' (List.mem_of_mem_head? htop)
  have hbottom : cutBottom h bottom' x = bottom' := by
    unfold cutBottom
    rw [if_neg]
    intro hbottom
    rw [hl'.bottom_eq] at hbottom
    exact hx' (List.mem_of_getLast? hbottom)
  rw [htop, hbottom]
  refine ⟨hl'.isList.congr fun y hy => ?_, hl'.bottom_eq⟩
  have hframe : (unlink h top x).1 y = h y := unlink_frame_of_not_mem hl.isList hx fun hyl => hdis y hyl hy
  exact hframe

end Nefarious.Lib.Dll
