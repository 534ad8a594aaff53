import Nefarious.Network.Linked

/-!
# New servers and new connections

The two ways a network changes other than by removals: a client becomes a server (`Net.link`), and a connection
gets a record that is no server's (`Net.setPlain`).
-/

namespace Nefarious.Network

open Option (some.inj)
open List (mem_cons mem_cons_of_mem nodup_cons)
open Function (update update_of_ne update_self)

open Nefarious.Lib Nefarious.Lib.Dll

/-! ## A client becomes a server -/

namespace Net

variable {N : Net}

/-- The network after the client `x` became a server with the record `c` behind `p`; the global list
and the name table are given. -/
def link (N : Net) (x p : ClientId) (c : Client) (list : List ClientId) (tab : ℕ → List ClientId) : Net where
  me := N.me
  crc32hash := N.crc32hash
  cli := update N.cli x (some c)
  clientTable := tab
  server_list := update N.server_list (base64toint c.yxx) (some x)
  client_list := update N.client_list x (some (fun _ => none))
  localClientArray := N.localClientArray
  list := list
  downs := update N.downs p (x :: N.downs p)

/-- When a client may become a server: it is none yet, its uplink is one, its numeric slot is free
and no other client has its name. -/
structure CanLink (N : Net) (x p : ClientId) (c pc : Client) (sv : Serv) : Prop where
  plain : ∀ c₀, N.cli x = some c₀ → ¬ IsServerOrMe c₀
  status : c.status = .server
  serv : c.serv = some sv
  up : sv.up = p
  user : c.user = none
  cstr : IsCStr c.name
  uplink : N.cli p = some pc ∧ IsServerOrMe pc
  slot : N.server_list (base64toint c.yxx) = none
  name : ∀ b y d, y ≠ x → y ∈ N.clientTable b → N.cli y = some d → strEq d.name c.name = false
  link : (p = N.me ∧ c.cli_from = x) ∨ (pc.status = .server ∧ pc.cli_from = c.cli_from)
  conn : ∀ i, N.localClientArray i = some x → c.fd = some i ∧ c.cli_from = x ∧ p = N.me
  fd : ∀ i, c.cli_from = x → c.fd = some i → N.localClientArray i = some x

/-- The name table with `x` at the bucket of `name`, if it is hashed at all, and the other clients
as before. -/
def Rehash (N : Net) (x : ClientId) (hashed : Prop) (name : Str) (tab : ℕ → List ClientId) : Prop :=
  ∀ b, (tab b).Nodup ∧ ∀ y, y ∈ tab b ↔
    (y = x ∧ hashed ∧ b = strhash N.crc32hash name) ∨ (y ≠ x ∧ y ∈ N.clientTable b)

lemma WF.me_alive (wf : N.WF) : ∃ c, N.cli N.me = some c ∧ c.status = .me := by
  obtain ⟨l, hl⟩ := wf.list_last
  obtain ⟨c, hc⟩ := wf.list_alive N.me (by rw [hl]; simp)
  exact ⟨c, hc, (wf.me_iff _ c hc).mpr rfl⟩

lemma update_cli_cases {f : ClientId → Option Client} {x y : ClientId} {c d : Client}
    (h : update f x (some c) y = some d) : (y = x ∧ d = c) ∨ (y ≠ x ∧ f y = some d) := by
  by_cases e : y = x
  · subst e
    rw [update_self] at h
    exact .inl ⟨rfl, (some.inj h).symm⟩
  · rw [update_of_ne e] at h
    exact .inr ⟨e, h⟩

section Placed

variable {x : ClientId} {l l' : List ClientId} (h : (l' = l ∧ x ∈ l) ∨ (l' = x :: l ∧ x ∉ l))

include h

lemma mem_placed (y : ClientId) : y ∈ l' ↔ y = x ∨ y ∈ l := by
  rcases h with ⟨rfl, hx⟩ | ⟨rfl, _⟩
  · refine ⟨Or.inr, ?_⟩
    rintro (rfl | hy)
    · exact hx
    · exact hy
  · exact mem_cons

lemma nodup_placed (hl : l.Nodup) : l'.Nodup := by
  rcases h with ⟨rfl, _⟩ | ⟨rfl, hx⟩
  · exact hl
  · exact nodup_cons.mpr ⟨hx, hl⟩

lemma last_placed {z : ClientId} (hl : ∃ k, l = k ++ [z]) : ∃ k, l' = k ++ [z] := by
  obtain ⟨k, rfl⟩ := hl
  rcases h with ⟨rfl, _⟩ | ⟨rfl, _⟩
  · exact ⟨k, rfl⟩
  · exact ⟨x :: k, rfl⟩

end Placed

/-- The names in the table are still different, when that of the client is. -/
lemma Good.names_update (hg : N.Good) {x : ClientId} {c : Client} {hashed : Prop} {tab : ℕ → List ClientId}
    (htab : N.Rehash x hashed c.name tab)
    (hname : hashed → ∀ b y d, y ≠ x → y ∈ N.clientTable b → N.cli y = some d → strEq d.name c.name = false) :
    ∀ b y b' z d e, y ∈ tab b → z ∈ tab b' → update N.cli x (some c) y = some d → update N.cli x (some c) z =
    some e → strEq d.name e.name = true → y = z := by
  intro b y b' z d e hy hz hd he hn
  rcases ((htab b).2 y).mp hy with ⟨hyx, hhash, _⟩ | ⟨hyx, hyN⟩
  · rcases ((htab b').2 z).mp hz with ⟨hzx, _⟩ | ⟨hzx, hzN⟩
    · rw [hyx, hzx]
    · rw [hyx, update_self] at hd
      rw [update_of_ne hzx] at he
      rw [← some.inj hd, strEq_comm, hname hhash b' z e hzx hzN he] at hn
      cases hn
  · rw [update_of_ne hyx] at hd
    rcases ((htab b').2 z).mp hz with ⟨hzx, hhash, _⟩ | ⟨hzx, hzN⟩
    · rw [hzx, update_self] at he
      rw [← some.inj he, hname hhash b y d hyx hyN hd] at hn
      cases hn
    · rw [update_of_ne hzx] at he
      exact hg.names b y b' z d e hyN hzN hd he hn

section Link

variable {x p : ClientId} {c pc : Client} {sv : Serv} {list : List ClientId}
  {tab : ℕ → List ClientId}

lemma link_cli_cases {y : ClientId} {d : Client}
    (h : (N.link x p c list tab).cli y = some d) : (y = x ∧ d = c) ∨ (y ≠ x ∧ N.cli y = some d) :=
  update_cli_cases h

lemma link_cli_self : (N.link x p c list tab).cli x = some c := by
  simp [link]

lemma link_cli_of_ne {y : ClientId} (h : y ≠ x) : (N.link x p c list tab).cli y = N.cli y := by
  simp [link, update_of_ne h]

/-- **Linking keeps the tree.** The new server is a leaf, so its depth is free to choose. -/
theorem WF.link (wf : N.WF) (hno : ∀ y d, N.cli y = some d → d.user = none ∧ d.status ≠ .user)
    (h : N.CanLink x p c pc sv) (htab : N.Rehash x True c.name tab)
    (hlist : (list = N.list ∧ x ∈ N.list) ∨ (list = x :: N.list ∧ x ∉ N.list)) :
    (N.link x p c list tab).WF := by
  obtain ⟨hp, hps⟩ := h.uplink
  obtain ⟨cm, hcm, hcms⟩ := wf.me_alive
  have hxme : x ≠ N.me := by
    rintro rfl
    exact h.plain cm hcm (Or.inr hcms)
  have hpx : p ≠ x := by
    rintro rfl
    exact h.plain pc hp hps
  have hsxd : ∀ q, x ∉ N.downs q := by
    intro q hx
    obtain ⟨d, _, hd, hds, _⟩ := (wf.downs_iff q x).mp hx
    exact h.plain d hd (Or.inl hds)
  refine
    { me_iff := ?_, list_last := last_placed hlist wf.list_last,
      list_nodup := nodup_placed hlist wf.list_nodup, list_alive := ?_, list_server := ?_,
      table_nodup := fun b => (htab b).1, table_hash := ?_, table_server := ?_,
      server_list_yxx := ?_, serv_server := ?_, yxx_user := ?_, client_list_server := ?_,
      up_server := ?_, downs_iff := ?_, downs_nodup := ?_, tree := ?_, slot_user := ?_,
      user_slot := ?_, local_fd := ?_, local_self := ?_ }
  · intro y d hy
    rcases link_cli_cases hy with ⟨rfl, rfl⟩ | ⟨_, hy⟩
    · refine ⟨fun e => ?_, fun e => absurd e hxme⟩
      rw [h.status] at e
      cases e
    · exact wf.me_iff y d hy
  · intro y hy
    by_cases e : y = x
    · exact ⟨c, e ▸ link_cli_self⟩
    · rw [link_cli_of_ne e]
      exact wf.list_alive y (((mem_placed hlist y).mp hy).resolve_left e)
  · intro y d hy hs
    rcases link_cli_cases hy with ⟨rfl, _⟩ | ⟨_, hy⟩
    · exact (mem_placed hlist y).mpr (Or.inl rfl)
    · exact (mem_placed hlist y).mpr (Or.inr (wf.list_server y d hy hs))
  · intro b y hy
    rcases ((htab b).2 y).mp hy with ⟨rfl, _, rfl⟩ | ⟨hne, hy⟩
    · exact ⟨c, link_cli_self, rfl⟩
    · rw [link_cli_of_ne hne]
      exact wf.table_hash b y hy
  · intro y d hy hs
    refine ((htab _).2 y).mpr ?_
    rcases link_cli_cases hy with ⟨rfl, rfl⟩ | ⟨hne, hy⟩
    · exact .inl ⟨rfl, trivial, rfl⟩
    · exact .inr ⟨hne, wf.table_server y d hy hs⟩
  · intro i y hy
    by_cases hi : i = base64toint c.yxx
    · subst hi
      simp only [Net.link, update_self, Option.some.injEq] at hy
      subst hy
      exact ⟨c, link_cli_self, Or.inl h.status, rfl⟩
    · simp only [Net.link, update_of_ne hi] at hy
      obtain ⟨d, hd, hds, hdi⟩ := wf.server_list_yxx i y hy
      have hyx : y ≠ x := by
        rintro rfl
        exact h.plain d hd hds
      exact ⟨d, (link_cli_of_ne hyx).trans hd, hds, hdi⟩
  · intro y d hy hs
    rcases link_cli_cases hy with ⟨rfl, rfl⟩ | ⟨_, hy⟩
    · exact ⟨by rw [h.serv]; rfl, h.user⟩
    · exact wf.serv_server y d hy hs
  · intro y d us hy hs hus
    rcases link_cli_cases hy with ⟨rfl, rfl⟩ | ⟨_, hy⟩
    · rw [h.user] at hus
      cases hus
    · exact wf.yxx_user y d us hy hs hus
  · intro y
    by_cases e : y = x
    · subst e
      simp only [link_cli_self, Option.some.injEq, exists_eq_left']
      simp [Net.link, IsServerOrMe, h.status]
    · rw [link_cli_of_ne e, ← wf.client_list_server y]
      simp [Net.link, update_of_ne e]
  · intro y d dsv hy hs hsv
    rcases link_cli_cases hy with ⟨rfl, rfl⟩ | ⟨_, hy⟩
    · rw [h.serv] at hsv
      cases hsv
      rw [h.up, link_cli_of_ne hpx]
      exact ⟨pc, hp, hps⟩
    · obtain ⟨q, hq, hqs⟩ := wf.up_server y d dsv hy hs hsv
      have hqx : dsv.up ≠ x := by
        intro e
        exact h.plain q (e ▸ hq) hqs
      exact ⟨q, (link_cli_of_ne hqx).trans hq, hqs⟩
  · intro q y
    constructor
    · intro hy
      by_cases hq : q = p
      · subst hq
        simp only [Net.link, update_self, mem_cons] at hy
        rcases hy with rfl | hy
        · exact ⟨c, sv, link_cli_self, h.status, h.serv, h.up⟩
        · obtain ⟨d, dsv, hd, hrest⟩ := (wf.downs_iff q y).mp hy
          have hyx : y ≠ x := fun e => hsxd q (e ▸ hy)
          exact ⟨d, dsv, (link_cli_of_ne hyx).trans hd, hrest⟩
      · simp only [Net.link, update_of_ne hq] at hy
        obtain ⟨d, dsv, hd, hrest⟩ := (wf.downs_iff q y).mp hy
        have hyx : y ≠ x := fun e => hsxd q (e ▸ hy)
        exact ⟨d, dsv, (link_cli_of_ne hyx).trans hd, hrest⟩
    · rintro ⟨d, dsv, hd, hs, hsv, hup⟩
      rcases link_cli_cases hd with ⟨rfl, rfl⟩ | ⟨_, hd⟩
      · rw [h.serv] at hsv
        cases hsv
        rw [← hup, h.up]
        simp [Net.link]
      · have hy := (wf.downs_iff q y).mpr ⟨d, dsv, hd, hs, hsv, hup⟩
        by_cases hq : q = p
        · subst hq
          simp only [Net.link, update_self]
          exact mem_cons_of_mem _ hy
        · simpa only [Net.link, update_of_ne hq] using hy
  · intro q
    by_cases hq : q = p
    · subst hq
      simp only [Net.link, update_self]
      exact nodup_cons.mpr ⟨hsxd q, wf.downs_nodup q⟩
    · simp only [Net.link, update_of_ne hq]
      exact wf.downs_nodup q
  · obtain ⟨depth, hd⟩ := wf.tree
    refine ⟨update depth x (depth p + 1), ?_⟩
    intro y d dsv hy hs hsv
    rcases link_cli_cases hy with ⟨rfl, rfl⟩ | ⟨hyx, hy⟩
    · rw [h.serv] at hsv
      cases hsv
      rw [h.up, update_of_ne hpx, update_self]
      omega
    · obtain ⟨q, hq, hqs⟩ := wf.up_server y d dsv hy hs hsv
      have hqx : dsv.up ≠ x := by
        intro e
        exact h.plain q (e ▸ hq) hqs
      rw [update_of_ne hyx, update_of_ne hqx]
      exact hd y d dsv hy hs hsv
  · intro q cl i u hq hu
    by_cases e : q = x
    · subst e
      simp only [Net.link, update_self, Option.some.injEq] at hq
      subst hq
      cases hu
    · simp only [Net.link, update_of_ne e] at hq
      obtain ⟨_, _, d, _, _, _, hd, hds, _⟩ := wf.slot_user q cl i u hq hu
      exact absurd hds (hno u d hd).2
  · intro u d hu hs
    rcases link_cli_cases hu with ⟨rfl, rfl⟩ | ⟨_, hu⟩
    · rw [h.status] at hs
      cases hs
    · exact absurd hs (hno u d hu).2
  · intro i y hy
    by_cases e : y = x
    · subst e
      obtain ⟨h1, h2, h3⟩ := h.conn i hy
      refine ⟨c, link_cli_self, h1, h2, fun us hs => ?_, fun sv' _ hsv' => ?_⟩
      · rw [h.status] at hs
        cases hs
      · rw [h.serv] at hsv'
        cases hsv'
        exact h.up.trans h3
    · rw [link_cli_of_ne e]
      exact wf.local_fd i y hy
  · intro y d i z hy hfrom hfd hz
    rcases link_cli_cases hy with ⟨rfl, rfl⟩ | ⟨_, hy⟩
    · exact some.inj (hz.symm.trans (h.fd i hfrom hfd))
    · exact wf.local_self y d i z hy hfrom hfd hz

/-- **Linking keeps the invariant.** -/
theorem Good.link (hg : N.Good) (h : N.CanLink x p c pc sv) (htab : N.Rehash x True c.name tab)
    (hlist : (list = N.list ∧ x ∈ N.list) ∨ (list = x :: N.list ∧ x ∉ N.list)) :
    (N.link x p c list tab).Good := by
  obtain ⟨hp, hps⟩ := h.uplink
  have hpx : p ≠ x := by
    rintro rfl
    exact h.plain pc hp hps
  have hsrv : ∀ {q : Prop}, c.status = .handshake ∨ c.status = .connecting → q := by
    intro q e
    rcases e with e | e <;> rw [h.status] at e <;> cases e
  refine
    { toSound :=
        { toWF := hg.toWF.link hg.nouser h htab hlist, cstr := ?_, hashed := ?_,
          pending_hashed := ?_, pending_up := ?_, nouser := ?_, slots := ?_, from_up := ?_,
          self_from := ?_, listed := ?_, fd_array := ?_ }
      names := ?_ }
  · intro y d hy
    rcases link_cli_cases hy with ⟨_, rfl⟩ | ⟨_, hy⟩
    · exact h.cstr
    · exact hg.cstr y d hy
  · intro b y d hy hd
    rcases link_cli_cases hd with ⟨_, rfl⟩ | ⟨hne, hd⟩
    · exact .inl (Or.inl h.status)
    · rcases ((htab b).2 y).mp hy with ⟨e, _⟩ | ⟨_, hy⟩
      · exact absurd e hne
      · exact hg.hashed b y d hy hd
  · intro y d hy hs
    rcases link_cli_cases hy with ⟨_, rfl⟩ | ⟨hne, hy⟩
    · exact hsrv hs
    · exact ((htab _).2 y).mpr (Or.inr ⟨hne, hg.pending_hashed y d hy hs⟩)
  · intro y d hy hs
    rcases link_cli_cases hy with ⟨_, rfl⟩ | ⟨_, hy⟩
    · exact hsrv hs
    · exact hg.pending_up y d hy hs
  · intro y d hy
    rcases link_cli_cases hy with ⟨_, rfl⟩ | ⟨_, hy⟩
    · refine ⟨h.user, fun e => ?_⟩
      rw [h.status] at e
      cases e
    · exact hg.nouser y d hy
  · intro y d hy hs
    rcases link_cli_cases hy with ⟨rfl, rfl⟩ | ⟨_, hy⟩
    · simp [Net.link]
    · have hslot := hg.slots y d hy hs
      have hne : base64toint d.yxx ≠ base64toint c.yxx := by
        intro e
        rw [e, h.slot] at hslot
        cases hslot
      simpa only [Net.link, update_of_ne hne] using hslot
  · intro y d dsv hy hs hsv
    rcases link_cli_cases hy with ⟨rfl, rfl⟩ | ⟨_, hy⟩
    · rw [h.serv] at hsv
      cases hsv
      rcases h.link with ⟨e1, e2⟩ | ⟨e1, e2⟩
      · exact .inl ⟨h.up.trans e1, e2⟩
      · exact .inr ⟨pc, by rw [h.up, link_cli_of_ne hpx]; exact hp, e1, e2⟩
    · rcases hg.from_up y d dsv hy hs hsv with e | ⟨q, hq, hqs, hqf⟩
      · exact .inl e
      · have hqx : dsv.up ≠ x := fun e => h.plain q (e ▸ hq) (Or.inl hqs)
        exact .inr ⟨q, (link_cli_of_ne hqx).trans hq, hqs, hqf⟩
  · intro y d hy hs
    rcases link_cli_cases hy with ⟨_, rfl⟩ | ⟨_, hy⟩
    · exact absurd (Or.inl h.status) hs
    · exact hg.self_from y d hy hs
  · intro y d hy
    refine (mem_placed hlist y).mpr ?_
    rcases link_cli_cases hy with ⟨rfl, _⟩ | ⟨_, hy⟩
    · exact .inl rfl
    · exact .inr (hg.listed y d hy)
  · intro y d i hy hfrom hfd
    rcases link_cli_cases hy with ⟨rfl, rfl⟩ | ⟨_, hy⟩
    · exact h.fd i hfrom hfd
    · exact hg.fd_array y d i hy hfrom hfd
  · exact hg.names_update htab fun _ => h.name

end Link

/-- The network after the client `x` got the record `c`, which is no server's. -/
def setPlain (N : Net) (x : ClientId) (c : Client) (list : List ClientId)
    (tab : ℕ → List ClientId) (loc : ℕ → Option ClientId) : Net where
  me := N.me
  crc32hash := N.crc32hash
  cli := update N.cli x (some c)
  clientTable := tab
  server_list := N.server_list
  client_list := N.client_list
  localClientArray := loc
  list := list
  downs := N.downs

/-- An outgoing connection, which is in the name table. -/
def IsPending (c : Client) : Prop := c.status = .handshake ∨ c.status = .connecting

/-- When a client may get a record that is no server's. -/
structure CanSet (N : Net) (x : ClientId) (c : Client) (list : List ClientId)
    (tab : ℕ → List ClientId) (loc : ℕ → Option ClientId) : Prop where
  plain₀ : ∀ c₀, N.cli x = some c₀ → ¬ IsServerOrMe c₀
  plain : ¬ IsServerOrMe c
  nouser : c.user = none ∧ c.status ≠ .user
  cstr : IsCStr c.name
  list : (list = N.list ∧ x ∈ N.list) ∨ (list = x :: N.list ∧ x ∉ N.list)
  table : N.Rehash x (IsPending c) c.name tab
  up : IsPending c → ∃ sv, c.serv = some sv ∧ sv.up = N.me
  self : c.cli_from = x
  loc : ∀ i y, loc i = some y ↔ (y = x ∧ c.fd = some i) ∨ (y ≠ x ∧ N.localClientArray i = some y)

section SetPlain

variable {x : ClientId} {c : Client} {list : List ClientId} {tab : ℕ → List ClientId}
  {loc : ℕ → Option ClientId}

lemma setPlain_cli_cases {y : ClientId} {d : Client} (h : (N.setPlain x c list tab loc).cli y = some d) :
    (y = x ∧ d = c) ∨ (y ≠ x ∧ N.cli y = some d) :=
  update_cli_cases h

lemma setPlain_cli_self : (N.setPlain x c list tab loc).cli x = some c := by
  simp [setPlain]

lemma setPlain_cli_of_ne {y : ClientId} (h : y ≠ x) : (N.setPlain x c list tab loc).cli y = N.cli y := by
  simp [setPlain, update_of_ne h]

lemma CanSet.ne_of_server (h : N.CanSet x c list tab loc) {y : ClientId} {d : Client}
    (hd : N.cli y = some d) (hs : IsServerOrMe d) : y ≠ x := by
  rintro rfl
  exact h.plain₀ d hd hs

lemma Sound.setPlain_wf (hg : N.Sound) (h : N.CanSet x c list tab loc) :
    (N.setPlain x c list tab loc).WF := by
  have wf := hg.toWF
  obtain ⟨cm, hcm, hcms⟩ := wf.me_alive
  have hxme : N.me ≠ x := h.ne_of_server hcm (Or.inr hcms)
  refine
    { me_iff := ?_, list_last := last_placed h.list wf.list_last,
      list_nodup := nodup_placed h.list wf.list_nodup, list_alive := ?_, list_server := ?_,
      table_nodup := fun b => (h.table b).1, table_hash := ?_, table_server := ?_,
      server_list_yxx := ?_, serv_server := ?_, yxx_user := ?_, client_list_server := ?_,
      up_server := ?_, downs_iff := ?_, downs_nodup := wf.downs_nodup, tree := ?_, slot_user := ?_,
      user_slot := ?_, local_fd := ?_, local_self := ?_ }
  · intro y d hy
    rcases setPlain_cli_cases hy with ⟨rfl, rfl⟩ | ⟨_, hy⟩
    · exact ⟨fun e => absurd (Or.inr e) h.plain, fun e => absurd e.symm hxme⟩
    · exact wf.me_iff y d hy
  · intro y hy
    by_cases e : y = x
    · exact ⟨c, e ▸ setPlain_cli_self⟩
    · rw [setPlain_cli_of_ne e]
      exact wf.list_alive y (((mem_placed h.list y).mp hy).resolve_left e)
  · intro y d hy hs
    rcases setPlain_cli_cases hy with ⟨_, rfl⟩ | ⟨_, hy⟩
    · exact absurd (Or.inl hs) h.plain
    · exact (mem_placed h.list y).mpr (Or.inr (wf.list_server y d hy hs))
  · intro b y hy
    rcases ((h.table b).2 y).mp hy with ⟨rfl, _, rfl⟩ | ⟨hne, hy⟩
    · exact ⟨c, setPlain_cli_self, rfl⟩
    · rw [setPlain_cli_of_ne hne]
      exact wf.table_hash b y hy
  · intro y d hy hs
    rcases setPlain_cli_cases hy with ⟨_, rfl⟩ | ⟨hne, hy⟩
    · exact absurd hs h.plain
    · exact ((h.table _).2 y).mpr (Or.inr ⟨hne, wf.table_server y d hy hs⟩)
  · intro i y hy
    obtain ⟨d, hd, hds, hdi⟩ := wf.server_list_yxx i y hy
    exact ⟨d, (setPlain_cli_of_ne (h.ne_of_server hd hds)).trans hd, hds, hdi⟩
  · intro y d hy hs
    rcases setPlain_cli_cases hy with ⟨_, rfl⟩ | ⟨_, hy⟩
    · exact absurd hs h.plain
    · exact wf.serv_server y d hy hs
  · intro y d us hy hs hus
    rcases setPlain_cli_cases hy with ⟨_, rfl⟩ | ⟨_, hy⟩
    · rw [h.nouser.1] at hus
      cases hus
    · exact wf.yxx_user y d us hy hs hus
  · intro y
    constructor
    · intro hy
      obtain ⟨d, hd, hds⟩ := (wf.client_list_server y).mp hy
      exact ⟨d, (setPlain_cli_of_ne (h.ne_of_server hd hds)).trans hd, hds⟩
    · rintro ⟨d, hd, hds⟩
      rcases setPlain_cli_cases hd with ⟨_, rfl⟩ | ⟨_, hd⟩
      · exact absurd hds h.plain
      · exact (wf.client_list_server y).mpr ⟨d, hd, hds⟩
  · intro y d dsv hy hs hsv
    rcases setPlain_cli_cases hy with ⟨_, rfl⟩ | ⟨_, hy⟩
    · exact absurd (Or.inl hs) h.plain
    · obtain ⟨q, hq, hqs⟩ := wf.up_server y d dsv hy hs hsv
      exact ⟨q, (setPlain_cli_of_ne (h.ne_of_server hq hqs)).trans hq, hqs⟩
  · intro q y
    refine (wf.downs_iff q y).trans ⟨?_, ?_⟩
    · rintro ⟨d, dsv, hd, hs, hrest⟩
      exact ⟨d, dsv, (setPlain_cli_of_ne (h.ne_of_server hd (Or.inl hs))).trans hd, hs, hrest⟩
    · rintro ⟨d, dsv, hd, hs, hrest⟩
      rcases setPlain_cli_cases hd with ⟨_, rfl⟩ | ⟨_, hd⟩
      · exact absurd (Or.inl hs) h.plain
      · exact ⟨d, dsv, hd, hs, hrest⟩
  · obtain ⟨depth, hd⟩ := wf.tree
    refine ⟨depth, fun y d dsv hy hs hsv => ?_⟩
    rcases setPlain_cli_cases hy with ⟨_, rfl⟩ | ⟨_, hy⟩
    · exact absurd (Or.inl hs) h.plain
    · exact hd y d dsv hy hs hsv
  · intro q cl i u hq hu
    obtain ⟨_, _, d, _, _, _, hd, hds, _⟩ := wf.slot_user q cl i u hq hu
    exact absurd hds (hg.nouser u d hd).2
  · intro u d hu hs
    rcases setPlain_cli_cases hu with ⟨_, rfl⟩ | ⟨_, hu⟩
    · exact absurd hs h.nouser.2
    · exact absurd hs (hg.nouser u d hu).2
  · intro i y hy
    rcases (h.loc i y).mp hy with ⟨rfl, hfd⟩ | ⟨hne, hy⟩
    · refine ⟨c, setPlain_cli_self, hfd, h.self, fun us hs => absurd hs h.nouser.2, ?_⟩
      exact fun sv hs => absurd (Or.inl hs) h.plain
    · rw [setPlain_cli_of_ne hne]
      exact wf.local_fd i y hy
  · intro y d i z hy hfrom hfd hz
    have hyi : loc i = some y := by
      refine (h.loc i y).mpr ?_
      rcases setPlain_cli_cases hy with ⟨rfl, rfl⟩ | ⟨hne, hy⟩
      · exact .inl ⟨rfl, hfd⟩
      · exact .inr ⟨hne, hg.fd_array y d i hy hfrom hfd⟩
    exact some.inj (hz.symm.trans hyi)

/-- **Changing a record that is no server's keeps a network sound.** -/
theorem Sound.setPlain (hg : N.Sound) (h : N.CanSet x c list tab loc) :
    (N.setPlain x c list tab loc).Sound := by
  refine
    { toWF := hg.setPlain_wf h, cstr := ?_, hashed := ?_,
      pending_hashed := ?_, pending_up := ?_, nouser := ?_, slots := ?_, from_up := ?_,
      self_from := ?_, listed := ?_, fd_array := ?_ }
  · intro y d hy
    rcases setPlain_cli_cases hy with ⟨_, rfl⟩ | ⟨_, hy⟩
    · exact h.cstr
    · exact hg.cstr y d hy
  · intro b y d hy hd
    rcases ((h.table b).2 y).mp hy with ⟨rfl, hpend, _⟩ | ⟨hne, hyN⟩
    · rcases setPlain_cli_cases hd with ⟨_, rfl⟩ | ⟨hne, _⟩
      · exact .inr hpend
      · exact absurd rfl hne
    · rw [setPlain_cli_of_ne hne] at hd
      exact hg.hashed b y d hyN hd
  · intro y d hy hs
    rcases setPlain_cli_cases hy with ⟨rfl, rfl⟩ | ⟨hne, hy⟩
    · exact ((h.table _).2 y).mpr (Or.inl ⟨rfl, hs, rfl⟩)
    · exact ((h.table _).2 y).mpr (Or.inr ⟨hne, hg.pending_hashed y d hy hs⟩)
  · intro y d hy hs
    rcases setPlain_cli_cases hy with ⟨_, rfl⟩ | ⟨_, hy⟩
    · exact h.up hs
    · exact hg.pending_up y d hy hs
  · intro y d hy
    rcases setPlain_cli_cases hy with ⟨_, rfl⟩ | ⟨_, hy⟩
    · exact h.nouser
    · exact hg.nouser y d hy
  · intro y d hy hs
    rcases setPlain_cli_cases hy with ⟨_, rfl⟩ | ⟨_, hy⟩
    · exact absurd hs h.plain
    · exact hg.slots y d hy hs
  · intro y d dsv hy hs hsv
    rcases setPlain_cli_cases hy with ⟨_, rfl⟩ | ⟨_, hy⟩
    · exact absurd (Or.inl hs) h.plain
    · rcases hg.from_up y d dsv hy hs hsv with e | ⟨q, hq, hqs, hqf⟩
      · exact .inl e
      · exact .inr ⟨q, (setPlain_cli_of_ne (h.ne_of_server hq (Or.inl hqs))).trans hq, hqs, hqf⟩
  · intro y d hy hs
    rcases setPlain_cli_cases hy with ⟨rfl, rfl⟩ | ⟨_, hy⟩
    · exact h.self
    · exact hg.self_from y d hy hs
  · intro y d hy
    refine (mem_placed h.list y).mpr ?_
    rcases setPlain_cli_cases hy with ⟨rfl, _⟩ | ⟨_, hy⟩
    · exact .inl rfl
    · exact .inr (hg.listed y d hy)
  · intro y d i hy hfrom hfd
    refine (h.loc i y).mpr ?_
    rcases setPlain_cli_cases hy with ⟨rfl, rfl⟩ | ⟨hne, hy⟩
    · exact .inl ⟨rfl, hfd⟩
    · exact .inr ⟨hne, hg.fd_array y d i hy hfrom hfd⟩

lemma Good.setPlain (hg : N.Good) (h : N.CanSet x c list tab loc)
    (hname : IsPending c → ∀ b y d, y ≠ x → y ∈ N.clientTable b → N.cli y = some d →
      strEq d.name c.name = false) : (N.setPlain x c list tab loc).Good :=
  ⟨hg.toSound.setPlain h, hg.names_update h.table hname⟩

lemma Good.setPlain_drop (hg : N.Good) (h : N.CanSet x c list tab loc) {R : Set ClientId}
    (hx : x ∈ R) (hR : (N.setPlain x c list tab loc).Closed R) (hme : N.me ∉ R) :
    ((N.setPlain x c list tab loc).drop R).Good := by
  refine { toSound := (hg.toSound.setPlain h).drop hR hme, names := ?_ }
  intro b y b' z d e hy hz hd he hn
  obtain ⟨hy, hyR⟩ := mem_keepL.mp hy
  obtain ⟨hz, hzR⟩ := mem_keepL.mp hz
  have hyx : y ≠ x := fun e => hyR (e ▸ hx)
  have hzx : z ≠ x := fun e => hzR (e ▸ hx)
  have hd' := (drop_cli_eq_some.mp hd).1
  have he' := (drop_cli_eq_some.mp he).1
  rw [setPlain_cli_of_ne hyx] at hd'
  rw [setPlain_cli_of_ne hzx] at he'
  have hyN : y ∈ N.clientTable b := (((h.table b).2 y).mp hy).elim (fun e => absurd e.1 hyx) (·.2)
  have hzN : z ∈ N.clientTable b' := (((h.table b').2 z).mp hz).elim (fun e => absurd e.1 hzx) (·.2)
  exact hg.names b y b' z d e hyN hzN hd' he' hn

end SetPlain

end Net

/-! ## The memory after the operations -/

section Memory

variable {s s' : Ircd} {N : Net}

lemma addDlink_downlinks (wf : N.WF) (hd : ∀ p, Downlinks s p (N.downs p)) {x p : ClientId}
    {lp : DLinkId} (hlp : ∀ y, s.updown y ≠ some lp) (hx : ∀ q, x ∉ N.downs q) (q : ClientId) :
    Downlinks { addDlink s p x lp with updown := update s.updown x (some lp) } q
      (update N.downs p (x :: N.downs p) q) := by
  obtain ⟨nodes, hl, hmap, hup⟩ := hd p
  have hfresh : ∀ q (nodes : List DLinkId), nodes.map s.dval = N.downs q →
      (∀ n ∈ nodes, s.updown (s.dval n) = some n) → ∀ n ∈ nodes, n ≠ lp ∧ s.dval n ≠ x := by
    intro q nodes hm hu n hn
    refine ⟨?_, ?_⟩
    · rintro rfl
      exact hlp _ (hu n hn)
    · rintro e
      exact hx q (by rw [← hm, ← e]; exact List.mem_map_of_mem hn)
  have hf := hfresh p nodes hmap hup
  by_cases hq : q = p
  · subst hq
    rw [update_self]
    refine ⟨lp :: nodes, ?_, ?_, ?_⟩
    · simp only [addDlink, update_self]
      exact push_isList hl (fun e => (hf lp e).1 rfl)
    · simp only [addDlink, List.map_cons, update_self, List.cons.injEq, true_and]
      rw [← hmap]
      exact List.map_congr_left (fun n hn => update_of_ne (hf n hn).1 _ _)
    · intro n hn
      simp only [addDlink]
      rcases mem_cons.mp hn with rfl | hn
      · rw [update_self, update_self]
      · rw [update_of_ne (hf n hn).1, update_of_ne (hf n hn).2]
        exact hup n hn
  · rw [update_of_ne hq]
    obtain ⟨nodes', hl', hmap', hup'⟩ := hd q
    have hf' := hfresh q nodes' hmap' hup'
    refine ⟨nodes', ?_, ?_, ?_⟩
    · simp only [addDlink, update_of_ne hq]
      refine hl'.congr (fun n hn => push_frame (hf' n hn).1 (fun e => hq ?_))
      -- the head of one list is on no other: its client has one uplink
      have hn2 : n ∈ nodes := by
        have := hl.chain.head_eq
        rw [e] at this
        exact List.mem_of_mem_head? this.symm
      have h1 : s.dval n ∈ N.downs q := by rw [← hmap']; exact List.mem_map_of_mem hn
      have h2 : s.dval n ∈ N.downs p := by rw [← hmap]; exact List.mem_map_of_mem hn2
      obtain ⟨b1, sv1, hb1, _, hsv1, hup1⟩ := (wf.downs_iff _ _).mp h1
      obtain ⟨b2, sv2, hb2, _, hsv2, hup2⟩ := (wf.downs_iff _ _).mp h2
      obtain rfl : b1 = b2 := some.inj (hb1.symm.trans hb2)
      obtain rfl : sv1 = sv2 := some.inj (hsv1.symm.trans hsv2)
      exact hup1.symm.trans hup2
    · simp only [addDlink]
      rw [← hmap']
      exact List.map_congr_left (fun n hn => update_of_ne (hf' n hn).1 _ _)
    · intro n hn
      simp only [addDlink]
      rw [update_of_ne (hf' n hn).1, update_of_ne (hf' n hn).2]
      exact hup' n hn

lemma addClientToList_list (hl : IsList s.lnk s.globalClientList N.list)
    (hu : ∀ y, y ∉ N.list → s.lnk y = ⟨none, none⟩) {x : ClientId} (hx : x ∉ N.list) :
    IsList (addClientToList s x).lnk (addClientToList s x).globalClientList (x :: N.list) ∧
      ∀ y, y ∉ x :: N.list → (addClientToList s x).lnk y = ⟨none, none⟩ := by
  refine ⟨push_isList hl hx, fun y hy => ?_⟩
  rw [mem_cons, not_or] at hy
  have hhd : s.globalClientList ≠ some y := by
    intro e
    have := hl.chain.head_eq
    rw [e] at this
    exact hy.2 (List.mem_of_mem_head? this.symm)
  simp only [addClientToList, push_frame hy.1 hhd]
  exact hu y hy.2

variable {name : Str} {hashed : Prop}

lemma Net.Good.rehash_add (hg : N.Good) {x : ClientId}
    (hh : hashed) (hx : ∀ b, x ∉ N.clientTable b) :
    N.Rehash x hashed name (update N.clientTable (strhash N.crc32hash name)
      (x :: N.clientTable (strhash N.crc32hash name))) := by
  intro b
  by_cases hb : b = strhash N.crc32hash name
  · subst hb
    rw [update_self]
    refine ⟨nodup_cons.mpr ⟨hx _, hg.table_nodup _⟩, fun y => ?_⟩
    rw [mem_cons]
    constructor
    · rintro (rfl | hy)
      · exact .inl ⟨rfl, hh, rfl⟩
      · exact .inr ⟨fun e => hx _ (e ▸ hy), hy⟩
    · rintro (⟨rfl, _⟩ | ⟨_, hy⟩)
      · exact .inl rfl
      · exact .inr hy
  · rw [update_of_ne hb]
    refine ⟨hg.table_nodup b, fun y => ⟨fun hy => Or.inr ⟨fun e => hx b (e ▸ hy), hy⟩, ?_⟩⟩
    rintro (⟨_, _, e⟩ | ⟨_, hy⟩)
    · exact absurd e hb
    · exact hy

lemma Net.Good.rehash_self (hg : N.Good) {x : ClientId} {c : Client}
    (hh : hashed) (hc : N.cli x = some c) (hx : x ∈ N.clientTable (strhash N.crc32hash c.name))
    (hn : strhash N.crc32hash name = strhash N.crc32hash c.name) : N.Rehash x hashed name N.clientTable := by
  intro b
  refine ⟨hg.table_nodup b, fun y => ⟨fun hy => ?_, ?_⟩⟩
  · by_cases e : y = x
    · subst e
      obtain ⟨c', hc', hb⟩ := hg.table_hash b y hy
      obtain rfl : c = c' := some.inj (hc.symm.trans hc')
      exact .inl ⟨rfl, hh, by rw [hn, hb]⟩
    · exact .inr ⟨e, hy⟩
  · rintro (⟨rfl, _, rfl⟩ | ⟨_, hy⟩)
    · rwa [hn]
    · exact hy

lemma Net.Good.rehash_none (hg : N.Good) {x : ClientId}
    (hh : ¬ hashed) (hx : ∀ b, x ∉ N.clientTable b) : N.Rehash x hashed name N.clientTable := by
  intro b
  refine ⟨hg.table_nodup b, fun y => ⟨fun hy => Or.inr ⟨fun e => hx b (e ▸ hy), hy⟩, ?_⟩⟩
  rintro (⟨_, e, _⟩ | ⟨_, hy⟩)
  · exact absurd e hh
  · exact hy

lemma Net.Good.unhashed (hg : N.Good) {x : ClientId} (hx : ∀ c, N.cli x = some c →
    ¬ IsServerOrMe c ∧ ¬ Net.IsPending c) : ∀ b, x ∉ N.clientTable b := by
  intro b hb
  obtain ⟨c, hc, _⟩ := hg.table_hash b x hb
  obtain ⟨h1, h2⟩ := hx c hc
  rcases hg.hashed b x c hb hc with e | e
  · exact h1 e
  · exact h2 e

end Memory

end Nefarious.Network
