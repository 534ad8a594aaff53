import Nefarious.Network.State
import Mathlib.Algebra.Order.BigOperators.Group.List

/-!
# Removing clients: `exit_client` on a server tree

`exitClient` is the removal half of `exit_client`: for a server it first runs `exit_downlinks`, which walks the
downlink list that its own removals are editing, recurses, and then empties the client array; last it removes
the victim itself. The recursion is bounded by a fuel argument that the source does not have; running out of
fuel is `none`, and so is following a dangling pointer.

Names: `s_misc.c`.
-/

namespace Nefarious.Network

open Option (bind_eq_bind bind_eq_some_iff bind_some isSome_iff_exists map_some some.inj)
open List (mem_cons mem_cons_self mem_map mem_map_of_mem)
open Function (update update_of_ne update_self)

open Nefarious.Lib Nefarious.Lib.Dll

/-! ## The source functions -/

/-- Remove a server from its uplink's downlink list. `exit_one_client` (the `IsServer` branch) -/
def exitServerLink (s : Ircd) (bcptr : ClientId) (b : Client) : Option Ircd :=
  if b.status = .server then do
    let sv ← b.serv
    let lp ← s.updown bcptr
    let s := removeDlink s sv.up lp
    some { s with updown := update s.updown bcptr none }
  else some s

/-- Remove a user from its server's client array. The user data decide, not the status. `exit_one_client` (the `cli_user` branch) -/
def exitUserSlot (s : Ircd) (b : Client) : Option Ircd :=
  match b.user with
  | some us => removeYXXClient s us.server b.yxx
  | none => some s

/-- Exit one client, local or remote, all its dependents having been removed. `me` is refused. -/
def exitOneClient (s : Ircd) (bcptr : ClientId) : Option Ircd := do
  let b ← s.cli bcptr
  let s := if b.serv.isSome ∧ (s.client_list bcptr).isSome then clearServerYXX s bcptr b.yxx else s
  if b.status = .me then some s
  else do
    let s ← exitServerLink s bcptr b
    let s ← exitUserSlot s b
    some (removeClientFromList (hRemClient s bcptr b.name) bcptr)

/-- Remove all clients of a server: the loop over the slots `i, i + 1, …` of its client array, of which `k`
remain. `exit_downlinks` (second loop) -/
def exitClientsLoop : ℕ → ℕ → Ircd → ClientId → Option Ircd
  | 0, _, s, _ => some s
  | k + 1, i, s, cptr => do
      let cl ← s.client_list cptr
      let s ← match cl i with
        | some acptr => exitOneClient s acptr
        | none => some s
      exitClientsLoop k (i + 1) s cptr

mutual

/-- Remove all clients and downlinks of a server. -/
def exitDownlinks : ℕ → Ircd → ClientId → Option Ircd
  | 0, _, _ => none
  | fuel + 1, s, cptr => do
      let s ← exitDownLoop fuel s (s.down cptr)
      let sv ← (← s.cli cptr).serv
      exitClientsLoop (sv.nn_mask + 1) 0 s cptr

/-- The loop over the downlinks from the node `lp`; the next node is read before the removals. `exit_downlinks` (first loop) -/
def exitDownLoop : ℕ → Ircd → Option DLinkId → Option Ircd
  | _, s, none => some s
  | 0, _, some _ => none
  | fuel + 1, s, some lp => do
      let next := (s.dlnk lp).next
      let acptr := s.dval lp
      let s ← exitDownlinks fuel s acptr
      let s ← exitOneClient s acptr
      exitDownLoop fuel s next

end

/-- Close the connection of a local client. The record itself is freed by the caller, so the write to `cli_fd`
is not kept. `s_bsd.c`. -/
def closeConnection (s : Ircd) (b : Client) : Ircd :=
  match b.fd with
  | some i => { s with localClientArray := update s.localClientArray i none }
  | none => s

/-- Exit a client of any type, with everything that depends on it. -/
def exitClient (fuel : ℕ) (s : Ircd) (victim : ClientId) : Option Ircd := do
  let b ← s.cli victim
  let s := if b.cli_from = victim then closeConnection s b else s
  let s ← if b.status = .server then exitDownlinks fuel s victim else some s
  exitOneClient s victim

/-! ## Removing one client that nothing depends on -/

section Leaf

variable {s : Ircd} {N : Net} {c : ClientId} {b : Client}

/-- Nothing depends on the client: it has no downlinks and an empty client array. -/
structure Net.Leaf (N : Net) (c : ClientId) : Prop where
  downs : N.downs c = []
  slots : ∀ cl i, N.client_list c = some cl → cl i = none

lemma clearServerYXX_eq (wf : N.WF) (hs : s.server_list = N.server_list)
    (hl : s.client_list = N.client_list) (hc : N.cli c = some b) :
    (if b.serv.isSome ∧ (s.client_list c).isSome then clearServerYXX s c b.yxx else s) =
      { s with server_list := fun i => keepO {c} (N.server_list i) } := by
  have hne : ∀ i, i ≠ base64toint b.yxx → N.server_list i ≠ some c := by
    intro i hi e
    obtain ⟨b', hb', _, hi'⟩ := wf.server_list_yxx i c e
    rw [hc] at hb'
    cases hb'
    exact hi hi'.symm
  have hkeep : ∀ i, N.server_list i ≠ some c → keepO {c} (N.server_list i) = N.server_list i := by
    intro i hi
    refine keepO_eq_self (fun x hx hxc => hi ?_)
    rw [hx, Set.mem_singleton_iff.mp hxc]
  by_cases hslot : N.server_list (base64toint b.yxx) = some c
  · obtain ⟨b', hb', hsm, _⟩ := wf.server_list_yxx _ c hslot
    have hbb : b = b' := some.inj (hc.symm.trans hb')
    subst hbb
    have h1 := (wf.serv_server c b hc hsm).1
    have h2 := (wf.client_list_server c).mpr ⟨b, hc, hsm⟩
    rw [if_pos ⟨h1, by rw [hl]; exact h2⟩]
    unfold clearServerYXX
    rw [hs]
    simp only [hslot, if_true]
    congr 2
    funext i
    by_cases hi : i = base64toint b.yxx
    · subst hi
      rw [update_self, hslot]
      simp [keepO, Option.filter]
    · rw [update_of_ne hi, hkeep i (hne i hi)]
  · have hall : (fun i => keepO {c} (N.server_list i)) = s.server_list := by
      funext i
      by_cases hi : i = base64toint b.yxx
      · subst hi
        rw [hkeep _ hslot, hs]
      · rw [hkeep i (hne i hi), hs]
    rw [hall]
    split
    · unfold clearServerYXX
      rw [hs, if_neg hslot, ← hs]
    · rfl

lemma removeDlink_downlinks (wf : N.WF) (hd : ∀ p, Downlinks s p (N.downs p)) {sv : Serv}
    (hc : N.cli c = some b) (hst : b.status = .server) (hsv : b.serv = some sv) {lp : DLinkId}
    (hlp : s.updown c = some lp) (p : ClientId) :
    Downlinks { removeDlink s sv.up lp with updown := update s.updown c none } p (keepL {c} (N.downs p)) := by
  have hmem : c ∈ N.downs sv.up := (wf.downs_iff _ _).mpr ⟨b, sv, hc, hst, hsv, rfl⟩
  obtain ⟨nodes, hl, hmap, hup⟩ := hd sv.up
  have hlpn : lp ∈ nodes ∧ s.dval lp = c := by
    rw [← hmap] at hmem
    obtain ⟨n, hn, hnc⟩ := mem_map.mp hmem
    have hn' := hup n hn
    rw [hnc, hlp] at hn'
    cases hn'
    exact ⟨hn, hnc⟩
  have hinj : ∀ n ∈ nodes, s.dval n = c → n = lp := by
    intro n hn hnc
    have hn' := hup n hn
    rw [hnc, hlp] at hn'
    exact (some.inj hn').symm
  by_cases hp : p = sv.up
  · subst hp
    refine ⟨nodes.erase lp, ?_, ?_, ?_⟩
    · simp only [removeDlink, update_self]
      exact unlink_isList hl hlpn.1
    · simp only [removeDlink]
      have hnd : (nodes.map s.dval).Nodup := hmap ▸ wf.downs_nodup _
      rw [keepL_singleton (wf.downs_nodup _), ← hmap, hnd.erase_eq_filter,
        hl.nodup.erase_eq_filter, List.filter_map]
      congr 1
      refine List.filter_congr (fun n hn => ?_)
      by_cases hnlp : n = lp
      · simp [hnlp, hlpn.2]
      · have hne : s.dval n ≠ c := fun e => hnlp (hinj n hn e)
        rw [Function.comp_apply, bne_iff_ne.mpr hnlp, bne_iff_ne.mpr hne]
    · intro n hn
      have hn' := List.mem_of_mem_erase hn
      have hne : s.dval n ≠ c := by
        intro e
        have := hinj n hn' e
        subst this
        exact (List.Nodup.not_mem_erase hl.nodup) hn
      simp only [removeDlink]
      rw [update_of_ne hne]
      exact hup n hn'
  · have hcp : c ∉ N.downs p := by
      intro e
      obtain ⟨b', sv', hb', _, hsv', hup'⟩ := (wf.downs_iff _ _).mp e
      rw [hc] at hb'
      cases hb'
      rw [hsv] at hsv'
      cases hsv'
      exact hp hup'.symm
    rw [keepL_eq_self (fun x hx hxc => hcp (by rwa [← Set.mem_singleton_iff.mp hxc]))]
    obtain ⟨nodes', hl', hmap', hup'⟩ := hd p
    refine ⟨nodes', ?_, ?_, ?_⟩
    · simp only [removeDlink, update_of_ne hp]
      refine hl'.congr (fun n hn => unlink_frame_of_not_mem hl hlpn.1 (fun hn2 => hp ?_))
      -- a node on both lists would give its client two uplinks
      have h1 : s.dval n ∈ N.downs p := by rw [← hmap']; exact mem_map_of_mem hn
      have h2 : s.dval n ∈ N.downs sv.up := by rw [← hmap]; exact mem_map_of_mem hn2
      obtain ⟨b1, sv1, hb1, _, hsv1, hup1⟩ := (wf.downs_iff _ _).mp h1
      obtain ⟨b2, sv2, hb2, _, hsv2, hup2⟩ := (wf.downs_iff _ _).mp h2
      rw [hb1] at hb2
      cases hb2
      rw [hsv1] at hsv2
      cases hsv2
      exact hup1.symm.trans hup2
    · simpa [removeDlink] using hmap'
    · intro n hn
      have hne : s.dval n ≠ c := by
        intro e
        exact hcp (by rw [← hmap', ← e]; exact mem_map_of_mem hn)
      simp only [removeDlink]
      rw [update_of_ne hne]
      exact hup' n hn

lemma Net.WF.keepL_downs_of_not_server (wf : N.WF) (hc : N.cli c = some b)
    (hst : b.status ≠ .server) (p : ClientId) : keepL {c} (N.downs p) = N.downs p := by
  refine keepL_eq_self (fun x hx hxc => hst ?_)
  rw [Set.mem_singleton_iff.mp hxc] at hx
  obtain ⟨b', _, hb', hst', _⟩ := (wf.downs_iff p c).mp hx
  rw [hc] at hb'
  cases hb'
  exact hst'

lemma exitServerLink_spec (wf : N.WF) (hd : ∀ p, Downlinks s p (N.downs p)) (hc : N.cli c = some b) :
    ∃ dlnk down updown, exitServerLink s c b = some { s with dlnk := dlnk, down := down, updown := updown } ∧
      (∀ p, Downlinks { s with dlnk := dlnk, down := down, updown := updown } p (keepL {c} (N.downs p))) ∧
      (∀ x, x ≠ c → updown x = s.updown x) ∧
      ∀ x, updown x = s.updown x ∨ updown x = none := by
  by_cases hst : b.status = .server
  · obtain ⟨hsv, _⟩ := wf.serv_server c b hc (Or.inl hst)
    obtain ⟨sv, hsv⟩ := isSome_iff_exists.mp hsv
    have hmem : c ∈ N.downs sv.up := (wf.downs_iff _ _).mpr ⟨b, sv, hc, hst, hsv, rfl⟩
    obtain ⟨nodes, hl, hmap, hup⟩ := hd sv.up
    rw [← hmap] at hmem
    obtain ⟨lp, hlp, hval⟩ := mem_map.mp hmem
    have hlp' : s.updown c = some lp := hval ▸ hup lp hlp
    refine ⟨_, _, update s.updown c none, ?_,
      removeDlink_downlinks wf hd hc hst hsv hlp', fun x hx => update_of_ne hx _ _, ?_⟩
    · unfold exitServerLink
      rw [if_pos hst]
      simp only [hsv, hlp', removeDlink]
      rfl
    · intro x
      by_cases hx : x = c
      · exact .inr (by rw [hx, update_self])
      · exact .inl (update_of_ne hx _ _)
  · refine ⟨s.dlnk, s.down, s.updown, ?_, ?_, fun x _ => rfl, fun x => Or.inl rfl⟩
    · unfold exitServerLink
      rw [if_neg hst]
    · intro p
      rw [wf.keepL_downs_of_not_server hc hst]
      exact hd p

lemma exitUserSlot_spec (wf : N.WF) (hcli : s.cli = N.cli) (hl : s.client_list = N.client_list)
    (hc : N.cli c = some b) :
    ∃ f, exitUserSlot s b = some { s with client_list := f } ∧ update f c none = (N.drop {c}).client_list := by
  classical
  -- only a registered user of the server can be in its array
  have hkeep : ∀ p cl, N.client_list p = some cl → (∀ us, b.status = .user → b.user = some us →
      us.server ≠ p) → (fun i => keepO {c} (cl i)) = cl := by
    intro p cl hp hno
    funext i
    refine keepO_eq_self (fun x hx hxc => ?_)
    rw [Set.mem_singleton_iff.mp hxc] at hx
    obtain ⟨_, _, b', us, _, _, hb', hst, hus, hsrv, _⟩ := wf.slot_user p cl i c hp hx
    rw [hc] at hb'
    cases hb'
    exact hno us hst hus hsrv
  by_cases hst : b.status = .user
  · obtain ⟨us, pc, sv, cl, hus, hpc, hpm, hsv, hcl, hslot⟩ := wf.user_slot c b hc hst
    have hcp : c ≠ us.server := by
      intro e
      rw [← e, hc] at hpc
      cases hpc
      rcases hpm with h | h <;> rw [hst] at h <;> cases h
    obtain ⟨_, _, b', us', _, _, hb', _, _, _, hyxx, _⟩ := wf.slot_user _ cl _ c hcl hslot
    rw [hc] at hb'
    cases hb'
    refine ⟨update N.client_list us.server (some (update cl (userSlot b sv) none)), ?_, ?_⟩
    · unfold exitUserSlot
      simp only [hus]
      unfold removeYXXClient
      rw [if_neg hyxx, hcli, hl]
      simp only [hpc, hsv, hcl, bind_eq_bind, bind_some]
      rfl
    · funext p
      by_cases hp : p = c
      · subst hp
        simp [Net.drop]
      · rw [update_of_ne hp]
        simp only [Net.drop, Set.mem_singleton_iff, hp, if_false]
        by_cases hps : p = us.server
        · subst hps
          rw [update_self, hcl, map_some]
          congr 1
          funext i
          by_cases hi : i = userSlot b sv
          · subst hi
            rw [update_self, hslot]
            simp [keepO, Option.filter]
          · rw [update_of_ne hi]
            refine (keepO_eq_self (fun x hx hxc => hi ?_)).symm
            rw [Set.mem_singleton_iff.mp hxc] at hx
            obtain ⟨pc', sv', b', us', hpc', hsv', hb', _, _, _, _, hi'⟩ := wf.slot_user _ cl i c hcl hx
            rw [hpc] at hpc'
            cases hpc'
            rw [hsv] at hsv'
            cases hsv'
            rw [hc] at hb'
            cases hb'
            exact hi'
        · rw [update_of_ne hps]
          cases hq : N.client_list p with
          | none => rfl
          | some clp =>
            rw [map_some, hkeep p clp hq]
            intro us' _ hus'
            rw [hus] at hus'
            cases hus'
            exact fun e => hps e.symm
  · refine ⟨N.client_list, ?_, ?_⟩
    · unfold exitUserSlot
      cases hus : b.user with
      | none => rw [← hl]
      | some us =>
        have := wf.yxx_user c b us hc hst hus
        simp only [removeYXXClient, this, if_true, ← hl]
    · funext p
      by_cases hp : p = c
      · subst hp
        simp [Net.drop]
      · rw [update_of_ne hp]
        simp only [Net.drop, Set.mem_singleton_iff, hp, if_false]
        cases hq : N.client_list p with
        | none => rfl
        | some clp => rw [map_some, hkeep p clp hq (fun us h => absurd h hst)]

lemma hRemClient_eq (wf : N.WF) (hcrc : s.crc32hash = N.crc32hash) (ht : s.clientTable = N.clientTable)
    (hc : N.cli c = some b) : (hRemClient s c b.name).clientTable = (N.drop {c}).clientTable := by
  funext i
  simp only [hRemClient, Net.drop, ht, hcrc]
  by_cases hi : i = strhash N.crc32hash b.name
  · subst hi
    rw [update_self, keepL_singleton (wf.table_nodup _)]
  · rw [update_of_ne hi]
    refine (keepL_eq_self (fun x hx hxc => hi ?_)).symm
    rw [Set.mem_singleton_iff.mp hxc] at hx
    obtain ⟨b', hb', hh⟩ := wf.table_hash i c hx
    rw [hc] at hb'
    cases hb'
    exact hh.symm

lemma next_ne_none {lnk : ClientId → Links ClientId} {me : ClientId} :
    (l : List ClientId) → ∀ {p hd}, Chain lnk p hd (l ++ [me]) → c ∈ l → (lnk c).next ≠ none
  | [], _, _, _, hc => absurd hc List.not_mem_nil
  | x :: xs, _, _, ⟨_, _, hch⟩, hc => by
    rcases mem_cons.mp hc with rfl | hc'
    · intro hn
      rw [hn] at hch
      cases xs with
      | nil => exact absurd hch.1 (by simp)
      | cons y ys => exact absurd hch.1 (by simp)
    · exact next_ne_none xs hch hc'

lemma removeClientFromList_list (wf : N.WF) (hme : c ≠ N.me) (hl : IsList s.lnk s.globalClientList N.list)
    (hu : ∀ x, x ∉ N.list → s.lnk x = ⟨none, none⟩) :
    IsList (removeClientFromList s c).lnk (removeClientFromList s c).globalClientList (keepL {c} N.list) ∧
      ∀ x, x ∉ keepL {c} N.list → (removeClientFromList s c).lnk x = ⟨none, none⟩ := by
  rw [keepL_singleton wf.list_nodup]
  by_cases hc : c ∈ N.list
  · obtain ⟨l, hlast⟩ := wf.list_last
    have hcl : c ∈ l := by
      rw [hlast] at hc
      rcases List.mem_append.mp hc with h | h
      · exact h
      · exact absurd (List.mem_singleton.mp h) hme
    have hn : (s.lnk c).next ≠ none := next_ne_none l (hlast ▸ hl.chain) hcl
    have hul := unlink_isList hl hc
    simp only [removeClientFromList, hn, ne_eq, not_false_eq_true, if_true]
    refine ⟨hul.congr (fun y hy => update_of_ne ?_ _ _), ?_⟩
    · rintro rfl
      exact hl.nodup.not_mem_erase hy
    · intro x hx
      by_cases hxc : x = c
      · rw [hxc, update_self]
      · have hxl : x ∉ N.list := fun h => hx ((List.mem_erase_of_ne hxc).mpr h)
        rw [update_of_ne hxc, unlink_frame_of_not_mem hl hc hxl]
        exact hu x hxl
  · have hn : (s.lnk c).next = none := by rw [hu c hc]
    simp only [removeClientFromList, hn, ne_eq, not_true_eq_false, if_false]
    rw [List.erase_of_not_mem hc]
    refine ⟨hl.congr (fun y hy => update_of_ne ?_ _ _), ?_⟩
    · rintro rfl
      exact hc hy
    · intro x hx
      by_cases hxc : x = c
      · rw [hxc, update_self]
      · rw [update_of_ne hxc]
        exact hu x hx

/-- `s'` holds `N` without `R`, and no other client's node has moved. -/
structure HoldsDrop (s : Ircd) (N : Net) (R : Set ClientId) (s' : Ircd) : Prop where
  holds : Holds s' (N.drop R)
  updown : ∀ x, x ∉ R → s'.updown x = s.updown x
  cleared : ∀ x, s'.updown x = s.updown x ∨ s'.updown x = none
  dval : s'.dval = s.dval

lemma exitOneClient_leaf (h : Holds s N) (wf : N.WF) (hc : N.cli c = some b) (hme : c ≠ N.me)
    (hleaf : N.Leaf c) (hloc : ∀ i, N.localClientArray i ≠ some c) :
    ∃ s', exitOneClient s c = some s' ∧ HoldsDrop s N {c} s' := by
  have hcli : s.cli = N.cli := congrArg Tables.cli h.tables
  have hmeq : s.me = N.me := congrArg Tables.me h.tables
  have hcrc : s.crc32hash = N.crc32hash := congrArg Tables.crc32hash h.tables
  have hct : s.clientTable = N.clientTable := congrArg Tables.clientTable h.tables
  have hsl : s.server_list = N.server_list := congrArg Tables.server_list h.tables
  have hcl : s.client_list = N.client_list := congrArg Tables.client_list h.tables
  have hst : b.status ≠ .me := fun e => hme ((wf.me_iff c b hc).mp e)
  have hclear := clearServerYXX_eq wf hsl hcl hc
  obtain ⟨dlnk, down, updown, hlink, hdowns, hupd, hclr⟩ := exitServerLink_spec
    (s := { s with server_list := fun i => keepO {c} (N.server_list i) }) wf
    (fun p => h.downs p) hc
  obtain ⟨f, huser, hf⟩ := exitUserSlot_spec
    (s := { s with server_list := fun i => keepO {c} (N.server_list i), dlnk := dlnk, down := down,
                   updown := updown }) wf hcli hcl hc
  let s₃ : Ircd := { s with
    server_list := fun i => keepO {c} (N.server_list i), dlnk := dlnk, down := down,
    updown := updown, client_list := f }
  refine ⟨removeClientFromList (hRemClient s₃ c b.name) c, ?_, ?_⟩
  · unfold exitOneClient
    rw [hcli, hc, bind_eq_bind, bind_some]
    simp only [hclear, if_neg hst, hlink, huser, bind_eq_bind, bind_some]
    rfl
  · have hlist := removeClientFromList_list (s := hRemClient s₃ c b.name) wf hme h.list h.unlisted
    have htab := hRemClient_eq (s := s₃) wf hcrc hct hc
    refine ⟨⟨?_, hlist.1, hlist.2, ?_⟩, fun x hx => hupd x hx, hclr, rfl⟩
    · ext1
      · exact hmeq
      · exact hcrc
      · funext x
        by_cases hx : x = c
        · simp [removeClientFromList, Net.drop, hx]
        · simp only [removeClientFromList, Net.drop, Set.mem_singleton_iff, hx, if_false]
          rw [update_of_ne hx]
          exact congrFun hcli x
      · exact htab
      · rfl
      · exact hf
      · funext i
        have : s.localClientArray i = N.localClientArray i :=
          congrFun (congrArg Tables.localClientArray h.tables) i
        refine this.trans (keepO_eq_self (fun x hx hxc => hloc i ?_)).symm
        rw [hx, Set.mem_singleton_iff.mp hxc]
    · intro p
      have hp : (N.drop {c}).downs p = keepL {c} (N.downs p) := by
        simp only [Net.drop, Set.mem_singleton_iff]
        split
        · next e => rw [e, hleaf.downs]; rfl
        · rfl
      rw [hp]
      exact hdowns p

end Leaf

/-! ## What lies below a server -/

namespace Net

variable {N : Net} {R : Set ClientId}

/-- The depths along the uplinks grow and are bounded. -/
def Ranked (N : Net) (depth : ClientId → ℕ) (K : ℕ) : Prop :=
  ∀ x c sv, N.cli x = some c → c.status = .server → c.serv = some sv → depth sv.up < depth x ∧ depth x ≤ K

lemma WF.ranked (wf : N.WF) : ∃ depth K, N.Ranked depth K := by
  obtain ⟨depth, hd⟩ := wf.tree
  refine ⟨depth, (N.list.map depth).sum, fun x c sv hx hs hsv => ⟨hd x c sv hx hs hsv, ?_⟩⟩
  exact List.single_le_sum (by simp) _ (mem_map_of_mem (wf.list_server x c hx hs))

lemma Ranked.drop {depth : ClientId → ℕ} {K : ℕ} (h : N.Ranked depth K) : (N.drop R).Ranked depth K :=
  fun x c sv hx => h x c sv (drop_cli_eq_some.mp hx).1

variable {v x : ClientId}

lemma Ranked.le_of_below {depth : ClientId → ℕ} {K : ℕ} (h : N.Ranked depth K) (wf : N.WF)
    {c : Client} (hb : N.Below v x) (hx : N.cli x = some c) (hs : IsServerOrMe c) : depth v ≤ depth x := by
  induction hb generalizing c with
  | self => exact le_rfl
  | server hx' hst hsv _ ih =>
    obtain ⟨p, hp, hps⟩ := wf.up_server _ _ _ hx' hst hsv
    exact (ih hp hps).trans (h _ _ _ hx' hst hsv).1.le
  | user hx' hst _ _ _ =>
    rw [hx] at hx'
    cases hx'
    rcases hs with hs | hs <;> rw [hst] at hs <;> cases hs

lemma closed_below (N : Net) (v : ClientId) : N.Closed {x | N.Below v x} where
  server _ _ _ hx hs hsv hup := Below.server hx hs hsv hup
  user _ _ _ hu hs hus hsrv := Below.user hu hs hus hsrv

lemma Below.of_drop (h : (N.drop R).Below v x) : N.Below v x := by
  induction h with
  | self => exact Below.self
  | server hx hs hsv _ ih => exact Below.server (drop_cli_eq_some.mp hx).1 hs hsv ih
  | user hu hs hus _ ih => exact Below.user (drop_cli_eq_some.mp hu).1 hs hus ih

lemma Below.drop (h : N.Below v x) (hR : N.Closed R) (hx : x ∉ R) : (N.drop R).Below v x := by
  induction h with
  | self => exact Below.self
  | server hx' hs hsv _ ih =>
    exact Below.server (drop_cli_eq_some.mpr ⟨hx', hx⟩) hs hsv
      (ih (fun hup => hx (hR.server _ _ _ hx' hs hsv hup)))
  | user hu hs hus _ ih =>
    exact Below.user (drop_cli_eq_some.mpr ⟨hu, hx⟩) hs hus (ih (fun hsrv => hx (hR.user _ _ _ hu hs hus hsrv)))

lemma Below.trans {u w : ClientId} (h : N.Below u v) (h' : N.Below v w) : N.Below u w := by
  induction h' with
  | self => exact h
  | server hx hs hsv _ ih => exact Below.server hx hs hsv ih
  | user hu hs hus _ ih => exact Below.user hu hs hus ih

lemma below_iff (wf : N.WF) : N.Below v x ↔ x = v ∨ (∃ y ∈ N.downs v, N.Below y x) ∨
    ∃ c us, N.cli x = some c ∧ c.status = .user ∧ c.user = some us ∧ us.server = v := by
  constructor
  · intro h
    induction h with
    | self => exact .inl rfl
    | server hx hs hsv hup ih =>
      refine .inr (Or.inl ?_)
      rcases ih with rfl | ⟨y, hy, hyx⟩ | ⟨c, us, hc, hcs, _, _⟩
      · exact ⟨_, (wf.downs_iff _ _).mpr ⟨_, _, hx, hs, hsv, rfl⟩, Below.self⟩
      · exact ⟨y, hy, Below.server hx hs hsv hyx⟩
      · obtain ⟨p, hp, hps⟩ := wf.up_server _ _ _ hx hs hsv
        rw [hc] at hp
        cases hp
        rcases hps with h | h <;> rw [hcs] at h <;> cases h
    | user hu hs hus hup ih =>
      rcases ih with rfl | ⟨y, hy, hyx⟩ | ⟨c, us, hc, hcs, _, _⟩
      · exact .inr (Or.inr ⟨_, _, hu, hs, hus, rfl⟩)
      · exact .inr (Or.inl ⟨y, hy, Below.user hu hs hus hyx⟩)
      · obtain ⟨us', p, _, _, hus', hp, hps, _⟩ := wf.user_slot _ _ hu hs
        rw [hus] at hus'
        cases hus'
        rw [hc] at hp
        cases hp
        rcases hps with h | h <;> rw [hcs] at h <;> cases h
  · rintro (rfl | ⟨y, hy, hyx⟩ | ⟨c, us, hc, hs, hus, rfl⟩)
    · exact Below.self
    · obtain ⟨c, sv, hc, hs, hsv, rfl⟩ := (wf.downs_iff _ _).mp hy
      exact (Below.server hc hs hsv Below.self).trans hyx
    · exact Below.user hc hs hus Below.self

lemma below_ne_me (wf : N.WF) {c : Client} (hv : N.cli v = some c)
    (hs : c.status = .server) (hx : N.Below v x) : x ≠ N.me := by
  rintro rfl
  cases hx with
  | self =>
    have := (wf.me_iff _ _ hv).mpr rfl
    rw [hs] at this
    cases this
  | server hx' hst _ _ =>
    have := (wf.me_iff _ _ hx').mpr rfl
    rw [hst] at this
    cases this
  | user hx' hst _ _ =>
    have := (wf.me_iff _ _ hx').mpr rfl
    rw [hst] at this
    cases this

end Net

/-! ## The two loops -/

section Loops

variable {s s' s'' : Ircd} {N : Net} {R R' : Set ClientId}

lemma HoldsDrop.trans (h : HoldsDrop s N R s') (h' : HoldsDrop s' (N.drop R) R' s'') :
    HoldsDrop s N (R ∪ R') s'' := by
  refine ⟨?_, ?_, ?_, h'.dval.trans h.dval⟩
  · have := h'.holds
    rwa [Net.drop_drop] at this
  · intro x hx
    rw [Set.mem_union, not_or] at hx
    rw [h'.updown x hx.2, h.updown x hx.1]
  · intro x
    rcases h'.cleared x with e | e
    · rw [e]
      exact h.cleared x
    · exact .inr e

lemma HoldsDrop.refl (h : Holds s N) : HoldsDrop s N ∅ s :=
  ⟨by rwa [Net.drop_empty], fun _ _ => rfl, fun _ => Or.inl rfl, rfl⟩

lemma Net.WF.plain_leaf (wf : N.WF) {u : ClientId} {c : Client}
    (hu : N.cli u = some c) (hs : ¬ IsServerOrMe c) : N.Leaf u ∧ N.Closed {u} ∧ u ≠ N.me := by
  have hno : ∀ c', N.cli u = some c' → ¬ IsServerOrMe c' := by
    intro c' hc'
    rwa [← some.inj (hu.symm.trans hc')]
  refine ⟨⟨?_, ?_⟩, ⟨?_, ?_⟩, ?_⟩
  · refine List.eq_nil_iff_forall_not_mem.mpr (fun x hx => ?_)
    obtain ⟨cx, sv, hcx, hsx, hsv, hup⟩ := (wf.downs_iff _ _).mp hx
    obtain ⟨p, hp, hps⟩ := wf.up_server x cx sv hcx hsx hsv
    exact hno p (hup ▸ hp) hps
  · intro cl i hcl
    obtain ⟨c', hc', h⟩ := (wf.client_list_server u).mp (by rw [hcl]; rfl)
    exact absurd h (hno c' hc')
  · intro x cx sv hcx hsx hsv hup
    obtain ⟨p, hp, hps⟩ := wf.up_server x cx sv hcx hsx hsv
    exact absurd hps (hno p (Set.mem_singleton_iff.mp hup ▸ hp))
  · intro x cx us hcx hsx hus hsrv
    obtain ⟨us', p, _, _, hus', hp, hps, _⟩ := wf.user_slot x cx hcx hsx
    obtain rfl : us = us' := some.inj (hus.symm.trans hus')
    exact absurd hps (hno p (Set.mem_singleton_iff.mp hsrv ▸ hp))
  · rintro rfl
    exact hs (Or.inr ((wf.me_iff _ _ hu).mpr rfl))

lemma exitClientsLoop_spec {p : ClientId} : (k : ℕ) → ∀ (i : ℕ) (s : Ircd) (N : Net)
    (cl : ℕ → Option ClientId), Holds s N → N.WF → N.client_list p = some cl → p ≠ N.me →
    ∃ s', exitClientsLoop k i s p = some s' ∧ HoldsDrop s N {u | ∃ j, i ≤ j ∧ j < i + k ∧ cl j = some u} s'
  | 0, i, s, N, cl, h, _, _, _ => by
    refine ⟨s, rfl, ?_⟩
    have he : {u | ∃ j, i ≤ j ∧ j < i + 0 ∧ cl j = some u} = ∅ := by
      ext u
      simp only [Set.mem_ofPred_eq, Set.mem_empty_iff_false, iff_false]
      rintro ⟨j, h1, h2, _⟩
      omega
    rw [he]
    exact HoldsDrop.refl h
  | k + 1, i, s, N, cl, h, wf, hcl, hpm => by
    have hscl : s.client_list p = some cl := (congrFun (congrArg Tables.client_list h.tables) p).trans hcl
    cases hi : cl i with
    | none =>
      obtain ⟨s', hs', hd⟩ := exitClientsLoop_spec k (i + 1) s N cl h wf hcl hpm
      refine ⟨s', ?_, ?_⟩
      · simp only [exitClientsLoop, hscl, hi, bind_eq_bind, bind_some]
        exact hs'
      · convert hd using 1
        ext u
        constructor
        · rintro ⟨j, h1, h2, h3⟩
          have : j ≠ i := by
            rintro rfl
            rw [hi] at h3
            cases h3
          exact ⟨j, by omega, by omega, h3⟩
        · rintro ⟨j, h1, h2, h3⟩
          exact ⟨j, by omega, by omega, h3⟩
    | some a =>
      obtain ⟨pc, sv, c, us, hpc, hsv, hc, hst, hus, hsrv, _, _⟩ := wf.slot_user p cl i a hcl hi
      have hplain : ¬ IsServerOrMe c := by
        rintro (e | e) <;> rw [hst] at e <;> cases e
      obtain ⟨hleaf, hclosed, hame⟩ := wf.plain_leaf hc hplain
      have hloc : ∀ j, N.localClientArray j ≠ some a := by
        intro j hj
        obtain ⟨c', hc', _, _, hu', _⟩ := wf.local_fd j a hj
        rw [hc] at hc'
        cases hc'
        exact hpm (hsrv.symm.trans (hu' us hst hus))
      have hpa : p ≠ a := by
        rintro rfl
        obtain ⟨c', hc', h'⟩ := (wf.client_list_server p).mp (by rw [hcl]; rfl)
        rw [hc] at hc'
        cases hc'
        rcases h' with h' | h' <;> rw [hst] at h' <;> cases h'
      obtain ⟨s₁, hs₁, hd₁⟩ := exitOneClient_leaf h wf hc hame hleaf hloc
      have wf₁ : (N.drop {a}).WF := wf.drop hclosed (fun e => hame e.symm)
      have hcl₁ : (N.drop {a}).client_list p = some (fun j => keepO {a} (cl j)) :=
        Net.drop_client_list_eq_some.mpr ⟨hpa, cl, hcl, rfl⟩
      obtain ⟨s', hs', hd⟩ := exitClientsLoop_spec k (i + 1) s₁ _ _ hd₁.holds wf₁ hcl₁ hpm
      refine ⟨s', ?_, ?_⟩
      · simp only [exitClientsLoop, hscl, hi, bind_eq_bind, bind_some, hs₁]
        exact hs'
      · convert hd₁.trans hd using 1
        ext u
        simp only [Set.mem_ofPred_eq, Set.mem_union, Set.mem_singleton_iff, keepO_eq_some]
        constructor
        · rintro ⟨j, h1, h2, h3⟩
          by_cases hua : u = a
          · exact .inl hua
          · have : j ≠ i := by
              rintro rfl
              rw [hi] at h3
              exact hua (some.inj h3).symm
            exact .inr ⟨j, by omega, by omega, h3, hua⟩
        · rintro (rfl | ⟨j, h1, h2, h3, _⟩)
          · exact ⟨i, le_rfl, by omega, hi⟩
          · exact ⟨j, by omega, by omega, h3⟩

variable {p y : ClientId} {pc : Client}

lemma Downlinks.down_eq {l : List ClientId} (h : Downlinks s p l) : s.down p = l.head?.bind s.updown := by
  obtain ⟨nodes, hl, rfl, hup⟩ := h
  rw [hl.chain.head_eq]
  cases nodes with
  | nil => rfl
  | cons n ns => simp [hup n mem_cons_self]

lemma Downlinks.cons_inv {ys : List ClientId} (h : Downlinks s p (y :: ys)) :
    ∃ m, s.down p = some m ∧ s.dval m = y ∧ (s.dlnk m).next = ys.head?.bind s.updown := by
  obtain ⟨nodes, hl, hmap, hup⟩ := h
  cases nodes with
  | nil => simp at hmap
  | cons m ms =>
    simp only [List.map_cons, List.cons.injEq] at hmap
    obtain ⟨hhd, _, hch⟩ := hl.chain
    refine ⟨m, hhd, hmap.1, ?_⟩
    rw [hch.head_eq, ← hmap.2]
    cases ms with
    | nil => rfl
    | cons m₁ ms => simp [hup m₁ (by simp)]

variable {depth : ClientId → ℕ} {K : ℕ}

lemma Net.Ranked.not_below_up (hr : N.Ranked depth K) (wf : N.WF)
    (hp : N.cli p = some pc) (hps : IsServerOrMe pc) (hy : y ∈ N.downs p) : ¬ N.Below y p := by
  intro hb
  obtain ⟨c, sv, hc, hs, hsv, rfl⟩ := (wf.downs_iff _ _).mp hy
  have h1 := (hr y c sv hc hs hsv).1
  have h2 := hr.le_of_below wf hb hp hps
  omega

lemma Net.Ranked.closed_strict (hr : N.Ranked depth K) (wf : N.WF)
    (hp : N.cli p = some pc) (hps : IsServerOrMe pc) :
    N.Closed {x | N.Below p x ∧ x ≠ p} where
  server x c sv hx hs hsv hup := by
    refine ⟨Net.Below.server hx hs hsv hup.1, ?_⟩
    rintro rfl
    obtain ⟨q, hq, hqs⟩ := wf.up_server x c sv hx hs hsv
    have h1 := (hr x c sv hx hs hsv).1
    have h2 := hr.le_of_below wf hup.1 hq hqs
    omega
  user u c us hu hs hus hsrv := by
    refine ⟨Net.Below.user hu hs hus hsrv.1, ?_⟩
    rintro rfl
    rw [hp] at hu
    cases hu
    rcases hps with h | h <;> rw [hs] at h <;> cases h

lemma Net.Ranked.leaf_after (hr : N.Ranked depth K) (wf : N.WF)
    (hp : N.cli p = some pc) (hps : IsServerOrMe pc) : (N.drop {x | N.Below p x ∧ x ≠ p}).Leaf p := by
  refine ⟨List.eq_nil_iff_forall_not_mem.mpr (fun x hx => ?_), fun cl i hcl => ?_⟩
  · obtain ⟨_, hx, hxR⟩ := Net.mem_drop_downs.mp hx
    refine hxR ⟨(Net.below_iff wf).mpr (Or.inr (Or.inl ⟨x, hx, Net.Below.self⟩)), ?_⟩
    rintro rfl
    exact hr.not_below_up wf hp hps hx Net.Below.self
  · obtain ⟨_, cl₀, hcl₀, rfl⟩ := Net.drop_client_list_eq_some.mp hcl
    refine Option.eq_none_iff_forall_ne_some.mpr (fun u hu => ?_)
    obtain ⟨hu, huR⟩ := keepO_eq_some.mp hu
    obtain ⟨_, _, c, us, _, _, hc, hst, hus, hsrv, _, _⟩ := wf.slot_user p cl₀ i u hcl₀ hu
    refine huR ⟨(Net.below_iff wf).mpr (Or.inr (Or.inr ⟨c, us, hc, hst, hus, hsrv⟩)), ?_⟩
    rintro rfl
    rw [hp] at hc
    cases hc
    rcases hps with h | h <;> rw [hst] at h <;> cases h

/-- What `exit_downlinks` does to servers whose depth leaves `n` levels. `exit_downlinks` -/
def DownlinksSpec (depth : ClientId → ℕ) (K n : ℕ) : Prop :=
  ∀ (s : Ircd) (N : Net) (p : ClientId) (c : Client), Holds s N → N.WF → N.Ranked depth K →
    N.cli p = some c → c.status = .server → K < depth p + n →
    ∃ s' F, (∀ fuel ≥ F, exitDownlinks fuel s p = some s') ∧ HoldsDrop s N {x | N.Below p x ∧ x ≠ p} s'

lemma exitDownlink_turn {n : ℕ} (ih : DownlinksSpec depth K n) (h : Holds s N) (wf : N.WF)
    (hr : N.Ranked depth K) (hp : N.cli p = some pc) (hps : pc.status = .server)
    (hK : K < depth p + (n + 1)) (hy : y ∈ N.downs p) : ∃ s₁ s₂ F, (∀ fuel ≥ F, exitDownlinks fuel s y =
    some s₁) ∧ exitOneClient s₁ y = some s₂ ∧ HoldsDrop s N {x | N.Below y x} s₂ := by
  obtain ⟨c, sv, hc, hs, hsv, hup⟩ := (wf.downs_iff _ _).mp hy
  have hd := hr y c sv hc hs hsv
  rw [hup] at hd
  obtain ⟨s₁, F, hF, hd₁⟩ := ih s N y c h wf hr hc hs (by omega)
  have hyme : y ≠ N.me := Net.below_ne_me wf hc hs Net.Below.self
  have wf₁ := wf.drop (hr.closed_strict wf hc (Or.inl hs)) (fun e => Net.below_ne_me wf hc hs e.1 rfl)
  have hloc : ∀ i, (N.drop {x | N.Below y x ∧ x ≠ y}).localClientArray i ≠ some y := by
    intro i hi
    obtain ⟨hi, _⟩ := keepO_eq_some.mp hi
    obtain ⟨c', hc', _, _, _, hloc⟩ := wf.local_fd i y hi
    rw [hc] at hc'
    cases hc'
    have hpm : p = N.me := hup.symm.trans (hloc sv hs hsv)
    exact Net.below_ne_me wf hp hps Net.Below.self hpm
  obtain ⟨s₂, hs₂, hd₂⟩ := exitOneClient_leaf (c := y) (b := c) hd₁.holds wf₁
    (Net.drop_cli_eq_some.mpr ⟨hc, fun e => e.2 rfl⟩) hyme
    (hr.leaf_after wf hc (Or.inl hs)) hloc
  refine ⟨s₁, s₂, F, hF, hs₂, ?_⟩
  convert hd₁.trans hd₂ using 1
  ext x
  simp only [Set.mem_ofPred_eq, Set.mem_union, Set.mem_singleton_iff]
  constructor
  · intro hx
    by_cases e : x = y
    · exact .inr e
    · exact .inl ⟨hx, e⟩
  · rintro (hx | rfl)
    · exact hx.1
    · exact Net.Below.self

lemma exitDownLoop_spec {n : ℕ} (ih : DownlinksSpec depth K n) : (l : List ClientId) →
    ∀ (s : Ircd) (N : Net) (p : ClientId) (pc : Client), Holds s N → N.WF → N.Ranked depth K →
    N.cli p = some pc → pc.status = .server → K < depth p + (n + 1) → N.downs p = l →
    ∃ s' F, (∀ fuel ≥ F, exitDownLoop fuel s (s.down p) = some s') ∧ HoldsDrop s N {x | ∃ y ∈ l, N.Below y x} s'
  | [], s, N, p, pc, h, _, _, _, _, _, hl => by
    refine ⟨s, 0, ?_, ?_⟩
    · intro fuel _
      have hd := (h.downs p).down_eq
      rw [hl] at hd
      rw [hd]
      cases fuel <;> simp [exitDownLoop]
    · convert HoldsDrop.refl h using 1
      simp
  | y :: ys, s, N, p, pc, h, wf, hr, hp, hps, hK, hl => by
    have hy : y ∈ N.downs p := by
      rw [hl]
      exact mem_cons_self
    obtain ⟨s₁, s₂, F₁, hF₁, hs₂, hd₂⟩ := exitDownlink_turn ih h wf hr hp hps hK hy
    obtain ⟨cy, _, hcy, hsy, _, _⟩ := (wf.downs_iff _ _).mp hy
    have hpR : ¬ N.Below y p := hr.not_below_up wf hp (Or.inl hps) hy
    have hys : ∀ z ∈ ys, ¬ N.Below y z := by
      intro z hz hb
      have hnd := wf.downs_nodup p
      rw [hl] at hnd
      have hzy : z ≠ y := fun e => (List.nodup_cons.mp hnd).1 (e ▸ hz)
      have hzd : z ∈ N.downs p := by
        rw [hl]
        exact List.mem_cons_of_mem _ hz
      obtain ⟨c, sv, hc, hs, hsv, hup⟩ := (wf.downs_iff _ _).mp hzd
      cases hb with
      | self => exact hzy rfl
      | server hc' _ hsv' hup' =>
        rw [hc] at hc'
        cases hc'
        rw [hsv] at hsv'
        cases hsv'
        exact hpR (hup ▸ hup')
      | user hc' hs' _ _ =>
        rw [hc] at hc'
        cases hc'
        rw [hs] at hs'
        cases hs'
    have wf₂ := wf.drop (N.closed_below y) (fun e => Net.below_ne_me wf hcy hsy e rfl)
    have hl₂ : (N.drop {x | N.Below y x}).downs p = ys := by
      simp only [Net.drop, Set.mem_ofPred_eq, hpR, if_false, hl]
      have hy' : keepL {x | N.Below y x} (y :: ys) = keepL {x | N.Below y x} ys := by
        unfold keepL
        rw [List.filter_cons_of_neg]
        simpa using Net.Below.self
      rw [hy']
      exact keepL_eq_self hys
    obtain ⟨s', F₂, hF₂, hd'⟩ := exitDownLoop_spec ih ys s₂ _ p pc hd₂.holds wf₂ hr.drop
      (Net.drop_cli_eq_some.mpr ⟨hp, hpR⟩) hps hK hl₂
    have hdown : s₂.down p = ys.head?.bind s.updown := by
      have h₂ := (hd₂.holds.downs p).down_eq
      rw [hl₂] at h₂
      rw [h₂]
      cases ys with
      | nil => rfl
      | cons z zs => exact hd₂.updown z (hys z mem_cons_self)
    refine ⟨s', max F₁ F₂ + 1, ?_, ?_⟩
    · intro fuel hfuel
      obtain ⟨f, rfl⟩ : ∃ f, fuel = f + 1 := ⟨fuel - 1, by omega⟩
      have hdl := h.downs p
      rw [hl] at hdl
      obtain ⟨m, hm, hval, hnext⟩ := hdl.cons_inv
      rw [hm]
      simp only [exitDownLoop, hval, hF₁ f (by omega), hs₂, bind_eq_bind,
        bind_some, hnext]
      rw [← hdown]
      exact hF₂ f (by omega)
    · convert hd₂.trans hd' using 1
      ext x
      simp only [Set.mem_ofPred_eq, Set.mem_union, mem_cons, exists_eq_or_imp]
      constructor
      · rintro (hx | ⟨z, hz, hx⟩)
        · exact .inl hx
        · by_cases hxy : N.Below y x
          · exact .inl hxy
          · exact .inr ⟨z, hz, hx.drop (N.closed_below y) hxy⟩
      · rintro (hx | ⟨z, hz, hx⟩)
        · exact .inl hx
        · exact .inr ⟨z, hz, hx.of_drop⟩

lemma Net.Ranked.below_strict_eq (hr : N.Ranked depth K) (wf : N.WF) {sv : Serv}
    {cl : ℕ → Option ClientId} (hp : N.cli p = some pc) (hps : IsServerOrMe pc) (hsv : pc.serv = some sv)
    (hcl : N.client_list p = some cl) : {x | N.Below p x ∧ x ≠ p} = {x | ∃ y ∈ N.downs p,
    N.Below y x} ∪ {u | ∃ j, 0 ≤ j ∧ j < 0 + (sv.nn_mask + 1) ∧
    keepO {x | ∃ y ∈ N.downs p, N.Below y x} (cl j) = some u} := by
  ext x
  simp only [Set.mem_ofPred_eq, Set.mem_union, keepO_eq_some]
  constructor
  · rintro ⟨hb, hne⟩
    by_cases hd : ∃ y ∈ N.downs p, N.Below y x
    · exact .inl hd
    · rcases (Net.below_iff wf).mp hb with e | e | ⟨c, us, hc, hst, hus, hsrv⟩
      · exact absurd e hne
      · exact absurd e hd
      · obtain ⟨us', pc', sv', cl', hus', hpc', _, hsv', hcl', hslot⟩ := wf.user_slot x c hc hst
        rw [hus] at hus'
        cases hus'
        rw [hsrv, hp] at hpc'
        cases hpc'
        rw [hsv] at hsv'
        cases hsv'
        rw [hsrv, hcl] at hcl'
        cases hcl'
        have hle : userSlot c sv ≤ sv.nn_mask := Nat.and_le_right
        exact .inr ⟨_, Nat.zero_le _, by omega, hslot, hd⟩
  · rintro (⟨y, hy, hyx⟩ | ⟨j, _, _, hj, _⟩)
    · refine ⟨(Net.below_iff wf).mpr (Or.inr (Or.inl ⟨y, hy, hyx⟩)), ?_⟩
      rintro rfl
      exact hr.not_below_up wf hp hps hy hyx
    · obtain ⟨_, _, c, us, _, _, hc, hst, hus, hsrv, _, _⟩ := wf.slot_user p cl j x hcl hj
      refine ⟨(Net.below_iff wf).mpr (Or.inr (Or.inr ⟨c, us, hc, hst, hus, hsrv⟩)), ?_⟩
      rintro rfl
      rw [hp] at hc
      cases hc
      rcases hps with h | h <;> rw [hst] at h <;> cases h

/-- **`exit_downlinks` empties a server**: with enough fuel it returns, everything behind the server is gone and
the server itself is still there. The induction is on the levels left. -/
theorem exitDownlinks_spec : (n : ℕ) → DownlinksSpec depth K n
  | 0, s, N, p, c, _, wf, hr, hc, hs, hK => by
    obtain ⟨sv, hsv⟩ := isSome_iff_exists.mp (wf.serv_server p c hc (Or.inl hs)).1
    have := (hr p c sv hc hs hsv).2
    omega
  | n + 1, s, N, p, c, h, wf, hr, hc, hs, hK => by
    obtain ⟨s₁, F₁, hF₁, hd₁⟩ := exitDownLoop_spec (exitDownlinks_spec n) _ s N p c h wf hr hc hs hK rfl
    obtain ⟨sv, hsv⟩ := isSome_iff_exists.mp (wf.serv_server p c hc (Or.inl hs)).1
    obtain ⟨cl, hcl⟩ := isSome_iff_exists.mp ((wf.client_list_server p).mpr ⟨c, hc, Or.inl hs⟩)
    have hpR : p ∉ {x | ∃ y ∈ N.downs p, N.Below y x} := by
      rintro ⟨y, hy, hb⟩
      exact hr.not_below_up wf hc (Or.inl hs) hy hb
    have hclosed : N.Closed {x | ∃ y ∈ N.downs p, N.Below y x} := by
      refine ⟨?_, ?_⟩
      · rintro x cx svx hx hsx hsvx ⟨y, hy, hb⟩
        exact ⟨y, hy, Net.Below.server hx hsx hsvx hb⟩
      · rintro u cu us hu hsu hus ⟨y, hy, hb⟩
        exact ⟨y, hy, Net.Below.user hu hsu hus hb⟩
    have hme : N.me ∉ {x | ∃ y ∈ N.downs p, N.Below y x} := by
      rintro ⟨y, hy, hb⟩
      exact Net.below_ne_me wf hc hs ((Net.below_iff wf).mpr (Or.inr (Or.inl ⟨y, hy, hb⟩))) rfl
    have wf₁ := wf.drop hclosed hme
    have hpm : p ≠ N.me := Net.below_ne_me wf hc hs Net.Below.self
    obtain ⟨s', hs', hd'⟩ := exitClientsLoop_spec (sv.nn_mask + 1) 0 s₁ _ _ hd₁.holds wf₁
      (Net.drop_client_list_eq_some.mpr ⟨hpR, cl, hcl, rfl⟩) hpm
    refine ⟨s', F₁ + 1, ?_, ?_⟩
    · intro fuel hfuel
      obtain ⟨f, rfl⟩ : ∃ f, fuel = f + 1 := ⟨fuel - 1, by omega⟩
      have hcli₁ : s₁.cli p = some c :=
        (congrFun (congrArg Tables.cli hd₁.holds.tables) p).trans (Net.drop_cli_eq_some.mpr ⟨hc, hpR⟩)
      simp only [exitDownlinks, hF₁ f (by omega), hcli₁, hsv, bind_eq_bind,
        bind_some]
      exact hs'
    · rw [hr.below_strict_eq wf hc (Or.inl hs) hsv hcl]
      exact hd₁.trans hd'

end Loops

/-! ## `exit_client` on a server -/

lemma closeConnection_spec {s : Ircd} {N : Net} (h : Holds s N) (wf : N.WF) {v : ClientId}
    {c : Client} (hc : N.cli v = some c) :
    ∃ a, Holds (if c.cli_from = v then closeConnection s c else s)
        { N with localClientArray := a } ∧
      (∀ i, a i = keepO {v} (N.localClientArray i)) ∧
      (if c.cli_from = v then closeConnection s c else s) = { s with localClientArray := a } := by
  have hla : s.localClientArray = N.localClientArray := congrArg Tables.localClientArray h.tables
  have hkeep : ∀ i, N.localClientArray i ≠ some v →
      keepO {v} (N.localClientArray i) = N.localClientArray i := by
    intro i hi
    refine keepO_eq_self (fun x hx hxv => hi ?_)
    rw [hx, Set.mem_singleton_iff.mp hxv]
  have hfd : ∀ i, N.localClientArray i = some v → c.fd = some i ∧ c.cli_from = v := by
    intro i hi
    obtain ⟨c', hc', h1, h2, _⟩ := wf.local_fd i v hi
    rw [hc] at hc'
    cases hc'
    exact ⟨h1, h2⟩
  have key : (if c.cli_from = v then closeConnection s c else s) =
      { s with localClientArray := fun i => keepO {v} (N.localClientArray i) } := by
    by_cases hfrom : c.cli_from = v
    · rw [if_pos hfrom]
      unfold closeConnection
      cases hf : c.fd with
      | none =>
        have : (fun i => keepO {v} (N.localClientArray i)) = s.localClientArray := by
          funext i
          rw [hkeep i (fun e => by rw [hf] at hfd; cases (hfd i e).1), hla]
        rw [this]
      | some j =>
        simp only
        congr 2
        funext i
        by_cases hij : i = j
        · subst hij
          rw [update_self]
          refine (Option.eq_none_iff_forall_ne_some.mpr (fun x hx => ?_)).symm
          obtain ⟨hx, hxv⟩ := keepO_eq_some.mp hx
          exact hxv (wf.local_self v c i x hc hfrom hf hx)
        · rw [update_of_ne hij, hla, hkeep]
          intro e
          have := (hfd i e).1
          rw [hf] at this
          exact hij (some.inj this).symm
    · rw [if_neg hfrom]
      have : (fun i => keepO {v} (N.localClientArray i)) = s.localClientArray := by
        funext i
        rw [hkeep i (fun e => hfrom (hfd i e).2), hla]
      rw [this]
  refine ⟨fun i => keepO {v} (N.localClientArray i), ?_, fun i => rfl, key⟩
  rw [key]
  refine ⟨?_, h.list, h.unlisted, h.downs⟩
  have ht := h.tables
  rw [Tables.ext_iff] at ht ⊢
  exact ⟨ht.1, ht.2.1, ht.2.2.1, ht.2.2.2.1, ht.2.2.2.2.1, ht.2.2.2.2.2.1, rfl⟩

section Close

variable {N : Net} {v : ClientId} {a : ℕ → Option ClientId}

lemma Net.WF.close (wf : N.WF) (ha : ∀ i, a i = keepO {v} (N.localClientArray i)) :
    ({ N with localClientArray := a } : Net).WF :=
  { wf with
    local_fd := fun i x hx => wf.local_fd i x (keepO_eq_some.mp ((ha i).symm.trans hx)).1
    local_self := fun x c i y hx hfrom hfd hy =>
      wf.local_self x c i y hx hfrom hfd (keepO_eq_some.mp ((ha i).symm.trans hy)).1 }

lemma Net.below_close {x : ClientId} : ({ N with localClientArray := a } : Net).Below v x ↔ N.Below v x := by
  constructor
  · intro h
    induction h with
    | self => exact Below.self
    | server hx hs hsv _ ih => exact Below.server hx hs hsv ih
    | user hu hs hus _ ih => exact Below.user hu hs hus ih
  · intro h
    induction h with
    | self => exact Below.self
    | server hx hs hsv _ ih => exact Below.server hx hs hsv ih
    | user hu hs hus _ ih => exact Below.user hu hs hus ih

lemma Net.drop_close {R : Set ClientId} (ha : ∀ i, a i = keepO {v} (N.localClientArray i))
    (hv : v ∈ R) : ({ N with localClientArray := a } : Net).drop R = N.drop R := by
  have hu : {v} ∪ R = R := Set.union_eq_self_of_subset_left (Set.singleton_subset_iff.mpr hv)
  unfold Net.drop
  congr 2
  funext i
  simp only [ha, keepO_keepO, hu]

end Close

lemma exitClient_holdsDrop {s : Ircd} {N : Net} (h : Holds s N) (wf : N.WF) {v : ClientId}
    {c : Client} (hc : N.cli v = some c) (hs : c.status = .server) :
    ∃ s' F, (∀ fuel ≥ F, exitClient fuel s v = some s') ∧ HoldsDrop s N {x | N.Below v x} s' := by
  obtain ⟨a, h₀, ha, hs₀⟩ := closeConnection_spec h wf hc
  have wf₀ := wf.close ha
  obtain ⟨depth, K, hr⟩ := wf₀.ranked
  obtain ⟨s₁, F, hF, hd₁⟩ := @exitDownlinks_spec depth K (K + 1) _ _ v c h₀ wf₀ hr hc hs (by omega)
  have hvme : v ≠ N.me := Net.below_ne_me wf hc hs Net.Below.self
  have wf₁ := wf₀.drop (hr.closed_strict wf₀ hc (Or.inl hs)) (fun e => Net.below_ne_me wf₀ hc hs e.1 rfl)
  have hloc : ∀ i, (({ N with localClientArray := a } : Net).drop
      {x | ({ N with localClientArray := a } : Net).Below v x ∧ x ≠ v}).localClientArray i ≠ some v := by
    intro i hi
    obtain ⟨hi, _⟩ := keepO_eq_some.mp hi
    exact (keepO_eq_some.mp ((ha i).symm.trans hi)).2 rfl
  obtain ⟨s', hs', hd'⟩ := exitOneClient_leaf (c := v) (b := c) hd₁.holds wf₁
    (Net.drop_cli_eq_some.mpr ⟨hc, fun e => e.2 rfl⟩) hvme (hr.leaf_after wf₀ hc (Or.inl hs)) hloc
  refine ⟨s', F, ?_, ?_⟩
  · intro fuel hfuel
    have hcli : s.cli v = some c := (congrFun (congrArg Tables.cli h.tables) v).trans hc
    simp only [exitClient, hcli, bind_eq_bind, bind_some, if_pos hs, hF fuel hfuel, hs']
  · have ht := hd₁.trans hd'
    have hset : ({x | ({ N with localClientArray := a } : Net).Below v x ∧ x ≠ v} ∪ {v} :
        Set ClientId) = {x | N.Below v x} := by
      ext x
      simp only [Set.mem_union, Set.mem_ofPred_eq, Net.below_close, Set.mem_singleton_iff]
      constructor
      · rintro (hx | rfl)
        · exact hx.1
        · exact Net.Below.self
      · intro hx
        by_cases e : x = v
        · exact .inr e
        · exact .inl ⟨hx, e⟩
    rw [hset] at ht
    refine ⟨?_, ?_, ?_, ?_⟩
    · have := ht.holds
      rwa [Net.drop_close ha (show v ∈ {x | N.Below v x} from Net.Below.self)] at this
    · intro x hx
      rw [ht.updown x hx, hs₀]
    · intro x
      have := ht.cleared x
      rwa [hs₀] at this
    · rw [ht.dval, hs₀]

lemma Downlinks.unique {s : Ircd} {p : ClientId} {l l' : List ClientId} (h : Downlinks s p l)
    (h' : Downlinks s p l') : l = l' := by
  obtain ⟨nodes, hl, rfl, _⟩ := h
  obtain ⟨nodes', hl', rfl, _⟩ := h'
  rw [Chain.unique nodes nodes' hl.chain hl'.chain]

lemma Net.WF.drop_below_downs {N : Net} (wf : N.WF) {v p : ClientId} (hp : ¬ N.Below v p) :
    (N.drop {x | N.Below v x}).downs p = (N.downs p).erase v := by
  have hmem : ∀ x ∈ N.downs p, N.Below v x → x = v := by
    intro x hx hb
    obtain ⟨c, sv, hc, hs, hsv, hup⟩ := (wf.downs_iff _ _).mp hx
    cases hb with
    | self => rfl
    | server hc' _ hsv' hup' =>
      rw [hc] at hc'
      cases hc'
      rw [hsv] at hsv'
      cases hsv'
      exact absurd (hup ▸ hup') hp
    | user hc' hs' _ _ =>
      rw [hc] at hc'
      cases hc'
      rw [hs] at hs'
      cases hs'
  simp only [Net.drop, Set.mem_ofPred_eq, hp, if_false]
  rw [(wf.downs_nodup p).erase_eq_filter]
  unfold keepL
  refine List.filter_congr (fun x hx => ?_)
  by_cases e : x = v
  · subst e
    have hself : N.Below x x := Net.Below.self
    simp [hself]
  · have hnb : ¬ N.Below v x := fun hb => e (hmem x hx hb)
    simp [hnb, e]

/-- **Netsplit removal is exact.** Let the memory hold any server tree with any users attached. `exit_client` on
a server of it returns, and afterwards exactly that server, the servers behind it and their users are gone from
the records, the global client list, the name table, the numeric tables and the table of connections; every
other record, chain, numeric slot, client array and downlink list is as it was, except that the uplink's list no
longer has the server itself. -/
theorem exitClient_exact (s : Ircd) (N : Net) (h : Holds s N) (wf : N.WF) (v : ClientId) (c : Client)
    (hc : s.cli v = some c) (hs : c.status = .server) : ∃ s' F, (∀ fuel ≥ F, exitClient fuel s v = some s') ∧
    (∀ x, N.Below v x → s'.cli x = none ∧ s'.client_list x = none) ∧ (∀ x, ¬ N.Below v x → s'.cli x = s.cli x ∧
    s'.client_list x = s.client_list x) ∧ (∀ l, IsList s.lnk s.globalClientList l →
    IsList s'.lnk s'.globalClientList (keepL {x | N.Below v x} l)) ∧ (∀ b, s'.clientTable b =
    keepL {x | N.Below v x} (s.clientTable b)) ∧ (∀ i, s'.server_list i =
    keepO {x | N.Below v x} (s.server_list i)) ∧ (∀ i, s'.localClientArray i =
    keepO {x | N.Below v x} (s.localClientArray i)) ∧ (∀ p l, ¬ N.Below v p → Downlinks s p l →
    Downlinks s' p (l.erase v)) := by
  have hc' : N.cli v = some c := (congrFun (congrArg Tables.cli h.tables) v).symm.trans hc
  obtain ⟨s', F, hF, hd⟩ := exitClient_holdsDrop h wf hc' hs
  have ht := Tables.ext_iff.mp h.tables
  have ht' := Tables.ext_iff.mp hd.holds.tables
  obtain ⟨_, _, hcli, htab, hsl, hcl, hloc⟩ := ht
  obtain ⟨_, _, hcli', htab', hsl', hcl', hloc'⟩ := ht'
  refine ⟨s', F, hF, ?_, ?_, ?_, ?_, ?_, ?_, ?_⟩
  · intro x hx
    rw [hcli', hcl']
    simp [Net.drop, hx]
  · intro x hx
    rw [hcli', hcl', hcli, hcl]
    simp only [Net.drop, Set.mem_ofPred_eq, hx, if_false, true_and]
    cases hq : N.client_list x with
    | none => rfl
    | some cl =>
      rw [map_some]
      congr 1
      funext i
      -- a user in this array below `v` would put its server, hence `x`, below `v`
      refine keepO_eq_self (fun u hu hb => hx ?_)
      obtain ⟨_, _, cu, us, _, _, hcu, hst, hus, hsrv, _, _⟩ := wf.slot_user x cl i u hq hu
      rcases hb with _ | ⟨hcu', hst', _, _⟩ | ⟨hcu', _, hus', hup⟩
      · rw [hc'] at hcu
        cases hcu
        rw [hs] at hst
        cases hst
      · rw [hcu] at hcu'
        cases hcu'
        rw [hst] at hst'
        cases hst'
      · rw [hcu] at hcu'
        cases hcu'
        rw [hus] at hus'
        cases hus'
        exact hsrv ▸ hup
  · intro l hl
    rw [Chain.unique l N.list hl.chain h.list.chain]
    exact hd.holds.list
  · intro b
    rw [htab', htab]
    rfl
  · intro i
    rw [hsl', hsl]
    rfl
  · intro i
    rw [hloc', hloc]
    rfl
  · intro p l hp hl
    rw [hl.unique (h.downs p), ← wf.drop_below_downs hp]
    exact hd.holds.downs p

/-! ## One removal, whatever the victim -/

lemma exitDown_mono : (fuel : ℕ) →
    (∀ s p s', exitDownlinks fuel s p = some s' → exitDownlinks (fuel + 1) s p = some s') ∧
    (∀ s lp s', exitDownLoop fuel s lp = some s' → exitDownLoop (fuel + 1) s lp = some s')
  | 0 => by
    refine ⟨fun s p s' h => absurd h (by simp [exitDownlinks]), fun s lp s' h => ?_⟩
    cases lp with
    | none => simpa [exitDownLoop] using h
    | some m => exact absurd h (by simp [exitDownLoop])
  | fuel + 1 => by
    obtain ⟨ih₁, ih₂⟩ := exitDown_mono fuel
    refine ⟨fun s p s' h => ?_, fun s lp s' h => ?_⟩
    · simp only [exitDownlinks, bind_eq_bind, bind_eq_some_iff] at h ⊢
      obtain ⟨s₁, h₁, h₂⟩ := h
      exact ⟨s₁, ih₂ _ _ _ h₁, h₂⟩
    · cases lp with
      | none => simpa [exitDownLoop] using h
      | some m =>
        simp only [exitDownLoop, bind_eq_bind, bind_eq_some_iff] at h ⊢
        obtain ⟨s₁, h₁, s₂, h₂, h₃⟩ := h
        exact ⟨s₁, ih₁ _ _ _ h₁, s₂, h₂, ih₂ _ _ _ h₃⟩

lemma exitClient_mono {s s' : Ircd} {v : ClientId} {fuel : ℕ}
    (h : exitClient fuel s v = some s') (k : ℕ) : exitClient (fuel + k) s v = some s' := by
  induction k with
  | zero => exact h
  | succ k ih =>
    simp only [exitClient, bind_eq_bind] at ih ⊢
    cases hb : s.cli v with
    | none => simp [hb] at ih
    | some b =>
      by_cases hst : b.status = .server
      · simp only [hb, hst, if_true, bind_some, bind_eq_some_iff] at ih ⊢
        obtain ⟨s₁, hs₁, hs'⟩ := ih
        exact ⟨s₁, (exitDown_mono _).1 _ _ _ hs₁, hs'⟩
      · simpa only [hb, hst, if_false, bind_some] using ih

lemma exitClient_plain {s : Ircd} {N : Net} (h : Holds s N) (wf : N.WF) {v : ClientId}
    {c : Client} (hc : N.cli v = some c) (hs : ¬ IsServerOrMe c) :
    ∃ s', (∀ fuel, exitClient fuel s v = some s') ∧ HoldsDrop s N {v} s' := by
  obtain ⟨a, h₀, ha, hs₀⟩ := closeConnection_spec h wf hc
  have wf₀ := wf.close ha
  obtain ⟨hleaf, _, hme⟩ := wf₀.plain_leaf hc hs
  have hloc : ∀ i, ({ N with localClientArray := a } : Net).localClientArray i ≠ some v := by
    intro i hi
    exact (keepO_eq_some.mp ((ha i).symm.trans hi)).2 rfl
  obtain ⟨s', hs', hd'⟩ := exitOneClient_leaf (c := v) (b := c) h₀ wf₀ hc hme hleaf hloc
  refine ⟨s', ?_, ?_⟩
  · intro fuel
    have hcli : s.cli v = some c := (congrFun (congrArg Tables.cli h.tables) v).trans hc
    simp only [exitClient, hcli, bind_eq_bind, bind_some, if_neg (fun e => hs (Or.inl e)), hs']
  · refine ⟨?_, ?_, ?_, ?_⟩
    · have := hd'.holds
      rwa [Net.drop_close ha (Set.mem_singleton v)] at this
    · intro x hx
      rw [hd'.updown x hx, hs₀]
    · intro x
      have := hd'.cleared x
      rwa [hs₀] at this
    · rw [hd'.dval, hs₀]

/-- **Any removal is a drop of a closed set with the victim in it**, whatever the victim and the fuel: the calls
of the other modules read `exit_client` through this lemma. -/
theorem exitClient_drop {s s' : Ircd} {N : Net} (h : Holds s N) (wf : N.WF) {v : ClientId}
    (hv : v ≠ N.me) {fuel : ℕ} (he : exitClient fuel s v = some s') :
    ∃ R, v ∈ R ∧ N.Closed R ∧ N.me ∉ R ∧ HoldsDrop s N R s' := by
  have hcli : s.cli v = N.cli v := congrFun (congrArg Tables.cli h.tables) v
  cases hc : N.cli v with
  | none =>
    rw [hc] at hcli
    simp [exitClient, hcli] at he
  | some c =>
    by_cases hs : c.status = .server
    · obtain ⟨s₁, F, hF, hd⟩ := exitClient_holdsDrop h wf hc hs
      have h₁ := hF (fuel + F) (by omega)
      rw [exitClient_mono he F] at h₁
      obtain rfl : s' = s₁ := some.inj h₁
      exact ⟨_, Net.Below.self, N.closed_below v, fun e => Net.below_ne_me wf hc hs e rfl, hd⟩
    · have hs' : ¬ IsServerOrMe c := by
        rintro (e | e)
        · exact hs e
        · exact hv ((wf.me_iff v c hc).mp e)
      obtain ⟨s₁, hF, hd⟩ := exitClient_plain h wf hc hs'
      obtain rfl : s' = s₁ := some.inj (he.symm.trans (hF fuel))
      obtain ⟨_, hclosed, hme⟩ := wf.plain_leaf hc hs'
      exact ⟨{v}, Set.mem_singleton v, hclosed, fun e => hme e.symm, hd⟩

namespace Example

/-- The records: this server (0), a server linked to it (1) with a user (2), and another server
linked to it (3). -/
def cli : ClientId → Option Client
  | 0 => some ⟨.me, "hub.net".toList, "AA".toList, 0, none, [], false, some ⟨0, 63, 1, 0⟩, none⟩
  | 1 => some ⟨.server, "leaf.net".toList, "AB".toList, 1, some 5, [], false,
      some ⟨0, 63, 2, 0⟩, none⟩
  | 2 => some ⟨.user, "nick".toList, "AAB".toList, 1, none, [], false, none, some ⟨1⟩⟩
  | 3 => some ⟨.server, "other.net".toList, "AC".toList, 3, some 6, [], false,
      some ⟨0, 63, 3, 0⟩, none⟩
  | _ => none

def net : Net where
  me := 0
  crc32hash := crc32
  cli := cli
  clientTable b := [0, 1, 2, 3].filter (fun x =>
    ((cli x).map (fun c => strhash crc32 c.name)) = some b)
  server_list
    | 0 => some 0
    | 1 => some 1
    | 2 => some 3
    | _ => none
  client_list
    | 0 => some (fun _ => none)
    | 1 => some (fun i => if i = 1 then some 2 else none)
    | 3 => some (fun _ => none)
    | _ => none
  localClientArray
    | 5 => some 1
    | 6 => some 3
    | _ => none
  list := [3, 2, 1, 0]
  downs
    | 0 => [3, 1]
    | _ => []

/-- The same network in memory: server `x` has the downlink cell `x`. -/
def ircd : Ircd where
  toTables := net.toTables
  lnk
    | 3 => ⟨none, some 2⟩
    | 2 => ⟨some 3, some 1⟩
    | 1 => ⟨some 2, some 0⟩
    | 0 => ⟨some 1, none⟩
    | _ => ⟨none, none⟩
  globalClientList := some 3
  dlnk
    | 3 => ⟨none, some 1⟩
    | 1 => ⟨some 3, none⟩
    | _ => ⟨none, none⟩
  dval := id
  down
    | 0 => some 3
    | _ => none
  updown
    | 1 => some 1
    | 3 => some 3
    | _ => none

lemma holds : Holds ircd net where
  tables := rfl
  list := ⟨⟨rfl, rfl, rfl, rfl, rfl, rfl, rfl, rfl, rfl⟩, by decide⟩
  unlisted x hx := by
    rcases x with _ | _ | _ | _ | x
    · exact absurd (by decide) hx
    · exact absurd (by decide) hx
    · exact absurd (by decide) hx
    · exact absurd (by decide) hx
    · rfl
  downs p := by
    rcases p with _ | p
    · refine ⟨[3, 1], ⟨⟨rfl, rfl, rfl, rfl, rfl⟩, by decide⟩, rfl, ?_⟩
      simp [ircd]
    · exact ⟨[], ⟨rfl, List.nodup_nil⟩, rfl, by simp⟩

lemma cli_cases {P : ClientId → Client → Prop} (h0 : ∀ c, cli 0 = some c → P 0 c)
    (h1 : ∀ c, cli 1 = some c → P 1 c) (h2 : ∀ c, cli 2 = some c → P 2 c)
    (h3 : ∀ c, cli 3 = some c → P 3 c) : ∀ x c, cli x = some c → P x c := by
  intro x c hx
  rcases x with _ | _ | _ | _ | x
  · exact h0 c hx
  · exact h1 c hx
  · exact h2 c hx
  · exact h3 c hx
  · cases hx

lemma server_cases {P : ClientId → ClientId → Prop} (h1 : P 1 0) (h3 : P 3 0) (x : ClientId) (c : Client)
    (sv : Serv) (hx : cli x = some c) (hs : c.status = .server) (hsv : c.serv = some sv) : P x sv.up := by
  revert hs hsv
  refine cli_cases (P := fun x c => c.status = .server → c.serv = some sv → P x sv.up) ?_ ?_ ?_ ?_ x c hx
  · intro c hc hs
    cases hc
    cases hs
  · intro c hc _ hsv
    cases hc
    cases hsv
    exact h1
  · intro c hc hs
    cases hc
    cases hs
  · intro c hc _ hsv
    cases hc
    cases hsv
    exact h3

lemma crc32hash_net : net.crc32hash = crc32 := by
  unfold net
  rfl

lemma wf : net.WF where
  me_iff := by
    refine cli_cases ?_ ?_ ?_ ?_ <;> · intro c hc; cases hc; decide
  list_last := ⟨[3, 2, 1], rfl⟩
  list_nodup := by decide
  list_alive := by
    intro x hx
    refine isSome_iff_exists.mp ?_
    revert x
    decide
  list_server := by
    refine cli_cases ?_ ?_ ?_ ?_ <;> · intro c hc; cases hc; decide
  table_nodup b := List.Nodup.filter _ (by decide)
  table_hash b x hx := by
    obtain ⟨_, hx⟩ := List.mem_filter.mp hx
    obtain ⟨c, hc, hb⟩ := Option.map_eq_some_iff.mp (of_decide_eq_true hx)
    rw [crc32hash_net]
    exact ⟨c, hc, hb⟩
  table_server := by
    refine cli_cases ?_ ?_ ?_ ?_ <;>
      · intro c hc _
        rw [crc32hash_net]
        exact List.mem_filter.mpr ⟨by decide, by simp [hc]⟩
  server_list_yxx i x hx := by
    rcases i with _ | _ | _ | i
    · cases hx
      exact ⟨_, rfl, by decide, by decide⟩
    · cases hx
      exact ⟨_, rfl, by decide, by decide⟩
    · cases hx
      exact ⟨_, rfl, by decide, by decide⟩
    · cases hx
  serv_server := by
    refine cli_cases ?_ ?_ ?_ ?_ <;> · intro c hc; cases hc; decide
  yxx_user := by
    refine fun x c us => cli_cases (P := fun x c => c.status ≠ .user → c.user = some us →
      c.yxx = []) ?_ ?_ ?_ ?_ x c <;> · intro c hc; cases hc; simp
  client_list_server x := by
    rcases x with _ | _ | _ | _ | x
    · exact ⟨fun _ => ⟨_, rfl, by decide⟩, fun _ => rfl⟩
    · exact ⟨fun _ => ⟨_, rfl, by decide⟩, fun _ => rfl⟩
    · refine ⟨fun h => absurd h (by decide), ?_⟩
      rintro ⟨c, hc, h⟩
      cases hc
      exact absurd h (by decide)
    · exact ⟨fun _ => ⟨_, rfl, by decide⟩, fun _ => rfl⟩
    · refine ⟨fun h => absurd h (by simp [net]), ?_⟩
      rintro ⟨c, hc, _⟩
      cases hc
  up_server := server_cases (P := fun _ p => ∃ q, cli p = some q ∧ IsServerOrMe q) ⟨_, rfl, by decide⟩
    ⟨_, rfl, by decide⟩
  downs_iff p x := by
    constructor
    · intro hx
      rcases p with _ | p
      · rcases mem_cons.mp hx with rfl | hx
        · exact ⟨_, _, rfl, rfl, rfl, rfl⟩
        · rw [List.mem_singleton.mp hx]
          exact ⟨_, _, rfl, rfl, rfl, rfl⟩
      · exact absurd hx List.not_mem_nil
    · rintro ⟨c, sv, hc, hs, hsv, rfl⟩
      exact server_cases (P := fun x p => x ∈ net.downs p) (by decide) (by decide) x c sv hc hs hsv
  downs_nodup p := by
    rcases p with _ | p
    · decide
    · exact List.nodup_nil
  tree := ⟨id, server_cases (P := fun x p => p < x) (by decide) (by decide)⟩
  slot_user p cl i u hp hu := by
    rcases p with _ | _ | _ | _ | p
    · cases hp
      cases hu
    · cases hp
      dsimp only at hu
      split at hu
      · next hi =>
          cases hu
          exact ⟨_, _, _, _, rfl, rfl, rfl, rfl, rfl, rfl, by decide, by rw [hi]; decide⟩
      · cases hu
    · cases hp
    · cases hp
      cases hu
    · cases hp
  user_slot := by
    refine cli_cases ?_ ?_ ?_ ?_
    · intro c hc hs
      cases hc
      cases hs
    · intro c hc hs
      cases hc
      cases hs
    · intro c hc _
      cases hc
      exact ⟨_, _, _, _, rfl, rfl, by decide, rfl, rfl, by decide⟩
    · intro c hc hs
      cases hc
      cases hs
  local_fd i x hx := by
    rcases i with _ | _ | _ | _ | _ | _ | _ | i
    all_goals cases hx
    · exact ⟨_, rfl, rfl, rfl, fun _ h => (by cases h), fun _ _ h => (by cases h; rfl)⟩
    · exact ⟨_, rfl, rfl, rfl, fun _ h => (by cases h), fun _ _ h => (by cases h; rfl)⟩
  local_self x c i y := by
    refine cli_cases (P := fun x c => c.cli_from = x → c.fd = some i →
      net.localClientArray i = some y → y = x) ?_ ?_ ?_ ?_ x c
    · intro c hc _ hfd
      cases hc
      cases hfd
    · intro c hc _ hfd hy
      cases hc
      cases hfd
      cases hy
      rfl
    · intro c hc _ hfd
      cases hc
      cases hfd
    · intro c hc _ hfd hy
      cases hc
      cases hfd
      cases hy
      rfl

end Example

/-- The split of `leaf.net` takes the server and its user and leaves the other link. -/
theorem exitClient_exact_leaf : ∃ s' F, (∀ fuel ≥ F, exitClient fuel Example.ircd 1 = some s') ∧
    s'.cli 1 = none ∧ s'.cli 2 = none ∧ s'.cli 3 = Example.cli 3 := by
  obtain ⟨s', F, hF, hgone, hkept, _⟩ :=
    exitClient_exact Example.ircd Example.net Example.holds Example.wf 1 _ rfl rfl
  have h2 : Example.net.Below 1 2 := Net.Below.user rfl rfl rfl Net.Below.self
  have h3 : ¬ Example.net.Below 1 3 := by
    intro h
    rcases (Net.below_iff Example.wf).mp h with h | ⟨y, hy, _⟩ | ⟨c, us, hc, hs, _⟩
    · cases h
    · cases hy
    · cases hc
      cases hs
  exact ⟨s', F, hF, (hgone 1 Net.Below.self).1, (hgone 2 h2).1, (hkept 3 h3).1⟩

end Nefarious.Network
