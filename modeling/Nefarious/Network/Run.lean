import Nefarious.Network.Tree

/-!
# The server tree along a run

The steps of a run are the connections that arrive or are made, the SERVER messages on them and behind them, and
the exits.
-/

namespace Nefarious.Network

open Option (bind_eq_bind bind_eq_some_iff bind_some map_eq_some_iff some.inj)
open Function (update update_idem update_of_ne update_self)

open Nefarious.Lib Nefarious.Lib.Dll

/-! ## The handlers as changes of the network -/

section Specs

variable {s s' : Ircd} {N : Net}

/-- The record of a connection that became a server.
`m_server.c` `mr_server`; `s_serv.c` `server_estab` -/
def estabClient (me : ClientId) (c : Client) (newts ghost : ℕ) (numnick : Str) : Client :=
  { c with
    status := .server
    yxx := serverYXX numnick
    junction := true
    serv := some ⟨me, base64toint (serverCapacity numnick), newts, ghost⟩ }

/-- The record of a server behind a link.
`m_server.c` `ms_server` -/
def remoteClient (cptr sptr : ClientId) (m : ServerMsg) (host : Str) : Client where
  status := .server
  name := ircdStrncpy [] host (hostLen + 1)
  yxx := serverYXX m.numnick
  cli_from := cptr
  fd := none
  info := m.info.take realLen
  junction := m.junction
  serv := some ⟨sptr, base64toint (serverCapacity m.numnick), m.timestamp, 0⟩
  user := none

/-- The name table with a client in front of its bucket. `hash.c` `hAddClient`. -/
def hashAdd (N : Net) (x : ClientId) (name : Str) : ℕ → List ClientId :=
  update N.clientTable (strhash N.crc32hash name) (x :: N.clientTable (strhash N.crc32hash name))

lemma serverEstab_spec (h : Holds s N) (wf : N.WF) {cptr : ClientId} {c : Client}
    (hc : N.cli cptr = some c) (hx : ∀ q, cptr ∉ N.downs q) {lp : DLinkId}
    (hlp : ∀ y, s.updown y ≠ some lp) {newts ghost : ℕ} {numnick : Str}
    (he : serverEstab s cptr newts ghost numnick lp = some s') :
    Holds s' (N.link cptr N.me (estabClient N.me c newts ghost numnick) N.list
      (if c.status ≠ .handshake then hashAdd N cptr c.name else N.clientTable)) := by
  obtain ⟨hme, hcrc, hcli, htab, hsl, hcl, hloc⟩ := Tables.ext_iff.mp h.tables
  have hdl := addDlink_downlinks wf h.downs (x := cptr) (p := N.me) hlp hx
  unfold serverEstab at he
  simp only [hcli, hc, setCli, setServerYXX, bind_eq_bind, bind_some, update_self] at he
  by_cases hs : c.status = .handshake
  · simp only [hs, ne_eq, not_true_eq_false, if_false, update_self, bind_some,
      Option.some.injEq, update_idem, hme] at he
    subst he
    refine ⟨?_, h.list, h.unlisted, hdl⟩
    refine Tables.ext_iff.mpr ⟨rfl, hcrc, ?_, ?_, ?_, ?_, hloc⟩
    · simp [addDlink, Net.link, estabClient]
    · simp [addDlink, Net.link, hs, htab]
    · simp [addDlink, Net.link, estabClient, hsl]
    · simp [addDlink, Net.link, hcl]
  · simp only [hs, ne_eq, not_false_eq_true, if_true, hAddClient, update_self,
      bind_some, Option.some.injEq, update_idem, hme] at he
    subst he
    refine ⟨?_, h.list, h.unlisted, hdl⟩
    refine Tables.ext_iff.mpr ⟨rfl, hcrc, ?_, ?_, ?_, ?_, hloc⟩
    · simp [addDlink, Net.link, estabClient]
    · simp [addDlink, Net.link, hs, htab, hcrc, hashAdd]
    · simp [addDlink, Net.link, estabClient, hsl]
    · simp [addDlink, Net.link, hcl]

lemma newRemoteServer_spec (h : Holds s N) (wf : N.WF) {cptr sptr acptr : ClientId}
    (hx : ∀ q, acptr ∉ N.downs q) (hl : acptr ∉ N.list) {lp : DLinkId}
    (hlp : ∀ y, s.updown y ≠ some lp) {m : ServerMsg} {host : Str}
    (he : newRemoteServer s cptr sptr m host acptr lp = some s') :
    Holds s' (N.link acptr sptr (remoteClient cptr sptr m host) (acptr :: N.list)
      (hashAdd N acptr (ircdStrncpy [] host (hostLen + 1)))) := by
  obtain ⟨hme, hcrc, hcli, htab, hsl, hcl, hloc⟩ := Tables.ext_iff.mp h.tables
  have hdl := addDlink_downlinks wf h.downs (x := acptr) (p := sptr) hlp hx
  obtain ⟨hlist, hunl⟩ := addClientToList_list h.list h.unlisted hl
  unfold newRemoteServer at he
  simp only [bind_eq_bind, bind_eq_some_iff] at he
  obtain ⟨sc, _, sv, _, s₁, h₁, he⟩ := he
  simp only [setCli, addDlink, setServerYXX, update_self, bind_eq_bind,
    bind_some, Option.some.injEq, update_idem] at h₁
  subst h₁
  obtain rfl := some.inj he
  refine ⟨?_, hlist, hunl, hdl⟩
  refine Tables.ext_iff.mpr ⟨hme, hcrc, ?_, ?_, ?_, ?_, hloc⟩
  · simp [hAddClient, addClientToList, Net.link, remoteClient, hcli]
  · simp [hAddClient, addClientToList, Net.link, hashAdd, htab, hcrc]
  · simp [hAddClient, addClientToList, Net.link, remoteClient, hsl]
  · simp [hAddClient, addClientToList, Net.link, hcl]

lemma Holds.tables_setPlain (h : Holds s N) {x : ClientId} {c : Client} {list : List ClientId}
    {tab : ℕ → List ClientId} {loc : ℕ → Option ClientId} :
    { s.toTables with cli := update s.cli x (some c), clientTable := tab,
                      localClientArray := loc } = (N.setPlain x c list tab loc).toTables := by
  rw [h.tables]
  rfl

lemma Net.WF.nowhere (wf : N.WF) {x : ClientId} (hx : N.cli x = none) :
    x ∉ N.list ∧ (∀ b, x ∉ N.clientTable b) ∧ (∀ q, x ∉ N.downs q) ∧ ∀ i, N.localClientArray i ≠ some x := by
  have hno : ∀ {q : Prop} {c : Client}, N.cli x = some c → q := by
    intro q c hc
    rw [hx] at hc
    cases hc
  refine ⟨fun h => ?_, fun b h => ?_, fun q h => ?_, fun i h => ?_⟩
  · obtain ⟨c, hc⟩ := wf.list_alive x h
    exact hno hc
  · obtain ⟨c, hc, _⟩ := wf.table_hash b x h
    exact hno hc
  · obtain ⟨c, sv, hc, _⟩ := (wf.downs_iff q x).mp h
    exact hno hc
  · obtain ⟨c, hc, _⟩ := wf.local_fd i x h
    exact hno hc

end Specs

/-! ## Connections -/

/-- Of the connections that are no server, exactly the outgoing ones have a name. -/
def Net.Unnamed (N : Net) : Prop :=
  ∀ x c, N.cli x = some c → ¬ IsServerOrMe c → (c.name = [] ↔ ¬ Net.IsPending c)

/-- What holds between the steps of a run. -/
structure Net.Inv (N : Net) : Prop extends Net.Good N where
  unnamed : N.Unnamed

section Steps

variable {s s' : Ircd} {N : Net}

variable {x cptr : ClientId} {c : Client} {fd newts fuel : ℕ} {tab : ℕ → List ClientId} {name host : Str} {lp
  : DLinkId} {m : ServerMsg}

lemma Net.Sound.canSet_new (hs : N.Sound) (hx : N.cli x = none) (hfd : N.localClientArray fd = none)
    (hc : ¬ IsServerOrMe c ∧ c.user = none ∧ c.status ≠ .user)
    (hup : Net.IsPending c → ∃ sv, c.serv = some sv ∧ sv.up = N.me) (hcs : IsCStr c.name)
    (hself : c.cli_from = x) (hcfd : c.fd = some fd) (htab : N.Rehash x (Net.IsPending c) c.name tab) :
    N.CanSet x c (x :: N.list) tab (update N.localClientArray fd (some x)) := by
  obtain ⟨hxl, _, _, hxa⟩ := hs.nowhere hx
  refine
    { plain₀ := fun c₀ hc₀ => ?_, plain := hc.1, nouser := hc.2, cstr := hcs,
      list := Or.inr ⟨rfl, hxl⟩, table := htab, up := hup, self := hself,
      loc := fun i y => ?_ }
  · rw [hx] at hc₀
    cases hc₀
  · by_cases hi : i = fd
    · subst hi
      rw [update_self, hcfd, hfd]
      simp [eq_comm]
    · rw [update_of_ne hi, hcfd]
      refine ⟨fun hy => Or.inr ⟨fun e => hxa i (e ▸ hy), hy⟩, ?_⟩
      rintro (⟨_, e⟩ | ⟨_, hy⟩)
      · exact absurd (some.inj e).symm hi
      · exact hy

lemma Net.Sound.canSet_old (hs : N.Sound) {c₀ : Client} (hx : N.cli x = some c₀) (hp₀ : ¬ IsServerOrMe c₀)
    (hp : ¬ IsServerOrMe c) (hu : c.user = none ∧ c.status ≠ .user) (hcs : IsCStr c.name)
    (hconn : c.cli_from = c₀.cli_from ∧ c.fd = c₀.fd) (htab : N.Rehash x (Net.IsPending c) c.name tab)
    (hup : Net.IsPending c → ∃ sv, c.serv = some sv ∧ sv.up = N.me) :
    N.CanSet x c N.list tab N.localClientArray := by
  have hself := hs.self_from x c₀ hx hp₀
  refine
    { plain₀ := fun c₁ hc₁ => ?_, plain := hp, nouser := hu, cstr := hcs,
      list := Or.inl ⟨rfl, hs.listed x c₀ hx⟩, table := htab, up := hup,
      self := hconn.1.trans hself, loc := fun i y => ⟨fun hy => ?_, ?_⟩ }
  · obtain rfl : c₀ = c₁ := some.inj (hx.symm.trans hc₁)
    exact hp₀
  · by_cases e : y = x
    · subst e
      obtain ⟨d, hd, hfd, _⟩ := hs.local_fd i y hy
      obtain rfl : c₀ = d := some.inj (hx.symm.trans hd)
      exact .inl ⟨rfl, hconn.2.trans hfd⟩
    · exact .inr ⟨e, hy⟩
  · rintro (⟨rfl, hfd⟩ | ⟨_, hy⟩)
    · exact hs.fd_array y c₀ i hx hself (hconn.2.symm.trans hfd)
    · exact hy

lemma Net.Unnamed.setPlain (hu : N.Unnamed) {list : List ClientId} {loc : ℕ → Option ClientId}
    (hc : c.name = [] ↔ ¬ Net.IsPending c) : (N.setPlain x c list tab loc).Unnamed := by
  intro y d hy hs
  rcases Net.setPlain_cli_cases hy with ⟨_, rfl⟩ | ⟨_, hy⟩
  · exact hc
  · exact hu y d hy hs

lemma acceptLink_inv (h : Holds s N) (hi : N.Inv) (hx : N.cli x = none)
    (hfd : N.localClientArray fd = none) : ∃ N', Holds (acceptLink s x fd) N' ∧ N'.Inv := by
  obtain ⟨hxl, hxt, _, _⟩ := hi.nowhere hx
  obtain ⟨hlist, hunl⟩ := addClientToList_list h.list h.unlisted hxl
  obtain ⟨_, _, _, htab, _, _, hloc⟩ := Tables.ext_iff.mp h.tables
  set c : Client := ⟨.unknownServer, [], [], x, some fd, [], false, none, none⟩ with hc
  have hns : ¬ IsServerOrMe c := by
    rintro (e | e) <;> cases e
  have hnp : ¬ Net.IsPending c := by
    rintro (e | e) <;> cases e
  have hcan := hi.toSound.canSet_new (c := c) hx hfd
    ⟨hns, rfl, by simp [c]⟩ (fun e => absurd e hnp) (by simp [c, IsCStr]) rfl rfl (hi.rehash_none hnp hxt)
  refine ⟨N.setPlain x c (x :: N.list) N.clientTable (update N.localClientArray fd
    (some x)), ⟨?_, hlist, hunl, h.downs⟩, ?_⟩
  · rw [← h.tables_setPlain, ← htab, ← hloc]
    rfl
  · exact { toGood := hi.toGood.setPlain hcan (fun e => absurd e hnp)
            unnamed := hi.unnamed.setPlain (iff_of_true rfl hnp) }

lemma connectNew_inv (h : Holds s N) (hi : N.Inv) (hx : N.cli x = none) (hfd : N.localClientArray fd = none)
    (hcs : IsCStr name) (hne : name ≠ []) (hlen : name.length ≤ hostLen)
    (hfree : ∀ b y d, y ∈ N.clientTable b → N.cli y = some d → strEq d.name name = false) : ∃ N',
    Holds (connectServer.connectNew x fd name s) N' ∧ N'.Inv := by
  obtain ⟨hxl, hxt, _, _⟩ := hi.nowhere hx
  obtain ⟨hlist, hunl⟩ := addClientToList_list h.list h.unlisted hxl
  obtain ⟨hme, hcrc, _, htab, _, _, hloc⟩ := Tables.ext_iff.mp h.tables
  have hname : name.take hostLen = name := List.take_of_length_le hlen
  set c : Client := ⟨.connecting, name, [], x, some fd, [], false, some ⟨N.me, 0, 0, 0⟩, none⟩ with hc
  have hns : ¬ IsServerOrMe c := by
    rintro (e | e) <;> cases e
  have hp : Net.IsPending c := Or.inr rfl
  have hcan := hi.toSound.canSet_new (c := c) hx hfd ⟨hns, rfl, by simp [c]⟩
    (fun _ => ⟨_, rfl, rfl⟩) hcs rfl rfl (hi.rehash_add hp hxt)
  refine ⟨N.setPlain x c (x :: N.list) (hashAdd N x name) (update N.localClientArray fd
    (some x)), ⟨?_, hlist, hunl, h.downs⟩, ?_⟩
  · rw [← h.tables_setPlain, hashAdd, ← htab, ← hloc, ← hcrc]
    simp only [connectServer.connectNew, hname, hc, ← hme]
    rfl
  · exact { toGood := hi.toGood.setPlain hcan (fun _ b y d _ hy hd => hfree b y d hy hd)
            unnamed := hi.unnamed.setPlain (iff_of_false hne (not_not.mpr hp)) }

lemma Net.Inv.retable (hi : N.Inv) {t : ℕ → List ClientId}
    (ht : ∀ b, (t b).Perm (N.clientTable b)) : ({ N with clientTable := t } : Net).Inv :=
  { toGood := hi.toGood.retable ht, unnamed := hi.unnamed }

lemma connectServer_inv (h : Holds s N) (hi : N.Inv) (hx : N.cli x = none)
    (hfd : N.localClientArray fd = none) (hcs : IsCStr name) (hne : name ≠ [])
    (hlen : name.length ≤ hostLen) : ∃ N', Holds (connectServer s x fd name) N' ∧ N'.Inv := by
  obtain ⟨t, ht, hperm, _, hnone, hsome⟩ := findClient_spec h hi.toGood hne hcs
  unfold connectServer
  generalize findClient s name = r at ht hnone hsome ⊢
  obtain ⟨s₁, found⟩ := r
  have hi₁ := hi.retable hperm
  have hcli : s₁.cli = N.cli := (Tables.ext_iff.mp ht.tables).2.2.1
  cases found with
  | none =>
    refine connectNew_inv ht hi₁ hx hfd hcs hne hlen (fun b y d hy hd => ?_)
    exact hnone rfl b y d ((hperm b).mem_iff.mp hy) hd
  | some z =>
    -- the table holds only clients that end the attempt
    obtain ⟨b, hz⟩ := hsome z rfl
    obtain ⟨c, hc, _⟩ := hi.table_hash b z hz
    have hst : c.status = .server ∨ c.status = .me ∨ c.status = .handshake ∨ c.status = .connecting := by
      rcases hi.hashed b z c hz hc with (e | e) | e | e <;> simp [e]
    simp only [bind_some, hcli, hc, if_pos hst]
    exact ⟨_, ht, hi₁⟩

lemma completedConnection_inv (h : Holds s N) (hi : N.Inv) :
    ∃ N', Holds (completedConnection s x newts) N' ∧ N'.Inv := by
  obtain ⟨_, _, hcli, htab, _, _, hloc⟩ := Tables.ext_iff.mp h.tables
  unfold completedConnection
  rw [hcli]
  split
  · next c hc =>
      split
      · next hcon =>
          have hns : ¬ IsServerOrMe c := by
            rintro (e | e) <;> rw [hcon] at e <;> cases e
          obtain ⟨sv, hsv, hup⟩ := hi.pending_up x c hc (Or.inr hcon)
          have hx := hi.pending_hashed x c hc (Or.inr hcon)
          set c' : Client := { c with status := .handshake
                                      serv := c.serv.map (fun sv => { sv with timestamp := newts }) }
            with hc'
          have hp : Net.IsPending c' := Or.inl rfl
          have hcan := hi.toSound.canSet_old (c := c') hc hns (by rintro (e | e) <;> cases e)
            ⟨(hi.nouser x c hc).1, by simp [c']⟩ (hi.cstr x c hc) ⟨rfl, rfl⟩
            (hi.rehash_self hp hc hx rfl) (fun _ => ⟨{ sv with timestamp := newts }, by
              simp [c', hsv], hup⟩)
          refine ⟨N.setPlain x c' N.list N.clientTable N.localClientArray,
            ⟨?_, h.list, h.unlisted, h.downs⟩, ?_⟩
          · rw [← h.tables_setPlain, ← htab, ← hloc]
            rfl
          · refine { toGood := hi.toGood.setPlain hcan (fun _ b y d hyx hy hd => ?_)
                     unnamed := hi.unnamed.setPlain (iff_of_false ?_ (not_not.mpr hp)) }
            · by_contra hn
              exact hyx (hi.names b y _ x d c hy hx hd hc (by simpa using hn))
            · intro e
              exact (hi.unnamed x c hc hns).mp e (Or.inr hcon)
      · exact ⟨N, h, hi⟩
  · exact ⟨N, h, hi⟩

lemma cleanServername_spec (h : cleanServername name = some host) :
    host ≠ [] ∧ IsCStr host ∧ ircdStrncpy [] host (hostLen + 1) = host := by
  simp only [cleanServername] at h
  split at h
  · next hcond =>
      obtain rfl := some.inj h
      obtain ⟨hall, hdot⟩ := hcond
      refine ⟨List.ne_nil_of_mem hdot, fun ch hch => ?_, ?_⟩
      · have hb := List.all_eq_true.mp hall ch hch
        simp only [decide_eq_true_eq] at hb
        have h1 : 32 < ch.toNat := hb.1
        have h2 : ch.toNat ≤ 126 := hb.2
        exact ⟨by omega, by omega⟩
      · simp [ircdStrncpy]
  · cases h

lemma Net.Good.rehash_change (hg : N.Good)
    {hashed : Prop} (hh : hashed) (hc : N.cli x = some c) :
    N.Rehash x hashed name (update (update N.clientTable (strhash N.crc32hash c.name)
        ((N.clientTable (strhash N.crc32hash c.name)).erase x)) (strhash N.crc32hash name)
      (x :: update N.clientTable (strhash N.crc32hash c.name)
        ((N.clientTable (strhash N.crc32hash c.name)).erase x) (strhash N.crc32hash name))) := by
  -- the table without the client
  set T := update N.clientTable (strhash N.crc32hash c.name)
    ((N.clientTable (strhash N.crc32hash c.name)).erase x) with hT
  have hmem : ∀ b, (T b).Nodup ∧ ∀ y, y ∈ T b ↔ y ≠ x ∧ y ∈ N.clientTable b := by
    intro b
    by_cases hb : b = strhash N.crc32hash c.name
    · subst hb
      rw [hT, update_self]
      exact ⟨(hg.table_nodup _).erase x, fun y => (hg.table_nodup _).mem_erase_iff⟩
    · rw [hT, update_of_ne hb]
      refine ⟨hg.table_nodup b, fun y => ⟨fun hy => ⟨?_, hy⟩, (·.2)⟩⟩
      rintro rfl
      obtain ⟨d, hd, hdb⟩ := hg.table_hash b y hy
      obtain rfl : c = d := some.inj (hc.symm.trans hd)
      exact hb hdb.symm
  intro b
  by_cases hb : b = strhash N.crc32hash name
  · subst hb
    rw [update_self]
    refine ⟨List.nodup_cons.mpr ⟨fun e => ((hmem _).2 x).mp e |>.1 rfl, (hmem _).1⟩, fun y => ?_⟩
    rw [List.mem_cons, (hmem _).2]
    simp [hh]
  · rw [update_of_ne hb]
    refine ⟨(hmem b).1, fun y => ?_⟩
    rw [(hmem b).2]
    simp [hb]

lemma renameLink_spec (h : Holds s N) (hi : N.Inv) (hc : N.cli cptr = some c)
    (hst : c.status = .unknown ∨ c.status = .unknownServer ∨ c.status = .handshake) (info : Str) (hcs : IsCStr host)
    (hcp : ircdStrncpy [] host (hostLen + 1) = host) :
    ∃ tab, N.CanSet cptr { c with name := host, info := info } N.list tab N.localClientArray ∧
      Holds (renameLink s cptr c host info)
        (N.setPlain cptr { c with name := host, info := info } N.list tab N.localClientArray) ∧
      (renameLink s cptr c host info).updown = s.updown := by
  obtain ⟨_, hcrc, hcli, htab, _, _, hloc⟩ := Tables.ext_iff.mp h.tables
  have hns : ¬ IsServerOrMe c := by
    rintro (e | e) <;> rw [e] at hst <;> simp at hst
  have hcan : ∀ tab, N.Rehash cptr (Net.IsPending c) host tab →
      N.CanSet cptr { c with name := host, info := info } N.list tab N.localClientArray :=
    fun tab htab => hi.toSound.canSet_old hc hns hns (hi.nouser cptr c hc) hcs ⟨rfl, rfl⟩ htab
      (hi.pending_up cptr c hc)
  by_cases hre : c.name ≠ [] ∧ ¬ strEq c.name host
  · -- another name: the client moves to the bucket of the new one
    have hp : Net.IsPending c := by
      by_contra hp
      exact hre.1 ((hi.unnamed cptr c hc hns).mpr hp)
    have heq : renameLink s cptr c host info = setCli (hChangeClient s cptr c.name host) cptr
        { c with name := host, info := info } := by
      simp only [renameLink, if_pos hre, hcp]
    rw [heq]
    refine ⟨_, hcan _ (hi.rehash_change hp hc), ⟨?_, h.list, h.unlisted, h.downs⟩, rfl⟩
    rw [← h.tables_setPlain, ← htab, ← hloc, ← hcrc]
    rfl
  · have heq : renameLink s cptr c host info = setCli s cptr
        { c with name := host, info := info } := by
      simp only [renameLink, if_neg hre, hcp]
    rw [heq]
    refine ⟨N.clientTable, hcan _ ?_, ⟨?_, h.list, h.unlisted, h.downs⟩, rfl⟩
    · by_cases hp : Net.IsPending c
      · have hne : c.name ≠ [] := fun e => (hi.unnamed cptr c hc hns).mp e hp
        have heq : strEq c.name host = true := by
          by_contra e
          exact hre ⟨hne, e⟩
        refine hi.rehash_self hp hc (hi.pending_hashed cptr c hc hp) ?_
        exact (strhash_congr _ ((strEq_iff (hi.cstr cptr c hc) hcs).mp heq)).symm
      · refine hi.rehash_none hp (hi.unhashed (fun d hd => ?_))
        obtain rfl : c = d := some.inj (hc.symm.trans hd)
        exact ⟨hns, hp⟩
    · rw [← h.tables_setPlain, ← htab, ← hloc]
      rfl

lemma Net.Unnamed.sub {N' : Net} (hu : N.Unnamed) (hsub : N.Sub N') : N'.Unnamed :=
  fun x c hc => hu x c (hsub.cli x c hc)

lemma exitClient_inv (h : Holds s N) (hi : N.Inv) {v : ClientId} (hv : v ≠ N.me)
    (he : exitClient fuel s v = some s') : ∃ N', Holds s' N' ∧ N'.Inv := by
  obtain ⟨N', h', hg', hsub, _⟩ := exitClient_good h hi.toGood hv he
  exact ⟨N', h', { toGood := hg', unnamed := hi.unnamed.sub hsub }⟩

/-! ## SERVER messages -/

/-- A client of the name table that has the name. -/
def Tables.Named (t : Tables) (host : Str) (y : ClientId) (d : Client) : Prop :=
  (∃ b, y ∈ t.clientTable b) ∧ t.cli y = some d ∧ strEq d.name host = true

/-- The slot that the announced numeric is stored to is free, or held by a server of the announced
name. -/
def SlotOk (t : Tables) (host numnick : Str) : Prop :=
  ∀ y d, t.server_list (base64toint (serverYXX numnick)) = some y → t.cli y = some d → strEq d.name host = true

/-- The condition on a SERVER message from a connection: a handshake does not change to a name that
another client has; and the numeric is not another server's, or it is one that is looked up in the
slot it is stored to, on a connection that arrived, with nobody in the way by name. -/
def MrOk (t : Tables) (env : ServerEnv) (cptr : ClientId) (m : ServerMsg) : Prop :=
  ∀ c host, t.cli cptr = some c → cleanServername m.name = some host → env.refuseConf = false →
    (c.status = .handshake → strEq c.name host = true ∨ ∀ y d, y ≠ cptr → ¬ t.Named host y d) ∧
    (SlotOk t host m.numnick ∨
      serverSlot m.numnick = base64toint (serverYXX m.numnick) ∧ c.status ≠ .handshake ∧
        ∀ y d, ¬ t.Named host y d)

/-- The condition on a SERVER message behind a link: the numeric is not another server's, or it is
one that is looked up in the slot it is stored to, with no connection attempt to the name. -/
def MsOk (t : Tables) (m : ServerMsg) : Prop :=
  ∀ host, cleanServername m.name = some host → SlotOk t host m.numnick ∨
      serverSlot m.numnick = base64toint (serverYXX m.numnick) ∧
        ∀ y d, t.Named host y d → d.status ≠ .connecting

lemma SlotOk.free {N' : Net} {numnick : Str}
    (hok : SlotOk N.toTables host numnick) (hg' : N'.Good) (hsub : N.Sub N')
    (hon : N'.OnlySelf cptr host) : N'.server_list (base64toint (serverYXX numnick)) = none := by
  cases hsl : N'.server_list (base64toint (serverYXX numnick)) with
  | none => rfl
  | some y =>
    obtain ⟨d, hd, hds, _⟩ := hg'.server_list_yxx _ y hsl
    have hn := hok y d (hsub.server_list _ y hsl) (hsub.cli y d hd)
    obtain ⟨_, hst⟩ := hon _ y d (hg'.table_server y d hd hds) hd hn
    rcases hds with e | e <;> rw [hst] at e <;> cases e

lemma serverEstab_inv (h : Holds s N) (hg : N.Good) (hc : N.cli cptr = some c)
    (hst : c.status = .unknown ∨ c.status = .unknownServer ∨ c.status = .handshake)
    (hon : N.OnlySelf cptr c.name) {numnick : Str}
    (hslot : N.server_list (base64toint (serverYXX numnick)) = none)
    (hu : ∀ x d, x ≠ cptr → N.cli x = some d → ¬ IsServerOrMe d → (d.name = [] ↔ ¬ Net.IsPending d))
    (hlp : ∀ y, s.updown y ≠ some lp) {ghost : ℕ} (he : serverEstab s cptr newts ghost numnick lp = some s') :
    ∃ N', Holds s' N' ∧ N'.Inv := by
  have hns : ¬ IsServerOrMe c := by
    rintro (e | e) <;> rw [e] at hst <;> simp at hst
  have hxd : ∀ q, cptr ∉ N.downs q := by
    intro q hx
    obtain ⟨d, _, hd, hds, _⟩ := (hg.downs_iff q cptr).mp hx
    obtain rfl : c = d := some.inj (hc.symm.trans hd)
    exact hns (Or.inl hds)
  obtain ⟨cm, hcm, hcms⟩ := hg.me_alive
  have hcan : N.CanLink cptr N.me (estabClient N.me c newts ghost numnick) cm
      ⟨N.me, base64toint (serverCapacity numnick), newts, ghost⟩ :=
    { plain := fun c₀ hc₀ => some.inj (hc.symm.trans hc₀) ▸ hns
      status := rfl
      serv := rfl
      up := rfl
      user := (hg.nouser cptr c hc).1
      cstr := hg.cstr cptr c hc
      uplink := ⟨hcm, Or.inr hcms⟩
      slot := hslot
      name := fun b y d hyx hy hd => by
        by_contra hn
        exact hyx (hon b y d hy hd (by simpa [estabClient] using hn)).1
      link := Or.inl ⟨rfl, hg.self_from cptr c hc hns⟩
      conn := fun i hi => by
        obtain ⟨d, hd, hfd, hfrom, _⟩ := hg.local_fd i cptr hi
        obtain rfl : c = d := some.inj (hc.symm.trans hd)
        exact ⟨hfd, hfrom, rfl⟩
      fd := fun i hfrom hfd => hg.fd_array cptr c i hc hfrom hfd }
  refine ⟨_, serverEstab_spec h hg.toWF hc hxd hlp he, { toGood := hg.link hcan ?_ ?_, unnamed := ?_ }⟩
  · by_cases hh : c.status = .handshake
    · rw [if_neg (not_not.mpr hh)]
      exact hg.rehash_self trivial hc (hg.pending_hashed cptr c hc (Or.inl hh)) rfl
    · rw [if_pos hh]
      refine hg.rehash_add trivial (hg.unhashed (fun d hd => ?_))
      obtain rfl : c = d := some.inj (hc.symm.trans hd)
      refine ⟨hns, ?_⟩
      rintro (e | e)
      · exact hh e
      · rw [e] at hst
        simp at hst
  · exact .inl ⟨rfl, hg.listed cptr c hc⟩
  · intro x d hx hs
    rcases Net.link_cli_cases hx with ⟨_, rfl⟩ | ⟨hne, hx⟩
    · exact absurd (Or.inl rfl) hs
    · exact hu x d hne hx hs

lemma newRemoteServer_inv (h : Holds s N) (hi : N.Inv) {sptr acptr : ClientId} {sc : Client}
    (hsc : N.cli sptr = some sc) (hst : sc.status = .server) (hfrom : sc.cli_from = cptr)
    (hac : N.cli acptr = none) (hcs : IsCStr host) (hcp : ircdStrncpy [] host (hostLen + 1) = host)
    (hon : N.OnlySelf cptr host) (hhand : ∀ c, N.cli cptr = some c → c.status ≠ .handshake)
    (hslot : N.server_list (base64toint (serverYXX m.numnick)) = none) (hlp : ∀ y, s.updown y ≠ some lp)
    (he : newRemoteServer s cptr sptr m host acptr lp = some s') : ∃ N', Holds s' N' ∧ N'.Inv := by
  obtain ⟨hxl, hxt, hxd, hxa⟩ := hi.nowhere hac
  have hcan : N.CanLink acptr sptr (remoteClient cptr sptr m host) sc
      ⟨sptr, base64toint (serverCapacity m.numnick), m.timestamp, 0⟩ :=
    { plain := fun c₀ hc₀ => (by rw [hac] at hc₀; cases hc₀)
      status := rfl
      serv := rfl
      up := rfl
      user := rfl
      cstr := by simpa only [remoteClient, hcp] using hcs
      uplink := ⟨hsc, Or.inl hst⟩
      slot := hslot
      name := fun b y d hyx hy hd => by
        by_contra hn
        simp only [remoteClient, hcp, Bool.not_eq_false] at hn
        obtain ⟨rfl, hh⟩ := hon b y d hy hd hn
        exact hhand d hd hh
      link := Or.inr ⟨hst, hfrom⟩
      conn := fun i hi => absurd hi (hxa i)
      fd := fun i _ hfd => (by cases hfd) }
  refine ⟨_, newRemoteServer_spec h hi.toWF hxd hxl hlp he,
    { toGood := hi.toGood.link hcan (hi.rehash_add trivial hxt) (Or.inr ⟨rfl, hxl⟩),
      unnamed := ?_ }⟩
  intro x d hx hs
  rcases Net.link_cli_cases hx with ⟨_, rfl⟩ | ⟨_, hx⟩
  · exact absurd (Or.inl rfl) hs
  · exact hi.unnamed x d hx hs

lemma mrServer_inv (h : Holds s N) (hi : N.Inv) (hcme : cptr ≠ N.me) {env : ServerEnv}
    (hok : MrOk N.toTables env cptr m) (hlp : ∀ y, s.updown y ≠ some lp) {b : Bool}
    (he : mrServer fuel env s cptr m newts lp = some (s', b)) : ∃ N', Holds s' N' ∧ N'.Inv := by
  have hcli : s.cli = N.cli := congrArg Tables.cli h.tables
  have hexit : (exitClient fuel s cptr).bind (fun s => some (s, false)) = some (s', b) →
      ∃ N', Holds s' N' ∧ N'.Inv := by
    intro he
    obtain ⟨s₁, hs₁, he⟩ := bind_eq_some_iff.mp he
    obtain ⟨rfl, rfl⟩ := Prod.mk.inj (some.inj he)
    exact exitClient_inv h hi hcme hs₁
  simp only [mrServer, bind_eq_bind, bind_eq_some_iff] at he
  obtain ⟨c, hc, he⟩ := he
  rw [hcli] at hc
  split at he
  · exact hexit he
  next hst =>
  split at he
  · exact hexit he
  split at he
  · exact hexit he
  next host hhost =>
  obtain ⟨hne, hcs, hcp⟩ := cleanServername_spec hhost
  have hst' : c.status = .unknown ∨ c.status = .unknownServer ∨ c.status = .handshake := by
    tauto
  have hns : ¬ IsServerOrMe c := by
    rintro (e | e) <;> rw [e] at hst' <;> simp at hst'
  generalize (if m.info = [] then _ else m.info).take realLen = info at he
  obtain ⟨tab, hcan, h₁, hup₁⟩ := renameLink_spec h hi hc hst' info hcs hcp
  set c₁ : Client := { c with name := host, info := info } with hc₁
  set N₁ := N.setPlain cptr c₁ N.list tab N.localClientArray with hN₁
  have hcp₁ : N₁.cli cptr = some c₁ := Net.setPlain_cli_self
  -- nobody but the connection itself was changed
  have hothers : ∀ {N' : Net}, N₁.Sub N' → ∀ x d, x ≠ cptr → N'.cli x = some d →
      ¬ IsServerOrMe d → (d.name = [] ↔ ¬ Net.IsPending d) := by
    intro N' hsub x d hx hd hs
    have := hsub.cli x d hd
    rw [hN₁, Net.setPlain_cli_of_ne hx] at this
    exact hi.unnamed x d this hs
  have hgone : ∀ {N' : Net}, N₁.Sub N' → N'.cli cptr = none → N'.Unnamed := by
    intro N' hsub hg x d hd
    refine hothers hsub x d ?_ hd
    rintro rfl
    rw [hg] at hd
    cases hd
  split at he
  · -- refused under the new name, whoever else may have it
    obtain ⟨s₂, hs₂, he⟩ := bind_eq_some_iff.mp he
    obtain ⟨rfl, rfl⟩ := Prod.mk.inj (some.inj he)
    obtain ⟨R, hvR, hR, hme, hd⟩ := exitClient_drop h₁ (hi.toSound.setPlain_wf hcan) hcme hs₂
    refine ⟨_, hd.holds, { toGood := hi.toGood.setPlain_drop hcan hvR hR hme, unnamed := ?_ }⟩
    exact hgone (N₁.sub_drop R) (by simp [Net.drop, hvR])
  next hconf =>
  obtain ⟨hname, hnum⟩ := hok c host hc hhost (by simpa using hconf)
  have hg₁ : N₁.Good := by
    refine hi.toGood.setPlain hcan (fun hp b y d hyx hy hd => ?_)
    by_contra hn
    have hn' : strEq d.name host = true := by simpa [c₁] using hn
    rcases hp with hh | hh
    · rcases hname hh with e | e
      · have hx := hi.pending_hashed cptr c hc (Or.inl hh)
        exact hyx (hi.names b y _ cptr d c hy hx hd hc
          (strEq_trans (hi.cstr y d hd) hcs (hi.cstr cptr c hc) hn' (strEq_comm _ _ ▸ e)))
      · exact e y d hyx ⟨⟨b, hy⟩, hd, hn'⟩
    · have : c.status = .connecting := hh
      rw [this] at hst'
      simp at hst'
  obtain ⟨⟨s₂, ret, ghost⟩, hcheck, he⟩ := bind_eq_some_iff.mp he
  obtain ⟨N₂, h₂, hg₂, hsub, hclr, hone, hkill⟩ :=
    checkLoopAndLh_spec hne hcs h₁ hg₁ hcme hcme (Or.inl rfl) hcheck
  simp only at he
  split at he
  · next hret =>
      obtain ⟨rfl, rfl⟩ := Prod.mk.inj (some.inj he)
      refine ⟨N₂, h₂, { toGood := hg₂, unnamed := hgone hsub (hkill hret rfl rfl ?_) }⟩
      intro d hd e
      obtain rfl : c₁ = d := some.inj (hcp₁.symm.trans hd)
      exact hns (Or.inl e)
  · next hret =>
      obtain ⟨s₃, hs₃, he⟩ := bind_eq_some_iff.mp he
      obtain ⟨rfl, rfl⟩ := Prod.mk.inj (some.inj he)
      obtain ⟨hon, hsl⟩ := hone (not_not.mp hret)
      have hcp₂ : N₂.cli cptr = some c₁ := by
        obtain ⟨d, hd, _⟩ := bind_eq_some_iff.mp hs₃
        rw [(Tables.ext_iff.mp h₂.tables).2.2.1] at hd
        exact hd.trans (hsub.cli cptr d hd ▸ hcp₁)
      refine serverEstab_inv h₂ hg₂ hcp₂ hst' hon ?_ (hothers hsub) ?_ hs₃
      · rcases hnum with hok | ⟨hlook, hh, hfree⟩
        · refine SlotOk.free (N := N₁) (fun y d hy hd => ?_) hg₂ hsub hon
          obtain ⟨d', hd', hds, _⟩ := hi.server_list_yxx _ y hy
          rw [hN₁, Net.setPlain_cli_of_ne (hcan.ne_of_server hd' hds)] at hd
          exact hok y d hy hd
        · rw [← hlook]
          refine hsl.resolve_right ?_
          rintro ⟨b, x, d, hx, hd, hn, _⟩
          rcases ((hcan.table b).2 x).mp hx with ⟨_, hp, _⟩ | ⟨hne, hx⟩
          · rcases hp with e | e
            · exact hh e
            · have : c.status = .connecting := e
              rw [this] at hst'
              simp at hst'
          · rw [hN₁, Net.setPlain_cli_of_ne hne] at hd
            exact hfree x d ⟨⟨b, hx⟩, hd, hn⟩
      · intro y e
        rcases hclr y with e' | e' <;> rw [e'] at e
        · rw [hup₁] at e
          exact hlp y e
        · cases e

lemma msServer_inv (h : Holds s N) (hi : N.Inv) {sptr acptr : ClientId} {cc sc : Client}
    (hcc : N.cli cptr = some cc) (hcst : cc.status = .server) (hsc : N.cli sptr = some sc)
    (hsst : sc.status = .server) (hfrom : sc.cli_from = cptr) (hac : N.cli acptr = none)
    {env : ServerEnv} (hok : MsOk N.toTables m) (hlp : ∀ y, s.updown y ≠ some lp)
    {b : Bool} (he : msServer fuel env s cptr sptr m acptr lp = some (s', b)) : ∃ N', Holds s' N' ∧ N'.Inv := by
  have hsrv : ∀ {x : ClientId} {c : Client}, N.cli x = some c → c.status = .server → x ≠ N.me := by
    intro x c hc hst e
    rw [(hi.me_iff x c hc).mpr e] at hst
    cases hst
  have hcme := hsrv hcc hcst
  have hsme := hsrv hsc hsst
  have hexit : ∀ v, v ≠ N.me → (exitClient fuel s v).bind (fun s => some (s, false)) = some (s', b) →
      ∃ N', Holds s' N' ∧ N'.Inv := by
    intro v hv he
    obtain ⟨s₁, hs₁, he⟩ := bind_eq_some_iff.mp he
    obtain ⟨rfl, rfl⟩ := Prod.mk.inj (some.inj he)
    exact exitClient_inv h hi hv hs₁
  have hkeep : some (s, false) = some (s', b) → ∃ N', Holds s' N' ∧ N'.Inv := by
    intro he
    obtain ⟨rfl, rfl⟩ := Prod.mk.inj (some.inj he)
    exact ⟨N, h, hi⟩
  unfold msServer at he
  split at he
  · exact hkeep he
  split at he
  · exact hexit cptr hcme he
  next host hhost =>
  obtain ⟨hne, hcs, hcp⟩ := cleanServername_spec hhost
  split at he
  · exact hexit sptr hsme he
  split at he
  · exact hkeep he
  split at he
  · exact hexit sptr hsme he
  split at he
  · exact hexit cptr hcme he
  obtain ⟨⟨s₂, ret, ghost⟩, hcheck, he⟩ := bind_eq_some_iff.mp he
  have hpair : sptr = cptr ∨ ∀ c, N.cli cptr = some c → c.status = .server :=
    Or.inr (fun c hc => some.inj (hcc.symm.trans hc) ▸ hcst)
  obtain ⟨N₂, h₂, hg₂, hsub, hclr, hone, _⟩ := checkLoopAndLh_spec hne hcs h hi.toGood hcme hsme hpair hcheck
  have hi₂ : N₂.Inv := { toGood := hg₂, unnamed := hi.unnamed.sub hsub }
  simp only at he
  split at he
  · obtain ⟨rfl, rfl⟩ := Prod.mk.inj (some.inj he)
    exact ⟨N₂, h₂, hi₂⟩
  next hret =>
  obtain ⟨s₃, hs₃, he⟩ := bind_eq_some_iff.mp he
  obtain ⟨rfl, rfl⟩ := Prod.mk.inj (some.inj he)
  obtain ⟨hon, hsl⟩ := hone (not_not.mp hret)
  have hsc₂ : N₂.cli sptr = some sc := by
    obtain ⟨d, hd, _⟩ := bind_eq_some_iff.mp hs₃
    rw [(Tables.ext_iff.mp h₂.tables).2.2.1] at hd
    exact hd.trans (hsub.cli sptr d hd ▸ hsc)
  have hac₂ : N₂.cli acptr = none := by
    cases hd : N₂.cli acptr with
    | none => rfl
    | some d =>
      rw [hsub.cli acptr d hd] at hac
      cases hac
  have hhand : ∀ c, N₂.cli cptr = some c → c.status ≠ .handshake := by
    intro c hc e
    obtain rfl : cc = c := some.inj (hcc.symm.trans (hsub.cli cptr c hc))
    rw [hcst] at e
    cases e
  refine newRemoteServer_inv h₂ hi₂ hsc₂ hsst hfrom hac₂ hcs hcp hon hhand ?_ ?_ hs₃
  · rcases hok host hhost with hok | ⟨hlook, hfree⟩
    · exact hok.free hg₂ hsub hon
    · rw [← hlook]
      refine hsl.resolve_right ?_
      rintro ⟨b, x, d, hx, hd, hn, e | ⟨d', hd', e⟩⟩
      · exact hfree x d ⟨⟨b, hx⟩, hd, hn⟩ e
      · obtain rfl : sc = d' := some.inj (hsc.symm.trans hd')
        exact e hsst
  · intro y e
    rcases hclr y with e' | e' <;> rw [e'] at e
    · exact hlp y e
    · cases e

end Steps

/-! ## Runs -/

/-- What happens to the server tree: a connection arrives, one is attempted or completed, a SERVER
message comes on a connection or behind a link, a client exits.
`s_bsd.c`; `m_server.c`; `s_misc.c` -/
inductive Event
  | accept (x : ClientId) (fd : ℕ)
  | connect (x : ClientId) (fd : ℕ) (name : Str)
  | completed (x : ClientId) (newts : ℕ)
  | mrServer (fuel : ℕ) (env : ServerEnv) (cptr : ClientId) (m : ServerMsg) (newts : ℕ)
      (lp : DLinkId)
  | msServer (fuel : ℕ) (env : ServerEnv) (cptr sptr : ClientId) (m : ServerMsg)
      (acptr : ClientId) (lp : DLinkId)
  | exit (fuel : ℕ) (v : ClientId)

/-- The effect of an event. `s_bsd.c`; `m_server.c`; `s_misc.c`. -/
def step (s : Ircd) : Event → Option Ircd
  | .accept x fd => some (acceptLink s x fd)
  | .connect x fd name => some (connectServer s x fd name)
  | .completed x newts => some (completedConnection s x newts)
  | .mrServer fuel env cptr m newts lp => (mrServer fuel env s cptr m newts lp).map (·.1)
  | .msServer fuel env cptr sptr m acptr lp => (msServer fuel env s cptr sptr m acptr lp).map (·.1)
  | .exit fuel v => exitClient fuel s v

/-- What the callers guarantee: allocations are fresh, a new descriptor is free, a Connect block
names a host, the message table gives each handler the connections of its kind, and the source of a
message is behind the link it came over.
`list.c` `make_client`, `add_dlink`; `s_bsd.c` `add_connection`;
`parse.c` `parse_client`, `parse_server` -/
def Event.Allowed (s : Ircd) : Event → Prop
  | .accept x fd => s.cli x = none ∧ s.localClientArray fd = none
  | .connect x fd name => s.cli x = none ∧ s.localClientArray fd = none ∧
      IsCStr name ∧ name ≠ [] ∧ name.length ≤ hostLen
  | .completed _ _ => True
  | .mrServer _ _ cptr _ _ lp => (∀ y, s.updown y ≠ some lp) ∧
      ∃ c, s.cli cptr = some c ∧ (c.status = .unknown ∨ c.status = .unknownUser ∨
        c.status = .unknownServer ∨ c.status = .handshake)
  | .msServer _ _ cptr sptr _ acptr lp => s.cli acptr = none ∧ (∀ y, s.updown y ≠ some lp) ∧
      (∃ c, s.cli cptr = some c ∧ c.status = .server) ∧
      ∃ c, s.cli sptr = some c ∧ c.status = .server ∧ c.cli_from = cptr
  | .exit _ v => v ≠ s.me

/-- The condition on the SERVER messages of a run. -/
def Event.Ok (s : Ircd) : Event → Prop
  | .mrServer _ env cptr m _ _ => MrOk s.toTables env cptr m
  | .msServer _ _ _ _ m _ _ => MsOk s.toTables m
  | _ => True

/-- The states that the events reach from `s₀`, each one allowed and meeting `ok`. -/
inductive Run (ok : Ircd → Event → Prop) (s₀ : Ircd) : Ircd → Prop
  | start : Run ok s₀ s₀
  | step {s s' : Ircd} (e : Event) : Run ok s₀ s → e.Allowed s → ok s e →
      Nefarious.Network.step s e = some s' → Run ok s₀ s'

/-- The tables at start-up: this server alone, at address zero, under its name and numeric.
`ircd.c` `main`; `numnicks.c` `SetYXXServerName` -/
def bootNet (crc : ℕ → ℕ) (name : Str) (numeric : ℕ) : Net where
  me := 0
  crc32hash := crc
  cli := update (fun _ => none) 0
    (some ⟨.me, name, inttobase64 numeric 2, 0, none, [], false, some ⟨0, 0, 0, 0⟩, none⟩)
  clientTable := update (fun _ => []) (strhash crc name) [0]
  server_list := update (fun _ => none) numeric (some 0)
  client_list := update (fun _ => none) 0 (some (fun _ => none))
  localClientArray := fun _ => none
  list := [0]
  downs := fun _ => []

/-- The memory at start-up. `ircd.c` `main`. -/
def boot (crc : ℕ → ℕ) (name : Str) (numeric : ℕ) : Ircd where
  toTables := (bootNet crc name numeric).toTables
  lnk := fun _ => ⟨none, none⟩
  globalClientList := some 0
  dlnk := fun _ => ⟨none, none⟩
  dval := fun _ => 0
  down := fun _ => none
  updown := fun _ => none

lemma boot_holds (crc : ℕ → ℕ) (name : Str) (numeric : ℕ) :
    Holds (boot crc name numeric) (bootNet crc name numeric) :=
  ⟨rfl, ⟨⟨rfl, rfl, rfl⟩, List.nodup_singleton 0⟩, fun _ _ => rfl,
    fun _ => ⟨[], ⟨rfl, List.nodup_nil⟩, rfl, fun _ hn => absurd hn List.not_mem_nil⟩⟩

lemma boot_cli {crc : ℕ → ℕ} {name : Str} {numeric : ℕ} {x : ClientId} {c : Client}
    (h : (bootNet crc name numeric).cli x = some c) : x = 0 ∧ c =
      ⟨.me, name, inttobase64 numeric 2, 0, none, [], false, some ⟨0, 0, 0, 0⟩, none⟩ := by
  by_cases e : x = 0
  · subst e
    simp only [bootNet, update_self, Option.some.injEq] at h
    exact ⟨rfl, h.symm⟩
  · simp [bootNet, update_of_ne e] at h

lemma boot_wf (crc : ℕ → ℕ) (name : Str) {numeric : ℕ} (hnum : numeric < 4096) :
    (bootNet crc name numeric).WF := by
  have hme : (bootNet crc name numeric).cli 0 = some
      ⟨.me, name, inttobase64 numeric 2, 0, none, [], false, some ⟨0, 0, 0, 0⟩, none⟩ := by
    simp [bootNet]
  -- no record is a server's or a user's
  have hno : ∀ {q : Prop} {x c}, (bootNet crc name numeric).cli x = some c →
      c.status = .server ∨ c.status = .user → q := by
    intro q x c hc hs
    obtain ⟨_, rfl⟩ := boot_cli hc
    rcases hs with hs | hs <;> cases hs
  refine
    { me_iff := fun x c hc => ?_, list_last := ⟨[], rfl⟩, list_nodup := List.nodup_singleton 0,
      list_alive := fun x hx => ⟨_, (List.mem_singleton.mp hx) ▸ hme⟩,
      list_server := fun x c hc hs => hno hc (Or.inl hs), table_nodup := fun b => ?_,
      table_hash := fun b x hx => ?_, table_server := fun x c hc _ => ?_,
      server_list_yxx := fun i x hx => ?_, serv_server := fun x c hc _ => ?_,
      yxx_user := fun x c us hc _ hus => ?_, client_list_server := fun x => ?_,
      up_server := fun x c sv hc hs => hno hc (Or.inl hs),
      downs_iff := fun p x => ⟨fun h => absurd h List.not_mem_nil, ?_⟩,
      downs_nodup := fun p => List.nodup_nil,
      tree := ⟨fun _ => 0, fun x c sv hc hs => hno hc (Or.inl hs)⟩,
      slot_user := fun p cl i u hp hu => ?_, user_slot := fun u c hc hs => hno hc (Or.inr hs),
      local_fd := fun i x hx => (by cases hx), local_self := fun x c i y _ _ _ hy => (by cases hy) }
  · obtain ⟨rfl, rfl⟩ := boot_cli hc
    exact ⟨fun _ => rfl, fun _ => rfl⟩
  · by_cases e : b = strhash crc name
    · subst e
      simp [bootNet]
    · simp [bootNet, update_of_ne e]
  · by_cases e : b = strhash crc name
    · subst e
      simp only [bootNet, update_self, List.mem_singleton] at hx
      exact ⟨_, hx ▸ hme, rfl⟩
    · simp [bootNet, update_of_ne e] at hx
  · obtain ⟨rfl, rfl⟩ := boot_cli hc
    simp [bootNet]
  · by_cases e : i = numeric
    · subst e
      simp only [bootNet, update_self, Option.some.injEq] at hx
      exact ⟨_, hx ▸ hme, Or.inr rfl, base64toint_inttobase64 1 hnum (by omega)⟩
    · simp [bootNet, update_of_ne e] at hx
  · obtain ⟨_, rfl⟩ := boot_cli hc
    exact ⟨rfl, rfl⟩
  · obtain ⟨_, rfl⟩ := boot_cli hc
    cases hus
  · constructor
    · intro h
      by_cases e : x = 0
      · exact ⟨_, e ▸ hme, Or.inr rfl⟩
      · simp [bootNet, update_of_ne e] at h
    · rintro ⟨c, hc, _⟩
      obtain ⟨rfl, _⟩ := boot_cli hc
      simp [bootNet]
  · rintro ⟨c, sv, hc, hs, _⟩
    exact hno hc (Or.inl hs)
  · by_cases e : p = 0
    · subst e
      simp only [bootNet, update_self, Option.some.injEq] at hp
      subst hp
      cases hu
    · simp [bootNet, update_of_ne e] at hp

lemma boot_inv (crc : ℕ → ℕ) {name : Str} (hname : IsCStr name) {numeric : ℕ}
    (hnum : numeric < 4096) : (bootNet crc name numeric).Inv := by
  -- nor is it an outgoing connection's
  have hno : ∀ {q : Prop} {x c}, (bootNet crc name numeric).cli x = some c →
      c.status = .handshake ∨ c.status = .connecting ∨ c.status = .server ∨ ¬ IsServerOrMe c →
      q := by
    intro q x c hc hs
    obtain ⟨_, rfl⟩ := boot_cli hc
    rcases hs with hs | hs | hs | hs
    · cases hs
    · cases hs
    · cases hs
    · exact absurd (Or.inr rfl) hs
  have hs : (bootNet crc name numeric).Sound :=
    { toWF := boot_wf crc name hnum
      cstr := fun x c hc => by
        obtain ⟨_, rfl⟩ := boot_cli hc
        exact hname
      hashed := fun b x c _ hc => by
        obtain ⟨_, rfl⟩ := boot_cli hc
        exact .inl (Or.inr rfl)
      pending_hashed := fun x c hc hs => hno hc (by tauto)
      pending_up := fun x c hc hs => hno hc (by tauto)
      nouser := fun x c hc => by
        obtain ⟨_, rfl⟩ := boot_cli hc
        exact ⟨rfl, by simp⟩
      slots := fun x c hc _ => by
        obtain ⟨rfl, rfl⟩ := boot_cli hc
        rw [base64toint_inttobase64 1 hnum (by omega)]
        simp [bootNet]
      from_up := fun x c sv hc hs => hno hc (by tauto)
      self_from := fun x c hc hs => hno hc (by tauto)
      listed := fun x c hc => by
        obtain ⟨rfl, _⟩ := boot_cli hc
        exact List.mem_singleton.mpr rfl
      fd_array := fun x c i hc _ hfd => by
        obtain ⟨_, rfl⟩ := boot_cli hc
        cases hfd }
  refine { toSound := hs, names := fun b x b' y c d _ _ hc hd _ => ?_,
           unnamed := fun x c hc hs => hno hc (by tauto) }
  exact (boot_cli hc).1.trans (boot_cli hd).1.symm

lemma step_inv {s s' : Ircd} {N : Net} (h : Holds s N) (hi : N.Inv) {e : Event}
    (ha : e.Allowed s) (hok : e.Ok s) (he : step s e = some s') : ∃ N', Holds s' N' ∧ N'.Inv := by
  obtain ⟨hme, _, hcli, _, _, _, hloc⟩ := Tables.ext_iff.mp h.tables
  cases e with
  | accept x fd =>
    obtain ⟨hx, hfd⟩ := ha
    obtain rfl := some.inj he
    exact acceptLink_inv h hi (hcli ▸ hx) (hloc ▸ hfd)
  | connect x fd name =>
    obtain ⟨hx, hfd, hcs, hne, hlen⟩ := ha
    obtain rfl := some.inj he
    exact connectServer_inv h hi (hcli ▸ hx) (hloc ▸ hfd) hcs hne hlen
  | completed x newts =>
    obtain rfl := some.inj he
    exact completedConnection_inv h hi
  | mrServer fuel env cptr m newts lp =>
    obtain ⟨hlp, c, hc, hst⟩ := ha
    obtain ⟨⟨s₁, b⟩, hs₁, rfl⟩ := map_eq_some_iff.mp he
    rw [hcli] at hc
    refine mrServer_inv h hi ?_ (h.tables ▸ hok) hlp hs₁
    intro e
    rw [(hi.me_iff cptr c hc).mpr e] at hst
    simp at hst
  | msServer fuel env cptr sptr m acptr lp =>
    obtain ⟨hac, hlp, ⟨cc, hcc, hcst⟩, sc, hsc, hsst, hfrom⟩ := ha
    obtain ⟨⟨s₁, b⟩, hs₁, rfl⟩ := map_eq_some_iff.mp he
    rw [hcli] at hac hcc hsc
    exact msServer_inv h hi hcc hcst hsc hsst hfrom hac (h.tables ▸ hok) hlp hs₁
  | exit fuel v => exact exitClient_inv h hi (hme ▸ ha) he

/-- **The server tree and the numerics are consistent in every state of a run** whose SERVER messages meet the
condition. -/
theorem linked_of_run (crc : ℕ → ℕ) (name : Str) (hname : IsCStr name) (numeric : ℕ) (hnum : numeric < 4096)
    (s : Ircd) (h : Run Event.Ok (boot crc name numeric) s) : Linked s := by
  have hinv : ∃ N, Holds s N ∧ N.Inv := by
    induction h with
    | start => exact ⟨_, boot_holds crc name numeric, boot_inv crc hname hnum⟩
    | step e _ ha hok he ih =>
      obtain ⟨N, hN, hi⟩ := ih
      exact step_inv hN hi ha hok he
  obtain ⟨N, hN, hi⟩ := hinv
  exact hi.toGood.linked hN

namespace Example

/-- The configuration of a hub that refuses nothing. -/
def env : ServerEnv where
  hub := true
  highestFd := 8
  maximum := 9
  hub_limit := none
  uworld := fun _ => false
  now := 800000000
  refuse := false
  refuseConf := false

/-- SERVER with the numeric `AB`. -/
def serverMsg (name : Str) : ServerMsg where
  parc := 9
  name := name
  hop := 1
  start_timestamp := 790000000
  timestamp := 800000000
  prot := 10
  junction := true
  numnick := "ABAAC".toList
  info := "a server".toList

def alone : Ircd := boot crc32 "hub.net".toList 0

def accepted : Ircd := acceptLink alone 1 5

/-- `a.net` links on it. -/
def linkA : Event := .mrServer 4 env 1 (serverMsg "a.net".toList) 800000000 0

/-- `a.net` has linked. -/
def linkedA : Ircd := (step accepted linkA).getD alone

lemma step_linkA : step accepted linkA = some linkedA :=
  (Option.getD_of_ne_none (Option.isSome_iff_ne_none.mp (by decide +kernel)) alone).symm

lemma linkA_allowed : linkA.Allowed accepted :=
  ⟨fun _ e => (by cases e), _, rfl, Or.inr (Or.inr (Or.inl rfl))⟩

end Example

theorem linked_of_run_link : Linked Example.linkedA ∧ Example.linkedA.server_list 1 = some 1 := by
  have hok : Example.linkA.Ok Example.accepted := by
    intro c host hc _ _
    obtain rfl := some.inj hc
    refine ⟨fun e => (by cases e), Or.inl (fun y d hy => ?_)⟩
    have hfree : Example.accepted.server_list (base64toint (serverYXX "ABAAC".toList)) = none := by
      decide +kernel
    rw [show (Example.serverMsg "a.net".toList).numnick = "ABAAC".toList from rfl, hfree] at hy
    cases hy
  refine ⟨?_, by decide +kernel⟩
  refine linked_of_run crc32 "hub.net".toList (by decide) 0 (by decide) _ ?_
  exact Run.step Example.linkA (Run.step (.accept 1 5) Run.start ⟨rfl, rfl⟩ trivial rfl)
    Example.linkA_allowed hok Example.step_linkA

namespace Example

/-- An outgoing connection to `b.net` is in its handshake. -/
def handshakeB : Ircd := completedConnection (connectServer linkedA 2 6 "b.net".toList) 2 800000000

/-- `b.net` answers with the numeric of `a.net`. -/
def linkB : Event := .mrServer 4 env 2 (serverMsg "b.net".toList) 800000000 1

/-- `b.net` has linked. -/
def linkedB : Ircd := (step handshakeB linkB).getD alone

lemma step_linkB : step handshakeB linkB = some linkedB :=
  (Option.getD_of_ne_none (Option.isSome_iff_ne_none.mp (by decide +kernel)) alone).symm

end Example

/-- **An accepted SERVER message takes a numeric away**: `b.net` links under the numeric of `a.net`, which is
still linked, because the loop stops at the handshake that has the name. -/
theorem numeric_taken_over : ∃ s, Run (fun _ _ => True) Example.alone s ∧ ¬ Linked s := by
  have hA : Run (fun _ _ => True) Example.alone Example.linkedA :=
    Run.step Example.linkA (Run.step (.accept 1 5) Run.start ⟨rfl, rfl⟩ trivial rfl)
      Example.linkA_allowed trivial Example.step_linkA
  have hconn : (Event.connect 2 6 "b.net".toList).Allowed Example.linkedA := by
    exact ⟨by decide +kernel, by decide +kernel, by decide, by decide, by decide⟩
  have hB : Run (fun _ _ => True) Example.alone Example.handshakeB :=
    Run.step (.completed 2 800000000) (Run.step _ hA hconn trivial rfl) trivial trivial rfl
  have hup : Example.handshakeB.updown = update (fun _ => none) 1 (some 0) := rfl
  refine ⟨Example.linkedB, Run.step Example.linkB hB ⟨fun y e => ?_, ?_⟩ trivial
    Example.step_linkB, fun h => ?_⟩
  · rw [hup] at e
    by_cases hy : y = 1
    · rw [hy, update_self] at e
      cases e
    · rw [update_of_ne hy] at e
      cases e
  · have hst : (Example.handshakeB.cli 2).map (·.status) = some .handshake := by
      decide +kernel
    obtain ⟨c, hc, hcs⟩ := map_eq_some_iff.mp hst
    exact ⟨c, hc, Or.inr (Or.inr (Or.inr hcs))⟩
  · -- both servers have the numeric
    have hnum : ∀ x, x = 1 ∨ x = 2 → (Example.linkedB.cli x).map (fun c => (c.status, c.yxx)) =
        some (.server, "AB".toList) := by
      rintro x (rfl | rfl) <;> decide +kernel
    obtain ⟨c, hc, hcs⟩ := map_eq_some_iff.mp (hnum 1 (Or.inl rfl))
    obtain ⟨d, hd, hds⟩ := map_eq_some_iff.mp (hnum 2 (Or.inr rfl))
    obtain ⟨hcs, hcy⟩ := Prod.mk.inj hcs
    obtain ⟨hds, hdy⟩ := Prod.mk.inj hds
    have := h.numeric_unique 1 2 c d hc hd (Or.inl hcs) (Or.inl hds) (hcy.trans hdy.symm)
    cases this

end Nefarious.Network
