import Nefarious.Network.Server

/-!
# The server tree along a run

`Linked` is the property of the server tree: no two servers share a name or a numeric, each server
holds the numeric slot of its own numeric, the uplinks lead to this server without a cycle, and each
server is on its uplink's downlink list and on no other.
-/

namespace Nefarious.Network

open Option (bind_eq_bind bind_eq_some_iff some.inj)

open Nefarious.Lib Nefarious.Lib.Dll

/-- The uplink of a client. `struct.h` `struct Server`. -/
def uplink (s : Ircd) (x : ClientId) : ClientId :=
  match (s.cli x).bind (·.serv) with
  | some sv => sv.up
  | none => x

/-- The server tree and the uniqueness of names and numerics. -/
structure Linked (s : Ircd) : Prop where
  name_unique : ∀ x y c d, s.cli x = some c → s.cli y = some d → IsServerOrMe c → IsServerOrMe d →
    strEq c.name d.name = true → x = y
  numeric_unique : ∀ x y c d, s.cli x = some c → s.cli y = some d → IsServerOrMe c →
    IsServerOrMe d → c.yxx = d.yxx → x = y
  slot : ∀ x c, s.cli x = some c → IsServerOrMe c → s.server_list (base64toint c.yxx) = some x
  tree : ∀ x c, s.cli x = some c → c.status = .server → ∃ n, (uplink s)^[n] x = s.me
  downs : ∃ downs : ClientId → List ClientId, (∀ p, Downlinks s p (downs p)) ∧
    (∀ p, (downs p).Nodup) ∧ ∀ p x, x ∈ downs p ↔ ∃ c sv, s.cli x = some c ∧
      c.status = .server ∧ c.serv = some sv ∧ sv.up = p

/-! ## The invariant -/

/-- A network without users in which the name table and the numeric slots are consistent. -/
structure Net.Sound (N : Net) : Prop extends Net.WF N where
  cstr : ∀ x c, N.cli x = some c → IsCStr c.name
  hashed : ∀ b x c, x ∈ N.clientTable b → N.cli x = some c →
    IsServerOrMe c ∨ c.status = .handshake ∨ c.status = .connecting
  pending_hashed : ∀ x c, N.cli x = some c → c.status = .handshake ∨ c.status = .connecting →
    x ∈ N.clientTable (strhash N.crc32hash c.name)
  pending_up : ∀ x c, N.cli x = some c → c.status = .handshake ∨ c.status = .connecting →
    ∃ sv, c.serv = some sv ∧ sv.up = N.me
  nouser : ∀ x c, N.cli x = some c → c.user = none ∧ c.status ≠ .user
  slots : ∀ x c, N.cli x = some c → IsServerOrMe c → N.server_list (base64toint c.yxx) = some x
  from_up : ∀ x c sv, N.cli x = some c → c.status = .server → c.serv = some sv →
    (sv.up = N.me ∧ c.cli_from = x) ∨ ∃ d, N.cli sv.up = some d ∧ d.status = .server ∧ d.cli_from = c.cli_from
  self_from : ∀ x c, N.cli x = some c → ¬ IsServerOrMe c → c.cli_from = x
  listed : ∀ x c, N.cli x = some c → x ∈ N.list
  fd_array : ∀ x c i, N.cli x = some c → c.cli_from = x → c.fd = some i → N.localClientArray i = some x

/-- A sound network in which no two clients of the name table have the same name. -/
structure Net.Good (N : Net) : Prop extends Net.Sound N where
  names : ∀ b x b' y c d, x ∈ N.clientTable b → y ∈ N.clientTable b' → N.cli x = some c →
    N.cli y = some d → strEq c.name d.name = true → x = y

/-- What a later network keeps of an earlier one when clients are only removed. -/
structure Net.Sub (N N' : Net) : Prop where
  me : N'.me = N.me
  crc : N'.crc32hash = N.crc32hash
  cli : ∀ x c, N'.cli x = some c → N.cli x = some c
  server_list : ∀ i x, N'.server_list i = some x → N.server_list i = some x
  table : ∀ b x, x ∈ N'.clientTable b → x ∈ N.clientTable b

namespace Net

variable {N N' N'' : Net} {R : Set ClientId}

lemma Sub.refl (N : Net) : N.Sub N := ⟨rfl, rfl, fun _ _ h => h, fun _ _ h => h, fun _ _ h => h⟩

lemma Sub.trans (h : N.Sub N') (h' : N'.Sub N'') : N.Sub N'' :=
  ⟨h'.me.trans h.me, h'.crc.trans h.crc, fun x c hx => h.cli x c (h'.cli x c hx),
    fun i x hx => h.server_list i x (h'.server_list i x hx),
    fun b x hx => h.table b x (h'.table b x hx)⟩

lemma sub_drop (N : Net) (R : Set ClientId) : N.Sub (N.drop R) :=
  ⟨rfl, rfl, fun _ _ h => (drop_cli_eq_some.mp h).1, fun _ _ h => (keepO_eq_some.mp h).1,
    fun _ _ h => (mem_keepL.mp h).1⟩

lemma Sound.drop (h : N.Sound) (hR : N.Closed R) (hme : N.me ∉ R) : (N.drop R).Sound where
  toWF := h.toWF.drop hR hme
  cstr x c hc := h.cstr x c (drop_cli_eq_some.mp hc).1
  hashed b x c hx hc := h.hashed b x c (mem_keepL.mp hx).1 (drop_cli_eq_some.mp hc).1
  pending_hashed x c hc hs := by
    obtain ⟨hc, hxR⟩ := drop_cli_eq_some.mp hc
    exact mem_keepL.mpr ⟨h.pending_hashed x c hc hs, hxR⟩
  pending_up x c hc := h.pending_up x c (drop_cli_eq_some.mp hc).1
  nouser x c hc := h.nouser x c (drop_cli_eq_some.mp hc).1
  slots x c hc hs := by
    obtain ⟨hc, hxR⟩ := drop_cli_eq_some.mp hc
    exact keepO_eq_some.mpr ⟨h.slots x c hc hs, hxR⟩
  from_up x c sv hc hs hsv := by
    obtain ⟨hc, hxR⟩ := drop_cli_eq_some.mp hc
    rcases h.from_up x c sv hc hs hsv with hme | ⟨d, hd, hds, hdf⟩
    · exact .inl hme
    · have hup : sv.up ∉ R := fun e => hxR (hR.server x c sv hc hs hsv e)
      exact .inr ⟨d, drop_cli_eq_some.mpr ⟨hd, hup⟩, hds, hdf⟩
  self_from x c hc := h.self_from x c (drop_cli_eq_some.mp hc).1
  listed x c hc := by
    obtain ⟨hc, hxR⟩ := drop_cli_eq_some.mp hc
    exact mem_keepL.mpr ⟨h.listed x c hc, hxR⟩
  fd_array x c i hc hfrom hfd := by
    obtain ⟨hc, hxR⟩ := drop_cli_eq_some.mp hc
    exact keepO_eq_some.mpr ⟨h.fd_array x c i hc hfrom hfd, hxR⟩

lemma Good.drop (h : N.Good) (hR : N.Closed R) (hme : N.me ∉ R) : (N.drop R).Good where
  toSound := h.toSound.drop hR hme
  names b x b' y c d hx hy hc hd := h.names b x b' y c d (mem_keepL.mp hx).1 (mem_keepL.mp hy).1
    (drop_cli_eq_some.mp hc).1 (drop_cli_eq_some.mp hd).1

lemma Good.retable (h : N.Good) {t : ℕ → List ClientId}
    (ht : ∀ b, (t b).Perm (N.clientTable b)) : ({ N with clientTable := t } : Net).Good where
  toSound :=
    { toWF := { h.toWF with
        table_nodup := fun b => (ht b).nodup_iff.mpr (h.table_nodup b)
        table_hash := fun b x hx => h.table_hash b x ((ht b).mem_iff.mp hx)
        table_server := fun x c hc hs => (ht _).mem_iff.mpr (h.table_server x c hc hs) }
      cstr := h.cstr
      hashed := fun b x c hx => h.hashed b x c ((ht b).mem_iff.mp hx)
      pending_hashed := fun x c hc hs => (ht _).mem_iff.mpr (h.pending_hashed x c hc hs)
      pending_up := h.pending_up
      nouser := h.nouser
      slots := h.slots
      from_up := h.from_up
      self_from := h.self_from
      listed := h.listed
      fd_array := h.fd_array }
  names b x b' y c d hx hy := h.names b x b' y c d ((ht b).mem_iff.mp hx) ((ht b').mem_iff.mp hy)

lemma sub_retable {t : ℕ → List ClientId} (ht : ∀ b, (t b).Perm (N.clientTable b)) :
    N.Sub { N with clientTable := t } :=
  ⟨rfl, rfl, fun _ _ h => h, fun _ _ h => h, fun b _ h => (ht b).mem_iff.mp h⟩

lemma Good.from_server (h : N.Good) {x : ClientId} {c : Client} (hc : N.cli x = some c)
    (hs : c.status = .server) : ∃ d, N.cli c.cli_from = some d ∧ d.status = .server := by
  obtain ⟨depth, hd⟩ := h.tree
  induction hn : depth x using Nat.strong_induction_on generalizing x c with
  | _ n ih =>
    obtain ⟨sv, hsv⟩ := Option.isSome_iff_exists.mp (h.serv_server x c hc (Or.inl hs)).1
    rcases h.from_up x c sv hc hs hsv with ⟨_, hself⟩ | ⟨d, hdc, hds, hdf⟩
    · exact ⟨c, hself ▸ hc, hs⟩
    · rw [← hdf]
      exact ih (depth sv.up) (hn ▸ hd x c sv hc hs hsv) hdc hds rfl

lemma Good.linked (h : N.Good) {s : Ircd} (hs : Holds s N) : Linked s := by
  obtain ⟨hme, _, hcli, _, hsl, _, _⟩ := Tables.ext_iff.mp hs.tables
  refine ⟨?_, ?_, ?_, ?_, N.downs, hs.downs, h.downs_nodup, ?_⟩
  · intro x y c d hx hy hc hd
    rw [hcli] at hx hy
    exact h.names _ x _ y c d (h.table_server x c hx hc) (h.table_server y d hy hd) hx hy
  · intro x y c d hx hy hc hd hyxx
    rw [hcli] at hx hy
    have hx' := h.slots x c hx hc
    rw [hyxx, h.slots y d hy hd] at hx'
    exact (some.inj hx').symm
  · intro x c hx hc
    rw [hcli] at hx
    rw [hsl]
    exact h.slots x c hx hc
  · intro x c hx hst
    rw [hcli] at hx
    obtain ⟨depth, hd⟩ := h.tree
    induction hn : depth x using Nat.strong_induction_on generalizing x c with
    | _ n ih =>
      obtain ⟨sv, hsv⟩ := Option.isSome_iff_exists.mp (h.serv_server x c hx (Or.inl hst)).1
      have hup : uplink s x = sv.up := by
        simp [uplink, hcli, hx, hsv]
      obtain ⟨p, hp, hps⟩ := h.up_server x c sv hx hst hsv
      rcases hps with hps | hps
      · obtain ⟨k, hk⟩ := ih (depth sv.up) (hn ▸ hd x c sv hx hst hsv) sv.up p hp hps rfl
        exact ⟨k + 1, by rw [Function.iterate_succ_apply, hup, hk]⟩
      · refine ⟨1, ?_⟩
        rw [Function.iterate_one, hup, hme]
        exact (h.me_iff _ _ hp).mp hps
  · intro p x
    rw [hcli]
    exact h.downs_iff p x

end Net

/-! ## The steps of `check_loop_and_lh` -/

section Check

variable {s s' : Ircd} {N : Net}

/-- No client but `cptr`, as a handshake, has the name. -/
def Net.OnlySelf (N : Net) (cptr : ClientId) (host : Str) : Prop :=
  ∀ b x c, x ∈ N.clientTable b → N.cli x = some c → strEq c.name host = true → x = cptr ∧ c.status = .handshake

lemma findClient_spec (h : Holds s N) (hg : N.Good) {name : Str} (hne : name ≠ []) (hcs : IsCStr name) :
    ∃ t, Holds (findClient s name).1 { N with clientTable := t } ∧
      (∀ b, (t b).Perm (N.clientTable b)) ∧ (findClient s name).1.updown = s.updown ∧
      ((findClient s name).2 = none →
        ∀ b x c, x ∈ N.clientTable b → N.cli x = some c → strEq c.name name = false) ∧
      ∀ x, (findClient s name).2 = some x → ∃ b, x ∈ N.clientTable b := by
  obtain ⟨_, hcrc, hcli, htab, _⟩ := Tables.ext_iff.mp h.tables
  cases hf : hFind s name with
  | none =>
    simp only [findClient, if_neg hne, hSeekClient, hf]
    refine ⟨N.clientTable, h, fun b => List.Perm.refl _, trivial, ?_, fun x hx => (by cases hx)⟩
    intro _ b x c hx hc
    by_contra hcon
    have heq : strEq c.name name = true := by simpa using hcon
    have hfold := (strEq_iff (hg.cstr x c hc) hcs).mp heq
    obtain ⟨c', hc', hb⟩ := hg.table_hash b x hx
    obtain rfl : c = c' := some.inj (hc.symm.trans hc')
    rw [strhash_congr N.crc32hash hfold] at hb
    unfold hFind at hf
    rw [htab, hcrc] at hf
    have := List.find?_eq_none.mp hf x (hb ▸ hx)
    rw [hcli, hc] at this
    simp only at this
    rw [strEq_comm] at this
    exact this heq
  | some x =>
    simp only [findClient, if_neg hne, hSeekClient, hf]
    have hx : x ∈ N.clientTable (strhash N.crc32hash name) := by
      have := List.mem_of_find?_eq_some hf
      rwa [htab, hcrc] at this
    refine ⟨Function.update N.clientTable (strhash N.crc32hash name)
      (x :: (N.clientTable (strhash N.crc32hash name)).erase x), ?_, ?_, trivial,
      fun e => (by cases e), fun y hy => ⟨_, (some.inj hy) ▸ hx⟩⟩
    · refine ⟨?_, h.list, h.unlisted, h.downs⟩
      have ht := Tables.ext_iff.mp h.tables
      refine Tables.ext_iff.mpr ⟨ht.1, ht.2.1, ht.2.2.1, ?_, ht.2.2.2.2⟩
      simp only [htab, hcrc]
    · intro b
      by_cases hb : b = strhash N.crc32hash name
      · subst hb
        rw [Function.update_self]
        exact (List.perm_cons_erase hx).symm
      · rw [Function.update_of_ne hb]

variable {fuel ts : ℕ} {Q : ClientId → Prop} {acptr cptr sptr : ClientId} {host numnick : Str} {ac : Client}
  {lhcptr : Option ClientId} {lh : LhType} {env : ServerEnv} {ghost : Bool}

lemma exitClient_good (h : Holds s N) (hg : N.Good) {v : ClientId} (hv : v ≠ N.me)
    (he : exitClient fuel s v = some s') : ∃ N', Holds s' N' ∧ N'.Good ∧ N.Sub N' ∧ N'.cli v = none ∧ ∀ x,
    s'.updown x = s.updown x ∨ s'.updown x = none := by
  obtain ⟨R, hvR, hR, hme, hd⟩ := exitClient_drop h hg.toWF hv he
  refine ⟨N.drop R, hd.holds, hg.drop hR hme, N.sub_drop R, ?_, hd.cleared⟩
  simp [Net.drop, hvR]

lemma upPath_ne_me : (fuel : ℕ) → ∀ {x : ClientId} {path : List ClientId},
    upPath fuel s x = some path → ∀ y ∈ path, y ≠ s.me
  | 0, _, _, h => by simp [upPath] at h
  | fuel + 1, x, path, h => by
    simp only [upPath] at h
    split at h
    · cases h
      simp
    · next hx =>
        simp only [bind_eq_bind, bind_eq_some_iff] at h
        obtain ⟨_, _, sv, _, rest, hrest, hp⟩ := h
        cases hp
        intro y hy
        rcases List.mem_cons.mp hy with rfl | hy
        · exact hx
        · exact upPath_ne_me fuel hrest y hy

lemma youngest_prop (path : List ClientId) (hp : ∀ x ∈ path, Q x)
    (c3 : ClientId) (h3 : Q c3) : Q (youngest s path c3) := by
  induction path generalizing c3 with
  | nil => exact h3
  | cons x xs ih =>
    refine ih (fun y hy => hp y (List.mem_cons_of_mem _ hy)) _ ?_
    dsimp only
    split
    · exact hp x List.mem_cons_self
    · exact h3

lemma secondYoungest_prop (ts : ℕ) (path : List ClientId) (hp : ∀ x ∈ path, Q x) (c3 c2 : Option ClientId)
    (h2 : ∀ c, c2 = some c → Q c) : ∀ c, secondYoungest s ts path c3 c2 = some c → Q c := by
  induction path generalizing c2 with
  | nil => exact h2
  | cons x xs ih =>
    refine ih (fun y hy => hp y (List.mem_cons_of_mem _ hy)) _ ?_
    intro c hc
    dsimp only at hc
    split at hc
    · exact some.inj hc ▸ hp x List.mem_cons_self
    · exact h2 c hc

lemma linkToBreak_prop {pa ps : List ClientId} {sname : Str} (ha : Q acptr) (hpa : ∀ x ∈ pa, Q x)
    (hps : ∀ x ∈ ps, Q x) : ∀ c, linkToBreak s acptr pa ps host sname ts = some c → Q c := by
  have hite : ∀ (p : Prop) [Decidable p] (a b : Option ClientId), (∀ c, a = some c → Q c) →
      (∀ c, b = some c → Q c) → ∀ c, (if p then a else b) = some c → Q c := by
    intro p _ a b h1 h2
    split
    · exact h1
    · exact h2
  have h3 : Q (youngest s ps (youngest s pa acptr)) := youngest_prop ps hps _ (youngest_prop pa hpa _ ha)
  have hnone : ∀ c, (none : Option ClientId) = some c → Q c := fun c hc => by cases hc
  have hsome : ∀ x, Q x → ∀ c, some x = some c → Q c := fun x hx c hc => some.inj hc ▸ hx
  unfold linkToBreak
  refine hite _ _ _ (hite _ _ _ hnone (hsome _ h3)) (hite _ _ _ hnone ?_)
  exact secondYoungest_prop ts ps hps _ _ (secondYoungest_prop ts pa hpa _ _
    (hite _ _ _ (hsome _ ha) hnone))

lemma upPath_status (h : Holds s N) (hg : N.Good) : (fuel : ℕ) → ∀ {x : ClientId} {c : Client}
    {path : List ClientId}, N.cli x = some c → IsServerOrMe c ∨ c.status = .handshake →
    upPath fuel s x = some path → ∀ y ∈ path, y = x ∨ ∃ d, N.cli y = some d ∧ d.status = .server
  | 0, _, _, _, _, _, hp => by simp [upPath] at hp
  | fuel + 1, x, c, path, hc, hst, hp => by
    obtain ⟨hme, _, hcli, _⟩ := Tables.ext_iff.mp h.tables
    simp only [upPath] at hp
    split at hp
    · cases hp
      simp
    · next hx =>
        rw [hcli, hc] at hp
        simp only [bind_eq_bind, Option.bind_some, bind_eq_some_iff] at hp
        obtain ⟨sv, hsv, rest, hrest, hp⟩ := hp
        intro y hy
        rw [← some.inj hp] at hy
        rcases List.mem_cons.mp hy with rfl | hy
        · exact .inl rfl
        · refine .inr ?_
          rcases hst with hst | hst
          · have hsrv : c.status = .server := by
              rcases hst with e | e
              · exact e
              · exact absurd ((hg.me_iff x c hc).mp e) (hme ▸ hx)
            obtain ⟨d, hd, hds⟩ := hg.up_server x c sv hc hsrv hsv
            rcases upPath_status h hg fuel hd (Or.inl hds) hrest y hy with rfl | e
            · refine ⟨d, hd, ?_⟩
              rcases hds with e | e
              · exact e
              · exact absurd ((hg.me_iff _ d hd).mp e) (hme ▸ upPath_ne_me fuel hrest _ hy)
            · exact e
          · obtain ⟨sv', hsv', hup⟩ := hg.pending_up x c hc (Or.inl hst)
            obtain rfl : sv = sv' := some.inj (hsv.symm.trans hsv')
            cases fuel with
            | zero => simp [upPath] at hrest
            | succ n =>
              rw [hup, ← hme] at hrest
              simp only [upPath, if_true] at hrest
              rw [← some.inj hrest] at hy
              exact absurd hy List.not_mem_nil

lemma Net.Good.onlySelf_of_removed {N' : Net} (hg : N.Good) (hsub : N.Sub N') {b : ℕ} (hcs : IsCStr host)
    (hab : acptr ∈ N.clientTable b) (hac : N.cli acptr = some ac) (hn : strEq ac.name host = true)
    (hgone : N'.cli acptr = none) : N'.OnlySelf cptr host := by
  intro b' x c hx hc hxn
  have hc₀ := hsub.cli x c hc
  have : x = acptr := hg.names b' x b acptr c ac (hsub.table b' x hx) hab hc₀ hac
    (strEq_trans (hg.cstr x c hc₀) hcs (hg.cstr acptr ac hac) hxn (strEq_comm _ _ ▸ hn))
  subst this
  rw [hc] at hgone
  cases hgone

/-- The loop can be left before the numeric is looked at: a client has the name, and it is an
outgoing connection, or the new server is announced by a connection that is not a server yet.
`m_server.c` `check_loop_and_lh` -/
def Net.LeavesEarly (N : Net) (sptr : ClientId) (host : Str) : Prop :=
  ∃ b x c, x ∈ N.clientTable b ∧ N.cli x = some c ∧ strEq c.name host = true ∧
    (c.status = .connecting ∨ ∃ sc, N.cli sptr = some sc ∧ sc.status ≠ .server)

lemma Net.LeavesEarly.of_sub {N' : Net} (hsub : N.Sub N')
    (h : N'.LeavesEarly sptr host) : N.LeavesEarly sptr host := by
  obtain ⟨b, x, c, hx, hc, hn, hs⟩ := h
  refine ⟨b, x, c, hsub.table b x hx, hsub.cli x c hc, hn, ?_⟩
  rcases hs with hs | ⟨sc, hsc, hs⟩
  · exact .inl hs
  · exact .inr ⟨sc, hsub.cli sptr sc hsc, hs⟩

/-- What the loop leaves: the invariant with clients only removed; when it falls through with no
limit active, nobody but the link's own handshake has the name; when it returns for a connection
that is not a server yet, the connection is gone.
`m_server.c` `check_loop_and_lh` -/
structure LoopSpec (s : Ircd) (N : Net) (cptr sptr : ClientId) (host numnick : Str)
    (lhcptr : Option ClientId) (s' : Ircd) (r : LoopEnd) (N' : Net) : Prop where
  holds : Holds s' N'
  good : N'.Good
  sub : N.Sub N'
  cleared : ∀ x, s'.updown x = s.updown x ∨ s'.updown x = none
  onlySelf : ∀ l g, r = .done .allowed l g → N'.OnlySelf cptr host
  numeric : ∀ l g, r = .done .allowed l g → N'.server_list (serverSlot numnick) = none ∨ N.LeavesEarly sptr host
  gone : ∀ r', r = .ret r' → sptr = cptr → (∀ c, N.cli cptr = some c → c.status ≠ .server) → N'.cli cptr = none
  lhcptr : ∀ lh l g, r = .done lh l g → l = lhcptr ∨ l = none

lemma LoopSpec.of_exit {s₁ s₂ : Ircd} {N₁ N₂ : Net} {r : LoopEnd} (hsub₁ : N.Sub N₁) (hup₁ : s₁.updown = s.updown)
    (h₂ : Holds s₂ N₂) (hg₂ : N₂.Good) (hsub₂ : N₁.Sub N₂)
    (hcl : ∀ x, s₂.updown x = s₁.updown x ∨ s₂.updown x = none)
    (hon : ∀ l g, r = .done .allowed l g → N₂.OnlySelf cptr host)
    (hnum : ∀ l g, r = .done .allowed l g →
      N₂.server_list (serverSlot numnick) = none ∨ N₁.LeavesEarly sptr host)
    (hgone : ∀ r', r = .ret r' → sptr = cptr → (∀ c, N₁.cli cptr = some c → c.status ≠ .server) →
      N₂.cli cptr = none)
    (hlh : ∀ lh l g, r = .done lh l g → l = lhcptr ∨ l = none) :
    LoopSpec s N cptr sptr host numnick lhcptr s₂ r N₂ where
  holds := h₂
  good := hg₂
  sub := hsub₁.trans hsub₂
  cleared := by rwa [← hup₁]
  onlySelf := hon
  numeric l g hr := (hnum l g hr).imp id (Net.LeavesEarly.of_sub hsub₁)
  gone r' hr hsp hst := hgone r' hr hsp (fun c hc => hst c (hsub₁.cli cptr c hc))
  lhcptr := hlh

lemma LoopSpec.of_ret {s₁ : Ircd} {N₁ : Net} {r : Bool} (h₁ : Holds s₁ N₁) (hg₁ : N₁.Good)
    (hsub₁ : N.Sub N₁) (hcl : ∀ x, s₁.updown x = s.updown x ∨ s₁.updown x = none)
    (hgone : sptr = cptr → (∀ c, N.cli cptr = some c → c.status ≠ .server) → N₁.cli cptr = none) :
    LoopSpec s N cptr sptr host numnick lhcptr s₁ (.ret r) N₁ :=
  ⟨h₁, hg₁, hsub₁, hcl, fun _ _ e => (by cases e), fun _ _ e => (by cases e), fun _ _ => hgone,
    fun _ _ _ e => (by cases e)⟩

lemma LoopSpec.of_stop {l : Option ClientId} {g : ℕ} (h : Holds s N) (hg : N.Good) (hlh : lh ≠ .allowed)
    (hl : l = lhcptr ∨ l = none) : LoopSpec s N cptr sptr host numnick lhcptr s (.done lh l g) N := by
  refine ⟨h, hg, Net.Sub.refl N, fun _ => Or.inl rfl, fun l' g' e => ?_, fun l' g' e => ?_,
    fun r' e => (by cases e), fun lh' l' g' e => ?_⟩
  · cases e
    exact absurd rfl hlh
  · cases e
    exact absurd rfl hlh
  · cases e
    exact hl

lemma lhKillsToo_allowed {v : ClientId} {a b : Bool}
    (h : lhKillsToo fuel s lh lhcptr v = some (a, b)) (ha : a = true) : lh ≠ .allowed := by
  intro e
  unfold lhKillsToo at h
  subst ha
  cases lhcptr with
  | none => simp at h
  | some l => simp [e] at h

lemma breakLink_spec {c2ptr : ClientId} {sc : Client} {e : Option LoopEnd}
    (h : Holds s N) (hg : N.Good) (hame : acptr ≠ N.me) (hc2me : c2ptr ≠ N.me) (hsc : N.cli sptr = some sc)
    (hearly : sc.status ≠ .server → N.LeavesEarly sptr host)
    (hremoved : ∀ N', N.Sub N' → N'.cli acptr = none → N'.OnlySelf cptr host)
    (hdirect : sptr = cptr → sc.status ≠ .server → ∀ c2, N.cli c2ptr = some c2 → c2.cli_from ≠ cptr)
    (hb : breakLink env fuel s cptr ghost lh lhcptr acptr ac sc c2ptr = some (s', e)) : ∃ N', Holds s' N' ∧
    N'.Good ∧ N.Sub N' ∧ (∀ x, s'.updown x = s.updown x ∨ s'.updown x = none) ∧ ∀ r, e = some r →
    LoopSpec s N cptr sptr host numnick lhcptr s' r N' := by
  have hcli : s.cli = N.cli := congrArg Tables.cli h.tables
  unfold breakLink at hb
  obtain ⟨c2, hc2, hb⟩ := bind_eq_some_iff.mp hb
  rw [hcli] at hc2
  have hstop : ∀ l, lh ≠ .allowed → (l = lhcptr ∨ l = none) →
      some (s, some (LoopEnd.done lh l 0)) = some (s', e) →
      ∃ N', Holds s' N' ∧ N'.Good ∧ N.Sub N' ∧ (∀ x, s'.updown x = s.updown x ∨ s'.updown x = none) ∧
        ∀ r, e = some r → LoopSpec s N cptr sptr host numnick lhcptr s' r N' := by
    intro l hlh hl he
    obtain ⟨rfl, rfl⟩ := Prod.mk.inj (some.inj he)
    refine ⟨N, h, hg, Net.Sub.refl N, fun _ => Or.inl rfl, fun r hr => ?_⟩
    obtain rfl := some.inj hr
    exact LoopSpec.of_stop h hg hlh hl
  split at hb
  · next hdir =>
      -- the link comes through `cptr`, or a server introduces the new one
      have hnot : sptr = cptr → ¬ ∀ c, N.cli cptr = some c → c.status ≠ .server := by
        intro hsp hst
        have hss : sc.status ≠ .server := hst sc (hsp ▸ hsc)
        rcases hdir with e | e
        · exact hdirect hsp hss c2 hc2 e
        · exact hss e
      obtain ⟨⟨lhKills, killsLh⟩, hlk, hb⟩ := bind_eq_some_iff.mp hb
      dsimp only at hb
      split at hb
      · next hk => exact hstop _ (lhKillsToo_allowed hlk hk) (Or.inl rfl) hb
      · split at hb
        · next hk => exact hstop _ hk.1 (Or.inr rfl) hb
        · obtain ⟨_, _, hb⟩ := bind_eq_some_iff.mp hb
          obtain ⟨csv, _, hb⟩ := bind_eq_some_iff.mp hb
          obtain ⟨s₂, hs₂, hb⟩ := bind_eq_some_iff.mp hb
          have hvme : (if decide (env.now - csv.ghost < 20) = true then acptr else c2ptr) ≠ N.me := by
            split
            · exact hame
            · exact hc2me
          generalize (if decide (env.now - csv.ghost < 20) = true then acptr else c2ptr) = victim at hvme hs₂ hb
          generalize (if decide (env.now - csv.ghost < 20) = true then ac.cli_from
            else c2.cli_from) = killedptrfrom at hb
          obtain ⟨N₂, hh₂, hg₂, hsub₂, _, hcl⟩ := exitClient_good h hg hvme hs₂
          have hret : ∀ r, some (s₂, some (LoopEnd.ret r)) = some (s', e) →
              ∃ N', Holds s' N' ∧ N'.Good ∧ N.Sub N' ∧ (∀ x, s'.updown x = s.updown x ∨ s'.updown x = none) ∧
                ∀ r, e = some r → LoopSpec s N cptr sptr host numnick lhcptr s' r N' := by
            intro r he
            obtain ⟨rfl, rfl⟩ := Prod.mk.inj (some.inj he)
            refine ⟨N₂, hh₂, hg₂, hsub₂, hcl, fun r hr => ?_⟩
            obtain rfl := some.inj hr
            exact LoopSpec.of_ret hh₂ hg₂ hsub₂ hcl (fun hsp hst => absurd hst (hnot hsp))
          split at hb
          · exact hret _ hb
          · split at hb
            · exact hret _ hb
            · obtain ⟨rfl, rfl⟩ := Prod.mk.inj (some.inj hb)
              exact ⟨N₂, hh₂, hg₂, hsub₂, hcl, fun r hr => by cases hr⟩
  · next hdir =>
    obtain ⟨⟨lhKills, killsLh⟩, hlk, hb⟩ := bind_eq_some_iff.mp hb
    dsimp only at hb
    split at hb
    · next hk => exact hstop _ (lhKillsToo_allowed hlk hk) (Or.inl rfl) hb
    · split at hb
      · next hk => exact hstop _ hk.1 (Or.inr rfl) hb
      · obtain ⟨s₂, hs₂, hb⟩ := bind_eq_some_iff.mp hb
        obtain ⟨N₂, hh₂, hg₂, hsub₂, hgone, hcl⟩ := exitClient_good h hg hame hs₂
        split at hb
        · next hca =>
            obtain ⟨rfl, rfl⟩ := Prod.mk.inj (some.inj hb)
            refine ⟨N₂, hh₂, hg₂, hsub₂, hcl, fun r hr => ?_⟩
            obtain rfl := some.inj hr
            exact LoopSpec.of_ret hh₂ hg₂ hsub₂ hcl (fun _ _ => hca ▸ hgone)
        · obtain ⟨rfl, rfl⟩ := Prod.mk.inj (some.inj hb)
          refine ⟨N₂, hh₂, hg₂, hsub₂, hcl, fun r hr => ?_⟩
          obtain rfl := some.inj hr
          exact ⟨hh₂, hg₂, hsub₂, hcl, fun _ _ _ => hremoved N₂ hsub₂ hgone,
            fun _ _ _ => Or.inr (hearly (not_or.mp hdir).2), fun _ e => (by cases e),
            fun _ _ _ e => Or.inl (by cases e; rfl)⟩

lemma collide_spec {sc : Client} {e : Option LoopEnd}
    (h : Holds s N) (hg : N.Good) (hame : acptr ≠ N.me) (hcme : cptr ≠ N.me) (hac : N.cli acptr = some ac)
    (hsc : N.cli sptr = some sc) (hkind : ac.status = .server ∨ ac.status = .handshake)
    (hself : ¬ (ac.status = .handshake ∧ acptr = cptr)) (hearly : sc.status ≠ .server → N.LeavesEarly sptr host)
    (hremoved : ∀ N', N.Sub N' → N'.cli acptr = none → N'.OnlySelf cptr host)
    (hco : collide env fuel s cptr sptr ghost host ts lh lhcptr acptr ac sc = some (s', e)) : ∃ N',
    Holds s' N' ∧ N'.Good ∧ N.Sub N' ∧ (∀ x, s'.updown x = s.updown x ∨ s'.updown x = none) ∧ ∀ r, e = some r →
    LoopSpec s N cptr sptr host numnick lhcptr s' r N' := by
  have hme : s.me = N.me := congrArg Tables.me h.tables
  unfold collide at hco
  simp only [bind_eq_bind, bind_eq_some_iff] at hco
  obtain ⟨pa, hpa, ps, hps, hco⟩ := hco
  split at hco
  · split at hco
    · obtain ⟨s₂, hs₂, hco⟩ := bind_eq_some_iff.mp hco
      obtain ⟨rfl, rfl⟩ := Prod.mk.inj (some.inj hco)
      obtain ⟨N₂, hh₂, hg₂, hsub₂, hgone, hcl⟩ := exitClient_good h hg hcme hs₂
      refine ⟨N₂, hh₂, hg₂, hsub₂, hcl, fun r hr => ?_⟩
      obtain rfl := some.inj hr
      exact LoopSpec.of_ret hh₂ hg₂ hsub₂ hcl (fun _ _ => hgone)
    · next hss =>
        obtain ⟨rfl, rfl⟩ := Prod.mk.inj (some.inj hco)
        refine ⟨N, h, hg, Net.Sub.refl N, fun _ => Or.inl rfl, fun r hr => ?_⟩
        obtain rfl := some.inj hr
        exact LoopSpec.of_ret h hg (Net.Sub.refl N) (fun _ => Or.inl rfl)
          (fun hsp hst => absurd (not_not.mp hss) (hst sc (hsp ▸ hsc)))
  · next c2ptr hc2 =>
      have hpsme : ∀ y ∈ ps, y ≠ N.me := by
        unfold introPath at hps
        split at hps
        · exact hme ▸ upPath_ne_me fuel hps
        · cases hps
          simp
      have hc2me : c2ptr ≠ N.me :=
        linkToBreak_prop (Q := fun y => y ≠ N.me) hame (hme ▸ upPath_ne_me fuel hpa) hpsme _ hc2
      refine breakLink_spec h hg hame hc2me hsc hearly hremoved ?_ hco
      intro hsp hss c2 hc2cli hfrom
      have hps' : ps = [] := by
        unfold introPath at hps
        rw [if_neg hss] at hps
        exact (some.inj hps).symm
      have hwho : c2ptr = acptr ∨ ∃ d, N.cli c2ptr = some d ∧ d.status = .server := by
        refine linkToBreak_prop (Q := fun y => y = acptr ∨ ∃ d, N.cli y = some d ∧
          d.status = .server) (Or.inl rfl) ?_ (by simp [hps']) _ hc2
        exact upPath_status h hg fuel hac (hkind.imp Or.inl id) hpa
      have hserver : c2.status ≠ .server := by
        intro e
        obtain ⟨d, hd, hds⟩ := hg.from_server hc2cli e
        rw [hfrom, ← hsp, hsc] at hd
        exact hss (some.inj hd ▸ hds)
      rcases hwho with rfl | ⟨d, hd, hds⟩
      · obtain rfl : c2 = ac := some.inj (hc2cli.symm.trans hac)
        rcases hkind with e | e
        · exact hserver e
        · refine hself ⟨e, ?_⟩
          rw [← hfrom]
          refine (hg.self_from c2ptr c2 hac ?_).symm
          rintro (e' | e') <;> rw [e] at e' <;> cases e'
      · obtain rfl : c2 = d := some.inj (hc2cli.symm.trans hd)
        exact hserver hds

/-- **The loop of `check_loop_and_lh`.** The induction is on the fuel; every iteration that goes round has
removed a server first. -/
theorem checkLoop_spec {env : ServerEnv} {cptr sptr : ClientId} {ghost : Bool}
    {host numnick : Str} {ts : ℕ} (hne : host ≠ []) (hcs : IsCStr host) : (fuel : ℕ) →
    ∀ {s : Ircd} {N : Net} {lh : LhType} {lhcptr : Option ClientId} {s' : Ircd} {r : LoopEnd},
    Holds s N → N.Good → cptr ≠ N.me → sptr ≠ N.me →
    (sptr = cptr ∨ ∀ c, N.cli cptr = some c → c.status = .server) →
    checkLoop env cptr sptr ghost host numnick ts fuel s lh lhcptr = some (s', r) →
    ∃ N', LoopSpec s N cptr sptr host numnick lhcptr s' r N'
  | 0, _, _, _, _, _, _, _, _, _, _, _, h => by simp [checkLoop] at h
  | fuel + 1, s, N, lh, lhcptr, s', r, hh, hg, hcme, hsme, hpair, h => by
    obtain ⟨t, hh₁, ht, hup₁, hnone, hsome⟩ := findClient_spec hh hg hne hcs
    simp only [checkLoop] at h
    generalize hfc : findClient s host = fc at h hh₁ hup₁ hnone hsome
    obtain ⟨s₁, found⟩ := fc
    have hg₁ := hg.retable ht
    have hsub₁ := Net.sub_retable ht
    obtain ⟨hme₁, _, hcli₁, htab₁, hsl₁, _, _⟩ := Tables.ext_iff.mp hh₁.tables
    simp only at h hh₁ hup₁ hnone hsome hme₁ hcli₁ htab₁ hsl₁
    cases hfo : found.or (s₁.server_list (serverSlot numnick)) with
    | none =>
      rw [hfo] at h
      obtain ⟨rfl, rfl⟩ := Prod.mk.inj (some.inj h)
      have hfn : found = none := (Option.or_eq_none_iff.mp hfo).1
      refine ⟨_, LoopSpec.of_exit hsub₁ hup₁ hh₁ hg₁ (Net.Sub.refl _) (fun x => Or.inl rfl) ?_
        (fun _ _ _ => Or.inl (hsl₁ ▸ (Option.or_eq_none_iff.mp hfo).2)) (fun r' e => by cases e)
        (fun lh' l g e => Or.inl (by cases e; rfl))⟩
      intro _ _ _ b x c hx hc hn
      rw [hnone hfn b x c ((ht b).mem_iff.mp hx) hc] at hn
      cases hn
    | some acptr =>
      rw [hfo] at h
      have hab : ∃ b, acptr ∈ t b := by
        cases found with
        | some y =>
          obtain rfl : y = acptr := by simpa using hfo
          obtain ⟨b, hb⟩ := hsome y rfl
          exact ⟨b, (ht b).mem_iff.mpr hb⟩
        | none =>
          rw [Option.none_or, hsl₁] at hfo
          obtain ⟨c, hc, hs, _⟩ := hg₁.server_list_yxx _ acptr hfo
          exact ⟨_, hg₁.table_server acptr c hc hs⟩
      obtain ⟨b, hab⟩ := hab
      simp only [bind_eq_bind, bind_eq_some_iff] at h
      obtain ⟨ac, hac, sc, hsc, h⟩ := h
      rw [hcli₁] at hac hsc
      -- a removal that returns, for a client other than this server
      have hret : ∀ v (r' : Bool), v ≠ N.me → (sptr = cptr → v = cptr) →
          (exitClient fuel s₁ v).bind (fun s => some (s, LoopEnd.ret r')) = some (s', r) →
          ∃ N', LoopSpec s N cptr sptr host numnick lhcptr s' r N' := by
        intro v r' hv hvc he
        obtain ⟨s₂, hs₂, he⟩ := bind_eq_some_iff.mp he
        obtain ⟨rfl, rfl⟩ := Prod.mk.inj (some.inj he)
        obtain ⟨N₂, hh₂, hg₂, hsub₂, hgone, hcl⟩ := exitClient_good hh₁ hg₁ hv hs₂
        exact ⟨N₂, LoopSpec.of_exit hsub₁ hup₁ hh₂ hg₂ hsub₂ hcl (fun l g e => by cases e)
          (fun l g e => by cases e) (fun _ _ hsp _ => hvc hsp ▸ hgone) (fun lh' l g e => by cases e)⟩
      -- the loop is left without a removal, for a limit that refuses the new server
      have hstop : ∀ l, lh ≠ .allowed → (l = lhcptr ∨ l = none) →
          some (s₁, LoopEnd.done lh l 0) = some (s', r) →
          ∃ N', LoopSpec s N cptr sptr host numnick lhcptr s' r N' := by
        intro l hlh hl he
        obtain ⟨rfl, rfl⟩ := Prod.mk.inj (some.inj he)
        have hstp : LoopSpec s₁ { N with clientTable := t } cptr sptr host numnick lhcptr s₁
            (.done lh l 0) { N with clientTable := t } := LoopSpec.of_stop hh₁ hg₁ hlh hl
        obtain ⟨h1, h2, h3, h4, h5, h6, h7, h8⟩ := hstp
        exact ⟨_, LoopSpec.of_exit hsub₁ hup₁ h1 h2 h3 h4 h5 h6 h7 h8⟩
      by_cases hbad : acptr = s₁.me ∨ ¬ strEq ac.name host = true
      · rw [if_pos hbad] at h
        exact hret cptr true hcme (fun _ => rfl) h
      rw [if_neg hbad] at h
      obtain ⟨hame, hn⟩ := not_or.mp hbad
      rw [hme₁] at hame
      replace hn : strEq ac.name host = true := not_not.mp hn
      have hremoved : ∀ {N₂ : Net}, ({ N with clientTable := t } : Net).Sub N₂ →
          N₂.cli acptr = none → N₂.OnlySelf cptr host :=
        fun hsub hgone => hg₁.onlySelf_of_removed hsub hcs hab hac hn hgone
      by_cases hcon : ac.status = .connecting
      · rw [if_pos hcon] at h
        by_cases hlh : lh = .allowed
        · rw [if_pos hlh] at h
          obtain ⟨s₂, hs₂, h⟩ := bind_eq_some_iff.mp h
          obtain ⟨N₂, hh₂, hg₂, hsub₂, hgone, hcl⟩ := exitClient_good hh₁ hg₁ hame hs₂
          by_cases hca : cptr = acptr
          · rw [if_pos hca] at h
            obtain ⟨rfl, rfl⟩ := Prod.mk.inj (some.inj h)
            exact ⟨N₂, LoopSpec.of_exit hsub₁ hup₁ hh₂ hg₂ hsub₂ hcl (fun l g e => by cases e)
              (fun l g e => by cases e) (fun _ _ _ _ => hca ▸ hgone) (fun lh' l g e => by cases e)⟩
          · rw [if_neg hca] at h
            obtain ⟨rfl, rfl⟩ := Prod.mk.inj (some.inj h)
            exact ⟨N₂, LoopSpec.of_exit hsub₁ hup₁ hh₂ hg₂ hsub₂ hcl (fun l g _ => hremoved hsub₂ hgone)
              (fun _ _ _ => Or.inr ⟨b, acptr, ac, hab, hac, hn, Or.inl hcon⟩)
              (fun r' e => by cases e)
              (fun lh' l g e => Or.inl (by cases e; rfl))⟩
        · rw [if_neg hlh] at h
          exact hstop lhcptr hlh (Or.inl rfl) h
      rw [if_neg hcon] at h
      by_cases hkind : ac.status ≠ .server ∧ ac.status ≠ .handshake
      · rw [if_pos hkind] at h
        exact hret cptr true hcme (fun _ => rfl) h
      rw [if_neg hkind] at h
      by_cases hjupe : ac.status = .server ∧ (isJuped ac.info = true ∨ env.uworld ac.name = true)
      · rw [if_pos hjupe] at h
        by_cases hsst : sc.status ≠ .server
        · rw [if_pos hsst] at h
          exact hret sptr _ hsme (fun e => e) h
        · rw [if_neg hsst] at h
          obtain ⟨rfl, rfl⟩ := Prod.mk.inj (some.inj h)
          refine ⟨_, LoopSpec.of_exit hsub₁ hup₁ hh₁ hg₁ (Net.Sub.refl _) (fun x => Or.inl rfl)
            (fun l g e => by cases e) (fun l g e => by cases e) (fun _ _ hsp hst => ?_)
            (fun lh' l g e => by cases e)⟩
          exact absurd (not_not.mp hsst) (hst sc (hsp ▸ hsc))
      rw [if_neg hjupe] at h
      by_cases hself : ac.status = .handshake ∧ acptr = cptr
      · rw [if_pos hself] at h
        obtain ⟨rfl, rfl⟩ := Prod.mk.inj (some.inj h)
        refine ⟨_, LoopSpec.of_exit hsub₁ hup₁ hh₁ hg₁ (Net.Sub.refl _) (fun x => Or.inl rfl)
          (fun l g _ => ?_) (fun _ _ _ => Or.inr ?_) (fun r' e => by cases e)
          (fun lh' l g e => Or.inl (by cases e; rfl))⟩
        swap
        · refine ⟨b, acptr, ac, hab, hac, hn, Or.inr ⟨sc, hsc, ?_⟩⟩
          have hcc : N.cli cptr = some ac := hself.2 ▸ hac
          rcases hpair with e | e
          · obtain rfl : sc = ac := some.inj (hsc.symm.trans (e ▸ hcc))
            rw [hself.1]
            decide
          · have := e ac hcc
            rw [hself.1] at this
            cases this
        intro b' x c hx hc hxn
        have hxa : x = acptr := hg₁.names b' x b acptr c ac hx hab hc hac
          (strEq_trans (hg₁.cstr x c hc) hcs (hg₁.cstr acptr ac hac) hxn (strEq_comm _ _ ▸ hn))
        subst hxa
        obtain rfl : c = ac := some.inj (hc.symm.trans hac)
        exact ⟨hself.2, hself.1⟩
      rw [if_neg hself] at h
      obtain ⟨⟨s₂, e⟩, hco, h⟩ := bind_eq_some_iff.mp h
      obtain ⟨N₂, hh₂, hg₂, hsub₂, hcl, hspec⟩ := collide_spec hh₁ hg₁ hame hcme
        hac hsc (or_iff_not_and_not.mpr hkind) hself
        (fun e => ⟨b, acptr, ac, hab, hac, hn, Or.inr ⟨sc, hsc, e⟩⟩)
        (fun N' hsub hgone => hremoved hsub hgone) hco
      cases e with
      | some e =>
        obtain ⟨rfl, rfl⟩ := Prod.mk.inj (some.inj h)
        obtain ⟨_, _, _, _, hon, hnum, hgone, hlh⟩ := hspec e rfl
        exact ⟨N₂, LoopSpec.of_exit hsub₁ hup₁ hh₂ hg₂ hsub₂ hcl hon hnum hgone hlh⟩
      | none =>
        have hme₂ := hsub₂.me
        have hpair₂ : sptr = cptr ∨ ∀ c, N₂.cli cptr = some c → c.status = .server :=
          hpair.imp id (fun hst c hc => hst c (hsub₁.cli cptr c (hsub₂.cli cptr c hc)))
        obtain ⟨N₃, h₃⟩ := checkLoop_spec hne hcs fuel hh₂ hg₂ (by rwa [hme₂])
          (by rwa [hme₂]) hpair₂ h
        refine ⟨N₃, h₃.holds, h₃.good, hsub₁.trans (hsub₂.trans h₃.sub), ?_, h₃.onlySelf,
          fun l g hr => (h₃.numeric l g hr).imp id (fun e => (e.of_sub hsub₂).of_sub hsub₁),
          ?_, h₃.lhcptr⟩
        · intro x
          rcases h₃.cleared x with e | e
          · rw [e, ← hup₁]
            exact hcl x
          · exact .inr e
        · intro r' hr hsp hst
          exact h₃.gone r' hr hsp (fun c hc => hst c (hsub₁.cli cptr c (hsub₂.cli cptr c hc)))

lemma LoopRet.ofExit_ne_one (killed : Bool) : LoopRet.ofExit killed ≠ .one := by
  cases killed <;> simp [LoopRet.ofExit]

lemma activeLh_spec {hop : ℕ} {junction : Bool} {l : Option ClientId}
    (h : activeLh fuel env s sptr ghost host hop junction = some (lh, l)) : (∀ x, l = some x → x ≠ s.me) ∧
    (ghost = true → l = none) := by
  have hnone : ∀ lh', some (lh', (none : Option ClientId)) = some (lh, l) →
      (∀ x, l = some x → x ≠ s.me) ∧ (ghost = true → l = none) := by
    intro lh' e
    cases e
    exact ⟨fun x hx => (by cases hx), fun _ => rfl⟩
  unfold activeLh at h
  split at h
  · split at h
    · exact hnone _ h
    · exact hnone _ h
  · next hgh =>
      split at h
      · exact hnone _ h
      · split at h
        · split at h
          · split at h
            · obtain ⟨path, hpath, h⟩ := bind_eq_some_iff.mp h
              cases h
              refine ⟨fun x hx => ?_, fun e => absurd e hgh⟩
              exact upPath_ne_me fuel hpath x (List.mem_of_find?_eq_some hx)
            · exact hnone _ h
          · exact hnone _ h
        · exact hnone _ h

/-- **`check_loop_and_lh`**: the invariant stays; a result of one leaves nobody but the link's own handshake
with the name; any other result on a new connection ends that connection. -/
theorem checkLoopAndLh_spec {hop : ℕ} {junction : Bool} {r : LoopRet} {g : ℕ} (hne : host ≠ [])
    (hcs : IsCStr host) (h : Holds s N) (hg : N.Good) (hcme : cptr ≠ N.me) (hsme : sptr ≠ N.me)
    (hpair : sptr = cptr ∨ ∀ c, N.cli cptr = some c → c.status = .server)
    (hc : checkLoopAndLh fuel env s cptr sptr ghost host numnick ts hop junction = some (s', r, g)) : ∃ N',
    Holds s' N' ∧ N'.Good ∧ N.Sub N' ∧ (∀ x, s'.updown x = s.updown x ∨ s'.updown x = none) ∧ (r = .one →
    N'.OnlySelf cptr host ∧ (N'.server_list (serverSlot numnick) = none ∨ N.LeavesEarly sptr host)) ∧
    (r ≠ .one → ghost = true → sptr = cptr → (∀ c, N.cli cptr = some c → c.status ≠ .server) → N'.cli cptr =
    none) := by
  unfold checkLoopAndLh at hc
  simp only [bind_eq_bind, bind_eq_some_iff] at hc
  obtain ⟨⟨lh, l⟩, hlh, ⟨s₁, e⟩, hloop, hc⟩ := hc
  obtain ⟨hlme, hlgh⟩ := activeLh_spec hlh
  have hme : s.me = N.me := congrArg Tables.me h.tables
  obtain ⟨N₁, h₁⟩ := checkLoop_spec hne hcs fuel h hg hcme hsme hpair hloop
  cases e with
  | ret r' =>
    cases hc
    exact ⟨N₁, h₁.holds, h₁.good, h₁.sub, h₁.cleared,
      fun e => absurd e (LoopRet.ofExit_ne_one _), fun _ _ => h₁.gone _ rfl⟩
  | done lh' l' g' =>
    simp only at hc
    split at hc
    · obtain ⟨s₂, hs₂, hc⟩ := bind_eq_some_iff.mp hc
      cases hc
      have hvme : l'.getD sptr ≠ N₁.me := by
        rw [h₁.sub.me]
        rcases h₁.lhcptr _ _ _ rfl with rfl | rfl
        · cases l' with
          | none => exact hsme
          | some x => exact hme ▸ hlme x rfl
        · exact hsme
      obtain ⟨N₂, hh₂, hg₂, hsub₂, hgone, hcl⟩ := exitClient_good h₁.holds h₁.good hvme hs₂
      refine ⟨N₂, hh₂, hg₂, h₁.sub.trans hsub₂, ?_, ?_, ?_⟩
      · intro x
        rcases hcl x with e | e
        · rw [e]
          exact h₁.cleared x
        · exact .inr e
      · exact fun e => absurd e (LoopRet.ofExit_ne_one _)
      · intro _ hgh hsp _
        have hl' : l' = none := by
          rcases h₁.lhcptr _ _ _ rfl with e | e
          · rw [e]
            exact hlgh hgh
          · exact e
        rw [hl'] at hgone
        exact hsp ▸ hgone
    · next hlh' =>
        cases hc
        rw [not_not.mp hlh'] at h₁
        exact ⟨N₁, h₁.holds, h₁.good, h₁.sub, h₁.cleared,
          fun _ => ⟨h₁.onlySelf _ _ rfl, h₁.numeric _ _ rfl⟩, fun e => absurd rfl e⟩

end Check

end Nefarious.Network
