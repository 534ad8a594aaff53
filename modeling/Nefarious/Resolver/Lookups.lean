import Nefarious.Resolver

/-!
# Lookups

Each lookup has one request until its callback is called or its context is deleted.
-/

namespace Nefarious.Resolver

open Option (bind_eq_some_iff map_some)
open List (append_cons cons_append head_cons map_append map_congr_left map_cons mem_append mem_append_right
  mem_cons mem_cons_of_mem mem_cons_self mem_singleton nil_append nodup_cons perm_middle)

open Function (update update_of_ne update_self)

open Lib Lib.Rings

/-! ## The books of the lookups -/

/-- The books of `n` lookups: which of them have a request, in the order of the requests, which were
answered and which were deleted. -/
structure Books (n : ℕ) (pending answered deleted : List ℕ) : Prop where
  nodup : pending.Nodup
  isOpen : ∀ k, k ∈ pending ↔ k < n ∧ k ∉ answered ∧ k ∉ deleted
  once : answered.Nodup
  made : ∀ k, k ∈ answered ∨ k ∈ deleted → k < n
  disjoint : ∀ k ∈ answered, k ∉ deleted

section Books

variable {n k : ℕ} {l r answered deleted : List ℕ}

lemma Books.perm (h : Books n l answered deleted) (hp : l.Perm r) : Books n r answered deleted :=
  ⟨hp.nodup_iff.mp h.nodup, fun k => hp.mem_iff.symm.trans (h.isOpen k), h.once, h.made, h.disjoint⟩

lemma Books.lookup (h : Books n l answered deleted) : Books (n + 1) (l ++ [n]) answered deleted where
  nodup := by
    apply (List.perm_append_singleton n l).nodup_iff.mpr
    exact nodup_cons.mpr ⟨fun hin => absurd ((h.isOpen n).mp hin).1 (Nat.lt_irrefl n), h.nodup⟩
  isOpen k := by
    rw [mem_append, mem_singleton, h.isOpen]
    constructor
    · rintro (⟨hlt, hopen⟩ | rfl)
      · exact ⟨Nat.lt_succ_of_lt hlt, hopen⟩
      · exact ⟨Nat.lt_succ_self k, fun hin => absurd (h.made k (.inl hin)) (Nat.lt_irrefl k),
          fun hin => absurd (h.made k (.inr hin)) (Nat.lt_irrefl k)⟩
    · rintro ⟨hlt, hopen⟩
      exact (Nat.lt_succ_iff_lt_or_eq.mp hlt).imp (⟨·, hopen⟩) id
  once := h.once
  made k hk := Nat.lt_succ_of_lt (h.made k hk)
  disjoint := h.disjoint

lemma Books.call (h : Books n (l ++ k :: r) answered deleted) :
    Books n (l ++ r) (answered ++ [k]) deleted := by
  obtain ⟨hk, hnodup⟩ := nodup_cons.mp (perm_middle.nodup_iff.mp h.nodup)
  obtain ⟨hlt, hanswered, hdeleted⟩ := (h.isOpen k).mp (mem_append_right _ mem_cons_self)
  refine ⟨hnodup, fun j => ?_, ?_, fun j hj => ?_, fun j hj => ?_⟩
  · have hopen := h.isOpen j
    rw [perm_middle.mem_iff, mem_cons] at hopen
    rw [mem_append (s := answered), mem_singleton, not_or]
    constructor
    · intro hin
      have hj := hopen.mp (.inr hin)
      exact ⟨hj.1, ⟨hj.2.1, fun e => hk (e ▸ hin)⟩, hj.2.2⟩
    · rintro ⟨hlt, ⟨hanswered, hne⟩, hdeleted⟩
      exact (hopen.mpr ⟨hlt, hanswered, hdeleted⟩).resolve_left hne
  · apply (List.perm_append_singleton k answered).nodup_iff.mpr
    exact nodup_cons.mpr ⟨hanswered, h.once⟩
  · obtain hj | hj := hj
    · obtain hj | hj := mem_append.mp hj
      · exact h.made j (.inl hj)
      · exact mem_singleton.mp hj ▸ hlt
    · exact h.made j (.inr hj)
  · obtain hj | hj := mem_append.mp hj
    · exact h.disjoint j hj
    · exact mem_singleton.mp hj ▸ hdeleted

lemma Books.delete (h : Books n l answered deleted) (P : ℕ → Bool) (hr : ∀ k, k ∈ r ↔ k ∈ l ∧ P k = true) :
    Books n (l.filter fun k => !P k) answered (deleted ++ r) where
  nodup := h.nodup.filter _
  isOpen k := by
    rw [List.mem_filter, mem_append, not_or, hr, h.isOpen, Bool.not_eq_true', Bool.eq_false_iff]
    tauto
  once := h.once
  made k hk := by
    obtain hk | hk := hk
    · exact h.made k (.inl hk)
    obtain hk | hk := mem_append.mp hk
    · exact h.made k (.inr hk)
    · exact ((h.isOpen k).mp ((hr k).mp hk).1).1
  disjoint k hk := by
    rw [mem_append, not_or, hr]
    exact ⟨h.disjoint k hk, fun hin => ((h.isOpen k).mp hin.1).2.1 hk⟩

end Books

/-! ## Requests in the ring -/

/-- The ids of the requests with a query are distinct. -/
def Distinct (s : State) (l : List ℕ) : Prop :=
  ∀ x ∈ l, ∀ y ∈ l, x ≠ y → 0 < (s.request x).sends → 0 < (s.request y).sends →
    (s.request x).id ≠ (s.request y).id

/-- The requests `l` are linked in their order and allocated, those with a query have distinct ids, and
each has the context of its lookup. -/
structure Linked (s : State) (l : List ℕ) : Prop where
  ring : if s.started then Ring s.links 0 l else l = []
  perm : l.Perm s.live
  ids : Distinct s l
  ctx : ∀ x ∈ l, s.lookups[(s.request x).callback]? = some (s.request x).callbackCtx

/-- What a query keeps. -/
structure Keeps (s t : State) : Prop where
  currentTime : t.currentTime = s.currentTime
  started : t.started = s.started
  links : t.links = s.links
  live : t.live = s.live
  lookups : t.lookups = s.lookups
  answered : t.answered = s.answered
  deleted : t.deleted = s.deleted
  callback : ∀ x, (t.request x).callback = (s.request x).callback
  callbackCtx : ∀ x, (t.request x).callbackCtx = (s.request x).callbackCtx

/-- A request was made at `p`, for a lookup. -/
structure Made (s t : State) (l : List ℕ) (callback p : ℕ) : Prop where
  started : t.started = true
  linked : Linked t (l ++ [p])
  callback : (t.request p).callback = callback
  same : ∀ x ∈ l, (t.request x).callback = (s.request x).callback
  lookups : t.lookups = s.lookups
  answered : t.answered = s.answered
  deleted : t.deleted = s.deleted

section Linked

variable {env : Env} {s t u : State} {l : List ℕ} {p : ℕ}

lemma Keeps.refl (s : State) : Keeps s s := ⟨rfl, rfl, rfl, rfl, rfl, rfl, rfl, fun _ => rfl, fun _ => rfl⟩

lemma Keeps.trans (h : Keeps s t) (h' : Keeps t u) : Keeps s u :=
  ⟨h'.currentTime.trans h.currentTime, h'.started.trans h.started, h'.links.trans h.links,
    h'.live.trans h.live, h'.lookups.trans h.lookups, h'.answered.trans h.answered,
    h'.deleted.trans h.deleted, fun x => (h'.callback x).trans (h.callback x),
    fun x => (h'.callbackCtx x).trans (h.callbackCtx x)⟩

lemma Linked.keeps (h : Linked s l) (hk : Keeps s t) (hids : Distinct t l) : Linked t l where
  ring := by rw [hk.started, hk.links]; exact h.ring
  perm := by rw [hk.live]; exact h.perm
  ids := hids
  ctx x hx := by rw [hk.lookups, hk.callback, hk.callbackCtx]; exact h.ctx x hx

lemma Linked.first (h : Linked s l) (hs : s.started = true) :
    s.links.next 0 = (l ++ [0]).head (by simp) ∧ l.length < s.live.length + 1 := by
  have hring := h.ring
  rw [if_pos hs] at hring
  refine ⟨?_, ?_⟩
  · simp only [← hring.next, map_cons, head_cons]
  · rw [h.perm.length_eq]
    exact Nat.lt_succ_self _

lemma Linked.pending (h : Linked s l) (hs : s.started = true) : s.pending = some l := by
  obtain ⟨hnext, hlen⟩ := h.first hs
  have hring := h.ring
  rw [if_pos hs] at hring
  have hwalk := Ring.walk_append l (l := []) hring hlen
  rw [← hnext] at hwalk
  have hlive : (l.all fun p => decide (p ∈ s.live)) = true := by
    simpa using fun p hp => h.perm.subset hp
  rw [State.pending, hwalk, Option.filter_some, if_pos hlive]

lemma checkResolverTimeout_eq (s : State) (when : ℕ) :
    ∃ timer, checkResolverTimeout s when = { s with timer := timer } := by
  rw [checkResolverTimeout]
  split
  · exact ⟨s.timer, rfl⟩
  · split
    · exact ⟨_, rfl⟩
    · exact ⟨_, rfl⟩

lemma Keeps.set {r : Reslist} (hcallback : r.callback = (s.request p).callback)
    (hctx : r.callbackCtx = (s.request p).callbackCtx) : Keeps s (s.set p r) := by
  refine ⟨rfl, rfl, rfl, rfl, rfl, rfl, rfl, fun x => ?_, fun x => ?_⟩
  · by_cases e : x = p
    · simp only [State.set, e, update_self, hcallback]
    · simp only [State.set, update_of_ne e]
  · by_cases e : x = p
    · simp only [State.set, e, update_self, hctx]
    · simp only [State.set, update_of_ne e]

lemma Distinct.set (h : Distinct s l) {r : Reslist} (hid : r.id = (s.request p).id)
    (hsends : r.sends = (s.request p).sends) : Distinct (s.set p r) l := by
  have hsame : ∀ x, ((s.set p r).request x).id = (s.request x).id ∧
      ((s.set p r).request x).sends = (s.request x).sends := fun x => by
    by_cases e : x = p
    · simp only [State.set, e, update_self, hid, hsends, and_self]
    · simp only [State.set, update_of_ne e, and_self]
  intro x hx y hy hne hsx hsy
  rw [(hsame x).1, (hsame y).1]
  rw [(hsame x).2] at hsx
  rw [(hsame y).2] at hsy
  exact h x hx y hy hne hsx hsy

lemma Linked.set (h : Linked s l) {r : Reslist} (hcallback : r.callback = (s.request p).callback)
    (hctx : r.callbackCtx = (s.request p).callbackCtx) (hid : r.id = (s.request p).id)
    (hsends : r.sends = (s.request p).sends) : Keeps s (s.set p r) ∧ Linked (s.set p r) l :=
  ⟨Keeps.set hcallback hctx, h.keeps (Keeps.set hcallback hctx) (h.ids.set hid hsends)⟩

lemma Distinct.fresh (h : Distinct s l) {r : Reslist} (hnew : ∀ x ∈ l, (s.request x).id ≠ r.id) :
    Distinct (s.set p r) l := by
  intro x hx y hy hne hsx hsy
  by_cases ex : x = p
  · have ey : y ≠ p := fun ey => hne (ex.trans ey.symm)
    simp only [State.set, ex, update_self, update_of_ne ey]
    exact (hnew y hy).symm
  · simp only [State.set, update_of_ne ex] at hsx ⊢
    by_cases ey : y = p
    · simp only [ey, update_self]
      exact hnew x hx
    · simp only [State.set, update_of_ne ey] at hsy ⊢
      exact h x hx y hy hne hsx hsy

lemma Linked.timer (h : Linked s l) (timer : Timer) :
    Keeps s { s with timer := timer } ∧ Linked { s with timer := timer } l :=
  ⟨⟨rfl, rfl, rfl, rfl, rfl, rfl, rfl, fun _ => rfl, fun _ => rfl⟩, h.ring, h.perm, h.ids, h.ctx⟩

variable {name : Str} {type callback ctx : ℕ}

lemma Linked.queryName (h : Linked s l) (hs : s.started = true) {q : Query}
    (hrun : queryName env s name type p q = some t) : Keeps s t ∧ Linked t l := by
  rw [Resolver.queryName] at hrun
  split at hrun
  · split at hrun
    · rename_i hfind
      cases hrun
      rw [findId, h.pending hs, map_some, Option.some.injEq, List.find?_eq_none] at hfind
      obtain ⟨timer, htimer⟩ := checkResolverTimeout_eq (s.set p { s.request p with
          id := q.id % 2 ^ 16, sends := (s.request p).sends + 1, sent := (s.request p).sent + q.sent })
        ((s.request p).sentat + (s.request p).timeout)
      rw [htimer]
      have hkeeps : Keeps s (s.set p { s.request p with
          id := q.id % 2 ^ 16, sends := (s.request p).sends + 1, sent := (s.request p).sent + q.sent }) :=
        Keeps.set rfl rfl
      have hlinked := h.keeps hkeeps (h.ids.fresh fun x hx => by simpa using hfind x hx)
      exact ⟨hkeeps.trans (hlinked.timer timer).1, (hlinked.timer timer).2⟩
    · cases hrun
  · cases hrun
    exact ⟨Keeps.refl s, h⟩

lemma Linked.sendName (h : Linked s l) (hs : s.started = true) {q : Query}
    (hrun : sendName env s name type p q = some t) : Keeps s t ∧ Linked t l := by
  obtain ⟨hkeeps, hlinked⟩ := h.set (p := p) (r := { s.request p with type := type }) rfl rfl rfl rfl
  obtain ⟨hkeeps', hlinked'⟩ := hlinked.queryName hs hrun
  exact ⟨hkeeps.trans hkeeps', hlinked'⟩

lemma Linked.resendQuery (h : Linked s l) (hs : s.started = true) {q : Query}
    (hrun : resendQuery env s p q = some t) : Keeps s t ∧ Linked t l := by
  rw [Resolver.resendQuery] at hrun
  split at hrun
  · cases hrun
    exact ⟨Keeps.refl s, h⟩
  split at hrun
  · exact h.queryName hs hrun
  split at hrun
  · exact h.sendName hs hrun
  split at hrun
  · exact h.sendName hs hrun
  · cases hrun
    exact ⟨Keeps.refl s, h⟩

lemma Linked.restart (h : Linked s l) :
    Ring (if s.started = true then s else restartResolver s).links 0 l := by
  have hring := h.ring
  split at hring
  · rename_i hs
    rwa [if_pos hs]
  · rename_i hs
    rw [if_neg hs, hring]
    apply Ring.nil
    · simp only [restartResolver, update_self]
    · simp only [restartResolver, update_self]

lemma restart_keeps (s : State) :
    let t := if s.started = true then s else restartResolver s
    t.started = true ∧ t.live = s.live ∧ t.request = s.request ∧ t.lookups = s.lookups ∧
      t.answered = s.answered ∧ t.deleted = s.deleted := by
  intro t
  by_cases hs : s.started = true
  · simp only [t, if_pos hs, hs, and_self]
  · simp only [t, if_neg hs, restartResolver, and_self]

lemma Linked.makeRequest (h : Linked s l) (hctx : s.lookups[callback]? = some ctx)
    (hrun : makeRequest env s callback ctx p = some t) : Made s t l callback p := by
  rw [Resolver.makeRequest] at hrun
  split at hrun
  · cases hrun
  rename_i hnew
  obtain ⟨hp, hlive⟩ := not_or.mp hnew
  have hpl : p ∉ l := fun hin => hlive (h.perm.subset hin)
  obtain ⟨hstarted, hlive', hrequest, hlookups, hanswered, hdeleted⟩ := restart_keeps s
  have hring := h.restart
  obtain ⟨u, hu⟩ : ∃ u, u = if s.started = true then s else restartResolver s := ⟨_, rfl⟩
  simp only [← hu] at hrun hstarted hlive' hrequest hlookups hanswered hdeleted hring
  obtain ⟨r, hr⟩ : ∃ r : Reslist, r = { id := 0, sent := 0, state := .idle, type := 0
                                        retries := env.resRetries, sends := 0, resend := true
                                        sentat := u.currentTime, timeout := env.resTimeout
                                        addr := List.replicate 8 0, name := none
                                        callback := callback, callbackCtx := ctx } := ⟨_, rfl⟩
  rw [← hr] at hrun
  have hsends : r.sends = 0 := by rw [hr]
  have hcallback : r.callback = callback := by rw [hr]
  have hcallbackCtx : r.callbackCtx = ctx := by rw [hr]
  cases hrun
  have hself : update u.request p r p = r := update_self ..
  have hother : ∀ x ∈ l, update u.request p r x = s.request x := fun x hx => by
    rw [update_of_ne fun e : x = p => hpl (e ▸ hx), hrequest]
  refine ⟨hstarted, ⟨?_, ?_, ?_, ?_⟩, ?_, ?_, hlookups, hanswered, hdeleted⟩
  · rw [if_pos hstarted]
    apply hring.add
    rw [mem_cons, not_or]
    exact ⟨hp, hpl⟩
  · exact (List.perm_append_singleton p l).trans ((hlive'.symm ▸ h.perm).cons p)
  · intro x hx y hy hne hsx hsy
    have hold : ∀ z ∈ l ++ [p], 0 < (update u.request p r z).sends → z ∈ l := fun z hz hsz => by
      apply (mem_append.mp hz).resolve_right
      intro e
      simp only [mem_singleton.mp e, hself, hsends, Nat.lt_irrefl] at hsz
    have hxl := hold x hx hsx
    have hyl := hold y hy hsy
    simp only [hother x hxl, hother y hyl] at hsx hsy ⊢
    exact h.ids x hxl y hyl hne hsx hsy
  · intro x hx
    obtain hx | hx := mem_append.mp hx
    · simp only [hother x hx, hlookups]
      exact h.ctx x hx
    · simp only [mem_singleton.mp hx, hself, hcallback, hcallbackCtx, hlookups]
      exact hctx
  · simp only [hself, hcallback]
  · intro x hx
    simp only [hother x hx]

lemma Made.keeps (h : Made s t l callback p) (hk : Keeps t u ∧ Linked u (l ++ [p])) : Made s u l callback p :=
  ⟨hk.1.started.trans h.started, hk.2, (hk.1.callback p).trans h.callback,
    fun x hx => (hk.1.callback x).trans (h.same x hx), hk.1.lookups.trans h.lookups,
    hk.1.answered.trans h.answered, hk.1.deleted.trans h.deleted⟩

lemma Linked.doQueryName (h : Linked s l) {q : Query} (hctx : s.lookups[callback]? = some ctx)
    (hrun : doQueryName env s callback ctx name type p q = some t) : Made s t l callback p := by
  obtain ⟨u, hu, hrun⟩ := bind_eq_some_iff.mp hrun
  have hmade := h.makeRequest hctx hu
  have hmade' := hmade.keeps (hmade.linked.set (p := p) (r := { u.request p with
    name := some (addLocalDomain env.ircDomain (name.take hostlen) hostlen)
    state := if env.ipv6 ∧ type ≠ tA then .aaaa else .a }) rfl rfl rfl rfl)
  exact hmade'.keeps (hmade'.linked.sendName hmade'.started hrun)

lemma Linked.doQueryNumber (h : Linked s l) {addr : List ℕ} {junk : Str}
    {q : Query} (hctx : s.lookups[callback]? = some ctx)
    (hrun : doQueryNumber env s callback ctx addr junk p q = some t) : Made s t l callback p := by
  obtain ⟨u, hu, hrun⟩ := bind_eq_some_iff.mp hrun
  have hmade := h.makeRequest hctx hu
  have hmade' := hmade.keeps (hmade.linked.set (p := p) (r := { u.request p with
    state := .ptr, type := tPTR, addr := addr, name := some junk }) rfl rfl rfl rfl)
  exact hmade'.keeps (hmade'.linked.queryName hmade'.started hrun)

lemma Linked.remRequest {r : List ℕ} (h : Linked s (l ++ p :: r)) : Linked (remRequest s p) (l ++ r) := by
  have hsub : (l ++ r).Sublist (l ++ p :: r) := (List.sublist_cons_self p r).append_left l
  have hring := h.ring
  split at hring
  · rename_i hs
    have hnodup : (l ++ p :: r).Nodup := (nodup_cons.mp hring.nodup).2
    have hp : p ∉ l ++ r := (nodup_cons.mp (perm_middle.nodup_iff.mp hnodup)).1
    refine ⟨?_, ?_, fun x hx y hy => h.ids x (hsub.subset hx) y (hsub.subset hy),
      fun x hx => h.ctx x (hsub.subset hx)⟩
    · simp only [Resolver.remRequest, hs, if_true]
      exact hring.remove
    · have hfilter := h.perm.filter (· ≠ p)
      rw [List.filter_append, List.filter_cons_of_neg (by simp), ← List.filter_append,
        List.filter_eq_self.mpr fun x hx => by simpa using fun e : x = p => hp (e ▸ hx)] at hfilter
      exact hfilter
  · exact absurd hring (by simp)

lemma Linked.call (h : Linked s l) (p : ℕ) : Linked (s.call p) l := ⟨h.ring, h.perm, h.ids, h.ctx⟩

end Linked

/-! ## The discipline -/

def tokens (s : State) (l : List ℕ) : List ℕ := l.map fun x => (s.request x).callback

/-- The requests `l` are linked, and belong to the lookups that were neither answered nor deleted. -/
structure Sound (s : State) (l : List ℕ) : Prop where
  linked : Linked s l
  books : Books s.lookups.length (tokens s l) s.answered s.deleted

/-- No reply that has answers, but none that can be read, comes for a request that was sent to nobody.
`ircd_res.c` `res_readreply`. -/
def State.fits (env : Env) (s : State) : Event → Bool
  | .reply reply _ _ =>
    match findId s reply.id with
    | some (some p) =>
      decide (reply.eob ≤ 12 ∨ reply.rcode ≠ 0 ∨ reply.ancount = 0) ||
        (procAnswer env (s.request p) reply).1 || decide ((s.request p).sent ≠ 0)
    | _ => true
  | _ => true

section Sound

variable {env : Env} {s t : State} {l r : List ℕ} {p new : ℕ}

lemma Sound.keeps (h : Sound s l) (hk : Keeps s t ∧ Linked t l) : Sound t l := by
  refine ⟨hk.2, ?_⟩
  have htokens : tokens t l = tokens s l := map_congr_left fun x _ => hk.1.callback x
  rw [hk.1.lookups, htokens, hk.1.answered, hk.1.deleted]
  exact h.books

lemma Sound.finish (h : Sound s (l ++ p :: r)) : Sound (remRequest (s.call p) p) (l ++ r) := by
  refine ⟨(h.linked.call p).remRequest, ?_⟩
  have hbooks := h.books
  rw [tokens, map_append, map_cons] at hbooks
  have hcall := hbooks.call
  rw [← map_append] at hcall
  exact hcall

variable {ctx type : ℕ} {reply : Reply} {name : Str}

lemma Sound.lookup (h : Sound s l)
    (hmade : Made { s with lookups := s.lookups ++ [ctx] } t l s.lookups.length p) :
    Sound t (l ++ [p]) := by
  refine ⟨hmade.linked, ?_⟩
  have htokens : tokens t (l ++ [p]) = tokens s l ++ [s.lookups.length] := by
    rw [tokens, map_append, List.map_singleton, hmade.callback, map_congr_left hmade.same]
    rfl
  rw [hmade.lookups, hmade.answered, hmade.deleted, htokens, List.length_append, List.length_singleton]
  exact h.books.lookup

lemma Sound.replace (h : Sound s (l ++ p :: r)) (hmade : Made s t (l ++ p :: r) (s.request p).callback new) :
    Sound (remRequest t p) (l ++ (r ++ [new])) := by
  have hlinked := hmade.linked
  rw [List.append_assoc, cons_append] at hlinked
  refine ⟨hlinked.remRequest, ?_⟩
  have htokens : tokens (remRequest t p) (l ++ (r ++ [new])) =
      tokens s l ++ (tokens s r ++ [(s.request p).callback]) := by
    have hl : tokens t l = tokens s l := map_congr_left fun x hx => hmade.same x (List.mem_append_left _ hx)
    have hr : tokens t r = tokens s r :=
      map_congr_left fun x hx => hmade.same x (mem_append_right _ (mem_cons_of_mem _ hx))
    rw [← hl, ← hr, ← hmade.callback]
    simp only [tokens, remRequest, map_append, map_cons, List.map_nil]
  have hbooks : Books s.lookups.length (tokens s l ++ (s.request p).callback :: tokens s r) s.answered
      s.deleted := by
    have hbooks := h.books
    rwa [tokens, map_append, map_cons] at hbooks
  have hperm := hbooks.perm ((List.perm_append_singleton _ _).symm.append_left _)
  rw [← htokens] at hperm
  simp only [remRequest, hmade.lookups, hmade.answered, hmade.deleted]
  exact hperm

lemma procAnswers_keeps (env : Env) (buf : ℕ → ℕ) (eob : ℕ) : (n current : ℕ) → (r : Reslist) →
    (procAnswers env buf eob n current r).2.callback = r.callback ∧
    (procAnswers env buf eob n current r).2.callbackCtx = r.callbackCtx ∧
    (procAnswers env buf eob n current r).2.id = r.id ∧
    (procAnswers env buf eob n current r).2.sends = r.sends ∧
    (procAnswers env buf eob n current r).2.sent = r.sent ∧
    (procAnswers env buf eob n current r).2.sentat = r.sentat
  | 0, _, r => by
    rw [procAnswers]
    exact ⟨rfl, rfl, rfl, rfl, rfl, rfl⟩
  | n + 1, current, r => by
    rw [procAnswers]
    split
    · exact ⟨rfl, rfl, rfl, rfl, rfl, rfl⟩
    dsimp only
    split
    · exact ⟨rfl, rfl, rfl, rfl, rfl, rfl⟩
    split
    · exact ⟨rfl, rfl, rfl, rfl, rfl, rfl⟩
    split
    · split <;> exact ⟨rfl, rfl, rfl, rfl, rfl, rfl⟩
    split
    · split <;> exact ⟨rfl, rfl, rfl, rfl, rfl, rfl⟩
    split
    · split <;> exact ⟨rfl, rfl, rfl, rfl, rfl, rfl⟩
    split
    · split
      · exact ⟨rfl, rfl, rfl, rfl, rfl, rfl⟩
      · exact procAnswers_keeps env buf eob n _ { r with state := .cname }
    · exact procAnswers_keeps env buf eob n _ r

lemma Linked.findId (h : Linked s l) (hs : s.started = true) {id : ℕ}
    (hfind : findId s id = some (some p)) : p ∈ l := by
  rw [Resolver.findId, h.pending hs, map_some, Option.some.injEq] at hfind
  exact List.mem_of_find?_eq_some hfind

lemma Sound.noAnswer (h : Sound s (l ++ p :: r)) (hs : s.started = true) {q : Query}
    (hrun : noAnswer env s p reply q = some t) : ∃ l', Sound t l' := by
  rw [Resolver.noAnswer] at hrun
  split at hrun
  · cases hrun
    exact ⟨_, h.finish⟩
  split at hrun
  · have hset := h.linked.set (p := p) (r := { s.request p with
      timeout := (s.request p).timeout + env.resTimeout }) rfl rfl rfl rfl
    exact ⟨_, (h.keeps hset).keeps (hset.2.resendQuery hs hrun)⟩
  split at hrun
  · have hset := h.linked.set (p := p) (r := { s.request p with
      state := .int, timeout := (s.request p).timeout + env.resTimeout }) rfl rfl rfl rfl
    exact ⟨_, (h.keeps hset).keeps (hset.2.resendQuery hs hrun)⟩
  · cases hrun
    exact ⟨_, h⟩

lemma Sound.answer (h : Sound s (l ++ p :: r)) {q : Query}
    (hrun : answer env s p new q = some t) : ∃ l', Sound t l' := by
  rw [Resolver.answer] at hrun
  split at hrun
  · split at hrun
    · cases hrun
      exact ⟨_, h.finish⟩
    · obtain ⟨u, hu, hrun⟩ := bind_eq_some_iff.mp hrun
      cases hrun
      have hctx := h.linked.ctx p (mem_append_right _ mem_cons_self)
      exact ⟨_, h.replace (h.linked.doQueryName hctx hu)⟩
  · cases hrun
    exact ⟨_, h.finish⟩

lemma Sound.resReadreply (h : Sound s l) (hs : s.started = true) {q : Query}
    (hfits : s.fits env (.reply reply new q) = true)
    (hrun : resReadreply env s reply new q = some t) : ∃ l', Sound t l' := by
  rw [Resolver.resReadreply] at hrun
  split at hrun
  · cases hrun
    exact ⟨l, h⟩
  rename_i heob
  split at hrun
  · cases hrun
  · cases hrun
    exact ⟨l, h⟩
  rename_i p hfind
  obtain ⟨front, back, rfl⟩ := List.append_of_mem (h.linked.findId hs hfind)
  split at hrun
  · exact h.noAnswer hs hrun
  rename_i hcode
  obtain ⟨hcallback, hctx, hid, hsends, hsent, -⟩ := procAnswers_keeps env reply.buf reply.eob reply.ancount
    (skipQuestions env reply.buf reply.eob reply.qdcount 12) (s.request p)
  have hset := h.linked.set (p := p) (r := (procAnswer env (s.request p) reply).2) hcallback hctx hid hsends
  have hsound := h.keeps hset
  dsimp only at hrun
  split at hrun
  · exact hsound.answer hrun
  rename_i hbad
  split at hrun
  · rename_i hzero
    simp only [State.fits, hfind, Bool.or_eq_true, decide_eq_true_eq] at hfits
    exact absurd (hsent ▸ hzero) ((hfits.resolve_left (not_or.mpr ⟨not_or.mpr ⟨heob, hcode⟩, hbad⟩)))
  · cases hrun
    exact ⟨_, hsound⟩

lemma Linked.next (h : Linked s (l ++ p :: r)) :
    p ≠ 0 ∧ p ∈ s.live ∧ s.links.next p = (r ++ [0]).head (by simp) := by
  have hring := h.ring
  have hin : p ∈ l ++ p :: r := mem_append_right _ mem_cons_self
  split at hring
  · refine ⟨fun e => (nodup_cons.mp hring.nodup).1 (e ▸ hin), h.perm.subset hin, ?_⟩
    simp only [hring.around.2.1, head_cons]
  · exact absurd hring (by simp)

lemma Sound.timeoutLoop {q : ℕ → Query} : (n : ℕ) → (r : List ℕ) → ∀ {s : State} {l : List ℕ} {a b : ℕ},
    Sound s (l ++ r) → s.started = true →
    timeoutLoop env q n s ((r ++ [0]).head (by simp)) a = some (t, b) → ∃ l', Sound t l'
  | 0, _, _, _, _, _, _, _, hrun => by
    cases hrun
  | n + 1, [], s, l, a, b, h, _, hrun => by
    rw [Resolver.timeoutLoop] at hrun
    simp only [nil_append, head_cons, if_true] at hrun
    cases hrun
    exact ⟨_, h⟩
  | n + 1, x :: r, s, l, a, b, h, hs, hrun => by
    obtain ⟨hx, hlive, hnext⟩ := h.linked.next
    rw [Resolver.timeoutLoop] at hrun
    simp only [cons_append, head_cons, if_neg hx, if_neg (not_not_intro hlive), hnext] at hrun
    split at hrun
    · split at hrun
      · exact Sound.timeoutLoop n r h.finish hs hrun
      · obtain ⟨u, hu, hrun⟩ := bind_eq_some_iff.mp hrun
        have hset := h.linked.set (p := x) (r := { s.request x with
          retries := (s.request x).retries - 1, sentat := s.currentTime
          timeout := (s.request x).timeout + (s.request x).timeout }) rfl rfl rfl rfl
        have hsent := hset.2.resendQuery hs hu
        have hsound := (h.keeps hset).keeps hsent
        rw [append_cons] at hsound
        exact Sound.timeoutLoop n r hsound (hsent.1.started.trans hs) hrun
    · rw [append_cons] at h
      exact Sound.timeoutLoop n r h hs hrun

lemma Sound.timeoutResolver (h : Sound s l) {q : ℕ → Query}
    (hrun : timeoutResolver env s q = some t) : ∃ l', Sound t l' := by
  obtain ⟨⟨u, soon⟩, hu, hrun⟩ := bind_eq_some_iff.mp hrun
  have hloop : ∃ l', Sound u l' := by
    by_cases hs : s.started = true
    · rw [(h.linked.first hs).1] at hu
      exact Sound.timeoutLoop (l := []) _ l h hs hu
    · -- Before the start there is no request, and no way to go.
      have hl := h.linked.ring
      rw [if_neg hs] at hl
      have hlive : s.live = [] := List.nil_perm.mp (hl ▸ h.linked.perm)
      rw [Resolver.timeoutLoop, hlive] at hu
      split at hu
      · cases hu
        exact ⟨l, h⟩
      · exact absurd hu (by simp)
  obtain ⟨l', hsound⟩ := hloop
  cases hrun
  obtain ⟨timer, htimer⟩ := checkResolverTimeout_eq u
    (if soon ≤ u.currentTime then u.currentTime + 600 else soon)
  rw [htimer]
  exact ⟨l', hsound.keeps (hsound.linked.timer timer)⟩

lemma Linked.deleteLoop {vptr : ℕ} : (n : ℕ) → (r : List ℕ) → ∀ {s : State} {l : List ℕ},
    Linked s (l ++ r) → deleteLoop vptr n s ((r ++ [0]).head (by simp)) = some t →
    Linked t (l ++ r.filter fun x => (s.request x).callbackCtx ≠ vptr) ∧ t.request = s.request ∧
      t.lookups = s.lookups ∧ t.answered = s.answered ∧ t.deleted = s.deleted
  | 0, _, _, _, _, hrun => by
    cases hrun
  | n + 1, [], s, l, h, hrun => by
    rw [Resolver.deleteLoop] at hrun
    simp only [nil_append, head_cons, if_true] at hrun
    cases hrun
    exact ⟨h, rfl, rfl, rfl, rfl⟩
  | n + 1, x :: r, s, l, h, hrun => by
    obtain ⟨hx, hlive, hnext⟩ := h.next
    rw [Resolver.deleteLoop] at hrun
    simp only [cons_append, head_cons, if_neg hx, if_neg (not_not_intro hlive), hnext] at hrun
    split at hrun
    · rename_i hctx
      rw [List.filter_cons_of_neg (by simpa using hctx)]
      have hrest := Linked.deleteLoop n r h.remRequest hrun
      exact hrest
    · rename_i hctx
      rw [List.filter_cons_of_pos (by simpa using hctx), append_cons]
      rw [append_cons] at h
      exact Linked.deleteLoop n r h hrun

lemma Sound.deleteResolverQueries (h : Sound s l) {vptr : ℕ} (hrun : deleteResolverQueries s vptr = some t) :
    Sound t (l.filter fun x => (s.request x).callbackCtx ≠ vptr) := by
  obtain ⟨u, hu, hrun⟩ := bind_eq_some_iff.mp hrun
  cases hrun
  have hloop : Linked u (l.filter fun x => (s.request x).callbackCtx ≠ vptr) ∧ u.request = s.request ∧
      u.lookups = s.lookups ∧ u.answered = s.answered ∧ u.deleted = s.deleted := by
    have hring := h.linked.ring
    split at hring
    · rename_i hs
      rw [if_pos hs, (h.linked.first hs).1] at hu
      exact Linked.deleteLoop (l := []) _ l h.linked hu
    · rename_i hs
      rw [if_neg hs] at hu
      cases hu
      rw [hring, List.filter_nil]
      exact ⟨hring ▸ h.linked, rfl, rfl, rfl, rfl⟩
  obtain ⟨hlinked, hrequest, hlookups, hanswered, hdeleted⟩ := hloop
  refine ⟨⟨hlinked.ring, hlinked.perm, hlinked.ids, hlinked.ctx⟩, ?_⟩
  have htokens : tokens u (l.filter fun x => (s.request x).callbackCtx ≠ vptr) =
      (tokens s l).filter fun k => !decide (s.lookups[k]? = some vptr) := by
    rw [tokens, hrequest, tokens, List.filter_map]
    congr 1
    apply List.filter_congr
    intro x hx
    simp only [Function.comp_apply, h.linked.ctx x hx, Option.some.injEq, decide_not]
  have hbooks := h.books.delete (fun k => decide (s.lookups[k]? = some vptr)) (r := s.open vptr) fun k => by
    rw [State.open, List.mem_filter, List.mem_range, h.books.isOpen]
    simp only [decide_eq_true_eq]
    tauto
  rw [← htokens, ← hlookups, ← hanswered] at hbooks
  exact hbooks

lemma Linked.lookup (h : Linked s l) (ctx : ℕ) : Linked { s with lookups := s.lookups ++ [ctx] } l where
  ring := h.ring
  perm := h.perm
  ids := h.ids
  ctx x hx := by
    have hctx := h.ctx x hx
    rw [List.getElem?_append_left (List.getElem?_eq_some_iff.mp hctx).1]
    exact hctx

lemma Sound.step {e : Event} (h : Sound s l) (hallowed : s.allowed e = true)
    (hfits : s.fits env e = true) (hstep : s.step env e = some t) : ∃ l', Sound t l' := by
  cases e with
  | tick now =>
    cases hstep
    exact ⟨l, ⟨h.linked.ring, h.linked.perm, h.linked.ids, h.linked.ctx⟩, h.books⟩
  | gethostByname name ctx p q =>
    exact ⟨_, h.lookup ((h.linked.lookup ctx).doQueryName List.getElem?_concat_length hstep)⟩
  | gethostByaddr addr junk ctx p q =>
    exact ⟨_, h.lookup ((h.linked.lookup ctx).doQueryNumber List.getElem?_concat_length hstep)⟩
  | reply reply new q => exact h.resReadreply hallowed hfits hstep
  | delete vptr => exact ⟨_, h.deleteResolverQueries hstep⟩
  | timerRun q =>
    simp only [State.step, timerRun] at hstep
    split at hstep
    · obtain ⟨u, hu, hstep⟩ := bind_eq_some_iff.mp hstep
      cases hstep
      obtain ⟨l', hsound⟩ := (h.keeps (h.linked.timer _)).timeoutResolver hu
      exact ⟨l', hsound.keeps (hsound.linked.timer _)⟩
    · cases hstep
      exact ⟨l, h⟩
  | expire q => exact h.timeoutResolver hstep

/-- The number of a query is the id of no request. `ircd_res.c` `query_name`. -/
def Query.free (q : Query) (s : State) : Prop := ∀ x ∈ s.live, (s.request x).id ≠ q.id % 2 ^ 16

/-- The address of a new request is free, and so is its number, which is not the id of a new request.
`ircd_res.c` `make_request`. -/
def Query.supplied (q : Query) (s : State) (p : ℕ) : Prop :=
  p ≠ 0 ∧ p ∉ s.live ∧ q.id % 2 ^ 16 ≠ 0 ∧ q.free s

/-- What the system gives is free. `ircd_res.c` `make_request`, `query_name`. -/
def State.supplied (s : State) : Event → Prop
  | .gethostByname _ _ p q | .gethostByaddr _ _ _ p q | .reply _ p q => q.supplied s p
  | .timerRun q | .expire q =>
    ∀ x ∈ s.live, (q x).free s ∧ ∀ y ∈ s.live, x ≠ y → (q x).id % 2 ^ 16 ≠ (q y).id % 2 ^ 16
  | _ => True

/-- Only one request gets an id, and only the one that was drawn. -/
def Draws (s t : State) (p : ℕ) (q : Query) : Prop :=
  ∀ x, (t.request x).id = (s.request x).id ∨ x = p ∧ (t.request x).id = q.id % 2 ^ 16

lemma Linked.queryName_defined (h : Linked s l) (hs : s.started = true)
    {q : Query} (hfree : q.free s) : ∃ t, Resolver.queryName env s name type p q = some t ∧ Draws s t p q := by
  have hfind : Resolver.findId s (q.id % 2 ^ 16) = some none := by
    rw [Resolver.findId, h.pending hs, map_some, Option.some.injEq, List.find?_eq_none]
    intro x hx
    simpa using hfree x (h.perm.subset hx)
  rw [Resolver.queryName]
  split
  · rw [hfind]
    refine ⟨_, rfl, fun x => ?_⟩
    obtain ⟨timer, htimer⟩ := checkResolverTimeout_eq (s.set p { s.request p with
        id := q.id % 2 ^ 16, sends := (s.request p).sends + 1, sent := (s.request p).sent + q.sent })
      ((s.request p).sentat + (s.request p).timeout)
    rw [htimer]
    by_cases e : x = p
    · refine .inr ⟨e, ?_⟩
      simp only [State.set, e, update_self]
    · refine .inl ?_
      simp only [State.set, update_of_ne e]
  · exact ⟨s, rfl, fun x => .inl rfl⟩

lemma set_id {x : ℕ} {r : Reslist} (hid : r.id = (s.request p).id) :
    ((s.set p r).request x).id = (s.request x).id := by
  by_cases e : x = p
  · simp only [State.set, e, update_self, hid]
  · simp only [State.set, update_of_ne e]

lemma Linked.sendName_defined (h : Linked s l) (hs : s.started = true)
    {q : Query} (hfree : q.free s) : ∃ t, Resolver.sendName env s name type p q = some t ∧ Draws s t p q := by
  have hset := h.set (p := p) (r := { s.request p with type := type }) rfl rfl rfl rfl
  have hid : ∀ x, ((s.set p { s.request p with type := type }).request x).id = (s.request x).id :=
    fun x => set_id rfl
  have hfree' : q.free (s.set p { s.request p with type := type }) := fun x hx => by
    rw [hid]
    exact hfree x hx
  obtain ⟨t, ht, hdraws⟩ : ∃ t, Resolver.sendName env s name type p q = some t ∧
      Draws (s.set p { s.request p with type := type }) t p q := hset.2.queryName_defined hs hfree'
  exact ⟨t, ht, fun x => hid x ▸ hdraws x⟩

lemma Linked.resendQuery_defined (h : Linked s l) (hs : s.started = true) {q : Query}
    (hfree : q.free s) : ∃ t, Resolver.resendQuery env s p q = some t ∧ Draws s t p q := by
  have hsame : Draws s s p q := fun x => .inl rfl
  rw [Resolver.resendQuery]
  split
  · exact ⟨s, rfl, hsame⟩
  split
  · exact h.queryName_defined hs hfree
  split
  · exact h.sendName_defined hs hfree
  split
  · exact h.sendName_defined hs hfree
  · exact ⟨s, rfl, hsame⟩

lemma makeRequest_defined (env : Env) (callback ctx : ℕ) {q : Query} (hq : q.supplied s p) :
    ∃ t, makeRequest env s callback ctx p = some t ∧ ∀ r : Reslist, r.id = (t.request p).id →
      q.free (t.set p r) := by
  obtain ⟨hp, hlive, hid, hfree⟩ := hq
  rw [Resolver.makeRequest, if_neg (not_or.mpr ⟨hp, hlive⟩)]
  refine ⟨_, rfl, fun r hr x hx => ?_⟩
  obtain ⟨-, hlive', hrequest, -⟩ := restart_keeps s
  simp only [update_self] at hr
  obtain rfl | hne := eq_or_ne x p
  · simp only [State.set, update_self, hr]
    exact hid.symm
  · have hx' : x ∈ s.live := hlive' ▸ (mem_cons.mp hx).resolve_left hne
    simp only [State.set, update_of_ne hne, hrequest]
    exact hfree x hx'

lemma Linked.doQueryName_defined (h : Linked s l) {callback : ℕ} {q : Query}
    (hctx : s.lookups[callback]? = some ctx) (hq : q.supplied s p) :
    ∃ t, Resolver.doQueryName env s callback ctx name type p q = some t := by
  obtain ⟨u, hu, hfree⟩ := makeRequest_defined env callback ctx hq
  have hmade := h.makeRequest hctx hu
  have hset := hmade.linked.set (p := p) (r := { u.request p with
    name := some (addLocalDomain env.ircDomain (name.take hostlen) hostlen)
    state := if env.ipv6 ∧ type ≠ tA then .aaaa else .a }) rfl rfl rfl rfl
  obtain ⟨t, ht, -⟩ := hset.2.sendName_defined hmade.started (hfree _ rfl)
  exact ⟨t, bind_eq_some_iff.mpr ⟨u, hu, ht⟩⟩

lemma Linked.doQueryNumber_defined (h : Linked s l) {callback : ℕ} {addr : List ℕ} {junk : Str}
    {q : Query} (hctx : s.lookups[callback]? = some ctx) (hq : q.supplied s p) :
    ∃ t, Resolver.doQueryNumber env s callback ctx addr junk p q = some t := by
  obtain ⟨u, hu, hfree⟩ := makeRequest_defined env callback ctx hq
  have hmade := h.makeRequest hctx hu
  have hset := hmade.linked.set (p := p) (r := { u.request p with
    state := .ptr, type := tPTR, addr := addr, name := some junk }) rfl rfl rfl rfl
  obtain ⟨t, ht, -⟩ := hset.2.queryName_defined hmade.started (hfree _ rfl)
  exact ⟨t, bind_eq_some_iff.mpr ⟨u, hu, ht⟩⟩

lemma Linked.resReadreply_defined (h : Linked s l) (hs : s.started = true) {q : Query}
    (hq : q.supplied s new) : ∃ t, Resolver.resReadreply env s reply new q = some t := by
  have hsetFree : ∀ {x : ℕ} {r : Reslist}, r.id = (s.request x).id → q.free (s.set x r) :=
    fun hr y hy => by
      rw [set_id hr]
      exact hq.2.2.2 y hy
  rw [Resolver.resReadreply]
  split
  · exact ⟨s, rfl⟩
  split
  · rename_i hfind
    rw [Resolver.findId, h.pending hs] at hfind
    cases hfind
  · exact ⟨s, rfl⟩
  rename_i p hfind
  have hp := h.findId hs hfind
  split
  · rw [Resolver.noAnswer]
    split
    · exact ⟨_, rfl⟩
    split
    · have hset := h.set (p := p) (r := { s.request p with
        timeout := (s.request p).timeout + env.resTimeout }) rfl rfl rfl rfl
      exact (hset.2.resendQuery_defined hs (hsetFree rfl)).imp fun _ => And.left
    split
    · have hset := h.set (p := p) (r := { s.request p with
        state := .int, timeout := (s.request p).timeout + env.resTimeout }) rfl rfl rfl rfl
      exact (hset.2.resendQuery_defined hs (hsetFree rfl)).imp fun _ => And.left
    · exact ⟨s, rfl⟩
  obtain ⟨hcallback, hctx, hid, hsends, -⟩ := procAnswers_keeps env reply.buf reply.eob reply.ancount
    (skipQuestions env reply.buf reply.eob reply.qdcount 12) (s.request p)
  have hset := h.set (p := p) (r := (procAnswer env (s.request p) reply).2) hcallback hctx hid hsends
  dsimp only
  split
  · rw [Resolver.answer]
    split
    · split
      · exact ⟨_, rfl⟩
      · obtain ⟨t, ht⟩ := hset.2.doQueryName_defined (hset.2.ctx p hp) ⟨hq.1, hq.2.1, hq.2.2.1, hsetFree hid⟩
        exact ⟨_, bind_eq_some_iff.mpr ⟨t, ht, rfl⟩⟩
    · exact ⟨_, rfl⟩
  split
  · exact ⟨_, rfl⟩
  · exact ⟨_, rfl⟩

lemma Linked.timeoutLoop_defined {q : ℕ → Query} : (n : ℕ) → (r : List ℕ) → ∀ {s : State} {l : List ℕ}
    {a : ℕ}, r.length < n → Linked s (l ++ r) → s.started = true →
    (∀ x ∈ r, (q x).free s ∧ ∀ y ∈ r, x ≠ y → (q x).id % 2 ^ 16 ≠ (q y).id % 2 ^ 16) →
    ∃ t, Resolver.timeoutLoop env q n s ((r ++ [0]).head (by simp)) a = some t
  | n + 1, [], s, l, a, _, _, _, _ => by
    rw [Resolver.timeoutLoop]
    simp only [nil_append, head_cons, if_true]
    exact ⟨_, rfl⟩
  | n + 1, x :: r, s, l, a, hn, h, hs, hq => by
    obtain ⟨hx, hlive, hnext⟩ := h.next
    have hring := h.ring
    rw [if_pos hs] at hring
    have hxr : x ∉ r := (nodup_cons.mp (List.nodup_append.mp (nodup_cons.mp hring.nodup).2).2.1).1
    have hqx := (hq x mem_cons_self).1
    rw [Resolver.timeoutLoop]
    simp only [cons_append, head_cons, if_neg hx, if_neg (not_not_intro hlive), hnext]
    split
    · split
      · refine Linked.timeoutLoop_defined n r (Nat.lt_of_succ_lt_succ hn) (h.call x).remRequest hs
          fun y hy => ⟨fun z hz => ?_, fun z hz => (hq y (mem_cons_of_mem _ hy)).2 z
            (mem_cons_of_mem _ hz)⟩
        exact (hq y (mem_cons_of_mem _ hy)).1 z (List.mem_of_mem_filter hz)
      · have hset := h.set (p := x) (r := { s.request x with
          retries := (s.request x).retries - 1, sentat := s.currentTime
          timeout := (s.request x).timeout + (s.request x).timeout }) rfl rfl rfl rfl
        obtain ⟨v, hv⟩ : ∃ v, v = s.set x { s.request x with
          retries := (s.request x).retries - 1, sentat := s.currentTime
          timeout := (s.request x).timeout + (s.request x).timeout } := ⟨_, rfl⟩
        have hid : ∀ y, (v.request y).id = (s.request y).id := fun y => by
          rw [hv]
          exact set_id rfl
        rw [← hv] at hset ⊢
        have hfree : (q x).free v := fun y hy => by
          rw [hid]
          exact hqx y (hset.1.live ▸ hy)
        obtain ⟨u, hu, hdraws⟩ := hset.2.resendQuery_defined (p := x) (hset.1.started.trans hs) hfree
        rw [hu]
        have hsent := hset.2.resendQuery (hset.1.started.trans hs) hu
        have hlinked := hsent.2
        rw [append_cons] at hlinked
        refine Linked.timeoutLoop_defined n r (Nat.lt_of_succ_lt_succ hn) hlinked
          ((hsent.1.started.trans hset.1.started).trans hs)
          fun y hy => ⟨fun z hz => ?_, fun z hz => (hq y (mem_cons_of_mem _ hy)).2 z
            (mem_cons_of_mem _ hz)⟩
        obtain hold | ⟨-, hdrawn⟩ := hdraws z
        · rw [hold, hid]
          exact (hq y (mem_cons_of_mem _ hy)).1 z (hset.1.live ▸ hsent.1.live ▸ hz)
        · rw [hdrawn]
          exact (hq x mem_cons_self).2 y (mem_cons_of_mem _ hy) fun e => hxr (e ▸ hy)
    · rw [append_cons] at h
      exact Linked.timeoutLoop_defined n r (Nat.lt_of_succ_lt_succ hn) h hs fun y hy =>
        ⟨(hq y (mem_cons_of_mem _ hy)).1, fun z hz => (hq y (mem_cons_of_mem _ hy)).2 z
          (mem_cons_of_mem _ hz)⟩

lemma Linked.deleteLoop_defined (vptr : ℕ) : (n : ℕ) → (r : List ℕ) → ∀ {s : State} {l : List ℕ},
    r.length < n → Linked s (l ++ r) →
    ∃ t, Resolver.deleteLoop vptr n s ((r ++ [0]).head (by simp)) = some t
  | n + 1, [], s, l, _, _ => by
    rw [Resolver.deleteLoop]
    simp only [nil_append, head_cons, if_true]
    exact ⟨_, rfl⟩
  | n + 1, x :: r, s, l, hn, h => by
    obtain ⟨hx, hlive, hnext⟩ := h.next
    rw [Resolver.deleteLoop]
    simp only [cons_append, head_cons, if_neg hx, if_neg (not_not_intro hlive), hnext]
    split
    · exact Linked.deleteLoop_defined vptr n r (Nat.lt_of_succ_lt_succ hn) h.remRequest
    · rw [append_cons] at h
      exact Linked.deleteLoop_defined vptr n r (Nat.lt_of_succ_lt_succ hn) h

lemma Linked.timeoutResolver_defined (h : Linked s l) (env : Env) (hs : s.started = true) {q : ℕ → Query}
    (hq : ∀ x ∈ s.live, (q x).free s ∧ ∀ y ∈ s.live, x ≠ y → (q x).id % 2 ^ 16 ≠ (q y).id % 2 ^ 16) :
    ∃ t, Resolver.timeoutResolver env s q = some t := by
  obtain ⟨hnext, hlen⟩ := h.first hs
  obtain ⟨t, ht⟩ : ∃ t, Resolver.timeoutLoop env q (s.live.length + 1) s ((l ++ [0]).head (by simp)) 0 =
      some t :=
    Linked.timeoutLoop_defined (l := []) _ l hlen h hs fun x hx =>
      ⟨(hq x (h.perm.subset hx)).1, fun y hy => (hq x (h.perm.subset hx)).2 y (h.perm.subset hy)⟩
  rw [← hnext] at ht
  exact ⟨_, bind_eq_some_iff.mpr ⟨t, ht, rfl⟩⟩

lemma Linked.step_defined (h : Linked s l) (hs : s.started = true) {e : Event} (hq : s.supplied e) :
    ∃ t, s.step env e = some t := by
  cases e with
  | tick now => exact ⟨_, rfl⟩
  | gethostByname name ctx p q =>
    exact (h.lookup ctx).doQueryName_defined List.getElem?_concat_length hq
  | gethostByaddr addr junk ctx p q =>
    exact (h.lookup ctx).doQueryNumber_defined List.getElem?_concat_length hq
  | reply reply new q => exact h.resReadreply_defined hs hq
  | delete vptr =>
    obtain ⟨hnext, hlen⟩ := h.first hs
    obtain ⟨t, ht⟩ := Linked.deleteLoop_defined vptr _ l (l := []) hlen h
    rw [← hnext] at ht
    exact ⟨_, bind_eq_some_iff.mpr ⟨t, by rw [if_pos hs]; exact ht, rfl⟩⟩
  | timerRun q =>
    simp only [State.step, timerRun]
    split
    · have htimer := h.timer { s.timer with onqueue := false, marked := true }
      obtain ⟨t, ht⟩ := htimer.2.timeoutResolver_defined env hs hq
      exact ⟨_, bind_eq_some_iff.mpr ⟨t, ht, rfl⟩⟩
    · exact ⟨s, rfl⟩
  | expire q => exact h.timeoutResolver_defined env hs hq

end Sound

/-- **The discipline of the lookups**: when no reply that has answers, but none that can be read, comes for a
request that was sent to nobody, each callback is called at most once and not after the deletion of its context,
each other lookup has exactly one request, the requests are linked, and those with a query have distinct ids;
when the system gives what is free, no further event uses a freed request or loses its way in the ring. -/
theorem lookups_disciplined (env : Env) (currentTime : ℕ) (links : Links ℕ) (request : ℕ → Reslist)
    (es : List Event) (t : State)
    (hmeets : Runs.Meets (State.step env) (fun s e => s.allowed e && s.fits env e)
      (State.start currentTime links request) es)
    (hrun : Runs.run (State.step env) (State.start currentTime links request) es = some t) :
    t.answered.Nodup ∧ (∀ k ∈ t.answered, k ∉ t.deleted) ∧
      (∀ k < t.lookups.length, k ∉ t.answered → k ∉ t.deleted → ∃! p, p ∈ t.live ∧ (t.request p).callback = k) ∧
      (∃ l, l.Perm t.live ∧ (t.started = true → Ring t.links 0 l)) ∧ Distinct t t.live ∧
      (t.started = true → ∀ e, t.supplied e → ∃ u, t.step env e = some u) := by
  have hstart : Sound (State.start currentTime links request) [] :=
    ⟨⟨rfl, List.Perm.refl _, fun x hx => (nomatch hx), fun x hx => (nomatch hx)⟩,
      List.nodup_nil, fun k => ⟨fun hk => (nomatch hk), fun hk => absurd hk.1 (Nat.not_lt_zero k)⟩,
      List.nodup_nil, fun k hk => (nomatch hk), fun k hk => (nomatch hk)⟩
  obtain ⟨l, hsound⟩ := Runs.Meets.of_run (P := fun s => ∃ l, Sound s l)
    (fun s e t ⟨l, h⟩ hcond hstep => by
      rw [Bool.and_eq_true] at hcond
      exact h.step hcond.1 hcond.2 hstep) es ⟨[], hstart⟩ hmeets hrun
  have hperm := hsound.linked.perm
  refine ⟨hsound.books.once, hsound.books.disjoint, fun k hk hanswered hdeleted => ?_,
    ⟨l, hperm, fun hs => ?_⟩, fun x hx y hy => ?_, fun hs e hq => hsound.linked.step_defined hs hq⟩
  · have hin := (hsound.books.isOpen k).mpr ⟨hk, hanswered, hdeleted⟩
    obtain ⟨p, hp, hcallback⟩ := List.mem_map.mp hin
    refine ⟨p, ⟨hperm.subset hp, hcallback⟩, fun y hy => ?_⟩
    exact List.inj_on_of_nodup_map hsound.books.nodup (hperm.symm.subset hy.1) hp (hy.2.trans hcallback.symm)
  · have hring := hsound.linked.ring
    rwa [if_pos hs] at hring
  · exact hsound.linked.ids x (hperm.symm.subset hx) y (hperm.symm.subset hy)

/-- A name of at most one label. `ircd_reslib.c` `irc_dn_expand`. -/
def exampleExpand (buf : ℕ → ℕ) (_eob i : ℕ) : ℤ × Str :=
  if buf i = 0 then (1, [])
  else if buf i < 64 ∧ buf (i + buf i + 1) = 0 then
    (buf i + 2, (List.range (buf i)).map fun j => Char.ofNat (buf (i + 1 + j)))
  else (-1, [])

def exampleEnv : Env where
  resRetries := 2
  resTimeout := 4
  ircDomain := []
  ipv6 := true
  mkquery _ _ := true
  dnExpand := exampleExpand
  dnSkipname buf eob i := (exampleExpand buf eob i).1

def exampleReply (id type : ℕ) (data : List ℕ) : Reply where
  id := id
  rcode := 0
  qdcount := 0
  ancount := 1
  buf i := (List.replicate 12 0 ++ [0, 0, type, 0, 1, 0, 0, 0, 0, 0, data.length] ++ data).getD i 0
  eob := 23 + data.length

/-- A reverse lookup goes on with the name that was found and is answered, a lookup is deleted, and one
times out twice. -/
theorem lookups_disciplined_example : ∃ t, Runs.run (State.step exampleEnv)
      (State.start 100 ⟨id, id⟩ fun _ => ⟨0, 0, .idle, 0, 0, 0, true, 0, 0, [], none, 0, 0⟩)
      [.gethostByaddr [0, 0, 0, 0, 0, 0, 257, 257] [] 7 1 ⟨5, 1⟩, .gethostByname ['h'] 8 2 ⟨6, 1⟩,
        .gethostByname ['k'] 9 3 ⟨7, 1⟩, .reply (exampleReply 5 12 [1, 104, 0]) 4 ⟨8, 1⟩, .delete 8,
        .reply (exampleReply 8 1 [1, 1, 1, 1]) 5 ⟨9, 1⟩, .tick 110, .expire fun _ => ⟨10, 1⟩, .tick 120,
        .expire fun _ => ⟨11, 1⟩] = some t ∧ t.answered.Nodup ∧ t.answered = [0, 2] ∧ t.deleted = [1] := by
  obtain ⟨t, ht⟩ := Option.isSome_iff_exists.mp (show (Runs.run (State.step exampleEnv)
      (State.start 100 ⟨id, id⟩ fun _ => ⟨0, 0, .idle, 0, 0, 0, true, 0, 0, [], none, 0, 0⟩)
      [.gethostByaddr [0, 0, 0, 0, 0, 0, 257, 257] [] 7 1 ⟨5, 1⟩, .gethostByname ['h'] 8 2 ⟨6, 1⟩,
        .gethostByname ['k'] 9 3 ⟨7, 1⟩, .reply (exampleReply 5 12 [1, 104, 0]) 4 ⟨8, 1⟩, .delete 8,
        .reply (exampleReply 8 1 [1, 1, 1, 1]) 5 ⟨9, 1⟩, .tick 110, .expire fun _ => ⟨10, 1⟩, .tick 120,
        .expire fun _ => ⟨11, 1⟩]).isSome from by decide +kernel)
  have hanswered : t.answered = [0, 2] ∧ t.deleted = [1] := by
    have hboth := congrArg (Option.map fun s : State => (s.answered, s.deleted)) ht
    rw [map_some, show Option.map _ _ = some (([0, 2] : List ℕ), ([1] : List ℕ)) from by
      decide +kernel, Option.some.injEq, Prod.mk.injEq] at hboth
    exact ⟨hboth.1.symm, hboth.2.symm⟩
  exact ⟨t, ht, (lookups_disciplined exampleEnv 100 _ _ _ t (by decide +kernel) ht).1, hanswered⟩

/-- **A lookup is dropped**: its query is sent to nobody, a reply with its id and an answer of another type
comes, and the request goes without a callback. -/
theorem lookup_dropped : ∃ (es : List Event) (t : State), Runs.Meets (State.step exampleEnv) State.allowed
      (State.start 100 ⟨id, id⟩ fun _ => ⟨0, 0, .idle, 0, 0, 0, true, 0, 0, [], none, 0, 0⟩) es ∧
    Runs.run (State.step exampleEnv)
      (State.start 100 ⟨id, id⟩ fun _ => ⟨0, 0, .idle, 0, 0, 0, true, 0, 0, [], none, 0, 0⟩) es = some t ∧
    0 < t.lookups.length ∧ 0 ∉ t.answered ∧ 0 ∉ t.deleted ∧ t.live = [] := by
  refine ⟨[.gethostByname ['h'] 7 1 ⟨5, 0⟩, .reply (exampleReply 5 1 [1, 1, 1, 1]) 2 ⟨6, 0⟩], _,
    by decide +kernel, rfl, ?_⟩
  decide +kernel

end Nefarious.Resolver
