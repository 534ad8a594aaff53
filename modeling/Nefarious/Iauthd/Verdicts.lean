import Nefarious.Iauthd.Answers
import Mathlib.Data.List.Perm.Basic

/-!
# The verdict on a client

A client waits with a lookup pending for every configured list.
-/

namespace Nefarious.Iauthd

open List (append_nil filter_append mem_cons_self mem_filter mem_map nil_perm perm_nil)

/-! ## The law -/

/-- The lists among some that the answers match. `dnsbl.ts` `matchesDNSBL`. -/
def matching (answers : Dnsbl → List Str) (lists : List Dnsbl) : List Dnsbl :=
  lists.filter (fun d => matchesDNSBL (answers d) d)

/-- The law: who is rejected. `tools/iauthd-ts/README.md` ("Features"). -/
def Rejected (lists : List Dnsbl) (account : Str) : Prop :=
  (∀ d ∈ lists, d.whitelist = false) ∧
    ((∃ d ∈ lists, d.block = some .all) ∨ (∃ d ∈ lists, d.block = some .anonymous) ∧ account = [])

/-- A line that is a rejection. `iauth.ts` `sendKill`. -/
def Out.isKill : Out → Bool
  | .kill _ _ => true
  | _ => false

def verdictLines (outs : List Out) : List Out := outs.filter (·.verdict.isSome)

/-! ## The turns of a client -/

/-- What can happen to a client that waits: the lookup of a list has its results, a Hurry, an account
by a line of the ircd, and an account by an authentication.
`iauth.ts` `handleLine` -/
inductive Turn
  | finishes (d : Dnsbl)
  | hurry
  | auth (account : Str)
  | login (account : Str)

def Turn.list : Turn → Option Dnsbl
  | .finishes d => some d
  | _ => none

/-- A turn of the client whose object is `r`. A line is about the client while its descriptor refers to
it.
`iauth.ts` `startDNSBLLookups`, `handleHurry`, `handleAuth`,
`handleSASLPlain` -/
def turn (cfg : Config) (answers : Dnsbl → List Str) (r : ℕ) (s : Daemon) : Turn → Daemon × List Out
  | .finishes d => finishLookup cfg s r d (answers d)
  | .hurry =>
    if s.clients (s.obj r).id = some r then handleHurry cfg (s.obj r).id s else (s, [])
  | .auth account =>
    if s.clients (s.obj r).id = some r then handleAuth cfg (s.obj r).id account s else (s, [])
  | .login account => (s.modify r (fun c => { c with account := some account }), [])

/-- Other clients have their turns: the object stays, and so does whether its descriptor refers to it. -/
structure Elsewhere (r : ℕ) (s s' : Daemon) : Prop where
  obj : s'.obj r = s.obj r
  entry : s'.clients (s.obj r).id = some r ↔ s.clients (s.obj r).id = some r

/-- The turns of a client one after the other, with the lines that are sent in them, while others have
theirs in between.
`iauth.ts` `handleLine` -/
inductive Turns (cfg : Config) (answers : Dnsbl → List Str) (r : ℕ) :
    List Turn → Daemon → List Out → Prop
  | done (s : Daemon) : Turns cfg answers r [] s []
  | turn {t : Turn} {ts : List Turn} {s s' : Daemon} {outs : List Out}
      (he : Elsewhere r (turn cfg answers r s t).1 s') (h : Turns cfg answers r ts s' outs) :
      Turns cfg answers r (t :: ts) s ((turn cfg answers r s t).2 ++ outs)

/-- A client that waits for all its lookups. `iauth.ts`
`handleClientIntro`, `startDNSBLLookups`. -/
structure Waiting (cfg : Config) (r : ℕ) (s : Daemon) : Prop where
  entry : s.clients (s.obj r).id = some r
  pending : (s.obj r).lookups.pending = (cfg.dnsbls.map (·.cfgNum)).toFinset
  waits : (s.obj r).hurry = true → cfg.dnsbls ≠ []
  whitelist : (s.obj r).whitelist = false
  block : (s.obj r).block = none
  cls : (s.obj r).cls = none
  marks : (s.obj r).marks = []

/-- The turns of a client up to its verdict: every lookup ends, in some order, and it has a Hurry unless
it has had one. -/
structure Complete (cfg : Config) (c : ClientState) (ts : List Turn) : Prop where
  lookups : (ts.filterMap Turn.list).Perm cfg.dnsbls
  hurry : c.hurry = true ∨ .hurry ∈ ts

/-- The verdict law for some lists, answers and an account: in every order one verdict is sent; where
the client has this account then, it is rejected iff the law says so, its marks are those of the
matching lists, and its class does not depend on the order.
`tools/iauthd-ts/README.md` ("Multiple DNSBLs") -/
def Lawful (cfg : Config) (answers : Dnsbl → List Str) (account : Str) : Prop :=
  ∃ cls, ∀ r s ts outs, Waiting cfg r s → Complete cfg (s.obj r) ts → Turns cfg answers r ts s outs →
    ∃ o c, verdictLines outs = [o] ∧ o.verdict = some c ∧ (c.account.getD [] = account →
        (o.isKill = true ↔ Rejected (matching answers cfg.dnsbls) account) ∧
          (∀ m, m ∈ c.marks ↔ m ≠ [] ∧ ∃ d ∈ matching answers cfg.dnsbls, d.mark = m) ∧
          c.cls = cls)

/-! ## What a client shows of the lists -/

/-- What the lookups that have ended have left in a client: the lists, in the order of their ends.
`iauth.ts` `handleDNSBLResponse` -/
structure Shows (answers : Dnsbl → List Str) (ended : List Dnsbl) (c : ClientState) : Prop where
  whitelist : c.whitelist = (matching answers ended).any (·.whitelist)
  block : c.block = ((matching answers ended).filterMap (·.block)).getLast?
  cls : c.cls = (((matching answers ended).map (·.cls)).filter (· ≠ [])).getLast?
  marks : ∀ m, m ∈ c.marks ↔ m ≠ [] ∧ ∃ d ∈ matching answers ended, d.mark = m

lemma matching_append (answers : Dnsbl → List Str) (ended : List Dnsbl) (d : Dnsbl) :
    matching answers (ended ++ [d]) =
      matching answers ended ++ if matchesDNSBL (answers d) d then [d] else [] := by
  simp [matching, filter_append, List.filter_singleton, Bool.cond_eq_ite]

lemma matchesDNSBL_nil (d : Dnsbl) : matchesDNSBL [] d = false := rfl

variable {answers : Dnsbl → List Str} {ended waits lists : List Dnsbl} {c : ClientState} {s : Daemon} {r : ℕ}
  {cfg : Config}

lemma Shows.response (h : Shows answers ended c) (d : Dnsbl) :
    Shows answers (ended ++ [d]) (handleDNSBLResponse d (answers d) c) := by
  unfold handleDNSBLResponse
  by_cases hm : matchesDNSBL (answers d) d = true
  · have hcond : ¬ (answers d = [] ∨ ¬ matchesDNSBL (answers d) d) := by
      rintro (h0 | h0)
      · rw [h0, matchesDNSBL_nil] at hm
        exact absurd hm (by decide)
      · exact h0 hm
    rw [if_neg hcond]
    constructor
    · simp only [matching_append, if_pos hm, List.any_append, h.whitelist, List.any_cons, List.any_nil,
        Bool.or_false]
    · rw [matching_append, if_pos hm, List.filterMap_append, List.getLast?_append, ← h.block]
      rcases hb : d.block with _ | b <;> simp [hb]
    · rw [matching_append, if_pos hm, List.map_append, filter_append, List.getLast?_append, ← h.cls]
      by_cases hc : d.cls = [] <;> simp [hc]
    · intro m
      simp only [matching_append, if_pos hm, List.mem_append, List.mem_singleton, or_and_right, exists_or,
        exists_eq_left]
      by_cases hd : d.mark ≠ [] ∧ d.mark ∉ c.marks
      · rw [if_pos hd, List.mem_append, List.mem_singleton, h.marks m]
        constructor
        · rintro (⟨h0, h1⟩ | rfl)
          · exact ⟨h0, .inl h1⟩
          · exact ⟨hd.1, .inr rfl⟩
        · rintro ⟨h0, h1 | rfl⟩
          · exact .inl ⟨h0, h1⟩
          · exact .inr rfl
      · rw [if_neg hd, h.marks m]
        refine and_congr_right fun h0 => ⟨.inl, ?_⟩
        rintro (h1 | rfl)
        · exact h1
        · have hin : d.mark ∈ c.marks := by
            by_contra hn
            exact hd ⟨h0, hn⟩
          exact ((h.marks d.mark).1 hin).2
  · rw [if_pos (.inr hm)]
    constructor
    · simp only [matching_append, if_neg hm, append_nil, h.whitelist]
    · simp only [matching_append, if_neg hm, append_nil, h.block]
    · simp only [matching_append, if_neg hm, append_nil, h.cls]
    · simp only [matching_append, if_neg hm, append_nil, h.marks, implies_true]

lemma Shows.congr {c' : ClientState}
    (h : Shows answers ended c) (hw : c'.whitelist = c.whitelist) (hb : c'.block = c.block)
    (hc : c'.cls = c.cls) (hm : c'.marks = c.marks) : Shows answers ended c' where
  whitelist := hw.trans h.whitelist
  block := hb.trans h.block
  cls := hc.trans h.cls
  marks m := by rw [hm]; exact h.marks m

/-! ## Up to the verdict -/

/-- A client on its way: the lists whose lookups have ended, and those whose lookups are pending. -/
structure OnWay (answers : Dnsbl → List Str) (r : ℕ) (ended waits : List Dnsbl) (s : Daemon) : Prop where
  entry : s.clients (s.obj r).id = some r
  pending : (s.obj r).lookups.pending = (waits.map (·.cfgNum)).toFinset
  answered : Shows answers ended (s.obj r)

/-- A decision about the client `c`: one verdict, which is a rejection iff its fields say so, and its
descriptor refers to it no more.
`iauth.ts` `handleClientUpdate` -/
structure Decides (c : ClientState) (r : ℕ) (res : Daemon × List Out) : Prop where
  verdict : ∃ o, verdictLines res.2 = [o] ∧ o.verdict = some c ∧ (o.isKill = true ↔ c.whitelist = false ∧
      (c.block = some .all ∨ (c.block = some .anonymous ∧ c.account.getD [] = [])))
  gone : res.1.clients (res.1.obj r).id ≠ some r

lemma verdictLines_pass (c : ClientState) (marks : List Str) :
    verdictLines (marks.map (Out.mark c) ++ [.done c]) = [.done c] := by
  have hmarks : (marks.map (Out.mark c)).filter (·.verdict.isSome) = [] := by
    rw [List.filter_eq_nil_iff]
    intro o ho
    obtain ⟨m, -, rfl⟩ := mem_map.1 ho
    exact Bool.false_ne_true
  rw [verdictLines, filter_append, hmarks]
  rfl

lemma decides_of_hurry (cfg : Config) (hh : (s.obj r).hurry = true)
    (hp : (s.obj r).lookups.pending = ∅) :
    Decides { s.obj r with hits := ∅ } r (handleClientUpdate cfg s r) := by
  have hgone : ∀ s' : Daemon, s'.obj = (s.modify r (fun c => { c with hits := ∅ })).obj →
      (s'.deleteClient (s.obj r).id).clients ((s'.deleteClient (s.obj r).id).obj r).id ≠ some r := by
    intro s' hs'
    have hid : ((s'.deleteClient (s.obj r).id).obj r).id = (s.obj r).id := by
      show (s'.obj r).id = _
      rw [hs', Daemon.modify_obj_self]
    rw [hid, Daemon.deleteClient_self]
    exact (Option.some_ne_none r).symm
  unfold handleClientUpdate
  rw [if_pos ⟨hh, Finset.card_eq_zero.2 hp⟩]
  simp only [Daemon.modify_obj_self]
  rcases hw : (s.obj r).whitelist with _ | _
  · rw [if_neg Bool.false_ne_true]
    by_cases hb : (s.obj r).block = some .all ∨
        ((s.obj r).block = some .anonymous ∧ (s.obj r).account.getD [] = [])
    · rw [if_pos hb]
      exact ⟨⟨_, rfl, rfl, by simpa [Out.isKill, hw] using hb⟩, hgone _ rfl⟩
    · rw [if_neg hb]
      exact ⟨⟨_, verdictLines_pass _ _, rfl, by simpa [Out.isKill, hw] using hb⟩, hgone _ rfl⟩
  · rw [if_pos rfl]
    exact ⟨⟨_, verdictLines_pass _ _, rfl, by simp [Out.isKill]⟩, hgone _ rfl⟩

lemma OnWay.update (cfg : Config) (h : OnWay answers r ended waits s) :
    ((s.obj r).hurry = true ∧ waits = [] ∧ Decides { s.obj r with hits := ∅ } r (handleClientUpdate cfg s r)) ∨
      (¬ ((s.obj r).hurry = true ∧ waits = []) ∧ handleClientUpdate cfg s r = (s, [])) := by
  have hempty : (s.obj r).lookups.pending = ∅ ↔ waits = [] := by
    rw [h.pending, List.toFinset_eq_empty_iff, List.map_eq_nil_iff]
  by_cases hd : (s.obj r).hurry = true ∧ waits = []
  · exact .inl ⟨hd.1, hd.2, decides_of_hurry cfg hd.1 (hempty.2 hd.2)⟩
  · refine .inr ⟨hd, handleClientUpdate_waits cfg ?_⟩
    rw [hempty]
    exact hd

lemma OnWay.finishes (cfg : Config) (h : OnWay answers r ended waits s) (hn : (waits.map (·.cfgNum)).Nodup)
    {d : Dnsbl} (hd : d ∈ waits) : ∃ s₁, OnWay answers r (ended ++ [d]) (waits.erase d) s₁ ∧ (s₁.obj r).hurry =
    (s.obj r).hurry ∧ (s₁.obj r).account = (s.obj r).account ∧ turn cfg answers r s (.finishes d) =
    handleClientUpdate cfg s₁ r := by
  have hsame := sameClient_response d (answers d) (s.obj r)
  have haccount : (handleDNSBLResponse d (answers d) (s.obj r)).account = (s.obj r).account := by
    unfold handleDNSBLResponse
    split <;> rfl
  have hperm : (waits.map (·.cfgNum)).Perm (d.cfgNum :: (waits.erase d).map (·.cfgNum)) :=
    (List.perm_cons_erase hd).map _
  have hnotin : d.cfgNum ∉ ((waits.erase d).map (·.cfgNum)).toFinset := by
    rw [List.mem_toFinset]
    exact (List.nodup_cons.1 (hperm.nodup_iff.1 hn)).1
  have hpending : (s.obj r).lookups.pending.erase d.cfgNum = ((waits.erase d).map (·.cfgNum)).toFinset := by
    rw [h.pending, List.toFinset_eq_of_perm _ _ hperm, List.toFinset_cons, Finset.erase_insert hnotin]
  refine ⟨(s.modify r (handleDNSBLResponse d (answers d))).modify r
    (fun c => { c with lookups := c.lookups.set d.cfgNum false }), ⟨?_, ?_, ?_⟩, ?_, ?_, rfl⟩
  · simp only [Daemon.modify_obj_self, Daemon.modify_clients]
    rw [hsame.id]
    exact h.entry
  · simp only [Daemon.modify_obj_self]
    rw [hsame.lookups]
    exact hpending
  · simp only [Daemon.modify_obj_self]
    exact (h.answered.response d).congr rfl rfl rfl rfl
  · simp only [Daemon.modify_obj_self]
    exact hsame.hurry
  · simp only [Daemon.modify_obj_self]
    exact haccount

lemma OnWay.modify
    (h : OnWay answers r ended waits s) {f : ClientState → ClientState}
    (hid : (f (s.obj r)).id = (s.obj r).id) (hl : (f (s.obj r)).lookups = (s.obj r).lookups)
    (hs : Shows answers ended (f (s.obj r))) : OnWay answers r ended waits (s.modify r f) where
  entry := by
    rw [Daemon.modify_obj_self, Daemon.modify_clients, hid]
    exact h.entry
  pending := by
    rw [Daemon.modify_obj_self, hl]
    exact h.pending
  answered := by
    rw [Daemon.modify_obj_self]
    exact hs

lemma OnWay.turn (cfg : Config) {answers : Dnsbl → List Str} {r : ℕ} {ended waits : List Dnsbl} {s : Daemon}
    (h : OnWay answers r ended waits s) (hopen : ¬ ((s.obj r).hurry = true ∧ waits = []))
    (hn : (waits.map (·.cfgNum)).Nodup) (t : Turn) (ht : ∀ d ∈ t.list, d ∈ waits) : ∃ s₁,
    OnWay answers r (ended ++ t.list.toList) (waits.diff t.list.toList) s₁ ∧ ((s₁.obj r).hurry = true ↔
    (s.obj r).hurry = true ∨ t = .hurry) ∧ ((∀ a, t ≠ .auth a ∧ t ≠ .login a) → (s₁.obj r).account =
    (s.obj r).account) ∧ Iauthd.turn cfg answers r s t = handleClientUpdate cfg s₁ r := by
  cases t with
  | finishes d =>
    obtain ⟨s₁, hon, hhurry, haccount, heq⟩ := h.finishes cfg hn (ht d rfl)
    refine ⟨s₁, ?_, ?_, fun _ => haccount, heq⟩
    · simpa [Turn.list, List.diff_cons] using hon
    · simp [hhurry]
  | hurry =>
    refine ⟨s.modify r (fun c => { c with hurry := true }), ?_, ?_, ?_, ?_⟩
    · simpa [Turn.list] using h.modify (f := fun c => { c with hurry := true }) rfl rfl
        (h.answered.congr rfl rfl rfl rfl)
    · simp
    · simp
    · simp only [Iauthd.turn, if_pos h.entry, handleHurry]
      rw [h.entry]
  | auth account =>
    refine ⟨s.modify r (fun c => { c with account := some account }), ?_, ?_, ?_, ?_⟩
    · simpa [Turn.list] using h.modify (f := fun c => { c with account := some account }) rfl rfl
        (h.answered.congr rfl rfl rfl rfl)
    · simp
    · exact fun ha => absurd rfl (ha account).1
    · simp only [Iauthd.turn, if_pos h.entry, handleAuth]
      rw [h.entry]
  | login account =>
    have hon := h.modify (f := fun c => { c with account := some account }) rfl rfl
      (h.answered.congr rfl rfl rfl rfl)
    refine ⟨s.modify r (fun c => { c with account := some account }), ?_, ?_, ?_, ?_⟩
    · simpa [Turn.list] using hon
    · simp
    · exact fun ha => absurd rfl (ha account).2
    · rcases hon.update cfg with ⟨hh, hw, -⟩ | ⟨-, heq⟩
      · rw [Daemon.modify_obj_self] at hh
        exact absurd ⟨hh, hw⟩ hopen
      · rw [heq]
        rfl

lemma Turns.silent {ts : List Turn} {outs : List Out} (h : Turns cfg answers r ts s outs) :
    ts.filterMap Turn.list = [] → s.clients (s.obj r).id ≠ some r → outs = [] := by
  induction h with
  | done s => exact fun _ _ => rfl
  | @turn t ts s s' outs he h ih =>
    intro hlist hgone
    have hquiet : t.list = none ∧ (Iauthd.turn cfg answers r s t).2 = [] ∧
        (Iauthd.turn cfg answers r s t).1.clients ((Iauthd.turn cfg answers r s t).1.obj r).id ≠
          some r := by
      cases t with
      | finishes d => simp [Turn.list] at hlist
      | hurry =>
        refine ⟨rfl, ?_⟩
        simp only [Iauthd.turn, if_neg hgone]
        exact ⟨trivial, hgone⟩
      | auth account =>
        refine ⟨rfl, ?_⟩
        simp only [Iauthd.turn, if_neg hgone]
        exact ⟨trivial, hgone⟩
      | login account =>
        refine ⟨rfl, rfl, ?_⟩
        simp only [Iauthd.turn, Daemon.modify_obj_self, Daemon.modify_clients]
        exact hgone
    obtain ⟨hnone, houts, hgone'⟩ := hquiet
    rw [List.filterMap_cons_none hnone] at hlist
    rw [houts, List.nil_append]
    refine ih hlist ?_
    rw [he.obj]
    exact fun hc => hgone' (he.entry.1 hc)

lemma Turns.verdict {ts : List Turn}
    {outs : List Out} (h : Turns cfg answers r ts s outs) : ∀ {ended waits : List Dnsbl},
    OnWay answers r ended waits s → ¬ ((s.obj r).hurry = true ∧ waits = []) → (waits.map (·.cfgNum)).Nodup →
    (ts.filterMap Turn.list).Perm waits → ((s.obj r).hurry = true ∨ .hurry ∈ ts) → ∃ o c, verdictLines outs =
    [o] ∧ o.verdict = some c ∧ Shows answers (ended ++ ts.filterMap Turn.list) c ∧ (o.isKill = true ↔
    c.whitelist = false ∧ (c.block = some .all ∨ (c.block = some .anonymous ∧ c.account.getD [] = []))) ∧
    ((∀ a, .auth a ∉ ts ∧ .login a ∉ ts) → c.account = (s.obj r).account) := by
  induction h with
  | done s =>
    intro ended waits hon hopen hn hperm hhurry
    have hwaits : waits = [] := nil_perm.1 hperm
    rcases hhurry with hh | hh
    · exact absurd ⟨hh, hwaits⟩ hopen
    · exact absurd hh List.not_mem_nil
  | @turn t ts s s' outs he h ih =>
    intro ended waits hon hopen hn hperm hhurry
    -- the list of this turn is one that is waited for, and the others are waited for behind it
    have hlist : (t :: ts).filterMap Turn.list = t.list.toList ++ ts.filterMap Turn.list := by
      cases hl : t.list with
      | none => rw [List.filterMap_cons_none hl]; rfl
      | some d => rw [List.filterMap_cons_some hl]; rfl
    rw [hlist] at hperm ⊢
    have ht : ∀ d ∈ t.list, d ∈ waits := fun d hd =>
      hperm.subset (List.mem_append_left _ (Option.mem_toList.2 hd))
    have hperm' : (ts.filterMap Turn.list).Perm (waits.diff t.list.toList) := by
      cases hl : t.list with
      | none =>
        rw [hl] at hperm
        simpa using hperm
      | some d =>
        rw [hl] at hperm
        simpa [List.diff_cons] using (List.cons_perm_iff_perm_erase.1 hperm).2
    have hn' : ((waits.diff t.list.toList).map (·.cfgNum)).Nodup := hn.sublist ((List.diff_sublist _ _).map _)
    obtain ⟨s₁, hon₁, hhurry₁, haccount, heq⟩ := hon.turn cfg hopen hn t ht
    have hplain : (∀ a, .auth a ∉ t :: ts ∧ .login a ∉ t :: ts) → (s₁.obj r).account = (s.obj r).account :=
      fun ha => haccount fun a => ⟨fun hc => (ha a).1 (hc ▸ mem_cons_self),
        fun hc => (ha a).2 (hc ▸ mem_cons_self)⟩
    rcases hon₁.update cfg with ⟨-, hw, hdec⟩ | ⟨hopen₁, hquiet⟩
    · rw [← heq] at hdec
      obtain ⟨o, ho, hc, hk⟩ := hdec.verdict
      have hrest : ts.filterMap Turn.list = [] := by
        rw [hw] at hperm'
        exact perm_nil.1 hperm'
      have hsilent : outs = [] := by
        refine h.silent hrest ?_
        rw [he.obj]
        exact fun hc => hdec.gone (he.entry.1 hc)
      refine ⟨o, _, ?_, hc, ?_, hk, hplain⟩
      · rw [hsilent, append_nil]
        exact ho
      · rw [hrest, append_nil]
        exact hon₁.answered.congr rfl rfl rfl rfl
    · rw [heq, hquiet] at he ⊢
      have hon' : OnWay answers r (ended ++ t.list.toList) (waits.diff t.list.toList) s' := by
        constructor
        · rw [he.obj]
          exact he.entry.2 hon₁.entry
        · rw [he.obj]
          exact hon₁.pending
        · rw [he.obj]
          exact hon₁.answered
      obtain ⟨o, c, ho, hc, hshow, hk, hacc⟩ := ih hon' (by rwa [he.obj]) hn' hperm' (by
        rw [he.obj, hhurry₁]
        rcases hhurry with hh | hh
        · exact .inl (.inl hh)
        · rcases List.mem_cons.1 hh with hh | hh
          · exact .inl (.inr hh.symm)
          · exact .inr hh)
      refine ⟨o, c, ho, hc, ?_, hk, fun ha => ?_⟩
      · rwa [List.append_assoc] at hshow
      · rw [hacc fun a => ⟨fun hm => (ha a).1 (List.mem_cons_of_mem _ hm),
          fun hm => (ha a).2 (List.mem_cons_of_mem _ hm)⟩, he.obj]
        exact hplain ha

/-! ## Every order -/

lemma Waiting.onWay (h : Waiting cfg r s)
    (answers : Dnsbl → List Str) : OnWay answers r [] cfg.dnsbls s where
  entry := h.entry
  pending := h.pending
  answered := ⟨h.whitelist, h.block, h.cls, fun m => by simp [h.marks, matching]⟩

lemma Waiting.verdict {ts : List Turn} {outs : List Out} (h : Waiting cfg r s)
    (hc : Complete cfg (s.obj r) ts) (hT : Turns cfg answers r ts s outs) : ∃ o c, verdictLines outs = [o] ∧
    o.verdict = some c ∧ Shows answers (ts.filterMap Turn.list) c ∧ (o.isKill = true ↔ c.whitelist = false ∧
    (c.block = some .all ∨ (c.block = some .anonymous ∧ c.account.getD [] = []))) ∧ ((∀ a, .auth a ∉ ts ∧
    .login a ∉ ts) → c.account = (s.obj r).account) :=
  hT.verdict (h.onWay answers) (fun hw => h.waits hw.1 hw.2) cfg.nodup hc.lookups hc.hurry

lemma matching_perm (answers : Dnsbl → List Str) {lists' : List Dnsbl} (h : lists.Perm lists') :
    (matching answers lists).Perm (matching answers lists') := h.filter _

lemma getLast?_block_iff {modes : List Block} {p : Prop} (h : ¬ (.all ∈ modes ∧ .anonymous ∈ modes ∧ ¬ p)) :
    (modes.getLast? = some .all ∨ (modes.getLast? = some .anonymous ∧ p)) ↔
      (.all ∈ modes ∨ (.anonymous ∈ modes ∧ p)) := by
  constructor
  · rintro (hl | ⟨hl, hp⟩)
    · exact .inl (List.mem_of_getLast? hl)
    · exact .inr ⟨List.mem_of_getLast? hl, hp⟩
  · intro hm
    have hne : modes ≠ [] := by
      rintro rfl
      rcases hm with hm | ⟨hm, -⟩ <;> exact List.not_mem_nil hm
    rw [List.getLast?_eq_some_getLast hne]
    have hlast := List.getLast_mem hne
    cases hb : modes.getLast hne with
    | all => exact .inl rfl
    | anonymous =>
      rw [hb] at hlast
      refine .inr ⟨rfl, ?_⟩
      rcases hm with hm | ⟨-, hp⟩
      · by_contra hp
        exact h ⟨hm, hlast, hp⟩
      · exact hp

lemma mem_modes {b : Block} :
    b ∈ lists.filterMap (·.block) ↔ ∃ d ∈ lists, d.block = some b := List.mem_filterMap

/-- No matching list that blocks all comes with one that blocks anonymous clients, where that makes a
difference. -/
def NoConflict (lists : List Dnsbl) (account : Str) : Prop :=
  (∃ d ∈ lists, d.whitelist = true) ∨ account = [] ∨ (∀ d ∈ lists, d.block ≠ some .all) ∨
    ∀ d ∈ lists, d.block ≠ some .anonymous

/-- No two matching lists assign different classes. -/
def OneClass (lists : List Dnsbl) : Prop :=
  ∀ d ∈ lists, ∀ d' ∈ lists, d.cls ≠ [] → d'.cls ≠ [] → d.cls = d'.cls

lemma Shows.rejected (h : Shows answers ended c) (hperm : ended.Perm lists)
    (hno : NoConflict (matching answers lists) (c.account.getD [])) : (c.whitelist = false ∧ (c.block =
    some .all ∨ (c.block = some .anonymous ∧ c.account.getD [] = []))) ↔
    Rejected (matching answers lists) (c.account.getD []) := by
  have hm := matching_perm answers hperm
  have hwhite : c.whitelist = false ↔ ∀ d ∈ matching answers lists, d.whitelist = false := by
    rw [h.whitelist, List.any_eq_false]
    exact ⟨fun hw d hd => by simpa using hw d (hm.mem_iff.2 hd),
      fun hw d hd => by simpa using hw d (hm.mem_iff.1 hd)⟩
  have hmodes : ∀ b, b ∈ (matching answers ended).filterMap (·.block) ↔
      ∃ d ∈ matching answers lists, d.block = some b := fun b => by
    rw [(hm.filterMap _).mem_iff, mem_modes]
  rw [hwhite]
  refine and_congr_right fun hw => ?_
  rw [h.block, getLast?_block_iff, hmodes, hmodes]
  rintro ⟨hall, hanon, hp⟩
  obtain ⟨d, hd, hdb⟩ := (hmodes _).1 hall
  obtain ⟨e, he, heb⟩ := (hmodes _).1 hanon
  rcases hno with ⟨x, hx, hxw⟩ | h0 | h0 | h0
  · exact absurd (hw x hx) (by simp [hxw])
  · exact hp h0
  · exact h0 d hd hdb
  · exact h0 e he heb

lemma getLast?_eq_head?_of_perm {α : Type*} {l l' : List α} (h : l.Perm l')
    (hsame : ∀ x ∈ l', ∀ y ∈ l', x = y) : l.getLast? = l'.head? := by
  cases l' with
  | nil => rw [perm_nil.1 h]; rfl
  | cons y l' =>
    have hne : l ≠ [] := by
      rintro rfl
      exact List.cons_ne_nil y l' (nil_perm.1 h)
    rw [List.getLast?_eq_some_getLast hne, List.head?_cons]
    exact congrArg some (hsame _ (h.mem_iff.1 (List.getLast_mem hne)) _ mem_cons_self)

/-- A client that waits for its lookups. -/
def waitingClient (cfg : Config) (account : Str) : Daemon :=
  Daemon.start.addClient { newClient 0 [] 0 [] 0 false none with
    lookups := ⟨(cfg.dnsbls.map (·.cfgNum)).toFinset, (cfg.dnsbls.map (·.cfgNum)).toFinset⟩,
    account := some account }

lemma waiting_waitingClient (cfg : Config) (account : Str) : Waiting cfg 0 (waitingClient cfg account) where
  entry := Daemon.addClient_self ..
  pending := rfl
  waits := fun h => absurd h Bool.false_ne_true
  whitelist := rfl
  block := rfl
  cls := rfl
  marks := rfl

lemma exists_turns (cfg : Config) (answers : Dnsbl → List Str) (r : ℕ) :
    (ts : List Turn) → (s : Daemon) → ∃ outs, Turns cfg answers r ts s outs
  | [], s => ⟨[], .done s⟩
  | t :: ts, s => by
    obtain ⟨outs, h⟩ := exists_turns cfg answers r ts (turn cfg answers r s t).1
    exact ⟨_, .turn ⟨rfl, Iff.rfl⟩ h⟩

/-- The turns of a client whose lookups end in an order and that has a Hurry then. -/
def orderly (order : List Dnsbl) : List Turn := order.map .finishes ++ [.hurry]

lemma list_orderly (order : List Dnsbl) : (orderly order).filterMap Turn.list = order := by
  have hfin : (order.map Turn.finishes).filterMap Turn.list = order := by
    rw [List.filterMap_map]
    exact List.filterMap_some
  rw [orderly, List.filterMap_append, hfin]
  exact append_nil order

lemma exists_verdict (cfg : Config) (answers : Dnsbl → List Str) (account : Str) {order : List Dnsbl}
    (hperm : order.Perm cfg.dnsbls) : ∃ r s ts outs o c, Waiting cfg r s ∧ Complete cfg (s.obj r) ts ∧
    Turns cfg answers r ts s outs ∧ verdictLines outs = [o] ∧ o.verdict = some c ∧ Shows answers order c ∧
    c.account = some account ∧ (o.isKill = true ↔ c.whitelist = false ∧ (c.block = some .all ∨ (c.block =
    some .anonymous ∧ c.account.getD [] = []))) := by
  have hw := waiting_waitingClient cfg account
  have hcomplete : Complete cfg ((waitingClient cfg account).obj 0) (orderly order) :=
    ⟨by rwa [list_orderly], .inr (List.mem_append_right _ mem_cons_self)⟩
  obtain ⟨outs, hT⟩ := exists_turns cfg answers 0 (orderly order) (waitingClient cfg account)
  obtain ⟨o, c, ho, hc, hshow, hk, hacc⟩ := hw.verdict hcomplete hT
  rw [list_orderly] at hshow
  refine ⟨0, _, _, outs, o, c, hw, hcomplete, hT, ho, hc, hshow, ?_, hk⟩
  rw [hacc fun a => ⟨by simp [orderly], by simp [orderly]⟩]
  rfl

lemma perm_last {d : Dnsbl}
    (hd : d ∈ matching answers cfg.dnsbls) : (cfg.dnsbls.erase d ++ [d]).Perm cfg.dnsbls :=
  (List.perm_append_singleton d _).trans (List.perm_cons_erase (mem_filter.1 hd).1).symm

/-- **The law of the verdict** holds for some lists, answers and an account iff there is no conflict of modes
that matters, and no two matching lists assign different classes. -/
theorem lawful_iff (cfg : Config) (answers : Dnsbl → List Str) (account : Str) : Lawful cfg answers account ↔
      NoConflict (matching answers cfg.dnsbls) account ∧ OneClass (matching answers cfg.dnsbls) := by
  constructor
  · rintro ⟨cls, h⟩
    -- what the law says of an order in which a given list comes last
    have hlast : ∀ d ∈ matching answers cfg.dnsbls, ∃ o c,
        Shows answers (cfg.dnsbls.erase d ++ [d]) c ∧ c.account = some account ∧
        (o.isKill = true ↔ c.whitelist = false ∧
          (c.block = some .all ∨ (c.block = some .anonymous ∧ c.account.getD [] = []))) ∧
        (Out.isKill o = true ↔ Rejected (matching answers cfg.dnsbls) account) ∧ c.cls = cls := by
      intro d hd
      obtain ⟨r, s, ts, outs, o, c, hw, hcomplete, hT, ho, hc, hshow, hacc, hk⟩ :=
        exists_verdict cfg answers account (perm_last hd)
      obtain ⟨o', c', ho', hc', hlaw⟩ := h r s ts outs hw hcomplete hT
      obtain rfl : o = o' := List.singleton_inj.1 (ho.symm.trans ho')
      obtain rfl : c = c' := Option.some_inj.1 (hc.symm.trans hc')
      obtain ⟨hrej, -, hcls⟩ := hlaw (by rw [hacc]; rfl)
      exact ⟨o, c, hshow, hacc, hk, hrej, hcls⟩
    have hmatch : ∀ d ∈ matching answers cfg.dnsbls,
        matching answers (cfg.dnsbls.erase d ++ [d]) = matching answers (cfg.dnsbls.erase d) ++ [d] := by
      intro d hd
      rw [matching_append, if_pos (mem_filter.1 hd).2]
    constructor
    · by_contra hconf
      unfold NoConflict at hconf
      push Not at hconf
      obtain ⟨hwhite, hacct, ⟨d, hd, hdb⟩, e, he, heb⟩ := hconf
      obtain ⟨o, c, hshow, hacc, hk, hrej, -⟩ := hlast e he
      have hblock : c.block = some .anonymous := by
        rw [hshow.block, hmatch e he, List.filterMap_append, List.getLast?_append]
        simp [heb]
      have hkill : o.isKill = true := hrej.2 ⟨fun x hx => Bool.eq_false_iff.2 (hwhite x hx), .inl ⟨d, hd, hdb⟩⟩
      rcases (hk.1 hkill).2 with hb | ⟨-, hnone⟩
      · rw [hblock] at hb
        exact absurd hb (by decide)
      · rw [hacc] at hnone
        exact hacct hnone
    · have hcls : ∀ d ∈ matching answers cfg.dnsbls, d.cls ≠ [] → cls = some d.cls := by
        intro d hd hne
        obtain ⟨o, c, hshow, -, -, -, hc⟩ := hlast d hd
        rw [← hc, hshow.cls, hmatch d hd, List.map_append, filter_append, List.getLast?_append]
        simp [hne]
      intro d hd d' hd' hne hne'
      exact Option.some_inj.1 ((hcls d hd hne).symm.trans (hcls d' hd' hne'))
  · rintro ⟨hno, hone⟩
    refine ⟨(((matching answers cfg.dnsbls).map (·.cls)).filter (· ≠ [])).head?, ?_⟩
    intro r s ts outs hw hcomplete hT
    obtain ⟨o, c, ho, hc, hshow, hk, -⟩ := hw.verdict hcomplete hT
    have hm := matching_perm answers hcomplete.lookups
    refine ⟨o, c, ho, hc, ?_⟩
    rintro rfl
    refine ⟨hk.trans (hshow.rejected hcomplete.lookups hno), fun m => ?_, ?_⟩
    · rw [hshow.marks m]
      simp only [hm.mem_iff]
    · rw [hshow.cls]
      refine getLast?_eq_head?_of_perm ((hm.map _).filter _) ?_
      intro x hx y hy
      obtain ⟨hx, hxne⟩ := mem_filter.1 hx
      obtain ⟨hy, hyne⟩ := mem_filter.1 hy
      obtain ⟨d, hd, rfl⟩ := mem_map.1 hx
      obtain ⟨d', hd', rfl⟩ := mem_map.1 hy
      exact hone d hd d' hd' (by simpa using hxne) (by simpa using hyne)

/-- A list that blocks all and one that blocks anonymous clients; any answer matches. -/
def modesConfig : Config where
  dnsbls := [⟨1, "a".toList, [], [], [], some .all, false, [], none⟩,
    ⟨2, "b".toList, [], [], [], some .anonymous, false, [], none⟩]
  blockMsg := "blocked".toList
  cacheTime := 86400
  saslEnabled := true
  decodeSASLPlain := fun _ => none
  nodup := by decide

/-- **A client that a list blocks is let in**: it matches a list that blocks all and then one that blocks
anonymous clients, it has an account, and it passes; so the law does not hold. -/
theorem last_match_decides :
    (∃ outs, Turns modesConfig (fun _ => ["127.0.0.2".toList]) 0 (orderly modesConfig.dnsbls)
        (waitingClient modesConfig "alice".toList) outs ∧
      (verdictLines outs).map (fun o => (o.isKill, o.verdict.bind (·.account))) =
        [(false, some "alice".toList)]) ∧
      ¬ Lawful modesConfig (fun _ => ["127.0.0.2".toList]) "alice".toList := by
  have hrun : ∃ outs, Turns modesConfig (fun _ => ["127.0.0.2".toList]) 0 (orderly modesConfig.dnsbls)
        (waitingClient modesConfig "alice".toList) outs ∧
      (verdictLines outs).map (fun o => (o.isKill, o.verdict.bind (·.account))) =
        [(false, some "alice".toList)] :=
    ⟨_, .turn ⟨rfl, Iff.rfl⟩ (.turn ⟨rfl, Iff.rfl⟩ (.turn ⟨rfl, Iff.rfl⟩ (.done _))), by decide +kernel⟩
  refine ⟨hrun, ?_⟩
  rintro ⟨cls, h⟩
  obtain ⟨outs, hT, hverdict⟩ := hrun
  have hcomplete : Complete modesConfig ((waitingClient modesConfig "alice".toList).obj 0)
      (orderly modesConfig.dnsbls) :=
    ⟨by rw [list_orderly], .inr (List.mem_append_right _ mem_cons_self)⟩
  obtain ⟨o, c, ho, hc, hlaw⟩ := h 0 _ _ outs (waiting_waitingClient ..) hcomplete hT
  rw [ho, List.map_singleton, List.singleton_inj, Prod.mk.injEq, hc] at hverdict
  obtain ⟨hkill, haccount⟩ := hverdict
  have hrej : Rejected (matching (fun _ => ["127.0.0.2".toList]) modesConfig.dnsbls) "alice".toList := by
    refine ⟨by decide +kernel, .inl ?_⟩
    exact ⟨⟨1, "a".toList, [], [], [], some .all, false, [], none⟩, by decide +kernel, rfl⟩
  have haccount' : c.account = some "alice".toList := haccount
  rw [(hlaw (by rw [haccount']; rfl)).1.2 hrej] at hkill
  exact absurd hkill (by decide)

end Nefarious.Iauthd
