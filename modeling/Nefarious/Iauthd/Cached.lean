import Nefarious.Iauthd.Answers

/-!
# The cache of answers

A lookup uses the answers that the cache has for its query, or asks the name server and leaves the answers in
the cache.

Names: `iauth.ts`.
-/

namespace Nefarious.Iauthd

open Option (all_some mem_def some.inj some_inj some_ne_none)
open List (not_mem_nil)

/-! ## Completed queries and used answers -/

/-- A query that the name server has completed. -/
structure Completed where
  query : Str
  answers : List Str
  /-- When it was completed, in milliseconds. -/
  time : ℤ
  deriving DecidableEq

/-- The use of an answer. `startDNSBLLookups`. -/
structure Use where
  query : Str
  /-- The cache time of its list, in seconds. -/
  cacheTime : ℤ
  results : List Str
  /-- The query was made for this lookup. -/
  own : Bool
  /-- The entry of the query at that time. -/
  entry : Option CacheEntry

/-- The cache time of a list. `startDNSBLLookups` (`cacheTime`). -/
def cacheTimeOf (cfg : Config) (d : Dnsbl) : ℤ := d.cacheTime.getD cfg.cacheTime

/-- The query of a list. `startDNSBLLookups` (`query`). -/
def queryOf (reversedIp : Str) (d : Dnsbl) : Str := reversedIp ++ '.' :: d.server

/-- The use of the cache by a lookup that is started. `startDNSBLLookups` (`cached.result`). -/
def startUse (cfg : Config) (now : ℤ) (reversedIp : Str) (d : Dnsbl) (s : Daemon) : Option Use :=
  ((getCacheEntry s.cache (queryOf reversedIp d) (cacheTimeOf cfg d) now).1.bind (·.result)).map
    fun results => ⟨queryOf reversedIp d, cacheTimeOf cfg d, results, false,
      s.cache (queryOf reversedIp d)⟩

/-- The uses by lookups that are started one after the other. `startDNSBLLookups`. -/
def startUses (cfg : Config) (now : ℤ) (r : ℕ) (reversedIp : Str) : List Dnsbl → Daemon → List Use
  | [], _ => []
  | d :: ds, s => (startUse cfg now reversedIp d s).toList ++
      startUses cfg now r reversedIp ds (startLookup cfg now r reversedIp d s).1

/-- The uses by the lookups of a new object. `startDNSBLLookups`. -/
def clientUses (cfg : Config) (now : ℤ) (s : Daemon) (c : ClientState) : List Use :=
  match reverseIPv4 c.ip with
  | none => []
  | some reversedIp => startUses cfg now s.next reversedIp cfg.dnsbls (s.addClient c)

/-- The answers that an event puts to use. `startDNSBLLookups`. -/
def uses (cfg : Config) (now : ℤ) (s : Daemon) : Event → List Use
  | .intro id ip port serverIp serverPort =>
    if ip = [] ∨ (s.clients id).isSome then []
    else clientUses cfg now s (newClient id ip port serverIp serverPort false none)
  | .webirc id _ _ _ newIp =>
    match s.clients id with
    | none => []
    | some r => clientUses cfg now s (newClient id newIp (s.obj r).port (s.obj r).serverIp
        (s.obj r).serverPort (s.obj r).hurry none)
  | .lookupEnds k answers =>
    match s.pending[k]? with
    | none => []
    | some p => [⟨p.query, cacheTimeOf cfg p.dnsbl, (awaitedResults cfg now p answers s).1, !p.retry,
        s.cache p.query⟩]
  | _ => []

/-- The queries that have been completed after an event: a lookup ends that has asked the name server. `startDNSBLLookups` (`lookupDNSBL`) -/
def completedAfter (now : ℤ) (s : Daemon) (done : List Completed) : Event → List Completed
  | .lookupEnds k answers =>
    match s.pending[k]? with
    | none => done
    | some p => if p.retry then done else done ++ [⟨p.query, answers, now⟩]
  | _ => done

/-- The answer of a use is right: a query for the same name that has been completed gave it, no longer
ago than the cache time or for this lookup; and it is not read from an entry whose query is in flight. -/
structure Use.Right (now : ℤ) (done : List Completed) (u : Use) : Prop where
  answered : ∃ q ∈ done, q.query = u.query ∧ q.answers = u.results ∧
    (now - q.time ≤ u.cacheTime * 1000 ∨ (u.own = true ∧ q.time = now))
  inFlight : u.own = true ∨ ∀ ts, u.entry ≠ some ⟨none, ts⟩

/-- The condition on an event: when a lookup ends that waits for the cache, the entry of its query has a result
that is younger than the cache time. `startDNSBLLookups` (`retryCache`) -/
def Timely (cfg : Config) (now : ℤ) (s : Daemon) : Event → Prop
  | .lookupEnds k _ => ∀ p ∈ s.pending[k]?, p.retry = true →
      ∃ results ts, s.cache p.query = some ⟨some results, ts⟩ ∧ 0 < cacheTimeOf cfg p.dnsbl ∧
        now - cacheTimeOf cfg p.dnsbl * 1000 < ts
  | _ => True

/-- The states that are reached by events that meet a condition, with the queries that have been completed. The
clock and the order of the events are any. `handleLine` -/
inductive Asked (cfg : Config) (ok : ℤ → Daemon → Event → Prop) : Daemon → List Completed → Prop
  | start : Asked cfg ok Daemon.start []
  | step {s s' : Daemon} {done : List Completed} {outs : List Out} (h : Asked cfg ok s done) (now : ℤ)
      (e : Event) (hok : ok now s e) (hs : handle cfg now s e = some (s', outs)) :
      Asked cfg ok s' (completedAfter now s done e)

/-! ## What happens to the cache -/

/-- Results are removed from the cache at most. -/
def Shrinks (s s' : Daemon) : Prop :=
  ∀ q results ts, s'.cache q = some ⟨some results, ts⟩ → s.cache q = some ⟨some results, ts⟩

variable {s s' : Daemon} {query : Str} {cacheTime now : ℤ} {e : CacheEntry} {cfg : Config}

lemma shrinks_of_eq (h : s'.cache = s.cache) : Shrinks s s' := fun _ _ _ hq => h ▸ hq

lemma Shrinks.trans {s₁ s₂ : Daemon} (h : Shrinks s s₁) (h' : Shrinks s₁ s₂) : Shrinks s s₂ :=
  fun q results ts hq => h q results ts (h' q results ts hq)

lemma handleClientUpdate_cache (cfg : Config) (s : Daemon) (r : ℕ) :
    (handleClientUpdate cfg s r).1.cache = s.cache := by
  unfold handleClientUpdate
  split
  · dsimp only
    split
    · rfl
    · split <;> rfl
  · rfl

lemma finishLookup_cache (cfg : Config) (s : Daemon) (r : ℕ) (d : Dnsbl) (results : List Str) :
    (finishLookup cfg s r d results).1.cache = s.cache := by
  unfold finishLookup
  exact handleClientUpdate_cache cfg _ r

lemma getCacheEntry_shrinks {cache : Str → Option CacheEntry} {q : Str}
    (h : (getCacheEntry cache query cacheTime now).2 q = some e) : cache q = some e := by
  unfold getCacheEntry at h
  split at h
  · exact h
  · split at h
    · by_cases hq : q = query
      · rw [hq] at h
        exact absurd ((Function.update_self ..).symm.trans h) (some_ne_none e).symm
      · exact (Function.update_of_ne hq _ _).symm.trans h
    · exact h

lemma getCacheEntry_eq_some {cache : Str → Option CacheEntry} : (getCacheEntry cache query cacheTime now).1 =
    some e ↔ cache query = some e ∧ 0 < cacheTime ∧ now - cacheTime * 1000 < e.ts := by
  unfold getCacheEntry
  split
  · next hnone => simp [hnone]
  · next entry hsome =>
    rw [hsome]
    split
    · next hold =>
      refine ⟨fun h => absurd h (some_ne_none e).symm, ?_⟩
      rintro ⟨hentry, hpos, hyoung⟩
      obtain rfl := some_inj.1 hentry
      omega
    · next hyoung =>
      constructor
      · intro h
        obtain rfl := some_inj.1 h
        exact ⟨rfl, by omega⟩
      · exact fun h => h.1

lemma startLookup_shrinks (cfg : Config) (now : ℤ) (r : ℕ) (reversedIp : Str) (d : Dnsbl)
    (s : Daemon) : Shrinks s (startLookup cfg now r reversedIp d s).1 := by
  intro q results ts hq
  unfold startLookup at hq
  dsimp only [Daemon.modify] at hq
  split at hq
  · rw [finishLookup_cache] at hq
    exact getCacheEntry_shrinks hq
  · exact getCacheEntry_shrinks hq
  · dsimp only at hq
    by_cases hquery : q = reversedIp ++ '.' :: d.server
    · rw [hquery, Function.update_self] at hq
      injection hq with hq
      injection hq with hq
      exact absurd hq.symm (some_ne_none results)
    · rw [Function.update_of_ne hquery] at hq
      exact getCacheEntry_shrinks hq

lemma startLookups_shrinks (cfg : Config) (now : ℤ) (r : ℕ) (reversedIp : Str) :
    (ds : List Dnsbl) → (s : Daemon) → Shrinks s (startLookups cfg now r reversedIp ds s).1
  | [], s => shrinks_of_eq rfl
  | d :: ds, s => by
    rw [startLookups_cons]
    exact (startLookup_shrinks cfg now r reversedIp d s).trans (startLookups_shrinks cfg now r reversedIp ds _)

lemma startDNSBLLookups_shrinks (cfg : Config) (now : ℤ) (s : Daemon) (c : ClientState) (r : ℕ) :
    Shrinks s (startDNSBLLookups cfg now (s.addClient c) r).1 := by
  have hadd : Shrinks s (s.addClient c) := shrinks_of_eq rfl
  unfold startDNSBLLookups
  split
  · exact hadd
  · exact hadd.trans (startLookups_shrinks cfg now r _ cfg.dnsbls _)

lemma handleSASLStart_cache (cfg : Config) (id : ℤ) (args : Str) (s : Daemon) :
    (handleSASLStart cfg id args s).1.cache = s.cache := by
  have hadd : ∀ c, (if (s.clients id).isSome then s else s.addClient c).cache = s.cache := fun c => by
    split <;> rfl
  unfold handleSASLStart
  split
  · rfl
  · dsimp only
    split
    · exact hadd _
    · split
      · exact hadd _
      · split
        · split <;> exact hadd _
        · split
          · split <;> exact hadd _
          · exact hadd _

lemma handleSASLContinue_cache (cfg : Config) (id : ℤ) (args : Str) (s : Daemon) :
    (handleSASLContinue cfg id args s).1.cache = s.cache := by
  unfold handleSASLContinue
  split
  · rfl
  · split
    · split <;> rfl
    · rfl

lemma lookupEnds_cache (cfg : Config) (now : ℤ) {k : ℕ} (answers : List Str) {p : Pending}
    (hp : s.pending[k]? = some p) {q : Str} (h : (lookupEnds cfg now k answers s).1.cache q = some e) :
    s.cache q = some e ∨ (p.retry = false ∧ q = p.query ∧ e = ⟨some answers, now⟩) := by
  unfold lookupEnds at h
  rw [hp] at h
  dsimp only at h
  rw [finishLookup_cache] at h
  unfold awaitedResults at h
  by_cases hretry : p.retry = true
  · rw [if_pos hretry] at h
    exact .inl (getCacheEntry_shrinks h)
  · rw [if_neg hretry] at h
    by_cases hq : q = p.query
    · refine .inr ⟨Bool.eq_false_iff.2 hretry, hq, ?_⟩
      dsimp only at h
      rw [hq, Function.update_self] at h
      exact (some_inj.1 h).symm
    · dsimp only at h
      rw [Function.update_of_ne hq] at h
      exact .inl h

lemma shrinks_handle {res : Daemon × List Out} {e : Event}
    (hs : handle cfg now s e = some res) (he : ∀ k answers, e ≠ .lookupEnds k answers) : Shrinks s res.1 := by
  cases e with
  | lookupEnds k answers => exact absurd rfl (he k answers)
  | intro id ip port serverIp serverPort =>
    simp only [handle, handleClientIntro] at hs
    split at hs
    · rw [← some.inj hs]
      exact shrinks_of_eq rfl
    · split at hs
      · cases hs
      · rw [← some.inj hs]
        exact startDNSBLLookups_shrinks cfg now s _ s.next
  | disconnect id =>
    rw [← some.inj hs]
    exact shrinks_of_eq rfl
  | auth id account =>
    rw [← some.inj hs]
    apply shrinks_of_eq
    unfold handleAuth
    split
    · rfl
    · exact handleClientUpdate_cache cfg _ _
  | hurry id cls =>
    rw [← some.inj hs]
    apply shrinks_of_eq
    unfold handleHurry
    split
    · rfl
    · exact handleClientUpdate_cache cfg _ _
  | saslStart id args =>
    rw [← some.inj hs]
    exact shrinks_of_eq (handleSASLStart_cache cfg id args s)
  | saslContinue id args =>
    rw [← some.inj hs]
    exact shrinks_of_eq (handleSASLContinue_cache cfg id args s)
  | webirc id password username hostname newIp =>
    rw [← some.inj hs]
    unfold handleWebIRC
    split
    · exact shrinks_of_eq rfl
    · exact startDNSBLLookups_shrinks cfg now s _ s.next
  | authEnds k account =>
    rw [← some.inj hs]
    apply shrinks_of_eq
    unfold authEnds
    split
    · rfl
    · cases account <;> rfl

/-! ## Results are known -/

/-- Every result in the cache is from a completed query. -/
def Known (s : Daemon) (done : List Completed) : Prop :=
  ∀ q results ts, s.cache q = some ⟨some results, ts⟩ → ⟨q, results, ts⟩ ∈ done

lemma Known.shrinks {done : List Completed} (h : Known s done) (hs : Shrinks s s') :
    Known s' done := fun q results ts hq => h q results ts (hs q results ts hq)

lemma Known.step {done : List Completed} {outs : List Out} {e : Event} (h : Known s done)
    (hs : handle cfg now s e = some (s', outs)) : Known s' (completedAfter now s done e) := by
  by_cases he : ∀ k answers, e ≠ .lookupEnds k answers
  · have hsame : completedAfter now s done e = done := by
      cases e with
      | lookupEnds k answers => exact absurd rfl (he k answers)
      | _ => rfl
    rw [hsame]
    exact h.shrinks (shrinks_handle hs he)
  · push Not at he
    obtain ⟨k, answers, rfl⟩ := he
    have hs' : s' = (lookupEnds cfg now k answers s).1 := (congrArg Prod.fst (some.inj hs)).symm
    subst hs'
    intro q results ts hq
    cases hp : s.pending[k]? with
    | none =>
      simp only [lookupEnds, hp] at hq
      simp only [completedAfter, hp]
      exact h q results ts hq
    | some p =>
      simp only [completedAfter, hp]
      rcases lookupEnds_cache cfg now answers hp hq with hold | ⟨hretry, rfl, heq⟩
      · split
        · exact h q results ts hold
        · exact List.mem_append_left _ (h q results ts hold)
      · rw [hretry, if_neg Bool.false_ne_true]
        injection heq with hres hts
        obtain rfl := some_inj.1 hres
        rw [hts]
        exact List.mem_append_right _ List.mem_cons_self

lemma Asked.known {ok : ℤ → Daemon → Event → Prop} {done : List Completed}
    (h : Asked cfg ok s done) : Known s done := by
  induction h with
  | start => exact fun q results ts hq => absurd hq (some_ne_none _).symm
  | step _ now e _ hs ih => exact ih.step hs

/-! ## Used answers are right -/

lemma Known.right {done : List Completed} (h : Known s done) {ts : ℤ} {results : List Str} (own : Bool) (hq : s.cache query = some ⟨some results, ts⟩)
    (hyoung : now - cacheTime * 1000 < ts) :
    Use.Right now done ⟨query, cacheTime, results, own, s.cache query⟩ where
  answered := ⟨_, h query results ts hq, rfl, rfl, .inl (by dsimp only; omega)⟩
  inFlight := .inr fun ts' hts => by
    dsimp only at hts
    rw [hq] at hts
    injection hts with hts
    injection hts with hts
    exact absurd hts (some_ne_none results)

lemma Known.startUse {done : List Completed} (h : Known s done) {reversedIp : Str} {d : Dnsbl} {u : Use}
    (hu : startUse cfg now reversedIp d s = some u) : u.Right now done := by
  obtain ⟨results, hres, rfl⟩ := Option.map_eq_some_iff.1 hu
  obtain ⟨⟨_, ts⟩, hentry, rfl⟩ := Option.bind_eq_some_iff.1 hres
  obtain ⟨hq, -, hyoung⟩ := getCacheEntry_eq_some.1 hentry
  exact h.right false hq hyoung

lemma Known.startUses {cfg : Config} {done : List Completed} {now : ℤ} (r : ℕ) (reversedIp : Str) :
    (ds : List Dnsbl) → {s : Daemon} → Known s done →
      ∀ u ∈ startUses cfg now r reversedIp ds s, u.Right now done
  | [], _, _, u, hu => absurd hu not_mem_nil
  | d :: ds, s, h, u, hu => by
    rcases List.mem_append.1 hu with hu | hu
    · exact h.startUse (Option.mem_toList.1 hu)
    · exact Known.startUses r reversedIp ds (h.shrinks (startLookup_shrinks cfg now r reversedIp d s)) u hu

lemma Known.clientUses {cfg : Config} {s : Daemon} {done : List Completed} (h : Known s done) {now : ℤ}
    (c : ClientState) : ∀ u ∈ clientUses cfg now s c, u.Right now done := by
  intro u hu
  unfold Iauthd.clientUses at hu
  split at hu
  · exact absurd hu not_mem_nil
  · have hadd : Shrinks s (s.addClient c) := shrinks_of_eq rfl
    exact Known.startUses s.next _ cfg.dnsbls (h.shrinks hadd) u hu

/-- The daemon and the completed queries after an event at some time. -/
def askStep (sd : Daemon × List Completed) (te : ℤ × Event) : Daemon × List Completed :=
  match handle sampleConfig te.1 sd.1 te.2 with
  | none => sd
  | some res => (res.1, completedAfter te.1 sd.1 sd.2 te.2)

lemma Asked.askStep {ok : ℤ → Daemon → Event → Prop} {sd : Daemon × List Completed}
    (h : Asked sampleConfig ok sd.1 sd.2) (te : ℤ × Event) (hok : ok te.1 sd.1 te.2) :
    Asked sampleConfig ok (askStep sd te).1 (Iauthd.askStep sd te).2 := by
  unfold Iauthd.askStep
  split
  · exact h
  · next res hres => exact h.step te.1 te.2 hok hres

/-- Two clients connect from one address, one right after the other. -/
def twoClients : Daemon × List Completed :=
  [((0 : ℤ), Event.intro 5 "1.2.3.4".toList 1000 [] 0), (10, .intro 6 "1.2.3.4".toList 1001 [] 0)].foldl
    askStep (Daemon.start, [])

lemma twoClients_asked {ok : ℤ → Daemon → Event → Prop}
    (hok : ∀ now s id ip port serverIp serverPort, ok now s (.intro id ip port serverIp serverPort)) :
    Asked sampleConfig ok twoClients.1 twoClients.2 := by
  have h₁ := @Asked.askStep ok (Daemon.start, []) .start (0, .intro 5 "1.2.3.4".toList 1000 [] 0)
    (hok ..)
  exact h₁.askStep (10, .intro 6 "1.2.3.4".toList 1001 [] 0) (hok ..)

/-- The name server answers within the wait of the second client, which uses the answer. -/
def answeredClients : Daemon × List Completed := askStep twoClients (50, .lookupEnds 0 ["127.0.0.2".toList])

end Nefarious.Iauthd
