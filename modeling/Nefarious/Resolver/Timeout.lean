import Nefarious.Resolver.Lookups

/-!
# The timeout of the resolver

The timer is to be set for the first deadline of a request.
-/

namespace Nefarious.Resolver

open Lib Lib.Rings

/-- Each request has a timeout: the timer is queued, for its deadline at the latest, and for no more than
ten minutes after it was set. -/
def Timed (s : State) : Prop :=
  ∀ p ∈ s.live, s.timer.onqueue = true ∧
    s.timer.expire ≤ min ((s.request p).sentat + (s.request p).timeout) (s.timer.lastSet + 600)

/-- The timer function is called by the timer. `ircd_events.c` `timer_run`. -/
def Event.byTimer : Event → Bool
  | .expire _ => false
  | _ => true

/-- The timer was never added, and no request was sent at time zero. -/
structure Still (s : State) : Prop where
  time : 0 < s.currentTime
  expire : s.timer.expire = 0
  offqueue : s.timer.onqueue = false
  sentat : ∀ p ∈ s.live, 0 < (s.request p).sentat

section Still

variable {env : Env} {s t : State} {p new : ℕ}

lemma Still.checkResolverTimeout (h : Still s) {when : ℕ} (hwhen : 0 < when) :
    Still (checkResolverTimeout s when) := by
  have hlt : s.timer.expire < min when (s.currentTime + 600) := by
    rw [h.expire]
    exact Nat.lt_min.mpr ⟨hwhen, Nat.lt_of_lt_of_le h.time (Nat.le_add_right _ _)⟩
  have hsame : Resolver.checkResolverTimeout s when = s := if_pos hlt
  rw [hsame]
  exact h

lemma Still.set (h : Still s) {r : Reslist} (hr : r.sentat = (s.request p).sentat) : Still (s.set p r) := by
  refine ⟨h.time, h.expire, h.offqueue, fun x hx => ?_⟩
  by_cases e : x = p
  · simp only [State.set, e, Function.update_self, hr]
    exact h.sentat p (e ▸ hx)
  · simp only [State.set, Function.update_of_ne e]
    exact h.sentat x hx

lemma Still.remRequest (h : Still s) (p : ℕ) : Still (remRequest s p) :=
  ⟨h.time, h.expire, h.offqueue, fun x hx => h.sentat x (List.mem_of_mem_filter hx)⟩

lemma Still.finish (h : Still s) (p : ℕ) : Still (Resolver.remRequest (s.call p) p) :=
  ⟨h.time, h.expire, h.offqueue, fun x hx => h.sentat x (List.mem_of_mem_filter hx)⟩

variable {name : Str} {type callback ctx : ℕ} {q : Query}

lemma Still.queryName (h : Still s) (hp : p ∈ s.live)
    (hrun : queryName env s name type p q = some t) : Still t := by
  rw [Resolver.queryName] at hrun
  split at hrun
  · split at hrun
    · have hset := h.set (p := p) (r := { s.request p with
        id := q.id % 2 ^ 16, sends := (s.request p).sends + 1, sent := (s.request p).sent + q.sent }) rfl
      have hwhen : 0 < (s.request p).sentat + (s.request p).timeout := Nat.add_pos_left (h.sentat p hp) _
      cases hrun
      exact hset.checkResolverTimeout hwhen
    · cases hrun
  · cases hrun
    exact h

lemma Still.sendName (h : Still s) (hp : p ∈ s.live)
    (hrun : sendName env s name type p q = some t) : Still t := by
  have hset := h.set (p := p) (r := { s.request p with type := type }) rfl
  exact hset.queryName hp hrun

lemma Still.resendQuery (h : Still s) (hp : p ∈ s.live)
    (hrun : resendQuery env s p q = some t) : Still t := by
  rw [Resolver.resendQuery] at hrun
  split at hrun
  · cases hrun
    exact h
  split at hrun
  · exact h.queryName hp hrun
  split at hrun
  · exact h.sendName hp hrun
  split at hrun
  · exact h.sendName hp hrun
  · cases hrun
    exact h

lemma Still.makeRequest (h : Still s)
    (hrun : makeRequest env s callback ctx p = some t) : Still t ∧ p ∈ t.live := by
  rw [Resolver.makeRequest] at hrun
  split at hrun
  · cases hrun
  have hstart : Still (if s.started = true then s else restartResolver s) := by
    split
    · exact h
    · exact ⟨h.time, h.expire, rfl, h.sentat⟩
  cases hrun
  refine ⟨⟨hstart.time, hstart.expire, hstart.offqueue, fun x hx => ?_⟩, List.mem_cons_self⟩
  obtain rfl | hne := eq_or_ne x p
  · simp only [Function.update_self]
    exact hstart.time
  · simp only [Function.update_of_ne hne]
    exact hstart.sentat x ((List.mem_cons.mp hx).resolve_left hne)

lemma Still.doQueryName (h : Still s)
    (hrun : doQueryName env s callback ctx name type p q = some t) : Still t := by
  obtain ⟨u, hu, hrun⟩ := Option.bind_eq_some_iff.mp hrun
  obtain ⟨hstill, hp⟩ := h.makeRequest hu
  have hset := hstill.set (p := p) (r := { u.request p with
    name := some (addLocalDomain env.ircDomain (name.take hostlen) hostlen)
    state := if env.ipv6 ∧ type ≠ tA then .aaaa else .a }) rfl
  exact hset.sendName hp hrun

lemma Still.doQueryNumber (h : Still s) {addr : List ℕ} {junk : Str}
    (hrun : doQueryNumber env s callback ctx addr junk p q = some t) : Still t := by
  obtain ⟨u, hu, hrun⟩ := Option.bind_eq_some_iff.mp hrun
  obtain ⟨hstill, hp⟩ := h.makeRequest hu
  have hset := hstill.set (p := p) (r := { u.request p with
    state := .ptr, type := tPTR, addr := addr, name := some junk }) rfl
  exact hset.queryName hp hrun

lemma findId_live {id : ℕ} (hfind : findId s id = some (some p)) : p ∈ s.live := by
  obtain ⟨l, hl, hp⟩ := Option.map_eq_some_iff.mp hfind
  obtain ⟨-, hall⟩ := Option.filter_eq_some_iff.mp hl
  have hlive := List.all_eq_true.mp hall p (List.mem_of_find?_eq_some hp)
  exact of_decide_eq_true hlive

lemma Still.resReadreply (h : Still s) {reply : Reply}
    (hrun : resReadreply env s reply new q = some t) : Still t := by
  rw [Resolver.resReadreply] at hrun
  split at hrun
  · cases hrun
    exact h
  split at hrun
  · cases hrun
  · cases hrun
    exact h
  rename_i p hfind
  have hp := findId_live hfind
  split at hrun
  · rw [Resolver.noAnswer] at hrun
    split at hrun
    · cases hrun
      exact h.finish p
    split at hrun
    · have hset := h.set (p := p) (r := { s.request p with
        timeout := (s.request p).timeout + env.resTimeout }) rfl
      exact hset.resendQuery hp hrun
    split at hrun
    · have hset := h.set (p := p) (r := { s.request p with
        state := .int, timeout := (s.request p).timeout + env.resTimeout }) rfl
      exact hset.resendQuery hp hrun
    · cases hrun
      exact h
  obtain ⟨-, -, -, -, -, hsentat⟩ := procAnswers_keeps env reply.buf reply.eob reply.ancount
    (skipQuestions env reply.buf reply.eob reply.qdcount 12) (s.request p)
  have hset := h.set (p := p) (r := (procAnswer env (s.request p) reply).2) hsentat
  dsimp only at hrun
  split at hrun
  · rw [Resolver.answer] at hrun
    split at hrun
    · split at hrun
      · cases hrun
        exact hset.finish p
      · obtain ⟨u, hu, hrun⟩ := Option.bind_eq_some_iff.mp hrun
        cases hrun
        exact (hset.doQueryName hu).remRequest p
    · cases hrun
      exact hset.finish p
  split at hrun
  · cases hrun
    exact hset.remRequest p
  · cases hrun
    exact hset

lemma Still.deleteLoop {vptr : ℕ} : (n : ℕ) → ∀ {s : State} {ptr : ℕ}, Still s →
    deleteLoop vptr n s ptr = some t → Still t
  | 0, _, _, _, hrun => by
    cases hrun
  | n + 1, s, ptr, h, hrun => by
    rw [Resolver.deleteLoop] at hrun
    split at hrun
    · cases hrun
      exact h
    split at hrun
    · cases hrun
    dsimp only at hrun
    split at hrun
    · exact Still.deleteLoop n (h.remRequest ptr) hrun
    · exact Still.deleteLoop n h hrun

lemma Still.step {e : Event} (h : Still s) (hallowed : s.allowed e = true) (htimer : e.byTimer = true)
    (hstep : s.step env e = some t) : Still t := by
  cases e with
  | tick now =>
    cases hstep
    exact ⟨Nat.lt_of_lt_of_le h.time (of_decide_eq_true hallowed), h.expire, h.offqueue, h.sentat⟩
  | gethostByname name ctx p q =>
    have hlookup : Still { s with lookups := s.lookups ++ [ctx] } := ⟨h.time, h.expire, h.offqueue, h.sentat⟩
    exact hlookup.doQueryName hstep
  | gethostByaddr addr junk ctx p q =>
    have hlookup : Still { s with lookups := s.lookups ++ [ctx] } := ⟨h.time, h.expire, h.offqueue, h.sentat⟩
    exact hlookup.doQueryNumber hstep
  | reply reply new q => exact h.resReadreply hstep
  | delete vptr =>
    obtain ⟨u, hu, hstep⟩ := Option.bind_eq_some_iff.mp hstep
    cases hstep
    have hloop : Still u := by
      split at hu
      · exact Still.deleteLoop _ h hu
      · cases hu
        exact h
    exact ⟨hloop.time, hloop.expire, hloop.offqueue, hloop.sentat⟩
  | timerRun q =>
    simp only [State.step, timerRun, h.offqueue, Bool.false_eq_true, false_and, if_false] at hstep
    cases hstep
    exact h
  | expire q => exact absurd htimer Bool.false_ne_true

end Still

/-- **No request has a timeout**: in every run whose timeouts come from the timer, the requests have a timeout
if and only if there are none. -/
theorem timeout_iff (env : Env) (currentTime : ℕ) (links : Links ℕ) (request : ℕ → Reslist)
    (es : List Event) (t : State) (hnow : 0 < currentTime)
    (hmeets : Runs.Meets (State.step env) (fun s e => s.allowed e && e.byTimer)
      (State.start currentTime links request) es)
    (hrun : Runs.run (State.step env) (State.start currentTime links request) es = some t) :
    Timed t ↔ t.live = [] := by
  have hstart : Still (State.start currentTime links request) := ⟨hnow, rfl, rfl, fun p hp => (nomatch hp)⟩
  have hstill := Runs.Meets.of_run (P := Still) (fun s e t h hcond hstep => by
    rw [Bool.and_eq_true] at hcond
    exact h.step hcond.1 hcond.2 hstep) es hstart hmeets hrun
  constructor
  · intro htimed
    apply List.eq_nil_iff_forall_not_mem.mpr
    intro p hp
    have honqueue := (htimed p hp).1
    rw [hstill.offqueue] at honqueue
    exact Bool.false_ne_true honqueue
  · intro hnil p hp
    rw [hnil] at hp
    cases hp

/-- A lookup is made and answered at last; the timers run in between. -/
theorem timeout_iff_example : ∃ t, Runs.run (State.step exampleEnv)
      (State.start 100 ⟨id, id⟩ fun _ => ⟨0, 0, .idle, 0, 0, 0, true, 0, 0, [], none, 0, 0⟩)
      [.gethostByname ['h'] 7 1 ⟨5, 1⟩, .tick 900, .timerRun fun _ => ⟨6, 1⟩,
        .reply (exampleReply 5 28 (List.replicate 16 1)) 2 ⟨7, 1⟩] = some t ∧
      (Timed t ↔ t.live = []) := by
  obtain ⟨t, ht⟩ := Option.isSome_iff_exists.mp (show (Runs.run (State.step exampleEnv)
      (State.start 100 ⟨id, id⟩ fun _ => ⟨0, 0, .idle, 0, 0, 0, true, 0, 0, [], none, 0, 0⟩)
      [.gethostByname ['h'] 7 1 ⟨5, 1⟩, .tick 900, .timerRun fun _ => ⟨6, 1⟩,
        .reply (exampleReply 5 28 (List.replicate 16 1)) 2 ⟨7, 1⟩]).isSome from by decide +kernel)
  exact ⟨t, ht, timeout_iff exampleEnv 100 _ _ _ t (by decide) (by decide +kernel) ht⟩

/-- **A lookup without a timeout**: it is sent to a name server, and the timer is not queued. -/
theorem timeout_missing : ∃ (es : List Event) (t : State),
    Runs.Meets (State.step exampleEnv) (fun s e => s.allowed e && e.byTimer)
      (State.start 100 ⟨id, id⟩ fun _ => ⟨0, 0, .idle, 0, 0, 0, true, 0, 0, [], none, 0, 0⟩) es ∧
    Runs.run (State.step exampleEnv)
      (State.start 100 ⟨id, id⟩ fun _ => ⟨0, 0, .idle, 0, 0, 0, true, 0, 0, [], none, 0, 0⟩) es = some t ∧
    t.live = [1] ∧ (t.request 1).sent = 1 ∧ ¬Timed t := by
  refine ⟨[.gethostByname ['h'] 7 1 ⟨5, 1⟩], _, by decide +kernel, rfl, by decide +kernel,
    by decide +kernel, fun htimed => ?_⟩
  exact absurd (htimed 1 (by decide +kernel)).1 (by decide +kernel)

end Nefarious.Resolver
