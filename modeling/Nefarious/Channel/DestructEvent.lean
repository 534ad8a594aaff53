import Mathlib.Tactic.Push
import Nefarious.Channel.Modes
import Nefarious.Lib.Deque

/-!
# Channels that are going to be destroyed

A channel that becomes empty is not destroyed at once, if the server keeps empty channels: an event is put on a
list, and the channel points to the event and the event to the channel.

Names: `destruct_event.c`.
-/

set_option linter.unusedSectionVars false

namespace Nefarious.DestructEvent

open Option (bind_eq_bind bind_some some.inj)
open Function (update update_of_ne update_self)

open Lib.Dll Channel

/-! ### Channels and events -/

/-- A channel, as far as its destruction depends on it. `channel.h` `struct Channel`. -/
structure Chan (ε : Type) where
  users : ℕ
  /-- `EXMODE_PERSIST` of `mode.exmode`. -/
  persist : Bool
  apass : Bool
  creationtime : ℕ
  destructEvent : Option ε
deriving DecidableEq

/-- An event. `struct DestructEvent`. -/
structure Event (χ : Type) where
  expires : ℕ
  chptr : χ
deriving DecidableEq

/-- One of the two lists. -/
inductive Delay
  | minute
  | days
deriving DecidableEq

/-- How long the events of a list are kept. `schedule_destruct_event_1m`, `schedule_destruct_event_48h`. -/
def Delay.seconds : Delay → ℕ
  | .minute => 60
  | .days => 172800

/-- The ends of a list. `minute_list_top` … `days_list_bottom`. -/
structure Ends (ε : Type) where
  top : Option ε
  bottom : Option ε

/-- A server. `destruct_event.c`, `channel.c`. -/
structure State (χ ε : Type) where
  /-- `TStime()`. -/
  now : ℕ
  chans : χ → Option (Chan ε)
  events : ε → Event χ
  /-- The addresses of events that are in use. -/
  used : ε → Bool
  /-- The links of the events, from the top on: `prev` is `next_event` and `next` is `prev_event`. -/
  links : ε → Links ε
  /-- `minute_list_top`, `minute_list_bottom`, `days_list_top`, `days_list_bottom`. -/
  ends : Delay → Ends ε

variable {χ ε : Type} [DecidableEq χ] [DecidableEq ε]

/-- The features. `ircd_features.h`. -/
structure Features where
  oplevels : Bool
  zannels : Bool

def State.setChan (s : State χ ε) (c : χ) (ch : Option (Chan ε)) : State χ ε :=
  { s with chans := update s.chans c ch }

/-- Schedule a destruction, with the address of a new event, unless there is one. `schedule_destruct_event_1m`, `schedule_destruct_event_48h`. -/
def schedule (delay : Delay) (s : State χ ε) (c : χ) (ch : Chan ε) (e : ε) : State χ ε :=
  if ch.destructEvent.isSome then s
  else
    { s with
      events := update s.events e ⟨s.now + delay.seconds, c⟩
      used := update s.used e true
      links := (push s.links (s.ends delay).top e).1
      ends := update s.ends delay ⟨some e, pushBottom (s.ends delay).bottom e⟩
      chans := update s.chans c (some { ch with destructEvent := some e }) }

/-- Cut an event out of the list it is on. `remove_destruct_event`. -/
def Ends.cut (ends : Ends ε) (links : ε → Links ε) (e : ε) : Ends ε :=
  ⟨cutTop links ends.top e, cutBottom links ends.bottom e⟩

/-- Unlink the event of a channel. -/
def removeDestructEvent (s : State χ ε) (c : χ) (ch : Chan ε) (e : ε) : State χ ε :=
  { s with
    links := (unlink s.links none e).1
    ends := fun delay => (s.ends delay).cut s.links e
    used := update s.used e false
    chans := update s.chans c (some { ch with destructEvent := none }) }

/-- Unlink the event of a channel, if it has one. `channel.c` `add_user_to_channel`; `m_destruct.c`
`ms_destruct`. -/
def cancel (s : State χ ε) (c : χ) (ch : Chan ε) : State χ ε :=
  match ch.destructEvent with
  | some e => removeDestructEvent s c ch e
  | none => s

/-- Destroy a channel. `channel.c`. -/
def destructChannel (s : State χ ε) (c : χ) : State χ ε := s.setChan c none

/-- One user less, and maybe the last one. `e` is the address of a new event. `channel.c`. -/
def sub1FromChannel (feat : Features) (s : State χ ε) (c : χ) (ch : Chan ε) (e : ε) : State χ ε :=
  if 1 < ch.users then s.setChan c (some { ch with users := ch.users - 1 })
  else
    let ch := { ch with users := 0 }
    let s := s.setChan c (some ch)
    if ch.persist then s
    else if !ch.apass && !feat.oplevels then destructChannel s c
    else if feat.zannels then
      if s.now - ch.creationtime < 172800 then schedule .minute s c ch e else schedule .days s c ch e
    else destructChannel s c

/-- The letters `z` of a MODE, in order: the event is scheduled as the letter is read. `channel.c` `mode_parse`. -/
def modeLetters (s : State χ ε) (c : χ) (e : ε) : List Dir → State χ ε
  | [] => s
  | .add :: dirs => modeLetters s c e dirs
  | .del :: dirs =>
    match s.chans c with
    | none => modeLetters s c e dirs
    | some ch =>
      if ch.users = 0 then modeLetters (schedule .minute s c ch e) c e dirs
      else modeLetters s c e dirs

/-- The persistent mode after the letters, which is changed at the end, if the MODE is carried out.
`channel.c` `mode_parse`, `mode_parse_exmode`. -/
def persistAfter (persist effective : Bool) (dirs : List Dir) : Bool :=
  match effective, dirs.getLast? with
  | true, some dir => dir = .add
  | _, _ => persist

/-- A MODE with letters `z`. `channel.c` `mode_parse`. -/
def modePersist (s : State χ ε) (c : χ) (e : ε) (dirs : List Dir) (effective : Bool) : State χ ε :=
  let s := modeLetters s c e dirs
  match s.chans c with
  | none => s
  | some ch => s.setChan c (some { ch with persist := persistAfter ch.persist effective dirs })

/-- Work off a list from its bottom, at most `n` events of it, and the channels that were destroyed. Reading a
channel that is gone fails, as does one without an event. `exec_expired_destruct_events`. -/
def execLoop (delay : Delay) : ℕ → State χ ε → Option (State χ ε × List (Chan ε))
  | 0, s => some (s, [])
  | n + 1, s =>
    match (s.ends delay).bottom with
    | none => some (s, [])
    | some e =>
      if s.now < (s.events e).expires then some (s, [])
      else do
        let c := (s.events e).chptr
        let ch ← s.chans c
        let e' ← ch.destructEvent
        let (s, gone) ← execLoop delay n (destructChannel (removeDestructEvent s c ch e') c)
        some (s, ch :: gone)

/-- Execute expired events. `exec_expired_destruct_events`. -/
def execExpired (n : ℕ) (s : State χ ε) : Option (State χ ε × List (Chan ε)) := do
  let (s, gone) ← execLoop .minute n s
  let (s, gone') ← execLoop .days n s
  some (s, gone ++ gone')

/-- What happens to channels. `e` is the address of a new event. `channel.c`, `destruct_event.c`,
`m_destruct.c`, `m_endburst.c`, `m_burst.c`. -/
inductive Op (χ ε : Type)
  | tick (seconds : ℕ)
  /-- `get_channel`, at an address that is not in use. -/
  | create (c : χ) (creationtime : ℕ)
  /-- `add_user_to_channel`. -/
  | join (c : χ)
  /-- `remove_member_from_channel`. -/
  | part (c : χ) (e : ε)
  /-- `sub1_from_channel` for an empty channel. -/
  | sub1 (c : χ) (e : ε)
  /-- A MODE with letters `z`, which is carried out or not. -/
  | modePersist (c : χ) (e : ε) (dirs : List Dir) (effective : Bool)
  /-- A change of the Apass or of the creation time. -/
  | modes (c : χ) (apass : Bool) (creationtime : ℕ)
  | destruct (c : χ)
  /-- `exec_expired_destruct_events`, with at most `n` events of each list. -/
  | exec (n : ℕ)

def State.onChan (s : State χ ε) (c : χ) (f : Chan ε → State χ ε) : State χ ε :=
  match s.chans c with
  | some ch => f ch
  | none => s

/-- One step, and the channels that an expired event destroyed. An address in use is none that the
allocator returns. -/
def step (feat : Features) (s : State χ ε) : Op χ ε → Option (State χ ε × List (Chan ε))
  | .tick seconds => some ({ s with now := s.now + seconds }, [])
  | .create c creationtime =>
    some (match s.chans c with
      | some _ => s
      | none => s.setChan c (some ⟨0, false, false, creationtime, none⟩), [])
  | .join c =>
    some (s.onChan c fun ch => (cancel s c ch).setChan c
      (some { ch with users := ch.users + 1, destructEvent := none }), [])
  | .part c e =>
    some (s.onChan c fun ch =>
      if ch.users = 0 ∨ s.used e then s else sub1FromChannel feat s c ch e, [])
  | .sub1 c e =>
    some (s.onChan c fun ch =>
      if ch.users ≠ 0 ∨ s.used e then s else sub1FromChannel feat s c ch e, [])
  | .modePersist c e dirs effective =>
    some (s.onChan c fun _ =>
      if s.used e then s else modePersist s c e dirs effective, [])
  | .modes c apass creationtime =>
    some (s.onChan c fun ch =>
      s.setChan c (some { ch with apass := apass, creationtime := creationtime }), [])
  | .destruct c =>
    some (s.onChan c fun ch =>
      if ch.users ≠ 0 then s else destructChannel (cancel s c ch) c, [])
  | .exec n => execExpired n s

/-- The condition on a step: a MODE does not leave an empty channel persistent that has an event or was
given one, and an empty channel with an event is not destroyed by `sub1_from_channel`. -/
def Safe (feat : Features) (s : State χ ε) : Op χ ε → Prop
  | .modePersist c _ dirs effective => ∀ ch, s.chans c = some ch → ch.users = 0 →
      persistAfter ch.persist effective dirs = true → ch.destructEvent = none ∧ .del ∉ dirs
  | .sub1 c _ => ∀ ch, s.chans c = some ch → ch.users = 0 → ch.destructEvent ≠ none →
      ch.persist = true ∨ ((ch.apass || feat.oplevels) = true ∧ feat.zannels = true)
  | _ => True

/-! ### The invariant -/

/-- Each event on a list is of an empty channel that points to it, each channel with an event points to one
on a list, and the lists are in order: `ls` are their events from the top on. -/
structure Good (s : State χ ε) (ls : Delay → List ε) : Prop where
  links : ∀ d, IsDeque s.links (s.ends d).top (s.ends d).bottom (ls d)
  disjoint : ∀ d d' e, e ∈ ls d → e ∈ ls d' → d = d'
  refers : ∀ d, ∀ e ∈ ls d, ∃ ch, s.chans (s.events e).chptr = some ch ∧ ch.destructEvent = some e ∧
    ch.users = 0 ∧ ch.persist = false
  back : ∀ c ch e, s.chans c = some ch → ch.destructEvent = some e → (∃ d, e ∈ ls d) ∧ (s.events e).chptr = c
  sorted : ∀ d, (ls d).Pairwise fun e e' => (s.events e').expires ≤ (s.events e).expires
  soon : ∀ d, ∀ e ∈ ls d, (s.events e).expires ≤ s.now + d.seconds
  used : ∀ d, ∀ e ∈ ls d, s.used e = true

variable {s : State χ ε} {ls : Delay → List ε} {c : χ} {ch : Chan ε} {e : ε}

lemma Good.empty (h : Good s ls) (hc : s.chans c = some ch) (he : ch.destructEvent = some e) :
    ch.users = 0 ∧ ch.persist = false := by
  obtain ⟨⟨d, hd⟩, hchptr⟩ := h.back c ch e hc he
  obtain ⟨ch', hc', -, hempty⟩ := h.refers d e hd
  rw [hchptr, hc] at hc'
  obtain rfl := some.inj hc'
  exact hempty

lemma Good.setChan (h : Good s ls) (hc : s.chans c = some ch) {ch' : Chan ε}
    (he : ch'.destructEvent = ch.destructEvent)
    (hok : ch'.destructEvent ≠ none → ch'.users = 0 ∧ ch'.persist = false) :
    Good (s.setChan c (some ch')) ls := by
  refine ⟨h.links, h.disjoint, ?_, ?_, h.sorted, h.soon, h.used⟩
  · intro d e' hd
    obtain ⟨ch₁, hc₁, he₁, hempty⟩ := h.refers d e' hd
    by_cases hcc : (s.events e').chptr = c
    · rw [hcc, hc] at hc₁
      obtain rfl := some.inj hc₁
      refine ⟨ch', ?_, he.trans he₁, hok (by rw [he, he₁]; simp)⟩
      simp [State.setChan, hcc]
    · exact ⟨ch₁, by simp [State.setChan, hcc, hc₁], he₁, hempty⟩
  · intro c₁ ch₁ e₁ hc₁ he₁
    by_cases hcc : c₁ = c
    · subst hcc
      simp only [State.setChan, update_self, Option.some.injEq] at hc₁
      subst hc₁
      exact h.back c₁ ch e₁ hc (he.symm.trans he₁)
    · simp only [State.setChan, update_of_ne hcc] at hc₁
      exact h.back c₁ ch₁ e₁ hc₁ he₁

lemma Good.setChan_none (h : Good s ls) (hc : ∀ ch, s.chans c = some ch → ch.destructEvent = none)
    {ch' : Option (Chan ε)} (hnew : ∀ ch, ch' = some ch → ch.destructEvent = none) :
    Good (s.setChan c ch') ls := by
  refine ⟨h.links, h.disjoint, ?_, ?_, h.sorted, h.soon, h.used⟩
  · intro d e' hd
    obtain ⟨ch₁, hc₁, he₁, hempty⟩ := h.refers d e' hd
    have hcc : (s.events e').chptr ≠ c := by
      intro hcc
      rw [hcc] at hc₁
      rw [hc ch₁ hc₁] at he₁
      cases he₁
    exact ⟨ch₁, by simp [State.setChan, hcc, hc₁], he₁, hempty⟩
  · intro c₁ ch₁ e₁ hc₁ he₁
    by_cases hcc : c₁ = c
    · subst hcc
      simp only [State.setChan, update_self] at hc₁
      rw [hnew ch₁ hc₁] at he₁
      cases he₁
    · simp only [State.setChan, update_of_ne hcc] at hc₁
      exact h.back c₁ ch₁ e₁ hc₁ he₁

lemma mem_update_cons {d d' : Delay} {e' : ε} (h : e' ∈ update ls d (e :: ls d) d') :
    (e' = e ∧ d' = d) ∨ e' ∈ ls d' := by
  by_cases hdd : d' = d
  · subst hdd
    rw [update_self] at h
    exact (List.mem_cons.mp h).imp (fun h => ⟨h, rfl⟩) id
  · rw [update_of_ne hdd] at h
    exact .inr h

lemma Good.schedule (h : Good s ls) (hc : s.chans c = some ch) (husers : ch.users = 0)
    (hpersist : ch.persist = false) (he : s.used e = false) (d : Delay) :
    ∃ ls', Good (schedule d s c ch e) ls' := by
  unfold DestructEvent.schedule
  cases hevent : ch.destructEvent with
  | some e₀ => exact ⟨ls, by simpa using h⟩
  | none =>
    rw [if_neg (by simp)]
    have hfresh : ∀ d, e ∉ ls d := fun d hd => by
      rw [h.used d e hd] at he
      cases he
    have hold : ∀ {d' e'}, e' ∈ ls d' → e' ≠ e := fun hd' hee => hfresh _ (hee ▸ hd')
    have hnewer : ∀ e' ∈ ls d, (s.events e').expires ≤ s.now + d.seconds := h.soon d
    refine ⟨update ls d (e :: ls d), ?_, ?_, ?_, ?_, ?_, ?_, ?_⟩
    · intro d'
      by_cases hdd : d' = d
      · subst hdd
        simpa using push_isDeque (h.links d') (hfresh d')
      · simp only [update_of_ne hdd]
        exact push_isDeque_of_notMem (h.links d) (h.links d')
          (fun y hy hy' => hdd (h.disjoint d d' y hy hy').symm) (hfresh d')
    · intro d₁ d₂ e' h₁ h₂
      obtain ⟨rfl, rfl⟩ | hold₁ := mem_update_cons h₁
      · obtain ⟨-, rfl⟩ | hold₂ := mem_update_cons h₂
        · rfl
        · exact absurd hold₂ (hfresh _)
      · obtain ⟨rfl, -⟩ | hold₂ := mem_update_cons h₂
        · exact absurd hold₁ (hfresh _)
        · exact h.disjoint d₁ d₂ e' hold₁ hold₂
    · intro d' e' hd'
      obtain ⟨rfl, rfl⟩ | hd' := mem_update_cons hd'
      · refine ⟨{ ch with destructEvent := some e' }, ?_, rfl, husers, hpersist⟩
        simp
      · obtain ⟨ch₁, hc₁, he₁, hempty⟩ := h.refers d' e' hd'
        have hcc : (s.events e').chptr ≠ c := by
          intro hcc
          rw [hcc, hc] at hc₁
          obtain rfl := some.inj hc₁
          rw [hevent] at he₁
          cases he₁
        exact ⟨ch₁, by simp [hold hd', hcc, hc₁], he₁, hempty⟩
    · intro c₁ ch₁ e₁ hc₁ he₁
      by_cases hcc : c₁ = c
      · subst hcc
        simp only [update_self, Option.some.injEq] at hc₁
        subst hc₁
        obtain rfl := some.inj he₁
        exact ⟨⟨d, by simp⟩, by simp⟩
      · simp only [update_of_ne hcc] at hc₁
        obtain ⟨⟨d', hd'⟩, hchptr⟩ := h.back c₁ ch₁ e₁ hc₁ he₁
        refine ⟨⟨d', ?_⟩, by simp [hold hd', hchptr]⟩
        by_cases hdd : d' = d
        · subst hdd
          rw [update_self]
          exact List.mem_cons_of_mem _ hd'
        · rwa [update_of_ne hdd]
    · intro d'
      have hsame : (ls d').Pairwise fun e₁ e₂ =>
          (update s.events e ⟨s.now + d.seconds, c⟩ e₂).expires ≤
            (update s.events e ⟨s.now + d.seconds, c⟩ e₁).expires := by
        refine (h.sorted d').imp_of_mem fun h₁ h₂ hle => ?_
        rw [update_of_ne (hold h₁), update_of_ne (hold h₂)]
        exact hle
      by_cases hdd : d' = d
      · subst hdd
        rw [update_self]
        refine List.pairwise_cons.mpr ⟨fun e' he' => ?_, hsame⟩
        simp only [update_of_ne (hold he'), update_self]
        exact hnewer e' he'
      · rwa [update_of_ne hdd]
    · intro d' e' hd'
      obtain ⟨rfl, rfl⟩ | hd' := mem_update_cons hd'
      · simp
      · simpa [hold hd'] using h.soon d' e' hd'
    · intro d' e' hd'
      obtain ⟨rfl, rfl⟩ | hd' := mem_update_cons hd'
      · simp
      · simpa [hold hd'] using h.used d' e' hd'

lemma Good.remove (h : Good s ls) (hc : s.chans c = some ch) (he : ch.destructEvent = some e) :
    Good (removeDestructEvent s c ch e) fun d => (ls d).erase e := by
  obtain ⟨⟨d, hd⟩, hchptr⟩ := h.back c ch e hc he
  have hnodup : ∀ d', (ls d').Nodup := fun d' => (h.links d').isList.nodup
  have hmem : ∀ {d' e'}, e' ∈ (ls d').erase e → e' ≠ e ∧ e' ∈ ls d' := fun hd' =>
    (hnodup _).mem_erase_iff.mp hd'
  refine ⟨?_, ?_, ?_, ?_, ?_, ?_, ?_⟩
  · intro d'
    by_cases hdd : d' = d
    · subst hdd
      exact cut_isDeque (h.links d') hd none
    · have hnot : e ∉ ls d' := fun hd' => hdd (h.disjoint d' d e hd' hd)
      rw [List.erase_of_not_mem hnot]
      exact cut_isDeque_of_notMem (h.links d) hd (h.links d')
        (fun y hy hy' => hdd (h.disjoint d d' y hy hy').symm) none
  · exact fun d₁ d₂ e' h₁ h₂ => h.disjoint d₁ d₂ e' (hmem h₁).2 (hmem h₂).2
  · intro d' e' hd'
    obtain ⟨hne, hd'⟩ := hmem hd'
    obtain ⟨ch₁, hc₁, he₁, hempty⟩ := h.refers d' e' hd'
    have hcc : (s.events e').chptr ≠ c := by
      intro hcc
      rw [hcc, hc] at hc₁
      obtain rfl := some.inj hc₁
      rw [he] at he₁
      exact hne (some.inj he₁).symm
    exact ⟨ch₁, by simp [removeDestructEvent, hcc, hc₁], he₁, hempty⟩
  · intro c₁ ch₁ e₁ hc₁ he₁
    by_cases hcc : c₁ = c
    · subst hcc
      simp only [removeDestructEvent, update_self, Option.some.injEq] at hc₁
      subst hc₁
      cases he₁
    · simp only [removeDestructEvent, update_of_ne hcc] at hc₁
      obtain ⟨⟨d', hd'⟩, hchptr₁⟩ := h.back c₁ ch₁ e₁ hc₁ he₁
      refine ⟨⟨d', (hnodup _).mem_erase_iff.mpr ⟨?_, hd'⟩⟩, hchptr₁⟩
      rintro rfl
      exact hcc (hchptr₁.symm.trans hchptr)
  · exact fun d' => (h.sorted d').sublist List.erase_sublist
  · exact fun d' e' hd' => h.soon d' e' (hmem hd').2
  · intro d' e' hd'
    obtain ⟨hne, hd'⟩ := hmem hd'
    simpa [removeDestructEvent, hne] using h.used d' e' hd'

lemma Good.cancel (h : Good s ls) (hc : s.chans c = some ch) :
    ∃ ls', Good (cancel s c ch) ls' ∧ (cancel s c ch).chans c = some { ch with destructEvent := none } := by
  unfold DestructEvent.cancel
  cases he : ch.destructEvent with
  | some e => exact ⟨_, h.remove hc he, by simp [removeDestructEvent]⟩
  | none => exact ⟨ls, h, by rw [hc, ← he]⟩

lemma Good.sub1 {feat : Features} (h : Good s ls) (hc : s.chans c = some ch) (he : s.used e = false)
    (hsafe : ch.destructEvent ≠ none →
      ch.persist = true ∨ ((ch.apass || feat.oplevels) = true ∧ feat.zannels = true)) :
    ∃ ls', Good (sub1FromChannel feat s c ch e) ls' := by
  have hempty : ch.destructEvent ≠ none → ch.users = 0 ∧ ch.persist = false := by
    intro hne
    obtain ⟨e', he'⟩ := Option.ne_none_iff_exists'.mp hne
    exact h.empty hc he'
  unfold sub1FromChannel
  split
  · next husers =>
    refine ⟨ls, h.setChan hc rfl fun hne => ?_⟩
    have := (hempty hne).1
    omega
  · have hzero : Good (s.setChan c (some { ch with users := 0 })) ls :=
      h.setChan hc rfl fun hne => ⟨rfl, (hempty hne).2⟩
    have hat : (s.setChan c (some { ch with users := 0 })).chans c = some { ch with users := 0 } := by
      simp [State.setChan]
    -- The channel is destroyed at once only if it has no event.
    have hgone : ch.destructEvent = none →
        ∃ ls', Good (destructChannel (s.setChan c (some { ch with users := 0 })) c) ls' := by
      intro hnone
      refine ⟨ls, hzero.setChan_none (fun ch' hch' => ?_) (by simp)⟩
      rw [hat] at hch'
      rw [← some.inj hch']
      exact hnone
    simp only
    split
    · exact ⟨ls, hzero⟩
    next hpersist =>
    have hpersist : ch.persist = false := by simpa using hpersist
    split
    · next hdirect =>
      apply hgone
      by_contra hne
      obtain hp | ⟨ha, -⟩ := hsafe hne
      · rw [hpersist] at hp
        cases hp
      · simp only [Bool.and_eq_true, Bool.not_eq_true'] at hdirect
        simp [hdirect] at ha
    split
    · split
      · exact hzero.schedule hat rfl hpersist he .minute
      · exact hzero.schedule hat rfl hpersist he .days
    · next hz =>
      apply hgone
      by_contra hne
      obtain hp | ⟨-, hz'⟩ := hsafe hne
      · rw [hpersist] at hp
        cases hp
      · exact hz hz'

lemma schedule_chan (hc : s.chans c = some ch) (d : Delay) : (schedule d s c ch e).chans c =
      some { ch with destructEvent := some (ch.destructEvent.getD e) } := by
  unfold schedule
  cases he : ch.destructEvent with
  | some e' =>
    rw [if_pos (by simp), hc, Option.getD_some, ← he]
  | none =>
    rw [if_neg (by simp)]
    simp

lemma modeLetters_eq (dirs : List Dir) : ∀ {s : State χ ε} {ch : Chan ε}, s.chans c = some ch →
    modeLetters s c e dirs =
      if ch.users = 0 ∧ .del ∈ dirs then schedule .minute s c ch e else s := by
  induction dirs with
  | nil => simp [modeLetters]
  | cons dir dirs ih =>
    intro s ch hc
    cases dir with
    | add =>
      rw [modeLetters, ih hc]
      simp
    | del =>
      rw [modeLetters, hc]
      simp only
      by_cases husers : ch.users = 0
      · have hout : ch.users = 0 ∧ Dir.del ∈ Dir.del :: dirs := ⟨husers, List.mem_cons_self⟩
        rw [if_pos husers, if_pos hout, ih (schedule_chan hc .minute)]
        split
        · rw [schedule, if_pos (by simp)]
        · rfl
      · rw [if_neg husers, ih hc, if_neg (fun h => husers h.1), if_neg (fun h => husers h.1)]

lemma schedule_setPersist (s : State χ ε) (c : χ) (ch : Chan ε) (e : ε) (p : Bool) (d : Delay) :
    (schedule d s c ch e).setChan c
        (some { ch with destructEvent := some (ch.destructEvent.getD e), persist := p }) =
      schedule d (s.setChan c (some { ch with persist := p })) c { ch with persist := p } e := by
  unfold schedule
  cases he : ch.destructEvent with
  | some e' =>
    rw [if_pos (by simp), if_pos (by simp)]
    rfl
  | none =>
    rw [if_neg (by simp), if_neg (by simp)]
    simp [State.setChan]

lemma Good.modePersist (h : Good s ls) (hc : s.chans c = some ch) (he : s.used e = false)
    {dirs : List Dir} {effective : Bool}
    (hsafe : ch.users = 0 → persistAfter ch.persist effective dirs = true →
      ch.destructEvent = none ∧ .del ∉ dirs) :
    ∃ ls', Good (modePersist s c e dirs effective) ls' := by
  unfold DestructEvent.modePersist
  generalize hp : persistAfter ch.persist effective dirs = p at hsafe
  have hset : Good (s.setChan c (some { ch with persist := p })) ls := by
    refine h.setChan hc rfl fun hne => ?_
    obtain ⟨e', he'⟩ := Option.ne_none_iff_exists'.mp hne
    obtain ⟨husers, -⟩ := h.empty hc he'
    refine ⟨husers, ?_⟩
    cases p with
    | false => rfl
    | true => exact absurd (hsafe husers rfl).1 hne
  rw [modeLetters_eq dirs hc]
  split
  · next hdel =>
    simp only [schedule_chan hc, hp]
    rw [schedule_setPersist]
    have hfalse : p = false := by
      cases p with
      | false => rfl
      | true => exact absurd hdel.2 (hsafe hdel.1 rfl).2
    have hat : (s.setChan c (some { ch with persist := p })).chans c = some { ch with persist := p } := by
      simp [State.setChan]
    exact hset.schedule hat hdel.1 hfalse he .minute
  · simp only [hc, hp]
    exact ⟨ls, hset⟩

lemma Good.execLoop (d : Delay) (n : ℕ) : ∀ {s : State χ ε} {ls : Delay → List ε}, Good s ls → ∃ s' gone ls',
    execLoop d n s = some (s', gone) ∧ Good s' ls' ∧ (∀ ch ∈ gone, ch.users = 0 ∧ ch.persist = false) ∧
    ((ls d).length ≤ n → ∀ e, (s'.ends d).bottom = some e → s'.now < (s'.events e).expires) := by
  induction n with
  | zero =>
    intro s ls h
    refine ⟨s, [], ls, rfl, h, by simp, fun hlen e hbottom => ?_⟩
    rw [(h.links d).bottom_eq, List.length_eq_zero_iff.mp (Nat.le_zero.mp hlen)] at hbottom
    cases hbottom
  | succ n ih =>
    intro s ls h
    rw [DestructEvent.execLoop]
    split
    · next hbottom =>
      exact ⟨s, [], ls, rfl, h, by simp, fun _ e he => by rw [hbottom] at he; cases he⟩
    · next e hbottom =>
      split
      · next hlater =>
        refine ⟨s, [], ls, rfl, h, by simp, fun _ e' he' => ?_⟩
        rw [hbottom] at he'
        exact some.inj he' ▸ hlater
      · have hmem : e ∈ ls d := by
          rw [(h.links d).bottom_eq] at hbottom
          exact List.mem_of_getLast? hbottom
        obtain ⟨ch, hc, he, hempty⟩ := h.refers d e hmem
        have hgone : Good (destructChannel (removeDestructEvent s (s.events e).chptr ch e)
            (s.events e).chptr) fun d => (ls d).erase e := by
          refine (h.remove hc he).setChan_none (fun ch' hch' => ?_) (by simp)
          simp only [removeDestructEvent, update_self, Option.some.injEq] at hch'
          rw [← hch']
        obtain ⟨s', gone, ls', hrun, hgood, hall, hdone⟩ := ih hgone
        refine ⟨s', ch :: gone, ls', ?_, hgood, ?_, fun hlen => hdone ?_⟩
        · simp only [hc, he, hrun, bind_eq_bind, bind_some]
        · intro ch' hch'
          obtain rfl | hch' := List.mem_cons.mp hch'
          · exact hempty
          · exact hall ch' hch'
        · have := List.length_erase_of_mem hmem
          omega

lemma Good.onChan (h : Good s ls) {f : Chan ε → State χ ε}
    (hf : ∀ ch, s.chans c = some ch → ∃ ls', Good (f ch) ls') : ∃ ls', Good (s.onChan c f) ls' := by
  unfold State.onChan
  split
  · next ch hc => exact hf ch hc
  · exact ⟨ls, h⟩

lemma Good.step {feat : Features} (h : Good s ls) {op : Op χ ε} (hsafe : Safe feat s op) : ∃ s' gone ls',
    step feat s op = some (s', gone) ∧ Good s' ls' ∧ ∀ ch ∈ gone, ch.users = 0 ∧ ch.persist = false := by
  -- Steps but the last one destroy nothing by an event.
  suffices hstep : (∃ s', DestructEvent.step feat s op = some (s', []) ∧ ∃ ls', Good s' ls') ∨
      ∃ n, op = .exec n by
    obtain ⟨s', hrun, ls', hgood⟩ | ⟨n, rfl⟩ := hstep
    · exact ⟨s', [], ls', hrun, hgood, by simp⟩
    · obtain ⟨s₁, gone₁, ls₁, hrun₁, hgood₁, hall₁, -⟩ := h.execLoop .minute n
      obtain ⟨s₂, gone₂, ls₂, hrun₂, hgood₂, hall₂, -⟩ := hgood₁.execLoop .days n
      refine ⟨s₂, gone₁ ++ gone₂, ls₂, ?_, hgood₂, ?_⟩
      · simp only [DestructEvent.step, execExpired, hrun₁, hrun₂, bind_eq_bind, bind_some]
      · intro ch hch
        obtain hch | hch := List.mem_append.mp hch
        · exact hall₁ ch hch
        · exact hall₂ ch hch
  cases op with
  | exec n => exact .inr ⟨n, rfl⟩
  | tick seconds =>
    refine .inl ⟨_, rfl, ls, h.links, h.disjoint, h.refers, h.back, h.sorted, ?_, h.used⟩
    intro d e he
    have := h.soon d e he
    simp only
    omega
  | create c creationtime =>
    refine .inl ⟨_, rfl, ls, ?_⟩
    split
    · exact h
    · next hnone => exact h.setChan_none (by simp [hnone]) (by simp)
  | join c =>
    refine .inl ⟨_, rfl, h.onChan fun ch hc => ?_⟩
    obtain ⟨ls', hgood, hat⟩ := h.cancel hc
    exact ⟨ls', hgood.setChan hat rfl (by simp)⟩
  | part c e =>
    refine .inl ⟨_, rfl, h.onChan fun ch hc => ?_⟩
    split
    · exact ⟨ls, h⟩
    · next hno =>
      push Not at hno
      refine h.sub1 hc (by simpa using hno.2) fun hne => ?_
      obtain ⟨e', he'⟩ := Option.ne_none_iff_exists'.mp hne
      exact absurd (h.empty hc he').1 hno.1
  | sub1 c e =>
    refine .inl ⟨_, rfl, h.onChan fun ch hc => ?_⟩
    split
    · exact ⟨ls, h⟩
    · next hno =>
      push Not at hno
      exact h.sub1 hc (by simpa using hno.2) (hsafe ch hc hno.1)
  | modePersist c e dirs effective =>
    refine .inl ⟨_, rfl, h.onChan fun ch hc => ?_⟩
    split
    · exact ⟨ls, h⟩
    · next hused => exact h.modePersist hc (by simpa using hused) (hsafe ch hc)
  | modes c apass creationtime =>
    refine .inl ⟨_, rfl, h.onChan fun ch hc => ⟨ls, h.setChan hc rfl fun hne => ?_⟩⟩
    obtain ⟨e', he'⟩ := Option.ne_none_iff_exists'.mp hne
    have hevent : ch.destructEvent = some e' := he'
    obtain ⟨husers, hpersist⟩ := h.empty hc hevent
    exact ⟨husers, hpersist⟩
  | destruct c =>
    refine .inl ⟨_, rfl, h.onChan fun ch hc => ?_⟩
    split
    · exact ⟨ls, h⟩
    · obtain ⟨ls', hgood, hat⟩ := h.cancel hc
      refine ⟨ls', hgood.setChan_none (fun ch' hch' => ?_) (by simp)⟩
      rw [hat] at hch'
      rw [← some.inj hch']

def init (now : ℕ) (events : ε → Event χ) (links : ε → Links ε) : State χ ε :=
  ⟨now, fun _ => none, events, fun _ => false, links, fun _ => ⟨none, none⟩⟩

/-- A run, with the channels that expired events destroyed. It fails when it reads what was freed. Source:
none: abstract model. -/
def run (feat : Features) : State χ ε → List (Op χ ε) → Option (State χ ε × List (Chan ε))
  | s, [] => some (s, [])
  | s, op :: ops => do
      let (s, gone) ← step feat s op
      let (s, gone') ← run feat s ops
      some (s, gone ++ gone')

/-- A run whose steps all meet the condition. -/
def SafeRun (feat : Features) : State χ ε → List (Op χ ε) → Prop
  | _, [] => True
  | s, op :: ops => Safe feat s op ∧ ∀ s' gone, step feat s op = some (s', gone) → SafeRun feat s' ops

lemma Good.run {feat : Features} (ops : List (Op χ ε)) : ∀ {s : State χ ε} {ls : Delay → List ε}, Good s ls →
    SafeRun feat s ops → ∃ s' gone ls', run feat s ops = some (s', gone) ∧ Good s' ls' ∧ ∀ ch ∈ gone, ch.users =
    0 ∧ ch.persist = false := by
  induction ops with
  | nil => exact fun h _ => ⟨_, [], _, rfl, h, by simp⟩
  | cons op ops ih =>
    intro s ls h hsafe
    obtain ⟨s₁, gone₁, ls₁, hrun₁, hgood₁, hall₁⟩ := h.step hsafe.1
    obtain ⟨s₂, gone₂, ls₂, hrun₂, hgood₂, hall₂⟩ := ih hgood₁ (hsafe.2 s₁ gone₁ hrun₁)
    refine ⟨s₂, gone₁ ++ gone₂, ls₂, ?_, hgood₂, ?_⟩
    · simp only [DestructEvent.run, hrun₁, hrun₂, bind_eq_bind, bind_some]
    · intro ch hch
      obtain hch | hch := List.mem_append.mp hch
      · exact hall₁ ch hch
      · exact hall₂ ch hch

/-- **Pending destruction is safe in every run whose steps leave no event behind**: nothing is read that was
freed, each event on a list is of an empty channel that points back to it, the lists are in order of expiry with
consistent links, and an expired event destroys no channel with users or with the persistent mode. -/
theorem destruct_safe (feat : Features) (now : ℕ) (events : ε → Event χ) (links : ε → Links ε)
    (ops : List (Op χ ε)) (hsafe : SafeRun feat (init now events links) ops) :
    ∃ s gone, run feat (init now events links) ops = some (s, gone) ∧ (∃ ls, Good s ls) ∧
      ∀ ch ∈ gone, ch.users = 0 ∧ ch.persist = false := by
  have hinit : Good (init now events links) fun _ => [] :=
    ⟨fun _ => isDeque_nil links, by simp, by simp, by simp [init], by simp, by simp, by simp⟩
  obtain ⟨s, gone, ls, hrun, hgood, hall⟩ := hinit.run ops hsafe
  exact ⟨s, gone, hrun, ⟨ls, hgood⟩, hall⟩

/-- A channel that is joined and left, and destroyed a minute later. -/
def joinPart : List (Op ℕ ℕ) :=
  [.create 1 1000, .join 1, .part 1 7, .tick 60, .exec 1]

/-- Addresses whose memory is zero. -/
def zeroed : State ℕ ℕ := init 1000 (fun _ => ⟨0, 0⟩) fun _ => ⟨none, none⟩

theorem destruct_safe_joinPart : ∃ s gone, run ⟨true, true⟩ zeroed joinPart = some (s, gone) ∧
    (∃ ls, Good s ls) ∧ ∀ ch ∈ gone, ch.users = 0 ∧ ch.persist = false := by
  apply destruct_safe
  exact ⟨trivial, fun _ _ _ => ⟨trivial, fun _ _ _ => ⟨trivial, fun _ _ _ =>
    ⟨trivial, fun _ _ _ => ⟨trivial, fun _ _ _ => trivial⟩⟩⟩⟩⟩

/-- **An expired event destroys a persistent channel, and another one is of a channel that is gone.** A MODE
`+z` for an empty channel leaves its event on the list; and `sub1_from_channel` destroys an empty channel whose
event a MODE `-z` has scheduled. -/
theorem persistent_destroyed : (run ⟨true, true⟩ zeroed
        [.create 1 1000, .join 1, .part 1 7, .modePersist 1 8 [.add] true, .tick 60, .exec 1]).map
        (fun r => r.2) = some [⟨0, true, false, 1000, some 7⟩] ∧
      (run ⟨false, false⟩ zeroed
        [.create 1 1000, .modePersist 1 7 [.add] true, .modePersist 1 8 [.del] true, .sub1 1 9, .tick 60,
          .exec 1]).isNone = true := by
  decide +kernel

end Nefarious.DestructEvent
