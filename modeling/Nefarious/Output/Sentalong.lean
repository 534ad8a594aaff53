import Mathlib.Algebra.Group.Nat.Defs
import Mathlib.Logic.Function.Basic
import Mathlib.Data.List.Nodup
import Mathlib.Data.Option.Basic
import Nefarious.Lib.Runs

/-!
# Sending along

A message for many clients goes only once over each connection: the connection is marked with the number of the
message, and the number wraps around.

Names: `send.c`.
-/

namespace Nefarious.Sentalong

open List (mem_cons)
open Function (update update_of_ne update_self)

open Lib

/-! ## The source functions -/

/-- Skip users that are +d. `send.h`. -/
def skipDeaf : ℕ := 0x01

/-- Skip users that are bursting. `send.h`. -/
def skipBurst : ℕ := 0x02

/-- Skip users that aren't chanops. `send.h`. -/
def skipNonops : ℕ := 0x04

/-- Skip users that aren't voiced. `send.h`. -/
def skipNonvoices : ℕ := 0x08

/-- Skip users that aren't halfopped. `send.h`. -/
def skipNonhops : ℕ := 0x10

/-- A user on a channel. `channel.h` `struct Membership`. -/
structure Membership where
  user : ℕ
  isZombie : Bool
  isDelayedJoin : Bool
  isChanOp : Bool
  isHalfOp : Bool
  hasVoice : Bool

/-- The connections. A client is given by its address, a connection by that of its client; the number is an
`int` that is compared only, so it is kept unsigned. `send.c`, `s_bsd.c`. -/
@[ext]
structure State where
  sentalongMarker : ℕ
  conSentalong : ℕ → ℕ
  cliFrom : ℕ → ℕ
  /-- `cli_fd`, when it is not negative. -/
  cliFd : ℕ → Option ℕ
  localClientArray : ℕ → Option ℕ
  /-- `HighestFd`; that it starts below zero makes no difference here. -/
  highestFd : ℕ

/-- The connection of a client is marked. `cli_sentalong`. -/
def State.mark (s : State) (c : ℕ) : State :=
  { s with conSentalong := update s.conSentalong (s.cliFrom c) s.sentalongMarker }

/-- The mark of the client with a descriptor is taken away. `bump_sentalong`. -/
def State.unmark (s : State) (marks : ℕ → ℕ) (ii : ℕ) : ℕ → ℕ :=
  match s.localClientArray ii with
  | some c => update marks (s.cliFrom c) 0
  | none => marks

/-- The marks of the clients below the highest descriptor are taken away. `bump_sentalong` -/
def State.resetMarks (s : State) : ℕ → ℕ :=
  (List.range s.highestFd).foldl s.unmark s.conSentalong

/-- Increment the marker. `bump_sentalong`. -/
def State.increment (s : State) : State :=
  if (s.sentalongMarker + 1) % 2 ^ 32 = 0 then
    { s with conSentalong := s.resetMarks, sentalongMarker := 1 }
  else { s with sentalongMarker := (s.sentalongMarker + 1) % 2 ^ 32 }

/-- Safely increment the sentalong marker. -/
def bumpSentalong (s : State) (one : Option ℕ) : State :=
  match one with
  | some c => s.increment.mark c
  | none => s.increment

/-- One user after the other gets the message, if it is connected and not marked; the connections that it goes
to. `sendcmdto_channel_butone`. -/
def State.each (s : State) : List ℕ → State × List ℕ
  | [] => (s, [])
  | user :: rest =>
    if (s.cliFd (s.cliFrom user)).isSome ∧ s.conSentalong (s.cliFrom user) ≠ s.sentalongMarker then
      ((s.mark user).each rest).map id (s.cliFrom user :: ·)
    else s.each rest

/-- A message to a channel, and what is asked about its members. `sendcmdto_channel_butone`. -/
structure Send where
  members : List Membership
  one : Option ℕ
  /-- Bitmask of SKIP_NONOPS, SKIP_NONVOICES, SKIP_DEAF, SKIP_BURST. -/
  skip : ℕ
  isDeaf : ℕ → Bool
  isBurstOrBurstAck : ℕ → Bool
  /-- `is_silenced` of the source by a user. -/
  isSilenced : ℕ → Bool
  /-- The server of `GlobalForwards`, when it is there. -/
  service : Option ℕ

/-- The channel modes of a member are skipped. `sendcmdto_channel_butone`, `sendcmdto_channel_servers_butone`.
-/
def skipModes (skip : ℕ) (member : Membership) : Bool :=
  (skip &&& skipNonops ≠ 0 ∧ !member.isChanOp) ∨
  (skip &&& skipNonhops ≠ 0 ∧ !member.isChanOp ∧ !member.isHalfOp) ∨
  (skip &&& skipNonvoices ≠ 0 ∧ !member.isChanOp ∧ !member.isHalfOp ∧ !member.hasVoice)

/-- Skip zombies, and deaf users. `sendcmdto_channel_butone`. -/
def Send.skips (a : Send) (s : State) (member : Membership) : Bool :=
  member.isZombie ∨ (a.skip &&& skipDeaf ≠ 0 ∧ a.isDeaf member.user) ∨ skipModes a.skip member ∨
  (a.skip &&& skipBurst ≠ 0 ∧ a.isBurstOrBurstAck (s.cliFrom member.user)) ∨ a.isSilenced member.user

/-- The users on the channel who are not skipped. `sendcmdto_channel_butone`. -/
def Send.users (a : Send) (s : State) : List ℕ :=
  (a.members.filter fun member => !a.skips s member).map Membership.user

/-- Consult service forwarding table. `sendcmdto_channel_butone`. -/
def State.forward (s : State) (service : Option ℕ) : State × List ℕ :=
  match service with
  | some c =>
    if s.conSentalong (s.cliFrom c) ≠ s.sentalongMarker then (s.mark c, [s.cliFrom c]) else (s, [])
  | none => (s, [])

/-- Send a command to all users on this channel, except for one and those that are skipped; the connections that
it goes to. -/
def sendcmdtoChannelButone (s : State) (a : Send) : State × List ℕ :=
  let t := bumpSentalong s a.one
  let r := t.each (a.users t)
  (r.1.forward a.service).map id (r.2 ++ ·)

/-- Send a command to all servers with users on a channel. -/
def sendcmdtoChannelServersButone (s : State) (source : ℕ) (members : List Membership) (one : Option ℕ)
    (skip : ℕ) : State × List ℕ :=
  let t := (bumpSentalong s one).mark source
  t.each ((members.filter fun member =>
    !(t.cliFrom member.user = member.user ∨ member.isZombie ∨ skipModes skip member)).map Membership.user)

/-- Send a command to all channels that a client is on; a channel is the membership of the client with its
members. `sendcmdto_common_channels_butone`, `sendcmdto_common_channels_capab_butone` (where `cap` are the users
with the capabilities). -/
def sendcmdtoCommonChannelsButone (s : State) (source : ℕ)
    (channels : List (Membership × List Membership)) (one : Option ℕ) (cap : ℕ → Bool) :
    State × List ℕ :=
  let t := bumpSentalong s (some source)
  let r := t.each (((channels.filter fun chan => !(chan.1.isZombie || chan.1.isDelayedJoin)).flatMap
    fun chan => chan.2.filter fun member =>
      t.cliFrom member.user = member.user ∧ some member.user ≠ one ∧ cap member.user).map Membership.user)
  (r.1, if t.cliFrom source = source ∧ some source ≠ one then r.2 ++ [source] else r.2)

/-- Send a command to the users of a list that match. -/
def sendcmdtoMatchButone (s : State) (clients : List ℕ) (one : Option ℕ) (matchIt : ℕ → Bool) :
    State × List ℕ :=
  (bumpSentalong s one).each (clients.filter matchIt)

/-- The highest descriptor in use, from one on. `s_bsd.c` `close_connection`. -/
def lowerFd (array : ℕ → Option ℕ) : ℕ → ℕ
  | 0 => 0
  | n + 1 => if (array (n + 1)).isSome then n + 1 else lowerFd array n

/-- A local client comes. `list.c` `make_client`; `s_auth.c` `start_auth`; `s_bsd.c`
`connect_server`. -/
def State.connect (s : State) (c fd : ℕ) : State :=
  { s with
    conSentalong := update s.conSentalong c 0
    cliFrom := update s.cliFrom c c
    cliFd := update s.cliFd c (some fd)
    highestFd := max s.highestFd fd
    localClientArray := update s.localClientArray fd (some c) }

/-- A connection is closed. `s_bsd.c`. -/
def closeConnection (s : State) (c : ℕ) : State :=
  let array := match s.cliFd c with
    | some fd => update s.localClientArray fd none
    | none => s.localClientArray
  { s with
    localClientArray := array
    cliFd := update s.cliFd c none
    highestFd := lowerFd array s.highestFd }

/-! ## The system -/

/-- Nobody is connected. `send.c`, `s_bsd.c`. -/
def State.start (conSentalong cliFrom : ℕ → ℕ) : State where
  sentalongMarker := 0
  conSentalong := conSentalong
  cliFrom := cliFrom
  cliFd := fun _ => none
  localClientArray := fun _ => none
  highestFd := 0

/-- What happens. -/
inductive Event
  | connect (c fd : ℕ)
  /-- A client behind a server comes. `list.c` `make_client`. -/
  | introduce (c link : ℕ)
  /-- `s_bsd.c` `close_connection`. -/
  | close (c : ℕ)
  /-- `sendcmdto_channel_butone`. -/
  | channel (a : Send)
  /-- `sendcmdto_channel_servers_butone`. -/
  | servers (source : ℕ) (members : List Membership) (one : Option ℕ) (skip : ℕ)
  /-- `sendcmdto_common_channels_butone`. -/
  | common (source : ℕ) (channels : List (Membership × List Membership)) (one : Option ℕ)
      (cap : ℕ → Bool)
  /-- `sendcmdto_match_butone`. -/
  | matching (clients : List ℕ) (one : Option ℕ) (matchIt : ℕ → Bool)

/-- New clients are not connected yet, and descriptors in use are not given again. -/
def State.allowed (s : State) : Event → Bool
  | .connect c fd => s.cliFd c = none ∧ s.localClientArray fd = none
  | .introduce c _ => s.cliFd c = none
  | _ => true

/-- When the marks are right: when the marker wraps around, the connection with the highest descriptor has no
mark. `bump_sentalong`. -/
def State.fits (s : State) : Event → Bool
  | .connect .. => true
  | .introduce .. => true
  | .close _ => true
  | _ => (s.sentalongMarker + 1) % 2 ^ 32 = 0 →
      (s.localClientArray s.highestFd).all fun c => s.conSentalong c = 0

/-- One event. `send.c`, `s_bsd.c`. -/
def State.step (s : State) : Event → Option State
  | .connect c fd => some (s.connect c fd)
  | .introduce c link => some { s with cliFrom := update s.cliFrom c link }
  | .close c => some (closeConnection s c)
  | .channel a => some (sendcmdtoChannelButone s a).1
  | .servers source members one skip => some (sendcmdtoChannelServersButone s source members one skip).1
  | .common source channels one cap => some (sendcmdtoCommonChannelsButone s source channels one cap).1
  | .matching clients one matchIt => some (sendcmdtoMatchButone s clients one matchIt).1

/-! ## The invariant -/

/-- No connection has a mark above the marker. -/
structure Sound (s : State) : Prop where
  own : ∀ c, (s.cliFd c).isSome → s.cliFrom c = c
  array : ∀ c n, s.cliFd c = some n → s.localClientArray n = some c
  highest : ∀ n, (s.localClientArray n).isSome → n ≤ s.highestFd
  marks : ∀ c, (s.cliFd c).isSome → s.conSentalong c ≤ s.sentalongMarker
  bound : s.sentalongMarker < 2 ^ 32

section Sound

variable {s t : State} {c n : ℕ}

lemma Sound.marked (h : Sound s) {marks : ℕ → ℕ}
    (hmarks : ∀ x, marks x = s.conSentalong x ∨ marks x = s.sentalongMarker) :
    Sound { s with conSentalong := marks } :=
  ⟨h.own, h.array, h.highest, fun x hx => (hmarks x).elim
    (fun e => Nat.le_trans (Nat.le_of_eq e) (h.marks x hx)) Nat.le_of_eq, h.bound⟩

lemma mark_conSentalong (s : State) (c x : ℕ) : (s.mark c).conSentalong x
    = if x = s.cliFrom c then s.sentalongMarker else s.conSentalong x := by
  simp only [State.mark]
  split
  · rename_i e
    rw [e, update_self]
  · rename_i e
    rw [update_of_ne e]

lemma Sound.mark (h : Sound s) (c : ℕ) : Sound (s.mark c) :=
  h.marked fun x => by
    by_cases e : x = s.cliFrom c
    · exact .inr (e ▸ update_self ..)
    · exact .inl (update_of_ne e ..)

lemma each_spec : (l : List ℕ) → (s : State) → (s.each l).1 = { s with
      conSentalong := fun x => if x ∈ (s.each l).2 then s.sentalongMarker else s.conSentalong x } ∧
    (s.each l).2.Nodup ∧
    ∀ x, x ∈ (s.each l).2 ↔ s.conSentalong x ≠ s.sentalongMarker ∧ (s.cliFd x).isSome ∧
      ∃ user ∈ l, s.cliFrom user = x
  | [], s => by simp [State.each]
  | user :: rest, s => by
    rw [State.each]
    split
    · rename_i hpass
      obtain ⟨hstate, hnodup, hmem⟩ := each_spec rest (s.mark user)
      have hout : s.cliFrom user ∉ ((s.mark user).each rest).2 := fun hin =>
        ((hmem _).mp hin).1 ((mark_conSentalong s user _).trans (if_pos rfl))
      refine ⟨?_, List.nodup_cons.mpr ⟨hout, hnodup⟩, fun x => ?_⟩
      · refine hstate.trans (State.ext rfl (funext fun x => ?_) rfl rfl rfl rfl)
        simp only [mark_conSentalong, mem_cons, Prod.map_snd]
        by_cases hin : x ∈ ((s.mark user).each rest).2
        · rw [if_pos hin, if_pos (.inr hin)]
          rfl
        · rw [if_neg hin]
          exact if_congr ⟨.inl, fun hor => hor.resolve_right hin⟩ rfl rfl
      · have hmem : x ∈ ((s.mark user).each rest).2 ↔ (s.mark user).conSentalong x ≠ s.sentalongMarker
            ∧ (s.cliFd x).isSome ∧ ∃ u ∈ rest, s.cliFrom u = x := hmem x
        rw [Prod.map_snd, mem_cons, hmem, mark_conSentalong]
        by_cases e : x = s.cliFrom user
        · subst e
          exact iff_of_true (.inl rfl) ⟨hpass.2, hpass.1, user, List.mem_cons_self, rfl⟩
        · rw [if_neg e, or_iff_right e]
          refine and_congr_right fun _ => and_congr_right fun _ => ⟨?_, ?_⟩
          · rintro ⟨u, hu, hx⟩
            exact ⟨u, List.mem_cons_of_mem _ hu, hx⟩
          · rintro ⟨u, hu, rfl⟩
            exact ⟨u, (mem_cons.mp hu).resolve_left fun e' => e (e' ▸ rfl), rfl⟩
    · rename_i hskip
      obtain ⟨hstate, hnodup, hmem⟩ := each_spec rest s
      refine ⟨hstate, hnodup, fun x => (hmem x).trans ?_⟩
      refine and_congr_right fun hne => and_congr_right fun hfd => ⟨?_, ?_⟩
      · rintro ⟨u, hu, hx⟩
        exact ⟨u, List.mem_cons_of_mem _ hu, hx⟩
      · rintro ⟨u, hu, rfl⟩
        refine ⟨u, (mem_cons.mp hu).resolve_left fun e => hskip ?_, rfl⟩
        exact e ▸ ⟨hfd, hne⟩

lemma foldl_unmark (s : State) (x : ℕ) : (l : List ℕ) → (marks : ℕ → ℕ) →
    l.foldl s.unmark marks x = 0 ∨ l.foldl s.unmark marks x = marks x ∧
      ∀ ii ∈ l, ∀ c, s.localClientArray ii = some c → s.cliFrom c ≠ x
  | [], marks => .inr ⟨rfl, fun _ hii => (nomatch hii)⟩
  | ii :: l, marks => by
    rw [List.foldl_cons]
    rcases foldl_unmark s x l (s.unmark marks ii) with hzero | ⟨hsame, hnot⟩
    · exact .inl hzero
    · rw [State.unmark] at hsame ⊢
      cases hc : s.localClientArray ii with
      | none =>
        simp only [hc] at hsame ⊢
        refine .inr ⟨hsame, fun jj hjj c hc' => ?_⟩
        rcases mem_cons.mp hjj with e | hjj
        · rw [e, hc] at hc'
          cases hc'
        · exact hnot jj hjj c hc'
      | some c =>
        simp only [hc] at hsame ⊢
        by_cases e : x = s.cliFrom c
        · rw [e, update_self] at hsame
          exact .inl (e ▸ hsame)
        · rw [update_of_ne e] at hsame
          refine .inr ⟨hsame, fun jj hjj d hd => ?_⟩
          rcases mem_cons.mp hjj with e' | hjj
          · rw [e', hc] at hd
            cases hd
            exact Ne.symm e
          · exact hnot jj hjj d hd

lemma Sound.increment (h : Sound s) (hfit : (s.sentalongMarker + 1) % 2 ^ 32 = 0 →
      (s.localClientArray s.highestFd).all (fun c => s.conSentalong c = 0) = true) :
    Sound s.increment ∧ ∀ c, (s.cliFd c).isSome → s.increment.conSentalong c < s.increment.sentalongMarker := by
  suffices hlt : ∀ c, (s.cliFd c).isSome → s.increment.conSentalong c < s.increment.sentalongMarker by
    refine ⟨?_, hlt⟩
    rw [State.increment] at hlt ⊢
    split
    · rename_i hwrap
      rw [if_pos hwrap] at hlt
      exact ⟨h.own, h.array, h.highest, fun c hc => Nat.le_of_lt (hlt c hc), Nat.one_lt_two_pow (by decide)⟩
    · rename_i hwrap
      rw [if_neg hwrap] at hlt
      exact ⟨h.own, h.array, h.highest, fun c hc => Nat.le_of_lt (hlt c hc), Nat.mod_lt _ (by decide)⟩
  intro c hc
  rw [State.increment]
  split
  · rename_i hwrap
    obtain ⟨n, hn⟩ := Option.isSome_iff_exists.mp hc
    have harray := h.array c n hn
    have hle := h.highest n (by rw [harray]; rfl)
    have hzero : s.resetMarks c = 0 := by
      rcases foldl_unmark s c (List.range s.highestFd) s.conSentalong with hzero | ⟨hsame, hnot⟩
      · exact hzero
      · rcases Nat.lt_or_eq_of_le hle with hlt | heq
        · exact absurd (h.own c hc) (hnot n (List.mem_range.mpr hlt) c harray)
        · have hall := hfit hwrap
          rw [← heq, harray] at hall
          exact hsame.trans (of_decide_eq_true hall)
    show s.resetMarks c < 1
    rw [hzero]
    decide
  · rename_i hwrap
    have hmark := h.marks c hc
    have hbound := h.bound
    show s.conSentalong c < (s.sentalongMarker + 1) % 2 ^ 32
    omega

/-- What the marks do not change. -/
structure Kept (s t : State) : Prop where
  cliFrom : t.cliFrom = s.cliFrom
  cliFd : t.cliFd = s.cliFd

lemma increment_kept (s : State) : Kept s s.increment := by
  rw [State.increment]
  split <;> exact ⟨rfl, rfl⟩

lemma Sound.bump (h : Sound s) (one : Option ℕ) (hfit : (s.sentalongMarker + 1) % 2 ^ 32 = 0 →
      (s.localClientArray s.highestFd).all (fun c => s.conSentalong c = 0) = true) :
    Sound (bumpSentalong s one) ∧ Kept s (bumpSentalong s one) ∧ ∀ c, (s.cliFd c).isSome →
      ((bumpSentalong s one).conSentalong c = (bumpSentalong s one).sentalongMarker
        ↔ some c = one.map s.cliFrom) := by
  obtain ⟨hsound, hlt⟩ := h.increment hfit
  obtain ⟨hfrom, hfd⟩ := increment_kept s
  cases one with
  | none => exact ⟨hsound, ⟨hfrom, hfd⟩, fun c hc => iff_of_false (Nat.ne_of_lt (hlt c hc)) (by simp)⟩
  | some d =>
    refine ⟨hsound.mark d, ⟨hfrom, hfd⟩, fun c hc => ?_⟩
    rw [bumpSentalong, mark_conSentalong, Option.map_some, Option.some.injEq, hfrom]
    split
    · rename_i e
      exact iff_of_true rfl e
    · rename_i e
      exact iff_of_false (Nat.ne_of_lt (hlt c hc)) e

lemma Sound.each (h : Sound s) (l : List ℕ) : Sound (s.each l).1 := by
  rw [(each_spec l s).1]
  refine h.marked fun x => ?_
  split
  · exact .inr rfl
  · exact .inl rfl

lemma Sound.forward (h : Sound s) (service : Option ℕ) : Sound (s.forward service).1 := by
  cases service with
  | none => exact h
  | some c =>
    rw [State.forward]
    split
    · exact h.mark c
    · exact h

lemma le_lowerFd (array : ℕ → Option ℕ) (hn : (array n).isSome) : (m : ℕ) → n ≤ m → n ≤ lowerFd array m
  | 0, hle => hle
  | m + 1, hle => by
    rw [lowerFd]
    split
    · exact hle
    · rename_i hnone
      refine le_lowerFd array hn m (Nat.le_of_lt_succ (Nat.lt_of_le_of_ne hle fun e => hnone ?_))
      rwa [e] at hn

lemma Sound.connect (h : Sound s) (hfree : s.localClientArray n = none) : Sound (s.connect c n) := by
  refine ⟨fun d hd => ?_, fun d m hm => ?_, fun m hm => ?_, fun d hd => ?_, h.bound⟩
  · by_cases e : d = c
    · exact (congrArg _ e).trans ((update_self ..).trans e.symm)
    · simp only [State.connect, update_of_ne e] at hd ⊢
      exact h.own d hd
  · by_cases e : d = c
    · simp only [State.connect, e, update_self, Option.some.injEq] at hm ⊢
      rw [hm, update_self]
    · simp only [State.connect, update_of_ne e] at hm ⊢
      have harray := h.array d m hm
      have hne : m ≠ n := fun e' => by
        rw [e', hfree] at harray
        cases harray
      rw [update_of_ne hne]
      exact harray
  · by_cases e : m = n
    · exact e ▸ Nat.le_max_right ..
    · simp only [State.connect, update_of_ne e] at hm ⊢
      exact Nat.le_trans (h.highest m hm) (Nat.le_max_left ..)
  · by_cases e : d = c
    · simp only [State.connect, e, update_self]
      exact Nat.zero_le _
    · simp only [State.connect, update_of_ne e] at hd ⊢
      exact h.marks d hd

lemma Sound.closeConnection (h : Sound s) (c : ℕ) : Sound (closeConnection s c) := by
  have hopen : ∀ d, ((Sentalong.closeConnection s c).cliFd d).isSome → d ≠ c ∧ (s.cliFd d).isSome := by
    intro d hd
    by_cases e : d = c
    · simp only [Sentalong.closeConnection, e, update_self] at hd
      cases hd
    · simp only [Sentalong.closeConnection, update_of_ne e] at hd
      exact ⟨e, hd⟩
  refine ⟨fun d hd => h.own d (hopen d hd).2, fun d m hm => ?_, fun m hm => ?_,
    fun d hd => h.marks d (hopen d hd).2, h.bound⟩
  · have hne := (hopen d (by rw [hm]; rfl)).1
    simp only [Sentalong.closeConnection, update_of_ne hne] at hm ⊢
    have harray := h.array d m hm
    cases hfd : s.cliFd c with
    | none => exact harray
    | some n =>
      have hmn : m ≠ n := fun e => by
        rw [e, h.array c n hfd] at harray
        exact hne (Option.some.inj harray).symm
      simp only [update_of_ne hmn]
      exact harray
  · refine le_lowerFd _ hm s.highestFd (h.highest m ?_)
    simp only [Sentalong.closeConnection] at hm
    cases hfd : s.cliFd c with
    | none => simpa only [hfd] using hm
    | some n =>
      simp only [hfd] at hm
      by_cases e : m = n
      · rw [e, update_self] at hm
        cases hm
      · rwa [update_of_ne e] at hm

lemma Sound.step {e : Event} (h : Sound s) (hok : s.allowed e = true) (hfit : s.fits e = true)
    (hstep : s.step e = some t) : Sound t := by
  cases e with
  | connect c n =>
    cases hstep
    exact h.connect (of_decide_eq_true hok).2
  | introduce c link =>
    cases hstep
    refine ⟨fun d hd => ?_, h.array, h.highest, h.marks, h.bound⟩
    have hne : d ≠ c := fun e => by
      have hnone : s.cliFd c = none := of_decide_eq_true hok
      rw [e, hnone] at hd
      cases hd
    exact (update_of_ne hne ..).trans (h.own d hd)
  | close c =>
    cases hstep
    exact h.closeConnection c
  | channel a =>
    cases hstep
    exact ((h.bump _ (of_decide_eq_true hfit)).1.each _).forward _
  | servers source members one skip =>
    cases hstep
    exact ((h.bump _ (of_decide_eq_true hfit)).1.mark source).each _
  | common source channels one cap =>
    cases hstep
    exact (h.bump _ (of_decide_eq_true hfit)).1.each _
  | matching clients one matchIt =>
    cases hstep
    exact (h.bump _ (of_decide_eq_true hfit)).1.each _

lemma forward_cases (s : State) (service : Option ℕ) : (s.forward service).2 = [] ∨ ∃ c, service = some c ∧
      s.conSentalong (s.cliFrom c) ≠ s.sentalongMarker ∧ (s.forward service).2 = [s.cliFrom c] := by
  cases service with
  | none => exact .inl rfl
  | some c =>
    rw [State.forward]
    split
    · rename_i hne
      exact .inr ⟨c, rfl, hne, rfl⟩
    · exact .inl rfl

/-- The connections of a message to a channel, before the service. `sendcmdto_channel_butone`. -/
def Send.sent (a : Send) (s : State) : List ℕ :=
  ((bumpSentalong s a.one).each (a.users (bumpSentalong s a.one))).2

lemma Sound.mem_sent (h : Sound s) {a : Send} (hfit : s.fits (.channel a) = true) (x : ℕ) :
    x ∈ a.sent s ↔ ∃ m ∈ a.members, a.skips s m = false ∧ (s.cliFd x).isSome ∧ s.cliFrom m.user = x ∧
      some x ≠ a.one.map s.cliFrom := by
  obtain ⟨-, ⟨hfrom, hfd⟩, hmark⟩ := h.bump a.one (of_decide_eq_true hfit)
  have hskips : ∀ m, a.skips (bumpSentalong s a.one) m = a.skips s m := fun m => by
    rw [Send.skips, Send.skips, hfrom]
  rw [Send.sent, (each_spec _ _).2.2, hfrom, hfd]
  constructor
  · rintro ⟨hne, hopen, user, huser, hx⟩
    obtain ⟨m, hm, rfl⟩ := List.mem_map.mp huser
    obtain ⟨hin, hpass⟩ := List.mem_filter.mp hm
    rw [hskips, Bool.not_eq_true'] at hpass
    exact ⟨m, hin, hpass, hopen, hx, fun hone => hne ((hmark x hopen).mpr hone)⟩
  · rintro ⟨m, hin, hpass, hopen, hx, hone⟩
    refine ⟨fun hmarked => hone ((hmark x hopen).mp hmarked), hopen, m.user, List.mem_map_of_mem ?_, hx⟩
    exact List.mem_filter.mpr ⟨hin, by rw [hskips, hpass]; rfl⟩

lemma count_channel (s : State) (a : Send) {x : ℕ} (hx : x ∈ (sendcmdtoChannelButone s a).2) :
    (sendcmdtoChannelButone s a).2.count x = 1 ∧
      (x ∈ a.sent s ∨ ∃ c, a.service = some c ∧ (bumpSentalong s a.one).cliFrom c = x) := by
  obtain ⟨hstate, hnodup, -⟩ := each_spec (a.users (bumpSentalong s a.one)) (bumpSentalong s a.one)
  obtain ⟨t, ht⟩ : ∃ t, ((bumpSentalong s a.one).each (a.users (bumpSentalong s a.one))).1 = t := ⟨_, rfl⟩
  have hout : (sendcmdtoChannelButone s a).2 = a.sent s ++ (t.forward a.service).2 := by
    rw [← ht]
    rfl
  have hnodup : (a.sent s).Nodup := hnodup
  have hmarked : ∀ y ∈ a.sent s, t.conSentalong y = t.sentalongMarker := fun y hy => by
    rw [← ht, hstate]
    exact if_pos hy
  have hfrom : t.cliFrom = (bumpSentalong s a.one).cliFrom := by rw [← ht, hstate]
  rw [hout] at hx ⊢
  rcases forward_cases t a.service with hnil | ⟨c, hc, hne, hone⟩
  · rw [hnil, List.append_nil] at hx ⊢
    exact ⟨List.count_eq_one_of_mem hnodup hx, .inl hx⟩
  · have hnot : t.cliFrom c ∉ a.sent s := fun hin => hne (hmarked _ hin)
    rw [hone] at hx ⊢
    rw [List.count_append]
    rcases List.mem_append.mp hx with hin | hin
    · have hother : x ∉ [t.cliFrom c] := fun e => hnot (List.mem_singleton.mp e ▸ hin)
      rw [List.count_eq_zero_of_not_mem hother, List.count_eq_one_of_mem hnodup hin]
      exact ⟨rfl, .inl hin⟩
    · obtain rfl := List.mem_singleton.mp hin
      rw [List.count_eq_zero_of_not_mem hnot, List.count_singleton_self]
      exact ⟨rfl, .inr ⟨c, hc, by rw [hfrom]⟩⟩

lemma Sound.channel (h : Sound s) {a : Send} (hfit : s.fits (.channel a) = true) : (∀ m ∈ a.members,
    a.skips s m = false → (s.cliFd (s.cliFrom m.user)).isSome → some (s.cliFrom m.user) ≠ a.one.map s.cliFrom →
    (sendcmdtoChannelButone s a).2.count (s.cliFrom m.user) = 1) ∧ ∀ x ∈ (sendcmdtoChannelButone s a).2,
    (sendcmdtoChannelButone s a).2.count x = 1 ∧ ((∃ m ∈ a.members, a.skips s m = false ∧ (s.cliFd x).isSome ∧
    s.cliFrom m.user = x ∧ some x ≠ a.one.map s.cliFrom) ∨ ∃ c, a.service = some c ∧ s.cliFrom c = x) := by
  obtain ⟨-, ⟨hfrom, -⟩, -⟩ := h.bump a.one (of_decide_eq_true hfit)
  refine ⟨fun m hm hpass hopen hone => ?_, fun x hx => ?_⟩
  · have hsent : s.cliFrom m.user ∈ a.sent s :=
      (h.mem_sent hfit _).mpr ⟨m, hm, hpass, hopen, rfl, hone⟩
    exact (count_channel s a (List.mem_append_left _ hsent)).1
  · obtain ⟨hcount, hwhy⟩ := count_channel s a hx
    rw [h.mem_sent hfit, hfrom] at hwhy
    exact ⟨hcount, hwhy⟩

end Sound

/-! ## Runs -/

lemma Sound.start (conSentalong cliFrom : ℕ → ℕ) : Sound (State.start conSentalong cliFrom) :=
  ⟨fun _ hc => (nomatch hc), fun _ _ hc => (nomatch hc), fun _ hn => (nomatch hn),
    fun _ hc => (nomatch hc), Nat.two_pow_pos 32⟩

/-- **Channel delivery is exactly once**: in every run in which the marker wraps around only while the
connection with the highest descriptor has no mark, a message to a channel goes exactly once over the connection
of each member that is not skipped and is connected, other than the skipped connection, and over no other but
that of the service. -/
theorem channel_exactly_once (conSentalong cliFrom : ℕ → ℕ) (es : List Event) (a : Send) {s : State}
    (hmeets : Runs.Meets State.step (fun s e => s.allowed e && s.fits e)
      (State.start conSentalong cliFrom) (es ++ [.channel a]))
    (hs : Runs.run State.step (State.start conSentalong cliFrom) es = some s) :
    (∀ m ∈ a.members, a.skips s m = false → (s.cliFd (s.cliFrom m.user)).isSome →
      some (s.cliFrom m.user) ≠ a.one.map s.cliFrom →
      (sendcmdtoChannelButone s a).2.count (s.cliFrom m.user) = 1) ∧
    ∀ x ∈ (sendcmdtoChannelButone s a).2, (sendcmdtoChannelButone s a).2.count x = 1 ∧
      ((∃ m ∈ a.members, a.skips s m = false ∧ (s.cliFd x).isSome ∧ s.cliFrom m.user = x ∧
        some x ≠ a.one.map s.cliFrom) ∨ ∃ c, a.service = some c ∧ s.cliFrom c = x) := by
  have hsound : Sound s := by
    refine Runs.Meets.of_run (fun s e t h hcond hstep => ?_) es (Sound.start ..) (hmeets.left es) hs
    rw [Bool.and_eq_true] at hcond
    exact h.step hcond.1 hcond.2 hstep
  obtain ⟨hcond, -⟩ := hmeets.right es hs
  rw [Bool.and_eq_true] at hcond
  exact hsound.channel hcond.2

theorem channel_exactly_once_example : ∃ s,
    Runs.run State.step (State.start (fun _ => 0) id) [.connect 1 5, .connect 2 6, .introduce 3 2,
      .introduce 4 2, .common 1 [] none fun _ => true] = some s ∧
    ∀ x ∈ (sendcmdtoChannelButone s ⟨[⟨1, false, false, true, false, false⟩,
      ⟨3, false, false, false, false, false⟩, ⟨4, false, false, false, false, false⟩], none, 0,
      fun _ => false, fun _ => false, fun _ => false, none⟩).2,
      (sendcmdtoChannelButone s ⟨[⟨1, false, false, true, false, false⟩,
        ⟨3, false, false, false, false, false⟩, ⟨4, false, false, false, false, false⟩], none, 0,
        fun _ => false, fun _ => false, fun _ => false, none⟩).2.count x = 1 := by
  obtain ⟨s, hs⟩ := Option.isSome_iff_exists.mp (show (Runs.run State.step
    (State.start (fun _ => 0) id) [.connect 1 5, .connect 2 6, .introduce 3 2, .introduce 4 2,
      .common 1 [] none fun _ => true]).isSome from by decide +kernel)
  exact ⟨s, hs, fun x hx =>
    ((channel_exactly_once (fun _ => 0) id _ _ (by decide +kernel) hs).2 x hx).1⟩

lemma run_idle : (n : ℕ) → (s : State) → s.sentalongMarker + n < 2 ^ 32 →
    Runs.run State.step s (List.replicate n (.matching [] none fun _ => false))
      = some { s with sentalongMarker := s.sentalongMarker + n }
  | 0, _, _ => rfl
  | n + 1, s, hn => by
    have hmod : (s.sentalongMarker + 1) % 2 ^ 32 = s.sentalongMarker + 1 := Nat.mod_eq_of_lt (by omega)
    have hstep : s.step (.matching [] none fun _ => false)
        = some { s with sentalongMarker := s.sentalongMarker + 1 } := by
      simp only [State.step, sendcmdtoMatchButone, bumpSentalong, State.increment, hmod,
        List.filter_nil, State.each, if_neg (Nat.succ_ne_zero _)]
    rw [List.replicate_succ, Runs.run, hstep, Option.bind_some,
      run_idle n _ (show s.sentalongMarker + 1 + n < 2 ^ 32 by omega)]
    simp only [Option.some.injEq, State.mk.injEq, and_true]
    omega

lemma meets_idle : (n : ℕ) → (s : State) →
    Runs.Meets State.step State.allowed s (List.replicate n (.matching [] none fun _ => false))
  | 0, _ => trivial
  | n + 1, _ => ⟨rfl, fun t _ => meets_idle n t⟩

/-- A member whose connection has the highest descriptor is marked, the marker wraps around, and the
member does not get the next message. -/
theorem channel_missed : ∃ (es : List Event) (a : Send) (s : State) (m : Membership),
    Runs.Meets State.step State.allowed (State.start (fun _ => 0) id) (es ++ [.channel a]) ∧
    Runs.run State.step (State.start (fun _ => 0) id) es = some s ∧
    m ∈ a.members ∧ a.skips s m = false ∧ (s.cliFd (s.cliFrom m.user)).isSome ∧
    some (s.cliFrom m.user) ≠ a.one.map s.cliFrom ∧ (sendcmdtoChannelButone s a).2 = [] := by
  obtain ⟨m, hm⟩ : ∃ m : Membership, m = ⟨1, false, false, false, false, false⟩ := ⟨_, rfl⟩
  obtain ⟨a, ha⟩ : ∃ a : Send, a = ⟨[m], none, 0, fun _ => false, fun _ => false, fun _ => false,
    none⟩ := ⟨_, rfl⟩
  obtain ⟨t, ht⟩ : ∃ t : State,
      t = (sendcmdtoChannelButone ((State.start (fun _ => 0) id).connect 1 5) a).1 := ⟨_, rfl⟩
  have hrun : Runs.run State.step (State.start (fun _ => 0) id) [.connect 1 5, .channel a] = some t := by
    rw [ht]
    rfl
  have hmarker : t.sentalongMarker = 1 := by
    rw [ht, ha, hm]
    decide +kernel
  have hidle := run_idle (2 ^ 32 - 2) t (by rw [hmarker]; decide)
  refine ⟨[.connect 1 5, .channel a] ++ List.replicate (2 ^ 32 - 2) (.matching [] none fun _ => false), a,
    { t with sentalongMarker := t.sentalongMarker + (2 ^ 32 - 2) }, m, ?_, ?_, ?_, ?_, ?_, ?_, ?_⟩
  · refine Runs.Meets.append _ (Runs.Meets.append _ ?_ fun u _ => meets_idle _ u) fun u _ => ?_
    · exact ⟨rfl, fun u _ => ⟨rfl, fun v _ => trivial⟩⟩
    · exact ⟨rfl, fun v _ => trivial⟩
  · rw [Runs.run_append, hrun, Option.bind_some, hidle]
  · rw [ha]
    exact List.mem_singleton_self m
  · rw [ht, ha, hm]
    decide +kernel
  · rw [ht, ha, hm]
    decide +kernel
  · rw [ha]
    exact fun h => (nomatch h)
  · rw [ht, ha, hm]
    decide +kernel

end Nefarious.Sentalong
