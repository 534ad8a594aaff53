import Mathlib.Algebra.BigOperators.Group.Finset.Basic
import Mathlib.Algebra.BigOperators.Group.Finset.Piecewise
import Mathlib.Algebra.BigOperators.Ring.Finset
import Mathlib.Algebra.Order.BigOperators.Group.Finset
import Mathlib.Tactic.Ring
import Nefarious.User.Modes

/-!
# Operators and their bookkeeping

A server counts its operators and its invisible users, and picks the handler of a local user's messages by
whether the user is an operator.

Names: `s_user.c`.
-/

namespace Nefarious.User

open Function (update)
open Option (some.inj)

/-! ## The letters of operators -/

/-- What the letters `o` and `O` of a command make of the two flags, and whether one of them has come with a
minus. `set_user_mode` (`case 'o'`, `case 'O'`). -/
structure OperLetters where
  oper : Bool
  locop : Bool
  minus : Bool
deriving DecidableEq

/-- One letter. `set_user_mode`. -/
def operLetter (what : Bool) (u : Umode) (_ : Option Str) (s : OperLetters) : OperLetters :=
  match u, what with
  | .oper, true => { s with oper := true }
  | .locop, true => { s with locop := true }
  | .oper, false => { oper := false, locop := false, minus := true }
  | .locop, false => { oper := false, locop := false, minus := true }
  | _, _ => s

/-- All letters of a command. `set_user_mode`. -/
def operLetters (words : List Str) (oper locop : Bool) : OperLetters :=
  walkWords operLetter 0 words true { oper := oper, locop := locop, minus := false }

/-- What the letters make of the flag of an operator: a user's own letters give nothing new. `set_user_mode` -/
def operAfter (byServer : Bool) (words : List Str) (oper locop : Bool) : Bool :=
  (operLetters words oper locop).oper && (byServer || oper)

/-- What they make of the flag of a local operator. `set_user_mode`. -/
def locopAfter (byServer : Bool) (words : List Str) (oper locop : Bool) : Bool :=
  (operLetters words oper locop).locop && (byServer || locop)

/-- The condition on a command for a local user with given flags: if `o` or `O` comes with a minus, then the
letters leave neither flag, or they give one that is new and take none away. `set_user_mode` -/
def KeepsHandler (byServer : Bool) (words : List Str) (oper locop : Bool) : Prop :=
  (operLetters words oper locop).minus = true →
    (operAfter byServer words oper locop = false ∧ locopAfter byServer words oper locop = false) ∨
    (((oper = false ∧ operAfter byServer words oper locop = true) ∨
        (locop = false ∧ locopAfter byServer words oper locop = true)) ∧
      (oper = true → operAfter byServer words oper locop = true) ∧
      (locop = true → locopAfter byServer words oper locop = true))

instance (byServer : Bool) (words : List Str) (oper locop : Bool) :
    Decidable (KeepsHandler byServer words oper locop) := inferInstanceAs (Decidable (_ → _))

/-- The scan of a command and the scan of its operator letters. -/
structure OperRel (c : Cli) (s : UmodeScan) (t : OperLetters) : Prop where
  same : SameCli c s.c
  oper : s.c.flags .oper = t.oper
  locop : s.c.flags .locop = t.locop
  handler : s.c.handler = if t.minus && c.mine && c.registered then .client else c.handler

variable {c : Cli} {r : Cli × UserStats} {f : Flag}

lemma OperRel.mapFlags {s : UmodeScan} {t : OperLetters} (h : OperRel c s t)
    {g : Flags → Flags} (ho : g s.c.flags .oper = s.c.flags .oper)
    (hl : g s.c.flags .locop = s.c.flags .locop) : OperRel c (s.mapFlags g) t :=
  ⟨⟨h.same.mine, h.same.registered, h.same.privs⟩, ho.trans h.oper, hl.trans h.locop, h.handler⟩

lemma OperRel.deoper {s : UmodeScan} {t : OperLetters} (h : OperRel c s t)
    {g : Flags → Flags} (ho : g s.c.flags .oper = false) (hl : g s.c.flags .locop = false) :
    OperRel c (s.mapFlags g).deoper { oper := false, locop := false, minus := true } := by
  have hm : s.c.mine = c.mine := h.same.mine
  have hr : s.c.registered = c.registered := h.same.registered
  have hs : SameCli c (s.mapFlags g).c := ⟨hm, hr, h.same.privs⟩
  refine ⟨sameCli_deoper hs, ?_, ?_, ?_⟩
  · unfold UmodeScan.deoper
    split
    · split <;> exact ho
    · exact ho
  · unfold UmodeScan.deoper
    split
    · split <;> exact hl
    · exact hl
  · have hh := h.handler
    cases hcm : c.mine <;> cases hcr : c.registered <;>
      simp [UmodeScan.deoper, UmodeScan.mapFlags, hm, hr, hcm, hcr, hh]

lemma OperRel.step (feat : UserFeat) (what : Bool) (m : Char) (arg : Option Str)
    (s : UmodeScan) (t : OperLetters) (h : OperRel c s t) :
    OperRel c (umodeStep feat what (umodeOf m) arg s) (operLetter what (umodeOf m) arg t) := by
  have hother : ∀ (s' : UmodeScan) (g : Flags → Flags), s'.c = s.c → g s.c.flags .oper = s.c.flags .oper →
      g s.c.flags .locop = s.c.flags .locop → OperRel c (s'.mapFlags g) t := by
    intro s' g hs ho hl
    have h' : OperRel c s' t := ⟨hs ▸ h.same, hs ▸ h.oper, hs ▸ h.locop, hs ▸ h.handler⟩
    exact h'.mapFlags (by rw [hs]; exact ho) (by rw [hs]; exact hl)
  cases hu : umodeOf m with
  | plus | minus | unknown => exact h
  | flag f =>
    have hf := umodeOf_flag hu
    refine h.mapFlags (putFlag_of_ne _ _ _ fun e => ?_) (putFlag_of_ne _ _ _ fun e => ?_)
    · exact hf (by rw [← e]; decide)
    · exact hf (by rw [← e]; decide)
  | snomask =>
    exact hother _ _ rfl (putFlag_of_ne _ _ _ (by decide)) (putFlag_of_ne _ _ _ (by decide))
  | oper =>
    cases what with
    | true =>
      exact ⟨⟨h.same.mine, h.same.registered, h.same.privs⟩, by simp [umodeStep, operLetter,
        UmodeScan.mapFlags], by simpa [umodeStep, operLetter, UmodeScan.mapFlags] using h.locop,
        h.handler⟩
    | false => exact h.deoper (by simp) (by simp)
  | locop =>
    cases what with
    | true =>
      exact ⟨⟨h.same.mine, h.same.registered, h.same.privs⟩, by simpa [umodeStep, operLetter,
        UmodeScan.mapFlags] using h.oper, by simp [umodeStep, operLetter, UmodeScan.mapFlags],
        h.handler⟩
    | false => exact h.deoper (by simp) (by simp)
  | hiddenhost =>
    simp only [umodeStep, operLetter]
    split
    · exact hother _ _ rfl (by simp) (by simp)
    · split
      · exact hother _ _ rfl (by simp) (by simp)
      · exact h
  | account | cloakhost | cloakip | fakehost =>
    simp only [umodeStep, operLetter]
    split
    · exact hother _ _ rfl (by simp) (by simp)
    · exact h
  | sethost =>
    simp only [umodeStep, operLetter]
    split
    · split
      · exact hother _ _ rfl (by simp) (by simp)
      · exact h
    · exact hother _ _ rfl (by simp) (by simp)

lemma operRel_scanUmodes (feat : UserFeat) (words : List Str) (c : Cli) :
    OperRel c (scanUmodes feat words c) (operLetters words (c.flags .oper) (c.flags .locop)) :=
  walkWords_rel (R := OperRel c) (fun what m arg s t h => h.step feat what m arg s t) words 0 true _ _
    ⟨⟨rfl, rfl, rfl⟩, rfl, rfl, rfl⟩

/-! ## One command -/

lemma ruledUmodes_oper (feat : UserFeat) (byServer : Bool) (words : List Str) (c : Cli)
    (hmine : c.mine = true) :
    (ruledUmodes feat byServer false words c).c.flags .oper = operAfter byServer words (c.flags .oper) (c.flags .locop) ∧
    (ruledUmodes feat byServer false words c).c.flags .locop = locopAfter byServer words (c.flags .oper) (c.flags .locop) ∧
    (ruledUmodes feat byServer false words c).c.handler =
      if (operLetters words (c.flags .oper) (c.flags .locop)).minus && c.registered then .client
      else c.handler := by
  obtain ⟨hsame, ho, hl, hh⟩ := operRel_scanUmodes feat words c
  rw [hmine, Bool.and_true] at hh
  unfold operAfter locopAfter
  rw [← ho, ← hl, ← hh]
  cases byServer with
  | true => exact ⟨by rw [Bool.true_or, Bool.and_true]; rfl, by rw [Bool.true_or, Bool.and_true]; rfl, rfl⟩
  | false =>
    have hr : (ruledUmodes feat false false words c).c.flags =
        revoke feat c.flags c.mine (scanUmodes feat words c).c.privs (scanUmodes feat words c).c.flags := by
      rw [← hsame.mine]
      rfl
    rw [hr, hmine]
    refine ⟨?_, ?_, rfl⟩
    · simp only [revoke, ↓clrIf_of_ne, ↓setIf_of_ne, ↓clrIf_self, ne_eq, reduceCtorEq,
        not_false_eq_true, Bool.false_or]
      cases c.flags .oper <;> cases (scanUmodes feat words c).c.flags .oper <;> rfl
    · simp only [revoke, ↓clrIf_of_ne, ↓setIf_of_ne, ↓clrIf_self, ne_eq, reduceCtorEq,
        not_false_eq_true, Bool.false_or, Bool.true_and]
      cases c.flags .locop <;> cases (scanUmodes feat words c).c.flags .locop <;> rfl

/-- The handler of a local user is right: it is the operators' one if and only if the user is a global or a
local operator. `set_user_mode`; `m_oper.c` `do_oper`. -/
def HandlerOk (c : Cli) : Prop := c.handler = .oper ↔ (c.flags .oper = true ∨ c.flags .locop = true)

instance (c : Cli) : Decidable (HandlerOk c) := inferInstanceAs (Decidable (_ ↔ _))

lemma operLetters_of_not_minus (words : List Str) (oper locop : Bool)
    (h : (operLetters words oper locop).minus = false) : (oper = true → (operLetters words oper locop).oper =
    true) ∧ (locop = true → (operLetters words oper locop).locop = true) := by
  have key : ∀ t : OperLetters, t = operLetters words oper locop → t.minus = false →
      (oper = true → t.oper = true) ∧ (locop = true → t.locop = true) := by
    intro t ht
    rw [ht]
    apply walkWords_keeps (P := fun t : OperLetters => t.minus = false →
      (oper = true → t.oper = true) ∧ (locop = true → t.locop = true))
    · intro what u arg s hs
      unfold operLetter
      split
      · exact fun hm => ⟨fun _ => rfl, (hs hm).2⟩
      · exact fun hm => ⟨(hs hm).1, fun _ => rfl⟩
      · exact fun hm => absurd hm (by decide)
      · exact fun hm => absurd hm (by decide)
      · exact hs
    · exact fun _ => ⟨id, id⟩
  exact key _ rfl h

lemma umode_handler_iff (feat : UserFeat) (byServer : Bool) (words : List Str) (c : Cli) (st : UserStats)
    (hmine : c.mine = true) (hreg : c.registered = true) (hok : HandlerOk c) :
    HandlerOk (applyUmodes feat byServer false words c st).1 ↔
    KeepsHandler byServer words (c.flags .oper) (c.flags .locop) := by
  have hs := applyUmodes_spec feat byServer false words c st
  obtain ⟨ho, hl, hh⟩ := ruledUmodes_oper feat byServer words c hmine
  have hnm := operLetters_of_not_minus words (c.flags .oper) (c.flags .locop)
  unfold HandlerOk KeepsHandler
  rw [hs.handler, if_pos hreg, hs.flags .oper (by decide), hs.flags .locop (by decide), ho, hl, hh]
  simp only [umodeHandler, hmine, hreg, ho, hl, Bool.and_true, Bool.true_and]
  unfold HandlerOk at hok
  by_cases hm : (operLetters words (c.flags .oper) (c.flags .locop)).minus = true
  · rw [hm]
    generalize operAfter byServer words (c.flags .oper) (c.flags .locop) = o'
    generalize locopAfter byServer words (c.flags .oper) (c.flags .locop) = l'
    cases c.flags .oper <;> cases c.flags .locop <;> cases o' <;> cases l' <;> simp
  · -- nothing is taken away, so only a new flag can change the handler
    have hm' := Bool.eq_false_iff.mpr hm
    obtain ⟨h₁, h₂⟩ := hnm hm'
    have ho' : c.flags .oper = true → operAfter byServer words (c.flags .oper) (c.flags .locop) = true := by
      intro h
      rw [operAfter, h₁ h, h, Bool.or_true, Bool.true_and]
    have hl' : c.flags .locop = true → locopAfter byServer words (c.flags .oper) (c.flags .locop) = true := by
      intro h
      rw [locopAfter, h₂ h, h, Bool.or_true, Bool.true_and]
    rw [hm']
    revert ho' hl' hok
    generalize operAfter byServer words (c.flags .oper) (c.flags .locop) = o'
    generalize locopAfter byServer words (c.flags .oper) (c.flags .locop) = l'
    cases c.flags .oper <;> cases c.flags .locop <;> cases o' <;> cases l' <;> simp

/-! ## Registration, OPER, exits -/

/-- The flags that the count of operators and of invisible users reads. `s_misc.c` `exit_one_client`. -/
def countsOper (fl : Flags) : ℤ := if fl .oper && !hiddenOper fl then 1 else 0

/-- `s_misc.c` `exit_one_client`. -/
def countsInv (fl : Flags) : ℤ := if fl .invisible then 1 else 0

/-- The end of a registration: the cloak, the host, the counters; privileges are cleared. `register_user` -/
def registerTail (feat : UserFeat) (c : Cli) (st : UserStats) : Cli × UserStats :=
  let c := userSetcloaked feat { c with registered := true }
  let c := if c.flags .hiddenhost then hideHostmask feat c else c
  (clearPrivs c,
    { opers := st.opers + countsOper c.flags, invClients := st.invClients + countsInv c.flags })

/-- The modes of the configuration for a new user, while it is not registered. `register_user`
(`client_get_default_umode`) -/
def defaultUmodes (feat : UserFeat) (umode : Option Str) (c : Cli) (st : UserStats) : Cli × UserStats :=
  match umode with
  | some modes => applyUmodes feat false false [modes] c st
  | none => (c, st)

/-- A spoofed host that applies to a new user. `register_user` (`find_shost_conf`). -/
def spoofHost (spoof : Option Str) (c : Cli) : Cli :=
  match spoof with
  | some h => { c with
      sethost := (if '@' ∈ h then h else c.username ++ '@' :: h).take (userLen + hostLen)
      flags := setFlag .hiddenhost (setFlag .sethost c.flags) }
  | none => c

def registerUser (feat : UserFeat) (umode spoof : Option Str) (c : Cli) (st : UserStats) : Cli × UserStats :=
  let r := defaultUmodes feat umode c st
  registerTail feat (spoofHost spoof { r.1 with registered := true, handler := .client }) r.2

/-- A local user becomes an operator: a global one with the privilege to propagate, else a local one.
`m_oper.c` `do_oper`, up to the modes of the configuration -/
def operBase (feat : UserFeat) (aconf : OperConf) (c : Cli) (st : UserStats) : Cli × UserStats :=
  let c := clientSetPrivs { c with flags := setFlag .oper c.flags } (some aconf)
  let fl := setFlag .locop (clrFlag .oper c.flags)
  let fl := if c.privs .propagate then setIf (c.privs .admin) .admin (setFlag .oper (clrFlag .locop fl))
    else fl
  let st := if c.privs .propagate && !hiddenOper fl then { st with opers := st.opers + 1 } else st
  let fl := setFlag .debug (setFlag .servnotice (setFlag .wallop fl))
  let snomask := if aconf.snomask &&& snoAll ≠ 0 then aconf.snomask &&& snoAll else feat.snomaskOperdefault
  let c := { c with flags := fl, handler := .oper }
  (setSnomask c (snomask ||| c.snomask), st)

/-- OPER of a local user that the configuration accepts. `m_oper.c` `do_oper`, `m_oper`. -/
def doOper (feat : UserFeat) (aconf : OperConf) (c : Cli) (st : UserStats) : Cli × UserStats :=
  let r := operBase feat aconf c st
  let r := defaultUmodes feat aconf.umode r.1 r.2
  let c := if feat.hostHidingStyle = 1 ∨ feat.hostHidingStyle = 3 then hideHostmask feat r.1 else r.1
  ({ c with flags := clrFlag .operedRemote (setFlag .operedLocal c.flags) }, r.2)

/-- OPER of a user elsewhere: this server computes privileges and sends them and the modes to the user's server;
the flag is set for the computation only. `m_oper.c` `do_oper` (not `MyUser`) -/
def doOperRemote (feat : UserFeat) (aconf : OperConf) (c : Cli) : Cli :=
  let c := clientSetPrivs { c with flags := setFlag .oper c.flags } (some aconf)
  let c := { c with flags := clrFlag .oper c.flags }
  if feat.hostHidingStyle = 1 ∨ feat.hostHidingStyle = 3 then hideHostmask feat c else c

/-- A connection before it is registered: no flag is set. `list.c` `make_client`. -/
def freshCli (c : Cli) : Cli := { c with
  registered := false, flags := fun _ => false, privs := fun _ => false, handler := .unregistered }

/-! ## The clients of a server -/

variable {ι : Type*} [DecidableEq ι]

/-- The clients of a server and its counters. `ircd.c` (`GlobalClientList`); `s_user.c` (`UserStats`).
-/
structure Users (ι : Type*) where
  ids : Finset ι
  cli : ι → Cli
  stats : UserStats

/-- Replace a client and the counters. -/
def Users.set (s : Users ι) (i : ι) (r : Cli × UserStats) : Users ι :=
  { s with cli := update s.cli i r.1, stats := r.2 }

/-- A registered user. `client.h`. -/
def Users.isUser (s : Users ι) (i : ι) : Bool := i ∈ s.ids && (s.cli i).registered

/-- A MODE: the link it comes from, its source (none for a server), what the two tables find, and the
parameters. `m_mode.c` `m_mode`, `ms_mode`. -/
structure ModeCmd (ι : Type*) where
  /-- `IsServer(cptr)`. -/
  byServer : Bool
  /-- `sptr`, if it is a user. -/
  sptr : Option ι
  findNUser : Str → Option ι
  findUser : Str → Option ι
  /-- `parv[1]`. -/
  target : Str
  words : List Str

/-- A source that the link can have: a local user has its own link, and servers and other users are behind the
link of a server. `parse.c` `parse_client`, `parse_server`. -/
def ModeCmd.plausible (m : ModeCmd ι) (s : Users ι) : Bool :=
  match m.sptr with
  | some i => s.isUser i && ((s.cli i).mine == !m.byServer)
  | none => m.byServer

/-- The user whose modes a MODE changes: the tables find registered users, and a command without a mode string
changes nothing. `set_user_mode`. -/
def ModeCmd.user (m : ModeCmd ι) (s : Users ι) : Option ι :=
  if m.words = [] ∨ m.plausible s = false then none
  else
    let find (f : Str → Option ι) (name : Str) : Option (Option ι) := ((f name).filter s.isUser).map some
    (umodeTarget m.byServer m.sptr Option.isNone (fun a => a.any fun i => (s.cli i).mine)
      (find m.findNUser) (find m.findUser) (some m.target)).join

/-- Events. `s_user.c`, `m_oper.c`, `m_mode.c`, `m_nick.c`, `s_misc.c`. -/
inductive Event (ι : Type*)
  | connect (i : ι) (c : Cli)
  /-- Modes for a connection that is not registered, by USER or by iauth. -/
  | preMode (feat : UserFeat) (i : ι) (words : List Str)
  | register (feat : UserFeat) (i : ι) (umode spoof : Option Str)
  /-- A NICK introduces a user; the names that its host finds decide whether its modes are read. -/
  | introduce (feat : UserFeat) (i : ι) (c : Cli) (other : Bool) (words : List Str)
  /-- OPER, with the block that the name and the password select. -/
  | oper (feat : UserFeat) (i : ι) (aconf : OperConf)
  /-- OPER that is sent to another server. -/
  | operAway (i : ι)
  | operRemote (feat : UserFeat) (i : ι) (aconf : OperConf)
  | mode (feat : UserFeat) (m : ModeCmd ι)
  | exit (i : ι)

/-- Remove a client: a registered user is taken out of the counts. `s_misc.c`. -/
def exitOneClient (s : Users ι) (i : ι) : Users ι :=
  { s with
    ids := s.ids.erase i
    stats := if (s.cli i).registered then
        { opers := s.stats.opers - countsOper (s.cli i).flags
          invClients := s.stats.invClients - countsInv (s.cli i).flags }
      else s.stats }

/-- A user that another server introduces. Its modes are read with its host as the name of the user they are
for; when that finds another user they are refused. `set_nick_name`, `register_user` -/
def introduceUser (feat : UserFeat) (c : Cli) (other : Bool) (words : List Str) (st : UserStats) :
    Cli × UserStats :=
  let c := { freshCli c with mine := false }
  let r := if other || words.isEmpty then (c, st) else applyUmodes feat true false words c st
  registerTail feat r.1 r.2

/-- One event. Events that cannot happen change nothing: OPER is handled by the handler of the connection, and
`m_oper` is the one of users who are no operators. `s_user.c`, `m_oper.c`, `m_mode.c`,
`m_nick.c`, `s_misc.c` -/
def Users.step (s : Users ι) : Event ι → Users ι
  | .connect i c =>
    if i ∈ s.ids then s
    else { s with
      ids := insert i s.ids
      cli := update s.cli i { freshCli c with mine := true } }
  | .preMode feat i words =>
    if i ∈ s.ids ∧ (s.cli i).mine ∧ !(s.cli i).registered then
      s.set i (applyUmodes feat false false words (s.cli i) s.stats)
    else s
  | .register feat i umode spoof =>
    if i ∈ s.ids ∧ (s.cli i).mine ∧ !(s.cli i).registered then
      s.set i (registerUser feat umode spoof (s.cli i) s.stats)
    else s
  | .introduce feat i c other words =>
    if i ∈ s.ids then s
    else { s with ids := insert i s.ids }.set i (introduceUser feat c other words s.stats)
  | .oper feat i aconf =>
    if s.isUser i ∧ (s.cli i).mine ∧ (s.cli i).handler = .client then
      s.set i (doOper feat aconf (s.cli i) s.stats)
    else s
  | .operAway i =>
    if s.isUser i ∧ (s.cli i).mine ∧ (s.cli i).handler = .client then
      s.set i ({ s.cli i with
        flags := clrFlag .operedLocal (setFlag .operedRemote (s.cli i).flags) }, s.stats)
    else s
  | .operRemote feat i aconf =>
    if s.isUser i ∧ !(s.cli i).mine ∧ !(s.cli i).flags .oper then
      s.set i (doOperRemote feat aconf (s.cli i), s.stats)
    else s
  | .mode feat m =>
    match m.user s with
    | some a => s.set a (applyUmodes feat m.byServer false m.words (s.cli a) s.stats)
    | none => s
  | .exit i => if i ∈ s.ids then exitOneClient s i else s

/-- The condition on an event: the modes of a MODE for a local user keep its handler, and so do those that a
configuration gives to an operator. `set_user_mode`. -/
def Users.Keeps (s : Users ι) : Event ι → Prop
  | .mode _ m => ∀ a, m.user s = some a → (s.cli a).mine = true →
      KeepsHandler m.byServer m.words ((s.cli a).flags .oper) ((s.cli a).flags .locop)
  | .oper _ _ aconf => ∀ w, aconf.umode = some w →
      KeepsHandler false [w] (confPrivs aconf .propagate) (!confPrivs aconf .propagate)
  | _ => True

/-- The states of runs whose events meet the condition. -/
inductive Users.Reach : Users ι → Prop
  | start (c : ι → Cli) : Reach { ids := ∅, cli := c, stats := { opers := 0, invClients := 0 } }
  | step {s : Users ι} (h : Reach s) (e : Event ι) (hk : s.Keeps e) : Reach (s.step e)

/-! ## The counters are sums -/

/-- What a client adds to a count. -/
def weigh (w : Flags → ℤ) (c : Cli) : ℤ := if c.registered then w c.flags else 0

def Users.total (s : Users ι) (w : Flags → ℤ) : ℤ := ∑ i ∈ s.ids, weigh w (s.cli i)

lemma sum_weigh_update (w : Flags → ℤ) (ids : Finset ι) (cli : ι → Cli) {i : ι} (hi : i ∈ ids) (c : Cli) :
    ∑ j ∈ ids, weigh w (update cli i c j) = ∑ j ∈ ids, weigh w (cli j) - weigh w (cli i) + weigh w c := by
  have h : ∀ j, weigh w (update cli i c j) = update (fun j => weigh w (cli j)) i (weigh w c) j := by
    intro j
    by_cases hj : j = i
    · subst hj
      simp
    · simp [hj]
  simp only [h]
  rw [Finset.sum_update_of_mem hi, ← Finset.add_sum_erase ids _ hi, Finset.sdiff_singleton_eq_erase]
  ring

lemma sum_weigh_insert (w : Flags → ℤ) (ids : Finset ι) (cli : ι → Cli) {i : ι} (hi : i ∉ ids) (c : Cli) :
    ∑ j ∈ insert i ids, weigh w (update cli i c j) = ∑ j ∈ ids, weigh w (cli j) + weigh w c := by
  have h : ∀ j ∈ ids, weigh w (update cli i c j) = weigh w (cli j) := by
    intro j hj
    have hne : j ≠ i := fun h => hi (h ▸ hj)
    rw [Function.update_of_ne hne]
  rw [Finset.sum_insert hi, Function.update_self, Finset.sum_congr rfl h, add_comm]

/-- The counters move with a client that is replaced. -/
structure Tallied (c : Cli) (st : UserStats) (r : Cli × UserStats) : Prop where
  opers : r.2.opers = st.opers - weigh countsOper c + weigh countsOper r.1
  inv : r.2.invClients = st.invClients - weigh countsInv c + weigh countsInv r.1

lemma Tallied.trans {st : UserStats} {r' : Cli × UserStats} (h : Tallied c st r)
    (h' : Tallied r.1 r.2 r') : Tallied c st r' := by
  refine ⟨?_, ?_⟩
  · rw [h'.opers, h.opers]
    ring
  · rw [h'.inv, h.inv]
    ring

/-- The flags that are counted. `s_misc.c` `exit_one_client`. -/
def counted : List Flag := [.oper, .hideOper, .chserv, .bot, .invisible]

lemma counts_congr {fl fl' : Flags} (h : ∀ f ∈ counted, fl f = fl' f) :
    countsOper fl = countsOper fl' ∧ countsInv fl = countsInv fl' := by
  simp [countsOper, countsInv, hiddenOper, h .oper (by decide), h .hideOper (by decide),
    h .chserv (by decide), h .bot (by decide), h .invisible (by decide)]

lemma Tallied.of_eq {c' : Cli} (st : UserStats) (hr : c'.registered = c.registered)
    (hf : ∀ f ∈ counted, c'.flags f = c.flags f) : Tallied c st (c', st) := by
  obtain ⟨ho, hi⟩ := counts_congr hf
  refine ⟨?_, ?_⟩
  · rw [weigh, weigh, hr, ho]
    ring
  · rw [weigh, weigh, hr, hi]
    ring

lemma settled_of_counted (h : f ∈ counted) : Settled f := by
  revert f
  decide

lemma opersDelta_eq (old fl : Flags) : opersDelta old fl = countsOper fl - countsOper old := by
  unfold opersDelta countsOper
  cases old .oper <;> cases fl .oper <;> cases hiddenOper old <;> cases hiddenOper fl <;> rfl

lemma invDelta_eq (old fl : Flags) : invDelta old fl = countsInv fl - countsInv old := by
  unfold invDelta countsInv
  cases old .invisible <;> cases fl .invisible <;> rfl

lemma tallied_applyUmodes (feat : UserFeat) (byServer : Bool) (words : List Str) (c : Cli)
    (st : UserStats) : Tallied c st (applyUmodes feat byServer false words c st) := by
  have hs := applyUmodes_spec feat byServer false words c st
  obtain ⟨ho, hi⟩ := counts_congr fun f hf => hs.flags f (settled_of_counted hf)
  refine ⟨?_, ?_⟩
  · rw [hs.stats, weigh, weigh, hs.registered, ho]
    split
    · rw [opersDelta_eq]
      ring
    · ring
  · rw [hs.stats, weigh, weigh, hs.registered, hi]
    split
    · rw [invDelta_eq]
      ring
    · ring

/-! ## Each operation -/

lemma hideHostmask_settled (feat : UserFeat) (c : Cli) (hf : Settled f) :
    (hideHostmask feat c).flags f = c.flags f := by
  rw [hideHostmask_flags]
  simp [hf.2.1, hf.2.2]

lemma userSetcloaked_settled (feat : UserFeat) (c : Cli) (hf : Settled f) :
    (userSetcloaked feat c).flags f = c.flags f := by
  rw [userSetcloaked_flags]
  simp [hf.2.1, hf.2.2]

lemma registerTail_spec (feat : UserFeat) (c c₀ : Cli) (st : UserStats) (h₀ : c₀.registered = false) :
    Tallied c₀ st (registerTail feat c st) ∧ (registerTail feat c st).1.mine = c.mine ∧
    (registerTail feat c st).1.registered = true ∧ (registerTail feat c st).1.handler = c.handler ∧
    ∀ f, Settled f → (registerTail feat c st).1.flags f = c.flags f := by
  obtain ⟨hs, hh⟩ := userSetcloaked_same feat { c with registered := true }
  have hf : ∀ f, Settled f → (userSetcloaked feat { c with registered := true }).flags f = c.flags f :=
    fun f hf => userSetcloaked_settled feat _ hf
  unfold registerTail clearPrivs
  set c₁ := userSetcloaked feat { c with registered := true }
  dsimp only
  have h₂ : ∀ c₂, c₂ = (if c₁.flags .hiddenhost = true then hideHostmask feat c₁ else c₁) →
      c₂.mine = c.mine ∧ c₂.registered = true ∧ c₂.handler = c.handler ∧
      ∀ f, Settled f → c₂.flags f = c.flags f := by
    intro c₂ hc₂
    obtain ⟨hs', hh'⟩ := hideHostmask_same feat c₁
    rw [hc₂]
    split
    · exact ⟨hs'.mine.trans hs.mine, hs'.registered.trans hs.registered, hh'.trans hh,
        fun f h => (hideHostmask_settled feat c₁ h).trans (hf f h)⟩
    · exact ⟨hs.mine, hs.registered, hh, hf⟩
  generalize hc₂ : (if c₁.flags .hiddenhost = true then hideHostmask feat c₁ else c₁) = c₂
  obtain ⟨hm, hr, hh₂, hf₂⟩ := h₂ c₂ hc₂.symm
  refine ⟨⟨?_, ?_⟩, hm, hr, hh₂, hf₂⟩
  · simp [weigh, h₀, hr]
  · simp [weigh, h₀, hr]

lemma applyUmodes_unregistered (feat : UserFeat) (words : List Str) (c : Cli) (st : UserStats)
    (hm : c.mine = true) (hr : c.registered = false) (ho : c.flags .oper = false)
    (hl : c.flags .locop = false) : (applyUmodes feat false false words c st).2 = st ∧
    (applyUmodes feat false false words c st).1.flags .oper = false ∧
    (applyUmodes feat false false words c st).1.flags .locop = false := by
  have hs := applyUmodes_spec feat false false words c st
  obtain ⟨hro, hrl, -⟩ := ruledUmodes_oper feat false words c hm
  refine ⟨?_, ?_, ?_⟩
  · rw [hs.stats, hr]
    rfl
  · rw [hs.flags .oper (by decide), hro, operAfter, ho, Bool.or_false, Bool.and_false]
  · rw [hs.flags .locop (by decide), hrl, locopAfter, hl, Bool.or_false, Bool.and_false]

lemma registerUser_spec (feat : UserFeat) (umode spoof : Option Str) (c : Cli) (st : UserStats)
    (hm : c.mine = true) (hr : c.registered = false) (ho : c.flags .oper = false)
    (hl : c.flags .locop = false) : Tallied c st (registerUser feat umode spoof c st) ∧
    (registerUser feat umode spoof c st).1.registered = true ∧
    HandlerOk (registerUser feat umode spoof c st).1 := by
  have hd : (defaultUmodes feat umode c st).2 = st ∧ (defaultUmodes feat umode c st).1.flags .oper = false ∧
      (defaultUmodes feat umode c st).1.flags .locop = false := by
    cases umode with
    | none => exact ⟨rfl, ho, hl⟩
    | some w => exact applyUmodes_unregistered feat [w] c st hm hr ho hl
  obtain ⟨hst, hdo, hdl⟩ := hd
  unfold registerUser
  dsimp only
  rw [hst]
  set d := { (defaultUmodes feat umode c st).1 with registered := true, handler := .client }
  have hsp : (spoofHost spoof d).handler = .client ∧ (spoofHost spoof d).flags .oper = false ∧
      (spoofHost spoof d).flags .locop = false := by
    cases spoof with
    | none => exact ⟨rfl, hdo, hdl⟩
    | some h => exact ⟨rfl, by simpa [spoofHost] using hdo, by simpa [spoofHost] using hdl⟩
  obtain ⟨htal, -, hreg, hh, hf⟩ := registerTail_spec feat (spoofHost spoof d) c st hr
  refine ⟨htal, hreg, ?_⟩
  unfold HandlerOk
  rw [hh, hf .oper (by decide), hf .locop (by decide), hsp.1, hsp.2.1, hsp.2.2]
  decide

lemma introduceUser_spec (feat : UserFeat) (c : Cli) (other : Bool) (words : List Str) (st : UserStats) :
    Tallied (freshCli c) st (introduceUser feat c other words st) ∧
    (introduceUser feat c other words st).1.mine = false := by
  unfold introduceUser
  dsimp only
  set d : Cli := { freshCli c with mine := false }
  have hs := applyUmodes_spec feat true false words d st
  split
  · obtain ⟨ht, hm, -⟩ := registerTail_spec feat d (freshCli c) st rfl
    exact ⟨ht, hm⟩
  · have hst : (applyUmodes feat true false words d st).2 = st := hs.stats
    rw [hst]
    obtain ⟨ht, hm, -⟩ := registerTail_spec feat (applyUmodes feat true false words d st).1 (freshCli c) st rfl
    exact ⟨ht, hm.trans hs.mine⟩

lemma correctPrivs_propagate (b : Bool) (privs : Privs) :
    correctPrivs b privs .propagate = privs .propagate := by
  unfold correctPrivs
  cases b <;> cases privs .propagate <;> decide

/-- The flags of a new operator. `m_oper.c` `do_oper`. -/
def operFlags (privs : Privs) (fl : Flags) : Flags :=
  let fl := setFlag .locop (clrFlag .oper (setFlag .oper fl))
  let fl := if privs .propagate then setIf (privs .admin) .admin (setFlag .oper (clrFlag .locop fl))
    else fl
  setFlag .debug (setFlag .servnotice (setFlag .wallop fl))

lemma operBase_eq (feat : UserFeat) (aconf : OperConf) (c : Cli) (st : UserStats) : ∃ m,
    operBase feat aconf c st = ({ c with
          snomask := m
          handler := .oper
          privs := correctPrivs (c.mine && c.registered) (confPrivs aconf)
          flags := operFlags (correctPrivs (c.mine && c.registered) (confPrivs aconf)) c.flags },
        if confPrivs aconf .propagate && !hiddenOper c.flags then { st with opers := st.opers + 1 }
        else st) := by
  have hop : isAnOper c.mine (setFlag .oper c.flags) = true := by simp [isAnOper]
  have hset : clientSetPrivs { c with flags := setFlag .oper c.flags } (some aconf) =
      { c with
        flags := setFlag .oper c.flags
        privs := correctPrivs (c.mine && c.registered) (confPrivs aconf) } := by
    unfold clientSetPrivs
    dsimp only
    rw [if_pos hop]
  unfold operBase
  rw [hset]
  refine ⟨_, Prod.ext rfl ?_⟩
  simp only [correctPrivs_propagate]
  cases confPrivs aconf .propagate with
  | false => simp
  | true => simp [hiddenOper, setIf_of_ne]

lemma operFlags_spec (privs : Privs) (fl : Flags) : operFlags privs fl .oper = privs .propagate ∧
    operFlags privs fl .locop = !privs .propagate ∧ ∀ f ∈ counted, f ≠ .oper → operFlags privs fl f = fl f := by
  unfold operFlags
  cases privs .propagate with
  | false =>
    refine ⟨by simp, by simp, fun f hf hne => ?_⟩
    revert f
    simp [counted]
  | true =>
    refine ⟨by simp [setIf_of_ne], by simp [setIf_of_ne], fun f hf hne => ?_⟩
    revert f
    simp [counted, setIf_of_ne]

lemma operBase_spec (feat : UserFeat) (aconf : OperConf) (c : Cli) (st : UserStats) (hr : c.registered = true)
    (ho : c.flags .oper = false) : Tallied c st (operBase feat aconf c st) ∧ (operBase feat aconf c st).1.mine =
    c.mine ∧ (operBase feat aconf c st).1.registered = true ∧ HandlerOk (operBase feat aconf c st).1 ∧
    (operBase feat aconf c st).1.flags .oper = confPrivs aconf .propagate ∧
    (operBase feat aconf c st).1.flags .locop = !confPrivs aconf .propagate := by
  obtain ⟨m, heq⟩ := operBase_eq feat aconf c st
  obtain ⟨hfo, hfl, hff⟩ := operFlags_spec (correctPrivs (c.mine && c.registered) (confPrivs aconf)) c.flags
  rw [correctPrivs_propagate] at hfo hfl
  rw [heq]
  generalize operFlags _ c.flags = fl at hfo hfl hff
  have hcount : countsOper fl = if confPrivs aconf .propagate && !hiddenOper c.flags then 1 else 0 := by
    simp [countsOper, hiddenOper, hfo, hff .hideOper (by decide) (by decide),
      hff .chserv (by decide) (by decide), hff .bot (by decide) (by decide)]
  have hinv : countsInv fl = countsInv c.flags := by
    simp [countsInv, hff .invisible (by decide) (by decide)]
  have hold : countsOper c.flags = 0 := by simp [countsOper, ho]
  refine ⟨⟨?_, ?_⟩, rfl, hr, ?_, hfo, hfl⟩
  · simp only [weigh, hr, if_true, hcount, hold]
    split <;> simp
  · simp only [weigh, hr, if_true, hinv]
    split <;> simp
  · unfold HandlerOk
    simp only [hfo, hfl]
    cases confPrivs aconf .propagate <;> decide

lemma doOper_spec (feat : UserFeat) (aconf : OperConf) (c : Cli) (st : UserStats)
    (hm : c.mine = true) (hr : c.registered = true) (ho : c.flags .oper = false)
    (hk : ∀ w, aconf.umode = some w →
      KeepsHandler false [w] (confPrivs aconf .propagate) (!confPrivs aconf .propagate)) :
    Tallied c st (doOper feat aconf c st) ∧ (doOper feat aconf c st).1.registered = true ∧
    HandlerOk (doOper feat aconf c st).1 := by
  obtain ⟨ht, hbm, hbr, hbh, hbo, hbl⟩ := operBase_spec feat aconf c st hr ho
  have hd : Tallied (operBase feat aconf c st).1 (operBase feat aconf c st).2
      (defaultUmodes feat aconf.umode (operBase feat aconf c st).1 (operBase feat aconf c st).2) ∧
      (defaultUmodes feat aconf.umode (operBase feat aconf c st).1
        (operBase feat aconf c st).2).1.registered = true ∧
      HandlerOk (defaultUmodes feat aconf.umode (operBase feat aconf c st).1
        (operBase feat aconf c st).2).1 := by
    cases hu : aconf.umode with
    | none => exact ⟨.of_eq _ rfl fun _ _ => rfl, hbr, hbh⟩
    | some w =>
      refine ⟨tallied_applyUmodes .., (applyUmodes_spec ..).registered.trans hbr, ?_⟩
      apply (umode_handler_iff feat false [w] _ _ (hbm.trans hm) hbr hbh).mpr
      rw [hbo, hbl]
      exact hk w hu
  obtain ⟨hdt, hdr, hdh⟩ := hd
  unfold doOper
  dsimp only
  generalize defaultUmodes feat aconf.umode _ _ = r at hdt hdr hdh
  have hhide : ∀ c', c' = (if feat.hostHidingStyle = 1 ∨ feat.hostHidingStyle = 3 then
      hideHostmask feat r.1 else r.1) → c'.registered = true ∧ c'.handler = r.1.handler ∧
      ∀ f, Settled f → c'.flags f = r.1.flags f := by
    intro c' hc'
    obtain ⟨hs, hh⟩ := hideHostmask_same feat r.1
    rw [hc']
    split
    · exact ⟨hs.registered.trans hdr, hh, fun f hf => hideHostmask_settled feat r.1 hf⟩
    · exact ⟨hdr, rfl, fun f _ => rfl⟩
  generalize hc' : (if feat.hostHidingStyle = 1 ∨ feat.hostHidingStyle = 3 then
    hideHostmask feat r.1 else r.1) = c'
  obtain ⟨hr', hh', hf'⟩ := hhide c' hc'.symm
  refine ⟨(ht.trans hdt).trans (.of_eq r.2 (hr'.trans hdr.symm) fun f hf => ?_), hr', ?_⟩
  · have hne : f ≠ .operedLocal ∧ f ≠ .operedRemote := by
      revert f
      decide
    rw [← hf' f (settled_of_counted hf)]
    simp [hne.1, hne.2]
  · unfold HandlerOk at hdh ⊢
    rw [← hf' .oper (by decide), ← hf' .locop (by decide), ← hh'] at hdh
    simpa using hdh

lemma doOperRemote_spec (feat : UserFeat) (aconf : OperConf) (c : Cli) (ho : c.flags .oper = false) :
    (doOperRemote feat aconf c).mine = c.mine ∧ (doOperRemote feat aconf c).registered = c.registered ∧
    ∀ f, Settled f → (doOperRemote feat aconf c).flags f = c.flags f := by
  have hset : ∀ d : Cli, (clientSetPrivs d (some aconf)).mine = d.mine ∧
      (clientSetPrivs d (some aconf)).registered = d.registered ∧
      (clientSetPrivs d (some aconf)).flags = d.flags := by
    intro d
    unfold clientSetPrivs
    dsimp only
    split <;> exact ⟨rfl, rfl, rfl⟩
  obtain ⟨hm, hr, hf⟩ := hset { c with flags := setFlag .oper c.flags }
  have hf' : ∀ f, clrFlag .oper (clientSetPrivs { c with flags := setFlag .oper c.flags }
      (some aconf)).flags f = c.flags f := by
    intro f
    rw [hf]
    by_cases h : f = .oper
    · subst h
      simp [ho]
    · simp [h]
  unfold doOperRemote
  dsimp only
  split
  · set d := { clientSetPrivs { c with flags := setFlag .oper c.flags } (some aconf) with
      flags := clrFlag .oper (clientSetPrivs { c with flags := setFlag .oper c.flags } (some aconf)).flags }
    obtain ⟨hs, -⟩ := hideHostmask_same feat d
    exact ⟨hs.mine.trans hm, hs.registered.trans hr, fun f h => (hideHostmask_settled feat d h).trans (hf' f)⟩
  · exact ⟨hm, hr, fun f _ => hf' f⟩

/-! ## Every state -/

/-- The invariant. -/
structure Users.Ok (s : Users ι) : Prop where
  opers : s.stats.opers = s.total countsOper
  inv : s.stats.invClients = s.total countsInv
  handler : ∀ i ∈ s.ids, (s.cli i).mine = true → (s.cli i).registered = true → HandlerOk (s.cli i)
  fresh : ∀ i ∈ s.ids, (s.cli i).mine = true → (s.cli i).registered = false →
    (s.cli i).flags .oper = false ∧ (s.cli i).flags .locop = false

/-- What a local client must meet. -/
def LocalOk (c : Cli) : Prop := c.mine = true → (c.registered = true → HandlerOk c) ∧
  (c.registered = false → c.flags .oper = false ∧ c.flags .locop = false)

omit [DecidableEq ι] in
lemma Users.Ok.local {s : Users ι} (h : s.Ok) {i : ι} (hi : i ∈ s.ids) : LocalOk (s.cli i) :=
  fun hm => ⟨h.handler i hi hm, h.fresh i hi hm⟩

lemma Users.Ok.set {s : Users ι} (h : s.Ok) {i : ι} (hi : i ∈ s.ids)
    (ht : Tallied (s.cli i) s.stats r) (hr : LocalOk r.1) : (s.set i r).Ok := by
  have hloc : ∀ j ∈ s.ids, LocalOk (update s.cli i r.1 j) := by
    intro j hj
    by_cases hji : j = i
    · subst hji
      rwa [Function.update_self]
    · rw [Function.update_of_ne hji]
      exact h.local hj
  refine ⟨?_, ?_, fun j hj hm => (hloc j hj hm).1, fun j hj hm => (hloc j hj hm).2⟩
  · show r.2.opers = ∑ j ∈ s.ids, weigh countsOper (update s.cli i r.1 j)
    rw [sum_weigh_update countsOper s.ids s.cli hi, ht.opers, h.opers]
    rfl
  · show r.2.invClients = ∑ j ∈ s.ids, weigh countsInv (update s.cli i r.1 j)
    rw [sum_weigh_update countsInv s.ids s.cli hi, ht.inv, h.inv]
    rfl

lemma Users.Ok.insert {s : Users ι} (h : s.Ok) {i : ι} (hi : i ∉ s.ids)
    (hc : c.registered = false) (ht : Tallied c s.stats r) (hr : LocalOk r.1) :
    ({ s with ids := Insert.insert i s.ids }.set i r).Ok := by
  have hloc : ∀ j ∈ Insert.insert i s.ids, LocalOk (update s.cli i r.1 j) := by
    intro j hj
    by_cases hji : j = i
    · subst hji
      rwa [Function.update_self]
    · rw [Function.update_of_ne hji]
      exact h.local (Finset.mem_of_mem_insert_of_ne hj hji)
  have hw : ∀ w, weigh w c = 0 := fun w => by simp [weigh, hc]
  refine ⟨?_, ?_, fun j hj hm => (hloc j hj hm).1, fun j hj hm => (hloc j hj hm).2⟩
  · show r.2.opers = ∑ j ∈ Insert.insert i s.ids, weigh countsOper (update s.cli i r.1 j)
    rw [sum_weigh_insert countsOper s.ids s.cli hi, ht.opers, h.opers, hw, sub_zero]
    rfl
  · show r.2.invClients = ∑ j ∈ Insert.insert i s.ids, weigh countsInv (update s.cli i r.1 j)
    rw [sum_weigh_insert countsInv s.ids s.cli hi, ht.inv, h.inv, hw, sub_zero]
    rfl

lemma Users.Ok.exit {s : Users ι} (h : s.Ok) {i : ι} (hi : i ∈ s.ids) : (exitOneClient s i).Ok := by
  have hsum : ∀ w, ∑ j ∈ s.ids.erase i, weigh w (s.cli j) = s.total w - weigh w (s.cli i) := by
    intro w
    rw [Users.total, ← Finset.add_sum_erase s.ids _ hi]
    ring
  refine ⟨?_, ?_, fun j hj => h.handler j (Finset.mem_of_mem_erase hj),
    fun j hj => h.fresh j (Finset.mem_of_mem_erase hj)⟩
  · show _ = ∑ j ∈ s.ids.erase i, weigh countsOper (s.cli j)
    rw [hsum, ← h.opers, weigh]
    unfold exitOneClient
    split <;> simp
  · show _ = ∑ j ∈ s.ids.erase i, weigh countsInv (s.cli j)
    rw [hsum, ← h.inv, weigh]
    unfold exitOneClient
    split <;> simp

lemma ModeCmd.isUser_of_user {m : ModeCmd ι} {s : Users ι} {a : ι} (h : m.user s = some a) :
    s.isUser a = true := by
  unfold ModeCmd.user at h
  split at h
  · exact absurd h (by simp)
  · next hp =>
      have hp' : m.plausible s = true := by
        by_contra hn
        exact hp (.inr (Bool.eq_false_iff.mpr hn))
      have hfind : ∀ (f : Str → Option ι) (name : Str) (x : Option ι),
          ((f name).filter s.isUser).map some = some x → ∃ b, x = some b ∧ s.isUser b = true := by
        intro f name x hx
        obtain ⟨b, hb, rfl⟩ := Option.map_eq_some_iff.mp hx
        exact ⟨b, rfl, (Option.filter_eq_some_iff.mp hb).2⟩
      obtain ⟨x, hx, hxa⟩ : ∃ x, umodeTarget m.byServer m.sptr Option.isNone _ _ _ _ = some x ∧ x = some a := by
        simpa [Option.join_eq_some_iff] using h
      subst hxa
      obtain ⟨hx, hsrc⟩ := Option.filter_eq_some_iff.mp hx
      dsimp only at hx
      rcases Option.or_eq_some_iff.mp hx with hN | ⟨-, hx⟩
      · split at hN
        · obtain ⟨b, hb, hbu⟩ := hfind _ _ _ hN
          rwa [some.inj hb]
        · exact absurd hN (by simp)
      · rcases Option.or_eq_some_iff.mp hx with hU | ⟨-, hs⟩
        · obtain ⟨b, hb, hbu⟩ := hfind _ _ _ hU
          rwa [some.inj hb]
        · split at hs
          · have hsp : m.sptr = some a := some.inj hs
            unfold ModeCmd.plausible at hp'
            rw [hsp] at hp'
            exact (Bool.and_eq_true_iff.mp hp').1
          · exact absurd hs (by simp)

lemma Users.isUser_iff {s : Users ι} {i : ι} :
    s.isUser i = true ↔ i ∈ s.ids ∧ (s.cli i).registered = true := by
  simp [Users.isUser]

lemma HandlerOk.not_oper (h : HandlerOk c) (hc : c.handler = .client) :
    c.flags .oper = false ∧ c.flags .locop = false := by
  have hn : ¬ (c.flags .oper = true ∨ c.flags .locop = true) := by
    unfold HandlerOk at h
    rw [← h, hc]
    decide
  exact ⟨Bool.eq_false_iff.mpr fun h => hn (.inl h), Bool.eq_false_iff.mpr fun h => hn (.inr h)⟩

lemma Users.Ok.step {s : Users ι} (h : s.Ok) (e : Event ι) (hk : s.Keeps e) : (s.step e).Ok := by
  cases e with
  | connect i c =>
    simp only [Users.step]
    split
    · exact h
    · next hi =>
        apply h.insert hi (c := freshCli c) rfl (r := ({ freshCli c with mine := true }, s.stats))
        · exact .of_eq s.stats rfl fun _ _ => rfl
        · exact fun _ => ⟨fun hr => absurd hr (by simp [freshCli]), fun _ => ⟨rfl, rfl⟩⟩
  | preMode feat i words =>
    simp only [Users.step]
    split
    · next hc =>
        obtain ⟨hi, hm, hr⟩ := hc
        have hr' : (s.cli i).registered = false := by simpa using hr
        obtain ⟨ho, hl⟩ := h.fresh i hi hm hr'
        have hs := applyUmodes_spec feat false false words (s.cli i) s.stats
        obtain ⟨-, ho', hl'⟩ := applyUmodes_unregistered feat words (s.cli i) s.stats hm hr' ho hl
        apply h.set hi (tallied_applyUmodes ..)
        exact fun _ => ⟨fun hreg => absurd (hs.registered.symm.trans hreg) (by simp [hr']),
          fun _ => ⟨ho', hl'⟩⟩
    · exact h
  | register feat i umode spoof =>
    simp only [Users.step]
    split
    · next hc =>
        obtain ⟨hi, hm, hr⟩ := hc
        have hr' : (s.cli i).registered = false := by simpa using hr
        obtain ⟨ho, hl⟩ := h.fresh i hi hm hr'
        obtain ⟨ht, hreg, hh⟩ := registerUser_spec feat umode spoof (s.cli i) s.stats hm hr' ho hl
        exact h.set hi ht fun _ => ⟨fun _ => hh, fun hn => absurd (hreg.symm.trans hn) (by decide)⟩
    · exact h
  | introduce feat i c other words =>
    simp only [Users.step]
    split
    · exact h
    · next hi =>
        obtain ⟨ht, hm⟩ := introduceUser_spec feat c other words s.stats
        exact h.insert hi (c := freshCli c) rfl ht fun hmine => absurd (hm.symm.trans hmine) (by decide)
  | oper feat i aconf =>
    simp only [Users.step]
    split
    · next hc =>
        obtain ⟨hu, hm, hh⟩ := hc
        obtain ⟨hi, hr⟩ := Users.isUser_iff.mp hu
        obtain ⟨ho, -⟩ := (h.handler i hi hm hr).not_oper hh
        obtain ⟨ht, hreg, hok⟩ := doOper_spec feat aconf (s.cli i) s.stats hm hr ho hk
        exact h.set hi ht fun _ => ⟨fun _ => hok, fun hn => absurd (hreg.symm.trans hn) (by decide)⟩
    · exact h
  | operAway i =>
    simp only [Users.step]
    split
    · next hc =>
        obtain ⟨hu, hm, -⟩ := hc
        obtain ⟨hi, hr⟩ := Users.isUser_iff.mp hu
        have hok := h.handler i hi hm hr
        apply h.set hi
        · apply Tallied.of_eq s.stats
          · rfl
          · intro f hf
            have hne : f ≠ .operedLocal ∧ f ≠ .operedRemote := by
              revert f
              decide
            simp [hne.1, hne.2]
        · refine fun _ => ⟨fun _ => ?_, fun hn => absurd (hr.symm.trans hn) (by decide)⟩
          unfold HandlerOk at hok ⊢
          simpa using hok
    · exact h
  | operRemote feat i aconf =>
    simp only [Users.step]
    split
    · next hc =>
        obtain ⟨hu, hm, ho⟩ := hc
        obtain ⟨hi, hr⟩ := Users.isUser_iff.mp hu
        have ho' : (s.cli i).flags .oper = false := by simpa using ho
        obtain ⟨hmine, hreg, hf⟩ := doOperRemote_spec feat aconf (s.cli i) ho'
        apply h.set hi (.of_eq s.stats hreg fun f hf' => hf f (settled_of_counted hf'))
        exact fun hmine' => absurd (hmine.symm.trans hmine') (by simpa using hm)
    · exact h
  | mode feat m =>
    simp only [Users.step]
    split
    · next a ha =>
        obtain ⟨hi, hr⟩ := Users.isUser_iff.mp (m.isUser_of_user ha)
        have hs := applyUmodes_spec feat m.byServer false m.words (s.cli a) s.stats
        apply h.set hi (tallied_applyUmodes ..)
        intro hm
        have hm' : (s.cli a).mine = true := hs.mine.symm.trans hm
        refine ⟨fun _ => ?_, fun hn => absurd ((hs.registered.symm.trans hn).symm.trans hr) (by decide)⟩
        exact (umode_handler_iff feat m.byServer m.words (s.cli a) s.stats hm' hr
          (h.handler a hi hm' hr)).mpr (hk a ha hm')
    · exact h
  | exit i =>
    simp only [Users.step]
    split
    · next hi => exact h.exit hi
    · exact h

lemma Users.Reach.ok {s : Users ι} (h : s.Reach) : s.Ok := by
  induction h with
  | start c => exact ⟨rfl, rfl, fun i hi => absurd hi (by simp), fun i hi => absurd hi (by simp)⟩
  | step _ e hk ih => exact ih.step e hk

omit [DecidableEq ι] in
lemma Users.total_eq_card (s : Users ι) (p : Flags → Bool) : s.total (fun fl => if p fl then 1 else 0) =
      (s.ids.filter fun i => (s.cli i).registered && p (s.cli i).flags).card := by
  rw [Finset.card_filter, Users.total, Nat.cast_sum]
  refine Finset.sum_congr rfl fun i _ => ?_
  by_cases hr : (s.cli i).registered = true <;> by_cases hp : p (s.cli i).flags = true <;>
    simp [weigh, hr, hp]

/-- **Operators and invisible users are counted, and handlers are right**, in every state of a run whose
commands meet the condition. -/
theorem opers_reach {s : Users ι} (h : s.Reach) :
    s.stats.opers = (s.ids.filter fun i => (s.cli i).registered && ((s.cli i).flags .oper &&
      !((s.cli i).flags .hideOper || (s.cli i).flags .chserv || (s.cli i).flags .bot))).card ∧
    s.stats.invClients = (s.ids.filter fun i => (s.cli i).registered && (s.cli i).flags .invisible).card ∧
    ∀ i ∈ s.ids, (s.cli i).mine = true → (s.cli i).registered = true →
      ((s.cli i).handler = .oper ↔ ((s.cli i).flags .oper = true ∨ (s.cli i).flags .locop = true)) := by
  have hok := h.ok
  refine ⟨?_, ?_, hok.handler⟩
  · rw [hok.opers]
    exact s.total_eq_card fun fl => fl .oper && !hiddenOper fl
  · rw [hok.inv]
    exact s.total_eq_card fun fl => fl .invisible

/-! ## Samples -/

/-- A global operator's block without modes. -/
def globalConf : OperConf where
  own := { dirty := fun p => p = .propagate, privs := fun p => p = .propagate }
  cls := { dirty := fun _ => false, privs := fun _ => false }
  umode := none
  snomask := 0

/-- A MODE of the only user, about itself. -/
def selfMode (words : List String) : ModeCmd ℕ where
  byServer := false
  sptr := some 0
  findNUser _ := none
  findUser _ := some 0
  target := "nick".toList
  words := words.map String.toList

def noUsers : Users ℕ where
  ids := ∅
  cli _ := blankCli
  stats := { opers := 0, invClients := 0 }

/-- A user registers and becomes an operator. -/
def operUp : List (Event ℕ) :=
  [.connect 0 blankCli, .register defaultFeat 0 (some "+i".toList) none, .oper defaultFeat 0 globalConf]

lemma reach_operUp : (operUp.foldl Users.step noUsers).Reach := by
  have h₀ : noUsers.Reach := .start _
  have h₁ : (noUsers.step (.connect 0 blankCli)).Reach := h₀.step _ trivial
  have h₂ : ((noUsers.step (.connect 0 blankCli)).step
      (.register defaultFeat 0 (some "+i".toList) none)).Reach := h₁.step _ trivial
  refine h₂.step (.oper defaultFeat 0 globalConf) ?_
  intro w hw
  exact absurd hw (by simp [globalConf])

theorem opers_reach_deoper :
    (let s := (operUp.foldl Users.step noUsers).step (.mode defaultFeat (selfMode ["-o"]))
     s.stats.opers = 0 ∧ s.stats.invClients = 1 ∧ (s.cli 0).handler ≠ .oper) := by
  have h₁ : ((operUp.foldl Users.step noUsers).step (.mode defaultFeat (selfMode ["-o"]))).Reach := by
    refine reach_operUp.step _ fun a ha _ => ?_
    have hu : (selfMode ["-o"]).user (operUp.foldl Users.step noUsers) = some 0 := by decide +kernel
    obtain rfl : 0 = a := some.inj (hu.symm.trans ha)
    decide +kernel
  have h := opers_reach h₁
  refine ⟨h.1.trans (by decide +kernel), h.2.1.trans (by decide +kernel), fun hh => ?_⟩
  exact absurd ((h.2.2 0 (by decide +kernel) (by decide +kernel) (by decide +kernel)).mp hh)
    (by decide +kernel)

/-- `MODE nick -o+o` leaves an operator with the handler of users; OPER is then accepted once more, and the one
operator counts for two. `set_user_mode`; `m_oper.c` `do_oper`. -/
theorem oper_counted_twice :
    (let s := (operUp ++ [Event.mode defaultFeat (selfMode ["-o+o"])]).foldl Users.step noUsers
     (s.cli 0).flags .oper = true ∧ (s.cli 0).handler = .client) ∧
    (let s := (operUp ++ [Event.mode defaultFeat (selfMode ["-o+o"]),
       Event.oper defaultFeat 0 globalConf]).foldl Users.step noUsers
     s.stats.opers = 2 ∧ s.ids = {0}) := by
  decide +kernel

end Nefarious.User
