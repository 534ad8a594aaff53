import Nefarious.Lib.Flood
import Nefarious.Message
import Nefarious.User.Opers

/-!
# Accounts on every server

The account of a user is a flag, a name and the time at which the account was created.

Names: `s_user.c`.
-/

namespace Nefarious.User

open Option (isSome_none some.inj)
open List (append_nil length_append length_cons mem_append mem_cons mem_cons_self mem_map mem_singleton
  take_of_length_le)

open Lib Lib.Fifo

/-! ## The account of a user -/

/-- The account of a user. `struct.h` `struct User`; `FLAG_ACCOUNT`. -/
structure Acct where
  /-- `IsAccount`. -/
  has : Bool
  name : Str
  create : ℤ
deriving DecidableEq

/-- The account in the record of a client. `struct.h` `struct User`. -/
def acctOf (c : Cli) : Acct := { has := c.flags .account, name := c.account, create := c.accCreate }

/-- A record with a given account. `struct.h` `struct User`. -/
def withAcct (c : Cli) (a : Acct) : Cli :=
  { c with flags := putFlag a.has .account c.flags, account := a.name, accCreate := a.create }

/-- No account. `list.c` `make_user`. -/
def noAcct : Acct := { has := false, name := [], create := 0 }

/-! ## ACCOUNT -/

/-- The user takes an account: the parameters of `R` and `M` behind the subcommand. `ms_account` -/
def setAccount (name : Str) (ts : Option Str) (a : Acct) : Acct where
  has := true
  name := ircdStrncpy a.name name (accountLen + 1)
  create := match ts with
    | some ts => atoi ts
    | none => a.create

/-- The parameters that are passed on. `ms_account`. -/
def accountParams (num : Str) (type : Char) (args : List Str) : List Str := num :: [type] :: args

/-- ACCOUNT from a server with the subcommand `U`, `R` or `M` for the user `num`: the account and the parameters
that are passed on, if any. -/
def msAccount (num : Str) (params : List Str) (a : Acct) : Acct × Option (List Str) :=
  match params with
  | target :: [type] :: args =>
    if target ≠ num then (a, none)
    else if type = 'U' then
      if a.has then
        ({ a with has := false, name := ircdStrncpy a.name [] (accountLen + 1) },
          some (accountParams num 'U' []))
      else (a, none)
    else if type = 'R' ∨ type = 'M' then
      match args with
      | [] => (a, none)
      | name :: args =>
        if type = 'R' ∧ a.has then (a, none)
        else if accountLen < name.length then (a, none)
        else if strnEq a.name name accountLen then (a, none)
        else (setAccount name args.head? a, some (accountParams num type (name :: args.head?.toList)))
    else (a, none)
  | _ => (a, none)

lemma msAccount_passed (num : Str) (params : List Str) (a : Acct) : ((msAccount num params a).2 = none →
    (msAccount num params a).1 = a) ∧ ∀ params', (msAccount num params a).2 = some params' →
    (msAccount num params' a).1 = (msAccount num params a).1 := by
  unfold msAccount
  split
  · next target type args =>
      by_cases ht : target = num
      swap
      · simp [ht]
      subst ht
      by_cases hU : type = 'U'
      · subst hU
        by_cases ha : a.has = true <;> simp [ha, accountParams]
      · by_cases hRM : type = 'R' ∨ type = 'M'
        swap
        · simp [hU, hRM]
        cases args with
        | nil => simp [hU, hRM]
        | cons name args =>
          by_cases h₁ : type = 'R' ∧ a.has = true
          · simp [h₁]
          by_cases h₂ : accountLen < name.length
          · simp [hU, hRM, h₂]
          by_cases h₃ : strnEq a.name name accountLen = true
          · simp [hU, hRM, h₃]
          · cases args <;> simp [hU, hRM, h₁, h₂, h₃, accountParams]
  · simp

/-! ## The modes of an introduction -/

def userModeList : List (Flag × Char) :=
  [(.oper, 'o'), (.locop, 'O'), (.invisible, 'i'), (.wallop, 'w'), (.servnotice, 's'), (.deaf, 'd'),
   (.chserv, 'k'), (.debug, 'g'), (.hiddenhost, 'x'), (.nochan, 'p'), (.commonchansonly, 'q'),
   (.bot, 'B'), (.privdeaf, 'D'), (.hideOper, 'H'), (.noidle, 'I'), (.accountonly, 'R'),
   (.whoisNotice, 'W'), (.admin, 'a'), (.xtraop, 'X'), (.nolink, 'L'), (.ssl, 'z'), (.account, 'r'),
   (.sethost, 'h'), (.fakehost, 'f'), (.cloakhost, 'C'), (.cloakip, 'c')]

/-- The modes that other servers know. `FLAG_GLOBAL_UMODES`. -/
def isGlobalUmode (f : Flag) : Bool := f ≠ .locop && f ≠ .servnotice

/-- The letters of a user. `umode_str`. -/
def umodeLetters (c : Cli) : Str :=
  let fl := if (c.mine && c.registered) && !c.privs .propagate then clrFlag .oper c.flags else c.flags
  (userModeList.filter fun x => fl x.1 && isGlobalUmode x.1).map Prod.snd

/-- The account as it is written: a creation time follows a colon, in a buffer of twenty. `umode_str` -/
def accountText (a : Acct) : Str :=
  a.name ++ if a.create ≠ 0 then (':' :: digits (a.create % 2 ^ 64).toNat).take 19 else []

/-- A text that is written if a flag is set. `umode_str`. -/
def flagText (fl : Flags) (f : Flag) (text : Str) : List Str := if fl f then [text] else []

/-- The texts behind the letters. `umode_str`. -/
def umodeTexts (c : Cli) : List Str :=
  flagText c.flags .account (accountText (acctOf c)) ++ flagText c.flags .sethost c.sethost ++
  flagText c.flags .fakehost c.fakehost ++ flagText c.flags .cloakhost c.cloakhost ++
  flagText c.flags .cloakip c.cloakip

def umodeStr (c : Cli) : Str := umodeLetters c ++ spaced (umodeTexts c)

/-- What a NICK says of a user besides its account: words, as they are on the line. `s_serv.c`
`server_estab`; `register_user` -/
structure Intro where
  /-- The server of the user, as the source of the message. -/
  source : Str
  /-- Nick, distance, time, user name and host. -/
  head : List Str
  c : Cli
  ip : Str
  num : Str
  info : Str
  source_word : IsWord source
  head_length : head.length = 5
  head_words : ∀ w ∈ head, IsWord w
  texts : ∀ f text, (f, text) ∈ [(Flag.sethost, c.sethost), (.fakehost, c.fakehost),
    (.cloakhost, c.cloakhost), (.cloakip, c.cloakip)] → c.flags f = true → IsWord text
  ip_word : IsWord ip
  ip_plus : ip.head? ≠ some '+'
  num_word : IsWord num

/-- The parameters of a NICK: the modes follow a plus, if there are any. `s_serv.c` `server_estab`;
`register_user` -/
def nickText (i : Intro) (a : Acct) : Str :=
  let s := umodeStr (withAcct i.c a)
  spaced i.head ++ (if s = [] then [] else ' ' :: '+' :: s) ++ spaced [i.ip, i.num] ++ ' ' :: ':' :: i.info

/-- The text of a NICK before it is cut. `s_serv.c` `server_estab`. -/
def nickLine (i : Intro) (a : Acct) : Str := i.source ++ spaced ["N".toList] ++ nickText i a

/-- The mode string of a NICK and what belongs to it. `set_nick_name` (`parc > 7 && *parv[6] == '+'`). -/
def nickModes (params : List Str) : List Str :=
  match params.drop 5 with
  | w :: ws => if 6 < params.length ∧ w.head? = some '+' then (w :: ws).take (params.length - 8) else []
  | [] => []

/-- The account that a NICK gives to the user it introduces. `other` says that the host of the user is the name
of somebody else, for whom the modes are then taken to be. `set_nick_name` -/
def nickAccount (feat : UserFeat) (other : Bool) (params : List Str) : Acct :=
  acctOf (introduceUser feat blankCli other (nickModes params) { opers := 0, invClients := 0 }).1

/-! ## Reading the account -/

/-- The word behind the letter of the account. `set_user_mode` (`case 'r'`). -/
def accountLetter (_ : Bool) (u : Umode) (arg : Option Str) (t : Option Str) : Option Str :=
  if u = .account then arg.or t else t

/-- The scan of a command and the word of its account. -/
structure AcctRel (c : Cli) (s : UmodeScan) (t : Option Str) : Prop where
  word : s.account = t
  flag : s.c.flags .account = (c.flags .account || t.isSome)
  name : s.c.account = c.account
  create : s.c.accCreate = c.accCreate

variable {c : Cli} {type : Char} {args : List Str}

lemma AcctRel.mapFlags {s s' : UmodeScan} {t : Option Str} (h : AcctRel c s t)
    (hc : s'.c = s.c) (hw : s'.account = s.account) {g : Flags → Flags}
    (hg : g s.c.flags .account = s.c.flags .account) : AcctRel c (s'.mapFlags g) t := by
  refine ⟨hw.trans h.word, ?_, ?_, ?_⟩
  · show g s'.c.flags .account = _
    rw [hc, hg, h.flag]
  · show s'.c.account = _
    rw [hc, h.name]
  · show s'.c.accCreate = _
    rw [hc, h.create]

lemma AcctRel.deoper {s : UmodeScan} {t : Option Str} (h : AcctRel c s t) : AcctRel c s.deoper t := by
  unfold UmodeScan.deoper
  split
  · split <;> exact ⟨h.word, h.flag, h.name, h.create⟩
  · exact h

lemma AcctRel.step (feat : UserFeat) (what : Bool) (m : Char) (arg : Option Str)
    (s : UmodeScan) (t : Option Str) (h : AcctRel c s t) :
    AcctRel c (umodeStep feat what (umodeOf m) arg s) (accountLetter what (umodeOf m) arg t) := by
  cases hu : umodeOf m with
  | plus | minus | unknown => exact h
  | flag f =>
    refine h.mapFlags rfl rfl (putFlag_of_ne _ _ _ fun e => umodeOf_flag hu ?_)
    rw [← e]
    decide
  | snomask =>
    apply h.mapFlags
    · rfl
    · rfl
    · exact putFlag_of_ne _ _ _ (by decide)
  | oper | locop =>
    cases what with
    | true => exact h.mapFlags rfl rfl (by simp)
    | false => exact (h.mapFlags rfl rfl (by simp)).deoper
  | hiddenhost =>
    simp only [umodeStep, accountLetter, reduceCtorEq, if_false]
    split
    · exact h.mapFlags rfl rfl (by simp)
    · split
      · exact h.mapFlags rfl rfl (by simp)
      · exact h
  | account =>
    cases arg with
    | none => simpa [umodeStep, accountLetter] using h
    | some w => exact ⟨rfl, by simp [umodeStep, accountLetter, UmodeScan.mapFlags], h.name, h.create⟩
  | cloakhost | cloakip | fakehost =>
    simp only [umodeStep, accountLetter, reduceCtorEq, if_false]
    split
    · apply h.mapFlags
      · rfl
      · rfl
      · simp
    · exact h
  | sethost =>
    simp only [umodeStep, accountLetter, reduceCtorEq, if_false]
    split
    · split
      · apply h.mapFlags
        · rfl
        · rfl
        · simp
      · exact h
    · exact h.mapFlags rfl rfl (by simp)

lemma acctOf_userSetcloaked (feat : UserFeat) (c : Cli) : acctOf (userSetcloaked feat c) = acctOf c := by
  unfold userSetcloaked
  dsimp only
  split
  · rfl
  · split <;> split <;> simp [acctOf]

lemma acctOf_hideHostmask (feat : UserFeat) (c : Cli) : acctOf (hideHostmask feat c) = acctOf c := by
  have htake : ∀ d, acctOf (takeHidden feat d) = acctOf d := by
    intro d
    unfold takeHidden
    dsimp only
    split <;> rfl
  unfold hideHostmask
  split
  · rfl
  · split
    · rfl
    · rw [htake]
      split
      · exact acctOf_userSetcloaked feat c
      · rfl

lemma acctOf_registerTail (feat : UserFeat) (c : Cli) (st : UserStats) :
    acctOf (registerTail feat c st).1 = acctOf c := by
  unfold registerTail clearPrivs
  dsimp only
  show acctOf (if _ then _ else _) = _
  split
  · rw [acctOf_hideHostmask, acctOf_userSetcloaked]
    rfl
  · rw [acctOf_userSetcloaked]
    rfl

lemma acctOf_copyTexts (s : UmodeScan) (old : Flags) (c : Cli) :
    acctOf (copyTexts s old c).c = if !old .account && c.flags .account then
      acctOf (copyAccount (s.account.getD []) c) else acctOf c := by
  unfold copyTexts
  rw [← apply_ite acctOf]
  generalize (if !old .account && c.flags .account then _ else c) = c₁
  dsimp only
  split
  · split <;> rfl
  · rfl

lemma introduceUser_account (feat : UserFeat) (words : List Str) (st : UserStats) :
    acctOf (introduceUser feat blankCli false words st).1 =
      match walkWords accountLetter 0 words true none with
      | some w => { acctOf (copyAccount w blankCli) with has := true }
      | none => noAcct := by
  unfold introduceUser
  dsimp only
  rw [acctOf_registerTail, Bool.false_or]
  cases words with
  | nil => rfl
  | cons w₀ ws =>
    set words := w₀ :: ws
    set d : Cli := { freshCli blankCli with mine := false } with hd
    have hrel : AcctRel d (scanUmodes feat words d) (walkWords accountLetter 0 words true none) :=
      walkWords_rel (R := AcctRel d) (fun what m arg s t h => h.step feat what m arg s t) words 0 true
        _ _ ⟨rfl, rfl, rfl, rfl⟩
    have hmine := (sameCli_scanUmodes feat words d).mine
    have hreg := (sameCli_scanUmodes feat words d).registered
    show acctOf (if List.isEmpty words = true then (d, st)
      else applyUmodes feat true false words d st).1 = _
    rw [if_neg (by simp [words])]
    generalize walkWords accountLetter 0 words true none = t at hrel
    set s := scanUmodes feat words d with hs
    have hdrop : dropPrivs d.flags s.tmpmask s.c = s.c := if_neg (by rw [hmine, hd]; simp)
    have hcopy := acctOf_copyTexts s d.flags s.c
    have hcreg : (copyTexts s d.flags s.c).c.registered = false :=
      (sameModes_copyTexts s d.flags s.c).registered.trans hreg
    have happ : acctOf (applyUmodes feat true false words d st).1 = acctOf (copyTexts s d.flags s.c).c := by
      show acctOf (let e := copyTexts s d.flags (dropPrivs d.flags s.tmpmask s.c)
        let r := if e.c.registered then countUmodes feat e st else (e, st)
        (if r.1.doHiding && r.1.c.flags .hiddenhost then hideHostmask feat r.1.c else r.1.c)) = _
      rw [hdrop]
      dsimp only
      rw [hcreg]
      simp only [Bool.false_eq_true, if_false]
      split
      · exact acctOf_hideHostmask feat _
      · rfl
    rw [happ, hcopy, hrel.flag, hrel.word]
    cases t with
    | none =>
      simp only [isSome_none, Bool.or_false]
      have h1 := hrel.flag
      have h2 := hrel.name
      have h3 := hrel.create
      simp [acctOf, h1, h2, h3, hd, freshCli, noAcct, blankCli]
    | some w =>
      have h2 := hrel.name
      have h3 := hrel.create
      have h1 := hrel.flag
      simp only [hd, freshCli, Option.isSome_some, Bool.or_true, Bool.and_true, Option.getD_some,
        Bool.not_false, if_true]
      unfold copyAccount
      split
      · simp [acctOf, h1, h2, hd, freshCli]
      · simp [acctOf, h1, h2, h3, hd, freshCli]

lemma walkWords_skip {σ : Type*} (step : Bool → Umode → Option Str → σ → σ) (ws : List Str)
    (what : Bool) (s : σ) : walkWords step ws.length ws what s = s := by
  induction ws with
  | nil => rfl
  | cons w ws ih => exact ih

lemma walkLetters_plain (rest : List Str) (ms ms' : Str) (k : ℕ) (t : Option Str)
    (h : ∀ m ∈ ms, umodeOf m = .oper ∨ umodeOf m = .hiddenhost ∨ ∃ f, umodeOf m = .flag f) :
    walkLetters accountLetter rest (ms ++ ms') k true t = walkLetters accountLetter rest ms' k true t := by
  induction ms with
  | nil => rfl
  | cons m ms ih =>
    have ih := ih fun x hx => h x (List.mem_cons_of_mem _ hx)
    rw [List.cons_append, walkLetters]
    obtain hm | hm | ⟨f, hm⟩ := h m mem_cons_self <;>
    · simp only [hm, umodeArg, accountLetter, reduceCtorEq, if_false, isSome_none, Bool.false_eq_true]
      exact ih

/-- The letters of modes without a text, in their order. `userModeList`. -/
def plainModes : List (Flag × Char) := userModeList.take 21

/-- The letters of modes with a text, in their order. `userModeList`. -/
def textModes : List (Flag × Char) := userModeList.drop 21

lemma umodeOf_plainModes : ∀ x ∈ plainModes, isGlobalUmode x.1 = true →
    umodeOf x.2 = .oper ∨ umodeOf x.2 = .hiddenhost ∨ ∃ f, umodeOf x.2 = .flag f := by
  intro x hx hg
  simp only [plainModes, userModeList, List.take_succ_cons, List.take_zero, mem_cons,
    List.not_mem_nil, or_false] at hx
  rcases hx with rfl | rfl | rfl | rfl | rfl | rfl | rfl | rfl | rfl | rfl | rfl | rfl | rfl | rfl |
    rfl | rfl | rfl | rfl | rfl | rfl | rfl
  all_goals first
    | exact absurd hg (by decide)
    | exact .inl rfl
    | exact .inr (.inl rfl)
    | exact .inr (.inr ⟨_, rfl⟩)

lemma walkLetters_textModes (fl : Flags) (w₁ w₂ w₃ w₄ w₅ : Str) :
    let rest := flagText fl .account w₁ ++ flagText fl .sethost w₂ ++ flagText fl .fakehost w₃ ++
      flagText fl .cloakhost w₄ ++ flagText fl .cloakip w₅
    walkLetters accountLetter rest ((textModes.filter fun x => fl x.1 && isGlobalUmode x.1).map
      Prod.snd) 0 true none = (rest.length, true, if fl .account then some w₁ else none) := by
  have h : textModes = [(.account, 'r'), (.sethost, 'h'), (.fakehost, 'f'), (.cloakhost, 'C'),
    (.cloakip, 'c')] := rfl
  rw [h]
  simp only [List.filter_cons, List.filter_nil, flagText]
  generalize fl .account = b₁
  generalize fl .sethost = b₂
  generalize fl .fakehost = b₃
  generalize fl .cloakhost = b₄
  generalize fl .cloakip = b₅
  cases b₁ <;> cases b₂ <;> cases b₃ <;> cases b₄ <;> cases b₅ <;> rfl

lemma umodeLetters_eq (c : Cli) : ∃ ms : Str,
    (∀ m ∈ ms, umodeOf m = .oper ∨ umodeOf m = .hiddenhost ∨ ∃ f, umodeOf m = .flag f) ∧
    umodeLetters c = ms ++ (textModes.filter fun x => c.flags x.1 && isGlobalUmode x.1).map Prod.snd := by
  unfold umodeLetters
  set fl := if (c.mine && c.registered) && !c.privs .propagate then clrFlag .oper c.flags else c.flags
  have htext : textModes.filter (fun x => fl x.1 && isGlobalUmode x.1) =
      textModes.filter (fun x => c.flags x.1 && isGlobalUmode x.1) := by
    refine List.filter_congr fun x hx => ?_
    have hne : x.1 ≠ .oper := by
      revert x
      decide
    have hfl : fl x.1 = c.flags x.1 := by
      simp only [fl]
      split
      · simp [hne]
      · rfl
    rw [hfl]
  have hsplit : userModeList = plainModes ++ textModes := (List.take_append_drop 21 userModeList).symm
  refine ⟨(plainModes.filter fun x => fl x.1 && isGlobalUmode x.1).map Prod.snd, ?_, ?_⟩
  · intro m hm
    obtain ⟨x, hx, rfl⟩ := mem_map.mp hm
    obtain ⟨hx, hp⟩ := List.mem_filter.mp hx
    exact umodeOf_plainModes x hx (Bool.and_eq_true_iff.mp hp).2
  · rw [← htext, ← List.map_append, ← List.filter_append, ← hsplit]

lemma walkWords_umode (c : Cli) :
    walkWords accountLetter 0 (('+' :: umodeLetters c) :: umodeTexts c) true none =
      if c.flags .account then some (accountText (acctOf c)) else none := by
  obtain ⟨ms, hms, heq⟩ := umodeLetters_eq c
  have hwalk : walkLetters accountLetter (umodeTexts c) ('+' :: umodeLetters c) 0 true none =
      ((umodeTexts c).length, true, if c.flags .account then some (accountText (acctOf c)) else none) := by
    show walkLetters accountLetter (umodeTexts c) (umodeLetters c) 0 true none = _
    rw [heq, walkLetters_plain _ ms _ 0 none hms]
    exact walkLetters_textModes c.flags ..
  rw [walkWords, hwalk]
  exact walkWords_skip accountLetter (umodeTexts c) true _

/-! ## The line of a NICK -/

/-- The words of the modes. `s_serv.c` `server_estab`. -/
def modeWords (c : Cli) : List Str := if umodeStr c = [] then [] else ('+' :: umodeLetters c) :: umodeTexts c

lemma blank_not_mem_umodeLetters (c : Cli) : ' ' ∉ umodeLetters c := by
  intro h
  obtain ⟨x, hx, hb⟩ := mem_map.mp h
  have hlist : ∀ x ∈ userModeList, x.2 ≠ ' ' := by decide
  exact hlist x (List.mem_filter.mp hx).1 hb

lemma isWord_accountText {a : Acct} (h : IsWord a.name) : IsWord (accountText a) := by
  refine h.append ?_
  split
  · intro hb
    have hb := List.mem_of_mem_take hb
    rcases mem_cons.mp hb with hb | hb
    · exact absurd hb (by decide)
    · exact absurd (isDigit_of_digits hb) (by decide)
  · simp

lemma isWord_modeWords (i : Intro) (a : Acct) (h : a.has = true → IsWord a.name) :
    ∀ w ∈ modeWords (withAcct i.c a), IsWord w := by
  have hsame : ∀ f, f ≠ .account → (withAcct i.c a).flags f = i.c.flags f := fun f hf => putFlag_of_ne _ _ _ hf
  intro w hw
  unfold modeWords at hw
  split at hw
  · exact absurd hw (by simp)
  · rcases mem_cons.mp hw with rfl | hw
    · refine ⟨by simp, ?_, by simp⟩
      intro hb
      rcases mem_cons.mp hb with hb | hb
      · exact absurd hb (by decide)
      · exact blank_not_mem_umodeLetters _ hb
    · have hflag : ∀ (f : Flag) (text : Str), w ∈ flagText (withAcct i.c a).flags f text →
          (withAcct i.c a).flags f = true ∧ w = text := by
        intro f text hmem
        unfold flagText at hmem
        split at hmem
        · next hf => exact ⟨hf, mem_singleton.mp hmem⟩
        · exact absurd hmem (by simp)
      have htext : ∀ (f : Flag) (text : Str), f ≠ .account →
          (f, text) ∈ [(Flag.sethost, i.c.sethost), (.fakehost, i.c.fakehost),
            (.cloakhost, i.c.cloakhost), (.cloakip, i.c.cloakip)] →
          w ∈ flagText (withAcct i.c a).flags f text → IsWord w := by
        intro f text hf hmem hw
        obtain ⟨hset, rfl⟩ := hflag f text hw
        exact i.texts f w hmem ((hsame f hf).symm.trans hset)
      simp only [umodeTexts, mem_append] at hw
      rcases hw with (((hw | hw) | hw) | hw) | hw
      · obtain ⟨hset, rfl⟩ := hflag _ _ hw
        refine isWord_accountText ?_
        have : a.has = true := by simpa [withAcct] using hset
        exact h this
      · exact htext .sethost _ (by decide) (by simp [withAcct]) hw
      · exact htext .fakehost _ (by decide) (by simp [withAcct]) hw
      · exact htext .cloakhost _ (by decide) (by simp [withAcct]) hw
      · exact htext .cloakip _ (by decide) (by simp [withAcct]) hw

lemma length_modeWords_le (c : Cli) : (modeWords c).length ≤ 6 := by
  have hflag : ∀ (f : Flag) (text : Str), (flagText c.flags f text).length ≤ 1 := by
    intro f text
    unfold flagText
    split <;> simp
  have h₁ := hflag .account (accountText (acctOf c))
  have h₂ := hflag .sethost c.sethost
  have h₃ := hflag .fakehost c.fakehost
  have h₄ := hflag .cloakhost c.cloakhost
  have h₅ := hflag .cloakip c.cloakip
  unfold modeWords
  split
  · simp
  · simp only [umodeTexts, length_cons, length_append]
    omega

lemma nickText_eq (i : Intro) (a : Acct) : nickText i a =
    spaced (i.head ++ modeWords (withAcct i.c a) ++ [i.ip, i.num]) ++ ' ' :: ':' :: i.info := by
  unfold nickText modeWords
  dsimp only
  split
  · simp
  · simp [umodeStr]

lemma messageParams_nick (i : Intro) (a : Acct) (ha : a.has = true → IsWord a.name)
    (hfit : (nickLine i a).length ≤ bufSize - 2) : messageParams (msgqMake (nickLine i a)) =
      i.head ++ modeWords (withAcct i.c a) ++ [i.ip, i.num, i.info] := by
  have hws : ∀ w ∈ i.head ++ modeWords (withAcct i.c a) ++ [i.ip, i.num], IsWord w := by
    intro w hw
    rcases mem_append.mp hw with hw | hw
    · rcases mem_append.mp hw with hw | hw
      · exact i.head_words w hw
      · exact isWord_modeWords i a ha w hw
    · rcases mem_cons.mp hw with rfl | hw
      · exact i.ip_word
      · obtain rfl := mem_singleton.mp hw
        exact i.num_word
  have hlen : (i.head ++ modeWords (withAcct i.c a) ++ [i.ip, i.num]).length ≤ 13 := by
    have := length_modeWords_le (withAcct i.c a)
    have := i.head_length
    simp only [length_append, length_cons, List.length_nil]
    omega
  have hcut : msgqMake (nickLine i a) = nickLine i a := take_of_length_le hfit
  obtain ⟨n, hn⟩ := Nat.exists_eq_add_of_le hlen
  have hmax : maxPara = (i.head ++ modeWords (withAcct i.c a) ++ [i.ip, i.num]).length + (n + 2) := by
    unfold maxPara
    omega
  have htail : StartsBlank (' ' :: ':' :: i.info) := .inr rfl
  rw [hcut, nickLine, messageParams_line i.source_word (by decide), nickText_eq, hmax,
    parseParams_words hws htail (by omega), parseParams_trailing (by omega)]
  · simp
  · rw [nickText_eq]
    exact startsBlank_spaced _ htail

lemma nickModes_eq (i : Intro) (a : Acct) :
    nickModes (i.head ++ modeWords (withAcct i.c a) ++ [i.ip, i.num, i.info]) = modeWords (withAcct i.c a) := by
  set ws := modeWords (withAcct i.c a) with hws
  have hdrop : (i.head ++ ws ++ [i.ip, i.num, i.info]).drop 5 = ws ++ [i.ip, i.num, i.info] := by
    rw [List.append_assoc, List.drop_append_of_le_length (by rw [i.head_length]), ← i.head_length,
      List.drop_length, List.nil_append]
  have hlen : (i.head ++ ws ++ [i.ip, i.num, i.info]).length = ws.length + 8 := by
    simp [i.head_length]
    omega
  unfold nickModes
  rw [hdrop, hlen]
  cases hw : ws with
  | nil =>
    have hplus := i.ip_plus
    simp [hplus]
  | cons w ws' =>
    have hhead : w.head? = some '+' := by
      rw [hws] at hw
      unfold modeWords at hw
      split at hw
      · exact absurd hw (by simp)
      · obtain ⟨rfl, -⟩ := List.cons.inj hw
        rfl
    simp [hhead]

/-! ## What a NICK teaches -/

/-- An account as the daemon keeps it: a name that is a word and fits, or no name. `ms_account` -/
structure Acct.Wf (a : Acct) : Prop where
  word : a.has = true → IsWord a.name ∧ a.name.length ≤ accountLen
  none : a.has = false → a.name = []

/-- An account that a NICK teaches: no creation time is kept, and the name, if there is one, has no colon and
leaves one character of the buffer free. `umode_str`, `set_user_mode` -/
def Learnable (a : Acct) : Prop :=
  a.create = 0 ∧ (a.has = true → ':' ∉ a.name ∧ a.name.length < accountLen)

instance (a : Acct) : Decidable (Learnable a) := inferInstanceAs (Decidable (_ ∧ _))

lemma nickAccount_eq (feat : UserFeat) (i : Intro) (a : Acct) (ha : a.has = true → IsWord a.name)
    (hfit : (nickLine i a).length ≤ bufSize - 2) :
    nickAccount feat false (messageParams (msgqMake (nickLine i a))) =
      if a.has then { acctOf (copyAccount (accountText a) blankCli) with has := true } else noAcct := by
  have hflag : (withAcct i.c a).flags .account = a.has := putFlag_self ..
  have hacct : acctOf (withAcct i.c a) = a := by
    unfold acctOf
    rw [hflag]
    rfl
  unfold nickAccount
  rw [messageParams_nick i a ha hfit, nickModes_eq, introduceUser_account]
  unfold modeWords
  by_cases hs : umodeStr (withAcct i.c a) = []
  · have hno : a.has = false := by
      by_contra hn
      have htrue : a.has = true := by simpa using hn
      have htexts : spaced (umodeTexts (withAcct i.c a)) = [] := (List.append_eq_nil_iff.mp hs).2
      simp [umodeTexts, flagText, hflag, htrue] at htexts
    rw [if_pos hs, hno]
    rfl
  · rw [if_neg hs, walkWords_umode, hflag, hacct]
    cases a.has <;> rfl

lemma length_copyAccount_lt {name rest : Str} (hname : name ≠ [])
    (hrest : rest = [] ∨ rest.head? = some ':') (hc : ':' ∈ name ++ rest) (c : Cli) (h : c.account = []) :
    (copyAccount (name ++ rest) c).account.length < name.length := by
  have hpos : 0 < name.length := List.length_pos_of_ne_nil hname
  have hle : ((name ++ rest).takeWhile (· ≠ ':')).length ≤ name.length := by
    rw [List.takeWhile_append]
    split
    · next hall =>
        have hnil : rest.takeWhile (· ≠ ':') = [] := by
          rcases hrest with rfl | hr
          · rfl
          · cases rest with
            | nil => rfl
            | cons x r =>
              obtain rfl : x = ':' := by simpa using hr
              simp
        rw [hnil, append_nil]
    · exact (List.takeWhile_sublist _).length_le
  unfold copyAccount
  rw [if_pos hc]
  show (ircdStrncpy c.account (name ++ rest) _).length < name.length
  unfold ircdStrncpy
  split
  · rw [h]
    exact hpos
  · rw [List.length_take]
    omega

lemma nick_learned_iff (feat : UserFeat) (i : Intro) (a : Acct) (ha : a.Wf)
    (hfit : (nickLine i a).length ≤ bufSize - 2) :
    nickAccount feat false (messageParams (msgqMake (nickLine i a))) = a ↔ Learnable a := by
  rw [nickAccount_eq feat i a (fun h => (ha.word h).1) hfit]
  obtain ⟨has, name, create⟩ := a
  cases has with
  | false =>
    have hn : name = [] := ha.none rfl
    subst hn
    simp [noAcct, Learnable, eq_comm]
  | true =>
    obtain ⟨hw, hlen⟩ := ha.word rfl
    simp only at hw hlen
    rw [if_pos rfl]
    unfold Learnable
    simp only [forall_const]
    by_cases hcol : ':' ∈ accountText { has := true, name := name, create := create }
    · -- a colon cuts the name, so neither side holds
      have hrest : ∀ r, r = (if create ≠ 0 then (':' :: digits (create % 2 ^ 64).toNat).take 19 else []) →
          r = [] ∨ r.head? = some ':' := by
        rintro r rfl
        split
        · exact .inr rfl
        · exact .inl rfl
      have hlt := length_copyAccount_lt hw.ne_nil (hrest _ rfl) hcol blankCli rfl
      constructor
      · intro h
        have hname : (copyAccount (accountText { has := true, name := name, create := create })
            blankCli).account = name := congrArg Acct.name h
        have hlen' := congrArg List.length hname
        exact absurd hlen' (Nat.ne_of_lt hlt)
      · rintro ⟨h0, hnc, -⟩
        subst h0
        simp [accountText] at hcol
        exact absurd hcol hnc
    · have h0 : create = 0 := by
        by_contra hne
        apply hcol
        simp [accountText, hne]
      subst h0
      have htext : accountText { has := true, name := name, create := 0 } = name := by
        simp [accountText]
      rw [htext] at hcol ⊢
      have hcopy : copyAccount name blankCli = { blankCli with account := name.take 14 } := by
        unfold copyAccount
        rw [if_neg hcol]
        rfl
      rw [hcopy]
      constructor
      · intro h
        have hname : name.take 14 = name := congrArg Acct.name h
        have : name.length ≤ 14 := by
          rw [← hname, List.length_take]
          omega
        exact ⟨rfl, hcol, Nat.lt_succ_of_le this⟩
      · rintro ⟨-, -, hl⟩
        have htake : name.take 14 = name := take_of_length_le (Nat.le_of_lt_succ hl)
        simp [acctOf, htake, blankCli]

/-! ## The network -/

/-- A message between servers. `ms_account`; `m_nick.c` `ms_nick`. -/
inductive AcctMsg
  | account (line : Str)
  /-- NICK that introduces the user. -/
  | nick (line : Str)
deriving DecidableEq

/-- The numerics of the user and of the services. `numnicks.h`. -/
structure Numerics where
  num : Str
  services : Str
  num_word : IsWord num
  services_word : IsWord services

/-- The text of an ACCOUNT before it is cut. `ms_account`. -/
def accountLine (N : Numerics) (params : List Str) : Str :=
  N.services ++ spaced ["AC".toList] ++ spaced params

/-- A message of the services for the user: the subcommand, and for `R` and `M` the name and perhaps the time,
which are words; all of it is a line. `ms_account`. -/
structure AccountCmd (N : Numerics) where
  type : Char
  args : List Str
  type_mem : type = 'U' ∨ type = 'R' ∨ type = 'M'
  words : ∀ w ∈ args, IsWord w
  fits : (accountLine N (accountParams N.num type args)).length ≤ bufSize - 2

/-- What a server makes of a message that reaches it: the account it has for the user then, if it knows the
user. `other` is what the host of the user finds. A second introduction is a collision, which does not happen in
these runs. `ms_account`; `set_nick_name`. -/
def receive (N : Numerics) (feat : UserFeat) (other : Bool) (m : AcctMsg) (s : Option Acct) : Option Acct :=
  match m, s with
  | .account line, some a => some (msAccount N.num (messageParams line) a).1
  | .account _, none => none
  | .nick line, none => some (nickAccount feat other (messageParams line))
  | .nick _, some a => some a

/-- What it passes on: the parameters of an ACCOUNT that has changed something, and the user that it has been
introduced to, as it knows it. `ms_account`; `register_user`. -/
def relay (N : Numerics) (feat : UserFeat) (other : Bool) (i : Intro) (m : AcctMsg) (s : Option Acct) :
    List AcctMsg :=
  match m, s with
  | .account line, some a =>
    (msAccount N.num (messageParams line) a).2.toList.map fun params =>
      .account (msgqMake (accountLine N params))
  | .nick line, none => [.nick (msgqMake (nickLine i (nickAccount feat other (messageParams line))))]
  | _, _ => []

variable {ι : Type*} [DecidableEq ι]

/-- Servers, what they know of the account, and the direction of the services. -/
structure AcctNet (ι : Type*) where
  /-- The account of the user on each server that knows the user, and what is on its way. -/
  net : Net ι (Option Acct) AcctMsg
  /-- The direction of the services. -/
  up : ι → Option ι

/-- Events. `m_account.c`, `m_nick.c`, `s_serv.c`. -/
inductive AcctEvent (N : Numerics) (ι : Type*)
  /-- The services issue a message, and the server they are linked to reads it. -/
  | issue (cmd : AccountCmd N)
  /-- A server reads the oldest message of a link; `i` is what it says of the user if it passes on an
  introduction. -/
  | deliver (u v : ι) (other : Bool) (i : Intro)
  /-- A server that does not know the user is linked to another one. -/
  | link (u v : ι) (i : Intro)

/-- Send to all servers behind one. `send.c` `sendcmdto_serv_butone`. -/
def sendDown (up : ι → Option ι) (v : ι) (ms : List AcctMsg) (w : ι) : List AcctMsg :=
  if up w = some v then ms else []

/-- One event; `root` is the server of the services. Events that cannot happen change nothing. `ms_account`; `set_nick_name`, `register_user`; `s_serv.c` `server_estab` -/
def AcctNet.step (N : Numerics) (feat : ι → UserFeat) (root : ι) (s : AcctNet ι) : AcctEvent N ι → AcctNet ι
  | .issue cmd =>
    match s.net.node root with
    | none => s
    | some a =>
      let r := msAccount N.num (accountParams N.num cmd.type cmd.args) a
      let out := sendDown s.up root
        (r.2.toList.map fun params => .account (msgqMake (accountLine N params)))
      { s with net := s.net.put root (some r.1) out }
  | .deliver u v other i =>
    match s.net.queue u v with
    | [] => s
    | m :: _ =>
      let out := sendDown s.up v (relay N (feat v) other i m (s.net.node v))
      { s with net := (s.net.pop u v).put v (receive N (feat v) other m (s.net.node v)) out }
  | .link u v i =>
    if s.up v = none ∧ v ≠ root ∧ u ≠ v ∧ s.net.node v = none then
      let out := (s.net.node u).toList.map fun a => .nick (msgqMake (nickLine i a))
      { net := s.net.put u (s.net.node u) (fun w => if w = v then out else [])
        up := Function.update s.up v (some u) }
    else s

/-- The condition on an event. A server that is linked is introduced to a learnable account, the line that
introduces the user is not cut, and the host of the user is nobody's name where it is read. `umode_str`,
`set_user_mode` -/
def AcctNet.Meets (N : Numerics) (feat : ι → UserFeat) (s : AcctNet ι) : AcctEvent N ι → Prop
  | .issue _ => True
  | .deliver u v other i => ∀ line q, s.net.queue u v = .nick line :: q → other = false ∧
      (nickLine i (nickAccount (feat v) false (messageParams line))).length ≤ bufSize - 2
  | .link u _ i => ∀ a, s.net.node u = some a → Learnable a ∧ (nickLine i a).length ≤ bufSize - 2

/-- The states of runs whose events meet the condition, from a tree in which every server that knows
the user has the same account. -/
inductive AcctNet.Reach (N : Numerics) (feat : ι → UserFeat) (root : ι) : AcctNet ι → Prop
  | start (up : ι → Option ι) (know : ι → Bool) (a : Acct) (ha : a.Wf) (hroot : up root = none)
      (hup : ∀ u, up u ≠ some u) (hknow : ∀ u v, up v = some u → know v = know u) :
      Reach N feat root
        { net := { node := fun v => if know v then some a else none, queue := fun _ _ => [] }, up := up }
  | step {s : AcctNet ι} (h : Reach N feat root s) (e : AcctEvent N ι) (he : s.Meets N feat e) :
      Reach N feat root (s.step N feat root e)

/-! ## Agreement -/

lemma messageParams_account (N : Numerics)
    (htype : type = 'U' ∨ type = 'R' ∨ type = 'M') (hargs : ∀ w ∈ args, IsWord w) (hlen : args.length ≤ 2)
    (hfit : (accountLine N (accountParams N.num type args)).length ≤ bufSize - 2) :
    messageParams (msgqMake (accountLine N (accountParams N.num type args))) =
    accountParams N.num type args := by
  have hws : ∀ w ∈ accountParams N.num type args, IsWord w := by
    intro w hw
    rcases mem_cons.mp hw with rfl | hw
    · exact N.num_word
    · rcases mem_cons.mp hw with rfl | hw
      · rcases htype with rfl | rfl | rfl <;> decide
      · exact hargs w hw
  have hlen' : (accountParams N.num type args).length ≤ 14 := by
    simp only [accountParams, length_cons]
    omega
  obtain ⟨n, hn⟩ := Nat.exists_eq_add_of_le hlen'
  have hmax : maxPara = (accountParams N.num type args).length + (n + 1) := by
    unfold maxPara
    omega
  have hcut : msgqMake (accountLine N (accountParams N.num type args)) =
      accountLine N (accountParams N.num type args) := take_of_length_le hfit
  have hb : StartsBlank (spaced (accountParams N.num type args)) := by
    simpa using startsBlank_spaced (accountParams N.num type args) (.inl rfl : StartsBlank [])
  rw [hcut, accountLine, messageParams_line N.services_word (by decide) hb, hmax,
    ← append_nil (spaced _), parseParams_words hws (.inl rfl) (by omega), parseParams_nil,
    append_nil]

lemma msAccount_params {num : Str} {params : List Str} {a : Acct}
    (h : (msAccount num (accountParams num type args) a).2 = some params) :
    ∃ k ≤ 2, params = accountParams num type (args.take k) := by
  unfold msAccount accountParams at h
  simp only [ne_eq, not_true_eq_false, if_false] at h
  by_cases hU : type = 'U'
  · subst hU
    refine ⟨0, by omega, ?_⟩
    by_cases ha : a.has = true
    · simpa [ha, accountParams, eq_comm] using h
    · simp [ha] at h
  · by_cases hRM : type = 'R' ∨ type = 'M'
    swap
    · simp [hU, hRM] at h
    · rw [if_neg hU, if_pos hRM] at h
      cases args with
      | nil => simp at h
      | cons name args =>
        refine ⟨2, le_refl 2, ?_⟩
        simp only at h
        split at h
        · exact absurd h (by simp)
        · split at h
          · exact absurd h (by simp)
          · split at h
            · exact absurd h (by simp)
            · rw [← some.inj h]
              cases args <;> rfl

lemma length_spaced_take_le (ws : List Str) (k : ℕ) : (spaced (ws.take k)).length ≤ (spaced ws).length := by
  have h : spaced ws = spaced (ws.take k) ++ spaced (ws.drop k) := by
    rw [← spaced_append, List.take_append_drop]
  rw [h, length_append]
  omega

lemma msAccount_wf (num : Str) {a : Acct}
    (hargs : ∀ w ∈ args, IsWord w) (ha : a.Wf) : (msAccount num (accountParams num type args) a).1.Wf := by
  unfold msAccount accountParams
  simp only [ne_eq, not_true_eq_false, if_false]
  split
  · split
    · exact ⟨fun h => absurd h (by simp), fun _ => rfl⟩
    · exact ha
  · split
    · cases args with
      | nil => exact ha
      | cons name args =>
        simp only
        split
        · exact ha
        · split
          · exact ha
          · next hlen =>
              split
              · exact ha
              · refine ⟨fun _ => ?_, fun h => absurd h (by simp [setAccount])⟩
                have hle : name.length ≤ accountLen := Nat.le_of_not_lt hlen
                have hname : ircdStrncpy a.name name (accountLen + 1) = name := take_of_length_le hle
                simp only [setAccount, hname]
                exact ⟨hargs name mem_cons_self, hle⟩
    · exact ha

def MsgOk (N : Numerics) : AcctMsg → Prop
  | .account line => ∃ type args, (type = 'U' ∨ type = 'R' ∨ type = 'M') ∧ (∀ w ∈ args, IsWord w) ∧
      args.length ≤ 2 ∧ (accountLine N (accountParams N.num type args)).length ≤ bufSize - 2 ∧
      line = msgqMake (accountLine N (accountParams N.num type args))
  | .nick line => ∃ i a, a.Wf ∧ Learnable a ∧ (nickLine i a).length ≤ bufSize - 2 ∧
      line = msgqMake (nickLine i a)

lemma relay_account (N : Numerics) (feat : UserFeat) {a : Acct}
    (htype : type = 'U' ∨ type = 'R' ∨ type = 'M') (hargs : ∀ w ∈ args, IsWord w)
    (hfit : (accountLine N (accountParams N.num type args)).length ≤ bufSize - 2) :
    let r := msAccount N.num (accountParams N.num type args) a
    let out := r.2.toList.map fun params => AcctMsg.account (msgqMake (accountLine N params))
    Flood.drain (receive N feat false) out (some a) = some r.1 ∧ ∀ m ∈ out, MsgOk N m := by
  dsimp only
  obtain ⟨hnone, hsome⟩ := msAccount_passed N.num (accountParams N.num type args) a
  cases hr : (msAccount N.num (accountParams N.num type args) a).2 with
  | none => exact ⟨by simp [hnone hr], by simp⟩
  | some params =>
    obtain ⟨k, hk, rfl⟩ := msAccount_params hr
    have hargs' : ∀ w ∈ args.take k, IsWord w := fun w hw => hargs w (List.mem_of_mem_take hw)
    have hlen' : (args.take k).length ≤ 2 := (List.length_take_le k args).trans hk
    have hfit' : (accountLine N (accountParams N.num type (args.take k))).length ≤ bufSize - 2 := by
      refine le_trans ?_ hfit
      have := length_spaced_take_le args k
      simp only [accountLine, accountParams, spaced_cons, length_append, length_cons]
      omega
    refine ⟨?_, ?_⟩
    · show some (msAccount N.num (messageParams _) a).1 = _
      rw [messageParams_account N htype hargs' hlen' hfit', hsome _ hr]
    · intro m hm
      obtain rfl := mem_singleton.mp hm
      exact ⟨type, args.take k, htype, hargs', hlen', hfit', rfl⟩

/-- What holds in every state: the servers are in step along the links, what is kept is well formed and
what is on its way as well. -/
structure AcctNet.Ok (N : Numerics) (feat : ι → UserFeat) (root : ι) (s : AcctNet ι) : Prop where
  synced : Flood.Synced (fun v => receive N (feat v) false) s.up s.net
  top : s.up root = none
  wf : ∀ v a, s.net.node v = some a → a.Wf
  msgs : ∀ u v, ∀ m ∈ s.net.queue u v, MsgOk N m

lemma sendDown_of_ne {up : ι → Option ι} {v w : ι} (h : up w ≠ some v) (ms : List AcctMsg) :
    sendDown up v ms w = [] := if_neg h

lemma msgOk_put {N : Numerics} {n : Net ι (Option Acct) AcctMsg} {v : ι} {x : Option Acct}
    {out : ι → List AcctMsg} (h : ∀ a b, ∀ m ∈ n.queue a b, MsgOk N m)
    (hout : ∀ b, ∀ m ∈ out b, MsgOk N m) (a b : ι) : ∀ m ∈ (n.put v x out).queue a b, MsgOk N m := by
  intro m hm
  by_cases ha : a = v
  · subst ha
    rw [Net.put_queue_self] at hm
    rcases mem_append.mp hm with hm | hm
    · exact h a b m hm
    · exact hout b m hm
  · rw [Net.put_queue_of_ne _ _ _ _ ha] at hm
    exact h a b m hm

lemma wf_put {n : Net ι (Option Acct) AcctMsg} {v : ι} {x : Option Acct} {out : ι → List AcctMsg}
    (h : ∀ u a, n.node u = some a → a.Wf) (hx : ∀ a, x = some a → a.Wf) (u : ι) (a : Acct)
    (hu : (n.put v x out).node u = some a) : a.Wf := by
  by_cases huv : u = v
  · subst huv
    rw [Net.put_node_self] at hu
    exact hx a hu
  · rw [Net.put_node_of_ne _ _ _ huv] at hu
    exact h u a hu

lemma mem_sendDown {up : ι → Option ι} {v w : ι} {ms : List AcctMsg} {m : AcctMsg}
    (h : m ∈ sendDown up v ms w) : m ∈ ms := by
  unfold sendDown at h
  split at h
  · exact h
  · exact absurd h (by simp)

variable {N : Numerics} {feat : ι → UserFeat} {root : ι} {s : AcctNet ι}

lemma AcctNet.Ok.issue (h : s.Ok N feat root) (cmd : AccountCmd N) :
    (s.step N feat root (.issue cmd)).Ok N feat root := by
  unfold AcctNet.step
  cases hr : s.net.node root with
  | none => exact h
  | some a =>
    have hrelay := fun w => relay_account N (feat w) (a := a) cmd.type_mem cmd.words cmd.fits
    refine ⟨?_, h.top, ?_, ?_⟩
    · apply h.synced.write h.top
      · intro w hw
        rw [hr, sendDown, if_pos hw]
        exact (hrelay w).1
      · exact fun w hw => sendDown_of_ne hw _
    · apply wf_put h.wf
      intro b hb
      rw [← some.inj hb]
      exact msAccount_wf N.num cmd.words (h.wf root a hr)
    · apply msgOk_put h.msgs
      exact fun b m hm => (hrelay b).2 m (mem_sendDown hm)

lemma relay_spec {m : AcctMsg} (hm : MsgOk N m) {x : Option Acct} (hx : ∀ a, x = some a → a.Wf)
    (fv : UserFeat) {other : Bool} {i : Intro}
    (hnick : ∀ line, m = .nick line → other = false ∧
      (nickLine i (nickAccount fv false (messageParams line))).length ≤ bufSize - 2) :
    receive N fv other m x = receive N fv false m x ∧ (∀ a, receive N fv other m x = some a → a.Wf) ∧
      (∀ fw, Flood.drain (receive N fw false) (relay N fv other i m x) x = receive N fv other m x) ∧
      ∀ m' ∈ relay N fv other i m x, MsgOk N m' := by
  cases m with
  | account line =>
    cases x with
    | none => exact ⟨rfl, fun a h => absurd h (by simp [receive]), fun fw => rfl, by simp [relay]⟩
    | some a =>
      obtain ⟨type, args, htype, hargs, hlen, hfit, rfl⟩ := hm
      have hparams := messageParams_account N htype hargs hlen hfit
      have hrelay := fun fw => relay_account N fw (a := a) htype hargs hfit
      refine ⟨rfl, ?_, ?_, ?_⟩
      · intro b hb
        rw [← some.inj hb, hparams]
        exact msAccount_wf N.num hargs (hx a rfl)
      · intro fw
        unfold relay receive
        simp only
        rw [hparams]
        exact (hrelay fw).1
      · unfold relay
        simp only
        rw [hparams]
        exact (hrelay fv).2
  | nick line =>
    obtain ⟨rfl, hfit'⟩ := hnick line rfl
    cases x with
    | some a => exact ⟨rfl, hx, fun fw => rfl, by simp [relay]⟩
    | none =>
      obtain ⟨j, a, hwf, hlearn, hfit, rfl⟩ := hm
      have ha : nickAccount fv false (messageParams (msgqMake (nickLine j a))) = a :=
        (nick_learned_iff fv j a hwf hfit).mpr hlearn
      rw [ha] at hfit'
      refine ⟨rfl, ?_, ?_, ?_⟩
      · intro b hb
        rw [← some.inj hb, ha]
        exact hwf
      · intro fw
        unfold relay receive
        simp only [Flood.drain_cons, Flood.drain_nil]
        rw [ha, (nick_learned_iff fw i a hwf hfit').mpr hlearn]
      · unfold relay
        simp only [mem_singleton]
        rintro m' rfl
        rw [ha]
        exact ⟨i, a, hwf, hlearn, hfit', rfl⟩

lemma AcctNet.Ok.deliver (h : s.Ok N feat root) {u v : ι} {other : Bool} {i : Intro}
    (he : s.Meets N feat (.deliver u v other i)) :
    (s.step N feat root (.deliver u v other i)).Ok N feat root := by
  unfold AcctNet.step
  simp only
  cases hq : s.net.queue u v with
  | nil => exact h
  | cons m q =>
    have hup : s.up v = some u := by
      by_contra hne
      have := h.synced.other u v hne
      rw [hq] at this
      exact absurd this (by simp)
    have hm : MsgOk N m := h.msgs u v m (by rw [hq]; exact mem_cons_self)
    have hnick : ∀ line, m = .nick line → other = false ∧
        (nickLine i (nickAccount (feat v) false (messageParams line))).length ≤ bufSize - 2 :=
      fun line hl => he line q (by rw [hq, hl])
    obtain ⟨hsame, hwf, hdrain, hout⟩ := relay_spec hm (h.wf v) (feat v) hnick
    refine ⟨?_, h.top, ?_, ?_⟩
    · apply h.synced.deliver hup hq hsame
      · intro w hw
        rw [sendDown, if_pos hw]
        exact hdrain (feat w)
      · exact fun w hw => sendDown_of_ne hw _
    · exact wf_put h.wf hwf
    · apply msgOk_put
      · intro a b m' hm'
        by_cases hab : a = u ∧ b = v
        · obtain ⟨rfl, rfl⟩ := hab
          rw [Net.pop_queue_self] at hm'
          exact h.msgs a b m' (List.mem_of_mem_tail hm')
        · rw [Net.pop_queue_of_ne _ hab] at hm'
          exact h.msgs a b m' hm'
      · exact fun b m' hm' => hout m' (mem_sendDown hm')

lemma AcctNet.Ok.link (h : s.Ok N feat root) {u v : ι} {i : Intro}
    (he : s.Meets N feat (.link u v i)) : (s.step N feat root (.link u v i)).Ok N feat root := by
  unfold AcctNet.step
  simp only
  split
  swap
  · exact h
  · next hc =>
      obtain ⟨hup, hroot, huv, hnode⟩ := hc
      refine ⟨?_, ?_, wf_put h.wf (h.wf u), ?_⟩
      · apply h.synced.link hup huv
        cases hu : s.net.node u with
        | none => simp [hnode]
        | some a =>
          obtain ⟨hlearn, hfit⟩ := he a hu
          rw [hnode]
          show some (nickAccount (feat v) false (messageParams (msgqMake (nickLine i a)))) = some a
          rw [(nick_learned_iff (feat v) i a (h.wf u a hu) hfit).mpr hlearn]
      · show Function.update s.up v (some u) root = none
        rw [Function.update_of_ne (Ne.symm hroot)]
        exact h.top
      · apply msgOk_put h.msgs
        intro b m hm
        split at hm
        · obtain ⟨a, ha, rfl⟩ := mem_map.mp hm
          have hu : s.net.node u = some a := by simpa using ha
          obtain ⟨hlearn, hfit⟩ := he a hu
          exact ⟨i, a, h.wf u a hu, hlearn, hfit, rfl⟩
        · exact absurd hm (by simp)

lemma AcctNet.Reach.ok (h : AcctNet.Reach N feat root s) : s.Ok N feat root := by
  induction h with
  | start up know a ha hroot hup hknow =>
    refine ⟨⟨?_, fun _ _ _ => rfl, hup⟩, hroot, ?_, fun _ _ m hm => absurd hm (by simp)⟩
    · intro u v huv
      show (if know v then some a else none) = if know u then some a else none
      rw [hknow u v huv]
    · intro v b hb
      simp only at hb
      split at hb
      · rw [← some.inj hb]
        exact ha
      · exact absurd hb (by simp)
  | step _ e he ih =>
    cases e with
    | issue cmd => exact ih.issue cmd
    | deliver u v other i => exact ih.deliver he
    | link u v i => exact ih.link he

/-- **All servers agree on the account** once all messages have been read: whether there is one, its name and
its creation time. -/
theorem account_agree (h : AcctNet.Reach N feat root s) (hq : s.net.Quiet) {v : ι}
    (hv : Flood.Below s.up root v) : s.net.node v = s.net.node root :=
  h.ok.synced.agree_of_quiet hq hv

/-! ## Samples -/

def sampleNumerics : Numerics where
  num := "ABAAB".toList
  services := "Az".toList
  num_word := isWord_abaab
  services_word := by decide

def sampleIntro : Intro where
  source := "AB".toList
  head := ["nick", "1", "1000", "user", "host.example"].map String.toList
  c := blankCli
  ip := "B]AAAB".toList
  num := "ABAAB".toList
  info := "A user".toList
  source_word := isWord_ab
  head_length := rfl
  head_words := by decide
  texts := fun _ _ _ h => absurd h (by simp [blankCli])
  ip_word := by decide
  ip_plus := by decide
  num_word := isWord_abaab

/-- The services register an account for the user. -/
def registerBob (ts : List Str) (hts : ts = [] ∨ ts = ["5".toList]) : AccountCmd sampleNumerics where
  type := 'R'
  args := "bob".toList :: ts
  type_mem := .inr (.inl rfl)
  words := by rcases hts with rfl | rfl <;> decide
  fits := by rcases hts with rfl | rfl <;> decide

/-- Two servers that are not linked; the first knows the user, who has no account. -/
def twoServers : AcctNet (Fin 2) where
  net := { node := fun v => if v = 0 then some noAcct else none, queue := fun _ _ => [] }
  up _ := none

lemma reach_twoServers : AcctNet.Reach sampleNumerics (fun _ => defaultFeat) (0 : Fin 2) twoServers := by
  have h : AcctNet.Reach sampleNumerics (fun _ => defaultFeat) (0 : Fin 2) _ :=
    .start (fun _ => none) (fun v => decide (v = 0)) noAcct
      ⟨fun h => absurd h (by simp [noAcct]), fun _ => rfl⟩ rfl (by simp) (by simp)
  simpa [twoServers] using h

/-- An account is registered without a time, a server is linked, and both have the account. -/
theorem account_agree_bob :
    (let run := [.issue (registerBob [] (.inl rfl)), .link 0 1 sampleIntro, .deliver 0 1 false sampleIntro]
     let s := run.foldl (AcctNet.step sampleNumerics (fun _ => defaultFeat) (0 : Fin 2)) twoServers
     s.net.node 1 = some { has := true, name := "bob".toList, create := 0 }) := by
  have h₁ := reach_twoServers.step (.issue (registerBob [] (.inl rfl))) trivial
  have h₂ := h₁.step (.link 0 1 sampleIntro) (by
    rintro a ha
    obtain rfl : { has := true, name := "bob".toList, create := 0 } = a :=
      some.inj ((by decide +kernel : _ = some _).symm.trans ha)
    decide +kernel)
  have h₃ := h₂.step (.deliver 0 1 false sampleIntro) (by
    rintro line q hq
    have hline : AcctMsg.nick (msgqMake (nickLine sampleIntro
        { has := true, name := "bob".toList, create := 0 })) = .nick line :=
      (List.cons.inj ((by decide +kernel : _ = [_]).symm.trans hq)).1
    rw [← AcctMsg.nick.inj hline]
    decide +kernel)
  refine (account_agree h₃ ?_ ?_).trans (by decide +kernel)
  · intro a b
    revert a b
    decide +kernel
  · exact .step .self (by decide +kernel)

/-- An account is registered with a time, and a server that is linked then learns a shorter name. -/
theorem account_learned_short :
    (let run := [.issue (registerBob ["5".toList] (.inr rfl)), .link 0 1 sampleIntro,
       .deliver 0 1 false sampleIntro]
     let s := run.foldl (AcctNet.step sampleNumerics (fun _ => defaultFeat) (0 : Fin 2)) twoServers
     s.net.Quiet ∧ Flood.Below s.up 0 1 ∧
       s.net.node 0 = some { has := true, name := "bob".toList, create := 5 } ∧
       s.net.node 1 = some { has := true, name := "bo".toList, create := 5 }) := by
  refine ⟨?_, .step .self ?_, ?_, ?_⟩
  · intro a b
    revert a b
    decide +kernel
  · decide +kernel
  · decide +kernel
  · decide +kernel

end Nefarious.User
