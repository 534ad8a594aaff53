import Nefarious.User.Modes

/-!
# What users may do to their own modes

A local user changes its own modes with MODE (`ownMode`).
-/

namespace Nefarious.User

open List (mem_cons not_mem_nil)

/-! ## The rules, flag by flag -/

section revoke

variable (feat : UserFeat) (old : Flags) (mine : Bool) (privs : Privs) (fl : Flags)

/-- The flags that only others give, and that a rule takes back when they are new.
`s_user.c` `set_user_mode` -/
def reserved : List Flag := [.oper, .locop, .account, .sethost, .fakehost]

/-- The flags that stand for a privilege. `s_user.c` `set_user_mode`. -/
def guarded : List (Flag × Priv) := [(.chserv, .service), (.xtraop, .xtraop), (.hideOper, .hideOper),
  (.noidle, .hideIdle), (.whoisNotice, .whoisNotice)]

lemma revoke_reserved {f : Flag} (hf : f ∈ reserved) (h : revoke feat old true privs fl f = true) :
    old f = true := by
  revert h
  simp only [reserved, mem_cons, not_mem_nil, or_false] at hf
  rcases hf with rfl | rfl | rfl | rfl | rfl <;>
  · simp only [revoke, ↓clrIf_of_ne, ↓setIf_of_ne, ↓clrIf_self, ↓setIf_self, ne_eq, reduceCtorEq,
      not_false_eq_true]
    grind

lemma revoke_cloak {f : Flag} (hf : f = .cloakip ∨ f = .cloakhost)
    (h : revoke feat old mine privs fl f = true) : old f = true := by
  revert h
  rcases hf with rfl | rfl <;>
  · simp only [revoke, ↓clrIf_of_ne, ↓setIf_of_ne, ↓clrIf_self, ne_eq, reduceCtorEq, not_false_eq_true]
    grind

lemma revoke_ssl : revoke feat old mine privs fl .ssl = old .ssl := by
  simp only [revoke, ↓clrIf_of_ne, ↓setIf_of_ne, ↓clrIf_self, ↓setIf_self, ne_eq, reduceCtorEq,
    not_false_eq_true]
  cases old .ssl <;> cases fl .ssl <;> rfl

lemma revoke_guarded {f : Flag} {p : Priv} (hf : (f, p) ∈ guarded)
    (h : revoke feat old mine privs fl f = true) : privs p = true := by
  revert h
  simp only [guarded, mem_cons, Prod.mk.injEq, not_mem_nil, or_false] at hf
  rcases hf with ⟨rfl, rfl⟩ | ⟨rfl, rfl⟩ | ⟨rfl, rfl⟩ | ⟨rfl, rfl⟩ | ⟨rfl, rfl⟩ <;>
  · simp only [revoke, ↓clrIf_of_ne, ↓setIf_of_ne, ↓clrIf_self, ne_eq, reduceCtorEq, not_false_eq_true]
    grind

end revoke

/-! ## Commands of a user about itself -/

variable {ι : Type*} [DecidableEq ι]

/-- A MODE of a local user about a user: the features of the moment, whom a name finds, and the
parameters. `m_mode.c` `m_mode`. -/
structure OwnMode (ι : Type*) where
  feat : UserFeat
  stats : UserStats
  findUser : Str → Option ι
  /-- `parv[1]` and what follows. -/
  parv : List Str

/-- The mode string that a command applies, with the words that follow it: there is none when the
target is missing or somebody else, or when the command asks for the modes.
`s_user.c` `set_user_mode` -/
def OwnMode.words (m : OwnMode ι) (self : ι) : Option (List Str) :=
  match m.parv with
  | target :: w :: ws =>
    (umodeTarget false self (fun _ => false) (fun _ => true) (fun _ => none) m.findUser
      (some target)).map fun _ => w :: ws
  | _ => none

/-- A local user changes its own modes. `s_user.c` `set_user_mode` (`cptr == sptr`). -/
def ownMode (self : ι) (m : OwnMode ι) (c : Cli) : Cli :=
  match m.words self with
  | some words => (applyUmodes m.feat false false words c m.stats).1
  | none => c

def ownRun (self : ι) (ms : List (OwnMode ι)) (c : Cli) : Cli := ms.foldl (fun c m => ownMode self m c) c

/-- A command that ends an operator: one who was a global operator is none, or one who was an operator
of some kind is none of any kind. `s_user.c` `set_user_mode`. -/
def EndsOper (c c' : Cli) : Prop :=
  (c.flags .oper = true ∧ c'.flags .oper = false) ∨
  ((c.flags .oper = true ∨ c.flags .locop = true) ∧ isAnOper c'.mine c'.flags = false)

/-- What one command of a user does to its flags. `s_user.c` `set_user_mode`. -/
structure Authorised (feat : UserFeat) (applies : Bool) (c c' : Cli) : Prop where
  reserved : ∀ f ∈ reserved, c'.flags f = true → c.flags f = true
  ssl : c'.flags .ssl = c.flags .ssl
  cloak : ∀ f, f = .cloakip ∨ f = .cloakhost → c'.flags f = true → c.flags f = true ∨
    (c'.flags .hiddenhost = true ∧ (feat.hostHidingStyle = 2 ∨ feat.hostHidingStyle = 3))
  guarded : applies = true → ¬ EndsOper c c' → ∀ f p, (f, p) ∈ guarded → c'.flags f = true → c'.privs p = true

lemma ruledUmodes_flags (feat : UserFeat) (words : List Str) (c : Cli) :
    (ruledUmodes feat false false words c).c.flags =
      revoke feat c.flags c.mine c.privs (scanUmodes feat words c).c.flags := by
  have h := sameCli_scanUmodes feat words c
  show revoke feat c.flags (scanUmodes feat words c).c.mine (scanUmodes feat words c).c.privs _ = _
  rw [h.mine, h.privs]

lemma ownMode_mine (self : ι) (m : OwnMode ι) (c : Cli) : (ownMode self m c).mine = c.mine := by
  unfold ownMode
  split
  · exact (applyUmodes_spec ..).mine
  · rfl

lemma ownMode_authorised (self : ι) (m : OwnMode ι) (c : Cli) (hmine : c.mine = true) :
    Authorised m.feat (m.words self).isSome c (ownMode self m c) := by
  unfold ownMode
  cases hw : m.words self with
  | none => exact ⟨fun _ _ h => h, rfl, fun _ _ h => .inl h, fun h => absurd h (by simp)⟩
  | some words =>
    have hs := applyUmodes_spec m.feat false false words c m.stats
    have hfl := ruledUmodes_flags m.feat words c
    rw [hfl, hmine] at hs
    dsimp only
    refine ⟨fun f hf hset => ?_, ?_, fun f hf hset => ?_, fun _ hend f p hfp hset => ?_⟩
    · have hsettled : Settled f := by
        simp only [reserved, mem_cons, not_mem_nil, or_false] at hf
        rcases hf with rfl | rfl | rfl | rfl | rfl <;> decide
      rw [hs.flags f hsettled] at hset
      exact revoke_reserved _ _ _ _ hf hset
    · rw [hs.flags .ssl (by decide), revoke_ssl]
    · exact (hs.cloak f hf hset).imp_left (revoke_cloak _ _ _ _ _ hf)
    · have hsettled : Settled f := by
        simp only [guarded, mem_cons, Prod.mk.injEq, not_mem_nil, or_false] at hfp
        rcases hfp with ⟨rfl, -⟩ | ⟨rfl, -⟩ | ⟨rfl, -⟩ | ⟨rfl, -⟩ | ⟨rfl, -⟩ <;> decide
      have hpriv : c.privs p = true := by
        rw [hs.flags f hsettled] at hset
        exact revoke_guarded _ _ _ _ _ hfp hset
      -- the privileges are the same unless the command ends an operator
      rw [hs.privs, if_neg, hpriv]
      intro hdrop
      apply hend
      have hany : isAnOper (applyUmodes m.feat false false words c m.stats).1.mine
          (applyUmodes m.feat false false words c m.stats).1.flags =
          isAnOper true (revoke m.feat c.flags true c.privs (scanUmodes m.feat words c).c.flags) := by
        simp only [isAnOper, hs.mine, hmine, hs.flags .oper (by decide), hs.flags .locop (by decide),
          hs.flags .admin (by decide)]
      unfold EndsOper
      rw [hany, hs.flags .oper (by decide)]
      rw [hmine] at hdrop
      simp only [Bool.true_and, Bool.or_eq_true, Bool.and_eq_true, Bool.not_eq_true'] at hdrop
      rcases hdrop with h | h
      · exact .inr h
      · exact .inl ⟨h.1.2, h.2⟩

lemma ownRun_mine (self : ι) (ms : List (OwnMode ι)) (c : Cli) : (ownRun self ms c).mine = c.mine := by
  induction ms generalizing c with
  | nil => rfl
  | cons m ms ih => exact (ih _).trans (ownMode_mine self m c)

/-- **Users have no authority over reserved flags, and guarded flags need a privilege.** Over any sequence of
commands, no reserved flag is new and SSL is as it was in the beginning; each command meets its rules, and a
cloak that is new is one the server has computed for a hidden host. -/
theorem ownRun_authority (self : ι) (ms : List (OwnMode ι)) (m : OwnMode ι) (c : Cli) (hmine : c.mine = true) :
    (∀ f ∈ reserved, (ownRun self ms c).flags f = true → c.flags f = true) ∧
    (ownRun self ms c).flags .ssl = c.flags .ssl ∧
    Authorised m.feat (m.words self).isSome (ownRun self ms c) (ownMode self m (ownRun self ms c)) := by
  refine ⟨?_, ?_, ownMode_authorised self m _ ((ownRun_mine self ms c).trans hmine)⟩
  · intro f hf
    induction ms generalizing c with
    | nil => exact id
    | cons m ms ih =>
      intro h
      have := ih (ownMode self m c) ((ownMode_mine self m c).trans hmine) h
      exact (ownMode_authorised self m c hmine).reserved f hf this
  · induction ms generalizing c with
    | nil => rfl
    | cons m ms ih =>
      exact (ih (ownMode self m c) ((ownMode_mine self m c).trans hmine)).trans
        (ownMode_authorised self m c hmine).ssl

/-! ## Samples -/

def sampleUser (flags : List Flag) (privs : List Priv) : Cli := { blankCli with
  registered := true
  flags := fun f => f ∈ flags
  privs := fun p => p ∈ privs
  handler := if .oper ∈ flags then .oper else .client }

/-- The command of the user `nick` with a list of words. -/
def sampleMode (style : ℤ) (words : List String) : OwnMode Bool where
  feat := { defaultFeat with hostHidingStyle := style }
  stats := { opers := 1, invClients := 0 }
  findUser name := if name = "nick".toList then some true else none
  parv := "nick".toList :: words.map String.toList

theorem ownRun_authority_service :
    (∀ f ∈ reserved, (ownRun true [sampleMode 1 ["+k"]] (sampleUser [.oper] [.service])).flags f = true →
      (sampleUser [.oper] [.service]).flags f = true) ∧
    (ownMode true (sampleMode 1 ["+I"]) (ownRun true [sampleMode 1 ["+k"]]
      (sampleUser [.oper] [.service]))).flags .chserv = true ∧
    (ownMode true (sampleMode 1 ["+I"]) (ownRun true [sampleMode 1 ["+k"]]
      (sampleUser [.oper] [.service]))).privs .service = true := by
  have h := ownRun_authority true [sampleMode 1 ["+k"]] (sampleMode 1 ["+I"])
    (sampleUser [.oper] [.service]) rfl
  have hset : (ownMode true (sampleMode 1 ["+I"]) (ownRun true [sampleMode 1 ["+k"]]
      (sampleUser [.oper] [.service]))).flags .chserv = true := by decide +kernel
  refine ⟨h.1, hset, h.2.2.guarded (by decide +kernel) ?_ .chserv .service (by decide) hset⟩
  rintro (⟨-, h⟩ | ⟨-, h⟩)
  · exact absurd h (by decide +kernel)
  · exact absurd h (by decide +kernel)

/-- A user without a cloak gets one with `+x` once the server hides hosts behind cloaks; an operator
who is a channel service stays one without the privilege when it ends being an operator; and asking
for the modes changes nothing, whatever they are. `s_user.c` `set_user_mode`,
`hide_hostmask`. -/
theorem ownMode_cloak_and_leftover : (let c := sampleUser [] []
     let c' := ownMode true (sampleMode 2 ["+x"]) c
     c.flags .cloakhost = false ∧ c'.flags .cloakhost = true ∧
     c.flags .cloakip = false ∧ c'.flags .cloakip = true) ∧
    (let c := sampleUser [.oper, .chserv] [.service, .propagate]
     let c' := ownMode true (sampleMode 1 ["-o"]) c
     c'.flags .oper = false ∧ c'.flags .chserv = true ∧ c'.privs .service = false) ∧
    (let c' := ownMode true (sampleMode 1 []) (sampleUser [.chserv] [])
     c'.flags .chserv = true ∧ c'.privs .service = false) := by
  decide +kernel

end Nefarious.User
