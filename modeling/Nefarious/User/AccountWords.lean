import Nefarious.User.Backends

/-!
# Account words of iauth

An account, with a colon and a creation time behind it or without, comes from iauth in two ways.
-/

namespace Nefarious.Sasl

open Option (getD_none getD_some)

open User

variable {ι : Type*} [DecidableEq ι]

/-- What a user has of an account. `struct.h` `struct User`. -/
structure Login where
  account : Str
  accCreate : ℤ
  isAccount : Bool
deriving DecidableEq

/-- The time behind the name and a colon, as it is stored. `s_auth.c` `iauth_cmd_done_account`,
`iauth_cmd_sasl_loggedin`. -/
def created (word : Str) : Option ℤ :=
  if word[accountNameLen word]? = some ':' then
    some (Int.bmod (strtoul (word.drop (accountNameLen word + 1))) (2 ^ 64))
  else none

/-- A word that both commands refuse. `s_auth.c` `iauth_cmd_done_account`,
`iauth_cmd_sasl_loggedin`. -/
def Refused (word : Str) : Prop := word = [] ∨ accountLen < accountNameLen word

instance (word : Str) : Decidable (Refused word) :=
  inferInstanceAs (Decidable (word = [] ∨ accountLen < accountNameLen word))

/-- An account for a client that is accepted. `s_auth.c`. -/
def iauthCmdDoneAccount (params : List Str) (u : Login) : Login :=
  match params.head?.getD [] with
  | [] => u
  | account =>
    let len := accountNameLen account
    if accountLen < len then u
    else if account[len]? = some ':' then
      { account := ircdStrncpy u.account (account.take len) (accountLen + 1)
        accCreate := Int.bmod (strtoul (account.drop (len + 1))) (2 ^ 64)
        isAccount := true }
    else { u with account := ircdStrncpy u.account account (accountLen + 1), isAccount := true }

/-- Completion of registration. `s_auth.c`. -/
def authCompleteSasl (c : SaslCli ι) (u : Login) : Login :=
  if c.complete ∧ c.account ≠ [] then
    { account := ircdStrncpy u.account c.account (accountLen + 1)
      accCreate := if c.accCreate ≠ 0 then c.accCreate else u.accCreate
      isAccount := true }
  else u

/-- The command `R`. `s_auth.c` `iauth_parse`. -/
def viaDone (word : Str) (u : Login) : Login := iauthCmdDoneAccount [word] u

/-- The commands `L` and `Z`, and completion. `s_auth.c` `iauth_parse`, `check_auth_finished`. -/
def viaSasl (word : Str) (i : ι) (s : Clients ι) (u : Login) : Login :=
  authCompleteSasl ((iauthCmdSasl i 'Z' [] (iauthCmdSasl i 'L' [word] s)).cli i) u

/-- **What a user has after `R`.** -/
theorem viaDone_eq (word : Str) (u : Login) : viaDone word u =
    if Refused word then u
    else
      { account := match created word with
          | none => word.take accountLen
          | some _ => word.take (accountNameLen word)
        accCreate := (created word).getD u.accCreate
        isAccount := true } := by
  unfold viaDone iauthCmdDoneAccount created
  cases word with
  | nil => rfl
  | cons c w =>
    obtain ⟨ts, hts⟩ : ∃ ts : ℤ,
      Int.bmod (strtoul ((c :: w).drop (accountNameLen (c :: w) + 1))) (2 ^ 64) = ts := ⟨_, rfl⟩
    simp only [List.head?_cons, getD_some]
    rw [hts]
    by_cases hlong : accountLen < accountNameLen (c :: w)
    · have href : Refused (c :: w) := Or.inr hlong
      rw [if_pos hlong, if_pos href]
    · have hnot : ¬ Refused (c :: w) := fun h => h.elim (List.cons_ne_nil _ _) hlong
      have hmin : min accountLen (accountNameLen (c :: w)) = accountNameLen (c :: w) :=
        min_eq_right (not_lt.mp hlong)
      rw [if_neg hlong, if_neg hnot]
      by_cases hcolon : (c :: w)[accountNameLen (c :: w)]? = some ':'
      · rw [if_pos hcolon, if_pos hcolon]
        simp only [ircdStrncpy, Nat.succ_ne_zero, if_false, Nat.add_sub_cancel, List.take_take, hmin, getD_some]
      · rw [if_neg hcolon, if_neg hcolon]
        simp only [ircdStrncpy, Nat.succ_ne_zero, if_false, Nat.add_sub_cancel, getD_none]

lemma loggedin_cli (word : Str) (i : ι) (s : Clients ι) : (iauthCmdSaslLoggedin i [word] s).cli i =
    if Refused word then s.cli i
    else
      { s.cli i with
        account := word.take accountLen
        accCreate := (created word).getD (s.cli i).accCreate } := by
  unfold iauthCmdSaslLoggedin created
  cases word with
  | nil => rfl
  | cons c w =>
    obtain ⟨ts, hts⟩ : ∃ ts : ℤ,
      Int.bmod (strtoul ((c :: w).drop (accountNameLen (c :: w) + 1))) (2 ^ 64) = ts := ⟨_, rfl⟩
    simp only [List.head?_cons, getD_some]
    rw [hts]
    by_cases hlong : accountLen < accountNameLen (c :: w)
    · have href : Refused (c :: w) := Or.inr hlong
      rw [if_pos hlong, if_pos href]
    · have hnot : ¬ Refused (c :: w) := fun h => h.elim (List.cons_ne_nil _ _) hlong
      rw [if_neg hlong, if_neg hnot]
      simp only [Clients.modify, Function.update_self, ircdStrncpy, Nat.succ_ne_zero, if_false, Nat.add_sub_cancel]
      by_cases hcolon : (c :: w)[accountNameLen (c :: w)]? = some ':'
      · rw [if_pos hcolon, if_pos hcolon]
        rfl
      · rw [if_neg hcolon, if_neg hcolon]
        rfl

/-- **What a user has after `L`, `Z` and registration.** -/
theorem viaSasl_eq (word : Str) (i : ι) (s : Clients ι) (u : Login) : viaSasl word i s u =
    if Refused word then authCompleteSasl { s.cli i with complete := true } u
    else
      { account := word.take accountLen
        accCreate := if (created word).getD (s.cli i).accCreate ≠ 0 then (created word).getD (s.cli i).accCreate
          else u.accCreate
        isAccount := true } := by
  have hdone : ∀ t : Clients ι, (iauthCmdSasl i 'Z' [] t).cli i = { t.cli i with complete := true, timer := false } :=
    fun t => Function.update_self i _ t.cli
  have hlogin : iauthCmdSasl i 'L' [word] s = iauthCmdSaslLoggedin i [word] s := rfl
  rw [viaSasl, hdone, hlogin, loggedin_cli]
  by_cases href : Refused word
  · rw [if_pos href, if_pos href]
    rfl
  · have htake : word.take accountLen ≠ [] := by
      rw [ne_eq, List.take_eq_nil_iff, not_or]
      exact ⟨by decide, fun hnil => href (Or.inl hnil)⟩
    rw [if_neg href, if_neg href, authCompleteSasl, if_pos ⟨rfl, htake⟩]
    simp only [ircdStrncpy, Nat.succ_ne_zero, if_false, Nat.add_sub_cancel, List.take_take, min_self]

/-- **Both ways leave the user with the same.** -/
def ReadAlike (word : Str) (i : ι) (s : Clients ι) (u : Login) : Prop :=
  viaSasl word i s u = viaDone word u ∧ (Refused word → viaSasl word i s u = u ∧ viaDone word u = u)

/-- When they do: a word that is refused needs a client that has not logged in before, or as the same; without a
time, no other time may be kept from before; with one, the name must be as long as it can be, and a time of
zero needs a user without one. -/
def AlikeWhen (word : Str) (c : SaslCli ι) (u : Login) : Prop :=
  if Refused word then
    c.account = [] ∨
      (u.isAccount = true ∧ u.account = c.account.take accountLen ∧ (c.accCreate = 0 ∨ c.accCreate = u.accCreate))
  else
    match created word with
    | none => c.accCreate = 0 ∨ c.accCreate = u.accCreate
    | some ts => accountNameLen word = accountLen ∧ (ts ≠ 0 ∨ u.accCreate = 0)

lemma ite_time_eq {n k : ℤ} : (if n ≠ 0 then n else k) = k ↔ n = 0 ∨ n = k := by
  by_cases hn : n = 0
  · simp [hn]
  · rw [if_pos hn, or_iff_right hn]

lemma take_eq_iff {word : Str} {ts : ℤ} (h : created word = some ts)
    (hlen : accountNameLen word ≤ accountLen) : word.take accountLen = word.take (accountNameLen word) ↔
    accountNameLen word = accountLen := by
  have hlt : accountNameLen word < word.length := by
    unfold created at h
    split_ifs at h with hcolon
    exact (List.getElem?_eq_some_iff.mp hcolon).1
  constructor
  · intro heq
    have hl := congrArg List.length heq
    rw [List.length_take, List.length_take] at hl
    omega
  · intro heq
    rw [heq]

/-- **An account word is read alike exactly then.** -/
theorem readAlike_iff (word : Str) (i : ι) (s : Clients ι) (u : Login) :
    ReadAlike word i s u ↔ AlikeWhen word (s.cli i) u := by
  unfold ReadAlike AlikeWhen
  rw [viaSasl_eq, viaDone_eq]
  by_cases href : Refused word
  · rw [if_pos href, if_pos href, if_pos href, authCompleteSasl]
    have hback : ∀ v : Login, (v = u ∧ (Refused word → v = u ∧ u = u)) ↔ v = u := fun v =>
      ⟨fun h => h.1, fun h => ⟨h, fun _ => ⟨h, rfl⟩⟩⟩
    rw [hback]
    by_cases hnil : (s.cli i).account = []
    · rw [if_neg fun h => h.2 hnil]
      exact iff_of_true rfl (Or.inl hnil)
    · rw [if_pos ⟨rfl, hnil⟩, or_iff_right hnil]
      cases u with
      | mk account accCreate isAccount =>
        simp only [Login.mk.injEq, ircdStrncpy, Nat.succ_ne_zero, if_false, Nat.add_sub_cancel, ite_time_eq]
        constructor
        · rintro ⟨haccount, htime, hflag⟩
          exact ⟨hflag.symm, haccount.symm, htime⟩
        · rintro ⟨hflag, haccount, htime⟩
          exact ⟨haccount.symm, htime, hflag.symm⟩
  · rw [if_neg href, if_neg href, if_neg href]
    have hlen : accountNameLen word ≤ accountLen := not_lt.mp fun h => href (Or.inr h)
    have hback : ∀ v w : Login, (v = w ∧ (Refused word → v = u ∧ w = u)) ↔ v = w := fun v w =>
      ⟨fun h => h.1, fun h => ⟨h, fun hr => absurd hr href⟩⟩
    rw [hback, Login.mk.injEq, eq_self_iff_true, and_true]
    cases htime : created word with
    | none => simp only [getD_none, true_and, ite_time_eq]
    | some ts =>
      simp only [getD_some]
      rw [take_eq_iff htime hlen]
      apply and_congr_right
      intro _
      by_cases hts : ts = 0
      · simp [hts]
      · simp [hts]

/-- **A time behind an account stays in the name.** -/
theorem timestamp_stays : ¬ ReadAlike "foo:1234567".toList ()
    ⟨fun _ => none, fun _ => newCli none true true, fun _ => true⟩ ⟨[], 0, false⟩ := by
  rintro ⟨h, -⟩
  exact absurd (congrArg Login.account h) (by decide)

end Nefarious.Sasl
