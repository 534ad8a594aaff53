import Nefarious.Crule.Grammar

/-!
# The arguments of a rule function

An argument list is read word by word, and an argument is stored where a comma or the end of the list comes
behind it.

Names: `crule.c`.
-/

namespace Nefarious.Crule

/-! ## What is written -/

/-- The tokens of an argument list, with the first one that is not of the list; the number bounds them. -/
def listTokens : ℕ → CruleToken → Str → List CruleToken
  | 0, _, _ => []
  | n + 1, .word, s =>
    let next := gettoken none (getword (maxArgLen - 1) s).2
    .word :: listTokens n next.2.1 next.2.2
  | n + 1, .comma, s => .comma :: listTokens n (gettoken none s).2.1 (gettoken none s).2.2
  | _ + 1, tok, _ => [tok]

/-- The arguments that are not empty; the flag says whether the one so far has a word. Input that is no token
cuts the last one off. -/
def written : Bool → List CruleToken → ℕ
  | _, .word :: ts => written true ts
  | word, .comma :: ts => word.toNat + written false ts
  | _, .unknown :: _ => 0
  | word, _ => word.toNat

/-- The text of the argument list in a call of a function of the table. `crule_parsefunction`. -/
def callText (s : Str) : Option Str :=
  let funcname := getword (maxArgLen - 1) s
  let next := gettoken none funcname.2
  if next.1 = .noerr ∧ next.2.1 = .openparen ∧ funclist.any (fun f => strEq f.name funcname.1) then some next.2.2
  else none

/-- The number of arguments that are written in such a text, when it has no more tokens than the number. -/
def argumentsWritten (n : ℕ) (t : Str) : ℕ := written false (listTokens n (gettoken none t).2.1 (gettoken none t).2.2)

/-! ## Tokens -/

/-- How far the parser can go: a token that was read and is not done with counts for one. -/
def size (tok : CruleToken) (s : Str) : ℕ :=
  2 * s.length + match tok with
    | .word | .endOfInput | .unknown => 0
    | _ => 1

/-- What the scanner leaves: it has gone on, a word that comes next has a character, and a bad token is an error. -/
structure Scanned (m : ℕ) (r : Errcode × CruleToken × Str) : Prop where
  size_le : size r.2.1 r.2.2 ≤ m
  ready : r.2.1 = .word → ∃ c t, r.2.2 = c :: t ∧ (isAlnum c || isMaskMark c) = true
  err : r.1 = .noerr ∧ r.2.1 ≠ .unknown ∨ r.1 = .unknwtok ∧ r.2.1 = .unknown

lemma Scanned.mono {m k : ℕ} {r : Errcode × CruleToken × Str} (h : Scanned m r) (hm : m ≤ k) : Scanned k r :=
  ⟨h.size_le.trans hm, h.ready, h.err⟩

lemma gettoken_scanned : (s : Str) → ∀ pending, Scanned (2 * s.length) (gettoken pending s)
  | [], _ => ⟨le_rfl, fun h => (nomatch h), .inl ⟨rfl, CruleToken.noConfusion⟩⟩
  | c :: s, pending => by
    have hskip : ∀ pending, Scanned (2 * (c :: s).length) (gettoken pending s) := fun pending =>
      (gettoken_scanned s pending).mono (by rw [List.length_cons]; omega)
    have hplain : ∀ tok, tok ≠ .word → tok ≠ .unknown → Scanned (2 * (c :: s).length) (.noerr, tok, s) := by
      intro tok hword hbad
      have hsize : size tok s ≤ 2 * s.length + 1 := by cases tok <;> simp [size]
      exact ⟨hsize.trans (by rw [List.length_cons]; omega), fun h => absurd h hword, .inl ⟨rfl, hbad⟩⟩
    have hbad : ∀ t : Str, t.length ≤ (c :: s).length → Scanned (2 * (c :: s).length) (.unknwtok, .unknown, t) :=
      fun t ht => ⟨Nat.mul_le_mul_left 2 ht, fun h => (nomatch h), .inr ⟨rfl, rfl⟩⟩
    have hshort : s.length ≤ (c :: s).length := Nat.le_succ _
    rw [gettoken]
    split_ifs with h1 h2 h3 h4 h5 h6 h7 h8 h9 h10 h11 h12 h13
    all_goals first
      | exact hskip _
      | exact hplain _ (by decide) (by decide)
      | exact hbad _ hshort
      | exact hbad _ le_rfl
      | skip
    have hc : (isAlnum c || isMaskMark c) = true := by
      rw [Bool.or_eq_true] at h13 ⊢
      exact h13.imp (fun halpha => by rw [isAlnum, halpha, Bool.true_or]) id
    exact ⟨le_rfl, fun _ => ⟨c, s, rfl, hc⟩, .inl ⟨rfl, CruleToken.noConfusion⟩⟩

lemma getword_length : (n : ℕ) → (s : Str) → (getword n s).2.length ≤ s.length
  | 0, _ => by simp [getword]
  | _ + 1, [] => le_rfl
  | n + 1, c :: s => by
    rw [getword]
    split
    · exact Nat.le_succ_of_le (getword_length n s)
    · exact le_rfl

lemma parsearglist_word (n : ℕ) (args : List Str) (currarg : Str) (arglen : ℕ) {c : Char} {t : Str}
    (hc : (isAlnum c || isMaskMark c) = true) : ∃ curr len, curr ≠ [] ∧
      parsearglist (n + 1) args currarg arglen .word (c :: t) =
        let next := gettoken none (getword (maxArgLen - 1) (c :: t)).2
        if next.1 = .noerr then parsearglist n args curr len next.2.1 next.2.2
        else (next.1, args, next.2.1, next.2.2) := by
  refine ⟨_, _, ?_, rfl⟩
  rw [show maxArgLen - 1 = 78 + 1 from rfl, getword, if_pos hc]
  split
  · split
    · exact List.append_ne_nil_of_right_ne_nil _ (List.cons_ne_nil _ _)
    · assumption
  · exact List.cons_ne_nil _ _

lemma collapse_eq_nil (s : Str) : collapse s = [] ↔ s = [] :=
  ⟨fun h => of_not_not fun hs => collapse_ne_nil s hs h, fun h => by rw [h, collapse]⟩

lemma parsearglist_stores : (n : ℕ) → ∀ {args : List Str} {currarg : Str} {arglen : ℕ} {tok : CruleToken} {s : Str},
    size tok s < n → (tok = .word → ∃ c t, s = c :: t ∧ (isAlnum c || isMaskMark c) = true) → tok ≠ .unknown →
    args.length ≤ maxArgs →
    let list := parsearglist n args currarg arglen tok s
    let k := args.length + written (currarg ≠ []) (listTokens n tok s)
    (k ≤ maxArgs → list.1 ≠ .overrun ∧ list.2.1.length = k) ∧ (maxArgs < k → list.1 = .overrun)
  | 0, _, _, _, _, _, h, _, _, _ => absurd h (Nat.not_lt_zero _)
  | n + 1, args, currarg, arglen, tok, s, hsize, hready, hbad, hargs => by
    by_cases hword : tok = .word
    · subst hword
      obtain ⟨c, t, rfl, hc⟩ := hready rfl
      obtain ⟨curr, len, hcurr, heq⟩ := parsearglist_word n args currarg arglen (t := t) hc
      have hlen : (getword (maxArgLen - 1) (c :: t)).2.length ≤ t.length := by
        rw [show maxArgLen - 1 = 78 + 1 from rfl, getword, if_pos hc]
        exact getword_length 78 t
      have hscan := gettoken_scanned (getword (maxArgLen - 1) (c :: t)).2 none
      rw [heq, listTokens, written]
      rw [size, List.length_cons] at hsize
      rcases hscan.err with ⟨hok, htok⟩ | ⟨herr, htok⟩
      · have ih := @parsearglist_stores n args curr len _ _
          (hscan.size_le.trans_lt (by omega)) hscan.ready htok hargs
        simpa only [hok, if_true, hcurr, ne_eq, not_false_eq_true, decide_true] using ih
      · obtain ⟨m, rfl⟩ : ∃ m, n = m + 1 := ⟨n - 1, by omega⟩
        simpa [herr, htok, listTokens, written] using hargs
    · rw [parsearglist_stop hword]
      obtain ⟨word, hcurr⟩ : ∃ word, word = decide (currarg ≠ []) := ⟨_, rfl⟩
      have hne : collapse currarg ≠ [] ↔ word = true := by simp [hcurr, collapse_eq_nil]
      rw [← hcurr]
      simp only [hne]
      by_cases hcomma : tok = .comma
      · subst hcomma
        have hscan := gettoken_scanned s none
        have hsize : 2 * s.length < n := Nat.lt_of_succ_lt_succ hsize
        rw [listTokens, written]
        by_cases hfull : word = true ∧ maxArgs ≤ args.length
        · rw [if_pos hfull, hfull.1]
          refine ⟨fun hk => ?_, fun _ => rfl⟩
          have := hfull.2
          simp only [Bool.toNat_true] at hk
          omega
        · rw [if_neg hfull]
          obtain ⟨args', hargs'⟩ : ∃ args', args' = if word = true then args ++ [collapse currarg] else args := ⟨_, rfl⟩
          have hlen : args'.length = args.length + word.toNat ∧ args'.length ≤ maxArgs := by
            rw [hargs']
            cases word <;> simp at hfull ⊢ <;> omega
          simp only [← hargs', ne_eq, not_true, if_false]
          rcases hscan.err with ⟨hok, htok⟩ | ⟨herr, htok⟩
          · have ih := @parsearglist_stores n args' [] arglen _ _
              (hscan.size_le.trans_lt hsize) hscan.ready htok hlen.2
            simpa only [hok, if_true, hlen.1, Nat.add_assoc, ne_eq, not_true, decide_false] using ih
          · obtain ⟨m, rfl⟩ : ∃ m, n = m + 1 := ⟨n - 1, by omega⟩
            simpa [herr, htok, listTokens, written, hlen.1] using hlen.2
      · have hk : written word (listTokens (n + 1) tok s) = word.toNat := by
          cases tok <;> first | rfl | contradiction
        rw [hk]
        cases word <;> simp [hcomma, hargs] <;> grind

/-- Every argument that is written in a call is stored, and within the node. -/
def Stored (n : ℕ) (s : Str) : Prop :=
  (parsefunction n s).err ≠ .overrun ∧ ∀ f args, (parsefunction n s).node = .func f args →
    args.length ≤ maxArgs ∧ ∀ t ∈ callText s, args.length = argumentsWritten n t

/-- **The arguments of a call.** They are all stored within the node if and only if no more are written than it
has room for. -/
theorem arguments_stored_iff (s : Str) (k : ℕ) : let n := 2 * s.length + 1 + k
    Stored n s ↔ ∀ t ∈ callText s, argumentsWritten n t ≤ maxArgs := by
  intro n
  have hnext := gettoken_scanned (getword (maxArgLen - 1) s).2 none
  rw [Stored, parsefunction, callText]
  by_cases hok : (gettoken none (getword (maxArgLen - 1) s).2).1 = .noerr
  case neg =>
    have herr := (hnext.err.resolve_left fun h => hok h.1).1
    simp [herr]
  by_cases hopen : (gettoken none (getword (maxArgLen - 1) s).2).2.1 = .openparen
  case neg => simp [hok, hopen]
  cases hfind : funclist.find? fun f => strEq f.name (getword (maxArgLen - 1) s).1 with
  | none =>
    have hany : (funclist.any fun f => strEq f.name (getword (maxArgLen - 1) s).1) = false :=
      List.any_eq_false.mpr (List.find?_eq_none.mp hfind)
    simp [hok, hopen, hany]
  | some f =>
    have hany : (funclist.any fun f => strEq f.name (getword (maxArgLen - 1) s).1) = true :=
      List.any_eq_true.mpr ⟨f, List.mem_of_find?_eq_some hfind, by simpa using List.find?_some hfind⟩
    obtain ⟨t, ht⟩ : ∃ t, t = (gettoken none (getword (maxArgLen - 1) s).2).2.2 := ⟨_, rfl⟩
    have hlen : 2 * t.length < n := by
      have hsize := hnext.size_le
      have := getword_length (maxArgLen - 1) s
      simp only [hopen, size, ← ht] at hsize
      omega
    have hfirst := gettoken_scanned t none
    simp only [hok, hopen, hany, ← ht, and_self, ne_eq, not_true, if_true, if_false, Option.mem_def,
      Option.some.injEq, forall_eq']
    rcases hfirst.err with ⟨hgood, htok⟩ | ⟨herr, htok⟩
    · obtain ⟨hroom, hfull⟩ := @parsearglist_stores n [] [] 0 _ _
        (hfirst.size_le.trans_lt hlen) hfirst.ready htok (Nat.zero_le _)
      simp only [ne_eq, not_true, decide_false, List.length_nil, Nat.zero_add] at hroom hfull
      rw [← argumentsWritten] at hroom hfull
      simp only [hgood, not_true, if_false]
      rcases Nat.lt_or_ge maxArgs (argumentsWritten n t) with hk | hk
      · refine iff_of_false (fun h => h.1 ?_) (not_le.mpr hk)
        rw [if_pos (by rw [hfull hk]; decide)]
        exact hfull hk
      · obtain ⟨hover, hcount⟩ := hroom hk
        refine iff_of_true ?_ hk
        generalize parsearglist n [] [] 0 (gettoken none t).2.1 (gettoken none t).2.2 = list at hover hcount
        have hlast : (gettoken none list.2.2.2).1 ≠ .overrun := by
          rcases (gettoken_scanned list.2.2.2 none).err with h | h <;> rw [h.1] <;> exact Errcode.noConfusion
        -- an error behind the list leaves the arguments where they are
        split_ifs
        all_goals
          refine ⟨by first | exact hover | exact hlast | exact id, fun f args h => ?_⟩
          obtain rfl := (Node.func.inj h).2
          exact ⟨hcount.trans_le hk, hcount⟩
    · obtain ⟨m, hm⟩ : ∃ m, n = m + 1 := ⟨n - 1, by omega⟩
      rw [argumentsWritten, htok, hm]
      simp [herr, listTokens, written]

/-- A rule with four arguments: the fourth one is written behind the node. -/
theorem arguments_overrun : callText "via(a,b,c,d)".toList = some "a,b,c,d)".toList ∧
    argumentsWritten 100 "a,b,c,d)".toList = 4 ∧ (parsefunction 100 "via(a,b,c,d)".toList).err = .overrun := by
  decide +kernel

end Nefarious.Crule
