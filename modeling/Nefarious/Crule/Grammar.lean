import Nefarious.Crule
import Mathlib.Tactic.Tauto

/-!
# The grammar of connection rules

The production rules that the parser is documented with, over the tokens of a rule.
-/

namespace Nefarious.Crule

open List (append_assoc append_nil cons_append cons_ne_nil)

/-! ## Rules -/

/-- The tokens of a rule, with their words. `crule.c` `enum crule_token`. -/
inductive Tok
  | and
  | or
  | not
  | openparen
  | closeparen
  | comma
  | word (w : Str)
  deriving DecidableEq

/-- What the scanner returns for a token. `crule.c` `crule_gettoken`. -/
def Tok.code : Tok → CruleToken
  | .and => .and
  | .or => .or
  | .not => .not
  | .openparen => .openparen
  | .closeparen => .closeparen
  | .comma => .comma
  | .word _ => .word

/-- A character that a word may have. `crule.c` (`CR_WORD`). -/
def isWordChar (c : Char) : Bool := isAlnum c || isMaskMark c

/-- A word looks like a hostmask, is no longer than an argument may be, and starts with a letter or a
wildcard. `crule.c` (grammar, `CR_WORD`). -/
structure IsWord (w : Str) : Prop where
  head : ∃ c, w.head? = some c ∧ (isAlpha c || isMaskMark c) = true ∧ c ≠ '|'
  chars : ∀ c ∈ w, isWordChar c = true
  length : w.length < maxArgLen

/-- The tokens of a rule up to its end. `crule.c` (`enum crule_token`). -/
inductive Lexes : Str → List Tok → Prop
  | nil : Lexes [] []
  | colon (s : Str) : Lexes (':' :: s) []
  | blank {s : Str} {ts : List Tok} (c : Char) (hc : c = ' ' ∨ c = '\t') (h : Lexes s ts) : Lexes (c :: s) ts
  | and {s : Str} {ts : List Tok} (h : Lexes s ts) : Lexes ('&' :: '&' :: s) (.and :: ts)
  | or {s : Str} {ts : List Tok} (h : Lexes s ts) : Lexes ('|' :: '|' :: s) (.or :: ts)
  | not {s : Str} {ts : List Tok} (h : Lexes s ts) : Lexes ('!' :: s) (.not :: ts)
  | openparen {s : Str} {ts : List Tok} (h : Lexes s ts) : Lexes ('(' :: s) (.openparen :: ts)
  | closeparen {s : Str} {ts : List Tok} (h : Lexes s ts) : Lexes (')' :: s) (.closeparen :: ts)
  | comma {s : Str} {ts : List Tok} (h : Lexes s ts) : Lexes (',' :: s) (.comma :: ts)
  | word {w s : Str} {ts : List Tok} (hw : IsWord w) (hs : s.head?.all (fun c => !isWordChar c) = true)
      (h : Lexes s ts) : Lexes (w ++ s) (.word w :: ts)

/-- What a rule says. -/
inductive Expr
  | function (f : Func) (args : List Str)
  | not (a : Expr)
  | and (a b : Expr)
  | or (a b : Expr)

def Expr.value (clients : Clients) : Expr → Bool
  | .function f args => f.call clients args
  | .not a => !a.value clients
  | .and a b => a.value clients && b.value clients
  | .or a b => a.value clients || b.value clients

/-- `arglist`. `crule.c` (grammar). -/
inductive ArgList : List Tok → List Str → Prop
  | word (w : Str) : ArgList [.word w] [w]
  | comma {ts : List Tok} {ws : List Str} (w : Str) (h : ArgList ts ws) :
      ArgList (.word w :: .comma :: ts) (w :: ws)

mutual

/-- `orexpr`. `crule.c` (grammar). -/
inductive OrExpr : List Tok → Expr → Prop
  | andexpr {ts : List Tok} {a : Expr} (h : AndExpr ts a) : OrExpr ts a
  | or {ts us : List Tok} {a b : Expr} (h : AndExpr ts a) (h' : OrExpr us b) :
      OrExpr (ts ++ .or :: us) (.or a b)

/-- `andexpr`. `crule.c` (grammar). -/
inductive AndExpr : List Tok → Expr → Prop
  | primary {ts : List Tok} {a : Expr} (h : Primary ts a) : AndExpr ts a
  | and {ts us : List Tok} {a b : Expr} (h : Primary ts a) (h' : AndExpr us b) :
      AndExpr (ts ++ .and :: us) (.and a b)

/-- `primary`, `function`: the function is one of the table and has its arguments, whose wildcards are
collapsed. `crule.c` (grammar, `crule_funclist`). -/
inductive Primary : List Tok → Expr → Prop
  | function {ts : List Tok} {ws : List Str} (w : Str) (f : Func) (hname : strEq f.name w = true)
      (hargs : ts = [] ∧ ws = [] ∨ ArgList ts ws) (hnum : ws.length = f.reqnumargs) :
      Primary (.word w :: .openparen :: (ts ++ [.closeparen])) (.function f (ws.map collapse))
  | not {ts : List Tok} {a : Expr} (h : Primary ts a) : Primary (.not :: ts) (.not a)
  | paren {ts : List Tok} {a : Expr} (h : OrExpr ts a) : Primary (.openparen :: (ts ++ [.closeparen])) a

end

/-- `rule`. `crule.c` (grammar). -/
def Rule (rule : Str) (e : Expr) : Prop := ∃ ts, Lexes rule ts ∧ OrExpr ts e

/-- Every operator has its operands, and every function its arguments. -/
def Node.Complete : Node → Prop
  | .null => False
  | .unset => False
  | .andor arg0 arg1 _ => arg0.Complete ∧ arg1.Complete
  | .not arg0 => arg0.Complete
  | .func none _ => False
  | .func (some f) args => args.length = f.reqnumargs

/-- A tree is complete and has a value. -/
def Means (node : Node) (value : Clients → Bool) : Prop :=
  node.Complete ∧ ∀ clients, eval clients node = some (value clients)

/-- A tree is that of a rule of the grammar. -/
def Faithful (rule : Str) (tree : Node) : Prop :=
  ∃ e, Rule rule e ∧ Means tree fun clients => e.value clients

/-! ## Clean rules -/

def Tok.isWord : Tok → Bool
  | .word _ => true
  | _ => false

/-- What may stand behind a token, or at the start: `&&` and `||` behind a closing parenthesis, a comma
behind a word, a word behind no word, and a closing parenthesis behind no comma. -/
def Tok.follows (prev : Option Tok) : Tok → Prop
  | .and | .or => prev = some .closeparen
  | .comma => prev.any Tok.isWord = true
  | .word _ => prev.any Tok.isWord = false
  | .closeparen => prev ≠ some .comma
  | .not | .openparen => True

/-- Each token may stand where it does. -/
def Proper : Option Tok → List Tok → Prop
  | _, [] => True
  | prev, t :: ts => t.follows prev ∧ Proper (some t) ts

/-- A rule is made of tokens, with no `&` or `|` alone, and each token may stand where it does. -/
def Clean (rule : Str) : Prop := ∃ ts, Lexes rule ts ∧ Proper none ts

lemma ArgList.proper {ts : List Tok} {ws : List Str} (h : ArgList ts ws) : ∀ {prev : Option Tok}
    {us : List Tok}, prev.any Tok.isWord = false → Proper (some .closeparen) us →
      Proper prev (ts ++ .closeparen :: us) := by
  induction h with
  | word w => exact fun hprev hus => ⟨hprev, nofun, hus⟩
  | comma w h ih => exact fun hprev hus => ⟨hprev, rfl, ih rfl hus⟩

mutual

lemma OrExpr.proper {ts us : List Tok} {e : Expr} {prev : Option Tok} (hprev : prev.any Tok.isWord = false)
    (hus : Proper (some .closeparen) us) : OrExpr ts e → Proper prev (ts ++ us)
  | .andexpr h => AndExpr.proper hprev hus h
  | .or h h' => by
    rw [append_assoc]
    exact AndExpr.proper hprev ⟨rfl, OrExpr.proper rfl hus h'⟩ h

lemma AndExpr.proper {ts us : List Tok} {e : Expr} {prev : Option Tok} (hprev : prev.any Tok.isWord = false)
    (hus : Proper (some .closeparen) us) : AndExpr ts e → Proper prev (ts ++ us)
  | .primary h => Primary.proper hprev hus h
  | .and h h' => by
    rw [append_assoc]
    exact Primary.proper hprev ⟨rfl, AndExpr.proper rfl hus h'⟩ h

lemma Primary.proper {ts us : List Tok} {e : Expr} {prev : Option Tok} (hprev : prev.any Tok.isWord = false)
    (hus : Proper (some .closeparen) us) : Primary ts e → Proper prev (ts ++ us)
  | .function w f hname hargs hnum => by
    rw [cons_append, cons_append, append_assoc]
    refine ⟨hprev, trivial, ?_⟩
    obtain ⟨rfl, -⟩ | hargs := hargs
    · exact ⟨nofun, hus⟩
    · exact hargs.proper rfl hus
  | .not h => ⟨trivial, Primary.proper rfl hus h⟩
  | .paren h => by
    rw [cons_append, append_assoc]
    refine ⟨trivial, ?_⟩
    exact OrExpr.proper rfl ⟨nofun, hus⟩ h

end

lemma Rule.clean {rule : Str} {e : Expr} (h : Rule rule e) : Clean rule := by
  obtain ⟨ts, hlexes, hexpr⟩ := h
  refine ⟨ts, hlexes, ?_⟩
  have hproper : Proper none (ts ++ []) := hexpr.proper rfl trivial
  rwa [append_nil] at hproper

/-! ## The scanner -/

/-- The scanner stands before the tokens `ts`: it has read the type of the first one, and its word is
still to be read. `crule.c` `crule_gettoken`, `crule_getword`. -/
def Stream : CruleToken → Str → List Tok → Prop
  | tok, _, [] => tok = .endOfInput
  | tok, s, .word w :: ts =>
    tok = .word ∧ w ≠ [] ∧ ∃ s', getword (maxArgLen - 1) s = (w, s') ∧
      ∃ tok' s'', gettoken none s' = (.noerr, tok', s'') ∧ Stream tok' s'' ts
  | tok, s, t :: ts => tok = t.code ∧ ∃ tok' s', gettoken none s = (.noerr, tok', s') ∧ Stream tok' s' ts

lemma Stream.pass {tok : CruleToken} {s : Str} {t : Tok} {ts : List Tok} (h : Stream tok s (t :: ts))
    (ht : t.isWord = false) : tok = t.code ∧ ∃ tok' s', gettoken none s = (.noerr, tok', s') ∧
      Stream tok' s' ts := by
  cases t with
  | word w => cases ht
  | _ => exact h

lemma Stream.cons {t : Tok} (ht : t.isWord = false) {s s' : Str} {tok : CruleToken} {ts : List Tok}
    (hget : gettoken none s = (.noerr, tok, s')) (h : Stream tok s' ts) : Stream t.code s (t :: ts) := by
  cases t with
  | word w => cases ht
  | _ => exact ⟨rfl, tok, s', hget, h⟩

lemma Stream.code {tok : CruleToken} {s : Str} {t : Tok} {ts : List Tok} (h : Stream tok s (t :: ts)) :
    tok = t.code := by
  cases t with
  | word w => exact h.1
  | _ => exact h.1

lemma Stream.first {t : Tok} (ht : t.isWord = false) {s : Str} {ts : List Tok} (h : Stream t.code s ts) :
    ∃ us, ts = t :: us := by
  cases ts with
  | nil => cases t <;> cases h
  | cons u us =>
    have hcode := h.code
    refine ⟨us, ?_⟩
    cases t <;> cases u <;> first | cases ht; done | rfl | cases hcode

lemma Stream.first_word {s : Str} {ts : List Tok} (h : Stream .word s ts) : ∃ w us, ts = .word w :: us := by
  cases ts with
  | nil => cases h
  | cons u us =>
    have hcode := h.code
    cases u with
    | word w => exact ⟨w, us, rfl⟩
    | _ => cases hcode

lemma getword_append : (w : Str) → ∀ {n : ℕ} {s : Str}, (∀ c ∈ w, isWordChar c = true) → w.length ≤ n →
    s.head?.all (fun c => !isWordChar c) = true → getword n (w ++ s) = (w, s)
  | [], 0, s, _, _, _ => by
    cases s <;> rfl
  | [], n + 1, [], _, _, _ => rfl
  | [], n + 1, c :: s, _, _, hs => by
    have hc : isWordChar c = false := by simpa using hs
    rw [List.nil_append, getword, if_neg (by rw [← isWordChar, hc]; exact Bool.false_ne_true)]
  | c :: w, n + 1, s, hw, hn, hs => by
    have hrest := getword_append w (fun d hd => hw d (List.mem_cons_of_mem _ hd))
      (Nat.le_of_succ_le_succ hn) hs
    have hc : isWordChar c = true := hw c List.mem_cons_self
    rw [cons_append, getword, if_pos (by rw [← isWordChar]; exact hc), hrest]

lemma gettoken_word {c : Char} {s : Str} (hc : (isAlpha c || isMaskMark c) = true) (hbar : c ≠ '|') :
    gettoken none (c :: s) = (.noerr, .word, c :: s) := by
  have hne : ∀ d ∈ [' ', '\t', '&', '!', '(', ')', ',', ':'], c ≠ d := by
    rintro d hd rfl
    revert hc
    simp only [List.mem_cons, List.not_mem_nil, or_false] at hd
    obtain rfl | rfl | rfl | rfl | rfl | rfl | rfl | rfl := hd <;> decide
  simp only [List.forall_mem_cons] at hne
  obtain ⟨h1, h2, h3, h4, h5, h6, h7, h8, -⟩ := hne
  rw [gettoken, if_neg (not_or.mpr ⟨h1, h2⟩), if_neg h3, if_neg hbar, if_neg h4, if_neg h5, if_neg h6,
    if_neg h7, if_neg h8, if_pos hc]

lemma Lexes.stream {s : Str} {ts : List Tok} (h : Lexes s ts) :
    ∃ tok s', gettoken none s = (.noerr, tok, s') ∧ Stream tok s' ts := by
  induction h with
  | nil => exact ⟨_, _, rfl, rfl⟩
  | colon s => exact ⟨_, _, rfl, rfl⟩
  | blank c hc h ih =>
    obtain ⟨tok, s', hget, hstream⟩ := ih
    refine ⟨tok, s', ?_, hstream⟩
    rw [gettoken, if_pos hc]
    exact hget
  | and h ih =>
    obtain ⟨tok, s', hget, hstream⟩ := ih
    exact ⟨_, _, rfl, Stream.cons (t := .and) rfl hget hstream⟩
  | or h ih =>
    obtain ⟨tok, s', hget, hstream⟩ := ih
    exact ⟨_, _, rfl, Stream.cons (t := .or) rfl hget hstream⟩
  | not h ih =>
    obtain ⟨tok, s', hget, hstream⟩ := ih
    exact ⟨_, _, rfl, Stream.cons (t := .not) rfl hget hstream⟩
  | openparen h ih =>
    obtain ⟨tok, s', hget, hstream⟩ := ih
    exact ⟨_, _, rfl, Stream.cons (t := .openparen) rfl hget hstream⟩
  | closeparen h ih =>
    obtain ⟨tok, s', hget, hstream⟩ := ih
    exact ⟨_, _, rfl, Stream.cons (t := .closeparen) rfl hget hstream⟩
  | comma h ih =>
    obtain ⟨tok, s', hget, hstream⟩ := ih
    exact ⟨_, _, rfl, Stream.cons (t := .comma) rfl hget hstream⟩
  | @word w s ts hw hs h ih =>
    obtain ⟨tok, s', hget, hstream⟩ := ih
    obtain ⟨c, hhead, hc, hbar⟩ := hw.head
    obtain ⟨w', rfl⟩ := List.head?_eq_some_iff.mp hhead
    exact ⟨_, _, gettoken_word hc hbar, rfl, cons_ne_nil _ _, s,
      getword_append _ hw.chars (Nat.le_of_lt_succ hw.length) hs, tok, s', hget, hstream⟩

/-! ## The parser -/

lemma collapseRun_ne_nil : (star : Bool) → (s : Str) → star = true ∨ s ≠ [] → collapseRun star s ≠ []
  | star, [], h => by
    rw [collapseRun, if_pos (h.resolve_right fun hc => hc rfl)]
    exact cons_ne_nil _ _
  | star, c :: m, _ => by
    rw [collapseRun]
    split
    · exact collapseRun_ne_nil true m (.inl rfl)
    · refine List.append_ne_nil_of_right_ne_nil _ ?_
      split
      · exact cons_ne_nil _ _
      · split <;> exact cons_ne_nil _ _

lemma collapse_ne_nil : (s : Str) → s ≠ [] → collapse s ≠ []
  | [c], _ => cons_ne_nil _ _
  | c :: d :: m, _ => by
    rw [collapse]
    split
    · exact collapseRun_ne_nil false _ (.inr (cons_ne_nil _ _))
    split
    · exact cons_ne_nil _ _
    · exact cons_ne_nil _ _

lemma parsearglist_stop {n arglen : ℕ} {args : List Str} {currarg : Str} {tok : CruleToken} {s : Str}
    (htok : tok ≠ .word) : parsearglist (n + 1) args currarg arglen tok s =
      if collapse currarg ≠ [] ∧ maxArgs ≤ args.length then (.overrun, args, tok, s)
      else
        let args := if collapse currarg ≠ [] then args ++ [collapse currarg] else args
        if tok ≠ .comma then (.noerr, args, tok, s)
        else
          let next := gettoken none s
          if next.1 = .noerr then parsearglist n args [] arglen next.2.1 next.2.2
          else (next.1, args, next.2.1, next.2.2) := by
  cases tok with
  | word => exact absurd rfl htok
  | _ => rfl

lemma parsearglist_reads (n : ℕ) : ∀ {args args' : List Str} {arglen : ℕ} {tok : CruleToken} {s s' : Str}
    {ts : List Tok} {prev : Option Tok}, Stream tok s ts → Proper prev ts → prev.any Tok.isWord = false →
    parsearglist n args [] arglen tok s = (.noerr, args', .closeparen, s') →
    ∃ us ws vs, ts = us ++ .closeparen :: vs ∧ (us = [] ∧ ws = [] ∨ ArgList us ws) ∧
      args' = args ++ ws.map collapse ∧ Stream .closeparen s' (.closeparen :: vs) := by
  induction n using Nat.strong_induction_on with
  | _ n ih =>
    intro args args' arglen tok s s' ts prev hstream hproper hprev hrun
    obtain _ | n := n
    · rw [parsearglist] at hrun
      cases hrun
    by_cases htok : tok = .word
    · -- A word, and then what may stand behind it.
      subst htok
      obtain ⟨w, ts, rfl⟩ := hstream.first_word
      obtain ⟨-, hw, s₁, hword, tok₂, s₂, hget, hrest⟩ := hstream
      obtain ⟨-, hproper⟩ := hproper
      rw [parsearglist] at hrun
      simp only [hword, hget, ne_eq, not_true_eq_false, if_false, if_true] at hrun
      obtain _ | n := n
      · rw [parsearglist] at hrun
        cases hrun
      have htok₂ : tok₂ ≠ .word := by
        rintro rfl
        obtain ⟨w', us, rfl⟩ := hrest.first_word
        cases hproper.1
      rw [parsearglist_stop htok₂] at hrun
      split at hrun
      · cases hrun
      simp only [collapse_ne_nil w hw, ne_eq, not_false_eq_true, if_true] at hrun
      split at hrun
      · cases hrun
        obtain ⟨vs, rfl⟩ := Stream.first (t := .closeparen) rfl hrest
        exact ⟨[.word w], [w], vs, rfl, .inr (.word w), rfl, hrest⟩
      · rename_i hcomma
        obtain rfl := not_not.mp hcomma
        obtain ⟨ts, rfl⟩ := Stream.first (t := .comma) rfl hrest
        obtain ⟨-, tok₃, s₃, hget₃, hrest₃⟩ := hrest
        simp only [hget₃, if_true] at hrun
        obtain ⟨us, ws, vs, rfl, hlist, rfl, hlast⟩ := ih n (by omega) hrest₃ hproper.2 rfl hrun
        obtain ⟨rfl, -⟩ | hlist := hlist
        · exact absurd rfl hproper.2.1
        · exact ⟨.word w :: .comma :: us, w :: ws, vs, rfl, .inr (.comma w hlist),
            by rw [append_assoc]; rfl, hlast⟩
    · rw [parsearglist_stop htok] at hrun
      simp only [collapse, ne_eq, not_true_eq_false, false_and, if_false] at hrun
      split at hrun
      · cases hrun
        obtain ⟨vs, rfl⟩ := Stream.first (t := .closeparen) rfl hstream
        exact ⟨[], [], vs, rfl, .inl ⟨rfl, rfl⟩, (append_nil _).symm, hstream⟩
      · rename_i hcomma
        obtain rfl := not_not.mp hcomma
        obtain ⟨us, rfl⟩ := Stream.first (t := .comma) rfl hstream
        rw [hproper.1] at hprev
        cases hprev

/-- The parser has taken an expression, and built its tree. -/
def Takes (P : List Tok → Expr → Prop) (ts : List Tok) (p : Parsed) : Prop :=
  ∃ us vs e, ts = us ++ vs ∧ P us e ∧ Stream p.tok p.rest vs ∧ Proper (some .closeparen) vs ∧
    Means p.node fun clients => e.value clients

/-- The parser has taken an expression, or nothing, and then no operator comes. -/
def Reads (P : List Tok → Expr → Prop) (ts : List Tok) (p : Parsed) : Prop :=
  p.err = .noerr → p.node = .null ∧ p.tok ≠ .and ∧ p.tok ≠ .or ∨ Takes P ts p

lemma Proper.drop {t : Tok} {vs : List Tok} : (us : List Tok) → ∀ {prev : Option Tok},
    Proper prev (us ++ t :: vs) → Proper (some t) vs
  | [], _, h => h.2
  | _ :: us, _, h => Proper.drop us h.2

lemma parsefunction_reads {n : ℕ} {s : Str} {ts : List Tok} {prev : Option Tok} (h : Stream .word s ts)
    (hproper : Proper prev ts) (herr : (parsefunction n s).err = .noerr) :
    Takes Primary ts (parsefunction n s) := by
  obtain ⟨w, ts, rfl⟩ := h.first_word
  obtain ⟨-, -, s₁, hword, tok₂, s₂, hget, hrest⟩ := h
  rw [parsefunction] at herr ⊢
  simp only [hword, hget, ne_eq, not_true_eq_false, if_false] at herr ⊢
  split at herr
  swap
  · cases herr
  rename_i hopen
  subst hopen
  simp only [if_true]
  obtain ⟨ts, rfl⟩ := Stream.first (t := .openparen) rfl hrest
  obtain ⟨-, tok₃, s₃, hget₃, hrest₃⟩ := hrest
  split at herr
  · cases herr
  rename_i f hf
  simp only [hget₃, not_true_eq_false, if_false] at herr ⊢
  obtain ⟨⟨err, args, tok₄, s₄⟩, hlist⟩ : ∃ list, list = parsearglist n [] [] 0 tok₃ s₃ := ⟨_, rfl⟩
  simp only [← hlist] at herr ⊢
  split at herr
  · rename_i hne
    exact absurd herr hne
  rename_i hok
  obtain rfl := not_not.mp hok
  simp only [not_true_eq_false, if_false]
  split at herr
  · cases herr
  rename_i hclose
  obtain rfl := not_not.mp hclose
  simp only [not_true_eq_false, if_false]
  split at herr
  · cases herr
  rename_i hnum
  simp only [hnum, if_false]
  obtain ⟨us, ws, vs, rfl, hargs, rfl, hlast⟩ := parsearglist_reads n hrest₃ hproper.2.2 rfl hlist.symm
  obtain ⟨-, tok₅, s₅, hget₅, hrest₅⟩ := hlast
  simp only [hget₅, not_true_eq_false, if_false]
  have hlen : ws.length = f.reqnumargs := by
    simpa using (not_not.mp hnum).symm
  have hname : strEq f.name w = true := List.find?_some (p := fun f : Func => strEq f.name w) hf
  refine ⟨.word w :: .openparen :: (us ++ [.closeparen]), vs, _, ?_,
    .function w f hname hargs hlen, hrest₅, hproper.2.2.drop us, ?_, fun clients => rfl⟩
  · rw [cons_append, cons_append, append_assoc]
    rfl
  · rw [List.nil_append, Node.Complete, List.length_map]
    exact hlen

section Chain

variable {op : CruleToken} {arg2 : Bool} {missing : Errcode} {operand : CruleToken → Str → Parsed}
  {P Q : List Tok → Expr → Prop} {sep : Tok} {mk : Expr → Expr → Expr}

/-- The value of an operator. `crule.c` `crule__andor`. -/
def andor (arg2 a b : Bool) : Bool := if a = arg2 then a else b

lemma andor_assoc (arg2 a b c : Bool) : andor arg2 (andor arg2 a b) c = andor arg2 a (andor arg2 b c) := by
  cases arg2 <;> cases a <;> cases b <;> cases c <;> rfl

lemma value_and (a b : Expr) (clients : Clients) :
    (Expr.and a b).value clients = andor false (a.value clients) (b.value clients) := by
  rw [Expr.value, andor]
  cases a.value clients <;> rfl

lemma value_or (a b : Expr) (clients : Clients) :
    (Expr.or a b).value clients = andor true (a.value clients) (b.value clients) := by
  rw [Expr.value, andor]
  cases a.value clients <;> rfl

lemma Means.andor {a b : Node} {v w : Clients → Bool} (ha : Means a v) (hb : Means b w) :
    Means (.andor a b arg2) fun clients => andor arg2 (v clients) (w clients) := by
  refine ⟨⟨ha.1, hb.1⟩, fun clients => ?_⟩
  rw [eval, ha.2, Option.bind_some, hb.2]
  simp only [Crule.andor]
  split
  · rfl
  · rfl

lemma parseChain_rest (hop : sep.code = op) (hsep : sep = .and ∨ sep = .or)
    (hone : ∀ ts e, P ts e → Q ts e) (hmore : ∀ ts us a b, P ts a → Q us b → Q (ts ++ sep :: us) (mk a b))
    (hvalue : ∀ a b clients, (mk a b).value clients = andor arg2 (a.value clients) (b.value clients))
    (hmissing : missing ≠ .noerr)
    (hoperand : ∀ tok s ts prev, Stream tok s ts → Proper prev ts → prev ≠ some .closeparen →
      prev.any Tok.isWord = false → Reads P ts (operand tok s)) :
    (n : ℕ) → ∀ {x : Node} {v : Clients → Bool} {tok : CruleToken} {s : Str} {ts : List Tok}, Means x v →
      Stream tok s ts → Proper (some sep) ts →
      (parseChain op arg2 missing operand n (.andor x .unset arg2) tok s).err = .noerr →
      ∃ us vs e, ts = us ++ vs ∧ Q us e ∧
        Stream (parseChain op arg2 missing operand n (.andor x .unset arg2) tok s).tok
          (parseChain op arg2 missing operand n (.andor x .unset arg2) tok s).rest vs ∧
        Proper (some .closeparen) vs ∧
        Means (parseChain op arg2 missing operand n (.andor x .unset arg2) tok s).node
          fun clients => andor arg2 (v clients) (e.value clients)
  | 0, _, _, _, _, _, _, _, _, herr => by
    rw [parseChain] at herr
    cases herr
  | n + 1, x, v, tok, s, ts, hx, hstream, hproper, herr => by
    obtain ⟨p, hp⟩ : ∃ p, p = operand tok s := ⟨_, rfl⟩
    have hreads : Reads P ts p := by
      rw [hp]
      apply hoperand tok s ts (some sep) hstream hproper
      · obtain rfl | rfl := hsep <;> nofun
      · obtain rfl | rfl := hsep <;> rfl
    have hoperator : p.tok = op → ¬(p.tok ≠ .and ∧ p.tok ≠ .or) := fun htok hnone => by
      obtain rfl | rfl := hsep
      · exact hnone.1 (htok.trans hop.symm)
      · exact hnone.2 (htok.trans hop.symm)
    have hword : sep.isWord = false := by obtain rfl | rfl := hsep <;> rfl
    have hroot : (Node.andor x .unset arg2).isNull = false := rfl
    rw [parseChain] at herr ⊢
    simp only [← hp, hroot, Node.setArg1, Bool.false_eq_true, if_false] at herr ⊢
    split at herr
    · rename_i hnext
      rw [if_pos hnext]
      obtain ⟨-, hnone⟩ | ⟨us, vs, e, rfl, he, hrest, hproper', hmeans⟩ := hreads hnext.1
      · exact absurd hnone (hoperator hnext.2)
      rw [hnext.2, ← hop] at hrest
      obtain ⟨vs, rfl⟩ := hrest.first hword
      obtain ⟨-, tok', s', hget, hrest'⟩ := hrest.pass hword
      simp only [hget, ne_eq, not_true_eq_false, if_false] at herr ⊢
      obtain ⟨us', vs', e', rfl, he', hlast, hend, hvalues⟩ :=
        parseChain_rest hop hsep hone hmore hvalue hmissing hoperand n (hx.andor hmeans) hrest' hproper'.2 herr
      refine ⟨us ++ sep :: us', vs', mk e e', by rw [append_assoc, cons_append],
        hmore us us' e e' he he', hlast, hend, hvalues.1, fun clients => ?_⟩
      simp only [hvalues.2, andor_assoc, hvalue]
    · rename_i hnext
      rw [if_neg hnext]
      split at herr
      · exact absurd herr hmissing
      · rename_i hnull
        rw [if_neg hnull]
        obtain ⟨hnone, -⟩ | ⟨us, vs, e, rfl, he, hrest, hproper', hmeans⟩ := hreads herr
        · exact absurd (hnone ▸ rfl) hnull
        · exact ⟨us, vs, e, rfl, hone us e he, hrest, hproper', hx.andor hmeans⟩

variable (sep) in
lemma parseChain_reads (hop : sep.code = op) (hsep : sep = .and ∨ sep = .or)
    (hone : ∀ ts e, P ts e → Q ts e) (hmore : ∀ ts us a b, P ts a → Q us b → Q (ts ++ sep :: us) (mk a b))
    (hvalue : ∀ a b clients, (mk a b).value clients = andor arg2 (a.value clients) (b.value clients))
    (hmissing : missing ≠ .noerr)
    (hoperand : ∀ tok s ts prev, Stream tok s ts → Proper prev ts → prev ≠ some .closeparen →
      prev.any Tok.isWord = false → Reads P ts (operand tok s))
    (n : ℕ) {tok : CruleToken} {s : Str} {ts : List Tok} {prev : Option Tok} (hstream : Stream tok s ts)
    (hproper : Proper prev ts) (hclose : prev ≠ some .closeparen) (hprev : prev.any Tok.isWord = false) :
    Reads Q ts (parseChain op arg2 missing operand n .null tok s) := by
  intro herr
  obtain _ | n := n
  · rw [parseChain] at herr
    cases herr
  obtain ⟨p, hp⟩ : ∃ p, p = operand tok s := ⟨_, rfl⟩
  have hreads : Reads P ts p := hp ▸ hoperand tok s ts prev hstream hproper hclose hprev
  have hword : sep.isWord = false := by obtain rfl | rfl := hsep <;> rfl
  have hroot : Node.null.isNull = true := rfl
  rw [parseChain] at herr ⊢
  simp only [← hp, hroot, if_true] at herr ⊢
  split at herr
  · rename_i hnext
    rw [if_pos hnext]
    obtain ⟨-, hand, hor⟩ | ⟨us, vs, e, rfl, he, hrest, hproper', hmeans⟩ := hreads hnext.1
    · obtain rfl | rfl := hsep
      · exact absurd (hnext.2.trans hop.symm) hand
      · exact absurd (hnext.2.trans hop.symm) hor
    rw [hnext.2, ← hop] at hrest
    obtain ⟨vs, rfl⟩ := hrest.first hword
    obtain ⟨-, tok', s', hget, hrest'⟩ := hrest.pass hword
    simp only [hget, ne_eq, not_true_eq_false, if_false] at herr ⊢
    obtain ⟨us', vs', e', rfl, he', hlast, hend, hvalues⟩ :=
      parseChain_rest hop hsep hone hmore hvalue hmissing hoperand n hmeans hrest' hproper'.2 herr
    refine .inr ⟨us ++ sep :: us', vs', mk e e', by rw [append_assoc, cons_append],
      hmore us us' e e' he he', hlast, hend, hvalues.1, fun clients => ?_⟩
    simp only [hvalues.2, hvalue]
  · rename_i hnext
    rw [if_neg hnext]
    obtain hnone | ⟨us, vs, e, rfl, he, hrest, hproper', hmeans⟩ := hreads herr
    · exact .inl hnone
    · exact .inr ⟨us, vs, e, rfl, hone us e he, hrest, hproper', hmeans⟩

end Chain

lemma parseorexpr_reads {primary : CruleToken → Str → Parsed}
    (hprimary : ∀ tok s ts prev, Stream tok s ts → Proper prev ts → prev ≠ some .closeparen →
      prev.any Tok.isWord = false → Reads Primary ts (primary tok s))
    (n : ℕ) {tok : CruleToken} {s : Str} {ts : List Tok} {prev : Option Tok} (hstream : Stream tok s ts)
    (hproper : Proper prev ts) (hclose : prev ≠ some .closeparen) (hprev : prev.any Tok.isWord = false) :
    Reads OrExpr ts (parseorexpr primary n tok s) := by
  have hand : ∀ tok s ts prev, Stream tok s ts → Proper prev ts → prev ≠ some .closeparen →
      prev.any Tok.isWord = false → Reads AndExpr ts (parseandexpr primary n tok s) :=
    fun tok s ts prev hstream hproper hclose hprev =>
      parseChain_reads (P := Primary) (Q := AndExpr) .and rfl (.inl rfl) (fun _ _ h => .primary h)
        (fun _ _ _ _ h h' => .and h h') value_and (show Errcode.expctprim ≠ .noerr from nofun) hprimary n
        hstream hproper hclose hprev
  exact parseChain_reads (P := AndExpr) (Q := OrExpr) .or rfl (.inr rfl) (fun _ _ h => .andexpr h)
    (fun _ _ _ _ h h' => .or h h') value_or (show Errcode.expctand ≠ .noerr from nofun) hand n
    hstream hproper hclose hprev

/-- **A primary is read**, by induction on the bound; behind `!` it is not left out. -/
theorem parseprimary_reads : (n : ℕ) → ∀ (first : Bool) (tok : CruleToken) (s : Str) (ts : List Tok)
    (prev : Option Tok), Stream tok s ts → Proper prev ts → prev ≠ some .closeparen →
    prev.any Tok.isWord = false → (parseprimary n first tok s).err = .noerr →
    first = true ∧ (parseprimary n first tok s).node = .null ∧ (parseprimary n first tok s).tok ≠ .and ∧
      (parseprimary n first tok s).tok ≠ .or ∨ Takes Primary ts (parseprimary n first tok s)
  | 0, first, tok, s, ts, prev, _, _, _, _, herr => by
    rw [parseprimary] at herr
    cases herr
  | n + 1, first, tok, s, ts, prev, hstream, hproper, hclose, hprev, herr => by
    have hreads : ∀ tok s ts prev, Stream tok s ts → Proper prev ts → prev ≠ some .closeparen →
        prev.any Tok.isWord = false → Reads Primary ts (parseprimary n true tok s) :=
      fun tok s ts prev hstream hproper hclose hprev herr =>
        (parseprimary_reads n true tok s ts prev hstream hproper hclose hprev herr).imp And.right id
    have hnone : (tok = .and ∨ tok = .or) → False := by
      rintro (rfl | rfl)
      · obtain ⟨us, rfl⟩ := Stream.first (t := .and) rfl hstream
        exact hclose hproper.1
      · obtain ⟨us, rfl⟩ := Stream.first (t := .or) rfl hstream
        exact hclose hproper.1
    cases tok with
    | openparen =>
      obtain ⟨us, rfl⟩ := Stream.first (t := .openparen) rfl hstream
      obtain ⟨-, tok', s', hget, hrest⟩ := hstream
      rw [parseprimary] at herr ⊢
      simp only [hget, ne_eq, not_true_eq_false, if_false] at herr ⊢
      have hexpr := parseorexpr_reads hreads n hrest hproper.2 nofun rfl
      obtain ⟨p, hp⟩ : ∃ p, p = parseorexpr (parseprimary n true) n tok' s' := ⟨_, rfl⟩
      rw [← hp] at herr hexpr ⊢
      split at herr
      · rename_i hne
        exact absurd herr hne
      rename_i hok
      rw [if_neg hok]
      split at herr
      · cases herr
      rename_i hnull
      rw [if_neg hnull]
      split at herr
      · cases herr
      rename_i htok
      rw [if_neg htok]
      obtain ⟨hnode, -⟩ | ⟨us, vs, e, rfl, he, hend, hproper', hmeans⟩ := hexpr (not_not.mp hok)
      · exact absurd (hnode ▸ rfl) hnull
      rw [not_not.mp htok] at hend
      obtain ⟨vs, rfl⟩ := Stream.first (t := .closeparen) rfl hend
      obtain ⟨-, tok'', s'', hget', hlast⟩ := hend
      rw [hget']
      refine .inr ⟨.openparen :: (us ++ [.closeparen]), vs, e, ?_, .paren he, hlast, hproper'.2, hmeans⟩
      rw [cons_append, append_assoc]
      rfl
    | not =>
      obtain ⟨us, rfl⟩ := Stream.first (t := .not) rfl hstream
      obtain ⟨-, tok', s', hget, hrest⟩ := hstream
      rw [parseprimary] at herr ⊢
      simp only [hget, ne_eq, not_true_eq_false, if_false] at herr ⊢
      obtain ⟨hfirst, -⟩ | ⟨us, vs, e, rfl, he, hend, hproper', hmeans⟩ :=
        parseprimary_reads n false tok' s' us (some .not) hrest hproper.2 nofun rfl herr
      · cases hfirst
      · refine .inr ⟨.not :: us, vs, .not e, rfl, .not he, hend, hproper', hmeans.1, fun clients => ?_⟩
        rw [eval, hmeans.2]
        rfl
    | word =>
      rw [parseprimary] at herr ⊢
      exact .inr (parsefunction_reads hstream hproper herr)
    | and => exact absurd (.inl rfl) hnone
    | or => exact absurd (.inr rfl) hnone
    | unknown | endOfInput | closeparen | comma =>
      rw [parseprimary] at herr ⊢
      · cases first with
        | false => cases herr
        | true => exact .inl ⟨rfl, rfl, nofun, nofun⟩
      all_goals nofun

lemma parse_faithful {rule : Str} {tree : Node} (hclean : Clean rule) (hparse : parse rule = some tree) :
    Faithful rule tree := by
  obtain ⟨ts, hlexes, hproper⟩ := hclean
  obtain ⟨tok, s, hget, hstream⟩ := hlexes.stream
  rw [parse] at hparse
  split at hparse
  swap
  · cases hparse
  rename_i herr
  cases hparse
  rw [parseRule] at herr ⊢
  simp only [hget, ne_eq, not_true_eq_false, if_false] at herr ⊢
  obtain ⟨p, hp⟩ : ∃ p, p =
    parseorexpr (parseprimary (2 * rule.length + 4) true) (2 * rule.length + 4) tok s := ⟨_, rfl⟩
  have hreads : Reads OrExpr ts p := by
    rw [hp]
    refine parseorexpr_reads (fun tok s ts prev hstream hproper hclose hprev herr => ?_) _ hstream hproper
      nofun rfl
    exact (parseprimary_reads _ true tok s ts prev hstream hproper hclose hprev herr).imp And.right id
  rw [← hp] at herr ⊢
  split at herr
  · rename_i hne
    exact absurd herr hne
  rename_i hok
  rw [if_neg hok]
  split at herr
  · cases herr
  rename_i hnull
  rw [if_neg hnull]
  split at herr
  swap
  · cases herr
  rename_i hend
  rw [if_pos hend]
  obtain ⟨hnode, -⟩ | ⟨us, vs, e, rfl, he, hlast, -, hmeans⟩ := hreads (not_not.mp hok)
  · exact absurd (hnode ▸ rfl) hnull
  cases vs with
  | nil => exact ⟨e, ⟨us ++ [], hlexes, by rwa [append_nil]⟩, hmeans⟩
  | cons t vs =>
    have hcode := hlast.code
    rw [hend] at hcode
    cases t <;> cases hcode

/-- **A tree that the parser returns is that of a rule of the grammar**, with all operands and the value of the
rule, if and only if the rule is clean. -/
theorem parse_iff (rule : Str) (tree : Node) (hparse : parse rule = some tree) :
    Faithful rule tree ↔ Clean rule := by
  constructor
  · rintro ⟨e, hrule, -⟩
    exact hrule.clean
  · exact fun hclean => parse_faithful hclean hparse

/-- A clean rule, with its tree. -/
theorem parse_iff_example : ∃ tree, parse "!connected(*.a)&&(directop()||via(a,b))".toList = some tree ∧
    (Faithful "!connected(*.a)&&(directop()||via(a,b))".toList tree ↔
      Clean "!connected(*.a)&&(directop()||via(a,b))".toList) := by
  obtain ⟨tree, htree⟩ := Option.isSome_iff_exists.mp
    (show (parse "!connected(*.a)&&(directop()||via(a,b))".toList).isSome from by decide +kernel)
  exact ⟨tree, htree, parse_iff _ tree htree⟩

/-- **An operand is missing**: the parser returns a tree without one, whose evaluation is undefined. -/
theorem parse_operand_missing : ∃ tree, parse "&&directop()".toList = some tree ∧ ¬tree.Complete ∧
    ∀ clients, eval clients tree = none :=
  ⟨.andor .null (.func (some .directop) []) false, by rfl, fun h => h.1, fun _ => rfl⟩

end Nefarious.Crule
