import Nefarious.Iauthd.Text

/-!
# User names in LDAP queries

The LDAP provider of `iauthd-ts` puts the name of a user into a template, at each `%s`: into a search
filter, or into the DN that it binds as. The name is escaped by a chain of replacements, and is put in by
`String.prototype.replace`, which gives `$$`, `$&`, `` $` `` and `$'` in the new text a meaning of their
own (`getSubstitution`). After a direct bind the account is read from the DN.

An escaped name is a list of tokens, each of which reads back as its character (`Token`). A pattern in the
name loses a `$`, which nothing else in the new text makes up for.

Names: `auth/providers/ldap.ts`.
-/

namespace Nefarious.Iauthd

open Option (map_eq_some_iff some_inj)
open List (append_assoc append_nil cons_append cons_ne_nil count_append count_cons flatMap_cons
  flatMap_singleton map_cons map_id map_map mem_append mem_cons mem_cons_of_mem mem_cons_self mem_map
  mem_singleton ne_nil_of_mem nil_append not_mem_nil singleton_append)

/-! ## Escaping -/

/-- Replace each character by a text. ECMAScript `replace` with a global pattern of one
character. -/
def replaceChar (c : Char) (text s : Str) : Str := s.flatMap fun x => if x = c then text else [x]

/-- Escape a blank in front. `escapeDN` (`/^ /`). -/
def escapeLeading : Str → Str
  | ' ' :: s => '\\' :: ' ' :: s
  | s => s

/-- Escape a blank at the end. `escapeDN` (`/ $/`). -/
def escapeTrailing (s : Str) : Str :=
  if s.getLast? = some ' ' then s.dropLast ++ ['\\', ' '] else s

/-- Escape special characters in DN values. -/
def escapeDN (value : Str) : Str :=
  let value := replaceChar '\\' ['\\', '\\'] value
  let value := replaceChar ',' ['\\', ','] value
  let value := replaceChar '+' ['\\', '+'] value
  let value := replaceChar '"' ['\\', '"'] value
  let value := replaceChar '<' ['\\', '<'] value
  let value := replaceChar '>' ['\\', '>'] value
  let value := replaceChar ';' ['\\', ';'] value
  let value := replaceChar '=' ['\\', '='] value
  escapeTrailing (escapeLeading value)

/-- Escape special characters in LDAP filter values. -/
def escapeFilter (value : Str) : Str :=
  let value := replaceChar '\\' ['\\', '5', 'c'] value
  let value := replaceChar '*' ['\\', '2', 'a'] value
  let value := replaceChar '(' ['\\', '2', '8'] value
  let value := replaceChar ')' ['\\', '2', '9'] value
  replaceChar '\x00' ['\\', '0', '0'] value

/-! ## Templates -/

/-- The characters that have a meaning behind a `$`. ECMAScript `GetSubstitution`. -/
def patternChars : List Char := ['$', '&', '`', '\'']

/-- The text that is put in for a match of `%s`, with what stands before and behind the match. There are
no groups, so a digit has no meaning.
ECMAScript. -/
def getSubstitution (before behind : Str) : Str → Str
  | '$' :: '$' :: t => '$' :: getSubstitution before behind t
  | '$' :: '&' :: t => '%' :: 's' :: getSubstitution before behind t
  | '$' :: '`' :: t => before ++ getSubstitution before behind t
  | '$' :: '\'' :: t => behind ++ getSubstitution before behind t
  | c :: t => c :: getSubstitution before behind t
  | [] => []

/-- The matches of `%s` in a template behind some text: what stands before and behind each. Source:
ECMAScript `replace`. -/
def places (before : Str) : Str → List (Str × Str)
  | '%' :: 's' :: t => (before, t) :: places (before ++ ['%', 's']) t
  | c :: t => places (before ++ [c]) t
  | [] => []

/-- A template with a text for each match. ECMAScript `replace`. -/
def weave : Str → List Str → Str
  | '%' :: 's' :: t, texts => texts.headD [] ++ weave t texts.tail
  | c :: t, texts => c :: weave t texts
  | [], _ => []

/-- The texts that are put in. ECMAScript `replace`. -/
def texts (template text : Str) : List Str :=
  (places [] template).map fun p => getSubstitution p.1 p.2 text

/-- `replace(/%s/g, text)`. ECMAScript `replace`. -/
def replaceName (template text : Str) : Str := weave template (texts template text)

/-! ## The two modes -/

/-- The search filter. `authenticateSearch` (`filter`). -/
def searchFilter (userfilter username : Str) : Str := replaceName userfilter (escapeFilter username)

/-- The DN of a user. `authenticateDirect` (`userDN`). -/
def userDN (userdn username : Str) : Str := replaceName userdn (escapeDN username)

/-- The value of an attribute that a DN begins with, up to a comma; it is not empty. `extractAccountFromDN` (`/^uid=([^,]+)/i`). -/
def leadingValue (attr dn : Str) : Option Str :=
  if (dn.take attr.length).map Char.toLower = attr ∧ (dn.drop attr.length).takeWhile (· ≠ ',') ≠ [] then
    some ((dn.drop attr.length).takeWhile (· ≠ ','))
  else none

def extractAccountFromDN (dn fallback : Str) : Str :=
  match leadingValue "uid=".toList dn with
  | some account => account
  | none =>
    match leadingValue "cn=".toList dn with
    | some account => account
    | none => fallback

/-- Direct bind mode: the account, if the server accepts the DN with the password. -/
def authenticateDirect (bind : Str → Str → Bool) (userdn username password : Str) : Option Str :=
  if bind (userDN userdn username) password then
    some (extractAccountFromDN (userDN userdn username) username)
  else none

/-! ## Reading back -/

def hexDigit (c : Char) : Option ℕ :=
  if isDigit c then some (c.toNat - 48)
  else if 'a' ≤ c ∧ c ≤ 'f' then some (c.toNat - 87)
  else if 'A' ≤ c ∧ c ≤ 'F' then some (c.toNat - 55)
  else none

/-- The octet of two hexadecimal digits. -/
def hexPair (a b : Char) : Option UInt8 :=
  match hexDigit a, hexDigit b with
  | some x, some y => some (UInt8.ofNat (16 * x + y))
  | _, _ => none

/-- The characters that do not stand for themselves in a filter. LDAP, string
representation of search filters (`UTF1SUBSET`). -/
def filterSpecials : List Char := ['\x00', '(', ')', '*', '\\']

/-- The octets of an assertion value; `none` if it is not one, or has an unescaped special character.
LDAP, string representation of search filters (`valueencoding`) -/
def unescapeFilter : Str → Option (List UInt8)
  | [] => some []
  | '\\' :: a :: b :: t =>
    (hexPair a b).bind fun o => (unescapeFilter t).map (o :: ·)
  | c :: t =>
    if c ∈ filterSpecials then none else (unescapeFilter t).map (String.utf8EncodeChar c ++ ·)

/-- The characters that stand for themselves behind a backslash. LDAP, string representation of
distinguished names (`pair`). -/
def pairChars : List Char := ['\\', '"', '+', ',', ';', '<', '>', ' ', '#', '=']

/-- The characters that never stand for themselves in a DN. LDAP, string representation of
distinguished names (`SUTF1`). -/
def dnSpecials : List Char := ['\x00', '"', '+', ',', ';', '<', '>', '\\']

/-- The octets of an attribute value, from its beginning or not; `none` if it is not one. A blank or a `#`
in front and a blank at the end do not stand for themselves.
LDAP, string representation of distinguished names (`string`) -/
def unescapeDN (first : Bool) : Str → Option (List UInt8)
  | [] => some []
  | '\\' :: a :: b :: t =>
    if a ∈ pairChars then (unescapeDN false (b :: t)).map (String.utf8EncodeChar a ++ ·)
    else (hexPair a b).bind fun o => (unescapeDN false t).map (o :: ·)
  | ['\\', a] => if a ∈ pairChars then some (String.utf8EncodeChar a) else none
  | c :: t =>
    if c ∈ dnSpecials ∨ (first = true ∧ (c = ' ' ∨ c = '#')) ∨ (t = [] ∧ c = ' ') then none
    else (unescapeDN false t).map (String.utf8EncodeChar c ++ ·)

/-- The templates from whose DN the account is read. `extractAccountFromDN`. -/
def NamesAccount (userdn : Str) : Prop := "uid=%s,".toList <+: userdn ∨ "cn=%s,".toList <+: userdn

/-- A name is safe in a filter template and a DN template: what stands at each `%s` reads back as exactly
the name, and the account after a direct bind is the name. -/
structure Safe (userfilter userdn name : Str) : Prop where
  filter : ∀ t ∈ texts userfilter (escapeFilter name), unescapeFilter t = some (octets name)
  dn : ∀ t ∈ texts userdn (escapeDN name), unescapeDN true t = some (octets name)
  account : NamesAccount userdn → ∀ bind password account,
    authenticateDirect bind userdn name password = some account → account = name

/-- A `$` with a character behind it that gives it a meaning. ECMAScript `GetSubstitution`. -/
def hasPattern : Str → Bool
  | '$' :: c :: t => c ∈ patternChars || hasPattern (c :: t)
  | _ :: t => hasPattern t
  | [] => false

/-- The characters that are escaped in a DN. `escapeDN`. -/
def dnEscaped : List Char := ['\\', ',', '+', '"', '<', '>', ';', '=']

/-- The condition on the templates and the name. -/
structure Harmless (userfilter userdn name : Str) : Prop where
  pattern : places [] userfilter ≠ [] ∨ places [] userdn ≠ [] → hasPattern name = false
  value : places [] userdn ≠ [] → name ≠ [' '] ∧ name.head? ≠ some '#' ∧ '\x00' ∉ name
  account : NamesAccount userdn → (∀ c ∈ name, c ∉ dnEscaped) ∧ name.head? ≠ some ' ' ∧ name.getLast? ≠ some ' '

/-! ## The text that is put in -/

variable {c : Char} {name userdn : Str}

lemma getSubstitution_cons (before behind : Str) (t : Str) (h : c = '$' → ∀ d ∈ t.head?, d ∉ patternChars) :
    getSubstitution before behind (c :: t) = c :: getSubstitution before behind t := by
  rw [getSubstitution.eq_def]
  split
  all_goals first
    | rfl
    | (rename_i heq
       injection heq with hc ht
       subst hc ht
       exact absurd (by decide) (h rfl _ rfl))
    | (rename_i heq; injection heq with hc ht; subst hc ht; rfl)
    | (rename_i heq; cases heq)

lemma getSubstitution_append (before behind : Str) (t : Str) :
    (x : Str) → '$' ∉ x → getSubstitution before behind (x ++ t) = x ++ getSubstitution before behind t
  | [], _ => rfl
  | c :: x, h => by
    rw [cons_append, getSubstitution_cons before behind (x ++ t) (fun hc => absurd (hc ▸ mem_cons_self) h),
      getSubstitution_append before behind t x (fun hx => h (mem_cons_of_mem c hx)),
      cons_append]

lemma count_utf8EncodeChar (c : Char) : (String.utf8EncodeChar c).count 36 = if c = '$' then 1 else 0 := by
  have hc : c = '$' ↔ c.val.toNat = 36 := ⟨fun h => h ▸ rfl, fun h => Char.ext (UInt32.toNat_inj.1 h)⟩
  have hbyte : ∀ n, n < 256 → (UInt8.ofNat n = 36 ↔ n = 36) := fun n hn => by
    rw [← UInt8.toNat_inj, UInt8.toNat_ofNat_of_lt' hn]
    rfl
  -- the octets of a longer encoding are at least 128
  have hlong : ∀ l : List ℕ, (∀ n ∈ l, n < 128) → (l.map fun n => UInt8.ofNat (n + 128)).count 36 = 0 := by
    intro l hl
    rw [List.count_eq_zero]
    intro hm
    obtain ⟨n, hn, h36⟩ := mem_map.1 hm
    have hlt := hl n hn
    have hval := (hbyte (n + 128) (by omega)).1 h36
    omega
  rw [if_congr hc rfl rfl]
  generalize hv : c.val.toNat = v
  fun_cases String.utf8EncodeChar c with
  | case1 w h => 
      rw [List.count_singleton]
      have hw : w = v := hv
      simp only [beq_iff_eq, hw, hbyte v (by omega)]
  | case2 w h h' =>
    have hw : w = v := hv
    rw [if_neg (by omega)]
    exact hlong [w / 64 % 0x20 + 64, w % 0x40] (by simp; omega)
  | case3 w h h' h'' =>
    have hw : w = v := hv
    rw [if_neg (by omega)]
    exact hlong [w / 4096 % 0x10 + 96, w / 64 % 0x40, w % 0x40] (by simp; omega)
  | case4 w h h' h'' =>
    have hw : w = v := hv
    rw [if_neg (by omega)]
    exact hlong [w / 262144 % 0x08 + 112, w / 4096 % 0x40, w / 64 % 0x40, w % 0x40] (by simp; omega)

lemma count_octets : (s : Str) → (octets s).count 36 = s.count '$'
  | [] => rfl
  | c :: s => by
    have ih := count_octets s
    unfold octets at ih ⊢
    rw [flatMap_cons, count_append, count_utf8EncodeChar, ih, count_cons]
    simp only [beq_iff_eq]
    omega

/-! ## Tokens -/

/-- How a text is read: the octets, if it can be read. -/
abbrev Read := Str → Option (List UInt8)

/-- A text begins with some text that stands for a character. -/
def ReadsAs (read : Read) (e : Str) (c : Char) : Prop :=
  ∀ rest o, read (e ++ rest) = some o → ∃ o', read rest = some o' ∧ o = String.utf8EncodeChar c ++ o'

/-- A token for a character: the character itself, or a pair that no `$` is in. It reads as the character. -/
structure Token (read : Read) (c : Char) (e : Str) : Prop where
  form : e = [c] ∨ c ∉ patternChars ∧ '$' ∉ e ∧ ∀ d ∈ e.head?, d ∉ patternChars
  ne : e ≠ []
  reads : ReadsAs read e c

lemma Token.head_notMem {read : Read} {e rest : Str} (h : Token read c e)
    (hc : c ∉ patternChars) : ∀ d ∈ (e ++ rest).head?, d ∉ patternChars := by
  intro d hd
  rw [List.head?_append_of_ne_nil _ h.ne] at hd
  rcases h.form with rfl | ⟨-, -, hhead⟩
  · obtain rfl := some_inj.1 hd
    exact hc
  · exact hhead d hd

lemma hasPattern_cons {s : Str} (h : c = '$' → ∀ d ∈ s.head?, d ∉ patternChars) :
    hasPattern (c :: s) = hasPattern s := by
  by_cases hc : c = '$'
  · subst hc
    cases s with
    | nil => rfl
    | cons d s =>
      rw [hasPattern, decide_eq_false (h rfl d rfl), Bool.false_or]
  · rw [hasPattern.eq_2]
    exact fun d s' hd => absurd hd hc

lemma getSubstitution_tokens {read : Read} (before behind : Str) :
    (ts : List (Char × Str)) → (∀ t ∈ ts, Token read t.1 t.2) → hasPattern (ts.map Prod.fst) = false →
      getSubstitution before behind (ts.flatMap Prod.snd) = ts.flatMap Prod.snd
  | [], _, _ => rfl
  | (c, e) :: ts, hts, hno => by
    have htok : Token read c e := hts _ mem_cons_self
    have hrest : ∀ t ∈ ts, Token read t.1 t.2 := fun t ht => hts t (mem_cons_of_mem _ ht)
    rw [map_cons] at hno
    rw [flatMap_cons]
    have hno' : hasPattern (ts.map Prod.fst) = false := by
      rw [hasPattern.eq_def] at hno
      split at hno
      · next heq =>
        injection heq with _ ht
        rw [ht]
        exact (Bool.or_eq_false_iff.1 hno).2
      · next heq =>
        injection heq with _ ht
        rw [ht]
        exact hno
      · next heq => cases heq
    have ih := getSubstitution_tokens before behind ts hrest hno'
    rcases htok.form with rfl | ⟨-, hdollar, -⟩
    · rw [singleton_append, getSubstitution_cons, ih]
      rintro rfl
      cases ts with
      | nil => exact fun d hd => absurd hd (by simp)
      | cons t ts =>
        rw [flatMap_cons]
        refine (hrest t mem_cons_self).head_notMem ?_
        rw [map_cons, hasPattern] at hno
        exact of_decide_eq_false (Bool.or_eq_false_iff.1 hno).1
    · rw [getSubstitution_append _ _ _ e hdollar, ih]

/-- A way of reading in which a character other than the backslash stands for itself, or cannot be read. -/
structure Plain (read : Read) : Prop where
  nil : read [] = some []
  char : ∀ c, c ≠ '\\' → ReadsAs read [c] c

lemma Plain.count {read : Read} (h : Plain read) (rest : Str) :
    (x : Str) → '\\' ∉ x → ∀ {o}, read (x ++ rest) = some o →
      ∃ o', read rest = some o' ∧ o.count 36 = x.count '$' + o'.count 36
  | [], _, o, ho => ⟨o, ho, by simp⟩
  | c :: x, hx, o, ho => by
    obtain ⟨o₁, ho₁, rfl⟩ := h.char c (fun hc => hx (hc ▸ mem_cons_self)) (x ++ rest) o ho
    obtain ⟨o', ho', hcount⟩ := h.count rest x (fun hm => hx (mem_cons_of_mem c hm)) ho₁
    refine ⟨o', ho', ?_⟩
    rw [count_append, count_utf8EncodeChar, hcount, count_cons]
    simp only [beq_iff_eq]
    omega

/-- **A pattern loses a `$`**: what is put in for some tokens reads as at most as many `$` as stand in the name,
and as fewer if the name has a pattern. -/
theorem Plain.count_tokens {read : Read} (h : Plain read) {before behind : Str}
    (hbefore : '$' ∉ before ∧ '\\' ∉ before) (hbehind : '$' ∉ behind ∧ '\\' ∉ behind) :
    (ts : List (Char × Str)) → (∀ t ∈ ts, Token read t.1 t.2) → ∀ {o},
      read (getSubstitution before behind (ts.flatMap Prod.snd)) = some o →
        o.count 36 + (if hasPattern (ts.map Prod.fst) then 1 else 0) ≤ (ts.map Prod.fst).count '$'
  | [], _, o, ho => by
    obtain rfl : [] = o := some_inj.1 (h.nil.symm.trans ho)
    exact le_rfl
  | (c, e) :: ts, hts, o, ho => by
    have htok : Token read c e := hts _ mem_cons_self
    have hrest : ∀ t ∈ ts, Token read t.1 t.2 := fun t ht => hts t (mem_cons_of_mem _ ht)
    rw [flatMap_cons] at ho
    by_cases hpat : c = '$' ∧ ∃ d ∈ (ts.map Prod.fst).head?, d ∈ patternChars
    · -- a pattern: the two tokens are replaced by a text with fewer dollars
      obtain ⟨rfl, d, hd, hdp⟩ := hpat
      obtain ⟨⟨d', f⟩, ts, rfl⟩ : ∃ t ts', ts = t :: ts' := by
        cases ts with
        | nil => cases hd
        | cons t ts => exact ⟨t, ts, rfl⟩
      obtain rfl : d' = d := some_inj.1 hd
      have he : e = ['$'] := htok.form.resolve_right fun hc => hc.1 (by decide)
      have hf : f = [d'] := (hrest (d', f) mem_cons_self).form.resolve_right fun hc => hc.1 hdp
      have ih : ∀ {o'}, read (getSubstitution before behind (ts.flatMap Prod.snd)) = some o' →
          o'.count 36 ≤ (ts.map Prod.fst).count '$' := fun {o'} ho' =>
        (Nat.le_add_right ..).trans (h.count_tokens hbefore hbehind ts
          (fun t ht => hrest t (mem_cons_of_mem _ ht)) ho')
      rw [flatMap_cons, he, hf] at ho
      have hcount : ∀ x : Str, '\\' ∉ x → x.count '$' + 1 ≤ 1 + (if d' = '$' then 1 else 0) →
          getSubstitution before behind (['$'] ++ ([d'] ++ ts.flatMap Prod.snd)) =
            x ++ getSubstitution before behind (ts.flatMap Prod.snd) →
          o.count 36 + 1 ≤ 1 + (if d' = '$' then 1 else 0) + (ts.map Prod.fst).count '$' := by
        intro x hx hle hsub
        rw [hsub] at ho
        obtain ⟨o', ho', heq⟩ := h.count _ x hx ho
        have hih := ih ho'
        omega
      have hgoal : o.count 36 + 1 ≤ 1 + (if d' = '$' then 1 else 0) + (ts.map Prod.fst).count '$' := by
        have hnone : ∀ x : Str, '$' ∉ x → x.count '$' = 0 := fun x hx => List.count_eq_zero.2 hx
        simp only [patternChars, mem_cons, not_mem_nil, or_false] at hdp
        rcases hdp with rfl | rfl | rfl | rfl
        · exact hcount ['$'] (by decide) (by decide) rfl
        · exact hcount ['%', 's'] (by decide) (by decide) rfl
        · exact hcount before hbefore.2 (by rw [hnone before hbefore.1]; decide) rfl
        · exact hcount behind hbehind.2 (by rw [hnone behind hbehind.1]; decide) rfl
      have hhas : hasPattern (('$', e) :: (d', f) :: ts |>.map Prod.fst) = true := by
        rw [map_cons, map_cons, hasPattern, decide_eq_true hdp, Bool.true_or]
      rw [hhas, if_pos rfl, map_cons, map_cons, count_cons, count_cons]
      simp only [beq_iff_eq, if_true]
      omega
    · -- no pattern here: the token is put in as it is
      have hhead : c = '$' → ∀ d ∈ (ts.map Prod.fst).head?, d ∉ patternChars :=
        fun hc d hd hdp => hpat ⟨hc, d, hd, hdp⟩
      have hsub : getSubstitution before behind (e ++ ts.flatMap Prod.snd) =
          e ++ getSubstitution before behind (ts.flatMap Prod.snd) := by
        rcases htok.form with rfl | ⟨-, hdollar, -⟩
        · refine getSubstitution_cons before behind _ fun hc => ?_
          cases ts with
          | nil => exact fun d hd => absurd hd (by simp)
          | cons t ts =>
            rw [flatMap_cons]
            exact (hrest t mem_cons_self).head_notMem (hhead hc _ rfl)
        · exact getSubstitution_append _ _ _ e hdollar
      rw [hsub] at ho
      obtain ⟨o', ho', rfl⟩ := htok.reads _ o ho
      have ih := h.count_tokens hbefore hbehind ts hrest ho'
      rw [map_cons, hasPattern_cons hhead, count_append, count_utf8EncodeChar, count_cons]
      simp only [beq_iff_eq]
      omega
termination_by ts => ts.length

/-- **What stands for a name reads as the name only without a pattern**, where there is no `$` and no backslash
around. -/
theorem Plain.hasPattern_of_reads {read : Read} (h : Plain read) {before behind : Str}
    (hbefore : '$' ∉ before ∧ '\\' ∉ before) (hbehind : '$' ∉ behind ∧ '\\' ∉ behind)
    {ts : List (Char × Str)} (hts : ∀ t ∈ ts, Token read t.1 t.2)
    (hread : read (getSubstitution before behind (ts.flatMap Prod.snd)) = some (octets (ts.map Prod.fst))) :
    hasPattern (ts.map Prod.fst) = false := by
  have hle := h.count_tokens hbefore hbehind ts hts hread
  rw [count_octets] at hle
  by_contra hc
  rw [if_pos (by simpa using hc)] at hle
  omega

/-! ## The search filter -/

/-- What a character is escaped as in a filter. `escapeFilter`. -/
def filterToken (c : Char) : Str :=
  if c = '\\' then ['\\', '5', 'c']
  else if c = '*' then ['\\', '2', 'a']
  else if c = '(' then ['\\', '2', '8']
  else if c = ')' then ['\\', '2', '9']
  else if c = '\x00' then ['\\', '0', '0']
  else [c]

lemma escapeFilter_eq (s : Str) : escapeFilter s = s.flatMap filterToken := by
  simp only [escapeFilter, replaceChar, List.flatMap_assoc]
  congr 1
  funext c
  unfold filterToken
  split_ifs with h₁ h₂ h₃ h₄ h₅
  · subst h₁; decide
  · subst h₂; decide
  · subst h₃; decide
  · subst h₄; decide
  · subst h₅; decide
  · simp [h₂, h₃, h₄, h₅]

lemma unescapeFilter_cons (hc : c ≠ '\\') (t : Str) :
    unescapeFilter (c :: t) =
      if c ∈ filterSpecials then none else (unescapeFilter t).map (String.utf8EncodeChar c ++ ·) := by
  rw [unescapeFilter.eq_3]
  exact fun a b t' h => absurd h hc

lemma plain_unescapeFilter : Plain unescapeFilter where
  nil := rfl
  char c hc rest o ho := by
    rw [singleton_append, unescapeFilter_cons hc] at ho
    split at ho
    · cases ho
    · obtain ⟨o', ho', rfl⟩ := map_eq_some_iff.1 ho
      exact ⟨o', ho', rfl⟩

lemma unescapeFilter_token (c : Char) (t : Str) :
    unescapeFilter (filterToken c ++ t) = (unescapeFilter t).map (String.utf8EncodeChar c ++ ·) := by
  unfold filterToken
  split_ifs with h₁ h₂ h₃ h₄ h₅
  · subst h₁; rfl
  · subst h₂; rfl
  · subst h₃; rfl
  · subst h₄; rfl
  · subst h₅; rfl
  · rw [singleton_append, unescapeFilter_cons h₁, if_neg]
    simp [filterSpecials, h₁, h₂, h₃, h₄, h₅]

lemma token_filterToken (c : Char) : Token unescapeFilter c (filterToken c) where
  form := by
    unfold filterToken
    split_ifs with h₁ h₂ h₃ h₄ h₅
    · subst h₁; exact .inr (by decide)
    · subst h₂; exact .inr (by decide)
    · subst h₃; exact .inr (by decide)
    · subst h₄; exact .inr (by decide)
    · subst h₅; exact .inr (by decide)
    · exact .inl rfl
  ne := by
    unfold filterToken
    split_ifs <;> exact cons_ne_nil _ _
  reads rest o ho := by
    rw [unescapeFilter_token] at ho
    obtain ⟨o', ho', rfl⟩ := map_eq_some_iff.1 ho
    exact ⟨o', ho', rfl⟩

lemma unescapeFilter_escapeFilter (name : Str) : unescapeFilter (escapeFilter name) = some (octets name) := by
  rw [escapeFilter_eq]
  induction name with
  | nil => rfl
  | cons c name ih =>
    rw [flatMap_cons, unescapeFilter_token, ih]
    rfl

def filterTokens (name : Str) : List (Char × Str) := name.map fun c => (c, filterToken c)

lemma filterTokens_eq (name : Str) :
    (filterTokens name).flatMap Prod.snd = escapeFilter name ∧ (filterTokens name).map Prod.fst = name := by
  constructor
  · rw [escapeFilter_eq, filterTokens, List.flatMap_map]
  · rw [filterTokens, map_map]
    exact map_id name

lemma token_filterTokens (name : Str) : ∀ t ∈ filterTokens name, Token unescapeFilter t.1 t.2 := by
  intro t ht
  obtain ⟨c, -, rfl⟩ := mem_map.1 ht
  exact token_filterToken c

/-! ## The DN -/

/-- What a character is escaped as in a DN. `escapeDN`. -/
def dnToken (c : Char) : Str := if c ∈ dnEscaped then ['\\', c] else [c]

/-- What the first or the last character is escaped as. `escapeDN`. -/
def dnEndToken (c : Char) : Str := if c = ' ' then ['\\', ' '] else dnToken c

lemma escapeDN_eq (s : Str) : escapeDN s = escapeTrailing (escapeLeading (s.flatMap dnToken)) := by
  simp only [escapeDN, replaceChar, List.flatMap_assoc]
  congr 3
  funext c
  by_cases hc : c ∈ dnEscaped
  · simp only [dnEscaped, mem_cons, not_mem_nil, or_false] at hc
    rcases hc with rfl | rfl | rfl | rfl | rfl | rfl | rfl | rfl <;> decide
  · rw [dnToken, if_neg hc]
    simp only [dnEscaped, mem_cons, not_mem_nil, or_false, not_or] at hc
    simp [hc]

lemma escapeLeading_token (a : Char) (rest : Str) :
    escapeLeading (dnToken a ++ rest) = dnEndToken a ++ rest := by
  unfold dnEndToken
  split_ifs with ha
  · subst ha; rfl
  · unfold dnToken
    split
    · rfl
    · rw [singleton_append, escapeLeading.eq_2]
      exact fun s h => ha (List.cons.inj h).1

lemma escapeTrailing_token (x : Str) (z : Char) : escapeTrailing (x ++ dnToken z) = x ++ dnEndToken z := by
  unfold dnEndToken
  split_ifs with hz
  · subst hz
    show escapeTrailing (x ++ [' ']) = _
    rw [escapeTrailing, if_pos (List.getLast?_concat), List.dropLast_concat]
  · rw [escapeTrailing, if_neg]
    have hlast : (x ++ dnToken z).getLast? = some z := by
      unfold dnToken
      split
      · rw [List.append_cons, List.getLast?_concat]
      · exact List.getLast?_concat
    rw [hlast]
    exact fun h => hz (some_inj.1 h)

lemma escapeDN_singleton {a : Char} (ha : a ≠ ' ') : escapeDN [a] = dnToken a := by
  have hlead := escapeLeading_token a []
  have htrail := escapeTrailing_token [] a
  rw [append_nil, append_nil] at hlead
  rw [nil_append, nil_append] at htrail
  have hend : dnEndToken a = dnToken a := if_neg ha
  rw [escapeDN_eq, flatMap_singleton, hlead, hend, htrail, hend]

lemma escapeDN_cons (a z : Char) (m : Str) :
    escapeDN (a :: (m ++ [z])) = dnEndToken a ++ (m.flatMap dnToken ++ dnEndToken z) := by
  rw [escapeDN_eq, flatMap_cons, escapeLeading_token, List.flatMap_append, flatMap_singleton,
    ← append_assoc, ← append_assoc, escapeTrailing_token, append_assoc]

lemma name_cases (name : Str) : name = [] ∨ (∃ a, name = [a]) ∨ ∃ a m z, name = a :: (m ++ [z]) := by
  cases name with
  | nil => exact .inl rfl
  | cons a t =>
    rcases List.eq_nil_or_concat t with rfl | ⟨m, z, rfl⟩
    · exact .inr (.inl ⟨a, rfl⟩)
    · exact .inr (.inr ⟨a, m, z, by rw [List.concat_eq_append]⟩)

lemma unescapeDN_cons (hc : c ≠ '\\') (first : Bool) (t : Str) :
    unescapeDN first (c :: t) =
      if c ∈ dnSpecials ∨ (first = true ∧ (c = ' ' ∨ c = '#')) ∨ (t = [] ∧ c = ' ') then none
      else (unescapeDN false t).map (String.utf8EncodeChar c ++ ·) := by
  rw [unescapeDN.eq_4]
  · exact fun a b t' h => absurd h hc
  · exact fun a h => absurd h hc

lemma unescapeDN_pair {a : Char} (ha : a ∈ pairChars) (first : Bool) (t : Str) :
    unescapeDN first ('\\' :: a :: t) = (unescapeDN false t).map (String.utf8EncodeChar a ++ ·) := by
  cases t with
  | nil =>
    simp only [unescapeDN, if_pos ha, Option.map_some, append_nil]
  | cons b t => rw [unescapeDN, if_pos ha]

lemma dnEscaped_subset : ∀ c ∈ dnEscaped, c ∈ pairChars ∧ c ≠ '\x00' ∧ c ≠ ' ' ∧ c ≠ '#' := by decide

lemma dnSpecials_subset : ∀ c ∈ dnSpecials, c ∈ dnEscaped ∨ c = '\x00' := by decide

lemma unescapeDN_token {c : Char} {first : Bool} {t : Str}
    (hfirst : ¬ (first = true ∧ (c = ' ' ∨ c = '#'))) (hlast : ¬ (t = [] ∧ c = ' ')) :
    unescapeDN first (dnToken c ++ t) =
      if c = '\x00' then none else (unescapeDN false t).map (String.utf8EncodeChar c ++ ·) := by
  unfold dnToken
  split_ifs with hc hnul hnul
  · exact absurd hnul (dnEscaped_subset c hc).2.1
  · exact unescapeDN_pair (dnEscaped_subset c hc).1 first t
  · subst hnul
    rw [singleton_append, unescapeDN_cons (by decide), if_pos (.inl (by decide))]
  · have hslash : c ≠ '\\' := fun h => hc (h ▸ by decide)
    rw [singleton_append, unescapeDN_cons hslash, if_neg]
    rintro (h | h | h)
    · exact (dnSpecials_subset c h).elim hc hnul
    · exact hfirst h
    · exact hlast h

lemma unescapeDN_endToken {c : Char} {first : Bool} (t : Str) (hfirst : ¬ (first = true ∧ c = '#')) :
    unescapeDN first (dnEndToken c ++ t) =
      if c = '\x00' then none else (unescapeDN false t).map (String.utf8EncodeChar c ++ ·) := by
  unfold dnEndToken
  split_ifs with hblank hnul hnul
  · exact absurd (hblank.symm.trans hnul) (by decide)
  · subst hblank
    exact unescapeDN_pair (by decide) first t
  · rw [unescapeDN_token (fun h => ?_) (fun h => hblank h.2), if_pos hnul]
    exact h.2.elim hblank fun hh => hfirst ⟨h.1, hh⟩
  · rw [unescapeDN_token (fun h => ?_) (fun h => hblank h.2), if_neg hnul]
    exact h.2.elim hblank fun hh => hfirst ⟨h.1, hh⟩

lemma unescapeDN_tail (z : Char) : (m : Str) → unescapeDN false (m.flatMap dnToken ++ dnEndToken z) =
      if '\x00' ∈ m ++ [z] then none else some (octets (m ++ [z]))
  | [] => by
    have hend := @unescapeDN_endToken z false [] (fun h => absurd h.1 (by decide))
    rw [append_nil] at hend
    rw [List.flatMap_nil, nil_append, hend, nil_append]
    simp only [mem_singleton, eq_comm (a := '\x00')]
    refine if_congr Iff.rfl rfl ?_
    simp [octets, unescapeDN]
  | c :: m => by
    rw [flatMap_cons, append_assoc, unescapeDN_token (fun h => absurd h.1 (by decide)),
      unescapeDN_tail z m, cons_append]
    · by_cases hc : c = '\x00'
      · rw [if_pos hc, if_pos (hc ▸ mem_cons_self)]
      · by_cases hm : '\x00' ∈ m ++ [z]
        · rw [if_neg hc, if_pos hm, if_pos (mem_cons_of_mem c hm)]
          rfl
        · rw [if_neg hc, if_neg hm, if_neg]
          · rfl
          · exact fun h => (mem_cons.1 h).elim (fun h => hc h.symm) hm
    · rintro ⟨hnil, -⟩
      have hne : dnEndToken z ≠ [] := by
        unfold dnEndToken dnToken
        split_ifs <;> exact cons_ne_nil _ _
      exact hne (List.append_eq_nil_iff.1 hnil).2

/-- **An escaped name reads as the name** iff it is not a single blank, does not begin with `#` and has no NUL.
-/
theorem unescapeDN_escapeDN_iff (name : Str) : unescapeDN true (escapeDN name) = some (octets name) ↔
      name ≠ [' '] ∧ name.head? ≠ some '#' ∧ '\x00' ∉ name := by
  have hhash : ∀ rest, unescapeDN true ('#' :: rest) = none := fun rest => by
    rw [unescapeDN_cons (by decide), if_pos (.inr (.inl ⟨rfl, .inr rfl⟩))]
  rcases name_cases name with rfl | ⟨a, rfl⟩ | ⟨a, m, z, rfl⟩
  · exact ⟨fun _ => by simp, fun _ => rfl⟩
  · by_cases hblank : a = ' '
    · subst hblank
      exact ⟨fun h => absurd h (by decide), fun h => absurd rfl h.1⟩
    · rw [escapeDN_singleton hblank]
      by_cases ha : a = '#'
      · subst ha
        exact ⟨fun h => absurd ((hhash []).symm.trans h) (by simp), fun h => absurd rfl h.2.1⟩
      · have htok := @unescapeDN_token a true [] (fun h => h.2.elim hblank ha) (fun h => hblank h.2)
        rw [append_nil] at htok
        rw [htok]
        by_cases hnul : a = '\x00'
        · simp [hnul]
        · rw [if_neg hnul]
          refine ⟨fun _ => ⟨by simpa using hblank, by simpa using ha, ?_⟩, fun _ => by simp [octets, unescapeDN]⟩
          rw [mem_singleton]
          exact fun h => hnul h.symm
  · rw [escapeDN_cons]
    by_cases ha : a = '#'
    · subst ha
      exact ⟨fun h => absurd ((hhash _).symm.trans h) (by simp), fun h => absurd rfl h.2.1⟩
    · rw [unescapeDN_endToken _ (fun h => ha h.2), unescapeDN_tail]
      by_cases hnul : a = '\x00'
      · rw [if_pos hnul]
        exact ⟨fun h => absurd h (by simp), fun h => absurd (hnul ▸ mem_cons_self) h.2.2⟩
      · by_cases hm : '\x00' ∈ m ++ [z]
        · rw [if_neg hnul, if_pos hm]
          exact ⟨fun h => absurd h (by simp), fun h => absurd (mem_cons_of_mem a hm) h.2.2⟩
        · rw [if_neg hnul, if_neg hm]
          refine ⟨fun _ => ⟨by simp, by simpa using ha, fun h => ?_⟩, fun _ => rfl⟩
          exact (mem_cons.1 h).elim (fun h => hnul h.symm) hm

lemma plain_unescapeDN : Plain (unescapeDN false) where
  nil := rfl
  char c hc rest o ho := by
    rw [singleton_append, unescapeDN_cons hc] at ho
    split at ho
    · cases ho
    · obtain ⟨o', ho', rfl⟩ := map_eq_some_iff.1 ho
      exact ⟨o', ho', rfl⟩

lemma unescapeDN_of_first {t : Str} {o : List UInt8} (h : unescapeDN true t = some o) :
    unescapeDN false t = some o := by
  rw [unescapeDN.eq_def] at h ⊢
  split at h
  · exact h
  · exact h
  · exact h
  · split at h
    · cases h
    · next hc =>
      rw [if_neg]
      · exact h
      · rintro (hs | ⟨hf, -⟩ | hl)
        · exact hc (.inl hs)
        · exact absurd hf (by decide)
        · exact hc (.inr (.inr hl))

lemma token_pair (hc : c ∈ pairChars) (hp : c ∉ patternChars) :
    Token (unescapeDN false) c ['\\', c] where
  form := by
    refine .inr ⟨hp, ?_, ?_⟩
    · simp only [mem_cons, not_mem_nil, or_false, not_or]
      exact ⟨by decide, fun h => hp (h ▸ by decide)⟩
    · intro d hd
      obtain rfl := some_inj.1 hd
      decide
  ne := cons_ne_nil _ _
  reads rest o ho := by
    rw [cons_append, singleton_append, unescapeDN_pair hc] at ho
    obtain ⟨o', ho', rfl⟩ := map_eq_some_iff.1 ho
    exact ⟨o', ho', rfl⟩

lemma token_dnToken (c : Char) : Token (unescapeDN false) c (dnToken c) := by
  unfold dnToken
  split
  · next hc =>
    have hp : ∀ c ∈ dnEscaped, c ∉ patternChars := by decide
    exact token_pair (dnEscaped_subset c hc).1 (hp c hc)
  · next hc =>
    refine ⟨.inl rfl, cons_ne_nil _ _, plain_unescapeDN.char c ?_⟩
    exact fun h => hc (h ▸ by decide)

lemma token_dnEndToken (c : Char) : Token (unescapeDN false) c (dnEndToken c) := by
  unfold dnEndToken
  split
  · next hc =>
    subst hc
    exact token_pair (by decide) (by decide)
  · exact token_dnToken c

lemma exists_dnTokens (h : name ≠ [' ']) : ∃ ts : List (Char × Str), (∀ t ∈ ts,
    Token (unescapeDN false) t.1 t.2) ∧ ts.flatMap Prod.snd = escapeDN name ∧ ts.map Prod.fst = name := by
  rcases name_cases name with rfl | ⟨a, rfl⟩ | ⟨a, m, z, rfl⟩
  · exact ⟨[], fun t ht => absurd ht not_mem_nil, rfl, rfl⟩
  · refine ⟨[(a, dnToken a)], fun t ht => ?_, ?_, rfl⟩
    · rw [mem_singleton.1 ht]
      exact token_dnToken a
    · rw [flatMap_singleton, escapeDN_singleton]
      exact fun ha => h (ha ▸ rfl)
  · refine ⟨(a, dnEndToken a) :: (m.map (fun c => (c, dnToken c)) ++ [(z, dnEndToken z)]), ?_, ?_, ?_⟩
    · intro t ht
      rcases mem_cons.1 ht with rfl | ht
      · exact token_dnEndToken a
      · rcases mem_append.1 ht with ht | ht
        · obtain ⟨c, -, rfl⟩ := mem_map.1 ht
          exact token_dnToken c
        · rw [mem_singleton.1 ht]
          exact token_dnEndToken z
    · rw [flatMap_cons, List.flatMap_append, flatMap_singleton, List.flatMap_map, escapeDN_cons]
    · rw [map_cons, List.map_append, map_map, List.map_singleton]
      exact congrArg (a :: ·) (congrArg (· ++ [z]) (map_id m))

/-! ## The account -/

lemma length_dnToken (c : Char) : (dnToken c).length = 1 ↔ c ∉ dnEscaped := by
  unfold dnToken
  split_ifs with hc <;> simp [hc]

lemma length_dnEndToken (c : Char) : 1 ≤ (dnToken c).length ∧ (dnToken c).length ≤ (dnEndToken c).length ∧
      ((dnEndToken c).length = 1 ↔ c ∉ dnEscaped ∧ c ≠ ' ') := by
  unfold dnEndToken
  split_ifs with hc
  · subst hc
    decide
  · refine ⟨?_, le_rfl, by rw [length_dnToken]; simp [hc]⟩
    unfold dnToken
    split_ifs <;> simp

lemma length_flatMap_dnToken : (m : Str) → m.length ≤ (m.flatMap dnToken).length ∧
      ((m.flatMap dnToken).length = m.length ↔ ∀ c ∈ m, c ∉ dnEscaped)
  | [] => ⟨le_rfl, by simp⟩
  | c :: m => by
    obtain ⟨hle, hiff⟩ := length_flatMap_dnToken m
    have hc := (length_dnEndToken c).1
    have hone := length_dnToken c
    rw [flatMap_cons, List.length_append, List.length_cons, List.forall_mem_cons, ← hiff, ← hone]
    omega

lemma escapeDN_eq_self_iff (name : Str) : escapeDN name = name ↔
      (∀ c ∈ name, c ∉ dnEscaped) ∧ name.head? ≠ some ' ' ∧ name.getLast? ≠ some ' ' := by
  have hself : ∀ m : Str, (∀ c ∈ m, c ∉ dnEscaped) → m.flatMap dnToken = m := by
    intro m
    induction m with
    | nil => exact fun _ => rfl
    | cons c m ih =>
      intro h
      rw [flatMap_cons, ih fun d hd => h d (mem_cons_of_mem c hd), dnToken,
        if_neg (h c mem_cons_self)]
      rfl
  rcases name_cases name with rfl | ⟨a, rfl⟩ | ⟨a, m, z, rfl⟩
  · exact ⟨fun _ => by simp, fun _ => rfl⟩
  · by_cases hblank : a = ' '
    · subst hblank
      exact ⟨fun h => absurd h (by decide), fun h => absurd rfl h.2.1⟩
    · rw [escapeDN_singleton hblank]
      constructor
      · intro h
        have hone := (length_dnToken a).1 (congrArg List.length h)
        exact ⟨by simpa using hone, by simpa using hblank, by simpa using hblank⟩
      · exact fun h => by simpa using hself [a] h.1
  · rw [escapeDN_cons]
    constructor
    · intro h
      have hlen := congrArg List.length h
      simp only [List.length_append, List.length_cons, List.length_nil] at hlen
      obtain ⟨ha, haend, hone⟩ := length_dnEndToken a
      obtain ⟨hz, hzend, hone'⟩ := length_dnEndToken z
      obtain ⟨hm, hmiff⟩ := length_flatMap_dnToken m
      obtain ⟨ha', hablank⟩ := hone.1 (by omega)
      obtain ⟨hz', hzblank⟩ := hone'.1 (by omega)
      have hm' := hmiff.1 (by omega)
      refine ⟨fun c hc => ?_, by simpa using hablank, ?_⟩
      · rcases mem_cons.1 hc with rfl | hc
        · exact ha'
        · rcases mem_append.1 hc with hc | hc
          · exact hm' c hc
          · rw [mem_singleton.1 hc]
            exact hz'
      · rw [← cons_append, List.getLast?_concat]
        exact fun hh => hzblank (some_inj.1 hh)
    · rintro ⟨hall, hhead, hlast⟩
      rw [← cons_append, List.getLast?_concat] at hlast
      have hza : ∀ c ∈ a :: (m ++ [z]), c ≠ ' ' → dnEndToken c = [c] := fun c hc hne => by
        rw [dnEndToken, if_neg hne, dnToken, if_neg (hall c hc)]
      rw [hza a mem_cons_self fun h => hhead (h ▸ rfl),
        hza z (by simp) fun h => hlast (h ▸ rfl),
        hself m fun c hc => hall c (mem_cons_of_mem a (List.mem_append_left _ hc))]
      rfl

lemma takeWhile_comma (r : Str) : (t : Str) → (t ++ ',' :: r).takeWhile (· ≠ ',') = t.takeWhile (· ≠ ',')
  | [] => rfl
  | c :: t => by
    rw [cons_append, List.takeWhile_cons, List.takeWhile_cons, takeWhile_comma r t]

lemma extractAccountFromDN_eq {attr : Str} (h : attr = "uid=".toList ∨ attr = "cn=".toList)
    (t r fallback : Str) :
    extractAccountFromDN (attr ++ (t ++ ',' :: r)) fallback =
      if t.takeWhile (· ≠ ',') = [] then fallback else t.takeWhile (· ≠ ',') := by
  have hattr : leadingValue attr (attr ++ (t ++ ',' :: r)) =
      if t.takeWhile (· ≠ ',') = [] then none else some (t.takeWhile (· ≠ ',')) := by
    unfold leadingValue
    rw [List.take_left, List.drop_left, takeWhile_comma]
    have hlower : attr.map Char.toLower = attr := by
      rcases h with rfl | rfl <;> decide
    by_cases hnil : t.takeWhile (· ≠ ',') = []
    · rw [if_neg (fun hc => hc.2 hnil), if_pos hnil]
    · rw [if_pos ⟨hlower, hnil⟩, if_neg hnil]
  unfold extractAccountFromDN
  rcases h with rfl | rfl
  · rw [hattr]
    split_ifs with hnil
    · have hcn : leadingValue "cn=".toList ("uid=".toList ++ (t ++ ',' :: r)) = none := by
        rw [leadingValue, if_neg]
        intro hc
        have hhead := congrArg List.head? hc.1
        exact absurd hhead (by simp)
      rw [hcn]
    · rfl
  · have huid : leadingValue "uid=".toList ("cn=".toList ++ (t ++ ',' :: r)) = none := by
      rw [leadingValue, if_neg]
      intro hc
      have hhead := congrArg List.head? hc.1
      exact absurd hhead (by simp)
    rw [huid, hattr]
    split_ifs with hnil
    · rfl
    · rfl

lemma takeWhile_escapeDN (h : name ≠ []) : (escapeDN name).takeWhile (· ≠ ',') ≠ [] := by
  have hhead : ∀ a t, ((dnToken a ++ t).takeWhile (· ≠ ',') ≠ []) ∧
      ((dnEndToken a ++ t).takeWhile (· ≠ ',') ≠ []) := by
    intro a t
    have hcomma : ',' ∈ dnEscaped := by decide
    have htok : (dnToken a ++ t).takeWhile (· ≠ ',') ≠ [] := by
      unfold dnToken
      split_ifs with ha
      · simp
      · have hne : a ≠ ',' := fun hc => ha (hc ▸ hcomma)
        simp [hne]
    refine ⟨htok, ?_⟩
    unfold dnEndToken
    split_ifs
    · simp
    · exact htok
  rcases name_cases name with rfl | ⟨a, rfl⟩ | ⟨a, m, z, rfl⟩
  · exact absurd rfl h
  · by_cases hblank : a = ' '
    · subst hblank
      decide
    · have ha := (hhead a []).1
      rw [append_nil] at ha
      rwa [escapeDN_singleton hblank]
  · rw [escapeDN_cons]
    exact (hhead a _).2

lemma extractAccountFromDN_escapeDN {attr : Str} (h : attr = "uid=".toList ∨ attr = "cn=".toList)
    (r name : Str) :
    extractAccountFromDN (attr ++ (escapeDN name ++ ',' :: r)) name = name ↔ escapeDN name = name := by
  rw [extractAccountFromDN_eq h]
  have hcomma : ',' ∈ escapeDN name → ',' ∈ name := by
    intro hin
    by_contra hno
    have hend : ∀ c ∈ name, ',' ∉ dnToken c ∧ ',' ∉ dnEndToken c := by
      intro c hc
      have hne : c ≠ ',' := fun h => hno (h ▸ hc)
      unfold dnEndToken dnToken
      split_ifs <;> simp [hne.symm]
    rcases name_cases name with rfl | ⟨a, rfl⟩ | ⟨a, m, z, rfl⟩
    · exact absurd hin (by decide)
    · by_cases hblank : a = ' '
      · subst hblank
        exact absurd hin (by decide)
      · rw [escapeDN_singleton hblank] at hin
        exact (hend a mem_cons_self).1 hin
    · rw [escapeDN_cons] at hin
      rcases mem_append.1 hin with hin | hin
      · exact (hend a mem_cons_self).2 hin
      · rcases mem_append.1 hin with hin | hin
        · obtain ⟨c, hc, hin⟩ := List.mem_flatMap.1 hin
          exact (hend c (mem_cons_of_mem a (List.mem_append_left _ hc))).1 hin
        · exact (hend z (by simp)).2 hin
  constructor
  · intro heq
    split_ifs at heq with hnil
    · by_contra hne
      refine takeWhile_escapeDN (fun hname => hne ?_) hnil
      rw [hname]
      rfl
    · have hno : ',' ∉ name := fun hin => by
        rw [← heq] at hin
        exact absurd (List.mem_takeWhile_imp hin) (by decide)
      have hall : (escapeDN name).takeWhile (· ≠ ',') = escapeDN name := by
        rw [List.takeWhile_eq_self_iff]
        intro c hc
        exact decide_eq_true fun h => hno (hcomma (h ▸ hc))
      rw [hall] at heq
      exact heq
  · intro heq
    rw [heq]
    have hno : ',' ∉ name := fun hin =>
      ((escapeDN_eq_self_iff name).1 heq).1 ',' hin (by decide)
    have hall : name.takeWhile (· ≠ ',') = name := by
      rw [List.takeWhile_eq_self_iff]
      exact fun c hc => decide_eq_true fun h => hno (h ▸ hc)
    rw [hall]
    split_ifs <;> rfl

/-! ## Templates without a `$` -/

lemma mem_places : {before template : Str} → ∀ {p}, p ∈ places before template →
    ∀ c, c ∈ p.1 ∨ c ∈ p.2 → c ∈ before ∨ c ∈ template := by
  intro before template
  fun_induction places before template with
  | case1 before t ih =>
    intro p hp c hc
    rcases mem_cons.1 hp with rfl | hp
    · rcases hc with hc | hc
      · exact .inl hc
      · exact .inr (mem_cons_of_mem _ (mem_cons_of_mem _ hc))
    · rcases ih hp c hc with hin | hin
      · rcases mem_append.1 hin with hin | hin
        · exact .inl hin
        · refine .inr ?_
          simp only [mem_cons, not_mem_nil, or_false] at hin ⊢
          exact hin.elim .inl fun h => .inr (.inl h)
      · exact .inr (mem_cons_of_mem _ (mem_cons_of_mem _ hin))
  | case2 before d t hd ih =>
    intro p hp c hc
    rcases ih hp c hc with hin | hin
    · rcases mem_append.1 hin with hin | hin
      · exact .inl hin
      · exact .inr (mem_cons.2 (.inl (mem_singleton.1 hin)))
    · exact .inr (mem_cons_of_mem _ hin)
  | case3 before => exact fun hp => absurd hp not_mem_nil

/-- A template without a `$` and without a backslash. -/
def PlainTemplate (template : Str) : Prop := '$' ∉ template ∧ '\\' ∉ template

lemma PlainTemplate.places {template : Str} (h : PlainTemplate template) {p : Str × Str}
    (hp : p ∈ places [] template) : ('$' ∉ p.1 ∧ '\\' ∉ p.1) ∧ ('$' ∉ p.2 ∧ '\\' ∉ p.2) := by
  have hmem : ∀ c, c ∈ p.1 ∨ c ∈ p.2 → c ∈ template := fun c hc =>
    (mem_places hp c hc).resolve_left not_mem_nil
  exact ⟨⟨fun hc => h.1 (hmem _ (.inl hc)), fun hc => h.2 (hmem _ (.inl hc))⟩,
    ⟨fun hc => h.1 (hmem _ (.inr hc)), fun hc => h.2 (hmem _ (.inr hc))⟩⟩

lemma mem_texts {template text t : Str} :
    t ∈ texts template text ↔ ∃ p ∈ places [] template, getSubstitution p.1 p.2 text = t := mem_map

lemma NamesAccount.userDN_eq (h : NamesAccount userdn) (name : Str) :
    ∃ attr r, (attr = "uid=".toList ∨ attr = "cn=".toList) ∧ ∃ t ∈ texts userdn (escapeDN name),
      userDN userdn name = attr ++ (t ++ ',' :: r) := by
  rcases h with ⟨r, rfl⟩ | ⟨r, rfl⟩
  · have hplaces : places [] ("uid=%s,".toList ++ r) =
        ("uid=".toList, ',' :: r) :: places "uid=%s,".toList r := rfl
    have hweave : ∀ ts, weave ("uid=%s,".toList ++ r) ts =
        "uid=".toList ++ (ts.headD [] ++ ',' :: weave r ts.tail) := fun _ => rfl
    refine ⟨"uid=".toList, weave r ((places "uid=%s,".toList r).map fun p =>
      getSubstitution p.1 p.2 (escapeDN name)), .inl rfl,
      getSubstitution "uid=".toList (',' :: r) (escapeDN name), ?_, ?_⟩
    · rw [texts, hplaces, map_cons]
      exact mem_cons_self
    · rw [userDN, replaceName, hweave, texts, hplaces, map_cons, List.headD_cons, List.tail_cons]
  · have hplaces : places [] ("cn=%s,".toList ++ r) =
        ("cn=".toList, ',' :: r) :: places "cn=%s,".toList r := rfl
    have hweave : ∀ ts, weave ("cn=%s,".toList ++ r) ts =
        "cn=".toList ++ (ts.headD [] ++ ',' :: weave r ts.tail) := fun _ => rfl
    refine ⟨"cn=".toList, weave r ((places "cn=%s,".toList r).map fun p =>
      getSubstitution p.1 p.2 (escapeDN name)), .inr rfl,
      getSubstitution "cn=".toList (',' :: r) (escapeDN name), ?_, ?_⟩
    · rw [texts, hplaces, map_cons]
      exact mem_cons_self
    · rw [userDN, replaceName, hweave, texts, hplaces, map_cons, List.headD_cons, List.tail_cons]

lemma NamesAccount.places_ne (h : NamesAccount userdn) : places [] userdn ≠ [] := by
  rcases h with ⟨r, rfl⟩ | ⟨r, rfl⟩
  · exact cons_ne_nil _ _
  · exact cons_ne_nil _ _

lemma getSubstitution_escapeDN (before behind : Str) (hne : name ≠ [' '])
    (hno : hasPattern name = false) : getSubstitution before behind (escapeDN name) = escapeDN name := by
  obtain ⟨ts, hts, htext, hname⟩ := exists_dnTokens hne
  rw [← htext]
  exact getSubstitution_tokens before behind ts hts (by rwa [hname])

lemma getSubstitution_escapeFilter (before behind : Str) (hno : hasPattern name = false) :
    getSubstitution before behind (escapeFilter name) = escapeFilter name := by
  have heq := filterTokens_eq name
  rw [← heq.1]
  exact getSubstitution_tokens before behind _ (token_filterTokens name) (by rwa [heq.2])

lemma Harmless.safe {userfilter : Str} (h : Harmless userfilter userdn name) :
    Safe userfilter userdn name := by
  have hdn : ∀ t ∈ texts userdn (escapeDN name), t = escapeDN name := by
    intro t ht
    obtain ⟨p, hp, rfl⟩ := mem_texts.1 ht
    have hplace := ne_nil_of_mem hp
    exact getSubstitution_escapeDN p.1 p.2 (h.value hplace).1 (h.pattern (.inr hplace))
  constructor
  · intro t ht
    obtain ⟨p, hp, rfl⟩ := mem_texts.1 ht
    rw [getSubstitution_escapeFilter p.1 p.2 (h.pattern (.inl (ne_nil_of_mem hp)))]
    exact unescapeFilter_escapeFilter name
  · intro t ht
    rw [hdn t ht, unescapeDN_escapeDN_iff]
    obtain ⟨p, hp, -⟩ := mem_texts.1 ht
    exact h.value (ne_nil_of_mem hp)
  · intro hnames bind password account haccount
    obtain ⟨attr, r, hattr, t, ht, heq⟩ := hnames.userDN_eq name
    unfold authenticateDirect at haccount
    split at haccount
    · obtain rfl := some_inj.1 haccount
      rw [heq, hdn t ht]
      exact (extractAccountFromDN_escapeDN hattr r name).2 ((escapeDN_eq_self_iff name).2 (h.account hnames))
    · cases haccount

/-- **A safe name is harmless**, where no template has a `$` or a backslash. -/
theorem Safe.harmless {userfilter : Str} (hfilter : PlainTemplate userfilter)
    (hdn : PlainTemplate userdn) (h : Safe userfilter userdn name) : Harmless userfilter userdn name := by
  have hblank : places [] userdn ≠ [] → name ≠ [' '] := by
    rintro hplace rfl
    obtain ⟨p, ps, hp⟩ := List.exists_cons_of_ne_nil hplace
    have hread := h.dn _ (mem_texts.2 ⟨p, hp ▸ mem_cons_self, rfl⟩)
    have hsub := getSubstitution_append p.1 p.2 [] (escapeDN [' ']) (by decide)
    rw [append_nil] at hsub
    rw [hsub, show getSubstitution p.1 p.2 [] = [] from rfl] at hread
    exact absurd hread (by decide)
  have hpattern : places [] userfilter ≠ [] ∨ places [] userdn ≠ [] → hasPattern name = false := by
    rintro (hplace | hplace)
    · obtain ⟨p, ps, hp⟩ := List.exists_cons_of_ne_nil hplace
      have hmem : p ∈ places [] userfilter := hp ▸ mem_cons_self
      obtain ⟨hbefore, hbehind⟩ := hfilter.places hmem
      have heq := filterTokens_eq name
      have hread := h.filter _ (mem_texts.2 ⟨p, hmem, rfl⟩)
      have hno := @Plain.hasPattern_of_reads _ plain_unescapeFilter p.1 p.2 hbefore hbehind
        (filterTokens name) (token_filterTokens name) (by rwa [heq.1, heq.2])
      rwa [heq.2] at hno
    · obtain ⟨p, ps, hp⟩ := List.exists_cons_of_ne_nil hplace
      have hmem : p ∈ places [] userdn := hp ▸ mem_cons_self
      obtain ⟨hbefore, hbehind⟩ := hdn.places hmem
      obtain ⟨ts, hts, htext, hname⟩ := exists_dnTokens (hblank hplace)
      have hread := unescapeDN_of_first (h.dn _ (mem_texts.2 ⟨p, hmem, rfl⟩))
      have hno := plain_unescapeDN.hasPattern_of_reads hbefore hbehind hts (by rwa [htext, hname])
      rwa [hname] at hno
  refine ⟨hpattern, fun hplace => ?_, fun hnames => ?_⟩
  · obtain ⟨p, ps, hp⟩ := List.exists_cons_of_ne_nil hplace
    have hread := h.dn _ (mem_texts.2 ⟨p, hp ▸ mem_cons_self, rfl⟩)
    rw [getSubstitution_escapeDN p.1 p.2 (hblank hplace) (hpattern (.inr hplace))] at hread
    exact (unescapeDN_escapeDN_iff name).1 hread
  · have hplace := hnames.places_ne
    obtain ⟨attr, r, hattr, t, ht, heq⟩ := hnames.userDN_eq name
    obtain ⟨p, hp, rfl⟩ := mem_texts.1 ht
    rw [getSubstitution_escapeDN p.1 p.2 (hblank hplace) (hpattern (.inr hplace))] at heq
    have haccount := h.account hnames (fun _ _ => true) [] (extractAccountFromDN (userDN userdn name) name)
      rfl
    rw [heq] at haccount
    exact (escapeDN_eq_self_iff name).1 ((extractAccountFromDN_escapeDN hattr r name).1 haccount)

/-- **Safe names**: a name is safe in two templates if it is harmless, and, where no template has a `$` or a
backslash, only if it is. -/
theorem safe_iff (userfilter userdn name : Str) : (Harmless userfilter userdn name →
    Safe userfilter userdn name) ∧ (PlainTemplate userfilter → PlainTemplate userdn →
    (Safe userfilter userdn name ↔ Harmless userfilter userdn name)) :=
  ⟨Harmless.safe, fun hfilter hdn => ⟨fun h => h.harmless hfilter hdn, Harmless.safe⟩⟩

/-- **A plain name** in the usual templates. -/
theorem safe_iff_alice : Safe "(uid=%s)".toList "uid=%s,ou=users,dc=example,dc=com".toList "alice".toList ∧
      Harmless "(uid=%s)".toList "uid=%s,ou=users,dc=example,dc=com".toList "alice".toList := by
  have hharmless : Harmless "(uid=%s)".toList "uid=%s,ou=users,dc=example,dc=com".toList
      "alice".toList :=
    ⟨fun _ => by decide, fun _ => by decide, fun _ => by decide⟩
  have hsafe := (safe_iff _ _ _).1 hharmless
  exact ⟨hsafe, ((safe_iff _ _ _).2 (by unfold PlainTemplate; decide) (by unfold PlainTemplate; decide)).1 hsafe⟩

/-- **A name that changes the queries**: `` $` `` puts the text of the template before `%s` into the filter and
the DN. -/
theorem pattern_changes_queries : searchFilter "(&(objectClass=person)(uid=%s))".toList "$`)".toList =
        "(&(objectClass=person)(uid=(&(objectClass=person)(uid=\\29))".toList ∧
      ¬ Safe "(&(objectClass=person)(uid=%s))".toList "uid=%s,dc=example".toList "$`)".toList := by
  refine ⟨by decide +kernel, fun h => ?_⟩
  have hread := h.filter _ mem_cons_self
  exact absurd hread (by decide +kernel)

end Nefarious.Iauthd
