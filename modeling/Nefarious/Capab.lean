import Nefarious.Strings
import Nefarious.Lib.Bsearch
import Mathlib.Data.Finset.Basic
import Mathlib.Data.List.Sort

/-!
# Client capabilities

The table of capabilities and CAP.

Names: `m_cap.c`.
-/

namespace Nefarious.Capab

open Lib

/-! ## The table -/

/-- Client capabilities. `capab.h` `Capab`. -/
inductive Cap
  | none
  | namesx
  | uhnames
  | extjoin
  | awaynotify
  | accnotify
  | sasl
  | tls
  deriving DecidableEq

/-- The features that capabilities have. `ircd_features.h` `FEAT_CAP_multi_prefix` … `FEAT_CAP_tls`. -/
inductive Feature
  | capMultiPrefix
  | capUserhostInNames
  | capExtendedJoin
  | capAwayNotify
  | capAccountNotify
  | capSasl
  | capTls
  deriving DecidableEq

/-- An entry of the table. Its name is a word, and not a long one. `struct capabilities` -/
structure Capability where
  cap : Cap
  /-- Do not advertise this capability. -/
  hidden : Bool
  /-- Client may not set this capability. -/
  prohibit : Bool
  /-- Capability must be acknowledged by client. -/
  proto : Bool
  /-- Capability may not be cleared once set. -/
  sticky : Bool
  name : Str
  feat : Option Feature
  name_ne : name ≠ []
  word : ∀ c ∈ name, 32 < c.toNat ∧ c.toNat < 256
  short : name.length ≤ 64

/-- An entry without flags. `_CAP`. -/
def entry (cap : Cap) (name : Str) (feat : Feature) (hne : name ≠ [])
    (hword : ∀ c ∈ name, 32 < c.toNat ∧ c.toNat < 256) (hshort : name.length ≤ 64) : Capability :=
  ⟨cap, false, false, false, false, name, some feat, hne, hword, hshort⟩

/-- The table as it is compiled, with or without SSL. -/
def capabList (ssl : Bool) : List Capability :=
  [⟨.none, true, true, false, false, "none".toList, none, by decide, by decide, by decide⟩,
    entry .namesx "multi-prefix".toList .capMultiPrefix (by decide) (by decide) (by decide),
    entry .uhnames "userhost-in-names".toList .capUserhostInNames (by decide) (by decide) (by decide),
    entry .extjoin "extended-join".toList .capExtendedJoin (by decide) (by decide) (by decide),
    entry .awaynotify "away-notify".toList .capAwayNotify (by decide) (by decide) (by decide),
    entry .accnotify "account-notify".toList .capAccountNotify (by decide) (by decide) (by decide),
    entry .sasl "sasl".toList .capSasl (by decide) (by decide) (by decide)] ++
  if ssl then [entry .tls "tls".toList .capTls (by decide) (by decide) (by decide)] else []

def CapabSort (a b : Capability) : Prop := ircdStrcmp a.name b.name ≤ 0

instance : DecidableRel CapabSort := fun a b => inferInstanceAs (Decidable (ircdStrcmp a.name b.name ≤ 0))

/-- The state of the table: no two names or capabilities are the same, and it is in the order of the names when
it has been sorted. `capab_list`, `find_cap` (`inited`) -/
structure Caps where
  list : List Capability
  inited : Bool
  names : list.Pairwise fun a b => strEq a.name b.name = false
  /-- No two capabilities are the same. -/
  caps : (list.map (·.cap)).Nodup
  sorted : inited = true → list.Pairwise fun a b => ircdStrcmp a.name b.name < 0

/-- The table at the start. `capab_list`. -/
def Caps.start (ssl : Bool) : Caps where
  list := capabList ssl
  inited := false
  names := by cases ssl <;> decide +kernel
  caps := by cases ssl <;> decide +kernel
  sorted h := absurd h Bool.false_ne_true

/-! ## The order of names -/

lemma Capability.isCStr (c : Capability) : IsCStr c.name := fun x hx => by
  have h := c.word x hx
  unfold IsByte
  omega

lemma ircdStrcmp_lt_of_le_of_lt : (a b c : Str) → IsCStr a → IsCStr b → IsCStr c →
    ircdStrcmp a b ≤ 0 → ircdStrcmp b c < 0 → ircdStrcmp a c < 0
  | [], [], c, _, _, _, _, h => h
  | [], b :: bs, [], _, hb, _, h, h' => by
    have h0 := charInt_ne_zero (isByte_toLower (hb b List.mem_cons_self))
    simp only [ircdStrcmp] at h h' ⊢
    omega
  | [], b :: bs, c :: cs, _, hb, _, h, h' => by
    have h0 := charInt_ne_zero (isByte_toLower (hb b List.mem_cons_self))
    simp only [ircdStrcmp] at h h' ⊢
    by_cases hbc : toLower b = toLower c
    · rw [hbc] at h h0
      omega
    · rw [if_neg hbc] at h'
      omega
  | a :: as, [], [], _, _, _, _, h => absurd h (by decide)
  | a :: as, [], c :: cs, _, _, _, h, h' => by
    simp only [ircdStrcmp] at h h' ⊢
    have hne : toLower a ≠ toLower c := fun hac => by
      rw [hac] at h
      omega
    rw [if_neg hne]
    omega
  | a :: as, b :: bs, [], ha, hb, _, h, h' => by
    have h0 := charInt_ne_zero (isByte_toLower (ha a List.mem_cons_self))
    simp only [ircdStrcmp] at h h' ⊢
    by_cases hab : toLower a = toLower b
    · rw [hab]
      exact h'
    · rw [if_neg hab] at h
      omega
  | a :: as, b :: bs, c :: cs, ha, hb, hc, h, h' => by
    have hne : ∀ {x y : Char}, x ∈ a :: as ∨ x ∈ b :: bs → y ∈ b :: bs ∨ y ∈ c :: cs →
        toLower x ≠ toLower y → charInt (toLower x) ≠ charInt (toLower y) := by
      intro x y hx hy hxy heq
      exact hxy (charInt_inj (isByte_toLower (hx.elim (ha x) (hb x)))
        (isByte_toLower (hy.elim (hb y) (hc y))) heq)
    simp only [ircdStrcmp] at h h' ⊢
    by_cases hab : toLower a = toLower b
    · rw [if_pos hab] at h
      rw [hab]
      by_cases hbc : toLower b = toLower c
      · rw [if_pos hbc] at h' ⊢
        exact ircdStrcmp_lt_of_le_of_lt as bs cs (fun x hx => ha x (List.mem_cons_of_mem _ hx))
          (fun x hx => hb x (List.mem_cons_of_mem _ hx))
          (fun x hx => hc x (List.mem_cons_of_mem _ hx)) h h'
      · rw [if_neg hbc] at h' ⊢
        exact h'
    · rw [if_neg hab] at h
      have hlt := hne (.inl List.mem_cons_self) (.inl List.mem_cons_self) hab
      by_cases hbc : toLower b = toLower c
      · rw [← hbc, if_neg hab]
        omega
      · rw [if_neg hbc] at h'
        have hac : toLower a ≠ toLower c := fun heq => by
          rw [heq] at h
          omega
        rw [if_neg hac]
        omega

lemma pairwise_sort {l : List Capability} (h : l.Pairwise fun a b => strEq a.name b.name = false) :
    (l.insertionSort CapabSort).Pairwise fun a b => ircdStrcmp a.name b.name < 0 := by
  have htotal : Std.Total CapabSort := ⟨fun a b => by
    unfold CapabSort
    rw [ircdStrcmp_swap b.name a.name]
    omega⟩
  have htrans : IsTrans Capability CapabSort := ⟨fun a b c hab hbc => by
    unfold CapabSort at hab hbc ⊢
    rcases hbc.lt_or_eq with hlt | heq
    · exact (ircdStrcmp_lt_of_le_of_lt _ _ _ a.isCStr b.isCStr c.isCStr hab hlt).le
    · by_contra hac
      have hca : ircdStrcmp c.name a.name < 0 := by
        rw [ircdStrcmp_swap]
        omega
      have hcb := ircdStrcmp_lt_of_le_of_lt b.name c.name a.name b.isCStr c.isCStr a.isCStr heq.le hca
      rw [ircdStrcmp_swap] at hcb
      omega⟩
  have hle := List.pairwise_insertionSort CapabSort l
  have hne : (l.insertionSort CapabSort).Pairwise fun a b => strEq a.name b.name = false := by
    refine (List.perm_insertionSort CapabSort l).symm.pairwise h ?_
    intro a b hab
    rw [strEq_comm]
    exact hab
  refine (hle.and hne).imp fun {a b} hab => ?_
  have hne' : ircdStrcmp a.name b.name ≠ 0 := of_decide_eq_false hab.2
  have hle' : ircdStrcmp a.name b.name ≤ 0 := hab.1
  omega

/-- Sort the table, the first time. `find_cap`. -/
def Caps.init (T : Caps) : Caps :=
  if T.inited then T
  else
    { list := T.list.insertionSort CapabSort
      inited := true
      names := (List.perm_insertionSort CapabSort T.list).symm.pairwise T.names fun {a b} hab => by
        rw [strEq_comm]
        exact hab
      caps := ((List.perm_insertionSort CapabSort T.list).map _).nodup_iff.2 T.caps
      sorted := fun _ => pairwise_sort T.names }

/-- Compare the name that a list stands at with that of an entry: zero if the name in the list ends, at its end
or at white space, where the other one does. -/
def capabSearch : Str → Str → ℤ
  | [], [] => 0
  | [], b :: _ => 0 - charInt (toLower b)
  | a :: _, [] => if isSpace a then 0 else charInt (toLower a) - 0
  | a :: key, b :: rb =>
    if toLower a = toLower b then capabSearch key rb else charInt (toLower a) - charInt (toLower b)

/-- What the cursor finds. `find_cap`. -/
structure Found where
  cap : Option Capability
  neg : Bool
  /-- The cursor behind the element. -/
  next : Option Str

/-- One element of a list of capabilities. -/
def findCap (T : Caps) (caplist : Str) : Found :=
  let start : Str := caplist.dropWhile isSpace
  let neg := start.head? = some '-'
  let name : Str := if neg then start.tail else start
  let cap := if name = [] then none else Bsearch.bsearch (fun c => capabSearch name c.name) T.init.list
  let rest : Str := match cap with
    | none => name.dropWhile (fun c => !isSpace c)
    | some cap => name.drop cap.name.length
  let next : Str := rest.dropWhile isSpace
  ⟨cap, neg, if next = [] then none else some next⟩

/-! ## Lists -/

/-- Who talks: the server and the client, with names of bounded length. `HOSTLEN`,
`NICKLEN`. -/
structure Peers where
  me : Str
  /-- The name of the client, or a star. -/
  nick : Str
  me_le : me.length ≤ 75
  nick_le : nick.length ≤ 30

/-- What is left of the buffer behind the beginning of a line. `msgq.c` `msgq_bufleft`. -/
def bufleft (P : Peers) (subcmd : Str) : ℕ :=
  512 - ((':' :: P.me ++ " CAP ".toList ++ P.nick ++ ' ' :: subcmd ++ " :".toList).length + 2)

/-- Whether an entry is listed: one of those given, or, where none are given, one that is offered. `send_caplist`. -/
def listed (feature : Feature → Bool) (set rem : Option (Finset Cap)) (c : Capability) : Bool :=
  rem.any (c.cap ∈ ·) || set.any (c.cap ∈ ·) ||
    !(rem.isSome || set.isSome || c.hidden || c.feat.any fun f => !feature f)

/-- The modifiers of an entry. `send_caplist` (`pfx`). -/
def modifiers (rem : Option (Finset Cap)) (c : Capability) : Str :=
  if rem.any (c.cap ∈ ·) then ['-']
  else (if c.proto then ['~'] else []) ++ (if c.sticky then ['='] else [])

/-- The lines so far, and the one that is being built: an entry that does not fit begins a new line. `send_caplist` -/
def putCap (room : ℕ) (rem : Option (Finset Cap)) (buf : List Str × Str) (c : Capability) : List Str × Str :=
  let pfx := (if buf.2 = [] then [] else [' ']) ++ modifiers rem c
  let buf := if room < buf.2.length + (c.name.length + pfx.length) + 2 then (buf.1 ++ [buf.2], []) else buf
  (buf.1, (buf.2 ++ (pfx ++ c.name)).take 511)

/-- The capabilities of the lines of a list. -/
def sendCaplist (feature : Feature → Bool) (P : Peers) (T : Caps) (set rem : Option (Finset Cap))
    (subcmd : Str) : List Str :=
  let buf := (T.list.filter (listed feature set rem)).foldl (putCap (bufleft P subcmd) rem) ([], [])
  buf.1 ++ [buf.2]

def capLs (feature : Feature → Bool) (P : Peers) (T : Caps) : List Str :=
  sendCaplist feature P T none none "LS".toList

/-- CAP LS offers an entry. `send_caplist`, `cap_ls`. -/
def Offered (feature : Feature → Bool) (c : Capability) : Prop := listed feature none none c = true

/-! ## Requests -/

/-- The capabilities of a client. `client.h` (`cli_capab`, `cli_active`). -/
structure Client where
  capab : Finset Cap
  active : Finset Cap
  deriving DecidableEq

/-- The changes of a request so far. `cap_req` (`set`, `rem`, `cs`, `as`). -/
structure Changes where
  set : Finset Cap
  rem : Finset Cap
  client : Client

/-- One element is applied to a client. `cap_req`. -/
def Client.apply (c : Client) (neg : Bool) (cap : Capability) : Client :=
  if neg then ⟨c.capab.erase cap.cap, if cap.proto then c.active else c.active.erase cap.cap⟩
  else ⟨insert cap.cap c.capab, if cap.proto then c.active else insert cap.cap c.active⟩

/-- One element. `cap_req`. -/
def Changes.apply (c : Changes) (neg : Bool) (cap : Capability) : Changes :=
  if neg then ⟨c.set.erase cap.cap, insert cap.cap c.rem, c.client.apply neg cap⟩
  else ⟨insert cap.cap c.set, c.rem.erase cap.cap, c.client.apply neg cap⟩

/-- The reply to a request. `cap_req`. -/
inductive Reply
  | nak (caplist : Str)
  | ack (lines : List Str)
  deriving DecidableEq

/-- Walk through the list, in so many steps at most; without changes when an element is refused. `cap_req`. -/
def reqLoop : ℕ → Caps → Changes → Option Str → Option (Option Changes × Caps)
  | 0, _, _, _ => none
  | _ + 1, T, c, none => some (some c, T)
  | n + 1, T, c, some cl =>
    match (findCap T cl).cap with
    | none => some (none, T.init)
    | some cap =>
      if ((findCap T cl).neg = false ∧ cap.prohibit) ∨ ((findCap T cl).neg = true ∧ cap.sticky) then
        some (none, T.init)
      else reqLoop n T.init (c.apply (findCap T cl).neg cap) (findCap T cl).next

/-- CAP REQ: the client, the table and the reply. -/
def capReq (feature : Feature → Bool) (P : Peers) (T : Caps) (client : Client) (caplist : Option Str) :
    Option (Client × Caps × Reply) :=
  (reqLoop ((caplist.getD []).length + 2) T ⟨∅, ∅, client⟩ caplist).map fun
    | (none, T) => (client, T, .nak (caplist.getD []))
    | (some c, T) =>
      (c.client, T, .ack (sendCaplist feature P T (some c.set) (some c.rem) "ACK".toList))

end Nefarious.Capab
