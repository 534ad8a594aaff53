import Nefarious.Parse

/-!
# Commands

The command of a line is looked up in a tree of letters, by their last five bits; a server knows a tree of
tokens as well.

Names: `parse.c`.
-/

namespace Nefarious.Parse

open Option (some.inj)

/-! ### The trees -/

/-- A command. The limits are those of the table, and two for a pseudo-command. `msg.h` `struct
Message`; `msgtab`, `register_mapping`. -/
structure Message where
  cmd : Str
  tok : Str
  parameters : ℕ
  extra : Bool
  noshun : Bool
  le : parameters ≤ maxPara

/-- A node of a tree. `struct MessageTree`. -/
inductive MessageTree where
  | node (msg : Option Message) (pointers : Fin 32 → Option MessageTree)

/-- A command is at a node of the tree. `struct MessageTree`. -/
inductive InTree (m : Message) : MessageTree → Prop where
  | here {pointers : Fin 32 → Option MessageTree} : InTree m (.node (some m) pointers)
  | child {msg : Option Message} {pointers : Fin 32 → Option MessageTree} {i : Fin 32} {t : MessageTree}
      (hi : pointers i = some t) (ht : InTree m t) : InTree m (.node msg pointers)

/-- The characters of a nick. `table_gen.c` `NTL_IRCNK`. -/
def isNickChar (c : Char) : Bool :=
  isDigit c || ('a' ≤ c && c ≤ '~') || ('A' ≤ c && c ≤ '^') || c = '-' || c = '_' || c = '\x60'

/-- The last five bits of a letter. `MAXPTRLEN`. -/
def slot (c : Char) : Fin 32 := Fin.ofNat 32 c.toNat

def msgTreeParse : Str → MessageTree → Option Message
  | [], .node msg _ => msg
  | c :: cmd, .node _ pointers =>
    if isNickChar c then
      match pointers (slot c) with
      | some t => msgTreeParse cmd t
      | none => none
    else none

lemma msgTreeParse_inTree {m : Message} :
    (cmd : Str) → ∀ {t : MessageTree}, msgTreeParse cmd t = some m → InTree m t
  | [], .node msg _, h => by
    have hmsg : msg = some m := h
    subst hmsg
    exact .here
  | c :: cmd, .node _ pointers, h => by
    unfold msgTreeParse at h
    by_cases hc : isNickChar c = true
    · rw [if_pos hc] at h
      cases ht : pointers (slot c) with
      | none =>
        rw [ht] at h
        cases h
      | some t =>
        rw [ht] at h
        exact .child ht (msgTreeParse_inTree cmd h)
    · rw [if_neg hc] at h
      cases h

lemma isNickChar_of_found {m : Message} :
    (cmd : Str) → ∀ {t : MessageTree}, msgTreeParse cmd t = some m → ∀ c ∈ cmd, isNickChar c = true
  | [], _, _ => nofun
  | c :: cmd, .node _ pointers, h => by
    unfold msgTreeParse at h
    have hc : isNickChar c = true := by
      by_contra hne
      rw [if_neg hne] at h
      cases h
    rw [if_pos hc] at h
    intro d hd
    rcases List.mem_cons.mp hd with rfl | hd
    · exact hc
    · cases ht : pointers (slot c) with
      | none =>
        rw [ht] at h
        cases h
      | some t =>
        rw [ht] at h
        exact isNickChar_of_found cmd h d hd

/-! ### The parameter vector -/

/-- An entry of the vector. `para`. -/
inductive Entry where
  | text (t : Str)
  /-- The service of a pseudo-command. -/
  | extra
  /-- The entry behind the last one. -/
  | null
deriving DecidableEq

/-- The vector: the name of the source, an argument that is inserted, and the parameters from the cursor on, if
there is anything. `parse_client`, `parse_server`. -/
def vector (name : Str) (extra numeric : Bool) (paramcount : ℕ) (s : Option Cursor) : List Entry :=
  let found := s.elim ([], []) (split numeric (min paramcount maxPara) extra.toNat)
  .text name :: (if extra then [.extra] else []) ++ found.2.map (fun p => .text (cstr (found.1.drop p))) ++ [.null]

lemma length_vector (name : Str) (extra numeric : Bool) (paramcount : ℕ) (s : Option Cursor) :
    (vector name extra numeric paramcount s).length ≤ maxPara + 2 := by
  have hfound : (s.elim ([], []) (split numeric (min paramcount maxPara) extra.toNat)).2.length ≤
      max (min paramcount maxPara - extra.toNat) 1 := by
    cases s with
    | none => exact Nat.zero_le _
    | some k => exact length_split ..
  have hmin : min paramcount maxPara ≤ 15 := Nat.min_le_right ..
  unfold vector
  simp only [List.length_append, List.length_cons, List.length_map, List.length_nil]
  have hmax : maxPara = 15 := rfl
  cases extra with
  | true =>
    simp only [Bool.toNat_true, if_true, List.length_cons, List.length_nil] at hfound ⊢
    omega
  | false =>
    simp only [Bool.toNat_false, Bool.false_eq_true, if_false, List.length_nil] at hfound ⊢
    omega

lemma splitTexts_blank (numeric : Bool) (paramcount i : ℕ) (s : Str) :
    splitTexts numeric paramcount i (' ' :: s) = splitTexts numeric paramcount i s := by
  have hblank : (' ' :: s).dropWhile (· = ' ') = s.dropWhile (· = ' ') := rfl
  rw [splitTexts, hblank, ← splitTexts]

lemma vector_joined (name : Str) (extra : Bool) {paramcount : ℕ} (hle : paramcount ≤ maxPara) {before s tail : Str}
    (htail : cur tail = nul) {ps : List (ℕ × Str)} (hps : Joinable ps) (hlen : extra.toNat + ps.length ≤ paramcount)
    (hs : ' ' :: s = joined ps ++ tail) :
    vector name extra false paramcount (some ⟨before, s⟩) =
      .text name :: (if extra then [.extra] else []) ++ ps.map (fun p => .text p.2) ++ [.null] := by
  have htexts := split_texts false paramcount extra.toNat ⟨before, s⟩
  rw [← splitTexts_blank, hs, splitTexts_joined htail ps hps hlen] at htexts
  have hentries := congrArg (List.map Entry.text) htexts
  rw [List.map_map, List.map_map] at hentries
  unfold vector
  rw [Nat.min_eq_left hle]
  exact congrArg (fun l => Entry.text name :: (if extra then [.extra] else []) ++ l ++ [.null]) hentries

/-! ### Lines -/

/-- Cut the command off: its text, and what is behind a blank. `parse_client` (`strchr(ch, ' ')`). -/
def cutCommand (k : Cursor) : Str × Option Cursor :=
  match k.s.dropWhile inWord with
  | ' ' :: s => (k.s.takeWhile inWord, some ⟨k.before ++ k.s.takeWhile inWord ++ [nul], s⟩)
  | _ => (k.s.takeWhile inWord, none)

/-- The client that has sent a line. `parse_client`. -/
structure Peer where
  dead : Bool
  /-- `isshun`. -/
  shunned : Bool
  name : Str

/-- Where the command of a client starts. `parse_client`. -/
def clientCommand (buffer : Str) : Cursor :=
  let ch := Cursor.skip ⟨[], buffer⟩ (· = ' ')
  -- The prefix of a client is ignored.
  if cur ch.s = ':' then ((ch.next).skip inWord).skip (· = ' ') else ch

/-- A line of a client: the command and the vector its handler is called with, if it is called. -/
def parseClient (msgTree : MessageTree) (cptr : Peer) (buffer : Str) : Option (Message × List Entry) :=
  if cptr.dead then none
  else if cur (clientCommand buffer).s = nul then none
  else
    let (ch, s) := cutCommand (clientCommand buffer)
    match msgTreeParse ch msgTree with
    | none => none
    | some mptr =>
      if cptr.shunned && !mptr.noshun then none
      else some (mptr, vector cptr.name mptr.extra false mptr.parameters s)

/-- The server state that a line of a server is read in. The sending link is a connection of its own. `parse_server`; `list.c` `make_client`. -/
structure Link (κ : Type) where
  cptr : κ
  dead : Bool
  findClient : Str → Option κ
  findNServer : Str → Option κ
  findNUser : Str → Option κ
  cliFrom : κ → κ
  name : κ → Str
  tokTree : MessageTree
  msgTree : MessageTree
  self : cliFrom cptr = cptr

section
variable {κ : Type}

/-- What may pass behind an unknown numeric: SQUIT, D and KILL. `parse_server` ("Things that must be allowed to
travel upstream against an squit"). -/
def upstream (ch : Str) : Bool :=
  ch.getD 1 nul = 'Q' || (cur ch = 'D' && ch.getD 1 nul = ' ') || (cur ch = 'K' && ch.getD 2 nul = 'L')

/-- The number of a numeric, from three characters. `parse_server`. -/
def numeric : Str → ℤ
  | [x, y, z] => (charInt x - 48) * 100 + (charInt y - 48) * 10 + (charInt z - 48)
  | _ => 0

/-- The command is taken for a numeric: it has three characters, the first of them a digit, and there is
something behind it. `parse_server`. -/
def isNumeric (ch : Str) : Bool :=
  cur (ch.dropWhile inWord) = ' ' && (ch.takeWhile inWord).length = 3 && isDigit (cur ch)

/-- What a line of a server comes to. `parse_server`. -/
inductive Outcome (κ : Type) where
  | dropped
  | doNumeric (number : ℤ) (src : κ) (parv : List Entry)
  /-- The handler of a command, or of the null pointer. -/
  | handler (mptr : Option Message) (src : κ) (parv : List Entry)

/-- The dispatch of a command. `parse_server`. -/
def dispatch (L : Link κ) (src : κ) (name : Str) (ch : Cursor) : Outcome κ :=
  if cur ch.s = nul then .dropped
  else if isNumeric ch.s then
    let number := numeric (ch.s.takeWhile inWord)
    -- The command is not cut off here, and the blank behind it is still there.
    let parv := vector name false (number ≠ 0) 2 (some (ch.skip inWord))
    if number ≠ 0 then .doNumeric number src parv else .handler none src parv
  else
    let (cmd, s) := cutCommand ch
    match (msgTreeParse cmd L.tokTree).or (msgTreeParse cmd L.msgTree) with
    | none => .dropped
    | some mptr => .handler (some mptr) src (vector name false false mptr.parameters s)

/-- The vector that is handed on. `parse_server`. -/
def Outcome.parv : Outcome κ → List Entry
  | .dropped => []
  | .doNumeric _ _ parv => parv
  | .handler _ _ parv => parv

lemma length_dispatch (L : Link κ) (src : κ) (name : Str) (ch : Cursor) :
    (dispatch L src name ch).parv.length ≤ maxPara + 2 := by
  unfold dispatch
  split
  · exact Nat.zero_le _
  · split
    · dsimp only
      split
      · exact length_vector ..
      · exact length_vector ..
    · dsimp only
      split
      · exact Nat.zero_le _
      · exact length_vector ..

variable [DecidableEq κ]

/-- The source of a line, its name as it is handed on, and where the command starts. `parse_server`. -/
def serverPrefix (L : Link κ) (buffer : Str) : Option (κ × Str × Cursor) :=
  if cur buffer = ':' then
    let name := (buffer.drop 1).takeWhile inWord
    match (buffer.drop 1).dropWhile inWord with
    | ' ' :: rest =>
      let ch := Cursor.skip ⟨':' :: name ++ [nul], rest⟩ (· = ' ')
      match L.findClient name with
      | none => if ch.s.getD 1 nul = 'Q' then some (L.cptr, L.name L.cptr, ch) else none
      | some src => if L.cliFrom src = L.cptr then some (src, name, ch) else none
    | _ => none
  else
    let numericPrefix := (buffer.takeWhile inWord).take 5
    let known :=
      if numericPrefix = [] then some L.cptr
      else if buffer.getD 1 nul = ' ' ∨ buffer.getD 2 nul = ' ' then L.findNServer numericPrefix
      else L.findNUser numericPrefix
    let ch := ((Cursor.next ⟨[], buffer⟩).skip inWord).skip (· = ' ')
    match known with
    | none => if upstream ch.s then some (L.cptr, L.name L.cptr, ch) else none
    | some src => if L.cliFrom src = L.cptr then some (src, L.name src, ch) else none

def parseServer (L : Link κ) (buffer : Str) : Outcome κ :=
  if L.dead then .dropped
  else
    match serverPrefix L buffer with
    | none => .dropped
    | some (src, name, ch) => dispatch L src name ch

/-! ### Joined lines -/

lemma isNickChar_ne {c : Char} (h : isNickChar c = true) : c ≠ ' ' ∧ c ≠ nul ∧ c ≠ ':' := by
  refine ⟨?_, ?_, ?_⟩ <;>
  · rintro rfl
    exact absurd h (by decide)

variable {m : Message} {cmd tail : Str} {t : MessageTree} {ps : List (ℕ × Str)}

lemma cutCommand_joined (before : Str) (hfound : msgTreeParse cmd t = some m) (htail : cur tail = nul)
    (ps : List (ℕ × Str)) : ∃ s, cutCommand ⟨before, cmd ++ (joined ps ++ tail)⟩ = (cmd, s) ∧ ((ps = [] ∧ s =
    none) ∨ ∃ b r, s = some ⟨b, r⟩ ∧ ' ' :: r = joined ps ++ tail) := by
  have hnick := isNickChar_of_found cmd hfound
  obtain ⟨htake, hdrop⟩ := takeWhile_inWord (w := cmd) (fun hb => (isNickChar_ne (hnick _ hb)).1 rfl)
    (fun hn => (isNickChar_ne (hnick _ hn)).2.1 rfl) (inWord_cur_joined ps htail)
  unfold cutCommand
  dsimp only
  rw [htake, hdrop]
  have hfront : ps ≠ [] → ∃ r, joined ps ++ tail = ' ' :: r := by
    match ps with
    | [] => exact fun h => absurd rfl h
    | [_] => exact fun _ => ⟨_, rfl⟩
    | _ :: _ :: _ => exact fun _ => ⟨_, rfl⟩
  by_cases hps : ps = []
  · subst hps
    cases tail with
    | nil => exact ⟨none, rfl, Or.inl ⟨rfl, rfl⟩⟩
    | cons c tail =>
      have hc : c = nul := htail
      subst hc
      exact ⟨none, rfl, Or.inl ⟨rfl, rfl⟩⟩
  · obtain ⟨r, hr⟩ := hfront hps
    rw [hr]
    exact ⟨_, rfl, Or.inr ⟨_, r, rfl, rfl⟩⟩

lemma vector_cutCommand (before : Str)
    (hfound : msgTreeParse cmd t = some m) (htail : cur tail = nul) (hps : Joinable ps)
    (name : Str) (extra : Bool) (hlen : extra.toNat + ps.length ≤ m.parameters) :
    (cutCommand ⟨before, cmd ++ (joined ps ++ tail)⟩).1 = cmd ∧
      vector name extra false m.parameters (cutCommand ⟨before, cmd ++ (joined ps ++ tail)⟩).2 =
        .text name :: (if extra then [.extra] else []) ++ ps.map (fun p => .text p.2) ++ [.null] := by
  obtain ⟨s, hcut, ⟨rfl, rfl⟩ | ⟨b, r, rfl, hr⟩⟩ := cutCommand_joined before hfound htail ps
  · rw [hcut]
    exact ⟨rfl, rfl⟩
  · rw [hcut]
    exact ⟨rfl, vector_joined name extra m.le htail hps hlen hr⟩

lemma cur_found (hfound : msgTreeParse cmd t = some m)
    (hcmd : cmd ≠ []) (s : Str) : cur (cmd ++ s) ≠ ' ' ∧ cur (cmd ++ s) ≠ nul ∧ cur (cmd ++ s) ≠ ':' := by
  obtain ⟨c, cmd, rfl⟩ := List.exists_cons_of_ne_nil hcmd
  exact isNickChar_ne (isNickChar_of_found _ hfound c List.mem_cons_self)

lemma parseClient_joined {msgTree : MessageTree} {cptr : Peer} (hfound : msgTreeParse cmd msgTree = some m) (hcmd : cmd ≠ []) (hdead : cptr.dead = false)
    (hshun : cptr.shunned = true → m.noshun = true) (htail : cur tail = nul) (hps : Joinable ps)
    (hlen : m.extra.toNat + ps.length ≤ m.parameters) (n : ℕ) :
    parseClient msgTree cptr (List.replicate n ' ' ++ (cmd ++ (joined ps ++ tail))) = some (m,
      .text cptr.name :: (if m.extra then [.extra] else []) ++ ps.map (fun p => .text p.2) ++ [.null]) := by
  obtain ⟨hblank, hnul, hcolon⟩ := cur_found hfound hcmd (joined ps ++ tail)
  have hskip : (List.replicate n ' ' ++ (cmd ++ (joined ps ++ tail))).dropWhile (· = ' ') =
      cmd ++ (joined ps ++ tail) := by
    have hmore := dropWhile_blanks n hblank
    rwa [List.cons_append, List.dropWhile_cons_of_pos rfl] at hmore
  obtain ⟨before, hstart⟩ : ∃ before, clientCommand (List.replicate n ' ' ++ (cmd ++ (joined ps ++ tail))) =
      ⟨before, cmd ++ (joined ps ++ tail)⟩ := by
    unfold clientCommand Cursor.skip
    dsimp only
    rw [hskip, if_neg hcolon]
    exact ⟨_, rfl⟩
  obtain ⟨hword, hvector⟩ := vector_cutCommand before hfound htail hps cptr.name m.extra hlen
  have hquiet : ¬ (cptr.shunned && !m.noshun) = true := by
    cases hs : cptr.shunned with
    | false => exact Bool.false_ne_true
    | true =>
      rw [hshun hs]
      exact Bool.false_ne_true
  unfold parseClient
  rw [hdead, if_neg Bool.false_ne_true, hstart, if_neg hnul]
  dsimp only
  rw [hword, hfound]
  dsimp only
  rw [if_neg hquiet, hvector]

lemma serverPrefix_command {L : Link κ} {source rest name : Str} {n : ℕ} {src : κ} {k : Cursor}
    (hne : source ≠ []) (hblank : ' ' ∉ source) (hnul : nul ∉ source) (hrest : cur rest ≠ ' ')
    (h : serverPrefix L (source ++ (' ' :: List.replicate n ' ' ++ rest)) = some (src, name, k)) : k.s =
    rest := by
  obtain ⟨c, w, rfl⟩ := List.exists_cons_of_ne_nil hne
  have hmore := dropWhile_blanks n hrest
  have hmore' : (List.replicate n ' ' ++ rest).dropWhile (· = ' ') = rest := by
    rwa [List.cons_append, List.dropWhile_cons_of_pos rfl] at hmore
  obtain ⟨htake, hdrop⟩ := takeWhile_inWord (w := w) (s := ' ' :: List.replicate n ' ' ++ rest)
    (fun hb => hblank (List.mem_cons_of_mem _ hb)) (fun hn => hnul (List.mem_cons_of_mem _ hn)) rfl
  have hcur : cur (c :: w ++ (' ' :: List.replicate n ' ' ++ rest)) = c := rfl
  have hdrop1 : (c :: w ++ (' ' :: List.replicate n ' ' ++ rest)).drop 1 = w ++ (' ' :: List.replicate n ' ' ++ rest) :=
    rfl
  unfold serverPrefix at h
  rw [hcur] at h
  by_cases hcolon : c = ':'
  · rw [if_pos hcolon, hdrop1, hdrop, htake] at h
    dsimp only at h
    split at h
    · rename_i rest' heq
      obtain ⟨-, rfl⟩ := List.cons.inj heq
      have hch : ∀ before, (Cursor.skip ⟨before, List.replicate n ' ' ++ rest⟩ (· = ' ')).s = rest := fun _ => hmore'
      split at h
      · split at h
        · rw [← (Prod.mk.inj (Prod.mk.inj (some.inj h)).2).2]
          exact hch _
        · cases h
      · split at h
        · rw [← (Prod.mk.inj (Prod.mk.inj (some.inj h)).2).2]
          exact hch _
        · cases h
    · cases h
  · rw [if_neg hcolon] at h
    dsimp only at h
    have hch : (((Cursor.next ⟨[], c :: w ++ (' ' :: List.replicate n ' ' ++ rest)⟩).skip inWord).skip (· = ' ')).s =
        rest := by
      unfold Cursor.skip Cursor.next
      dsimp only
      rw [hdrop1, hdrop]
      exact hmore
    split at h
    · split at h
      · rw [← (Prod.mk.inj (Prod.mk.inj (some.inj h)).2).2]
        exact hch
      · cases h
    · split at h
      · rw [← (Prod.mk.inj (Prod.mk.inj (some.inj h)).2).2]
        exact hch
      · cases h

lemma parseServer_joined {L : Link κ} {source name : Str} {n : ℕ}
    {src : κ} {k : Cursor} (hfound : (msgTreeParse cmd L.tokTree).or (msgTreeParse cmd L.msgTree) = some m)
    (hcmd : cmd ≠ []) (hdead : L.dead = false) (hnum : cmd.length = 3 → isDigit (cur cmd) = false)
    (htail : cur tail = nul) (hps : Joinable ps) (hlen : ps.length ≤ m.parameters) (hne : source ≠ [])
    (hblank : ' ' ∉ source) (hnul : nul ∉ source)
    (hsrc : serverPrefix L (source ++ (' ' :: List.replicate n ' ' ++ (cmd ++ (joined ps ++ tail)))) =
      some (src, name, k)) :
    parseServer L (source ++ (' ' :: List.replicate n ' ' ++ (cmd ++ (joined ps ++ tail)))) =
      .handler (some m) src (.text name :: ps.map (fun p => .text p.2) ++ [.null]) := by
  obtain ⟨t, ht⟩ : ∃ t, msgTreeParse cmd t = some m := by
    cases htok : msgTreeParse cmd L.tokTree with
    | none =>
      rw [htok] at hfound
      exact ⟨_, hfound⟩
    | some m' =>
      rw [htok] at hfound
      exact ⟨_, htok.trans hfound⟩
  obtain ⟨hcur, hend, -⟩ := cur_found ht hcmd (joined ps ++ tail)
  have hk := serverPrefix_command hne hblank hnul hcur hsrc
  obtain ⟨before, s⟩ := k
  dsimp only at hk
  subst hk
  obtain ⟨hword, hvector⟩ := vector_cutCommand before ht htail hps name false ((Nat.zero_add _).trans_le hlen)
  have hnot : ¬ isNumeric (cmd ++ (joined ps ++ tail)) = true := by
    have hnick := isNickChar_of_found cmd ht
    obtain ⟨htake, -⟩ := takeWhile_inWord (w := cmd) (fun hb => (isNickChar_ne (hnick _ hb)).1 rfl)
      (fun hn => (isNickChar_ne (hnick _ hn)).2.1 rfl) (inWord_cur_joined ps htail)
    have hfirst : cur (cmd ++ (joined ps ++ tail)) = cur cmd := by
      obtain ⟨c, cmd, rfl⟩ := List.exists_cons_of_ne_nil hcmd
      rfl
    unfold isNumeric
    rw [htake, hfirst]
    intro hall
    obtain ⟨hall, hdigit⟩ := Bool.and_eq_true_iff.mp hall
    rw [hnum (of_decide_eq_true (Bool.and_eq_true_iff.mp hall).2)] at hdigit
    exact Bool.false_ne_true hdigit
  unfold parseServer
  rw [hdead, if_neg Bool.false_ne_true, hsrc]
  dsimp only
  unfold dispatch
  dsimp only
  rw [if_neg hend, if_neg hnot]
  rw [hword, hfound]
  dsimp only
  rw [hvector]
  rfl

/-- **Parameters are split as they were joined**: by a client's parser as many as its limit allows, of which a
pseudo-command has used one already, by a server's parser as many as the limit allows, and the vector always
fits. -/
theorem parse_split {L : Link κ} {msgTree : MessageTree} {cptr : Peer} {m : Message} {cmd tail : Str}
    {ps : List (ℕ × Str)} (hcmd : cmd ≠ []) (htail : cur tail = nul) (hps : Joinable ps) (n : ℕ) :
    (msgTreeParse cmd msgTree = some m → cptr.dead = false → (cptr.shunned = true → m.noshun = true) →
      m.extra.toNat + ps.length ≤ m.parameters →
      parseClient msgTree cptr (List.replicate n ' ' ++ (cmd ++ (joined ps ++ tail))) = some (m,
        .text cptr.name :: (if m.extra then [.extra] else []) ++ ps.map (fun p => .text p.2) ++ [.null])) ∧
    ((msgTreeParse cmd L.tokTree).or (msgTreeParse cmd L.msgTree) = some m → L.dead = false →
      (cmd.length = 3 → isDigit (cur cmd) = false) → ps.length ≤ m.parameters → ∀ source src name k,
      source ≠ [] → ' ' ∉ source → nul ∉ source →
      serverPrefix L (source ++ (' ' :: List.replicate n ' ' ++ (cmd ++ (joined ps ++ tail)))) = some (src, name, k) →
      parseServer L (source ++ (' ' :: List.replicate n ' ' ++ (cmd ++ (joined ps ++ tail)))) =
        .handler (some m) src (.text name :: ps.map (fun p => .text p.2) ++ [.null])) ∧
    ∀ buffer, (∀ m v, parseClient msgTree cptr buffer = some (m, v) → v.length ≤ maxPara + 2) ∧
      (parseServer L buffer).parv.length ≤ maxPara + 2 := by
  refine ⟨fun hfound hdead hshun hlen => parseClient_joined hfound hcmd hdead hshun htail hps hlen n,
    fun hfound hdead hnum hlen source src name k hne hblank hnul hsrc =>
      parseServer_joined hfound hcmd hdead hnum htail hps hlen hne hblank hnul hsrc, fun buffer => ⟨?_, ?_⟩⟩
  · intro m v h
    unfold parseClient at h
    split at h
    · cases h
    · split at h
      · cases h
      · dsimp only at h
        split at h
        · cases h
        · split at h
          · cases h
          · rw [← (Prod.mk.inj (some.inj h)).2]
            exact length_vector ..
  · unfold parseServer
    split
    · exact Nat.zero_le _
    · split
      · exact Nat.zero_le _
      · exact length_dispatch ..

end

/-- A command with up to fifteen parameters. `msgtab`. -/
def sampleCommand : Message := ⟨"PING".toList, "G".toList, maxPara, false, false, le_rfl⟩

/-- A pseudo-command. `register_mapping`. -/
def samplePseudo : Message := ⟨"X".toList, "X".toList, 2, true, false, by decide⟩

/-- A tree with a command of one letter. `add_msg_element`. -/
def sampleTree (c : Char) (m : Message) : MessageTree :=
  .node none fun i => if i = slot c then some (.node (some m) fun _ => none) else none

/-- A link whose server is known as `AB`. `parse_server`. -/
def sampleLink : Link Bool where
  cptr := true
  dead := false
  findClient := fun _ => none
  findNServer := fun t => if t = "AB".toList then some true else none
  findNUser := fun _ => none
  cliFrom := id
  name := fun _ => "hub".toList
  tokTree := sampleTree 'G' sampleCommand
  msgTree := sampleTree 'G' sampleCommand
  self := rfl

/-- A client. `parse_client`. -/
def samplePeer : Peer := ⟨false, false, "adam".toList⟩

/-- Two parameters. `parse_client`. -/
def sampleParams : List (ℕ × Str) := [(0, "a".toList), (1, ":b c".toList)]

lemma sampleParams_joinable : Joinable sampleParams := by
  refine ⟨fun p hp => ?_, fun p hp => ?_⟩
  · obtain rfl : p = (0, "a".toList) := List.mem_singleton.mp hp
    decide
  · rcases List.mem_cons.mp hp with rfl | hp
    · decide
    · obtain rfl : p = (1, ":b c".toList) := List.mem_singleton.mp hp
      decide

/-- One line of each. `parse_client`, `parse_server`. -/
theorem parse_split_sample :
    parseClient sampleLink.msgTree samplePeer (List.replicate 1 ' ' ++ ("G".toList ++ (joined sampleParams ++ [nul]))) =
        some (sampleCommand, [.text "adam".toList, .text "a".toList, .text ":b c".toList, .null]) ∧
      parseServer sampleLink ("AB".toList ++ (' ' :: List.replicate 1 ' ' ++ ("G".toList ++
        (joined sampleParams ++ [nul])))) =
          .handler (some sampleCommand) true [.text "hub".toList, .text "a".toList, .text ":b c".toList, .null] := by
  have hall := @parse_split Bool _ sampleLink sampleLink.msgTree samplePeer sampleCommand "G".toList [nul] sampleParams
    (by decide) rfl sampleParams_joinable 1
  refine ⟨hall.1 rfl rfl nofun (by decide), ?_⟩
  exact hall.2.1 rfl rfl nofun (by decide) "AB".toList true "hub".toList _ (by decide) (by decide) (by decide) rfl

/-- **The argument that is inserted counts**: two parameters of a pseudo-command, whose limit is two, are one.
-/
theorem pseudo_counts : samplePseudo.parameters = 2 ∧
    parseClient (sampleTree 'X' samplePseudo) samplePeer ("X".toList ++ (joined sampleParams ++ [nul])) =
      some (samplePseudo, [.text "adam".toList, .extra, .text "a  ::b c".toList, .null]) ∧
    parseClient (sampleTree 'X' samplePseudo) samplePeer ("X".toList ++ (joined sampleParams ++ [nul])) ≠
      some (samplePseudo, .text "adam".toList :: .extra :: sampleParams.map (fun p => .text p.2) ++ [.null]) := by
  have hone : parseClient (sampleTree 'X' samplePseudo) samplePeer ("X".toList ++ (joined sampleParams ++ [nul])) =
      some (samplePseudo, [.text "adam".toList, .extra, .text "a  ::b c".toList, .null]) := by
    have hsplit : split false 2 1 ⟨"X".toList ++ [nul], "a  ::b c".toList ++ [nul]⟩ =
        ("X".toList ++ [nul] ++ ("a  ::b c".toList ++ [nul]), [2]) := by
      rw [split, dif_neg (by decide), if_neg (by decide), if_pos (by decide)]
      rfl
    have hvector : vector "adam".toList true false 2 (some ⟨"X".toList ++ [nul], "a  ::b c".toList ++ [nul]⟩) =
        [.text "adam".toList, .extra, .text "a  ::b c".toList, .null] := by
      have hlist := congrArg (fun r : Str × List ℕ =>
        [Entry.text "adam".toList, .extra] ++ r.2.map (fun p => .text (cstr (r.1.drop p))) ++ [.null]) hsplit
      exact hlist.trans (by decide)
    exact congrArg (fun v => some (samplePseudo, v)) hvector
  refine ⟨rfl, hone, fun htwo => ?_⟩
  have hsame := (Prod.mk.inj (some.inj (hone.symm.trans htwo))).2
  exact absurd (congrArg List.length hsame) (by decide)

end Nefarious.Parse
