import Mathlib.Data.List.Nodup
import Nefarious.Parse.Command

/-!
# The tree of commands

A command is put into the tree at the last five bits of its letters, and a pseudo-command is put there if none
is found under its name.

Names: `parse.c`.
-/

namespace Nefarious.Parse

open Option (some.inj)
open List (map_cons map_map mem_append mem_cons_self mem_map mem_map_of_mem)

/-! ### The operations -/

/-- A node that has just been allocated. `add_msg_element` (`MyCalloc`). -/
def emptyNode : MessageTree := .node none fun _ => none

def addMsgElement (m : Message) : Str → MessageTree → MessageTree
  | [], .node _ pointers => .node (some m) pointers
  | c :: cmd, .node msg pointers =>
    .node msg (Function.update pointers (slot c)
      (some (addMsgElement m cmd ((pointers (slot c)).getD emptyNode))))

/-- A node is kept while it has a message or a child. `del_msg_element`. -/
def kept (msg : Option Message) (pointers : Fin 32 → Option MessageTree) : Option MessageTree :=
  if msg.isSome ∨ ∃ i, (pointers i).isSome then some (.node msg pointers) else none

/-- Remove a message from the lookup trie. -/
def delMsgElement : Str → MessageTree → Option MessageTree
  | [], .node _ pointers => kept none pointers
  | c :: cmd, .node msg pointers =>
    kept msg (Function.update pointers (slot c) ((pointers (slot c)).bind (delMsgElement cmd)))

/-- A service mapping, of which the command is checked when it is read. `s_conf.h` `struct s_map`;
`ircd_parser.y` `pseudoblock` (`strIsIrcNk`). -/
structure Smap where
  command : Str
  nick : ∀ c ∈ command, isNickChar c = true

/-- The message of a mapping. `register_mapping`. -/
def Smap.msg (map : Smap) : Message := ⟨map.command, map.command, 2, true, false, two_le_maxPara⟩

/-- The commands: the tree, the table, and the mappings that have a message. -/
structure Commands where
  tree : MessageTree
  msgtab : List Message
  /-- `GlobalServiceMapList`. -/
  maps : List Smap

def Commands.all (s : Commands) : List Message := s.msgtab ++ s.maps.map Smap.msg

/-- Initialize the message lookup trie with all known commands. -/
def initmsgtree (msgtab : List Message) : Commands :=
  ⟨msgtab.foldl (fun t m => addMsgElement m m.cmd t) emptyNode, msgtab, []⟩

/-- Registers a service mapping to the pseudocommand handler. -/
def registerMapping (map : Smap) (s : Commands) : Commands :=
  if (msgTreeParse map.command s.tree).isSome then s
  else ⟨addMsgElement map.msg map.command s.tree, s.msgtab, s.maps ++ [map]⟩

/-- Removes a service mapping. Of one without a message the null pointer is used. The root of the tree is not freed.
`unregister_mapping`, `del_msg_element`. -/
def unregisterMapping (map : Smap) (s : Commands) : Option Commands :=
  if (msgTreeParse map.command s.tree).isNone then some s
  else if s.maps.any (·.command = map.command) then
    some ⟨(delMsgElement map.command s.tree).getD emptyNode, s.msgtab, s.maps.filter (·.command ≠ map.command)⟩
  else none

inductive MapCall
  | register (map : Smap)
  | unregister (map : Smap)

def Commands.call (s : Commands) : MapCall → Option Commands
  | .register map => some (registerMapping map s)
  | .unregister map => unregisterMapping map s

/-- Calls are made, one after the other. -/
def Commands.run : List MapCall → Commands → Option Commands
  | [], s => some s
  | x :: xs, s => (s.call x).bind (Commands.run xs)

/-- The names of the table. `msgtab`; `msg.h`. -/
def commandNames : List Str :=
  ["PRIVMSG", "NICK", "NOTICE", "WALLCHOPS", "WALLVOICES", "CPRIVMSG", "CNOTICE", "JOIN", "MODE", "BURST",
   "CREATE", "DESTRUCT", "QUIT", "PART", "TOPIC", "INVITE", "KICK", "WALLOPS", "WALLUSERS", "DESYNCH",
   "PING", "PONG", "ERROR", "KILL", "USER", "AWAY", "ISON", "SERVER", "SQUIT", "WHOIS", "WHO", "WHOWAS",
   "LIST", "NAMES", "USERHOST", "USERIP", "TRACE", "PASS", "LUSERS", "TIME", "SETTIME", "RPING", "RPONG",
   "OPER", "CONNECT", "MAP", "VERSION", "STATS", "LINKS", "ADMIN", "HELP", "INFO", "MOTD", "CLOSE",
   "SILENCE", "GLINE", "JUPE", "OPMODE", "CLEARMODE", "UPING", "END_OF_BURST", "EOB_ACK", "HASH", "REHASH",
   "RESTART", "DIE", "PROTO", "SET", "RESET", "GET", "PRIVS", "ACCOUNT", "ASLL", "XQUERY", "XREPLY", "CAP",
   "ISNEF", "CHECK", "PROTOCTL", "SVSIDENT", "SVSINFO", "SVSQUIT", "SNO", "SMO", "WEBIRC", "MARK",
   "SVSNOOP", "SVSMODE", "SVSNICK", "SVSPART", "SVSJOIN", "SWHOIS", "FAKE", "MKPASSWD", "OPERMOTD", "RULES",
   "SHUN", "SETHOST", "FINGERPRINT", "STARTTLS", "WALLHOPS", "AUTHENTICATE", "SASL", "REMOVE", "WATCH",
   "ZLINE", "IRCOPS", "TEMPSHUN", "POST", "DNS", "SERVLIST", "SERVSET", "SQUERY"].map String.toList

/-! ### Places of the tree -/

def MessageTree.at : List (Fin 32) → Option MessageTree → Option Message
  | _, none => none
  | [], some (.node msg _) => msg
  | i :: p, some (.node _ pointers) => MessageTree.at p (pointers i)

lemma at_none (p : List (Fin 32)) : MessageTree.at p none = none := by cases p <;> rfl

lemma at_emptyNode (p : List (Fin 32)) : MessageTree.at p (some emptyNode) = none := by
  cases p with
  | nil => rfl
  | cons i p => exact at_none p

lemma at_getD (p : List (Fin 32)) (t : Option MessageTree) :
    MessageTree.at p (some (t.getD emptyNode)) = MessageTree.at p t := by
  cases t with
  | none => rw [Option.getD_none, at_emptyNode, at_none]
  | some t => rfl

lemma at_kept (p : List (Fin 32)) (msg : Option Message) (pointers : Fin 32 → Option MessageTree) :
    MessageTree.at p (kept msg pointers) = MessageTree.at p (some (.node msg pointers)) := by
  unfold kept
  split
  · rfl
  · rename_i h
    rw [not_or, not_exists] at h
    rw [at_none]
    cases p with
    | nil => exact (Option.not_isSome_iff_eq_none.mp h.1).symm
    | cons i p =>
      rw [MessageTree.at, Option.not_isSome_iff_eq_none.mp (h.2 i), at_none]

lemma at_addMsgElement (m : Message) : (cmd : Str) → (t : MessageTree) → (p : List (Fin 32)) →
    MessageTree.at p (some (addMsgElement m cmd t)) = if p = cmd.map slot then some m else MessageTree.at p (some t)
  | [], .node msg pointers, p => by
    cases p with
    | nil => rfl
    | cons i p => rfl
  | c :: cmd, .node msg pointers, p => by
    rw [addMsgElement]
    cases p with
    | nil => rfl
    | cons i p =>
      rw [MessageTree.at, map_cons]
      by_cases hi : i = slot c
      · subst hi
        rw [Function.update_self, at_addMsgElement m cmd, at_getD]
        simp [MessageTree.at]
      · rw [Function.update_of_ne hi, if_neg fun h => hi (List.cons.inj h).1]
        rfl

lemma at_delMsgElement : (cmd : Str) → (t : MessageTree) → (p : List (Fin 32)) →
    MessageTree.at p (delMsgElement cmd t) = if p = cmd.map slot then none else MessageTree.at p (some t)
  | [], .node msg pointers, p => by
    rw [delMsgElement, at_kept]
    cases p with
    | nil => rfl
    | cons i p => rfl
  | c :: cmd, .node msg pointers, p => by
    rw [delMsgElement, at_kept]
    cases p with
    | nil => rfl
    | cons i p =>
      rw [MessageTree.at, map_cons]
      by_cases hi : i = slot c
      · subst hi
        rw [Function.update_self]
        have hrest : MessageTree.at p ((pointers (slot c)).bind (delMsgElement cmd)) =
            if p = cmd.map slot then none else MessageTree.at p (pointers (slot c)) := by
          cases pointers (slot c) with
          | none => rw [Option.bind_none, at_none, ite_self]
          | some t => exact at_delMsgElement cmd t p
        rw [hrest]
        simp [MessageTree.at]
      · rw [Function.update_of_ne hi, if_neg fun h => hi (List.cons.inj h).1]
        rfl

lemma msgTreeParse_eq : (cmd : Str) → (t : MessageTree) →
    msgTreeParse cmd t = if ∀ c ∈ cmd, isNickChar c = true then MessageTree.at (cmd.map slot) (some t) else none
  | [], .node msg pointers => rfl
  | c :: cmd, .node msg pointers => by
    rw [msgTreeParse]
    by_cases hc : isNickChar c = true
    · rw [if_pos hc]
      cases ht : pointers (slot c) with
      | none => simp [MessageTree.at, ht, at_none]
      | some t => simp [msgTreeParse_eq cmd t, hc, MessageTree.at, ht]
    · rw [if_neg hc, if_neg fun h => hc (h c mem_cons_self)]

/-- Each of the messages is at its place, and nothing else is anywhere. -/
def Holds (l : List Message) (t : MessageTree) : Prop :=
  ∀ p m, MessageTree.at p (some t) = some m ↔ m ∈ l ∧ m.cmd.map slot = p

lemma Holds.add {l : List Message} {t : MessageTree} (h : Holds l t) {m : Message}
    (hnew : ∀ m' ∈ l, m'.cmd.map slot ≠ m.cmd.map slot) : Holds (l ++ [m]) (addMsgElement m m.cmd t) := by
  intro p m'
  rw [at_addMsgElement, mem_append, List.mem_singleton]
  split
  · rename_i hp
    constructor
    · intro heq
      obtain rfl := some.inj heq
      exact ⟨Or.inr rfl, hp.symm⟩
    · rintro ⟨hmem | rfl, hp'⟩
      · exact absurd (hp'.trans hp) (hnew m' hmem)
      · rfl
  · rename_i hp
    rw [h p m']
    constructor
    · exact fun hmem => ⟨Or.inl hmem.1, hmem.2⟩
    · rintro ⟨hmem | rfl, hp'⟩
      · exact ⟨hmem, hp'⟩
      · exact absurd hp'.symm hp

lemma Holds.foldl : (msgs : List Message) → ∀ {l : List Message} {t : MessageTree}, Holds l t →
    ((l ++ msgs).map fun m => m.cmd.map slot).Nodup →
    Holds (l ++ msgs) (msgs.foldl (fun t m => addMsgElement m m.cmd t) t)
  | [], l, t, h, _ => by
    rw [List.append_nil]
    exact h
  | m :: msgs, l, t, h, hdistinct => by
    have hsplit : l ++ m :: msgs = (l ++ [m]) ++ msgs := by simp
    have hnew : ∀ m' ∈ l, m'.cmd.map slot ≠ m.cmd.map slot := by
      intro m' hm' heq
      rw [List.map_append, List.nodup_append] at hdistinct
      exact hdistinct.2.2 _ (mem_map_of_mem hm') _ (mem_map_of_mem mem_cons_self) heq
    rw [hsplit] at hdistinct ⊢
    exact Holds.foldl msgs (h.add hnew) hdistinct

/-- A place of the tree as a number. -/
def place (p : List (Fin 32)) : ℕ := p.foldl (fun n i => 32 * n + i.val) 1

/-- No number stands in the list twice. -/
def apart : List ℕ → Bool
  | [] => true
  | x :: xs => xs.all (fun y => !Nat.beq x y) && apart xs

lemma nodup_of_apart : (l : List ℕ) → apart l = true → l.Nodup
  | [], _ => List.nodup_nil
  | x :: xs, h => by
    rw [apart, Bool.and_eq_true, List.all_eq_true] at h
    refine List.nodup_cons.mpr ⟨fun hmem => ?_, nodup_of_apart xs h.2⟩
    exact absurd (h.1 x hmem) (by simp)

/-- The tree holds the commands that there are, no mapping has the name of a command of the table, and the names can be
looked up. -/
structure Good (s : Commands) : Prop where
  holds : Holds s.all s.tree
  apart : ∀ m ∈ s.msgtab, ∀ map ∈ s.maps, m.cmd ≠ map.command
  nick : ∀ m ∈ s.all, ∀ c ∈ m.cmd, isNickChar c = true

variable {s s' : Commands} {map : Smap}

lemma Holds.eq_of_slots {l : List Message} {t : MessageTree} (h : Holds l t) {m m' : Message} (hm : m ∈ l)
    (hm' : m' ∈ l) (heq : m.cmd.map slot = m'.cmd.map slot) : m = m' :=
  some.inj (((h _ m).mpr ⟨hm, rfl⟩).symm.trans ((h _ m').mpr ⟨hm', heq.symm⟩))

lemma Good.found (h : Good s) (word : Str) (m : Message) : msgTreeParse word s.tree = some m ↔
    (∀ c ∈ word, isNickChar c = true) ∧ m ∈ s.all ∧ m.cmd.map slot = word.map slot := by
  rw [msgTreeParse_eq]
  split
  · rename_i hnick
    rw [h.holds]
    exact (and_iff_right hnick).symm
  · rename_i hnick
    exact iff_of_false nofun fun hm => hnick hm.1

lemma Good.init {msgtab : List Message} (hcmds : msgtab.map Message.cmd = commandNames) :
    Good (initmsgtree msgtab) := by
  have hdistinct : (commandNames.map fun c => c.map slot).Nodup := by
    refine List.Nodup.of_map place (nodup_of_apart _ ?_)
    decide +kernel
  have hnick : ∀ cmd ∈ commandNames, ∀ c ∈ cmd, isNickChar c = true := by decide +kernel
  have hall : (initmsgtree msgtab).all = [] ++ msgtab := List.append_nil msgtab
  constructor
  · rw [hall]
    have hempty : Holds [] emptyNode := by
      intro p m
      rw [at_emptyNode]
      exact iff_of_false nofun fun hm => (List.not_mem_nil hm.1).elim
    refine Holds.foldl msgtab hempty ?_
    rw [List.nil_append, ← Function.comp_def, ← map_map, hcmds]
    exact hdistinct
  · intro m _ map hmap
    exact absurd hmap List.not_mem_nil
  · intro m hm
    rw [hall] at hm
    exact hnick m.cmd (hcmds ▸ mem_map_of_mem hm)

lemma mem_all_register (s : Commands) (map : Smap) (m : Message) :
    m ∈ (registerMapping map s).all ↔ m ∈ s.all ∨ m = map.msg ∧ msgTreeParse map.command s.tree = none := by
  unfold registerMapping
  split
  · rename_i hsome
    exact (or_iff_left fun hm => by rw [hm.2] at hsome; exact (nomatch hsome)).symm
  · rename_i hnone
    simp [Commands.all, Option.not_isSome_iff_eq_none.mp hnone, or_assoc]

lemma Good.register (h : Good s) (map : Smap) : Good (registerMapping map s) := by
  have hmem := mem_all_register s map
  unfold registerMapping at hmem ⊢
  split
  · exact h
  · rename_i hnone
    rw [if_neg hnone] at hmem
    have hnew : ∀ m ∈ s.all, m.cmd.map slot ≠ map.command.map slot := by
      intro m hm heq
      refine hnone ?_
      rw [(h.found map.command m).mpr ⟨map.nick, hm, heq⟩]
      rfl
    constructor
    · have hall : Commands.all ⟨addMsgElement map.msg map.command s.tree, s.msgtab, s.maps ++ [map]⟩ =
          s.all ++ [map.msg] := by simp [Commands.all]
      rw [hall]
      exact h.holds.add hnew
    · intro m hm map' hmap'
      rw [mem_append, List.mem_singleton] at hmap'
      obtain hmap' | rfl := hmap'
      · exact h.apart m hm map' hmap'
      · exact fun heq => hnew m (List.mem_append_left _ hm) (heq ▸ rfl)
    · intro m hm
      obtain hm | ⟨rfl, -⟩ := (hmem m).mp hm
      · exact h.nick m hm
      · exact map.nick

lemma Good.unregister (h : Good s) (hs : unregisterMapping map s = some s') :
    Good s' ∧ ∀ m, m.cmd ≠ map.command → (m ∈ s'.all ↔ m ∈ s.all) := by
  unfold unregisterMapping at hs
  split at hs
  · obtain rfl := some.inj hs
    exact ⟨h, fun m _ => Iff.rfl⟩
  · split at hs
    · rename_i hany
      obtain rfl := some.inj hs
      obtain ⟨map', hmap', heq⟩ := List.any_eq_true.mp hany
      have heq : map'.command = map.command := of_decide_eq_true heq
      have hmem : map'.msg ∈ s.all := List.mem_append_right _ (mem_map_of_mem hmap')
      have hall : ∀ m, m ∈ s.msgtab ++ (s.maps.filter (·.command ≠ map.command)).map Smap.msg ↔
          m ∈ s.all ∧ m.cmd ≠ map.command := by
        intro m
        simp only [Commands.all, mem_append, mem_map, List.mem_filter, decide_eq_true_eq]
        constructor
        · rintro (hm | ⟨x, ⟨hx, hne⟩, rfl⟩)
          · exact ⟨Or.inl hm, heq ▸ h.apart m hm map' hmap'⟩
          · exact ⟨Or.inr ⟨x, hx, rfl⟩, hne⟩
        · rintro ⟨hm | ⟨x, hx, rfl⟩, hne⟩
          · exact .inl hm
          · exact .inr ⟨x, ⟨hx, hne⟩, rfl⟩
      refine ⟨⟨fun p m => ?_, fun m hm x hx => ?_, fun m hm => ?_⟩, fun m hne => ?_⟩
      · rw [at_getD, at_delMsgElement, Commands.all, hall]
        split
        · rename_i hp
          refine iff_of_false nofun ?_
          rintro ⟨⟨hm, hne⟩, hp'⟩
          refine hne ?_
          rw [h.holds.eq_of_slots hm hmem (hp'.trans (hp.trans (congrArg (List.map slot) heq.symm)))]
          exact heq
        · rename_i hp
          rw [h.holds]
          constructor
          · rintro ⟨hm, hp'⟩
            exact ⟨⟨hm, fun e => hp (by rw [← hp', e])⟩, hp'⟩
          · exact fun hm => ⟨hm.1.1, hm.2⟩
      · exact h.apart m hm x (List.mem_of_mem_filter hx)
      · exact h.nick m ((hall m).mp hm).1
      · exact (hall m).trans (and_iff_left hne)
    · exact (nomatch hs)

lemma Good.run : (xs : List MapCall) → ∀ {s s' : Commands}, Good s → s.run xs = some s' → Good s'
  | [], _, _, h, hs => some.inj hs ▸ h
  | .register map :: xs, _, _, h, hs => Good.run xs (h.register map) hs
  | .unregister map :: xs, s, _, h, hs => by
    obtain ⟨t, ht, hs⟩ := Option.bind_eq_some_iff.mp hs
    exact Good.run xs (h.unregister ht).1 hs

def figure (c : Char) : Bool := isDigit c || c = '-'

lemma isNickChar_iff (c : Char) : isNickChar c = true ↔
    c.toNat = 45 ∨ 48 ≤ c.toNat ∧ c.toNat ≤ 57 ∨ 65 ≤ c.toNat ∧ c.toNat ≤ 126 := by
  have hle : ∀ a b : Char, a ≤ b ↔ a.toNat ≤ b.toNat := fun _ _ => Iff.rfl
  have heq : ∀ a b : Char, a = b ↔ a.toNat = b.toNat := fun a b =>
    ⟨fun h => h ▸ rfl, fun h => Char.ext (UInt32.toNat_inj.mp h)⟩
  simp only [isNickChar, isDigit, Bool.or_eq_true, Bool.and_eq_true, decide_eq_true_eq, hle, heq,
    show '0'.toNat = 48 from rfl, show '9'.toNat = 57 from rfl, show 'a'.toNat = 97 from rfl, show '~'.toNat = 126 from rfl,
    show 'A'.toNat = 65 from rfl, show '^'.toNat = 94 from rfl, show '-'.toNat = 45 from rfl,
    show '_'.toNat = 95 from rfl, show '\x60'.toNat = 96 from rfl]
  omega

lemma figure_iff (c : Char) : figure c = true ↔ c.toNat = 45 ∨ 48 ≤ c.toNat ∧ c.toNat ≤ 57 := by
  have hle : ∀ a b : Char, a ≤ b ↔ a.toNat ≤ b.toNat := fun _ _ => Iff.rfl
  have heq : c = '-' ↔ c.toNat = 45 := ⟨fun h => h ▸ rfl, fun h => Char.ext (UInt32.toNat_inj.mp h)⟩
  simp only [figure, isDigit, Bool.or_eq_true, decide_eq_true_eq, hle, heq, show '0'.toNat = 48 from rfl,
    show '9'.toNat = 57 from rfl]
  omega

lemma slot_eq_iff (c d : Char) : slot c = slot d ↔ c.toNat % 32 = d.toNat % 32 := by
  rw [slot, slot, Fin.ext_iff]
  rfl

lemma toLower_eq_of_slot {c d : Char} (hc : isNickChar c = true) (hd : isNickChar d = true)
    (hslot : slot c = slot d) (hfigure : figure c = figure d) : toLower c = toLower d := by
  rw [isNickChar_iff] at hc hd
  rw [slot_eq_iff] at hslot
  rw [Bool.eq_iff_iff, figure_iff, figure_iff] at hfigure
  refine Char.ext (UInt32.toNat_inj.mp ?_)
  change (toLower c).toNat = (toLower d).toNat
  rw [toNat_toLower, toNat_toLower]
  split
  · split
    · omega
    · omega
  · split
    · omega
    · omega

lemma slot_of_toLower_eq {c d : Char} (hc : isNickChar c = true) (h : toLower c = toLower d) :
    isNickChar d = true ∧ slot c = slot d ∧ figure c = figure d := by
  have hcode := congrArg Char.toNat h
  rw [isNickChar_iff] at hc
  rw [toNat_toLower, toNat_toLower] at hcode
  rw [isNickChar_iff, slot_eq_iff, Bool.eq_iff_iff, figure_iff, figure_iff]
  split at hcode
  · split at hcode
    · omega
    · omega
  · split at hcode
    · omega
    · omega

lemma fold_of_slots : {a b : Str} → (∀ c ∈ a, isNickChar c = true) → (∀ c ∈ b, isNickChar c = true) →
    a.map slot = b.map slot → a.map figure = b.map figure → a.map toLower = b.map toLower
  | [], [], _, _, _, _ => rfl
  | [], _ :: _, _, _, h, _ => (nomatch h)
  | _ :: _, [], _, _, h, _ => (nomatch h)
  | c :: a, d :: b, ha, hb, hslot, hfigure => by
    obtain ⟨hc, hslot⟩ := List.cons.inj hslot
    obtain ⟨hf, hfigure⟩ := List.cons.inj hfigure
    rw [map_cons, map_cons, toLower_eq_of_slot (ha c mem_cons_self) (hb d mem_cons_self) hc hf,
      fold_of_slots (fun x hx => ha x (List.mem_cons_of_mem _ hx)) (fun x hx => hb x (List.mem_cons_of_mem _ hx))
        hslot hfigure]

lemma slots_of_fold : {a b : Str} → (∀ c ∈ a, isNickChar c = true) → a.map toLower = b.map toLower →
    (∀ c ∈ b, isNickChar c = true) ∧ a.map slot = b.map slot ∧ a.map figure = b.map figure
  | [], [], _, _ => ⟨nofun, rfl, rfl⟩
  | [], _ :: _, _, h => (nomatch h)
  | _ :: _, [], _, h => (nomatch h)
  | c :: a, d :: b, ha, h => by
    obtain ⟨hcd, h⟩ := List.cons.inj h
    obtain ⟨hd, hslot, hfigure⟩ := slot_of_toLower_eq (ha c mem_cons_self) hcd
    obtain ⟨hb, hslots, hfigures⟩ := slots_of_fold (fun x hx => ha x (List.mem_cons_of_mem _ hx)) h
    refine ⟨?_, ?_, ?_⟩
    · intro x hx
      obtain rfl | hx := List.mem_cons.mp hx
      · exact hd
      · exact hb x hx
    · rw [map_cons, map_cons, hslot, hslots]
    · rw [map_cons, map_cons, hfigure, hfigures]

/-- The word finds the command of that name, and no other. -/
def Finds (s : Commands) (word : Str) : Prop :=
  ∀ m, msgTreeParse word s.tree = some m ↔ m ∈ s.all ∧ m.cmd.map toLower = word.map toLower

/-- A mapping hides and replaces no command. -/
def Keeps (s : Commands) : Prop := ∀ map word m, msgTreeParse word s.tree = some m →
  msgTreeParse word (registerMapping map s).tree = some m

/-- Without a mapping the other commands are looked up as before. -/
def Leaves (s : Commands) : Prop := ∀ map s', unregisterMapping map s = some s' → ∀ word m, m.cmd ≠ map.command →
  (msgTreeParse word s'.tree = some m ↔ msgTreeParse word s.tree = some m)

/-- No command meets the word at every place with a digit or a hyphen of the one against a letter of the other. -/
def Clear (s : Commands) (word : Str) : Prop := (∀ c ∈ word, isNickChar c = true) →
  ∀ m ∈ s.all, m.cmd.map slot = word.map slot → m.cmd.map figure = word.map figure

lemma Good.keeps (h : Good s) : Keeps s := by
  intro map word m hm
  obtain ⟨hnick, hmem, hslot⟩ := (h.found word m).mp hm
  exact ((h.register map).found word m).mpr ⟨hnick, (mem_all_register s map m).mpr (Or.inl hmem), hslot⟩

lemma Good.leaves (h : Good s) : Leaves s := by
  intro map s' hs word m hne
  obtain ⟨hgood, hall⟩ := h.unregister hs
  rw [hgood.found, h.found, hall m hne]

lemma Good.finds_iff (h : Good s) (word : Str) : Finds s word ↔ Clear s word := by
  constructor
  · intro hfinds hnick m hm hslot
    have hfound := (hfinds m).mp ((h.found word m).mpr ⟨hnick, hm, hslot⟩)
    exact (slots_of_fold (h.nick m hm) hfound.2).2.2
  · intro hclear m
    rw [h.found]
    constructor
    · rintro ⟨hnick, hm, hslot⟩
      exact ⟨hm, fold_of_slots (h.nick m hm) hnick hslot (hclear hnick m hm hslot)⟩
    · rintro ⟨hm, hfold⟩
      obtain ⟨hnick, hslot, -⟩ := slots_of_fold (h.nick m hm) hfold
      exact ⟨hnick, hm, hslot⟩

def sampleTable : List Message := commandNames.map fun cmd => ⟨cmd, cmd, maxPara, false, false, Nat.le_refl _⟩

lemma sampleTable_names : sampleTable.map Message.cmd = commandNames := by
  rw [sampleTable, map_map]
  exact List.map_id _

end Nefarious.Parse
