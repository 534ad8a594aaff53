import Nefarious.Lib.Chains
import Nefarious.Network.State

/-!
# The hash tables

Clients, channels and watches are found by name in three tables of chains.

Names: `hash.c`.
-/

namespace Nefarious.Hash

open Function (update update_of_ne update_self)

open Lib.Chains Network

/-! ## The source functions -/

/-- The address of a client, a channel or a watch. -/
abbrev Ptr := ℕ

/-- The tables, with the links, the names and the status of the objects. `clientTable`, `channelTable`,
`watchTable` -/
structure HashTables where
  crc32hash : ℕ → ℕ
  /-- Hash table for clients; `cli_hnext`. -/
  clientTable : Table ℕ Ptr
  /-- Hash table for channels; `hnext`. -/
  channelTable : Table ℕ Ptr
  /-- Hash table for watches; `wt_next`. -/
  watchTable : Table ℕ Ptr
  cli_name : Ptr → Str
  cli_status : Ptr → ℕ
  chname : Ptr → Str
  wt_nick : Ptr → Str

/-- The hash value of a text in memory, with the bytes behind it. `strhash` -/
def hashAt (crc : ℕ → ℕ) (past : Str) (n : Str) : ℕ :=
  if n = [] then strhash crc (Char.ofNat 0 :: past) else strhash crc n

/-- Prepend a client to the appropriate hash bucket. -/
def hAddClient (s : HashTables) (cptr : Ptr) : HashTables :=
  { s with clientTable := s.clientTable.push (strhash s.crc32hash (s.cli_name cptr)) cptr }

/-- Prepend a channel to the appropriate hash bucket. -/
def hAddChannel (s : HashTables) (chptr : Ptr) : HashTables :=
  { s with channelTable := s.channelTable.push (strhash s.crc32hash (s.chname chptr)) chptr }

/-- Prepend a watch's nick to the appropriate hash bucket. -/
def hAddWatch (s : HashTables) (wptr : Ptr) : HashTables :=
  { s with watchTable := s.watchTable.push (strhash s.crc32hash (s.wt_nick wptr)) wptr }

/-- Remove a client from its hash bucket; the result is whether it is found. `n` bounds the walk, `past` are the
bytes behind the name. -/
def hRemClient (n : ℕ) (past : Str) (s : HashTables) (cptr : Ptr) : Option (HashTables × Bool) := do
  let r ← s.clientTable.remove n (hashAt s.crc32hash past (s.cli_name cptr)) cptr
  some ({ s with clientTable := r.1 }, r.2)

/-- Remove a channel from its hash bucket. -/
def hRemChannel (n : ℕ) (past : Str) (s : HashTables) (chptr : Ptr) : Option (HashTables × Bool) := do
  let r ← s.channelTable.remove n (hashAt s.crc32hash past (s.chname chptr)) chptr
  some ({ s with channelTable := r.1 }, r.2)

/-- Remove a watch from its hash bucket. -/
def hRemWatch (n : ℕ) (past : Str) (s : HashTables) (wptr : Ptr) : Option (HashTables × Bool) := do
  let r ← s.watchTable.remove n (hashAt s.crc32hash past (s.wt_nick wptr)) wptr
  some ({ s with watchTable := r.1 }, r.2)

/-- Rename a client in the hash table; the caller writes the name. -/
def hChangeClient (n : ℕ) (past : Str) (s : HashTables) (cptr : Ptr) (newname : Str) : Option HashTables := do
  let newhash := strhash s.crc32hash newname
  let r ← hRemClient n past s cptr
  some { r.1 with clientTable := r.1.clientTable.push newhash cptr }

/-- Find a client by name, filtered by status mask; it is moved to the top of its hash bucket. -/
def hSeekClient (n : ℕ) (past : Str) (s : HashTables) (name : Str) (TMask : ℕ) :
    Option (HashTables × Option Ptr) := do
  let r ← s.clientTable.seek n (hashAt s.crc32hash past name)
    (fun cptr => s.cli_status cptr &&& TMask ≠ 0 ∧ ircdStrcmp name (s.cli_name cptr) = 0)
  some ({ s with clientTable := r.1 }, r.2)

/-- Find a channel by name; it is moved to the top of its hash bucket. -/
def hSeekChannel (n : ℕ) (past : Str) (s : HashTables) (name : Str) : Option (HashTables × Option Ptr) := do
  let r ← s.channelTable.seek n (hashAt s.crc32hash past name)
    (fun chptr => ircdStrcmp name (s.chname chptr) = 0)
  some ({ s with channelTable := r.1 }, r.2)

/-- Find a watch by nick; it is moved to the top of its hash bucket. -/
def hSeekWatch (n : ℕ) (past : Str) (s : HashTables) (nick : Str) : Option (HashTables × Option Ptr) := do
  let r ← s.watchTable.seek n (hashAt s.crc32hash past nick)
    (fun wptr => ircdStrcmp nick (s.wt_nick wptr) = 0)
  some ({ s with watchTable := r.1 }, r.2)

/-! ## One table -/

/-- The table keeps the objects `reg`: each stands in the chain of its name, once, and no other object
stands in a chain. -/
structure Keeps (crc : ℕ → ℕ) (t : Table ℕ Ptr) (name : Ptr → Str) (reg : List Ptr)
    (lists : ℕ → List Ptr) : Prop where
  holds : t.Holds (fun x => strhash crc (name x)) lists
  mem : ∀ x, x ∈ lists (strhash crc (name x)) ↔ x ∈ reg
  named : ∀ x ∈ reg, name x ≠ [] ∧ IsCStr (name x)

section Keeps

variable {crc : ℕ → ℕ} {t : Table ℕ Ptr} {name : Ptr → Str} {reg : List Ptr} {lists : ℕ → List Ptr}

lemma Keeps.length_lt (h : Keeps crc t name reg lists) (b : ℕ) : (lists b).length < reg.length + 1 := by
  have hsub : lists b ⊆ reg := by
    intro x hx
    have hb := h.holds.placed b x hx
    exact (h.mem x).mp (by rwa [hb])
  exact Nat.lt_succ_of_le (List.subperm_of_subset (h.holds.nodup b) hsub).length_le

lemma hashAt_of_ne {past n : Str} (h : n ≠ []) : hashAt crc past n = strhash crc n := if_neg h

lemma Keeps.add {x : Ptr} (h : Keeps crc t name reg lists) (hx : x ∉ reg) (hne : name x ≠ [])
    (hstr : IsCStr (name x)) : ∃ lists', Keeps crc (t.push (strhash crc (name x)) x) name (x :: reg)
      lists' := by
  have hout : x ∉ lists (strhash crc (name x)) := fun hm => hx ((h.mem x).mp hm)
  refine ⟨_, h.holds.push hout, fun y => ?_, fun y hy => ?_⟩
  · by_cases e : strhash crc (name y) = strhash crc (name x)
    · rw [e, update_self, List.mem_cons, List.mem_cons, ← e, h.mem]
    · rw [update_of_ne e, h.mem, List.mem_cons]
      have hyx : y ≠ x := fun e' => e (by rw [e'])
      simp [hyx]
  · rcases List.mem_cons.mp hy with rfl | hy
    · exact ⟨hne, hstr⟩
    · exact h.named y hy

lemma Keeps.write {x : Ptr} {n : Str} (h : Keeps crc t name reg lists)
    (hn : x ∈ reg → n ≠ [] ∧ IsCStr n ∧ strhash crc n = strhash crc (name x)) :
    Keeps crc t (update name x n) reg lists := by
  have hname : ∀ y, y ≠ x → update name x n y = name y := fun y hy => update_of_ne hy ..
  by_cases hx : x ∈ reg
  · obtain ⟨hne, hstr, hhash⟩ := hn hx
    have hplace : (fun y => strhash crc (update name x n y)) =
        fun y => strhash crc (name y) := by
      funext y
      by_cases e : y = x
      · rw [e, update_self, hhash]
      · rw [hname y e]
    refine ⟨by rw [hplace]; exact h.holds, fun y => ?_, fun y hy => ?_⟩
    · rw [show strhash crc (update name x n y) = _ from congrFun hplace y]
      exact h.mem y
    · by_cases e : y = x
      · rw [e, update_self]
        exact ⟨hne, hstr⟩
      · rw [hname y e]
        exact h.named y hy
  · have hout : ∀ b, x ∉ lists b := fun b hb => hx ((h.mem x).mp (by rwa [h.holds.placed b x hb]))
    refine ⟨h.holds.replace _ (hout _) fun y hy => by rw [hname y hy], fun y => ?_, fun y hy => ?_⟩
    · by_cases e : y = x
      · rw [e]
        exact iff_of_false (hout _) hx
      · rw [hname y e]
        exact h.mem y
    · have e : y ≠ x := fun e => hx (e ▸ hy)
      rw [hname y e]
      exact h.named y hy

lemma Keeps.remove (h : Keeps crc t name reg lists) (hreg : reg.Nodup) (past : Str) (x : Ptr) :
    ∃ t' lists', t.remove (reg.length + 1) (hashAt crc past (name x)) x = some (t', decide (x ∈ reg)) ∧
      Keeps crc t' name (reg.erase x) lists' := by
  by_cases hx : x ∈ reg
  · obtain ⟨hne, -⟩ := h.named x hx
    rw [hashAt_of_ne hne]
    obtain ⟨t', ht', hholds⟩ := h.holds.remove x (h.length_lt _)
    refine ⟨t', _, ?_, hholds, fun y => ?_, fun y hy => h.named y (List.mem_of_mem_erase hy)⟩
    · rw [ht', decide_eq_true ((h.mem x).mpr hx), decide_eq_true hx]
    · rw [hreg.mem_erase_iff, ← h.mem y]
      by_cases e : strhash crc (name y) = strhash crc (name x)
      · rw [e, update_self, (h.holds.nodup _).mem_erase_iff]
      · rw [update_of_ne e]
        have hyx : y ≠ x := fun e' => e (by rw [e'])
        simp [hyx]
  · have hout : ∀ b, x ∉ lists b := fun b hb => hx ((h.mem x).mp (by rwa [h.holds.placed b x hb]))
    -- an object that is in no chain may have any place, also the one that is searched
    have hplace := h.holds.replace (update (fun y => strhash crc (name y)) x
      (hashAt crc past (name x))) (hout _) fun y hy => update_of_ne hy ..
    obtain ⟨t', ht', hholds⟩ := hplace.remove x (n := reg.length + 1) (h.length_lt _)
    rw [update_self] at ht' hholds
    rw [List.erase_of_not_mem (hout _), Function.update_eq_self] at hholds
    refine ⟨t', lists, ?_, ⟨hholds.replace _ (hout _) fun y hy => by rw [update_of_ne hy],
      ?_, ?_⟩⟩
    · rw [ht', decide_eq_false (hout _), decide_eq_false hx]
    · rw [List.erase_of_not_mem hx]
      exact h.mem
    · rw [List.erase_of_not_mem hx]
      exact h.named

lemma Keeps.seek (h : Keeps crc t name reg lists) (past : Str) {n : Str} (hn : IsCStr n) (hit : Ptr → Bool)
    (hhit : ∀ y, hit y = true → ircdStrcmp n (name y) = 0) : ∃ t' r lists',
    t.seek (reg.length + 1) (hashAt crc past n) hit = some (t', r) ∧ Keeps crc t' name reg lists' ∧ (∀ c, r =
    some c → c ∈ reg ∧ hit c = true) ∧ (r = none → ∀ y ∈ reg, ¬hit y = true) := by
  obtain ⟨t', r, hseek, hr⟩ := h.holds.seek hit (h.length_lt (hashAt crc past n))
  rcases hr with ⟨rfl, rfl, hno⟩ | ⟨c, rfl, hc, hhitc, hholds⟩
  · refine ⟨t', none, lists, hseek, h, fun _ hc => (nomatch hc), fun _ y hy hhity => ?_⟩
    obtain ⟨hne, hstr⟩ := h.named y hy
    have hfold := (ircdStrcmp_eq_zero_iff n (name y) hn hstr).mp (hhit y hhity)
    have hnne : n ≠ [] := by
      rintro rfl
      exact hne (List.map_eq_nil_iff.mp hfold.symm)
    refine hno y ?_ hhity
    rw [hashAt_of_ne hnne, strhash_congr crc hfold]
    exact (h.mem y).mpr hy
  · have hmem : ∀ y, y ∈ c :: (lists (hashAt crc past n)).erase c ↔ y ∈ lists (hashAt crc past n) :=
      fun y => (List.perm_cons_erase hc).symm.mem_iff
    refine ⟨t', some c, _, hseek, ⟨hholds, fun y => ?_, h.named⟩, fun d hd => ?_,
      fun hd => (nomatch hd)⟩
    · by_cases e : strhash crc (name y) = hashAt crc past n
      · rw [e, update_self, hmem, ← e]
        exact h.mem y
      · rw [update_of_ne e]
        exact h.mem y
    · obtain rfl := Option.some.inj hd
      exact ⟨(h.mem c).mp (by rwa [h.holds.placed _ c hc]), hhitc⟩

lemma Keeps.change (h : Keeps crc t name reg lists) (hreg : reg.Nodup) (past : Str) (x : Ptr) {n : Str}
    (hne : n ≠ []) (hstr : IsCStr n) : ∃ t' ok lists', t.remove (reg.length + 1) (hashAt crc past (name x)) x =
    some (t', ok) ∧ Keeps crc (t'.push (strhash crc n) x) (update name x n) (x :: reg.erase x) lists' := by
  obtain ⟨t', lists₁, ht', h₁⟩ := h.remove hreg past x
  have hout : x ∉ reg.erase x := hreg.not_mem_erase
  obtain ⟨lists₂, h₂⟩ := (h₁.write (n := n) fun hx => absurd hx hout).add hout
    (by rwa [update_self]) (by rwa [update_self])
  rw [update_self] at h₂
  exact ⟨t', _, lists₂, ht', h₂⟩

end Keeps

/-! ## Runs -/

/-- The tables, and the objects that were added and not removed. -/
structure State extends HashTables where
  clients : List Ptr
  channels : List Ptr
  watches : List Ptr

/-- The tables are empty; the memory of the objects is arbitrary. `init_hash`. -/
def State.start (crc : ℕ → ℕ) (cli_name : Ptr → Str) (cli_status : Ptr → ℕ)
    (chname wt_nick : Ptr → Str) : State where
  crc32hash := crc
  clientTable := ⟨fun _ => none, fun _ => none⟩
  channelTable := ⟨fun _ => none, fun _ => none⟩
  watchTable := ⟨fun _ => none, fun _ => none⟩
  cli_name := cli_name
  cli_status := cli_status
  chname := chname
  wt_nick := wt_nick
  clients := []
  channels := []
  watches := []

/-- What is done with the tables, and with the names. -/
inductive Op
  | nameClient (cptr : Ptr) (name : Str)
  | setStatus (cptr : Ptr) (status : ℕ)
  | hAddClient (cptr : Ptr)
  | hRemClient (past : Str) (cptr : Ptr)
  /-- And the name is written. `hChangeClient`; `m_server.c` `mr_server`. -/
  | hChangeClient (past : Str) (cptr : Ptr) (newname : Str)
  | hSeekClient (past : Str) (name : Str) (TMask : ℕ)
  | nameChannel (chptr : Ptr) (name : Str)
  | hAddChannel (chptr : Ptr)
  | hRemChannel (past : Str) (chptr : Ptr)
  | hSeekChannel (past : Str) (name : Str)
  | nameWatch (wptr : Ptr) (nick : Str)
  | hAddWatch (wptr : Ptr)
  | hRemWatch (past : Str) (wptr : Ptr)
  | hSeekWatch (past : Str) (nick : Str)

/-- An object may be added when it is in no chain and has a name. `hash.h`. -/
def mayAdd (reg : List Ptr) (x : Ptr) (name : Str) : Bool := x ∉ reg ∧ name ≠ [] ∧ IsCStr name

/-- The name of an object in a chain is only written to change its case. `m_server.c` `mr_server`. -/
def mayName (reg : List Ptr) (x : Ptr) (old new : Str) : Bool :=
  x ∈ reg → new ≠ [] ∧ IsCStr new ∧ ircdStrcmp new old = 0

/-- What the callers keep to: an object is added once, with a name; a name in a table is not overwritten.
Removals and searches are free. `hash.h`. -/
def State.allowed (s : State) : Op → Bool
  | .nameClient x n => mayName s.clients x (s.cli_name x) n
  | .hAddClient x => mayAdd s.clients x (s.cli_name x)
  | .hChangeClient _ _ n => n ≠ [] ∧ IsCStr n
  | .hSeekClient _ n _ => IsCStr n
  | .nameChannel x n => mayName s.channels x (s.chname x) n
  | .hAddChannel x => mayAdd s.channels x (s.chname x)
  | .hSeekChannel _ n => IsCStr n
  | .nameWatch x n => mayName s.watches x (s.wt_nick x) n
  | .hAddWatch x => mayAdd s.watches x (s.wt_nick x)
  | .hSeekWatch _ n => IsCStr n
  | _ => true

/-- Do it; no walk goes through more nodes than there are objects. -/
def State.exec (s : State) : Op → Option State
  | .nameClient x n => some { s with cli_name := update s.cli_name x n }
  | .setStatus x st => some { s with cli_status := update s.cli_status x st }
  | .hAddClient x => some { s with
      toHashTables := hAddClient s.toHashTables x, clients := x :: s.clients }
  | .hRemClient past x => do
      let r ← hRemClient (s.clients.length + 1) past s.toHashTables x
      some { s with toHashTables := r.1, clients := s.clients.erase x }
  | .hChangeClient past x n => do
      let r ← hChangeClient (s.clients.length + 1) past s.toHashTables x n
      some { s with
        toHashTables := { r with cli_name := update r.cli_name x n }
        clients := x :: s.clients.erase x }
  | .hSeekClient past n mask => do
      let r ← hSeekClient (s.clients.length + 1) past s.toHashTables n mask
      some { s with toHashTables := r.1 }
  | .nameChannel x n => some { s with chname := update s.chname x n }
  | .hAddChannel x => some { s with
      toHashTables := hAddChannel s.toHashTables x, channels := x :: s.channels }
  | .hRemChannel past x => do
      let r ← hRemChannel (s.channels.length + 1) past s.toHashTables x
      some { s with toHashTables := r.1, channels := s.channels.erase x }
  | .hSeekChannel past n => do
      let r ← hSeekChannel (s.channels.length + 1) past s.toHashTables n
      some { s with toHashTables := r.1 }
  | .nameWatch x n => some { s with wt_nick := update s.wt_nick x n }
  | .hAddWatch x => some { s with
      toHashTables := hAddWatch s.toHashTables x, watches := x :: s.watches }
  | .hRemWatch past x => do
      let r ← hRemWatch (s.watches.length + 1) past s.toHashTables x
      some { s with toHashTables := r.1, watches := s.watches.erase x }
  | .hSeekWatch past n => do
      let r ← hSeekWatch (s.watches.length + 1) past s.toHashTables n
      some { s with toHashTables := r.1 }

def State.run (s : State) : List Op → Option State
  | [] => some s
  | op :: ops => if s.allowed op then do (← s.exec op).run ops else none

/-- One of the tables of a state. -/
structure Good (crc : ℕ → ℕ) (t : Table ℕ Ptr) (name : Ptr → Str) (reg : List Ptr) : Prop where
  keeps : ∃ lists, Keeps crc t name reg lists
  nodup : reg.Nodup

/-- All of them. -/
structure State.Good (s : State) : Prop where
  clients : Hash.Good s.crc32hash s.clientTable s.cli_name s.clients
  channels : Hash.Good s.crc32hash s.channelTable s.chname s.channels
  watches : Hash.Good s.crc32hash s.watchTable s.wt_nick s.watches

section Good

variable {crc : ℕ → ℕ} {t : Table ℕ Ptr} {name : Ptr → Str} {reg : List Ptr} {x : Ptr} {n : Str}

lemma Good.empty (crc : ℕ → ℕ) (name : Ptr → Str) : Good crc ⟨fun _ => none, fun _ => none⟩ name [] :=
  ⟨⟨fun _ => [], ⟨fun _ => rfl, fun _ _ h => absurd h List.not_mem_nil, fun _ => List.nodup_nil⟩,
    fun _ => Iff.rfl, fun _ h => absurd h List.not_mem_nil⟩, List.nodup_nil⟩

lemma Good.add (h : Good crc t name reg) (hx : mayAdd reg x (name x) = true) :
    Good crc (t.push (strhash crc (name x)) x) name (x :: reg) := by
  obtain ⟨lists, hk⟩ := h.keeps
  obtain ⟨hout, hne, hstr⟩ := of_decide_eq_true hx
  exact ⟨hk.add hout hne hstr, List.nodup_cons.mpr ⟨hout, h.nodup⟩⟩

lemma Good.write (h : Good crc t name reg) (hx : mayName reg x (name x) n = true) :
    Good crc t (update name x n) reg := by
  obtain ⟨lists, hk⟩ := h.keeps
  have hx := of_decide_eq_true hx
  refine ⟨⟨lists, hk.write fun hmem => ?_⟩, h.nodup⟩
  obtain ⟨hne, hstr, hcmp⟩ := hx hmem
  exact ⟨hne, hstr, strhash_congr crc ((ircdStrcmp_eq_zero_iff _ _ hstr (hk.named x hmem).2).mp hcmp)⟩

lemma Good.remove (h : Good crc t name reg) (past : Str) (x : Ptr) :
    ∃ t', t.remove (reg.length + 1) (hashAt crc past (name x)) x = some (t', decide (x ∈ reg)) ∧
      Good crc t' name (reg.erase x) := by
  obtain ⟨lists, hk⟩ := h.keeps
  obtain ⟨t', lists', ht', hk'⟩ := hk.remove h.nodup past x
  exact ⟨t', ht', ⟨lists', hk'⟩, h.nodup.erase x⟩

lemma Good.seek (h : Good crc t name reg) (past : Str) (hn : IsCStr n) (hit : Ptr → Bool)
    (hhit : ∀ y, hit y = true → ircdStrcmp n (name y) = 0) :
    ∃ t' r, t.seek (reg.length + 1) (hashAt crc past n) hit = some (t', r) ∧ Good crc t' name reg ∧
      (∀ c, r = some c → c ∈ reg ∧ hit c = true) ∧ (r = none → ∀ y ∈ reg, ¬hit y = true) := by
  obtain ⟨lists, hk⟩ := h.keeps
  obtain ⟨t', r, lists', hseek, hk', hr⟩ := hk.seek past hn hit hhit
  exact ⟨t', r, hseek, ⟨⟨lists', hk'⟩, h.nodup⟩, hr⟩

lemma Good.change (h : Good crc t name reg) (past : Str) (x : Ptr) (hne : n ≠ []) (hstr : IsCStr n) :
    ∃ t' ok, t.remove (reg.length + 1) (hashAt crc past (name x)) x = some (t', ok) ∧
      Good crc (t'.push (strhash crc n) x) (update name x n) (x :: reg.erase x) := by
  obtain ⟨lists, hk⟩ := h.keeps
  obtain ⟨t', ok, lists', ht', hk'⟩ := hk.change h.nodup past x hne hstr
  exact ⟨t', ok, ht', ⟨lists', hk'⟩, List.nodup_cons.mpr ⟨h.nodup.not_mem_erase, h.nodup.erase x⟩⟩

end Good

lemma State.Good.start (crc : ℕ → ℕ) (cli_name : Ptr → Str) (cli_status : Ptr → ℕ)
    (chname wt_nick : Ptr → Str) : (State.start crc cli_name cli_status chname wt_nick).Good :=
  ⟨Hash.Good.empty crc cli_name, Hash.Good.empty crc chname, Hash.Good.empty crc wt_nick⟩

lemma State.Good.exec {s : State} (h : s.Good) (op : Op) (hop : s.allowed op = true) :
    ∃ t, s.exec op = some t ∧ t.Good := by
  obtain ⟨hclients, hchannels, hwatches⟩ := h
  cases op with
  | nameClient x n => exact ⟨_, rfl, hclients.write hop, hchannels, hwatches⟩
  | setStatus x st => exact ⟨_, rfl, hclients, hchannels, hwatches⟩
  | hAddClient x => exact ⟨_, rfl, hclients.add hop, hchannels, hwatches⟩
  | hRemClient past x =>
    obtain ⟨t', ht', hgood⟩ := hclients.remove past x
    refine ⟨{ s with clientTable := t', clients := s.clients.erase x }, ?_, hgood, hchannels, hwatches⟩
    rw [State.exec, Hash.hRemClient, ht']
    rfl
  | hChangeClient past x n =>
    obtain ⟨hne, hstr⟩ := of_decide_eq_true hop
    obtain ⟨t', ok, ht', hgood⟩ := hclients.change past x hne hstr
    refine ⟨{ s with
      clientTable := t'.push (strhash s.crc32hash n) x
      cli_name := update s.cli_name x n
      clients := x :: s.clients.erase x }, ?_, hgood, hchannels, hwatches⟩
    rw [State.exec, Hash.hChangeClient, Hash.hRemClient, ht']
    rfl
  | hSeekClient past n mask =>
    obtain ⟨t', r, ht', hgood, -⟩ := hclients.seek past (of_decide_eq_true hop)
      (fun y => s.cli_status y &&& mask ≠ 0 ∧ ircdStrcmp n (s.cli_name y) = 0)
      fun y hy => (of_decide_eq_true hy).2
    refine ⟨{ s with clientTable := t' }, ?_, hgood, hchannels, hwatches⟩
    rw [State.exec, Hash.hSeekClient, ht']
    rfl
  | nameChannel x n => exact ⟨_, rfl, hclients, hchannels.write hop, hwatches⟩
  | hAddChannel x => exact ⟨_, rfl, hclients, hchannels.add hop, hwatches⟩
  | hRemChannel past x =>
    obtain ⟨t', ht', hgood⟩ := hchannels.remove past x
    refine ⟨{ s with channelTable := t', channels := s.channels.erase x }, ?_, hclients, hgood, hwatches⟩
    rw [State.exec, Hash.hRemChannel, ht']
    rfl
  | hSeekChannel past n =>
    obtain ⟨t', r, ht', hgood, -⟩ := hchannels.seek past (of_decide_eq_true hop)
      (fun y => ircdStrcmp n (s.chname y) = 0) fun y hy => of_decide_eq_true hy
    refine ⟨{ s with channelTable := t' }, ?_, hclients, hgood, hwatches⟩
    rw [State.exec, Hash.hSeekChannel, ht']
    rfl
  | nameWatch x n => exact ⟨_, rfl, hclients, hchannels, hwatches.write hop⟩
  | hAddWatch x => exact ⟨_, rfl, hclients, hchannels, hwatches.add hop⟩
  | hRemWatch past x =>
    obtain ⟨t', ht', hgood⟩ := hwatches.remove past x
    refine ⟨{ s with watchTable := t', watches := s.watches.erase x }, ?_, hclients, hchannels, hgood⟩
    rw [State.exec, Hash.hRemWatch, ht']
    rfl
  | hSeekWatch past n =>
    obtain ⟨t', r, ht', hgood, -⟩ := hwatches.seek past (of_decide_eq_true hop)
      (fun y => ircdStrcmp n (s.wt_nick y) = 0) fun y hy => of_decide_eq_true hy
    refine ⟨{ s with watchTable := t' }, ?_, hclients, hchannels, hgood⟩
    rw [State.exec, Hash.hSeekWatch, ht']
    rfl

lemma State.Good.run : (ops : List Op) → ∀ {s t : State}, s.Good → s.run ops = some t → t.Good
  | [], _, _, h, hrun => by
    cases hrun
    exact h
  | op :: ops, s, t, h, hrun => by
    rw [State.run] at hrun
    by_cases hop : s.allowed op = true
    · rw [if_pos hop] at hrun
      obtain ⟨u, hu, hrun⟩ := Option.bind_eq_some_iff.mp hrun
      obtain ⟨u', hu', hgood⟩ := h.exec op hop
      obtain rfl := Option.some.inj (hu.symm.trans hu')
      exact State.Good.run ops hgood hrun
    · rw [if_neg hop] at hrun
      cases hrun

/-! ## What the tables say -/

/-- Each object of `reg` stands in exactly one chain, that of its name, once, and nothing else stands
in a chain. -/
def Consistent (crc : ℕ → ℕ) (t : Table ℕ Ptr) (name : Ptr → Str) (reg : List Ptr) : Prop :=
  ∃ lists : ℕ → List Ptr, (∀ b, Path t.next (t.head b) (lists b)) ∧
    (∀ x ∈ reg, (lists (strhash crc (name x))).count x = 1 ∧ ∀ b, b ≠ strhash crc (name x) → x ∉ lists b) ∧
    ∀ b, ∀ x ∈ lists b, x ∈ reg

/-- A search finds one of the objects that have the property, and finds one if there is one. -/
def Finds (r : Option Ptr) (reg : List Ptr) (p : Ptr → Prop) : Prop :=
  (∀ c, r = some c → c ∈ reg ∧ p c) ∧ ((∃ c, r = some c) ↔ ∃ c ∈ reg, p c)

section Finds

variable {crc : ℕ → ℕ} {t : Table ℕ Ptr} {name : Ptr → Str} {reg : List Ptr} {n : Str}

lemma Good.consistent (h : Good crc t name reg) : Consistent crc t name reg := by
  obtain ⟨lists, hk⟩ := h.keeps
  refine ⟨lists, hk.holds.path, fun x hx => ⟨?_, fun b hb hmem => ?_⟩, fun b x hx => ?_⟩
  · exact List.count_eq_one_of_mem (hk.holds.nodup _) ((hk.mem x).mpr hx)
  · exact hb (hk.holds.placed b x hmem).symm
  · exact (hk.mem x).mp (by rwa [hk.holds.placed b x hx])

lemma Good.finds (h : Good crc t name reg) (past : Str) (hn : IsCStr n) {p : Ptr → Prop} [DecidablePred p]
    (hp : ∀ y, p y → ircdStrcmp n (name y) = 0) : ∃ t' r,
    t.seek (reg.length + 1) (hashAt crc past n) (fun y => p y) = some (t', r) ∧ Finds r reg p := by
  obtain ⟨t', r, hseek, -, hsome, hnone⟩ := h.seek past hn (fun y => p y)
    fun y hy => hp y (of_decide_eq_true hy)
  have hfound : ∀ c, r = some c → c ∈ reg ∧ p c := fun c hc =>
    ⟨(hsome c hc).1, of_decide_eq_true (hsome c hc).2⟩
  refine ⟨t', r, hseek, hfound, fun ⟨c, hc⟩ => ⟨c, hfound c hc⟩, fun ⟨c, hc, hpc⟩ => ?_⟩
  cases hr : r with
  | none => exact absurd (decide_eq_true hpc) (hnone hr c hc)
  | some d => exact ⟨d, rfl⟩

end Finds

/-- **The hash tables are consistent in every run**: each object that was added and not removed stands in
exactly one chain, that of its name, once, and nothing else stands in a chain; a search returns an object with
the name, up to case, and with one of the status bits, if there is one; and every function returns. -/
theorem tables_consistent (crc : ℕ → ℕ) (cli_name : Ptr → Str) (cli_status : Ptr → ℕ)
    (chname wt_nick : Ptr → Str) (ops : List Op) (s : State)
    (hrun : (State.start crc cli_name cli_status chname wt_nick).run ops = some s) :
    Consistent s.crc32hash s.clientTable s.cli_name s.clients ∧
    Consistent s.crc32hash s.channelTable s.chname s.channels ∧
    Consistent s.crc32hash s.watchTable s.wt_nick s.watches ∧ (∀ past n, IsCStr n →
    (∀ TMask, ∃ t r, hSeekClient (s.clients.length + 1) past s.toHashTables n TMask = some (t, r) ∧
    Finds r s.clients fun c => s.cli_status c &&& TMask ≠ 0 ∧ ircdStrcmp n (s.cli_name c) = 0) ∧
    (∃ t r, hSeekChannel (s.channels.length + 1) past s.toHashTables n = some (t, r) ∧
    Finds r s.channels fun c => ircdStrcmp n (s.chname c) = 0) ∧ ∃ t r,
    hSeekWatch (s.watches.length + 1) past s.toHashTables n = some (t, r) ∧
    Finds r s.watches fun c => ircdStrcmp n (s.wt_nick c) = 0) ∧ ∀ op, s.allowed op = true → ∃ t, s.exec op =
    some t := by
  have h : s.Good := (State.Good.start crc cli_name cli_status chname wt_nick).run ops hrun
  refine ⟨h.clients.consistent, h.channels.consistent, h.watches.consistent,
    fun past n hn => ⟨fun mask => ?_, ?_, ?_⟩, fun op hop => ?_⟩
  · obtain ⟨t, r, hseek, hr⟩ := h.clients.finds past hn
      (p := fun c => s.cli_status c &&& mask ≠ 0 ∧ ircdStrcmp n (s.cli_name c) = 0) fun y hy => hy.2
    refine ⟨{ s.toHashTables with clientTable := t }, r, ?_, hr⟩
    rw [hSeekClient, hseek]
    rfl
  · obtain ⟨t, r, hseek, hr⟩ := h.channels.finds past hn
      (p := fun c => ircdStrcmp n (s.chname c) = 0) fun y hy => hy
    refine ⟨{ s.toHashTables with channelTable := t }, r, ?_, hr⟩
    rw [hSeekChannel, hseek]
    rfl
  · obtain ⟨t, r, hseek, hr⟩ := h.watches.finds past hn
      (p := fun c => ircdStrcmp n (s.wt_nick c) = 0) fun y hy => hy
    refine ⟨{ s.toHashTables with watchTable := t }, r, ?_, hr⟩
    rw [hSeekWatch, hseek]
    rfl
  · obtain ⟨t, ht, -⟩ := h.exec op hop
    exact ⟨t, ht⟩

/-- Two clients are added and one is renamed; it is found by its new name. -/
theorem tables_consistent_example : ∃ s,
    (State.start crc32 (fun _ => []) (fun _ => 1) (fun _ => []) (fun _ => [])).run [.nameClient 1 ['a'],
    .hAddClient 1, .nameClient 2 ['b'], .hAddClient 2, .hChangeClient [] 1 ['C'], .hSeekClient [] ['B'] 1] =
    some s ∧ Consistent s.crc32hash s.clientTable s.cli_name s.clients ∧ ∃ t r,
    hSeekClient (s.clients.length + 1) [] s.toHashTables ['c'] 1 = some (t, r) ∧
    Finds r s.clients fun c => s.cli_status c &&& 1 ≠ 0 ∧ ircdStrcmp ['c'] (s.cli_name c) = 0 := by
  obtain ⟨s, hs⟩ := Option.isSome_iff_exists.mp (show
    ((State.start crc32 (fun _ => []) (fun _ => 1) (fun _ => []) (fun _ => [])).run
      [.nameClient 1 ['a'], .hAddClient 1, .nameClient 2 ['b'], .hAddClient 2,
        .hChangeClient [] 1 ['C'], .hSeekClient [] ['B'] 1]).isSome = true by decide +kernel)
  have h := tables_consistent crc32 (fun _ => []) (fun _ => 1) (fun _ => []) (fun _ => []) _ s hs
  exact ⟨s, hs, h.1, (h.2.2.2.1 [] ['c'] (by decide)).1 1⟩

end Nefarious.Hash
