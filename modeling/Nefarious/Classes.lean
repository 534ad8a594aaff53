import Nefarious.Lib.Held
import Nefarious.Lib.Runs
import Nefarious.Strings

/-!
# Connection classes

The configuration items of a client are attached to it, and each names a class. A step is undefined when it uses
an item or a class that was freed, when memory that is in use is allocated, and when the literal name of the
first class is freed.

Names: `s_conf.c`.
-/

namespace Nefarious.Classes

open Option (any_eq_true bind_eq_some_iff map_eq_some_iff some.inj)
open Function (update update_of_ne update_self)

open List (mem_cons mem_cons_of_mem mem_cons_self mem_filter not_mem_nil)

open Lib Lib.Held

/-! ## The source functions -/

/-- Delete the ConfItem when no remaining clients. `s_conf.h`. -/
def confIllegal : ℕ := 0x80000000

/-- ConfItem describes a Client block. `s_conf.h`. -/
def confClient : ℕ := 0x0002

/-- ConfItem describes a Connect block. `s_conf.h`. -/
def confServer : ℕ := 0x0004

/-- ConfItem describes an Operator block. `s_conf.h`. -/
def confOperator : ℕ := 0x0020

/-- ConfItem describes a Uworld server. `s_conf.h`. -/
def confUworld : ℕ := 0x8000

/-- Conf types that describe clients. `s_conf.h`. -/
def confClientMask : ℕ := confClient ||| confOperator ||| confServer

/-- A connection class. `class.h` `struct ConnectionClass`. -/
structure ConnectionClass where
  ccName : Str
  maxLinks : ℕ
  refCount : ℕ
  /-- Cleared after this class is removed from the config. -/
  valid : Bool

/-- A configuration item. `s_conf.h` `struct ConfItem`. -/
structure ConfItem where
  status : ℕ
  connClass : Option ℕ
  /-- Number of *LOCAL* clients using this. -/
  clients : ℕ

/-- `IsIllegal`. -/
def ConfItem.isIllegal (aconf : ConfItem) : Bool := aconf.status &&& confIllegal ≠ 0

/-- An item of some types, of a class. -/
def ConfItem.isFor (mask c : ℕ) (aconf : ConfItem) : Bool :=
  aconf.status &&& mask ≠ 0 ∧ aconf.connClass = some c

/-- Classes, items and clients; a class, an item and a client are given by their addresses. `class.c`. -/
structure State where
  /-- The first class of `connClassList`. -/
  default : ℕ
  others : List ℕ
  cls : ℕ → ConnectionClass
  items : List ℕ
  item : ℕ → ConfItem
  globalConfList : List ℕ
  /-- The `aconf_list` of `auth_find_class_conf`. -/
  aconfList : List ℕ
  clients : Finset ℕ
  confs : ℕ → List ℕ
  maximumLinks : ℕ

def State.connClassList (s : State) : List ℕ := s.default :: s.others

/-- The class called "default" gets its values from the features. -/
def initClass (s : State) : State :=
  { s with
    cls := update s.cls s.default
      { ccName := "default".toList, maxLinks := s.maximumLinks, refCount := 1, valid := true } }

/-- Mark current connection classes as invalid. -/
def classMarkDelete (s : State) : State :=
  { s with cls := fun p => if p ∈ s.others then { s.cls p with valid := false } else s.cls p }

/-- Free invalid connection classes that have no links. -/
def classDeleteMarked (s : State) : Option State :=
  if (s.cls s.default).valid ∨ 1 < (s.cls s.default).refCount then
    some { s with others := s.others.filter fun cl => (s.cls cl).valid ∨ 1 < (s.cls cl).refCount }
  else none

def doFindClass (s : State) (name : Str) (extras : Bool) : Option ℕ :=
  s.connClassList.find? fun p =>
    ((s.cls p).valid || extras) && ircdStrcmp (s.cls p).ccName name = 0

/-- Make sure there is a class of this name, with a maximum link count. A new class is put at `p`. `add_class`, `make_class` -/
def addClass (s : State) (name : Str) (maxli p : ℕ) : Option State :=
  match doFindClass s name true with
  | some q =>
    if q = s.default then none
    else some { s with
      cls := update s.cls q
        { s.cls q with ccName := name, maxLinks := maxli, valid := true } }
  | none =>
    if p ∈ s.connClassList then none
    else some { s with
      others := p :: s.others
      cls := update s.cls p
        { ccName := name, maxLinks := maxli, refCount := 1, valid := true } }

/-- A new item is put at `aconf`, and linked. -/
def makeConf (s : State) (type aconf : ℕ) : Option State :=
  if aconf ∈ s.items then none
  else some { s with
    items := aconf :: s.items
    item := update s.item aconf { status := type, connClass := none, clients := 0 }
    globalConfList := aconf :: s.globalConfList }

def State.setClass (s : State) (aconf c : ℕ) : State :=
  { s with item := update s.item aconf { s.item aconf with connClass := some c } }

def State.freeConf (s : State) (aconf : ℕ) : State :=
  { s with items := s.items.filter (· ≠ aconf) }

/-- `attach_conf`. -/
inductive AuthorizationCheckResult
  | acrOk
  | acrNoAuthorization
  | acrTooManyInClass
  | acrAlreadyAuthorized
  deriving DecidableEq

/-- An item is put into the list of a client. `attach_conf`. -/
def State.link (s : State) (cptr aconf : ℕ) : State :=
  { s with
    confs := update s.confs cptr (aconf :: s.confs cptr)
    item := update s.item aconf { s.item aconf with clients := (s.item aconf).clients + 1 } }

/-- The link count of a class is written. `class.h` `ConfLinks`. -/
def State.setLinks (s : State) (c n : ℕ) : State :=
  { s with cls := update s.cls c { s.cls c with refCount := n } }

/-- Associate a specific configuration entry to a local client. -/
def attachConf (s : State) (cptr aconf : ℕ) : Option (AuthorizationCheckResult × State) :=
  if aconf ∈ s.confs cptr then some (.acrAlreadyAuthorized, s)
  else if aconf ∉ s.items then none
  else if (s.item aconf).isIllegal then some (.acrNoAuthorization, s)
  else if (s.item aconf).status &&& confClientMask = 0 then some (.acrOk, s.link cptr aconf)
  else
    match (s.item aconf).connClass with
    | none => none
    | some c =>
      if c ∉ s.connClassList then none
      else if (s.item aconf).status &&& (confOperator ||| confClient) ≠ 0
          ∧ (s.cls c).maxLinks ≤ (s.cls c).refCount ∧ 0 < (s.cls c).maxLinks then
        some (.acrTooManyInClass, s)
      else some (.acrOk, (s.link cptr aconf).setLinks c ((s.cls c).refCount + 1))

/-- An item is taken from the list of a client. `detach_conf`. -/
def State.take (s : State) (cptr aconf : ℕ) : State :=
  { s with
    confs := update s.confs cptr ((s.confs cptr).erase aconf)
    item := update s.item aconf { s.item aconf with clients := (s.item aconf).clients - 1 } }

/-- It is freed when it is illegal and the last client goes. `detach_conf`. -/
def State.unlink (s : State) (cptr aconf : ℕ) : State :=
  let t := s.take cptr aconf
  if (t.item aconf).clients = 0 ∧ (t.item aconf).isIllegal then t.freeConf aconf else t

/-- The class of an item has one link less. `detach_conf`. -/
def State.dropLink (s : State) (aconf : ℕ) : Option State :=
  match (s.item aconf).connClass with
  | none => some s
  | some c =>
    if (s.item aconf).status &&& confClientMask = 0 then some s
    else if c ∉ s.connClassList then none
    else some (s.setLinks c ((s.cls c).refCount - 1))

/-- Disassociate configuration from the client. -/
def detachConf (s : State) (cptr aconf : ℕ) : Option State :=
  if aconf ∉ s.confs cptr then some s
  else if aconf ∉ s.items then none
  else (s.dropLink aconf).map fun s => s.unlink cptr aconf

/-- Detach the items of a list that are of no type of the mask. `det_confs_butmask`. -/
def detConfs (cptr mask : ℕ) : State → List ℕ → Option State
  | s, [] => some s
  | s, aconf :: link =>
    if aconf ∉ s.items then none
    else if (s.item aconf).status &&& mask = 0 then
      (detachConf s cptr aconf).bind (detConfs cptr mask · link)
    else detConfs cptr mask s link

/-- Remove all conf entries from the client except those which match the status field mask. -/
def detConfsButmask (s : State) (cptr mask : ℕ) : Option State :=
  detConfs cptr mask s (s.confs cptr)

/-- The item of a class in the list of the authorization manager. `s_auth.c` `auth_find_class_conf`. -/
def State.authConf (s : State) (c : ℕ) : Option ℕ :=
  s.aconfList.find? fun aconf => (s.item aconf).connClass = some c

/-- Find an item for a named connection class; a new one is put at `aconf`. `s_auth.c`. -/
def authFindClassConf (s : State) (className : Str) (aconf : ℕ) : Option (Option ℕ × State) :=
  match doFindClass s className false with
  | none => some (none, s)
  | some c =>
    match s.authConf c with
    | some a => some (some a, s)
    | none => do
        let t ← makeConf s confClient aconf
        some (some aconf, { t.setClass aconf c with
          globalConfList := s.globalConfList, aconfList := aconf :: s.aconfList })

/-- Assign a client to a class. `s_auth.c` `iauth_cmd_done_client`. -/
def iauthAssign (s : State) (cli : ℕ) (className : Str) (aconf : ℕ) :
    Option (AuthorizationCheckResult × State) := do
  match ← authFindClassConf s className aconf with
  | (none, t) => some (.acrOk, t)
  | (some a, t) => attachConf t cli a

/-- The blocks of the configuration that make items. `ircd_parser.y`. -/
inductive Block
  | client
  | connect
  | operator

/-- `ircd_parser.y` `make_conf`. -/
def Block.type : Block → ℕ
  | client => confClient
  | connect => confServer
  | operator => confOperator

/-- What the configuration has. `ircd_parser.y`. -/
inductive Entry
  /-- A Class block, and where a new class is put. -/
  | classBlock (name : Str) (maxlinks p : ℕ)
  /-- A Client, Connect or Operator block, and where its item is put. -/
  | block (b : Block) (className : Str) (aconf : ℕ)
  /-- A UWorld block, and where its item is put. -/
  | uworld (aconf : ℕ)
  /-- A feature that `init_class` reads gets another value. -/
  | feature (maximumLinks : ℕ)

/-- The feature has changed. `ircd_features.c` `MAXIMUM_LINKS`, `PINGFREQUENCY`, `CONNECTFREQUENCY`,
`DEFAULTMAXSENDQLENGTH`. -/
def setFeature (s : State) (maximumLinks : ℕ) : State :=
  initClass { s with maximumLinks := maximumLinks }

/-- One entry is read; a block without its class makes no item. `ircd_parser.y` `classblock`,
`connectblock`, `operblock`, `clientblock`, `uworldname`. -/
def Entry.read (s : State) : Entry → Option State
  | classBlock name maxlinks p => addClass s name maxlinks p
  | block b className aconf =>
    match doFindClass s className false with
    | none => some s
    | some c => (makeConf s b.type aconf).map fun t => t.setClass aconf c
  | uworld aconf => makeConf s confUworld aconf
  | feature maximumLinks => some (setFeature s maximumLinks)

/-- `read_configuration_file`. -/
def readConfigurationFile (s : State) (conf : List Entry) : Option State :=
  Runs.run Entry.read s conf

/-- Items in use are marked, the others are freed. `rehash`. -/
def State.markConfs (s : State) : State :=
  { s with
    items := s.items.filter fun a => ¬(a ∈ s.globalConfList ∧ (s.item a).clients = 0)
    item := fun a => if a ∈ s.globalConfList then
      { s.item a with status := (s.item a).status ||| confIllegal } else s.item a
    globalConfList := s.globalConfList.filter fun a =>
      (s.item a).clients ≠ 0 ∧ (s.item a).status &&& confClient ≠ 0 }

/-- Flush out deleted items although still in use. `rehash`. -/
def State.flushConfs (s : State) : State :=
  { s with
    items := s.items.filter fun a =>
      ¬(a ∈ s.globalConfList ∧ (s.item a).isIllegal ∧ (s.item a).clients = 0)
    globalConfList := s.globalConfList.filter fun a => ¬(s.item a).isIllegal }

def rehash (s : State) (conf : List Entry) : Option State := do
  let t ← readConfigurationFile (classMarkDelete s.markConfs) conf
  let u ← classDeleteMarked t
  some u.flushConfs

/-! ## The system -/

/-- The class called "default", and no items and clients. `ircd.c` `main`. -/
def State.start (cls : ℕ → ConnectionClass) (item : ℕ → ConfItem) (p maximumLinks : ℕ) : State :=
  initClass
    { default := p, others := [], cls := cls, items := [], item := item, globalConfList := []
      aconfList := [], clients := ∅, confs := fun _ => [], maximumLinks := maximumLinks }

/-- What happens. -/
inductive Event
  /-- The configuration is read at the start. `init_conf`. -/
  | initConf (conf : List Entry)
  | rehash (conf : List Entry)
  /-- A feature that `init_class` reads is set. `ircd_features.c` `feature_set`. -/
  | setFeature (maximumLinks : ℕ)
  /-- A client comes. `list.c` `make_client`. -/
  | connect (cptr : ℕ)
  /-- `attach_conf`. -/
  | attach (cptr aconf : ℕ)
  /-- `s_auth.c` `iauth_cmd_done_client`. -/
  | assign (cptr : ℕ) (className : Str) (aconf : ℕ)
  /-- `det_confs_butmask`. -/
  | detach (cptr mask : ℕ)
  /-- A client goes. `s_bsd.c` `close_connection`. -/
  | exit (cptr : ℕ)

/-- What the callers keep to: clients are there, and items are in the list. `attach_iline`,
`attach_confs_byname`, `attach_confs_byhost`; `m_oper.c` `do_oper`. -/
def State.allowed (s : State) : Event → Bool
  | .connect p => p ∉ s.clients
  | .attach p a => p ∈ s.clients ∧ a ∈ s.globalConfList
  | .assign p .. => p ∈ s.clients
  | .detach p _ => p ∈ s.clients
  | .exit p => p ∈ s.clients
  | _ => true

/-- One event. `s_conf.c`, `class.c`. -/
def State.step (s : State) : Event → Option State
  | .initConf conf => readConfigurationFile s conf
  | .rehash conf => Classes.rehash s conf
  | .setFeature n => some (Classes.setFeature s n)
  | .connect p => some { s with clients := insert p s.clients }
  | .attach p a => (attachConf s p a).map Prod.snd
  | .assign p className a => (iauthAssign s p className a).map Prod.snd
  | .detach p mask => detConfsButmask s p mask
  | .exit p => (detConfsButmask s p 0).map fun t => { t with clients := t.clients.erase p }

/-- The attachments of items of some types to a class. -/
def State.linked (s : State) (mask c : ℕ) : ℕ :=
  held s.clients s.confs fun a => (s.item a).isFor mask c

/-- The attachments of items for clients to a class. -/
def State.links (s : State) (c : ℕ) : ℕ := s.linked confClientMask c

/-- The attachments of client and operator items to a class. -/
def State.clientLinks (s : State) (c : ℕ) : ℕ := s.linked (confOperator ||| confClient) c

/-- A class does not have room for just one more. `attach_conf`. -/
def State.fitsClass (s : State) (c : ℕ) : Bool := s.links c + 1 ≠ (s.cls c).maxLinks

/-- An entry keeps the links of the first class. `init_class`. -/
def State.fitsEntry (s : State) : Entry → Bool
  | .feature _ => s.links s.default = 0
  | _ => true

/-- When the links are counted right: no item is tried for a class with room for just one more, and the first
class is initialised without links. `attach_conf`; `init_class`. -/
def State.fits (s : State) : Event → Bool
  | .initConf conf => conf.all s.fitsEntry
  | .rehash conf => conf.all s.fitsEntry
  | .setFeature _ => s.links s.default = 0
  | .attach p a => a ∈ s.confs p ∨ (s.item a).isIllegal
      ∨ (s.item a).status &&& (confOperator ||| confClient) = 0
      ∨ (s.item a).connClass.all s.fitsClass
  | .assign p className _ => (doFindClass s className false).all fun c =>
    (s.authConf c).any (· ∈ s.confs p) || s.fitsClass c
  | _ => true

def State.target (s : State) : Event → Option ℕ
  | .attach _ a => (s.item a).connClass
  | .assign _ className _ => doFindClass s className false
  | _ => none

/-- A client is refused as class-full. `attach_conf`. -/
def State.refused (s : State) : Event → Bool
  | .attach p a => (attachConf s p a).any fun r => r.1 = .acrTooManyInClass
  | .assign p className a => (iauthAssign s p className a).any fun r => r.1 = .acrTooManyInClass
  | _ => false

/-! ## The invariant -/

/-- The class of an item is there, and the item is for clients. -/
def State.Classed (s : State) (a : ℕ) : Prop :=
  ∀ c, (s.item a).connClass = some c → c ∈ s.connClassList ∧ (s.item a).status &&& confClientMask ≠ 0

/-- Items and classes are counted, and are there. -/
structure Sound (s : State) : Prop where
  outside : ∀ p, p ∉ s.clients → s.confs p = []
  clients : ∀ a ∈ s.items, (s.item a).clients = held s.clients s.confs (· == a)
  attached : ∀ p, ∀ a ∈ s.confs p, a ∈ s.items ∧ s.Classed a
  counted : ∀ c ∈ s.connClassList, (s.cls c).refCount = s.links c + 1
  config : ∀ a ∈ s.globalConfList, a ∈ s.items ∧ ((s.item a).isIllegal = false → s.Classed a ∧
    ∀ c, (s.item a).connClass = some c → (s.cls c).valid = true)
  auth : ∀ a ∈ s.aconfList, a ∈ s.items ∧ a ∉ s.globalConfList ∧ (s.item a).status = confClient
  default : (s.cls s.default).valid = true
  first : s.default ∉ s.others

section Sound

variable {s t : State} {p a c m : ℕ}

lemma update_clients_status (f : ℕ → ConfItem) (a n x : ℕ) :
    (update f a { f a with clients := n } x).status = (f x).status := by
  by_cases e : x = a
  · rw [e, update_self]
  · rw [update_of_ne e]

lemma update_clients_connClass (f : ℕ → ConfItem) (a n x : ℕ) :
    (update f a { f a with clients := n } x).connClass = (f x).connClass := by
  by_cases e : x = a
  · rw [e, update_self]
  · rw [update_of_ne e]

lemma Sound.not_attached (h : Sound s) (ha : held s.clients s.confs (· == a) = 0) (p : ℕ) :
    a ∉ s.confs p := by
  intro hmem
  by_cases hp : p ∈ s.clients
  · exact absurd (held_eq_zero_iff.mp ha p hp a hmem) (by simp)
  · rw [h.outside p hp] at hmem
    exact not_mem_nil hmem

lemma Sound.held_new (h : Sound s) (ha : a ∉ s.items) : held s.clients s.confs (· == a) = 0 := by
  refine held_eq_zero_iff.mpr fun p _ x hx => ?_
  have hne : x ≠ a := fun e => ha (e ▸ (h.attached p x hx).1)
  simpa using hne

lemma Sound.rewire (h : Sound s) (hp : p ∈ s.clients) (ha : a ∈ s.items) (hclass : s.Classed a)
    {l : List ℕ} {n : ℕ} {cls : ℕ → ConnectionClass} (hl : ∀ x ∈ l, x ∈ s.confs p ∨ x = a)
    (hheld : ∀ x, held s.clients (update s.confs p l) (· == x)
      = if x = a then n else held s.clients s.confs (· == x))
    (hvalid : ∀ c, (cls c).valid = (s.cls c).valid)
    (hcount : ∀ c ∈ s.connClassList, (cls c).refCount
      = held s.clients (update s.confs p l) (fun x => (s.item x).isFor confClientMask c) + 1) :
    Sound { s with
      confs := update s.confs p l
      item := update s.item a { s.item a with clients := n }
      cls := cls } where
  outside q hq := by
    have hne : q ≠ p := fun e => hq (e ▸ hp)
    simp only [update_of_ne hne]
    exact h.outside q hq
  clients x hx := by
    rw [hheld x]
    by_cases e : x = a
    · rw [e, if_pos rfl]
      simp only [update_self]
    · rw [if_neg e]
      simp only [update_of_ne e]
      exact h.clients x hx
  attached q x hx := by
    have hcase : x ∈ s.items ∧ s.Classed x := by
      by_cases e : q = p
      · rw [e] at hx
        simp only [update_self] at hx
        rcases hl x hx with hin | heq
        · exact h.attached p x hin
        · exact heq ▸ ⟨ha, hclass⟩
      · simp only [update_of_ne e] at hx
        exact h.attached q x hx
    refine ⟨hcase.1, fun c hc => ?_⟩
    simp only [update_clients_connClass, update_clients_status] at hc ⊢
    exact hcase.2 c hc
  counted c hc := by
    rw [hcount c hc, State.links, State.linked]
    simp only [ConfItem.isFor, update_clients_connClass, update_clients_status]
  config x hx := by
    obtain ⟨hin, hlegal⟩ := h.config x hx
    refine ⟨hin, fun hill => ?_⟩
    simp only [ConfItem.isIllegal, State.Classed, update_clients_connClass,
      update_clients_status, hvalid] at hill ⊢
    exact hlegal hill
  auth x hx := by
    simp only [update_clients_status]
    exact h.auth x hx
  default := by
    rw [hvalid]
    exact h.default
  first := h.first

lemma Sound.reclass (h : Sound s) {others : List ℕ} {cls : ℕ → ConnectionClass}
    (hkeep : ∀ c ∈ s.connClassList, s.links c ≠ 0 → c ∈ s.default :: others)
    (hcount : ∀ c ∈ s.default :: others, (cls c).refCount = s.links c + 1)
    (hconfig : ∀ a ∈ s.globalConfList, (s.item a).isIllegal = false → ∀ c ∈ s.connClassList,
      (s.cls c).valid = true → c ∈ s.default :: others ∧ (cls c).valid = true)
    (hdefault : (cls s.default).valid = true) (hfirst : s.default ∉ others) :
    Sound { s with others := others, cls := cls } where
  outside := h.outside
  clients := h.clients
  attached q x hx := by
    obtain ⟨hin, hclass⟩ := h.attached q x hx
    refine ⟨hin, fun c hc => ⟨hkeep c (hclass c hc).1 fun hzero => ?_, (hclass c hc).2⟩⟩
    have hq : q ∈ s.clients := by
      by_contra hq
      rw [h.outside q hq] at hx
      exact not_mem_nil hx
    have hfor := held_eq_zero_iff.mp hzero q hq x hx
    simp only [ConfItem.isFor, decide_eq_false_iff_not, not_and] at hfor
    exact hfor (hclass c hc).2 hc
  counted := hcount
  config x hx := by
    obtain ⟨hin, hlegal⟩ := h.config x hx
    refine ⟨hin, fun hill => ?_⟩
    obtain ⟨hclass, hvalid⟩ := hlegal hill
    exact ⟨fun c hc => ⟨(hconfig x hx hill c (hclass c hc).1 (hvalid c hc)).1, (hclass c hc).2⟩,
      fun c hc => (hconfig x hx hill c (hclass c hc).1 (hvalid c hc)).2⟩
  auth := h.auth
  default := hdefault
  first := hfirst

lemma Sound.alloc (h : Sound s) (ha : a ∉ s.items) (new : ConfItem) (hnew : new.clients = 0) :
    Sound { s with items := a :: s.items, item := update s.item a new } := by
  have hin : ∀ x ∈ s.items, update s.item a new x = s.item x := fun x hx =>
    update_of_ne (fun e : x = a => ha (e ▸ hx)) _ _
  have hout : ∀ q, ∀ x ∈ s.confs q, update s.item a new x = s.item x := fun q x hx =>
    hin x (h.attached q x hx).1
  refine ⟨h.outside, fun x hx => ?_, fun q x hx => ?_, fun c hc => ?_, fun x hx => ?_, fun x hx => ?_,
    h.default, h.first⟩
  · rcases mem_cons.mp hx with e | hx
    · rw [e, h.held_new ha]
      simp only [update_self]
      exact hnew
    · simp only [hin x hx]
      exact h.clients x hx
  · simp only [State.Classed, hout q x hx]
    exact ⟨mem_cons_of_mem _ (h.attached q x hx).1, (h.attached q x hx).2⟩
  · rw [h.counted c hc]
    refine congrArg (· + 1) (held_congr fun q _ x hx => ?_)
    simp only [hout q x hx]
  · have hx := h.config x hx
    simp only [State.Classed, hin x hx.1]
    exact ⟨mem_cons_of_mem _ hx.1, hx.2⟩
  · have hx := h.auth x hx
    simp only [hin x hx.1]
    exact ⟨mem_cons_of_mem _ hx.1, hx.2⟩

lemma Sound.free (h : Sound s) (hheld : held s.clients s.confs (· == a) = 0)
    (hconfig : a ∉ s.globalConfList) (hauth : a ∉ s.aconfList) : Sound (s.freeConf a) := by
  have hmem : ∀ {x}, x ≠ a → x ∈ s.items → x ∈ (s.freeConf a).items := fun hne hx =>
    mem_filter.mpr ⟨hx, by simpa using hne⟩
  refine ⟨h.outside, fun x hx => h.clients x (mem_filter.mp hx).1, fun q x hx => ?_, h.counted,
    fun x hx => ?_, fun x hx => ?_, h.default, h.first⟩
  · have hne : x ≠ a := fun e => h.not_attached hheld q (e ▸ hx)
    exact ⟨hmem hne (h.attached q x hx).1, (h.attached q x hx).2⟩
  · have hne : x ≠ a := fun e => hconfig (e ▸ hx)
    exact ⟨hmem hne (h.config x hx).1, (h.config x hx).2⟩
  · have hne : x ≠ a := fun e => hauth (e ▸ hx)
    exact ⟨hmem hne (h.auth x hx).1, (h.auth x hx).2⟩

end Sound

/-! ## Attachments -/

/-- No item of the configuration is illegal. `rehash`. -/
def State.Legal (s : State) : Prop := ∀ a ∈ s.globalConfList, (s.item a).isIllegal = false

section Attach

variable {s t : State} {p a c m : ℕ} {r : AuthorizationCheckResult}

lemma attachConf_cases (h : attachConf s p a = some (r, t)) : (t = s ∧ r ≠ .acrTooManyInClass) ∨
    (a ∉ s.confs p ∧ (s.item a).isIllegal = false ∧ (t = s ∧ r = .acrTooManyInClass) ∧
    (s.item a).status &&& (confOperator ||| confClient) ≠ 0 ∧ ∃ c, (s.item a).connClass = some c ∧
    c ∈ s.connClassList ∧ (s.cls c).maxLinks ≤ (s.cls c).refCount) ∨ (a ∉ s.confs p ∧ (s.item a).isIllegal =
    false ∧ r = .acrOk ∧ (s.item a).status &&& confClientMask = 0 ∧ t = s.link p a) ∨ (a ∉ s.confs p ∧
    (s.item a).isIllegal = false ∧ r = .acrOk ∧ (s.item a).status &&& confClientMask ≠ 0 ∧ ∃ c,
    (s.item a).connClass = some c ∧ ((s.item a).status &&& (confOperator ||| confClient) ≠ 0 →
    0 < (s.cls c).maxLinks → (s.cls c).refCount < (s.cls c).maxLinks) ∧ t =
    (s.link p a).setLinks c ((s.cls c).refCount + 1)) := by
  rw [attachConf] at h
  split at h
  · cases h
    exact .inl ⟨rfl, by decide⟩
  rename_i hnew
  split at h
  · cases h
  split at h
  · cases h
    exact .inl ⟨rfl, by decide⟩
  rename_i hill
  have hill := eq_false_of_ne_true hill
  split at h
  · rename_i hmask
    cases h
    exact .inr (.inr (.inl ⟨hnew, hill, rfl, hmask, rfl⟩))
  rename_i hmask
  split at h
  · cases h
  rename_i c hc
  split at h
  · cases h
  rename_i hin
  split at h
  · rename_i hfull
    cases h
    exact .inr (.inl ⟨hnew, hill, ⟨rfl, rfl⟩, hfull.1, c, hc, not_not.mp hin, hfull.2.1⟩)
  · rename_i hroom
    cases h
    refine .inr (.inr (.inr ⟨hnew, hill, rfl, hmask, c, hc, fun hfor hpos => ?_, rfl⟩))
    by_contra hlt
    exact hroom ⟨hfor, Nat.le_of_not_lt hlt, hpos⟩

lemma linked_link (hp : p ∈ s.clients) (m c : ℕ) :
    (s.link p a).linked m c = s.linked m c + if (s.item a).isFor m c then 1 else 0 := by
  rw [State.linked, State.linked, ← held_cons hp]
  simp only [State.link, ConfItem.isFor, update_clients_connClass, update_clients_status]

lemma setLinks_valid (s : State) (c n d : ℕ) : ((s.setLinks c n).cls d).valid = (s.cls d).valid := by
  by_cases e : d = c
  · simp only [e, State.setLinks, update_self]
  · simp only [State.setLinks, update_of_ne e]

lemma setLinks_refCount (s : State) (c n d : ℕ) :
    ((s.setLinks c n).cls d).refCount = if d = c then n else (s.cls d).refCount := by
  by_cases e : d = c
  · simp only [e, if_pos, State.setLinks, update_self]
  · simp only [if_neg e, State.setLinks, update_of_ne e]

lemma isFor_eq {x : ConfItem} (hmask : x.status &&& m ≠ 0) (hc : x.connClass = some c) (d : ℕ) :
    x.isFor m d = decide (d = c) := by
  rw [ConfItem.isFor]
  exact decide_eq_decide.mpr ⟨fun h => some.inj (h.2.symm.trans hc), fun h => ⟨hmask, h ▸ hc⟩⟩

lemma Sound.attachConf (h : Sound s) (hp : p ∈ s.clients) (ha : a ∈ s.items)
    (hclass : (s.item a).isIllegal = false → s.Classed a) (hrun : Classes.attachConf s p a = some (r, t)) :
    Sound t ∧ t.globalConfList = s.globalConfList ∧ ∀ x, (t.item x).isIllegal = (s.item x).isIllegal := by
  have hlist : ∀ x ∈ a :: s.confs p, x ∈ s.confs p ∨ x = a := fun x hx =>
    (mem_cons.mp hx).symm
  have hheld : ∀ x, held s.clients (update s.confs p (a :: s.confs p)) (· == x)
      = if x = a then (s.item a).clients + 1 else held s.clients s.confs (· == x) := by
    intro x
    rw [held_cons hp]
    by_cases e : x = a
    · rw [if_pos e, h.clients a ha, e, if_pos (beq_self_eq_true a)]
    · rw [if_neg e, if_neg (by simpa using fun e' => e e'.symm), Nat.add_zero]
  have hcount : ∀ c ∈ s.connClassList, (s.cls c).refCount + (if (s.item a).isFor confClientMask c then 1 else 0)
      = held s.clients (update s.confs p (a :: s.confs p))
        (fun x => (s.item x).isFor confClientMask c) + 1 := by
    intro c hc
    rw [held_cons hp, h.counted c hc, State.links, State.linked]
    omega
  rcases attachConf_cases hrun with ⟨rfl, -⟩ | ⟨-, -, ⟨rfl, -⟩, -⟩ | ⟨-, hill, -, hmask, rfl⟩
    | ⟨-, hill, -, hmask, c, hc, -, rfl⟩
  · exact ⟨h, rfl, fun _ => rfl⟩
  · exact ⟨h, rfl, fun _ => rfl⟩
  · refine ⟨h.rewire hp ha (hclass hill) hlist hheld (fun _ => rfl) fun c hc => ?_, rfl, fun x => ?_⟩
    · rw [← hcount c hc, if_neg, Nat.add_zero]
      rw [ConfItem.isFor, decide_eq_true_eq]
      exact fun hfor => hfor.1 hmask
    · simp only [State.link, ConfItem.isIllegal, update_clients_status]
  · refine ⟨h.rewire hp ha (hclass hill) hlist hheld (fun d => ?_) fun d hd => ?_, rfl, fun x => ?_⟩
    · exact setLinks_valid (s.link p a) c _ d
    · rw [← hcount d hd, isFor_eq hmask hc]
      exact (setLinks_refCount (s.link p a) c _ d).trans (by split <;> simp_all [State.link])
    · simp only [State.setLinks, State.link, ConfItem.isIllegal, update_clients_status]

lemma linked_take (hp : p ∈ s.clients) (ha : a ∈ s.confs p) (m c : ℕ) :
    (s.take p a).linked m c + (if (s.item a).isFor m c then 1 else 0) = s.linked m c := by
  rw [State.linked, State.linked, ← held_erase hp ha]
  simp only [State.take, ConfItem.isFor, update_clients_connClass, update_clients_status]

lemma Sound.mem_clients (h : Sound s) (ha : a ∈ s.confs p) : p ∈ s.clients := by
  by_contra hp
  rw [h.outside p hp] at ha
  exact not_mem_nil ha

lemma Sound.take (h : Sound s) (ha : a ∈ s.confs p) {u : State} (hu : s.dropLink a = some u) :
    Sound (u.take p a) ∧ u.globalConfList = s.globalConfList ∧ u.aconfList = s.aconfList
      ∧ u.items = s.items ∧ u.item = s.item ∧ u.clients = s.clients ∧ u.confs = s.confs := by
  have hp := h.mem_clients ha
  obtain ⟨hin, hclass⟩ := h.attached p a ha
  have hlist : ∀ x ∈ (s.confs p).erase a, x ∈ s.confs p ∨ x = a := fun x hx =>
    .inl (List.mem_of_mem_erase hx)
  have hheld : ∀ x, held s.clients (update s.confs p ((s.confs p).erase a)) (· == x)
      = if x = a then (s.item a).clients - 1 else held s.clients s.confs (· == x) := by
    intro x
    have herase := held_erase hp ha (· == x)
    by_cases e : x = a
    · subst e
      rw [if_pos (beq_self_eq_true x)] at herase
      rw [if_pos rfl, h.clients x hin]
      omega
    · rw [if_neg e]
      rwa [if_neg (by simpa using fun e' => e e'.symm), Nat.add_zero] at herase
  have hcount : ∀ c ∈ s.connClassList, (s.cls c).refCount
      = held s.clients (update s.confs p ((s.confs p).erase a)) (fun x => (s.item x).isFor confClientMask c) + 1
        + (if (s.item a).isFor confClientMask c then 1 else 0) := by
    intro c hc
    have herase := held_erase hp ha fun x => (s.item x).isFor confClientMask c
    rw [h.counted c hc, State.links, State.linked]
    omega
  rw [State.dropLink] at hu
  split at hu
  · rename_i hnone
    cases hu
    refine ⟨h.rewire hp hin hclass hlist hheld (fun _ => rfl) fun c hc => ?_, rfl, rfl, rfl, rfl, rfl,
      rfl⟩
    rw [hcount c hc, if_neg, Nat.add_zero]
    simp [ConfItem.isFor, hnone]
  · rename_i c hc
    rw [if_neg (hclass c hc).2, if_neg (not_not.mpr (hclass c hc).1)] at hu
    cases hu
    refine ⟨h.rewire hp hin hclass hlist hheld (fun d => setLinks_valid s c _ d) fun d hd => ?_, rfl,
      rfl, rfl, rfl, rfl, rfl⟩
    have hd' := hcount d hd
    rw [isFor_eq (hclass c hc).2 hc] at hd'
    rw [setLinks_refCount]
    show _ = held s.clients (update s.confs p ((s.confs p).erase a)) _ + 1
    by_cases e : d = c
    · rw [e] at hd' ⊢
      rw [if_pos (decide_eq_true rfl)] at hd'
      rw [if_pos rfl]
      omega
    · rw [if_neg (by simpa using e)] at hd'
      rw [if_neg e]
      exact hd'

lemma Sound.detachConf (h : Sound s) (hlegal : s.Legal) (hrun : Classes.detachConf s p a = some t) :
    (Sound t ∧ t.Legal) ∧ t.clients = s.clients ∧ t.confs p = (s.confs p).erase a
      ∧ ∀ m c, t.linked m c ≤ s.linked m c := by
  rw [Classes.detachConf] at hrun
  split at hrun
  · rename_i hnot
    cases hrun
    rw [List.erase_of_not_mem hnot]
    exact ⟨⟨h, hlegal⟩, rfl, rfl, fun _ _ => le_rfl⟩
  rename_i ha
  split at hrun
  · cases hrun
  obtain ⟨u, hu, rfl⟩ := map_eq_some_iff.mp hrun
  obtain ⟨hsound, hglobal, hauth, hitems, hitem, hclients, hconfs⟩ := h.take (not_not.mp ha) hu
  have hill : ∀ x, ((u.take p a).item x).isIllegal = (s.item x).isIllegal := fun x => by
    simp only [State.take, ConfItem.isIllegal, update_clients_status, hitem]
  have hlegal' : (u.take p a).Legal := fun x hx => (hill x).trans (hlegal x (hglobal ▸ hx))
  have hmem : a ∈ u.confs p := hconfs ▸ not_not.mp ha
  have hlinked : ∀ m c, (u.take p a).linked m c ≤ s.linked m c := fun m c => by
    have hless := linked_take (s := u) (hclients ▸ h.mem_clients (not_not.mp ha)) hmem m c
    have hsame : u.linked m c = s.linked m c := by
      rw [State.linked, State.linked, hclients, hconfs, hitem]
    omega
  have htake : (u.take p a).confs p = (s.confs p).erase a := by
    rw [← hconfs]
    exact update_self ..
  rw [State.unlink, ← hclients]
  split
  · rename_i hfree
    refine ⟨⟨hsound.free ?_ (fun hx => ?_) fun hx => ?_, hlegal'⟩, rfl, htake, hlinked⟩
    · rw [← hsound.clients a (hitems ▸ (h.attached p a (not_not.mp ha)).1)]
      exact hfree.1
    · exact absurd hfree.2 (by rw [hlegal' a hx]; decide)
    · rw [ConfItem.isIllegal, (hsound.auth a hx).2.2] at hfree
      exact absurd hfree.2 (by decide)
  · exact ⟨⟨hsound, hlegal'⟩, rfl, htake, hlinked⟩

lemma Sound.detConfs {mask : ℕ} : (l : List ℕ) → ∀ {s : State}, Sound s → s.Legal →
    Classes.detConfs p mask s l = some t →
    (Sound t ∧ t.Legal) ∧ t.clients = s.clients ∧ (mask = 0 → s.confs p = l → t.confs p = [])
      ∧ ∀ m c, t.linked m c ≤ s.linked m c
  | [], s, h, hlegal, hrun => by
    cases hrun
    exact ⟨⟨h, hlegal⟩, rfl, fun _ hl => hl, fun _ _ => le_rfl⟩
  | a :: l, s, h, hlegal, hrun => by
    rw [Classes.detConfs] at hrun
    split at hrun
    · cases hrun
    split at hrun
    · obtain ⟨u, hu, hrun⟩ := bind_eq_some_iff.mp hrun
      obtain ⟨⟨hsound, hlegal'⟩, hclients, hconfs, hlinked⟩ := h.detachConf hlegal hu
      obtain ⟨hgood, hclients', hnil, hlinked'⟩ := Sound.detConfs l hsound hlegal' hrun
      refine ⟨hgood, hclients'.trans hclients, fun hmask hl => hnil hmask ?_, fun m c =>
        (hlinked' m c).trans (hlinked m c)⟩
      rw [hconfs, hl, List.erase_cons_head]
    · rename_i hother
      obtain ⟨hgood, hclients, -, hlinked⟩ := Sound.detConfs l h hlegal hrun
      exact ⟨hgood, hclients, fun hmask => absurd (by rw [hmask, Nat.and_zero]) hother, hlinked⟩

end Attach

/-! ## The configuration -/

section Config

variable {s t : State} {p a c m : ℕ}

/-- Configuration that changes keeps clients, items and the list of the manager where they are. -/
structure Reads (s t : State) : Prop where
  clients : t.clients = s.clients
  confs : t.confs = s.confs
  default : t.default = s.default
  linked : ∀ m c, t.linked m c = s.linked m c

lemma mem_of_doFindClass {name : Str} {extras : Bool} (h : doFindClass s name extras = some c) :
    c ∈ s.connClassList ∧ ((s.cls c).valid = true ∨ extras = true) := by
  refine ⟨List.mem_of_find?_eq_some h, ?_⟩
  have hfound := List.find?_some h
  simp only [Bool.and_eq_true, Bool.or_eq_true] at hfound
  exact hfound.1

lemma Sound.initClass (h : Sound s) (hzero : s.links s.default = 0) : Sound (initClass s) := by
  refine h.reclass (fun c hc _ => hc) (fun c hc => ?_) (fun _ _ _ c hc hvalid => ⟨hc, ?_⟩) ?_ h.first
  · by_cases e : c = s.default
    · simp only [e, update_self, hzero]
    · simp only [update_of_ne e]
      exact h.counted c hc
  · by_cases e : c = s.default
    · simp only [e, update_self]
    · simp only [update_of_ne e]
      exact hvalid
  · simp only [update_self]

lemma Sound.linked_new (h : Sound s) (hc : c ∉ s.connClassList) (m : ℕ) : s.linked m c = 0 := by
  refine held_eq_zero_iff.mpr fun q _ x hx => ?_
  rw [ConfItem.isFor, decide_eq_false_iff_not]
  exact fun hfor => hc ((h.attached q x hx).2 c hfor.2).1

lemma Sound.addClass (h : Sound s) {name : Str} {maxli : ℕ}
    (hrun : Classes.addClass s name maxli p = some t) : Sound t := by
  rw [Classes.addClass] at hrun
  split at hrun
  · rename_i q hq
    split at hrun
    · cases hrun
    rename_i hne
    cases hrun
    have hcls : ∀ c, (update s.cls q
        { s.cls q with ccName := name, maxLinks := maxli, valid := true } c).refCount
          = (s.cls c).refCount := fun c => by
      by_cases e : c = q
      · rw [e, update_self]
      · rw [update_of_ne e]
    refine h.reclass (fun c hc _ => hc) (fun c hc => ?_) (fun _ _ _ c hc hvalid => ⟨hc, ?_⟩) ?_ h.first
    · rw [hcls]
      exact h.counted c hc
    · by_cases e : c = q
      · rw [e, update_self]
      · rwa [update_of_ne e]
    · rw [update_of_ne (Ne.symm hne)]
      exact h.default
  · split at hrun
    · cases hrun
    rename_i hnew
    cases hrun
    obtain ⟨new, hrefs, hvalid, hnew'⟩ : ∃ new : ConnectionClass, new.refCount = 1 ∧ new.valid = true ∧
          { ccName := name, maxLinks := maxli, refCount := 1, valid := true } = new :=
      ⟨_, rfl, rfl, rfl⟩
    have hcls : ∀ c ∈ s.connClassList, update s.cls p new c = s.cls c := fun c hc =>
      update_of_ne (fun e : c = p => hnew (e ▸ hc)) _ _
    have hkeep : ∀ c ∈ s.connClassList, c ∈ s.default :: p :: s.others := fun c hc =>
      (mem_cons.mp hc).elim (fun e => e ▸ mem_cons_self)
        fun hc => mem_cons_of_mem _ (mem_cons_of_mem _ hc)
    rw [hnew']
    refine h.reclass (fun c hc _ => hkeep c hc) (fun c hc => ?_)
      (fun _ _ _ c hc hok => ⟨hkeep c hc, by rwa [hcls c hc]⟩) ?_
      (List.not_mem_cons_of_ne_of_not_mem (fun e => hnew (e ▸ mem_cons_self)) h.first)
    · by_cases e : c = p
      · rw [e, update_self, hrefs, State.links, h.linked_new hnew]
      · have hin : c ∈ s.connClassList := by
          rcases mem_cons.mp hc with hc | hc
          · exact hc ▸ mem_cons_self
          · exact mem_cons_of_mem _ ((mem_cons.mp hc).resolve_left e)
        rw [hcls c hin]
        exact h.counted c hin
    · rw [hcls s.default mem_cons_self]
      exact h.default

lemma Sound.linked_alloc (h : Sound s) (ha : a ∉ s.items) (new : ConfItem) (m c : ℕ) :
    held s.clients s.confs (fun x => (update s.item a new x).isFor m c) = s.linked m c := by
  refine held_congr fun q _ x hx => ?_
  rw [update_of_ne fun e : x = a => ha (e ▸ (h.attached q x hx).1)]

lemma Sound.makeConf (h : Sound s) (ha : a ∉ s.items) {new : ConfItem} (hnew : new.clients = 0)
    (hclass : ∀ c, new.connClass = some c →
      c ∈ s.connClassList ∧ new.status &&& confClientMask ≠ 0 ∧ (s.cls c).valid = true) :
    Sound { s with
      items := a :: s.items
      item := update s.item a new
      globalConfList := a :: s.globalConfList } := by
  have halloc := h.alloc ha new hnew
  refine ⟨halloc.outside, halloc.clients, halloc.attached, halloc.counted, fun x hx => ?_, fun x hx => ?_,
    halloc.default, halloc.first⟩
  · rcases mem_cons.mp hx with e | hx
    · subst e
      refine ⟨mem_cons_self, fun _ => ⟨fun c hc => ?_, fun c hc => ?_⟩⟩
      · simp only [update_self] at hc ⊢
        exact ⟨(hclass c hc).1, (hclass c hc).2.1⟩
      · simp only [update_self] at hc
        exact (hclass c hc).2.2
    · exact halloc.config x hx
  · obtain ⟨hin, hout, hstatus⟩ := halloc.auth x hx
    exact ⟨hin, List.not_mem_cons_of_ne_of_not_mem (fun e => ha (e ▸ (h.auth x hx).1)) hout, hstatus⟩

lemma makeConf_setClass {type : ℕ} (h : Classes.makeConf s type a = some t) (c : ℕ) :
    a ∉ s.items ∧ t.setClass a c = { s with
      items := a :: s.items
      item := update s.item a { status := type, connClass := some c, clients := 0 }
      globalConfList := a :: s.globalConfList } := by
  rw [Classes.makeConf] at h
  split at h
  · cases h
  · rename_i ha
    cases h
    refine ⟨ha, ?_⟩
    simp only [State.setClass, update_self, Function.update_idem]

lemma Sound.legal_makeConf (h : Sound s) (hlegal : s.Legal) (ha : a ∉ s.items) {new : ConfItem}
    (hnew : new.isIllegal = false) : State.Legal { s with
      items := a :: s.items
      item := update s.item a new
      globalConfList := a :: s.globalConfList } := by
  intro x hx
  rcases mem_cons.mp hx with e | hx
  · simp only [e, update_self, hnew]
  · have hne : x ≠ a := fun e => ha (e ▸ (h.config x hx).1)
    simp only [update_of_ne hne]
    exact hlegal x hx

lemma Block.type_mask (b : Block) : b.type &&& confClientMask ≠ 0 ∧ b.type &&& confIllegal = 0 := by
  cases b <;> decide

lemma Sound.read (h : Sound s) {e : Entry} (hfit : s.fitsEntry e = true) (hrun : e.read s = some t) :
    Sound t ∧ Reads s t ∧ (s.Legal → t.Legal) := by
  cases e with
  | classBlock name maxlinks p =>
    have hsound := h.addClass hrun
    simp only [Entry.read, Classes.addClass] at hrun
    split at hrun <;> split at hrun <;> cases hrun <;>
      exact ⟨hsound, ⟨rfl, rfl, rfl, fun _ _ => rfl⟩, id⟩
  | block b className a =>
    simp only [Entry.read] at hrun
    split at hrun
    · cases hrun
      exact ⟨h, ⟨rfl, rfl, rfl, fun _ _ => rfl⟩, id⟩
    · rename_i c hc
      obtain ⟨u, hu, rfl⟩ := map_eq_some_iff.mp hrun
      obtain ⟨ha, hset⟩ := makeConf_setClass hu c
      obtain ⟨hin, hvalid⟩ := mem_of_doFindClass hc
      rw [hset]
      refine ⟨h.makeConf ha rfl fun d hd => ?_, ⟨rfl, rfl, rfl, h.linked_alloc ha _⟩, fun hlegal =>
        h.legal_makeConf hlegal ha ?_⟩
      · cases hd
        exact ⟨hin, b.type_mask.1, hvalid.resolve_right (by decide)⟩
      · simp [ConfItem.isIllegal, b.type_mask.2]
  | uworld a =>
    simp only [Entry.read, Classes.makeConf] at hrun
    split at hrun
    · cases hrun
    · rename_i ha
      cases hrun
      exact ⟨h.makeConf ha rfl fun d hd => (nomatch hd), ⟨rfl, rfl, rfl, h.linked_alloc ha _⟩,
        fun hlegal => h.legal_makeConf hlegal ha (by decide)⟩
  | feature n =>
    cases hrun
    have hsound : Sound { s with maximumLinks := n } :=
      ⟨h.outside, h.clients, h.attached, h.counted, h.config, h.auth, h.default, h.first⟩
    exact ⟨hsound.initClass (of_decide_eq_true hfit), ⟨rfl, rfl, rfl, fun _ _ => rfl⟩, id⟩

lemma Sound.readConfigurationFile : (conf : List Entry) → ∀ {s : State}, Sound s →
    conf.all s.fitsEntry = true → Classes.readConfigurationFile s conf = some t →
    Sound t ∧ Reads s t ∧ (s.Legal → t.Legal)
  | [], s, h, _, hrun => by
    cases hrun
    exact ⟨h, ⟨rfl, rfl, rfl, fun _ _ => rfl⟩, id⟩
  | e :: conf, s, h, hfit, hrun => by
    obtain ⟨u, hu, hrun⟩ := bind_eq_some_iff.mp hrun
    rw [List.all_cons, Bool.and_eq_true] at hfit
    obtain ⟨hsound, hreads, hlegal⟩ := h.read hfit.1 hu
    have hfit' : conf.all u.fitsEntry = true := by
      rw [← hfit.2]
      congr 1
      funext e
      cases e with
      | feature _ => rw [State.fitsEntry, State.fitsEntry, State.links, State.links, hreads.linked,
          hreads.default]
      | _ => rfl
    obtain ⟨hsound', hreads', hlegal'⟩ := Sound.readConfigurationFile conf hsound hfit' hrun
    exact ⟨hsound', ⟨hreads'.clients.trans hreads.clients, hreads'.confs.trans hreads.confs,
      hreads'.default.trans hreads.default, fun m c => (hreads'.linked m c).trans (hreads.linked m c)⟩,
      hlegal' ∘ hlegal⟩

lemma or_illegal_and (st : ℕ) (hm : confIllegal &&& m = 0) : (st ||| confIllegal) &&& m = st &&& m := by
  rw [Nat.and_or_distrib_right, hm, Nat.or_zero]

lemma markConfs_item (s : State) (x : ℕ) : (s.markConfs.item x).connClass = (s.item x).connClass ∧
    (s.markConfs.item x).clients = (s.item x).clients ∧
    ∀ m, confIllegal &&& m = 0 → (s.markConfs.item x).status &&& m = (s.item x).status &&& m := by
  simp only [State.markConfs]
  split
  · exact ⟨rfl, rfl, fun m hm => or_illegal_and _ hm⟩
  · exact ⟨rfl, rfl, fun _ _ => rfl⟩

lemma markConfs_linked (s : State) (hm : confIllegal &&& m = 0) (c : ℕ) :
    s.markConfs.linked m c = s.linked m c := by
  refine held_congr fun q _ x _ => ?_
  obtain ⟨hclass, -, hstatus⟩ := markConfs_item s x
  rw [ConfItem.isFor, ConfItem.isFor, hclass, hstatus m hm]

lemma Sound.clients_ne_zero (h : Sound s) (ha : a ∈ s.confs p) : (s.item a).clients ≠ 0 := by
  intro hzero
  rw [h.clients a (h.attached p a ha).1] at hzero
  exact h.not_attached hzero p ha

lemma Sound.markConfs (h : Sound s) :
    Sound s.markConfs ∧ ∀ a ∈ s.markConfs.globalConfList, (s.markConfs.item a).isIllegal = true := by
  have hill : ∀ a ∈ s.markConfs.globalConfList, (s.markConfs.item a).isIllegal = true := by
    intro a ha
    have hin := (mem_filter.mp ha).1
    simp only [State.markConfs, if_pos hin, ConfItem.isIllegal]
    rw [decide_eq_true_eq, Nat.and_or_distrib_right, Nat.and_self]
    intro hzero
    exact absurd (Nat.or_eq_zero_iff.mp hzero).2 (by decide)
  have hmem : ∀ x ∈ s.items, (s.item x).clients ≠ 0 ∨ x ∉ s.globalConfList →
      x ∈ s.markConfs.items := fun x hx hkeep => mem_filter.mpr ⟨hx, decide_eq_true fun hfree =>
      hkeep.elim (fun hne => hne hfree.2) fun hout => hout hfree.1⟩
  refine ⟨⟨h.outside, fun x hx => ?_, fun q x hx => ?_, fun c hc => ?_, fun x hx => ?_, fun x hx => ?_,
    h.default, h.first⟩, hill⟩
  · rw [(markConfs_item s x).2.1]
    exact h.clients x (mem_filter.mp hx).1
  · obtain ⟨hin, hclass⟩ := h.attached q x hx
    obtain ⟨hconn, -, hstatus⟩ := markConfs_item s x
    refine ⟨hmem x hin (.inl (h.clients_ne_zero hx)), fun c hc => ?_⟩
    rw [hconn] at hc
    rw [hstatus _ (by decide)]
    exact hclass c hc
  · rw [State.links, markConfs_linked s (by decide)]
    exact h.counted c hc
  · obtain ⟨hin, hkeep⟩ := mem_filter.mp hx
    refine ⟨hmem x (h.config x hin).1 (.inl (of_decide_eq_true hkeep).1), fun hlegal => ?_⟩
    exact absurd (hill x hx) (by rw [hlegal]; decide)
  · obtain ⟨hin, hout, hstatus⟩ := h.auth x hx
    refine ⟨hmem x hin (.inr hout), fun hglobal => hout (mem_filter.mp hglobal).1, ?_⟩
    simp only [State.markConfs, if_neg hout]
    exact hstatus

lemma Sound.flushConfs (h : Sound s) : Sound s.flushConfs ∧ s.flushConfs.Legal := by
  have hlegal : s.flushConfs.Legal := fun x hx => by
    have hkeep := of_decide_eq_true (mem_filter.mp hx).2
    exact eq_false_of_ne_true hkeep
  have hmem : ∀ x ∈ s.items, ((s.item x).isIllegal = true → (s.item x).clients ≠ 0) →
      x ∈ s.flushConfs.items := fun x hx hkeep =>
    mem_filter.mpr ⟨hx, decide_eq_true fun hfree => hkeep hfree.2.1 hfree.2.2⟩
  refine ⟨⟨h.outside, fun x hx => h.clients x (mem_filter.mp hx).1, fun q x hx => ?_, h.counted,
    fun x hx => ?_, fun x hx => ?_, h.default, h.first⟩, hlegal⟩
  · obtain ⟨hin, hclass⟩ := h.attached q x hx
    exact ⟨hmem x hin fun _ => h.clients_ne_zero hx, hclass⟩
  · obtain ⟨hin, hclass⟩ := h.config x (mem_filter.mp hx).1
    exact ⟨hmem x hin fun hill => absurd (hill.symm.trans (hlegal x hx)) (by decide), hclass⟩
  · obtain ⟨hin, hout, hstatus⟩ := h.auth x hx
    refine ⟨hmem x hin fun hill => ?_, fun hglobal => hout (mem_filter.mp hglobal).1, hstatus⟩
    rw [ConfItem.isIllegal, hstatus] at hill
    exact absurd hill (by decide)

lemma Sound.classMarkDelete (h : Sound s)
    (hill : ∀ a ∈ s.globalConfList, (s.item a).isIllegal = true) : Sound (classMarkDelete s) := by
  refine h.reclass (fun c hc _ => hc) (fun c hc => ?_) (fun x hx hlegal => ?_) ?_ h.first
  · rw [← h.counted c hc]
    split <;> rfl
  · exact absurd (hill x hx) (by rw [hlegal]; decide)
  · rw [if_neg h.first]
    exact h.default

lemma Sound.classDeleteMarked (h : Sound s) (hrun : Classes.classDeleteMarked s = some t) :
    Sound t ∧ Reads s t := by
  rw [Classes.classDeleteMarked, if_pos (.inl h.default)] at hrun
  cases hrun
  have hmem : ∀ c ∈ s.connClassList, (s.cls c).valid = true ∨ 1 < (s.cls c).refCount →
      c ∈ s.default :: s.others.filter fun cl => (s.cls cl).valid ∨ 1 < (s.cls cl).refCount :=
    fun c hc hkeep => (mem_cons.mp hc).elim (fun e => e ▸ mem_cons_self) fun hc =>
      mem_cons_of_mem _ (mem_filter.mpr ⟨hc, decide_eq_true hkeep⟩)
  refine ⟨h.reclass (fun c hc hne => hmem c hc (.inr ?_)) (fun c hc => h.counted c ?_)
    (fun x hx hlegal c hc hvalid => ⟨hmem c hc (.inl hvalid), hvalid⟩) h.default
    (fun hin => h.first (mem_filter.mp hin).1), ⟨rfl, rfl, rfl,
    fun _ _ => rfl⟩⟩
  · rw [h.counted c hc]
    exact Nat.lt_add_of_pos_left (Nat.pos_of_ne_zero hne)
  · exact (mem_cons.mp hc).elim (fun e => e ▸ mem_cons_self) fun hc =>
      mem_cons_of_mem _ (mem_filter.mp hc).1

lemma Sound.rehash (h : Sound s) {conf : List Entry} (hfit : conf.all s.fitsEntry = true)
    (hrun : Classes.rehash s conf = some t) :
    (Sound t ∧ t.Legal) ∧ ∀ m, confIllegal &&& m = 0 → ∀ c, t.linked m c = s.linked m c := by
  obtain ⟨u, hu, hrun⟩ := bind_eq_some_iff.mp hrun
  obtain ⟨v, hv, hrun⟩ := bind_eq_some_iff.mp hrun
  cases hrun
  obtain ⟨hsound, hill⟩ := h.markConfs
  have hfit' : conf.all (Classes.classMarkDelete s.markConfs).fitsEntry = true := by
    rw [← hfit]
    congr 1
    funext e
    cases e with
    | feature _ =>
      exact congrArg (fun n => decide (n = 0)) (markConfs_linked s (by decide) s.default)
    | _ => rfl
  obtain ⟨hread, hreads, -⟩ := (hsound.classMarkDelete hill).readConfigurationFile conf hfit' hu
  obtain ⟨hdelete, hreads'⟩ := hread.classDeleteMarked hv
  refine ⟨hdelete.flushConfs, fun m hm c => ?_⟩
  calc v.flushConfs.linked m c = u.linked m c := hreads'.linked m c
    _ = s.markConfs.linked m c := hreads.linked m c
    _ = s.linked m c := markConfs_linked s hm c

lemma Sound.authFindClassConf (h : Sound s) (hlegal : s.Legal) {name : Str} {o : Option ℕ} {u : State}
    (hrun : Classes.authFindClassConf s name a = some (o, u)) (hc : doFindClass s name false = some c) : ∃ x,
    o = some x ∧ (Sound u ∧ u.Legal) ∧ x ∈ u.items ∧ (u.item x).connClass = some c ∧ (u.item x).status =
    confClient ∧ u.clients = s.clients ∧ u.cls = s.cls ∧ u.connClassList = s.connClassList ∧ (∀ m d,
    u.linked m d = s.linked m d) ∧ ∀ p, (s.authConf c).any (· ∈ s.confs p) = true → x ∈ u.confs p := by
  rw [Classes.authFindClassConf] at hrun
  simp only [hc] at hrun
  split at hrun
  · rename_i x hx
    cases hrun
    obtain ⟨hin, -, hstatus⟩ := h.auth x (List.mem_of_find?_eq_some hx)
    refine ⟨x, rfl, ⟨h, hlegal⟩, hin, ?_, hstatus, rfl, rfl, rfl, fun _ _ => rfl, fun p hp => ?_⟩
    · simpa using List.find?_some hx
    · rw [hx] at hp
      exact of_decide_eq_true hp
  · rename_i hnone
    obtain ⟨v, hv, hrun⟩ := bind_eq_some_iff.mp hrun
    cases hrun
    obtain ⟨ha, hset⟩ := makeConf_setClass hv c
    rw [hset]
    obtain ⟨hmem, -⟩ := mem_of_doFindClass hc
    have halloc := h.alloc ha { status := confClient, connClass := some c, clients := 0 } rfl
    refine ⟨a, rfl, ⟨⟨halloc.outside, halloc.clients, halloc.attached, halloc.counted, halloc.config,
      fun x hx => ?_, h.default, h.first⟩, fun x hx => ?_⟩, mem_cons_self, ?_, ?_, rfl, rfl, rfl,
      h.linked_alloc ha _, fun p hp => ?_⟩
    · rcases mem_cons.mp hx with e | hx
      · subst e
        refine ⟨mem_cons_self, fun hin => ha (h.config x hin).1, ?_⟩
        simp only [update_self]
      · exact halloc.auth x hx
    · have hne : x ≠ a := fun e => ha (e ▸ (h.config x hx).1)
      simp only [update_of_ne hne]
      exact hlegal x hx
    · simp only [update_self]
    · simp only [update_self]
    · rw [hnone] at hp
      cases hp

end Config

/-! ## Runs -/

section Run

variable {s t : State} {p a c m : ℕ}

lemma and_clientMask_ne_zero {st : ℕ} (h : st &&& (confOperator ||| confClient) ≠ 0) :
    st &&& confClientMask ≠ 0 := by
  intro hzero
  have hmask : confClientMask = (confOperator ||| confClient) ||| confServer := by decide
  rw [hmask, Nat.and_or_distrib_left] at hzero
  exact h (Nat.or_eq_zero_iff.mp hzero).1

lemma clientLinks_le_links (s : State) (c : ℕ) : s.clientLinks c ≤ s.links c := by
  refine held_mono fun a ha => ?_
  rw [ConfItem.isFor, decide_eq_true_eq] at ha ⊢
  exact ⟨and_clientMask_ne_zero ha.1, ha.2⟩

lemma Sound.full_of_refused (h : Sound s) (hfit : a ∈ s.confs p ∨ (s.item a).isIllegal = true ∨
      (s.item a).status &&& (confOperator ||| confClient) = 0 ∨
      (s.item a).connClass.all s.fitsClass = true)
    (hrun : Classes.attachConf s p a = some (.acrTooManyInClass, t)) :
    ∃ c ∈ s.connClassList, (s.item a).connClass = some c ∧ (s.cls c).maxLinks ≤ s.links c := by
  rcases attachConf_cases hrun with ⟨-, hr⟩ | ⟨hnew, hill, -, hfor, c, hc, hin, hle⟩ | ⟨-, -, hr, -⟩
    | ⟨-, -, hr, -⟩
  · exact absurd rfl hr
  · rcases hfit with hold | hill' | hzero | hroom
    · exact absurd hold hnew
    · exact absurd (hill'.symm.trans hill) (by decide)
    · exact absurd hzero hfor
    · rw [hc] at hroom
      have hne := of_decide_eq_true hroom
      rw [h.counted c hin] at hle
      exact ⟨c, hin, hc, by omega⟩
  · cases hr
  · cases hr

lemma Sound.clientLinks_attachConf (h : Sound s) (hp : p ∈ s.clients) {r : AuthorizationCheckResult}
    (hclass : (s.item a).isIllegal = false → s.Classed a)
    (hmax : c ∈ s.connClassList → (s.cls c).maxLinks = m) (hm : 0 < m) (hle : s.clientLinks c ≤ m)
    (hrun : Classes.attachConf s p a = some (r, t)) : t.clientLinks c ≤ m := by
  rcases attachConf_cases hrun with ⟨rfl, -⟩ | ⟨-, -, ⟨rfl, -⟩, -⟩ | ⟨-, hill, -, hmask, rfl⟩
    | ⟨-, hill, -, hmask, d, hd, hroom, rfl⟩
  · exact hle
  · exact hle
  · rw [State.clientLinks, linked_link hp, if_neg, Nat.add_zero]
    · exact hle
    · rw [ConfItem.isFor, decide_eq_true_eq]
      exact fun hfor => and_clientMask_ne_zero hfor.1 hmask
  · have hlink : ((s.link p a).setLinks d ((s.cls d).refCount + 1)).clientLinks c
        = s.clientLinks c + if (s.item a).isFor (confOperator ||| confClient) c then 1 else 0 :=
      linked_link hp _ c
    rw [hlink]
    split
    · rename_i hfor
      rw [ConfItem.isFor, decide_eq_true_eq] at hfor
      obtain rfl : d = c := some.inj (hd.symm.trans hfor.2)
      have hin := (hclass hill d hd).1
      have hlt := hroom hfor.1 (by rw [hmax hin]; exact hm)
      rw [hmax hin, h.counted d hin] at hlt
      have := clientLinks_le_links s d
      omega
    · exact hle

def Good (s : State) : Prop := Sound s ∧ s.Legal

lemma Good.classed (h : Good s) (ha : a ∈ s.globalConfList) : a ∈ s.items ∧ s.Classed a :=
  ⟨(h.1.config a ha).1, ((h.1.config a ha).2 (h.2 a ha)).1⟩

lemma iauthAssign_cases {name : Str} {r : AuthorizationCheckResult}
    (hrun : iauthAssign s p name a = some (r, t)) : (r = .acrOk ∧ t = s) ∨ ∃ c x u, doFindClass s name false =
    some c ∧ authFindClassConf s name a = some (some x, u) ∧ attachConf u p x = some (r, t) := by
  obtain ⟨⟨o, u⟩, hu, hrun⟩ := bind_eq_some_iff.mp hrun
  cases hc : doFindClass s name false with
  | none =>
    rw [authFindClassConf, hc] at hu
    cases hu
    cases hrun
    exact .inl ⟨rfl, rfl⟩
  | some c =>
    cases o with
    | none =>
      cases hrun
      simp only [authFindClassConf, hc] at hu
      split at hu
      · cases hu
      · obtain ⟨v, -, hv⟩ := bind_eq_some_iff.mp hu
        cases hv
    | some x => exact .inr ⟨c, x, u, rfl, hu, hrun⟩

lemma Good.step {e : Event} (h : Good s) (hok : s.allowed e = true) (hfit : s.fits e = true)
    (hstep : s.step e = some t) : Good t := by
  obtain ⟨hsound, hlegal⟩ := h
  cases e with
  | initConf conf =>
    obtain ⟨hsound', -, hlegal'⟩ := hsound.readConfigurationFile conf hfit hstep
    exact ⟨hsound', hlegal' hlegal⟩
  | rehash conf => exact (hsound.rehash hfit hstep).1
  | setFeature n =>
    obtain ⟨hsound', -, hlegal'⟩ := hsound.read (e := .feature n) hfit hstep
    exact ⟨hsound', hlegal' hlegal⟩
  | connect p =>
    cases hstep
    have hnil := hsound.outside p (of_decide_eq_true hok)
    refine ⟨⟨fun q hq => hsound.outside q fun hin => hq (Finset.mem_insert_of_mem hin), fun x hx => ?_,
      hsound.attached, fun c hc => ?_, hsound.config, hsound.auth, hsound.default, hsound.first⟩, hlegal⟩
    · rw [held_insert hnil]
      exact hsound.clients x hx
    · rw [State.links, State.linked, held_insert hnil]
      exact hsound.counted c hc
  | attach p a =>
    obtain ⟨hp, ha⟩ := of_decide_eq_true hok
    obtain ⟨⟨r, u⟩, hu, rfl⟩ := map_eq_some_iff.mp hstep
    obtain ⟨hin, hclass⟩ := Good.classed ⟨hsound, hlegal⟩ ha
    obtain ⟨hsound', hglobal, hill⟩ := hsound.attachConf hp hin (fun _ => hclass) hu
    exact ⟨hsound', fun x hx => (hill x).trans (hlegal x (hglobal ▸ hx))⟩
  | assign p name a =>
    obtain ⟨⟨r, u⟩, hu, rfl⟩ := map_eq_some_iff.mp hstep
    rcases iauthAssign_cases hu with ⟨-, rfl⟩ | ⟨c, x, v, hc, hv, hu⟩
    · exact ⟨hsound, hlegal⟩
    · obtain ⟨y, hxy, hgood, hin, hclass, hstatus, hclients, -, hlist, -⟩ :=
        hsound.authFindClassConf hlegal hv hc
      cases hxy
      have hclassed : v.Classed x := fun d hd => by
        cases hclass.symm.trans hd
        rw [hlist, hstatus]
        exact ⟨(mem_of_doFindClass hc).1, by decide⟩
      have hp : p ∈ v.clients := hclients ▸ of_decide_eq_true hok
      obtain ⟨hsound', hglobal, hill⟩ := hgood.1.attachConf hp hin (fun _ => hclassed) hu
      exact ⟨hsound', fun z hz => (hill z).trans (hgood.2 z (hglobal ▸ hz))⟩
  | detach p mask => exact (hsound.detConfs _ hlegal hstep).1
  | exit p =>
    obtain ⟨u, hu, rfl⟩ := map_eq_some_iff.mp hstep
    obtain ⟨⟨hsound', hlegal'⟩, -, hnil, -⟩ := hsound.detConfs _ hlegal hu
    have hnil := hnil rfl rfl
    refine ⟨⟨fun q hq => ?_, fun x hx => ?_, hsound'.attached, fun c hc => ?_, hsound'.config,
      hsound'.auth, hsound'.default, hsound'.first⟩, hlegal'⟩
    · by_cases e : q = p
      · exact e ▸ hnil
      · exact hsound'.outside q fun hin => hq (Finset.mem_erase.mpr ⟨e, hin⟩)
    · rw [held_remove hnil]
      exact hsound'.clients x hx
    · rw [State.links, State.linked, held_remove hnil]
      exact hsound'.counted c hc

lemma Good.clientLinks_step {e : Event} (h : Good s) (hok : s.allowed e = true) (hfit : s.fits e = true)
    (hstep : s.step e = some t) (hmax : c ∈ s.connClassList → (s.cls c).maxLinks = m) (hm : 0 < m)
    (hle : s.clientLinks c ≤ m) : t.clientLinks c ≤ m := by
  obtain ⟨hsound, hlegal⟩ := h
  cases e with
  | initConf conf =>
    obtain ⟨-, hreads, -⟩ := hsound.readConfigurationFile conf hfit hstep
    exact (hreads.linked _ c).trans_le hle
  | rehash conf => exact ((hsound.rehash hfit hstep).2 _ (by decide) c).trans_le hle
  | setFeature n =>
    obtain ⟨-, hreads, -⟩ := hsound.read (e := .feature n) hfit hstep
    exact (hreads.linked _ c).trans_le hle
  | connect p =>
    cases hstep
    exact (held_insert (hsound.outside p (of_decide_eq_true hok)) _).trans_le hle
  | attach p a =>
    obtain ⟨hp, ha⟩ := of_decide_eq_true hok
    obtain ⟨⟨r, u⟩, hu, rfl⟩ := map_eq_some_iff.mp hstep
    obtain ⟨-, hclass⟩ := Good.classed ⟨hsound, hlegal⟩ ha
    exact hsound.clientLinks_attachConf hp (fun _ => hclass) hmax hm hle hu
  | assign p name a =>
    obtain ⟨⟨r, u⟩, hu, rfl⟩ := map_eq_some_iff.mp hstep
    rcases iauthAssign_cases hu with ⟨-, rfl⟩ | ⟨d, x, v, hd, hv, hu⟩
    · exact hle
    · obtain ⟨y, hxy, hgood, -, hclass, hstatus, hclients, hcls, hlist, hlinked, -⟩ :=
        hsound.authFindClassConf hlegal hv hd
      cases hxy
      have hclassed : v.Classed x := fun b hb => by
        cases hclass.symm.trans hb
        rw [hlist, hstatus]
        exact ⟨(mem_of_doFindClass hd).1, by decide⟩
      have hp : p ∈ v.clients := hclients ▸ of_decide_eq_true hok
      refine hgood.1.clientLinks_attachConf hp (fun _ => hclassed) (fun hin => ?_) hm ?_ hu
      · rw [hcls]
        exact hmax (hlist ▸ hin)
      · exact (hlinked _ c).trans_le hle
  | detach p mask => exact ((hsound.detConfs _ hlegal hstep).2.2.2 _ c).trans hle
  | exit p =>
    obtain ⟨u, hu, rfl⟩ := map_eq_some_iff.mp hstep
    obtain ⟨-, -, hnil, hlinked⟩ := hsound.detConfs _ hlegal hu
    exact (held_remove (hnil rfl rfl) _).trans_le ((hlinked _ c).trans hle)

lemma Good.full_of_refused {e : Event} (h : Good s) (hfit : s.fits e = true) (hrefused : s.refused e = true) :
    ∃ c ∈ s.connClassList, s.target e = some c ∧ (s.cls c).maxLinks ≤ s.links c := by
  obtain ⟨hsound, hlegal⟩ := h
  cases e with
  | attach p a =>
    obtain ⟨⟨r, u⟩, hu, hr⟩ := (any_eq_true _ _).mp hrefused
    obtain rfl := of_decide_eq_true hr
    exact hsound.full_of_refused (of_decide_eq_true hfit) hu
  | assign p name a =>
    obtain ⟨⟨r, u⟩, hu, hr⟩ := (any_eq_true _ _).mp hrefused
    obtain rfl := of_decide_eq_true hr
    rcases iauthAssign_cases hu with ⟨hr, -⟩ | ⟨c, x, v, hc, hv, hu⟩
    · cases hr
    · obtain ⟨y, hxy, hgood, -, hclass, -, -, hcls, hlist, hlinked, hold⟩ :=
        hsound.authFindClassConf hlegal hv hc
      cases hxy
      have hroom : x ∈ v.confs p ∨ v.fitsClass c = true := by
        rw [State.fits, hc, Option.all_some, Bool.or_eq_true] at hfit
        refine hfit.imp (hold p) fun hroom => ?_
        rw [State.fitsClass, State.links, hlinked, hcls]
        exact hroom
      obtain ⟨d, hin, hd, hle⟩ := hgood.1.full_of_refused (hroom.elim .inl fun hroom =>
        .inr (.inr (.inr (by rw [hclass]; exact hroom)))) hu
      cases hclass.symm.trans hd
      refine ⟨c, hlist ▸ hin, hc, ?_⟩
      rw [State.links, ← hlinked, ← hcls]
      exact hle
  | _ => cases hrefused

lemma Good.start (cls : ℕ → ConnectionClass) (item : ℕ → ConfItem) (p maximumLinks : ℕ) :
    Good (State.start cls item p maximumLinks) := by
  refine ⟨⟨fun _ _ => rfl, fun x hx => (nomatch hx), fun _ x hx => (nomatch hx), fun c hc => ?_,
    fun x hx => (nomatch hx), fun x hx => (nomatch hx), ?_, fun hx => (nomatch hx)⟩,
    fun x hx => (nomatch hx)⟩
  · obtain rfl := List.mem_singleton.mp hc
    simp only [State.start, Classes.initClass, update_self]
    rfl
  · simp only [State.start, Classes.initClass, update_self]

lemma Good.clientLinks_run (hm : 0 < m) : (fs : List Event) → ∀ {s : State}, Good s →
    Runs.Meets State.step (fun s e => s.allowed e && s.fits e) s fs →
    Runs.run State.step s fs = some t →
    (∀ gs u, gs <+: fs → Runs.run State.step s gs = some u → c ∈ u.connClassList → (u.cls c).maxLinks = m) →
    s.clientLinks c ≤ m → t.clientLinks c ≤ m
  | [], s, _, _, hrun, _, hle => by
    cases hrun
    exact hle
  | e :: fs, s, h, ⟨hcond, hrest⟩, hrun, hmax, hle => by
    obtain ⟨u, hu, hrun⟩ := bind_eq_some_iff.mp hrun
    rw [Bool.and_eq_true] at hcond
    have hle' : u.clientLinks c ≤ m :=
      h.clientLinks_step hcond.1 hcond.2 hu (hmax [] s List.nil_prefix rfl) hm hle
    refine Good.clientLinks_run hm fs (h.step hcond.1 hcond.2 hu) (hrest u hu) hrun
      (fun gs v hgs hv => hmax (e :: gs) v ?_ ?_) hle'
    · exact List.cons_prefix_cons.mpr ⟨rfl, hgs⟩
    · rw [Runs.run, hu]
      exact hv

/-- **Links are accounted for**: in every run in which no item is tried for a class with room for just one more
and the first class is initialised only without links, the count of each class is one more than its links, a
client is refused only for a class that has all its links, no class of an item that a client has is freed, and a
class whose limit is positive and does not change does not get more. -/
theorem links_accounted (cls : ℕ → ConnectionClass) (item : ℕ → ConfItem) (p maximumLinks : ℕ)
    (es fs : List Event)
    (hmeets : Runs.Meets State.step (fun s e => s.allowed e && s.fits e)
      (State.start cls item p maximumLinks) (es ++ fs))
    (hs : Runs.run State.step (State.start cls item p maximumLinks) es = some s)
    (ht : Runs.run State.step s fs = some t) :
    (∀ c ∈ t.connClassList, (t.cls c).refCount = t.links c + 1) ∧
    (∀ e, t.fits e = true → t.refused e = true →
      ∃ c ∈ t.connClassList, t.target e = some c ∧ (t.cls c).maxLinks ≤ t.links c) ∧
    (∀ q a c, a ∈ t.confs q → (t.item a).connClass = some c → c ∈ t.connClassList) ∧
    ∀ c m, 0 < m → s.clientLinks c ≤ m →
      (∀ gs u, gs <+: fs → Runs.run State.step s gs = some u → c ∈ u.connClassList →
        (u.cls c).maxLinks = m) → t.clientLinks c ≤ m := by
  have hstep : ∀ s e t, Good s → (s.allowed e && s.fits e) = true → s.step e = some t → Good t := by
    intro s e t h hcond hstep
    rw [Bool.and_eq_true] at hcond
    exact h.step hcond.1 hcond.2 hstep
  have hgood : Good s := Runs.Meets.of_run hstep es (Good.start ..) (hmeets.left es) hs
  have hmeets' := hmeets.right es hs
  have hgood' : Good t := Runs.Meets.of_run hstep fs hgood hmeets' ht
  refine ⟨hgood'.1.counted, fun e hfit hrefused => hgood'.full_of_refused hfit hrefused,
    fun q a c ha hc => ((hgood'.1.attached q a ha).2 c hc).1, fun c m hm hle hmax => ?_⟩
  exact Good.clientLinks_run hm fs hgood hmeets' ht hmax hle

/-- Clients and an operator come and go, and the configuration is reloaded. -/
theorem links_accounted_example : ∃ t,
    Runs.run State.step (State.start (fun _ => ⟨[], 0, 0, false⟩) (fun _ => ⟨0, none, 0⟩) 100 1)
      [.initConf [.classBlock ['u'] 5 200, .block .client ['u'] 10, .block .operator ['u'] 11],
        .connect 1, .attach 1 10, .connect 2, .attach 2 10, .attach 2 11,
        .rehash [.classBlock ['u'] 5 201, .block .client ['u'] 12, .feature 3], .exit 1, .connect 3,
        .assign 3 ['u'] 13, .detach 2 confClient] = some t ∧
    (∀ c ∈ t.connClassList, (t.cls c).refCount = t.links c + 1) ∧
    ∀ q a c, a ∈ t.confs q → (t.item a).connClass = some c → c ∈ t.connClassList := by
  obtain ⟨t, ht⟩ := Option.isSome_iff_exists.mp (show (Runs.run State.step
    (State.start (fun _ => ⟨[], 0, 0, false⟩) (fun _ => ⟨0, none, 0⟩) 100 1)
    [.initConf [.classBlock ['u'] 5 200, .block .client ['u'] 10, .block .operator ['u'] 11],
      .connect 1, .attach 1 10, .connect 2, .attach 2 10, .attach 2 11,
      .rehash [.classBlock ['u'] 5 201, .block .client ['u'] 12, .feature 3], .exit 1, .connect 3,
      .assign 3 ['u'] 13, .detach 2 confClient]).isSome from by decide +kernel)
  obtain ⟨hcounted, -, hthere, -⟩ := links_accounted _ _ 100 1 [] _ (by decide +kernel) rfl ht
  exact ⟨t, ht, hcounted, hthere⟩

/-- A client is refused for a class with no links and a limit of one; and the first class counts no
link when it is initialised with one. -/
theorem links_miscounted : (∃ es p a c s, Runs.Meets State.step State.allowed
        (State.start (fun _ => ⟨[], 0, 0, false⟩) (fun _ => ⟨0, none, 0⟩) 100 1)
        (es ++ [.attach p a]) ∧
      Runs.run State.step (State.start (fun _ => ⟨[], 0, 0, false⟩) (fun _ => ⟨0, none, 0⟩) 100 1) es = some s ∧
      s.refused (.attach p a) = true ∧ s.target (.attach p a) = some c ∧
      s.links c = 0 ∧ (s.cls c).maxLinks = 1) ∧
    ∃ es c s, Runs.Meets State.step State.allowed
        (State.start (fun _ => ⟨[], 0, 0, false⟩) (fun _ => ⟨0, none, 0⟩) 100 5) es ∧
      Runs.run State.step (State.start (fun _ => ⟨[], 0, 0, false⟩) (fun _ => ⟨0, none, 0⟩) 100 5) es = some s ∧
      c ∈ s.connClassList ∧ (s.cls c).refCount = 1 ∧ s.links c = 1 := by
  refine ⟨⟨[.initConf [.classBlock ['u'] 1 200, .block .client ['u'] 10], .connect 1], 1, 10, 200, _,
    by decide +kernel, rfl, by decide +kernel, by decide +kernel, by decide +kernel, by decide +kernel⟩,
    [.initConf [.block .client "default".toList 10], .connect 1, .attach 1 10, .setFeature 5], 100, _,
    by decide +kernel, rfl, by decide +kernel, by decide +kernel, by decide +kernel⟩

end Run

end Nefarious.Classes
