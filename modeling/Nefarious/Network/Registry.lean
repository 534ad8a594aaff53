import Nefarious.Network.Server

/-!
# The registry of user numerics

A user is addressed by the two characters of its server and three of its own.

Names: `numnicks.c`.
-/

namespace Nefarious.Network

open Option (bind_eq_bind bind_eq_some_iff bind_some isSome_iff_exists map_some some.inj)
open List (length_append length_drop length_take)
open Function (update update_idem update_of_ne update_self)

/-! ## The source functions -/

/-- Number of clients representable in a numnick. -/
def nnMaxClient : ℕ := 262144

/-- Look up a user by numnick string. A text of five characters has two for the server; of any other the
characters from the second on are the user's. -/
def findNUser (s : Ircd) (yxx : Str) : Option ClientId :=
  if yxx.length = 5 then do
    let server ← s.server_list (base64toint (yxx.take 2))
    let sv ← (← s.cli server).serv
    let cl ← s.client_list server
    cl (base64toint (yxx.drop 2) &&& sv.nn_mask)
  else do
    let server ← s.server_list (serverSlot yxx)
    let sv ← (← s.cli server).serv
    let cl ← s.client_list server
    cl (base64toint (yxx.drop 1) &&& sv.nn_mask)

/-- The number that a remote user is registered with, as text: three characters of five, and the second and
third of any other text. `SetRemoteNumNick` -/
def remoteYXX (yxx : Str) : Str :=
  if yxx.length = 5 then yxx.drop 2 else (yxx.drop 1).take 2

/-- The value that `base64toint` reads from the stored number. A text of one character leaves an empty number
followed by the byte that stands behind the text, and the first character is read before the end is tested.
`SetRemoteNumNick`, `base64toint` -/
def remoteIndex (yxx : Str) (past : Char) : ℕ :=
  if yxx.length ≤ 1 then convert2n past else base64toint (remoteYXX yxx)

/-- Exit the client that holds a slot, if there is one. It is no server, so the exit needs no recursion. `SetRemoteNumNick` -/
def exitHolder (s : Ircd) : Option ClientId → Option Ircd
  | some old => exitClient 0 s old
  | none => some s

/-- Register the numeric of a new remote client; whoever holds its slot is exited first. -/
def setRemoteNumNick (s : Ircd) (acptr : ClientId) (yxx : Str) (past : Char) : Option Ircd := do
  let c ← s.cli acptr
  let us ← c.user
  let sv ← (← s.cli us.server).serv
  let cl ← s.client_list us.server
  let i := remoteIndex yxx past &&& sv.nn_mask
  let s := setCli s acptr { c with yxx := remoteYXX yxx }
  let s ← exitHolder s (cl i)
  let cl ← s.client_list us.server
  some { s with client_list := update s.client_list us.server (some (update cl i (some acptr))) }

/-- Advance the running counter. `SetLocalNumNick`. -/
def bumpNN (last_nn : ℕ) : ℕ := if last_nn + 1 = nnMaxClient then 0 else last_nn + 1

/-- The search for a free slot: whether one was found, the value of `count`, and the counter. `left` is the
number of slots that may still be passed over, `NN_MAX_CLIENT - 1 - count`. `SetLocalNumNick` (the loop) -/
def numNickLoop (cl : ℕ → Option ClientId) (mask : ℕ) : ℕ → ℕ → ℕ → Bool × ℕ × ℕ
  | 0, count, last_nn =>
    if (cl (last_nn &&& mask)).isSome then (false, count + 1, last_nn) else (true, count, last_nn)
  | left + 1, count, last_nn =>
    if (cl (last_nn &&& mask)).isSome then numNickLoop cl mask left (count + 1) (bumpNN last_nn)
    else (true, count, last_nn)

/-- The daemon with the running counter, and two histories that nothing reads: how often the counter was
advanced, and the numbers given out with the advances before each, newest first. `SetLocalNumNick` (`last_nn`)
-/
structure Registry extends Ircd where
  last_nn : ℕ
  /-- How often the counter was advanced. -/
  turns : ℕ
  handed : List (Str × ℕ)

/-- Register the numeric of a new local client. The result says whether there was a free slot. -/
def setLocalNumNick (s : Registry) (cptr : ClientId) : Option (Registry × Bool) := do
  let c ← s.cli cptr
  let sv ← (← s.cli s.me).serv
  let cl ← s.client_list s.me
  match numNickLoop cl sv.nn_mask (nnMaxClient - 1) 0 s.last_nn with
  | (false, count, last_nn) =>
    some ({ s with last_nn := last_nn, turns := s.turns + (count - 1) }, false)
  | (true, count, last_nn) =>
    some ({ s with
      cli := update s.cli cptr (some { c with yxx := inttobase64 last_nn 3 })
      client_list := update s.client_list s.me (some (update cl (last_nn &&& sv.nn_mask) (some cptr)))
      last_nn := bumpNN last_nn
      turns := s.turns + count + 1
      handed := (inttobase64 last_nn 3, s.turns + count) :: s.handed }, true)

/-- The client becomes a user. `client.h`. -/
def Registry.setUser (s : Registry) (x : ClientId) (c : Client) : Registry :=
  { s with toIrcd := setCli s.toIrcd x { c with status := .user } }

/-- What happens to the users of a network whose links stay as they are. -/
inductive UserEvent
  /-- A local connection gets its user data. `s_auth.c` `start_auth`. -/
  | connect (x : ClientId) (fd : ℕ)
  /-- A local connection becomes a user; the answer of `SetLocalNumNick` is not looked at. `s_user.c`
  `register_user`. -/
  | register (x : ClientId)
  /-- The server `sptr`, reached through `cptr`, introduces a user with the numeric `yxx`. `s_user.c`
  `set_nick_name`. -/
  | introduce (x sptr cptr : ClientId) (nick info yxx : Str) (past : Char)
  /-- A user or an unregistered connection exits. `s_misc.c` `exit_client`. -/
  | exit (x : ClientId)
  deriving DecidableEq

/-- The record of a client that is not registered yet. `list.c` `make_client`, `make_user` -/
def newClient (server cptr : ClientId) (nick : Str) (fd : Option ℕ) : Client where
  status := .unknown
  name := nick
  yxx := []
  cli_from := cptr
  fd := fd
  info := []
  junction := false
  serv := none
  user := some ⟨server⟩

/-- A server introduces a user. `s_user.c` `set_nick_name`, `register_user` -/
def introduceUser (s : Ircd) (x sptr cptr : ClientId) (nick info yxx : Str) (past : Char) :
    Option Ircd := do
  let s ← setRemoteNumNick (setCli s x (newClient sptr cptr nick none)) x yxx past
  let s := hAddClient (addClientToList s x) x nick
  let c ← s.cli x
  some (setCli s x { c with info := info, status := .user })

/-- One event. A client that arrives is a new record; a user is introduced by a linked server; a local
connection registers once; and what exits here has user data. `s_auth.c` `start_auth`; `s_user.c`
`register_user`, `set_nick_name`; `s_misc.c` `exit_client` -/
def Registry.step (s : Registry) : UserEvent → Option Registry
  | .connect x fd =>
    if s.cli x = none then
      some { s with toIrcd := setCli s.toIrcd x (newClient s.me x [] (some fd)) }
    else none
  | .register x => do
      let c ← s.cli x
      if c.status = .unknown ∧ c.user = some ⟨s.me⟩ then do
        let r ← setLocalNumNick (s.setUser x c) x
        some r.1
      else none
  | .introduce x sptr cptr nick info yxx past => do
      let p ← s.cli sptr
      if s.cli x = none ∧ p.status = .server ∧ p.serv.isSome ∧ (s.client_list sptr).isSome then do
        let t ← introduceUser s.toIrcd x sptr cptr nick info yxx past
        some { s with toIrcd := t }
      else none
  | .exit x => do
      let c ← s.cli x
      if c.user.isSome then do
        let t ← exitClient 0 s.toIrcd x
        some { s with toIrcd := t }
      else none

def Registry.run (s : Registry) : List UserEvent → Option Registry
  | [] => some s
  | e :: es => do (← s.step e).run es

/-! ## The numeric tables -/

/-- The part of the tables that numerics are looked up in. -/
@[ext]
structure Numerics where
  me : ClientId
  cli : ClientId → Option Client
  server_list : ℕ → Option ClientId
  client_list : ClientId → Option (ℕ → Option ClientId)

def Ircd.numerics (s : Ircd) : Numerics := ⟨s.me, s.cli, s.server_list, s.client_list⟩

@[simp] lemma Ircd.numerics_me (s : Ircd) : s.numerics.me = s.me := rfl

@[simp] lemma Ircd.numerics_cli (s : Ircd) : s.numerics.cli = s.cli := rfl

@[simp] lemma Ircd.numerics_server_list (s : Ircd) : s.numerics.server_list = s.server_list := rfl

@[simp] lemma Ircd.numerics_client_list (s : Ircd) : s.numerics.client_list = s.client_list := rfl

namespace Numerics

def put (v : Numerics) (x : ClientId) (c : Client) : Numerics :=
  { v with cli := update v.cli x (some c) }

/-- Write a slot of the array of `p`. -/
def setSlot (v : Numerics) (p : ClientId) (i : ℕ) (o : Option ClientId) : Numerics :=
  { v with client_list := update v.client_list p ((v.client_list p).map (update · i o)) }

def forget (v : Numerics) (x : ClientId) : Numerics :=
  { v with
    cli := update v.cli x none
    client_list := update v.client_list x none }

/-- The record of a server, its server data and its array. -/
structure Linked (v : Numerics) (p : ClientId) (pc : Client) (sv : Serv)
    (cl : ℕ → Option ClientId) : Prop where
  cli : v.cli p = some pc
  user : pc.user = none
  serv : pc.serv = some sv
  list : v.client_list p = some cl

/-- The tables without the contents of the arrays: users hang on linked servers, and the servers
hold different slots. -/
structure Framed (v : Numerics) : Prop where
  plain : ∀ x c us, v.cli x = some c → c.user = some us →
    c.serv = none ∧ c.status ≠ .server ∧ c.status ≠ .me ∧ c.yxx.length ≤ 3 ∧ (c.status = .unknown → c.yxx = [])
  linked : ∀ x c us, v.cli x = some c → c.user = some us → ∃ pc sv cl, v.Linked us.server pc sv cl
  slot : ∀ p pc sv cl, v.Linked p pc sv cl → v.server_list (base64toint pc.yxx) = some p ∧ pc.yxx.length ≤ 2
  listed : ∀ i p, v.server_list i = some p → ∃ pc sv cl, v.Linked p pc sv cl ∧ base64toint pc.yxx = i
  me : ∃ pc sv cl, v.Linked v.me pc sv cl ∧ pc.yxx.length = 2

/-- A client with a number holds the slot of that number. -/
def Held (v : Numerics) : Prop :=
  ∀ x c p pc sv cl, v.cli x = some c → c.user = some ⟨p⟩ → c.yxx ≠ [] → v.Linked p pc sv cl →
    cl (userSlot c sv) = some x

/-- A slot holds no client without user data, though it may hold one that is gone. -/
def Tenanted (v : Numerics) : Prop :=
  ∀ p pc sv cl i u c, v.Linked p pc sv cl → cl i = some u → v.cli u = some c → c.user.isSome

/-- What holds of the tables in every run. -/
structure Sound (v : Numerics) : Prop where
  framed : v.Framed
  held : v.Held
  tenanted : v.Tenanted

/-- A slot holds a client of that server with a number of that slot. -/
def Filled (v : Numerics) : Prop :=
  ∀ p pc sv cl i u, v.Linked p pc sv cl → cl i = some u →
    ∃ c, v.cli u = some c ∧ c.user = some ⟨p⟩ ∧ c.yxx ≠ [] ∧ i = userSlot c sv

variable {v w : Numerics} {x y p q : ClientId} {c d pc : Client} {sv : Serv}
  {cl : ℕ → Option ClientId} {i : ℕ} {o : Option ClientId}

lemma put_cli : (v.put x d).cli y = some c ↔ y = x ∧ d = c ∨ y ≠ x ∧ v.cli y = some c := by
  rw [put]
  by_cases e : y = x
  · subst e
    simp
  · simp [e]

lemma forget_cli : (v.forget x).cli y = some c ↔ y ≠ x ∧ v.cli y = some c := by
  rw [forget]
  by_cases e : y = x
  · subst e
    simp
  · simp [e]

lemma forget_list : (v.forget x).client_list y = some cl ↔ y ≠ x ∧ v.client_list y = some cl := by
  rw [forget]
  by_cases e : y = x
  · subst e
    simp
  · simp [e]

lemma setSlot_list : (v.setSlot p i o).client_list q = some cl ↔
    q = p ∧ (∃ l, v.client_list p = some l ∧ update l i o = cl) ∨ q ≠ p ∧ v.client_list q = some cl := by
  rw [setSlot]
  by_cases e : q = p
  · subst e
    simp
  · simp [e]

lemma Linked.ne (h : v.Linked p pc sv cl) (hx : ∀ c, v.cli x = some c → c.user.isSome) : p ≠ x := by
  rintro rfl
  have hu := hx pc h.cli
  rw [h.user] at hu
  cases hu

lemma Linked.functional {pc' : Client} {sv' : Serv} {cl' : ℕ → Option ClientId}
    (h : v.Linked p pc sv cl) (h' : v.Linked p pc' sv' cl') : pc = pc' ∧ sv = sv' ∧ cl = cl' := by
  have h1 := some.inj (h.cli.symm.trans h'.cli)
  subst h1
  exact ⟨rfl, some.inj (h.serv.symm.trans h'.serv), some.inj (h.list.symm.trans h'.list)⟩

lemma linked_put (hx : ∀ c, v.cli x = some c → c.user.isSome) (hu : d.user.isSome) :
    (v.put x d).Linked q pc sv cl ↔ v.Linked q pc sv cl := by
  constructor
  · rintro ⟨h1, h2, h3, h4⟩
    rcases put_cli.mp h1 with ⟨-, rfl⟩ | ⟨-, h1⟩
    · rw [h2] at hu
      cases hu
    · exact ⟨h1, h2, h3, h4⟩
  · intro h
    exact ⟨put_cli.mpr (Or.inr ⟨h.ne hx, h.cli⟩), h.user, h.serv, h.list⟩

lemma linked_forget (hx : ∀ c, v.cli x = some c → c.user.isSome) :
    (v.forget x).Linked q pc sv cl ↔ v.Linked q pc sv cl := by
  constructor
  · rintro ⟨h1, h2, h3, h4⟩
    exact ⟨(forget_cli.mp h1).2, h2, h3, (forget_list.mp h4).2⟩
  · intro h
    exact ⟨forget_cli.mpr ⟨h.ne hx, h.cli⟩, h.user, h.serv, forget_list.mpr ⟨h.ne hx, h.list⟩⟩

lemma linked_setSlot : (v.setSlot p i o).Linked q pc sv cl ↔
    ∃ l, v.Linked q pc sv l ∧ (if q = p then update l i o else l) = cl := by
  constructor
  · rintro ⟨h1, h2, h3, h4⟩
    rcases setSlot_list.mp h4 with ⟨rfl, l, hl, rfl⟩ | ⟨hne, h4⟩
    · exact ⟨l, ⟨h1, h2, h3, hl⟩, if_pos rfl⟩
    · exact ⟨cl, ⟨h1, h2, h3, h4⟩, if_neg hne⟩
  · rintro ⟨l, h, rfl⟩
    refine ⟨h.cli, h.user, h.serv, setSlot_list.mpr ?_⟩
    by_cases e : q = p
    · subst e
      exact .inl ⟨rfl, l, h.list, by rw [if_pos rfl]⟩
    · rw [if_neg e]
      exact .inr ⟨e, h.list⟩

lemma Framed.frame (h : v.Framed) (hme : w.me = v.me) (hsl : w.server_list = v.server_list)
    (hl : ∀ q pc sv, (∃ cl, w.Linked q pc sv cl) ↔ ∃ cl, v.Linked q pc sv cl)
    (hu : ∀ y c us, w.cli y = some c → c.user = some us →
      (c.serv = none ∧ c.status ≠ .server ∧ c.status ≠ .me ∧ c.yxx.length ≤ 3 ∧
        (c.status = .unknown → c.yxx = [])) ∧
        ∃ pc sv cl, v.Linked us.server pc sv cl) : w.Framed := by
  constructor
  · intro y c us hy hc
    exact (hu y c us hy hc).1
  · intro y c us hy hc
    simp only [hl]
    exact (hu y c us hy hc).2
  · intro q pc sv cl hq
    obtain ⟨cl', hq'⟩ := (hl q pc sv).mp ⟨cl, hq⟩
    rw [hsl]
    exact h.slot q pc sv cl' hq'
  · intro i q hi
    rw [hsl] at hi
    obtain ⟨pc, sv, cl, hq, hpc⟩ := h.listed i q hi
    obtain ⟨cl', hq'⟩ := (hl q pc sv).mpr ⟨cl, hq⟩
    exact ⟨pc, sv, cl', hq', hpc⟩
  · obtain ⟨pc, sv, cl, hq, hpc⟩ := h.me
    obtain ⟨cl', hq'⟩ := (hl v.me pc sv).mpr ⟨cl, hq⟩
    rw [hme]
    exact ⟨pc, sv, cl', hq', hpc⟩

/-- A user leaves: its slot, if it has a number, and then its record. `s_misc.c` `exit_one_client` -/
def leave (v : Numerics) (x : ClientId) (c : Client) (p : ClientId) (mask : ℕ) : Numerics :=
  (if c.yxx = [] then v else v.setSlot p (base64toint c.yxx &&& mask) none).forget x

lemma leave_cli {mask : ℕ} : (v.leave x d p mask).cli y = some c ↔ y ≠ x ∧ v.cli y = some c := by
  rw [leave, forget_cli]
  split <;> rfl

lemma linked_leave {mask : ℕ} (hx : ∀ c, v.cli x = some c → c.user.isSome) :
    (v.leave x d p mask).Linked q pc sv cl ↔ ∃ l, v.Linked q pc sv l ∧
      (if d.yxx ≠ [] ∧ q = p then update l (base64toint d.yxx &&& mask) none else l) =
        cl := by
  by_cases hd : d.yxx = []
  · rw [leave, if_pos hd, linked_forget hx]
    simp [hd]
  · have hx' : ∀ c, (v.setSlot p (base64toint d.yxx &&& mask) none).cli x = some c →
        c.user.isSome := hx
    rw [leave, if_neg hd, linked_forget hx', linked_setSlot]
    simp [hd]

lemma put_leave {mask : ℕ} (hne : x ≠ y) : (v.put x d).leave y c p mask = (v.leave y c p mask).put x d := by
  simp only [leave, put, forget, setSlot]
  split <;> simp only [Function.update_comm hne.symm]

lemma Framed.leave {mask : ℕ} (h : v.Framed) (hx : ∀ c, v.cli x = some c → c.user.isSome) :
    (v.leave x d p mask).Framed := by
  refine h.frame ?_ ?_ ?_ ?_
  · rw [Numerics.leave]
    split <;> rfl
  · rw [Numerics.leave]
    split <;> rfl
  · intro q pc sv
    simp only [linked_leave hx]
    constructor
    · rintro ⟨_, l, hl, -⟩
      exact ⟨l, hl⟩
    · rintro ⟨l, hl⟩
      exact ⟨_, l, hl, rfl⟩
  · intro y c us hy hc
    have hy' := (leave_cli.mp hy).2
    exact ⟨h.plain y c us hy' hc, h.linked y c us hy' hc⟩

lemma Held.leave (h : v.Held) (hc : v.cli x = some c) (hu : c.user = some ⟨p⟩)
    (hp : v.Linked p pc sv cl) : (v.leave x c p sv.nn_mask).Held := by
  have hx : ∀ c, v.cli x = some c → c.user.isSome := by
    intro c' hc'
    rw [hc] at hc'
    cases hc'
    rw [hu]
    rfl
  intro y d q qc qv l' hy hd hdy hq
  obtain ⟨hne, hy⟩ := leave_cli.mp hy
  obtain ⟨l, hl, rfl⟩ := (linked_leave hx).mp hq
  have hold := h y d q qc qv l hy hd hdy hl
  split
  case isTrue e =>
    obtain ⟨hcy, rfl⟩ := e
    obtain ⟨-, rfl, rfl⟩ := hl.functional hp
    have hself := h x c _ _ _ _ hc hu hcy hl
    rw [update_of_ne ?_]
    · exact hold
    · intro e
      rw [e] at hold
      rw [userSlot] at hself
      rw [hself] at hold
      exact hne (some.inj hold).symm
  case isFalse => exact hold

lemma Sound.leave (h : v.Sound) (hc : v.cli x = some c) (hu : c.user = some ⟨p⟩)
    (hp : v.Linked p pc sv cl) : (v.leave x c p sv.nn_mask).Sound := by
  have hx : ∀ c, v.cli x = some c → c.user.isSome := by
    intro c' hc'
    rw [hc] at hc'
    cases hc'
    rw [hu]
    rfl
  refine ⟨h.framed.leave hx, h.held.leave hc hu hp, ?_⟩
  intro q qc qv l' i u d hq hi hd
  obtain ⟨l, hl, rfl⟩ := (linked_leave hx).mp hq
  have hold : l i = some u := by
    split at hi
    case isTrue =>
      by_cases e : i = base64toint c.yxx &&& sv.nn_mask
      · rw [e, update_self] at hi
        cases hi
      · rwa [update_of_ne e] at hi
    case isFalse => exact hi
  exact h.tenanted q qc qv l i u d hl hold (leave_cli.mp hd).2

lemma Filled.leave (h : v.Filled) (hc : v.cli x = some c) (hu : c.user = some ⟨p⟩)
    (hp : v.Linked p pc sv cl) : (v.leave x c p sv.nn_mask).Filled := by
  have hx : ∀ c, v.cli x = some c → c.user.isSome := by
    intro c' hc'
    rw [hc] at hc'
    cases hc'
    rw [hu]
    rfl
  intro q qc qv l' i u hq hi
  obtain ⟨l, hl, rfl⟩ := (linked_leave hx).mp hq
  have hold : l i = some u ∧ u ≠ x := by
    split at hi
    case isTrue e =>
      obtain ⟨hcy, rfl⟩ := e
      obtain ⟨-, rfl, rfl⟩ := hl.functional hp
      by_cases hi' : i = base64toint c.yxx &&& qv.nn_mask
      · rw [hi', update_self] at hi
        cases hi
      · rw [update_of_ne hi'] at hi
        refine ⟨hi, ?_⟩
        rintro rfl
        obtain ⟨d, hd, -, -, hslot⟩ := h _ _ _ _ i u hl hi
        rw [hc] at hd
        cases hd
        exact hi' hslot
    case isFalse e =>
      refine ⟨hi, ?_⟩
      rintro rfl
      obtain ⟨d, hd, hdu, hdy, -⟩ := h _ _ _ _ i u hl hi
      rw [hc] at hd
      cases hd
      rw [hu] at hdu
      exact e ⟨hdy, by cases hdu; rfl⟩
  obtain ⟨d, hd, hdu, hdy, hslot⟩ := h _ _ _ _ i u hl hold.1
  exact ⟨d, leave_cli.mpr ⟨hold.2, hd⟩, hdu, hdy, hslot⟩

/-- A user record is written, and its slot. -/
def join (v : Numerics) (x : ClientId) (c : Client) (p : ClientId) (i : ℕ) : Numerics :=
  (v.put x c).setSlot p i (some x)

lemma Framed.put (h : v.Framed) (hx : ∀ c, v.cli x = some c → c.user.isSome) (hu : d.user = some ⟨p⟩)
    (hp : v.Linked p pc sv cl) (hserv : d.serv = none) (hst : d.status ≠ .server ∧ d.status ≠ .me)
    (hlen : d.yxx.length ≤ 3 ∧ (d.status = .unknown → d.yxx = [])) : (v.put x d).Framed := by
  refine h.frame rfl rfl ?_ ?_
  · intro q qc qv
    simp only [linked_put hx (by rw [hu]; rfl)]
  · intro y c us hy hc
    rcases put_cli.mp hy with ⟨-, rfl⟩ | ⟨-, hy⟩
    · rw [hu] at hc
      cases hc
      exact ⟨⟨hserv, hst.1, hst.2, hlen⟩, pc, sv, cl, hp⟩
    · exact ⟨h.plain y c us hy hc, h.linked y c us hy hc⟩

lemma Framed.setSlot (h : v.Framed) : (v.setSlot p i o).Framed := by
  refine h.frame rfl rfl ?_ (fun y c us hy hc => ⟨h.plain y c us hy hc, h.linked y c us hy hc⟩)
  intro q qc qv
  simp only [linked_setSlot]
  constructor
  · rintro ⟨_, l, hl, -⟩
    exact ⟨l, hl⟩
  · rintro ⟨l, hl⟩
    exact ⟨_, l, hl, rfl⟩

lemma Held.put (h : v.Held) (hx : ∀ c, v.cli x = some c → c.user.isSome) (hu : d.user.isSome)
    (hkeep : ∀ c, v.cli x = some c → c.user = d.user ∧ c.yxx = d.yxx)
    (hnew : v.cli x = none → d.yxx = []) : (v.put x d).Held := by
  intro y c q qc qv l hy hc hcy hq
  rw [linked_put hx hu] at hq
  rcases put_cli.mp hy with ⟨rfl, rfl⟩ | ⟨-, hy⟩
  · cases ho : v.cli y with
    | none => exact absurd (hnew ho) hcy
    | some c' =>
      obtain ⟨h1, h2⟩ := hkeep c' ho
      rw [userSlot, ← h2]
      exact h y c' q qc qv l ho (h1.trans hc) (h2 ▸ hcy) hq
  · exact h y c q qc qv l hy hc hcy hq

lemma Filled.put (h : v.Filled) (hx : ∀ c, v.cli x = some c → c.user.isSome) (hu : d.user.isSome)
    (hkeep : ∀ c, v.cli x = some c → c.user = d.user ∧ c.yxx = d.yxx) : (v.put x d).Filled := by
  intro q qc qv l i u hq hi
  rw [linked_put hx hu] at hq
  obtain ⟨c, hc, hcu, hcy, hslot⟩ := h q qc qv l i u hq hi
  by_cases e : u = x
  · subst e
    obtain ⟨h1, h2⟩ := hkeep c hc
    exact ⟨d, put_cli.mpr (Or.inl ⟨rfl, rfl⟩), h1 ▸ hcu, h2 ▸ hcy, by
      rw [hslot, userSlot, userSlot, h2]⟩
  · exact ⟨c, put_cli.mpr (Or.inr ⟨e, hc⟩), hcu, hcy, hslot⟩

lemma Held.join (h : v.Held) (hx : ∀ c, v.cli x = some c → c.user.isSome)
    (hu : d.user = some ⟨p⟩) (hp : v.Linked p pc sv cl) (hi : d.yxx ≠ [] → i = userSlot d sv)
    (hfree : ∀ y c, y ≠ x → v.cli y = some c → c.user = some ⟨p⟩ → c.yxx ≠ [] →
      userSlot c sv ≠ i) : (v.join x d p i).Held := by
  intro y c q qc qv l' hy hc hcy hq
  obtain ⟨l, hl, rfl⟩ := linked_setSlot.mp hq
  rw [linked_put hx (by rw [hu]; rfl)] at hl
  rcases put_cli.mp hy with ⟨rfl, rfl⟩ | ⟨hne, hy'⟩
  · rw [hu] at hc
    cases hc
    obtain ⟨-, rfl, rfl⟩ := hl.functional hp
    rw [if_pos rfl, hi hcy, update_self]
  · have hold := h y c q qc qv l hy' hc hcy hl
    split
    case isTrue e =>
      subst e
      obtain ⟨-, rfl, rfl⟩ := hl.functional hp
      rw [update_of_ne (hfree y c hne hy' hc hcy)]
      exact hold
    case isFalse => exact hold

lemma Sound.put (h : v.Sound) (hx : ∀ c, v.cli x = some c → c.user.isSome) (hu : d.user = some ⟨p⟩)
    (hp : v.Linked p pc sv cl) (hserv : d.serv = none) (hst : d.status ≠ .server ∧ d.status ≠ .me)
    (hlen : d.yxx.length ≤ 3 ∧ (d.status = .unknown → d.yxx = []))
    (hkeep : ∀ c, v.cli x = some c → c.user = d.user ∧ c.yxx = d.yxx) (hnew : v.cli x = none → d.yxx = []) :
    (v.put x d).Sound := by
  have hus : d.user.isSome := by rw [hu]; rfl
  refine ⟨h.framed.put hx hu hp hserv hst hlen, h.held.put hx hus hkeep hnew, ?_⟩
  intro q qc qv l i u c hq hi hc
  rcases put_cli.mp hc with ⟨-, rfl⟩ | ⟨-, hc⟩
  · exact hus
  · exact h.tenanted q qc qv l i u c ((linked_put hx hus).mp hq) hi hc

lemma Sound.join (h : v.Sound) (hx : ∀ c, v.cli x = some c → c.user.isSome) (hu : d.user = some ⟨p⟩)
    (hp : v.Linked p pc sv cl) (hserv : d.serv = none) (hst : d.status ≠ .server ∧ d.status ≠ .me)
    (hlen : d.yxx.length ≤ 3 ∧ (d.status = .unknown → d.yxx = [])) (hi : d.yxx ≠ [] → i = userSlot d sv)
    (hfree : ∀ y c, y ≠ x → v.cli y = some c → c.user = some ⟨p⟩ → c.yxx ≠ [] → userSlot c sv ≠ i) :
    (v.join x d p i).Sound := by
  have hus : d.user.isSome := by rw [hu]; rfl
  refine ⟨(h.framed.put hx hu hp hserv hst hlen).setSlot, h.held.join hx hu hp hi hfree, ?_⟩
  intro q qc qv l' j u c hq hj hc
  obtain ⟨l, hl, rfl⟩ := linked_setSlot.mp hq
  rcases put_cli.mp hc with ⟨-, rfl⟩ | ⟨hne, hc⟩
  · exact hus
  · refine h.tenanted q qc qv l j u c ((linked_put hx hus).mp hl) ?_ hc
    split at hj
    case isTrue =>
      by_cases e : j = i
      · rw [e, update_self] at hj
        exact absurd (some.inj hj).symm hne
      · rwa [update_of_ne e] at hj
    case isFalse => exact hj

lemma Filled.join (h : v.Filled) (hx : ∀ c, v.cli x = some c → c.user.isSome ∧ c.yxx = [])
    (hu : d.user = some ⟨p⟩) (hp : v.Linked p pc sv cl) (hd : d.yxx ≠ [])
    (hi : i = userSlot d sv) : (v.join x d p i).Filled := by
  intro q qc qv l' j u hq hj
  obtain ⟨l, hl, rfl⟩ := linked_setSlot.mp hq
  rw [linked_put (fun c hc => (hx c hc).1) (by rw [hu]; rfl)] at hl
  have hother : l j = some u → ∃ c, (v.join x d p i).cli u = some c ∧ c.user = some ⟨q⟩ ∧
      c.yxx ≠ [] ∧ j = userSlot c qv := by
    intro hj
    obtain ⟨c, hc, hcu, hcy, hslot⟩ := h q qc qv l j u hl hj
    refine ⟨c, put_cli.mpr (Or.inr ⟨?_, hc⟩), hcu, hcy, hslot⟩
    rintro rfl
    exact hcy (hx c hc).2
  split at hj
  case isTrue e =>
    subst e
    obtain ⟨-, rfl, rfl⟩ := hl.functional hp
    by_cases e : j = i
    · rw [e, update_self] at hj
      cases hj
      exact ⟨d, put_cli.mpr (Or.inl ⟨rfl, rfl⟩), hu, hd, e.trans hi⟩
    · rw [update_of_ne e] at hj
      exact hother hj
  case isFalse => exact hother hj

end Numerics

/-! ## What the functions do to the numeric tables -/

section Effects

variable {s t : Ircd} {x p : ClientId} {c pc : Client} {sv : Serv} {cl : ℕ → Option ClientId}

lemma exitClient_numerics (hc : s.cli x = some c) (hu : c.user = some ⟨p⟩) (hserv : c.serv = none)
    (hst : c.status ≠ .server ∧ c.status ≠ .me) (hp : s.numerics.Linked p pc sv cl)
    (h : exitClient 0 s x = some t) : t.numerics = s.numerics.leave x c p sv.nn_mask := by
  have hclose : ∀ b : Client, (closeConnection s b).numerics = s.numerics := by
    intro b
    rw [closeConnection]
    split <;> rfl
  have hs₁ : (if c.cli_from = x then closeConnection s c else s).numerics = s.numerics := by
    split
    · exact hclose c
    · rfl
  simp only [exitClient, hc, if_neg hst.1, bind_eq_bind, bind_some] at h
  revert h hs₁
  generalize (if c.cli_from = x then closeConnection s c else s) = s₁
  intro hs₁ h
  have hcli : s₁.cli = s.cli := by rw [← s₁.numerics_cli, hs₁, s.numerics_cli]
  have hlist : s₁.client_list = s.client_list := by
    rw [← s₁.numerics_client_list, hs₁, s.numerics_client_list]
  have hc₁ : s₁.cli x = some c := by rw [hcli, hc]
  have hp₁ : s₁.cli p = some pc := by rw [hcli]; exact hp.cli
  have hl₁ : s₁.client_list p = some cl := by rw [hlist]; exact hp.list
  rw [exitOneClient, hc₁, bind_eq_bind, bind_some] at h
  simp only [hserv, Option.isSome_none, Bool.false_eq_true, false_and, if_false, if_neg hst.2,
    exitServerLink, if_neg hst.1, bind_eq_bind, bind_some, exitUserSlot, hu] at h
  rw [← hs₁, Numerics.leave]
  by_cases hy : c.yxx = []
  · rw [removeYXXClient, if_pos hy, bind_some] at h
    cases h
    rw [if_pos hy]
    rfl
  · rw [removeYXXClient, if_neg hy, hp₁, bind_eq_bind, bind_some, hp.serv,
      bind_eq_bind, bind_some, hl₁, bind_eq_bind, bind_some,
      bind_some] at h
    cases h
    rw [if_neg hy]
    simp only [Ircd.numerics, removeClientFromList, hRemClient, Numerics.forget, Numerics.setSlot,
      hl₁, map_some]

lemma setRemoteNumNick_numerics {yxx : Str} {past : Char} (hc : s.cli x = some c)
    (hu : c.user = some ⟨p⟩) (hp : s.numerics.Linked p pc sv cl)
    (h : setRemoteNumNick s x yxx past = some t) :
    ∃ s₂ : Ircd, exitHolder (setCli s x { c with yxx := remoteYXX yxx })
        (cl (remoteIndex yxx past &&& sv.nn_mask)) = some s₂ ∧
      t.numerics = s₂.numerics.setSlot p (remoteIndex yxx past &&& sv.nn_mask) (some x) := by
  have hpc : s.cli p = some pc := hp.cli
  have hpl : s.client_list p = some cl := hp.list
  simp only [setRemoteNumNick, hc, hu, hpc, hp.serv, hpl, bind_eq_bind, bind_some] at h
  rw [← hu] at h
  obtain ⟨s₂, hs₂, h⟩ := bind_eq_some_iff.mp h
  obtain ⟨l, hl, h⟩ := bind_eq_some_iff.mp h
  rw [← some.inj h]
  refine ⟨s₂, hs₂, ?_⟩
  simp only [Ircd.numerics, Numerics.setSlot, hl, map_some]

/-- The record of a user that a server introduces. `s_user.c` `set_nick_name`. -/
def introduced (p cptr : ClientId) (nick info yxx : Str) : Client :=
  { newClient p cptr nick none with yxx := remoteYXX yxx, info := info, status := .user }

lemma introduceUser_numerics {cptr : ClientId} {nick info yxx : Str} {past : Char} (hs : s.numerics.Sound)
    (hx : s.cli x = none) (hp : s.numerics.Linked p pc sv cl)
    (h : introduceUser s x p cptr nick info yxx past = some t) : ∃ v : Numerics, t.numerics =
    v.join x (introduced p cptr nick info yxx) p (remoteIndex yxx past &&& sv.nn_mask) ∧ (v = s.numerics ∧
    cl (remoteIndex yxx past &&& sv.nn_mask) = none ∨ ∃ old oc q qc qv ql,
    cl (remoteIndex yxx past &&& sv.nn_mask) = some old ∧ old ≠ x ∧ s.cli old = some oc ∧ oc.user = some ⟨q⟩ ∧
    s.numerics.Linked q qc qv ql ∧ v = s.numerics.leave old oc q qv.nn_mask) := by
  have hpx : p ≠ x := hp.ne (fun c hc => absurd (hx.symm.trans hc) (by simp))
  obtain ⟨t₁, ht₁, h⟩ := bind_eq_some_iff.mp h
  obtain ⟨c, hc, h⟩ := bind_eq_some_iff.mp h
  cases h
  have hu₀ : ∀ c, s.numerics.cli x = some c → c.user.isSome := fun c hc => absurd (hx.symm.trans hc) (by simp)
  have hc₀ : (setCli s x (newClient p cptr nick none)).cli x = some (newClient p cptr nick none) :=
    update_self ..
  have hp₀ : (setCli s x (newClient p cptr nick none)).numerics.Linked p pc sv cl :=
    (Numerics.linked_put hu₀ rfl).mpr hp
  obtain ⟨s₂, hs₂, ht⟩ := setRemoteNumNick_numerics hc₀ rfl hp₀ ht₁
  have hcx : s₂.numerics.cli x = some c := by
    have : t₁.numerics.cli x = some c := hc
    rwa [ht] at this
  -- the two writes of the record before the exit are one
  have hput : ∀ d d' : Client, (setCli (setCli s x d) x d').numerics = s.numerics.put x d' := by
    intro d d'
    simp only [Ircd.numerics, setCli, Numerics.put, update_idem]
  have hend : ∀ v : Numerics, s₂.numerics = v.put x
        { newClient p cptr nick none with yxx := remoteYXX yxx } →
      (setCli (hAddClient (addClientToList t₁ x) x nick) x
        { c with info := info, status := .user }).numerics =
      v.join x (introduced p cptr nick info yxx) p (remoteIndex yxx past &&& sv.nn_mask) := by
    intro v hv
    have hcv : c = { newClient p cptr nick none with yxx := remoteYXX yxx } := by
      rw [hv] at hcx
      rcases Numerics.put_cli.mp hcx with ⟨-, rfl⟩ | ⟨hne, -⟩
      · rfl
      · exact absurd rfl hne
    have h₁ : (setCli (hAddClient (addClientToList t₁ x) x nick) x
        { c with info := info, status := .user }).numerics =
        t₁.numerics.put x { c with info := info, status := .user } := rfl
    rw [h₁, ht, hv, hcv]
    simp only [Numerics.put, Numerics.setSlot, Numerics.join, introduced, update_idem]
  cases hcl : cl (remoteIndex yxx past &&& sv.nn_mask) with
  | none =>
    rw [hcl] at hs₂
    cases hs₂
    exact ⟨s.numerics, hend _ (hput _ _), Or.inl ⟨rfl, rfl⟩⟩
  | some old =>
    rw [hcl, exitHolder] at hs₂
    obtain ⟨oc, hoc, -⟩ := bind_eq_some_iff.mp hs₂
    have hp₁ : ∀ d : Client, d.user.isSome → ∀ {q qc qv ql}, s.numerics.Linked q qc qv ql →
        (setCli (setCli s x (newClient p cptr nick none)) x d).numerics.Linked q qc qv ql := by
      intro d hd q qc qv ql hq
      rw [hput]
      exact (Numerics.linked_put hu₀ hd).mpr hq
    by_cases hne : old = x
    · -- the record itself would be gone
      subst hne
      have hgone := exitClient_numerics (update_self ..) rfl rfl ⟨by simp [newClient],
        by simp [newClient]⟩ (hp₁ _ rfl hp) hs₂
      rw [hgone] at hcx
      exact absurd rfl (Numerics.leave_cli.mp hcx).1
    · have hoc' : s.cli old = some oc := by
        have : (setCli (setCli s x (newClient p cptr nick none)) x
          { newClient p cptr nick none with yxx := remoteYXX yxx }).numerics.cli old = some oc := hoc
        rw [hput] at this
        rcases Numerics.put_cli.mp this with ⟨e, -⟩ | ⟨-, h⟩
        · exact absurd e hne
        · exact h
      obtain ⟨⟨q⟩, hq⟩ := isSome_iff_exists.mp (hs.tenanted p pc sv cl _ old oc hp hcl hoc')
      obtain ⟨qc, qv, ql, hql⟩ := hs.framed.linked old oc _ hoc' hq
      obtain ⟨h1, h2, h3, -⟩ := hs.framed.plain old oc _ hoc' hq
      have hleft := exitClient_numerics hoc hq h1 ⟨h2, h3⟩ (hp₁ _ rfl hql) hs₂
      rw [hput, Numerics.put_leave (Ne.symm hne)] at hleft
      exact ⟨_, hend _ hleft, Or.inr ⟨old, oc, q, qc, qv, ql, rfl, hne, hoc', hq, hql, rfl⟩⟩

end Effects

/-! ## The search for a free slot -/

lemma bumpNN_eq (n : ℕ) : bumpNN (n % nnMaxClient) = (n + 1) % nnMaxClient := by
  rw [bumpNN, nnMaxClient]
  split <;> omega

lemma numNickLoop_spec (cl : ℕ → Option ClientId) (mask : ℕ) : (left count n : ℕ) →
    (∃ j ≤ left, cl ((n + j) % nnMaxClient &&& mask) = none ∧ numNickLoop cl mask left count (n % nnMaxClient) =
        (true, count + j, (n + j) % nnMaxClient)) ∨
    (∀ j ≤ left, cl ((n + j) % nnMaxClient &&& mask) ≠ none) ∧
      numNickLoop cl mask left count (n % nnMaxClient) = (false, count + left + 1, (n + left) % nnMaxClient)
  | 0, count, n => by
    cases hcl : cl (n % nnMaxClient &&& mask) with
    | none =>
      refine .inl ⟨0, le_rfl, hcl, ?_⟩
      rw [numNickLoop, hcl]
      rfl
    | some u =>
      refine .inr ⟨?_, ?_⟩
      · intro j hj
        obtain rfl : j = 0 := by omega
        rw [Nat.add_zero, hcl]
        simp
      · rw [numNickLoop, hcl]
        rfl
  | left + 1, count, n => by
    cases hcl : cl (n % nnMaxClient &&& mask) with
    | none =>
      refine .inl ⟨0, by omega, hcl, ?_⟩
      rw [numNickLoop, hcl]
      rfl
    | some u =>
      have hstep : numNickLoop cl mask (left + 1) count (n % nnMaxClient) =
          numNickLoop cl mask left (count + 1) ((n + 1) % nnMaxClient) := by
        rw [numNickLoop, hcl, ← bumpNN_eq]
        rfl
      rw [hstep]
      rcases numNickLoop_spec cl mask left (count + 1) (n + 1) with ⟨j, hj, hfree, h⟩ | ⟨hall, h⟩
      · refine .inl ⟨j + 1, by omega, ?_, ?_⟩
        · rw [← hfree, show n + (j + 1) = n + 1 + j by omega]
        · rw [h, show count + 1 + j = count + (j + 1) by omega,
            show n + 1 + j = n + (j + 1) by omega]
      · refine .inr ⟨?_, ?_⟩
        · intro j hj
          cases j with
          | zero => rw [Nat.add_zero, hcl]; simp
          | succ j =>
            rw [show n + (j + 1) = n + 1 + j by omega]
            exact hall j (by omega)
        · rw [h, show count + 1 + left + 1 = count + (left + 1) + 1 by omega,
            show n + 1 + left = n + (left + 1) by omega]

lemma slot_passed {k i : ℕ} (hk : k ≤ 18) (hi : i ≤ 2 ^ k - 1) (n : ℕ) :
    ∃ j ≤ nnMaxClient - 1, (n + j) % nnMaxClient &&& (2 ^ k - 1) = i := by
  have hpos : 0 < 2 ^ k := by positivity
  have hdvd : 2 ^ k ∣ nnMaxClient := by
    rw [show nnMaxClient = 2 ^ 18 from rfl]
    exact Nat.pow_dvd_pow 2 hk
  have hle : 2 ^ k ≤ nnMaxClient := Nat.le_of_dvd (by decide) hdvd
  have hn : n % 2 ^ k < 2 ^ k := Nat.mod_lt _ hpos
  refine ⟨(2 ^ k - n % 2 ^ k + i) % 2 ^ k, ?_, ?_⟩
  · have := Nat.mod_lt (2 ^ k - n % 2 ^ k + i) hpos
    omega
  · rw [Nat.and_two_pow_sub_one_eq_mod, Nat.mod_mod_of_dvd _ hdvd, Nat.add_mod_mod]
    have hsum : n + (2 ^ k - n % 2 ^ k + i) = i + 2 ^ k * (n / 2 ^ k + 1) := by
      have := Nat.div_add_mod n (2 ^ k)
      rw [Nat.mul_add, Nat.mul_one]
      omega
    rw [hsum, Nat.add_mul_mod_self_left, Nat.mod_eq_of_lt (by omega)]


/-- The mask that this server takes for a number of clients: the loop doubles `max_clients` up to the capacity,
in 32 bits, and the daemon ends if there are too many. The first argument bounds the doublings; a capacity above
`2 ^ 31` is never reached. `SetYXXCapacity` -/
def capacityMask (capacity : ℕ) : ℕ → ℕ → Option ℕ
  | 0, _ => none
  | fuel + 1, max_clients =>
    if max_clients < capacity then capacityMask capacity fuel (max_clients * 2 % 2 ^ 32)
    else if max_clients > nnMaxClient then none
    else some (max_clients - 1)

/-- The state after a free slot was found, `j` slots further. `SetLocalNumNick` -/
def Registry.given (s : Registry) (x : ClientId) (c : Client) (cl : ℕ → Option ClientId)
    (mask j : ℕ) : Registry :=
  let n := (s.last_nn + j) % nnMaxClient
  { s with
    cli := update s.cli x (some { c with yxx := inttobase64 n 3 })
    client_list := update s.client_list s.me (some (update cl (n &&& mask) (some x)))
    last_nn := bumpNN n
    turns := s.turns + j + 1
    handed := (inttobase64 n 3, s.turns + j) :: s.handed }

lemma setLocalNumNick_cases {s : Registry} {x : ClientId} {c pc : Client} {sv : Serv}
    {cl : ℕ → Option ClientId} (hc : s.cli x = some c) (hp : s.numerics.Linked s.me pc sv cl)
    (hn : s.last_nn < nnMaxClient) :
    (∃ j, cl ((s.last_nn + j) % nnMaxClient &&& sv.nn_mask) = none ∧
      setLocalNumNick s x = some (s.given x c cl sv.nn_mask j, true)) ∨
    (∀ j ≤ nnMaxClient - 1, cl ((s.last_nn + j) % nnMaxClient &&& sv.nn_mask) ≠ none) ∧
      setLocalNumNick s x = some ({ s with
        last_nn := (s.last_nn + (nnMaxClient - 1)) % nnMaxClient
        turns := s.turns + (nnMaxClient - 1) }, false) := by
  have hpc : s.cli s.me = some pc := hp.cli
  have hpl : s.client_list s.me = some cl := hp.list
  have hrun : setLocalNumNick s x =
      match numNickLoop cl sv.nn_mask (nnMaxClient - 1) 0 s.last_nn with
      | (false, count, last_nn) =>
        some ({ s with last_nn := last_nn, turns := s.turns + (count - 1) }, false)
      | (true, count, last_nn) =>
        some ({ s with
          cli := update s.cli x (some { c with yxx := inttobase64 last_nn 3 })
          client_list := update s.client_list s.me (some (update cl (last_nn &&& sv.nn_mask) (some x)))
          last_nn := bumpNN last_nn
          turns := s.turns + count + 1
          handed := (inttobase64 last_nn 3, s.turns + count) :: s.handed }, true) := by
    simp only [setLocalNumNick, hc, hpc, hp.serv, hpl, bind_eq_bind, bind_some]
  have hspec := numNickLoop_spec cl sv.nn_mask (nnMaxClient - 1) 0 s.last_nn
  rw [Nat.mod_eq_of_lt hn] at hspec
  rcases hspec with ⟨j, -, hfree, hloop⟩ | ⟨hall, hloop⟩
  · refine .inl ⟨j, hfree, ?_⟩
    rw [hrun, hloop, Nat.zero_add]
    rfl
  · refine .inr ⟨hall, ?_⟩
    simp only [hrun, hloop, Nat.zero_add, Nat.add_sub_cancel]

/-- The numeric of a user: the characters of its server and its own. `numnicks.h`. -/
def numNick (s : Ircd) (u : ClientId) : Option Str := do
  let c ← s.cli u
  let us ← c.user
  let p ← s.cli us.server
  some (p.yxx ++ c.yxx)

lemma numNick_five {s : Ircd} (h : s.numerics.Framed) {u : ClientId} {x : Str} (hu : numNick s u = some x)
    (hx : x.length = 5) : ∃ c p pc sv cl, s.cli u = some c ∧ c.user = some ⟨p⟩ ∧ s.numerics.Linked p pc sv cl ∧
    pc.yxx = x.take 2 ∧ c.yxx = x.drop 2 := by
  obtain ⟨c, hc, hu⟩ := bind_eq_some_iff.mp hu
  obtain ⟨⟨p⟩, hp, hu⟩ := bind_eq_some_iff.mp hu
  obtain ⟨pc, hpc, hu⟩ := bind_eq_some_iff.mp hu
  obtain ⟨pc', sv, cl, hl⟩ := h.linked u c _ hc hp
  have hpc' : s.cli p = some pc' := hl.cli
  rw [hpc'] at hpc
  obtain rfl := some.inj hpc
  obtain rfl := some.inj hu
  have h2 := (h.slot p _ sv cl hl).2
  obtain ⟨-, -, -, h3, -⟩ := h.plain u c _ hc hp
  rw [length_append] at hx
  have htwo : pc'.yxx.length = 2 := by omega
  refine ⟨c, p, pc', sv, cl, hc, hp, hl, ?_, ?_⟩
  · rw [← htwo, List.take_left]
  · rw [← htwo, List.drop_left]

lemma findNUser_five {s : Ircd} (h : s.numerics.Framed) {x : Str} (hx : x.length = 5)
    {p : ClientId} {pc : Client} {sv : Serv} {cl : ℕ → Option ClientId}
    (hl : s.numerics.Linked p pc sv cl) (hp : base64toint pc.yxx = base64toint (x.take 2)) :
    findNUser s x = cl (base64toint (x.drop 2) &&& sv.nn_mask) := by
  have hsl : s.server_list (base64toint (x.take 2)) = some p := by
    rw [← hp]
    exact (h.slot p pc sv cl hl).1
  have hpc : s.cli p = some pc := hl.cli
  have hpl : s.client_list p = some cl := hl.list
  rw [findNUser, if_pos hx]
  simp only [hsl, hpc, hl.serv, hpl, bind_eq_bind, bind_some]

lemma findNUser_numNick {s : Ircd} (h : s.numerics.Sound) {u : ClientId} {x : Str}
    (hu : numNick s u = some x) (hx : x.length = 5) : findNUser s x = some u := by
  obtain ⟨c, p, pc, sv, cl, hc, hp, hl, htake, hdrop⟩ := numNick_five h.framed hu hx
  rw [findNUser_five h.framed hx hl (by rw [htake]), ← hdrop]
  refine h.held u c p pc sv cl hc hp ?_ hl
  intro e
  rw [hdrop] at e
  have := congrArg List.length e
  rw [length_drop, hx] at this
  cases this

lemma numNick_fresh {s : Ircd} (h : s.numerics.Sound) {p : ClientId} {pc : Client} {sv : Serv}
    {cl : ℕ → Option ClientId} (hl : s.numerics.Linked p pc sv cl) (hpc : pc.yxx.length = 2)
    {y : Str} (hy : y.length = 3) (hfree : cl (base64toint y &&& sv.nn_mask) = none)
    (u : ClientId) : numNick s u ≠ some (pc.yxx ++ y) := by
  intro hu
  obtain ⟨c, q, qc, qv, ql, hc, hq, hql, htake, hdrop⟩ :=
    numNick_five h.framed hu (by rw [length_append, hpc, hy])
  rw [← hpc, List.take_left] at htake
  rw [← hpc, List.drop_left] at hdrop
  have hslot := (h.framed.slot q qc qv ql hql).1
  rw [htake, (h.framed.slot p pc sv cl hl).1] at hslot
  obtain rfl := some.inj hslot
  obtain ⟨rfl, rfl, rfl⟩ := hql.functional hl
  have hheld := h.held u c p _ _ _ hc hq (by rw [hdrop]; intro e; rw [e] at hy; cases hy) hl
  rw [userSlot, hdrop, hfree] at hheld
  cases hheld


/-! ## Runs -/

/-- The state of a run: sound tables, and histories that fit the counter. -/
structure Registry.Good (s : Registry) : Prop where
  sound : s.numerics.Sound
  counter : s.last_nn = s.turns % nnMaxClient
  handed : ∀ a ∈ s.handed, a.1 = inttobase64 (a.2 % nnMaxClient) 3 ∧ a.2 < s.turns
  order : s.handed.Pairwise (fun new old => old.2 < new.2)

/-- The numeric announced for a user has a number in it: two characters at least. `SetRemoteNumNick` -/
def UserEvent.Numbered : UserEvent → Prop
  | .introduce _ _ _ _ _ yxx _ => 2 ≤ yxx.length
  | _ => True

instance (e : UserEvent) : Decidable e.Numbered := by
  cases e <;> unfold UserEvent.Numbered <;> infer_instance

section Step

variable {s t : Registry} {x : ClientId}

lemma Registry.Good.connect (h : s.Good) {fd : ℕ} (hs : s.step (.connect x fd) = some t) :
    t.Good ∧ (s.numerics.Filled → t.numerics.Filled) := by
  rw [Registry.step] at hs
  split at hs
  case isFalse => cases hs
  case isTrue hx =>
    cases hs
    obtain ⟨pc, sv, cl, hme, -⟩ := h.sound.framed.me
    have hno : ∀ c, s.numerics.cli x = some c → False := fun c hc => by cases hx.symm.trans hc
    refine ⟨⟨?_, h.counter, h.handed, h.order⟩, ?_⟩
    · exact h.sound.put (fun c hc => (hno c hc).elim) rfl hme rfl
        ⟨by simp [newClient], by simp [newClient]⟩ (by simp [newClient])
        (fun c hc => (hno c hc).elim) (fun _ => rfl)
    · intro hf
      exact hf.put (fun c hc => (hno c hc).elim) rfl (fun c hc => (hno c hc).elim)

lemma Registry.Good.exit (h : s.Good) (hs : s.step (.exit x) = some t) :
    t.Good ∧ (s.numerics.Filled → t.numerics.Filled) := by
  obtain ⟨c, hc, hs⟩ := bind_eq_some_iff.mp hs
  split at hs
  case isFalse => cases hs
  case isTrue hu =>
    obtain ⟨r, hr, hs⟩ := bind_eq_some_iff.mp hs
    cases hs
    obtain ⟨⟨p⟩, hp⟩ := isSome_iff_exists.mp hu
    obtain ⟨pc, sv, cl, hl⟩ := h.sound.framed.linked x c _ hc hp
    obtain ⟨h1, h2, h3, -⟩ := h.sound.framed.plain x c _ hc hp
    have heff := exitClient_numerics hc hp h1 ⟨h2, h3⟩ hl hr
    refine ⟨⟨?_, h.counter, h.handed, h.order⟩, ?_⟩
    · rw [heff]
      exact h.sound.leave hc hp hl
    · intro hf
      rw [heff]
      exact hf.leave hc hp hl

lemma length_remoteYXX (yxx : Str) : (remoteYXX yxx).length ≤ 3 := by
  rw [remoteYXX]
  split
  · rw [length_drop]
    omega
  · rw [length_take]
    omega

lemma remoteYXX_ne_nil {yxx : Str} : remoteYXX yxx ≠ [] ↔ 2 ≤ yxx.length := by
  rw [← List.length_pos_iff, remoteYXX]
  split
  · rw [length_drop]
    omega
  · rw [length_take, length_drop]
    omega

lemma Registry.Good.introduce (h : s.Good) {sptr cptr : ClientId} {nick info yxx : Str}
    {past : Char} (hs : s.step (.introduce x sptr cptr nick info yxx past) = some t) :
    t.Good ∧ (2 ≤ yxx.length → s.numerics.Filled → t.numerics.Filled) := by
  obtain ⟨pc, hpc, hs⟩ := bind_eq_some_iff.mp hs
  split at hs
  case isFalse => cases hs
  case isTrue hok =>
    obtain ⟨hx, hst, hserv, hlist⟩ := hok
    obtain ⟨r, hr, hs⟩ := bind_eq_some_iff.mp hs
    cases hs
    obtain ⟨cl, hcl⟩ := isSome_iff_exists.mp hlist
    obtain ⟨sv, hsv⟩ := isSome_iff_exists.mp hserv
    have hl : s.numerics.Linked sptr pc sv cl := by
      refine ⟨hpc, ?_, hsv, hcl⟩
      cases hu : pc.user with
      | none => rfl
      | some us => exact absurd hst (h.sound.framed.plain sptr pc us hpc hu).2.1
    obtain ⟨v, heff, hv⟩ := introduceUser_numerics h.sound hx hl hr
    -- before the new user joins, its slot is nobody's
    have hready : v.Sound ∧ (s.numerics.Filled → v.Filled) ∧ v.cli x = none ∧ (∃ l, v.Linked sptr pc sv l) ∧
        ∀ y c, v.cli y = some c → c.user = some ⟨sptr⟩ → c.yxx ≠ [] →
          userSlot c sv ≠ remoteIndex yxx past &&& sv.nn_mask := by
      rcases hv with ⟨rfl, hnone⟩ | ⟨old, oc, q, qc, qv, ql, hold, hne, hoc, hq, hql, rfl⟩
      · refine ⟨h.sound, id, hx, ⟨cl, hl⟩, ?_⟩
        intro y c hy hc hcy e
        have := h.sound.held y c sptr pc sv cl hy hc hcy hl
        rw [e, hnone] at this
        cases this
      · have hold' : ∀ c, s.numerics.cli old = some c → c.user.isSome := by
          intro c hc
          obtain rfl := some.inj (hoc.symm.trans hc)
          rw [hq]
          rfl
        refine ⟨h.sound.leave hoc hq hql, fun hf => hf.leave hoc hq hql, ?_,
          ⟨_, (Numerics.linked_leave hold').mpr ⟨cl, hl, rfl⟩⟩, ?_⟩
        · rw [Option.eq_none_iff_forall_ne_some]
          intro c hc
          cases hx.symm.trans (Numerics.leave_cli.mp hc).2
        · intro y c hy hc hcy e
          obtain ⟨hne', hy⟩ := Numerics.leave_cli.mp hy
          have := h.sound.held y c sptr pc sv cl hy hc hcy hl
          rw [e, hold] at this
          exact hne' (some.inj this).symm
    obtain ⟨hsound, hfilled, hvx, ⟨l, hvl⟩, hfree⟩ := hready
    have hno : ∀ c, v.cli x = some c → False := fun c hc => by cases hvx.symm.trans hc
    have hi : (introduced sptr cptr nick info yxx).yxx ≠ [] →
        remoteIndex yxx past &&& sv.nn_mask = userSlot (introduced sptr cptr nick info yxx) sv := by
      intro hy
      have h2 : 2 ≤ yxx.length := remoteYXX_ne_nil.mp hy
      rw [remoteIndex, if_neg (by omega)]
      rfl
    refine ⟨⟨?_, h.counter, h.handed, h.order⟩, ?_⟩
    · rw [heff]
      exact hsound.join (fun c hc => (hno c hc).elim) rfl hvl rfl
        ⟨by simp [introduced], by simp [introduced]⟩ ⟨length_remoteYXX yxx, by simp [introduced]⟩ hi
        (fun y c _ => hfree y c)
    · intro h2 hf
      rw [heff]
      have hy := remoteYXX_ne_nil.mpr h2
      exact (hfilled hf).join (fun c hc => (hno c hc).elim) rfl hvl hy (hi hy)

lemma Registry.given_numerics {c pc : Client} {sv : Serv} {cl : ℕ → Option ClientId} {j : ℕ}
    (hp : s.numerics.Linked s.me pc sv cl) :
    (s.given x c cl sv.nn_mask j).numerics =
      s.numerics.join x { c with yxx := inttobase64 ((s.last_nn + j) % nnMaxClient) 3 } s.me
        ((s.last_nn + j) % nnMaxClient &&& sv.nn_mask) := by
  have hpl : s.client_list s.me = some cl := hp.list
  simp only [Registry.given, Ircd.numerics, Numerics.join, Numerics.put, Numerics.setSlot, hpl, map_some]

lemma base64toint_three (n : ℕ) : base64toint (inttobase64 (n % nnMaxClient) 3) = n % nnMaxClient := by
  have h : n % nnMaxClient < 262144 := Nat.mod_lt _ (by decide)
  exact base64toint_inttobase64 2 (by omega) (by omega)

lemma Registry.Good.setLocalNumNick {c : Client} {ok : Bool} (h : s.Good) (hc : s.cli x = some c)
    (hu : c.user = some ⟨s.me⟩) (hy : c.yxx = []) (hst : c.status ≠ .unknown)
    (hs : setLocalNumNick s x = some (t, ok)) : t.Good ∧ (s.numerics.Filled → t.numerics.Filled) := by
  obtain ⟨pc, sv, cl, hp, -⟩ := h.sound.framed.me
  have hn : s.last_nn < nnMaxClient := by
    rw [h.counter]
    exact Nat.mod_lt _ (by decide)
  have hx : ∀ c', s.numerics.cli x = some c' → c' = c := fun c' hc' => some.inj (hc'.symm.trans hc)
  rcases setLocalNumNick_cases hc hp hn with ⟨j, hfree, hj⟩ | ⟨-, hj⟩
  · obtain ⟨rfl, rfl⟩ := Prod.mk.inj (some.inj (hj.symm.trans hs))
    have hturn : (s.last_nn + j) % nnMaxClient = (s.turns + j) % nnMaxClient := by
      rw [h.counter, Nat.mod_add_mod]
    obtain ⟨h1, h2, h3, -⟩ := h.sound.framed.plain x c _ hc hu
    have hlen : (inttobase64 ((s.last_nn + j) % nnMaxClient) 3).length = 3 := length_inttobase64 3 _
    have hne : inttobase64 ((s.last_nn + j) % nnMaxClient) 3 ≠ [] := by
      intro e
      rw [e] at hlen
      cases hlen
    have hslot : (s.last_nn + j) % nnMaxClient &&& sv.nn_mask = userSlot
        { c with yxx := inttobase64 ((s.last_nn + j) % nnMaxClient) 3 } sv := by
      rw [userSlot, base64toint_three]
    refine ⟨⟨?_, ?_, ?_, ?_⟩, ?_⟩
    · rw [Registry.given_numerics hp]
      refine h.sound.join (fun c' hc' => by rw [hx c' hc', hu]; rfl) hu hp h1 ⟨h2, h3⟩
        ⟨hlen.le, fun e => absurd e hst⟩ (fun _ => hslot) ?_
      intro y d _ hd hdu hdy e
      have := h.sound.held y d s.me pc sv cl hd hdu hdy hp
      rw [e, hfree] at this
      cases this
    · show bumpNN ((s.last_nn + j) % nnMaxClient) = (s.turns + j + 1) % nnMaxClient
      rw [hturn, bumpNN_eq]
    · intro a ha
      rcases List.mem_cons.mp ha with rfl | ha
      · exact ⟨by rw [hturn], Nat.lt_succ_self _⟩
      · obtain ⟨e, hlt⟩ := h.handed a ha
        exact ⟨e, lt_of_lt_of_le hlt (show s.turns ≤ s.turns + j + 1 by omega)⟩
    · refine List.pairwise_cons.mpr ⟨?_, h.order⟩
      intro a ha
      exact lt_of_lt_of_le (h.handed a ha).2 (Nat.le_add_right _ _)
    · intro hf
      rw [Registry.given_numerics hp]
      exact hf.join (fun c' hc' => by rw [hx c' hc', hu]; exact ⟨rfl, hy⟩) hu hp hne hslot
  · obtain ⟨rfl, rfl⟩ := Prod.mk.inj (some.inj (hj.symm.trans hs))
    refine ⟨⟨h.sound, ?_, ?_, h.order⟩, id⟩
    · show (s.last_nn + (nnMaxClient - 1)) % nnMaxClient = (s.turns + (nnMaxClient - 1)) % nnMaxClient
      rw [h.counter, Nat.mod_add_mod]
    · intro a ha
      obtain ⟨e, hlt⟩ := h.handed a ha
      exact ⟨e, lt_of_lt_of_le hlt (Nat.le_add_right _ _)⟩

lemma Registry.Good.setUser {c : Client} (h : s.Good) (hc : s.cli x = some c) (hu : c.user = some ⟨s.me⟩) :
    (s.setUser x c).Good ∧ (s.numerics.Filled → (s.setUser x c).numerics.Filled) := by
  obtain ⟨pc, sv, cl, hp, -⟩ := h.sound.framed.me
  obtain ⟨h1, -, -, hlen, -⟩ := h.sound.framed.plain x c _ hc hu
  have hx : ∀ c', s.numerics.cli x = some c' → c' = c := fun c' hc' => some.inj (hc'.symm.trans hc)
  have hsome : ∀ c', s.numerics.cli x = some c' → c'.user.isSome := by
    intro c' hc'
    rw [hx c' hc', hu]
    rfl
  have hkeep : ∀ c', s.numerics.cli x = some c' → c'.user = c.user ∧ c'.yxx = c.yxx := by
    intro c' hc'
    rw [hx c' hc']
    exact ⟨rfl, rfl⟩
  refine ⟨⟨?_, h.counter, h.handed, h.order⟩, ?_⟩
  · exact h.sound.put hsome hu hp h1 ⟨by simp, by simp⟩ ⟨hlen, by simp⟩ hkeep
      (fun hn => by cases hn.symm.trans hc)
  · intro hf
    exact hf.put hsome (hsome c hc) hkeep

lemma Registry.Good.register (h : s.Good) (hs : s.step (.register x) = some t) :
    t.Good ∧ (s.numerics.Filled → t.numerics.Filled) := by
  obtain ⟨c, hc, hs⟩ := bind_eq_some_iff.mp hs
  split at hs
  case isFalse => cases hs
  case isTrue hok =>
    obtain ⟨hst, hu⟩ := hok
    obtain ⟨⟨r, ok⟩, hr, hs⟩ := bind_eq_some_iff.mp hs
    cases hs
    obtain ⟨-, -, -, -, hy⟩ := h.sound.framed.plain x c _ hc hu
    obtain ⟨hg, hf⟩ := h.setUser hc hu
    obtain ⟨hr, hf'⟩ := hg.setLocalNumNick (update_self ..) hu (hy hst) (by simp) hr
    exact ⟨hr, fun h => hf' (hf h)⟩

lemma Registry.Good.step (h : s.Good) {e : UserEvent} (hs : s.step e = some t) :
    t.Good ∧ (e.Numbered → s.numerics.Filled → t.numerics.Filled) := by
  cases e with
  | connect x fd =>
    obtain ⟨hg, hf⟩ := h.connect hs
    exact ⟨hg, fun _ => hf⟩
  | register x =>
    obtain ⟨hg, hf⟩ := h.register hs
    exact ⟨hg, fun _ => hf⟩
  | introduce x sptr cptr nick info yxx past => exact h.introduce hs
  | exit x =>
    obtain ⟨hg, hf⟩ := h.exit hs
    exact ⟨hg, fun _ => hf⟩

lemma Registry.Good.run : (es : List UserEvent) → {s : Registry} → s.Good → s.run es = some t →
    t.Good ∧ ((∀ e ∈ es, e.Numbered) → s.numerics.Filled → t.numerics.Filled)
  | [], s, h, hs => by
    cases hs
    exact ⟨h, fun _ => id⟩
  | e :: es, s, h, hs => by
    obtain ⟨s', hs', hs⟩ := bind_eq_some_iff.mp hs
    obtain ⟨hg, hf⟩ := h.step hs'
    obtain ⟨ht, hft⟩ := hg.run es hs
    exact ⟨ht, fun hall hfs => hft (fun e' he' => hall e' (List.mem_cons_of_mem _ he'))
      (hf (hall e (List.mem_cons_self ..)) hfs)⟩

end Step


/-! ## Local numerics -/

/-- The start: nobody is registered, the arrays are empty, the counter is zero. `numnicks.c`; `ircd.c`
`main` -/
structure Registry.Start (s : Registry) : Prop where
  framed : s.numerics.Framed
  users : ∀ x c, s.cli x = some c → c.user = none
  empty : ∀ p cl i, s.client_list p = some cl → cl i = none
  counter : s.last_nn = 0 ∧ s.turns = 0 ∧ s.handed = []

lemma Registry.Start.good {s : Registry} (h : s.Start) : s.Good ∧ s.numerics.Filled := by
  obtain ⟨h1, h2, h3⟩ := h.counter
  have hno : ∀ p pc sv cl i u, s.numerics.Linked p pc sv cl → cl i = some u → False := by
    intro p pc sv cl i u hl hi
    rw [h.empty p cl i hl.list] at hi
    cases hi
  refine ⟨⟨⟨h.framed, ?_, ?_⟩, ?_, ?_, ?_⟩, ?_⟩
  · intro x c p pc sv cl hc hu
    rw [h.users x c hc] at hu
    cases hu
  · intro p pc sv cl i u c hl hi
    exact (hno p pc sv cl i u hl hi).elim
  · rw [h1, h2]
    rfl
  · simp [h3]
  · rw [h3]
    exact List.Pairwise.nil
  · intro p pc sv cl i u hl hi
    exact (hno p pc sv cl i u hl hi).elim

/-- What `SetLocalNumNick` is to do for the client `x`, when the array of this server is `cl`. `SetLocalNumNick` -/
structure NumNickGiven (s t : Registry) (x : ClientId) (cl : ℕ → Option ClientId) (mask : ℕ)
    (ok : Bool) : Prop where
  ok_iff : ok = true ↔ ∃ i ≤ mask, cl i = none
  keeps : ∀ p l i u, s.client_list p = some l → l i = some u → ∃ l', t.client_list p = some l' ∧ l' i = some u
  records : ∀ u, u ≠ x → t.cli u = s.cli u
  refused : ok = false → t.toIrcd = s.toIrcd
  given : ok = true → ∃ y, numNick t.toIrcd x = some y ∧ y.length = 5 ∧
    (∀ u, numNick s.toIrcd u ≠ some y) ∧ findNUser t.toIrcd y = some x

lemma Registry.Good.numNickGiven {s : Registry} (h : s.Good) {x : ClientId} {c pc : Client}
    {sv : Serv} {cl : ℕ → Option ClientId} {k : ℕ} (hp : s.numerics.Linked s.me pc sv cl)
    (hmask : sv.nn_mask = 2 ^ k - 1) (hk : k ≤ 18) (hc : s.cli x = some c)
    (hu : c.user = some ⟨s.me⟩) (hy : c.yxx = []) (hst : c.status ≠ .unknown) :
    ∃ t ok, Network.setLocalNumNick s x = some (t, ok) ∧ NumNickGiven s t x cl sv.nn_mask ok := by
  have hn : s.last_nn < nnMaxClient := by
    rw [h.counter]
    exact Nat.mod_lt _ (by decide)
  have hpl : s.client_list s.me = some cl := hp.list
  rcases setLocalNumNick_cases hc hp hn with ⟨j, hfree, hj⟩ | ⟨hall, hj⟩
  · refine ⟨_, _, hj, ?_, ?_, ?_, ?_, ?_⟩
    · refine iff_of_true rfl ⟨_, ?_, hfree⟩
      exact Nat.and_le_right
    · intro p l i u hl hi
      by_cases e : p = s.me
      · subst e
        rw [hpl] at hl
        cases hl
        refine ⟨_, update_self .., ?_⟩
        rw [update_of_ne, hi]
        rintro rfl
        rw [hfree] at hi
        cases hi
      · exact ⟨l, (update_of_ne e ..).trans hl, hi⟩
    · intro u hu
      exact update_of_ne hu ..
    · intro e
      cases e
    · intro _
      have hlen : pc.yxx.length = 2 := by
        obtain ⟨qc, qv, ql, hq, hlen⟩ := h.sound.framed.me
        rw [(hp.functional hq).1]
        exact hlen
      have hgood := (h.setLocalNumNick hc hu hy hst hj).1
      have hthree : (inttobase64 ((s.last_nn + j) % nnMaxClient) 3).length = 3 := length_inttobase64 3 _
      have hxp : s.me ≠ x := hp.ne (fun c' hc' => by
        obtain rfl := some.inj (hc.symm.trans hc')
        rw [hu]
        rfl)
      have hnum : numNick (s.given x c cl sv.nn_mask j).toIrcd x =
          some (pc.yxx ++ inttobase64 ((s.last_nn + j) % nnMaxClient) 3) := by
        have hme : (s.given x c cl sv.nn_mask j).cli s.me = some pc := (update_of_ne hxp ..).trans hp.cli
        have hcx : (s.given x c cl sv.nn_mask j).cli x =
          some { c with yxx := inttobase64 ((s.last_nn + j) % nnMaxClient) 3 } :=
          update_self ..
        simp only [numNick, hcx, hu, hme, bind_eq_bind, bind_some]
      have hfive : (pc.yxx ++ inttobase64 ((s.last_nn + j) % nnMaxClient) 3).length = 5 := by
        rw [length_append, hlen, hthree]
      exact ⟨_, hnum, hfive, numNick_fresh h.sound hp hlen hthree (by rw [base64toint_three]; exact hfree),
        findNUser_numNick hgood.sound hnum hfive⟩
  · refine ⟨_, _, hj, ?_, ?_, ?_, ?_, ?_⟩
    · refine iff_of_false (by simp) ?_
      rintro ⟨i, hi, hfree⟩
      rw [hmask] at hi
      obtain ⟨j, hj, e⟩ := slot_passed hk hi s.last_nn
      rw [← e, ← hmask] at hfree
      exact hall j hj hfree
    · intro p l i u hl hi
      exact ⟨l, hl, hi⟩
    · intro u _
      rfl
    · intro _
      rfl
    · intro e
      cases e


namespace Registry.Example

def server (st : Status) (yxx : Str) (mask : ℕ) : Client where
  status := st
  name := "server".toList
  yxx := yxx
  cli_from := 2
  fd := none
  info := []
  junction := false
  serv := some ⟨1, mask, 0, 0⟩
  user := none

/-- This server is `AA` with sixteen slots, and `AB` with sixty-four is linked to it. -/
def start : Registry where
  me := 1
  crc32hash := fun i => i
  cli := fun x => if x = 1 then some (server .me "AA".toList 15)
    else if x = 2 then some (server .server "AB".toList 63) else none
  clientTable := fun _ => []
  server_list := fun i => if i = 0 then some 1 else if i = 1 then some 2 else none
  client_list := fun x => if x = 1 ∨ x = 2 then some (fun _ => none) else none
  localClientArray := fun _ => none
  lnk := fun _ => ⟨none, none⟩
  globalClientList := none
  dlnk := fun _ => ⟨none, none⟩
  dval := fun _ => 0
  down := fun _ => none
  updown := fun _ => none
  last_nn := 0
  turns := 0
  handed := []

lemma linked {p : ClientId} {pc : Client} {sv : Serv} {cl : ℕ → Option ClientId}
    (h : start.numerics.Linked p pc sv cl) :
    p = 1 ∧ pc = server .me "AA".toList 15 ∨ p = 2 ∧ pc = server .server "AB".toList 63 := by
  have hc : start.cli p = some pc := h.cli
  simp only [start] at hc
  split at hc
  · exact .inl ⟨‹_›, (some.inj hc).symm⟩
  · split at hc
    · exact .inr ⟨‹_›, (some.inj hc).symm⟩
    · cases hc

lemma start_start : start.Start := by
  have hnone : ∀ x c, start.cli x = some c → c.user = none := by
    intro x c hc
    simp only [start] at hc
    split at hc
    · cases hc
      rfl
    · split at hc
      · cases hc
        rfl
      · cases hc
  have hone : start.numerics.Linked 1 (server .me "AA".toList 15) ⟨1, 15, 0, 0⟩ (fun _ => none) :=
    ⟨rfl, rfl, rfl, rfl⟩
  have htwo : start.numerics.Linked 2 (server .server "AB".toList 63) ⟨1, 63, 0, 0⟩
      (fun _ => none) := ⟨rfl, rfl, rfl, rfl⟩
  refine ⟨⟨?_, ?_, ?_, ?_, _, _, _, hone, by decide⟩, hnone, ?_, rfl, rfl, rfl⟩
  · intro x c us hc hu
    rw [hnone x c hc] at hu
    cases hu
  · intro x c us hc hu
    rw [hnone x c hc] at hu
    cases hu
  · intro p pc sv cl h
    rcases linked h with ⟨rfl, rfl⟩ | ⟨rfl, rfl⟩ <;> decide
  · intro i p hi
    have hi : start.server_list i = some p := hi
    simp only [start] at hi
    split at hi
    · cases hi
      exact ⟨_, _, _, hone, by rw [‹i = 0›]; decide⟩
    · split at hi
      · cases hi
        exact ⟨_, _, _, htwo, by rw [‹i = 1›]; decide⟩
      · cases hi
  · intro p cl i hcl
    simp only [start] at hcl
    split at hcl
    · cases hcl
      rfl
    · cases hcl

/-- A user of `AB` leaves, and the next one gets its slot under another numeric. -/
def events : List UserEvent :=
  [.introduce 5 2 2 "a".toList [] "ABAAB".toList '\x00', .exit 5,
    .introduce 6 2 2 "b".toList [] "ABABB".toList '\x00']

def last : Registry := (start.run events).getD start

lemma run_events : start.run events = some last := by
  have h : (start.run events).isSome = true := by decide +kernel
  rw [last, ← Option.some_get h, Option.getD_some]

def joined : Registry := (start.run [.connect 7 3]).getD start

end Registry.Example

/-- The user's part of a numeric, as it is read. `findNUser`. -/
def userPart (x : Str) : Str := if x.length = 5 then x.drop 2 else x.drop 1

/-- The client that stands in the slot a numeric leads to has a numeric of the same shape, which differs from it
only in digits, and not in the bits that the mask drops. `findNUser` -/
def Agrees (s : Ircd) (x : Str) : Prop :=
  ∀ p pc sv cl u c, s.server_list (serverSlot x) = some p → s.cli p = some pc →
    pc.serv = some sv → s.client_list p = some cl →
    cl (base64toint (userPart x) &&& sv.nn_mask) = some u → s.cli u = some c →
    (x.length = 5 ∧ pc.yxx.length = 2 ∨ x.length = 3 ∧ pc.yxx.length = 1) ∧
    List.Forall₂ DigitsApart x (pc.yxx ++ c.yxx) ∧
    base64toint (userPart x) ||| sv.nn_mask = base64toint c.yxx ||| sv.nn_mask

lemma findNUser_eq_some {s : Ircd} {x : Str} {u : ClientId} : findNUser s x = some u ↔ ∃ p pc sv cl,
    s.server_list (serverSlot x) = some p ∧ s.cli p = some pc ∧ pc.serv = some sv ∧ s.client_list p = some cl ∧
    cl (base64toint (userPart x) &&& sv.nn_mask) = some u := by
  rw [findNUser, userPart]
  by_cases hx : x.length = 5
  · have hslot : serverSlot x = base64toint (x.take 2) := by
      rw [serverSlot, if_neg (by omega), if_neg (by omega)]
    rw [if_pos hx, if_pos hx, hslot]
    simp only [bind_eq_bind, bind_eq_some_iff]
    grind
  · rw [if_neg hx, if_neg hx]
    simp only [bind_eq_bind, bind_eq_some_iff]
    grind

lemma serverSlot_take {x : Str} {n : ℕ} (h : x.length = 5 ∧ n = 2 ∨ x.length = 3 ∧ n = 1) :
    serverSlot x = base64toint (x.take n) ∧ userPart x = x.drop n := by
  rcases h with ⟨h, rfl⟩ | ⟨h, rfl⟩
  · rw [serverSlot, userPart, if_neg (by omega), if_neg (by omega), if_pos h]
    exact ⟨rfl, rfl⟩
  · rw [serverSlot, userPart, if_neg (by omega), if_pos h, if_neg (by omega)]
    match x, h with
    | [a, b, c], _ => exact ⟨rfl, rfl⟩

lemma numNick_of_agrees {s : Ircd} (h : s.numerics.Framed) (hf : s.numerics.Filled) {x : Str}
    (ha : Agrees s x) {u : ClientId} (hu : findNUser s x = some u) : numNick s u = some x := by
  obtain ⟨p, pc, sv, cl, hp, hpc, hsv, hcl, hcu⟩ := findNUser_eq_some.mp hu
  obtain ⟨qc, qv, ql, hq, hslot⟩ := h.listed _ _ hp
  obtain rfl := some.inj (hpc.symm.trans hq.cli)
  have hl : s.numerics.Linked p pc sv cl := ⟨hpc, hq.user, hsv, hcl⟩
  obtain ⟨c, hc, hcp, -, hi⟩ := hf p pc sv cl _ u hl hcu
  obtain ⟨hshape, happ, hbits⟩ := ha p pc sv cl u c hp hpc hsv hcl hcu hc
  obtain ⟨htake, hdrop⟩ := serverSlot_take hshape
  have hlen := happ.length_eq
  rw [length_append] at hlen
  have hval : base64toint (userPart x) = base64toint c.yxx := by
    refine Nat.eq_of_testBit_eq fun i => ?_
    have h1 := congrArg (Nat.testBit · i) hi
    have h2 := congrArg (Nat.testBit · i) hbits
    simp only [userSlot, Nat.testBit_and, Nat.testBit_or] at h1 h2
    cases hm : sv.nn_mask.testBit i <;> simp_all
  have hserver : x.take pc.yxx.length = pc.yxx := by
    refine eq_of_base64toint _ rfl ?_ (List.forall₂_take_append _ _ _ happ) ?_
    · rw [length_take]
      omega
    · rw [← htake]
      exact hslot.symm
  have huser : x.drop pc.yxx.length = c.yxx := by
    refine eq_of_base64toint _ rfl ?_ (List.forall₂_drop_append _ _ _ happ) ?_
    · rw [length_drop]
      omega
    · rw [← hdrop]
      exact hval
  have hcu : s.cli u = some c := hc
  simp only [numNick, hcu, hcp, hpc, bind_eq_bind, bind_some]
  have hx := List.take_append_drop pc.yxx.length x
  rw [hserver, huser] at hx
  rw [hx]

lemma agrees_of_numNick {s : Ircd} (h : s.numerics.Framed) {x : Str} (hx : x.length = 5)
    (hall : ∀ u, findNUser s x = some u → numNick s u = some x) : Agrees s x := by
  intro p pc sv cl u c hp hpc hsv hcl hcu hc
  have hnum := hall u (findNUser_eq_some.mpr ⟨p, pc, sv, cl, hp, hpc, hsv, hcl, hcu⟩)
  obtain ⟨c', q, qc, qv, ql, hc', -, hq, htake, hdrop⟩ := numNick_five h hnum hx
  obtain rfl := some.inj (hc.symm.trans hc')
  have hslot : serverSlot x = base64toint (x.take 2) := (serverSlot_take (Or.inl ⟨hx, rfl⟩)).1
  have hqp : q = p := by
    have := (h.slot q qc qv ql hq).1
    rw [htake, ← hslot] at this
    exact some.inj (this.symm.trans hp)
  subst hqp
  obtain rfl := some.inj (hpc.symm.trans hq.cli)
  refine ⟨Or.inl ⟨hx, by rw [htake, length_take, hx]; rfl⟩, ?_, ?_⟩
  · rw [htake, hdrop, List.take_append_drop]
    exact List.forall₂_same.mpr fun c _ => Or.inl rfl
  · rw [userPart, if_pos hx, hdrop]

/-- **A registered user is found under its numeric; who else is found under a numeric differs from it only in
digits, in bits that the mask drops.** The second part is about runs in which every numeric announced has a
number in it. -/
theorem numeric_registry {s₀ s : Registry} {es : List UserEvent} (h₀ : s₀.Start) (hrun : s₀.run es = some s) :
    (∀ u x, numNick s.toIrcd u = some x → x.length = 5 → findNUser s.toIrcd x = some u) ∧
    ((∀ e ∈ es, e.Numbered) → ∀ x, (Agrees s.toIrcd x → ∀ u, findNUser s.toIrcd x = some u →
    numNick s.toIrcd u = some x) ∧ (x.length = 5 → (∀ u, findNUser s.toIrcd x = some u → numNick s.toIrcd u =
    some x) → Agrees s.toIrcd x)) := by
  obtain ⟨h, hf⟩ := h₀.good.1.run es hrun
  refine ⟨fun u x hu hx => findNUser_numNick h.sound hu hx, fun hall x => ⟨?_, ?_⟩⟩
  · intro ha u hu
    exact numNick_of_agrees h.sound.framed (hf hall h₀.good.2) ha hu
  · intro hx hu
    exact agrees_of_numNick h.sound.framed hx hu

theorem numeric_registry_example : findNUser Registry.Example.last.toIrcd "ABABB".toList = some 6 :=
  (numeric_registry Registry.Example.start_start Registry.Example.run_events).1 6 _
    (by decide +kernel) (by decide)

/-- **The numeric of a client that has left leads to its successor in the slot.** `AB` has
sixty-four slots, so `ABAAB` and `ABABB` share one. -/
theorem successor_found : Registry.Example.start.Start ∧
    (Registry.Example.start.run Registry.Example.events).map (fun s =>
      (findNUser s.toIrcd "ABAAB".toList, numNick s.toIrcd 6)) =
    some (some 6, some "ABABB".toList) :=
  ⟨Registry.Example.start_start, by decide +kernel⟩

end Nefarious.Network
