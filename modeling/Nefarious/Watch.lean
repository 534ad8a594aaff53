import Nefarious.Hash
import Nefarious.Lib.Pairs
import Nefarious.Lib.Runs

/-!
# The WATCH lists

A local user watches nicks. A step is undefined when it uses a record that was freed, or a link that is not
there.

Names: `watch.c`.
-/

namespace Nefarious.Watch

open Option (bind_eq_bind bind_some)
open Function (update update_eq_self update_of_ne update_self)

open Hash Network Lib Lib.BothSides

/-! ## The source functions -/

abbrev Client := ℕ

/-- The records and the users. `watch.c`; `struct.h` `struct User`. -/
structure State where
  /-- The hash tables; the nicks of the records. -/
  tables : HashTables
  wt_watch : Ptr → List Client
  wt_lasttime : Ptr → ℤ
  allocated : List Ptr
  /-- Count of allocated Watch structures. -/
  watchCount : ℤ
  users : List Client
  /-- Chain of watch pointer blocks. -/
  watch : Client → List Ptr
  /-- Number of entrances in the watch list. -/
  watches : Client → ℕ
  /-- `TStime()`. -/
  now : ℤ

/-- Find a record; an empty nick is not looked for. `hash.h`. -/
def findWatch (s : State) (nick : Str) : Option (State × Option Ptr) :=
  if nick = [] then some (s, none)
  else do
    let r ← hSeekWatch (s.allocated.length + 1) [] s.tables nick
    some ({ s with tables := r.1 }, r.2)

/-- Reserve an entrance in the Watch list, at new memory. -/
def makeWatch (s : State) (nick : Str) (wptr : Ptr) : State :=
  { s with
    tables := hAddWatch { s.tables with wt_nick := update s.tables.wt_nick wptr nick } wptr
    wt_watch := update s.wt_watch wptr []
    allocated := wptr :: s.allocated
    watchCount := s.watchCount + 1 }

/-- Release an entrance of the Watch list. -/
def freeWatch (s : State) (wptr : Ptr) : Option State := do
  let r ← hRemWatch (s.allocated.length + 1) [] s.tables wptr
  some { s with
    tables := r.1
    allocated := s.allocated.erase wptr
    watchCount := s.watchCount - 1 }

/-- A record without a watcher is freed. `del_nick_watch`. -/
def State.release (s : State) (wptr : Ptr) : Option State :=
  if s.wt_watch wptr = [] then freeWatch s wptr else some s

/-- If not exist, create the registry. `add_nick_watch`. -/
def State.registry (s : State) (nick : Str) (fresh : Ptr) : Option Ptr → State × Ptr
  | some wptr => (s, wptr)
  | none =>
    ({ makeWatch s nick fresh with wt_lasttime := update s.wt_lasttime fresh s.now }, fresh)

def addNickWatch (s : State) (cptr : Client) (nick : Str) (fresh : Ptr) : Option State := do
  let (s, found) ← findWatch s nick
  let (s, wptr) := s.registry nick fresh found
  if wptr ∉ s.allocated then none
  else if cptr ∈ s.wt_watch wptr then some s
  else
    some { s with
      wt_watch := update s.wt_watch wptr (cptr :: s.wt_watch wptr)
      watch := update s.watch cptr (wptr :: s.watch cptr)
      watches := update s.watches cptr ((s.watches cptr + 1) % 2 ^ 32) }

/-- Take a user out of the list of a record. `del_list_watch`. -/
def State.unwatch (s : State) (cptr : Client) (wptr : Ptr) : State :=
  { s with wt_watch := update s.wt_watch wptr ((s.wt_watch wptr).erase cptr) }

/-- Unlink a user and a record, which must be linked on both sides. `del_nick_watch`. -/
def State.unlink (s : State) (cptr : Client) (wptr : Ptr) : Option State :=
  if cptr ∈ s.wt_watch wptr ∧ wptr ∈ s.watch cptr then
    some { s.unwatch cptr wptr with
      watch := update s.watch cptr ((s.watch cptr).erase wptr) }
  else none

/-- Delete a nick of the user watch list. -/
def delNickWatch (s : State) (cptr : Client) (nick : Str) : Option State := do
  let (s, found) ← findWatch s nick
  match found with
  | none => some s
  | some wptr =>
    if wptr ∉ s.allocated then none
    else if cptr ∉ s.wt_watch wptr then some s
    else do
      let s ← s.unlink cptr wptr
      let s ← s.release wptr
      some { s with
        watches := update s.watches cptr ((s.watches cptr + (2 ^ 32 - 1)) % 2 ^ 32) }

/-- Loop of links from a user to its records; the links of the user are freed on the way. `del_list_watch`. -/
def delListLoop (s : State) (cptr : Client) : List Ptr → Option State
  | [] => some s
  | wptr :: rest =>
    if wptr ∈ s.allocated ∧ cptr ∈ s.wt_watch wptr then
      ((s.unwatch cptr wptr).release wptr).bind (delListLoop · cptr rest)
    else none

def delListWatch (s : State) (cptr : Client) : Option State :=
  if s.watch cptr = [] then some s
  else do
    let s ← delListLoop s cptr (s.watch cptr)
    some { s with
      watch := update s.watch cptr []
      watches := update s.watches cptr 0 }

/-! ## The system -/

/-- Nobody watches. The fields of what is not allocated are not read. `hash.c` `init_hash`. -/
def State.start (tables : HashTables) (wt_lasttime : Ptr → ℤ) (watches : Client → ℕ) (now : ℤ) : State where
  tables := { tables with watchTable := ⟨fun _ => none, tables.watchTable.next⟩ }
  wt_watch := fun _ => []
  wt_lasttime := wt_lasttime
  allocated := []
  watchCount := 0
  users := []
  watch := fun _ => []
  watches := watches
  now := now

/-- What happens. -/
inductive Event
  | time (now : ℤ)
  /-- A local user is made. `s_user.c` `make_user`. -/
  | makeUser (cptr : Client)
  | addNickWatch (cptr : Client) (nick : Str) (fresh : Ptr)
  | delNickWatch (cptr : Client) (nick : Str)
  | delListWatch (cptr : Client)
  /-- `s_misc.c` `exit_one_client`. -/
  | exit (cptr : Client)
  /-- A nick is looked for. `check_status_watch`. -/
  | find (nick : Str)

/-- What the callers keep to: only a user that is online has a list, a nick that is watched is not empty, and a
count that is at the limit, which is compared as unsigned, does not grow. New memory is not in use.
`m_watch.c` `m_watch`. -/
def State.allowed (s : State) : Event → Bool
  | .time _ => true
  | .makeUser c => c ∉ s.users
  | .addNickWatch c nick fresh =>
    c ∈ s.users ∧ nick ≠ [] ∧ IsCStr nick ∧ s.watches c + 1 < 2 ^ 32 ∧ fresh ∉ s.allocated
  | .delNickWatch c nick => c ∈ s.users ∧ IsCStr nick
  | .delListWatch c => c ∈ s.users
  | .exit c => c ∈ s.users
  | .find nick => IsCStr nick

def State.step (s : State) : Event → Option State
  | .time now => some { s with now := now }
  | .makeUser c => some { s with
      users := c :: s.users, watch := update s.watch c []
      watches := update s.watches c 0 }
  | .addNickWatch c nick fresh => Watch.addNickWatch s c nick fresh
  | .delNickWatch c nick => Watch.delNickWatch s c nick
  | .delListWatch c => Watch.delListWatch s c
  | .exit c => do
      let s ← Watch.delListWatch s c
      some { s with users := s.users.filter (· ≠ c) }
  | .find nick => (findWatch s nick).map Prod.fst

/-! ## The invariant -/

/-- The lists are as they should be, with the lists `watch` of the users. -/
structure Linked (s : State) (watch : Client → List Ptr) : Prop where
  hash : Hash.Good s.tables.crc32hash s.tables.watchTable s.tables.wt_nick s.allocated
  pairs : Pairs.Sound ⟨watch, s.wt_watch⟩
  alloc : ∀ w, w ∈ s.allocated ↔ s.wt_watch w ≠ []
  users : ∀ c, watch c ≠ [] → c ∈ s.users

/-- And the entrances are counted. -/
structure Sound (s : State) : Prop extends Linked s s.watch where
  count : ∀ c ∈ s.users, s.watches c = (s.watch c).length
  bound : ∀ c ∈ s.users, s.watches c < 2 ^ 32

section Linked

variable {s : State} {watch : Client → List Ptr} {c : Client} {w : Ptr} {nick : Str}

lemma Linked.of_mem (h : Linked s watch) (hw : w ∈ watch c) : w ∈ s.allocated ∧ c ∈ s.wt_watch w := by
  have hc : c ∈ s.wt_watch w := (h.pairs.mem c w).mp hw
  exact ⟨(h.alloc w).mpr (List.ne_nil_of_mem hc), hc⟩

lemma Linked.find (h : Linked s watch) (hn : IsCStr nick) : ∃ t r,
    findWatch s nick = some ({ s with tables := { s.tables with watchTable := t } }, r) ∧
    Linked { s with tables := { s.tables with watchTable := t } } watch ∧
    ∀ w, r = some w → w ∈ s.allocated := by
  rw [findWatch]
  split
  · exact ⟨s.tables.watchTable, none, rfl, h, fun w hw => (nomatch hw)⟩
  · obtain ⟨t, r, hseek, hgood, hsome, -⟩ := h.hash.seek [] hn
      (fun w => ircdStrcmp nick (s.tables.wt_nick w) = 0) fun w hw => of_decide_eq_true hw
    refine ⟨t, r, ?_, ⟨hgood, h.pairs, h.alloc, h.users⟩, fun w hw => (hsome w hw).1⟩
    rw [hSeekWatch, hseek]
    rfl

lemma release_spec (hhash : Hash.Good s.tables.crc32hash s.tables.watchTable s.tables.wt_nick s.allocated)
    (hpairs : Pairs.Sound ⟨watch, s.wt_watch⟩) (hw : w ∈ s.allocated)
    (halloc : ∀ v, v ≠ w → (v ∈ s.allocated ↔ s.wt_watch v ≠ []))
    (husers : ∀ c, watch c ≠ [] → c ∈ s.users) :
    ∃ tables allocated n, s.release w =
      some { s with tables := tables, allocated := allocated, watchCount := n } ∧
    Linked { s with tables := tables, allocated := allocated, watchCount := n } watch := by
  rw [State.release]
  split
  case isTrue hnil =>
    obtain ⟨t, ht, hgood⟩ := hhash.remove [] w
    refine ⟨{ s.tables with watchTable := t }, s.allocated.erase w, s.watchCount - 1, ?_, hgood, hpairs,
      fun v => ?_, husers⟩
    · rw [freeWatch, hRemWatch, ht]
      rfl
    · rw [hhash.nodup.mem_erase_iff]
      by_cases e : v = w
      · rw [e]
        exact iff_of_false (fun h => h.1 rfl) fun h => h hnil
      · exact (and_iff_right e).trans (halloc v e)
  case isFalse hne =>
    refine ⟨s.tables, s.allocated, s.watchCount, rfl, hhash, hpairs, fun v => ?_, husers⟩
    by_cases e : v = w
    · rw [e]
      exact iff_of_true hw hne
    · exact halloc v e

lemma Linked.unwatch (h : Linked s watch) (hw : w ∈ watch c) (f : Client → List Ptr) :
    ∃ tables allocated n, { s.unwatch c w with watch := f }.release w = some { s.unwatch c w with
        watch := f, tables := tables, allocated := allocated, watchCount := n } ∧
    Linked { s.unwatch c w with
        watch := f, tables := tables, allocated := allocated, watchCount := n }
      (update watch c ((watch c).erase w)) := by
  refine release_spec (s := { s.unwatch c w with watch := f }) h.hash (h.pairs.erase c w) (h.of_mem hw).1
    (fun v hv => ?_) fun d hd => h.users d fun hnil => hd ?_
  · rw [State.unwatch]
    simp only [update_of_ne hv]
    exact h.alloc v
  · by_cases e : d = c
    · rw [e] at hnil
      rw [hnil] at hw
      exact absurd hw List.not_mem_nil
    · rw [update_of_ne e, hnil]

lemma delListLoop_spec (c : Client) : (rest : List Ptr) → ∀ {s : State} {watch : Client → List Ptr},
    Linked s (update watch c rest) →
    ∃ t, delListLoop s c rest = some t ∧ Linked t (update watch c []) ∧
      t.users = s.users ∧ t.watch = s.watch ∧ t.watches = s.watches
  | [], s, watch, h => ⟨s, rfl, h, rfl, rfl, rfl⟩
  | w :: rest, s, watch, h => by
    have hw : w ∈ update watch c (w :: rest) c := by
      rw [update_self]
      exact List.mem_cons_self
    obtain ⟨tables, allocated, n, hrelease, hlinked⟩ := h.unwatch hw s.watch
    rw [update_self, List.erase_cons_head, Function.update_idem] at hlinked
    obtain ⟨t, ht, hlinked', hframe⟩ := delListLoop_spec c rest hlinked
    refine ⟨t, ?_, hlinked', hframe⟩
    rw [delListLoop, if_pos (h.of_mem hw)]
    exact (congrArg (Option.bind · (delListLoop · c rest)) hrelease).trans ht

lemma Linked.registry {fresh : Ptr} {r : Option Ptr} (h : Linked s watch) (hne : nick ≠ [])
    (hstr : IsCStr nick) (hfresh : fresh ∉ s.allocated) (hr : ∀ w, r = some w → w ∈ s.allocated) :
    ∃ t w, s.registry nick fresh r = (t, w) ∧ w ∈ t.allocated ∧
      Hash.Good t.tables.crc32hash t.tables.watchTable t.tables.wt_nick t.allocated ∧
      t.wt_watch = s.wt_watch ∧ (∀ v, v ≠ w → (v ∈ t.allocated ↔ s.wt_watch v ≠ [])) ∧
      t.users = s.users ∧ t.watch = s.watch ∧ t.watches = s.watches := by
  cases r with
  | some w => exact ⟨s, w, rfl, hr w rfl, h.hash, rfl, fun v _ => h.alloc v, rfl, rfl, rfl⟩
  | none =>
    have hnil : s.wt_watch fresh = [] := by
      by_contra hne
      exact hfresh ((h.alloc fresh).mpr hne)
    have hname : mayName s.allocated fresh (s.tables.wt_nick fresh) nick = true :=
      decide_eq_true fun hmem => absurd hmem hfresh
    have hadd := (h.hash.write hname).add (x := fresh)
      (decide_eq_true ⟨hfresh, by rwa [update_self], by rwa [update_self]⟩)
    refine ⟨_, fresh, rfl, List.mem_cons_self, hadd, ?_, fun v hv => ?_, rfl, rfl, rfl⟩
    · show update s.wt_watch fresh [] = s.wt_watch
      rw [← hnil, update_eq_self]
    · rw [← h.alloc v]
      exact List.mem_cons.trans (or_iff_right hv)

end Linked

/-! ## Runs -/

section Sound

variable {s : State} {c : Client} {nick : Str}

lemma Sound.counted {l : List Ptr} {n : ℕ} (h : Sound s) (hn : n = l.length) (hlt : n < 2 ^ 32)
    (d : Client) (hd : d ≠ c → d ∈ s.users) :
    update s.watches c n d = (update s.watch c l d).length ∧ update s.watches c n d < 2 ^ 32 := by
  by_cases e : d = c
  · rw [e, update_self, update_self]
    exact ⟨hn, hlt⟩
  · rw [update_of_ne e, update_of_ne e]
    exact ⟨h.count d (hd e), h.bound d (hd e)⟩

lemma Sound.addNickWatch {fresh : Ptr} (h : Sound s) (hc : c ∈ s.users) (hne : nick ≠ [])
    (hstr : IsCStr nick) (hlt : s.watches c + 1 < 2 ^ 32) (hfresh : fresh ∉ s.allocated) :
    ∃ t, Watch.addNickWatch s c nick fresh = some t ∧ Sound t := by
  obtain ⟨tab, r, hfind, hlinked, hr⟩ := h.toLinked.find hstr
  obtain ⟨t, w, hreg, hw, hhash, hwatch, halloc, hfields⟩ := hlinked.registry hne hstr hfresh hr
  obtain ⟨husers, hwatch', hwatches⟩ := hfields
  have heval : Watch.addNickWatch s c nick fresh = if c ∈ t.wt_watch w then some t else
      some { t with
        wt_watch := update t.wt_watch w (c :: t.wt_watch w)
        watch := update t.watch c (w :: t.watch c)
        watches := update t.watches c ((t.watches c + 1) % 2 ^ 32) } := by
    rw [Watch.addNickWatch, hfind]
    simp only [bind_eq_bind, bind_some, hreg]
    rw [if_neg (not_not_intro hw)]
  have hwatch₀ : t.wt_watch = s.wt_watch := hwatch
  have hwatch₁ : t.watch = s.watch := hwatch'
  have husers₀ : t.users = s.users := husers
  have hwatches₀ : t.watches = s.watches := hwatches
  by_cases hmem : c ∈ s.wt_watch w
  · rw [heval, hwatch₀, if_pos hmem]
    refine ⟨t, rfl, ⟨hhash, by rw [hwatch₀, hwatch₁]; exact h.pairs, fun v => ?_, ?_⟩, ?_, ?_⟩
    · rw [hwatch₀]
      by_cases e : v = w
      · rw [e]
        exact iff_of_true hw (List.ne_nil_of_mem hmem)
      · exact halloc v e
    · rw [hwatch₁, husers₀]
      exact h.users
    · rw [hwatch₁, husers₀, hwatches₀]
      exact h.count
    · rw [husers₀, hwatches₀]
      exact h.bound
  · rw [heval, hwatch₀, hwatch₁, hwatches₀, if_neg hmem, Nat.mod_eq_of_lt hlt]
    have hnot : w ∉ s.watch c := fun hw => hmem ((h.pairs.mem c w).mp hw)
    have hcount := h.counted (c := c) (l := w :: s.watch c) (congrArg (· + 1) (h.count c hc)) hlt
    refine ⟨_, rfl, ⟨hhash, h.pairs.put hnot (List.Perm.refl _), fun v => ?_, fun d hd => ?_⟩,
      fun d hd => (hcount d fun _ => husers₀ ▸ hd).1, fun d hd => (hcount d fun _ => husers₀ ▸ hd).2⟩
    · by_cases e : v = w
      · simp only [e, update_self]
        exact iff_of_true hw (List.cons_ne_nil _ _)
      · simp only [update_of_ne e]
        exact halloc v e
    · rw [husers₀]
      by_cases e : d = c
      · rwa [e]
      · simp only [update_of_ne e] at hd
        exact h.users d hd

lemma Sound.delNickWatch (h : Sound s) (hc : c ∈ s.users) (hstr : IsCStr nick) :
    ∃ t, Watch.delNickWatch s c nick = some t ∧ Sound t := by
  obtain ⟨tab, r, hfind, hlinked, hr⟩ := h.toLinked.find hstr
  rw [Watch.delNickWatch, hfind]
  simp only [bind_eq_bind, bind_some]
  cases r with
  | none => exact ⟨_, rfl, hlinked, h.count, h.bound⟩
  | some w =>
    simp only
    rw [if_neg (not_not_intro (hr w rfl))]
    by_cases hmem : c ∈ s.wt_watch w
    · rw [if_neg (not_not_intro hmem)]
      have hw : w ∈ s.watch c := (h.pairs.mem c w).mpr hmem
      obtain ⟨tables, allocated, n, hrelease, hlinked'⟩ := hlinked.unwatch hw
        (update s.watch c ((s.watch c).erase w))
      rw [State.unlink, if_pos ⟨hmem, hw⟩]
      simp only [bind_some, hrelease]
      have hpos := List.length_pos_of_mem hw
      have hn : (s.watches c + (2 ^ 32 - 1)) % 2 ^ 32 = ((s.watch c).erase w).length := by
        have := h.bound c hc
        rw [List.length_erase_of_mem hw, ← h.count c hc] at *
        omega
      have hcount := h.counted (c := c) hn (Nat.mod_lt _ (by decide))
      exact ⟨_, rfl, ⟨hlinked'.hash, hlinked'.pairs, hlinked'.alloc, hlinked'.users⟩,
        fun d hd => (hcount d fun _ => hd).1, fun d hd => (hcount d fun _ => hd).2⟩
    · rw [if_pos hmem]
      exact ⟨_, rfl, hlinked, h.count, h.bound⟩

lemma Sound.delListWatch (h : Sound s) :
    ∃ t, Watch.delListWatch s c = some t ∧ Sound t ∧ t.users = s.users ∧ t.watch c = [] := by
  rw [Watch.delListWatch]
  split
  case isTrue hnil => exact ⟨s, rfl, h, rfl, hnil⟩
  case isFalse =>
    have hlinked : Linked s (update s.watch c (s.watch c)) := by
      rw [update_eq_self]
      exact h.toLinked
    obtain ⟨t, ht, hlinked', husers, hwatch, hwatches⟩ := delListLoop_spec c (s.watch c) hlinked
    have hcount := h.counted (c := c) (l := []) rfl (by decide)
    rw [ht, bind_eq_bind, bind_some, hwatch, hwatches]
    exact ⟨_, rfl, ⟨⟨hlinked'.hash, hlinked'.pairs, hlinked'.alloc, hlinked'.users⟩,
      fun d hd => (hcount d fun _ => husers ▸ hd).1,
      fun d hd => (hcount d fun _ => husers ▸ hd).2⟩, husers, update_self ..⟩

lemma Sound.step (h : Sound s) (e : Event) (he : s.allowed e = true) : ∃ t, s.step e = some t ∧ Sound t := by
  cases e with
  | time now =>
    exact ⟨_, rfl, ⟨h.hash, h.pairs, h.alloc, h.users⟩, h.count, h.bound⟩
  | makeUser c =>
    have hc : c ∉ s.users := of_decide_eq_true he
    have hnil : s.watch c = [] := by
      by_contra hne
      exact hc (h.users c hne)
    have hcount := h.counted (c := c) (l := []) rfl (by decide)
    have hmem : ∀ d, d ∈ c :: s.users → d ≠ c → d ∈ s.users := fun d hd hne =>
      (List.mem_cons.mp hd).resolve_left hne
    have hwatch : update s.watch c [] = s.watch := by
      rw [← hnil, update_eq_self]
    refine ⟨_, rfl, ⟨h.hash, ?_, h.alloc, fun d hd => ?_⟩, fun d hd => (hcount d (hmem d hd)).1,
      fun d hd => (hcount d (hmem d hd)).2⟩
    · rw [hwatch]
      exact h.pairs
    · rw [hwatch] at hd
      exact List.mem_cons_of_mem _ (h.users d hd)
  | addNickWatch c nick fresh =>
    obtain ⟨hc, hne, hstr, hlt, hfresh⟩ := of_decide_eq_true he
    exact h.addNickWatch hc hne hstr hlt hfresh
  | delNickWatch c nick =>
    obtain ⟨hc, hstr⟩ := of_decide_eq_true he
    exact h.delNickWatch hc hstr
  | delListWatch c =>
    obtain ⟨t, ht, hsound, -⟩ := h.delListWatch (c := c)
    exact ⟨t, ht, hsound⟩
  | exit c =>
    obtain ⟨t, ht, hsound, husers, hnil⟩ := h.delListWatch (c := c)
    have hsub : ∀ d, d ∈ t.users.filter (· ≠ c) → d ∈ t.users := fun d hd => List.mem_of_mem_filter hd
    refine ⟨{ t with users := t.users.filter (· ≠ c) }, by rw [State.step, ht]; rfl, ⟨hsound.hash, hsound.pairs, hsound.alloc, fun d hd => ?_⟩,
      fun d hd => hsound.count d (hsub d hd), fun d hd => hsound.bound d (hsub d hd)⟩
    refine List.mem_filter.mpr ⟨hsound.users d hd, decide_eq_true ?_⟩
    rintro rfl
    exact hd hnil
  | find nick =>
    obtain ⟨t, r, hfind, hlinked, -⟩ := h.toLinked.find (of_decide_eq_true he)
    exact ⟨_, by rw [State.step, hfind]; rfl, hlinked, h.count, h.bound⟩

lemma Sound.start (tables : HashTables) (wt_lasttime : Ptr → ℤ) (watches : Client → ℕ) (now : ℤ) :
    Sound (State.start tables wt_lasttime watches now) := by
  have hnot : ∀ w : Ptr, w ∉ ([] : List Ptr) := fun w => List.not_mem_nil
  refine ⟨⟨⟨⟨fun _ => [], ⟨fun _ => rfl, fun _ w hw => absurd hw (hnot w), fun _ => List.nodup_nil⟩,
      fun w => Iff.rfl, fun w hw => absurd hw (hnot w)⟩, List.nodup_nil⟩,
    ⟨fun _ _ => iff_of_false (hnot _) (hnot _), fun _ => List.nodup_nil, fun _ => List.nodup_nil⟩,
    fun w => iff_of_false (hnot w) fun h => h rfl, fun c hc => absurd rfl hc⟩,
    fun c hc => absurd hc (hnot c), fun c hc => absurd hc (hnot c)⟩

end Sound

/-- **The WATCH relation is consistent in every run**: a record is in the list of a user if and only if the user
is in the list of the record, once on each side; a user's count is the length of its list; the hash table has
the records, each once, which have a watcher; and each event is done. -/
theorem watch_consistent (tables : HashTables) (wt_lasttime : Ptr → ℤ) (watches : Client → ℕ)
    (now : ℤ) (es : List Event)
    (hmeets : Runs.Meets State.step State.allowed (State.start tables wt_lasttime watches now) es) :
    ∃ s, Runs.run State.step (State.start tables wt_lasttime watches now) es = some s ∧
    (∀ c ∈ s.users, s.watches c = (s.watch c).length ∧ (s.watch c).Nodup ∧ ∀ w ∈ s.watch c, w ∈ s.allocated) ∧
    (∀ w ∈ s.allocated, s.wt_watch w ≠ [] ∧ (s.wt_watch w).Nodup ∧ ∀ c ∈ s.wt_watch w, c ∈ s.users) ∧
    (∀ c ∈ s.users, ∀ w ∈ s.allocated, w ∈ s.watch c ↔ c ∈ s.wt_watch w) ∧
    Consistent s.tables.crc32hash s.tables.watchTable s.tables.wt_nick s.allocated := by
  obtain ⟨s, hs, h⟩ := Runs.Meets.run (fun s e h he => Sound.step h e he) es
    (Sound.start tables wt_lasttime watches now) hmeets
  refine ⟨s, hs, fun c hc => ⟨h.count c hc, h.pairs.nodup_left c, fun w hw => (h.of_mem hw).1⟩,
    fun w hw => ⟨(h.alloc w).mp hw, h.pairs.nodup_right w, fun c hc => ?_⟩,
    fun c _ w _ => h.pairs.mem c w, h.hash.consistent⟩
  have hmem : w ∈ s.watch c := (h.pairs.mem c w).mpr hc
  exact h.users c (List.ne_nil_of_mem hmem)

/-- Two users watch a nick, one of them in another case, and one watches no more. -/
theorem watch_consistent_example : ∃ s, Runs.run State.step (State.start ⟨crc32, ⟨fun _ => none, fun _ => none⟩,
        ⟨fun _ => none, fun _ => none⟩, ⟨fun _ => none, fun _ => none⟩, fun _ => [], fun _ => 0,
        fun _ => [], fun _ => []⟩ (fun _ => 0) (fun _ => 0) 0)
      [.makeUser 1, .makeUser 2, .addNickWatch 1 ['a'] 7, .addNickWatch 2 ['A'] 8,
        .addNickWatch 1 ['b'] 8, .delNickWatch 1 ['B'], .find ['a'], .exit 1] = some s ∧
    Consistent s.tables.crc32hash s.tables.watchTable s.tables.wt_nick s.allocated := by
  obtain ⟨s, hs, -, -, -, h⟩ := watch_consistent ⟨crc32, ⟨fun _ => none, fun _ => none⟩,
        ⟨fun _ => none, fun _ => none⟩, ⟨fun _ => none, fun _ => none⟩, fun _ => [], fun _ => 0,
        fun _ => [], fun _ => []⟩ (fun _ => 0) (fun _ => 0) 0
      [.makeUser 1, .makeUser 2, .addNickWatch 1 ['a'] 7, .addNickWatch 2 ['A'] 8,
        .addNickWatch 1 ['b'] 8, .delNickWatch 1 ['B'], .find ['a'], .exit 1] (by decide +kernel)
  exact ⟨s, hs, h⟩

end Nefarious.Watch
