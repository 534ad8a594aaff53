import Nefarious.Lib.Hlist

/-!
# Flushing the queues of all connections

Connections with something to send are on a list, `send_queues`, through links in the connections themselves.

Names: `send.c`.
-/

set_option linter.unusedSectionVars false

namespace Nefarious.Flush

open List (mem_cons mem_cons_of_mem mem_cons_self)
open Function (update update_of_ne update_self)

open Lib.Hlist

variable {κ : Type} [DecidableEq κ]

/-- A connection, as far as sending goes. `client.h` `struct Connection`. -/
structure Con where
  sendq : ℕ
  lastsq : ℕ
  /-- `get_sendq`. -/
  maxSendq : ℕ
  blocked : Bool
  /-- `FLAG_DEADSOCKET`. -/
  dead : Bool
  /-- It is not the server itself, and has a descriptor. -/
  live : Bool
  server : Bool
  /-- `IsUser`, `IsUnknown` or `FLAG_CLOSING`: nobody is told when it dies. -/
  quiet : Bool
deriving DecidableEq

/-- `can_send`. -/
def Con.canSend (c : Con) : Bool := !c.dead && c.live

/-- The links of the list and the connections. `send_queues`. -/
structure State (κ : Type) where
  /-- `send_queues`, `con_next` and `con_prev_p`. -/
  links : Links Unit κ
  con : κ → Con

def State.set (s : State κ) (x : κ) (c : Con) : State κ := { s with con := update s.con x c }

/-- `client.c` `client_add_sendq`. -/
def clientAddSendq (h : Links Unit κ) (x : κ) : Links Unit κ :=
  if h.prevp x = none then h.push () x else h

/-- `client.c` `client_drop_sendq`. -/
def clientDropSendq (h : Links Unit κ) (x : κ) : Links Unit κ :=
  match h.unlink x with
  | none => h
  | some h' => { h' with next := update h'.next x none, prevp := update h'.prevp x none }

/-! ### Sending -/

/-- What a write comes to. `s_bsd.c` `deliver_it`. -/
inductive Write where
  /-- `IO_SUCCESS`: so many octets were handed over, and so many written. -/
  | success (count written : ℕ)
  | blocked
  | failure
deriving DecidableEq

/-- What the loop of `send_queued` ends with. -/
inductive Ending where
  | drained (lastsq : ℕ)
  | left (sendq lastsq : ℕ) (blocked : Bool)
  | failed (lastsq : ℕ)
deriving DecidableEq

/-- The loop of `send_queued`. No more is handed over than the queue has, and no more is written than is handed
over; a write that is not told of blocks. `send_queued`, `s_bsd.c` `deliver_it`. -/
def drain : List Write → ℕ → ℕ → Ending
  | _, 0, lastsq => .drained lastsq
  | [], n + 1, lastsq => .left (n + 1) lastsq true
  | .blocked :: _, n + 1, lastsq => .left (n + 1) lastsq true
  | .failure :: _, _ + 1, lastsq => .failed lastsq
  | .success count written :: ws, n + 1, lastsq =>
    let count := min count (n + 1)
    let written := min written count
    if written = 0 then .left (n + 1) lastsq (written < count)
    else if written < count then .left (n + 1 - written) ((n + 1 - written) / 1024) true
    else drain ws (n + 1 - written) ((n + 1 - written) / 1024)

mutual

/-- What happens in a call of `send_queued`: the writes, and what is sent when the connection dies. `send_queued`, `dead_link`. -/
inductive Script (κ : Type) where
  | mk (writes : List Write) (notices : Notices κ)

/-- Messages that are sent: to whom, how long, what is sent when the queue is too long, and what happens when it
is flushed. `sendto_opmask_butone`. -/
inductive Notices (κ : Type) where
  | nil
  | cons (dst : κ) (len : ℕ) (full : Notices κ) (script : Script κ) (rest : Notices κ)

end

def Script.writes : Script κ → List Write
  | .mk writes _ => writes

/-- A connection dies. `dead_link`. -/
def State.die (s : State κ) (x : κ) : State κ :=
  { links := clientDropSendq s.links x
    con := update s.con x { s.con x with dead := true, sendq := 0 } }

/-- A connection dies, and operators are told. -/
def deadLink (notify : State κ → State κ) (x : κ) (s : State κ) : State κ :=
  if (s.con x).quiet then s.die x else notify (s.die x)

/-- `send_queued`. -/
def sendQueuedWith (writes : List Write) (notify : State κ → State κ) (x : κ) (s : State κ) : State κ :=
  let c := s.con x
  if c.blocked ∨ ¬ c.canSend then s
  else
    match drain writes c.sendq c.lastsq with
    | .drained lastsq =>
      { links := clientDropSendq s.links x
        con := update s.con x { c with sendq := 0, lastsq := lastsq } }
    | .left sendq lastsq blocked => s.set x { c with sendq := sendq, lastsq := lastsq, blocked := blocked }
    | .failed lastsq => deadLink notify x (s.set x { c with lastsq := lastsq, dead := true })

/-- A message of so many octets and a line break. `send_buffer`. -/
def sendBufferWith (full notify queued : State κ → State κ) (x : κ) (len : ℕ) (s : State κ) : State κ :=
  let c := s.con x
  if ¬ c.canSend then s
  else if c.maxSendq < c.sendq then deadLink notify x (if c.server then full s else s)
  else
    let c := { c with sendq := c.sendq + (len + 2) }
    let s : State κ := { links := clientAddSendq s.links x, con := update s.con x c }
    if c.lastsq < c.sendq / 1024 then queued s else s

mutual

def sendQueued : Script κ → κ → State κ → State κ
  | .mk writes notices, x, s => sendQueuedWith writes (fun s => sendNotices notices s) x s

/-- Send messages to operators. `sendto_opmask_butone`. -/
def sendNotices : Notices κ → State κ → State κ
  | .nil, s => s
  | .cons dst len full (.mk writes notices) rest, s =>
    sendNotices rest (sendBufferWith (fun s => sendNotices full s) (fun s => sendNotices notices s)
        (fun s => sendQueuedWith writes (fun s => sendNotices notices s) dst s) dst len s)

end

/-- Queue a message, and try to send. -/
def sendBuffer (full : Notices κ) (script : Script κ) (x : κ) (len : ℕ) (s : State κ) : State κ :=
  match script with
  | .mk _ notices => sendBufferWith (sendNotices full) (sendNotices notices) (sendQueued script x) x len s

/-- The walk, and the connections that it comes to; `none` is a walk that goes on. `flush_connections`. -/
def flushLoop (scripts : κ → Script κ) : ℕ → Option κ → State κ → Option (List κ)
  | 0, _, _ => none
  | _ + 1, none, _ => some []
  | n + 1, some c, s =>
    let s' := sendQueued (scripts c) c s
    (flushLoop scripts n (s'.links.next c) s').map (c :: ·)

def flushConnections (scripts : κ → Script κ) (n : ℕ) (s : State κ) : Option (List κ) :=
  flushLoop scripts n (s.links.head ()) s

/-- A call. `send_buffer`, `send_queued`. -/
inductive Call (κ : Type) where
  | buffer (dst : κ) (len : ℕ) (full : Notices κ) (script : Script κ)
  | queued (dst : κ) (script : Script κ)

/-- One call. `send_buffer`, `send_queued`. -/
def Call.run : Call κ → State κ → State κ
  | .buffer dst len full script, s => sendBuffer full script dst len s
  | .queued dst script, s => sendQueued script dst s

def runCalls (calls : List (Call κ)) (s : State κ) : State κ := calls.foldl (fun s c => c.run s) s

/-- Nothing is queued. `send_queues`; `list.c` `make_connection`. -/
structure Fresh (s : State κ) : Prop where
  head : s.links.head () = none
  off : ∀ x, s.links.prevp x = none ∧ s.links.next x = none
  sendq : ∀ x, (s.con x).sendq = 0

/-- **The list is that of the connections with something to send**, each is on it once, and the links in both
directions agree. -/
structure Queues (s : State κ) (l : List κ) : Prop where
  holds : s.links.Holds (fun _ => True) (fun _ => l)
  off : ∀ x, x ∉ l → s.links.prevp x = none ∧ s.links.next x = none
  mem : ∀ x, x ∈ l ↔ 0 < (s.con x).sendq

section
variable {s : State κ} {l : List κ} {x : κ}

lemma update_unit (l l' : List κ) : update (fun _ : Unit => l) () l' = fun _ => l' := by
  funext u
  exact update_self ..

lemma Fresh.queues (h : Fresh s) : Queues s [] := by
  refine ⟨⟨fun u _ => h.head, fun _ _ => rfl, fun _ => List.nodup_nil, fun _ _ _ hx => absurd hx List.not_mem_nil⟩,
    fun x _ => h.off x, fun x => ?_⟩
  rw [h.sendq x]
  exact iff_of_false List.not_mem_nil (Nat.lt_irrefl 0)

lemma Queues.nodup (h : Queues s l) : l.Nodup := h.holds.nodup ()

lemma Queues.head_eq (h : Queues s l) : s.links.head () = l.head? := (h.holds.path () trivial).read_eq

lemma Queues.set (h : Queues s l) {c : Con} (hc : 0 < c.sendq ↔ 0 < (s.con x).sendq) :
    Queues (s.set x c) l := by
  refine ⟨h.holds, h.off, fun y => ?_⟩
  rw [h.mem]
  by_cases hy : y = x
  · subst hy
    simp only [State.set, update_self]
    exact hc.symm
  · simp only [State.set, update_of_ne hy]

lemma Queues.add (h : Queues s l) {c : Con} (hc : 0 < c.sendq) :
    ∃ l', Queues { links := clientAddSendq s.links x, con := update s.con x c } l' := by
  have hmem : ∀ y, y ≠ x → (y ∈ l ↔ 0 < ((update s.con x c) y).sendq) := by
    intro y hy
    rw [update_of_ne hy]
    exact h.mem y
  unfold clientAddSendq
  by_cases hx : x ∈ l
  · obtain ⟨q, hq, -⟩ := @Links.Holds.unlink Unit κ _ _ s.links _ _ () x h.holds hx
    rw [if_neg (by rw [hq]; exact Option.some_ne_none q)]
    refine ⟨l, h.holds, h.off, fun y => ?_⟩
    by_cases hy : y = x
    · subst hy
      dsimp only
      rw [update_self]
      exact iff_of_true hx hc
    · exact hmem y hy
  · rw [if_pos (h.off x hx).1]
    have hpush := @Links.Holds.push Unit κ _ _ s.links _ _ () x h.holds trivial fun _ => hx
    rw [update_unit] at hpush
    refine ⟨x :: l, hpush, ?_, fun y => ?_⟩
    · intro y hy
      rw [mem_cons, not_or] at hy
      have hhead : s.links.head () ≠ some y := by
        rw [h.head_eq]
        exact fun e => hy.2 (List.mem_of_mem_head? e)
      have hnext := s.links.push_read () x (.next y)
      rw [if_neg (nomatch ·), if_neg fun e => hy.1 (Loc.next.inj e)] at hnext
      refine ⟨?_, hnext.trans (h.off y hy.2).2⟩
      rw [Links.push_prevp, if_neg (Ne.symm hy.1), if_neg hhead]
      exact (h.off y hy.2).1
    · by_cases hy : y = x
      · subst hy
        dsimp only
        rw [update_self]
        exact iff_of_true mem_cons_self hc
      · rw [mem_cons, or_iff_right hy]
        exact hmem y hy

lemma Queues.drop (h : Queues s l) {c : Con} (hc : c.sendq = 0) :
    Queues { links := clientDropSendq s.links x, con := update s.con x c } (l.erase x) := by
  have hmem : ∀ y, y ∈ l.erase x ↔ 0 < ((update s.con x c) y).sendq := by
    intro y
    rw [h.nodup.mem_erase_iff]
    by_cases hy : y = x
    · subst hy
      rw [update_self, hc]
      exact iff_of_false (fun hno => hno.1 rfl) (Nat.lt_irrefl 0)
    · rw [update_of_ne hy, and_iff_right hy]
      exact h.mem y
  unfold clientDropSendq
  by_cases hx : x ∈ l
  · obtain ⟨q, hq, hwhere, hnext, hunlink, hpass⟩ := @Links.Holds.unlink Unit κ _ _ s.links _ _ () x h.holds hx
    rw [hunlink]
    rw [update_unit] at hpass
    have hgone : x ∉ l.erase x := fun hno => (h.nodup.mem_erase_iff.mp hno).1 rfl
    refine ⟨?_, ?_, hmem⟩
    · refine hpass.congr (fun _ _ => rfl) ?_
      intro _ y hy
      have hyx : y ≠ x := fun e => hgone (e ▸ hy)
      exact ⟨update_of_ne hyx .., update_of_ne hyx ..⟩
    · intro y hy
      by_cases hyx : y = x
      · subst hyx
        exact ⟨update_self .., update_self ..⟩
      · have hyl : y ∉ l := fun hno => hy (h.nodup.mem_erase_iff.mpr ⟨hyx, hno⟩)
        dsimp only
        rw [update_of_ne hyx, update_of_ne hyx, Links.pass_prevp, if_neg fun e => hyl (hnext y e)]
        refine ⟨(h.off y hyl).1, ?_⟩
        have hread := s.links.pass_read q (.next y) x
        rw [if_neg] at hread
        · exact hread.trans (h.off y hyl).2
        · rintro rfl
          rcases hwhere with e | ⟨z, hz, e⟩
          · cases e
          · cases e
            exact hyl hz
  · rw [List.erase_of_not_mem hx] at hmem ⊢
    have hnone : s.links.unlink x = none := by
      rw [Links.unlink, (h.off x hx).1]
      rfl
    rw [hnone]
    exact ⟨h.holds, h.off, hmem⟩

/-! ### Calls keep the list -/

lemma drain_left : {ws : List Write} → {n lastsq m k : ℕ} → {b : Bool} → drain ws n lastsq = .left m k b → 0 < m
  | ws, 0, lastsq, m, k, b, h => by
    rw [drain] at h
    cases h
  | [], n + 1, lastsq, m, k, b, h => by
    rw [drain] at h
    cases h
    exact Nat.succ_pos n
  | .blocked :: _, n + 1, lastsq, m, k, b, h => by
    rw [drain] at h
    cases h
    exact Nat.succ_pos n
  | .failure :: _, n + 1, lastsq, m, k, b, h => by
    rw [drain] at h
    cases h
  | .success count written :: ws, n + 1, lastsq, m, k, b, h => by
    rw [drain] at h
    split_ifs at h with hzero hless
    · cases h
      exact Nat.succ_pos n
    · cases h
      omega
    · exact drain_left h

lemma Queues.die (h : Queues s l) (x : κ) : Queues (s.die x) (l.erase x) := h.drop rfl

def Sound (s : State κ) : Prop := ∃ l, Queues s l

lemma Sound.deadLink {notify : State κ → State κ} (hn : ∀ s, Sound s → Sound (notify s)) (x : κ) :
    Sound s → Sound (deadLink notify x s) := by
  rintro ⟨l, h⟩
  unfold Flush.deadLink
  split_ifs
  · exact ⟨_, h.die x⟩
  · exact hn _ ⟨_, h.die x⟩

lemma Sound.sendQueuedWith {writes : List Write} {notify : State κ → State κ}
    (hn : ∀ s, Sound s → Sound (notify s)) (x : κ) : Sound s → Sound (sendQueuedWith writes notify x s) := by
  rintro ⟨l, h⟩
  unfold Flush.sendQueuedWith
  dsimp only
  split_ifs with hskip
  · exact ⟨l, h⟩
  · cases hdrain : drain writes (s.con x).sendq (s.con x).lastsq with
    | drained lastsq => exact ⟨_, h.drop rfl⟩
    | left sendq lastsq blocked =>
      refine ⟨l, h.set (iff_of_true (drain_left hdrain) ?_)⟩
      by_contra hzero
      rw [Nat.eq_zero_of_not_pos hzero, drain] at hdrain
      cases hdrain
    | failed lastsq => exact Sound.deadLink hn x ⟨l, h.set Iff.rfl⟩

lemma Sound.sendBufferWith {full notify queued : State κ → State κ} (hf : ∀ s, Sound s → Sound (full s))
    (hn : ∀ s, Sound s → Sound (notify s)) (hq : ∀ s, Sound s → Sound (queued s)) (x : κ) (len : ℕ) :
    Sound s → Sound (sendBufferWith full notify queued x len s) := by
  intro h
  unfold Flush.sendBufferWith
  dsimp only
  split_ifs with hskip hfull hserver hmany
  · exact Sound.deadLink hn x (hf _ h)
  · exact Sound.deadLink hn x h
  · obtain ⟨l, h⟩ := h
    exact hq _ (h.add (Nat.succ_pos _))
  · obtain ⟨l, h⟩ := h
    exact h.add (Nat.succ_pos _)
  · exact h

lemma sendNotices_sound : (n : Notices κ) → ∀ s, Sound s → Sound (sendNotices n s)
  | .nil, _, h => h
  | .cons dst len full (.mk writes notices) rest, s, h => by
    rw [sendNotices]
    apply sendNotices_sound rest
    have hnotices := sendNotices_sound notices
    exact Sound.sendBufferWith (sendNotices_sound full) hnotices (fun s => Sound.sendQueuedWith hnotices dst) dst len h

lemma sendQueued_sound (script : Script κ) (x : κ) : ∀ s, Sound s → Sound (sendQueued script x s) := by
  intro s h
  cases script with
  | mk writes notices =>
    rw [sendQueued]
    exact Sound.sendQueuedWith (sendNotices_sound notices) x h

lemma sendBuffer_sound (full : Notices κ) (script : Script κ) (x : κ) (len : ℕ) (s : State κ) (h : Sound s) :
    Sound (sendBuffer full script x len s) := by
  cases script with
  | mk writes notices =>
    exact Sound.sendBufferWith (sendNotices_sound full) (sendNotices_sound notices) (sendQueued_sound _ x) x len h

lemma runCalls_sound : (calls : List (Call κ)) → ∀ s, Sound s → Sound (runCalls calls s)
  | [], _, h => h
  | .buffer dst len full script :: calls, s, h =>
    runCalls_sound calls _ (sendBuffer_sound full script dst len s h)
  | .queued dst script :: calls, s, h => runCalls_sound calls _ (sendQueued_sound script dst s h)

/-! ### The walk -/

/-- Something is left. `send_queued`. -/
def Ending.isLeft : Ending → Bool
  | .left _ _ _ => true
  | _ => false

/-- Something is left in the queue of a connection after its turn: it is not tried at all, or its writes neither
empty its queue nor fail. `send_queued`. -/
def Remains (script : Script κ) (c : Con) : Prop :=
  c.blocked = true ∨ c.canSend = false ∨ (drain script.writes c.sendq c.lastsq).isLeft = true

instance (script : Script κ) (c : Con) : Decidable (Remains script c) :=
  inferInstanceAs (Decidable (_ ∨ _ ∨ _))

lemma Queues.sendQueued (h : Queues s l) {script : Script κ} (hr : Remains script (s.con x)) :
    Queues (sendQueued script x s) l ∧ ∀ y, y ≠ x → (Flush.sendQueued script x s).con y = s.con y := by
  cases script with
  | mk writes notices =>
    rw [Flush.sendQueued]
    unfold Flush.sendQueuedWith
    dsimp only
    split_ifs with hskip
    · exact ⟨h, fun _ _ => rfl⟩
    · rw [not_or, not_not] at hskip
      have hleft := (hr.resolve_left hskip.1).resolve_left fun hno => by
        rw [hno] at hskip
        exact Bool.false_ne_true hskip.2
      have hdrain' : (drain writes (s.con x).sendq (s.con x).lastsq).isLeft = true := hleft
      cases hdrain : drain writes (s.con x).sendq (s.con x).lastsq with
      | drained lastsq =>
        rw [hdrain] at hdrain'
        exact absurd hdrain' Bool.false_ne_true
      | left m k b =>
        refine ⟨h.set (iff_of_true (drain_left hdrain) ?_), fun y hy => update_of_ne hy ..⟩
        by_contra hzero
        rw [Nat.eq_zero_of_not_pos hzero, drain] at hdrain
        cases hdrain
      | failed lastsq =>
        rw [hdrain] at hdrain'
        exact absurd hdrain' Bool.false_ne_true

/-- A dead connection stays dead, with an empty queue. `can_send`. -/
def Gone (x : κ) (s : State κ) : Prop := (s.con x).dead = true ∧ (s.con x).sendq = 0

lemma Gone.deadLink {notify : State κ → State κ} (hn : ∀ s, Gone x s → Gone x (notify s)) (y : κ)
    (h : Gone x s) : Gone x (deadLink notify y s) := by
  have hdie : Gone x (s.die y) := by
    unfold Gone State.die
    by_cases hy : x = y
    · subst hy
      dsimp only
      rw [update_self]
      exact ⟨rfl, rfl⟩
    · dsimp only
      rw [update_of_ne hy]
      exact h
  unfold Flush.deadLink
  split_ifs
  · exact hdie
  · exact hn _ hdie

lemma Gone.of_update {y : κ} {c : Con} {h' : Links Unit κ} (h : Gone x s) (hy : (s.con y).canSend = true) :
    Gone x { links := h', con := update s.con y c } := by
  have hne : x ≠ y := by
    rintro rfl
    rw [Con.canSend, h.1] at hy
    exact Bool.false_ne_true hy
  unfold Gone
  dsimp only
  rw [update_of_ne hne]
  exact h

lemma Gone.sendQueuedWith {writes : List Write} {notify : State κ → State κ}
    (hn : ∀ s, Gone x s → Gone x (notify s)) (y : κ) (h : Gone x s) :
    Gone x (sendQueuedWith writes notify y s) := by
  unfold Flush.sendQueuedWith
  dsimp only
  split_ifs with hskip
  · exact h
  · rw [not_or, not_not] at hskip
    cases drain writes (s.con y).sendq (s.con y).lastsq with
    | drained lastsq => exact h.of_update hskip.2
    | left sendq lastsq blocked => exact h.of_update hskip.2
    | failed lastsq =>
      apply Gone.deadLink hn y
      exact h.of_update hskip.2

lemma Gone.sendBufferWith {full notify queued : State κ → State κ} (hf : ∀ s, Gone x s → Gone x (full s))
    (hn : ∀ s, Gone x s → Gone x (notify s)) (hq : ∀ s, Gone x s → Gone x (queued s)) (y : κ) (len : ℕ)
    (h : Gone x s) : Gone x (sendBufferWith full notify queued y len s) := by
  unfold Flush.sendBufferWith
  dsimp only
  by_cases hskip : (s.con y).canSend = true
  · rw [if_neg (not_not.mpr hskip)]
    split_ifs
    · exact Gone.deadLink hn y (hf _ h)
    · exact Gone.deadLink hn y h
    · exact hq _ (h.of_update hskip)
    · exact h.of_update hskip
  · rw [if_pos hskip]
    exact h

lemma sendNotices_gone : (n : Notices κ) → ∀ s, Gone x s → Gone x (sendNotices n s)
  | .nil, _, h => h
  | .cons dst len full (.mk writes notices) rest, s, h => by
    rw [sendNotices]
    apply sendNotices_gone rest
    have hnotices := sendNotices_gone notices
    exact Gone.sendBufferWith (sendNotices_gone full) hnotices (fun s => Gone.sendQueuedWith hnotices dst) dst len h

lemma Queues.sendQueued_next (h : Queues s l) {script : Script κ} (hno : ¬ Remains script (s.con x)) :
    (Flush.sendQueued script x s).links.next x = none := by
  unfold Remains at hno
  rw [not_or, not_or] at hno
  obtain ⟨hblocked, hsend, hdrain⟩ := hno
  have hempty : ∀ t : State κ, Sound t → (t.con x).sendq = 0 → t.links.next x = none := by
    rintro t ⟨l', hl'⟩ hzero
    refine (hl'.off x fun hx => ?_).2
    have hpos := (hl'.mem x).mp hx
    omega
  cases script with
  | mk writes notices =>
    refine hempty _ (sendQueued_sound _ x s ⟨l, h⟩) ?_
    rw [Flush.sendQueued]
    unfold Flush.sendQueuedWith
    dsimp only
    rw [if_neg (by rw [not_or, not_not]; exact ⟨hblocked, Bool.not_eq_false _ ▸ hsend⟩)]
    cases hd : drain writes (s.con x).sendq (s.con x).lastsq with
    | drained lastsq =>
      dsimp only
      rw [update_self]
    | left m k b =>
      apply absurd _ hdrain
      change (drain writes (s.con x).sendq (s.con x).lastsq).isLeft = true
      rw [hd]
      rfl
    | failed lastsq =>
      unfold Flush.deadLink
      have hgone : Gone x ((s.set x { s.con x with lastsq := lastsq, dead := true }).die x) := by
        unfold Gone State.die
        dsimp only
        rw [update_self]
        exact ⟨rfl, rfl⟩
      dsimp only
      split_ifs
      · exact hgone.2
      · exact (sendNotices_gone notices _ hgone).2

/-- The connections of a list up to the first that does not remain. -/
def reached (P : κ → Prop) [DecidablePred P] : List κ → List κ
  | [] => []
  | c :: cs => if P c then c :: reached P cs else [c]

lemma reached_all (P : κ → Prop) [DecidablePred P] : {l : List κ} → l.Nodup →
    ((∀ c ∈ l, c ∈ reached P l) ↔ ∀ c ∈ l.dropLast, P c)
  | [], _ => by simp
  | [c], _ => by
    rw [List.dropLast_singleton, reached]
    split_ifs
    · simp
    · simp
  | c :: d :: cs, hn => by
    rw [List.nodup_cons] at hn
    have ih := reached_all P hn.2
    rw [List.dropLast_cons_cons, reached]
    by_cases hc : P c
    · rw [if_pos hc]
      constructor
      · intro h e he
        rcases mem_cons.mp he with rfl | he
        · exact hc
        · refine ih.mp (fun f hf => ?_) e he
          have hne : f ≠ c := fun e => hn.1 (e ▸ hf)
          exact (mem_cons.mp (h f (mem_cons_of_mem c hf))).resolve_left hne
      · intro h f hf
        rcases mem_cons.mp hf with rfl | hf
        · exact mem_cons_self
        · exact mem_cons_of_mem c (ih.mpr (fun e he => h e (mem_cons_of_mem c he)) f hf)
    · rw [if_neg hc]
      apply iff_of_false
      · intro h
        have hd := List.mem_singleton.mp (h d (mem_cons_of_mem c mem_cons_self))
        exact hn.1 (hd ▸ mem_cons_self)
      · exact fun h => hc (h c mem_cons_self)

lemma Queues.next_eq {l₁ l₂ : List κ} (h : Queues s (l₁ ++ x :: l₂)) : s.links.next x = l₂.head? := by
  obtain ⟨-, -, -, hnext, -⟩ := (h.holds.path () trivial).pass l₁ h.nodup fun _ _ => (nomatch ·)
  exact hnext

lemma reached_congr {P Q : κ → Prop} [DecidablePred P] [DecidablePred Q] : {l : List κ} →
    (∀ c ∈ l, P c ↔ Q c) → reached P l = reached Q l
  | [], _ => rfl
  | c :: cs, h => by
    rw [reached, reached, reached_congr fun d hd => h d (mem_cons_of_mem c hd)]
    exact if_congr (h c mem_cons_self) rfl rfl

lemma flushLoop_eq (scripts : κ → Script κ) : (l₂ : List κ) → ∀ {l₁ : List κ} {n : ℕ} {s : State κ},
    Queues s (l₁ ++ l₂) → l₂.length < n →
    flushLoop scripts n l₂.head? s = some (reached (fun c => Remains (scripts c) (s.con c)) l₂)
  | [], _, n + 1, _, _, _ => rfl
  | c :: cs, l₁, n + 1, s, h, hn => by
    rw [List.head?_cons, flushLoop, reached]
    by_cases hr : Remains (scripts c) (s.con c)
    · obtain ⟨hq, hsame⟩ := h.sendQueued hr
      have hnext := hq.next_eq
      have happend : l₁ ++ c :: cs = (l₁ ++ [c]) ++ cs := by simp
      have hnodup := h.nodup
      rw [happend] at hq
      have ih := flushLoop_eq scripts cs hq (Nat.lt_of_succ_lt_succ hn)
      have hcongr : reached (fun d => Remains (scripts d) ((sendQueued (scripts c) c s).con d)) cs =
          reached (fun d => Remains (scripts d) (s.con d)) cs := by
        apply reached_congr
        intro d hd
        have hdc : d ≠ c := by
          rintro rfl
          exact (List.nodup_cons.mp (List.nodup_append.mp hnodup).2.1).1 hd
        rw [hsame d hdc]
      rw [if_pos hr, hnext, ih, hcongr]
      rfl
    · have hnext := h.sendQueued_next hr
      cases n with
      | zero => exact absurd (Nat.lt_of_succ_lt_succ hn) (Nat.not_lt_zero _)
      | succ n =>
        rw [if_neg hr, hnext]
        rfl

/-- **After every run, the list is that of the connections with something to send, and the walk ends; it comes
to all of them exactly when every connection but the last still has something to send after its turn.** -/
theorem flush_iff (calls : List (Call κ)) (hs : Fresh s) : ∃ l, Queues (runCalls calls s) l ∧ ∀ (scripts : κ →
    Script κ) (n : ℕ), l.length < n → ∃ visited, flushConnections scripts n (runCalls calls s) = some visited ∧
    ((∀ c ∈ l, c ∈ visited) ↔ ∀ c ∈ l.dropLast, Remains (scripts c) ((runCalls calls s).con c)) := by
  obtain ⟨l, h⟩ := runCalls_sound calls s ⟨[], hs.queues⟩
  refine ⟨l, h, fun scripts n hn => ?_⟩
  have hwalk := @flushLoop_eq κ _ scripts l [] n _ h hn
  rw [← h.head_eq] at hwalk
  exact ⟨_, hwalk, reached_all _ h.nodup⟩

end

def samplePair : State Bool where
  links := ⟨fun _ => none, fun _ => none, fun _ => none⟩
  con := fun _ => ⟨0, 0, 100, false, false, true, false, true⟩

def sampleCalls : List (Call Bool) := [.buffer false 3 .nil (.mk [] .nil), .buffer true 3 .nil (.mk [] .nil)]

def sampleScripts (_ : Bool) : Script Bool := .mk [.success 5 5] .nil

lemma samplePair_fresh : Fresh samplePair := ⟨rfl, fun _ => ⟨rfl, rfl⟩, fun _ => rfl⟩

theorem flush_iff_pair : ∃ l, Queues (runCalls sampleCalls samplePair) l ∧ ∀ (scripts : Bool → Script Bool) (n :
    ℕ), l.length < n → ∃ visited, flushConnections scripts n (runCalls sampleCalls samplePair) = some visited ∧
    ((∀ c ∈ l, c ∈ visited) ↔ ∀ c ∈ l.dropLast,
    Remains (scripts c) ((runCalls sampleCalls samplePair).con c)) :=
  flush_iff sampleCalls samplePair_fresh

/-- **The walk stops when a queue is emptied**: both connections have something to send, and only one is
flushed. -/
theorem flush_stops : flushConnections sampleScripts 3 (runCalls sampleCalls samplePair) = some [true] ∧
    0 < ((runCalls sampleCalls samplePair).con false).sendq := by
  decide

end Nefarious.Flush
