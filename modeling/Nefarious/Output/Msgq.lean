import Nefarious.Strings

/-!
# Message buffers and send queues

A line is formatted once, into a buffer of 512 bytes that its creator holds, and queued for any number of
connections.

Names: `msgq.c`.
-/

namespace Nefarious.Msgq

open Function (update)

/-- The address of a `struct MsgBuf`. -/
abbrev BufId := ℕ

/-- Buffer for a single message. Its links stand in the lists of `Pool`. `struct MsgBuf` -/
structure MsgBuf where
  /-- The actual buffer we are attaching. -/
  real : Option BufId
  ref : ℕ
  /-- The message, of `length` characters. -/
  text : Str
  /-- Size of the buffer, as a power of two. -/
  power : ℕ
  deriving DecidableEq

/-- Global tracking data for message buffers. `MQData` -/
structure Pool where
  /-- The buffers; memory that is not allocated holds none. -/
  heap : BufId → Option MsgBuf
  msglist : List BufId
  alloc : ℕ → ℕ
  /-- Number of buffers of each size in use. -/
  used : ℕ → ℕ
  free : ℕ → List BufId
  /-- Total amount of memory in buffers. -/
  tot_bufsize : ℕ
  /-- Number of `struct Msg` allocated. -/
  msgsAlloc : ℕ
  /-- Number of `struct Msg` in use. -/
  msgsUsed : ℕ
  /-- Length of the free list of `struct Msg`. -/
  msgsFree : ℕ

def Pool.modify (s : Pool) (mb : BufId) (f : MsgBuf → MsgBuf) : Pool :=
  { s with heap := update s.heap mb ((s.heap mb).map f) }

/-- Message body for a particular destination. `struct Msg`. -/
structure Msg where
  sent : ℕ
  msg : BufId
  deriving DecidableEq

/-- Entire two-priority message queue for a destination. `msgq.h` `struct MsgQ` -/
structure MsgQ where
  /-- Current number of bytes stored, in 32 bits. -/
  length : ℕ
  /-- Current number of messages stored, in 32 bits. -/
  count : ℕ
  queue : List Msg
  prio : List Msg
  deriving DecidableEq

/-- `msgq_init`. -/
def msgqInit : MsgQ := ⟨0, 0, [], []⟩

/-- Subtraction of `unsigned int`. -/
def sub32 (a b : ℕ) : ℕ := (a + (2 ^ 32 - b % 2 ^ 32)) % 2 ^ 32

/-- The size class of a message: the first power from `MB_BASE_SHIFT` to `MB_MAX_SHIFT` that accommodates it.
`msgq_alloc` -/
def powerFor (length : ℕ) : ℕ :=
  ([5, 6, 7, 8, 9].find? (fun power => (length - 1) >>> power = 0)).getD 10

/-- Pop a buffer off the free list, or allocate another if that does not bust the pool. `fresh` is the address
that the allocator answers with. `msgq_alloc` -/
def takeBuf (s : Pool) (power pool : ℕ) (fresh : BufId) : Option (Pool × BufId) :=
  match s.free power with
  | mb :: rest => some ({ s with free := update s.free power rest }, mb)
  | [] =>
    if s.tot_bufsize < pool then
      some ({ s with
        heap := update s.heap fresh (some ⟨none, 0, [], power⟩)
        alloc := update s.alloc power (s.alloc power + 1)
        tot_bufsize := s.tot_bufsize + 2 ^ power }, fresh)
    else none

/-- Remember the real buffer of `in_mb`. `msgq_alloc`. -/
def setReal (s : Pool) (in_mb r : Option BufId) : Pool :=
  match in_mb with
  | some mb => s.modify mb (fun b => { b with real := r })
  | none => s

/-- A buffer that leaves the free list. `msgq_alloc`. -/
def useBuf (s : Pool) (power : ℕ) (mb : BufId) : Pool :=
  { s.modify mb (fun b => { b with real := none, ref := 1 }) with
    used := update s.used power (s.used power + 1) }

/-- Allocate a message buffer large enough to hold `length` bytes, for the buffer `in_mb` if there is one. -/
def msgqAlloc (s : Pool) (in_mb : Option BufId) (length pool : ℕ) (fresh : BufId) : Pool × Option BufId :=
  let power := powerFor length
  if (in_mb.bind s.heap).any (fun b => b.power = power) then (setReal s in_mb in_mb, in_mb)
  else
    match takeBuf s power pool fresh with
    | some (s, mb) => (setReal (useBuf s power mb) in_mb (some mb), some mb)
    | none => (setReal s in_mb in_mb, in_mb)

/-- Deallocate the unused buffers of one size. `msgq_clear_freembs`. -/
def clearClass (s : Pool) (power : ℕ) : Pool :=
  { s with
    heap := fun mb => if mb ∈ s.free power then none else s.heap mb
    free := update s.free power []
    alloc := update s.alloc power (s.alloc power - (s.free power).length)
    tot_bufsize := s.tot_bufsize - (s.free power).length * 2 ^ power }

/-- Deallocate unused message buffers. -/
def msgqClearFreembs (s : Pool) : Pool := [5, 6, 7, 8, 9].foldl clearClass s

/-- A text as it stands in a buffer of 512 bytes: cut, with the end of the line. `msgq_vmake` -/
def lineOf (body : Str) : Str := body.take 510 ++ ['\r', '\n']

/-- Write the line into the buffer and link it into the list. `msgq_vmake` -/
def fillBuf (s : Pool) (mb : BufId) (body : Str) : Pool :=
  { s.modify mb (fun b => { b with text := lineOf body }) with msglist := mb :: s.msglist }

/-- Format a message buffer; `body` is the formatted text. When there is no buffer the free lists are cleared
and it is tried again. When there is none still, clients are killed: their queues are cleared, and the free
lists, before the next try. `msgq_vmake` -/
def msgqMake (s : Pool) (body : Str) (pool : ℕ) (fresh : BufId) : Option (Pool × BufId) :=
  match msgqAlloc s none 512 pool fresh with
  | (s, some mb) => some (fillBuf s mb body, mb)
  | (s, none) =>
    match msgqAlloc (msgqClearFreembs s) none 512 pool fresh with
    | (s, some mb) => some (fillBuf s mb body, mb)
    | (_, none) => none

/-- Append text to an existing message buffer, before the end of the line. The buffer is not queued yet. -/
def msgqAppend (s : Pool) (mb : BufId) (body : Str) : Pool :=
  s.modify mb (fun b => { b with text := lineOf (b.text.take (b.text.length - 2) ++ body) })

/-- Put a buffer on the free list of its size. `msgq_clean`. -/
def freeBuf (s : Pool) (mb : BufId) (power : ℕ) : Pool :=
  { s with
    free := update s.free power (mb :: s.free power)
    used := update s.used power (s.used power - 1) }

/-- Decrement the reference count of a buffer, freeing it if needed; its real buffer is cleaned before it goes
on the free list. The first argument bounds the chain of real buffers. -/
def msgqClean : ℕ → Pool → BufId → Option Pool
  | 0, _, _ => none
  | fuel + 1, s, mb => do
      let b ← s.heap mb
      let s := s.modify mb (fun b => { b with ref := b.ref - 1 })
      if b.ref - 1 = 0 then
        let s := { s with msglist := s.msglist.erase mb }
        let s ← match b.real with
          | some r => if r = mb then some s else msgqClean fuel s r
          | none => some s
        some (freeBuf s mb b.power)
      else some s

/-- Take a `struct Msg` from its free list, or allocate one. `msgq_add` -/
def takeMsg (s : Pool) : Pool :=
  if s.msgsFree = 0 then { s with msgsAlloc := s.msgsAlloc + 1, msgsUsed := s.msgsUsed + 1 }
  else { s with msgsFree := s.msgsFree - 1, msgsUsed := s.msgsUsed + 1 }

/-- Get the real buffer, allocating one if necessary; a copy takes the place of the buffer in the list of in-use
buffers. `msgq_add` -/
def attachReal (s : Pool) (mb : BufId) (b : MsgBuf) (pool : ℕ) (fresh : BufId) : Pool :=
  match b.real with
  | some _ => s
  | none =>
    match msgqAlloc s (some mb) b.text.length pool fresh with
    | (s, some tmp) =>
      if tmp = mb then s
      else { s.modify tmp (fun t => { t with text := b.text }) with
        msglist := s.msglist.map (fun x => if x = mb then tmp else x) }
    | (s, none) => s

/-- Append a message to a peer's message queue. `prio` is set to zero first, so the message goes to the normal
list. -/
def msgqAdd (s : Pool) (mq : MsgQ) (mb : BufId) (_prio : Bool) (pool : ℕ) (fresh : BufId) :
    Option (Pool × MsgQ) := do
  let b ← s.heap mb
  let s := attachReal (takeMsg s) mb b pool fresh
  let r ← (← s.heap mb).real
  let rb ← s.heap r
  some (s.modify r (fun b => { b with ref := b.ref + 1 }),
    { mq with
      queue := mq.queue ++ [⟨0, r⟩]
      length := (mq.length + rb.text.length) % 2 ^ 32
      count := (mq.count + 1) % 2 ^ 32 })

/-- One of the two lists. `msgq_delete`. -/
def MsgQ.get (mq : MsgQ) : Bool → List Msg
  | true => mq.prio
  | false => mq.queue

/-- Write one of the two lists. `msgq_delmsg`. -/
def MsgQ.set (mq : MsgQ) (l : List Msg) : Bool → MsgQ
  | true => { mq with prio := l }
  | false => { mq with queue := l }

/-- Remove some data from a list within a message queue; the result has the number of bytes left to remove. -/
def msgqDelmsg (s : Pool) (mq : MsgQ) (qlist : Bool) (length : ℕ) : Option (Pool × MsgQ × ℕ) :=
  match mq.get qlist with
  | [] => none
  | m :: next => do
      let b ← s.heap m.msg
      let msglen := b.text.length - m.sent
      if length ≥ msglen then
        let s ← msgqClean 2 s m.msg
        some ({ s with msgsUsed := s.msgsUsed - 1, msgsFree := s.msgsFree + 1 },
          { mq.set next qlist with
            length := sub32 mq.length msglen, count := sub32 mq.count 1 }, length - msglen)
      else
        some (s, { mq.set ({ m with sent := m.sent + length } :: next) qlist with
          length := sub32 mq.length length }, 0)

/-- A list has a partially sent head. `msgq_delete`, `msgq_mapiov`. -/
def partialHead : List Msg → Bool
  | m :: _ => 0 < m.sent
  | [] => false

/-- The list that data is deleted from: a partial message of the normal queue, then the priority queue, then the
normal queue. `msgq_delete` -/
def pick (mq : MsgQ) : Option Bool :=
  if partialHead mq.queue then some false
  else if mq.prio ≠ [] then some true
  else if mq.queue ≠ [] then some false
  else none

/-- The loop of `msgq_delete`; the first argument bounds it. `msgq_delete` -/
def msgqDeleteLoop : ℕ → Pool → MsgQ → ℕ → Option (Pool × MsgQ)
  | 0, _, _, _ => none
  | fuel + 1, s, mq, length =>
    if length = 0 then some (s, mq)
    else
      match pick mq with
      | some qlist => do
          let r ← msgqDelmsg s mq qlist length
          msgqDeleteLoop fuel r.1 r.2.1 r.2.2
      | none => some (s, mq)

/-- Delete bytes from the front of a message queue. Every turn but the last removes a message. -/
def msgqDelete (s : Pool) (mq : MsgQ) (length : ℕ) : Option (Pool × MsgQ) :=
  msgqDeleteLoop (mq.queue.length + mq.prio.length + 2) s mq length

/-- What is left of a message. `msgq_mapiov`. -/
def restOf (s : Pool) (m : Msg) : Option Str := (s.heap m.msg).map (fun b => b.text.drop m.sent)

/-- The whole of a message. `msgq_mapiov`. -/
def textOf (s : Pool) (m : Msg) : Option Str := (s.heap m.msg).map MsgBuf.text

/-- The partially sent head of a list. `msgq_mapiov`. -/
def headPart (l : List Msg) : List Msg := if partialHead l then l.take 1 else []

/-- The list without its partially sent head. `msgq_mapiov`. -/
def tailPart (l : List Msg) : List Msg := if partialHead l then l.drop 1 else l

/-- Map data from a message queue to an I/O vector of `count` elements: the partial heads from where they stand,
then the priority queue and the normal queue. -/
def msgqMapiov (s : Pool) (mq : MsgQ) (count : ℕ) : Option (List Str) :=
  if mq.length = 0 then some []
  else do
    let heads ← (headPart mq.queue ++ headPart mq.prio).mapM (restOf s)
    let tails ← (tailPart mq.prio ++ tailPart mq.queue).mapM (textOf s)
    some ((heads ++ tails).take count)

end Nefarious.Msgq
