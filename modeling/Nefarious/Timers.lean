import Nefarious.Lib.Runs
import Nefarious.Lib.Stable
import Mathlib.Algebra.Order.Ring.Int
import Mathlib.Logic.Function.Basic

/-!
# Timers

Timers wait in a queue, in the order in which they expire. A step is undefined when an assertion of the code
fails: an event for a timer that is not active, or a timer that is queued twice.

Names: `ircd_events.c`.
-/

namespace Nefarious.Timers

open Function (update)

open Lib

/-! ## Data -/

/-- The types of a timer. `ircd_events.h` `enum TimerType`. -/
inductive TimerType
  /-- Timer that runs at a specific time. -/
  | absolute
  /-- Timer that runs so many seconds in the future. -/
  | relative
  | periodic
  deriving DecidableEq

/-- The events of a timer. `ircd_events.h` `enum EventType`. -/
inductive EventType
  | expire
  /-- The generator is being destroyed. -/
  | destroy
  deriving DecidableEq

/-- Timer event generator. `ircd_events.h` `struct Timer`, `struct GenHeader`. -/
structure Timer where
  type : TimerType
  value : ℤ
  expire : ℤ
  active : Bool
  marked : Bool
  readd : Bool
  /-- Reference count, an `unsigned int`. -/
  ref : ℕ

/-- What is under way. `timer_run`, `event_execute`. -/
inductive Frame
  /-- `timer_run` is at the head of its loop. -/
  | run
  /-- The function of a timer was called. -/
  | event (type : EventType) (timer : ℕ)
  deriving DecidableEq

/-- A timer has expired and is called. -/
structure Fire where
  arming : ℕ
  type : TimerType
  expire : ℤ
  now : ℤ

/-- The timers, with the history of what was done with them. `evInfo`. -/
structure State where
  currentTime : ℤ
  timer : ℕ → Timer
  /-- `evInfo.gens.g_timer`. -/
  queue : List ℕ
  /-- What is under way, the last first. -/
  stack : List Frame
  /-- The number of the last arming of a timer. -/
  arming : ℕ → ℕ
  /-- The number of the next arming. -/
  armings : ℕ
  /-- The number of the last insertion of a timer. -/
  stamp : ℕ → ℕ
  /-- The number of the next insertion. -/
  stamps : ℕ
  /-- The timers that entered service. -/
  begun : List ℕ
  /-- The calls of timers that expired. -/
  fired : List Fire
  /-- The timers that were destroyed, with the reference count before. -/
  destroyed : List (ℕ × ℕ)
  /-- The reference counts before they were decremented. -/
  dropped : List ℕ

def State.set (s : State) (t : ℕ) (timer : Timer) : State :=
  { s with timer := update s.timer t timer }

def State.arm (s : State) (t : ℕ) : State :=
  { s with arming := update s.arming t s.armings, armings := s.armings + 1 }

/-! ## Events -/

/-- The function of a timer is called for an event. `event_generate`, `event_execute`. -/
def State.generate (s : State) (type : EventType) (t : ℕ) : State :=
  let timer := s.timer t
  { s.set t { timer with ref := (timer.ref + 1) % 2 ^ 32, active := decide (type ≠ .destroy) } with
    stack := .event type t :: s.stack
    fired :=
      if type = .expire then s.fired ++ [⟨s.arming t, timer.type, timer.expire, s.currentTime⟩]
      else s.fired
    destroyed := if type = .destroy then s.destroyed ++ [(t, timer.ref)] else s.destroyed }

/-- Generate an event and execute it, up to the call of the function. `event_generate`, `event_execute`. -/
def eventGenerate (s : State) (type : EventType) (t : ℕ) : Option State :=
  if (s.timer t).active then some (s.generate type t) else none

/-- Decrement the reference count. `ircd_events.h`. -/
def genRefDec (s : State) (t : ℕ) : State :=
  { s.set t { s.timer t with ref := ((s.timer t).ref + (2 ^ 32 - 1)) % 2 ^ 32 } with
    dropped := s.dropped ++ [(s.timer t).ref] }

def genDequeue (s : State) (t : ℕ) : State := { s with queue := s.queue.erase t }

/-! ## Timers -/

/-- When a timer is to expire. `timer_enqueue`. -/
def Timer.due (timer : Timer) (now : ℤ) : ℤ :=
  match timer.type with
  | .absolute => timer.value
  | .relative | .periodic => timer.value + now

/-- A timer is linked in the right place. `timer_enqueue`. -/
def State.link (s : State) (t : ℕ) : State :=
  let s := s.set t { s.timer t with expire := (s.timer t).due s.currentTime }
  { s with
    queue := Stable.insert (fun u => (s.timer u).expire) t s.queue
    stamp := update s.stamp t s.stamps
    stamps := s.stamps + 1 }

/-- Place a timer in the correct spot on the queue. -/
def timerEnqueue (s : State) (t : ℕ) : Option State :=
  if t ∈ s.queue ∨ !(s.timer t).active then none else some (s.link t)

def timerInit (s : State) (t : ℕ) : State :=
  s.set t { s.timer t with active := false, marked := false, readd := false, ref := 0 }

def timerAdd (s : State) (t : ℕ) (type : TimerType) (value : ℤ) : Option State :=
  let timer := s.timer t
  let s := { (s.arm t).set t { timer with
      active := true, readd := timer.readd || timer.marked, ref := 0, type := type, value := value
      expire := 0 } with
    begun := if timer.active then s.begun else s.begun ++ [t] }
  if timer.marked then some s else timerEnqueue s t

/-- Remove a timer from the processing queue. -/
def timerDel (s : State) (t : ℕ) : Option State :=
  let timer := s.timer t
  let s := s.set t { timer with readd := false }
  if timer.marked then some s else eventGenerate (genDequeue s t) .destroy t

def timerChg (s : State) (t : ℕ) (type : TimerType) (value : ℤ) : Option State :=
  let timer := s.timer t
  if timer.marked then
    some ((s.arm t).set t { timer with type := type, value := value, expire := 0, readd := true })
  else
    timerEnqueue (genDequeue ((s.arm t).set t { timer with type := type, value := value, expire := 0 }) t) t

/-- The loop of `timer_run` takes the first timer, if it has expired, else it ends. -/
def timerRun (s : State) : Option State :=
  match s.queue with
  | [] => some { s with stack := s.stack.tail }
  | t :: _ =>
    let timer := s.timer t
    if s.currentTime < timer.expire then some { s with stack := s.stack.tail }
    else eventGenerate ((genDequeue s t).set t { timer with
      marked := true, readd := timer.readd || decide (timer.type = .periodic) }) .expire t

/-- The function of an expired timer has returned: the timer is queued again, or destroyed. `event_execute`, `timer_run`. -/
def timerRan (s : State) (t : ℕ) : Option State :=
  let s := genRefDec s t
  let s := s.set t { s.timer t with marked := false }
  if (s.timer t).readd then (timerEnqueue s t).map fun u => u.set t { u.timer t with readd := false }
  else eventGenerate s .destroy t

/-! ## The system -/

def State.start (currentTime : ℤ) (timer : ℕ → Timer) : State where
  currentTime := currentTime
  timer t := { timer t with active := false, marked := false, readd := false, ref := 0 }
  queue := []
  stack := []
  arming _ := 0
  armings := 0
  stamp _ := 0
  stamps := 0
  begun := []
  fired := []
  destroyed := []
  dropped := []

/-- What happens. -/
inductive Event
  | tick (now : ℤ)
  | init (timer : ℕ)
  | add (timer : ℕ) (type : TimerType) (value : ℤ)
  | del (timer : ℕ)
  | chg (timer : ℕ) (type : TimerType) (value : ℤ)
  /-- `timer_run` is called. -/
  | run
  /-- `timer_run` goes through its loop once. -/
  | go
  /-- The function of a timer returns. `event_execute`. -/
  | ret

def State.step (s : State) : Event → Option State
  | .tick now => some { s with currentTime := now }
  | .init t => some (timerInit s t)
  | .add t type value => timerAdd s t type value
  | .del t => timerDel s t
  | .chg t type value => timerChg s t type value
  | .run => some { s with stack := .run :: s.stack }
  | .go => timerRun s
  | .ret =>
    match s.stack with
    | .event .expire t :: stack => timerRan { s with stack := stack } t
    | _ => some { s with stack := s.stack.tail }

/-- The next step is one of `timer_run`. -/
def State.running (s : State) : Bool := s.stack.head? = some .run

/-- Nobody calls a timer function while `timer_run` is at work. A timer is initialized when it is not in
service, added when it is not queued, deleted when it is in service, and changed when it is in service and not
periodic. `ircd_events.c` (assertions). -/
def State.allowed (s : State) : Event → Bool
  | .tick _ => true
  | .init t => !s.running && !(s.timer t).active
  | .add t _ _ => !s.running && decide (t ∉ s.queue)
  | .del t => !s.running && (s.timer t).active
  | .chg t type value => !s.running && (s.timer t).active &&
      decide (value ≠ 0 ∧ (s.timer t).type ≠ .periodic ∧ type ≠ .periodic)
  | .run => !s.running
  | .go => s.running
  | .ret => !s.running && !s.stack.isEmpty

end Nefarious.Timers
