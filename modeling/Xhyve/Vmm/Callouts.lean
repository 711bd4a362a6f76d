import Mathlib.Tactic
import Xhyve.Lib.Linked
import Xhyve.Lib.Transition

/-!
# Callouts

The timer queue behind every guest timer. Clients program and stop callouts under
one mutex; a single thread waits for the nearest one and runs its handler. The queue
is an intrusive doubly linked list through the callouts themselves. Between two
releases of the mutex each party runs atomically, and the thread's location says
whether it holds the mutex.
-/

namespace Xhyve.Vmm.Callouts

open Lib

/-- What `mach_timebase_info` reports. -/
structure Timebase where
  numer : Nat
  denom : Nat

variable (tb : Timebase)

def nanosToAbs (nanos : Nat) : Nat := nanos * tb.denom % 2 ^ 64 / tb.numer

def absToNanos (abs : Nat) : Nat := abs * tb.numer % 2 ^ 64 / tb.denom

/-- `sbt` counts seconds in units of `2 ^ -32`. -/
def sbt2mat (sbt : Int) : Nat :=
  let u := (sbt % 2 ^ 64).toNat
  let s := u / 2 ^ 32
  let ns := 1000000000 * (u % 2 ^ 32) / 2 ^ 32
  nanosToAbs tb ((s * 1000000000 + ns) % 2 ^ 64)

def cAbsolute : Nat := 0x0200

structure Flags where
  active : Bool
  pending : Bool
  completed : Bool
  waiting : Bool
deriving DecidableEq, Repr

def Flags.none : Flags := ⟨false, false, false, false⟩

structure Callout (ι : Type) where
  prev : Option ι
  next : Option ι
  timeout : Nat
  argument : Nat
  callout : Nat
  flags : Flags
  queued : Bool

/-- A callout after `callout_init`. -/
def Callout.zero {ι : Type} : Callout ι := ⟨none, none, 0, 0, 0, Flags.none, false⟩

/-- What a callout holds beside its links. -/
def Callout.data {ι : Type} (c : Callout ι) : Nat × Nat × Nat × Flags :=
  (c.timeout, c.argument, c.callout, c.flags)

/-- The callouts and the queue's own variables. -/
structure Queue (ι : Type) where
  node : ι → Callout ι
  calloutQueue : Option ι
  work : Bool

variable {ι : Type} [DecidableEq ι]

namespace Queue

def modify (q : Queue ι) (c : ι) (f : Callout ι → Callout ι) : Queue ι :=
  { q with node := Function.update q.node c (f (q.node c)) }

/-- A write through a pointer that may be NULL. -/
def modifyAt (q : Queue ι) : Option ι → (Callout ι → Callout ι) → Queue ι
  | none, _ => q
  | some c, f => q.modify c f

theorem node_modify (q : Queue ι) (c x : ι) (f : Callout ι → Callout ι) :
    (q.modify c f).node x = if x = c then f (q.node x) else q.node x := by
  by_cases h : x = c
  · subst h
    simp [modify]
  · simp [modify, h]

theorem node_modifyAt (q : Queue ι) (p : Option ι) (x : ι) (f : Callout ι → Callout ι) :
    (q.modifyAt p f).node x = if p = some x then f (q.node x) else q.node x := by
  cases p with
  | none => simp [modifyAt]
  | some c => simp [modifyAt, node_modify, eq_comm]

@[simp] theorem calloutQueue_modify (q : Queue ι) (c : ι) (f : Callout ι → Callout ι) :
    (q.modify c f).calloutQueue = q.calloutQueue := rfl

@[simp] theorem calloutQueue_modifyAt (q : Queue ι) (p : Option ι) (f : Callout ι → Callout ι) :
    (q.modifyAt p f).calloutQueue = q.calloutQueue := by cases p <;> rfl

end Queue

def calloutCmp (a b : Callout ι) : Bool := a.timeout < b.timeout

/-- The writes that put `c` between `prev` and `next`; without a predecessor it becomes
the head of the queue. -/
def linkBetween (q : Queue ι) (c : ι) (prev next : Option ι) : Queue ι :=
  let q := q.modify c ({ · with prev := prev, next := next })
  let q := q.modifyAt next ({ · with prev := some c })
  let q := q.modifyAt prev ({ · with next := some c })
  let q := if prev = none then { q with calloutQueue := some c } else q
  q.modify c ({ · with queued := true })

/-- The loop of `callout_insert` from a node that does not come after `c`. -/
def insertAfter (q : Queue ι) (c : ι) : Nat → ι → Option (Queue ι)
  | 0, _ => none
  | fuel + 1, node =>
    match (q.node node).next with
    | none => some (linkBetween q c (some node) none)
    | some next =>
      if calloutCmp (q.node c) (q.node next) then some (linkBetween q c (some node) (some next))
      else insertAfter q c fuel next

/-- `none` when the loop has not ended within `fuel` turns. -/
def calloutInsert (fuel : Nat) (q : Queue ι) (c : ι) : Option (Queue ι) :=
  match q.calloutQueue with
  | none => some (linkBetween q c none none)
  | some node =>
    if calloutCmp (q.node c) (q.node node) then some (linkBetween q c none (some node))
    else insertAfter q c fuel node

def calloutRemove (q : Queue ι) (c : ι) : Queue ι :=
  if (q.node c).queued = false then q
  else
    let prev := (q.node c).prev
    let next := (q.node c).next
    let q := if prev = none then { q with calloutQueue := next } else q
    let q := q.modifyAt prev ({ · with next := next })
    let q := q.modifyAt next ({ · with prev := prev })
    q.modify c ({ · with prev := none, next := none, queued := false })

/-- The part of `callout_stop_safe_locked` that follows the wait. -/
def stopLocked (q : Queue ι) (c : ι) : Queue ι :=
  (calloutRemove q c).modify c ({ · with flags := Flags.none })

/-- The body of `callout_reset_sbt` under the mutex. -/
def calloutResetSbt (fuel now : Nat) (q : Queue ι) (c : ι) (sbt : Int) (ftn arg flags : Nat) :
    Option (Queue ι) :=
  let mat := sbt2mat tb sbt
  let timeout := if flags ≠ cAbsolute then (mat + now) % 2 ^ 64 else mat
  let q := q.modify c ({ · with timeout := timeout })
  let q := stopLocked q c
  let q := q.modify c fun n =>
    { n with
      callout := ftn
      argument := arg
      flags := { n.flags with pending := true, active := true } }
  (calloutInsert fuel q c).map fun q =>
    if q.calloutQueue = some c then { q with work := true } else q

/-! ## The thread and its clients -/

/-- Where the callout thread is. It holds the mutex at `top`, `timed` and `waited`. -/
inductive Thread (ι : Type)
  /- Outside the mutex, or waiting for the queue to fill. -/
  | idle
  | top
  /- At the test of the inner loop, with `ret = 0`. -/
  | timed (c : ι)
  /- In the timed wait, entered at `since` for `delta` ticks. -/
  | armed (c : ι) (since delta : Nat)
  /- Past the inner loop; whether `ret` is `ETIMEDOUT`. -/
  | waited (c : ι) (expired : Bool)
  | handler (c : ι)
  | aborted
deriving DecidableEq, Repr

def Thread.unlocked : Thread ι → Bool
  | idle | armed .. | handler _ => true
  | _ => false

/-- The queue, the clock and the threads, with the programming history: the timeout each
callout was last programmed for and not stopped since, and when it was programmed. -/
structure State (ι : Type) where
  queue : Queue ι
  now : Nat
  thread : Thread ι
  /- Callouts `callout_init` has been called on. -/
  callouts : List ι
  /- Callouts some client is draining, asleep on `c->wait`. -/
  drainers : List ι
  programmed : ι → Option Nat
  stamp : ι → Nat
  resets : Nat

inductive Event (ι : Type)
  | tick (d : Nat)
  | init (c : ι)
  | reset (c : ι) (sbt : Int) (ftn arg flags : Nat)
  /- `callout_stop_safe` without `drain`, or from the callout thread itself. -/
  | stop (c : ι)
  /- `callout_stop_safe` with `drain` from any other thread. -/
  | drain (c : ι)
  | drained (c : ι)
  | deactivate (c : ι)
  /- The thread, between two points where it drops or takes the mutex. -/
  | wake
  | pick
  | check
  | signalled
  | timedOut
  | finish
  | handlerReturn

/-- A stop takes effect. -/
def State.stopped (s : State ι) (c : ι) : State ι :=
  { s with queue := stopLocked s.queue c, programmed := Function.update s.programmed c none }

/-- `q` is the queue with `c` newly programmed. -/
def State.program (s : State ι) (c : ι) (q : Queue ι) : State ι :=
  { s with
    queue := q
    programmed := Function.update s.programmed c (some (q.node c).timeout)
    stamp := Function.update s.stamp c s.resets
    resets := s.resets + 1 }

def State.reset (s : State ι) (c : ι) (sbt : Int) (ftn arg flags : Nat) : Option (State ι) :=
  (calloutResetSbt tb s.callouts.length s.now s.queue c sbt ftn arg flags).map (s.program c)

/-- With a handler running or still to run, the drainer announces itself and sleeps; a
second drainer aborts. -/
def State.drain (s : State ι) (c : ι) : Option (State ι) :=
  let flags := (s.queue.node c).flags
  if flags.pending ∨ flags.active ∧ ¬ flags.completed then
    if flags.waiting then none
    else if flags.completed then some (State.stopped { s with queue.work := true } c)
    else
      let q := s.queue.modify c fun n => { n with flags := { n.flags with waiting := true } }
      some { s with queue := { q with work := true }, drainers := c :: s.drainers }
  else some (s.stopped c)

/-- The head of the queue, or back to waiting for work. -/
def State.pick (s : State ι) : State ι :=
  match s.queue.calloutQueue with
  | none => { s with thread := .idle }
  | some c =>
    let flags := (s.queue.node c).flags
    if ¬ (flags.active ∨ flags.pending) then { s with thread := .aborted }
    else { s with thread := .timed c }

def State.check (s : State ι) (c : ι) : State ι :=
  if s.queue.work then { s with thread := .waited c false }
  else if s.now ≥ (s.queue.node c).timeout then { s with thread := .waited c true }
  else { s with thread := .armed c s.now ((s.queue.node c).timeout - s.now) }

/-- Dispatches the callout, or starts over. -/
def State.finish (s : State ι) (c : ι) (expired : Bool) : State ι :=
  let q := { s.queue with work := false }
  if ¬ expired ∨ ¬ (q.node c).queued then { s with queue := q, thread := .top }
  else
    let q := q.modify c fun n => { n with flags := { n.flags with pending := false } }
    { s with queue := q, thread := .handler c }

def State.handlerReturn (s : State ι) (c : ι) : State ι :=
  let n := s.queue.node c
  if n.queued ∧ (¬ n.flags.pending ∨ n.flags.waiting) then
    let q := s.queue.modify c fun n => { n with flags := { n.flags with completed := true } }
    { s with queue := calloutRemove q c, thread := .top }
  else { s with thread := .top }

/-- The relative wait returns `ETIMEDOUT` only after the requested nanoseconds. -/
def elapsed (since delta now : Nat) : Prop :=
  absToNanos tb delta * tb.denom ≤ (now - since) * tb.numer

instance (since delta now : Nat) : Decidable (elapsed tb since delta now) :=
  inferInstanceAs (Decidable (_ ≤ _))

/-- A client's critical section: the mutex is free and the callout initialised. -/
def State.mayCall (s : State ι) (c : ι) : Prop := s.thread.unlocked ∧ c ∈ s.callouts

instance (s : State ι) (c : ι) : Decidable (s.mayCall c) := inferInstanceAs (Decidable (_ ∧ _))

def State.next (s : State ι) : Event ι → Option (State ι)
  | .tick d => some { s with now := s.now + d }
  | .init c =>
    if c ∈ s.callouts then none
    else some { s with
      queue := s.queue.modify c fun _ => Callout.zero
      callouts := c :: s.callouts }
  | .reset c sbt ftn arg flags => if s.mayCall c then s.reset tb c sbt ftn arg flags else none
  | .stop c => if s.mayCall c then some (s.stopped c) else none
  | .drain c => if s.mayCall c then s.drain c else none
  | .drained c =>
    if s.mayCall c ∧ c ∈ s.drainers ∧ (s.queue.node c).flags.completed then
      some { s.stopped c with drainers := s.drainers.erase c }
    else none
  | .deactivate c =>
    some { s with queue := s.queue.modify c fun n => { n with flags := { n.flags with active := false } } }
  | .wake => if s.thread = .idle then some { s with thread := .top } else none
  | .pick => if s.thread = .top then some s.pick else none
  | .check =>
    match s.thread with
    | .timed c => some (s.check c)
    | _ => none
  | .signalled =>
    match s.thread with
    | .armed c _ _ => some { s with thread := .timed c }
    | _ => none
  | .timedOut =>
    match s.thread with
    | .armed c since delta =>
      if elapsed tb since delta s.now then some { s with thread := .waited c true } else none
    | _ => none
  | .finish =>
    match s.thread with
    | .waited c expired => some (s.finish c expired)
    | _ => none
  | .handlerReturn =>
    match s.thread with
    | .handler c => some (s.handlerReturn c)
    | _ => none

/-- After `callout_system_init`, at any time. -/
structure Initial (s : State ι) : Prop where
  queue : s.queue.calloutQueue = none ∧ s.queue.work = false
  unqueued : ∀ c, (s.queue.node c).queued = false
  thread : s.thread = .idle
  empty : s.callouts = [] ∧ s.drainers = []
  programmed : ∀ c, s.programmed c = none
  stamp : ∀ c, s.stamp c = 0

def system : System (State ι) (Event ι) := .ofFn Initial (State.next tb)

end Xhyve.Vmm.Callouts
