import Xhyve.Lib.Transition

/-!
# The block interface

Requests to a block device wait on a queue until the one worker thread takes them. A request
that begins where another outstanding one ends is held back until that one completes, so that
sequential transfers keep their order.

Elements point to the caller's requests, which are memory the caller fills in before it hands
them in. The queues are changed under `bc_mtx` only. `blockif_proc` runs without it and marks the
element done, and `blockif_cancel` keeps it while it waits for that mark. The transfer itself,
its callback and the signal that interrupts it touch no queue and are left out.
-/

namespace Xhyve.Emul.BlockIf

open Xhyve.Lib

def blockifNumthr : Nat := 1
def blockifMaxreq : Nat := 64 + blockifNumthr

/-- The largest `off_t`. -/
def offMax : BitVec 64 := 0x7fffffffffffffff

inductive Blockop
  | read | write | flush | delete
deriving DecidableEq, Repr

inductive Blockstat
  | free | block | pend | busy | done
deriving DecidableEq, Repr

inductive Errno
  | ok | e2big | einval | ebusy
deriving DecidableEq, Repr

/-- `struct blockif_req`, with the lengths of the first `br_iovcnt` vectors. -/
structure BlockifReq where
  brIov : List (BitVec 64)
  brOffset : BitVec 64
deriving DecidableEq, Repr

structure BlockifElem where
  beReq : Option Nat
  beOp : Blockop
  beStatus : Blockstat
  beTid : Nat
  beBlock : BitVec 64
deriving DecidableEq, Repr

/-- `struct blockif_ctxt`. The queues hold indices into `bc_reqs`. -/
structure BlockifCtxt where
  bcReqs : Nat → BlockifElem
  bcFreeq : List Nat
  bcPendq : List Nat
  bcBusyq : List Nat
  bcBtid : Nat
  bcClosing : Bool

/-- The callers' requests by address. -/
abbrev Requests := Nat → BlockifReq

/-! ## Queue operations -/

/-- Where a request ends; a flush ends nowhere. -/
def blockEnd (br : BlockifReq) : Blockop → BitVec 64
  | .flush => offMax
  | _ => br.brIov.foldl (· + ·) br.brOffset

/-- The outstanding element a request that begins at `off` has to wait for. -/
def findBlocker (bc : BlockifCtxt) (off : BitVec 64) : Option Nat :=
  (bc.bcPendq.find? fun tbe => (bc.bcReqs tbe).beBlock = off).or
    (bc.bcBusyq.find? fun tbe => (bc.bcReqs tbe).beBlock = off)

/-- The element at the head of the free queue, filled in, goes to the end of the pending one. -/
def insertElem (bc : BlockifCtxt) (be : Nat) (freeq : List Nat) (elem : BlockifElem) :
    BlockifCtxt :=
  { bc with
    bcReqs := Function.update bc.bcReqs be elem
    bcFreeq := freeq
    bcPendq := bc.bcPendq ++ [be] }

/-- `none` when an assertion fails. -/
def blockifEnqueue (bc : BlockifCtxt) (req : Requests) (breq : Nat) (op : Blockop) :
    Option (Bool × BlockifCtxt) :=
  match bc.bcFreeq with
  | [] => none
  | be :: freeq =>
    if (bc.bcReqs be).beStatus = .free then
      let status := if findBlocker bc (req breq).brOffset = none then .pend else .block
      some (status = .pend, insertElem bc be freeq { bc.bcReqs be with
        beReq := some breq
        beOp := op
        beStatus := status
        beBlock := blockEnd (req breq) op })
    else none

/-- The first pending element that is not held back; `none` when an assertion fails. -/
def firstPend (reqs : Nat → BlockifElem) : List Nat → Option (Option Nat)
  | [] => some none
  | be :: pendq =>
    if (reqs be).beStatus = .pend then some (some be)
    else if (reqs be).beStatus = .block then firstPend reqs pendq
    else none

/-- The element the thread takes moves to the busy queue. -/
def takeElem (bc : BlockifCtxt) (be t : Nat) : BlockifCtxt :=
  { bc with
    bcReqs := Function.update bc.bcReqs be { bc.bcReqs be with beStatus := .busy, beTid := t }
    bcPendq := bc.bcPendq.erase be
    bcBusyq := bc.bcBusyq ++ [be] }

def blockifDequeue (bc : BlockifCtxt) (t : Nat) : Option (Option Nat × BlockifCtxt) :=
  match firstPend bc.bcReqs bc.bcPendq with
  | none => none
  | some none => some (none, bc)
  | some (some be) => some (some be, takeElem bc be t)

/-- The offset of the request an element points to, as it is now. -/
def elemOffset (reqs : Nat → BlockifElem) (req : Requests) (be : Nat) : Option (BitVec 64) :=
  (reqs be).beReq.map fun breq => (req breq).brOffset

/-- The elements after every pending one that begins at `off` has been let go. -/
def wake (bc : BlockifCtxt) (req : Requests) (off : BitVec 64) (tbe : Nat) : BlockifElem :=
  if tbe ∈ bc.bcPendq ∧ elemOffset bc.bcReqs req tbe = some off then
    { bc.bcReqs tbe with beStatus := .pend }
  else bc.bcReqs tbe

/-- `TAILQ_REMOVE` from the queue the element's status says it is on. -/
def removeElem (bc : BlockifCtxt) (be : Nat) : BlockifCtxt :=
  if (bc.bcReqs be).beStatus = .done ∨ (bc.bcReqs be).beStatus = .busy then
    { bc with bcBusyq := bc.bcBusyq.erase be }
  else { bc with bcPendq := bc.bcPendq.erase be }

/-- The element removed lets go of those that wait for it and becomes free. -/
def releaseElem (bc : BlockifCtxt) (req : Requests) (be : Nat) : BlockifCtxt :=
  let reqs := wake bc req (bc.bcReqs be).beBlock
  { bc with
    bcReqs := Function.update reqs be
      { reqs be with beTid := 0, beStatus := .free, beReq := none }
    bcFreeq := bc.bcFreeq ++ [be] }

def blockifComplete (bc : BlockifCtxt) (req : Requests) (be : Nat) : BlockifCtxt :=
  releaseElem (removeElem bc be) req be

/-- `blockif_request`, with whether it signals the worker. -/
def blockifRequest (bc : BlockifCtxt) (req : Requests) (breq : Nat) (op : Blockop) :
    Option (Errno × Bool × BlockifCtxt) :=
  if bc.bcFreeq ≠ [] then (blockifEnqueue bc req breq op).map fun r => (.ok, r.1, r.2)
  else some (.e2big, false, bc)

/-! ## The threads -/

/-- Where the loop of `blockif_thr` stands. -/
inductive Worker
  /-- Before `blockif_dequeue`. -/
  | ready
  /-- In `blockif_proc`. -/
  | proc (be : Nat)
  /-- After it, before `blockif_complete`. -/
  | finish (be : Nat)
  /-- In `pthread_cond_wait`. -/
  | waiting
  | exited
deriving DecidableEq, Repr

structure State where
  bc : BlockifCtxt
  req : Requests
  worker : Worker
  /-- The busy element `blockif_cancel` holds the lock for. -/
  cancelling : Option Nat

/-- `blockif_open`, from the queues on. -/
def blockifOpen (btid : Nat) (req : Requests) : State where
  bc := {
    bcReqs := fun _ => ⟨none, .read, .free, 0, 0⟩
    bcFreeq := (List.range blockifMaxreq).reverse
    bcPendq := []
    bcBusyq := []
    bcBtid := btid
    bcClosing := false }
  req := req
  worker := .ready
  cancelling := none

/-- A signal moves the worker off the condition variable. -/
def Worker.signal : Worker → Worker
  | .waiting => .ready
  | w => w

inductive Op
  /-- A caller fills in a request of its own. -/
  | fill (breq : Nat) (br : BlockifReq)
  /-- `blockif_read`, `blockif_write`, `blockif_flush` or `blockif_delete`. -/
  | request (op : Blockop) (breq : Nat)
  | cancel (breq : Nat)
  /-- `blockif_cancel` sees the element done and lets go of the lock. -/
  | cancelReturn
  | dequeue
  | procDone
  | complete
  /-- A wake-up without a signal. -/
  | wakeup
  | close
deriving DecidableEq, Repr

/-- The worker's own steps, and the end of a cancellation that waits for one. -/
def Op.isWorker : Op → Bool
  | .cancelReturn | .dequeue | .procDone | .complete => true
  | _ => false

def blockifCancel (s : State) (breq : Nat) : Errno × State :=
  match s.bc.bcPendq.find? fun be => (s.bc.bcReqs be).beReq = some breq with
  | some be => (.ok, { s with bc := blockifComplete s.bc s.req be })
  | none =>
    match s.bc.bcBusyq.find? fun be => (s.bc.bcReqs be).beReq = some breq with
    | none => (.einval, s)
    | some be =>
      if (s.bc.bcReqs be).beStatus = .busy then (.ebusy, { s with cancelling := some be })
      else (.ebusy, s)

/-- The turn of the worker's loop that begins with `blockif_dequeue`. -/
def workerDequeue (s : State) : Option State :=
  match blockifDequeue s.bc s.bc.bcBtid with
  | none => none
  | some (some be, bc) => some { s with bc := bc, worker := .proc be }
  | some (none, bc) =>
    some { s with bc := bc, worker := if bc.bcClosing then .exited else .waiting }

/-- Which steps can be taken: who needs the lock has to get it, and the context is not used
after `blockif_close`. -/
def admissible (s : State) : Op → Bool
  | .fill .. => true
  | .request .. | .cancel _ | .close => s.cancelling = none ∧ s.bc.bcClosing = false
  | .cancelReturn =>
    match s.cancelling with
    | some be => (s.bc.bcReqs be).beStatus ≠ .busy
    | none => false
  | .dequeue => s.worker = .ready ∧ s.cancelling = none
  | .procDone =>
    match s.worker with
    | .proc _ => true
    | _ => false
  | .complete =>
    match s.worker with
    | .finish _ => s.cancelling = none
    | _ => false
  | .wakeup => s.worker = .waiting

/-- One admissible step with the value it returns; `none` when an assertion fails. -/
def step (s : State) : Op → Option (Errno × State)
  | .fill breq br => some (.ok, { s with req := Function.update s.req breq br })
  | .request op breq =>
    (blockifRequest s.bc s.req breq op).map fun r =>
      (r.1, { s with bc := r.2.2, worker := if r.2.1 then s.worker.signal else s.worker })
  | .cancel breq => some (blockifCancel s breq)
  | .cancelReturn => some (.ebusy, { s with cancelling := none })
  | .dequeue => (workerDequeue s).map fun s => (.ok, s)
  | .procDone =>
    match s.worker with
    | .proc be => some (.ok, { s with
        bc := { s.bc with
          bcReqs := Function.update s.bc.bcReqs be { s.bc.bcReqs be with beStatus := .done } }
        worker := .finish be })
    | _ => none
  | .complete =>
    match s.worker with
    | .finish be =>
      some (.ok, { s with bc := blockifComplete s.bc s.req be, worker := .ready })
    | _ => none
  | .wakeup => some (.ok, { s with worker := .ready })
  | .close => some (.ok, { s with
      bc := { s.bc with bcClosing := true }
      worker := s.worker.signal })

def next (s : State) (op : Op) : Option State :=
  if admissible s op then (step s op).map Prod.snd else none

/-- Every interleaving of callers, worker and cancellations. -/
def system : System State Op :=
  System.ofFn (fun s => ∃ btid req, s = blockifOpen btid req) next

end Xhyve.Emul.BlockIf
