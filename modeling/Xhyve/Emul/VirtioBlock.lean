import Xhyve.Virtio.RingProtocol
import Xhyve.Emul.BlockIf

/-!
# The virtio block device

The guest notifies the device of the chains it has put on the ring; the handler takes them one by
one and hands each as a request to the block interface, whose worker runs a callback when it has
been processed. The callback returns the chain to the guest, which may use it again before the
worker has let go of the element.

`vsc_mtx` is held from the notification to the end of its loop, and by the callback. The request of
a chain is the one of its head in `vbsc_ios`, so the address the block interface is given is the
head.
-/

namespace Xhyve.Emul.VirtioBlock

open Xhyve.Lib
open Xhyve.Virtio (Proto GuestMem ChainArgs Getchain Iovec vqGetchain vqRelchain vqHasDescs)
open Xhyve.Emul.BlockIf (Blockop BlockifReq Worker)

def vtblkRingszLog : Nat := 6
def vtblkRingsz : Nat := 2 ^ vtblkRingszLog
def blockifIovMax : Nat := 33
def devBsize : BitVec 64 := 512

def vringDescFWrite : UInt16 := 2

def vbhOpRead : BitVec 32 := 0
def vbhOpWrite : BitVec 32 := 1
def vbhOpFlush : BitVec 32 := 4
def vbhOpFlushOut : BitVec 32 := 5
def vbhOpIdent : BitVec 32 := 8
def vbhFlagBarrier : BitVec 32 := 0x80000000

/-- `struct virtio_blk_hdr`, without the priority. -/
structure VirtioBlkHdr where
  vbhType : BitVec 32
  vbhSector : BitVec 64
deriving DecidableEq, Repr

/-- The guest's memory, with the header stored at a host address. -/
structure Memory extends GuestMem where
  hdrAt : Nat → VirtioBlkHdr

/-- The device offers indirect descriptors. -/
def vtblkArgs : ChainArgs := ⟨"vtblk", true, blockifIovMax + 2, true⟩

/-- The errors of a request that the status byte tells apart. -/
inductive Errno
  | ok | eopnotsupp | enosys | other
deriving DecidableEq, Repr

inductive Status
  | ok | ioerr | unsupp
deriving DecidableEq, Repr

def statusOf : Errno → Status
  | .eopnotsupp | .enosys => .unsupp
  | .other => .ioerr
  | .ok => .ok

/-- What the assertions of `pci_vtblk_proc` check; `fault` is a null pointer. -/
inductive Assertion
  | count | headerFlags | headerLen | statusLen | statusFlags | direction | err | fault
deriving DecidableEq, Repr

/-! ## A request -/

structure Parsed where
  req : BlockifReq
  status : Nat
  type : BitVec 32
deriving DecidableEq, Repr

def isWriteDesc (flags : UInt16) : Bool := flags &&& vringDescFWrite ≠ 0

/-- `pci_vtblk_proc` on the descriptors of a chain, up to the switch. -/
def parse (m : Memory) (r : Getchain) : Except Assertion Parsed :=
  match r.ret, r.out.iov, r.out.flags with
  | .ok n, hdr :: iov, hdrFlags :: flags =>
    if n < 2 ∨ n > blockifIovMax + 2 then .error .count
    else if isWriteDesc hdrFlags then .error .headerFlags
    else if hdr.iovLen ≠ 16 then .error .headerLen
    else
      match hdr.iovBase, iov.getLast?, flags.getLast? with
      | some vbh, some stat, some statFlags =>
        if stat.iovLen ≠ 1 then .error .statusLen
        else if ¬ isWriteDesc statFlags then .error .statusFlags
        else
          let type := (m.hdrAt vbh).vbhType &&& ~~~vbhFlagBarrier
          let writeop := decide (type = vbhOpWrite)
          -- a write reads from its descriptors
          if flags.dropLast.any fun f => (!isWriteDesc f) != writeop then .error .direction
          else
            match stat.iovBase with
            | none => .error .fault
            | some status => .ok
              { req :=
                  { brIov := iov.dropLast.map fun v => v.iovLen.toBitVec.setWidth 64
                    brOffset := (m.hdrAt vbh).vbhSector * devBsize }
                status := status
                type := type }
      | _, _, _ => .error .fault
  | _, _, _ => .error .count

/-- The operation of the switch; `none` is completed at once. -/
def opOf (type : BitVec 32) : Option Blockop :=
  if type = vbhOpRead then some .read
  else if type = vbhOpWrite then some .write
  else if type = vbhOpFlush ∨ type = vbhOpFlushOut then some .flush
  else none

/-- The error a request without an operation is completed with. -/
def immediateErrno (type : BitVec 32) : Errno := if type = vbhOpIdent then .ok else .eopnotsupp

/-! ## State -/

/-- Where the vCPU that handles a notification stands. -/
inductive Handler
  | idle
  /-- At the head of the loop of `pci_vtblk_notify`. -/
  | loop
  /-- Before the switch of `pci_vtblk_proc`. -/
  | proc (idx : UInt16) (type : BitVec 32)
deriving DecidableEq, Repr

structure Completion where
  idx : UInt16
  status : Nat
  value : Status
deriving DecidableEq, Repr

structure State where
  /-- The queue, with the histories of its two parties. -/
  ring : Proto
  /-- `vq_save_used`, the used index `vq_endchains` last saw. -/
  saveUsed : UInt16
  blk : BlockIf.State
  /-- `io_status` of each `pci_vtblk_ioreq`. -/
  ioStatus : Nat → Nat
  handler : Handler
  /-- The callback of the element the worker is about to complete has run. -/
  called : Bool
  /-- The heads the guest has put on the ring and not seen used. -/
  outstanding : List UInt16
  /-- A request was filled in before the callback of its last use had run. -/
  refilled : Bool
  failed : Option Assertion
  completions : List Completion

/-- The chain of a head the device holds. -/
def heldPos (p : Proto) (idx : UInt16) : Option Nat := p.held.find? fun pos => p.taken[pos]? = some idx

/-- `vq_relchain`, whatever the histories say. -/
def relchain (p : Proto) (idx : UInt16) (iolen : UInt32) : Proto :=
  { p with
    vq := vqRelchain p.vq idx iolen
    held := match heldPos p idx with
      | some pos => p.held.erase pos
      | none => p.held
    released := p.released ++ [(idx, iolen)] }

/-- The status byte, `vq_relchain` and `vq_endchains`; whether that interrupts the guest changes
nothing here. -/
def pciVtblkDoneLocked (s : State) (idx : UInt16) (err : Errno) : State :=
  let ring := relchain s.ring idx 1
  { s with
    ring := ring
    saveUsed := ring.vq.vqUsed.vuIdx
    completions := s.completions ++ [⟨idx, s.ioStatus idx.toNat, statusOf err⟩] }

/-- The elements whose callback has yet to run. -/
def waiting (s : State) : List Nat :=
  s.blk.bc.bcPendq ++ if s.called then [] else s.blk.bc.bcBusyq

/-- The histories after a chain has been taken. -/
def takeChain (p : Proto) (vq : Virtio.VqueueInfo) (idx : UInt16) : Proto :=
  { p with vq := vq, taken := p.taken ++ [idx], held := p.taken.length :: p.held }

/-- The request of a head filled in. -/
def fillReq (s : State) (idx : UInt16) (p : Parsed) : State :=
  { s with
    blk := { s.blk with req := Function.update s.blk.req idx.toNat p.req }
    ioStatus := Function.update s.ioStatus idx.toNat p.status
    handler := .proc idx p.type
    refilled := s.refilled ||
      (waiting s).any fun be => (s.blk.bc.bcReqs be).beReq = some idx.toNat }

/-- The first half of `pci_vtblk_proc`. -/
def procTake (s : State) (m : Memory) : State :=
  let r := vqGetchain m.toGuestMem vtblkArgs s.ring.vq
  match r.pidx, parse m r with
  | some idx, .ok p => fillReq { s with ring := takeChain s.ring r.vq idx } idx p
  | _, .error a => { s with failed := some a }
  | none, .ok _ => { s with failed := some .count }

/-- The switch: a request to the block interface, or completion at once. -/
def procSubmit (s : State) (idx : UInt16) (type : BitVec 32) : State :=
  match opOf type with
  | none => { pciVtblkDoneLocked s idx (immediateErrno type) with handler := .loop }
  | some op =>
    match BlockIf.step s.blk (.request op idx.toNat) with
    | some (.ok, blk) => { s with blk := blk, handler := .loop }
    | _ => { s with failed := some .err }

/-! ## Runs -/

inductive Op
  /-- The guest writes a head to the ring, moves the index, and reads a used entry. -/
  | fill (head : UInt16)
  | advance (n : Nat)
  | reap
  /-- It writes to the notification register. -/
  | notify
  | take (m : Memory)
  | submit
  | leave
  /-- The worker of the block interface: `blockif_dequeue`, the transfer, the callback,
  `blockif_complete`, and a wake-up without a signal. -/
  | dequeue
  | procDone
  | callback (err : Errno)
  | complete
  | wakeup

/-- The device's own steps that bring it forward. -/
def Op.isDevice : Op → Bool
  | .take _ | .submit | .leave | .dequeue | .procDone | .callback _ | .complete => true
  | _ => false

def guestNext (s : State) (e : Virtio.Event) (outstanding : List UInt16) : Option State :=
  (s.ring.next e).map fun ring => { s with ring := ring, outstanding := outstanding }

def next (s : State) (op : Op) : Option State :=
  if s.failed.isSome then none
  else
    match op with
    | .fill head =>
      -- the guest does not use a head again that is outstanding
      if head ∈ s.outstanding then none
      else guestNext s (.fill head) (head :: s.outstanding)
    | .advance n => guestNext s (.advance n) s.outstanding
    | .reap =>
      let used := s.ring.vq.vqUsed.vuRing (s.ring.vq.slot s.ring.seen)
      guestNext s .reap (s.outstanding.erase used.vuIdx.toUInt16)
    | .notify => if s.handler = .idle then some { s with handler := .loop } else none
    | .take m =>
      if s.handler = .loop ∧ vqHasDescs s.ring.vq = true then some (procTake s m) else none
    | .submit =>
      match s.handler with
      | .proc idx type => some (procSubmit s idx type)
      | _ => none
    | .leave =>
      if s.handler = .loop ∧ vqHasDescs s.ring.vq = false then some { s with handler := .idle }
      else none
    | .dequeue => (BlockIf.next s.blk .dequeue).map fun blk => { s with blk := blk }
    | .procDone => (BlockIf.next s.blk .procDone).map fun blk => { s with blk := blk }
    | .callback err =>
      match s.blk.worker with
      | .finish be =>
        if s.called = false ∧ s.handler = .idle then
          match (s.blk.bc.bcReqs be).beReq with
          | some breq =>
            some { pciVtblkDoneLocked s (UInt16.ofNat breq) err with called := true }
          | none => some { s with failed := some .fault }
        else none
      | _ => none
    | .complete =>
      if s.called then
        (BlockIf.next s.blk .complete).map fun blk => { s with blk := blk, called := false }
      else none
    | .wakeup => (BlockIf.next s.blk .wakeup).map fun blk => { s with blk := blk }

/-- The ring has been set up and the backing file opened. -/
structure Initial (s : State) : Prop where
  ring : Virtio.Fresh vtblkRingszLog s.ring
  saveUsed : s.saveUsed = 0
  blk : ∃ btid req, s.blk = BlockIf.blockifOpen btid req
  handler : s.handler = .idle
  called : s.called = false
  outstanding : s.outstanding = []
  refilled : s.refilled = false
  failed : s.failed = none
  completions : s.completions = []

/-- A well-formed request: what the driver put in the chain passes the checks of its form. -/
def WellFormed (s : State) (m : Memory) : Prop :=
  (parse m (vqGetchain m.toGuestMem vtblkArgs s.ring.vq)).toBool = true

instance (s : State) (m : Memory) : Decidable (WellFormed s m) :=
  inferInstanceAs (Decidable (_ = true))

def Allowed (s : State) : Op → Prop
  | .take m => WellFormed s m
  | _ => True

instance (s : State) : (op : Op) → Decidable (Allowed s op)
  | .take m => inferInstanceAs (Decidable (WellFormed s m))
  | .fill _ | .advance _ | .reap | .notify | .submit | .leave | .dequeue | .procDone | .callback _
  | .complete | .wakeup => inferInstanceAs (Decidable True)

/-- Every order of the guest's, the handler's and the worker's steps, without a device reset. -/
def system : System State Op := (System.ofFn Initial next).restrict Allowed

end Xhyve.Emul.VirtioBlock
