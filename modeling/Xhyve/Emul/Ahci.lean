import Mathlib
import Xhyve.Lib.ByteMemory
import Xhyve.Lib.Fallible
import Xhyve.Lib.WordSet

/-!
# The AHCI controller: registers, interrupts and FISes

Six ports, of which only port 0 has a backing device; the other port structures are zeroed and never
initialised further. Everything here runs under `sc->mtx`. A program stops where the process does: at a
failed assertion, or where a null pointer is followed.

The guest's memory is the bytes behind host addresses. What the code does not initialise on its stack and
what `blockif_cancel` answers are part of the state, so that the surroundings can choose them; of the block
interface we keep how many of its elements are in use. The block interface's worker is in the callback of
one request at a time, and lets go of the element after it.
-/

namespace Xhyve.Emul.Ahci

open Xhyve.Lib

abbrev Slot := Fin 32
abbrev PortNo := Fin 6

scoped instance slotsNonempty : NeZero 32 := ⟨by decide⟩

scoped instance portsNonempty : NeZero 6 := ⟨by decide⟩

/-! ## Constants -/

def ataSError : BitVec 32 := 0x01
def ataSDrq : BitVec 32 := 0x08
def ataSDsc : BitVec 32 := 0x10
def ataSDma : BitVec 32 := 0x20
def ataSReady : BitVec 32 := 0x40
def ataSBusy : BitVec 32 := 0x80

def ataEAbort : BitVec 32 := 0x04

def ataSsDetNoDevice : BitVec 32 := 0
def ataSsDetPhyOnline : BitVec 32 := 0x3
def ataSsSpdMask : BitVec 32 := 0xf0
def ataSsSpdGen3 : BitVec 32 := 0x30
def ataSsIpmActive : BitVec 32 := 0x100

def ataScDetReset : BitVec 32 := 0x1
def ataScSpdMask : BitVec 32 := 0xf0

def ahciGhcHr : BitVec 32 := 0x1
def ahciGhcIe : BitVec 32 := 0x2
def ahciGhcAe : BitVec 32 := 0x80000000

def ahciPIxDhr : BitVec 32 := 0x1
def ahciPIxPs : BitVec 32 := 0x2
def ahciPIxSdb : BitVec 32 := 0x8
def ahciPIxTfe : BitVec 32 := 0x40000000

def ahciPCmdSt : BitVec 32 := 0x1
def ahciPCmdSud : BitVec 32 := 0x2
def ahciPCmdPod : BitVec 32 := 0x4
def ahciPCmdClo : BitVec 32 := 0x8
def ahciPCmdFre : BitVec 32 := 0x10
def ahciPCmdCcsMask : BitVec 32 := 0x1f00
def ahciPCmdCcsShift : Nat := 8
def ahciPCmdFr : BitVec 32 := 0x4000
def ahciPCmdCr : BitVec 32 := 0x8000
def ahciPCmdCps : BitVec 32 := 0x10000
def ahciPCmdApste : BitVec 32 := 0x800000
def ahciPCmdAtapi : BitVec 32 := 0x1000000
def ahciPCmdDlae : BitVec 32 := 0x2000000
def ahciPCmdAlpe : BitVec 32 := 0x4000000
def ahciPCmdAsp : BitVec 32 := 0x8000000
def ahciPCmdIccMask : BitVec 32 := 0xf0000000

def ahciClSize : Nat := 32
def pxSigAta : BitVec 32 := 0x00000101
def pxSigAtapi : BitVec 32 := 0xeb140101

def ataUdma6 : UInt8 := 0x46

/-- `blockif_queuesz`, and the elements of the block interface. -/
def ioqsz : Nat := 64
def blockifMaxreq : Nat := 65

/-! ## State -/

/-- `struct ahci_ioreq`, with what the handlers fill in of its `blockif_req`: each vector by its host address,
null where the guest's range is not mapped, and its length. -/
structure Ioreq where
  brOffset : BitVec 64
  brIov : List (Option Nat × Nat)
  brResid : Nat
  cfis : Nat
  len : BitVec 32
  done : BitVec 32
  slot : Slot
  more : Bool

/-- What a port reports of its commands, kept as a history. -/
inductive Report
  /-- `ahci_handle_cmd` begins, with the command byte. -/
  | issue (slot : Slot) (cmd : UInt8)
  /-- The acceptance of a queued command. -/
  | accept (slot : Slot)
  | d2h (slot : Slot) (error : Bool)
  | sdb (slot : Slot) (error : Bool)
  /-- Cancelled by `ahci_port_stop`, which clears the bit in `sact` or in `ci`. -/
  | cancel (slot : Slot) (ncq : Bool)
  /-- `ahci_check_stopped` clears all of `ci` and `sact`. -/
  | stopped
deriving DecidableEq, Repr

/-- `struct ahci_port`. A port that is not backed has null pointers for `bctx` and `pr_sc` and lists that
were never set up. -/
structure Port where
  backed : Bool
  cmdLst : Option Nat
  rfis : Option Nat
  atapi : Bool
  reset : Bool
  waitforclear : Bool
  multSectors : UInt8
  xfermode : UInt8
  errCfis : Nat → UInt8
  senseKey : UInt8
  asc : UInt8
  ccs : Slot
  pending : BitVec 32
  clb : BitVec 32
  clbu : BitVec 32
  fb : BitVec 32
  fbu : BitVec 32
  is : BitVec 32
  ie : BitVec 32
  cmd : BitVec 32
  unused0 : BitVec 32
  tfd : BitVec 32
  sig : BitVec 32
  ssts : BitVec 32
  sctl : BitVec 32
  serr : BitVec 32
  sact : BitVec 32
  ci : BitVec 32
  sntf : BitVec 32
  fbs : BitVec 32
  ioreq : Nat → Ioreq
  iofhd : List Nat
  iobhd : List Nat
  reports : List Report

structure State where
  ghc : BitVec 32
  is : BitVec 32
  lintr : Bool
  port : PortNo → Port
  mem : Mem
  /-- What an uninitialised buffer holds. -/
  stack : Nat → UInt8
  /-- Whether `blockif_cancel` of a request succeeds. -/
  cancels : Nat → Bool
  /-- Elements of the block interface in use. -/
  used : Nat
  /-- The worker of the block interface is at an element whose callback has begun. -/
  finishing : Bool
  /-- The port whose commands `ahci_handle_port` is going through. -/
  handling : Option PortNo
  /-- The calls of `pci_lintr_assert` and `pci_lintr_deassert`. -/
  pins : List Bool
  /-- The ports found with an enabled interrupt since the operation began. -/
  asked : BitVec 32
  /-- A port that was never initialised has had its lists or its controller looked at. -/
  misused : Bool

/-- The disk, the guest's memory map and whether the guest has enabled MSI. -/
structure Host where
  paddrGuest2host : Nat → Nat → Option Nat
  sectsz : Nat
  size : Nat
  chs : UInt16 × UInt8 × UInt8
  psectsz : Nat
  psectoff : Nat
  ro : Bool
  candelete : Bool
  ident : List UInt8
  msi : Bool

/-- Why the process stops. -/
inductive Stop
  /-- An address of the guest's that is not mapped is used. -/
  | null
  /-- `assert(aior != NULL)`. -/
  | noRequest
  /-- `assert(err == 0)`. -/
  | blockErr
  /-- `assert(todo > 0)`. -/
  | noData
  /-- The assertions of `pci_ahci_read` and `pci_ahci_write`. -/
  | access
  /-- A null `bctx` or `pr_sc`. -/
  | uninit
  /-- A read beyond the end of a buffer. -/
  | overread
deriving DecidableEq, Repr

abbrev AhciM := EStateM Stop State

def getPort (p : PortNo) : AhciM Port := do
  let s ← get
  pure (s.port p)

def State.setPort (s : State) (p : PortNo) (pr : Port) : State :=
  { s with port := Function.update s.port p pr }

def modifyPort (p : PortNo) (f : Port → Port) : AhciM Unit :=
  modify fun s => s.setPort p (f (s.port p))

def getMem : AhciM Mem := do
  let s ← get
  pure s.mem

/-- `memcpy` to host memory, of bytes of a buffer. -/
def Mem.copy (m : Mem) (dest : Nat) (buf : Nat → UInt8) (start n : Nat) : Mem := fun x =>
  if dest ≤ x ∧ x < dest + n then buf (start + (x - dest)) else m x

def modifyMem (f : Mem → Mem) : AhciM Unit := modify fun s => { s with mem := f s.mem }

def report (p : PortNo) (r : Report) : AhciM Unit :=
  modifyPort p fun pr => { pr with reports := pr.reports ++ [r] }

/-- A function of the block interface that is given `p->bctx`. -/
def withBctx (p : PortNo) : AhciM Unit := do
  let pr ← getPort p
  if pr.backed then pure () else throw .uninit

/-! ## Interrupts -/

/-- The ports with an interrupt that is set and enabled. -/
def portsAsking (s : State) : BitVec 32 :=
  (List.finRange 6).foldl (fun m i =>
    if (s.port i).is &&& (s.port i).ie ≠ 0 then WordSet.set i.val m else m) 0

/-- The interrupts of the ports gathered in the global register. -/
def State.gather (s : State) : State :=
  { s with is := s.is ||| portsAsking s, asked := s.asked ||| portsAsking s }

/-- The controller asks for an interrupt. -/
def State.enabled (s : State) : Bool := s.is ≠ 0 ∧ s.ghc &&& ahciGhcIe ≠ 0

/-- The pin brought in line with that, where it is used. -/
def State.setLine (s : State) (h : Host) : State :=
  if s.enabled then
    if h.msi || s.lintr then s else { s with lintr := true, pins := s.pins ++ [true] }
  else if s.lintr then { s with lintr := false, pins := s.pins ++ [false] }
  else s

def State.evalIntr (s : State) (h : Host) : State := s.gather.setLine h

def ahciGenerateIntr (h : Host) : AhciM Unit := modify fun s => s.evalIntr h

/-! ## FISes -/

inductive FisType
  | regh2d | regd2h | dmaact | dmasetup | data | bist | piosetup | setdevbits
deriving DecidableEq, Repr

def FisType.value : FisType → UInt8
  | .regh2d => 0x27
  | .regd2h => 0x34
  | .dmaact => 0x39
  | .dmasetup => 0x41
  | .data => 0x46
  | .bist => 0x58
  | .piosetup => 0x5F
  | .setdevbits => 0xA1

/-- Where a FIS goes in the receive area, its length and its interrupt; `none` is not supported. -/
def fisPlace : FisType → Option (Nat × Nat × BitVec 32)
  | .regd2h => some (0x40, 20, ahciPIxDhr)
  | .setdevbits => some (0x58, 8, ahciPIxSdb)
  | .piosetup => some (0x20, 20, ahciPIxPs)
  | .regh2d | .dmaact | .dmasetup | .data | .bist => none

/-- The receive area FISes are written to. -/
def Port.fisArea (pr : Port) : Option Nat := if pr.cmd &&& ahciPCmdFre = 0 then none else pr.rfis

/-- The status a FIS carries has the error bit set. -/
def fisError (fis : Nat → UInt8) : Bool := fis 2 &&& 0x01 ≠ 0

/-- The interrupts of a FIS. -/
def fisIrq (ix : BitVec 32) (fis : Nat → UInt8) : BitVec 32 :=
  (if fis 1 &&& 0x40 ≠ 0 then ix else 0) ||| (if fisError fis then ahciPIxTfe else 0)

/-- The port and the memory with a FIS written. -/
def State.putFis (s : State) (p : PortNo) (area len : Nat) (fis : Nat → UInt8) (irq : BitVec 32) : State :=
  { s.setPort p { s.port p with
      waitforclear := (s.port p).waitforclear || fisError fis
      is := (s.port p).is ||| irq } with
    mem := Mem.copy s.mem area fis 0 len }

def ahciWriteFis (h : Host) (p : PortNo) (ft : FisType) (fis : Nat → UInt8) : AhciM Unit := do
  let s ← get
  match (s.port p).fisArea, fisPlace ft with
  | some rfis, some (offset, len, ix) =>
    modify fun s => s.putFis p (rfis + offset) len fis (fisIrq ix fis)
    if fisIrq ix fis = 0 then pure ()
    else if (s.port p).backed then ahciGenerateIntr h
    else throw .uninit
  | _, _ => pure ()

/-- A FIS whose bytes are given from the front. -/
def fisOf (bytes : List UInt8) (i : Nat) : UInt8 := bytes.getD i 0

def ahciWriteFisPiosetup (h : Host) (p : PortNo) : AhciM Unit :=
  ahciWriteFis h p .piosetup (fisOf [FisType.piosetup.value])

/-- A byte of a register. -/
def byteOf (x : BitVec 32) (k : Nat) : UInt8 := ⟨(x >>> (8 * k)).setWidth 8⟩

/-- The error that `ahci_handle_read_log` gives out later. -/
def errCfisOf (old : Nat → UInt8) (tag status error : UInt8) (c : Nat → UInt8) : Nat → UInt8 := fun i =>
  if i = 0 then tag
  else if i = 2 then status
  else if i = 3 then error
  else if 4 ≤ i ∧ i < 20 then c i
  else old i

/-- Bytes behind a host address. -/
def bytesAt (m : Mem) (a : Nat) : Nat → UInt8 := fun i => m (a + i)

def sdbFis (slot : Slot) (tfd : BitVec 32) (error : UInt8) : Nat → UInt8 := fun i =>
  if i < 4 then fisOf [FisType.setdevbits.value, 0x40, byteOf tfd 0, error] i
  else if tfd &&& ataSError ≠ 0 ∨ 8 ≤ i then 0
  else byteOf (WordSet.bit 32 slot.val) (i - 4)

/-- The port with the result of a queued command. -/
def Port.queuedDone (pr : Port) (slot : Slot) (c : Nat → UInt8) (tfd : BitVec 32) (error : UInt8) : Port :=
  let failed : Bool := tfd &&& ataSError ≠ 0
  { pr with
    errCfis := if failed then errCfisOf pr.errCfis (UInt8.ofNat slot.val) (byteOf tfd 0) error c else pr.errCfis
    sact := if failed then pr.sact else WordSet.clr slot.val pr.sact
    tfd := pr.tfd &&& ~~~(0x77 : BitVec 32) ||| tfd
    reports := pr.reports ++ [.sdb slot failed] }

def ahciWriteFisSdb (h : Host) (p : PortNo) (slot : Slot) (cfis : Nat) (tfd : BitVec 32) : AhciM Unit := do
  let error := byteOf tfd 1
  let tfd := tfd &&& 0x77
  let m ← getMem
  modifyPort p fun pr => pr.queuedDone slot (bytesAt m cfis) tfd error
  ahciWriteFis h p .setdevbits (sdbFis slot tfd error)

def d2hFis (c : Nat → UInt8) (tfd : BitVec 32) : Nat → UInt8 := fun i =>
  if i < 4 then fisOf [FisType.regd2h.value, 0x40, byteOf tfd 0, byteOf tfd 1] i
  else if i < 14 then c i
  else 0

/-- The port with the result of a command. -/
def Port.answered (pr : Port) (slot : Slot) (c : Nat → UInt8) (tfd : BitVec 32) : Port :=
  let failed : Bool := tfd &&& ataSError ≠ 0
  { pr with
    errCfis := if failed then errCfisOf pr.errCfis 0x80 (byteOf tfd 0) (byteOf tfd 1) c else pr.errCfis
    ci := if failed then pr.ci else WordSet.clr slot.val pr.ci
    tfd := tfd
    reports := pr.reports ++ [.d2h slot failed] }

def ahciWriteFisD2h (h : Host) (p : PortNo) (slot : Slot) (cfis : Nat) (tfd : BitVec 32) : AhciM Unit := do
  let m ← getMem
  modifyPort p fun pr => pr.answered slot (bytesAt m cfis) tfd
  ahciWriteFis h p .regd2h (d2hFis (bytesAt m cfis) tfd)

/-- The port with a queued command accepted. -/
def Port.accepted (pr : Port) (slot : Slot) : Port :=
  { pr with
    tfd := ataSReady ||| ataSDsc
    ci := WordSet.clr slot.val pr.ci
    reports := pr.reports ++ [.accept slot] }

def ahciWriteFisD2hNcq (h : Host) (p : PortNo) (slot : Slot) : AhciM Unit := do
  modifyPort p fun pr => pr.accepted slot
  ahciWriteFis h p .regd2h (fisOf [FisType.regd2h.value, 0, byteOf (ataSReady ||| ataSDsc) 0, 0])

def ahciWriteResetFisD2h (h : Host) (p : PortNo) : AhciM Unit := do
  let pr ← getPort p
  ahciWriteFis h p .regd2h
    (fisOf ([FisType.regd2h.value, 0, 0, 1, 1] ++ (if pr.atapi then [0x14, 0xeb] else [0, 0]) ++
      [0, 0, 0, 0, 0, 1]))

/-! ## Stopping and resetting -/

/-- The port with nothing issued and nothing active. -/
def Port.cleared (pr : Port) : Port :=
  { pr with
    ccs := 0
    cmd := pr.cmd &&& ~~~(ahciPCmdCr ||| ahciPCmdCcsMask)
    ci := 0
    sact := 0
    waitforclear := false
    reports := pr.reports ++ [.stopped] }

def ahciCheckStopped (p : PortNo) : AhciM Unit :=
  modifyPort p fun pr => if pr.cmd &&& ahciPCmdSt = 0 ∧ pr.pending = 0 then pr.cleared else pr

def ataReadFpdmaQueued : UInt8 := 0x60
def ataWriteFpdmaQueued : UInt8 := 0x61
def ataSendFpdmaQueued : UInt8 := 0x64

def isNcq (cmd : UInt8) : Bool :=
  cmd = ataWriteFpdmaQueued ∨ cmd = ataReadFpdmaQueued ∨ cmd = ataSendFpdmaQueued

/-- A request is taken off the busy list and put at the end of the free one. -/
def freeRequest (p : PortNo) (r : Nat) : AhciM Unit :=
  modifyPort p fun pr => { pr with iobhd := pr.iobhd.erase r, iofhd := pr.iofhd ++ [r] }

/-- The port with the command of a request cancelled. -/
def Port.cancelled (pr : Port) (r : Nat) (ncq : Bool) : Port :=
  let slot := (pr.ioreq r).slot
  { pr with
    sact := if ncq then WordSet.clr slot.val pr.sact else pr.sact
    ci := if ncq then pr.ci else WordSet.clr slot.val pr.ci
    pending := WordSet.clr slot.val pr.pending
    iobhd := pr.iobhd.erase r
    iofhd := pr.iofhd ++ [r]
    reports := pr.reports ++ [.cancel slot ncq] }

/-- The loop of `ahci_port_stop`. What it finds out about one request stays for those that follow. -/
def cancelRequests (p : PortNo) : List Nat → Bool → State → State
  | [], _, s => s
  | r :: rs, ncq, s =>
    if s.cancels r then
      let ncq := ncq || isNcq (s.mem (((s.port p).ioreq r).cfis + 2))
      -- the element of the block interface is free again
      cancelRequests p rs ncq { s.setPort p ((s.port p).cancelled r ncq) with used := s.used - 1 }
    else cancelRequests p rs ncq s

def ahciPortStop (p : PortNo) : AhciM Unit := do
  modify fun s => { s with misused := s.misused || !(s.port p).backed }
  modify fun s => cancelRequests p (s.port p).iobhd false s
  ahciCheckStopped p

/-- The registers of a port after a reset. -/
def Port.afterReset (pr : Port) : Port :=
  let pr := { pr with serr := 0, sact := 0, xfermode := ataUdma6, multSectors := 128 }
  if pr.backed then
    let speed := pr.sctl &&& ataScSpdMask
    let tfd := 0x100 ||| ataSDsc ||| ataSDma
    { pr with
      ssts := ataSsDetPhyOnline ||| ataSsIpmActive ||| (if speed ≠ 0 then speed else ataSsSpdGen3)
      tfd := if pr.atapi then tfd else tfd ||| ataSReady
      sig := if pr.atapi then pxSigAtapi else pxSigAta }
  else { pr with ssts := ataSsDetNoDevice, sig := 0xFFFFFFFF, tfd := 0x7F }

def ahciPortReset (h : Host) (p : PortNo) : AhciM Unit := do
  modifyPort p Port.afterReset
  let pr ← getPort p
  if pr.backed then ahciWriteResetFisD2h h p else pure ()

/-- What `ahci_reset` sets of a port before it resets it. -/
def Port.quiesced (pr : Port) : Port :=
  { pr with
    ie := 0
    is := 0
    cmd := ahciPCmdSud ||| ahciPCmdPod ||| (if pr.backed then ahciPCmdCps else 0)
    sctl := 0 }

def ahciReset (h : Host) : AhciM Unit := do
  modify fun s => { s with
    ghc := ahciGhcAe
    is := 0
    lintr := false
    pins := if s.lintr then s.pins ++ [false] else s.pins }
  (List.finRange 6).forM fun i => do
    modifyPort i Port.quiesced
    ahciPortReset h i

end Xhyve.Emul.Ahci
