import Xhyve.Emul.AhciCommands
import Xhyve.Lib.Transition

/-!
# The AHCI controller: ports and registers

The turns of the loop of `ahci_handle_port`, the callbacks of the block interface and the accesses to the
registers, as the steps of one system. The lock is held from a step that begins the loop to the turn that
ends it. Between any two steps the guest may write anything to its memory.
-/

namespace Xhyve.Emul.Ahci

open Xhyve.Lib

/-! ## The loop of `ahci_handle_port` -/

/-- The commands that are issued and not in flight. -/
def Port.fresh (pr : Port) : BitVec 32 := pr.ci &&& ~~~pr.pending

/-- The loop ends: nothing is left to issue, or the device is busy or in error. -/
def Port.idle (pr : Port) : Bool :=
  pr.fresh = 0 ∨ pr.tfd &&& (ataSBusy ||| ataSDrq) ≠ 0 ∨ pr.waitforclear

/-- The slot the loop is at is to be handled. -/
def Port.due (pr : Port) : Bool := pr.fresh.getLsbD pr.ccs.val

/-- The current slot in the command register. -/
def Port.withCcs (pr : Port) : Port :=
  { pr with cmd := pr.cmd &&& ~~~ahciPCmdCcsMask ||| BitVec.ofNat 32 pr.ccs.val <<< ahciPCmdCcsShift }

def handlePortTurn (h : Host) (p : PortNo) : AhciM Unit := do
  let pr ← getPort p
  if pr.idle then modify fun s => { s with handling := none }
  else
    if pr.due then
      modifyPort p Port.withCcs
      ahciHandleSlot h p pr.ccs
    else pure ()
    modifyPort p fun pr => { pr with ccs := pr.ccs + 1 }

/-! ## Callbacks -/

/-- The request a callback is for goes back to the free list. -/
def beginCallback (p : PortNo) (r : Nat) : AhciM Ioreq := do
  let pr ← getPort p
  modify fun s => { s with finishing := true }
  freeRequest p r
  pure (pr.ioreq r)

/-- The number of bytes transferred, where there was no error. -/
def notePrdbc (p : PortNo) (aior : Ioreq) (err : Bool) : AhciM Unit :=
  if err then pure ()
  else do
    let hdr ← cmdHdr p aior.slot
    setPrdbc hdr aior.done.toNat

/-- The command is complete. -/
def endCommand (p : PortNo) (slot : Slot) : AhciM Unit := do
  modifyPort p fun pr => { pr with pending := WordSet.clr slot.val pr.pending }
  ahciCheckStopped p
  ahciHandlePort p

/-- Whether the command of a request is a TRIM. -/
def isDsm (c : Nat → UInt8) : Bool :=
  c 2 = ataDataSetManagement ∨ c 2 = ataSendFpdmaQueued ∧ c 13 &&& 0x1f = ataSfpdmaDsm

def ataIoreqCb (h : Host) (p : PortNo) (r : Nat) (err : Bool) : AhciM Unit := do
  let m ← getMem
  let aior ← beginCallback p r
  let c := bytesAt m aior.cfis
  notePrdbc p aior err
  if !err && aior.more then
    if isDsm c then ahciHandleDsmTrim h p aior.slot aior.cfis aior.done
    else ahciHandleRw h p aior.slot aior.cfis aior.done
  else
    let tfd := if err then abortTfd else okTfd
    if isNcq (c 2) then ahciWriteFisSdb h p aior.slot aior.cfis tfd
    else ahciWriteFisD2h h p aior.slot aior.cfis tfd
    endCommand p aior.slot

def atapiIoreqCb (h : Host) (p : PortNo) (r : Nat) (err : Bool) : AhciM Unit := do
  let aior ← beginCallback p r
  notePrdbc p aior err
  if !err && aior.more then atapiRead h p aior.slot aior.cfis aior.done
  else
    if err then
      modifyPort p fun pr => { pr with senseKey := ataSenseIllegalRequest, asc := 0x21 }
    else pure ()
    setIreason aior.cfis
    ahciWriteFisD2h h p aior.slot aior.cfis (if err then senseTfd ataSenseIllegalRequest else okTfd)
    endCommand p aior.slot

def ioreqCb (h : Host) (p : PortNo) (r : Nat) (err : Bool) : AhciM Unit := do
  let pr ← getPort p
  if pr.atapi then atapiIoreqCb h p r err else ataIoreqCb h p r err

/-! ## Registers -/

inductive PortReg
  | clb | clbu | fb | fbu | is | ie | cmd | unused0 | tfd | sig | ssts | sctl | serr | sact | ci | sntf | fbs
deriving DecidableEq, Repr

/-- The registers of a port, one after the other. -/
def portRegs : List PortReg :=
  [.clb, .clbu, .fb, .fbu, .is, .ie, .cmd, .unused0, .tfd, .sig, .ssts, .sctl, .serr, .sact, .ci, .sntf, .fbs]

def portRegAt (offset : Nat) : Option PortReg := if offset % 4 = 0 then portRegs[offset / 4]? else none

def Port.reg (pr : Port) : PortReg → BitVec 32
  | .clb => pr.clb
  | .clbu => pr.clbu
  | .fb => pr.fb
  | .fbu => pr.fbu
  | .is => pr.is
  | .ie => pr.ie
  | .cmd => pr.cmd
  | .unused0 => 0
  | .tfd => pr.tfd
  | .sig => pr.sig
  | .ssts => pr.ssts
  | .sctl => pr.sctl
  | .serr => pr.serr
  | .sact => pr.sact
  | .ci => pr.ci
  | .sntf => pr.sntf
  | .fbs => pr.fbs

/-- The bits of `PxCMD` the guest writes. -/
def cmdWritable : BitVec 32 :=
  ahciPCmdSt ||| ahciPCmdSud ||| ahciPCmdPod ||| ahciPCmdClo ||| ahciPCmdFre ||| ahciPCmdApste |||
    ahciPCmdAtapi ||| ahciPCmdDlae ||| ahciPCmdAlpe ||| ahciPCmdAsp ||| ahciPCmdIccMask

/-- Starting or stopping the command list. -/
def cmdStart (h : Host) (p : PortNo) (value : BitVec 32) : AhciM Unit :=
  if value &&& ahciPCmdSt = 0 then ahciPortStop p
  else modifyPort p fun pr => { pr with
    cmd := pr.cmd ||| ahciPCmdCr
    cmdLst := h.paddrGuest2host (pr.clbu.toNat <<< 32 ||| pr.clb.toNat) (ahciClSize * 32) }

/-- The receive area for FISes. -/
def cmdFre (h : Host) (p : PortNo) (value : BitVec 32) : AhciM Unit :=
  modifyPort p fun pr =>
    if value &&& ahciPCmdFre ≠ 0 then
      { pr with
        cmd := pr.cmd ||| ahciPCmdFr
        rfis := h.paddrGuest2host (pr.fbu.toNat <<< 32 ||| pr.fb.toNat) 256 }
    else { pr with cmd := pr.cmd &&& ~~~ahciPCmdFr }

/-- Command list override, and the interface state, which is taken at once. -/
def cmdClo (p : PortNo) (value : BitVec 32) : AhciM Unit := do
  if value &&& ahciPCmdClo ≠ 0 then
    modifyPort p fun pr => { pr with
      tfd := pr.tfd &&& ~~~(ataSBusy ||| ataSDrq)
      cmd := pr.cmd &&& ~~~ahciPCmdClo }
  else pure ()
  if value &&& ahciPCmdIccMask ≠ 0 then
    modifyPort p fun pr => { pr with cmd := pr.cmd &&& ~~~ahciPCmdIccMask }
  else pure ()

def writeCmd (h : Host) (p : PortNo) (value : BitVec 32) : AhciM Unit := do
  modifyPort p fun pr => { pr with cmd := pr.cmd &&& ~~~cmdWritable ||| cmdWritable &&& value }
  cmdStart h p value
  cmdFre h p value
  cmdClo p value
  ahciHandlePort p

def pciAhciPortWrite (h : Host) (p : PortNo) (reg : Option PortReg) (value : BitVec 32) : AhciM Unit :=
  match reg with
  | some .clb => modifyPort p fun pr => { pr with clb := value }
  | some .clbu => modifyPort p fun pr => { pr with clbu := value }
  | some .fb => modifyPort p fun pr => { pr with fb := value }
  | some .fbu => modifyPort p fun pr => { pr with fbu := value }
  | some .is => modifyPort p fun pr => { pr with is := pr.is &&& ~~~value }
  | some .ie => do
    modifyPort p fun pr => { pr with ie := value &&& 0xFDC000FF }
    ahciGenerateIntr h
  | some .cmd => writeCmd h p value
  | some .sctl => do
    modifyPort p fun pr => { pr with sctl := value }
    let pr ← getPort p
    if pr.cmd &&& ahciPCmdSt = 0 ∧ value &&& ataScDetReset ≠ 0 then ahciPortReset h p else pure ()
  | some .serr => modifyPort p fun pr => { pr with serr := pr.serr &&& ~~~value }
  | some .sact => modifyPort p fun pr => { pr with sact := pr.sact ||| value }
  | some .ci => do
    modifyPort p fun pr => { pr with ci := pr.ci ||| value }
    ahciHandlePort p
  | some .tfd | some .sig | some .ssts | some .sntf | some .fbs | some .unused0 | none => pure ()

def ahciGhc : Nat := 0x04
def ahciIs : Nat := 0x08
def ahciOffset : Nat := 0x100
def ahciStep : Nat := 0x80

def pciAhciHostWrite (h : Host) (offset : Nat) (value : BitVec 32) : AhciM Unit :=
  if offset = ahciGhc then
    if value &&& ahciGhcHr ≠ 0 then ahciReset h
    else if value &&& ahciGhcIe ≠ 0 then do
      modify fun s => { s with ghc := s.ghc ||| ahciGhcIe }
      ahciGenerateIntr h
    else pure ()
  else if offset = ahciIs then do
    modify fun s => { s with is := s.is &&& ~~~value }
    ahciGenerateIntr h
  else pure ()

/-- The port an offset behind `AHCI_OFFSET` belongs to. -/
def portOf (offset : Nat) : Option PortNo :=
  if hp : (offset - ahciOffset) / ahciStep < 6 then some ⟨_, hp⟩ else none

/-- `pci_ahci_write`, of the one memory BAR there is. -/
def pciAhciWrite (h : Host) (offset size : Nat) (value : BitVec 32) : AhciM Unit :=
  if offset % 4 = 0 ∧ size = 4 then
    if offset < ahciOffset then pciAhciHostWrite h offset value
    else
      match portOf offset with
      | some p => pciAhciPortWrite h p (portRegAt ((offset - ahciOffset) % ahciStep)) value
      | none => pure ()
  else throw .access

def ahciCap : BitVec 32 :=
  0x80000000 ||| 0x40000000 ||| 0x20000000 ||| 0x10000000 ||| 0x08000000 ||| 0x04000000 ||| 0x02000000 |||
    0x01000000 ||| 0x3 <<< 20 ||| 0x00008000 ||| 0x00004000 ||| 0x00002000 ||| 31 <<< 8 ||| 0x00000020 ||| 5

def pciAhciHostRead (s : State) (offset : Nat) : BitVec 32 :=
  if offset = 0x00 then ahciCap
  else if offset = ahciGhc then s.ghc
  else if offset = ahciIs then s.is
  else if offset = 0x0c then 1
  else if offset = 0x10 then 0x10300
  else if offset = 0x24 then 0x00000004
  else 0

def pciAhciPortRead (s : State) (p : PortNo) (offset : Nat) : BitVec 32 :=
  match portRegAt offset with
  | some .unused0 | none => 0
  | some reg => (s.port p).reg reg

def pciAhciRead (regoff size : Nat) : AhciM (BitVec 32) := do
  if (size = 1 ∨ size = 2 ∨ size = 4) ∧ regoff % size = 0 then
    let s ← get
    let offset := regoff / 4 * 4
    let value :=
      if offset < ahciOffset then pciAhciHostRead s offset
      else
        match portOf offset with
        | some p => pciAhciPortRead s p ((offset - ahciOffset) % ahciStep)
        | none => 0
    pure (value >>> (8 * (regoff % 4)))
  else throw .access

/-! ## The controller -/

/-- A port as `calloc` leaves it. -/
def zeroPort : Port where
  backed := false
  cmdLst := none
  rfis := none
  atapi := false
  reset := false
  waitforclear := false
  multSectors := 0
  xfermode := 0
  errCfis := zeros
  senseKey := 0
  asc := 0
  ccs := 0
  pending := 0
  clb := 0
  clbu := 0
  fb := 0
  fbu := 0
  is := 0
  ie := 0
  cmd := 0
  unused0 := 0
  tfd := 0
  sig := 0
  ssts := 0
  sctl := 0
  serr := 0
  sact := 0
  ci := 0
  sntf := 0
  fbs := 0
  ioreq := fun _ => ⟨0, [], 0, 0, 0, 0, 0, false⟩
  iofhd := []
  iobhd := []
  reports := []

/-- `pci_ahci_ioreq_init` and what `pci_ahci_init` sets of port 0. -/
def backedPort (atapi : Bool) : Port :=
  { zeroPort with backed := true, atapi := atapi, iofhd := List.range ioqsz }

/-- `pci_ahci_init` before it resets the controller. -/
def zeroState (atapi : Bool) (mem : Mem) : State where
  ghc := 0
  is := 0
  lintr := false
  port := Function.update (fun _ => zeroPort) 0 (backedPort atapi)
  mem := mem
  stack := zeros
  cancels := fun _ => false
  used := 0
  finishing := false
  handling := none
  pins := []
  asked := 0
  misused := false

inductive Op
  /-- The surroundings: the guest writes to its memory, and chooses nothing else; what is on the stack and how
  cancellations end is not in the code's hands. -/
  | surroundings (mem : Mem) (stack : Nat → UInt8) (cancels : Nat → Bool)
  | write (offset size : Nat) (value : BitVec 32)
  | read (offset size : Nat)
  /-- One turn of the loop of `ahci_handle_port`. -/
  | turn
  /-- The block interface's worker runs the callback of a request, and lets go of its element. -/
  | callback (p : PortNo) (r : Nat) (err : Bool)
  | release

/-- Who needs the lock has to get it, and the worker has one element at a time. -/
def admissible (s : State) : Op → Bool
  | .surroundings .. => true
  | .write .. | .read .. => s.handling = none
  | .turn => s.handling.isSome
  | .callback p r _ => s.handling = none ∧ s.finishing = false ∧ r ∈ (s.port p).iobhd
  | .release => s.finishing

/-- An operation begins, and no interrupt has been looked for in it. -/
def beginOp : AhciM Unit := modify fun s => { s with asked := 0 }

def perform (h : Host) : Op → AhciM Unit
  | .surroundings mem stack cancels =>
    modify fun s => { s with mem := mem, stack := stack, cancels := cancels }
  | .write offset size value => do
    beginOp
    pciAhciWrite h offset size value
  | .read offset size => do
    let _ ← pciAhciRead offset size
  | .turn => do
    let s ← get
    match s.handling with
    | some p => handlePortTurn h p
    | none => pure ()
  | .callback p r err => do
    beginOp
    ioreqCb h p r err
  | .release => modify fun s => { s with used := s.used - 1, finishing := false }

/-- A step that does not stop the process. -/
def next (h : Host) (s : State) (op : Op) : Option State :=
  if admissible s op then
    match perform h op s with
    | .ok _ t => some t
    | .error _ _ => none
  else none

def system (h : Host) : System State Op :=
  System.ofFn (fun s => ∃ atapi mem u, ahciReset h (zeroState atapi mem) = .ok u s) (next h)

end Xhyve.Emul.Ahci
