import Mathlib
import Xhyve.Emul.PciIrq
import Xhyve.Lib.BinarySearch
import Xhyve.Lib.Transition
import Xhyve.Virtio.GuestRam

/-!
# The registers of a virtio device

The guest reaches the registers all virtio devices share through the first BAR of the device; what lies behind them is
the driver's. Two of the registers are there only with MSI-X enabled, and where the driver refuses
an access it falls back to the registers. Without MSI-X an interrupt sets a bit of the ISR register and
asserts the line of the function, until the guest reads the register or resets the device.

The device is a parameter: its constants and its callbacks. Each access, each interrupt and each reset runs under
the lock of the device.
-/

namespace Xhyve.Virtio.Registers

open Xhyve.Lib
open Xhyve.Emul.PciIrq (LintrStat)

/-- One of the registers in the BAR. -/
structure ConfigReg where
  crOffset : Nat
  crSize : Nat
  crRo : Bool
  crName : String
deriving DecidableEq, Repr

def vtcfgRHostcap : Nat := 0
def vtcfgRGuestcap : Nat := 4
def vtcfgRPfn : Nat := 8
def vtcfgRQnum : Nat := 12
def vtcfgRQsel : Nat := 14
def vtcfgRQnotify : Nat := 16
def vtcfgRStatus : Nat := 18
def vtcfgRIsr : Nat := 19
def vtcfgRCfgvec : Nat := 20
def vtcfgRQvec : Nat := 22
/-- Without MSI-X. -/
def vtcfgRCfg0 : Nat := 20
def vtcfgRCfg1 : Nat := 24

def vtcfgIsrQueues : BitVec 8 := 0x01
def virtioMsiNoVector : BitVec 16 := 0xffff
def vqAlloc : BitVec 16 := 0x01

def configRegs : List ConfigReg :=
  [⟨vtcfgRHostcap, 4, true, "HOSTCAP"⟩, ⟨vtcfgRGuestcap, 4, false, "GUESTCAP"⟩, ⟨vtcfgRPfn, 4, false, "PFN"⟩,
   ⟨vtcfgRQnum, 2, true, "QNUM"⟩, ⟨vtcfgRQsel, 2, false, "QSEL"⟩, ⟨vtcfgRQnotify, 2, false, "QNOTIFY"⟩,
   ⟨vtcfgRStatus, 1, false, "STATUS"⟩, ⟨vtcfgRIsr, 1, false, "ISR"⟩, ⟨vtcfgRCfgvec, 2, false, "CFGVEC"⟩,
   ⟨vtcfgRQvec, 2, false, "QVEC"⟩]

def viFindCr (offset : Int) : BinarySearch.Result ConfigReg :=
  BinarySearch.search 32 configRegs (fun cr => (cr.crOffset : Int)) offset (configRegs.length + 1) 0 (configRegs.length - 1)

/-! ## The device -/

/-- `struct vqueue_info`. -/
structure Vqueue where
  vqQsize : UInt16
  vqFlags : BitVec 16
  vqLastAvail : BitVec 16
  vqSaveUsed : BitVec 16
  vqMsixIdx : BitVec 16
  vqPfn : BitVec 32
  rings : Rings
deriving DecidableEq

/-- The function the device is, as far as its interrupts go. -/
structure Devinst where
  msiEnabled : Bool
  msixEnabled : Bool
  intxDisabled : Bool
  lintr : LintrStat
deriving DecidableEq, Repr

structure VirtioSoftc (δ : Type) where
  vsNegotiatedCaps : BitVec 32
  /-- Of `vc_nvq` queues. -/
  vsQueues : Nat → Vqueue
  vsCurq : Int
  vsStatus : BitVec 8
  vsIsr : BitVec 8
  vsMsixCfgIdx : BitVec 16
  pi : Devinst
  dev : δ

/-- What a callback of the driver comes to. -/
inductive Answer (α : Type)
  | done (value : α)
  | error
  /-- An assertion of the driver fails. -/
  | aborts

/-- `struct virtio_consts`; a missing callback is `none`. A driver's reset does something to the device, and calls
`vi_reset_dev`. What a notification does to the rings is left to `process` below. -/
structure VirtioConsts (δ : Type) where
  vcName : String
  vcNvq : Nat
  vcCfgsize : Nat
  vcReset : δ → δ
  vcQnotify : Option (δ → Nat → δ)
  vcCfgread : Option (δ → Nat → Nat → BitVec 32 → Answer (BitVec 32))
  vcCfgwrite : Option (δ → Nat → Nat → BitVec 32 → Answer δ)
  vcApplyFeatures : Option (δ → BitVec 64 → δ)
  vcHvCaps : BitVec 64

/-- How an access ends the program. -/
inductive Stop
  | nullCall
  | aborts
  /-- `vi_find_cr` leaves its table. -/
  | outsideTable
  | outsideQueues
deriving DecidableEq, Repr

inductive Diag
  | readBadSize (reg : String) (size : Nat)
  | readBadOffset (offset size : Nat)
  | writeBadSize (reg : String) (size : Nat)
  | writeReadOnly (reg : String)
  | writeBadOffset (offset size : Nat)
  | notifyOutOfRange (queue : Int)
  | missingNotify (queue : Int)
  | badQindex (reg : String) (curq : Int) (nvq : Nat)
deriving DecidableEq, Repr

def Diag.text (name : String) : Diag → String
  | .readBadSize reg size => s!"{name}: read from {reg}: bad size {size}\r\n"
  | .readBadOffset offset size => s!"{name}: read from bad offset/size {offset}/{size}\r\n"
  | .writeBadSize reg size => s!"{name}: write to {reg}: bad size {size}\r\n"
  | .writeReadOnly reg => s!"{name}: write to read-only reg {reg}\r\n"
  | .writeBadOffset offset size => s!"{name}: write to bad offset/size {offset}/{size}\r\n"
  | .notifyOutOfRange queue => s!"{name}: queue {queue} notify out of range\r\n"
  | .missingNotify queue => s!"{name}: qnotify queue {queue}: missing vq/vc notify\r\n"
  | .badQindex reg curq nvq => s!"{name}: write config reg {reg}: curq {curq} >= max {nvq}\r\n"

/-- Calls the driver where an access is for it. The rest, from the label `bad` on, is for the others, and for those the
driver refuses. -/
def viaDriver {α β : Type} (newoff : Option Nat) (callback : Option (Nat → Answer α)) (done : α → β)
    (bad : Except Stop β) : Except Stop β :=
  match newoff with
  | none => bad
  | some newoff =>
    match callback with
    | none => .error .nullCall
    | some call =>
      match call newoff with
      | .done value => .ok (done value)
      | .error => bad
      | .aborts => .error .aborts

/-! ## The line -/

/-- `pci_lintr_permitted`. -/
def Devinst.permitted (pi : Devinst) : Bool := !(pi.msiEnabled || pi.msixEnabled || pi.intxDisabled)

def pciLintrAssert (pi : Devinst) : Devinst :=
  if pi.lintr = .idle then { pi with lintr := if pi.permitted then .asserted else .pending } else pi

def pciLintrDeassert (pi : Devinst) : Devinst := { pi with lintr := .idle }

def pciLintrUpdate (pi : Devinst) : Devinst :=
  match pi.lintr, pi.permitted with
  | .asserted, false => { pi with lintr := .pending }
  | .pending, true => { pi with lintr := .asserted }
  | _, _ => pi

section Device
variable {δ : Type} (vc : VirtioConsts δ) (ram : GuestRam)

/-- `vs_queues[vs_curq]`. -/
def curQueue (vs : VirtioSoftc δ) : Except Stop Nat := if 0 ≤ vs.vsCurq then .ok vs.vsCurq.toNat else .error .outsideQueues

def setQueue (vs : VirtioSoftc δ) (q : Nat) (vq : Vqueue) : VirtioSoftc δ :=
  { vs with vsQueues := Function.update vs.vsQueues q vq }

def resetQueue (vq : Vqueue) : Vqueue :=
  { vq with vqFlags := 0, vqLastAvail := 0, vqSaveUsed := 0, vqPfn := 0, vqMsixIdx := virtioMsiNoVector }

def viResetDev (vs : VirtioSoftc δ) : VirtioSoftc δ :=
  { vs with
    vsQueues := fun q => if q < vc.vcNvq then resetQueue (vs.vsQueues q) else vs.vsQueues q
    vsNegotiatedCaps := 0
    vsCurq := 0
    pi := if vs.vsIsr ≠ 0 then pciLintrDeassert vs.pi else vs.pi
    vsIsr := 0
    vsMsixCfgIdx := virtioMsiNoVector }

/-- `vc_reset` of a driver. -/
def deviceReset (vs : VirtioSoftc δ) : VirtioSoftc δ := viResetDev vc { vs with dev := vc.vcReset vs.dev }

def viVqInit (vq : Vqueue) (pfn : BitVec 32) : Vqueue :=
  { vq with
    vqPfn := pfn
    rings := Xhyve.Virtio.viVqInit ram vq.vqQsize ⟨pfn⟩
    vqFlags := vqAlloc
    vqLastAvail := 0
    vqSaveUsed := 0 }

def vqInterrupt (vs : VirtioSoftc δ) : VirtioSoftc δ :=
  if vs.pi.msixEnabled then vs
  else { vs with vsIsr := vs.vsIsr ||| vtcfgIsrQueues, pi := pciLintrAssert vs.pi }

/-! ## Reads and writes -/

def virtioConfigSize (vs : VirtioSoftc δ) : Nat := if vs.pi.msixEnabled then vtcfgRCfg1 else vtcfgRCfg0

/-- The offset at the driver's, where the access is for the driver. -/
def driverOffset (vs : VirtioSoftc δ) (offset size : Nat) : Option Nat :=
  if size ≠ 1 ∧ size ≠ 2 ∧ size ≠ 4 then none
  else if offset < virtioConfigSize vs then none
  else
    let newoff := (offset - virtioConfigSize vs) % 2 ^ 32
    let max := if vc.vcCfgsize ≠ 0 then vc.vcCfgsize else 2 ^ 32
    if (newoff + size) % 2 ^ 32 > max then none else some newoff

/-- What an access without an effect reads. -/
def ones (size : Nat) : BitVec 32 := if size = 1 then 0xff else if size = 2 then 0xffff else 0xffffffff

/-- Which register an access is for; the offset is cast to `int`. -/
def findReg (offset : Nat) : Except Stop (Option ConfigReg) :=
  match viFindCr (BitVec.ofNat 32 offset).toInt with
  | .found cr => .ok (some cr)
  | .absent => .ok none
  | .outside | .runsOn => .error .outsideTable

structure Read (δ : Type) where
  value : BitVec 32
  vs : VirtioSoftc δ
  diag : Option Diag

/-- The `switch` of `vi_pci_read`. -/
def readReg (vs : VirtioSoftc δ) (offset size : Nat) : Except Stop (Read δ) :=
  if offset = vtcfgRHostcap then .ok ⟨vc.vcHvCaps.setWidth 32, vs, none⟩
  else if offset = vtcfgRGuestcap then .ok ⟨vs.vsNegotiatedCaps, vs, none⟩
  else if offset = vtcfgRPfn then
    if vs.vsCurq < vc.vcNvq then do return ⟨(vs.vsQueues (← curQueue vs)).vqPfn, vs, none⟩ else .ok ⟨ones size, vs, none⟩
  else if offset = vtcfgRQnum then
    if vs.vsCurq < vc.vcNvq then do return ⟨(vs.vsQueues (← curQueue vs)).vqQsize.toBitVec.setWidth 32, vs, none⟩
    else .ok ⟨0, vs, none⟩
  else if offset = vtcfgRQsel then .ok ⟨BitVec.ofInt 32 vs.vsCurq, vs, none⟩
  else if offset = vtcfgRQnotify then .ok ⟨0, vs, none⟩
  else if offset = vtcfgRStatus then .ok ⟨vs.vsStatus.setWidth 32, vs, none⟩
  else if offset = vtcfgRIsr then
    .ok ⟨vs.vsIsr.setWidth 32,
      { vs with vsIsr := 0, pi := if vs.vsIsr ≠ 0 then pciLintrDeassert vs.pi else vs.pi }, none⟩
  else if offset = vtcfgRCfgvec then .ok ⟨vs.vsMsixCfgIdx.setWidth 32, vs, none⟩
  else if offset = vtcfgRQvec then
    if vs.vsCurq < vc.vcNvq then do return ⟨(vs.vsQueues (← curQueue vs)).vqMsixIdx.setWidth 32, vs, none⟩
    else .ok ⟨virtioMsiNoVector.setWidth 32, vs, none⟩
  else .ok ⟨ones size, vs, none⟩

/-- `vi_pci_read` from the label `bad` on. -/
def readGeneral (vs : VirtioSoftc δ) (offset size : Nat) : Except Stop (Read δ) := do
  match ← findReg offset with
  | none => return ⟨ones size, vs, some (.readBadOffset offset size)⟩
  | some cr =>
    if cr.crSize ≠ size then return ⟨ones size, vs, some (.readBadSize cr.crName size)⟩
    else readReg vc vs offset size

/-- `vi_pci_read` on the first BAR. -/
def viPciRead (vs : VirtioSoftc δ) (offset size : Nat) : Except Stop (Read δ) :=
  viaDriver (driverOffset vc vs offset size)
    (vc.vcCfgread.map fun cfgread newoff => cfgread vs.dev newoff size (ones size))
    (fun value => ⟨value, vs, none⟩) (readGeneral vc vs offset size)

structure Written (δ : Type) where
  vs : VirtioSoftc δ
  diags : List Diag

def Written.plain {δ : Type} (vs : VirtioSoftc δ) : Written δ := ⟨vs, []⟩

/-- The `switch` of `vi_pci_write`. -/
def writeReg (vs : VirtioSoftc δ) (cr : ConfigReg) (offset : Nat) (value : BitVec 64) : Except Stop (Written δ) :=
  if offset = vtcfgRGuestcap then
    let caps := (value &&& vc.vcHvCaps).setWidth 32
    let dev := match vc.vcApplyFeatures with
      | some apply => apply vs.dev (caps.setWidth 64)
      | none => vs.dev
    .ok (.plain { vs with vsNegotiatedCaps := caps, dev := dev })
  else if offset = vtcfgRPfn then
    if vs.vsCurq ≥ vc.vcNvq then .ok ⟨vs, [.badQindex cr.crName vs.vsCurq vc.vcNvq]⟩
    else do
      let q ← curQueue vs
      return .plain (setQueue vs q (viVqInit ram (vs.vsQueues q) (value.setWidth 32)))
  else if offset = vtcfgRQsel then .ok (.plain { vs with vsCurq := (value.setWidth 32).toInt })
  else if offset = vtcfgRQnotify then
    if value.toNat ≥ vc.vcNvq then .ok ⟨vs, [.notifyOutOfRange (value.setWidth 32).toInt]⟩
    else
      match vc.vcQnotify with
      | some notify => .ok (.plain { vs with dev := notify vs.dev value.toNat })
      | none => .ok ⟨vs, [.missingNotify (value.setWidth 32).toInt]⟩
  else if offset = vtcfgRStatus then
    let vs := { vs with vsStatus := value.setWidth 8 }
    .ok (.plain (if value = 0 then deviceReset vc vs else vs))
  else if offset = vtcfgRCfgvec then .ok (.plain { vs with vsMsixCfgIdx := value.setWidth 16 })
  else if offset = vtcfgRQvec then
    if vs.vsCurq ≥ vc.vcNvq then .ok ⟨vs, [.badQindex cr.crName vs.vsCurq vc.vcNvq]⟩
    else do
      let q ← curQueue vs
      return .plain (setQueue vs q { vs.vsQueues q with vqMsixIdx := value.setWidth 16 })
  else .ok (.plain vs)

def badWrite (cr : ConfigReg) (size : Nat) : List Diag :=
  (if cr.crSize ≠ size then [.writeBadSize cr.crName size] else []) ++ if cr.crRo then [.writeReadOnly cr.crName] else []

def writeGeneral (vs : VirtioSoftc δ) (offset size : Nat) (value : BitVec 64) : Except Stop (Written δ) := do
  match ← findReg offset with
  | none => return ⟨vs, [.writeBadOffset offset size]⟩
  | some cr =>
    if cr.crSize ≠ size ∨ cr.crRo then return ⟨vs, badWrite cr size⟩
    else writeReg vc ram vs cr offset value

def viPciWrite (vs : VirtioSoftc δ) (offset size : Nat) (value : BitVec 64) : Except Stop (Written δ) :=
  viaDriver (driverOffset vc vs offset size)
    (vc.vcCfgwrite.map fun cfgwrite newoff => cfgwrite vs.dev newoff size (value.setWidth 32))
    (fun dev => .plain { vs with dev := dev }) (writeGeneral vc ram vs offset size value)

/-! ## Runs -/

inductive Op (δ : Type)
  | read (offset size : Nat)
  /-- The value has been cut to the size. -/
  | write (offset size : Nat) (value : BitVec 64)
  /-- The device calls `vq_interrupt`, -/
  | interrupt
  /-- or changes itself and where it is in a queue. -/
  | process (queue : Nat) (lastAvail saveUsed : BitVec 16) (dev : δ)
  /-- The guest enables or disables interrupts of the function in config space. -/
  | config (msi msix intxDisabled : Bool)

def next (vs : VirtioSoftc δ) : Op δ → Option (VirtioSoftc δ)
  | .read offset size => if offset < 2 ^ 31 then (viPciRead vc vs offset size).toOption.map (·.vs) else none
  | .write offset size value =>
    if offset < 2 ^ 31 ∧ value.toNat < 2 ^ (8 * size) then (viPciWrite vc ram vs offset size value).toOption.map (·.vs)
    else none
  | .interrupt => some (vqInterrupt vs)
  | .process q lastAvail saveUsed dev =>
    some { setQueue vs q { vs.vsQueues q with vqLastAvail := lastAvail, vqSaveUsed := saveUsed } with dev := dev }
  | .config msi msix intxDisabled => some { vs with
      pi := pciLintrUpdate { vs.pi with msiEnabled := msi, msixEnabled := msix, intxDisabled := intxDisabled } }

/-- Before the guest runs: the structure is zero, but for the queues' sizes, and has been reset where MSI-X is used. -/
structure Start (vs : VirtioSoftc δ) : Prop where
  caps : vs.vsNegotiatedCaps = 0
  curq : vs.vsCurq = 0
  isr : vs.vsIsr = 0
  line : vs.pi.lintr = .idle
  queues : ∀ q, q < vc.vcNvq → (vs.vsQueues q).vqFlags = 0 ∧ (vs.vsQueues q).vqPfn = 0

def system : System (VirtioSoftc δ) (Op δ) := System.ofFn (Start vc) (next vc ram)

end Device

end Xhyve.Virtio.Registers
