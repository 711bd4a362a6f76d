import Xhyve.Lib.BitFlags
import Xhyve.Lib.WordSet
import Xhyve.Vmm.Ioapic
import Mathlib.Tactic

/-!
# Where an interrupt goes

`vlapic_calcdest` turns a destination into a set of vCPUs, and the writers of the ICR, the
I/O APIC and MSI hand the interrupt to each of them. What the set should be is stated beside it,
from the formats of the destination; the two agree but for x2APIC physical destinations that are
negative as an `int`.
-/

namespace Xhyve.Vmm.LapicDest

open Xhyve.Lib
open Xhyve.Vmm.Ioapic (Intr intrOf)

def vmMaxcpu : Nat := 16

abbrev Cpuset := BitVec 64

def dfrReserved : BitVec 32 := 0x0fffffff
def dfrModelMask : BitVec 32 := 0xf0000000
def dfrModelFlat : BitVec 32 := 0xf0000000
def dfrModelCluster : BitVec 32 := 0x00000000
def ldrReserved : BitVec 32 := 0x00ffffff

def apicVectorMask (w : Nat) : BitVec w := 0xff
def apicDelmodeMask (w : Nat) : BitVec w := 0x700
def apicDelmodeFixed (w : Nat) : BitVec w := 0x000
def apicDelmodeLowprio (w : Nat) : BitVec w := 0x100
def apicDelmodeNmi (w : Nat) : BitVec w := 0x400
def apicDelmodeExint (w : Nat) : BitVec w := 0x700
def apicDestmodeLog (w : Nat) : BitVec w := 0x800
def apicDelstatPend : BitVec 32 := 0x1000
def apicDestMask (w : Nat) : BitVec w := 0xc0000
def apicDestDestfld (w : Nat) : BitVec w := 0x00000
def apicDestSelf (w : Nat) : BitVec w := 0x40000
def apicDestAlliself (w : Nat) : BitVec w := 0x80000
def apicDestAlleself (w : Nat) : BitVec w := 0xc0000

/-! ## The registers that name a local APIC -/

structure DestRegs where
  x2apic : Bool
  ldr : BitVec 32
  dfr : BitVec 32
deriving DecidableEq, Repr

/-- `x2apic_ldr`, of an APIC in x2APIC mode, whose id is its vCPU's. -/
def x2apicLdr (vcpuid : Nat) : BitVec 32 :=
  let apicid := BitVec.ofNat 32 vcpuid
  (1 <<< (apicid &&& 0xf).toNat) ||| ((apicid &&& 0xffff0) <<< 12)

def vlapicSetX2apicState (vcpuid : Nat) (x2apic : Bool) : DestRegs :=
  if x2apic then ⟨true, x2apicLdr vcpuid, 0⟩ else ⟨false, 0, 0xffffffff⟩

def vlapicDfrWriteHandler (r : DestRegs) : DestRegs :=
  if r.x2apic then { r with dfr := 0 }
  else { r with dfr := (r.dfr &&& dfrModelMask) ||| dfrReserved }

def vlapicLdrWriteHandler (vcpuid : Nat) (r : DestRegs) : DestRegs :=
  if r.x2apic then { r with ldr := x2apicLdr vcpuid }
  else { r with ldr := r.ldr &&& ~~~ldrReserved }

/-- What the registers can hold after any writes of the guest. -/
inductive Configured (vcpuid : Nat) (x2apic : Bool) : DestRegs → Prop
  | set : Configured vcpuid x2apic (vlapicSetX2apicState vcpuid x2apic)
  | ldr {r : DestRegs} (data : BitVec 32) : Configured vcpuid x2apic r →
      Configured vcpuid x2apic (vlapicLdrWriteHandler vcpuid { r with ldr := data })
  | dfr {r : DestRegs} (data : BitVec 32) : Configured vcpuid x2apic r →
      Configured vcpuid x2apic (vlapicDfrWriteHandler { r with dfr := data })

/-! ## `vlapic_calcdest` -/

/-- Whether the loop of `vlapic_calcdest` sets the bit of an APIC with these registers. -/
def logicalMatch (r : DestRegs) (dest : BitVec 32) (x2apicDest : Bool) : Bool :=
  let mdaFlatLdest := dest &&& 0xff
  let mdaClusterId := if x2apicDest then dest >>> 16 else (dest >>> 4) &&& 0xf
  let mdaClusterLdest := if x2apicDest then dest &&& 0xffff else dest &&& 0xf
  if r.dfr &&& dfrModelMask = dfrModelFlat then mdaFlatLdest &&& (r.ldr >>> 24) ≠ 0
  else if r.dfr &&& dfrModelMask = dfrModelCluster then
    let cluster := if r.x2apic then r.ldr >>> 16 else r.ldr >>> 28
    let ldest := if r.x2apic then r.ldr &&& 0xffff else (r.ldr >>> 24) &&& 0xf
    if cluster ≠ mdaClusterId then false else mdaClusterLdest &&& ldest ≠ 0
  else false

/-- The loop over the active vCPUs, which a match ends for lowest priority. -/
def logicalLoop (hit : Nat → Bool) (lowprio : Bool) : List Nat → Cpuset → Cpuset
  | [], dmask => dmask
  | vcpuid :: rest, dmask =>
    if hit vcpuid then
      if lowprio then WordSet.set vcpuid dmask
      else logicalLoop hit lowprio rest (WordSet.set vcpuid dmask)
    else logicalLoop hit lowprio rest dmask

def vmApicid2vcpuid (apicid : Int) : Int := apicid

/-- In physical mode the destination passes through an `int`: only its upper bound is checked, and
the shift that makes its bit takes it modulo 64. -/
def vlapicCalcdest (active : Cpuset) (lapic : Nat → DestRegs) (dest : BitVec 32)
    (phys lowprio x2apicDest : Bool) : Cpuset :=
  if (x2apicDest ∧ dest = 0xffffffff) ∨ (¬ x2apicDest ∧ dest = 0xff) then active
  else if phys then
    let vcpuid := vmApicid2vcpuid dest.toInt
    if vcpuid < vmMaxcpu then WordSet.set (BitVec.ofInt 32 vcpuid).toNat 0 else 0
  else
    logicalLoop (fun i => logicalMatch (lapic i) dest x2apicDest) lowprio
      (WordSet.visit 64 active) 0

/-! ## Who sends -/

inductive Call
  | lapicSetIntr (cpu : Nat) (vector : BitVec 32) (level : Bool)
  | injectNmi (vcpuid : Nat)
  | injectExtint (vcpuid : Nat)
  | setError (vcpuid : Nat)
deriving DecidableEq, Repr

/-- The vCPU a call hands an interrupt to. -/
def Call.target : Call → Option Nat
  | .lapicSetIntr cpu _ _ => some cpu
  | .injectNmi vcpuid | .injectExtint vcpuid => some vcpuid
  | .setError _ => none

def vlapicDeliverIntr (active : Cpuset) (lapic : Nat → DestRegs) (intr : Intr) : List Call :=
  if intr.delmode ≠ apicDelmodeFixed 32 ∧ intr.delmode ≠ apicDelmodeLowprio 32 ∧
      intr.delmode ≠ apicDelmodeExint 32 then []
  else
    let lowprio := intr.delmode = apicDelmodeLowprio 32
    let dmask := vlapicCalcdest active lapic intr.dest intr.phys lowprio false
    (WordSet.visit 64 dmask).map fun vcpuid =>
      if intr.delmode = apicDelmodeExint 32 then .injectExtint vcpuid
      else .lapicSetIntr vcpuid intr.vector intr.level

/-- `vlapic_icrlo_write_handler`, for fixed and NMI delivery; `none` for the other modes, which go on
to INIT and STARTUP. -/
def vlapicIcrloWriteHandler (active : Cpuset) (lapic : Nat → DestRegs) (vcpuid : Nat)
    (icrLo icrHi : BitVec 32) : Option (List Call) :=
  let icrLo := icrLo &&& ~~~apicDelstatPend
  let icrval : BitVec 64 := (icrHi.setWidth 64 <<< 32) ||| icrLo.setWidth 64
  let x2apic := (lapic vcpuid).x2apic
  let dest : BitVec 32 :=
    if x2apic then (icrval >>> 32).setWidth 32 else (icrval >>> (32 + 24)).setWidth 32
  let vec : BitVec 32 := (icrval &&& apicVectorMask 64).setWidth 32
  let mode := icrval &&& apicDelmodeMask 64
  if mode = apicDelmodeFixed 64 ∧ vec < 16 then some [.setError vcpuid]
  else if mode = apicDelmodeFixed 64 ∨ mode = apicDelmodeNmi 64 then
    let shorthand := icrval &&& apicDestMask 64
    let dmask : Cpuset :=
      if shorthand = apicDestDestfld 64 then
        let phys := icrval &&& apicDestmodeLog 64 = 0
        vlapicCalcdest active lapic dest phys false x2apic
      else if shorthand = apicDestSelf 64 then WordSet.set vcpuid 0
      else if shorthand = apicDestAlliself 64 then active
      else if shorthand = apicDestAlleself 64 then WordSet.clr vcpuid active
      else 0
    some ((WordSet.visit 64 dmask).map fun i =>
      if mode = apicDelmodeFixed 64 then .lapicSetIntr i vec false else .injectNmi i)
  else none

def msiAddrMask : BitVec 64 := 0xfff00000
def msiAddrBase : BitVec 64 := 0xfee00000
def msiAddrRh : BitVec 64 := 0x8
def msiAddrLog : BitVec 64 := 0x4

/-- The interrupt an MSI message describes. -/
def msiIntr (addr msg : BitVec 64) : Intr where
  level := false
  dest := ((addr >>> 12) &&& 0xff).setWidth 32
  phys := addr &&& (msiAddrRh ||| msiAddrLog) ≠ msiAddrRh ||| msiAddrLog
  delmode := (msg &&& apicDelmodeMask 64).setWidth 32
  vector := (msg &&& 0xff).setWidth 32

/-- `none` is the error of an address outside the MSI window. -/
def lapicIntrMsi (active : Cpuset) (lapic : Nat → DestRegs) (addr msg : BitVec 64) :
    Option (List Call) :=
  if addr &&& msiAddrMask ≠ msiAddrBase then none
  else some (vlapicDeliverIntr active lapic (msiIntr addr msg))

/-! ## What the set should be -/

/-- The active vCPUs and their APICs, all in the same mode. -/
structure Vm where
  x2apic : Bool
  active : Cpuset
  lapic : Nat → DestRegs
  active_lt : ∀ i, active.getLsbD i = true → i < vmMaxcpu
  configured : ∀ i, Configured i x2apic (lapic i)

/-- Bits `k` of the logical ID, from `shift` on, and of the destination are both set. -/
def commonBit (n shift : Nat) (ldr dest : BitVec 32) : Prop :=
  ∃ k < n, ldr.getLsbD (shift + k) = true ∧ dest.getLsbD k = true

instance (n shift : Nat) (ldr dest : BitVec 32) : Decidable (commonBit n shift ldr dest) :=
  inferInstanceAs (Decidable (∃ k < n, _))

def flatModel (r : DestRegs) : Prop := r.dfr.toNat / 2 ^ 28 = 0xf
def clusterModel (r : DestRegs) : Prop := r.dfr.toNat / 2 ^ 28 = 0

instance (r : DestRegs) : Decidable (flatModel r) := inferInstanceAs (Decidable (_ = _))
instance (r : DestRegs) : Decidable (clusterModel r) := inferInstanceAs (Decidable (_ = _))

/-- Flat: a common bit. Cluster: the same cluster and a common bit, in the format of the mode. -/
def Matches (r : DestRegs) (dest : BitVec 32) : Prop :=
  (flatModel r ∧ commonBit 8 24 r.ldr dest) ∨
    (clusterModel r ∧
      if r.x2apic then r.ldr.toNat / 2 ^ 16 = dest.toNat / 2 ^ 16 ∧ commonBit 16 0 r.ldr dest
      else r.ldr.toNat / 2 ^ 28 = dest.toNat / 2 ^ 4 ∧ commonBit 4 24 r.ldr dest)

instance (r : DestRegs) (dest : BitVec 32) : Decidable (Matches r dest) :=
  inferInstanceAs (Decidable (_ ∨ _))

namespace Vm

def activeSet (vm : Vm) : Finset Nat :=
  (Finset.range vmMaxcpu).filter fun i => vm.active.getLsbD i = true

def matching (vm : Vm) (dest : BitVec 32) : Finset Nat :=
  vm.activeSet.filter fun i => Matches (vm.lapic i) dest

end Vm

inductive Addressing
  | self | all | others
  | field (dest : BitVec 32) (phys lowprio x2apicDest : Bool)

def broadcast (x2apicDest : Bool) : BitVec 32 := if x2apicDest then 0xffffffff else 0xff

/-- The sets a destination may resolve to, of an interrupt that `vcpuid` sends. -/
def Resolves (vm : Vm) (vcpuid : Nat) (S : Finset Nat) : Addressing → Prop
  | .self => S = {vcpuid}
  | .all => S = vm.activeSet
  | .others => S = vm.activeSet.erase vcpuid
  | .field dest phys lowprio x2apicDest =>
    if dest = broadcast x2apicDest then S = vm.activeSet
    else if phys then S = (Finset.range vmMaxcpu).filter fun i => i = dest.toNat
    else if lowprio then
      (vm.matching dest = ∅ ∧ S = ∅) ∨ ∃ i ∈ vm.matching dest, S = {i}
    else S = vm.matching dest

inductive Request
  | icr (vcpuid : Nat) (lo hi : BitVec 32)
  | ioapic (reg : BitVec 64)
  | msi (addr msg : BitVec 64)

def deliver (vm : Vm) : Request → List Call
  | .icr vcpuid lo hi => (vlapicIcrloWriteHandler vm.active vm.lapic vcpuid lo hi).getD []
  | .ioapic reg => vlapicDeliverIntr vm.active vm.lapic (intrOf reg)
  | .msi addr msg => (lapicIntrMsi vm.active vm.lapic addr msg).getD []

/-- The vCPUs an interrupt is handed to. -/
def handed (calls : List Call) : Finset Nat :=
  (Finset.range vmMaxcpu).filter fun i => some i ∈ calls.map Call.target

def Request.sender : Request → Nat
  | .icr vcpuid _ _ => vcpuid
  | .ioapic _ | .msi .. => 0

def intrAddressing (intr : Intr) : Addressing :=
  .field intr.dest intr.phys (intr.delmode = apicDelmodeLowprio 32) false

def addressing (vm : Vm) : Request → Addressing
  | .icr _ lo hi =>
    let shorthand := lo &&& apicDestMask 32
    if shorthand = apicDestDestfld 32 then
      .field (if vm.x2apic then hi else hi >>> 24) (lo &&& apicDestmodeLog 32 = 0) false vm.x2apic
    else if shorthand = apicDestSelf 32 then .self
    else if shorthand = apicDestAlliself 32 then .all
    else .others
  | .ioapic reg => intrAddressing (intrOf reg)
  | .msi addr msg => intrAddressing (msiIntr addr msg)

/-- Fixed or lowest-priority delivery, to a logical destination only in xAPIC mode. -/
def AdmissibleIntr (vm : Vm) (intr : Intr) : Prop :=
  (intr.delmode = apicDelmodeFixed 32 ∨ intr.delmode = apicDelmodeLowprio 32) ∧
    (intr.phys = false → vm.x2apic = false)

def Admissible (vm : Vm) : Request → Prop
  | .icr vcpuid lo _ => vcpuid < vmMaxcpu ∧
    ((lo &&& apicDelmodeMask 32 = apicDelmodeFixed 32 ∧ 16 ≤ (lo &&& apicVectorMask 32).toNat) ∨
      lo &&& apicDelmodeMask 32 = apicDelmodeNmi 32)
  | .ioapic reg => AdmissibleIntr vm (intrOf reg)
  | .msi addr msg => addr &&& msiAddrMask = msiAddrBase ∧ AdmissibleIntr vm (msiIntr addr msg)

/-- A physical x2APIC destination that is negative as an `int`, and whose bit is a vCPU's. -/
def NegativeDest (vm : Vm) : Request → Prop
  | .icr _ lo hi => vm.x2apic = true ∧ lo &&& apicDestMask 32 = apicDestDestfld 32 ∧
    lo &&& apicDestmodeLog 32 = 0 ∧ 2 ^ 31 ≤ hi.toNat ∧ hi ≠ 0xffffffff ∧ hi.toNat % 64 < vmMaxcpu
  | .ioapic _ | .msi .. => False

end Xhyve.Vmm.LapicDest
