import Xhyve.Lib.Transition
import Mathlib.Logic.Function.Basic

/-!
# Legacy PCI interrupts

A function's INTx pin drives one I/O APIC pin and one of eight PIRQ pins; a PIRQ pin drives the
8259 IRQ its register selects, as long as anybody asserts it. `pci_lintr_assert` and its
siblings run under the function's lock. What they do to a PIRQ pin runs under that pin's lock as
well, and the call for the I/O APIC pin alone may come after it is let go, so that other
functions and writes to the PIRQ registers come in between.

The lines are kept as the number of asserts less the number of deasserts they have been given.
-/

namespace Xhyve.Emul.PciIrq

open Xhyve.Lib

universe u

def pirqDis : BitVec 8 := 0x80
def pirqIrq : BitVec 8 := 0x0f
def permittedIrqs : Nat := 0xdef8
def irqDisabled : Nat := 0xff
/-- Pins of the I/O APIC. -/
def redirEntries : Nat := 24
/-- IRQs of the two 8259s. -/
def atpicIrqs : Nat := 16
def pcimCmdIntxDis : BitVec 16 := 0x0400

structure Pirq where
  reg : BitVec 8
  useCount : Nat
  activeCount : Int
deriving DecidableEq, Repr

inductive LintrStat
  | idle | asserted | pending
deriving DecidableEq, Repr

/-- What `struct pci_devinst` keeps for its interrupts; 0 stands for no pin. -/
structure Devinst where
  pin : Nat
  state : LintrStat
  pirqPin : Nat
  ioapicIrq : Nat
  msiEnabled : Bool
  msixEnabled : Bool
  cmd : BitVec 16
deriving DecidableEq, Repr

def irqPermitted (irq : Nat) : Bool := permittedIrqs.testBit irq

def pirqValidIrq (reg : BitVec 8) : Bool :=
  if reg &&& pirqDis ≠ 0 then false else irqPermitted (reg &&& pirqIrq).toNat

/-! ## Routing, before the guest runs -/

/-- `struct intxinfo`, less the number of functions on the pin. -/
structure Intxinfo where
  pirqPin : Nat
  ioapicIrq : Nat
deriving DecidableEq, Repr

structure Router where
  pirqs : Nat → Pirq
  irqCounts : Nat → Nat
  /-- `last_pin` of `ioapic_pci_alloc_irq`. -/
  lastPin : Nat
  /-- By slot and interrupt pin. -/
  intpins : Nat → Nat → Intxinfo

def nPirqs : Nat := 8
def nIrqs : Nat := 16
def pciPins : Nat := redirEntries - 16

def pciIrqInit : Router where
  pirqs _ := ⟨pirqDis, 0, 0⟩
  irqCounts irq := if irqPermitted irq then 0 else irqDisabled
  lastPin := 0
  intpins _ _ := ⟨0, 0⟩

/-- The least-used pin, the first of them. -/
def bestPin (pirqs : Nat → Pirq) : Nat :=
  (List.range nPirqs).foldl
    (fun best pin => if (pirqs pin).useCount < (pirqs best).useCount then pin else best) 0

/-- The least-used IRQ that is not disabled. -/
def bestIrq (irqCounts : Nat → Nat) : Option Nat :=
  (List.range nIrqs).foldl (fun best irq =>
    if irqCounts irq = irqDisabled then best
    else
      match best with
      | none => some irq
      | some b => if irqCounts irq < irqCounts b then some irq else some b) none

/-- `none` when the assertion fails. The trigger mode of the 8259 pin is left out. -/
def pirqAllocPin (r : Router) : Option (Nat × Router) :=
  let best := bestPin r.pirqs
  let pirq := { r.pirqs best with useCount := (r.pirqs best).useCount + 1 }
  if pirq.reg = pirqDis then
    (bestIrq r.irqCounts).map fun irq =>
      (best + 1, { r with
        pirqs := Function.update r.pirqs best { pirq with reg := BitVec.ofNat 8 irq }
        irqCounts := Function.update r.irqCounts irq (r.irqCounts irq + 1) })
  else some (best + 1, { r with pirqs := Function.update r.pirqs best pirq })

def ioapicPciAllocIrq (r : Router) : Nat × Router :=
  (16 + r.lastPin % pciPins, { r with lastPin := r.lastPin + 1 })

def Router.setIntpin (r : Router) (slot pin : Nat) (ii : Intxinfo) : Router :=
  { r with intpins := Function.update r.intpins slot (Function.update (r.intpins slot) pin ii) }

/-- The I/O APIC pin of an interrupt pin, allocated on first use. -/
def routeIoapic (r : Router) (slot pin : Nat) : Router :=
  if (r.intpins slot pin).ioapicIrq = 0 then
    let (irq, r) := ioapicPciAllocIrq r
    r.setIntpin slot pin { r.intpins slot pin with ioapicIrq := irq }
  else r

def routePirq (r : Router) (slot pin : Nat) : Option Router :=
  if (r.intpins slot pin).pirqPin = 0 then
    (pirqAllocPin r).map fun (pirqPin, r) =>
      r.setIntpin slot pin { r.intpins slot pin with pirqPin := pirqPin }
  else some r

/-- `pci_lintr_route`, less the guest's copy of the IRQ in the configuration space. -/
def pciLintrRoute (r : Router) (slot : Nat) (pi : Devinst) : Option (Router × Devinst) :=
  if pi.pin = 0 then some (r, pi)
  else
    (routePirq (routeIoapic r slot (pi.pin - 1)) slot (pi.pin - 1)).map fun r =>
      let ii := r.intpins slot (pi.pin - 1)
      (r, { pi with ioapicIrq := ii.ioapicIrq, pirqPin := ii.pirqPin })

/-! ## Asserting and deasserting -/

/-- How far an operation on a function has come, while it holds the function's lock. -/
inductive Section
  | free
  /-- In `pci_irq_assert`, before the PIRQ pin. -/
  | assert
  /-- Before `xh_vm_ioapic_assert_irq`. -/
  | assertIoapic
  /-- In `pci_irq_deassert`; `pci_lintr_update` stores the state after it. -/
  | deassert (later : Option LintrStat)
  | deassertIoapic (later : Option LintrStat)
deriving DecidableEq, Repr

structure State (ι : Type u) where
  devs : ι → Devinst
  sect : ι → Section
  /-- `pirqs[8]`, from 1. -/
  pirqs : Nat → Pirq
  /-- Asserts less deasserts of each I/O APIC pin, and of each 8259 IRQ. -/
  ioapic : Nat → Int
  atpic : Nat → Int

def pciLintrPermitted (pi : Devinst) : Bool :=
  !(pi.msiEnabled || pi.msixEnabled || pi.cmd &&& pcimCmdIntxDis ≠ 0)

section Steps
variable {ι : Type u} [DecidableEq ι]

/-- `vioapic_assert_irq` for 1 and `vioapic_deassert_irq` for -1. -/
def ioapicIrqstate (s : State ι) (d : Int) (irq : Nat) : State ι :=
  if irq < redirEntries then { s with ioapic := Function.update s.ioapic irq (s.ioapic irq + d) }
  else s

def atpicIrqstate (s : State ι) (d : Int) (irq : Nat) : Option (State ι) :=
  if irq < atpicIrqs then
    some { s with atpic := Function.update s.atpic irq (s.atpic irq + d) }
  else none

/-- `xh_vm_isa_assert_irq` and `xh_vm_isa_deassert_irq`; `none` for an I/O APIC pin of -1. -/
def isaIrqstate (s : State ι) (d : Int) (atpicIrq : Nat) (ioapicIrq : Option Nat) : State ι :=
  match atpicIrqstate s d atpicIrq, ioapicIrq with
  | none, _ => s
  | some s, none => s
  | some s, some irq => ioapicIrqstate s d irq

def xhVmIsaAssertIrq (s : State ι) := isaIrqstate s 1
def xhVmIsaDeassertIrq (s : State ι) := isaIrqstate s (-1)
def xhVmIoapicAssertIrq (s : State ι) := ioapicIrqstate s 1
def xhVmIoapicDeassertIrq (s : State ι) := ioapicIrqstate s (-1)

def State.setPirq (s : State ι) (pin : Nat) (pirq : Pirq) : State ι :=
  { s with pirqs := Function.update s.pirqs pin pirq }

def State.setSect (s : State ι) (f : ι) (c : Section) : State ι :=
  { s with sect := Function.update s.sect f c }

def State.setDev (s : State ι) (f : ι) (pi : Devinst) : State ι :=
  { s with devs := Function.update s.devs f pi }

def State.setState (s : State ι) (f : ι) (st : LintrStat) : State ι :=
  s.setDev f { s.devs f with state := st }

def pirqWrite (s : State ι) (pin : Nat) (val : BitVec 8) : State ι :=
  let pirq := s.pirqs pin
  let reg := val &&& (pirqDis ||| pirqIrq)
  if pirq.reg ≠ reg then
    let s := if pirq.activeCount ≠ 0 ∧ pirqValidIrq pirq.reg then
      xhVmIsaDeassertIrq s (pirq.reg &&& pirqIrq).toNat none else s
    let s := s.setPirq pin { pirq with reg := reg }
    if pirq.activeCount ≠ 0 ∧ pirqValidIrq reg then
      xhVmIsaAssertIrq s (reg &&& pirqIrq).toNat none else s
  else s

/-- The operation is over, and the function's lock is let go. -/
def unlock (s : State ι) (f : ι) : Option LintrStat → State ι
  | none => s.setSect f .free
  | some st => (s.setState f st).setSect f .free

/-- The part of `pci_irq_assert` under the PIRQ pin's lock. -/
def assertPirq (s : State ι) (f : ι) : State ι :=
  let pin := (s.devs f).pirqPin
  let pirq := { s.pirqs pin with activeCount := (s.pirqs pin).activeCount + 1 }
  let s := s.setPirq pin pirq
  if pirq.activeCount = 1 ∧ pirqValidIrq pirq.reg then
    unlock (xhVmIsaAssertIrq s (pirq.reg &&& pirqIrq).toNat (some (s.devs f).ioapicIrq)) f none
  else s.setSect f .assertIoapic

def deassertPirq (s : State ι) (f : ι) (later : Option LintrStat) : State ι :=
  let pin := (s.devs f).pirqPin
  let pirq := { s.pirqs pin with activeCount := (s.pirqs pin).activeCount - 1 }
  let s := s.setPirq pin pirq
  if pirq.activeCount = 0 ∧ pirqValidIrq pirq.reg then
    unlock (xhVmIsaDeassertIrq s (pirq.reg &&& pirqIrq).toNat (some (s.devs f).ioapicIrq)) f later
  else s.setSect f (.deassertIoapic later)

/-- The next part of an operation that holds the function's lock; `none` when the assertion on
the PIRQ pin fails. -/
def advance (s : State ι) (f : ι) : Option (State ι) :=
  match s.sect f with
  | .free => none
  | .assert =>
    if (s.devs f).pirqPin > 0 then
      if (s.devs f).pirqPin ≤ nPirqs then some (assertPirq s f) else none
    else some (s.setSect f .assertIoapic)
  | .assertIoapic => some (unlock (xhVmIoapicAssertIrq s (s.devs f).ioapicIrq) f none)
  | .deassert later =>
    if (s.devs f).pirqPin > 0 then
      if (s.devs f).pirqPin ≤ nPirqs then some (deassertPirq s f later) else none
    else some (s.setSect f (.deassertIoapic later))
  | .deassertIoapic later => some (unlock (xhVmIoapicDeassertIrq s (s.devs f).ioapicIrq) f later)

/-- `pci_lintr_assert`, up to `pci_irq_assert`. -/
def pciLintrAssert (s : State ι) (f : ι) : State ι :=
  if (s.devs f).state = .idle then
    if pciLintrPermitted (s.devs f) then (s.setState f .asserted).setSect f .assert
    else s.setState f .pending
  else s

def pciLintrDeassert (s : State ι) (f : ι) : State ι :=
  if (s.devs f).state = .asserted then (s.setState f .idle).setSect f (.deassert none)
  else if (s.devs f).state = .pending then s.setState f .idle
  else s

def pciLintrUpdate (s : State ι) (f : ι) : State ι :=
  if (s.devs f).state = .asserted ∧ pciLintrPermitted (s.devs f) = false then
    s.setSect f (.deassert (some .pending))
  else if (s.devs f).state = .pending ∧ pciLintrPermitted (s.devs f) = true then
    (s.setState f .asserted).setSect f .assert
  else s

inductive Op (ι : Type u)
  | lintrAssert (f : ι)
  | lintrDeassert (f : ι)
  | lintrUpdate (f : ι)
  /-- The operation in progress goes on. -/
  | advance (f : ι)
  | pirqWrite (pin : Nat) (val : BitVec 8)
  /-- The guest writes the fields that permit INTx. -/
  | config (f : ι) (msi msix : Bool) (cmd : BitVec 16)

/-- `none` when an assertion fails or the function's lock is taken. -/
def next (s : State ι) : Op ι → Option (State ι)
  | .lintrAssert f =>
    if (s.devs f).pin > 0 ∧ s.sect f = .free then some (pciLintrAssert s f) else none
  | .lintrDeassert f =>
    if (s.devs f).pin > 0 ∧ s.sect f = .free then some (pciLintrDeassert s f) else none
  | .lintrUpdate f => if s.sect f = .free then some (pciLintrUpdate s f) else none
  | .advance f => advance s f
  | .pirqWrite pin val =>
    if 0 < pin ∧ pin ≤ nPirqs then some (pirqWrite s pin val) else none
  | .config f msi msix cmd =>
    some (s.setDev f { s.devs f with msiEnabled := msi, msixEnabled := msix, cmd := cmd })

/-- A function has an I/O APIC pin and a PIRQ pin if it has an interrupt pin. -/
def Routed (pi : Devinst) : Prop :=
  0 < pi.pin → 0 < pi.pirqPin ∧ pi.pirqPin ≤ nPirqs ∧ 16 ≤ pi.ioapicIrq ∧
    pi.ioapicIrq < redirEntries

/-- The functions have been routed, and nothing is asserted. -/
structure Start (s : State ι) : Prop where
  routed : ∀ f, Routed (s.devs f)
  idle : ∀ f, (s.devs f).state = .idle
  free : ∀ f, s.sect f = .free
  inactive : ∀ pin, (s.pirqs pin).activeCount = 0
  ioapic : ∀ irq, s.ioapic irq = 0
  atpic : ∀ irq, s.atpic irq = 0

/-- Every interleaving of devices and guest. -/
def system (ι : Type u) [DecidableEq ι] : System (State ι) (Op ι) := System.ofFn Start next

end Steps

end Xhyve.Emul.PciIrq
