import Xhyve.Lib.BitFlags
import Xhyve.Lib.Transition
import Mathlib.Tactic

/-!
# The I/O APIC: redirection table, pins and their level interrupts

Each pin has a redirection entry and a count of its asserters. `vioapic_send_intr` sets the remote
IRR of a level-triggered pin and hands the interrupt to `vlapic_deliver_intr`; an EOI of the
vector clears it, and sends again while the pin is asserted. A write to the redirection table
may drop the lock in the middle, for a rendezvous in which the local APICs recompute their trigger
modes, and decides only after it whether the pin has to be sent.

The calls of `vlapic_deliver_intr` and the acknowledgements are recorded in `trace`, newest first.
-/

namespace Xhyve.Vmm.Ioapic

open Xhyve.Lib

abbrev Reg := BitVec 64

def redirEntries : Nat := 24
def vioapicBase : Nat := 0xfec00000
def ioregselOffset : Nat := 0x00
def iowinOffset : Nat := 0x10

def ioapicId : Nat := 0x00
def ioapicRedtbl : Nat := 0x10
def apicIdMask : BitVec 32 := 0xff000000
def apicIdShift : Nat := 24

def ioartIntmask (w : Nat) : BitVec w := 0x10000
def ioartTrgrlvl (w : Nat) : BitVec w := 0x8000
def ioartRemIrr (w : Nat) : BitVec w := 0x4000
def ioartIntpol (w : Nat) : BitVec w := 0x2000
def ioartDelivs (w : Nat) : BitVec w := 0x1000
def ioartDestmod (w : Nat) : BitVec w := 0x800
def ioartDelmod (w : Nat) : BitVec w := 0x700
def ioartIntvec (w : Nat) : BitVec w := 0xff

def rtblRoBits : Reg := ioartRemIrr 64 ||| ioartDelivs 64

/-- What `vlapic_deliver_intr` is called with. -/
structure Intr where
  level : Bool
  dest : BitVec 32
  phys : Bool
  delmode : BitVec 32
  vector : BitVec 32
deriving DecidableEq, Repr

inductive Event
  | deliver (pin : Nat) (intr : Intr)
  /-- The remote IRR of a pin is cleared by an EOI. -/
  | ack (pin : Nat)
deriving DecidableEq, Repr

/-- An entry of `rtbl`; `acnt` is the sum of pin asserts (+1) and deasserts (-1). -/
structure Entry where
  reg : Reg
  acnt : Int
deriving DecidableEq, Repr

structure Vioapic where
  id : BitVec 32
  ioregsel : BitVec 32
  rtbl : Nat → Entry
  trace : List Event

namespace Vioapic

def setEntry (s : Vioapic) (pin : Nat) (e : Entry) : Vioapic :=
  { s with rtbl := Function.update s.rtbl pin e }

def setReg (s : Vioapic) (pin : Nat) (reg : Reg) : Vioapic :=
  s.setEntry pin { s.rtbl pin with reg := reg }

def emit (s : Vioapic) (e : Event) : Vioapic := { s with trace := e :: s.trace }

end Vioapic

def low (reg : Reg) : BitVec 32 := reg.setWidth 32
def high (reg : Reg) : BitVec 32 := (reg >>> 32).setWidth 32

def isLevel (reg : Reg) : Bool := low reg &&& ioartTrgrlvl 32 ≠ 0

/-- The interrupt an entry describes. -/
def intrOf (reg : Reg) : Intr where
  level := isLevel reg
  dest := high reg >>> apicIdShift
  phys := low reg &&& ioartDestmod 32 = 0
  delmode := low reg &&& ioartDelmod 32
  vector := low reg &&& ioartIntvec 32

def vioapicSendIntr (s : Vioapic) (pin : Nat) : Vioapic :=
  let reg := (s.rtbl pin).reg
  if low reg &&& ioartIntmask 32 = ioartIntmask 32 then s
  else
    let s := if isLevel reg then s.setReg pin (reg ||| ioartRemIrr 64) else s
    s.emit (.deliver pin (intrOf reg))

def vioapicSetPinstate (s : Vioapic) (pin : Nat) (newstate : Bool) : Vioapic :=
  let oldcnt := (s.rtbl pin).acnt
  let newcnt := if newstate then oldcnt + 1 else oldcnt - 1
  let s := s.setEntry pin { s.rtbl pin with acnt := newcnt }
  if oldcnt = 0 ∧ newcnt = 1 then vioapicSendIntr s pin else s

inductive Irqstate
  | assert | deassert | pulse
deriving DecidableEq, Repr

/-- The switch of `vioapic_set_irqstate`. -/
def setPinIrqstate (s : Vioapic) (pin : Nat) : Irqstate → Vioapic
  | .assert => vioapicSetPinstate s pin true
  | .deassert => vioapicSetPinstate s pin false
  | .pulse => vioapicSetPinstate (vioapicSetPinstate s pin true) pin false

/-- `none` is `EINVAL`. -/
def vioapicSetIrqstate (s : Vioapic) (irq : Int) (irqstate : Irqstate) : Option Vioapic :=
  if irq < 0 ∨ irq ≥ redirEntries then none else some (setPinIrqstate s irq.toNat irqstate)

/-- What `vioapic_write` does after the rendezvous, or at once where none is needed. -/
def vioapicWriteSend (s : Vioapic) (pin : Nat) : Vioapic :=
  if (s.rtbl pin).reg &&& ioartIntmask 64 = 0 ∧ (s.rtbl pin).reg &&& ioartRemIrr 64 = 0 ∧
      (s.rtbl pin).acnt > 0 then vioapicSendIntr s pin
  else s

/-- The entry after a write of one of its halves. -/
def writeHalf (last : Reg) (lshift : Nat) (data : BitVec 32) : Reg :=
  let data64 := data.setWidth 64 <<< lshift
  let mask64 : Reg := 0xffffffff#64 <<< lshift
  (last &&& (~~~mask64 ||| rtblRoBits)) ||| (data64 &&& ~~~rtblRoBits)

/-- Up to where the lock is dropped: the pin then, or `none` for a write that ran to its end. -/
def vioapicWrite (s : Vioapic) (addr data : BitVec 32) : Vioapic × Option Nat :=
  let regnum := (addr &&& 0xff).toNat
  let s := if regnum = ioapicId then { s with id := data &&& apicIdMask } else s
  if ioapicRedtbl ≤ regnum ∧ regnum < ioapicRedtbl + redirEntries * 2 then
    let pin := (regnum - ioapicRedtbl) / 2
    let lshift := if (regnum - ioapicRedtbl) % 2 ≠ 0 then 32 else 0
    let last := (s.rtbl pin).reg
    let s := s.setReg pin (writeHalf last lshift data)
    let changed := last ^^^ (s.rtbl pin).reg
    if changed &&& ~~~(ioartIntmask 64 ||| ioartIntpol 64) ≠ 0 then (s, some pin)
    else (vioapicWriteSend s pin, none)
  else (s, none)

/-- `vioapic_mmio_write`, up to where `vioapic_write` drops the lock. -/
def vioapicMmioWrite (s : Vioapic) (gpa wval : BitVec 64) (size : Nat) : Vioapic × Option Nat :=
  let offset := gpa - BitVec.ofNat 64 vioapicBase
  if size ≠ 4 ∨ (offset ≠ BitVec.ofNat 64 ioregselOffset ∧ offset ≠ BitVec.ofNat 64 iowinOffset) then
    (s, none)
  else if offset = BitVec.ofNat 64 ioregselOffset then
    ({ s with ioregsel := wval.setWidth 32 }, none)
  else vioapicWrite s s.ioregsel (wval.setWidth 32)

/-- The body of the loop in `vioapic_process_eoi`. -/
def eoiPin (vector : BitVec 8) (s : Vioapic) (pin : Nat) : Vioapic :=
  let reg := (s.rtbl pin).reg
  if reg &&& ioartRemIrr 64 = 0 then s
  else if reg &&& ioartIntvec 64 ≠ vector.setWidth 64 then s
  else
    let s := (s.setReg pin (reg &&& ~~~ioartRemIrr 64)).emit (.ack pin)
    if (s.rtbl pin).acnt > 0 then vioapicSendIntr s pin else s

def vioapicProcessEoi (s : Vioapic) (vector : BitVec 8) : Vioapic :=
  (List.range redirEntries).foldl (eoiPin vector) s

def vioapicInit : Vioapic where
  id := 0
  ioregsel := 0
  rtbl _ := ⟨0x0001000000010000, 0⟩
  trace := []

/-! ## Runs -/

/-- The I/O APIC, the writes whose lock is dropped, by the vCPU that makes them, and who asserts
each pin. -/
structure State where
  vioapic : Vioapic
  window : Nat → Option Nat
  asserters : Nat → Multiset Nat

inductive Op
  | assertIrq (dev : Nat) (irq : Int)
  | deassertIrq (dev : Nat) (irq : Int)
  | pulseIrq (irq : Int)
  | mmioWrite (vcpuid : Nat) (gpa wval : BitVec 64) (size : Nat)
  /-- The vCPU's rendezvous is over and it has the lock again. -/
  | finishWrite (vcpuid : Nat)
  | processEoi (vector : BitVec 8)
deriving DecidableEq, Repr

def setAsserters (s : State) (v : Vioapic) (pin : Nat) (m : Multiset Nat) : State :=
  { s with vioapic := v, asserters := Function.update s.asserters pin m }

/-- A call with an invalid IRQ changes nothing; a deassert takes back an earlier assert. -/
def next (s : State) : Op → Option State
  | .assertIrq dev irq =>
    match vioapicSetIrqstate s.vioapic irq .assert with
    | none => some s
    | some v => some (setAsserters s v irq.toNat (dev ::ₘ s.asserters irq.toNat))
  | .deassertIrq dev irq =>
    match vioapicSetIrqstate s.vioapic irq .deassert with
    | none => some s
    | some v =>
      if dev ∈ s.asserters irq.toNat then
        some (setAsserters s v irq.toNat ((s.asserters irq.toNat).erase dev))
      else none
  | .pulseIrq irq =>
    match vioapicSetIrqstate s.vioapic irq .pulse with
    | none => some s
    | some v => some { s with vioapic := v }
  | .mmioWrite vcpuid gpa wval size =>
    match s.window vcpuid with
    | some _ => none
    | none =>
      let r := vioapicMmioWrite s.vioapic gpa wval size
      some { s with vioapic := r.1, window := Function.update s.window vcpuid r.2 }
  | .finishWrite vcpuid =>
    match s.window vcpuid with
    | none => none
    | some pin =>
      some { s with
        vioapic := vioapicWriteSend s.vioapic pin
        window := Function.update s.window vcpuid none }
  | .processEoi vector => some { s with vioapic := vioapicProcessEoi s.vioapic vector }

def start : State where
  vioapic := vioapicInit
  window _ := none
  asserters _ := 0

def system : System State Op := System.ofFn (· = start) next

end Xhyve.Vmm.Ioapic
