import Xhyve.Emul.PciRanges

/-!
# Guest accesses to memory BARs

`emulate_mem` finds a range by the first byte of an access and calls its handler, and the
handler of BARs asserts that the last byte is inside as well. What is delivered to the device
is stated with a device that keeps a record of its calls.

An access is made at the address it was looked up by. `movs` between two ranges, which calls
one range's handler with an address of the other, is not among them.
-/

namespace Xhyve.Emul.Pci

open Xhyve.Lib
open Xhyve.Emul.Mem (MemRange)

inductive Dir
  | read | write
deriving DecidableEq, Repr

/-- The entry points of `struct pci_devemu` for BARs, on the state of all devices. The
arguments are the vCPU, the function, the BAR, the offset, the size and the value. -/
structure Devemu (δ : Type) where
  peBarwrite : δ → Nat → Nat → Nat → Nat → Nat → Nat → δ
  peBarread : δ → Nat → Nat → Nat → Nat → Nat → Nat × δ

inductive Fault
  /-- No range contains the address. -/
  | esrch
  /-- An assertion fails. -/
  | abort
deriving DecidableEq, Repr

section Code
variable {δ : Type}

/-- The assertions of `pci_emul_mem_handler`, in 64-bit arithmetic. -/
def memHandlerAsserts (pi : Devinst) (addr size : Nat) (arg2 : Int) : Bool :=
  let b := pi.piBar arg2.toNat
  arg2 ≤ pciBarmax ∧ (b.type = .mem32 ∨ b.type = .mem64) ∧
    b.addr ≤ addr ∧ (addr + size) % 2 ^ 64 ≤ (b.addr + b.size) % 2 ^ 64

/-- `pci_emul_mem_handler`, with the value it leaves behind. -/
def emulMemHandler (pe : Devemu δ) (pi : Devinst) (d : δ) (vcpu : Nat) (dir : Dir)
    (addr size val arg1 : Nat) (arg2 : Int) : Except Fault (Nat × δ) :=
  if memHandlerAsserts pi addr size arg2 then
    let bidx := arg2.toNat
    let offset := addr - (pi.piBar bidx).addr
    match dir with
    | .write =>
      if size = 8 then
        let d := pe.peBarwrite d vcpu arg1 bidx offset 4 (val &&& 0xffffffff)
        .ok (val, pe.peBarwrite d vcpu arg1 bidx (offset + 4) 4 (val >>> 32))
      else .ok (val, pe.peBarwrite d vcpu arg1 bidx offset size val)
    | .read =>
      if size = 8 then
        let lo := pe.peBarread d vcpu arg1 bidx offset 4
        let hi := pe.peBarread lo.2 vcpu arg1 bidx (offset + 4) 4
        .ok (lo.1 ||| (hi.1 <<< 32) % 2 ^ 64, hi.2)
      else .ok (pe.peBarread d vcpu arg1 bidx offset size)
  else .error .abort

end Code

/-! ## What reaches the device -/

/-- One call of `pe_barread` or `pe_barwrite`. -/
structure Piece where
  pi : Nat
  baridx : Nat
  offset : Nat
  size : Nat
deriving DecidableEq, Repr

/-- The device, keeping a record of the calls it gets. -/
def Devemu.recorded {δ : Type} (pe : Devemu δ) : Devemu (δ × List Piece) where
  peBarwrite d vcpu pi baridx offset size val :=
    (pe.peBarwrite d.1 vcpu pi baridx offset size val, d.2 ++ [⟨pi, baridx, offset, size⟩])
  peBarread d vcpu pi baridx offset size :=
    let r := pe.peBarread d.1 vcpu pi baridx offset size
    (r.1, r.2, d.2 ++ [⟨pi, baridx, offset, size⟩])

/-- The guest addresses a piece covers. -/
def Piece.bytes (s : Bus) (c : Piece) : List Nat :=
  match s.devs c.pi with
  | some pi => List.range' ((pi.piBar c.baridx).addr + c.offset) c.size
  | none => []

/-- The access ends inside the range. A range that reaches the end of the address space has an
end the assertion reads as 0, and only its very last bytes are admitted. -/
def Fits (mr : MemRange) (paddr size : Nat) : Prop :=
  paddr + size ≤ mr.base + mr.size ∧ (mr.base + mr.size < 2 ^ 64 ∨ paddr + size = 2 ^ 64)

section Delivery
variable {s : Bus} {p i : Nat} {pi : Devinst} {paddr size : Nat}

end Delivery

section Straddle

end Straddle

end Xhyve.Emul.Pci
