import Mathlib.Logic.Function.Basic
import Mathlib.Tactic

/-!
# The I/O port table

`register_inout` and `unregister_inout` over the table of port handlers. A port nobody has
claimed carries the default handler and its flag.
-/

namespace Xhyve.Emul.Inout

def maxIoports : Nat := 1 <<< 16

def ioportFInout : Nat := 0x3
def ioportFDefault : Nat := 0x80000000

/-- Pointers that stand for the default handler and the text `"default"`. -/
def defaultInout : Nat := 0
def defaultName : Nat := 0

/-- One slot of `inout_handlers`. -/
structure Handler where
  name : Nat
  flags : Nat
  handler : Nat
  arg : Nat
deriving DecidableEq, Repr

/-- `struct inout_port`. -/
structure InoutPort where
  name : Nat
  port : Nat
  size : Nat
  flags : Nat
  handler : Nat
  arg : Nat
deriving DecidableEq, Repr

abbrev Table := Nat → Handler

def Handler.isDefault (h : Handler) : Bool := h.flags &&& ioportFDefault ≠ 0

/-- `VERIFY_IOPORT`, with the bounds of an `int` that is not negative. -/
def verifyIoport (port size : Nat) : Bool := 0 < size ∧ port + size ≤ maxIoports

def InoutPort.entry (iop : InoutPort) : Handler := ⟨iop.name, iop.flags, iop.handler, iop.arg⟩

/-- `none` when an assertion fails; otherwise the return value and the table. -/
def registerInout (t : Table) (iop : InoutPort) : Option (Int × Table) :=
  if !verifyIoport iop.port iop.size then none
  else if iop.flags &&& ioportFDefault = 0 ∧
      (List.range' iop.port iop.size).any (fun i => !(t i).isDefault) then some (-1, t)
  else
    some (0, (List.range' iop.port iop.size).foldl (fun t i => Function.update t i iop.entry) t)

def defaultIop (start size : Nat) : InoutPort :=
  ⟨defaultName, start, size, ioportFInout ||| ioportFDefault, defaultInout, 0⟩

def registerDefaultIohandler (t : Table) (start size : Nat) : Option Table :=
  (registerInout t (defaultIop start size)).map Prod.snd

def unregisterInout (t : Table) (iop : InoutPort) : Option (Int × Table) :=
  if !verifyIoport iop.port iop.size then none
  else if (t iop.port).name ≠ iop.name then none
  else (registerDefaultIohandler t iop.port iop.size).map fun t => (0, t)

/-! ## What the calls do to the table -/

/-- The table with one handler at every port of a range. -/
def claim (t : Table) (port size : Nat) (h : Handler) : Table := fun p =>
  if port ≤ p ∧ p < port + size then h else t p

theorem foldl_update (t : Table) (port size : Nat) (h : Handler) :
    (List.range' port size).foldl (fun t i => Function.update t i h) t = claim t port size h := by
  induction size generalizing t port with
  | zero =>
    funext p
    simp [claim]
  | succ size ih =>
    rw [List.range'_succ, List.foldl_cons, ih]
    funext p
    by_cases hp : p = port
    · subst hp
      simp [claim]
    · simp only [claim, Function.update_of_ne hp]
      congr 1
      simp only [eq_iff_iff]
      omega

/-- A range whose ports are all unclaimed is registered. -/
theorem registerInout_of_default {t : Table} {iop : InoutPort}
    (hv : verifyIoport iop.port iop.size = true)
    (hd : ∀ p, iop.port ≤ p → p < iop.port + iop.size → (t p).isDefault = true) :
    registerInout t iop = some (0, claim t iop.port iop.size iop.entry) := by
  have hany : (List.range' iop.port iop.size).any (fun i => !(t i).isDefault) = false := by
    rw [List.any_eq_false]
    intro p hp
    rw [List.mem_range'_1] at hp
    simp [hd p hp.1 hp.2]
  simp [registerInout, hv, hany, foldl_update]

/-- A range is given back to the default handler by whoever holds its first port. -/
theorem unregisterInout_of_name {t : Table} {iop : InoutPort}
    (hv : verifyIoport iop.port iop.size = true) (hname : (t iop.port).name = iop.name) :
    unregisterInout t iop = some (0, claim t iop.port iop.size (defaultIop 0 0).entry) := by
  have hreg : registerDefaultIohandler t iop.port iop.size =
      some (claim t iop.port iop.size (defaultIop 0 0).entry) := by
    have hflags : ¬ (ioportFInout ||| ioportFDefault) &&& ioportFDefault = 0 := by decide
    simp [registerDefaultIohandler, registerInout, defaultIop, hv, hflags, foldl_update,
      InoutPort.entry]
  simp [unregisterInout, hv, hname, hreg]

end Xhyve.Emul.Inout
