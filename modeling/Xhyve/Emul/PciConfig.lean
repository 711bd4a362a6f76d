import Xhyve.Emul.Inout
import Xhyve.Emul.MemDispatch
import Xhyve.Lib.ByteMemory

/-!
# Guest writes to PCI configuration space

The write half of `pci_cfgrw`: base address registers, the command register, capabilities
and plain registers, down to the registration of decoded ranges with the port table and the
memory registry. The memory registry is the plain one that `mem.c` refines.

The interrupt state behind MSI, MSI-X and the legacy pins is left out: no decision about
address decoding reads it. A write that reaches a failed assertion, or a capability chain
that does not end, has no next state.
-/

namespace Xhyve.Emul.Pci

open Xhyve.Lib Xhyve.Lib.Mem
open Xhyve.Emul.Mem (MemRange)

def pciRegmax : Nat := 255
def pciBarmax : Nat := 5

def pcirCommand : Nat := 0x04
def pcirStatus : Nat := 0x06
def pcirRevid : Nat := 0x08
def pcirBar (x : Nat) : Nat := 0x10 + x * 4

def pcimCmdPorten : Nat := 0x0001
def pcimCmdMemen : Nat := 0x0002
def pcimStatusCappresent : Nat := 0x0010

def pcimBarIoSpace : Nat := 1
def pcimBarMem64 : Nat := 4
def pcimBarMemPrefetch : Nat := 8

def pciyMsi : Nat := 0x05
def pciyExpress : Nat := 0x10
def pciyMsix : Nat := 0x11

def capStartOffset : Nat := 0x40

/-- Pointers that stand for the handlers BARs are registered with. -/
def pciEmulIoHandler : Nat := 1
def pciEmulMemHandler : Nat := 1
def memFRw : Nat := 0x3

inductive BarType
  | none | io | mem32 | mem64 | memhi64
deriving DecidableEq, Repr

structure Bar where
  type : BarType
  size : Nat
  addr : Nat
deriving DecidableEq, Repr

/-- `pe_cfgwrite`: the configuration space after a write the device takes over. A device only
takes over registers of its own, past the standard header. -/
structure CfgWriter where
  run : Nat → Nat → Nat → Mem → Option Mem
  frame : ∀ {coff bytes val m m'}, run coff bytes val m = some m' →
    ∀ a < capStartOffset, m' a = m a

/-- `struct pci_devinst`, as far as configuration writes read it. -/
structure Devinst where
  cfgdata : Mem
  piBar : Nat → Bar
  piCapend : Nat
  peCfgwrite : Option CfgWriter

/-- The functions by the address of their instance, and the two dispatchers. -/
structure Bus where
  devs : Nat → Option Devinst
  inout : Inout.Table
  mem : List MemRange

inductive Abort
  /-- An assertion on a registration or inside one. -/
  | registration
  /-- A capability chain that loops, or the assertion on it. -/
  | capability
deriving DecidableEq, Repr

/-! ## The LPC bridge's own registers -/

/-- `pirq_write` keeps these bits of a routing register, and `pirq_read` returns them. -/
def pirqMask : Nat := 0x80 ||| 0x0f

def pciLpcCfgwrite : CfgWriter where
  run coff bytes val m :=
    if bytes = 1 ∧ (0x60 ≤ coff ∧ coff ≤ 0x63 ∨ 0x68 ≤ coff ∧ coff ≤ 0x6b) then
      some (store 1 m coff (val &&& pirqMask))
    else none
  frame := by
    intro coff bytes val m m' h a ha
    split at h
    · rename_i hc
      cases h
      have hout : ¬ (coff ≤ a ∧ a < coff + 1) := by
        simp only [capStartOffset] at ha
        omega
      exact if_neg hout
    · cases h

/-! ## Registration of one BAR -/

def porten (pi : Devinst) : Bool := load 2 pi.cfgdata pcirCommand &&& pcimCmdPorten ≠ 0
def memen (pi : Devinst) : Bool := load 2 pi.cfgdata pcirCommand &&& pcimCmdMemen ≠ 0

/-- The port range `modify_bar_registration` fills in for the function at `p`, whose name is
an array inside it. -/
def barPort (p : Nat) (b : Bar) (registration : Bool) : Inout.InoutPort :=
  if registration then ⟨p, b.addr, b.size, Inout.ioportFInout, pciEmulIoHandler, p⟩
  else ⟨p, b.addr, b.size, 0, 0, 0⟩

def barRange (p idx : Nat) (b : Bar) (registration : Bool) : MemRange :=
  if registration then ⟨p, memFRw, pciEmulMemHandler, p, idx, b.addr, b.size⟩
  else ⟨p, 0, 0, 0, 0, b.addr, b.size⟩

/-- Registers or unregisters the range of one BAR and asserts that this succeeded. -/
def modifyBarRegistration (s : Bus) (p idx : Nat) (b : Bar) (registration : Bool) :
    Except Abort Bus :=
  match b.type with
  | .io =>
    let iop := barPort p b registration
    let r := if registration then Inout.registerInout s.inout iop
      else Inout.unregisterInout s.inout iop
    match r with
    | some (0, t) => .ok { s with inout := t }
    | _ => .error .registration
  | .mem32 | .mem64 =>
    let mr := barRange p idx b registration
    let r := if registration then some (Mem.Plain.register s.mem mr)
      else Mem.Plain.unregister s.mem mr
    match r with
    | some (.ok, l) => .ok { s with mem := l }
    | _ => .error .registration
  | .none | .memhi64 => .error .registration

def unregisterBar (s : Bus) (p idx : Nat) (b : Bar) : Except Abort Bus :=
  modifyBarRegistration s p idx b false

def registerBar (s : Bus) (p idx : Nat) (b : Bar) : Except Abort Bus :=
  modifyBarRegistration s p idx b true

def Bus.setDev (s : Bus) (p : Nat) (pi : Devinst) : Bus :=
  { s with devs := Function.update s.devs p (some pi) }

@[simp] theorem Bus.setDev_same (s : Bus) (p : Nat) (pi : Devinst) :
    (s.setDev p pi).devs p = some pi := Function.update_self ..

theorem Bus.setDev_ne (s : Bus) {p q : Nat} (pi : Devinst) (h : q ≠ p) :
    (s.setDev p pi).devs q = s.devs q := Function.update_of_ne h ..

def Devinst.setAddr (pi : Devinst) (idx addr : Nat) : Devinst :=
  { pi with piBar := Function.update pi.piBar idx { pi.piBar idx with addr := addr } }

/-- The address `update_bar_address` stores for a write of the given type. -/
def mergeAddr (old addr : Nat) : BarType → Nat
  | .mem64 => (old &&& 0xffffffff00000000) ||| addr
  | .memhi64 => (old &&& 0xffffffff) ||| addr
  | _ => addr

/-- Whether the function decodes the space this BAR lies in. -/
def decode (pi : Devinst) (b : Bar) : Bool := if b.type = .io then porten pi else memen pi

def updateBarAddress (s : Bus) (p : Nat) (pi : Devinst) (addr idx : Nat) (type : BarType) :
    Except Abort (Bus × Devinst) := do
  let s ← if decode pi (pi.piBar idx) then unregisterBar s p idx (pi.piBar idx) else pure s
  let pi' := pi.setAddr idx (mergeAddr (pi.piBar idx).addr addr type)
  let s := s.setDev p pi'
  let s ← if decode pi (pi.piBar idx) then registerBar s p idx (pi'.piBar idx) else pure s
  pure (s, pi')

theorem updateBarAddress_off {s : Bus} {p : Nat} {pi : Devinst} {addr idx : Nat} {type : BarType}
    (hdec : decode pi (pi.piBar idx) = false) :
    let pi' := pi.setAddr idx (mergeAddr (pi.piBar idx).addr addr type)
    updateBarAddress s p pi addr idx type = .ok (s.setDev p pi', pi') := by
  simp only [updateBarAddress, hdec, Bool.false_eq_true, if_false]
  rfl

theorem updateBarAddress_on {s s₁ s₂ : Bus} {p : Nat} {pi : Devinst} {addr idx : Nat}
    {type : BarType} (hdec : decode pi (pi.piBar idx) = true)
    (hun : unregisterBar s p idx (pi.piBar idx) = .ok s₁)
    (hre : registerBar (s₁.setDev p (pi.setAddr idx (mergeAddr (pi.piBar idx).addr addr type))) p
      idx ((pi.setAddr idx (mergeAddr (pi.piBar idx).addr addr type)).piBar idx) = .ok s₂) :
    updateBarAddress s p pi addr idx type =
      .ok (s₂, pi.setAddr idx (mergeAddr (pi.piBar idx).addr addr type)) := by
  simp only [updateBarAddress, hdec, if_true, hun]
  change (registerBar _ _ _ _ >>= _) = _
  rw [hre]
  rfl

/-! ## Configuration registers -/

def cfgwrite (pi : Devinst) (coff val bytes : Nat) : Devinst :=
  { pi with cfgdata := store bytes pi.cfgdata coff val }

def cfgread (pi : Devinst) (coff bytes : Nat) : Nat := load bytes pi.cfgdata coff

/-- `~(size - 1)` in 64 bits. -/
def sizeMask (size : Nat) : Nat := (2 ^ 64 - size) % 2 ^ 64

/-- The address a write of `eax` asks for, and the value the register then shows. -/
def barWritten (pi : Devinst) (idx eax : Nat) : Nat × Nat :=
  let b := pi.piBar idx
  match b.type with
  | .none => (0, 0)
  | .io =>
    let addr := eax &&& sizeMask b.size &&& 0xffff
    (addr, addr ||| pcimBarIoSpace)
  | .mem32 =>
    let addr := eax &&& sizeMask b.size
    (addr, addr)
  | .mem64 =>
    let addr := eax &&& sizeMask b.size
    (addr, addr ||| pcimBarMem64 ||| pcimBarMemPrefetch)
  | .memhi64 =>
    let addr := ((eax <<< 32) % 2 ^ 64) &&& sizeMask (pi.piBar (idx - 1)).size
    (addr, addr >>> 32)

/-- Whether the write moves the BAR. -/
def barMoves (pi : Devinst) (idx eax : Nat) : Bool :=
  let b := pi.piBar idx
  let w := barWritten pi idx eax
  match b.type with
  | .none => false
  | .io | .mem32 => w.1 ≠ b.addr
  | .mem64 => w.1 ≠ b.addr % 2 ^ 32
  | .memhi64 => w.2 ≠ (pi.piBar (idx - 1)).addr >>> 32

/-- The BAR a write to this register moves: the high half belongs to the one before. -/
def barTarget (pi : Devinst) (idx : Nat) : Nat :=
  if (pi.piBar idx).type = .memhi64 then idx - 1 else idx

def barWrite (s : Bus) (p : Nat) (pi : Devinst) (coff eax : Nat) : Except Abort Bus := do
  let idx := (coff - pcirBar 0) / 4
  let w := barWritten pi idx eax
  let r ←
    if (pi.piBar idx).type = .none then pure (s, pi.setAddr idx 0)
    else if barMoves pi idx eax then
      updateBarAddress s p pi w.1 (barTarget pi idx) (pi.piBar idx).type
    else pure (s, pi)
  pure (r.1.setDev p (cfgwrite r.2 coff w.2 4))

/-- One turn of the loop of `pci_emul_cmdsts_write`. -/
def cmdstsBar (s : Bus) (p : Nat) (pi : Devinst) (changed i : Nat) : Except Abort Bus :=
  let b := pi.piBar i
  match b.type with
  | .none | .memhi64 => .ok s
  | .io =>
    if changed &&& pcimCmdPorten ≠ 0 then
      if porten pi then registerBar s p i b else unregisterBar s p i b
    else .ok s
  | .mem32 | .mem64 =>
    if changed &&& pcimCmdMemen ≠ 0 then
      if memen pi then registerBar s p i b else unregisterBar s p i b
    else .ok s

/-- The command and status registers after a write, read-only bits kept. -/
def cmdstsWritten (pi : Devinst) (coff new bytes : Nat) : Devinst :=
  let readonly := 0xFFFFF880 >>> ((coff &&& 0x3) * 8)
  let old := cfgread pi coff bytes
  cfgwrite pi coff ((new &&& (0xffffffff ^^^ readonly)) ||| (old &&& readonly)) bytes

def pciEmulCmdstsWrite (s : Bus) (p : Nat) (pi : Devinst) (coff new bytes : Nat) :
    Except Abort Bus :=
  let pi' := cmdstsWritten pi coff new bytes
  let changed := load 2 pi.cfgdata pcirCommand ^^^ load 2 pi'.cfgdata pcirCommand
  (List.range (pciBarmax + 1)).foldlM (fun s i => cmdstsBar s p pi' changed i) (s.setDev p pi')

def pciEmulIscap (pi : Devinst) (offset : Nat) : Bool :=
  load 2 pi.cfgdata pcirStatus &&& pcimStatusCappresent ≠ 0 ∧
    capStartOffset ≤ offset ∧ offset ≤ pi.piCapend

/-- The walk down the capability chain. There are 256 places a link can point to, so a walk
that is longer than that does not end. -/
def capFind (cfg : Mem) (offset : Nat) : Nat → Nat → Option Nat
  | 0, _ => none
  | fuel + 1, capoff =>
    let nextoff := load 1 cfg (capoff + 1)
    if nextoff = 0 then some capoff
    else if capoff ≤ offset ∧ offset < nextoff then some capoff
    else capFind cfg offset fuel nextoff

/-- The value a capability lets through to its register. -/
def capMerge (pi : Devinst) (capid off offset bytes val : Nat) : Option Nat :=
  let merge (rwmask : Nat) : Nat :=
    if off = 2 ∧ bytes = 2 then
      (load 2 pi.cfgdata offset &&& (0xffff ^^^ rwmask)) ||| (val &&& rwmask)
    else val
  if capid = pciyMsi then some (merge (0x0070 ||| 0x0001))
  else if capid = pciyMsix then some (merge (0x8000 ||| 0x4000))
  else if capid = pciyExpress then some val
  else none

def pciEmulCapwrite (pi : Devinst) (offset bytes val : Nat) : Except Abort Devinst :=
  if offset % bytes ≠ 0 then .ok pi
  else match capFind pi.cfgdata offset 256 capStartOffset with
  | none => .error .capability
  | some capoff =>
    if offset < capoff then .error .capability
    else if (offset = capoff ∨ offset = capoff + 1) ∧ ¬ (offset = capoff ∧ bytes = 4) then .ok pi
    else
      -- identifier and link are read-only: a 4-byte write is trimmed to its upper half
      let trim := offset = capoff
      let offset := if trim then offset + 2 else offset
      let bytes := if trim then 2 else bytes
      let val := if trim then val >>> 16 else val
      match capMerge pi (load 1 pi.cfgdata capoff) (offset - capoff) offset bytes val with
      | some val => .ok (cfgwrite pi offset val bytes)
      | none => .ok pi

/-! ## `pci_cfgrw` -/

structure CfgWrite where
  bus : Nat
  slot : Nat
  func : Nat
  coff : Nat
  bytes : Nat
  eax : BitVec 32
deriving DecidableEq, Repr

def CfgWrite.aligned (w : CfgWrite) : Bool :=
  (w.bytes = 1 ∨ w.bytes = 2 ∨ w.bytes = 4) ∧ w.coff % w.bytes = 0

/-- A write to a register of a function that exists. -/
def cfgwriteDev (s : Bus) (p : Nat) (pi : Devinst) (w : CfgWrite) : Except Abort Bus :=
  if !w.aligned ∨ pciRegmax + 1 ≤ w.coff then .ok s
  else
    match pi.peCfgwrite.bind fun f => f.run w.coff w.bytes w.eax.toNat pi.cfgdata with
    | some cfg => .ok (s.setDev p { pi with cfgdata := cfg })
    | none =>
      if pcirBar 0 ≤ w.coff ∧ w.coff < pcirBar (pciBarmax + 1) then
        if w.bytes ≠ 4 ∨ w.coff % 4 ≠ 0 then .ok s
        else barWrite s p pi w.coff w.eax.toNat
      else if pciEmulIscap pi w.coff then
        (pciEmulCapwrite pi w.coff w.bytes w.eax.toNat).map fun pi => s.setDev p pi
      else if pcirCommand ≤ w.coff ∧ w.coff < pcirRevid then
        pciEmulCmdstsWrite s p pi w.coff w.eax.toNat w.bytes
      else .ok (s.setDev p (cfgwrite pi w.coff w.eax.toNat w.bytes))

/-- The write half of `pci_cfgrw`; `fiDevi` finds the function at a bus, slot and function. -/
def pciCfgrw (fiDevi : Nat → Nat → Nat → Option Nat) (s : Bus) (w : CfgWrite) :
    Except Abort Bus :=
  match fiDevi w.bus w.slot w.func with
  | none => .ok s
  | some p =>
    match s.devs p with
    | none => .ok s
    | some pi => cfgwriteDev s p pi w

end Xhyve.Emul.Pci
