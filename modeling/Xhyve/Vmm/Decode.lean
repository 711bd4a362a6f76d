import Xhyve.Lib.LittleEndian

/-!
# The instruction decoder

`vmm_decode_instruction` and its phases: prefixes, opcode, ModRM, SIB, displacement,
immediate and memory offset, each reading on from where the last one stopped, and the
cross-check of the decoded address against the one the processor reported.
-/

namespace Xhyve.Vmm.Decode

open Lib

inductive VmReg
  | rax | rbx | rcx | rdx | rsi | rdi | rbp | r8 | r9 | r10 | r11 | r12 | r13 | r14 | r15
  | cr0 | cr3 | cr4 | dr7 | rsp | rip | rflags | es | cs | ss | ds | fs | gs
  | ldtr | tr | idtr | gdtr | efer | cr2 | pdpte0 | pdpte1 | pdpte2 | pdpte3 | intrShadow
deriving DecidableEq, Repr

inductive CpuMode
  | real | protectedMode | compatibility | mode64
deriving DecidableEq, Repr

inductive OpType
  | none | mov | movsx | movzx | and | or | sub | twoByte | push | cmp | pop | movs | group1
  | stos | bittest
deriving DecidableEq, Repr

structure OpFlags where
  imm : Bool
  imm8 : Bool
  moffset : Bool
  noModrm : Bool
  noGlaVerification : Bool
deriving DecidableEq, Repr

structure VieOp where
  opByte : UInt8
  opType : OpType
  opFlags : OpFlags
deriving DecidableEq, Repr

namespace OpFlags

def plain : OpFlags := ⟨false, false, false, false, false⟩
def withImm : OpFlags := { plain with imm := true }
def withImm8 : OpFlags := { plain with imm8 := true }
def withMoffset : OpFlags := { plain with moffset := true, noModrm := true }
def string : OpFlags := { plain with noModrm := true, noGlaVerification := true }

end OpFlags

def twoByteOpcodes (x : UInt8) : VieOp :=
  if x = 0xB6 then ⟨x, .movzx, .plain⟩
  else if x = 0xB7 then ⟨x, .movzx, .plain⟩
  else if x = 0xBA then ⟨x, .bittest, .withImm8⟩
  else if x = 0xBE then ⟨x, .movsx, .plain⟩
  else ⟨0, .none, .plain⟩

def oneByteOpcodes (x : UInt8) : VieOp :=
  if x = 0x0F then ⟨x, .twoByte, .plain⟩
  else if x = 0x2B then ⟨x, .sub, .plain⟩
  else if x = 0x3B then ⟨x, .cmp, .plain⟩
  else if x = 0x88 then ⟨x, .mov, .plain⟩
  else if x = 0x89 then ⟨x, .mov, .plain⟩
  else if x = 0x8A then ⟨x, .mov, .plain⟩
  else if x = 0x8B then ⟨x, .mov, .plain⟩
  else if x = 0xA1 then ⟨x, .mov, .withMoffset⟩
  else if x = 0xA3 then ⟨x, .mov, .withMoffset⟩
  else if x = 0xA4 then ⟨x, .movs, .string⟩
  else if x = 0xA5 then ⟨x, .movs, .string⟩
  else if x = 0xAA then ⟨x, .stos, .string⟩
  else if x = 0xAB then ⟨x, .stos, .string⟩
  else if x = 0xC6 then ⟨x, .mov, .withImm8⟩
  else if x = 0xC7 then ⟨x, .mov, .withImm⟩
  else if x = 0x23 then ⟨x, .and, .plain⟩
  else if x = 0x80 then ⟨x, .group1, .withImm8⟩
  else if x = 0x81 then ⟨x, .group1, .withImm⟩
  else if x = 0x83 then ⟨x, .group1, .withImm8⟩
  else if x = 0x8F then ⟨x, .pop, .plain⟩
  else if x = 0xFF then ⟨x, .push, .plain⟩
  else ⟨0, .none, .plain⟩

def gprMap : List VmReg :=
  [.rax, .rcx, .rdx, .rbx, .rsp, .rbp, .rsi, .rdi, .r8, .r9, .r10, .r11, .r12, .r13, .r14, .r15]

/-- `inst` are the `num_valid` bytes fetched; an absent register is `VM_REG_LAST`. -/
structure Vie where
  inst : List UInt8
  numProcessed : Nat
  addrsize : Nat
  opsize : Nat
  rexW : Bool
  rexR : Bool
  rexX : Bool
  rexB : Bool
  rexPresent : Bool
  repzPresent : Bool
  repnzPresent : Bool
  opsizeOverride : Bool
  addrsizeOverride : Bool
  segmentOverride : Bool
  mod : Nat
  reg : Nat
  rm : Nat
  ss : Nat
  index : Nat
  base : Nat
  dispBytes : Nat
  immBytes : Nat
  scale : Nat
  baseRegister : Option VmReg
  indexRegister : Option VmReg
  segmentRegister : Option VmReg
  displacement : Int
  immediate : Int
  decoded : Bool
  op : VieOp
deriving DecidableEq, Repr

def vieInstSize : Nat := 15

/-- A decode buffer holding `inst` and nothing decoded. -/
def vieInit (inst : List UInt8) : Vie where
  inst := inst
  numProcessed := 0
  addrsize := 0
  opsize := 0
  rexW := false
  rexR := false
  rexX := false
  rexB := false
  rexPresent := false
  repzPresent := false
  repnzPresent := false
  opsizeOverride := false
  addrsizeOverride := false
  segmentOverride := false
  mod := 0
  reg := 0
  rm := 0
  ss := 0
  index := 0
  base := 0
  dispBytes := 0
  immBytes := 0
  scale := 0
  baseRegister := none
  indexRegister := none
  segmentRegister := none
  displacement := 0
  immediate := 0
  decoded := false
  op := ⟨0, .none, .plain⟩

def viePeek (v : Vie) : Option UInt8 := v.inst[v.numProcessed]?

def vieAdvance (v : Vie) : Vie := { v with numProcessed := v.numProcessed + 1 }

/-! ## Prefixes -/

def segmentOverride (x : UInt8) : Option VmReg :=
  if x = 0x2E then some .cs
  else if x = 0x36 then some .ss
  else if x = 0x3E then some .ds
  else if x = 0x26 then some .es
  else if x = 0x64 then some .fs
  else if x = 0x65 then some .gs
  else none

/-- What one prefix byte records, or that `x` is not a prefix. -/
def applyPrefix (x : UInt8) (v : Vie) : Option Vie :=
  if x = 0x66 then some { v with opsizeOverride := true }
  else if x = 0x67 then some { v with addrsizeOverride := true }
  else if x = 0xF3 then some { v with repzPresent := true }
  else if x = 0xF2 then some { v with repnzPresent := true }
  else
    match segmentOverride x with
    | some seg => some { v with segmentRegister := some seg, segmentOverride := true }
    | none => none

/-- The prefix loop, with the byte it stopped at. Every turn consumes a byte, so one turn
more than the buffer holds is never reached. -/
def prefixLoop : Nat → Vie → Option (UInt8 × Vie)
  | 0, _ => none
  | fuel + 1, v =>
    match viePeek v with
    | none => none
    | some x =>
      match applyPrefix x v with
      | some v => prefixLoop fuel (vieAdvance v)
      | none => some (x, v)

def decodeRex (mode : CpuMode) (x : UInt8) (v : Vie) : Vie :=
  if mode = .mode64 ∧ 0x40 ≤ x ∧ x ≤ 0x4F then
    vieAdvance { v with
      rexPresent := true
      rexW := x &&& 0x8 ≠ 0
      rexR := x &&& 0x4 ≠ 0
      rexX := x &&& 0x2 ≠ 0
      rexB := x &&& 0x1 ≠ 0 }
  else v

def decodeSizes (mode : CpuMode) (csD : Bool) (v : Vie) : Vie :=
  if mode = .mode64 then
    { v with
      addrsize := if v.addrsizeOverride then 4 else 8
      opsize := if v.rexW then 8 else if v.opsizeOverride then 2 else 4 }
  else if csD then
    { v with
      addrsize := if v.addrsizeOverride then 2 else 4
      opsize := if v.opsizeOverride then 2 else 4 }
  else
    { v with
      addrsize := if v.addrsizeOverride then 4 else 2
      opsize := if v.opsizeOverride then 4 else 2 }

def decodePrefixes (mode : CpuMode) (csD : Bool) (v : Vie) : Option Vie :=
  (prefixLoop (vieInstSize + 1) v).map fun (x, v) => decodeSizes mode csD (decodeRex mode x v)

/-! ## Opcode -/

def decodeTwoByteOpcode (v : Vie) : Option Vie :=
  match viePeek v with
  | none => none
  | some x =>
    let op := twoByteOpcodes x
    if op.opType = .none then none else some (vieAdvance { v with op := op })

def decodeOpcode (v : Vie) : Option Vie :=
  match viePeek v with
  | none => none
  | some x =>
    let op := oneByteOpcodes x
    if op.opType = .none then none
    else
      let v := vieAdvance { v with op := op }
      if op.opType = .twoByte then decodeTwoByteOpcode v else some v

/-! ## Addressing -/

/-- `field |= bit << 3`. -/
def extend (field : Nat) (bit : Bool) : Nat := field ||| (bit.toNat <<< 3)

/-- The ModRM fields of `x`, with the REX extensions that apply to them. -/
def modrmFields (x : UInt8) (v : Vie) : Vie :=
  let mod := ((x >>> 6) &&& 0x3).toNat
  let rm := (x &&& 0x7).toNat
  let reg := ((x >>> 3) &&& 0x7).toNat
  { v with
    mod := mod
    rm := if mod = 0 ∧ rm = 5 ∨ mod ≠ 3 ∧ rm = 4 then rm else extend rm v.rexB
    reg := extend reg v.rexR }

/-- The base register and displacement of an address without a SIB byte. -/
def modrmAddress (mode : CpuMode) (v : Vie) : Vie :=
  { v with
    baseRegister :=
      if v.mod = 0 ∧ v.rm = 5 then (if mode = .mode64 then some .rip else none)
      else gprMap[v.rm]?
    dispBytes :=
      if v.mod = 1 then 1
      else if v.mod = 2 then 4
      else if v.mod = 0 ∧ v.rm = 5 then 4
      else v.dispBytes }

def decodeModrm (mode : CpuMode) (v : Vie) : Option Vie :=
  if v.op.opFlags.noModrm then some v
  else if mode = .real then none
  else
    match viePeek v with
    | none => none
    | some x =>
      let v := modrmFields x v
      if v.mod = 3 then none
      else if v.rm = 4 then some (vieAdvance v)
      else some (vieAdvance (modrmAddress mode v))

def sibFields (x : UInt8) (v : Vie) : Vie :=
  { v with
    ss := ((x >>> 6) &&& 0x3).toNat
    index := extend ((x >>> 3) &&& 0x7).toNat v.rexX
    base := extend (x &&& 0x7).toNat v.rexB }

/-- With `mod = 0`, base 5 or 13 stands for a displacement alone; index 4 for none. -/
def sibAddress (v : Vie) : Vie :=
  let noBase := v.mod = 0 ∧ (v.base = 5 ∨ v.base = 13)
  let indexRegister := if v.index ≠ 4 then gprMap[v.index]? else v.indexRegister
  { v with
    dispBytes :=
      if noBase then 4 else if v.mod = 1 then 1 else if v.mod = 2 then 4 else v.dispBytes
    baseRegister := if noBase then v.baseRegister else gprMap[v.base]?
    indexRegister := indexRegister
    scale := if indexRegister.isSome then 1 <<< v.ss else v.scale }

def decodeSib (v : Vie) : Option Vie :=
  if v.mod = 3 ∨ v.rm ≠ 4 then some v
  else
    match viePeek v with
    | none => none
    | some x => some (vieAdvance (sibAddress (sibFields x v)))

/-! ## Displacement, immediate and memory offset -/

/-- The next `n` bytes. -/
def takeBytes : Nat → Vie → Option (List UInt8 × Vie)
  | 0, v => some ([], v)
  | n + 1, v =>
    match viePeek v with
    | none => none
    | some x => (takeBytes n (vieAdvance v)).map fun (xs, v) => (x :: xs, v)

def decodeDisplacement (v : Vie) : Option Vie :=
  if v.dispBytes = 0 then some v
  else
    (takeBytes v.dispBytes v).map fun (buf, v) =>
      { v with displacement := LittleEndian.toInt buf }

def immediateSize (v : Vie) : Nat :=
  if v.op.opFlags.imm then (if v.opsize = 4 ∨ v.opsize = 8 then 4 else 2)
  else if v.op.opFlags.imm8 then 1
  else v.immBytes

def decodeImmediate (v : Vie) : Option Vie :=
  let v := { v with immBytes := immediateSize v }
  if v.immBytes = 0 then some v
  else
    (takeBytes v.immBytes v).map fun (buf, v) =>
      { v with immediate := LittleEndian.toInt buf }

/-- `(int64_t) x`. -/
def asInt64 (x : Nat) : Int := Int.bmod x (2 ^ 64)

def decodeMoffset (v : Vie) : Option Vie :=
  if v.op.opFlags.moffset = false then some v
  else
    (takeBytes v.addrsize v).map fun (buf, v) =>
      { v with displacement := asInt64 (LittleEndian.toNat buf) }

/-! ## The whole instruction -/

def decodeFields (mode : CpuMode) (csD : Bool) (v : Vie) : Option Vie :=
  ((((((decodePrefixes mode csD v).bind decodeOpcode).bind (decodeModrm mode)).bind decodeSib).bind
    decodeDisplacement).bind decodeImmediate).bind decodeMoffset

def verifyInstLength (v : Vie) : Bool := v.numProcessed ≠ 0

def size2mask : Nat → Nat
  | 1 => 0xff
  | 2 => 0xffff
  | 4 => 0xffffffff
  | 8 => 0xffffffffffffffff
  | _ => 0

def vieInvalidGla : Nat := 2 ^ 63

/-- The registers as `vm_get_register` returns them, or its error. -/
def verifyGla (vmGetRegister : VmReg → Option Nat) (gla : Nat) (v : Vie) : Bool :=
  if gla = vieInvalidGla then true
  else
    let base :=
      match v.baseRegister with
      | none => some 0
      | some r => (vmGetRegister r).map fun b => if r = .rip then b + v.inst.length else b
    let idx :=
      match v.indexRegister with
      | none => some 0
      | some r => vmGetRegister r
    match base, idx with
    | some base, some idx =>
      gla = ((base + v.scale * idx + v.displacement) % 2 ^ 64).toNat &&& size2mask v.addrsize
    | _, _ => false

def vmmDecodeInstruction (vmGetRegister : VmReg → Option Nat) (gla : Nat) (mode : CpuMode)
    (csD : Bool) (v : Vie) : Option Vie :=
  (decodeFields mode csD v).bind fun v =>
    if verifyInstLength v = false then none
    else if v.op.opFlags.noGlaVerification = false ∧ verifyGla vmGetRegister gla v = false then none
    else some { v with decoded := true }

end Xhyve.Vmm.Decode
