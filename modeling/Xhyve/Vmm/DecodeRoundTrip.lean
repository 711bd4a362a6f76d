import Xhyve.Vmm.DecodeStream

/-!
# Decoding inverts encoding

The instructions of 64-bit mode the decoder knows, written out from prefixes to
immediate, and what each of them means. Decoding an encoding followed by anything
recovers that meaning and its length; decoding a part of it fails.
-/

namespace Xhyve.Vmm.Decode

open Lib

/-! ## Encodings -/

inductive Segment
  | cs | ss | ds | es | fs | gs
deriving DecidableEq, Repr

def Segment.reg : Segment → VmReg
  | cs => .cs | ss => .ss | ds => .ds | es => .es | fs => .fs | gs => .gs

inductive LegacyPrefix
  | opsize | addrsize | repz | repnz
  | segment (seg : Segment)
deriving DecidableEq, Repr

def LegacyPrefix.byte : LegacyPrefix → UInt8
  | opsize => 0x66
  | addrsize => 0x67
  | repz => 0xF3
  | repnz => 0xF2
  | segment .cs => 0x2E
  | segment .ss => 0x36
  | segment .ds => 0x3E
  | segment .es => 0x26
  | segment .fs => 0x64
  | segment .gs => 0x65

def LegacyPrefix.segmentReg : LegacyPrefix → Option VmReg
  | segment seg => some seg.reg
  | _ => none

structure Rex where
  w : Bool
  r : Bool
  x : Bool
  b : Bool
deriving DecidableEq, Repr

def Rex.byte (rex : Rex) : UInt8 :=
  UInt8.ofNat (0x40 + 8 * rex.w.toNat + 4 * rex.r.toNat + 2 * rex.x.toNat + rex.b.toNat)

inductive Opcode
  | one (x : UInt8)
  | two (x : UInt8)
deriving DecidableEq, Repr

def Opcode.bytes : Opcode → List UInt8
  | one x => [x]
  | two x => [0x0F, x]

def Opcode.entry : Opcode → VieOp
  | one x => oneByteOpcodes x
  | two x => twoByteOpcodes x

/-- An entry of the tables that stands for an instruction. -/
def Opcode.Known (op : Opcode) : Prop := op.entry.opType ≠ .none ∧ op.entry.opType ≠ .twoByte

instance (op : Opcode) : Decidable op.Known := inferInstanceAs (Decidable (_ ∧ _))

structure Modrm where
  mod : Fin 4
  reg : Fin 8
  rm : Fin 8
deriving DecidableEq, Repr

def Modrm.byte (m : Modrm) : UInt8 := UInt8.ofNat (64 * m.mod + 8 * m.reg + m.rm)

structure Sib where
  ss : Fin 4
  index : Fin 8
  base : Fin 8
deriving DecidableEq, Repr

def Sib.byte (s : Sib) : UInt8 := UInt8.ofNat (64 * s.ss + 8 * s.index + s.base)

/-- The parts of an instruction; those its opcode does not call for are not encoded. -/
structure Insn where
  prefixes : List LegacyPrefix
  rex : Option Rex
  opcode : Opcode
  modrm : Modrm
  sib : Sib
  disp : Int
  imm : Int
  moffset : Nat

namespace Insn

def rexBits (i : Insn) : Rex := i.rex.getD ⟨false, false, false, false⟩

def hasModrm (i : Insn) : Bool := !i.opcode.entry.opFlags.noModrm

/-- A memory operand whose ModRM byte announces a SIB byte. -/
def hasSib (i : Insn) : Bool := i.hasModrm && i.modrm.mod ≠ 3 && i.modrm.rm = 4

/-- A displacement without a base register. -/
def dispOnly (i : Insn) : Bool :=
  i.modrm.mod = 0 && (i.modrm.rm = 5 || (i.modrm.rm = 4 && i.sib.base = 5))

def dispSize (i : Insn) : Nat :=
  if i.hasModrm = false then 0
  else if i.modrm.mod = 1 then 1
  else if i.modrm.mod = 2 ∨ i.dispOnly then 4
  else 0

def opsize (i : Insn) : Nat :=
  if i.rexBits.w then 8 else if .opsize ∈ i.prefixes then 2 else 4

def addrsize (i : Insn) : Nat := if .addrsize ∈ i.prefixes then 4 else 8

def immSize (i : Insn) : Nat :=
  if i.opcode.entry.opFlags.imm then (if i.opsize = 2 then 2 else 4)
  else if i.opcode.entry.opFlags.imm8 then 1
  else 0

def moffsetSize (i : Insn) : Nat := if i.opcode.entry.opFlags.moffset then i.addrsize else 0

/-- The displacement and immediate bytes, and the memory offset. -/
def tail (i : Insn) : List UInt8 :=
  LittleEndian.ofInt i.dispSize i.disp ++ LittleEndian.ofInt i.immSize i.imm ++
    LittleEndian.bytes i.moffsetSize i.moffset

def encode (i : Insn) : List UInt8 :=
  i.prefixes.map LegacyPrefix.byte ++ (i.rex.toList.map Rex.byte ++ (i.opcode.bytes ++
    ((if i.hasModrm then [i.modrm.byte] else []) ++
      ((if i.hasSib then [i.sib.byte] else []) ++ i.tail))))

/-- The opcode is in the tables and every number fits its field. -/
structure Encodable (i : Insn) : Prop where
  known : i.opcode.Known
  disp : LittleEndian.Fits i.dispSize i.disp
  imm : LittleEndian.Fits i.immSize i.imm
  moffset : i.moffset < 256 ^ i.moffsetSize

/-- The operand is in memory: `mod = 3` names a register. -/
def Memory (i : Insn) : Prop := i.hasModrm = true → i.modrm.mod ≠ 3

/-! ## Meaning -/

/-- A three-bit register field with its REX extension. -/
def wide (field : Fin 8) (bit : Bool) : Nat := field + 8 * bit.toNat

/-- The register field `rm`; the values that select an addressing form are not extended. -/
def rmField (i : Insn) : Nat :=
  if i.modrm.rm = 4 ∨ i.modrm.mod = 0 ∧ i.modrm.rm = 5 then i.modrm.rm
  else wide i.modrm.rm i.rexBits.b

def baseReg (i : Insn) : Option VmReg :=
  if i.hasModrm = false then none
  else if i.modrm.rm = 4 then
    (if i.dispOnly then none else gprMap[wide i.sib.base i.rexBits.b]?)
  else if i.dispOnly then some .rip
  else gprMap[wide i.modrm.rm i.rexBits.b]?

/-- Index 4 stands for none, unless extended to r12. -/
def indexReg (i : Insn) : Option VmReg :=
  if i.hasSib ∧ wide i.sib.index i.rexBits.x ≠ 4 then gprMap[wide i.sib.index i.rexBits.x]?
  else none

/-- What decoding the instruction followed by `rest` has to recover. -/
def meaning (i : Insn) (rest : List UInt8) : Vie where
  inst := i.encode ++ rest
  numProcessed := i.encode.length
  addrsize := i.addrsize
  opsize := i.opsize
  rexW := i.rexBits.w
  rexR := i.rexBits.r
  rexX := i.rexBits.x
  rexB := i.rexBits.b
  rexPresent := i.rex.isSome
  repzPresent := .repz ∈ i.prefixes
  repnzPresent := .repnz ∈ i.prefixes
  opsizeOverride := .opsize ∈ i.prefixes
  addrsizeOverride := .addrsize ∈ i.prefixes
  segmentOverride := (i.prefixes.filterMap LegacyPrefix.segmentReg).isEmpty = false
  mod := if i.hasModrm then i.modrm.mod else 0
  reg := if i.hasModrm then wide i.modrm.reg i.rexBits.r else 0
  rm := if i.hasModrm then i.rmField else 0
  ss := if i.hasSib then i.sib.ss else 0
  index := if i.hasSib then wide i.sib.index i.rexBits.x else 0
  base := if i.hasSib then wide i.sib.base i.rexBits.b else 0
  dispBytes := i.dispSize
  immBytes := i.immSize
  scale := if i.indexReg.isSome then 2 ^ i.sib.ss.val else 0
  baseRegister := i.baseReg
  indexRegister := i.indexReg
  segmentRegister := (i.prefixes.filterMap LegacyPrefix.segmentReg).getLast?
  displacement := if i.opcode.entry.opFlags.moffset then asInt64 i.moffset else i.disp
  immediate := i.imm
  decoded := false
  op := i.opcode.entry

end Insn

/-! ## The phases on an encoding -/

/-- The bytes still to be read. -/
def Vie.rest (v : Vie) : List UInt8 := v.inst.drop v.numProcessed

theorem viePeek_of_rest {v : Vie} {x : UInt8} {r : List UInt8} (h : v.rest = x :: r) :
    viePeek v = some x := by
  rw [viePeek, ← List.head?_drop]
  exact congrArg List.head? h

theorem rest_of_advanced {v w : Vie} {a r : List UInt8} (h : v.rest = a ++ r)
    (hi : w.inst = v.inst) (hn : w.numProcessed = v.numProcessed + a.length) : w.rest = r := by
  rw [Vie.rest, hi, hn, ← List.drop_drop]
  exact (congrArg (List.drop a.length) h).trans (List.drop_left ..)

def Vie.skip (v : Vie) (n : Nat) : Vie := { v with numProcessed := v.numProcessed + n }

theorem skip_skip (v : Vie) (m n : Nat) : (v.skip m).skip n = v.skip (m + n) := by
  simp only [Vie.skip, Nat.add_assoc]

theorem skip_of_eq_zero (v : Vie) {n : Nat} (h : n = 0) : v.skip n = v := by
  subst h
  rfl

theorem takeBytes_of_rest {bs r : List UInt8} {v : Vie} (h : v.rest = bs ++ r) :
    takeBytes bs.length v = some (bs, v.skip bs.length) := by
  induction bs generalizing v with
  | nil => rfl
  | cons x bs ih =>
    have hrest : (v.skip 1).rest = bs ++ r := rest_of_advanced (a := [x]) h rfl rfl
    rw [List.length_cons, takeBytes, viePeek_of_rest h]
    simp only [show vieAdvance v = v.skip 1 from rfl, ih hrest, Option.map_some, skip_skip,
      Nat.add_comm 1]

/-- What a list of prefixes adds to a buffer they start. -/
def Vie.withPrefixes (v : Vie) (ps : List LegacyPrefix) : Vie :=
  { v with
    numProcessed := v.numProcessed + ps.length
    repzPresent := v.repzPresent || .repz ∈ ps
    repnzPresent := v.repnzPresent || .repnz ∈ ps
    opsizeOverride := v.opsizeOverride || .opsize ∈ ps
    addrsizeOverride := v.addrsizeOverride || .addrsize ∈ ps
    segmentOverride := v.segmentOverride || (ps.filterMap LegacyPrefix.segmentReg).isEmpty = false
    segmentRegister := ((ps.filterMap LegacyPrefix.segmentReg).getLast?).or v.segmentRegister }

theorem applyPrefix_byte (p : LegacyPrefix) (v : Vie) :
    (applyPrefix p.byte v).map vieAdvance = some (v.withPrefixes [p]) := by
  cases p with
  | segment seg => cases seg <;> simp [applyPrefix, LegacyPrefix.byte, segmentOverride,
      Vie.withPrefixes, LegacyPrefix.segmentReg, vieAdvance, Segment.reg]
  | _ =>
    simp [applyPrefix, LegacyPrefix.byte, Vie.withPrefixes, LegacyPrefix.segmentReg, vieAdvance]

theorem withPrefixes_cons (v : Vie) (p : LegacyPrefix) (ps : List LegacyPrefix) :
    (v.withPrefixes [p]).withPrefixes ps = v.withPrefixes (p :: ps) := by
  have hmem : ∀ q : LegacyPrefix, decide (q ∈ p :: ps) = (decide (q ∈ [p]) || decide (q ∈ ps)) := by
    intro q
    simp [Bool.decide_or]
  have hseg : (p :: ps).filterMap LegacyPrefix.segmentReg =
      [p].filterMap LegacyPrefix.segmentReg ++ ps.filterMap LegacyPrefix.segmentReg :=
    List.filterMap_append (l := [p])
  simp only [Vie.withPrefixes, hmem, hseg, Bool.or_assoc, List.length_cons, List.length_nil,
    Nat.add_assoc, Nat.add_comm 1, Nat.zero_add, Vie.mk.injEq, true_and, and_true]
  refine ⟨?_, ?_⟩
  · cases [p].filterMap LegacyPrefix.segmentReg <;> simp
  · rw [List.getLast?_append, Option.or_assoc]

theorem prefixLoop_encode {ps : List LegacyPrefix} {x : UInt8} {r : List UInt8} {v : Vie}
    {fuel : Nat} (h : v.rest = ps.map LegacyPrefix.byte ++ x :: r)
    (hx : ∀ v, applyPrefix x v = none) (hf : ps.length < fuel) :
    prefixLoop fuel v = some (x, v.withPrefixes ps) := by
  induction ps generalizing v fuel with
  | nil =>
    obtain ⟨fuel, rfl⟩ : ∃ f, fuel = f + 1 := ⟨fuel - 1, by simp at hf; omega⟩
    have hnil : v.withPrefixes [] = v := by simp [Vie.withPrefixes]
    rw [prefixLoop, viePeek_of_rest h, hnil]
    simp only [hx]
  | cons p ps ih =>
    obtain ⟨fuel, rfl⟩ : ∃ f, fuel = f + 1 := ⟨fuel - 1, by simp at hf; omega⟩
    obtain ⟨u, hu, hadv⟩ := Option.map_eq_some_iff.mp (applyPrefix_byte p v)
    have hrest : (v.withPrefixes [p]).rest = ps.map LegacyPrefix.byte ++ x :: r :=
      rest_of_advanced (a := [p.byte]) h rfl rfl
    rw [prefixLoop, viePeek_of_rest h]
    simp only [hu, hadv]
    rw [ih hrest (by simpa using hf), withPrefixes_cons]

theorem decodeRex_byte (rex : Rex) (v : Vie) :
    decodeRex .mode64 rex.byte v =
      { v with
        numProcessed := v.numProcessed + 1
        rexPresent := true
        rexW := rex.w
        rexR := rex.r
        rexX := rex.x
        rexB := rex.b } := by
  obtain ⟨w, r, x, b⟩ := rex
  cases w <;> cases r <;> cases x <;> cases b <;> rfl

theorem applyPrefix_rex (rex : Rex) (v : Vie) : applyPrefix rex.byte v = none := by
  obtain ⟨w, r, x, b⟩ := rex
  cases w <;> cases r <;> cases x <;> cases b <;> rfl

/-- A byte that is neither a prefix nor a REX byte. -/
def plainByte (x : UInt8) : Bool :=
  x ≠ 0x66 && x ≠ 0x67 && x ≠ 0xF3 && x ≠ 0xF2 && (segmentOverride x).isNone &&
    !(0x40 ≤ x && x ≤ 0x4F)

theorem plainByte_spec {x : UInt8} (h : plainByte x = true) :
    (∀ v, applyPrefix x v = none) ∧ ∀ v, decodeRex .mode64 x v = v := by
  simp only [plainByte, Bool.and_eq_true, decide_eq_true_eq, ne_eq, Option.isNone_iff_eq_none,
    Bool.not_eq_true', Bool.and_eq_false_iff, decide_eq_false_iff_not] at h
  obtain ⟨⟨⟨⟨⟨h1, h2⟩, h3⟩, h4⟩, h5⟩, h6⟩ := h
  constructor
  · intro v
    simp only [applyPrefix, if_neg h1, if_neg h2, if_neg h3, if_neg h4, h5]
  · intro v
    rw [decodeRex, if_neg]
    rintro ⟨-, hlo, hhi⟩
    rcases h6 with h6 | h6
    · exact h6 hlo
    · exact h6 hhi

/-- No opcode of the table is a prefix or a REX byte. -/
theorem oneByteOpcodes_plain {x : UInt8} (h : (oneByteOpcodes x).opType ≠ .none) :
    plainByte x = true := by
  have hall : ∀ n : Fin 256, (oneByteOpcodes (UInt8.ofNat n)).opType ≠ .none →
      plainByte (UInt8.ofNat n) = true := by decide +kernel
  have hx := hall ⟨x.toNat, x.toNat_lt⟩
  rw [UInt8.ofNat_toNat] at hx
  exact hx h

/-- The first byte after the prefixes and REX. -/
theorem Opcode.Known.first {op : Opcode} (h : op.Known) : ∃ x r, op.bytes = x :: r ∧
    (∀ v, applyPrefix x v = none) ∧ ∀ v, decodeRex .mode64 x v = v := by
  cases op with
  | one x => exact ⟨x, [], rfl, plainByte_spec (oneByteOpcodes_plain h.1)⟩
  | two x => exact ⟨0x0F, [x], rfl, plainByte_spec (by decide)⟩

namespace Insn

/-- The buffer once prefixes and REX are read. -/
def prefixed (i : Insn) (rest : List UInt8) : Vie :=
  { vieInit (i.encode ++ rest) with
    numProcessed := i.prefixes.length + i.rex.toList.length
    addrsize := i.addrsize
    opsize := i.opsize
    rexW := i.rexBits.w
    rexR := i.rexBits.r
    rexX := i.rexBits.x
    rexB := i.rexBits.b
    rexPresent := i.rex.isSome
    repzPresent := .repz ∈ i.prefixes
    repnzPresent := .repnz ∈ i.prefixes
    opsizeOverride := .opsize ∈ i.prefixes
    addrsizeOverride := .addrsize ∈ i.prefixes
    segmentOverride := (i.prefixes.filterMap LegacyPrefix.segmentReg).isEmpty = false
    segmentRegister := (i.prefixes.filterMap LegacyPrefix.segmentReg).getLast? }

variable {i : Insn}

theorem decodePrefixes_encode (h : i.Encodable) (rest : List UInt8)
    (hlen : i.encode.length ≤ vieInstSize) :
    decodePrefixes .mode64 false (vieInit (i.encode ++ rest)) = some (i.prefixed rest) := by
  obtain ⟨x, r, hop, hx, hrex⟩ := h.known.first
  have hps : i.prefixes.length < vieInstSize + 1 := by
    rw [encode, List.length_append, List.length_map] at hlen
    omega
  have hor : ∀ o : Option VmReg, o.or none = o := fun o => by cases o <;> rfl
  cases hr : i.rex with
  | none =>
    have hrest : (vieInit (i.encode ++ rest)).rest = i.prefixes.map LegacyPrefix.byte ++ x :: (r ++
        (((if i.hasModrm then [i.modrm.byte] else []) ++
          ((if i.hasSib then [i.sib.byte] else []) ++ i.tail)) ++ rest)) := by
      simp [Vie.rest, vieInit, encode, hr, hop]
    rw [decodePrefixes, prefixLoop_encode hrest hx hps, Option.map_some]
    simp only [hrex]
    simp [decodeSizes, Vie.withPrefixes, prefixed, addrsize, opsize, rexBits, hr, hor, vieInit]
  | some rex =>
    have hrest : (vieInit (i.encode ++ rest)).rest = i.prefixes.map LegacyPrefix.byte ++
        rex.byte :: (i.opcode.bytes ++ (((if i.hasModrm then [i.modrm.byte] else []) ++
          ((if i.hasSib then [i.sib.byte] else []) ++ i.tail)) ++ rest)) := by
      simp [Vie.rest, vieInit, encode, hr]
    rw [decodePrefixes, prefixLoop_encode hrest (applyPrefix_rex rex) hps, Option.map_some]
    simp only [decodeRex_byte]
    simp [decodeSizes, Vie.withPrefixes, prefixed, addrsize, opsize, rexBits, hr, hor, vieInit]

end Insn

theorem decodeOpcode_encode {op : Opcode} (h : op.Known) {v : Vie} {r : List UInt8}
    (hr : v.rest = op.bytes ++ r) :
    decodeOpcode v = some ({ v with op := op.entry }.skip op.bytes.length) := by
  cases op with
  | one x =>
    have h1 : (oneByteOpcodes x).opType ≠ .none := h.1
    have h2 : (oneByteOpcodes x).opType ≠ .twoByte := h.2
    rw [decodeOpcode, viePeek_of_rest hr]
    simp only [if_neg h1, if_neg h2]
    rfl
  | two x =>
    have hrest : (vieAdvance { v with op := oneByteOpcodes 0x0F }).rest = x :: r :=
      rest_of_advanced (a := [0x0F]) hr rfl rfl
    have h1 : (twoByteOpcodes x).opType ≠ .none := h.1
    have hescape : (oneByteOpcodes 0x0F).opType = .twoByte := rfl
    rw [decodeOpcode, viePeek_of_rest hr]
    simp only [hescape, reduceCtorEq, if_false, if_true]
    rw [decodeTwoByteOpcode, viePeek_of_rest hrest]
    simp only [if_neg h1]
    rfl

theorem Modrm.byte_fields (m : Modrm) : ((m.byte >>> 6) &&& 0x3).toNat = m.mod ∧
    ((m.byte >>> 3) &&& 0x7).toNat = m.reg ∧ (m.byte &&& 0x7).toNat = m.rm := by
  have hall : ∀ (a : Fin 4) (b c : Fin 8), (((⟨a, b, c⟩ : Modrm).byte >>> 6) &&& 0x3).toNat = a ∧
      (((⟨a, b, c⟩ : Modrm).byte >>> 3) &&& 0x7).toNat = b ∧
      ((⟨a, b, c⟩ : Modrm).byte &&& 0x7).toNat = c := by decide +kernel
  exact hall m.mod m.reg m.rm

theorem Sib.byte_fields (s : Sib) : ((s.byte >>> 6) &&& 0x3).toNat = s.ss ∧
    ((s.byte >>> 3) &&& 0x7).toNat = s.index ∧ (s.byte &&& 0x7).toNat = s.base :=
  Modrm.byte_fields ⟨s.ss, s.index, s.base⟩

theorem extend_eq_wide (field : Fin 8) (bit : Bool) : extend field bit = Insn.wide field bit := by
  cases bit <;> revert field <;> decide

namespace Insn

/-- The buffer once the opcode is read. -/
def opened (i : Insn) (rest : List UInt8) : Vie :=
  { i.prefixed rest with op := i.opcode.entry }.skip i.opcode.bytes.length

/-- The buffer once the address is known, but for its displacement. -/
def addressed (i : Insn) (rest : List UInt8) : Vie :=
  { i.opened rest with
    numProcessed := (i.opened rest).numProcessed + i.hasModrm.toNat + i.hasSib.toNat
    mod := if i.hasModrm then i.modrm.mod else 0
    reg := if i.hasModrm then wide i.modrm.reg i.rexBits.r else 0
    rm := if i.hasModrm then i.rmField else 0
    ss := if i.hasSib then i.sib.ss else 0
    index := if i.hasSib then wide i.sib.index i.rexBits.x else 0
    base := if i.hasSib then wide i.sib.base i.rexBits.b else 0
    dispBytes := i.dispSize
    scale := if i.indexReg.isSome then 2 ^ i.sib.ss.val else 0
    baseRegister := i.baseReg
    indexRegister := i.indexReg }

variable {i : Insn} {rest r : List UInt8}

/-- An opcode without a memory operand leaves the addressing fields as they are. -/
theorem decodeAddress_none (hno : i.hasModrm = false) :
    (decodeModrm .mode64 (i.opened rest)).bind decodeSib = some (i.addressed rest) := by
  have hflag : (i.opened rest).op.opFlags.noModrm = true := by
    change i.opcode.entry.opFlags.noModrm = true
    simpa [hasModrm] using hno
  have hsib : i.hasSib = false := by simp [hasSib, hno]
  have heq : i.addressed rest = i.opened rest := by
    simp [addressed, opened, Vie.skip, prefixed, vieInit, hno, hsib, dispSize, indexReg, baseReg]
  rw [decodeModrm, if_pos hflag, Option.bind_some, heq]
  exact if_pos (.inr (show (0 : Nat) ≠ 4 by decide))

theorem modrmFields_byte (hm : i.modrm.mod ≠ 3) :
    modrmFields i.modrm.byte (i.opened rest) =
      { i.opened rest with
        mod := i.modrm.mod
        reg := wide i.modrm.reg i.rexBits.r
        rm := i.rmField } := by
  obtain ⟨h1, h2, h3⟩ := i.modrm.byte_fields
  have hcond : ((i.modrm.mod : Nat) = 0 ∧ (i.modrm.rm : Nat) = 5 ∨
      (i.modrm.mod : Nat) ≠ 3 ∧ (i.modrm.rm : Nat) = 4) ↔
      (i.modrm.rm = 4 ∨ i.modrm.mod = 0 ∧ i.modrm.rm = 5) := by
    have hm' : (i.modrm.mod : Nat) ≠ 3 := fun h => hm (Fin.ext h)
    simp only [Fin.ext_iff]
    constructor
    · rintro (h | h)
      · exact .inr h
      · exact .inl h.2
    · rintro (h | h)
      · exact .inr ⟨hm', h⟩
      · exact .inl h
  simp only [modrmFields, h1, h2, h3, extend_eq_wide, hcond, rmField]
  rfl

/-- Outside the SIB form the field reads 5 with `mod = 0` only where the encoding does. -/
theorem rmField_form (hrm : i.modrm.rm ≠ 4) : i.rmField ≠ 4 ∧
    ((i.modrm.mod : Nat) = 0 ∧ i.rmField = 5 ↔ i.modrm.mod = 0 ∧ i.modrm.rm = 5) := by
  have hall : ∀ (m : Fin 4) (rm : Fin 8) (b : Bool), rm ≠ 4 →
      (if rm = 4 ∨ m = 0 ∧ rm = 5 then (rm : Nat) else wide rm b) ≠ 4 ∧
      ((m : Nat) = 0 ∧ (if rm = 4 ∨ m = 0 ∧ rm = 5 then (rm : Nat) else wide rm b) = 5 ↔
        m = 0 ∧ rm = 5) := by decide +kernel
  exact hall i.modrm.mod i.modrm.rm i.rexBits.b hrm

/-- An address without a SIB byte. -/
theorem decodeAddress_modrm (hyes : i.hasModrm = true) (hm : i.modrm.mod ≠ 3)
    (hrm : i.modrm.rm ≠ 4) (hr : (i.opened rest).rest = i.modrm.byte :: r) :
    (decodeModrm .mode64 (i.opened rest)).bind decodeSib = some (i.addressed rest) := by
  have hflag : (i.opened rest).op.opFlags.noModrm ≠ true := by
    change i.opcode.entry.opFlags.noModrm ≠ true
    simpa [hasModrm] using hyes
  have hsib : i.hasSib = false := by simp [hasSib, hrm]
  have hmod : (i.modrm.mod : Nat) ≠ 3 := fun h => hm (Fin.ext h)
  obtain ⟨hfield, hform⟩ := rmField_form hrm
  have hdisp : i.dispOnly = true ↔ i.modrm.mod = 0 ∧ i.modrm.rm = 5 := by
    simp [dispOnly, hrm]
  have hbase : i.baseReg = if (i.modrm.mod : Nat) = 0 ∧ i.rmField = 5 then some .rip
      else gprMap[i.rmField]? := by
    rw [baseReg, if_neg (by simp [hyes]), if_neg hrm]
    simp only [hdisp, hform]
    split
    · rfl
    · rename_i hno
      rw [rmField, if_neg (by simpa [hrm] using hno)]
  have hsize : i.dispSize = if (i.modrm.mod : Nat) = 1 then 1
      else if (i.modrm.mod : Nat) = 2 then 4
      else if (i.modrm.mod : Nat) = 0 ∧ i.rmField = 5 then 4 else 0 := by
    rw [dispSize, if_neg (by simp [hyes])]
    simp only [hdisp, hform, Fin.ext_iff]
    split_ifs <;> first | rfl | omega
  have hindex : i.indexReg = none := by simp [indexReg, hsib]
  rw [decodeModrm, if_neg hflag, if_neg (by decide), viePeek_of_rest hr]
  simp only [modrmFields_byte hm, if_neg hmod, if_neg hfield, Option.bind_some]
  rw [decodeSib, if_pos (.inr hfield)]
  simp only [addressed, hyes, hsib, hbase, hsize, hindex, if_true, Bool.false_eq_true, if_false,
    Option.isSome_none]
  rfl

/-- An address with a SIB byte. -/
theorem decodeAddress_sib (hyes : i.hasModrm = true) (hm : i.modrm.mod ≠ 3)
    (hrm : i.modrm.rm = 4) (hr : (i.opened rest).rest = i.modrm.byte :: i.sib.byte :: r) :
    (decodeModrm .mode64 (i.opened rest)).bind decodeSib = some (i.addressed rest) := by
  have hflag : (i.opened rest).op.opFlags.noModrm ≠ true := by
    change i.opcode.entry.opFlags.noModrm ≠ true
    simpa [hasModrm] using hyes
  have hsib : i.hasSib = true := by simp [hasSib, hyes, hm, hrm]
  have hmod : (i.modrm.mod : Nat) ≠ 3 := fun h => hm (Fin.ext h)
  have hfield : i.rmField = 4 := by simp [rmField, hrm]
  obtain ⟨h1, h2, h3⟩ := i.sib.byte_fields
  have hwide : wide i.sib.base i.rexBits.b = 5 ∨ wide i.sib.base i.rexBits.b = 13 ↔
      i.sib.base = 5 := by
    generalize i.sib.base = base
    generalize i.rexBits.b = b
    cases b <;> revert base <;> decide
  have hdisp : i.dispOnly = true ↔ (i.modrm.mod : Nat) = 0 ∧
      (wide i.sib.base i.rexBits.b = 5 ∨ wide i.sib.base i.rexBits.b = 13) := by
    rw [hwide]
    simp [dispOnly, hrm]
  have hbase : i.baseReg = if (i.modrm.mod : Nat) = 0 ∧
      (wide i.sib.base i.rexBits.b = 5 ∨ wide i.sib.base i.rexBits.b = 13) then none
      else gprMap[wide i.sib.base i.rexBits.b]? := by
    rw [baseReg, if_neg (by simp [hyes]), if_pos hrm]
    simp only [hdisp]
  have hindex : i.indexReg = if wide i.sib.index i.rexBits.x ≠ 4
      then gprMap[wide i.sib.index i.rexBits.x]? else none := by
    simp [indexReg, hsib]
  have hsize : i.dispSize = if (i.modrm.mod : Nat) = 0 ∧
      (wide i.sib.base i.rexBits.b = 5 ∨ wide i.sib.base i.rexBits.b = 13) then 4
      else if (i.modrm.mod : Nat) = 1 then 1 else if (i.modrm.mod : Nat) = 2 then 4 else 0 := by
    rw [dispSize, if_neg (by simp [hyes])]
    simp only [hdisp, Fin.ext_iff]
    split_ifs <;> first | rfl | omega
  have hscale : (2 : Nat) ^ (i.sib.ss : Nat) = 1 <<< (i.sib.ss : Nat) := by
    rw [Nat.one_shiftLeft]
  have hrest : (vieAdvance { i.opened rest with
      mod := i.modrm.mod, reg := wide i.modrm.reg i.rexBits.r, rm := i.rmField }).rest =
      i.sib.byte :: r := rest_of_advanced (a := [i.modrm.byte]) hr rfl rfl
  rw [decodeModrm, if_neg hflag, if_neg (by decide), viePeek_of_rest hr]
  simp only [modrmFields_byte hm, if_neg hmod, if_pos hfield, Option.bind_some]
  rw [decodeSib, if_neg (by simp [vieAdvance, hmod, hfield]), viePeek_of_rest hrest]
  simp only [sibFields, h1, h2, h3, extend_eq_wide, sibAddress, addressed, hyes, hsib, hbase,
    hindex, hsize, hscale, if_true]
  rfl

end Insn

theorem fits_zero {d : Int} (h : LittleEndian.Fits 0 d) : d = 0 := by
  simp only [LittleEndian.Fits, pow_zero] at h
  omega

theorem decodeDisplacement_encode {v : Vie} {d : Int} {r : List UInt8}
    (hd : LittleEndian.Fits v.dispBytes d) (h0 : v.displacement = 0)
    (hr : v.rest = LittleEndian.ofInt v.dispBytes d ++ r) :
    decodeDisplacement v = some ({ v with displacement := d }.skip v.dispBytes) := by
  rw [decodeDisplacement]
  by_cases hz : v.dispBytes = 0
  · rw [hz] at hd
    rw [if_pos hz, fits_zero hd, skip_of_eq_zero _ hz, ← h0]
  · have ht := takeBytes_of_rest hr
    rw [LittleEndian.length_ofInt] at ht
    rw [if_neg hz, ht, Option.map_some]
    simp only [LittleEndian.toInt_ofInt hd]
    rfl

theorem decodeImmediate_encode {v : Vie} {d : Int} {r : List UInt8}
    (hd : LittleEndian.Fits (immediateSize v) d) (h0 : v.immediate = 0)
    (hr : v.rest = LittleEndian.ofInt (immediateSize v) d ++ r) :
    decodeImmediate v =
      some ({ v with immBytes := immediateSize v, immediate := d }.skip (immediateSize v)) := by
  rw [decodeImmediate]
  by_cases hz : immediateSize v = 0
  · rw [hz] at hd
    simp only [hz, if_true, fits_zero hd, ← h0]
    rfl
  · have ht := takeBytes_of_rest (v := { v with immBytes := immediateSize v }) hr
    rw [LittleEndian.length_ofInt] at ht
    simp only [if_neg hz, ht, Option.map_some, LittleEndian.toInt_ofInt hd]
    rfl

theorem decodeMoffset_encode {v : Vie} {m : Nat} {r : List UInt8}
    (hflag : v.op.opFlags.moffset = true) (hm : m < 256 ^ v.addrsize)
    (hr : v.rest = LittleEndian.bytes v.addrsize m ++ r) :
    decodeMoffset v = some ({ v with displacement := asInt64 m }.skip v.addrsize) := by
  have ht := takeBytes_of_rest hr
  rw [LittleEndian.length_bytes] at ht
  rw [decodeMoffset, if_neg (by simp [hflag]), ht, Option.map_some]
  simp only [LittleEndian.toNat_bytes_of_lt hm]
  generalize asInt64 m = d
  rfl

namespace Insn

variable {i : Insn}

theorem opened_rest (i : Insn) (rest : List UInt8) : (i.opened rest).rest =
    (if i.hasModrm then [i.modrm.byte] else []) ++
      ((if i.hasSib then [i.sib.byte] else []) ++ (i.tail ++ rest)) := by
  refine rest_of_advanced (v := vieInit (i.encode ++ rest))
    (a := i.prefixes.map LegacyPrefix.byte ++ (i.rex.toList.map Rex.byte ++ i.opcode.bytes))
    ?_ rfl ?_
  · simp [Vie.rest, vieInit, encode]
  · simp [opened, Vie.skip, prefixed, vieInit, Nat.add_assoc]

theorem addressed_rest (i : Insn) (rest : List UInt8) :
    (i.addressed rest).rest = i.tail ++ rest := by
  have h := i.opened_rest rest
  rw [← List.append_assoc] at h
  refine rest_of_advanced h rfl ?_
  cases hm : i.hasModrm <;> cases hs : i.hasSib <;> simp [addressed, hm, hs]

/-- The opcode, then the address. -/
theorem decodeAddress_encode (hmem : i.Memory) (rest : List UInt8) :
    (decodeModrm .mode64 (i.opened rest)).bind decodeSib = some (i.addressed rest) := by
  cases hyes : i.hasModrm with
  | false => exact decodeAddress_none hyes
  | true =>
    have hm := hmem hyes
    have hr := i.opened_rest rest
    by_cases hrm : i.modrm.rm = 4
    · have hsib : i.hasSib = true := by simp [hasSib, hyes, hm, hrm]
      rw [hyes, hsib] at hr
      exact decodeAddress_sib hyes hm hrm hr
    · rw [hyes] at hr
      exact decodeAddress_modrm hyes hm hrm hr

theorem immediateSize_addressed (i : Insn) (rest : List UInt8) (d : Int) (n : Nat) :
    immediateSize ({ i.addressed rest with displacement := d }.skip n) = i.immSize := by
  have hop : i.opsize = 2 ∨ i.opsize = 4 ∨ i.opsize = 8 := by
    unfold opsize
    split_ifs <;> simp
  change (if i.opcode.entry.opFlags.imm = true then
    (if i.opsize = 4 ∨ i.opsize = 8 then 4 else 2)
    else if i.opcode.entry.opFlags.imm8 = true then 1 else 0) = i.immSize
  rw [immSize]
  rcases hop with h | h | h <;> simp [h]

/-- The buffer once the displacement and the immediate are read. -/
def filled (i : Insn) (rest : List UInt8) : Vie :=
  { { i.addressed rest with displacement := i.disp }.skip i.dispSize with
    immBytes := i.immSize
    immediate := i.imm }.skip i.immSize

theorem filled_numProcessed (i : Insn) (rest : List UInt8) :
    (i.filled rest).numProcessed + i.moffsetSize = i.encode.length := by
  have hlen : i.encode.length = i.prefixes.length + i.rex.toList.length + i.opcode.bytes.length +
      i.hasModrm.toNat + i.hasSib.toNat + i.dispSize + i.immSize + i.moffsetSize := by
    cases hm : i.hasModrm <;> cases hs : i.hasSib <;>
    · simp only [encode, tail, hm, hs, List.length_append, List.length_map,
        LittleEndian.length_ofInt, LittleEndian.length_bytes, if_true, Bool.false_eq_true, if_false,
        List.length_cons, List.length_nil, Bool.toNat_true, Bool.toNat_false]
      omega
  rw [hlen]
  rfl

theorem meaning_eq (i : Insn) (rest : List UInt8) :
    i.meaning rest =
      { i.filled rest with
        numProcessed := i.encode.length
        displacement :=
          if i.opcode.entry.opFlags.moffset then asInt64 i.moffset else i.disp } := rfl

theorem prefixed_rest (i : Insn) (rest : List UInt8) : (i.prefixed rest).rest =
    i.opcode.bytes ++ ((if i.hasModrm then [i.modrm.byte] else []) ++
      ((if i.hasSib then [i.sib.byte] else []) ++ (i.tail ++ rest))) := by
  refine rest_of_advanced (v := vieInit (i.encode ++ rest))
    (a := i.prefixes.map LegacyPrefix.byte ++ i.rex.toList.map Rex.byte) ?_ rfl ?_
  · simp [Vie.rest, vieInit, encode]
  · simp [prefixed, vieInit]

/-- The displacement, then the immediate. -/
theorem decodeNumbers_encode (h : i.Encodable) (rest : List UInt8) :
    (decodeDisplacement (i.addressed rest)).bind decodeImmediate = some (i.filled rest) ∧
    (i.filled rest).rest = LittleEndian.bytes i.moffsetSize i.moffset ++ rest := by
  have hdisp : (i.addressed rest).rest = LittleEndian.ofInt i.dispSize i.disp ++
      (LittleEndian.ofInt i.immSize i.imm ++
        (LittleEndian.bytes i.moffsetSize i.moffset ++ rest)) := by
    rw [addressed_rest, tail]
    simp
  have himm : ({ i.addressed rest with displacement := i.disp }.skip i.dispSize).rest =
      LittleEndian.ofInt i.immSize i.imm ++
        (LittleEndian.bytes i.moffsetSize i.moffset ++ rest) :=
    rest_of_advanced hdisp rfl (by rw [LittleEndian.length_ofInt]; rfl)
  have hsize := immediateSize_addressed i rest i.disp i.dispSize
  have h3 : decodeDisplacement (i.addressed rest) =
      some ({ i.addressed rest with displacement := i.disp }.skip i.dispSize) :=
    decodeDisplacement_encode h.disp rfl hdisp
  have h4 := decodeImmediate_encode (by rw [hsize]; exact h.imm) rfl (by rw [hsize]; exact himm)
  rw [h3, Option.bind_some, h4, hsize]
  exact ⟨rfl, rest_of_advanced himm rfl (by rw [LittleEndian.length_ofInt]; rfl)⟩

theorem decodeMoffset_filled (h : i.Encodable) {rest : List UInt8}
    (hr : (i.filled rest).rest = LittleEndian.bytes i.moffsetSize i.moffset ++ rest) :
    decodeMoffset (i.filled rest) = some (i.meaning rest) := by
  have hn := i.filled_numProcessed rest
  cases hflag : i.opcode.entry.opFlags.moffset with
  | false =>
    have hz : i.moffsetSize = 0 := by simp [moffsetSize, hflag]
    have h5 : decodeMoffset (i.filled rest) = some (i.filled rest) := if_pos hflag
    rw [hz, Nat.add_zero] at hn
    rw [h5, meaning_eq, hflag, ← hn]
    rfl
  | true =>
    have haddr : (i.filled rest).addrsize = i.addrsize := rfl
    have hz : i.moffsetSize = (i.filled rest).addrsize := by
      rw [haddr]
      simp [moffsetSize, hflag]
    have hm := h.moffset
    rw [hz] at hr hn hm
    have h5 := decodeMoffset_encode (v := i.filled rest) hflag hm hr
    rw [h5, meaning_eq, hflag, ← hn]
    simp only [Vie.skip, if_true]

/-- Everything but the cross-check. -/
theorem decodeFields_encode (h : i.Encodable) (hmem : i.Memory) (rest : List UInt8)
    (hlen : i.encode.length ≤ vieInstSize) :
    decodeFields .mode64 false (vieInit (i.encode ++ rest)) = some (i.meaning rest) := by
  obtain ⟨hnum, hr⟩ := decodeNumbers_encode h rest
  rw [decodeFields, decodePrefixes_encode h rest hlen, Option.bind_some,
    decodeOpcode_encode h.known (i.prefixed_rest rest), Option.bind_some]
  change ((((decodeModrm .mode64 (i.opened rest)).bind decodeSib).bind decodeDisplacement).bind
    decodeImmediate).bind decodeMoffset = _
  rw [decodeAddress_encode hmem, Option.bind_some, hnum, Option.bind_some,
    decodeMoffset_filled h hr]

theorem meaning_numProcessed_pos (h : i.Encodable) (rest : List UInt8) :
    (i.meaning rest).numProcessed ≠ 0 := by
  obtain ⟨x, r, hop, -⟩ := h.known.first
  change i.encode.length ≠ 0
  simp [encode, hop]

/-- A memory-operand instruction of 64-bit mode followed by any bytes decodes to exactly
what it encodes, at its own length, when the reported address agrees with it; and no
proper part of it decodes. -/
theorem decode_inverts_encode (h : i.Encodable) (hmem : i.Memory)
    (hlen : i.encode.length ≤ vieInstSize) :
    (∀ rest vmGetRegister gla,
      (i.opcode.entry.opFlags.noGlaVerification = false →
        verifyGla vmGetRegister gla (i.meaning rest) = true) →
      vmmDecodeInstruction vmGetRegister gla .mode64 false (vieInit (i.encode ++ rest)) =
        some { i.meaning rest with decoded := true }) ∧
    ∀ xs ys vmGetRegister gla, i.encode = xs ++ ys → ys ≠ [] →
      vmmDecodeInstruction vmGetRegister gla .mode64 false (vieInit xs) = none := by
  constructor
  · intro rest vmGetRegister gla hgla
    have hpos : verifyInstLength (i.meaning rest) ≠ false := by
      simp [verifyInstLength, meaning_numProcessed_pos h rest]
    rw [vmmDecodeInstruction, decodeFields_encode h hmem rest hlen, Option.bind_some, if_neg hpos,
      if_neg]
    rintro ⟨hflag, hbad⟩
    rw [hgla hflag] at hbad
    simp at hbad
  · intro xs ys vmGetRegister gla hsplit hne
    have hfull := decodeFields_encode h hmem [] hlen
    rw [List.append_nil, hsplit] at hfull
    have hlt : xs.length < (i.meaning []).numProcessed := by
      change xs.length < i.encode.length
      have := List.length_pos_of_ne_nil hne
      rw [hsplit, List.length_append]
      omega
    rw [vmmDecodeInstruction, decodeFields_strict_prefix hfull hlt, Option.bind_none]

/-- `mov %rcx, %gs:-8(%r13,%r12,4)`. -/
def gsStore : Insn :=
  ⟨[.segment .gs], some ⟨true, false, true, true⟩, .one 0x89, ⟨1, 1, 4⟩, ⟨2, 4, 5⟩, -8, 0, 0⟩

theorem decode_inverts_encode_gsStore :
    gsStore.encode = [0x65, 0x4B, 0x89, 0x4C, 0xA5, 0xF8] ∧
    (∀ vmGetRegister, vmmDecodeInstruction vmGetRegister vieInvalidGla .mode64 false
      (vieInit (gsStore.encode ++ [0x90])) = some { gsStore.meaning [0x90] with decoded := true }) ∧
    (∀ vmGetRegister gla, vmmDecodeInstruction vmGetRegister gla .mode64 false
      (vieInit [0x65, 0x4B, 0x89, 0x4C, 0xA5]) = none) ∧
    (gsStore.meaning []).baseRegister = some .r13 ∧ (gsStore.meaning []).indexRegister = some .r12 ∧
    (gsStore.meaning []).scale = 4 := by
  have henc : gsStore.Encodable := ⟨by decide, by decide, by decide, by decide⟩
  have h := decode_inverts_encode henc (fun _ => by decide) (by decide)
  refine ⟨by decide, fun get => h.1 [0x90] get _ fun _ => if_pos rfl, fun get gla => ?_,
    by decide, by decide, by decide⟩
  exact h.2 _ [0xF8] get gla (by decide) (by decide)

/-- `mov %eax, %eax`: an encoding the decoder refuses, as its operand is not in memory. -/
def registerMove : Insn :=
  ⟨[], none, .one 0x89, ⟨3, 0, 0⟩, ⟨0, 0, 0⟩, 0, 0, 0⟩

theorem decode_register_operand : registerMove.Encodable ∧ registerMove.encode = [0x89, 0xC0] ∧
    ¬ ∀ i : Insn, i.Encodable → i.encode.length ≤ vieInstSize →
      ∃ v, vmmDecodeInstruction (fun _ => none) vieInvalidGla .mode64 false (vieInit i.encode) =
        some v := by
  have henc : registerMove.Encodable := ⟨by decide, by decide, by decide, by decide⟩
  refine ⟨henc, by decide, fun hclaim => ?_⟩
  obtain ⟨v, hv⟩ := hclaim registerMove henc (by decide)
  have hnone : vmmDecodeInstruction (fun _ => none) vieInvalidGla .mode64 false
      (vieInit registerMove.encode) = none := by decide +kernel
  rw [hnone] at hv
  simp at hv

end Insn

end Xhyve.Vmm.Decode
