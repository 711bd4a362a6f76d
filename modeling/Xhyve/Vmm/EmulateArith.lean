import Mathlib
import Xhyve.Lib.BitFlags
import Xhyve.Vmm.EmulateRepeat
import Xhyve.Vmm.EmulateStores

/-!
# Arithmetic instructions and loads

`AND`, `OR`, `SUB`, `CMP`, `BT` and the loads of `MOV`, `MOVZX` and `MOVSX` with an operand in the device, against what
the architecture says of their results, of their flags and of everything they leave alone.
-/

namespace Xhyve.Vmm.Emulate

open Xhyve.Lib Xhyve.Lib.Fallible
open Xhyve.Vmm.PageWalk
open Xhyve.Vmm.TaskSwitch (Vm)
open Xhyve.Vmm.Decode (Vie VmReg OpType)

variable {δ : Type}

/-! ## The architecture -/

inductive Alu
  | and | or | sub
  /-- The bit test. -/
  | bt
deriving DecidableEq, Repr

/-- What happens to a flag. -/
inductive FlagEffect
  | set (b : Bool)
  | keep
  | undefined
deriving DecidableEq, Repr

section Architecture
variable {w : Nat}

/-- The result, where there is one. -/
def Alu.value (x y : BitVec w) : Alu → BitVec w
  | .and => x &&& y
  | .or => x ||| y
  | .sub | .bt => x - y

/-- An even number of bits in the low byte. -/
def evenParity (v : BitVec w) : Bool := ((List.range 8).countP fun i => v.getLsbD i) % 2 == 0

/-- Carry, parity, adjust, zero, sign and overflow, by their bits. -/
def Alu.flag (x y : BitVec w) (op : Alu) (bit : Nat) : FlagEffect :=
  let v := op.value x y
  match op with
  | .bt => if bit = 0 then .set (x.getLsbD (y.toNat % w)) else .keep
  | .sub =>
    match bit with
    | 0 => .set (x.toNat < y.toNat)
    | 2 => .set (evenParity v)
    | 4 => .set (x.toNat % 16 < y.toNat % 16)
    | 6 => .set (v = 0)
    | 7 => .set (v.toInt < 0)
    | 11 => .set (v.toInt ≠ x.toInt - y.toInt)
    | _ => .keep
  | .and | .or =>
    match bit with
    | 0 | 11 => .set false
    | 2 => .set (evenParity v)
    | 4 => .undefined
    | 6 => .set (v = 0)
    | 7 => .set (v.toInt < 0)
    | _ => .keep

/-- The flags of the architecture hold of a flags register. -/
def FlagsMet (op : Alu) (x y : BitVec w) (old new : BitVec 64) : Prop :=
  ∀ bit < 64, match op.flag x y bit with
    | .set b => new.getLsbD bit = b
    | .keep => new.getLsbD bit = old.getLsbD bit
    | .undefined => True

end Architecture

/-- What a run of the decoder leaves for every instruction. -/
theorem decoded_opsize {vmGetRegister : VmReg → Option Nat} {gla : Nat} {cpuMode : Decode.CpuMode} {csD : Bool}
    {inst : List UInt8} {vie : Vie}
    (hdecode : Decode.vmmDecodeInstruction vmGetRegister gla cpuMode csD (Decode.vieInit inst) = some vie) :
    vie.decoded = true ∧ (vie.opsize = 2 ∨ vie.opsize = 4 ∨ vie.opsize = 8) := by
  obtain ⟨u, hu, -, -, hvie⟩ := Decode.vmmDecodeInstruction_ok.mp hdecode
  rw [hvie]
  exact ⟨rfl, (Decode.decodeFields_operation hu).opsize⟩

/-- Where the result goes. -/
inductive Dest
  | reg | mem | none
deriving DecidableEq, Repr

/-- An instruction with one operand in memory: the other one is the register where the memory comes second, and
the immediate operand where it comes first. -/
structure Form where
  op : Alu
  size : Nat
  memFirst : Bool
  dest : Dest
deriving DecidableEq, Repr

/-- The forms of the opcodes. -/
def form (vie : Vie) : Option Form :=
  let immediateForm (op : Alu) (size : Nat) (dest : Dest) : Option Form := some ⟨op, size, true, dest⟩
  match vie.op.opType with
  | .and => if vie.op.opByte = 0x23 then some ⟨.and, vie.opsize, false, .reg⟩ else none
  | .sub => if vie.op.opByte = 0x2B then some ⟨.sub, vie.opsize, false, .reg⟩ else none
  | .cmp => if vie.op.opByte = 0x3B then some ⟨.sub, vie.opsize, false, .none⟩ else none
  | .group1 =>
    if vie.op.opByte = 0x81 ∨ vie.op.opByte = 0x83 then
      match vie.reg &&& 7 with
      | 1 => immediateForm .or vie.opsize .mem
      | 4 => immediateForm .and vie.opsize .mem
      | 7 => immediateForm .sub vie.opsize .none
      | _ => none
    else if vie.op.opByte = 0x80 ∧ vie.reg &&& 7 = 7 then immediateForm .sub 1 .none
    else none
  | .bittest => if vie.reg &&& 7 = 4 then immediateForm .bt vie.opsize .none else none
  | _ => none

/-- The operands; `m` is the one in memory. -/
def Form.fst (f : Form) (vie : Vie) (regs : VmReg → BitVec 64) (m : BitVec 64) : BitVec (8 * f.size) :=
  (if f.memFirst then m else regs (gpr vie.reg)).setWidth _

def Form.snd (f : Form) (vie : Vie) (m : BitVec 64) : BitVec (8 * f.size) :=
  if f.memFirst then BitVec.ofInt _ vie.immediate else m.setWidth _

/-- What the instruction is to do: one read, the result in its place, the flags, and nothing else. -/
def Executed (r : Region δ) (gpa : BitVec 64) (vie : Vie) (f : Form) (s t : Vcpu δ) : Prop :=
  ∃ m dev, r.memread s.dev gpa f.size = .ok (m, dev) ∧
    let x := f.fst vie s.regs m
    let y := f.snd vie m
    (∀ reg, reg ≠ .rflags → t.regs reg =
      if f.dest = .reg ∧ reg = gpr vie.reg then writeBack f.size (s.regs reg) ((f.op.value x y).setWidth 64)
      else s.regs reg) ∧
    FlagsMet f.op x y (s.regs .rflags) (t.regs .rflags) ∧
    (if f.dest = .mem then
      ∃ v, v.setWidth _ = f.op.value x y ∧ r.memwrite dev gpa v f.size = .ok t.dev ∧
        t.log = s.log ++ [.read gpa f.size m, .write gpa f.size v]
    else t.dev = dev ∧ t.log = s.log ++ [.read gpa f.size m]) ∧
    t.guest = s.guest ∧ t.segs = s.segs ∧ t.nextrip = s.nextrip

/-! ## Flags -/

section Flags
variable {size : Nat} {x y : BitVec 64}

theorem getLsbD_flag {k : Nat} (hk : k < 64) (c : Bool) (i : Nat) :
    (if c then BitVec.twoPow 64 k else 0).getLsbD i = (c && decide (k = i)) := by
  cases c with
  | true => simp [BitVec.getLsbD_twoPow, hk]
  | false => simp

/-- The flags of `getcc`, bit by bit. -/
theorem getcc_bit (i : Nat) : (getcc size x y).getLsbD i =
    let x := x.setWidth (8 * size)
    let y := y.setWidth (8 * size)
    (x.ult y && decide (0 = i) || evenParity (x - y) && decide (2 = i) ||
      decide (x.toNat % 16 < y.toNat % 16) && decide (4 = i) || (x - y == 0) && decide (6 = i) ||
      (x - y).msb && decide (7 = i) || (x.msb != y.msb && (x - y).msb != x.msb) && decide (11 = i)) := by
  have hC : pslC = BitVec.twoPow 64 0 := rfl
  have hP : pslPF = BitVec.twoPow 64 2 := rfl
  have hA : pslAF = BitVec.twoPow 64 4 := rfl
  have hZ : pslZ = BitVec.twoPow 64 6 := rfl
  have hN : pslN = BitVec.twoPow 64 7 := rfl
  have hV : pslV = BitVec.twoPow 64 11 := rfl
  simp only [getcc, hC, hP, hA, hZ, hN, hV, BitVec.getLsbD_or]
  simp (disch := decide) only [getLsbD_flag, evenParity]

/-- The bits of the status flags. -/
def statusFlags : List Nat := [0, 2, 4, 6, 7, 11]

theorem status_bit {i : Nat} (hi : i < 64) : rflagsStatusBits.getLsbD i = decide (i ∈ statusFlags) := by
  have hall : ∀ k : Fin 64, rflagsStatusBits.getLsbD k = decide (k.val ∈ statusFlags) := by decide
  exact hall ⟨i, hi⟩

/-- The flags that `AND` and `OR` take from their result. -/
theorem logic_bit {i : Nat} (hi : i < 64) : (pslPF ||| pslZ ||| pslN).getLsbD i = decide (i ∈ [2, 6, 7]) := by
  have hall : ∀ k : Fin 64, (pslPF ||| pslZ ||| pslN).getLsbD k = decide (k.val ∈ [2, 6, 7]) := by decide
  exact hall ⟨i, hi⟩

/-- Signed overflow, from the signs. -/
theorem overflow_iff {w : Nat} (x y : BitVec w) :
    (x.msb != y.msb && (x - y).msb != x.msb) = decide ((x - y).toInt ≠ x.toInt - y.toInt) := by
  have hsigns : (x.msb != y.msb && (x - y).msb != x.msb) = BitVec.ssubOverflow x y := by
    rw [BitVec.ssubOverflow_eq]
    cases x.msb <;> cases y.msb <;> cases (x - y).msb <;> rfl
  rw [hsigns]
  cases hover : BitVec.ssubOverflow x y with
  | false =>
    have heq := BitVec.toInt_sub_of_not_ssubOverflow (x := x) (y := y) (by simp [hover])
    simp [heq]
  | true =>
    have hlt := BitVec.toInt_lt (x := x - y)
    have hle := BitVec.le_toInt (x := x - y)
    simp only [BitVec.ssubOverflow, Bool.or_eq_true, decide_eq_true_eq, ge_iff_le] at hover
    symm
    rw [decide_eq_true_eq]
    omega

/-- The other bits are left alone. -/
theorem flag_keep {w bit : Nat} (op : Alu) (x y : BitVec w) (hbit : bit ∉ statusFlags) : op.flag x y bit = .keep := by
  simp only [statusFlags, List.mem_cons, List.not_mem_nil, or_false, not_or] at hbit
  obtain ⟨h0, h2, h4, h6, h7, h11⟩ := hbit
  cases op with
  | bt => exact if_neg h0
  | and | or | sub =>
    simp only [Alu.flag]

/-- A flags register whose status flags are replaced by some of others. -/
theorem replaced_bit {old f mask : BitVec 64} {bit : Nat} (hbit : bit < 64) :
    ((old &&& ~~~rflagsStatusBits) ||| (f &&& mask)).getLsbD bit =
      (old.getLsbD bit && !decide (bit ∈ statusFlags) || f.getLsbD bit && mask.getLsbD bit) := by
  rw [BitVec.getLsbD_or, BitVec.getLsbD_and, BitVec.getLsbD_not, BitVec.getLsbD_and, status_bit hbit]
  simp [hbit]

theorem flags_sub (size : Nat) (x y old : BitVec 64) :
    FlagsMet .sub (x.setWidth (8 * size)) (y.setWidth (8 * size)) old
      ((old &&& ~~~rflagsStatusBits) ||| (getcc size x y &&& rflagsStatusBits)) := by
  intro bit hbit
  rw [replaced_bit hbit, status_bit hbit]
  by_cases hstatus : bit ∈ statusFlags
  · simp only [hstatus, decide_true, Bool.not_true, Bool.and_false, Bool.and_true, Bool.false_or, getcc_bit]
    simp only [statusFlags, List.mem_cons, List.not_mem_nil, or_false] at hstatus
    have hover := overflow_iff (x.setWidth (8 * size)) (y.setWidth (8 * size))
    rcases hstatus with rfl | rfl | rfl | rfl | rfl | rfl
    · simp [Alu.flag, BitVec.ult]
    · simp [Alu.flag, Alu.value]
    · simp [Alu.flag]
    · change _ = decide (_ = _)
      rw [Bool.eq_iff_iff]
      simp [Alu.value]
      exact decide_eq_true_iff.symm
    · simp [Alu.flag, Alu.value, BitVec.msb_eq_toInt]
    · refine Eq.trans ?_ hover
      simp
  · rw [flag_keep .sub _ _ hstatus]
    simp [hstatus]

theorem flags_logic {op : Alu} (hop : op = .and ∨ op = .or) (size : Nat) (r old : BitVec 64) {x y : BitVec (8 * size)}
    (hr : r.setWidth (8 * size) = op.value x y) :
    FlagsMet op x y old ((old &&& ~~~rflagsStatusBits) ||| (getcc size r 0 &&& (pslPF ||| pslZ ||| pslN))) := by
  intro bit hbit
  rw [replaced_bit hbit, logic_bit hbit]
  by_cases hstatus : bit ∈ statusFlags
  · have hzero : op.value x y - (0 : BitVec 64).setWidth (8 * size) = op.value x y := by simp
    simp only [hstatus, decide_true, Bool.not_true, Bool.and_false, Bool.false_or, getcc_bit, hr, hzero]
    simp only [statusFlags, List.mem_cons, List.not_mem_nil, or_false] at hstatus
    have hzf : (op.value x y == 0) = decide (op.value x y = 0) := by
      rw [Bool.eq_iff_iff]
      simp
    rcases hop with rfl | rfl
    · rcases hstatus with rfl | rfl | rfl | rfl | rfl | rfl
      all_goals simp [Alu.flag, BitVec.msb_eq_toInt]
      exact hzf
    · rcases hstatus with rfl | rfl | rfl | rfl | rfl | rfl
      all_goals simp [Alu.flag, BitVec.msb_eq_toInt]
      exact hzf
  · rw [flag_keep op _ _ hstatus]
    have hlogic : bit ∉ [2, 6, 7] := fun hmem => hstatus (by revert hmem; simp [statusFlags]; omega)
    simp [hstatus, hlogic]

end Flags

/-! ## The instructions -/

section Instructions
variable {r : Region δ} {gpa : BitVec 64} {vie : Vie} {s : Vcpu δ} {f : Form}

/-- Done, or a callback has failed and no register has changed. -/
def Exactly (r : Region δ) (gpa : BitVec 64) (vie : Vie) (f : Form) (s : Vcpu δ) :
    EStateM.Result Stop (Vcpu δ) PUnit → Prop
  | .ok _ t => Executed r gpa vie f s t
  | .error stop t => t.regs = s.regs ∧ t.guest = s.guest ∧ ∃ e, stop = .error e ∧
      (r.memread s.dev gpa f.size = .error e ∨
        f.dest = .mem ∧ ∃ m dev v, r.memread s.dev gpa f.size = .ok (m, dev) ∧ r.memwrite dev gpa v f.size = .error e)

theorem gpr_ne_rflags (n : Nat) : gpr n ≠ .rflags := by
  by_cases hn : n < 16
  · have hall : ∀ k : Fin 16, gpr k ≠ .rflags := by decide
    exact hall ⟨n, hn⟩
  · have hlen : Decode.gprMap.length ≤ n := Nat.not_lt.mp hn
    rw [gpr, List.getD_eq_default _ _ hlen]
    decide

theorem setFlags_run (flags mask : BitVec 64) (u : Vcpu δ) : setFlags flags mask u =
    .ok ⟨⟩ (u.write .rflags ((u.regs .rflags &&& ~~~rflagsStatusBits) ||| (flags &&& mask)) 8) :=
  updateRegister_run (.inr (.inr rfl)) _ _

/-- The last part of an instruction: it writes the flags register. -/
structure SetsFlags (f : Form) (vie : Vie) (s : Vcpu δ) (k : BitVec 64 → EmulM δ PUnit)
    (new : BitVec 64 → BitVec 64) : Prop where
  run : ∀ m (u : Vcpu δ), u.regs .rflags = s.regs .rflags → k m u = .ok ⟨⟩ (u.write .rflags (new m) 8)
  met : ∀ m, FlagsMet f.op (f.fst vie s.regs m) (f.snd vie m) (s.regs .rflags) (new m)

variable {k : BitVec 64 → EmulM δ PUnit} {new val : BitVec 64 → BitVec 64}

theorem memread_run (r : Region δ) (gpa : BitVec 64) (s : Vcpu δ) (size : Nat) :
    (∃ e, r.memread s.dev gpa size = .error e ∧ memread r gpa size s = .error (.error e) s) ∨
    ∃ m dev, r.memread s.dev gpa size = .ok (m, dev) ∧
      memread r gpa size s = .ok m { s with dev := dev, log := s.log ++ [.read gpa size m] } := by
  cases hread : r.memread s.dev gpa size with
  | error e => exact .inl ⟨e, rfl, by simp only [memread, hread]⟩
  | ok a => exact .inr ⟨a.1, a.2, rfl, by simp only [memread, hread]⟩

/-- Without a result. -/
theorem exactly_none (hdest : f.dest = .none) (hflags : SetsFlags f vie s k new) :
    Exactly r gpa vie f s ((memread r gpa f.size >>= k) s) := by
  rcases memread_run r gpa s f.size with ⟨e, hread, hrun⟩ | ⟨m, dev, hread, hrun⟩
  · rw [bind_of_error hrun]
    exact ⟨rfl, rfl, e, rfl, .inl hread⟩
  · rw [bind_of_ok hrun, hflags.run m]
    · refine ⟨m, dev, hread, fun reg hreg => ?_, ?_, ?_, rfl, rfl, rfl⟩
      · rw [write_regs_ne hreg, if_neg fun h => by rw [hdest] at h; cases h.1]
      · rw [write_regs_self]
        exact hflags.met m
      · rw [if_neg (by rw [hdest]; decide)]
        exact ⟨rfl, rfl⟩
    · rfl

/-- With a result in a register. -/
theorem exactly_reg (hdest : f.dest = .reg) (hsize : f.size = 2 ∨ f.size = 4 ∨ f.size = 8)
    (hflags : SetsFlags f vie s k new)
    (hval : ∀ m, (val m).setWidth (8 * f.size) = f.op.value (f.fst vie s.regs m) (f.snd vie m)) :
    Exactly r gpa vie f s ((memread r gpa f.size >>= fun m =>
      vieUpdateRegister (gpr vie.reg) (val m) f.size >>= fun _ => k m) s) := by
  rcases memread_run r gpa s f.size with ⟨e, hread, hrun⟩ | ⟨m, dev, hread, hrun⟩
  · rw [bind_of_error hrun]
    exact ⟨rfl, rfl, e, rfl, .inl hread⟩
  · rw [bind_of_ok hrun, bind_of_ok (updateRegister_run hsize _ _), hflags.run m]
    · refine ⟨m, dev, hread, fun reg hreg => ?_, ?_, ?_, rfl, rfl, rfl⟩
      · rw [write_regs_ne hreg]
        by_cases hg : reg = gpr vie.reg
        · subst hg
          rw [write_regs_self, updatedRegister_eq hsize, if_pos ⟨hdest, rfl⟩]
          refine writeBack_congr hsize ?_
          have hle : 8 * f.size ≤ 64 := by omega
          rw [hval m, BitVec.setWidth_setWidth_of_le _ hle, BitVec.setWidth_eq]
        · rw [write_regs_ne hg, if_neg fun h => hg h.2]
      · rw [write_regs_self]
        exact hflags.met m
      · rw [if_neg (by rw [hdest]; decide)]
        exact ⟨rfl, rfl⟩
    · exact write_regs_ne (gpr_ne_rflags _).symm _ _

/-- With a result in memory. -/
theorem exactly_mem (hdest : f.dest = .mem) (hflags : SetsFlags f vie s k new)
    (hval : ∀ m, (val m).setWidth (8 * f.size) = f.op.value (f.fst vie s.regs m) (f.snd vie m)) :
    Exactly r gpa vie f s ((memread r gpa f.size >>= fun m => memwrite r gpa (val m) f.size >>= fun _ => k m) s) := by
  rcases memread_run r gpa s f.size with ⟨e, hread, hrun⟩ | ⟨m, dev, hread, hrun⟩
  · rw [bind_of_error hrun]
    exact ⟨rfl, rfl, e, rfl, .inl hread⟩
  · rw [bind_of_ok hrun]
    cases hwrite : r.memwrite dev gpa (val m) f.size with
    | error e =>
      have hput : memwrite r gpa (val m) f.size { s with dev := dev, log := s.log ++ [.read gpa f.size m] } =
          .error (.error e) { s with dev := dev, log := s.log ++ [.read gpa f.size m] ++ [.write gpa f.size (val m)] } := by
        simp only [memwrite, hwrite]
      rw [bind_of_error hput]
      exact ⟨rfl, rfl, e, rfl, .inr ⟨hdest, m, dev, val m, hread, hwrite⟩⟩
    | ok dev' =>
      have hput : memwrite r gpa (val m) f.size { s with dev := dev, log := s.log ++ [.read gpa f.size m] } =
          .ok ⟨⟩ { s with dev := dev', log := s.log ++ [.read gpa f.size m] ++ [.write gpa f.size (val m)] } := by
        simp only [memwrite, hwrite]
      rw [bind_of_ok hput, hflags.run m]
      · refine ⟨m, dev, hread, fun reg hreg => ?_, ?_, ?_, rfl, rfl, rfl⟩
        · rw [write_regs_ne hreg, if_neg fun h => by rw [hdest] at h; cases h.1]
        · rw [write_regs_self]
          exact hflags.met m
        · rw [if_pos hdest]
          exact ⟨val m, hval m, hwrite, List.append_assoc ..⟩
      · rfl

/-! ### Operands and flags -/

theorem setWidth_immediate {w : Nat} (hw : w ≤ 64) : (immediate vie).setWidth w = BitVec.ofInt w vie.immediate := by
  have hdvd : ((2 ^ w : Nat) : Int) ∣ ((2 ^ 64 : Nat) : Int) := Int.natCast_dvd_natCast.mpr (Nat.pow_dvd_pow 2 hw)
  apply BitVec.eq_of_toNat_eq
  rw [immediate, BitVec.toNat_setWidth, BitVec.toNat_ofInt, BitVec.toNat_ofInt]
  apply Int.ofNat.inj
  simp only [Int.ofNat_eq_natCast]
  rw [Int.natCast_emod, Int.toNat_of_nonneg (Int.emod_nonneg _ (by positivity)),
    Int.toNat_of_nonneg (Int.emod_nonneg _ (by positivity)), Int.emod_emod_of_dvd _ hdvd]

theorem setsFlags_sub {size : Nat} {memFirst : Bool} {dest : Dest} {x y : BitVec 64 → BitVec 64}
    (hx : ∀ m, (x m).setWidth (8 * size) = (⟨.sub, size, memFirst, dest⟩ : Form).fst vie s.regs m)
    (hy : ∀ m, (y m).setWidth (8 * size) = (⟨.sub, size, memFirst, dest⟩ : Form).snd vie m) :
    SetsFlags ⟨.sub, size, memFirst, dest⟩ vie s (fun m => setFlags (getcc size (x m) (y m)) rflagsStatusBits)
      (fun m => (s.regs .rflags &&& ~~~rflagsStatusBits) ||| (getcc size (x m) (y m) &&& rflagsStatusBits)) where
  run m u hu := by rw [setFlags_run, hu]
  met m := by
    rw [← hx, ← hy]
    exact flags_sub size (x m) (y m) (s.regs .rflags)

theorem setsFlags_logic {op : Alu} (hop : op = .and ∨ op = .or) {size : Nat} {memFirst : Bool} {dest : Dest}
    (hval : ∀ m, (val m).setWidth (8 * size) =
      op.value ((⟨op, size, memFirst, dest⟩ : Form).fst vie s.regs m) ((⟨op, size, memFirst, dest⟩ : Form).snd vie m)) :
    SetsFlags ⟨op, size, memFirst, dest⟩ vie s (fun m => setFlags (getcc size (val m) 0) (pslPF ||| pslZ ||| pslN))
      (fun m => (s.regs .rflags &&& ~~~rflagsStatusBits) ||| (getcc size (val m) 0 &&& (pslPF ||| pslZ ||| pslN))) where
  run m u hu := by rw [setFlags_run, hu]
  met m := flags_logic hop size (val m) (s.regs .rflags) (hval m)

theorem setWidth_sub {w : Nat} (hw : w ≤ 64) (x y : BitVec 64) : (x - y).setWidth w = x.setWidth w - y.setWidth w := by
  apply eq_sub_of_add_eq
  rw [← BitVec.setWidth_add _ _ hw, BitVec.sub_add_cancel]

variable {op : Alu} {size : Nat}

theorem sizes_le (hsize : size = 2 ∨ size = 4 ∨ size = 8) : 8 * size ≤ 64 := by omega

/-- `SUB` of memory from a register. -/
theorem emulateSub_exact (hb : vie.op.opByte = 0x2B) (hsize : vie.opsize = 2 ∨ vie.opsize = 4 ∨ vie.opsize = 8) :
    Exactly r gpa vie ⟨.sub, vie.opsize, false, .reg⟩ s (emulateSub r gpa vie s) := by
  have hflags := @setsFlags_sub δ vie s vie.opsize false .reg (fun _ => s.regs (gpr vie.reg)) id (fun _ => rfl) fun _ => rfl
  simp only [emulateSub, if_pos hb]
  exact exactly_reg rfl hsize hflags fun m => setWidth_sub (sizes_le hsize) (s.regs (gpr vie.reg)) m

/-- `AND` of a register with memory. -/
theorem emulateAnd_reg (hb : vie.op.opByte = 0x23) (hsize : vie.opsize = 2 ∨ vie.opsize = 4 ∨ vie.opsize = 8) :
    Exactly r gpa vie ⟨.and, vie.opsize, false, .reg⟩ s (emulateAnd r gpa vie s) := by
  have hval (m : BitVec 64) : (s.regs (gpr vie.reg) &&& m).setWidth (8 * vie.opsize) =
      (s.regs (gpr vie.reg)).setWidth (8 * vie.opsize) &&& m.setWidth (8 * vie.opsize) := BitVec.setWidth_and
  have hflags := @setsFlags_logic δ vie s (fun m => s.regs (gpr vie.reg) &&& m) .and (.inl rfl) vie.opsize false .reg hval
  simp only [emulateAnd, if_pos hb]
  exact exactly_reg rfl hsize hflags hval

/-- `CMP` of a register with memory. -/
theorem emulateCmp_reg (hb : vie.op.opByte = 0x3B) :
    Exactly r gpa vie ⟨.sub, vie.opsize, false, .none⟩ s (emulateCmp r gpa vie s) := by
  have hflags := @setsFlags_sub δ vie s vie.opsize false .none (fun _ => s.regs (gpr vie.reg)) id (fun _ => rfl) fun _ => rfl
  simp only [emulateCmp, if_pos hb]
  exact exactly_none rfl hflags

/-- `AND` of memory with an immediate operand. -/
theorem emulateAnd_mem (hb : vie.op.opByte = 0x81 ∨ vie.op.opByte = 0x83)
    (hsize : vie.opsize = 2 ∨ vie.opsize = 4 ∨ vie.opsize = 8) :
    Exactly r gpa vie ⟨.and, vie.opsize, true, .mem⟩ s (emulateAnd r gpa vie s) := by
  have hval (m : BitVec 64) : (m &&& immediate vie).setWidth (8 * vie.opsize) =
      m.setWidth (8 * vie.opsize) &&& BitVec.ofInt (8 * vie.opsize) vie.immediate := by
    rw [BitVec.setWidth_and, setWidth_immediate (sizes_le hsize)]
  have hflags := @setsFlags_logic δ vie s (fun m => m &&& immediate vie) .and (.inl rfl) vie.opsize true .mem hval
  have hne : vie.op.opByte ≠ 0x23 := by
    rcases hb with hb | hb
    · rw [hb]
      decide
    · rw [hb]
      decide
  simp only [emulateAnd, if_neg hne, if_pos hb]
  exact exactly_mem rfl hflags hval

theorem emulateOr_mem (hb : vie.op.opByte = 0x81 ∨ vie.op.opByte = 0x83)
    (hsize : vie.opsize = 2 ∨ vie.opsize = 4 ∨ vie.opsize = 8) :
    Exactly r gpa vie ⟨.or, vie.opsize, true, .mem⟩ s (emulateOr r gpa vie s) := by
  have hval (m : BitVec 64) : (m ||| immediate vie).setWidth (8 * vie.opsize) =
      m.setWidth (8 * vie.opsize) ||| BitVec.ofInt (8 * vie.opsize) vie.immediate := by
    rw [BitVec.setWidth_or, setWidth_immediate (sizes_le hsize)]
  have hflags := @setsFlags_logic δ vie s (fun m => m ||| immediate vie) .or (.inr rfl) vie.opsize true .mem hval
  simp only [emulateOr, if_pos hb]
  exact exactly_mem rfl hflags hval

/-- `CMP` of memory with an immediate operand, of which one form is of bytes. -/
theorem emulateCmp_mem (hb : vie.op.opByte = 0x80 ∨ vie.op.opByte = 0x81 ∨ vie.op.opByte = 0x83)
    (hsize : vie.opsize = 2 ∨ vie.opsize = 4 ∨ vie.opsize = 8) :
    Exactly r gpa vie ⟨.sub, if vie.op.opByte = 0x80 then 1 else vie.opsize, true, .none⟩ s (emulateCmp r gpa vie s) := by
  have hle : 8 * (if vie.op.opByte = 0x80 then 1 else vie.opsize) ≤ 64 := by split <;> omega
  have hflags := @setsFlags_sub δ vie s (if vie.op.opByte = 0x80 then 1 else vie.opsize) true .none id
    (fun _ => immediate vie) (fun _ => rfl) fun _ => setWidth_immediate hle
  have hne : vie.op.opByte ≠ 0x3B := by
    rcases hb with hb | hb | hb
    · rw [hb]
      decide
    · rw [hb]
      decide
    · rw [hb]
      decide
  simp only [emulateCmp, if_neg hne, if_pos hb]
  exact exactly_none rfl hflags

theorem carry_bit {old : BitVec 64} {bit : Nat} (c : Bool) (hbit : bit < 64) :
    (if c then old ||| pslC else old &&& ~~~pslC).getLsbD bit = if bit = 0 then c else old.getLsbD bit := by
  have hC : pslC.getLsbD bit = decide (bit = 0) := by
    rw [show pslC = BitVec.twoPow 64 0 from rfl, BitVec.getLsbD_twoPow]
    simp [eq_comm]
  cases c with
  | true =>
    rw [if_pos rfl, BitVec.getLsbD_or, hC]
    by_cases h0 : bit = 0
    · simp [h0]
    · simp [h0]
  | false =>
    rw [if_neg (by decide), BitVec.getLsbD_and, BitVec.getLsbD_not, hC]
    by_cases h0 : bit = 0
    · simp [h0]
    · simp [h0, hbit]

/-- `BT` of memory with an immediate operand. -/
theorem emulateBittest_exact (hreg : vie.reg &&& 7 = 4) (hsize : vie.opsize = 2 ∨ vie.opsize = 4 ∨ vie.opsize = 8) :
    Exactly r gpa vie ⟨.bt, vie.opsize, true, .none⟩ s (emulateBittest r gpa vie s) := by
  have hbitoff : (BitVec.ofInt (8 * vie.opsize) vie.immediate).toNat % (8 * vie.opsize) =
      (immediate vie).toNat % (vie.opsize * 8) := by
    have hdvd : 8 * vie.opsize ∣ 2 ^ (8 * vie.opsize) := by
      rcases hsize with h | h | h
      · rw [h]
        decide
      · rw [h]
        decide
      · rw [h]
        decide
    rw [← setWidth_immediate (sizes_le hsize), BitVec.toNat_setWidth, Nat.mod_mod_of_dvd _ hdvd, Nat.mul_comm]
  have hflags : SetsFlags (⟨.bt, vie.opsize, true, .none⟩ : Form) vie s
      (fun m => vieUpdateRegister .rflags (if m.getLsbD ((immediate vie).toNat % (vie.opsize * 8)) then
        s.regs .rflags ||| pslC else s.regs .rflags &&& ~~~pslC) 8)
      (fun m => if m.getLsbD ((immediate vie).toNat % (vie.opsize * 8)) then
        s.regs .rflags ||| pslC else s.regs .rflags &&& ~~~pslC) := by
    refine ⟨fun m u _ => updateRegister_run (.inr (.inr rfl)) _ _, fun m bit hbit => ?_⟩
    have hlt : (immediate vie).toNat % (vie.opsize * 8) < 8 * vie.opsize := by
      rw [Nat.mul_comm]
      exact Nat.mod_lt _ (by omega)
    rw [carry_bit _ hbit]
    by_cases h0 : bit = 0
    · subst h0
      simp only [Alu.flag, Form.fst, Form.snd, if_true, hbitoff, BitVec.getLsbD_setWidth, hlt, decide_true, Bool.true_and]
    · simp only [Alu.flag, h0, if_false]
  have hnot : ¬ vie.reg &&& 7 ≠ 4 := not_not.mpr hreg
  simp only [emulateBittest, if_neg hnot]
  exact exactly_none rfl hflags

/-- An instruction that has been decoded into one of the forms does exactly what the architecture says: one operand is
read from the device, the result in the operand size goes to the register or the device, the flags are those of
the operation, and no other register, flag or guest memory changes. Only a callback that fails stops it, and then
no register has changed. -/
theorem arith_exact (r : Region δ) (vm : Vm) (paging : GuestPaging) (gpa : BitVec 64)
    (vmGetRegister : VmReg → Option Nat) (gla : Nat) (csD : Bool) (inst : List UInt8) (vie : Vie) (f : Form) (s : Vcpu δ)
    (hdecode : Decode.vmmDecodeInstruction vmGetRegister gla paging.cpuMode csD (Decode.vieInit inst) = some vie)
    (hform : form vie = some f) : Exactly r gpa vie f s (vmmEmulateInstruction r vm paging gpa vie s) := by
  obtain ⟨hdecoded, hsize⟩ := decoded_opsize hdecode
  have hnot : ¬ vie.decoded = false := by simp [hdecoded]
  rw [form] at hform
  simp only [vmmEmulateInstruction, if_neg hnot]
  cases htype : vie.op.opType with
  | and =>
    simp only [htype] at hform ⊢
    split at hform
    · rename_i hb
      cases hform
      exact emulateAnd_reg hb hsize
    · cases hform
  | sub =>
    simp only [htype] at hform ⊢
    split at hform
    · rename_i hb
      cases hform
      exact emulateSub_exact hb hsize
    · cases hform
  | cmp =>
    simp only [htype] at hform ⊢
    split at hform
    · rename_i hb
      cases hform
      exact emulateCmp_reg hb
    · cases hform
  | bittest =>
    simp only [htype] at hform ⊢
    split at hform
    · rename_i hreg
      cases hform
      exact emulateBittest_exact hreg hsize
    · cases hform
  | group1 =>
    simp only [htype] at hform ⊢
    split at hform
    · rename_i hb
      have hne : vie.op.opByte ≠ 0x80 := by
        rcases hb with hb | hb
        · rw [hb]
          decide
        · rw [hb]
          decide
      split at hform
      · rename_i hreg
        cases hform
        simp only [emulateGroup1, hreg, if_true]
        exact emulateOr_mem hb hsize
      · rename_i hreg
        cases hform
        simp only [emulateGroup1, hreg]
        exact emulateAnd_mem hb hsize
      · rename_i hreg
        cases hform
        simp only [emulateGroup1, hreg]
        have hcmp := @emulateCmp_mem δ r gpa vie s (.inr hb) hsize
        rw [if_neg hne] at hcmp
        exact hcmp
      · cases hform
    · split at hform
      · rename_i hb
        cases hform
        simp only [emulateGroup1, hb.2]
        have hcmp := @emulateCmp_mem δ r gpa vie s (.inl hb.1) hsize
        rw [if_pos hb.1] at hcmp
        exact hcmp
      · cases hform
  | _ =>
    simp only [htype] at hform
    cases hform

end Instructions

/-- `cmp dword [eax], 5` on a device that reads as zero borrows. -/
theorem arith_exact_cmp :
    form (decodeFlat 0xfec00000 [0x83, 0x38, 0x05]) = some ⟨.sub, 4, true, .none⟩ ∧
    Exactly nullRegion 0xfec00000 (decodeFlat 0xfec00000 [0x83, 0x38, 0x05]) ⟨.sub, 4, true, .none⟩ (plainVcpu 0xfec00000)
      (vmmEmulateInstruction nullRegion TaskSwitch.smallRam.vm ⟨0, 0, .protectedMode, .flat⟩ 0xfec00000
        (decodeFlat 0xfec00000 [0x83, 0x38, 0x05]) (plainVcpu 0xfec00000)) ∧
    (finalState (vmmEmulateInstruction nullRegion TaskSwitch.smallRam.vm ⟨0, 0, .protectedMode, .flat⟩ 0xfec00000
      (decodeFlat 0xfec00000 [0x83, 0x38, 0x05]) (plainVcpu 0xfec00000))).regs .rflags = 0xfec00091 := by
  have hform : form (decodeFlat 0xfec00000 [0x83, 0x38, 0x05]) = some ⟨.sub, 4, true, .none⟩ := by decide +kernel
  refine ⟨hform, ?_, by decide +kernel⟩
  exact arith_exact nullRegion TaskSwitch.smallRam.vm ⟨0, 0, .protectedMode, .flat⟩ 0xfec00000 (fun _ => some 0xfec00000)
    0xfec00000 true [0x83, 0x38, 0x05] (decodeFlat 0xfec00000 [0x83, 0x38, 0x05]) _ (plainVcpu 0xfec00000)
    (by decide +kernel) hform

/-! ## Loads -/

/-- A load of `size` bytes into `width` bits of a register, from `lo` on. -/
structure Load where
  size : Nat
  signed : Bool
  reg : VmReg
  lo : Nat
  width : Nat
deriving DecidableEq, Repr

/-- A register operand of one byte, and its first bit: without a REX prefix four of them are high bytes. -/
def byteOperand (rexPresent : Bool) (n : Nat) : VmReg × Nat :=
  if rexPresent = false ∧ n.testBit 2 then (gpr (n % 4), 8) else (gpr n, 0)

def loadForm (vie : Vie) : Option Load :=
  match vie.op.opType with
  | .mov =>
    if vie.op.opByte = 0x8A then
      let operand := byteOperand vie.rexPresent vie.reg
      some ⟨1, false, operand.1, operand.2, 8⟩
    else if vie.op.opByte = 0x8B then some ⟨vie.opsize, false, gpr vie.reg, 0, 8 * vie.opsize⟩
    else if vie.op.opByte = 0xA1 then some ⟨vie.opsize, false, .rax, 0, 8 * vie.opsize⟩
    else none
  | .movzx =>
    if vie.op.opByte = 0xB6 then some ⟨1, false, gpr vie.reg, 0, 8 * vie.opsize⟩
    else if vie.op.opByte = 0xB7 then some ⟨2, false, gpr vie.reg, 0, 8 * vie.opsize⟩
    else none
  | .movsx => if vie.op.opByte = 0xBE then some ⟨1, true, gpr vie.reg, 0, 8 * vie.opsize⟩ else none
  | _ => none

/-- The operand, with copies of its sign or zeros before it. -/
def Load.value (l : Load) (m : BitVec 64) : BitVec 64 :=
  if l.signed then (m.setWidth (8 * l.size)).signExtend 64 else (m.setWidth (8 * l.size)).setWidth 64

/-- Some bits of a register are written. A write of the lower half clears the upper one, a smaller one keeps the rest. -/
def Placed (lo width : Nat) (v old new : BitVec 64) : Prop :=
  ∀ i < 64, new.getLsbD i =
    if lo ≤ i ∧ i < lo + width then v.getLsbD (i - lo) else if width = 32 then false else old.getLsbD i

structure Loaded (r : Region δ) (gpa : BitVec 64) (l : Load) (m : BitVec 64) (s t : Vcpu δ) : Prop where
  read : r.memread s.dev gpa l.size = .ok (m, t.dev)
  placed : Placed l.lo l.width (l.value m) (s.regs l.reg) (t.regs l.reg)
  preserved : ∀ reg, reg ≠ l.reg → t.regs reg = s.regs reg
  log : t.log = s.log ++ [.read gpa l.size m]
  rest : t.guest = s.guest ∧ t.segs = s.segs ∧ t.nextrip = s.nextrip

/-- Done, or the callback has failed and nothing has changed. -/
def LoadsExactly (r : Region δ) (gpa : BitVec 64) (l : Load) (s : Vcpu δ) : EStateM.Result Stop (Vcpu δ) PUnit → Prop
  | .ok _ t => ∃ m, Loaded r gpa l m s t
  | .error stop t => t = s ∧ ∃ e, stop = .error e ∧ r.memread s.dev gpa l.size = .error e

section Loads
variable {r : Region δ} {gpa : BitVec 64} {vie : Vie} {s : Vcpu δ} {l : Load}

theorem updatedRegister_placed {size : Nat} (hsize : size = 2 ∨ size = 4 ∨ size = 8) {old val v : BitVec 64}
    (hval : ∀ i < 8 * size, val.getLsbD i = v.getLsbD i) : Placed 0 (8 * size) v old (updatedRegister old val size) := by
  intro i hi
  rw [Nat.sub_zero]
  rcases hsize with rfl | rfl | rfl
  · change ((val &&& 0xffff#64) ||| (old &&& ~~~(0xffff#64))).getLsbD i = _
    rw [BitVec.getLsbD_or, BitVec.getLsbD_and, BitVec.getLsbD_and, BitVec.getLsbD_not, mask16_getLsbD]
    by_cases hlow : i < 16
    · have hbit := hval i hlow
      simp only [hlow, hi, decide_true, Bool.and_true, Bool.not_true, Bool.and_false, Bool.or_false, hbit]
      simp
    · simp [hlow, hi]
  · change (val &&& 0xffffffff#64).getLsbD i = _
    rw [BitVec.getLsbD_and, mask32_getLsbD]
    by_cases hlow : i < 32
    · simp [hlow, hval i hlow]
    · simp [hlow]
  · rw [if_pos (by omega)]
    exact hval i hi

/-- A load to the low bits of a register. -/
theorem load_low {reg : VmReg} {size opsize : Nat} {signed : Bool} (val : BitVec 64 → BitVec 64)
    (hsize : opsize = 2 ∨ opsize = 4 ∨ opsize = 8)
    (hval : ∀ m, ∀ i < 8 * opsize, (val m).getLsbD i =
      ((⟨size, signed, reg, 0, 8 * opsize⟩ : Load).value m).getLsbD i) :
    LoadsExactly r gpa ⟨size, signed, reg, 0, 8 * opsize⟩ s
      ((memread r gpa size >>= fun m => vieUpdateRegister reg (val m) opsize) s) := by
  rcases memread_run r gpa s size with ⟨e, hread, hrun⟩ | ⟨m, dev, hread, hrun⟩
  · rw [bind_of_error hrun]
    exact ⟨rfl, e, rfl, hread⟩
  · rw [bind_of_ok hrun, updateRegister_run hsize]
    refine ⟨m, hread, ?_, fun reg' hne => write_regs_ne hne _ _, rfl, rfl, rfl, rfl⟩
    rw [write_regs_self]
    exact updatedRegister_placed hsize (hval m)

theorem byteOperand_eq (vie : Vie) : vieCalcBytereg vie =
    ((byteOperand vie.rexPresent vie.reg).1, decide ((byteOperand vie.rexPresent vie.reg).2 = 8)) := by
  have hbit : vie.reg &&& 0x4 ≠ 0 ↔ vie.reg.testBit 2 = true := by
    have hand := Nat.and_two_pow vie.reg 2
    rw [show (0x4 : Nat) = 2 ^ 2 from rfl, hand]
    cases vie.reg.testBit 2 <;> simp
  have hlow : vie.reg &&& 0x3 = vie.reg % 4 := Nat.and_two_pow_sub_one_eq_mod vie.reg 2
  simp only [vieCalcBytereg, byteOperand, hbit, hlow]
  split
  · rfl
  · rfl

/-- A byte at a bit of a register. -/
theorem byte_placed (lo : Nat) {byte v : BitVec 64} (hbyte : ∀ i < 8, byte.getLsbD i = v.getLsbD i) (old : BitVec 64) :
    Placed lo 8 v old (((byte &&& 0xff) <<< lo) ||| (old &&& ~~~((0xff : BitVec 64) <<< lo))) := by
  have hmask (i : Nat) : (0xff : BitVec 64).getLsbD i = decide (i < 8) := by
    have heq : (0xff : BitVec 64) = (BitVec.allOnes 8).setWidth 64 := by decide
    rw [heq, BitVec.getLsbD_setWidth, BitVec.getLsbD_allOnes, ← Bool.decide_and]
    exact decide_eq_decide.mpr ⟨fun h => h.2, fun h => ⟨by omega, h⟩⟩
  intro i hi
  rw [BitVec.getLsbD_or, BitVec.getLsbD_and, BitVec.getLsbD_not, BitVec.getLsbD_shiftLeft, BitVec.getLsbD_shiftLeft,
    BitVec.getLsbD_and, hmask]
  by_cases hin : lo ≤ i ∧ i < lo + 8
  · have hge : ¬ i < lo := by omega
    have hlt : i - lo < 8 := by omega
    simp [hin, hi, hge, hlt, hbyte _ hlt]
  · rw [if_neg hin, if_neg (by decide)]
    by_cases hbelow : i < lo
    · simp [hbelow, hi]
    · have hge : ¬ i - lo < 8 := by omega
      simp [hge, hi]

/-- An operand of the operand size is not extended. -/
theorem whole_bit {size : Nat} {reg : VmReg} (hsize : size = 2 ∨ size = 4 ∨ size = 8) (m : BitVec 64) {i : Nat}
    (hi : i < 8 * size) : m.getLsbD i = ((⟨size, false, reg, 0, 8 * size⟩ : Load).value m).getLsbD i := by
  have h64 : i < 64 := by omega
  simp [Load.value, hi, h64]

theorem zeroExtend_value {reg : VmReg} {n lo width : Nat} (hn : 8 * n ≤ 64) {mask : BitVec 64}
    (hmask : mask.toNat = 2 ^ (8 * n) - 1) (m : BitVec 64) : (⟨n, false, reg, lo, width⟩ : Load).value m = m &&& mask := by
  have hlt : m.toNat % 2 ^ (8 * n) < 2 ^ 64 :=
    (Nat.mod_lt _ (by positivity)).trans_le (Nat.pow_le_pow_right (by decide) hn)
  apply BitVec.eq_of_toNat_eq
  simp only [Load.value, Bool.false_eq_true, if_false, BitVec.toNat_setWidth, BitVec.toNat_and, hmask]
  rw [Nat.and_two_pow_sub_one_eq_mod, Nat.mod_eq_of_lt hlt]

/-- A load to a byte of a register. -/
theorem load_byte : LoadsExactly r gpa
    ⟨1, false, (byteOperand vie.rexPresent vie.reg).1, (byteOperand vie.rexPresent vie.reg).2, 8⟩ s
    ((memread r gpa 1 >>= fun m => vieWriteBytereg vie m) s) := by
  rcases memread_run r gpa s 1 with ⟨e, hread, hrun⟩ | ⟨m, dev, hread, hrun⟩
  · rw [bind_of_error hrun]
    exact ⟨rfl, e, rfl, hread⟩
  · rw [bind_of_ok hrun]
    have hlo : (byteOperand vie.rexPresent vie.reg).2 = 0 ∨ (byteOperand vie.rexPresent vie.reg).2 = 8 := by
      rw [byteOperand]
      split
      · exact .inr rfl
      · exact .inl rfl
    have hshift : (if decide ((byteOperand vie.rexPresent vie.reg).2 = 8) = true then 8 else 0) =
        (byteOperand vie.rexPresent vie.reg).2 := by
      rcases hlo with h | h
      · rw [h]
        rfl
      · rw [h]
        rfl
    have hwrite (u : Vcpu δ) : vieWriteBytereg vie m u = .ok ⟨⟩ { u with
        regs := Function.update u.regs (byteOperand vie.rexPresent vie.reg).1
          (((m &&& 0xff) <<< (byteOperand vie.rexPresent vie.reg).2) ||| (u.regs (byteOperand vie.rexPresent vie.reg).1 &&&
            ~~~((0xff : BitVec 64) <<< (byteOperand vie.rexPresent vie.reg).2))) } := by
      simp only [vieWriteBytereg, byteOperand_eq, hshift]
      rfl
    rw [hwrite]
    refine ⟨m, hread, ?_, fun reg hne => Function.update_of_ne hne _ _, rfl, rfl, rfl, rfl⟩
    simp only [Function.update_self]
    refine byte_placed _ (fun i hi => ?_) _
    simp [Load.value, hi]
    omega

/-- A load that has been decoded puts exactly the operand, extended as its form says, in exactly the bits of the register
that it names, and changes nothing else. A callback that fails leaves everything as it was. -/
theorem load_exact (r : Region δ) (vm : Vm) (paging : GuestPaging) (gpa : BitVec 64)
    (vmGetRegister : VmReg → Option Nat) (gla : Nat) (csD : Bool) (inst : List UInt8) (vie : Vie) (l : Load) (s : Vcpu δ)
    (hdecode : Decode.vmmDecodeInstruction vmGetRegister gla paging.cpuMode csD (Decode.vieInit inst) = some vie)
    (hload : loadForm vie = some l) : LoadsExactly r gpa l s (vmmEmulateInstruction r vm paging gpa vie s) := by
  obtain ⟨hdecoded, hsize⟩ := decoded_opsize hdecode
  have hnot : ¬ vie.decoded = false := by simp [hdecoded]
  rw [loadForm] at hload
  simp only [vmmEmulateInstruction, if_neg hnot]
  cases htype : vie.op.opType with
  | mov =>
    simp only [htype] at hload ⊢
    split at hload
    · rename_i hb
      cases hload
      have hbody : emulateMov r gpa vie s = (memread r gpa 1 >>= fun m => vieWriteBytereg vie m) s := by
        simp only [emulateMov, hb]
        rfl
      rw [hbody]
      exact load_byte
    · split at hload
      · rename_i hb
        cases hload
        have hbody : emulateMov r gpa vie s = (memread r gpa vie.opsize >>= fun m =>
            vieUpdateRegister (gpr vie.reg) m vie.opsize) s := by
          simp only [emulateMov, hb]
          rfl
        rw [hbody]
        exact load_low id hsize fun m i hi => whole_bit hsize m hi
      · split at hload
        · rename_i hb
          cases hload
          have hbody : emulateMov r gpa vie s = (memread r gpa vie.opsize >>= fun m =>
              vieUpdateRegister .rax m vie.opsize) s := by
            simp only [emulateMov, hb]
            rfl
          rw [hbody]
          exact load_low id hsize fun m i hi => whole_bit hsize m hi
        · cases hload
  | movzx =>
    simp only [htype] at hload ⊢
    split at hload
    · rename_i hb
      cases hload
      simp only [emulateMovx, if_pos hb]
      exact load_low (fun m => m &&& 0xff) hsize fun m i _ => by
        rw [@zeroExtend_value _ 1 _ _ (by decide) 0xff rfl m]
    · split at hload
      · rename_i hne hb
        cases hload
        simp only [emulateMovx, if_neg hne, if_pos hb]
        exact load_low (fun m => m &&& 0xffff) hsize fun m i _ => by
          rw [@zeroExtend_value _ 2 _ _ (by decide) 0xffff rfl m]
      · cases hload
  | movsx =>
    simp only [htype] at hload ⊢
    split at hload
    · rename_i hb
      cases hload
      have hbody : emulateMovx r gpa vie s = (memread r gpa 1 >>= fun m =>
          vieUpdateRegister (gpr vie.reg) ((m.setWidth 8).signExtend 64) vie.opsize) s := by
        simp only [emulateMovx, hb]
        rfl
      rw [hbody]
      exact load_low (fun m => (m.setWidth 8).signExtend 64) hsize fun m i _ => rfl
    · cases hload
  | _ =>
    simp only [htype] at hload
    cases hload

end Loads

/-- Every byte reads as ones. -/
def onesRegion : Region Unit where
  memread dev _ size := .ok (Segment.size2mask size, dev)
  memwrite dev _ _ _ := .ok dev

/-- `mov ah, [eax]` reaches the high byte, and only that. -/
theorem load_exact_ah :
    loadForm (decodeFlat 0xfec00000 [0x8a, 0x20]) = some ⟨1, false, .rax, 8, 8⟩ ∧
    LoadsExactly onesRegion 0xfec00000 ⟨1, false, .rax, 8, 8⟩ (plainVcpu 0xfec00000)
      (vmmEmulateInstruction onesRegion TaskSwitch.smallRam.vm ⟨0, 0, .protectedMode, .flat⟩ 0xfec00000
        (decodeFlat 0xfec00000 [0x8a, 0x20]) (plainVcpu 0xfec00000)) ∧
    (finalState (vmmEmulateInstruction onesRegion TaskSwitch.smallRam.vm ⟨0, 0, .protectedMode, .flat⟩ 0xfec00000
      (decodeFlat 0xfec00000 [0x8a, 0x20]) (plainVcpu 0xfec00000))).regs .rax = 0xfec0ff00 := by
  have hload : loadForm (decodeFlat 0xfec00000 [0x8a, 0x20]) = some ⟨1, false, .rax, 8, 8⟩ := by decide +kernel
  refine ⟨hload, ?_, by decide +kernel⟩
  exact load_exact onesRegion TaskSwitch.smallRam.vm ⟨0, 0, .protectedMode, .flat⟩ 0xfec00000 (fun _ => some 0xfec00000)
    0xfec00000 true [0x8a, 0x20] (decodeFlat 0xfec00000 [0x8a, 0x20]) _ (plainVcpu 0xfec00000) (by decide +kernel) hload

end Xhyve.Vmm.Emulate
