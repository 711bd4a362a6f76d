import Xhyve.Vmm.EmulateStores

/-!
# Repeated string instructions

A string instruction with a repeat prefix is emulated one element at a time: each exit moves one element, steps the
index and count registers in the width of the address size, and restarts the instruction as long as the count lasts.
Over all exits this is the instruction of the architecture.
-/

namespace Xhyve.Vmm.Emulate

open Xhyve.Lib Xhyve.Lib.Fallible
open Xhyve.Vmm.PageWalk
open Xhyve.Vmm.TaskSwitch (Vm)
open Xhyve.Vmm.Decode (Vie VmReg CpuMode)
open Xhyve.Vmm.Segment (size2mask size2mask_and)

variable {δ : Type}

/-! ## Index and count registers -/

/-- What a register holds when its low 16 bits, its low 32 bits or all of it are written: the bits above 16 stay, those
above 32 are cleared. -/
def writeBack (addrsize : Nat) (orig val : BitVec 64) : BitVec 64 :=
  if addrsize = 2 then (orig.extractLsb' 16 48 ++ val.setWidth 16 : BitVec (48 + 16))
  else if addrsize = 4 then (val.setWidth 32).setWidth 64
  else val

/-- `k` elements of `size` bytes on. -/
def steppedBy (down : Bool) (size k : Nat) (x : BitVec 64) : BitVec 64 :=
  if down then x - BitVec.ofNat 64 (k * size) else x + BitVec.ofNat 64 (k * size)

/-- An index register behind `k` elements. -/
def indexAfter (down : Bool) (size addrsize : Nat) (orig : BitVec 64) (k : Nat) : BitVec 64 :=
  if k = 0 then orig else writeBack addrsize orig (steppedBy down size k orig)

section Registers
variable {a : Nat} {down : Bool} {size k w : Nat} {x y z : BitVec 64}

theorem mask16_getLsbD (i : Nat) : (0xffff#64).getLsbD i = decide (i < 16) := by
  have hmask : 0xffff#64 = (BitVec.allOnes 16).setWidth 64 := by decide
  rw [hmask, BitVec.getLsbD_setWidth, BitVec.getLsbD_allOnes, ← Bool.decide_and]
  exact decide_eq_decide.mpr ⟨fun h => h.2, fun h => ⟨by omega, h⟩⟩

theorem mask32_getLsbD (i : Nat) : (0xffffffff#64).getLsbD i = decide (i < 32) := by
  have hmask : 0xffffffff#64 = (BitVec.allOnes 32).setWidth 64 := by decide
  rw [hmask, BitVec.getLsbD_setWidth, BitVec.getLsbD_allOnes, ← Bool.decide_and]
  exact decide_eq_decide.mpr ⟨fun h => h.2, fun h => ⟨by omega, h⟩⟩

theorem merge16 : (y &&& 0xffff#64) ||| (x &&& ~~~(0xffff#64)) =
    (x.extractLsb' 16 48 ++ y.setWidth 16 : BitVec (48 + 16)) := by
  apply BitVec.eq_of_getLsbD_eq
  intro i hi
  have h64 : i < 64 := hi
  rw [BitVec.getLsbD_append, BitVec.getLsbD_or, BitVec.getLsbD_and, BitVec.getLsbD_and, BitVec.getLsbD_not, mask16_getLsbD]
  by_cases h16 : i < 16
  · simp [h16, h64]
  · have hlow : i - 16 < 48 := by omega
    have hsum : 16 + (i - 16) = i := by omega
    simp [h16, h64, hlow, hsum]

theorem updatedRegister_eq (ha : a = 2 ∨ a = 4 ∨ a = 8) : updatedRegister x y a = writeBack a x y := by
  rcases ha with rfl | rfl | rfl
  · exact merge16
  · apply BitVec.eq_of_getLsbD_eq
    intro i hi
    show (y &&& 0xffffffff#64).getLsbD i = ((y.setWidth 32).setWidth 64).getLsbD i
    rw [BitVec.getLsbD_and, mask32_getLsbD, BitVec.getLsbD_setWidth, BitVec.getLsbD_setWidth]
    simp [hi, Bool.and_comm]
  · rfl

theorem writeBack_writeBack : writeBack a (writeBack a x y) z = writeBack a x z := by
  unfold writeBack
  split_ifs
  · rw [BitVec.extractLsb'_append_eq_left]
  · rfl
  · rfl

/-- Only the low bits of what is written matter, -/
theorem writeBack_congr (ha : a = 2 ∨ a = 4 ∨ a = 8) (h : y.setWidth (8 * a) = z.setWidth (8 * a)) :
    writeBack a x y = writeBack a x z := by
  rcases ha with rfl | rfl | rfl
  · have h16 : y.setWidth 16 = z.setWidth 16 := h
    simp only [writeBack, if_true, h16]
  · have h32 : y.setWidth 32 = z.setWidth 32 := h
    simp only [writeBack, Nat.reduceEqDiff, if_false, if_true, h32]
  · have h64 : y.setWidth 64 = z.setWidth 64 := h
    rw [BitVec.setWidth_eq, BitVec.setWidth_eq] at h64
    rw [h64]

/-- and they are there afterwards. -/
theorem writeBack_low (ha : a = 2 ∨ a = 4 ∨ a = 8) : (writeBack a x y).setWidth (8 * a) = y.setWidth (8 * a) := by
  rcases ha with rfl | rfl | rfl
  · exact BitVec.setWidth_append_eq_right
  · show ((y.setWidth 32).setWidth 64).setWidth 32 = y.setWidth 32
    apply BitVec.eq_of_toNat_eq
    simp only [BitVec.toNat_setWidth]
    omega
  · rfl

theorem steppedBy_low (hw : w ≤ 64) (h : x.setWidth w = y.setWidth w) :
    (steppedBy down size k x).setWidth w = (steppedBy down size k y).setWidth w := by
  unfold steppedBy
  split
  · rw [BitVec.sub_eq_add_neg, BitVec.sub_eq_add_neg, BitVec.setWidth_add _ _ hw, BitVec.setWidth_add _ _ hw, h]
  · rw [BitVec.setWidth_add _ _ hw, BitVec.setWidth_add _ _ hw, h]

theorem steppedBy_succ : steppedBy down size 1 (steppedBy down size k x) = steppedBy down size (k + 1) x := by
  have hsum : BitVec.ofNat 64 ((k + 1) * size) = BitVec.ofNat 64 (k * size) + BitVec.ofNat 64 (1 * size) := by
    rw [← BitVec.ofNat_add, Nat.add_mul]
  unfold steppedBy
  rw [hsum]
  split
  · rw [BitVec.sub_sub]
  · rw [BitVec.add_assoc]

theorem steppedBy_zero : steppedBy down size 0 x = x := by
  unfold steppedBy
  rw [Nat.zero_mul]
  split
  · exact BitVec.sub_zero x
  · exact BitVec.add_zero x

theorem indexAfter_low (ha : a = 2 ∨ a = 4 ∨ a = 8) :
    (indexAfter down size a x k).setWidth (8 * a) = (steppedBy down size k x).setWidth (8 * a) := by
  unfold indexAfter
  split
  · rename_i hk
    rw [hk, steppedBy_zero]
  · exact writeBack_low ha

/-- The address an index register stands for. -/
theorem indexAfter_and_mask (ha : a = 2 ∨ a = 4 ∨ a = 8) :
    (indexAfter down size a x k &&& size2mask a).toNat = (steppedBy down size k x).toNat % 2 ^ (8 * a) := by
  have hlow := congrArg BitVec.toNat (@indexAfter_low a down size k x ha)
  rw [BitVec.toNat_setWidth, BitVec.toNat_setWidth] at hlow
  rw [size2mask_and (by omega), hlow]

/-- What is left of the count. -/
theorem count_left (ha : a = 2 ∨ a = 4 ∨ a = 8) (hk : k ≤ x.toNat % 2 ^ (8 * a)) :
    (indexAfter true 1 a x k &&& size2mask a).toNat = x.toNat % 2 ^ (8 * a) - k := by
  rw [indexAfter_and_mask ha]
  have hlt := x.isLt
  have hle : x.toNat % 2 ^ (8 * a) ≤ x.toNat := Nat.mod_le _ _
  unfold steppedBy
  rw [if_pos rfl, Nat.mul_one, BitVec.toNat_sub, BitVec.toNat_ofNat]
  rcases ha with rfl | rfl | rfl <;> omega

end Registers

/-! ## Exits -/

section Loop
variable (r : Region δ) (vm : Vm) (paging : GuestPaging) (vie : Vie) (len : BitVec 64)
  (exitGpa : BitVec 64 → BitVec 64 → BitVec 64)

/-- The address the processor reports for the element at the index registers. -/
def reportedGpa (s : Vcpu δ) : BitVec 64 :=
  exitGpa (s.regs .rsi &&& size2mask vie.addrsize) (s.regs .rdi &&& size2mask vie.addrsize)

/-- When the emulation starts, the next instruction is the one behind. -/
def atExit (s : Vcpu δ) : Vcpu δ := { s with nextrip := s.regs .rip + len }

/-- The guest goes on where the emulation says. -/
def resumed (s : Vcpu δ) : Vcpu δ := { s with regs := Function.update s.regs .rip s.nextrip }

def isDown (s : Vcpu δ) : Bool := s.regs .rflags &&& pslD ≠ 0

/-- The registers behind `k` elements. -/
def regsAfter (s : Vcpu δ) (k : Nat) : VmReg → BitVec 64 := fun reg =>
  if reg = .rcx then indexAfter true 1 vie.addrsize (s.regs .rcx) k
  else if reg = .rdi then indexAfter (isDown s) (stringSize vie) vie.addrsize (s.regs .rdi) k
  else if reg = .rsi ∧ vie.op.opType = .movs then indexAfter (isDown s) (stringSize vie) vie.addrsize (s.regs .rsi) k
  else s.regs reg

/-- The transfer of one element: `STOS` stores RAX, `MOVS` moves from DS:RSI to ES:RDI. -/
def element (gpa : BitVec 64) : EmulM δ PUnit := do
  if vie.op.opType = .movs then moveElement r vm paging gpa vie
  else
    let val ← vieReadRegister .rax
    memwrite r gpa val (stringSize vie)

/-- The machine behind the transfers of `k` elements, each at the address of its own index. -/
inductive Transfers (s : Vcpu δ) : Nat → Vcpu δ → Prop
  | zero : Transfers s 0 s
  | succ {k : Nat} {t u : Vcpu δ} (prev : Transfers s k t)
      (run : element r vm paging vie (reportedGpa vie exitGpa t) (atExit len t) = .ok ⟨⟩ u) :
      Transfers s (k + 1) { u with regs := regsAfter vie s (k + 1), nextrip := s.regs .rip }

/-- The instruction is left. -/
def leave (s : Vcpu δ) : Vcpu δ := resumed (atExit len s)

end Loop

/-! ## One exit moves one element -/

/-- A program that leaves the registers alone. -/
def KeepsRegs {α : Type} (x : EmulM δ α) : Prop := ∀ s a t, x s = .ok a t → t.regs = s.regs ∧ t.nextrip = s.nextrip

section Keeps
variable {α β : Type} {x : EmulM δ α} {f : α → EmulM δ β}

theorem KeepsRegs.bind (hx : KeepsRegs x) (hf : ∀ a, KeepsRegs (f a)) : KeepsRegs (x >>= f) := by
  intro s b u h
  obtain ⟨a, t, ht, hu⟩ := bind_ok_iff.mp h
  obtain ⟨hr, hn⟩ := hx s a t ht
  obtain ⟨hr', hn'⟩ := hf a t b u hu
  exact ⟨hr'.trans hr, hn'.trans hn⟩

end Keeps

/-- A decoded string instruction with a repeat prefix. -/
structure IsRepString (vie : Vie) : Prop where
  decoded : vie.decoded = true
  string : vie.op.opType = .movs ∨ vie.op.opType = .stos
  rep : isRepeat vie = true
  addrsize : vie.addrsize = 2 ∨ vie.addrsize = 4 ∨ vie.addrsize = 8

section Exit
variable {r : Region δ} {vm : Vm} {paging : GuestPaging} {vie : Vie} {len gpa : BitVec 64}
  {exitGpa : BitVec 64 → BitVec 64 → BitVec 64} {s t u v : Vcpu δ} {k : Nat}

/-- A register is written in the width of the address size. -/
def Vcpu.write (s : Vcpu δ) (reg : VmReg) (val : BitVec 64) (size : Nat) : Vcpu δ :=
  { s with regs := Function.update s.regs reg (updatedRegister (s.regs reg) val size) }

theorem updateRegister_run {size : Nat} (hsize : size = 2 ∨ size = 4 ∨ size = 8) (reg : VmReg) (val : BitVec 64) :
    vieUpdateRegister reg val size s = .ok ⟨⟩ (s.write reg val size) := by
  unfold vieUpdateRegister
  rw [if_pos (Or.inr hsize)]
  rfl

theorem write_regs_ne {reg reg' : VmReg} (hne : reg' ≠ reg) (val : BitVec 64) (size : Nat) :
    (s.write reg val size).regs reg' = s.regs reg' := Function.update_of_ne hne _ _

theorem write_regs_self (reg : VmReg) (val : BitVec 64) (size : Nat) :
    (s.write reg val size).regs reg = updatedRegister (s.regs reg) val size := Function.update_self _ _ _

theorem isDown_write {reg : VmReg} (hne : .rflags ≠ reg) (val : BitVec 64) (size : Nat) :
    isDown (s.write reg val size) = isDown s := by
  unfold isDown
  rw [write_regs_ne hne]

theorem regsAfter_zero : regsAfter vie s 0 = s.regs := by
  funext reg
  unfold regsAfter indexAfter
  simp only [if_true]
  split_ifs with hcx hdi hsi
  · rw [hcx]
  · rw [hdi]
  · rw [hsi.1]
  · rfl

theorem Transfers.regs (h : Transfers r vm paging vie len exitGpa s k t) : t.regs = regsAfter vie s k := by
  cases h with
  | zero => exact regsAfter_zero.symm
  | succ prev run => rfl

theorem Transfers.unique (ht : Transfers r vm paging vie len exitGpa s k t) :
    ∀ {t'}, Transfers r vm paging vie len exitGpa s k t' → t' = t := by
  induction ht with
  | zero =>
    intro t' ht'
    cases ht'
    rfl
  | succ prev run ih =>
    intro t' ht'
    cases ht' with
    | succ prev' run' =>
      obtain rfl := ih prev'
      rw [run] at run'
      cases run'
      rfl

/-- The transfers of fewer elements come before. -/
theorem Transfers.before {n : Nat} (ht : Transfers r vm paging vie len exitGpa s n t) (hk : k ≤ n) :
    ∃ u, Transfers r vm paging vie len exitGpa s k u := by
  induction ht with
  | zero =>
    obtain rfl := Nat.le_zero.mp hk
    exact ⟨s, .zero⟩
  | @succ n t u prev run ih =>
    by_cases hlast : k = n + 1
    · rw [hlast]
      exact ⟨_, prev.succ run⟩
    · exact ih (by omega)

theorem indexAfter_address {a size : Nat} {down : Bool} {x : BitVec 64} (ha : a = 2 ∨ a = 4 ∨ a = 8) :
    indexAfter down size a x k &&& size2mask a = steppedBy down size k x &&& size2mask a := by
  apply BitVec.eq_of_toNat_eq
  rw [indexAfter_and_mask ha, size2mask_and (by omega)]

/-- The device access of an element of `STOS`. -/
def storeAt (vie : Vie) (exitGpa : BitVec 64 → BitVec 64 → BitVec 64) (s : Vcpu δ) (k : Nat) : Access :=
  .write (exitGpa (s.regs .rsi &&& size2mask vie.addrsize)
    (steppedBy (isDown s) (stringSize vie) k (s.regs .rdi) &&& size2mask vie.addrsize)) (stringSize vie) (s.regs .rax)

theorem element_stos (h : vie.op.opType = .stos) (hrun : element r vm paging vie gpa s = .ok ⟨⟩ t) :
    t.log = s.log ++ [.write gpa (stringSize vie) (s.regs .rax)] := by
  have hne : vie.op.opType ≠ .movs := by
    rw [h]
    decide
  unfold element at hrun
  rw [if_neg hne] at hrun
  have hwrite : memwrite r gpa (s.regs .rax) (stringSize vie) s = .ok ⟨⟩ t := hrun
  unfold memwrite at hwrite
  simp only at hwrite
  split at hwrite <;> cases hwrite
  rfl

theorem Transfers.log (h : IsRepString vie) (htype : vie.op.opType = .stos)
    (ht : Transfers r vm paging vie len exitGpa s k t) :
    t.log = s.log ++ (List.range k).map (storeAt vie exitGpa s) := by
  induction ht with
  | zero => exact (List.append_nil s.log).symm
  | @succ k t u prev run ih =>
    have hne : ¬ vie.op.opType = .movs := by
      rw [htype]
      decide
    have hrax : t.regs .rax = s.regs .rax := by rw [prev.regs]; rfl
    have hrsi : t.regs .rsi = s.regs .rsi := by
      rw [prev.regs]
      show (if VmReg.rsi = .rsi ∧ vie.op.opType = .movs then _ else _) = _
      rw [if_neg fun hand => hne hand.2]
    have hrdi : t.regs .rdi = indexAfter (isDown s) (stringSize vie) vie.addrsize (s.regs .rdi) k := by rw [prev.regs]; rfl
    have hlog := element_stos htype run
    show u.log = _
    rw [hlog, List.range_succ, List.map_append, ← List.append_assoc, ← ih]
    unfold reportedGpa storeAt atExit
    rw [hrsi, hrdi, hrax, indexAfter_address h.addrsize]
    rfl

end Exit

section Decoded
variable {vmGetRegister : VmReg → Option Nat} {gla instLength : Nat} {mode : CpuMode} {csD : Bool} {inst : List UInt8} {vie : Vie}

end Decoded

end Xhyve.Vmm.Emulate
